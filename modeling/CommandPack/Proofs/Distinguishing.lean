import Mathlib
import CommandPack.Proofs.Declaring

/-!
Programs and the names of their blocks. No name is taken twice unless a function has the name of a block that is made
for a branch or loop; nested statements and all other declarations keep their names apart.
-/

namespace CommandPack.Compile

open Stateful CommandPack.Graph

variable {sc : Scope} {s : Session} {F : Set Nat} {α : Type}

/-- The name of the function is none of those that are made for its branches and loops. -/
def Unnumbered (decl : FunctionDecl) : Prop := ∀ n, 0 < n → decl.name ∉ numberedNames n

theorem admits_orderly : Admits Orderly Unnumbered fun _ ↦ True where
  toInvariant := invariant_orderly
  function {F s parent decl} h hp _ hdecl hname tags := by
    refine h.functionMade hp hname (fun _ n hn ↦ ?_) hdecl tags decl.description
    rcases Nat.eq_zero_or_pos n with rfl | hpos
    · exact Nat.zero_le _
    · exact absurd hn (hdecl n hpos)
  family h hp _ hnot _ hname _ _ := h.made hp hname (absurd · hnot) _

/-- A computation keeps the order. -/
abbrev Sorts (x : Build α) (F : Set Nat) (s : Session) : Prop := Upholds Orderly x F s fun _ _ _ ↦ True

theorem sorts_fillAll {todo : List (FunctionDecl × NodeId × Option Family)} (h : Orderly F s)
    (htodo : ∀ job ∈ todo, job.2.1 ∈ F) : Sorts (fillAll sc todo) F s :=
  upholds_fillAll invariant_orderly h htodo

theorem orders_declare (hs : s.failure = none) (lib : Option Library) (filename : String) {p : Program}
    (hp : ∀ f ∈ allFunctions p, Unnumbered f) :
    Upholds Orderly (declare { lib, filename } p) ∅ s fun sc F s' ↦ Housed F s' sc :=
  upholds_declare admits_orderly lib filename ⟨hs, nofun, nofun⟩ (fun _ ↦ ⟨hs, nofun, nofun⟩) (fun _ _ ↦ trivial) hp

/-- Generated block names are fresh but for one clash. Compiling a program makes no name twice unless some function or
method has the name of a block that is made for a branch or loop, numbered with the count of blocks before it and its
entry. Statements at any depth, and all other declarations, keep their names apart. -/
theorem block_names_distinct (lib : Option Library) (filename : String) (cancelled : Bool) (p : Program)
    (hs : s.failure = none) (hp : ∀ f ∈ allFunctions p, ∀ n, 0 < n → f.name ∉ numberedNames n) :
    (program lib filename cancelled p s).2.failure = none := by
  obtain ⟨F, -, h₁, hdeclared⟩ := orders_declare hs lib filename hp
  unfold program
  rcases hdeclare : declare { lib, filename } p s with ⟨e | sc, s₁⟩
  · rw [hdeclare] at h₁
    rw [show (declare { lib, filename } p).run s = _ from hdeclare]
    exact h₁.failure
  rw [hdeclare] at h₁ hdeclared
  rw [show (declare { lib, filename } p).run s = _ from hdeclare]
  obtain ⟨F₂, -, h₂, -⟩ : Sorts (fillAll sc (jobs s₁ sc p)) F s₁ :=
    sorts_fillAll h₁ fun job ↦ (hdeclared sc rfl).mem_of_mem_jobs
  dsimp only
  split
  · exact h₁.failure
  rcases hfill : fillAll sc (jobs s₁ sc p) s₁ with ⟨e | problems, s₂⟩
  all_goals
    rw [hfill] at h₂
    rw [show (fillAll sc (jobs s₁ sc p)).run s₁ = _ from hfill]
    dsimp only
  · exact h₂.failure
  · split <;> exact h₂.failure

/-- A program with one variable and one function, whose body has branches with a test of the variable. -/
def branching (name : String) (body : Test → List Stmt) : Program :=
  let test : Test := { pos := ⟨1, 1⟩, left := ⟨⟨1, 1⟩, .ident "n"⟩, op := "matches", range := "1.." }
  { pos := ⟨1, 1⟩, root := "demo", vars := [{ pos := ⟨1, 1⟩, name := "n", kind := .score }],
    functions := [{ pos := ⟨1, 1⟩, name, body := body test }] }

/-- A branch with a loop in it and a second branch, in a function whose name has no number. -/
theorem block_names_distinct_main :
    let p := branching "main" fun test ↦ [.branch ⟨1, 1⟩ test [.loop ⟨1, 1⟩ test []] none, .branch ⟨1, 1⟩ test [] (some [])]
    (∀ f ∈ allFunctions p, ∀ n, 0 < n → f.name ∉ numberedNames n) ∧ (program none "" false p {}).2.failure = none := by
  intro p
  have hp : ∀ f ∈ allFunctions p, ∀ n, 0 < n → f.name ∉ numberedNames n := by
    intro f hf n _
    rw [List.mem_singleton.1 hf]
    exact notMem_numberedNames (by decide) n
  exact ⟨hp, block_names_distinct none "" false p rfl hp⟩

/-- A function is named like the body of its first branch. -/
theorem if1_clashes :
    let p := branching "if1" fun test ↦ [.branch ⟨1, 1⟩ test [] none]
    (program none "" false p {}).2.failure.map (·.message) = some "demo:if1 already has a child named \"if1\"" := by
  decide +kernel

end CommandPack.Compile
