import Mathlib
import CommandPack.Proofs.Crafting

/-!
Branches and loops, step by step. Both make bodies and blocks below a function, put instructions at its cursor and
let it go on in a new block; a function that was ended takes neither.
-/

namespace CommandPack.Graph

open Relation Stateful

variable {V : Vocabulary} {s s' : Session} {c : Condition} {k j fn parent : Nat} {name entryName : String}
  {bodies : List Nat}

theorem checkOpen_cases (fn : Nat) (s : Session) : (∃ e, checkOpen fn s = (.error e, s)) ∨ checkOpen fn s = (.ok (), s) := by
  cases h : (functionOf (s.node fn)).ended with
  | true => exact .inl ⟨_, checkOpen_of_ended h⟩
  | false => exact .inr (checkOpen_of_open h)

theorem add_cases (fn : Nat) (cmds : List Instruction) (s : Session) : (∃ e, add fn cmds s = (.error e, s)) ∨
    let cur := (functionOf (s.node fn)).current
    add fn cmds s = (.ok (), recast s cur (.block (extended (blockOf (s.node cur)) cmds))) := by
  rcases checkOpen_cases fn s with ⟨e, he⟩ | hopen
  · exact .inl ⟨e, by rw [add, bind_apply, he, andThen_error]⟩
  · refine .inr ?_
    simp only [add, bind_apply, hopen, andThen_ok, function_apply, append_apply]

/-- A branch fails, or makes its bodies, a block that enters it if need be, and a block after it. -/
theorem branch_cases (hfn : fn < s.nodes.size) (c : Condition) (withElse : Bool) :
    (∃ e, branch fn c withElse s = (.error e, s)) ∨ ∃ again again' cmds cmds',
      let s₁ := throughMade (minted (sidesMade s fn (branchName s fn) withElse again)) fn (branchName s fn) again' cmds
      branch fn c withElse s = (.ok (s.nodes.size, if withElse then some (s.nodes.size + 2) else none),
        joined (made s₁ fn (branchName s fn ++ "-continue") (.block {})) fn s₁.nodes.size s₁.nodes.size cmds'
          (sidesOf s.nodes.size withElse)) := by
  rcases checkOpen_cases fn s with ⟨e, he⟩ | hopen
  · exact .inl ⟨e, by rw [branch, bind_apply, he, andThen_error]⟩
  · have hlt : fn < (minted (sidesMade s fn (branchName s fn) withElse
        (functionOf (s.node fn)).reentrant)).nodes.size := by
      cases withElse <;> simp [sidesMade] <;> omega
    have hrun := branch_apply (c := c) hfn hopen withElse
    simp only [branchEntry_apply hlt, andThen_ok, bind_apply, joinBranch_apply, pure_apply] at hrun
    exact .inr ⟨_, _, _, _, hrun⟩

/-- A loop fails, or makes its body, a block that tests its condition and a block after it. -/
theorem loop_cases (hfn : fn < s.nodes.size) (c : Condition) :
    (∃ e, loop fn c s = (.error e, s)) ∨ ∃ cmds, loop fn c s = (.ok s.nodes.size,
      joined (cycleMade s fn c) fn (s.nodes.size + 2) (s.nodes.size + 3) cmds [s.nodes.size]) := by
  rcases checkOpen_cases fn s with ⟨e, he⟩ | hopen
  · exact .inl ⟨e, by rw [loop, bind_apply, he, andThen_error]⟩
  · exact .inr ⟨_, loop_apply hfn hopen⟩

theorem alters_minted (s : Session) : Alters V s (minted s) := .note rfl rfl

theorem isBlock_made (hparent : parent < s.nodes.size) (name : String) (b : BlockState) :
    IsBlock (made s parent name (.block b)) s.nodes.size :=
  isBlock_of_role ((role_made hparent _).trans (if_pos rfl))

theorem isFunction_bodyMade (hfn : fn < s.nodes.size) (name entryName description : String) (again : Bool) :
    IsFunction (bodyMade s fn name entryName description again) s.nodes.size :=
  ⟨_, (role_bodyMade hfn _).trans (if_pos rfl)⟩

theorem isBlock_bodyMade {description : String} {again : Bool} (hfn : fn < s.nodes.size) :
    IsBlock (bodyMade s fn name entryName description again) (s.nodes.size + 1) :=
  isBlock_of_role ((role_bodyMade hfn _).trans (by rw [if_neg (Nat.succ_ne_self _), if_pos rfl]))

theorem altered_bodyMade (hfn : IsFunction s fn) (hname : V.child name) (hentry : V.child entryName)
    (description : String) (again : Bool) : Altered V s (bodyMade s fn name entryName description again) := by
  have hmade : Altered V s (functionMade s fn name entryName [] description) :=
    .single (.makeFunction hfn.lt hfn.container hname hentry)
  exact hmade.tail (.steer (isFunction_functionMade hfn.lt) (isBlock_functionMade hfn.lt))

theorem altered_throughMade (hfn : IsFunction s fn) (hname : V.child (name ++ "-then")) (again : Bool)
    (cmds : List Instruction) : Altered V s (throughMade s fn name again cmds) := by
  rw [throughMade]
  split
  · have hmade : Altered V s (made s fn (name ++ "-then") (.block {})) :=
      .single (.make hfn.lt hfn.container hname ⟨rfl, rfl⟩)
    exact hmade.tail (.fill (isBlock_made hfn.lt _ _))
  · exact .refl

theorem altered_resumed (hs : Sane V s) (hbodies : ∀ b ∈ bodies, IsFunction s b) (k : Nat) :
    Altered V s (bodies.foldl (resumed · k) s) := by
  induction bodies generalizing s with
  | nil => exact .refl
  | cons b bodies ih =>
    obtain ⟨hb, hbodies⟩ := List.forall_mem_cons.1 hbodies
    have hstep : Alters V s (resumed s k b) := .steer hb (hs.current hb)
    exact .head hstep (ih (hstep.sane hs) fun b hb ↦ hstep.before.function (hbodies b hb))

theorem altered_joined (hs : Sane V s) (hfn : IsFunction s fn) (hbodies : ∀ b ∈ bodies, IsFunction s b)
    (hj : IsBlock s j) (k : Nat) (cmds : List Instruction) : Altered V s (joined s fn k j cmds bodies) := by
  have hcur := hs.current hfn
  set cur := (functionOf (s.node fn)).current
  have hfill : Alters V s (recast s cur (.block (extended (blockOf (s.node cur)) cmds))) := .fill hcur
  have hresumed := altered_resumed (hfill.sane hs) (fun b hb ↦ hfill.before.function (hbodies b hb)) k
  have hbefore := hfill.before.trans hresumed.before
  exact .tail (.head hfill hresumed) (.steer (hbefore.function hfn) (hbefore.block hj))

section Functions

variable (hV : V.Usual) (hs : Sane V s) (hfn : IsFunction s fn)

include hV hfn in
theorem altered_sidesMade (withElse again : Bool) : Altered V s (sidesMade s fn (branchName s fn) withElse again) ∧
    ∀ b ∈ sidesOf s.nodes.size withElse, IsFunction (sidesMade s fn (branchName s fn) withElse again) b := by
  have hlabel : IsLabel (branchName s fn) := IsLabel.append (a := "if") rfl (isLabel_toString _)
  have hentry : V.child "branch" := hV rfl
  have hyes := altered_bodyMade hfn (hV hlabel) hentry ("If-branch of " ++ (s.node fn).name) again
  have hbody := isFunction_bodyMade hfn.lt (branchName s fn) "branch" ("If-branch of " ++ (s.node fn).name) again
  cases withElse with
  | false => exact ⟨hyes, fun b hb ↦ List.mem_singleton.1 hb ▸ hbody⟩
  | true =>
    have hfn' := hyes.before.function hfn
    have hno (d : String) := altered_bodyMade hfn' (hV (hlabel.append (b := "-else") rfl)) hentry d again
    refine ⟨hyes.trans (hno _), fun b hb ↦ ?_⟩
    rcases List.mem_cons.1 hb with rfl | hb
    · have helse (d : String) := isFunction_bodyMade hfn'.lt (branchName s fn ++ "-else") "branch" d again
      rw [size_bodyMade] at helse
      exact helse _
    · exact List.mem_singleton.1 hb ▸ (hno _).before.function hbody

include hV hfn in
theorem altered_roundMade : Altered V s (roundMade s fn) ∧ IsFunction (roundMade s fn) s.nodes.size := by
  have hlabel : IsLabel (loopName s fn) := IsLabel.append (a := "while") rfl (isLabel_toString _)
  have hentry : V.child "loop" := hV rfl
  have hbody := altered_bodyMade hfn (hV hlabel) hentry ("While-loop of " ++ (s.node fn).name) true
  have hmint := alters_minted (V := V) (bodyMade s fn (loopName s fn) "loop" ("While-loop of " ++ (s.node fn).name) true)
  have hfill (b : BlockState) := Alters.fill (V := V) (b := b) (hmint.before.block (isBlock_bodyMade hfn.lt))
  rw [roundMade]
  exact ⟨(hbody.tail hmint).tail (hfill _), (hmint.before.trans (hfill _).before).function (isFunction_bodyMade hfn.lt _ _ _ _)⟩

include hV hfn in
theorem altered_cycleMade (c : Condition) : Altered V s (cycleMade s fn c) ∧
    IsFunction (cycleMade s fn c) s.nodes.size ∧ IsBlock (cycleMade s fn c) (s.nodes.size + 3) := by
  obtain ⟨hround, hbody⟩ := altered_roundMade hV hfn
  have hsize : (roundMade s fn).nodes.size = s.nodes.size + 2 := by simp [roundMade]
  have hlabel : IsLabel (loopName s fn) := IsLabel.append (a := "while") rfl (isLabel_toString _)
  have hcheck : Alters V (roundMade s fn) (made (roundMade s fn) s.nodes.size "check-cond" (.block {})) :=
    .make hbody.lt hbody.container (hV rfl) ⟨rfl, rfl⟩
  have hcheckBlock := isBlock_made hbody.lt "check-cond" {}
  rw [hsize] at hcheckBlock
  have hfn' := (hround.tail hcheck).before.function hfn
  have hnext := Alters.make hfn'.lt hfn'.container (hV (hlabel.append (b := "-continue") rfl))
    (show IsNew (.block {}) from ⟨rfl, rfl⟩)
  have hnextBlock := isBlock_made hfn'.lt (loopName s fn ++ "-continue") {}
  rw [size_made, hsize] at hnextBlock
  have hfill (b : BlockState) := Alters.fill (V := V) (b := b) (hnext.before.block hcheckBlock)
  have hsteps := (hround.tail hcheck).tail hnext
  have hlater := hcheck.before.trans hnext.before
  rw [cycleMade]
  exact ⟨hsteps.tail (hfill _), (hlater.trans (hfill _).before).function hbody, (hfill _).before.block hnextBlock⟩

include hV hs hfn

theorem altered_branch (c : Condition) (withElse : Bool) : Altered V s (branch fn c withElse s).2 ∧
    ∀ r, (branch fn c withElse s).1 = .ok r →
      IsFunction (branch fn c withElse s).2 r.1 ∧ ∀ e ∈ r.2, IsFunction (branch fn c withElse s).2 e := by
  rcases branch_cases hfn.lt c withElse with ⟨e, he⟩ | ⟨again, again', cmds, cmds', hrun⟩
  · rw [he]
    exact ⟨.refl, nofun⟩
  have hlabel : IsLabel (branchName s fn) := IsLabel.append (a := "if") rfl (isLabel_toString _)
  obtain ⟨hsides, hbodies⟩ := altered_sidesMade hV hfn withElse again
  have hmint : Altered V s (minted (sidesMade s fn (branchName s fn) withElse again)) := hsides.tail (alters_minted _)
  have hthrough := altered_throughMade (hmint.before.function hfn) (hV (hlabel.append (b := "-then") rfl)) again' cmds
  set s₁ := throughMade (minted (sidesMade s fn (branchName s fn) withElse again)) fn (branchName s fn) again' cmds
  have hfn₁ := (hmint.trans hthrough).before.function hfn
  have hmake : Alters V s₁ (made s₁ fn (branchName s fn ++ "-continue") (.block {})) :=
    .make hfn₁.lt hfn₁.container (hV (hlabel.append (b := "-continue") rfl)) ⟨rfl, rfl⟩
  have hsteps := (hmint.trans hthrough).tail hmake
  have hlater := hthrough.before.trans hmake.before
  have hbodies' : ∀ b ∈ sidesOf s.nodes.size withElse,
      IsFunction (made s₁ fn (branchName s fn ++ "-continue") (.block {})) b := fun b hb ↦ hlater.function (hbodies b hb)
  have hjoined := altered_joined (hsteps.sane hs) (hsteps.before.function hfn) hbodies'
    (isBlock_made hfn₁.lt _ _) s₁.nodes.size cmds'
  rw [hrun]
  refine ⟨hsteps.trans hjoined, ?_⟩
  have hside (b : Nat) (hb : b ∈ sidesOf s.nodes.size withElse) := hjoined.before.function (hbodies' b hb)
  rintro _ ⟨⟩
  refine ⟨hside _ (by simp [sidesOf]), fun e he ↦ hside e ?_⟩
  rw [sidesOf]
  exact List.mem_append_left _ (Option.mem_toList.2 he)

theorem altered_loop (c : Condition) : Altered V s (loop fn c s).2 ∧
    ∀ body, (loop fn c s).1 = .ok body → IsFunction (loop fn c s).2 body := by
  rcases loop_cases hfn.lt c with ⟨e, he⟩ | ⟨cmds, hrun⟩
  · rw [he]
    exact ⟨.refl, nofun⟩
  obtain ⟨hcycle, hbody, hnext⟩ := altered_cycleMade hV hfn c
  have hbodies : ∀ b ∈ [s.nodes.size], IsFunction (cycleMade s fn c) b := fun b hb ↦ List.mem_singleton.1 hb ▸ hbody
  have hjoined := altered_joined (hcycle.sane hs) (hcycle.before.function hfn) hbodies hnext (s.nodes.size + 2) cmds
  rw [hrun]
  refine ⟨hcycle.trans hjoined, ?_⟩
  rintro _ ⟨⟩
  exact hjoined.before.function hbody

end Functions

end CommandPack.Graph
