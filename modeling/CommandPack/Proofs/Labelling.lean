import Mathlib
import CommandPack.Proofs.Compiling

/-!
The names of the blocks that are made for branches and loops. They carry the number of children that the function had,
so blocks made for different statements of a function have different names.
-/

namespace CommandPack.Graph

open Stateful

variable {s s₁ s₂ : Session} {id fn parent : Nat} {name : String} {F : Set Nat}

/-- All nodes keep their children, and no failure is added. -/
structure Rests (s s' : Session) : Prop where
  size : s'.nodes.size = s.nodes.size
  failure : s'.failure = s.failure
  children (id : Nat) : (s'.node id).children = (s.node id).children

theorem rests_of_nodes (hnodes : s₁.nodes = s.nodes) (hfailure : s₁.failure = s.failure) : Rests s s₁ :=
  ⟨by rw [hnodes], hfailure, fun id ↦ by rw [Session.node, Session.node, hnodes]⟩

theorem Rests.trans (h : Rests s s₁) (h' : Rests s₁ s₂) : Rests s s₂ :=
  ⟨h'.size.trans h.size, h'.failure.trans h.failure, fun id ↦ (h'.children id).trans (h.children id)⟩

theorem rests_recast (s : Session) (id : Nat) (role : Role) : Rests s (recast s id role) := by
  refine ⟨by simp, rfl, fun k ↦ ?_⟩
  simp only [recast, Session.node, Array.getD_eq_getD_getElem?, Array.getElem?_modify]
  split
  · cases s.nodes[k]? <;> rfl
  · rfl

theorem rests_minted (s : Session) : Rests s (minted s) := rests_of_nodes rfl rfl

theorem rests_joined (s : Session) (fn k j : Nat) (cmds : List Instruction) (bodies : List Nat) :
    Rests s (joined s fn k j cmds bodies) := by
  have hresumed (s : Session) : Rests s (bodies.foldl (resumed · k) s) := by
    induction bodies generalizing s with
    | nil => exact rests_of_nodes rfl rfl
    | cons b bodies ih => exact (rests_recast ..).trans (ih _)
  exact ((rests_recast ..).trans (hresumed _)).trans (rests_recast ..)

def names (s : Session) (id : Nat) : List String := (s.node id).children.map (·.1)

theorem Rests.names_eq (h : Rests s s₁) (id : Nat) : names s₁ id = names s id := by simp only [names, h.children]

theorem names_of_size_le (hid : s.nodes.size ≤ id) : names s id = [] := by
  rw [names, children_of_size_le hid, List.map_nil]

theorem child?_eq_none_iff {n : Node} : n.child? name = none ↔ name ∉ n.children.map (·.1) := by
  refine ⟨child?_eq_none, fun h ↦ ?_⟩
  rw [Node.child?, List.lookup_eq_none_iff]
  intro x hx
  simpa using fun heq : name = x.1 ↦ h (heq ▸ List.mem_map_of_mem hx)

theorem children_made_of_notMem (hp : parent < s.nodes.size) (hname : name ∉ names s parent) (role : Role) (id : Nat) :
    ((made s parent name role).node id).children =
      if id = parent then (s.node id).children ++ [(name, s.nodes.size)] else (s.node id).children := by
  simp only [children_made hp, child?_eq_none_iff.2 hname, and_true]

theorem names_made (hp : parent < s.nodes.size) (hname : name ∉ names s parent) (role : Role) (id : Nat) :
    names (made s parent name role) id = if id = parent then names s id ++ [name] else names s id := by
  rw [names, children_made_of_notMem hp hname]
  split <;> simp [names]

theorem failure_made_of_notMem (hp : parent < s.nodes.size) (hname : name ∉ names s parent) (role : Role) :
    (made s parent name role).failure = s.failure := by
  have hpushed : Session.node { s with nodes := s.nodes.push (newNode s parent name role) } parent =
      s.node parent := (node_push rfl parent).trans (if_neg hp.ne)
  simp [made, hpushed, child?_eq_none_iff.2 hname]

def figures (name : String) : List Char := (name.toList.dropWhile (!·.isDigit)).takeWhile Char.isDigit

/-- The names of the bodies and blocks made for a branch or loop below a function that has `n` children. -/
def numberedNames (n : Nat) : List String :=
  let branch := s!"if{n}"
  let loop := s!"while{n}"
  [branch, branch ++ "-else", branch ++ "-then", branch ++ "-continue", loop, loop ++ "-continue"]

theorem figures_append {stem suffix : String} (n : Nat) (hstem : stem.toList.all (!·.isDigit) = true)
    (hsuffix : suffix.toList.head?.all (!·.isDigit) = true) :
    figures (stem ++ toString n ++ suffix) = (toString n).toList := by
  have hdigits : ∀ c ∈ (toString n).toList, c.isDigit = true := fun c hc ↦
    Nat.isDigit_of_mem_toDigits (b := 10) (n := n) (by decide) (by decide) (by simpa using hc)
  have hne : (toString n).toList ≠ [] := by simp
  rw [List.all_eq_true] at hstem
  have hdrop : ((stem.toList ++ (toString n).toList) ++ suffix.toList).dropWhile (!·.isDigit) =
      (toString n).toList ++ suffix.toList := by
    rw [List.append_assoc, List.dropWhile_append_of_pos hstem]
    obtain ⟨c, cs, hcs⟩ := List.exists_cons_of_ne_nil hne
    rw [hcs] at hdigits ⊢
    rw [List.cons_append, List.dropWhile_cons_of_neg (by simp [hdigits c])]
  rw [figures, String.toList_append, String.toList_append, hdrop, List.takeWhile_append_of_pos hdigits]
  cases hcs : suffix.toList with
  | nil => rw [List.takeWhile_nil, List.append_nil]
  | cons c cs =>
    rw [hcs] at hsuffix
    rw [List.takeWhile_cons_of_neg (by simpa using hsuffix), List.append_nil]

theorem figures_of_mem_numberedNames {n : Nat} (h : name ∈ numberedNames n) : figures name = (toString n).toList := by
  have hif {suffix : String} (hsuffix : suffix.toList.head?.all (!·.isDigit) = true) :
      figures ("if" ++ toString n ++ suffix) = (toString n).toList := figures_append n (by decide) hsuffix
  have hwhile {suffix : String} (hsuffix : suffix.toList.head?.all (!·.isDigit) = true) :
      figures ("while" ++ toString n ++ suffix) = (toString n).toList := figures_append n (by decide) hsuffix
  have hplain (stem : String) : stem ++ toString n = stem ++ toString n ++ "" := (String.append_empty).symm
  simp only [numberedNames, List.mem_cons, List.not_mem_nil, or_false] at h
  rcases h with rfl | rfl | rfl | rfl | rfl | rfl
  · exact (congrArg figures (hplain "if")).trans (hif rfl)
  · exact hif rfl
  · exact hif rfl
  · exact hif rfl
  · exact (congrArg figures (hplain "while")).trans (hwhile rfl)
  · exact hwhile rfl

theorem eq_of_mem_numberedNames {n m : Nat} (h : name ∈ numberedNames n) (h' : name ∈ numberedNames m) : n = m := by
  have hfigures := (figures_of_mem_numberedNames h).symm.trans (figures_of_mem_numberedNames h')
  simpa using congrArg (fun ds ↦ Nat.ofDigitChars 10 ds 0) hfigures

theorem notMem_numberedNames (hname : figures name = []) (n : Nat) : name ∉ numberedNames n := fun h ↦ by
  have hfigures := figures_of_mem_numberedNames h
  rw [hname] at hfigures
  simpa using hfigures.symm

/-- Nothing failed, and the numbers in the names below the functions in `F` are smaller than the count of these names. -/
structure Orderly (F : Set Nat) (s : Session) : Prop where
  failure : s.failure = none
  lt {id : Nat} (h : id ∈ F) : id < s.nodes.size
  numbered {id n : Nat} {name : String} (h : id ∈ F) (hname : name ∈ names s id) (hn : name ∈ numberedNames n) :
    n < (names s id).length

theorem Orderly.rests (h : Orderly F s) (hs : Rests s s₁) : Orderly F s₁ where
  failure := hs.failure.trans h.failure
  lt hid := hs.size ▸ h.lt hid
  numbered hid := hs.names_eq _ ▸ h.numbered hid

theorem Orderly.adjoin (h : Orderly F s) (hid : id < s.nodes.size)
    (hnames : ∀ name ∈ names s id, ∀ n, name ∈ numberedNames n → n < (names s id).length) : Orderly (insert id F) s where
  failure := h.failure
  lt hk := hk.elim (· ▸ hid) h.lt
  numbered hk hname hn := by
    rcases hk with rfl | hk
    · exact hnames _ hname _ hn
    · exact h.numbered hk hname hn

theorem Orderly.made (h : Orderly F s) (hp : parent < s.nodes.size) (hname : name ∉ names s parent)
    (hn : parent ∈ F → ∀ n, name ∈ numberedNames n → n ≤ (names s parent).length) (role : Role) :
    Orderly F (made s parent name role) where
  failure := (failure_made_of_notMem hp hname role).trans h.failure
  lt hid := (h.lt hid).trans_le (by simp)
  numbered {id n x} hid hx hxn := by
    rw [names_made hp hname] at hx ⊢
    split at hx
    · subst_vars
      rw [if_pos rfl, List.length_append, List.length_singleton]
      rcases List.mem_append.1 hx with hx | hx
      · exact (h.numbered hid hx hxn).trans (Nat.lt_succ_self _)
      · exact Nat.lt_succ_of_le (hn hid n (List.mem_singleton.1 hx ▸ hxn))
    · rw [if_neg ‹_›]
      exact h.numbered hid hx hxn

section Functions

variable {entryName : String}

theorem names_functionMade (hp : parent < s.nodes.size) (hname : name ∉ names s parent) (tags : List Path)
    (description : String) (id : Nat) : names (functionMade s parent name entryName tags description) id =
      if id = s.nodes.size then [entryName] else if id = parent then names s id ++ [name] else names s id := by
  have hempty (role : Role) : names (made s parent name role) s.nodes.size = [] := by
    rw [names_made hp hname, if_neg hp.ne', names_of_size_le le_rfl]
  rw [functionMade, names_made (by simp) (by simp [hempty])]
  split
  · subst_vars
    rw [hempty, List.nil_append]
  · rw [names_made hp hname]

theorem Orderly.functionMade (h : Orderly F s) (hp : parent < s.nodes.size) (hname : name ∉ names s parent)
    (hn : parent ∈ F → ∀ n, name ∈ numberedNames n → n ≤ (names s parent).length)
    (hentry : ∀ n, 0 < n → entryName ∉ numberedNames n) (tags : List Path) (description : String) :
    Orderly (insert s.nodes.size F) (functionMade s parent name entryName tags description) := by
  have hempty (role : Role) : names (Graph.made s parent name role) s.nodes.size = [] := by
    rw [names_made hp hname, if_neg hp.ne', names_of_size_le le_rfl]
  have hnew : s.nodes.size ∉ F := fun hmem ↦ (h.lt hmem).false
  refine ((h.made hp hname hn _).made (by simp) (by simp [hempty]) (absurd · hnew) _).adjoin (by simp) ?_
  intro x hx n hxn
  have hnames : names (Graph.functionMade s parent name entryName tags description) s.nodes.size = _ :=
    names_functionMade hp hname tags description s.nodes.size
  rw [if_pos rfl, Graph.functionMade] at hnames
  rw [hnames] at hx ⊢
  rw [List.mem_singleton.1 hx] at hxn
  simpa using fun hpos ↦ hentry n (Nat.pos_of_ne_zero hpos) hxn

end Functions

/-- A branch or loop is being made below a function that had `c` children: the names below the function with this
number are among `new`. -/
structure Opened (F : Set Nat) (fn c : Nat) (new : List String) (s : Session) : Prop extends Orderly F s where
  mem : fn ∈ F
  le : c ≤ (names s fn).length
  older {name : String} {n : Nat} (hname : name ∈ names s fn) (hn : name ∈ numberedNames n) : n < c ∨ name ∈ new

theorem Orderly.opened (h : Orderly F s) (hfn : fn ∈ F) : Opened F fn (names s fn).length [] s :=
  ⟨h, hfn, le_rfl, fun hname hn ↦ .inl (h.numbered hfn hname hn)⟩

namespace Opened

variable {c : Nat} {new : List String} (h : Opened F fn c new s)

include h

theorem rests (hs : Rests s s₁) : Opened F fn c new s₁ :=
  ⟨h.toOrderly.rests hs, h.mem, hs.names_eq fn ▸ h.le, hs.names_eq fn ▸ h.older⟩

theorem notMem_names (hname : name ∈ numberedNames c) (hnew : name ∉ new) : name ∉ names s fn := fun hmem ↦
  (h.older hmem hname).elim (lt_irrefl c) hnew

theorem of_names {F' : Set Nat} (hs : Orderly F' s₁) (hF : F ⊆ F') (hnames : names s₁ fn = names s fn ++ [name]) :
    Opened F' fn c (name :: new) s₁ := by
  refine ⟨hs, hF h.mem, ?_, fun {x n} hx hn ↦ ?_⟩
  · rw [hnames, List.length_append]
    exact h.le.trans (Nat.le_add_right _ _)
  · rw [hnames] at hx
    rcases List.mem_append.1 hx with hx | hx
    · exact (h.older hx hn).imp_right (List.mem_cons_of_mem _)
    · exact .inr (List.mem_singleton.1 hx ▸ List.mem_cons_self)

theorem made (hname : name ∈ numberedNames c) (hnew : name ∉ new) (role : Role) :
    Opened F fn c (name :: new) (made s fn name role) := by
  have hfn := h.lt h.mem
  have hfree := h.notMem_names hname hnew
  refine h.of_names (h.toOrderly.made hfn hfree (fun _ n hn ↦ ?_) role) le_rfl ?_
  · exact eq_of_mem_numberedNames hn hname ▸ h.le
  · rw [names_made hfn hfree, if_pos rfl]

theorem bodyMade (hname : name ∈ numberedNames c) (hnew : name ∉ new) {entryName : String}
    (hentry : figures entryName = []) (description : String) (reentrant : Bool) :
    Opened (insert s.nodes.size F) fn c (name :: new) (bodyMade s fn name entryName description reentrant) := by
  have hfn := h.lt h.mem
  have hfree := h.notMem_names hname hnew
  have hmade := h.toOrderly.functionMade hfn hfree (fun _ n hn ↦ eq_of_mem_numberedNames hn hname ▸ h.le)
    (fun n _ ↦ notMem_numberedNames hentry n) [] description
  refine (h.of_names hmade (Set.subset_insert _ _) ?_).rests (rests_recast ..)
  rw [names_functionMade hfn hfree, if_neg hfn.ne, if_pos rfl]

theorem throughMade {name : String} (hname : name ++ "-then" ∈ numberedNames c) (hnew : name ++ "-then" ∉ new) (again : Bool)
    (cmds : List Instruction) :
    ∃ new' ⊆ (name ++ "-then") :: new, Opened F fn c new' (throughMade s fn name again cmds) := by
  rw [Graph.throughMade]
  split
  · exact ⟨_, List.Subset.refl _, (h.made hname hnew _).rests (rests_recast ..)⟩
  · exact ⟨new, List.subset_cons_self _ _, h⟩

end Opened

theorem Orderly.sidesMade (h : Orderly F s) (hfn : fn ∈ F) (withElse reentrant : Bool) :
    ∃ F', F ⊆ F' ∧ s.nodes.size ∈ F' ∧ (withElse = true → s.nodes.size + 2 ∈ F') ∧
      ∃ new ⊆ [branchName s fn, branchName s fn ++ "-else"],
        Opened F' fn (names s fn).length new (sidesMade s fn (branchName s fn) withElse reentrant) := by
  have hname : branchName s fn ∈ numberedNames (names s fn).length := by simp [branchName, numberedNames, names]
  have helse : branchName s fn ++ "-else" ∈ numberedNames (names s fn).length := by
    simp [branchName, numberedNames, names]
  have hentry : figures "branch" = [] := by decide
  have hyes := (h.opened hfn).bodyMade hname List.not_mem_nil hentry
    ("If-branch of " ++ (s.node fn).name) reentrant
  cases withElse with
  | false => exact ⟨_, Set.subset_insert _ _, Set.mem_insert _ _, by simp, _, by simp, hyes⟩
  | true =>
    have hno := hyes.bodyMade helse (by simp) hentry ("Else-branch of " ++ ((Graph.bodyMade s fn (branchName s fn) "branch"
        ("If-branch of " ++ (s.node fn).name) reentrant).node fn).name) reentrant
    rw [size_bodyMade] at hno
    refine ⟨_, (Set.subset_insert _ _).trans (Set.subset_insert _ _), .inr (Set.mem_insert _ _), fun _ ↦
      Set.mem_insert _ _, _, ?_, hno⟩
    simp

theorem orders_branch (h : Orderly F s) (hfn : fn ∈ F) (c : Condition) (withElse : Bool) :
    Upholds Orderly (branch fn c withElse) F s fun r F' _ ↦ r.1 ∈ F' ∧ ∀ no ∈ r.2, no ∈ F' := by
  rcases branch_cases (h.lt hfn) c withElse with ⟨e, he⟩ | ⟨again, again', cmds, cmds', hrun⟩
  · exact .of_eq_error he h
  have hmem {suffix : String} (hsuffix : suffix = "-then" ∨ suffix = "-continue") :
      branchName s fn ++ suffix ∈ numberedNames (names s fn).length := by
    rcases hsuffix with rfl | rfl <;> simp [branchName, numberedNames, names]
  obtain ⟨F', hF, hinner, hother, new, hnew, hsides⟩ := h.sidesMade hfn withElse again
  replace hsides := hsides.rests (rests_minted _)
  obtain ⟨new', hnew', hthen⟩ := hsides.throughMade (hmem (.inl rfl)) (fun hin ↦ by simpa using hnew hin) again' cmds
  have hnext := hthen.made (hmem (.inr rfl)) (fun hin ↦ by
    rcases List.mem_cons.1 (hnew' hin) with heq | hin
    · simp at heq
    · simpa using hnew hin) (.block {})
  refine .of_eq_ok hrun hF (hnext.rests (rests_joined ..)).toOrderly ⟨hinner, fun no hno ↦ ?_⟩
  split at hno
  · obtain rfl := Option.mem_some.1 hno
    exact hother ‹_›
  · cases hno

theorem orders_loop (h : Orderly F s) (hfn : fn ∈ F) (c : Condition) :
    Upholds Orderly (loop fn c) F s fun inner F' _ ↦ inner ∈ F' := by
  have hlt := h.lt hfn
  rcases loop_cases hlt c with ⟨e, he⟩ | ⟨cmds, hrun⟩
  · exact .of_eq_error he h
  have hname : loopName s fn ∈ numberedNames (names s fn).length := by simp [loopName, numberedNames, names]
  have hcontinue : loopName s fn ++ "-continue" ∈ numberedNames (names s fn).length := by
    simp [loopName, numberedNames, names]
  have hround : Opened (insert s.nodes.size F) fn (names s fn).length [loopName s fn] (roundMade s fn) :=
    (((h.opened hfn).bodyMade hname List.not_mem_nil (by decide) _ _).rests (rests_minted _)).rests (rests_recast ..)
  have hloop : names (roundMade s fn) s.nodes.size = ["loop"] := by
    rw [roundMade, (rests_recast ..).names_eq, (rests_minted _).names_eq, bodyMade, (rests_recast ..).names_eq,
      names_functionMade hlt ((h.opened hfn).notMem_names hname List.not_mem_nil), if_pos rfl]
  have hbody : s.nodes.size < (roundMade s fn).nodes.size := hround.lt (Set.mem_insert _ _)
  have hcheck : "check-cond" ∉ names (roundMade s fn) s.nodes.size := by
    rw [hloop]
    decide
  have hcycle : Opened (insert s.nodes.size F) fn (names s fn).length [loopName s fn]
      (made (roundMade s fn) s.nodes.size "check-cond" (.block {})) := by
    refine ⟨hround.toOrderly.made hbody hcheck (fun _ n hn ↦ ?_) _, hround.mem, ?_, ?_⟩
    · exact absurd hn (notMem_numberedNames (by decide) n)
    all_goals rw [names_made hbody hcheck, if_neg hlt.ne]
    · exact hround.le
    · exact hround.older
  have hnext := hcycle.made hcontinue (by simp) (.block {})
  exact .of_eq_ok hrun (Set.subset_insert _ _)
    ((hnext.rests (rests_recast ..)).rests (rests_joined ..)).toOrderly (Set.mem_insert _ _)

theorem invariant_orderly : Invariant Orderly where
  note h hnodes hfailure := h.rests (rests_of_nodes hnodes hfailure)
  fill h _ _ := h.rests (rests_recast ..)
  steer h _ _ := h.rests (rests_recast ..)
  loop := orders_loop
  branch := orders_branch

end CommandPack.Graph
