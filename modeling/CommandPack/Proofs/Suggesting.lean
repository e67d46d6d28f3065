import Mathlib
import CommandPack.Problem.Suggest

/-!
Suggestions for misspelt names. The table of distances is filled row by row; each entry is the distance of two
beginnings, and the last one is the least number of edits between the whole texts. What is suggested depends only
on which candidates there are, not on their order.
-/

namespace CommandPack

open Text

variable {a b c : List Char} {n : Nat}

/-- A character is inserted, deleted or put in place of another. -/
inductive Edit : List Char → List Char → Prop
  | insert (before after : List Char) (x : Char) : Edit (before ++ after) (before ++ x :: after)
  | delete (before after : List Char) (x : Char) : Edit (before ++ x :: after) (before ++ after)
  | replace (before after : List Char) (x y : Char) : Edit (before ++ x :: after) (before ++ y :: after)

inductive EditsIn : Nat → List Char → List Char → Prop
  | done {a : List Char} : EditsIn 0 a a
  | step {n : Nat} {a b c : List Char} (first : Edit a b) (rest : EditsIn n b c) : EditsIn (n + 1) a c

/-- The distance of two texts by their first characters. -/
def distance : List Char → List Char → Nat
  | [], b => b.length
  | a, [] => a.length
  | x :: a, y :: b =>
    min (min (distance a (y :: b) + 1) (distance (x :: a) b + 1)) (distance a b + if x = y then 0 else 1)
termination_by a b => a.length + b.length

@[simp] theorem distance_nil_left (b : List Char) : distance [] b = b.length := by rw [distance]

@[simp] theorem distance_nil_right (a : List Char) : distance a [] = a.length := by
  cases a with
  | nil => rw [distance_nil_left]
  | cons x a =>
    rw [distance]
    exact nofun

theorem distance_cons_cons (x y : Char) (a b : List Char) : distance (x :: a) (y :: b) =
    min (min (distance a (y :: b) + 1) (distance (x :: a) b + 1)) (distance a b + if x = y then 0 else 1) := by
  rw [distance]

/-! ### Edits -/

namespace Edit

theorem cons (x : Char) (h : Edit a b) : Edit (x :: a) (x :: b) := by
  cases h with
  | insert before after y => exact .insert (x :: before) after y
  | delete before after y => exact .delete (x :: before) after y
  | replace before after y z => exact .replace (x :: before) after y z

theorem reverse (h : Edit a b) : Edit a.reverse b.reverse := by
  cases h with
  | insert before after x => simpa using Edit.insert after.reverse before.reverse x
  | delete before after x => simpa using Edit.delete after.reverse before.reverse x
  | replace before after x y => simpa using Edit.replace after.reverse before.reverse x y

end Edit

namespace EditsIn

theorem cons (x : Char) (h : EditsIn n a b) : EditsIn n (x :: a) (x :: b) := by
  induction h with
  | done => exact .done
  | step first _ ih => exact .step (first.cons x) ih

theorem reverse (h : EditsIn n a b) : EditsIn n a.reverse b.reverse := by
  induction h with
  | done => exact .done
  | step first _ ih => exact .step first.reverse ih

theorem reverse_iff : EditsIn n a.reverse b.reverse ↔ EditsIn n a b :=
  ⟨fun h ↦ by simpa using h.reverse, reverse⟩

theorem from_nil (b : List Char) : EditsIn b.length [] b := by
  induction b with
  | nil => exact .done
  | cons y b ih => exact .step (.insert [] [] y) (ih.cons y)

theorem to_nil (a : List Char) : EditsIn a.length a [] := by
  induction a with
  | nil => exact .done
  | cons x a ih => exact .step (.delete [] a x) ih

end EditsIn

/-- A way of editing that follows the smallest entry of the three that an entry is computed from. -/
theorem editsIn_distance (a b : List Char) : EditsIn (distance a b) a b := by
  fun_induction distance a b with
  | case1 b => exact .from_nil b
  | case2 a _ => exact .to_nil a
  | case3 x a y b hdelete hinsert hkeep =>
    have hdelete := EditsIn.step (.delete [] a x) hdelete
    have hinsert := EditsIn.step (.insert [] (x :: a) y) (hinsert.cons y)
    have hkeep : EditsIn (distance a b + if x = y then 0 else 1) (x :: a) (y :: b) := by
      split
      · rename_i hxy
        exact hxy ▸ hkeep.cons x
      · exact .step (.replace [] a x y) (hkeep.cons y)
    rcases min_choice (min (distance a (y :: b) + 1) (distance (x :: a) b + 1))
      (distance a b + if x = y then 0 else 1) with h | h
    · rw [h]
      rcases min_choice (distance a (y :: b) + 1) (distance (x :: a) b + 1) with h | h
      · rw [h]
        exact hdelete
      · rw [h]
        exact hinsert
    · rw [h]
      exact hkeep

/-! ### No way of editing is shorter -/

theorem distance_cons_left_le (x : Char) (a b : List Char) : distance (x :: a) b ≤ distance a b + 1 := by
  cases b with
  | nil => simp
  | cons y b =>
    rw [distance_cons_cons]
    omega

theorem distance_cons_right_le (y : Char) (a b : List Char) : distance a (y :: b) ≤ distance a b + 1 := by
  cases a with
  | nil => simp
  | cons x a =>
    rw [distance_cons_cons]
    omega

theorem distance_le_cons_left (x : Char) (a b : List Char) : distance a b ≤ distance (x :: a) b + 1 := by
  induction b with
  | nil =>
    simp only [distance_nil_right, List.length_cons]
    omega
  | cons y b ih =>
    have hright := distance_cons_right_le y a b
    rw [distance_cons_cons]
    omega

theorem distance_replace_le (x y : Char) (a b : List Char) : distance (x :: a) b ≤ distance (y :: a) b + 1 := by
  induction b with
  | nil => simp
  | cons z b ih =>
    rw [distance_cons_cons, distance_cons_cons]
    split <;> split <;> omega

theorem distance_cons_cons_le {x : Char} (h : ∀ c, distance a c ≤ distance b c + 1) (c : List Char) :
    distance (x :: a) c ≤ distance (x :: b) c + 1 := by
  induction c with
  | nil => simpa using h []
  | cons z c ih =>
    have htail := h c
    have hwhole := h (z :: c)
    rw [distance_cons_cons, distance_cons_cons]
    omega

theorem distance_append_le (before : List Char) (h : ∀ c, distance a c ≤ distance b c + 1) (c : List Char) :
    distance (before ++ a) c ≤ distance (before ++ b) c + 1 := by
  induction before generalizing c with
  | nil => exact h c
  | cons x before ih => exact distance_cons_cons_le ih c

/-- One edit brings a text nearer to any other by one at most. -/
theorem Edit.distance_le (h : Edit a b) (c : List Char) : distance a c ≤ distance b c + 1 := by
  cases h with
  | insert before after x => exact distance_append_le before (distance_le_cons_left x after) c
  | delete before after x => exact distance_append_le before (distance_cons_left_le x after) c
  | replace before after x y => exact distance_append_le before (distance_replace_le x y after) c

theorem distance_self (a : List Char) : distance a a = 0 := by
  induction a with
  | nil => simp
  | cons x a ih =>
    rw [distance_cons_cons]
    simp [ih]

theorem EditsIn.distance_le (h : EditsIn n a b) : distance a b ≤ n := by
  induction h with
  | done => rw [distance_self]
  | step first _ ih =>
    have := first.distance_le
    exact (this _).trans (Nat.add_le_add_right ih 1)

theorem isLeast_distance (a b : List Char) : IsLeast {n | EditsIn n a b} (distance a b) :=
  ⟨editsIn_distance a b, fun _ h ↦ EditsIn.distance_le h⟩

/-! ### The table -/

/-- The distances of `a` to `b`, and to `b` with more and more of `more` before it. -/
def distanceRow (a b : List Char) : (more : List Char) → List Nat
  | [] => [distance a b]
  | y :: more => distance a b :: distanceRow a (y :: b) more

theorem distanceRow_eq_cons (a b more : List Char) : ∃ row, distanceRow a b more = distance a b :: row := by
  cases more with
  | nil => exact ⟨_, rfl⟩
  | cons y more => exact ⟨_, rfl⟩

theorem distanceRow_nil (b more : List Char) : distanceRow [] b more = List.range' b.length (more.length + 1) := by
  induction more generalizing b with
  | nil => simp [distanceRow]
  | cons y more ih => rw [distanceRow, ih, distance_nil_left, List.length_cons, List.length_cons, ← List.range'_succ]

/-- A row of the table becomes the next one: the entry to the left is the one just made, those above are the old row. -/
theorem cons_nextRow (x : Char) (a b more : List Char) :
    distance (x :: a) b :: nextRow x (distance (x :: a) b) (distanceRow a b more) more =
      distanceRow (x :: a) b more := by
  induction more generalizing b with
  | nil => rfl
  | cons y more ih =>
    obtain ⟨row, hrow⟩ := distanceRow_eq_cons a (y :: b) more
    have hrest := ih (y :: b)
    rw [hrow] at hrest
    rw [distanceRow, distanceRow, hrow, nextRow, ← distance_cons_cons, hrest]

theorem lastRow_eq (a done b : List Char) :
    lastRow b done.length (distanceRow done [] b) a = distanceRow (a.reverse ++ done) [] b := by
  induction a generalizing done with
  | nil => rfl
  | cons x a ih =>
    have hnext := cons_nextRow x done [] b
    rw [distance_nil_right, List.length_cons] at hnext
    rw [lastRow, hnext, ← List.length_cons, ih, List.reverse_cons, List.append_assoc, List.singleton_append]

theorem getLastD_distanceRow (a b more : List Char) (d : Nat) :
    (distanceRow a b more).getLastD d = distance a (more.reverse ++ b) := by
  induction more generalizing b d with
  | nil => rfl
  | cons y more ih => rw [distanceRow, List.getLastD_cons, ih, List.reverse_cons, List.append_assoc, List.singleton_append]

theorem editDistance_eq (a b : List Char) : editDistance a b = distance a.reverse b.reverse := by
  have hfirst : List.range (b.length + 1) = distanceRow [] [] b := by
    rw [distanceRow_nil, List.range_eq_range', List.length_nil]
  have hlast : lastRow b 0 (distanceRow [] [] b) a = distanceRow (a.reverse ++ []) [] b := lastRow_eq a [] b
  rw [editDistance, hfirst, hlast, getLastD_distanceRow, List.append_nil, List.append_nil]

theorem isLeast_editDistance (a b : List Char) : IsLeast {n | EditsIn n a b} (editDistance a b) := by
  have h := isLeast_distance a.reverse b.reverse
  simp only [EditsIn.reverse_iff] at h
  rwa [editDistance_eq]

/-! ### The nearest names -/

/-- How far a candidate is from a name, whatever the case of their letters. -/
def nameDistance (name c : String) : Nat := editDistance (lower name).toList (lower c).toList

/-- May a candidate be suggested for a name? -/
def IsNear (name c : String) : Prop := c ≠ "" ∧ lower c ≠ lower name ∧ nameDistance name c ≤ suggestionRadius name

instance (name c : String) : Decidable (IsNear name c) := inferInstanceAs (Decidable (_ ∧ _ ∧ _))

/-- Suggestions are in order of their distance, then of their text. -/
def rank (name c : String) : Nat ×ₗ String := toLex (nameDistance name c, c)

theorem rank_injective (name : String) : Function.Injective (rank name) := fun _ _ h ↦
  congrArg (fun r ↦ (ofLex r).2) h

/-- The candidates that may be suggested for a name, nearest first. -/
def ranked (name : String) (candidates : List String) : List String :=
  (candidates.filter (IsNear name ·)).mergeSort (rank name · ≤ rank name ·)

theorem ranked_perm (name : String) (candidates : List String) :
    (ranked name candidates).Perm (candidates.filter (IsNear name ·)) := List.mergeSort_perm _ _

theorem pairwise_ranked (name : String) (candidates : List String) :
    (ranked name candidates).Pairwise (rank name · ≤ rank name ·) := by
  refine (List.pairwise_mergeSort ?_ ?_ _).imp of_decide_eq_true
  · simpa using fun _ _ _ ↦ le_trans
  · simpa using fun _ _ ↦ le_total _ _

theorem filterMap_near (name : String) (candidates : List String) :
    (candidates.filterMap fun c ↦
      if c.isEmpty ∨ lower c = lower name then none
      else if nameDistance name c ≤ suggestionRadius name then some (ofLex (rank name c)) else none) =
      (candidates.filter (IsNear name ·)).map fun c ↦ ofLex (rank name c) := by
  rw [← List.filterMap_eq_map, List.filterMap_filter]
  refine List.filterMap_congr fun c _ ↦ ?_
  by_cases hempty : c = "" <;> by_cases hsame : lower c = lower name <;>
    by_cases hfar : nameDistance name c ≤ suggestionRadius name <;> simp [IsNear, hempty, hsame, hfar]

/-- Candidates are sorted together with their distances. -/
theorem mergeSort_ranks (name : String) (candidates : List String) :
    (((candidates.filter (IsNear name ·)).map fun c ↦ ofLex (rank name c)).mergeSort
      fun p q ↦ p.1 < q.1 || (p.1 == q.1 && decide (p.2 ≤ q.2))) =
      (ranked name candidates).map fun c ↦ ofLex (rank name c) := by
  refine (List.map_mergeSort fun c _ d _ ↦ ?_).symm
  rw [decide_eq_decide.2 Prod.Lex.le_iff, Bool.decide_or, Bool.decide_and]
  rfl

theorem suggest_eq_take_ranked {name : String} (hname : name ≠ "") (candidates : List String) :
    suggest name candidates = (ranked name candidates).take maxSuggestions := by
  have hnonempty : ¬ name.isEmpty = true := by simpa using hname
  have hsnd : (Prod.snd ∘ fun c ↦ ofLex (rank name c)) = id := rfl
  rw [suggest, if_neg hnonempty]
  calc
    _ = (((ranked name candidates).map fun c ↦ ofLex (rank name c)).take maxSuggestions).map Prod.snd := by
      rw [← mergeSort_ranks, ← filterMap_near]
      rfl
    _ = (ranked name candidates).take maxSuggestions := by rw [← List.map_take, List.map_map, hsnd, List.map_id]

theorem ranked_eq_of_perm {cs cs' : List String} (name : String) (h : cs.Perm cs') : ranked name cs = ranked name cs' := by
  refine List.Perm.eq_of_pairwise (fun _ _ _ _ hle hle' ↦ rank_injective name (le_antisymm hle hle'))
    (pairwise_ranked name cs) (pairwise_ranked name cs') ?_
  exact (ranked_perm name cs).trans ((h.filter _).trans (ranked_perm name cs').symm)

/-- Distances are least numbers of edits. The suggestions for a name are the first three, by distance and then by text,
of the candidates that are near to it but not the same up to case, in whatever order the candidates come. -/
theorem suggestions_are_nearest {name : String} (hname : name ≠ "") (candidates : List String) :
    (∀ a b : List Char, IsLeast {n | EditsIn n a b} (editDistance a b)) ∧
      (∃ cs : List String, cs.Perm (candidates.filter (IsNear name ·)) ∧ cs.Pairwise (rank name · ≤ rank name ·) ∧
        suggest name candidates = cs.take 3) ∧
      ∀ candidates' : List String, candidates'.Perm candidates → suggest name candidates' = suggest name candidates := by
  refine ⟨isLeast_editDistance, ?_, fun candidates' hperm ↦ ?_⟩
  · exact ⟨ranked name candidates, ranked_perm name candidates, pairwise_ranked name candidates,
      suggest_eq_take_ranked hname candidates⟩
  · rw [suggest_eq_take_ranked hname, suggest_eq_take_ranked hname, ranked_eq_of_perm name hperm]

/-- Of four near names the three nearest are suggested; one that differs only in case is not. -/
theorem suggestions_are_nearest_score :
    "score" ≠ "" ∧ suggest "score" ["scores", "Score", "store", "core", "sore"] = ["core", "scores", "sore"] ∧
      suggest "score" ["sore", "core", "store", "Score", "scores"] = ["core", "scores", "sore"] := by
  obtain ⟨-, ⟨cs, hperm, hsorted, hsuggest⟩, horder⟩ :=
    suggestions_are_nearest (show "score" ≠ "" by decide) ["scores", "Score", "store", "core", "sore"]
  have hcs : cs = ["core", "scores", "sore", "store"] :=
    List.Perm.eq_of_pairwise (fun _ _ _ _ hle hle' ↦ rank_injective _ (le_antisymm hle hle')) hsorted
      (by decide +kernel) (hperm.trans (by decide +kernel))
  have hlist : suggest "score" ["scores", "Score", "store", "core", "sore"] = ["core", "scores", "sore"] := by
    rw [hsuggest, hcs]
    rfl
  exact ⟨by decide, hlist, (horder _ (by decide)).trans hlist⟩

end CommandPack
