import Mathlib
import CommandPack.Proofs.Words
import CommandPack.Name
import CommandPack.Disk.Path

/-!
Paths as text. Names without the signs between them are read back from a path, so different paths have
different texts.
-/

namespace CommandPack

open Text

theorem Text.splitChars_ne_nil (sep : Char) (cs : List Char) : splitChars sep cs ≠ [] := by
  cases cs with
  | nil => simp [splitChars]
  | cons c cs =>
    rw [splitChars]
    split
    · simp
    · split <;> simp

theorem Text.splitChars_append_sep (sep : Char) (as bs : List Char) :
    splitChars sep (as ++ sep :: bs) = splitChars sep as ++ splitChars sep bs := by
  induction as with
  | nil => simp [splitChars]
  | cons a as ih =>
    by_cases ha : a = sep
    · simp [splitChars, ha, ih]
    · obtain ⟨piece, rest, hpieces⟩ := List.exists_cons_of_ne_nil (splitChars_ne_nil sep as)
      simp [splitChars, ha, ih, hpieces]

theorem Text.notMem_of_mem_splitChars {sep : Char} {cs piece : List Char} (h : piece ∈ splitChars sep cs) : sep ∉ piece := by
  induction cs generalizing piece with
  | nil =>
    obtain rfl : piece = [] := by simpa [splitChars] using h
    exact List.not_mem_nil
  | cons c cs ih =>
    by_cases hc : c = sep
    · rw [splitChars, if_pos hc] at h
      rcases List.mem_cons.1 h with rfl | h
      · exact List.not_mem_nil
      · exact ih h
    · obtain ⟨first, rest, hpieces⟩ := List.exists_cons_of_ne_nil (splitChars_ne_nil sep cs)
      simp only [splitChars, if_neg hc, hpieces, List.mem_cons] at h
      rcases h with rfl | h
      · exact List.not_mem_cons_of_ne_of_not_mem (Ne.symm hc) (ih (by rw [hpieces]; exact List.mem_cons_self))
      · exact ih (by rw [hpieces]; exact List.mem_cons_of_mem _ h)

theorem Text.splitChars_append {sep : Char} {a : List Char} (ha : sep ∉ a) (rest : List Char) :
    splitChars sep (a ++ sep :: rest) = a :: splitChars sep rest := by
  rw [splitChars_append_sep, Machine.splitChars_of_notMem ha, List.singleton_append]

theorem Text.join_cons_cons (sep a b : String) (parts : List String) :
    join sep (a :: b :: parts) = a ++ sep ++ join sep (b :: parts) := by
  simp [join]

section Split

variable {sep : Char} {mark : String} (hmark : mark.toList = [sep]) {parts : List String}

include hmark

theorem Text.split_append_sep (a b : String) : split sep (a ++ mark ++ b) = split sep a ++ split sep b := by
  have hchars : (a ++ mark ++ b).toList = a.toList ++ sep :: b.toList := by simp [hmark]
  rw [split, hchars, splitChars_append_sep, List.map_append]
  rfl

theorem Text.split_join_flatMap (hne : parts ≠ []) : split sep (join mark parts) = parts.flatMap (split sep) := by
  induction parts with
  | nil => exact absurd rfl hne
  | cons a parts ih =>
    cases parts with
    | nil => simp [join]
    | cons b parts =>
      rw [join_cons_cons, split_append_sep hmark, ih (List.cons_ne_nil b parts)]
      rfl

omit hmark in
theorem Text.flatMap_split (hparts : ∀ part ∈ parts, sep ∉ part.toList) : parts.flatMap (split sep) = parts := by
  induction parts with
  | nil => rfl
  | cons part parts ih =>
    obtain ⟨hpart, hparts⟩ := List.forall_mem_cons.1 hparts
    rw [List.flatMap_cons, ih hparts, split, Machine.splitChars_of_notMem hpart]
    simp

end Split

theorem Text.split_join {parts : List String} (hne : parts ≠ []) (hparts : ∀ p ∈ parts, '/' ∉ p.toList) :
    split '/' (join "/" parts) = parts := by
  rw [split_join_flatMap rfl hne, flatMap_split hparts]

/-- Paths below a root have different texts, if no name has a sign that stands between names. -/
theorem Path.joined_injective {root root' : String} {p q : List String} (hroot : ':' ∉ root.toList)
    (hroot' : ':' ∉ root'.toList) (hp : p ≠ [] ∧ ∀ name ∈ p, '/' ∉ name.toList)
    (hq : q ≠ [] ∧ ∀ name ∈ q, '/' ∉ name.toList) (h : Path.joined (root :: p) = Path.joined (root' :: q)) :
    root = root' ∧ p = q := by
  have hchars : root.toList ++ ':' :: (join "/" p).toList = root'.toList ++ ':' :: (join "/" q).toList := by
    simpa [Path.joined] using congrArg String.toList h
  have hpieces := congrArg (splitChars ':') hchars
  rw [splitChars_append hroot, splitChars_append hroot'] at hpieces
  have heq := (List.cons.inj hpieces).1
  have hrest : (join "/" p).toList = (join "/" q).toList := by
    rw [heq] at hchars
    exact (List.cons.inj (List.append_cancel_left hchars)).2
  refine ⟨String.toList_injective heq, ?_⟩
  rw [← split_join hp.1 hp.2, ← split_join hq.1 hq.2, String.toList_injective hrest]

namespace Disk

/-- A name that stands for itself in a path. -/
structure IsFileName (name : String) : Prop where
  ne_empty : name ≠ ""
  ne_dot : name ≠ "."
  ne_dots : name ≠ ".."
  no_slash : '/' ∉ name.toList

variable {names : List String}

theorem foldl_step_files (rooted : Bool) (done : List String) (h : ∀ name ∈ names, IsFileName name) :
    names.foldl (step rooted) done = names.reverse ++ done := by
  induction names generalizing done with
  | nil => rfl
  | cons name names ih =>
    obtain ⟨hname, hnames⟩ := List.forall_mem_cons.1 h
    have hstep : step rooted done name = name :: done := by
      simp [step, hname.ne_empty, hname.ne_dot, hname.ne_dots]
    rw [List.foldl_cons, hstep, ih _ hnames]
    simp

theorem hasLead_slash_of_head {s : String} {c : Char} {cs : List Char} (h : s.toList = c :: cs) (hc : c ≠ '/') :
    hasLead "/" s = false := by
  simp [hasLead, h, dropLead?, Ne.symm hc]

theorem head_join (hne : names ≠ []) (h : ∀ name ∈ names, name ≠ "" ∧ '/' ∉ name.toList) :
    ∃ c cs, (join "/" names).toList = c :: cs ∧ c ≠ '/' := by
  obtain ⟨a, rest, rfl⟩ := List.exists_cons_of_ne_nil hne
  obtain ⟨ha, hslash⟩ := h a List.mem_cons_self
  obtain ⟨c, cs, hchars⟩ := List.exists_cons_of_ne_nil fun h ↦ ha (String.toList_eq_nil_iff.1 h)
  have hc : c ≠ '/' := by
    rintro rfl
    exact hslash (hchars ▸ List.mem_cons_self)
  cases rest with
  | nil => exact ⟨c, cs, by simp [join, hchars], hc⟩
  | cons b rest => exact ⟨c, _, by rw [join_cons_cons, String.toList_append, String.toList_append, hchars]; rfl, hc⟩

theorem isEmpty_join (hne : names ≠ []) (h : ∀ name ∈ names, name ≠ "" ∧ '/' ∉ name.toList) :
    (join "/" names).isEmpty = false := by
  obtain ⟨c, cs, hchars, -⟩ := head_join hne h
  rw [← Bool.not_eq_true, String.isEmpty_iff, ← String.toList_eq_nil_iff, hchars]
  exact List.cons_ne_nil c cs

theorem joinPaths_eq (hne : names ≠ []) (h : ∀ name ∈ names, IsFileName name) : joinPaths names = join "/" names := by
  have hnames : ∀ name ∈ names, name ≠ "" ∧ '/' ∉ name.toList := fun name hname ↦
    ⟨(h name hname).ne_empty, (h name hname).no_slash⟩
  have hfilter : names.filter (· ≠ "") = names := List.filter_eq_self.2 fun name hname ↦ by simpa using (hnames name hname).1
  obtain ⟨c, cs, hchars, hc⟩ := head_join hne hnames
  have hwalk : walk false names = names := by simp [walk, foldl_step_files false [] h]
  obtain ⟨a, rest, rfl⟩ := List.exists_cons_of_ne_nil hne
  rw [joinPaths, hfilter]
  simp only [clean, hasLead_slash_of_head hchars hc, split_join hne fun p hp ↦ (hnames p hp).2, hwalk, isEmpty_join hne hnames,
    Bool.false_eq_true, if_false]

end Disk

end CommandPack
