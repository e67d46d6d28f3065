import Mathlib.Tactic.Common
import CommandPack.Dict

/-!
What is found in a dictionary after a change of it.
-/

namespace CommandPack.Dict

variable {k : String} {α : Type}

theorem find?_replace (k k' : String) (a : α) (d : Dict α) (h : (find? k d).isSome) :
    find? k' (replace k a d) = if k = k' then some a else find? k' d := by
  induction d with
  | nil => simp [find?] at h
  | cons e d ih =>
    obtain ⟨j, b⟩ := e
    by_cases hj : j = k
    · by_cases hk : k = k' <;> simp [replace, find?, hj, hk]
    · have hrest : (find? k d).isSome := by simpa [find?, hj] using h
      by_cases hk : j = k'
      · subst hk
        simp [replace, find?, hj, Ne.symm hj]
      · simp [replace, find?, hj, hk, ih hrest]

theorem find?_place (k k' : String) (a : α) (d : Dict α) (h : find? k d = none) :
    find? k' (place k a d) = if k = k' then some a else find? k' d := by
  induction d with
  | nil => simp [place, find?]
  | cons e d ih =>
    obtain ⟨j, b⟩ := e
    have hj : j ≠ k := by
      rintro rfl
      simp [find?] at h
    have hrest : find? k d = none := by simpa [find?, hj] using h
    by_cases hlt : k < j
    · simp [place, find?, hlt]
    · by_cases hk : j = k'
      · subst hk
        simp [place, find?, hlt, hj.symm]
      · simp [place, find?, hlt, hk, ih hrest]

@[simp] theorem find?_insert (k k' : String) (a : α) (d : Dict α) :
    find? k' (insert k a d) = if k = k' then some a else find? k' d := by
  by_cases h : (find? k d).isSome
  · simp only [insert, has, h, if_true, find?_replace k k' a d h]
  · have hn : find? k d = none := by simpa using h
    simp only [insert, has, h, if_neg, Bool.false_eq_true, not_false_eq_true, find?_place k k' a d hn]

theorem find?_filter (keep : String → Bool) (d : Dict α) (k : String) :
    find? k (d.filter fun e ↦ keep e.1) = if keep k then find? k d else none := by
  induction d with
  | nil => simp [find?]
  | cons e d ih =>
    obtain ⟨j, b⟩ := e
    by_cases hj : j = k
    · subst hj
      by_cases hkeep : keep j = true <;> simp [hkeep, find?, ih]
    · by_cases hkeep : keep j = true <;> simp [hkeep, find?, hj, ih]

@[simp] theorem find?_erase (k k' : String) (d : Dict α) :
    find? k' (erase k d) = if k = k' then none else find? k' d := by
  rw [erase, find?_filter fun j ↦ j != k]
  by_cases hk : k = k' <;> simp [hk, Ne.symm]

theorem mem_replace {e : String × α} {a : α} {d : Dict α} (h : e ∈ replace k a d) : e = (k, a) ∨ e ∈ d := by
  induction d with
  | nil => exact .inr h
  | cons x d ih =>
    obtain ⟨k', b⟩ := x
    rw [replace] at h
    split at h
    · rename_i hk
      rcases List.mem_cons.1 h with h | h
      · exact .inl (hk ▸ h)
      · exact .inr (List.mem_cons_of_mem _ h)
    · rcases List.mem_cons.1 h with h | h
      · exact .inr (h ▸ List.mem_cons_self)
      · exact (ih h).imp_right (List.mem_cons_of_mem _)

theorem mem_place {e : String × α} {a : α} {d : Dict α} (h : e ∈ place k a d) : e = (k, a) ∨ e ∈ d := by
  induction d with
  | nil => exact .inl (List.mem_singleton.1 h)
  | cons x d ih =>
    obtain ⟨k', b⟩ := x
    rw [place] at h
    split at h
    · exact List.mem_cons.1 h
    · rcases List.mem_cons.1 h with h | h
      · exact .inr (h ▸ List.mem_cons_self)
      · exact (ih h).imp_right (List.mem_cons_of_mem _)

theorem mem_insert {e : String × α} {a : α} {d : Dict α} (h : e ∈ insert k a d) : e = (k, a) ∨ e ∈ d := by
  rw [insert] at h
  split at h
  · exact mem_replace h
  · exact mem_place h

theorem find?_eq_none_iff {d : Dict α} : find? k d = none ↔ k ∉ keys d := by
  induction d with
  | nil => simp [find?, keys]
  | cons e d ih =>
    obtain ⟨j, b⟩ := e
    by_cases hj : j = k
    · simp [find?, keys, hj]
    · have hstep : find? k ((j, b) :: d) = find? k d := by simp [find?, hj]
      rw [hstep, ih]
      simp [keys, Ne.symm hj]

theorem keys_replace (k : String) (a : α) (d : Dict α) : keys (replace k a d) = keys d := by
  induction d with
  | nil => rfl
  | cons e d ih =>
    obtain ⟨j, b⟩ := e
    simp only [keys] at ih
    by_cases hj : j = k <;> simp [replace, keys, hj, ih]

theorem perm_place (k : String) (a : α) (d : Dict α) : (place k a d).Perm ((k, a) :: d) := by
  induction d with
  | nil => exact .refl _
  | cons e d ih =>
    rw [place]
    split
    · exact .refl _
    · exact (ih.cons e).trans (.swap _ e _)

theorem nodup_keys_insert (k : String) (a : α) {d : Dict α} (h : (keys d).Nodup) : (keys (insert k a d)).Nodup := by
  rw [insert]
  split
  · rwa [keys_replace]
  · next hk =>
    have hnew : k ∉ keys d := find?_eq_none_iff.1 (by simpa [has] using hk)
    exact ((perm_place k a d).map _).nodup_iff.2 (List.nodup_cons.2 ⟨hnew, h⟩)

theorem nodup_keys_erase (k : String) {d : Dict α} (h : (keys d).Nodup) : (keys (erase k d)).Nodup :=
  h.sublist (List.filter_sublist.map _)

theorem replace_replace (k : String) (a b : α) (d : Dict α) : replace k b (replace k a d) = replace k b d := by
  induction d with
  | nil => rfl
  | cons e d ih => by_cases he : e.1 = k <;> simp [replace, he, ih]

theorem replace_place {d : Dict α} (a b : α) (h : find? k d = none) : replace k b (place k a d) = place k b d := by
  induction d with
  | nil => simp [place, replace]
  | cons e d ih =>
    have he : e.1 ≠ k := fun he ↦ by simp [find?, he] at h
    have hrest : find? k d = none := by simpa [find?, he] using h
    by_cases hlt : k < e.1 <;> simp [place, replace, hlt, he, ih hrest]

theorem insert_insert (k : String) (a b : α) (d : Dict α) : insert k b (insert k a d) = insert k b d := by
  have hhas : has k (insert k a d) = true := by simp [has]
  rw [insert, if_pos hhas, insert, insert]
  split
  · exact replace_replace k a b d
  · next h => exact replace_place a b (by simpa [has] using h)

theorem insert_of_find? {a : α} {d : Dict α} (h : find? k d = some a) : insert k a d = d := by
  rw [insert, has, h, Option.isSome_some, if_pos rfl]
  induction d with
  | nil => rfl
  | cons e d ih =>
    obtain ⟨j, b⟩ := e
    by_cases hj : j = k <;> simp_all [find?, replace]

end CommandPack.Dict
