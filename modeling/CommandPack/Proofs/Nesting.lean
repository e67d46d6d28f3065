import Mathlib
import CommandPack.Operand
import CommandPack.Tag.Path

/-!
Paths below paths. A slot inside of another slot has the steps of the outer path and then those of the inner one, however
both are written: where the outer path ends the reader is between two steps, or in a key that a point or a bracket ends.
-/

namespace CommandPack

open Text

namespace Tag

variable {st : PathState} {cs ds : List Char} {d : Char} {ps qs : List Step}

theorem scanPath_point (ds : List Char) : scanPath .between ('.' :: ds) = scanPath .between ds := by
  rw [scanPath, if_pos rfl]

theorem cons_map_eq_ok {x : Step} {r : Except PathError (List Step)} (h : (x :: ·) <$> r = .ok ps) :
    ∃ qs, r = .ok qs ∧ ps = x :: qs := by
  cases r with
  | error e => cases h
  | ok qs => exact ⟨qs, rfl, (Except.ok.inj h).symm⟩

theorem cons_map_append_map (x : Step) (ps : List Step) (r : Except PathError (List Step)) :
    (x :: ·) <$> (ps ++ ·) <$> r = (x :: ps ++ ·) <$> r := by
  cases r <;> rfl

/-- A point or a bracket after a path that can be read is read between two steps. -/
theorem scanPath_append (hd : d = '.' ∨ d = '[') (ds : List Char) (h : scanPath st cs = .ok ps) :
    scanPath st (cs ++ d :: ds) = (ps ++ ·) <$> scanPath .between (d :: ds) := by
  generalize hrest : scanPath .between (d :: ds) = rest
  have hcons {st : PathState} {cs : List Char} {x : Step} {ps : List Step}
      (ih : ∀ {ps}, scanPath st cs = .ok ps → scanPath st (cs ++ d :: ds) = (ps ++ ·) <$> rest)
      (h : (x :: ·) <$> scanPath st cs = .ok ps) :
      (x :: ·) <$> scanPath st (cs ++ d :: ds) = (ps ++ ·) <$> rest := by
    obtain ⟨qs, hqs, rfl⟩ := cons_map_eq_ok h
    rw [ih hqs, cons_map_append_map]
  fun_induction scanPath st cs generalizing ps with
  | case1 =>
    cases h
    simp [hrest]
  | case2 cs ih => simpa [scanPath] using ih h
  | case3 cs _ ih => simpa [scanPath] using ih h
  | case4 cs _ _ ih => simpa [scanPath] using ih h
  | case5 c cs hpoint hbracket hmark ih => simpa [scanPath, hpoint, hbracket, hmark] using ih h
  | case6 p =>
    -- a key ends here: what ends it is read again
    cases h
    rcases hd with rfl | rfl
    · rw [← hrest, scanPath_point, List.nil_append, scanPath, if_pos rfl]
      rfl
    · rw [← hrest, List.nil_append, scanPath, if_neg (by decide), if_pos rfl]
      rfl
  | case7 p cs ih =>
    rw [List.cons_append, scanPath, if_pos rfl]
    exact hcons ih h
  | case8 p cs hpoint ih =>
    rw [List.cons_append, scanPath, if_neg hpoint, if_pos rfl]
    exact hcons ih h
  | case9 p c cs hpoint hbracket ih => simpa [scanPath, hpoint, hbracket] using ih h
  | case10 => cases h
  | case11 p cs ih =>
    rw [List.cons_append, scanPath, if_pos rfl]
    exact hcons ih h
  | case12 p c cs hmark ih => simpa [scanPath, hmark] using ih h
  | case13 => cases h
  | case14 p cs i hindex ih =>
    rw [List.cons_append, scanPath, if_pos rfl, hindex]
    exact hcons ih h
  | case15 => cases h
  | case16 p c cs hbracket ih => simpa [scanPath, hbracket] using ih h

theorem readPath_eq_ok_iff {path : String} :
    readPath path = .ok ps ↔ scanPath .between path.toList = .ok ps ∧ ps ≠ [] := by
  rw [readPath]
  cases scanPath .between path.toList with
  | error e => simp [bind, Except.bind]
  | ok qs =>
    cases qs with
    | nil => simp +contextual [bind, Except.bind]
    | cons q qs =>
      simp only [bind, Except.bind, Except.ok.injEq, ne_eq]
      constructor
      · rintro rfl
        exact ⟨rfl, List.cons_ne_nil _ _⟩
      · exact And.left

theorem toList_of_hasLead {q : String} (h : hasLead "[" q = true) : ∃ ds, q.toList = '[' :: ds := by
  rw [hasLead] at h
  cases hq : q.toList with
  | nil => simp [hq, dropLead?] at h
  | cons c cs =>
    by_cases hc : '[' = c
    · exact ⟨cs, by rw [hc]⟩
    · simp [hq, dropLead?, hc] at h

end Tag

/-- Paths compose. If the path of a slot and a path inside of it can be read, then so can the path that the two make, and its
steps are those of the outer path followed by those of the inner one. -/
theorem Slot.paths_compose (s : Slot) (q : String) (type : DataType) {ps qs : List Tag.Step}
    (hp : Tag.readPath s.path = .ok ps) (hq : Tag.readPath q = .ok qs) :
    Tag.readPath (s.sub q type).path = .ok (ps ++ qs) := by
  rw [Tag.readPath_eq_ok_iff] at hp hq ⊢
  have hne : s.path.isEmpty = false := by
    rw [Bool.eq_false_iff, ne_eq, String.isEmpty_iff]
    intro hempty
    rw [hempty] at hp
    exact hp.2 (Except.ok.inj hp.1).symm
  refine ⟨?_, List.append_ne_nil_of_left_ne_nil hp.2 qs⟩
  simp only [Slot.sub, hne, Bool.false_eq_true, if_false]
  split_ifs with hlead
  · obtain ⟨ds, hds⟩ := Tag.toList_of_hasLead hlead
    rw [String.toList_append, hds, Tag.scanPath_append (.inr rfl) ds hp.1, ← hds, hq.1]
    rfl
  · have hpoint : (s.path ++ "." ++ q).toList = s.path.toList ++ '.' :: q.toList := by simp
    rw [hpoint, Tag.scanPath_append (.inl rfl) q.toList hp.1, Tag.scanPath_point, hq.1]
    rfl

/-- Repeated points, an index after an index, and a quoted key in which points and brackets mean nothing. -/
theorem Slot.paths_compose_quoted :
    Tag.readPath "a..b[0]" = .ok [.key "a", .key "b", .index 0] ∧
    Tag.readPath "[-1].\"x.[y\"" = .ok [.index (-1), .key "x.[y"] ∧
    Tag.readPath ((Slot.inStorage (.lit "demo:data") "a..b[0]" .compound).sub "[-1].\"x.[y\"" .int).path =
      .ok [.key "a", .key "b", .index 0, .index (-1), .key "x.[y"] := by
  have houter : Tag.readPath "a..b[0]" = .ok [.key "a", .key "b", .index 0] := by rfl
  have hinner : Tag.readPath "[-1].\"x.[y\"" = .ok [.index (-1), .key "x.[y"] := by rfl
  exact ⟨houter, hinner, Slot.paths_compose (.inStorage (.lit "demo:data") "a..b[0]" .compound) _ .int houter hinner⟩

end CommandPack
