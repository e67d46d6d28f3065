import Mathlib
import CommandPack.Proofs.Words

/-!
Commands and their words. A scan over the characters of a command knows which blanks separate words, and the words
are the pieces between these; each of them is a word by itself, so words that are put together again with blanks
between them are the same words.
-/

namespace CommandPack.Machine

open Text

/-- What a scan knows of the characters that it has read. -/
structure Scan where
  inWord : Bool := false
  depth : Nat := 0
  mark : Option Char := none
  escaped : Bool := false

namespace Scan

/-- Does a character end a word? Blanks do, outside of brackets and quotations. -/
def separates (s : Scan) (c : Char) : Bool := (c == ' ' || c == '\t') && s.depth == 0 && s.mark.isNone

def read (s : Scan) (c : Char) : Scan :=
  match s.mark with
  | some mark =>
    if s.escaped then { s with escaped := false }
    else if c = '\\' then { s with escaped := true }
    else if c = mark then { s with mark := none }
    else s
  | none =>
    if s.separates c then { s with inWord := false }
    else if c = '"' ∨ c = '\'' then
      { s with inWord := true, mark := if s.inWord ∧ s.depth = 0 then none else some c }
    else if c = '[' ∨ c = '\x7b' then { s with inWord := true, depth := s.depth + 1 }
    else if c = ']' ∨ c = '\x7d' then { s with inWord := true, depth := s.depth - 1 }
    else { s with inWord := true }

theorem read_separating {s : Scan} {c : Char} (h : s.separates c = true) : s.read c = { s with inWord := false } := by
  have hmark : s.mark = none := by simpa [separates] using (Bool.and_eq_true_iff.1 h).2
  simp only [read, hmark, h, if_true]

theorem read_marked {s : Scan} {mark c : Char} (hm : s.mark = some mark) (hescaped : s.escaped = false) (hc : c ≠ '\\') :
    s.read c = if c = mark then { s with mark := none } else s := by
  simp [read, hm, hescaped, hc]

theorem read_unmarked {s : Scan} {c : Char} (hm : s.mark = none) (hsep : s.separates c = false) :
    s.read c = if c = '"' ∨ c = '\'' then
        { s with inWord := true, mark := if s.inWord ∧ s.depth = 0 then none else some c }
      else if c = '[' ∨ c = '\x7b' then { s with inWord := true, depth := s.depth + 1 }
      else if c = ']' ∨ c = '\x7d' then { s with inWord := true, depth := s.depth - 1 }
      else { s with inWord := true } := by
  simp only [read, hm, hsep, Bool.false_eq_true, if_false]

/-- No bracket and no quotation is open. -/
def IsNeutral (s : Scan) : Prop := s.depth = 0 ∧ s.mark = none

/-- The characters, with a note whether they separate words. -/
def labels (s : Scan) : List Char → List (Char × Bool)
  | [] => []
  | c :: cs => (c, s.separates c) :: labels (s.read c) cs

theorem labels_append (s : Scan) (a b : List Char) : labels s (a ++ b) = labels s a ++ labels (a.foldl read s) b := by
  induction a generalizing s with
  | nil => rfl
  | cons c a ih => rw [List.cons_append, labels, labels, ih, List.cons_append, List.foldl_cons]

end Scan

/-- The longest pieces without separating characters. -/
def piecesOf (ls : List (Char × Bool)) : List (List Char) :=
  ((ls.splitOnP (·.2)).map fun piece ↦ piece.map (·.1)).filter (· ≠ [])

theorem piecesOf_unseparated (cs : List Char) : piecesOf (cs.map (·, false)) = if cs = [] then [] else [cs] := by
  have hnone : ∀ x ∈ cs.map (·, false), x.2 = false := by simp
  rw [piecesOf, List.splitOnP_eq_singleton hnone]
  split <;> simp_all [Function.comp_def]

theorem piecesOf_separated (cs : List Char) (c : Char) (ls : List (Char × Bool)) :
    piecesOf (cs.map (·, false) ++ (c, true) :: ls) = (if cs = [] then [] else [cs]) ++ piecesOf ls := by
  have hnone : ∀ x ∈ cs.map (·, false), x.2 = false := by simp
  rw [piecesOf, List.splitOnP_append_cons_of_forall_mem hnone _ rfl, piecesOf]
  split <;> simp_all [Function.comp_def]

namespace WordState

variable {st st' : WordState}

/-- The characters of the word that was begun. -/
def begun (st : WordState) : List Char := (st.word.getD []).reverse

def scan (st : WordState) : Scan := ⟨st.word.isSome, st.depth, st.mark, false⟩

end WordState

variable {st st' : WordState} {c : Char} {cs part : List Char} {ws : List String}

/-- Some characters of a command go to the word that was begun. -/
structure Takes (st : WordState) (part : List Char) (st' : WordState) : Prop where
  nonempty : part ≠ []
  word : st'.word = some (part.reverse ++ st.word.getD [])
  scan (cs : List Char) : scanWords st (part ++ cs) = scanWords st' cs
  read : part.foldl Scan.read st.scan = st'.scan
  labels : st.scan.labels part = part.map (·, false)

/-- How a command falls into words. -/
inductive Divides : WordState → List Char → List String → Prop
  | finish {st : WordState} (h : st.scan.IsNeutral) : Divides st [] st.words
  | separate {st : WordState} {c : Char} {cs : List Char} {ws : List String} (h : st.scan.separates c = true)
      (rest : Divides {} cs ws) : Divides st (c :: cs) (st.words ++ ws)
  | take {st st' : WordState} {part cs : List Char} {ws : List String} (h : Takes st part st')
      (rest : Divides st' cs ws) : Divides st (part ++ cs) ws

theorem takes_one (hsep : st.scan.separates c = false) (hword : st'.word = some (c :: st.word.getD []))
    (hread : st.scan.read c = st'.scan) (hscan : ∀ cs, scanWords st (c :: cs) = scanWords st' cs) : Takes st [c] st' :=
  ⟨by simp, hword, hscan, hread, by simp [Scan.labels, hsep]⟩

theorem scan_of_mark {mark : Char} (hst : st.word = none → st = {}) (hm : st.mark = some mark) :
    st.scan = ⟨true, st.depth, some mark, false⟩ := by
  rw [WordState.scan, hm]
  cases hword : st.word with
  | none =>
    rw [hst hword] at hm
    cases hm
  | some w => rfl

theorem read_scan_separating (h : st.scan.separates c = true) : st.scan.read c = ({} : WordState).scan := by
  rw [Scan.read_separating h]
  simp only [Scan.separates, Bool.and_eq_true, beq_iff_eq, Option.isNone_iff_eq_none] at h
  rw [h.1.2, h.2]
  rfl

theorem read_of_step (hm : st.mark = none) (hsep : st.scan.separates c = false) (h : st.step c = .ok st') :
    st'.word = some (c :: st.word.getD []) ∧ st.scan.read c = st'.scan := by
  rw [Scan.read_unmarked hm hsep]
  unfold WordState.step at h
  split at h
  · rename_i hquote
    rw [if_pos hquote]
    split at h
    · rename_i hopens
      cases h
      have hout : ¬ (st.scan.inWord = true ∧ st.scan.depth = 0) := by
        rintro ⟨hin, hdepth⟩
        rcases hopens with hnone | hdeep
        · simp_all [WordState.scan]
        · exact hdeep.ne' hdepth
      rw [if_neg hout]
      exact ⟨rfl, rfl⟩
    · rename_i hopens
      cases h
      have hin : st.scan.inWord = true ∧ st.scan.depth = 0 := by
        simpa [WordState.scan, Option.isSome_iff_ne_none] using hopens
      rw [if_pos hin]
      exact ⟨rfl, by rw [WordState.scan, WordState.scan, WordState.push, hm]; rfl⟩
  · rename_i hquote
    rw [if_neg hquote]
    split at h
    · rename_i hopen
      rw [if_pos hopen]
      cases h
      exact ⟨rfl, rfl⟩
    · rename_i hopen
      rw [if_neg hopen]
      split at h
      · rename_i hclose
        rw [if_pos hclose]
        split at h
        · cases h
        · cases h
          exact ⟨rfl, rfl⟩
      · rename_i hclose
        rw [if_neg hclose]
        cases h
        exact ⟨rfl, rfl⟩

theorem divides_of_scanWords (hst : st.word = none → st = {}) (h : scanWords st cs = .ok ws) : Divides st cs ws := by
  fun_induction scanWords st cs generalizing ws with
  | case1 | case2 | case4 => cases h
  | case3 st hm hd =>
    cases h
    rw [Bool.not_eq_true, Option.isSome_eq_false_iff, Option.isNone_iff_eq_none] at hm
    exact .finish ⟨not_not.1 hd, hm⟩
  | case5 st mark hm d cs ih =>
    have htakes : Takes st ['\\', d] ((st.push '\\').push d) := by
      refine ⟨by simp, by simp [WordState.push], fun cs ↦ by simp [scanWords, hm], ?_, ?_⟩
      · rw [scan_of_mark hst hm]
        simp [Scan.read, WordState.scan, WordState.push, hm]
      · rw [scan_of_mark hst hm]
        simp [Scan.labels, Scan.separates, Scan.read]
    exact .take htakes (ih (fun h ↦ (Option.some_ne_none _ h).elim) h)
  | case6 st cs mark hm hne ih =>
    have htakes : Takes st [mark] { st.push mark with mark := none } := by
      refine takes_one ?_ rfl ?_ fun cs ↦ by rw [scanWords_marked hm hne, if_pos rfl]
      · simp [Scan.separates, scan_of_mark hst hm]
      · rw [Scan.read_marked hm rfl hne, if_pos rfl, scan_of_mark hst hm]
        rfl
    exact .take htakes (ih (fun h ↦ (Option.some_ne_none _ h).elim) h)
  | case7 st c cs mark hm hne hc ih =>
    have htakes : Takes st [c] (st.push c) := by
      refine takes_one ?_ rfl ?_ fun cs ↦ by rw [scanWords_marked hm hne, if_neg hc]
      · simp [Scan.separates, scan_of_mark hst hm]
      · rw [Scan.read_marked hm rfl hne, if_neg hc, scan_of_mark hst hm, WordState.scan, WordState.push, hm]
        rfl
    exact .take htakes (ih (fun h ↦ (Option.some_ne_none _ h).elim) h)
  | case8 st c cs hm hblank ih =>
    obtain ⟨hc, hout⟩ := hblank
    have hdepth : st.depth = 0 := hout.elim id fun hnone ↦ by rw [hst (Option.isNone_iff_eq_none.1 hnone)]
    have hstart : { st with word := none } = ({} : WordState) := by rw [hdepth, hm]
    rw [hstart] at ih h
    have hsep : st.scan.separates c = true := by simpa [Scan.separates, WordState.scan, hm, hdepth] using hc
    cases hrest : scanWords {} cs with
    | error e =>
      rw [hrest] at h
      cases h
    | ok rest =>
      rw [hrest] at h
      cases h
      exact .separate hsep (ih (fun _ ↦ rfl) hrest)
  | case9 => simp_all
  | case10 st c cs hm hblank st' hstep ih =>
    have hsep : st.scan.separates c = false := by
      rw [Bool.eq_false_iff]
      intro hsep
      simp only [Scan.separates, WordState.scan, Bool.and_eq_true, Bool.or_eq_true, beq_iff_eq] at hsep
      exact hblank ⟨hsep.1.1, .inl hsep.1.2⟩
    obtain ⟨hword, hread⟩ := read_of_step hm hsep hstep
    have htakes : Takes st [c] st' :=
      takes_one hsep hword hread fun cs ↦ by rw [scanWords_unmarked hm, if_neg hblank, hstep]
    exact .take htakes (ih (fun h ↦ by rw [hword] at h; cases h) h)

theorem Divides.isNeutral (h : Divides st cs ws) : (cs.foldl Scan.read st.scan).IsNeutral := by
  induction h with
  | finish h => exact h
  | @separate st c cs ws h rest ih =>
    rwa [List.foldl_cons, read_scan_separating h]
  | take h _ ih => rwa [List.foldl_append, h.read]

theorem words_toList (hst : st.word ≠ some []) :
    st.words.map String.toList = if st.begun = [] then [] else [st.begun] := by
  rw [WordState.words, WordState.begun]
  cases hword : st.word with
  | none => rfl
  | some w =>
    have hne : w ≠ [] := fun h ↦ hst (by rw [hword, h])
    simp [hne]

theorem Takes.begun (h : Takes st part st') : st'.begun = st.begun ++ part := by
  simp [WordState.begun, h.word]

theorem Takes.word_ne (h : Takes st part st') : st'.word ≠ some [] := by
  simp [h.word, h.nonempty]

theorem Divides.pieces (h : Divides st cs ws) (hst : st.word ≠ some []) :
    ws.map String.toList = piecesOf (st.begun.map (·, false) ++ st.scan.labels cs) := by
  induction h with
  | finish => rw [words_toList hst, Scan.labels, List.append_nil, piecesOf_unseparated]
  | separate h _ ih =>
    rw [List.map_append, words_toList hst, ih nofun, Scan.labels, h, piecesOf_separated, read_scan_separating h]
    rfl
  | take h _ ih =>
    rw [ih h.word_ne, Scan.labels_append, h.labels, h.read, h.begun, List.map_append, List.append_assoc]

/-- The characters of the word that was begun lead to the state again. -/
def TakesUp (st : WordState) : Prop := ∀ cs, scanWords {} (st.begun ++ cs) = scanWords st cs

theorem Takes.takesUp (h : Takes st part st') (hst : TakesUp st) : TakesUp st' := by
  intro cs
  rw [h.begun, List.append_assoc, hst, h.scan]

theorem splitWords_of_begun (hneutral : st.scan.IsNeutral) (hst : TakesUp st) :
    ∀ w ∈ st.words, splitWords w = .ok [w] := by
  obtain ⟨word, depth, mark⟩ := st
  obtain ⟨hdepth, hmark⟩ := hneutral
  cases hdepth
  cases hmark
  cases word with
  | none => nofun
  | some cs =>
    intro w hw
    obtain rfl : w = String.ofList cs.reverse := List.mem_singleton.1 hw
    have hend := hst []
    rw [List.append_nil] at hend
    rw [splitWords, String.toList_ofList]
    exact hend

theorem Divides.alone (h : Divides st cs ws) (hst : TakesUp st) : ∀ w ∈ ws, splitWords w = .ok [w] := by
  induction h with
  | finish h => exact splitWords_of_begun h hst
  | @separate st c cs ws h _ ih =>
    have hneutral : st.scan.IsNeutral := by
      simp only [Scan.separates, Bool.and_eq_true, beq_iff_eq, Option.isNone_iff_eq_none] at h
      exact ⟨h.1.2, h.2⟩
    rw [List.forall_mem_append]
    exact ⟨splitWords_of_begun hneutral hst, ih fun cs ↦ rfl⟩
  | take h _ ih => exact ih (h.takesUp hst)

/-- Words are what is between separating blanks. Where a command splits into words, none of them is empty and each by
itself leaves no bracket and no quotation open; they are the longest pieces without blanks that separate, in order; and
any of the last words, put together with blanks between them, split into the same words again. -/
theorem words_are_pieces {line : String} (h : splitWords line = .ok ws) :
    (∀ w ∈ ws, w ≠ "" ∧ (w.toList.foldl Scan.read {}).IsNeutral) ∧
      ws.map String.toList = piecesOf (Scan.labels {} line.toList) ∧
      ∀ n, splitWords (join " " (ws.drop n)) = .ok (ws.drop n) := by
  have hdivides : Divides {} line.toList ws := divides_of_scanWords (fun _ ↦ rfl) h
  have halone := hdivides.alone fun cs ↦ rfl
  refine ⟨fun w hw ↦ ⟨?_, ?_⟩, hdivides.pieces nofun, fun n ↦ splitWords_join_words fun w hw ↦ ?_⟩
  · rintro rfl
    cases halone "" hw
  · exact (divides_of_scanWords (fun _ ↦ rfl) (halone w hw)).isNeutral
  · exact halone w (List.mem_of_mem_drop hw)

/-- Blanks in brackets and quotations stay, and those between words do not. -/
theorem words_are_pieces_tellraw :
    let line := "tellraw  @a[tag=x, limit=1]\t\x7b\"text\": \"a \\\" ] b\"\x7d "
    let ws := ["tellraw", "@a[tag=x, limit=1]", "\x7b\"text\": \"a \\\" ] b\"\x7d"]
    splitWords line = .ok ws ∧ ws.map String.toList = piecesOf (Scan.labels {} line.toList) ∧
      splitWords (join " " (ws.drop 1)) = .ok (ws.drop 1) := by
  intro line ws
  have hsplit : splitWords line = .ok ws := by cbv
  have hpieces := words_are_pieces hsplit
  exact ⟨hsplit, hpieces.2.1, hpieces.2.2 1⟩

end CommandPack.Machine
