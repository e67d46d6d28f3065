import Mathlib
import CommandPack.Proofs.Spelling
import CommandPack.Proofs.Stacking

/-!
Constants put into storages. The command for it always ends well; numbers arrive as they are, and a text does just if all
of it is printable.
-/

namespace CommandPack

open Text Stateful

namespace Tag

theorem controlLetter?_ne {c l : Char} (h : controlLetter? c = some l) : l ≠ c := by
  rintro rfl
  rw [controlLetter?] at h
  split at h
  case h_8 => cases h
  all_goals
    next hcode =>
      cases h
      exact absurd hcode (by decide)

theorem length_hexPadded (w n : ℕ) : (hexPadded w n).length = w := by
  induction w generalizing n with
  | zero => rfl
  | succ w ih => rw [hexPadded, List.length_append, ih, List.length_singleton]

theorem kept_cases (c : Char) : isPrintable c = true ∧ kept c = [c] ∨
    isPrintable c = false ∧ kept c ≠ [c] ∧ kept c ≠ [] := by
  cases hprint : isPrintable c with
  | true => exact .inl ⟨rfl, kept_of_isPrintable hprint⟩
  | false =>
    have hmark : ¬ (c = '"' ∨ c = '\\') := by
      rintro (rfl | rfl) <;> exact absurd hprint (by decide +kernel)
    have hlong {d : Char} {w : ℕ} (hw : 0 < w) : d :: hexPadded w c.toNat ≠ [c] := by
      intro heq
      have hlength := congrArg List.length heq
      rw [List.length_cons, length_hexPadded] at hlength
      simp at hlength
      omega
    refine .inr ⟨rfl, ?_⟩
    rw [kept, escapeChar, if_neg hmark, if_neg (by simp [hprint])]
    cases hletter : controlLetter? c with
    | some l => exact ⟨by simpa using controlLetter?_ne hletter, List.cons_ne_nil _ _⟩
    | none =>
      dsimp only
      by_cases hascii : c.toNat < 0x80
      · rw [if_pos hascii]
        exact ⟨hlong (w := 2) (by decide), List.cons_ne_nil _ _⟩
      rw [if_neg hascii]
      by_cases hshort : c.toNat < 0x10000
      · rw [if_pos hshort]
        exact ⟨hlong (w := 4) (by decide), List.cons_ne_nil _ _⟩
      · rw [if_neg hshort]
        exact ⟨hlong (w := 8) (by decide), List.cons_ne_nil _ _⟩

theorem flatMap_kept_iff (cs : List Char) : cs.flatMap kept = cs ↔ ∀ c ∈ cs, isPrintable c = true := by
  refine ⟨fun h ↦ ?_, flatMap_kept⟩
  have hlength : ∀ cs : List Char, cs.length ≤ (cs.flatMap kept).length := by
    intro cs
    induction cs with
    | nil => exact le_rfl
    | cons c cs ih =>
      have hpos : 0 < (kept c).length := by
        rw [List.length_pos_iff]
        rcases kept_cases c with ⟨-, hc⟩ | ⟨-, -, hc⟩
        · simp [hc]
        · exact hc
      rw [List.flatMap_cons, List.length_append, List.length_cons]
      omega
  induction cs with
  | nil => simp
  | cons c cs ih =>
    -- as many characters are kept as there are, so one of each
    have hone : (kept c).length ≤ 1 := by
      have htotal := congrArg List.length h
      rw [List.flatMap_cons, List.length_append, List.length_cons] at htotal
      have hrest := hlength cs
      omega
    rw [List.flatMap_cons] at h
    rcases kept_cases c with ⟨hprint, hc⟩ | ⟨-, hne, hc⟩
    · rw [hc, List.singleton_append, List.cons.injEq] at h
      rw [List.forall_mem_cons]
      exact ⟨hprint, ih h.2⟩
    · cases hkept : kept c with
      | nil => exact absurd hkept hc
      | cons d ds =>
        rw [hkept, List.length_cons] at hone
        obtain rfl : ds = [] := List.length_eq_zero_iff.1 (by omega)
        rw [hkept, List.singleton_append, List.cons.injEq] at h
        rw [hkept, h.1] at hne
        exact absurd rfl hne

theorem read_quote (s : String) : read (quote s) = .ok (string (String.ofList (s.toList.flatMap kept))) := by
  have hvalue := readValue_quote s [] (2 * (quote s).length + 1)
  rw [List.append_nil] at hvalue
  rw [read, hvalue]
  rfl

end Tag

namespace Machine

theorem splitWords_quote (s : String) : splitWords (quote s) = .ok [quote s] := by
  have hinside := Json.scanWords_flatMap Tag.isEscape_quoted ['"'] 0 s.toList ['"']
  have hopen : WordState.step {} '"' = .ok ⟨some ['"'], 0, some '"'⟩ := rfl
  have htext := Tag.toList_quote_append s []
  rw [List.append_nil] at htext
  rw [splitWords, htext, scanWords_unmarked rfl, if_neg (by simp), hopen]
  dsimp only
  rw [hinside, scanWords_marked rfl (by decide), if_pos rfl, ← String.ofList_toList (s := quote s), htext]
  simp [scanWords, WordState.push, WordState.words]

theorem isLine_quote (s : String) : IsLine (quote s) := by
  have htext := Tag.toList_quote_append s []
  rw [List.append_nil] at htext
  refine ⟨?_, ⟨'"', by rw [htext]; rfl, by decide, by decide⟩, '"', ?_, by decide⟩
  · have hinside := Json.newline_notMem_flatMap Tag.isEscape_quoted s.toList
    rw [htext]
    simp [hinside]
  · rw [htext, ← List.cons_append, List.getLast?_concat]

/-- A text that stands in a command as one word. -/
def IsWord (s : String) : Prop := s ≠ "" ∧ s.toList.all (fun c ↦ isWordChar c && c != '\n') = true

theorem IsWord.split {s : String} (h : IsWord s) : splitWords s = .ok [s] := by
  refine splitWords_of_isWordChar h.1 fun c hc ↦ ?_
  have hc := List.all_eq_true.1 h.2 c hc
  rw [Bool.and_eq_true] at hc
  exact hc.1

theorem IsWord.unbroken {s : String} (h : IsWord s) : '\n' ∉ s.toList := by
  intro hmem
  have hc := List.all_eq_true.1 h.2 _ hmem
  simp at hc

/-- A key that is one word of a command and the whole of a path. -/
def IsBareKey (key : String) : Prop := IsWord key ∧ isKey key

def putLine (id key text : String) : String := join " " ["data", "modify", "storage", id, key, "set", "value", text]

variable {id key text : String} {m m' : Machine} {site : Site} {actor : Actor} {call : Call} {v : Tag}

theorem splitWords_putLine (hid : IsWord id) (hkey : IsWord key) (htext : splitWords text = .ok [text]) :
    splitWords (putLine id key text) = .ok ["data", "modify", "storage", id, key, "set", "value", text] := by
  refine splitWords_join_words fun s hs ↦ ?_
  simp only [List.mem_cons, List.not_mem_nil, or_false] at hs
  rcases hs with rfl | rfl | rfl | rfl | rfl | rfl | rfl | rfl
  all_goals first | exact hid.split | exact hkey.split | exact htext | rfl

theorem isLine_putLine (hid : IsWord id) (hkey : IsWord key) (htext : IsLine text) : IsLine (putLine id key text) := by
  refine isLine_join ["modify", "storage", id, key, "set", "value"] (isLine_word rfl (by decide)) ?_ htext
  simp only [List.forall_mem_cons, hid.unbroken, hkey.unbroken]
  simp

theorem ends_put (hkey : isKey key) (htext : Tag.read text = .ok v) :
    Stateful.Ends (perform call site ["data", "modify", "storage", id, key, "set", "value", text] actor) m
      ((m.withStorage id).stored id (Dict.insert key v (fieldsOf id m))) := by
  have hread : tagOrFault site [text] = pure v := by
    rw [tagOrFault, show join " " [text] = text by simp [join]]
    simp only [htext]
  refine ⟨⟨1, true⟩, ?_⟩
  rw [perform_data, data_storage]
  simp only [String.reduceEq, if_false, if_true, dataModify, List.isEmpty_cons, Bool.false_eq_true,
    pathOrFault_of_readPath (Tag.readPath_key hkey.1 hkey.2), pure_bind, modifySource, hread, modifyWith]
  simp only [changePlace, bind_apply, get_apply, andThen_ok, load_withStorage, Tag.set]
  rfl

theorem storageAt?_stored (hkey : isKey key) (fields : Dict Tag) :
    storageAt? (m.stored id (Dict.insert key v fields)) id key = some v := by
  have hne : key.isEmpty = false := by simpa [String.isEmpty_iff] using hkey.1
  simp [storageAt?, stored, hne, Tag.readPath_key hkey.1 hkey.2, Tag.get?]

theorem run_define_put (hidle : m.running = false) (hwatch : m.observer = none) (hdepth : 1 ≤ m.maxDepth)
    (path : String) (hid : IsWord id) (hkey : IsBareKey key) (hsplit : splitWords text = .ok [text]) (hline : IsLine text)
    (hread : Tag.read text = .ok v) :
    ∃ m', (m.define path [putLine id key text]).run path = (.ok (), m') ∧ storageAt? m' id key = some v := by
  obtain ⟨d, hd⟩ : ∃ d, m.maxDepth.toNat = d + 1 := ⟨m.maxDepth.toNat - 1, by omega⟩
  let m₁ : Machine := { m.define path [putLine id key text] with running := true, cancelled := false, count := 0 }
  let m₂ : Machine := (m₁.ticked.withStorage id).stored id (Dict.insert key v (fieldsOf id m₁.ticked))
  have hlines : Dict.find? path m₁.functions = some [putLine id key text] := by
    have hcommands : [putLine id key text].flatMap commandsOf = [putLine id key text] := by
      simp [(isLine_putLine hid hkey.1 hline).commandsOf_eq]
    simp [m₁, define, hcommands]
  have hroom : Room 1 m₁ := ⟨hwatch, rfl, by show _ ∨ ((0 : ℕ) : ℤ) + (1 : ℕ) ≤ _; omega⟩
  have hobserver : m₂.observer = none := by
    show (m₁.ticked.withStorage id).observer = none
    unfold withStorage
    split <;> exact hwatch
  have hcall : Stateful.Ends (callFunction (d + 1) path "" {} {}) m₁ m₂ := by
    refine ends_call hlines hwatch hobserver ?_
    obtain ⟨r, hr⟩ : Stateful.Ends (step (callFunction d) ⟨⟨path, 1, putLine id key text⟩, [⟨path, 1⟩]⟩ {}) m₁ m₂ :=
      hroom.ends_step (by decide) (splitWords_putLine hid hkey.1 hsplit) (ends_put hkey.2 hread)
    exact ends_bind hr (ends_pure _ _)
  refine ⟨m₂.finish, run_of_ends hidle (hd ▸ hcall), ?_⟩
  exact storageAt?_stored (m := m₁.ticked.withStorage id) hkey.2 _

end Machine

/-- A constant by what it stands for. -/
inductive Payload where
  | byte (n : Int8)
  | short (n : Int16)
  | int (n : Int32)
  | long (n : Int64)
  | string (s : String)

namespace Payload

open Machine Transfer

def operand : Payload → Operand
  | byte n => .byte n.toInt
  | short n => .short n.toInt
  | int n => .int n.toInt
  | long n => .long n.toInt
  | string s => .string s

def tag : Payload → Tag
  | byte n => .byte n
  | short n => .short n
  | int n => .int n
  | long n => .long n
  | string s => .string s

/-- Everything but a text is. -/
def isPrintable : Payload → Bool
  | string s => s.toList.all Text.isPrintable
  | _ => true

theorem operand_eq (p : Payload) : p.operand = .const p.operand.type p.tag.render := by
  cases p <;> rfl

theorem isName_of_isNumeral {text : String} (h : Json.isNumeral text.toList = true) : IsName text := by
  have hall := List.all_eq_true.1 (Json.all_of_isNumeral h)
  refine isName_of_isRestrictedText ?_
  rw [isRestrictedText, Bool.and_eq_true, List.all_eq_true]
  refine ⟨?_, fun c hc ↦ ?_⟩
  · rw [Bool.not_eq_true', Bool.eq_false_iff, ne_eq, String.isEmpty_iff]
    rintro rfl
    cases h
  · have hchar := hall c hc
    simp only [Json.isNumeralChar, Char.isAlphanum, Char.isAlpha, Char.isUpper, Char.isLower, Char.isDigit,
      Bool.or_eq_true, Bool.and_eq_true, decide_eq_true_eq, beq_iff_eq] at hchar
    simp only [isRestrictedChar, Bool.or_eq_true, Bool.and_eq_true, decide_eq_true_eq, beq_iff_eq, Char.le_def]
    tauto

theorem isName_render (p : Payload) (h : ∀ s, p ≠ string s) : IsName p.tag.render := by
  have hsuffixed {n : ℤ} {suffix : String} (hsuffix : suffix.toList.all Json.isNumeralChar = true) :
      IsName (toString n ++ suffix) := by
    refine isName_of_isNumeral ?_
    rw [String.toList_append]
    exact Json.isNumeral_append (Json.isNumeral_toString_int n) hsuffix
  cases p with
  | byte n => exact hsuffixed (by decide)
  | short n => exact hsuffixed (by decide)
  | int n =>
    rw [tag, Tag.render]
    exact isName_of_isNumeral (Json.isNumeral_toString_int _)
  | long n => exact hsuffixed (by decide)
  | string s => exact absurd rfl (h s)

theorem isLine_render (p : Payload) : IsLine p.tag.render := by
  cases p with
  | string s => exact isLine_quote s
  | _ => exact (isName_render _ (by simp)).isLine

theorem splitWords_render (p : Payload) : splitWords p.tag.render = .ok [p.tag.render] := by
  cases p with
  | string s => exact splitWords_quote s
  | _ => exact (isName_render _ (by simp)).split

/-- What is read of a written constant has its type, and is the constant just if it is printable. -/
theorem read_render_tag (p : Payload) : ∃ v, Tag.read p.tag.render = .ok v ∧ v.typeName = p.tag.typeName ∧
    (v = p.tag ↔ p.isPrintable = true) := by
  cases p with
  | string s =>
    refine ⟨_, Tag.read_quote s, rfl, ?_⟩
    · rw [tag, Tag.string.injEq, isPrintable, List.all_eq_true, ← Tag.flatMap_kept_iff, ← String.toList_inj,
        String.toList_ofList]
  | byte n => exact ⟨_, (Tag.reads_byte n).read_eq, rfl, by simp [tag, isPrintable]⟩
  | short n => exact ⟨_, (Tag.reads_short n).read_eq, rfl, by simp [tag, isPrintable]⟩
  | int n => exact ⟨_, (Tag.reads_int n).read_eq, rfl, by simp [tag, isPrintable]⟩
  | long n => exact ⟨_, (Tag.reads_long n).read_eq, rfl, by simp [tag, isPrintable]⟩

theorem move_operand (p : Payload) (target : Name) (key : String) :
    move p.operand (.slot (.inStorage target key p.operand.type)) =
      pure [constToSlot p.tag.render (.inStorage target key p.operand.type)] := by
  have hscale : ((1 : Float) != 1) = false := by decide +kernel
  rw [p.operand_eq]
  simp only [move, moveScaled, Operand.isDerived, store, direct, unitScale, hscale, Operand.type, Slot.inStorage]
  simp
  rfl

theorem render_constToSlot {t : SymbolTable} {target : Name} (ht : t.Knows target) (key text : String) (type : DataType) :
    (constToSlot text (.inStorage target key type)).render t = (.ok (putLine (target.textIn t) key text), t) := by
  have hfills := fills_join [word "data", word "modify", word "storage", hole (target.textIn t),
    (escapeTemplate key, [], key), word "set", word "value", (escapeTemplate text, [], text)]
    (by simp [fills_escapeTemplate])
  have htemplate : "data modify " ++ location (.inStorage target key type) ++ " set value " ++ escapeTemplate text =
      join " " ["data", "modify", "storage", "%s", escapeTemplate key, "set", "value", escapeTemplate text] := by
    rw [← String.toList_inj]
    simp [location, Slot.inStorage, Container.name, join, String.intercalate_cons_cons]
  rw [constToSlot, htemplate]
  exact Instruction.render_literal (by simpa [Slot.inStorage] using ht) hfills

theorem renderAll_constToSlot {t : SymbolTable} (target : Name) (ht : t.Knows target) (key text : String) (type : DataType) :
    Instruction.renderAll [constToSlot text (.inStorage target key type)] t =
      (.ok [putLine (target.textIn t) key text], t) := by
  simp only [Instruction.renderAll, bind_apply, render_constToSlot ht, andThen_ok, pure_apply]

/-- A constant goes into a storage without error and with its type; what is there then is the constant just if it is
printable. -/
theorem arrives_iff_isPrintable (p : Payload) {t : SymbolTable} (target : Name) (ht : t.Knows target)
    (hid : IsWord (target.textIn t)) {key : String} (hkey : IsBareKey key) (sc : Scratch) :
    ∃ is lines, move p.operand (.slot (.inStorage target key p.operand.type)) sc = (.ok is, sc) ∧
      Instruction.renderAll is t = (.ok lines, t) ∧
      ∀ (m : Machine) (path : String), m.running = false → m.observer = none → 1 ≤ m.maxDepth →
        ∃ m' v, (m.define path lines).run path = (.ok (), m') ∧ storageAt? m' (target.textIn t) key = some v ∧
          v.typeName = p.tag.typeName ∧ (v = p.tag ↔ p.isPrintable = true) := by
  obtain ⟨v, hread, htype, hiff⟩ := p.read_render_tag
  refine ⟨_, [putLine (target.textIn t) key p.tag.render], congrFun (p.move_operand target key) sc,
    renderAll_constToSlot target ht .., fun m path hidle hwatch hdepth ↦ ?_⟩
  obtain ⟨m', hrun, hstorage⟩ :=
    run_define_put hidle hwatch hdepth path hid hkey p.splitWords_render p.isLine_render hread
  exact ⟨m', v, hrun, hstorage, htype, hiff⟩

theorem isWord_data : IsWord "demo:data" := ⟨by decide, by decide⟩

theorem isBareKey_s : IsBareKey "s" := ⟨⟨by decide, by decide⟩, by decide, List.all_eq_true.1 rfl⟩

/-- Quotes, backslashes, percent signs, blanks and brackets arrive. -/
theorem arrives_punctuation : IsWord "demo:data" ∧ IsBareKey "s" ∧
    ∃ is lines, move (Operand.string "50%s \"a\\b\" 'c' [d\x7d") (.slot (.inStorage (.lit "demo:data") "s" .string)) {} = (.ok is, {}) ∧
      Instruction.renderAll is {} = (.ok lines, {}) ∧
      ∃ m', (({} : Machine).define "demo:f" lines).run "demo:f" = (.ok (), m') ∧
        storageAt? m' "demo:data" "s" = some (.string "50%s \"a\\b\" 'c' [d\x7d") := by
  obtain ⟨is, lines, hmove, hlines, hrun⟩ := arrives_iff_isPrintable (string "50%s \"a\\b\" 'c' [d\x7d") (t := {})
    (.lit "demo:data") trivial isWord_data isBareKey_s {}
  obtain ⟨m', v, hm', hv, -, hiff⟩ := hrun {} "demo:f" rfl rfl (by decide)
  have hprintable : isPrintable (string "50%s \"a\\b\" 'c' [d\x7d") = true := by decide +kernel
  rw [hiff.2 hprintable] at hv
  exact ⟨isWord_data, isBareKey_s, is, lines, hmove, hlines, m', hm', hv⟩

/-- A line break arrives as the letter that stands for it. -/
theorem newline_arrives_as_letter :
    ∃ is lines, move (Operand.string "a\nb") (.slot (.inStorage (.lit "demo:data") "s" .string)) {} = (.ok is, {}) ∧
      Instruction.renderAll is {} = (.ok lines, {}) ∧
      ∃ m', (({} : Machine).define "demo:f" lines).run "demo:f" = (.ok (), m') ∧
        storageAt? m' "demo:data" "s" = some (.string "anb") := by
  refine ⟨_, [putLine "demo:data" "s" (quote "a\nb")], congrFun ((string "a\nb").move_operand (.lit "demo:data") "s") {},
    renderAll_constToSlot (.lit "demo:data") trivial .., ?_⟩
  have hread := Tag.read_quote "a\nb"
  rw [show String.ofList ("a\nb".toList.flatMap Tag.kept) = "anb" by decide +kernel] at hread
  exact run_define_put rfl rfl (by decide) "demo:f" isWord_data isBareKey_s (splitWords_quote _) (isLine_quote _) hread

end Payload

end CommandPack
