import Mathlib
import CommandPack.Name
import CommandPack.Proofs.Stateful

/-!
The texts that a table of names hands out. A step of a table either reserves texts, hands a new text
to a symbol that has none, or notes the text of a composite or a path; all that a sequence of requests
does is a sequence of such steps, and the properties of names are read off the steps.
-/

namespace CommandPack

open Relation Stateful

variable {i : Int}

def SymbolKind.isDistinct : SymbolKind → Bool
  | composite | path => false
  | _ => true

theorem SymbolKind.isDistinct_of_isRestricted {kind : SymbolKind} (h : kind.isRestricted = true) :
    kind.isDistinct = true := by
  revert h
  cases kind <;> decide

/-- The symbols of a compilation by their numbers. -/
structure SymbolPool where
  symbol : Int → Symbol
  id_symbol (i : Int) : (symbol i).id = i
  /-- The operands of a symbol are symbols of the same compilation. -/
  mem_args (i : Int) (s : Symbol) : Name.sym s ∈ (symbol i).args → s = symbol s.id

def SymbolPool.Has (pool : SymbolPool) : Name → Prop
  | .lit _ => True
  | .sym s => s = pool.symbol s.id

theorem SymbolPool.has_of_mem_args (pool : SymbolPool) {n : Name} (h : n ∈ (pool.symbol i).args) : pool.Has n := by
  cases n with
  | lit => trivial
  | sym s => exact pool.mem_args i s h

namespace SymbolTable

variable {text : String} {s : Symbol} {t₁ t₂ t₃ : SymbolTable} {pool : SymbolPool} {t t' : SymbolTable}

def textFor (t : SymbolTable) (s : Symbol) : String := t.unique s.kind s.owner s.text

def hand (t : SymbolTable) (s : Symbol) : SymbolTable :=
  { t with used := t.textFor s :: t.used, resolved := (s.id, t.textFor s) :: t.resolved }

def note (t : SymbolTable) (i : Int) (text : String) : SymbolTable :=
  { t with resolved := (i, text) :: t.resolved }

/-- What can happen to a table. -/
inductive Step (pool : SymbolPool) : SymbolTable → SymbolTable → Prop
  | mark (t : SymbolTable) (active : List Int) : Step pool t { t with active }
  | reserve (t : SymbolTable) (names : List String) : Step pool t (t.reserve names)
  | hand (t : SymbolTable) (i : Int) (hi : (pool.symbol i).kind.isDistinct = true)
      (hn : t.find? i = none)
      (hr : (pool.symbol i).kind.isRestricted = true → isRestrictedText (pool.symbol i).text = true) :
      Step pool t (t.hand (pool.symbol i))
  | note (t : SymbolTable) (i : Int) (text : String)
      (hi : (pool.symbol i).kind.isDistinct = false) (hn : t.find? i = none)
      (hp : (pool.symbol i).kind = .path → ∃ p, (pool.symbol i).owner = some p ∧ text = p.joined) :
      Step pool t (t.note i text)

abbrev Steps (pool : SymbolPool) : SymbolTable → SymbolTable → Prop := ReflTransGen (Step pool)

@[simp] theorem find?_mark (t : SymbolTable) (active : List Int) (i : Int) :
    { t with active }.find? i = t.find? i := rfl

@[simp] theorem find?_reserve (t : SymbolTable) (names : List String) (i : Int) :
    (t.reserve names).find? i = t.find? i := rfl

theorem find?_note (t : SymbolTable) (i j : Int) (text : String) :
    (t.note i text).find? j = if i = j then some text else t.find? j := by
  by_cases h : i = j <;> simp [note, find?, h]

theorem find?_hand (t : SymbolTable) (s : Symbol) (j : Int) :
    (t.hand s).find? j = if s.id = j then some (t.textFor s) else t.find? j := by
  by_cases h : s.id = j <;> simp [hand, find?, h]

def suffixed (s : Symbol) (i : Nat) : String := qualify s.kind s.owner s!"{s.text}.{i}"

theorem qualify_injective (kind : SymbolKind) (owner : Option Path) :
    Function.Injective (qualify kind owner) := by
  intro a b h
  cases owner with
  | none => exact h
  | some p =>
    have h' := congrArg String.toList h
    simp only [qualify, String.toList_append] at h'
    exact String.toList_injective (List.append_cancel_left h')

theorem suffixed_injective (s : Symbol) : Function.Injective (suffixed s) := by
  intro i j h
  have h' := congrArg String.toList (qualify_injective _ _ h)
  simp only [String.toList_append] at h'
  exact Nat.repr_injective (String.toList_injective (List.append_cancel_left h'))

theorem exists_free (used : List String) {candidate : Nat → String}
    (hc : Function.Injective candidate) (i : Nat) :
    ∃ j ≤ used.length, candidate (i + j) ∉ used := by
  by_contra hall
  push Not at hall
  have hsub : (Finset.range (used.length + 1)).image (fun j ↦ candidate (i + j)) ⊆
      used.toFinset := by
    intro x hx
    obtain ⟨j, hj, rfl⟩ := Finset.mem_image.1 hx
    exact List.mem_toFinset.2 (hall j (by have := Finset.mem_range.1 hj; omega))
  have hinj : Function.Injective fun j ↦ candidate (i + j) := hc.comp (add_right_injective i)
  have hcard := Finset.card_le_card hsub
  rw [Finset.card_image_of_injective _ hinj, Finset.card_range] at hcard
  have hle := List.toFinset_card_le used
  omega

theorem firstFree_spec (used : List String) (candidate : Nat → String) (tries i : Nat)
    (h : ∃ j ≤ tries, candidate (i + j) ∉ used) :
    ∃ k, i ≤ k ∧ firstFree used candidate tries i = candidate k ∧ candidate k ∉ used ∧
      ∀ j, i ≤ j → j < k → candidate j ∈ used := by
  induction tries generalizing i with
  | zero =>
    obtain ⟨j, hj, hfree⟩ := h
    obtain rfl : j = 0 := by omega
    exact ⟨i, le_rfl, rfl, hfree, fun j hj hlt ↦ by omega⟩
  | succ tries ih =>
    by_cases hi : candidate i ∈ used
    · obtain ⟨j, hj, hfree⟩ := h
      have hpos : j ≠ 0 := by
        rintro rfl
        exact hfree hi
      have hrec : ∃ j ≤ tries, candidate (i + 1 + j) ∉ used := by
        refine ⟨j - 1, by omega, ?_⟩
        rwa [show i + 1 + (j - 1) = i + j by omega]
      obtain ⟨k, hk, heq, hfree', hbelow⟩ := ih (i + 1) hrec
      refine ⟨k, by omega, ?_, hfree', fun j hj hlt ↦ ?_⟩
      · simp only [firstFree, List.contains_iff_mem, hi, if_true, heq]
      · rcases Nat.eq_or_lt_of_le hj with rfl | hlt'
        · exact hi
        · exact hbelow j hlt' hlt
    · exact ⟨i, le_rfl, by simp [firstFree, hi], hi, fun j hj hlt ↦ by omega⟩

/-- The text that a symbol gets when the texts `used` are taken: its plain text, or the one with the
least suffix from 2 on that is free. -/
def IsFirstFree (used : List String) (s : Symbol) (text : String) : Prop :=
  (qualify s.kind s.owner s.text ∉ used ∧ text = qualify s.kind s.owner s.text) ∨
    (qualify s.kind s.owner s.text ∈ used ∧ ∃ i, 2 ≤ i ∧ text = suffixed s i ∧ text ∉ used ∧
      ∀ j, 2 ≤ j → j < i → suffixed s j ∈ used)

theorem isFirstFree_textFor (t : SymbolTable) (s : Symbol) :
    IsFirstFree t.used s (t.textFor s) := by
  by_cases hb : qualify s.kind s.owner s.text ∈ t.used
  · obtain ⟨i, hi, heq, hfree, hbelow⟩ := firstFree_spec t.used (suffixed s) t.used.length 2
      (exists_free t.used (suffixed_injective s) 2)
    have ht : t.textFor s = suffixed s i := by
      simp only [textFor, unique, isUsed, List.contains_iff_mem, hb, if_true]
      exact heq
    exact .inr ⟨hb, i, hi, ht, ht ▸ hfree, hbelow⟩
  · refine .inl ⟨hb, ?_⟩
    simp [textFor, unique, isUsed, hb]

theorem IsFirstFree.notMem {used : List String} (h : IsFirstFree used s text) : text ∉ used := by
  rcases h with ⟨hb, rfl⟩ | ⟨-, i, -, -, hfree, -⟩
  · exact hb
  · exact hfree

/-- All that `t` has handed out and reserved is the oldest part of what `t'` has. -/
structure Precedes (t t' : SymbolTable) : Prop where
  used : t.used <:+ t'.used
  resolved : t.resolved <:+ t'.resolved

theorem Precedes.refl (t : SymbolTable) : Precedes t t := ⟨List.suffix_rfl, List.suffix_rfl⟩

theorem Precedes.trans (h : Precedes t₁ t₂) (h' : Precedes t₂ t₃) : Precedes t₁ t₃ :=
  ⟨h.used.trans h'.used, h.resolved.trans h'.resolved⟩

theorem Step.precedes (h : Step pool t t') : Precedes t t' := by
  cases h with
  | mark => exact ⟨List.suffix_rfl, List.suffix_rfl⟩
  | reserve names => exact ⟨List.suffix_append names t.used, List.suffix_rfl⟩
  | hand i => exact ⟨List.suffix_cons _ _, List.suffix_cons _ _⟩
  | note i => exact ⟨List.suffix_rfl, List.suffix_cons _ _⟩

theorem Steps.precedes (h : Steps pool t t') : Precedes t t' := by
  induction h with
  | refl => exact Precedes.refl t
  | tail _ hs ih => exact ih.trans hs.precedes

theorem Step.find?_eq (h : Step pool t t') (ht : t.find? i = some text) : t'.find? i = some text := by
  cases h with
  | mark => exact ht
  | reserve => exact ht
  | hand j hj hn =>
    have hne : (pool.symbol j).id ≠ i := by
      rw [pool.id_symbol]
      rintro rfl
      simp [hn] at ht
    rw [find?_hand, if_neg hne, ht]
  | note j x hj hn =>
    have hne : j ≠ i := by
      rintro rfl
      simp [hn] at ht
    rw [find?_note, if_neg hne, ht]

theorem Steps.find?_eq (h : Steps pool t t') (ht : t.find? i = some text) : t'.find? i = some text := by
  induction h with
  | refl => exact ht
  | tail _ hs ih => exact hs.find?_eq ih

/-- Texts handed out are taken, and no two symbols that must differ share one. -/
structure Sound (pool : SymbolPool) (t : SymbolTable) : Prop where
  mem_used : ∀ i text, (pool.symbol i).kind.isDistinct = true → t.find? i = some text →
    text ∈ t.used
  eq_of_find? : ∀ i j text, (pool.symbol i).kind.isDistinct = true →
    (pool.symbol j).kind.isDistinct = true → t.find? i = some text → t.find? j = some text → i = j

theorem Sound.empty : Sound pool {} := ⟨by simp [find?], by simp [find?]⟩

theorem Step.sound (h : Step pool t t') (ht : Sound pool t) : Sound pool t' := by
  cases h with
  | mark => exact ⟨ht.mem_used, ht.eq_of_find?⟩
  | reserve names =>
    exact ⟨fun i x hi hx ↦ List.mem_append_right names (ht.mem_used i x hi hx), ht.eq_of_find?⟩
  | hand k hk hn =>
    have hfresh := (isFirstFree_textFor t (pool.symbol k)).notMem
    have hold : ∀ i x, (pool.symbol i).kind.isDistinct = true → t.find? i = some x →
        x ≠ t.textFor (pool.symbol k) := by
      rintro i x hi hx rfl
      exact hfresh (ht.mem_used i _ hi hx)
    refine ⟨fun i x hi hx ↦ ?_, fun i j x hi hj hx hy ↦ ?_⟩
    · rw [find?_hand, pool.id_symbol] at hx
      split at hx
      · exact List.mem_cons.2 (.inl (Option.some.inj hx).symm)
      · exact List.mem_cons_of_mem _ (ht.mem_used i x hi hx)
    · rw [find?_hand, pool.id_symbol] at hx hy
      split at hx <;> split at hy
      · omega
      · exact absurd (Option.some.inj hx).symm (hold j x hj hy)
      · exact absurd (Option.some.inj hy).symm (hold i x hi hx)
      · exact ht.eq_of_find? i j x hi hj hx hy
  | note k x hk hn =>
    have hne : ∀ i, (pool.symbol i).kind.isDistinct = true → k ≠ i := by
      rintro i hi rfl
      simp [hk] at hi
    refine ⟨fun i y hi hy ↦ ?_, fun i j y hi hj hy hz ↦ ?_⟩
    · rw [find?_note, if_neg (hne i hi)] at hy
      exact ht.mem_used i y hi hy
    · rw [find?_note, if_neg (hne i hi)] at hy
      rw [find?_note, if_neg (hne j hj)] at hz
      exact ht.eq_of_find? i j y hi hj hy hz

theorem Steps.sound (h : Steps pool t t') (ht : Sound pool t) : Sound pool t' := by
  induction h with
  | refl => exact ht
  | tail _ hs ih => exact hs.sound ih

/-- A symbol that has a text got it in one step, which handed it out or noted it. -/
theorem Steps.exists_step (h : Steps pool t t') (hn : t.find? i = none) (ht : t'.find? i = some text) :
    ∃ b, Steps pool t b ∧ b.find? i = none ∧
      (((pool.symbol i).kind.isDistinct = true ∧ text = b.textFor (pool.symbol i) ∧
          ((pool.symbol i).kind.isRestricted = true → isRestrictedText (pool.symbol i).text = true) ∧
          Steps pool (b.hand (pool.symbol i)) t') ∨
        ((pool.symbol i).kind.isDistinct = false ∧
          ((pool.symbol i).kind = .path → ∃ p, (pool.symbol i).owner = some p ∧ text = p.joined))) := by
  induction h with
  | refl => simp [hn] at ht
  | @tail b c hb hs ih =>
    cases hc : b.find? i with
    | some x =>
      obtain rfl : x = text := Option.some.inj ((hs.find?_eq hc).symm.trans ht)
      obtain ⟨b₀, hb₀, hn₀, ⟨hi, heq, hr, hafter⟩ | hnoted⟩ := ih hc
      · exact ⟨b₀, hb₀, hn₀, .inl ⟨hi, heq, hr, hafter.tail hs⟩⟩
      · exact ⟨b₀, hb₀, hn₀, .inr hnoted⟩
    | none =>
      refine ⟨b, hb, hc, ?_⟩
      cases hs with
      | mark | reserve => simp [hc] at ht
      | hand j hj _ hr =>
        rw [find?_hand, pool.id_symbol] at ht
        split at ht
        · subst_vars
          exact .inl ⟨hj, (Option.some.inj ht).symm, hr, .refl⟩
        · simp [hc] at ht
      | note j x hj _ hp =>
        rw [find?_note] at ht
        split at ht
        · subst_vars
          cases ht
          exact .inr ⟨hj, hp⟩
        · simp [hc] at ht

/-- A symbol that has a text got it at some moment, by the rule for the texts used then. -/
theorem Steps.exists_moment (h : Steps pool t t') (hi : (pool.symbol i).kind.isDistinct = true)
    (hn : t.find? i = none) (ht : t'.find? i = some text) :
    ∃ t₀, Precedes t t₀ ∧ t₀.find? i = none ∧ IsFirstFree t₀.used (pool.symbol i) text ∧
      Precedes (t₀.hand (pool.symbol i)) t' := by
  obtain ⟨b, hb, hn, ⟨-, rfl, -, hafter⟩ | ⟨hi', -⟩⟩ := h.exists_step hn ht
  · exact ⟨b, Steps.precedes hb, hn, isFirstFree_textFor b _, Steps.precedes hafter⟩
  · simp [hi] at hi'

theorem Steps.isRestrictedText (h : Steps pool t t') (hi : (pool.symbol i).kind.isRestricted = true)
    (hn : t.find? i = none) (ht : t'.find? i = some text) : isRestrictedText (pool.symbol i).text = true := by
  obtain ⟨-, -, -, ⟨-, -, hr, -⟩ | ⟨hi', -⟩⟩ := h.exists_step hn ht
  · exact hr hi
  · simp [SymbolKind.isDistinct_of_isRestricted hi] at hi'

theorem Steps.find?_path (h : Steps pool t t') (hi : (pool.symbol i).kind = .path) (hn : t.find? i = none)
    (ht : t'.find? i = some text) : ∃ p, (pool.symbol i).owner = some p ∧ text = p.joined := by
  obtain ⟨-, -, -, ⟨hi', -⟩ | ⟨-, hp⟩⟩ := h.exists_step hn ht
  · rw [hi] at hi'
    cases hi'
  · exact hp hi

/-- What `resolve` does for a symbol that has no text and is not active. -/
def find (s : Symbol) : Resolve String := do
  if s.kind = .composite then
    let texts ← resolveAll s.args
    match fill s.text texts with
    | .ok out => record s.id out
    | .error p => throw p
  else settle s.id s.kind s.text s.owner

theorem resolve_sym_apply (s : Symbol) (t : SymbolTable) :
    resolve (.sym s) t = (match t.find? s.id with
      | some out => (pure out : Resolve String)
      | none =>
        if t.active.contains s.id then throw (Problem.invariant s!"symbol {s.display} refers to itself")
        else whileActive s.id (find s)) t := rfl

theorem resolve_of_find? (h : t.find? s.id = some text) : resolve (.sym s) t = (.ok text, t) := by
  rw [resolve_sym_apply, h]
  rfl

theorem resolve_of_active (h : t.find? s.id = none) (ha : s.id ∈ t.active) :
    ∃ p, resolve (.sym s) t = (.error p, t) := by
  refine ⟨.invariant s!"symbol {s.display} refers to itself", ?_⟩
  rw [resolve_sym_apply, h]
  simp [ha]

theorem resolve_of_inactive (h : t.find? s.id = none) (ha : s.id ∉ t.active) :
    resolve (.sym s) t = whileActive s.id (find s) t := by
  rw [resolve_sym_apply, h]
  simp [ha]

/-- The outcomes of finding a text: a failure, the filled template of a composite, a path, or a text handed out. -/
theorem find_cases (s : Symbol) (t : SymbolTable) :
    (∃ p t₁, find s t = (.error p, t₁) ∧ (t₁ = t ∨ s.kind = .composite ∧ t₁ = (resolveAll s.args t).2)) ∨
      (∃ texts t₁ text, s.kind = .composite ∧ resolveAll s.args t = (.ok texts, t₁) ∧ fill s.text texts = .ok text ∧
        find s t = (.ok text, t₁.note s.id text)) ∨
      (∃ p, s.kind = .path ∧ s.owner = some p ∧ find s t = (.ok p.joined, t.note s.id p.joined)) ∨
      (s.kind.isDistinct = true ∧ (s.kind.isRestricted = true → isRestrictedText s.text = true) ∧
        find s t = (.ok (t.textFor s), t.hand s)) := by
  by_cases hc : s.kind = .composite
  · rcases hr : resolveAll s.args t with ⟨p | texts, t₁⟩
    · exact .inl ⟨p, t₁, by simp [find, hc, hr], .inr ⟨hc, rfl⟩⟩
    · cases hfill : fill s.text texts with
      | error p => exact .inl ⟨p, t₁, by simp [find, hc, hr, hfill], .inr ⟨hc, rfl⟩⟩
      | ok text =>
        exact .inr (.inl ⟨texts, t₁, text, hc, rfl, hfill, by simp [find, hc, hr, hfill, record, note]⟩)
  have hfind : find s t = settle s.id s.kind s.text s.owner t := by simp [find, hc]
  rw [hfind]
  by_cases hp : s.kind = .path
  · cases ho : s.owner with
    | none => exact .inl ⟨_, t, by simp [settle, hp]; rfl, .inl rfl⟩
    | some p => exact .inr (.inr (.inl ⟨p, hp, rfl, by simp [settle, hp, record, note]⟩))
  · by_cases hr : s.kind.isRestricted ∧ ¬ isRestrictedText s.text
    · exact .inl ⟨_, t, by simp [settle, hp, hr]; rfl, .inl rfl⟩
    · have hd : s.kind.isDistinct = true := by
        cases hkind : s.kind <;> first | rfl | contradiction
      refine .inr (.inr (.inr ⟨hd, fun hkind ↦ ?_, ?_⟩))
      · simpa [hkind] using hr
      · simp only [Bool.not_eq_true] at hr
        simp [settle, hp, hr, record, hand, textFor]

/-- What finding names does to a table: the active symbols stay the same, they get no text, and
everything else is a sequence of steps. -/
structure Finds (pool : SymbolPool) (t t' : SymbolTable) : Prop where
  active : t'.active = t.active
  find?_eq : ∀ i ∈ t.active, t.find? i = none → t'.find? i = none
  steps : Steps pool t t'

theorem Finds.refl (t : SymbolTable) : Finds pool t t := ⟨rfl, fun _ _ h ↦ h, .refl⟩

theorem Finds.trans (h : Finds pool t₁ t₂) (h' : Finds pool t₂ t₃) : Finds pool t₁ t₃ where
  active := h'.active.trans h.active
  find?_eq i hi hn := h'.find?_eq i (h.active ▸ hi) (h.find?_eq i hi hn)
  steps := h.steps.trans h'.steps

def entered (t : SymbolTable) (i : Int) : SymbolTable := { t with active := i :: t.active }

def left (t : SymbolTable) (i : Int) : SymbolTable := { t with active := t.active.filter (· != i) }

theorem whileActive_apply (i : Int) (x : Resolve String) (t : SymbolTable) :
    whileActive i x t = ((x (t.entered i)).1, (x (t.entered i)).2.left i) := rfl

theorem Finds.of_entered (hi : i ∉ t.active) (ha : t'.active = i :: t.active)
    (hf : ∀ j ∈ t.active, t.find? j = none → t'.find? j = none) (hs : Steps pool (t.entered i) t') :
    Finds pool t (t'.left i) where
  active := by
    have hne : ∀ j ∈ t.active, (j != i) = true := by
      intro j hj
      simp only [bne_iff_ne]
      rintro rfl
      exact hi hj
    simp only [left, ha]
    rw [List.filter_cons_of_neg (by simp), List.filter_eq_self.2 hne]
  find?_eq := hf
  steps := ((ReflTransGen.single (Step.mark t _)).trans hs).tail (Step.mark t' _)

theorem find_finds (hs : s = pool.symbol s.id) (ha : s.id ∈ t.active) (hn : t.find? s.id = none)
    (hargs : s.kind = .composite → ∀ t, Finds pool t (resolveAll s.args t).2) :
    ∃ t₁, Finds pool t t₁ ∧ ((∃ p, find s t = (.error p, t₁)) ∨
      ∃ text t₂, find s t = (.ok text, t₂) ∧ t₂.active = t₁.active ∧ Step pool t₁ t₂ ∧
        (∀ j, t₂.find? j = if s.id = j then some text else t₁.find? j)) := by
  rcases find_cases s t with ⟨p, t₁, hp, rfl | ⟨hc, rfl⟩⟩ | ⟨texts, t₁, text, hc, hr, hfill, heq⟩ |
    ⟨p, hk, ho, heq⟩ | ⟨hd, hr, heq⟩
  · exact ⟨_, Finds.refl _, .inl ⟨p, hp⟩⟩
  · exact ⟨_, hargs hc t, .inl ⟨p, hp⟩⟩
  · have hf := hargs hc t
    rw [hr] at hf
    have hstep : Step pool t₁ (t₁.note s.id text) := by
      refine .note t₁ s.id text ?_ (hf.find?_eq s.id ha hn) ?_ <;> rw [← hs, hc]
      · rfl
      · exact nofun
    exact ⟨t₁, hf, .inr ⟨text, _, heq, rfl, hstep, fun j ↦ find?_note t₁ s.id j text⟩⟩
  · have hstep : Step pool t (t.note s.id p.joined) := by
      refine .note t s.id p.joined ?_ hn fun _ ↦ ⟨p, hs ▸ ho, rfl⟩
      rw [← hs, hk]
      rfl
    exact ⟨t, Finds.refl t, .inr ⟨p.joined, _, heq, rfl, hstep, fun j ↦ find?_note t s.id j p.joined⟩⟩
  · have hstep : Step pool t (t.hand s) := by
      have h : Step pool t (t.hand (pool.symbol s.id)) := .hand t s.id (hs ▸ hd) hn (hs ▸ hr)
      rwa [← hs] at h
    exact ⟨t, Finds.refl t, .inr ⟨_, _, heq, rfl, hstep, fun j ↦ find?_hand t s j⟩⟩

/-- What finding one text relates, resolving relates, if operands may be resolved one after the other. -/
theorem related_of_find {R : SymbolTable → SymbolTable → Prop} {P : Name → Prop} (hrefl : ∀ t, R t t)
    (htrans : ∀ t₁ t₂ t₃, R t₁ t₂ → R t₂ t₃ → R t₁ t₃) (hargs : ∀ s, P (.sym s) → ∀ n ∈ s.args, P n)
    (hfind : ∀ s t, P (.sym s) → t.find? s.id = none → s.id ∉ t.active →
      (∀ t, R t (resolveAll s.args t).2) → R t ((find s (t.entered s.id)).2.left s.id)) :
    (∀ n, P n → ∀ t, R t (resolve n t).2) ∧ ∀ ns, (∀ n ∈ ns, P n) → ∀ t, R t (resolveAll ns t).2 := by
  refine resolve.mutual_induct (fun n ↦ P n → ∀ t, R t (resolve n t).2)
    (fun ns ↦ (∀ n ∈ ns, P n) → ∀ t, R t (resolveAll ns t).2) ?lit ?sym ?nil ?cons
  case lit => exact fun _ _ t ↦ hrefl t
  case sym =>
    intro id kind text owner args ih hs t
    let s : Symbol := ⟨id, kind, text, owner, args⟩
    cases hf : t.find? id with
    | some out =>
      rw [resolve_of_find? (s := s) hf]
      exact hrefl t
    | none =>
      by_cases ha : id ∈ t.active
      · obtain ⟨p, hp⟩ := resolve_of_active (s := s) hf ha
        rw [hp]
        exact hrefl t
      · rw [resolve_of_inactive (s := s) hf ha, whileActive_apply]
        exact hfind s t hs hf ha (ih (hargs s hs))
  case nil => exact fun _ t ↦ hrefl t
  case cons =>
    intro n ns ih ihs hall t
    obtain ⟨hn, hns⟩ := List.forall_mem_cons.1 hall
    have h₁ := ih hn t
    rcases hr : resolve n t with ⟨p | text, t₁⟩
    · simpa [resolveAll, hr] using h₁
    · rw [hr] at h₁
      have h₂ := htrans _ _ _ h₁ (ihs hns t₁)
      rcases hr' : resolveAll ns t₁ with ⟨p | texts, t₂⟩ <;> simpa [resolveAll, hr, hr'] using h₂

theorem has_of_has_sym (hs : pool.Has (.sym s)) : ∀ n ∈ s.args, pool.Has n := by
  intro n hn
  refine pool.has_of_mem_args (i := s.id) ?_
  rwa [← show s = pool.symbol s.id from hs]

theorem finds_of_resolve_and_resolveAll :
    (∀ n, pool.Has n → ∀ t, Finds pool t (resolve n t).2) ∧
      ∀ ns, (∀ n ∈ ns, pool.Has n) → ∀ t, Finds pool t (resolveAll ns t).2 := by
  refine related_of_find Finds.refl (fun _ _ _ ↦ Finds.trans) (fun _ ↦ has_of_has_sym) fun s t hs hf ha ih ↦ ?_
  obtain ⟨t₁, h₁, ⟨p, hp⟩ | ⟨x, t₂, hx, hact, hstep, hfind⟩⟩ :=
    find_finds (t := t.entered s.id) hs List.mem_cons_self hf fun _ ↦ ih
  · rw [hp]
    exact Finds.of_entered ha h₁.active (fun j hj ↦ h₁.find?_eq j (List.mem_cons_of_mem s.id hj)) h₁.steps
  · rw [hx]
    refine Finds.of_entered ha (hact.trans h₁.active) (fun j hj hn ↦ ?_) (h₁.steps.tail hstep)
    have hne : s.id ≠ j := by
      rintro rfl
      exact ha hj
    rw [hfind, if_neg hne]
    exact h₁.find?_eq j (List.mem_cons_of_mem s.id hj) hn

/-- After a symbol was resolved it has its text; after it failed to resolve it has none. -/
theorem find?_of_resolve (pool : SymbolPool) (i : Int) (t : SymbolTable) :
    (resolve (.sym (pool.symbol i)) t).2.find? i =
      (resolve (.sym (pool.symbol i)) t).1.toOption := by
  have hid := pool.id_symbol i
  have hs : pool.symbol i = pool.symbol (pool.symbol i).id := by rw [hid]
  have hargs := finds_of_resolve_and_resolveAll.2 _ fun n (hn : n ∈ (pool.symbol i).args) ↦
    pool.has_of_mem_args hn
  cases hf : t.find? i with
  | some out =>
    rw [resolve_of_find? (by rwa [hid])]
    exact hf
  | none =>
    by_cases ha : i ∈ t.active
    · obtain ⟨p, hp⟩ := resolve_of_active (t := t) (s := pool.symbol i) (by rwa [hid]) (by rwa [hid])
      rw [hp]
      exact hf
    · rw [resolve_of_inactive (by rwa [hid]) (by rwa [hid]), whileActive_apply, hid]
      obtain ⟨t₁, h₁, ⟨p, hp⟩ | ⟨x, t₂, hx, hact, hstep, hfind⟩⟩ :=
        find_finds (s := pool.symbol i) (t := t.entered i) hs (by rw [hid]; exact List.mem_cons_self)
          (by rwa [hid]) (fun _ ↦ hargs)
      · rw [hp]
        exact h₁.find?_eq i List.mem_cons_self hf
      · rw [hx]
        change t₂.find? i = _
        rw [hfind, hid, if_pos rfl]
        rfl

/-- A symbol that must differ from others and is resolved itself gets the text for the texts used
before. -/
theorem isFirstFree_of_resolve (hi : (pool.symbol i).kind.isDistinct = true) (hn : t.find? i = none)
    (h : resolve (.sym (pool.symbol i)) t = (.ok text, t')) : IsFirstFree t.used (pool.symbol i) text := by
  have hid := pool.id_symbol i
  by_cases ha : i ∈ t.active
  · obtain ⟨p, hp⟩ := resolve_of_active (t := t) (s := pool.symbol i) (by rwa [hid]) (by rwa [hid])
    rw [hp] at h
    simp at h
  · rw [resolve_of_inactive (by rwa [hid]) (by rwa [hid]), whileActive_apply, hid] at h
    rcases find_cases (pool.symbol i) (t.entered i) with ⟨p, t₁, hp, -⟩ | ⟨-, -, -, hk, -⟩ | ⟨p, hk, -⟩ | ⟨-, -, heq⟩
    · rw [hp] at h
      simp at h
    · simp [hk, SymbolKind.isDistinct] at hi
    · simp [hk, SymbolKind.isDistinct] at hi
    · rw [heq] at h
      simp only [outcome_eq_iff, Except.ok.injEq] at h
      rw [← h.1]
      exact isFirstFree_textFor (t.entered i) (pool.symbol i)

/-- Something asked of a table. -/
inductive Request where
  | reserve (names : List String)
  | resolve (id : Int)

def perform (pool : SymbolPool) (t : SymbolTable) : Request → SymbolTable
  | .reserve names => t.reserve names
  | .resolve i => (resolve (.sym (pool.symbol i)) t).2

def after (pool : SymbolPool) (requests : List Request) : SymbolTable :=
  requests.foldl (perform pool) {}

def reservedBy (requests : List Request) : List String :=
  requests.flatMap fun
    | .reserve names => names
    | .resolve _ => []

theorem finds_of_resolve (pool : SymbolPool) (i : Int) (t : SymbolTable) :
    Finds pool t (resolve (.sym (pool.symbol i)) t).2 := by
  refine finds_of_resolve_and_resolveAll.1 (.sym (pool.symbol i)) ?_ t
  change pool.symbol i = pool.symbol (pool.symbol i).id
  rw [pool.id_symbol]

theorem steps_perform (t : SymbolTable) (r : Request) : Steps pool t (perform pool t r) := by
  cases r with
  | reserve names => exact .single (.reserve t names)
  | resolve i => exact (finds_of_resolve pool i t).steps

theorem steps_foldl (pool : SymbolPool) (t : SymbolTable) (requests : List Request) :
    Steps pool t (requests.foldl (perform pool) t) := by
  induction requests generalizing t with
  | nil => exact .refl
  | cons r rs ih => exact (steps_perform t r).trans (ih _)

theorem steps_after (pool : SymbolPool) (earlier later : List Request) :
    Steps pool (after pool earlier) (after pool (earlier ++ later)) := by
  simp only [after, List.foldl_append]
  exact steps_foldl pool _ later

theorem active_after (pool : SymbolPool) (requests : List Request) : (after pool requests).active = [] := by
  induction requests using List.reverseRecOn with
  | nil => rfl
  | append_singleton rs r ih =>
    simp only [after, List.foldl_append, List.foldl_cons, List.foldl_nil]
    cases r with
    | reserve names => exact ih
    | resolve i => exact (finds_of_resolve pool i _).active.trans ih

theorem mem_used_of_reservedBy {requests : List Request} (h : text ∈ reservedBy requests) :
    text ∈ (after pool requests).used := by
  obtain ⟨r, hr, hmem⟩ := List.mem_flatMap.1 h
  cases r with
  | resolve i => simp at hmem
  | reserve names =>
    obtain ⟨earlier, later, rfl⟩ := List.append_of_mem hr
    have hstep : text ∈ (after pool (earlier ++ [.reserve names])).used := by
      simp only [after, List.foldl_append, List.foldl_cons, List.foldl_nil]
      exact List.mem_append_left _ hmem
    have hprec := (steps_after pool (earlier ++ [.reserve names]) later).precedes
    rw [List.append_assoc] at hprec
    exact hprec.used.subset hstep

/-- Names never collide and never change. After any requests to a new table: a request to resolve a
symbol gives it a text just if it succeeds, and from then on the symbol resolves to that text; two
symbols that must differ have different texts, and the text of one differs from all texts reserved
before it got it; it is the first free one of its texts, for the texts used at the moment when it was
handed out, which is the moment of the request if the symbol itself was asked for; and no symbol is
left active, whether the request succeeds or fails. -/
theorem texts_stable_and_distinct (pool : SymbolPool) (requests : List Request) :
    (∀ i, (resolve (.sym (pool.symbol i)) (after pool requests)).2.find? i =
      (resolve (.sym (pool.symbol i)) (after pool requests)).1.toOption) ∧
    (∀ i text later, (after pool requests).find? i = some text →
      resolve (.sym (pool.symbol i)) (after pool (requests ++ later)) =
        (.ok text, after pool (requests ++ later))) ∧
    (∀ i j text text', i ≠ j → (pool.symbol i).kind.isDistinct = true →
      (pool.symbol j).kind.isDistinct = true → (after pool requests).find? i = some text →
      (after pool requests).find? j = some text' → text ≠ text') ∧
    (∀ i text earlier later, requests = earlier ++ later →
      (pool.symbol i).kind.isDistinct = true → (after pool earlier).find? i = none →
      (after pool requests).find? i = some text → text ∉ reservedBy earlier) ∧
    (∀ i text, (pool.symbol i).kind.isDistinct = true →
      (after pool requests).find? i = some text →
      ∃ t₀ : SymbolTable, t₀.find? i = none ∧ IsFirstFree t₀.used (pool.symbol i) text ∧
        Precedes (t₀.hand (pool.symbol i)) (after pool requests)) ∧
    (∀ i text t', (pool.symbol i).kind.isDistinct = true → (after pool requests).find? i = none →
      resolve (.sym (pool.symbol i)) (after pool requests) = (.ok text, t') →
      IsFirstFree (after pool requests).used (pool.symbol i) text) ∧
    (after pool requests).active = [] ∧
    (∀ i p t', resolve (.sym (pool.symbol i)) (after pool requests) = (.error p, t') →
      t'.find? i = none ∧ t'.active = []) := by
  have hsteps : Steps pool {} (after pool requests) := steps_foldl pool {} requests
  have hsound : Sound pool (after pool requests) := hsteps.sound Sound.empty
  refine ⟨fun i ↦ find?_of_resolve pool i _, ?stable, ?distinct, ?unreserved, ?moment, ?direct,
    active_after pool requests, ?failed⟩
  case stable =>
    intro i text later h
    refine resolve_of_find? ?_
    rw [pool.id_symbol]
    exact (steps_after pool requests later).find?_eq h
  case distinct =>
    rintro i j text _ hne hi hj hx hy rfl
    exact hne (hsound.eq_of_find? i j text hi hj hx hy)
  case unreserved =>
    rintro i text earlier later rfl hi hn h hmem
    obtain ⟨t₀, hprec, -, hfree, -⟩ := (steps_after pool earlier later).exists_moment hi hn h
    exact hfree.notMem (hprec.used.subset (mem_used_of_reservedBy hmem))
  case moment =>
    intro i text hi h
    obtain ⟨t₀, -, hn, hfree, hprec⟩ := hsteps.exists_moment hi rfl h
    exact ⟨t₀, hn, hfree, hprec⟩
  case direct => exact fun i text t' hi hn h ↦ isFirstFree_of_resolve hi hn h
  case failed =>
    intro i p t' h
    have hfind := find?_of_resolve pool i (after pool requests)
    have hact := (finds_of_resolve pool i (after pool requests)).active
    rw [h] at hfind hact
    exact ⟨hfind, hact.trans (active_after pool requests)⟩

def playerPool (text : Int → String) : SymbolPool where
  symbol i := ⟨i, .player, text i, none, []⟩
  id_symbol _ := rfl
  mem_args _ _ h := by simp at h

/-- Of two players `x`, the second gets the suffix that a player `x.2` leaves free. -/
theorem texts_stable_and_distinct_players :
    let pool := playerPool fun i ↦ if i = 1 then "x.2" else "x"
    let requests : List Request := [.reserve ["y"], .resolve 0, .resolve 1, .resolve 2]
    (after pool requests).find? 2 = some "x.3" ∧ "x.3" ≠ "x.2" ∧
      ∀ later, resolve (.sym (pool.symbol 2)) (after pool (requests ++ later)) =
        (.ok "x.3", after pool (requests ++ later)) := by
  intro pool requests
  have hx : (after pool requests).find? 2 = some "x.3" := by decide +kernel
  have hy : (after pool requests).find? 1 = some "x.2" := by decide +kernel
  obtain ⟨-, hstable, hdistinct, -⟩ := texts_stable_and_distinct pool requests
  exact ⟨hx, hdistinct 2 1 _ _ (by decide) rfl rfl hx hy, fun later ↦ hstable 2 _ later hx⟩

end SymbolTable

end CommandPack
