import Mathlib
import CommandPack.Proofs.Drafting
import CommandPack.Proofs.Emission

/-!
The symbols of graphs. All symbols that the instructions of a graph mention were made with it, so they are of
one pool; and their texts are made of the names of nodes and of the texts they were made with.
-/

namespace CommandPack.Graph

open Instruction Stateful

variable {V : Vocabulary} {M : Set Symbol} {s s' : Session} {t : SymbolTable} {id fn parent : Nat} {name : String}
  {cmds cmds' : List Instruction} {i : Instruction}

@[simp] theorem covers_lit (text : String) : Covers M (.lit text) := trivial

@[simp] theorem covers_sym {v : Symbol} : Covers M (.sym v) ↔ v ∈ M := .rfl

/-- The operands of symbols are among them. -/
def Closed (M : Set Symbol) : Prop := ∀ v ∈ M, ∀ name ∈ v.args, Covers M name

theorem mem_of_mem_collectInto (hM : Closed M) :
    (∀ seen name, (∀ v ∈ seen, v ∈ M) → Covers M name → ∀ v ∈ Name.collectInto seen name, v ∈ M) ∧
    ∀ seen names, (∀ v ∈ seen, v ∈ M) → (∀ name ∈ names, Covers M name) → ∀ v ∈ Name.collectAllInto seen names, v ∈ M := by
  refine Name.collectInto.mutual_induct _ _ ?lit ?seen ?new ?nil ?cons
  case lit =>
    intro seen text hseen _
    rwa [Name.collectInto]
  case seen =>
    intro seen id kind text owner args hold hseen _
    rwa [Name.collectInto, if_pos hold]
  case new =>
    intro seen id kind text owner args hold ih hseen hname v hv
    rw [Name.collectInto, if_neg hold, List.mem_append, List.mem_singleton] at hv
    rcases hv with hv | rfl
    · exact ih hseen (hM _ hname) v hv
    · exact hname
  case nil =>
    intro seen hseen _
    rwa [Name.collectAllInto]
  case cons =>
    intro seen name names ihname ihnames hseen hnames
    rw [Name.collectAllInto]
    obtain ⟨hname, hnames⟩ := List.forall_mem_cons.1 hnames
    exact ihnames (ihname hseen hname) hnames

theorem mem_of_mem_collect (hM : Closed M) {names : List Name} (h : ∀ name ∈ names, Covers M name) :
    ∀ v ∈ Name.collect names, v ∈ M :=
  (mem_of_mem_collectInto hM).2 [] names (fun _ hv ↦ nomatch hv) h

def namesIn : Instruction → List Name
  | .literal _ args => args
  | .call _ => []
  | .composed parts => parts.attach.flatMap fun ⟨i, _⟩ ↦ namesIn i
  | .tellraw target components => target :: components.flatMap (·.content.names)

theorem mem_of_mem_symbols (hM : Closed M) :
    (∀ i, (∀ name ∈ namesIn i, Covers M name) → ∀ v ∈ i.symbols, v ∈ M) ∧
    ∀ is, (∀ i ∈ is, ∀ name ∈ namesIn i, Covers M name) → ∀ v ∈ symbolsOf is, v ∈ M := by
  refine symbols.mutual_induct _ _ ?literal ?call ?composed ?tellraw ?nil ?cons
  case literal =>
    intro template args h v hv
    rw [symbols] at hv
    rw [namesIn] at h
    exact mem_of_mem_collect hM h v hv
  case call => exact fun target _ ↦ List.forall_mem_nil _
  case composed =>
    intro parts ih h v hv
    rw [symbols] at hv
    refine ih (fun i hi name hname ↦ h name ?_) v hv
    rw [namesIn]
    exact List.mem_flatMap.2 ⟨⟨i, hi⟩, List.mem_attach _ _, hname⟩
  case tellraw =>
    intro target components h v hv
    rw [symbols] at hv
    rw [namesIn] at h
    exact mem_of_mem_collect hM h v hv
  case nil => exact fun _ ↦ List.forall_mem_nil _
  case cons =>
    intro i is ihi ihis h v hv
    rw [symbolsOf, List.mem_append] at hv
    obtain ⟨hi, his⟩ := List.forall_mem_cons.1 h
    exact hv.elim (ihi hi v) (ihis his v)

theorem namesIn_pair (i j : Instruction) : namesIn (.composed [i, j]) = namesIn i ++ namesIn j := by
  rw [namesIn]
  simp

/-- Symbols with numbers of their own, which belong to nodes. -/
structure Numbered (V : Vocabulary) (M : Set Symbol) : Prop where
  eq_of_id {v w : Symbol} (hv : v ∈ M) (hw : w ∈ M) (h : v.id = w.id) : v = w
  closed : Closed M
  owner {v : Symbol} (hv : v ∈ M) : IsOwner V v.owner

open Classical in
/-- The symbols by their numbers, and symbols of no use for all other numbers. -/
noncomputable def Numbered.pool (h : Numbered V M) : SymbolPool where
  symbol i := if hi : ∃ v ∈ M, v.id = i then hi.choose else ⟨i, .path, "", none, []⟩
  id_symbol i := by
    split
    · rename_i hi
      exact hi.choose_spec.2
    · rfl
  mem_args i v hv := by
    split at hv
    · rename_i hi
      have hmem : v ∈ M := h.closed _ hi.choose_spec.1 _ hv
      have hv' : ∃ v' ∈ M, v'.id = v.id := ⟨v, hmem, rfl⟩
      rw [dif_pos hv']
      exact h.eq_of_id hmem hv'.choose_spec.1 hv'.choose_spec.2.symm
    · nomatch hv

theorem Numbered.has (h : Numbered V M) {v : Symbol} (hv : v ∈ M) : h.pool.Has (.sym v) := by
  have hv' : ∃ v' ∈ M, v'.id = v.id := ⟨v, hv, rfl⟩
  have hsymbol : h.pool.symbol v.id = hv'.choose := dif_pos hv'
  change v = h.pool.symbol v.id
  rw [hsymbol]
  exact h.eq_of_id hv hv'.choose_spec.1 hv'.choose_spec.2.symm

/-- All symbols that a graph mentions are in the pool, if its instructions name symbols that were made. -/
theorem Numbered.has_mentioned (hn : Numbered V M)
    (hcovers : ∀ id, ∀ i ∈ commandsAt s id, ∀ name ∈ namesIn i, Covers M name) (roots : List Nat) :
    ∀ v ∈ Listing.mentioned s roots, hn.pool.Has (.sym v) := by
  intro v hv
  obtain ⟨id, -, hv⟩ := List.mem_flatMap.1 hv
  exact hn.has ((mem_of_mem_symbols hn.closed).2 _ (fun i hi ↦ hcovers id i hi) v hv)

/-- Instructions that name only symbols of `M`. -/
def Draws (M : Set Symbol) (cmds : List Instruction) : Prop := ∀ i ∈ cmds, ∀ name ∈ namesIn i, Covers M name

theorem Draws.append (h : Draws M cmds) (h' : Draws M cmds') : Draws M (cmds ++ cmds') :=
  List.forall_mem_append.2 ⟨h, h'⟩

theorem Rooted.isOwner (h : Rooted V s) (id : Nat) : IsOwner V (some (s.node id).path) := by
  rintro _ ⟨⟩
  induction id using Nat.strong_induction_on with
  | _ id ih =>
    by_cases hid : id < s.nodes.size
    · cases hp : (s.node id).parent with
      | none =>
        obtain ⟨hpath, hroot⟩ := h.root hid hp
        rw [hpath]
        exact List.forall_mem_singleton.2 (.inl hroot)
      | some p =>
        obtain ⟨hlt, -, hpath, hchild, -⟩ := h.grafted hp
        rw [hpath]
        exact List.forall_mem_append.2 ⟨ih p hlt, List.forall_mem_singleton.2 (.inr hchild)⟩
    · rw [node_of_size_le (not_lt.1 hid)]
      exact List.forall_mem_nil _

/-- A graph in order with one root, all of whose instructions name symbols of `M` that were made with it. -/
structure Inked (V : Vocabulary) (M : Set Symbol) (s : Session) : Prop extends Numbered V M where
  sane : Sane V s
  single {id : Nat} (hid : id < s.nodes.size) (h : (s.node id).parent = none) : id = 0
  lt {v : Symbol} (hv : v ∈ M) : v.id < s.nextSymbol
  covers (id : Nat) : Draws M (commandsAt s id)

theorem inked_root (hs : s.nodes = #[]) (hname : V.root name) : Inked V ∅ (withRoot s name) := by
  refine ⟨⟨nofun, nofun, nofun⟩, (Sane.start hs).withRoot hname, fun {id} hid _ ↦ ?_, nofun, fun id ↦ ?_⟩
  · simpa [hs] using hid
  · rw [commandsAt, node_withRoot, node_of_size_le (s := s) (by simp [hs])]
    split <;> exact List.forall_mem_nil _

namespace Inked

theorem single_of_altered (h : Inked V M s) (hs : Altered V s s') (hid : id < s'.nodes.size)
    (hparent : (s'.node id).parent = none) : id = 0 := by
  by_cases hold : id < s.nodes.size
  · exact h.single hold ((hs.before.node hold).2.1 ▸ hparent)
  · obtain ⟨p, hp⟩ := hs.exists_parent (not_lt.1 hold) hid
    rw [hparent] at hp
    cases hp

theorem step (h : Inked V M s) (hs : Alters V s s') (hnext : s'.nextSymbol = s.nextSymbol)
    (hroles : ∀ id, (s'.node id).role = (s.node id).role ∨ Draws M (commandsAt s' id)) : Inked V M s' := by
  refine ⟨h.toNumbered, hs.sane h.sane, h.single_of_altered (.single hs), fun hv ↦ hnext ▸ h.lt hv, fun id ↦ ?_⟩
  rcases hroles id with hrole | hdraws
  · rw [commandsAt, blockOf, hrole]
    exact h.covers id
  · exact hdraws

theorem note (h : Inked V M s) (hnodes : s'.nodes = s.nodes) (hfailure : s'.failure = s.failure)
    (hnext : s'.nextSymbol = s.nextSymbol) : Inked V M s' :=
  h.step (.note hnodes hfailure) hnext fun id ↦ .inl (by rw [Session.node, Session.node, hnodes])

theorem minted (h : Inked V M s) {v : Symbol} (hid : v.id = s.nextSymbol) (hargs : ∀ name ∈ v.args, Covers M name)
    (howner : IsOwner V v.owner) : Inked V (insert v M) (minted s) := by
  have hsub : M ⊆ insert v M := Set.subset_insert v M
  refine ⟨⟨?_, ?_, ?_⟩, (alters_minted s).sane h.sane, h.single, ?_, fun id i hi name hname ↦ (h.covers id i hi name hname).mono hsub⟩
  · rintro w x (rfl | hw) (rfl | hx) heq
    · rfl
    · exact absurd (h.lt hx) (by omega)
    · exact absurd (h.lt hw) (by omega)
    · exact h.eq_of_id hw hx heq
  · rintro w (rfl | hw) name hname
    · exact (hargs name hname).mono hsub
    · exact (h.closed w hw name hname).mono hsub
  · rintro w (rfl | hw)
    · exact howner
    · exact h.owner hw
  · rintro w (rfl | hw)
    · exact hid ▸ Int.lt_succ _
    · exact (h.lt hw).trans (Int.lt_succ _)

theorem made (h : Inked V M s) (hparent : parent < s.nodes.size) (hcontainer : (s.node parent).isContainer = true)
    (hname : V.child name) {role : Role} (hrole : IsNew role) : Inked V M (made s parent name role) := by
  refine h.step (.make hparent hcontainer hname hrole) (by rw [toScratch_made]) fun id ↦ ?_
  rw [commandsAt, blockOf, role_made hparent]
  split
  · refine .inr ?_
    cases role with
    | block b => simp [hrole.1, Draws]
    | _ => exact List.forall_mem_nil _
  · exact .inl rfl

theorem functionMade (h : Inked V M s) (hparent : parent < s.nodes.size)
    (hcontainer : (s.node parent).isContainer = true) (hname : V.child name) {entryName : String}
    (hentry : V.child entryName) (tags : List Path) (description : String) :
    Inked V M (functionMade s parent name entryName tags description) := by
  refine h.step (.makeFunction hparent hcontainer hname hentry) (by rw [Graph.functionMade, toScratch_made, toScratch_made])
    fun id ↦ ?_
  rw [commandsAt, blockOf, role_functionMade hparent]
  split
  · exact .inr (List.forall_mem_nil _)
  · split
    · exact .inr (List.forall_mem_nil _)
    · exact .inl rfl

theorem fill (h : Inked V M s) (hid : IsBlock s id) {b : BlockState} (hb : Draws M b.commands.toList) :
    Inked V M (recast s id (.block b)) := by
  refine h.step (.fill hid) rfl fun j ↦ ?_
  rw [commandsAt, blockOf, role_recast hid.lt]
  split
  · exact .inr hb
  · exact .inl rfl

theorem extend (h : Inked V M s) (hid : IsBlock s id) (hcmds : Draws M cmds) :
    Inked V M (recast s id (.block (extended (blockOf (s.node id)) cmds))) :=
  h.fill hid (by rw [commands_extended]; exact (h.covers id).append hcmds)

theorem steer (h : Inked V M s) (hfn : IsFunction s fn) {f : FunctionState} (hcurrent : IsBlock s f.current) :
    Inked V M (recast s fn (.function f)) := by
  refine h.step (.steer hfn hcurrent) rfl fun j ↦ ?_
  rw [commandsAt, blockOf, role_recast hfn.lt]
  split
  · exact .inr (List.forall_mem_nil _)
  · exact .inl rfl

theorem mint (h : Inked V M s) (kind : SymbolKind) (text : String) {owner : Option Path} (howner : IsOwner V owner)
    {args : List Name} (hargs : ∀ name ∈ args, Covers M name) :
    ∃ M', M ⊆ M' ∧ (⟨s.nextSymbol, kind, text, owner, args⟩ : Symbol) ∈ M' ∧ Inked V M' (Graph.minted s) :=
  ⟨_, Set.subset_insert _ _, Set.mem_insert _ _, h.minted rfl hargs howner⟩

end Inked

theorem isRestrictedChar_of_isLabelChar {c : Char} (h : isLabelChar c = true) : isRestrictedChar c = true := by
  simp only [isLabelChar, Char.isAlphanum, Char.isAlpha, Char.isUpper, Char.isLower, Char.isDigit, Bool.or_eq_true,
    Bool.and_eq_true, decide_eq_true_eq, ge_iff_le, beq_iff_eq] at h
  simp only [isRestrictedChar, Bool.or_eq_true, Bool.and_eq_true, decide_eq_true_eq, beq_iff_eq, Char.le_def]
  tauto

theorem isRestrictedText_of_isLabel {text : String} (h : IsLabel text) : isRestrictedText text = true := by
  simp only [IsLabel, Bool.and_eq_true, List.all_eq_true] at h
  simp only [isRestrictedText, Bool.and_eq_true, List.all_eq_true]
  refine ⟨?_, fun c hc ↦ isRestrictedChar_of_isLabelChar (h.2 c hc)⟩
  simpa [String.isEmpty_iff, ← String.toList_eq_nil_iff] using h.1

theorem all_of_isRestrictedText {text : String} (h : isRestrictedText text = true) :
    text.toList.all isRestrictedChar = true := by
  rw [isRestrictedText, Bool.and_eq_true] at h
  exact h.2

theorem isRestrictedText_dotted {a b : String} (ha : a.toList.all isRestrictedChar = true)
    (hb : b.toList.all isRestrictedChar = true) : isRestrictedText (a ++ "." ++ b) = true := by
  rw [isRestrictedText, Bool.and_eq_true, String.toList_append, String.toList_append, List.all_append, List.all_append,
    ha, hb]
  exact ⟨by simp [← String.toList_eq_nil_iff], rfl⟩

theorem all_dotted {p : Path} (hp : ∀ name ∈ p, isRestrictedText name = true) :
    p.dotted.toList.all isRestrictedChar = true := by
  induction p with
  | nil => rfl
  | cons a p ih =>
    obtain ⟨ha, hp⟩ := List.forall_mem_cons.1 hp
    cases p with
    | nil => simpa [Path.dotted, Text.join] using all_of_isRestrictedText ha
    | cons b p =>
      have hjoin : Path.dotted (a :: b :: p) = a ++ "." ++ Path.dotted (b :: p) := by simp [Path.dotted, Text.join]
      rw [hjoin]
      exact all_of_isRestrictedText (isRestrictedText_dotted (all_of_isRestrictedText ha) (ih hp))

/-- Names that may stand in restricted texts. -/
structure Vocabulary.Restricted (V : Vocabulary) : Prop where
  root {name : String} (h : V.root name) : isRestrictedText name = true
  child {name : String} (h : V.child name) : isRestrictedText name = true

theorem isRestrictedText_qualify (hV : V.Restricted) {kind : SymbolKind} (hkind : kind.isRestricted = true)
    {owner : Option Path} (howner : IsOwner V owner) {text : String} (htext : isRestrictedText text = true) :
    isRestrictedText (SymbolTable.qualify kind owner text) = true := by
  cases owner with
  | none => exact htext
  | some p =>
    have hp := all_dotted fun name hname ↦ (howner p rfl name hname).elim hV.root hV.child
    simpa [SymbolTable.qualify, hkind] using isRestrictedText_dotted hp (all_of_isRestrictedText htext)

variable {v v' : Symbol} {x : String}

theorem Numbered.isRestrictedText (hV : V.Restricted) (hn : Numbered V M) (hsteps : SymbolTable.Steps hn.pool {} t)
    (hv : v ∈ M) (hkind : v.kind.isRestricted = true) (hfind : t.find? v.id = some x) :
    isRestrictedText x = true := by
  have hsymbol : hn.pool.symbol v.id = v := (hn.has hv).symm
  have htext : CommandPack.isRestrictedText v.text = true := by
    have htext := hsteps.isRestrictedText (i := v.id) (by rwa [hsymbol]) rfl hfind
    rwa [hsymbol] at htext
  have howner := hn.owner hv
  have hdistinct : (hn.pool.symbol v.id).kind.isDistinct = true := by
    rw [hsymbol]
    exact SymbolKind.isDistinct_of_isRestricted hkind
  obtain ⟨t₀, -, -, hfree, -⟩ := hsteps.exists_moment hdistinct rfl hfind
  rw [hsymbol] at hfree
  rcases hfree with ⟨-, rfl⟩ | ⟨-, i, -, rfl, -, -⟩
  · exact isRestrictedText_qualify hV hkind howner htext
  · refine isRestrictedText_qualify hV hkind howner ?_
    exact isRestrictedText_dotted (all_of_isRestrictedText htext)
      (all_of_isRestrictedText (isRestrictedText_of_isLabel (isLabel_toString i)))

theorem Numbered.text_ne (hn : Numbered V M) (hsteps : SymbolTable.Steps hn.pool {} t) (hv : v ∈ M)
    (hv' : v' ∈ M) (hkind : v.kind.isRestricted = true) (hkind' : v'.kind.isRestricted = true) (hne : v ≠ v')
    (hknown : t.Knows (.sym v)) (hknown' : t.Knows (.sym v')) : (Name.sym v).textIn t ≠ (Name.sym v').textIn t := by
  have hdistinct {u : Symbol} (hu : u ∈ M) (hkind : u.kind.isRestricted = true) :
      (hn.pool.symbol u.id).kind.isDistinct = true := by
    rw [show hn.pool.symbol u.id = u from (hn.has hu).symm]
    exact SymbolKind.isDistinct_of_isRestricted hkind
  obtain ⟨x, hx⟩ := hknown
  obtain ⟨x', hx'⟩ := hknown'
  simp only [Name.textIn, hx, hx', Option.getD_some]
  rintro rfl
  have hid := (hsteps.sound SymbolTable.Sound.empty).eq_of_find? v.id v'.id x (hdistinct hv hkind)
    (hdistinct hv' hkind') hx hx'
  exact hne (hn.eq_of_id hv hv' hid)

end CommandPack.Graph
