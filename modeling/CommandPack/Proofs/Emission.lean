import Mathlib
import CommandPack.Machine.Loading
import CommandPack.Proofs.Dictionary
import CommandPack.Proofs.Rendering

/-!
Listings. All symbols that blocks mention get their texts first, in the order of their numbers, so the
texts of a listing depend on the symbols and on the reserved texts and on nothing else. A listing can be
evaluated by recursion on the depth alone, and a machine made of it has its functions.
-/

namespace CommandPack

open Stateful

theorem SymbolPool.Has.eq {pool : SymbolPool} {v w : Symbol} (hv : pool.Has (.sym v))
    (hw : pool.Has (.sym w)) (hid : v.id = w.id) : v = w := by
  change v = pool.symbol v.id at hv
  change w = pool.symbol w.id at hw
  rw [hv, hw, hid]

namespace Listing

variable {pool : SymbolPool} {ss ss' : List Symbol} {v : Symbol}

theorem mem_of_mem_dropRepeats (hv : v ∈ dropRepeats ss) : v ∈ ss := by
  fun_induction dropRepeats ss with
  | case1 a b ss hid ih => exact List.mem_cons_of_mem _ (ih hv)
  | case2 a b ss hid ih =>
    rcases List.mem_cons.1 hv with rfl | hv
    · exact List.mem_cons_self
    · exact List.mem_cons_of_mem _ (ih hv)
  | case3 ss hss => exact hv

theorem exists_mem_dropRepeats (hv : v ∈ ss) : ∃ w ∈ dropRepeats ss, w.id = v.id := by
  fun_induction dropRepeats ss generalizing v with
  | case1 a b ss hid ih =>
    rcases List.mem_cons.1 hv with rfl | hv
    · obtain ⟨w, hw, hwid⟩ := ih List.mem_cons_self
      exact ⟨w, hw, hwid.trans hid.symm⟩
    · exact ih hv
  | case2 a b ss hid ih =>
    rcases List.mem_cons.1 hv with rfl | hv
    · exact ⟨v, List.mem_cons_self, rfl⟩
    · obtain ⟨w, hw, hwid⟩ := ih hv
      exact ⟨w, List.mem_cons_of_mem _ hw, hwid⟩
  | case3 ss hss => exact ⟨v, hv, rfl⟩

theorem pairwise_dropRepeats (h : ss.Pairwise fun a b ↦ a.id ≤ b.id) :
    (dropRepeats ss).Pairwise fun a b ↦ a.id < b.id := by
  fun_induction dropRepeats ss with
  | case1 a b ss hid ih => exact ih h.of_cons
  | case2 a b ss hid ih =>
    obtain ⟨ha, hrest⟩ := List.pairwise_cons.1 h
    refine List.pairwise_cons.2 ⟨fun w hw ↦ ?_, ih hrest⟩
    have hle : b.id ≤ w.id := by
      rcases List.mem_cons.1 (mem_of_mem_dropRepeats hw) with rfl | hw
      · exact le_rfl
      · exact List.rel_of_pairwise_cons hrest hw
    have hab : a.id ≤ b.id := ha b List.mem_cons_self
    omega
  | case3 ss hss =>
    match ss, hss with
    | [], _ => exact .nil
    | [a], _ => exact List.pairwise_singleton _ a
    | a :: b :: ss, hss => exact absurd rfl (hss a b ss)

def inOrder (ss : List Symbol) : List Symbol :=
  dropRepeats (ss.mergeSort fun a b ↦ decide (a.id ≤ b.id))

theorem pairwise_inOrder (ss : List Symbol) : (inOrder ss).Pairwise fun a b ↦ a.id < b.id := by
  apply pairwise_dropRepeats
  have hsorted : (ss.mergeSort fun a b ↦ decide (a.id ≤ b.id)).Pairwise fun a b ↦ decide (a.id ≤ b.id) =
      true := List.pairwise_mergeSort
    (fun a b c hab hbc ↦ by simp only [decide_eq_true_eq] at *; omega)
    (fun a b ↦ by simp only [Bool.or_eq_true, decide_eq_true_eq]; omega) ss
  exact hsorted.imp fun h ↦ by simpa using h

theorem mem_of_mem_inOrder (hv : v ∈ inOrder ss) : v ∈ ss :=
  List.mem_mergeSort.1 (mem_of_mem_dropRepeats hv)

theorem mem_inOrder (hpool : ∀ w ∈ ss, pool.Has (.sym w)) (hv : v ∈ ss) : v ∈ inOrder ss := by
  obtain ⟨w, hw, hid⟩ := exists_mem_dropRepeats (List.mem_mergeSort.2 hv)
  obtain rfl : w = v := (hpool w (mem_of_mem_inOrder hw)).eq (hpool v hv) hid
  exact hw

theorem inOrder_congr (hpool : ∀ w ∈ ss, pool.Has (.sym w)) (h : ∀ w, w ∈ ss ↔ w ∈ ss') :
    inOrder ss = inOrder ss' := by
  have hpool' : ∀ w ∈ ss', pool.Has (.sym w) := fun w hw ↦ hpool w ((h w).2 hw)
  have hnodup (ss : List Symbol) : (inOrder ss).Nodup := by
    refine (pairwise_inOrder ss).imp ?_
    rintro a b hlt rfl
    exact lt_irrefl _ hlt
  have hperm : (inOrder ss).Perm (inOrder ss') := by
    refine (List.perm_ext_iff_of_nodup (hnodup ss) (hnodup ss')).2 fun w ↦ ?_
    constructor
    · intro hw
      exact mem_inOrder hpool' ((h w).1 (mem_of_mem_inOrder hw))
    · intro hw
      exact mem_inOrder hpool ((h w).2 (mem_of_mem_inOrder hw))
  refine hperm.eq_of_pairwise ?_ (pairwise_inOrder ss) (pairwise_inOrder ss')
  intro a b _ _ hab hba
  exact absurd hba hab.not_gt

end Listing

namespace SymbolTable

variable {t t' : SymbolTable} {α β : Type}

/-- Tables with the same texts for symbols in which the same texts are taken. -/
structure Matches (t t' : SymbolTable) : Prop where
  used (text : String) : text ∈ t.used ↔ text ∈ t'.used
  resolved : t.resolved = t'.resolved
  active : t.active = t'.active

theorem Matches.find? (h : Matches t t') (i : Int) : t.find? i = t'.find? i := by
  rw [SymbolTable.find?, SymbolTable.find?, h.resolved]

theorem IsFirstFree.eq {used : List String} {s : Symbol} {x y : String} (hx : IsFirstFree used s x)
    (hy : IsFirstFree used s y) : x = y := by
  rcases hx with ⟨hx, rfl⟩ | ⟨hx, i, hi, rfl, hfree, hleast⟩
  · rcases hy with ⟨-, rfl⟩ | ⟨hy, -⟩
    · rfl
    · exact absurd hy hx
  · rcases hy with ⟨hy, -⟩ | ⟨-, j, hj, rfl, hfree', hleast'⟩
    · exact absurd hx hy
    · rcases lt_trichotomy i j with hlt | rfl | hlt
      · exact absurd (hleast' i hi hlt) hfree
      · rfl
      · exact absurd (hleast j hj hlt) hfree'

theorem Matches.textFor (h : Matches t t') (s : Symbol) : t.textFor s = t'.textFor s := by
  have hfree := isFirstFree_textFor t s
  simp only [IsFirstFree, h.used] at hfree
  exact IsFirstFree.eq hfree (isFirstFree_textFor t' s)

def Agrees (x : Resolve α) : Prop :=
  ∀ t t', Matches t t' → (x t).1 = (x t').1 ∧ Matches (x t).2 (x t').2

theorem Agrees.bind {x : Resolve α} {f : α → Resolve β} (hx : Agrees x) (hf : ∀ a, Agrees (f a)) :
    Agrees (x >>= f) := by
  intro t t' h
  obtain ⟨hr, hm⟩ := hx t t' h
  rw [bind_apply, bind_apply]
  rcases hxt : x t with ⟨e | a, t₁⟩
  · rcases hxt' : x t' with ⟨e' | a', t₁'⟩ <;> simp_all
  · rcases hxt' : x t' with ⟨e' | a', t₁'⟩
    · simp_all
    · rw [hxt, hxt'] at hr hm
      obtain rfl : a = a' := Except.ok.inj hr
      exact hf a t₁ t₁' hm

theorem agrees_pure (a : α) : Agrees (pure a : Resolve α) := fun _ _ h ↦ ⟨rfl, h⟩

theorem agrees_throw (p : Problem) : Agrees (throw p : Resolve α) := fun _ _ h ↦ ⟨rfl, h⟩

theorem agrees_record (i : Int) (text : String) : Agrees (record i text) := by
  intro t t' h
  refine ⟨rfl, h.used, ?_, h.active⟩
  change (i, text) :: t.resolved = (i, text) :: t'.resolved
  rw [h.resolved]

theorem agrees_settle (s : Symbol) : Agrees (settle s.id s.kind s.text s.owner) := by
  intro t t' h
  by_cases hp : s.kind = .path
  · cases ho : s.owner with
    | none => simpa [settle, hp] using h
    | some p => simpa [settle, hp] using agrees_record _ _ t t' h
  · by_cases hr : s.kind.isRestricted ∧ ¬ isRestrictedText s.text
    · simpa [settle, hp, hr] using h
    · simp only [Bool.not_eq_true] at hr
      have hsettle (t : SymbolTable) :
          settle s.id s.kind s.text s.owner t = (.ok (t.textFor s), t.hand s) := by
        simp [settle, hp, hr, record, hand, textFor]
      rw [hsettle, hsettle]
      refine ⟨by rw [h.textFor], fun text ↦ ?_, ?_, h.active⟩
      · simp only [hand, List.mem_cons, h.textFor, h.used]
      · simp only [hand, h.textFor, h.resolved]

theorem agrees_resolve_and_resolveAll :
    (∀ n, Agrees (resolve n)) ∧ ∀ ns, Agrees (resolveAll ns) := by
  refine resolve.mutual_induct (fun n ↦ Agrees (resolve n)) (fun ns ↦ Agrees (resolveAll ns))
    ?lit ?sym ?nil ?cons
  case lit => exact fun text ↦ agrees_pure text
  case sym =>
    intro id kind text owner args ih
    let s : Symbol := ⟨id, kind, text, owner, args⟩
    have hfind : Agrees (find s) := by
      by_cases hc : s.kind = .composite
      · simp only [find, hc, if_true]
        refine Agrees.bind ih fun texts ↦ ?_
        cases fill s.text texts with
        | ok out => exact agrees_record s.id out
        | error p => exact agrees_throw p
      · simp only [find, hc, if_false]
        exact agrees_settle s
    intro t t' h
    cases hf : t.find? s.id with
    | some out =>
      rw [resolve_of_find? (s := s) hf, resolve_of_find? (s := s) ((h.find? s.id).symm.trans hf)]
      exact ⟨rfl, h⟩
    | none =>
      have hf' : t'.find? s.id = none := (h.find? s.id).symm.trans hf
      by_cases ha : s.id ∈ t.active
      · have hactive (t : SymbolTable) (hf : t.find? s.id = none) (ha : s.id ∈ t.active) :
            resolve (.sym s) t =
              (.error (.invariant s!"symbol {s.display} refers to itself"), t) := by
          rw [resolve_sym_apply, hf]
          simp [ha]
        rw [hactive t hf ha, hactive t' hf' (h.active ▸ ha)]
        exact ⟨rfl, h⟩
      · rw [resolve_of_inactive (s := s) hf ha, resolve_of_inactive (s := s) hf' (h.active ▸ ha),
          whileActive_apply, whileActive_apply]
        obtain ⟨hr, hm⟩ := hfind (t.entered s.id) (t'.entered s.id)
          ⟨h.used, h.resolved, congrArg (s.id :: ·) h.active⟩
        exact ⟨hr, hm.used, hm.resolved, congrArg (List.filter (· != s.id)) hm.active⟩
  case nil => exact agrees_pure []
  case cons =>
    intro n ns ih ihs
    exact Agrees.bind ih fun text ↦ Agrees.bind ihs fun texts ↦ agrees_pure (text :: texts)

end SymbolTable

namespace Listing

variable {pool : SymbolPool} {ss : List Symbol} {t t' : SymbolTable}

theorem resolveAll_cons (t : SymbolTable) (v : Symbol) (ss : List Symbol) :
    resolveAll t (v :: ss) = (match (SymbolTable.resolve (.sym v) t).1 with
      | .ok _ => (resolveAll (SymbolTable.resolve (.sym v) t).2 ss).1
      | .error p => p :: (resolveAll (SymbolTable.resolve (.sym v) t).2 ss).1,
      (resolveAll (SymbolTable.resolve (.sym v) t).2 ss).2) := rfl

theorem resolveAll_matches (h : SymbolTable.Matches t t') (ss : List Symbol) :
    (resolveAll t ss).1 = (resolveAll t' ss).1 ∧
      SymbolTable.Matches (resolveAll t ss).2 (resolveAll t' ss).2 := by
  induction ss generalizing t t' with
  | nil => exact ⟨rfl, h⟩
  | cons v ss ih =>
    obtain ⟨hr, hm⟩ := SymbolTable.agrees_resolve_and_resolveAll.1 (.sym v) t t' h
    obtain ⟨hrest, hmrest⟩ := ih hm
    rw [resolveAll_cons, resolveAll_cons, hr, hrest]
    exact ⟨rfl, hmrest⟩

theorem steps_resolveAll (hpool : ∀ v ∈ ss, pool.Has (.sym v)) (t : SymbolTable) :
    SymbolTable.Steps pool t (resolveAll t ss).2 := by
  induction ss generalizing t with
  | nil => exact .refl
  | cons v ss ih =>
    obtain ⟨hv, hss⟩ := List.forall_mem_cons.1 hpool
    rw [resolveAll_cons]
    exact (SymbolTable.finds_of_resolve_and_resolveAll.1 _ hv t).steps.trans (ih hss _)

theorem knows_of_resolveAll (hpool : ∀ v ∈ ss, pool.Has (.sym v)) (h : (resolveAll t ss).1 = []) :
    ∀ v ∈ ss, (resolveAll t ss).2.Knows (.sym v) := by
  induction ss generalizing t with
  | nil => exact fun v hv ↦ absurd hv List.not_mem_nil
  | cons v ss ih =>
    obtain ⟨hv, hss⟩ := List.forall_mem_cons.1 hpool
    rw [resolveAll_cons] at h ⊢
    have hfind := SymbolTable.find?_of_resolve pool v.id t
    rw [← show v = pool.symbol v.id from hv] at hfind
    rcases hr : SymbolTable.resolve (.sym v) t with ⟨p | text, t₁⟩
    · simp [hr] at h
    · simp only [hr] at h hfind ⊢
      refine List.forall_mem_cons.2 ⟨⟨text, ?_⟩, ih hss h⟩
      exact (steps_resolveAll hss t₁).find?_eq hfind

variable {s : Session} {roots roots' : List NodeId} {reserved : List String} {id : NodeId}

def blocksOf (s : Session) (roots : List NodeId) : List NodeId :=
  roots.flatMap fun root ↦ (Graph.blocks s root).1

def mentioned (s : Session) (roots : List NodeId) : List Symbol :=
  (blocksOf s roots).flatMap fun id ↦ Instruction.symbolsOf (Graph.commandsAt s id)

/-- The problems that are met when all symbols get their texts, and the table after that. -/
def settled (s : Session) (roots : List NodeId) (reserved : List String) : List Problem × SymbolTable :=
  resolveAll (SymbolTable.reserve {} reserved) (inOrder (mentioned s roots))

def tableOf (s : Session) (roots : List NodeId) (reserved : List String) : SymbolTable :=
  (settled s roots reserved).2

def functionIn (t : SymbolTable) (s : Session) (id : NodeId) : Function where
  path := (s.node id).path.joined
  parts := (s.node id).path
  description := (Graph.blockOf (s.node id)).description
  tags := (Graph.blockOf (s.node id)).tags.map Path.joined
  lines := (Graph.commandsAt s id).map (Instruction.textIn t) ++
    (Graph.blockOf (s.node id)).continuation.toList.map fun c ↦ "function " ++ (s.node c).path.joined

def Renders (t : SymbolTable) (s : Session) (id : NodeId) : Prop :=
  ∃ lines, Instruction.renderAll (Graph.commandsAt s id) t = (.ok lines, t)

theorem renderBlock_apply (s : Session) (id : NodeId) (t : SymbolTable) :
    renderBlock s id t = andThen (fun lines ↦ pure
      { functionIn t s id with lines := lines ++
        (Graph.blockOf (s.node id)).continuation.toList.map fun c ↦ "function " ++ (s.node c).path.joined })
      (Instruction.renderAll (Graph.commandsAt s id) t) := by
  rw [renderBlock, bind_apply]
  rfl

theorem renderBlock_of_renders (hknown : Instruction.Known t (Graph.commandsAt s id)) (h : Renders t s id) :
    renderBlock s id t = (.ok (functionIn t s id), t) := by
  obtain ⟨lines, hr⟩ := h
  obtain ⟨-, rfl⟩ := Instruction.renderAll_known hknown hr
  rw [renderBlock_apply, hr]
  rfl

theorem renderBlock_of_not_renders (hknown : Instruction.Known t (Graph.commandsAt s id))
    (h : ¬ Renders t s id) : ∃ e, renderBlock s id t = (.error e, t) := by
  have hleaves := Instruction.leaves_render_and_renderAll.2 (Graph.commandsAt s id) hknown
  rcases hr : Instruction.renderAll (Graph.commandsAt s id) t with ⟨e | lines, t'⟩
  · rw [Leaves, hr] at hleaves
    obtain rfl : t' = t := hleaves
    refine ⟨e, ?_⟩
    rw [renderBlock_apply, hr]
    rfl
  · obtain ⟨rfl, -⟩ := Instruction.renderAll_known hknown hr
    exact absurd ⟨lines, hr⟩ h

theorem renderBlocks_cons (s : Session) (t : SymbolTable) (id : NodeId) (ids : List NodeId) :
    renderBlocks s t (id :: ids) = (match (renderBlock s id t).1 with
      | .ok f => ((renderBlocks s (renderBlock s id t).2 ids).1,
        f :: (renderBlocks s (renderBlock s id t).2 ids).2)
      | .error e => (e :: (renderBlocks s (renderBlock s id t).2 ids).1,
        (renderBlocks s (renderBlock s id t).2 ids).2)) := rfl

theorem renderBlocks_of_renders {ids : List NodeId}
    (hknown : ∀ id ∈ ids, Instruction.Known t (Graph.commandsAt s id)) (h : ∀ id ∈ ids, Renders t s id) :
    renderBlocks s t ids = ([], ids.map (functionIn t s)) := by
  induction ids with
  | nil => rfl
  | cons id ids ih =>
    obtain ⟨hid, hids⟩ := List.forall_mem_cons.1 hknown
    obtain ⟨hr, hrs⟩ := List.forall_mem_cons.1 h
    rw [renderBlocks_cons, renderBlock_of_renders hid hr, ih hids hrs]
    rfl

theorem renders_of_renderBlocks {ids : List NodeId} {fs : List Function}
    (hknown : ∀ id ∈ ids, Instruction.Known t (Graph.commandsAt s id)) (h : renderBlocks s t ids = ([], fs)) :
    ∀ id ∈ ids, Renders t s id := by
  induction ids generalizing fs with
  | nil => exact fun id hid ↦ absurd hid List.not_mem_nil
  | cons id ids ih =>
    obtain ⟨hid, hids⟩ := List.forall_mem_cons.1 hknown
    rw [renderBlocks_cons] at h
    by_cases hr : Renders t s id
    · rw [renderBlock_of_renders hid hr] at h
      have hes : (renderBlocks s t ids).1 = [] := congrArg Prod.fst h
      exact List.forall_mem_cons.2 ⟨hr, ih hids (Prod.ext hes rfl)⟩
    · obtain ⟨e, he⟩ := renderBlock_of_not_renders hid hr
      rw [he] at h
      cases congrArg Prod.fst h

theorem known_of_settled (hpool : ∀ v ∈ mentioned s roots, pool.Has (.sym v))
    (h : (settled s roots reserved).1 = []) :
    ∀ id ∈ blocksOf s roots, Instruction.Known (tableOf s roots reserved) (Graph.commandsAt s id) := by
  intro id hid v hv
  have hmem : v ∈ mentioned s roots := List.mem_flatMap.2 ⟨id, hid, hv⟩
  exact knows_of_resolveAll (fun w hw ↦ hpool w (mem_of_mem_inOrder hw)) h v (mem_inOrder hpool hmem)

theorem emit_eq (s : Session) (roots : List NodeId) (reserved : List String) :
    emit s roots reserved =
      if ¬ (roots.flatMap fun root ↦ (Graph.blocks s root).2).isEmpty then
        .error (.several ((roots.flatMap fun root ↦ (Graph.blocks s root).2).map .problem))
      else if ¬ (settled s roots reserved).1.isEmpty then
        .error (.several ((settled s roots reserved).1.map .problem))
      else match renderBlocks s (tableOf s roots reserved) (blocksOf s roots) with
        | ([], fs) => .ok (ofFunctions fs)
        | (es, _) => .error (.collect es) := by
  simp only [emit, settled, tableOf, mentioned, blocksOf, List.flatMap_map, symbolsOf, inOrder, Graph.commandsAt]
  rfl

/-- Emission succeeds just if no graph is broken, all symbols get a text and all blocks become text. -/
theorem emit_eq_ok {l : Listing} (hpool : ∀ v ∈ mentioned s roots, pool.Has (.sym v)) :
    emit s roots reserved = .ok l ↔ (∀ root ∈ roots, (Graph.blocks s root).2 = []) ∧
      (settled s roots reserved).1 = [] ∧ (∀ id ∈ blocksOf s roots, Renders (tableOf s roots reserved) s id) ∧
      l = ofFunctions ((blocksOf s roots).map (functionIn (tableOf s roots reserved) s)) := by
  rw [emit_eq]
  by_cases hproblems : (roots.flatMap fun root ↦ (Graph.blocks s root).2) = []
  · have hroots : ∀ root ∈ roots, (Graph.blocks s root).2 = [] := List.flatMap_eq_nil_iff.1 hproblems
    rw [hproblems]
    by_cases hsettled : (settled s roots reserved).1 = []
    · have hknown := known_of_settled hpool hsettled
      simp only [hsettled, List.isEmpty_nil, not_true_eq_false, if_false]
      constructor
      · intro h
        split at h
        · rename_i fs hfs
          have hrenders := renders_of_renderBlocks hknown hfs
          rw [renderBlocks_of_renders hknown hrenders] at hfs
          obtain rfl : _ = fs := congrArg Prod.snd hfs
          exact ⟨hroots, trivial, hrenders, (Except.ok.inj h).symm⟩
        · cases h
      · rintro ⟨-, -, hrenders, rfl⟩
        rw [renderBlocks_of_renders hknown hrenders]
    · simp [hsettled]
  · have hroots : ¬ ∀ root ∈ roots, (Graph.blocks s root).2 = [] := fun h ↦
      hproblems (List.flatMap_eq_nil_iff.2 h)
    simp [hproblems, hroots]

theorem settled_congr {s' : Session} {reserved' : List String}
    (hpool : ∀ v ∈ mentioned s roots, pool.Has (.sym v))
    (hsymbols : ∀ v, v ∈ mentioned s roots ↔ v ∈ mentioned s' roots')
    (hreserved : ∀ text, text ∈ reserved ↔ text ∈ reserved') :
    (settled s roots reserved).1 = (settled s' roots' reserved').1 ∧
      SymbolTable.Matches (settled s roots reserved).2 (settled s' roots' reserved').2 := by
  rw [settled, settled, inOrder_congr hpool hsymbols]
  apply resolveAll_matches
  refine ⟨fun text ↦ ?_, rfl, rfl⟩
  simpa [SymbolTable.reserve] using hreserved text

theorem blocksOf_perm (h : roots.Perm roots') : (blocksOf s roots).Perm (blocksOf s roots') :=
  h.flatMap_right _

theorem mem_mentioned_perm (h : roots.Perm roots') (v : Symbol) :
    v ∈ mentioned s roots ↔ v ∈ mentioned s roots' :=
  ((blocksOf_perm h).flatMap_right _).mem_iff

theorem settled_perm (hpool : ∀ v ∈ mentioned s roots, pool.Has (.sym v)) (h : roots.Perm roots')
    (reserved : List String) : settled s roots reserved = settled s roots' reserved := by
  rw [settled, settled, inOrder_congr hpool (mem_mentioned_perm h)]

/-- Emission does not depend on the order of the roots. Roots whose symbols are of one pool and that are
emitted in one order are emitted in every other order, and each block is the same function in both
listings. A symbol has the same text in every table for the same sets of symbols and of reserved texts,
and the instructions of the blocks become text without changing the table. -/
theorem emit_perm {l : Listing} (hpool : ∀ v ∈ mentioned s roots, pool.Has (.sym v))
    (hperm : roots.Perm roots') (hemit : emit s roots reserved = .ok l) :
    (∃ l', emit s roots' reserved = .ok l' ∧ (blocksOf s roots).Perm (blocksOf s roots') ∧
      l.functions = (blocksOf s roots).map (functionIn (tableOf s roots reserved) s) ∧
      l'.functions = (blocksOf s roots').map (functionIn (tableOf s roots reserved) s)) ∧
    (∀ s₂ roots₂ reserved₂, (∀ v, v ∈ mentioned s roots ↔ v ∈ mentioned s₂ roots₂) →
      (∀ text, text ∈ reserved ↔ text ∈ reserved₂) →
      ∀ i, (tableOf s roots reserved).find? i = (tableOf s₂ roots₂ reserved₂).find? i) ∧
    ∀ id ∈ blocksOf s roots, ∀ c ∈ Graph.commandsAt s id,
      (c.render (tableOf s roots reserved)).2 = tableOf s roots reserved := by
  obtain ⟨hroots, hsettled, hrenders, rfl⟩ := (emit_eq_ok hpool).1 hemit
  have hpool' : ∀ v ∈ mentioned s roots', pool.Has (.sym v) := by
    intro v hv
    exact hpool v ((mem_mentioned_perm hperm v).2 hv)
  have hsame := settled_perm hpool hperm reserved
  have htable : tableOf s roots reserved = tableOf s roots' reserved := congrArg Prod.snd hsame
  refine ⟨⟨_, (emit_eq_ok hpool').2 ⟨?_, ?_, ?_, rfl⟩, blocksOf_perm hperm, rfl, ?_⟩, ?_, ?_⟩
  · intro root hroot
    exact hroots root (hperm.mem_iff.2 hroot)
  · rw [← hsame, hsettled]
  · intro id hid
    rw [← htable]
    exact hrenders id ((blocksOf_perm hperm).mem_iff.2 hid)
  · rw [htable]
    rfl
  · intro s₂ roots₂ reserved₂ hsymbols hreserved i
    exact (settled_congr hpool hsymbols hreserved).2.find? i
  · intro id hid c hc
    have hknown := known_of_settled hpool hsettled id hid
    exact Instruction.leaves_render_and_renderAll.1 c fun v hv ↦ hknown v (Instruction.mem_symbolsOf hc hv)

def twoRoots : Session :=
  let fill (name : String) : Build Unit := do
    let root ← Graph.root name
    let fn ← Graph.createFunction root "show" "show" [] ""
    let player ← Synth.symbol .player "x" none []
    Graph.add fn [.literal "scoreboard players get %s dp" [.sym player]]
    Graph.finish fn
  ((do fill "a"; fill "b" : Build Unit) {}).2

def shown (root x : String) : Function where
  path := root ++ ":show/show"
  parts := [root, "show", "show"]
  lines := ["scoreboard players get " ++ x ++ " dp"]

theorem emit_perm_twoRoots :
    emit twoRoots [0, 3] ["x"] = .ok (ofFunctions [shown "a" "x.2", shown "b" "x.3"]) ∧
    ∃ l', emit twoRoots [3, 0] ["x"] = .ok l' ∧
      l'.functions = (blocksOf twoRoots [3, 0]).map (functionIn (tableOf twoRoots [0, 3] ["x"]) twoRoots) := by
  have hemit : emit twoRoots [0, 3] ["x"] = .ok (ofFunctions [shown "a" "x.2", shown "b" "x.3"]) := by
    cbv
  have hmentioned : mentioned twoRoots [0, 3] = [⟨0, .player, "x", none, []⟩, ⟨1, .player, "x", none, []⟩] := by
    cbv
  have hpool : ∀ v ∈ mentioned twoRoots [0, 3], (SymbolTable.playerPool fun _ ↦ "x").Has (.sym v) := by
    rw [hmentioned]
    simp [SymbolPool.Has, SymbolTable.playerPool]
  obtain ⟨⟨l', hemit', -, -, hfunctions⟩, -⟩ := emit_perm hpool (List.Perm.swap 3 0 []) hemit
  exact ⟨hemit, l', hemit', hfunctions⟩

end Listing

namespace Graph

variable {s : Session}

/-- The blocks of entities, where `below` finds those below an entity, and the functions that were not ended. -/
def gatherAll (s : Session) (below : NodeId → List NodeId × List Problem) : List NodeId → List NodeId × List Problem
  | [] => ([], [])
  | id :: ids =>
    let n := s.node id
    let (bs, ps) := match n.role with
      | .block _ => ([id], [])
      | .function f =>
        let (bs, ps) := below id
        (bs, if f.ended then ps else .invariant s!"function {n.path.joined} was not ended" :: ps)
      | _ => below id
    let (bs', ps') := gatherAll s below ids
    (bs ++ bs', ps ++ ps')

def gather (s : Session) : (fuel : Nat) → NodeId → List NodeId × List Problem
  | 0, _ => ([], [])
  | fuel + 1, id => gatherAll s (gather s fuel) ((s.node id).children.map (·.2))

theorem blocksOfAll_eq_gatherAll {fuel : Nat} {below : NodeId → List NodeId × List Problem}
    (h : ∀ id, blocksBelow s fuel id = below id) (ids : List NodeId) : blocksOfAll s fuel ids = gatherAll s below ids := by
  induction ids with
  | nil => rw [blocksOfAll, gatherAll]
  | cons id ids ih =>
    cases hrole : (s.node id).role <;> simp only [blocksOfAll, gatherAll, hrole, ih, h]

theorem blocksBelow_eq_gather (s : Session) (fuel : Nat) (id : NodeId) : blocksBelow s fuel id = gather s fuel id := by
  induction fuel generalizing id with
  | zero => rw [blocksBelow, gather]
  | succ fuel ih => rw [blocksBelow, gather, blocksOfAll_eq_gatherAll ih]

def gathered (s : Session) (id : NodeId) : List NodeId × List Problem :=
  let (bs, ps) := gather s s.nodes.size id
  (bs, s.failure.toList ++ ps)

theorem blocks_eq_gathered (s : Session) (id : NodeId) : blocks s id = gathered s id := by
  rw [blocks, gathered, blocksBelow_eq_gather]

end Graph

namespace Listing

variable {pool : SymbolPool} {ss : List Symbol} {s : Session} {roots : List NodeId}

def inserted (ss : List Symbol) : List Symbol := dropRepeats (ss.insertionSort fun a b ↦ a.id ≤ b.id)

theorem inOrder_eq_inserted (hpool : ∀ v ∈ ss, pool.Has (.sym v)) : inOrder ss = inserted ss := by
  have : Std.Total fun a b : Symbol ↦ a.id ≤ b.id := ⟨fun a b ↦ le_total a.id b.id⟩
  have : IsTrans Symbol fun a b ↦ a.id ≤ b.id := ⟨fun _ _ _ ↦ le_trans⟩
  have hperm : (ss.mergeSort fun a b ↦ decide (a.id ≤ b.id)).Perm (ss.insertionSort fun a b ↦ a.id ≤ b.id) :=
    (List.mergeSort_perm ss _).trans (List.perm_insertionSort _ ss).symm
  rw [inOrder, inserted]
  congr 1
  refine hperm.eq_of_pairwise ?_ (List.pairwise_mergeSort' _ ss) (List.pairwise_insertionSort _ ss)
  intro a b ha hb hab hba
  exact (hpool a (List.mem_mergeSort.1 ha)).eq (hpool b ((List.perm_insertionSort _ ss).mem_iff.1 hb)) (le_antisymm hab hba)

/-- The functions below the roots as text; the definitions used can be evaluated. -/
def evaluate (s : Session) (roots : List NodeId) (reserved : List String) : Except Failure Listing :=
  let blocks := roots.flatMap fun root ↦ (Graph.gathered s root).1
  let problems := roots.flatMap fun root ↦ (Graph.gathered s root).2
  if ¬ problems.isEmpty then .error (.several (problems.map .problem))
  else
    let (problems, table) := resolveAll (SymbolTable.reserve {} reserved)
      (inserted (blocks.flatMap fun id ↦ Instruction.symbolsOf (Graph.commandsAt s id)))
    if ¬ problems.isEmpty then .error (.several (problems.map .problem))
    else match renderBlocks s table blocks with
      | ([], fs) => .ok (ofFunctions fs)
      | (es, _) => .error (.collect es)

theorem emit_eq_evaluate (hpool : ∀ v ∈ mentioned s roots, pool.Has (.sym v)) (reserved : List String) :
    emit s roots reserved = evaluate s roots reserved := by
  rw [emit_eq]
  simp only [settled, tableOf, inOrder_eq_inserted hpool]
  simp only [mentioned, blocksOf, Graph.blocks_eq_gathered]
  rfl

def evaluateSymbols (s : Session) (roots : List NodeId) : List Symbol :=
  (roots.flatMap fun root ↦ (Graph.gathered s root).1).flatMap fun id ↦ Instruction.symbolsOf (Graph.commandsAt s id)

theorem mentioned_eq_evaluateSymbols (s : Session) (roots : List NodeId) : mentioned s roots = evaluateSymbols s roots := by
  simp only [mentioned, blocksOf, evaluateSymbols, Graph.blocks_eq_gathered]

end Listing

namespace Machine

variable {setup : Setup} {l : Listing} {f : Function} {path : String}

def definitions (fs : List Function) (d : Dict (List String)) : Dict (List String) :=
  fs.foldl (fun d f ↦ Dict.insert f.path (f.lines.flatMap commandsOf) d) d

theorem ofListing_eq (setup : Setup) (l : Listing) : ofListing setup l =
    { toSetup := { setup with functions := definitions l.functions setup.functions, tags := l.tags } } := by
  suffices h : ∀ (fs : List Function) (m : Machine),
      fs.foldl (fun m f ↦ m.define f.path f.lines) m = { m with functions := definitions fs m.functions } from
    h l.functions _
  intro fs
  induction fs with
  | nil => exact fun m ↦ rfl
  | cons f fs ih => exact fun m ↦ ih (m.define f.path f.lines)

theorem functions_ofListing (setup : Setup) (l : Listing) :
    (ofListing setup l).functions = definitions l.functions setup.functions := by
  rw [ofListing_eq]

theorem find?_definitions_of_notMem {fs : List Function} (h : ∀ f ∈ fs, f.path ≠ path)
    (d : Dict (List String)) : Dict.find? path (definitions fs d) = Dict.find? path d := by
  induction fs generalizing d with
  | nil => rfl
  | cons f fs ih =>
    obtain ⟨hf, hfs⟩ := List.forall_mem_cons.1 h
    rw [definitions, List.foldl_cons]
    exact (ih hfs _).trans (by rw [Dict.find?_insert, if_neg hf])

theorem find?_definitions {fs : List Function} (hnodup : (fs.map (·.path)).Nodup) (hf : f ∈ fs)
    (d : Dict (List String)) :
    Dict.find? f.path (definitions fs d) = some (f.lines.flatMap commandsOf) := by
  induction fs generalizing d with
  | nil => exact absurd hf List.not_mem_nil
  | cons g fs ih =>
    obtain ⟨hg, hfs⟩ := List.nodup_cons.1 hnodup
    rw [definitions, List.foldl_cons]
    rcases List.mem_cons.1 hf with rfl | hf
    · have hother : ∀ g ∈ fs, g.path ≠ f.path := by
        intro g hmem heq
        exact hg (List.mem_map.2 ⟨g, hmem, heq⟩)
      exact (find?_definitions_of_notMem hother _).trans (by rw [Dict.find?_insert, if_pos rfl])
    · exact ih hfs hf _

theorem find?_ofListing (hnodup : (l.functions.map (·.path)).Nodup) (hf : f ∈ l.functions) :
    Dict.find? f.path (ofListing setup l).functions = some (f.lines.flatMap commandsOf) := by
  rw [functions_ofListing]
  exact find?_definitions hnodup hf _

end Machine

end CommandPack
