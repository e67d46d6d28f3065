import Mathlib
import CommandPack.Proofs.Building

/-!
Building whole bodies. The parts of a body are built in any order, each through its own open function;
what comes out is laid out as the body is.
-/

namespace CommandPack.Graph

open Stateful

/-- The body of a function as it is built. It ends by being done or by leaving the function. -/
inductive Flow where
  | done
  | leave
  | add (cmds : List Instruction) (next : Flow)
  | ifThen (cond : Condition) (yes next : Flow)
  | ifElse (cond : Condition) (yes no next : Flow)
  | loop (cond : Condition) (body next : Flow)

/-- The first step of building a body at `fn`, and what is left to build after it. -/
inductive Begins (fn : Nat) (s : Session) : Flow → List (Nat × Flow) → Session → Prop
  | done {s'} (h : finish fn s = (.ok (), s')) : Begins fn s .done [] s'
  | leave {s'} (h : leave fn none s = (.ok (), s')) : Begins fn s .leave [(fn, .done)] s'
  | add {cmds next s'} (h : add fn cmds s = (.ok (), s')) : Begins fn s (.add cmds next) [(fn, next)] s'
  | ifThen {c yes next b s'} (h : ifThen fn c s = (.ok b, s')) :
      Begins fn s (.ifThen c yes next) [(b, yes), (fn, next)] s'
  | ifElse {c yes no next b b' s'} (h : branch fn c true s = (.ok (b, some b'), s')) :
      Begins fn s (.ifElse c yes no next) [(b, yes), (b', no), (fn, next)] s'
  | loop {c body next b s'} (h : loop fn c s = (.ok b, s')) :
      Begins fn s (.loop c body next) [(b, body), (fn, next)] s'

/-- Building all that is left, one step of any part after the other. -/
inductive Builds : List (Nat × Flow) → Session → Session → Prop
  | nil (s : Session) : Builds [] s s
  | step {ts us new : List (Nat × Flow)} {fn : Nat} {flow : Flow} {s s₁ s' : Session}
      (h : Begins fn s flow new s₁) (hrest : Builds (ts ++ new ++ us) s₁ s') :
      Builds (ts ++ (fn, flow) :: us) s s'

def IsGenerated (v : Symbol) : Prop :=
  ∃ text path, v = ⟨v.id, .player, text, some path, []⟩ ∧ IsPlain text ∧ ∀ name ∈ path, IsPlain name

/-- Instructions, and the block that goes on after them, that a body was built to, with the symbols made
for it. The blocks of the body are nodes from `low` on. -/
inductive Shape (s : Session) (low : Nat) :
    (again : Bool) → (k : Option Nat) → Flow → Set Int → List Instruction → Option Nat → Prop
  | done {r k} : Shape s low r k .done ∅ [] k
  | leave {r k} : Shape s low r k .leave ∅ [] none
  | add {r k cmds next own cmds' k'} (hnext : Shape s low r k next own cmds' k') :
      Shape s low r k (.add cmds next) own (cmds ++ cmds') k'
  | ifThen {r k c yes next v e x j own own' cmds cmds' k₁ k₂} (hv : IsGenerated v)
      (hlow : low ≤ e ∧ low ≤ x ∧ low ≤ j) (henters : EntersAt s r ⟨.sym v, s.objective⟩ e x)
      (hyes : Reads s e cmds k₁) (hnext : Reads s j cmds' k₂) (hyesShape : Shape s low r (some j) yes own cmds k₁)
      (hnextShape : Shape s low r k next own' cmds' k₂) (hfresh : v.id ∉ own ∪ own') (hdisjoint : Disjoint own own') :
      Shape s low r k (.ifThen c yes next) (insert v.id (own ∪ own'))
        (branchCommands ⟨.sym v, s.objective⟩ c (s.node x).path (s.node j).path) none
  | ifElse {r k c yes no next v e e' x j own own₂ own' cmds cmds₂ cmds' k₁ k₂ k₃} (hv : IsGenerated v)
      (hlow : low ≤ e ∧ low ≤ e' ∧ low ≤ x ∧ low ≤ j) (henters : EntersAt s r ⟨.sym v, s.objective⟩ e x)
      (hyes : Reads s e cmds k₁) (hno : Reads s e' cmds₂ k₂) (hnext : Reads s j cmds' k₃)
      (hyesShape : Shape s low r (some j) yes own cmds k₁) (hnoShape : Shape s low r (some j) no own₂ cmds₂ k₂)
      (hnextShape : Shape s low r k next own' cmds' k₃) (hfresh : v.id ∉ own ∪ own₂ ∪ own')
      (hdisjoint : Disjoint own own₂ ∧ Disjoint (own ∪ own₂) own') :
      Shape s low r k (.ifElse c yes no next) (insert v.id (own ∪ own₂ ∪ own'))
        (branchCommands ⟨.sym v, s.objective⟩ c (s.node x).path (s.node e').path) none
  | loop {r k c body next v e x j own own' cmds cmds' k₁ k₂} (hv : IsGenerated v)
      (hlow : low ≤ e ∧ low ≤ x ∧ low ≤ j)
      (hbody : Reads s e (scoreInstruction "add" ⟨.sym v, s.objective⟩ "1" :: cmds) k₁)
      (hcheck : Reads s x (checkCommands ⟨.sym v, s.objective⟩ c (s.node e).path (s.node j).path) none)
      (hnext : Reads s j cmds' k₂) (hbodyShape : Shape s low true (some x) body own cmds k₁)
      (hnextShape : Shape s low r k next own' cmds' k₂) (hfresh : v.id ∉ own ∪ own') (hdisjoint : Disjoint own own') :
      Shape s low r k (.loop c body next) (insert v.id (own ∪ own'))
        (loopCommands ⟨.sym v, s.objective⟩ (s.node x).path) none

variable {s s' s₁ s₂ : Session} {low fn : Nat} {f : FunctionState} {flow next : Flow}
  {tasks new ts us : List (Nat × Flow)} {cmds : List Instruction} {c : Condition} {again : Bool}

abbrev cursor (s : Session) (fn : Nat) : Nat := (functionOf (s.node fn)).current

/-- Between two graphs a body was built at the cursor of a function. -/
def Fits (s s' : Session) (low : Nat) (f : FunctionState) (flow : Flow) (own : Set Int) : Prop :=
  ∃ cmds k, Reads s' f.current (commandsAt s f.current ++ cmds) k ∧
    Shape s' low f.reentrant f.continuation flow own cmds k

/-- Different functions are open, at different blocks. -/
structure Pending (s : Session) (low : Nat) (tasks : List (Nat × Flow)) : Prop where
  opened {t : Nat × Flow} (ht : t ∈ tasks) : low ≤ t.1 ∧ Open s t.1 (functionOf (s.node t.1))
  apart : tasks.Pairwise fun t u ↦ t.1 ≠ u.1 ∧ cursor s t.1 ≠ cursor s u.1

/-- A step of building at `fn` touches nothing but `fn` and its cursor, and leaves open functions. -/
structure Moves (s s₁ : Session) (low fn : Nat) (f : FunctionState) (new : List (Nat × Flow)) : Prop where
  grown : Extends fn s s₁
  frame {id : Nat} (hid : id < s.nodes.size) (hfn : id ≠ fn) (hcur : id ≠ f.current) :
    (s₁.node id).role = (s.node id).role
  pending : Pending s₁ low new
  fresh {t : Nat × Flow} (ht : t ∈ new) : (t.1 = fn ∨ s.nodes.size ≤ t.1) ∧
    (cursor s₁ t.1 = f.current ∨ s.nodes.size ≤ cursor s₁ t.1)

/-- A step of building a body at `fn`: the body is built if what is left is. -/
structure Progress (s s₁ : Session) (low fn : Nat) (f : FunctionState) (flow : Flow)
    (new : List (Nat × Flow)) : Prop extends Moves s s₁ low fn f new where
  fits {s' : Session} {own : Nat → Set Int} (hgrows : Grows s₁ s')
    (hframe : ∀ {id : Nat}, id < s₁.nodes.size → (s.nodes.size ≤ id ∨ id = f.current) →
      (∀ t ∈ new, id ≠ t.1 ∧ id ≠ cursor s₁ t.1) → (s'.node id).role = (s₁.node id).role)
    (hfits : ∀ t ∈ new, Fits s₁ s' low (functionOf (s₁.node t.1)) t.2 (own t.1))
    (hsymbols : ∀ t ∈ new, ∀ i ∈ own t.1, s₁.nextSymbol ≤ i)
    (hdisjoint : ∀ t ∈ new, ∀ u ∈ new, t.1 ≠ u.1 → Disjoint (own t.1) (own u.1)) :
    ∃ own₀, Fits s s' low f flow own₀ ∧
      ∀ i ∈ own₀, s.nextSymbol ≤ i ∧ (i < s₁.nextSymbol ∨ ∃ t ∈ new, i ∈ own t.1)

theorem Progress.other (hp : Progress s s₁ low fn f flow new) (hopen : Open s fn f) {g : Nat}
    (hg : Open s g (functionOf (s.node g))) (hne : g ≠ fn) (hcur : cursor s g ≠ f.current) :
    functionOf (s₁.node g) = functionOf (s.node g) ∧ Open s₁ g (functionOf (s₁.node g)) ∧
      commandsAt s₁ (cursor s g) = commandsAt s (cursor s g) := by
  have hrole : (s₁.node g).role = (s.node g).role := hp.frame hg.lt hne (hg.ne_current hopen)
  have hcurrent : (s₁.node (cursor s g)).role = (s.node (cursor s g)).role :=
    hp.frame hg.current_lt (hopen.ne_current hg).symm hcur
  have hf : functionOf (s₁.node g) = functionOf (s.node g) := by rw [functionOf, hrole, functionOf]
  refine ⟨hf, hf ▸ ⟨hg.lt.trans_le hp.grown.grows.size, hrole.trans hg.role, hg.ended,
    hg.current_lt.trans_le hp.grown.grows.size, ?_, ?_⟩, ?_⟩
  · exact (hp.grown.grows.container hg.current_lt).trans hg.block
  · exact (congrArg (fun role ↦ (blockOf { (default : Node) with role }).continuation) hcurrent :).trans hg.stops
  · rw [commandsAt, blockOf, hcurrent]
    rfl

/-- What is pending after a step: the other parts are as before, and apart from the new ones. -/
theorem Pending.step (hpending : Pending s low ((fn, flow) :: us))
    (hp : Progress s s₁ low fn (functionOf (s.node fn)) flow new) : Pending s₁ low (new ++ us) ∧
      ∀ t ∈ us, (t.1 < s.nodes.size ∧ cursor s t.1 < s.nodes.size) ∧
        (t.1 ≠ cursor s fn ∧ cursor s t.1 ≠ cursor s fn) ∧
        (functionOf (s₁.node t.1) = functionOf (s.node t.1) ∧
          commandsAt s₁ (cursor s t.1) = commandsAt s (cursor s t.1)) ∧ t.1 ≠ fn ∧ ∀ u ∈ new, t.1 ≠ u.1 := by
  obtain ⟨-, hopen⟩ := hpending.opened List.mem_cons_self
  obtain ⟨hfn, hus⟩ := List.pairwise_cons.1 hpending.apart
  have hold {t : Nat × Flow} (ht : t ∈ us) := hpending.opened (List.mem_cons_of_mem _ ht)
  have hapart {t : Nat × Flow} (ht : t ∈ us) : t.1 ≠ fn ∧ cursor s t.1 ≠ cursor s fn :=
    ⟨(hfn t ht).1.symm, (hfn t ht).2.symm⟩
  have hother {t : Nat × Flow} (ht : t ∈ us) := hp.other hopen (hold ht).2 (hapart ht).1 (hapart ht).2
  have hcursor {t : Nat × Flow} (ht : t ∈ us) : cursor s₁ t.1 = cursor s t.1 := by
    rw [cursor, (hother ht).1, cursor]
  have hnew {t u : Nat × Flow} (ht : t ∈ us) (hu : u ∈ new) : u.1 ≠ t.1 ∧ cursor s₁ u.1 ≠ cursor s₁ t.1 := by
    rw [hcursor ht]
    have hlt := (hold ht).2.lt
    have hlt' : cursor s t.1 < s.nodes.size := (hold ht).2.current_lt
    obtain ⟨hfn', hcur'⟩ := hp.fresh hu
    refine ⟨?_, ?_⟩
    · rcases hfn' with hu' | hu'
      · exact hu' ▸ (hapart ht).1.symm
      · omega
    · rcases hcur' with hu' | hu'
      · exact hu' ▸ (hapart ht).2.symm
      · omega
  refine ⟨⟨fun {t} ht ↦ ?_, List.pairwise_append.2 ⟨hp.pending.apart, ?_, fun u hu t ht ↦ hnew ht hu⟩⟩,
    fun t ht ↦ ⟨⟨(hold ht).2.lt, (hold ht).2.current_lt⟩, ⟨(hold ht).2.ne_current hopen, (hapart ht).2⟩,
      ⟨(hother ht).1, (hother ht).2.2⟩, (hapart ht).1, fun u hu ↦ (hnew ht hu).1.symm⟩⟩
  · rcases List.mem_append.1 ht with ht | ht
    · exact hp.pending.opened ht
    · exact ⟨(hold ht).1, (hother ht).2.1⟩
  · exact hus.imp_of_mem fun ht hu h ↦ by rwa [hcursor ht, hcursor hu]

/-- All pending bodies were built, with symbols of their own, and nothing else changed. -/
structure Built (s s' : Session) (low : Nat) (tasks : List (Nat × Flow)) (own : Nat → Set Int) : Prop where
  grows : Grows s s'
  sprouts {base : Nat} (hs : Sprouts IsPlain base low s) : Sprouts IsPlain base low s'
  frame {id : Nat} (hid : id < s.nodes.size) (hfree : ∀ t ∈ tasks, id ≠ t.1 ∧ id ≠ cursor s t.1) :
    (s'.node id).role = (s.node id).role
  fits {t : Nat × Flow} (ht : t ∈ tasks) : Fits s s' low (functionOf (s.node t.1)) t.2 (own t.1)
  symbols {t : Nat × Flow} (ht : t ∈ tasks) : ∀ i ∈ own t.1, s.nextSymbol ≤ i ∧ i < s'.nextSymbol
  disjoint {t u : Nat × Flow} (ht : t ∈ tasks) (hu : u ∈ tasks) (hne : t.1 ≠ u.1) :
    Disjoint (own t.1) (own u.1)

theorem Built.step {own : Nat → Set Int} (hpending : Pending s low ((fn, flow) :: us))
    (hp : Progress s s₁ low fn (functionOf (s.node fn)) flow new) (h : Built s₁ s' low (new ++ us) own) :
    ∃ own₀, Built s s' low ((fn, flow) :: us) (Function.update own fn own₀) := by
  obtain ⟨hlow, hopen⟩ := hpending.opened List.mem_cons_self
  obtain ⟨-, hothers⟩ := hpending.step hp
  have hleft {t : Nat × Flow} (ht : t ∈ new) : t ∈ new ++ us := List.mem_append_left _ ht
  have hright {t : Nat × Flow} (ht : t ∈ us) : t ∈ new ++ us := List.mem_append_right _ ht
  have hcursor {t : Nat × Flow} (ht : t ∈ us) : cursor s₁ t.1 = cursor s t.1 := by
    rw [cursor, (hothers t ht).2.2.1.1, cursor]
  have hframe {id : Nat} (hid : id < s₁.nodes.size) (hnew : s.nodes.size ≤ id ∨ id = cursor s fn)
      (hfree : ∀ t ∈ new, id ≠ t.1 ∧ id ≠ cursor s₁ t.1) : (s'.node id).role = (s₁.node id).role := by
    refine h.frame hid fun t ht ↦ ?_
    rcases List.mem_append.1 ht with ht | ht
    · exact hfree t ht
    · obtain ⟨⟨hlt, hlt'⟩, ⟨hne, hne'⟩, -⟩ := hothers t ht
      rw [hcursor ht]
      rcases hnew with hnew | rfl
      · omega
      · exact ⟨hne.symm, hne'.symm⟩
  obtain ⟨own₀, hfits, hown⟩ := hp.fits h.grows hframe (fun t ht ↦ h.fits (hleft ht))
    (fun t ht i hi ↦ (h.symbols (hleft ht) i hi).1) fun t ht u hu ↦ h.disjoint (hleft ht) (hleft hu)
  have hdisjoint {t : Nat × Flow} (ht : t ∈ us) : Disjoint own₀ (own t.1) := by
    refine Set.disjoint_left.2 fun i hi hi' ↦ ?_
    rcases (hown i hi).2 with hlt | ⟨u, hu, hiu⟩
    · exact absurd (h.symbols (hright ht) i hi').1 hlt.not_ge
    · exact Set.disjoint_left.1 (h.disjoint (hleft hu) (hright ht) ((hothers t ht).2.2.2.2 u hu).symm) hiu hi'
  have hself : Function.update own fn own₀ fn = own₀ := Function.update_self ..
  have hother {t : Nat × Flow} (ht : t ∈ us) : Function.update own fn own₀ t.1 = own t.1 :=
    Function.update_of_ne (hothers t ht).2.2.2.1 ..
  refine ⟨own₀, hp.grown.grows.trans h.grows, fun hs ↦ h.sprouts (hp.grown.sprouts hlow hs),
    fun {id} hid hfree ↦ ?_, fun {t} ht ↦ ?_, fun {t} ht i hi ↦ ?_, fun {t u} ht hu hne ↦ ?_⟩
  · have hfn := hfree (fn, flow) List.mem_cons_self
    refine (h.frame (hid.trans_le hp.grown.grows.size) fun t ht ↦ ?_).trans (hp.frame hid hfn.1 hfn.2)
    rcases List.mem_append.1 ht with ht | ht
    · obtain ⟨hnew, hnew'⟩ := hp.fresh ht
      constructor
      · rcases hnew with hnew | hnew
        · exact hnew ▸ hfn.1
        · omega
      · rcases hnew' with hnew | hnew
        · exact hnew ▸ hfn.2
        · omega
    · rw [hcursor ht]
      exact hfree t (List.mem_cons_of_mem _ ht)
  · rcases List.mem_cons.1 ht with rfl | ht
    · change Fits s s' low (functionOf (s.node fn)) flow (Function.update own fn own₀ fn)
      rwa [hself]
    · obtain ⟨-, -, ⟨hf, hcmds⟩, -⟩ := hothers t ht
      have hfits := h.fits (hright ht)
      rw [hother ht]
      rwa [Fits, hf, hcmds] at hfits
  · rcases List.mem_cons.1 ht with rfl | ht
    · obtain ⟨hle, hmade⟩ := hown i (hself ▸ hi)
      refine ⟨hle, ?_⟩
      rcases hmade with hlt | ⟨u, hu, hiu⟩
      · exact hlt.trans_le h.grows.symbols
      · exact (h.symbols (hleft hu) i hiu).2
    · obtain ⟨hle, hlt⟩ := h.symbols (hright ht) i (hother ht ▸ hi)
      exact ⟨hp.grown.grows.symbols.trans hle, hlt⟩
  · rcases List.mem_cons.1 ht with rfl | ht
    · rcases List.mem_cons.1 hu with rfl | hu
      · exact absurd rfl hne
      · rw [hself, hother hu]
        exact hdisjoint hu
    · rw [hother ht]
      rcases List.mem_cons.1 hu with rfl | hu
      · rw [hself]
        exact (hdisjoint ht).symm
      · rw [hother hu]
        exact h.disjoint (hright ht) (hright hu) hne

/-- Only `fn` and its cursor changed. -/
structure Touches (s s' : Session) (fn : Nat) (f f' : FunctionState) (b : BlockState) : Prop where
  grown : Extends fn s s'
  symbols : s'.nextSymbol = s.nextSymbol
  role (id : Nat) : (s'.node id).role =
    if id = fn then .function f' else if id = f.current then .block b else (s.node id).role

theorem Reads.of_grows {id : Nat} {k : Option Nat} (h : Reads s id cmds k) (hgrows : Grows s s')
    (hrole : (s'.node id).role = (s.node id).role) : Reads s' id cmds k :=
  ⟨h.lt.trans_le hgrows.size, by rw [hrole]; exact h.block⟩

section Touching

variable {f' : FunctionState} {b : BlockState}

theorem Touches.reads (h : Touches s s' fn f f' b) (hopen : Open s fn f) :
    Reads s' f.current b.commands.toList b.continuation :=
  ⟨hopen.current_lt.trans_le h.grown.grows.size, b, by
    rw [h.role, if_neg (hopen.ne_current hopen).symm, if_pos rfl], rfl, rfl⟩

theorem Touches.functionOf_eq (h : Touches s s' fn f f' b) : functionOf (s'.node fn) = f' := by
  rw [functionOf, h.role, if_pos rfl]

theorem Touches.opened (h : Touches s s' fn f f' b) (hopen : Open s fn f) (hended : f'.ended = false)
    (hcurrent : f'.current = f.current) (hstops : b.continuation = none) : Open s' fn f' := by
  have hrole : (s'.node f'.current).role = .block b := by
    rw [hcurrent, h.role, if_neg (hopen.ne_current hopen).symm, if_pos rfl]
  refine ⟨hopen.lt.trans_le h.grown.grows.size, by rw [h.role, if_pos rfl], hended, ?_, ?_, ?_⟩
  · exact hcurrent ▸ hopen.current_lt.trans_le h.grown.grows.size
  · rw [Node.isContainer, hrole]
  · rw [blockOf, hrole, hstops]

theorem Open.touches_current (hopen : Open s fn f) (b : BlockState) :
    Touches s (recast s f.current (.block b)) fn f f b := by
  refine ⟨extends_fill hopen.block b fn, rfl, fun id ↦ ?_⟩
  rw [role_recast hopen.current_lt]
  by_cases hid : id = fn
  · subst hid
    rw [if_neg (hopen.ne_current hopen), if_pos rfl, hopen.role]
  · rw [if_neg hid]

theorem Open.touches_function (hopen : Open s fn f) (f' : FunctionState) :
    Touches s (recast s fn (.function f')) fn f f' (blockOf (s.node f.current)) := by
  obtain ⟨b, hrole, -⟩ := hopen.reads.block
  refine ⟨extends_steer hopen.lt hopen.container f' fn, rfl, fun id ↦ ?_⟩
  rw [role_recast hopen.lt]
  by_cases hid : id = f.current
  · subst hid
    rw [if_neg (hopen.ne_current hopen).symm, if_neg (hopen.ne_current hopen).symm, if_pos rfl, blockOf, hrole]
  · rw [if_neg hid]

end Touching

theorem finish_touches (hopen : Open s fn f) (h : finish fn s = (.ok (), s')) :
    Touches s s' fn f { f with ended := true }
      { blockOf (s.node f.current) with continuation := f.continuation } := by
  have hfirst := hopen.touches_current { blockOf (s.node f.current) with continuation := f.continuation }
  have hlt := hopen.lt.trans_le hfirst.grown.grows.size
  have hcontainer := (hfirst.grown.grows.container hopen.lt).trans hopen.container
  simp only [finish, bind_apply, function_apply, andThen_ok, hopen.functionOf_eq, hopen.ended,
    Bool.false_eq_true, not_false_eq_true, if_true, updateBlock_apply, updateFunction_apply,
    hfirst.functionOf_eq] at h
  obtain rfl := (Prod.mk.inj h).2
  refine ⟨hfirst.grown.trans (extends_steer hlt hcontainer _ fn), rfl, fun id ↦ ?_⟩
  rw [role_recast hlt, hfirst.role]
  split <;> rfl

theorem leave_touches (hopen : Open s fn f) (h : leave fn none s = (.ok (), s')) :
    Touches s s' fn f { f with continuation := none } (blockOf (s.node f.current)) := by
  simp only [leave, bind_apply, hopen.checked, andThen_ok, updateFunction_apply,
    hopen.functionOf_eq] at h
  obtain rfl := (Prod.mk.inj h).2
  exact hopen.touches_function _

theorem add_touches (hopen : Open s fn f) (h : add fn cmds s = (.ok (), s')) :
    Touches s s' fn f f (extended (blockOf (s.node f.current)) cmds) := by
  simp only [add, bind_apply, hopen.checked, andThen_ok, function_apply, append_apply, hopen.functionOf_eq] at h
  obtain rfl := (Prod.mk.inj h).2
  exact hopen.touches_current _

theorem progress_done (hopen : Open s fn f) (h : finish fn s = (.ok (), s')) :
    Progress s s' low fn f .done [] := by
  have ht := finish_touches hopen h
  have hreads := ht.reads hopen
  refine ⟨⟨ht.grown, fun hid hfn hcur ↦ ?_, ⟨by simp, by simp⟩, by simp⟩, fun hgrows hframe _ _ _ ↦
    ⟨∅, ⟨[], f.continuation, ?_, .done⟩, by simp⟩⟩
  · rw [ht.role, if_neg hfn, if_neg hcur]
  · rw [List.append_nil]
    exact hreads.of_grows hgrows (hframe hreads.lt (.inr rfl) (by simp))

theorem Touches.progress {f' : FunctionState} {b : BlockState} (h : Touches s s₁ fn f f' b) (hlow : low ≤ fn)
    (hopen : Open s₁ fn f') (hcurrent : f'.current = f.current)
    (hfits : ∀ {s' own}, Fits s₁ s' low f' next own → ∃ own₀ ⊆ own, Fits s s' low f flow own₀) :
    Progress s s₁ low fn f flow [(fn, next)] := by
  have hf := h.functionOf_eq
  refine ⟨⟨h.grown, fun hid hfn hcur ↦ ?_, ⟨fun ht ↦ ?_, by simp⟩, fun ht ↦ ?_⟩,
    fun {s' own} _ _ hnext hsymbols _ ↦ ?_⟩
  · rw [h.role, if_neg hfn, if_neg hcur]
  · obtain rfl := List.mem_singleton.1 ht
    exact ⟨hlow, hf.symm ▸ hopen⟩
  · obtain rfl := List.mem_singleton.1 ht
    exact ⟨.inl rfl, .inl (by simp only [cursor, hf, hcurrent])⟩
  · have hnext := hnext (fn, next) (by simp)
    rw [hf] at hnext
    obtain ⟨own₀, hsub, hfits⟩ := hfits hnext
    refine ⟨own₀, hfits, fun i hi ↦ ⟨?_, .inr ⟨_, List.mem_singleton_self _, hsub hi⟩⟩⟩
    exact h.symbols ▸ hsymbols (fn, next) (by simp) i (hsub hi)

theorem progress_leave (hlow : low ≤ fn) (hopen : Open s fn f) (h : leave fn none s = (.ok (), s₁)) :
    Progress s s₁ low fn f .leave [(fn, .done)] := by
  have ht := leave_touches hopen h
  refine ht.progress hlow (ht.opened hopen hopen.ended rfl hopen.stops) rfl ?_
  rintro s' own ⟨cmds, k, hreads, hshape⟩
  cases hshape
  refine ⟨∅, Set.empty_subset _, [], none, ?_, .leave⟩
  rw [(ht.reads hopen).commandsAt_eq] at hreads
  exact hreads

theorem progress_add (hlow : low ≤ fn) (hopen : Open s fn f) (h : add fn cmds s = (.ok (), s₁)) :
    Progress s s₁ low fn f (.add cmds next) [(fn, next)] := by
  have ht := add_touches hopen h
  refine ht.progress hlow (ht.opened hopen hopen.ended rfl hopen.stops) rfl ?_
  rintro s' own ⟨cmds', k, hreads, hshape⟩
  refine ⟨own, subset_rfl, cmds ++ cmds', k, ?_, .add hshape⟩
  rw [(ht.reads hopen).commandsAt_eq, commands_extended, List.append_assoc] at hreads
  exact hreads

theorem Side.functionOf_eq {k b e : Nat} (h : Side s s' again k b e cmds) : functionOf (s'.node b) =
      { entry := e, current := e, continuation := some k, reentrant := again } := h.opened.functionOf_eq

theorem EntersAt.of_grows {v : Score} {e x : Nat} (h : EntersAt s again v e x) (hgrows : Grows s s')
    (he : e < s.nodes.size) (hrole : again = true → (s'.node x).role = (s.node x).role) : EntersAt s' again v e x := by
  rw [EntersAt] at h ⊢
  split at h
  · rw [if_pos ‹_›, hgrows.path he]
    exact h.of_grows hgrows (hrole ‹_›)
  · rwa [if_neg ‹_›]

theorem isGenerated_nextPlayer {text : String} (htext : IsPlain text)
    (hpath : ∀ name ∈ (s.node fn).path, IsPlain name) : IsGenerated (nextPlayer s fn text) :=
  ⟨text, _, rfl, htext, hpath⟩

section Joining

variable {cmds : List Instruction} {j x : Nat} {next : Flow} {bodies : List (Nat × Flow)} {own : Set Int}

def Sides (s s' : Session) (j : Nat) (bodies : List (Nat × Flow)) : Prop :=
  ∀ t ∈ bodies, ∃ again k e cmds, Side s s' again k t.1 e cmds ∧ e < j

theorem Joins.moves (h : Joins s s₁ fn f cmds j) (hlow : low ≤ fn) (hopen : Open s fn f)
    (hsides : Sides s s₁ j bodies)
    (hapart : bodies.Pairwise fun t u ↦ t.1 ≠ u.1 ∧ cursor s₁ t.1 ≠ cursor s₁ u.1) :
    Moves s s₁ low fn f (bodies ++ [(fn, next)]) := by
  have hnext := h.next.functionOf_eq
  refine ⟨h.grown, h.frame, ⟨fun ht ↦ ?_, ?_⟩, fun ht ↦ ?_⟩
  · rcases List.mem_append.1 ht with ht | ht
    · obtain ⟨again, k, e, cmds', hside, -⟩ := hsides _ ht
      exact ⟨hlow.trans (hopen.lt.le.trans hside.fresh), hside.functionOf_eq.symm ▸ hside.opened⟩
    · obtain rfl := List.mem_singleton.1 ht
      exact ⟨hlow, hnext.symm ▸ h.next⟩
  · refine List.pairwise_append.2 ⟨hapart, by simp, fun t ht u hu ↦ ?_⟩
    obtain rfl := List.mem_singleton.1 hu
    obtain ⟨again, k, e, cmds', hside, hne⟩ := hsides t ht
    refine ⟨(hopen.lt.trans_le hside.fresh).ne', ?_⟩
    simpa only [cursor, hside.functionOf_eq, hnext] using hne.ne
  · rcases List.mem_append.1 ht with ht | ht
    · obtain ⟨again, k, e, cmds', hside, -⟩ := hsides _ ht
      exact ⟨.inr hside.fresh, .inr (by simpa only [cursor, hside.functionOf_eq] using hside.entry_fresh)⟩
    · obtain rfl := List.mem_singleton.1 ht
      exact ⟨.inl rfl, .inr (by simpa only [cursor, hnext] using h.fresh)⟩

theorem Joins.current_free (h : Joins s s₁ fn f cmds j) (hopen : Open s fn f) (hsides : Sides s s₁ j bodies) :
    ∀ t ∈ bodies ++ [(fn, next)], f.current ≠ t.1 ∧ f.current ≠ cursor s₁ t.1 := by
  intro t ht
  rcases List.mem_append.1 ht with ht | ht
  · obtain ⟨again, k, e, cmds', hside, -⟩ := hsides t ht
    rw [cursor, hside.functionOf_eq]
    exact ⟨(hopen.current_lt.trans_le hside.fresh).ne, (hopen.current_lt.trans_le hside.entry_fresh).ne⟩
  · obtain rfl := List.mem_singleton.1 ht
    simp only [cursor, h.next.functionOf_eq]
    exact ⟨(hopen.ne_current hopen).symm, (hopen.current_lt.trans_le h.fresh).ne⟩

theorem Joins.block_free {cmds' : List Instruction} {k : Option Nat} (h : Joins s s₁ fn f cmds j)
    (hsides : Sides s s₁ x bodies) (hreads : Reads s₁ x cmds' k) (hlt : x < j) :
    ∀ t ∈ bodies ++ [(fn, next)], x ≠ t.1 ∧ x ≠ cursor s₁ t.1 := by
  have hcontainer {g : Nat} {f' : FunctionState} (hg : Open s₁ g f') : x ≠ g := by
    rintro rfl
    have hblock := hreads.notContainer
    rw [hg.container] at hblock
    cases hblock
  intro t ht
  rcases List.mem_append.1 ht with ht | ht
  · obtain ⟨again, k, e, cmds', hside, hne⟩ := hsides t ht
    rw [cursor, hside.functionOf_eq]
    exact ⟨hcontainer hside.opened, hne.ne'⟩
  · obtain rfl := List.mem_singleton.1 ht
    simp only [cursor, h.next.functionOf_eq]
    exact ⟨hcontainer h.next, hlt.ne⟩

theorem Side.fits {k b e : Nat} (h : Side s s₁ again k b e cmds)
    (hfits : Fits s₁ s' low (functionOf (s₁.node b)) flow own) :
    ∃ cmds' k', Reads s' e (cmds ++ cmds') k' ∧ Shape s' low again (some k) flow own cmds' k' := by
  rw [h.functionOf_eq] at hfits
  obtain ⟨cmds', k', hreads, hshape⟩ := hfits
  exact ⟨cmds', k', h.commands ▸ hreads, hshape⟩

theorem Joins.fits (h : Joins s s₁ fn f cmds j)
    (hfits : Fits s₁ s' low (functionOf (s₁.node fn)) flow own) :
    ∃ cmds' k', Reads s' j cmds' k' ∧ Shape s' low f.reentrant f.continuation flow own cmds' k' := by
  rw [h.next.functionOf_eq] at hfits
  obtain ⟨cmds', k', hreads, hshape⟩ := hfits
  rw [h.empty] at hreads
  exact ⟨cmds', k', hreads, hshape⟩

end Joining

theorem symbols_insert {own : Set Int} (hsymbol : s₁.nextSymbol = s.nextSymbol + 1)
    (hown : ∀ i ∈ own, s₁.nextSymbol ≤ i) :
    s.nextSymbol ∉ own ∧ ∀ i ∈ insert s.nextSymbol own,
      s.nextSymbol ≤ i ∧ (i < s₁.nextSymbol ∨ i ∈ own) := by
  refine ⟨fun hmem ↦ ?_, fun i hi ↦ ?_⟩
  · have := hown _ hmem
    omega
  · rcases Set.mem_insert_iff.1 hi with rfl | hi
    · exact ⟨le_rfl, .inl (by omega)⟩
    · have := hown i hi
      exact ⟨by omega, .inr hi⟩

theorem branch_moves {withElse : Bool} {r : Nat × Option Nat} (bodies : List (Nat × Flow)) (next : Flow)
    (hlow : low ≤ fn) (hopen : Open s fn f) (h : branch fn c withElse s = (.ok r, s₁))
    (hmem : ∀ t ∈ bodies, t.1 ∈ sidesOf s.nodes.size withElse) (hnodup : bodies.Pairwise fun t u ↦ t.1 ≠ u.1) :
    ∃ x j cmds, s.nodes.size ≤ x ∧ s.nodes.size ≤ j ∧ Joins s s₁ fn f cmds j ∧
      (∀ k ∈ sidesOf s.nodes.size withElse, Side s s₁ f.reentrant j k (k + 1) []) ∧
      Moves s s₁ low fn f (bodies ++ [(fn, next)]) ∧
      ∀ {s' : Session}, Grows s₁ s' →
        (∀ {id : Nat}, id < s₁.nodes.size → (s.nodes.size ≤ id ∨ id = f.current) →
          (∀ t ∈ bodies ++ [(fn, next)], id ≠ t.1 ∧ id ≠ cursor s₁ t.1) →
          (s'.node id).role = (s₁.node id).role) →
        let v : Score := ⟨.sym (nextPlayer s fn "_cond"), s'.objective⟩
        EntersAt s' f.reentrant v (s.nodes.size + 1) x ∧
          Reads s' f.current (commandsAt s f.current ++ branchCommands v c (s'.node x).path
            (s'.node (if withElse then s.nodes.size + 3 else j)).path) none := by
  obtain ⟨rfl, hsymbol, x, j, hjoins, henters, hsides, hxj⟩ := branch_spec hopen h
  have hbodies {l : Nat} (hl : ∀ t ∈ bodies, t.1 + 1 < l) : Sides s s₁ l bodies := fun t ht ↦
    ⟨_, _, _, _, (hsides t.1 (hmem t ht)).1, hl t ht⟩
  have hbodies' : Sides s s₁ j bodies := hbodies fun t ht ↦ (hsides t.1 (hmem t ht)).2.1
  have hy := hsides s.nodes.size (by simp [sidesOf])
  have hjlt : j < s₁.nodes.size := hjoins.next.current_lt
  refine ⟨x, j, _, ?_, hjoins.fresh, hjoins, fun k hk ↦ (hsides k hk).1,
    hjoins.moves hlow hopen hbodies' ?_, fun {s'} hgrows hframe ↦ ?_⟩
  · rw [EntersAt] at henters
    split at henters
    · have := hy.2.2 ‹_›
      omega
    · omega
  · refine hnodup.imp_of_mem fun {t u} ht hu hne ↦ ⟨hne, ?_⟩
    simp only [cursor, (hsides t.1 (hmem t ht)).1.functionOf_eq, (hsides u.1 (hmem u hu)).1.functionOf_eq]
    omega
  · have hobjective : s'.objective = s.objective := hgrows.objective.trans hjoins.grown.grows.objective
    have hother : (if withElse then s.nodes.size + 3 else j) < s₁.nodes.size := by
      split
      · exact (hsides (s.nodes.size + 2) (by simp [sidesOf, *])).2.1.trans hjlt
      · exact hjlt
    rw [hobjective, hgrows.path hother, hgrows.path (hxj.trans hjlt)]
    refine ⟨henters.of_grows hgrows hy.1.opened.current_lt fun hagain ↦ ?_,
      hjoins.current.of_grows hgrows (hframe hjoins.current.lt (.inr rfl) (hjoins.current_free hopen hbodies'))⟩
    have hx := hy.2.2 hagain
    have hreads := henters
    rw [EntersAt, if_pos hagain] at hreads
    exact hframe hreads.lt (.inl (by omega))
      (hjoins.block_free (hbodies fun t ht ↦ (hsides t.1 (hmem t ht)).2.2 hagain) hreads hxj)

section Bodies

variable (hlow : low ≤ fn) (hopen : Open s fn f) (hpath : ∀ name ∈ (s.node fn).path, IsPlain name)

include hlow hopen hpath

theorem progress_ifThen {yes : Flow} {b : Nat} (h : ifThen fn c s = (.ok b, s₁)) :
    Progress s s₁ low fn f (.ifThen c yes next) [(b, yes), (fn, next)] := by
  obtain ⟨r, s₂, hbranch, hr⟩ := bind_eq_ok.1 h
  obtain ⟨hb, rfl⟩ := Prod.mk.inj hr
  obtain ⟨rfl, hsymbol, -⟩ := branch_spec hopen hbranch
  obtain rfl : s.nodes.size = b := Except.ok.inj hb
  obtain ⟨x, j, cmds, hx, hj, hjoins, hsides, hmoves, hkept⟩ :=
    branch_moves [(s.nodes.size, yes)] next hlow hopen hbranch (by simp [sidesOf]) (by simp)
  have hlow' := hlow.trans hopen.lt.le
  refine ⟨hmoves, fun {s' own} hgrows hframe hfits hsymbols hdisjoint ↦ ?_⟩
  obtain ⟨cmds, k₁, hyes, hyesShape⟩ := (hsides s.nodes.size (by simp [sidesOf])).fits (hfits _ List.mem_cons_self)
  obtain ⟨cmds', k₂, hnext, hnextShape⟩ := hjoins.fits (hfits (fn, next) (by simp))
  obtain ⟨henters, hreads⟩ := hkept hgrows hframe
  simp only [Bool.false_eq_true, if_false] at hreads
  have hown : ∀ i ∈ own s.nodes.size ∪ own fn, s₂.nextSymbol ≤ i := fun i hi ↦
    hi.elim (hsymbols _ List.mem_cons_self i) (hsymbols (fn, next) (by simp) i)
  obtain ⟨hfresh, hinsert⟩ := symbols_insert hsymbol hown
  refine ⟨insert s.nextSymbol (own s.nodes.size ∪ own fn), ⟨_, none, hreads, ?_⟩, fun i hi ↦ ?_⟩
  · exact .ifThen (isGenerated_nextPlayer (show IsPlain "_cond" from rfl) hpath)
      ⟨by omega, by omega, by omega⟩ henters hyes hnext hyesShape hnextShape hfresh
      (hdisjoint _ List.mem_cons_self (fn, next) (by simp) hopen.lt.ne')
  · exact ⟨(hinsert i hi).1, (hinsert i hi).2.imp_right fun hi ↦ by simpa using hi⟩

theorem progress_ifElse {yes no : Flow} {b b' : Nat} (h : branch fn c true s = (.ok (b, some b'), s₁)) :
    Progress s s₁ low fn f (.ifElse c yes no next) [(b, yes), (b', no), (fn, next)] := by
  obtain ⟨hr, hsymbol, -⟩ := branch_spec hopen h
  obtain ⟨rfl, rfl⟩ : b = s.nodes.size ∧ b' = s.nodes.size + 2 := by simpa using hr
  obtain ⟨x, j, cmds, hx, hj, hjoins, hsides, hmoves, hkept⟩ :=
    branch_moves [(s.nodes.size, yes), (s.nodes.size + 2, no)] next hlow hopen h (by simp [sidesOf])
      (by simp)
  have hlt := hopen.lt
  refine ⟨hmoves, fun {s' own} hgrows hframe hfits hsymbols hdisjoint ↦ ?_⟩
  obtain ⟨cmds, k₁, hyes, hyesShape⟩ := (hsides s.nodes.size (by simp [sidesOf])).fits (hfits _ List.mem_cons_self)
  obtain ⟨cmds₂, k₂, hno, hnoShape⟩ := (hsides (s.nodes.size + 2) (by simp [sidesOf])).fits
    (hfits (s.nodes.size + 2, no) (by simp))
  obtain ⟨cmds', k₃, hnext, hnextShape⟩ := hjoins.fits (hfits (fn, next) (by simp))
  obtain ⟨henters, hreads⟩ := hkept hgrows hframe
  simp only [if_true] at hreads
  have hown : ∀ i ∈ own s.nodes.size ∪ own (s.nodes.size + 2) ∪ own fn, s₁.nextSymbol ≤ i := fun i hi ↦
    hi.elim (fun hi ↦ hi.elim (hsymbols _ List.mem_cons_self i) (hsymbols (s.nodes.size + 2, no) (by simp) i))
      (hsymbols (fn, next) (by simp) i)
  obtain ⟨hfresh, hinsert⟩ := symbols_insert hsymbol hown
  refine ⟨insert s.nextSymbol (own s.nodes.size ∪ own (s.nodes.size + 2) ∪ own fn), ⟨_, none, hreads, ?_⟩,
    fun i hi ↦ ?_⟩
  · refine .ifElse (isGenerated_nextPlayer (show IsPlain "_cond" from rfl) hpath)
      ⟨by omega, by omega, by omega, by omega⟩ henters hyes hno hnext hyesShape hnoShape hnextShape hfresh
      ⟨?_, Set.disjoint_union_left.2 ⟨?_, ?_⟩⟩
    · exact hdisjoint (s.nodes.size, yes) (by simp) (s.nodes.size + 2, no) (by simp) (by simp)
    · exact hdisjoint (s.nodes.size, yes) (by simp) (fn, next) (by simp) hlt.ne'
    · exact hdisjoint (s.nodes.size + 2, no) (by simp) (fn, next) (by simp) (by simp; omega)
  · exact ⟨(hinsert i hi).1, (hinsert i hi).2.imp_right fun hi ↦ by simpa [or_assoc] using hi⟩

theorem progress_loop {body : Flow} {b : Nat} (h : loop fn c s = (.ok b, s₁)) :
    Progress s s₁ low fn f (.loop c body next) [(b, body), (fn, next)] := by
  obtain ⟨rfl, hsymbol, hjoins, hside, hcheck⟩ := loop_spec hopen h
  have hbodies {l : Nat} (hl : s.nodes.size + 1 < l) : Sides s s₁ l [(s.nodes.size, body)] :=
    List.forall_mem_singleton.2 ⟨_, _, _, _, hside, hl⟩
  have hlt := hopen.lt
  have hbodies' : Sides s s₁ (s.nodes.size + 3) [(s.nodes.size, body)] := hbodies (by omega)
  refine ⟨hjoins.moves hlow hopen hbodies' (by simp), fun {s' own} hgrows hframe hfits hsymbols hdisjoint ↦ ?_⟩
  obtain ⟨cmds, k₁, hbody, hbodyShape⟩ := hside.fits (hfits _ List.mem_cons_self)
  obtain ⟨cmds', k₂, hnext, hnextShape⟩ := hjoins.fits (hfits (fn, next) (by simp))
  have hobjective : s.objective = s'.objective :=
    (hgrows.objective.trans hjoins.grown.grows.objective).symm
  have hreads := hjoins.current.of_grows hgrows
    (hframe hjoins.current.lt (.inr rfl) (hjoins.current_free hopen hbodies'))
  have hcheck' := hcheck.of_grows hgrows
    (hframe hcheck.lt (.inl (by omega)) (hjoins.block_free (hbodies (by omega)) hcheck (by omega)))
  have he : s.nodes.size + 1 < s₁.nodes.size := hside.opened.current_lt
  have hj : s.nodes.size + 3 < s₁.nodes.size := hjoins.next.current_lt
  rw [loopScore, hobjective, ← hgrows.path hcheck.lt] at hreads
  rw [loopScore, hobjective, ← hgrows.path he, ← hgrows.path hj] at hcheck'
  rw [loopScore, hobjective] at hbody
  have hown : ∀ i ∈ own s.nodes.size ∪ own fn, s₁.nextSymbol ≤ i := fun i hi ↦
    hi.elim (hsymbols _ List.mem_cons_self i) (hsymbols (fn, next) (by simp) i)
  obtain ⟨hfresh, hinsert⟩ := symbols_insert hsymbol hown
  refine ⟨insert s.nextSymbol (own s.nodes.size ∪ own fn), ⟨_, none, hreads, ?_⟩, fun i hi ↦ ?_⟩
  · exact .loop (isGenerated_nextPlayer (show IsPlain "_iteration_number" from rfl) hpath)
      ⟨by omega, by omega, by omega⟩ hbody hcheck' hnext hbodyShape hnextShape hfresh
      (hdisjoint _ List.mem_cons_self (fn, next) (by simp) hopen.lt.ne')
  · exact ⟨(hinsert i hi).1, (hinsert i hi).2.imp_right fun hi ↦ by simpa using hi⟩

theorem Begins.progress (h : Begins fn s flow new s₁) : Progress s s₁ low fn f flow new := by
  cases h with
  | done h => exact progress_done hopen h
  | leave h => exact progress_leave hlow hopen h
  | add h => exact progress_add hlow hopen h
  | ifThen h => exact progress_ifThen hlow hopen hpath h
  | ifElse h => exact progress_ifElse hlow hopen hpath h
  | loop h => exact progress_loop hlow hopen hpath h

end Bodies

section Functions

variable {parent : Nat} {name entryName description : String} {tags : List Path}

end Functions

end CommandPack.Graph
