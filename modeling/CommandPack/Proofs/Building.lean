import Mathlib
import CommandPack.Proofs.Lines
import CommandPack.Proofs.Growing

/-!
Building branches and loops. Each step adds instructions at the cursor of a function that is still
open, makes bodies and blocks below it, and touches nothing else.
-/

namespace CommandPack.Graph

open Stateful

variable {again withElse : Bool} {p : Nat} {bodies : List Nat} {entryName : String} {r : Nat × Option Nat}
  {s s' s₁ s₂ : Session} {id k fn fn' : Nat} {f : FunctionState} {c : Condition} {name : String}
  {cmds : List Instruction}

/-- A name all of whose characters may stand in a name of a command. -/
def IsPlain (name : String) : Prop := name.toList.all Machine.isNameChar = true

theorem IsPlain.append {a b : String} (ha : IsPlain a) (hb : IsPlain b) : IsPlain (a ++ b) := by
  rw [IsPlain, String.toList_append, List.all_append, ha, hb, Bool.and_self]

theorem isPlain_toString (n : Nat) : IsPlain (toString n) := by
  rw [IsPlain, List.all_eq_true]
  intro c hc
  have hdigit : c.isDigit = true :=
    Nat.isDigit_of_mem_toDigits (b := 10) (n := n) (by decide) (by decide) (by simpa using hc)
  simp only [Char.isDigit, Bool.and_eq_true, decide_eq_true_eq, ge_iff_le, UInt32.le_iff_toNat_le] at hdigit
  obtain ⟨hlow, hhigh⟩ : 48 ≤ c.toNat ∧ c.toNat ≤ 57 := hdigit
  rw [← Char.ofNat_toNat c]
  generalize c.toNat = k at hlow hhigh
  interval_cases k <;> rfl

/-- A later graph has new nodes below `fn` and below new nodes only, with plain names. -/
structure Extends (fn : Nat) (s s' : Session) : Prop where
  grows : Grows s s'
  sprouts {base low : Nat} (hlow : low ≤ fn) (hs : Sprouts IsPlain base low s) : Sprouts IsPlain base low s'

theorem Extends.trans (h₁ : Extends fn s s₁) (h₂ : Extends fn s₁ s₂) : Extends fn s s₂ :=
  ⟨h₁.grows.trans h₂.grows, fun hlow hs ↦ h₂.sprouts hlow (h₁.sprouts hlow hs)⟩

theorem Extends.mono (h : Extends fn s s') (hle : fn' ≤ fn) : Extends fn' s s' :=
  ⟨h.grows, fun hlow hs ↦ h.sprouts (hlow.trans hle) hs⟩

theorem extends_made (hfn : fn < s.nodes.size) (hcontainer : (s.node fn).isContainer = true)
    (hname : IsPlain name) (role : Role) : Extends fn s (made s fn name role) :=
  ⟨grows_made hfn, fun hlow hs ↦ hs.made hfn (.inl hlow) hcontainer hname role⟩

theorem extends_minted (fn : Nat) (s : Session) : Extends fn s (minted s) :=
  ⟨⟨before_of_nodes rfl rfl, by simp [minted], rfl⟩, fun _ hs ↦ hs.minted⟩

theorem extends_recast {role : Role} (hk : k < s.nodes.size) (h : Before s (recast s k role)) (fn : Nat) :
    Extends fn s (recast s k role) := ⟨⟨h, le_rfl, rfl⟩, fun _ hs ↦ hs.recast hk h⟩

theorem extends_fill (hk : IsBlock s k) (b : BlockState) (fn : Nat) : Extends fn s (recast s k (.block b)) :=
  extends_recast hk.lt (before_fill hk b) fn

theorem extends_steer (hk : k < s.nodes.size) (hcontainer : (s.node k).isContainer = true) (f : FunctionState) (fn : Nat) :
    Extends fn s (recast s k (.function f)) := extends_recast hk (before_steer hk hcontainer f) fn

theorem extends_bodyMade {description : String} (hfn : fn < s.nodes.size)
    (hcontainer : (s.node fn).isContainer = true) (hname : IsPlain name) (hentry : IsPlain entryName) :
    Extends fn s (bodyMade s fn name entryName description again) := by
  let body : Role := .function { entry := s.nodes.size + 1, current := s.nodes.size + 1 }
  have hbody : ((made s fn name body).node s.nodes.size).isContainer = true := by
    simp [Node.isContainer, role_made hfn, body]
  have hmade := (extends_made hfn hcontainer hname body).trans
    ((extends_made (by simp) hbody hentry (.block { description })).mono hfn.le)
  refine hmade.trans (extends_steer (by simp) ?_ _ fn)
  rw [Node.isContainer, role_made (by simp), role_made hfn]
  simp [body]

/-- A function that takes more instructions, in a block that goes on nowhere yet. -/
structure Open (s : Session) (fn : Nat) (f : FunctionState) : Prop where
  lt : fn < s.nodes.size
  role : (s.node fn).role = .function f
  ended : f.ended = false
  current_lt : f.current < s.nodes.size
  block : (s.node f.current).isContainer = false
  stops : (blockOf (s.node f.current)).continuation = none

theorem Open.functionOf_eq (h : Open s fn f) : functionOf (s.node fn) = f := by
  rw [functionOf, h.role]

theorem Open.checked (h : Open s fn f) : checkOpen fn s = (.ok (), s) :=
  checkOpen_eq_ok.2 ⟨by rw [h.functionOf_eq, h.ended], rfl⟩

theorem Open.container (h : Open s fn f) : (s.node fn).isContainer = true := by
  rw [Node.isContainer, h.role]

theorem Open.ne_current {g : FunctionState} (h : Open s fn f) (h' : Open s fn' g) : fn ≠ g.current := by
  rintro rfl
  have hblock := h'.block
  rw [h.container] at hblock
  cases hblock

/-- The graph in which a body goes on with the block `j`. -/
def resumed (s : Session) (j fn : Nat) : Session :=
  recast s fn (.function { functionOf (s.node fn) with continuation := some j })

/-- The graph in which the bodies of a branch or loop go on with `k`, its instructions are at the
cursor, and the cursor is at `j`. -/
def joined (s : Session) (fn k j : Nat) (cmds : List Instruction) (bodies : List Nat) : Session :=
  let cur := (functionOf (s.node fn)).current
  let s := bodies.foldl (resumed · k) (recast s cur (.block (extended (blockOf (s.node cur)) cmds)))
  recast s fn (.function { functionOf (s.node fn) with current := j })

theorem size_resumed (s : Session) (j : Nat) (bodies : List Nat) :
    (bodies.foldl (resumed · j) s).nodes.size = s.nodes.size := by
  induction bodies generalizing s with
  | nil => rfl
  | cons b bodies ih => rw [List.foldl_cons, ih, resumed, size_recast]

theorem toScratch_resumed (s : Session) (j : Nat) (bodies : List Nat) :
    (bodies.foldl (resumed · j) s).toScratch = s.toScratch := by
  induction bodies generalizing s with
  | nil => rfl
  | cons b bodies ih => rw [List.foldl_cons, ih, resumed, toScratch_recast]

theorem path_resumed {j : Nat} (hlt : ∀ b ∈ bodies, b < s.nodes.size) (id : Nat) :
    ((bodies.foldl (resumed · j) s).node id).path = (s.node id).path := by
  induction bodies generalizing s with
  | nil => rfl
  | cons b bodies ih =>
    obtain ⟨hb, hlt⟩ := List.forall_mem_cons.1 hlt
    rw [List.foldl_cons, ih (by simpa [resumed] using hlt), resumed, path_recast hb]

theorem role_resumed {j : Nat} (hlt : ∀ b ∈ bodies, b < s.nodes.size) (id : Nat) :
    ((bodies.foldl (resumed · j) s).node id).role =
      if id ∈ bodies then .function { functionOf (s.node id) with continuation := some j }
      else (s.node id).role := by
  induction bodies generalizing s with
  | nil => simp
  | cons b bodies ih =>
    obtain ⟨hb, hlt⟩ := List.forall_mem_cons.1 hlt
    rw [List.foldl_cons, ih (by simpa [resumed] using hlt), resumed, functionOf, role_recast hb]
    by_cases hid : id = b
    · subst hid
      simp
    · simp [hid, functionOf]

theorem extends_resumed {j : Nat} (hlt : ∀ b ∈ bodies, b < s.nodes.size)
    (hcontainer : ∀ b ∈ bodies, (s.node b).isContainer = true) (fn : Nat) :
    Extends fn s (bodies.foldl (resumed · j) s) := by
  induction bodies generalizing s with
  | nil => exact ⟨.refl s, fun _ hs ↦ hs⟩
  | cons b bodies ih =>
    obtain ⟨hb, hlt⟩ := List.forall_mem_cons.1 hlt
    obtain ⟨hbc, hcontainer⟩ := List.forall_mem_cons.1 hcontainer
    have hfirst : Extends fn s (resumed s j b) := extends_steer hb hbc _ fn
    refine hfirst.trans (ih (by simpa [resumed] using hlt) fun b' hb' ↦ ?_)
    exact (hfirst.grows.container (hlt b' hb')).trans (hcontainer b' hb')

section Joining

variable {j : Nat} {bodies : List Nat} (hopen : Open s fn f) (hlt : ∀ b ∈ bodies, b < s.nodes.size)

@[simp] theorem size_joined (s : Session) (fn k j : Nat) (cmds : List Instruction) (bodies : List Nat) :
    (joined s fn k j cmds bodies).nodes.size = s.nodes.size := by
  simp [joined, size_resumed]

@[simp] theorem toScratch_joined (s : Session) (fn k j : Nat) (cmds : List Instruction)
    (bodies : List Nat) : (joined s fn k j cmds bodies).toScratch = s.toScratch := by
  rw [joined, toScratch_recast, toScratch_resumed, toScratch_recast]

include hopen hlt

theorem path_joined (id : Nat) : ((joined s fn k j cmds bodies).node id).path = (s.node id).path := by
  simp only [joined, hopen.functionOf_eq]
  rw [path_recast (by simpa [size_resumed] using hopen.lt), path_resumed (by simpa using hlt),
    path_recast hopen.current_lt]

theorem role_joined (hbodies : ∀ b ∈ bodies, b ≠ fn ∧ b ≠ f.current) (cmds : List Instruction)
    (id : Nat) :
    ((joined s fn k j cmds bodies).node id).role =
      if id = fn then .function { f with current := j }
      else if id ∈ bodies then .function { functionOf (s.node id) with continuation := some k }
      else if id = f.current then .block (extended (blockOf (s.node f.current)) cmds)
      else (s.node id).role := by
  have hne : fn ≠ f.current := hopen.ne_current hopen
  have hfn : fn ∉ bodies := fun h ↦ (hbodies fn h).1 rfl
  have hlt' : ∀ b ∈ bodies, b < (recast s f.current
      (.block (extended (blockOf (s.node f.current)) cmds))).nodes.size := by simpa using hlt
  simp only [joined, hopen.functionOf_eq]
  rw [role_recast (by simpa [size_resumed] using hopen.lt), functionOf, role_resumed hlt',
    role_resumed hlt', if_neg hfn, role_recast hopen.current_lt, if_neg hne, hopen.role,
    role_recast hopen.current_lt]
  by_cases hid : id = fn
  · rw [if_pos hid, if_pos hid]
  · rw [if_neg hid, if_neg hid]
    by_cases hmem : id ∈ bodies
    · rw [if_pos hmem, if_pos hmem, functionOf, role_recast hopen.current_lt, if_neg (hbodies id hmem).2]
      rfl
    · rw [if_neg hmem, if_neg hmem]

theorem extends_joined (hcontainer : ∀ b ∈ bodies, (s.node b).isContainer = true) :
    Extends fn s (joined s fn k j cmds bodies) := by
  simp only [joined, hopen.functionOf_eq]
  have hfirst := extends_fill hopen.block (extended (blockOf (s.node f.current)) cmds) fn
  have hsecond := hfirst.trans (extends_resumed (j := k) (by simpa using hlt)
    (fun b hb ↦ (hfirst.grows.container (hlt b hb)).trans (hcontainer b hb)) fn)
  exact hsecond.trans (extends_steer (by simpa [size_resumed] using hopen.lt)
    ((hsecond.grows.container hopen.lt).trans hopen.container) _ fn)

end Joining

def commandsAt (s : Session) (id : Nat) : List Instruction := (blockOf (s.node id)).commands.toList

/-- A block holds instructions and goes on with `k`. -/
structure Reads (s : Session) (id : Nat) (cmds : List Instruction) (k : Option Nat) : Prop where
  lt : id < s.nodes.size
  block : ∃ b, (s.node id).role = .block b ∧ b.commands.toList = cmds ∧ b.continuation = k

theorem Open.reads (h : Open s fn f) : Reads s f.current (commandsAt s f.current) none := by
  refine ⟨h.current_lt, ?_⟩
  have hblock := h.block
  have hstops := h.stops
  rw [Node.isContainer] at hblock
  rw [blockOf] at hstops
  cases hrole : (s.node f.current).role with
  | block b =>
    rw [hrole] at hstops
    exact ⟨b, rfl, by rw [commandsAt, blockOf, hrole], hstops⟩
  | _ => simp [hrole] at hblock

theorem Reads.commandsAt_eq {k : Option Nat} (h : Reads s id cmds k) : commandsAt s id = cmds := by
  obtain ⟨b, hrole, hcmds, -⟩ := h.block
  rw [commandsAt, blockOf, hrole, hcmds]

/-- A new body that goes on with `k`. -/
structure Side (s s' : Session) (again : Bool) (k body e : Nat) (cmds : List Instruction) : Prop where
  fresh : s.nodes.size ≤ body
  entry_fresh : s.nodes.size ≤ e
  opened : Open s' body { entry := e, current := e, continuation := some k, reentrant := again }
  commands : commandsAt s' e = cmds

/-- A later graph has new nodes below `fn`, and the old ones stand for the same. -/
structure Adds (fn : Nat) (s s' : Session) : Prop where
  grown : Extends fn s s'
  old {id : Nat} (hid : id < s.nodes.size) : (s'.node id).role = (s.node id).role

namespace Adds

theorem refl (fn : Nat) (s : Session) : Adds fn s s := ⟨⟨.refl s, fun _ hs ↦ hs⟩, fun _ ↦ rfl⟩

theorem trans (h₁ : Adds fn s s₁) (h₂ : Adds fn s₁ s₂) : Adds fn s s₂ :=
  ⟨h₁.grown.trans h₂.grown, fun hid ↦ (h₂.old (hid.trans_le h₁.grown.grows.size)).trans (h₁.old hid)⟩

theorem opened (h : Adds fn s s') (hopen : Open s fn f) : Open s' fn f where
  lt := hopen.lt.trans_le h.grown.grows.size
  role := (h.old hopen.lt).trans hopen.role
  ended := hopen.ended
  current_lt := hopen.current_lt.trans_le h.grown.grows.size
  block := (h.grown.grows.container hopen.current_lt).trans hopen.block
  stops := by
    rw [blockOf, h.old hopen.current_lt]
    exact hopen.stops

theorem reads {k : Option Nat} (h : Adds fn s s') (hreads : Reads s id cmds k) : Reads s' id cmds k :=
  ⟨hreads.lt.trans_le h.grown.grows.size, by rw [h.old hreads.lt]; exact hreads.block⟩

theorem made (h : Adds fn s s') (hp : fn ≤ p) (hlt : p < s'.nodes.size) (hcontainer : (s'.node p).isContainer = true)
    (hname : IsPlain name) (role : Role) : Adds fn s (made s' p name role) :=
  ⟨h.grown.trans ((extends_made hlt hcontainer hname role).mono hp), fun hid ↦ by
    rw [role_made hlt, if_neg (hid.trans_le h.grown.grows.size).ne, h.old hid]⟩

theorem recast (h : Adds fn s s') (hk : s.nodes.size ≤ k) (hlt : k < s'.nodes.size)
    (hblock : (s'.node k).isContainer = false) (b : BlockState) : Adds fn s (recast s' k (.block b)) :=
  ⟨h.grown.trans (extends_fill hblock b fn), fun hid ↦ by
    rw [role_recast hlt, if_neg (hid.trans_le hk).ne, h.old hid]⟩

end Adds

theorem Reads.notContainer {k : Option Nat} (h : Reads s id cmds k) : (s.node id).isContainer = false := by
  obtain ⟨b, hrole, -⟩ := h.block
  rw [Node.isContainer, hrole]

theorem Reads.extended {k : Option Nat} (h : Reads s id cmds k) (cmds' : List Instruction) :
    Reads (recast s id (.block (extended (blockOf (s.node id)) cmds'))) id (cmds ++ cmds') k := by
  obtain ⟨b, hrole, hcmds, hk⟩ := h.block
  refine ⟨by simpa using h.lt, Graph.extended b cmds', ?_, by simp [Graph.extended, hcmds], hk⟩
  rw [role_recast h.lt, if_pos rfl, blockOf, hrole]

theorem Reads.made {k : Option Nat} (h : Reads s id cmds k) (hp : p < s.nodes.size) (name : String) (role : Role) :
    Reads (made s p name role) id cmds k :=
  ⟨by simpa using Nat.lt_succ_of_lt h.lt, by rw [role_made hp, if_neg h.lt.ne]; exact h.block⟩

theorem Reads.recast {k : Option Nat} (h : Reads s id cmds k) (hp : p < s.nodes.size) (hne : id ≠ p) (role : Role) :
    Reads (recast s p role) id cmds k :=
  ⟨by simpa using h.lt, by rw [role_recast hp, if_neg hne]; exact h.block⟩

theorem reads_made (hp : p < s.nodes.size) (name : String) : Reads (made s p name (.block {})) s.nodes.size [] none :=
  ⟨by simp, {}, by rw [role_made hp, if_pos rfl], rfl, rfl⟩

/-- A body with an entry, before anything was added to it. -/
structure IsBody (s : Session) (again : Bool) (id : Nat) : Prop where
  role : (s.node id).role = .function { entry := id + 1, current := id + 1, reentrant := again }
  entry : Reads s (id + 1) [] none

theorem IsBody.lt (h : IsBody s again id) : id < s.nodes.size := Nat.lt_of_succ_lt h.entry.lt

theorem IsBody.functionOf_eq (h : IsBody s again id) :
    functionOf (s.node id) = { entry := id + 1, current := id + 1, reentrant := again } := by
  rw [functionOf, h.role]

theorem IsBody.container (h : IsBody s again id) : (s.node id).isContainer = true := by
  rw [Node.isContainer, h.role]

theorem IsBody.adds (h : IsBody s again id) (hadds : Adds fn s s') : IsBody s' again id :=
  ⟨(hadds.old h.lt).trans h.role, hadds.reads h.entry⟩

theorem isBody_bodyMade (hfn : fn < s.nodes.size) (name entryName description : String) (again : Bool) :
    IsBody (bodyMade s fn name entryName description again) again s.nodes.size := by
  refine ⟨by rw [role_bodyMade hfn, if_pos rfl], by simp, { description }, ?_, rfl, rfl⟩
  rw [role_bodyMade hfn, if_neg (Nat.lt_succ_self _).ne', if_pos rfl]

theorem adds_minted (fn : Nat) (s : Session) : Adds fn s (minted s) := ⟨extends_minted fn s, fun _ ↦ rfl⟩

theorem Open.adds_made (hopen : Open s fn f) (hname : IsPlain name) (role : Role) :
    Adds fn s (made s fn name role) :=
  ⟨extends_made hopen.lt hopen.container hname role, fun hid ↦ by rw [role_made hopen.lt, if_neg hid.ne]⟩

theorem Open.adds_bodyMade (hopen : Open s fn f) (hname : IsPlain name) (hentry : IsPlain entryName)
    (description : String) (again : Bool) : Adds fn s (bodyMade s fn name entryName description again) := by
  refine ⟨extends_bodyMade hopen.lt hopen.container hname hentry, fun hid ↦ ?_⟩
  rw [role_bodyMade hopen.lt, if_neg hid.ne, if_neg (hid.trans (Nat.lt_succ_self _)).ne]

def throughMade (s : Session) (fn : Nat) (name : String) (again : Bool) (cmds : List Instruction) :
    Session :=
  if again then
    recast (made s fn (name ++ "-then") (.block {})) s.nodes.size (.block (extended {} cmds))
  else s

@[simp] theorem toScratch_throughMade (s : Session) (fn : Nat) (name : String) (again : Bool)
    (cmds : List Instruction) : (throughMade s fn name again cmds).toScratch = s.toScratch := by
  rw [throughMade]
  split <;> simp

theorem Open.adds_throughMade (hopen : Open s fn f) (hname : IsPlain name) (again : Bool)
    (cmds : List Instruction) : Adds fn s (throughMade s fn name again cmds) := by
  rw [throughMade]
  split
  · have hmade := hopen.adds_made (hname.append (show IsPlain "-then" from rfl)) (.block {})
    refine ⟨hmade.grown.trans (extends_fill ?_ _ fn), fun hid ↦ ?_⟩
    · exact isBlock_of_role ((role_made hopen.lt _).trans (if_pos rfl))
    · rw [role_recast (by simp), if_neg hid.ne, hmade.old hid]
  · exact .refl fn s

/-- A branch or loop was put at the cursor of `fn`, and the cursor went on to `j`. -/
structure Joins (s s' : Session) (fn : Nat) (f : FunctionState) (cmds : List Instruction) (j : Nat) :
    Prop where
  grown : Extends fn s s'
  frame {id : Nat} (hid : id < s.nodes.size) (hfn : id ≠ fn) (hcur : id ≠ f.current) :
    (s'.node id).role = (s.node id).role
  current : Reads s' f.current (commandsAt s f.current ++ cmds) none
  next : Open s' fn { f with current := j }
  fresh : s.nodes.size ≤ j
  empty : commandsAt s' j = []

section Joining

variable {cmds' : List Instruction} {j e : Nat} {bodies : List Nat} (h : Adds fn s s₁) (hopen : Open s fn f)
  (hbodies : ∀ b ∈ bodies, s.nodes.size ≤ b ∧ b < s₁.nodes.size ∧ (s₁.node b).isContainer = true)

include h hopen hbodies

theorem Adds.role_joined (hid : s.nodes.size ≤ id) :
    ((joined s₁ fn k j cmds bodies).node id).role =
      if id ∈ bodies then .function { functionOf (s₁.node id) with continuation := some k }
      else (s₁.node id).role := by
  rw [Graph.role_joined (h.opened hopen) (fun b hb ↦ (hbodies b hb).2.1) (fun b hb ↦
      ⟨(hopen.lt.trans_le (hbodies b hb).1).ne', (hopen.current_lt.trans_le (hbodies b hb).1).ne'⟩),
    if_neg (hopen.lt.trans_le hid).ne', if_neg (hopen.current_lt.trans_le hid).ne']

theorem Adds.reads_joined {k' : Option Nat} (hid : s.nodes.size ≤ id) (hreads : Reads s₁ id cmds' k') :
    Reads (joined s₁ fn k j cmds bodies) id cmds' k' := by
  obtain ⟨b, hrole, hb⟩ := hreads.block
  have hnot : id ∉ bodies := fun hmem ↦ by
    have hcontainer := (hbodies id hmem).2.2
    simp [Node.isContainer, hrole] at hcontainer
  exact ⟨by simpa using hreads.lt, b, by rw [h.role_joined hopen hbodies hid, if_neg hnot, hrole], hb⟩

theorem Adds.side (hmem : id ∈ bodies)
    (hrole : (s₁.node id).role = .function { entry := e, current := e, reentrant := again }) (he : s.nodes.size ≤ e)
    (hentry : Reads s₁ e cmds' none) : Side s (joined s₁ fn k j cmds bodies) again k id e cmds' := by
  obtain ⟨hnew, hlt, -⟩ := hbodies id hmem
  have hreads : Reads (joined s₁ fn k j cmds bodies) e cmds' none := h.reads_joined hopen hbodies he hentry
  obtain ⟨b, hblock, -, hstops⟩ := hreads.block
  refine ⟨hnew, he, ⟨by simpa using hlt, ?_, rfl, hreads.lt, ?_, ?_⟩, hreads.commandsAt_eq⟩
  · rw [h.role_joined hopen hbodies hnew, if_pos hmem, functionOf, hrole]
  · rw [Node.isContainer, hblock]
  · rw [blockOf, hblock, hstops]

theorem Adds.joins (hj : s.nodes.size ≤ j) (hnext : Reads s₁ j [] none) :
    Joins s (joined s₁ fn k j cmds bodies) fn f cmds j := by
  have hopen₁ := h.opened hopen
  have hlt (b : Nat) (hb : b ∈ bodies) : b < s₁.nodes.size := (hbodies b hb).2.1
  have hne (b : Nat) (hb : b ∈ bodies) : b ≠ fn ∧ b ≠ f.current :=
    ⟨(hopen.lt.trans_le (hbodies b hb).1).ne', (hopen.current_lt.trans_le (hbodies b hb).1).ne'⟩
  have hold {id : Nat} (hid : id < s.nodes.size) : id ∉ bodies := fun hmem ↦
    absurd (hbodies id hmem).1 hid.not_ge
  have hrole := Graph.role_joined (k := k) (j := j) hopen₁ hlt hne cmds
  have hreads : Reads (joined s₁ fn k j cmds bodies) j [] none := h.reads_joined hopen hbodies hj hnext
  obtain ⟨b, hblock, -, hstops⟩ := hreads.block
  have hcurrent : ((joined s₁ fn k j cmds bodies).node f.current).role =
      .block (extended (blockOf (s₁.node f.current)) cmds) := by
    rw [hrole, if_neg (hopen.ne_current hopen).symm, if_neg (hold hopen.current_lt), if_pos rfl]
  refine ⟨h.grown.trans (extends_joined hopen₁ hlt fun b hb ↦ (hbodies b hb).2.2), fun hid hfn hcur ↦ ?_,
    ⟨by simpa using hopen₁.current_lt, _, hcurrent, ?_, hopen₁.stops⟩,
    ⟨by simpa using hopen₁.lt, ?_, hopen.ended, hreads.lt, ?_, ?_⟩, hj, hreads.commandsAt_eq⟩
  · rw [hrole, if_neg hfn, if_neg (hold hid), if_neg hcur, h.old hid]
  · rw [extended, blockOf, h.old hopen.current_lt]
    simp [commandsAt, blockOf]
  · rw [hrole, if_pos rfl]
  · rw [Node.isContainer, hblock]
  · rw [blockOf, hblock, hstops]

end Joining

def branchCommands (v : Score) (c : Condition) (enter other : Path) : List Instruction :=
  [scoreInstruction "set" v "0", guarded "if" c (scoreInstruction "set" v "1"),
    guarded "if" (.within v "1") (.call ⟨enter, none⟩),
    guarded "unless" (.within v "1") (.call ⟨other, none⟩)]

def throughCommands (v : Score) (e : Path) : List Instruction :=
  [.call ⟨e, none⟩, scoreInstruction "set" v "1"]

def sidesMade (s : Session) (fn : Nat) (name : String) (withElse again : Bool) : Session :=
  let yes := bodyMade s fn name "branch" ("If-branch of " ++ (s.node fn).name) again
  if withElse then
    bodyMade yes fn (name ++ "-else") "branch" ("Else-branch of " ++ (yes.node fn).name) again
  else yes

theorem joinBranch_apply (name : String) (v : Score) (enter : Path) (yes : Nat) (else_ : Option Nat) :
    joinBranch fn name c v (.call ⟨enter, none⟩) yes else_ s =
      let s₁ := made s fn (name ++ "-continue") (.block {})
      let other := (else_.map fun no ↦ (functionOf (s₁.node no)).entry).getD s.nodes.size
      (.ok (), joined s₁ fn s.nodes.size s.nodes.size
        (branchCommands v c enter (s₁.node other).path) (else_.toList ++ [yes])) := by
  cases else_ <;>
    simp only [joinBranch, createBlock, bind_apply, create_apply, andThen_ok, move_zero, move_one,
      lift_pure, callOf_apply, function_apply, append_apply, updateFunction_apply, Option.forIn_none,
      Option.forIn_some, pure_apply] <;>
    rfl

theorem branchEntry_apply (hfn : fn < s.nodes.size) (name : String) (yes : Nat) (v : Score) :
    branchEntry fn name yes v s =
      let again := (functionOf (s.node fn)).reentrant
      let e := (functionOf (s.node yes)).entry
      let s₁ := throughMade s fn name again (throughCommands v (s.node e).path)
      (.ok (.call ⟨(s₁.node (if again then s.nodes.size else e)).path, none⟩), s₁) := by
  simp only [branchEntry, createBlock, bind_apply, function_apply, andThen_ok, callOf_apply, throughMade]
  split
  · simp only [bind_apply, move_one, lift_pure, andThen_ok, create_apply, append_apply, callOf_apply]
    rw [blockOf, role_made hfn, if_pos rfl]
    rfl
  · rfl

def branchName (s : Session) (fn : Nat) : String := s!"if{(s.node fn).children.length}"

theorem isPlain_branchName (s : Session) (fn : Nat) : IsPlain (branchName s fn) :=
  (show IsPlain "if" from rfl).append (isPlain_toString _)

theorem branch_apply (hfn : fn < s.nodes.size) (hopen : checkOpen fn s = (.ok (), s)) (withElse : Bool) :
    branch fn c withElse s =
      let name := branchName s fn
      let s₁ := sidesMade s fn name withElse (functionOf (s.node fn)).reentrant
      let v : Score := ⟨.sym (nextPlayer s₁ fn "_cond"), s₁.objective⟩
      let else_ := if withElse then some (s.nodes.size + 2) else none
      andThen (fun enter ↦ do
        joinBranch fn name c v enter s.nodes.size else_
        return (s.nodes.size, else_))
        (branchEntry fn name s.nodes.size v (minted s₁)) := by
  have hlt : ∀ {name d r}, fn < (bodyMade s fn name "branch" d r).nodes.size := by
    intros
    simpa using hfn.trans (Nat.lt_add_of_pos_right Nat.zero_lt_two)
  cases withElse <;>
    simp only [branch, bind_apply, hopen, andThen_ok, function_apply, node_apply,
      createBody_apply hfn, score_apply, Bool.false_eq_true, if_false, if_true,
      map_apply, sidesMade, branchName, pure_apply, createBody_apply hlt, size_bodyMade]

def sidesOf (n : Nat) (withElse : Bool) : List Nat := (if withElse then some (n + 2) else none).toList ++ [n]

@[simp] theorem toScratch_sidesMade (s : Session) (fn : Nat) (name : String) (withElse again : Bool) :
    (sidesMade s fn name withElse again).toScratch = s.toScratch := by
  rw [sidesMade]
  split <;> simp

theorem adds_sidesMade (hopen : Open s fn f) (hname : IsPlain name) (withElse again : Bool) :
    Adds fn s (sidesMade s fn name withElse again) ∧
      ∀ k ∈ sidesOf s.nodes.size withElse, IsBody (sidesMade s fn name withElse again) again k := by
  have hbranch : IsPlain "branch" := rfl
  have hyes := hopen.adds_bodyMade hname hbranch ("If-branch of " ++ (s.node fn).name) again
  have hyesBody : IsBody (bodyMade s fn name "branch" ("If-branch of " ++ (s.node fn).name) again) again
      s.nodes.size := isBody_bodyMade hopen.lt _ _ _ _
  cases withElse with
  | false => exact ⟨hyes, by simpa [sidesOf, sidesMade] using hyesBody⟩
  | true =>
    have hopen' := hyes.opened hopen
    have hno (d : String) := hopen'.adds_bodyMade (hname.append (show IsPlain "-else" from rfl)) hbranch d again
    have hnoBody (d : String) := isBody_bodyMade hopen'.lt (name ++ "-else") "branch" d again
    refine ⟨hyes.trans (hno _), fun k hk ↦ ?_⟩
    rcases List.mem_cons.1 hk with rfl | hk
    · simpa [sidesMade] using hnoBody _
    · obtain rfl := List.mem_singleton.1 hk
      exact hyesBody.adds (hno _)

/-- Entering a branch with entry `e` means calling `x`. -/
def EntersAt (s : Session) (again : Bool) (v : Score) (e x : Nat) : Prop :=
  if again then Reads s x (throughCommands v (s.node e).path) none else x = e

/-- A graph with the bodies of a branch, just before the branch is put at the cursor. -/
structure Forked (s s' : Session) (fn : Nat) (again withElse : Bool) (v : Score) (x : Nat) : Prop where
  adds : Adds fn s s'
  symbols : s'.nextSymbol = s.nextSymbol + 1
  body {k : Nat} (hk : k ∈ sidesOf s.nodes.size withElse) : IsBody s' again k ∧ (again = true → k + 1 < x)
  enters : EntersAt s' again v (s.nodes.size + 1) x
  lt : x < s'.nodes.size

theorem forked_throughMade (hopen : Open s fn f) (hname : IsPlain name) (withElse : Bool) (v : Score) :
    let s₁ := minted (sidesMade s fn name withElse f.reentrant)
    Forked s (throughMade s₁ fn name f.reentrant (throughCommands v (s₁.node (s.nodes.size + 1)).path)) fn
      f.reentrant withElse v (if f.reentrant then s₁.nodes.size else s.nodes.size + 1) := by
  intro s₁
  obtain ⟨hsides, hbody⟩ := adds_sidesMade hopen hname withElse f.reentrant
  have hadds : Adds fn s s₁ := hsides.trans (adds_minted fn _)
  have hbody {k : Nat} (hk : k ∈ sidesOf s.nodes.size withElse) : IsBody s₁ f.reentrant k :=
    (hbody k hk).adds (adds_minted fn _)
  have he : s.nodes.size + 1 < s₁.nodes.size := (hbody (by simp [sidesOf])).entry.lt
  have hthrough := (hadds.opened hopen).adds_throughMade hname f.reentrant
    (throughCommands v (s₁.node (s.nodes.size + 1)).path)
  refine ⟨hadds.trans hthrough, ?_, fun hk ↦ ⟨(hbody hk).adds hthrough, fun hagain ↦ ?_⟩, ?_, ?_⟩
  · simp [s₁, minted]
  · rw [if_pos hagain]
    exact (hbody hk).entry.lt
  · rw [EntersAt, hthrough.grown.grows.path he]
    split
    · refine ⟨by simp [throughMade, *], extended {} (throughCommands v (s₁.node (s.nodes.size + 1)).path),
        ?_, by simp [extended], rfl⟩
      rw [throughMade, if_pos ‹_›, role_recast (by simp), if_pos rfl]
    · rfl
  · rw [throughMade]
    split
    · simp
    · exact he

theorem Forked.joins {v : Score} {x : Nat} (h : Forked s s₁ fn f.reentrant withElse v x) (hopen : Open s fn f)
    (hname : IsPlain name) : let s₂ := made s₁ fn name (.block {})
    let s' := joined s₂ fn s₁.nodes.size s₁.nodes.size cmds (sidesOf s.nodes.size withElse)
    Joins s s' fn f cmds s₁.nodes.size ∧ EntersAt s' f.reentrant v (s.nodes.size + 1) x ∧
      (∀ k ∈ sidesOf s.nodes.size withElse, Side s s' f.reentrant s₁.nodes.size k (k + 1) []) ∧
      ∀ id, (s'.node id).path = (s₂.node id).path := by
  intro s₂ s'
  have hmade : Adds fn s₁ s₂ := (h.adds.opened hopen).adds_made hname (.block {})
  have hadds : Adds fn s s₂ := h.adds.trans hmade
  have hsides (k : Nat) (hk : k ∈ sidesOf s.nodes.size withElse) :
      s.nodes.size ≤ k ∧ k < s₂.nodes.size ∧ (s₂.node k).isContainer = true := by
    have hbody := (h.body hk).1.adds hmade
    refine ⟨?_, hbody.lt, hbody.container⟩
    cases withElse <;> simp [sidesOf] at hk <;> omega
  have hnext : Reads s₂ s₁.nodes.size [] none :=
    ⟨by simp [s₂], {}, by rw [role_made (h.adds.opened hopen).lt, if_pos rfl], rfl, rfl⟩
  have hpath : ∀ id, (s'.node id).path = (s₂.node id).path :=
    path_joined (hadds.opened hopen) fun k hk ↦ (hsides k hk).2.1
  refine ⟨hadds.joins hopen hsides h.adds.grown.grows.size hnext, ?_, fun k hk ↦ ?_, hpath⟩
  · have he := (h.body (k := s.nodes.size) (by simp [sidesOf])).1.entry.lt
    have henters := h.enters
    rw [EntersAt] at henters ⊢
    split at henters
    · have hx := (h.body (k := s.nodes.size) (by simp [sidesOf])).2 ‹_›
      rw [if_pos ‹_›, hpath, hmade.grown.grows.path he]
      exact hadds.reads_joined hopen hsides (by omega) (hmade.reads henters)
    · rwa [if_neg ‹_›]
  · have hbody := (h.body hk).1.adds hmade
    exact hadds.side hopen hsides hk hbody.role ((hsides k hk).1.trans k.le_succ) hbody.entry

def branchScore (s : Session) (fn : Nat) : Score := ⟨.sym (nextPlayer s fn "_cond"), s.objective⟩

theorem branch_forks (hopen : Open s fn f) (h : branch fn c withElse s = (.ok r, s')) :
    r = (s.nodes.size, if withElse then some (s.nodes.size + 2) else none) ∧
      ∃ s₁ x, Forked s s₁ fn f.reentrant withElse (branchScore s fn) x ∧
        ∃ name, IsPlain name ∧
          let s₂ := made s₁ fn name (.block {})
          let other := if withElse then s.nodes.size + 3 else s₁.nodes.size
          s' = joined s₂ fn s₁.nodes.size s₁.nodes.size
            (branchCommands (branchScore s fn) c (s₁.node x).path (s₂.node other).path)
            (sidesOf s.nodes.size withElse) := by
  have hplain := isPlain_branchName s fn
  have hforked := forked_throughMade hopen hplain withElse (branchScore s fn)
  obtain ⟨hsides, hbody⟩ := adds_sidesMade hopen hplain withElse f.reentrant
  have hopen₁ := (hsides.trans (adds_minted fn _)).opened hopen
  have hyes := ((hbody s.nodes.size (by simp [sidesOf])).adds (adds_minted fn _)).functionOf_eq
  have hscore : (⟨.sym (nextPlayer (sidesMade s fn (branchName s fn) withElse f.reentrant) fn "_cond"),
      (sidesMade s fn (branchName s fn) withElse f.reentrant).objective⟩ : Score) = branchScore s fn := by
    simp only [branchScore, nextPlayer, toScratch_sidesMade, hsides.grown.grows.path hopen.lt,
      hsides.grown.grows.objective]
  rw [branch_apply hopen.lt hopen.checked, hopen.functionOf_eq] at h
  simp only [hscore, branchEntry_apply hopen₁.lt, hopen₁.functionOf_eq, hyes, andThen_ok, bind_apply,
    joinBranch_apply, pure_apply] at h
  have hcontinue : IsPlain (branchName s fn ++ "-continue") := hplain.append rfl
  have hmade := (hforked.adds.opened hopen).adds_made hcontinue (.block {})
  obtain ⟨hr, hs'⟩ := Prod.mk.inj h
  refine ⟨(Except.ok.inj hr).symm, _, _, hforked, _, hcontinue, hs'.symm.trans ?_⟩
  cases withElse with
  | false => rfl
  | true =>
    have hno := ((hforked.body (k := s.nodes.size + 2) (by simp [sidesOf])).1.adds hmade).functionOf_eq
    simp only [if_true, Option.map_some, Option.getD_some, hno]
    rfl

/-- A branch puts its test and calls at the cursor. Its bodies go on with the block after it. -/
theorem branch_spec (hopen : Open s fn f) (h : branch fn c withElse s = (.ok r, s')) :
    r = (s.nodes.size, if withElse then some (s.nodes.size + 2) else none) ∧
      s'.nextSymbol = s.nextSymbol + 1 ∧
      ∃ x j, Joins s s' fn f (branchCommands (branchScore s fn) c (s'.node x).path
          (s'.node (if withElse then s.nodes.size + 3 else j)).path) j ∧
        EntersAt s' f.reentrant (branchScore s fn) (s.nodes.size + 1) x ∧
        (∀ k ∈ sidesOf s.nodes.size withElse, Side s s' f.reentrant j k (k + 1) [] ∧ k + 1 < j ∧
          (f.reentrant = true → k + 1 < x)) ∧ x < j := by
  obtain ⟨hr, s₁, x, hforked, name, hname, hs'⟩ := branch_forks hopen h
  obtain ⟨hjoins, henters, hside, hpath⟩ := hforked.joins hopen hname
  rw [← hs'] at hjoins henters hside hpath
  rw [← hpath, ← (grows_made (hforked.adds.opened hopen).lt).path hforked.lt, ← hpath] at hjoins
  refine ⟨hr, by simp [hs', hforked.symbols], x, s₁.nodes.size, hjoins, henters, fun k hk ↦ ?_, hforked.lt⟩
  exact ⟨hside k hk, (hforked.body hk).1.entry.lt, (hforked.body hk).2⟩

def loopScore (s : Session) (fn : Nat) : Score := ⟨.sym (nextPlayer s fn "_iteration_number"), s.objective⟩

def loopName (s : Session) (fn : Nat) : String := s!"while{(s.node fn).children.length}"

theorem isPlain_loopName (s : Session) (fn : Nat) : IsPlain (loopName s fn) :=
  (show IsPlain "while" from rfl).append (isPlain_toString _)

def checkCommands (v : Score) (c : Condition) (entry next : Path) : List Instruction :=
  let zero := Condition.within v "0"
  [guarded "if" c (.call ⟨entry, none⟩), scoreInstruction "remove" v "1",
    .composed [.literal ("execute unless " ++ c.template ++ " if " ++ zero.template ++ " run")
      (c.args ++ zero.args), .call ⟨next, none⟩]]

def loopCommands (v : Score) (check : Path) : List Instruction :=
  [scoreInstruction "set" v "1", .call ⟨check, none⟩]

def roundMade (s : Session) (fn : Nat) : Session :=
  let s₁ := minted (bodyMade s fn (loopName s fn) "loop" ("While-loop of " ++ (s.node fn).name) true)
  recast s₁ (s.nodes.size + 1)
    (.block (extended (blockOf (s₁.node (s.nodes.size + 1))) [scoreInstruction "add" (loopScore s fn) "1"]))

def cycleMade (s : Session) (fn : Nat) (c : Condition) : Session :=
  let s₁ := made (made (roundMade s fn) s.nodes.size "check-cond" (.block {})) fn
    (loopName s fn ++ "-continue") (.block {})
  recast s₁ (s.nodes.size + 2) (.block (extended (blockOf (s₁.node (s.nodes.size + 2)))
    (checkCommands (loopScore s fn) c (s₁.node (s.nodes.size + 1)).path (s₁.node (s.nodes.size + 3)).path)))

theorem loop_apply (hfn : fn < s.nodes.size) (hopen : checkOpen fn s = (.ok (), s)) :
    loop fn c s = (.ok s.nodes.size,
      let s₁ := cycleMade s fn c
      joined s₁ fn (s.nodes.size + 2) (s.nodes.size + 3)
        (loopCommands (loopScore s fn) (s₁.node (s.nodes.size + 2)).path) [s.nodes.size]) := by
  have hname : s!"while{(s.node fn).children.length}" = loopName s fn := rfl
  have hbody := isBody_bodyMade hfn (loopName s fn) "loop" ("While-loop of " ++ (s.node fn).name) true
  have hscore : (⟨.sym (nextPlayer (bodyMade s fn (loopName s fn) "loop"
      ("While-loop of " ++ (s.node fn).name) true) fn "_iteration_number"), (bodyMade s fn (loopName s fn) "loop"
      ("While-loop of " ++ (s.node fn).name) true).objective⟩ : Score) = loopScore s fn := by
    simp only [loopScore, nextPlayer, toScratch_bodyMade, path_bodyMade hfn, hfn.ne, if_false,
      (hfn.trans (Nat.lt_succ_self _)).ne, objective_bodyMade]
  simp only [loop, bind_apply, hopen, andThen_ok, node_apply, createBody_apply hfn, score_apply,
    addConst_one, addConst_neg_one, move_one, lift_pure, function_apply, append_apply, createBlock,
    create_apply, callOf_apply, updateFunction_apply, pure_apply, hname, node_minted, hbody.functionOf_eq,
    hscore, size_recast, size_made, size_minted, size_bodyMade, joined, cycleMade, roundMade,
    List.foldl_cons, List.foldl_nil, resumed, loopCommands, checkCommands, List.cons_append, List.nil_append]

theorem adds_roundMade (hopen : Open s fn f) : Adds fn s (roundMade s fn) ∧
    (roundMade s fn).nodes.size = s.nodes.size + 2 ∧
    ((roundMade s fn).node s.nodes.size).role =
      .function { entry := s.nodes.size + 1, current := s.nodes.size + 1, reentrant := true } ∧
    Reads (roundMade s fn) (s.nodes.size + 1) [scoreInstruction "add" (loopScore s fn) "1"] none := by
  have hadds := (hopen.adds_bodyMade (isPlain_loopName s fn) (show IsPlain "loop" from rfl)
    ("While-loop of " ++ (s.node fn).name) true).trans (adds_minted fn _)
  have hbody := (isBody_bodyMade hopen.lt (loopName s fn) "loop" ("While-loop of " ++ (s.node fn).name)
    true).adds (adds_minted fn _)
  refine ⟨hadds.recast s.nodes.size.le_succ hbody.entry.lt hbody.entry.notContainer _, by simp [roundMade], ?_,
    hbody.entry.extended _⟩
  rw [roundMade, role_recast hbody.entry.lt, if_neg s.nodes.size.lt_succ_self.ne, hbody.role]

theorem adds_cycleMade (hopen : Open s fn f) : Adds fn s (cycleMade s fn c) ∧
    ((cycleMade s fn c).node s.nodes.size).role =
      .function { entry := s.nodes.size + 1, current := s.nodes.size + 1, reentrant := true } ∧
    Reads (cycleMade s fn c) (s.nodes.size + 1) [scoreInstruction "add" (loopScore s fn) "1"] none ∧
    Reads (cycleMade s fn c) (s.nodes.size + 2) (checkCommands (loopScore s fn) c
      ((cycleMade s fn c).node (s.nodes.size + 1)).path ((cycleMade s fn c).node (s.nodes.size + 3)).path) none ∧
    Reads (cycleMade s fn c) (s.nodes.size + 3) [] none := by
  obtain ⟨hround, hsize, hrole, hentry⟩ := adds_roundMade hopen
  have hlt : s.nodes.size < (roundMade s fn).nodes.size := by omega
  have hcheckAdds := hround.made hopen.lt.le hlt (by rw [Node.isContainer, hrole])
    (show IsPlain "check-cond" from rfl) (.block {})
  have hcheck := reads_made hlt "check-cond"
  rw [hsize] at hcheck
  have hopen' := hcheckAdds.opened hopen
  have hnextAdds := hopen'.adds_made ((isPlain_loopName s fn).append (show IsPlain "-continue" from rfl)) (.block {})
  have hnext := reads_made hopen'.lt (loopName s fn ++ "-continue")
  rw [size_made, hsize] at hnext
  have hcheck' := hnextAdds.reads hcheck
  refine ⟨(hcheckAdds.trans hnextAdds).recast (by omega) hcheck'.lt hcheck'.notContainer _, ?_, ?_, ?_, ?_⟩
  · rw [cycleMade, role_recast hcheck'.lt, if_neg (by omega), hnextAdds.old (by simp; omega), role_made hlt,
      if_neg (by omega), hrole]
  · exact (hnextAdds.reads (hentry.made hlt _ _)).recast hcheck'.lt (by omega) _
  · rw [cycleMade, path_recast hcheck'.lt, path_recast hcheck'.lt]
    exact hcheck'.extended _
  · exact hnext.recast hcheck'.lt (by omega) _

/-- A loop starts its counter and calls a block that tests the condition. Its body goes on with that
block, which goes on with the block after the loop. -/
theorem loop_spec (hopen : Open s fn f) {body : Nat} (h : loop fn c s = (.ok body, s')) :
    body = s.nodes.size ∧ s'.nextSymbol = s.nextSymbol + 1 ∧
      Joins s s' fn f (loopCommands (loopScore s fn) (s'.node (s.nodes.size + 2)).path) (s.nodes.size + 3) ∧
      Side s s' true (s.nodes.size + 2) s.nodes.size (s.nodes.size + 1)
        [scoreInstruction "add" (loopScore s fn) "1"] ∧
      Reads s' (s.nodes.size + 2) (checkCommands (loopScore s fn) c (s'.node (s.nodes.size + 1)).path
        (s'.node (s.nodes.size + 3)).path) none := by
  obtain ⟨hadds, hrole, hentry, hcheck, hnext⟩ := adds_cycleMade (c := c) hopen
  have hbodies : ∀ b ∈ [s.nodes.size], s.nodes.size ≤ b ∧ b < (cycleMade s fn c).nodes.size ∧
      ((cycleMade s fn c).node b).isContainer = true := by
    rintro b hb
    obtain rfl := List.mem_singleton.1 hb
    exact ⟨le_rfl, Nat.lt_of_succ_lt hentry.lt, by rw [Node.isContainer, hrole]⟩
  rw [loop_apply hopen.lt hopen.checked] at h
  obtain ⟨hbody, hs'⟩ := Prod.mk.inj h
  set s₁ := cycleMade s fn c
  have hpath (id : Nat) : (s'.node id).path = (s₁.node id).path := by
    rw [← hs']
    exact path_joined (hadds.opened hopen) (fun b hb ↦ (hbodies b hb).2.1) id
  refine ⟨(Except.ok.inj hbody).symm, ?_, ?_, ?_, ?_⟩
  · simp [← hs', s₁, cycleMade, roundMade, minted]
  · rw [hpath, ← hs']
    exact hadds.joins hopen hbodies (by omega) hnext
  · rw [← hs']
    exact hadds.side hopen hbodies (by simp) hrole (by omega) hentry
  · rw [hpath, hpath, ← hs']
    exact hadds.reads_joined hopen hbodies (by omega) hcheck

end CommandPack.Graph
