import Mathlib
import CommandPack.Proofs.Finishing
import CommandPack.Proofs.Compiling
import CommandPack.Proofs.Gathering

/-!
Functions that were built and emitted do what their bodies mean. The shape of the graph becomes the
shape of the lines: each block is a function of the machine, and symbols made for branches and loops
are players of their own.
-/

namespace CommandPack

open Stateful

section Texts

variable {pool : SymbolPool} {s : Session} {roots : List NodeId} {reserved : List String}

theorem Listing.steps_tableOf (hpool : ∀ v ∈ mentioned s roots, pool.Has (.sym v)) :
    SymbolTable.Steps pool {} (tableOf s roots reserved) := by
  have hreserve : SymbolTable.Steps pool {} (SymbolTable.reserve {} reserved) :=
    .single (.reserve {} reserved)
  exact hreserve.trans (steps_resolveAll (fun v hv ↦ hpool v (mem_of_mem_inOrder hv)) _)

end Texts

namespace Machine

variable {h : Hidden} {fs : Dict (List String)} {plan : Plan} {own : Set String} {ls : List String}
  {m m' : Machine} {path : String} {cancelled : Bool}

def begun (m : Machine) (cancelled : Bool) : Machine := { m with running := true, cancelled, count := 0 }

section Alone

variable {f : Option Int32 → Int32} {p o n l : String}

/-- A command gives the player `p` the score `f` of its current one in the objective `o`. -/
def Rescores (p o : String) (f : Option Int32 → Int32) (l : String) : Prop :=
  ∀ call site, obey call site {} l = (do
    useObjective site o
    let m ← get
    let v := f (score? m (.player p) o)
    set (setScore m (.player p) o v)
    return ⟨v, true⟩)

theorem Rescores.eq_ok (hl : Rescores p o f l) {call : Call} {site : Site} {r : Result}
    (hm : obey call site {} l m = (.ok r, m')) :
    ∃ objectives v, m.objectives <+: objectives ∧ m' = setScore { m with objectives } (.player p) o v := by
  rw [hl] at hm
  simp only [bind_eq_ok, get_apply, set_apply, pure_apply, outcome_eq_iff, Except.ok.injEq] at hm
  obtain ⟨u, m₁, hused, m₂, m₃, ⟨rfl, rfl⟩, u', m₄, ⟨_, rfl⟩, _, rfl⟩ := hm
  obtain ⟨hobjectives, hsame⟩ := useObjective_objectives hused
  exact ⟨m₁.objectives, _, hobjectives, by rw [← hsame]⟩

theorem Rescores.alone (hl : Rescores p o f l) (hout : p ∈ h.players → o ≠ h.objective) : Alone h l where
  alike call call' site site' := by
    rw [hl, hl]
    refine alike_bind (alike_useObjective h site site' o) fun _ ↦ alike_get_bind fun m m' hm ↦ ?_
    rw [hm.score p o hout]
    refine ⟨rfl, hm.core, fun q o' hq ↦ ?_⟩
    rw [score?_setScore_player, score?_setScore_player, hm.score q o' hq]
  score hm q hq := by
    obtain ⟨objectives, v, -, rfl⟩ := hl.eq_ok hm
    rw [score?_setScore_player, if_neg]
    · rfl
    · rintro ⟨rfl, rfl⟩
      exact hout hq rfl
  objective hm ho := by
    obtain ⟨objectives, v, hobjectives, rfl⟩ := hl.eq_ok hm
    exact hobjectives.subset ho

theorem Rescores.steady (hl : Rescores p o f l) (hm : Obeys l m m') :
    m'.maxCommands = m.maxCommands ∧ m.objectives ⊆ m'.objectives := by
  obtain ⟨r, hm⟩ := hm
  obtain ⟨objectives, v, hobjectives, rfl⟩ := hl.eq_ok hm
  exact ⟨rfl, hobjectives.subset⟩

end Alone

end Machine

namespace Graph

open Machine Instruction

variable {ls : List String}

theorem isPlain_join {sep : String} (hsep : IsPlain sep) {parts : List String}
    (hparts : ∀ p ∈ parts, IsPlain p) : IsPlain (Text.join sep parts) := by
  induction parts with
  | nil => rfl
  | cons a parts ih =>
    cases parts with
    | nil => simpa [Text.join] using hparts a List.mem_cons_self
    | cons b parts =>
      have hrest := ih fun p hp ↦ hparts p (List.mem_cons_of_mem a hp)
      have heq : Text.join sep (a :: b :: parts) = a ++ sep ++ Text.join sep (b :: parts) := by
        simp [Text.join]
      rw [heq]
      exact ((hparts a List.mem_cons_self).append hsep).append hrest

theorem isName_joined {path : Path} (hne : path ≠ []) (hpath : ∀ name ∈ path, IsPlain name) :
    IsName path.joined := by
  obtain ⟨root, rest, rfl⟩ := List.exists_cons_of_ne_nil hne
  have hroot := hpath root List.mem_cons_self
  have hrest : IsPlain (Text.join "/" rest) :=
    isPlain_join (rfl : IsPlain "/") fun p hp ↦ hpath p (List.mem_cons_of_mem root hp)
  have hcolon : IsPlain ":" := rfl
  refine ⟨fun h ↦ ?_, (hroot.append hcolon).append hrest⟩
  have := congrArg String.toList h
  simp [Path.joined] at this

theorem IsGenerated.isName {text : String} (hv : IsGenerated v) (hsteps : SymbolTable.Steps pool {} t)
    (hpool : pool.Has (.sym v)) (hfind : t.find? v.id = some text) : IsName text := by
  obtain ⟨base, path, hv, hbase, hpath⟩ := hv
  have hsymbol : pool.symbol v.id = v := Eq.symm hpool
  have hkind : (pool.symbol v.id).kind.isDistinct = true := by
    rw [hsymbol, hv]
    rfl
  obtain ⟨t₀, -, -, hfree, -⟩ := hsteps.exists_moment hkind rfl hfind
  rw [hsymbol, hv] at hfree
  have hdot : IsPlain "." := rfl
  have hname {x : String} (hx : IsPlain x) : IsName (SymbolTable.qualify .player (some path) x) := by
    refine ⟨fun h ↦ ?_, ((isPlain_join hdot hpath).append hdot).append hx⟩
    have := congrArg String.toList h
    simp [SymbolTable.qualify] at this
  rcases hfree with ⟨-, rfl⟩ | ⟨-, i, -, rfl, -, -⟩
  · exact hname hbase
  · have hsuffix : IsPlain s!"{base}.{i}" := (hbase.append hdot).append (isPlain_toString i)
    exact hname hsuffix

/-- The body of a function over the texts of a table. -/
def Flow.plan (t : SymbolTable) : Flow → Plan
  | done => .done
  | leave => .leave
  | add cmds next => .act (cmds.flatMap fun i ↦ commandsOf (i.textIn t)) (next.plan t)
  | ifThen c yes next => .ifThen (c.textIn t) (yes.plan t) (next.plan t)
  | ifElse c yes no next => .ifElse (c.textIn t) (yes.plan t) (no.plan t) (next.plan t)
  | loop c body next => .loop (c.textIn t) (body.plan t) (next.plan t)

def textsIn (t : SymbolTable) (own : Set Int) : Set String := {text | ∃ i ∈ own, t.find? i = some text}

def linesIn (t : SymbolTable) (s : Session) (cmds : List Instruction) (k : Option Nat) : List String :=
  (cmds.map (textIn t) ++ k.toList.map fun j ↦ callLine (s.node j).path.joined).flatMap commandsOf

/-- All symbols that instructions mention are of a pool and have a text. -/
def Settled (pool : SymbolPool) (t : SymbolTable) (cmds : List Instruction) : Prop :=
  ∀ v ∈ symbolsOf cmds, pool.Has (.sym v) ∧ t.Knows (.sym v)

/-- The blocks from `low` on have names, their symbols have texts, and they are functions. -/
structure Written (pool : SymbolPool) (t : SymbolTable) (s : Session) (low : Nat)
    (fs : Dict (List String)) : Prop where
  steps : SymbolTable.Steps pool {} t
  isName {id : Nat} (hlow : low ≤ id) (hid : id < s.nodes.size) : IsName (s.node id).path.joined
  settled {id : Nat} {cmds : List Instruction} {k : Option Nat} (hlow : low ≤ id)
    (hreads : Reads s id cmds k) : Settled pool t cmds
  find {id : Nat} {cmds : List Instruction} {k : Option Nat} (hlow : low ≤ id)
    (hreads : Reads s id cmds k) : Dict.find? (s.node id).path.joined fs = some (linesIn t s cmds k)

variable {pool : SymbolPool} {t : SymbolTable} {s : Session} {low : Nat} {fs : Dict (List String)}
  {cmds cmds' : List Instruction} {own own' : Set Int} {v : Symbol} {p : String} {k k' : Option Nat} {r : Bool}
  {flow : Flow} {h : Hidden}

theorem Settled.known (hs : Settled pool t cmds) : Known t cmds := fun v hv ↦ (hs v hv).2

/-- The symbols of a set are players of a pool. -/
def ArePlayers (pool : SymbolPool) (own : Set Int) : Prop :=
  ∀ i ∈ own, (pool.symbol i).kind.isDistinct = true

theorem ArePlayers.notMem (hown : ArePlayers pool own) (hsound : SymbolTable.Sound pool t)
    (hv : (pool.symbol v.id).kind.isDistinct = true) (hfresh : v.id ∉ own) (hp : t.find? v.id = some p) :
    p ∉ textsIn t own := by
  rintro ⟨i, hi, hfind⟩
  obtain rfl := hsound.eq_of_find? i v.id p (hown i hi) hv hfind hp
  exact hfresh hi

theorem ArePlayers.disjoint (hown : ArePlayers pool own) (hown' : ArePlayers pool own')
    (hsound : SymbolTable.Sound pool t) (hdisjoint : Disjoint own own') :
    Disjoint (textsIn t own) (textsIn t own') := by
  rw [Set.disjoint_left] at hdisjoint ⊢
  rintro text ⟨i, hi, hfind⟩ ⟨j, hj, hfind'⟩
  obtain rfl := hsound.eq_of_find? i j text (hown i hi) (hown' j hj) hfind hfind'
  exact hdisjoint hi hj

section Lays

variable {j x y : Nat} {c : Condition}

theorem linesIn_of_writes (h : Writes t cmds ls) (hs : Settled pool t cmds) (hls : ∀ l ∈ ls, IsLine l) :
    linesIn t s cmds none = ls := by
  rw [linesIn, Option.toList_none, List.map_nil, List.append_nil, h.lines_eq hs.known hls]

section Commands

variable (hp : IsName ((Name.sym v).textIn t)) (hobj : IsName (s.objective.textIn t))

include hp hobj

theorem linesIn_throughCommands {e : Path} (hs : Settled pool t (throughCommands ⟨.sym v, s.objective⟩ e))
    (he : IsName e.joined) :
    linesIn t s (throughCommands ⟨.sym v, s.objective⟩ e) none =
      [callLine e.joined, scoreLine "set" ((Name.sym v).textIn t) (s.objective.textIn t) "1"] := by
  refine linesIn_of_writes (.line (spells_call t e) (.line (spells_scoreInstruction t _ (by decide) (by decide)) .nil)) hs ?_
  simpa using ⟨isLine_callLine he, isLine_scoreLine ⟨by decide, rfl⟩ hp hobj isName_one⟩

end Commands

theorem Written.enters (hw : Written pool t s low fs) {e : Nat} (he : low ≤ e ∧ e < s.nodes.size)
    (hx : low ≤ x) (hp : IsName ((Name.sym v).textIn t)) (hobj : IsName (s.objective.textIn t))
    (henters : EntersAt s r ⟨.sym v, s.objective⟩ e x) :
    Enters fs (s.objective.textIn t) r ((Name.sym v).textIn t) (s.node e).path.joined
      (s.node x).path.joined := by
  cases r with
  | false =>
    obtain rfl : x = e := henters
    exact rfl
  | true =>
    have hreads : Reads s x (throughCommands ⟨.sym v, s.objective⟩ (s.node e).path) none := henters
    have hname := hw.isName he.1 he.2
    refine ⟨?_, hname⟩
    rw [hw.find hx hreads, linesIn_throughCommands hp hobj (hw.settled hx hreads) hname]

theorem EntersAt.lt {v : Score} {e : Nat} (henters : EntersAt s r v e x) (he : e < s.nodes.size) :
    x < s.nodes.size := by
  cases r with
  | false =>
    obtain rfl : x = e := henters
    exact he
  | true => exact Reads.lt henters

end Lays

section Emitted

variable {roots : List NodeId} {reserved : List String} {l : Listing} {base : Nat}

theorem Reads.lines_functionIn {id : Nat} (hreads : Reads s id cmds k) :
    (Listing.functionIn t s id).lines.flatMap commandsOf = linesIn t s cmds k := by
  have hcommands := hreads.commandsAt_eq
  obtain ⟨b, hrole, -, rfl⟩ := hreads.block
  have hblock : blockOf (s.node id) = b := by rw [blockOf, hrole]
  simp [Listing.functionIn, linesIn, hcommands, hblock, callLine, Text.join]

end Emitted

section Kept

variable {J : Set Nat → Session → Prop} {F : Set Nat} {fn : Nat} {new ts : List (Nat × Flow)} {s₁ s' : Session}

theorem Begins.upholds (hJ : Invariant J) (h : Begins fn s flow new s₁) (hs : J F s) (hfn : fn ∈ F) :
    ∃ F', F ⊆ F' ∧ J F' s₁ ∧ ∀ part ∈ new, part.1 ∈ F' := by
  have hcalm {x : Build Unit} (hx : Calm F x) (h : x s = (.ok (), s₁)) : J F s₁ := by
    have hs' := hx hJ le_rfl hs
    rwa [h] at hs'
  cases h with
  | done h => exact ⟨F, le_rfl, hcalm (calm_finish hfn) h, nofun⟩
  | leave h => exact ⟨F, le_rfl, hcalm (calm_leave hfn none) h, by simpa using hfn⟩
  | add h => exact ⟨F, le_rfl, hcalm (calm_add hfn _) h, by simpa using hfn⟩
  | @ifThen c _ _ _ _ h =>
    obtain ⟨F', hF, hs', hbody⟩ : Upholds J (Graph.ifThen fn c) F s fun b F' _ ↦ b ∈ F' :=
      (hJ.branch hs hfn _ false).bind fun _ _ _ _ hs' hbodies ↦ .pure hs' hbodies.1
    rw [h] at hs' hbody
    exact ⟨F', hF, hs', by simpa using ⟨hbody _ rfl, hF hfn⟩⟩
  | ifElse h =>
    obtain ⟨F', hF, hs', hbodies⟩ := hJ.branch hs hfn _ true
    rw [h] at hs' hbodies
    obtain ⟨hyes, hno⟩ := hbodies _ rfl
    exact ⟨F', hF, hs', by simpa using ⟨hyes, hno _ rfl, hF hfn⟩⟩
  | loop h =>
    obtain ⟨F', hF, hs', hbody⟩ := hJ.loop hs hfn _
    rw [h] at hs' hbody
    exact ⟨F', hF, hs', by simpa using ⟨hbody _ rfl, hF hfn⟩⟩

/-- What no statement breaks is kept when bodies are built, in whatever order of their parts. -/
theorem Builds.upholds (hJ : Invariant J) (h : Builds ts s s') (hs : J F s) (hts : ∀ part ∈ ts, part.1 ∈ F) :
    ∃ F', J F' s' := by
  induction h generalizing F with
  | nil => exact ⟨F, hs⟩
  | step h _ ih =>
    simp only [List.forall_mem_append, List.forall_mem_cons] at hts ih
    obtain ⟨hts, hfn, hus⟩ := hts
    obtain ⟨F', hF, hs', hnew⟩ := h.upholds hJ hs hfn
    exact ih hs' ⟨⟨fun part hpart ↦ hF (hts part hpart), hnew⟩, fun part hpart ↦ hF (hus part hpart)⟩

end Kept

section Refinement

variable {parent fn : Nat} {name entryName description : String} {tags : List Path} {s₀ s₁ : Session}
  {roots : List NodeId} {reserved : List String} {l : Listing} {setup : Setup} {m : Machine}

section Built

variable (hlt : parent < s₀.nodes.size) (hcontainer : (s₀.node parent).isContainer = true)
  (hcreate : createFunction parent name entryName tags description s₀ = (.ok fn, s₁))
  (hbuilds : Builds [(fn, flow)] s₁ s) (hemit : Listing.emit s roots reserved = .ok l)

include hlt hcontainer hcreate hbuilds hemit

end Built

end Refinement

theorem Builds.cons {fn : Nat} {new us : List (Nat × Flow)} {s₁ s' : Session} (h : Begins fn s flow new s₁)
    (hrest : Builds (new ++ us) s₁ s') : Builds ((fn, flow) :: us) s s' :=
  @Builds.step [] us new fn flow s s₁ s' h hrest

end Graph

end CommandPack
