import Mathlib
import CommandPack.Proofs.Siting

/-!
Faults and the calls that led to them. Each active call was made by the command that its caller is at, and a
fault points at the command that failed.
-/

namespace CommandPack.Machine

open Stateful

variable {c : Config} {p : Pending} {e : Errand} {kept : List Pending} {functions : Dict (List String)}
  {P Q : Config → Prop} {rest : List Frame}

theorem Location.IsIn.unique {l l' : Location} (h : l.IsIn functions) (h' : l'.IsIn functions)
    (hfunction : l.function = l'.function) (hline : l.line = l'.line) : l = l' := by
  obtain ⟨commands, i, hcommands, hi, hcommand⟩ := h
  obtain ⟨commands', i', hcommands', hi', hcommand'⟩ := h'
  rw [hfunction, hcommands'] at hcommands
  cases hcommands
  obtain rfl : i = i' := by omega
  rw [hcommand'] at hcommand
  rcases l with ⟨f, n, c⟩
  rcases l' with ⟨f', n', c'⟩
  simp_all

theorem Locates.isUnset_iff {l : Location} {frames : List Frame} (h : Locates functions l frames) :
    frames = [] ↔ l.isUnset = true := by
  cases frames with
  | nil =>
    rw [show l = {} from h]
    exact ⟨fun _ ↦ rfl, fun _ ↦ rfl⟩
  | cons frame rest =>
    obtain ⟨-, -, i, -, hline, -⟩ := h
    have hset : (l.line == 0) = false := by
      rw [beq_eq_false_iff_ne]
      omega
    simp [Location.isUnset, hset]

/-- In the run from `c`, the first property held at some moment, and the second one has held after it up to
moment `n`. -/
def Since (c : Config) (P Q : Config → Prop) (n : Nat) : Prop :=
  ∃ i ≤ n, P (tick^[i] c) ∧ ∀ j, i < j → j ≤ n → Q (tick^[j] c)

theorem since_now {n : Nat} (h : P (tick^[n] c)) : Since c P Q n :=
  ⟨n, le_rfl, h, fun _ hj hn ↦ absurd hn (not_le_of_gt hj)⟩

theorem Since.next {n : Nat} (h : Since c P Q n) (hq : Q (tick^[n + 1] c)) : Since c P Q (n + 1) := by
  obtain ⟨i, hi, hp, hsince⟩ := h
  refine ⟨i, Nat.le_succ_of_le hi, hp, fun j hj hn ↦ ?_⟩
  rcases Nat.lt_succ_iff_lt_or_eq.1 (Nat.lt_succ_of_le hn) with hlt | rfl
  · exact hsince j hj (Nat.le_of_lt_succ hlt)
  · exact hq

/-- The function at a path was called from a site, and the call has been active since. -/
def Called (c : Config) (path : String) (site : Site) : Nat → Prop :=
  Since c (fun c ↦ ∃ actor, c.control = .eval (.call path site.location.function site actor))
    fun c ↦ ∃ line, ⟨path, line⟩ :: site.frames <:+ c.frames

/-- The command at a site began, and its function has been at its line since. -/
def Begun (c : Config) (site : Site) : Nat → Prop :=
  Since c (fun c ↦ ∃ actor, c.control = .eval (.step site actor)) fun c ↦ site.frames <:+ c.frames

/-- Every active call was made by its caller, and is at a command that began, unless it has not come to any. -/
def Traced (c : Config) (n : Nat) : List Pending → Prop
  | [] => True
  | .lines path site _ line _ _ :: stack => Called c path site n ∧
      (1 < line → ∃ command, Begun c ⟨⟨path, (line : Int) - 1, command⟩, ⟨path, (line : Int) - 1⟩ :: site.frames⟩ n) ∧
      Traced c n stack
  | _ :: stack => Traced c n stack

section Traced

variable {K : Chart} {c : Config} {n : Nat} {stack : List Pending}

theorem InPlace.suffix (h : InPlace K stack) (hkept : kept <:+ stack) : InPlace K kept := by
  induction stack with
  | nil => exact (List.suffix_nil.1 hkept) ▸ trivial
  | cons p stack ih =>
    rcases List.suffix_cons_iff.1 hkept with rfl | hkept
    · exact h
    · exact ih h.2.2 hkept

theorem Traced.of_cons (h : Traced c n (p :: stack)) : Traced c n stack := by
  cases p with
  | lines path site actor line rest total => exact h.2.2
  | _ => exact h

theorem Traced.cons (hp : p.frame? = none) (h : Traced c n stack) : Traced c n (p :: stack) := by
  cases p with
  | lines path site actor line rest total => cases hp
  | _ => exact h

theorem Traced.suffix (h : Traced c n stack) (hkept : kept <:+ stack) : Traced c n kept := by
  induction stack with
  | nil => exact (List.suffix_nil.1 hkept) ▸ trivial
  | cons p stack ih =>
    rcases List.suffix_cons_iff.1 hkept with rfl | hkept
    · exact h
    · exact ih h.of_cons hkept

theorem Traced.next (h : Traced c n stack) (hplace : InPlace K stack)
    (hkept : stack <:+ (tick^[n + 1] c).stack) : Traced c (n + 1) stack := by
  induction stack with
  | nil => trivial
  | cons p stack ih =>
    have htail := ih h.of_cons hplace.2.2 ((List.suffix_cons p stack).trans hkept)
    cases p with
    | lines path site actor line rest total =>
      have hframes : ⟨path, (line : Int) - 1⟩ :: site.frames <:+ (tick^[n + 1] c).frames := by
        have hsite : site.frames = framesOf stack := hplace.1.frames
        rw [hsite]
        exact framesOf_suffix hkept
      refine ⟨h.1.next ⟨_, hframes⟩, fun hline ↦ ?_, htail⟩
      obtain ⟨command, hbegun⟩ := h.2.1 hline
      exact ⟨command, hbegun.next hframes⟩
    | _ => exact htail

theorem Traced.tick (h : Traced c n (tick^[n] c).stack) (hsited : Sited K (tick^[n] c))
    (hsited' : Sited K (tick^[n + 1] c)) : Traced c (n + 1) (tick^[n + 1] c).stack := by
  have hshift := shift_tick (Machine.tick^[n] c)
  rw [← Function.iterate_succ_apply' Machine.tick] at hshift
  have hkeep {kept : List Pending} (hkept : kept <:+ (Machine.tick^[n] c).stack)
      (hkept' : kept <:+ (Machine.tick^[n + 1] c).stack) : Traced c (n + 1) kept :=
    (h.suffix hkept).next (hsited.stack.suffix hkept) hkept'
  cases hshift with
  | other hkept hstack =>
    rcases hstack with hstack | ⟨p, hp, hstack⟩ <;> rw [hstack] at hkeep ⊢
    · exact hkeep hkept (List.suffix_refl _)
    · exact (hkeep hkept (List.suffix_cons _ _)).cons hp
  | @call path caller site actor lines hcontrol hroom hstack =>
    have hcaller : caller = site.location.function := by
      have hfits := hsited.control
      rw [hcontrol] at hfits
      exact hfits.2
    have hcalled : Called c path site n := since_now ⟨actor, hcaller ▸ hcontrol⟩
    have hframes : ⟨path, 0⟩ :: site.frames <:+ (Machine.tick^[n + 1] c).frames := by
      have hplace := hsited'.stack
      rw [hstack] at hplace
      have hsite : site.frames = framesOf (Machine.tick^[n] c).stack := hplace.1.frames
      rw [Config.frames, hstack, hsite]
      exact List.suffix_refl _
    rw [hstack] at hkeep ⊢
    exact ⟨hcalled.next ⟨0, hframes⟩, fun hline ↦ absurd hline (lt_irrefl _),
      hkeep (List.suffix_refl _) (List.suffix_cons _ _)⟩
  | @line path command site actor line total rest below hbefore hcontrol hstack =>
    have hframes : ⟨path, (line : Int)⟩ :: site.frames <:+ (Machine.tick^[n + 1] c).frames := by
      have hfits := hsited'.control
      rw [hcontrol] at hfits
      have hsite : ⟨path, (line : Int)⟩ :: site.frames = framesOf (Machine.tick^[n + 1] c).stack := hfits.1.frames
      rw [hsite]
      exact List.suffix_refl _
    have hcalled : Called c path site n := (hbefore ▸ h).1
    rw [hbefore, hstack] at hkeep
    rw [hstack]
    refine ⟨hcalled.next ⟨_, hframes⟩, fun _ ↦ ⟨command, ?_⟩, hkeep (List.suffix_cons _ _) (List.suffix_cons _ _)⟩
    rw [show ((line + 1 : Nat) : Int) - 1 = line by omega]
    exact since_now ⟨actor, hcontrol⟩

end Traced

theorem Errand.traced (he : e.callsFunctions = true) (m : Machine) (n : Nat) :
    Traced (e.start m) n (tick^[n] (e.start m)).stack := by
  induction n with
  | zero =>
    cases e with
    | exec command => cases he
    | _ => trivial
  | succ n ih => exact ih.tick (e.sited he m n) (e.sited he m (n + 1))

/-- At moment `n` of the run from `c` the calls `inner` and `outer` are active above `rest`, and `inner` was
made by the command that `outer` is at: the command began at a moment `i`, and `outer` has been at its line
since; it made the call at a later moment `k`, and the call has been active since. -/
def MadeBy (functions : Dict (List String)) (c : Config) (n : Nat) (inner outer : Frame) (rest : List Frame) :
    Prop :=
  ∃ site : Site, site.frames = outer :: rest ∧ outer = ⟨site.location.function, site.location.line⟩ ∧
    site.location.IsIn functions ∧ ∃ i k, i < k ∧ k < n ∧
      (∃ actor, (tick^[i] c).control = .eval (.step site actor)) ∧
      (∀ j, i < j → j ≤ n → outer :: rest <:+ (tick^[j] c).frames) ∧
      (∃ actor, (tick^[k] c).control = .eval (.call inner.function outer.function site actor)) ∧
      ∀ j, k < j → j ≤ n → ∃ line, ⟨inner.function, line⟩ :: outer :: rest <:+ (tick^[j] c).frames

theorem exists_of_framesOf {stack : List Pending} {frame : Frame} (h : frame :: rest <:+ framesOf stack) :
    ∃ path site actor line left total below,
      Pending.lines path site actor line left total :: below <:+ stack ∧ frame = ⟨path, (line : Int) - 1⟩ ∧
      framesOf below = rest := by
  induction stack with
  | nil => cases List.suffix_nil.1 h
  | cons p stack ih =>
    cases p with
    | lines path site actor line left total =>
      rcases List.suffix_cons_iff.1 h with hframe | h
      · obtain ⟨rfl, rfl⟩ := List.cons.inj hframe
        exact ⟨path, site, actor, line, left, total, stack, List.suffix_refl _, rfl, rfl⟩
      · obtain ⟨path, site, actor, line, left, total, below, hbelow, hframe⟩ := ih h
        exact ⟨path, site, actor, line, left, total, below, hbelow.trans (List.suffix_cons _ _), hframe⟩
    | _ =>
      obtain ⟨path, site, actor, line, left, total, below, hbelow, hframe⟩ := ih h
      exact ⟨path, site, actor, line, left, total, below, hbelow.trans (List.suffix_cons _ _), hframe⟩

theorem Errand.madeBy (he : e.callsFunctions = true) (m : Machine) {n : Nat} {s : Stop}
    (hstop : (tick^[n] (e.start m)).control = .stop s) {inner outer : Frame}
    (h : inner :: outer :: rest <:+ (tick^[n] (e.start m)).frames) :
    MadeBy m.functions (e.start m) n inner outer rest := by
  have hplace := (e.sited he m n).stack
  have htraced := e.traced he m n
  obtain ⟨path, site, actor, line, left, total, below, hinner, rfl, hbelow⟩ := exists_of_framesOf h
  obtain ⟨hsite, -, -⟩ := hplace.suffix hinner
  have hframes : site.frames = outer :: rest := hsite.frames.trans hbelow
  have hlocates : Locates m.functions site.location site.frames := hsite.knows
  rw [hframes] at hlocates
  obtain ⟨houter, hin⟩ := hlocates
  obtain ⟨k, hk, ⟨actor', hcall⟩, hactive⟩ := (htraced.suffix hinner).1
  -- the outer call is at a command, since the location of the inner one's site is set
  have hbelow' : outer :: rest <:+ framesOf below := hbelow ▸ List.suffix_refl _
  obtain ⟨path', site', actor₁, line', left', total', below', houter', hframe, hrest⟩ := exists_of_framesOf hbelow'
  have houterStack := houter'.trans ((List.suffix_cons _ _).trans hinner)
  have hline : 1 < line' := by
    obtain ⟨commands, i, -, hline, -⟩ := hin
    have hline' : site.location.line = (line' : Int) - 1 := by
      rw [houter] at hframe
      exact congrArg Frame.line hframe
    omega
  obtain ⟨command, i, hi, ⟨actor₂, hstep⟩, hbegun⟩ := (htraced.suffix houterStack).2.1 hline
  have hsite' : site'.frames = rest := (hplace.suffix houterStack).1.frames.trans hrest
  rw [hsite', ← hframe] at hstep hbegun
  -- that command is the one the call was made from
  have hsame : (⟨⟨path', (line' : Int) - 1, command⟩, outer :: rest⟩ : Site) = site := by
    have hfits := (e.sited he m i).control
    rw [hstep] at hfits
    have hin' : Location.IsIn m.functions ⟨path', (line' : Int) - 1, command⟩ := hfits.1.knows.2
    have hpoint : (⟨path', (line' : Int) - 1⟩ : Frame) = ⟨site.location.function, site.location.line⟩ :=
      hframe.symm.trans houter
    have hlocation := hin'.unique hin (congrArg Frame.function hpoint) (congrArg Frame.line hpoint)
    rw [hlocation, ← hframes]
  rw [hsame] at hstep
  have hkn : k < n := by
    refine lt_of_le_of_ne hk fun hkn ↦ ?_
    rw [hkn, hstop] at hcall
    cases hcall
  have hik : i < k := by
    -- the call was not active yet when the command began
    by_contra hle
    rcases Nat.lt_or_eq_of_le (Nat.le_of_not_lt hle) with hlt | rfl
    · obtain ⟨line₀, hsuffix⟩ := hactive i hlt hi
      have hfits := (e.sited he m i).control
      rw [hstep] at hfits
      have hcalls : site.frames = (tick^[i] (e.start m)).frames := hfits.1.frames
      have hlength := hsuffix.length_le
      rw [← hcalls, List.length_cons] at hlength
      omega
    · rw [hstep] at hcall
      cases hcall
  rw [hframes] at hactive
  exact ⟨site, hframes, houter, hin, i, k, hik, hkn, ⟨actor₂, hstep⟩, hbegun,
    ⟨actor', houter ▸ hcall⟩, hactive⟩

theorem control_of_verdict {s : Stop} (h : c.verdict? = some (.error s)) : c.control = .stop s := by
  rcases c with ⟨control, stack, m⟩
  cases control with
  | eval task => cases stack <;> cases h
  | ret r => cases stack <;> cases h
  | stop s' => cases stack <;> cases h <;> rfl

/-- A fault points at the command that failed. Let a run or a load fail with a fault, and not because the
observer refused a call. The fault has no active calls exactly if its location is unset. Otherwise its location
is where the innermost call is, and its command stands there. Of any two adjacent calls, the command that the
outer one is at made the inner one. -/
theorem fault_points_at_command {e : Errand} (he : e.callsFunctions = true) {m m' : Machine} {f : Fault}
    (h : e.outcome m = (.error (.fault f), m')) (hrefused : ¬ f.IsRefusedCall m'.log) :
    (f.stack = [] ↔ f.location.isUnset = true) ∧
    (∀ frame rest, f.stack = frame :: rest →
      frame.function = f.location.function ∧ frame.line = f.location.line ∧ f.location.IsIn m.functions) ∧
    ∃ n, (tick^[n] (e.start m)).verdict? = some (.error (.fault f)) ∧ (tick^[n] (e.start m)).frames = f.stack ∧
      ∀ inner outer rest, inner :: outer :: rest <:+ f.stack →
        MadeBy m.functions (e.start m) n inner outer rest := by
  obtain ⟨-, n, hverdict, rfl⟩ := Errand.exists_tick h nofun
  have hsited := e.sited he m n
  have hcontrol := control_of_verdict hverdict
  have hfits := hsited.control
  rw [hcontrol] at hfits
  obtain ⟨hstack, hlocates⟩ := hfits f rfl
  have hlocates := hlocates.resolve_left hrefused
  refine ⟨hlocates.isUnset_iff, fun frame rest hf ↦ ?_, n, hverdict, hstack.symm, fun inner outer rest hf ↦ ?_⟩
  · rw [hf] at hlocates
    exact ⟨congrArg Frame.function hlocates.1, congrArg Frame.line hlocates.1, hlocates.2⟩
  · rw [hstack] at hf
    exact e.madeBy he m hcontrol hf

/-- A function whose second command calls another one, which fails at its second command. -/
def failing : Machine :=
  { functions := [("a:f", ["say a", "execute run function a:g"]), ("a:g", ["say b", "jump"])] }

def stackOf (r : Except Stop Unit) : List Frame :=
  match r with
  | .error (.fault f) => f.stack
  | _ => []

theorem fault_points_at_command_failing :
    ∃ f m', (Errand.run "a:f" false).outcome failing = (.error (.fault f), m') ∧ ¬ f.IsRefusedCall m'.log ∧
      f.stack = [⟨"a:g", 2⟩, ⟨"a:f", 2⟩] ∧ f.location.function = "a:g" ∧ f.location.line = 2 ∧
      f.location.IsIn failing.functions ∧ ∃ n, (tick^[n] ((Errand.run "a:f" false).start failing)).frames = f.stack ∧
        MadeBy failing.functions ((Errand.run "a:f" false).start failing) n ⟨"a:g", 2⟩ ⟨"a:f", 2⟩ [] := by
  have hstack : stackOf ((Errand.run "a:f" false).outcome failing).1 = [⟨"a:g", 2⟩, ⟨"a:f", 2⟩] := by decide +kernel
  have hlog : (eventsOf ((Errand.run "a:f" false).outcome failing).2.log).length = 0 := by decide +kernel
  rcases h : (Errand.run "a:f" false).outcome failing with ⟨(_ | _ | _) | _, m'⟩ <;> rw [h] at hstack hlog
  · rename_i f
    have hrefused : ¬ f.IsRefusedCall m'.log := by
      rintro ⟨-, function, caller, depth, hlast⟩
      rw [List.length_eq_zero_iff.1 hlog] at hlast
      cases hlast
    obtain ⟨-, hinner, n, -, hframes, hmade⟩ := fault_points_at_command rfl h hrefused
    obtain ⟨hfunction, hline, hin⟩ := hinner _ _ hstack
    refine ⟨f, m', rfl, hrefused, hstack, hfunction.symm, hline.symm, hin, n, hframes, hmade _ _ _ ?_⟩
    exact hstack ▸ List.suffix_refl _
  all_goals cases hstack

end CommandPack.Machine
