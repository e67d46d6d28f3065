import Mathlib
import CommandPack.Proofs.Drafting
import CommandPack.Compile

/-!
The bodies of functions. Compiling statements looks things up, takes notes, puts instructions at the cursors of functions
and makes branches and loops below them; what all of these keep is kept by every program.
-/

namespace CommandPack.Graph

open Stateful

variable {s s₁ : Session} {fn : Nat} {F : Set Nat} {α β : Type} {J : Set Nat → Session → Prop}

/-- A computation keeps a property of graphs and of the functions that are filled in them, with more functions than
before, and its result has a property. -/
def Upholds (J : Set Nat → Session → Prop) (x : Build α) (F : Set Nat) (s : Session)
    (Q : α → Set Nat → Session → Prop) : Prop :=
  ∃ F', F ⊆ F' ∧ J F' (x s).2 ∧ ∀ a, (x s).1 = .ok a → Q a F' (x s).2

/-- A property of graphs and of the functions that are filled in them, which no statement breaks. -/
structure Invariant (J : Set Nat → Session → Prop) : Prop where
  note {F : Set Nat} {s s' : Session} (h : J F s) (hnodes : s'.nodes = s.nodes) (hfailure : s'.failure = s.failure) : J F s'
  fill {F : Set Nat} {s : Session} {fn : Nat} (h : J F s) (hfn : fn ∈ F) (b : BlockState) :
    J F (recast s (functionOf (s.node fn)).current (.block b))
  steer {F : Set Nat} {s : Session} {fn : Nat} {f : FunctionState} (h : J F s) (hfn : fn ∈ F)
    (hf : f.current = (functionOf (s.node fn)).current) : J F (recast s fn (.function f))
  loop {F : Set Nat} {s : Session} {fn : Nat} (h : J F s) (hfn : fn ∈ F) (c : Condition) :
    Upholds J (loop fn c) F s fun body F' _ ↦ body ∈ F'
  branch {F : Set Nat} {s : Session} {fn : Nat} (h : J F s) (hfn : fn ∈ F) (c : Condition) (withElse : Bool) :
    Upholds J (branch fn c withElse) F s fun r F' _ ↦ r.1 ∈ F' ∧ ∀ e ∈ r.2, e ∈ F'

namespace Upholds

variable {x : Build α} {f : α → Build β} {Q : α → Set Nat → Session → Prop} {R : β → Set Nat → Session → Prop}

theorem of_eq_ok {F' : Set Nat} {a : α} (hx : x s = (.ok a, s₁)) (hF : F ⊆ F') (h : J F' s₁) (hQ : Q a F' s₁) :
    Upholds J x F s Q := by
  refine ⟨F', hF, hx ▸ h, fun b hb ↦ ?_⟩
  rw [hx] at hb ⊢
  cases hb
  exact hQ

theorem of_eq_error {e : Problem} (hx : x s = (.error e, s)) (h : J F s) : Upholds J x F s Q :=
  ⟨F, le_rfl, hx ▸ h, fun _ ha ↦ by rw [hx] at ha; cases ha⟩

theorem pure {a : α} (h : J F s) (hQ : Q a F s) : Upholds J (Pure.pure a) F s Q := of_eq_ok rfl le_rfl h hQ

theorem bind (hx : Upholds J x F s Q)
    (hf : ∀ a F₁ s₁, F ⊆ F₁ → J F₁ s₁ → Q a F₁ s₁ → Upholds J (f a) F₁ s₁ R) : Upholds J (x >>= f) F s R := by
  obtain ⟨F₁, hF, hs, hQ⟩ := hx
  rw [Upholds, bind_apply]
  rcases hrun : x s with ⟨e | a, s₁⟩
  · rw [hrun] at hs
    exact ⟨F₁, hF, hs, nofun⟩
  · rw [hrun] at hs hQ
    obtain ⟨F₂, hF', hfin⟩ := hf a F₁ s₁ hF hs (hQ a rfl)
    exact ⟨F₂, hF.trans hF', hfin⟩

theorem mono {Q' : α → Set Nat → Session → Prop} (hx : Upholds J x F s Q) (h : ∀ a F₁ s₁, Q a F₁ s₁ → Q' a F₁ s₁) :
    Upholds J x F s Q' := by
  obtain ⟨F', hF, hs, hQ⟩ := hx
  exact ⟨F', hF, hs, fun a ha ↦ h a _ _ (hQ a ha)⟩

end Upholds

/-- A computation that makes no node, whether it succeeds or not, and builds only on the functions in `F`. -/
def Calm (F : Set Nat) (x : Build α) : Prop :=
  ∀ ⦃J⦄, Invariant J → ∀ ⦃F' s⦄, F ⊆ F' → J F' s → J F' (x s).2

namespace Calm

variable {x : Build α} {f : α → Build β}

theorem pure (a : α) : Calm F (Pure.pure a : Build α) := fun _ _ _ _ _ h ↦ h

theorem throw (p : Problem) : Calm F (MonadExcept.throw p : Build α) := fun _ _ _ _ _ h ↦ h

theorem get : Calm F (MonadState.get : Build Session) := fun _ _ _ _ _ h ↦ h

theorem bind (hx : Calm F x) (hf : ∀ a, Calm F (f a)) : Calm F (x >>= f) := by
  intro J hJ F' s hF h
  have hs := hx hJ hF h
  rw [bind_apply]
  rcases hrun : x s with ⟨e | a, s₁⟩
  · rwa [hrun] at hs
  · rw [hrun] at hs
    exact hf a hJ hF hs

theorem tryCatch {f : Problem → Build α} (hx : Calm F x) (hf : ∀ p, Calm F (f p)) : Calm F (tryCatch x f) := by
  intro J hJ F' s hF h
  have hs := hx hJ hF h
  rw [tryCatch_apply]
  rcases hrun : x s with ⟨p | a, s₁⟩
  · rw [hrun] at hs
    exact hf p hJ hF hs
  · rwa [hrun] at hs

theorem note (x : Synth α) : Calm F (liftM x : Build α) := fun _ hJ _ _ _ h ↦ hJ.note h rfl rfl

theorem check (r : Except Problem α) : Calm F (liftM r : Build α) := by
  cases r with
  | ok a => exact .pure a
  | error p => exact .throw p

theorem upholds (hx : Calm F x) (hJ : Invariant J) (h : J F s) : Upholds J x F s fun _ _ _ ↦ True :=
  ⟨F, le_rfl, hx hJ le_rfl h, fun _ _ ↦ trivial⟩

/-- What builds on no function leaves all nodes as they are. -/
theorem nodes_eq (hx : Calm ∅ x) (s : Session) : (x s).2.nodes = s.nodes ∧ (x s).2.failure = s.failure := by
  have hJ : Invariant fun F s' ↦ F = ∅ ∧ s'.nodes = s.nodes ∧ s'.failure = s.failure := by
    refine ⟨fun h hnodes hfailure ↦ ⟨h.1, hnodes.trans h.2.1, hfailure.trans h.2.2⟩, fun h hfn ↦ ?_, fun h hfn ↦ ?_,
      fun h hfn ↦ ?_, fun h hfn ↦ ?_⟩
    all_goals
      rw [h.1] at hfn
      cases hfn
  exact (hx hJ le_rfl ⟨rfl, rfl, rfl⟩).2

end Calm

theorem calm_path (id : Nat) : Calm F (path id) := fun _ _ _ _ _ h ↦ h

theorem calm_function (id : Nat) : Calm F (function id) := fun _ _ _ _ _ h ↦ h

theorem calm_checkOpen (fn : Nat) : Calm F (checkOpen fn) := by
  refine .bind (calm_function fn) fun f ↦ ?_
  split
  · exact .bind (calm_path fn) fun _ ↦ .throw _
  · exact .pure ()

theorem calm_scoreIn (owner : Nat) (player : String) (objective : Name) : Calm F (scoreIn owner player objective) :=
  .bind (calm_path owner) fun _ ↦ .bind (.note _) fun _ ↦ .pure _

theorem calm_score (owner : Nat) (player : String) : Calm F (score owner player) :=
  .bind .get fun _ ↦ calm_scoreIn owner player _

section Functions

variable (hfn : fn ∈ F)

include hfn

theorem calm_add (cmds : List Instruction) : Calm F (add fn cmds) := by
  intro J hJ F' s hF h
  rcases add_cases fn cmds s with ⟨e, he⟩ | hrun
  · rwa [he]
  · rw [hrun]
    exact hJ.fill h (hF hfn) _

theorem calm_updateFunction {g : FunctionState → FunctionState} (hg : ∀ f, (g f).current = f.current) :
    Calm F (updateFunction fn g) := by
  intro J hJ F' s hF h
  rw [updateFunction_apply]
  exact hJ.steer h (hF hfn) (hg _)

theorem calm_finish : Calm F (finish fn) := by
  have hend : Calm F (updateFunction fn fun f ↦ { f with ended := true }) := calm_updateFunction hfn fun _ ↦ rfl
  intro J hJ F' s hF h
  rw [finish, bind_apply, function_apply, andThen_ok]
  split
  · rw [bind_apply, updateBlock_apply, andThen_ok]
    exact hend hJ hF (hJ.fill h (hF hfn) _)
  · exact h

theorem calm_call (callee : Option Target) : Calm F (call fn callee) := .bind (.check _) fun _ ↦ calm_add hfn _

theorem calm_move (src dst : Operand) : Calm F (move fn src dst) :=
  .bind (calm_checkOpen fn) fun _ ↦ .bind (.note _) fun _ ↦ calm_add hfn _

theorem calm_addInPlace (dst delta : Operand) : Calm F (addInPlace fn dst delta) :=
  .bind (calm_checkOpen fn) fun _ ↦ .bind (.note _) fun _ ↦ calm_add hfn _

theorem calm_leave (value : Option Operand) : Calm F (leave fn value) := by
  have hdrop : Calm F (updateFunction fn fun f ↦ { f with continuation := none }) := calm_updateFunction hfn fun _ ↦ rfl
  refine .bind (calm_checkOpen fn) fun _ ↦ ?_
  split
  · exact hdrop
  · refine .bind .get fun s ↦ ?_
    split
    · exact .bind (calm_path fn) fun _ ↦ .throw _
    · exact .bind (calm_move hfn _ _) fun _ ↦ hdrop

end Functions

section Altered

variable {V : Vocabulary} {R : Session → Prop}

/-- A property that no step breaks holds of a graph in order, in which some nodes are functions. -/
def Sound (V : Vocabulary) (R : Session → Prop) (F : Set Nat) (s : Session) : Prop :=
  R s ∧ Sane V s ∧ ∀ fn ∈ F, IsFunction s fn

theorem Sound.altered (hR : ∀ {s s'}, R s → Alters V s s' → R s') (h : Sound V R F s) (hs : Altered V s s₁) :
    Sound V R F s₁ := by
  refine ⟨?_, hs.sane h.2.1, fun fn hfn ↦ hs.before.function (h.2.2 fn hfn)⟩
  induction hs with
  | refl => exact h.1
  | tail _ hstep ih => exact hR ih hstep

theorem invariant_sound (hV : V.Usual) (hR : ∀ {s s'}, R s → Alters V s s' → R s') : Invariant (Sound V R) where
  note h hnodes hfailure := h.altered hR (.single (.note hnodes hfailure))
  fill h hfn _ := h.altered hR (.single (.fill (h.2.1.current (h.2.2 _ hfn))))
  steer h hfn hf := h.altered hR (.single (.steer (h.2.2 _ hfn) (hf ▸ h.2.1.current (h.2.2 _ hfn))))
  loop {F s fn} h hfn c := by
    obtain ⟨hsteps, hbody⟩ := altered_loop hV h.2.1 (h.2.2 _ hfn) c
    have hs := h.altered hR hsteps
    refine ⟨F ∪ { id | IsFunction (loop fn c s).2 id }, Set.subset_union_left, ⟨hs.1, hs.2.1, ?_⟩, fun a ha ↦ .inr (hbody a ha)⟩
    exact fun id hid ↦ hid.elim (hs.2.2 id) fun h ↦ h
  branch {F s fn} h hfn c withElse := by
    obtain ⟨hsteps, hbodies⟩ := altered_branch hV h.2.1 (h.2.2 _ hfn) c withElse
    have hs := h.altered hR hsteps
    refine ⟨F ∪ { id | IsFunction (branch fn c withElse s).2 id }, Set.subset_union_left, ⟨hs.1, hs.2.1, ?_⟩,
      fun r hr ↦ ⟨.inr (hbodies r hr).1, fun e he ↦ .inr ((hbodies r hr).2 e he)⟩⟩
    exact fun id hid ↦ hid.elim (hs.2.2 id) fun h ↦ h

end Altered

end CommandPack.Graph

namespace CommandPack.Compile

open Stateful CommandPack.Graph

variable {α : Type} {fn : Nat} {F : Set Nat} {s : Session} {J : Set Nat → Session → Prop} (sc : Scope)

variable {sc} in
theorem calm_locate {x : Build α} (pos : Position) (hx : Calm F x) : Calm F (locate sc pos x) :=
  .tryCatch hx fun _ ↦ .bind .get fun _ ↦ .throw _

theorem calm_failAt (pos : Position) (p : Problem) : Calm F (failAt sc pos p : Build α) := calm_locate pos (.throw p)

theorem calm_lookupName (name : String) : Calm F (lookupName sc name) := by
  unfold lookupName
  split
  · exact .pure _
  · exact .pure _
  · exact .throw _
  · exact .throw _
  · split
    · exact .pure _
    · exact .throw _
  · split
    · exact .pure _
    · exact .throw _

theorem calm_lookup (t : Term) : Calm F (lookup sc t) := by
  unfold lookup
  split
  · exact calm_lookupName sc _
  · exact .throw _

theorem calm_access (lib : Library) : Calm F lib.access :=
  .bind (calm_function _) fun _ ↦ .bind (calm_path _) fun _ ↦ .pure _

theorem calm_memberOf (object name : String) : Calm F (memberOf sc object name) := by
  refine .bind (calm_lookupName sc object) fun v ↦ ?_
  split
  · exact .throw _
  · split
    · exact .throw _
    · refine .bind ?_ fun _ ↦ .pure _
      cases sc.lib with
      | none => exact .pure none
      | some lib => exact .bind (calm_access lib) fun _ ↦ .pure _

theorem calm_variable (t : Term) : Calm F (variable_ sc t) := by
  unfold variable_
  split
  · exact calm_memberOf sc _ _
  · exact .bind (calm_lookup sc t) fun _ ↦ .pure _

theorem calm_operand (t : Term) (want : DataType) : Calm F (operand sc t want) := by
  unfold operand
  split
  · exact .check _
  · exact .pure _
  · exact .pure _
  · exact calm_variable sc t

theorem calm_comparison (t : Test) (v : Score) (right : Term) : Calm F (comparison sc t v right) := by
  unfold comparison
  split
  · exact .bind (.check _) fun _ ↦ .pure _
  · refine .bind (calm_variable sc right) fun _ ↦ ?_
    split
    · exact .pure _
    · exact .throw _
  · exact .throw _

theorem calm_condition (t : Test) : Calm F (condition sc t) := by
  refine .bind (calm_variable sc t.left) fun left ↦ ?_
  split
  · split
    · exact .pure _
    · exact .throw _
  · split
    · split
      · exact .pure _
      · split
        · exact calm_comparison sc t _ _
        · exact .throw _
    · exact .throw _

theorem calm_callee (name : String) : Calm F (callee sc name) := by
  unfold callee
  split
  · split
    · exact .pure _
    · exact .throw _
  · split
    · exact .throw _
    · refine .bind .get fun s ↦ ?_
      split
      · exact .throw _
      · split
        · exact .pure _
        · exact .throw _

theorem calm_parts (ps : List Piece) : Calm F (parts sc ps) := by
  induction ps with
  | nil => exact .pure _
  | cons p ps ih =>
    cases p with
    | text pos s => exact .bind ih fun _ ↦ .pure _
    | style pos values => exact .bind ih fun _ ↦ .pure _
    | term t => exact .bind (calm_operand sc t .any) fun _ ↦ .bind ih fun _ ↦ .pure _

theorem calm_method (cls : Nat) (name : String) : Calm F (Library.method cls name) := by
  refine .bind .get fun s ↦ ?_
  split
  · exact .throw _
  · split
    · exact .pure _
    · exact .throw _

def isPlainStmt : Stmt → Bool
  | .loop .. | .branch .. => false
  | _ => true

section Functions

variable (hfn : fn ∈ F)

include hfn

theorem calm_registersCall (r : Registers) (callee : Nat) (arg : Option Operand) : Calm F (r.call fn callee arg) := by
  have hcall : Calm F (do
      let entry := (← Graph.function callee).entry
      Graph.call fn (some ⟨← Graph.path entry, none⟩)) :=
    .bind (calm_function callee) fun _ ↦ .bind (calm_path _) fun _ ↦ calm_call hfn _
  cases arg with
  | none => exact hcall
  | some a => exact .bind (calm_move hfn a _) fun _ ↦ hcall

theorem calm_newObject (r : Registers) (cls : Nat) (target : Operand) :
    Calm F (Library.newObject r fn cls target) :=
  .bind (calm_method cls _) fun _ ↦ .bind (calm_method cls _) fun _ ↦ .bind (calm_registersCall hfn r _ _) fun _ ↦
    .bind (calm_move hfn _ _) fun _ ↦ calm_registersCall hfn r _ _

theorem calm_compileCreate (cls : String) (var : Term) : Calm F (compileCreate sc fn cls var) := by
  unfold compileCreate
  split
  · exact .throw _
  · split
    · exact .throw _
    · refine .bind (calm_lookup sc var) fun v ↦ ?_
      have hnew := calm_newObject hfn
      split
      · refine .bind .get fun s ↦ ?_
        split
        · exact .bind (.throw _) fun _ ↦ hnew _ _ _
        · exact hnew _ _ _
      · exact hnew _ _ _

theorem calm_compileCall (name : String) (arg : Option Term) : Calm F (compileCall sc fn name arg) := by
  refine .bind (calm_callee sc name) fun target ↦ ?_
  split
  · exact .bind (calm_function target) fun _ ↦ .bind (calm_path _) fun _ ↦ calm_call hfn _
  · exact .throw _
  · exact .bind (calm_operand sc _ .any) fun _ ↦ calm_registersCall hfn _ target _

theorem calm_compileOp (var : Term) (operator : String) (value : Term) :
    Calm F (compileOp sc fn var operator value) := by
  refine .bind (calm_variable sc var) fun x ↦ ?_
  split
  · exact .bind (.check _) fun _ ↦ .bind (calm_operand sc value .int) fun _ ↦ .bind (.note _) fun _ ↦ calm_add hfn _
  · exact .throw _

theorem calm_compileStmt {st : Stmt} (hst : isPlainStmt st = true) : Calm F (compileStmt sc fn st) := by
  cases st with
  | set pos var value =>
    simp only [compileStmt]
    exact calm_locate pos (.bind (calm_variable sc var) fun _ ↦ .bind (calm_operand sc value _) fun _ ↦ calm_move hfn _ _)
  | add pos var value =>
    simp only [compileStmt]
    exact calm_locate pos
      (.bind (calm_variable sc var) fun _ ↦ .bind (calm_operand sc value _) fun _ ↦ calm_addInPlace hfn _ _)
  | op pos var operator value =>
    simp only [compileStmt]
    exact calm_locate pos (calm_compileOp sc hfn var operator value)
  | loop | branch => cases hst
  | call pos name arg =>
    simp only [compileStmt]
    exact calm_locate pos (calm_compileCall sc hfn name arg)
  | leave pos value =>
    cases value with
    | none =>
      simp only [compileStmt]
      exact calm_locate pos (calm_leave hfn none)
    | some v =>
      simp only [compileStmt]
      exact calm_locate pos (.bind (calm_operand sc v .any) fun _ ↦ calm_leave hfn _)
  | command pos text =>
    simp only [compileStmt]
    exact calm_locate pos (calm_add hfn _)
  | print pos target pieces =>
    simp only [compileStmt]
    exact calm_locate pos (.bind (calm_parts sc pieces) fun _ ↦ .bind (.note _) fun _ ↦ calm_add hfn _)
  | create pos cls var =>
    simp only [compileStmt]
    exact calm_locate pos (calm_compileCreate sc hfn cls var)

end Functions

/-- A property of statements holds of the plain ones, and of loops and branches once it holds of their bodies. -/
theorem stmt_induction {P : Stmt → Prop} (plain : ∀ st, isPlainStmt st = true → P st)
    (loop : ∀ pos test body, (∀ st ∈ body, P st) → P (.loop pos test body))
    (branch : ∀ pos test yes no, (∀ st ∈ yes, P st) → (∀ ss ∈ no, ∀ st ∈ ss, P st) → P (.branch pos test yes no))
    (st : Stmt) : P st :=
  @Stmt.rec P (fun ss ↦ ∀ st ∈ ss, P st) (fun no ↦ ∀ ss ∈ no, ∀ st ∈ ss, P st)
    (fun _ _ _ ↦ plain _ rfl) (fun _ _ _ ↦ plain _ rfl) (fun _ _ _ _ ↦ plain _ rfl) loop branch
    (fun _ _ _ ↦ plain _ rfl) (fun _ _ ↦ plain _ rfl) (fun _ _ ↦ plain _ rfl) (fun _ _ _ ↦ plain _ rfl)
    (fun _ _ _ ↦ plain _ rfl) nofun (fun _ _ h hs ↦ List.forall_mem_cons.2 ⟨h, hs⟩) nofun
    (fun _ h _ hss ↦ Option.mem_some.1 hss ▸ h) st

variable {sc}

theorem upholds_tryCatch (hJ : Invariant J) {x : Build α} {f : Problem → Build α}
    (hx : Upholds J x F s fun _ _ _ ↦ True) (hf : ∀ p, Calm ∅ (f p)) : Upholds J (tryCatch x f) F s fun _ _ _ ↦ True := by
  obtain ⟨F', hF, hs, -⟩ := hx
  refine ⟨F', hF, ?_, fun _ _ ↦ trivial⟩
  rw [tryCatch_apply]
  rcases hrun : x s with ⟨e | a, s₁⟩
  · rw [hrun] at hs
    exact hf e hJ (Set.empty_subset _) hs
  · rwa [hrun] at hs

section Statements

variable (hJ : Invariant J)

include hJ

theorem upholds_locate {x : Build α} (pos : Position) (hx : Upholds J x F s fun _ _ _ ↦ True) :
    Upholds J (locate sc pos x) F s fun _ _ _ ↦ True :=
  upholds_tryCatch hJ hx fun _ ↦ .bind .get fun _ ↦ .throw _

theorem upholds_compileBody {ss : List Stmt}
    (hss : ∀ st ∈ ss, ∀ F s fn, J F s → fn ∈ F → Upholds J (compileStmt sc fn st) F s fun _ _ _ ↦ True)
    (h : J F s) (hfn : fn ∈ F) : Upholds J (compileBody sc fn ss) F s fun _ _ _ ↦ True := by
  induction ss generalizing s F with
  | nil => exact .pure h trivial
  | cons st ss ih =>
    simp only [compileBody]
    refine .bind (hss st List.mem_cons_self F s fn h hfn) fun _ F₁ s₁ hF h₁ _ ↦ ?_
    split
    · exact (calm_failAt sc _ _).upholds hJ h₁
    · exact ih (fun st hst ↦ hss st (List.mem_cons_of_mem _ hst)) h₁ (hF hfn)

theorem upholds_compileStmt (st : Stmt) :
    ∀ F s fn, J F s → fn ∈ F → Upholds J (compileStmt sc fn st) F s fun _ _ _ ↦ True := by
  have hfill {ss : List Stmt}
      (hss : ∀ st ∈ ss, ∀ F s fn, J F s → fn ∈ F → Upholds J (compileStmt sc fn st) F s fun _ _ _ ↦ True)
      {F : Set Nat} {s : Session} {fn : Nat} (h : J F s) (hfn : fn ∈ F) :
      Upholds J (do compileBody sc fn ss; Graph.finish fn) F s fun _ _ _ ↦ True :=
    .bind (upholds_compileBody hJ hss h hfn) fun _ _ _ hF h₁ _ ↦ (calm_finish (hF hfn)).upholds hJ h₁
  induction st using stmt_induction with
  | plain st hst => exact fun F s fn h hfn ↦ (calm_compileStmt sc hfn hst).upholds hJ h
  | loop pos test body hbody =>
    intro F s fn h hfn
    simp only [compileStmt]
    refine upholds_locate hJ pos (.bind ((calm_condition sc test).upholds hJ h) fun c F₁ s₁ hF h₁ _ ↦ ?_)
    exact .bind (hJ.loop h₁ (hF hfn) c) fun inner F₂ s₂ _ h₂ hinner ↦ hfill hbody h₂ hinner
  | branch pos test yes no hyes hno =>
    intro F s fn h hfn
    cases no with
    | none =>
      simp only [compileStmt, Graph.ifThen, bind_assoc, pure_bind]
      refine upholds_locate hJ pos (.bind ((calm_condition sc test).upholds hJ h) fun c F₁ s₁ hF h₁ _ ↦ ?_)
      exact .bind (hJ.branch h₁ (hF hfn) c false) fun r F₂ s₂ _ h₂ hr ↦ hfill hyes h₂ hr.1
    | some no =>
      simp only [compileStmt]
      refine upholds_locate hJ pos (.bind ((calm_condition sc test).upholds hJ h) fun c F₁ s₁ hF h₁ _ ↦ ?_)
      refine .bind (hJ.branch h₁ (hF hfn) c true) fun r F₂ s₂ _ h₂ hr ↦ ?_
      obtain ⟨inner, other⟩ := r
      refine .bind (upholds_compileBody hJ hyes h₂ hr.1) fun _ F₃ s₃ hF₃ h₃ _ ↦ ?_
      refine .bind ((calm_finish (hF₃ hr.1)).upholds hJ h₃) fun _ F₄ s₄ hF₄ h₄ _ ↦ ?_
      cases other with
      | none => exact .pure h₄ trivial
      | some other => exact hfill (hno no rfl) h₄ (hF₄ (hF₃ (hr.2 other rfl)))

theorem upholds_fillFunction (decl : FunctionDecl) (family : Option Family) (h : J F s) (hfn : fn ∈ F) :
    Upholds J (fillFunction sc decl fn family) F s fun _ _ _ ↦ True := by
  have hbody (sc : Scope) {F : Set Nat} {s : Session} (h : J F s) (hfn : fn ∈ F) :
      Upholds J (compileBody sc fn decl.body) F s fun _ _ _ ↦ True :=
    upholds_compileBody hJ (fun st _ ↦ upholds_compileStmt hJ st) h hfn
  cases family with
  | none => exact hbody _ h hfn
  | some c =>
    cases hlib : sc.lib with
    | none =>
      simp only [fillFunction, hlib]
      exact hbody _ h hfn
    | some lib =>
      simp only [fillFunction, hlib]
      refine .bind ((calm_score fn _).upholds hJ h) fun v F₁ s₁ hF₁ h₁ _ ↦ ?_
      refine .bind ((calm_move (hF₁ hfn) _ _).upholds hJ h₁) fun _ F₂ s₂ hF₂ h₂ _ ↦ ?_
      exact .bind ((Calm.pure _).upholds hJ h₂) fun self F₃ s₃ hF₃ h₃ _ ↦ hbody _ h₃ (hF₃ (hF₂ (hF₁ hfn)))

theorem upholds_compileFunction (decl : FunctionDecl) (family : Option Family) (h : J F s) (hfn : fn ∈ F) :
    Upholds J (compileFunction sc decl fn family) F s fun _ _ _ ↦ True := by
  refine .bind ((Calm.note _).upholds hJ h) fun _ F₁ s₁ hF h₁ _ ↦ ?_
  refine .bind (upholds_tryCatch hJ (.bind (upholds_locate hJ decl.pos (upholds_fillFunction hJ decl family h₁ (hF hfn)))
    fun _ _ _ _ h₂ _ ↦ .pure h₂ trivial) fun _ ↦ .pure _) fun _ F₂ s₂ hF₂ h₂ _ ↦ ?_
  exact (Calm.bind (calm_finish (hF₂ (hF hfn))) fun _ ↦ .bind (.note _) fun _ ↦ .pure _).upholds hJ h₂

theorem upholds_fillAll {todo : List (FunctionDecl × NodeId × Option Family)} (h : J F s)
    (htodo : ∀ job ∈ todo, job.2.1 ∈ F) : Upholds J (fillAll sc todo) F s fun _ _ _ ↦ True := by
  induction todo generalizing s F with
  | nil => exact .pure h trivial
  | cons job rest ih =>
    rw [List.forall_mem_cons] at htodo
    refine .bind (upholds_compileFunction hJ job.1 job.2.2 h htodo.1) fun _ F₁ s₁ hF h₁ _ ↦ ?_
    exact .bind (ih h₁ fun job hjob ↦ hF (htodo.2 job hjob)) fun _ _ _ _ h₂ _ ↦ .pure h₂ trivial

end Statements

end CommandPack.Compile
