import Mathlib
import CommandPack.Proofs.Guarding
import CommandPack.Proofs.Words

/-!
The meaning of structured function bodies: commands in order, branches, loops, and leaving the
function from anywhere inside them.
-/

namespace CommandPack.Machine

open Stateful

variable {c cond line o : String} {body next plan : Plan} {e : Exit} {b : Bool}

/-- The body of a function over written commands and conditions. A body ends by being done or by
leaving the function. -/
inductive Plan where
  | done
  | leave
  | act (lines : List String) (next : Plan)
  | ifThen (cond : String) (yes next : Plan)
  | ifElse (cond : String) (yes no next : Plan)
  | loop (cond : String) (body next : Plan)

/-- How a body ends. -/
inductive Exit where
  | done
  | left
deriving DecidableEq

/-- Executes a written command, apart from what a run counts and shows. -/
def obey (call : Call) (site : Site) (actor : Actor) (line : String) : Action Result :=
  match splitWords line with
  | .error e => fault site (.words line e)
  | .ok words => perform call site words actor

/-- No function is there to be called. -/
def noCall : Call := fun path _ site _ ↦ fault site (.unknownFunction path)

def wordsOf (cond : String) : List String := (splitWords cond).toOption.getD []

def Obeys (line : String) (m m' : Machine) : Prop := ∃ r, obey noCall {} {} line m = (.ok r, m')

/-- Using the objective `o` and testing a condition gives a truth value and another machine: what is
named for the first time is there from then on. -/
def Tells (o cond : String) (m : Machine) (holds : Bool) (m' : Machine) : Prop :=
  ∃ m₁ t, useObjective {} o m = (.ok (), m₁) ∧ test {} {} (wordsOf cond) m₁ = (.ok t, m') ∧
    t.holds = holds

/-- What a body does. Branches and loops keep scores of their own in the objective `o`, which is there
from the first of them on. -/
inductive Exec (o : String) : Plan → Machine → Exit → Machine → Prop
  | done (m) : Exec o .done m .done m
  | leave (m) : Exec o .leave m .left m
  | skip {next m e m'} (h : Exec o next m e m') : Exec o (.act [] next) m e m'
  | act {l ls next m m₁ e m'} (hl : Obeys l m m₁) (h : Exec o (.act ls next) m₁ e m') :
      Exec o (.act (l :: ls) next) m e m'
  | ifThen {c yes next m m₁ m₂ e m'} (hc : Tells o c m true m₁) (hyes : Exec o yes m₁ .done m₂)
      (h : Exec o next m₂ e m') : Exec o (.ifThen c yes next) m e m'
  | ifThenLeft {c yes next m m₁ m'} (hc : Tells o c m true m₁) (hyes : Exec o yes m₁ .left m') :
      Exec o (.ifThen c yes next) m .left m'
  | ifNot {c yes next m m₁ e m'} (hc : Tells o c m false m₁) (h : Exec o next m₁ e m') :
      Exec o (.ifThen c yes next) m e m'
  | ifElse {c yes no next m b m₁ m₂ e m'} (hc : Tells o c m b m₁)
      (hside : Exec o (bif b then yes else no) m₁ .done m₂) (h : Exec o next m₂ e m') :
      Exec o (.ifElse c yes no next) m e m'
  | ifElseLeft {c yes no next m b m₁ m'} (hc : Tells o c m b m₁)
      (hside : Exec o (bif b then yes else no) m₁ .left m') :
      Exec o (.ifElse c yes no next) m .left m'
  | loopEnd {c body next m m₁ e m'} (hc : Tells o c m false m₁) (h : Exec o next m₁ e m') :
      Exec o (.loop c body next) m e m'
  | loopRound {c body next m m₁ m₂ e m'} (hc : Tells o c m true m₁) (hbody : Exec o body m₁ .done m₂)
      (h : Exec o (.loop c body next) m₂ e m') : Exec o (.loop c body next) m e m'
  | loopLeft {c body next m m₁ m'} (hc : Tells o c m true m₁) (hbody : Exec o body m₁ .left m') :
      Exec o (.loop c body next) m .left m'

/-- A command calls no function, and neither reads nor changes the hidden scores. -/
structure Alone (h : Hidden) (line : String) : Prop where
  alike (call call' : Call) (site site' : Site) :
    Alike (SameBut h) (obey call site {} line) (obey call' site' {} line)
  score {call : Call} {site : Site} {m m' : Machine} {r : Result}
    (hm : obey call site {} line m = (.ok r, m')) {p : String} (hp : p ∈ h.players) :
    score? m' (.player p) h.objective = score? m (.player p) h.objective
  objective {call : Call} {site : Site} {m m' : Machine} {r : Result}
    (hm : obey call site {} line m = (.ok r, m')) (ho : h.objective ∈ m.objectives) :
    h.objective ∈ m'.objectives

/-- A text is one condition, on one line, that does not read the hidden scores. -/
structure IsCondition (h : Hidden) (cond : String) : Prop where
  isTest : IsTest (wordsOf cond)
  overlooks : Overlooks h (wordsOf cond)
  line : '\n' ∉ cond.toList

def Plan.Spares (h : Hidden) : Plan → Prop
  | done | leave => True
  | act lines next => (∀ l ∈ lines, Alone h l) ∧ next.Spares h
  | ifThen c yes next => IsCondition h c ∧ yes.Spares h ∧ next.Spares h
  | ifElse c yes no next => IsCondition h c ∧ yes.Spares h ∧ no.Spares h ∧ next.Spares h
  | loop c body next => IsCondition h c ∧ body.Spares h ∧ next.Spares h

theorem IsCondition.split (hc : IsCondition h cond) : splitWords cond = .ok (wordsOf cond) := by
  have hne := hc.isTest.ne_nil
  cases hs : splitWords cond with
  | error e => simp [wordsOf, hs, Except.toOption] at hne
  | ok words => simp [wordsOf, hs, Except.toOption]

variable {h : Hidden} {m m' m₁ n n' n₁ : Machine}

def Plan.lines : Plan → List String
  | done | leave => []
  | act ls next => ls ++ next.lines
  | ifThen _ yes next => yes.lines ++ next.lines
  | ifElse _ yes no next => yes.lines ++ no.lines ++ next.lines
  | loop _ body next => body.lines ++ next.lines

theorem Plan.Spares.alone (hplan : plan.Spares h) : ∀ l ∈ plan.lines, Alone h l := by
  induction plan with
  | done | leave => simp [lines]
  | act ls next ih => exact fun l hl ↦ (List.mem_append.1 hl).elim (hplan.1 l) (ih hplan.2 l)
  | ifThen _ _ _ ih ih' | loop _ _ _ ih ih' =>
    exact fun l hl ↦ (List.mem_append.1 hl).elim (ih hplan.2.1 l) (ih' hplan.2.2 l)
  | ifElse _ _ _ _ ih ih₂ ih' =>
    obtain ⟨-, hyes, hno, hnext⟩ := hplan
    intro l hl
    simp only [lines, List.mem_append] at hl
    rcases hl with (hl | hl) | hl
    · exact ih hyes l hl
    · exact ih₂ hno l hl
    · exact ih' hnext l hl

theorem Plan.Spares.side {yes no : Plan} (hplan : (Plan.ifElse c yes no next).Spares h) (b : Bool) :
    (bif b then yes else no).Spares h := by
  cases b
  · exact hplan.2.2.1
  · exact hplan.2.1

/-- The functions and the limits of machines are the same. -/
def SameSetup (m m' : Machine) : Prop := m'.toSetup = m.toSetup

instance : IsPreorder Machine SameSetup where
  refl _ := rfl
  trans _ _ _ h h' := h'.trans h

theorem allowsAll_sameSetup : AllowsAll SameSetup where
  scores := .of_all fun _ _ _ _ ↦ rfl
  data := .of_all fun _ _ _ _ ↦ rfl
  entities := .of_all fun _ _ _ ↦ rfl
  chat _ _ := rfl
  rules _ _ _ := rfl

theorem allowsCounters_sameSetup : AllowsCounters SameSetup := fun _ _ _ ↦ rfl

theorem keeps_obey {R : Machine → Machine → Prop} [IsPreorder Machine R] {call : Call}
    (hcall : ∀ path caller site actor, Keeps R (call path caller site actor)) (hR : AllowsAll R) (site : Site)
    (actor : Actor) (line : String) : Keeps R (obey call site actor line) := by
  unfold obey
  split
  · exact keeps_fault site _
  · exact keeps_perform site actor hcall hR _

theorem Obeys.sameSetup (hm : Obeys line m m') : SameSetup m m' := by
  obtain ⟨r, hm⟩ := hm
  exact (keeps_obey (fun _ _ site _ ↦ keeps_fault site _) allowsAll_sameSetup {} {} line).of_eq hm

theorem Tells.sameSetup (hm : Tells o cond m b m') : SameSetup m m' := by
  obtain ⟨m₁, t, ho, ht, -⟩ := hm
  have h₁ := (keeps_useObjective {} allowsAll_sameSetup.scores.newObjective o).of_eq ho
  have h₂ := (keeps_test {} {} allowsAll_sameSetup.scores.newObjective allowsAll_sameSetup.data.newData _).of_eq ht
  exact trans_of SameSetup h₁ h₂

theorem Exec.sameSetup (hm : Exec o plan m e m') : SameSetup m m' := by
  induction hm with
  | done | leave => exact refl_of SameSetup _
  | skip _ ih => exact ih
  | act hl _ ih => exact trans_of SameSetup hl.sameSetup ih
  | ifThen hc _ _ ih ih' | loopRound hc _ _ ih ih' | ifElse hc _ _ ih ih' =>
    exact trans_of SameSetup hc.sameSetup (trans_of SameSetup ih ih')
  | ifThenLeft hc _ ih | ifNot hc _ ih | ifElseLeft hc _ ih | loopEnd hc _ ih | loopLeft hc _ ih =>
    exact trans_of SameSetup hc.sameSetup ih

theorem Tells.mem_objectives (hm : Tells o cond m b m') : o ∈ m'.objectives := by
  obtain ⟨m₁, t, ho, ht, -⟩ := hm
  have hgrown := (keeps_test {} {} (Grown.newObjective (h := ⟨∅, o⟩)) Grown.newData _).of_eq ht
  exact hgrown.objectives.subset (mem_of_useObjective ho)

theorem Obeys.congr (hl : Alone h line) (hm : Obeys line m m₁) (hmn : SameBut h m n) :
    ∃ n₁, Obeys line n n₁ ∧ SameBut h m₁ n₁ := by
  obtain ⟨r, hm⟩ := hm
  obtain ⟨n₁, hn, hsame⟩ := (hl.alike noCall noCall {} {}).ok hmn hm
  exact ⟨n₁, ⟨r, hn⟩, hsame⟩

theorem Tells.congr (hc : IsCondition h cond) (hm : Tells o cond m b m₁) (hmn : SameBut h m n) :
    ∃ n₁, Tells o cond n b n₁ ∧ SameBut h m₁ n₁ := by
  obtain ⟨m₂, t, ho, ht, hb⟩ := hm
  obtain ⟨n₂, ho', hsame⟩ := (alike_useObjective h {} {} o).ok hmn ho
  obtain ⟨n₁, ht', hsame⟩ := (hc.isTest.alike hc.overlooks {} {} {}).ok hsame ht
  exact ⟨n₁, ⟨n₂, t, ho', ht', hb⟩, hsame⟩

theorem Obeys.same (hl : Alone h line) (hm : Obeys line m m₁) (hn : Obeys line n n₁) (hmn : SameBut h m n) :
    SameBut h m₁ n₁ := by
  obtain ⟨n₂, ⟨r, hn₂⟩, hsame⟩ := hm.congr hl hmn
  obtain ⟨r', hn⟩ := hn
  rw [hn] at hn₂
  obtain rfl : n₁ = n₂ := congrArg Prod.snd hn₂
  exact hsame

theorem Tells.same {b' : Bool} (hc : IsCondition h cond) (hm : Tells o cond m b m₁) (hn : Tells o cond n b' n₁)
    (hmn : SameBut h m n) : b = b' ∧ SameBut h m₁ n₁ := by
  obtain ⟨n₂, ⟨k, t, ho, ht, rfl⟩, hsame⟩ := hm.congr hc hmn
  obtain ⟨k', t', ho', ht', rfl⟩ := hn
  rw [ho] at ho'
  obtain rfl : k = k' := congrArg Prod.snd ho'
  rw [ht] at ht'
  simp only [outcome_eq_iff, Except.ok.injEq] at ht'
  obtain ⟨rfl, rfl⟩ := ht'
  exact ⟨rfl, hsame⟩

theorem Exec.same {e' : Exit} (hm : Exec h.objective plan m e m') (hplan : plan.Spares h)
    (hn : Exec h.objective plan n e' n') (hmn : SameBut h m n) : e = e' ∧ SameBut h m' n' := by
  induction hm generalizing n e' n' with
  | done =>
    cases hn
    exact ⟨rfl, hmn⟩
  | leave =>
    cases hn
    exact ⟨rfl, hmn⟩
  | skip _ ih =>
    cases hn with
    | skip hn => exact ih hplan.2 hn hmn
  | act hl _ ih =>
    obtain ⟨hlines, hnext⟩ := hplan
    cases hn with
    | act hl' hn =>
      exact ih ⟨fun l hl ↦ hlines l (List.mem_cons_of_mem _ hl), hnext⟩ hn
        (hl.same (hlines _ List.mem_cons_self) hl' hmn)
  | ifThen hc _ _ ih ih' =>
    cases hn with
    | ifThen hc' hyes hn =>
      exact ih' hplan.2.2 hn (ih hplan.2.1 hyes (hc.same hplan.1 hc' hmn).2).2
    | ifThenLeft hc' hyes => cases (ih hplan.2.1 hyes (hc.same hplan.1 hc' hmn).2).1
    | ifNot hc' _ => cases (hc.same hplan.1 hc' hmn).1
  | ifThenLeft hc _ ih =>
    cases hn with
    | ifThen hc' hyes _ => cases (ih hplan.2.1 hyes (hc.same hplan.1 hc' hmn).2).1
    | ifThenLeft hc' hyes => exact ih hplan.2.1 hyes (hc.same hplan.1 hc' hmn).2
    | ifNot hc' _ => cases (hc.same hplan.1 hc' hmn).1
  | ifNot hc _ ih =>
    cases hn with
    | ifThen hc' _ _ => cases (hc.same hplan.1 hc' hmn).1
    | ifThenLeft hc' _ => cases (hc.same hplan.1 hc' hmn).1
    | ifNot hc' hn => exact ih hplan.2.2 hn (hc.same hplan.1 hc' hmn).2
  | ifElse hc _ _ ih ih' =>
    cases hn with
    | ifElse hc' hside hn =>
      obtain ⟨rfl, hsame⟩ := hc.same hplan.1 hc' hmn
      exact ih' hplan.2.2.2 hn (ih (hplan.side _) hside hsame).2
    | ifElseLeft hc' hside =>
      obtain ⟨rfl, hsame⟩ := hc.same hplan.1 hc' hmn
      cases (ih (hplan.side _) hside hsame).1
  | ifElseLeft hc _ ih =>
    cases hn with
    | ifElse hc' hside hn =>
      obtain ⟨rfl, hsame⟩ := hc.same hplan.1 hc' hmn
      cases (ih (hplan.side _) hside hsame).1
    | ifElseLeft hc' hside =>
      obtain ⟨rfl, hsame⟩ := hc.same hplan.1 hc' hmn
      exact ih (hplan.side _) hside hsame
  | loopEnd hc _ ih =>
    cases hn with
    | loopEnd hc' hn => exact ih hplan.2.2 hn (hc.same hplan.1 hc' hmn).2
    | loopRound hc' _ _ => cases (hc.same hplan.1 hc' hmn).1
    | loopLeft hc' _ => cases (hc.same hplan.1 hc' hmn).1
  | loopRound hc _ _ ih ih' =>
    cases hn with
    | loopEnd hc' _ => cases (hc.same hplan.1 hc' hmn).1
    | loopRound hc' hbody hn =>
      exact ih' hplan hn (ih hplan.2.1 hbody (hc.same hplan.1 hc' hmn).2).2
    | loopLeft hc' hbody => cases (ih hplan.2.1 hbody (hc.same hplan.1 hc' hmn).2).1
  | loopLeft hc _ ih =>
    cases hn with
    | loopEnd hc' _ => cases (hc.same hplan.1 hc' hmn).1
    | loopRound hc' hbody _ => cases (ih hplan.2.1 hbody (hc.same hplan.1 hc' hmn).2).1
    | loopLeft hc' hbody => exact ih hplan.2.1 hbody (hc.same hplan.1 hc' hmn).2

theorem Exec.loop_done (hloop : Exec o (.loop c body .done) m .done m₁) (hnext : Exec o next m₁ e m') :
    Exec o (.loop c body next) m e m' := by
  generalize hp : Plan.loop c body .done = plan at hloop
  generalize he : Exit.done = e' at hloop
  induction hloop with
  | loopEnd hc hend ih =>
    cases hp
    cases hend
    exact .loopEnd hc hnext
  | loopRound hc hbody _ _ ih =>
    cases hp
    exact .loopRound hc hbody (ih hnext rfl he)
  | loopLeft => cases he
  | _ => cases hp

theorem Exec.loop_left (hloop : Exec o (.loop c body .done) m .left m₁) : Exec o (.loop c body next) m .left m₁ := by
  generalize hp : Plan.loop c body .done = plan at hloop
  generalize he : Exit.left = e' at hloop
  induction hloop with
  | loopEnd hc hend ih =>
    cases hp
    cases hend
    cases he
  | loopRound hc hbody _ _ ih =>
    cases hp
    cases he
    exact .loopRound hc hbody (ih rfl rfl)
  | loopLeft hc hbody =>
    cases hp
    exact .loopLeft hc hbody
  | _ => cases hp

/-- A loop with what follows it ends like its rounds and then what follows, or is left in a round. -/
theorem Exec.loop_cases (hloop : Exec o (.loop c body next) m e m') :
    (∃ m₁, Exec o (.loop c body .done) m .done m₁ ∧ Exec o next m₁ e m') ∨
      (e = .left ∧ Exec o (.loop c body .done) m .left m') := by
  generalize hp : Plan.loop c body next = plan at hloop
  induction hloop with
  | loopEnd hc hend ih =>
    cases hp
    exact .inl ⟨_, .loopEnd hc (.done _), hend⟩
  | loopRound hc hbody _ _ ih =>
    cases hp
    rcases ih rfl with ⟨m₁, hrest, hnext⟩ | ⟨he, hrest⟩
    · exact .inl ⟨m₁, .loopRound hc hbody hrest, hnext⟩
    · exact .inr ⟨he, .loopRound hc hbody hrest⟩
  | loopLeft hc hbody =>
    cases hp
    exact .inr ⟨rfl, .loopLeft hc hbody⟩
  | _ => cases hp

theorem Exec.loop_tells (hloop : Exec o (.loop c body .done) m .done m₁) : ∃ m₀, Tells o c m₀ false m₁ := by
  generalize hp : Plan.loop c body .done = plan at hloop
  generalize he : Exit.done = e' at hloop
  induction hloop with
  | loopEnd hc hend ih =>
    cases hp
    cases hend
    exact ⟨_, hc⟩
  | loopRound _ _ _ _ ih =>
    cases hp
    exact ih rfl he
  | loopLeft => cases he
  | _ => cases hp

theorem Exec.loop_held (hloop : Exec o (.loop c body .done) m .left m') :
    ∃ m₁, Tells o c m true m₁ ∧ (Exec o body m₁ .left m' ∨
      ∃ m₂, Exec o body m₁ .done m₂ ∧ Exec o (.loop c body .done) m₂ .left m') := by
  cases hloop with
  | loopEnd _ hend => cases hend
  | loopRound hc hbody hrest => exact ⟨_, hc, .inr ⟨_, hbody, hrest⟩⟩
  | loopLeft hc hbody => exact ⟨_, hc, .inl hbody⟩

theorem Tells.of_used (hused : useObjective {} o m = (.ok (), m₁)) (hc : Tells o c m₁ b m') : Tells o c m b m' := by
  obtain ⟨m₂, t, hused', ht, hb⟩ := hc
  rw [useObjective_of_mem {} (mem_of_useObjective hused)] at hused'
  obtain rfl : m₁ = m₂ := congrArg Prod.snd hused'
  exact ⟨m₁, t, hused, ht, hb⟩

theorem Tells.used (hc : Tells o c m b m') : ∃ m₁, useObjective {} o m = (.ok (), m₁) ∧ Tells o c m₁ b m' := by
  obtain ⟨m₁, t, hused, ht, hb⟩ := hc
  exact ⟨m₁, hused, m₁, t, useObjective_of_mem {} (mem_of_useObjective hused), ht, hb⟩

theorem Exec.loop_used (hloop : Exec o (.loop c body next) m e m') :
    ∃ m₁, useObjective {} o m = (.ok (), m₁) ∧ Exec o (.loop c body next) m₁ e m' := by
  cases hloop with
  | loopEnd hc hend =>
    obtain ⟨m₁, hused, hc⟩ := hc.used
    exact ⟨m₁, hused, .loopEnd hc hend⟩
  | loopRound hc hbody hnext =>
    obtain ⟨m₁, hused, hc⟩ := hc.used
    exact ⟨m₁, hused, .loopRound hc hbody hnext⟩
  | loopLeft hc hbody =>
    obtain ⟨m₁, hused, hc⟩ := hc.used
    exact ⟨m₁, hused, .loopLeft hc hbody⟩

theorem Exec.loop_of_used (hused : useObjective {} o m = (.ok (), m₁)) (hloop : Exec o (.loop c body next) m₁ e m') :
    Exec o (.loop c body next) m e m' := by
  cases hloop with
  | loopEnd hc hend => exact .loopEnd (.of_used hused hc) hend
  | loopRound hc hbody hnext => exact .loopRound (.of_used hused hc) hbody hnext
  | loopLeft hc hbody => exact .loopLeft (.of_used hused hc) hbody

end CommandPack.Machine
