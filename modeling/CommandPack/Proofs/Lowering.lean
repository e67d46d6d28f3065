import Mathlib
import CommandPack.Proofs.Lines

/-!
Lowered bodies do what the bodies mean. A branch or a loop goes on by calling the block after it
from inside, so a lowered body is described together with its continuation: it reaches the end of the
body, resumes the continuation once, and on the way back only changes scores of its own; or it leaves
the function and resumes nothing.
-/

namespace CommandPack.Machine

open Stateful

variable {ls ls' : List String} {next : Plan} {whole : Set String} {path : String}

/-- What enters a branch: its entry `e` itself, or, where the function may be entered again meanwhile,
a block that sets the outcome of the test again after it. -/
def Enters (fs : Dict (List String)) (o : String) (again : Bool) (p e x : String) : Prop :=
  if again then Dict.find? x fs = some [callLine e, scoreLine "set" p o "1"] ∧ IsName e else x = e

/-- The commands of a branch: `p` keeps the outcome of its test, by which `x` or `y` is called. -/
def branchLines (o p c x y : String) : List String :=
  [scoreLine "set" p o "0", guardLine true c (scoreLine "set" p o "1"),
    guardLine true (equals p o "1") (callLine x), guardLine false (equals p o "1") (callLine y)]

/-- The commands that test a loop: `q` counts its rounds, of which the outermost calls `j`. -/
def checkLines (o q c e j : String) : List String :=
  [guardLine true c (callLine e), scoreLine "remove" q o "1",
    guardTwiceLine false c true (equals q o "0") (callLine j)]

variable {h : Hidden} {fs : Dict (List String)} {m m' m₁ m₂ n n₁ : Machine} {d d' : Nat}
  {own own' : Set String} {k : Option String} {r : Bool} {plan : Plan} {R : Machine → Machine → Prop}

/-- What goes on after a body takes one machine to another. -/
def Resumes (d : Nat) : Option String → Machine → Machine → Prop
  | none, m, m' => m = m'
  | some path, m, m' => ∃ d' ≤ d, Calls d' path m m'

theorem Resumes.mono (hd : d' ≤ d) (hm : Resumes d' k m m') : Resumes d k m m' := by
  cases k with
  | none => exact hm
  | some path =>
    obtain ⟨d₁, hd₁, hm⟩ := hm
    exact ⟨d₁, hd₁.trans hd, hm⟩

/-- The hidden scores outside `own` are the same. -/
def KeptOff (h : Hidden) (own : Set String) (m m' : Machine) : Prop :=
  ∀ p ∈ h.players, p ∉ own → kept h m' p = kept h m p

theorem KeptOff.refl (own : Set String) (m : Machine) : KeptOff h own m m := fun _ _ _ ↦ rfl

theorem KeptOff.trans (h₁ : KeptOff h own m m₁) (h₂ : KeptOff h own m₁ m₂) : KeptOff h own m m₂ :=
  fun p hp hoff ↦ (h₂ p hp hoff).trans (h₁ p hp hoff)

theorem KeptOff.mono (hsub : own ⊆ own') (hm : KeptOff h own m m') : KeptOff h own' m m' :=
  fun p hp hoff ↦ hm p hp fun hmem ↦ hoff (hsub hmem)

theorem Quiet.keptOff (hm : Quiet m m') : KeptOff h own m m' := fun p _ _ ↦ hm.kept_eq p

/-- A relation between machines that lets them grow and lets the objective stay. -/
structure Lasting (h : Hidden) (R : Machine → Machine → Prop) : Prop where
  grown {m m' : Machine} (hm : Grown h m m') : R m m'
  trans {m m₁ m' : Machine} (hm : R m m₁) (hm' : R m₁ m') : R m m'
  objective {m m' : Machine} (hm : R m m') (ho : h.objective ∈ m.objectives) : h.objective ∈ m'.objectives

def Plan.Lasts (h : Hidden) (R : Machine → Machine → Prop) (plan : Plan) : Prop :=
  ∀ ⦃n e n'⦄, Exec h.objective plan n e n' → R n n'

theorem Lasting.same (hR : Lasting h R) (hm : SameBut h m m') : R m m' := hR.grown (Grown.of_sameBut hm)

/-- The continuation, resumed from a machine that differs from `m` in scores of `own`, keeps what
lasts, and keeps the scores of `own` if the function is not entered again. -/
structure Resumable (h : Hidden) (R : Machine → Machine → Prop) (fs : Dict (List String)) (again : Bool) (d : Nat)
    (k : Option String) (own : Set String) (m : Machine) : Prop where
  lasts {m₁ m₂ : Machine} (hfs : m₁.functions = fs) (hoff : KeptOff h own m m₁) (hm : Resumes d k m₁ m₂)
    (ho : h.objective ∈ m₁.objectives) : R m₁ m₂
  scores (hagain : again = false) {m₁ m₂ : Machine} (hfs : m₁.functions = fs)
    (hoff : KeptOff h own m m₁) (hm : Resumes d k m₁ m₂) {p : String} (hmem : p ∈ h.players)
    (hp : p ∈ own) : kept h m₂ p = kept h m₁ p

theorem Resumable.mono (hk : Resumable h R fs r d k own m) (hd : d' ≤ d) (hsub : own' ⊆ own)
    (hoff : KeptOff h own m m') : Resumable h R fs r d' k own' m' where
  lasts hfs hoff' hm ho := hk.lasts hfs (hoff.trans (hoff'.mono hsub)) (hm.mono hd) ho
  scores hr _ _ hfs hoff' hm _ hmem hp :=
    hk.scores hr hfs (hoff.trans (hoff'.mono hsub)) (hm.mono hd) hmem (hsub hp)

/-- How lowered commands end that started from `m`: they reach an end `E .done`, resume the
continuation and come back; or they reach an end `E .left`, and come back from there. -/
inductive Outcome (h : Hidden) (d : Nat) (k : Option String) (own : Set String)
    (E : Exit → Machine → Prop) (m m' : Machine) : Prop
  | done (m₁ m₂ n : Machine) (hend : E .done n) (hsame : SameBut h m₁ n) (hoff : KeptOff h own m m₁)
      (hresume : Resumes d k m₁ m₂) (hback : SameBut h m₂ m') (hoffBack : KeptOff h own m₂ m')
  | left (n : Machine) (hend : E .left n) (hgrown : Grown h n m') (hoff : KeptOff h own m m')

namespace Outcome

variable {E E' : Exit → Machine → Prop}

theorem imp (hm : Outcome h d k own E m m') (hE : ∀ e n, E e n → E' e n) :
    Outcome h d k own E' m m' := by
  cases hm with
  | done m₁ m₂ n hend => exact .done m₁ m₂ n (hE _ _ hend) ‹_› ‹_› ‹_› ‹_› ‹_›
  | left n hend => exact .left n (hE _ _ hend) ‹_› ‹_›

theorem mono (hm : Outcome h d' k own' E m m') (hd : d' ≤ d) (hsub : own' ⊆ own) :
    Outcome h d k own E m m' := by
  cases hm with
  | done m₁ m₂ n hend hsame hoff hresume hback hoffBack =>
    exact .done m₁ m₂ n hend hsame (hoff.mono hsub) (hresume.mono hd) hback (hoffBack.mono hsub)
  | left n hend hgrown hoff => exact .left n hend hgrown (hoff.mono hsub)

theorem after (hm : Outcome h d k own E m₁ m') (hoff : KeptOff h own m m₁) :
    Outcome h d k own E m m' := by
  cases hm with
  | done m₂ m₃ n hend hsame hoff₁ => exact .done m₂ m₃ n hend hsame (hoff.trans hoff₁) ‹_› ‹_› ‹_›
  | left n hend hgrown hoff₁ => exact .left n hend hgrown (hoff.trans hoff₁)

theorem before (hm : Outcome h d k own E m m₁) (hsame : SameBut h m₁ m') (hoff : KeptOff h own m₁ m') :
    Outcome h d k own E m m' := by
  cases hm with
  | done m₂ m₃ n hend hsame₁ hoff₁ hresume hback hoffBack =>
    exact .done m₂ m₃ n hend hsame₁ hoff₁ hresume (hback.trans hsame) (hoffBack.trans hoff)
  | left n hend hgrown hoff₁ => exact .left n hend (hgrown.trans (.of_sameBut hsame)) (hoff₁.trans hoff)

theorem lasts (hR : Lasting h R) (hm : Outcome h d k own E m m') (hk : Resumable h R fs r d k own m)
    (hfs : ∀ e n, E e n → n.functions = fs) (ho : h.objective ∈ n₁.objectives) (hE : ∀ e n, E e n → R n₁ n) :
    R n₁ m' := by
  cases hm with
  | done m₁ m₂ n hend hsame hoff hresume hback hoffBack =>
    have hlasts := hR.trans (hE _ _ hend) (hR.same hsame.symm)
    have hresumed := hk.lasts (hsame.functions.trans (hfs _ _ hend)) hoff hresume (hR.objective hlasts ho)
    exact hR.trans hlasts (hR.trans hresumed (hR.same hback))
  | left n hend hgrown hoff => exact hR.trans (hE _ _ hend) (hR.grown hgrown)

/-- Where the function is not entered again, a score that the commands do not have stays. -/
theorem kept_eq (hm : Outcome h d k own E m m') (hk : Resumable h R fs false d k whole m) (hsub : own ⊆ whole)
    (hfs : ∀ e n, E e n → n.functions = fs) {p : String} (hmem : p ∈ h.players) (hp : p ∈ whole) (hfresh : p ∉ own) :
    kept h m' p = kept h m p := by
  cases hm with
  | done m₁ m₂ n hend hsame hoff hresume hback hoffBack =>
    have hfs₁ : m₁.functions = fs := hsame.functions.trans (hfs _ _ hend)
    calc kept h m' p = kept h m₂ p := hoffBack p hmem hfresh
      _ = kept h m₁ p := hk.scores rfl hfs₁ (hoff.mono hsub) hresume hmem hp
      _ = kept h m p := hoff p hmem hfresh
  | left n hend hgrown hoff => exact hoff p hmem hfresh

end Outcome

def Realizes (h : Hidden) (R : Machine → Machine → Prop) (fs : Dict (List String)) (again : Bool) (k : Option String)
    (plan : Plan) (own : Set String) (ls : List String) : Prop :=
  ∀ ⦃d m m' n⦄, m.functions = fs → SameBut h m n → d + 1 < 2 ^ 32 →
    Resumable h R fs again d k own m → Runs d ls m m' →
    Outcome h d k own (Exec h.objective plan n) m m'

/-- Calls of a block do what a body means. -/
def Performs (h : Hidden) (R : Machine → Machine → Prop) (fs : Dict (List String)) (again : Bool) (k : Option String)
    (plan : Plan) (own : Set String) (path : String) : Prop :=
  ∀ ⦃d m m' n⦄, m.functions = fs → SameBut h m n → d < 2 ^ 32 →
    Resumable h R fs again d k own m → Calls d path m m' →
    Outcome h d k own (Exec h.objective plan n) m m'

theorem Realizes.call (hr : Realizes h R fs r k plan own ls) (hpath : Dict.find? path fs = some ls) :
    Performs h R fs r k plan own path := by
  intro d m m' n hfs hmn hd hk hm
  obtain ⟨d', lines, m₁, m₂, rfl, hfind, hquiet, hruns, hquiet'⟩ := hm.runs
  rw [hfs, hpath, Option.some.injEq] at hfind
  subst hfind
  have hfs₁ : m₁.functions = fs := by rw [hquiet.toSetup, hfs]
  have hout := hr hfs₁ (hquiet.sameBut.symm.trans hmn) hd
    (hk.mono (Nat.le_succ d') subset_rfl hquiet.keptOff) hruns
  exact ((hout.mono (Nat.le_succ d') subset_rfl).after hquiet.keptOff).before hquiet'.sameBut
    hquiet'.keptOff

theorem Realizes.resumable (hR : Lasting h R) (hr : Realizes h R fs r k plan own ls) (hplan : plan.Lasts h R)
    (hpath : Dict.find? path fs = some ls) (hd : d < 2 ^ 32) (hk : Resumable h R fs r d k whole m₁)
    (hoff : KeptOff h whole m₁ m) (hown : own ⊆ whole) (hown' : own' ⊆ whole) (hdisjoint : Disjoint own' own) :
    Resumable h R fs r d (some path) own' m := by
  have hwhole {m₂ : Machine} (hoff' : KeptOff h own' m m₂) : Resumable h R fs r d k whole m₂ :=
    hk.mono le_rfl subset_rfl (hoff.trans (hoff'.mono hown'))
  have hout {m₂ m₃ : Machine} (hfs : m₂.functions = fs) (hoff' : KeptOff h own' m m₂)
      (hm : Resumes d (some path) m₂ m₃) :
      Outcome h d k own (Exec h.objective plan m₂) m₂ m₃ := by
    obtain ⟨d', hd', hcall⟩ := hm
    have hk₂ := (hwhole hoff').mono hd' hown (.refl _ _)
    exact (hr.call hpath hfs (SameBut.refl h m₂) (by omega) hk₂ hcall).mono hd' subset_rfl
  have hsetup {m₂ : Machine} (hfs : m₂.functions = fs) (e : Exit) (n : Machine)
      (hn : Exec h.objective plan m₂ e n) : n.functions = fs := by
    rw [hn.sameSetup, hfs]
  constructor
  · intro m₂ m₃ hfs hoff' hm ho
    exact (hout hfs hoff' hm).lasts hR ((hwhole hoff').mono le_rfl hown (.refl _ _)) (hsetup hfs) ho
      fun e n hn ↦ hplan hn
  · intro hagain m₂ m₃ hfs hoff' hm p hmem hp
    subst hagain
    exact (hout hfs hoff' hm).kept_eq (hwhole hoff') hown (hsetup hfs) hmem (hown' hp)
      fun hmem' ↦ Set.disjoint_left.1 hdisjoint hp hmem'

theorem Does.alone {l : String} (hl : Alone h l) (hm : Does d l m m') (hmn : SameBut h m n)
    (own : Set String) : (∃ n', Obeys l n n' ∧ SameBut h m' n') ∧ KeptOff h own m m' := by
  obtain ⟨site, m₀, r, hquiet, hm⟩ := hm
  obtain ⟨n', hn, hsame⟩ := (hl.alike (callFunction d) noCall site {}).ok
    (hquiet.sameBut.symm.trans hmn) hm
  exact ⟨⟨n', ⟨r, hn⟩, hsame⟩, fun p hp _ ↦ (hl.score hm hp).trans (hquiet.kept_eq p)⟩

theorem Does.functions {l : String} (hm : Does d l m m') : m'.functions = m.functions := by
  obtain ⟨site, m₀, r, hquiet, hm⟩ := hm
  have hsetup := (keeps_obey (keeps_callFunction allowsCounters_sameSetup allowsAll_sameSetup d) allowsAll_sameSetup
    site {} l).of_eq hm
  rw [hsetup, hquiet.toSetup]

theorem Realizes.act {lines : List String} (hr : Realizes h R fs r k plan own ls) (hlines : ∀ l ∈ lines, Alone h l) :
    Realizes h R fs r k (.act lines plan) own (lines ++ ls) := by
  intro d m m' n hfs hmn hd hk hm
  induction lines generalizing m n with
  | nil => exact (hr hfs hmn hd hk hm).imp fun _ _ ↦ .skip
  | cons l lines ih =>
    obtain ⟨m₁, hdoes, hm⟩ := Runs.cons hm
    obtain ⟨⟨n', hobeys, hsame⟩, hoff⟩ := hdoes.alone (hlines l List.mem_cons_self) hmn own
    have hout := ih (fun l hl ↦ hlines l (List.mem_cons_of_mem _ hl)) (hdoes.functions.trans hfs)
      hsame (hk.mono le_rfl subset_rfl hoff) hm
    exact (hout.after hoff).imp fun _ _ ↦ .act hobeys

theorem Outcome.then_next {side : Plan} {j : String} (hm : Outcome h d (some j) own (Exec h.objective side n) m m')
    (hfs : n.functions = fs) (hnext : Realizes h R fs r k next own' ls) (hj : Dict.find? j fs = some ls)
    (hd : d < 2 ^ 32) (hk : Resumable h R fs r d k (own ∪ own') m) :
    Outcome h d k (own ∪ own') (fun e n' ↦
      (∃ n₁, Exec h.objective side n .done n₁ ∧ Exec h.objective next n₁ e n') ∨
        (e = .left ∧ Exec h.objective side n .left n')) m m' := by
  cases hm with
  | left n₁ hend hgrown hoff =>
    exact .left n₁ (.inr ⟨rfl, hend⟩) hgrown (hoff.mono Set.subset_union_left)
  | done m₁ m₂ n₁ hend hsame hoff hresume hback hoffBack =>
    have hfs₁ : m₁.functions = fs := by rw [hsame.functions, hend.sameSetup, hfs]
    have hoff' := hoff.mono (Set.subset_union_left (t := own'))
    obtain ⟨d', hd', hcall⟩ := hresume
    have hout := hnext.call hj hfs₁ hsame (by omega) (hk.mono hd' Set.subset_union_right hoff') hcall
    have hout := (hout.mono hd' Set.subset_union_right).after hoff'
    exact (hout.imp fun e n' hn ↦ .inl ⟨n₁, hend, hn⟩).before hback (hoffBack.mono Set.subset_union_left)

theorem isName_zero : IsName "0" := ⟨by decide, rfl⟩

theorem isName_one : IsName "1" := ⟨by decide, rfl⟩

section Branches

variable {actor : Actor} {words : List String} {c p x y e j : String} (hobj : IsName h.objective)
  (hc : IsCondition h c) (hp : IsName p) (hmem : p ∈ h.players) (hx : IsName x) (hy : IsName y)

theorem Marks.grown {v : Int32} (hm : Marks h p v m m') : Grown h m m' := by
  obtain ⟨m₁, hused, hsame⟩ := hm.used
  exact ((keeps_useObjective {} (Grown.newObjective (h := h)) h.objective).of_eq hused).trans (.of_sameBut hsame)

theorem Marks.keptOff {v : Int32} (hm : Marks h p v m m') : KeptOff h {p} m m' :=
  fun q _ hq ↦ hm.elsewhere q hq

theorem kept_of_test {site : Site} {t : Tested} (hm : test site actor words m = (.ok t, m')) (q : String) :
    kept h m' q = kept h m q := by
  have hscores := test_scores site actor words m
  rw [hm] at hscores
  simp only [kept, score?]
  rw [hscores]

theorem grown_of_test {site : Site} {t : Tested} (hm : test site actor words m = (.ok t, m')) : Grown h m m' :=
  (keeps_test site actor Grown.newObjective Grown.newData words).of_eq hm

include hobj hc hp hmem in
theorem branch_tested (hmn : SameBut h m n) (hreset : Does d (scoreLine "set" p h.objective "0") m m₁)
    (hassign : Does d (guardLine true c (scoreLine "set" p h.objective "1")) m₁ m') :
    ∃ b n₁, Tells h.objective c n b n₁ ∧ SameBut h m' n₁ ∧ KeptOff h {p} m m' ∧
      kept h m' p = some (if b then 1 else 0) := by
  have hreset : Marks h p 0 m m₁ := hreset.assign hp hmem hobj .set isName_zero rfl
  obtain ⟨nu, husedN, hsameN⟩ := hreset.used_alike hmn
  obtain ⟨site, m₀, mt, t, hquiet, htest, hassign⟩ := hassign.guard hc.split hc.isTest
    (splitWords_scoreLine hp hobj isName_one rfl) (by simp)
  obtain ⟨n₁, htestN, hsame₁⟩ := (hc.isTest.alike hc.overlooks site {} {}).ok
    (hquiet.sameBut.symm.trans hsameN) htest
  refine ⟨t.holds, n₁, ⟨nu, t, husedN, htestN, rfl⟩, ?_⟩
  have hot : h.objective ∈ mt.objectives :=
    (grown_of_test (h := h) htest).objectives.subset (hquiet.objectives ▸ hreset.mem_objectives)
  have hkt (q : String) : kept h mt q = kept h m₁ q :=
    (kept_of_test htest q).trans (hquiet.kept_eq q)
  rcases hassign with ⟨hb, r, hassign⟩ | ⟨hb, rfl⟩
  · have hassign : Marks h p 1 mt m' := marks_of_assign hp hmem hobj .set isName_one rfl hassign
    refine ⟨(hassign.sameBut hot).symm.trans hsame₁, fun q hq hne ↦ ?_, ?_⟩
    · rw [hassign.elsewhere q hne, hkt, hreset.elsewhere q hne]
    · rw [hassign.here, hb, if_pos rfl]
  · refine ⟨hsame₁, fun q hq hne ↦ ?_, ?_⟩
    · rw [hkt, hreset.elsewhere q hne]
    · rw [hkt, hreset.here, if_neg hb]

include hobj hc hp hmem hx hy in
/-- The four commands of a branch test its condition once. If it holds they call `x` and look at the
outcome again; otherwise they only call `y`. -/
theorem branch_runs (hmn : SameBut h m n)
    (hm : Runs d (branchLines h.objective p c x y) m m') :
    ∃ b m₁ n₁, Tells h.objective c n b n₁ ∧ SameBut h m₁ n₁ ∧ KeptOff h {p} m m₁ ∧
      ((b = true ∧ kept h m₁ p = some 1 ∧ ∃ m₂, Calls d x m₁ m₂ ∧
          Does d (guardLine false (equals p h.objective "1") (callLine y)) m₂ m') ∨
        (b = false ∧ Calls d y m₁ m')) := by
  obtain ⟨ma, hreset, hm⟩ := hm.cons
  obtain ⟨mb, hassign, hm⟩ := hm.cons
  obtain ⟨mc, henter, hm⟩ := hm.cons
  obtain ⟨md, hother, hm⟩ := hm.cons
  obtain rfl := runs_nil.1 hm
  obtain ⟨b, n₁, htells, hsame, hoff, hkept⟩ := branch_tested hobj hc hp hmem hmn hreset hassign
  have ho : h.objective ∈ mb.objectives := by
    rw [hsame.objectives]
    exact htells.mem_objectives
  obtain ⟨m₁, hquiet₁, henter⟩ := henter.guard_kept (k := 1) hp hobj isName_one (by rfl) hx ho
  rw [hkept] at henter
  cases b with
  | true =>
    obtain ⟨-, hcall⟩ | ⟨hne, -⟩ := henter
    · refine ⟨true, m₁, n₁, htells, hquiet₁.sameBut.symm.trans hsame, hoff.trans hquiet₁.keptOff,
        .inl ⟨rfl, ?_, mc, hcall, hother⟩⟩
      rw [hquiet₁.kept_eq, hkept, if_pos rfl]
    · simp at hne
  | false =>
    obtain ⟨hone, -⟩ | ⟨-, rfl⟩ := henter
    · exact absurd hone (by decide)
    · obtain ⟨m₂, hquiet₂, ⟨-, hcall⟩ | ⟨hne, -⟩⟩ := hother.guard_kept (k := 1) hp hobj isName_one
        (by rfl) hy (hquiet₁.objectives ▸ ho)
      · have hquiet := trans_of Quiet hquiet₁ hquiet₂
        exact ⟨false, m₂, n₁, htells, hquiet.sameBut.symm.trans hsame, hoff.trans hquiet.keptOff,
          .inr ⟨rfl, hcall⟩⟩
      · rw [hquiet₁.kept_eq, hkept] at hne
        exact absurd (by decide) hne

include hobj hp hmem in
/-- The way into a branch: the branch is done, and the outcome of the test is as before. -/
theorem enter {yes : Plan} (hR : Lasting h R) (hyes : Realizes h R fs r (some j) yes own ls) (hplan : yes.Lasts h R)
    (hentry : Dict.find? e fs = some ls) (henter : Enters fs h.objective r p e x) (hfresh : p ∉ own)
    (hfs : m.functions = fs) (hmn : SameBut h m n) (hd : d < 2 ^ 32)
    (hk : Resumable h R fs r d (some j) (insert p own) m) (hone : kept h m p = some 1)
    (ho : h.objective ∈ m.objectives) (hm : Calls d x m m') :
    Outcome h d (some j) (insert p own) (Exec h.objective yes n) m m' ∧ kept h m' p = some 1 ∧ R m m' := by
  have hsub : own ⊆ insert p own := Set.subset_insert p own
  have hsetup (e : Exit) (n' : Machine) (hn : Exec h.objective yes n e n') : n'.functions = fs := by
    rw [hn.sameSetup, ← hfs, hmn.functions]
  have hlasts (e : Exit) (n' : Machine) (hn : Exec h.objective yes n e n') : R m n' :=
    hR.trans (hR.same hmn) (hplan hn)
  cases r with
  | false =>
    obtain rfl : x = e := henter
    have hout := hyes.call hentry hfs hmn hd (hk.mono le_rfl hsub (.refl _ _)) hm
    refine ⟨hout.mono le_rfl hsub, ?_, hout.lasts hR (hk.mono le_rfl hsub (.refl _ _)) hsetup ho hlasts⟩
    rw [hout.kept_eq hk hsub hsetup hmem (Set.mem_insert p own) hfresh, hone]
  | true =>
    obtain ⟨hthrough, he⟩ : Dict.find? x fs = some [callLine e, scoreLine "set" p h.objective "1"] ∧
      IsName e := henter
    obtain ⟨d', lines, m₁, m₂, rfl, hfind, hquiet, hruns, hquiet'⟩ := hm.runs
    rw [hfs, hthrough, Option.some.injEq] at hfind
    subst hfind
    obtain ⟨m₃, hcall, hruns⟩ := hruns.cons
    obtain ⟨m₄, hrestore, hruns⟩ := hruns.cons
    obtain rfl := runs_nil.1 hruns
    obtain ⟨m₅, hquiet₁, hcall⟩ := hcall.call he
    have hquiet₅ := trans_of Quiet hquiet hquiet₁
    have hfs₅ : m₅.functions = fs := by rw [hquiet₅.toSetup, hfs]
    have hk₅ : Resumable h R fs true d' (some j) own m₅ :=
      hk.mono (Nat.le_succ d') hsub hquiet₅.keptOff
    have hout := hyes.call hentry hfs₅ (hquiet₅.sameBut.symm.trans hmn) (by omega) hk₅ hcall
    have hrestore : Marks h p 1 m₃ m₄ := hrestore.assign hp hmem hobj .set isName_one rfl
    have hlasts₃ : R m m₃ := hout.lasts hR hk₅ hsetup ho hlasts
    have hback : SameBut h m₃ m' := (hrestore.sameBut (hR.objective hlasts₃ ho)).trans hquiet'.sameBut
    have hoffBack : KeptOff h (insert p own) m₃ m' :=
      (hrestore.keptOff.mono (by simp)).trans hquiet'.keptOff
    refine ⟨((hout.mono (Nat.le_succ d') hsub).after hquiet₅.keptOff).before hback hoffBack, ?_,
      hR.trans hlasts₃ (hR.same hback)⟩
    rw [hquiet'.kept_eq, hrestore.here]

include hobj hp hy in
theorem Outcome.not_other {E : Exit → Machine → Prop} (hm : Outcome h d k own E m m₁)
    (hone : kept h m₁ p = some 1) (ho : h.objective ∈ m₁.objectives)
    (hother : Does d (guardLine false (equals p h.objective "1") (callLine y)) m₁ m') :
    Outcome h d k own E m m' := by
  obtain ⟨m₂, hquiet, ⟨hne, -⟩ | ⟨-, rfl⟩⟩ := hother.guard_kept (k := 1) hp hobj isName_one (by rfl) hy ho
  · simp [hone] at hne
  · exact hm.before hquiet.sameBut hquiet.keptOff

include hobj hc hp hmem hx hy in
/-- A branch, given how its other side is performed. -/
theorem Realizes.branch {yes no : Plan} {own₂ : Set String} (hR : Lasting h R) (hyesPlan : yes.Lasts h R)
    (hnextPlan : next.Lasts h R) (henter : Enters fs h.objective r p e x) (hentry : Dict.find? e fs = some ls)
    (hnextFind : Dict.find? j fs = some ls') (hyes : Realizes h R fs r (some j) yes own ls)
    (hno : Performs h R fs r (some j) no own₂ y) (hnext : Realizes h R fs r k next own' ls') (hfresh : p ∉ own)
    (hfresh' : p ∉ own') (hdisjoint : Disjoint own own') (hdisjoint₂ : Disjoint own₂ own') :
    Realizes h R fs r k (.ifElse c yes no next) (insert p (own ∪ own₂ ∪ own')) (branchLines h.objective p c x y) := by
  intro d m m' n hfs hmn hd hk hm
  obtain ⟨b, m₁, n₁, htells, hsame, hoff, hside⟩ := branch_runs hobj hc hp hmem hx hy hmn hm
  have hoff' : KeptOff h (insert p (own ∪ own₂ ∪ own')) m m₁ := hoff.mono (by simp)
  have hfs₁ : n₁.functions = fs := by rw [htells.sameSetup, ← hmn.functions, hfs]
  have hfsm₁ : m₁.functions = fs := hsame.functions.trans hfs₁
  have hsub' : own' ⊆ insert p (own ∪ own₂ ∪ own') := fun q hq ↦ .inr (.inr hq)
  have ho₁ : h.objective ∈ m₁.objectives := by
    rw [hsame.objectives]
    exact htells.mem_objectives
  have hresume {side : Set String} (hsub : side ⊆ insert p (own ∪ own₂ ∪ own')) (hoff : Disjoint side own') :
      Resumable h R fs r d (some j) side m₁ :=
    hnext.resumable hR hnextPlan hnextFind (by omega) hk hoff' hsub' hsub hoff
  -- after either side what follows the branch goes on
  have hthen {side : Set String} {plan : Plan} (hsub : side ⊆ insert p (own ∪ own₂ ∪ own'))
      (hout : Outcome h d (some j) side (Exec h.objective plan n₁) m₁ m')
      (hb : plan = bif b then yes else no) :
      Outcome h d k (insert p (own ∪ own₂ ∪ own')) (Exec h.objective (.ifElse c yes no next) n) m m' := by
    have hboth : side ∪ own' ⊆ insert p (own ∪ own₂ ∪ own') := Set.union_subset hsub hsub'
    have hout := hout.then_next hfs₁ hnext hnextFind (by omega) (hk.mono le_rfl hboth hoff')
    subst hb
    refine ((hout.mono le_rfl hboth).after hoff').imp ?_
    rintro e n' (⟨n₂, hside, hnext⟩ | ⟨rfl, hside⟩)
    · exact .ifElse htells hside hnext
    · exact .ifElseLeft htells hside
  rcases hside with ⟨rfl, hone, m₂, hcall, hother⟩ | ⟨rfl, hcall⟩
  · have hsub : insert p own ⊆ insert p (own ∪ own₂ ∪ own') :=
      Set.insert_subset_insert fun q hq ↦ .inl (.inl hq)
    obtain ⟨hout, hone, hlasts⟩ := enter hobj hp hmem hR hyes hyesPlan hentry henter hfresh hfsm₁ hsame (by omega)
      (hresume hsub (Set.disjoint_insert_left.2 ⟨hfresh', hdisjoint⟩)) hone ho₁ hcall
    exact hthen hsub (hout.not_other hobj hp hy hone (hR.objective hlasts ho₁) hother) rfl
  · have hsub : own₂ ⊆ insert p (own ∪ own₂ ∪ own') := fun q hq ↦ .inr (.inl (.inr hq))
    exact hthen hsub (hno hfsm₁ hsame (by omega) (hresume hsub hdisjoint₂) hcall) rfl

end Branches

theorem readInt?_one : Decimal.readInt? 32 "1" = some 1 := rfl

theorem ofNat_add_one (i : Nat) : Int32.ofNat i + Int32.ofInt 1 = Int32.ofNat (i + 1) := by
  rw [Int32.ofNat_add]
  rfl

theorem ofNat_sub_one {i : Nat} (hi : 1 ≤ i) : Int32.ofNat i - Int32.ofInt 1 = Int32.ofNat (i - 1) := by
  obtain ⟨j, rfl⟩ := Nat.exists_eq_add_of_le' hi
  rw [Int32.ofNat_add]
  simp

theorem ofNat_eq_zero {i : Nat} (hi : i < 2 ^ 32) : Int32.ofNat i = 0 ↔ i = 0 := by
  constructor
  · intro h
    have hbits := congrArg (fun x : Int32 ↦ x.toBitVec.toNat) h
    simp at hbits
    omega
  · rintro rfl
    rfl

/-- How a call of the block that tests a loop ends, when the counter was `i`. Only the outermost test,
where it was one, goes on behind the loop; leaving the function keeps the counter. -/
inductive Rounds (h : Hidden) (d i : Nat) (q j : String) (own : Set String)
    (E : Exit → Machine → Prop) (m m' : Machine) : Prop
  | ended (n : Machine) (hi : 1 < i) (hend : E .done n) (hsame : SameBut h m' n)
      (hcount : kept h m' q = some (Int32.ofNat (i - 1))) (hoff : KeptOff h (insert q own) m m')
  | went (m₁ m₂ n : Machine) (hi : i = 1) (hend : E .done n) (hsame : SameBut h m₁ n)
      (hoff : KeptOff h (insert q own) m m₁) (hresume : Resumes d (some j) m₁ m₂) (hback : Quiet m₂ m')
  | left (n : Machine) (hend : E .left n) (hgrown : Grown h n m')
      (hcount : kept h m' q = some (Int32.ofNat i)) (hoff : KeptOff h (insert q own) m m')

section Loops

variable {c q e x j : String} {i : Nat} (hobj : IsName h.objective) (hc : IsCondition h c)
  (hq : IsName q) (hmem : q ∈ h.players) (he : IsName e) (hx : IsName x) (hj : IsName j)

include hobj hq hmem in
theorem Does.count_down (hi : 1 ≤ i) (ho : h.objective ∈ m.objectives)
    (hcount : kept h m q = some (Int32.ofNat i))
    (hm : Does d (scoreLine "remove" q h.objective "1") m m') :
    SameBut h m m' ∧ kept h m' q = some (Int32.ofNat (i - 1)) ∧ KeptOff h {q} m m' := by
  have hmarks := hm.assign hq hmem hobj .remove isName_one readInt?_one
  refine ⟨hmarks.sameBut ho, ?_, hmarks.keptOff⟩
  rw [hmarks.here, hcount]
  exact congrArg some (ofNat_sub_one hi)

include hobj hq hmem in
theorem Does.count_up (ho : h.objective ∈ m.objectives) (hcount : kept h m q = some (Int32.ofNat i))
    (hm : Does d (scoreLine "add" q h.objective "1") m m') :
    SameBut h m m' ∧ kept h m' q = some (Int32.ofNat (i + 1)) ∧ KeptOff h {q} m m' := by
  have hmarks := hm.assign hq hmem hobj .add isName_one readInt?_one
  refine ⟨hmarks.sameBut ho, ?_, hmarks.keptOff⟩
  rw [hmarks.here, hcount]
  exact congrArg some (ofNat_add_one _)

include hobj hc hq hmem hj in
/-- The end of a test after the condition was found false: the counter tells the outermost one. -/
theorem ended_of_tail {n₀ : Machine} (hlast : Tells h.objective c n₀ false n) (hsame : SameBut h m n)
    (hi : 1 ≤ i) (hbound : i < 2 ^ 32) (hcount : kept h m q = some (Int32.ofNat i))
    (hdown : Does d (scoreLine "remove" q h.objective "1") m m₁)
    (hexit : Does d (guardTwiceLine false c true (equals q h.objective "0") (callLine j)) m₁ m') :
    (i = 1 ∧ ∃ m₂, SameBut h m₂ n ∧ KeptOff h {q} m m₂ ∧ Calls d j m₂ m') ∨
      (1 < i ∧ SameBut h m' n ∧ kept h m' q = some (Int32.ofNat (i - 1)) ∧ KeptOff h {q} m m') := by
  have ho : h.objective ∈ m.objectives := by
    rw [hsame.objectives]
    exact hlast.mem_objectives
  obtain ⟨hsame₁, hcount₁, hoff₁⟩ := hdown.count_down hobj hq hmem hi ho hcount
  obtain ⟨site, m₀, m₂, t, hquiet, htest, hexit⟩ := hexit.guard_exit hc.split hc.isTest hq hobj hj
    (hsame₁.objectives ▸ ho)
  obtain ⟨k, t', -, htest', hfalse⟩ := hlast
  -- the condition was tested last, so testing it again tells the same
  obtain ⟨m₃, htest₃, hsame₃⟩ := (hc.isTest.alike hc.overlooks {} site {}).ok
    (hsame.symm.trans (hsame₁.trans hquiet.sameBut)) (hc.isTest.again htest')
  rw [htest] at htest₃
  simp only [outcome_eq_iff, Except.ok.injEq] at htest₃
  obtain ⟨rfl, rfl⟩ := htest₃
  have hoff₂ : KeptOff h {q} m m₂ := by
    intro p hp hne
    rw [kept_of_test htest, hquiet.kept_eq, hoff₁ p hp hne]
  have hzero : kept h m₁ q = some 0 ↔ i = 1 := by
    rw [hcount₁, Option.some.injEq, ofNat_eq_zero (by omega)]
    omega
  rw [hzero, hfalse] at hexit
  rcases hexit with ⟨⟨-, hone⟩, hcall⟩ | ⟨hmore, rfl⟩
  · exact .inl ⟨hone, m₂, hsame₃.symm, hoff₂, hcall⟩
  · refine .inr ⟨?_, hsame₃.symm, ?_, hoff₂⟩
    · have : i ≠ 1 := fun hone ↦ hmore ⟨rfl, hone⟩
      omega
    · rw [kept_of_test htest, hquiet.kept_eq, hcount₁]

include hobj hc hq hmem hj in
theorem left_of_tail (hi : 1 ≤ i) (hbound : i + 1 < 2 ^ 32) (ho : h.objective ∈ m.objectives)
    (hcount : kept h m q = some (Int32.ofNat (i + 1)))
    (hdown : Does d (scoreLine "remove" q h.objective "1") m m₁)
    (hexit : Does d (guardTwiceLine false c true (equals q h.objective "0") (callLine j)) m₁ m') :
    Grown h m m' ∧ kept h m' q = some (Int32.ofNat i) ∧ KeptOff h {q} m m' := by
  obtain ⟨hsame₁, hcount₁, hoff₁⟩ := hdown.count_down hobj hq hmem (by omega) ho hcount
  obtain ⟨site, m₀, m₂, t, hquiet, htest, hexit⟩ := hexit.guard_exit hc.split hc.isTest hq hobj hj
    (hsame₁.objectives ▸ ho)
  have hne : kept h m₁ q ≠ some 0 := by
    rw [hcount₁, Nat.add_sub_cancel, ne_eq, Option.some.injEq, ofNat_eq_zero (by omega)]
    omega
  rcases hexit with ⟨⟨-, hzero⟩, -⟩ | ⟨-, rfl⟩
  · exact absurd hzero hne
  · refine ⟨?_, ?_, ?_⟩
    · exact (Grown.of_sameBut (hsame₁.trans hquiet.sameBut)).trans (grown_of_test htest)
    · rw [kept_of_test htest, hquiet.kept_eq, hcount₁, Nat.add_sub_cancel]
    · intro p hp hne
      rw [kept_of_test htest, hquiet.kept_eq, hoff₁ p hp hne]

/-- Calls of the block that tests a loop, with `d` levels left, go through the remaining rounds. -/
def Circles (h : Hidden) (fs : Dict (List String)) (d : Nat) (c q x j : String) (body : Plan)
    (own : Set String) : Prop :=
  ∀ ⦃i m m' n⦄, m.functions = fs → SameBut h m n → 1 ≤ i → i + d < 2 ^ 32 →
    kept h m q = some (Int32.ofNat i) → h.objective ∈ m.objectives → Calls d x m m' →
    Rounds h d i q j own (Exec h.objective (.loop c body .done) n) m m'

variable {body : Plan} {ls : List String}

include hmem in
theorem Circles.resumable (hR : Lasting h R) (hplan : (Plan.loop c body .done).Lasts h R) (hfresh : q ∉ own)
    (hrest : ∀ d' ≤ d, Circles h fs d' c q x j body own) (hi : 1 < i) (hbound : i + d < 2 ^ 32)
    (hcount : kept h m q = some (Int32.ofNat i)) : Resumable h R fs true d (some x) own m := by
  refine ⟨fun {m₁ m₂} hfs₁ hoff hm ho₁ ↦ ?_, by simp⟩
  obtain ⟨d', hd', hcall⟩ := hm
  have hcount₁ : kept h m₁ q = some (Int32.ofNat i) := by rw [hoff q hmem hfresh, hcount]
  cases hrest d' hd' hfs₁ (SameBut.refl h m₁) hi.le (by omega) hcount₁ ho₁ hcall with
  | ended n' _ hend hsame => exact hR.trans (hplan hend) (hR.same hsame.symm)
  | went _ _ _ hone => omega
  | left n' hend hgrown => exact hR.trans (hplan hend) (hR.grown hgrown)

include hobj hc hq hmem he in
/-- The first command of such a test does nothing or goes through a round and all that follow it. -/
theorem round_does (hR : Lasting h R) (hplan : body.Lasts h R) (hloop : (Plan.loop c body .done).Lasts h R)
    (hfresh : q ∉ own) (hbody : Realizes h R fs true (some x) body own ls)
    (hentry : Dict.find? e fs = some (scoreLine "add" q h.objective "1" :: ls))
    (hrest : ∀ d' < d, Circles h fs d' c q x j body own) (hfs : m.functions = fs)
    (hmn : SameBut h m n) (hi : 1 ≤ i) (hbound : i + d < 2 ^ 32)
    (hcount : kept h m q = some (Int32.ofNat i))
    (ho : h.objective ∈ m.objectives) (hm : Does d (guardLine true c (callLine e)) m m') :
    (∃ n', Exec h.objective (.loop c body .done) n .done n' ∧ SameBut h m' n' ∧
        kept h m' q = some (Int32.ofNat i) ∧ KeptOff h (insert q own) m m') ∨
      ∃ n', Exec h.objective (.loop c body .done) n .left n' ∧ Grown h n' m' ∧
        kept h m' q = some (Int32.ofNat (i + 1)) ∧ KeptOff h (insert q own) m m' := by
  obtain ⟨site, m₀, mt, t, hquiet, htest, hm⟩ := hm.guard hc.split hc.isTest
    (splitWords_callLine he) (by simp)
  obtain ⟨n₁, htestN, hsame₁⟩ := (hc.isTest.alike hc.overlooks site {} {}).ok
    (hquiet.sameBut.symm.trans hmn) htest
  have htells : Tells h.objective c n t.holds n₁ :=
    ⟨n, t, useObjective_of_mem {} (hmn.objectives ▸ ho), htestN, rfl⟩
  have hofft : KeptOff h (insert q own) m mt := by
    intro p hp hoff
    rw [kept_of_test htest, hquiet.kept_eq]
  have hcountt : kept h mt q = some (Int32.ofNat i) := by
    rw [kept_of_test htest, hquiet.kept_eq, hcount]
  rcases hm with ⟨htrue, r, hm⟩ | ⟨hfalse, rfl⟩
  swap
  · have hfalse : t.holds = false := by simpa using hfalse
    rw [hfalse] at htells
    exact .inl ⟨n₁, .loopEnd htells (.done n₁), hsame₁, hcountt, hofft⟩
  rw [htrue] at htells
  rw [obey_call he] at hm
  have hfst : mt.functions = fs := by
    rw [hsame₁.functions, htells.sameSetup, ← hmn.functions, hfs]
  have hot : h.objective ∈ mt.objectives := by
    rw [hsame₁.objectives]
    exact htells.mem_objectives
  obtain ⟨d₂, lines, me, mf, rfl, hfind, hquiete, hruns, hquietf⟩ := Calls.runs (d := d) ⟨_, site, r, hm⟩
  rw [hfst, hentry, Option.some.injEq] at hfind
  subst hfind
  obtain ⟨mg, hup, hruns⟩ := hruns.cons
  obtain ⟨hsame', hcountg, hoff'⟩ := hup.count_up hobj hq hmem (hquiete.objectives ▸ hot)
    (by rw [hquiete.kept_eq, hcountt])
  have hsameg : SameBut h mg n₁ := hsame'.symm.trans (hquiete.sameBut.symm.trans hsame₁)
  have hfsg : mg.functions = fs := by rw [hsameg.functions, ← hsame₁.functions, hfst]
  have hoffg : KeptOff h (insert q own) m mg :=
    (hofft.trans hquiete.keptOff).trans (hoff'.mono (by simp))
  have hk : Resumable h R fs true d₂ (some x) own mg :=
    Circles.resumable hmem hR hloop hfresh (fun d' hd' ↦ hrest d' (by omega)) (by omega) (by omega)
      hcountg
  have hback' {m₁ : Machine} (hoff : KeptOff h (insert q own) mg m₁) (hback : KeptOff h own m₁ mf) :
      KeptOff h (insert q own) m m' :=
    ((hoffg.trans hoff).trans (hback.mono (Set.subset_insert q own))).trans hquietf.keptOff
  cases hbody hfsg hsameg (by omega) hk hruns with
  | done m₁ m₂ n₂ hend hsame hoff hresume hback hoffBack =>
    have hfs₁ : m₁.functions = fs := by rw [hsame.functions, hend.sameSetup, ← hsameg.functions, hfsg]
    have ho₁ : h.objective ∈ m₁.objectives := by
      rw [hsame.objectives]
      exact hR.objective (hplan hend) htells.mem_objectives
    have hcount₁ : kept h m₁ q = some (Int32.ofNat (i + 1)) := by rw [hoff q hmem hfresh, hcountg]
    have hcount' : kept h m' q = kept h m₂ q := by
      rw [hquietf.kept_eq, hoffBack q hmem hfresh]
    obtain ⟨d', hd', hcall⟩ := hresume
    cases hrest d' (by omega) hfs₁ hsame (Nat.le_add_left 1 i) (by omega) hcount₁ ho₁ hcall with
    | ended n' _ hend' hsame' hcount₂ hoff' =>
      refine .inl ⟨n', .loopRound htells hend hend', ?_, ?_, ?_⟩
      · exact hquietf.sameBut.symm.trans (hback.symm.trans hsame')
      · rw [hcount', hcount₂, Nat.add_sub_cancel]
      · exact hback' ((hoff.mono (Set.subset_insert q own)).trans hoff') hoffBack
    | went _ _ _ hone => omega
    | left n' hend' hgrown' hcount₂ hoff' =>
      refine .inr ⟨n', .loopRound htells hend hend', ?_, ?_, ?_⟩
      · exact hgrown'.trans (.of_sameBut (hback.trans hquietf.sameBut))
      · rw [hcount', hcount₂]
      · exact hback' ((hoff.mono (Set.subset_insert q own)).trans hoff') hoffBack
  | left n' hend hgrown hoff =>
    refine .inr ⟨n', .loopLeft htells hend, hgrown.trans (.of_sameBut hquietf.sameBut), ?_, ?_⟩
    · rw [hquietf.kept_eq, hoff q hmem hfresh, hcountg]
    · exact hback' (.refl _ _) hoff

include hobj hc hq hmem he hj in
/-- The induction is on the levels of calls left: each round is a call deeper. -/
theorem circles (hR : Lasting h R) (hplan : body.Lasts h R) (hloop : (Plan.loop c body .done).Lasts h R)
    (hfresh : q ∉ own) (hbody : Realizes h R fs true (some x) body own ls)
    (hentry : Dict.find? e fs = some (scoreLine "add" q h.objective "1" :: ls))
    (hcheck : Dict.find? x fs = some (checkLines h.objective q c e j)) (d : Nat) :
    Circles h fs d c q x j body own := by
  induction d using Nat.strong_induction_on with
  | _ d ih =>
  intro i m m' n hfs hmn hi hbound hcount ho hm
  obtain ⟨d₁, lines, ma, mz, rfl, hfind, hquiet, hruns, hquiet'⟩ := hm.runs
  rw [hfs, hcheck, Option.some.injEq] at hfind
  subst hfind
  obtain ⟨mb, hround, hruns⟩ := hruns.cons
  obtain ⟨mc, hdown, hruns⟩ := hruns.cons
  obtain ⟨md, hexit, hruns⟩ := hruns.cons
  obtain rfl := runs_nil.1 hruns
  have hsub : ({q} : Set String) ⊆ insert q own := by simp
  have hround := round_does hobj hc hq hmem he hR hplan hloop hfresh hbody hentry
    (fun d' hd' ↦ ih d' (by omega)) (hquiet.toSetup ▸ hfs) (hquiet.sameBut.symm.trans hmn)
    hi (by omega) (by rw [hquiet.kept_eq, hcount]) (hquiet.objectives ▸ ho) hround
  rcases hround with ⟨n', hexec, hsame, hcountb, hoff⟩ | ⟨n', hexec, hgrown, hcountb, hoff⟩
  · obtain ⟨n₀, hlast⟩ := hexec.loop_tells
    have hoff := hquiet.keptOff.trans hoff
    rcases ended_of_tail hobj hc hq hmem hj hlast hsame hi (by omega) hcountb hdown hexit with
      ⟨hone, m₂, hsame₂, hoff₂, hcall⟩ | ⟨hmore, hsame₂, hcount₂, hoff₂⟩
    · exact .went m₂ md n' hone hexec hsame₂ (hoff.trans (hoff₂.mono hsub))
        ⟨d₁, Nat.le_succ d₁, hcall⟩ hquiet'
    · refine .ended n' hmore hexec (hquiet'.sameBut.symm.trans hsame₂) ?_ ?_
      · rw [hquiet'.kept_eq, hcount₂]
      · exact (hoff.trans (hoff₂.mono hsub)).trans hquiet'.keptOff
  · have hob : h.objective ∈ mb.objectives :=
      hgrown.objectives.subset (hR.objective (hloop hexec) (hmn.objectives ▸ ho))
    obtain ⟨hgrown₂, hcount₂, hoff₂⟩ := left_of_tail hobj hc hq hmem hj hi (by omega) hob hcountb
      hdown hexit
    refine .left n' hexec ((hgrown.trans hgrown₂).trans (.of_sameBut hquiet'.sameBut)) ?_ ?_
    · rw [hquiet'.kept_eq, hcount₂]
    · exact ((hquiet.keptOff.trans hoff).trans (hoff₂.mono hsub)).trans hquiet'.keptOff

include hobj hc hq hmem he hx hj in
theorem Realizes.loop (hR : Lasting h R) (hbodyPlan : body.Lasts h R) (hloop : (Plan.loop c body .done).Lasts h R)
    (hentry : Dict.find? e fs = some (scoreLine "add" q h.objective "1" :: ls))
    (hcheck : Dict.find? x fs = some (checkLines h.objective q c e j)) (hnextFind : Dict.find? j fs = some ls')
    (hbody : Realizes h R fs true (some x) body own ls) (hnext : Realizes h R fs r k next own' ls') (hfresh : q ∉ own) :
    Realizes h R fs r k (.loop c body next) (insert q (own ∪ own'))
      [scoreLine "set" q h.objective "1", callLine x] := by
  intro d m m' n hfs hmn hd hk hm
  obtain ⟨ma, hreset, hm⟩ := hm.cons
  obtain ⟨mb, hcall, hm⟩ := hm.cons
  obtain rfl := runs_nil.1 hm
  have hreset := hreset.assign hq hmem hobj .set isName_one readInt?_one
  obtain ⟨mc, hquiet', hcall⟩ := hcall.call hx
  obtain ⟨nu, husedN, hsameN⟩ := hreset.used_alike hmn
  have hmc : SameBut h mc nu := hquiet'.sameBut.symm.trans hsameN
  have hcount : kept h mc q = some (Int32.ofNat 1) := by
    rw [hquiet'.kept_eq, hreset.here]
    rfl
  have hfsc : mc.functions = fs := by
    rw [hmc.functions, (useObjective_objectives husedN).2, ← hmn.functions, hfs]
  have hsub : insert q own ⊆ insert q (own ∪ own') := Set.insert_subset_insert Set.subset_union_left
  have hsub' : own' ⊆ insert q (own ∪ own') := fun p hp ↦ .inr (.inr hp)
  have hoff : KeptOff h (insert q (own ∪ own')) m mc :=
    (hreset.keptOff.mono (by simp)).trans hquiet'.keptOff
  cases circles hobj hc hq hmem he hj hR hbodyPlan hloop hfresh hbody hentry hcheck d hfsc hmc le_rfl
    (by omega) hcount (hquiet'.objectives ▸ hreset.mem_objectives) hcall with
  | ended _ hi => omega
  | went m₁ m₂ n₁ _ hend hsame₁ hoff₁ hresume hback =>
    have hfs₁ : m₁.functions = fs := by
      rw [hsame₁.functions, hend.sameSetup, ← hmc.functions, hfsc]
    have hoff₁ := hoff.trans (hoff₁.mono hsub)
    obtain ⟨d', hd', hcall⟩ := hresume
    have hout := hnext.call hnextFind hfs₁ hsame₁ (by omega) (hk.mono hd' hsub' hoff₁) hcall
    refine (((hout.mono hd' hsub').after hoff₁).before hback.sameBut hback.keptOff).imp ?_
    exact fun e n' hn ↦ .loop_of_used husedN (hend.loop_done hn)
  | left n₁ hend hgrown _ hoff₁ =>
    exact .left n₁ (.loop_of_used husedN hend.loop_left) hgrown (hoff.trans (hoff₁.mono hsub))

end Loops

theorem Realizes.done (hk : ∀ path ∈ k, IsName path) :
    Realizes h R fs r k .done ∅ (k.toList.map callLine) := by
  intro d m m' n hfs hmn hd hres hm
  cases k with
  | none =>
    obtain rfl := runs_nil.1 hm
    exact .done m m n (.done n) hmn (.refl _ _) rfl (.refl h m) (.refl _ _)
  | some path =>
    obtain ⟨m₁, hdoes, hm⟩ := Runs.cons hm
    obtain rfl := runs_nil.1 hm
    obtain ⟨m₀, hquiet, hcall⟩ := hdoes.call (hk path rfl)
    exact .done m₀ m₁ n (.done n) (hquiet.sameBut.symm.trans hmn) hquiet.keptOff ⟨d, le_rfl, hcall⟩
      (.refl h m₁) (.refl _ _)

theorem Realizes.leave : Realizes h R fs r k .leave ∅ [] := by
  intro d m m' n hfs hmn hd hres hm
  obtain rfl := runs_nil.1 hm
  exact .left n (.leave n) (.of_sameBut hmn.symm) (.refl _ _)

theorem Tells.lasts {c : String} {b : Bool} (hR : Lasting h R) (hm : Tells h.objective c m b m') : R m m' := by
  obtain ⟨m₁, t, hused, htest, -⟩ := hm
  have hgrown := (keeps_useObjective {} (Grown.newObjective (h := h)) h.objective).of_eq hused
  exact hR.grown (hgrown.trans (grown_of_test htest))

theorem Plan.Lasts.of_lines (hR : Lasting h R) (hlines : ∀ l ∈ plan.lines, ∀ m m', Obeys l m m' → R m m') :
    plan.Lasts h R := by
  intro n e n' hexec
  induction hexec with
  | done | leave => exact hR.same (.refl h _)
  | skip _ ih => exact ih hlines
  | act hl _ ih =>
    exact hR.trans (hlines _ List.mem_cons_self _ _ hl) (ih fun l hl ↦ hlines l (List.mem_cons_of_mem _ hl))
  | ifThen hc _ _ ih ih' =>
    simp only [Plan.lines, List.mem_append] at hlines
    exact hR.trans (hc.lasts hR) (hR.trans (ih fun l hl ↦ hlines l (.inl hl)) (ih' fun l hl ↦ hlines l (.inr hl)))
  | ifThenLeft hc _ ih | loopLeft hc _ ih =>
    simp only [Plan.lines, List.mem_append] at hlines
    exact hR.trans (hc.lasts hR) (ih fun l hl ↦ hlines l (.inl hl))
  | ifNot hc _ ih | loopEnd hc _ ih =>
    simp only [Plan.lines, List.mem_append] at hlines
    exact hR.trans (hc.lasts hR) (ih fun l hl ↦ hlines l (.inr hl))
  | @ifElse c yes no next m b _ _ _ _ hc _ _ ih ih' =>
    simp only [Plan.lines, List.mem_append] at hlines
    refine hR.trans (hc.lasts hR) (hR.trans (ih ?_) (ih' fun l hl ↦ hlines l (.inr hl)))
    cases b with
    | true => exact fun l hl ↦ hlines l (.inl (.inl hl))
    | false => exact fun l hl ↦ hlines l (.inl (.inr hl))
  | @ifElseLeft c yes no next m b _ _ hc _ ih =>
    simp only [Plan.lines, List.mem_append] at hlines
    refine hR.trans (hc.lasts hR) (ih ?_)
    cases b with
    | true => exact fun l hl ↦ hlines l (.inl (.inl hl))
    | false => exact fun l hl ↦ hlines l (.inl (.inr hl))
  | loopRound hc _ _ ih ih' =>
    have hbody := ih fun l hl ↦ hlines l (List.mem_append_left _ hl)
    exact hR.trans (hc.lasts hR) (hR.trans hbody (ih' hlines))

/-- A body and the players of its commands can be lowered, and all commands of the body keep what lasts. -/
structure Bears (h : Hidden) (R : Machine → Machine → Prop) (plan : Plan) (own : Set String) : Prop where
  spares : plan.Spares h
  own : own ⊆ h.players
  lines : ∀ l ∈ plan.lines, ∀ m m', Obeys l m m' → R m m'

namespace Bears

theorem lasts (hb : Bears h R plan own) (hR : Lasting h R) : plan.Lasts h R := .of_lines hR hb.lines

variable {c p : String} {yes no body next : Plan} {own₂ : Set String}

theorem ifElse (hb : Bears h R (.ifElse c yes no next) (insert p (own ∪ own₂ ∪ own'))) :
    IsCondition h c ∧ p ∈ h.players ∧ Bears h R yes own ∧ Bears h R no own₂ ∧ Bears h R next own' := by
  obtain ⟨⟨hc, hyes, hno, hnext⟩, hown, hlines⟩ := hb
  simp only [Set.insert_subset_iff, Set.union_subset_iff] at hown
  simp only [Plan.lines, List.mem_append] at hlines
  exact ⟨hc, hown.1, ⟨hyes, hown.2.1.1, fun l hl ↦ hlines l (.inl (.inl hl))⟩,
    ⟨hno, hown.2.1.2, fun l hl ↦ hlines l (.inl (.inr hl))⟩, ⟨hnext, hown.2.2, fun l hl ↦ hlines l (.inr hl)⟩⟩

theorem ifThen (hb : Bears h R (.ifThen c yes next) (insert p (own ∪ own'))) :
    IsCondition h c ∧ p ∈ h.players ∧ Bears h R yes own ∧ Bears h R next own' := by
  obtain ⟨⟨hc, hyes, hnext⟩, hown, hlines⟩ := hb
  have hboth : Bears h R (.ifElse c yes .done next) (insert p (own ∪ ∅ ∪ own')) :=
    ⟨⟨hc, hyes, trivial, hnext⟩, by rwa [Set.union_empty], by simpa [Plan.lines] using hlines⟩
  obtain ⟨hc, hp, hyes, -, hnext⟩ := hboth.ifElse
  exact ⟨hc, hp, hyes, hnext⟩

theorem loop (hb : Bears h R (.loop c body next) (insert p (own ∪ own'))) :
    IsCondition h c ∧ p ∈ h.players ∧ Bears h R body own ∧ Bears h R next own' :=
  ifThen ⟨hb.spares, hb.own, hb.lines⟩

end Bears

end CommandPack.Machine
