import Mathlib
import CommandPack.Proofs.Dictionary
import CommandPack.Proofs.Confining

/-!
Machines that differ only in scores that a program keeps for itself, and actions that cannot tell
such machines apart.
-/

namespace CommandPack.Machine

open Stateful

variable {m m' : Machine}

/-- Players whose scores in one objective a program keeps for itself. -/
structure Hidden where
  players : Set String
  objective : String

def core (m : Machine) : Machine :=
  { m with maxDepth := 0, scores := [], running := false, cancelled := false, count := 0, log := #[] }

/-- Two machines differ at most in hidden scores and in what belongs to a run. -/
structure SameBut (h : Hidden) (m m' : Machine) : Prop where
  core : m.core = m'.core
  score (p o : String) : (p ∈ h.players → o ≠ h.objective) →
    score? m (.player p) o = score? m' (.player p) o

namespace SameBut

variable {h : Hidden} {m m' m₁ m₂ m₃ : Machine}

theorem refl (h : Hidden) (m : Machine) : SameBut h m m := ⟨rfl, fun _ _ _ ↦ rfl⟩

theorem symm (hm : SameBut h m m') : SameBut h m' m :=
  ⟨hm.core.symm, fun p o hp ↦ (hm.score p o hp).symm⟩

theorem trans (h₁ : SameBut h m₁ m₂) (h₂ : SameBut h m₂ m₃) : SameBut h m₁ m₃ :=
  ⟨h₁.core.trans h₂.core, fun p o hp ↦ (h₁.score p o hp).trans (h₂.score p o hp)⟩

theorem functions (hm : SameBut h m m') : m.functions = m'.functions :=
  (congrArg (fun n : Machine ↦ n.functions) hm.core :)

theorem strict (hm : SameBut h m m') : m.strict = m'.strict :=
  (congrArg (fun n : Machine ↦ n.strict) hm.core :)

theorem objectives (hm : SameBut h m m') : m.objectives = m'.objectives :=
  (congrArg (fun n : Machine ↦ n.objectives) hm.core :)

theorem entities (hm : SameBut h m m') : m.entities = m'.entities :=
  (congrArg (fun n : Machine ↦ n.entities) hm.core :)

theorem storage (hm : SameBut h m m') : m.storage = m'.storage :=
  (congrArg (fun n : Machine ↦ n.storage) hm.core :)

theorem blocks (hm : SameBut h m m') : m.blocks = m'.blocks :=
  (congrArg (fun n : Machine ↦ n.blocks) hm.core :)

end SameBut

/-- An entry is as it was, or is new and empty. -/
def Fresh {α : Type} (d d' : Dict (Dict α)) (k : String) : Prop :=
  Dict.find? k d' = Dict.find? k d ∨ (Dict.find? k d = none ∧ Dict.find? k d' = some [])

/-- A machine differs from another at most in hidden scores, in what belongs to a run, in objectives
that were added, and in storages and block entities without data that were added. -/
structure Grown (h : Hidden) (m m' : Machine) : Prop where
  core : { m.core with objectives := [], storage := [], blocks := [] } =
    { m'.core with objectives := [], storage := [], blocks := [] }
  score (p o : String) : (p ∈ h.players → o ≠ h.objective) →
    score? m (.player p) o = score? m' (.player p) o
  objectives : m.objectives <+: m'.objectives
  storage (id : String) : Fresh m.storage m'.storage id
  blocks (key : String) : Fresh m.blocks m'.blocks key

theorem Fresh.refl (d : Dict (Dict α)) (k : String) : Fresh d d k := .inl rfl

theorem Fresh.trans {d₁ d₂ d₃ : Dict (Dict α)} {k : String} (h : Fresh d₁ d₂ k) (h' : Fresh d₂ d₃ k) :
    Fresh d₁ d₃ k := by
  rcases h with h | ⟨h₁, h₂⟩ <;> rcases h' with h' | ⟨h₂', h₃⟩
  · exact .inl (h'.trans h)
  · exact .inr ⟨h ▸ h₂', h₃⟩
  · exact .inr ⟨h₁, h'.trans h₂⟩
  · exact .inr ⟨h₁, h₃⟩

theorem Fresh.insert (d : Dict (Dict α)) {id : String} (h : Dict.has id d = false) (k : String) :
    Fresh d (Dict.insert id [] d) k := by
  by_cases hk : id = k
  · subst hk
    exact .inr ⟨by simpa [Dict.has] using h, by simp⟩
  · exact .inl (by simp [hk])

namespace Grown

variable {h : Hidden} {m m' m₁ m₂ m₃ : Machine}

theorem of_sameBut (hm : SameBut h m m') : Grown h m m' where
  core := (congrArg (fun n : Machine ↦ { n with objectives := [], storage := [], blocks := [] }) hm.core :)
  score := hm.score
  objectives := by rw [hm.objectives]
  storage id := by rw [hm.storage]; exact Fresh.refl _ id
  blocks key := by rw [hm.blocks]; exact Fresh.refl _ key

theorem trans (h₁ : Grown h m₁ m₂) (h₂ : Grown h m₂ m₃) : Grown h m₁ m₃ where
  core := h₁.core.trans h₂.core
  score p o hp := (h₁.score p o hp).trans (h₂.score p o hp)
  objectives := h₁.objectives.trans h₂.objectives
  storage id := (h₁.storage id).trans (h₂.storage id)
  blocks key := (h₁.blocks key).trans (h₂.blocks key)

instance : IsPreorder Machine (Grown h) where
  refl m := of_sameBut (SameBut.refl h m)
  trans _ _ _ := trans

theorem newObjective : AllowsNewObjective (Grown h) := fun _ _ ↦
  ⟨rfl, fun _ _ _ ↦ rfl, List.prefix_append _ _, fun _ ↦ Fresh.refl _ _, fun _ ↦ Fresh.refl _ _⟩

theorem newData : AllowsNewData (Grown h) :=
  ⟨fun _ _ hid ↦ ⟨rfl, fun _ _ _ ↦ rfl, List.prefix_rfl, Fresh.insert _ hid, fun _ ↦ Fresh.refl _ _⟩,
    fun _ _ hkey ↦ ⟨rfl, fun _ _ _ ↦ rfl, List.prefix_rfl, fun _ ↦ Fresh.refl _ _, Fresh.insert _ hkey⟩⟩

end Grown

variable {α β : Type} {S : Machine → Machine → Prop}

/-- The outcomes of two actions agree, and the machines they leave are related. -/
def SameOutcome (S : Machine → Machine → Prop) : Except Stop α × Machine → Except Stop α × Machine → Prop
  | (.ok a, m), (.ok a', m') => a = a' ∧ S m m'
  | (.error _, _), (.error _, _) => True
  | _, _ => False

/-- Two actions have the same outcome on related machines. -/
def Alike (S : Machine → Machine → Prop) (a b : Action α) : Prop :=
  ∀ m m', S m m' → SameOutcome S (a m) (b m')

theorem Alike.ok {a b : Action α} (hab : Alike S a b) {m₁ : Machine} {x : α} (hm : S m m') (h : a m = (.ok x, m₁)) :
    ∃ m₁', b m' = (.ok x, m₁') ∧ S m₁ m₁' := by
  have hout := hab m m' hm
  rw [h] at hout
  rcases hb : b m' with ⟨e | y, m₁'⟩
  · rw [hb] at hout
    exact hout.elim
  · rw [hb] at hout
    obtain ⟨rfl, hS⟩ := hout
    exact ⟨m₁', rfl, hS⟩

theorem alike_pure {a : α} : Alike S (pure a) (pure a) := fun _ _ hm ↦ ⟨rfl, hm⟩

theorem alike_fault (site site' : Site) (cause cause' : Cause) :
    Alike S (fault site cause : Action α) (fault site' cause') := fun _ _ _ ↦ trivial

theorem alike_bind {x x' : Action α} {f f' : α → Action β} (hx : Alike S x x')
    (hf : ∀ a, Alike S (f a) (f' a)) : Alike S (x >>= f) (x' >>= f') := by
  intro m m' hm
  have hout := hx m m' hm
  rw [bind_apply, bind_apply]
  rcases hr : x m with ⟨e | a, m₁⟩ <;> rcases hr' : x' m' with ⟨e' | a', m₁'⟩ <;>
    rw [hr, hr'] at hout
  · exact trivial
  · exact hout.elim
  · exact hout.elim
  · obtain ⟨rfl, hS⟩ := hout
    exact hf a m₁ m₁' hS

theorem alike_get_bind {f f' : Machine → Action β}
    (h : ∀ m m', S m m' → SameOutcome S (f m m) (f' m' m')) :
    Alike S (get >>= f) (get >>= f') := h

theorem alike_modify {f f' : Machine → Machine} (h : ∀ m m', S m m' → S (f m) (f' m')) :
    Alike S (modify f : Action PUnit) (modify f') := fun m m' hm ↦ ⟨rfl, h m m' hm⟩

section Parts

variable (h : Hidden) (site site' : Site) (actor : Actor)

theorem alike_orFault (x : Except Cause α) : Alike S (orFault site x) (orFault site' x) := by
  cases x
  · exact alike_fault site site' _ _
  · exact alike_pure

theorem alike_pathOrFault (s : String) : Alike S (pathOrFault site s) (pathOrFault site' s) := by
  unfold pathOrFault
  split
  · exact alike_pure
  · exact alike_fault site site' _ _

theorem alike_useObjective (name : String) :
    Alike (SameBut h) (useObjective site name) (useObjective site' name) := by
  refine alike_get_bind fun m m' hm ↦ ?_
  simp only [hm.objectives, hm.strict]
  split
  · exact ⟨rfl, hm⟩
  · split
    · exact trivial
    · refine ⟨rfl, ?_, hm.score⟩
      exact (congrArg (fun n : Machine ↦ { n with objectives := m'.objectives ++ [name] }) hm.core :)

theorem select_congr (he : m.entities = m'.entities) (s : String) : select m actor s = select m' actor s := by
  have hchoose (sel : Selector) : sel.choose m actor = sel.choose m' actor := by
    have hfind : m.entity? = m'.entity? := by
      funext id
      simp [entity?, he]
    simp [Selector.choose, living, he, hfind]
  simp [select, hchoose]

theorem holders_congr (he : m.entities = m'.entities) (s : String) : holders m actor s = holders m' actor s := by
  simp [holders, select_congr actor he]

theorem alike_selectOrFault (s : String) :
    Alike (SameBut h) (selectOrFault site actor s) (selectOrFault site' actor s) := by
  refine alike_get_bind fun m m' hm ↦ ?_
  rw [select_congr actor hm.entities]
  cases select m' actor s
  · exact trivial
  · exact ⟨rfl, hm⟩

theorem SameBut.score?_eq {h : Hidden} (hm : SameBut h m m') {holder : Holder} {o : String}
    (hp : ∀ p ∈ h.players, holder = .player p → o ≠ h.objective) : score? m holder o = score? m' holder o := by
  cases holder with
  | player p => exact hm.score p o fun hmem ↦ hp p hmem rfl
  | entity id => simp [score?, entity?, hm.entities]

theorem holders_eq_of_player {actor : Actor} {s p : String} {hs : List Holder} (h : holders m actor s = .ok hs)
    (hp : .player p ∈ hs) : s = p := by
  simp only [holders] at h
  split at h
  · cases hsel : select m actor s with
    | error e => simp [hsel, Except.map] at h
    | ok es =>
      simp only [hsel, Except.map, Except.ok.injEq] at h
      subst h
      simp at hp
  · simp only [Except.ok.injEq] at h
    subst h
    simpa using Eq.symm (List.mem_singleton.1 hp)

/-- The score of a holder that is not hidden is the same on machines that differ in hidden
scores. -/
theorem alike_singleScore {s o : String} (hs : s ∈ h.players → o ≠ h.objective) :
    Alike (SameBut h) (singleScore site actor s o) (singleScore site' actor s o) := by
  intro m m' hm
  simp only [singleScore, holdersOrFault, bind_apply, get_apply, andThen_ok,
    holders_congr actor hm.entities]
  cases hh : holders m' actor s with
  | error e => exact trivial
  | ok hs' =>
    simp only [pure_apply, andThen_ok]
    split
    · rename_i holder
      simp only [bind_apply, get_apply, andThen_ok, pure_apply]
      refine ⟨hm.score?_eq fun p hp hholder ↦ ?_, hm⟩
      have hsp := holders_eq_of_player hh (p := p) (by simp [hholder])
      exact hs (hsp ▸ hp)
    · exact ⟨rfl, hm⟩

theorem alike_dataTarget (words : List String) :
    Alike (SameBut h) (dataTarget site actor words) (dataTarget site' actor words) := by
  unfold dataTarget
  split
  · split
    · refine alike_bind (alike_modify fun m m' hm ↦ ?_) fun _ ↦ alike_pure
      rw [hm.storage]
      split
      · exact hm
      · rename_i id _ _ _
        refine ⟨?_, hm.score⟩
        exact (congrArg (fun n : Machine ↦ { n with storage := Dict.insert id [] m'.storage }) hm.core :)
    · split
      · refine alike_bind (alike_selectOrFault h site site' actor _) fun es ↦ ?_
        split <;> exact alike_pure
      · split
        · split
          · refine alike_bind (alike_orFault site site' _) fun p ↦ ?_
            refine alike_bind (alike_modify fun m m' hm ↦ ?_) fun _ ↦ alike_pure
            rw [hm.blocks]
            split
            · exact hm
            · refine ⟨?_, hm.score⟩
              exact (congrArg (fun n : Machine ↦
                { n with blocks := Dict.insert (blockKey p) [] m'.blocks }) hm.core :)
          · exact alike_fault site site' _ _
        · exact alike_fault site site' _ _
  · exact alike_fault site site' _ _

end Parts

end CommandPack.Machine
