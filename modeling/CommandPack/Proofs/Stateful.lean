import Mathlib

/-!
Computations that change a state and may fail. Running one on a state gives its result and the state
it leaves; the lemmas say how the parts of a computation run one after the other.
-/

namespace CommandPack.Stateful

variable {ε σ α β : Type}

@[simp] theorem outcome_eq_iff {r r' : Except ε α} {s s' : σ} :
    @Eq (Id (Except ε α × σ)) (r, s) (r', s') ↔ r = r' ∧ s = s' := Prod.mk_inj

@[simp] theorem pure_apply (a : α) (s : σ) : (pure a : ExceptT ε (StateM σ) α) s = (.ok a, s) := rfl

@[simp] theorem throw_apply (e : ε) (s : σ) :
    (throw e : ExceptT ε (StateM σ) α) s = (.error e, s) := rfl

@[simp] theorem get_apply (s : σ) : (get : ExceptT ε (StateM σ) σ) s = (.ok s, s) := rfl

@[simp] theorem set_apply (s s' : σ) : (set s' : ExceptT ε (StateM σ) PUnit) s = (.ok ⟨⟩, s') := rfl

@[simp] theorem modify_apply (f : σ → σ) (s : σ) :
    (modify f : ExceptT ε (StateM σ) PUnit) s = (.ok ⟨⟩, f s) := rfl

/-- The rest of a computation after a first part that ran. -/
def andThen (f : α → ExceptT ε (StateM σ) β) : Except ε α × σ → Except ε β × σ
  | (.ok a, s) => f a s
  | (.error e, s) => (.error e, s)

@[simp] theorem andThen_ok (f : α → ExceptT ε (StateM σ) β) (a : α) (s : σ) :
    andThen f (.ok a, s) = f a s := rfl

@[simp] theorem andThen_error (f : α → ExceptT ε (StateM σ) β) (e : ε) (s : σ) :
    andThen f (.error e, s) = (.error e, s) := rfl

@[simp] theorem bind_apply (x : ExceptT ε (StateM σ) α) (f : α → ExceptT ε (StateM σ) β) (s : σ) :
    (x >>= f) s = andThen f (x s) := by
  change (match x s with
    | (a, s') => ExceptT.bindCont f a s') = andThen f (x s)
  rcases x s with ⟨_ | a, s'⟩ <;> rfl

@[simp] theorem map_apply (f : α → β) (x : ExceptT ε (StateM σ) α) (s : σ) :
    (f <$> x) s = andThen (fun a ↦ pure (f a)) (x s) := by
  rw [map_eq_pure_bind, bind_apply]

theorem bind_eq_ok {x : ExceptT ε (StateM σ) α} {f : α → ExceptT ε (StateM σ) β} {s s' : σ} {b : β} :
    (x >>= f) s = (.ok b, s') ↔ ∃ a s₁, x s = (.ok a, s₁) ∧ f a s₁ = (.ok b, s') := by
  rw [bind_apply]
  rcases h : x s with ⟨e | a, s₁⟩
  · simp
  · constructor
    · exact fun hf ↦ ⟨a, s₁, rfl, hf⟩
    · rintro ⟨a', s', hx, hf⟩
      cases hx
      exact hf

@[simp] theorem tryCatch_apply (x : ExceptT ε (StateM σ) α) (f : ε → ExceptT ε (StateM σ) α) (s : σ) :
    (tryCatch x f) s = (match x s with
      | (.ok a, s') => (.ok a, s')
      | (.error e, s') => f e s') := by
  change (match x s with
    | (a, s') => (match a with
      | .ok a => (pure (.ok a) : StateM σ (Except ε α))
      | .error e => f e) s') = _
  rcases x s with ⟨_ | a, s'⟩ <;> rfl

end CommandPack.Stateful
