import Mathlib

namespace PackagedTask.Library.StateError
open EStateM

variable {ε σ α β : Type}

theorem bind_apply (x : EStateM ε σ α) (f : α → EStateM ε σ β) (s : σ) :
    (x >>= f) s = match x s with
      | .ok a s' => f a s'
      | .error e s' => .error e s' := rfl

@[simp] theorem pure_apply (a : α) (s : σ) : (pure a : EStateM ε σ α) s = .ok a s := rfl

@[simp] theorem throw_apply (e : ε) (s : σ) : (throw e : EStateM ε σ α) s = .error e s := rfl

@[simp] theorem get_apply (s : σ) : (get : EStateM ε σ σ) s = .ok s s := rfl

@[simp] theorem set_apply (t s : σ) : (set t : EStateM ε σ PUnit) s = .ok ⟨⟩ t := rfl

@[simp] theorem modify_apply (f : σ → σ) (s : σ) :
    (modify f : EStateM ε σ PUnit) s = .ok ⟨⟩ (f s) := rfl

theorem bind_of_ok {x : EStateM ε σ α} {f : α → EStateM ε σ β} {s s' : σ} {a : α}
    (first : x s = .ok a s') : (x >>= f) s = f a s' := by
  rw [bind_apply, first]

theorem bind_of_error {x : EStateM ε σ α} {f : α → EStateM ε σ β} {s s' : σ} {e : ε}
    (first : x s = .error e s') : (x >>= f) s = .error e s' := by
  rw [bind_apply, first]

theorem bind_ok_iff {x : EStateM ε σ α} {f : α → EStateM ε σ β} {s s'' : σ} {b : β} :
    (x >>= f) s = .ok b s'' ↔ ∃ a s', x s = .ok a s' ∧ f a s' = .ok b s'' := by
  rw [bind_apply]
  cases first : x s with
  | ok a s' => simp
  | error e s' => simp

theorem bind_error_iff {x : EStateM ε σ α} {f : α → EStateM ε σ β} {s s'' : σ} {e : ε} :
    (x >>= f) s = .error e s'' ↔
      x s = .error e s'' ∨ ∃ a s', x s = .ok a s' ∧ f a s' = .error e s'' := by
  rw [bind_apply]
  cases first : x s with
  | ok a s' => simp
  | error e' s' => simp

def Keeps (step : σ → σ → Prop) (x : EStateM ε σ α) : Prop :=
  ∀ s, (∀ a s', x s = .ok a s' → step s s') ∧ (∀ e s', x s = .error e s' → step s s')

theorem Keeps.mono {step step' : σ → σ → Prop} {x : EStateM ε σ α} (keeps : Keeps step x)
    (weaker : ∀ {s s'}, step s s' → step' s s') : Keeps step' x :=
  fun s => ⟨fun a s' ran => weaker ((keeps s).1 a s' ran), fun e s' ran => weaker ((keeps s).2 e s' ran)⟩

theorem Keeps.pure {step : σ → σ → Prop} (refl : ∀ s, step s s) (a : α) :
    Keeps step (pure a : EStateM ε σ α) := by
  intro s
  constructor <;> intro _ _ result <;> simp at result
  exact result.2 ▸ refl s

theorem Keeps.throw {step : σ → σ → Prop} (refl : ∀ s, step s s) (e : ε) :
    Keeps step (throw e : EStateM ε σ α) := by
  intro s
  constructor <;> intro _ _ result <;> simp at result
  exact result.2 ▸ refl s

theorem Keeps.get {step : σ → σ → Prop} (refl : ∀ s, step s s) :
    Keeps step (get : EStateM ε σ σ) := by
  intro s
  constructor <;> intro _ _ result <;> simp at result
  exact result.2 ▸ refl s

theorem Keeps.modify {step : σ → σ → Prop} {f : σ → σ} (kept : ∀ s, step s (f s)) :
    Keeps step (modify f : EStateM ε σ PUnit) := by
  intro s
  constructor <;> intro _ _ result <;> simp at result
  exact result ▸ kept s

theorem Keeps.bind {step : σ → σ → Prop} (trans : ∀ {a b c}, step a b → step b c → step a c)
    {x : EStateM ε σ α} {f : α → EStateM ε σ β}
    (first : Keeps step x) (rest : ∀ a, Keeps step (f a)) : Keeps step (x >>= f) := by
  intro s
  constructor
  · intro b s'' result
    obtain ⟨a, s', ran, ran'⟩ := bind_ok_iff.mp result
    exact trans ((first s).1 a s' ran) ((rest a s').1 b s'' ran')
  · intro e s'' result
    rcases bind_error_iff.mp result with stopped | ⟨a, s', ran, stopped⟩
    · exact (first s).2 e s'' stopped
    · exact trans ((first s).1 a s' ran) ((rest a s').2 e s'' stopped)

theorem Keeps.bind_eq {x : EStateM ε σ α} {f : α → EStateM ε σ β} (first : Keeps Eq x)
    (rest : ∀ a, Keeps Eq (f a)) : Keeps Eq (x >>= f) :=
  @Keeps.bind ε σ α β Eq Eq.trans x f first rest

end PackagedTask.Library.StateError
