import Mathlib.Logic.Basic

/-! Inversion of computations that return a value or stop with a fault. -/
namespace Fallible
variable {ε α β : Type}

@[simp] theorem okBind (a : α) (f : α → Except ε β) : (Except.ok a >>= f) = f a := rfl

@[simp] theorem errorBind (e : ε) (f : α → Except ε β) :
    ((Except.error e : Except ε α) >>= f) = .error e := rfl

theorem bindOk {x : Except ε α} {f : α → Except ε β} {b : β} :
    x >>= f = .ok b ↔ ∃ a, x = .ok a ∧ f a = .ok b := by
  cases x with
  | error e => simp [bind, Except.bind]
  | ok a => simp [bind, Except.bind]

theorem bindMap {γ : Type} (g : β → γ) (x : Except ε α) (f : α → Except ε β) :
    (x >>= f).map g = x >>= fun a => (f a).map g := by
  cases x <;> rfl

/-- The same fault on both sides, or results that `R` relates. -/
inductive Related {γ : Type} (R : α → γ → Prop) : Except ε α → Except ε γ → Prop where
  | error (e : ε) : Related R (.error e) (.error e)
  | ok {a : α} {c : γ} (h : R a c) : Related R (.ok a) (.ok c)

theorem relatedBind {γ δ : Type} {R : α → γ → Prop} {S : β → δ → Prop} {x : Except ε α}
    {y : Except ε γ} {f : α → Except ε β} {g : γ → Except ε δ} (h : Related R x y)
    (next : ∀ a c, R a c → Related S (f a) (g c)) : Related S (x >>= f) (y >>= g) := by
  cases h with
  | error e => exact .error e
  | ok h => exact next _ _ h

theorem relatedOk {γ : Type} {R : α → γ → Prop} {x : Except ε α} {y : Except ε γ} {a : α}
    (h : Related R x y) (ok : x = .ok a) : ∃ c, y = .ok c ∧ R a c := by
  cases h with
  | error e => cases ok
  | ok h =>
    cases Except.ok.inj ok
    exact ⟨_, rfl, h⟩

end Fallible
