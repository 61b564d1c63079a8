import Rushkit.Library.Fallible

/-! Steps on a state that may fail, and the parts of the state they leave as they were. -/
namespace Frame
variable {σ ε α β : Type} {view : σ → β}

/-- Whenever the step succeeds, the view of the state is the one before. -/
def Leaves (view : σ → β) (step : σ → Except ε σ) : Prop :=
  ∀ {s s' : σ}, step s = .ok s' → view s' = view s

theorem leavesOk : Leaves view (Except.ok : σ → Except ε σ) := by
  intro s s' h
  cases Except.ok.inj h
  rfl

theorem leavesValue (x : Except ε α) {next : α → σ → Except ε σ} (each : ∀ a, Leaves view (next a)) :
    Leaves view fun s => x >>= fun a => next a s := by
  intro s s' h
  obtain ⟨a, _, h⟩ := Fallible.bindOk.mp h
  exact each a h

theorem leavesIf {c : Prop} [Decidable c] {step other : σ → Except ε σ} (first : Leaves view step)
    (second : Leaves view other) : Leaves view fun s => if c then step s else other s := by
  intro s s' h
  split at h
  · exact first h
  · exact second h

/-- A step that also returns a value, followed by one that depends on it. -/
theorem leavesAfter {first : σ → Except ε (α × σ)} (next : α → σ → Except ε σ)
    (kept : ∀ {s a s'}, first s = .ok (a, s') → view s' = view s) (each : ∀ a, Leaves view (next a)) :
    Leaves view fun s => first s >>= fun r => next r.1 r.2 := by
  intro s s' h
  obtain ⟨⟨a, mid⟩, before, after⟩ := Fallible.bindOk.mp h
  exact (each a after).trans (kept before)

end Frame
