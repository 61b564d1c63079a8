import Rushkit.Library.Fallible

/-! `do body while (again)` over a body that may fault: the runs that leave the loop,
as a relation, so that leaving it is a statement of its own. -/
namespace DoWhile
variable {ε σ : Type} {body : σ → Except ε σ} {again : σ → Prop}

inductive Ends (body : σ → Except ε σ) (again : σ → Prop) : σ → σ → Prop where
  | left {s t : σ} (step : body s = .ok t) (stop : ¬ again t) : Ends body again s t
  | round {s mid t : σ} (step : body s = .ok mid) (more : again mid)
      (rest : Ends body again mid t) : Ends body again s t

theorem endsStops {s t : σ} (h : Ends body again s t) : ¬ again t := by
  induction h with
  | left step stop => exact stop
  | round step more rest ih => exact ih

/-- The loop with a bound on the rounds; `none` when these are used up. -/
def bounded (body : σ → Except ε σ) (again : σ → Prop) [DecidablePred again] :
    Nat → σ → Option (Except ε σ)
  | 0, _ => none
  | fuel+1, s =>
    match body s with
    | .error e => some (.error e)
    | .ok t => if again t then bounded body again fuel t else some (.ok t)

theorem boundedEnds [DecidablePred again] (fuel : Nat) {s t : σ}
    (loop : bounded body again fuel s = some (.ok t)) : Ends body again s t := by
  induction fuel generalizing s with
  | zero => cases loop
  | succ fuel ih =>
    simp only [bounded] at loop
    split at loop
    · cases loop
    · rename_i step
      split at loop
      · rename_i more
        exact .round step more (ih loop)
      · rename_i stop
        cases loop
        exact .left step stop

/-- A set of states that every round stays in is never left. -/
theorem endsNever {stuck : σ → Prop}
    (keeps : ∀ s, stuck s → ∃ mid, body s = .ok mid ∧ again mid ∧ stuck mid) {s t : σ}
    (start : stuck s) : ¬ Ends body again s t := by
  intro h
  induction h with
  | left step stop =>
    obtain ⟨mid, same, more, _⟩ := keeps _ start
    rw [step] at same
    cases same
    exact stop more
  | round step more rest ih =>
    obtain ⟨mid, same, _, later⟩ := keeps _ start
    rw [step] at same
    cases same
    exact ih later

/-- Where every round that is repeated raises a rank towards its limit, or leads to where
the loop is never left, the room of the rank bounds the rounds. -/
theorem endsWithin [DecidablePred again] (rank : σ → Nat) (limit : Nat)
    (progress : ∀ s mid, rank s ≤ limit → body s = .ok mid → again mid →
      (rank s < limit ∧ rank mid = rank s + 1) ∨ ∀ t, ¬ Ends body again mid t)
    {s t : σ} (h : Ends body again s t) (low : rank s ≤ limit) :
    bounded body again (limit + 1 - rank s) s = some (.ok t) := by
  induction h with
  | @left s t step stop =>
    obtain ⟨fuel, room⟩ : ∃ n, limit + 1 - rank s = n + 1 := ⟨limit - rank s, by omega⟩
    simp [room, bounded, step, stop]
  | @round s mid t step more rest ih =>
    rcases progress s mid low step more with ⟨room, up⟩ | never
    · have count : limit + 1 - rank s = (limit + 1 - rank mid) + 1 := by omega
      simp [count, bounded, step, more, ih (by omega)]
    · exact absurd rest (never t)

end DoWhile
