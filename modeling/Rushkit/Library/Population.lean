import Mathlib.Logic.Function.Basic
import Rushkit.Library.Fallible

/-! Many machines of one kind that take inputs in any order. A fault of one stops them all;
apart from that, none of them is touched by what the others are given. -/
namespace Population
variable {κ σ ι ε : Type} [DecidableEq κ]

/-- One machine, given inputs one after the other. -/
def runs (step : σ → ι → Except ε σ) : σ → List ι → Except ε σ
  | s, [] => .ok s
  | s, input :: inputs => step s input >>= fun s => runs step s inputs

/-- All of them, each input with the machine it is for. -/
def acts (step : σ → ι → Except ε σ) : (κ → σ) → List (κ × ι) → Except ε (κ → σ)
  | all, [] => .ok all
  | all, (k, input) :: events => step (all k) input >>= fun s => acts step (Function.update all k s) events

def own (k : κ) (events : List (κ × ι)) : List ι :=
  (events.filter fun event => event.1 = k).map Prod.snd

@[simp] theorem ownNil (k : κ) : own k ([] : List (κ × ι)) = [] := rfl

@[simp] theorem ownMine (k : κ) (input : ι) (events : List (κ × ι)) :
    own k ((k, input) :: events) = input :: own k events := by simp [own]

@[simp] theorem ownOther {k other : κ} (different : other ≠ k) (input : ι) (events : List (κ × ι)) :
    own k ((other, input) :: events) = own k events := by simp [own, different]

variable {step : σ → ι → Except ε σ}

theorem actsRuns {all all' : κ → σ} {events : List (κ × ι)} (acted : acts step all events = .ok all') (k : κ) :
    runs step (all k) (own k events) = .ok (all' k) := by
  induction events generalizing all with
  | nil =>
    cases Except.ok.inj acted
    rfl
  | cons event events ih =>
    obtain ⟨other, input⟩ := event
    obtain ⟨s, first, later⟩ := Fallible.bindOk.mp acted
    have rest := ih later
    by_cases same : other = k
    · subst same
      rw [Function.update_self] at rest
      rw [ownMine, runs, first]
      exact rest
    · rw [Function.update_of_ne (Ne.symm same)] at rest
      rw [ownOther same]
      exact rest

theorem runsActs {all : κ → σ} {events : List (κ × ι)}
    (each : ∀ k, ∃ s, runs step (all k) (own k events) = .ok s) : ∃ all', acts step all events = .ok all' := by
  induction events generalizing all with
  | nil => exact ⟨all, rfl⟩
  | cons event events ih =>
    obtain ⟨k, input⟩ := event
    obtain ⟨last, mine⟩ := each k
    rw [ownMine] at mine
    obtain ⟨s, first, later⟩ := Fallible.bindOk.mp mine
    have rest (other : κ) : ∃ s', runs step (Function.update all k s other) (own other events) = .ok s' := by
      by_cases same : other = k
      · subst same
        rw [Function.update_self]
        exact ⟨last, later⟩
      · rw [Function.update_of_ne same]
        obtain ⟨s', theirs⟩ := each other
        rw [ownOther (Ne.symm same)] at theirs
        exact ⟨s', theirs⟩
    obtain ⟨all', acted⟩ := ih rest
    exact ⟨all', by rw [acts, first]; exact acted⟩

end Population
