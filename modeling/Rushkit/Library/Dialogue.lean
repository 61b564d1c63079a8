import Mathlib.Logic.Basic

/-! A writer and a reader that follows its output. A step of the writer speaks what
every reader in step with it makes of the blocks that the step puts out. -/
namespace Dialogue
variable {σ τ β μ : Type}

/-- The blocks, read one after the other, are these messages. -/
inductive Transcript (reads : τ → β → μ → τ → Prop) : τ → List β → List μ → τ → Prop where
  | nil (t : τ) : Transcript reads t [] [] t
  | cons {t t₁ t₂ : τ} {block : β} {m : μ} {blocks : List β} {ms : List μ}
      (first : reads t block m t₁) (rest : Transcript reads t₁ blocks ms t₂) :
      Transcript reads t (block :: blocks) (m :: ms) t₂

theorem transcriptAppend {reads : τ → β → μ → τ → Prop} {t t₁ t₂ : τ} {blocks more : List β}
    {ms ns : List μ} (front : Transcript reads t blocks ms t₁) (back : Transcript reads t₁ more ns t₂) :
    Transcript reads t (blocks ++ more) (ms ++ ns) t₂ := by
  induction front with
  | nil => exact back
  | cons first rest ih => exact .cons first (ih back)

theorem transcriptLength {reads : τ → β → μ → τ → Prop} {t t' : τ} {blocks : List β} {ms : List μ}
    (transcript : Transcript reads t blocks ms t') : blocks.length = ms.length := by
  induction transcript with
  | nil => rfl
  | cons first rest ih => rw [List.length_cons, List.length_cons, ih]

theorem transcriptSplit {reads : τ → β → μ → τ → Prop} {t t' : τ} {blocks : List β} {ms : List μ}
    (transcript : Transcript reads t blocks ms t') (count : Nat) :
    ∃ mid, Transcript reads t (blocks.take count) (ms.take count) mid ∧
      Transcript reads mid (blocks.drop count) (ms.drop count) t' := by
  induction transcript generalizing count with
  | nil t => exact ⟨t, by simpa using .nil t, by simpa using .nil t⟩
  | @cons t t₁ _ _ _ _ _ first rest ih =>
    cases count with
    | zero => exact ⟨t, .nil t, .cons first rest⟩
    | succ count =>
      obtain ⟨mid, front, back⟩ := ih count
      exact ⟨mid, .cons first front, back⟩

structure Speech (σ τ β μ : Type) where
  out : σ → List β
  inStep : σ → τ → Prop
  reads : τ → β → μ → τ → Prop

section Saying
variable {speech : Speech σ τ β μ}

def Speaks (speech : Speech σ τ β μ) (s s' : σ) (ms : List μ) : Prop :=
  ∀ t, speech.inStep s t → ∃ blocks t', speech.out s' = speech.out s ++ blocks ∧
    Transcript speech.reads t blocks ms t' ∧ speech.inStep s' t'

theorem speaksNothing {s s' : σ} (same : speech.out s' = speech.out s)
    (kept : ∀ t, speech.inStep s t → speech.inStep s' t) : Speaks speech s s' [] :=
  fun t step => ⟨[], t, by rw [same, List.append_nil], .nil t, kept t step⟩

theorem speaksOne {s s' : σ} {block : β} {m : μ} (new : speech.out s' = speech.out s ++ [block])
    (read : ∀ t, speech.inStep s t → ∃ t', speech.reads t block m t' ∧ speech.inStep s' t') :
    Speaks speech s s' [m] := by
  intro t step
  obtain ⟨t', first, step'⟩ := read t step
  exact ⟨[block], t', new, .cons first (.nil t'), step'⟩

theorem speaksThen {s s₁ s₂ : σ} {ms ns : List μ} (first : Speaks speech s s₁ ms)
    (second : Speaks speech s₁ s₂ ns) : Speaks speech s s₂ (ms ++ ns) := by
  intro t step
  obtain ⟨blocks, t₁, out₁, front, step₁⟩ := first t step
  obtain ⟨more, t₂, out₂, back, step₂⟩ := second t₁ step₁
  refine ⟨blocks ++ more, t₂, ?_, transcriptAppend front back, step₂⟩
  rw [out₂, out₁, List.append_assoc]

end Saying

end Dialogue
