import Mathlib.Data.List.Basic

/-! Codes in which no word starts another. Lists of such words are told apart when they are counted,
when a stop word ends them, and when nothing but their end is known. -/
namespace PrefixCode
variable {α σ : Type} {legal : α → Prop} {encode : α → List σ}

/-- Whatever follows, the word of `a` is not taken for that of another. -/
def Distinct (legal : α → Prop) (encode : α → List σ) (a : α) : Prop :=
  ∀ b r s, legal b → encode a ++ r = encode b ++ s → a = b ∧ r = s

theorem distinctFixed {n : Nat} (width : ∀ a, (encode a).length = n) {a : α}
    (injective : ∀ b, legal b → encode a = encode b → a = b) : Distinct legal encode a := by
  intro b r s member same
  obtain ⟨words, rest⟩ := List.append_inj same ((width a).trans (width b).symm)
  exact ⟨injective b member words, rest⟩

theorem distinctAmong {legal' : α → Prop} {a : α} (fewer : ∀ b, legal' b → legal b)
    (distinct : Distinct legal encode a) : Distinct legal' encode a :=
  fun b r s member same => distinct b r s (fewer b member) same

variable {as : List α} (each : ∀ a ∈ as, Distinct legal encode a)
include each

theorem distinctCounted {bs : List α} (members : ∀ b ∈ bs, legal b) (count : as.length = bs.length)
    {r s : List σ} (same : as.flatMap encode ++ r = bs.flatMap encode ++ s) : as = bs ∧ r = s := by
  induction as generalizing bs with
  | nil =>
    cases List.eq_nil_of_length_eq_zero count.symm
    exact ⟨rfl, same⟩
  | cons a as ih =>
    cases bs with
    | nil => contradiction
    | cons b bs =>
      simp only [List.flatMap_cons, List.append_assoc] at same
      obtain ⟨rfl, rest⟩ := each a List.mem_cons_self b _ _ (members b List.mem_cons_self) same
      obtain ⟨rfl, left⟩ := ih (fun a member => each a (List.mem_cons_of_mem _ member))
        (fun b member => members b (List.mem_cons_of_mem _ member)) (Nat.succ.inj count) rest
      exact ⟨rfl, left⟩

variable (own : ∀ a ∈ as, legal a)
include own

theorem distinctEnded {stop : List σ} (apart : ∀ b r s, legal b → stop ++ r ≠ encode b ++ s) {bs : List α}
    (members : ∀ b ∈ bs, legal b) {r s : List σ}
    (same : as.flatMap encode ++ (stop ++ r) = bs.flatMap encode ++ (stop ++ s)) : as = bs ∧ r = s := by
  induction as generalizing bs with
  | nil =>
    cases bs with
    | nil => exact ⟨rfl, List.append_cancel_left same⟩
    | cons b bs =>
      rw [List.flatMap_cons, List.append_assoc] at same
      exact absurd same (apart b _ _ (members b List.mem_cons_self))
  | cons a as ih =>
    cases bs with
    | nil =>
      rw [List.flatMap_cons, List.append_assoc] at same
      exact absurd same.symm (apart a _ _ (own a List.mem_cons_self))
    | cons b bs =>
      simp only [List.flatMap_cons, List.append_assoc] at same
      obtain ⟨rfl, rest⟩ := each a List.mem_cons_self b _ _ (members b List.mem_cons_self) same
      obtain ⟨rfl, left⟩ := ih (fun a member => each a (List.mem_cons_of_mem _ member))
        (fun a member => own a (List.mem_cons_of_mem _ member))
        (fun b member => members b (List.mem_cons_of_mem _ member)) rest
      exact ⟨rfl, left⟩

theorem prefixWords (nonempty : ∀ a, legal a → encode a ≠ []) {bs : List α} (members : ∀ b ∈ bs, legal b) :
    as.flatMap encode <+: bs.flatMap encode ↔ as <+: bs := by
  constructor
  · rintro ⟨more, same⟩
    induction as generalizing bs with
    | nil => exact List.nil_prefix
    | cons a as ih =>
      cases bs with
      | nil =>
        have some := nonempty a (own a List.mem_cons_self)
        have none := (List.append_eq_nil_iff.mp same).1
        rw [List.flatMap_cons, List.append_eq_nil_iff] at none
        exact absurd none.1 some
      | cons b bs =>
        simp only [List.flatMap_cons, List.append_assoc] at same
        obtain ⟨rfl, rest⟩ := each a List.mem_cons_self b _ _ (members b List.mem_cons_self) same
        have later := ih (fun a member => each a (List.mem_cons_of_mem _ member))
          (fun a member => own a (List.mem_cons_of_mem _ member))
          (fun b member => members b (List.mem_cons_of_mem _ member)) rest
        exact (List.prefix_cons_inj a).mpr later
  · rintro ⟨more, rfl⟩
    exact ⟨more.flatMap encode, List.flatMap_append.symm⟩

end PrefixCode
