import Mathlib.Data.List.Basic

/-! A list cut into blocks of one length with a separator between neighbours.
The writer's and the reader's loops are both compared with this layout. -/
namespace Interleaving
variable {α : Type}

/-- `Layout c data seps wire`: `wire` is `data` in blocks of `c`, separated by `seps`. -/
inductive Layout (c : Nat) : List α → List α → List α → Prop where
  | last (data : List α) (short : data.length ≤ c) : Layout c data [] data
  | more {block data seps wire : List α} (sep : α) (full : block.length = c)
      (nonempty : data ≠ []) (rest : Layout c data seps wire) :
      Layout c (block ++ data) (sep :: seps) (block ++ sep :: wire)

/-- Separators needed for `n` elements; there is none after the last block. -/
def sepCount (c n : Nat) : Nat := (n - 1) / c

def wireLength (c n : Nat) : Nat := n + sepCount c n

theorem sepCountShort {c n : Nat} (short : n ≤ c) (positive : 1 ≤ c) : sepCount c n = 0 :=
  Nat.div_eq_of_lt (by omega)

theorem sepCountMore {c n : Nat} (positive : 1 ≤ c) (more : 1 ≤ n) :
    sepCount c (c + n) = sepCount c n + 1 := by
  have split : c + n - 1 = (n - 1) + c := by omega
  rw [sepCount, split, Nat.add_div_right _ positive, sepCount]

theorem layoutLength {c : Nat} {data seps wire : List α} (h : Layout c data seps wire) :
    wire.length = data.length + seps.length := by
  induction h with
  | last data short => simp
  | more sep full nonempty rest ih =>
    simp only [List.length_append, List.length_cons, ih]
    omega

theorem layoutSeps {c : Nat} (positive : 1 ≤ c) {data seps wire : List α}
    (h : Layout c data seps wire) : seps.length = sepCount c data.length := by
  induction h with
  | last data short => simp [sepCountShort short positive]
  | more sep full nonempty rest ih =>
    have some : 1 ≤ (List.length _) := List.length_pos_of_ne_nil nonempty
    rw [List.length_append, full, sepCountMore positive some, ← ih, List.length_cons]

theorem layoutWire {c : Nat} (positive : 1 ≤ c) {data seps wire : List α}
    (h : Layout c data seps wire) : wire.length = wireLength c data.length := by
  rw [layoutLength h, layoutSeps positive h, wireLength]

theorem layoutPerm {c : Nat} {data seps wire : List α} (h : Layout c data seps wire) :
    wire.Perm (data ++ seps) := by
  induction h with
  | last data short => simp
  | @more block data seps wire sep full nonempty rest ih =>
    have behind : (sep :: wire).Perm (data ++ sep :: seps) := (ih.cons sep).trans List.perm_middle.symm
    simpa using behind.append_left block

theorem layoutUnique {c : Nat} {data seps wire wire' : List α} (h : Layout c data seps wire)
    (h' : Layout c data seps wire') : wire = wire' := by
  induction h generalizing wire' with
  | last data short =>
    cases h'
    rfl
  | @more block data seps wire sep full nonempty rest ih =>
    generalize whole : block ++ data = joined at h'
    cases h' with
    | @more block' data' _ wire' _ full' nonempty' rest' =>
      obtain ⟨rfl, rfl⟩ := List.append_inj whole (full.trans full'.symm)
      rw [ih rest']

/-- Data and wire determine the separators when these could be copies of one element. -/
theorem layoutForced {c c' n : Nat} {mark : α} {data seps wire : List α}
    (h : Layout c data (List.replicate n mark) wire) (h' : Layout c' data seps wire) :
    seps = List.replicate n mark := by
  have same := (layoutPerm h').symm.trans (layoutPerm h)
  exact List.perm_replicate.mp ((List.perm_append_left_iff data).mp same)

/-- Enough elements can be read as a layout of any announced size. -/
theorem layoutRead {c : Nat} (positive : 1 ≤ c) (size : Nat) (s : List α)
    (enough : wireLength c size ≤ s.length) :
    ∃ data seps wire rest, s = wire ++ rest ∧ data.length = size ∧ Layout c data seps wire := by
  induction size using Nat.strongRecOn generalizing s with
  | ind size ih =>
    by_cases short : size ≤ c
    · have len : (s.take size).length = size := by
        rw [List.length_take]
        simp only [wireLength] at enough
        omega
      exact ⟨s.take size, [], s.take size, s.drop size, (List.take_append_drop size s).symm, len,
        .last _ (by omega)⟩
    · have count := sepCountMore (n := size - c) positive (by omega)
      rw [Nat.add_sub_cancel' (by omega)] at count
      simp only [wireLength, count] at enough
      have full : (s.take c).length = c := by rw [List.length_take]; omega
      cases tail : s.drop c with
      | nil =>
        have := congrArg List.length tail
        rw [List.length_drop, List.length_nil] at this
        omega
      | cons sep s' =>
        have shorter := congrArg List.length tail
        rw [List.length_drop, List.length_cons] at shorter
        have fits : wireLength c (size - c) ≤ s'.length := by rw [wireLength]; omega
        obtain ⟨data, seps, wire, rest, same, len, layout⟩ := ih (size - c) (by omega) s' fits
        have nonempty : data ≠ [] := by
          intro empty
          rw [empty, List.length_nil] at len
          omega
        refine ⟨s.take c ++ data, sep :: seps, s.take c ++ sep :: wire, rest, ?_, ?_,
          .more sep full nonempty layout⟩
        · rw [List.append_assoc, List.cons_append, ← same, ← tail, List.take_append_drop]
        · rw [List.length_append, full, len]; omega

end Interleaving
