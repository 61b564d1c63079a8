import Mathlib.Algebra.Order.Group.Int
import Mathlib.Tactic.Ring

/-! Double precision numbers, given by their bits: integers as the nearest number, ties to
even, and back by truncation, and sums. -/
namespace Binary64

-- `m / 2 ^ shift` to the nearest, ties to even.
def roundShift (m shift : Nat) : Nat :=
  let half := 2 ^ shift / 2
  let rest := m % 2 ^ shift
  let down := m / 2 ^ shift
  if rest < half ∨ rest = half ∧ down % 2 = 0 then down else down + 1

-- 53 significant bits of `m`, and the power of two they are multiplied with.
def significand (m : Nat) : Nat :=
  if m.log2 ≤ 52 then m * 2 ^ (52 - m.log2) else roundShift m (m.log2 - 52)

def roundNat (m : Nat) : Nat :=
  if m.log2 ≤ 52 then m else roundShift m (m.log2 - 52) * 2 ^ (m.log2 - 52)

def roundInt (n : Int) : Int := if n < 0 then -roundNat n.natAbs else roundNat n.natAbs

-- The significand carries into the exponent field when it is rounded up to 2^53.
def magnitude (m : Nat) : Nat :=
  if m = 0 then 0 else (m.log2 + 1022) * 2 ^ 52 + significand m

def ofInt (n : Int) : BitVec 64 :=
  BitVec.ofNat 64 (magnitude n.natAbs + if n < 0 then 2 ^ 63 else 0)

def exponentField (bits : BitVec 64) : Nat := bits.toNat / 2 ^ 52 % 2 ^ 11

def fraction (bits : BitVec 64) : Nat := bits.toNat % 2 ^ 52

def negative (bits : BitVec 64) : Bool := decide (2 ^ 63 ≤ bits.toNat)

def truncated (bits : BitVec 64) : Nat :=
  if exponentField bits < 1023 then 0
  else if exponentField bits < 1075 then (2 ^ 52 + fraction bits) / 2 ^ (1075 - exponentField bits)
  else (2 ^ 52 + fraction bits) * 2 ^ (exponentField bits - 1075)

-- A number outside the range converts to the smallest integer.
def toInt64 (bits : BitVec 64) : Int :=
  if exponentField bits < 1086 then
    if negative bits then -truncated bits else truncated bits
  else -2 ^ 63

-- The integer a number stands for, its fraction cut off; no range limits it.
def whole (bits : BitVec 64) : Int := if negative bits then -truncated bits else truncated bits

-- The number in units of the smallest one, 2^-1074.
def scaled (bits : BitVec 64) : Int :=
  let m := if exponentField bits = 0 then fraction bits
    else (2 ^ 52 + fraction bits) * 2 ^ (exponentField bits - 1)
  if negative bits then -m else m

-- The number nearest to so many units; one too large for the exponent field is infinite.
def ofScaled (n : Int) : BitVec 64 :=
  let m := n.natAbs
  let bits := if m.log2 ≤ 52 then m else (m.log2 - 52) * 2 ^ 52 + roundShift m (m.log2 - 52)
  BitVec.ofNat 64 (min bits (2047 * 2 ^ 52) + if n < 0 then 2 ^ 63 else 0)

def isNan (bits : BitVec 64) : Bool := decide (exponentField bits = 2047 ∧ fraction bits ≠ 0)

def infinite (bits : BitVec 64) : Bool := decide (exponentField bits = 2047 ∧ fraction bits = 0)

-- `nan` chooses the result where it is no number. A sum of zero is negative for two negative zeros.
def add (nan : BitVec 64 → BitVec 64 → BitVec 64) (a b : BitVec 64) : BitVec 64 :=
  if isNan a ∨ isNan b ∨ (infinite a ∧ infinite b ∧ negative a ≠ negative b) then nan a b
  else if infinite a then a
  else if infinite b then b
  else if scaled a + scaled b = 0 then if negative a ∧ negative b then a else 0
  else ofScaled (scaled a + scaled b)

example : add (fun a _ => a) (ofInt 2) (ofInt 3) = ofInt 5 := by decide +kernel

-- No more than 53 significant bits: what lies below them is zero.
def Representable (n : Int) : Prop := 2 ^ (n.natAbs.log2 - 52) ∣ n.natAbs

instance (n : Int) : Decidable (Representable n) := inferInstanceAs (Decidable (_ ∣ _))

theorem roundShiftBounds {m shift : Nat} (low : 2 ^ (52 + shift) ≤ m) (high : m < 2 ^ (53 + shift)) :
    2 ^ 52 ≤ roundShift m shift ∧ roundShift m shift ≤ 2 ^ 53 := by
  have positive : 0 < 2 ^ shift := Nat.two_pow_pos shift
  rw [Nat.pow_add] at low high
  have least : 2 ^ 52 ≤ m / 2 ^ shift := (Nat.le_div_iff_mul_le positive).mpr low
  have most : m / 2 ^ shift < 2 ^ 53 := (Nat.div_lt_iff_lt_mul positive).mpr high
  unfold roundShift
  dsimp only
  split <;> omega

theorem log2Bounds {m : Nat} (some : m ≠ 0) : 2 ^ m.log2 ≤ m ∧ m < 2 ^ (m.log2 + 1) :=
  ⟨Nat.log2_self_le some, Nat.lt_log2_self⟩

theorem significandBounds {m : Nat} (some : m ≠ 0) :
    2 ^ 52 ≤ significand m ∧ significand m ≤ 2 ^ 53 := by
  obtain ⟨low, high⟩ := log2Bounds some
  unfold significand
  split
  · rename_i small
    have positive : 0 < 2 ^ (52 - m.log2) := Nat.two_pow_pos _
    have least := Nat.mul_le_mul_right (2 ^ (52 - m.log2)) low
    have most := Nat.mul_lt_mul_of_pos_right high positive
    rw [← Nat.pow_add] at least most
    rw [show m.log2 + (52 - m.log2) = 52 from by omega] at least
    rw [show m.log2 + 1 + (52 - m.log2) = 53 from by omega] at most
    exact ⟨least, Nat.le_of_lt most⟩
  · rename_i large
    apply roundShiftBounds
    · rw [show 52 + (m.log2 - 52) = m.log2 from by omega]
      exact low
    · rw [show 53 + (m.log2 - 52) = m.log2 + 1 from by omega]
      exact high

theorem roundNatExact {m : Nat} (small : m ≤ 2 ^ 53) : roundNat m = m := by
  unfold roundNat
  split
  · rfl
  · rename_i large
    rcases Nat.lt_or_eq_of_le small with below | rfl
    · have some : m ≠ 0 := by
        rintro rfl
        exact large (Nat.zero_le 52)
      have := (Nat.log2_lt some).mpr below
      omega
    · decide

theorem roundIntExact {n : Int} (small : n.natAbs ≤ 2 ^ 53) : roundInt n = n := by
  unfold roundInt
  rw [roundNatExact small]
  split <;> omega

theorem roundShiftSame {m shift : Nat} (some : 1 ≤ shift) :
    roundShift m shift * 2 ^ shift = m ↔ 2 ^ shift ∣ m := by
  constructor
  · intro same
    rw [← same]
    exact Nat.dvd_mul_left _ _
  · intro divides
    have rest : m % 2 ^ shift = 0 := Nat.mod_eq_zero_of_dvd divides
    have half : 0 < 2 ^ shift / 2 := by
      have least := Nat.pow_le_pow_right Nat.two_pos some
      omega
    rw [roundShift, if_pos (.inl (by rw [rest]; exact half)), Nat.div_mul_cancel divides]

theorem roundIntSame (n : Int) : roundInt n = n ↔ Representable n := by
  have magnitude : roundNat n.natAbs = n.natAbs ↔ Representable n := by
    unfold roundNat Representable
    split
    · rename_i small
      rw [Nat.sub_eq_zero_of_le small]
      exact iff_of_true rfl (Nat.one_dvd _)
    · exact roundShiftSame (by omega)
  rw [← magnitude, roundInt]
  split <;> omega

theorem magnitudeBound {m : Nat} (small : m < 2 ^ 63) : magnitude m < 2 ^ 63 := by
  unfold magnitude
  split
  · decide
  · rename_i some
    have bounds := significandBounds some
    have := (Nat.log2_lt some).mpr small
    omega

theorem ofIntToNat {n : Int} (small : n.natAbs < 2 ^ 63) :
    (ofInt n).toNat = magnitude n.natAbs + if n < 0 then 2 ^ 63 else 0 := by
  have bound := magnitudeBound small
  rw [ofInt, BitVec.toNat_ofNat]
  split <;> omega

theorem negativeOfInt {n : Int} (small : n.natAbs < 2 ^ 63) : negative (ofInt n) = decide (n < 0) := by
  have bound := magnitudeBound small
  unfold negative
  rw [ofIntToNat small]
  split
  · rename_i below
    rw [decide_eq_true below]
    exact decide_eq_true (Nat.le_add_left _ _)
  · rename_i above
    rw [decide_eq_false above]
    exact decide_eq_false (by omega)

theorem fieldsOfInt {n : Int} (small : n.natAbs < 2 ^ 63) :
    exponentField (ofInt n) = magnitude n.natAbs / 2 ^ 52 ∧
      fraction (ofInt n) = magnitude n.natAbs % 2 ^ 52 := by
  have bound := magnitudeBound small
  unfold exponentField fraction
  rw [ofIntToNat small]
  split <;> omega

theorem magnitudeFields {m : Nat} (some : m ≠ 0) :
    (significand m < 2 ^ 53 ∧ magnitude m / 2 ^ 52 = m.log2 + 1023 ∧
      2 ^ 52 + magnitude m % 2 ^ 52 = significand m) ∨
    (significand m = 2 ^ 53 ∧ magnitude m / 2 ^ 52 = m.log2 + 1024 ∧ magnitude m % 2 ^ 52 = 0) := by
  have bounds := significandBounds some
  unfold magnitude
  rw [if_neg some]
  omega

theorem significandSmall {m : Nat} (some : m ≠ 0) (small : m.log2 ≤ 52) :
    significand m = m * 2 ^ (52 - m.log2) ∧ significand m < 2 ^ 53 := by
  have value : significand m = m * 2 ^ (52 - m.log2) := if_pos small
  have most := Nat.mul_lt_mul_of_pos_right (log2Bounds some).2 (Nat.two_pow_pos (52 - m.log2))
  rw [← Nat.pow_add, show m.log2 + 1 + (52 - m.log2) = 53 from by omega] at most
  exact ⟨value, by rw [value]; exact most⟩

theorem truncatedOfInt {n : Int} (small : n.natAbs < 2 ^ 63) :
    truncated (ofInt n) = roundNat n.natAbs := by
  obtain ⟨exponent, frac⟩ := fieldsOfInt small
  unfold truncated
  rw [exponent, frac]
  generalize n.natAbs = m
  rcases eq_or_ne m 0 with rfl | some
  · decide
  rcases magnitudeFields some with ⟨below, field, rest⟩ | ⟨carried, field, rest⟩
  · rw [field, rest, if_neg (by omega)]
    split
    · rename_i fractional
      obtain ⟨value, _⟩ := significandSmall some (by omega)
      rw [value, show 1075 - (m.log2 + 1023) = 52 - m.log2 from by omega,
        Nat.mul_div_cancel m (Nat.two_pow_pos _), roundNat, if_pos (by omega)]
    · rename_i whole
      rw [show m.log2 + 1023 - 1075 = m.log2 - 52 from by omega]
      rcases Nat.lt_or_ge 52 m.log2 with large | edge
      · rw [roundNat, significand, if_neg (by omega), if_neg (by omega)]
      · rw [(significandSmall some edge).1, roundNat, if_pos edge]
        rw [show 52 - m.log2 = 0 from by omega, show m.log2 - 52 = 0 from by omega]
        omega
  · rcases Nat.lt_or_ge 52 m.log2 with large | edge
    · have value : significand m = roundShift m (m.log2 - 52) := if_neg (by omega)
      rw [field, rest, if_neg (by omega), if_neg (by omega), roundNat, if_neg (by omega), ← value, carried]
      rw [show m.log2 + 1024 - 1075 = m.log2 - 52 + 1 from by omega, Nat.pow_succ]
      omega
    · have := (significandSmall some edge).2
      omega

theorem toInt64OfInt {n : Int} (small : n.natAbs < 2 ^ 63) (fits : roundNat n.natAbs < 2 ^ 63) :
    toInt64 (ofInt n) = roundInt n := by
  have value := truncatedOfInt small
  have inside : exponentField (ofInt n) < 1086 := by
    rcases Nat.lt_or_ge (exponentField (ofInt n)) 1086 with inside | outside
    · exact inside
    · have least : 2 ^ 11 ≤ 2 ^ (exponentField (ofInt n) - 1075) :=
        Nat.pow_le_pow_right Nat.two_pos (by omega)
      unfold truncated at value
      rw [if_neg (by omega), if_neg (by omega)] at value
      have product := Nat.mul_le_mul (Nat.le_add_right (2 ^ 52) (fraction (ofInt n))) least
      omega
  unfold toInt64 roundInt
  rw [if_pos inside, negativeOfInt small, value]
  split <;> simp_all

theorem toInt64Exact {n : Int} (small : n.natAbs ≤ 2 ^ 53) : toInt64 (ofInt n) = n := by
  have exact := roundNatExact small
  rw [toInt64OfInt (by omega) (by omega), roundIntExact small]

theorem wholeOfInt {n : Int} (small : n.natAbs < 2 ^ 63) : whole (ofInt n) = roundInt n := by
  rw [whole, negativeOfInt small, truncatedOfInt small, roundInt]
  by_cases below : n < 0 <;> simp [below]

theorem truncatedBound {bits : BitVec 64} (inside : exponentField bits < 1086) :
    truncated bits ≤ 2 ^ 63 - 2 ^ 10 := by
  have fraction : fraction bits < 2 ^ 52 := Nat.mod_lt _ (Nat.two_pow_pos 52)
  unfold truncated
  split
  · exact Nat.zero_le _
  · split
    · have cut := Nat.div_le_self (2 ^ 52 + Binary64.fraction bits) (2 ^ (1075 - exponentField bits))
      omega
    · have scale : 2 ^ (exponentField bits - 1075) ≤ 2 ^ 10 :=
        Nat.pow_le_pow_right Nat.two_pos (by omega)
      have significand : 2 ^ 52 + Binary64.fraction bits ≤ 2 ^ 53 - 1 := by omega
      exact (Nat.mul_le_mul significand scale).trans (by decide)

theorem toInt64Bound (bits : BitVec 64) : -2 ^ 63 ≤ toInt64 bits ∧ toInt64 bits ≤ 2 ^ 63 - 2 ^ 10 := by
  unfold toInt64
  split
  · rename_i inside
    have bound := truncatedBound inside
    split <;> omega
  · decide

theorem fractionBound (bits : BitVec 64) : fraction bits < 2 ^ 52 := Nat.mod_lt _ (Nat.two_pow_pos 52)

theorem truncatedRepresentable (bits : BitVec 64) : 2 ^ ((truncated bits).log2 - 52) ∣ truncated bits := by
  have bound := fractionBound bits
  have plain {m : Nat} (small : m < 2 ^ 53) : 2 ^ (m.log2 - 52) ∣ m := by
    rcases eq_or_ne m 0 with rfl | some
    · exact Nat.dvd_zero _
    · have low := (Nat.log2_lt some).mpr small
      rw [Nat.sub_eq_zero_of_le (by omega)]
      exact Nat.one_dvd m
  unfold truncated
  split
  · exact plain (by decide)
  split
  · have cut := Nat.div_le_self (2 ^ 52 + fraction bits) (2 ^ (1075 - exponentField bits))
    exact plain (by omega)
  · generalize exponentField bits - 1075 = shift
    have positive : 0 < 2 ^ shift := Nat.two_pow_pos shift
    have some : (2 ^ 52 + fraction bits) * 2 ^ shift ≠ 0 := Nat.mul_ne_zero (by omega) (by omega)
    have below : (2 ^ 52 + fraction bits) * 2 ^ shift < 2 ^ (53 + shift) := by
      rw [Nat.pow_add]
      exact Nat.mul_lt_mul_of_pos_right (by omega) positive
    have low := (Nat.log2_lt some).mpr below
    exact (Nat.pow_dvd_pow 2 (by omega)).trans (Nat.dvd_mul_left _ _)

theorem toInt64Again (bits : BitVec 64) : toInt64 (ofInt (toInt64 bits)) = toInt64 bits := by
  by_cases inside : exponentField bits < 1086
  · have bound := truncatedBound inside
    have same : (toInt64 bits).natAbs = truncated bits := by
      rw [toInt64, if_pos inside]
      split <;> omega
    have exact : roundInt (toInt64 bits) = toInt64 bits := by
      rw [roundIntSame, Representable, same]
      exact truncatedRepresentable bits
    have fits : roundNat (toInt64 bits).natAbs < 2 ^ 63 := by
      have value : roundNat (toInt64 bits).natAbs = (toInt64 bits).natAbs := by
        unfold roundInt at exact
        split at exact <;> omega
      omega
    rw [toInt64OfInt (by omega) fits, exact]
  · have least : toInt64 bits = -2 ^ 63 := if_neg inside
    rw [least]
    decide

example : ofInt 1 = 0x3ff0000000000000#64 := by decide
example : ofInt (-9007199254740993) = 0xc340000000000000#64 := by decide

end Binary64
