import Mathlib.Tactic.Ring

/-! Fixed-width byte encodings of naturals and of bit vectors, least significant
byte first. The other order is the reversed list. -/
namespace ByteOrder

def encode : Nat → Nat → List UInt8
  | 0, _ => []
  | w+1, n => UInt8.ofNat n :: encode w (n / 256)

def decode : List UInt8 → Nat
  | [] => 0
  | b :: bs => b.toNat + 256 * decode bs

@[simp] theorem encodeLength (w n : Nat) : (encode w n).length = w := by
  induction w generalizing n with
  | zero => rfl
  | succ w ih => simp [encode, ih]

theorem decodeBound (bs : List UInt8) : decode bs < 256 ^ bs.length := by
  induction bs with
  | nil => simp [decode]
  | cons b bs ih =>
    have hb := b.toNat_lt
    simp only [decode, List.length_cons, Nat.pow_succ]
    omega

theorem decodeEncode (w n : Nat) : decode (encode w n) = n % 256 ^ w := by
  induction w generalizing n with
  | zero => simp [encode, decode, Nat.mod_one]
  | succ w ih =>
    have head : (UInt8.ofNat n).toNat = n % 256 := by simp
    rw [encode, decode, ih, head, Nat.pow_succ, Nat.mul_comm (256 ^ w), Nat.mod_mul]

theorem encodeDecode (bs : List UInt8) : encode bs.length (decode bs) = bs := by
  induction bs with
  | nil => rfl
  | cons b bs ih =>
    have hb := b.toNat_lt
    have low : UInt8.ofNat (b.toNat + 256 * decode bs) = b := by
      apply UInt8.toNat_inj.mp
      simp only [UInt8.toNat_ofNat']
      omega
    have high : (b.toNat + 256 * decode bs) / 256 = decode bs := by omega
    simp only [List.length_cons, encode, decode, low, high, ih]

/-- Lists of one length that decode to the same number are the same list. -/
theorem decodeInjective {as bs : List UInt8} (len : as.length = bs.length)
    (same : decode as = decode bs) : as = bs := by
  rw [← encodeDecode as, ← encodeDecode bs, len, same]

def encodeBits (w : Nat) {n : Nat} (v : BitVec n) : List UInt8 := encode w v.toNat

def decodeBits (n : Nat) (bs : List UInt8) : BitVec n := BitVec.ofNat n (decode bs)

@[simp] theorem encodeBitsLength (w : Nat) {n : Nat} (v : BitVec n) :
    (encodeBits w v).length = w := encodeLength w v.toNat

theorem decodeEncodeBits (w : Nat) {n : Nat} (wide : 2 ^ n ≤ 256 ^ w) (v : BitVec n) :
    decodeBits n (encodeBits w v) = v := by
  have fits : v.toNat < 256 ^ w := Nat.lt_of_lt_of_le v.isLt wide
  rw [decodeBits, encodeBits, decodeEncode, Nat.mod_eq_of_lt fits, BitVec.ofNat_toNat,
    BitVec.setWidth_eq]

theorem decodeBitsNat {n : Nat} (bs : List UInt8) (exact : 256 ^ bs.length = 2 ^ n) :
    (decodeBits n bs).toNat = decode bs := by
  have bound := decodeBound bs
  rw [exact] at bound
  rw [decodeBits, BitVec.toNat_ofNat, Nat.mod_eq_of_lt bound]

/-- A word read back in the other byte order is unchanged exactly when its bytes
are a palindrome. -/
theorem decodeReversedBits (w : Nat) {n : Nat} (exact : 256 ^ w = 2 ^ n) (v : BitVec n) :
    decodeBits n (encodeBits w v).reverse = v ↔ (encodeBits w v).reverse = encodeBits w v := by
  have here : decodeBits n (encodeBits w v) = v := decodeEncodeBits w exact.ge v
  constructor
  · intro h
    apply decodeInjective (by simp)
    rw [← decodeBitsNat (n := n) _ (by simp [exact]), ← decodeBitsNat (n := n) _ (by simp [exact]),
      h, here]
  · intro h
    rw [h, here]

end ByteOrder
