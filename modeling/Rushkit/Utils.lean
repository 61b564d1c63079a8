import Rushkit.Basic

/-! `utils.c`: the reversing copy and the fixed-width integers packed with it. -/
namespace Rushkit

/-- Set by `probe_small_endian`, which finds the low byte of 1942 first here. -/
def systemIsSmallEndian : Bool := true

/-- An object of `w` bytes in the memory of the host. -/
def hostBytes (w : Nat) {n : Nat} (v : BitVec n) : Bytes :=
  if systemIsSmallEndian then ByteOrder.encodeBits w v else (ByteOrder.encodeBits w v).reverse

def ofHostBytes (n : Nat) (bytes : Bytes) : BitVec n :=
  if systemIsSmallEndian then ByteOrder.decodeBits n bytes else ByteOrder.decodeBits n bytes.reverse

def loadDataOrdered (src : Bytes) (isSmallEndian : Bool) : Bytes :=
  if isSmallEndian then src.reverse else src

def loadData (src : Bytes) : Bytes := loadDataOrdered src systemIsSmallEndian

def loadDataReverse (src : Bytes) : Bytes := loadDataOrdered src (!systemIsSmallEndian)

def packLong (value : BitVec 32) : Bytes := loadData (hostBytes 4 value)

/-- Reads the first four bytes of `buf`. -/
def unpackInt (buf : Bytes) : Res Int :=
  if 4 ≤ buf.length then .ok (ofHostBytes 32 (loadData (buf.take 4))).toInt else .error .overRead

def wireShort (bytes : Bytes) : Int := (ofHostBytes 16 (loadData bytes)).toInt
def wireInt (bytes : Bytes) : Int := (ofHostBytes 32 (loadData bytes)).toInt

theorem hostBytesEncode (w : Nat) {n : Nat} (v : BitVec n) :
    hostBytes w v = ByteOrder.encodeBits w v := rfl

theorem loadDataReversed (src : Bytes) : loadData src = src.reverse := rfl

@[simp] theorem hostBytesLength (w : Nat) {n : Nat} (v : BitVec n) : (hostBytes w v).length = w := by
  rw [hostBytesEncode, ByteOrder.encodeBitsLength]

@[simp] theorem loadDataLength (src : Bytes) : (loadData src).length = src.length := by
  rw [loadDataReversed, List.length_reverse]

/-- Loading undoes loading, so a word packed on the wire is read back. -/
theorem loadDataTwice (src : Bytes) : loadData (loadData src) = src := by
  simp [loadDataReversed]

theorem ofHostBytesHostBytes (w : Nat) {n : Nat} (wide : 2 ^ n ≤ 256 ^ w) (v : BitVec n) :
    ofHostBytes n (hostBytes w v) = v := ByteOrder.decodeEncodeBits w wide v

theorem loadedBack (w : Nat) {n : Nat} (wide : 2 ^ n ≤ 256 ^ w) (v : BitVec n) :
    ofHostBytes n (loadData (loadData (hostBytes w v))) = v := by
  rw [loadDataTwice, ofHostBytesHostBytes w wide]

theorem byteValue (n : Int) : ((UInt8.ofInt n).toNat : Int) = n % 256 := by
  rw [UInt8.ofInt, UInt8.toNat_ofNat']
  omega

theorem shortValue {src : Int} (low : -32768 ≤ src) (high : src < 32768) :
    (BitVec.ofInt 16 src).toInt = src := by
  rw [BitVec.toInt_ofInt]
  exact Int.bmod_eq_of_le_mul_two (by omega) (by omega)

theorem longValue {src : Int} (low : -2147483648 ≤ src) (high : src < 2147483648) :
    (BitVec.ofInt 32 src).toInt = src := by
  rw [BitVec.toInt_ofInt]
  exact int32Same low high

example : packLong 1 = [0, 0, 0, 1] := by decide

end Rushkit
