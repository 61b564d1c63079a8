import Rushkit.Library.Fallible
import Rushkit.Library.ByteOrder

/-! Faults and machine arithmetic shared by the whole model. The host is a
little-endian LP64 machine: `int` has 32 bits and signed arithmetic wraps. -/
namespace Rushkit

abbrev Bytes := List UInt8

/-- The function whose `assert` fails. -/
inductive Site where
  | rtmpRbReadE | rtmpFwbWrite
  | getR3 | rtmpProtoGetChannel | rtmpPacketGetLastTimer | writeHeaderBytes
  | onConnect | onHandShake | rtmpProtoFeed | rtmpProtoSendPacket
  | defaultOnPacketInvoke | defaultOnPacketBytesRead
  | amfPackArguments | amfPackCall | amfStringEqual
  deriving DecidableEq, Repr

/-- `overRead` and `overWrite` are accesses outside the object a pointer is into;
`hang` is a loop of the source that is never left. -/
inductive Fault where
  | assertion (site : Site)
  | overRead
  | overWrite
  | hang
  deriving DecidableEq, Repr

abbrev Res := Except Fault

def int32 (x : Int) : Int := x.bmod (2 ^ 32)

theorem int32Same {x : Int} (low : -2147483648 ≤ x) (high : x < 2147483648) : int32 x = x :=
  Int.bmod_eq_of_le_mul_two (by omega) (by omega)

-- A `size_t` has 64 bits.
def sizeT (x : Int) : Nat := (x % 2 ^ 64).toNat

theorem sizeTSame {x : Int} (positive : 0 ≤ x) (small : x < 2 ^ 64) : sizeT x = x.toNat := by
  rw [sizeT, Int.emod_eq_of_lt positive small]

theorem sizeTNegative {x : Int} (negative : x < 0) (bound : -2 ^ 64 ≤ x) :
    sizeT x = (x + 2 ^ 64).toNat := by
  rw [sizeT, ← Int.add_emod_right, Int.emod_eq_of_lt (by omega) (by omega)]

-- An `int` handed to `rt_pool_alloc`.
def unsignedInt (x : Int) : Nat := (x % 2 ^ 32).toNat

def check (site : Site) (condition : Prop) [Decidable condition] : Res Unit :=
  if condition then .ok () else .error (.assertion site)

@[simp] theorem checkTrue {site : Site} {condition : Prop} [Decidable condition]
    (h : condition) : check site condition = .ok () := if_pos h

@[simp] theorem checkFalse {site : Site} {condition : Prop} [Decidable condition]
    (h : ¬ condition) : check site condition = .error (.assertion site) := if_neg h

theorem checkHolds {site : Site} {condition : Prop} [Decidable condition] {a : Unit}
    (h : check site condition = .ok a) : condition := by
  by_contra fails
  rw [checkFalse fails] at h
  cases h

end Rushkit
