import Rushkit.AmfBounds
import Rushkit.AmfProgress
import Rushkit.PoolTrunks

/-! The blocks that decoded elements are kept in (`amf.c`): what `_unpack_array` and
`_unpack_assoc_array` get from the pool, against the elements they write. -/
namespace Rushkit.Amf

section Input
variable (ppool : Serving)

end Input

section Loop
variable {ppool : Serving} {mem : Bytes} {asked asked₁ asked₂ : List Nat} {s mid rest : Bytes}

end Loop

section Room
variable (amfUnpack : Nat → Decoder AV) {room : Nat} (ap : AP)

end Room

section Calls
variable {ppool : Pool} {mem count s : Bytes} (within : count ++ s <:+ mem) (four : count.length = 4)
include within four

end Calls

end Rushkit.Amf
