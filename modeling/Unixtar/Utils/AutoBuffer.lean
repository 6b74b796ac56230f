import Unixtar.Utils.StrUtil

/-!
# Send buffers: `utils/autobuffer.cc`

The contents and the read position of an `AutoBuffer`.  A shallow copy has no
bytes of its own: it points into the `tcp_byte_arr_` of a connection, and its
bytes are there only as long as the connection is and its array has not grown.
`bytes` is what stood there when the pointer was taken; what can still be read
through the pointer is `NetState.contents`.  Capacity is left out here and
stands in `Socket/BufferMemory.lean`.
-/

namespace Unixtar

/-- `AutoBuffer`: `Length()` bytes, `Pos()`, and for a shallow copy the
connection whose array it points into. -/
structure AutoBuffer where
  bytes : Bytes
  pos : Nat
  shallowCopyOf : Option Nat
deriving DecidableEq

namespace AutoBuffer

/-- A new buffer, and what `Reset` leaves. -/
def empty : AutoBuffer := ⟨[], 0, none⟩

/-- `Write`, to a buffer that is no shallow copy. -/
def write (b : AutoBuffer) (bytes : Bytes) : AutoBuffer := { b with bytes := b.bytes ++ bytes }

/-- `ShallowCopyFrom`, from the array of the connection `id`: the position
stays where it was. -/
def shallowCopyFrom (b : AutoBuffer) (id : Nat) (bytes : Bytes) : AutoBuffer :=
  { b with bytes, shallowCopyOf := some id }

/-- The bytes behind the position. -/
def remaining (b : AutoBuffer) : Bytes := b.bytes.drop b.pos

/-- `Length() - Pos()`. -/
def ntotal (b : AutoBuffer) : Nat := b.bytes.length - b.pos

/-- `Seek(kCurrent, n)`. -/
def seekCurrent (b : AutoBuffer) (n : Nat) : AutoBuffer := { b with pos := b.pos + n }

/-- `Seek(kEnd)`. -/
def seekEnd (b : AutoBuffer) : AutoBuffer := { b with pos := b.bytes.length }

end AutoBuffer

end Unixtar
