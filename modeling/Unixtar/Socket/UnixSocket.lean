import Unixtar.Utils.AutoBuffer

/-!
# Reading and writing a socket: `socket/unixsocket.cc`

What `::read` and `::write` return is the environment's choice, given by a
`ReadOutcome` or a `WriteOutcome`.
-/

namespace Unixtar

/-- `Socket::kBufferSize`. -/
def kBufferSize : Nat := 4096

/-- What one `::read` of at most `kBufferSize` bytes can deliver. -/
structure Segment where
  bytes : Bytes
  nonempty : 0 < bytes.length
  fits : bytes.length ≤ kBufferSize
deriving DecidableEq

/-- How a `::read` ends: with data, with 0 for the peer's FIN, with EAGAIN
or EWOULDBLOCK, or with another error. -/
inductive ReadOutcome
  | data (seg : Segment)
  | fin
  | eagain
  | error
deriving DecidableEq

namespace ReadOutcome

/-- The bytes a read delivers. -/
def bytes : ReadOutcome → Bytes
  | data seg => seg.bytes
  | _ => []

/-- `is_eagain_` after `Socket::Receive`: a read that does not fail leaves
the flag as it was. -/
def eagainFlag (old : Bool) : ReadOutcome → Bool
  | data _ => old
  | fin => old
  | eagain => true
  | error => false

/-- `*_is_buffer_full`. -/
def isBufferFull : ReadOutcome → Bool
  | data seg => seg.bytes.length = kBufferSize
  | _ => false

end ReadOutcome

/-- How a `::write` ends: with a count, with EAGAIN, or with another error. -/
inductive WriteOutcome
  | wrote (n : Nat)
  | eagain
  | error
deriving DecidableEq

namespace WriteOutcome

/-- The number of bytes taken by the kernel. -/
def count : WriteOutcome → Nat
  | wrote n => n
  | _ => 0

/-- A `::write` of `ntotal` bytes takes at most these. -/
def Fits (w : WriteOutcome) (ntotal : Nat) : Prop := w.count ≤ ntotal

instance (w : WriteOutcome) (ntotal : Nat) : Decidable (w.Fits ntotal) :=
  inferInstanceAs (Decidable (_ ≤ _))

end WriteOutcome

/-- `Socket::Send` on an open descriptor: the buffer behind it and
`*_is_send_done`.  An empty rest is not written and is never done.  The guard
`fd_ <= 0` lets every live connection pass: the constructor of `ConnectionFrom`
asserts that its descriptor is positive, and `MakeConnection` keeps a
`ConnectionTo` only if `Connect` has succeeded. -/
def send (b : AutoBuffer) (w : WriteOutcome) : AutoBuffer × Bool :=
  if b.ntotal = 0 then (b, false)
  else if w = .wrote b.ntotal then (b.seekEnd, true)
  else (b.seekCurrent w.count, false)

end Unixtar
