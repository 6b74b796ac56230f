import Unixtar.Lib.Run
import Unixtar.NetworkModel.NetThread
import Unixtar.NetworkModel.RequestDelivery

/-!
# A request between two nodes

One node holds a packet in the buffer of a send context, and writes it whenever
it may, as much as the kernel takes.  The network keeps the order of the bytes.
The other node reads what has come, as much as it likes.

## Main result

* `Exchange.delivered` — the packet is passed on as soon as it has come, once.
-/

namespace Unixtar

open Unixtar.Lib Unixtar.Http ShortLink

/-- The buffer of the send context, the bytes on their way, and the connection
of the other node. -/
structure Exchange where
  buffer : AutoBuffer
  inFlight : Bytes
  link : ShortLink

namespace Exchange

inductive Event
  /-- `Socket::Send` on the rest of the packet -/
  | write (w : WriteOutcome)
  /-- a read event of the other node -/
  | read (e : ReadInput)

/-- A read that returns something returns data. -/
instance (e : ReadInput) : Decidable (OnlyData e) :=
  decidable_of_iff (∀ o ∈ e.outs, o.bytes ≠ []) <| by
    apply forall₂_congr
    intro o _
    cases o with
    | data seg => exact iff_of_true (List.length_pos_iff.1 seg.nonempty) ⟨seg, rfl⟩
    | fin => exact iff_of_false (fun h => h rfl) (fun ⟨_, h⟩ => by cases h)
    | eagain => exact iff_of_false (fun h => h rfl) (fun ⟨_, h⟩ => by cases h)
    | error => exact iff_of_false (fun h => h rfl) (fun ⟨_, h⟩ => by cases h)

/-- Reads return the bytes that were written first. -/
def step (upgrade : ConnectionProfile → ApplicationPacket → ConnectionProfile) (id : ConnId)
    (x : Exchange) : Event → Option Exchange
  | .write w =>
      if w.Fits x.buffer.ntotal then
        some { x with
          buffer := (send x.buffer w).1
          inFlight := x.inFlight ++ x.buffer.remaining.take w.count }
      else none
  | .read e =>
      let bytes := e.outs.flatMap ReadOutcome.bytes
      if OnlyData e ∧ bytes <+: x.inFlight then
        (x.link.step upgrade id e).map fun link =>
          { x with link, inFlight := x.inFlight.drop bytes.length }
      else none

/-- The packet `s` is in the buffer, and the other node has accepted a
connection from `remoteIp`. -/
def start (s : Bytes) (uid fd : Nat) (remoteIp : Bytes) (remotePort now : Nat) : Exchange :=
  { buffer := ⟨s, 0, none⟩, inFlight := [], link := ShortLink.start uid fd remoteIp remotePort now }

/-- What has been received, what is on its way and what has not been written
are the packet, which is passed on behind its last byte. -/
structure Kept (upgrade : ConnectionProfile → ApplicationPacket → ConnectionProfile) (id : ConnId)
    (Q : Request.Parser → Prop) (s remoteIp : Bytes) (x : Exchange) : Prop where
  bytes : x.buffer.bytes = s
  pos : x.buffer.pos ≤ s.length
  whole : x.link.received ++ (x.inFlight ++ x.buffer.remaining) = s
  link : if x.link.received = s then Passed upgrade id Q remoteIp x.link
    else Pending s remoteIp x.link

section Kept

variable {upgrade : ConnectionProfile → ApplicationPacket → ConnectionProfile} {id : ConnId}
  {Q : Request.Parser → Prop} {s remoteIp : Bytes}

theorem kept_start (hs : s ≠ []) (uid fd remotePort now : Nat) :
    Kept upgrade id Q s remoteIp (start s uid fd remoteIp remotePort now) where
  bytes := rfl
  pos := Nat.zero_le _
  whole := rfl
  link := by
    rw [if_neg (fun h => hs h.symm)]
    exact pending_start uid fd remoteIp remotePort now hs

/-- A write moves bytes from the buffer to the network. -/
theorem Kept.write {x : Exchange} {w : WriteOutcome} (h : Kept upgrade id Q s remoteIp x)
    (hfits : w.Fits x.buffer.ntotal) :
    Kept upgrade id Q s remoteIp { x with
      buffer := (send x.buffer w).1
      inFlight := x.inFlight ++ x.buffer.remaining.take w.count } := by
  have hsent : (send x.buffer w).1.bytes = s ∧ (send x.buffer w).1.pos = x.buffer.pos + w.count ∧
      x.buffer.pos + w.count ≤ s.length := by
    have hntotal : x.buffer.ntotal = s.length - x.buffer.pos := by
      unfold AutoBuffer.ntotal
      rw [h.bytes]
    have hle : w.count ≤ s.length - x.buffer.pos := hntotal ▸ hfits
    have hpos := h.pos
    by_cases hrest : x.buffer.pos < s.length
    · rw [(NetState.send_of_pos (by rw [h.bytes]; exact hrest) hfits).1]
      exact ⟨h.bytes, rfl, by omega⟩
    · have hzero : x.buffer.ntotal = 0 := by omega
      have hnone : w.count = 0 := by omega
      rw [send, if_pos hzero, hnone]
      exact ⟨h.bytes, rfl, hpos⟩
  obtain ⟨hbytes, hpos, hle⟩ := hsent
  refine ⟨hbytes, hpos ▸ hle, ?_, h.link⟩
  have hremaining : (send x.buffer w).1.remaining = x.buffer.remaining.drop w.count := by
    unfold AutoBuffer.remaining
    rw [hbytes, hpos, h.bytes, List.drop_drop]
  show x.link.received ++ (x.inFlight ++ x.buffer.remaining.take w.count ++
    (send x.buffer w).1.remaining) = s
  rw [hremaining, List.append_assoc, List.take_append_drop]
  exact h.whole

/-- A read moves bytes from the network to the connection. -/
theorem Kept.read {x : Exchange} {e : ReadInput} {link : ShortLink} (harrives : Arrives s Q)
    (h : Kept upgrade id Q s remoteIp x) (hdata : OnlyData e)
    (hpre : e.outs.flatMap ReadOutcome.bytes <+: x.inFlight)
    (hstep : x.link.step upgrade id e = some link) :
    Kept upgrade id Q s remoteIp
      { x with link, inFlight := x.inFlight.drop (e.outs.flatMap ReadOutcome.bytes).length } := by
  obtain ⟨more, hmore⟩ := hpre
  have hwhole := h.whole
  rw [← hmore, List.append_assoc, ← List.append_assoc] at hwhole
  have hpending : Pending s remoteIp x.link := by
    have hlink := h.link
    rw [if_neg] at hlink
    · exact hlink
    · -- a read behind the last byte would have nothing to return
      intro hall
      rw [hall, List.append_assoc] at hwhole
      have hnil := (List.append_eq_nil_iff.1 (List.append_right_eq_self.1 hwhole)).1
      exact bytes_ne_nil hdata hstep hnil
  obtain ⟨hreceived, hnext⟩ :=
    harrives.onEvent hpending hdata (hwhole ▸ List.prefix_append _ _) hstep
  refine ⟨h.bytes, h.pos, ?_, hnext⟩
  show link.received ++ (x.inFlight.drop _ ++ x.buffer.remaining) = s
  rw [hreceived, ← hmore, List.drop_left]
  exact hwhole

theorem Kept.step {x y : Exchange} {e : Event} (harrives : Arrives s Q)
    (h : Kept upgrade id Q s remoteIp x) (hstep : step upgrade id x e = some y) :
    Kept upgrade id Q s remoteIp y := by
  cases e with
  | write w =>
      simp only [Exchange.step] at hstep
      split at hstep
      · rename_i hfits
        cases hstep
        exact h.write hfits
      · cases hstep
  | read e =>
      simp only [Exchange.step] at hstep
      split at hstep
      · rename_i hread
        obtain ⟨link, hlink, rfl⟩ := Option.map_eq_some_iff.1 hstep
        exact h.read harrives hread.1 hread.2 hlink
      · cases hstep

end Kept

/-- **In every state of every run** nothing is lost, and the packet has been
passed on, once, when all of it has come, and not before. -/
theorem delivered {s : Bytes} {packet : ApplicationPacket} (h : Sent s packet)
    (hsize : s.length < 2 ^ 32)
    (upgrade : ConnectionProfile → ApplicationPacket → ConnectionProfile) (id : ConnId)
    (uid fd : Nat) (remoteIp : Bytes) (remotePort now : Nat) (events : List Event) :
    ∀ x ∈ trace (step upgrade id) (start s uid fd remoteIp remotePort now) events,
      x.link.received ++ (x.inFlight ++ x.buffer.remaining) = s ∧
        if x.link.received = s then
          ∃ ctx, x.link.dispatched = [ctx] ∧ ctx.applicationPacket = packet ∧
            ctx.fromIp = remoteIp
        else x.link.dispatched = [] := by
  obtain ⟨hne, harrives⟩ := h.arrives hsize
  intro x hx
  have hkept : Kept upgrade id (Holds packet) s remoteIp x :=
    trace_invariant_of_forall (fun _ _ _ h hstep => h.step harrives hstep)
      (kept_start hne uid fd remotePort now) x hx
  refine ⟨hkept.whole, ?_⟩
  have hlink := hkept.link
  split_ifs at hlink ⊢
  · exact hlink.dispatched
  · exact hlink.none

end Exchange

end Unixtar
