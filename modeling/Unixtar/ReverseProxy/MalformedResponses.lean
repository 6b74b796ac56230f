import Unixtar.Http.StatusLines
import Unixtar.ReverseProxy.ProxyServer

/-!
# Malformed responses

What a web server answers with is parsed on the network thread.  A status line
that is refused is an error of its connection alone: `ParseProtocol` reports
-2, and the read event ends in `DelConnection`.  A status line whose second
word is not a number throws from `std::stoi`, and nothing below `Thread::Entry`
catches this.

## Main results

* `onReadEvent_of_parseError` — a read event whose `ParseProtocol` reports an
  error deletes the connection.
* `step_of_parseError` — and no other one.
-/

namespace Unixtar

/-! ## An error of a connection -/

namespace ConnectionProfile

/-- A read event whose `ParseProtocol` reports an error deletes the
connection. -/
theorem onReadEvent_of_parseError
    (upgrade : ConnectionProfile → ApplicationPacket → ConnectionProfile) (id : ConnId)
    (x : CtxId) {c : ConnectionProfile} {seg : Segment} (hflag : c.isEagain = false)
    {code : Int} (hcode : code ≠ 0)
    (hparse : (c.read (.data seg)).parseProtocol.2 = .returned code) :
    ∃ d, d.uid = c.uid ∧
      c.onReadEvent upgrade id x [.data seg] = some ⟨d, .deleted, none⟩ := by
  obtain ⟨parser, hconn, -⟩ := parseProtocol_conn (c.read (.data seg))
  refine ⟨{ c.read (.data seg) with parser }, rfl, ?_⟩
  have hround : c.receiveRound (.data seg) =
      ({ c.read (.data seg) with parser }, some (.returned (-1)), true) := by
    have hread : (c.read (.data seg)).isEagain = false := hflag
    rcases hpair : (c.read (.data seg)).parseProtocol with ⟨d, ret⟩
    rw [hpair] at hconn hparse
    change d = _ at hconn
    change ret = _ at hparse
    unfold receiveRound
    simp only [hread, hpair, hconn, hparse, if_pos hcode]
    rfl
  unfold onReadEvent receive
  rw [hround]
  rfl

end ConnectionProfile

/-- The thread deletes it, if its uid leads to it. -/
theorem NetState.onReadEvent_of_parseError
    (upgrade : ConnectionProfile → ApplicationPacket → ConnectionProfile) {s : NetState}
    (hdistinct : s.mgr.Distinct) {id : ConnId} {c : ConnectionProfile}
    (hc : s.mgr.conns id = some c) {seg : Segment} (hflag : c.isEagain = false) {code : Int}
    (hcode : code ≠ 0)
    (hparse : (c.read (.data seg)).parseProtocol.2 = .returned code) :
    ∃ t, s.onReadEvent upgrade id [.data seg] = some (t, .deleted) ∧
      t.mgr.conns = Function.update s.mgr.conns id none := by
  obtain ⟨d, huid, hevent⟩ :=
    c.onReadEvent_of_parseError upgrade id s.nextCtx hflag hcode hparse
  have hread : (s.setConn id d).mgr.conns id = some d := Function.update_self _ _ _
  have hdel := delConnection_eq
    ((ConnectionManager.sameUids_update hc huid).distinct hdistinct) hread
  refine ⟨(s.setConn id d).destroy d.uid d.uid id d, ?_, ?_⟩
  · unfold onReadEvent
    simp only [hc, hevent]
    show ((s.setConn id d).delConnection c.uid).map _ = _
    rw [← huid, hdel]
    rfl
  · show Function.update (Function.update s.mgr.conns id (some d)) id none = _
    rw [Function.update_idem]

namespace ReverseProxy

open Unixtar.Http.Response

/-- The thread goes on, and only this connection is gone. -/
structure DroppedAlone (id : ConnId) (s t : State) : Prop where
  running : t.aborted = false
  conns : t.net.mgr.conns = Function.update s.net.mgr.conns id none
  connMap : t.connMap = s.connMap

theorem step_of_parseError (cfg : Config) {s : State} (hrunning : s.aborted = false)
    (hdistinct : s.net.mgr.Distinct) {id : ConnId} {c : ConnectionProfile}
    (hc : s.net.mgr.conns id = some c) {seg : Segment} (hflag : c.isEagain = false)
    {code : Int} (hcode : code ≠ 0)
    (hparse : (c.read (.data seg)).parseProtocol.2 = .returned code)
    (forward : Forward) (w : WriteOutcome) :
    ∃ t, s.step cfg (.readEvent id [.data seg] forward w) = some t ∧ DroppedAlone id s t := by
  obtain ⟨net, hevent, hconns⟩ := s.net.onReadEvent_of_parseError upgradeApplicationProtocol
    hdistinct hc hflag hcode hparse
  refine ⟨{ s with net }, ?_, hrunning, hconns, rfl⟩
  unfold State.step
  rw [if_neg (by rw [hrunning]; decide)]
  show s.onReadEvent cfg id [.data seg] forward w = _
  unfold State.onReadEvent
  rw [hevent]

/-! ## Reported lines -/

/-- A connection to a web server in front of the call: it has received the
chunks before, and its parser has been called after each. -/
structure BeforeCall {bytes : Bytes} (k : DoParseCall bytes) (c : ConnectionProfile) : Prop where
  parser : c.parser = some (.response (parseChunks k.pre))
  buffer : c.tcpByteArr = k.pre.flatten
  flag : c.isEagain = false

/-- Delivered in chunks, the bytes never make `DoParse` throw, and a malformed
status line is an error that costs its connection and nothing else. -/
structure Reported (bytes : Bytes) : Prop where
  returns : ∀ k : DoParseCall bytes, ∃ code, k.result.2 = .returned code
  isError : ∀ k : DoParseCall bytes, BadLine k.buf → k.result.1.position = .kError
  parseProtocol : ∀ k : DoParseCall bytes, BadLine k.buf → ∀ c : ConnectionProfile,
    c.parser = some (.response (parseChunks k.pre)) → c.tcpByteArr = k.buf →
    c.parseProtocol.2 = .returned (-2)
  dropped : ∀ k : DoParseCall bytes, BadLine k.buf →
    ∀ (cfg : Config) (s : State) (id : ConnId) (c : ConnectionProfile),
    s.aborted = false → s.net.mgr.Distinct → s.net.mgr.conns id = some c → BeforeCall k c →
    ∀ seg : Segment, seg.bytes = k.chunk → ∀ forward w,
    ∃ t, s.step cfg (.readEvent id [.data seg] forward w) = some t ∧ DroppedAlone id s t

/-- `ParseProtocol` on a parser that ends in an error. -/
theorem parseProtocol_of_isError {c : ConnectionProfile} {p : Parser}
    (hparser : c.parser = some (.response p)) {code : Int}
    (hret : (Parser.doParse c.tcpByteArr p).2 = .returned code)
    (herr : (Parser.doParse c.tcpByteArr p).1.position = .kError) :
    c.parseProtocol.2 = .returned (-2) := by
  unfold ConnectionProfile.parseProtocol
  rw [hparser]
  dsimp only [ApplicationProtocolParser.doParse]
  rw [hret]
  show ReceiveRet.returned (if decide (_ = Http.TPosition.kError) = true then -2 else 0) = _
  rw [herr]
  rfl

/-- **Malformed responses** are reported exactly when their status line is
refused: when it has not three words, or `std::stoi` finds a number, and one
out of range, in front of the second. -/
theorem reported_iff_refusesBadLine (bytes : Bytes) : Reported bytes ↔ RefusesBadLine bytes := by
  constructor
  · intro h
    exact refusesBadLine_of_calls h.returns h.isError
  · intro h
    have hparse : ∀ k : DoParseCall bytes, BadLine k.buf → ∀ c : ConnectionProfile,
        c.parser = some (.response (parseChunks k.pre)) → c.tcpByteArr = k.buf →
        c.parseProtocol.2 = .returned (-2) := by
      intro k hbad c hparser hbuffer
      obtain ⟨code, hcode⟩ := k.returns h
      have herr := k.isError h hbad
      unfold DoParseCall.result at hcode herr
      rw [← hbuffer] at hcode herr
      exact parseProtocol_of_isError hparser hcode herr
    refine ⟨fun k => k.returns h, fun k hbad => k.isError h hbad, hparse, ?_⟩
    intro k hbad cfg s id c hrunning hdistinct hc hbefore seg hseg forward w
    have hbuffer : (c.read (.data seg)).tcpByteArr = k.buf := by
      show c.tcpByteArr ++ seg.bytes = k.pre.flatten ++ k.chunk
      rw [hbefore.buffer, hseg]
    exact step_of_parseError cfg hrunning hdistinct hc hbefore.flag (by decide)
      (hparse k hbad (c.read (.data seg)) hbefore.parser hbuffer) forward w

/-- `HTTP/1.1 abc OK`, in one chunk. -/
theorem not_reported_abc : ¬ Reported (lit "HTTP/1.1 abc OK\r\n") := by
  intro h
  obtain ⟨code, hcode⟩ := h.returns (firstCall (List.prefix_refl _))
  have hthrown : (Parser.doParse (lit "HTTP/1.1 abc OK\r\n") Parser.fresh).2 = .crashed := by
    decide
  change (Parser.doParse (lit "HTTP/1.1 abc OK\r\n") Parser.fresh).2 = _ at hcode
  rw [hthrown] at hcode
  cases hcode

end ReverseProxy

end Unixtar
