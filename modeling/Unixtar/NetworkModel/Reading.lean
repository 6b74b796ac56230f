import Unixtar.NetworkModel.Dispatch

/-!
# What a read event looks at

`Receive` and what follows it in `__OnReadEvent` look neither at the timeout of
the connection nor at what concerns sending, but for the number of the context
they make.  Two connections that agree on everything else read alike; only the
names of their contexts differ.

## Main result

* `onReadEvent_seen` — a read event of two connections that agree.
-/

namespace Unixtar.ConnectionProfile

open Unixtar.Lib

/-- Everything but the timeout and what concerns sending. -/
def reading (c : ConnectionProfile) : ConnectionProfile :=
  { c with timeoutTs := 0, sendCtxSeq := 0, sendContexts := [], pendingSendCtx := [] }

/-- A packet without the name of its return packet. -/
def unnamed (ctx : RecvContext) : RecvContext := { ctx with returnPacket := none }

/-- The end of a read event, without the name of a return packet. -/
def ReadEnd.unnamed : ReadEnd → ReadEnd
  | .dispatched ctx => .dispatched (ConnectionProfile.unnamed ctx)
  | stop => stop

/-- The packet that is passed on. -/
def ReadEnd.passed : ReadEnd → List RecvContext
  | .dispatched ctx => [ctx]
  | _ => []

/-- Ends that differ in names only. -/
theorem unnamed_cases {a b : ReadEnd} (h : a.unnamed = b.unnamed) :
    (a = .deleted ∧ b = .deleted) ∨ (a = .idle ∧ b = .idle) ∨ (a = .crashed ∧ b = .crashed) ∨
      ∃ u v, a = .dispatched u ∧ b = .dispatched v ∧ unnamed u = unnamed v := by
  cases a <;> cases b <;> simp_all [ReadEnd.unnamed]

/-- What can be seen of a read event. -/
def ReadEvent.seen (ev : ReadEvent) : ConnectionProfile × ReadEnd :=
  (ev.conn.reading, ev.stop.unnamed)

/-! ## `Receive` -/

theorem parseProtocol_reading (c : ConnectionProfile) :
    c.reading.parseProtocol = (c.parseProtocol.1.reading, c.parseProtocol.2) := by
  have hparser : c.reading.parser = c.parser := rfl
  have hbuf : c.reading.tcpByteArr = c.tcpByteArr := rfl
  unfold parseProtocol
  rw [hparser, hbuf]
  cases c.parser with
  | none => rfl
  | some p =>
      dsimp only
      generalize p.doParse c.tcpByteArr = parsed
      obtain ⟨q, ret⟩ := parsed
      cases ret <;> rfl

theorem receiveRound_reading (c : ConnectionProfile) (o : ReadOutcome) :
    c.reading.receiveRound o =
      ((c.receiveRound o).1.reading, (c.receiveRound o).2.1, (c.receiveRound o).2.2) := by
  have hread : c.reading.read o = (c.read o).reading := rfl
  unfold receiveRound
  rw [hread]
  generalize c.read o = d
  have hflag : d.reading.isEagain = d.isEagain := rfl
  dsimp only
  rw [hflag]
  cases d.isEagain with
  | true => rfl
  | false =>
      simp only [Bool.false_eq_true, if_false]
      cases o with
      | eagain => rfl
      | error => rfl
      | fin => rfl
      | data seg =>
          simp only [parseProtocol_reading]
          cases hparse : d.parseProtocol with
          | mk d' ret =>
              cases ret with
              | crashed => rfl
              | returned code =>
                  have hdone : d'.reading.isParseDone = d'.isParseDone := rfl
                  simp only [hdone]
                  split_ifs <;> rfl

theorem receive_reading (c : ConnectionProfile) (outs : List ReadOutcome) :
    c.reading.receive outs =
      (c.receive outs).map fun r => { r with conn := r.conn.reading } := by
  induction outs generalizing c with
  | nil => rfl
  | cons o outs ih =>
      have hround := receiveRound_reading c o
      have hbuf : c.reading.tcpByteArr = c.tcpByteArr := rfl
      unfold receive
      rw [hround, hbuf]
      generalize c.receiveRound o = round
      obtain ⟨d, ret, parsed⟩ := round
      cases ret with
      | some ret =>
          dsimp only
          split_ifs <;> rfl
      | none =>
          dsimp only
          rw [ih, Option.map_map, Option.map_map]
          rfl

/-! ## Behind `Receive` -/

section Upgrade

variable {upgrade : ConnectionProfile → ApplicationPacket → ConnectionProfile}
  (hupgrade : ∀ c packet, upgrade c.reading packet = (upgrade c packet).reading)
include hupgrade

theorem dispatch_reading (id : ConnId) (x y : CtxId) (p : ApplicationProtocolParser)
    (c : ConnectionProfile) :
    (dispatch upgrade id x p c.reading).seen = (dispatch upgrade id y p c).seen := by
  have hrecycle : ∀ c : ConnectionProfile, c.reading.recycleParser = c.recycleParser.reading := by
    intro c
    have hparser : c.reading.parser = c.parser := rfl
    unfold recycleParser
    rw [hparser]
    cases c.parser with
    | none => rfl
    | some q => cases q <;> rfl
  unfold dispatch
  split_ifs
  · simp only [makeRecvContext, hrecycle, hupgrade]
    generalize upgrade c.recycleParser p.packet = d
    have hparser : d.reading.parser = d.parser := rfl
    rw [hparser]
    cases d.parser with
    | none => rfl
    | some q => rfl
  · simp only [makeRecvContext, hrecycle]
    have htype : c.recycleParser.reading.type = c.recycleParser.type := rfl
    rw [htype]
    cases c.recycleParser.type <;> rfl

theorem afterReceive_reading (id : ConnId) (x y : CtxId) (ret : ReceiveRet)
    (c : ConnectionProfile) :
    (afterReceive upgrade id x ret c.reading).seen = (afterReceive upgrade id y ret c).seen := by
  unfold afterReceive
  cases ret with
  | crashed => rfl
  | returned code =>
      have hfin : c.reading.hasReceivedFin = c.hasReceivedFin := rfl
      have hparser : c.reading.parser = c.parser := rfl
      dsimp only
      rw [hfin, hparser]
      split_ifs
      · rfl
      · rfl
      · cases c.parser with
        | none => rfl
        | some p =>
            dsimp only
            split_ifs
            · exact dispatch_reading hupgrade id x y p c
            · rfl

/-- **A read event** of two connections that agree on what it looks at. -/
theorem onReadEvent_seen {c d : ConnectionProfile} (h : c.reading = d.reading) (id : ConnId)
    (x y : CtxId) (outs : List ReadOutcome) :
    (c.onReadEvent upgrade id x outs).map ReadEvent.seen =
      (d.onReadEvent upgrade id y outs).map ReadEvent.seen := by
  -- both are compared with the connection that has nothing else
  have hseen : ∀ (c : ConnectionProfile) (x : CtxId),
      (c.onReadEvent upgrade id x outs).map ReadEvent.seen =
        (c.reading.onReadEvent upgrade id x outs).map ReadEvent.seen := by
    intro c x
    unfold onReadEvent
    rw [receive_reading, Option.map_map, Option.map_map, Option.map_map]
    congr 1
    funext r
    exact (afterReceive_reading hupgrade id x x r.ret r.conn).symm
  have hname : (c.reading.onReadEvent upgrade id x outs).map ReadEvent.seen =
      (c.reading.onReadEvent upgrade id y outs).map ReadEvent.seen := by
    unfold onReadEvent
    rw [receive_reading, Option.map_map, Option.map_map, Option.map_map, Option.map_map]
    congr 1
    funext r
    exact (afterReceive_reading hupgrade id x y r.ret r.conn).trans
      (afterReceive_reading hupgrade id y y r.ret r.conn).symm
  rw [hseen c x, hname, h, hseen d y]

end Upgrade

end Unixtar.ConnectionProfile
