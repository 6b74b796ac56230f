import Unixtar.NetworkModel.ConnectionManager
import Unixtar.NetworkModel.Receive

/-!
# The network thread: `ServerBase::NetThreadBase` of `networkmodel/serverbase.cc`

The state of one network thread: the connections, the heap of send contexts
and the clock.  `writes` lists every `::write` it has issued; no code looks
at it.  What the environment decides (outcomes of reads and writes, new
descriptors) is an argument, and `none` means that the arguments do not fit
the state, or that the code fails an assertion there.

A send context that outlives its connection keeps a pointer to the deleted
socket.  A `::write` through such a pointer is listed like any other, with
`live` false, and the two callbacks then find no connection to update.
-/

namespace Unixtar

open Unixtar.Lib

/-- One `::write`: for which context, made by which connection, to which
connection's socket, whether the maker was live, and which bytes of the
buffer were taken.  If it was not, `Send` has been called on a `Socket` that is
destroyed: this one finds `fd_` as `Close` has left it and writes nothing, unless
its memory is somebody else's by then. -/
structure WriteRecord where
  ctx : CtxId
  owner : ConnId
  socket : ConnId
  live : Bool
  pos : Nat
  count : Nat
deriving DecidableEq

/-- The state of a network thread. -/
structure NetState where
  mgr : ConnectionManager
  ctxs : CtxId → Option SendContext
  nextConn : ConnId
  nextCtx : CtxId
  now : Nat
  writes : List WriteRecord

/-- The connection behind a packet passed on: a new send context is listed. -/
def behindDispatch (x : CtxId) (parser : ApplicationProtocolParser) (tcpByteArr : Bytes)
    (packetNo : Nat) (c : ConnectionProfile) : ConnectionProfile :=
  { c with parser := some parser, tcpByteArr, packetNo, sendCtxSeq := (c.sendCtxSeq + 1) % 2 ^ 32,
           sendContexts := c.sendContexts ++ [x] }

/-- The context `MakeSendContext` makes. -/
def madeContext (id : ConnId) (c : ConnectionProfile) : SendContext :=
  { seq := (c.sendCtxSeq + 1) % 2 ^ 32, tcpConnectionUid := c.uid, owner := id, socket := id,
    buffer := .empty, isTcpConnValid := true }

/-- The packet as it is passed on. -/
def passedContext (id : ConnId) (x : CtxId) (packet : ApplicationPacket) (packetNo : Nat)
    (c : ConnectionProfile) : RecvContext :=
  { conn := id, tcpConnectionUid := c.uid, fd := c.fd, fromIp := c.remoteIp,
    fromPort := c.remotePort, type := c.type, applicationPacket := packet, packetNo,
    returnPacket := some x }

namespace NetState

/-- A thread before its first connection. -/
def init (v : VectorImpl) : NetState :=
  { mgr := ConnectionManager.init v, ctxs := fun _ => none, nextConn := 0, nextCtx := 0,
    now := 0, writes := [] }

/-! ## Connections -/

/-- `AddConnection` of a new object that has its parser already; the result
is the new object's name. -/
def addConnection (v : VectorImpl) (c : ConnectionProfile) (s : NetState) :
    Option (NetState × ConnId) :=
  (s.mgr.addConnection v s.nextConn c).map fun mgr =>
    ({ s with mgr, nextConn := s.nextConn + 1 }, s.nextConn)

/-- `RegisterConnection`; `config` is the virtual `ConfigApplicationLayer`. -/
def registerConnection (v : VectorImpl) (maxConnections : Nat)
    (config : ConnectionProfile → ConnectionProfile) (fd : Nat) (ip : Bytes) (port : Nat)
    (s : NetState) : Option NetState :=
  if s.mgr.currConnectionCnt ≥ maxConnections then some s
  else
    (s.addConnection v (config (.init .kAcceptFrom fd ip port s.now))).map Prod.fst

/-- `MakeConnection` whose `Connect` succeeds. -/
def makeConnection (v : VectorImpl) (config : ConnectionProfile → ConnectionProfile)
    (fd : Nat) (ip : Bytes) (port : Nat) (s : NetState) : Option (NetState × ConnId) :=
  s.addConnection v (config (.init .kConnectTo fd ip port s.now))

/-- The loop of `~ConnectionProfile`: the contexts still listed become
invalid. -/
def invalidate (xs : List CtxId) (ctxs : CtxId → Option SendContext) (x : CtxId) :
    Option SendContext :=
  if x ∈ xs then (ctxs x).map fun k => { k with isTcpConnValid := false } else ctxs x

/-- The slot is released and the object in it destroyed. -/
def destroy (slot uid : Nat) (id : ConnId) (c : ConnectionProfile) (s : NetState) : NetState :=
  { s with mgr := s.mgr.release slot uid id, ctxs := invalidate c.sendContexts s.ctxs }

/-- `DelConnection`. -/
def delConnection (uid : Nat) (s : NetState) : Option NetState :=
  match s.mgr.getConnection uid with
  | some (some id) => (s.mgr.conns id).map fun c => s.destroy uid uid id c
  | _ => none

/-- One round of the loop of `ClearTimeout`. -/
def clearSlot (s : NetState) (slot : Nat) : NetState :=
  match s.mgr.expired s.now slot with
  | some (id, c) => s.destroy slot c.uid id c
  | none => s

/-- `ClearTimeout`. -/
def clearTimeout (s : NetState) : NetState :=
  (List.range s.mgr.pool.length).foldl clearSlot s

/-- A change of a connection object. -/
def setConn (id : ConnId) (c : ConnectionProfile) (s : NetState) : NetState :=
  { s with mgr := s.mgr.update id c }

/-! ## Sending -/

/-- Whether the connection object is live. -/
def isLive (s : NetState) (id : ConnId) : Bool := (s.mgr.conns id).isSome

/-- `ConnectionProfile::TrySend`: the buffer's new position and whether the
packet is done.  An empty rest issues no `::write`; a `Socket` that has been
destroyed is taken for one whose memory is in use again, with an open
descriptor. -/
def trySend (x : CtxId) (w : WriteOutcome) (s : NetState) : Option (NetState × Bool) :=
  match s.ctxs x with
  | none => none
  | some k =>
      if w.Fits k.buffer.ntotal then
        let record : WriteRecord :=
          { ctx := x, owner := k.owner, socket := k.socket, live := s.isLive k.owner,
            pos := k.buffer.pos, count := w.count }
        some
          ({ s with
              ctxs := Function.update s.ctxs x (some { k with buffer := (send k.buffer w).1 })
              writes := if k.buffer.ntotal = 0 then s.writes else s.writes ++ [record] },
            (send k.buffer w).2)
      else none

/-- `ptr->seq`. -/
def seqOf (s : NetState) (x : CtxId) : Nat :=
  match s.ctxs x with
  | some k => k.seq
  | none => 0

/-- `OnSendDone`, bound to the connection that made the context. -/
def onSendDone (x : CtxId) (s : NetState) : NetState :=
  match s.ctxs x with
  | none => s
  | some k =>
      match s.mgr.conns k.owner with
      | none => s
      | some c =>
          s.setConn k.owner (c.sendContextSendDoneCallback s.now k.seq s.seqOf)

/-- `MarkAsPendingPacket`, bound to the connection that made the context. -/
def markAsPendingPacket (x : CtxId) (s : NetState) : NetState :=
  match s.ctxs x with
  | none => s
  | some k =>
      match s.mgr.conns k.owner with
      | none => s
      | some c => s.setConn k.owner (c.addPendingPacketToSend x)

/-- `TrySendAndMarkPendingIfUndone`; the outcome is used if the context is
valid. -/
def trySendAndMarkPendingIfUndone (x : CtxId) (w : WriteOutcome) (s : NetState) :
    Option (NetState × Bool) :=
  match s.ctxs x with
  | none => none
  | some k =>
      if k.isTcpConnValid then
        match s.trySend x w with
        | none => none
        | some (s, true) => some (s.onSendDone x, true)
        | some (s, false) => some (s.markAsPendingPacket x, false)
      else some (s, true)

/-- `pending_send_ctx_.pop()`. -/
def popPending (id : ConnId) (s : NetState) : NetState :=
  match s.mgr.conns id with
  | none => s
  | some c => s.setConn id { c with pendingSendCtx := c.pendingSendCtx.tail }

/-- The loop of `TrySendPendingPackets`, with the outcomes of its writes. -/
def trySendPendingPackets (id : ConnId) : List WriteOutcome → NetState → Option NetState
  | [], s =>
      match s.mgr.conns id with
      | none => none
      | some c => if c.pendingSendCtx = [] then some s else none
  | w :: ws, s =>
      match s.mgr.conns id with
      | none => none
      | some c =>
          match c.pendingSendCtx with
          | [] => none
          | x :: _ =>
              match s.trySend x w with
              | none => none
              | some (s, true) => trySendPendingPackets id ws ((s.onSendDone x).popPending id)
              | some (s, false) => if ws = [] then some s else none

/-! ### What the sending functions change -/

@[simp] theorem setConn_conns (id : ConnId) (c : ConnectionProfile) (s : NetState) :
    (s.setConn id c).mgr.conns = Function.update s.mgr.conns id (some c) := rfl

@[simp] theorem onSendDone_ctxs (x : CtxId) (s : NetState) : (s.onSendDone x).ctxs = s.ctxs := by
  unfold onSendDone
  split
  · rfl
  · split <;> rfl

@[simp] theorem onSendDone_writes (x : CtxId) (s : NetState) :
    (s.onSendDone x).writes = s.writes := by
  unfold onSendDone
  split
  · rfl
  · split <;> rfl

@[simp] theorem markAsPendingPacket_ctxs (x : CtxId) (s : NetState) :
    (s.markAsPendingPacket x).ctxs = s.ctxs := by
  unfold markAsPendingPacket
  split
  · rfl
  · split <;> rfl

@[simp] theorem markAsPendingPacket_writes (x : CtxId) (s : NetState) :
    (s.markAsPendingPacket x).writes = s.writes := by
  unfold markAsPendingPacket
  split
  · rfl
  · split <;> rfl

theorem setConn_setConn (id : ConnId) (c d : ConnectionProfile) (s : NetState) :
    (s.setConn id c).setConn id d = s.setConn id d := by
  unfold setConn ConnectionManager.update
  rw [Function.update_idem]

/-- `TrySend` moves the position of one buffer and lists one write. -/
theorem trySend_eq {s s' : NetState} {x : CtxId} {w : WriteOutcome} {k : SendContext}
    {done : Bool} (hk : s.ctxs x = some k) (h : s.trySend x w = some (s', done)) :
    w.Fits k.buffer.ntotal ∧ done = (send k.buffer w).2 ∧
      s' = { s with
        ctxs := Function.update s.ctxs x (some { k with buffer := (send k.buffer w).1 })
        writes := if k.buffer.ntotal = 0 then s.writes else s.writes ++
          [⟨x, k.owner, k.socket, s.isLive k.owner, k.buffer.pos, w.count⟩] } := by
  unfold trySend at h
  simp only [hk] at h
  split at h
  · rename_i hfits
    simp only [Option.some.injEq, Prod.mk.injEq] at h
    exact ⟨hfits, h.2.symm, h.1.symm⟩
  · cases h

/-- A send that has something to write: the position moves by the count, and
the packet is done exactly when everything was taken. -/
theorem send_of_pos {b : AutoBuffer} {w : WriteOutcome} (hpos : b.pos < b.bytes.length)
    (hfits : w.Fits b.ntotal) :
    (send b w).1 = { b with pos := b.pos + w.count } ∧
      ((send b w).2 = true ↔ w.count = b.ntotal) := by
  have hntotal : b.ntotal = b.bytes.length - b.pos := rfl
  have hne : b.ntotal ≠ 0 := by omega
  unfold send
  rw [if_neg hne]
  split
  · rename_i hw
    rw [hw]
    refine ⟨?_, iff_of_true rfl rfl⟩
    show b.seekEnd = { b with pos := b.pos + b.ntotal }
    rw [hntotal, Nat.add_sub_cancel' (Nat.le_of_lt hpos)]
    rfl
  · rename_i hw
    refine ⟨rfl, iff_of_false (by simp) ?_⟩
    intro hcount
    cases w with
    | wrote n =>
        apply hw
        rw [← hcount]
        rfl
    | eagain => exact hne hcount.symm
    | error => exact hne hcount.symm

/-- `OnSendDone` changes the timeout and the listed contexts of the
connection that made the context. -/
theorem onSendDone_eq {s : NetState} {x : CtxId} {k : SendContext} {c : ConnectionProfile}
    (hk : s.ctxs x = some k) (hc : s.mgr.conns k.owner = some c) :
    ∃ timeoutTs sendContexts, s.onSendDone x =
        s.setConn k.owner { c with timeoutTs, sendContexts } ∧
      (∀ y ∈ sendContexts, y ∈ c.sendContexts) ∧
      ∀ y l, s.ctxs y = some l → (y ∈ sendContexts ↔ y ∈ c.sendContexts ∧ l.seq ≠ k.seq) := by
  unfold onSendDone
  simp only [hk, hc]
  refine ⟨_, _, rfl, ?_, ?_⟩
  · intro y hy
    exact List.mem_of_mem_filter hy
  · intro y l hl
    simp [List.mem_filter, seqOf, hl]

theorem markAsPendingPacket_eq {s : NetState} {x : CtxId} {k : SendContext}
    {c : ConnectionProfile} (hk : s.ctxs x = some k) (hc : s.mgr.conns k.owner = some c) :
    s.markAsPendingPacket x =
      s.setConn k.owner { c with pendingSendCtx := c.pendingSendCtx ++ [x] } := by
  unfold markAsPendingPacket
  simp only [hk, hc]
  rfl

theorem popPending_eq {s : NetState} {id : ConnId} {c : ConnectionProfile}
    (hc : s.mgr.conns id = some c) :
    s.popPending id = s.setConn id { c with pendingSendCtx := c.pendingSendCtx.tail } := by
  unfold popPending
  simp only [hc]

/-- A pending packet that is done: `OnSendDone`, then `pop`. -/
theorem popPending_onSendDone {s : NetState} {x : CtxId} {k : SendContext}
    {c : ConnectionProfile} (hk : s.ctxs x = some k) (hc : s.mgr.conns k.owner = some c) :
    ∃ timeoutTs sendContexts, (s.onSendDone x).popPending k.owner =
        s.setConn k.owner
          { c with timeoutTs, sendContexts, pendingSendCtx := c.pendingSendCtx.tail } ∧
      (∀ y ∈ sendContexts, y ∈ c.sendContexts) ∧
      ∀ y l, s.ctxs y = some l → (y ∈ sendContexts ↔ y ∈ c.sendContexts ∧ l.seq ≠ k.seq) := by
  obtain ⟨timeoutTs, sendContexts, hdone, hmem⟩ := onSendDone_eq hk hc
  refine ⟨timeoutTs, sendContexts, ?_, hmem⟩
  rw [hdone, popPending_eq (Function.update_self _ _ _), setConn_setConn]

/-! ### What the two paths, `DelConnection` and `ClearTimeout` can do -/

/-- The direct path: a `::write` and one of the two callbacks, or nothing for a
context that is not valid. -/
inductive DirectResult (x : CtxId) (w : WriteOutcome) (s : NetState) : NetState → Bool → Prop
  | done (k : SendContext) (t : NetState) : s.ctxs x = some k → k.isTcpConnValid = true →
      s.trySend x w = some (t, true) → DirectResult x w s (t.onSendDone x) true
  | undone (k : SendContext) (t : NetState) : s.ctxs x = some k → k.isTcpConnValid = true →
      s.trySend x w = some (t, false) → DirectResult x w s (t.markAsPendingPacket x) false
  | skipped (k : SendContext) : s.ctxs x = some k → k.isTcpConnValid = false →
      DirectResult x w s s true

theorem trySendAndMarkPendingIfUndone_cases {s t : NetState} {x : CtxId} {w : WriteOutcome}
    {done : Bool} (h : s.trySendAndMarkPendingIfUndone x w = some (t, done)) :
    DirectResult x w s t done := by
  unfold trySendAndMarkPendingIfUndone at h
  split at h
  · cases h
  · rename_i k hk
    split at h
    · rename_i hvalid
      split at h
      · cases h
      · rename_i s₁ htry
        cases h
        exact DirectResult.done k s₁ hk hvalid htry
      · rename_i s₁ htry
        cases h
        exact DirectResult.undone k s₁ hk hvalid htry
    · rename_i hinvalid
      cases h
      exact DirectResult.skipped k hk (Bool.eq_false_iff.2 hinvalid)

/-- The deferred path ends where nothing is pending. -/
theorem trySendPendingPackets_nil {s t : NetState} {id : ConnId}
    (h : s.trySendPendingPackets id [] = some t) : t = s := by
  unfold trySendPendingPackets at h
  split at h
  · cases h
  · split at h
    · cases h
      rfl
    · cases h

/-- One write of the deferred path: it is done and the next one follows, or it
is the last one. -/
theorem trySendPendingPackets_cons {s t : NetState} {id : ConnId} {w : WriteOutcome}
    {ws : List WriteOutcome} (h : s.trySendPendingPackets id (w :: ws) = some t) :
    ∃ c x rest, s.mgr.conns id = some c ∧ c.pendingSendCtx = x :: rest ∧
      ((∃ s₁, s.trySend x w = some (s₁, true) ∧
          ((s₁.onSendDone x).popPending id).trySendPendingPackets id ws = some t) ∨
        (s.trySend x w = some (t, false) ∧ ws = [])) := by
  unfold trySendPendingPackets at h
  split at h
  · cases h
  · rename_i c hc
    split at h
    · cases h
    · rename_i x rest hpending
      refine ⟨c, x, rest, hc, hpending, ?_⟩
      split at h
      · cases h
      · rename_i s₁ htry
        exact Or.inl ⟨s₁, htry, h⟩
      · rename_i s₁ htry
        split at h
        · rename_i hlast
          cases h
          exact Or.inr ⟨htry, hlast⟩
        · cases h

theorem delConnection_cases {s t : NetState} {uid : Nat} (h : s.delConnection uid = some t) :
    ∃ id c, s.mgr.getConnection uid = some (some id) ∧ s.mgr.conns id = some c ∧
      t = s.destroy uid uid id c := by
  unfold delConnection at h
  split at h
  · rename_i id hget
    obtain ⟨c, hc, rfl⟩ := Option.map_eq_some_iff.1 h
    exact ⟨id, c, hget, hc, rfl⟩
  · cases h

/-- What every round of the loop keeps, `ClearTimeout` keeps. -/
theorem clearTimeout_keeps {P : NetState → Prop} (h : ∀ t slot, P t → P (t.clearSlot slot))
    {s : NetState} (hs : P s) : P s.clearTimeout := by
  unfold clearTimeout
  exact List.foldlRecOn _ _ hs fun t ht slot _ => h t slot ht

/-! ## Read events -/

variable (upgrade : ConnectionProfile → ApplicationPacket → ConnectionProfile)

/-- The heap with the context a read event made. -/
def allocCtx (made : Option SendContext) (s : NetState) : NetState :=
  match made with
  | none => s
  | some k =>
      { s with ctxs := Function.update s.ctxs s.nextCtx (some k), nextCtx := s.nextCtx + 1 }

/-- `__OnReadEvent` up to `HandleApplicationPacket`. -/
def onReadEvent (id : ConnId) (outs : List ReadOutcome) (s : NetState) :
    Option (NetState × ConnectionProfile.ReadEnd) :=
  match s.mgr.conns id with
  | none => none
  | some c =>
      match c.onReadEvent upgrade id s.nextCtx outs with
      | none => none
      | some ev =>
          let t := (s.setConn id ev.conn).allocCtx ev.made
          match ev.stop with
          | .deleted => (t.delConnection c.uid).map fun t => (t, .deleted)
          | stop => some (t, stop)

/-- What a read event on the connection `c` can do; a packet that is complete
is dispatched. -/
inductive ReadResult (id : ConnId) (c : ConnectionProfile) (outs : List ReadOutcome)
    (s : NetState) : NetState → ConnectionProfile.ReadEnd → Prop
  | deleted (r : ConnectionProfile.Received) (t : NetState) : c.receive outs = some r →
      (s.setConn id r.conn).delConnection c.uid = some t → ReadResult id c outs s t .deleted
  | idle (r : ConnectionProfile.Received) : c.receive outs = some r →
      ReadResult id c outs s (s.setConn id r.conn) .idle
  | crashed (r : ConnectionProfile.Received) : c.receive outs = some r →
      ReadResult id c outs s (s.setConn id r.conn) .crashed
  | dispatched (r : ConnectionProfile.Received) (p : ApplicationProtocolParser) :
      c.receive outs = some r → r.conn.parser = some p →
      ReadResult id c outs s
        ((s.setConn id (ConnectionProfile.dispatch upgrade id s.nextCtx p r.conn).conn).allocCtx
          (ConnectionProfile.dispatch upgrade id s.nextCtx p r.conn).made)
        (ConnectionProfile.dispatch upgrade id s.nextCtx p r.conn).stop

variable {upgrade}

/-- A read event is one on a connection that there is. -/
theorem exists_conn_of_onReadEvent {id : ConnId} {outs : List ReadOutcome} {s : NetState}
    {r : NetState × ConnectionProfile.ReadEnd} (h : s.onReadEvent upgrade id outs = some r) :
    ∃ c, s.mgr.conns id = some c := by
  cases hc : s.mgr.conns id with
  | none => simp [onReadEvent, hc] at h
  | some c => exact ⟨c, rfl⟩

/-- **A read event**, taken apart. -/
theorem onReadEvent_cases {id : ConnId} {c : ConnectionProfile} {outs : List ReadOutcome}
    {s t : NetState} {stop : ConnectionProfile.ReadEnd} (hc : s.mgr.conns id = some c)
    (h : s.onReadEvent upgrade id outs = some (t, stop)) :
    ReadResult upgrade id c outs s t stop := by
  unfold onReadEvent at h
  simp only [hc] at h
  cases hr : c.receive outs with
  | none => simp [ConnectionProfile.onReadEvent, hr] at h
  | some r =>
      simp only [ConnectionProfile.onReadEvent, hr, Option.map_some] at h
      rcases ConnectionProfile.afterReceive_cases upgrade id s.nextCtx hr with
        (⟨hafter, -⟩ | hafter) | ⟨p, -, -, hp, (⟨-, hafter⟩ | ⟨-, hafter⟩)⟩
      · simp only [hafter] at h
        obtain ⟨t', ht', heq⟩ := Option.map_eq_some_iff.1 h
        cases heq
        exact ReadResult.deleted r t hr ht'
      · simp only [hafter] at h
        cases h
        exact ReadResult.crashed r hr
      · simp only [hafter] at h
        cases h
        exact ReadResult.idle r hr
      · rw [hafter] at h
        split at h
        · rename_i hdeleted
          exact absurd hdeleted (ConnectionProfile.dispatch_stop_ne_deleted _ _ _ _ _)
        · cases h
          exact ReadResult.dispatched r p hr hp

/-- `__OnErrEvent`. -/
def onErrEvent (id : ConnId) (s : NetState) : Option NetState :=
  match s.mgr.conns id with
  | none => none
  | some c => s.delConnection c.uid

end NetState

end Unixtar
