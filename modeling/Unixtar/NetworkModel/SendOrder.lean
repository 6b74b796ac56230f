import Unixtar.NetworkModel.NetThread

/-!
# The order of bytes on a connection's socket

The two send paths of one connection: `TrySendAndMarkPendingIfUndone`, which
writes a packet directly and queues what is left of it, and the write
events, which go on with the queue.  The direct path does not look at the
queue, so a packet handed over while another one is pending can be written
in front of the rest of it.

A byte on the wire is a pair of a context and an index into its buffer.

## Main results

* `inv_handOver`, `inv_writeEvent` — the two paths keep `Inv`: what is on
  the wire, followed by what is still pending, is what was handed over.
* `not_inOrder_handOver` — a direct write that takes a byte while something
  is pending breaks the order at once.
* `inOrder_iff_idleOrEmpty` — so the order is kept in every state of a run
  exactly when every direct write finds the queue empty or takes no byte.
-/

namespace Unixtar

open Unixtar.Lib NetState

/-- The thread and the contexts handed over so far. -/
structure SendRun where
  net : NetState
  handed : List CtxId

inductive SendEvent
  | handOver (x : CtxId) (w : WriteOutcome)
  | writeEvent (ws : List WriteOutcome)
deriving DecidableEq

namespace SendRun

/-- What may be handed over: a valid context of the connection with a
non-empty buffer that nothing has been sent of, and only once. -/
def MayHandOver (id : ConnId) (s : SendRun) (x : CtxId) : Prop :=
  ∃ k ∈ s.net.ctxs x, k.owner = id ∧ k.socket = id ∧ k.isTcpConnValid = true ∧
    k.buffer.pos = 0 ∧ k.buffer.bytes ≠ [] ∧ x ∉ s.handed

instance (id : ConnId) (s : SendRun) (x : CtxId) : Decidable (MayHandOver id s x) :=
  match h : s.net.ctxs x with
  | none => isFalse (by simp [MayHandOver, h])
  | some k =>
      decidable_of_iff (k.owner = id ∧ k.socket = id ∧ k.isTcpConnValid = true ∧
        k.buffer.pos = 0 ∧ k.buffer.bytes ≠ [] ∧ x ∉ s.handed) (by simp [MayHandOver, h])

/-- One call on the connection `id`. -/
def step (id : ConnId) (s : SendRun) : SendEvent → Option SendRun
  | .handOver x w =>
      if MayHandOver id s x then
        (s.net.trySendAndMarkPendingIfUndone x w).map fun r => ⟨r.1, s.handed ++ [x]⟩
      else none
  | .writeEvent ws => (s.net.trySendPendingPackets id ws).map fun net => { s with net }

/-- The direct write finds nothing pending, or takes no byte. -/
def IdleOrEmpty (id : ConnId) (s : SendRun) : SendEvent → Prop
  | .handOver _ w => (∀ c ∈ s.net.mgr.conns id, c.pendingSendCtx = []) ∨ w.count = 0
  | .writeEvent _ => True

instance (id : ConnId) (s : SendRun) : ∀ e, Decidable (IdleOrEmpty id s e)
  | .handOver _ w =>
      match h : s.net.mgr.conns id with
      | none => isTrue (by simp [IdleOrEmpty, h])
      | some c => decidable_of_iff (c.pendingSendCtx = [] ∨ w.count = 0)
          (by simp [IdleOrEmpty, h])
  | .writeEvent _ => isTrue trivial

/-! ## Bytes on the wire -/

/-- `n` bytes of the buffer of `x`, from the index `pos` on. -/
def bytesFrom (x : CtxId) (pos n : Nat) : List (CtxId × Nat) :=
  (List.range' pos n).map fun i => (x, i)

/-- The bytes that have been written to the socket of `id`. -/
def wire (id : ConnId) (net : NetState) : List (CtxId × Nat) :=
  (net.writes.filter fun r => r.socket = id).flatMap fun r => bytesFrom r.ctx r.pos r.count

/-- All bytes of the packet `x`. -/
def packet (net : NetState) (x : CtxId) : List (CtxId × Nat) :=
  match net.ctxs x with
  | some k => bytesFrom x 0 k.buffer.bytes.length
  | none => []

/-- The bytes of the packet `x` behind its position. -/
def rest (net : NetState) (x : CtxId) : List (CtxId × Nat) :=
  match net.ctxs x with
  | some k => bytesFrom x k.buffer.pos k.buffer.ntotal
  | none => []

/-- The bytes on the wire are the first bytes of the packets, in the order
in which they were handed over. -/
def InOrder (id : ConnId) (s : SendRun) : Prop :=
  wire id s.net <+: s.handed.flatMap (packet s.net)

theorem bytesFrom_add (x : CtxId) (pos m n : Nat) :
    bytesFrom x pos (m + n) = bytesFrom x pos m ++ bytesFrom x (pos + m) n := by
  unfold bytesFrom
  rw [← List.map_append, ← List.range'_append_1]

theorem bytesFrom_zero (x : CtxId) (pos : Nat) : bytesFrom x pos 0 = [] := rfl

/-- One more write to the socket. -/
theorem wire_append {id : ConnId} {net net' : NetState} {r : WriteRecord}
    (hwrites : net'.writes = net.writes ++ [r]) (hsocket : r.socket = id) :
    wire id net' = wire id net ++ bytesFrom r.ctx r.pos r.count := by
  unfold wire
  rw [hwrites, List.filter_append, List.flatMap_append]
  simp [hsocket]

/-! ## The invariant -/

/-- A context of the connection that is waiting in its queue. -/
structure Waiting (id : ConnId) (net : NetState) (x : CtxId) (k : SendContext) : Prop where
  ctx : net.ctxs x = some k
  owner : k.owner = id
  socket : k.socket = id
  more : k.buffer.pos < k.buffer.bytes.length

/-- What is on the wire and what is still pending is what was handed over. -/
structure Inv (id : ConnId) (net : NetState) (pending handed : List CtxId) : Prop where
  conn : ∃ c, net.mgr.conns id = some c ∧ c.pendingSendCtx = pending
  waiting : ∀ x ∈ pending, ∃ k, Waiting id net x k
  nodup : pending.Nodup
  known : ∀ x ∈ pending, x ∈ handed
  bytes : wire id net ++ pending.flatMap (rest net) = handed.flatMap (packet net)

theorem Inv.inOrder {id : ConnId} {s : SendRun} {pending : List CtxId}
    (h : Inv id s.net pending s.handed) : InOrder id s := by
  unfold InOrder
  rw [← h.bytes]
  exact List.prefix_append _ _

/-- A write of `x` leaves the other packets alone. -/
theorem rest_of_ne {net net' : NetState} {x y : CtxId} {k : Option SendContext}
    (hctxs : net'.ctxs = Function.update net.ctxs x k) (hne : y ≠ x) :
    rest net' y = rest net y ∧ packet net' y = packet net y := by
  unfold rest packet
  rw [hctxs, Function.update_of_ne hne]
  exact ⟨rfl, rfl⟩

theorem flatMap_rest_of_notMem {net net' : NetState} {x : CtxId} {k : Option SendContext}
    {ys : List CtxId} (hctxs : net'.ctxs = Function.update net.ctxs x k) (hx : x ∉ ys) :
    ys.flatMap (rest net') = ys.flatMap (rest net) := by
  apply List.flatMap_congr
  intro y hy
  apply (rest_of_ne hctxs _).1
  rintro rfl
  exact hx hy

/-- The other contexts of the connection still have bytes left. -/
theorem waiting_of_notMem {id : ConnId} {net net' : NetState} {x : CtxId}
    {v : Option SendContext} {pending : List CtxId}
    (hctxs : net'.ctxs = Function.update net.ctxs x v) (hx : x ∉ pending)
    (h : ∀ y ∈ pending, ∃ l, Waiting id net y l) : ∀ y ∈ pending, ∃ l, Waiting id net' y l := by
  intro y hy
  obtain ⟨l, hl⟩ := h y hy
  refine ⟨l, ?_, hl.owner, hl.socket, hl.more⟩
  rw [hctxs, Function.update_of_ne]
  · exact hl.ctx
  · rintro rfl
    exact hx hy

theorem rest_ne_nil {id : ConnId} {net : NetState} {x : CtxId} {k : SendContext}
    (hx : Waiting id net x k) : rest net x ≠ [] := by
  intro hnil
  unfold rest at hnil
  rw [hx.ctx] at hnil
  have hlen := congrArg List.length hnil
  simp only [bytesFrom, List.length_map, List.length_range', List.length_nil] at hlen
  have hmore := hx.more
  have hntotal : k.buffer.ntotal = k.buffer.bytes.length - k.buffer.pos := rfl
  omega

/-- Moving the position of `x` does not change any packet as a whole. -/
theorem packet_of_pos {net net' : NetState} {x : CtxId} {k : SendContext} {b : AutoBuffer}
    (hk : net.ctxs x = some k)
    (hctxs : net'.ctxs = Function.update net.ctxs x (some { k with buffer := b }))
    (hbytes : b.bytes = k.buffer.bytes) : packet net' = packet net := by
  funext y
  by_cases hy : y = x
  · subst hy
    unfold packet
    rw [hctxs, Function.update_self, hk]
    show bytesFrom y 0 b.bytes.length = _
    rw [hbytes]
  · exact (rest_of_ne hctxs hy).2

/-- **One `TrySend`** on a context of the connection with bytes left: the
wire gets the first `count` of them. -/
theorem trySend_bytes {id : ConnId} {net net' : NetState} {x : CtxId} {k : SendContext}
    {w : WriteOutcome} {done : Bool} (hx : Waiting id net x k)
    (h : net.trySend x w = some (net', done)) :
    ∃ k', net'.mgr = net.mgr ∧ net'.ctxs = Function.update net.ctxs x (some k') ∧
      k'.owner = id ∧ k'.socket = id ∧ packet net' = packet net ∧
      wire id net' = wire id net ++ bytesFrom x k.buffer.pos w.count ∧
      rest net x = bytesFrom x k.buffer.pos w.count ++ rest net' x ∧
      (done = true → rest net' x = []) ∧
      (done = false → k'.buffer.pos < k'.buffer.bytes.length ∧
        w.count < k.buffer.ntotal) := by
  obtain ⟨hfits, hdone, hnet'⟩ := trySend_eq hx.ctx h
  obtain ⟨hbuf, hall⟩ := send_of_pos hx.more hfits
  have hntotal : k.buffer.ntotal = k.buffer.bytes.length - k.buffer.pos := rfl
  have hmore := hx.more
  have hle : w.count ≤ k.buffer.ntotal := hfits
  rw [hbuf] at hnet'
  rw [if_neg (by omega)] at hnet'
  have hctxs : net'.ctxs = Function.update net.ctxs x
      (some { k with buffer := { k.buffer with pos := k.buffer.pos + w.count } }) := by
    rw [hnet']
  have hrest' : rest net' x = bytesFrom x (k.buffer.pos + w.count)
      (k.buffer.ntotal - w.count) := by
    unfold rest
    rw [hctxs, Function.update_self]
    show bytesFrom x (k.buffer.pos + w.count)
      (k.buffer.bytes.length - (k.buffer.pos + w.count)) = _
    rw [hntotal, Nat.sub_sub]
  refine ⟨_, by rw [hnet'], hctxs, hx.owner, hx.socket, packet_of_pos hx.ctx hctxs rfl,
    wire_append (r := ⟨x, k.owner, k.socket, net.isLive k.owner, k.buffer.pos, w.count⟩)
      (by rw [hnet']) hx.socket, ?_, ?_, ?_⟩
  · rw [hrest', ← bytesFrom_add]
    unfold rest
    rw [hx.ctx]
    show bytesFrom x k.buffer.pos k.buffer.ntotal = _
    rw [Nat.add_sub_cancel' hle]
  · intro hd
    have hcount := hall.1 (hdone.symm.trans hd)
    rw [hrest', hcount, Nat.sub_self, bytesFrom_zero]
  · intro hd
    have hcount : w.count ≠ k.buffer.ntotal := by
      intro hcount
      rw [hdone, hall.2 hcount] at hd
      cases hd
    show k.buffer.pos + w.count < k.buffer.bytes.length ∧ w.count < k.buffer.ntotal
    omega

/-- The invariant looks at nothing of the connection but its queue. -/
theorem Inv.ofSetConn {id : ConnId} {net : NetState} {pending handed : List CtxId}
    {c : ConnectionProfile} (hc : c.pendingSendCtx = pending)
    (hwaiting : ∀ x ∈ pending, ∃ k, Waiting id net x k) (hnodup : pending.Nodup)
    (hknown : ∀ x ∈ pending, x ∈ handed)
    (hbytes : wire id net ++ pending.flatMap (rest net) = handed.flatMap (packet net)) :
    Inv id (net.setConn id c) pending handed where
  conn := ⟨c, Function.update_self _ _ _, hc⟩
  waiting x hx := by
    obtain ⟨k, hk⟩ := hwaiting x hx
    exact ⟨k, hk.ctx, hk.owner, hk.socket, hk.more⟩
  nodup := hnodup
  known := hknown
  bytes := hbytes

/-- A context that is handed over has its whole packet in front of it. -/
theorem rest_eq_packet {net : NetState} {x : CtxId} {k : SendContext}
    (hk : net.ctxs x = some k) (hpos : k.buffer.pos = 0) : rest net x = packet net x := by
  unfold rest packet
  rw [hk]
  show bytesFrom x k.buffer.pos (k.buffer.bytes.length - k.buffer.pos) = _
  rw [hpos, Nat.sub_zero]

/-- The direct path for a valid context. -/
theorem handOver_cases {net net' : NetState} {x : CtxId} {k : SendContext} {w : WriteOutcome}
    {done : Bool} (hk : net.ctxs x = some k) (hvalid : k.isTcpConnValid = true)
    (h : net.trySendAndMarkPendingIfUndone x w = some (net', done)) :
    ∃ net₁, net.trySend x w = some (net₁, done) ∧
      net' = if done then net₁.onSendDone x else net₁.markAsPendingPacket x := by
  cases trySendAndMarkPendingIfUndone_cases h with
  | done k' net₁ _ _ htry => exact ⟨net₁, htry, rfl⟩
  | undone k' net₁ _ _ htry => exact ⟨net₁, htry, rfl⟩
  | skipped k' hk' hinvalid =>
      rw [hk] at hk'
      cases hk'
      rw [hvalid] at hinvalid
      cases hinvalid

/-- **The direct path.** -/
theorem inv_handOver {id : ConnId} {net net' : NetState} {pending handed : List CtxId}
    {x : CtxId} {k : SendContext} {w : WriteOutcome} {done : Bool}
    (hinv : Inv id net pending handed) (hx : Waiting id net x k) (hpos : k.buffer.pos = 0)
    (hvalid : k.isTcpConnValid = true) (hnew : x ∉ handed)
    (hcond : pending = [] ∨ w.count = 0)
    (h : net.trySendAndMarkPendingIfUndone x w = some (net', done)) :
    ∃ pending', Inv id net' pending' (handed ++ [x]) := by
  have hnotpending : x ∉ pending := fun hmem => hnew (hinv.known x hmem)
  obtain ⟨c, hc, hpending⟩ := hinv.conn
  obtain ⟨net₁, hsend, rfl⟩ := handOver_cases hx.ctx hvalid h
  obtain ⟨k', hmgr, hctxs, howner, hsocket, hpacket, hwire, hrest, hdone, hundone⟩ :=
    trySend_bytes hx hsend
  have hk' : net₁.ctxs x = some k' := by rw [hctxs, Function.update_self]
  have hc₁ : net₁.mgr.conns k'.owner = some c := by rw [hmgr, howner]; exact hc
  have hpend : pending.flatMap (rest net₁) = pending.flatMap (rest net) :=
    flatMap_rest_of_notMem hctxs hnotpending
  have hwaiting := waiting_of_notMem hctxs hnotpending hinv.waiting
  have hbytes : wire id net ++ pending.flatMap (rest net) ++ rest net x =
      (handed ++ [x]).flatMap (packet net) := by
    rw [hinv.bytes, rest_eq_packet hx.ctx hpos, List.flatMap_append]
    simp
  cases done with
  | true =>
      -- everything was taken at once, so some byte was: nothing was pending
      have hnil : pending = [] := by
        apply hcond.resolve_right
        intro hzero
        apply rest_ne_nil hx
        rw [hrest, hdone rfl, List.append_nil, hzero, bytesFrom_zero]
      subst hnil
      obtain ⟨timeoutTs, sendContexts, hcallback, -⟩ := onSendDone_eq hk' hc₁
      rw [if_pos rfl, hcallback, howner]
      refine ⟨[], Inv.ofSetConn hpending (by simp) List.nodup_nil (by simp) ?_⟩
      rw [hpacket, ← hbytes, hwire, hrest, hdone rfl]
      simp
  | false =>
      rw [if_neg Bool.false_ne_true, markAsPendingPacket_eq hk' hc₁, howner, hpending]
      refine ⟨pending ++ [x], Inv.ofSetConn rfl ?_ ?_ ?_ ?_⟩
      · intro y hy
        rcases List.mem_append.1 hy with hy | hy
        · exact hwaiting y hy
        · rw [List.mem_singleton.1 hy]
          exact ⟨k', hk', howner, hsocket, (hundone rfl).1⟩
      · exact List.nodup_append.2 ⟨hinv.nodup, List.nodup_singleton x, by
          intro y hy z hz
          rw [List.mem_singleton.1 hz]
          rintro rfl
          exact hnotpending hy⟩
      · intro y hy
        rcases List.mem_append.1 hy with hy | hy
        · exact List.mem_append_left _ (hinv.known y hy)
        · exact List.mem_append_right _ hy
      · rw [hpacket, ← hbytes, hwire, hrest, List.flatMap_append, hpend]
        rcases hcond with hnil | hzero
        · subst hnil
          simp
        · rw [hzero, bytesFrom_zero]
          simp

/-- What the direct path puts on the wire, whether the packet is done or not. -/
theorem handOver_wire {id : ConnId} {net net' : NetState} {x : CtxId} {k : SendContext}
    {w : WriteOutcome} {done : Bool} (hx : Waiting id net x k) (hvalid : k.isTcpConnValid = true)
    (h : net.trySendAndMarkPendingIfUndone x w = some (net', done)) :
    packet net' = packet net ∧
      wire id net' = wire id net ++ bytesFrom x k.buffer.pos w.count := by
  obtain ⟨net₁, hsend, rfl⟩ := handOver_cases hx.ctx hvalid h
  obtain ⟨k', -, -, -, -, hpacket, hwire, -⟩ := trySend_bytes hx hsend
  -- the callbacks change the connection only
  have hsame : (if done then net₁.onSendDone x else net₁.markAsPendingPacket x).ctxs =
        net₁.ctxs ∧
      (if done then net₁.onSendDone x else net₁.markAsPendingPacket x).writes =
        net₁.writes := by
    cases done with
    | true => exact ⟨onSendDone_ctxs x net₁, onSendDone_writes x net₁⟩
    | false => exact ⟨markAsPendingPacket_ctxs x net₁, markAsPendingPacket_writes x net₁⟩
  constructor
  · rw [← hpacket]
    unfold packet
    rw [hsame.1]
  · rw [← hwire]
    unfold wire
    rw [hsame.2]

/-- A direct write in front of what is pending is out of order: the next
byte should be one of the packet at the head of the queue. -/
theorem not_inOrder_handOver {id : ConnId} {net net' : NetState} {pending handed : List CtxId}
    {x : CtxId} {k : SendContext} {w : WriteOutcome} {done : Bool}
    (hinv : Inv id net pending handed) (hx : Waiting id net x k)
    (hvalid : k.isTcpConnValid = true) (hnew : x ∉ handed)
    (hpending : pending ≠ []) (hcount : w.count ≠ 0)
    (h : net.trySendAndMarkPendingIfUndone x w = some (net', done)) :
    ¬ wire id net' <+: (handed ++ [x]).flatMap (packet net') := by
  obtain ⟨y, ys, rfl⟩ := List.exists_cons_of_ne_nil hpending
  obtain ⟨l, hy⟩ := hinv.waiting y List.mem_cons_self
  obtain ⟨hpacket, hwire⟩ := handOver_wire hx hvalid h
  have hne : x ≠ y := by
    rintro rfl
    exact hnew (hinv.known x List.mem_cons_self)
  obtain ⟨m, hm⟩ := Nat.exists_eq_succ_of_ne_zero hcount
  obtain ⟨n, hn⟩ : ∃ n, l.buffer.ntotal = n + 1 := by
    have hmore := hy.more
    exact ⟨l.buffer.bytes.length - l.buffer.pos - 1, by unfold AutoBuffer.ntotal; omega⟩
  have hrest : rest net y = (y, l.buffer.pos) :: bytesFrom y (l.buffer.pos + 1) n := by
    unfold rest
    rw [hy.ctx]
    show bytesFrom y l.buffer.pos l.buffer.ntotal = _
    rw [hn]
    rfl
  rw [hpacket, hwire, List.flatMap_append, ← hinv.bytes, List.append_assoc,
    List.prefix_append_right_inj, List.flatMap_cons, hrest, hm]
  intro hprefix
  have hhead := (List.cons_prefix_cons.1 hprefix).1
  exact hne (Prod.mk.inj hhead).1

/-- What a write for the head of the queue does, whether the head is done or
not. -/
theorem writeEvent_head {id : ConnId} {net net₁ : NetState} {pending handed : List CtxId}
    {x : CtxId} {k : SendContext} {c : ConnectionProfile} {w : WriteOutcome} {done : Bool}
    (hinv : Inv id net (x :: pending) handed) (hx : Waiting id net x k)
    (hc : net.mgr.conns id = some c) (hnotmem : x ∉ pending)
    (hsend : net.trySend x w = some (net₁, done)) :
    ∃ k', net₁.ctxs x = some k' ∧ k'.owner = id ∧ k'.socket = id ∧
      net₁.mgr.conns k'.owner = some c ∧ (∀ y ∈ pending, ∃ l, Waiting id net₁ y l) ∧
      wire id net₁ ++ rest net₁ x ++ pending.flatMap (rest net₁) =
        handed.flatMap (packet net₁) ∧
      (done = true → rest net₁ x = []) ∧
      (done = false → k'.buffer.pos < k'.buffer.bytes.length) := by
  obtain ⟨k', hmgr, hctxs, howner, hsocket, hpacket, hwire, hrest, hdone, hundone⟩ :=
    trySend_bytes hx hsend
  have hpend : pending.flatMap (rest net₁) = pending.flatMap (rest net) :=
    flatMap_rest_of_notMem hctxs hnotmem
  refine ⟨k', ?_, howner, hsocket, ?_, ?_, ?_, hdone, fun hd => (hundone hd).1⟩
  · rw [hctxs, Function.update_self]
  · rw [hmgr, howner]
    exact hc
  · exact waiting_of_notMem hctxs hnotmem
      fun y hy => hinv.waiting y (List.mem_cons_of_mem x hy)
  · rw [hpacket, ← hinv.bytes, hwire, hpend, List.flatMap_cons, hrest]
    simp

/-- **The deferred path.** -/
theorem inv_writeEvent {id : ConnId} {net net' : NetState} {pending handed : List CtxId}
    {ws : List WriteOutcome} (hinv : Inv id net pending handed)
    (h : net.trySendPendingPackets id ws = some net') :
    ∃ pending', Inv id net' pending' handed := by
  induction ws generalizing net pending with
  | nil =>
      rw [trySendPendingPackets_nil h]
      exact ⟨pending, hinv⟩
  | cons w ws ih =>
      obtain ⟨c, hc, hpending⟩ := hinv.conn
      obtain ⟨c', x, pending', hc', hqueue, hcase⟩ := trySendPendingPackets_cons h
      rw [hc] at hc'
      cases hc'
      rw [hpending] at hqueue
      subst hqueue
      obtain ⟨k, hx⟩ := hinv.waiting x List.mem_cons_self
      obtain ⟨hnotmem, hnodup⟩ := List.nodup_cons.1 hinv.nodup
      rcases hcase with ⟨net₁, hsend, hnext⟩ | ⟨hsend, -⟩
      · -- the head is done and leaves the queue
        obtain ⟨k', hk', howner, hsocket, hc₁, hwaiting, hbytes, hdone, -⟩ :=
          writeEvent_head hinv hx hc hnotmem hsend
        obtain ⟨timeoutTs, sendContexts, hpop, -⟩ := popPending_onSendDone hk' hc₁
        rw [howner, hpending, List.tail_cons] at hpop
        rw [hpop] at hnext
        have hnext' : Inv id (net₁.setConn id
            { c with timeoutTs, sendContexts, pendingSendCtx := pending' }) pending' handed := by
          apply Inv.ofSetConn rfl hwaiting hnodup
          · intro y hy
            exact hinv.known y (List.mem_cons_of_mem _ hy)
          · rw [← hbytes, hdone rfl, List.append_nil]
        exact ih hnext' hnext
      · obtain ⟨k', hk', howner, hsocket, hc₁, hwaiting, hbytes, -, hundone⟩ :=
          writeEvent_head hinv hx hc hnotmem hsend
        rw [howner] at hc₁
        refine ⟨x :: pending', ⟨c, hc₁, hpending⟩, ?_, hinv.nodup, hinv.known, ?_⟩
        · intro y hy
          rcases List.mem_cons.1 hy with rfl | hy
          · exact ⟨k', hk', howner, hsocket, hundone rfl⟩
          · exact hwaiting y hy
        · rw [List.flatMap_cons, ← List.append_assoc]
          exact hbytes

/-! ## Whole runs -/

/-- A hand-over that the calls allow, as the invariant's lemmas take it. -/
theorem waiting_of_mayHandOver {id : ConnId} {s : SendRun} {x : CtxId}
    (h : MayHandOver id s x) : ∃ k, Waiting id s.net x k ∧ k.buffer.pos = 0 ∧
      k.isTcpConnValid = true ∧ x ∉ s.handed := by
  obtain ⟨k, hk, howner, hsocket, hvalid, hpos, hbytes, hnew⟩ := h
  refine ⟨k, ⟨hk, howner, hsocket, ?_⟩, hpos, hvalid, hnew⟩
  rw [hpos]
  exact List.length_pos_iff.2 hbytes

/-- One step of either path keeps the invariant. -/
theorem inv_step {id : ConnId} {s s' : SendRun} {e : SendEvent}
    (hinv : ∃ pending, Inv id s.net pending s.handed) (hcond : IdleOrEmpty id s e)
    (h : step id s e = some s') : ∃ pending, Inv id s'.net pending s'.handed := by
  obtain ⟨pending, hinv⟩ := hinv
  cases e with
  | handOver x w =>
      simp only [step] at h
      split at h
      · rename_i hmay
        obtain ⟨r, hr, rfl⟩ := Option.map_eq_some_iff.1 h
        obtain ⟨k, hx, hpos, hvalid, hnew⟩ := waiting_of_mayHandOver hmay
        apply inv_handOver hinv hx hpos hvalid hnew _ hr
        obtain ⟨c, hc, hpending⟩ := hinv.conn
        rw [← hpending]
        exact hcond.imp_left fun hall => hall c hc
      · cases h
  | writeEvent ws =>
      obtain ⟨net, hnet, rfl⟩ := Option.map_eq_some_iff.1 h
      exact inv_writeEvent hinv hnet

/-- A step that does not meet the condition breaks the order. -/
theorem not_inOrder_step {id : ConnId} {s s' : SendRun} {e : SendEvent}
    (hinv : ∃ pending, Inv id s.net pending s.handed) (hcond : ¬ IdleOrEmpty id s e)
    (h : step id s e = some s') : ¬ InOrder id s' := by
  obtain ⟨pending, hinv⟩ := hinv
  cases e with
  | handOver x w =>
      simp only [step] at h
      split at h
      · rename_i hmay
        obtain ⟨r, hr, rfl⟩ := Option.map_eq_some_iff.1 h
        obtain ⟨k, hx, -, hvalid, hnew⟩ := waiting_of_mayHandOver hmay
        obtain ⟨hbusy, hcount⟩ := not_or.1 hcond
        obtain ⟨c, hc, hpending⟩ := hinv.conn
        apply not_inOrder_handOver hinv hx hvalid hnew _ hcount hr
        rintro rfl
        apply hbusy
        intro d hd
        rw [hc] at hd
        rw [← Option.some.inj hd, hpending]
      · cases h
  | writeEvent ws => exact absurd trivial hcond

/-- **No packets interleave.**  On a connection with nothing pending, the
bytes on the wire are in order at every moment of a run exactly when every
direct write of the run finds the queue empty or takes no byte. -/
theorem inOrder_iff_idleOrEmpty (id : ConnId) (net : NetState) (c : ConnectionProfile)
    (hconn : net.mgr.conns id = some c) (hpending : c.pendingSendCtx = [])
    (hwrites : net.writes = []) (events : List SendEvent) :
    (∀ t ∈ trace (step id) ⟨net, []⟩ events, InOrder id t) ↔
      Along (step id) (IdleOrEmpty id) ⟨net, []⟩ events := by
  apply trace_iff_along (I := fun s => ∃ pending, Inv id s.net pending s.handed)
  · rintro s ⟨pending, hinv⟩
    exact hinv.inOrder
  · intro s e s' hinv hcond h
    exact inv_step hinv hcond h
  · intro s e s' hinv hcond h
    exact not_inOrder_step hinv hcond h
  · refine ⟨[], ⟨c, hconn, hpending⟩, by simp, List.nodup_nil, by simp, ?_⟩
    simp [wire, hwrites]

/-! ## Two packets on one connection -/

/-- A context that connection 0 made for a text. -/
def textCtx (seq : Nat) (text : String) : SendContext :=
  { seq, tcpConnectionUid := 1, owner := 0, socket := 0,
    buffer := AutoBuffer.empty.write (lit text), isTcpConnValid := true }

/-- A connection that has made two contexts. -/
def twoPackets : NetState :=
  { mgr :=
      { ConnectionManager.init .libstdcxx with
        conns := Function.update (fun _ => none) 0
          (some { ConnectionProfile.sample with sendCtxSeq := 2, sendContexts := [0, 1] }) }
    ctxs := fun x => [textCtx 1 "hello", textCtx 2 "bye"][x]?
    nextConn := 1, nextCtx := 2, now := 0, writes := [] }

/-- Short writes of both packets: each direct write finds the queue empty. -/
def politeEvents : List SendEvent :=
  [.handOver 0 (.wrote 2), .writeEvent [.eagain], .writeEvent [.wrote 3],
   .handOver 1 (.wrote 1), .writeEvent [.wrote 2]]

theorem inOrder_politeEvents :
    (∃ s, run (step 0) ⟨twoPackets, []⟩ politeEvents = some s ∧ wire 0 s.net =
      bytesFrom 0 0 5 ++ bytesFrom 1 0 3) ∧
    ∀ t ∈ trace (step 0) ⟨twoPackets, []⟩ politeEvents, InOrder 0 t := by
  constructor
  · refine ⟨_, rfl, ?_⟩
    decide
  · exact (inOrder_iff_idleOrEmpty 0 twoPackets _ rfl rfl rfl politeEvents).2 (by decide)

/-- The second packet goes out between the two parts of the first. -/
def hastyEvents : List SendEvent :=
  [.handOver 0 (.wrote 2), .handOver 1 (.wrote 3), .writeEvent [.wrote 3]]

theorem not_inOrder_hastyEvents :
    ∃ t, run (step 0) ⟨twoPackets, []⟩ hastyEvents = some t ∧
      wire 0 t.net = bytesFrom 0 0 2 ++ bytesFrom 1 0 3 ++ bytesFrom 0 2 3 ∧
      ¬ InOrder 0 t := by
  refine ⟨_, rfl, ?_, ?_⟩
  · decide
  · show ¬ List.IsPrefix _ _
    decide

end SendRun

end Unixtar
