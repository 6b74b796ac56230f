import Mathlib.Data.List.MinMax
import Unixtar.NetworkModel.Effects
import Unixtar.WebServer.Handshake

/-!
# Which connections time out

`timeout_ts_` is written when a connection is established and whenever one of
its packets has been sent.  `IsTimeout` compares it with the clock, and looks at
`pending_send_ctx_` besides.  A request that waits for a worker, is with a worker
or has its return packet on `send_queue_` is in neither: when that takes longer
than `kDefaultTimeout`, `ClearTimeout` deletes the connection under it.

## Main results

* `Ticking` — what `timeout_ts_` is, in terms of what has happened.
* `ticking_step` — every event keeps it.
* `timeoutsHitIdle_iff` — `ClearTimeout` deletes idle connections only, exactly
  when no request waits longer than the timeout.
-/

namespace Unixtar.WebServer

open Unixtar.Lib NetState
open ConnectionProfile (kDefaultTimeout)

/-! ## Watching the clock -/

/-- A packet that has been passed on: its return packet, and when it was
complete. -/
structure Request where
  returnPacket : CtxId
  received : Nat
deriving DecidableEq

/-- When connections were established, which packets they have passed on, and
when return packets were sent completely. -/
structure Times where
  established : ConnId → Nat
  requests : ConnId → List Request
  sent : CtxId → Option Nat

namespace Times

/-- The connection is established, or a response to it is complete: the last
time that this has happened. -/
def lastActive (w : Times) (id : ConnId) : Nat :=
  ((w.requests id).filterMap fun q => w.sent q.returnPacket).foldr max (w.established id)

/-- A request has been passed on, and the response to it has not been sent. -/
def Waits (w : Times) (id : ConnId) : Prop :=
  ∃ q ∈ w.requests id, w.sent q.returnPacket = none

instance (w : Times) (id : ConnId) : Decidable (w.Waits id) :=
  inferInstanceAs (Decidable (∃ q ∈ w.requests id, w.sent q.returnPacket = none))

/-- Calls of `OnSendDone`. -/
def markSent (now : Nat) (l : List Effect) (w : Times) : Times :=
  { w with sent := fun x => if .sendDone x ∈ l then some now else w.sent x }

end Times

/-- A request of a connection that has been deleted: when it was complete, and
when the response had been sent. -/
structure Served where
  received : Nat
  sent : Option Nat
deriving DecidableEq

/-- A connection that `ClearTimeout` has deleted. -/
structure Cleared where
  time : Nat
  established : Nat
  requests : List Served
deriving DecidableEq

/-- It had not sent a request in time, or the response to its last one was sent
long ago; and no response was still to be sent. -/
structure Cleared.Idle (d : Cleared) : Prop where
  idle : (∀ q ∈ d.requests, d.established + kDefaultTimeout < q.received) ∨
    ∃ q ∈ d.requests.getLast?, ∃ t ∈ q.sent, t + kDefaultTimeout < d.time
  served : ∀ q ∈ d.requests, q.sent ≠ none

/-- A server, what it has done when, and the connections that `ClearTimeout` has
deleted. -/
structure Clocked where
  state : State
  times : Times
  cleared : List Cleared

namespace Clocked

def init (cfg : Config) : Clocked := ⟨State.init cfg, ⟨fun _ => 0, fun _ => [], fun _ => none⟩, []⟩

/-- The packet that an event passes on for the connection `id`. -/
def requestsOf (s : State) (e : Event) (id : ConnId) : List Request :=
  match e with
  | .readEvent id' outs =>
      match s.net.onReadEvent upgradeApplicationProtocol id' outs with
      | some (_, .dispatched ctx) =>
          if id' = id then ctx.returnPacket.toList.map fun x => ⟨x, s.net.now⟩ else []
      | _ => []
  | _ => []

/-- The effects of an event on return packets. -/
def effectsOf (s : State) : Event → List Effect
  | .writeEvent id ws => s.net.pendingEffects id ws
  | .handleSend w =>
      match s.sendQueue with
      | x :: _ => s.net.sendEffects x w
      | [] => []
  | _ => []

/-- The connection `id`, as it is deleted. -/
def record (r : Clocked) (id : ConnId) : Cleared :=
  { time := r.state.net.now
    established := r.times.established id
    requests := (r.times.requests id).map fun q => ⟨q.received, r.times.sent q.returnPacket⟩ }

/-- The connections that are live before a `ClearTimeout` and not behind it. -/
def clearedBy (r : Clocked) (t : State) : Event → List Cleared
  | .clearTimeout =>
      ((List.range r.state.net.nextConn).filter fun id =>
        r.state.net.isLive id && !t.net.isLive id).map r.record
  | _ => []

/-- What happens from `s` to `t`, at the time on the clock of `s`. -/
def timesBehind (s t : State) (e : Event) (w : Times) : Times :=
  Times.markSent s.net.now (effectsOf s e)
    { established := fun id =>
        if s.net.nextConn ≤ id ∧ id < t.net.nextConn then s.net.now else w.established id
      requests := fun id => w.requests id ++ requestsOf s e id
      sent := w.sent }

/-- One event. -/
def step (cfg : Config) (r : Clocked) (e : Event) : Option Clocked :=
  (State.step cfg r.state e).map fun t =>
    { state := t
      times := timesBehind r.state t e r.times
      cleared := r.cleared ++ r.clearedBy t e }

/-- `ClearTimeout` has deleted idle connections only. -/
def TimeoutsHitIdle (r : Clocked) : Prop := ∀ d ∈ r.cleared, d.Idle

/-- When `ClearTimeout` runs, a connection with a request that waits, and with no
pending packet, has been established or sent its last response within
`kDefaultTimeout`. -/
def AnsweredInTime (r : Clocked) : Event → Prop
  | .clearTimeout => ∀ slot ∈ r.state.net.mgr.pool, ∀ id ∈ slot, ∀ c ∈ r.state.net.mgr.conns id,
      c.isLongLink = false → c.pendingSendCtx = [] → r.times.Waits id →
        r.state.net.now ≤ r.times.lastActive id + kDefaultTimeout
  | _ => True

instance (r : Clocked) : ∀ e, Decidable (AnsweredInTime r e)
  | .clearTimeout =>
      inferInstanceAs (Decidable (∀ slot ∈ r.state.net.mgr.pool, ∀ id ∈ slot,
        ∀ c ∈ r.state.net.mgr.conns id, c.isLongLink = false → c.pendingSendCtx = [] →
          r.times.Waits id → r.state.net.now ≤ r.times.lastActive id + kDefaultTimeout))
  | .accept _ _ _ => isTrue trivial
  | .readEvent _ _ => isTrue trivial
  | .writeEvent _ _ => isTrue trivial
  | .errEvent _ => isTrue trivial
  | .tick _ => isTrue trivial
  | .take => isTrue trivial
  | .check _ => isTrue trivial
  | .handle _ _ => isTrue trivial
  | .giveBack _ => isTrue trivial
  | .handleSend _ => isTrue trivial

end Clocked

/-! ## Events without a sent packet -/

/-- From `s` to `t` no connection and no context is made, and no deadline is
written; a connection that reads frames goes on so. -/
structure Steady (s t : NetState) : Prop where
  now : s.now ≤ t.now
  nextConn : t.nextConn = s.nextConn
  nextCtx : t.nextCtx = s.nextCtx
  owners : ∀ x, (t.ctxs x).map (·.owner) = (s.ctxs x).map (·.owner)
  conns : ∀ id d, t.mgr.conns id = some d → ∃ c, s.mgr.conns id = some c ∧
    d.timeoutTs = c.timeoutTs ∧ d.type = c.type ∧ (c.isLongLink = true → d.isLongLink = true)

namespace Steady

theorem refl (s : NetState) : Steady s s :=
  ⟨Nat.le_refl _, rfl, rfl, fun _ => rfl, fun _ d hd => ⟨d, hd, rfl, rfl, fun h => h⟩⟩

theorem trans {s t u : NetState} (h : Steady s t) (h' : Steady t u) : Steady s u := by
  refine ⟨Nat.le_trans h.now h'.now, h'.nextConn.trans h.nextConn, h'.nextCtx.trans h.nextCtx,
    fun x => (h'.owners x).trans (h.owners x), ?_⟩
  intro id d hd
  obtain ⟨c', hc', htime', htype', hlong'⟩ := h'.conns id d hd
  obtain ⟨c, hc, htime, htype, hlong⟩ := h.conns id c' hc'
  exact ⟨c, hc, htime'.trans htime, htype'.trans htype, hlong' ∘ hlong⟩

/-- A connection changes in other ways. -/
theorem setConn {s : NetState} {id : ConnId} {c d : ConnectionProfile}
    (hc : s.mgr.conns id = some c) (htime : d.timeoutTs = c.timeoutTs) (htype : d.type = c.type)
    (hlong : c.isLongLink = true → d.isLongLink = true) : Steady s (s.setConn id d) := by
  refine ⟨Nat.le_refl _, rfl, rfl, fun _ => rfl, ?_⟩
  intro id' e he
  rw [setConn_conns] at he
  by_cases hid : id' = id
  · rw [hid, Function.update_self] at he
    cases he
    rw [hid]
    exact ⟨c, hc, htime, htype, hlong⟩
  · rw [Function.update_of_ne hid] at he
    exact ⟨e, he, rfl, rfl, fun h => h⟩

/-- The buffer of a context changes. -/
theorem setCtx {s : NetState} {x : CtxId} {k : SendContext} (hk : s.ctxs x = some k)
    (b : AutoBuffer) (writes : List WriteRecord) :
    Steady s { s with ctxs := Function.update s.ctxs x (some { k with buffer := b }), writes } := by
  refine ⟨Nat.le_refl _, rfl, rfl, ?_, fun _ d hd => ⟨d, hd, rfl, rfl, fun h => h⟩⟩
  intro y
  show (Function.update s.ctxs x _ y).map _ = _
  by_cases hy : y = x
  · rw [hy, Function.update_self, hk]
    rfl
  · rw [Function.update_of_ne hy]

/-- The destructor of a connection. -/
theorem destroy (slot uid : Nat) (id : ConnId) (c : ConnectionProfile) (s : NetState) :
    Steady s (s.destroy slot uid id c) := by
  refine ⟨Nat.le_refl _, rfl, rfl, ?_, ?_⟩
  · intro x
    show (invalidate c.sendContexts s.ctxs x).map _ = _
    unfold invalidate
    split
    · rw [Option.map_map]
      rfl
    · rfl
  · intro id' d hd
    exact ⟨d, (ConnectionManager.conns_of_release hd).2, rfl, rfl, fun h => h⟩

theorem delConnection {s t : NetState} {uid : Nat} (h : s.delConnection uid = some t) :
    Steady s t := by
  obtain ⟨id, c, -, -, rfl⟩ := delConnection_cases h
  exact destroy uid uid id c s

theorem clearSlot (s : NetState) (slot : Nat) : Steady s (s.clearSlot slot) := by
  unfold NetState.clearSlot
  split
  · exact destroy slot _ _ _ s
  · exact refl s

theorem clearTimeout (s : NetState) : Steady s s.clearTimeout :=
  clearTimeout_keeps (P := Steady s) (fun t slot ht => ht.trans (clearSlot t slot)) (refl s)

theorem trySend {s t : NetState} {x : CtxId} {w : WriteOutcome} {done : Bool}
    (h : s.trySend x w = some (t, done)) : Steady s t := by
  cases hk : s.ctxs x with
  | none => simp [NetState.trySend, hk] at h
  | some k =>
      obtain ⟨-, -, rfl⟩ := trySend_eq hk h
      exact setCtx hk _ _

theorem trySend_now {s t : NetState} {x : CtxId} {w : WriteOutcome} {done : Bool}
    (h : s.trySend x w = some (t, done)) : t.now = s.now := by
  cases hk : s.ctxs x with
  | none => simp [NetState.trySend, hk] at h
  | some k =>
      obtain ⟨-, -, rfl⟩ := trySend_eq hk h
      rfl

theorem onSendDone_now (x : CtxId) (s : NetState) : (s.onSendDone x).now = s.now := by
  unfold onSendDone
  split
  · rfl
  · split <;> rfl

theorem markAsPendingPacket (x : CtxId) (s : NetState) : Steady s (s.markAsPendingPacket x) := by
  unfold NetState.markAsPendingPacket
  split
  · exact refl s
  · split
    · exact refl s
    · rename_i c hc
      exact setConn hc rfl rfl fun h => h

theorem popPending (id : ConnId) (s : NetState) : Steady s (s.popPending id) := by
  unfold NetState.popPending
  split
  · exact refl s
  · rename_i c hc
    exact setConn hc rfl rfl fun h => h

end Steady

/-! ## What the deadline is -/

namespace Times

theorem foldr_max_le {ts : List Nat} {b n : Nat} (hb : b ≤ n) (h : ∀ t ∈ ts, t ≤ n) :
    ts.foldr max b ≤ n := by
  induction ts with
  | nil => exact hb
  | cons t ts ih =>
      exact Nat.max_le.2
        ⟨h t List.mem_cons_self, ih fun t' ht' => h t' (List.mem_cons_of_mem t ht')⟩

/-- A response that is complete just now. -/
theorem lastActive_eq_now {w : Times} {id : ConnId} {q : Request} {now : Nat}
    (hq : q ∈ w.requests id) (hsent : w.sent q.returnPacket = some now)
    (hestablished : w.established id ≤ now) (hle : ∀ x t, w.sent x = some t → t ≤ now) :
    w.lastActive id = now := by
  have hmem : now ∈ (w.requests id).filterMap fun q => w.sent q.returnPacket :=
    List.mem_filterMap.2 ⟨q, hq, hsent⟩
  have hall : ∀ t ∈ (w.requests id).filterMap fun q => w.sent q.returnPacket, t ≤ now := by
    intro t ht
    obtain ⟨q', -, hq'⟩ := List.mem_filterMap.1 ht
    exact hle q'.returnPacket t hq'
  unfold lastActive
  apply Nat.le_antisymm
  · exact foldr_max_le hestablished hall
  · exact List.le_max_of_le' _ hmem (Nat.le_refl now)

theorem le_lastActive {w : Times} {id : ConnId} {q : Request} {t : Nat}
    (hq : q ∈ w.requests id) (hsent : w.sent q.returnPacket = some t) : t ≤ w.lastActive id :=
  List.le_max_of_le' _ (List.mem_filterMap.2 ⟨q, hq, hsent⟩) (Nat.le_refl t)

theorem lastActive_congr {w v : Times} {id : ConnId}
    (hestablished : v.established id = w.established id)
    (hrequests : v.requests id = w.requests id)
    (hsent : ∀ q ∈ w.requests id, v.sent q.returnPacket = w.sent q.returnPacket) :
    v.lastActive id = w.lastActive id := by
  unfold lastActive
  rw [hestablished, hrequests, List.filterMap_congr hsent]

theorem markSent_append (now : Nat) (l l' : List Effect) (w : Times) :
    w.markSent now (l ++ l') = (w.markSent now l).markSent now l' := by
  unfold markSent
  congr 1
  funext x
  by_cases hl' : .sendDone x ∈ l'
  · rw [if_pos (List.mem_append_right l hl'), if_pos hl']
  · rw [if_neg hl']
    simp only [List.mem_append, hl', or_false]

/-- A response that is marked has been completed now, or was marked before. -/
theorem sent_markSent {w : Times} {now t : Nat} {x y : CtxId}
    (ht : (w.markSent now [.sendDone x]).sent y = some t) :
    (y = x ∧ t = now) ∨ w.sent y = some t := by
  unfold markSent at ht
  dsimp only at ht
  split at ht
  · rename_i hmem
    cases ht
    left
    simpa using hmem
  · exact Or.inr ht

theorem markSent_nil (now : Nat) (w : Times) : w.markSent now [] = w := rfl

/-- A `::write` marks nothing. -/
theorem markSent_taken (now : Nat) (x : CtxId) (b : AutoBuffer) (n : Nat) (s : NetState)
    (l : List Effect) (w : Times) :
    w.markSent now (s.taken x b n :: l) = w.markSent now l := by
  have hwrite : ∀ y, .sendDone y ≠ s.taken x b n := by
    intro y heq
    unfold taken at heq
    split_ifs at heq
    split at heq <;> cases heq
  unfold markSent
  congr 1
  funext y
  simp only [List.mem_cons, hwrite y, false_or]

end Times

/-- Connections are from clients, contexts are return packets of the requests of
their connections, and the deadline of a connection is `kDefaultTimeout` after
it was last active. -/
structure Ticking (s : NetState) (w : Times) : Prop where
  conn_lt : ∀ id c, s.mgr.conns id = some c → id < s.nextConn
  accepted : ∀ id c, s.mgr.conns id = some c → c.type = .kAcceptFrom
  ctx_lt : ∀ x k, s.ctxs x = some k → x < s.nextCtx
  fresh : ∀ id, s.nextConn ≤ id → w.requests id = []
  asked : ∀ x id, (s.ctxs x).map (·.owner) = some id ↔ ∃ q ∈ w.requests id, q.returnPacket = x
  established_le : ∀ id, w.established id ≤ s.now
  sent_lt : ∀ x t, w.sent x = some t → x < s.nextCtx
  sent_le : ∀ x t, w.sent x = some t → t ≤ s.now
  deadline : ∀ id c, s.mgr.conns id = some c → c.isLongLink = false →
    c.timeoutTs = w.lastActive id + kDefaultTimeout

namespace Ticking

theorem init (cfg : Config) : Ticking (State.init cfg).net (Clocked.init cfg).times where
  conn_lt id c hc := by cases hc
  accepted id c hc := by cases hc
  ctx_lt x k hk := by cases hk
  fresh _ _ := rfl
  asked x id := by
    constructor
    · intro h
      cases h
    · rintro ⟨q, hq, -⟩
      cases hq
  established_le _ := Nat.le_refl _
  sent_lt x t ht := by cases ht
  sent_le x t ht := by cases ht
  deadline id c hc := by cases hc

theorem ctx_lt_of_owners {s t : NetState} {w : Times} (h : Ticking s w)
    (howners : ∀ x, (t.ctxs x).map (·.owner) = (s.ctxs x).map (·.owner)) :
    ∀ x k, t.ctxs x = some k → x < s.nextCtx := by
  intro x k hk
  have howner := howners x
  rw [hk] at howner
  obtain ⟨k', hk', -⟩ := Option.map_eq_some_iff.1 howner.symm
  exact h.ctx_lt x k' hk'

theorem steady {s t : NetState} {w : Times} (h : Ticking s w) (hsteady : Steady s t) :
    Ticking t w where
  conn_lt := by
    intro id d hd
    obtain ⟨c, hc, -⟩ := hsteady.conns id d hd
    rw [hsteady.nextConn]
    exact h.conn_lt id c hc
  accepted := by
    intro id d hd
    obtain ⟨c, hc, -, htype, -⟩ := hsteady.conns id d hd
    exact htype.trans (h.accepted id c hc)
  ctx_lt := by
    rw [hsteady.nextCtx]
    exact h.ctx_lt_of_owners hsteady.owners
  fresh := by
    rw [hsteady.nextConn]
    exact h.fresh
  asked := by
    intro x id
    rw [hsteady.owners]
    exact h.asked x id
  established_le id := Nat.le_trans (h.established_le id) hsteady.now
  sent_lt := by
    rw [hsteady.nextCtx]
    exact h.sent_lt
  sent_le x t ht := Nat.le_trans (h.sent_le x t ht) hsteady.now
  deadline := by
    intro id d hd hshort
    obtain ⟨c, hc, htime, -, hlong⟩ := hsteady.conns id d hd
    rw [htime]
    apply h.deadline id c hc
    by_contra hlinked
    rw [hlong (Bool.not_eq_false _ |>.mp hlinked)] at hshort
    cases hshort

theorem sent_le_markSent {s : NetState} {w : Times} {x : CtxId} (h : Ticking s w) :
    ∀ y t, (w.markSent s.now [.sendDone x]).sent y = some t → t ≤ s.now := by
  intro y t ht
  rcases Times.sent_markSent ht with ⟨-, rfl⟩ | ht
  · exact Nat.le_refl _
  · exact h.sent_le y t ht

theorem owner_of_ctxs {s : NetState} {x : CtxId} {k : SendContext} (hk : s.ctxs x = some k) :
    (s.ctxs x).map (·.owner) = some k.owner := by
  rw [hk]
  rfl

/-- The connection that made the context is active now. -/
theorem lastActive_sendDone {s : NetState} {w : Times} {x : CtxId} {k : SendContext}
    (h : Ticking s w) (hk : s.ctxs x = some k) :
    (w.markSent s.now [.sendDone x]).lastActive k.owner = s.now := by
  obtain ⟨q, hq, hqx⟩ := (h.asked x k.owner).1 (owner_of_ctxs hk)
  refine Times.lastActive_eq_now (w := w.markSent s.now [.sendDone x]) hq ?_
    (h.established_le k.owner) h.sent_le_markSent
  rw [hqx]
  exact if_pos (List.mem_singleton.2 rfl)

/-- The context is no request of another connection. -/
theorem lastActive_sendDone_of_ne {s : NetState} {w : Times} {x : CtxId} {k : SendContext}
    {id : ConnId} (h : Ticking s w) (hk : s.ctxs x = some k) (hid : id ≠ k.owner) :
    (w.markSent s.now [.sendDone x]).lastActive id = w.lastActive id := by
  refine Times.lastActive_congr (v := w.markSent s.now [.sendDone x]) rfl rfl ?_
  intro q hq
  apply if_neg
  intro hmem
  have hx : q.returnPacket = x := by simpa using hmem
  have howner := (h.asked x id).2 ⟨q, hq, hx⟩
  rw [owner_of_ctxs hk] at howner
  exact hid (Option.some.inj howner).symm

/-- **`OnSendDone`** moves the deadline of the connection that made the
context. -/
theorem sendDone {s : NetState} {w : Times} {x : CtxId} {k : SendContext} (h : Ticking s w)
    (hk : s.ctxs x = some k) : Ticking (s.onSendDone x) (w.markSent s.now [.sendDone x]) := by
  have hframe := Frame.onSendDone x s
  have hnow := Steady.onSendDone_now x s
  refine ⟨?_, ?_, ?_, ?_, ?_, ?_, ?_, ?_, ?_⟩
  · intro id d hd
    obtain ⟨c, _, _, _, hc, rfl⟩ := hframe.conns id d hd
    rw [hframe.nextConn]
    exact h.conn_lt id c hc
  · intro id d hd
    obtain ⟨c, _, _, _, hc, rfl⟩ := hframe.conns id d hd
    exact h.accepted id c hc
  · rw [onSendDone_ctxs, hframe.nextCtx]
    exact h.ctx_lt
  · rw [hframe.nextConn]
    exact h.fresh
  · rw [onSendDone_ctxs]
    exact h.asked
  · rw [hnow]
    exact h.established_le
  · intro y t ht
    rw [hframe.nextCtx]
    rcases Times.sent_markSent ht with ⟨rfl, -⟩ | ht
    · exact h.ctx_lt y k hk
    · exact h.sent_lt y t ht
  · rw [hnow]
    exact h.sent_le_markSent
  · intro id d hd hshort
    unfold onSendDone at hd
    simp only [hk] at hd
    by_cases hid : id = k.owner
    · subst hid
      rw [h.lastActive_sendDone hk]
      cases hc : s.mgr.conns k.owner with
      | none => simp [hc] at hd
      | some c =>
          simp only [hc] at hd
          rw [setConn_conns, Function.update_self] at hd
          cases hd
          replace hshort : c.isLongLink = false := hshort
          simp [ConnectionProfile.sendContextSendDoneCallback, hshort, h.accepted _ c hc]
    · have hconns : s.mgr.conns id = some d := by
        split at hd
        · exact hd
        · rw [setConn_conns, Function.update_of_ne hid] at hd
          exact hd
      rw [h.lastActive_sendDone_of_ne hk hid]
      exact h.deadline id d hconns hshort

/-- **Sending** keeps the deadlines right. -/
theorem sendClosed (now : Nat) (w : Times) :
    SendClosed fun s l => s.now = now ∧ Ticking s (w.markSent now l) where
  undone := by
    rintro s t l x o htry ⟨hnow, h⟩
    obtain ⟨k, -, -, hdone, -, -, -, -, heffects⟩ := trySend_cases htry
    rw [← hdone] at heffects
    rw [heffects, Times.markSent_append, Times.markSent_taken]
    exact ⟨(Steady.trySend_now htry).trans hnow, h.steady (Steady.trySend htry)⟩
  done := by
    rintro s t l x o htry ⟨hnow, h⟩
    obtain ⟨k, -, -, hdone, hctxs, -, -, -, heffects⟩ := trySend_cases htry
    rw [← hdone] at heffects
    rw [heffects, Times.markSent_append, Times.markSent_taken]
    have hx : t.ctxs x = some { k with buffer := (send k.buffer o).1 } := by
      rw [hctxs, Function.update_self]
    have ht : t.now = now := (Steady.trySend_now htry).trans hnow
    have hsent := (h.steady (Steady.trySend htry)).sendDone hx
    rw [ht] at hsent
    exact ⟨(Steady.onSendDone_now x t).trans ht, hsent⟩
  mark := by
    rintro s l x ⟨hnow, h⟩
    refine ⟨?_, h.steady (Steady.markAsPendingPacket x s)⟩
    rw [← hnow]
    unfold markAsPendingPacket
    split
    · rfl
    · split <;> rfl
  pop := by
    rintro s l id ⟨hnow, h⟩
    refine ⟨?_, h.steady (Steady.popPending id s)⟩
    rw [← hnow]
    unfold popPending
    split <;> rfl

end Ticking

/-! ## Connections and requests -/

namespace Ticking

/-- A connection is accepted, or refused. -/
theorem accept {cfg : Config} {s t : NetState} {w : Times} {fd port : Nat} {ip : Bytes}
    (h : Ticking s w)
    (hregister : s.registerConnection cfg.vector cfg.maxConnections configApplicationLayer fd ip
      port = some t) :
    Ticking t { w with established := fun id =>
      if s.nextConn ≤ id ∧ id < t.nextConn then s.now else w.established id } := by
  unfold registerConnection at hregister
  split at hregister
  · cases hregister
    have hsame : (fun id => if s.nextConn ≤ id ∧ id < s.nextConn then s.now
        else w.established id) = w.established := by
      funext id
      exact if_neg fun hboth => Nat.not_lt.2 hboth.1 hboth.2
    rw [hsame]
    exact h
  · obtain ⟨⟨net, id₀⟩, hadd, rfl⟩ := Option.map_eq_some_iff.1 hregister
    obtain ⟨mgr, hmgr, heq⟩ := Option.map_eq_some_iff.1 hadd
    obtain ⟨uid, hconns⟩ := ConnectionManager.addConnection_conns hmgr
    cases heq
    -- a connection that was there has been established before
    have hold : ∀ id c, s.mgr.conns id = some c →
        (if s.nextConn ≤ id ∧ id < s.nextConn + 1 then s.now else w.established id) =
          w.established id := by
      intro id c hc
      exact if_neg fun hboth => Nat.not_lt.2 hboth.1 (h.conn_lt id c hc)
    refine ⟨?_, ?_, h.ctx_lt, ?_, h.asked, ?_, h.sent_lt, h.sent_le, ?_⟩
    · intro id c hc
      replace hc : mgr.conns id = some c := hc
      show id < s.nextConn + 1
      rw [hconns] at hc
      by_cases hid : id = s.nextConn
      · rw [hid]
        exact Nat.lt_succ_self _
      · rw [Function.update_of_ne hid] at hc
        exact Nat.lt_succ_of_lt (h.conn_lt id c hc)
    · intro id c hc
      replace hc : mgr.conns id = some c := hc
      rw [hconns] at hc
      by_cases hid : id = s.nextConn
      · rw [hid, Function.update_self] at hc
        cases hc
        rfl
      · rw [Function.update_of_ne hid] at hc
        exact h.accepted id c hc
    · intro id hid
      replace hid : s.nextConn + 1 ≤ id := hid
      exact h.fresh id (Nat.le_of_succ_le hid)
    · intro id
      show (if _ then s.now else w.established id) ≤ s.now
      split
      · exact Nat.le_refl _
      · exact h.established_le id
    · intro id c hc hshort
      replace hc : mgr.conns id = some c := hc
      rw [hconns] at hc
      by_cases hid : id = s.nextConn
      · subst hid
        rw [Function.update_self] at hc
        cases hc
        unfold Times.lastActive
        show s.now + kDefaultTimeout = List.foldr max (if _ then s.now else _)
          ((w.requests s.nextConn).filterMap _) + kDefaultTimeout
        rw [h.fresh s.nextConn (Nat.le_refl _), if_pos ⟨Nat.le_refl _, Nat.lt_succ_self _⟩]
        rfl
      · rw [Function.update_of_ne hid] at hc
        rw [h.deadline id c hc hshort]
        congr 1
        symm
        exact Times.lastActive_congr (hold id c hc) rfl fun _ _ => rfl

/-- The new context is the return packet of the new request. -/
theorem asked_dispatched {s t : NetState} {w : Times} {id : ConnId} {k : SendContext} {n : Nat}
    (h : Ticking s w) (hsteady : Steady s t) (hk : k.owner = id) (x : CtxId) (i : ConnId) :
    (Function.update t.ctxs s.nextCtx (some k) x).map (·.owner) = some i ↔
      ∃ q ∈ w.requests i ++ if id = i then [⟨s.nextCtx, n⟩] else [], q.returnPacket = x := by
  by_cases hx : x = s.nextCtx
  · subst hx
    rw [Function.update_self]
    have hnone : ¬ ∃ q ∈ w.requests i, q.returnPacket = s.nextCtx := by
      intro hasked
      obtain ⟨l, hl, -⟩ := Option.map_eq_some_iff.1 ((h.asked _ i).2 hasked)
      exact Nat.lt_irrefl _ (h.ctx_lt _ l hl)
    constructor
    · intro howner
      have hi : id = i := by
        rw [← hk]
        exact Option.some.inj howner
      rw [if_pos hi]
      exact ⟨_, List.mem_append_right _ (List.mem_singleton.2 rfl), rfl⟩
    · rintro ⟨q, hq, hqx⟩
      rcases List.mem_append.1 hq with hq | hq
      · exact absurd ⟨q, hq, hqx⟩ hnone
      · split at hq
        · rename_i hi
          rw [← hi, ← hk]
          rfl
        · cases hq
  · rw [Function.update_of_ne hx, (h.steady hsteady).asked x i]
    constructor
    · rintro ⟨q, hq, hqx⟩
      exact ⟨q, List.mem_append_left _ hq, hqx⟩
    · rintro ⟨q, hq, hqx⟩
      rcases List.mem_append.1 hq with hq | hq
      · exact ⟨q, hq, hqx⟩
      · split at hq
        · rw [List.mem_singleton.1 hq] at hqx
          exact absurd hqx.symm hx
        · cases hq

/-- A packet is passed on, with a context of its own. -/
theorem dispatched {s t : NetState} {w : Times} {id : ConnId} {k : SendContext} {n : Nat}
    (h : Ticking s w) (hsteady : Steady s t) (hid : id < s.nextConn) (hk : k.owner = id)
    {requests : ConnId → List Request}
    (hrequests : ∀ i, requests i = w.requests i ++ if id = i then [⟨s.nextCtx, n⟩] else []) :
    Ticking (t.allocCtx (some k)) { w with requests } := by
  have ht := h.steady hsteady
  have hnew : w.sent s.nextCtx = none := by
    cases hsent : w.sent s.nextCtx with
    | none => rfl
    | some time => exact absurd (h.sent_lt _ time hsent) (Nat.lt_irrefl _)
  refine ⟨ht.conn_lt, ht.accepted, ?_, ?_, ?_, ht.established_le, ?_, ht.sent_le, ?_⟩
  · intro x l hl
    replace hl : Function.update t.ctxs t.nextCtx (some k) x = some l := hl
    show x < t.nextCtx + 1
    by_cases hx : x = t.nextCtx
    · rw [hx]
      exact Nat.lt_succ_self _
    · rw [Function.update_of_ne hx] at hl
      exact Nat.lt_succ_of_lt (ht.ctx_lt x l hl)
  · intro i hi
    replace hi : t.nextConn ≤ i := hi
    show requests i = []
    rw [hsteady.nextConn] at hi
    rw [hrequests, h.fresh i hi, if_neg (Nat.ne_of_lt (Nat.lt_of_lt_of_le hid hi))]
    rfl
  · intro x i
    show (Function.update t.ctxs t.nextCtx (some k) x).map _ = some i ↔ ∃ q ∈ requests i, _
    rw [hrequests, hsteady.nextCtx]
    exact h.asked_dispatched hsteady hk x i
  · intro x time hsent
    exact Nat.lt_succ_of_lt (ht.sent_lt x time hsent)
  · intro i c hc hshort
    rw [ht.deadline i c hc hshort]
    congr 1
    unfold Times.lastActive
    dsimp only
    rw [hrequests, List.filterMap_append]
    split
    · have hnone : [Request.mk s.nextCtx n].filterMap (fun q => w.sent q.returnPacket) = [] := by
        simp [hnew]
      rw [hnone, List.append_nil]
    · rw [List.filterMap_nil, List.append_nil]

end Ticking

/-! ## Steps -/

namespace Clocked

/-- An event that accepts no connection. -/
theorem timesBehind_of_nextConn {s t : State} {e : Event} {w : Times}
    (hnext : t.net.nextConn = s.net.nextConn) :
    timesBehind s t e w = Times.markSent s.net.now (effectsOf s e)
      { w with requests := fun id => w.requests id ++ requestsOf s e id } := by
  have hestablished : (fun id => if s.net.nextConn ≤ id ∧ id < t.net.nextConn then s.net.now
      else w.established id) = w.established := by
    funext id
    rw [hnext]
    exact if_neg fun hboth => Nat.not_lt.2 hboth.1 hboth.2
  unfold timesBehind
  rw [hestablished]

/-- An event that passes nothing on, besides. -/
theorem timesBehind_of_requestsOf {s t : State} {e : Event} {w : Times}
    (hnext : t.net.nextConn = s.net.nextConn) (hrequests : ∀ id, requestsOf s e id = []) :
    timesBehind s t e w = w.markSent s.net.now (effectsOf s e) := by
  rw [timesBehind_of_nextConn hnext]
  simp only [hrequests, List.append_nil]

/-- An event that neither passes anything on nor sends anything. -/
theorem ticking_of_steady {s t : State} {e : Event} {w : Times} (h : Ticking s.net w)
    (hsteady : Steady s.net t.net) (hrequests : ∀ id, requestsOf s e id = [])
    (heffects : effectsOf s e = []) : Ticking t.net (timesBehind s t e w) := by
  rw [timesBehind_of_requestsOf hsteady.nextConn hrequests, heffects, Times.markSent_nil]
  exact h.steady hsteady

/-- `Receive` writes no deadline, and a connection that reads frames goes on
so. -/
theorem receive_deadline {c : ConnectionProfile} {outs : List ReadOutcome}
    {r : ConnectionProfile.Received} (hr : c.receive outs = some r) :
    r.conn.timeoutTs = c.timeoutTs ∧ r.conn.type = c.type ∧
      (c.isLongLink = true → r.conn.isLongLink = true) := by
  obtain ⟨_, _, parser, hconn, hsome⟩ := ConnectionProfile.receive_frame hr
  refine ⟨by rw [hconn], by rw [hconn], ?_⟩
  intro hlong
  have hreads : State.ReadsFrames r.conn := by
    apply ConnectionProfile.receive_keeps (P := fun p => p.isLongLink = true) ?_ hr
    · intro p hp
      rw [ConnectionProfile.isLongLink, hp] at hlong
      exact hlong
    · intro p buf hp
      rw [State.isLongLink_doParse]
      exact hp
  cases hp : c.parser with
  | none =>
      rw [ConnectionProfile.isLongLink, hp] at hlong
      cases hlong
  | some p =>
      have hparser : r.conn.parser.isSome := by
        rw [hconn]
        exact hsome (by rw [hp]; rfl)
      obtain ⟨q, hq⟩ := Option.isSome_iff_exists.1 hparser
      rw [ConnectionProfile.isLongLink, hq]
      exact hreads q hq

theorem steady_handleApplicationPacket {cfg : Config} {s t : State} {ctx : RecvContext}
    (h : s.handleApplicationPacket cfg ctx = some t) : Steady s.net t.net := by
  unfold State.handleApplicationPacket at h
  split at h
  · obtain ⟨net, hdel, rfl⟩ := Option.map_eq_some_iff.1 h
    exact Steady.delConnection hdel
  · cases h
    exact Steady.refl s.net

/-- **A read event.** -/
theorem ticking_readEvent {cfg : Config} {s t : State} {w : Times} {id : ConnId}
    {outs : List ReadOutcome} (h : Ticking s.net w) (hstep : s.onReadEvent cfg id outs = some t) :
    Ticking t.net (timesBehind s t (.readEvent id outs) w) := by
  obtain ⟨net, stop, c, hevent, hc⟩ := State.onReadEvent_net hstep
  have hset : ∀ r, c.receive outs = some r → Steady s.net (s.net.setConn id r.conn) := by
    intro r hr
    obtain ⟨htime, htype, hlong⟩ := receive_deadline hr
    exact Steady.setConn hc htime htype hlong
  have hcases := onReadEvent_cases hc (Or.inl (h.accepted id c hc)) hevent
  simp only [State.onReadEvent, hevent] at hstep
  cases hcases with
  | deleted r t' hr hdel =>
      cases hstep
      apply ticking_of_steady h ((hset r hr).trans (Steady.delConnection hdel))
      · intro i
        simp only [requestsOf, hevent]
      · rfl
  | idle r hr =>
      cases hstep
      apply ticking_of_steady h (hset r hr)
      · intro i
        simp only [requestsOf, hevent]
      · rfl
  | crashed r hr => cases hstep
  | dispatched r p parser tcpByteArr nextNo packet packetNo hr hp hpasses =>
      obtain ⟨htime, htype, hlong⟩ := receive_deadline hr
      have hbehind : Steady s.net (s.net.setConn id
          (behindDispatch s.net.nextCtx parser tcpByteArr nextNo r.conn)) := by
        refine Steady.setConn hc htime htype ?_
        intro hlinked
        have hlinked' := hlong hlinked
        rw [ConnectionProfile.isLongLink, hp] at hlinked'
        exact hpasses.isLongLink hlinked'
      have hticking : Ticking
          ((s.net.setConn id (behindDispatch s.net.nextCtx parser tcpByteArr nextNo
            r.conn)).allocCtx (some (madeContext id r.conn)))
          { w with requests := fun i => w.requests i ++
              requestsOf s (.readEvent id outs) i } := by
        apply h.dispatched (n := s.net.now) hbehind (h.conn_lt id c hc) rfl
        intro i
        simp only [requestsOf, hevent]
        rfl
      have hqueue := steady_handleApplicationPacket hstep
      have hnext : t.net.nextConn = s.net.nextConn := hqueue.nextConn
      rw [timesBehind_of_nextConn hnext]
      exact hticking.steady hqueue

/-- What a worker writes into a return packet. -/
theorem steady_handleTask {cfg : Config} {s t : State} {i : Nat} {resp : Bytes}
    (h : s.handleTask cfg i resp = some t) : Steady s.net t.net := by
  unfold State.handleTask at h
  split at h
  · split at h
    · cases h
    · split at h
      · cases h
      · rename_i k hk
        cases h
        exact Steady.setCtx hk _ _
  · cases h

/-- **Every event** keeps the deadlines right. -/
theorem ticking_step {cfg : Config} {s t : State} {e : Event} {w : Times} (h : Ticking s.net w)
    (hstep : State.step cfg s e = some t) : Ticking t.net (timesBehind s t e w) := by
  cases e with
  | accept fd ip port =>
      obtain ⟨net, hregister, rfl⟩ := Option.map_eq_some_iff.1 hstep
      have haccept := h.accept hregister
      unfold timesBehind
      simp only [effectsOf, requestsOf, List.append_nil]
      exact haccept
  | readEvent id outs => exact ticking_readEvent h hstep
  | writeEvent id ws =>
      obtain ⟨net, hsend, rfl⟩ := Option.map_eq_some_iff.1 hstep
      rw [timesBehind_of_requestsOf (Frame.trySendPendingPackets hsend).nextConn fun _ => rfl]
      exact ((Ticking.sendClosed s.net.now w).pending (l := []) hsend ⟨rfl, h⟩).2
  | errEvent id =>
      obtain ⟨net, herr, rfl⟩ := Option.map_eq_some_iff.1 hstep
      unfold onErrEvent at herr
      split at herr
      · cases herr
      · exact ticking_of_steady h (Steady.delConnection herr) (fun _ => rfl) rfl
  | clearTimeout =>
      cases hstep
      exact ticking_of_steady h (Steady.clearTimeout s.net) (fun _ => rfl) rfl
  | tick ms =>
      cases hstep
      refine ticking_of_steady h ?_ (fun _ => rfl) rfl
      exact ⟨Nat.le_add_right _ _, rfl, rfl, fun _ => rfl,
        fun _ d hd => ⟨d, hd, rfl, rfl, fun hl => hl⟩⟩
  | take =>
      replace hstep : s.takeTask = some t := hstep
      unfold State.takeTask at hstep
      split at hstep
      · cases hstep
      · cases hstep
        exact ticking_of_steady h (Steady.refl s.net) (fun _ => rfl) rfl
  | check i =>
      replace hstep : s.checkTask cfg i = some t := hstep
      unfold State.checkTask at hstep
      split at hstep
      · cases hstep
        exact ticking_of_steady h (Steady.refl s.net) (fun _ => rfl) rfl
      · cases hstep
  | handle i resp => exact ticking_of_steady h (steady_handleTask hstep) (fun _ => rfl) rfl
  | giveBack i =>
      replace hstep : s.giveBackTask i = some t := hstep
      unfold State.giveBackTask at hstep
      split at hstep
      · split at hstep
        · cases hstep
        · cases hstep
          exact ticking_of_steady h (Steady.refl s.net) (fun _ => rfl) rfl
      · cases hstep
  | handleSend o =>
      replace hstep : s.handleSend o = some t := hstep
      unfold State.handleSend at hstep
      split at hstep
      · cases hstep
      · rename_i x rest hqueue
        obtain ⟨⟨net, done⟩, hsend, rfl⟩ := Option.map_eq_some_iff.1 hstep
        rw [timesBehind_of_requestsOf (Frame.trySendAndMarkPendingIfUndone hsend).nextConn
          fun _ => rfl]
        have heffects : effectsOf s (.handleSend o) = s.net.sendEffects x o := by
          simp only [effectsOf, hqueue]
        rw [heffects]
        exact ((Ticking.sendClosed s.net.now w).direct (l := []) hsend ⟨rfl, h⟩).2

/-! ## What `ClearTimeout` deletes -/

theorem clearSlot_now (s : NetState) (slot : Nat) : (s.clearSlot slot).now = s.now := by
  unfold clearSlot
  split <;> rfl

/-- One round: the object in the slot is deleted if it is behind its
deadline. -/
theorem clearSlot_cases (s : NetState) (slot : Nat) :
    (s.clearSlot slot = s ∧ s.mgr.expired s.now slot = none) ∨
      ∃ id c, s.mgr.pool[slot]? = some (some id) ∧ s.mgr.conns id = some c ∧
        c.isTimeout s.now = true ∧
        (s.clearSlot slot).mgr.pool = s.mgr.pool.set slot none ∧
        (s.clearSlot slot).mgr.conns = Function.update s.mgr.conns id none := by
  unfold clearSlot
  cases hexpired : s.mgr.expired s.now slot with
  | none => exact Or.inl ⟨rfl, rfl⟩
  | some found =>
      obtain ⟨id, c⟩ := found
      obtain ⟨hslot, hc, htimeout⟩ := ConnectionManager.expired_iff.1 hexpired
      exact Or.inr ⟨id, c, hslot, hc, htimeout, rfl, rfl⟩

/-- The loop keeps a connection, or has found it in its slot behind its
deadline. -/
theorem foldl_clearSlot_conns (slots : List Nat) (s : NetState) (id : ConnId) :
    (slots.foldl clearSlot s).mgr.conns id = s.mgr.conns id ∨
      ((slots.foldl clearSlot s).mgr.conns id = none ∧ some id ∈ s.mgr.pool ∧
        ∃ c, s.mgr.conns id = some c ∧ c.isTimeout s.now = true) := by
  induction slots generalizing s with
  | nil => exact Or.inl rfl
  | cons slot slots ih =>
      rw [List.foldl_cons]
      rcases clearSlot_cases s slot with ⟨hsame, -⟩ | ⟨id', c', hslot, hc', htimeout, hpool, hconns⟩
      · rw [hsame]
        exact ih s
      · by_cases hid : id = id'
        · subst hid
          right
          refine ⟨?_, List.mem_of_getElem? hslot, c', hc', htimeout⟩
          rcases ih (s.clearSlot slot) with hsame | ⟨hdeleted, -⟩
          · rw [hsame, hconns, Function.update_self]
          · exact hdeleted
        · have hother : (s.clearSlot slot).mgr.conns id = s.mgr.conns id := by
            rw [hconns, Function.update_of_ne hid]
          rcases ih (s.clearSlot slot) with hsame | ⟨hdeleted, hmem, c, hc, hlate⟩
          · rw [hsame, hother]
            exact Or.inl rfl
          · right
            rw [hother] at hc
            rw [clearSlot_now] at hlate
            refine ⟨hdeleted, ?_, c, hc, hlate⟩
            rw [hpool] at hmem
            rcases List.mem_or_eq_of_mem_set hmem with hmem | heq
            · exact hmem
            · cases heq

/-- A connection that it comes to behind the deadline is deleted. -/
theorem foldl_clearSlot_expired {slots : List Nat} {s : NetState} {id : ConnId} {slot : Nat}
    {c : ConnectionProfile} (hmem : slot ∈ slots) (hslot : s.mgr.pool[slot]? = some (some id))
    (hc : s.mgr.conns id = some c) (htimeout : c.isTimeout s.now = true) :
    (slots.foldl clearSlot s).mgr.conns id = none := by
  induction slots generalizing s with
  | nil => cases hmem
  | cons slot' slots ih =>
      have hgone : (s.clearSlot slot').mgr.conns id = none →
          (slots.foldl clearSlot (s.clearSlot slot')).mgr.conns id = none := by
        intro hnone
        rcases foldl_clearSlot_conns slots (s.clearSlot slot') id with hsame | ⟨hnone', -⟩
        · rw [hsame, hnone]
        · exact hnone'
      have hexpired := ConnectionManager.expired_iff.2 ⟨hslot, hc, htimeout⟩
      rw [List.foldl_cons]
      rcases clearSlot_cases s slot' with
        ⟨hsame, hnone⟩ | ⟨id', c', hslot', hc', -, hpool, hconns⟩
      · have hne : slot ≠ slot' := by
          rintro rfl
          rw [hexpired] at hnone
          cases hnone
        rw [hsame]
        exact ih (List.mem_of_ne_of_mem hne hmem) hslot hc htimeout
      · by_cases hid : id = id'
        · subst hid
          apply hgone
          rw [hconns, Function.update_self]
        · have hne : slot' ≠ slot := by
            rintro rfl
            rw [hslot] at hslot'
            cases hslot'
            exact hid rfl
          apply ih (List.mem_of_ne_of_mem (Ne.symm hne) hmem)
          · rw [hpool, List.getElem?_set_ne hne]
            exact hslot
          · rw [hconns, Function.update_of_ne hid]
            exact hc
          · rw [clearSlot_now]
            exact htimeout

/-- **What it deletes**, exactly. -/
theorem clearTimeout_deletes {s : NetState} {id : ConnId} {c : ConnectionProfile}
    (hc : s.mgr.conns id = some c) :
    s.clearTimeout.isLive id = false ↔ some id ∈ s.mgr.pool ∧ c.isTimeout s.now = true := by
  unfold NetState.isLive
  rw [Option.isSome_eq_false_iff, Option.isNone_iff_eq_none]
  constructor
  · intro hnone
    rcases foldl_clearSlot_conns (List.range s.mgr.pool.length) s id with
      hsame | ⟨-, hmem, c', hc', htimeout⟩
    · replace hnone : (List.foldl clearSlot s (List.range s.mgr.pool.length)).mgr.conns id =
        none := hnone
      rw [hsame, hc] at hnone
      cases hnone
    · rw [hc] at hc'
      cases hc'
      exact ⟨hmem, htimeout⟩
  · rintro ⟨hmem, htimeout⟩
    obtain ⟨slot, hslot⟩ := List.mem_iff_getElem?.1 hmem
    obtain ⟨hlt, -⟩ := List.getElem?_eq_some_iff.1 hslot
    exact foldl_clearSlot_expired (List.mem_range.2 hlt) hslot hc htimeout

/-- `IsTimeout`. -/
theorem isTimeout_iff {c : ConnectionProfile} {now : Nat} :
    c.isTimeout now = true ↔
      c.isLongLink = false ∧ c.pendingSendCtx = [] ∧ c.timeoutTs < now := by
  unfold ConnectionProfile.isTimeout
  cases c.isLongLink <;> by_cases hpending : c.pendingSendCtx = [] <;> simp [hpending]

/-- A connection that is deleted, with no request that waits. -/
theorem idle_record {r : Clocked} {id : ConnId} {c : ConnectionProfile}
    (h : Ticking r.state.net r.times) (hc : r.state.net.mgr.conns id = some c)
    (htimeout : c.isTimeout r.state.net.now = true) (hwaits : ¬ r.times.Waits id) :
    (r.record id).Idle := by
  obtain ⟨hshort, -, hlate⟩ := isTimeout_iff.1 htimeout
  rw [h.deadline id c hc hshort] at hlate
  have hserved : ∀ q ∈ r.times.requests id, r.times.sent q.returnPacket ≠ none :=
    fun q hq hnone => hwaits ⟨q, hq, hnone⟩
  constructor
  · cases hlast : (r.times.requests id).getLast? with
    | none =>
        left
        intro q hq
        rw [List.getLast?_eq_none_iff] at hlast
        simp [record, hlast] at hq
    | some q =>
        right
        have hq : q ∈ r.times.requests id := List.mem_of_getLast? hlast
        obtain ⟨t, ht⟩ := Option.ne_none_iff_exists'.1 (hserved q hq)
        refine ⟨⟨q.received, r.times.sent q.returnPacket⟩, ?_, t, ht, ?_⟩
        · simp [record, hlast]
        · exact Nat.lt_of_le_of_lt (Nat.add_le_add_right (Times.le_lastActive hq ht) _) hlate
  · intro q hq
    obtain ⟨q', hq', rfl⟩ := List.mem_map.1 hq
    exact hserved q' hq'

/-- A request that waits is not idle. -/
theorem not_idle_record {r : Clocked} {id : ConnId} (hwaits : r.times.Waits id) :
    ¬ (r.record id).Idle := by
  obtain ⟨q, hq, hnone⟩ := hwaits
  intro hidle
  exact hidle.served ⟨q.received, r.times.sent q.returnPacket⟩ (List.mem_map_of_mem hq) hnone

theorem mem_clearedBy {r : Clocked} {t : State} {d : Cleared}
    (hstep : t.net = r.state.net.clearTimeout) :
    d ∈ r.clearedBy t .clearTimeout ↔ ∃ id < r.state.net.nextConn, ∃ c,
      r.state.net.mgr.conns id = some c ∧ r.state.net.clearTimeout.isLive id = false ∧
        r.record id = d := by
  unfold clearedBy
  rw [List.mem_map, hstep]
  constructor
  · rintro ⟨id, hid, hd⟩
    obtain ⟨hlt, hlive⟩ := List.mem_filter.1 hid
    rw [Bool.and_eq_true, Bool.not_eq_true'] at hlive
    obtain ⟨c, hc⟩ := Option.isSome_iff_exists.1 hlive.1
    exact ⟨id, List.mem_range.1 hlt, c, hc, hlive.2, hd⟩
  · rintro ⟨id, hlt, c, hc, hdead, hd⟩
    refine ⟨id, List.mem_filter.2 ⟨List.mem_range.2 hlt, ?_⟩, hd⟩
    rw [Bool.and_eq_true, Bool.not_eq_true']
    exact ⟨isLive_of_conns hc, hdead⟩

/-! ## Whole runs -/

/-- What a run keeps. -/
structure Watched (r : Clocked) : Prop where
  ticking : Ticking r.state.net r.times
  idle : r.TimeoutsHitIdle

theorem watched_step {cfg : Config} {r r' : Clocked} {e : Event} (h : Watched r)
    (hanswered : AnsweredInTime r e) (hstep : step cfg r e = some r') : Watched r' := by
  obtain ⟨t, ht, rfl⟩ := Option.map_eq_some_iff.1 hstep
  refine ⟨ticking_step h.ticking ht, ?_⟩
  intro d hd
  rcases List.mem_append.1 hd with hd | hd
  · exact h.idle d hd
  · cases e with
    | clearTimeout =>
        cases ht
        obtain ⟨id, -, c, hc, hdead, rfl⟩ := (mem_clearedBy rfl).1 hd
        obtain ⟨hslot, htimeout⟩ := (clearTimeout_deletes hc).1 hdead
        obtain ⟨hshort, hpending, hlate⟩ := isTimeout_iff.1 htimeout
        apply idle_record h.ticking hc htimeout
        intro hwaits
        have hintime := hanswered _ hslot id rfl c hc hshort hpending hwaits
        rw [h.ticking.deadline id c hc hshort] at hlate
        exact Nat.not_lt.2 hintime hlate
    | _ => cases hd

/-- A step that does not answer in time. -/
theorem not_timeoutsHitIdle_step {cfg : Config} {r r' : Clocked} {e : Event} (h : Watched r)
    (hanswered : ¬ AnsweredInTime r e) (hstep : step cfg r e = some r') :
    ¬ r'.TimeoutsHitIdle := by
  obtain ⟨t, ht, rfl⟩ := Option.map_eq_some_iff.1 hstep
  cases e with
  | clearTimeout =>
      cases ht
      intro hidle
      apply hanswered
      rintro slot hslot id hid c hc hshort hpending hwaits
      cases hid
      by_contra hlate
      have htimeout : c.isTimeout r.state.net.now = true := by
        refine isTimeout_iff.2 ⟨hshort, hpending, ?_⟩
        rw [h.ticking.deadline id c hc hshort]
        exact Nat.not_le.1 hlate
      have hdead := (clearTimeout_deletes hc).2 ⟨hslot, htimeout⟩
      apply not_idle_record hwaits
      apply hidle
      exact List.mem_append_right _
        ((mem_clearedBy rfl).2 ⟨id, h.ticking.conn_lt id c hc, c, hc, hdead, rfl⟩)
  | _ => exact absurd trivial hanswered

/-- **`ClearTimeout` deletes idle connections only**, in all states of a run,
exactly when no request waits for longer than the timeout while it runs. -/
theorem timeoutsHitIdle_iff (cfg : Config) (events : List Event) :
    (∀ r ∈ trace (step cfg) (init cfg) events, r.TimeoutsHitIdle) ↔
      Along (step cfg) AnsweredInTime (init cfg) events := by
  apply trace_iff_along (I := Watched)
  · intro r h
    exact h.idle
  · intro r e r' h hanswered hstep
    exact watched_step h hanswered hstep
  · intro r e r' h hanswered hstep
    exact not_timeoutsHitIdle_step h hanswered hstep
  · exact ⟨Ticking.init cfg, fun d hd => by cases hd⟩

/-- A whole request comes at once, and a worker takes 10001 ms for it. -/
def slowRun : List Event :=
  [.accept 7 (lit "10.0.0.1") 4000,
    .readEvent 0 [ConnectionProfile.getRequest],
    .take, .check 0, .tick 10001, .clearTimeout]

theorem not_timeoutsHitIdle_slowRun :
    ¬ ∀ r ∈ trace (step State.sampleConfig) (init State.sampleConfig) slowRun,
      r.TimeoutsHitIdle := by
  have hrun : ∃ r ∈ run (step State.sampleConfig) (init State.sampleConfig) slowRun,
      r.cleared = [⟨10001, 0, [⟨0, none⟩]⟩] := by
    decide +kernel
  obtain ⟨r, hr, hcleared⟩ := hrun
  intro hall
  have hidle := hall r (run_mem_trace hr) ⟨10001, 0, [⟨0, none⟩]⟩ (by rw [hcleared]; simp)
  exact hidle.served ⟨0, none⟩ (by simp) rfl

/-- A connection that is answered at once and then says nothing is deleted
10001 ms later. -/
example :
    Along (step State.sampleConfig) AnsweredInTime (init State.sampleConfig)
        (State.plainRun ++ [.tick 10000, .clearTimeout, .tick 1, .clearTimeout]) ∧
      ∃ r ∈ run (step State.sampleConfig) (init State.sampleConfig)
        (State.plainRun ++ [.tick 10000, .clearTimeout, .tick 1, .clearTimeout]),
        r.cleared = [⟨10001, 0, [⟨0, some 0⟩]⟩] := by
  decide +kernel

end Clocked

end Unixtar.WebServer
