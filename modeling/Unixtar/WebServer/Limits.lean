import Unixtar.Lib.Simulation
import Unixtar.WebServer.Peers

/-!
# Limits

Whatever comes in and in whatever order the threads act, a network thread keeps
the number of its clients' connections and the length of its two queues within
bounds.  `CurrConnectionCnt` counts slot 0, which never holds a connection, so
that the limit on connections is never reached.

The connections of heartbeats come on top: `RegisterConnection` alone asks for
the limit.  They take up room under it all the same.

## Main result

* `limited_run` — the bounds, behind every run of a thread in its event loop.
-/

namespace Unixtar

namespace ConnectionManager

/-- How many slots of the pool hold a connection. -/
def inUse (m : ConnectionManager) : Nat := m.pool.countP Option.isSome

/-- A slot with the connection of a client. -/
def isClient (m : ConnectionManager) : Option ConnId → Bool
  | some id => (m.conns id).any fun c => c.type = .kAcceptFrom
  | none => false

/-- How many slots of the pool hold the connection of a client. -/
def clientCnt (m : ConnectionManager) : Nat := m.pool.countP m.isClient

variable {m m' : ConnectionManager}

theorem clientCnt_le_inUse (m : ConnectionManager) : m.clientCnt ≤ m.inUse := by
  refine List.countP_mono_left fun slot _ hclient => ?_
  cases slot with
  | none => cases hclient
  | some id => rfl

/-- No connection becomes one of a client. -/
theorem isClient_mono
    (h : ∀ id d, m'.conns id = some d → ∃ c, m.conns id = some c ∧ d.type = c.type)
    {slot : Option ConnId} (hslot : m'.isClient slot = true) : m.isClient slot = true := by
  cases slot with
  | none => cases hslot
  | some id =>
      obtain ⟨d, hd, htype⟩ := (Option.any_eq_true _ _).1 hslot
      obtain ⟨c, hc, heq⟩ := h id d hd
      refine (Option.any_eq_true _ _).2 ⟨c, hc, ?_⟩
      rwa [← heq]

theorem clientCnt_mono
    (h : ∀ id d, m'.conns id = some d → ∃ c, m.conns id = some c ∧ d.type = c.type) :
    m.pool.countP m'.isClient ≤ m.clientCnt :=
  List.countP_mono_left fun _ _ => isClient_mono h

/-! ## The pool -/

/-- A slot that held a connection is emptied. -/
theorem inUse_release {slot : Nat} {id : ConnId} (hslot : m.pool[slot]? = some (some id))
    (uid : Nat) : (m.release slot uid id).inUse + 1 = m.inUse := by
  obtain ⟨hlt, hat⟩ := List.getElem?_eq_some_iff.1 hslot
  have hpos : 0 < m.pool.countP Option.isSome :=
    List.countP_pos_iff.2 ⟨some id, hat ▸ List.getElem_mem hlt, rfl⟩
  unfold inUse
  show (m.pool.set slot none).countP Option.isSome + 1 = _
  rw [List.countP_set hlt, hat]
  simp only [Option.isSome_some, Option.isSome_none, if_true]
  simp
  omega

theorem clientCnt_release {slot : Nat} {id : ConnId} (hslot : m.pool[slot]? = some (some id))
    (uid : Nat) : (m.release slot uid id).clientCnt ≤ m.clientCnt := by
  obtain ⟨hlt, -⟩ := List.getElem?_eq_some_iff.1 hslot
  calc
    (m.release slot uid id).clientCnt
        ≤ m.pool.countP (m.release slot uid id).isClient := by
          unfold clientCnt
          show (m.pool.set slot none).countP (m.release slot uid id).isClient ≤ _
          rw [List.countP_set hlt]
          have hnone : (m.release slot uid id).isClient none = false := rfl
          rw [hnone]
          simp
    _ ≤ m.clientCnt := clientCnt_mono fun id' d hd => ⟨d, (conns_of_release hd).2, rfl⟩

/-- New slots are free places. -/
theorem room_checkCapacity (v : VectorImpl)
    (h : m.freePlaces.length + 1 + m.inUse ≤ m.capacity) :
    (m.checkCapacity v).freePlaces.length + 1 + (m.checkCapacity v).inUse ≤
      (m.checkCapacity v).capacity := by
  unfold checkCapacity
  split
  · have hle := v.le_resize m.capacity m.pool.length (m.capacity + kEnlargeUnit)
    have hpool : (m.pool.take (m.capacity + kEnlargeUnit) ++ List.replicate
        (m.capacity + kEnlargeUnit - m.pool.length) none).countP Option.isSome ≤
          m.pool.countP Option.isSome := by
      rw [List.countP_append, List.countP_replicate]
      simpa using (List.take_sublist _ _).countP_le
    unfold inUse at h ⊢
    simp only [List.length_map, List.length_range']
    omega
  · exact h

/-- They hold nothing. -/
theorem countP_checkCapacity (v : VectorImpl) (m : ConnectionManager) {p : Option ConnId → Bool}
    (hp : p none = false) : (m.checkCapacity v).pool.countP p ≤ m.pool.countP p := by
  unfold checkCapacity
  split
  · rw [List.countP_append, List.countP_replicate, hp]
    simpa using (List.take_sublist _ _).countP_le
  · exact Nat.le_refl _

theorem mem_checkCapacity {v : VectorImpl} {id : ConnId}
    (h : some id ∈ (m.checkCapacity v).pool) : some id ∈ m.pool := by
  unfold checkCapacity at h
  split at h
  · rcases List.mem_append.1 h with htake | hnew
    · exact List.mem_of_mem_take htake
    · exact absurd (List.eq_of_mem_replicate hnew) (by simp)
  · exact h

/-- A free place comes into use. -/
theorem room_addConnection {v : VectorImpl} {id : ConnId} {c : ConnectionProfile}
    (h : m.freePlaces.length + 1 + m.inUse ≤ m.capacity)
    (hadd : m.addConnection v id c = some m') :
    m'.freePlaces.length + 1 + m'.inUse ≤ m'.capacity := by
  have hroom := room_checkCapacity v h
  obtain ⟨uid, rest, hfree, hlt, rfl⟩ := addConnection_eq hadd
  have hmore : ((m.checkCapacity v).pool.set uid (some id)).countP Option.isSome ≤
      (m.checkCapacity v).inUse + 1 := by
    unfold inUse
    rw [List.countP_set hlt]
    simp
  rw [hfree, List.length_cons] at hroom
  show rest.length + 1 + ((m.checkCapacity v).pool.set uid (some id)).countP Option.isSome ≤
    (m.checkCapacity v).capacity
  omega

/-- One client more at most, and none if the object is a heartbeat's. -/
theorem clientCnt_addConnection {v : VectorImpl} {id : ConnId} {c : ConnectionProfile}
    (hnew : ∀ id', some id' ∈ m.pool → id' ≠ id) (hadd : m.addConnection v id c = some m') :
    m'.clientCnt ≤ m.clientCnt + if c.type = .kAcceptFrom then 1 else 0 := by
  obtain ⟨uid, rest, hfree, hlt, rfl⟩ := addConnection_eq hadd
  set conns := Function.update m.conns id (some { c with uid }) with hconns
  set after : ConnectionManager := { m.checkCapacity v with
    pool := (m.checkCapacity v).pool.set uid (some id), freePlaces := rest, conns } with hafter
  have hclient : after.isClient (some id) = decide (c.type = .kAcceptFrom) := by
    show (conns id).any _ = _
    rw [hconns, Function.update_self, Option.any_some]
  have hothers : m.pool.countP after.isClient ≤ m.clientCnt := by
    refine List.countP_mono_left fun slot hslot hslotClient => ?_
    cases slot with
    | none => cases hslotClient
    | some id' =>
        replace hslotClient : (conns id').any _ = true := hslotClient
        rw [hconns, Function.update_of_ne (hnew id' hslot)] at hslotClient
        exact hslotClient
  calc
    after.clientCnt
        ≤ (m.checkCapacity v).pool.countP after.isClient +
            if c.type = .kAcceptFrom then 1 else 0 := by
          unfold clientCnt
          show ((m.checkCapacity v).pool.set uid (some id)).countP after.isClient ≤ _
          rw [List.countP_set hlt, hclient]
          simp only [decide_eq_true_eq]
          omega
    _ ≤ m.pool.countP after.isClient + if c.type = .kAcceptFrom then 1 else 0 :=
          Nat.add_le_add_right (countP_checkCapacity v m rfl) _
    _ ≤ m.clientCnt + if c.type = .kAcceptFrom then 1 else 0 := Nat.add_le_add_right hothers _

end ConnectionManager

namespace WebServer

open Unixtar.Lib NetState NetLoop ConnectionManager

/-! ## The connections -/

/-- The free places and the slots in use fit beside slot 0, the slots hold
connections that have been opened, and the limit on clients is kept. -/
structure Limited (maxConnections : Nat) (s : NetState) : Prop where
  room : s.mgr.freePlaces.length + 1 + s.mgr.inUse ≤ s.mgr.capacity
  opened : ∀ id, some id ∈ s.mgr.pool → id < s.nextConn
  below : s.mgr.clientCnt + 1 ≤ max 1 maxConnections

variable {maxConnections : Nat} {s t : NetState}

theorem limited_init (maxConnections : Nat) (v : VectorImpl) :
    Limited maxConnections (NetState.init v) where
  room := by
    have hle := v.le_reserve kReserveSize
    have hnone : (NetState.init v).mgr.inUse = 0 := rfl
    have hfree : (NetState.init v).mgr.freePlaces.length = 127 := rfl
    rw [hnone, hfree]
    exact hle
  opened id hid := absurd (List.eq_of_mem_replicate hid) (by simp)
  below := Nat.le_max_left _ _

theorem Limited.samePeers (h : Limited maxConnections s) (hpeers : SamePeers s t) :
    Limited maxConnections t := by
  have hsame := hpeers.undeleted.same
  refine ⟨?_, ?_, ?_⟩
  · unfold inUse
    rw [hsame.pool, hsame.capacity, hsame.freePlaces]
    exact h.room
  · rw [hsame.pool, hpeers.undeleted.nextConn]
    exact h.opened
  · refine Nat.le_trans (Nat.succ_le_succ ?_) h.below
    unfold clientCnt
    rw [hsame.pool]
    refine clientCnt_mono fun id d hd => ?_
    obtain ⟨c, hc, htype, -⟩ := hpeers.conns id d hd
    exact ⟨c, hc, htype⟩

/-- A slot in use becomes a free place. -/
theorem Limited.destroy (h : Limited maxConnections s) {slot uid : Nat} {id : ConnId}
    (c : ConnectionProfile) (hslot : s.mgr.pool[slot]? = some (some id)) :
    Limited maxConnections (s.destroy slot uid id c) := by
  have hcount := inUse_release hslot uid
  have hclients := clientCnt_release hslot uid
  have hroom := h.room
  have hbelow := h.below
  refine ⟨?_, ?_, ?_⟩
  · show (uid :: s.mgr.freePlaces).length + 1 + (s.mgr.release slot uid id).inUse ≤ s.mgr.capacity
    rw [List.length_cons]
    omega
  · intro id' hid'
    rcases List.mem_or_eq_of_mem_set hid' with hold | hnone
    · exact h.opened id' hold
    · cases hnone
  · show (s.mgr.release slot uid id).clientCnt + 1 ≤ _
    omega

theorem Limited.delConnection (h : Limited maxConnections s) {uid : Nat}
    (hdel : s.delConnection uid = some t) : Limited maxConnections t := by
  obtain ⟨id, c, hget, -, rfl⟩ := delConnection_cases hdel
  have hslot : s.mgr.pool[uid]? = some (some id) := by
    unfold ConnectionManager.getConnection at hget
    split at hget
    · exact hget
    · cases hget
  exact h.destroy c hslot

theorem Limited.clearTimeout (h : Limited maxConnections s) :
    Limited maxConnections s.clearTimeout := by
  refine NetState.clearTimeout_keeps (fun t slot ht => ?_) h
  unfold NetState.clearSlot
  split
  · rename_i id c hexpired
    exact ht.destroy c (expired_iff.1 hexpired).1
  · exact ht

/-- A connection of a client needs room below the limit. -/
theorem Limited.addConnection (h : Limited maxConnections s) {v : VectorImpl} {id : ConnId}
    {c : ConnectionProfile}
    (hlimit : c.type = .kAcceptFrom → s.mgr.currConnectionCnt < maxConnections)
    (hadd : s.addConnection v c = some (t, id)) : Limited maxConnections t := by
  obtain ⟨mgr, hmgr, heq⟩ := Option.map_eq_some_iff.1 hadd
  cases heq
  have hnew : ∀ id', some id' ∈ s.mgr.pool → id' ≠ s.nextConn :=
    fun id' hid' => Nat.ne_of_lt (h.opened id' hid')
  refine ⟨room_addConnection h.room hmgr, ?_, ?_⟩
  · intro id' hid'
    show id' < s.nextConn + 1
    obtain ⟨uid, rest, -, -, rfl⟩ := addConnection_eq hmgr
    rcases List.mem_or_eq_of_mem_set hid' with hold | hself
    · exact Nat.lt_succ_of_lt (h.opened id' (mem_checkCapacity hold))
    · cases hself
      exact Nat.lt_succ_self _
  · have hmore := clientCnt_addConnection hnew hmgr
    have hroom := h.room
    have hbelow := h.below
    have hclients := clientCnt_le_inUse s.mgr
    unfold currConnectionCnt at hlimit
    show mgr.clientCnt + 1 ≤ max 1 maxConnections
    split_ifs at hmore with hclient
    · have hroomLeft := hlimit hclient
      omega
    · omega

/-- **The clients** of a network thread, behind every move. -/
theorem Limited.netMove {cfg : Config} {f : Move} (h : Limited cfg.maxConnections s)
    (hmove : NetMove cfg f s t) : Limited cfg.maxConnections t := by
  cases hmove with
  | kept t hpeers => exact h.samePeers hpeers
  | deleted u t uid hpeers hdel => exact (h.samePeers hpeers).delConnection hdel
  | cleared => exact h.clearTimeout
  | accepted fd ip port t id _ hlimit hadd => exact h.addConnection (fun _ => hlimit) hadd
  | beaten fd ip port request w u t id _ hadd hpeers =>
      have hu : Limited cfg.maxConnections u :=
        h.addConnection (c := .init .kConnectTo fd ip port s.now) (fun htype => by cases htype) hadd
      exact hu.samePeers hpeers

/-! ## The queues -/

/-- `push_back` keeps a queue of `ThreadSafeDeque` within its bound. -/
theorem pushBack_bounded {α : Type} {queue : List α} (h : queue.length ≤ kMaxQueueSize + 1)
    (v : α) : (pushBack queue v).length ≤ kMaxQueueSize + 1 := by
  unfold pushBack
  split
  · exact h
  · rw [List.length_append, List.length_singleton]
    omega

/-- The bounds of the two queues. -/
structure State.Queues (cfg : Config) (s : State) : Prop where
  recv : s.recvQueue.length ≤ cfg.maxBacklog
  send : s.sendQueue.length ≤ kMaxQueueSize + 1

namespace State.Queues

variable {cfg : Config} {s t : State}

theorem congr (h : s.Queues cfg) (hrecv : t.recvQueue = s.recvQueue)
    (hsend : t.sendQueue = s.sendQueue) : t.Queues cfg :=
  ⟨hrecv ▸ h.recv, hsend ▸ h.send⟩

/-- A full `recv_queue_` is refused. -/
theorem readEvent (h : s.Queues cfg) {id : ConnId} {outs : List ReadOutcome}
    (hstep : s.onReadEvent cfg id outs = some t) : t.Queues cfg := by
  unfold State.onReadEvent at hstep
  split at hstep
  · rename_i net ctx hread
    unfold State.handleApplicationPacket at hstep
    split at hstep
    · obtain ⟨net', hdel, rfl⟩ := Option.map_eq_some_iff.1 hstep
      exact h.congr rfl rfl
    · rename_i hrefuses
      cases hstep
      refine ⟨?_, h.send⟩
      have hroom : s.recvQueue.length < cfg.maxBacklog := by
        by_contra hfull
        apply hrefuses
        unfold State.refuses State.isWorkerFullyLoad
        rw [if_pos (decide_eq_true (Nat.le_of_not_lt hfull))]
      show (pushBack s.recvQueue ctx).length ≤ cfg.maxBacklog
      unfold pushBack
      split
      · exact h.recv
      · rw [List.length_append, List.length_singleton]
        exact hroom
  · cases hstep
    exact h.congr rfl rfl
  · cases hstep
    exact h.congr rfl rfl
  · cases hstep
  · cases hstep

theorem take (h : s.Queues cfg) (hstep : s.takeTask = some t) : t.Queues cfg := by
  unfold State.takeTask at hstep
  split at hstep
  · cases hstep
  · rename_i ctx rest hqueue
    cases hstep
    have hrecv := h.recv
    rw [hqueue, List.length_cons] at hrecv
    exact ⟨Nat.le_of_succ_le hrecv, h.send⟩

theorem check (h : s.Queues cfg) {i : Nat} (hstep : s.checkTask cfg i = some t) :
    t.Queues cfg := by
  unfold State.checkTask at hstep
  split at hstep
  · cases hstep
    exact h.congr rfl rfl
  · cases hstep

theorem giveBack (h : s.Queues cfg) {i : Nat} (hstep : s.giveBackTask i = some t) :
    t.Queues cfg := by
  unfold State.giveBackTask at hstep
  split at hstep
  · split at hstep
    · cases hstep
    · cases hstep
      exact ⟨h.recv, pushBack_bounded h.send _⟩
  · cases hstep

theorem handleSend (h : s.Queues cfg) {w : WriteOutcome} (hstep : s.handleSend w = some t) :
    t.Queues cfg := by
  unfold State.handleSend at hstep
  split at hstep
  · cases hstep
  · rename_i x rest hqueue
    obtain ⟨⟨net, done⟩, hnet, rfl⟩ := Option.map_eq_some_iff.1 hstep
    have hsend := h.send
    rw [hqueue, List.length_cons] at hsend
    exact ⟨h.recv, Nat.le_of_succ_le hsend⟩

/-- Every other event leaves the queues alone. -/
theorem step (h : s.Queues cfg) {e : Event} (hstep : State.step cfg s e = some t) :
    t.Queues cfg := by
  cases e with
  | readEvent id outs => exact h.readEvent hstep
  | take => exact h.take hstep
  | check i => exact h.check hstep
  | giveBack i => exact h.giveBack hstep
  | handleSend w => exact h.handleSend hstep
  | handle i resp =>
      obtain ⟨_, _, -, hrecv, hsend, -⟩ := State.handleTask_eq hstep
      exact h.congr hrecv hsend
  | clearTimeout =>
      cases hstep
      exact h.congr rfl rfl
  | tick ms =>
      cases hstep
      exact h.congr rfl rfl
  | accept fd ip port =>
      obtain ⟨net, -, rfl⟩ := Option.map_eq_some_iff.1 hstep
      exact h.congr rfl rfl
  | writeEvent id ws =>
      obtain ⟨net, -, rfl⟩ := Option.map_eq_some_iff.1 hstep
      exact h.congr rfl rfl
  | errEvent id =>
      obtain ⟨net, -, rfl⟩ := Option.map_eq_some_iff.1 hstep
      exact h.congr rfl rfl

theorem move (h : s.Queues cfg) {f : Move} (hmove : State.move cfg s f = some t) :
    t.Queues cfg := by
  cases f with
  | event e => exact h.step hmove
  | heartbeat fd ip port request w =>
      obtain ⟨net, -, rfl⟩ := Option.map_eq_some_iff.1 hmove
      exact h.congr rfl rfl

end State.Queues

/-! ## One network thread -/

/-- The bounds of a network thread and its workers. -/
structure State.Limited (cfg : Config) (s : State) : Prop where
  clients : WebServer.Limited cfg.maxConnections s.net
  queues : s.Queues cfg

/-- **The bounds** hold behind every run of the loop and the threads beside
it. -/
theorem limited_run {cfg : Config} {events : List (LoopEvent (List ReadOutcome) OtherEvent)}
    {l : NetLoop ServerThread}
    (hrun : run (NetLoop.step (netThread cfg)) (launch (ServerThread.init cfg)) events = some l) :
    l.thread.server.Limited cfg := by
  have hinit : (launch (ServerThread.init cfg)).thread.server = State.init cfg := rfl
  obtain ⟨fs, t, hfs, hlt⟩ := (simulates cfg).run hinit hrun
  have hstart : (State.init cfg).Limited cfg :=
    ⟨limited_init _ _, ⟨Nat.zero_le _, Nat.zero_le _⟩⟩
  have htrace : ∀ s ∈ trace (State.move cfg) (State.init cfg) fs, s.Limited cfg :=
    trace_invariant_of_forall (fun _ _ _ h hmove =>
      ⟨h.clients.netMove (netMove_move hmove), h.queues.move hmove⟩) hstart
  rw [hlt]
  exact htrace t (run_mem_trace hfs)

end WebServer

end Unixtar
