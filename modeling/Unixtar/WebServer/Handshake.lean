import Unixtar.WebServer.ReturnPackets

/-!
# Data before the handshake

`AllocNewPacket` marks the packet of every later frame as handshaken, on
the network thread and at once.  `DoHandShake` runs on a worker, later, and
may fail.  So a worker may treat a frame as data although the handshake of
its connection has failed, has been answered by `HandleOverload`, has been
dropped by `recv_queue_`, or is still with another worker.

## Main results

* `Accounts` — every packet that `recv_queue_` has accepted is waiting,
  with a worker, or handled once.
* `Ordered` — behind every frame stands an upgrade packet with a key, and no
  upgrade packet has fallen into `HandleOverload`.
* `handshakeFirst_of_inOrder` — data comes behind a handshake in every run whose
  upgrade requests carry keys and reach their workers, and whose frames are
  handled behind them.
-/

namespace Unixtar.WebServer

open Unixtar.Lib Unixtar.Http NetState

/-! ## The answer to an upgrade packet -/

/-- An upgrade packet with a `Sec-WebSocket-Key`. -/
def carriesKey : ApplicationPacket → Bool
  | .webSocket p =>
      !p.isHandShaken && (HeaderField.get p.handshakeReq HeaderField.kSecWebSocketKey).isSome
  | _ => false

/-- The answer to the packet is a 101 with the accept fields. -/
def Switches (cfg : Config) (packet : ApplicationPacket) : Prop :=
  ∃ p secKey, packet = .webSocket p ∧ ∀ visit, State.handleWebSocket cfg visit p =
    (.handshake true,
      .replace (Response.pack .kHTTP_1_1 101 StatusLine.kStatusDescSwitchProtocol
        (Ws.WebSocketPacket.handshakeFields
          (cfg.digest (secKey ++ Ws.WebSocketPacket.kHandShakeMagicKey))).entries none),
      visit)

namespace State

theorem switches_of_carriesKey (cfg : Config) {packet : ApplicationPacket}
    (h : carriesKey packet = true) : Switches cfg packet := by
  cases packet with
  | request line headers body => cases h
  | response line headers body => cases h
  | webSocket p =>
      obtain ⟨hshaken, hkey⟩ := Bool.and_eq_true_iff.1 h
      rw [Bool.not_eq_true'] at hshaken
      obtain ⟨secKey, hsec⟩ := Option.isSome_iff_exists.1 hkey
      refine ⟨p, secKey, rfl, ?_⟩
      intro visit
      unfold handleWebSocket Ws.WebSocketPacket.doHandShake
      rw [hshaken, hsec]
      rfl

theorem expected_eq_handshake_true_iff (packet : ApplicationPacket) :
    expected packet = .handshake true ↔ carriesKey packet = true := by
  cases packet with
  | request line headers body => simp [expected, carriesKey]
  | response line headers body => simp [expected, carriesKey]
  | webSocket p =>
      unfold expected carriesKey
      cases hshaken : p.isHandShaken <;> simp [hshaken]

theorem expected_eq_data_iff (packet : ApplicationPacket) :
    expected packet = .data ↔ isData packet = true := by
  cases packet with
  | request line headers body => simp [expected, isData]
  | response line headers body => simp [expected, isData]
  | webSocket p =>
      unfold expected isData
      cases hshaken : p.isHandShaken <;> simp [hshaken]

theorem expected_ne_overload (packet : ApplicationPacket) : expected packet ≠ .overload := by
  cases packet with
  | request line headers body => simp [expected]
  | response line headers body => simp [expected]
  | webSocket p =>
      unfold expected
      cases hshaken : p.isHandShaken <;> simp [hshaken]

theorem isUpgrade_of_expected {packet : ApplicationPacket} {success : Bool}
    (h : expected packet = .handshake success) : isUpgrade packet = true := by
  cases packet with
  | request line headers body => cases h
  | response line headers body => cases h
  | webSocket p =>
      unfold expected at h
      show (!p.isHandShaken) = true
      cases hshaken : p.isHandShaken with
      | true => simp [hshaken] at h
      | false => rfl

/-! ## The property and the condition -/

/-- Every packet treated as data stands behind a successful handshake of its
connection. -/
def BehindHandshake (cfg : Config) (log : List (RecvContext × Handling)) : Prop :=
  ∀ before ctx after, log = before ++ (ctx, .data) :: after →
    ∃ u, (u, .handshake true) ∈ before ∧ u.conn = ctx.conn ∧ Switches cfg u.applicationPacket

/-- Data stands behind a successful handshake of its connection, and no
connection whose handshake has failed is given data. -/
structure HandshakeFirst (cfg : Config) (log : List (RecvContext × Handling)) : Prop where
  behind : BehindHandshake cfg log
  failed : ∀ u ctx, (u, .handshake false) ∈ log → (ctx, .data) ∈ log → ctx.conn ≠ u.conn

/-- The packets that the workers have not handled yet. -/
def unhandledOf (workers : List Task) : List RecvContext :=
  (workers.filter fun task => task.stage ≠ .handled).map (·.ctx)

/-- The packets that nobody has handled yet. -/
def unhandled (s : State) : List RecvContext := s.recvQueue ++ unhandledOf s.workers

/-- An upgrade request that is passed on carries a key and finds room on
`recv_queue_`; or it is turned away, and its connection deleted. -/
def Welcome (cfg : Config) (s : State) (ctx : RecvContext) : Prop :=
  if refuses (s.isWorkerFullyLoad cfg) ctx.applicationPacket then
    s.net.mgr.getConnection ctx.tcpConnectionUid = some (some ctx.conn)
  else carriesKey ctx.applicationPacket = true ∧ s.recvQueue.length ≤ kMaxQueueSize

instance (cfg : Config) (s : State) (ctx : RecvContext) : Decidable (Welcome cfg s ctx) :=
  inferInstanceAs (Decidable (if refuses (s.isWorkerFullyLoad cfg) ctx.applicationPacket then
    s.net.mgr.getConnection ctx.tcpConnectionUid = some (some ctx.conn)
  else carriesKey ctx.applicationPacket = true ∧ s.recvQueue.length ≤ kMaxQueueSize))

/-- The packet that a read event passes on. -/
def passedOn : ConnectionProfile.ReadEnd → Option RecvContext
  | .dispatched ctx => some ctx
  | _ => none

/-- The condition on a step: on the bytes of an upgrade request and the room for
it, on the load that a worker finds when it has taken one, and on the order in
which the workers come to the packets of a connection. -/
def InOrder (cfg : Config) (s : State) : Event → Prop
  | .readEvent id outs => ∀ ev ∈ s.net.onReadEvent upgradeApplicationProtocol id outs,
      ∀ ctx ∈ passedOn ev.2, isUpgrade ctx.applicationPacket = true → Welcome cfg s ctx
  | .check i => ∀ task ∈ s.workers[i]?, isUpgrade task.ctx.applicationPacket = true →
      s.isWorkerOverload cfg = false
  | .handle i _ => ∀ task ∈ s.workers[i]?, task.stage = .decided false →
      isData task.ctx.applicationPacket = true →
      ∀ u ∈ s.unhandled, isUpgrade u.applicationPacket = true → u.conn ≠ task.ctx.conn
  | _ => True

instance (cfg : Config) (s : State) : ∀ e, Decidable (InOrder cfg s e)
  | .readEvent id outs => inferInstanceAs (Decidable (∀ ev ∈
      s.net.onReadEvent upgradeApplicationProtocol id outs, ∀ ctx ∈ passedOn ev.2,
        isUpgrade ctx.applicationPacket = true → Welcome cfg s ctx))
  | .check i => inferInstanceAs (Decidable (∀ task ∈ s.workers[i]?,
      isUpgrade task.ctx.applicationPacket = true → s.isWorkerOverload cfg = false))
  | .handle i _ => inferInstanceAs (Decidable (∀ task ∈ s.workers[i]?,
      task.stage = .decided false → isData task.ctx.applicationPacket = true →
        ∀ u ∈ s.unhandled, isUpgrade u.applicationPacket = true → u.conn ≠ task.ctx.conn))
  | .accept _ _ _ => isTrue trivial
  | .writeEvent _ _ => isTrue trivial
  | .errEvent _ => isTrue trivial
  | .clearTimeout => isTrue trivial
  | .tick _ => isTrue trivial
  | .take => isTrue trivial
  | .giveBack _ => isTrue trivial
  | .handleSend _ => isTrue trivial

/-! ## Every accepted packet is accounted for -/

/-- The packets accepted are those still to be handled and those handled,
each once, and a worker that is not overloaded does what it should. -/
structure Accounts (s : State) : Prop where
  perm_queued : (s.unhandled ++ s.handled.map Prod.fst).Perm s.queued
  nodup : s.queued.Nodup
  returns_lt : ∀ ctx ∈ s.queued, ∀ x ∈ ctx.returnPacket, x < s.net.nextCtx
  right : ∀ e ∈ s.handled, e.2 = .overload ∨ e.2 = expected e.1.applicationPacket

theorem accounts_init (cfg : Config) : (init cfg).Accounts where
  perm_queued := List.Perm.refl _
  nodup := List.nodup_nil
  returns_lt ctx hctx := by cases hctx
  right e he := by cases he

theorem Accounts.mem_queued {s : State} {e : RecvContext × Handling} (h : s.Accounts)
    (he : e ∈ s.handled) : e.1 ∈ s.queued := by
  apply h.perm_queued.subset
  exact List.mem_append_right _ (List.mem_map_of_mem he)

theorem split_worker {workers : List Task} {i : Nat} {task : Task}
    (h : workers[i]? = some task) :
    ∃ before after, workers = before ++ task :: after ∧
      (∀ task', workers.set i task' = before ++ task' :: after) ∧
      workers.eraseIdx i = before ++ after := by
  obtain ⟨hlt, hget⟩ := List.getElem?_eq_some_iff.1 h
  refine ⟨workers.take i, workers.drop (i + 1), ?_, ?_, List.eraseIdx_eq_take_drop_succ _ _⟩
  · rw [← hget, List.getElem_cons_drop, List.take_append_drop]
  · intro task'
    rw [List.set_eq_take_append_cons_drop, if_pos hlt]

theorem unhandledOf_append (before after : List Task) :
    unhandledOf (before ++ after) = unhandledOf before ++ unhandledOf after := by
  unfold unhandledOf
  rw [List.filter_append, List.map_append]

theorem unhandledOf_cons_of_ne {task : Task} (h : task.stage ≠ .handled) (after : List Task) :
    unhandledOf (task :: after) = task.ctx :: unhandledOf after := by
  unfold unhandledOf
  rw [List.filter_cons_of_pos (by simpa using h), List.map_cons]

theorem unhandledOf_cons_handled (ctx : RecvContext) (after : List Task) :
    unhandledOf (⟨ctx, .handled⟩ :: after) = unhandledOf after := by
  unfold unhandledOf
  rw [List.filter_cons_of_neg (by simp)]

/-! ## One upgrade for each connection -/

/-- The packet that a frame parser fills counts as handshaken. -/
def marked : ApplicationProtocolParser → Bool
  | .webSocket q => q.packet.isHandShaken
  | _ => true

theorem marked_doParse (p : ApplicationProtocolParser) (buf : Bytes) (h : marked p = true) :
    marked (p.doParse buf).1 = true := by
  cases p with
  | request q => rfl
  | response q => rfl
  | webSocket q => exact (Ws.WebSocketParser.doParse_isHandShaken buf q).trans h

theorem isLongLink_doParse (p : ApplicationProtocolParser) (buf : Bytes) :
    (p.doParse buf).1.isLongLink = p.isLongLink := by
  cases p <;> rfl

/-- A connection whose frames count as handshaken, if it reads any. -/
structure FramesMarked (c : ConnectionProfile) : Prop where
  configured : Configured c
  marked : ∀ p ∈ c.parser, marked p = true

/-- A connection that reads frames, if it reads anything. -/
def ReadsFrames (c : ConnectionProfile) : Prop := ∀ p ∈ c.parser, p.isLongLink = true

/-- A connection that has passed an upgrade packet on reads frames. -/
structure Upgrades (net : NetState) (queued : List RecvContext) : Prop where
  conns : ∀ id c, net.mgr.conns id = some c → id < net.nextConn ∧ FramesMarked c
  upgraded : ∀ u ∈ queued, isUpgrade u.applicationPacket = true → u.conn < net.nextConn ∧
    ∀ c, net.mgr.conns u.conn = some c → ReadsFrames c
  unique : ∀ u ∈ queued, ∀ v ∈ queued, isUpgrade u.applicationPacket = true →
    isUpgrade v.applicationPacket = true → u.conn = v.conn → u = v

theorem upgrades_init (cfg : Config) : Upgrades (init cfg).net (init cfg).queued where
  conns id c h := by cases h
  upgraded u hu := by cases hu
  unique u hu := by cases hu

/-- Sending and deleting. -/
theorem Upgrades.ofFrame {s t : NetState} {queued : List RecvContext} (h : Upgrades s queued)
    (hframe : s.Frame t) : Upgrades t queued where
  conns := by
    intro id d hd
    obtain ⟨c, _, _, _, hc, rfl⟩ := hframe.conns id d hd
    obtain ⟨hlt, hclient⟩ := h.conns id c hc
    rw [hframe.nextConn]
    exact ⟨hlt, hclient.configured, hclient.marked⟩
  upgraded := by
    intro u hu hup
    obtain ⟨hlt, hlong⟩ := h.upgraded u hu hup
    rw [hframe.nextConn]
    refine ⟨hlt, ?_⟩
    intro d hd
    obtain ⟨c, _, _, _, hc, rfl⟩ := hframe.conns u.conn d hd
    exact hlong c hc
  unique := h.unique

/-- The connection `id` goes on as `d`. -/
theorem Upgrades.setConn {s : NetState} {queued : List RecvContext} {id : ConnId}
    {c d : ConnectionProfile} (h : Upgrades s queued) (hc : s.mgr.conns id = some c)
    (hd : FramesMarked d) (hlong : ReadsFrames c → ReadsFrames d) :
    Upgrades (s.setConn id d) queued where
  conns := by
    intro id' e he
    rw [setConn_conns] at he
    by_cases hid : id' = id
    · rw [hid, Function.update_self] at he
      cases he
      rw [hid]
      exact ⟨(h.conns id c hc).1, hd⟩
    · rw [Function.update_of_ne hid] at he
      exact h.conns id' e he
  upgraded := by
    intro u hu hup
    obtain ⟨hlt, hlive⟩ := h.upgraded u hu hup
    refine ⟨hlt, ?_⟩
    intro e he
    rw [setConn_conns] at he
    by_cases hid : u.conn = id
    · rw [hid, Function.update_self] at he
      cases he
      rw [hid] at hlive
      exact hlong (hlive c hc)
    · rw [Function.update_of_ne hid] at he
      exact hlive e he
  unique := h.unique

theorem registerConnection_nextCtx {cfg : Config} {s t : NetState} {fd port : Nat} {ip : Bytes}
    (hnet : s.registerConnection cfg.vector cfg.maxConnections configApplicationLayer fd ip
      port = some t) : t.nextCtx = s.nextCtx := by
  unfold registerConnection at hnet
  split at hnet
  · cases hnet
    rfl
  · obtain ⟨⟨net', id⟩, hadd, rfl⟩ := Option.map_eq_some_iff.1 hnet
    obtain ⟨mgr, -, heq⟩ := Option.map_eq_some_iff.1 hadd
    cases heq
    rfl

/-- A new connection. -/
theorem upgrades_addConnection {v : VectorImpl} {s t : NetState} {queued : List RecvContext}
    {c : ConnectionProfile} {id : ConnId} (h : Upgrades s queued)
    (hmarked : ∀ uid, FramesMarked { c with uid }) (hadd : s.addConnection v c = some (t, id)) :
    Upgrades t queued := by
  obtain ⟨mgr, hmgr, heq⟩ := Option.map_eq_some_iff.1 hadd
  obtain ⟨uid, hconns⟩ := ConnectionManager.addConnection_conns hmgr
  cases heq
  refine ⟨?_, ?_, h.unique⟩
  · intro id d hd
    replace hd : mgr.conns id = some d := hd
    show id < s.nextConn + 1 ∧ _
    rw [hconns] at hd
    by_cases hid : id = s.nextConn
    · rw [hid, Function.update_self] at hd
      cases hd
      rw [hid]
      exact ⟨Nat.lt_succ_self _, hmarked uid⟩
    · rw [Function.update_of_ne hid] at hd
      obtain ⟨hlt, hd'⟩ := h.conns id d hd
      exact ⟨Nat.lt_succ_of_lt hlt, hd'⟩
  · intro u hu hup
    obtain ⟨hlt, hlong⟩ := h.upgraded u hu hup
    refine ⟨Nat.lt_succ_of_lt hlt, ?_⟩
    intro d hd
    replace hd : mgr.conns u.conn = some d := hd
    rw [hconns, Function.update_of_ne (Nat.ne_of_lt hlt)] at hd
    exact hlong d hd

theorem upgrades_accept {cfg : Config} {s t : NetState} {queued : List RecvContext}
    {fd port : Nat} {ip : Bytes} (h : Upgrades s queued)
    (hnet : s.registerConnection cfg.vector cfg.maxConnections configApplicationLayer fd ip
      port = some t) : Upgrades t queued := by
  unfold registerConnection at hnet
  split at hnet
  · cases hnet
    exact h
  · obtain ⟨⟨net', id⟩, hadd, rfl⟩ := Option.map_eq_some_iff.1 hnet
    apply upgrades_addConnection h _ hadd
    intro uid
    refine ⟨Or.inl rfl, ?_⟩
    intro p hp
    cases hp
    rfl

/-- A packet that starts a handshake was a request, and the connection reads
frames behind it. -/
theorem marked_of_passes {p parser : ApplicationProtocolParser} {packet : ApplicationPacket}
    (h : Passes p packet parser) (hmarked : marked p = true) :
    marked parser = true ∧
      (isUpgrade packet = true → p.isLongLink = false ∧ parser.isLongLink = true) := by
  cases h with
  | upgrade q hup => exact ⟨rfl, fun _ => ⟨rfl, rfl⟩⟩
  | frame q =>
      refine ⟨rfl, ?_⟩
      intro hup
      replace hup : (!q.packet.isHandShaken) = true := hup
      replace hmarked : q.packet.isHandShaken = true := hmarked
      rw [hmarked] at hup
      cases hup
  | request q hup => exact ⟨rfl, fun h => by cases h⟩
  | response q => exact ⟨rfl, fun h => by cases h⟩

/-! ## The whole server -/

/-- The records of a server. -/
structure Recorded (s : State) : Prop where
  accounts : s.Accounts
  upgrades : Upgrades s.net s.queued

theorem recorded_init (cfg : Config) : (init cfg).Recorded :=
  ⟨accounts_init cfg, upgrades_init cfg⟩

/-- The network thread goes on with the contexts it has. -/
theorem Recorded.ofNet {s : State} {net : NetState} (h : s.Recorded)
    (hupgrades : Upgrades net s.queued) (hnext : s.net.nextCtx ≤ net.nextCtx) :
    ({ s with net } : State).Recorded where
  accounts :=
    { perm_queued := h.accounts.perm_queued
      nodup := h.accounts.nodup
      returns_lt := fun ctx hctx x hx =>
        Nat.lt_of_lt_of_le (h.accounts.returns_lt ctx hctx x hx) hnext
      right := h.accounts.right }
  upgrades := hupgrades

theorem Recorded.ofFrame {s : State} {net : NetState} (h : s.Recorded)
    (hframe : s.net.Frame net) : ({ s with net } : State).Recorded :=
  h.ofNet (h.upgrades.ofFrame hframe) (Nat.le_of_eq hframe.nextCtx.symm)

/-! ### The workers -/

theorem recorded_take {s t : State} (h : s.Recorded) (hstep : s.takeTask = some t) :
    t.Recorded := by
  unfold takeTask at hstep
  split at hstep
  · cases hstep
  · rename_i ctx rest hqueue
    cases hstep
    refine ⟨⟨List.Perm.trans (List.Perm.append_right _ ?_) h.accounts.perm_queued,
      h.accounts.nodup, h.accounts.returns_lt, h.accounts.right⟩, h.upgrades⟩
    unfold unhandled
    rw [hqueue, unhandledOf_append, ← List.append_assoc]
    exact List.perm_append_singleton ctx _

theorem recorded_check {cfg : Config} {s t : State} {i : Nat} (h : s.Recorded)
    (hstep : s.checkTask cfg i = some t) : t.Recorded := by
  unfold checkTask at hstep
  split at hstep
  · rename_i ctx htask
    cases hstep
    obtain ⟨before, after, hworkers, hset, -⟩ := split_worker htask
    refine ⟨⟨?_, h.accounts.nodup, h.accounts.returns_lt, h.accounts.right⟩, h.upgrades⟩
    have hsame : unhandledOf (s.workers.set i ⟨ctx, .decided (s.isWorkerOverload cfg)⟩) =
        unhandledOf s.workers := by
      rw [hset, hworkers, unhandledOf_append, unhandledOf_append,
        unhandledOf_cons_of_ne (by simp), unhandledOf_cons_of_ne (by simp)]
    unfold unhandled
    rw [hsame]
    exact h.accounts.perm_queued
  · cases hstep

theorem recorded_giveBack {s t : State} {i : Nat} (h : s.Recorded)
    (hstep : s.giveBackTask i = some t) : t.Recorded := by
  unfold giveBackTask at hstep
  split at hstep
  · rename_i ctx htask
    split at hstep
    · cases hstep
    · cases hstep
      obtain ⟨before, after, hworkers, -, herase⟩ := split_worker htask
      refine ⟨⟨?_, h.accounts.nodup, h.accounts.returns_lt, h.accounts.right⟩, h.upgrades⟩
      have hsame : unhandledOf (s.workers.eraseIdx i) = unhandledOf s.workers := by
        rw [herase, hworkers, unhandledOf_append, unhandledOf_append, unhandledOf_cons_handled]
      unfold unhandled
      rw [hsame]
      exact h.accounts.perm_queued
  · cases hstep

/-- What a worker that handles its packet does to the log and to the
queues. -/
theorem handleTask_eq {cfg : Config} {s t : State} {i : Nat} {resp : Bytes}
    (hstep : s.handleTask cfg i resp = some t) :
    ∃ ctx overload, s.workers[i]? = some ⟨ctx, .decided overload⟩ ∧
      t.recvQueue = s.recvQueue ∧ t.sendQueue = s.sendQueue ∧
      t.workers = s.workers.set i ⟨ctx, .handled⟩ ∧ t.queued = s.queued ∧
      t.net.mgr = s.net.mgr ∧ t.net.nextConn = s.net.nextConn ∧
      t.net.nextCtx = s.net.nextCtx ∧
      t.handled = s.handled ++
        [(ctx, if overload then .overload else expected ctx.applicationPacket)] := by
  unfold handleTask at hstep
  split at hstep
  · rename_i ctx overload htask
    split at hstep
    · cases hstep
    · split at hstep
      · cases hstep
      · cases hstep
        refine ⟨ctx, overload, htask, rfl, rfl, rfl, rfl, rfl, rfl, rfl, ?_⟩
        rw [← handlePacket_fst cfg overload resp s.visit]
        rfl
  · cases hstep

theorem recorded_handle {cfg : Config} {s t : State} {i : Nat} {resp : Bytes} (h : s.Recorded)
    (hstep : s.handleTask cfg i resp = some t) : t.Recorded := by
  obtain ⟨ctx, overload, htask, hrecv, -, hworkers', hqueued, hmgr, hconn, hnext, hhandled⟩ :=
    handleTask_eq hstep
  obtain ⟨before, after, hworkers, hset, -⟩ := split_worker htask
  have hmoved : s.unhandled.Perm (ctx :: t.unhandled) := by
    unfold unhandled
    rw [hrecv, hworkers', hset, hworkers, unhandledOf_append, unhandledOf_append,
      unhandledOf_cons_handled, unhandledOf_cons_of_ne (by simp), ← List.append_assoc,
      ← List.append_assoc]
    exact List.perm_middle
  refine ⟨⟨?_, hqueued ▸ h.accounts.nodup, ?_, ?_⟩, ?_⟩
  · rw [hqueued, hhandled, List.map_append, ← List.append_assoc]
    refine List.Perm.trans ?_ h.accounts.perm_queued
    refine List.Perm.trans (List.perm_append_singleton ctx _) ?_
    exact (hmoved.append_right _).symm
  · rw [hqueued, hnext]
    exact h.accounts.returns_lt
  · intro e he
    rw [hhandled] at he
    rcases List.mem_append.1 he with he | he
    · exact h.accounts.right e he
    · rw [List.mem_singleton.1 he]
      cases overload with
      | true => exact Or.inl rfl
      | false => exact Or.inr rfl
  · refine ⟨?_, ?_, hqueued ▸ h.upgrades.unique⟩
    · rw [hmgr, hconn]
      exact h.upgrades.conns
    · rw [hqueued, hmgr, hconn]
      exact h.upgrades.upgraded

/-! ### The network thread -/

/-- A packet that is passed on, with a context of its own. -/
theorem recorded_handleApplicationPacket {cfg : Config} {s t : State} {ctx : RecvContext}
    {x : CtxId} (h : s.Recorded) (hx : ctx.returnPacket = some x) (hlt : x < s.net.nextCtx)
    (hfresh : ∀ v ∈ s.queued, ∀ y ∈ v.returnPacket, y < x)
    (hup : isUpgrade ctx.applicationPacket = true → ctx.conn < s.net.nextConn ∧
      (∀ c, s.net.mgr.conns ctx.conn = some c → ReadsFrames c) ∧
      ∀ v ∈ s.queued, isUpgrade v.applicationPacket = true → v.conn ≠ ctx.conn)
    (hstep : s.handleApplicationPacket cfg ctx = some t) : t.Recorded := by
  unfold handleApplicationPacket at hstep
  dsimp only at hstep
  split at hstep
  · obtain ⟨net, hdel, rfl⟩ := Option.map_eq_some_iff.1 hstep
    exact h.ofFrame (Frame.delConnection hdel)
  · cases hstep
    unfold pushBack
    by_cases hfull : s.recvQueue.length > kMaxQueueSize
    · simp only [hfull, if_true]
      exact h
    · simp only [hfull, if_false]
      have hnew : ctx ∉ s.queued := by
        intro hmem
        exact Nat.lt_irrefl x (hfresh ctx hmem x hx)
      refine ⟨⟨?_, ?_, ?_, h.accounts.right⟩, ⟨h.upgrades.conns, ?_, ?_⟩⟩
      · have hpushed : ((s.recvQueue ++ [ctx]) ++ unhandledOf s.workers).Perm
            (ctx :: s.unhandled) := by
          rw [List.append_assoc]
          exact List.perm_middle
        refine (hpushed.append_right _).trans ?_
        refine List.Perm.trans ?_ (List.perm_append_singleton ctx _).symm
        exact h.accounts.perm_queued.cons ctx
      · rw [List.nodup_append]
        refine ⟨h.accounts.nodup, List.nodup_singleton ctx, ?_⟩
        intro v hv w hw hvw
        rw [hvw, List.mem_singleton.1 hw] at hv
        exact hnew hv
      · intro v hv y hy
        rcases List.mem_append.1 hv with hv | hv
        · exact h.accounts.returns_lt v hv y hy
        · rw [List.mem_singleton.1 hv, hx] at hy
          cases hy
          exact hlt
      · intro u hu huup
        rcases List.mem_append.1 hu with hu | hu
        · exact h.upgrades.upgraded u hu huup
        · rw [List.mem_singleton.1 hu] at huup ⊢
          obtain ⟨hconn, hframes, -⟩ := hup huup
          exact ⟨hconn, hframes⟩
      · intro u hu v hv huup hvup huv
        rcases List.mem_append.1 hu with hu | hu
        · rcases List.mem_append.1 hv with hv | hv
          · exact h.upgrades.unique u hu v hv huup hvup huv
          · rw [List.mem_singleton.1 hv] at hvup huv
            exact absurd huv ((hup hvup).2.2 u hu huup)
        · rw [List.mem_singleton.1 hu] at huup huv ⊢
          rcases List.mem_append.1 hv with hv | hv
          · exact absurd huv.symm ((hup huup).2.2 v hv hvup)
          · exact (List.mem_singleton.1 hv).symm

theorem recorded_readEvent {cfg : Config} {s t : State} {id : ConnId}
    {outs : List ReadOutcome} (h : s.Recorded) (hstep : s.onReadEvent cfg id outs = some t) :
    t.Recorded := by
  obtain ⟨net, stop, c, hevent, hc⟩ := onReadEvent_net hstep
  obtain ⟨hid, hclient⟩ := h.upgrades.conns id c hc
  have hcases := onReadEvent_cases hc hclient.configured hevent
  have hreceived : ∀ r, c.receive outs = some r →
      FramesMarked r.conn ∧ (ReadsFrames c → ReadsFrames r.conn) := by
    intro r hr
    refine ⟨⟨hclient.configured.receive hr, ?_⟩, ?_⟩
    · exact ConnectionProfile.receive_keeps (P := fun p => State.marked p = true)
        marked_doParse hr hclient.marked
    · intro hframes
      refine ConnectionProfile.receive_keeps (P := fun p => p.isLongLink = true) ?_ hr
        hframes
      intro p buf hp
      rw [isLongLink_doParse]
      exact hp
  have hset : ∀ r, c.receive outs = some r →
      ({ s with net := s.net.setConn id r.conn } : State).Recorded := by
    intro r hr
    obtain ⟨hclient', hframes⟩ := hreceived r hr
    exact h.ofNet (h.upgrades.setConn hc hclient' hframes) (Nat.le_refl _)
  simp only [onReadEvent, hevent] at hstep
  cases hcases with
  | deleted r t' hr hdel =>
      cases hstep
      exact (hset r hr).ofFrame (Frame.delConnection hdel)
  | idle r hr =>
      cases hstep
      exact hset r hr
  | crashed r hr => cases hstep
  | dispatched r p parser tcpByteArr nextNo packet packetNo hr hp hpasses =>
      obtain ⟨hclient', hframes⟩ := hreceived r hr
      obtain ⟨hmarked, hupgrade⟩ := marked_of_passes hpasses (hclient'.marked p hp)
      have hbehind : Upgrades (s.net.setConn id (behindDispatch s.net.nextCtx parser
          tcpByteArr nextNo r.conn)) s.queued := by
        apply h.upgrades.setConn hc
        · refine ⟨Or.inl (hclient'.configured.accepted hp), ?_⟩
          intro q hq
          cases hq
          exact hmarked
        · intro hreads q hq
          cases hq
          exact hpasses.isLongLink (hframes hreads p hp)
      have hnet : ({ s with
          net := (s.net.setConn id (behindDispatch s.net.nextCtx parser tcpByteArr
            nextNo r.conn)).allocCtx (some (madeContext id r.conn)) } : State).Recorded :=
        h.ofNet ⟨hbehind.conns, hbehind.upgraded, hbehind.unique⟩ (Nat.le_succ _)
      refine recorded_handleApplicationPacket (x := s.net.nextCtx) hnet rfl
        (Nat.lt_succ_self _) h.accounts.returns_lt ?_ hstep
      intro hup
      obtain ⟨hshort, hlong'⟩ := hupgrade hup
      refine ⟨hid, ?_, ?_⟩
      · intro d hd q hq
        replace hd : (s.net.setConn id (behindDispatch s.net.nextCtx parser tcpByteArr
          nextNo r.conn)).mgr.conns id = some d := hd
        rw [setConn_conns, Function.update_self] at hd
        cases hd
        cases hq
        exact hlong'
      · intro v hv hvup hconn
        replace hconn : v.conn = id := hconn
        have hreads := (h.upgrades.upgraded v hv hvup).2 c (hconn ▸ hc)
        rw [hframes hreads p hp] at hshort
        cases hshort

/-- **One event.** -/
theorem recorded_step {cfg : Config} {s t : State} {e : Event} (h : s.Recorded)
    (hstep : step cfg s e = some t) : t.Recorded := by
  cases e with
  | accept fd ip port =>
      obtain ⟨net, hnet, rfl⟩ := Option.map_eq_some_iff.1 hstep
      exact h.ofNet (upgrades_accept h.upgrades hnet)
        (Nat.le_of_eq (registerConnection_nextCtx hnet).symm)
  | readEvent id outs => exact recorded_readEvent h hstep
  | writeEvent id ws =>
      obtain ⟨net, hsend, rfl⟩ := Option.map_eq_some_iff.1 hstep
      exact h.ofFrame (Frame.trySendPendingPackets hsend)
  | errEvent id =>
      obtain ⟨net, herr, rfl⟩ := Option.map_eq_some_iff.1 hstep
      unfold onErrEvent at herr
      split at herr
      · cases herr
      · exact h.ofFrame (Frame.delConnection herr)
  | clearTimeout =>
      cases hstep
      exact h.ofFrame (Frame.clearTimeout s.net)
  | tick ms =>
      cases hstep
      exact h.ofNet ⟨h.upgrades.conns, h.upgrades.upgraded, h.upgrades.unique⟩ (Nat.le_refl _)
  | take => exact recorded_take h hstep
  | check i => exact recorded_check h hstep
  | handle i resp => exact recorded_handle h hstep
  | giveBack i => exact recorded_giveBack h hstep
  | handleSend w =>
      replace hstep : s.handleSend w = some t := hstep
      unfold handleSend at hstep
      split at hstep
      · cases hstep
      · obtain ⟨⟨net, done⟩, hsend, rfl⟩ := Option.map_eq_some_iff.1 hstep
        have hframe := h.ofFrame (Frame.trySendAndMarkPendingIfUndone hsend)
        exact ⟨⟨hframe.accounts.perm_queued, hframe.accounts.nodup, hframe.accounts.returns_lt,
          hframe.accounts.right⟩, hframe.upgrades⟩

/-! ## Data and handshakes -/

/-- Only `handle` writes to the log. -/
theorem step_handled {cfg : Config} {s t : State} {e : Event} (hstep : step cfg s e = some t) :
    t.handled = s.handled ∨ ∃ i resp, e = .handle i resp := by
  cases e with
  | accept fd ip port =>
      obtain ⟨net, -, rfl⟩ := Option.map_eq_some_iff.1 hstep
      exact Or.inl rfl
  | readEvent id outs =>
      left
      replace hstep : s.onReadEvent cfg id outs = some t := hstep
      unfold onReadEvent handleApplicationPacket at hstep
      split at hstep
      · split at hstep
        · obtain ⟨net, -, rfl⟩ := Option.map_eq_some_iff.1 hstep
          rfl
        · cases hstep
          rfl
      · cases hstep
        rfl
      · cases hstep
        rfl
      · cases hstep
      · cases hstep
  | writeEvent id ws =>
      obtain ⟨net, -, rfl⟩ := Option.map_eq_some_iff.1 hstep
      exact Or.inl rfl
  | errEvent id =>
      obtain ⟨net, -, rfl⟩ := Option.map_eq_some_iff.1 hstep
      exact Or.inl rfl
  | clearTimeout =>
      cases hstep
      exact Or.inl rfl
  | tick ms =>
      cases hstep
      exact Or.inl rfl
  | take =>
      left
      replace hstep : s.takeTask = some t := hstep
      unfold takeTask at hstep
      split at hstep
      · cases hstep
      · cases hstep
        rfl
  | check i =>
      left
      replace hstep : s.checkTask cfg i = some t := hstep
      unfold checkTask at hstep
      split at hstep
      · cases hstep
        rfl
      · cases hstep
  | handle i resp => exact Or.inr ⟨i, resp, rfl⟩
  | giveBack i =>
      left
      replace hstep : s.giveBackTask i = some t := hstep
      unfold giveBackTask at hstep
      split at hstep
      · split at hstep
        · cases hstep
        · cases hstep
          rfl
      · cases hstep
  | handleSend w =>
      left
      replace hstep : s.handleSend w = some t := hstep
      unfold handleSend at hstep
      split at hstep
      · cases hstep
      · obtain ⟨r, -, rfl⟩ := Option.map_eq_some_iff.1 hstep
        rfl

/-- One entry more: only the new entry has to be looked at. -/
theorem behindHandshake_concat {cfg : Config} {log : List (RecvContext × Handling)}
    (h : BehindHandshake cfg log) (e : RecvContext × Handling) :
    BehindHandshake cfg (log ++ [e]) ↔ (e.2 = .data →
      ∃ u, (u, .handshake true) ∈ log ∧ u.conn = e.1.conn ∧ Switches cfg u.applicationPacket) := by
  obtain ⟨ctx, how⟩ := e
  constructor
  · intro hall hdata
    replace hdata : how = .data := hdata
    subst hdata
    exact hall log ctx [] rfl
  · intro hnew before ctx' after hsplit
    rcases List.eq_nil_or_concat after with rfl | ⟨after', e', rfl⟩
    · obtain ⟨rfl, heq⟩ := List.append_inj' hsplit rfl
      simp only [List.cons.injEq, Prod.mk.injEq, and_true] at heq
      obtain ⟨rfl, hhow⟩ := heq
      exact hnew hhow
    · have hsplit' : log ++ [(ctx, how)] = (before ++ (ctx', .data) :: after') ++ [e'] := by
        simpa using hsplit
      obtain ⟨hlog, -⟩ := List.append_inj' hsplit' rfl
      exact h before ctx' after' hlog

/-- A connection with a failed handshake has no other. -/
theorem Recorded.handshakeFirst {cfg : Config} {s : State} (h : s.Recorded)
    (hbehind : BehindHandshake cfg s.handled) : HandshakeFirst cfg s.handled where
  behind := hbehind
  failed := by
    intro u ctx hfailed hdata hconn
    obtain ⟨before, after, hsplit⟩ := List.append_of_mem hdata
    obtain ⟨v, hv, hvconn, -⟩ := hbehind before ctx after hsplit
    have hvlog : (v, .handshake true) ∈ s.handled := by
      rw [hsplit]
      exact List.mem_append_left _ hv
    have hu : Handling.handshake false = expected u.applicationPacket :=
      (h.accounts.right _ hfailed).resolve_left (by simp)
    have hv : Handling.handshake true = expected v.applicationPacket :=
      (h.accounts.right _ hvlog).resolve_left (by simp)
    have huv : u = v := h.upgrades.unique u (h.accounts.mem_queued hfailed) v
      (h.accounts.mem_queued hvlog) (isUpgrade_of_expected hu.symm)
      (isUpgrade_of_expected hv.symm) (hconn.symm.trans hvconn.symm)
    rw [huv, ← hv] at hu
    cases hu

/-! ## An upgrade packet behind every frame -/

/-- A connection that reads frames. -/
def Framed (c : ConnectionProfile) : Prop := ∃ p, c.parser = some p ∧ p.isLongLink = true

/-- `recv_queue_` has accepted an upgrade packet of the connection that carries
a key. -/
def KeyQueued (queued : List RecvContext) (id : ConnId) : Prop :=
  ∃ u ∈ queued, u.conn = id ∧ carriesKey u.applicationPacket = true

/-- What runs in order keep: a key stands behind every connection that reads
frames and behind every frame, and no upgrade packet falls into
`HandleOverload`. -/
structure Ordered (s : State) : Prop where
  framed : ∀ id c, s.net.mgr.conns id = some c → Framed c → KeyQueued s.queued id
  data : ∀ ctx ∈ s.queued, isData ctx.applicationPacket = true → KeyQueued s.queued ctx.conn
  workers : ∀ task ∈ s.workers, task.stage = .decided true →
    isUpgrade task.ctx.applicationPacket = false
  handled : ∀ e ∈ s.handled, e.2 = .overload → isUpgrade e.1.applicationPacket = false

theorem ordered_init (cfg : Config) : (init cfg).Ordered where
  framed id c hc := by cases hc
  data ctx hctx := by cases hctx
  workers task htask := by cases htask
  handled e he := by cases he

theorem KeyQueued.mono {queued more : List RecvContext} {id : ConnId} (h : KeyQueued queued id) :
    KeyQueued (queued ++ more) id := by
  obtain ⟨u, hu, hconn, hkey⟩ := h
  exact ⟨u, List.mem_append_left _ hu, hconn, hkey⟩

/-- The network thread goes on; its connections read what they have read. -/
theorem Ordered.ofNet {s : State} {net : NetState} (h : s.Ordered)
    (hconns : ∀ id d, net.mgr.conns id = some d → Framed d →
      ∃ c, s.net.mgr.conns id = some c ∧ Framed c) : ({ s with net } : State).Ordered where
  framed := by
    intro id d hd hframed
    obtain ⟨c, hc, hframed'⟩ := hconns id d hd hframed
    exact h.framed id c hc hframed'
  data := h.data
  workers := h.workers
  handled := h.handled

theorem Ordered.ofFrame {s : State} {net : NetState} (h : s.Ordered)
    (hframe : s.net.Frame net) : ({ s with net } : State).Ordered := by
  apply h.ofNet
  intro id d hd hframed
  obtain ⟨c, _, _, _, hc, rfl⟩ := hframe.conns id d hd
  exact ⟨c, hc, hframed⟩

/-- The connection `id` goes on as `d`. -/
theorem Ordered.setConn {s : State} {id : ConnId} {c d : ConnectionProfile} (h : s.Ordered)
    (hc : s.net.mgr.conns id = some c) (hframed : Framed d → Framed c) :
    ({ s with net := s.net.setConn id d } : State).Ordered := by
  apply h.ofNet
  intro id' e he hreads
  rw [setConn_conns] at he
  by_cases hid : id' = id
  · rw [hid, Function.update_self] at he
    cases he
    rw [hid]
    exact ⟨c, hc, hframed hreads⟩
  · rw [Function.update_of_ne hid] at he
    exact ⟨e, he, hreads⟩

/-- Reading does not change what a connection reads. -/
theorem framed_receive {c : ConnectionProfile} {outs : List ReadOutcome}
    {r : ConnectionProfile.Received} (hr : c.receive outs = some r) (h : Framed r.conn) :
    Framed c := by
  obtain ⟨p, hp, hlong⟩ := h
  cases hparser : c.parser with
  | none =>
      have hnone := ConnectionProfile.receive_keeps (P := fun _ => False) (fun _ _ h => h) hr
        (fun q hq => by rw [hparser] at hq; cases hq) p hp
      exact hnone.elim
  | some q =>
      have hsame := ConnectionProfile.receive_keeps
        (P := fun p => p.isLongLink = q.isLongLink)
        (fun p buf hp => (isLongLink_doParse p buf).trans hp) hr
        (fun q' hq' => by rw [hparser] at hq'; cases hq'; rfl) p hp
      exact ⟨q, hparser, hsame.symm.trans hlong⟩

theorem ordered_accept {cfg : Config} {s : State} {net : NetState} {fd port : Nat} {ip : Bytes}
    (h : s.Ordered) (hnet : s.net.registerConnection cfg.vector cfg.maxConnections
      configApplicationLayer fd ip port = some net) : ({ s with net } : State).Ordered := by
  unfold registerConnection at hnet
  split at hnet
  · cases hnet
    exact h
  · obtain ⟨⟨net', id⟩, hadd, rfl⟩ := Option.map_eq_some_iff.1 hnet
    obtain ⟨mgr, hmgr, heq⟩ := Option.map_eq_some_iff.1 hadd
    obtain ⟨uid, hconns⟩ := ConnectionManager.addConnection_conns hmgr
    cases heq
    apply h.ofNet
    intro id c hc hframed
    replace hc : mgr.conns id = some c := hc
    rw [hconns] at hc
    by_cases hid : id = s.net.nextConn
    · rw [hid, Function.update_self] at hc
      cases hc
      -- a new connection reads requests
      obtain ⟨p, hp, hlong⟩ := hframed
      cases hp
      cases hlong
    · rw [Function.update_of_ne hid] at hc
      exact ⟨c, hc, hframed⟩

/-- A packet is passed on by the connection `id`, which has read frames before if
it reads them now, or has passed on an upgrade packet. -/
theorem ordered_handleApplicationPacket {cfg : Config} {s : State} (net : NetState) {t : State}
    {ctx : RecvContext} (h : s.Ordered)
    (hconns : ∀ id d, net.mgr.conns id = some d → Framed d → (id = ctx.conn ∧
      isUpgrade ctx.applicationPacket = true) ∨ ∃ c, s.net.mgr.conns id = some c ∧ Framed c)
    (hdata : isData ctx.applicationPacket = true →
      ∃ c, s.net.mgr.conns ctx.conn = some c ∧ Framed c)
    (hpool : net.mgr.getConnection ctx.tcpConnectionUid =
      s.net.mgr.getConnection ctx.tcpConnectionUid)
    (hwelcome : isUpgrade ctx.applicationPacket = true → Welcome cfg s ctx)
    (hstep : handleApplicationPacket cfg ctx { s with net } = some t) : t.Ordered := by
  unfold Welcome at hwelcome
  unfold handleApplicationPacket at hstep
  dsimp only at hstep
  by_cases hrefuses : refuses (s.isWorkerFullyLoad cfg) ctx.applicationPacket = true
  · rw [if_pos hrefuses] at hwelcome
    have hload : ({ s with net } : State).isWorkerFullyLoad cfg = s.isWorkerFullyLoad cfg := rfl
    rw [hload, if_pos hrefuses] at hstep
    obtain ⟨net', hdel, rfl⟩ := Option.map_eq_some_iff.1 hstep
    apply h.ofNet
    intro id d hd hframed
    obtain ⟨id', c', hget, hc', rfl⟩ := delConnection_cases hdel
    obtain ⟨hne, hd⟩ := ConnectionManager.conns_of_release hd
    rcases hconns id d hd hframed with ⟨rfl, hup⟩ | hold
    · -- the connection of an upgrade packet that is turned away is gone
      rw [hpool, hwelcome hup] at hget
      exact absurd (Option.some.inj (Option.some.inj hget)) hne
    · exact hold
  · have hload : ({ s with net } : State).isWorkerFullyLoad cfg = s.isWorkerFullyLoad cfg := rfl
    rw [hload, if_neg hrefuses] at hstep
    cases hstep
    rw [if_neg hrefuses] at hwelcome
    have hmore : ∀ id, KeyQueued s.queued id →
        KeyQueued (if s.recvQueue.length > kMaxQueueSize then s.queued else s.queued ++ [ctx])
          id := by
      intro id hkey
      split
      · exact hkey
      · exact hkey.mono
    refine ⟨?_, ?_, h.workers, h.handled⟩
    · intro id d hd hframed
      rcases hconns id d hd hframed with ⟨rfl, hup⟩ | ⟨c, hc, hframed'⟩
      · obtain ⟨hkey, hroom⟩ := hwelcome hup
        show KeyQueued (if s.recvQueue.length > kMaxQueueSize then _ else _) _
        rw [if_neg (Nat.not_lt.2 hroom)]
        exact ⟨ctx, List.mem_append_right _ List.mem_cons_self, rfl, hkey⟩
      · exact hmore id (h.framed id c hc hframed')
    · intro v hv hisData
      apply hmore
      replace hv : v ∈ if s.recvQueue.length > kMaxQueueSize then s.queued
        else s.queued ++ [ctx] := hv
      split at hv
      · exact h.data v hv hisData
      · rcases List.mem_append.1 hv with hv | hv
        · exact h.data v hv hisData
        · rw [List.mem_singleton.1 hv] at hisData ⊢
          obtain ⟨c, hc, hframed⟩ := hdata hisData
          exact h.framed ctx.conn c hc hframed

/-- A packet that starts a handshake leaves a connection that reads frames; data
comes from one that has read frames. -/
theorem framed_of_passes {p parser : ApplicationProtocolParser} {packet : ApplicationPacket}
    (h : Passes p packet parser) :
    (parser.isLongLink = true → p.isLongLink = true ∨ isUpgrade packet = true) ∧
      (isData packet = true → p.isLongLink = true) := by
  cases h with
  | upgrade q hup =>
      constructor
      · intro hlong
        exact Or.inr rfl
      · intro hdata
        cases hdata
  | frame q => exact ⟨fun _ => Or.inl rfl, fun _ => rfl⟩
  | request q hup =>
      constructor
      · intro hlong
        cases hlong
      · intro hdata
        cases hdata
  | response q =>
      constructor
      · intro hlong
        cases hlong
      · intro hdata
        cases hdata

theorem ordered_readEvent {cfg : Config} {s t : State} {id : ConnId} {outs : List ReadOutcome}
    (hrecorded : s.Recorded) (h : s.Ordered) (hcond : InOrder cfg s (.readEvent id outs))
    (hstep : s.onReadEvent cfg id outs = some t) : t.Ordered := by
  obtain ⟨net, stop, c, hevent, hc⟩ := onReadEvent_net hstep
  obtain ⟨-, hclient⟩ := hrecorded.upgrades.conns id c hc
  have hcases := onReadEvent_cases hc hclient.configured hevent
  have hwelcome := hcond _ hevent
  simp only [onReadEvent, hevent] at hstep
  cases hcases with
  | deleted r t' hr hdel =>
      cases hstep
      exact (h.setConn hc (framed_receive hr)).ofFrame (Frame.delConnection hdel)
  | idle r hr =>
      cases hstep
      exact h.setConn hc (framed_receive hr)
  | crashed r hr => cases hstep
  | dispatched r p parser tcpByteArr nextNo packet packetNo hr hp hpasses =>
      obtain ⟨hlong, hdata⟩ := framed_of_passes hpasses
      refine ordered_handleApplicationPacket ((s.net.setConn id
        (behindDispatch s.net.nextCtx parser tcpByteArr nextNo r.conn)).allocCtx
          (some (madeContext id r.conn))) h ?_ ?_ rfl (hwelcome _ rfl) hstep
      · intro id' d hd hframed
        replace hd : (s.net.setConn id (behindDispatch s.net.nextCtx parser tcpByteArr nextNo
          r.conn)).mgr.conns id' = some d := hd
        rw [setConn_conns] at hd
        by_cases hid : id' = id
        · rw [hid, Function.update_self] at hd
          cases hd
          obtain ⟨q, hq, hqlong⟩ := hframed
          cases hq
          rcases hlong hqlong with hplong | hup
          · exact Or.inr ⟨c, hid ▸ hc, framed_receive hr ⟨p, hp, hplong⟩⟩
          · exact Or.inl ⟨hid, hup⟩
        · rw [Function.update_of_ne hid] at hd
          exact Or.inr ⟨d, hd, hframed⟩
      · intro hisData
        exact ⟨c, hc, framed_receive hr ⟨p, hp, hdata hisData⟩⟩

/-- A worker that has taken an upgrade packet is not overloaded. -/
theorem ordered_check {cfg : Config} {s t : State} {i : Nat} (h : s.Ordered)
    (hcond : InOrder cfg s (.check i)) (hstep : s.checkTask cfg i = some t) : t.Ordered := by
  unfold checkTask at hstep
  split at hstep
  · rename_i ctx htask
    cases hstep
    refine ⟨h.framed, h.data, ?_, h.handled⟩
    intro task hmem hstage
    rcases List.mem_or_eq_of_mem_set hmem with hmem | rfl
    · exact h.workers task hmem hstage
    · cases hup : isUpgrade ctx.applicationPacket with
      | false => rfl
      | true =>
          have hload := hcond _ htask hup
          rw [hload] at hstage
          cases hstage
  · cases hstep

theorem ordered_handle {cfg : Config} {s t : State} {i : Nat} {resp : Bytes} (h : s.Ordered)
    (hstep : s.handleTask cfg i resp = some t) : t.Ordered := by
  obtain ⟨ctx, overload, htask, -, -, hworkers, hqueued, hmgr, -, -, hhandled⟩ :=
    handleTask_eq hstep
  refine ⟨?_, ?_, ?_, ?_⟩
  · rw [hmgr, hqueued]
    exact h.framed
  · rw [hqueued]
    exact h.data
  · intro task hmem hstage
    rw [hworkers] at hmem
    rcases List.mem_or_eq_of_mem_set hmem with hmem | rfl
    · exact h.workers task hmem hstage
    · cases hstage
  · intro e he hoverload
    rw [hhandled] at he
    rcases List.mem_append.1 he with he | he
    · exact h.handled e he hoverload
    · rw [List.mem_singleton.1 he] at hoverload ⊢
      cases overload with
      | true => exact h.workers _ (List.mem_of_getElem? htask) rfl
      | false =>
          replace hoverload : expected ctx.applicationPacket = .overload := hoverload
          exact absurd hoverload (expected_ne_overload _)

/-- **Every event** of a run in order. -/
theorem ordered_step {cfg : Config} {s t : State} {e : Event} (hrecorded : s.Recorded)
    (h : s.Ordered) (hcond : InOrder cfg s e) (hstep : step cfg s e = some t) : t.Ordered := by
  cases e with
  | accept fd ip port =>
      obtain ⟨net, hnet, rfl⟩ := Option.map_eq_some_iff.1 hstep
      exact ordered_accept h hnet
  | readEvent id outs => exact ordered_readEvent hrecorded h hcond hstep
  | writeEvent id ws =>
      obtain ⟨net, hsend, rfl⟩ := Option.map_eq_some_iff.1 hstep
      exact h.ofFrame (Frame.trySendPendingPackets hsend)
  | errEvent id =>
      obtain ⟨net, herr, rfl⟩ := Option.map_eq_some_iff.1 hstep
      unfold onErrEvent at herr
      split at herr
      · cases herr
      · exact h.ofFrame (Frame.delConnection herr)
  | clearTimeout =>
      cases hstep
      exact h.ofFrame (Frame.clearTimeout s.net)
  | tick ms =>
      cases hstep
      exact ⟨h.framed, h.data, h.workers, h.handled⟩
  | take =>
      replace hstep : s.takeTask = some t := hstep
      unfold takeTask at hstep
      split at hstep
      · cases hstep
      · cases hstep
        refine ⟨h.framed, h.data, ?_, h.handled⟩
        intro task hmem hstage
        rcases List.mem_append.1 hmem with hmem | hmem
        · exact h.workers task hmem hstage
        · rw [List.mem_singleton.1 hmem] at hstage
          cases hstage
  | check i => exact ordered_check h hcond hstep
  | handle i resp => exact ordered_handle h hstep
  | giveBack i =>
      replace hstep : s.giveBackTask i = some t := hstep
      unfold giveBackTask at hstep
      split at hstep
      · split at hstep
        · cases hstep
        · cases hstep
          exact ⟨h.framed, h.data, fun task hmem =>
            h.workers task (List.mem_of_mem_eraseIdx hmem), h.handled⟩
      · cases hstep
  | handleSend w =>
      replace hstep : s.handleSend w = some t := hstep
      unfold handleSend at hstep
      split at hstep
      · cases hstep
      · obtain ⟨⟨net, done⟩, hsend, rfl⟩ := Option.map_eq_some_iff.1 hstep
        have hframe := h.ofFrame (Frame.trySendAndMarkPendingIfUndone hsend)
        exact ⟨hframe.framed, hframe.data, hframe.workers, hframe.handled⟩

/-- An upgrade packet with a key that nobody has still to handle has been answered
with the 101. -/
theorem Ordered.exists_handshake {s : State} (h : s.Ordered) (hrecorded : s.Recorded)
    {id : ConnId} (hkey : KeyQueued s.queued id)
    (hnone : ∀ u ∈ s.unhandled, isUpgrade u.applicationPacket = true → u.conn ≠ id) :
    ∃ u, (u, .handshake true) ∈ s.handled ∧ u.conn = id ∧
      carriesKey u.applicationPacket = true := by
  obtain ⟨u, hqueued, hconn, hkey⟩ := hkey
  have hexpected := (expected_eq_handshake_true_iff _).2 hkey
  have hup := isUpgrade_of_expected hexpected
  rcases List.mem_append.1 (hrecorded.accounts.perm_queued.symm.subset hqueued) with hmem | hmem
  · exact absurd hconn (hnone u hmem hup)
  · obtain ⟨⟨u', how⟩, he, rfl⟩ := List.mem_map.1 hmem
    rcases hrecorded.accounts.right _ he with hhow | hhow
    · have hnot := h.handled _ he hhow
      rw [hup] at hnot
      cases hnot
    · rw [hexpected] at hhow
      exact ⟨u', hhow ▸ he, hconn, hkey⟩

/-- **One handled packet.**  Data is handled behind the handshake. -/
theorem behindHandshake_handle {cfg : Config} {s t : State} {i : Nat} {resp : Bytes}
    (hrecorded : s.Recorded) (h : s.Ordered) (hbehind : BehindHandshake cfg s.handled)
    (hcond : InOrder cfg s (.handle i resp)) (hstep : s.handleTask cfg i resp = some t) :
    BehindHandshake cfg t.handled := by
  obtain ⟨ctx, overload, htask, -, -, -, -, -, -, -, hhandled⟩ := handleTask_eq hstep
  rw [hhandled, behindHandshake_concat hbehind]
  intro hdata
  cases overload with
  | true => cases hdata
  | false =>
      have hisData : isData ctx.applicationPacket = true := (expected_eq_data_iff _).1 hdata
      obtain ⟨before, after, hworkers, -, -⟩ := split_worker htask
      have hmem : ctx ∈ s.unhandled := by
        unfold unhandled
        rw [hworkers, unhandledOf_append, unhandledOf_cons_of_ne (by simp)]
        simp
      have hqueued : ctx ∈ s.queued :=
        hrecorded.accounts.perm_queued.subset (List.mem_append_left _ hmem)
      obtain ⟨u, hu, hconn, hkey⟩ := h.exists_handshake hrecorded (h.data ctx hqueued hisData)
        (hcond _ htask rfl hisData)
      exact ⟨u, hu, hconn, switches_of_carriesKey cfg hkey⟩

/-- **Data comes behind a successful handshake**, and a failed handshake is
never followed by data, in every run in order: every upgrade request carries a
key and finds room on `recv_queue_`, no worker that has taken one is overloaded,
and no worker treats a frame as data while another one has still to handle the
upgrade. -/
theorem handshakeFirst_of_inOrder (cfg : Config) (events : List Event)
    (horder : Along (step cfg) (InOrder cfg) (init cfg) events) :
    ∀ t ∈ trace (step cfg) (init cfg) events, HandshakeFirst cfg t.handled := by
  intro t ht
  let Inv (s : State) : Prop := s.Recorded ∧ s.Ordered ∧ BehindHandshake cfg s.handled
  have hinit : Inv (init cfg) := by
    refine ⟨recorded_init cfg, ordered_init cfg, ?_⟩
    intro before ctx after hsplit
    exact absurd hsplit (by simp [init])
  have hinv : Inv t := by
    refine trace_invariant ?_ hinit horder t ht
    · rintro s e s' ⟨hrecorded, hordered, hbehind⟩ hcond hstep
      refine ⟨recorded_step hrecorded hstep, ordered_step hrecorded hordered hcond hstep, ?_⟩
      rcases step_handled hstep with hsame | ⟨i, resp, rfl⟩
      · rw [hsame]
        exact hbehind
      · exact behindHandshake_handle hrecorded hordered hbehind hcond hstep
  exact hinv.1.handshakeFirst hinv.2.2

/-- With a key, and one worker, the frame comes behind the handshake. -/
theorem handshakeFirst_opening :
    (∃ t ∈ run (step sampleConfig) (init sampleConfig) (opening ++ [.check 0, .handle 0 []]),
      t.handled.map Prod.snd = [.handshake true, .data]) ∧
      ∀ t ∈ trace (step sampleConfig) (init sampleConfig) (opening ++ [.check 0, .handle 0 []]),
        HandshakeFirst sampleConfig t.handled := by
  constructor
  · decide +kernel
  · exact handshakeFirst_of_inOrder sampleConfig _ (by decide +kernel)

/-! ## A handshake that fails -/

/-- An upgrade request without a key is answered with a 404; then the client
sends a frame. -/
def keylessRun : List Event :=
  [.accept 7 (lit "10.0.0.1") 4000,
    .readEvent 0 [ConnectionProfile.reads
      "GET / HTTP/1.1\r\nConnection: Upgrade\r\nA: b\r\n\r\n" (by decide)],
    .take, .check 0, .handle 0 [], .giveBack 0,
    .readEvent 0 [FrameRun.helloGroup.outcome],
    .take, .check 0, .handle 0 []]

theorem not_handshakeFirst_keylessRun :
    ¬ ∀ t ∈ trace (step sampleConfig) (init sampleConfig) keylessRun,
      HandshakeFirst sampleConfig t.handled := by
  have hrun : ∃ t ∈ run (step sampleConfig) (init sampleConfig) keylessRun,
      ∃ u ∈ t.handled, ∃ e ∈ t.handled, u.2 = .handshake false ∧ e.2 = .data ∧
        e.1.conn = u.1.conn := by
    decide +kernel
  obtain ⟨t, ht, ⟨u, how⟩, hu, ⟨ctx, how'⟩, he, rfl, rfl, hconn⟩ := hrun
  intro hall
  exact (hall t (run_mem_trace ht)).failed u ctx hu he hconn

end State

end Unixtar.WebServer
