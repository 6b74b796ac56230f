import Unixtar.NetworkModel.EventLoop
import Unixtar.WebServer.Heartbeat

/-!
# The web server in its loop: `NetThread` and `WorkerThread` of `webserver.cc`

The loop of `NetworkModel/EventLoop.lean` with what `WebServer::NetThread`
overrides, and the workers beside it.  A worker first puts its return packet
on `send_queue_` and then calls `NotifySend`; the network thread empties the
queue when the notification is reported.  The main thread hands over
descriptors and, on the first thread, sends heartbeats.

No exception leaves `Run`: the request parser and the frame parser throw none.

`given` and `taken` list the return packets that `send_queue_` has accepted
and those that `HandleSend` has popped.  No code looks at these two.

## Main results

* `simulates` — a run of the loop is a run of the server.
* `webServer_batchLive` — no event of a batch points to a deleted connection.
* `woken_trace` — the thread does not sleep over a return packet.
* `taken_of_round` — one round behind a notification sends everything that
  was given back before it.
-/

namespace Unixtar.WebServer

open Unixtar.Lib NetState NetLoop

/-! ## The thread and its workers -/

/-- A server, how many workers are between `push_back` and `NotifySend`, and
what has gone through `send_queue_`. -/
structure ServerThread where
  server : State
  notifying : Nat
  given : List CtxId
  taken : List CtxId

/-- What other threads do. -/
inductive OtherEvent
  /-- the main thread hands over a descriptor -/
  | accept (fd : Nat) (ip : Bytes) (port : Nat)
  /-- time passes -/
  | tick (ms : Nat)
  | take
  | check (i : Nat)
  | handle (i : Nat) (resp : Bytes)
  | giveBack (i : Nat)
  /-- `NotifySend` -/
  | notifySend
  /-- the main thread's `SendHeartbeat` -/
  | heartbeat (fd : Nat) (ip : Bytes) (port : Nat) (request : Bytes) (w : WriteOutcome)

/-- The result of `HandleApplicationPacket`, behind a read event as well. -/
def State.onReadEventResult (cfg : Config) (id : ConnId) (outs : List ReadOutcome) (s : State) :
    Bool :=
  match s.net.onReadEvent upgradeApplicationProtocol id outs with
  | some (net, .dispatched ctx) =>
      refuses (isWorkerFullyLoad cfg { s with net }) ctx.applicationPacket
  | some (_, .deleted) => true
  | _ => false

namespace ServerThread

/-- Before the first connection. -/
def init (cfg : Config) : ServerThread := ⟨State.init cfg, 0, [], []⟩

/-- An event of the server. -/
def act (cfg : Config) (e : Event) (t : ServerThread) : Option ServerThread :=
  (State.step cfg t.server e).map fun server => { t with server }

/-- The return packets that `giveBack` adds. -/
def givenBack (i : Nat) (s : State) : List CtxId :=
  match s.workers[i]? with
  | some ⟨ctx, .handled⟩ =>
      if s.sendQueue.length > kMaxQueueSize then [] else ctx.returnPacket.toList
  | _ => []

/-- One round of `HandleSend`, and whether another one follows. -/
def handleSend (cfg : Config) (w : WriteOutcome) (t : ServerThread) :
    Option (ServerThread × Bool) :=
  match t.server.sendQueue with
  | [] => some (t, false)
  | x :: _ => (t.act cfg (.handleSend w)).map fun t => ({ t with taken := t.taken ++ [x] }, true)

/-- Another thread, and the notification it sends. -/
def other (cfg : Config) (t : ServerThread) :
    OtherEvent → Option (ServerThread × Option Notification)
  | .accept fd ip port => (t.act cfg (.accept fd ip port)).map fun t => (t, none)
  | .tick ms => (t.act cfg (.tick ms)).map fun t => (t, none)
  | .take => (t.act cfg .take).map fun t => (t, none)
  | .check i => (t.act cfg (.check i)).map fun t => (t, none)
  | .handle i resp => (t.act cfg (.handle i resp)).map fun t => (t, none)
  | .giveBack i =>
      (t.act cfg (.giveBack i)).map fun t' =>
        ({ t' with notifying := t.notifying + 1, given := t.given ++ givenBack i t.server }, none)
  | .notifySend =>
      if t.notifying = 0 then none
      else some ({ t with notifying := t.notifying - 1 }, some .send)
  | .heartbeat fd ip port request w =>
      (sendHeartbeat cfg fd ip port request w t.server.net).map fun net =>
        ({ t with server := { t.server with net } }, none)

end ServerThread

/-- `WebServer::NetThread`. -/
def netThread (cfg : Config) : NetThreadImpl ServerThread (List ReadOutcome) OtherEvent where
  net t := t.server.net
  onErrEvent id t := t.act cfg (.errEvent id)
  onReadEvent id outs t :=
    (t.act cfg (.readEvent id outs)).map fun t' =>
      (t', .ofResult (t.server.onReadEventResult cfg id outs))
  onWriteEvent id ws t := t.act cfg (.writeEvent id ws)
  checkNotification n := n = .send
  handleNotification n w t := if n = .send then t.handleSend cfg w else some (t, false)
  clearTimeout t := t.act cfg .clearTimeout
  other e t := t.other cfg e

/-! ## The loop refines the server -/

theorem act_eq {cfg : Config} {e : Event} {t t' : ServerThread} (h : t.act cfg e = some t') :
    ∃ s, State.step cfg t.server e = some s ∧ t' = { t with server := s } := by
  obtain ⟨s, hs, rfl⟩ := Option.map_eq_some_iff.1 h
  exact ⟨s, hs, rfl⟩

theorem clearTimeout_eq {cfg : Config} {t t' : ServerThread}
    (h : (netThread cfg).clearTimeout t = some t') :
    ∃ s, State.step cfg t.server .clearTimeout = some s ∧ t' = { t with server := s } := by
  replace h : t.act cfg .clearTimeout = some t' := h
  exact act_eq h

theorem heartbeat_eq {cfg : Config} {fd port : Nat} {ip request : Bytes} {w : WriteOutcome}
    {t t' : ServerThread} {n : Option Notification}
    (h : t.other cfg (.heartbeat fd ip port request w) = some (t', n)) :
    ∃ net, sendHeartbeat cfg fd ip port request w t.server.net = some net ∧ n = none ∧
      t' = { t with server := { t.server with net } } := by
  obtain ⟨net, hbeat, heq⟩ := Option.map_eq_some_iff.1 h
  cases heq
  exact ⟨net, hbeat, rfl, rfl⟩

/-- What a call of the loop does to the server: nothing, an event of the server,
or a heartbeat.  It takes on a descriptor only if the main thread hands it over;
the time of a `ClearTimeout` is kept. -/
inductive ServerMove (cfg : Config) (e : LoopEvent (List ReadOutcome) OtherEvent) (s : State)
    (last : Nat) : State → Nat → Prop
  | nothing : ServerMove cfg e s last s last
  | event (f : Event) (t : State) :
      (∀ fd ip port, f = .accept fd ip port → e = .other (.accept fd ip port)) →
      State.step cfg s f = some t → ServerMove cfg e s last t last
  | heartbeat (fd : Nat) (ip : Bytes) (port : Nat) (request : Bytes) (w : WriteOutcome)
      (net : NetState) : e = .other (.heartbeat fd ip port request w) →
      sendHeartbeat cfg fd ip port request w s.net = some net →
      ServerMove cfg e s last { s with net } last
  | cleared : ServerMove cfg e s last { s with net := s.net.clearTimeout } s.net.now

theorem serverMove_act {cfg : Config} {t t' : ServerThread} {last : Nat}
    {e : LoopEvent (List ReadOutcome) OtherEvent} {f : Event}
    (hf : ∀ fd ip port, f = .accept fd ip port → e = .other (.accept fd ip port))
    (h : t.act cfg f = some t') : ServerMove cfg e t.server last t'.server last := by
  obtain ⟨s, hs, rfl⟩ := act_eq h
  exact .event f s hf hs

theorem serverMove_called {cfg : Config} {t t' : ServerThread} {last last' : Nat}
    {e : LoopEvent (List ReadOutcome) OtherEvent}
    (h : Called (netThread cfg) t last e t' last') :
    ServerMove cfg e t.server last t'.server last' := by
  cases h with
  | nothing e => exact .nothing
  | errEvent e id t' _ ht => exact serverMove_act (by simp) ht
  | readEvent e id outs t' ret _ ht =>
      obtain ⟨t₁, ht₁, heq⟩ := Option.map_eq_some_iff.1 ht
      cases heq
      exact serverMove_act (by simp) ht₁
  | writeEvent e id ws t' _ ht => exact serverMove_act (by simp) ht
  | notification e n w t' more _ ht =>
      simp only [netThread] at ht
      split_ifs at ht
      · unfold ServerThread.handleSend at ht
        split at ht
        · cases ht
          exact .nothing
        · obtain ⟨t₁, ht₁, heq⟩ := Option.map_eq_some_iff.1 ht
          have hmove : ServerMove cfg e t.server last t₁.server last :=
            serverMove_act (by simp) ht₁
          cases heq
          exact hmove
      · cases ht
        exact .nothing
  | clearTimeout e t' _ ht =>
      obtain ⟨s, hs, rfl⟩ := clearTimeout_eq ht
      cases hs
      exact .cleared
  | other e t' n ht =>
      simp only [netThread] at ht
      cases e with
      | notifySend =>
          simp only [ServerThread.other] at ht
          split_ifs at ht
          cases ht
          exact .nothing
      | heartbeat fd ip port request w =>
          obtain ⟨net, hbeat, -, rfl⟩ := heartbeat_eq ht
          exact .heartbeat fd ip port request w net rfl hbeat
      | _ =>
          simp only [ServerThread.other] at ht
          obtain ⟨t₁, ht₁, heq⟩ := Option.map_eq_some_iff.1 ht
          obtain ⟨s, hs, rfl⟩ := act_eq ht₁
          cases heq
          exact .event _ s (by simp) hs

/-- What the loop and the threads beside it can do to the server. -/
inductive Move
  | event (e : Event)
  | heartbeat (fd : Nat) (ip : Bytes) (port : Nat) (request : Bytes) (w : WriteOutcome)

/-- One move. -/
def State.move (cfg : Config) (s : State) : Move → Option State
  | .event e => State.step cfg s e
  | .heartbeat fd ip port request w =>
      (sendHeartbeat cfg fd ip port request w s.net).map fun net => { s with net }

theorem ServerMove.run {cfg : Config} {e : LoopEvent (List ReadOutcome) OtherEvent} {s t : State}
    {last last' : Nat} (h : ServerMove cfg e s last t last') :
    ∃ fs, Lib.run (State.move cfg) s fs = some t := by
  have hone : ∀ {f : Move} {t : State}, State.move cfg s f = some t →
      ∃ fs, Lib.run (State.move cfg) s fs = some t := by
    intro f t hf
    exact ⟨[f], by rw [run_cons_some hf]; rfl⟩
  cases h with
  | nothing => exact ⟨[], rfl⟩
  | event f t _ hf => exact hone (f := .event f) hf
  | heartbeat fd ip port request w net _ hbeat =>
      exact hone (f := .heartbeat fd ip port request w) (by simp [State.move, hbeat])
  | cleared => exact hone (f := .event .clearTimeout) rfl

/-- **Refinement.**  What the loop and the other threads do to the server is a
run of the server and its heartbeats. -/
theorem simulates (cfg : Config) :
    Simulates (NetLoop.step (netThread cfg)) (State.move cfg) fun l s => l.thread.server = s :=
  simulates_of_called fun h => (serverMove_called h).run

/-- Two connections in one batch: a request is read from the first one, and the
second one has failed.  A worker answers the request, while the main thread sends
a heartbeat. -/
def twoConnections : List (LoopEvent (List ReadOutcome) OtherEvent) :=
  [.other (.accept 7 (lit "10.0.0.1") 4000), .other (.accept 8 (lit "10.0.0.2") 4000), .test,
    .epollWait [.eintr, .events [⟨.descriptor, false, false, false⟩,
      ⟨.connection 0, false, true, true⟩, ⟨.connection 1, true, false, false⟩]],
    .process [] [], .process [ConnectionProfile.getRequest] [], .process [] [], .process [] [],
    .process [] [], .endRound, .other .take, .other (.check 0),
    .other (.heartbeat 9 (lit "10.0.0.9") 5000 (lit "GET / HTTP/1.1\r\n\r\n") (.wrote 18)),
    .other (.handle 0 (lit "ok")), .other (.giveBack 0), .test, .other .notifySend]

/-- The third wait that fails ends the thread: one that is interrupted nine
times, and two with an error. -/
def failingWaits : List (LoopEvent (List ReadOutcome) OtherEvent) :=
  [.test, .epollWait (List.replicate 9 .eintr), .test,
    .epollWait [.eintr, .events [⟨.descriptor, false, false, false⟩]], .process [] [],
    .process [] [], .endRound, .test, .epollWait [.error 9], .test, .epollWait [.error 9]]

theorem ended_iff_retries_failingWaits :
    ∃ l, run (NetLoop.step (netThread State.sampleConfig))
        (launch (ServerThread.init State.sampleConfig)) failingWaits = some l ∧
      l.running = true ∧ (l.phase = .ended ↔ failingWaits.countP Fails = 3) := by
  obtain ⟨l, hl, hrunning⟩ : ∃ l ∈ run (NetLoop.step (netThread State.sampleConfig))
      (launch (ServerThread.init State.sampleConfig)) failingWaits, l.running = true := by
    decide +kernel
  exact ⟨l, hl, hrunning, ended_iff_retries hl hrunning⟩

/-! ## No event of a batch points to a deleted connection -/

/-- The enlargements of a pool that may open another connection stay within
the range of a uid. -/
def Config.FitsUid (cfg : Config) : Prop :=
  ∀ capacity size, capacity < cfg.maxConnections → size ≤ capacity →
    cfg.vector.resize capacity size (capacity + ConnectionManager.kEnlargeUnit) ≤ 2 ^ 32

/-- libstdc++, with a number of connections that is an `int`. -/
theorem Config.fitsUid_libstdcxx {cfg : Config} (hvector : cfg.vector = .libstdcxx)
    (hmax : cfg.maxConnections ≤ 2 ^ 31) : cfg.FitsUid := by
  intro capacity size hlt hsize
  rw [hvector]
  simp only [VectorImpl.libstdcxx, ConnectionManager.kEnlargeUnit]
  split_ifs <;> omega

/-- A pool that is full opens a connection only below the maximum. -/
theorem fitsUid_of_lt {cfg : Config} (hcfg : cfg.FitsUid) {m : ConnectionManager}
    (h : m.Distinct) (hlt : m.currConnectionCnt < cfg.maxConnections) : m.FitsUid cfg.vector := by
  intro hfree
  apply hcfg m.capacity m.pool.length _ h.size_le
  unfold ConnectionManager.currConnectionCnt at hlt
  rw [hfree] at hlt
  exact hlt

theorem upgradeApplicationProtocol_uid (c : ConnectionProfile) (packet : ApplicationPacket) :
    (upgradeApplicationProtocol c packet).uid = c.uid := by
  unfold upgradeApplicationProtocol
  split
  · split <;> rfl
  · rfl

namespace State

theorem handleApplicationPacket_others {cfg : Config} {s t : State} {ctx : RecvContext}
    {id : ConnId} {c : ConnectionProfile} (h : Pooled s.net) (hc : s.net.mgr.conns id = some c)
    (huid : ctx.tcpConnectionUid = c.uid)
    (hstep : handleApplicationPacket cfg ctx s = some t) :
    Pooled t.net ∧ KeepsOthers id s.net t.net ∧
      (refuses (s.isWorkerFullyLoad cfg) ctx.applicationPacket = true ↔
        t.net.isLive id = false) := by
  unfold handleApplicationPacket at hstep
  by_cases hrefuses : refuses (s.isWorkerFullyLoad cfg) ctx.applicationPacket = true
  · rw [if_pos hrefuses] at hstep
    obtain ⟨net, hdel, rfl⟩ := Option.map_eq_some_iff.1 hstep
    rw [huid] at hdel
    obtain ⟨ht, hothers, hdead⟩ := delConnection_others h hc hdel
    exact ⟨ht, hothers, iff_of_true hrefuses hdead⟩
  · rw [if_neg hrefuses] at hstep
    cases hstep
    refine ⟨h, fun _ _ hid => hid, iff_of_false hrefuses ?_⟩
    rw [isLive_of_conns hc]
    exact Bool.noConfusion

/-- **`__OnReadEvent`** deletes no connection but its own, and its result says
whether it did. -/
theorem onReadEvent_others {cfg : Config} {s t : State} {id : ConnId} {outs : List ReadOutcome}
    (h : Pooled s.net) (hstep : s.onReadEvent cfg id outs = some t) :
    Pooled t.net ∧ KeepsOthers id s.net t.net ∧
      (s.onReadEventResult cfg id outs = true ↔ t.net.isLive id = false) := by
  unfold onReadEventResult
  unfold onReadEvent at hstep
  cases hread : s.net.onReadEvent upgradeApplicationProtocol id outs with
  | none => simp [hread] at hstep
  | some ev =>
      obtain ⟨net, stop⟩ := ev
      have hreading := reading_onReadEvent upgradeApplicationProtocol_uid h hread
      cases stop with
      | deleted =>
          simp only [hread] at hstep ⊢
          cases hstep
          exact ⟨hreading.pooled, hreading.others, iff_of_true trivial (hreading.deleted rfl)⟩
      | idle =>
          simp only [hread] at hstep ⊢
          cases hstep
          obtain ⟨c, hc, -⟩ := hreading.conn (by simp)
          refine ⟨hreading.pooled, hreading.others, iff_of_false Bool.false_ne_true ?_⟩
          rw [isLive_of_conns hc]
          exact Bool.noConfusion
      | crashed => simp [hread] at hstep
      | dispatched ctx =>
          simp only [hread] at hstep ⊢
          obtain ⟨c, hc, huid⟩ := hreading.conn (by simp)
          obtain ⟨ht, hothers, hresult⟩ := handleApplicationPacket_others (s := { s with net })
            hreading.pooled hc (huid ctx rfl) hstep
          refine ⟨ht, ?_, hresult⟩
          intro id' hne hid'
          exact hothers id' hne (hreading.others id' hne hid')

end State

theorem accept_others {cfg : Config} (hcfg : cfg.FitsUid) {s t : NetState} {fd port : Nat}
    {ip : Bytes} (h : Pooled s)
    (hstep : s.registerConnection cfg.vector cfg.maxConnections configApplicationLayer fd ip port =
      some t) : Pooled t ∧ KeepsLive s t := by
  unfold registerConnection at hstep
  split_ifs at hstep with hmax
  · cases hstep
    exact ⟨h, fun _ hid => hid⟩
  · obtain ⟨⟨net, id⟩, hadd, rfl⟩ := Option.map_eq_some_iff.1 hstep
    have hfits := fitsUid_of_lt hcfg h.distinct (Nat.lt_of_not_le hmax)
    obtain ⟨ht, hlive, -⟩ := addConnection_others h hfits hadd
    exact ⟨ht, hlive⟩

/-- The events that neither open nor delete a connection. -/
def Event.keepsConnections : Event → Bool
  | .accept _ _ _ => false
  | .readEvent _ _ => false
  | .errEvent _ => false
  | .clearTimeout => false
  | _ => true

theorem undeleted_step {cfg : Config} {s t : State} {e : Event}
    (he : e.keepsConnections = true) (hstep : State.step cfg s e = some t) :
    Undeleted s.net t.net := by
  cases e with
  | writeEvent id ws =>
      obtain ⟨net, hnet, rfl⟩ := Option.map_eq_some_iff.1 hstep
      exact Undeleted.pending hnet
  | tick ms =>
      cases hstep
      exact Undeleted.of_eq rfl rfl
  | take =>
      simp only [State.step, State.takeTask] at hstep
      split at hstep
      · cases hstep
      · cases hstep
        exact Undeleted.refl _
  | check i =>
      simp only [State.step, State.checkTask] at hstep
      split at hstep
      · cases hstep
        exact Undeleted.refl _
      · cases hstep
  | handle i resp =>
      obtain ⟨_, _, -, -, -, -, -, hmgr, hnext, -⟩ := State.handleTask_eq hstep
      exact Undeleted.of_eq hmgr hnext
  | giveBack i =>
      simp only [State.step, State.giveBackTask] at hstep
      split at hstep
      · split at hstep
        · cases hstep
        · cases hstep
          exact Undeleted.refl _
      · cases hstep
  | handleSend w =>
      simp only [State.step, State.handleSend] at hstep
      split at hstep
      · cases hstep
      · obtain ⟨⟨net, done⟩, hnet, rfl⟩ := Option.map_eq_some_iff.1 hstep
        exact Undeleted.direct hnet
  | accept fd ip port => cases he
  | readEvent id outs => cases he
  | errEvent id => cases he
  | clearTimeout => cases he

/-- A heartbeat is sent only while the uids suffice: it opens a connection beside
`max_connections_`. -/
def HeartbeatFits (cfg : Config) (t : ServerThread) : OtherEvent → Prop
  | .heartbeat _ _ _ _ _ => t.server.net.mgr.FitsUid cfg.vector
  | _ => True

/-- Other threads delete no connection. -/
theorem other_others {cfg : Config} (hcfg : cfg.FitsUid) {e : OtherEvent} {t t' : ServerThread}
    {n : Option Notification} (h : Pooled t.server.net) (hfits : HeartbeatFits cfg t e)
    (hstep : t.other cfg e = some (t', n)) :
    Pooled t'.server.net ∧ KeepsLive t.server.net t'.server.net := by
  cases e with
  | accept fd ip port =>
      obtain ⟨t₁, ht₁, heq⟩ := Option.map_eq_some_iff.1 hstep
      obtain ⟨s, hs, rfl⟩ := act_eq ht₁
      obtain ⟨net, hnet, rfl⟩ := Option.map_eq_some_iff.1 hs
      cases heq
      exact accept_others hcfg h hnet
  | notifySend =>
      simp only [ServerThread.other] at hstep
      split_ifs at hstep
      cases hstep
      exact ⟨h, fun _ hid => hid⟩
  | heartbeat fd ip port request w =>
      obtain ⟨net, hbeat, -, rfl⟩ := heartbeat_eq hstep
      exact pooled_heartbeat h hfits hbeat
  | _ =>
      simp only [ServerThread.other] at hstep
      obtain ⟨t₁, ht₁, heq⟩ := Option.map_eq_some_iff.1 hstep
      obtain ⟨s, hs, rfl⟩ := act_eq ht₁
      have hundeleted := undeleted_step rfl hs
      cases heq
      exact ⟨hundeleted.pooled h, hundeleted.keepsLive⟩

/-- The loop gets what it relies on. -/
theorem lawful {cfg : Config} (hcfg : cfg.FitsUid) :
    Lawful (netThread cfg) (fun t => Pooled t.server.net) (fun _ _ => True)
      (HeartbeatFits cfg) where
  onErrEvent h hstep := by
    obtain ⟨s, hs, rfl⟩ := act_eq hstep
    obtain ⟨net, hnet, rfl⟩ := Option.map_eq_some_iff.1 hs
    exact onErrEvent_others h hnet
  onReadEvent h _ hstep := by
    obtain ⟨t₁, ht₁, heq⟩ := Option.map_eq_some_iff.1 hstep
    obtain ⟨s, hs, rfl⟩ := act_eq ht₁
    cases heq
    obtain ⟨hpooled, hothers, hresult⟩ := State.onReadEvent_others h hs
    exact ⟨hpooled, hothers, fun _ => (ReadReturn.ofResult_eq_deleted _).trans hresult⟩
  onWriteEvent h hstep := by
    obtain ⟨s, hs, rfl⟩ := act_eq hstep
    have hundeleted := undeleted_step rfl hs
    exact ⟨hundeleted.pooled h, hundeleted.keepsLive⟩
  handleNotification h hstep := by
    simp only [netThread] at hstep
    split_ifs at hstep
    · unfold ServerThread.handleSend at hstep
      split at hstep
      · cases hstep
        exact h
      · obtain ⟨t₁, ht₁, heq⟩ := Option.map_eq_some_iff.1 hstep
        obtain ⟨s, hs, rfl⟩ := act_eq ht₁
        cases heq
        exact (undeleted_step rfl hs).pooled h
    · cases hstep
      exact h
  clearTimeout h hstep := by
    obtain ⟨s, hs, rfl⟩ := clearTimeout_eq hstep
    cases hs
    exact pooled_clearTimeout h
  other h hfits hstep := other_others hcfg h hfits hstep

/-- The condition on an event of the loop. -/
def UidsSuffice (cfg : Config) :
    NetLoop ServerThread → LoopEvent (List ReadOutcome) OtherEvent → Prop :=
  CallsOk (fun _ _ => True) (HeartbeatFits cfg)

instance (cfg : Config) (t : ServerThread) : ∀ e, Decidable (HeartbeatFits cfg t e)
  | .heartbeat _ _ _ _ _ => inferInstanceAs (Decidable (t.server.net.mgr.FitsUid cfg.vector))
  | .accept _ _ _ => isTrue trivial
  | .tick _ => isTrue trivial
  | .take => isTrue trivial
  | .check _ => isTrue trivial
  | .handle _ _ => isTrue trivial
  | .giveBack _ => isTrue trivial
  | .notifySend => isTrue trivial

instance (cfg : Config) (l : NetLoop ServerThread) : ∀ e, Decidable (UidsSuffice cfg l e)
  | .other e => inferInstanceAs (Decidable (HeartbeatFits cfg l.thread e))
  | .test => isTrue trivial
  | .epollWait _ => isTrue trivial
  | .process _ _ => isTrue trivial
  | .handle _ => isTrue trivial
  | .endRound => isTrue trivial
  | .stop => isTrue trivial
  | .notifyStop => isTrue trivial

/-- **No event of a batch points to a deleted connection**, in no state of no
run of the loop and the threads beside it in which the uids suffice for the
heartbeats. -/
theorem webServer_batchLive {cfg : Config} (hcfg : cfg.FitsUid)
    {events : List (LoopEvent (List ReadOutcome) OtherEvent)}
    (hfits : Along (NetLoop.step (netThread cfg)) (UidsSuffice cfg)
      (launch (ServerThread.init cfg)) events) :
    ∀ l ∈ trace (NetLoop.step (netThread cfg)) (launch (ServerThread.init cfg)) events,
      BatchLive l.thread.server.net l.todo := by
  intro l hl
  exact (batchLive_trace (lawful hcfg) (pooled_init cfg.vector) hfits l hl).2

/-- Behind the failed connection, the batch goes on. -/
theorem webServer_batchLive_twoConnections :
    (∃ l ∈ trace (NetLoop.step (netThread State.sampleConfig))
        (launch (ServerThread.init State.sampleConfig)) twoConnections,
      l.todo = [⟨.connection 0, false, false, true⟩, ⟨.connection 1, true, false, false⟩]) ∧
      ∀ l ∈ trace (NetLoop.step (netThread State.sampleConfig))
        (launch (ServerThread.init State.sampleConfig)) twoConnections,
        BatchLive l.thread.server.net l.todo := by
  constructor
  · decide +kernel
  · exact webServer_batchLive (Config.fitsUid_libstdcxx rfl (by decide)) (by decide +kernel)

/-! ## The thread does not sleep over a return packet -/

/-- The events that put nothing on `send_queue_` and take nothing from it. -/
def Event.keepsSendQueue : Event → Bool
  | .giveBack _ => false
  | .handleSend _ => false
  | _ => true

theorem sendQueue_step {cfg : Config} {s t : State} {e : Event} (he : e.keepsSendQueue = true)
    (hstep : State.step cfg s e = some t) : t.sendQueue = s.sendQueue := by
  have hnet : ∀ {net : Option NetState}, net.map (fun net => { s with net }) = some t →
      t.sendQueue = s.sendQueue := by
    intro net h
    obtain ⟨net, -, rfl⟩ := Option.map_eq_some_iff.1 h
    rfl
  cases e with
  | accept fd ip port => exact hnet hstep
  | readEvent id outs =>
      simp only [State.step, State.onReadEvent] at hstep
      split at hstep
      · rename_i net ctx _
        unfold State.handleApplicationPacket at hstep
        by_cases hrefuses : State.refuses
            (State.isWorkerFullyLoad cfg { s with net }) ctx.applicationPacket = true
        · rw [if_pos hrefuses] at hstep
          obtain ⟨net, -, rfl⟩ := Option.map_eq_some_iff.1 hstep
          rfl
        · rw [if_neg hrefuses] at hstep
          cases hstep
          rfl
      · cases hstep
        rfl
      · cases hstep
        rfl
      · cases hstep
      · cases hstep
  | writeEvent id ws => exact hnet hstep
  | errEvent id => exact hnet hstep
  | clearTimeout =>
      cases hstep
      rfl
  | tick ms =>
      cases hstep
      rfl
  | take =>
      simp only [State.step, State.takeTask] at hstep
      split at hstep <;> cases hstep
      rfl
  | check i =>
      simp only [State.step, State.checkTask] at hstep
      split at hstep <;> cases hstep
      rfl
  | handle i resp =>
      obtain ⟨_, _, -, -, hsend, -⟩ := State.handleTask_eq hstep
      exact hsend
  | giveBack i => cases he
  | handleSend w => cases he

/-- What is done to `send_queue_` and to the two lists beside it: nothing, one
packet put, or one popped. -/
inductive QueueMove (t t' : ServerThread) : Prop
  | none : t'.server.sendQueue = t.server.sendQueue → t'.given = t.given → t'.taken = t.taken →
      QueueMove t t'
  | put (x : CtxId) : t'.server.sendQueue = pushBack t.server.sendQueue x →
      t'.given = t.given ++ (if t.server.sendQueue.length > kMaxQueueSize then [] else [x]) →
      t'.taken = t.taken → QueueMove t t'
  | pop (x : CtxId) : t.server.sendQueue = x :: t'.server.sendQueue → t'.given = t.given →
      t'.taken = t.taken ++ [x] → QueueMove t t'

theorem queueMove_act {cfg : Config} {e : Event} {t t' : ServerThread}
    (he : e.keepsSendQueue = true) (h : t.act cfg e = some t') : QueueMove t t' := by
  obtain ⟨s, hs, rfl⟩ := act_eq h
  exact .none (sendQueue_step he hs) rfl rfl

theorem queueMove_giveBack {cfg : Config} {i : Nat} {t t' : ServerThread}
    {n : Option Notification} (h : t.other cfg (.giveBack i) = some (t', n)) :
    QueueMove t t' ∧ n = none := by
  obtain ⟨t₁, ht₁, heq⟩ := Option.map_eq_some_iff.1 h
  obtain ⟨s, hs, rfl⟩ := act_eq ht₁
  cases heq
  refine ⟨?_, rfl⟩
  simp only [State.step, State.giveBackTask] at hs
  split at hs
  · rename_i ctx hworker
    split at hs
    · cases hs
    · rename_i x hx
      cases hs
      refine .put x rfl ?_ rfl
      show t.given ++ ServerThread.givenBack i t.server = _
      unfold ServerThread.givenBack
      simp only [hworker, hx, Option.toList_some]
  · cases hs

/-- One round of `HandleSend`; the last one finds the queue empty. -/
theorem queueMove_handleSend {cfg : Config} {w : WriteOutcome} {t t' : ServerThread} {more : Bool}
    (h : t.handleSend cfg w = some (t', more)) :
    QueueMove t t' ∧ (more = false → t' = t ∧ t.server.sendQueue = []) := by
  unfold ServerThread.handleSend at h
  split at h
  · rename_i hqueue
    cases h
    exact ⟨.none rfl rfl rfl, fun _ => ⟨rfl, hqueue⟩⟩
  · rename_i x rest hqueue
    obtain ⟨t₁, ht₁, heq⟩ := Option.map_eq_some_iff.1 h
    obtain ⟨s, hs, rfl⟩ := act_eq ht₁
    cases heq
    refine ⟨?_, fun hmore => by cases hmore⟩
    simp only [State.step, State.handleSend, hqueue] at hs
    obtain ⟨r, -, rfl⟩ := Option.map_eq_some_iff.1 hs
    exact .pop x hqueue rfl rfl

/-- A notification has been reported, and what `Run` does about it is still to
come. -/
def notifies : Phase → Prop
  | .events todo notifications =>
      (∃ ev ∈ todo, ∃ n, ev.data = .notification n) ∨ .send ∈ notifications
  | .notified notifications => .send ∈ notifications
  | _ => False

/-- A return packet waits only if a worker is going to notify, the notifier is
armed, a notification is being dealt with, or the thread is over. -/
def Woken (l : NetLoop ServerThread) : Prop :=
  l.thread.server.sendQueue ≠ [] →
    0 < l.thread.notifying ∨ (∃ n, l.armed = some (.notification n)) ∨ notifies l.phase ∨
      l.phase = .ended

/-- Nothing is put on the queue, and what was to come is still to come. -/
theorem Woken.of_le {l l' : NetLoop ServerThread} (h : Woken l)
    (hqueue : l'.thread.server.sendQueue ≠ [] → l.thread.server.sendQueue ≠ [])
    (hnotifying : l'.thread.notifying = l.thread.notifying)
    (harmed : ∀ n, l.armed = some (.notification n) →
      l'.armed = some (.notification n) ∨ notifies l'.phase)
    (hphase : notifies l.phase → l'.thread.server.sendQueue ≠ [] →
      notifies l'.phase ∨ l'.phase = .ended)
    (hended : l.phase = .ended → l'.phase = .ended) : Woken l' := by
  intro hne
  rcases h (hqueue hne) with hpos | ⟨n, hn⟩ | hnotifies | hend
  · exact Or.inl (hnotifying ▸ hpos)
  · rcases harmed n hn with harmed' | hnotifies
    · exact Or.inr (Or.inl ⟨n, harmed'⟩)
    · exact Or.inr (Or.inr (Or.inl hnotifies))
  · exact Or.inr (Or.inr (hphase hnotifies hne))
  · exact Or.inr (Or.inr (Or.inr (hended hend)))

/-- An event of the batch that is no notification has no part in this. -/
theorem notifies_tail {ev : EpollEvent} {todo : List EpollEvent} {ns : List Notification}
    (hev : ∀ n, ev.data ≠ .notification n) (h : notifies (.events (ev :: todo) ns)) :
    notifies (.events todo ns) := by
  rcases h with ⟨e, he, n, hn⟩ | hsend
  · rcases List.mem_cons.1 he with rfl | he
    · exact absurd hn (hev n)
    · exact Or.inl ⟨e, he, n, hn⟩
  · exact Or.inr hsend

theorem notifies_cons {ev : EpollEvent} {todo : List EpollEvent} {ns : List Notification}
    (h : notifies (.events todo ns)) : notifies (.events (ev :: todo) ns) := by
  rcases h with ⟨e, he, n, hn⟩ | hsend
  · exact Or.inl ⟨e, List.mem_cons_of_mem ev he, n, hn⟩
  · exact Or.inr hsend

/-- What is done about an event changes the server, but not its send queue. -/
theorem server_onEvent {cfg : Config} {l l' : NetLoop ServerThread} {outs : List ReadOutcome}
    {ws : List WriteOutcome} {ev : EpollEvent} {todo : List EpollEvent} {ns : List Notification}
    (h : l.onEvent (netThread cfg) outs ws ev todo ns = some l') :
    ∃ s, l'.thread = { l.thread with server := s } ∧
      s.sendQueue = l.thread.server.sendQueue ∧ l'.armed = l.armed := by
  unfold NetLoop.onEvent at h
  split at h
  · split_ifs at h <;> cases h <;> exact ⟨l.thread.server, rfl, rfl, rfl⟩
  · cases h
    exact ⟨l.thread.server, rfl, rfl, rfl⟩
  · split_ifs at h
    · obtain ⟨t, ht, rfl⟩ := Option.map_eq_some_iff.1 h
      obtain ⟨s, hs, rfl⟩ := act_eq ht
      exact ⟨s, rfl, sendQueue_step rfl hs, rfl⟩
    · obtain ⟨⟨t, ret⟩, ht, rfl⟩ := Option.map_eq_some_iff.1 h
      obtain ⟨t₁, ht₁, heq⟩ := Option.map_eq_some_iff.1 ht
      obtain ⟨s, hs, rfl⟩ := act_eq ht₁
      cases heq
      dsimp only
      rw [behindRead_ofResult]
      exact ⟨s, rfl, sendQueue_step rfl hs, rfl⟩
    · obtain ⟨t, ht, rfl⟩ := Option.map_eq_some_iff.1 h
      obtain ⟨s, hs, rfl⟩ := act_eq ht
      exact ⟨s, rfl, sendQueue_step rfl hs, rfl⟩
    · cases h
      exact ⟨l.thread.server, rfl, rfl, rfl⟩

/-- Where `Run` stands behind it: a notification is collected or ends the
loop, and any other event is done with or still the first one. -/
inductive Processed (ev : EpollEvent) (todo : List EpollEvent) (ns : List Notification) :
    Phase → Prop
  | stopped : ev.data = .notification .stop → Processed ev todo ns .ended
  | collected : ev.data = .notification .send →
      Processed ev todo ns (.events todo (ns ++ [.send]))
  | done : (∀ n, ev.data ≠ .notification n) → Processed ev todo ns (.events todo ns)
  | read (ev' : EpollEvent) : (∀ n, ev.data ≠ .notification n) → ev'.data = ev.data →
      Processed ev todo ns (.events (ev' :: todo) ns)

theorem processed_onEvent {cfg : Config} {l l' : NetLoop ServerThread} {outs : List ReadOutcome}
    {ws : List WriteOutcome} {ev : EpollEvent} {todo : List EpollEvent} {ns : List Notification}
    (h : l.onEvent (netThread cfg) outs ws ev todo ns = some l') :
    Processed ev todo ns l'.phase := by
  unfold NetLoop.onEvent at h
  split at h
  · rename_i n hev
    split_ifs at h with hstop hsend
    · cases h
      exact .stopped (hstop ▸ hev)
    · cases h
      have hn : n = .send := of_decide_eq_true hsend
      rw [hn]
      exact .collected (hn ▸ hev)
  · rename_i hev
    cases h
    exact .done fun n => by rw [hev]; simp
  · rename_i id hev
    have hconn : ∀ n, ev.data ≠ .notification n := fun n => by rw [hev]; simp
    split_ifs at h
    · obtain ⟨t, -, rfl⟩ := Option.map_eq_some_iff.1 h
      exact .done hconn
    · obtain ⟨⟨t, ret⟩, ht, rfl⟩ := Option.map_eq_some_iff.1 h
      obtain ⟨t₁, -, heq⟩ := Option.map_eq_some_iff.1 ht
      cases heq
      dsimp only
      rw [behindRead_ofResult]
      cases l.thread.server.onReadEventResult cfg id outs with
      | true => exact .done hconn
      | false => exact .read _ hconn rfl
    · obtain ⟨t, -, rfl⟩ := Option.map_eq_some_iff.1 h
      exact .done hconn
    · cases h
      exact .done hconn

/-- A wait reports an armed notifier or leaves it armed. -/
theorem behindReport_armed {evs : List EpollEvent} {n : Notification} {armed : Option EpollData}
    (h : armed = some (.notification n)) :
    SocketEpoll.behindReport evs armed = some (.notification n) ∨
      ∃ ev ∈ evs, ev.data = .notification n := by
  unfold SocketEpoll.behindReport
  split_ifs with hreported
  · obtain ⟨d, hd, hmem⟩ := hreported
    rw [h] at hd
    cases hd
    exact Or.inr (List.mem_map.1 hmem)
  · exact Or.inl h

theorem woken_onWait {l l' : NetLoop ServerThread} {net : NetState} {outs : List WaitOutcome}
    (h : Woken l) (hphase : l.phase = .waiting) (hwait : l.onWait net outs = some l') :
    Woken l' := by
  have hnone : ¬ notifies l.phase := by
    rw [hphase]
    exact fun h => h
  have hnotended : l.phase ≠ .ended := by
    rw [hphase]
    simp
  unfold onWait at hwait
  split at hwait
  · cases hwait
  · split_ifs at hwait <;> cases hwait <;>
      exact h.of_le (fun hne => hne) rfl (fun _ hn => Or.inl hn)
        (fun hn => absurd hn hnone) fun hend => absurd hend hnotended
  · split_ifs at hwait
    cases hwait
    refine h.of_le (fun hne => hne) rfl ?_ (fun hn => absurd hn hnone)
      fun hend => absurd hend hnotended
    intro n hn
    rcases behindReport_armed hn with harmed | ⟨ev, hev, hdata⟩
    · exact Or.inl harmed
    · exact Or.inr (Or.inl ⟨ev, hev, n, hdata⟩)

theorem woken_other {cfg : Config} {l : NetLoop ServerThread} {e : OtherEvent} {t : ServerThread}
    {n : Option Notification} (h : Woken l) (hother : l.thread.other cfg e = some (t, n)) :
    Woken (notifyEpoll n { l with thread := t }) := by
  cases e with
  | giveBack i =>
      obtain ⟨hmove, rfl⟩ := queueMove_giveBack hother
      obtain ⟨t₁, ht₁, heq⟩ := Option.map_eq_some_iff.1 hother
      cases heq
      exact fun _ => Or.inl (Nat.succ_pos _)
  | notifySend =>
      simp only [ServerThread.other] at hother
      split_ifs at hother
      cases hother
      exact fun _ => Or.inr (Or.inl ⟨.send, rfl⟩)
  | heartbeat fd ip port request w =>
      obtain ⟨net, -, rfl, rfl⟩ := heartbeat_eq hother
      exact h
  | _ =>
      simp only [ServerThread.other] at hother
      obtain ⟨t₁, ht₁, heq⟩ := Option.map_eq_some_iff.1 hother
      obtain ⟨s, hs, rfl⟩ := act_eq ht₁
      cases heq
      have hqueue := sendQueue_step rfl hs
      exact h.of_le (fun hne => by rwa [← hqueue]) rfl (fun _ hn => Or.inl hn)
        (fun hn _ => Or.inl hn) fun hend => hend

/-- `while (running_)` changes neither the queue nor the notifier. -/
theorem woken_test {l : NetLoop ServerThread} {phase : Phase} (h : Woken l)
    (hphase : l.phase = .testing) : Woken { l with phase := phase } := by
  refine h.of_le (fun hne => hne) rfl (fun _ hn => Or.inl hn) ?_ ?_
  · rw [hphase]
    exact fun hn => absurd hn id
  · rw [hphase]
    exact fun hend => by cases hend

/-- Behind the last event of the report the collected notifications are handled. -/
theorem woken_reportDone {l : NetLoop ServerThread} {ns : List Notification} (h : Woken l)
    (hphase : l.phase = .events [] ns) : Woken { l with phase := .notified ns } := by
  refine h.of_le (fun hne => hne) rfl (fun _ hn => Or.inl hn) ?_ ?_
  · rw [hphase]
    rintro (⟨ev, hev, -⟩ | hsend) _
    · cases hev
    · exact Or.inl hsend
  · rw [hphase]
    exact fun hend => by cases hend

/-- A reported notification that has been processed is collected, or the thread stops. -/
theorem woken_onEvent {cfg : Config} {l l' : NetLoop ServerThread} {outs : List ReadOutcome}
    {ws : List WriteOutcome} {ev : EpollEvent} {todo : List EpollEvent} {ns : List Notification}
    (h : Woken l) (hphase : l.phase = .events (ev :: todo) ns)
    (hstep : l.onEvent (netThread cfg) outs ws ev todo ns = some l') : Woken l' := by
  obtain ⟨s, hthread, hqueue, harmed⟩ := server_onEvent hstep
  refine h.of_le ?_ (by rw [hthread]) (fun n hn => Or.inl (harmed.trans hn)) ?_ ?_
  · rw [hthread]
    exact fun hne => hqueue ▸ hne
  · intro hn _
    rw [hphase] at hn
    generalize l'.phase = phase, processed_onEvent hstep = hprocessed
    cases hprocessed with
    | stopped _ => exact Or.inr rfl
    | collected _ =>
        exact Or.inl (Or.inr (List.mem_append_right _ (List.mem_singleton_self _)))
    | done hdata => exact Or.inl (notifies_tail hdata hn)
    | read ev' hdata _ => exact Or.inl (notifies_cons (notifies_tail hdata hn))
  · rw [hphase]
    exact fun hend => by cases hend

/-- `HandleSend` is called again until it has seen the queue empty; any other notification is
left behind without a look at the queue. -/
theorem woken_handle {cfg : Config} {l : NetLoop ServerThread} {w : WriteOutcome}
    {n : Notification} {rest : List Notification} {t : ServerThread} {more : Bool}
    (h : Woken l) (hphase : l.phase = .notified (n :: rest))
    (ht : (netThread cfg).handleNotification n w l.thread = some (t, more)) :
    Woken { l with thread := t, phase := .notified (if more then n :: rest else rest) } := by
  simp only [netThread] at ht
  split_ifs at ht with hn
  · obtain ⟨-, hlast⟩ := queueMove_handleSend ht
    cases more with
    | true => exact fun _ => Or.inr (Or.inr (Or.inl (hn ▸ List.mem_cons_self)))
    | false =>
        obtain ⟨rfl, hempty⟩ := hlast rfl
        exact fun hne => absurd hempty hne
  · cases ht
    refine h.of_le (fun hne => hne) rfl (fun _ hn => Or.inl hn) ?_ ?_
    · rw [hphase]
      intro hmem _
      rcases List.mem_cons.1 hmem with heq | hmem
      · exact absurd heq.symm hn
      · exact Or.inl hmem
    · rw [hphase]
      exact fun hend => by cases hend

/-- The end of a round: `ClearTimeout` leaves `send_queue_`. -/
theorem woken_endRound {cfg : Config} {l l' : NetLoop ServerThread} (h : Woken l)
    (hphase : l.phase = .notified []) (hstep : l.endRound (netThread cfg) = some l') :
    Woken l' := by
  have hnone : ¬ notifies l.phase := by
    rw [hphase]
    exact List.not_mem_nil
  have hnotended : l.phase ≠ .ended := by
    rw [hphase]
    simp
  rcases endRound_cases hstep with ⟨t, ht, rfl⟩ | rfl
  · obtain ⟨s, hs, rfl⟩ := clearTimeout_eq ht
    have hqueue := sendQueue_step rfl hs
    exact h.of_le (fun hne => hqueue ▸ hne) rfl (fun _ hn => Or.inl hn)
      (fun hn => absurd hn hnone) fun hend => absurd hend hnotended
  · exact h.of_le (fun hne => hne) rfl (fun _ hn => Or.inl hn)
      (fun hn => absurd hn hnone) fun hend => absurd hend hnotended

theorem woken_step {cfg : Config} {l l' : NetLoop ServerThread}
    {e : LoopEvent (List ReadOutcome) OtherEvent} (h : Woken l)
    (hstep : NetLoop.step (netThread cfg) l e = some l') : Woken l' := by
  cases e with
  | test =>
      simp only [NetLoop.step] at hstep
      split at hstep
      · rename_i hphase
        cases hstep
        exact woken_test h hphase
      · cases hstep
  | epollWait outs =>
      simp only [NetLoop.step] at hstep
      split at hstep
      · rename_i hphase
        exact woken_onWait h hphase hstep
      · cases hstep
  | process outs ws =>
      simp only [NetLoop.step] at hstep
      split at hstep
      · rename_i ns hphase
        cases hstep
        exact woken_reportDone h hphase
      · rename_i ev todo ns hphase
        exact woken_onEvent h hphase hstep
      · cases hstep
  | handle w =>
      simp only [NetLoop.step] at hstep
      split at hstep
      · rename_i n rest hphase
        obtain ⟨⟨t, more⟩, ht, rfl⟩ := Option.map_eq_some_iff.1 hstep
        exact woken_handle h hphase ht
      · cases hstep
  | endRound =>
      simp only [NetLoop.step] at hstep
      split at hstep
      · rename_i hphase
        exact woken_endRound h hphase hstep
      · cases hstep
  | other e =>
      obtain ⟨⟨t, n⟩, ht, rfl⟩ := Option.map_eq_some_iff.1 hstep
      exact woken_other h ht
  | stop =>
      cases hstep
      exact h
  | notifyStop =>
      simp only [NetLoop.step] at hstep
      split_ifs at hstep
      cases hstep
      exact fun _ => Or.inr (Or.inl ⟨.stop, rfl⟩)

/-- **No wake-up is lost**, in no state of no run. -/
theorem woken_trace (cfg : Config) (events : List (LoopEvent (List ReadOutcome) OtherEvent)) :
    ∀ l ∈ trace (NetLoop.step (netThread cfg)) (launch (ServerThread.init cfg)) events,
      Woken l :=
  trace_invariant_of_forall (fun _ _ _ h hstep => woken_step h hstep)
    fun hne => absurd rfl hne

theorem woken_trace_twoConnections :
    ∃ l ∈ trace (NetLoop.step (netThread State.sampleConfig))
        (launch (ServerThread.init State.sampleConfig)) twoConnections,
      l.thread.server.sendQueue ≠ [] ∧ l.thread.notifying = 0 ∧
        (0 < l.thread.notifying ∨ (∃ n, l.armed = some (.notification n)) ∨ notifies l.phase ∨
          l.phase = .ended) := by
  obtain ⟨l, hl, hqueue, hnotifying⟩ :
      ∃ l ∈ trace (NetLoop.step (netThread State.sampleConfig))
          (launch (ServerThread.init State.sampleConfig)) twoConnections,
        l.thread.server.sendQueue ≠ [] ∧ l.thread.notifying = 0 := by
    decide +kernel
  exact ⟨l, hl, hqueue, hnotifying, woken_trace State.sampleConfig twoConnections l hl hqueue⟩

/-! ## One round behind a notification -/

/-- What has been given back is what has been taken and what waits. -/
def Accounted (t : ServerThread) : Prop := t.given = t.taken ++ t.server.sendQueue

theorem Accounted.move {t t' : ServerThread} (h : Accounted t) (hmove : QueueMove t t') :
    Accounted t' ∧ t.given <+: t'.given ∧ t.taken <+: t'.taken := by
  unfold Accounted at h ⊢
  cases hmove with
  | none hqueue hgiven htaken =>
      rw [hqueue, hgiven, htaken]
      exact ⟨h, List.prefix_refl _, List.prefix_refl _⟩
  | put x hqueue hgiven htaken =>
      rw [hqueue, hgiven, htaken]
      refine ⟨?_, List.prefix_append _ _, List.prefix_refl _⟩
      unfold pushBack
      split_ifs
      · rw [List.append_nil]
        exact h
      · rw [h, List.append_assoc]
  | pop x hqueue hgiven htaken =>
      rw [hgiven, htaken]
      refine ⟨?_, List.prefix_refl _, List.prefix_append _ _⟩
      rw [h, hqueue]
      simp

theorem queueMove_called {cfg : Config} {t t' : ServerThread} {last last' : Nat}
    {e : LoopEvent (List ReadOutcome) OtherEvent}
    (h : Called (netThread cfg) t last e t' last') : QueueMove t t' := by
  cases h with
  | nothing e => exact .none rfl rfl rfl
  | errEvent e id t' _ ht => exact queueMove_act (e := .errEvent id) rfl ht
  | readEvent e id outs t' ret _ ht =>
      obtain ⟨t₁, ht₁, heq⟩ := Option.map_eq_some_iff.1 ht
      cases heq
      exact queueMove_act (e := .readEvent id outs) rfl ht₁
  | writeEvent e id ws t' _ ht => exact queueMove_act (e := .writeEvent id ws) rfl ht
  | notification e n w t' more _ ht =>
      simp only [netThread] at ht
      split_ifs at ht
      · exact (queueMove_handleSend ht).1
      · cases ht
        exact .none rfl rfl rfl
  | clearTimeout e t' _ ht =>
      have hact : t.act cfg .clearTimeout = some t' := ht
      exact queueMove_act rfl hact
  | other e t' n ht =>
      cases e with
      | giveBack i => exact (queueMove_giveBack ht).1
      | notifySend =>
          simp only [netThread, ServerThread.other] at ht
          split_ifs at ht
          cases ht
          exact .none rfl rfl rfl
      | heartbeat fd ip port request w =>
          obtain ⟨net, -, -, rfl⟩ := heartbeat_eq ht
          exact .none rfl rfl rfl
      | _ =>
          simp only [netThread, ServerThread.other] at ht
          obtain ⟨t₁, ht₁, heq⟩ := Option.map_eq_some_iff.1 ht
          cases heq
          exact queueMove_act rfl ht₁

/-- What any event does to the queue and the lists beside it. -/
theorem queueMove_step {cfg : Config} {l l' : NetLoop ServerThread}
    {e : LoopEvent (List ReadOutcome) OtherEvent}
    (hstep : NetLoop.step (netThread cfg) l e = some l') : QueueMove l.thread l'.thread :=
  queueMove_called (called_step hstep)

theorem accounted_step {cfg : Config} {l l' : NetLoop ServerThread}
    {e : LoopEvent (List ReadOutcome) OtherEvent} (h : Accounted l.thread)
    (hstep : NetLoop.step (netThread cfg) l e = some l') : Accounted l'.thread :=
  (h.move (queueMove_step hstep)).1

/-- While the round goes on that has been told to send: `HandleSend` is still
to come, or `before` has been taken. -/
def Sends (before taken : List CtxId) : Phase → Prop
  | .events todo ns => (∃ ev ∈ todo, ev.data = .notification .send) ∨ .send ∈ ns
  | .notified ns => .send ∈ ns ∨ before <+: taken
  | .ended => True
  | _ => before <+: taken

/-- The invariant of this round. -/
structure Serving (before : List CtxId) (l : NetLoop ServerThread) : Prop where
  accounted : Accounted l.thread
  given : before <+: l.thread.given
  sends : Sends before l.thread.taken l.phase

theorem Sends.mono {before taken taken' : List CtxId} {phase : Phase}
    (h : Sends before taken phase) (hle : taken <+: taken') : Sends before taken' phase := by
  cases phase with
  | events todo ns => exact h
  | notified ns => exact h.imp_right fun hbefore => hbefore.trans hle
  | ended => trivial
  | testing => exact List.IsPrefix.trans h hle
  | waiting => exact List.IsPrefix.trans h hle

theorem Sends.processed {before taken : List CtxId} {ev : EpollEvent} {todo : List EpollEvent}
    {ns : List Notification} {phase : Phase} (h : Sends before taken (.events (ev :: todo) ns))
    (hprocessed : Processed ev todo ns phase) : Sends before taken phase := by
  have htail : ev.data ≠ .notification .send → Sends before taken (.events todo ns) := by
    intro hne
    rcases h with ⟨e, he, hsend⟩ | hsend
    · rcases List.mem_cons.1 he with rfl | he
      · exact absurd hsend hne
      · exact Or.inl ⟨e, he, hsend⟩
    · exact Or.inr hsend
  cases hprocessed with
  | stopped _ => trivial
  | collected _ => exact Or.inr (List.mem_append_right _ (List.mem_singleton_self _))
  | done hdata => exact htail (hdata .send)
  | read ev' hdata _ =>
      refine (htail (hdata .send)).imp_left ?_
      rintro ⟨e, he, hsend⟩
      exact ⟨e, List.mem_cons_of_mem ev' he, hsend⟩

theorem Serving.test {before : List CtxId} {l : NetLoop ServerThread} (h : Serving before l)
    (hphase : l.phase = .testing) :
    Sends before l.thread.taken (if l.running then .waiting else .ended) := by
  have hsends := h.sends
  rw [hphase] at hsends
  split_ifs
  · exact hsends
  · trivial

/-- Once no event is left, the send notification is among those collected. -/
theorem Serving.processed {before : List CtxId} {l : NetLoop ServerThread}
    {ns : List Notification} (h : Serving before l) (hphase : l.phase = .events [] ns) :
    Sends before l.thread.taken (.notified ns) := by
  have hsends := h.sends
  rw [hphase] at hsends
  rcases hsends with ⟨ev, hev, -⟩ | hsend
  · cases hev
  · exact Or.inl hsend

/-- `HandleSend` is called again until it has seen the queue empty: all that has been given
back has then been taken. -/
theorem Serving.handle {cfg : Config} {before : List CtxId} {l : NetLoop ServerThread}
    {w : WriteOutcome} {n : Notification} {rest : List Notification} {t : ServerThread}
    {more : Bool} (h : Serving before l) (hphase : l.phase = .notified (n :: rest))
    (ht : (netThread cfg).handleNotification n w l.thread = some (t, more)) :
    Sends before t.taken (.notified (if more then n :: rest else rest)) := by
  have hsends := h.sends
  rw [hphase] at hsends
  simp only [netThread] at ht
  split_ifs at ht with hn
  · cases more with
    | true => exact Or.inl (hn ▸ List.mem_cons_self)
    | false =>
        obtain ⟨rfl, hempty⟩ := (queueMove_handleSend ht).2 rfl
        right
        have hall : l.thread.given = l.thread.taken ++ l.thread.server.sendQueue := h.accounted
        rw [hempty, List.append_nil] at hall
        exact hall ▸ h.given
  · cases ht
    rcases hsends with hsend | hbefore
    · rcases List.mem_cons.1 hsend with heq | hsend
      · exact absurd heq.symm hn
      · exact Or.inl hsend
    · exact Or.inr hbefore

theorem Serving.endRound {cfg : Config} {before : List CtxId} {l l' : NetLoop ServerThread}
    (h : Serving before l) (hphase : l.phase = .notified [])
    (htaken : l.thread.taken <+: l'.thread.taken)
    (hstep : l.endRound (netThread cfg) = some l') :
    Sends before l'.thread.taken l'.phase := by
  have hsends := h.sends
  rw [hphase] at hsends
  have hbefore : before <+: l.thread.taken := by
    rcases hsends with hsend | hbefore
    · cases hsend
    · exact hbefore
  rcases endRound_cases hstep with ⟨t, -, rfl⟩ | rfl
  · exact hbefore.trans htaken
  · exact hbefore

/-- What an event other than `EpollWait` leaves to do. -/
theorem sends_step {cfg : Config} {before : List CtxId} {l l' : NetLoop ServerThread}
    {e : LoopEvent (List ReadOutcome) OtherEvent} (h : Serving before l)
    (he : ∀ outs, e ≠ .epollWait outs)
    (hstep : NetLoop.step (netThread cfg) l e = some l') :
    Sends before l'.thread.taken l'.phase := by
  have htaken := (h.accounted.move (queueMove_step hstep)).2.2
  cases e with
  | test =>
      simp only [NetLoop.step] at hstep
      split at hstep
      · rename_i hphase
        cases hstep
        exact h.test hphase
      · cases hstep
  | epollWait outs => exact absurd rfl (he outs)
  | process outs ws =>
      simp only [NetLoop.step] at hstep
      split at hstep
      · rename_i ns hphase
        cases hstep
        exact h.processed hphase
      · rename_i ev todo ns hphase
        have hsends := h.sends
        rw [hphase] at hsends
        exact (hsends.processed (processed_onEvent hstep)).mono htaken
      · cases hstep
  | handle w =>
      simp only [NetLoop.step] at hstep
      split at hstep
      · rename_i n rest hphase
        obtain ⟨⟨t, more⟩, ht, rfl⟩ := Option.map_eq_some_iff.1 hstep
        exact h.handle hphase ht
      · cases hstep
  | endRound =>
      simp only [NetLoop.step] at hstep
      split at hstep
      · rename_i hphase
        exact h.endRound hphase htaken hstep
      · cases hstep
  | other e =>
      obtain ⟨⟨t, n⟩, ht, rfl⟩ := Option.map_eq_some_iff.1 hstep
      rw [notifyEpoll_phase]
      exact h.sends.mono htaken
  | stop =>
      cases hstep
      exact h.sends
  | notifyStop =>
      simp only [NetLoop.step] at hstep
      split_ifs at hstep
      cases hstep
      exact h.sends

theorem serving_run {cfg : Config} {before : List CtxId} {l l' : NetLoop ServerThread}
    {events : List (LoopEvent (List ReadOutcome) OtherEvent)} (h : Serving before l)
    (hevents : ∀ e ∈ events, ∀ outs, e ≠ .epollWait outs)
    (hrun : run (NetLoop.step (netThread cfg)) l events = some l') : Serving before l' := by
  induction events generalizing l with
  | nil =>
      cases hrun
      exact h
  | cons e events ih =>
      cases hstep : NetLoop.step (netThread cfg) l e with
      | none => simp [run, hstep] at hrun
      | some l₁ =>
          rw [run_cons_some hstep] at hrun
          obtain ⟨haccounted, hgiven, -⟩ := h.accounted.move (queueMove_step hstep)
          have hsends := sends_step h (hevents e List.mem_cons_self) hstep
          exact ih ⟨haccounted, h.given.trans hgiven, hsends⟩
            (fun e he => hevents e (List.mem_cons_of_mem _ he)) hrun

/-- **One round behind a notification.**  If a wait that is not full finds the
notifier armed for `notification_send_`, everything that had been given back by
then is taken, in this order, before the thread waits again. -/
theorem taken_of_round {cfg : Config} {start : List (LoopEvent (List ReadOutcome) OtherEvent)}
    {calls : List WaitOutcome} {evs : List EpollEvent}
    {round : List (LoopEvent (List ReadOutcome) OtherEvent)} {l l' : NetLoop ServerThread}
    (hstart : run (NetLoop.step (netThread cfg)) (launch (ServerThread.init cfg)) start = some l)
    (harmed : l.armed = some (.notification .send))
    (hcalls : calls.getLast? = some (.events evs)) (hroom : evs.length < SocketEpoll.kMaxFds)
    (hround : ∀ e ∈ round, ∀ outs, e ≠ .epollWait outs)
    (hrun : run (NetLoop.step (netThread cfg)) l (.epollWait calls :: round) = some l')
    (hend : l'.phase = .testing ∨ l'.phase = .waiting) :
    l.thread.given <+: l'.thread.taken := by
  have hinit : Accounted (launch (ServerThread.init cfg)).thread := rfl
  have haccounted : ∀ l ∈ trace (NetLoop.step (netThread cfg)) (launch (ServerThread.init cfg))
      start, Accounted l.thread :=
    trace_invariant_of_forall (fun _ _ _ h hstep => accounted_step h hstep) hinit
  replace haccounted := haccounted l (run_mem_trace hstart)
  cases hstep : NetLoop.step (netThread cfg) l (.epollWait calls) with
  | none => simp [run, hstep] at hrun
  | some l₁ =>
      rw [run_cons_some hstep] at hrun
      simp only [NetLoop.step] at hstep
      split at hstep
      · have hthread := (batchLive_onWait hstep).1
        obtain ⟨hphase, hcomplete⟩ := onWait_events hstep hcalls
        obtain ⟨ev, hev, hdata⟩ := List.mem_map.1 (hcomplete hroom _ harmed)
        have hserving : Serving l.thread.given l₁ := by
          refine ⟨hthread ▸ haccounted, hthread ▸ List.prefix_refl _, ?_⟩
          rw [hphase]
          exact Or.inl ⟨ev, hev, hdata⟩
        have hsends := (serving_run hserving hround hrun).sends
        rcases hend with hphase' | hphase'
        · rw [hphase'] at hsends
          exact hsends
        · rw [hphase'] at hsends
          exact hsends
      · cases hstep

/-- The round behind `twoConnections`. -/
def sendRound : List (LoopEvent (List ReadOutcome) OtherEvent) :=
  [.process [] [], .process [] [], .handle (.wrote 2), .handle .eagain, .endRound]

theorem taken_of_round_twoConnections :
    ∃ l l', run (NetLoop.step (netThread State.sampleConfig))
        (launch (ServerThread.init State.sampleConfig)) twoConnections = some l ∧
      run (NetLoop.step (netThread State.sampleConfig)) l
        (.epollWait [.events [⟨.notification .send, false, false, true⟩]] :: sendRound) = some l' ∧
      l.thread.given = [0] ∧ l.thread.given <+: l'.thread.taken := by
  obtain ⟨l, hl, harmed, hgiven, l', hl', hend⟩ :
      ∃ l ∈ run (NetLoop.step (netThread State.sampleConfig))
          (launch (ServerThread.init State.sampleConfig)) twoConnections,
        l.armed = some (.notification .send) ∧ l.thread.given = [0] ∧
        ∃ l' ∈ run (NetLoop.step (netThread State.sampleConfig)) l
          (.epollWait [.events [⟨.notification .send, false, false, true⟩]] :: sendRound),
          l'.phase = .testing := by
    decide +kernel
  have hround : ∀ e ∈ sendRound, ∀ outs, e ≠ .epollWait outs := by
    simp [sendRound]
  exact ⟨l, l', hl, hl', hgiven,
    taken_of_round hl harmed rfl (by decide) hround hl' (Or.inl hend)⟩

end Unixtar.WebServer
