import Unixtar.NetworkModel.EventLoop
import Unixtar.ReverseProxy.Routing

/-!
# The reverse proxy in its loop: `ReverseProxyServer::NetThread`

The loop of `NetworkModel/EventLoop.lean` with what
`ReverseProxyServer::NetThread` overrides.  A batch can hold a client and the
connections to web servers opened for it; handling one of them writes to the
others, but never deletes them.

A step that fails an assertion is the end of the process, and no step of the
loop.  An exception out of `DoParse` is the end of the thread: nothing between
`std::stoi` and `Thread::Entry` catches it.

## Main result

* `proxy_batchLive` — no event of a batch points to a deleted connection.
-/

namespace Unixtar.ReverseProxy

open Unixtar.Lib NetState NetLoop

/-! ## The thread -/

/-- What the environment decides when a connection is read. -/
structure ReadInput where
  outs : List ReadOutcome
  forward : Forward
  write : WriteOutcome

/-- What other threads do. -/
inductive OtherEvent
  /-- the main thread hands over a descriptor -/
  | accept (fd : Nat) (ip : Bytes) (port : Nat)
  /-- time passes -/
  | tick (ms : Nat)

/-- The result of `HandleApplicationPacket`. -/
def handleApplicationPacketResult (cfg : Config) (ctx : RecvContext) : Bool :=
  match ctx.applicationPacket.protocol with
  | .kHttp1_1 =>
      match ctx.type with
      | .kAcceptFrom => checkHeartbeat cfg ctx = some true
      | .kConnectTo => true
  | .kWebSocket => false
  | _ => true

/-- The result of `__OnReadEvent`. -/
def onReadEventResult (cfg : Config) (id : ConnId) (outs : List ReadOutcome) (s : State) :
    Bool :=
  match s.net.onReadEvent upgradeApplicationProtocol id outs with
  | some (_, .dispatched ctx) => handleApplicationPacketResult cfg ctx
  | some (_, .deleted) => true
  | _ => false

/-- A call of `DoParse` throws. -/
def throws (id : ConnId) (outs : List ReadOutcome) (net : NetState) : Bool :=
  (net.mgr.conns id).any fun c => (c.receive outs).any fun r => r.ret = .crashed

/-- A read event that does not end the process. -/
def readEvent (cfg : Config) (id : ConnId) (i : ReadInput) (s : State) : Option State :=
  (State.step cfg s (.readEvent id i.outs i.forward i.write)).filter fun t => !t.aborted

/-- `ReverseProxyServer::NetThread`; it overrides neither `CheckNotification`
nor `HandleNotification`. -/
def netThread (cfg : Config) : NetThreadImpl State ReadInput OtherEvent where
  net s := s.net
  onErrEvent id s := State.step cfg s (.errEvent id)
  onReadEvent id i s :=
    if throws id i.outs s.net then
      (s.net.onReadEvent upgradeApplicationProtocol id i.outs).map fun r =>
        ({ s with net := r.1 }, .threw)
    else
      (readEvent cfg id i s).map fun t => (t, .ofResult (onReadEventResult cfg id i.outs s))
  onWriteEvent id ws s := State.step cfg s (.writeEvent id ws)
  checkNotification _ := false
  handleNotification _ _ s := some (s, false)
  clearTimeout s := State.step cfg s .clearTimeout
  other e s :=
    match e with
    | .accept fd ip port => (State.step cfg s (.accept fd ip port)).map fun t => (t, none)
    | .tick ms => (State.step cfg s (.tick ms)).map fun t => (t, none)

/-! ## No event of a batch points to a deleted connection -/

/-- Connections may be opened: an enlargement of the pool stays within the
range of a uid. -/
def MayOpen (cfg : Config) (s : State) : Prop := s.net.mgr.FitsUid cfg.vector

theorem undeleted_setBuffer (x : CtxId) (k : SendContext) (b : AutoBuffer) (net : NetState) :
    Undeleted net (setBuffer x k b net) :=
  Undeleted.of_eq rfl rfl

theorem undeleted_deepCopyRest (x : CtxId) (httpPacket : Bytes) (net : NetState) :
    Undeleted net (deepCopyRest x httpPacket net) := by
  unfold deepCopyRest
  split
  · exact Undeleted.refl net
  · exact undeleted_setBuffer _ _ _ _

theorem undeleted_handleForwardFailed {s t : State} {ctx : RecvContext} {w : WriteOutcome}
    (hstep : s.handleForwardFailed ctx w = some t) : Undeleted s.net t.net := by
  unfold State.handleForwardFailed at hstep
  split at hstep
  · cases hstep
  · split at hstep
    · cases hstep
    · obtain ⟨⟨net, done⟩, hsend, rfl⟩ := Option.map_eq_some_iff.1 hstep
      exact (undeleted_setBuffer _ _ _ _).trans (Undeleted.direct hsend)

theorem undeleted_forwardTo {s t : State} {ctx : RecvContext} {id : ConnId} {w : WriteOutcome}
    (hstep : State.forwardTo ctx id w s = some t) : Undeleted s.net t.net := by
  unfold State.forwardTo at hstep
  split at hstep
  · rename_i c client httpPacket hc _
    obtain ⟨⟨net, done⟩, hsend, rfl⟩ := Option.map_eq_some_iff.1 hstep
    have hset : Undeleted s.net
        (s.net.setConn id (c.makeSendContext id s.net.nextCtx).1) := Undeleted.setConn hc rfl
    exact (hset.trans (Undeleted.allocCtx _ _)).trans (Undeleted.direct hsend)
  · cases hstep

/-- The request of the connection `id`, whose uid the packet has: a heartbeat
deletes the connection, and nothing else happens to the others. -/
theorem handleHttpRequest_others {cfg : Config} {s t : State} {ctx : RecvContext} {id : ConnId}
    {c : ConnectionProfile} {forward : Forward} {w : WriteOutcome} (h : Pooled s.net)
    (hopen : MayOpen cfg s) (hc : s.net.mgr.conns id = some c)
    (huid : ctx.tcpConnectionUid = c.uid)
    (hstep : s.handleHttpRequest cfg ctx forward w = some t) :
    Pooled t.net ∧ KeepsOthers id s.net t.net ∧
      (checkHeartbeat cfg ctx = some true ↔ t.net.isLive id = false) := by
  have hlive : s.net.isLive id = true := isLive_of_conns hc
  unfold State.handleHttpRequest at hstep
  split at hstep
  · cases hstep
  · rename_i hheartbeat
    obtain ⟨net, hdel, rfl⟩ := Option.map_eq_some_iff.1 hstep
    rw [huid] at hdel
    obtain ⟨ht, hothers, hdead⟩ := delConnection_others h hc hdel
    exact ⟨ht, hothers, iff_of_true hheartbeat hdead⟩
  · rename_i hheartbeat
    have hkeeps : Pooled t.net ∧ KeepsLive s.net t.net := by
      split at hstep
      · have hundeleted := undeleted_handleForwardFailed hstep
        exact ⟨hundeleted.pooled h, hundeleted.keepsLive⟩
      · cases hstep
      · split at hstep
        · cases hstep
        · rename_i net id' hmake
          obtain ⟨hnet, hlives, -⟩ := addConnection_others h hopen hmake
          have hundeleted := undeleted_forwardTo hstep
          exact ⟨hundeleted.pooled hnet, hlives.trans hundeleted.keepsLive⟩
    refine ⟨hkeeps.1, hkeeps.2.others id, iff_of_false (by rw [hheartbeat]; simp) ?_⟩
    rw [hkeeps.2 id hlive]
    exact Bool.noConfusion

/-- The response on the connection `id`, whose uid the packet has: the
connection is deleted, and no other one. -/
theorem handleHttpResponse_others {s t : State} {ctx : RecvContext} {id : ConnId}
    {c : ConnectionProfile} {w : WriteOutcome} (h : Pooled s.net)
    (hc : s.net.mgr.conns id = some c) (huid : ctx.tcpConnectionUid = c.uid)
    (hstep : s.handleHttpResponse ctx w = some t) (hrunning : t.aborted = false) :
    Pooled t.net ∧ KeepsOthers id s.net t.net ∧ t.net.isLive id = false := by
  -- `finish` on a thread that has the same connections
  have hfinish : ∀ {s' : State} {r : Routed}, Undeleted s.net s'.net →
      (s'.finish ctx.tcpConnectionUid r).aborted = false →
      Pooled (s'.finish ctx.tcpConnectionUid r).net ∧
        KeepsOthers id s.net (s'.finish ctx.tcpConnectionUid r).net ∧
        (s'.finish ctx.tcpConnectionUid r).net.isLive id = false := by
    intro s' r hundeleted hrun
    obtain ⟨d, hd, hduid⟩ := hundeleted.conn hc
    unfold State.finish at hrun ⊢
    split at hrun
    · cases hrun
    · rename_i net hdel
      rw [huid, ← hduid] at hdel
      obtain ⟨ht, hothers, hdead⟩ := delConnection_others (hundeleted.pooled h) hd hdel
      exact ⟨ht, hundeleted.keepsLive.transOthers hothers, hdead⟩
  unfold State.handleHttpResponse at hstep
  dsimp only at hstep
  split at hstep
  · cases hstep
    cases hrunning
  · cases hstep
    exact hfinish (Undeleted.refl s.net) hrunning
  · split at hstep
    · split at hstep
      · cases hstep
        cases hrunning
      · obtain ⟨⟨net, done⟩, hsend, rfl⟩ := Option.map_eq_some_iff.1 hstep
        have hundeleted := (undeleted_setBuffer _ _ _ s.net).trans (Undeleted.direct hsend)
        apply hfinish _ hrunning
        cases done with
        | true => exact hundeleted
        | false => exact hundeleted.trans (undeleted_deepCopyRest _ _ _)
    · cases hstep
      cases hrunning

theorem handleApplicationPacket_others {cfg : Config} {s t : State} {ctx : RecvContext}
    {id : ConnId} {c : ConnectionProfile} {forward : Forward} {w : WriteOutcome}
    (h : Pooled s.net) (hopen : MayOpen cfg s) (hc : s.net.mgr.conns id = some c)
    (huid : ctx.tcpConnectionUid = c.uid)
    (hstep : s.handleApplicationPacket cfg ctx forward w = some t)
    (hrunning : t.aborted = false) :
    Pooled t.net ∧ KeepsOthers id s.net t.net ∧
      (handleApplicationPacketResult cfg ctx = true ↔ t.net.isLive id = false) := by
  unfold State.handleApplicationPacket at hstep
  split at hstep
  · rename_i hprotocol
    split at hstep
    · rename_i htype
      have hresult : handleApplicationPacketResult cfg ctx = true ↔
          checkHeartbeat cfg ctx = some true := by
        simp [handleApplicationPacketResult, hprotocol, htype]
      rw [hresult]
      exact handleHttpRequest_others h hopen hc huid hstep
    · rename_i htype
      have hresult : handleApplicationPacketResult cfg ctx = true := by
        simp [handleApplicationPacketResult, hprotocol, htype]
      obtain ⟨ht, hothers, hdead⟩ := handleHttpResponse_others h hc huid hstep hrunning
      exact ⟨ht, hothers, iff_of_true hresult hdead⟩
  · rename_i hprotocol
    have hresult : handleApplicationPacketResult cfg ctx = false := by
      simp [handleApplicationPacketResult, hprotocol]
    cases hstep
    refine ⟨h, fun _ _ hid => hid, iff_of_false (by simp [hresult]) ?_⟩
    rw [isLive_of_conns hc]
    exact Bool.noConfusion
  · rename_i hhttp hws
    have hresult : handleApplicationPacketResult cfg ctx = true := by
      unfold handleApplicationPacketResult
      split
      · exact absurd ‹_› hhttp
      · exact absurd ‹_› hws
      · rfl
    obtain ⟨net, hdel, rfl⟩ := Option.map_eq_some_iff.1 hstep
    rw [huid] at hdel
    obtain ⟨ht, hothers, hdead⟩ := delConnection_others h hc hdel
    exact ⟨ht, hothers, iff_of_true hresult hdead⟩

/-- A pool whose slots are as before may be enlarged as before. -/
theorem MayOpen.undeleted {cfg : Config} {s : State} {net : NetState} (h : MayOpen cfg s)
    (hundeleted : Undeleted s.net net) : MayOpen cfg { s with net } := by
  obtain ⟨hpool, hcapacity, hfree, -⟩ := hundeleted.same
  intro hempty
  show cfg.vector.resize net.mgr.capacity net.mgr.pool.length _ ≤ 2 ^ 32
  rw [hcapacity, hpool]
  exact h (hfree ▸ hempty)

theorem readEvent_eq {cfg : Config} {id : ConnId} {i : ReadInput} {s t : State}
    (h : readEvent cfg id i s = some t) :
    State.step cfg s (.readEvent id i.outs i.forward i.write) = some t ∧ t.aborted = false := by
  obtain ⟨hstep, haborted⟩ := Option.filter_eq_some_iff.1 h
  exact ⟨hstep, by simpa using haborted⟩

/-- **`__OnReadEvent`** deletes no connection but its own, and its result says
whether it did. -/
theorem readEvent_others {cfg : Config} {s t : State} {id : ConnId} {i : ReadInput}
    (h : Pooled s.net) (hopen : MayOpen cfg s) (hread : readEvent cfg id i s = some t) :
    Pooled t.net ∧ KeepsOthers id s.net t.net ∧
      (onReadEventResult cfg id i.outs s = true ↔ t.net.isLive id = false) := by
  obtain ⟨hstep, hrunning⟩ := readEvent_eq hread
  unfold State.step at hstep
  split_ifs at hstep
  unfold onReadEventResult
  simp only [State.onReadEvent] at hstep
  cases hevent : s.net.onReadEvent upgradeApplicationProtocol id i.outs with
  | none => simp [hevent] at hstep
  | some ev =>
      obtain ⟨net, stop⟩ := ev
      have hreading := reading_onReadEvent (fun _ _ => rfl) h hevent
      cases stop with
      | deleted =>
          simp only [hevent] at hstep ⊢
          cases hstep
          exact ⟨hreading.pooled, hreading.others, iff_of_true trivial (hreading.deleted rfl)⟩
      | idle =>
          simp only [hevent] at hstep ⊢
          cases hstep
          obtain ⟨c, hc, -⟩ := hreading.conn (by simp)
          refine ⟨hreading.pooled, hreading.others, iff_of_false Bool.false_ne_true ?_⟩
          rw [isLive_of_conns hc]
          exact Bool.noConfusion
      | crashed => simp [hevent] at hstep
      | dispatched ctx =>
          simp only [hevent] at hstep ⊢
          obtain ⟨c, hc, huid⟩ := hreading.conn (by simp)
          have hopen' := hopen.undeleted (hreading.undeleted (by simp))
          obtain ⟨ht, hothers, hresult⟩ := handleApplicationPacket_others (s := { s with net })
            hreading.pooled hopen' hc (huid ctx rfl) hstep hrunning
          refine ⟨ht, ?_, hresult⟩
          intro id' hne hid'
          exact hothers id' hne (hreading.others id' hne hid')

/-- The condition on another thread's action. -/
def OtherMayOpen (cfg : Config) (s : State) : OtherEvent → Prop
  | .accept _ _ _ => MayOpen cfg s
  | .tick _ => True

/-- The loop gets what it relies on. -/
theorem lawful (cfg : Config) :
    Lawful (netThread cfg) (fun s => Pooled s.net) (fun s _ => MayOpen cfg s)
      (OtherMayOpen cfg) where
  onErrEvent h hstep := by
    simp only [netThread, State.step] at hstep
    split_ifs at hstep
    obtain ⟨net, hnet, rfl⟩ := Option.map_eq_some_iff.1 hstep
    exact onErrEvent_others h hnet
  onReadEvent h hopen hstep := by
    simp only [netThread] at hstep
    split_ifs at hstep
    · obtain ⟨⟨net, stop⟩, hread, heq⟩ := Option.map_eq_some_iff.1 hstep
      cases heq
      have hreading := reading_onReadEvent (fun _ _ => rfl) h hread
      exact ⟨hreading.pooled, hreading.others, fun hne => absurd rfl hne⟩
    · obtain ⟨t, ht, heq⟩ := Option.map_eq_some_iff.1 hstep
      cases heq
      obtain ⟨hpooled, hothers, hresult⟩ := readEvent_others h hopen ht
      exact ⟨hpooled, hothers, fun _ => (ReadReturn.ofResult_eq_deleted _).trans hresult⟩
  onWriteEvent h hstep := by
    simp only [netThread, State.step] at hstep
    split_ifs at hstep
    obtain ⟨net, hnet, rfl⟩ := Option.map_eq_some_iff.1 hstep
    exact ⟨(Undeleted.pending hnet).pooled h, (Undeleted.pending hnet).keepsLive⟩
  handleNotification h hstep := by
    cases hstep
    exact h
  clearTimeout h hstep := by
    simp only [netThread, State.step] at hstep
    split_ifs at hstep
    cases hstep
    exact pooled_clearTimeout h
  other h hopen hstep := by
    simp only [netThread] at hstep
    split at hstep
    · obtain ⟨t, ht, heq⟩ := Option.map_eq_some_iff.1 hstep
      cases heq
      unfold State.step at ht
      split_ifs at ht
      obtain ⟨net, hnet, rfl⟩ := Option.map_eq_some_iff.1 ht
      unfold registerConnection at hnet
      split_ifs at hnet
      · cases hnet
        exact ⟨h, fun _ hid => hid⟩
      · obtain ⟨⟨net, id⟩, hadd, rfl⟩ := Option.map_eq_some_iff.1 hnet
        obtain ⟨ht, hlive, -⟩ := addConnection_others h hopen hadd
        exact ⟨ht, hlive⟩
    · obtain ⟨t, ht, heq⟩ := Option.map_eq_some_iff.1 hstep
      cases heq
      unfold State.step at ht
      split_ifs at ht
      cases ht
      exact ⟨⟨h.distinct, h.conn_lt⟩, fun _ hid => hid⟩

/-- The condition on an event of the loop: connections are opened only while
the uids suffice. -/
def UidsSuffice (cfg : Config) : NetLoop State → LoopEvent ReadInput OtherEvent → Prop :=
  CallsOk (fun s _ => MayOpen cfg s) (OtherMayOpen cfg)

instance (cfg : Config) (s : State) : Decidable (MayOpen cfg s) :=
  inferInstanceAs (Decidable (s.net.mgr.FitsUid cfg.vector))

instance (cfg : Config) (l : NetLoop State) : ∀ e, Decidable (UidsSuffice cfg l e)
  | .test => isTrue trivial
  | .epollWait _ => isTrue trivial
  | .process _ _ => inferInstanceAs (Decidable (MayOpen cfg l.thread))
  | .handle _ => isTrue trivial
  | .endRound => isTrue trivial
  | .other (.accept _ _ _) => inferInstanceAs (Decidable (MayOpen cfg l.thread))
  | .other (.tick _) => isTrue trivial
  | .stop => isTrue trivial
  | .notifyStop => isTrue trivial

/-- **No event of a batch points to a deleted connection**, in no state of no
run in which the uids suffice. -/
theorem proxy_batchLive {cfg : Config} {events : List (LoopEvent ReadInput OtherEvent)}
    (hfits : Along (NetLoop.step (netThread cfg)) (UidsSuffice cfg) (launch (State.init cfg))
      events) :
    ∀ l ∈ trace (NetLoop.step (netThread cfg)) (launch (State.init cfg)) events,
      BatchLive l.thread.net l.todo :=
  fun l hl => (batchLive_trace (lawful cfg) (pooled_init cfg.vector) hfits l hl).2

/-- A client and the connection to its web server in one batch: the response is
sent back, the web server's connection is deleted, and the client's is written
next. -/
def answeredInBatch : List (LoopEvent ReadInput OtherEvent) :=
  [.other (.accept 7 (lit "10.0.0.1") 4000), .test,
    .epollWait [.events [⟨.descriptor, false, false, false⟩, ⟨.connection 0, false, true, false⟩]],
    .process ⟨[], .noServer, .eagain⟩ [],
    .process ⟨[ConnectionProfile.getRequest], .connected 8 (lit "10.0.1.1") 80, .wrote 24⟩ [],
    .process ⟨[], .noServer, .eagain⟩ [], .process ⟨[], .noServer, .eagain⟩ [], .endRound, .test,
    .epollWait [.events [⟨.connection 1, false, true, true⟩, ⟨.connection 0, false, false, true⟩]],
    .process ⟨[State.okResponse], .noServer, .wrote 46⟩ []]

theorem proxy_batchLive_answeredInBatch :
    (∃ l ∈ run (NetLoop.step (netThread State.sampleConfig))
        (launch (State.init State.sampleConfig)) answeredInBatch,
      l.todo = [⟨.connection 0, false, false, true⟩] ∧ l.thread.net.isLive 1 = false) ∧
      ∀ l ∈ trace (NetLoop.step (netThread State.sampleConfig))
        (launch (State.init State.sampleConfig)) answeredInBatch,
        BatchLive l.thread.net l.todo := by
  constructor
  · decide +kernel
  · exact proxy_batchLive (by decide +kernel)

end Unixtar.ReverseProxy
