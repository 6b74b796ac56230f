import Unixtar.NetworkModel.Reading
import Unixtar.NetworkModel.RequestDelivery
import Unixtar.WebServer.Answers
import Unixtar.WebServer.EventLoop

/-!
# A request in, an answer out

A connection of the web server, among all the others and whatever the workers
do, reads like a link on its own.  What a link on its own makes of a request
that comes in pieces is what the server makes of it: one packet, behind the
last byte.  From there the answer of the worker goes back to the same client,
and nothing else does.

## Main results

* `follows_run` — each connection of a run is a link on its own.
* `request_answered` — from the bytes of a request to the bytes of its answer.
-/

namespace Unixtar.WebServer

open Unixtar.Lib NetState State

/-! ## One connection of a run -/

/-- The read events of a connection. -/
def inputsOf (id : ConnId) : Event → List ReadInput
  | .readEvent id' outs => if id' = id then [⟨outs, false⟩] else []
  | _ => []

/-- The packets of a connection that `recv_queue_` has accepted. -/
def State.queuedOf (id : ConnId) (s : State) : List RecvContext :=
  s.queued.filter fun ctx => ctx.conn = id

/-- A connection of the server and a link on its own that has had the same
read events.  A packet that is refused ends the connection. -/
structure Alike (id : ConnId) (s : State) (l : ShortLink) : Prop where
  live : ∀ c, s.net.mgr.conns id = some c → l.live = true ∧ c.reading = l.conn.reading
  queued : (s.queuedOf id).map ConnectionProfile.unnamed <+:
    l.dispatched.map ConnectionProfile.unnamed
  all : ∀ c, s.net.mgr.conns id = some c →
    (s.queuedOf id).map ConnectionProfile.unnamed = l.dispatched.map ConnectionProfile.unnamed

/-- What has become of the connection `id` by its read events `inputs`. -/
inductive Follows (id : ConnId) (inputs : List ReadInput) (s : State) : Prop
  | unborn : s.net.nextConn ≤ id → inputs = [] → s.queuedOf id = [] → Follows id inputs s
  | born (uid fd : Nat) (ip : Bytes) (port now : Nat) (l : ShortLink) : id < s.net.nextConn →
      run (ShortLink.step upgradeApplicationProtocol id)
        (ShortLink.start uid fd ip port now) inputs = some l →
      Alike id s l → Follows id inputs s

/-- An event that does not read from the connection. -/
structure Beside (id : ConnId) (s t : State) : Prop where
  nextConn : t.net.nextConn = s.net.nextConn
  queued : t.queuedOf id = s.queuedOf id
  conn : ∀ d, t.net.mgr.conns id = some d →
    ∃ c, s.net.mgr.conns id = some c ∧ d.reading = c.reading

theorem Beside.trans {id : ConnId} {s t u : State} (h : Beside id s t) (h' : Beside id t u) :
    Beside id s u := by
  refine ⟨h'.nextConn.trans h.nextConn, h'.queued.trans h.queued, ?_⟩
  intro d hd
  obtain ⟨c, hc, hdc⟩ := h'.conn d hd
  obtain ⟨b, hb, hcb⟩ := h.conn c hc
  exact ⟨b, hb, hdc.trans hcb⟩

theorem Beside.ofFrame {id : ConnId} {s t : State} (hframe : s.net.Frame t.net)
    (hqueued : t.queued = s.queued) : Beside id s t := by
  refine ⟨hframe.nextConn, ?_, ?_⟩
  · unfold State.queuedOf
    rw [hqueued]
  · intro d hd
    obtain ⟨c, _, _, _, hc, rfl⟩ := hframe.conns id d hd
    exact ⟨c, hc, rfl⟩

theorem Beside.of_eq {id : ConnId} {s t : State} (hmgr : t.net.mgr = s.net.mgr)
    (hnext : t.net.nextConn = s.net.nextConn) (hqueued : t.queued = s.queued) : Beside id s t := by
  refine ⟨hnext, ?_, ?_⟩
  · unfold State.queuedOf
    rw [hqueued]
  · intro d hd
    exact ⟨d, hmgr ▸ hd, rfl⟩

theorem Alike.beside {id : ConnId} {s t : State} {l : ShortLink} (h : Alike id s l)
    (hst : Beside id s t) : Alike id t l := by
  refine ⟨?_, hst.queued ▸ h.queued, ?_⟩
  · intro d hd
    obtain ⟨c, hc, hdc⟩ := hst.conn d hd
    obtain ⟨hlive, hcl⟩ := h.live c hc
    exact ⟨hlive, hdc.trans hcl⟩
  · intro d hd
    obtain ⟨c, hc, -⟩ := hst.conn d hd
    exact hst.queued ▸ h.all c hc

theorem Follows.beside {id : ConnId} {inputs : List ReadInput} {s t : State}
    (h : Follows id inputs s) (hst : Beside id s t) : Follows id inputs t := by
  cases h with
  | unborn hid hinputs hqueued =>
      exact .unborn (hst.nextConn ▸ hid) hinputs (hst.queued.trans hqueued)
  | born uid fd ip port now l hid hrun halike =>
      exact .born uid fd ip port now l (hst.nextConn ▸ hid) hrun (halike.beside hst)

/-! ## Accepting -/

theorem follows_accept {cfg : Config} {id : ConnId} {inputs : List ReadInput} {s : State}
    {net : NetState} {fd port : Nat} {ip : Bytes} (h : Follows id inputs s)
    (hnet : s.net.registerConnection cfg.vector cfg.maxConnections configApplicationLayer fd ip
      port = some net) : Follows id inputs { s with net } := by
  unfold registerConnection at hnet
  split_ifs at hnet with hmax
  · cases hnet
    exact h
  · obtain ⟨⟨net', id'⟩, hadd, rfl⟩ := Option.map_eq_some_iff.1 hnet
    obtain ⟨mgr, hmgr, heq⟩ := Option.map_eq_some_iff.1 hadd
    obtain ⟨uid, hconns⟩ := ConnectionManager.addConnection_conns hmgr
    cases heq
    have hother : id ≠ s.net.nextConn → mgr.conns id = s.net.mgr.conns id := by
      intro hid
      rw [hconns, Function.update_of_ne hid]
    cases h with
    | unborn hid hinputs hqueued =>
        by_cases hnew : id = s.net.nextConn
        · refine .born uid fd ip port s.net.now (.start uid fd ip port s.net.now) ?_ ?_ ?_
          · show id < s.net.nextConn + 1
            rw [hnew]
            exact Nat.lt_succ_self _
          · rw [hinputs]
            rfl
          · have hnone : State.queuedOf id { s with
                net := { s.net with mgr, nextConn := s.net.nextConn + 1 } } = [] := hqueued
            refine ⟨?_, ?_, ?_⟩
            · intro c hc
              replace hc : mgr.conns id = some c := hc
              rw [hconns, hnew, Function.update_self] at hc
              cases hc
              exact ⟨rfl, rfl⟩
            · rw [hnone]
              exact List.nil_prefix
            · intro c hc
              rw [hnone]
              rfl
        · refine .unborn ?_ hinputs hqueued
          exact Nat.lt_of_le_of_ne hid (Ne.symm hnew)
    | born uid' fd' ip' port' now' l hid hrun halike =>
        refine .born uid' fd' ip' port' now' l (Nat.lt_succ_of_lt hid) hrun ?_
        have hsame := hother (Nat.ne_of_lt hid)
        refine ⟨?_, halike.queued, ?_⟩
        · intro c hc
          exact halike.live c (hsame ▸ hc)
        · intro c hc
          exact halike.all c (hsame ▸ hc)

/-! ## Reading -/

theorem beside_setConn {id id' : ConnId} (hne : id' ≠ id) (s : State) (d : ConnectionProfile) :
    Beside id s { s with net := s.net.setConn id' d } := by
  refine ⟨rfl, rfl, ?_⟩
  intro c hc
  replace hc : (s.net.setConn id' d).mgr.conns id = some c := hc
  rw [setConn_conns, Function.update_of_ne (Ne.symm hne)] at hc
  exact ⟨c, hc, rfl⟩

/-- A packet of another connection. -/
theorem beside_handleApplicationPacket {cfg : Config} {id : ConnId} {s t : State}
    {ctx : RecvContext} (hne : ctx.conn ≠ id) (hstep : s.handleApplicationPacket cfg ctx = some t) :
    Beside id s t := by
  unfold State.handleApplicationPacket at hstep
  split at hstep
  · obtain ⟨net, hdel, rfl⟩ := Option.map_eq_some_iff.1 hstep
    exact Beside.ofFrame (Frame.delConnection hdel) rfl
  · cases hstep
    refine ⟨rfl, ?_, fun d hd => ⟨d, hd, rfl⟩⟩
    unfold State.queuedOf
    dsimp only
    split_ifs
    · rfl
    · rw [List.filter_append, List.filter_cons_of_neg (by simpa using hne), List.filter_nil,
        List.append_nil]

/-- A read event of another connection. -/
theorem beside_readEvent {cfg : Config} {id id' : ConnId} {outs : List ReadOutcome} {s t : State}
    (hne : id' ≠ id) (h : s.Recorded) (hstep : s.onReadEvent cfg id' outs = some t) :
    Beside id s t := by
  obtain ⟨net, stop, c, hevent, hc⟩ := onReadEvent_net hstep
  have hcases := onReadEvent_cases hc (h.upgrades.conns id' c hc).2.configured hevent
  simp only [State.onReadEvent, hevent] at hstep
  cases hcases with
  | deleted r net hr hdel =>
      cases hstep
      exact (beside_setConn hne s r.conn).trans (Beside.ofFrame (Frame.delConnection hdel) rfl)
  | idle r hr =>
      cases hstep
      exact beside_setConn hne s r.conn
  | crashed r hr => cases hstep
  | dispatched r p parser tcpByteArr nextNo packet packetNo hr hp hpasses =>
      have hset := beside_setConn hne s
        (behindDispatch s.net.nextCtx parser tcpByteArr nextNo r.conn)
      refine (hset.trans (Beside.of_eq ?_ ?_ ?_)).trans (beside_handleApplicationPacket hne hstep)
      · rfl
      · rfl
      · rfl

theorem upgradeApplicationProtocol_reading (c : ConnectionProfile) (packet : ApplicationPacket) :
    upgradeApplicationProtocol c.reading packet =
      (upgradeApplicationProtocol c packet).reading := by
  have htype : c.reading.type = c.type := rfl
  unfold upgradeApplicationProtocol
  cases packet with
  | request line headers body =>
      dsimp only
      rw [htype]
      split_ifs <;> rfl
  | response line headers body => rfl
  | webSocket p => rfl

/-- The workers have room: a packet that is not refused is not dropped. -/
def Config.HasRoom (cfg : Config) : Prop := cfg.maxBacklog ≤ kMaxQueueSize + 1

/-- The end of a read event on the link on its own. -/
theorem link_step {id : ConnId} {l : ShortLink} {outs : List ReadOutcome}
    {ev : ConnectionProfile.ReadEvent} (hlive : l.live = true)
    (hev : l.conn.onReadEvent upgradeApplicationProtocol id l.nextCtx outs = some ev)
    (hstop : ev.stop ≠ .crashed) :
    ∃ l', ShortLink.step upgradeApplicationProtocol id l ⟨outs, false⟩ = some l' ∧
      l'.conn = ev.conn ∧ (l'.live = false ↔ ev.stop = .deleted) ∧
      l'.dispatched = l.dispatched ++ ev.stop.passed := by
  unfold ShortLink.step
  rw [if_neg (by rw [hlive]; decide)]
  simp only [hev, Option.map_some, Option.some.injEq, exists_eq_left']
  cases hs : ev.stop with
  | crashed => exact absurd hs hstop
  | deleted => exact ⟨rfl, iff_of_true rfl rfl, (List.append_nil _).symm⟩
  | idle =>
      refine ⟨rfl, iff_of_false ?_ (by simp), (List.append_nil _).symm⟩
      simp [hlive]
  | dispatched ctx => exact ⟨rfl, by simp, rfl⟩

/-- What the network thread makes of the connection it has read from. -/
theorem queuedOf_handleApplicationPacket {cfg : Config} (hroom : cfg.HasRoom) {id : ConnId}
    {s t : State} {ctx : RecvContext} (hconn : ctx.conn = id)
    (hstep : s.handleApplicationPacket cfg ctx = some t) :
    if refuses (s.isWorkerFullyLoad cfg) ctx.applicationPacket then t.queuedOf id = s.queuedOf id
    else t.queuedOf id = s.queuedOf id ++ [ctx] ∧ t.net = s.net := by
  unfold State.handleApplicationPacket at hstep
  by_cases hrefuses : refuses (s.isWorkerFullyLoad cfg) ctx.applicationPacket = true
  · rw [if_pos hrefuses] at hstep ⊢
    obtain ⟨net, -, rfl⟩ := Option.map_eq_some_iff.1 hstep
    rfl
  · rw [if_neg hrefuses] at hstep ⊢
    cases hstep
    -- a queue that is not full has room
    have hnotFull : ¬ s.recvQueue.length > kMaxQueueSize := by
      intro hfull
      apply hrefuses
      have hload : s.isWorkerFullyLoad cfg = true := by
        unfold State.isWorkerFullyLoad
        exact decide_eq_true (Nat.le_trans hroom hfull)
      unfold refuses
      rw [if_pos hload]
    refine ⟨?_, rfl⟩
    unfold State.queuedOf
    simp only [hnotFull, if_false]
    rw [List.filter_append, List.filter_cons_of_pos (by simpa using hconn), List.filter_nil]

theorem not_conn_of_dead {s : State} {id : ConnId} (hdead : s.net.isLive id = false)
    (c : ConnectionProfile) : s.net.mgr.conns id ≠ some c := by
  intro hc
  rw [isLive_of_conns hc] at hdead
  cases hdead

/-- A read event that passes nothing on. -/
theorem Alike.quiet {id : ConnId} {s t : State} {l l' : ShortLink} (h : Alike id s l)
    (hall : (s.queuedOf id).map ConnectionProfile.unnamed =
      l.dispatched.map ConnectionProfile.unnamed)
    (hqueued : t.queuedOf id = s.queuedOf id) (hpassed : l'.dispatched = l.dispatched)
    (hlive : ∀ c, t.net.mgr.conns id = some c →
      l'.live = true ∧ c.reading = l'.conn.reading) : Alike id t l' := by
  refine ⟨hlive, ?_, ?_⟩
  · rw [hqueued, hpassed]
    exact h.queued
  · intro c _
    rw [hqueued, hpassed]
    exact hall

/-- A read event that passes a packet on: it is refused, which ends the
connection, or it is put on `recv_queue_`. -/
theorem Alike.passed {cfg : Config} (hroom : cfg.HasRoom) {id : ConnId} {s s' t : State}
    {l l' : ShortLink} {ctx ctx' : RecvContext} (h : Alike id s l)
    (hall : (s.queuedOf id).map ConnectionProfile.unnamed =
      l.dispatched.map ConnectionProfile.unnamed)
    (hid : ctx.conn = id)
    (hname : ConnectionProfile.unnamed ctx' = ConnectionProfile.unnamed ctx)
    (hpassed : l'.dispatched = l.dispatched ++ [ctx'])
    (hstep : s'.handleApplicationPacket cfg ctx = some t)
    (hsame : s'.queuedOf id = s.queuedOf id)
    (hgone : refuses (s'.isWorkerFullyLoad cfg) ctx.applicationPacket = true →
      ∀ c, t.net.mgr.conns id ≠ some c)
    (hlive : ∀ c, s'.net.mgr.conns id = some c →
      l'.live = true ∧ c.reading = l'.conn.reading) : Alike id t l' := by
  have hqueued := queuedOf_handleApplicationPacket hroom hid hstep
  by_cases hrefuses : refuses (s'.isWorkerFullyLoad cfg) ctx.applicationPacket = true
  · rw [if_pos hrefuses, hsame] at hqueued
    have hgone := hgone hrefuses
    refine ⟨fun d hd => absurd hd (hgone d), ?_, fun d hd => absurd hd (hgone d)⟩
    rw [hqueued, hpassed, List.map_append]
    exact h.queued.trans (List.prefix_append _ _)
  · rw [if_neg hrefuses, hsame] at hqueued
    obtain ⟨hqueued, hnet⟩ := hqueued
    have hmap : (t.queuedOf id).map ConnectionProfile.unnamed =
        l'.dispatched.map ConnectionProfile.unnamed := by
      rw [hqueued, hpassed, List.map_append, List.map_append]
      exact congrArg₂ _ hall (congrArg (fun u => [u]) hname.symm)
    exact ⟨fun d hd => hlive d (hnet ▸ hd), hmap ▸ List.prefix_refl _, fun _ _ => hmap⟩

/-- **A read event** of the connection itself. -/
theorem alike_readEvent {cfg : Config} (hroom : cfg.HasRoom) {id : ConnId}
    {outs : List ReadOutcome} {s t : State} {l : ShortLink} (hpooled : Pooled s.net)
    (hrecorded : s.Recorded) (h : Alike id s l) (hstep : s.onReadEvent cfg id outs = some t) :
    ∃ l', ShortLink.step upgradeApplicationProtocol id l ⟨outs, false⟩ = some l' ∧
      Alike id t l' := by
  obtain ⟨-, -, hresult⟩ := State.onReadEvent_others hpooled hstep
  unfold State.onReadEventResult at hresult
  obtain ⟨net, stop, c, hevent, hc⟩ := onReadEvent_net hstep
  have hid : ∀ ctx, stop = .dispatched ctx → ctx.conn = id := by
    intro ctx hctx
    cases onReadEvent_cases hc (hrecorded.upgrades.conns id c hc).2.configured hevent with
    | dispatched =>
        cases hctx
        rfl
    | deleted => cases hctx
    | idle => cases hctx
    | crashed => cases hctx
  obtain ⟨hlive, hcl⟩ := h.live c hc
  have hall := h.all c hc
  have hseen := ConnectionProfile.onReadEvent_seen upgradeApplicationProtocol_reading hcl id
    s.net.nextCtx l.nextCtx outs
  simp only [hevent] at hresult
  simp only [State.onReadEvent, hevent] at hstep
  unfold NetState.onReadEvent at hevent
  simp only [hc] at hevent
  split at hevent
  · cases hevent
  · rename_i ev hev
    rw [hev] at hseen
    obtain ⟨ev', hev', hsame⟩ := Option.map_eq_some_iff.1 hseen.symm
    obtain ⟨hconn, hstop⟩ := Prod.mk.inj hsame
    -- where the connection goes on, the link on its own has read the same
    have hgoes : ∀ {l' : ShortLink}, l'.conn = ev'.conn → l'.live = true → ∀ d,
        ((s.net.setConn id ev.conn).allocCtx ev.made).mgr.conns id = some d →
        l'.live = true ∧ d.reading = l'.conn.reading := by
      intro l' hconn' hlive' d hd
      rw [Undeleted.allocCtx_mgr, setConn_conns, Function.update_self] at hd
      cases hd
      exact ⟨hlive', by rw [hconn']; exact hconn.symm⟩
    rcases ConnectionProfile.unnamed_cases hstop with
      ⟨hs', hs⟩ | ⟨hs', hs⟩ | ⟨hs', hs⟩ | ⟨ctx', ctx, hs', hs, hname⟩
    · rw [hs] at hevent
      obtain ⟨net', -, heq⟩ := Option.map_eq_some_iff.1 hevent
      cases heq
      cases hstep
      obtain ⟨l', hl', -, -, hpassed⟩ := link_step hlive hev' (by simp [hs'])
      rw [hs'] at hpassed
      have hgone := not_conn_of_dead (hresult.1 rfl)
      exact ⟨l', hl', h.quiet hall rfl (hpassed.trans (List.append_nil _))
        fun d hd => absurd hd (hgone d)⟩
    · rw [hs] at hevent
      cases hevent
      cases hstep
      obtain ⟨l', hl', hconn', hlive', hpassed⟩ := link_step hlive hev' (by simp [hs'])
      rw [hs'] at hpassed hlive'
      exact ⟨l', hl', h.quiet hall rfl (hpassed.trans (List.append_nil _))
        (hgoes hconn' (by simpa using hlive'))⟩
    · rw [hs] at hevent
      cases hevent
      cases hstep
    · rw [hs] at hevent
      cases hevent
      dsimp only at hstep hresult
      obtain ⟨l', hl', hconn', hlive', hpassed⟩ := link_step hlive hev' (by simp [hs'])
      rw [hs'] at hpassed hlive'
      exact ⟨l', hl', h.passed hroom hall (hid ctx rfl) hname hpassed hstep rfl
        (fun hrefuses => not_conn_of_dead (hresult.1 hrefuses))
        (hgoes hconn' (by simpa using hlive'))⟩

/-! ## Runs -/

theorem pooled_step {cfg : Config} (hcfg : cfg.FitsUid) {s t : State} {e : Event}
    (h : Pooled s.net) (hstep : State.step cfg s e = some t) : Pooled t.net := by
  cases e with
  | accept fd ip port =>
      obtain ⟨net, hnet, rfl⟩ := Option.map_eq_some_iff.1 hstep
      exact (accept_others hcfg h hnet).1
  | readEvent id outs => exact (State.onReadEvent_others h hstep).1
  | errEvent id =>
      obtain ⟨net, hnet, rfl⟩ := Option.map_eq_some_iff.1 hstep
      exact (onErrEvent_others h hnet).1
  | clearTimeout =>
      cases hstep
      exact pooled_clearTimeout h
  | _ => exact (undeleted_step rfl hstep).pooled h

/-- **One event.** -/
theorem follows_step {cfg : Config} (hroom : cfg.HasRoom) {id : ConnId}
    {inputs : List ReadInput} {s t : State} {e : Event} (hpooled : Pooled s.net)
    (hrecorded : s.Recorded) (h : Follows id inputs s) (hstep : State.step cfg s e = some t) :
    Follows id (inputs ++ inputsOf id e) t := by
  cases e with
  | accept fd ip port =>
      obtain ⟨net, hnet, rfl⟩ := Option.map_eq_some_iff.1 hstep
      rw [show inputsOf id (.accept fd ip port) = [] from rfl, List.append_nil]
      exact follows_accept h hnet
  | readEvent id' outs =>
      by_cases hid : id' = id
      · subst hid
        have hnext : t.net.nextConn = s.net.nextConn :=
          (beside_readEvent (Nat.ne_of_lt (Nat.lt_succ_self id')) hrecorded hstep).nextConn
        obtain ⟨net, stop, c, -, hc⟩ := onReadEvent_net hstep
        have hlt := hpooled.conn_lt id' c hc
        rw [show inputsOf id' (.readEvent id' outs) = [⟨outs, false⟩] from if_pos rfl]
        cases h with
        | unborn hge => exact absurd hlt (Nat.not_lt.2 hge)
        | born uid fd ip port now l _ hrun halike =>
            obtain ⟨l', hl', halike'⟩ := alike_readEvent hroom hpooled hrecorded halike hstep
            refine .born uid fd ip port now l' (hnext ▸ hlt) (run_append_some hrun ?_) halike'
            rw [run_cons_some hl']
            rfl
      · rw [show inputsOf id (.readEvent id' outs) = [] from if_neg hid, List.append_nil]
        exact h.beside (beside_readEvent hid hrecorded hstep)
  | writeEvent id' ws =>
      obtain ⟨net, hnet, rfl⟩ := Option.map_eq_some_iff.1 hstep
      rw [show inputsOf id (.writeEvent id' ws) = [] from rfl, List.append_nil]
      exact h.beside (Beside.ofFrame (Frame.trySendPendingPackets hnet) rfl)
  | errEvent id' =>
      obtain ⟨net, hnet, rfl⟩ := Option.map_eq_some_iff.1 hstep
      rw [show inputsOf id (.errEvent id') = [] from rfl, List.append_nil]
      unfold onErrEvent at hnet
      split at hnet
      · cases hnet
      · exact h.beside (Beside.ofFrame (Frame.delConnection hnet) rfl)
  | clearTimeout =>
      cases hstep
      rw [show inputsOf id .clearTimeout = [] from rfl, List.append_nil]
      exact h.beside (Beside.ofFrame (Frame.clearTimeout s.net) rfl)
  | tick ms =>
      cases hstep
      rw [show inputsOf id (.tick ms) = [] from rfl, List.append_nil]
      exact h.beside (Beside.of_eq rfl rfl rfl)
  | take =>
      rw [show inputsOf id .take = [] from rfl, List.append_nil]
      simp only [State.step, State.takeTask] at hstep
      split at hstep <;> cases hstep
      exact h.beside (Beside.of_eq rfl rfl rfl)
  | check i =>
      rw [show inputsOf id (.check i) = [] from rfl, List.append_nil]
      simp only [State.step, State.checkTask] at hstep
      split at hstep <;> cases hstep
      exact h.beside (Beside.of_eq rfl rfl rfl)
  | handle i resp =>
      obtain ⟨_, _, -, -, -, -, hqueued, hmgr, hnext, -⟩ := State.handleTask_eq hstep
      rw [show inputsOf id (.handle i resp) = [] from rfl, List.append_nil]
      exact h.beside (Beside.of_eq hmgr hnext hqueued)
  | giveBack i =>
      rw [show inputsOf id (.giveBack i) = [] from rfl, List.append_nil]
      simp only [State.step, State.giveBackTask] at hstep
      split at hstep
      · split at hstep <;> cases hstep
        exact h.beside (Beside.of_eq rfl rfl rfl)
      · cases hstep
  | handleSend w =>
      rw [show inputsOf id (.handleSend w) = [] from rfl, List.append_nil]
      simp only [State.step, State.handleSend] at hstep
      split at hstep
      · cases hstep
      · obtain ⟨⟨net, done⟩, hnet, rfl⟩ := Option.map_eq_some_iff.1 hstep
        exact h.beside (Beside.ofFrame (Frame.trySendAndMarkPendingIfUndone hnet) rfl)

/-- **Each connection is a link on its own**, in every run of the server. -/
theorem follows_run {cfg : Config} (hcfg : cfg.FitsUid) (hroom : cfg.HasRoom) (id : ConnId)
    {inputs : List ReadInput} {s t : State} {events : List Event} (hpooled : Pooled s.net)
    (hrecorded : s.Recorded) (h : Follows id inputs s)
    (hrun : run (State.step cfg) s events = some t) :
    Follows id (inputs ++ events.flatMap (inputsOf id)) t := by
  induction events generalizing s inputs with
  | nil =>
      cases hrun
      rw [List.flatMap_nil, List.append_nil]
      exact h
  | cons e events ih =>
      cases hstep : State.step cfg s e with
      | none => simp [run, hstep] at hrun
      | some s₁ =>
          rw [run_cons_some hstep] at hrun
          rw [List.flatMap_cons, ← List.append_assoc]
          exact ih (pooled_step hcfg hpooled hstep) (recorded_step hrecorded hstep)
            (follows_step hroom hpooled hrecorded h hstep) hrun

theorem follows_init (cfg : Config) (id : ConnId) : Follows id [] (State.init cfg) :=
  .unborn (Nat.zero_le id) rfl rfl

/-! ## A request and its answer -/

/-- What the reads of a connection have returned. -/
def bytesOf (id : ConnId) (events : List Event) : Bytes :=
  (events.flatMap (inputsOf id)).flatMap fun e => e.outs.flatMap ReadOutcome.bytes

/-- A request on its way to the workers: nothing has been accepted before its
last byte, and then the packet has, once, unless it ended the connection. -/
structure Accepted (id : ConnId) (bytes whole : Bytes) (packet : ApplicationPacket) (s : State) :
    Prop where
  before : bytes ≠ whole → s.queuedOf id = []
  behind : bytes = whole → (s.queuedOf id).map (·.applicationPacket) = [packet] ∨
    (s.queuedOf id = [] ∧ s.net.mgr.conns id = none)

theorem Follows.accepted {id : ConnId} {inputs : List ReadInput} {s : State} {whole : Bytes}
    {packet : ApplicationPacket} (h : Follows id inputs s) (hsent : ShortLink.Sent whole packet)
    (hsize : whole.length < 2 ^ 32) (hdata : ∀ e ∈ inputs, ShortLink.OnlyData e)
    (hpre : (inputs.flatMap fun e => e.outs.flatMap ReadOutcome.bytes) <+: whole) :
    Accepted id (inputs.flatMap fun e => e.outs.flatMap ReadOutcome.bytes) whole packet s := by
  obtain ⟨hne, harrives⟩ := hsent.arrives hsize
  cases h with
  | unborn hid hinputs hqueued =>
      refine ⟨fun _ => hqueued, ?_⟩
      intro hwhole
      rw [hinputs] at hwhole
      exact absurd hwhole.symm hne
  | born uid fd ip port now l hid hrun halike =>
      constructor
      · intro hpart
        have hpending := harrives.onPart (ShortLink.pending_start uid fd ip port now hne) hdata
          hpre hpart hrun
        have hnil := halike.queued
        rw [hpending.none, List.map_nil, List.prefix_nil] at hnil
        exact List.map_eq_nil_iff.1 hnil
      · intro hwhole
        obtain ⟨⟨ctx, hctx, hpacket, -⟩, -⟩ := hsent.dispatched hsize _ id uid fd ip port now
          hdata hwhole hrun
        have hqueued := halike.queued
        rw [hctx] at hqueued
        have hcases : s.queuedOf id = [] ∨
            (s.queuedOf id).map ConnectionProfile.unnamed = [ConnectionProfile.unnamed ctx] := by
          rcases List.prefix_cons_iff.1 hqueued with hnil | ⟨rest, hrest, hpre'⟩
          · exact Or.inl (List.map_eq_nil_iff.1 hnil)
          · rw [List.prefix_nil.1 hpre'] at hrest
            exact Or.inr hrest
        rcases hcases with hnil | hone
        · right
          refine ⟨hnil, ?_⟩
          -- a connection that is still there has nothing refused
          cases hc : s.net.mgr.conns id with
          | none => rfl
          | some c =>
              have hall := halike.all c hc
              rw [hnil, hctx] at hall
              cases hall
        · left
          obtain ⟨u, hu, hname⟩ := List.map_eq_singleton_iff.1 hone
          rw [hu, List.map_singleton, ← hpacket]
          have hsame : (ConnectionProfile.unnamed u).applicationPacket =
              (ConnectionProfile.unnamed ctx).applicationPacket := by rw [hname]
          exact congrArg (fun p => [p]) hsame

/-- **From a request to its answer.**  The reads of a connection return the
bytes of a request, or the first ones, in any pieces and among whatever else
happens.  The workers get this packet, behind its last byte and once, and all
that is written to the client is a prefix of what a worker has answered. -/
theorem request_answered {cfg : Config} (hcfg : cfg.FitsUid) (hroom : cfg.HasRoom)
    {events : List Event} {r : Answering}
    (hrun : run (Answering.step cfg) (Answering.init cfg) events = some r)
    (hfree : Along (State.step cfg) NumberFree (State.init cfg) events) {id : ConnId}
    {whole : Bytes} {packet : ApplicationPacket} (hsent : ShortLink.Sent whole packet)
    (hsize : whole.length < 2 ^ 32)
    (hdata : ∀ e ∈ events.flatMap (inputsOf id), ShortLink.OnlyData e)
    (hpre : bytesOf id events <+: whole) :
    Accepted id (bytesOf id events) whole packet r.state ∧
      (∀ a ∈ r.answers, ∀ b ∈ r.answers, a.1.conn = id → b.1.conn = id → a = b) ∧
      ∀ w ∈ r.state.net.writes, w.socket = id → w.live = true ∧
        ∃ a ∈ r.answers, a.1.conn = id ∧ a.1.applicationPacket = packet ∧
          a.1.returnPacket = some w.ctx ∧ Answering.AnsweredWell a.1 a.2 r := by
  have hstate := Answering.run_state hrun
  have hfollows := follows_run hcfg hroom id (pooled_init cfg.vector) (recorded_init cfg)
    (follows_init cfg id) hstate
  rw [List.nil_append] at hfollows
  have haccepted : Accepted id (bytesOf id events) whole packet r.state :=
    hfollows.accepted hsent hsize hdata hpre
  have haccounted := Answering.accounted_trace cfg events r (run_mem_trace hrun)
  have hsafe : r.state.Safe :=
    trace_invariant (fun s e s' hs hc hstep => safe_step hs hc hstep) (safe_init cfg) hfree
      r.state (run_mem_trace hstate)
  -- what has been answered has been accepted
  have hone : ∀ a ∈ r.answers, a.1.conn = id → r.state.queuedOf id = [a.1] ∧
      a.1.applicationPacket = packet := by
    intro a ha hconn
    have hmem : a.1 ∈ r.state.queuedOf id :=
      List.mem_filter.2 ⟨haccounted.mem_queued ha, by simpa using hconn⟩
    by_cases hwhole : bytesOf id events = whole
    · rcases haccepted.behind hwhole with hmap | ⟨hnil, -⟩
      · obtain ⟨u, hu, hpacket⟩ := List.map_eq_singleton_iff.1 hmap
        rw [hu] at hmem ⊢
        have hau := List.mem_singleton.1 hmem
        rw [hau]
        exact ⟨rfl, hpacket⟩
      · rw [hnil] at hmem
        cases hmem
    · rw [haccepted.before hwhole] at hmem
      cases hmem
  refine ⟨haccepted, ?_, ?_⟩
  · intro a ha b hb haconn hbconn
    have hab : a.1 = b.1 := by
      have heq := (hone a ha haconn).1.symm.trans (hone b hb hbconn).1
      exact (List.cons.inj heq).1
    have hnodup : (r.answers.map (·.1)).Nodup := by
      rw [haccounted.handled]
      have hall := haccounted.recorded.accounts.perm_queued.nodup_iff.2
        haccounted.recorded.accounts.nodup
      exact (List.nodup_append.1 hall).2.1
    exact List.inj_on_of_nodup_map hnodup ha hb hab
  · intro w hw hsocket
    obtain ⟨hlive, -⟩ := hsafe.net.writes w hw
    obtain ⟨a, ha, hne, hctx⟩ := haccounted.only.1 w hw
    have hwell := haccounted.answeredWell ha hne
    have hconn : a.1.conn = id := (hwell.socket w hw hctx).2.symm.trans hsocket
    exact ⟨hlive, a, ha, hconn, (hone a ha hconn).2, hctx, hwell⟩

/-- A request in three read events, and an answer in two writes; another client
comes and goes. -/
def servedInPieces : List Event :=
  [.accept 7 (lit "10.0.0.1") 4000, .accept 8 (lit "10.0.0.2") 4000] ++
    (ShortLink.getInThree.map fun e => .readEvent 0 e.outs) ++
    [.take, .check 0, .errEvent 1, .handle 0 (lit "hello"), .giveBack 0, .handleSend (.wrote 2),
      .writeEvent 0 [.wrote 3]]

theorem request_answered_servedInPieces :
    ∃ r, run (Answering.step sampleConfig) (Answering.init sampleConfig) servedInPieces =
        some r ∧
      (r.state.net.writes.map fun w => (w.socket, w.count)) = [(0, 2), (0, 3)] ∧
      Accepted 0 (bytesOf 0 servedInPieces) (bytesOf 0 servedInPieces)
        ShortLink.getInThreePacket r.state ∧
      ∀ w ∈ r.state.net.writes, w.socket = 0 → w.live = true ∧
        ∃ a ∈ r.answers, a.1.conn = 0 ∧ a.1.applicationPacket = ShortLink.getInThreePacket ∧
          a.1.returnPacket = some w.ctx ∧ Answering.AnsweredWell a.1 a.2 r := by
  obtain ⟨r, hr, hwrites⟩ :
      ∃ r ∈ run (Answering.step sampleConfig) (Answering.init sampleConfig) servedInPieces,
        (r.state.net.writes.map fun w => (w.socket, w.count)) = [(0, 2), (0, 3)] := by
    decide +kernel
  have hinputs : servedInPieces.flatMap (inputsOf 0) = ShortLink.getInThree := rfl
  obtain ⟨haccepted, -, hanswered⟩ := request_answered
    (Config.fitsUid_libstdcxx rfl (by decide)) (by unfold Config.HasRoom; decide) hr
    (by decide +kernel) ShortLink.sent_getInThree (by decide)
    (hinputs ▸ ShortLink.onlyData_getInThree) (List.prefix_refl _)
  exact ⟨r, hr, hwrites, haccepted, hanswered⟩

end Unixtar.WebServer
