import Unixtar.Lib.Interleave
import Unixtar.WebServer.Limits

/-!
# All network threads

`AfterConfig` gives each network thread its share of `max_connections`.  The
main thread accepts the connections and hands each descriptor over to the
thread that its number selects; its heartbeats go through the first thread.
The threads share nothing.

## Main results

* `served_within` — how much the whole server has in hand.
* `descriptor_owner` — a client's descriptor belongs to one thread.
-/

namespace Unixtar.WebServer

open Unixtar.Lib NetState NetLoop

/-! ## The threads -/

/-- `AfterConfig`: the configuration of one of `n` threads. -/
def Config.perThread (cfg : Config) (n : Nat) : Config :=
  { cfg with maxConnections := cfg.maxConnections / n }

/-- `AfterConfig`: the threads, or the assertion in `SetMaxConnection`. -/
def afterConfig (cfg : Config) (n : Nat) : Option (List (NetLoop ServerThread)) :=
  if 0 < cfg.maxConnections / n then
    some (List.replicate n (launch (ServerThread.init (cfg.perThread n))))
  else none

inductive ServerEvent
  /-- `_OnConnect` in the main thread, one descriptor -/
  | onConnect (fd : Nat) (ip : Bytes) (port : Nat)
  /-- `SendHeartbeat` in the main thread -/
  | sendHeartbeat (fd : Nat) (ip : Bytes) (port : Nat) (request : Bytes) (w : WriteOutcome)
  /-- a network thread, or the threads beside it -/
  | netThread (i : Nat) (e : LoopEvent (List ReadOutcome) OtherEvent)

/-- Only the main thread opens connections. -/
def opensConnection : LoopEvent (List ReadOutcome) OtherEvent → Bool
  | .other (.accept _ _ _) => true
  | .other (.heartbeat _ _ _ _ _) => true
  | _ => false

/-- The thread that an event reaches: `_RegisterConnection` selects it, and
`SendHeartbeat` takes the first one. -/
def reached (n : Nat) : ServerEvent → Nat × LoopEvent (List ReadOutcome) OtherEvent
  | .onConnect fd ip port => (fd % n, .other (.accept fd ip port))
  | .sendHeartbeat fd ip port request w => (0, .other (.heartbeat fd ip port request w))
  | .netThread i e => (i, e)

/-- One event. -/
def serverStep (cfg : Config) (n : Nat) (threads : List (NetLoop ServerThread))
    (e : ServerEvent) : Option (List (NetLoop ServerThread)) :=
  match e with
  | .netThread i e =>
      if opensConnection e then none
      else Interleave.step (NetLoop.step (netThread (cfg.perThread n))) threads (i, e)
  | e => Interleave.step (NetLoop.step (netThread (cfg.perThread n))) threads (reached n e)

/-- The descriptors that a thread gets are those that select it, and the first
thread gets the heartbeats. -/
structure Selected (n i : Nat) (e : LoopEvent (List ReadOutcome) OtherEvent) : Prop where
  accept : ∀ fd ip port, e = .other (.accept fd ip port) → fd % n = i
  heartbeat : ∀ fd ip port request w, e = .other (.heartbeat fd ip port request w) → i = 0

theorem serverStep_eq {cfg : Config} {n : Nat} {ts ts' : List (NetLoop ServerThread)}
    {e : ServerEvent} (h : serverStep cfg n ts e = some ts') :
    Interleave.step (NetLoop.step (netThread (cfg.perThread n))) ts (reached n e) = some ts' ∧
      Selected n (reached n e).1 (reached n e).2 := by
  cases e with
  | onConnect fd ip port =>
      refine ⟨h, ?_, fun _ _ _ _ _ heq => by cases heq⟩
      rintro fd' ip' port' heq
      cases heq
      rfl
  | sendHeartbeat fd ip port request w =>
      exact ⟨h, (fun _ _ _ heq => by cases heq), fun _ _ _ _ _ _ => rfl⟩
  | netThread i e =>
      simp only [serverStep] at h
      split_ifs at h with hopens
      refine ⟨h, ?_, ?_⟩
      · rintro fd ip port rfl
        exact absurd rfl hopens
      · rintro fd ip port request w rfl
        exact absurd rfl hopens

theorem run_reached {cfg : Config} {n : Nat} {ts ts' : List (NetLoop ServerThread)}
    {es : List ServerEvent} (h : run (serverStep cfg n) ts es = some ts') :
    run (Interleave.step (NetLoop.step (netThread (cfg.perThread n)))) ts
        (es.map (reached n)) = some ts' ∧
      ∀ e ∈ es, Selected n (reached n e).1 (reached n e).2 := by
  induction es generalizing ts with
  | nil => exact ⟨h, by simp⟩
  | cons e es ih =>
      cases hstep : serverStep cfg n ts e with
      | none => simp [run, hstep] at h
      | some ts₁ =>
          rw [run_cons_some hstep] at h
          obtain ⟨hfirst, hselected⟩ := serverStep_eq hstep
          obtain ⟨hrest, hall⟩ := ih h
          refine ⟨?_, ?_⟩
          · rw [List.map_cons, run_cons_some hfirst]
            exact hrest
          · intro d hd
            rcases List.mem_cons.1 hd with rfl | hd
            · exact hselected
            · exact hall d hd

/-- **Each thread alone.**  In a run of the whole server each thread has a run
of its own, in which it gets the descriptors that select it. -/
theorem thread_alone {cfg : Config} {n : Nat} {start ts : List (NetLoop ServerThread)}
    {es : List ServerEvent} (hstart : afterConfig cfg n = some start)
    (hrun : run (serverStep cfg n) start es = some ts) :
    ts.length = n ∧ ∀ i l, ts[i]? = some l → ∃ fs,
      run (NetLoop.step (netThread (cfg.perThread n)))
        (launch (ServerThread.init (cfg.perThread n))) fs = some l ∧ ∀ f ∈ fs, Selected n i f := by
  unfold afterConfig at hstart
  split_ifs at hstart with hshare
  cases hstart
  obtain ⟨hreached, hselected⟩ := run_reached hrun
  obtain ⟨hlen, -, hall⟩ := Interleave.run_iff.1 hreached
  rw [List.length_replicate] at hlen
  refine ⟨hlen, ?_⟩
  intro i l hl
  obtain ⟨hlt, -⟩ := List.getElem?_eq_some_iff.1 hl
  refine ⟨Interleave.eventsOf i (es.map (reached n)), ?_, ?_⟩
  · rw [← hl]
    exact hall i _ (List.getElem?_replicate_of_lt (hlen ▸ hlt))
  · intro f hf
    obtain ⟨d, hd, hdf⟩ := List.mem_filterMap.1 hf
    obtain ⟨e, he, rfl⟩ := List.mem_map.1 hd
    split_ifs at hdf with hi
    cases hdf
    exact hi ▸ hselected e he

/-! ## How much the server has in hand -/

/-- The clients of all threads. -/
def clientCnt : List (NetLoop ServerThread) → Nat
  | [] => 0
  | l :: ts => l.thread.server.net.mgr.clientCnt + clientCnt ts

theorem clientCnt_le {share : Nat} {ts : List (NetLoop ServerThread)}
    (h : ∀ l ∈ ts, l.thread.server.net.mgr.clientCnt + 1 ≤ share) :
    clientCnt ts + ts.length ≤ ts.length * share := by
  induction ts with
  | nil => simp [clientCnt]
  | cons l ts ih =>
      have hl := h l List.mem_cons_self
      have hrest := ih fun k hk => h k (List.mem_cons_of_mem l hk)
      have hmul : (l :: ts).length * share = ts.length * share + share := by
        rw [List.length_cons, Nat.succ_mul]
      rw [hmul, List.length_cons]
      simp only [clientCnt]
      omega

/-- **The bounds of the whole server**: all threads together stay below
`max_connections` by one client each, whatever the heartbeats are, and no queue
outgrows its bound. -/
theorem served_within {cfg : Config} {n : Nat} {start ts : List (NetLoop ServerThread)}
    {es : List ServerEvent} (hstart : afterConfig cfg n = some start)
    (hrun : run (serverStep cfg n) start es = some ts) :
    clientCnt ts + n ≤ cfg.maxConnections ∧
      ∀ l ∈ ts, l.thread.server.recvQueue.length ≤ cfg.maxBacklog ∧
        l.thread.server.sendQueue.length ≤ kMaxQueueSize + 1 := by
  obtain ⟨hlen, halone⟩ := thread_alone hstart hrun
  have hlimited : ∀ l ∈ ts, l.thread.server.Limited (cfg.perThread n) := by
    intro l hl
    obtain ⟨i, hi⟩ := List.mem_iff_getElem?.1 hl
    obtain ⟨fs, hfs, -⟩ := halone i l hi
    exact limited_run hfs
  have hshare : 0 < cfg.maxConnections / n := by
    unfold afterConfig at hstart
    split_ifs at hstart with hshare
    exact hshare
  refine ⟨?_, fun l hl => ⟨(hlimited l hl).queues.recv, (hlimited l hl).queues.send⟩⟩
  calc
    clientCnt ts + n = clientCnt ts + ts.length := by rw [hlen]
    _ ≤ ts.length * (cfg.maxConnections / n) := by
        refine clientCnt_le fun l hl => ?_
        have hbelow := (hlimited l hl).clients.below
        rwa [show (cfg.perThread n).maxConnections = cfg.maxConnections / n from rfl,
          Nat.max_eq_right hshare] at hbelow
    _ = n * (cfg.maxConnections / n) := by rw [hlen]
    _ ≤ cfg.maxConnections := Nat.mul_div_le _ _

/-- Two threads for at most four clients: the first descriptor goes to the
second thread, which then has no room for the second one.  Two heartbeats go to
the first thread, which has room for one client. -/
def threeConnects : List ServerEvent :=
  [.onConnect 7 (lit "10.0.0.1") 4000, .onConnect 9 (lit "10.0.0.2") 4000,
    .onConnect 8 (lit "10.0.0.3") 4000,
    .sendHeartbeat 11 (lit "10.0.0.9") 5000 (lit "GET / HTTP/1.1\r\n\r\n") (.wrote 18),
    .sendHeartbeat 13 (lit "10.0.0.9") 5000 (lit "GET / HTTP/1.1\r\n\r\n") (.wrote 18),
    .netThread 1 .test, .netThread 0 .test,
    .netThread 1 (.epollWait [.events [⟨.connection 0, false, true, false⟩,
      ⟨.descriptor, false, false, false⟩]]),
    .netThread 0 (.epollWait [.events [⟨.descriptor, false, false, false⟩,
      ⟨.connection 2, true, false, false⟩]]),
    .netThread 1 (.process [ConnectionProfile.getRequest] []), .netThread 0 (.process [] []),
    .netThread 0 (.process [] [])]

def fourConnections : Config := { State.sampleConfig with maxConnections := 4 }

theorem served_within_threeConnects :
    ∃ start ts, afterConfig fourConnections 2 = some start ∧
      run (serverStep fourConnections 2) start threeConnects = some ts ∧
      (ts.map fun l => (l.thread.server.net.mgr.clientCnt, l.thread.server.net.mgr.inUse,
        l.thread.server.recvQueue.length)) = [(1, 2, 0), (1, 1, 1)] ∧
      (clientCnt ts + 2 ≤ 4 ∧
        ∀ l ∈ ts, l.thread.server.recvQueue.length ≤ fourConnections.maxBacklog ∧
          l.thread.server.sendQueue.length ≤ kMaxQueueSize + 1) := by
  obtain ⟨start, hstart, ts, hrun, hcount⟩ :
      ∃ start ∈ afterConfig fourConnections 2,
        ∃ ts ∈ run (serverStep fourConnections 2) start threeConnects,
          (ts.map fun l => (l.thread.server.net.mgr.clientCnt, l.thread.server.net.mgr.inUse,
            l.thread.server.recvQueue.length)) = [(1, 2, 0), (1, 1, 1)] := by
    decide +kernel
  exact ⟨start, ts, hstart, hrun, hcount, served_within hstart hrun⟩

/-! ## A descriptor belongs to one thread -/

/-- The connections of the thread `i` of `n`: clients whose descriptors select
it, and on the first thread the heartbeats. -/
structure Assigned (n i : Nat) (c : ConnectionProfile) : Prop where
  client : c.type = .kAcceptFrom → c.fd % n = i
  heartbeat : c.type = .kConnectTo → i = 0

/-- Every connection of a network thread is its own. -/
def AllAssigned (n i : Nat) (s : NetState) : Prop :=
  ∀ id c, s.mgr.conns id = some c → Assigned n i c

namespace AllAssigned

variable {n i : Nat} {s t : NetState}

theorem samePeers (h : AllAssigned n i s) (hpeers : SamePeers s t) : AllAssigned n i t := by
  intro id d hd
  obtain ⟨c, hc, htype, hfd⟩ := hpeers.conns id d hd
  obtain ⟨hclient, hheartbeat⟩ := h id c hc
  constructor
  · rwa [htype, hfd]
  · rwa [htype]

/-- Deletions take connections away. -/
theorem ofFrame (h : AllAssigned n i s) (hframe : s.Frame t) : AllAssigned n i t := by
  intro id d hd
  obtain ⟨c, _, _, _, hc, rfl⟩ := hframe.conns id d hd
  exact ⟨(h id c hc).client, (h id c hc).heartbeat⟩

theorem addConnection (h : AllAssigned n i s) {v : VectorImpl} {c : ConnectionProfile}
    {id : ConnId} (hc : Assigned n i c) (hadd : s.addConnection v c = some (t, id)) :
    AllAssigned n i t := by
  obtain ⟨mgr, hmgr, heq⟩ := Option.map_eq_some_iff.1 hadd
  cases heq
  obtain ⟨uid, hconns⟩ := ConnectionManager.addConnection_conns hmgr
  intro id d hd
  replace hd : mgr.conns id = some d := hd
  rw [hconns] at hd
  by_cases hid : id = s.nextConn
  · rw [hid, Function.update_self] at hd
    cases hd
    exact ⟨hc.client, hc.heartbeat⟩
  · rw [Function.update_of_ne hid] at hd
    exact h id d hd

/-- **One move** of a thread. -/
theorem netMove {cfg : Config} {f : Move} (h : AllAssigned n i s)
    (haccept : ∀ fd ip port, f = .event (.accept fd ip port) → fd % n = i)
    (hheartbeat : ∀ fd ip port request w, f = .heartbeat fd ip port request w → i = 0)
    (hmove : NetMove cfg f s t) : AllAssigned n i t := by
  cases hmove with
  | kept t hpeers => exact h.samePeers hpeers
  | deleted u t uid hpeers hdel => exact (h.samePeers hpeers).ofFrame (Frame.delConnection hdel)
  | cleared => exact h.ofFrame (Frame.clearTimeout s)
  | accepted fd ip port t id hf _ hadd =>
      have hassigned :
          Assigned n i (configApplicationLayer (.init .kAcceptFrom fd ip port s.now)) :=
        ⟨fun _ => haccept fd ip port hf, (fun htype => by cases htype)⟩
      exact h.addConnection hassigned hadd
  | beaten fd ip port request w u t id hf hadd hpeers =>
      have hassigned : Assigned n i (.init .kConnectTo fd ip port s.now) :=
        ⟨(fun htype => by cases htype), fun _ => hheartbeat fd ip port request w hf⟩
      exact (h.addConnection hassigned hadd).samePeers hpeers

end AllAssigned

theorem allAssigned_loop {cfg : Config} {n i : Nat} {l l' : NetLoop ServerThread}
    {e : LoopEvent (List ReadOutcome) OtherEvent}
    (h : AllAssigned n i l.thread.server.net) (he : Selected n i e)
    (hstep : NetLoop.step (netThread cfg) l e = some l') :
    AllAssigned n i l'.thread.server.net := by
  have hmove := serverMove_called (called_step hstep)
  generalize l'.thread.server = t at hmove ⊢
  generalize l'.lastClearTs = last at hmove
  cases hmove with
  | nothing => exact h
  | event f t hf hft =>
      refine h.netMove (fun fd ip port hfd => ?_) (fun _ _ _ _ _ hfd => by cases hfd)
        (netMove_step hft)
      cases hfd
      exact he.accept fd ip port (hf fd ip port rfl)
  | heartbeat fd ip port request w net hbeat hnet =>
      refine h.netMove (fun _ _ _ hfd => by cases hfd) (fun _ _ _ _ _ _ => ?_)
        (netMove_heartbeat hnet)
      exact he.heartbeat fd ip port request w hbeat
  | cleared => exact h.ofFrame (Frame.clearTimeout _)

/-- **A client's descriptor belongs to one thread**, the one that
`_RegisterConnection` selects, and only the first thread has connections to the
proxy, in every state of the whole server. -/
theorem descriptor_owner {cfg : Config} {n : Nat} {start ts : List (NetLoop ServerThread)}
    {es : List ServerEvent} (hstart : afterConfig cfg n = some start)
    (hrun : run (serverStep cfg n) start es = some ts) {i : Nat} {l : NetLoop ServerThread}
    (hl : ts[i]? = some l) {id : ConnId} {c : ConnectionProfile}
    (hc : l.thread.server.net.mgr.conns id = some c) :
    (c.type = .kAcceptFrom → c.fd % n = i) ∧ (c.type = .kConnectTo → i = 0) := by
  obtain ⟨-, halone⟩ := thread_alone hstart hrun
  obtain ⟨fs, hfs, hselected⟩ := halone i l hl
  have hinit : AllAssigned n i
      (launch (ServerThread.init (cfg.perThread n))).thread.server.net := by
    intro id c hc
    cases hc
  have htrace : ∀ k ∈ trace (NetLoop.step (netThread (cfg.perThread n)))
      (launch (ServerThread.init (cfg.perThread n))) fs,
      AllAssigned n i k.thread.server.net :=
    trace_invariant (fun _ _ _ hk he hstep => allAssigned_loop hk he hstep) hinit
      (along_of_mem hselected _)
  obtain ⟨hclient, hheartbeat⟩ := htrace l (run_mem_trace hfs) id c hc
  exact ⟨hclient, hheartbeat⟩

/-- The second thread's client, and a heartbeat whose descriptor does not select
its thread. -/
theorem descriptor_owner_threeConnects :
    ∃ start ts l c k d, afterConfig fourConnections 2 = some start ∧
      run (serverStep fourConnections 2) start threeConnects = some ts ∧ ts[1]? = some l ∧
      l.thread.server.net.mgr.conns 0 = some c ∧ c.type = .kAcceptFrom ∧ c.fd = 7 ∧
      ts[0]? = some k ∧ k.thread.server.net.mgr.conns 1 = some d ∧ d.type = .kConnectTo ∧
      d.fd = 11 ∧
      ((c.type = .kAcceptFrom → c.fd % 2 = 1) ∧ (c.type = .kConnectTo → 1 = 0)) := by
  obtain ⟨start, hstart, ts, hrun, ⟨l, hl, c, hc, htype, hfd⟩, k, hk, d, hd, hdtype, hdfd⟩ :
      ∃ start ∈ afterConfig fourConnections 2,
        ∃ ts ∈ run (serverStep fourConnections 2) start threeConnects,
          (∃ l ∈ ts[1]?, ∃ c ∈ l.thread.server.net.mgr.conns 0, c.type = .kAcceptFrom ∧
            c.fd = 7) ∧
          ∃ k ∈ ts[0]?, ∃ d ∈ k.thread.server.net.mgr.conns 1, d.type = .kConnectTo ∧
            d.fd = 11 := by
    decide +kernel
  exact ⟨start, ts, l, c, k, d, hstart, hrun, hl, hc, htype, hfd, hk, hd, hdtype, hdfd,
    descriptor_owner hstart hrun hl hc⟩

end Unixtar.WebServer
