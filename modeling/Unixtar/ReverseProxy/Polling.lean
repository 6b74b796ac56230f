import Unixtar.Lib.Run
import Unixtar.ReverseProxy.LoadBalancer

/-!
# Polling and the retry period

Runs of `Select` under `kPoll`, `ReportWebServerDown` and `OnRecvHeartbeat`.
A web server that was reported down should rest for `kDefaultRetryPeriod` and
then take its turns again.  `__IsWebServerAvailable` compares the other way:
it tries a web server within the period and not any more behind it, so that
only the last millisecond of the period is judged right.

`calls` lists what the calls returned, the latest one first.  No code looks
at it.

## Main results

* `select_never_returns` — a poll that has come round without a web server
  goes on for ever.
* `rests_of_polledAtEnd` — in a run in which no web server is polled while it
  is down, except at the end of its period, every web server rests and comes
  back.
-/

namespace Unixtar.ReverseProxy

open Unixtar.Lib
open Unixtar.Lib.RoundRobin
open LoadBalancer

/-- A call, and when it returned. -/
inductive Call
  | selected (i time : Nat)
  | reportedDown (i time : Nat)
  | heartbeat (i time : Nat)
deriving DecidableEq

/-- The load balancer, the clock and the calls; `hangs` says that a `Select`
does not return. -/
structure Polling where
  lb : LoadBalancer
  now : Nat
  calls : List Call
  hangs : Bool

namespace Polling

/-- The events.  The clock advances by `delay` before a report; in a poll it
advances by the next of `delays` before each reading, and by what is left of
them before the return. -/
inductive Event
  | select (delays : List Nat)
  | reportWebServerDown (delay i : Nat)
  | onRecvHeartbeat (delay i backlog : Nat)

def init (lb : LoadBalancer) (now : Nat) : Polling :=
  { lb, now, calls := [], hangs := false }

/-- The readings of `::gettickcount()` in a poll. -/
def readings (s : Polling) (delays : List Nat) (k : Nat) : Nat :=
  s.now + (delays.take (k + 1)).sum

/-- What a poll finds outside; `kPoll` uses the clock only. -/
def surroundings (s : Polling) (delays : List Nat) : Surroundings :=
  { clock := s.readings delays, random := 0, inetPton := fun _ => none }

/-- `Select`, with fuel for one round of the list. -/
def select (delays : List Nat) (s : Polling) : Polling :=
  match LoadBalancer.select (s.surroundings delays) s.lb.webServers.length [] s.lb with
  | some (lb, some i) =>
      let now := s.now + delays.sum
      { s with lb, now, calls := .selected i now :: s.calls }
  | _ => { s with hangs := true }

/-- How long a call takes. -/
def Event.duration : Event → Nat
  | .select delays => delays.sum
  | .reportWebServerDown delay _ => delay
  | .onRecvHeartbeat delay _ _ => delay

/-- One call.  The clock is a `uint64_t`, and reports are about registered
web servers. -/
def step (s : Polling) (e : Event) : Option Polling :=
  let now := s.now + e.duration
  if s.hangs || now ≥ 2 ^ 64 then none
  else
    match e with
    | .select delays => some (s.select delays)
    | .reportWebServerDown _ i =>
        if i < s.lb.webServers.length then
          some { s with lb := s.lb.reportWebServerDown now i, now,
                        calls := .reportedDown i now :: s.calls }
        else none
    | .onRecvHeartbeat _ i backlog =>
        if i < s.lb.webServers.length then
          some { s with lb := s.lb.onRecvHeartbeat now i backlog, now,
                        calls := .heartbeat i now :: s.calls }
        else none

/-! ## The property -/

/-- The number of `Select` calls. -/
def polls (calls : List Call) : Nat :=
  calls.countP fun
    | .selected _ _ => true
    | _ => false

/-- Whether the call is a heartbeat of the web server at `i`. -/
def IsHeartbeat (i : Nat) (c : Call) : Prop := ∃ time, c = .heartbeat i time

/-- The web server at `i` has been selected. -/
def IsSelected (i : Nat) (c : Call) : Prop := ∃ time, c = .selected i time

/-- Down web servers rest for the retry period and come back. -/
structure Rests (s : Polling) : Prop where
  /-- every `Select` returns -/
  returns : s.hangs = false
  /-- a web server reported down at `t`, without a heartbeat since, is not
  selected before its period is over -/
  rests : ∀ i t u later mid before,
    s.calls = later ++ .selected i u :: (mid ++ .reportedDown i t :: before) →
      (∀ c ∈ mid, ¬ IsHeartbeat i c) → t + kDefaultRetryPeriod ≤ u
  /-- from then on, it is selected within as many polls as there are web
  servers -/
  comesBack : ∀ i t svr window mid before,
    s.calls = window ++ (mid ++ .reportedDown i t :: before) →
      s.lb.webServers[i]? = some svr → 0 < svr.weight →
      (∀ c ∈ window ++ mid, ¬ IsHeartbeat i c ∧ ∀ v, c ≠ .reportedDown i v) →
      (∀ j u, Call.selected j u ∈ window → t + kDefaultRetryPeriod ≤ u) →
      s.lb.webServers.length ≤ polls window → ∃ c ∈ window, IsSelected i c

/-- When `Select` is called, some web server of positive weight is not down. -/
def SomeUp (s : Polling) : Event → Prop
  | .select _ => ∃ svr ∈ s.lb.webServers, 0 < svr.weight ∧ svr.isDown = false
  | _ => True

/-- A web server of positive weight that the poll comes to while it is down
is at the end of its retry period. -/
def PolledAtEnd (s : Polling) : Event → Prop
  | .select delays =>
      ∀ k, k < s.lb.webServers.length → ComesTo (s.readings delays) s.lb k →
        ∀ svr ∈ s.lb.serverAt k, 0 < svr.weight → svr.isDown = true →
          s.readings delays k = svr.lastDownTs + kDefaultRetryPeriod
  | _ => True

/-! ## What a call does -/

/-- The clock does not go back. -/
theorem readings_le_add (s : Polling) (delays : List Nat) (j n : Nat) :
    s.readings delays j ≤ s.readings delays (j + n) := by
  have hsum : (delays.take (j + 1 + n)).sum =
      (delays.take (j + 1)).sum + ((delays.drop (j + 1)).take n).sum := by
    rw [List.take_add, List.sum_append]
  unfold readings
  rw [show j + n + 1 = j + 1 + n by omega, hsum]
  omega

theorem readings_le_return (s : Polling) (delays : List Nat) (k : Nat) :
    s.readings delays k ≤ s.now + delays.sum := by
  unfold readings
  conv_rhs => rw [← List.take_append_drop (k + 1) delays, List.sum_append]
  omega

/-- A poll that stops within the round. -/
theorem select_of_stopsAt {s : Polling} {delays : List Nat} {m : Nat}
    (hrule : s.lb.balanceRule = .kPoll) (hne : s.lb.webServers ≠ [])
    (hm : m < s.lb.webServers.length) (hstop : StopsAt (s.readings delays) s.lb m) :
    s.select delays =
      { s with
        lb := s.lb.behindPoll m
        now := s.now + delays.sum
        calls := .selected (turn s.lb.webServers.length s.lb.lastSelected m)
          (s.now + delays.sum) :: s.calls } := by
  have hpoll := (balanceByPoll_eq_some_iff hne _).2 ⟨m, hm, hstop, rfl⟩
  have hselect : LoadBalancer.select (s.surroundings delays) s.lb.webServers.length [] s.lb =
      some (s.lb.behindPoll m, some (turn s.lb.webServers.length s.lb.lastSelected m)) := by
    unfold LoadBalancer.select
    simp only [Mutex.lockGuard, if_neg hne, hrule]
    show (balanceByPoll (s.readings delays) _ s.lb).map _ = _
    rw [hpoll]
    rfl
  unfold select
  rw [hselect]

/-- A poll that has come round without a web server goes on for ever: what
was not available then is not available later. -/
theorem select_never_returns {s : Polling} {delays : List Nat} (hne : s.lb.webServers ≠ [])
    (hround : ComesTo (s.readings delays) s.lb s.lb.webServers.length) (fuel : Nat) :
    balanceByPoll (s.readings delays) fuel s.lb = none := by
  have hlater : ∀ k svr, svr ∈ s.lb.serverAt k → ¬ Available (s.readings delays k) svr := by
    intro k
    induction k using Nat.strong_induction_on with
    | _ k ih =>
        intro svr hsvr hav
        by_cases hk : k < s.lb.webServers.length
        · exact hround k hk svr hsvr hav
        · obtain ⟨j, rfl⟩ : ∃ j, k = j + s.lb.webServers.length :=
            ⟨k - s.lb.webServers.length, by omega⟩
          have hpos := List.length_pos_of_ne_nil hne
          have hearlier : svr ∈ s.lb.serverAt j := by
            unfold serverAt at hsvr ⊢
            rw [turn_add_self] at hsvr
            exact hsvr
          apply ih j (by omega) svr hearlier
          refine ⟨hav.1, fun hdown => ?_⟩
          exact Nat.le_trans (readings_le_add s delays j _) (hav.2 hdown)
  cases h : balanceByPoll (s.readings delays) fuel s.lb with
  | none => rfl
  | some r =>
      obtain ⟨k, -, hstop, -⟩ := (balanceByPoll_eq_some_iff hne r).1 h
      obtain ⟨svr, hsvr, hav⟩ := hstop.available
      exact absurd hav (hlater k svr hsvr)

/-! ## The invariant -/

/-- A web server reported down, without a heartbeat since, is still down or
has rested. -/
def Down (s : Polling) : Prop :=
  ∀ i t mid before, s.calls = mid ++ .reportedDown i t :: before →
    (∀ c ∈ mid, ¬ IsHeartbeat i c) →
      t + kDefaultRetryPeriod ≤ s.now ∨
        (t ≤ s.now ∧ ∃ svr ∈ s.lb.webServers[i]?, svr.isDown = true ∧ t ≤ svr.lastDownTs)

/-- What `Rests.rests` says of the calls. -/
def Rested (calls : List Call) : Prop :=
  ∀ i t u later mid before,
    calls = later ++ .selected i u :: (mid ++ .reportedDown i t :: before) →
      (∀ c ∈ mid, ¬ IsHeartbeat i c) → t + kDefaultRetryPeriod ≤ u

/-- Polls that have not selected a web server of positive weight have brought
its turn nearer. -/
def Nearer (s : Polling) : Prop :=
  ∀ i svr window before, s.calls = window ++ before → s.lb.webServers[i]? = some svr →
    0 < svr.weight → (∀ c ∈ window, ¬ IsSelected i c) →
      ∃ k, turn s.lb.webServers.length s.lb.lastSelected k = i ∧
        polls window + k < s.lb.webServers.length

structure Inv (s : Polling) : Prop where
  rule : s.lb.balanceRule = .kPoll
  nonempty : s.lb.webServers ≠ []
  running : s.hangs = false
  down : s.Down
  rested : Rested s.calls
  nearer : s.Nearer

theorem rested_cons {calls : List Call} {c : Call} (h : Rested calls)
    (hc : ∀ i t u mid before, c = .selected i u → calls = mid ++ .reportedDown i t :: before →
      (∀ c ∈ mid, ¬ IsHeartbeat i c) → t + kDefaultRetryPeriod ≤ u) :
    Rested (c :: calls) := by
  intro i t u later mid before hcalls hmid
  cases later with
  | nil =>
      obtain ⟨hhead, htail⟩ := List.cons.inj hcalls
      exact hc i t u mid before hhead htail hmid
  | cons d later =>
      obtain ⟨-, htail⟩ := List.cons.inj hcalls
      exact h i t u later mid before htail hmid

/-! ### Reports and heartbeats -/

/-- A call about the web server at `i` that selects none. -/
def report (i : Nat) (f : RegisteredServer → RegisteredServer) (now : Nat) (c : Call)
    (s : Polling) : Polling :=
  { s with lb := s.lb.modify i f, now, calls := c :: s.calls }

theorem nearer_report {s : Polling} {i now : Nat} {f : RegisteredServer → RegisteredServer}
    {c : Call} (h : s.Nearer) (hf : ∀ svr, (f svr).weight = svr.weight) (hc : polls [c] = 0) :
    (s.report i f now c).Nearer := by
  intro j svr window before hcalls hsvr hweight hwindow
  have hlen : (s.lb.modify i f).webServers.length = s.lb.webServers.length := modify_length _ _ _
  show ∃ k, turn (s.lb.modify i f).webServers.length s.lb.lastSelected k = j ∧
    polls window + k < (s.lb.modify i f).webServers.length
  rw [hlen]
  obtain ⟨svr', hsvr', hweight'⟩ : ∃ svr', s.lb.webServers[j]? = some svr' ∧ 0 < svr'.weight := by
    change (s.lb.modify i f).webServers[j]? = some svr at hsvr
    by_cases hij : i = j
    · subst hij
      rw [modify_webServers_self] at hsvr
      obtain ⟨svr', hsvr', rfl⟩ := Option.map_eq_some_iff.1 hsvr
      rw [hf] at hweight
      exact ⟨svr', hsvr', hweight⟩
    · rw [modify_webServers_ne hij] at hsvr
      exact ⟨svr, hsvr, hweight⟩
  cases window with
  | nil => exact h j svr' [] s.calls rfl hsvr' hweight' (fun c hc => absurd hc List.not_mem_nil)
  | cons d window =>
      obtain ⟨hhead, htail⟩ := List.cons.inj hcalls
      have hpolls : polls (d :: window) = polls window := by
        rw [← hhead]
        unfold polls at hc ⊢
        rw [← List.singleton_append, List.countP_append, hc, Nat.zero_add]
      rw [hpolls]
      exact h j svr' window before htail hsvr' hweight'
        (fun c hc => hwindow c (List.mem_cons_of_mem d hc))

/-- An earlier report about `j` counts behind a call about `i` as before, unless
the call is a heartbeat of `j`. -/
theorem down_report {s : Polling} {i now : Nat} {f : RegisteredServer → RegisteredServer}
    {c : Call} (h : s.Down) (hnow : s.now ≤ now)
    (hhead : ∀ j t, c = .reportedDown j t →
      t ≤ now ∧ ∃ svr ∈ (s.lb.modify i f).webServers[j]?, svr.isDown = true ∧ t ≤ svr.lastDownTs)
    (hkeep : ¬ IsHeartbeat i c → ∀ svr, svr.isDown = true →
      (f svr).isDown = true ∧ ∀ t, t ≤ now → t ≤ svr.lastDownTs → t ≤ (f svr).lastDownTs) :
    (s.report i f now c).Down := by
  intro j t mid before hcalls hmid
  show _ ∨ (t ≤ now ∧ ∃ svr ∈ (s.lb.modify i f).webServers[j]?, _)
  cases mid with
  | nil =>
      obtain ⟨hc, -⟩ := List.cons.inj hcalls
      exact Or.inr (hhead j t hc)
  | cons d mid =>
      obtain ⟨rfl, htail⟩ := List.cons.inj hcalls
      have hbefore := h j t mid before htail fun e he => hmid e (List.mem_cons_of_mem c he)
      rcases hbefore with hdone | ⟨ht, svr, hsvr, hdown, hts⟩
      · exact Or.inl (Nat.le_trans hdone hnow)
      · have htnow := Nat.le_trans ht hnow
        right
        by_cases hij : i = j
        · subst hij
          obtain ⟨hdown', hts'⟩ := hkeep (hmid c List.mem_cons_self) svr hdown
          refine ⟨htnow, f svr, ?_, hdown', hts' t htnow hts⟩
          rw [modify_webServers_self, hsvr]
          rfl
        · rw [modify_webServers_ne hij]
          exact ⟨htnow, svr, hsvr, hdown, hts⟩

theorem inv_reportWebServerDown {s : Polling} {i now : Nat} (h : Inv s)
    (hi : i < s.lb.webServers.length) (hnow : s.now ≤ now) :
    Inv { s with lb := s.lb.reportWebServerDown now i, now,
                 calls := .reportedDown i now :: s.calls } where
  rule := h.rule
  nonempty := modify_ne_nil h.nonempty i _
  running := h.running
  down := by
    refine down_report h.down hnow ?_ fun _ svr _ => ⟨rfl, fun t ht _ => ht⟩
    intro j t hc
    cases hc
    refine ⟨Nat.le_refl now, { s.lb.webServers[i] with isDown := true, lastDownTs := now },
      ?_, rfl, Nat.le_refl now⟩
    rw [modify_webServers_self, List.getElem?_eq_getElem hi]
    rfl
  rested := rested_cons h.rested fun _ _ _ _ _ hc => by cases hc
  nearer := nearer_report h.nearer (fun _ => rfl) rfl

theorem inv_onRecvHeartbeat {s : Polling} {i now backlog : Nat} (h : Inv s) (hnow : s.now ≤ now) :
    Inv { s with lb := s.lb.onRecvHeartbeat now i backlog, now,
                 calls := .heartbeat i now :: s.calls } where
  rule := h.rule
  nonempty := modify_ne_nil h.nonempty i _
  running := h.running
  down := by
    refine down_report h.down hnow (fun j t hc => by cases hc) ?_
    intro hheartbeat
    exact absurd ⟨now, rfl⟩ hheartbeat
  rested := rested_cons h.rested fun _ _ _ _ _ hc => by cases hc
  nearer := nearer_report h.nearer (fun _ => rfl) rfl

/-! ### Polls -/

/-- Under the condition, a poll that comes to a web server of positive weight
selects it. -/
theorem available_of_polledAtEnd {s : Polling} {delays : List Nat} {k : Nat}
    {svr : RegisteredServer} (hend : PolledAtEnd s (.select delays))
    (hclock : s.now + delays.sum < 2 ^ 64) (hk : k < s.lb.webServers.length)
    (hcomes : ComesTo (s.readings delays) s.lb k) (hsvr : s.lb.serverAt k = some svr)
    (hweight : 0 < svr.weight) : Available (s.readings delays k) svr := by
  refine ⟨hweight, fun hdown => ?_⟩
  have hreading := hend k hk hcomes svr hsvr hweight hdown
  have hle := readings_le_return s delays k
  rw [← hreading, Nat.mod_eq_of_lt (by omega)]

/-- A poll returns while some web server is up. -/
theorem exists_stopsAt_of_someUp {s : Polling} {delays : List Nat}
    (hup : SomeUp s (.select delays)) :
    ∃ m, m < s.lb.webServers.length ∧ StopsAt (s.readings delays) s.lb m := by
  obtain ⟨svr, hmem, hweight, hdown⟩ := hup
  obtain ⟨i, hi, hget⟩ := List.mem_iff_getElem.1 hmem
  obtain ⟨k, hk, hturn⟩ := exists_turn (s.lb.selected_lt (List.ne_nil_of_mem hmem)) hi
  have hsvr : s.lb.serverAt k = some svr := by
    unfold serverAt
    rw [hturn, List.getElem?_eq_getElem hi, hget]
  have hav : Available (s.readings delays k) svr :=
    ⟨hweight, fun h => by rw [hdown] at h; cases h⟩
  obtain ⟨m, hmk, hstop⟩ := exists_stopsAt hsvr hav
  exact ⟨m, Nat.lt_of_le_of_lt hmk hk, hstop⟩

/-- A selected web server that was reported down has rested. -/
theorem rested_of_stopsAt {s : Polling} {delays : List Nat} {m : Nat} (h : Inv s)
    (hend : PolledAtEnd s (.select delays)) (hm : m < s.lb.webServers.length)
    (hstop : StopsAt (s.readings delays) s.lb m) {i t : Nat} {mid before : List Call}
    (hi : turn s.lb.webServers.length s.lb.lastSelected m = i)
    (hcalls : s.calls = mid ++ .reportedDown i t :: before)
    (hmid : ∀ c ∈ mid, ¬ IsHeartbeat i c) :
    t + kDefaultRetryPeriod ≤ s.now + delays.sum := by
  obtain ⟨hit, hhit, hav⟩ := hstop.available
  rcases h.down i t mid before hcalls hmid with hdone | ⟨-, svr, hsvr, hdown, hts⟩
  · omega
  · rw [← hi] at hsvr
    have heq : hit = svr := Option.some.inj (hhit.symm.trans hsvr)
    rw [heq] at hav
    have hreading := hend m hm hstop.comes svr hsvr hav.1 hdown
    have hle := readings_le_return s delays m
    omega

theorem down_select {s : Polling} {delays : List Nat} {m : Nat} {calls : List Call} (h : Inv s)
    (hend : PolledAtEnd s (.select delays)) (hm : m < s.lb.webServers.length)
    (hstop : StopsAt (s.readings delays) s.lb m)
    (hnew : calls = .selected (turn s.lb.webServers.length s.lb.lastSelected m)
      (s.now + delays.sum) :: s.calls) :
    Down { s with lb := s.lb.behindPoll m, now := s.now + delays.sum, calls } := by
  intro i t mid before hcalls hmid
  change calls = _ at hcalls
  rw [hnew] at hcalls
  cases mid with
  | nil =>
      obtain ⟨hhead, -⟩ := List.cons.inj hcalls
      cases hhead
  | cons d mid =>
      obtain ⟨-, htail⟩ := List.cons.inj hcalls
      have hmid' : ∀ c ∈ mid, ¬ IsHeartbeat i c :=
        fun c hc => hmid c (List.mem_cons_of_mem d hc)
      by_cases hi : turn s.lb.webServers.length s.lb.lastSelected m = i
      · exact Or.inl (rested_of_stopsAt h hend hm hstop hi htail hmid')
      · show _ ∨ (t ≤ s.now + delays.sum ∧
          ∃ svr ∈ ((s.lb.selectAt _ _).modify _ tried).webServers[i]?, _)
        rw [modify_webServers_ne hi]
        rcases h.down i t mid before htail hmid' with hdone | ⟨ht, hsvr⟩
        · exact Or.inl (Nat.le_trans hdone (Nat.le_add_right _ _))
        · exact Or.inr ⟨Nat.le_trans ht (Nat.le_add_right _ _), hsvr⟩

/-- A poll that selects another web server does not pass by one of positive
weight. -/
theorem lt_turn_of_stopsAt {s : Polling} {delays : List Nat} {m k : Nat} {svr : RegisteredServer}
    (hend : PolledAtEnd s (.select delays)) (hclock : s.now + delays.sum < 2 ^ 64)
    (hstop : StopsAt (s.readings delays) s.lb m) (hk : k < s.lb.webServers.length)
    (hsvr : s.lb.serverAt k = some svr) (hweight : 0 < svr.weight) (hmk : m ≠ k) : m < k := by
  by_contra hge
  have hkm : k < m := by omega
  have hcomes : ComesTo (s.readings delays) s.lb k :=
    fun j hj => hstop.comes j (Nat.lt_trans hj hkm)
  exact hstop.comes k hkm svr hsvr
    (available_of_polledAtEnd hend hclock hk hcomes hsvr hweight)

theorem nearer_select {s : Polling} {delays : List Nat} {m : Nat} {calls : List Call} (h : Inv s)
    (hend : PolledAtEnd s (.select delays)) (hclock : s.now + delays.sum < 2 ^ 64)
    (hstop : StopsAt (s.readings delays) s.lb m)
    (hnew : calls = .selected (turn s.lb.webServers.length s.lb.lastSelected m)
      (s.now + delays.sum) :: s.calls) :
    Nearer { s with lb := s.lb.behindPoll m, now := s.now + delays.sum, calls } := by
  intro i svr window before hcalls hsvr hweight hwindow
  change calls = _ at hcalls
  rw [hnew] at hcalls
  have hlen : (s.lb.behindPoll m).webServers.length = s.lb.webServers.length :=
    modify_length _ _ _
  show ∃ k, turn (s.lb.behindPoll m).webServers.length
      (turn s.lb.webServers.length s.lb.lastSelected m) k = i ∧
    polls window + k < (s.lb.behindPoll m).webServers.length
  have hi : i < s.lb.webServers.length := by
    rw [← hlen]
    exact (List.getElem?_eq_some_iff.1 hsvr).1
  rw [hlen]
  cases window with
  | nil =>
      obtain ⟨k, hk, hturn⟩ := exists_turn
        (turn_lt (List.length_pos_of_ne_nil h.nonempty) s.lb.lastSelected m) hi
      refine ⟨k, hturn, ?_⟩
      show 0 + k < _
      omega
  | cons d window =>
      obtain ⟨hhead, htail⟩ := List.cons.inj hcalls
      have hother : turn s.lb.webServers.length s.lb.lastSelected m ≠ i := by
        intro heq
        exact hwindow d List.mem_cons_self ⟨_, by rw [← hhead, heq]⟩
      change ((s.lb.selectAt _ _).modify _ tried).webServers[i]? = some svr at hsvr
      rw [modify_webServers_ne hother] at hsvr
      obtain ⟨k, hturn, hk⟩ := h.nearer i svr window before htail hsvr hweight
        (fun c hc => hwindow c (List.mem_cons_of_mem d hc))
      have hat : s.lb.serverAt k = some svr := by
        unfold serverAt
        rw [hturn]
        exact hsvr
      have hmk : m < k := by
        apply lt_turn_of_stopsAt hend hclock hstop (by omega) hat hweight
        rintro rfl
        exact hother hturn
      have hpolls : polls (d :: window) = polls window + 1 := by
        rw [← hhead]
        exact List.countP_cons_of_pos rfl
      refine ⟨k - m - 1, ?_, by omega⟩
      rw [turn_add, show m + 1 + (k - m - 1) = k by omega]
      exact hturn

theorem inv_select {s : Polling} {delays : List Nat} (h : Inv s)
    (hclock : s.now + delays.sum < 2 ^ 64) (hup : SomeUp s (.select delays))
    (hend : PolledAtEnd s (.select delays)) : Inv (s.select delays) := by
  obtain ⟨m, hm, hstop⟩ := exists_stopsAt_of_someUp hup
  rw [select_of_stopsAt h.rule h.nonempty hm hstop]
  constructor
  · exact h.rule
  · apply List.ne_nil_of_length_pos
    rw [show (s.lb.behindPoll m).webServers.length = _ from modify_length _ _ _]
    exact List.length_pos_of_ne_nil h.nonempty
  · exact h.running
  · exact down_select h hend hm hstop rfl
  · apply rested_cons h.rested
    intro i t u mid before hhead hcalls hmid
    cases hhead
    exact rested_of_stopsAt h hend hm hstop rfl hcalls hmid
  · exact nearer_select h hend hclock hstop rfl

/-! ## Main theorem -/

theorem inv_init {lb : LoadBalancer} (now : Nat) (hrule : lb.balanceRule = .kPoll)
    (hne : lb.webServers ≠ []) : Inv (init lb now) where
  rule := hrule
  nonempty := hne
  running := rfl
  down := by
    intro i t mid before hcalls
    exact absurd hcalls (by simp [init])
  rested := by
    intro i t u later mid before hcalls
    exact absurd hcalls (by simp [init])
  nearer := by
    intro i svr window before hcalls hsvr _ _
    obtain ⟨hwindow, -⟩ := List.append_eq_nil_iff.1 hcalls.symm
    obtain ⟨k, hk, hturn⟩ := exists_turn (lb.selected_lt hne) (List.getElem?_eq_some_iff.1 hsvr).1
    refine ⟨k, hturn, ?_⟩
    rw [hwindow]
    show 0 + k < lb.webServers.length
    omega

theorem inv_step {s s' : Polling} {e : Event} (h : Inv s) (hup : SomeUp s e)
    (hend : PolledAtEnd s e) (hstep : step s e = some s') : Inv s' := by
  unfold step at hstep
  simp only at hstep
  split at hstep
  · cases hstep
  · rename_i hrun
    have hclock : s.now + e.duration < 2 ^ 64 := by
      simp only [h.running, Bool.false_or, decide_eq_true_eq, Nat.not_le] at hrun
      exact hrun
    cases e with
    | select delays =>
        cases hstep
        exact inv_select h hclock hup hend
    | reportWebServerDown delay i =>
        simp only at hstep
        split at hstep
        · rename_i hi
          cases hstep
          exact inv_reportWebServerDown h hi (Nat.le_add_right _ _)
        · cases hstep
    | onRecvHeartbeat delay i backlog =>
        simp only at hstep
        split at hstep
        · cases hstep
          exact inv_onRecvHeartbeat h (Nat.le_add_right _ _)
        · cases hstep

theorem Inv.rests {s : Polling} (h : Inv s) : Rests s where
  returns := h.running
  rests := h.rested
  comesBack := by
    intro i t svr window mid before hcalls hsvr hweight _ _ hround
    by_contra hnone
    obtain ⟨k, -, hk⟩ := h.nearer i svr window _ hcalls hsvr hweight
      (fun c hc hsel => hnone ⟨c, hc, hsel⟩)
    omega

/-- **Down web servers rest and come back** in every run in which the polls
come to a web server that is down only at the end of its period. -/
theorem rests_of_polledAtEnd (lb : LoadBalancer) (now : Nat) (events : List Event)
    (hrule : lb.balanceRule = .kPoll) (hne : lb.webServers ≠ [])
    (hup : Along step SomeUp (init lb now) events)
    (hend : Along step PolledAtEnd (init lb now) events) :
    ∀ s ∈ trace step (init lb now) events, Rests s := by
  intro s hs
  have hinv := trace_invariant (fun s e s' h hc hstep => inv_step h hc.1 hc.2 hstep)
    (inv_init now hrule hne) (along_and hup hend) s hs
  exact hinv.rests

/-! ## Two runs -/

instance (s : Polling) : ∀ e, Decidable (SomeUp s e)
  | .select _ => inferInstanceAs (Decidable (∃ svr ∈ s.lb.webServers, _))
  | .reportWebServerDown _ _ => isTrue trivial
  | .onRecvHeartbeat _ _ _ => isTrue trivial

instance (s : Polling) : ∀ e, Decidable (PolledAtEnd s e)
  | .select delays => inferInstanceAs (Decidable
      (∀ k, k < s.lb.webServers.length → ComesTo (s.readings delays) s.lb k →
        ∀ svr ∈ s.lb.serverAt k, 0 < svr.weight → svr.isDown = true →
          s.readings delays k = svr.lastDownTs + kDefaultRetryPeriod))
  | .reportWebServerDown _ _ => isTrue trivial
  | .onRecvHeartbeat _ _ _ => isTrue trivial

/-- The second web server goes down when it has just been selected, and its
next turn is at the end of its period. -/
def restedRun : List Event :=
  [.select [5], .reportWebServerDown 995 1, .select [1], .select [599999]]

theorem rests_restedRun :
    (∃ s ∈ run step (init twoServers 0) restedRun, s.calls =
      [.selected 1 601000, .selected 0 1001, .reportedDown 1 1000, .selected 1 5]) ∧
      ∀ s ∈ trace step (init twoServers 0) restedRun, Rests s := by
  constructor
  · decide +kernel
  · exact rests_of_polledAtEnd twoServers 0 restedRun rfl (by simp [twoServers])
      (by decide +kernel) (by decide +kernel)

/-- The second web server goes down before its turn, which comes at once. -/
def earlyRun : List Event :=
  [.reportWebServerDown 1000 1, .select [1]]

theorem not_rests_earlyRun :
    Along step SomeUp (init twoServers 0) earlyRun ∧
      ∃ s ∈ trace step (init twoServers 0) earlyRun, ¬ Rests s := by
  refine ⟨by decide +kernel, ?_⟩
  have hrun : ∃ s ∈ run step (init twoServers 0) earlyRun,
      s.calls = [.selected 1 1001, .reportedDown 1 1000] := by
    decide +kernel
  obtain ⟨s, hs, hcalls⟩ := hrun
  refine ⟨s, run_mem_trace hs, ?_⟩
  intro hrests
  have hearly := hrests.rests 1 1000 1001 [] [] [] hcalls (by simp)
  exact absurd hearly (by decide)

end Polling

end Unixtar.ReverseProxy
