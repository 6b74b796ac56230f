import Mathlib.Data.Nat.Find
import Unixtar.Lib.RoundRobin
import Unixtar.ReverseProxy.ProxyServer

/-!
# The load balancer: `reverseproxy/loadbalancer.cc`

A web server is known by its place in `web_servers_`.  The environment gives
each call the readings of the clock and the value of `random()`; the polling
loop has a fuel argument, and `none` means that the call has not returned.

`mutex_` is not recursive, so a thread that holds it does not get it a second
time: that is how `__BalanceByWeight` ends.

## Main results

* `balanceByPoll_eq_some_iff` — the poll returns the first available web
  server behind the last one selected.
* `select_cases` — what a call of `Select` that returns has done.
* `exists_select_iff` — what `Select` returns, rule by rule.
-/

namespace Unixtar.ReverseProxy

open Unixtar.Lib.RoundRobin

/-- A web server as the load balancer keeps it. -/
structure RegisteredServer extends WebServerProfile where
  weight : Nat
  lastDownTs : Nat
  lastHeartbeatTs : Nat
  isDown : Bool
  isOverload : Bool
  backlog : Nat

/-- `WebServerProfile::WebServerProfile`, with the fields of the
configuration. -/
def WebServerProfile.registered (profile : WebServerProfile) (weight : Nat) : RegisteredServer :=
  { profile with weight, lastDownTs := 0, lastHeartbeatTs := 0, isDown := false,
                 isOverload := false, backlog := 0 }

inductive TBalanceRule
  | kUnknown
  | kPoll
  | kWeight
  | kIpHash
deriving DecidableEq

/-- The load balancer; `last_selected_` points to a web server as soon as
there is one. -/
@[ext]
structure LoadBalancer where
  balanceRule : TBalanceRule
  webServers : List RegisteredServer
  lastSelected : Nat
  currWeight : Nat
  selected_lt : webServers ≠ [] → lastSelected < webServers.length

/-- `mutex_`, as the calling thread has it. -/
inductive Mutex
  | free
  | held

/-- `std::lock_guard`: a mutex that the thread holds is never acquired. -/
def Mutex.lockGuard : Mutex → Option Mutex
  | .free => some .held
  | .held => none

/-- What a call finds outside: `::gettickcount()` in each round of the poll,
`random()`, and `inet_pton` of the standard library. -/
structure Surroundings where
  clock : Nat → Nat
  random : Nat
  inetPton : Bytes → Option Nat

namespace LoadBalancer

/-- 10 min. -/
def kDefaultRetryPeriod : Nat := 10 * 60 * 1000

def kMaxWeight : Nat := 10

def kOverloadBacklog : Nat := 4096

/-- `LoadBalancer::LoadBalancer`. -/
def init : LoadBalancer :=
  { balanceRule := .kUnknown, webServers := [], lastSelected := 0, currWeight := 0,
    selected_lt := fun h => absurd rfl h }

/-- `RegisterWebServer`; a weight above the limit fails its assertion. -/
def registerWebServer (svr : RegisteredServer) (lb : LoadBalancer) : Option LoadBalancer :=
  if svr.weight > kMaxWeight then none
  else
    some { lb with webServers := lb.webServers ++ [svr], lastSelected := 0,
                   selected_lt := fun _ => by simp }

/-- `ConfigRule`. -/
def configRule (rule : TBalanceRule) (lb : LoadBalancer) : Option LoadBalancer :=
  if rule = .kUnknown then none else some { lb with balanceRule := rule }

/-- A change of one web server's fields. -/
def modify (i : Nat) (f : RegisteredServer → RegisteredServer) (lb : LoadBalancer) :
    LoadBalancer :=
  { lb with
    webServers := lb.webServers.modify i f
    selected_lt := fun h => by
      rw [List.length_modify]
      exact lb.selected_lt fun hnil => h (by rw [hnil, List.modify_nil]) }

/-! ## Reports -/

/-- `ReportWebServerDown`. -/
def reportWebServerDown (now i : Nat) (lb : LoadBalancer) : LoadBalancer :=
  lb.modify i fun svr => { svr with isDown := true, lastDownTs := now }

/-- `OnRecvHeartbeat`. -/
def onRecvHeartbeat (now i backlog : Nat) (lb : LoadBalancer) : LoadBalancer :=
  lb.modify i fun svr =>
    { svr with isDown := false, backlog, lastHeartbeatTs := now,
               isOverload := decide (backlog > kOverloadBacklog) }

/-! ## The rules -/

/-- `__IsWebServerAvailable`: a web server that is down is tried. -/
def isWebServerAvailable (now : Nat) (svr : RegisteredServer) : RegisteredServer × Bool :=
  if svr.weight ≤ 0 then (svr, false)
  else if !svr.isDown then (svr, true)
  else if (svr.lastDownTs + kDefaultRetryPeriod) % 2 ^ 64 ≥ now then
    ({ svr with isDown := false }, true)
  else (svr, false)

/-- Another place for `last_selected_`. -/
def selectAt (i : Nat) (lb : LoadBalancer)
    (hi : lb.webServers ≠ [] → i < lb.webServers.length) : LoadBalancer :=
  { lb with lastSelected := i, selected_lt := hi }

/-- `++last_selected_`, with the return to `begin()`. -/
def advance (lb : LoadBalancer) : LoadBalancer :=
  lb.selectAt (if lb.lastSelected + 1 = lb.webServers.length then 0 else lb.lastSelected + 1)
    fun hne => by
      have hlt := lb.selected_lt hne
      split <;> omega

/-- `__BalanceByPoll`. -/
def balanceByPoll (clock : Nat → Nat) : Nat → LoadBalancer → Option (LoadBalancer × Nat)
  | 0, _ => none
  | fuel + 1, lb =>
      let lb := lb.advance
      match lb.webServers[lb.lastSelected]? with
      | none => none
      | some svr =>
          match isWebServerAvailable (clock 0) svr with
          | (svr, true) => some (lb.modify lb.lastSelected fun _ => svr, lb.lastSelected)
          | (_, false) => balanceByPoll (fun k => clock (k + 1)) fuel lb

/-- What one round of the loop in `__BalanceByWeight` pushes to `selector`. -/
def selectorEntry (back : Int) (svr : RegisteredServer) : Int :=
  if svr.isOverload || svr.isDown then back
  else
    let factor := kOverloadBacklog / kMaxWeight
    let weight : Int := svr.weight * factor - (BitVec.ofNat 32 svr.backlog).toInt
    if back + weight > 0 then weight else 0

/-- `selector` behind the loop. -/
def selector (webServers : List RegisteredServer) : List Int :=
  webServers.foldl (fun acc svr => acc ++ [selectorEntry (acc.getLastD 0) svr]) [0]

/-- `__BalanceByWeight`, with its own lock. -/
def balanceByWeight (mutex : Mutex) (random : Nat) (lb : LoadBalancer) :
    Option (LoadBalancer × Nat) :=
  match mutex.lockGuard with
  | none => none
  | some _ =>
      let selector := selector lb.webServers
      let back := selector.getLastD 0
      if back = 0 then none
      else
        let rand := (random : Int).tmod back
        match selector.findIdx? fun entry => entry % 2 ^ 64 > rand with
        | none => some (lb, lb.lastSelected)
        | some i =>
            if hi : i < lb.webServers.length then some (lb.selectAt i fun _ => hi, i) else none

/-- `__BalanceByIpHash`. -/
def balanceByIpHash (inetPton : Bytes → Option Nat) (ip : Bytes) (lb : LoadBalancer) :
    LoadBalancer × Option Nat :=
  match inetPton ip with
  | none => (lb, none)
  | some addr =>
      let idx := addr % lb.webServers.length
      let lb := lb.selectAt idx fun hne => Nat.mod_lt _ (List.length_pos_of_ne_nil hne)
      match lb.webServers[idx]? with
      | none => (lb, none)
      | some svr => ({ lb with currWeight := svr.weight }, some idx)

/-- The place of `web_servers_.front()`. -/
def front : Nat := 0

/-- `Select`, with the fuel of the poll: a null pointer is `none`. -/
def select (env : Surroundings) (fuel : Nat) (ip : Bytes) (lb : LoadBalancer) :
    Option (LoadBalancer × Option Nat) :=
  match Mutex.free.lockGuard with
  | none => none
  | some mutex =>
      if lb.webServers = [] then some (lb, none)
      else
        match lb.balanceRule with
        | .kPoll => (balanceByPoll env.clock fuel lb).map fun r => (r.1, some r.2)
        | .kWeight => (balanceByWeight mutex env.random lb).map fun r => (r.1, some r.2)
        | .kIpHash =>
            let r := balanceByIpHash env.inetPton ip lb
            some (r.1, some (r.2.getD front))
        | .kUnknown => some (lb, some front)

/-! ## What the poll returns -/

/-- The web servers `__IsWebServerAvailable` accepts. -/
def Available (now : Nat) (svr : RegisteredServer) : Prop :=
  0 < svr.weight ∧
    (svr.isDown = true → now ≤ (svr.lastDownTs + kDefaultRetryPeriod) % 2 ^ 64)

instance (now : Nat) (svr : RegisteredServer) : Decidable (Available now svr) :=
  inferInstanceAs (Decidable (_ ∧ _))

/-- The web server that `__IsWebServerAvailable` leaves is not down. -/
def tried (svr : RegisteredServer) : RegisteredServer := { svr with isDown := false }

theorem isWebServerAvailable_of_available {now : Nat} {svr : RegisteredServer}
    (h : Available now svr) : isWebServerAvailable now svr = (tried svr, true) := by
  obtain ⟨hweight, hdown⟩ := h
  unfold isWebServerAvailable
  rw [if_neg (by omega)]
  cases hsvr : svr.isDown with
  | false =>
      have htried : tried svr = svr := by
        unfold tried
        rw [← hsvr]
      rw [htried]
      rfl
  | true =>
      have hperiod := hdown hsvr
      rw [if_neg (by simp), if_pos hperiod]
      rfl

theorem isWebServerAvailable_of_not_available {now : Nat} {svr : RegisteredServer}
    (h : ¬ Available now svr) : isWebServerAvailable now svr = (svr, false) := by
  unfold isWebServerAvailable
  split
  · rfl
  · rename_i hweight
    cases hsvr : svr.isDown with
    | false =>
        exfalso
        apply h
        exact ⟨by omega, fun hdown => by rw [hsvr] at hdown; cases hdown⟩
    | true =>
        rw [if_neg (by simp), if_neg]
        intro hperiod
        exact h ⟨by omega, fun _ => hperiod⟩

/-- The web server `k` turns behind the last one selected. -/
def serverAt (lb : LoadBalancer) (k : Nat) : Option RegisteredServer :=
  lb.webServers[turn lb.webServers.length lb.lastSelected k]?

/-- No web server is available before turn `k`: the poll comes to it. -/
def ComesTo (clock : Nat → Nat) (lb : LoadBalancer) (k : Nat) : Prop :=
  ∀ j, j < k → ∀ svr ∈ lb.serverAt j, ¬ Available (clock j) svr

instance (clock : Nat → Nat) (lb : LoadBalancer) (k : Nat) : Decidable (ComesTo clock lb k) :=
  inferInstanceAs (Decidable
    (∀ j, j < k → ∀ svr ∈ lb.serverAt j, ¬ Available (clock j) svr))

/-- Turn `k` is the first one with an available web server. -/
structure StopsAt (clock : Nat → Nat) (lb : LoadBalancer) (k : Nat) : Prop where
  comes : ComesTo clock lb k
  available : ∃ svr ∈ lb.serverAt k, Available (clock k) svr

/-- The load balancer behind a poll that stops at turn `k`. -/
def behindPoll (k : Nat) (lb : LoadBalancer) : LoadBalancer :=
  let i := turn lb.webServers.length lb.lastSelected k
  (lb.selectAt i fun hne => turn_lt (List.length_pos_of_ne_nil hne) _ _).modify i tried

theorem serverAt_isSome {lb : LoadBalancer} (hne : lb.webServers ≠ []) (k : Nat) :
    ∃ svr, lb.serverAt k = some svr := by
  have hlt := turn_lt (List.length_pos_of_ne_nil hne) lb.lastSelected k
  exact ⟨_, List.getElem?_eq_getElem hlt⟩

theorem advance_lastSelected {lb : LoadBalancer} (hne : lb.webServers ≠ []) :
    lb.advance.lastSelected = turn lb.webServers.length lb.lastSelected 0 :=
  (turn_zero (lb.selected_lt hne)).symm

theorem turn_advance {lb : LoadBalancer} (hne : lb.webServers ≠ []) (k : Nat) :
    turn lb.advance.webServers.length lb.advance.lastSelected k =
      turn lb.webServers.length lb.lastSelected (k + 1) := by
  show turn lb.webServers.length lb.advance.lastSelected k = _
  rw [advance_lastSelected hne, turn_add, Nat.add_comm (0 + 1) k]

theorem serverAt_advance {lb : LoadBalancer} (hne : lb.webServers ≠ []) (k : Nat) :
    lb.advance.serverAt k = lb.serverAt (k + 1) := by
  unfold serverAt
  rw [turn_advance hne]
  rfl

theorem comesTo_succ {clock : Nat → Nat} {lb : LoadBalancer} (hne : lb.webServers ≠ []) (k : Nat) :
    ComesTo clock lb (k + 1) ↔
      (∀ svr ∈ lb.serverAt 0, ¬ Available (clock 0) svr) ∧
        ComesTo (fun k => clock (k + 1)) lb.advance k := by
  constructor
  · intro h
    refine ⟨h 0 (Nat.zero_lt_succ k), ?_⟩
    intro j hj svr hsvr
    rw [serverAt_advance hne] at hsvr
    exact h (j + 1) (Nat.succ_lt_succ hj) svr hsvr
  · rintro ⟨hzero, hrest⟩ j hj svr hsvr
    cases j with
    | zero => exact hzero svr hsvr
    | succ j =>
        rw [← serverAt_advance hne] at hsvr
        exact hrest j (Nat.lt_of_succ_lt_succ hj) svr hsvr

theorem stopsAt_zero {clock : Nat → Nat} {lb : LoadBalancer} {svr : RegisteredServer}
    (hsvr : lb.serverAt 0 = some svr) : StopsAt clock lb 0 ↔ Available (clock 0) svr := by
  constructor
  · rintro ⟨-, svr', hsvr', hav⟩
    rw [hsvr, Option.mem_some_iff] at hsvr'
    rw [hsvr']
    exact hav
  · intro hav
    exact ⟨fun j hj => absurd hj (Nat.not_lt_zero j), svr, hsvr, hav⟩

theorem stopsAt_succ {clock : Nat → Nat} {lb : LoadBalancer} (hne : lb.webServers ≠ []) (k : Nat) :
    StopsAt clock lb (k + 1) ↔
      (∀ svr ∈ lb.serverAt 0, ¬ Available (clock 0) svr) ∧
        StopsAt (fun k => clock (k + 1)) lb.advance k := by
  constructor
  · rintro ⟨hcomes, hav⟩
    obtain ⟨hzero, hrest⟩ := (comesTo_succ hne k).1 hcomes
    rw [← serverAt_advance hne] at hav
    exact ⟨hzero, hrest, hav⟩
  · rintro ⟨hzero, hrest, hav⟩
    rw [serverAt_advance hne] at hav
    exact ⟨(comesTo_succ hne k).2 ⟨hzero, hrest⟩, hav⟩

theorem StopsAt.unique {clock : Nat → Nat} {lb : LoadBalancer} {j k : Nat}
    (hj : StopsAt clock lb j) (hk : StopsAt clock lb k) : j = k := by
  rcases Nat.lt_trichotomy j k with hlt | heq | hlt
  · obtain ⟨svr, hsvr, hav⟩ := hj.available
    exact absurd hav (hk.comes j hlt svr hsvr)
  · exact heq
  · obtain ⟨svr, hsvr, hav⟩ := hk.available
    exact absurd hav (hj.comes k hlt svr hsvr)

/-- A web server that is available at some turn ends the poll there or
before. -/
theorem exists_stopsAt {clock : Nat → Nat} {lb : LoadBalancer} {k : Nat} {svr : RegisteredServer}
    (hsvr : lb.serverAt k = some svr) (hav : Available (clock k) svr) :
    ∃ m, m ≤ k ∧ StopsAt clock lb m := by
  classical
  have hex : ∃ m, ∃ svr ∈ lb.serverAt m, Available (clock m) svr := ⟨k, svr, hsvr, hav⟩
  refine ⟨Nat.find hex, Nat.find_min' hex ⟨svr, hsvr, hav⟩, ?_, Nat.find_spec hex⟩
  intro j hj svr' hsvr' hav'
  exact Nat.find_min hex hj ⟨svr', hsvr', hav'⟩

theorem modify_webServers_ne {lb : LoadBalancer} {i j : Nat}
    {f : RegisteredServer → RegisteredServer} (hne : i ≠ j) :
    (lb.modify i f).webServers[j]? = lb.webServers[j]? :=
  List.getElem?_modify_ne f lb.webServers hne

theorem modify_webServers_self {lb : LoadBalancer} {i : Nat}
    {f : RegisteredServer → RegisteredServer} :
    (lb.modify i f).webServers[i]? = lb.webServers[i]?.map f :=
  List.getElem?_modify_eq f i lb.webServers

@[simp] theorem modify_length (lb : LoadBalancer) (i : Nat)
    (f : RegisteredServer → RegisteredServer) :
    (lb.modify i f).webServers.length = lb.webServers.length :=
  List.length_modify _ _ _

theorem modify_ne_nil {lb : LoadBalancer} (hne : lb.webServers ≠ []) (i : Nat)
    (f : RegisteredServer → RegisteredServer) : (lb.modify i f).webServers ≠ [] := by
  apply List.ne_nil_of_length_pos
  rw [modify_length]
  exact List.length_pos_of_ne_nil hne

theorem modify_const {lb : LoadBalancer} {i : Nat} {svr : RegisteredServer}
    {f : RegisteredServer → RegisteredServer} (hsvr : lb.webServers[i]? = some svr) :
    (lb.modify i fun _ => f svr) = lb.modify i f := by
  have hservers : (lb.webServers.modify i fun _ => f svr) = lb.webServers.modify i f := by
    apply List.ext_getElem?
    intro j
    rw [List.getElem?_modify, List.getElem?_modify]
    by_cases hij : i = j
    · rw [← hij, hsvr]
      simp
    · simp [hij]
  unfold modify
  simp only [hservers]

theorem behindPoll_advance {lb : LoadBalancer} (hne : lb.webServers ≠ []) (k : Nat) :
    lb.advance.behindPoll k = lb.behindPoll (k + 1) := by
  apply LoadBalancer.ext
  · rfl
  · show lb.webServers.modify (turn _ _ k) tried = _
    rw [turn_advance hne]
    rfl
  · exact turn_advance hne k
  · rfl

/-- **The poll** returns the first available web server behind the last one
selected, and nothing as long as there is none. -/
theorem balanceByPoll_eq_some_iff {clock : Nat → Nat} {fuel : Nat} {lb : LoadBalancer}
    (hne : lb.webServers ≠ []) (r : LoadBalancer × Nat) :
    balanceByPoll clock fuel lb = some r ↔
      ∃ k, k < fuel ∧ StopsAt clock lb k ∧
        r = (lb.behindPoll k, turn lb.webServers.length lb.lastSelected k) := by
  induction fuel generalizing clock lb with
  | zero =>
      constructor
      · intro h
        cases h
      · rintro ⟨k, hk, -⟩
        exact absurd hk (Nat.not_lt_zero k)
  | succ fuel ih =>
      obtain ⟨svr, hsvr⟩ := serverAt_isSome hne 0
      have hplace := advance_lastSelected hne
      have hfound : lb.advance.webServers[lb.advance.lastSelected]? = some svr := by
        rw [hplace]
        exact hsvr
      unfold balanceByPoll
      simp only [hfound]
      by_cases hav : Available (clock 0) svr
      · simp only [isWebServerAvailable_of_available hav, Option.some.injEq]
        have hstop : StopsAt clock lb 0 := (stopsAt_zero hsvr).2 hav
        have hpoll : (lb.advance.modify lb.advance.lastSelected fun _ => tried svr) =
            lb.behindPoll 0 := by
          rw [modify_const hfound]
          unfold behindPoll
          simp only [← hplace]
          rfl
        rw [hpoll, hplace]
        constructor
        · intro hr
          exact ⟨0, Nat.zero_lt_succ fuel, hstop, hr.symm⟩
        · rintro ⟨k, -, hk, hr⟩
          rw [hr, hk.unique hstop]
      · simp only [isWebServerAvailable_of_not_available hav]
        have hzero : ∀ svr ∈ lb.serverAt 0, ¬ Available (clock 0) svr := by
          intro svr' hsvr'
          rw [hsvr, Option.mem_some_iff] at hsvr'
          rw [← hsvr']
          exact hav
        have hne' : lb.advance.webServers ≠ [] := hne
        rw [ih hne']
        constructor
        · rintro ⟨k, hk, hstop, hr⟩
          refine ⟨k + 1, Nat.succ_lt_succ hk, (stopsAt_succ hne k).2 ⟨hzero, hstop⟩, ?_⟩
          rw [hr, behindPoll_advance hne, turn_advance hne]
        · rintro ⟨k, hk, hstop, hr⟩
          cases k with
          | zero => exact absurd ((stopsAt_zero hsvr).1 hstop) hav
          | succ k =>
              refine ⟨k, Nat.lt_of_succ_lt_succ hk, ((stopsAt_succ hne k).1 hstop).2, ?_⟩
              rw [hr, behindPoll_advance hne, turn_advance hne]

/-! ## What `Select` returns -/

/-- The web server that `Select` picks from a list that is not empty: no web
server under `kWeight`, where it waits for its own mutex, and the first one
wherever a rule gives none. -/
def Picks (env : Surroundings) (ip : Bytes) (lb : LoadBalancer) (i : Nat) : Prop :=
  match lb.balanceRule with
  | .kPoll =>
      ∃ k, StopsAt env.clock lb k ∧ i = turn lb.webServers.length lb.lastSelected k
  | .kWeight => False
  | .kIpHash => i = ((env.inetPton ip).map (· % lb.webServers.length)).getD front
  | .kUnknown => i = front

theorem balanceByIpHash_snd {inetPton : Bytes → Option Nat} {ip : Bytes} {lb : LoadBalancer}
    (hne : lb.webServers ≠ []) :
    (balanceByIpHash inetPton ip lb).2 = (inetPton ip).map (· % lb.webServers.length) := by
  unfold balanceByIpHash
  cases inetPton ip with
  | none => rfl
  | some addr =>
      have hlt : addr % lb.webServers.length < lb.webServers.length :=
        Nat.mod_lt _ (List.length_pos_of_ne_nil hne)
      have hget : (lb.selectAt (addr % lb.webServers.length) fun _ => hlt).webServers[
          addr % lb.webServers.length]? = some lb.webServers[addr % lb.webServers.length] :=
        List.getElem?_eq_getElem hlt
      simp only [hget]
      rfl

theorem balanceByIpHash_webServers (inetPton : Bytes → Option Nat) (ip : Bytes)
    (lb : LoadBalancer) : (balanceByIpHash inetPton ip lb).1.webServers = lb.webServers := by
  unfold balanceByIpHash
  cases inetPton ip with
  | none => rfl
  | some addr =>
      simp only
      split <;> rfl

/-- What a call of `Select` that returns has done, rule by rule; under
`kWeight` there is none, as the mutex is held. -/
theorem select_cases {env : Surroundings} {fuel : Nat} {ip : Bytes} {lb lb' : LoadBalancer}
    {r : Option Nat} (hne : lb.webServers ≠ []) (h : select env fuel ip lb = some (lb', r)) :
    (lb.balanceRule = .kPoll ∧ ∃ k, StopsAt env.clock lb k ∧ lb' = lb.behindPoll k ∧
        r = some (turn lb.webServers.length lb.lastSelected k)) ∨
      (lb.balanceRule = .kIpHash ∧ lb' = (balanceByIpHash env.inetPton ip lb).1 ∧
        r = some ((balanceByIpHash env.inetPton ip lb).2.getD front)) ∨
      (lb.balanceRule = .kUnknown ∧ lb' = lb ∧ r = some front) := by
  unfold select at h
  simp only [Mutex.lockGuard, if_neg hne] at h
  cases hrule : lb.balanceRule with
  | kPoll =>
      simp only [hrule] at h
      obtain ⟨q, hq, hpair⟩ := Option.map_eq_some_iff.1 h
      obtain ⟨k, -, hstop, rfl⟩ := (balanceByPoll_eq_some_iff hne q).1 hq
      cases hpair
      exact Or.inl ⟨rfl, k, hstop, rfl, rfl⟩
  | kWeight => simp [hrule, balanceByWeight, Mutex.lockGuard] at h
  | kIpHash =>
      simp only [hrule] at h
      cases h
      exact Or.inr (Or.inl ⟨rfl, rfl, rfl⟩)
  | kUnknown =>
      simp only [hrule] at h
      cases h
      exact Or.inr (Or.inr ⟨rfl, rfl, rfl⟩)

/-- A list that is not empty gives a web server or no return at all. -/
theorem select_ne_null {env : Surroundings} {fuel : Nat} {ip : Bytes} {lb lb' : LoadBalancer}
    {r : Option Nat} (hne : lb.webServers ≠ []) (h : select env fuel ip lb = some (lb', r)) :
    ∃ i, r = some i := by
  rcases select_cases hne h with ⟨-, k, -, -, hr⟩ | ⟨-, -, hr⟩ | ⟨-, -, hr⟩
  · exact ⟨_, hr⟩
  · exact ⟨_, hr⟩
  · exact ⟨_, hr⟩

/-- **`Select`** returns the web server that its rule picks, and returns at
all if the rule picks one. -/
theorem exists_select_iff {env : Surroundings} {ip : Bytes} {lb : LoadBalancer} {i : Nat}
    (hne : lb.webServers ≠ []) :
    (∃ fuel lb', select env fuel ip lb = some (lb', some i)) ↔ Picks env ip lb i := by
  unfold select Picks
  simp only [Mutex.lockGuard, if_neg hne]
  cases hrule : lb.balanceRule with
  | kPoll =>
      constructor
      · rintro ⟨fuel, lb', h⟩
        obtain ⟨r, hr, hpair⟩ := Option.map_eq_some_iff.1 h
        obtain ⟨k, -, hstop, rfl⟩ := (balanceByPoll_eq_some_iff hne r).1 hr
        cases hpair
        exact ⟨k, hstop, rfl⟩
      · rintro ⟨k, hstop, rfl⟩
        have hpoll := (balanceByPoll_eq_some_iff hne _).2 ⟨k, Nat.lt_succ_self k, hstop, rfl⟩
        exact ⟨k + 1, lb.behindPoll k, by rw [hpoll]; rfl⟩
  | kWeight =>
      -- the mutex is held
      simp [balanceByWeight, Mutex.lockGuard]
  | kIpHash =>
      simp only [balanceByIpHash_snd hne, Option.some.injEq, Prod.mk.injEq]
      constructor
      · rintro ⟨-, -, -, hi⟩
        exact hi.symm
      · intro hi
        exact ⟨0, _, rfl, hi.symm⟩
  | kUnknown =>
      constructor
      · rintro ⟨fuel, lb', h⟩
        cases h
        rfl
      · intro hi
        cases hi
        exact ⟨0, lb, rfl⟩

theorem Picks.lt {env : Surroundings} {ip : Bytes} {lb : LoadBalancer} {i : Nat}
    (h : Picks env ip lb i) (hne : lb.webServers ≠ []) : i < lb.webServers.length := by
  have hpos := List.length_pos_of_ne_nil hne
  unfold Picks at h
  split at h
  · obtain ⟨k, -, hi⟩ := h
    rw [hi]
    exact turn_lt hpos _ _
  · exact h.elim
  · rw [h]
    cases env.inetPton ip with
    | none => exact hpos
    | some addr => exact Nat.mod_lt _ hpos
  · rw [h]
    exact hpos

/-- A rule picks one web server. -/
theorem Picks.unique {env : Surroundings} {ip : Bytes} {lb : LoadBalancer} {i j : Nat}
    (hi : Picks env ip lb i) (hj : Picks env ip lb j) : i = j := by
  unfold Picks at hi hj
  cases hrule : lb.balanceRule with
  | kPoll =>
      simp only [hrule] at hi hj
      obtain ⟨k, hk, rfl⟩ := hi
      obtain ⟨l, hl, rfl⟩ := hj
      rw [hk.unique hl]
  | kWeight =>
      simp only [hrule] at hi
  | kIpHash =>
      simp only [hrule] at hi hj
      rw [hi, hj]
  | kUnknown =>
      simp only [hrule] at hi hj
      rw [hi, hj]

/-- `Select` leaves the web servers in their places. -/
theorem select_profiles {env : Surroundings} {fuel : Nat} {ip : Bytes} {lb lb' : LoadBalancer}
    {r : Option Nat} (hne : lb.webServers ≠ []) (h : select env fuel ip lb = some (lb', r))
    (i : Nat) :
    lb'.webServers[i]?.map (·.toWebServerProfile) =
      lb.webServers[i]?.map (·.toWebServerProfile) := by
  rcases select_cases hne h with ⟨-, k, -, rfl, -⟩ | ⟨-, rfl, -⟩ | ⟨-, rfl, -⟩
  · show (lb.webServers.modify _ tried)[i]?.map _ = _
    rw [List.getElem?_modify]
    cases lb.webServers[i]? with
    | none => rfl
    | some svr =>
        simp only [Option.map_some, Option.map_eq_map]
        split <;> rfl
  · rw [balanceByIpHash_webServers]
  · rfl

/-- Two web servers in rotation. -/
def twoServers : LoadBalancer :=
  let svr (ip : String) : RegisteredServer :=
    { ip := lit ip, port := 80, weight := 1, lastDownTs := 0, lastHeartbeatTs := 0,
      isDown := false, isOverload := false, backlog := 0 }
  { balanceRule := .kPoll, webServers := [svr "10.0.1.1", svr "10.0.1.2"], lastSelected := 0,
    currWeight := 0, selected_lt := fun _ => by decide }

end LoadBalancer

end Unixtar.ReverseProxy
