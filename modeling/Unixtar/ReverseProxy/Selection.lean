import Unixtar.ReverseProxy.LoadBalancer

/-!
# When `Select` returns, and whom `kIpHash` selects

Under `kWeight` the call waits for the mutex it holds, and under `kPoll` it
goes round until a web server is available.  `kIpHash` always returns, but the
address alone decides the place: `__IsWebServerAvailable` is not asked.

## Main results

* `returns_iff` — when `Select` returns a registered web server.
* `respectsAvailability_iff` — when `kIpHash` returns one that is in service.
-/

namespace Unixtar.ReverseProxy

open Unixtar.Lib.RoundRobin
open LoadBalancer

/-! ## Every call returns -/

/-- `Select` returns, and what it returns is registered. -/
def Returns (env : Surroundings) (ip : Bytes) (lb : LoadBalancer) : Prop :=
  ∃ fuel lb' i, select env fuel ip lb = some (lb', some i) ∧ i < lb.webServers.length

/-- The poll finds a web server: at some turn the one there is available by
the clock of that turn. -/
def SomeAvailable (clock : Nat → Nat) (lb : LoadBalancer) : Prop :=
  ∃ k, ∃ svr ∈ lb.serverAt k, Available (clock k) svr

theorem returns_iff_picks {env : Surroundings} {ip : Bytes} {lb : LoadBalancer}
    (hne : lb.webServers ≠ []) : Returns env ip lb ↔ ∃ i, Picks env ip lb i := by
  constructor
  · rintro ⟨fuel, lb', i, hselect, -⟩
    exact ⟨i, (exists_select_iff hne).1 ⟨fuel, lb', hselect⟩⟩
  · rintro ⟨i, hpicks⟩
    obtain ⟨fuel, lb', hselect⟩ := (exists_select_iff hne).2 hpicks
    exact ⟨fuel, lb', i, hselect, hpicks.lt hne⟩

/-- **`Select` returns** a registered web server exactly when the rule is not
`kWeight` and, under `kPoll`, one becomes available. -/
theorem returns_iff (env : Surroundings) (ip : Bytes) (lb : LoadBalancer)
    (hne : lb.webServers ≠ []) :
    Returns env ip lb ↔
      lb.balanceRule ≠ .kWeight ∧ (lb.balanceRule = .kPoll → SomeAvailable env.clock lb) := by
  rw [returns_iff_picks hne]
  unfold Picks
  cases hrule : lb.balanceRule with
  | kPoll =>
      constructor
      · rintro ⟨i, k, hstop, -⟩
        exact ⟨by decide, fun _ => ⟨k, hstop.available⟩⟩
      · rintro ⟨-, hsome⟩
        obtain ⟨k, svr, hsvr, hav⟩ := hsome rfl
        obtain ⟨m, -, hstop⟩ := exists_stopsAt hsvr hav
        exact ⟨_, m, hstop, rfl⟩
  | kWeight => simp
  | kIpHash =>
      refine iff_of_true ⟨_, rfl⟩ ⟨by decide, fun h => ?_⟩
      cases h
  | kUnknown =>
      refine iff_of_true ⟨_, rfl⟩ ⟨by decide, fun h => ?_⟩
      cases h

/-- A web server as `RegisterWebServer` gets it. -/
def newServer (weight : Nat) : RegisteredServer :=
  WebServerProfile.registered ⟨lit "10.0.1.1", 80⟩ weight

/-- A load balancer with one web server. -/
def oneServer (rule : TBalanceRule) (weight : Nat) : LoadBalancer :=
  { balanceRule := rule, webServers := [newServer weight], lastSelected := 0, currWeight := 0,
    selected_lt := fun _ => Nat.zero_lt_one }

/-- `inet_pton(AF_INET, …)` on a little-endian host: four numbers up to 255,
without leading zeros; the first one is the least significant byte. -/
def inetPton (ip : Bytes) : Option Nat :=
  let octet (text : Bytes) : Option Nat :=
    if text ≠ [] ∧ text.all Str.isDigit ∧ (text.head? = some 48 → text = [48]) ∧
      Str.digitsValue text ≤ 255 then some (Str.digitsValue text) else none
  match (Str.cstr ip).splitOn 46 with
  | [a, b, c, d] => do
      let a ← octet a
      let b ← octet b
      let c ← octet c
      let d ← octet d
      some (a + 256 * b + 65536 * c + 16777216 * d)
  | _ => none

/-- An environment whose clock stands at 5000. -/
def quietSurroundings : Surroundings :=
  { clock := fun _ => 5000, random := 7, inetPton }

theorem returns_oneServer_poll : Returns quietSurroundings (lit "10.0.0.9") (oneServer .kPoll 1) :=
  (returns_iff _ _ _ (by decide)).2
    ⟨by decide, fun _ => ⟨0, newServer 1, rfl, by decide, by decide⟩⟩

/-- A healthy web server is not selected by its weight, and one of weight 0
keeps the poll for ever. -/
theorem not_returns_oneServer :
    some (oneServer .kWeight 1) =
        (registerWebServer (newServer 1) LoadBalancer.init).bind (configRule .kWeight) ∧
      ¬ Returns quietSurroundings (lit "10.0.0.9") (oneServer .kWeight 1) ∧
      ¬ Returns quietSurroundings (lit "10.0.0.9") (oneServer .kPoll 0) := by
  have hservers : ∀ rule weight, (oneServer rule weight).webServers ≠ [] := fun _ _ =>
    List.cons_ne_nil _ _
  refine ⟨rfl, ?_, ?_⟩
  · rw [returns_iff_picks (hservers _ _)]
    rintro ⟨i, hpicks⟩
    exact hpicks
  · rw [returns_iff_picks (hservers _ _)]
    rintro ⟨i, k, hstop, -⟩
    obtain ⟨svr, hsvr, hweight, -⟩ := hstop.available
    have hmem : svr ∈ (oneServer .kPoll 0).webServers := List.mem_of_getElem? hsvr
    have hzero : svr.weight = 0 := by
      rw [List.mem_singleton.1 hmem]
      rfl
    omega

/-! ## The place of an address -/

/-- A web server in service. -/
def InService (svr : RegisteredServer) : Prop := 0 < svr.weight ∧ svr.isDown = false

instance (svr : RegisteredServer) : Decidable (InService svr) :=
  inferInstanceAs (Decidable (_ ∧ _))

/-- The weights and the down flags, in the order of registration. -/
def duties (lb : LoadBalancer) : List (Nat × Bool) :=
  lb.webServers.map fun svr => (svr.weight, svr.isDown)

/-- `Select` gives the address the web server `i`, which is in service, and
gives it that one again whenever the weights and the down flags are the
same. -/
structure RespectsAvailability (env : Surroundings) (ip : Bytes) (lb : LoadBalancer) (i : Nat) :
    Prop where
  selected : ∃ fuel lb', select env fuel ip lb = some (lb', some i)
  inService : ∃ svr ∈ lb.webServers[i]?, InService svr
  sticky : ∀ (env' : Surroundings) (lb' : LoadBalancer), env'.inetPton = env.inetPton →
    lb'.balanceRule = .kIpHash → duties lb' = duties lb →
      ∃ fuel lb'', select env' fuel ip lb' = some (lb'', some i)

/-- The address decides the place. -/
theorem exists_select_ipHash_iff {env : Surroundings} {ip : Bytes} {lb : LoadBalancer} {addr : Nat}
    (hne : lb.webServers ≠ []) (hrule : lb.balanceRule = .kIpHash)
    (haddr : env.inetPton ip = some addr) (i : Nat) :
    (∃ fuel lb', select env fuel ip lb = some (lb', some i)) ↔ i = addr % lb.webServers.length := by
  rw [exists_select_iff hne]
  simp only [Picks, hrule, haddr, Option.map_some, Option.getD_some]

theorem length_of_duties_eq {lb lb' : LoadBalancer} (h : duties lb' = duties lb) :
    lb'.webServers.length = lb.webServers.length := by
  have hlen := congrArg List.length h
  unfold duties at hlen
  rw [List.length_map, List.length_map] at hlen
  exact hlen

theorem ne_nil_of_inService {lb : LoadBalancer} (h : ∃ svr ∈ lb.webServers, InService svr) :
    lb.webServers ≠ [] := by
  obtain ⟨svr, hsvr, -⟩ := h
  exact List.ne_nil_of_mem hsvr

/-- **`kIpHash` respects availability** exactly when the web server at the
place of the address is in service. -/
theorem respectsAvailability_iff (env : Surroundings) (ip : Bytes) (lb : LoadBalancer) (addr : Nat)
    (hrule : lb.balanceRule = .kIpHash) (haddr : env.inetPton ip = some addr)
    (hsome : ∃ svr ∈ lb.webServers, InService svr) :
    (∃ i, RespectsAvailability env ip lb i) ↔
      ∃ svr ∈ lb.webServers[addr % lb.webServers.length]?, InService svr := by
  have hne := ne_nil_of_inService hsome
  constructor
  · rintro ⟨i, h⟩
    have hi := (exists_select_ipHash_iff hne hrule haddr i).1 h.selected
    rw [← hi]
    exact h.inService
  · intro h
    refine ⟨_, (exists_select_ipHash_iff hne hrule haddr _).2 rfl, h, ?_⟩
    intro env' lb' hinet hrule' hduties
    have hlen := length_of_duties_eq hduties
    have hne' : lb'.webServers ≠ [] := by
      apply List.ne_nil_of_length_pos
      rw [hlen]
      exact List.length_pos_of_ne_nil hne
    rw [exists_select_ipHash_iff hne' hrule' (by rw [hinet]; exact haddr), hlen]

/-- A web server without weight beside one in service. -/
def hashedServers : LoadBalancer :=
  { balanceRule := .kIpHash, webServers := [newServer 0, newServer 1], lastSelected := 0,
    currWeight := 0, selected_lt := fun _ => Nat.zero_lt_two }

theorem respectsAvailability_odd :
    ∃ i, RespectsAvailability quietSurroundings (lit "9.0.0.10") hashedServers i :=
  (respectsAvailability_iff quietSurroundings (lit "9.0.0.10") hashedServers 167772169 rfl
    (by decide +kernel) ⟨newServer 1, by simp [hashedServers], by decide⟩).2
    ⟨newServer 1, rfl, by decide⟩

/-- An even address goes to the web server without weight. -/
theorem not_respectsAvailability_even :
    (∃ svr ∈ hashedServers.webServers, InService svr) ∧
      quietSurroundings.inetPton (lit "10.0.0.9") = some 150994954 ∧
      ¬ ∃ i, RespectsAvailability quietSurroundings (lit "10.0.0.9") hashedServers i := by
  have haddr : quietSurroundings.inetPton (lit "10.0.0.9") = some 150994954 := by decide +kernel
  refine ⟨⟨newServer 1, by simp [hashedServers], by decide⟩, haddr, ?_⟩
  rintro ⟨i, h⟩
  have hi := (exists_select_ipHash_iff (List.cons_ne_nil _ _) rfl haddr i).1 h.selected
  obtain ⟨svr, hsvr, hservice⟩ := h.inService
  have hzero : hashedServers.webServers[i]? = some (newServer 0) := by
    rw [hi]
    rfl
  rw [hzero, Option.mem_some_iff] at hsvr
  rw [← hsvr] at hservice
  exact absurd hservice (by decide)

end Unixtar.ReverseProxy
