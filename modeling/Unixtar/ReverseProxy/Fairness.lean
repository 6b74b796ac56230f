import Unixtar.ReverseProxy.LoadBalancer

/-!
# Fair polling

Consecutive calls of `Select` under `kPoll` while no web server is down.  The
poll skips web servers of weight 0 only, so each call moves `last_selected_`
to the next place that takes turns, and the results run through these places
in a cycle.

## Main results

* `select_poll` — one call returns the next web server with a weight.
* `selects_eq` — any number of calls returns a cycle of them.
* `polling_fair`
-/

namespace Unixtar.ReverseProxy

open Unixtar.Lib.RoundRobin
open LoadBalancer

/-- A call of `Select`: what it finds outside, and the client's address. -/
structure SelectCall where
  env : Surroundings
  ip : Bytes

/-- Calls of `Select` one after the other, and what they return; `none` means
that one of them has not returned. -/
def selects (fuel : Nat) :
    LoadBalancer → List SelectCall → Option (LoadBalancer × List (Option Nat))
  | lb, [] => some (lb, [])
  | lb, call :: calls =>
      match select call.env fuel call.ip lb with
      | none => none
      | some (lb', r) => (selects fuel lb' calls).map fun rest => (rest.1, r :: rest.2)

namespace LoadBalancer

/-- The web server at the place has a weight. -/
def weighs (lb : LoadBalancer) (i : Nat) : Bool :=
  lb.webServers[i]?.any fun svr => 0 < svr.weight

/-- The places of the web servers with a weight, in the order of
registration. -/
def weighted (lb : LoadBalancer) : List Nat := taking lb.weighs lb.webServers.length

theorem weighs_eq_true_iff {lb : LoadBalancer} {i : Nat} :
    lb.weighs i = true ↔ ∃ svr ∈ lb.webServers[i]?, 0 < svr.weight := by
  unfold weighs
  rw [Option.any_eq_true]
  constructor
  · rintro ⟨svr, hsvr, hweight⟩
    exact ⟨svr, hsvr, of_decide_eq_true hweight⟩
  · rintro ⟨svr, hsvr, hweight⟩
    exact ⟨svr, hsvr, decide_eq_true hweight⟩

/-- The places of positive weight are all listed. -/
theorem mem_weighted_iff {lb : LoadBalancer} {i : Nat} :
    i ∈ lb.weighted ↔ ∃ svr ∈ lb.webServers[i]?, 0 < svr.weight := by
  unfold weighted
  rw [mem_taking, weighs_eq_true_iff]
  constructor
  · intro h
    exact h.2
  · rintro ⟨svr, hsvr, hweight⟩
    obtain ⟨hi, -⟩ := List.getElem?_eq_some_iff.1 hsvr
    exact ⟨hi, svr, hsvr, hweight⟩

end LoadBalancer

/-- No web server is down, and one of them has a weight. -/
structure AllUp (lb : LoadBalancer) : Prop where
  rule : lb.balanceRule = .kPoll
  up : ∀ svr ∈ lb.webServers, svr.isDown = false
  someWeight : ∃ svr ∈ lb.webServers, 0 < svr.weight

section

variable {lb : LoadBalancer}

theorem AllUp.ne_nil (h : AllUp lb) : lb.webServers ≠ [] := by
  obtain ⟨svr, hsvr, -⟩ := h.someWeight
  exact List.ne_nil_of_mem hsvr

/-- Without a web server that is down the clock does not matter. -/
theorem AllUp.available_iff (h : AllUp lb) (now k : Nat) :
    (∃ svr ∈ lb.serverAt k, Available now svr) ↔
      lb.weighs (turn lb.webServers.length lb.lastSelected k) = true := by
  rw [weighs_eq_true_iff]
  constructor
  · rintro ⟨svr, hsvr, hav⟩
    exact ⟨svr, hsvr, hav.1⟩
  · rintro ⟨svr, hsvr, hweight⟩
    refine ⟨svr, hsvr, hweight, ?_⟩
    intro hdown
    rw [h.up svr (List.mem_of_getElem? hsvr)] at hdown
    cases hdown

/-- The poll stops within one round. -/
theorem AllUp.exists_stopsAt (h : AllUp lb) (clock : Nat → Nat) :
    ∃ k, k < lb.webServers.length ∧ StopsAt clock lb k := by
  obtain ⟨svr, hsvr, hweight⟩ := h.someWeight
  obtain ⟨i, hi, hget⟩ := List.mem_iff_getElem.1 hsvr
  obtain ⟨k, hk, hturn⟩ := exists_turn (lb.selected_lt h.ne_nil) hi
  have hplace : lb.weighs (turn lb.webServers.length lb.lastSelected k) = true := by
    rw [weighs_eq_true_iff, hturn]
    exact ⟨svr, by rw [List.getElem?_eq_getElem hi, hget]; rfl, hweight⟩
  obtain ⟨svr', hsvr', hav⟩ := (h.available_iff (clock k) k).2 hplace
  obtain ⟨m, hm, hstop⟩ := LoadBalancer.exists_stopsAt hsvr' hav
  exact ⟨m, by omega, hstop⟩

/-- A poll of web servers that are up changes none of them. -/
theorem AllUp.behindPoll_webServers (h : AllUp lb) (k : Nat) :
    (lb.behindPoll k).webServers = lb.webServers := by
  show lb.webServers.modify (turn lb.webServers.length lb.lastSelected k) tried = lb.webServers
  apply List.ext_getElem?
  intro j
  rw [List.getElem?_modify]
  cases hsvr : lb.webServers[j]? with
  | none => rfl
  | some svr =>
      have htried : tried svr = svr := by
        unfold tried
        rw [← h.up svr (List.mem_of_getElem? hsvr)]
      split
      · exact congrArg some htried
      · rfl

/-- **One call** returns the next web server with a weight and moves the
cursor there. -/
theorem select_poll (h : AllUp lb) (call : SelectCall) :
    ∃ lb' i, (∀ fuel, lb.webServers.length ≤ fuel →
        select call.env fuel call.ip lb = some (lb', some i)) ∧
      lb.weighted[rank lb.weighs lb.lastSelected % lb.weighted.length]? = some i ∧
      lb'.webServers = lb.webServers ∧ lb'.balanceRule = lb.balanceRule ∧ lb'.lastSelected = i := by
  have hne := h.ne_nil
  obtain ⟨k, hk, hstop⟩ := h.exists_stopsAt call.env.clock
  refine ⟨lb.behindPoll k, turn lb.webServers.length lb.lastSelected k, ?_, ?_,
    h.behindPoll_webServers k, rfl, rfl⟩
  · intro fuel hfuel
    have hpoll := (balanceByPoll_eq_some_iff hne _).2 ⟨k, Nat.lt_of_lt_of_le hk hfuel, hstop, rfl⟩
    unfold select
    simp only [Mutex.lockGuard, if_neg hne, h.rule, hpoll, Option.map_some]
  · apply getElem?_taking_of_first (lb.selected_lt hne) hk
    · exact (h.available_iff _ k).1 hstop.available
    · intro j hj
      by_contra hweighs
      obtain ⟨svr, hsvr, hav⟩ :=
        (h.available_iff (call.env.clock j) j).2 (Bool.eq_true_of_not_eq_false hweighs)
      exact hstop.comes j hj svr hsvr hav

/-- **Any number of calls** returns a cycle of the web servers with a
weight. -/
theorem selects_eq (h : AllUp lb) (calls : List SelectCall) :
    ∃ lb', ∀ fuel, lb.webServers.length ≤ fuel →
      selects fuel lb calls =
        some (lb', cycle lb.weighted (rank lb.weighs lb.lastSelected) calls.length) := by
  induction calls generalizing lb with
  | nil => exact ⟨lb, fun fuel _ => rfl⟩
  | cons call calls ih =>
      obtain ⟨lb₁, i, hselect, hplace, hservers, hrule, hlast⟩ := select_poll h call
      have hup : AllUp lb₁ := by
        refine ⟨hrule.trans h.rule, ?_, ?_⟩
        · rw [hservers]
          exact h.up
        · rw [hservers]
          exact h.someWeight
      have hweighs : lb₁.weighs = lb.weighs := by
        unfold weighs
        rw [hservers]
      have hweighted : lb₁.weighted = lb.weighted := by
        unfold weighted
        rw [hweighs, hservers]
      have hrank := rank_of_getElem? hplace
      obtain ⟨lb', hrest⟩ := ih hup
      refine ⟨lb', ?_⟩
      intro fuel hfuel
      rw [hservers] at hrest
      unfold selects
      simp only [hselect fuel hfuel, hrest fuel hfuel, Option.map_some]
      rw [hweighted, hweighs, hlast, hrank, List.length_cons, cycle_succ, hplace]

/-! ## Main theorem -/

/-- The results run through the web servers with a weight in the order of
registration; as many results in a row as there are such web servers have each
of them once, and no other web server is returned. -/
structure Fair (lb : LoadBalancer) (results : List (Option Nat)) : Prop where
  cycles : ∃ start, results = cycle lb.weighted start results.length
  once : ∀ a, a + lb.weighted.length ≤ results.length → ∀ i ∈ lb.weighted,
    ((results.drop a).take lb.weighted.length).count (some i) = 1
  positive : ∀ r ∈ results, ∃ i, r = some i ∧ ∃ svr ∈ lb.webServers[i]?, 0 < svr.weight

theorem fair_cycle (hpos : 0 < lb.weighted.length) (start len : Nat) :
    Fair lb (cycle lb.weighted start len) where
  cycles := ⟨start, by rw [length_cycle]⟩
  once a ha i hi := by
    rw [length_cycle] at ha
    exact count_window (nodup_taking _ _) ha hi
  positive r hr := by
    obtain ⟨j, -, rfl⟩ := List.mem_map.1 hr
    have hlt : (start + j) % lb.weighted.length < lb.weighted.length := Nat.mod_lt _ hpos
    refine ⟨_, List.getElem?_eq_getElem hlt, ?_⟩
    exact mem_weighted_iff.1 (List.getElem_mem hlt)

/-- **Polling is fair**, from every place of `last_selected_` and for every
number of calls. -/
theorem polling_fair (lb : LoadBalancer) (calls : List SelectCall)
    (hrule : lb.balanceRule = .kPoll) (hup : ∀ svr ∈ lb.webServers, svr.isDown = false)
    (hweight : ∃ svr ∈ lb.webServers, 0 < svr.weight) :
    ∃ lb' results, results.length = calls.length ∧
      (∀ fuel, lb.webServers.length ≤ fuel → selects fuel lb calls = some (lb', results)) ∧
      Fair lb results := by
  have h : AllUp lb := ⟨hrule, hup, hweight⟩
  obtain ⟨lb', hselects⟩ := selects_eq h calls
  obtain ⟨svr, hsvr, hpos⟩ := hweight
  obtain ⟨i, hi⟩ := List.mem_iff_getElem?.1 hsvr
  have hmem : i ∈ lb.weighted := mem_weighted_iff.2 ⟨svr, hi, hpos⟩
  exact ⟨lb', _, length_cycle _ _ _, hselects, fair_cycle (List.length_pos_of_mem hmem) _ _⟩

theorem polling_fair_twoServers :
    ∃ lb' results, results.length = 3 ∧
      (∀ fuel, 2 ≤ fuel → selects fuel twoServers
        (List.replicate 3 ⟨⟨fun _ => 5000, 7, fun _ => none⟩, []⟩) = some (lb', results)) ∧
      Fair twoServers results :=
  polling_fair twoServers (List.replicate 3 ⟨⟨fun _ => 5000, 7, fun _ => none⟩, []⟩) rfl
    (by decide) ⟨_, List.mem_cons_self, by decide⟩

end

end Unixtar.ReverseProxy
