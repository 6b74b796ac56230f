import Mathlib.Data.Set.Card
import Unixtar.Lib.Run
import Unixtar.ReverseProxy.LoadBalancer

/-!
# Selection by weight

`__BalanceByWeight` builds a list of shares with a zero in front of it and
looks for the first entry above a random number.  The entry at place `i` is
the share of web server `i - 1`, and the shares are not added up: the
conditional expression takes the sum as its condition only.  The place is
used for the web server as it is, so that the first web server with a share,
behind as many zeros as there are places up to it, is never returned.

## Main results

* `regular_of_run` — the overload flag is about the backlog, in every run.
* `not_selects_first` — no random number selects the first web server
  with a share.
* `not_proportional`
-/

namespace Unixtar.ReverseProxy

open Unixtar.Lib
open LoadBalancer

/-! ## Runs -/

/-- The calls of the load balancer's public functions. -/
inductive BalancerCall
  | registerWebServer (profile : WebServerProfile) (weight : Nat)
  | configRule (rule : TBalanceRule)
  | select (env : Surroundings) (fuel : Nat) (ip : Bytes)
  | reportWebServerDown (now i : Nat)
  | onRecvHeartbeat (now i backlog : Nat)

/-- One call; a failed assertion and a call that does not return have no
successor. -/
def balancerStep (lb : LoadBalancer) : BalancerCall → Option LoadBalancer
  | .registerWebServer profile weight => registerWebServer (profile.registered weight) lb
  | .configRule rule => configRule rule lb
  | .select env fuel ip => (select env fuel ip lb).map (·.1)
  | .reportWebServerDown now i => some (reportWebServerDown now i lb)
  | .onRecvHeartbeat now i backlog => some (onRecvHeartbeat now i backlog lb)

/-- The weight is in its range, and the overload flag is about the backlog. -/
structure Regular (svr : RegisteredServer) : Prop where
  weight : svr.weight ≤ kMaxWeight
  isOverload : svr.isOverload = decide (svr.backlog > kOverloadBacklog)

/-- All web servers are regular. -/
def AllRegular (lb : LoadBalancer) : Prop := ∀ svr ∈ lb.webServers, Regular svr

theorem allRegular_modify {lb : LoadBalancer} {i : Nat} {f : RegisteredServer → RegisteredServer}
    (h : AllRegular lb) (hf : ∀ svr, Regular svr → Regular (f svr)) :
    AllRegular (lb.modify i f) := by
  intro svr hsvr
  obtain ⟨j, hj⟩ := List.mem_iff_getElem?.1 hsvr
  by_cases hij : i = j
  · rw [← hij, modify_webServers_self] at hj
    obtain ⟨old, hold, rfl⟩ := Option.map_eq_some_iff.1 hj
    exact hf old (h old (List.mem_of_getElem? hold))
  · rw [modify_webServers_ne hij] at hj
    exact h svr (List.mem_of_getElem? hj)

theorem regular_tried {svr : RegisteredServer} (h : Regular svr) : Regular (tried svr) :=
  ⟨h.weight, h.isOverload⟩

theorem allRegular_balanceByIpHash {lb : LoadBalancer} (h : AllRegular lb)
    (inetPton : Bytes → Option Nat) (ip : Bytes) :
    AllRegular (balanceByIpHash inetPton ip lb).1 := by
  unfold balanceByIpHash
  split
  · exact h
  · simp only
    split
    · exact h
    · exact h

/-- `Select` changes at most a down flag. -/
theorem allRegular_select {env : Surroundings} {fuel : Nat} {ip : Bytes} {lb lb' : LoadBalancer}
    {r : Option Nat} (h : AllRegular lb) (hselect : select env fuel ip lb = some (lb', r)) :
    AllRegular lb' := by
  by_cases hne : lb.webServers = []
  · unfold select at hselect
    simp only [Mutex.lockGuard, if_pos hne] at hselect
    cases hselect
    exact h
  · rcases select_cases hne hselect with ⟨-, k, -, rfl, -⟩ | ⟨-, rfl, -⟩ | ⟨-, rfl, -⟩
    · exact allRegular_modify h fun svr => regular_tried
    · exact allRegular_balanceByIpHash h _ _
    · exact h

theorem allRegular_step {lb lb' : LoadBalancer} {call : BalancerCall} (h : AllRegular lb)
    (hstep : balancerStep lb call = some lb') : AllRegular lb' := by
  cases call with
  | registerWebServer profile weight =>
      simp only [balancerStep, registerWebServer] at hstep
      split at hstep
      · cases hstep
      · rename_i hweight
        cases hstep
        intro svr hsvr
        rcases List.mem_append.1 hsvr with hsvr | hsvr
        · exact h svr hsvr
        · rw [List.mem_singleton.1 hsvr]
          exact ⟨Nat.le_of_not_lt hweight, rfl⟩
  | configRule rule =>
      simp only [balancerStep, configRule] at hstep
      split at hstep
      · cases hstep
      · cases hstep
        exact h
  | select env fuel ip =>
      obtain ⟨r, hr, rfl⟩ := Option.map_eq_some_iff.1 hstep
      exact allRegular_select h hr
  | reportWebServerDown now i =>
      cases hstep
      exact allRegular_modify h fun svr hsvr => ⟨hsvr.weight, hsvr.isOverload⟩
  | onRecvHeartbeat now i backlog =>
      cases hstep
      exact allRegular_modify h fun svr hsvr => ⟨hsvr.weight, rfl⟩

/-- **In every run** the weights are in their range and the overload flags are
about the backlogs. -/
theorem regular_of_run {lb : LoadBalancer} {calls : List BalancerCall}
    (hrun : run balancerStep LoadBalancer.init calls = some lb) : AllRegular lb :=
  trace_invariant_of_forall (fun _ _ _ h hstep => allRegular_step h hstep)
    (fun _ hsvr => absurd hsvr List.not_mem_nil) lb (run_mem_trace hrun)

/-! ## Shares -/

/-- The share of a web server: what its weight leaves above its backlog, and
nothing while it is down or overloaded. -/
def share (svr : RegisteredServer) : Nat :=
  if svr.isDown || svr.isOverload then 0
  else svr.weight * (kOverloadBacklog / kMaxWeight) - svr.backlog

def totalShare (lb : LoadBalancer) : Nat := (lb.webServers.map share).sum

/-- `random` makes `__BalanceByWeight`, its lock aside, return web server
`i`. -/
def Selects (random : Nat) (lb : LoadBalancer) (i : Nat) : Prop :=
  (balanceByWeight .free random lb).map (·.2) = some i

instance (random : Nat) (lb : LoadBalancer) (i : Nat) : Decidable (Selects random lb i) :=
  inferInstanceAs (Decidable (_ = _))

/-- The residues modulo the sum of the shares that make it return web server
`i`: every value of `random()` with such a residue does. -/
def residues (lb : LoadBalancer) (i : Nat) : Set Nat :=
  {r | r < totalShare lb ∧ ∀ random, random % totalShare lb = r → Selects random lb i}

/-- Each web server is selected by as many residues as its share. -/
def Proportional (lb : LoadBalancer) : Prop :=
  ∀ i, ∀ svr ∈ lb.webServers[i]?, (residues lb i).ncard = share svr

theorem residues_eq_empty {lb : LoadBalancer} {i : Nat}
    (h : ∀ r, r < totalShare lb → ¬ Selects r lb i) : residues lb i = ∅ := by
  apply Set.eq_empty_of_forall_notMem
  rintro r ⟨hr, hselects⟩
  exact h r hr (hselects r (Nat.mod_eq_of_lt hr))

/-! ## The selector -/

section Selector

variable {svr : RegisteredServer}

/-- The cast of the backlog is exact where it is made. -/
theorem toInt_backlog (h : Regular svr) (hup : (svr.isOverload || svr.isDown) = false) :
    (BitVec.ofNat 32 svr.backlog).toInt = svr.backlog ∧ svr.backlog ≤ 4096 := by
  have hover : svr.isOverload = false := (Bool.or_eq_false_iff.1 hup).1
  rw [h.isOverload] at hover
  have hle : svr.backlog ≤ 4096 := Nat.le_of_not_lt (of_decide_eq_false hover)
  refine ⟨?_, hle⟩
  have hnat : (BitVec.ofNat 32 svr.backlog).toNat = svr.backlog := by
    rw [BitVec.toNat_ofNat, Nat.mod_eq_of_lt (by omega)]
  rw [BitVec.toInt_eq_toNat_of_lt (by rw [hnat]; omega), hnat]

/-- An entry is small, of either sign. -/
theorem selectorEntry_bounds (h : Regular svr) {back : Int} (hback : -4096 ≤ back ∧ back ≤ 4096) :
    -4096 ≤ selectorEntry back svr ∧ selectorEntry back svr ≤ 4096 := by
  unfold selectorEntry
  split
  · exact hback
  · rename_i hup
    obtain ⟨hcast, hle⟩ := toInt_backlog h (Bool.eq_false_of_not_eq_true hup)
    have hweight : svr.weight ≤ 10 := h.weight
    have hfactor : kOverloadBacklog / kMaxWeight = 409 := by decide
    simp only [hcast, hfactor]
    split
    · omega
    · omega

/-- Without a share the entry behind zero is zero. -/
theorem selectorEntry_zero (h : Regular svr) (hshare : share svr = 0) :
    selectorEntry 0 svr = 0 := by
  unfold selectorEntry
  split
  · rfl
  · rename_i hup
    have hup' : (svr.isOverload || svr.isDown) = false := Bool.eq_false_of_not_eq_true hup
    obtain ⟨hcast, -⟩ := toInt_backlog h hup'
    have hfactor : kOverloadBacklog / kMaxWeight = 409 := by decide
    unfold share at hshare
    rw [Bool.or_comm, hup', hfactor] at hshare
    simp only [Bool.false_eq_true, if_false] at hshare
    simp only [hcast, hfactor]
    rw [if_neg (by omega)]

end Selector

/-- One round of the loop. -/
def pushEntry (acc : List Int) (svr : RegisteredServer) : List Int :=
  acc ++ [selectorEntry (acc.getLastD 0) svr]

theorem prefix_foldl_pushEntry (servers : List RegisteredServer) (acc : List Int) :
    acc <+: servers.foldl pushEntry acc := by
  induction servers generalizing acc with
  | nil => exact List.prefix_refl acc
  | cons svr servers ih => exact (List.prefix_append acc _).trans (ih _)

theorem bounds_foldl_pushEntry (servers : List RegisteredServer)
    (hreg : ∀ svr ∈ servers, Regular svr) (acc : List Int)
    (hacc : ∀ e ∈ acc, -4096 ≤ e ∧ e ≤ 4096) :
    ∀ e ∈ servers.foldl pushEntry acc, -4096 ≤ e ∧ e ≤ 4096 := by
  induction servers generalizing acc with
  | nil => exact hacc
  | cons svr servers ih =>
      apply ih fun d hd => hreg d (List.mem_cons_of_mem svr hd)
      intro e he
      rcases List.mem_append.1 he with he | he
      · exact hacc e he
      · rw [List.mem_singleton.1 he]
        apply selectorEntry_bounds (hreg svr List.mem_cons_self)
        rw [List.getLastD_eq_getLast?]
        cases hlast : acc.getLast? with
        | none => simp
        | some back => exact hacc back (List.mem_of_getLast? hlast)

/-- Web servers without a share add zeros to zeros. -/
theorem foldl_pushEntry_zeros (servers : List RegisteredServer)
    (hreg : ∀ svr ∈ servers, Regular svr) (hshare : ∀ svr ∈ servers, share svr = 0) (n : Nat) :
    servers.foldl pushEntry (List.replicate (n + 1) 0) =
      List.replicate (n + 1 + servers.length) 0 := by
  induction servers generalizing n with
  | nil => rfl
  | cons svr servers ih =>
      have hlast : (List.replicate (n + 1) (0 : Int)).getLastD 0 = 0 := by
        rw [List.replicate_succ', List.getLastD_concat]
      have hpush : pushEntry (List.replicate (n + 1) 0) svr = List.replicate (n + 1 + 1) 0 := by
        unfold pushEntry
        rw [hlast, selectorEntry_zero (hreg svr List.mem_cons_self)
          (hshare svr List.mem_cons_self), ← List.replicate_succ']
      rw [List.foldl_cons, hpush, ih (fun d hd => hreg d (List.mem_cons_of_mem svr hd))
        (fun d hd => hshare d (List.mem_cons_of_mem svr hd)), List.length_cons]
      congr 1
      omega

/-! ## Main theorem -/

/-- The remainder is not negative, and smaller than the divisor of either sign. -/
theorem tmod_bounds (random : Nat) {back : Int} (hback : back ≠ 0) :
    0 ≤ (random : Int).tmod back ∧ (random : Int).tmod back < back.natAbs := by
  refine ⟨Int.tmod_nonneg back (Int.natCast_nonneg random), ?_⟩
  rw [Int.tmod_eq_emod_of_nonneg (Int.natCast_nonneg random)]
  have h := Int.emod_lt_abs (random : Int) hback
  rw [Int.abs_eq_natAbs] at h
  exact h

/-- The search always finds an entry: the last one is large enough. -/
theorem exists_entry {entries : List Int} {back : Int} (random : Nat) (hmem : back ∈ entries)
    (hback : back ≠ 0) (hbounds : -4096 ≤ back ∧ back ≤ 4096) :
    ∃ i, entries.findIdx? (fun entry => entry % 2 ^ 64 > (random : Int).tmod back) = some i := by
  obtain ⟨hnonneg, hlt⟩ := tmod_bounds random hback
  cases hfind : entries.findIdx? fun entry => entry % 2 ^ 64 > (random : Int).tmod back with
  | some i => exact ⟨i, rfl⟩
  | none =>
      exfalso
      have hnot := List.findIdx?_eq_none_iff.1 hfind back hmem
      have hle : ¬ back % 2 ^ 64 > (random : Int).tmod back := of_decide_eq_false hnot
      omega

/-- The selector starts with zeros up to the place of the first web server
with a share. -/
theorem zeros_prefix_selector {before after : List RegisteredServer}
    (hreg : ∀ svr ∈ before, Regular svr) (hbefore : ∀ svr ∈ before, share svr = 0) :
    List.replicate (before.length + 1) 0 <+: selector (before ++ after) := by
  have hzeros := foldl_pushEntry_zeros before hreg hbefore 0
  show _ <+: (before ++ after).foldl pushEntry [0]
  rw [List.foldl_append, Nat.add_comm before.length 1, ← Nat.zero_add 1, ← hzeros]
  exact prefix_foldl_pushEntry after _

theorem getLastD_mem {entries : List Int} (h : entries.getLastD 0 ≠ 0) :
    entries.getLastD 0 ∈ entries := by
  rw [List.getLastD_eq_getLast?] at h ⊢
  cases hlast : entries.getLast? with
  | none =>
      rw [hlast] at h
      exact absurd rfl h
  | some back => exact List.mem_of_getLast? hlast

/-- **The first web server with a share** is not selected by any random
number: the entry at its place is a zero. -/
theorem not_selects_first {lb : LoadBalancer} (hreg : AllRegular lb)
    {before after : List RegisteredServer} (hservers : lb.webServers = before ++ after)
    (hbefore : ∀ svr ∈ before, share svr = 0) (random : Nat) :
    ¬ Selects random lb before.length := by
  have hzeros : List.replicate (before.length + 1) 0 <+: selector lb.webServers := by
    rw [hservers]
    apply zeros_prefix_selector _ hbefore
    intro svr hsvr
    apply hreg
    rw [hservers]
    exact List.mem_append_left _ hsvr
  have hbounds : ∀ e ∈ selector lb.webServers, -4096 ≤ e ∧ e ≤ 4096 :=
    bounds_foldl_pushEntry lb.webServers hreg [0] (by simp)
  unfold Selects balanceByWeight
  simp only [Mutex.lockGuard]
  split
  · simp
  · rename_i hback
    have hmem := getLastD_mem hback
    obtain ⟨i, hi⟩ := exists_entry random hmem hback (hbounds _ hmem)
    have hnonneg := (tmod_bounds random hback).1
    rw [hi]
    simp only
    split
    · intro hsame
      have heq : i = before.length := by simpa using hsame
      obtain ⟨hlt, hentry, -⟩ := List.findIdx?_eq_some_iff_getElem.1 hi
      have hzero : (selector lb.webServers)[i]? = some 0 := by
        obtain ⟨rest, hrest⟩ := hzeros
        rw [← hrest, List.getElem?_append_left (by rw [List.length_replicate]; omega),
          List.getElem?_replicate, if_pos (by omega)]
      rw [List.getElem?_eq_getElem hlt, Option.some.injEq] at hzero
      rw [hzero] at hentry
      have hpos := of_decide_eq_true hentry
      omega
    · simp

theorem exists_first_share {servers : List RegisteredServer} (h : 0 < (servers.map share).sum) :
    ∃ before svr after, servers = before ++ svr :: after ∧ (∀ d ∈ before, share d = 0) ∧
      0 < share svr := by
  obtain ⟨n, hn, hpos⟩ := List.sum_pos_iff_exists_pos_nat.1 h
  obtain ⟨svr, hmem, rfl⟩ := List.mem_map.1 hn
  cases hfind : servers.find? fun svr => 0 < share svr with
  | none => exact absurd (decide_eq_true hpos) (List.find?_eq_none.1 hfind svr hmem)
  | some first =>
      obtain ⟨hfirst, before, after, hservers, hbefore⟩ := List.find?_eq_some_iff_append.1 hfind
      refine ⟨before, first, after, hservers, ?_, of_decide_eq_true hfirst⟩
      intro d hd
      have hzero := hbefore d hd
      simp only [Bool.not_eq_true', decide_eq_false_iff_not] at hzero
      omega

/-- A load balancer with shares does not select by them. -/
theorem not_proportional_of_regular {lb : LoadBalancer} (hreg : AllRegular lb)
    (hshare : 0 < totalShare lb) : ¬ Proportional lb := by
  obtain ⟨before, svr, after, hservers, hbefore, hpos⟩ := exists_first_share hshare
  intro h
  have hget : lb.webServers[before.length]? = some svr := by
    rw [hservers, List.getElem?_append_right (Nat.le_refl _), Nat.sub_self]
    rfl
  have hcount := h before.length svr hget
  rw [residues_eq_empty fun r _ => not_selects_first hreg hservers hbefore r,
    Set.ncard_empty] at hcount
  omega

/-- **Selection by weight is never proportional**, in no state that a run of
the load balancer reaches. -/
theorem not_proportional (calls : List BalancerCall) (lb : LoadBalancer)
    (hrun : run balancerStep LoadBalancer.init calls = some lb) (hshare : 0 < totalShare lb) :
    ¬ Proportional lb :=
  not_proportional_of_regular (regular_of_run hrun) hshare

/-- Two web servers of weight 1. -/
def twoWeights : List BalancerCall :=
  [.registerWebServer ⟨lit "10.0.1.1", 80⟩ 1, .registerWebServer ⟨lit "10.0.1.2", 80⟩ 1,
    .configRule .kWeight]

/-- The load balancer behind these calls. -/
def twoWeighted : LoadBalancer :=
  { balanceRule := .kWeight,
    webServers := [WebServerProfile.registered ⟨lit "10.0.1.1", 80⟩ 1,
      WebServerProfile.registered ⟨lit "10.0.1.2", 80⟩ 1],
    lastSelected := 0, currWeight := 0, selected_lt := fun _ => Nat.zero_lt_two }

theorem not_proportional_twoWeights :
    run balancerStep LoadBalancer.init twoWeights = some twoWeighted ∧
      totalShare twoWeighted = 818 ∧ ¬ Proportional twoWeighted :=
  ⟨rfl, by decide, not_proportional twoWeights twoWeighted rfl (by decide)⟩

/-- Each of them has a share of 409, but all 818 residues select the second
one. -/
theorem selects_second_twoWeights :
    run balancerStep LoadBalancer.init twoWeights = some twoWeighted ∧
      (∃ svr ∈ twoWeighted.webServers[0]?, share svr = 409) ∧
      (∀ r, r < totalShare twoWeighted → Selects r twoWeighted 1) ∧ ¬ Proportional twoWeighted := by
  have hsecond : ∀ r, r < totalShare twoWeighted → Selects r twoWeighted 1 := by decide +kernel
  refine ⟨rfl, ⟨_, rfl, by decide⟩, hsecond, ?_⟩
  intro h
  have hnone : residues twoWeighted 0 = ∅ := by
    apply residues_eq_empty
    intro r hr hzero
    exact absurd ((hsecond r hr).symm.trans hzero) (by decide)
  have hfirst := h 0 _ rfl
  rw [hnone, Set.ncard_empty] at hfirst
  exact absurd hfirst (by decide)

end Unixtar.ReverseProxy
