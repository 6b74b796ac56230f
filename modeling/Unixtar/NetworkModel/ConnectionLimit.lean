import Unixtar.NetworkModel.ConnectionPool
import Unixtar.NetworkModel.NetThread
import Mathlib.Data.Finset.Card
import Mathlib.Data.Finset.Range

/-!
# The connection limit

`CurrConnectionCnt` is `capacity()` less the number of free places.  Slot 0
is no free place and never holds a connection, so it is counted as one.

The invariant `Balanced` relates the three numbers.  It does not need the
pool to be sound: behind 2³² slots the uids wrap around and connections
overwrite each other, and the balance still holds.

## Main results

* `balanced_trace` — in every state of every run the capacity is the number
  of free places, plus one, plus the number of live connections.
* `currConnectionCnt_off_by_one` — the count is one more than the number of
  live connections, and a new descriptor is closed one connection early.
-/

namespace Unixtar

open Unixtar.Lib ConnectionManager

/-- A vector whose capacity is what was reserved or resized to. -/
def VectorImpl.exact : VectorImpl where
  reserve n := n
  resize capacity _ n := max capacity n
  le_reserve _ := Nat.le_refl _
  le_resize _ _ _ := Nat.le_max_right _ _

namespace ConnectionManager

/-- The names of the live connections, when `bound` names have been given. -/
def liveIds (bound : ConnId) (m : ConnectionManager) : Finset ConnId :=
  (Finset.range bound).filter fun id => (m.conns id).isSome

/-- Every slot but slot 0 is a free place or counted for one live
connection. -/
structure Balanced (bound : ConnId) (m : ConnectionManager) : Prop where
  occupied : ∀ uid id, m.pool[uid]? = some (some id) → ∃ c, m.conns id = some c ∧ c.uid = uid
  fresh : ∀ id c, m.conns id = some c → id < bound
  balance : m.capacity = m.freePlaces.length + 1 + (m.liveIds bound).card

variable {m m' : ConnectionManager} {bound : ConnId}

theorem mem_liveIds {id : ConnId} :
    id ∈ m.liveIds bound ↔ id < bound ∧ (m.conns id).isSome := by
  unfold liveIds
  rw [Finset.mem_filter, Finset.mem_range]

/-- Only which names are live matters. -/
theorem liveIds_congr (h : ∀ id, (m'.conns id).isSome = (m.conns id).isSome) :
    m'.liveIds bound = m.liveIds bound := by
  unfold liveIds
  apply Finset.filter_congr
  intro id _
  rw [h id]

theorem balanced_init : (init .exact).Balanced 0 where
  occupied := (init_wellFormed .exact).occupied
  fresh id c h := by cases h
  balance := by decide +kernel

/-- An exact enlargement makes as many free places as slots. -/
theorem balanced_checkCapacity (h : m.Balanced bound) :
    (m.checkCapacity .exact).Balanced bound := by
  have hconns : (m.checkCapacity .exact).conns = m.conns := by
    unfold checkCapacity
    split <;> rfl
  refine ⟨occupied_checkCapacity h.occupied, ?_, ?_⟩
  · rw [hconns]
    exact h.fresh
  · have hlive : (m.checkCapacity .exact).liveIds bound = m.liveIds bound :=
      liveIds_congr fun id => by rw [hconns]
    have hbalance := h.balance
    rw [hlive]
    unfold checkCapacity
    split
    · rename_i hfree
      rw [hfree, List.length_nil] at hbalance
      simp only [VectorImpl.exact, List.length_map, List.length_range']
      omega
    · exact hbalance

/-- The new connection takes a free place. -/
theorem balanced_addConnection {c : ConnectionProfile} (h : m.Balanced bound)
    (hadd : m.addConnection .exact bound c = some m') : m'.Balanced (bound + 1) := by
  have hbal := balanced_checkCapacity h
  unfold addConnection at hadd
  generalize m.checkCapacity .exact = g at hbal hadd
  have hnew : g.conns bound = none := by
    cases hc : g.conns bound with
    | none => rfl
    | some d => exact absurd (hbal.fresh bound d hc) (Nat.lt_irrefl _)
  dsimp only at hadd
  split at hadd
  · cases hadd
  · rename_i uid rest hfree
    split at hadd
    · rename_i hlt
      cases hadd
      refine ⟨occupied_add hbal.occupied hlt hnew, ?_, ?_⟩
      · intro id d hd
        by_cases hid : id = bound
        · rw [hid]
          exact Nat.lt_succ_self _
        · replace hd : Function.update g.conns bound (some { c with uid }) id = some d := hd
          rw [Function.update_of_ne hid] at hd
          exact Nat.lt_succ_of_lt (hbal.fresh id d hd)
      · have hlive : liveIds (bound + 1) { g with
              pool := g.pool.set uid (some bound), freePlaces := rest,
              conns := Function.update g.conns bound (some { c with uid }) } =
            insert bound (g.liveIds bound) := by
          ext id
          rw [mem_liveIds, Finset.mem_insert, mem_liveIds]
          by_cases hid : id = bound
          · subst hid
            simp
          · have hle : id < bound + 1 ↔ id < bound :=
              ⟨fun h => (Nat.lt_or_eq_of_le (Nat.le_of_lt_succ h)).resolve_right hid,
                Nat.lt_succ_of_lt⟩
            simp only [Function.update_of_ne hid, hid, false_or, hle]
        have hnot : bound ∉ g.liveIds bound := by
          rw [mem_liveIds]
          exact fun hmem => absurd hmem.1 (Nat.lt_irrefl _)
        have hbalance := hbal.balance
        rw [hfree, List.length_cons] at hbalance
        rw [hlive, Finset.card_insert_of_notMem hnot]
        show g.capacity = rest.length + 1 + ((g.liveIds bound).card + 1)
        omega
    · cases hadd

/-- A connection is deleted, and one place becomes free. -/
theorem balanced_release {slot uid : Nat} {id : ConnId} (h : m.Balanced bound)
    (hslot : m.pool[slot]? = some (some id)) : (m.release slot uid id).Balanced bound := by
  obtain ⟨c, hc, -⟩ := h.occupied slot id hslot
  refine ⟨occupied_release h.occupied hslot, ?_, ?_⟩
  · intro id' d hd
    exact h.fresh id' d (conns_of_release hd).2
  · have hlive : (m.release slot uid id).liveIds bound = (m.liveIds bound).erase id := by
      ext id'
      rw [mem_liveIds, Finset.mem_erase, mem_liveIds]
      show id' < bound ∧ (Function.update m.conns id none id').isSome = true ↔ _
      by_cases hid : id' = id
      · subst hid
        simp
      · simp [hid]
    have hmem : id ∈ m.liveIds bound := mem_liveIds.2 ⟨h.fresh id c hc, by rw [hc]; rfl⟩
    have hpos : 0 < (m.liveIds bound).card := Finset.card_pos.2 ⟨id, hmem⟩
    have hbalance := h.balance
    rw [hlive, Finset.card_erase_of_mem hmem]
    show m.capacity = (uid :: m.freePlaces).length + 1 + ((m.liveIds bound).card - 1)
    rw [List.length_cons]
    omega

theorem balanced_clearSlot (now slot : Nat) (h : m.Balanced bound) :
    (m.clearSlot now slot).Balanced bound := by
  unfold clearSlot
  split
  · rename_i id c he
    exact balanced_release h (expired_iff.1 he).1
  · exact h

/-- **`ClearTimeout`**, slot by slot. -/
theorem balanced_clearTimeout (now : Nat) (h : m.Balanced bound) :
    (m.clearTimeout now).Balanced bound :=
  clearTimeout_keeps now (fun _ slot => balanced_clearSlot now slot) h

theorem balanced_update {id : ConnId} {old c : ConnectionProfile} (h : m.Balanced bound)
    (hold : m.conns id = some old) (huid : c.uid = old.uid) : (m.update id c).Balanced bound := by
  have hlive : ∀ id', ((m.update id c).conns id').isSome = (m.conns id').isSome := by
    intro id'
    show (Function.update m.conns id (some c) id').isSome = _
    by_cases hid : id' = id
    · subst hid
      rw [Function.update_self, hold]
      rfl
    · rw [Function.update_of_ne hid]
  refine ⟨occupied_update h.occupied hold huid, ?_, ?_⟩
  · intro id' d hd
    obtain ⟨e, he⟩ := Option.isSome_iff_exists.1 ((hlive id').symm.trans (by rw [hd]; rfl))
    exact h.fresh id' e he
  · rw [liveIds_congr hlive]
    exact h.balance

end ConnectionManager

namespace PoolRun

/-- The connections added and not yet deleted. -/
def live (s : PoolRun) : Nat := (s.mgr.liveIds s.nextConn).card

/-- **One operation.** -/
theorem balanced_step {s s' : PoolRun} {e : PoolEvent} (h : s.mgr.Balanced s.nextConn)
    (hstep : step .exact s e = some s') : s'.mgr.Balanced s'.nextConn := by
  unfold step at hstep
  split at hstep
  · cases hstep
  · cases e with
    | add c =>
        simp only [Option.some.injEq] at hstep
        subst hstep
        cases hadd : s.mgr.addConnection .exact s.nextConn c with
        | none => exact h
        | some m' => exact balanced_addConnection h hadd
    | del uid =>
        simp only at hstep
        split at hstep
        · rename_i id hslot
          simp only [Option.some.injEq] at hstep
          subst hstep
          unfold delConnection getConnection
          split
          · rename_i id' hget
            split at hget
            · exact balanced_release h hget
            · cases hget
          · exact h
        · cases hstep
    | clearTimeout now =>
        simp only [Option.some.injEq] at hstep
        subst hstep
        exact balanced_clearTimeout now h
    | touch id c =>
        simp only at hstep
        split at hstep
        · rename_i old hold
          split at hstep
          · rename_i huid
            simp only [Option.some.injEq] at hstep
            subst hstep
            exact balanced_update h hold huid
          · cases hstep
        · cases hstep

/-- **Every run.** -/
theorem balanced_trace (events : List PoolEvent) :
    ∀ s ∈ trace (step .exact) (start .exact) events, s.mgr.Balanced s.nextConn := by
  apply trace_invariant_of_forall
  · intro s e s' h hstep
    exact balanced_step h hstep
  · exact balanced_init

/-- `RegisterConnection` of a descriptor closes it: nothing changes. -/
def Closes (maxConnections : Nat) (config : ConnectionProfile → ConnectionProfile) (fd : Nat)
    (ip : Bytes) (port : Nat) (t : NetState) : Prop :=
  t.registerConnection .exact maxConnections config fd ip port = some t

theorem closes_iff {maxConnections fd port : Nat} {config : ConnectionProfile → ConnectionProfile}
    {ip : Bytes} {t : NetState} :
    Closes maxConnections config fd ip port t ↔ maxConnections ≤ t.mgr.currConnectionCnt := by
  unfold Closes NetState.registerConnection
  split
  · rename_i hge
    exact iff_of_true rfl hge
  · rename_i hlt
    apply iff_of_false _ hlt
    intro heq
    unfold NetState.addConnection at heq
    rw [Option.map_map, Option.map_eq_some_iff] at heq
    obtain ⟨m', -, ht⟩ := heq
    exact absurd (congrArg NetState.nextConn ht) (Nat.succ_ne_self _)

/-- The count is the number of live connections, and a thread with this pool
closes a new descriptor exactly when that number has reached the limit. -/
structure CountsLive (s : PoolRun) : Prop where
  count : s.mgr.currConnectionCnt = s.live
  limit : ∀ (t : NetState) (maxConnections : Nat) (config : ConnectionProfile → ConnectionProfile)
    (fd : Nat) (ip : Bytes) (port : Nat), t.mgr = s.mgr →
    (Closes maxConnections config fd ip port t ↔ maxConnections ≤ s.live)

/-- **Off by one.**  In no reachable state is the count the number of live
connections: it is one more, and a descriptor is closed when one connection
less than the limit is live. -/
theorem currConnectionCnt_off_by_one (events : List PoolEvent) :
    ∀ s ∈ trace (step .exact) (start .exact) events,
      ¬ CountsLive s ∧ s.mgr.currConnectionCnt = s.live + 1 ∧
        ∀ (t : NetState) (maxConnections : Nat)
          (config : ConnectionProfile → ConnectionProfile) (fd : Nat) (ip : Bytes) (port : Nat),
          t.mgr = s.mgr →
            (Closes maxConnections config fd ip port t ↔ maxConnections ≤ s.live + 1) := by
  intro s hs
  have hcount : s.mgr.currConnectionCnt = s.live + 1 := by
    have hbalance := (balanced_trace events s hs).balance
    unfold currConnectionCnt live
    omega
  refine ⟨fun hlive => ?_, hcount, ?_⟩
  · have heq := hlive.count
    omega
  · intro t maxConnections config fd ip port hmgr
    rw [closes_iff, hmgr, hcount]

theorem currConnectionCnt_addDelClear :
    ∃ s, run (step .exact) (start .exact) addDelClear = some s ∧
      s.mgr.currConnectionCnt = s.live + 1 := by
  have hsome : (run (step .exact) (start .exact) addDelClear).isSome = true := by decide +kernel
  obtain ⟨s, hrun⟩ := Option.isSome_iff_exists.1 hsome
  exact ⟨s, hrun, (currConnectionCnt_off_by_one addDelClear s (run_mem_trace hrun)).2.1⟩

/-- With a limit of one connection the first descriptor is closed. -/
theorem not_countsLive_start :
    ∃ s ∈ trace (step .exact) (start .exact) [], ¬ CountsLive s ∧ s.live = 0 ∧
      Closes 1 id 7 (lit "10.0.0.1") 4000 { NetState.init .exact with mgr := s.mgr } := by
  refine ⟨start .exact, mem_trace_self _ _ _, fun hlive => ?_, by decide +kernel, ?_⟩
  · exact absurd hlive.count (by decide +kernel)
  · exact closes_iff.2 (by decide +kernel)

end PoolRun

end Unixtar
