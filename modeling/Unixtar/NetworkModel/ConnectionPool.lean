import Unixtar.NetworkModel.ConnectionManager

/-!
# Runs of the connection pool

Any sequence of `AddConnection`, `DelConnection` of a live uid and
`ClearTimeout`, with the connection objects changing in between as they
like.  `isUndefined` records that an operation indexed outside of the vector
or failed an assertion.

## Main results

* `sound_of_exactGrowth` — the pool is sound in every state of a run whose
  enlargements are all exact.
* `not_sound_libstdcxx` — with libstdc++ the second enlargement is not: it
  puts uids behind the end of the vector into the free list.
-/

namespace Unixtar

open Unixtar.Lib ConnectionManager

/-- The pool, the next object's name, and whether something undefined has
happened. -/
structure PoolRun where
  mgr : ConnectionManager
  nextConn : ConnId
  isUndefined : Bool

/-- The operations, and `touch`: a live object changes, but keeps its uid. -/
inductive PoolEvent
  | add (c : ConnectionProfile)
  | del (uid : Nat)
  | clearTimeout (now : Nat)
  | touch (id : ConnId) (c : ConnectionProfile)

namespace PoolRun

/-- A freshly constructed manager. -/
def start (v : VectorImpl) : PoolRun := ⟨ConnectionManager.init v, 0, false⟩

/-- The result of an operation, or the mark that it is undefined. -/
def settle (s : PoolRun) (nextConn : ConnId) : Option ConnectionManager → PoolRun
  | some mgr => { s with mgr, nextConn }
  | none => { s with isUndefined := true }

def step (v : VectorImpl) (s : PoolRun) (e : PoolEvent) : Option PoolRun :=
  if s.isUndefined then none
  else
    match e with
    | .add c => some (s.settle (s.nextConn + 1) (s.mgr.addConnection v s.nextConn c))
    | .del uid =>
        match s.mgr.pool[uid]? with
        | some (some _) => some (s.settle s.nextConn (s.mgr.delConnection uid))
        | _ => none
    | .clearTimeout now => some { s with mgr := s.mgr.clearTimeout now }
    | .touch id c =>
        match s.mgr.conns id with
        | some old => if c.uid = old.uid then some { s with mgr := s.mgr.update id c } else none
        | none => none

/-- The enlargement of this step, if any, is exact. -/
def GrowsExactly (v : VectorImpl) (s : PoolRun) : PoolEvent → Prop
  | .add _ => s.mgr.ExactGrowth v
  | _ => True

instance (v : VectorImpl) (s : PoolRun) : ∀ e, Decidable (GrowsExactly v s e)
  | .add _ => inferInstanceAs (Decidable (s.mgr.ExactGrowth v))
  | .del _ => isTrue trivial
  | .clearTimeout _ => isTrue trivial
  | .touch _ _ => isTrue trivial

/-- The uids in the free list are distinct, not 0 and inside the vector, they
are those of the null slots, every live object is stored under its uid, and no
two live objects share one. -/
structure Sound (s : PoolRun) : Prop where
  defined : s.isUndefined = false
  nodup : s.mgr.freePlaces.Nodup
  inside : ∀ uid ∈ s.mgr.freePlaces, uid ≠ kInvalidUid ∧ uid < s.mgr.pool.length
  null_iff : ∀ uid, 0 < uid → uid < s.mgr.pool.length →
    (s.mgr.pool[uid]? = some none ↔ uid ∈ s.mgr.freePlaces)
  stored : ∀ id c, s.mgr.conns id = some c → s.mgr.pool[c.uid]? = some (some id)
  distinct : ∀ id id' c c', s.mgr.conns id = some c → s.mgr.conns id' = some c' →
    id ≠ id' → c.uid ≠ c'.uid

structure Inv (s : PoolRun) : Prop where
  defined : s.isUndefined = false
  wellFormed : s.mgr.WellFormed
  fresh : ∀ id c, s.mgr.conns id = some c → id < s.nextConn

theorem Inv.sound {s : PoolRun} (h : Inv s) : Sound s where
  defined := h.defined
  nodup := h.wellFormed.slots.nodup
  inside uid hmem := by
    have hrange := h.wellFormed.slots.inRange uid hmem
    exact ⟨Nat.ne_of_gt hrange.1, hrange.2⟩
  null_iff := h.wellFormed.slots.empty_iff
  stored := h.wellFormed.stored
  distinct id id' c c' hc hc' hne huid := by
    have hslot := h.wellFormed.stored id c hc
    rw [huid, h.wellFormed.stored id' c' hc'] at hslot
    cases hslot
    exact hne rfl

theorem inv_start (v : VectorImpl) : Inv (start v) :=
  ⟨rfl, init_wellFormed v, fun _ _ h => by cases h⟩

/-- A live uid names an object, and `DelConnection` releases its slot. -/
theorem delConnection_of_live {m : ConnectionManager} {uid : Nat} {id : ConnId}
    (h : m.WellFormed) (hslot : m.pool[uid]? = some (some id)) :
    m.delConnection uid = some (m.release uid uid id) := by
  obtain ⟨hpos, hlt, -⟩ := h.slots.filled hslot
  have hget : m.getConnection uid = some (some id) := by
    unfold getConnection
    rw [if_pos ⟨hpos, Nat.lt_of_lt_of_le hlt h.size_le⟩]
    exact hslot
  unfold delConnection
  rw [hget]

theorem conns_of_clearTimeout {m : ConnectionManager} {now : Nat} {id : ConnId}
    {c : ConnectionProfile} (h : (m.clearTimeout now).conns id = some c) :
    m.conns id = some c := by
  refine clearTimeout_keeps (P := fun m' => m'.conns id = some c → m.conns id = some c) now ?_
    (fun h => h) h
  intro m' slot hback hone
  apply hback
  unfold clearSlot at hone
  split at hone
  · exact (conns_of_release hone).2
  · exact hone

/-- **One operation.** -/
theorem inv_step {v : VectorImpl} {s s' : PoolRun} {e : PoolEvent} (hinv : Inv s)
    (hgrow : GrowsExactly v s e) (h : step v s e = some s') : Inv s' := by
  unfold step at h
  rw [if_neg (by rw [hinv.defined]; decide)] at h
  cases e with
  | add c =>
      have hnew : s.mgr.conns s.nextConn = none := by
        cases hc : s.mgr.conns s.nextConn with
        | none => rfl
        | some d => exact absurd (hinv.fresh _ d hc) (Nat.lt_irrefl _)
      obtain ⟨uid, m', hadd, hwf, hconns, -⟩ :=
        addConnection_spec c hinv.wellFormed hgrow hnew
      simp only [hadd, settle, Option.some.injEq] at h
      subst h
      refine ⟨hinv.defined, hwf, fun id d hd => ?_⟩
      show id < s.nextConn + 1
      replace hd : m'.conns id = some d := hd
      by_cases hid : id = s.nextConn
      · rw [hid]
        exact Nat.lt_succ_self _
      · rw [hconns, Function.update_of_ne hid] at hd
        exact Nat.lt_succ_of_lt (hinv.fresh id d hd)
  | del uid =>
      simp only at h
      split at h
      · rename_i id hslot
        rw [delConnection_of_live hinv.wellFormed hslot] at h
        simp only [settle, Option.some.injEq] at h
        subst h
        refine ⟨hinv.defined, release_wellFormed hinv.wellFormed hslot, fun id' d hd => ?_⟩
        exact hinv.fresh id' d (conns_of_release hd).2
      · cases h
  | clearTimeout now =>
      simp only [Option.some.injEq] at h
      subst h
      refine ⟨hinv.defined, clearTimeout_wellFormed now hinv.wellFormed, fun id d hd => ?_⟩
      exact hinv.fresh id d (conns_of_clearTimeout hd)
  | touch id c =>
      simp only at h
      split at h
      · rename_i old hold
        split at h
        · rename_i huid
          simp only [Option.some.injEq] at h
          subst h
          refine ⟨hinv.defined, update_wellFormed hinv.wellFormed hold huid, fun id' d hd => ?_⟩
          replace hd : Function.update s.mgr.conns id (some c) id' = some d := hd
          by_cases hid : id' = id
          · subst hid
            exact hinv.fresh id' old hold
          · rw [Function.update_of_ne hid] at hd
            exact hinv.fresh id' d hd
        · cases h
      · cases h

/-- **The pool is sound** in every state of every run in which each
enlargement finds `capacity() == size()` and leaves it so. -/
theorem sound_of_exactGrowth (v : VectorImpl) (events : List PoolEvent)
    (hgrow : Along (step v) (GrowsExactly v) (start v) events) :
    ∀ s ∈ trace (step v) (start v) events, Sound s := by
  intro s hs
  have hinv := trace_invariant (fun _ _ _ hinv hc h => inv_step hinv hc h) (inv_start v) hgrow
  exact (hinv s hs).sound

/-- A connection object to add. -/
def someConn : ConnectionProfile := ConnectionProfile.accepted 0 7 (lit "10.0.0.1") 4000 0

/-- As many connections as the new pool has free places, and one more, which
enlarges it; one of them is deleted and its uid used again, and a timeout clears
all. -/
def addDelClear : List PoolEvent :=
  List.replicate 128 (.add someConn) ++ [.del 1, .add someConn, .clearTimeout 20000]

theorem sound_addDelClear :
    ∃ s, run (step .libstdcxx) (start .libstdcxx) addDelClear = some s ∧
      s.mgr.pool.length = 256 ∧ s.mgr.freePlaces.length = 255 ∧ Sound s := by
  obtain ⟨s, hrun, hlength, hfree⟩ :
      ∃ s ∈ run (step .libstdcxx) (start .libstdcxx) addDelClear,
        s.mgr.pool.length = 256 ∧ s.mgr.freePlaces.length = 255 := by
    decide +kernel
  exact ⟨s, hrun, hlength, hfree,
    sound_of_exactGrowth .libstdcxx addDelClear (by decide +kernel) s (run_mem_trace hrun)⟩

/-! ## libstdc++ -/

/-- An `AddConnection` that takes the first free place. -/
theorem step_add {v : VectorImpl} {s : PoolRun} {uid : Nat} {rest : List Nat}
    (hdef : s.isUndefined = false) (hfree : (s.mgr.checkCapacity v).freePlaces = uid :: rest)
    (hlt : uid < (s.mgr.checkCapacity v).pool.length) :
    ∃ s', step v s (.add someConn) = some s' ∧ s'.isUndefined = false ∧
      s'.mgr.freePlaces = rest ∧ s'.mgr.pool.length = (s.mgr.checkCapacity v).pool.length ∧
      s'.mgr.capacity = (s.mgr.checkCapacity v).capacity := by
  unfold step
  rw [if_neg (by rw [hdef]; decide)]
  simp only [addConnection, hfree]
  rw [if_pos hlt]
  exact ⟨_, rfl, hdef, rfl, List.length_set, rfl⟩

/-- As many `AddConnection`s as there are free places. -/
theorem run_adds {v : VectorImpl} {s : PoolRun} (hdef : s.isUndefined = false)
    (hlt : ∀ uid ∈ s.mgr.freePlaces, uid < s.mgr.pool.length) :
    ∃ t, run (step v) s (List.replicate s.mgr.freePlaces.length (.add someConn)) = some t ∧
      t.isUndefined = false ∧ t.mgr.freePlaces = [] ∧
      t.mgr.pool.length = s.mgr.pool.length ∧ t.mgr.capacity = s.mgr.capacity := by
  generalize hfree : s.mgr.freePlaces = free at hlt ⊢
  induction free generalizing s with
  | nil => exact ⟨s, rfl, hdef, hfree, rfl, rfl⟩
  | cons uid rest ih =>
      have hsame : s.mgr.checkCapacity v = s.mgr := by
        apply if_neg
        rw [hfree]
        exact List.cons_ne_nil _ _
      have hmem := hlt uid List.mem_cons_self
      obtain ⟨s', hstep, hdef', hrest, hlen, hcap⟩ :=
        step_add (v := v) hdef (by rw [hsame]; exact hfree) (by rw [hsame]; exact hmem)
      rw [hsame] at hlen hcap
      obtain ⟨t, hrun, htdef, htfree, htlen, htcap⟩ := ih hdef' hrest (fun u hu => by
        rw [hlen]
        exact hlt u (List.mem_cons_of_mem _ hu))
      refine ⟨t, ?_, htdef, htfree, htlen.trans hlen, htcap.trans hcap⟩
      rw [List.length_cons, List.replicate_succ, run_cons_some hstep]
      exact hrun

/-- 256 connections are added, none is deleted. -/
def adds256 : List PoolEvent :=
  List.replicate 127 (.add someConn) ++ [.add someConn] ++
    (List.replicate 127 (.add someConn) ++ [.add someConn])

/-- One enlargement of a full pool and as many additions as it makes room
for. -/
theorem run_enlarge {s : PoolRun} {n k : Nat} (hdef : s.isUndefined = false)
    (hfull : s.mgr.freePlaces = []) (hlen : s.mgr.pool.length = n)
    (hcap : s.mgr.capacity = n) (hresize : VectorImpl.libstdcxx.resize n n (n + 128) = n + k)
    (hpos : 0 < k) (hsmall : n + k ≤ 2 ^ 32) :
    ∃ t, step .libstdcxx s (.add someConn) = some t ∧ t.isUndefined = false ∧
      t.mgr.freePlaces = List.range' (n + 1) (k - 1) ∧ t.mgr.pool.length = n + 128 ∧
      t.mgr.capacity = n + k := by
  have hplaces : (List.range' n k).map (· % 2 ^ 32) =
      n :: List.range' (n + 1) (k - 1) := by
    have hid : (List.range' n k).map (· % 2 ^ 32) = List.range' n k := by
      conv_rhs => rw [← List.map_id (List.range' n k)]
      apply List.map_congr_left
      intro i hi
      rw [List.mem_range'_1] at hi
      exact Nat.mod_eq_of_lt (by omega)
    rw [hid]
    obtain ⟨l, rfl⟩ : ∃ l, k = l + 1 := ⟨k - 1, by omega⟩
    rw [List.range'_succ, Nat.add_sub_cancel]
  have hcheck : s.mgr.checkCapacity .libstdcxx =
      { s.mgr with pool := s.mgr.pool ++ List.replicate 128 none, capacity := n + k,
                   freePlaces := n :: List.range' (n + 1) (k - 1) } := by
    unfold checkCapacity
    rw [if_pos hfull]
    simp only [hcap, hlen, kEnlargeUnit, hresize, Nat.add_sub_cancel_left, hplaces]
    rw [List.take_of_length_le (by omega)]
  obtain ⟨t, hstep, htdef, hfree, htlen, htcap⟩ := step_add (v := .libstdcxx) hdef
    (by rw [hcheck]) (by rw [hcheck]; simp [hlen])
  rw [hcheck] at htlen htcap
  refine ⟨t, hstep, htdef, hfree, ?_, htcap⟩
  rw [htlen]
  simp [hlen]

/-- The second enlargement resizes to 384 slots with a capacity of 512, and
the free list runs up to 511. -/
theorem run_adds256 :
    ∃ t, run (step .libstdcxx) (start .libstdcxx) adds256 = some t ∧
      t.mgr.pool.length = 384 ∧ t.mgr.freePlaces = List.range' 257 255 := by
  obtain ⟨s1, hrun1, hdef1, hfull1, hlen1, hcap1⟩ :=
    run_adds (v := .libstdcxx) (s := start .libstdcxx) rfl (by
      intro uid huid
      replace huid : uid ∈ List.range' 1 127 := huid
      rw [List.mem_range'_1] at huid
      show uid < (List.replicate kReserveSize none).length
      rw [List.length_replicate, kReserveSize]
      omega)
  obtain ⟨s2, hstep2, hdef2, hfree2, hlen2, hcap2⟩ :=
    run_enlarge (n := 128) (k := 128) hdef1 hfull1 hlen1 hcap1 (by decide) (by decide)
      (by decide)
  have hlen2' : s2.mgr.freePlaces.length = 127 := by rw [hfree2, List.length_range']
  obtain ⟨s3, hrun3, hdef3, hfull3, hlen3, hcap3⟩ := run_adds (v := .libstdcxx) hdef2 (by
    intro uid huid
    rw [hfree2, List.mem_range'_1] at huid
    omega)
  obtain ⟨s4, hstep4, hdef4, hfree4, hlen4, hcap4⟩ :=
    run_enlarge (n := 256) (k := 256) hdef3 hfull3 (hlen3.trans hlen2)
      (hcap3.trans hcap2) (by decide) (by decide) (by decide)
  rw [hlen2'] at hrun3
  refine ⟨s4, ?_, hlen4, hfree4⟩
  have hone2 : run (step .libstdcxx) s1 [.add someConn] = some s2 := by
    rw [run_cons_some hstep2, run_nil]
  have hone4 : run (step .libstdcxx) s3 [.add someConn] = some s4 := by
    rw [run_cons_some hstep4, run_nil]
  exact run_append_some (run_append_some hrun1 hone2) (run_append_some hrun3 hone4)

/-- With 256 live connections, uids behind the end of the vector are
free. -/
theorem not_sound_libstdcxx :
    ∃ s ∈ trace (step .libstdcxx) (start .libstdcxx) adds256, ¬ Sound s := by
  obtain ⟨t, hrun, hlen, hfree⟩ := run_adds256
  refine ⟨t, run_mem_trace hrun, fun hsound => ?_⟩
  have hmem : 400 ∈ t.mgr.freePlaces := by
    rw [hfree, List.mem_range'_1]
    omega
  have hinside := (hsound.inside 400 hmem).2
  omega

end PoolRun

end Unixtar
