import Unixtar.NetworkModel.Contexts

/-!
# No two live connections share a uid

`Distinct` says less than `WellFormed`: nothing about slots that nobody uses,
so it does not need exact enlargements.  It is kept as long as the uids do
not wrap around.

## Main results

* `addConnection_distinct`, `release_distinct` — the operations of the pool
  keep `Distinct`.
* `Keeps` — what a network thread keeps that opens no connection, with one
  lemma for each thing it does.
-/

namespace Unixtar

namespace ConnectionManager

/-! ## The invariant -/

/-- Every live object is stored under its uid, and the uids in the free list
are not in use. -/
structure Distinct (m : ConnectionManager) : Prop where
  pos : 0 < m.capacity
  size_le : m.pool.length ≤ m.capacity
  nodup : m.freePlaces.Nodup
  free : ∀ uid ∈ m.freePlaces, 0 < uid ∧ uid < m.capacity ∧ ∀ id, m.pool[uid]? ≠ some (some id)
  used : ∀ uid id, m.pool[uid]? = some (some id) → 0 < uid
  stored : ∀ id c, m.conns id = some c → m.pool[c.uid]? = some (some id)
  occupied : ∀ uid id, m.pool[uid]? = some (some id) → ∃ c, m.conns id = some c ∧ c.uid = uid

/-- The enlargement that an `AddConnection` on this pool makes, if any, stays
within the range of a uid. -/
def FitsUid (v : VectorImpl) (m : ConnectionManager) : Prop :=
  m.freePlaces = [] →
    v.resize m.capacity m.pool.length (m.capacity + kEnlargeUnit) ≤ 2 ^ 32

instance (v : VectorImpl) (m : ConnectionManager) : Decidable (m.FitsUid v) :=
  inferInstanceAs (Decidable (_ → _))

theorem init_distinct (v : VectorImpl) : (init v).Distinct where
  pos := Nat.lt_of_lt_of_le (by decide) (v.le_reserve kReserveSize)
  size_le := (init_wellFormed v).size_le
  nodup := (init_wellFormed v).slots.nodup
  free := by
    intro uid huid
    obtain ⟨hpos, hlt⟩ := (init_wellFormed v).slots.inRange uid huid
    refine ⟨hpos, Nat.lt_of_lt_of_le hlt (init_wellFormed v).size_le, ?_⟩
    intro id hslot
    obtain ⟨c, hc, -⟩ := (init_wellFormed v).occupied uid id hslot
    cases hc
  used := by
    intro uid id hslot
    obtain ⟨c, hc, -⟩ := (init_wellFormed v).occupied uid id hslot
    cases hc
  stored := (init_wellFormed v).stored
  occupied := (init_wellFormed v).occupied

/-- The uid of a live object leads to it. -/
theorem Distinct.getConnection {m : ConnectionManager} {id : ConnId} {c : ConnectionProfile}
    (h : m.Distinct) (hc : m.conns id = some c) :
    m.getConnection c.uid = some (some id) := by
  have hslot := h.stored id c hc
  have hlt := (List.getElem?_eq_some_iff.1 hslot).1
  unfold ConnectionManager.getConnection
  rw [if_pos ⟨h.used _ _ hslot, Nat.lt_of_lt_of_le hlt h.size_le⟩]
  exact hslot

/-- New slots are empty. -/
theorem getElem?_append_replicate {pool : List (Option ConnId)} {n uid : Nat} {id : ConnId} :
    (pool ++ List.replicate n none)[uid]? = some (some id) ↔ pool[uid]? = some (some id) := by
  by_cases hlt : uid < pool.length
  · rw [List.getElem?_append_left hlt]
  · have hnone : pool[uid]? = none := List.getElem?_eq_none (by omega)
    rw [List.getElem?_append_right (by omega), hnone]
    constructor
    · intro hslot
      exact absurd (List.eq_of_mem_replicate (List.mem_of_getElem? hslot)) (by simp)
    · intro hslot
      cases hslot

theorem checkCapacity_distinct {v : VectorImpl} {m : ConnectionManager} (h : m.Distinct)
    (hfits : m.FitsUid v) :
    (m.checkCapacity v).Distinct ∧ (m.checkCapacity v).conns = m.conns ∧
      m.pool.length ≤ (m.checkCapacity v).pool.length := by
  by_cases hfree : m.freePlaces = []
  · have hle := hfits hfree
    have hcapacity := v.le_resize m.capacity m.pool.length (m.capacity + kEnlargeUnit)
    have hsize := h.size_le
    unfold checkCapacity
    rw [if_pos hfree]
    dsimp only
    generalize v.resize m.capacity m.pool.length (m.capacity + kEnlargeUnit) = capacity
      at hle hcapacity
    rw [List.take_of_length_le (Nat.le_trans h.size_le (Nat.le_add_right _ _))]
    have hplaces : (List.range' m.capacity (capacity - m.capacity)).map (· % 2 ^ 32) =
        List.range' m.capacity (capacity - m.capacity) := by
      conv_rhs => rw [← List.map_id (List.range' m.capacity (capacity - m.capacity))]
      apply List.map_congr_left
      intro i hi
      rw [List.mem_range'_1] at hi
      exact Nat.mod_eq_of_lt (by omega)
    rw [hplaces]
    refine ⟨⟨?_, ?_, List.nodup_range', ?_, ?_, ?_, ?_⟩, rfl, ?_⟩
    · show 0 < capacity
      have hpos := h.pos
      omega
    · show (m.pool ++ List.replicate _ none).length ≤ capacity
      rw [List.length_append, List.length_replicate]
      omega
    · intro uid huid
      replace huid : uid ∈ List.range' m.capacity (capacity - m.capacity) := huid
      rw [List.mem_range'_1] at huid
      have hpos := h.pos
      refine ⟨by omega, by show uid < capacity; omega, ?_⟩
      intro id hslot
      have hold := getElem?_append_replicate.1 hslot
      have hlt := (List.getElem?_eq_some_iff.1 hold).1
      omega
    · intro uid id hslot
      exact h.used uid id (getElem?_append_replicate.1 hslot)
    · intro id c hc
      exact getElem?_append_replicate.2 (h.stored id c hc)
    · intro uid id hslot
      exact h.occupied uid id (getElem?_append_replicate.1 hslot)
    · show m.pool.length ≤ (m.pool ++ List.replicate _ none).length
      rw [List.length_append]
      exact Nat.le_add_right _ _
  · have hsame : m.checkCapacity v = m := if_neg hfree
    rw [hsame]
    exact ⟨h, rfl, Nat.le_refl _⟩

/-- **`AddConnection`** stores a new object under a uid that no live object
has. -/
theorem addConnection_distinct {v : VectorImpl} {m m' : ConnectionManager} {id : ConnId}
    {c : ConnectionProfile} (h : m.Distinct) (hfits : m.FitsUid v) (hnew : m.conns id = none)
    (hadd : m.addConnection v id c = some m') :
    m'.Distinct ∧ m.pool.length ≤ m'.pool.length ∧
      ∃ uid, m'.conns = Function.update m.conns id (some { c with uid }) ∧
        ∀ id' c', m.conns id' = some c' → c'.uid ≠ uid := by
  obtain ⟨hg, hconns, hlength⟩ := checkCapacity_distinct h hfits
  unfold addConnection at hadd
  dsimp only at hadd
  generalize m.checkCapacity v = g at hg hconns hlength hadd
  split at hadd
  · cases hadd
  · rename_i uid rest hfree
    split at hadd
    · rename_i hlt
      cases hadd
      have hmem : uid ∈ g.freePlaces := by
        rw [hfree]
        exact List.mem_cons_self
      obtain ⟨hpos, hcapacity, hempty⟩ := hg.free uid hmem
      obtain ⟨hnotmem, hnodup⟩ := List.nodup_cons.1 (hfree ▸ hg.nodup)
      have hother : ∀ id' c', m.conns id' = some c' → c'.uid ≠ uid := by
        intro id' c' hc' huid
        rw [← hconns] at hc'
        exact hempty id' (huid ▸ hg.stored id' c' hc')
      have hslots : ∀ u id', (g.pool.set uid (some id))[u]? = some (some id') ↔
          (u = uid ∧ id' = id) ∨ (u ≠ uid ∧ g.pool[u]? = some (some id')) := by
        intro u id'
        by_cases hu : u = uid
        · rw [hu, List.getElem?_set_self hlt]
          simp [eq_comm]
        · rw [List.getElem?_set_ne (Ne.symm hu)]
          simp [hu]
      refine ⟨⟨hg.pos, ?_, hnodup, ?_, ?_, ?_, ?_⟩, ?_, uid, by rw [hconns], hother⟩
      · show (g.pool.set uid (some id)).length ≤ g.capacity
        rw [List.length_set]
        exact hg.size_le
      · intro u hu
        have hu' : u ∈ g.freePlaces := by
          rw [hfree]
          exact List.mem_cons_of_mem uid hu
        obtain ⟨hupos, hucapacity, huempty⟩ := hg.free u hu'
        refine ⟨hupos, hucapacity, ?_⟩
        intro id' hslot
        rcases (hslots u id').1 hslot with ⟨rfl, -⟩ | ⟨-, hslot⟩
        · exact hnotmem hu
        · exact huempty id' hslot
      · intro u id' hslot
        rcases (hslots u id').1 hslot with ⟨rfl, -⟩ | ⟨-, hslot⟩
        · exact hpos
        · exact hg.used u id' hslot
      · intro id' c' hc'
        replace hc' : Function.update g.conns id (some { c with uid }) id' = some c' := hc'
        apply (hslots c'.uid id').2
        by_cases hid : id' = id
        · rw [hid, Function.update_self] at hc'
          cases hc'
          exact Or.inl ⟨rfl, hid⟩
        · rw [Function.update_of_ne hid] at hc'
          exact Or.inr ⟨hother id' c' (by rw [← hconns]; exact hc'), hg.stored id' c' hc'⟩
      · intro u id' hslot
        show ∃ c', Function.update g.conns id (some { c with uid }) id' = some c' ∧ c'.uid = u
        rcases (hslots u id').1 hslot with ⟨rfl, rfl⟩ | ⟨-, hslot⟩
        · exact ⟨_, Function.update_self _ _ _, rfl⟩
        · obtain ⟨c', hc', huid⟩ := hg.occupied u id' hslot
          have hid : id' ≠ id := by
            rintro rfl
            rw [hconns, hnew] at hc'
            cases hc'
          exact ⟨c', by rw [Function.update_of_ne hid]; exact hc', huid⟩
      · show m.pool.length ≤ (g.pool.set uid (some id)).length
        rw [List.length_set]
        exact hlength
    · cases hadd

/-- The uid that the next `AddConnection` takes. -/
def nextUid (v : VectorImpl) (m : ConnectionManager) : Option Nat :=
  (m.checkCapacity v).freePlaces.head?

theorem addConnection_cases {v : VectorImpl} {m m' : ConnectionManager} {id : ConnId}
    {c : ConnectionProfile} (h : m.addConnection v id c = some m') :
    ∃ uid, m.nextUid v = some uid ∧ uid < (m.checkCapacity v).pool.length ∧
      m'.pool = (m.checkCapacity v).pool.set uid (some id) ∧
      m'.capacity = (m.checkCapacity v).capacity ∧
      m'.conns = Function.update m.conns id (some { c with uid }) := by
  have hconns : (m.checkCapacity v).conns = m.conns := by
    unfold checkCapacity
    split <;> rfl
  unfold addConnection at h
  unfold nextUid
  dsimp only at h
  split at h
  · cases h
  · rename_i uid rest hfree
    split at h
    · rename_i hlt
      cases h
      rw [hfree]
      exact ⟨uid, rfl, hlt, rfl, rfl, by rw [← hconns]⟩
    · cases h

/-- `AddConnection` goes well if the next uid is a place of `pool_`. -/
theorem exists_addConnection {v : VectorImpl} {m : ConnectionManager} {uid : Nat} (id : ConnId)
    (c : ConnectionProfile) (huid : m.nextUid v = some uid)
    (hlt : uid < (m.checkCapacity v).pool.length) : ∃ m', m.addConnection v id c = some m' := by
  unfold nextUid at huid
  cases hfree : (m.checkCapacity v).freePlaces with
  | nil =>
      rw [hfree] at huid
      cases huid
  | cons head rest =>
      rw [hfree] at huid
      cases huid
      apply Option.isSome_iff_exists.1
      unfold addConnection
      simp [hfree, hlt]

/-- The objects of the pool are still found, unless one has lost its place to the
new object. -/
theorem getConnection_addConnection {v : VectorImpl} {m m' : ConnectionManager}
    {id id' : ConnId} {c : ConnectionProfile} {uid : Nat} (hsize : m.pool.length ≤ m.capacity)
    (hget : m.getConnection uid = some (some id')) (h : m.addConnection v id c = some m') :
    m'.getConnection uid = some (some (if m.nextUid v = some uid then id else id')) := by
  obtain ⟨next, hnext, hlt, hpool, hcapacity, -⟩ := addConnection_cases h
  unfold getConnection at hget ⊢
  split at hget
  · rename_i hrange
    -- the pool only gets longer
    have hlonger : (m.checkCapacity v).pool[uid]? = some (some id') ∧
        m.capacity ≤ (m.checkCapacity v).capacity := by
      unfold checkCapacity
      split
      · have hle := v.le_resize m.capacity m.pool.length (m.capacity + kEnlargeUnit)
        refine ⟨?_, by dsimp only; omega⟩
        dsimp only
        rw [List.take_of_length_le (by omega), getElem?_append_replicate]
        exact hget
      · exact ⟨hget, Nat.le_refl _⟩
    obtain ⟨hslot, hle⟩ := hlonger
    rw [hcapacity, hpool, if_pos ⟨hrange.1, Nat.lt_of_lt_of_le hrange.2 hle⟩, hnext]
    by_cases heq : next = uid
    · rw [heq, if_pos rfl, List.getElem?_set_self (heq ▸ hlt)]
    · rw [if_neg (fun h => heq (Option.some.inj h)), List.getElem?_set_ne heq]
      exact hslot
  · cases hget

/-- A slot that holds an object is emptied together with the object. -/
theorem release_distinct {m : ConnectionManager} {slot : Nat} {id : ConnId}
    (h : m.Distinct) (hslot : m.pool[slot]? = some (some id)) :
    (m.release slot slot id).Distinct := by
  obtain ⟨c, hc, huid⟩ := h.occupied slot id hslot
  have hlt : slot < m.pool.length := (List.getElem?_eq_some_iff.1 hslot).1
  have hslots : ∀ u id', (m.pool.set slot none)[u]? = some (some id') ↔
      u ≠ slot ∧ m.pool[u]? = some (some id') := by
    intro u id'
    by_cases hu : u = slot
    · rw [hu, List.getElem?_set_self hlt]
      simp
    · rw [List.getElem?_set_ne (Ne.symm hu)]
      simp [hu]
  -- an object in another slot is another object
  have hne : ∀ u id', u ≠ slot → m.pool[u]? = some (some id') → id' ≠ id := by
    rintro u id' hu hslot' rfl
    obtain ⟨c', hc', huid'⟩ := h.occupied u id' hslot'
    rw [hc] at hc'
    cases hc'
    exact hu (huid'.symm.trans huid)
  refine ⟨h.pos, ?_, ?_, ?_, ?_, ?_, ?_⟩
  · show (m.pool.set slot none).length ≤ m.capacity
    rw [List.length_set]
    exact h.size_le
  · refine List.nodup_cons.2 ⟨?_, h.nodup⟩
    intro hmem
    exact (h.free slot hmem).2.2 id hslot
  · intro u hu
    rcases List.mem_cons.1 hu with rfl | hu
    · refine ⟨h.used u id hslot, Nat.lt_of_lt_of_le hlt h.size_le, ?_⟩
      intro id' hslot'
      exact ((hslots u id').1 hslot').1 rfl
    · obtain ⟨hpos, hcapacity, hempty⟩ := h.free u hu
      refine ⟨hpos, hcapacity, ?_⟩
      intro id' hslot'
      exact hempty id' ((hslots u id').1 hslot').2
  · intro u id' hslot'
    exact h.used u id' ((hslots u id').1 hslot').2
  · intro id' c' hc'
    obtain ⟨hid, hc'⟩ := conns_of_release hc'
    have hslot' := h.stored id' c' hc'
    refine (hslots c'.uid id').2 ⟨?_, hslot'⟩
    intro heq
    rw [heq, hslot] at hslot'
    cases hslot'
    exact hid rfl
  · intro u id' hslot'
    obtain ⟨hu, hold⟩ := (hslots u id').1 hslot'
    obtain ⟨c', hc', huid'⟩ := h.occupied u id' hold
    refine ⟨c', ?_, huid'⟩
    show Function.update m.conns id none id' = some c'
    rw [Function.update_of_ne (hne u id' hu hold)]
    exact hc'

/-- Two pools with the same slots, whose objects have the same uids. -/
structure SameUids (m m' : ConnectionManager) : Prop where
  pool : m'.pool = m.pool
  capacity : m'.capacity = m.capacity
  freePlaces : m'.freePlaces = m.freePlaces
  uids : ∀ id, (m'.conns id).map (·.uid) = (m.conns id).map (·.uid)

theorem SameUids.refl (m : ConnectionManager) : SameUids m m := ⟨rfl, rfl, rfl, fun _ => rfl⟩

theorem SameUids.trans {m m' m'' : ConnectionManager} (h : SameUids m m')
    (h' : SameUids m' m'') : SameUids m m'' :=
  ⟨h'.pool.trans h.pool, h'.capacity.trans h.capacity, h'.freePlaces.trans h.freePlaces,
    fun id => (h'.uids id).trans (h.uids id)⟩

theorem sameUids_update {m : ConnectionManager} {id : ConnId} {old c : ConnectionProfile}
    (hold : m.conns id = some old) (huid : c.uid = old.uid) : SameUids m (m.update id c) := by
  refine ⟨rfl, rfl, rfl, ?_⟩
  intro id'
  show (Function.update m.conns id (some c) id').map _ = _
  by_cases hid : id' = id
  · rw [hid, Function.update_self, hold]
    exact congrArg some huid
  · rw [Function.update_of_ne hid]

theorem SameUids.distinct {m m' : ConnectionManager} (h : SameUids m m') (hm : m.Distinct) :
    m'.Distinct := by
  refine ⟨?_, ?_, ?_, ?_, ?_, ?_, ?_⟩
  · rw [h.capacity]
    exact hm.pos
  · rw [h.pool, h.capacity]
    exact hm.size_le
  · rw [h.freePlaces]
    exact hm.nodup
  · rw [h.freePlaces, h.capacity, h.pool]
    exact hm.free
  · rw [h.pool]
    exact hm.used
  · intro id c hc
    have huid := h.uids id
    rw [hc] at huid
    obtain ⟨c', hc', heq⟩ := Option.map_eq_some_iff.1 huid.symm
    replace heq : c'.uid = c.uid := heq
    rw [h.pool, ← heq]
    exact hm.stored id c' hc'
  · intro uid id hslot
    rw [h.pool] at hslot
    obtain ⟨c', hc', huid'⟩ := hm.occupied uid id hslot
    have huid := h.uids id
    rw [hc'] at huid
    obtain ⟨c, hc, heq⟩ := Option.map_eq_some_iff.1 huid
    exact ⟨c, hc, heq.trans huid'⟩

end ConnectionManager

namespace NetState

open ConnectionManager

/-! ## Sending keeps the uids -/

theorem sameUids_trySend {s t : NetState} {x : CtxId} {w : WriteOutcome} {done : Bool}
    (h : s.trySend x w = some (t, done)) : SameUids s.mgr t.mgr := by
  cases hk : s.ctxs x with
  | none => simp [trySend, hk] at h
  | some k =>
      obtain ⟨-, -, rfl⟩ := trySend_eq hk h
      exact SameUids.refl _

theorem sameUids_onSendDone (x : CtxId) (s : NetState) :
    SameUids s.mgr (s.onSendDone x).mgr := by
  unfold onSendDone
  split
  · exact SameUids.refl _
  · split
    · exact SameUids.refl _
    · rename_i c hc
      exact sameUids_update hc rfl

theorem sameUids_markAsPendingPacket (x : CtxId) (s : NetState) :
    SameUids s.mgr (s.markAsPendingPacket x).mgr := by
  unfold markAsPendingPacket
  split
  · exact SameUids.refl _
  · split
    · exact SameUids.refl _
    · rename_i c hc
      exact sameUids_update hc rfl

theorem sameUids_popPending (id : ConnId) (s : NetState) :
    SameUids s.mgr (s.popPending id).mgr := by
  unfold popPending
  split
  · exact SameUids.refl _
  · rename_i c hc
    exact sameUids_update hc rfl

theorem sameUids_trySendAndMarkPendingIfUndone {s t : NetState} {x : CtxId} {w : WriteOutcome}
    {done : Bool} (h : s.trySendAndMarkPendingIfUndone x w = some (t, done)) :
    SameUids s.mgr t.mgr := by
  cases trySendAndMarkPendingIfUndone_cases h with
  | done k s₁ _ _ htry => exact (sameUids_trySend htry).trans (sameUids_onSendDone x s₁)
  | undone k s₁ _ _ htry =>
      exact (sameUids_trySend htry).trans (sameUids_markAsPendingPacket x s₁)
  | skipped => exact SameUids.refl _

theorem sameUids_trySendPendingPackets {s t : NetState} {id : ConnId} {ws : List WriteOutcome}
    (h : s.trySendPendingPackets id ws = some t) : SameUids s.mgr t.mgr := by
  induction ws generalizing s with
  | nil =>
      rw [trySendPendingPackets_nil h]
      exact SameUids.refl _
  | cons w ws ih =>
      obtain ⟨c, x, rest, -, -, ⟨s₁, htry, hnext⟩ | ⟨htry, -⟩⟩ := trySendPendingPackets_cons h
      · exact (sameUids_trySend htry).trans
          ((sameUids_onSendDone x s₁).trans ((sameUids_popPending id _).trans (ih hnext)))
      · exact sameUids_trySend htry

/-- `DelConnection` of a live connection's uid destroys it. -/
theorem delConnection_eq {s : NetState} {id : ConnId} {c : ConnectionProfile}
    (h : s.mgr.Distinct) (hc : s.mgr.conns id = some c) :
    s.delConnection c.uid = some (s.destroy c.uid c.uid id c) := by
  unfold delConnection
  rw [h.getConnection hc]
  show (s.mgr.conns id).map _ = _
  rw [hc]
  rfl

/-! ## What is kept when no connection is opened -/

/-- From `s` to `t` no connection is opened, and none changes its uid or its
type. -/
structure Keeps (s t : NetState) : Prop where
  distinct : s.mgr.Distinct → t.mgr.Distinct
  length : t.mgr.pool.length = s.mgr.pool.length
  nextConn : t.nextConn = s.nextConn
  owners : KeepsOwners s t
  conns : ∀ id d, t.mgr.conns id = some d →
    ∃ c, s.mgr.conns id = some c ∧ d.uid = c.uid ∧ d.type = c.type

namespace Keeps

theorem refl (s : NetState) : Keeps s s :=
  ⟨fun h => h, rfl, rfl, KeepsOwners.refl s, fun _ d hd => ⟨d, hd, rfl, rfl⟩⟩

theorem trans {s t u : NetState} (h : Keeps s t) (h' : Keeps t u) : Keeps s u := by
  refine ⟨fun hs => h'.distinct (h.distinct hs), h'.length.trans h.length,
    h'.nextConn.trans h.nextConn, h.owners.trans h'.owners, ?_⟩
  intro id d hd
  obtain ⟨c', hc', huid', htype'⟩ := h'.conns id d hd
  obtain ⟨c, hc, huid, htype⟩ := h.conns id c' hc'
  exact ⟨c, hc, huid'.trans huid, htype'.trans htype⟩

/-- A frame that says nothing about the pool. -/
theorem ofFrame {s t : NetState} (h : s.Frame t) (hdistinct : s.mgr.Distinct → t.mgr.Distinct)
    (hlength : t.mgr.pool.length = s.mgr.pool.length) : Keeps s t := by
  refine ⟨hdistinct, hlength, h.nextConn, h.owners, ?_⟩
  intro id d hd
  obtain ⟨c, _, _, _, hc, rfl⟩ := h.conns id d hd
  exact ⟨c, hc, rfl, rfl⟩

theorem ofSameUids {s t : NetState} (h : s.Frame t) (hsame : SameUids s.mgr t.mgr) : Keeps s t :=
  ofFrame h hsame.distinct (congrArg List.length hsame.pool)

theorem setConn {s : NetState} {id : ConnId} {c d : ConnectionProfile}
    (hc : s.mgr.conns id = some c) (huid : d.uid = c.uid) (htype : d.type = c.type) :
    Keeps s (s.setConn id d) := by
  refine ⟨(sameUids_update hc huid).distinct, rfl, rfl, KeepsOwners.refl s, ?_⟩
  intro id' e he
  rw [setConn_conns] at he
  by_cases hid : id' = id
  · rw [hid, Function.update_self] at he
    cases he
    rw [hid]
    exact ⟨c, hc, huid, htype⟩
  · rw [Function.update_of_ne hid] at he
    exact ⟨e, he, rfl, rfl⟩

/-- Only the heap of contexts changes. -/
theorem ofCtxs {s : NetState} {ctxs : CtxId → Option SendContext} {nextCtx : CtxId}
    (h : s.KeepsOwners { s with ctxs, nextCtx }) : Keeps s { s with ctxs, nextCtx } :=
  ⟨fun hs => hs, rfl, rfl, h, fun _ d hd => ⟨d, hd, rfl, rfl⟩⟩

theorem allocCtx {s : NetState} {held : List CtxId} (h : s.Sound held) (k : SendContext) :
    Keeps s (s.allocCtx (some k)) :=
  ofCtxs (KeepsOwners.allocCtx h k)

/-- A connection makes a context. -/
theorem newContext {s : NetState} {held : List CtxId} {id : ConnId} {c d : ConnectionProfile}
    (h : s.Sound held) (hc : s.mgr.conns id = some c) (huid : d.uid = c.uid)
    (htype : d.type = c.type) (k : SendContext) :
    Keeps s ((s.setConn id d).allocCtx (some k)) := by
  show Keeps s ((s.allocCtx (some k)).setConn id d)
  exact (allocCtx h k).trans (setConn (s := s.allocCtx (some k)) hc huid htype)

theorem isLive {s t : NetState} {id : ConnId} (h : Keeps s t) (hlive : t.isLive id = true) :
    s.isLive id = true := by
  obtain ⟨d, hd⟩ := Option.isSome_iff_exists.1 hlive
  obtain ⟨c, hc, -⟩ := h.conns id d hd
  exact isLive_of_conns hc

theorem trySendAndMarkPendingIfUndone {s t : NetState} {x : CtxId} {w : WriteOutcome}
    {done : Bool} (h : s.trySendAndMarkPendingIfUndone x w = some (t, done)) : Keeps s t :=
  ofSameUids (Frame.trySendAndMarkPendingIfUndone h) (sameUids_trySendAndMarkPendingIfUndone h)

theorem trySendPendingPackets {s t : NetState} {id : ConnId} {ws : List WriteOutcome}
    (h : s.trySendPendingPackets id ws = some t) : Keeps s t :=
  ofSameUids (Frame.trySendPendingPackets h) (sameUids_trySendPendingPackets h)

theorem delConnection {s t : NetState} {uid : Nat} (h : s.delConnection uid = some t) :
    Keeps s t := by
  obtain ⟨id, c, hget, -, rfl⟩ := delConnection_cases h
  apply ofFrame (Frame.delConnection h)
  · intro hs
    unfold ConnectionManager.getConnection at hget
    split at hget
    · exact release_distinct hs hget
    · cases hget
  · exact List.length_set

theorem clearSlot (s : NetState) (slot : Nat) (hs : s.mgr.Distinct) :
    Keeps s (s.clearSlot slot) := by
  unfold NetState.clearSlot
  split
  · rename_i id c hexpired
    obtain ⟨hslot, -, huid, -⟩ := expired_spec hs.occupied hexpired
    rw [huid]
    exact ofFrame (Frame.destroy slot slot id c s) (fun h => release_distinct h hslot)
      List.length_set
  · exact refl s

theorem clearTimeout (s : NetState) (hs : s.mgr.Distinct) : Keeps s s.clearTimeout :=
  clearTimeout_keeps (P := Keeps s)
    (fun t slot ht => ht.trans (clearSlot t slot (ht.distinct hs))) (refl s)

end Keeps

end NetState

end Unixtar
