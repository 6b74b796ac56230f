import Unixtar.Lib.Run
import Unixtar.Lib.SlotPool
import Unixtar.NetworkModel.TcpConnection
import Mathlib.Logic.Function.Basic

/-!
# The connection pool: `ServerBase::ConnectionManager` of `networkmodel/serverbase.cc`

`pool_` is a `std::vector` of pointers, indexed by uid.  A slot holds the
`ConnId` of the object it points to, and `conns` holds the live objects
themselves.  `none` is the result of an operation that indexes outside of
the vector or fails an assertion.

The code reads `capacity()` where it means `size()`.  What the C++ standard
says about `capacity()` is a parameter, `VectorImpl`; the pool keeps its
invariant as long as each enlargement finds the two equal and leaves them
equal.

## Main results

* `addConnection_spec`, `release_wellFormed`, `clearTimeout_wellFormed` —
  each operation keeps the representation invariant `WellFormed`.
-/

namespace Unixtar

open Unixtar.Lib

/-! ## The vector -/

/-- The capacity of a `std::vector` behind `reserve(n)` on a new vector and
behind `resize(n)` on one of a given capacity and size. -/
structure VectorImpl where
  reserve : Nat → Nat
  resize : Nat → Nat → Nat → Nat
  le_reserve : ∀ n, n ≤ reserve n
  le_resize : ∀ capacity size n, n ≤ resize capacity size n

/-- libstdc++ reserves exactly and grows to `max(2 * size, n)`. -/
def VectorImpl.libstdcxx : VectorImpl where
  reserve n := n
  resize capacity size n := if n ≤ capacity then capacity else max (2 * size) n
  le_reserve _ := Nat.le_refl _
  le_resize capacity size n := by
    split
    · assumption
    · exact Nat.le_max_right _ _

/-! ## The manager -/

/-- `ConnectionManager` with the connection objects it owns. -/
structure ConnectionManager where
  pool : List (Option ConnId)
  capacity : Nat
  freePlaces : List Nat
  conns : ConnId → Option ConnectionProfile

namespace ConnectionManager

def kInvalidUid : Nat := 0
def kReserveSize : Nat := 128
def kEnlargeUnit : Nat := 128

/-- The constructor. -/
def init (v : VectorImpl) : ConnectionManager :=
  { pool := List.replicate kReserveSize none, capacity := v.reserve kReserveSize,
    freePlaces := List.range' 1 (kReserveSize - 1), conns := fun _ => none }

/-- `GetConnection`: the pointer in the slot, if the assertion holds. -/
def getConnection (m : ConnectionManager) (uid : Nat) : Option (Option ConnId) :=
  if kInvalidUid < uid ∧ uid < m.capacity then m.pool[uid]? else none

/-- `CurrConnectionCnt`. -/
def currConnectionCnt (m : ConnectionManager) : Nat := m.capacity - m.freePlaces.length

/-- `__CheckCapacity`; the new indices are stored as `uint32_t`. -/
def checkCapacity (v : VectorImpl) (m : ConnectionManager) : ConnectionManager :=
  if m.freePlaces = [] then
    let n := m.capacity + kEnlargeUnit
    let capacity := v.resize m.capacity m.pool.length n
    { m with pool := m.pool.take n ++ List.replicate (n - m.pool.length) none, capacity,
             freePlaces := (List.range' m.capacity (capacity - m.capacity)).map (· % 2 ^ 32) }
  else m

/-- `AddConnection` of a new object. -/
def addConnection (v : VectorImpl) (id : ConnId) (c : ConnectionProfile)
    (m : ConnectionManager) : Option ConnectionManager :=
  let m := m.checkCapacity v
  match m.freePlaces with
  | [] => none
  | uid :: rest =>
      if uid < m.pool.length then
        some { m with pool := m.pool.set uid (some id), freePlaces := rest,
                      conns := Function.update m.conns id (some { c with uid }) }
      else none

/-- The slot is emptied, a uid goes to the front of the free list, and the
object is deleted. -/
def release (slot uid : Nat) (id : ConnId) (m : ConnectionManager) : ConnectionManager :=
  { m with pool := m.pool.set slot none, freePlaces := uid :: m.freePlaces,
           conns := Function.update m.conns id none }

/-- `DelConnection`. -/
def delConnection (uid : Nat) (m : ConnectionManager) : Option ConnectionManager :=
  match m.getConnection uid with
  | some (some id) => some (m.release uid uid id)
  | _ => none

/-- The object in a slot, if it has timed out. -/
def expired (now slot : Nat) (m : ConnectionManager) : Option (ConnId × ConnectionProfile) :=
  match m.pool[slot]? with
  | some (some id) =>
      match m.conns id with
      | some c => if c.isTimeout now then some (id, c) else none
      | none => none
  | _ => none

/-- One round of the loop of `ClearTimeout`. -/
def clearSlot (now : Nat) (m : ConnectionManager) (slot : Nat) : ConnectionManager :=
  match m.expired now slot with
  | some (id, c) => m.release slot c.uid id
  | none => m

/-- `ClearTimeout`. -/
def clearTimeout (now : Nat) (m : ConnectionManager) : ConnectionManager :=
  (List.range m.pool.length).foldl (clearSlot now) m

/-- A change of a live object by anybody else. -/
def update (id : ConnId) (c : ConnectionProfile) (m : ConnectionManager) :
    ConnectionManager :=
  { m with conns := Function.update m.conns id (some c) }

/-- `AddConnection`, whatever the pool looks like. -/
theorem addConnection_eq {v : VectorImpl} {m m' : ConnectionManager} {id : ConnId}
    {c : ConnectionProfile} (h : m.addConnection v id c = some m') :
    ∃ uid rest, (m.checkCapacity v).freePlaces = uid :: rest ∧
      uid < (m.checkCapacity v).pool.length ∧
      m' = { m.checkCapacity v with
        pool := (m.checkCapacity v).pool.set uid (some id), freePlaces := rest,
        conns := Function.update m.conns id (some { c with uid }) } := by
  have hconns : (m.checkCapacity v).conns = m.conns := by
    unfold checkCapacity
    split <;> rfl
  unfold addConnection at h
  dsimp only at h
  split at h
  · cases h
  · rename_i uid rest hfree
    split at h
    · rename_i hlt
      cases h
      exact ⟨uid, rest, hfree, hlt, by rw [hconns]⟩
    · cases h

theorem addConnection_conns {v : VectorImpl} {m m' : ConnectionManager} {id : ConnId}
    {c : ConnectionProfile} (h : m.addConnection v id c = some m') :
    ∃ uid, m'.conns = Function.update m.conns id (some { c with uid }) := by
  obtain ⟨uid, _, -, -, rfl⟩ := addConnection_eq h
  exact ⟨uid, rfl⟩

/-! ## The representation invariant -/

/-- The pool as a slot pool. -/
def slotPool (m : ConnectionManager) : SlotPool ConnId := ⟨m.pool, m.freePlaces⟩

/-- Slots and live objects point to each other. -/
structure WellFormed (m : ConnectionManager) : Prop where
  slots : m.slotPool.WellFormed
  size_le : m.pool.length ≤ m.capacity
  stored : ∀ id c, m.conns id = some c → m.pool[c.uid]? = some (some id)
  occupied : ∀ uid id, m.pool[uid]? = some (some id) → ∃ c, m.conns id = some c ∧ c.uid = uid

/-- The enlargement that an `AddConnection` on this pool makes, if any, finds
`capacity() == size()` and leaves it so, within the range of a uid. -/
def ExactGrowth (v : VectorImpl) (m : ConnectionManager) : Prop :=
  m.freePlaces = [] →
    m.capacity = m.pool.length ∧
      v.resize m.capacity m.pool.length (m.capacity + kEnlargeUnit) =
        m.capacity + kEnlargeUnit ∧
      m.capacity + kEnlargeUnit ≤ 2 ^ 32

instance (v : VectorImpl) (m : ConnectionManager) : Decidable (m.ExactGrowth v) :=
  inferInstanceAs (Decidable (_ → _))

theorem init_wellFormed (v : VectorImpl) : (init v).WellFormed where
  slots := SlotPool.wellFormed_init 127
  size_le := by
    show (List.replicate kReserveSize none).length ≤ v.reserve kReserveSize
    rw [List.length_replicate]
    exact v.le_reserve _
  stored id c h := by cases h
  occupied uid id h := by
    have hmem : some id ∈ List.replicate kReserveSize (none : Option ConnId) :=
      List.mem_of_getElem? h
    exact absurd (List.eq_of_mem_replicate hmem) (by simp)

/-- An exact enlargement. -/
theorem checkCapacity_eq_grow {v : VectorImpl} {m : ConnectionManager}
    (hfree : m.freePlaces = []) (hexact : m.ExactGrowth v) :
    m.checkCapacity v =
      { m with pool := m.pool ++ List.replicate kEnlargeUnit none,
               capacity := m.capacity + kEnlargeUnit,
               freePlaces := List.range' m.pool.length kEnlargeUnit } := by
  obtain ⟨hcap, hresize, hle⟩ := hexact hfree
  have htake : m.pool.take (m.capacity + kEnlargeUnit) = m.pool := by
    apply List.take_of_length_le
    omega
  have hmap : (List.range' m.capacity kEnlargeUnit).map (· % 2 ^ 32) =
      List.range' m.pool.length kEnlargeUnit := by
    rw [← hcap]
    conv_rhs => rw [← List.map_id (List.range' m.capacity kEnlargeUnit)]
    apply List.map_congr_left
    intro i hi
    rw [List.mem_range'_1] at hi
    exact Nat.mod_eq_of_lt (by omega)
  unfold checkCapacity
  rw [if_pos hfree]
  simp only [hresize, htake, Nat.add_sub_cancel_left, hmap]
  rw [show m.capacity + kEnlargeUnit - m.pool.length = kEnlargeUnit by omega]

/-! ### What the slots point to -/

/-- An enlargement, exact or not, only appends empty slots. -/
theorem occupied_checkCapacity {v : VectorImpl} {m : ConnectionManager}
    (h : ∀ uid id, m.pool[uid]? = some (some id) → ∃ c, m.conns id = some c ∧ c.uid = uid) :
    ∀ uid id, (m.checkCapacity v).pool[uid]? = some (some id) →
      ∃ c, (m.checkCapacity v).conns id = some c ∧ c.uid = uid := by
  intro uid id hslot
  unfold checkCapacity at hslot ⊢
  split at hslot
  · rename_i hfree
    rw [if_pos hfree]
    have hold : m.pool[uid]? = some (some id) := by
      dsimp only at hslot
      by_cases hlt : uid < (m.pool.take (m.capacity + kEnlargeUnit)).length
      · rw [List.getElem?_append_left hlt, List.getElem?_take_of_lt (by
          rw [List.length_take] at hlt
          omega)] at hslot
        exact hslot
      · rw [List.getElem?_append_right (by omega)] at hslot
        exact absurd (List.eq_of_mem_replicate (List.mem_of_getElem? hslot)) (by simp)
    exact h uid id hold
  · rename_i hfree
    rw [if_neg hfree]
    exact h uid id hslot

/-- A new object is put into a slot. -/
theorem occupied_add {m : ConnectionManager} {uid : Nat} {id : ConnId} {c : ConnectionProfile}
    (h : ∀ uid id, m.pool[uid]? = some (some id) → ∃ c, m.conns id = some c ∧ c.uid = uid)
    (hlt : uid < m.pool.length) (hnew : m.conns id = none) :
    ∀ u id', (m.pool.set uid (some id))[u]? = some (some id') →
      ∃ d, Function.update m.conns id (some { c with uid }) id' = some d ∧ d.uid = u := by
  intro u id' hslot
  by_cases hu : uid = u
  · subst hu
    rw [List.getElem?_set_self hlt] at hslot
    cases hslot
    exact ⟨{ c with uid }, Function.update_self _ _ _, rfl⟩
  · rw [List.getElem?_set_ne hu] at hslot
    obtain ⟨d, hd, huid⟩ := h u id' hslot
    have hid : id' ≠ id := by
      rintro rfl
      rw [hnew] at hd
      cases hd
    exact ⟨d, by rw [Function.update_of_ne hid]; exact hd, huid⟩

/-- A slot is emptied, and the object in it deleted. -/
theorem occupied_release {m : ConnectionManager} {slot uid : Nat} {id : ConnId}
    (h : ∀ uid id, m.pool[uid]? = some (some id) → ∃ c, m.conns id = some c ∧ c.uid = uid)
    (hslot : m.pool[slot]? = some (some id)) :
    ∀ u id', (m.release slot uid id).pool[u]? = some (some id') →
      ∃ c, (m.release slot uid id).conns id' = some c ∧ c.uid = u := by
  intro u id' hu
  obtain ⟨c, hc, huid⟩ := h slot id hslot
  have hlt : slot < m.pool.length := (List.getElem?_eq_some_iff.1 hslot).1
  replace hu : (m.pool.set slot none)[u]? = some (some id') := hu
  show ∃ c', Function.update m.conns id none id' = some c' ∧ c'.uid = u
  have hne : slot ≠ u := by
    rintro rfl
    rw [List.getElem?_set_self hlt] at hu
    cases hu
  rw [List.getElem?_set_ne hne] at hu
  obtain ⟨c', hc', huid'⟩ := h u id' hu
  have hid : id' ≠ id := by
    rintro rfl
    rw [hc] at hc'
    cases hc'
    exact hne (huid.symm.trans huid')
  exact ⟨c', by rw [Function.update_of_ne hid]; exact hc', huid'⟩

/-- A live object changes, but keeps its uid. -/
theorem occupied_update {m : ConnectionManager} {id : ConnId} {old c : ConnectionProfile}
    (h : ∀ uid id, m.pool[uid]? = some (some id) → ∃ c, m.conns id = some c ∧ c.uid = uid)
    (hold : m.conns id = some old) (huid : c.uid = old.uid) :
    ∀ u id', (m.update id c).pool[u]? = some (some id') →
      ∃ d, (m.update id c).conns id' = some d ∧ d.uid = u := by
  intro u id' hu
  obtain ⟨c', hc', huid'⟩ := h u id' hu
  show ∃ d, Function.update m.conns id (some c) id' = some d ∧ d.uid = u
  by_cases hid : id' = id
  · subst hid
    rw [hold] at hc'
    cases hc'
    exact ⟨c, Function.update_self _ _ _, huid.trans huid'⟩
  · exact ⟨c', by rw [Function.update_of_ne hid]; exact hc', huid'⟩

theorem checkCapacity_spec {v : VectorImpl} {m : ConnectionManager} (h : m.WellFormed)
    (hexact : m.ExactGrowth v) :
    (m.checkCapacity v).WellFormed ∧ (m.checkCapacity v).freePlaces ≠ [] ∧
      (m.checkCapacity v).conns = m.conns := by
  by_cases hfree : m.freePlaces = []
  · rw [checkCapacity_eq_grow hfree hexact]
    have hoccupied := occupied_checkCapacity (v := v) h.occupied
    rw [checkCapacity_eq_grow hfree hexact] at hoccupied
    refine ⟨⟨SlotPool.wellFormed_grow h.slots hfree kEnlargeUnit, ?_, ?_, hoccupied⟩, ?_, rfl⟩
    · show (m.pool ++ List.replicate kEnlargeUnit none).length ≤ _
      rw [List.length_append, List.length_replicate]
      exact Nat.add_le_add_right h.size_le _
    · intro id c hc
      have hslot := h.stored id c hc
      show (m.pool ++ List.replicate kEnlargeUnit none)[c.uid]? = some (some id)
      rw [List.getElem?_append_left (List.getElem?_eq_some_iff.1 hslot).1]
      exact hslot
    · show List.range' m.pool.length kEnlargeUnit ≠ []
      simp [kEnlargeUnit]
  · have hsame : m.checkCapacity v = m := if_neg hfree
    rw [hsame]
    exact ⟨h, hfree, rfl⟩

/-- **`AddConnection`** stores a new object under a uid that no live object
has. -/
theorem addConnection_spec {v : VectorImpl} {m : ConnectionManager} {id : ConnId}
    (c : ConnectionProfile) (h : m.WellFormed) (hexact : m.ExactGrowth v)
    (hnew : m.conns id = none) :
    ∃ uid m', m.addConnection v id c = some m' ∧ m'.WellFormed ∧
      m'.conns = Function.update m.conns id (some { c with uid }) ∧
      (∀ id' c', m.conns id' = some c' → c'.uid ≠ uid) := by
  obtain ⟨hwf, hne, hconns⟩ := checkCapacity_spec h hexact
  unfold addConnection
  generalize m.checkCapacity v = g at hwf hne hconns
  cases hfree : g.freePlaces with
  | nil => exact absurd hfree hne
  | cons uid rest =>
      have hmem : uid ∈ g.slotPool.free := by
        show uid ∈ g.freePlaces
        rw [hfree]
        exact List.mem_cons_self
      have hempty : g.pool[uid]? = some none := hwf.slots.empty_of_free hmem
      have hlt : uid < g.pool.length := (hwf.slots.inRange uid hmem).2
      have hother : ∀ id' c', m.conns id' = some c' → c'.uid ≠ uid := by
        intro id' c' hc' huid
        have hslot := hwf.stored id' c' (by rw [hconns]; exact hc')
        rw [huid, hempty] at hslot
        cases hslot
      simp only [hfree]
      rw [if_pos hlt]
      refine ⟨uid, _, rfl, ⟨?_, ?_, ?_, ?_⟩, by rw [hconns], hother⟩
      · exact SlotPool.wellFormed_take hwf.slots hfree id
      · show (g.pool.set uid (some id)).length ≤ g.capacity
        rw [List.length_set]
        exact hwf.size_le
      · intro id' c' hc'
        replace hc' : Function.update g.conns id (some { c with uid }) id' = some c' := hc'
        show (g.pool.set uid (some id))[c'.uid]? = some (some id')
        by_cases hid : id' = id
        · subst hid
          rw [Function.update_self] at hc'
          cases hc'
          exact List.getElem?_set_self hlt
        · rw [Function.update_of_ne hid, hconns] at hc'
          rw [List.getElem?_set_ne (hother id' c' hc').symm]
          exact hwf.stored id' c' (by rw [hconns]; exact hc')
      · exact occupied_add hwf.occupied hlt (by rw [hconns]; exact hnew)

/-- A release makes no new object, and the one released is gone. -/
theorem conns_of_release {m : ConnectionManager} {slot uid : Nat} {id id' : ConnId}
    {c : ConnectionProfile} (h : (m.release slot uid id).conns id' = some c) :
    id' ≠ id ∧ m.conns id' = some c := by
  replace h : Function.update m.conns id none id' = some c := h
  by_cases hid : id' = id
  · rw [hid, Function.update_self] at h
    cases h
  · rw [Function.update_of_ne hid] at h
    exact ⟨hid, h⟩

/-- A slot that holds an object is emptied together with the object. -/
theorem release_wellFormed {m : ConnectionManager} {slot : Nat} {id : ConnId}
    (h : m.WellFormed) (hslot : m.pool[slot]? = some (some id)) :
    (m.release slot slot id).WellFormed := by
  refine ⟨SlotPool.wellFormed_release h.slots hslot, ?_, ?_, occupied_release h.occupied hslot⟩
  · show (m.pool.set slot none).length ≤ m.capacity
    rw [List.length_set]
    exact h.size_le
  · intro id' c' hc'
    obtain ⟨hid, hc'⟩ := conns_of_release hc'
    show (m.pool.set slot none)[c'.uid]? = some (some id')
    have hslot' := h.stored id' c' hc'
    have hne : slot ≠ c'.uid := by
      intro heq
      rw [← heq, hslot] at hslot'
      cases hslot'
      exact hid rfl
    rw [List.getElem?_set_ne hne]
    exact hslot'

theorem expired_iff {m : ConnectionManager} {now slot : Nat} {id : ConnId}
    {c : ConnectionProfile} :
    m.expired now slot = some (id, c) ↔
      m.pool[slot]? = some (some id) ∧ m.conns id = some c ∧ c.isTimeout now = true := by
  constructor
  · intro he
    unfold expired at he
    split at he
    · rename_i id' hslot
      split at he
      · rename_i c' hc'
        split at he
        · rename_i htimeout
          cases he
          exact ⟨hslot, hc', htimeout⟩
        · cases he
      · cases he
    · cases he
  · rintro ⟨hslot, hc, htimeout⟩
    unfold expired
    simp only [hslot, hc, htimeout, if_true]

/-- The object in an expired slot carries the slot's index as its uid. -/
theorem expired_spec {m : ConnectionManager} {now slot : Nat} {id : ConnId}
    {c : ConnectionProfile}
    (h : ∀ uid id, m.pool[uid]? = some (some id) → ∃ c, m.conns id = some c ∧ c.uid = uid)
    (he : m.expired now slot = some (id, c)) :
    m.pool[slot]? = some (some id) ∧ m.conns id = some c ∧ c.uid = slot ∧
      c.isTimeout now = true := by
  obtain ⟨hslot, hc, htimeout⟩ := expired_iff.1 he
  obtain ⟨d, hd, huid⟩ := h slot id hslot
  rw [hc] at hd
  cases hd
  exact ⟨hslot, hc, huid, htimeout⟩

theorem clearSlot_wellFormed {m : ConnectionManager} (now slot : Nat) (h : m.WellFormed) :
    (m.clearSlot now slot).WellFormed := by
  unfold clearSlot
  split
  · rename_i id c he
    obtain ⟨hslot, -, huid, -⟩ := expired_spec h.occupied he
    rw [huid]
    exact release_wellFormed h hslot
  · exact h

/-- What every round of the loop keeps, `ClearTimeout` keeps. -/
theorem clearTimeout_keeps {P : ConnectionManager → Prop} (now : Nat)
    (hslot : ∀ m slot, P m → P (m.clearSlot now slot)) {m : ConnectionManager} (h : P m) :
    P (m.clearTimeout now) := by
  unfold clearTimeout
  exact List.foldlRecOn _ _ h fun m hm slot _ => hslot m slot hm

/-- **`ClearTimeout`** keeps the invariant. -/
theorem clearTimeout_wellFormed {m : ConnectionManager} (now : Nat) (h : m.WellFormed) :
    (m.clearTimeout now).WellFormed :=
  clearTimeout_keeps now (fun _ slot => clearSlot_wellFormed now slot) h

/-- A change of a live object that keeps its uid. -/
theorem update_wellFormed {m : ConnectionManager} {id : ConnId} {old c : ConnectionProfile}
    (h : m.WellFormed) (hold : m.conns id = some old) (huid : c.uid = old.uid) :
    (m.update id c).WellFormed := by
  refine ⟨h.slots, h.size_le, ?_, occupied_update h.occupied hold huid⟩
  intro id' c' hc'
  replace hc' : Function.update m.conns id (some c) id' = some c' := hc'
  show m.pool[c'.uid]? = some (some id')
  by_cases hid : id' = id
  · subst hid
    rw [Function.update_self] at hc'
    cases hc'
    rw [huid]
    exact h.stored id' old hold
  · rw [Function.update_of_ne hid] at hc'
    exact h.stored id' c' hc'

end ConnectionManager

end Unixtar
