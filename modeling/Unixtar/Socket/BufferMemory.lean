import Unixtar.Lib.Run
import Unixtar.Socket.UnixSocket

/-!
# The memory of an `AutoBuffer`

`AutoBuffer` with its vector, its capacity and its pointer, and
`Socket::Receive`, which reads into it.  A `size_t` is reduced modulo 2⁶⁴
wherever one is computed.

`resize` can throw, and then nothing has changed.  An access outside of the
vector is noted in the run and goes no further.

A shallow copy has no vector of its own; what is read through its pointer are
the bytes of somebody else's.  The runs here are those of a buffer that owns
its bytes.

## Main results

* `addCapacity_spec` — growing keeps the contents and the invariant, unless
  the new capacity wraps around.
* `write_spec`, `receive_spec` — both append, on the buffer that the other
  modules speak of.
* `seen_shallowCopyFrom`, `write_reset_shallowCopyFrom` — what a shallow copy
  shows, and how it gets bytes of its own.
* `appendOnly_of_noWrap` — in a run in which no capacity wraps around the
  buffer is an append-only byte string.
-/

namespace Unixtar.AutoBuffer

open Unixtar.Lib

/-- An `AutoBuffer` on its vector. -/
structure Memory where
  /-- `byte_array_p_` is `byte_array_.data()`, and not null -/
  hasByteArrayP : Bool
  isShallowCopy : Bool
  byteArray : Bytes
  pos : Nat
  length : Nat
  capacity : Nat
  mallocUnitSize : Nat

/-- How a call ends: it returns, `resize` throws, an assertion fails, or
memory outside of the vector is accessed. -/
inductive Ret
  | ok (m : Memory)
  | thrown
  | aborted
  | outside

/-- What follows a call that returns. -/
def Ret.bind (ret : Ret) (f : Memory → Ret) : Ret :=
  match ret with
  | ok m => f m
  | ret => ret

/-- `TWhence`. -/
inductive TWhence
  | kStart
  | kCurrent
  | kEnd
deriving DecidableEq

/-- `std::vector<char>::max_size()`. -/
def kMaxSize : Nat := 2 ^ 63 - 1

/-- `std::vector<char>::resize`: new elements are 0. -/
def resize (bytes : Bytes) (size : Nat) : Bytes :=
  bytes.take size ++ List.replicate (size - bytes.length) 0

/-- The bytes from `off` on are replaced. -/
def overwrite (bytes : Bytes) (off : Nat) (data : Bytes) : Bytes :=
  bytes.take off ++ data ++ bytes.drop (off + data.length)

namespace Memory

def new (mallocUnitSize : Nat) : Memory := ⟨false, false, [], 0, 0, 0, mallocUnitSize⟩

/-- `AvailableSize`. -/
def availableSize (m : Memory) : Nat := (m.capacity + 2 ^ 64 - m.length) % 2 ^ 64

/-- `AddCapacity`; `granted` says whether there is memory. -/
def addCapacity (granted : Bool) (sizeToAdd : Nat) (m : Memory) : Ret :=
  if sizeToAdd ≤ 0 then .ok m
  else if m.isShallowCopy then .aborted
  else
    let sizeToAdd :=
      if sizeToAdd % m.mallocUnitSize ≠ 0 then
        (sizeToAdd / m.mallocUnitSize + 1) * m.mallocUnitSize % 2 ^ 64
      else sizeToAdd
    let size := (m.capacity + sizeToAdd) % 2 ^ 64
    if m.byteArray.length < size ∧ (granted = false ∨ kMaxSize < size) then .thrown
    else
      .ok { m with byteArray := resize m.byteArray size,
                   capacity := (m.capacity + sizeToAdd) % 2 ^ 64,
                   hasByteArrayP := true }

/-- `len` bytes at `Ptr(off)` are bytes of the vector. -/
def Inside (off len : Nat) (m : Memory) : Prop :=
  m.hasByteArrayP = true ∧ off + len ≤ m.byteArray.length

instance (off len : Nat) (m : Memory) : Decidable (m.Inside off len) :=
  inferInstanceAs (Decidable (_ ∧ _))

/-- `AddLength`. -/
def addLength (n : Nat) (m : Memory) : Memory :=
  if n > 0 then { m with length := (m.length + n) % 2 ^ 64 } else m

/-- `memcpy` to `Ptr(length_)`. -/
def copy (data : Bytes) (m : Memory) : Ret :=
  if m.Inside m.length data.length then
    .ok { m with byteArray := overwrite m.byteArray m.length data,
                 length := (m.length + data.length) % 2 ^ 64 }
  else .outside

/-- `Write`; `none` is a null pointer. -/
def write (granted : Bool) (data : Option Bytes) (m : Memory) : Ret :=
  match data with
  | none => .ok m
  | some data =>
      if data.length ≤ 0 then .ok m
      else if m.isShallowCopy then .aborted
      else
        let needed := (m.length + data.length) % 2 ^ 64
        (if m.capacity < needed then m.addCapacity granted (needed - m.capacity)
          else .ok m).bind (copy data)

/-- `::read` of up to `kBufferSize` bytes to `Ptr(Length())`, and `AddLength`. -/
def read (outcome : ReadOutcome) (m : Memory) : Ret :=
  if m.Inside m.length kBufferSize then
    match outcome with
    | .data seg =>
        .ok (addLength seg.bytes.length
          { m with byteArray := overwrite m.byteArray m.length seg.bytes })
    | _ => .ok m
  else .outside

/-- `Socket::Receive`. -/
def receive (granted : Bool) (outcome : ReadOutcome) (m : Memory) : Ret :=
  (if m.availableSize < kBufferSize then m.addCapacity granted (kBufferSize - m.availableSize)
    else .ok m).bind (read outcome)

/-- `Seek`. -/
def seek (whence : TWhence) (pos : Nat) (m : Memory) : Memory :=
  match whence with
  | .kStart => { m with pos := 0 }
  | .kCurrent => { m with pos := (m.pos + pos) % 2 ^ 64 }
  | .kEnd => { m with pos := m.length }

/-- `Reset`. -/
def reset (m : Memory) : Memory :=
  { m with capacity := 0, length := 0, pos := 0, byteArray := [], hasByteArrayP := false,
           isShallowCopy := false }

/-- `ShallowCopyFrom`, from a pointer to `len` bytes that are not the
vector's. -/
def shallowCopyFrom (len : Nat) (m : Memory) : Memory :=
  { m with hasByteArrayP := false, length := len, isShallowCopy := true, byteArray := [] }

/-- The buffer that the other modules speak of. -/
def toAutoBuffer (m : Memory) : AutoBuffer := ⟨m.byteArray.take m.length, m.pos, none⟩

/-- The same for a shallow copy: `bytes` are those behind the pointer, in the
array of the connection `id`. -/
def seen (id : Nat) (bytes : Bytes) (m : Memory) : AutoBuffer :=
  if m.isShallowCopy then ⟨bytes.take m.length, m.pos, some id⟩ else m.toAutoBuffer

end Memory

/-! ## Runs -/

inductive Event
  | write (data : Option Bytes) (granted : Bool)
  | addCapacity (sizeToAdd : Nat) (granted : Bool)
  | receive (outcome : ReadOutcome) (granted : Bool)
  | seek (whence : TWhence) (pos : Nat)
  | reset

/-- A buffer, what has been written or received since the last `Reset`, and
whether memory outside of the vector was accessed. -/
structure BufferRun where
  memory : Memory
  data : Bytes
  outside : Bool

namespace BufferRun

def new (mallocUnitSize : Nat) : BufferRun := ⟨.new mallocUnitSize, [], false⟩

/-- The end of a call that should append these bytes.  An exception leaves
everything as it was. -/
def settle (s : BufferRun) (data : Bytes) : Ret → Option BufferRun
  | .ok memory => some { s with memory, data := s.data ++ data }
  | .thrown => some s
  | .aborted => none
  | .outside => some { s with outside := true }

def step (s : BufferRun) : Event → Option BufferRun
  | .write data granted => s.settle (data.getD []) (s.memory.write granted data)
  | .addCapacity sizeToAdd granted => s.settle [] (s.memory.addCapacity granted sizeToAdd)
  | .receive outcome granted => s.settle outcome.bytes (s.memory.receive granted outcome)
  | .seek whence pos => some { s with memory := s.memory.seek whence pos }
  | .reset => some { s with memory := s.memory.reset, data := [] }

/-- The buffer is an append-only byte string: the three sizes agree, no access
was outside of the vector, and the first `Length()` bytes are the data. -/
structure AppendOnly (s : BufferRun) : Prop where
  capacity : s.memory.capacity = s.memory.byteArray.length
  length : s.memory.length ≤ s.memory.capacity
  available : s.memory.availableSize + s.memory.length = s.memory.capacity
  inside : s.outside = false
  contents : s.memory.byteArray.take s.memory.length = s.data

end BufferRun

/-! ## Rounding up -/

/-- The next multiple of the unit. -/
def roundUp (unit n : Nat) : Nat := if n % unit ≠ 0 then (n / unit + 1) * unit else n

section RoundUp

variable {unit n : Nat}

theorem dvd_roundUp : unit ∣ roundUp unit n := by
  unfold roundUp
  split_ifs with h
  · exact Nat.dvd_mul_left _ _
  · exact Nat.dvd_of_mod_eq_zero (not_not.mp h)

theorem le_roundUp (hunit : 0 < unit) : n ≤ roundUp unit n := by
  unfold roundUp
  split_ifs with h
  · rw [Nat.add_mul, Nat.one_mul, Nat.mul_comm]
    have hdiv := Nat.div_add_mod n unit
    have hmod := Nat.mod_lt n hunit
    omega
  · exact Nat.le_refl n

theorem roundUp_lt (hunit : 0 < unit) : roundUp unit n < n + unit := by
  unfold roundUp
  split_ifs with h
  · rw [Nat.add_mul, Nat.one_mul, Nat.mul_comm]
    have hdiv := Nat.div_add_mod n unit
    omega
  · omega

end RoundUp

/-! ## Vectors -/

section Vectors

variable {bytes data : Bytes}

theorem length_resize (size : Nat) : (resize bytes size).length = size := by
  rw [resize, List.length_append, List.length_take, List.length_replicate]
  omega

theorem take_resize {size len : Nat} (hsize : len ≤ size) (hlen : len ≤ bytes.length) :
    (resize bytes size).take len = bytes.take len := by
  rw [resize, List.take_append_of_le_length (by rw [List.length_take]; omega), List.take_take,
    Nat.min_eq_left hsize]

theorem length_overwrite {off : Nat} (h : off + data.length ≤ bytes.length) :
    (overwrite bytes off data).length = bytes.length := by
  simp only [overwrite, List.length_append, List.length_take, List.length_drop]
  omega

theorem take_overwrite {off : Nat} (h : off + data.length ≤ bytes.length) :
    (overwrite bytes off data).take (off + data.length) = bytes.take off ++ data := by
  have hlen : (bytes.take off ++ data).length = off + data.length := by
    rw [List.length_append, List.length_take]
    omega
  rw [overwrite, ← hlen, List.take_left]

end Vectors

/-! ## The invariant -/

namespace Memory

/-- The invariant of a buffer that is not a shallow copy. -/
structure Valid (m : Memory) : Prop where
  unit_pos : 0 < m.mallocUnitSize
  unit_lt : m.mallocUnitSize < 2 ^ 64
  owned : m.isShallowCopy = false
  size : m.capacity = m.byteArray.length
  fits : m.length ≤ m.capacity
  dvd : m.mallocUnitSize ∣ m.capacity
  small : m.capacity < 2 ^ 63
  hasPtr : 0 < m.capacity → m.hasByteArrayP = true

variable {m : Memory}

theorem valid_new {unit : Nat} (hpos : 0 < unit) (hlt : unit < 2 ^ 64) : (new unit).Valid where
  unit_pos := hpos
  unit_lt := hlt
  owned := rfl
  size := rfl
  fits := Nat.le_refl 0
  dvd := Nat.dvd_zero _
  small := Nat.two_pow_pos 63
  hasPtr h := nomatch h

theorem Valid.availableSize_eq (h : m.Valid) : m.availableSize = m.capacity - m.length := by
  have hfits := h.fits
  have hsmall := h.small
  unfold availableSize
  omega

theorem Valid.inside (h : m.Valid) {off len : Nat} (hpos : 0 < m.capacity)
    (hlen : off + len ≤ m.capacity) : m.Inside off len :=
  ⟨h.hasPtr hpos, h.size ▸ hlen⟩

/-- What growing does. -/
structure Grown (m m' : Memory) (sizeToAdd : Nat) : Prop where
  valid : m'.Valid
  length : m'.length = m.length
  unit : m'.mallocUnitSize = m.mallocUnitSize
  room : m.capacity + sizeToAdd ≤ m'.capacity
  contents : m'.toAutoBuffer = m.toAutoBuffer

/-- **Growing** keeps the contents and the invariant, or throws, unless the
new capacity wraps around. -/
theorem addCapacity_spec (h : m.Valid) (granted : Bool) {sizeToAdd : Nat}
    (hwrap : m.capacity + roundUp m.mallocUnitSize sizeToAdd < 2 ^ 64) :
    m.addCapacity granted sizeToAdd = .thrown ∨
      ∃ m', m.addCapacity granted sizeToAdd = .ok m' ∧ Grown m m' sizeToAdd := by
  have hle := le_roundUp (n := sizeToAdd) h.unit_pos
  have hround : (if sizeToAdd % m.mallocUnitSize ≠ 0 then
      (sizeToAdd / m.mallocUnitSize + 1) * m.mallocUnitSize % 2 ^ 64 else sizeToAdd) =
      roundUp m.mallocUnitSize sizeToAdd := by
    unfold roundUp at hwrap ⊢
    split_ifs at hwrap ⊢ with hmod
    · exact Nat.mod_eq_of_lt (by omega)
    · rfl
  unfold addCapacity
  by_cases hzero : sizeToAdd ≤ 0
  · rw [if_pos hzero]
    exact Or.inr ⟨m, rfl, h, rfl, rfl, by omega, rfl⟩
  · rw [if_neg hzero, if_neg (by rw [h.owned]; decide)]
    simp only [hround, Nat.mod_eq_of_lt hwrap]
    split_ifs with hthrow
    · exact Or.inl rfl
    · refine Or.inr ⟨_, rfl, ?_, rfl, rfl, ?_, ?_⟩
      · have hsize := h.size
        have hfits := h.fits
        refine
          { unit_pos := h.unit_pos
            unit_lt := h.unit_lt
            owned := h.owned
            size := (length_resize _).symm
            fits := ?_
            dvd := Nat.dvd_add h.dvd dvd_roundUp
            small := ?_
            hasPtr := fun _ => rfl }
        · show m.length ≤ m.capacity + _
          omega
        · show m.capacity + _ < 2 ^ 63
          have hgrows : m.byteArray.length <
              m.capacity + roundUp m.mallocUnitSize sizeToAdd := by omega
          have hmax : ¬ kMaxSize < m.capacity + roundUp m.mallocUnitSize sizeToAdd :=
            fun hlt => hthrow ⟨hgrows, Or.inr hlt⟩
          unfold kMaxSize at hmax
          omega
      · show _ ≤ m.capacity + _
        omega
      · have hfits := h.fits
        have hsize := h.size
        show (⟨(resize m.byteArray _).take m.length, m.pos, none⟩ : AutoBuffer) = _
        rw [take_resize (by omega) (by omega)]
        rfl

/-- What a call that appends these bytes comes to, unless it throws. -/
def Appends (m : Memory) (data : Bytes) (ret : Ret) : Prop :=
  ret = .thrown ∨
    ∃ m', ret = .ok m' ∧ m'.Valid ∧ m'.mallocUnitSize = m.mallocUnitSize ∧
      m'.toAutoBuffer = m.toAutoBuffer.write data

/-- Bytes that are put behind the others. -/
theorem Valid.append (h : m.Valid) {data : Bytes} (hroom : m.length + data.length ≤ m.capacity) :
    Appends m data (.ok { m with byteArray := overwrite m.byteArray m.length data,
                                 length := (m.length + data.length) % 2 ^ 64 }) := by
  have hsmall := h.small
  have hinside : m.length + data.length ≤ m.byteArray.length := h.size ▸ hroom
  rw [Nat.mod_eq_of_lt (by omega)]
  refine Or.inr ⟨_, rfl, ?_, rfl, ?_⟩
  · exact
      { unit_pos := h.unit_pos
        unit_lt := h.unit_lt
        owned := h.owned
        size := h.size.trans (length_overwrite hinside).symm
        fits := hroom
        dvd := h.dvd
        small := h.small
        hasPtr := h.hasPtr }
  · show (⟨(overwrite m.byteArray m.length data).take _, m.pos, none⟩ : AutoBuffer) = _
    rw [take_overwrite hinside]
    rfl

theorem Valid.appends_nil (h : m.Valid) : Appends m [] (.ok m) := by
  refine Or.inr ⟨m, rfl, h, rfl, ?_⟩
  unfold AutoBuffer.write
  rw [List.append_nil]

theorem Grown.appends_nil {m' : Memory} {n : Nat} (h : Grown m m' n) : Appends m [] (.ok m') := by
  refine Or.inr ⟨m', rfl, h.valid, h.unit, ?_⟩
  rw [h.contents, AutoBuffer.write, List.append_nil]

/-- A call that may grow the buffer first, and then appends. -/
theorem appends_bind {n : Nat} {data : Bytes} {ret : Ret} {f : Memory → Ret}
    (hret : ret = .thrown ∨ ∃ m', ret = .ok m' ∧ Grown m m' n)
    (hf : ∀ m', Grown m m' n → Appends m' data (f m')) : Appends m data (ret.bind f) := by
  rcases hret with rfl | ⟨m', rfl, hgrown⟩
  · exact Or.inl rfl
  · rcases hf m' hgrown with hthrown | ⟨m'', hok, hvalid, hunit, hcontents⟩
    · exact Or.inl hthrown
    · exact Or.inr ⟨m'', hok, hvalid, hunit.trans hgrown.unit, by rw [hcontents, hgrown.contents]⟩

theorem copy_spec (h : m.Valid) {data : Bytes} (hdata : 0 < data.length)
    (hroom : m.length + data.length ≤ m.capacity) : Appends m data (m.copy data) := by
  rw [copy, if_pos (h.inside (by omega) hroom)]
  exact h.append hroom

/-- **`Write`** appends, when the capacity it asks for does not wrap around. -/
theorem write_spec (h : m.Valid) (granted : Bool) (data : Option Bytes)
    (hwrap : m.capacity < m.length + (data.getD []).length →
      m.capacity + roundUp m.mallocUnitSize (m.length + (data.getD []).length - m.capacity) <
        2 ^ 64) :
    Appends m (data.getD []) (m.write granted data) := by
  cases data with
  | none => exact h.appends_nil
  | some data =>
      simp only [Option.getD_some] at hwrap ⊢
      have hsmall := h.small
      have hle := le_roundUp (n := m.length + data.length - m.capacity) h.unit_pos
      have hneeded : (m.length + data.length) % 2 ^ 64 = m.length + data.length := by
        apply Nat.mod_eq_of_lt
        by_cases hgrow : m.capacity < m.length + data.length
        · have hfits := hwrap hgrow
          omega
        · omega
      unfold write
      by_cases hzero : data.length ≤ 0
      · simp only [if_pos hzero]
        rw [List.eq_nil_of_length_eq_zero (Nat.le_zero.mp hzero)]
        exact h.appends_nil
      · simp only [if_neg hzero, h.owned, Bool.false_eq_true, if_false, hneeded]
        by_cases hgrow : m.capacity < m.length + data.length
        · rw [if_pos hgrow]
          refine appends_bind (addCapacity_spec h granted (hwrap hgrow)) fun m' hgrown => ?_
          have hmore := hgrown.room
          refine copy_spec hgrown.valid (by omega) ?_
          rw [hgrown.length]
          omega
        · rw [if_neg hgrow]
          exact copy_spec h (by omega) (Nat.le_of_not_lt hgrow)

/-- What `Receive` asks for does not wrap around: a capacity that is not 0 is
a multiple of the unit. -/
theorem Valid.receive_noWrap (h : m.Valid) {n : Nat} (hn : n ≤ kBufferSize) :
    m.capacity + roundUp m.mallocUnitSize n < 2 ^ 64 := by
  have hsmall := h.small
  have hlt := roundUp_lt (n := n) h.unit_pos
  have hunit := h.unit_lt
  have hcapacity : m.capacity = 0 ∨ m.mallocUnitSize ≤ m.capacity :=
    (Nat.eq_zero_or_pos m.capacity).imp_right fun hpos => Nat.le_of_dvd hpos h.dvd
  unfold kBufferSize at hn
  by_cases hbig : n < m.mallocUnitSize
  · have hround : roundUp m.mallocUnitSize n ≤ m.mallocUnitSize := by
      unfold roundUp
      rw [Nat.div_eq_of_lt hbig]
      split_ifs <;> omega
    omega
  · omega

theorem read_spec (h : m.Valid) (outcome : ReadOutcome)
    (hroom : m.length + kBufferSize ≤ m.capacity) :
    Appends m outcome.bytes (m.read outcome) := by
  have hpos : 0 < kBufferSize := by decide
  unfold read
  rw [if_pos (h.inside (Nat.lt_of_lt_of_le hpos (Nat.le_of_add_left_le hroom)) hroom)]
  cases outcome with
  | data seg =>
      have hfits := seg.fits
      simp only [ReadOutcome.bytes, addLength, if_pos seg.nonempty]
      exact h.append (by omega)
  | _ => exact h.appends_nil

/-- **`Socket::Receive`** appends what was read. -/
theorem receive_spec (h : m.Valid) (granted : Bool) (outcome : ReadOutcome) :
    Appends m outcome.bytes (m.receive granted outcome) := by
  have havailable := h.availableSize_eq
  have hfits := h.fits
  unfold receive
  by_cases hgrow : m.availableSize < kBufferSize
  · have hwrap := h.receive_noWrap (Nat.sub_le kBufferSize m.availableSize)
    rw [if_pos hgrow]
    refine appends_bind (addCapacity_spec h granted hwrap) fun m' hgrown => ?_
    have hmore := hgrown.room
    refine read_spec hgrown.valid outcome ?_
    rw [hgrown.length]
    omega
  · rw [if_neg hgrow]
    exact read_spec h outcome (by omega)

theorem Valid.seek (h : m.Valid) (whence : TWhence) (pos : Nat) :
    (m.seek whence pos).Valid ∧
      (m.seek whence pos).byteArray.take (m.seek whence pos).length =
        m.byteArray.take m.length := by
  cases whence <;>
    exact ⟨⟨h.unit_pos, h.unit_lt, h.owned, h.size, h.fits, h.dvd, h.small, h.hasPtr⟩, rfl⟩

theorem Valid.reset (h : m.Valid) : m.reset.Valid where
  unit_pos := h.unit_pos
  unit_lt := h.unit_lt
  owned := rfl
  size := rfl
  fits := Nat.le_refl 0
  dvd := Nat.dvd_zero _
  small := Nat.two_pow_pos 63
  hasPtr h := nomatch h

/-! ## Shallow copies -/

/-- **A shallow copy** shows the bytes it points to. -/
theorem seen_shallowCopyFrom (m : Memory) (id : Nat) (bytes : Bytes) :
    (m.shallowCopyFrom bytes.length).seen id bytes = m.toAutoBuffer.shallowCopyFrom id bytes := by
  have hshallow : (m.shallowCopyFrom bytes.length).isShallowCopy = true := rfl
  unfold seen
  rw [if_pos hshallow]
  show (⟨bytes.take bytes.length, m.pos, some id⟩ : AutoBuffer) = _
  rw [List.take_length]
  rfl

/-- Nothing is read from its own vector, and nothing written to it. -/
theorem not_inside_shallowCopyFrom (m : Memory) (len off n : Nat) :
    ¬ (m.shallowCopyFrom len).Inside off n :=
  fun h => Bool.false_ne_true h.1

theorem write_shallowCopyFrom (m : Memory) (len : Nat) (granted : Bool) {data : Bytes}
    (hdata : data ≠ []) : (m.shallowCopyFrom len).write granted (some data) = .aborted := by
  have hlength : ¬ data.length ≤ 0 := by
    rw [Nat.le_zero, List.length_eq_zero_iff]
    exact hdata
  unfold write
  simp only [if_neg hlength]
  exact if_pos rfl

/-- **`Reset` and `Write`** give it bytes of its own. -/
theorem write_reset_shallowCopyFrom (h : m.Valid) (len : Nat) (granted : Bool) (data : Bytes)
    (hwrap : roundUp m.mallocUnitSize data.length < 2 ^ 64) :
    Appends m.reset data ((m.shallowCopyFrom len).reset.write granted (some data)) := by
  have hreset : (m.shallowCopyFrom len).reset = m.reset := rfl
  rw [hreset]
  refine write_spec h.reset granted (some data) fun _ => ?_
  show 0 + roundUp m.mallocUnitSize (0 + data.length - 0) < 2 ^ 64
  rwa [Nat.zero_add, Nat.zero_add]

end Memory

namespace BufferRun

variable {s s' : BufferRun}

/-- The invariant of a run. -/
structure Invariant (s : BufferRun) : Prop where
  valid : s.memory.Valid
  inside : s.outside = false
  contents : s.memory.byteArray.take s.memory.length = s.data

theorem invariant_new {unit : Nat} (hpos : 0 < unit) (hlt : unit < 2 ^ 64) :
    (new unit).Invariant :=
  ⟨Memory.valid_new hpos hlt, rfl, rfl⟩

theorem Invariant.appendOnly (h : s.Invariant) : s.AppendOnly where
  capacity := h.valid.size
  length := h.valid.fits
  available := by
    have hfits := h.valid.fits
    rw [h.valid.availableSize_eq]
    omega
  inside := h.inside
  contents := h.contents

/-- A call that appends keeps the invariant. -/
theorem Invariant.settle (h : s.Invariant) {data : Bytes} {ret : Ret}
    (hret : Memory.Appends s.memory data ret) (hs : s.settle data ret = some s') :
    s'.Invariant := by
  rcases hret with rfl | ⟨m', rfl, hvalid, -, hcontents⟩
  · cases hs
    exact h
  · cases hs
    refine ⟨hvalid, h.inside, ?_⟩
    have hbytes := congrArg AutoBuffer.bytes hcontents
    exact hbytes.trans (congrArg (· ++ data) h.contents)

/-- The capacity that a `Write` or an `AddCapacity` asks for does not wrap
around. -/
def NoWrap (s : BufferRun) : Event → Prop
  | .write data _ =>
      s.memory.capacity < s.memory.length + (data.getD []).length →
        s.memory.capacity + roundUp s.memory.mallocUnitSize
          (s.memory.length + (data.getD []).length - s.memory.capacity) < 2 ^ 64
  | .addCapacity sizeToAdd _ =>
      s.memory.capacity + roundUp s.memory.mallocUnitSize sizeToAdd < 2 ^ 64
  | _ => True

theorem Invariant.step {e : Event} (h : s.Invariant) (hwrap : s.NoWrap e)
    (hstep : s.step e = some s') : s'.Invariant := by
  cases e with
  | write data granted => exact h.settle (Memory.write_spec h.valid granted data hwrap) hstep
  | addCapacity sizeToAdd granted =>
      refine h.settle ?_ hstep
      rcases Memory.addCapacity_spec h.valid granted hwrap with hthrown | ⟨m', hm', hgrown⟩
      · exact Or.inl hthrown
      · rw [hm']
        exact hgrown.appends_nil
  | receive outcome granted => exact h.settle (Memory.receive_spec h.valid granted outcome) hstep
  | seek whence pos =>
      cases hstep
      obtain ⟨hvalid, hcontents⟩ := h.valid.seek whence pos
      exact ⟨hvalid, h.inside, hcontents.trans h.contents⟩
  | reset =>
      cases hstep
      exact ⟨h.valid.reset, h.inside, rfl⟩

/-- **The buffer is an append-only byte string** in every run in which no
capacity wraps around. -/
theorem appendOnly_of_noWrap {unit : Nat} (hpos : 0 < unit) (hlt : unit < 2 ^ 64)
    {es : List Event} (hes : Along step NoWrap (new unit) es) :
    ∀ s ∈ trace step (new unit) es, s.AppendOnly := fun s hs =>
  (trace_invariant (fun _ _ _ h hwrap hstep => h.step hwrap hstep) (invariant_new hpos hlt) hes s
    hs).appendOnly

instance (s : BufferRun) (e : Event) : Decidable (s.NoWrap e) := by
  cases e <;> unfold NoWrap <;> infer_instance

/-- Every operation, with a unit of four bytes and one refused allocation. -/
def someEvents : List Event :=
  [.write (some (lit "abcde")) true, .addCapacity 3 true, .addCapacity 1 false,
    .receive (.data ⟨lit "fg", by decide, by decide⟩) true, .seek .kCurrent 2, .write none true,
    .reset, .write (some (lit "h")) true, .seek .kEnd 0]

theorem appendOnly_someEvents :
    ∃ s, run step (new 4) someEvents = some s ∧ s.AppendOnly := by
  have hsome : (run step (new 4) someEvents).isSome = true := by decide +kernel
  obtain ⟨s, hs⟩ := Option.isSome_iff_exists.mp hsome
  exact ⟨s, hs, appendOnly_of_noWrap (by decide) (by decide) (by decide +kernel) s
    (run_mem_trace hs)⟩

/-- One byte is written, and then 2⁶⁴ - 128 bytes are to be added. -/
def hugeAdd : List Event := [.write (some (lit "a")) true, .addCapacity (2 ^ 64 - 128) true]

/-- The vector is empty, and the length is 1. -/
theorem not_appendOnly_hugeAdd : ¬ ∀ s ∈ trace step (new 128) hugeAdd, s.AppendOnly := by
  intro h
  have hrun : (run step (new 128) hugeAdd).map
      (fun s => (s.memory.length, s.memory.capacity)) = some (1, 0) := by decide +kernel
  obtain ⟨s, hs, hsizes⟩ := Option.map_eq_some_iff.mp hrun
  have hlength := (h s (run_mem_trace hs)).length
  simp only [Prod.mk.injEq] at hsizes
  omega

end BufferRun

end Unixtar.AutoBuffer
