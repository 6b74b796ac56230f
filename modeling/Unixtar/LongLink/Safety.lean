import Unixtar.Lib.Checked
import Unixtar.Lib.Run
import Unixtar.LongLink.WireFormat

/-!
# Memory safety of `WebSocketParser`

The functions of the parser once more, with every read of the buffer and
every subtraction of lengths checked, and with the `while (true)` of `DoParse`
as a loop that may run for ever.  Under one invariant over all positions they
do not fault, and the loop returns; the invariant is kept by appending to the
buffer, by `DoParse` and by `Reset`.

## Main results

* `resolve_advances` — a round does not fault, keeps the invariant, and moves
  the position forward when it succeeds.
* `doParse_spec` — `DoParse` returns, and keeps the invariant.
* `doParse_eq` — it returns what the unchecked `DoParse` does, as long as the
  `int` index counts every byte.
-/

namespace Unixtar.Ws.Safety

open Unixtar.Lib

/-! ## The checked functions -/

/-- `_ResolveFirstByte`. -/
def resolveFirstByte (buf : Bytes) (p : WebSocketParser) : Checked (WebSocketParser × Bool) := do
  let first ← Checked.readAt buf 0
  .ok ({ packet := p.packet.setFirstByte first, position := .kPayloadLen,
         resolvedLen := p.resolvedLen + 1 }, true)

/-- `_ResolvePayloadLen`. -/
def resolvePayloadLen (buf : Bytes) (p : WebSocketParser) :
    Checked (WebSocketParser × Bool) := do
  let unresolvedLen ← Checked.sub buf.length p.resolvedLen
  if unresolvedLen < 1 then .ok (p, false)
  else do
    let second ← Checked.readAt buf 1
    let isMask : Bool := second &&& 0x80 ≠ 0
    let payloadLen := second &&& 0x7f
    let masked := { p.packet with mask := isMask }
    if payloadLen = 126 ∨ payloadLen = 127 then
      .ok ({ packet := { masked with payloadLen }, position := .kExtendedPayloadLen,
             resolvedLen := p.resolvedLen + 1 }, true)
    else if payloadLen < 126 then
      .ok ({ packet := { masked with payloadLen },
             position := if isMask then .kMaskingKey else .kPayload,
             resolvedLen := p.resolvedLen + 1 }, true)
    else .ok ({ p with packet := masked, position := .kError }, false)

/-- The loop of `_ResolveExtendedPayloadLen` behind the code 127. -/
def extendedLenLoop (buf : Bytes) (off : Nat) :
    Nat → Nat → Option Nat → Checked (Option Nat)
  | 0, _, acc => .ok acc
  | left + 1, i, acc => do
      let c ← Checked.readAt buf (off + i)
      let shifted := shiftedByte c ((7 - i) * 8)
      extendedLenLoop buf off left (i + 1)
        (acc.bind fun sum => shifted.map fun s => (sum + s) % 2 ^ 64)

/-- `_ResolveExtendedPayloadLen`. -/
def resolveExtendedPayloadLen (buf : Bytes) (p : WebSocketParser) :
    Checked (WebSocketParser × Bool) := do
  let unresolvedLen ← Checked.sub buf.length p.resolvedLen
  if p.packet.payloadLen = 126 then
    if unresolvedLen < 2 then .ok (p, false)
    else do
      let high ← Checked.readAt buf p.resolvedLen
      let low ← Checked.readAt buf (p.resolvedLen + 1)
      .ok (WebSocketParser.takeExtendedLen (some (high.toNat * 256 + low.toNat)) 2 p)
  else if p.packet.payloadLen = 127 then
    if unresolvedLen < 8 then .ok (p, false)
    else do
      let len ← extendedLenLoop buf p.resolvedLen 8 0 (some 0)
      .ok (WebSocketParser.takeExtendedLen len 8 p)
  else .ok ({ p with position := .kError }, false)

/-- `_ResolveMaskingKey`; `memcpy` reads four bytes. -/
def resolveMaskingKey (buf : Bytes) (p : WebSocketParser) :
    Checked (WebSocketParser × Bool) := do
  let unresolvedLen ← Checked.sub buf.length p.resolvedLen
  if unresolvedLen < 4 then .ok (p, false)
  else if p.packet.mask then do
    let key ← Checked.slice buf p.resolvedLen 4
    .ok ({ packet := { p.packet with maskingKey := keyAt key 0 }, position := .kPayload,
           resolvedLen := p.resolvedLen + 4 }, true)
  else .ok (p, true)

/-- The loop of `_ResolvePayload` from the index `i` on, with `left` rounds to
go. -/
def payloadLoop (buf : Bytes) (p : WebSocketParser) : Nat → Nat → Bytes → Checked Bytes
  | 0, _, payload => .ok payload
  | left + 1, i, payload => do
      let raw ← Checked.readAt buf (p.resolvedLen + i)
      let decoded := if p.packet.mask then raw ^^^ p.packet.maskingKey.byte i else raw
      payloadLoop buf p left (i + 1) (payload ++ [decoded])

/-- The end of `_ResolvePayload`, with the payload put together. -/
def takePayload (payload : Bytes) (unresolvedLen : Nat) (p : WebSocketParser) :
    WebSocketParser × Bool :=
  let p := { p with packet := { p.packet with payload },
                    resolvedLen := p.resolvedLen + unresolvedLen }
  if payload.length = p.packet.payloadLen.toNat then ({ p with position := .kEnd }, true)
  else if payload.length > p.packet.payloadLen.toNat then
    ({ p with position := .kError }, false)
  else (p, false)

variable (l : IntLoop)

/-- `_ResolvePayload`. -/
def resolvePayload (buf : Bytes) (p : WebSocketParser) : Checked (WebSocketParser × Bool) := do
  let unresolvedLen ← Checked.sub buf.length p.resolvedLen
  if unresolvedLen = 0 then .ok (p, false)
  else do
    let payload ← payloadLoop buf p (l.rounds unresolvedLen) 0 p.packet.payload
    .ok (takePayload payload unresolvedLen p)

/-- The branch of the loop of `DoParse` that the position selects. -/
def resolve (buf : Bytes) (p : WebSocketParser) : Checked (WebSocketParser × Bool) :=
  match p.position with
  | .kNone => resolveFirstByte buf { p with resolvedLen := 0, position := .kFirstByte }
  | .kFirstByte => resolveFirstByte buf p
  | .kPayloadLen => resolvePayloadLen buf p
  | .kExtendedPayloadLen => resolveExtendedPayloadLen buf p
  | .kMaskingKey => resolveMaskingKey buf p
  | .kPayload => resolvePayload l buf p
  | .kEnd => .ok (p, false)
  | .kError => .ok (p, false)

/-- One round of the loop of `DoParse`. -/
def round (buf : Bytes) (p : WebSocketParser) :
    Checked (Round WebSocketParser (WebSocketParser × ParseRet)) := do
  let (p, success) ← resolve l buf p
  if p.position = .kEnd then .ok (.done (p, .returned 0))
  else if p.position = .kError then .ok (.done (p, .returned (-1)))
  else if success = false then .ok (.done (p, .returned 0))
  else .ok (.next p)

/-- `DoParse`, with its loop cut off after `n` rounds. -/
def doParse (buf : Bytes) (p : WebSocketParser) (n : Nat) :
    Checked (Option (WebSocketParser × ParseRet)) :=
  if p.packet.isHandShaken = false then .ok (some (p, .crashed))
  else do
    let unresolvedLen ← Checked.sub buf.length p.resolvedLen
    if unresolvedLen = 0 then .ok (some (p, .returned 0))
    else whileTrue (round l buf) n p

/-! ## The invariant -/

/-- Where the masking key starts, by the length code. -/
def keyStart (packet : WebSocketPacket) : Nat :=
  2 + if packet.payloadLen = 126 then 2 else if packet.payloadLen = 127 then 8 else 0

/-- The header size that the length code and the mask flag imply. -/
def headerSize (packet : WebSocketPacket) : Nat :=
  keyStart packet + if packet.mask then 4 else 0

/-- What is resolved in each position. -/
def Place (p : WebSocketParser) : Prop :=
  match p.position with
  | .kNone | .kFirstByte => p.resolvedLen = 0 ∧ p.packet.payload = []
  | .kPayloadLen => p.resolvedLen = 1 ∧ p.packet.payload = []
  | .kExtendedPayloadLen =>
      p.resolvedLen = 2 ∧ p.packet.payload = [] ∧
        (p.packet.payloadLen = 126 ∨ p.packet.payloadLen = 127)
  | .kMaskingKey =>
      p.resolvedLen = keyStart p.packet ∧ p.packet.payload = [] ∧ p.packet.mask = true
  | .kPayload | .kEnd => p.resolvedLen = headerSize p.packet + p.packet.payload.length
  | .kError => True

/-- The invariant of the parser and its buffer. -/
structure Inv (buf : Bytes) (p : WebSocketParser) : Prop where
  shaken : p.packet.isHandShaken = true
  resolved : p.resolvedLen ≤ buf.length
  place : Place p

/-- How many rounds the position is away from the last one. -/
def rank : TPosition → Nat
  | .kNone | .kFirstByte => 5
  | .kPayloadLen => 4
  | .kExtendedPayloadLen => 3
  | .kMaskingKey => 2
  | .kPayload => 1
  | .kEnd | .kError => 0

/-- A round that does not fault keeps the invariant and, when it succeeds,
moves the position forward. -/
def Advances (buf : Bytes) (p : WebSocketParser) (r : Checked (WebSocketParser × Bool)) : Prop :=
  ∃ q success, r = .ok (q, success) ∧ Inv buf q ∧
    (success = true → rank q.position < rank p.position)

theorem advances_stop {buf : Bytes} {p q : WebSocketParser} (h : Inv buf q) :
    Advances buf p (.ok (q, false)) :=
  ⟨q, false, rfl, h, fun hf => absurd hf Bool.false_ne_true⟩

theorem advances_to {buf : Bytes} {p q : WebSocketParser} {a b : TPosition}
    (hp : p.position = a) (hq : q.position = b) (hrank : rank b < rank a) (h : Inv buf q) :
    Advances buf p (.ok (q, true)) := by
  refine ⟨q, true, rfl, h, fun _ => ?_⟩
  rw [hp, hq]
  exact hrank

/-! ## Rounds -/

section Rounds

variable {buf : Bytes} {p : WebSocketParser}

theorem resolveFirstByte_advances (hbuf : 0 < buf.length) (h : Inv buf p)
    (hpos : p.position = .kFirstByte) : Advances buf p (resolveFirstByte buf p) := by
  have hplace := h.place
  simp only [Place, hpos] at hplace
  unfold resolveFirstByte
  rw [Checked.readAt_of_lt hbuf, Checked.ok_bind]
  refine advances_to (b := .kPayloadLen) hpos rfl (by decide) ⟨h.shaken, ?_, ?_⟩
  · show p.resolvedLen + 1 ≤ buf.length
    omega
  · exact ⟨by show p.resolvedLen + 1 = 1; omega, hplace.2⟩

theorem resolvePayloadLen_advances (h : Inv buf p) (hpos : p.position = .kPayloadLen) :
    Advances buf p (resolvePayloadLen buf p) := by
  have hplace := h.place
  have hresolved := h.resolved
  simp only [Place, hpos] at hplace
  unfold resolvePayloadLen
  rw [Checked.sub_of_le hresolved, Checked.ok_bind]
  by_cases hshort : buf.length - p.resolvedLen < 1
  · rw [if_pos hshort]
    exact advances_stop h
  · have hread : 1 < buf.length := by omega
    rw [if_neg hshort, Checked.readAt_of_lt hread, Checked.ok_bind]
    dsimp only
    by_cases hext : buf[1] &&& 0x7f = 126 ∨ buf[1] &&& 0x7f = 127
    · rw [if_pos hext]
      refine advances_to (b := .kExtendedPayloadLen) hpos rfl (by decide) ⟨h.shaken, ?_, ?_⟩
      · show p.resolvedLen + 1 ≤ buf.length
        omega
      · exact ⟨by show p.resolvedLen + 1 = 2; omega, hplace.2, hext⟩
    · rw [if_neg hext]
      by_cases hcode : buf[1] &&& 0x7f < 126
      · have hstart : ∀ packet : WebSocketPacket, packet.payloadLen = buf[1] &&& 0x7f →
            keyStart packet = 2 := by
          intro packet hpacket
          obtain ⟨h126, h127⟩ := not_or.1 hext
          rw [keyStart, hpacket, if_neg h126, if_neg h127]
        rw [if_pos hcode]
        by_cases hmask : buf[1] &&& 0x80 ≠ 0
        · rw [if_pos (decide_eq_true hmask)]
          refine advances_to (b := .kMaskingKey) hpos rfl (by decide) ⟨h.shaken, ?_, ?_⟩
          · show p.resolvedLen + 1 ≤ buf.length
            omega
          · refine ⟨?_, hplace.2, decide_eq_true hmask⟩
            rw [hstart _ rfl]
            show p.resolvedLen + 1 = 2
            omega
        · rw [if_neg (by rw [decide_eq_false hmask]; exact Bool.false_ne_true)]
          refine advances_to (b := .kPayload) hpos rfl (by decide) ⟨h.shaken, ?_, ?_⟩
          · show p.resolvedLen + 1 ≤ buf.length
            omega
          · show p.resolvedLen + 1 = headerSize _ + p.packet.payload.length
            rw [headerSize, hstart _ rfl, hplace.2]
            simp only [decide_eq_false hmask, Bool.false_eq_true, if_false, List.length_nil]
            omega
      · rw [if_neg hcode]
        exact advances_stop ⟨h.shaken, hresolved, trivial⟩

/-- Behind the extended length comes the key of a masked frame, else the
payload. -/
theorem takeExtendedLen_advances (h : Inv buf p) (hpos : p.position = .kExtendedPayloadLen)
    {width : Nat} (hwidth : keyStart p.packet = 2 + width)
    (henough : p.resolvedLen + width ≤ buf.length) (len : Option Nat) :
    Advances buf p (.ok (WebSocketParser.takeExtendedLen len width p)) := by
  have hplace := h.place
  simp only [Place, hpos] at hplace
  unfold WebSocketParser.takeExtendedLen
  by_cases hmask : p.packet.mask = true
  · rw [if_pos hmask]
    refine advances_to (b := .kMaskingKey) hpos rfl (by decide) ⟨h.shaken, henough, ?_⟩
    refine ⟨?_, hplace.2.1, hmask⟩
    show p.resolvedLen + width = keyStart p.packet
    omega
  · rw [if_neg hmask]
    refine advances_to (b := .kPayload) hpos rfl (by decide) ⟨h.shaken, henough, ?_⟩
    show p.resolvedLen + width =
      keyStart p.packet + (if p.packet.mask then 4 else 0) + p.packet.payload.length
    rw [if_neg hmask, hplace.2.1, List.length_nil]
    omega

/-- The eight bytes behind the code 127 are read as the unchecked loop reads
them. -/
theorem extendedLenLoop_eq {off left i : Nat} (h : off + i + left ≤ buf.length)
    (acc : Option Nat) :
    extendedLenLoop buf off left i acc = .ok (Ws.extendedLenLoop buf off left i acc) := by
  induction left generalizing i acc with
  | zero => rfl
  | succ left ih =>
      have hread : off + i < buf.length := by omega
      rw [extendedLenLoop, Checked.readAt_of_lt hread, Checked.ok_bind, Ws.extendedLenLoop,
        byteAt_eq_getElem hread]
      exact ih (by omega) _

theorem resolveExtendedPayloadLen_advances (h : Inv buf p)
    (hpos : p.position = .kExtendedPayloadLen) :
    Advances buf p (resolveExtendedPayloadLen buf p) := by
  have hplace := h.place
  have hresolved := h.resolved
  simp only [Place, hpos] at hplace
  unfold resolveExtendedPayloadLen
  rw [Checked.sub_of_le hresolved, Checked.ok_bind]
  by_cases h126 : p.packet.payloadLen = 126
  · have hstart : keyStart p.packet = 2 + 2 := by rw [keyStart, if_pos h126]
    rw [if_pos h126]
    by_cases hshort : buf.length - p.resolvedLen < 2
    · rw [if_pos hshort]
      exact advances_stop h
    · have hhigh : p.resolvedLen < buf.length := by omega
      have hlow : p.resolvedLen + 1 < buf.length := by omega
      rw [if_neg hshort, Checked.readAt_of_lt hhigh, Checked.ok_bind,
        Checked.readAt_of_lt hlow, Checked.ok_bind]
      exact takeExtendedLen_advances h hpos hstart (by omega) _
  · have h127 : p.packet.payloadLen = 127 := hplace.2.2.resolve_left h126
    have hstart : keyStart p.packet = 2 + 8 := by rw [keyStart, if_neg h126, if_pos h127]
    rw [if_neg h126, if_pos h127]
    by_cases hshort : buf.length - p.resolvedLen < 8
    · rw [if_pos hshort]
      exact advances_stop h
    · rw [if_neg hshort, extendedLenLoop_eq (by omega), Checked.ok_bind]
      exact takeExtendedLen_advances h hpos hstart (by omega) _

/-- The step that would not make progress without a mask flag. -/
theorem resolveMaskingKey_advances (h : Inv buf p) (hpos : p.position = .kMaskingKey) :
    Advances buf p (resolveMaskingKey buf p) := by
  have hplace := h.place
  have hresolved := h.resolved
  simp only [Place, hpos] at hplace
  obtain ⟨hstart, hpayload, hmask⟩ := hplace
  unfold resolveMaskingKey
  rw [Checked.sub_of_le hresolved, Checked.ok_bind]
  by_cases hshort : buf.length - p.resolvedLen < 4
  · rw [if_pos hshort]
    exact advances_stop h
  · rw [if_neg hshort, if_pos hmask, Checked.slice_of_le (by omega), Checked.ok_bind]
    refine advances_to (b := .kPayload) hpos rfl (by decide) ⟨h.shaken, ?_, ?_⟩
    · show p.resolvedLen + 4 ≤ buf.length
      omega
    · show p.resolvedLen + 4 =
        keyStart p.packet + (if p.packet.mask then 4 else 0) + p.packet.payload.length
      rw [if_pos hmask, hpayload, List.length_nil]
      omega

/-- The loop of `_ResolvePayload` reads the bytes it decodes. -/
theorem payloadLoop_eq {left i : Nat} (h : p.resolvedLen + i + left ≤ buf.length)
    (payload : Bytes) :
    payloadLoop buf p left i payload =
      .ok (payload ++ decodeFrom p.packet.mask p.packet.maskingKey i
        ((buf.drop (p.resolvedLen + i)).take left)) := by
  induction left generalizing i payload with
  | zero => rw [payloadLoop, List.take_zero, decodeFrom, List.append_nil]
  | succ left ih =>
      have hread : p.resolvedLen + i < buf.length := by omega
      rw [payloadLoop, Checked.readAt_of_lt hread, Checked.ok_bind, ih (by omega),
        List.drop_eq_getElem_cons hread, List.take_succ_cons, decodeFrom, List.append_assoc]
      rfl

theorem resolvePayload_advances (h : Inv buf p) (hpos : p.position = .kPayload) :
    Advances buf p (resolvePayload l buf p) := by
  have hplace := h.place
  have hresolved := h.resolved
  simp only [Place, hpos] at hplace
  unfold resolvePayload
  rw [Checked.sub_of_le hresolved, Checked.ok_bind]
  by_cases hnone : buf.length - p.resolvedLen = 0
  · rw [if_pos hnone]
    exact advances_stop h
  · have hmost := l.atMost (buf.length - p.resolvedLen)
    rw [if_neg hnone, payloadLoop_eq (by omega), Checked.ok_bind]
    generalize hdecoded : decodeFrom p.packet.mask p.packet.maskingKey 0
      ((buf.drop (p.resolvedLen + 0)).take (l.rounds (buf.length - p.resolvedLen))) = decoded
    have hlen : decoded.length = l.rounds (buf.length - p.resolvedLen) := by
      rw [← hdecoded, decodeFrom_length, List.length_take, List.length_drop]
      omega
    have hresolved' : p.resolvedLen + (buf.length - p.resolvedLen) ≤ buf.length := by omega
    have hsum : (p.packet.payload ++ decoded).length =
        p.packet.payload.length + decoded.length := List.length_append
    have hcode := p.packet.payloadLen.toNat_lt
    -- a payload of at most 255 bytes was counted in full
    have hexact : (p.packet.payload ++ decoded).length ≤ 255 →
        decoded.length = buf.length - p.resolvedLen := by
      intro hsmall
      have hfew : buf.length - p.resolvedLen < 2 ^ 31 := by
        by_contra hmany
        have hleast := l.atLeast _ (Nat.le_of_not_lt hmany)
        omega
      rw [hlen, l.exact _ hfew]
    unfold takePayload
    dsimp only
    split
    · rename_i hend
      refine advances_to (b := .kEnd) hpos rfl (by decide) ⟨h.shaken, hresolved', ?_⟩
      show p.resolvedLen + (buf.length - p.resolvedLen) =
        headerSize p.packet + (p.packet.payload ++ decoded).length
      have := hexact (by omega)
      omega
    · split
      · exact advances_stop ⟨h.shaken, hresolved', trivial⟩
      · refine advances_stop ⟨h.shaken, hresolved', ?_⟩
        simp only [Place, hpos]
        show p.resolvedLen + (buf.length - p.resolvedLen) =
          headerSize p.packet + (p.packet.payload ++ decoded).length
        have := hexact (by omega)
        omega

/-- **One round** of the loop, from any position. -/
theorem resolve_advances (hbuf : 0 < buf.length) (h : Inv buf p) :
    Advances buf p (resolve l buf p) := by
  unfold resolve
  cases hpos : p.position with
  | kNone =>
      have hplace := h.place
      simp only [Place, hpos] at hplace
      have hfirst : Inv buf { p with resolvedLen := 0, position := .kFirstByte } :=
        ⟨h.shaken, Nat.zero_le _, rfl, hplace.2⟩
      obtain ⟨q, success, hq, hinv, hrank⟩ := resolveFirstByte_advances hbuf hfirst rfl
      refine ⟨q, success, hq, hinv, fun hs => ?_⟩
      rw [hpos]
      exact hrank hs
  | kFirstByte => exact resolveFirstByte_advances hbuf h hpos
  | kPayloadLen => exact resolvePayloadLen_advances h hpos
  | kExtendedPayloadLen => exact resolveExtendedPayloadLen_advances h hpos
  | kMaskingKey => exact resolveMaskingKey_advances h hpos
  | kPayload => exact resolvePayload_advances l h hpos
  | kEnd => exact advances_stop h
  | kError => exact advances_stop h

end Rounds

/-! ## `DoParse` -/

section DoParse

variable {buf : Bytes} {p : WebSocketParser}

/-- What `DoParse` leaves behind. -/
def Post (buf : Bytes) (r : WebSocketParser × ParseRet) : Prop :=
  Inv buf r.1 ∧ ∃ code, r.2 = .returned code

/-- A round returns, or goes on nearer to the end. -/
theorem round_spec (hbuf : 0 < buf.length) (h : Inv buf p) :
    (∃ r, round l buf p = .ok (.done r) ∧ Post buf r) ∨
      (∃ q, round l buf p = .ok (.next q) ∧ Inv buf q ∧ rank q.position < rank p.position) := by
  obtain ⟨q, success, hq, hinv, hrank⟩ := resolve_advances l hbuf h
  unfold round
  rw [hq, Checked.ok_bind]
  dsimp only
  by_cases hend : q.position = .kEnd
  · exact Or.inl ⟨_, if_pos hend, hinv, 0, rfl⟩
  · rw [if_neg hend]
    by_cases herr : q.position = .kError
    · exact Or.inl ⟨_, if_pos herr, hinv, -1, rfl⟩
    · rw [if_neg herr]
      cases success with
      | false => exact Or.inl ⟨_, if_pos rfl, hinv, 0, rfl⟩
      | true => exact Or.inr ⟨q, if_neg (by decide), hinv, hrank rfl⟩

theorem rank_lt_six (position : TPosition) : rank position < 6 := by
  cases position <;> decide

/-- The loop returns within six rounds. -/
theorem whileTrue_round (hbuf : 0 < buf.length) (h : Inv buf p) :
    ∃ r, whileTrue (round l buf) 6 p = .ok (some r) ∧ Post buf r :=
  whileTrue_of_measure (Inv buf) (Post buf) (fun p => rank p.position)
    (fun _ hs => round_spec l hbuf hs) h (rank_lt_six p.position)

/-- **`DoParse`** returns and keeps the invariant. -/
theorem doParse_spec (h : Inv buf p) :
    ∃ r, doParse l buf p 6 = .ok (some r) ∧ Post buf r := by
  unfold doParse
  rw [if_neg (by rw [h.shaken]; decide), Checked.sub_of_le h.resolved, Checked.ok_bind]
  by_cases hnone : buf.length - p.resolvedLen = 0
  · exact ⟨_, if_pos hnone, h, 0, rfl⟩
  · rw [if_neg hnone]
    exact whileTrue_round l (by omega) h

/-- A longer bound on the rounds changes nothing. -/
theorem doParse_of_six_le {r : WebSocketParser × ParseRet} (h : doParse l buf p 6 = .ok (some r))
    {n : Nat} (hn : 6 ≤ n) : doParse l buf p n = .ok (some r) := by
  unfold doParse at h ⊢
  split
  · rename_i hshaken
    rw [if_pos hshaken] at h
    exact h
  · rename_i hshaken
    rw [if_neg hshaken] at h
    by_cases hle : p.resolvedLen ≤ buf.length
    · rw [Checked.sub_of_le hle, Checked.ok_bind] at h ⊢
      split
      · rename_i hnone
        rw [if_pos hnone] at h
        exact h
      · rename_i hnone
        rw [if_neg hnone] at h
        rw [show n = 6 + (n - 6) by omega]
        exact whileTrue_add h (n - 6)
    · rw [Checked.sub, if_neg hle] at h
      cases h

/-- However long its loop may run, `DoParse` does not fault. -/
theorem doParse_not_fault (h : Inv buf p) (n : Nat) (f : Fault) :
    doParse l buf p n ≠ .error f := by
  unfold doParse
  rw [if_neg (by rw [h.shaken]; decide), Checked.sub_of_le h.resolved, Checked.ok_bind]
  by_cases hnone : buf.length - p.resolvedLen = 0
  · rw [if_pos hnone]
    simp
  · rw [if_neg hnone]
    obtain ⟨r, hr, -⟩ := whileTrue_round l (show 0 < buf.length by omega) h
    exact Returns.not_fault ⟨6, hr⟩ n f

end DoParse

/-! ## The unchecked parser -/

section Unchecked

variable {buf : Bytes} {p : WebSocketParser}

theorem resolvePayloadLen_eq (h : Inv buf p) (hpos : p.position = .kPayloadLen) :
    resolvePayloadLen buf p = .ok (WebSocketParser.resolvePayloadLen buf p) := by
  have hplace := h.place
  simp only [Place, hpos] at hplace
  unfold resolvePayloadLen WebSocketParser.resolvePayloadLen
  rw [Checked.sub_of_le h.resolved, Checked.ok_bind]
  by_cases hshort : buf.length - p.resolvedLen < 1
  · rw [if_pos hshort, if_pos hshort]
  · have hread : 1 < buf.length := by omega
    rw [if_neg hshort, if_neg hshort, Checked.readAt_of_lt hread, Checked.ok_bind,
      byteAt_eq_getElem hread]
    dsimp only
    split
    · rfl
    · split <;> rfl

theorem resolveExtendedPayloadLen_eq (h : Inv buf p) :
    resolveExtendedPayloadLen buf p =
      .ok (WebSocketParser.resolveExtendedPayloadLen buf p) := by
  have hresolved := h.resolved
  unfold resolveExtendedPayloadLen WebSocketParser.resolveExtendedPayloadLen
  rw [Checked.sub_of_le hresolved, Checked.ok_bind]
  dsimp only
  split
  · split
    · rfl
    · have hhigh : p.resolvedLen < buf.length := by omega
      have hlow : p.resolvedLen + 1 < buf.length := by omega
      rw [Checked.readAt_of_lt hhigh, Checked.ok_bind, Checked.readAt_of_lt hlow,
        Checked.ok_bind, extendedLen16, byteAt_eq_getElem hhigh, byteAt_eq_getElem hlow]
  · split
    · split
      · rfl
      · rw [extendedLenLoop_eq (by omega), Checked.ok_bind]
    · rfl

theorem resolveMaskingKey_eq (h : Inv buf p) :
    resolveMaskingKey buf p = .ok (WebSocketParser.resolveMaskingKey buf p) := by
  have hresolved := h.resolved
  unfold resolveMaskingKey WebSocketParser.resolveMaskingKey
  rw [Checked.sub_of_le hresolved, Checked.ok_bind]
  split
  · rfl
  · split
    · have hbyte : ∀ i < 4, byteAt ((buf.drop p.resolvedLen).take 4) i =
          byteAt buf (p.resolvedLen + i) := by
        intro i hi
        simp only [byteAt, List.getD_eq_getElem?_getD, List.getElem?_take_of_lt hi,
          List.getElem?_drop]
      rw [Checked.slice_of_le (by omega), Checked.ok_bind]
      simp only [keyAt, Nat.zero_add, hbyte 0 (by decide), hbyte 1 (by decide),
        hbyte 2 (by decide), hbyte 3 (by decide), Nat.add_zero]
    · rfl

/-- An index that counts every byte decodes the whole rest of the buffer. -/
theorem resolvePayload_eq {l : IntLoop} (hl : ∀ n ≤ buf.length, l.rounds n = n)
    (h : Inv buf p) : resolvePayload l buf p = .ok (WebSocketParser.resolvePayload buf p) := by
  have hresolved := h.resolved
  have hsum : p.resolvedLen + (buf.length - p.resolvedLen) = buf.length := by omega
  have hrest : (buf.drop p.resolvedLen).take (buf.length - p.resolvedLen) =
      buf.drop p.resolvedLen := List.take_of_length_le (by rw [List.length_drop])
  unfold resolvePayload WebSocketParser.resolvePayload
  rw [Checked.sub_of_le hresolved, Checked.ok_bind, hl _ (by omega)]
  split
  · rfl
  · rw [payloadLoop_eq (by omega), Checked.ok_bind, Nat.add_zero, hrest]
    simp only [takePayload, hsum]

theorem resolve_eq {l : IntLoop} (hl : ∀ n ≤ buf.length, l.rounds n = n) (hbuf : 0 < buf.length)
    (h : Inv buf p) : resolve l buf p = .ok (WebSocketParser.resolve buf p) := by
  have hfirst : ∀ q, resolveFirstByte buf q = .ok (WebSocketParser.resolveFirstByte buf q) := by
    intro q
    unfold resolveFirstByte WebSocketParser.resolveFirstByte
    rw [Checked.readAt_of_lt hbuf, Checked.ok_bind, byteAt_eq_getElem hbuf]
  unfold resolve WebSocketParser.resolve
  cases hpos : p.position with
  | kNone => exact hfirst _
  | kFirstByte => exact hfirst _
  | kPayloadLen => exact resolvePayloadLen_eq h hpos
  | kExtendedPayloadLen => exact resolveExtendedPayloadLen_eq h
  | kMaskingKey => exact resolveMaskingKey_eq h
  | kPayload => exact resolvePayload_eq hl h
  | kEnd => rfl
  | kError => rfl

theorem whileTrue_round_eq {l : IntLoop} (hl : ∀ n ≤ buf.length, l.rounds n = n)
    (hbuf : 0 < buf.length) {n : Nat} (h : Inv buf p) (hn : rank p.position < n) :
    whileTrue (round l buf) n p = .ok (some (WebSocketParser.loop buf n p)) := by
  induction n generalizing p with
  | zero => omega
  | succ n ih =>
      obtain ⟨q, success, hq, hinv, hrank⟩ := resolve_advances l hbuf h
      have heq := resolve_eq hl hbuf h
      rw [hq] at heq
      have hmodel : WebSocketParser.resolve buf p = (q, success) := (Except.ok.inj heq).symm
      rw [whileTrue, round, hq, Checked.ok_bind, WebSocketParser.loop, hmodel]
      dsimp only
      split
      · rfl
      · split
        · rfl
        · split
          · rfl
          · rename_i hsuccess
            have hless := hrank (by simpa using hsuccess)
            exact ih hinv (by omega)

/-- Where the `int` index counts every byte, in particular below 2³¹ bytes,
the checked `DoParse` returns what the unchecked one does. -/
theorem doParse_eq {l : IntLoop} (hl : ∀ n ≤ buf.length, l.rounds n = n) (h : Inv buf p) :
    doParse l buf p 6 = .ok (some (WebSocketParser.doParse buf p)) := by
  unfold doParse WebSocketParser.doParse
  rw [if_neg (by rw [h.shaken]; decide), if_neg (by rw [h.shaken]; decide),
    Checked.sub_of_le h.resolved, Checked.ok_bind]
  split
  · rfl
  · exact whileTrue_round_eq hl (by omega) h (rank_lt_six p.position)

end Unchecked

/-! ## Runs -/

/-- The parser and its buffer. -/
structure System where
  buf : Bytes
  parser : WebSocketParser
deriving DecidableEq

/-- What happens to them: bytes are appended, `DoParse` is called, or `Reset`
empties the buffer and a newly allocated packet is set. -/
inductive Event
  | append (bytes : Bytes)
  | doParse
  | reset

/-- A reset parser. -/
def start : System := ⟨[], WebSocketParser.fresh⟩

/-- One event; a call of `DoParse` that faults or does not return has no
successor. -/
def step (s : System) : Event → Option System
  | .append bytes => some ⟨s.buf ++ bytes, s.parser⟩
  | .doParse =>
      match doParse l s.buf s.parser 6 with
      | .ok (some (q, .returned _)) => some ⟨s.buf, q⟩
      | _ => none
  | .reset => some start

/-- What holds in a state: the offsets fit, and the next call of `DoParse`
returns and reads only bytes of the buffer. -/
structure Safe (s : System) : Prop where
  resolved : s.parser.resolvedLen ≤ s.buf.length
  masked : s.parser.position = .kMaskingKey → s.parser.packet.mask = true
  size : s.parser.position = .kPayload ∨ s.parser.position = .kEnd →
    s.parser.resolvedLen =
      headerSize s.parser.packet + s.parser.packet.payload.length
  returns : ∃ q code,
    (∀ n, 6 ≤ n → doParse l s.buf s.parser n = .ok (some (q, .returned code))) ∧
      q.resolvedLen ≤ s.buf.length
  noFault : ∀ n f, doParse l s.buf s.parser n ≠ .error f

theorem inv_start : Inv start.buf start.parser :=
  ⟨rfl, Nat.le_refl _, rfl, rfl⟩

theorem Inv.append {buf : Bytes} {p : WebSocketParser} (h : Inv buf p) (bytes : Bytes) :
    Inv (buf ++ bytes) p := by
  refine ⟨h.shaken, ?_, h.place⟩
  have hresolved := h.resolved
  rw [List.length_append]
  omega

theorem safe_of_inv {s : System} (h : Inv s.buf s.parser) : Safe l s := by
  have hplace := h.place
  obtain ⟨⟨q, ret⟩, hparse, hinv, code, rfl⟩ := doParse_spec l h
  refine ⟨h.resolved, ?_, ?_, ⟨q, code, fun n hn => ?_, hinv.resolved⟩,
    doParse_not_fault l h⟩
  · intro hpos
    simp only [Place, hpos] at hplace
    exact hplace.2.2
  · intro hpos
    rcases hpos with hpos | hpos
    · simpa only [Place, hpos] using hplace
    · simpa only [Place, hpos] using hplace
  · exact doParse_of_six_le l hparse hn

/-- Every event is possible and keeps the invariant. -/
theorem step_spec {s : System} (h : Inv s.buf s.parser) (e : Event) :
    ∃ t, step l s e = some t ∧ Inv t.buf t.parser := by
  cases e with
  | append bytes => exact ⟨_, rfl, h.append bytes⟩
  | doParse =>
      obtain ⟨⟨q, ret⟩, hparse, hinv, code, rfl⟩ := doParse_spec l h
      refine ⟨⟨s.buf, q⟩, ?_, hinv⟩
      simp only [step, hparse]
  | reset => exact ⟨start, rfl, inv_start⟩

theorem run_spec {s : System} (h : Inv s.buf s.parser) (events : List Event) :
    ∃ t, run (step l) s events = some t ∧ Inv t.buf t.parser := by
  induction events generalizing s with
  | nil => exact ⟨s, rfl, h⟩
  | cons e events ih =>
      obtain ⟨t, hstep, hinv⟩ := step_spec l h e
      rw [run_cons_some hstep]
      exact ih hinv

/-- **Memory safety.**  After any sequence of appends, calls of `DoParse` and
resets the parser is safe, and every call on the way has returned. -/
theorem webSocketParser_safe (events : List Event) :
    ∃ s, run (step l) start events = some s ∧ Safe l s := by
  obtain ⟨s, hrun, hinv⟩ := run_spec l inv_start events
  exact ⟨s, hrun, safe_of_inv l hinv⟩

end Unixtar.Ws.Safety
