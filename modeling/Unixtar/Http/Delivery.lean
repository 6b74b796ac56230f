import Unixtar.Http.RequestRoundTrip
import Unixtar.Http.HeaderBlock
import Unixtar.Http.Segmentation

/-!
# Whole packets in any segmentation

A packet that is encoded as it should be arrives in pieces, and `DoParse` is
called behind each of them.  What the parser has made of the bytes so far is
known (`Arrived`): it waits for the end of the first line, then for the end of
the header lines, then for the rest of the body, and it neither ends nor fails
before the last piece.

The part up to the header lines is the same for every packet and both parsers.
What follows is a body whose length is stated, or, for GET, nothing.

## Main results

* `Head.arrives` — every packet, up to what its body adds.
* `decoded_feed` — a packet with a body, and either parser.
* `Request.feed_pack` — what `request::Pack` builds.
* `Request.feed_getRequest` — a GET request.
-/

namespace Unixtar.Http

open Unixtar.Lib

/-- A packet: a first line, header lines, and what follows them. -/
def packet (line : Bytes) (es : List (Bytes × Bytes)) (rest : Bytes) : Bytes :=
  line ++ (HttpParser.crlf ++ (HeaderField.blockText es ++ (HttpParser.crlfcrlf ++ rest)))

/-- Where the header lines start. -/
def lineLen (line : Bytes) : Nat := line.length + 2

/-- Where they end. -/
def headLen (line : Bytes) (es : List (Bytes × Bytes)) : Nat :=
  lineLen line + ((HeaderField.blockText es).length + 4)

/-- The header fields that are read: a single line is lost. -/
def fieldsOf (es : List (Bytes × Bytes)) : HeaderField :=
  if es.length = 1 then Lib.OrdMap.empty else HeaderField.insertAll Lib.OrdMap.empty es

/-- The first line and the header lines are as they should be. -/
structure Head {L : Type} (parse : L → Bytes → L × LineResult) (l₀ l : L) (line : Bytes)
    (es : List (Bytes × Bytes)) : Prop where
  noCr : 13 ∉ line
  noNul : 0 ∉ line
  parses : parse l₀ line = (l, .accepted)
  clean : ∀ e ∈ es, CleanEntry e
  nonempty : es ≠ []

/-- The virtual functions of a parser up to the header lines; `up` is what it
notes about them. -/
structure Resolvers.Scans {L : Type} (r : Resolvers L) (parse : L → Bytes → L × LineResult)
    (up : HeaderField → Bool) : Prop where
  firstLine : r.firstLine = HttpParser.resolveFirstLine parse
  missed : ∀ buf p, HttpParser.resolveHeaders buf p = (p, .failure) →
    r.headers buf p = (p, .failure)
  found : ∀ buf p q, HttpParser.resolveHeaders buf p = (q, .success) →
    q.isUpgradeToWs = false →
      r.headers buf p = ({ q with isUpgradeToWs := up q.headers }, .success)

/-- The parser behind the header lines. -/
def behindHead {L : Type} (l₀ l : L) (line : Bytes) (es : List (Bytes × Bytes))
    (up : HeaderField → Bool) : HttpParser L :=
  { behindLine l₀ l line with
    headers := fieldsOf es, resolvedLen := headLen line es,
    headerLen := headLen line es - lineLen line, position := .kBody,
    isUpgradeToWs := up (fieldsOf es) }

/-- What the parser has made of the first bytes of a packet; `Behind` is for
those that reach behind the header lines. -/
inductive Arrived {L : Type} (l₀ l : L) (line : Bytes) (es : List (Bytes × Bytes))
    (Behind : Bytes → HttpParser L → Prop) : Bytes → HttpParser L → Prop
  | nothing : Arrived l₀ l line es Behind [] (HttpParser.init l₀)
  | line (b : Bytes) : b ≠ [] → b.length < lineLen line →
      Arrived l₀ l line es Behind b { HttpParser.init l₀ with position := .kFirstLine }
  | headers (b : Bytes) : lineLen line ≤ b.length → b.length < headLen line es →
      Arrived l₀ l line es Behind b (behindLine l₀ l line)
  | behind (b : Bytes) (p : HttpParser L) : headLen line es ≤ b.length → Behind b p →
      Arrived l₀ l line es Behind b p

theorem length_packet (line : Bytes) (es : List (Bytes × Bytes)) (rest : Bytes) :
    (packet line es rest).length = headLen line es + rest.length := by
  have htwo : HttpParser.crlf.length = 2 := rfl
  have hfour : HttpParser.crlfcrlf.length = 4 := rfl
  unfold headLen lineLen packet
  simp only [List.length_append]
  omega

section Scans

variable {L : Type} {parse : L → Bytes → L × LineResult} {l₀ l : L} {line : Bytes}
  {es : List (Bytes × Bytes)} {rest : Bytes}

theorem Head.noNul_blockText (h : Head parse l₀ l line es) : 0 ∉ HeaderField.blockText es := by
  have hlines : 0 ∉ Request.headerLines es := Request.noNul_headerLines h.clean
  rw [Request.headerLines_eq h.nonempty] at hlines
  exact fun hmem => hlines (List.mem_append_left _ hmem)

/-- A prefix that reaches behind `text` and `sep`. -/
theorem exists_behind {text sep b : Bytes} (hb : b <+: text ++ (sep ++ rest))
    (hlen : text.length + sep.length ≤ b.length) : ∃ t, b = text ++ (sep ++ t) ∧ t <+: rest := by
  rw [← List.append_assoc] at hb
  have hhead : text ++ sep <+: b := by
    refine List.prefix_of_prefix_length_le (List.prefix_append _ _) hb ?_
    rw [List.length_append]
    exact hlen
  obtain ⟨t, rfl⟩ := hhead
  exact ⟨t, List.append_assoc _ _ _, (List.prefix_append_right_inj _).1 hb⟩

/-- A scan finds its needle behind `text` in each prefix that reaches so far,
and nothing in the others. -/
theorem strnstr_prefix {text needle b : Bytes} (hlit : Str.IsLiteral needle)
    (hscan : ∀ t : Bytes, Str.strnstr (text ++ (needle ++ t)) needle
      (text ++ (needle ++ t)).length =
        if Str.Reaches (Str.strlen (text ++ (needle ++ t))) (text.length + needle.length)
          then some text.length else none)
    (hnul : 0 ∉ text) (hb : b <+: text ++ (needle ++ rest))
    (hsize : (text ++ (needle ++ rest)).length < 2 ^ 32) :
    Str.strnstr b needle b.length =
      if text.length + needle.length ≤ b.length then some text.length else none := by
  have hfound : ∀ t : Bytes, (text ++ (needle ++ t)).length < 2 ^ 32 →
      Str.strnstr (text ++ (needle ++ t)) needle (text ++ (needle ++ t)).length =
        some text.length := by
    intro t ht
    have hlen : Str.strlen (text ++ (needle ++ t)) =
        text.length + needle.length + Str.strlen t := by
      rw [Str.strlen_append hnul, Str.strlen_append hlit.nulFree, Nat.add_assoc]
    have hle : Str.strlen (text ++ (needle ++ t)) ≤ (text ++ (needle ++ t)).length :=
      (List.takeWhile_prefix _).length_le
    rw [hscan, if_pos (Str.reaches_of_lt (by omega) (by omega))]
  by_cases hreached : text.length + needle.length ≤ b.length
  · rw [if_pos hreached]
    obtain ⟨t, rfl, -⟩ := exists_behind hb hreached
    exact hfound t (Nat.lt_of_le_of_lt hb.length_le hsize)
  · rw [if_neg hreached]
    obtain ⟨c, hc⟩ := hb
    cases hmiss : Str.strnstr b needle b.length with
    | none => rfl
    | some i =>
        -- what is found in a prefix is found in the whole
        have hwhole := Str.strnstr_append hlit (hc ▸ hsize) hmiss
        rw [hc, hfound _ hsize] at hwhole
        have hle := Str.strnstr_add_le hlit hmiss
        cases hwhole
        exact absurd hle hreached

variable {b : Bytes}

/-- The scan for the end of the first line. -/
theorem Head.strnstr_line (h : Head parse l₀ l line es) (hb : b <+: packet line es rest)
    (hsize : (packet line es rest).length < 2 ^ 32) :
    Str.strnstr b HttpParser.crlf b.length =
      if lineLen line ≤ b.length then some line.length else none :=
  strnstr_prefix HttpParser.isLiteral_crlf (fun t => strnstr_crlf h.noCr t) h.noNul hb hsize

/-- The bytes behind the first line. -/
theorem prefix_drop_lineLen (hb : b <+: packet line es rest) (hlen : lineLen line ≤ b.length) :
    b.drop (lineLen line) <+: HeaderField.blockText es ++ (HttpParser.crlfcrlf ++ rest) ∧
      b.take line.length = line := by
  obtain ⟨t, rfl, ht⟩ := exists_behind hb hlen
  refine ⟨?_, List.take_left⟩
  have hdrop : (line ++ (HttpParser.crlf ++ t)).drop (lineLen line) = t := by
    rw [← List.append_assoc]
    exact List.drop_left' (by rw [List.length_append]; rfl)
  rw [hdrop]
  exact ht

/-- The scan for the end of the header lines. -/
theorem Head.strnstr_headers (h : Head parse l₀ l line es) (hb : b <+: packet line es rest)
    (hlen : lineLen line ≤ b.length) (hsize : (packet line es rest).length < 2 ^ 32) :
    Str.strnstr (b.drop (lineLen line)) HttpParser.crlfcrlf (b.length - lineLen line) =
      if headLen line es ≤ b.length then some (HeaderField.blockText es).length else none := by
  have hshort : (HeaderField.blockText es ++ (HttpParser.crlfcrlf ++ rest)).length < 2 ^ 32 := by
    refine Nat.lt_of_le_of_lt ?_ hsize
    unfold packet
    simp only [List.length_append]
    omega
  have hscan := strnstr_prefix HttpParser.isLiteral_crlfcrlf
    (fun t => strnstr_crlfcrlf h.clean t) h.noNul_blockText (prefix_drop_lineLen hb hlen).1 hshort
  rw [← List.length_drop, hscan, List.length_drop]
  have hfour : HttpParser.crlfcrlf.length = 4 := rfl
  unfold headLen
  rw [hfour]
  congr 1
  exact propext (by omega)

/-! ## Rounds -/

variable {r : Resolvers L} {up : HeaderField → Bool}

/-- The first line. -/
theorem Head.resolve_line (h : Head parse l₀ l line es) (hb : b <+: packet line es rest)
    (hsize : (packet line es rest).length < 2 ^ 32) :
    HttpParser.resolveFirstLine parse b { HttpParser.init l₀ with position := .kFirstLine } =
      if lineLen line ≤ b.length then (behindLine l₀ l line, .success)
      else ({ HttpParser.init l₀ with position := .kFirstLine }, .failure) := by
  unfold HttpParser.resolveFirstLine
  rw [h.strnstr_line hb hsize]
  by_cases hlen : lineLen line ≤ b.length
  · rw [if_pos hlen, if_pos hlen]
    have hparse : parse { HttpParser.init l₀ with position := .kFirstLine }.firstLine
        (b.take line.length) = (l, .accepted) := by
      rw [(prefix_drop_lineLen hb hlen).2]
      exact h.parses
    simp only [HttpParser.takeFirstLine, hparse]
    rfl
  · rw [if_neg hlen, if_neg hlen]
    rfl

/-- The header lines. -/
theorem Head.resolve_headers (h : Head parse l₀ l line es) (hr : r.Scans parse up)
    (hb : b <+: packet line es rest) (hlen : lineLen line ≤ b.length)
    (hsize : (packet line es rest).length < 2 ^ 32) :
    HttpParser.resolve r b (behindLine l₀ l line) =
      if headLen line es ≤ b.length then (behindHead l₀ l line es up, .success)
      else (behindLine l₀ l line, .failure) := by
  have hround : HttpParser.resolve r b (behindLine l₀ l line) =
      r.headers b (behindLine l₀ l line) := rfl
  have hscan := h.strnstr_headers hb hlen hsize
  rw [hround]
  by_cases hhead : headLen line es ≤ b.length
  · rw [if_pos hhead] at hscan ⊢
    obtain ⟨t, ht, -⟩ := exists_behind (prefix_drop_lineLen hb hlen).1 (by
      have hfour : HttpParser.crlfcrlf.length = 4 := rfl
      unfold headLen at hhead
      rw [List.length_drop]
      omega)
    have htake : (b.drop (lineLen line)).take (HeaderField.blockText es).length =
        HeaderField.blockText es := by
      rw [ht]
      exact List.take_left
    have hparse := HeaderField.parseFromString_lines Lib.OrdMap.empty h.nonempty h.clean
    have hbase : HttpParser.resolveHeaders b (behindLine l₀ l line) =
        ({ behindLine l₀ l line with
            headers := fieldsOf es, resolvedLen := headLen line es,
            headerLen := headLen line es - lineLen line, position := .kBody }, .success) := by
      have hresolved : (behindLine l₀ l line).resolvedLen = lineLen line := rfl
      have hheaders : (behindLine l₀ l line).headers = Lib.OrdMap.empty := rfl
      unfold HttpParser.resolveHeaders
      rw [hresolved, hscan]
      simp only [HttpParser.takeHeaders, hresolved, hheaders, htake, hparse]
      rfl
    rw [hr.found _ _ _ hbase rfl]
    rfl
  · rw [if_neg hhead] at hscan ⊢
    apply hr.missed
    have hresolved : (behindLine l₀ l line).resolvedLen = lineLen line := rfl
    unfold HttpParser.resolveHeaders
    rw [hresolved, hscan]

/-! ## From one piece to the next -/

/-- What the parser makes of the bytes behind the header lines. -/
structure Tail (r : Resolvers L) (l₀ l : L) (line : Bytes) (es : List (Bytes × Bytes))
    (up : HeaderField → Bool) (s : Bytes) (Behind : Bytes → HttpParser L → Prop) : Prop where
  first : ∀ b, b <+: s → headLen line es ≤ b.length → ∀ n,
    Behind b (HttpParser.loop r b (n + 1) (behindHead l₀ l line es up)).1
  next : ∀ b c p, c ≠ [] → b ++ c <+: s → headLen line es ≤ b.length → Behind b p →
    Behind (b ++ c) (HttpParser.doParse r (b ++ c) p).1

variable {Behind : Bytes → HttpParser L → Prop}

theorem Arrived.behind_of_le {p : HttpParser L} (h : Arrived l₀ l line es Behind b p)
    (hlen : headLen line es ≤ b.length) : Behind b p := by
  have hline : lineLen line ≤ headLen line es := Nat.le_add_right _ _
  cases h with
  | nothing => exact absurd hlen (by unfold headLen; simp)
  | line _ hbne hshort => omega
  | headers _ _ hshort => omega
  | behind _ _ _ hbehind => exact hbehind

theorem Head.arrived_headers (h : Head parse l₀ l line es) (hr : r.Scans parse up)
    (htail : Tail r l₀ l line es up (packet line es rest) Behind)
    (hb : b <+: packet line es rest) (hlen : lineLen line ≤ b.length)
    (hsize : (packet line es rest).length < 2 ^ 32) (n : Nat) :
    Arrived l₀ l line es Behind b (HttpParser.loop r b (n + 2) (behindLine l₀ l line)).1 := by
  have hround := h.resolve_headers hr hb hlen hsize
  by_cases hhead : headLen line es ≤ b.length
  · rw [if_pos hhead] at hround
    rw [HttpParser.loop_of_success hround (by simp [behindHead]) (by simp [behindHead])]
    exact Arrived.behind b _ hhead (htail.first b hb hhead n)
  · rw [if_neg hhead] at hround
    rw [HttpParser.loop_fst_of_last hround (Or.inl (by decide))]
    exact Arrived.headers b hlen (Nat.lt_of_not_le hhead)

/-- A parser that still looks for the first line. -/
theorem Head.arrived_line (h : Head parse l₀ l line es) (hr : r.Scans parse up)
    (htail : Tail r l₀ l line es up (packet line es rest) Behind)
    (hb : b <+: packet line es rest) (hne : b ≠ [])
    (hsize : (packet line es rest).length < 2 ^ 32) {p : HttpParser L}
    (hp : HttpParser.resolve r b p =
      HttpParser.resolveFirstLine parse b { HttpParser.init l₀ with position := .kFirstLine })
    (n : Nat) :
    Arrived l₀ l line es Behind b (HttpParser.loop r b (n + 3) p).1 := by
  rw [h.resolve_line hb hsize] at hp
  by_cases hlen : lineLen line ≤ b.length
  · rw [if_pos hlen] at hp
    rw [HttpParser.loop_of_success hp (by simp [behindLine]) (by simp [behindLine])]
    exact h.arrived_headers hr htail hb hlen hsize n
  · rw [if_neg hlen] at hp
    rw [HttpParser.loop_fst_of_last hp (Or.inl (by decide))]
    exact Arrived.line b hne (Nat.lt_of_not_le hlen)

/-- **One more piece.** -/
theorem Head.arrived_doParse (h : Head parse l₀ l line es) (hr : r.Scans parse up)
    (htail : Tail r l₀ l line es up (packet line es rest) Behind) {c : Bytes} {p : HttpParser L}
    (hsize : (packet line es rest).length < 2 ^ 32) (hc : c ≠ [])
    (hb : b ++ c <+: packet line es rest) (hp : Arrived l₀ l line es Behind b p) :
    Arrived l₀ l line es Behind (b ++ c) (HttpParser.doParse r (b ++ c) p).1 := by
  have hlt : b.length < (b ++ c).length := by
    rw [List.length_append]
    exact Nat.lt_add_of_pos_right (List.length_pos_of_ne_nil hc)
  have hne : b ++ c ≠ [] := List.ne_nil_of_length_pos (Nat.lt_of_le_of_lt (Nat.zero_le _) hlt)
  have hparse : ∀ q : HttpParser L, q.resolvedLen ≤ b.length →
      HttpParser.doParse r (b ++ c) q = HttpParser.loop r (b ++ c) 4 q := by
    intro q hq
    unfold HttpParser.doParse
    rw [if_neg (by omega), if_neg (by omega)]
  cases hp with
  | nothing =>
      rw [hparse _ (Nat.zero_le _)]
      exact h.arrived_line hr htail hb hne hsize (resolve_init hr.firstLine hne) 1
  | line _ hbne hshort =>
      rw [hparse _ (Nat.zero_le _)]
      refine h.arrived_line hr htail hb hne hsize ?_ 1
      rw [← hr.firstLine]
      rfl
  | headers _ hlen hshort =>
      rw [hparse _ hlen]
      exact h.arrived_headers hr htail hb (Nat.le_trans hlen (Nat.le_of_lt hlt)) hsize 2
  | behind _ _ hlen hbehind =>
      exact Arrived.behind _ _ (Nat.le_trans hlen (Nat.le_of_lt hlt))
        (htail.next b c p hc hb hlen hbehind)

/-- The parser after `DoParse`. -/
def HttpParser.parsed (r : Resolvers L) (buf : Bytes) (p : HttpParser L) : HttpParser L :=
  (HttpParser.doParse r buf p).1

/-- A terminal position. -/
def Terminal (p : HttpParser L) : Prop := p.position = .kEnd ∨ p.position = .kError

/-- **A packet in pieces**: the parser goes on up to the last one. -/
theorem Head.arrives (h : Head parse l₀ l line es) (hr : r.Scans parse up)
    (htail : Tail r l₀ l line es up (packet line es rest) Behind)
    (hsize : (packet line es rest).length < 2 ^ 32)
    (hwaits : ∀ b p, b <+: packet line es rest → b ≠ packet line es rest → Behind b p →
      ¬ Terminal p)
    {chunks : List Bytes} (hne : ∀ c ∈ chunks, c ≠ []) (hs : chunks.flatten = packet line es rest) :
    Unstopped (HttpParser.parsed r) Terminal [] (HttpParser.init l₀) chunks ∧
      Behind (packet line es rest)
        (feed (HttpParser.parsed r) [] (HttpParser.init l₀) chunks) := by
  have hparse : ∀ (b c : Bytes) (p : HttpParser L), c ≠ [] → b ++ c <+: packet line es rest →
      Arrived l₀ l line es Behind b p →
      Arrived l₀ l line es Behind (b ++ c) (HttpParser.parsed r (b ++ c) p) :=
    fun b c p hc hb hp => h.arrived_doParse hr htail hsize hc hb hp
  have hstop : ∀ (b : Bytes) (p : HttpParser L), b <+: packet line es rest →
      b ≠ packet line es rest → Arrived l₀ l line es Behind b p → ¬ Terminal p := by
    intro b p hb hproper hp
    cases hp with
    | nothing => simp [Terminal, HttpParser.init]
    | line _ hbne hshort => simp [Terminal]
    | headers _ hlen hshort => simp [Terminal, behindLine]
    | behind _ _ hlen hbehind => exact hwaits b p hb hproper hbehind
  obtain ⟨hrun, hend⟩ := feed_of_prefixes hparse hstop Arrived.nothing hne hs
  refine ⟨hrun, ?_⟩
  refine hend.behind_of_le ?_
  rw [length_packet]
  exact Nat.le_add_right _ _

/-! ## Packets with a body -/

/-- The parser behind the header lines of a packet of `total` bytes: it waits
for the rest of the body, or has it all. -/
def BodyArrived (l₀ l : L) (line : Bytes) (es : List (Bytes × Bytes)) (up : HeaderField → Bool)
    (body b : Bytes) (p : HttpParser L) : Prop :=
  if b.length < (packet line es body).length then
    p = { behindHead l₀ l line es up with resolvedLen := b.length }
  else Decoded l (fieldsOf es) body p ∧ p.isUpgradeToWs = up (fieldsOf es)

/-- The last bytes of a packet. -/
theorem drop_headLen (line : Bytes) (es : List (Bytes × Bytes)) (rest : Bytes) :
    (packet line es rest).drop (headLen line es) = rest := by
  have hassoc : packet line es rest = line ++ HttpParser.crlf ++ HeaderField.blockText es ++
      HttpParser.crlfcrlf ++ rest := by
    simp only [packet, List.append_assoc]
  rw [hassoc]
  apply List.drop_left'
  have htwo : HttpParser.crlf.length = 2 := rfl
  have hfour : HttpParser.crlfcrlf.length = 4 := rfl
  unfold headLen lineLen
  simp only [List.length_append]
  omega

/-- `_ResolveBody` in a prefix of the packet. -/
theorem resolveBody_arrived (l₀ l : L) (up : HeaderField → Bool) {body : Bytes}
    (hb : b <+: packet line es body) (hlen : headLen line es ≤ b.length) (hbody : body ≠ [])
    (hstated : HeaderField.contentLength (fieldsOf es) = body.length) (k : Nat) :
    ∃ res p, HttpParser.resolveBody b { behindHead l₀ l line es up with resolvedLen := k } =
        (p, res) ∧
      (res ≠ .success ∨ p.position = .kEnd ∨ p.position = .kError) ∧
      BodyArrived l₀ l line es up body b p := by
  have hpos := List.length_pos_of_ne_nil hbody
  have htotal := length_packet line es body
  have hstated' : HeaderField.contentLength
      { behindHead l₀ l line es up with resolvedLen := k }.headers = body.length := hstated
  have hcurr : b.length - { behindHead l₀ l line es up with resolvedLen := b.length }.firstLineLen -
      { behindHead l₀ l line es up with resolvedLen := b.length }.headerLen =
        b.length - headLen line es := by
    show b.length - lineLen line - (headLen line es - lineLen line) = _
    have hline : lineLen line ≤ headLen line es := Nat.le_add_right _ _
    omega
  unfold HttpParser.resolveBody BodyArrived
  simp only [hstated']
  rw [if_neg (Nat.ne_of_gt hpos)]
  have hle := hb.length_le
  by_cases hshort : b.length < (packet line es body).length
  · rw [if_neg (by rw [hcurr]; omega), if_neg (by rw [hcurr]; omega)]
    refine ⟨_, _, rfl, Or.inl (by decide), ?_⟩
    rw [if_pos hshort]
  · have hwhole : b = packet line es body := hb.eq_of_length (by omega)
    rw [if_neg (by rw [hcurr]; omega), if_pos (by rw [hcurr]; omega)]
    refine ⟨_, _, rfl, Or.inr (Or.inl rfl), ?_⟩
    rw [if_neg hshort]
    refine ⟨⟨rfl, rfl, rfl, ?_⟩, rfl⟩
    show (b.drop (b.length - body.length)).take body.length = body
    rw [hwhole, htotal, Nat.add_sub_cancel_right, drop_headLen, List.take_length]

theorem tail_body {body : Bytes} (hr : ∀ buf p, p.firstLine = l →
      r.body buf p = HttpParser.resolveBody buf p) (hbody : body ≠ [])
    (hstated : HeaderField.contentLength (fieldsOf es) = body.length) :
    Tail r l₀ l line es up (packet line es body) (BodyArrived l₀ l line es up body) := by
  have hloop : ∀ b, b <+: packet line es body → headLen line es ≤ b.length → ∀ k n,
      BodyArrived l₀ l line es up body b
        (HttpParser.loop r b (n + 1) { behindHead l₀ l line es up with resolvedLen := k }).1 := by
    intro b hb hlen k n
    obtain ⟨res, p, hp, hlast, harrived⟩ :=
      resolveBody_arrived l₀ l up hb hlen hbody hstated k
    have hround : HttpParser.resolve r b { behindHead l₀ l line es up with resolvedLen := k } =
        (p, res) := (hr _ _ rfl).trans hp
    rw [HttpParser.loop_fst_of_last hround hlast]
    exact harrived
  refine ⟨fun b hb hlen n => hloop b hb hlen _ n, ?_⟩
  intro b c p hc hb hlen hp
  have hpos := List.length_pos_of_ne_nil hc
  have hle := hb.length_le
  rw [List.length_append] at hle
  unfold BodyArrived at hp
  rw [if_pos (by omega)] at hp
  subst hp
  have hparse : HttpParser.doParse r (b ++ c)
      { behindHead l₀ l line es up with resolvedLen := b.length } =
        HttpParser.loop r (b ++ c) 4
          { behindHead l₀ l line es up with resolvedLen := b.length } := by
    unfold HttpParser.doParse
    rw [List.length_append, if_neg (by omega), if_neg (by dsimp only; omega)]
  rw [hparse]
  exact hloop _ hb (by rw [List.length_append]; omega) _ 3

/-- **A packet with a body, in any segmentation**: no piece but the last stops
the parser, and behind it the packet is there. -/
theorem decoded_feed {body : Bytes} (h : Head parse l₀ l line es) (hr : r.Scans parse up)
    (hplain : ∀ buf p, p.firstLine = l → r.body buf p = HttpParser.resolveBody buf p)
    (hbody : body ≠ []) (hstated : HeaderField.contentLength (fieldsOf es) = body.length)
    (hsize : (packet line es body).length < 2 ^ 32) {chunks : List Bytes}
    (hne : ∀ c ∈ chunks, c ≠ []) (hs : chunks.flatten = packet line es body) :
    Unstopped (HttpParser.parsed r) Terminal [] (HttpParser.init l₀) chunks ∧
      Decoded l (fieldsOf es) body
        (feed (HttpParser.parsed r) [] (HttpParser.init l₀) chunks) ∧
      (feed (HttpParser.parsed r) [] (HttpParser.init l₀) chunks).isUpgradeToWs =
        up (fieldsOf es) := by
  have hwaits : ∀ b p, b <+: packet line es body → b ≠ packet line es body →
      BodyArrived l₀ l line es up body b p → ¬ Terminal p := by
    intro b p hb hproper hp
    have hshort : b.length < (packet line es body).length :=
      Nat.lt_of_le_of_ne hb.length_le fun heq => hproper (hb.eq_of_length heq)
    unfold BodyArrived at hp
    rw [if_pos hshort] at hp
    rw [hp]
    simp [Terminal, behindHead]
  obtain ⟨hrun, hend⟩ := h.arrives hr (tail_body hplain hbody hstated) hsize hwaits hne hs
  refine ⟨hrun, ?_⟩
  unfold BodyArrived at hend
  rwa [if_neg (Nat.lt_irrefl _)] at hend

/-- The same for a packet that is encoded from its header fields. -/
theorem Encodes.decoded_feed {h : HeaderField} {body : Bytes}
    (henc : Encodes parse l₀ l line h body) (hr : r.Scans parse up)
    (hplain : ∀ buf p, p.firstLine = l → r.body buf p = HttpParser.resolveBody buf p)
    (hbody : body ≠ []) (hsize : (encode line h body).length < 2 ^ 32) {chunks : List Bytes}
    (hne : ∀ c ∈ chunks, c ≠ []) (hs : chunks.flatten = encode line h body) :
    Unstopped (HttpParser.parsed r) Terminal [] (HttpParser.init l₀) chunks ∧
      Decoded l h body (feed (HttpParser.parsed r) [] (HttpParser.init l₀) chunks) ∧
      (feed (HttpParser.parsed r) [] (HttpParser.init l₀) chunks).isUpgradeToWs = up h := by
  have htwo := henc.two
  have hentries : h.entries ≠ [] := List.ne_nil_of_length_pos (by omega)
  have hpacket : encode line h body = packet line h.entries body := by
    unfold encode packet
    rw [HeaderField.toBytes_eq hentries, List.append_assoc]
    rfl
  have hfields : fieldsOf h.entries = h := by
    unfold fieldsOf
    rw [if_neg (by omega)]
    exact Lib.OrdMap.foldl_insert_entries h
  have hhead : Head parse l₀ l line h.entries :=
    ⟨henc.noCr, henc.noNul, henc.parses, henc.clean, hentries⟩
  have hstated : HeaderField.contentLength (fieldsOf h.entries) = body.length := by
    rw [hfields]
    exact henc.length
  rw [hpacket] at hsize hs
  have hfeed := Http.decoded_feed hhead hr hplain hbody hstated hsize hne hs
  rwa [hfields] at hfeed

end Scans

namespace Request

theorem scans_resolvers :
    resolvers.Scans RequestLine.parseFromString HeaderField.isConnectionUpgrade where
  firstLine := rfl
  missed buf p h := by
    show noteUpgrade (HttpParser.resolveHeaders buf p) = (p, .failure)
    rw [h]
    rfl
  found buf p q h hq := by
    show noteUpgrade (HttpParser.resolveHeaders buf p) = _
    rw [h]
    cases hup : HeaderField.isConnectionUpgrade q.headers with
    | true => simp only [noteUpgrade, hup, if_true]
    | false =>
        simp only [noteUpgrade, hup, Bool.false_eq_true, if_false]
        rw [← hq]

/-- **Every packed request arrives**, in whatever segments. -/
theorem feed_pack {host url : Bytes} {headers : Option HeaderField} {body : Bytes}
    (h : CleanRequest host url headers body)
    (hsize : (pack host url headers body).length < 2 ^ 32) {chunks : List Bytes}
    (hne : ∀ c ∈ chunks, c ≠ []) (hs : chunks.flatten = pack host url headers body) :
    RunsToLast chunks ∧
      Decoded ⟨.kPOST, url, .kHTTP_1_1⟩ (packedHeaders host headers body) body
        (parseChunks chunks) ∧
      (parseChunks chunks).isUpgradeToWs =
        HeaderField.isConnectionUpgrade (packedHeaders host headers body) := by
  rw [pack_eq_encode] at hsize hs
  exact (encodes_pack h).decoded_feed scans_resolvers (plain_resolvers url).body
    (List.ne_nil_of_length_pos h.nonempty) hsize hne hs

/-! ## GET requests -/

/-- The parser behind a GET request. -/
def behindGet (url : Bytes) (fields : List (Bytes × Bytes)) : Parser :=
  { behindHead RequestLine.init ⟨.kGET, url, .kHTTP_1_1⟩ (getLine url) fields
      HeaderField.isConnectionUpgrade with
    position := .kEnd }

theorem getRequest_eq_packet {url : Bytes} {fields : List (Bytes × Bytes)} (hne : fields ≠ []) :
    getRequest url fields = packet (getLine url) fields [] := by
  unfold getRequest packet
  rw [headerLines_eq hne]
  rfl

/-- **Every GET request with header lines arrives**, in whatever segments. -/
theorem feed_getRequest {url : Bytes} {fields : List (Bytes × Bytes)} (hurl : CleanUrl url)
    (hfields : ∀ e ∈ fields, CleanEntry e) (hlines : fields ≠ [])
    (hsize : (getRequest url fields).length < 2 ^ 32) {chunks : List Bytes}
    (hne : ∀ c ∈ chunks, c ≠ []) (hs : chunks.flatten = getRequest url fields) :
    RunsToLast chunks ∧ parseChunks chunks = behindGet url fields := by
  rw [getRequest_eq_packet hlines] at hsize hs
  have hhead : Head RequestLine.parseFromString RequestLine.init ⟨.kGET, url, .kHTTP_1_1⟩
      (getLine url) fields := by
    refine ⟨?_, ?_, parseFromString_getLine hurl, hfields, hlines⟩
    · simp only [getLine, List.mem_append, not_or]
      exact ⟨⟨⟨⟨by decide, by decide⟩, hurl.noCr⟩, by decide⟩, by decide⟩
    · simp only [getLine, List.mem_append, not_or]
      exact ⟨⟨⟨⟨by decide, by decide⟩, hurl.noNul⟩, by decide⟩, by decide⟩
  have hlen := length_packet (getLine url) fields []
  rw [List.length_nil, Nat.add_zero] at hlen
  have htail : Tail resolvers RequestLine.init ⟨.kGET, url, .kHTTP_1_1⟩ (getLine url) fields
      HeaderField.isConnectionUpgrade (packet (getLine url) fields [])
      (fun b p => b = packet (getLine url) fields [] ∧ p = behindGet url fields) := by
    constructor
    · intro b hb hle n
      have hwhole : b.length = headLen (getLine url) fields :=
        Nat.le_antisymm (hlen ▸ hb.length_le) hle
      have hround : HttpParser.resolve resolvers b
          (behindHead RequestLine.init ⟨.kGET, url, .kHTTP_1_1⟩ (getLine url) fields
            HeaderField.isConnectionUpgrade) = (behindGet url fields, .success) :=
        resolve_of_getBody rfl rfl hwhole.symm
      rw [HttpParser.loop_fst_of_last hround (Or.inr (Or.inl rfl))]
      exact ⟨hb.eq_of_length (hwhole.trans hlen.symm), rfl⟩
    · -- nothing follows
      rintro b c p hc hb - ⟨rfl, -⟩
      have hpos := List.length_pos_of_ne_nil hc
      have hmore := hb.length_le
      rw [List.length_append] at hmore
      omega
  obtain ⟨hrun, -, hend⟩ := hhead.arrives scans_resolvers htail hsize
    (fun _ _ _ hproper hp => absurd hp.1 hproper) hne hs
  exact ⟨hrun, hend⟩

end Request

end Unixtar.Http
