import Unixtar.Http.HttpRequest
import Unixtar.Lib.Chunks
import Unixtar.Utils.Split
import Mathlib.Tactic.SplitIfs

/-!
# How far request parsing depends on TCP segmentation

The request parser scans its buffer twice: for the CRLF behind the request
line and, from there on, for the CRLFCRLF behind the headers.  What it makes
of a buffer is a function of the buffer and of these two scan results
(`stateOf`), and a scan that has found something is never repeated.  So the
only thing a cut can change is which buffer a scan looked at first.

`Scan` is the pair of scan results, `rescan` what one more call of `DoParse`
makes of them.  A parser fed in chunks ends with the results `scanChunks` of
its successive buffers, a parser fed at once with those of the whole input.
They are the same exactly when the `int` of `strnstr` does not hide from the
scan of the whole an end that the scan of a prefix has seen
(`scanChunks_eq_scan_iff`); below 2³² bytes it never does.
-/

namespace Unixtar.Http.Request

open Unixtar.Lib

/-- What the two scans of the request parser have found so far. -/
structure Scan where
  line : Option Nat
  headers : Option Nat
deriving DecidableEq

namespace Scan

/-- Nothing found yet. -/
def nothing : Scan := ⟨none, none⟩

end Scan

/-- The scan of `_ResolveFirstLine`. -/
def scanLine (buf : Bytes) : Option Nat := Str.strnstr buf HttpParser.crlf buf.length

/-- The scan of `_ResolveHeaders` behind a request line of `i` bytes. -/
def scanHeaders (buf : Bytes) (i : Nat) : Option Nat :=
  Str.strnstr (buf.drop (i + 2)) HttpParser.crlfcrlf (buf.length - (i + 2))

theorem scanLine_add_le {buf : Bytes} {i : Nat} (h : scanLine buf = some i) :
    i + 2 ≤ buf.length :=
  Str.strnstr_add_le HttpParser.isLiteral_crlf h

theorem scanHeaders_add_le {buf : Bytes} {i j : Nat}
    (h : scanHeaders buf i = some j) : j + 4 ≤ buf.length - (i + 2) :=
  Str.strnstr_add_le HttpParser.isLiteral_crlfcrlf h

/-! ## The parser's state as a function of the scan results -/

/-- The parser between its first call and the end of the request line. -/
def waiting : Parser := { Parser.fresh with position := .kFirstLine }

/-- The branch of `_ResolveFirstLine` behind a CRLF at `i`. -/
def lineAt (buf : Bytes) (i : Nat) (p : Parser) : Parser × Resolved :=
  HttpParser.takeFirstLine RequestLine.parseFromString buf i p

/-- The branch of `_ResolveHeaders` behind a CRLFCRLF at `j`. -/
def headersAt (buf : Bytes) (j : Nat) (p : Parser) : Parser × Resolved :=
  noteUpgrade (HttpParser.takeHeaders buf j p)

/-- A parser in `kHeaders`, given the second scan's result. -/
def finishHeaders (buf : Bytes) (found : Option Nat) (p : Parser) : Parser :=
  match found with
  | none => p
  | some j =>
      match headersAt buf j p with
      | (q, .success) => (resolveBody buf q).1
      | (q, _) => q

/-- A parser in `kFirstLine`, given both scan results. -/
def finishLine (buf : Bytes) (x : Scan) : Parser :=
  match x.line with
  | none => waiting
  | some i =>
      match lineAt buf i waiting with
      | (p, .success) => finishHeaders buf x.headers p
      | (p, _) => p

/-- What the parser has made of the buffer. -/
def stateOf (buf : Bytes) (x : Scan) : Parser :=
  if buf = [] then Parser.fresh else finishLine buf x

/-- A terminal position: `kEnd` or `kError`. -/
def Stopped (p : Parser) : Prop := p.position = .kEnd ∨ p.position = .kError

instance : DecidablePred Stopped := fun p =>
  inferInstanceAs (Decidable (p.position = .kEnd ∨ p.position = .kError))

/-- What one call of `DoParse` adds to the scan results: it scans for what
has not been found yet, and for the headers only behind a request line it
takes. -/
def rescan (buf : Bytes) (x : Scan) : Scan :=
  match x.line.or (scanLine buf) with
  | none => Scan.nothing
  | some i =>
      ⟨some i, if (lineAt buf i waiting).2 = .success then
        x.headers.or (scanHeaders buf i) else none⟩

/-- The scan results of one call of `DoParse` on the whole input. -/
def scan (s : Bytes) : Scan := rescan s Scan.nothing

/-- The scan results of a parser that is called after each chunk. -/
def scanChunks (chunks : List Bytes) : Scan :=
  accumulate (fun b c x => rescan (b ++ c) x) [] Scan.nothing chunks

theorem lineAt_success {buf : Bytes} {i : Nat} {p q : Parser}
    (h : lineAt buf i p = (q, .success)) :
    q.position = .kHeaders ∧ q.resolvedLen = i + 2 := by
  unfold lineAt HttpParser.takeFirstLine at h
  split at h
  · cases h
    exact ⟨rfl, rfl⟩
  · cases h
  · cases h

/-- A request line that is not taken stops the parser. -/
theorem lineAt_stopped {buf : Bytes} {i : Nat} {q : Parser} {res : Resolved}
    (h : lineAt buf i waiting = (q, res)) (hres : res ≠ .success) :
    q.position = .kError := by
  have hthrown := RequestLine.parseFromString_ne_thrown waiting.firstLine (buf.take i)
  unfold lineAt HttpParser.takeFirstLine at h
  split at h
  · cases h
    exact absurd rfl hres
  · cases h
    rfl
  · rename_i hthrow
    rw [hthrow] at hthrown
    exact absurd rfl hthrown

theorem headersAt_success {buf : Bytes} {j : Nat} {p q : Parser}
    (h : headersAt buf j p = (q, .success)) : q.position = .kBody := by
  unfold headersAt HttpParser.takeHeaders at h
  split at h
  · cases h
    dsimp only
    split <;> rfl
  · cases h

theorem headersAt_stopped {buf : Bytes} {j : Nat} {p q : Parser} {res : Resolved}
    (h : headersAt buf j p = (q, res)) (hres : res ≠ .success) :
    q.position = .kError := by
  unfold headersAt HttpParser.takeHeaders at h
  split at h
  · cases h
    exact absurd rfl hres
  · cases h
    rfl

/-! ## The loop of `DoParse` ends in that state -/

theorem resolvers_firstLine (buf : Bytes) (p : Parser) :
    resolvers.firstLine buf p =
      match scanLine buf with
      | some i => lineAt buf i p
      | none => ({ p with position := .kFirstLine, resolvedLen := 0 }, .failure) := rfl

theorem resolvers_headers {buf : Bytes} {p : Parser} {i : Nat}
    (h : p.resolvedLen = i + 2) :
    resolvers.headers buf p =
      match scanHeaders buf i with
      | some j => headersAt buf j p
      | none => (p, .failure) := by
  simp only [resolvers, resolveHeaders, HttpParser.resolveHeaders, scanHeaders,
    headersAt, h]
  cases Str.strnstr (buf.drop (i + 2)) HttpParser.crlfcrlf (buf.length - (i + 2)) with
  | none => rfl
  | some j => rfl

theorem resolveBody_success {buf : Bytes} {p q : Parser}
    (h : resolveBody buf p = (q, .success)) : q.position = .kEnd := by
  unfold resolveBody HttpParser.resolveBody at h
  dsimp only at h
  split_ifs at h <;> cases h <;> rfl

theorem resolveBody_failure {buf : Bytes} {p q : Parser}
    (h : resolveBody buf p = (q, .failure)) : q.position = p.position ∨ Stopped q := by
  unfold resolveBody HttpParser.resolveBody at h
  dsimp only at h
  split_ifs at h <;> cases h
  · exact Or.inr (Or.inr rfl)
  · exact Or.inr (Or.inr rfl)
  · exact Or.inr (Or.inr rfl)
  · exact Or.inl rfl

/-- In `kBody` one round of the loop is all there is. -/
theorem loop_body {buf : Bytes} {p : Parser} (hp : p.position = .kBody) (n : Nat) :
    (HttpParser.loop resolvers buf (n + 1) p).1 = (resolveBody buf p).1 := by
  have hres : HttpParser.resolve resolvers buf p = resolveBody buf p := by
    simp [HttpParser.resolve, hp, resolvers]
  rcases hq : resolveBody buf p with ⟨q, res⟩
  refine HttpParser.loop_fst_of_last (hres.trans hq) ?_ n
  cases res with
  | success => exact Or.inr (Or.inl (resolveBody_success hq))
  | failure => exact Or.inl (by decide)
  | thrown => exact Or.inl (by decide)

/-- From `kHeaders` the loop ends as the second scan says. -/
theorem loop_headers {buf : Bytes} {p : Parser} {i : Nat}
    (hp : p.position = .kHeaders) (hi : p.resolvedLen = i + 2) (n : Nat) :
    (HttpParser.loop resolvers buf (n + 2) p).1 =
      finishHeaders buf (scanHeaders buf i) p := by
  have hres : HttpParser.resolve resolvers buf p = resolvers.headers buf p := by
    simp [HttpParser.resolve, hp]
  rw [resolvers_headers hi] at hres
  cases hscan : scanHeaders buf i with
  | none =>
      rw [hscan] at hres
      exact HttpParser.loop_fst_of_last hres (Or.inl (by decide)) (n + 1)
  | some j =>
      rw [hscan] at hres
      simp only [finishHeaders]
      rcases hq : headersAt buf j p with ⟨q, res⟩
      simp only [hq] at hres
      cases res with
      | success =>
          have hbody := headersAt_success hq
          have hns : ¬ Stopped q := by simp [Stopped, hbody]
          rw [HttpParser.loop_of_success hres (fun he => hns (Or.inl he))
            (fun he => hns (Or.inr he))]
          exact loop_body hbody n
      | failure => exact HttpParser.loop_fst_of_last hres (Or.inl (by decide)) (n + 1)
      | thrown => exact HttpParser.loop_fst_of_last hres (Or.inl (by decide)) (n + 1)

/-- From `kFirstLine` the loop ends as both scans say. -/
theorem loop_waiting (buf : Bytes) (n : Nat) :
    (HttpParser.loop resolvers buf (n + 3) waiting).1 = finishLine buf (scan buf) := by
  have hres : HttpParser.resolve resolvers buf waiting =
      resolvers.firstLine buf waiting := by
    simp only [HttpParser.resolve, waiting]
  rw [resolvers_firstLine] at hres
  simp only [scan, rescan, Scan.nothing, Option.none_or, finishLine]
  cases hscan : scanLine buf with
  | none =>
      rw [hscan] at hres
      exact HttpParser.loop_fst_of_last hres (Or.inl (by decide)) (n + 2)
  | some i =>
      rw [hscan] at hres
      dsimp only at hres ⊢
      rcases hq : lineAt buf i waiting with ⟨q, res⟩
      rw [hq] at hres
      dsimp only
      cases res with
      | success =>
          obtain ⟨hhead, hlen⟩ := lineAt_success hq
          have hns : ¬ Stopped q := by simp [Stopped, hhead]
          rw [HttpParser.loop_of_success hres (fun he => hns (Or.inl he))
            (fun he => hns (Or.inr he))]
          exact loop_headers hhead hlen n
      | failure => exact HttpParser.loop_fst_of_last hres (Or.inl (by decide)) (n + 2)
      | thrown => exact HttpParser.loop_fst_of_last hres (Or.inl (by decide)) (n + 2)

/-- A fresh parser and a waiting one do the same first round. -/
theorem loop_fresh {buf : Bytes} (hbuf : buf ≠ []) (n : Nat) :
    HttpParser.loop resolvers buf (n + 1) Parser.fresh =
      HttpParser.loop resolvers buf (n + 1) waiting := by
  have hpos : 0 < buf.length := List.length_pos_iff.2 hbuf
  have hres : HttpParser.resolve resolvers buf Parser.fresh =
      HttpParser.resolve resolvers buf waiting := by
    simp only [HttpParser.resolve, Parser.fresh, HttpParser.init, waiting, hpos,
      and_self, if_true]
  rw [HttpParser.loop, HttpParser.loop, hres]

/-- One call of `DoParse` on a non-empty buffer, from a fresh parser. -/
theorem doParse_fresh {buf : Bytes} (hbuf : buf ≠ []) :
    (Parser.doParse buf Parser.fresh).1 = finishLine buf (scan buf) := by
  have hlen : buf.length ≠ 0 := by simpa using hbuf
  have hres : buf.length - (Parser.fresh).resolvedLen ≠ 0 := hlen
  rw [Parser.doParse, HttpParser.doParse, if_neg hlen, if_neg hres, loop_fresh hbuf]
  exact loop_waiting buf 1

/-! ## Chunk by chunk -/

/-- What is known of the scan results `x` of the buffer `b`: they come from
prefixes of it, and headers are scanned only behind an accepted line. -/
structure Sound (b : Bytes) (x : Scan) : Prop where
  line : ∀ i, x.line = some i → ∃ b' c', b = b' ++ c' ∧ scanLine b' = some i
  headers : ∀ j, x.headers = some j → ∃ i b' c', x.line = some i ∧
    (lineAt b i waiting).2 = .success ∧ b = b' ++ c' ∧ scanHeaders b' i = some j

theorem Sound.nothing (b : Bytes) : Sound b Scan.nothing :=
  ⟨fun _ h => (by cases h), fun _ h => (by cases h)⟩

theorem Sound.line_le {b : Bytes} {x : Scan} (h : Sound b x) {i : Nat}
    (hi : x.line = some i) : i + 2 ≤ b.length := by
  obtain ⟨b', c', rfl, hscan⟩ := h.line i hi
  have := scanLine_add_le hscan
  simp only [List.length_append]
  omega

theorem Sound.headers_le {b : Bytes} {x : Scan} (h : Sound b x) {i j : Nat}
    (hi : x.line = some i) (hj : x.headers = some j) :
    i + 2 + j + 4 ≤ b.length := by
  obtain ⟨i', b', c', hi', _, rfl, hscan⟩ := h.headers j hj
  cases hi.symm.trans hi'
  have := scanHeaders_add_le hscan
  simp only [List.length_append]
  omega

/-- The request line and the header block are read from the part of the
buffer that was there when they were found. -/
theorem lineAt_append {b : Bytes} {i : Nat} (h : i ≤ b.length) (c : Bytes)
    (p : Parser) : lineAt (b ++ c) i p = lineAt b i p := by
  simp only [lineAt, HttpParser.takeFirstLine, List.take_append_of_le_length h]

theorem headersAt_append {b : Bytes} {j : Nat} {p : Parser}
    (h : p.resolvedLen + j ≤ b.length) (c : Bytes) :
    headersAt (b ++ c) j p = headersAt b j p := by
  have htake : ((b ++ c).drop p.resolvedLen).take j = (b.drop p.resolvedLen).take j := by
    rw [List.drop_append_of_le_length (by omega),
      List.take_append_of_le_length (by rw [List.length_drop]; omega)]
  simp only [headersAt, HttpParser.takeHeaders, htake]

theorem Sound.rescan {b : Bytes} {x : Scan} (h : Sound b x) (c : Bytes) :
    Sound (b ++ c) (rescan (b ++ c) x) := by
  unfold Request.rescan
  cases hline : x.line with
  | none =>
      simp only [Option.none_or]
      cases hscan : scanLine (b ++ c) with
      | none => exact Sound.nothing _
      | some i =>
          refine ⟨fun k hk => ?_, fun j hj => ?_⟩
          · cases hk
            exact ⟨b ++ c, [], by simp, hscan⟩
          · -- no line was known before, so no headers were
            have hnone : x.headers = none := by
              cases hx : x.headers with
              | none => rfl
              | some j' =>
                  obtain ⟨_, _, _, hi, _⟩ := h.headers j' hx
                  rw [hline] at hi
                  cases hi
            dsimp only at hj
            split at hj
            next hok =>
              rw [hnone, Option.none_or] at hj
              exact ⟨i, b ++ c, [], rfl, hok, by simp, hj⟩
            next => cases hj
  | some i =>
      have hle := h.line_le hline
      obtain ⟨b', c', hb, hscan⟩ := h.line i hline
      simp only [Option.some_or]
      refine ⟨fun k hk => ?_, fun j hj => ?_⟩
      · cases hk
        exact ⟨b', c' ++ c, by rw [hb, List.append_assoc], hscan⟩
      · dsimp only at hj
        split at hj
        next hok =>
          cases hx : x.headers with
          | none =>
              rw [hx, Option.none_or] at hj
              exact ⟨i, b ++ c, [], rfl, hok, by simp, hj⟩
          | some j' =>
              rw [hx, Option.some_or, Option.some.injEq] at hj
              subst hj
              obtain ⟨i', d', e', hi', _, hd, hscan'⟩ := h.headers j' hx
              cases hline.symm.trans hi'
              exact ⟨i, d', e' ++ c, rfl, hok, by rw [hd, List.append_assoc], hscan'⟩
        next => cases hj

theorem sound_scan (s : Bytes) : Sound s (scan s) := (Sound.nothing []).rescan s

/-- A parser that stays in `kBody` has only noted how far it has read. -/
theorem resolveBody_again {b c : Bytes} {q : Parser} (hq : q.position = .kBody)
    (hns : ¬ Stopped (resolveBody b q).1) :
    (resolveBody b q).1.resolvedLen = b.length ∧
      (resolveBody b q).1.position = .kBody ∧
      (resolveBody (b ++ c) (resolveBody b q).1).1 = (resolveBody (b ++ c) q).1 := by
  by_cases hget : q.firstLine.method = .kGET
  · exfalso
    apply hns
    unfold resolveBody
    rw [if_pos hget]
    split
    · exact Or.inr rfl
    · exact Or.inl rfl
  · have hbase : resolveBody b q = HttpParser.resolveBody b q := by
      rw [resolveBody, if_neg hget]
    rw [hbase] at hns ⊢
    unfold HttpParser.resolveBody at hns ⊢
    dsimp only at hns ⊢
    split at hns
    · exact absurd (Or.inr rfl) hns
    · rename_i hlen
      split at hns
      · exact absurd (Or.inr rfl) hns
      · split at hns
        · exact absurd (Or.inl rfl) hns
        · rename_i hlt hne
          rw [if_neg hlen, if_neg hlt, if_neg hne]
          refine ⟨rfl, hq, ?_⟩
          simp only [resolveBody, if_neg hget, HttpParser.resolveBody, if_neg hlen]

/-- One more chunk, from the state of a parser that has not stopped. -/
theorem doParse_stateOf {b c : Bytes} {x : Scan} (hc : c ≠ [])
    (hns : ¬ Stopped (stateOf b x)) (hx : Sound b x) (h0 : b = [] → x = Scan.nothing) :
    (Parser.doParse (b ++ c) (stateOf b x)).1 =
      stateOf (b ++ c) (rescan (b ++ c) x) := by
  have hbc : b ++ c ≠ [] := by simp [hc]
  have hcpos : 0 < c.length := List.length_pos_iff.2 hc
  have hlen : (b ++ c).length = b.length + c.length := List.length_append
  rw [stateOf, stateOf, if_neg hbc]
  by_cases hb : b = []
  · subst hb
    rw [if_pos rfl, h0 rfl]
    exact doParse_fresh hbc
  · rw [stateOf, if_neg hb] at hns
    rw [if_neg hb]
    cases hline : x.line with
    | none =>
        have hfin : finishLine b x = waiting := by simp [finishLine, hline]
        have hxn : x = Scan.nothing := by
          cases hh : x.headers with
          | none => cases x; simp_all [Scan.nothing]
          | some j =>
              obtain ⟨_, _, _, hi, _⟩ := hx.headers j hh
              rw [hline] at hi
              cases hi
        have hrl : (waiting).resolvedLen = 0 := rfl
        rw [hfin, hxn, Parser.doParse, HttpParser.doParse, if_neg (by omega),
          if_neg (by rw [hrl]; omega)]
        exact loop_waiting (b ++ c) 1
    | some i =>
        have hle := hx.line_le hline
        have hlineEq := lineAt_append (by omega : i ≤ b.length) c waiting
        rcases hq : lineAt b i waiting with ⟨p, res⟩
        -- a line that was not taken would have stopped the parser
        have hres : res = .success := by
          by_contra hne
          apply hns
          have hstop := lineAt_stopped hq hne
          have hfin : finishLine b x = p := by
            simp only [finishLine, hline, hq]
          rw [hfin]
          exact Or.inr hstop
        subst hres
        obtain ⟨hhead, hplen⟩ := lineAt_success hq
        have hfin : finishLine b x = finishHeaders b x.headers p := by
          simp only [finishLine, hline, hq]
        have hrescan : finishLine (b ++ c) (rescan (b ++ c) x) =
            finishHeaders (b ++ c) (x.headers.or (scanHeaders (b ++ c) i)) p := by
          simp only [finishLine, rescan, hline, Option.some_or, hlineEq, hq, if_true]
        rw [hfin] at hns ⊢
        rw [hrescan]
        cases hh : x.headers with
        | none =>
            have hfh : finishHeaders b none p = p := rfl
            rw [hfh, Option.none_or, Parser.doParse, HttpParser.doParse,
              if_neg (by omega), if_neg (by rw [hplen]; omega)]
            exact loop_headers hhead hplen 2
        | some j =>
            have hjle := hx.headers_le hline hh
            have hheadEq := headersAt_append
              (by rw [hplen]; omega : p.resolvedLen + j ≤ b.length) c
            rcases hr : headersAt b j p with ⟨q, res⟩
            have hres : res = .success := by
              by_contra hne
              apply hns
              have hstop := headersAt_stopped hr hne
              have hfh : finishHeaders b x.headers p = q := by
                simp only [finishHeaders, hh, hr]
              rw [hfh]
              exact Or.inr hstop
            subst hres
            have hfh : finishHeaders b (some j) p = (resolveBody b q).1 := by
              simp only [finishHeaders, hr]
            have hfhc : finishHeaders (b ++ c) (some j) p = (resolveBody (b ++ c) q).1 := by
              simp only [finishHeaders, hheadEq, hr]
            rw [hh, hfh] at hns
            obtain ⟨hrl, hpos, hagain⟩ :=
              resolveBody_again (c := c) (headersAt_success hr) hns
            rw [Option.some_or, hfh, hfhc, Parser.doParse, HttpParser.doParse,
              if_neg (by omega), if_neg (by rw [hrl]; omega), loop_body hpos]
            exact hagain

/-! ## Two ways to cut one input -/

/-- The parser after the chunks, with a call of `DoParse` after each. -/
def parseChunks (chunks : List Bytes) : Parser :=
  feed (fun buf p => (Parser.doParse buf p).1) [] Parser.fresh chunks

/-- The parser after one call of `DoParse` on the whole input. -/
def parseWhole (s : Bytes) : Parser := (Parser.doParse s Parser.fresh).1

/-- No chunk but the last brings the parser to `kEnd` or `kError`. -/
def RunsToLast (chunks : List Bytes) : Prop :=
  Unstopped (fun buf p => (Parser.doParse buf p).1) Stopped [] Parser.fresh chunks

instance (chunks : List Bytes) : Decidable (RunsToLast chunks) :=
  inferInstanceAs (Decidable (Unstopped _ Stopped _ _ _))

/-- What a reader of the packet can see of the parser's work. -/
def observed (p : Parser) :
    TPosition × RequestLine × HeaderField × Bool × Bytes :=
  (p.position, p.firstLine, p.headers, p.isUpgradeToWs, p.body)

theorem parseChunks_eq {chunks : List Bytes} (hne : ∀ c ∈ chunks, c ≠ [])
    (hrun : RunsToLast chunks) :
    parseChunks chunks = stateOf chunks.flatten (scanChunks chunks) ∧
      Sound chunks.flatten (scanChunks chunks) := by
  have hsim := feed_eq_of_simulation stateOf (fun b c x => rescan (b ++ c) x)
    (fun b x => Sound b x ∧ (b = [] → x = Scan.nothing))
    (fun b c x hc hstop hgood =>
      ⟨doParse_stateOf hc hstop hgood.1 hgood.2,
        hgood.1.rescan c, fun h => absurd (List.append_eq_nil_iff.1 h).2 hc⟩)
    (b := []) (x := Scan.nothing) ⟨Sound.nothing _, fun _ => rfl⟩ hne hrun
  exact ⟨hsim.1, hsim.2.1⟩

theorem parseWhole_eq (s : Bytes) : parseWhole s = stateOf s (scan s) := by
  unfold parseWhole stateOf
  split
  next h => subst h; rfl
  next h => exact doParse_fresh h

/-- Scans that succeed on prefixes of one buffer agree. -/
theorem scanLine_unique {b c b' c' : Bytes} {i i' : Nat} (h : b ++ c = b' ++ c')
    (hi : scanLine b = some i) (hi' : scanLine b' = some i') : i = i' := by
  rcases List.append_eq_append_iff.1 h with ⟨d, rfl, _⟩ | ⟨d, rfl, _⟩
  · exact Str.strnstr_unique HttpParser.isLiteral_crlf hi hi'
  · exact (Str.strnstr_unique HttpParser.isLiteral_crlf hi' hi).symm

theorem scanHeaders_append_eq {b d : Bytes} {i j : Nat}
    (h : scanHeaders b i = some j) :
    (b ++ d).drop (i + 2) = b.drop (i + 2) ++ d := by
  have hle := scanHeaders_add_le h
  exact List.drop_append_of_le_length (by omega)

theorem scanHeaders_eq (b : Bytes) (i : Nat) :
    scanHeaders b i = Str.strnstr (b.drop (i + 2)) HttpParser.crlfcrlf
      (b.drop (i + 2)).length := by
  rw [scanHeaders, List.length_drop]

theorem scanHeaders_unique {b c b' c' : Bytes} {i j j' : Nat} (h : b ++ c = b' ++ c')
    (hj : scanHeaders b i = some j) (hj' : scanHeaders b' i = some j') : j = j' := by
  rcases List.append_eq_append_iff.1 h with ⟨d, rfl, _⟩ | ⟨d, rfl, _⟩
  · have happ := scanHeaders_append_eq (d := d) hj
    rw [scanHeaders_eq] at hj hj'
    rw [happ] at hj'
    exact Str.strnstr_unique HttpParser.isLiteral_crlfcrlf hj hj'
  · have happ := scanHeaders_append_eq (d := d) hj'
    rw [scanHeaders_eq] at hj hj'
    rw [happ] at hj
    exact (Str.strnstr_unique HttpParser.isLiteral_crlfcrlf hj' hj).symm

/-- Behind a header block the parser is past `kHeaders`. -/
theorem finishHeaders_position_ne {buf : Bytes} {j : Nat} {p : Parser} :
    (finishHeaders buf (some j) p).position ≠ .kHeaders ∧
      (finishHeaders buf (some j) p).position ≠ .kFirstLine := by
  simp only [finishHeaders]
  rcases hr : headersAt buf j p with ⟨q, res⟩
  by_cases hres : res = .success
  · subst hres
    have hbody := headersAt_success hr
    rcases hb : resolveBody buf q with ⟨t, res⟩
    have ht : t.position = .kBody ∨ Stopped t := by
      cases res with
      | success => exact Or.inr (Or.inl (resolveBody_success hb))
      | failure => exact hbody ▸ resolveBody_failure hb
      | thrown =>
          exfalso
          unfold resolveBody HttpParser.resolveBody at hb
          dsimp only at hb
          split_ifs at hb <;> cases hb
    dsimp only
    rw [hb]
    rcases ht with ht | ht | ht <;> simp [ht]
  · have hstop := headersAt_stopped hr hres
    simp only [hstop]
    decide

/-- Behind a request line the parser is past `kFirstLine`. -/
theorem finishLine_position_ne {buf : Bytes} {x : Scan} {i : Nat}
    (h : x.line = some i) : (finishLine buf x).position ≠ .kFirstLine := by
  simp only [finishLine, h]
  rcases hq : lineAt buf i waiting with ⟨p, res⟩
  by_cases hres : res = .success
  · subst hres
    dsimp only
    cases x.headers with
    | none =>
        have hp := (lineAt_success hq).1
        simp [finishHeaders, hp]
    | some j => exact finishHeaders_position_ne.2
  · have hstop := lineAt_stopped hq hres
    simp [hstop]

/-- The scan results can be read off the state. -/
theorem scan_eq_of_observed {s : Bytes} (hs : s ≠ []) {x y : Scan}
    (hx : Sound s x) (hy : Sound s y)
    (h : observed (stateOf s x) = observed (stateOf s y)) : x = y := by
  have hpos : (finishLine s x).position = (finishLine s y).position := by
    have := congrArg Prod.fst h
    simpa only [observed, stateOf, if_neg hs] using this
  have hnone : ∀ {z : Scan}, Sound s z → z.line = none → z.headers = none := by
    intro z hz hl
    cases hh : z.headers with
    | none => rfl
    | some j =>
        obtain ⟨_, _, _, hi, _⟩ := hz.headers j hh
        rw [hl] at hi
        cases hi
  have hwait : ∀ {z : Scan}, z.line = none → (finishLine s z).position = .kFirstLine := by
    intro z hl
    simp [finishLine, hl, waiting]
  rcases x with ⟨lx, hdx⟩
  rcases y with ⟨ly, hdy⟩
  cases lx with
  | none =>
      cases ly with
      | none =>
          have h1 : hdx = none := hnone hx rfl
          have h2 : hdy = none := hnone hy rfl
          rw [h1, h2]
      | some i =>
          rw [hwait rfl] at hpos
          exact absurd hpos.symm (finishLine_position_ne rfl)
  | some i =>
      cases ly with
      | none =>
          rw [hwait (z := ⟨none, hdy⟩) rfl] at hpos
          exact absurd hpos (finishLine_position_ne rfl)
      | some i' =>
          obtain ⟨b, c, hb, hi⟩ := hx.line i rfl
          obtain ⟨b', c', hb', hi'⟩ := hy.line i' rfl
          obtain rfl := scanLine_unique (hb ▸ hb') hi hi'
          rcases hq : lineAt s i waiting with ⟨p, res⟩
          cases hdx with
          | none =>
              cases hdy with
              | none => rfl
              | some j =>
                  obtain ⟨_, _, _, hi2, hok, _⟩ := hy.headers j rfl
                  cases hi2
                  rw [hq] at hok
                  cases hok
                  simp only [finishLine, hq] at hpos
                  have hp := (lineAt_success hq).1
                  rw [finishHeaders, hp] at hpos
                  exact absurd hpos.symm finishHeaders_position_ne.1
          | some j =>
              obtain ⟨_, d, e, hi2, hok, hd, hj⟩ := hx.headers j rfl
              cases hi2
              rw [hq] at hok
              cases hok
              cases hdy with
              | none =>
                  simp only [finishLine, hq] at hpos
                  have hp := (lineAt_success hq).1
                  rw [finishHeaders.eq_def s none, hp] at hpos
                  exact absurd hpos finishHeaders_position_ne.1
              | some j' =>
                  obtain ⟨_, d', e', hi3, _, hd', hj'⟩ := hy.headers j' rfl
                  cases hi3
                  rw [scanHeaders_unique (hd ▸ hd') hj hj']

/-! ## What the scans of the successive buffers find -/

/-- The scan of a prefix of `s` for the end of the request line. -/
theorem scanLine_iff {b s : Bytes} (hb : b <+: s) (i : Nat) :
    scanLine b = some i ↔ Str.find HttpParser.crlf s = some i ∧ Str.Shows b (i + 2) :=
  Str.strnstr_prefix_iff HttpParser.isLiteral_crlf hb i

/-- The scan of a prefix of `s` for the end of the headers. -/
theorem scanHeaders_iff {b s : Bytes} (hb : b <+: s) (i j : Nat) :
    scanHeaders b i = some j ↔ Str.find HttpParser.crlfcrlf (s.drop (i + 2)) = some j ∧
      Str.Shows (b.drop (i + 2)) (j + 4) := by
  rw [scanHeaders_eq]
  exact Str.strnstr_prefix_iff HttpParser.isLiteral_crlfcrlf (hb.drop (i + 2)) j

/-- Text that `ParseFromString` takes for a request line. -/
def Accepted (line : Bytes) : Prop := (RequestLine.init.parseFromString line).2 = .accepted

theorem lineAt_success_iff (buf : Bytes) (i : Nat) :
    (lineAt buf i waiting).2 = .success ↔ Accepted (buf.take i) := by
  have hline : waiting.firstLine = RequestLine.init := rfl
  unfold lineAt HttpParser.takeFirstLine Accepted
  rw [hline]
  rcases RequestLine.init.parseFromString (buf.take i) with ⟨l, res⟩
  cases res <;> simp

theorem rescan_line (buf : Bytes) (x : Scan) :
    (rescan buf x).line = x.line.or (scanLine buf) := by
  unfold rescan
  cases x.line.or (scanLine buf) <;> rfl

theorem rescan_headers_iff {buf : Bytes} {x : Scan} {j : Nat} :
    (rescan buf x).headers = some j ↔ ∃ i, (rescan buf x).line = some i ∧
      Accepted (buf.take i) ∧ x.headers.or (scanHeaders buf i) = some j := by
  rw [rescan_line]
  unfold rescan
  cases x.line.or (scanLine buf) with
  | none => simp [Scan.nothing]
  | some i =>
      have hsuccess := lineAt_success_iff buf i
      by_cases hok : Accepted (buf.take i) <;> simp [hok, hsuccess]

theorem scanChunks_concat (chunks : List Bytes) (c : Bytes) :
    scanChunks (chunks ++ [c]) = rescan (chunks ++ [c]).flatten (scanChunks chunks) := by
  unfold scanChunks
  rw [accumulate_concat]
  simp

/-- The end of a request line is found when the scan of some buffer on the way
finds it. -/
theorem scanChunks_line_iff {chunks : List Bytes} {i : Nat} :
    (scanChunks chunks).line = some i ↔
      ∃ pre, pre <+: chunks ∧ scanLine pre.flatten = some i := by
  induction chunks using List.reverseRecOn generalizing i with
  | nil =>
      constructor
      · intro h
        cases h
      · rintro ⟨pre, hpre, h⟩
        rw [List.prefix_nil.1 hpre] at h
        cases h
  | append_singleton cs c ih =>
      have hcs : cs <+: cs ++ [c] := List.prefix_append _ _
      rw [scanChunks_concat, rescan_line, Option.or_eq_some_iff]
      constructor
      · rintro (hx | ⟨-, h⟩)
        · obtain ⟨pre, hpre, h⟩ := ih.1 hx
          exact ⟨pre, hpre.trans hcs, h⟩
        · exact ⟨_, List.prefix_refl _, h⟩
      · rintro ⟨pre, hpre, h⟩
        rcases List.prefix_concat_iff.1 hpre with rfl | hpre
        · -- what an earlier scan has found is the same end
          cases hx : (scanChunks cs).line with
          | none => exact Or.inr ⟨rfl, h⟩
          | some i' =>
              obtain ⟨pre', hpre', h'⟩ := ih.1 hx
              have hfind := ((scanLine_iff (hpre'.trans hcs).flatten i').1 h').1
              have hfind' := ((scanLine_iff (List.prefix_refl _) i).1 h).1
              exact Or.inl (hfind.symm.trans hfind')
        · exact Or.inl (ih.2 ⟨pre, hpre, h⟩)

/-- The end of the headers is found when the scan of some buffer finds it, and
that of this or an earlier one the end of a request line. -/
theorem scanChunks_headers_iff {chunks : List Bytes} {j : Nat} :
    (scanChunks chunks).headers = some j ↔ ∃ i pre pre', pre <+: pre' ∧ pre' <+: chunks ∧
      scanLine pre.flatten = some i ∧ Accepted (chunks.flatten.take i) ∧
        scanHeaders pre'.flatten i = some j := by
  induction chunks using List.reverseRecOn generalizing j with
  | nil =>
      constructor
      · intro h
        cases h
      · rintro ⟨i, pre, pre', hpre, hpre', h, -⟩
        rw [List.prefix_nil.1 (hpre.trans hpre')] at h
        cases h
  | append_singleton cs c ih =>
      have hcs : cs <+: cs ++ [c] := List.prefix_append _ _
      have htake : ∀ {i pre}, pre <+: cs → scanLine pre.flatten = some i →
          (cs ++ [c]).flatten.take i = cs.flatten.take i := by
        intro i pre hpre h
        obtain ⟨t, ht⟩ := hcs.flatten
        have hle := scanLine_add_le h
        have hlen := hpre.flatten.length_le
        rw [← ht, List.take_append_of_le_length (by omega)]
      rw [scanChunks_concat, rescan_headers_iff, ← scanChunks_concat]
      simp only [scanChunks_line_iff, Option.or_eq_some_iff]
      constructor
      · rintro ⟨i, ⟨pre, hpre, hi⟩, hok, hx | ⟨-, hj⟩⟩
        · obtain ⟨i', pre₁, pre', hpre₁, hpre', hi', hok', hj⟩ := ih.1 hx
          refine ⟨i', pre₁, pre', hpre₁, hpre'.trans hcs, hi', ?_, hj⟩
          rwa [htake (hpre₁.trans hpre') hi']
        · exact ⟨i, pre, _, hpre, List.prefix_refl _, hi, hok, hj⟩
      · rintro ⟨i, pre, pre', hpre, hpre', hi, hok, hj⟩
        refine ⟨i, ⟨pre, hpre.trans hpre', hi⟩, hok, ?_⟩
        rcases List.prefix_concat_iff.1 hpre' with rfl | hpre'
        · cases hx : (scanChunks cs).headers with
          | none => exact Or.inr ⟨rfl, hj⟩
          | some j' =>
              obtain ⟨i', pre₁, pre₂, hpre₁, hpre₂, hi', -, hj'⟩ := ih.1 hx
              have hsame : i' = i := Option.some.inj
                (((scanLine_iff ((hpre₁.trans hpre₂).trans hcs).flatten i').1 hi').1.symm.trans
                  ((scanLine_iff hpre.flatten i).1 hi).1)
              rw [hsame] at hj'
              have hfind := ((scanHeaders_iff (hpre₂.trans hcs).flatten i j').1 hj').1
              have hfind' := ((scanHeaders_iff (List.prefix_refl _) i j).1 hj).1
              exact Or.inl (hfind.symm.trans hfind')
        · refine Or.inl (ih.2 ⟨i, pre, pre', hpre, hpre', hi, ?_, hj⟩)
          rwa [htake (hpre.trans hpre') hi] at hok

/-- **The condition.**  An end that the scan of a buffer on the way sees is also
seen by the scan of the whole: the first CRLF, and the first CRLFCRLF behind a
request line.  Both scans are cut short by lengths only. -/
structure EndsKept (chunks : List Bytes) : Prop where
  line : ∀ i, Str.find HttpParser.crlf chunks.flatten = some i →
    ∀ pre, pre <+: chunks → Str.Shows pre.flatten (i + 2) → Str.Shows chunks.flatten (i + 2)
  headers : ∀ i j, Str.find HttpParser.crlf chunks.flatten = some i →
    Accepted (chunks.flatten.take i) →
    Str.find HttpParser.crlfcrlf (chunks.flatten.drop (i + 2)) = some j →
    ∀ pre pre', pre <+: pre' → pre' <+: chunks → Str.Shows pre.flatten (i + 2) →
      Str.Shows (pre'.flatten.drop (i + 2)) (j + 4) →
      Str.Shows (chunks.flatten.drop (i + 2)) (j + 4)

/-- Below 2³² bytes no end is lost. -/
theorem endsKept_of_lt {chunks : List Bytes} (h : chunks.flatten.length < 2 ^ 32) :
    EndsKept chunks where
  line i _ pre hpre hshows := hshows.mono hpre.flatten h
  headers i j _ _ _ pre pre' _ hpre' _ hshows := by
    apply hshows.mono (hpre'.flatten.drop (i + 2))
    rw [List.length_drop]
    omega

theorem scan_line (s : Bytes) : (scan s).line = scanLine s := by
  rw [scan, rescan_line]
  rfl

theorem scan_headers_iff {s : Bytes} {j : Nat} :
    (scan s).headers = some j ↔ ∃ i, scanLine s = some i ∧ Accepted (s.take i) ∧
      scanHeaders s i = some j := by
  rw [scan, rescan_headers_iff, ← scan, scan_line]
  rfl

/-- The scans of the successive buffers and those of the whole agree exactly when
no end is lost. -/
theorem scanChunks_eq_scan_iff (chunks : List Bytes) :
    scanChunks chunks = scan chunks.flatten ↔ EndsKept chunks := by
  have hrefl := List.prefix_refl chunks.flatten
  constructor
  · intro heq
    constructor
    · intro i hfind pre hpre hshows
      have hline : (scanChunks chunks).line = some i :=
        scanChunks_line_iff.2 ⟨pre, hpre, (scanLine_iff hpre.flatten i).2 ⟨hfind, hshows⟩⟩
      rw [heq, scan_line] at hline
      exact ((scanLine_iff hrefl i).1 hline).2
    · intro i j hfind hok hfindj pre pre' hpre hpre' hshows hshowsj
      have hi := (scanLine_iff (hpre.trans hpre').flatten i).2 ⟨hfind, hshows⟩
      have hj := (scanHeaders_iff hpre'.flatten i j).2 ⟨hfindj, hshowsj⟩
      have hheaders : (scanChunks chunks).headers = some j :=
        scanChunks_headers_iff.2 ⟨i, pre, pre', hpre, hpre', hi, hok, hj⟩
      rw [heq] at hheaders
      obtain ⟨i', hi', -, hj'⟩ := scan_headers_iff.1 hheaders
      have hsame : i' = i :=
        Option.some.inj (((scanLine_iff hrefl i').1 hi').1.symm.trans hfind)
      rw [hsame] at hj'
      exact ((scanHeaders_iff hrefl i j).1 hj').2
  · intro hkept
    have hline : (scanChunks chunks).line = (scan chunks.flatten).line := by
      apply Option.ext
      intro i
      rw [scanChunks_line_iff, scan_line]
      constructor
      · rintro ⟨pre, hpre, h⟩
        obtain ⟨hfind, hshows⟩ := (scanLine_iff hpre.flatten i).1 h
        exact (scanLine_iff hrefl i).2 ⟨hfind, hkept.line i hfind pre hpre hshows⟩
      · intro h
        exact ⟨chunks, List.prefix_refl _, h⟩
    have hheaders : (scanChunks chunks).headers = (scan chunks.flatten).headers := by
      apply Option.ext
      intro j
      rw [scanChunks_headers_iff, scan_headers_iff]
      constructor
      · rintro ⟨i, pre, pre', hpre, hpre', hi, hok, hj⟩
        obtain ⟨hfind, hshows⟩ := (scanLine_iff (hpre.trans hpre').flatten i).1 hi
        obtain ⟨hfindj, hshowsj⟩ := (scanHeaders_iff hpre'.flatten i j).1 hj
        refine ⟨i, ?_, hok, ?_⟩
        · exact (scanLine_iff hrefl i).2
            ⟨hfind, hkept.line i hfind pre (hpre.trans hpre') hshows⟩
        · exact (scanHeaders_iff hrefl i j).2
            ⟨hfindj, hkept.headers i j hfind hok hfindj pre pre' hpre hpre' hshows hshowsj⟩
      · rintro ⟨i, hi, hok, hj⟩
        exact ⟨i, chunks, chunks, List.prefix_refl _, List.prefix_refl _, hi, hok, hj⟩
    cases hx : scanChunks chunks
    cases hy : scan chunks.flatten
    rw [hx, hy] at hline hheaders
    dsimp only at hline hheaders
    rw [hline, hheaders]

/-- **Segmentation.**  Feeding an input in chunks and feeding it at once give
the same position, request line, headers, upgrade flag and body exactly when
the scans of the whole input still reach the ends of the request line and of the
header block that the scans of the successive prefixes reached; below 2³²
bytes they always do. -/
theorem observed_parseChunks_iff (chunks : List Bytes)
    (hne : ∀ c ∈ chunks, c ≠ []) (hrun : RunsToLast chunks) :
    (observed (parseChunks chunks) = observed (parseWhole chunks.flatten) ↔ EndsKept chunks) ∧
      (chunks.flatten.length < 2 ^ 32 → EndsKept chunks) := by
  refine ⟨?_, endsKept_of_lt⟩
  rw [← scanChunks_eq_scan_iff]
  obtain ⟨hchunks, hsound⟩ := parseChunks_eq hne hrun
  have hwhole := parseWhole_eq chunks.flatten
  constructor
  · intro h
    rw [hchunks, hwhole] at h
    by_cases hs : chunks.flatten = []
    · exact (scanChunks_eq_scan_iff chunks).2 (endsKept_of_lt (by rw [hs]; decide))
    · exact scan_eq_of_observed hs hsound (sound_scan _) h
  · intro h
    rw [hchunks, hwhole, h]

/-- A request cut inside its CRLFCRLF. -/
theorem observed_parseChunks_iff_cut :
    observed (parseChunks [lit "GET /a HTTP/1.1\r\nHost: x\r\nA: b\r\n\r", lit "\n"]) =
      observed (parseWhole (lit "GET /a HTTP/1.1\r\nHost: x\r\nA: b\r\n\r\n")) :=
  have h := observed_parseChunks_iff
    [lit "GET /a HTTP/1.1\r\nHost: x\r\nA: b\r\n\r", lit "\n"] (by decide) (by decide)
  h.1.2 (h.2 (by decide))

/-! ### The scan of 2³² bytes and more -/

/-- 2³² + 1 bytes: a request line and a header that does not end. -/
def longChunks : List Bytes :=
  [lit "GET / HTTP/1.1\r\n", List.replicate 4294967281 97]

theorem longChunks_length : longChunks.flatten.length = 4294967297 := by
  have hhead : (lit "GET / HTTP/1.1\r\n").length = 16 := by decide
  simp only [longChunks, List.flatten_cons, List.flatten_nil, List.append_nil,
    List.length_append, List.length_replicate, hhead]

theorem longChunks_nulFree : ∀ c ∈ longChunks.flatten, c ≠ 0 := by
  intro c hc
  simp only [longChunks, List.flatten_cons, List.flatten_nil, List.append_nil,
    List.mem_append] at hc
  rcases hc with hc | hc
  · have hline : (lit "GET / HTTP/1.1\r\n").all (· ≠ 0) = true := by decide
    simpa using List.all_eq_true.1 hline c hc
  · rw [List.eq_of_mem_replicate hc]
    decide

/-- The `int` that `strnstr` stores its length in is 1, so the scan of the
whole looks at one byte. -/
theorem scanLine_longChunks : scanLine longChunks.flatten = none := by
  have hstrnlen : Str.strnlen longChunks.flatten longChunks.flatten.length = 4294967297 := by
    rw [Str.strnlen, List.take_length, Str.strlen, Str.cstr,
      List.takeWhile_eq_self_iff.2 (by simpa using longChunks_nulFree), longChunks_length]
  have hscan : Str.scanLen longChunks.flatten longChunks.flatten.length = 1 := by
    have hsize : Str.toSizeT (Str.toInt 4294967297) = 1 := by decide
    simp only [Str.scanLen, hstrnlen, hsize]
    rw [longChunks_length]
    decide
  cases h : scanLine longChunks.flatten with
  | none => rfl
  | some i =>
      have hle := ((Str.strnstr_eq_some_iff HttpParser.isLiteral_crlf _ _ _).1 h).1
      rw [hscan] at hle
      have hcrlf : HttpParser.crlf.length = 2 := by decide
      omega

/-- The scan of the first chunk found the request line, and it stays found. -/
theorem scanChunks_longChunks : (scanChunks longChunks).line = some 14 := by
  have hfirst : rescan ([] ++ lit "GET / HTTP/1.1\r\n") Scan.nothing = ⟨some 14, none⟩ := by
    decide
  simp only [scanChunks, longChunks, accumulate]
  rw [hfirst]
  simp only [rescan, Option.some_or]

theorem runsToLast_pair {c d : Bytes} (h : ¬ Stopped (parseWhole c)) :
    RunsToLast [c, d] :=
  ⟨by decide, h, True.intro⟩

theorem runsToLast_longChunks : RunsToLast longChunks :=
  runsToLast_pair (by decide)

/-- A line that the chunks had and the whole has not is seen in the outcome. -/
theorem observed_ne_of_line {chunks : List Bytes} {i : Nat}
    (hne : ∀ c ∈ chunks, c ≠ []) (hrun : RunsToLast chunks) (hs : chunks.flatten ≠ [])
    (hline : (scanChunks chunks).line = some i) (hwhole : scanLine chunks.flatten = none) :
    observed (parseChunks chunks) ≠ observed (parseWhole chunks.flatten) := by
  intro h
  obtain ⟨hchunks, hsound⟩ := parseChunks_eq hne hrun
  rw [hchunks, parseWhole_eq] at h
  have hscan := congrArg Scan.line (scan_eq_of_observed hs hsound (sound_scan _) h)
  have hnone : (scan chunks.flatten).line = none := by
    simp only [scan, rescan, Scan.nothing, Option.none_or, hwhole]
  rw [hline, hnone] at hscan
  cases hscan

theorem longChunks_ne_nil : ∀ c ∈ longChunks, c ≠ [] := by
  intro c hc
  simp only [longChunks, List.mem_cons, List.not_mem_nil, or_false] at hc
  rcases hc with rfl | rfl
  · decide
  · rw [Ne, List.replicate_eq_nil_iff]
    omega

theorem longChunks_flatten_ne_nil : longChunks.flatten ≠ [] := by
  intro h
  have hlen := longChunks_length
  rw [h, List.length_nil] at hlen
  omega

/-- On 2³² + 1 bytes the two ways to feed the parser disagree. -/
theorem observed_longChunks_ne :
    (∀ c ∈ longChunks, c ≠ []) ∧ RunsToLast longChunks ∧
      observed (parseChunks longChunks) ≠ observed (parseWhole longChunks.flatten) :=
  ⟨longChunks_ne_nil, runsToLast_longChunks,
    observed_ne_of_line longChunks_ne_nil runsToLast_longChunks longChunks_flatten_ne_nil
      scanChunks_longChunks scanLine_longChunks⟩

end Unixtar.Http.Request
