import Unixtar.Http.Delivery
import Unixtar.NetworkModel.Dispatch

/-!
# A request on its connection, from its first byte to its dispatch

The reads of an accepted connection return the bytes of one request, in any
number of read events and with any sizes.  `__OnReadEvent` passes the packet
to `HandleApplicationPacket` in the event that brings the last byte, and in no
other.

No read is `EAGAIN` here: behind one, `Receive` does not look at what it has
read.

## Main result

* `request_dispatched`
-/

namespace Unixtar

open Unixtar.Lib Unixtar.Http

namespace ShortLink

open ConnectionProfile

/-- The reads of an event return data. -/
def OnlyData (e : ReadInput) : Prop := ∀ o ∈ e.outs, ∃ seg, o = ReadOutcome.data seg

/-- The bytes `s` are a request that brings the parser to its end in any
segmentation; `Q` is what it is then. -/
def Arrives (s : Bytes) (Q : Request.Parser → Prop) : Prop :=
  ∀ chunks : List Bytes, (∀ c ∈ chunks, c ≠ []) → chunks.flatten = s →
    Request.RunsToLast chunks ∧ (Request.parseChunks chunks).isEnd = true ∧
      Q (Request.parseChunks chunks)

section Arrives

variable {s : Bytes} {Q : Request.Parser → Prop}

/-- Before its last byte the parser goes on. -/
theorem Arrives.not_stopped (h : Arrives s Q) {chunks : List Bytes} (hne : ∀ c ∈ chunks, c ≠ [])
    (hpre : chunks.flatten <+: s) (hproper : chunks.flatten ≠ s) :
    ¬ Request.Stopped (Request.parseChunks chunks) := by
  obtain ⟨rest, hrest⟩ := hpre
  have hmore : rest ≠ [] := by
    rintro rfl
    exact hproper ((List.append_nil _).symm.trans hrest)
  have hall : ∀ c ∈ chunks ++ [rest], c ≠ [] := by
    intro c hc
    rcases List.mem_append.1 hc with hc | hc
    · exact hne c hc
    · rw [List.mem_singleton.1 hc]
      exact hmore
  obtain ⟨hrun, -, -⟩ := h (chunks ++ [rest]) hall (by simpa using hrest)
  exact hrun.not_stop (List.prefix_append _ _) (by simp)

theorem Arrives.not_isErr (h : Arrives s Q) {chunks : List Bytes} (hne : ∀ c ∈ chunks, c ≠ [])
    (hpre : chunks.flatten <+: s) : (Request.parseChunks chunks).isErr = false := by
  by_cases hwhole : chunks.flatten = s
  · have hend := (h chunks hne hwhole).2.1
    have hpos : (Request.parseChunks chunks).position = .kEnd := of_decide_eq_true hend
    unfold HttpParser.isErr
    rw [hpos]
    rfl
  · exact (not_stopped_iff.1 (h.not_stopped hne hpre hwhole)).2

end Arrives

/-! ## The request parser does not throw -/

theorem resolveFirstLine_ne_thrown (buf : Bytes) (p : Request.Parser) :
    (HttpParser.resolveFirstLine RequestLine.parseFromString buf p).2 ≠ .thrown := by
  unfold HttpParser.resolveFirstLine
  split
  · rename_i i hscan
    have hline := RequestLine.parseFromString_ne_thrown p.firstLine (buf.take i)
    unfold HttpParser.takeFirstLine
    split
    · exact fun hf => by cases hf
    · exact fun hf => by cases hf
    · rename_i hparse
      rw [hparse] at hline
      exact absurd rfl hline
  · exact fun hf => by cases hf

theorem resolveHeaders_ne_thrown (buf : Bytes) (p : Request.Parser) :
    (Request.resolveHeaders buf p).2 ≠ .thrown := by
  unfold Request.resolveHeaders HttpParser.resolveHeaders
  split
  · exact fun hf => by cases hf
  · unfold HttpParser.takeHeaders
    split <;> exact fun hf => by cases hf

theorem resolveBody_ne_thrown (buf : Bytes) (p : Request.Parser) :
    (Request.resolveBody buf p).2 ≠ .thrown := by
  unfold Request.resolveBody HttpParser.resolveBody
  dsimp only
  split_ifs <;> exact fun hf => by cases hf

theorem request_returns (buf : Bytes) (p : Request.Parser) :
    ∃ code, (Request.Parser.doParse buf p).2 = .returned code := by
  have hround : ∀ q, (HttpParser.resolve Request.resolvers buf q).2 ≠ .thrown := by
    intro q
    unfold HttpParser.resolve
    cases q.position with
    | kNone =>
        dsimp only
        split
        · exact resolveFirstLine_ne_thrown buf _
        · exact fun hf => by cases hf
    | kFirstLine => exact resolveFirstLine_ne_thrown buf q
    | kHeaders => exact resolveHeaders_ne_thrown buf q
    | kBody => exact resolveBody_ne_thrown buf q
    | kEnd => exact fun hf => by cases hf
    | kError => exact fun hf => by cases hf
  unfold Request.Parser.doParse HttpParser.doParse
  split_ifs
  · exact ⟨0, rfl⟩
  · exact ⟨0, rfl⟩
  · exact HttpParser.loop_returns hround 4 p

/-! ## One event -/

section Arrives

variable {s : Bytes} {Q : Request.Parser → Prop}

/-- A segment that leaves the parser without an error. -/
theorem receiveRound_of_fed {c : ConnectionProfile} {chunks : List Bytes} (seg : Segment)
    (h : Fed c chunks) (hdown : c.isEagain = false)
    (herr : (Request.parseChunks (chunks ++ [seg.bytes])).isErr = false) :
    c.receiveRound (.data seg) =
      ({ c.read (.data seg) with
          parser := some (.request (Request.parseChunks (chunks ++ [seg.bytes]))) },
        if (Request.parseChunks (chunks ++ [seg.bytes])).isEnd = true ∨
            ¬ (ReadOutcome.data seg).isBufferFull = true then some (.returned 0) else none,
        true) := by
  have hbuf : (c.read (.data seg)).tcpByteArr = chunks.flatten ++ seg.bytes := by
    rw [h.all hdown]
    rfl
  have hparser : (c.read (.data seg)).parser = some (.request (Request.parseChunks chunks)) :=
    h.parser
  have hflag : (c.read (.data seg)).isEagain = false := hdown
  have hfeed : (Request.Parser.doParse (chunks.flatten ++ seg.bytes)
      (Request.parseChunks chunks)).1 = Request.parseChunks (chunks ++ [seg.bytes]) := by
    simp only [Request.parseChunks, feed_concat, List.nil_append]
  obtain ⟨code, hcode⟩ := request_returns (chunks.flatten ++ seg.bytes)
    (Request.parseChunks chunks)
  have hparse : (c.read (.data seg)).parseProtocol =
      ({ c.read (.data seg) with
          parser := some (.request (Request.parseChunks (chunks ++ [seg.bytes]))) },
        .returned 0) := by
    unfold parseProtocol
    rw [hparser]
    simp only [ApplicationProtocolParser.doParse, hbuf, hfeed, hcode,
      ApplicationProtocolParser.isErr, herr, Bool.false_eq_true, if_false]
  have hdone : isParseDone { c.read (.data seg) with
      parser := some (.request (Request.parseChunks (chunks ++ [seg.bytes]))) } =
      (Request.parseChunks (chunks ++ [seg.bytes])).isEnd := rfl
  generalize { c.read (.data seg) with
    parser := some (.request (Request.parseChunks (chunks ++ [seg.bytes]))) } = d at hparse hdone ⊢
  unfold receiveRound
  dsimp only
  rw [if_neg (by rw [hflag]; decide), hparse]
  dsimp only
  rw [if_neg (by decide), hdone]
  split_ifs <;> rfl

/-- **Reads that return the next bytes of the request.** -/
theorem Arrives.receive (h : Arrives s Q) {c : ConnectionProfile} {chunks : List Bytes}
    {outs : List ReadOutcome} {r : Received} (hfed : Fed c chunks) (hdown : c.isEagain = false)
    (hfin : c.hasReceivedFin = false) (hdata : ∀ o ∈ outs, ∃ seg, o = ReadOutcome.data seg)
    (hpre : c.tcpByteArr ++ outs.flatMap ReadOutcome.bytes <+: s)
    (hproper : c.tcpByteArr ≠ s) (hr : c.receive outs = some r) :
    r.ret = .returned 0 ∧ r.conn.isEagain = false ∧ r.conn.hasReceivedFin = false ∧
      ∃ chunks', Fed r.conn chunks' := by
  induction outs generalizing c chunks r with
  | nil => cases hr
  | cons o outs ih =>
      obtain ⟨seg, rfl⟩ := hdata o List.mem_cons_self
      rw [List.flatMap_cons, ← List.append_assoc] at hpre
      have hflat : (chunks ++ [seg.bytes]).flatten =
          c.tcpByteArr ++ (ReadOutcome.data seg).bytes := by
        rw [List.flatten_append, hfed.all hdown]
        simp [ReadOutcome.bytes]
      have hnow : (chunks ++ [seg.bytes]).flatten <+: s :=
        hflat ▸ (List.prefix_append _ _).trans hpre
      have hstop : ¬ Request.Stopped (Request.parseChunks chunks) := by
        refine h.not_stopped hfed.nonempty ?_ (hfed.all hdown ▸ hproper)
        exact (List.prefix_append chunks.flatten _).trans (by simpa using hnow)
      have hne : ∀ d ∈ chunks ++ [seg.bytes], d ≠ [] := by
        intro d hd
        rcases List.mem_append.1 hd with hd | hd
        · exact hfed.nonempty d hd
        · rw [List.mem_singleton.1 hd]
          exact List.length_pos_iff.1 seg.nonempty
      have hround := receiveRound_of_fed seg hfed hdown (h.not_isErr hne hnow)
      have hfed' : Fed { c.read (.data seg) with
          parser := some (.request (Request.parseChunks (chunks ++ [seg.bytes]))) }
          (chunks ++ [seg.bytes]) := by
        have hnew := (fed_parseProtocol seg hfed hdown hstop).1
        obtain ⟨p, hp, -⟩ := parseProtocol_conn (c.read (.data seg))
        rw [hp] at hnew
        exact ⟨hnew.nonempty, hnew.runs, rfl, hnew.isPrefix, hnew.all⟩
      rcases receive_cases hr with ⟨c', ret, parsed, hround', -, rfl⟩ |
        ⟨c', parsed, r', hround', hrest, rfl⟩
      · rw [hround] at hround'
        simp only [Prod.mk.injEq] at hround'
        obtain ⟨rfl, hret, -⟩ := hround'
        split_ifs at hret
        · cases hret
          exact ⟨rfl, hdown, hfin, _, hfed'⟩
      · rw [hround] at hround'
        simp only [Prod.mk.injEq] at hround'
        obtain ⟨rfl, hret, -⟩ := hround'
        split_ifs at hret with hgoes
        refine ih (r := r') hfed' hdown hfin (fun o ho => hdata o (List.mem_cons_of_mem _ ho))
          hpre ?_ hrest
        -- a request that is complete ends the loop
        intro hwhole
        apply hgoes
        refine Or.inl (h _ hne ?_).2.1
        exact (hfed'.all hdown).trans hwhole

/-! ## All events -/

/-- The request is on its way. -/
structure Pending (s : Bytes) (remoteIp : Bytes) (t : ShortLink) : Prop where
  type : t.conn.type = .kAcceptFrom
  remoteIp : t.conn.remoteIp = remoteIp
  received : t.received = t.conn.tcpByteArr
  down : t.conn.isEagain = false
  noFin : t.conn.hasReceivedFin = false
  fed : ∃ chunks, Fed t.conn chunks
  none : t.dispatched = []
  proper : t.received ≠ s

/-- The request has been passed on, once; `p` is the parser that it was read
from. -/
def Passed (upgrade : ConnectionProfile → ApplicationPacket → ConnectionProfile) (id : ConnId)
    (Q : Request.Parser → Prop) (remoteIp : Bytes) (t : ShortLink) : Prop :=
  ∃ c p x, c.parser = some (.request p) ∧ c.type = .kAcceptFrom ∧ c.remoteIp = remoteIp ∧ Q p ∧
    ∀ ctx d made, dispatch upgrade id x (.request p) c = ⟨d, .dispatched ctx, made⟩ →
      t.conn = d ∧ t.dispatched = [ctx]

theorem pending_start (uid fd : Nat) (remoteIp : Bytes) (remotePort now : Nat) (hs : s ≠ []) :
    Pending s remoteIp (start uid fd remoteIp remotePort now) where
  type := rfl
  remoteIp := rfl
  received := rfl
  down := rfl
  noFin := rfl
  fed := ⟨[], ⟨by simp, by decide, rfl, List.prefix_refl _, fun _ => rfl⟩⟩
  none := rfl
  proper h := hs h.symm

variable {upgrade : ConnectionProfile → ApplicationPacket → ConnectionProfile} {id : ConnId}
  {remoteIp : Bytes}

/-- **One read event.** -/
theorem Arrives.onEvent (h : Arrives s Q) {t t' : ShortLink} {e : ReadInput}
    (ht : Pending s remoteIp t) (hdata : OnlyData e)
    (hpre : t.received ++ e.outs.flatMap ReadOutcome.bytes <+: s)
    (hstep : step upgrade id t e = some t') :
    t'.received = t.received ++ e.outs.flatMap ReadOutcome.bytes ∧
      if t'.received = s then Passed upgrade id Q remoteIp t' else Pending s remoteIp t' := by
  obtain ⟨-, r, hr, -, hreceived⟩ := step_cases hstep
  obtain ⟨chunks, hfed⟩ := ht.fed
  have hproper : t.conn.tcpByteArr ≠ s := ht.received ▸ ht.proper
  obtain ⟨hret, hdown, hfin, chunks', hfed'⟩ :=
    h.receive hfed ht.down ht.noFin hdata (ht.received ▸ hpre) hproper hr
  obtain ⟨_, _, _, hframe, -⟩ := receive_frame hr
  have hbytes : t'.received = r.conn.tcpByteArr := by
    rw [hreceived, ht.received, hframe]
  have htype : r.conn.type = .kAcceptFrom := by
    rw [hframe]
    exact ht.type
  have hip : r.conn.remoteIp = remoteIp := by
    rw [hframe]
    exact ht.remoteIp
  have hflat : chunks'.flatten = t'.received := (hfed'.all hdown).trans hbytes.symm
  have hafter : afterReceive upgrade id t.nextCtx r.ret r.conn =
      if (Request.parseChunks chunks').isEnd then
        dispatch upgrade id t.nextCtx (.request (Request.parseChunks chunks')) r.conn
      else ⟨r.conn, .idle, none⟩ := by
    unfold afterReceive
    rw [hret]
    simp [hfin, hfed'.parser, ApplicationProtocolParser.isEnd]
    rfl
  refine ⟨hreceived, ?_⟩
  unfold ShortLink.step at hstep
  split at hstep
  · cases hstep
  · simp only [onReadEvent, hr, Option.map_some, hafter, Option.some.injEq] at hstep
    by_cases hwhole : t'.received = s
    · obtain ⟨-, hend, hQ⟩ := h chunks' hfed'.nonempty (hflat.trans hwhole)
      rw [if_pos hwhole]
      refine ⟨r.conn, _, t.nextCtx, hfed'.parser, htype, hip, hQ, ?_⟩
      intro ctx d made hdispatch
      rw [if_pos hend, hdispatch] at hstep
      subst hstep
      refine ⟨rfl, ?_⟩
      rw [ht.none]
      rfl
    · have hgoes := h.not_stopped hfed'.nonempty (hflat ▸ hreceived ▸ hpre) (hflat ▸ hwhole)
      rw [if_neg hwhole]
      rw [if_neg (by rw [(not_stopped_iff.1 hgoes).1]; decide)] at hstep
      subst hstep
      exact ⟨htype, hip, hbytes, hdown, hfin, ⟨chunks', hfed'⟩, ht.none, hwhole⟩

/-- **Events that bring a part of the request** pass nothing on. -/
theorem Arrives.onPart (h : Arrives s Q) {t t' : ShortLink} {events : List ReadInput}
    (ht : Pending s remoteIp t) (hdata : ∀ e ∈ events, OnlyData e)
    (hpre : t.received ++ events.flatMap (fun e => e.outs.flatMap ReadOutcome.bytes) <+: s)
    (hproper : t.received ++ events.flatMap (fun e => e.outs.flatMap ReadOutcome.bytes) ≠ s)
    (hrun : Lib.run (step upgrade id) t events = some t') : Pending s remoteIp t' := by
  induction events generalizing t with
  | nil =>
      cases hrun
      exact ht
  | cons e events ih =>
      cases hstep : step upgrade id t e with
      | none => simp [Lib.run, hstep] at hrun
      | some t₁ =>
          rw [run_cons_some hstep] at hrun
          rw [List.flatMap_cons, ← List.append_assoc] at hpre hproper
          obtain ⟨hreceived, hnext⟩ := h.onEvent ht (hdata e List.mem_cons_self)
            ((List.prefix_append _ _).trans hpre) hstep
          rw [← hreceived] at hpre hproper
          have hmore : t₁.received ≠ s := by
            intro hwhole
            rw [hwhole] at hpre hproper
            exact hproper (hpre.eq_of_length_le (by simp))
          rw [if_neg hmore] at hnext
          exact ih hnext (fun d hd => hdata d (List.mem_cons_of_mem e hd)) hpre hproper hrun

/-- An event reads something. -/
theorem bytes_ne_nil {t t' : ShortLink} {e : ReadInput} (hdata : OnlyData e)
    (hstep : step upgrade id t e = some t') : e.outs.flatMap ReadOutcome.bytes ≠ [] := by
  obtain ⟨outs, deletes⟩ := e
  cases outs with
  | nil => simp [step, onReadEvent, ConnectionProfile.receive] at hstep
  | cons o outs =>
      obtain ⟨seg, rfl⟩ := hdata o List.mem_cons_self
      intro hnil
      rw [List.flatMap_cons] at hnil
      exact List.length_pos_iff.1 seg.nonempty (List.append_eq_nil_iff.1 hnil).1

/-- **All events**: the last one passes the request on. -/
theorem Arrives.onEvents (h : Arrives s Q) {t t' : ShortLink} {events : List ReadInput}
    (ht : Pending s remoteIp t) (hdata : ∀ e ∈ events, OnlyData e)
    (hbytes : t.received ++ events.flatMap (fun e => e.outs.flatMap ReadOutcome.bytes) = s)
    (hrun : Lib.run (step upgrade id) t events = some t') :
    Passed upgrade id Q remoteIp t' ∧
      ∀ u ∈ trace (step upgrade id) t events, u.received = s ∨ u.dispatched = [] := by
  induction events generalizing t with
  | nil => exact absurd ((List.append_nil _).symm.trans hbytes) ht.proper
  | cons e events ih =>
      cases hstep : step upgrade id t e with
      | none => simp [Lib.run, hstep] at hrun
      | some t₁ =>
          rw [run_cons_some hstep] at hrun
          rw [List.flatMap_cons, ← List.append_assoc] at hbytes
          obtain ⟨hreceived, hnext⟩ := h.onEvent ht (hdata e List.mem_cons_self)
            (hbytes ▸ List.prefix_append _ _) hstep
          rw [← hreceived] at hbytes
          have htrace : trace (step upgrade id) t (e :: events) =
              t :: trace (step upgrade id) t₁ events := by
            simp [trace, hstep]
          rw [htrace]
          by_cases hwhole : t₁.received = s
          · rw [if_pos hwhole] at hnext
            -- another event would bring another byte
            cases events with
            | nil =>
                cases hrun
                refine ⟨hnext, ?_⟩
                intro u hu
                rcases List.mem_cons.1 hu with rfl | hu
                · exact Or.inr ht.none
                · rw [List.mem_singleton.1 hu]
                  exact Or.inl hwhole
            | cons d events =>
                rw [hwhole, List.flatMap_cons] at hbytes
                have hnil := List.append_eq_nil_iff.1 (List.append_right_eq_self.1 hbytes)
                have hd := hdata d (List.mem_cons_of_mem e List.mem_cons_self)
                cases hstep' : step upgrade id t₁ d with
                | none => simp [Lib.run, hstep'] at hrun
                | some t₂ => exact absurd hnil.1 (bytes_ne_nil hd hstep')
          · rw [if_neg hwhole] at hnext
            obtain ⟨hpassed, hall⟩ :=
              ih hnext (fun d hd => hdata d (List.mem_cons_of_mem e hd)) hbytes hrun
            refine ⟨hpassed, ?_⟩
            intro u hu
            rcases List.mem_cons.1 hu with rfl | hu
            · exact Or.inr ht.none
            · exact hall u hu

end Arrives

/-! ## Requests -/

/-- The bytes of a request, and its packet: what `request::Pack` builds, or a
GET request with header lines; neither asks for another protocol. -/
inductive Sent : Bytes → ApplicationPacket → Prop
  | post (host url : Bytes) (headers : Option HeaderField) (body : Bytes) :
      Request.CleanRequest host url headers body →
      HeaderField.isConnectionUpgrade (Request.packedHeaders host headers body) = false →
      Sent (Request.pack host url headers body)
        (.request ⟨.kPOST, url, .kHTTP_1_1⟩ (Request.packedHeaders host headers body) body)
  | get (url : Bytes) (fields : List (Bytes × Bytes)) :
      Request.CleanUrl url → (∀ e ∈ fields, CleanEntry e) → fields ≠ [] →
      HeaderField.isConnectionUpgrade (fieldsOf fields) = false →
      Sent (Request.getRequest url fields)
        (.request ⟨.kGET, url, .kHTTP_1_1⟩ (fieldsOf fields) [])

/-- The packet of a parser, and no upgrade. -/
def Holds (packet : ApplicationPacket) (p : Request.Parser) : Prop :=
  (ApplicationProtocolParser.request p).packet = packet ∧ p.isUpgradeToWs = false

theorem Sent.arrives {s : Bytes} {packet : ApplicationPacket} (h : Sent s packet)
    (hsize : s.length < 2 ^ 32) : s ≠ [] ∧ Arrives s (Holds packet) := by
  cases h with
  | post host url headers body hclean hstays =>
      refine ⟨?_, ?_⟩
      · rw [Request.pack_eq_encode]
        exact encode_ne_nil _ _ _
      · intro chunks hne hs
        obtain ⟨hrun, hdecoded, hup⟩ := Request.feed_pack hclean hsize hne hs
        refine ⟨hrun, decide_eq_true hdecoded.isEnd, ?_, hup.trans hstays⟩
        show ApplicationPacket.request _ _ _ = _
        rw [hdecoded.firstLine, hdecoded.headers, hdecoded.body]
  | get url fields hurl hfields hlines hstays =>
      refine ⟨Request.getRequest_ne_nil, ?_⟩
      intro chunks hne hs
      obtain ⟨hrun, hend⟩ := Request.feed_getRequest hurl hfields hlines hsize hne hs
      rw [hend]
      exact ⟨hrun, rfl, rfl, hstays⟩

/-- A packet that was passed on. -/
theorem Passed.dispatched {upgrade : ConnectionProfile → ApplicationPacket → ConnectionProfile}
    {id : ConnId} {packet : ApplicationPacket} {remoteIp : Bytes} {t : ShortLink}
    (h : Passed upgrade id (Holds packet) remoteIp t) :
    ∃ ctx, t.dispatched = [ctx] ∧ ctx.applicationPacket = packet ∧ ctx.fromIp = remoteIp := by
  obtain ⟨c, p, x, hp, htype, hip, ⟨hpacket, hstays⟩, hpassed⟩ := h
  have hrecycle : c.recycleParser = c := by simp [recycleParser, hp]
  have hdispatch : dispatch upgrade id x (.request p) c =
      ⟨(c.makeSendContext id x).1,
        .dispatched { (c.makeRecvContext id (.request p)).2 with returnPacket := some x },
        some (c.makeSendContext id x).2⟩ := by
    have hflag : (ApplicationProtocolParser.request p).isUpgradeProtocol = false := hstays
    simp only [dispatch, hflag, Bool.false_eq_true, if_false, makeRecvContext, hrecycle, htype]
  exact ⟨_, (hpassed _ _ _ hdispatch).2, hpacket, hip⟩

section Dispatched

variable {s : Bytes} {packet : ApplicationPacket} (hsent : Sent s packet)
  (hsize : s.length < 2 ^ 32)
  (upgrade : ConnectionProfile → ApplicationPacket → ConnectionProfile) (id : ConnId)
  (uid fd : Nat) (remoteIp : Bytes) (remotePort now : Nat) {events : List ReadInput}
  {t : ShortLink} (hdata : ∀ e ∈ events, OnlyData e)
  (hbytes : events.flatMap (fun e => e.outs.flatMap ReadOutcome.bytes) = s)
  (hrun : run (step upgrade id) (start uid fd remoteIp remotePort now) events = some t)
include hsent hsize hdata hbytes hrun

/-- What is dispatched, and when. -/
theorem Sent.dispatched :
    (∃ ctx, t.dispatched = [ctx] ∧ ctx.applicationPacket = packet ∧ ctx.fromIp = remoteIp) ∧
      ∀ u ∈ trace (step upgrade id) (start uid fd remoteIp remotePort now) events,
        u.received = s ∨ u.dispatched = [] := by
  obtain ⟨hne, harrives⟩ := hsent.arrives hsize
  obtain ⟨hpassed, htrace⟩ :=
    harrives.onEvents (pending_start uid fd remoteIp remotePort now hne) hdata hbytes hrun
  exact ⟨hpassed.dispatched, htrace⟩

/-- **A request is dispatched once and whole**, behind its last byte, however
the reads cut it. -/
theorem request_dispatched :
    t.dispatched.map (·.applicationPacket) = [packet] ∧
      ∀ u ∈ trace (step upgrade id) (start uid fd remoteIp remotePort now) events,
        u.received = s ∨ u.dispatched = [] := by
  obtain ⟨⟨ctx, hctx, hpacket, -⟩, htrace⟩ :=
    hsent.dispatched hsize upgrade id uid fd remoteIp remotePort now hdata hbytes hrun
  refine ⟨?_, htrace⟩
  rw [hctx]
  exact congrArg (fun packet => [packet]) hpacket

end Dispatched

/-- A GET request in three read events. -/
def getInThree : List ReadInput :=
  [⟨[reads "GET /a HTTP/1.1\r" (by decide)], false⟩,
    ⟨[reads "\nHost: x\r\nA: b\r\n\r" (by decide)], false⟩,
    ⟨[reads "\n" (by decide)], false⟩]

/-- The packet of this request. -/
def getInThreePacket : ApplicationPacket :=
  .request ⟨.kGET, lit "/a", .kHTTP_1_1⟩ (fieldsOf [(lit "Host", lit "x"), (lit "A", lit "b")]) []

theorem sent_getInThree :
    Sent (getInThree.flatMap fun e => e.outs.flatMap ReadOutcome.bytes) getInThreePacket := by
  have hbytes : (getInThree.flatMap fun e => e.outs.flatMap ReadOutcome.bytes) =
      Request.getRequest (lit "/a") [(lit "Host", lit "x"), (lit "A", lit "b")] := by
    decide +kernel
  rw [hbytes]
  refine Sent.get _ _ ?_ ?_ (by decide) (by decide +kernel)
  · exact ⟨by decide, by decide, by decide, by decide, by decide⟩
  · intro e he
    revert e
    unfold CleanEntry
    decide +kernel

theorem onlyData_getInThree : ∀ e ∈ getInThree, OnlyData e := by
  intro e he o ho
  simp only [getInThree, List.mem_cons, List.not_mem_nil, or_false] at he
  rcases he with rfl | rfl | rfl <;> exact ⟨_, List.mem_singleton.1 ho⟩

theorem request_dispatched_getInThree :
    ∃ t, run (step (fun c _ => c) 0) (start 1 7 (lit "10.0.0.1") 4000 0) getInThree = some t ∧
      t.dispatched.map (·.applicationPacket) = [getInThreePacket] := by
  obtain ⟨t, hrun⟩ := Option.ne_none_iff_exists'.1 (show run (step (fun c _ => c) 0)
    (start 1 7 (lit "10.0.0.1") 4000 0) getInThree ≠ none by decide +kernel)
  exact ⟨t, hrun, (request_dispatched sent_getInThree (by decide) _ 0 1 7 (lit "10.0.0.1") 4000 0
    onlyData_getInThree rfl hrun).1⟩

end ShortLink

end Unixtar
