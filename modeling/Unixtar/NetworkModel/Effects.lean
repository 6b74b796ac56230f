import Mathlib.Algebra.GroupWithZero.Nat
import Unixtar.NetworkModel.Contexts

/-!
# What is written for a send context

The bytes that the writes of a network thread take from the buffers of its
contexts, and the calls of `OnSendDone`, in their order.  The list is read off
the same outcomes that drive the thread; `counted` reads the thread's own list
of writes, so that the two can be compared.

The bytes of a shallow copy are read where they stand when they are written.
If the connection they stand in is gone by then, or its array has grown since,
the `::write` reads memory that nobody owns.

## Main results

* `Account` — a context with so many bytes to send: what has been written and
  what is left make up the whole, and `OnSendDone` has run if nothing is left.
* `Account.closed` — sending keeps the account, whatever the outcomes are.
* `OwnAccount.untouched` — so does everything else, if the bytes that are left
  are the buffer's own.
* `SendClosed.direct`, `SendClosed.pending` — the rules for the two ways in
  which a packet is sent.
-/

namespace Unixtar

/-- A `::write` takes these bytes, or bytes of memory that is gone, or
`OnSendDone` runs. -/
inductive Effect
  | wrote (x : CtxId) (bytes : Bytes)
  | wild (x : CtxId)
  | sendDone (x : CtxId)
deriving DecidableEq

namespace Effect

def ctx : Effect → CtxId
  | wrote x _ => x
  | wild x => x
  | sendDone x => x

/-- The bytes it takes from the buffer of `x`. -/
def bytesFor (x : CtxId) : Effect → Bytes
  | wrote y bytes => if y = x then bytes else []
  | _ => []

end Effect

/-- The bytes written on behalf of `x`. -/
def written (x : CtxId) (l : List Effect) : Bytes := l.flatMap (·.bytesFor x)

theorem written_append (x : CtxId) (l l' : List Effect) :
    written x (l ++ l') = written x l ++ written x l' :=
  List.flatMap_append

/-- Effects for other contexts. -/
theorem written_eq_nil {x : CtxId} {l : List Effect} (h : ∀ e ∈ l, e.ctx ≠ x) :
    written x l = [] := by
  unfold written
  rw [List.flatMap_eq_nil_iff]
  intro e he
  cases e with
  | wrote y bytes => exact if_neg (h _ he)
  | wild y => rfl
  | sendDone y => rfl

namespace NetState

/-! ## The effects of sending -/

/-- The array of a connection that is there. -/
def arrayOf (s : NetState) (id : ConnId) : Option Bytes := (s.mgr.conns id).map (·.tcpByteArr)

/-- What can be read through the pointer of a buffer: its own bytes, or those of
a connection that is still there.  An array that has grown may have moved. -/
def contents (s : NetState) (b : AutoBuffer) : Option Bytes :=
  match b.shallowCopyOf with
  | none => some b.bytes
  | some id => (s.arrayOf id).filter fun bytes => bytes = b.bytes

/-- A `::write` of what is left in a buffer takes `n` bytes. -/
def taken (x : CtxId) (b : AutoBuffer) (n : Nat) (s : NetState) : Effect :=
  if b.ntotal = 0 then .wrote x []
  else
    match s.contents b with
    | some bytes => .wrote x ((bytes.drop b.pos).take n)
    | none => .wild x

/-- `TrySend`, and `OnSendDone` if it is done. -/
def trySendEffects (x : CtxId) (w : WriteOutcome) (s : NetState) : List Effect :=
  match s.ctxs x, s.trySend x w with
  | some k, some (_, done) =>
      s.taken x k.buffer w.count :: if done then [.sendDone x] else []
  | _, _ => []

/-- `TrySendAndMarkPendingIfUndone`. -/
def sendEffects (x : CtxId) (w : WriteOutcome) (s : NetState) : List Effect :=
  match s.ctxs x with
  | some k => if k.isTcpConnValid then s.trySendEffects x w else []
  | none => []

/-- The loop of `TrySendPendingPackets`. -/
def pendingEffects (id : ConnId) : List WriteOutcome → NetState → List Effect
  | [], _ => []
  | w :: ws, s =>
      match s.mgr.conns id with
      | none => []
      | some c =>
          match c.pendingSendCtx with
          | [] => []
          | x :: _ =>
              s.trySendEffects x w ++
                match s.trySend x w with
                | some (s, true) => pendingEffects id ws ((s.onSendDone x).popPending id)
                | _ => []

theorem taken_ctx (x : CtxId) (b : AutoBuffer) (n : Nat) (s : NetState) :
    (s.taken x b n).ctx = x := by
  unfold taken
  split_ifs
  · rfl
  · split <;> rfl

/-- The effects of a send are for its context. -/
theorem trySendEffects_ctx {x : CtxId} {w : WriteOutcome} {s : NetState} :
    ∀ e ∈ s.trySendEffects x w, e.ctx = x := by
  intro e he
  unfold trySendEffects at he
  split at he
  · rcases List.mem_cons.1 he with rfl | he
    · exact taken_ctx x _ _ s
    · split at he
      · rw [List.mem_singleton.1 he]
        rfl
      · cases he
  · cases he

theorem sendEffects_ctx {x : CtxId} {w : WriteOutcome} {s : NetState} :
    ∀ e ∈ s.sendEffects x w, e.ctx = x := by
  intro e he
  unfold sendEffects at he
  split at he
  · split at he
    · exact trySendEffects_ctx e he
    · cases he
  · cases he

/-- How many bytes the listed writes have taken for `x`. -/
def counted (s : NetState) (x : CtxId) : Nat :=
  ((s.writes.filter fun r => r.ctx = x).map (·.count)).sum

/-- The buffer of a context. -/
def bufferOf (s : NetState) (x : CtxId) : Option AutoBuffer := (s.ctxs x).map (·.buffer)

theorem bufferOf_of_ctxs {s : NetState} {x : CtxId} {k : SendContext} (h : s.ctxs x = some k) :
    s.bufferOf x = some k.buffer := by
  unfold bufferOf
  rw [h]
  rfl

/-! ## Statements that sending keeps -/

/-- A statement about a thread and its effects that every part of sending
keeps. -/
structure SendClosed (Q : NetState → List Effect → Prop) : Prop where
  undone : ∀ {s t : NetState} {l : List Effect} {x : CtxId} {w : WriteOutcome},
    s.trySend x w = some (t, false) → Q s l → Q t (l ++ s.trySendEffects x w)
  done : ∀ {s t : NetState} {l : List Effect} {x : CtxId} {w : WriteOutcome},
    s.trySend x w = some (t, true) → Q s l → Q (t.onSendDone x) (l ++ s.trySendEffects x w)
  mark : ∀ {s : NetState} {l : List Effect} (x : CtxId), Q s l → Q (s.markAsPendingPacket x) l
  pop : ∀ {s : NetState} {l : List Effect} (id : ConnId), Q s l → Q (s.popPending id) l

/-- **The direct path.** -/
theorem SendClosed.direct {Q : NetState → List Effect → Prop} (h : SendClosed Q) {s t : NetState}
    {l : List Effect} {x : CtxId} {w : WriteOutcome} {done : Bool}
    (hsend : s.trySendAndMarkPendingIfUndone x w = some (t, done)) (hs : Q s l) :
    Q t (l ++ s.sendEffects x w) := by
  cases trySendAndMarkPendingIfUndone_cases hsend with
  | done k s' hk hvalid htry =>
      simp only [sendEffects, hk, hvalid, if_true]
      exact h.done htry hs
  | undone k s' hk hvalid htry =>
      simp only [sendEffects, hk, hvalid, if_true]
      exact h.mark x (h.undone htry hs)
  | skipped k hk hinvalid =>
      simp only [sendEffects, hk, hinvalid, Bool.false_eq_true, if_false, List.append_nil]
      exact hs

/-- **The deferred path**, by induction on the outcomes. -/
theorem SendClosed.pending {Q : NetState → List Effect → Prop} (h : SendClosed Q) {s t : NetState}
    {l : List Effect} {id : ConnId} {ws : List WriteOutcome}
    (hsend : s.trySendPendingPackets id ws = some t) (hs : Q s l) :
    Q t (l ++ s.pendingEffects id ws) := by
  induction ws generalizing s l with
  | nil =>
      rw [trySendPendingPackets_nil hsend, pendingEffects, List.append_nil]
      exact hs
  | cons w ws ih =>
      obtain ⟨c, x, rest, hc, hpending, ⟨s', htry, hnext⟩ | ⟨htry, -⟩⟩ :=
        trySendPendingPackets_cons hsend
      · simp only [pendingEffects, hc, hpending, htry]
        rw [← List.append_assoc]
        exact ih hnext (h.pop id (h.done htry hs))
      · simp only [pendingEffects, hc, hpending, htry, List.append_nil]
        exact h.undone htry hs

/-- A statement that every send keeps, and every change that leaves contexts,
writes and arrays alone. -/
structure Closed (Q : NetState → List Effect → Prop) : Prop where
  frame : ∀ {s t : NetState} {l : List Effect}, t.ctxs = s.ctxs → t.writes = s.writes →
    t.nextCtx = s.nextCtx → t.arrayOf = s.arrayOf → Q s l → Q t l
  send : ∀ {s t : NetState} {l : List Effect} {x : CtxId} {w : WriteOutcome} {done : Bool},
    s.trySend x w = some (t, done) → Q s l → Q t (l ++ s.trySendEffects x w)

theorem popPending_ctxs (id : ConnId) (s : NetState) : (s.popPending id).ctxs = s.ctxs := by
  unfold popPending
  split <;> rfl

theorem popPending_writes (id : ConnId) (s : NetState) : (s.popPending id).writes = s.writes := by
  unfold popPending
  split <;> rfl

theorem arrayOf_setConn {s : NetState} {id : ConnId} {c d : ConnectionProfile}
    (hc : s.mgr.conns id = some c) (harray : d.tcpByteArr = c.tcpByteArr) :
    (s.setConn id d).arrayOf = s.arrayOf := by
  funext id'
  unfold arrayOf
  rw [setConn_conns]
  by_cases hid : id' = id
  · rw [hid, Function.update_self, hc, Option.map_some, Option.map_some, harray]
  · rw [Function.update_of_ne hid]

theorem onSendDone_arrayOf (x : CtxId) (s : NetState) : (s.onSendDone x).arrayOf = s.arrayOf := by
  unfold onSendDone
  split
  · rfl
  · split
    · rfl
    · rename_i c hc
      exact arrayOf_setConn hc rfl

theorem markAsPendingPacket_arrayOf (x : CtxId) (s : NetState) :
    (s.markAsPendingPacket x).arrayOf = s.arrayOf := by
  unfold markAsPendingPacket
  split
  · rfl
  · split
    · rfl
    · rename_i c hc
      exact arrayOf_setConn hc rfl

theorem popPending_arrayOf (id : ConnId) (s : NetState) :
    (s.popPending id).arrayOf = s.arrayOf := by
  unfold popPending
  split
  · rfl
  · rename_i c hc
    exact arrayOf_setConn hc rfl

theorem Closed.sendClosed {Q : NetState → List Effect → Prop} (h : Closed Q) : SendClosed Q where
  undone htry hs := h.send htry hs
  done {_ t _ x _} htry hs := h.frame (onSendDone_ctxs x t) (onSendDone_writes x t)
    (Frame.onSendDone x t).nextCtx (onSendDone_arrayOf x t) (h.send htry hs)
  mark {s _} x hs := h.frame (markAsPendingPacket_ctxs x s) (markAsPendingPacket_writes x s)
    (Frame.markAsPendingPacket x s).nextCtx (markAsPendingPacket_arrayOf x s) hs
  pop {s _} id hs := h.frame (popPending_ctxs id s) (popPending_writes id s)
    (Frame.popPending id s).nextCtx (popPending_arrayOf id s) hs

theorem Closed.direct {Q : NetState → List Effect → Prop} (h : Closed Q) {s t : NetState}
    {l : List Effect} {x : CtxId} {w : WriteOutcome} {done : Bool}
    (hsend : s.trySendAndMarkPendingIfUndone x w = some (t, done)) (hs : Q s l) :
    Q t (l ++ s.sendEffects x w) :=
  h.sendClosed.direct hsend hs

theorem Closed.pending {Q : NetState → List Effect → Prop} (h : Closed Q) {s t : NetState}
    {l : List Effect} {id : ConnId} {ws : List WriteOutcome}
    (hsend : s.trySendPendingPackets id ws = some t) (hs : Q s l) :
    Q t (l ++ s.pendingEffects id ws) :=
  h.sendClosed.pending hsend hs

/-! ## Known contexts -/

/-- Contexts, writes and effects are those of contexts that have been made. -/
structure Known (s : NetState) (l : List Effect) : Prop where
  ctxs : ∀ x k, s.ctxs x = some k → x < s.nextCtx
  writes : ∀ r ∈ s.writes, r.ctx < s.nextCtx
  effects : ∀ e ∈ l, e.ctx < s.nextCtx

/-- `TrySend` of a context that is there. -/
theorem trySend_cases {s t : NetState} {x : CtxId} {w : WriteOutcome} {done : Bool}
    (h : s.trySend x w = some (t, done)) :
    ∃ k, s.ctxs x = some k ∧ w.Fits k.buffer.ntotal ∧ done = (send k.buffer w).2 ∧
      t.ctxs = Function.update s.ctxs x (some { k with buffer := (send k.buffer w).1 }) ∧
      t.writes = (if k.buffer.ntotal = 0 then s.writes else s.writes ++
        [⟨x, k.owner, k.socket, s.isLive k.owner, k.buffer.pos, w.count⟩]) ∧
      t.nextCtx = s.nextCtx ∧ t.mgr = s.mgr ∧
      s.trySendEffects x w = s.taken x k.buffer w.count ::
        if (send k.buffer w).2 then [.sendDone x] else [] := by
  cases hk : s.ctxs x with
  | none => simp [trySend, hk] at h
  | some k =>
      obtain ⟨hfits, hdone, ht⟩ := trySend_eq hk h
      refine ⟨k, rfl, hfits, hdone, by rw [ht], by rw [ht], by rw [ht], by rw [ht], ?_⟩
      unfold trySendEffects
      simp only [hk, h, hdone]

theorem Known.of_eq {s t : NetState} {l : List Effect} (h : Known s l) (hctxs : t.ctxs = s.ctxs)
    (hwrites : t.writes = s.writes) (hnext : t.nextCtx = s.nextCtx) : Known t l := by
  refine ⟨?_, ?_, ?_⟩
  · rw [hctxs, hnext]
    exact h.ctxs
  · rw [hwrites, hnext]
    exact h.writes
  · rw [hnext]
    exact h.effects

theorem known_closed : Closed Known where
  frame hctxs hwrites hnext _ h := h.of_eq hctxs hwrites hnext
  send := by
    intro s t l x w done hsend h
    obtain ⟨k, hk, -, -, hctxs, hwrites, hnext, -, -⟩ := trySend_cases hsend
    have hlt := h.ctxs x k hk
    refine ⟨?_, ?_, ?_⟩
    · intro y m hm
      rw [hctxs] at hm
      rw [hnext]
      by_cases hy : y = x
      · rw [hy]
        exact hlt
      · rw [Function.update_of_ne hy] at hm
        exact h.ctxs y m hm
    · intro r hr
      rw [hwrites] at hr
      rw [hnext]
      split at hr
      · exact h.writes r hr
      · rcases List.mem_append.1 hr with hr | hr
        · exact h.writes r hr
        · rw [List.mem_singleton.1 hr]
          exact hlt
    · intro e he
      rw [hnext]
      rcases List.mem_append.1 he with he | he
      · exact h.effects e he
      · rw [trySendEffects_ctx e he]
        exact hlt

/-- Sending keeps the contents of a buffer. -/
theorem holds_closed (x : CtxId) (bytes : Bytes) :
    Closed fun s _ => ∃ k, s.ctxs x = some k ∧ k.buffer.bytes = bytes where
  frame := by
    intro s t l hctxs _ _ _ h
    rw [hctxs]
    exact h
  send := by
    rintro s t l y w done hsend ⟨k, hk, hbytes⟩
    obtain ⟨k', hk', -, -, hctxs, -⟩ := trySend_cases hsend
    rw [hctxs]
    by_cases hne : x = y
    · subst hne
      rw [hk] at hk'
      cases hk'
      refine ⟨_, Function.update_self _ _ _, ?_⟩
      show (send k.buffer w).1.bytes = bytes
      rw [← hbytes]
      unfold send
      split
      · rfl
      · split <;> rfl
    · rw [Function.update_of_ne hne]
      exact ⟨k, hk, hbytes⟩

/-! ## Accounts -/

/-- The buffer of `x` and the writes for it are as before. -/
structure Untouched (x : CtxId) (s t : NetState) : Prop where
  buffer : t.bufferOf x = s.bufferOf x
  counted : t.counted x = s.counted x

namespace Untouched

theorem of_eq {s t : NetState} (hctxs : t.ctxs = s.ctxs) (hwrites : t.writes = s.writes)
    (x : CtxId) : Untouched x s t := by
  constructor
  · unfold bufferOf
    rw [hctxs]
  · unfold NetState.counted
    rw [hwrites]

theorem trans {x : CtxId} {s t u : NetState} (h : Untouched x s t) (h' : Untouched x t u) :
    Untouched x s u :=
  ⟨h'.buffer.trans h.buffer, h'.counted.trans h.counted⟩

/-- A send for another context. -/
theorem trySend {x y : CtxId} {s t : NetState} {w : WriteOutcome} {done : Bool} (hne : y ≠ x)
    (h : s.trySend y w = some (t, done)) : Untouched x s t := by
  obtain ⟨k, hk, -, -, hctxs, hwrites, -, -, -⟩ := trySend_cases h
  constructor
  · unfold bufferOf
    rw [hctxs, Function.update_of_ne (Ne.symm hne)]
  · unfold NetState.counted
    rw [hwrites]
    split
    · rfl
    · rw [List.filter_append, List.filter_cons_of_neg (by simpa using hne), List.filter_nil,
        List.append_nil]

/-- The destructor of a connection. -/
theorem destroy (x : CtxId) (slot uid : Nat) (id : ConnId) (c : ConnectionProfile)
    (s : NetState) : Untouched x s (s.destroy slot uid id c) := by
  refine ⟨?_, rfl⟩
  show (invalidate c.sendContexts s.ctxs x).map _ = _
  unfold invalidate bufferOf
  split
  · rw [Option.map_map]
    rfl
  · rfl

/-- A new context. -/
theorem allocCtx {x : CtxId} {s : NetState} (hx : x < s.nextCtx) (made : Option SendContext) :
    Untouched x s (s.allocCtx made) := by
  cases made with
  | none => exact of_eq rfl rfl x
  | some k =>
      refine ⟨?_, rfl⟩
      show (Function.update s.ctxs s.nextCtx (some k) x).map _ = _
      rw [Function.update_of_ne (Nat.ne_of_lt hx)]
      rfl

end Untouched

/-- `TrySendAndMarkPendingIfUndone` for another context. -/
theorem Untouched.direct {x y : CtxId} {s t : NetState} {w : WriteOutcome} {done : Bool}
    (hne : y ≠ x) (h : s.trySendAndMarkPendingIfUndone y w = some (t, done)) :
    Untouched x s t := by
  cases trySendAndMarkPendingIfUndone_cases h with
  | done k s' _ _ htry =>
      exact (Untouched.trySend hne htry).trans
        (Untouched.of_eq (onSendDone_ctxs y s') (onSendDone_writes y s') x)
  | undone k s' _ _ htry =>
      exact (Untouched.trySend hne htry).trans
        (Untouched.of_eq (markAsPendingPacket_ctxs y s') (markAsPendingPacket_writes y s') x)
  | skipped => exact Untouched.of_eq rfl rfl x

/-! ## Threads that go on without the known contexts -/

/-- The buffers of the contexts of `s`, and the writes for them, are as
before. -/
structure Quiet (s t : NetState) : Prop where
  known : ∀ l, Known s l → Known t l
  nextCtx : s.nextCtx ≤ t.nextCtx
  same : ∀ x, x < s.nextCtx → Untouched x s t

namespace Quiet

theorem trans {s t u : NetState} (h : Quiet s t) (h' : Quiet t u) : Quiet s u where
  known l hl := h'.known l (h.known l hl)
  nextCtx := Nat.le_trans h.nextCtx h'.nextCtx
  same x hx := (h.same x hx).trans (h'.same x (Nat.lt_of_lt_of_le hx h.nextCtx))

theorem of_eq {s t : NetState} (hctxs : t.ctxs = s.ctxs) (hwrites : t.writes = s.writes)
    (hnext : t.nextCtx = s.nextCtx) : Quiet s t where
  known _ hl := hl.of_eq hctxs hwrites hnext
  nextCtx := Nat.le_of_eq hnext.symm
  same x _ := Untouched.of_eq hctxs hwrites x

theorem destroy (slot uid : Nat) (id : ConnId) (c : ConnectionProfile) (s : NetState) :
    Quiet s (s.destroy slot uid id c) where
  known := by
    intro l hl
    refine ⟨?_, hl.writes, hl.effects⟩
    intro x k hk
    replace hk : invalidate c.sendContexts s.ctxs x = some k := hk
    unfold invalidate at hk
    split at hk
    · obtain ⟨k', hk', -⟩ := Option.map_eq_some_iff.1 hk
      exact hl.ctxs x k' hk'
    · exact hl.ctxs x k hk
  nextCtx := Nat.le_refl _
  same x _ := Untouched.destroy x slot uid id c s

theorem delConnection {s t : NetState} {uid : Nat} (h : s.delConnection uid = some t) :
    Quiet s t := by
  obtain ⟨id, c, -, -, rfl⟩ := delConnection_cases h
  exact destroy uid uid id c s

theorem clearSlot (s : NetState) (slot : Nat) : Quiet s (s.clearSlot slot) := by
  unfold NetState.clearSlot
  split
  · exact destroy slot _ _ _ s
  · exact of_eq rfl rfl rfl

theorem clearTimeout (s : NetState) : Quiet s s.clearTimeout :=
  clearTimeout_keeps (P := Quiet s) (fun t slot ht => ht.trans (clearSlot t slot))
    (of_eq rfl rfl rfl)

theorem allocCtx (made : Option SendContext) (s : NetState) : Quiet s (s.allocCtx made) where
  known := by
    intro l hl
    cases made with
    | none => exact hl
    | some k =>
        refine ⟨?_, fun r hr => Nat.lt_succ_of_lt (hl.writes r hr),
          fun e he => Nat.lt_succ_of_lt (hl.effects e he)⟩
        intro x m hm
        replace hm : Function.update s.ctxs s.nextCtx (some k) x = some m := hm
        by_cases hx : x = s.nextCtx
        · rw [hx]
          exact Nat.lt_succ_self _
        · rw [Function.update_of_ne hx] at hm
          exact Nat.lt_succ_of_lt (hl.ctxs x m hm)
  nextCtx := by
    cases made with
    | none => exact Nat.le_refl _
    | some k => exact Nat.le_succ _
  same x hx := Untouched.allocCtx hx made

/-- A send for a context that `s` does not have yet. -/
theorem direct {s t u : NetState} {y : CtxId} {w : WriteOutcome} {done : Bool} (h : Quiet s t)
    (hy : s.nextCtx ≤ y) (hsend : t.trySendAndMarkPendingIfUndone y w = some (u, done)) :
    Quiet s u where
  known := by
    intro l hl
    have hu := known_closed.direct hsend (h.known l hl)
    exact ⟨hu.ctxs, hu.writes, fun e he => hu.effects e (List.mem_append_left _ he)⟩
  nextCtx := by
    rw [(Frame.trySendAndMarkPendingIfUndone hsend).nextCtx]
    exact h.nextCtx
  same := by
    intro x hx
    exact (h.same x hx).trans (Untouched.direct (Nat.ne_of_gt (Nat.lt_of_lt_of_le hx hy)) hsend)

end Quiet

/-- Nothing has been put into the buffer of `x` or written for it. -/
structure Unused (x : CtxId) (s : NetState) (l : List Effect) : Prop where
  buffer : s.bufferOf x = some .empty
  counted : s.counted x = 0
  written : written x l = []
  tame : .wild x ∉ l
  undone : .sendDone x ∉ l

/-- What is left in a buffer can be read through its pointer. -/
def Readable (s : NetState) (b : AutoBuffer) : Prop :=
  b.remaining = [] ∨ s.contents b = some b.bytes

/-- What is left in a buffer is its own. -/
def Owned (b : AutoBuffer) : Prop := b.remaining = [] ∨ b.shallowCopyOf = none

theorem Owned.readable {b : AutoBuffer} (h : Owned b) (s : NetState) : s.Readable b := by
  rcases h with hnil | hown
  · exact Or.inl hnil
  · right
    unfold contents
    rw [hown]

theorem Readable.of_arrayOf {s t : NetState} {b : AutoBuffer} (h : s.Readable b)
    (harray : t.arrayOf = s.arrayOf) : t.Readable b := by
  unfold Readable contents at h ⊢
  rw [harray]
  exact h

/-- Of the bytes `whole`, what has been written for `x` and what is left in its
buffer, which can be read; `OnSendDone` has run once if nothing is left, and not
before. -/
structure Account (whole : Bytes) (x : CtxId) (s : NetState) (l : List Effect) : Prop where
  split : ∃ b, s.bufferOf x = some b ∧ b.pos ≤ b.bytes.length ∧
    written x l ++ b.remaining = whole ∧ l.count (.sendDone x) = if b.remaining = [] then 1 else 0
  readable : ∀ b ∈ s.bufferOf x, s.Readable b
  counted : s.counted x = (written x l).length
  tame : .wild x ∉ l
  whenDone : ∀ before after, l = before ++ .sendDone x :: after → written x before = whole

/-- An account of bytes that are the buffer's own. -/
structure OwnAccount (whole : Bytes) (x : CtxId) (s : NetState) (l : List Effect) : Prop
    extends Account whole x s l where
  owned : ∀ b ∈ s.bufferOf x, Owned b

theorem Unused.untouched {x : CtxId} {s t : NetState} {l : List Effect} (h : Unused x s l)
    (hsame : Untouched x s t) : Unused x t l :=
  ⟨hsame.buffer.trans h.buffer, hsame.counted.trans h.counted, h.written, h.tame, h.undone⟩

/-- The buffer is as before, and can still be read. -/
theorem Account.untouched {whole : Bytes} {x : CtxId} {s t : NetState} {l : List Effect}
    (h : Account whole x s l) (hsame : Untouched x s t)
    (hreadable : ∀ b ∈ s.bufferOf x, t.Readable b) : Account whole x t l := by
  refine ⟨?_, ?_, hsame.counted.trans h.counted, h.tame, h.whenDone⟩
  · rw [hsame.buffer]
    exact h.split
  · rw [hsame.buffer]
    exact hreadable

theorem OwnAccount.untouched {whole : Bytes} {x : CtxId} {s t : NetState} {l : List Effect}
    (h : OwnAccount whole x s l) (hsame : Untouched x s t) : OwnAccount whole x t l := by
  refine ⟨h.toAccount.untouched hsame fun b hb => (h.owned b hb).readable t, ?_⟩
  rw [hsame.buffer]
  exact h.owned

/-- What `Send` takes from a buffer, and what it leaves; it is done when it
leaves nothing of something. -/
theorem send_remaining {b : AutoBuffer} {w : WriteOutcome} (hpos : b.pos ≤ b.bytes.length)
    (hfits : w.Fits b.ntotal) :
    (send b w).1.pos ≤ (send b w).1.bytes.length ∧
      b.remaining.take w.count ++ (send b w).1.remaining = b.remaining ∧
      ((send b w).2 = true ↔ b.remaining ≠ [] ∧ (send b w).1.remaining = []) ∧
      (b.ntotal = 0 ↔ b.remaining = []) := by
  have hntotal : b.ntotal = b.bytes.length - b.pos := rfl
  have hlength : b.remaining.length = b.ntotal := List.length_drop
  have hempty : b.ntotal = 0 ↔ b.remaining = [] := by
    rw [← hlength, List.length_eq_zero_iff]
  replace hfits : w.count ≤ b.ntotal := hfits
  by_cases hzero : b.ntotal = 0
  · have hsend : send b w = (b, false) := if_pos hzero
    have hcount : w.count = 0 := by omega
    rw [hsend, hcount]
    refine ⟨hpos, rfl, ?_, hempty⟩
    constructor
    · intro h
      cases h
    · rintro ⟨hne, hnil⟩
      exact absurd hnil hne
  · obtain ⟨hbuffer, hdone⟩ := send_of_pos (b := b) (w := w) (by omega) hfits
    have hrest : (send b w).1.remaining = b.remaining.drop w.count := by
      rw [hbuffer]
      show b.bytes.drop (b.pos + w.count) = (b.bytes.drop b.pos).drop w.count
      rw [List.drop_drop]
    rw [hrest, hdone, List.take_append_drop, hbuffer, List.drop_eq_nil_iff, hlength]
    refine ⟨?_, rfl, ?_, hempty⟩
    · show b.pos + w.count ≤ b.bytes.length
      omega
    · constructor
      · intro hall
        exact ⟨fun hnil => hzero (hempty.2 hnil), Nat.le_of_eq hall.symm⟩
      · intro h
        exact Nat.le_antisymm hfits h.2

/-- `Send` moves the position only, and not back. -/
theorem send_keeps (b : AutoBuffer) (w : WriteOutcome) :
    (send b w).1.bytes = b.bytes ∧ (send b w).1.shallowCopyOf = b.shallowCopyOf ∧
      (b.remaining = [] → (send b w).1.remaining = []) := by
  unfold send
  split_ifs with hzero
  · exact ⟨rfl, rfl, id⟩
  · exact ⟨rfl, rfl, fun _ => List.drop_length⟩
  · refine ⟨rfl, rfl, fun hnil => ?_⟩
    have hlength : b.remaining.length = b.ntotal := List.length_drop
    rw [hnil] at hlength
    exact absurd hlength.symm hzero

theorem Readable.send {s : NetState} {b : AutoBuffer} (h : s.Readable b) (w : WriteOutcome) :
    s.Readable (send b w).1 := by
  obtain ⟨hbytes, hshallow, hnil⟩ := send_keeps b w
  refine h.imp hnil fun hcontents => ?_
  unfold contents at hcontents ⊢
  rw [hshallow, hbytes]
  exact hcontents

theorem Owned.send {b : AutoBuffer} (h : Owned b) (w : WriteOutcome) : Owned (send b w).1 := by
  obtain ⟨-, hshallow, hnil⟩ := send_keeps b w
  exact h.imp hnil fun hown => hshallow.trans hown

/-- Where an entry of a joined list stands. -/
theorem append_eq_append_cons {l l' before after : List Effect} {e : Effect}
    (h : l ++ l' = before ++ e :: after) :
    (∃ after', l = before ++ e :: after') ∨ ∃ m, before = l ++ m ∧ l' = m ++ e :: after := by
  rcases List.append_eq_append_iff.1 h with ⟨m, hbefore, hl'⟩ | ⟨m, hl, hcons⟩
  · exact Or.inr ⟨m, hbefore, hl'⟩
  · cases m with
    | nil =>
        right
        refine ⟨[], ?_, ?_⟩
        · rw [hl, List.append_nil, List.append_nil]
        · rw [List.nil_append] at hcons ⊢
          exact hcons.symm
    | cons a m =>
        cases hcons
        exact Or.inl ⟨m, hl⟩

theorem sendDone_not_mem {x : CtxId} {l : List Effect} (h : ∀ e ∈ l, e.ctx ≠ x) :
    .sendDone x ∉ l :=
  fun hmem => h _ hmem rfl

theorem wild_not_mem {x : CtxId} {l : List Effect} (h : ∀ e ∈ l, e.ctx ≠ x) : .wild x ∉ l :=
  fun hmem => h _ hmem rfl

/-- Effects for other contexts bring no bad write. -/
theorem tame_append {x : CtxId} {l l' : List Effect} (h : .wild x ∉ l)
    (hothers : ∀ e ∈ l', e.ctx ≠ x) : .wild x ∉ l ++ l' := by
  intro hmem
  rcases List.mem_append.1 hmem with hmem | hmem
  · exact h hmem
  · exact wild_not_mem hothers hmem

/-- What a `::write` takes from a buffer that can be read. -/
theorem Readable.taken {s : NetState} {b : AutoBuffer} (h : s.Readable b) (x : CtxId) (n : Nat) :
    s.taken x b n = .wrote x (b.remaining.take n) := by
  have hlength : b.remaining.length = b.ntotal := List.length_drop
  unfold NetState.taken
  split_ifs with hzero
  · rw [List.length_eq_zero_iff.1 (hlength.trans hzero), List.take_nil]
  · rcases h with hnil | hcontents
    · rw [hnil] at hlength
      exact absurd hlength.symm hzero
    · rw [hcontents]
      rfl

theorem Unused.sendOther {x : CtxId} {s t : NetState} {l l' : List Effect} (h : Unused x s l)
    (hsame : Untouched x s t) (hothers : ∀ e ∈ l', e.ctx ≠ x) : Unused x t (l ++ l') := by
  have hkept := h.untouched hsame
  refine ⟨hkept.buffer, hkept.counted, ?_, tame_append h.tame hothers, ?_⟩
  · rw [written_append, h.written, written_eq_nil hothers]
    rfl
  · intro hmem
    rcases List.mem_append.1 hmem with hmem | hmem
    · exact h.undone hmem
    · exact sendDone_not_mem hothers hmem

/-- A context that is new has not been used. -/
theorem Unused.of_known {x : CtxId} {s t : NetState} {l : List Effect} (h : Known s l)
    (hx : s.nextCtx ≤ x) (hbuffer : t.bufferOf x = some .empty) (hwrites : t.writes = s.writes) :
    Unused x t l := by
  have hothers : ∀ e ∈ l, e.ctx ≠ x :=
    fun e he => Nat.ne_of_lt (Nat.lt_of_lt_of_le (h.effects e he) hx)
  refine ⟨hbuffer, ?_, written_eq_nil hothers, wild_not_mem hothers, sendDone_not_mem hothers⟩
  have hnone : s.writes.filter (fun r => r.ctx = x) = [] := by
    rw [List.filter_eq_nil_iff]
    intro r hr
    have hne : r.ctx ≠ x := Nat.ne_of_lt (Nat.lt_of_lt_of_le (h.writes r hr) hx)
    simpa using hne
  unfold NetState.counted
  rw [hwrites, hnone]
  rfl

/-- A send of an empty buffer writes nothing. -/
theorem Unused.closed (x : CtxId) : Closed (Unused x) where
  frame := by
    intro s t l hctxs hwrites _ _ h
    exact h.untouched (Untouched.of_eq hctxs hwrites x)
  send := by
    intro s t l y w done hsend h
    by_cases hne : y = x
    · subst hne
      obtain ⟨k, hk, hfits, -, hctxs, hwrites, -, -, heffects⟩ := trySend_cases hsend
      have hbuffer : k.buffer = .empty := by
        have hsome := h.buffer
        rw [bufferOf_of_ctxs hk] at hsome
        exact Option.some.inj hsome
      have hsent : send k.buffer w = (k.buffer, false) := by
        rw [hbuffer]
        rfl
      rw [hsent] at hctxs heffects
      rw [hbuffer] at hwrites
      have htaken : s.taken y k.buffer w.count = .wrote y [] := by
        rw [hbuffer]
        rfl
      rw [heffects, htaken]
      refine ⟨?_, ?_, ?_, ?_, ?_⟩
      · unfold bufferOf
        rw [hctxs, Function.update_self, Option.map_some, hbuffer]
      · unfold NetState.counted
        rw [hwrites]
        exact h.counted
      · rw [written_append, h.written]
        simp [Unixtar.written, Effect.bytesFor]
      · intro hmem
        rcases List.mem_append.1 hmem with hmem | hmem
        · exact h.tame hmem
        · simp at hmem
      · intro hmem
        rcases List.mem_append.1 hmem with hmem | hmem
        · exact h.undone hmem
        · simp at hmem
    · apply h.sendOther (Untouched.trySend hne hsend)
      intro e he
      rw [trySendEffects_ctx e he]
      exact hne

/-- A send for another context. -/
theorem Account.sendOther {whole : Bytes} {x : CtxId} {s t : NetState} {l l' : List Effect}
    (h : Account whole x s l) (hsame : Untouched x s t)
    (hreadable : ∀ b ∈ s.bufferOf x, t.Readable b) (hothers : ∀ e ∈ l', e.ctx ≠ x) :
    Account whole x t (l ++ l') := by
  have hkept := h.untouched hsame hreadable
  have hwritten : written x (l ++ l') = written x l := by
    rw [written_append, written_eq_nil hothers, List.append_nil]
  refine ⟨?_, hkept.readable, ?_, tame_append h.tame hothers, ?_⟩
  · rw [hwritten, List.count_append, List.count_eq_zero_of_not_mem (sendDone_not_mem hothers)]
    exact hkept.split
  · rw [hwritten]
    exact hkept.counted
  · intro before after hl
    rcases append_eq_append_cons hl with ⟨after', hl⟩ | ⟨m, -, hl'⟩
    · exact h.whenDone before after' hl
    · have hmem : .sendDone x ∈ l' := by
        rw [hl']
        exact List.mem_append_right m (List.mem_cons_self ..)
      exact absurd hmem (sendDone_not_mem hothers)

theorem OwnAccount.sendOther {whole : Bytes} {x : CtxId} {s t : NetState} {l l' : List Effect}
    (h : OwnAccount whole x s l) (hsame : Untouched x s t) (hothers : ∀ e ∈ l', e.ctx ≠ x) :
    OwnAccount whole x t (l ++ l') := by
  refine ⟨h.toAccount.sendOther hsame (fun b hb => (h.owned b hb).readable t) hothers, ?_⟩
  rw [hsame.buffer]
  exact h.owned

theorem counted_append {s t : NetState} {x : CtxId} {b : AutoBuffer} {w : WriteOutcome}
    {owner socket : ConnId} {live : Bool} {pos : Nat}
    (h : t.writes = if b.ntotal = 0 then s.writes else s.writes ++
      [⟨x, owner, socket, live, pos, w.count⟩]) (hfits : w.Fits b.ntotal) :
    t.counted x = s.counted x + w.count := by
  replace hfits : w.count ≤ b.ntotal := hfits
  unfold NetState.counted
  rw [h]
  split
  · omega
  · rw [List.filter_append, List.filter_cons_of_pos (by simp), List.filter_nil, List.map_append,
      List.sum_append]
    rfl

/-- The bytes on account of `x` behind one `Send`. -/
theorem written_send (x : CtxId) (l : List Effect) (part : Bytes) (done : Bool) :
    written x (l ++ .wrote x part :: if done then [.sendDone x] else []) = written x l ++ part := by
  rw [written_append]
  split <;> simp [written, Effect.bytesFor]

/-- `OnSendDone` is the last effect of a `Send`. -/
theorem sendDone_last {x : CtxId} {part : Bytes} {done : Bool} {m after : List Effect}
    (h : (Effect.wrote x part :: if done then [.sendDone x] else []) = m ++ .sendDone x :: after) :
    done = true ∧ m = [.wrote x part] := by
  cases m with
  | nil => cases h
  | cons e m =>
      obtain ⟨rfl, h⟩ := List.cons.inj h
      split at h
      · rename_i hdone
        cases m with
        | nil => exact ⟨hdone, rfl⟩
        | cons e m =>
            obtain ⟨-, h⟩ := List.cons.inj h
            exact absurd h.symm (by simp)
      · exact absurd h.symm (by simp)

/-- `OnSendDone` runs in the `Send` that leaves nothing of what was left. -/
theorem count_sendDone_send {b : AutoBuffer} {w : WriteOutcome} (hpos : b.pos ≤ b.bytes.length)
    (hfits : w.Fits b.ntotal) (x : CtxId) (part : Bytes) :
    (if b.remaining = [] then 1 else 0) +
      (Effect.wrote x part :: if (send b w).2 then [.sendDone x] else []).count (.sendDone x) =
      if (send b w).1.remaining = [] then 1 else 0 := by
  obtain ⟨-, htaken, hdone, -⟩ := send_remaining hpos hfits
  cases hd : (send b w).2 with
  | true =>
      obtain ⟨hne, hnil⟩ := hdone.1 hd
      rw [if_neg hne, if_pos hnil]
      simp
  | false =>
      have hsame : (send b w).1.remaining = [] ↔ b.remaining = [] := by
        constructor
        · intro hnil
          by_contra hne
          rw [hdone.2 ⟨hne, hnil⟩] at hd
          cases hd
        · intro hnil
          rw [hnil] at htaken
          exact (List.append_eq_nil_iff.1 htaken).2
      simp only [hsame]
      simp

/-- A send for the context itself. -/
theorem Account.sendSelf {whole : Bytes} {x : CtxId} {s t : NetState} {l : List Effect}
    {w : WriteOutcome} {done : Bool} (h : Account whole x s l)
    (hsend : s.trySend x w = some (t, done)) : Account whole x t (l ++ s.trySendEffects x w) := by
  obtain ⟨k, hk, hfits, -, hctxs, hwrites, -, hmgr, heffects⟩ := trySend_cases hsend
  obtain ⟨b, hb, hpos, hwhole, hcount⟩ := h.split
  rw [bufferOf_of_ctxs hk] at hb
  cases hb
  obtain ⟨hpos', htaken, hdone, -⟩ := send_remaining hpos hfits
  have hreadable := h.readable k.buffer (bufferOf_of_ctxs hk)
  have hsent : t.bufferOf x = some (send k.buffer w).1 := by
    unfold bufferOf
    rw [hctxs, Function.update_self]
    rfl
  rw [heffects, hreadable.taken]
  refine ⟨⟨(send k.buffer w).1, hsent, hpos', ?_, ?_⟩, ?_, ?_, ?_, ?_⟩
  · rw [written_send, List.append_assoc, htaken, hwhole]
  · rw [List.count_append, hcount]
    exact count_sendDone_send hpos hfits x _
  · intro b hb
    rw [hsent] at hb
    cases hb
    apply (hreadable.send w).of_arrayOf
    unfold arrayOf
    rw [hmgr]
  · rw [written_send, List.length_append, ← h.counted, List.length_take_of_le]
    · exact counted_append hwrites hfits
    · show w.count ≤ (k.buffer.bytes.drop k.buffer.pos).length
      rw [List.length_drop]
      exact hfits
  · intro hmem
    rcases List.mem_append.1 hmem with hmem | hmem
    · exact h.tame hmem
    · split at hmem <;> simp at hmem
  · intro before after hl
    rcases append_eq_append_cons hl with ⟨after', hl⟩ | ⟨m, hbefore, hm⟩
    · exact h.whenDone before after' hl
    · obtain ⟨hd, hm'⟩ := sendDone_last hm
      rw [(hdone.1 hd).2, List.append_nil] at htaken
      rw [hbefore, hm', written_append, ← hwhole]
      simp [written, Effect.bytesFor, htaken]

/-- **Sending keeps the account**, whatever the outcomes are. -/
theorem Account.closed (whole : Bytes) (x : CtxId) : Closed (Account whole x) where
  frame := by
    intro s t l hctxs hwrites _ harray h
    exact h.untouched (Untouched.of_eq hctxs hwrites x)
      fun b hb => (h.readable b hb).of_arrayOf harray
  send := by
    intro s t l y w done hsend h
    by_cases hne : y = x
    · subst hne
      exact h.sendSelf hsend
    · have harray : t.arrayOf = s.arrayOf := by
        obtain ⟨k, -, -, -, -, -, -, hmgr, -⟩ := trySend_cases hsend
        unfold arrayOf
        rw [hmgr]
      apply h.sendOther (Untouched.trySend hne hsend)
      · exact fun b hb => (h.readable b hb).of_arrayOf harray
      · intro e he
        rw [trySendEffects_ctx e he]
        exact hne

theorem OwnAccount.closed (whole : Bytes) (x : CtxId) : Closed (OwnAccount whole x) where
  frame := by
    intro s t l hctxs hwrites _ _ h
    exact h.untouched (Untouched.of_eq hctxs hwrites x)
  send := by
    intro s t l y w done hsend h
    refine ⟨(Account.closed whole x).send hsend h.toAccount, ?_⟩
    by_cases hne : y = x
    · subst hne
      obtain ⟨k, hk, -, -, hctxs, -⟩ := trySend_cases hsend
      intro b hb
      unfold bufferOf at hb
      rw [hctxs, Function.update_self] at hb
      cases hb
      exact (h.owned k.buffer (bufferOf_of_ctxs hk)).send w
    · rw [(Untouched.trySend hne hsend).buffer]
      exact h.owned

end NetState

end Unixtar
