import Unixtar.NetworkModel.NetThread
import Mathlib.Data.List.Perm.Subperm

/-!
# Who may still use a send context

A send context is either waiting in the queue of the connection that made
it, or it is held somewhere outside of the network thread's connections (by
a packet on its way to a worker, by a worker, on the send queue), or nobody
will send it any more.  `Sound` says that every context of the first two
kinds is listed in its live connection, so that the destructor reaches it,
and that it is invalid once the connection is gone.

`DelSendContext` goes by number, and the numbers of a connection wrap
around.  So a new context must not get the number of one that is still
listed.

## Main results

* `Sound.trySendAndMarkPendingIfUndone`, `Sound.trySendPendingPackets` — both
  ways of sending keep the invariant, and write to live connections only.
* `Sound.destroy`, `Sound.clearTimeout` — so does the end of a connection.
* `Sound.newContext` — so does a new context, if its number is free.
* `Frame` — what else sending and deleting can change.
-/

namespace Unixtar.NetState

/-! ## The invariant -/

/-- A context without its buffer. -/
def label (s : NetState) (x : CtxId) : Option SendContext :=
  (s.ctxs x).map fun k => { k with buffer := .empty }

/-- The contexts of one live connection. -/
structure Listed (label : CtxId → Option SendContext) (held : List CtxId) (id : ConnId)
    (c : ConnectionProfile) : Prop where
  own : ∀ x ∈ c.sendContexts, ∃ k, label x = some k ∧ k.owner = id
  distinct : ∀ x ∈ c.sendContexts, ∀ y ∈ c.sendContexts, ∀ k l,
    label x = some k → label y = some l → k.seq = l.seq → x = y
  pending : ∀ x ∈ c.pendingSendCtx, x ∈ c.sendContexts ∧ x ∉ held
  nodup : c.pendingSendCtx.Nodup

/-- A context that somebody holds: its connection still lists it, and it is
valid as long as the connection is live. -/
def Accounted (s : NetState) (x : CtxId) : Prop :=
  ∃ k, s.label x = some k ∧
    (∀ c, s.mgr.conns k.owner = some c → x ∈ c.sendContexts) ∧
    k.isTcpConnValid = s.isLive k.owner

/-- The invariant of a network thread, with the contexts held outside. -/
structure Sound (s : NetState) (held : List CtxId) : Prop where
  ctx_lt : ∀ x k, s.label x = some k → x < s.nextCtx
  owned : ∀ x k, s.label x = some k → k.socket = k.owner ∧ k.owner < s.nextConn
  conn_lt : ∀ id c, s.mgr.conns id = some c → id < s.nextConn
  listed : ∀ id c, s.mgr.conns id = some c → Listed s.label held id c
  accounted : ∀ x ∈ held, s.Accounted x
  nodup : held.Nodup
  writes : ∀ r ∈ s.writes, r.live = true ∧ r.socket = r.owner

theorem sound_init (v : VectorImpl) : (init v).Sound [] where
  ctx_lt x k h := by cases h
  owned x k h := by cases h
  conn_lt id c h := by cases h
  listed id c h := by cases h
  accounted x hx := by cases hx
  nodup := List.nodup_nil
  writes r hr := by cases hr

theorem label_eq_some {s : NetState} {x : CtxId} {l : SendContext} (h : s.label x = some l) :
    ∃ k, s.ctxs x = some k ∧ k.seq = l.seq ∧ k.owner = l.owner ∧ k.socket = l.socket ∧
      k.isTcpConnValid = l.isTcpConnValid := by
  obtain ⟨k, hk, rfl⟩ := Option.map_eq_some_iff.1 h
  exact ⟨k, hk, rfl, rfl, rfl, rfl⟩

theorem label_of_ctxs {s : NetState} {x : CtxId} {k : SendContext} (h : s.ctxs x = some k) :
    s.label x = some { k with buffer := .empty } := by
  unfold label
  rw [h]
  rfl

theorem isLive_of_conns {s : NetState} {id : ConnId} {c : ConnectionProfile}
    (hc : s.mgr.conns id = some c) : s.isLive id = true := by
  unfold isLive
  rw [hc]
  rfl

/-- A change of a live connection keeps everybody's liveness. -/
theorem isLive_setConn {s : NetState} {id : ConnId} {c : ConnectionProfile}
    (hc : s.mgr.conns id = some c) (c' : ConnectionProfile) (id' : ConnId) :
    (s.setConn id c').isLive id' = s.isLive id' := by
  unfold isLive
  rw [setConn_conns]
  by_cases hid : id' = id
  · rw [hid, Function.update_self, hc]
    rfl
  · rw [Function.update_of_ne hid]

/-- A change of a buffer changes no label. -/
theorem label_updateBuffer {s t : NetState} {x : CtxId} {k : SendContext} {b : AutoBuffer}
    (hk : s.ctxs x = some k)
    (hctxs : t.ctxs = Function.update s.ctxs x (some { k with buffer := b })) :
    t.label = s.label := by
  funext y
  unfold label
  rw [hctxs]
  by_cases hy : y = x
  · subst hy
    rw [Function.update_self, hk]
    rfl
  · rw [Function.update_of_ne hy]

/-- Fewer contexts held. -/
theorem Sound.mono {s : NetState} {held held' : List CtxId} (h : s.Sound held)
    (hsub : held'.Subperm held) : s.Sound held' where
  ctx_lt := h.ctx_lt
  owned := h.owned
  conn_lt := h.conn_lt
  listed id c hc :=
    { own := (h.listed id c hc).own
      distinct := (h.listed id c hc).distinct
      pending := by
        intro x hx
        obtain ⟨hmem, hfree⟩ := (h.listed id c hc).pending x hx
        exact ⟨hmem, fun hx' => hfree (hsub.subset hx')⟩
      nodup := (h.listed id c hc).nodup }
  accounted x hx := h.accounted x (hsub.subset hx)
  nodup := by
    obtain ⟨l, hperm, hsublist⟩ := hsub
    exact hperm.nodup_iff.1 (hsublist.nodup h.nodup)
  writes := h.writes

/-- A change that the invariant does not see. -/
theorem Sound.congr {s t : NetState} {held : List CtxId} (h : s.Sound held)
    (hlabel : t.label = s.label) (hconns : t.mgr.conns = s.mgr.conns)
    (hnextConn : t.nextConn = s.nextConn) (hnextCtx : t.nextCtx = s.nextCtx)
    (hwrites : ∀ r ∈ t.writes, r.live = true ∧ r.socket = r.owner) : t.Sound held where
  ctx_lt := by rw [hlabel, hnextCtx]; exact h.ctx_lt
  owned := by rw [hlabel, hnextConn]; exact h.owned
  conn_lt := by rw [hconns, hnextConn]; exact h.conn_lt
  listed := by rw [hlabel, hconns]; exact h.listed
  accounted := by
    unfold Accounted isLive
    rw [hlabel, hconns]
    exact h.accounted
  nodup := h.nodup
  writes := hwrites

/-- **One connection changes.**  What is held now was held before, and stays
listed if it was, or is listed by the changed connection. -/
theorem Sound.update {s : NetState} {held held' : List CtxId} {id : ConnId}
    {c c' : ConnectionProfile} (h : s.Sound held) (hc : s.mgr.conns id = some c)
    (hnodup : held'.Nodup) (hlisted : Listed s.label held' id c')
    (hheld : ∀ x ∈ held', (x ∈ held ∧ (x ∈ c.sendContexts → x ∈ c'.sendContexts)) ∨
      x ∈ c'.sendContexts ∧ ∀ k ∈ s.label x, k.isTcpConnValid = true) :
    (s.setConn id c').Sound held' := by
  refine ⟨h.ctx_lt, h.owned, ?_, ?_, ?_, hnodup, h.writes⟩
  · intro id' d hd
    show id' < s.nextConn
    rw [setConn_conns] at hd
    by_cases hid : id' = id
    · rw [hid]
      exact h.conn_lt id c hc
    · rw [Function.update_of_ne hid] at hd
      exact h.conn_lt id' d hd
  · intro id' d hd
    rw [setConn_conns] at hd
    show Listed s.label held' id' d
    by_cases hid : id' = id
    · subst hid
      rw [Function.update_self] at hd
      cases hd
      exact hlisted
    · rw [Function.update_of_ne hid] at hd
      have hold := h.listed id' d hd
      refine ⟨hold.own, hold.distinct, ?_, hold.nodup⟩
      intro x hx
      obtain ⟨hxd, hfree⟩ := hold.pending x hx
      refine ⟨hxd, ?_⟩
      intro hx'
      rcases hheld x hx' with ⟨hxheld, -⟩ | ⟨hxc, -⟩
      · exact hfree hxheld
      · obtain ⟨k, hk, hkid⟩ := hlisted.own x hxc
        obtain ⟨l, hl, hlid⟩ := hold.own x hxd
        rw [hk] at hl
        cases hl
        exact hid (hlid.symm.trans hkid)
  · intro x hx
    rcases hheld x hx with ⟨hxheld, hstays⟩ | ⟨hxc, hxvalid⟩
    · obtain ⟨k, hk, hlive, hvalid⟩ := h.accounted x hxheld
      refine ⟨k, hk, ?_, hvalid.trans (isLive_setConn hc c' k.owner).symm⟩
      intro d hd
      rw [setConn_conns] at hd
      by_cases hid : k.owner = id
      · rw [hid, Function.update_self] at hd
        cases hd
        apply hstays
        apply hlive
        rw [hid]
        exact hc
      · rw [Function.update_of_ne hid] at hd
        exact hlive d hd
    · obtain ⟨k, hk, hkid⟩ := hlisted.own x hxc
      refine ⟨k, hk, ?_, ?_⟩
      · intro d hd
        rw [setConn_conns, hkid, Function.update_self] at hd
        cases hd
        exact hxc
      · rw [isLive_setConn hc, hkid, isLive_of_conns hc]
        exact hxvalid k hk

/-- The case in which some contexts are no longer held. -/
theorem Sound.updateLess {s : NetState} {held held' : List CtxId} {id : ConnId}
    {c c' : ConnectionProfile} (h : s.Sound held) (hc : s.mgr.conns id = some c)
    (hsub : held'.Subperm held) (hlisted : Listed s.label held' id c')
    (hheld : ∀ x ∈ held', x ∈ c.sendContexts → x ∈ c'.sendContexts) :
    (s.setConn id c').Sound held' := by
  apply h.update hc (h.mono hsub).nodup hlisted
  intro x hx
  exact Or.inl ⟨hsub.subset hx, hheld x hx⟩

/-- A change of a connection that keeps its two lists. -/
theorem Sound.setConn {s : NetState} {held : List CtxId} {id : ConnId}
    {c c' : ConnectionProfile} (h : s.Sound held) (hc : s.mgr.conns id = some c)
    (hcontexts : c'.sendContexts = c.sendContexts)
    (hpending : c'.pendingSendCtx = c.pendingSendCtx) : (s.setConn id c').Sound held := by
  have hold := h.listed id c hc
  apply h.updateLess hc (List.Subperm.refl _)
  · refine ⟨?_, ?_, ?_, ?_⟩
    · rw [hcontexts]
      exact hold.own
    · rw [hcontexts]
      exact hold.distinct
    · rw [hcontexts, hpending]
      exact hold.pending
    · rw [hpending]
      exact hold.nodup
  · intro x _ hx
    rw [hcontexts]
    exact hx

/-! ## Sending -/

/-- `TrySend` for a live connection: nothing the invariant sees changes, and
the write is a good one. -/
theorem Sound.trySend {s t : NetState} {held : List CtxId} {x : CtxId} {k : SendContext}
    {w : WriteOutcome} {done : Bool} (h : s.Sound held) (hk : s.ctxs x = some k)
    (hlive : s.isLive k.owner = true) (hsend : s.trySend x w = some (t, done)) :
    t.Sound held ∧ t.mgr = s.mgr ∧
      ∃ b, t.ctxs = Function.update s.ctxs x (some { k with buffer := b }) := by
  obtain ⟨-, -, rfl⟩ := trySend_eq hk hsend
  refine ⟨h.congr (label_updateBuffer hk rfl) rfl rfl rfl ?_, rfl, _, rfl⟩
  intro r hr
  replace hr : r ∈ if k.buffer.ntotal = 0 then s.writes else s.writes ++
    [⟨x, k.owner, k.socket, s.isLive k.owner, k.buffer.pos, w.count⟩] := hr
  split at hr
  · exact h.writes r hr
  · rcases List.mem_append.1 hr with hr | hr
    · exact h.writes r hr
    · rw [List.mem_singleton.1 hr]
      exact ⟨hlive, (h.owned x _ (label_of_ctxs hk)).1⟩

/-- **A context is done**: `DelSendContext` takes it off the list of its
connection, and no other one, because the numbers are distinct. -/
theorem Sound.sendDone {s : NetState} {held held' : List CtxId} {x : CtxId} {k : SendContext}
    {c : ConnectionProfile} {timeoutTs : Nat} {sendContexts pending : List CtxId}
    (h : s.Sound held) (hk : s.ctxs x = some k) (hc : s.mgr.conns k.owner = some c)
    (hx : x ∈ c.sendContexts) (hsub : held'.Subperm held) (hfree : x ∉ held')
    (hless : ∀ y ∈ sendContexts, y ∈ c.sendContexts)
    (hmem : ∀ y l, s.ctxs y = some l →
      (y ∈ sendContexts ↔ y ∈ c.sendContexts ∧ l.seq ≠ k.seq))
    (hpending : ∀ y ∈ pending, y ∈ c.pendingSendCtx ∧ y ≠ x) (hnodup : pending.Nodup) :
    (s.setConn k.owner { c with timeoutTs, sendContexts, pendingSendCtx := pending }).Sound
      held' := by
  have hold := h.listed k.owner c hc
  have hkeep : ∀ y ∈ c.sendContexts, y ≠ x → y ∈ sendContexts := by
    intro y hy hne
    obtain ⟨l', hl', -⟩ := hold.own y hy
    obtain ⟨l, hl, hseq, -⟩ := label_eq_some hl'
    refine (hmem y l hl).2 ⟨hy, ?_⟩
    intro heq
    exact hne (hold.distinct y hy x hx l' _ hl' (label_of_ctxs hk) (hseq.symm.trans heq))
  apply h.updateLess hc hsub
  · exact
      { own := fun y hy => hold.own y (hless y hy)
        distinct := fun y hy z hz => hold.distinct y (hless y hy) z (hless z hz)
        pending := by
          intro y hy
          obtain ⟨hyp, hne⟩ := hpending y hy
          obtain ⟨hyc, hyfree⟩ := hold.pending y hyp
          exact ⟨hkeep y hyc hne, fun hy' => hyfree (hsub.subset hy')⟩
        nodup := hnodup }
  · intro y hy hyc
    apply hkeep y hyc
    rintro rfl
    exact hfree hy

/-- **The direct path** for a context that is held. -/
theorem Sound.trySendAndMarkPendingIfUndone {s t : NetState} {held : List CtxId} {x : CtxId}
    {w : WriteOutcome} {done : Bool} (h : s.Sound held) (hx : x ∈ held)
    (hsend : s.trySendAndMarkPendingIfUndone x w = some (t, done)) :
    t.Sound (held.erase x) := by
  have hsub : (held.erase x).Subperm held := List.erase_sublist.subperm
  have hfree : x ∉ held.erase x := h.nodup.not_mem_erase
  obtain ⟨l, hl, hlisted, hisLive⟩ := h.accounted x hx
  obtain ⟨k, hk, -, howner, -, hvalid⟩ := label_eq_some hl
  rw [← howner] at hlisted hisLive
  -- a write for a valid context is one of a live connection that lists it
  have hwrite : ∀ {s₁ : NetState} {d : Bool}, k.isTcpConnValid = true →
      s.trySend x w = some (s₁, d) →
      ∃ c b, s₁.Sound held ∧ s₁.mgr.conns k.owner = some c ∧
        s₁.ctxs x = some { k with buffer := b } ∧ x ∈ c.sendContexts ∧ x ∉ c.pendingSendCtx := by
    intro s₁ d hk_valid htry
    cases hc : s.mgr.conns k.owner with
    | none =>
        -- the destructor has reached every held context of a dead connection
        rw [hvalid, hisLive, isLive, hc] at hk_valid
        cases hk_valid
    | some c =>
        obtain ⟨h₁, hmgr, b, hctxs⟩ := h.trySend hk (isLive_of_conns hc) htry
        have hc₁ : s₁.mgr.conns k.owner = some c := by
          rw [hmgr]
          exact hc
        have hold := h₁.listed k.owner c hc₁
        refine ⟨c, b, h₁, hc₁, ?_, hlisted c hc, fun hmem => (hold.pending x hmem).2 hx⟩
        rw [hctxs, Function.update_self]
  cases trySendAndMarkPendingIfUndone_cases hsend with
  | done k' s₁ hk' hk_valid htry =>
      rw [hk] at hk'
      cases hk'
      obtain ⟨c, b, h₁, hc₁, hk₁, hxc, hnotpending⟩ := hwrite hk_valid htry
      have hold := h₁.listed k.owner c hc₁
      obtain ⟨timeoutTs, sendContexts, hdone, hless, hmem⟩ := onSendDone_eq hk₁ hc₁
      rw [hdone]
      apply h₁.sendDone hk₁ hc₁ hxc hsub hfree hless hmem _ hold.nodup
      intro y hy
      refine ⟨hy, ?_⟩
      rintro rfl
      exact hnotpending hy
  | undone k' s₁ hk' hk_valid htry =>
      rw [hk] at hk'
      cases hk'
      obtain ⟨c, b, h₁, hc₁, hk₁, hxc, hnotpending⟩ := hwrite hk_valid htry
      have hold := h₁.listed k.owner c hc₁
      rw [markAsPendingPacket_eq hk₁ hc₁]
      apply h₁.updateLess hc₁ hsub
      · exact
          { own := hold.own
            distinct := hold.distinct
            pending := by
              intro y hy
              rcases List.mem_append.1 hy with hy | hy
              · obtain ⟨hyc, hyfree⟩ := hold.pending y hy
                exact ⟨hyc, fun hy' => hyfree (hsub.subset hy')⟩
              · rw [List.mem_singleton.1 hy]
                exact ⟨hxc, hfree⟩
            nodup := by
              refine List.nodup_append.2 ⟨hold.nodup, List.nodup_singleton x, ?_⟩
              intro y hy z hz
              rw [List.mem_singleton.1 hz]
              rintro rfl
              exact hnotpending hy }
      · intro y _ hyc
        exact hyc
  | skipped => exact h.mono hsub

/-- **The deferred path.** -/
theorem Sound.trySendPendingPackets {s t : NetState} {held : List CtxId} {id : ConnId}
    {ws : List WriteOutcome} (h : s.Sound held)
    (hsend : s.trySendPendingPackets id ws = some t) : t.Sound held := by
  induction ws generalizing s with
  | nil =>
      rw [trySendPendingPackets_nil hsend]
      exact h
  | cons w ws ih =>
      obtain ⟨c, x, rest, hc, hpending, hcase⟩ := trySendPendingPackets_cons hsend
      have hold := h.listed id c hc
      obtain ⟨hxc, hxfree⟩ := hold.pending x (by rw [hpending]; exact List.mem_cons_self)
      obtain ⟨hnotmem, hnodup⟩ := List.nodup_cons.1 (hpending ▸ hold.nodup)
      obtain ⟨l, hl, hlid⟩ := hold.own x hxc
      obtain ⟨k, hk, -, howner, -⟩ := label_eq_some hl
      have hid : k.owner = id := howner.trans hlid
      have hlive : s.isLive k.owner = true := isLive_of_conns (hid ▸ hc)
      rcases hcase with ⟨s₁, htry, hnext⟩ | ⟨htry, -⟩
      · -- the head is done and leaves the queue
        obtain ⟨h₁, hmgr, b, hctxs⟩ := h.trySend hk hlive htry
        have hk₁ : s₁.ctxs x = some { k with buffer := b } := by
          rw [hctxs, Function.update_self]
        have hc₁ : s₁.mgr.conns k.owner = some c := by
          rw [hmgr, hid]
          exact hc
        obtain ⟨timeoutTs, sendContexts, hpop, hless, hmem⟩ := popPending_onSendDone hk₁ hc₁
        have hrest : ∀ y ∈ rest, y ∈ c.pendingSendCtx ∧ y ≠ x := by
          intro y hy
          rw [hpending]
          refine ⟨List.mem_cons_of_mem x hy, ?_⟩
          rintro rfl
          exact hnotmem hy
        apply ih _ hnext
        rw [← hid]
        show NetState.Sound ((s₁.onSendDone x).popPending _) held
        rw [hpop, hpending]
        exact h₁.sendDone hk₁ hc₁ hxc (List.Subperm.refl _) hxfree hless hmem hrest hnodup
      · exact (h.trySend hk hlive htry).1

/-! ## The end of a connection -/

theorem label_invalidate (xs : List CtxId) (s t : NetState)
    (hctxs : t.ctxs = invalidate xs s.ctxs) (x : CtxId) :
    t.label x = if x ∈ xs then (s.label x).map fun k => { k with isTcpConnValid := false }
      else s.label x := by
  unfold label
  rw [hctxs]
  unfold invalidate
  split
  · cases s.ctxs x <;> rfl
  · rfl

/-- **The destructor** reaches every context that is held. -/
theorem Sound.destroy {s : NetState} {held : List CtxId} {id : ConnId}
    {c : ConnectionProfile} (slot uid : Nat) (h : s.Sound held)
    (hc : s.mgr.conns id = some c) : (s.destroy slot uid id c).Sound held := by
  have hlabel := label_invalidate c.sendContexts s (s.destroy slot uid id c) rfl
  have hconns : (s.destroy slot uid id c).mgr.conns = Function.update s.mgr.conns id none := rfl
  -- only the validity of a context changes, and only for contexts of this connection
  have hback : ∀ x k, (s.destroy slot uid id c).label x = some k →
      ∃ l, s.label x = some l ∧ l.seq = k.seq ∧ l.owner = k.owner ∧ l.socket = k.socket := by
    intro x k hk
    rw [hlabel] at hk
    split at hk
    · obtain ⟨l, hl, rfl⟩ := Option.map_eq_some_iff.1 hk
      exact ⟨l, hl, rfl, rfl, rfl⟩
    · exact ⟨k, hk, rfl, rfl, rfl⟩
  have hforth : ∀ x l, s.label x = some l → ∃ k, (s.destroy slot uid id c).label x = some k ∧
      k.owner = l.owner ∧ (x ∈ c.sendContexts → k.isTcpConnValid = false) ∧
      (x ∉ c.sendContexts → k = l) := by
    intro x l hl
    rw [hlabel, hl]
    split
    · rename_i hx
      exact ⟨_, rfl, rfl, fun _ => rfl, fun hx' => absurd hx hx'⟩
    · rename_i hx
      exact ⟨l, rfl, rfl, fun hx' => absurd hx' hx, fun _ => rfl⟩
  refine ⟨?_, ?_, ?_, ?_, ?_, h.nodup, h.writes⟩
  · intro x k hk
    obtain ⟨l, hl, -⟩ := hback x k hk
    exact h.ctx_lt x l hl
  · intro x k hk
    obtain ⟨l, hl, -, howner, hsocket⟩ := hback x k hk
    rw [← howner, ← hsocket]
    exact h.owned x l hl
  · intro id' d hd
    exact h.conn_lt id' d (ConnectionManager.conns_of_release hd).2
  · intro id' d hd
    have hold := h.listed id' d (ConnectionManager.conns_of_release hd).2
    refine ⟨?_, ?_, hold.pending, hold.nodup⟩
    · intro x hx
      obtain ⟨l, hl, howner⟩ := hold.own x hx
      obtain ⟨k, hk, hko, -⟩ := hforth x l hl
      exact ⟨k, hk, hko.trans howner⟩
    · intro x hx y hy k l hk hl hseq
      obtain ⟨k', hk', hks, -⟩ := hback x k hk
      obtain ⟨l', hl', hls, -⟩ := hback y l hl
      exact hold.distinct x hx y hy k' l' hk' hl' (by rw [hks, hls, hseq])
  · intro x hx
    obtain ⟨l, hl, hlisted, hvalid⟩ := h.accounted x hx
    obtain ⟨k, hk, howner, hin, hout⟩ := hforth x l hl
    refine ⟨k, hk, ?_, ?_⟩
    · intro d hd
      rw [howner] at hd
      exact hlisted d (ConnectionManager.conns_of_release hd).2
    · unfold isLive
      rw [hconns, howner]
      by_cases hid : l.owner = id
      · rw [hid, Function.update_self]
        exact hin (hlisted c (by rw [hid]; exact hc))
      · have hxc : x ∉ c.sendContexts := by
          intro hxc
          obtain ⟨m, hm, hmid⟩ := (h.listed id c hc).own x hxc
          rw [hl] at hm
          cases hm
          exact hid hmid
        rw [Function.update_of_ne hid, hout hxc]
        exact hvalid

theorem Sound.delConnection {s t : NetState} {held : List CtxId} {uid : Nat} (h : s.Sound held)
    (hdel : s.delConnection uid = some t) : t.Sound held := by
  obtain ⟨id, c, -, hc, rfl⟩ := delConnection_cases hdel
  exact h.destroy uid uid hc

theorem Sound.clearSlot {s : NetState} {held : List CtxId} (slot : Nat) (h : s.Sound held) :
    (s.clearSlot slot).Sound held := by
  unfold NetState.clearSlot
  split
  · rename_i id c hexpired
    exact h.destroy slot c.uid (ConnectionManager.expired_iff.1 hexpired).2.1
  · exact h

/-- **`ClearTimeout`**, slot by slot. -/
theorem Sound.clearTimeout {s : NetState} {held : List CtxId} (h : s.Sound held) :
    s.clearTimeout.Sound held :=
  clearTimeout_keeps (P := fun t => t.Sound held) (fun _ slot ht => ht.clearSlot slot) h

/-! ## New connections and new contexts -/

/-- A new connection has made no contexts. -/
theorem Sound.addConnection {s t : NetState} {held : List CtxId} {v : VectorImpl}
    {c : ConnectionProfile} {id : ConnId} (h : s.Sound held) (hcontexts : c.sendContexts = [])
    (hpending : c.pendingSendCtx = []) (hadd : s.addConnection v c = some (t, id)) :
    t.Sound held := by
  obtain ⟨mgr, hmgr, heq⟩ := Option.map_eq_some_iff.1 hadd
  obtain ⟨uid, hconns⟩ := ConnectionManager.addConnection_conns hmgr
  cases heq
  have hnew : s.mgr.conns s.nextConn = none := by
    cases hd : s.mgr.conns s.nextConn with
    | none => rfl
    | some d => exact absurd (h.conn_lt _ d hd) (Nat.lt_irrefl _)
  refine ⟨h.ctx_lt, ?_, ?_, ?_, ?_, h.nodup, h.writes⟩
  · intro x k hk
    obtain ⟨hsocket, howner⟩ := h.owned x k hk
    exact ⟨hsocket, Nat.lt_succ_of_lt howner⟩
  · intro id d hd
    replace hd : mgr.conns id = some d := hd
    rw [hconns] at hd
    show id < s.nextConn + 1
    by_cases hid : id = s.nextConn
    · rw [hid]
      exact Nat.lt_succ_self _
    · rw [Function.update_of_ne hid] at hd
      exact Nat.lt_succ_of_lt (h.conn_lt id d hd)
  · intro id d hd
    replace hd : mgr.conns id = some d := hd
    rw [hconns] at hd
    by_cases hid : id = s.nextConn
    · rw [hid, Function.update_self] at hd
      cases hd
      refine ⟨?_, ?_, ?_, ?_⟩ <;> simp [hcontexts, hpending]
    · rw [Function.update_of_ne hid] at hd
      exact h.listed id d hd
  · intro x hx
    obtain ⟨k, hk, hlisted, hvalid⟩ := h.accounted x hx
    -- a held context was made by an older connection
    have hne : k.owner ≠ s.nextConn := Nat.ne_of_lt (h.owned x k hk).2
    refine ⟨k, hk, ?_, ?_⟩
    · intro d hd
      replace hd : mgr.conns k.owner = some d := hd
      rw [hconns, Function.update_of_ne hne] at hd
      exact hlisted d hd
    · show k.isTcpConnValid = (mgr.conns k.owner).isSome
      rw [hconns, Function.update_of_ne hne]
      exact hvalid

/-- An object on the heap that nobody knows. -/
theorem Sound.allocCtx {s : NetState} {held : List CtxId} {k : SendContext} (h : s.Sound held)
    (howner : k.owner < s.nextConn) (hsocket : k.socket = k.owner) :
    (s.allocCtx (some k)).Sound held := by
  generalize ht : s.allocCtx (some k) = t
  have hconns : t.mgr.conns = s.mgr.conns := by rw [← ht]; rfl
  have hnextConn : t.nextConn = s.nextConn := by rw [← ht]; rfl
  have hnextCtx : t.nextCtx = s.nextCtx + 1 := by rw [← ht]; rfl
  have hself : t.label s.nextCtx = some { k with buffer := .empty } := by
    apply label_of_ctxs
    rw [← ht]
    exact Function.update_self _ _ _
  have hother : ∀ x, x ≠ s.nextCtx → t.label x = s.label x := by
    intro x hx
    unfold label
    rw [← ht]
    show (Function.update s.ctxs s.nextCtx (some k) x).map _ = _
    rw [Function.update_of_ne hx]
  have hsome : ∀ x l, s.label x = some l → t.label x = some l := by
    intro x l hl
    rw [hother x (Nat.ne_of_lt (h.ctx_lt x l hl)), hl]
  refine ⟨?_, ?_, ?_, ?_, ?_, h.nodup, by rw [← ht]; exact h.writes⟩
  · intro x l hl
    rw [hnextCtx]
    by_cases hx : x = s.nextCtx
    · rw [hx]
      exact Nat.lt_succ_self _
    · rw [hother x hx] at hl
      exact Nat.lt_succ_of_lt (h.ctx_lt x l hl)
  · intro x l hl
    rw [hnextConn]
    by_cases hx : x = s.nextCtx
    · rw [hx, hself] at hl
      cases hl
      exact ⟨hsocket, howner⟩
    · rw [hother x hx] at hl
      exact h.owned x l hl
  · rw [hconns, hnextConn]
    exact h.conn_lt
  · intro id c hc
    rw [hconns] at hc
    have hold := h.listed id c hc
    have hback : ∀ x ∈ c.sendContexts, t.label x = s.label x := by
      intro x hx
      obtain ⟨l, hl, -⟩ := hold.own x hx
      rw [hsome x l hl, hl]
    refine ⟨?_, ?_, hold.pending, hold.nodup⟩
    · intro x hx
      rw [hback x hx]
      exact hold.own x hx
    · intro x hx y hy
      rw [hback x hx, hback y hy]
      exact hold.distinct x hx y hy
  · intro x hx
    obtain ⟨l, hl, hlisted, hvalid⟩ := h.accounted x hx
    refine ⟨l, hsome x l hl, by rw [hconns]; exact hlisted, ?_⟩
    unfold isLive
    rw [hconns]
    exact hvalid

/-- **A new context**, whose number no listed context has. -/
theorem Sound.newContext {s : NetState} {held : List CtxId} {id : ConnId}
    {c c' : ConnectionProfile} {k : SendContext} (h : s.Sound held)
    (hc : s.mgr.conns id = some c) (howner : k.owner = id) (hsocket : k.socket = id)
    (hvalid : k.isTcpConnValid = true)
    (hcontexts : c'.sendContexts = c.sendContexts ++ [s.nextCtx])
    (hpending : c'.pendingSendCtx = c.pendingSendCtx)
    (hnumber : ∀ y ∈ c.sendContexts, ∀ l, s.label y = some l → l.seq ≠ k.seq) :
    ((s.setConn id c').allocCtx (some k)).Sound (held ++ [s.nextCtx]) := by
  have h₁ : (s.allocCtx (some k)).Sound held := by
    apply h.allocCtx
    · rw [howner]
      exact h.conn_lt id c hc
    · rw [hsocket, howner]
  have hold := h₁.listed id c hc
  have hlabel : (s.allocCtx (some k)).label s.nextCtx = some { k with buffer := .empty } :=
    label_of_ctxs (Function.update_self _ _ _)
  have hlisted : ∀ x ∈ c.sendContexts, x ≠ s.nextCtx ∧
      ∀ l, (s.allocCtx (some k)).label x = some l → l.seq ≠ k.seq := by
    intro x hx
    obtain ⟨l, hl, -⟩ := (h.listed id c hc).own x hx
    have hne : x ≠ s.nextCtx := Nat.ne_of_lt (h.ctx_lt x l hl)
    refine ⟨hne, ?_⟩
    intro l' hl'
    apply hnumber x hx l'
    rw [← hl']
    unfold label
    show _ = (Function.update s.ctxs s.nextCtx (some k) x).map _
    rw [Function.update_of_ne hne]
  have hnotheld : s.nextCtx ∉ held := by
    intro hx
    obtain ⟨l, hl, -⟩ := h.accounted _ hx
    exact Nat.lt_irrefl _ (h.ctx_lt _ l hl)
  show ((s.allocCtx (some k)).setConn id c').Sound _
  apply h₁.update hc
  · refine List.nodup_append.2 ⟨h.nodup, List.nodup_singleton _, ?_⟩
    intro x hx y hy
    rw [List.mem_singleton.1 hy]
    rintro rfl
    exact hnotheld hx
  · refine ⟨?_, ?_, ?_, by rw [hpending]; exact hold.nodup⟩
    · intro x hx
      rw [hcontexts] at hx
      rcases List.mem_append.1 hx with hx | hx
      · exact hold.own x hx
      · rw [List.mem_singleton.1 hx]
        exact ⟨_, hlabel, howner⟩
    · intro x hx y hy l m hl hm hseq
      rw [hcontexts] at hx hy
      rcases List.mem_append.1 hx with hx | hx
      · rcases List.mem_append.1 hy with hy | hy
        · exact hold.distinct x hx y hy l m hl hm hseq
        · rw [List.mem_singleton.1 hy, hlabel] at hm
          cases hm
          exact absurd hseq ((hlisted x hx).2 l hl)
      · rcases List.mem_append.1 hy with hy | hy
        · rw [List.mem_singleton.1 hx, hlabel] at hl
          cases hl
          exact absurd hseq.symm ((hlisted y hy).2 m hm)
        · rw [List.mem_singleton.1 hx, List.mem_singleton.1 hy]
    · intro x hx
      rw [hpending] at hx
      obtain ⟨hxc, hfree⟩ := hold.pending x hx
      rw [hcontexts]
      refine ⟨List.mem_append_left _ hxc, ?_⟩
      intro hx'
      rcases List.mem_append.1 hx' with hx' | hx'
      · exact hfree hx'
      · exact (hlisted x hxc).1 (List.mem_singleton.1 hx')
  · intro x hx
    rw [hcontexts]
    rcases List.mem_append.1 hx with hx | hx
    · exact Or.inl ⟨hx, fun hxc => List.mem_append_left _ hxc⟩
    · refine Or.inr ⟨List.mem_append_right _ hx, ?_⟩
      rw [List.mem_singleton.1 hx, hlabel]
      intro l hl
      cases hl
      exact hvalid

/-! ## What sending and deleting leave alone -/

/-- Every context of `s` has the same maker in `t`. -/
def KeepsOwners (s t : NetState) : Prop :=
  ∀ x k, s.ctxs x = some k → ∃ l, t.ctxs x = some l ∧ l.owner = k.owner

/-- Contexts keep their makers, nothing appears, and what changes of a
connection is its timeout and its two lists of contexts. -/
structure Frame (s t : NetState) : Prop where
  nextConn : t.nextConn = s.nextConn
  nextCtx : t.nextCtx = s.nextCtx
  owners : KeepsOwners s t
  conns : ∀ id d, t.mgr.conns id = some d → ∃ c timeoutTs sendContexts pendingSendCtx,
    s.mgr.conns id = some c ∧ d = { c with timeoutTs, sendContexts, pendingSendCtx }

theorem KeepsOwners.refl (s : NetState) : KeepsOwners s s := fun _ k hk => ⟨k, hk, rfl⟩

theorem KeepsOwners.trans {s t u : NetState} (h : KeepsOwners s t) (h' : KeepsOwners t u) :
    KeepsOwners s u := by
  intro x k hk
  obtain ⟨l, hl, hlk⟩ := h x k hk
  obtain ⟨m, hm, hml⟩ := h' x l hl
  exact ⟨m, hm, hml.trans hlk⟩

/-- A change of one context that is still the same connection's. -/
theorem KeepsOwners.of_update {s t : NetState} {x : CtxId} {k l : SendContext}
    (hk : s.ctxs x = some k) (hl : l.owner = k.owner)
    (h : t.ctxs = Function.update s.ctxs x (some l)) : KeepsOwners s t := by
  intro y m hm
  rw [h]
  by_cases hy : y = x
  · subst hy
    rw [hk] at hm
    cases hm
    exact ⟨l, Function.update_self _ _ _, hl⟩
  · exact ⟨m, by rw [Function.update_of_ne hy]; exact hm, rfl⟩

theorem KeepsOwners.allocCtx {s : NetState} {held : List CtxId} (h : s.Sound held)
    (k : SendContext) : KeepsOwners s (s.allocCtx (some k)) := by
  intro x l hl
  refine ⟨l, ?_, rfl⟩
  show Function.update s.ctxs s.nextCtx (some k) x = some l
  rw [Function.update_of_ne (Nat.ne_of_lt (h.ctx_lt x _ (label_of_ctxs hl)))]
  exact hl

namespace Frame

theorem refl (s : NetState) : Frame s s :=
  ⟨rfl, rfl, KeepsOwners.refl s, fun _ d hd =>
    ⟨d, d.timeoutTs, d.sendContexts, d.pendingSendCtx, hd, rfl⟩⟩

theorem trans {s t u : NetState} (h : Frame s t) (h' : Frame t u) : Frame s u := by
  refine ⟨h'.nextConn.trans h.nextConn, h'.nextCtx.trans h.nextCtx, h.owners.trans h'.owners, ?_⟩
  intro id d hd
  obtain ⟨c', timeoutTs, sendContexts, pendingSendCtx, hc', rfl⟩ := h'.conns id d hd
  obtain ⟨c, _, _, _, hc, rfl⟩ := h.conns id c' hc'
  exact ⟨c, timeoutTs, sendContexts, pendingSendCtx, hc, rfl⟩

/-- A change of the three fields. -/
theorem setConn {s : NetState} {id : ConnId} {c : ConnectionProfile}
    (hc : s.mgr.conns id = some c) (timeoutTs : Nat) (sendContexts pendingSendCtx : List CtxId) :
    Frame s (s.setConn id { c with timeoutTs, sendContexts, pendingSendCtx }) := by
  refine ⟨rfl, rfl, KeepsOwners.refl s, ?_⟩
  intro id' d hd
  rw [setConn_conns] at hd
  by_cases hid : id' = id
  · rw [hid, Function.update_self] at hd
    cases hd
    rw [hid]
    exact ⟨c, timeoutTs, sendContexts, pendingSendCtx, hc, rfl⟩
  · rw [Function.update_of_ne hid] at hd
    exact ⟨d, d.timeoutTs, d.sendContexts, d.pendingSendCtx, hd, rfl⟩

theorem trySend {s t : NetState} {x : CtxId} {w : WriteOutcome} {done : Bool}
    (h : s.trySend x w = some (t, done)) : Frame s t := by
  cases hk : s.ctxs x with
  | none => simp [NetState.trySend, hk] at h
  | some k =>
      obtain ⟨-, -, rfl⟩ := trySend_eq hk h
      refine ⟨rfl, rfl, ?_, (refl s).conns⟩
      exact KeepsOwners.of_update (l := { k with buffer := (send k.buffer w).1 }) hk rfl rfl

theorem onSendDone (x : CtxId) (s : NetState) : Frame s (s.onSendDone x) := by
  unfold NetState.onSendDone
  split
  · exact refl s
  · split
    · exact refl s
    · rename_i c hc
      exact setConn hc _ _ c.pendingSendCtx

theorem markAsPendingPacket (x : CtxId) (s : NetState) : Frame s (s.markAsPendingPacket x) := by
  unfold NetState.markAsPendingPacket
  split
  · exact refl s
  · split
    · exact refl s
    · rename_i c hc
      exact setConn hc c.timeoutTs c.sendContexts _

theorem popPending (id : ConnId) (s : NetState) : Frame s (s.popPending id) := by
  unfold NetState.popPending
  split
  · exact refl s
  · rename_i c hc
    exact setConn hc c.timeoutTs c.sendContexts _

theorem trySendAndMarkPendingIfUndone {s t : NetState} {x : CtxId} {w : WriteOutcome}
    {done : Bool} (h : s.trySendAndMarkPendingIfUndone x w = some (t, done)) : Frame s t := by
  cases trySendAndMarkPendingIfUndone_cases h with
  | done k s₁ _ _ htry => exact (trySend htry).trans (onSendDone x s₁)
  | undone k s₁ _ _ htry => exact (trySend htry).trans (markAsPendingPacket x s₁)
  | skipped => exact refl s

theorem trySendPendingPackets {s t : NetState} {id : ConnId} {ws : List WriteOutcome}
    (h : s.trySendPendingPackets id ws = some t) : Frame s t := by
  induction ws generalizing s with
  | nil =>
      rw [trySendPendingPackets_nil h]
      exact refl s
  | cons w ws ih =>
      obtain ⟨c, x, rest, -, -, ⟨s₁, htry, hnext⟩ | ⟨htry, -⟩⟩ := trySendPendingPackets_cons h
      · exact (trySend htry).trans
          ((onSendDone x s₁).trans ((popPending id _).trans (ih hnext)))
      · exact trySend htry

theorem destroy (slot uid : Nat) (id : ConnId) (c : ConnectionProfile) (s : NetState) :
    Frame s (s.destroy slot uid id c) := by
  refine ⟨rfl, rfl, ?_, ?_⟩
  · intro x k hk
    show ∃ l, invalidate c.sendContexts s.ctxs x = some l ∧ _
    unfold invalidate
    rw [hk]
    split
    · exact ⟨_, rfl, rfl⟩
    · exact ⟨k, rfl, rfl⟩
  · intro id' d hd
    exact (refl s).conns id' d (ConnectionManager.conns_of_release hd).2

theorem delConnection {s t : NetState} {uid : Nat} (h : s.delConnection uid = some t) :
    Frame s t := by
  obtain ⟨id, c, -, -, rfl⟩ := delConnection_cases h
  exact destroy uid uid id c s

theorem clearSlot (s : NetState) (slot : Nat) : Frame s (s.clearSlot slot) := by
  unfold NetState.clearSlot
  split
  · exact destroy slot _ _ _ s
  · exact refl s

theorem clearTimeout (s : NetState) : Frame s s.clearTimeout :=
  clearTimeout_keeps (P := Frame s) (fun t slot ht => ht.trans (clearSlot t slot)) (refl s)

end Frame

end Unixtar.NetState
