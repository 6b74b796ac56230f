import Mathlib.Logic.Function.Basic
import Unixtar.Lib.BoundedDeque
import Unixtar.Lib.Run

/-!
# The message queue: `utils/messagequeue.h`

`ThreadSafeDeque` and any number of threads that call it.  A call is atomic
under the mutex, but for its wait: a call that finds too few elements gives
the mutex up, and goes on when another thread has changed that or when its
timeout is over.  `notify_one` decides who goes on first, and every order is
a run here.

Both pushes compare `size() > max_size_`, so a queue that is exactly full
takes one more element.

## Main results

* `exec_deque` — a call that succeeds is a step of a bounded deque, unless it
  is a push into a full queue; one that fails changes nothing.
* `isBoundedDeque_iff` — the queue is a bounded deque in every state of a run
  exactly when no push of the run finds it full.
-/

namespace Unixtar.MessageQueue

open Unixtar.Lib

universe u

/-- `ThreadSafeDeque`. -/
structure ThreadSafeDeque (T : Type u) where
  maxSize : Nat
  container : List T
  terminated : Bool

/-- How a call ends: its result, its output argument if it has one, and the
queue. -/
structure Outcome (T : Type u) where
  ret : Bool
  t : Option T
  queue : ThreadSafeDeque T

variable {T : Type u}

namespace ThreadSafeDeque

def new (maxSize : Nat) : ThreadSafeDeque T := ⟨maxSize, [], false⟩

/-- `push_front`. -/
def pushFront (v : T) (q : ThreadSafeDeque T) : Outcome T :=
  if q.container.length > q.maxSize then ⟨false, none, q⟩
  else ⟨true, none, { q with container := v :: q.container }⟩

/-- `push_back`. -/
def pushBack (v : T) (q : ThreadSafeDeque T) : Outcome T :=
  if q.container.length > q.maxSize then ⟨false, none, q⟩
  else ⟨true, none, { q with container := q.container ++ [v] }⟩

/-- The predicate of `__WaitSizeGreaterThan`. -/
def sizeGreaterThan (than : Nat) (q : ThreadSafeDeque T) : Bool :=
  q.container.length > than || q.terminated

/-- A call that needs more than `than` elements, behind its wait: what the
output argument was and becomes, and what stays in the queue. -/
def whenGreater (than : Nat) (t t' : Option T) (rest : List T) (q : ThreadSafeDeque T) :
    Outcome T :=
  if q.container.length ≤ than || q.terminated then ⟨false, t, q⟩
  else ⟨true, t', { q with container := rest }⟩

/-- `pop_front`. -/
def popFront (q : ThreadSafeDeque T) : Outcome T :=
  q.whenGreater 0 none none q.container.tail

/-- `pop_back`. -/
def popBack (q : ThreadSafeDeque T) : Outcome T :=
  q.whenGreater 0 none none q.container.dropLast

/-- `pop_front_to`. -/
def popFrontTo (t : T) (q : ThreadSafeDeque T) : Outcome T :=
  q.whenGreater 0 (some t) q.container.head? q.container.tail

/-- `pop_back_to`. -/
def popBackTo (t : T) (q : ThreadSafeDeque T) : Outcome T :=
  q.whenGreater 0 (some t) q.container.getLast? q.container.dropLast

/-- `front`. -/
def front (t : T) (q : ThreadSafeDeque T) : Outcome T :=
  q.whenGreater 0 (some t) q.container.head? q.container

/-- `back`. -/
def back (t : T) (q : ThreadSafeDeque T) : Outcome T :=
  q.whenGreater 0 (some t) q.container.getLast? q.container

/-- `get`. -/
def get (t : T) (pos : Nat) (q : ThreadSafeDeque T) : Outcome T :=
  q.whenGreater pos (some t) q.container[pos]? q.container

/-- `clear`. -/
def clear (q : ThreadSafeDeque T) : Outcome T := ⟨true, none, { q with container := [] }⟩

/-- `Terminate`. -/
def terminate (q : ThreadSafeDeque T) : Outcome T := ⟨true, none, { q with terminated := true }⟩

end ThreadSafeDeque

/-! ## Calls -/

/-- `_wait` and `_timeout_millis`. -/
structure Wait where
  wait : Bool
  timeoutMillis : UInt64

inductive Call (T : Type u)
  | pushFront (v : T)
  | pushBack (v : T)
  | popFront (w : Wait)
  | popBack (w : Wait)
  | popFrontTo (t : T) (w : Wait)
  | popBackTo (t : T) (w : Wait)
  | front (t : T) (w : Wait)
  | back (t : T) (w : Wait)
  | get (t : T) (pos : Nat) (w : Wait)
  | clear
  | terminate

namespace Call

/-- A call behind its wait. -/
def exec (c : Call T) (q : ThreadSafeDeque T) : Outcome T :=
  match c with
  | pushFront v => q.pushFront v
  | pushBack v => q.pushBack v
  | popFront _ => q.popFront
  | popBack _ => q.popBack
  | popFrontTo t _ => q.popFrontTo t
  | popBackTo t _ => q.popBackTo t
  | front t _ => q.front t
  | back t _ => q.back t
  | get t pos _ => q.get t pos
  | clear => q.clear
  | terminate => q.terminate

/-- The output argument before the call. -/
def outArg : Call T → Option T
  | popFrontTo t _ | popBackTo t _ | front t _ | back t _ | get t _ _ => some t
  | _ => none

def IsPush : Call T → Prop
  | pushFront _ | pushBack _ => True
  | _ => False

/-- The calls that pop or read, with the number of elements they need more
of. -/
def takes : Call T → Option (Nat × Wait)
  | popFront w | popBack w | popFrontTo _ w | popBackTo _ w | front _ w | back _ w => some (0, w)
  | get _ pos w => some (pos, w)
  | _ => none

/-- The call gives the mutex up and waits. -/
def waits (c : Call T) (q : ThreadSafeDeque T) : Bool :=
  match c.takes with
  | some (than, w) => w.wait && !q.sizeGreaterThan than
  | none => false

/-- A wait that nothing but its predicate ends. -/
def waitsForever (c : Call T) : Bool :=
  match c.takes with
  | some (_, w) => w.timeoutMillis = -1
  | none => false

end Call

/-! ## Threads -/

abbrev ThreadId := Nat

/-- A call that has returned, with the contents before and behind it. -/
structure Finished (T : Type u) where
  call : Call T
  ret : Bool
  t : Option T
  before : List T
  after : List T

/-- The queue, the calls that wait, and the calls that have returned in the
order in which they had the mutex. -/
structure System (T : Type u) where
  queue : ThreadSafeDeque T
  waiting : ThreadId → Option (Call T)
  log : List (Finished T)

inductive Event (T : Type u)
  /-- a thread that is not waiting calls -/
  | call (thread : ThreadId) (c : Call T)
  /-- a wait is over -/
  | wake (thread : ThreadId)

namespace System

def new (maxSize : Nat) : System T := ⟨.new maxSize, fun _ => none, []⟩

/-- The call runs to its end. -/
def finish (c : Call T) (s : System T) : System T :=
  let o := c.exec s.queue
  { s with queue := o.queue
           log := s.log ++ [⟨c, o.ret, o.t, s.queue.container, o.queue.container⟩] }

def step (s : System T) : Event T → Option (System T)
  | .call thread c =>
      match s.waiting thread with
      | some _ => none
      | none =>
          if c.waits s.queue then
            some { s with waiting := Function.update s.waiting thread (some c) }
          else some (s.finish c)
  | .wake thread =>
      match s.waiting thread with
      | none => none
      | some c =>
          if c.waits s.queue && c.waitsForever then none
          else some ({ s with waiting := Function.update s.waiting thread none }.finish c)

end System

/-! ## The bounded deque -/

/-- What a call that has succeeded did to the deque. -/
def Finished.action (f : Finished T) : Option (BoundedDeque.Action T) :=
  if f.ret then
    match f.call with
    | .pushFront v => some (.pushFront v)
    | .pushBack v => some (.pushBack v)
    | .popFront _ => some (.popFront f.before.head?)
    | .popBack _ => some (.popBack f.before.getLast?)
    | .popFrontTo _ _ => some (.popFront f.t)
    | .popBackTo _ _ => some (.popBack f.t)
    | .front _ _ => some (.front f.t)
    | .back _ _ => some (.back f.t)
    | .get _ pos _ => some (.get pos f.t)
    | .clear => some (.clear f.before)
    | .terminate => none
  else none

/-- What the calls that have succeeded did, in the order of the mutex. -/
def System.actions (s : System T) : List (BoundedDeque.Action T) := s.log.filterMap Finished.action

/-- The queue is a deque of this capacity: the contents are what the calls
that have succeeded make of an empty one, every element pushed is there, was
popped once or was cleared, a call that fails changes nothing, and behind
`Terminate` no pop or read succeeds. -/
structure System.IsBoundedDeque (cap : Nat) (s : System T) : Prop where
  replays : ∃ d : BoundedDeque T cap,
    BoundedDeque.Replays .empty s.actions d ∧ d.elems = s.queue.container
  accounted : (s.actions.flatMap (·.pushed)).Perm
    (s.queue.container ++ (s.actions.flatMap (·.popped) ++ s.actions.flatMap (·.lost)))
  failed : ∀ f ∈ s.log, f.ret = false → f.after = f.before ∧ f.t = f.call.outArg
  terminated : s.log.Pairwise fun f g =>
    f.call = .terminate → g.call.takes ≠ none → g.ret = false

/-! ## One call -/

/-- A call that has returned, as the log has it. -/
def Call.finished (c : Call T) (q : ThreadSafeDeque T) : Finished T :=
  ⟨c, (c.exec q).ret, (c.exec q).t, q.container, (c.exec q).queue.container⟩

theorem System.finish_eq (c : Call T) (s : System T) :
    s.finish c = { s with queue := (c.exec s.queue).queue, log := s.log ++ [c.finished s.queue] } :=
  rfl

section Exec

open BoundedDeque

variable {q : ThreadSafeDeque T} {c : Call T} {cap : Nat}

/-- A call that pops or reads and fails does nothing; one that succeeds has
found its element, and the queue is not terminated. -/
theorem whenGreater_cases (than : Nat) (t t' : Option T) (rest : List T)
    (q : ThreadSafeDeque T) :
    (q.whenGreater than t t' rest = ⟨false, t, q⟩) ∨
      than < q.container.length ∧ q.terminated = false ∧
        q.whenGreater than t t' rest = ⟨true, t', { q with container := rest }⟩ := by
  unfold ThreadSafeDeque.whenGreater
  split_ifs with hblocked
  · exact Or.inl rfl
  · simp only [Bool.or_eq_true, decide_eq_true_eq, not_or, Bool.not_eq_true] at hblocked
    exact Or.inr ⟨by omega, hblocked.2, rfl⟩

/-- What a call does, seen from a bounded deque with the same contents. -/
structure Serves (q : ThreadSafeDeque T) (d : BoundedDeque T cap) (c : Call T) : Prop where
  deque : ∃ e : BoundedDeque T cap, e.elems = (c.exec q).queue.container ∧
    match (c.finished q).action with
    | none => e = d
    | some a => Step d a e
  failed : (c.exec q).ret = false → (c.exec q).queue = q ∧ (c.exec q).t = c.outArg
  terminated : c.takes ≠ none → (c.exec q).ret = true → q.terminated = false

theorem serves_of_whenGreater {than : Nat} {t' : Option T} {rest : List T}
    {d : BoundedDeque T cap} (hd : d.elems = q.container)
    (hexec : c.exec q = q.whenGreater than c.outArg t' rest)
    (hstep : than < q.container.length → ∃ (a : Action T) (e : BoundedDeque T cap),
      (⟨c, true, t', q.container, rest⟩ : Finished T).action = some a ∧ e.elems = rest ∧
        Step d a e) :
    Serves q d c := by
  rcases whenGreater_cases than c.outArg t' rest q with hfail | ⟨hlt, hterm, hok⟩
  · rw [hfail] at hexec
    refine ⟨⟨d, ?_, ?_⟩, fun _ => ?_, fun _ h => ?_⟩
    · rw [hexec, hd]
    · simp [Call.finished, Finished.action, hexec]
    · rw [hexec]
      exact ⟨rfl, rfl⟩
    · rw [hexec] at h
      cases h
  · rw [hok] at hexec
    obtain ⟨a, e, haction, he, ha⟩ := hstep hlt
    refine ⟨⟨e, ?_, ?_⟩, fun h => ?_, fun _ _ => hterm⟩
    · rw [hexec, he]
    · rw [Call.finished, hexec, haction]
      exact ha
    · rw [hexec] at h
      cases h

theorem serves_of_push {xs : List T} {a : Action T} {d : BoundedDeque T cap}
    (hexec : c.exec q = ⟨true, none, { q with container := xs }⟩) (hlen : xs.length ≤ cap)
    (haction : (⟨c, true, none, q.container, xs⟩ : Finished T).action = some a)
    (htakes : c.takes = none) (hstep : ∀ e : BoundedDeque T cap, e.elems = xs → Step d a e) :
    Serves q d c := by
  obtain ⟨e, he⟩ := exists_elems hlen
  refine ⟨⟨e, ?_, ?_⟩, fun h => ?_, fun h _ => absurd htakes h⟩
  · rw [hexec, he]
  · rw [Call.finished, hexec, haction]
    exact hstep e he
  · rw [hexec] at h
    cases h

/-- The calls that pop the first element, which they return in one way or the
other. -/
theorem serves_of_popFront {t' : Option T} {d : BoundedDeque T cap} (hd : d.elems = q.container)
    (hexec : c.exec q = q.whenGreater 0 c.outArg t' q.container.tail)
    (haction : (⟨c, true, t', q.container, q.container.tail⟩ : Finished T).action =
      some (.popFront q.container.head?)) :
    Serves q d c := by
  refine serves_of_whenGreater hd hexec fun hlt => ?_
  rw [← hd] at hlt
  obtain ⟨v, e, hv, he, hstep⟩ := exists_popFront hlt
  rw [hd] at hv he
  exact ⟨_, e, haction, he, hv ▸ hstep⟩

/-- The calls that pop the last one. -/
theorem serves_of_popBack {t' : Option T} {d : BoundedDeque T cap} (hd : d.elems = q.container)
    (hexec : c.exec q = q.whenGreater 0 c.outArg t' q.container.dropLast)
    (haction : (⟨c, true, t', q.container, q.container.dropLast⟩ : Finished T).action =
      some (.popBack q.container.getLast?)) :
    Serves q d c := by
  refine serves_of_whenGreater hd hexec fun hlt => ?_
  rw [← hd] at hlt
  obtain ⟨v, e, hv, he, hstep⟩ := exists_popBack hlt
  rw [hd] at hv he
  exact ⟨_, e, haction, he, hv ▸ hstep⟩

/-- **One call**: unless it is a push into a full queue, it does what a
bounded deque does. -/
theorem exec_deque {d : BoundedDeque T cap} (hd : d.elems = q.container) (hcap : q.maxSize = cap)
    (hroom : c.IsPush → q.container.length ≠ cap) : Serves q d c := by
  have hbounded := d.bounded
  rw [hd] at hbounded
  subst hcap
  cases c with
  | pushFront v =>
      have hlt : q.container.length < q.maxSize := Nat.lt_of_le_of_ne hbounded (hroom trivial)
      exact serves_of_push (if_neg (Nat.not_lt_of_lt hlt)) hlt rfl rfl
        fun e he => Step.pushFront (by rw [he, hd])
  | pushBack v =>
      have hlt : q.container.length < q.maxSize := Nat.lt_of_le_of_ne hbounded (hroom trivial)
      exact serves_of_push (if_neg (Nat.not_lt_of_lt hlt)) (by rw [List.length_append]; exact hlt)
        rfl rfl fun e he => Step.pushBack (by rw [he, hd])
  | popFront w => exact serves_of_popFront hd rfl rfl
  | popBack w => exact serves_of_popBack hd rfl rfl
  | popFrontTo t w => exact serves_of_popFront hd rfl rfl
  | popBackTo t w => exact serves_of_popBack hd rfl rfl
  | front t w =>
      refine serves_of_whenGreater hd rfl fun hlt => ?_
      rw [← hd] at hlt ⊢
      obtain ⟨v, -, hv, -, -⟩ := exists_popFront hlt
      exact ⟨_, d, rfl, rfl, hv ▸ Step.front hv⟩
  | back t w =>
      refine serves_of_whenGreater hd rfl fun hlt => ?_
      rw [← hd] at hlt ⊢
      obtain ⟨v, -, hv, -, -⟩ := exists_popBack hlt
      exact ⟨_, d, rfl, rfl, hv ▸ Step.back hv⟩
  | get t pos w =>
      refine serves_of_whenGreater hd rfl fun hlt => ?_
      rw [← hd] at hlt ⊢
      have hv := List.getElem?_eq_getElem hlt
      exact ⟨_, d, rfl, rfl, hv ▸ Step.get hv⟩
  | clear =>
      refine ⟨⟨empty, rfl, ?_⟩, nofun, fun h _ => absurd rfl h⟩
      show Step d (.clear q.container) empty
      rw [← hd]
      exact Step.clear
  | terminate =>
      refine ⟨⟨d, hd, rfl⟩, nofun, fun h _ => absurd rfl h⟩

/-- Both pushes go by the same comparison. -/
theorem length_exec_push (hpush : c.IsPush) (hle : q.container.length ≤ q.maxSize) :
    (c.exec q).queue.container.length = q.container.length + 1 := by
  cases c with
  | pushFront v =>
      rw [Call.exec, ThreadSafeDeque.pushFront, if_neg (Nat.not_lt_of_le hle)]
      rfl
  | pushBack v =>
      rw [Call.exec, ThreadSafeDeque.pushBack, if_neg (Nat.not_lt_of_le hle)]
      exact List.length_append
  | _ => exact hpush.elim

/-- No call changes `max_size_`. -/
theorem exec_maxSize (c : Call T) (q : ThreadSafeDeque T) :
    (c.exec q).queue.maxSize = q.maxSize := by
  have hwhen : ∀ than (t t' : Option T) rest, (q.whenGreater than t t' rest).queue.maxSize =
      q.maxSize := by
    intro than t t' rest
    rcases whenGreater_cases than t t' rest q with h | ⟨-, -, h⟩ <;> rw [h]
  cases c with
  | pushFront v =>
      unfold Call.exec ThreadSafeDeque.pushFront
      split_ifs <;> rfl
  | pushBack v =>
      unfold Call.exec ThreadSafeDeque.pushBack
      split_ifs <;> rfl
  | clear | terminate => rfl
  | _ => exact hwhen ..

/-- `terminated_` is set by `Terminate` and never taken back. -/
theorem exec_terminated (c : Call T) (q : ThreadSafeDeque T) :
    (c.exec q).queue.terminated = false → q.terminated = false ∧ c ≠ .terminate := by
  have hwhen : ∀ than (t t' : Option T) rest, (q.whenGreater than t t' rest).queue.terminated =
      q.terminated := by
    intro than t t' rest
    rcases whenGreater_cases than t t' rest q with h | ⟨-, -, h⟩ <;> rw [h]
  intro h
  refine ⟨?_, ?_⟩
  · cases c with
    | pushFront v =>
        unfold Call.exec ThreadSafeDeque.pushFront at h
        split_ifs at h <;> exact h
    | pushBack v =>
        unfold Call.exec ThreadSafeDeque.pushBack at h
        split_ifs at h <;> exact h
    | clear => exact h
    | terminate => cases h
    | _ => exact (hwhen ..).symm.trans h
  · rintro rfl
    cases h

end Exec

/-! ## Runs -/

namespace System

open BoundedDeque

variable {s s' : System T} {c : Call T} {cap : Nat}

/-- The invariant: the queue is a bounded deque, and the log says whether it
is terminated. -/
structure Invariant (cap : Nat) (s : System T) : Prop extends s.IsBoundedDeque cap where
  maxSize : s.queue.maxSize = cap
  live : s.queue.terminated = false → ∀ f ∈ s.log, f.call ≠ .terminate
  waiting : ∀ thread c, s.waiting thread = some c → c.takes ≠ none

theorem invariant_new (cap : Nat) : (new cap : System T).Invariant cap where
  replays := ⟨empty, .nil, rfl⟩
  accounted := List.Perm.refl _
  failed _ hf := nomatch hf
  terminated := List.Pairwise.nil
  maxSize := rfl
  live _ _ hf := nomatch hf
  waiting _ _ h := nomatch h

/-- Who waits is no part of the deque. -/
theorem Invariant.setWaiting (h : s.Invariant cap) {w : ThreadId → Option (Call T)}
    (hw : ∀ thread c, w thread = some c → c.takes ≠ none) :
    ({ s with waiting := w } : System T).Invariant cap where
  replays := h.replays
  accounted := h.accounted
  failed := h.failed
  terminated := h.terminated
  maxSize := h.maxSize
  live := h.live
  waiting := hw

theorem Invariant.finish (h : s.Invariant cap)
    (hroom : c.IsPush → s.queue.container.length ≠ cap) : (s.finish c).Invariant cap := by
  obtain ⟨d, hreplays, hd⟩ := h.replays
  obtain ⟨⟨e, he, haction⟩, hfailed, hterm⟩ := exec_deque hd h.maxSize hroom
  have hactions : (s.finish c).actions =
      s.actions ++ ((c.finished s.queue).action).toList := by
    unfold actions
    rw [finish_eq, List.filterMap_append, List.filterMap_cons]
    cases (c.finished s.queue).action <;> rfl
  have hrun : Replays .empty (s.finish c).actions e := by
    rw [hactions]
    cases hact : (c.finished s.queue).action with
    | none =>
        rw [hact] at haction
        have hed : e = d := haction
        rw [hed, Option.toList_none, List.append_nil]
        exact hreplays
    | some a =>
        rw [hact] at haction
        exact .snoc hreplays haction
  have hlog : (s.finish c).log = s.log ++ [c.finished s.queue] := rfl
  refine
    { replays := ⟨e, hrun, he⟩
      accounted := ?_
      failed := ?_
      terminated := ?_
      maxSize := (exec_maxSize c s.queue).trans h.maxSize
      live := ?_
      waiting := h.waiting }
  · have hperm := hrun.perm
    rw [he] at hperm
    exact hperm
  · intro f hf hret
    rw [hlog, List.mem_append, List.mem_singleton] at hf
    rcases hf with hf | rfl
    · exact h.failed f hf hret
    · obtain ⟨hqueue, ht⟩ := hfailed hret
      exact ⟨congrArg ThreadSafeDeque.container hqueue, ht⟩
  · rw [hlog, List.pairwise_append]
    refine ⟨h.terminated, List.pairwise_singleton _ _, ?_⟩
    intro f hf g hg hcall htakes
    rw [List.mem_singleton] at hg
    subst hg
    -- a call that succeeds has found the flag clear, and then no `Terminate` is in the log
    by_contra hret
    exact h.live (hterm htakes (Bool.of_not_eq_false hret)) f hf hcall
  · intro hlive f hf
    obtain ⟨hbefore, hcall⟩ := exec_terminated c s.queue hlive
    rw [hlog, List.mem_append, List.mem_singleton] at hf
    rcases hf with hf | rfl
    · exact h.live hbefore f hf
    · exact hcall

/-- No push finds the queue exactly full. -/
def HasRoom (s : System T) : Event T → Prop
  | .call _ c => c.IsPush → s.queue.container.length ≠ s.queue.maxSize
  | .wake _ => True

theorem not_isPush_of_takes (h : c.takes ≠ none) : ¬ c.IsPush := by
  cases c <;> simp_all [Call.takes, Call.IsPush]

/-- A call that has to wait is a pop or a read. -/
theorem takes_of_waits {q : ThreadSafeDeque T} (h : c.waits q = true) : c.takes ≠ none := by
  intro hnone
  rw [Call.waits, hnone] at h
  cases h

theorem Invariant.step {e : Event T} (h : s.Invariant cap) (hroom : s.HasRoom e)
    (hstep : s.step e = some s') : s'.Invariant cap := by
  cases e with
  | call thread c =>
      simp only [System.step] at hstep
      split at hstep
      · cases hstep
      · split_ifs at hstep with hwaits
        · -- the call waits
          cases hstep
          refine h.setWaiting fun other c' hc' => ?_
          by_cases hother : other = thread
          · rw [hother, Function.update_self] at hc'
            cases hc'
            exact takes_of_waits hwaits
          · rw [Function.update_of_ne hother] at hc'
            exact h.waiting other c' hc'
        · cases hstep
          exact h.finish fun hpush => h.maxSize ▸ hroom hpush
  | wake thread =>
      simp only [System.step] at hstep
      split at hstep
      · cases hstep
      · rename_i c hc
        split_ifs at hstep with hwaits
        cases hstep
        refine Invariant.finish (h.setWaiting fun other c' hc' => ?_) fun hpush => ?_
        · by_cases hother : other = thread
          · rw [hother, Function.update_self] at hc'
            cases hc'
          · rw [Function.update_of_ne hother] at hc'
            exact h.waiting other c' hc'
        · exact absurd hpush (not_isPush_of_takes (h.waiting thread c hc))

/-- A queue that is exactly full takes one more element. -/
theorem not_isBoundedDeque_of_full {e : Event T} (h : s.Invariant cap) (hroom : ¬ s.HasRoom e)
    (hstep : s.step e = some s') : ¬ s'.IsBoundedDeque cap := by
  cases e with
  | wake thread => exact absurd trivial hroom
  | call thread c =>
      simp only [HasRoom, Classical.not_imp, not_not] at hroom
      obtain ⟨hpush, hfull⟩ := hroom
      have hwaits : c.waits s.queue = false := by
        by_contra hwaits
        exact not_isPush_of_takes (takes_of_waits (Bool.of_not_eq_false hwaits)) hpush
      have hlen : (c.exec s.queue).queue.container.length = cap + 1 := by
        rw [← h.maxSize, ← hfull]
        exact length_exec_push hpush (Nat.le_of_eq hfull)
      simp only [System.step, hwaits, Bool.false_eq_true, if_false] at hstep
      split at hstep
      · cases hstep
      · cases hstep
        rintro ⟨⟨d, -, hd⟩, -⟩
        have hbounded := d.bounded
        rw [hd, finish_eq, hlen] at hbounded
        omega

/-- **The message queue is a bounded deque** in every state of a run exactly
when no push of the run finds it full. -/
theorem isBoundedDeque_iff (cap : Nat) (es : List (Event T)) :
    (∀ s ∈ trace step (new cap : System T) es, s.IsBoundedDeque cap) ↔
      Along step HasRoom (new cap : System T) es :=
  trace_iff_along (fun _ h => h.toIsBoundedDeque) (fun _ _ _ h hroom hstep => h.step hroom hstep)
    (fun _ _ _ h hroom hstep => not_isBoundedDeque_of_full h hroom hstep) (invariant_new cap)

/-- Two elements pushed into a queue for one. -/
def twoPushes : List (Event Nat) := [.call 0 (.pushBack 7), .call 0 (.pushBack 8)]

/-- A queue for one element holds both. -/
theorem not_isBoundedDeque_twoPushes :
    ¬ ∀ s ∈ trace step (new 1 : System Nat) twoPushes, s.IsBoundedDeque 1 := by
  intro h
  obtain ⟨⟨d, -, hd⟩, -⟩ := h _ (run_mem_trace (t := ⟨⟨1, [7, 8], false⟩, fun _ => none,
    [⟨.pushBack 7, true, none, [], [7]⟩, ⟨.pushBack 8, true, none, [7], [7, 8]⟩]⟩) rfl)
  have hbounded := d.bounded
  rw [hd] at hbounded
  exact absurd hbounded (by decide)

end System

end Unixtar.MessageQueue
