import Mathlib.Data.List.Basic

/-!
# Feeding a resumable parser chunk by chunk

A resumable parser is a function `parse : List α → π → π` that looks at the
whole buffer received so far and updates its own state `π`.  `feed` appends
chunks to the buffer one at a time and calls `parse` after each.

What a cut in the input can change is kept in an accumulator: if the state
after any prefix `b` is a function `F b x` of that prefix and of an
accumulator `x`, and one more chunk only updates the accumulator, then the
state after all chunks is `F` of the whole input and of the accumulated
value.  Feeding the whole input at once is the case of one chunk, so two
ways to cut one input differ exactly as far as their accumulators do.
-/

namespace Unixtar.Lib

universe u v w

variable {α : Type u} {π : Type v} {τ : Type w}

/-- Append the chunks to the buffer `b` one by one, parsing after each. -/
def feed (parse : List α → π → π) : List α → π → List (List α) → π
  | _, p, [] => p
  | b, p, c :: cs => feed parse (b ++ c) (parse (b ++ c) p) cs

/-- The accumulator after the chunks: `upd b c x` is what the chunk `c`,
arriving behind the prefix `b`, makes of the value `x`. -/
def accumulate (upd : List α → List α → τ → τ) : List α → τ → List (List α) → τ
  | _, x, [] => x
  | b, x, c :: cs => accumulate upd (b ++ c) (upd b c x) cs

/-- No chunk but the last leaves the parser in a state of `Stop`. -/
def Unstopped (parse : List α → π → π) (Stop : π → Prop) :
    List α → π → List (List α) → Prop
  | _, _, [] => True
  | b, p, c :: cs => ¬ Stop p ∧ Unstopped parse Stop (b ++ c) (parse (b ++ c) p) cs

instance Unstopped.decidable (parse : List α → π → π) (Stop : π → Prop)
    [DecidablePred Stop] : ∀ b p cs, Decidable (Unstopped parse Stop b p cs)
  | _, _, [] => isTrue trivial
  | b, p, c :: cs =>
      have := Unstopped.decidable parse Stop (b ++ c) (parse (b ++ c) p) cs
      inferInstanceAs (Decidable (_ ∧ _))

/-- One more chunk at the end is one more call. -/
theorem feed_concat (parse : List α → π → π) (b : List α) (p : π) (cs : List (List α))
    (c : List α) :
    feed parse b p (cs ++ [c]) = parse (b ++ cs.flatten ++ c) (feed parse b p cs) := by
  induction cs generalizing b p with
  | nil => simp [feed]
  | cons d cs ih =>
      simp only [List.cons_append, feed, ih, List.flatten_cons, List.append_assoc]

/-- One more chunk at the end is one more update. -/
theorem accumulate_concat (upd : List α → List α → τ → τ) (b : List α) (x : τ)
    (cs : List (List α)) (c : List α) :
    accumulate upd b x (cs ++ [c]) = upd (b ++ cs.flatten) c (accumulate upd b x cs) := by
  induction cs generalizing b x with
  | nil => simp [accumulate]
  | cons d cs ih =>
      simp only [List.cons_append, accumulate, ih, List.flatten_cons, List.append_assoc]

theorem unstopped_concat {parse : List α → π → π} {Stop : π → Prop} {b : List α} {p : π}
    {cs : List (List α)} (c : List α) (h : Unstopped parse Stop b p cs)
    (hstop : ¬ Stop (feed parse b p cs)) : Unstopped parse Stop b p (cs ++ [c]) := by
  induction cs generalizing b p with
  | nil => exact ⟨hstop, trivial⟩
  | cons d cs ih =>
      obtain ⟨hhead, htail⟩ := h
      exact ⟨hhead, ih htail hstop⟩

/-- The parser goes on behind every proper initial part of the chunks. -/
theorem Unstopped.not_stop {parse : List α → π → π} {Stop : π → Prop} {b : List α} {p : π}
    {cs pre : List (List α)} (h : Unstopped parse Stop b p cs) (hpre : pre <+: cs)
    (hproper : pre ≠ cs) : ¬ Stop (feed parse b p pre) := by
  induction pre generalizing b p cs with
  | nil =>
      cases cs with
      | nil => exact absurd rfl hproper
      | cons c cs => exact h.1
  | cons c pre ih =>
      obtain ⟨post, rfl⟩ := hpre
      exact ih h.2 (List.prefix_append _ _) fun heq => hproper (congrArg (c :: ·) heq)

/-- **Simulation by an accumulator.**  `Good` is what holds of the prefix
and the accumulator along the way. -/
theorem feed_eq_of_simulation {parse : List α → π → π} {Stop : π → Prop}
    (F : List α → τ → π) (upd : List α → List α → τ → τ)
    (Good : List α → τ → Prop)
    (hsim : ∀ b c x, c ≠ [] → ¬ Stop (F b x) → Good b x →
      parse (b ++ c) (F b x) = F (b ++ c) (upd b c x) ∧
        Good (b ++ c) (upd b c x))
    {b : List α} {x : τ} {cs : List (List α)} (hgood : Good b x)
    (hne : ∀ c ∈ cs, c ≠ [])
    (hrun : Unstopped parse Stop b (F b x) cs) :
    feed parse b (F b x) cs = F (b ++ cs.flatten) (accumulate upd b x cs) ∧
      Good (b ++ cs.flatten) (accumulate upd b x cs) := by
  induction cs generalizing b x with
  | nil => simpa [feed, accumulate] using hgood
  | cons c cs ih =>
      obtain ⟨hstop, hrest⟩ := hrun
      obtain ⟨hparse, hgood'⟩ := hsim b c x (hne c (by simp)) hstop hgood
      rw [hparse] at hrest
      have hnext := ih hgood' (fun d hd => hne d (by simp [hd])) hrest
      simp only [feed, accumulate, List.flatten_cons, ← List.append_assoc]
      rw [hparse]
      exact hnext

/-- **All cuts of one input.**  `Holds` is what the parser has made of a prefix
of `s`; if it stops on no proper prefix, the cut does not matter. -/
theorem feed_of_prefixes {parse : List α → π → π} {Stop : π → Prop}
    {Holds : List α → π → Prop} {s : List α}
    (hparse : ∀ b c p, c ≠ [] → b ++ c <+: s → Holds b p → Holds (b ++ c) (parse (b ++ c) p))
    (hstop : ∀ b p, b <+: s → b ≠ s → Holds b p → ¬ Stop p)
    {b : List α} {p : π} {cs : List (List α)} (hholds : Holds b p) (hne : ∀ c ∈ cs, c ≠ [])
    (hs : b ++ cs.flatten = s) :
    Unstopped parse Stop b p cs ∧ Holds s (feed parse b p cs) := by
  induction cs generalizing b p with
  | nil =>
      rw [List.flatten_nil, List.append_nil] at hs
      subst hs
      exact ⟨trivial, hholds⟩
  | cons c cs ih =>
      have hc : c ≠ [] := hne c List.mem_cons_self
      rw [List.flatten_cons, ← List.append_assoc] at hs
      have hprefix : b ++ c <+: s := hs ▸ List.prefix_append _ _
      have hproper : b ≠ s := by
        rintro rfl
        have hlen := congrArg List.length hs
        have hpos := List.length_pos_of_ne_nil hc
        simp only [List.length_append] at hlen
        omega
      obtain ⟨hrest, hend⟩ :=
        ih (hparse b c p hc hprefix hholds) (fun d hd => hne d (List.mem_cons_of_mem c hd)) hs
      exact ⟨⟨hstop b p ((List.prefix_append b c).trans hprefix) hproper hholds, hrest⟩, hend⟩

end Unixtar.Lib
