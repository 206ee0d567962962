import Mathlib.Data.List.TakeWhile
import Mathlib.Order.Defs.LinearOrder
import Mathlib.Tactic.TypeStar
import Mathlib.Algebra.Order.Group.Int

/-!
# Sliding windows kept in a queue

A window keeps a queue of events and drops expired ones from its front only (`clean`).
`Tracks expired now hist q` says that `q` is what is left of all events `hist` so far: a suffix of
them, everything before it having expired by `now`.  It survives pushing and cleaning under a
clock that does not go back (`Tracks.push`, `Tracks.clean`), it bounds the unexpired events from
above by the queue (`Tracks.length_le`), and a cleaned queue of events that expire in their order
holds exactly the unexpired ones (`Tracks.eq_filter`).

The last section is the rate limiter built on a window: an event is admitted only when a check
finds fewer than `limit` events in the queue.  `countIn_push_le` is its invariant step.
-/

namespace SlidingWindow

variable {τ ε : Type*} (expired : τ → ε → Bool)

/-- Drop the expired events at the front of the queue. -/
def clean (now : τ) (q : List ε) : List ε := q.dropWhile (expired now)

/-- `q` is what a window still holds of the events `hist`. -/
def Tracks (now : τ) (hist q : List ε) : Prop :=
  ∃ old, hist = old ++ q ∧ ∀ e ∈ old, expired now e = true

variable {expired} {now now' : τ} {hist q : List ε} {e : ε}

theorem clean_suffix : clean expired now q <:+ q := List.dropWhile_suffix _

/-- A longer window, whose events expire later, keeps all that a shorter one keeps. -/
theorem clean_suffix_clean {expired' : τ → ε → Bool} {q' : List ε}
    (hexp : ∀ e, expired now e = true → expired' now e = true) (h : q <:+ q') :
    clean expired' now q <:+ clean expired now q' := by
  obtain ⟨old, rfl⟩ := h
  unfold clean
  induction old with
  | nil =>
    rw [List.nil_append]
    induction q with
    | nil => exact List.suffix_refl _
    | cons e q ih =>
      cases he : expired now e with
      | true =>
        rw [List.dropWhile_cons_of_pos he, List.dropWhile_cons_of_pos (hexp e he)]
        exact ih
      | false =>
        have hkeep : (e :: q).dropWhile (expired now) = e :: q :=
          List.dropWhile_cons_of_neg (by simp [he])
        rw [hkeep]
        exact List.dropWhile_suffix _
  | cons e old ih =>
    rw [List.cons_append]
    cases he : expired now e with
    | true =>
      rw [List.dropWhile_cons_of_pos he]
      exact ih
    | false =>
      rw [List.dropWhile_cons_of_neg (by simp [he])]
      exact (List.dropWhile_suffix _).trans (List.suffix_append (e :: old) q)

theorem Tracks.nil : Tracks expired now [] [] := ⟨[], rfl, by simp⟩

theorem Tracks.push (h : Tracks expired now hist q) :
    Tracks expired now (hist ++ [e]) (q ++ [e]) := by
  obtain ⟨old, rfl, hold⟩ := h
  exact ⟨old, by rw [List.append_assoc], hold⟩

/-- Expiry that a later clock reading does not undo. -/
def Persistent [LE τ] (expired : τ → ε → Bool) : Prop :=
  ∀ now now' e, now ≤ now' → expired now e = true → expired now' e = true

theorem Tracks.mono [LE τ] (hexp : Persistent expired) (h : Tracks expired now hist q)
    (hle : now ≤ now') : Tracks expired now' hist q := by
  obtain ⟨old, rfl, hold⟩ := h
  exact ⟨old, rfl, fun e he => hexp now now' e hle (hold e he)⟩

/-- Cleaning at a reading of the clock not before the last one. -/
theorem Tracks.clean [LE τ] (hexp : Persistent expired) (h : Tracks expired now hist q)
    (hle : now ≤ now') : Tracks expired now' hist (clean expired now' q) := by
  obtain ⟨old, rfl, hold⟩ := h.mono hexp hle
  refine ⟨old ++ q.takeWhile (expired now'), ?_, ?_⟩
  · rw [List.append_assoc, SlidingWindow.clean, List.takeWhile_append_dropWhile]
  · intro e he
    rcases List.mem_append.mp he with he | he
    · exact hold e he
    · exact List.mem_takeWhile_imp he

/-- Where all events have expired, none has not. -/
theorem filter_not_eq_nil {old : List ε} (hold : ∀ e ∈ old, expired now e = true) :
    (old.filter fun e => !expired now e) = [] := by
  rw [List.filter_eq_nil_iff]
  intro e he
  simp [hold e he]

/-- A window never forgets an event that has not expired. -/
theorem Tracks.length_le (h : Tracks expired now hist q) :
    (hist.filter fun e => !expired now e).length ≤ q.length := by
  obtain ⟨old, rfl, hold⟩ := h
  rw [List.filter_append, filter_not_eq_nil hold, List.nil_append]
  exact List.length_filter_le _ _

theorem clean_eq_filter (hord : q.Pairwise fun a b => expired now b = true → expired now a = true) :
    clean expired now q = q.filter fun e => !expired now e := by
  induction q with
  | nil => rfl
  | cons a q ih =>
    rw [List.pairwise_cons] at hord
    cases ha : expired now a with
    | true =>
      rw [List.filter_cons_of_neg (by simp [ha]), ← ih hord.2, clean,
        List.dropWhile_cons_of_pos ha]
      rfl
    | false =>
      have hq : ∀ b ∈ q, expired now b = false := by
        intro b hb
        by_contra hne
        rw [Bool.not_eq_false] at hne
        rw [hord.1 b hb hne] at ha
        cases ha
      rw [clean, List.dropWhile_cons_of_neg (by simp [ha])]
      refine (List.filter_eq_self.mpr ?_).symm
      intro b hb
      rcases List.mem_cons.mp hb with rfl | hb
      · simp [ha]
      · simp [hq b hb]

/-- Cleaning drops expired events only. -/
theorem filter_not_clean :
    ((clean expired now q).filter fun e => !expired now e) = q.filter fun e => !expired now e := by
  have hfront : ((q.takeWhile (expired now)).filter fun e => !expired now e) = [] :=
    filter_not_eq_nil fun e he => List.mem_takeWhile_imp he
  have hq : (q.takeWhile (expired now) ++ clean expired now q).filter (fun e => !expired now e)
      = q.filter fun e => !expired now e := by
    rw [clean, List.takeWhile_append_dropWhile]
  rw [← hq, List.filter_append, hfront, List.nil_append]

/-- Cleaning leaves nothing that has expired exactly when no event that has not is before one that
has. -/
theorem filter_clean_eq_nil_iff :
    (clean expired now q).filter (expired now) = [] ↔
      q.Pairwise fun a b => expired now b = true → expired now a = true := by
  constructor
  · intro hnil
    have hrest : ∀ e ∈ clean expired now q, ¬ expired now e = true :=
      List.filter_eq_nil_iff.mp hnil
    rw [← List.takeWhile_append_dropWhile (p := expired now) (l := q)]
    have hfront : ∀ e ∈ q.takeWhile (expired now), expired now e = true :=
      fun e he => List.mem_takeWhile_imp he
    refine List.pairwise_append.mpr ⟨?_, ?_, ?_⟩
    · exact List.pairwise_of_forall_mem_list fun a ha b _ _ => hfront a ha
    · exact List.pairwise_of_forall_mem_list fun a _ b hb hexp => absurd hexp (hrest b hb)
    · exact fun a ha b _ _ => hfront a ha
  · intro hord
    rw [clean_eq_filter hord, List.filter_filter]
    simp

/-- **Exactness.**  If events expire in the order in which they came, a cleaned window holds the
unexpired ones and no others. -/
theorem Tracks.eq_filter (h : Tracks expired now hist q)
    (hord : hist.Pairwise fun a b => expired now b = true → expired now a = true) :
    SlidingWindow.clean expired now q = hist.filter fun e => !expired now e := by
  obtain ⟨old, rfl, hold⟩ := h
  rw [List.pairwise_append] at hord
  rw [List.filter_append, clean_eq_filter hord.2.1, filter_not_eq_nil hold, List.nil_append]

/-! ### A rate limiter on a window

An admission is a pair `(decided, recorded)`: the moment of the decision and the clock reading the
window stores for it. -/

section Limit

variable {expired : ℤ → ℤ → Bool} {width : ℤ} {limit : ℕ}

/-- The admissions decided in the closed interval of length `width` that ends at `T`. -/
def countIn (width : ℤ) (hist : List (ℤ × ℤ)) (T : ℤ) : ℕ :=
  (hist.filter fun p => decide (T - width ≤ p.1 ∧ p.1 ≤ T)).length

theorem countIn_append (width : ℤ) (hist : List (ℤ × ℤ)) (p : ℤ × ℤ) (T : ℤ) :
    countIn width (hist ++ [p]) T
      = countIn width hist T + if T - width ≤ p.1 ∧ p.1 ≤ T then 1 else 0 := by
  unfold countIn
  rw [← List.countP_eq_length_filter, ← List.countP_eq_length_filter, List.countP_append,
    List.countP_singleton]
  simp only [decide_eq_true_eq]

/-- **One more admission.**  A check at `now` that sees fewer than `limit` events lets one more be
decided at `d`, and no interval then holds more than `limit` decisions. -/
theorem countIn_push_le (width : ℤ) (limit : ℕ)
    (hwidth : ∀ now t, now - t ≤ width → expired now t = false)
    {hist : List (ℤ × ℤ)} {q : List ℤ} {now d t : ℤ}
    (hbound : ∀ T, countIn width hist T ≤ limit)
    (htracks : Tracks expired now (hist.map Prod.snd) q) (hlen : q.length < limit)
    (hrec : ∀ p ∈ hist, p.1 ≤ p.2) (hnow : now ≤ d) (T : ℤ) :
    countIn width (hist ++ [(d, t)]) T ≤ limit := by
  by_cases hd : T - width ≤ d ∧ d ≤ T
  · have hone : countIn width (hist ++ [(d, t)]) T = countIn width hist T + 1 := by
      rw [countIn_append, if_pos hd]
    -- what the interval holds besides the new decision has not expired at the check
    have hsub : countIn width hist T
        ≤ ((hist.map Prod.snd).filter fun e => !expired now e).length := by
      rw [countIn, List.filter_map, List.length_map, ← List.countP_eq_length_filter,
        ← List.countP_eq_length_filter]
      apply List.countP_mono_left
      intro p hp hin
      obtain ⟨hlo, -⟩ := of_decide_eq_true hin
      have hage : now - p.2 ≤ width := by
        have := hrec p hp
        omega
      simp [hwidth now p.2 hage]
    have := htracks.length_le
    omega
  · have hzero : countIn width (hist ++ [(d, t)]) T = countIn width hist T := by
      rw [countIn_append, if_neg hd, Nat.add_zero]
    rw [hzero]
    exact hbound T

end Limit

end SlidingWindow
