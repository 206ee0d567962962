import Contentv1.Core.Equiv.UrlFreqMapRuns

/-!
# What `checkSortedAndDestroyQueue` sees

The loop compares every visit with the first one, and not with the one before it.

* `checkSorted_iff`: it returns true exactly if no visit is earlier than the first.
* `checkSorted_iff_sorted_iff`: that is the order of the queue unless the first visit is the
  earliest and the visits behind it are out of order.
* `checkSorted_merge`: a merge of two queues passes if both did, sorted or not.
-/

namespace Contentv1.UrlFreqMap

variable {ufm a : UrlFreqMap}

/-! ### The loop -/

/-- The loop goes on to the first visit that is earlier than `prev`, and takes that one off too. -/
theorem checkSortedLoop_eq (prev : UrlTpStat) (q : List UrlTpStat) :
    checkSortedLoop prev q
      = (q.all fun uts => prev.tp ≤ uts.tp, (q.dropWhile fun uts => prev.tp ≤ uts.tp).tail) := by
  induction q with
  | nil => rfl
  | cons cur q ih =>
    rw [checkSortedLoop]
    split_ifs with hlt
    · have hle : ¬ prev.tp ≤ cur.tp := not_le.mpr hlt
      rw [List.all_cons, List.dropWhile_cons_of_neg (by simpa using hle), decide_eq_false hle]
      rfl
    · have hle : prev.tp ≤ cur.tp := not_lt.mp hlt
      rw [ih, List.all_cons, List.dropWhile_cons_of_pos (by simpa using hle), decide_eq_true hle]
      rfl

/-- **What the check returns.** -/
theorem checkSorted_iff :
    ufm.checkSortedAndDestroyQueue.1 = true ↔ FirstIsEarliest ufm.utsQ := by
  unfold checkSortedAndDestroyQueue
  cases ufm.utsQ with
  | nil => exact iff_of_true rfl nofun
  | cons prev q =>
    dsimp only
    rw [checkSortedLoop_eq, firstIsEarliest_cons, List.all_eq_true]
    simp only [decide_eq_true_eq]

/-- The check takes visits off the front of the queue, all of them if it returns true, and leaves
the frequencies alone. -/
theorem checkSorted_snd :
    ufm.checkSortedAndDestroyQueue.2.urlFreq = ufm.urlFreq ∧
      ufm.checkSortedAndDestroyQueue.2.utsQ <:+ ufm.utsQ ∧
      (ufm.checkSortedAndDestroyQueue.1 = true → ufm.checkSortedAndDestroyQueue.2.utsQ = []) := by
  unfold checkSortedAndDestroyQueue
  obtain ⟨urlFreq, utsQ, window⟩ := ufm
  cases utsQ with
  | nil => exact ⟨rfl, List.suffix_refl [], fun _ => rfl⟩
  | cons prev q =>
    dsimp only
    rw [checkSortedLoop_eq]
    refine ⟨rfl, ?_, fun hall => ?_⟩
    · have hdrop : (q.dropWhile fun uts => decide (prev.tp ≤ uts.tp)) <:+ q :=
        List.dropWhile_suffix _
      exact ((List.tail_suffix _).trans hdrop).trans (List.suffix_cons prev q)
    · have hnil := List.dropWhile_eq_nil_iff.mpr (List.all_eq_true.mp hall)
      dsimp only
      rw [hnil]
      rfl

/-! ### The order of the queue -/

/-- **When the check decides the order.**  It returns true exactly for the queues in the order of
their times, if and only if the visits behind the first are in order wherever none of them is
earlier than it. -/
theorem checkSorted_iff_sorted_iff (ufm : UrlFreqMap) :
    (ufm.checkSortedAndDestroyQueue.1 = true ↔ SortedByTp ufm.utsQ) ↔
      (FirstIsEarliest ufm.utsQ → SortedByTp ufm.utsQ.tail) := by
  rw [checkSorted_iff, sortedByTp_iff]
  constructor
  · intro h hfirst
    exact (h.mp hfirst).2
  · intro h
    exact ⟨fun hfirst => ⟨hfirst, h hfirst⟩, And.left⟩

/-- Visits that came in at 0, 2 and 1 seconds. -/
def outOfOrder : UrlFreqMap :=
  (((ofWindow 3600).insert ⟨Str.ofString "http://a/", 0⟩ (seconds 2)).insert
    ⟨Str.ofString "http://a/", seconds 2⟩ (seconds 2)).insert
      ⟨Str.ofString "http://a/", seconds 1⟩ (seconds 2)

/-- The disorder is behind the first visit. -/
theorem not_checkSorted_iff_sorted_outOfOrder :
    Reachable outOfOrder ∧
      ¬ (outOfOrder.checkSortedAndDestroyQueue.1 = true ↔ SortedByTp outOfOrder.utsQ) :=
  ⟨.insert (.insert (.insert (.ofWindow 3600) _ _) _ _) _ _, by decide +kernel⟩

/-! ### Merged queues -/

/-- **The check on a merge** passes where it passes on both maps, whether or not their queues are in
order. -/
theorem checkSorted_merge (h : ufm.checkSortedAndDestroyQueue.1 = true)
    (ha : a.checkSortedAndDestroyQueue.1 = true) :
    (ufm.merge a).checkSortedAndDestroyQueue.1 = true := by
  rw [checkSorted_iff] at h ha ⊢
  exact h.mergeQueues ha

end Contentv1.UrlFreqMap
