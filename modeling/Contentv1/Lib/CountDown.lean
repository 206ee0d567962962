import Contentv1.Lib.OrdMap
import Mathlib.Algebra.BigOperators.Ring.Finset
import Mathlib.Algebra.Order.BigOperators.Group.Finset

/-!
# Counters that stop at zero

A counter for each key of a map, and one counter for all of them: both are counted down by the same
events, and both stop at zero.

* `sum_toList_eq_sum`: the counters of a map summed over any set with all its keys.
* `sum_max_zero_eq_iff`: cutting off at zero before or after summing is the same exactly when
  nothing is cut off, or everything.
* `max_zero_sub_one`: counting down one by one is counting down at once.
-/

namespace CountDown

variable {α β : Type*} [LinearOrder α]

/-- The sum over the entries of a map is one over a set with all its keys. -/
theorem sum_toList_eq_sum (m : OrdMap α β) (f : β → ℤ) {K : Finset α}
    (hK : ∀ k : α, m[k]? ≠ none → k ∈ K) :
    (m.toList.map fun p => f p.2).sum = ∑ k ∈ K, m[k]?.elim 0 f := by
  have hvalue : (m.toList.map fun p => f p.2)
      = (m.toList.map Prod.fst).map fun k => m[k]?.elim 0 f := by
    rw [List.map_map]
    apply List.map_congr_left
    rintro ⟨k, v⟩ hkv
    have hget := Std.ExtTreeMap.mem_toList_iff_getElem?_eq_some.mp hkv
    show f v = m[k]?.elim 0 f
    rw [hget, Option.elim_some]
  rw [hvalue, ← List.sum_toFinset _ m.nodup_map_fst_toList]
  apply Finset.sum_subset
  · intro k hk
    obtain ⟨⟨k', v⟩, hkv, rfl⟩ := List.mem_map.mp (List.mem_toFinset.mp hk)
    have hget := Std.ExtTreeMap.mem_toList_iff_getElem?_eq_some.mp hkv
    exact hK k' (by rw [hget]; exact nofun)
  · intro k _ hk
    cases hget : m[k]? with
    | none => rfl
    | some v =>
      have hmem := Std.ExtTreeMap.mem_toList_iff_getElem?_eq_some.mpr hget
      exact absurd (List.mem_toFinset.mpr (List.mem_map.mpr ⟨_, hmem, rfl⟩)) hk

/-- How often each key of a set occurs in a list of its elements. -/
theorem sum_count_eq_length {K : Finset α} {l : List α} (hl : ∀ a ∈ l, a ∈ K) :
    ∑ k ∈ K, (l.count k : ℤ) = l.length := by
  have hcard := Multiset.sum_count_eq_card (m := (l : Multiset α)) (s := K) hl
  simp only [Multiset.coe_count, Multiset.coe_card] at hcard
  rw [← hcard, Nat.cast_sum]

/-- **Cutting off at zero** before summing and after it. -/
theorem sum_max_zero_eq_iff {ι : Type*} (K : Finset ι) (f : ι → ℤ) :
    ∑ k ∈ K, max 0 (f k) = max 0 (∑ k ∈ K, f k) ↔
      (∀ k ∈ K, 0 ≤ f k) ∨ ∀ k ∈ K, f k ≤ 0 := by
  -- what is above zero and what is below it
  have hsum : ∑ k ∈ K, f k = ∑ k ∈ K, max 0 (f k) - ∑ k ∈ K, max 0 (-f k) := by
    rw [← Finset.sum_sub_distrib]
    apply Finset.sum_congr rfl
    intro k _
    omega
  have habove : ∑ k ∈ K, max 0 (f k) = 0 ↔ ∀ k ∈ K, f k ≤ 0 := by
    rw [Finset.sum_eq_zero_iff_of_nonneg fun k _ => le_max_left 0 (f k)]
    exact forall₂_congr fun k _ => by omega
  have hbelow : ∑ k ∈ K, max 0 (-f k) = 0 ↔ ∀ k ∈ K, 0 ≤ f k := by
    rw [Finset.sum_eq_zero_iff_of_nonneg fun k _ => le_max_left 0 (-f k)]
    exact forall₂_congr fun k _ => by omega
  have hnonneg := Finset.sum_nonneg fun k (_ : k ∈ K) => le_max_left 0 (f k)
  have hnonneg' := Finset.sum_nonneg fun k (_ : k ∈ K) => le_max_left 0 (-f k)
  rw [← habove, ← hbelow, hsum]
  omega

/-- One more event after `n`. -/
theorem max_zero_sub_one {a n : ℤ} :
    (if max 0 (a - n) ≤ 0 then max 0 (a - n) else max 0 (a - n) - 1) = max 0 (a - (n + 1)) := by
  split_ifs <;> omega

end CountDown
