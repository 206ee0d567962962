import Mathlib.Data.List.Perm.Subperm
import Mathlib.Data.List.Count
import Mathlib.Data.List.Sort
import Mathlib.Order.Defs.LinearOrder
import Mathlib.Tactic.TypeStar

/-!
# Sorting and subtracting by a key

`StdSort key` is a sorting function that orders by `key` only and may leave elements of equal key
in any order, as `std::sort` does.  `setDifference key xs ys` is `std::set_difference`: it walks two
ranges sorted by `key` and drops from the first as many elements of each key as the second holds.

`filter_setDifference` is its specification: of `m` elements of a key in `xs` against `n` in `ys`
the last `m - n` remain.  Elements that share a key are not told apart, so subtracting a part `ys`
of `xs` gives the rest of `xs` only where keys do not hide a difference (`Separable`);
`setDifference_append_perm` is the conservation law.
-/

/-- A sort by `key` that promises nothing about the order of equal keys. -/
structure StdSort {α κ : Type*} [LinearOrder κ] (key : α → κ) where
  sort : List α → List α
  perm : ∀ l, (sort l).Perm l
  sorted : ∀ l, (sort l).Pairwise fun a b => key a ≤ key b

/-- Insertion by the key is such a sort. -/
def StdSort.insertion {α κ : Type*} [LinearOrder κ] (key : α → κ) : StdSort key where
  sort := List.insertionSort fun a b => key a ≤ key b
  perm := List.perm_insertionSort _
  sorted l := by
    have htotal : Std.Total fun a b : α => key a ≤ key b := ⟨fun a b => le_total (key a) (key b)⟩
    have htrans : IsTrans α fun a b => key a ≤ key b := ⟨fun a b c => le_trans⟩
    exact List.pairwise_insertionSort _ l

namespace SortedDiff

variable {α κ : Type*} [LinearOrder κ] (key : α → κ)

/-- `std::set_difference` on ranges sorted by `key`. -/
def setDifference : List α → List α → List α
  | [], _ => []
  | x :: xs, ys =>
    -- the loop moves the second iterator while it is behind the first
    match ys.dropWhile fun y => decide (key y < key x) with
    | [] => x :: xs
    | y :: ys' => if key x < key y then x :: setDifference xs (y :: ys') else setDifference xs ys'

/-- No key of `xs` hides a difference that subtracting `ys` would need: its elements are all equal,
or `ys` takes none of them, or it takes them all. -/
def Separable (xs ys : List α) : Prop :=
  ∀ k, (∀ a b, a ∈ xs → b ∈ xs → key a = k → key b = k → a = b) ∨ (∀ b ∈ ys, key b ≠ k) ∨
    xs.countP (fun a => key a = k) = ys.countP fun a => key a = k

variable {key} {xs ys : List α}

theorem setDifference_sublist : ∀ xs ys : List α, (setDifference key xs ys).Sublist xs
  | [], _ => List.Sublist.refl _
  | x :: xs, ys => by
    rw [setDifference]
    split
    · exact List.Sublist.refl _
    · split_ifs
      · exact (setDifference_sublist xs _).cons_cons x
      · exact (setDifference_sublist xs _).cons x

/-- Elements with a key below all of a list's keys are not in it. -/
theorem filter_eq_nil_of_lt {l : List α} {k : κ} (h : ∀ a ∈ l, k < key a) :
    (l.filter fun a => key a = k) = [] := by
  rw [List.filter_eq_nil_iff]
  intro a ha
  simpa using (h a ha).ne'

/-- What `dropWhile` skips has keys below `k`. -/
theorem filter_dropWhile_lt (key : α → κ) {l : List α} {c k : κ} (hk : c ≤ k) :
    ((l.dropWhile fun y => decide (key y < c)).filter fun a => key a = k)
      = l.filter fun a => key a = k := by
  induction l with
  | nil => rfl
  | cons a l ih =>
    by_cases ha : key a < c
    · rw [List.dropWhile_cons_of_pos (by simpa using ha), ih,
        List.filter_cons_of_neg (by simpa using (ha.trans_le hk).ne)]
    · rw [List.dropWhile_cons_of_neg (by simpa using ha)]

/-- **Specification.**  Of the elements of one key the last `m - n` remain. -/
theorem filter_setDifference (hxs : xs.Pairwise fun a b => key a ≤ key b)
    (hys : ys.Pairwise fun a b => key a ≤ key b) (k : κ) :
    ((setDifference key xs ys).filter fun a => key a = k)
      = (xs.filter fun a => key a = k).drop (ys.filter fun a => key a = k).length := by
  induction xs generalizing ys with
  | nil => simp [setDifference]
  | cons x xs ih =>
    have hx : ∀ a ∈ xs, key x ≤ key a := (List.pairwise_cons.mp hxs).1
    have hxs' := hxs.of_cons
    rcases lt_or_ge k (key x) with hk | hk
    · -- the key is below everything in the first range
      have hlt : ∀ a ∈ x :: xs, k < key a := by
        intro a ha
        rcases List.mem_cons.mp ha with rfl | ha
        · exact hk
        · exact hk.trans_le (hx a ha)
      rw [filter_eq_nil_of_lt hlt, List.drop_nil]
      exact filter_eq_nil_of_lt fun a ha => hlt a ((setDifference_sublist _ _).subset ha)
    · have hdrop := filter_dropWhile_lt key (l := ys) hk
      have hys' : (ys.dropWhile fun y => decide (key y < key x)).Pairwise
          fun a b => key a ≤ key b := hys.sublist (List.dropWhile_sublist _)
      have hhead : ∀ y ys', (ys.dropWhile fun y => decide (key y < key x)) = y :: ys' →
          key x ≤ key y := by
        intro y ys' h
        have := List.head?_dropWhile_not (fun y => decide (key y < key x)) ys
        rw [h] at this
        simpa using this
      rw [setDifference, ← hdrop]
      generalize (ys.dropWhile fun y => decide (key y < key x)) = zs at hys' hhead
      match zs, hys', hhead with
      | [], _, _ => simp
      | y :: ys', hys', hhead =>
        have hy : ∀ a ∈ ys', key y ≤ key a := (List.pairwise_cons.mp hys').1
        have hxy := hhead y ys' rfl
        by_cases hlt : key x < key y
        · -- `x` is behind all that is left to subtract and stays
          simp only [hlt, if_true]
          rcases hk.eq_or_lt with rfl | hk
          · have hnil : ((y :: ys').filter fun a => key a = key x) = [] := by
              apply filter_eq_nil_of_lt
              intro a ha
              rcases List.mem_cons.mp ha with rfl | ha
              · exact hlt
              · exact hlt.trans_le (hy a ha)
            rw [List.filter_cons_of_pos (by simp), ih hxs' hys', hnil]
            simp
          · rw [List.filter_cons_of_neg (by simpa using hk.ne), ih hxs' hys',
              List.filter_cons_of_neg (by simpa using hk.ne) (a := x)]
        · -- `x` and `y` have one key and go together
          have heq : key x = key y := le_antisymm hxy (not_lt.mp hlt)
          simp only [hlt, if_false]
          rw [ih hxs' hys'.of_cons]
          rcases hk.eq_or_lt with rfl | hk
          · rw [List.filter_cons_of_pos (a := x) (by simp),
              List.filter_cons_of_pos (a := y) (by simp [heq]), List.length_cons,
              List.drop_succ_cons]
          · rw [List.filter_cons_of_neg (a := x) (by simpa using hk.ne),
              List.filter_cons_of_neg (a := y) (by simpa [← heq] using hk.ne)]

/-- Filters at one key split the counts of a list. -/
theorem count_filter_key [DecidableEq α] (key : α → κ) (l : List α) (a : α) :
    (l.filter fun b => key b = key a).count a = l.count a := by
  rw [List.count_filter (by simp)]

/-- **Conservation.**  Subtracting a part of a list that its keys separate leaves the rest. -/
theorem setDifference_append_perm [DecidableEq α] (hxs : xs.Pairwise fun a b => key a ≤ key b)
    (hys : ys.Pairwise fun a b => key a ≤ key b) (hsub : ys.Subperm xs)
    (hsep : Separable key xs ys) : (setDifference key xs ys ++ ys).Perm xs := by
  rw [List.perm_iff_count]
  intro a
  rw [List.count_append, ← count_filter_key key (setDifference key xs ys),
    filter_setDifference hxs hys, ← count_filter_key key ys,
    ← count_filter_key key xs]
  have hsub' := hsub.filter fun b => decide (key b = key a)
  rcases hsep (key a) with huniform | hnone | hall
  · -- all elements of the key are equal, so only their number matters
    by_cases ha : a ∈ xs
    · have hrep : ∀ l : List α, l ⊆ (xs.filter fun b => key b = key a) →
          l = List.replicate l.length a := by
        intro l hl
        apply List.eq_replicate_of_mem
        intro b hb
        have hb' := List.mem_filter.mp (hl hb)
        exact huniform b a hb'.1 ha (by simpa using hb'.2) rfl
      have hle := hsub'.length_le
      rw [hrep _ (List.Subset.refl _), hrep _ hsub'.subset]
      simp only [List.length_replicate, List.drop_replicate, List.count_replicate_self]
      omega
    · have hX : (xs.filter fun b => key b = key a).count a = 0 :=
        List.count_eq_zero_of_not_mem fun h => ha (List.mem_filter.mp h).1
      have hY := (hsub'.count_le a).trans_eq hX
      have hdrop := ((List.drop_sublist (ys.filter fun b => key b = key a).length
        (xs.filter fun b => key b = key a)).count_le a).trans_eq hX
      omega
  · have hnil : (ys.filter fun b => key b = key a) = [] := by
      rw [List.filter_eq_nil_iff]
      intro b hb
      simpa using hnone b hb
    rw [hnil]
    simp
  · have hlen : (xs.filter fun b => key b = key a).length
        = (ys.filter fun b => key b = key a).length := by
      rw [← List.countP_eq_length_filter, ← List.countP_eq_length_filter, hall]
    rw [← hlen, List.drop_length, List.count_nil, Nat.zero_add]
    exact (hsub'.perm_of_length_le hlen.le).count_eq a

/-- The loop looks at the keys only. -/
theorem map_setDifference (key : α → κ) (xs ys : List α) :
    (setDifference key xs ys).map key = setDifference id (xs.map key) (ys.map key) := by
  induction xs generalizing ys with
  | nil => rfl
  | cons x xs ih =>
    rw [List.map_cons, setDifference, setDifference, List.dropWhile_map]
    have hcomp : ((fun y => decide (id y < id (key x))) ∘ key) = fun y => decide (key y < key x) :=
      rfl
    rw [hcomp]
    cases ys.dropWhile fun y => decide (key y < key x) with
    | nil => rfl
    | cons y ys' =>
      show (if key x < key y then x :: setDifference key xs (y :: ys')
          else setDifference key xs ys').map key
        = if key x < key y then key x :: setDifference id (xs.map key) (key y :: ys'.map key)
          else setDifference id (xs.map key) (ys'.map key)
      split_ifs
      · rw [List.map_cons, ih, List.map_cons]
      · exact ih ys'

/-- As many elements are dropped as the second list holds, whatever the keys hide. -/
theorem length_setDifference_add (stdSort : StdSort key) (hsub : ys.Subperm xs) :
    (setDifference key (stdSort.sort xs) (stdSort.sort ys)).length + ys.length = xs.length := by
  have hsort : ∀ l : List α, ((stdSort.sort l).map key).Pairwise fun a b => id a ≤ id b :=
    fun l => List.pairwise_map.mpr (stdSort.sorted l)
  have hkeys : ((stdSort.sort ys).map key).Subperm ((stdSort.sort xs).map key) := by
    obtain ⟨l, hperm, hsublist⟩ :=
      ((stdSort.perm ys).subperm.trans hsub).trans (stdSort.perm xs).symm.subperm
    exact ⟨l.map key, hperm.map key, hsublist.map key⟩
  have hsep : Separable id ((stdSort.sort xs).map key) ((stdSort.sort ys).map key) :=
    fun k => Or.inl fun a b _ _ ha hb => ha.trans hb.symm
  have hlen := (setDifference_append_perm (hsort xs) (hsort ys) hkeys hsep).length_eq
  rw [← map_setDifference, List.length_append, List.length_map, List.length_map, List.length_map,
    (stdSort.perm xs).length_eq, (stdSort.perm ys).length_eq] at hlen
  exact hlen

/-- Only keys of the first list matter. -/
theorem separable_iff : Separable key xs ys ↔
    ∀ x ∈ xs, (∀ a ∈ xs, ∀ b ∈ xs, key a = key x → key b = key x → a = b) ∨
      (∀ b ∈ ys, key b ≠ key x) ∨
      xs.countP (fun a => key a = key x) = ys.countP fun a => key a = key x := by
  constructor
  · intro h x _
    rcases h (key x) with huniform | hrest
    · exact Or.inl fun a ha b hb => huniform a b ha hb
    · exact Or.inr hrest
  · intro h k
    by_cases hk : ∃ x ∈ xs, key x = k
    · obtain ⟨x, hx, rfl⟩ := hk
      rcases h x hx with huniform | hrest
      · exact Or.inl fun a b ha hb => huniform a ha b hb
      · exact Or.inr hrest
    · exact Or.inl fun a b ha _ hak => absurd ⟨a, ha, hak⟩ hk

instance [DecidableEq α] : Decidable (Separable key xs ys) :=
  decidable_of_iff _ separable_iff.symm

theorem Separable.of_perm {xs' ys' : List α} (h : Separable key xs ys) (hxs : xs'.Perm xs)
    (hys : ys'.Perm ys) : Separable key xs' ys' := by
  intro k
  rcases h k with huniform | hnone | hall
  · exact Or.inl fun a b ha hb => huniform a b (hxs.mem_iff.mp ha) (hxs.mem_iff.mp hb)
  · exact Or.inr (Or.inl fun b hb => hnone b (hys.mem_iff.mp hb))
  · refine Or.inr (Or.inr ?_)
    rw [hxs.countP_eq, hys.countP_eq, hall]

/-- Sorting two lists and subtracting them, as the standard library is used. -/
theorem setDifference_sort_append_perm [DecidableEq α] (stdSort : StdSort key)
    (hsub : ys.Subperm xs) (hsep : Separable key xs ys) :
    (setDifference key (stdSort.sort xs) (stdSort.sort ys) ++ ys).Perm xs := by
  have hxs := stdSort.perm xs
  have hys := stdSort.perm ys
  have hsub' : (stdSort.sort ys).Subperm (stdSort.sort xs) :=
    (hys.subperm.trans hsub).trans hxs.symm.subperm
  have hdiff := setDifference_append_perm (stdSort.sorted xs) (stdSort.sorted ys) hsub'
    (hsep.of_perm hxs hys)
  exact ((hys.symm.append_left _).trans hdiff).trans hxs

end SortedDiff
