import Std.Data.ExtTreeMap
import Std.Data.ExtTreeSet
import Mathlib.Order.Compare
import Mathlib.Order.Defs.LinearOrder
import Mathlib.Data.List.Nodup
import Mathlib.Data.List.Perm.Basic
import Mathlib.Tactic.TypeStar

/-!
# Associative containers over a linear order

`OrdMap α β` is `Std.ExtTreeMap` at the order of `α`: two maps with the same lookups are equal, and
`toList` lists the entries in the order of the keys.  The lookup lemmas are restated with `=` on
keys in place of `compare _ _ = .eq`.

A loop over the entries of one map that changes another map only at the key it is at does the same
in every order of the entries; `getElem?_foldl_of_mem` and `getElem?_foldl_of_not_mem` read off its
result, and `eraseIf` is the loop that drops the keys with a property.  Where a loop comes to a key
more than once, `getElem?_foldl_alter` reads off what its elements at that key do one after another.

`OrdSet` is `Std.ExtTreeSet` at the order of its elements.
-/

/-- A linear order's `compare` is equal only on equal arguments. -/
instance lawfulEqCmp_compare {α : Type*} [LinearOrder α] :
    Std.LawfulEqCmp (compare : α → α → Ordering) where
  eq_of_compare h := compare_eq_iff_eq.mp h

/-- A linear order's `compare` is transitive, as the operations of a map over it ask. -/
instance transCmp_compare {α : Type*} [LinearOrder α] :
    Std.TransCmp (compare : α → α → Ordering) :=
  instLawfulBCmpCompare_mathlib.toTransCmp

/-- A finite map whose keys are ordered. -/
abbrev OrdMap (α β : Type*) [LinearOrder α] := Std.ExtTreeMap α β compare

namespace OrdMap

variable {α β γ : Type*} [LinearOrder α] {m n : OrdMap α β} {k : α}

theorem getElem?_insert (m : OrdMap α β) (k k' : α) (v : β) :
    (m.insert k v)[k']? = if k = k' then some v else m[k']? := by
  simp only [Std.ExtTreeMap.getElem?_insert, compare_eq_iff_eq]

theorem getElem?_erase (m : OrdMap α β) (k k' : α) :
    (m.erase k)[k']? = if k = k' then none else m[k']? := by
  simp only [Std.ExtTreeMap.getElem?_erase, compare_eq_iff_eq]

theorem getElem?_alter (m : OrdMap α β) (k k' : α) (f : Option β → Option β) :
    (m.alter k f)[k']? = if k = k' then f m[k]? else m[k']? := by
  simp only [Std.ExtTreeMap.getElem?_alter, compare_eq_iff_eq]

/-- What holds of all entries holds of them after a write of one that it holds of. -/
theorem forall_of_write {Q : β → Prop} {v : β} (h : ∀ (k : α) (v : β), m[k]? = some v → Q v)
    (hv : Q v) (hget : ∀ k' : α, n[k']? = if k = k' then some v else m[k']?) :
    ∀ (k : α) (v : β), n[k]? = some v → Q v := by
  intro k' v' hsome
  rw [hget] at hsome
  split_ifs at hsome
  · rw [← Option.some.inj hsome]
    exact hv
  · exact h k' v' hsome

/-- What holds of every entry, by key or along the list of the entries. -/
theorem forall_getElem?_iff {P : α → β → Prop} :
    (∀ (k : α) (v : β), m[k]? = some v → P k v) ↔ ∀ p ∈ m.toList, P p.1 p.2 := by
  constructor
  · exact fun h p hp => h p.1 p.2 (Std.ExtTreeMap.mem_toList_iff_getElem?_eq_some.mp hp)
  · exact fun h k v hget => h (k, v) (Std.ExtTreeMap.mem_toList_iff_getElem?_eq_some.mpr hget)

instance decidableForallEntries {P : α → β → Prop} [∀ k v, Decidable (P k v)] :
    Decidable (∀ (k : α) (v : β), m[k]? = some v → P k v) :=
  decidable_of_iff _ forall_getElem?_iff.symm

/-- The keys of a map's entries are pairwise distinct. -/
theorem nodup_map_fst_toList (m : OrdMap α β) : (m.toList.map Prod.fst).Nodup := by
  rw [List.Nodup, List.pairwise_map]
  exact m.distinct_keys_toList.imp fun h heq => h (compare_eq_iff_eq.mpr heq)

theorem nodup_map_fst_of_perm {l : List (α × β)} (h : l.Perm m.toList) :
    (l.map Prod.fst).Nodup :=
  (h.map Prod.fst).nodup_iff.mpr m.nodup_map_fst_toList

theorem mem_perm_iff {l : List (α × β)} (h : l.Perm m.toList) {v : β} :
    (k, v) ∈ l ↔ m[k]? = some v := by
  rw [h.mem_iff, Std.ExtTreeMap.mem_toList_iff_getElem?_eq_some]

theorem not_mem_map_fst_of_perm {l : List (α × β)} (h : l.Perm m.toList) (hk : m[k]? = none) :
    k ∉ l.map Prod.fst := by
  rintro hmem
  obtain ⟨⟨k', v⟩, hkv, rfl⟩ := List.mem_map.mp hmem
  rw [mem_perm_iff h, hk] at hkv
  cases hkv

/-- Where the values know their keys, the values are enough to get the entries back. -/
theorem map_key_map_snd_toList {key : β → α} (h : ∀ (k : α) (v : β), m[k]? = some v → key v = k) :
    (m.toList.map Prod.snd).map (fun v => (key v, v)) = m.toList := by
  have hid : m.toList.map ((fun v => (key v, v)) ∘ Prod.snd) = m.toList.map id := by
    apply List.map_congr_left
    intro p hp
    have hget := Std.ExtTreeMap.mem_toList_iff_getElem?_eq_some.mp hp
    show (key p.2, p.2) = p
    rw [h p.1 p.2 hget]
  rw [List.map_map, hid, List.map_id]

/-- Where the values know their keys, each stands at its own. -/
theorem mem_map_snd_toList_iff {key : β → α} (h : ∀ (k : α) (v : β), m[k]? = some v → key v = k)
    {v : β} : v ∈ m.toList.map Prod.snd ↔ m[key v]? = some v := by
  rw [List.mem_map]
  constructor
  · rintro ⟨⟨k, v⟩, hmem, rfl⟩
    have hget := Std.ExtTreeMap.mem_toList_iff_getElem?_eq_some.mp hmem
    rw [h k v hget]
    exact hget
  · intro hget
    exact ⟨(key v, v), Std.ExtTreeMap.mem_toList_iff_getElem?_eq_some.mpr hget, rfl⟩

theorem nodup_map_key_map_snd_toList {key : β → α}
    (h : ∀ (k : α) (v : β), m[k]? = some v → key v = k) :
    ((m.toList.map Prod.snd).map key).Nodup := by
  have hfst := congrArg (List.map Prod.fst) (map_key_map_snd_toList h)
  rw [List.map_map] at hfst
  have hnodup := m.nodup_map_fst_toList
  rw [← hfst] at hnodup
  exact hnodup

/-! ### Loops over the entries of a map -/

section Loop

variable {F : OrdMap α γ → α × β → OrdMap α γ} {g : α → β → Option γ → Option γ}

/-- A loop body that changes the map at the entry's own key only. -/
def LocalAt (F : OrdMap α γ → α × β → OrdMap α γ) (g : α → β → Option γ → Option γ) : Prop :=
  ∀ m p k, (F m p)[k]? = if p.1 = k then g p.1 p.2 m[p.1]? else m[k]?

theorem getElem?_foldl_of_not_mem (hF : LocalAt F g) {l : List (α × β)} (m : OrdMap α γ)
    (hk : k ∉ l.map Prod.fst) : (l.foldl F m)[k]? = m[k]? := by
  induction l generalizing m with
  | nil => rfl
  | cons p l ih =>
    rw [List.map_cons, List.mem_cons, not_or] at hk
    rw [List.foldl_cons, ih (F m p) hk.2, hF, if_neg (Ne.symm hk.1)]

theorem getElem?_foldl_of_mem (hF : LocalAt F g) {l : List (α × β)} (m : OrdMap α γ)
    (hl : (l.map Prod.fst).Nodup) {v : β} (hk : (k, v) ∈ l) :
    (l.foldl F m)[k]? = g k v m[k]? := by
  induction l generalizing m with
  | nil => cases hk
  | cons p l ih =>
    rw [List.map_cons, List.nodup_cons] at hl
    rw [List.foldl_cons]
    rcases List.mem_cons.mp hk with rfl | hk
    · rw [getElem?_foldl_of_not_mem hF _ hl.1, hF, if_pos rfl]
    · have hne : p.1 ≠ k := by
        rintro rfl
        exact hl.1 (List.mem_map.mpr ⟨_, hk, rfl⟩)
      rw [ih (F m p) hl.2 hk, hF, if_neg hne]

/-- The result of a loop over all entries of `n`, in any order. -/
theorem getElem?_foldl_perm (hF : LocalAt F g) {l : List (α × β)} (hl : l.Perm n.toList)
    (m : OrdMap α γ) (k : α) :
    (l.foldl F m)[k]? = (n[k]?).elim m[k]? fun v => g k v m[k]? := by
  cases hk : n[k]? with
  | none => exact getElem?_foldl_of_not_mem hF m (not_mem_map_fst_of_perm hl hk)
  | some v =>
    exact getElem?_foldl_of_mem hF m (nodup_map_fst_of_perm hl) ((mem_perm_iff hl).mpr hk)

end Loop

/-! ### Loops that come to a key again and again -/

/-- The elements of `l` at the key `k`, in their order. -/
def valuesAt (l : List (α × β)) (k : α) : List β := (l.filter fun p => p.1 = k).map Prod.snd

theorem valuesAt_cons (p : α × β) (l : List (α × β)) (k : α) :
    valuesAt (p :: l) k = if p.1 = k then p.2 :: valuesAt l k else valuesAt l k := by
  unfold valuesAt
  by_cases h : p.1 = k
  · rw [List.filter_cons_of_pos (by simpa using h), if_pos h, List.map_cons]
  · rw [List.filter_cons_of_neg (by simpa using h), if_neg h]

theorem mem_valuesAt {l : List (α × β)} {v : β} : v ∈ valuesAt l k ↔ (k, v) ∈ l := by
  unfold valuesAt
  rw [List.mem_map]
  constructor
  · rintro ⟨⟨k', v'⟩, hmem, rfl⟩
    obtain ⟨hl, hk⟩ := List.mem_filter.mp hmem
    rw [← of_decide_eq_true hk]
    exact hl
  · intro hmem
    exact ⟨(k, v), List.mem_filter.mpr ⟨hmem, decide_eq_true rfl⟩, rfl⟩

theorem valuesAt_append (l l' : List (α × β)) (k : α) :
    valuesAt (l ++ l') k = valuesAt l k ++ valuesAt l' k := by
  unfold valuesAt
  rw [List.filter_append, List.map_append]

/-- One value at each of several keys. -/
theorem valuesAt_map_mk {l : List α} (hl : l.Nodup) (v : β) (k : α) :
    valuesAt (l.map fun a => (a, v)) k = if k ∈ l then [v] else [] := by
  induction l with
  | nil => rfl
  | cons a l ih =>
    obtain ⟨ha, hl⟩ := List.nodup_cons.mp hl
    rw [List.map_cons, valuesAt_cons, ih hl]
    by_cases hak : a = k
    · subst hak
      rw [if_pos rfl, if_neg ha, if_pos List.mem_cons_self]
    · rw [if_neg hak]
      refine if_congr ?_ rfl rfl
      rw [List.mem_cons, or_iff_right (Ne.symm hak)]

/-- A loop that alters the entry at each element's key leaves at a key what its own elements do one
after another. -/
theorem getElem?_foldl_alter (f : α → β → Option γ → Option γ) (l : List (α × β))
    (m : OrdMap α γ) (k : α) :
    (l.foldl (fun m p => m.alter p.1 (f p.1 p.2)) m)[k]?
      = (valuesAt l k).foldl (fun o v => f k v o) m[k]? := by
  induction l generalizing m with
  | nil => rfl
  | cons p l ih =>
    rw [List.foldl_cons, ih, valuesAt_cons, getElem?_alter]
    split_ifs with h
    · rw [h, List.foldl_cons]
    · rfl

/-- `m[k].push_back(v)` on a map of vectors. -/
def push (m : OrdMap α (List β)) (k : α) (v : β) : OrdMap α (List β) :=
  m.alter k fun o => some (o.getD [] ++ [v])

/-- What the vectors of a map hold after a loop of `push_back`. -/
theorem getD_foldl_push (l : List (α × β)) (m : OrdMap α (List β)) (k : α) :
    ((l.foldl (fun m p => m.push p.1 p.2) m)[k]?).getD [] = (m[k]?).getD [] ++ valuesAt l k := by
  have hfold : ∀ (vs : List β) (o : Option (List β)),
      (vs.foldl (fun o v => some (o.getD [] ++ [v])) o).getD [] = o.getD [] ++ vs := by
    intro vs
    induction vs with
    | nil => exact fun o => (List.append_nil _).symm
    | cons v vs ih =>
      intro o
      rw [List.foldl_cons, ih, Option.getD_some, List.append_assoc]
      rfl
  unfold push
  rw [getElem?_foldl_alter (fun _ v o => some (o.getD [] ++ [v])) l m k, hfold]

/-- Putting the entries of `n` into the empty map one by one, in any order, gives `n` back. -/
theorem foldl_insert_perm {l : List (α × β)} (hl : l.Perm n.toList) :
    l.foldl (fun m p => m.insert p.1 p.2) (∅ : OrdMap α β) = n := by
  have hF : LocalAt (fun (m : OrdMap α β) (p : α × β) => m.insert p.1 p.2)
      fun _ v _ => some v := fun m p k => getElem?_insert m p.1 k p.2
  apply Std.ExtTreeMap.ext_getElem?
  intro k
  rw [getElem?_foldl_perm hF hl]
  cases h : n[k]? <;> simp

/-! ### Dropping keys -/

/-- Drop the entries whose key satisfies `p`, walking the keys in order. -/
def eraseIf (p : α → Bool) (m : OrdMap α β) : OrdMap α β :=
  m.keys.foldl (fun m k => if p k then m.erase k else m) m

theorem getElem?_eraseIf (p : α → Bool) (m : OrdMap α β) (k : α) :
    (m.eraseIf p)[k]? = if p k then none else m[k]? := by
  have hF : LocalAt (fun (m : OrdMap α β) (q : α × β) => if p q.1 then m.erase q.1 else m)
      fun k _ o => if p k then none else o := by
    intro m q k
    by_cases hq : p q.1 = true
    · simp only [hq, if_true]
      exact getElem?_erase m q.1 k
    · simp only [hq, Bool.false_eq_true, if_false]
      split_ifs with h
      · rw [h]
      · rfl
  have hfold : m.eraseIf p
      = m.toList.foldl (fun m q => if p q.1 then m.erase q.1 else m) m := by
    rw [eraseIf, ← Std.ExtTreeMap.map_fst_toList_eq_keys, List.foldl_map]
  rw [hfold, getElem?_foldl_perm hF (List.Perm.refl _)]
  cases h : m[k]? <;> simp

end OrdMap

/-- A finite set whose elements are ordered. -/
abbrev OrdSet (α : Type*) [LinearOrder α] := Std.ExtTreeSet α compare

namespace OrdSet

variable {α : Type*} [LinearOrder α] {a : α}

theorem mem_insert (s : OrdSet α) (a b : α) : b ∈ s.insert a ↔ a = b ∨ b ∈ s := by
  rw [Std.ExtTreeSet.mem_insert, compare_eq_iff_eq]

theorem nodup_toList (s : OrdSet α) : s.toList.Nodup :=
  Std.ExtTreeSet.distinct_toList.imp fun h heq => h (compare_eq_iff_eq.mpr heq)

/-- A set after a loop that inserts something for each element of a list. -/
theorem mem_foldl_insert {β : Type*} (f : β → α) (l : List β) (s : OrdSet α) :
    a ∈ l.foldl (fun s b => s.insert (f b)) s ↔ (∃ b ∈ l, f b = a) ∨ a ∈ s := by
  induction l generalizing s with
  | nil => simp
  | cons b l ih =>
    rw [List.foldl_cons, ih, mem_insert, List.exists_mem_cons_iff, ← or_assoc]
    exact or_congr_left or_comm

end OrdSet
