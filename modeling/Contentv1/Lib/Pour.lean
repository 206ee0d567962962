import Contentv1.Lib.OrdMap
import Mathlib.Data.List.Count

/-!
# Pouring entries into a map of bounded size

A loop walks a list and alters a map at the key of each element, as long as the map holds fewer
than `n` keys.  It comes to the elements of a prefix only, which ends where as many new keys have
come up as there was room for.

* `poured` is that prefix; `poured_append` and `countP_poured` say where it ends.
* `fill` is the loop; `size_fill`, `getElem?_fill_of_mem` and `getElem?_fill_of_not_mem` read off
  its result.
-/

variable {α β γ : Type*}

/-! ### The prefix -/

/-- The elements that come before `room` new ones have been met. -/
def poured (new : α → Bool) : ℕ → List α → List α
  | 0, _ => []
  | _ + 1, [] => []
  | room + 1, a :: l => a :: poured new (if new a then room else room + 1) l

section Poured

variable {new new' : α → Bool} {room : ℕ} {l l' : List α}

@[simp] theorem poured_zero (new : α → Bool) (l : List α) : poured new 0 l = [] := by
  cases l <;> rfl

@[simp] theorem poured_nil (new : α → Bool) (room : ℕ) : poured new room [] = [] := by
  cases room <;> rfl

theorem poured_succ_cons (new : α → Bool) (room : ℕ) (a : α) (l : List α) :
    poured new (room + 1) (a :: l)
      = a :: poured new (if new a then room else room + 1) l := rfl

theorem poured_append (new : α → Bool) (room : ℕ) (l l' : List α) :
    poured new room (l ++ l')
      = poured new room l ++ poured new (room - l.countP new) l' := by
  induction l generalizing room with
  | nil => simp
  | cons a l ih =>
    cases room with
    | zero => simp
    | succ room =>
      rw [List.cons_append, poured_succ_cons, poured_succ_cons, ih, List.cons_append,
        List.countP_cons]
      split_ifs with ha
      · rw [Nat.add_sub_add_right]
      · rfl

theorem countP_poured (new : α → Bool) (room : ℕ) (l : List α) :
    (poured new room l).countP new = min room (l.countP new) := by
  induction l generalizing room with
  | nil => simp
  | cons a l ih =>
    cases room with
    | zero => simp
    | succ room =>
      rw [poured_succ_cons, List.countP_cons, List.countP_cons, ih]
      split_ifs with ha
      · rw [← Nat.add_min_add_right]
      · rfl

theorem prefix_poured (new : α → Bool) (room : ℕ) (l : List α) : poured new room l <+: l := by
  induction l generalizing room with
  | nil => simp
  | cons a l ih =>
    cases room with
    | zero => simp
    | succ room =>
      rw [poured_succ_cons, List.prefix_cons_inj]
      exact ih _

theorem poured_congr (h : ∀ a ∈ l, new a = new' a) : poured new room l = poured new' room l := by
  induction l generalizing room with
  | nil => simp
  | cons a l ih =>
    cases room with
    | zero => simp
    | succ room =>
      rw [poured_succ_cons, poured_succ_cons, h a List.mem_cons_self,
        ih fun b hb => h b (List.mem_cons_of_mem a hb)]

/-- Where everything is new the prefix is as long as there is room. -/
theorem poured_true (room : ℕ) (l : List α) : poured (fun _ => true) room l = l.take room := by
  induction l generalizing room with
  | nil => simp
  | cons a l ih =>
    cases room with
    | zero => simp
    | succ room => rw [poured_succ_cons, if_pos rfl, ih, List.take_succ_cons]

/-- An element is come to if there is room left behind the elements before it. -/
theorem mem_poured_of_countP_lt {a : α} (h : l.countP new < room) :
    a ∈ poured new room (l ++ a :: l') := by
  obtain ⟨left, hleft⟩ := Nat.exists_eq_add_one_of_ne_zero (Nat.sub_ne_zero_of_lt h)
  rw [poured_append, hleft, poured_succ_cons]
  exact List.mem_append_right _ List.mem_cons_self

/-- Once there is no room left nothing more is come to. -/
theorem poured_of_le_countP (h : room ≤ l.countP new) :
    poured new room (l ++ l') = poured new room l := by
  rw [poured_append, Nat.sub_eq_zero_of_le h, poured_zero, List.append_nil]

theorem nodup_map_fst_poured {l : List (α × β)} (hl : (l.map Prod.fst).Nodup)
    (new : α × β → Bool) (room : ℕ) : ((poured new room l).map Prod.fst).Nodup :=
  hl.sublist ((prefix_poured new room l).sublist.map Prod.fst)

end Poured

/-! ### The loop -/

namespace OrdMap

variable [LinearOrder α] {g : α × β → Option γ → γ} {m : OrdMap α γ} {l : List (α × β)} {n : ℕ}
  {k : α}

/-- `m[k] = f(m[k])`. -/
def put (g : α × β → Option γ → γ) (m : OrdMap α γ) (p : α × β) : OrdMap α γ :=
  m.alter p.1 fun o => some (g p o)

theorem getElem?_put (g : α × β → Option γ → γ) (m : OrdMap α γ) (p : α × β) (k : α) :
    (m.put g p)[k]? = if p.1 = k then some (g p m[p.1]?) else m[k]? :=
  getElem?_alter m p.1 k _

theorem put_eq_insert (g : α × β → Option γ → γ) (m : OrdMap α γ) (p : α × β) :
    m.put g p = m.insert p.1 (g p m[p.1]?) := by
  apply Std.ExtTreeMap.ext_getElem?
  intro k
  rw [getElem?_put, getElem?_insert]

theorem contains_put (g : α × β → Option γ → γ) (m : OrdMap α γ) (p : α × β) (k : α) :
    (m.put g p).contains k = (decide (p.1 = k) || m.contains k) := by
  rw [put_eq_insert, Std.ExtTreeMap.contains_insert]
  congr 1
  rw [Bool.eq_iff_iff, beq_iff_eq, compare_eq_iff_eq, decide_eq_true_iff]

theorem size_put (g : α × β → Option γ → γ) (m : OrdMap α γ) (p : α × β) :
    (m.put g p).size = m.size + if !m.contains p.1 then 1 else 0 := by
  rw [put_eq_insert, Std.ExtTreeMap.size_insert]
  cases m.contains p.1 <;> rfl

/-- Alter the map at the key of each element, as long as it holds fewer than `n` keys. -/
def fill (g : α × β → Option γ → γ) (n : ℕ) (m : OrdMap α γ) (l : List (α × β)) : OrdMap α γ :=
  l.foldl (fun m p => if m.size < n then m.put g p else m) m

theorem fill_of_le (h : n ≤ m.size) : fill g n m l = m := by
  unfold fill
  induction l with
  | nil => rfl
  | cons p l ih => rw [List.foldl_cons, if_neg (Nat.not_lt.mpr h), ih]

/-- The element's key is not in the map yet. -/
def isNew (m : OrdMap α γ) (p : α × β) : Bool := !m.contains p.1

/-- Keys other than the one that goes in are as new as before. -/
theorem isNew_put {p q : α × β} (h : p.1 ≠ q.1) : (m.put g p).isNew q = m.isNew q := by
  unfold isNew
  rw [contains_put, decide_eq_false h, Bool.false_or]

theorem isNew_put_of_mem {p : α × β} (hp : p.1 ∉ l.map Prod.fst) :
    ∀ q ∈ l, (m.put g p).isNew q = m.isNew q := by
  intro q hq
  apply isNew_put
  intro heq
  exact hp (heq ▸ List.mem_map_of_mem hq)

/-- The loop is the unguarded one on the prefix. -/
theorem fill_eq_foldl_poured (hl : (l.map Prod.fst).Nodup) :
    fill g n m l = (poured m.isNew (n - m.size) l).foldl (put g) m := by
  induction l generalizing m with
  | nil =>
    rw [poured_nil]
    rfl
  | cons p l ih =>
    obtain ⟨hp, hl⟩ := List.nodup_cons.mp hl
    by_cases hsize : m.size < n
    · obtain ⟨room, hroom⟩ := Nat.exists_eq_add_one_of_ne_zero (Nat.sub_ne_zero_of_lt hsize)
      have hleft : n - (m.put g p).size = if m.isNew p then room else room + 1 := by
        rw [size_put]
        unfold isNew
        split_ifs <;> omega
      have hstep : fill g n m (p :: l) = fill g n (m.put g p) l := by
        unfold fill
        rw [List.foldl_cons, if_pos hsize]
      rw [hstep, ih hl, poured_congr (isNew_put_of_mem hp), hleft, hroom, poured_succ_cons,
        List.foldl_cons]
    · have hfull : n ≤ m.size := Nat.not_lt.mp hsize
      rw [fill_of_le hfull, Nat.sub_eq_zero_of_le hfull, poured_zero, List.foldl_nil]

theorem size_foldl_put (hl : (l.map Prod.fst).Nodup) :
    (l.foldl (put g) m).size = m.size + l.countP m.isNew := by
  induction l generalizing m with
  | nil => rfl
  | cons p l ih =>
    obtain ⟨hp, hl⟩ := List.nodup_cons.mp hl
    have hcongr : l.countP (m.put g p).isNew = l.countP m.isNew := by
      apply List.countP_congr
      intro q hq
      rw [isNew_put_of_mem hp q hq]
    rw [List.foldl_cons, ih hl, hcongr, size_put, List.countP_cons]
    unfold isNew
    omega

/-- The map grows by the new keys there is room for. -/
theorem size_fill (hl : (l.map Prod.fst).Nodup) :
    (fill g n m l).size = m.size + min (n - m.size) (l.countP m.isNew) := by
  rw [fill_eq_foldl_poured hl, size_foldl_put (nodup_map_fst_poured hl _ _), countP_poured]

/-- What the loop comes to it alters, and nothing else. -/
theorem getElem?_fill_of_mem (hl : (l.map Prod.fst).Nodup) {v : β}
    (hk : (k, v) ∈ poured m.isNew (n - m.size) l) :
    (fill g n m l)[k]? = some (g (k, v) m[k]?) := by
  have hput : LocalAt (put g) fun k v o => some (g (k, v) o) :=
    fun m p k => getElem?_put g m p k
  rw [fill_eq_foldl_poured hl]
  exact getElem?_foldl_of_mem hput m (nodup_map_fst_poured hl _ _) hk

theorem getElem?_fill_of_not_mem (hl : (l.map Prod.fst).Nodup)
    (hk : k ∉ (poured m.isNew (n - m.size) l).map Prod.fst) : (fill g n m l)[k]? = m[k]? := by
  have hput : LocalAt (put g) fun k v o => some (g (k, v) o) :=
    fun m p k => getElem?_put g m p k
  rw [fill_eq_foldl_poured hl]
  exact getElem?_foldl_of_not_mem hput m hk

end OrdMap
