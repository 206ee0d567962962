import Contentv1.Lib.OrdMap

/-!
# A store that is written over entry by entry

A snapshot puts the entries of a copy into a store, one key after another, over those of the
snapshot before it.  Whoever looks in between, as a program does that starts after a crash, finds
the new entry at the keys that were written and the old one at the others.

`Between base copy todo store` says this of a store with the keys of `todo` still to be written.  A
snapshot starts with `between_start`, writes by `Between.put` and ends with `Between.done`; what a
key can hold meanwhile is `Between.getElem?_or`.
-/

namespace Snapshot

variable {α β : Type*} [LinearOrder α] {base copy store : OrdMap α β} {todo : List α} {k : α}

def Between (base copy : OrdMap α β) (todo : List α) (store : OrdMap α β) : Prop :=
  ∀ k : α, store[k]? = if k ∈ todo then base[k]? else copy[k]?

/-- No snapshot is on its way. -/
theorem between_self (m : OrdMap α β) : Between m m [] m :=
  fun _ => (if_neg List.not_mem_nil).symm

/-- A snapshot starts with all keys of its copy to be written, among which are all keys that the
store has. -/
theorem between_start (hcover : ∀ k : α, copy[k]? = none → base[k]? = none)
    (htodo : ∀ k : α, k ∉ todo → copy[k]? = none) : Between base copy todo base := by
  intro k
  split_ifs with hk
  · rfl
  · rw [htodo k hk, hcover k (htodo k hk)]

/-- The entry of the next key is written. -/
theorem Between.put (h : Between base copy (k :: todo) store) (hk : k ∉ todo) {v : β}
    (hv : copy[k]? = some v) : Between base copy todo (store.insert k v) := by
  intro k'
  rw [OrdMap.getElem?_insert]
  split_ifs with heq htodo htodo
  · exact absurd (heq ▸ htodo) hk
  · rw [← heq, hv]
  · rw [h k', if_pos (List.mem_cons_of_mem k htodo)]
  · have hnot : k' ∉ k :: todo := List.not_mem_cons_of_ne_of_not_mem (Ne.symm heq) htodo
    rw [h k', if_neg hnot]

/-- With the last key the store has become the copy. -/
theorem Between.done (h : Between base copy [] store) : store = copy :=
  Std.ExtTreeMap.ext_getElem? fun k => (h k).trans (if_neg List.not_mem_nil)

/-- What a key holds is what one of the two snapshots says. -/
theorem Between.getElem?_or (h : Between base copy todo store) (k : α) :
    store[k]? = base[k]? ∨ store[k]? = copy[k]? := by
  rw [h k]
  split_ifs
  · exact Or.inl rfl
  · exact Or.inr rfl

end Snapshot
