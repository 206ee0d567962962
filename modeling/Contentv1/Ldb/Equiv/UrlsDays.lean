import Contentv1.Ldb.UrlsDays
import Mathlib.Tactic.SplitIfs
import Mathlib.Tactic.Ring

/-!
# What `UrlsDays` stores

`UrlsDays.visitsOn ud url day` is the stored count.  On a day that cleaning may not touch, `add`
adds the count of its visit (`visitsOn_add`) and `merge` adds the other side's counts
(`visitsOn_merge`), through the empty-entry case of `UrlDaysImpl.merge` as well as the other one.

`url_merge` says which `url` a merged entry carries: `merge` does not write it, so a key that is new
to the left side gets an entry without a URL.
-/

namespace Contentv1

namespace UrlDaysImpl

variable {misc : MiscTime} {duration : ℤ} {impl uds : UrlDaysImpl} {now : ℤ} {day : Str}

/-- The stored count of a day. -/
def visitsOn (impl : UrlDaysImpl) (day : Str) : ℤ := impl.dayVisits[day]?.getD 0

@[simp] theorem visitsOn_default : (default : UrlDaysImpl).visitsOn day = 0 := by
  show ((∅ : OrdMap Str ℤ)[day]?).getD 0 = 0
  rw [Std.ExtTreeMap.getElem?_empty, Option.getD_none]

theorem visitsOn_ofUrl (url : Url) : (ofUrl url).visitsOn day = 0 := visitsOn_default

theorem visitsOn_of_isEmpty (h : impl.dayVisits.isEmpty = true) : impl.visitsOn day = 0 := by
  rw [visitsOn, Std.ExtTreeMap.isEmpty_iff.mp h, Std.ExtTreeMap.getElem?_empty, Option.getD_none]

theorem getD_addVisits (m : OrdMap Str ℤ) (day day' : Str) (cnt : ℤ) :
    ((addVisits m day cnt)[day']?).getD 0
      = m[day']?.getD 0 + if day = day' then cnt else 0 := by
  rw [addVisits, OrdMap.getElem?_alter]
  split_ifs with h
  · rw [h, Option.getD_some]
  · rw [add_zero]

@[simp] theorem url_merge : (impl.merge misc duration uds now).url = impl.url := by
  unfold merge
  split_ifs <;> rfl

/-- Cleaning keeps every day from `now - duration` on. -/
theorem visitsOn_checkClean (hday : misc.getDayStr (now - duration) ≤ day) :
    (impl.checkClean misc duration now).visitsOn day = impl.visitsOn day := by
  have hkeep : decide (day < misc.getDayStr (now - duration)) = false :=
    decide_eq_false (not_lt.mpr hday)
  unfold visitsOn checkClean
  rw [OrdMap.getElem?_eraseIf, hkeep]
  rfl

/-- The loop over the days of another entry changes a day at its own entry only. -/
theorem addVisits_localAt :
    OrdMap.LocalAt (fun (m : OrdMap Str ℤ) (p : Str × ℤ) => addVisits m p.1 p.2)
      fun _ c o => some (o.getD 0 + c) :=
  fun m p k => OrdMap.getElem?_alter m p.1 k _

theorem getD_foldl_addVisits (m n : OrdMap Str ℤ) (day : Str) :
    ((n.toList.foldl (fun m p => addVisits m p.1 p.2) m)[day]?).getD 0
      = m[day]?.getD 0 + n[day]?.getD 0 := by
  rw [OrdMap.getElem?_foldl_perm addVisits_localAt (List.Perm.refl _)]
  cases n[day]? with
  | none => simp
  | some c => rfl

theorem visitsOn_merge (hday : misc.getDayStr (now - duration) ≤ day) :
    (impl.merge misc duration uds now).visitsOn day = impl.visitsOn day + uds.visitsOn day := by
  unfold merge
  split_ifs with hempty
  · -- the days of `uds` replace the empty ones
    rw [visitsOn_of_isEmpty hempty, zero_add]
    rfl
  · rw [visitsOn_checkClean hday]
    exact getD_foldl_addVisits impl.dayVisits uds.dayVisits day

/-- A dump is read back as it was. -/
@[simp] theorem ofDump_dump (impl : UrlDaysImpl) : ofDump impl.dump = impl := by
  show (⟨impl.url, _⟩ : UrlDaysImpl) = impl
  rw [dump, OrdMap.foldl_insert_perm (List.Perm.refl _)]

end UrlDaysImpl

namespace UrlsDays

variable {DAYS : ℕ} {misc : MiscTime} {ud uds : UrlsDays DAYS} {utp : UrlTpStat} {now : ℤ}
  {url : Url} {day : Str}

/-- The stored count of a URL on a day, 0 where there is no entry. -/
def visitsOn (ud : UrlsDays DAYS) (url : Url) (day : Str) : ℤ :=
  ud.urlsDays[url]?.elim 0 fun impl => impl.visitsOn day

@[simp] theorem visitsOn_default : (default : UrlsDays DAYS).visitsOn url day = 0 := by
  show ((∅ : OrdMap Url UrlDaysImpl)[url]?).elim 0 _ = 0
  rw [Std.ExtTreeMap.getElem?_empty, Option.elim_none]

theorem visitsOn_of_empty (h : ud.empty = true) : ud.visitsOn url day = 0 := by
  rw [visitsOn, Std.ExtTreeMap.isEmpty_iff.mp h, Std.ExtTreeMap.getElem?_empty, Option.elim_none]

/-- A missing entry counts as the one `add` or `merge` would create. -/
theorem visitsOn_eq_getD (ud : UrlsDays DAYS) {impl : UrlDaysImpl} (himpl : impl.visitsOn day = 0) :
    ud.visitsOn url day = (ud.urlsDays[url]?.getD impl).visitsOn day := by
  rw [visitsOn]
  cases ud.urlsDays[url]? with
  | none => exact himpl.symm
  | some _ => rfl

/-! ### `add` -/

/-- The visits `add` counts for a URL and a day. -/
def addedOn (DAYS : ℕ) (misc : MiscTime) (utp : UrlTpStat) (now : ℤ) (url : Url) (day : Str) :
    ℤ :=
  if now - utp.tp ≤ duration DAYS ∧ utp.url = url ∧ misc.getDayStr utp.tp = day then utp.cnt else 0

theorem visitsOn_add (hday : misc.getDayStr (now - duration DAYS) ≤ day) :
    (ud.add misc utp now).visitsOn url day
      = ud.visitsOn url day + addedOn DAYS misc utp now url day := by
  unfold add addedOn
  split_ifs with hold hadd hadd
  · -- too old: dropped by one and not counted by the other
    exact absurd hadd.1 (not_le.mpr hold)
  · rw [add_zero]
  · -- the day of the visit itself
    obtain ⟨-, rfl, rfl⟩ := hadd
    rw [visitsOn, OrdMap.getElem?_insert, if_pos rfl, Option.elim_some,
      UrlDaysImpl.visitsOn_checkClean hday, UrlDaysImpl.visitsOn, UrlDaysImpl.getD_addVisits,
      if_pos rfl, visitsOn_eq_getD ud (UrlDaysImpl.visitsOn_ofUrl utp.url)]
    rfl
  · rw [add_zero, visitsOn, OrdMap.getElem?_insert]
    split_ifs with hurl
    · -- another day of the same URL
      have hne : misc.getDayStr utp.tp ≠ day := fun h => hadd ⟨not_lt.mp hold, hurl, h⟩
      rw [Option.elim_some, UrlDaysImpl.visitsOn_checkClean hday, UrlDaysImpl.visitsOn,
        UrlDaysImpl.getD_addVisits, if_neg hne, add_zero, hurl,
        visitsOn_eq_getD ud (UrlDaysImpl.visitsOn_ofUrl url)]
      rfl
    · rfl

/-! ### `merge` -/

theorem mergeEntry_localAt (misc : MiscTime) (now : ℤ) :
    OrdMap.LocalAt (mergeEntry DAYS misc now)
      fun _ (v : UrlDaysImpl) o => some ((o.getD default).merge misc (duration DAYS) v now) :=
  fun m p k => OrdMap.getElem?_alter m p.1 k _

theorem getElem?_merge (misc : MiscTime) (ud uds : UrlsDays DAYS) (now : ℤ) (url : Url) :
    (ud.merge misc uds now).urlsDays[url]?
      = (uds.urlsDays[url]?).elim ud.urlsDays[url]? fun v =>
        some ((ud.urlsDays[url]?.getD default).merge misc (duration DAYS) v now) :=
  OrdMap.getElem?_foldl_perm (mergeEntry_localAt misc now) (List.Perm.refl _) ud.urlsDays url

/-- The order in which the loop of `merge` walks the entries does not matter. -/
theorem merge_eq_foldl_perm {l : List (Url × UrlDaysImpl)} (hl : l.Perm uds.urlsDays.toList) :
    (ud.merge misc uds now).urlsDays = l.foldl (mergeEntry DAYS misc now) ud.urlsDays := by
  apply Std.ExtTreeMap.ext_getElem?
  intro url
  rw [getElem?_merge, OrdMap.getElem?_foldl_perm (mergeEntry_localAt misc now) hl]

theorem visitsOn_merge (hday : misc.getDayStr (now - duration DAYS) ≤ day) :
    (ud.merge misc uds now).visitsOn url day = ud.visitsOn url day + uds.visitsOn url day := by
  rw [visitsOn, getElem?_merge, visitsOn_eq_getD ud UrlDaysImpl.visitsOn_default]
  show _ = _ + (uds.urlsDays[url]?).elim 0 _
  cases uds.urlsDays[url]? with
  | none =>
    rw [Option.elim_none, Option.elim_none, add_zero]
    exact visitsOn_eq_getD ud UrlDaysImpl.visitsOn_default
  | some v => exact UrlDaysImpl.visitsOn_merge hday

/-- A merged entry has the URL of the left side's entry, none if the key is new there. -/
theorem url_merge {impl v : UrlDaysImpl} (hv : uds.urlsDays[url]? = some v)
    (himpl : (ud.merge misc uds now).urlsDays[url]? = some impl) :
    impl.url = (ud.urlsDays[url]?.getD default).url := by
  rw [getElem?_merge, hv, Option.elim_some] at himpl
  obtain rfl := Option.some.inj himpl
  exact UrlDaysImpl.url_merge

end UrlsDays

end Contentv1
