import Contentv1.Core.Equiv.UrlFreqStats
import Contentv1.Ldb.Equiv.UrlsDaysLast
import Contentv1.Scheduler.Equiv.FillUrlFreqStats

/-!
# The windows after seeding

Seeding hands over the days of one URL after those of another, all at one moment, while a
`UrlFreqMap` looks at the front of its queue only and expects its packs in the order of their times.

* `countOf_alive_storedPacks`: the packs within the window add up to `windowCount`.
* `urlFreq_seeded_eq_windowCount_iff`: the day window is exact after seeding exactly when no day
  within it is handed over before one that is not.
-/

namespace Contentv1

open UrlFreqMap UrlsDays

variable {misc : MiscTime} {ud : UrlsLastDays} {now : ℤ} {url : Url}

/-- The stored days of a URL that began at most 24 hours before `now`, in whole seconds. -/
def daysInWindow (misc : MiscTime) (ud : UrlsLastDays) (now : ℤ) (url : Url) : List (Str × ℤ) :=
  (ud.daysOf url).toList.filter fun p =>
    durationCastSecs (now - misc.tpFromDayStr p.1) ≤ 86400

/-- Their count, `none` if there is no such day. -/
def windowCount (misc : MiscTime) (ud : UrlsLastDays) (now : ℤ) (url : Url) : Option ℤ :=
  if (daysInWindow misc ud now url).isEmpty then none
  else some ((daysInWindow misc ud now url).map Prod.snd).sum

/-! ### The packs of a store -/

theorem countOf_eq_zero {q : List UrlTpStat} (h : ∀ uts ∈ q, uts.url ≠ url) :
    countOf q url = 0 := by
  have hnil : (q.filter fun uts => uts.url = url) = [] :=
    List.filter_eq_nil_iff.mpr fun uts huts => by simpa using h uts huts
  rw [countOf, hnil]
  rfl

/-- The packs of one entry under its key. -/
def entryPacks (misc : MiscTime) (p : Url × UrlDaysImpl) : List UrlTpStat :=
  p.2.dayVisits.toList.map fun q => ⟨p.1, misc.tpFromDayStr q.1, q.2⟩

theorem alive_storedPacks (misc : MiscTime) (ud : UrlsLastDays) (now : ℤ) :
    alive 86400 now (storedPacks misc ud now)
      = ud.urlsDays.toList.flatMap fun p =>
          (entryPacks misc p).filter fun uts => !expired 86400 now uts := by
  unfold alive storedPacks entryPacks
  rw [List.map_flatMap, List.filter_flatMap]
  simp only [List.map_map]
  rfl

/-- Within its own entry a URL has the counts of its days in the window. -/
theorem countOf_entryPacks (misc : MiscTime) (now : ℤ) (p : Url × UrlDaysImpl) :
    countOf ((entryPacks misc p).filter fun uts => !expired 86400 now uts) p.1
      = ((p.2.dayVisits.toList.filter fun q =>
          durationCastSecs (now - misc.tpFromDayStr q.1) ≤ 86400).map Prod.snd).sum := by
  unfold countOf entryPacks
  rw [List.filter_eq_self.mpr, List.filter_map, List.map_map]
  · have hwindow : p.2.dayVisits.toList.filter ((fun uts : UrlTpStat => !expired 86400 now uts) ∘
          fun q => ⟨p.1, misc.tpFromDayStr q.1, q.2⟩)
        = p.2.dayVisits.toList.filter fun q =>
            durationCastSecs (now - misc.tpFromDayStr q.1) ≤ 86400 := by
      apply List.filter_congr
      intro q _
      show (!decide (86400 < durationCastSecs (now - misc.tpFromDayStr q.1))) = _
      simp only [← decide_not, not_lt]
    rw [hwindow]
    rfl
  · intro uts huts
    obtain ⟨q, -, rfl⟩ := List.mem_map.mp (List.mem_of_mem_filter huts)
    exact decide_eq_true rfl

/-- The packs of other entries are of other URLs. -/
theorem countOf_flatMap_entryPacks_eq_zero {l : List (Url × UrlDaysImpl)}
    (h : url ∉ l.map Prod.fst) :
    countOf (l.flatMap fun p => (entryPacks misc p).filter fun uts => !expired 86400 now uts) url
      = 0 := by
  refine countOf_eq_zero fun uts huts hurl => h ?_
  obtain ⟨p, hp, huts⟩ := List.mem_flatMap.mp huts
  obtain ⟨q, -, rfl⟩ := List.mem_map.mp (List.mem_of_mem_filter huts)
  exact List.mem_map.mpr ⟨p, hp, hurl⟩

/-- **The packs within the window** add up to the counts of the days in it. -/
theorem countOf_alive_storedPacks (misc : MiscTime) (ud : UrlsLastDays) (now : ℤ) (url : Url) :
    countOf (alive 86400 now (storedPacks misc ud now)) url
      = ((daysInWindow misc ud now url).map Prod.snd).sum := by
  rw [alive_storedPacks]
  unfold daysInWindow daysOf
  cases hurl : ud.urlsDays[url]? with
  | none =>
    rw [countOf_flatMap_entryPacks_eq_zero
      (OrdMap.not_mem_map_fst_of_perm (List.Perm.refl _) hurl)]
    rfl
  | some impl =>
    have hmem := Std.ExtTreeMap.mem_toList_iff_getElem?_eq_some.mpr hurl
    have hnodup := ud.urlsDays.nodup_map_fst_toList
    obtain ⟨l, r, hsplit⟩ := List.append_of_mem hmem
    rw [hsplit, List.map_append, List.map_cons] at hnodup
    have hl : url ∉ l.map Prod.fst := fun hin =>
      (List.nodup_append.mp hnodup).2.2 url hin url List.mem_cons_self rfl
    have hr : url ∉ r.map Prod.fst :=
      (List.nodup_cons.mp (List.nodup_append.mp hnodup).2.1).1
    rw [hsplit, List.flatMap_append, List.flatMap_cons, countOf_append, countOf_append,
      countOf_flatMap_entryPacks_eq_zero hl, countOf_flatMap_entryPacks_eq_zero hr, zero_add,
      add_zero, Option.elim_some]
    exact countOf_entryPacks misc now (url, impl)

theorem one_le_cnt_of_mem_storedPacks
    (hcnt : ∀ (url : Url) (day : Str) (cnt : ℤ), (ud.daysOf url)[day]? = some cnt → 1 ≤ cnt) :
    ∀ p ∈ storedPacks misc ud now, 1 ≤ p.1.cnt := by
  intro p hp
  obtain ⟨entry, hentry, hp⟩ := List.mem_flatMap.mp hp
  obtain ⟨q, hq, rfl⟩ := List.mem_map.mp hp
  have hurl := Std.ExtTreeMap.mem_toList_iff_getElem?_eq_some.mp hentry
  have hday := Std.ExtTreeMap.mem_toList_iff_getElem?_eq_some.mp hq
  have hdays : ud.daysOf entry.1 = entry.2.dayVisits := by simp [daysOf, hurl]
  exact hcnt entry.1 q.1 q.2 (by rw [hdays]; exact hday)

/-- Counts of at least one make the sum of some days positive. -/
theorem windowCount_eq_stored
    (hcnt : ∀ (url : Url) (day : Str) (cnt : ℤ), (ud.daysOf url)[day]? = some cnt → 1 ≤ cnt)
    (now : ℤ) (url : Url) :
    windowCount misc ud now url = stored ((daysInWindow misc ud now url).map Prod.snd).sum := by
  have hpos : ∀ c ∈ (daysInWindow misc ud now url).map Prod.snd, 1 ≤ c := by
    intro c hc
    obtain ⟨p, hp, rfl⟩ := List.mem_map.mp hc
    have hget := Std.ExtTreeMap.mem_toList_iff_getElem?_eq_some.mp (List.mem_of_mem_filter hp)
    exact hcnt url p.1 p.2 hget
  unfold windowCount
  cases hdays : daysInWindow misc ud now url with
  | nil => rfl
  | cons p l =>
    rw [hdays, List.map_cons] at hpos
    have hrest : 0 ≤ (l.map Prod.snd).sum := by
      apply List.sum_nonneg
      intro c hc
      have := hpos c (List.mem_cons_of_mem _ hc)
      omega
    have hfirst := hpos p.2 List.mem_cons_self
    rw [List.map_cons, List.sum_cons, stored_of_pos (by omega)]
    rfl

/-! ### Seeding -/

/-- **Seeding is exact** exactly when no day within the window is handed over before one that is
not. -/
theorem urlFreq_seeded_eq_windowCount_iff (misc : MiscTime) (ud : UrlsLastDays)
    (hkey : ∀ (key : Url) (impl : UrlDaysImpl), ud.urlsDays[key]? = some impl → impl.url = key)
    (hcnt : ∀ (url : Url) (day : Str) (cnt : ℤ), (ud.daysOf url)[day]? = some cnt → 1 ≤ cnt)
    {calls : List (Url × List UrlTpStat)} (hcalls : calls.Perm (ud.iterateAll misc)) (now : ℤ) :
    (∀ url : Url,
        (UrlFreqStats.insertAll .init (fillUrlFreqStats calls now).1).dayMap.urlFreq[url]?
          = windowCount misc ud now url) ↔
      (calls.flatMap Prod.snd).Pairwise fun a b =>
        expired 86400 now b = true → expired 86400 now a = true := by
  have hfill : (fillUrlFreqStats calls now).1.Perm (storedPacks misc ud now) :=
    (agrees_iff.mpr hkey).fill calls now hcalls
  have hpacks : (fillUrlFreqStats calls now).1 = (calls.flatMap Prod.snd).map fun uts => (uts, now)
      := by
    rw [fillUrlFreqStats_eq, List.map_flatMap]
  have hnow : ∀ p ∈ (fillUrlFreqStats calls now).1, p.2 = now := by
    rw [hpacks]
    exact List.forall_mem_map.mpr fun _ _ => rfl
  have hpos : ∀ p ∈ (fillUrlFreqStats calls now).1, 0 < p.1.cnt := by
    intro p hp
    have hone := one_le_cnt_of_mem_storedPacks hcnt p (hfill.mem_iff.mp hp)
    omega
  have hiff := @urlFreq_insertAll_eq_iff 86400 now _ hnow hpos
  have halive : ∀ url, countOf (alive 86400 now (fillUrlFreqStats calls now).1) url
      = ((daysInWindow misc ud now url).map Prod.snd).sum := by
    intro url
    rw [← countOf_alive_storedPacks]
    exact countOf_perm ((hfill.map _).filter _) url
  have hfst : (fillUrlFreqStats calls now).1.map Prod.fst = calls.flatMap Prod.snd := by
    rw [hpacks, List.map_map]
    exact List.map_id _
  rw [hfst] at hiff
  rw [← hiff, insertAll_eq]
  apply forall_congr'
  intro url
  rw [windowCount_eq_stored hcnt, halive]

/-- A store with these counts by URL and day. -/
def storeOf (days : List (String × List (String × ℤ))) : UrlsLastDays where
  urlsDays := days.foldl (fun m p => m.insert (Str.ofString p.1)
    ⟨Str.ofString p.1, p.2.foldl (fun visits q => visits.insert (Str.ofString q.1) q.2) ∅⟩) ∅

/-- A URL of today and one of yesterday, which is out of the window an hour past midnight. -/
def todayAndYesterday : UrlsLastDays :=
  storeOf [("http://a/", [("1970-01-02", 1)]), ("http://b/", [("1970-01-01", 1)])]

/-- The second URL is handed over behind the first and never dropped. -/
theorem not_windowCount_todayAndYesterday :
    ¬ ∀ url : Url,
      (UrlFreqStats.insertAll .init (fillUrlFreqStats
          (todayAndYesterday.iterateAll .nearEpoch) (hours 25)).1).dayMap.urlFreq[url]?
        = windowCount .nearEpoch todayAndYesterday (hours 25) url := by
  intro h
  exact absurd (h (Str.ofString "http://b/")) (by decide)

/-- The days of yesterday come first: that of the first URL, then those of the second. -/
def yesterdayFirst : UrlsLastDays :=
  storeOf [("http://a/", [("1970-01-01", 2)]),
    ("http://b/", [("1970-01-01", 1), ("1970-01-02", 3)]), ("http://c/", [("1970-01-02", 1)])]

theorem urlFreq_seeded_eq_windowCount_iff_yesterdayFirst :
    (∀ url : Url,
        (UrlFreqStats.insertAll .init (fillUrlFreqStats
            (yesterdayFirst.iterateAll .nearEpoch) (hours 25)).1).dayMap.urlFreq[url]?
          = windowCount .nearEpoch yesterdayFirst (hours 25) url) ∧
      windowCount .nearEpoch yesterdayFirst (hours 25) (Str.ofString "http://a/") = none ∧
      windowCount .nearEpoch yesterdayFirst (hours 25) (Str.ofString "http://b/") = some 3 := by
  have hcnt : ∀ (key : Url) (impl : UrlDaysImpl), yesterdayFirst.urlsDays[key]? = some impl →
      ∀ (day : Str) (cnt : ℤ), impl.dayVisits[day]? = some cnt → 1 ≤ cnt := by
    decide +kernel
  refine ⟨(urlFreq_seeded_eq_windowCount_iff .nearEpoch yesterdayFirst (by decide +kernel)
    (fun url day cnt hday => ?_) (List.Perm.refl _) (hours 25)).mpr (by decide +kernel),
    by decide +kernel, by decide +kernel⟩
  unfold daysOf at hday
  cases hurl : yesterdayFirst.urlsDays[url]? with
  | none =>
    rw [hurl] at hday
    cases Std.ExtTreeMap.getElem?_empty.symm.trans hday
  | some impl =>
    rw [hurl] at hday
    exact hcnt url impl hurl day cnt hday

end Contentv1
