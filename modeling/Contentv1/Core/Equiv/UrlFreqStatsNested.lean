import Contentv1.Core.Equiv.UrlFreqStatsTop
import Contentv1.Core.Equiv.UrlFreqMapRuns
import Mathlib.Data.List.Perm.Subperm
import Mathlib.Data.Finset.Card

/-!
# The hour is part of the day

Both windows take the same visits, and what has expired for the day has expired for the hour.
Merging keeps that, whatever it brings together.

* `Nested`: every visit of the hour is one of the day; `nested_of_reachable`: it holds of all
  statistics, whether they insert or merge.
* `max_of_reachable`: `max()` is the number of URLs of both windows.
* `covered_of_merged`: where insertions and merges alone have built the maps, each visit of the hour
  has one of its own in the day, so no URL counts more in the hour.
-/

namespace Contentv1

open UrlFreqMap SlidingWindow

variable {maps a : LastPerMaps}

/-- The maps that the calls on `UrlFreqStats` build. -/
inductive UrlFreqStats.Reachable : LastPerMaps → Prop
  | init : Reachable .init
  | insert {maps : LastPerMaps} (h : Reachable maps) (urlVisit : UrlVisit) (now : ℤ) :
      Reachable (maps.insert urlVisit now)
  | insertVisitsPack {maps : LastPerMaps} (h : Reachable maps) (uts : UrlTpStat)
      (hcnt : 1 ≤ uts.cnt) (now : ℤ) : Reachable (maps.insertVisitsPack uts now)

/-- The global maps that the rounds of `UrlFreqStatsLF` build. -/
inductive UrlFreqStatsLF.Reachable : LastPerMaps → Prop
  | init : Reachable .init
  | mergeRound {maps : LastPerMaps} (h : Reachable maps) (events : List (UrlTpStat × ℤ))
      (hcnt : ∀ p ∈ events, 1 ≤ p.1.cnt) : Reachable (mergeRound maps events)

namespace LastPerMaps

/-- The states of either kind of statistics. -/
def Reachable (maps : LastPerMaps) : Prop :=
  UrlFreqStats.Reachable maps ∨ UrlFreqStatsLF.Reachable maps

/-- Both maps mirror their queues, and every visit of the hour is one of the day. -/
structure Nested (maps : LastPerMaps) : Prop where
  hour : Mirrors maps.hourMap
  day : Mirrors maps.dayMap
  subset : maps.hourMap.utsQ ⊆ maps.dayMap.utsQ

/-- What insertions keep: the queue of the hour is the end of that of the day. -/
structure Inserted (maps : LastPerMaps) : Prop where
  hour : Mirrors maps.hourMap
  day : Mirrors maps.dayMap
  hourWindow : maps.hourMap.window = 3600
  dayWindow : maps.dayMap.window = 86400
  suffix : maps.hourMap.utsQ <:+ maps.dayMap.utsQ

theorem inserted_init : Inserted .init where
  hour := mirrors_ofWindow 3600
  day := mirrors_ofWindow 86400
  hourWindow := rfl
  dayWindow := rfl
  suffix := List.suffix_refl []

theorem Inserted.insertVisitsPack (h : Inserted maps) (uts : UrlTpStat) (hcnt : 1 ≤ uts.cnt)
    (now : ℤ) : Inserted (maps.insertVisitsPack uts now) where
  hour := h.hour.insertVisitsPack hcnt
  day := h.day.insertVisitsPack hcnt
  hourWindow := h.hourWindow
  dayWindow := h.dayWindow
  suffix := by
    obtain ⟨old, hold⟩ := h.suffix
    unfold LastPerMaps.insertVisitsPack
    rw [utsQ_insertVisitsPack, utsQ_insertVisitsPack, h.hourWindow, h.dayWindow]
    apply clean_suffix_clean
    · intro uts hexp
      have hage : 86400 < durationCastSecs (now - uts.tp) := of_decide_eq_true hexp
      exact decide_eq_true (show (3600 : ℤ) < durationCastSecs (now - uts.tp) by omega)
    · exact ⟨old, by rw [← List.append_assoc, hold]⟩

theorem inserted_of_reachable (h : UrlFreqStats.Reachable maps) : Inserted maps := by
  induction h with
  | init => exact inserted_init
  | insert _ urlVisit now ih => exact ih.insertVisitsPack (.ofUrlVisit urlVisit) le_rfl now
  | insertVisitsPack _ uts hcnt now ih => exact ih.insertVisitsPack uts hcnt now

theorem Inserted.nested (h : Inserted maps) : Nested maps :=
  ⟨h.hour, h.day, h.suffix.subset⟩

theorem Nested.merge (h : Nested maps) (ha : Nested a) : Nested (maps.merge a) where
  hour := h.hour.merge ha.hour
  day := h.day.merge ha.day
  subset := by
    intro uts huts
    rw [LastPerMaps.merge, utsQ_merge_perm.mem_iff, List.mem_append] at huts ⊢
    exact huts.imp (fun hmem => h.subset hmem) fun hmem => ha.subset hmem

/-- The maps of a round. -/
theorem inserted_foldl_accEvent {events : List (UrlTpStat × ℤ)} (hcnt : ∀ p ∈ events, 1 ≤ p.1.cnt)
    (h : Inserted maps) :
    Inserted (events.foldl (fun ufms p => UrlFreqStatsLF.accEvent ufms p.1 p.2) maps) := by
  induction events generalizing maps with
  | nil => exact h
  | cons p events ih =>
    rw [List.foldl_cons]
    exact ih (fun q hq => hcnt q (List.mem_cons_of_mem p hq))
      (h.insertVisitsPack p.1 (hcnt p List.mem_cons_self) p.2)

/-- **The hour is part of the day** in all states of the statistics. -/
theorem nested_of_reachable (h : maps.Reachable) : Nested maps := by
  rcases h with h | h
  · exact (inserted_of_reachable h).nested
  · induction h with
    | init => exact inserted_init.nested
    | mergeRound _ events hcnt ih =>
      exact ih.merge (inserted_foldl_accEvent hcnt inserted_init).nested

theorem Nested.urlFreq_subset (h : Nested maps) {url : Url} (hurl : url ∈ maps.hourMap.urlFreq) :
    url ∈ maps.dayMap.urlFreq := by
  obtain ⟨uts, huts, heq⟩ := h.hour.mem_iff.mp hurl
  exact h.day.mem_iff.mpr ⟨uts, h.subset huts, heq⟩

theorem Nested.max_eq (hnested : Nested maps) : maps.max = maps.urls.length := by
  have hperm : maps.urls.Perm maps.dayMap.urlFreq.keys := by
    refine (List.perm_ext_iff_of_nodup (nodup_urls maps)
      Std.ExtTreeMap.nodup_keys).mpr fun url => ?_
    rw [mem_urls_iff, Std.ExtTreeMap.mem_keys]
    exact or_iff_right_of_imp hnested.urlFreq_subset
  have hle : maps.hourMap.urlFreq.keys.length ≤ maps.dayMap.urlFreq.keys.length := by
    have hnodup : maps.hourMap.urlFreq.keys.Nodup := Std.ExtTreeMap.nodup_keys
    refine (hnodup.subperm fun url hurl => ?_).length_le
    exact Std.ExtTreeMap.mem_keys.mpr (hnested.urlFreq_subset (Std.ExtTreeMap.mem_keys.mp hurl))
  rw [Std.ExtTreeMap.length_keys, Std.ExtTreeMap.length_keys] at hle
  rw [hperm.length_eq, Std.ExtTreeMap.length_keys]
  unfold LastPerMaps.max UrlFreqMap.size
  exact max_eq_right (by exact_mod_cast hle)

/-- **`max()` counts all URLs**, though it is the larger of two numbers. -/
theorem max_of_reachable (h : maps.Reachable) : maps.max = maps.urls.length :=
  (nested_of_reachable h).max_eq

/-! ### Counts of the hour and of the day -/

/-- The maps that insertions build, and what merging makes of such maps. -/
inductive Merged : LastPerMaps → Prop
  | inserted {maps : LastPerMaps} (h : UrlFreqStats.Reachable maps) : Merged maps
  | merge {maps a : LastPerMaps} (h : Merged maps) (ha : Merged a) : Merged (maps.merge a)

theorem Merged.nested (h : Merged maps) : Nested maps := by
  induction h with
  | inserted h => exact (inserted_of_reachable h).nested
  | merge _ _ ih iha => exact ih.merge iha

/-- The day holds every visit of the hour, and as often. -/
theorem Merged.subperm (h : Merged maps) : maps.hourMap.utsQ.Subperm maps.dayMap.utsQ := by
  induction h with
  | inserted h => exact (inserted_of_reachable h).suffix.sublist.subperm
  | merge _ _ ih iha =>
    exact utsQ_merge_perm.subperm.trans ((ih.append iha).trans utsQ_merge_perm.symm.subperm)

/-- **The hour is covered by the day.**  In maps built by insertions in any order of times, and in
what merging makes of them, no URL has a larger count in the hour than in the day, and `max()` is
the number of the URLs that both windows list. -/
theorem covered_of_merged (h : Merged maps) :
    (∀ url : Url, (maps.hourMap.urlFreq[url]?).getD 0 ≤ (maps.dayMap.urlFreq[url]?).getD 0) ∧
      ∀ hourUrls dayUrls, maps.GetTopHourUrls hourUrls → maps.GetTopDayUrls dayUrls →
        maps.max = ((hourUrls ++ dayUrls).map Prod.fst).toFinset.card := by
  have hnested := h.nested
  refine ⟨fun url => ?_, fun hourUrls dayUrls hhour hday => ?_⟩
  · rw [hnested.hour.freq, hnested.day.freq, getD_stored (countOf_nonneg hnested.hour.pos url),
      getD_stored (countOf_nonneg hnested.day.pos url)]
    exact countOf_le_of_subperm h.subperm hnested.day.pos url
  · have hurls : ((hourUrls ++ dayUrls).map Prod.fst).toFinset = maps.urls.toFinset := by
      ext url
      have hmem : ∀ {ufm : UrlFreqMap} {sorted : List UrlFreq}, ufm.GetTopUrls sorted →
          (url ∈ sorted.map Prod.fst ↔ url ∈ ufm.urlFreq) := by
        rintro ufm sorted ⟨hperm, -⟩
        rw [(hperm.map Prod.fst).mem_iff, Std.ExtTreeMap.map_fst_toList_eq_keys,
          Std.ExtTreeMap.mem_keys]
      rw [List.mem_toFinset, List.mem_toFinset, List.map_append, List.mem_append, hmem hhour,
        hmem hday, mem_urls_iff]
    rw [hnested.max_eq, hurls, List.toFinset_card_of_nodup (nodup_urls maps)]

/-- An old visit and then a fresh one of the same URL; merged with a visit of another. -/
def oldAndFresh : LastPerMaps :=
  ((LastPerMaps.init.insert ⟨Str.ofString "http://a/", 0⟩ (hours 2)).insert
    ⟨Str.ofString "http://a/", hours 2⟩ (hours 2)).merge
      (LastPerMaps.init.insert ⟨Str.ofString "http://b/", hours 2⟩ (hours 2))

theorem covered_of_merged_oldAndFresh :
    oldAndFresh.hourMap.urlFreq[Str.ofString "http://a/"]? = some 1 ∧
      oldAndFresh.dayMap.urlFreq[Str.ofString "http://a/"]? = some 2 ∧
      ∀ url : Url, (oldAndFresh.hourMap.urlFreq[url]?).getD 0
        ≤ (oldAndFresh.dayMap.urlFreq[url]?).getD 0 := by
  refine ⟨by decide +kernel, by decide +kernel, (covered_of_merged ?_).1⟩
  exact .merge (.inserted (.insert (.insert .init _ _) _ _)) (.inserted (.insert .init _ _))

end LastPerMaps

end Contentv1
