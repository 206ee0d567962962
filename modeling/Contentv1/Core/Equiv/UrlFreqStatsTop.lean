import Contentv1.Core.UrlFreqStats
import Contentv1.Core.Equiv.UrlFreqMap
import Contentv1.Lib.Pour

/-!
# What `getTopUrls` of the statistics reports

The URLs of the hour and then those of the day are poured into one map of at most `limit` keys.
Once it is full the counts of the day are not added any more, not even to URLs that are in it.

* `topOf_of_getTopUrls`: the URLs are as many as there should be, distinct and in order.
* `trueTop_iff`: the exact extent of the slip.  Every result has the true counts exactly when every
  URL of both windows is either left out or come to in the day before the map is full.
-/

namespace Contentv1.LastPerMaps

open UrlFreqMap

variable {maps : LastPerMaps} {limit : ℤ} {filter : Url → Bool} {r : List UrlFreq} {url : Url}

/-! ### The loops as pouring -/

/-- What the filter leaves. -/
def unfiltered (filter : Url → Bool) (l : List UrlFreq) : List UrlFreq :=
  l.filter fun uf => !filter uf.1

/-- What the day's loop does to the entry of a URL. -/
def addDay (uf : UrlFreq) (o : Option UrlFreq) : UrlFreq := o.elim uf fun r => (r.1, r.2 + uf.2)

/-- The map of the hour's loop, for what the filter leaves. -/
def hourPoured (n : ℕ) (hour : List UrlFreq) : OrdMap Url UrlFreq :=
  OrdMap.fill (fun uf _ => uf) n ∅ hour

/-- The map of both loops, for what the filter leaves. -/
def bothPoured (n : ℕ) (hour day : List UrlFreq) : OrdMap Url UrlFreq :=
  OrdMap.fill addDay n (hourPoured n hour) day

theorem foldl_collectHour (l : List UrlFreq) (m : OrdMap Url UrlFreq) :
    l.foldl (collectHour limit filter) m
      = OrdMap.fill (fun uf _ => uf) (limitSize limit) m (unfiltered filter l) := by
  induction l generalizing m with
  | nil => rfl
  | cons uf l ih =>
    rw [List.foldl_cons, ih]
    unfold collectHour unfiltered OrdMap.fill
    cases hfilter : filter uf.1 with
    | true => simp [hfilter]
    | false => simp [hfilter, OrdMap.put_eq_insert]

theorem foldl_collectDay (l : List UrlFreq) (m : OrdMap Url UrlFreq) :
    l.foldl (collectDay limit filter) m
      = OrdMap.fill addDay (limitSize limit) m (unfiltered filter l) := by
  induction l generalizing m with
  | nil => rfl
  | cons uf l ih =>
    rw [List.foldl_cons, ih]
    unfold collectDay unfiltered OrdMap.fill
    cases hfilter : filter uf.1 with
    | true => simp [hfilter]
    | false => simp [hfilter, OrdMap.put, addDay]

theorem getTopUrls_iff :
    maps.GetTopUrls limit filter r ↔
      ∃ hourSorted daySorted, maps.hourMap.GetTopUrls hourSorted ∧
        maps.dayMap.GetTopUrls daySorted ∧
        r.Perm ((bothPoured (limitSize limit) (unfiltered filter hourSorted)
          (unfiltered filter daySorted)).toList.map Prod.snd) ∧
        r.Pairwise fun a b => b.2 ≤ a.2 := by
  unfold GetTopUrls bothPoured hourPoured
  simp only [foldl_collectHour, foldl_collectDay]

/-! ### What is in the map -/

section Poured

variable {n : ℕ} {hour day : List UrlFreq} {c : ℤ}

/-- The URLs of the day that the map comes to. -/
def dayPoured (n : ℕ) (hour day : List UrlFreq) : List UrlFreq :=
  poured (hourPoured n hour).isNew (n - (hourPoured n hour).size) day

theorem isNew_empty : (∅ : OrdMap Url UrlFreq).isNew (β := ℤ) = fun _ => true := by
  funext uf
  unfold OrdMap.isNew
  rw [Std.ExtTreeMap.contains_empty, Bool.not_false]

theorem poured_hour (n : ℕ) (hour : List UrlFreq) :
    poured (∅ : OrdMap Url UrlFreq).isNew (n - (∅ : OrdMap Url UrlFreq).size) hour
      = hour.take n := by
  rw [isNew_empty, Std.ExtTreeMap.size_empty, Nat.sub_zero, poured_true]

theorem getElem?_hourPoured_of_mem (hhour : (hour.map Prod.fst).Nodup)
    (hurl : (url, c) ∈ hour.take n) : (hourPoured n hour)[url]? = some (url, c) := by
  rw [← poured_hour] at hurl
  exact OrdMap.getElem?_fill_of_mem hhour hurl

theorem getElem?_hourPoured_of_not_mem (hhour : (hour.map Prod.fst).Nodup)
    (hurl : url ∉ (hour.take n).map Prod.fst) : (hourPoured n hour)[url]? = none := by
  rw [← poured_hour] at hurl
  exact (OrdMap.getElem?_fill_of_not_mem hhour hurl).trans Std.ExtTreeMap.getElem?_empty

theorem size_hourPoured (hhour : (hour.map Prod.fst).Nodup) :
    (hourPoured n hour).size = min n hour.length := by
  unfold hourPoured
  rw [OrdMap.size_fill hhour, isNew_empty, Std.ExtTreeMap.size_empty, Nat.sub_zero, Nat.zero_add,
    List.countP_true]

theorem isNew_hourPoured_iff (hhour : (hour.map Prod.fst).Nodup) {uf : UrlFreq} :
    (hourPoured n hour).isNew uf = true ↔ uf.1 ∉ (hour.take n).map Prod.fst := by
  unfold OrdMap.isNew
  rw [Bool.not_eq_true', ← Bool.not_eq_true, Std.ExtTreeMap.contains_iff_mem,
    Std.ExtTreeMap.mem_iff_isSome_getElem?]
  refine not_congr ⟨fun hsome => ?_, fun hmem => ?_⟩
  · by_contra hnot
    rw [getElem?_hourPoured_of_not_mem hhour hnot] at hsome
    cases hsome
  · obtain ⟨⟨url, c⟩, hurl, rfl⟩ := List.mem_map.mp hmem
    rw [getElem?_hourPoured_of_mem hhour hurl]
    rfl

/-- What a URL of the hour's loop is reported with. -/
theorem getElem?_bothPoured_of_hour (hhour : (hour.map Prod.fst).Nodup)
    (hday : (day.map Prod.fst).Nodup) (hurl : (url, c) ∈ hour.take n) :
    (∃ d, (url, d) ∈ dayPoured n hour day ∧
        (bothPoured n hour day)[url]? = some (url, c + d)) ∨
      (url ∉ (dayPoured n hour day).map Prod.fst ∧
        (bothPoured n hour day)[url]? = some (url, c)) := by
  have hget := getElem?_hourPoured_of_mem hhour hurl
  by_cases hmem : url ∈ (dayPoured n hour day).map Prod.fst
  · obtain ⟨⟨url', d⟩, hd, rfl⟩ := List.mem_map.mp hmem
    refine Or.inl ⟨d, hd, ?_⟩
    unfold bothPoured
    rw [OrdMap.getElem?_fill_of_mem hday hd, hget]
    rfl
  · refine Or.inr ⟨hmem, ?_⟩
    unfold bothPoured
    rw [OrdMap.getElem?_fill_of_not_mem hday hmem, hget]

/-- What a URL of the day's loop alone is reported with. -/
theorem getElem?_bothPoured_of_day (hhour : (hour.map Prod.fst).Nodup)
    (hday : (day.map Prod.fst).Nodup) (hurl : url ∉ (hour.take n).map Prod.fst) :
    (∃ d, (url, d) ∈ dayPoured n hour day ∧ (bothPoured n hour day)[url]? = some (url, d)) ∨
      (url ∉ (dayPoured n hour day).map Prod.fst ∧ (bothPoured n hour day)[url]? = none) := by
  have hget := getElem?_hourPoured_of_not_mem hhour hurl
  by_cases hmem : url ∈ (dayPoured n hour day).map Prod.fst
  · obtain ⟨⟨url', d⟩, hd, rfl⟩ := List.mem_map.mp hmem
    refine Or.inl ⟨d, hd, ?_⟩
    unfold bothPoured
    rw [OrdMap.getElem?_fill_of_mem hday hd, hget]
    rfl
  · refine Or.inr ⟨hmem, ?_⟩
    unfold bothPoured
    rw [OrdMap.getElem?_fill_of_not_mem hday hmem, hget]

/-- The entries know their keys. -/
theorem fst_of_getElem?_bothPoured (hhour : (hour.map Prod.fst).Nodup)
    (hday : (day.map Prod.fst).Nodup) (url : Url) (uf : UrlFreq)
    (huf : (bothPoured n hour day)[url]? = some uf) : uf.1 = url := by
  by_cases hmem : url ∈ (hour.take n).map Prod.fst
  · obtain ⟨⟨url, c⟩, hc, rfl⟩ := List.mem_map.mp hmem
    rcases getElem?_bothPoured_of_hour hhour hday hc with ⟨d, -, heq⟩ | ⟨-, heq⟩
    · obtain rfl := Option.some.inj (heq.symm.trans huf)
      rfl
    · obtain rfl := Option.some.inj (heq.symm.trans huf)
      rfl
  · rcases getElem?_bothPoured_of_day hhour hday hmem with ⟨d, -, heq⟩ | ⟨-, heq⟩
    · obtain rfl := Option.some.inj (heq.symm.trans huf)
      rfl
    · rw [heq] at huf
      cases huf

/-- The values of the map, in any order. -/
theorem mem_values_iff (hhour : (hour.map Prod.fst).Nodup) (hday : (day.map Prod.fst).Nodup)
    (hr : r.Perm ((bothPoured n hour day).toList.map Prod.snd)) {uf : UrlFreq} :
    uf ∈ r ↔ (bothPoured n hour day)[uf.1]? = some uf := by
  rw [hr.mem_iff]
  exact OrdMap.mem_map_snd_toList_iff (fst_of_getElem?_bothPoured hhour hday)

theorem nodup_values (hhour : (hour.map Prod.fst).Nodup) (hday : (day.map Prod.fst).Nodup)
    (hr : r.Perm ((bothPoured n hour day).toList.map Prod.snd)) : (r.map Prod.fst).Nodup :=
  (hr.map Prod.fst).nodup_iff.mpr
    (OrdMap.nodup_map_key_map_snd_toList (fst_of_getElem?_bothPoured hhour hday))

/-- The map is full, or holds every URL of both windows. -/
theorem size_bothPoured (hhour : (hour.map Prod.fst).Nodup) (hday : (day.map Prod.fst).Nodup) :
    (bothPoured n hour day).size
      = min n (hour.length + day.countP fun uf => decide (uf.1 ∉ hour.map Prod.fst)) := by
  unfold bothPoured
  rw [OrdMap.size_fill hday, size_hourPoured hhour]
  rcases le_or_gt n hour.length with hle | hlt
  · omega
  · -- all URLs of the hour are in the map
    have hnew : day.countP (hourPoured n hour).isNew
        = day.countP fun uf => decide (uf.1 ∉ hour.map Prod.fst) := by
      apply List.countP_congr
      intro uf _
      rw [isNew_hourPoured_iff hhour, List.take_of_length_le hlt.le, decide_eq_true_iff]
    rw [hnew]
    omega

end Poured

/-! ### URLs, their number and their order -/

/-- The URLs of both windows, each once. -/
def urls (maps : LastPerMaps) : List Url := maps.hourMap.urlFreq.keys ∪ maps.dayMap.urlFreq.keys

/-- The count of a URL in the hour and the one in the day. -/
def countBoth (maps : LastPerMaps) (url : Url) : ℤ :=
  (maps.hourMap.urlFreq[url]?).getD 0 + (maps.dayMap.urlFreq[url]?).getD 0

/-- Distinct unfiltered URLs, as many as there are up to `n`, most frequent first. -/
structure TopOf (maps : LastPerMaps) (n : ℕ) (filter : Url → Bool) (r : List UrlFreq) : Prop where
  nodup : (r.map Prod.fst).Nodup
  mem : ∀ uf ∈ r, uf.1 ∈ maps.urls ∧ filter uf.1 = false
  length : r.length = min n (maps.urls.filter fun url => !filter url).length
  sorted : r.Pairwise fun a b => b.2 ≤ a.2

/-- All that `getTopUrls` is to report: the URLs with the counts of both windows. -/
structure TrueTop (maps : LastPerMaps) (n : ℕ) (filter : Url → Bool) (r : List UrlFreq) : Prop
    extends TopOf maps n filter r where
  count : ∀ uf ∈ r, uf.2 = maps.countBoth uf.1

theorem mem_urls_iff :
    url ∈ maps.urls ↔ url ∈ maps.hourMap.urlFreq ∨ url ∈ maps.dayMap.urlFreq := by
  unfold urls
  rw [List.mem_union_iff, Std.ExtTreeMap.mem_keys, Std.ExtTreeMap.mem_keys]

theorem nodup_urls (maps : LastPerMaps) : maps.urls.Nodup := by
  have hkeys : maps.dayMap.urlFreq.keys.Nodup := Std.ExtTreeMap.nodup_keys
  exact hkeys.union _

section Window

variable {ufm : UrlFreqMap} {sorted : List UrlFreq}

theorem nodup_unfiltered (filter : Url → Bool) (h : ufm.GetTopUrls sorted) :
    ((unfiltered filter sorted).map Prod.fst).Nodup :=
  (OrdMap.nodup_map_fst_of_perm h.1).sublist (List.filter_sublist.map Prod.fst)

theorem mem_unfiltered_iff (h : ufm.GetTopUrls sorted) {c : ℤ} :
    (url, c) ∈ unfiltered filter sorted ↔ ufm.urlFreq[url]? = some c ∧ filter url = false := by
  unfold unfiltered
  rw [List.mem_filter, OrdMap.mem_perm_iff h.1, Bool.not_eq_true']

theorem mem_map_fst_unfiltered_iff (h : ufm.GetTopUrls sorted) :
    url ∈ (unfiltered filter sorted).map Prod.fst ↔ url ∈ ufm.urlFreq ∧ filter url = false := by
  rw [List.mem_map, Std.ExtTreeMap.mem_iff_isSome_getElem?, Option.isSome_iff_exists]
  constructor
  · rintro ⟨⟨url, c⟩, hmem, rfl⟩
    obtain ⟨hget, hfilter⟩ := (mem_unfiltered_iff h).mp hmem
    exact ⟨⟨c, hget⟩, hfilter⟩
  · rintro ⟨⟨c, hget⟩, hfilter⟩
    exact ⟨(url, c), (mem_unfiltered_iff h).mpr ⟨hget, hfilter⟩, rfl⟩

theorem countP_unfiltered (filter : Url → Bool) (h : ufm.GetTopUrls sorted) (p : UrlFreq → Bool) :
    (unfiltered filter sorted).countP p
      = ufm.urlFreq.toList.countP fun uf => p uf && !filter uf.1 := by
  unfold unfiltered
  rw [List.countP_filter, h.1.countP_eq]

theorem sorted_unfiltered (filter : Url → Bool) (h : ufm.GetTopUrls sorted) :
    (unfiltered filter sorted).Pairwise fun a b => b.2 ≤ a.2 := h.2.filter _

end Window

section Results

variable {hourSorted daySorted : List UrlFreq}

/-- The URLs of the hour and those of the day alone are all there are. -/
theorem length_urls (hhour : maps.hourMap.GetTopUrls hourSorted)
    (hday : maps.dayMap.GetTopUrls daySorted) :
    (maps.urls.filter fun url => !filter url).length
      = (unfiltered filter hourSorted).length + (unfiltered filter daySorted).countP
          fun uf => decide (uf.1 ∉ (unfiltered filter hourSorted).map Prod.fst) := by
  set hour := unfiltered filter hourSorted
  set day := unfiltered filter daySorted
  have hnodup : (hour.map Prod.fst ++ (day.filter fun uf => decide
      (uf.1 ∉ hour.map Prod.fst)).map Prod.fst).Nodup := by
    refine List.nodup_append.mpr ⟨nodup_unfiltered filter hhour, ?_, ?_⟩
    · exact (nodup_unfiltered filter hday).sublist (List.filter_sublist.map Prod.fst)
    · rintro url hurl _ hmem rfl
      obtain ⟨uf, huf, rfl⟩ := List.mem_map.mp hmem
      exact of_decide_eq_true (List.mem_filter.mp huf).2 hurl
  have hperm : (maps.urls.filter fun url => !filter url).Perm (hour.map Prod.fst ++
      (day.filter fun uf => decide (uf.1 ∉ hour.map Prod.fst)).map Prod.fst) := by
    refine (List.perm_ext_iff_of_nodup ((nodup_urls maps).filter _) hnodup).mpr fun url => ?_
    have hfilter : url ∈ (day.filter fun uf => decide (uf.1 ∉ hour.map Prod.fst)).map Prod.fst ↔
        url ∈ day.map Prod.fst ∧ url ∉ hour.map Prod.fst := by
      simp only [List.mem_map, List.mem_filter, decide_eq_true_iff]
      constructor
      · rintro ⟨uf, ⟨huf, hnot⟩, rfl⟩
        exact ⟨⟨uf, huf, rfl⟩, hnot⟩
      · rintro ⟨⟨uf, huf, rfl⟩, hnot⟩
        exact ⟨uf, ⟨huf, hnot⟩, rfl⟩
    rw [List.mem_filter, List.mem_append, hfilter, mem_map_fst_unfiltered_iff hhour,
      mem_map_fst_unfiltered_iff hday, mem_urls_iff, Bool.not_eq_true']
    tauto
  rw [hperm.length_eq, List.length_append, List.length_map, List.length_map,
    ← List.countP_eq_length_filter]

theorem topOf_of_sorted (hhour : maps.hourMap.GetTopUrls hourSorted)
    (hday : maps.dayMap.GetTopUrls daySorted) {n : ℕ}
    (hr : r.Perm ((bothPoured n (unfiltered filter hourSorted)
      (unfiltered filter daySorted)).toList.map Prod.snd))
    (hsorted : r.Pairwise fun a b => b.2 ≤ a.2) : TopOf maps n filter r := by
  have hhour' := nodup_unfiltered filter hhour
  have hday' := nodup_unfiltered filter hday
  refine ⟨nodup_values hhour' hday' hr, fun uf huf => ?_, ?_, hsorted⟩
  · have hget := (mem_values_iff hhour' hday' hr).mp huf
    by_cases hmem : uf.1 ∈ ((unfiltered filter hourSorted).take n).map Prod.fst
    · have hurl := (mem_map_fst_unfiltered_iff hhour).mp
        (List.map_subset Prod.fst (List.take_subset n _) hmem)
      exact ⟨mem_urls_iff.mpr (Or.inl hurl.1), hurl.2⟩
    · rcases getElem?_bothPoured_of_day hhour' hday' hmem with ⟨d, hd, -⟩ | ⟨-, hnone⟩
      · have hurl := (mem_unfiltered_iff hday).mp ((prefix_poured _ _ _).subset hd)
        refine ⟨mem_urls_iff.mpr (Or.inr ?_), hurl.2⟩
        rw [Std.ExtTreeMap.mem_iff_isSome_getElem?, hurl.1]
        rfl
      · rw [hnone] at hget
        cases hget
  · rw [hr.length_eq, List.length_map, Std.ExtTreeMap.length_toList, size_bothPoured hhour' hday',
      ← length_urls hhour hday]

/-- **As many as there should be.**  Whatever the limit, the URLs are distinct, unfiltered and in
order, and there are as many as the limit and the windows allow. -/
theorem topOf_of_getTopUrls (h : maps.GetTopUrls limit filter r) :
    TopOf maps (limitSize limit) filter r := by
  obtain ⟨hourSorted, daySorted, hhour, hday, hr, hsorted⟩ := getTopUrls_iff.mp h
  exact topOf_of_sorted hhour hday hr hsorted

end Results

/-! ### Counts -/

/-- How many unfiltered URLs the hour has. -/
def hourAll (maps : LastPerMaps) (filter : Url → Bool) : ℕ :=
  maps.hourMap.urlFreq.toList.countP fun uf => !filter uf.1

/-- How many unfiltered URLs have more visits in the hour than `c`. -/
def hourAbove (maps : LastPerMaps) (filter : Url → Bool) (c : ℤ) : ℕ :=
  maps.hourMap.urlFreq.toList.countP fun uf => decide (c < uf.2) && !filter uf.1

/-- How many unfiltered URLs that the hour does not have have `d` visits or more in the day. -/
def dayOnlyFrom (maps : LastPerMaps) (filter : Url → Bool) (d : ℤ) : ℕ :=
  maps.dayMap.urlFreq.toList.countP fun uf =>
    (decide (uf.1 ∉ maps.hourMap.urlFreq) && decide (d ≤ uf.2)) && !filter uf.1

/-- Every URL of both windows has too many before it in the hour to be taken, or few enough before
it in the day for its count to be added. -/
def CountsReached (maps : LastPerMaps) (n : ℕ) (filter : Url → Bool) : Prop :=
  ∀ (url : Url) (c d : ℤ), filter url = false → maps.hourMap.urlFreq[url]? = some c →
    maps.dayMap.urlFreq[url]? = some d → d ≠ 0 →
    n ≤ maps.hourAbove filter c ∨ maps.hourAll filter + maps.dayOnlyFrom filter d < n

section Counts

variable {hourSorted daySorted : List UrlFreq} {n : ℕ} {c d : ℤ}

theorem countBoth_of_some (hc : maps.hourMap.urlFreq[url]? = some c)
    (hd : maps.dayMap.urlFreq[url]? = some d) : maps.countBoth url = c + d := by
  unfold countBoth
  rw [hc, hd]
  rfl

/-- The counts are true exactly when the day's loop comes to all that the hour's loop took. -/
theorem counts_iff (hhour : maps.hourMap.GetTopUrls hourSorted)
    (hday : maps.dayMap.GetTopUrls daySorted)
    (hr : r.Perm ((bothPoured n (unfiltered filter hourSorted)
      (unfiltered filter daySorted)).toList.map Prod.snd)) :
    (∀ uf ∈ r, uf.2 = maps.countBoth uf.1) ↔
      ∀ (url : Url) (c d : ℤ), (url, c) ∈ (unfiltered filter hourSorted).take n →
        (url, d) ∈ unfiltered filter daySorted → d ≠ 0 →
          (url, d) ∈ dayPoured n (unfiltered filter hourSorted) (unfiltered filter daySorted) := by
  set hour := unfiltered filter hourSorted with hhourEq
  set day := unfiltered filter daySorted with hdayEq
  have hhour' : (hour.map Prod.fst).Nodup := nodup_unfiltered filter hhour
  have hday' : (day.map Prod.fst).Nodup := nodup_unfiltered filter hday
  have hcome : dayPoured n hour day ⊆ day := (prefix_poured _ _ _).subset
  constructor
  · intro hcount url c d hc hd hne
    obtain ⟨hgetc, -⟩ := (mem_unfiltered_iff hhour).mp (List.mem_of_mem_take hc)
    obtain ⟨hgetd, -⟩ := (mem_unfiltered_iff hday).mp hd
    rcases getElem?_bothPoured_of_hour hhour' hday' hc with ⟨d', hd', -⟩ | ⟨-, heq⟩
    · obtain ⟨hgetd', -⟩ := (mem_unfiltered_iff hday).mp (hcome hd')
      obtain rfl := Option.some.inj (hgetd.symm.trans hgetd')
      exact hd'
    · -- reported with the count of the hour alone
      have hmem : (url, c) ∈ r := (mem_values_iff hhour' hday' hr).mpr heq
      have htrue : c = c + d := (hcount _ hmem).trans (countBoth_of_some hgetc hgetd)
      omega
  · intro hreach uf huf
    have hget := (mem_values_iff hhour' hday' hr).mp huf
    by_cases hmem : uf.1 ∈ (hour.take n).map Prod.fst
    · obtain ⟨⟨url, c⟩, hc, hurl⟩ := List.mem_map.mp hmem
      rw [← hurl] at hget ⊢
      obtain ⟨hgetc, hfilter⟩ := (mem_unfiltered_iff hhour).mp (List.mem_of_mem_take hc)
      rcases getElem?_bothPoured_of_hour hhour' hday' hc with ⟨d, hd, heq⟩ | ⟨hnot, heq⟩
      · obtain ⟨hgetd, -⟩ := (mem_unfiltered_iff hday).mp (hcome hd)
        obtain rfl := Option.some.inj (heq.symm.trans hget)
        exact (countBoth_of_some hgetc hgetd).symm
      · obtain rfl := Option.some.inj (heq.symm.trans hget)
        unfold countBoth
        rw [hgetc]
        cases hgetd : maps.dayMap.urlFreq[url]? with
        | none => exact (add_zero c).symm
        | some d =>
          have hzero : d = 0 := by
            by_contra hne
            have hd : (url, d) ∈ day := (mem_unfiltered_iff hday).mpr ⟨hgetd, hfilter⟩
            exact hnot (List.mem_map_of_mem (hreach url c d hc hd hne))
          rw [hzero]
          exact (add_zero c).symm
    · rcases getElem?_bothPoured_of_day hhour' hday' hmem with ⟨d, hd, heq⟩ | ⟨-, hnone⟩
      · obtain ⟨hgetd, hfilter⟩ := (mem_unfiltered_iff hday).mp (hcome hd)
        -- the day's loop came to something, so there was room for all of the hour
        have hroom : hour.length < n := by
          by_contra! hle
          unfold dayPoured at hd
          rw [size_hourPoured hhour', Nat.min_eq_left hle, Nat.sub_self, poured_zero] at hd
          cases hd
        rw [List.take_of_length_le hroom.le] at hmem
        have hgetc : maps.hourMap.urlFreq[uf.1]? = none := by
          by_contra! hsome
          have hin : uf.1 ∈ maps.hourMap.urlFreq :=
            Std.ExtTreeMap.mem_iff_isSome_getElem?.mpr (Option.isSome_iff_ne_none.mpr hsome)
          exact hmem ((mem_map_fst_unfiltered_iff hhour).mpr ⟨hin, hfilter⟩)
        have hfreq : uf.2 = d := congrArg Prod.snd (Option.some.inj (hget.symm.trans heq))
        unfold countBoth
        rw [hgetc, hgetd, hfreq]
        exact (zero_add d).symm
      · rw [hnone] at hget
        cases hget

theorem length_unfiltered (h : maps.hourMap.GetTopUrls hourSorted) :
    (unfiltered filter hourSorted).length = maps.hourAll filter := by
  have hcount := countP_unfiltered filter h fun _ => true
  rw [List.countP_true] at hcount
  rw [hcount]
  rfl

/-- What is taken of the hour has fewer than `n` before it. -/
theorem hourAbove_lt_of_mem_take (hhour : maps.hourMap.GetTopUrls hourSorted)
    (hc : (url, c) ∈ (unfiltered filter hourSorted).take n) : maps.hourAbove filter c < n := by
  have habove : maps.hourAbove filter c
      = (unfiltered filter hourSorted).countP fun uf => decide (c < uf.2) :=
    (countP_unfiltered filter hhour _).symm
  obtain ⟨before, after, htake⟩ := List.append_of_mem hc
  have hlen : before.length < n := by
    have hle := List.length_take_le n (unfiltered filter hourSorted)
    rw [htake, List.length_append, List.length_cons] at hle
    omega
  have heq : unfiltered filter hourSorted
      = before ++ (url, c) :: (after ++ (unfiltered filter hourSorted).drop n) := by
    conv_lhs => rw [← List.take_append_drop n (unfiltered filter hourSorted), htake]
    rw [List.append_assoc, List.cons_append]
  generalize after ++ (unfiltered filter hourSorted).drop n = rest at heq
  have hsorted := sorted_unfiltered filter hhour
  rw [heq] at hsorted
  have hrest : ∀ uf ∈ rest, uf.2 ≤ c :=
    (List.pairwise_cons.mp (List.pairwise_append.mp hsorted).2.1).1
  have hnone : rest.countP (fun uf => decide (c < uf.2)) = 0 :=
    List.countP_eq_zero.mpr fun uf huf => by simpa using hrest uf huf
  calc maps.hourAbove filter c = before.countP fun uf => decide (c < uf.2) := by
        rw [habove, heq, List.countP_append, List.countP_cons_of_neg (by simp), hnone, add_zero]
    _ ≤ before.length := List.countP_le_length
    _ < n := hlen

/-- In the day's loop new is what the hour does not have, if all of the hour was taken. -/
theorem isNew_eq (hhour : maps.hourMap.GetTopUrls hourSorted)
    (hroom : maps.hourAll filter < n) {uf : UrlFreq} (hfilter : filter uf.1 = false) :
    (hourPoured n (unfiltered filter hourSorted)).isNew uf
      = decide (uf.1 ∉ maps.hourMap.urlFreq) := by
  have hle : (unfiltered filter hourSorted).length ≤ n := by
    rw [length_unfiltered hhour]
    exact hroom.le
  rw [Bool.eq_iff_iff, isNew_hourPoured_iff (nodup_unfiltered filter hhour), decide_eq_true_iff,
    List.take_of_length_le hle, mem_map_fst_unfiltered_iff hhour, and_iff_left hfilter]

theorem room_eq (hhour : maps.hourMap.GetTopUrls hourSorted) :
    n - (hourPoured n (unfiltered filter hourSorted)).size = n - maps.hourAll filter := by
  rw [size_hourPoured (nodup_unfiltered filter hhour), length_unfiltered hhour]
  omega

/-- The new URLs before one of the day's are among those with as many visits. -/
theorem countP_isNew_le (hhour : maps.hourMap.GetTopUrls hourSorted)
    (hday : maps.dayMap.GetTopUrls daySorted) (hroom : maps.hourAll filter < n)
    {before after : List UrlFreq}
    (heq : unfiltered filter daySorted = before ++ (url, d) :: after) :
    before.countP (hourPoured n (unfiltered filter hourSorted)).isNew
      ≤ maps.dayOnlyFrom filter d := by
  have hfrom : maps.dayOnlyFrom filter d = (unfiltered filter daySorted).countP fun uf =>
      decide (uf.1 ∉ maps.hourMap.urlFreq) && decide (d ≤ uf.2) :=
    (countP_unfiltered filter hday _).symm
  have hsorted := sorted_unfiltered filter hday
  rw [heq] at hsorted
  have hbefore : ∀ uf ∈ before, d ≤ uf.2 := fun uf huf =>
    (List.pairwise_append.mp hsorted).2.2 uf huf (url, d) List.mem_cons_self
  have hcongr : before.countP (hourPoured n (unfiltered filter hourSorted)).isNew
      = before.countP fun uf => decide (uf.1 ∉ maps.hourMap.urlFreq) && decide (d ≤ uf.2) := by
    apply List.countP_congr
    intro uf huf
    have hmem : uf ∈ unfiltered filter daySorted := by
      rw [heq]
      exact List.mem_append_left _ huf
    rw [isNew_eq hhour hroom ((mem_unfiltered_iff hday).mp hmem).2,
      decide_eq_true (hbefore uf huf), Bool.and_true]
  rw [hfrom, heq, List.countP_append, hcongr]
  exact Nat.le_add_right _ _

theorem trueTop_of_countsReached (hreach : CountsReached maps n filter)
    (hhour : maps.hourMap.GetTopUrls hourSorted) (hday : maps.dayMap.GetTopUrls daySorted)
    (hr : r.Perm ((bothPoured n (unfiltered filter hourSorted)
      (unfiltered filter daySorted)).toList.map Prod.snd))
    (hsorted : r.Pairwise fun a b => b.2 ≤ a.2) : TrueTop maps n filter r := by
  refine ⟨topOf_of_sorted hhour hday hr hsorted, (counts_iff hhour hday hr).mpr ?_⟩
  intro url c d hc hd hne
  obtain ⟨hgetc, hfilter⟩ := (mem_unfiltered_iff hhour).mp (List.mem_of_mem_take hc)
  obtain ⟨hgetd, -⟩ := (mem_unfiltered_iff hday).mp hd
  rcases hreach url c d hfilter hgetc hgetd hne with habove | hroom
  · exact absurd (hourAbove_lt_of_mem_take hhour hc) (not_lt.mpr habove)
  · obtain ⟨before, after, heq⟩ := List.append_of_mem hd
    have hle := countP_isNew_le hhour hday (n := n) (by omega) heq
    unfold dayPoured
    rw [heq]
    apply mem_poured_of_countP_lt
    rw [room_eq hhour]
    omega

theorem unfiltered_append_cons {before after : List UrlFreq} (hfilter : filter url = false) :
    unfiltered filter (before ++ (url, c) :: after)
      = unfiltered filter before ++ (url, c) :: unfiltered filter after := by
  unfold unfiltered
  rw [List.filter_append, List.filter_cons_of_pos (by simpa using hfilter)]

/-- With equal counts a URL can come as early in the hour as its count allows. -/
theorem exists_hourSorted (hfilter : filter url = false)
    (hc : maps.hourMap.urlFreq[url]? = some c) (hlt : maps.hourAbove filter c < n) :
    ∃ hourSorted, maps.hourMap.GetTopUrls hourSorted ∧
      (url, c) ∈ (unfiltered filter hourSorted).take n := by
  obtain ⟨before, after, hperm, hsorted, hbefore⟩ := exists_perm_descending_around
    (Std.ExtTreeMap.mem_toList_iff_getElem?_eq_some.mpr hc)
    (p := fun uf => decide (c < uf.2)) (fun a ha => (of_decide_eq_true ha).le)
    fun a ha => not_lt.mp (of_decide_eq_false ha)
  refine ⟨before ++ (url, c) :: after, ⟨hperm, hsorted⟩, ?_⟩
  have hlen : (unfiltered filter before).length < n :=
    calc (unfiltered filter before).length
        = ((maps.hourMap.urlFreq.toList.erase (url, c)).filter fun uf =>
            decide (c < uf.2)).countP fun uf => !filter uf.1 := by
          unfold unfiltered
          rw [← List.countP_eq_length_filter, hbefore.countP_eq]
      _ = (maps.hourMap.urlFreq.toList.erase (url, c)).countP fun uf =>
            !filter uf.1 && decide (c < uf.2) := List.countP_filter
      _ ≤ maps.hourMap.urlFreq.toList.countP fun uf => !filter uf.1 && decide (c < uf.2) :=
          List.erase_sublist.countP_le
      _ = maps.hourAbove filter c := by
          unfold hourAbove
          simp only [Bool.and_comm]
      _ < n := hlt
  obtain ⟨left, hleft⟩ := Nat.exists_eq_add_one_of_ne_zero (Nat.sub_ne_zero_of_lt hlen)
  rw [unfiltered_append_cons hfilter, List.take_append, hleft, List.take_succ_cons]
  exact List.mem_append_right _ List.mem_cons_self

/-- With equal counts a URL of both windows can come as late in the day as its count allows. -/
theorem exists_daySorted (hfilter : filter url = false) (hurl : url ∈ maps.hourMap.urlFreq)
    (hd : maps.dayMap.urlFreq[url]? = some d)
    (hle : n ≤ maps.hourAll filter + maps.dayOnlyFrom filter d)
    (hhour : maps.hourMap.GetTopUrls hourSorted) :
    ∃ daySorted, maps.dayMap.GetTopUrls daySorted ∧ (url, d) ∈ unfiltered filter daySorted ∧
      (url, d) ∉ dayPoured n (unfiltered filter hourSorted) (unfiltered filter daySorted) := by
  obtain ⟨before, after, hperm, hsorted, hbefore⟩ := exists_perm_descending_around
    (Std.ExtTreeMap.mem_toList_iff_getElem?_eq_some.mpr hd)
    (p := fun uf => decide (d ≤ uf.2)) (fun a ha => of_decide_eq_true ha)
    fun a ha => (not_le.mp (of_decide_eq_false ha)).le
  have hday : maps.dayMap.GetTopUrls (before ++ (url, d) :: after) := ⟨hperm, hsorted⟩
  refine ⟨before ++ (url, d) :: after, hday, (mem_unfiltered_iff hday).mpr ⟨hd, hfilter⟩, ?_⟩
  unfold dayPoured
  rw [room_eq hhour, unfiltered_append_cons hfilter]
  rcases le_or_gt n (maps.hourAll filter) with hfull | hroom
  · rw [Nat.sub_eq_zero_of_le hfull, poured_zero]
    exact List.not_mem_nil
  · -- all that can come before the URL does
    have hnew : (unfiltered filter before).countP
          (hourPoured n (unfiltered filter hourSorted)).isNew
        = maps.dayOnlyFrom filter d := by
      have hcongr : (unfiltered filter before).countP
            (hourPoured n (unfiltered filter hourSorted)).isNew
          = (unfiltered filter before).countP fun uf => decide (uf.1 ∉ maps.hourMap.urlFreq) := by
        apply List.countP_congr
        intro uf huf
        rw [isNew_eq hhour hroom (by simpa using (List.mem_filter.mp huf).2)]
      unfold unfiltered at hcongr ⊢
      rw [hcongr, List.countP_filter, hbefore.countP_eq, List.countP_filter, List.countP_erase]
      unfold dayOnlyFrom
      simp only [hurl, not_true_eq_false, decide_false, Bool.false_and, Bool.false_eq_true,
        and_false, if_false, Nat.sub_zero]
      apply List.countP_congr
      intro uf _
      rw [Bool.and_right_comm]
    rw [poured_of_le_countP (by rw [hnew]; omega)]
    intro hmem
    have hnodup := nodup_unfiltered filter hday
    rw [unfiltered_append_cons hfilter, List.map_append, List.map_cons] at hnodup
    have hold : url ∈ (unfiltered filter before).map Prod.fst :=
      List.mem_map_of_mem ((prefix_poured _ _ _).subset hmem)
    exact (List.nodup_append.mp hnodup).2.2 url hold url List.mem_cons_self rfl

end Counts

theorem limitSize_natCast {n : ℕ} (hn : n < 2 ^ 31) : limitSize n = n := by
  unfold limitSize
  rw [Int.emod_eq_of_lt (by omega) (by omega), Int.toNat_natCast]

/-- **When the counts are true.**  For any two windows, any limit and any filter: whatever order
equal counts come in, `getTopUrls` reports true counts exactly when every URL with a count in both
windows is either not taken from the hour or come to in the day before the map is full. -/
theorem trueTop_iff (maps : LastPerMaps) (filter : Url → Bool) {limit : ℕ}
    (hlimit : limit < 2 ^ 31) :
    (∀ r, maps.GetTopUrls limit filter r → TrueTop maps limit filter r) ↔
      CountsReached maps limit filter := by
  constructor
  · intro h url c d hfilter hc hd hne
    by_contra! hnot
    obtain ⟨habove, hroom⟩ := hnot
    have hurl : url ∈ maps.hourMap.urlFreq := by
      rw [Std.ExtTreeMap.mem_iff_isSome_getElem?, hc]
      rfl
    obtain ⟨hourSorted, hhour, htaken⟩ := exists_hourSorted hfilter hc habove
    obtain ⟨daySorted, hday, hmem, hlate⟩ := exists_daySorted hfilter hurl hd hroom hhour
    obtain ⟨r, hr, hsorted⟩ := exists_perm_descending ((bothPoured limit
      (unfiltered filter hourSorted) (unfiltered filter daySorted)).toList.map Prod.snd)
    have htop : maps.GetTopUrls limit filter r := by
      refine getTopUrls_iff.mpr ⟨hourSorted, daySorted, hhour, hday, ?_, hsorted⟩
      rw [limitSize_natCast hlimit]
      exact hr
    exact hlate ((counts_iff hhour hday hr).mp (h r htop).count url c d htaken hmem hne)
  · intro hreach r hr
    obtain ⟨hourSorted, daySorted, hhour, hday, hr, hsorted⟩ := getTopUrls_iff.mp hr
    rw [limitSize_natCast hlimit] at hr
    exact trueTop_of_countsReached hreach hhour hday hr hsorted

/-- One visit, inserted when it is made. -/
def oneVisit : List (UrlTpStat × ℤ) := [(⟨Str.ofString "http://a/", 0, 1⟩, 0)]

/-- With room for two keys the one URL is come to in the day as well. -/
theorem trueTop_iff_roomForTwo :
    CountsReached (UrlFreqStats.insertAll .init oneVisit) 2 (fun _ => false) ∧
      ∀ r, (UrlFreqStats.insertAll .init oneVisit).GetTopUrls (2 : ℕ) (fun _ => false) r →
        TrueTop (UrlFreqStats.insertAll .init oneVisit) 2 (fun _ => false) r := by
  have hreach : CountsReached (UrlFreqStats.insertAll .init oneVisit) 2 (fun _ => false) := by
    intro url c d _ _ _ _
    have hday : (UrlFreqStats.insertAll .init oneVisit).dayMap.urlFreq.toList
        = [(Str.ofString "http://a/", 1)] := by decide +kernel
    have hmem : Str.ofString "http://a/"
        ∈ (UrlFreqStats.insertAll .init oneVisit).hourMap.urlFreq := by decide +kernel
    have hnone : (UrlFreqStats.insertAll .init oneVisit).dayOnlyFrom (fun _ => false) d = 0 := by
      unfold dayOnlyFrom
      rw [hday]
      simp [hmem]
    rw [hnone]
    exact Or.inr (by decide +kernel)
  exact ⟨hreach, (trueTop_iff _ _ (by decide)).mpr hreach⟩

/-- With room for one its visit is counted for the hour only. -/
theorem not_trueTop_roomForOne :
    ¬ ∀ (packs : List (UrlTpStat × ℤ)) (limit : ℕ) (filter : Url → Bool) (r : List UrlFreq),
      limit < 2 ^ 31 → (UrlFreqStats.insertAll .init packs).GetTopUrls limit filter r →
        TrueTop (UrlFreqStats.insertAll .init packs) limit filter r := by
  intro h
  have htop : (UrlFreqStats.insertAll .init oneVisit).GetTopUrls 1 (fun _ => false)
      [(Str.ofString "http://a/", 1)] :=
    ⟨[(Str.ofString "http://a/", 1)], [(Str.ofString "http://a/", 1)],
      ⟨by decide +kernel, by decide⟩, ⟨by decide +kernel, by decide⟩, by decide +kernel, by decide⟩
  have hcount := (h oneVisit 1 (fun _ => false) _ (by decide) htop).count _ List.mem_cons_self
  exact absurd hcount (by decide +kernel)

end Contentv1.LastPerMaps
