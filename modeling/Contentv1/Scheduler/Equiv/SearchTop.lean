import Contentv1.Scheduler.SearchTop
import Contentv1.Scheduler.Equiv.NeedCrawlUrls
import Contentv1.Scheduler.Equiv.Rounds
import Contentv1.Core.Equiv.UrlFreqStatsNested

/-!
# A search finds as many URLs as there are

* `length_needCrawlUrls_le`: a filter puts out the more the more candidates it has.
* `le_limitSize_toInt`: a ceiling above `max()` is no limit, even where it does not fit into the
  `int` of `getTopUrls`.
* `finds_of_searchTop`: the loop ends within thirty turns, and what it ends with is the target or
  all there is.
-/

namespace Contentv1.EnqueueLoop

variable {env : SearchEnv} {top pushTarget : ℤ} {pushUrls : List UrlFreq}

/-! ### What a filter puts out -/

section Filter

variable {c : Contribs} {hostDb : HostDb} {urlDb : UrlDb} {now : ℤ}
  {inUrls inUrls' uniq uniq' : List UrlFreq}

/-- Whether a page is due does not depend on its frequency. -/
theorem length_pagesOut :
    (pagesOut c hostDb urlDb now inUrls).length
      = (inUrls.map Prod.fst).countP fun url => duePage c hostDb urlDb now (url, 0) := by
  unfold pagesOut
  rw [List.length_map, List.countP_map, List.countP_eq_length_filter]
  rfl

theorem map_fst_robotsOut_subset
    (huniq : ReduceUrlFreqs (hostDb.leaveAllowedByRobots c inUrls).needRobots uniq)
    (huniq' : ReduceUrlFreqs (hostDb.leaveAllowedByRobots c inUrls').needRobots uniq')
    (hsub : inUrls.map Prod.fst ⊆ inUrls'.map Prod.fst) :
    (robotsOut urlDb now uniq).map Prod.fst ⊆ (robotsOut urlDb now uniq').map Prod.fst := by
  intro url hurl
  obtain ⟨u, hu, hdue, rfl⟩ := (mem_map_fst_robotsOut_iff huniq).mp hurl
  obtain ⟨u', hu', heq⟩ := List.mem_map.mp (hsub (List.mem_map_of_mem hu))
  refine (mem_map_fst_robotsOut_iff huniq').mpr ⟨u', hu', ?_, by rw [heq]⟩
  unfold dueRobots HostDb.needsRobots at hdue ⊢
  rw [heq]
  exact hdue

/-- **More candidates, more URLs.** -/
theorem length_needCrawlUrls_le
    (huniq : ReduceUrlFreqs (hostDb.leaveAllowedByRobots c inUrls).needRobots uniq)
    (huniq' : ReduceUrlFreqs (hostDb.leaveAllowedByRobots c inUrls').needRobots uniq')
    (hsub : (inUrls.map Prod.fst).Subperm (inUrls'.map Prod.fst)) :
    (needCrawlUrls c hostDb urlDb inUrls uniq now).2.length
      ≤ (needCrawlUrls c hostDb urlDb inUrls' uniq' now).2.length := by
  have hrobots : ((robotsOut urlDb now uniq).map Prod.fst).length
      ≤ ((robotsOut urlDb now uniq').map Prod.fst).length :=
    ((nodup_robotsOut huniq).subperm (map_fst_robotsOut_subset huniq huniq' hsub.subset)).length_le
  have hpages : (pagesOut c hostDb urlDb now inUrls).length
      ≤ (pagesOut c hostDb urlDb now inUrls').length := by
    rw [length_pagesOut, length_pagesOut]
    exact hsub.countP_le _
  rw [List.length_map, List.length_map] at hrobots
  rw [needCrawlUrls_eq, needCrawlUrls_eq, List.length_append, List.length_append]
  exact Nat.add_le_add hrobots hpages

end Filter

/-! ### The limit -/

/-- A positive `Cnt` that is too large for an `int` turns negative and is no limit at all. -/
theorem le_limitSize_toInt {n : ℕ} (hn : n < 2 ^ 62) (htop : (n : ℤ) ≤ top ∨ 2 ^ 31 ≤ top)
    (hlt : top < 2 ^ 32) :
    n ≤ LastPerMaps.limitSize (toInt top) := by
  unfold LastPerMaps.limitSize toInt
  rw [Int.bmod_def]
  split_ifs with hhalf <;> omega

/-! ### Candidates -/

/-- The statistics' URLs, each once, as `_needCrawlUrls` can be given them. -/
def AllUrls (env : SearchEnv) (all : List UrlFreq) : Prop :=
  (all.map Prod.fst).Perm env.maps.urls

theorem filter_true (l : List Url) : (l.filter fun url => !(fun _ : Url => false) url) = l :=
  List.filter_eq_self.mpr fun _ _ => rfl

/-- The candidates of a filter are among the statistics' URLs, and all of them if the limit allows
it. -/
theorem subperm_urls {limit : ℤ} {topUrls : List UrlFreq}
    (h : env.maps.GetTopUrls limit (fun _ => false) topUrls) :
    (topUrls.map Prod.fst).Subperm env.maps.urls ∧
      (env.maps.urls.length ≤ LastPerMaps.limitSize limit → AllUrls env topUrls) := by
  have htop := LastPerMaps.topOf_of_getTopUrls h
  have hsub : (topUrls.map Prod.fst).Subperm env.maps.urls := by
    refine htop.nodup.subperm fun url hurl => ?_
    obtain ⟨u, hu, rfl⟩ := List.mem_map.mp hurl
    exact (htop.mem u hu).1
  refine ⟨hsub, fun hle => hsub.perm_of_length_le ?_⟩
  rw [List.length_map, htop.length, filter_true, Nat.min_eq_right hle]

/-- Every answer is possible for some order of equal counts. -/
theorem exists_filter (env : SearchEnv) (top : ℤ) : ∃ pushUrls, Filter env top pushUrls := by
  obtain ⟨hourSorted, hhour⟩ := UrlFreqMap.exists_perm_descending env.maps.hourMap.urlFreq.toList
  obtain ⟨daySorted, hday⟩ := UrlFreqMap.exists_perm_descending env.maps.dayMap.urlFreq.toList
  obtain ⟨r, hr⟩ := UrlFreqMap.exists_perm_descending ((daySorted.foldl
    (LastPerMaps.collectDay (toInt top) fun _ => false)
    (hourSorted.foldl (LastPerMaps.collectHour (toInt top) fun _ => false) ∅)).toList.map Prod.snd)
  exact ⟨_, r, _, ⟨hourSorted, daySorted, hhour, hday, hr⟩, List.Perm.refl _, rfl⟩

theorem exists_loopReads (env : SearchEnv) (topCur : ℤ) (n : ℕ) :
    ∃ reads, LoopReads env topCur reads ∧ reads.length = n := by
  induction n generalizing topCur with
  | zero => exact ⟨[], trivial, rfl⟩
  | succ n ih =>
    obtain ⟨pushUrls, hpush⟩ := exists_filter env (topCur * 2)
    obtain ⟨reads, hreads, hlen⟩ := ih (topCur * 2)
    exact ⟨⟨pushUrls, env.maps.max⟩ :: reads, ⟨hpush, rfl, hreads⟩, by rw [List.length_cons, hlen]⟩

section All

variable {all uniq : List UrlFreq}

/-- A filter never puts out more than it does for all URLs. -/
theorem Filter.length_le (hall : AllUrls env all)
    (huniq : ReduceUrlFreqs (env.hostDb.leaveAllowedByRobots env.contribs all).needRobots uniq)
    (h : Filter env top pushUrls) :
    pushUrls.length
      ≤ (needCrawlUrls env.contribs env.hostDb env.urlDb all uniq env.now).2.length := by
  obtain ⟨topUrls, robots, htop, hrobots, rfl⟩ := h
  exact length_needCrawlUrls_le hrobots huniq ((subperm_urls htop).1.trans hall.symm.subperm)

/-- Nor less, if its ceiling is no limit. -/
theorem Filter.length_eq (hall : AllUrls env all)
    (huniq : ReduceUrlFreqs (env.hostDb.leaveAllowedByRobots env.contribs all).needRobots uniq)
    (h : Filter env top pushUrls)
    (hle : env.maps.urls.length ≤ LastPerMaps.limitSize (toInt top)) :
    pushUrls.length
      = (needCrawlUrls env.contribs env.hostDb env.urlDb all uniq env.now).2.length := by
  obtain ⟨topUrls, robots, htop, hrobots, rfl⟩ := h
  have hperm := ((subperm_urls htop).2 hle).trans hall.symm
  exact le_antisymm (length_needCrawlUrls_le hrobots huniq hperm.subperm)
    (length_needCrawlUrls_le huniq hrobots hperm.symm.subperm)

end All

/-! ### The loop -/

theorem LoopReads.max_eq {topCur : ℤ} {reads : List FilterRead} (h : LoopReads env topCur reads) :
    ∀ read ∈ reads, read.max = env.maps.max := by
  induction reads generalizing topCur with
  | nil => exact nofun
  | cons read reads ih =>
    obtain ⟨-, hmax, hreads⟩ := h
    exact List.forall_mem_cons.mpr ⟨hmax, ih hreads⟩

/-- What the loop ends with is the answer for the double of some ceiling: it is enough, or that is
above `max()`.  A ceiling that the loop has come to is not. -/
theorem filter_of_searchTopLoop {topCur : ℤ} {reads : List FilterRead}
    (hreads : LoopReads env topCur reads)
    (h : searchTopLoop pushTarget topCur reads = some pushUrls) :
    ∃ last, Filter env (last * 2) pushUrls ∧
      (pushTarget ≤ pushUrls.length ∨ env.maps.max < last * 2) ∧
      (last = topCur ∨ last ≤ env.maps.max) := by
  induction reads generalizing topCur with
  | nil => cases h
  | cons read reads ih =>
    obtain ⟨hfilter, hread, hreads⟩ := hreads
    rw [searchTopLoop] at h
    split_ifs at h with henough hceiling
    · obtain rfl := Option.some.inj h
      exact ⟨topCur, hfilter, Or.inl henough, Or.inl rfl⟩
    · obtain rfl := Option.some.inj h
      rw [hread] at hceiling
      exact ⟨topCur, hfilter, Or.inr hceiling, Or.inl rfl⟩
    · rw [hread] at hceiling
      obtain ⟨last, hlast, hend, hle⟩ := ih hreads h
      refine ⟨last, hlast, hend, Or.inr ?_⟩
      rcases hle with rfl | hle
      · exact not_lt.mp hceiling
      · exact hle

/-- `misc::limit_vector` keeps as many elements as it is told to. -/
def LimitsTo (limitVector : List UrlFreq → ℤ → List UrlFreq) : Prop :=
  ∀ v n, 0 ≤ n → n ≤ v.length → ((limitVector v n).length : ℤ) = n

/-- **A search finds as many URLs as there are.**  In every state of the statistics with fewer than
`2 ^ 30` URLs, for any stores, any time and any target an `int` holds: a search that has not ended
has made fewer than thirty turns, one that ends returns the target or all there is, whatever orders
it was answered in, and it can end. -/
theorem finds_of_searchTop (env : SearchEnv) (hmaps : env.maps.Reachable)
    (hsize : env.maps.urls.length < 2 ^ 30) {limitVector : List UrlFreq → ℤ → List UrlFreq}
    (hlimit : LimitsTo limitVector) {pushTarget : ℤ} (hpos : 1 ≤ pushTarget)
    (hint : pushTarget ≤ 2 ^ 31 - 1) {all uniq : List UrlFreq} (hall : AllUrls env all)
    (huniq : ReduceUrlFreqs (env.hostDb.leaveAllowedByRobots env.contribs all).needRobots uniq) :
    (∀ first reads, Filter env pushTarget first → LoopReads env pushTarget reads →
        (searchTop limitVector pushTarget first reads = none → reads.length < 30) ∧
          ∀ pushUrls, searchTop limitVector pushTarget first reads = some pushUrls →
            (pushUrls.length : ℤ) = min pushTarget
              (needCrawlUrls env.contribs env.hostDb env.urlDb all uniq env.now).2.length) ∧
      ∃ first reads pushUrls, Filter env pushTarget first ∧ LoopReads env pushTarget reads ∧
        searchTop limitVector pushTarget first reads = some pushUrls := by
  have hmax : env.maps.max = env.maps.urls.length := LastPerMaps.max_of_reachable hmaps
  have hends : ∀ first reads, LoopReads env pushTarget reads →
      searchTop limitVector pushTarget first reads = none → reads.length < 30 := by
    intro first reads hreads hnone
    by_contra! hlen
    have hne : reads ≠ [] := by
      rintro rfl
      cases hlen
    have hpow : (2 : ℤ) ^ 30 ≤ 2 ^ reads.length := pow_le_pow_right₀ one_le_two hlen
    have hceiling : env.maps.max < pushTarget * 2 ^ reads.length :=
      calc env.maps.max < 2 ^ 30 := by omega
        _ ≤ 2 ^ reads.length := hpow
        _ ≤ pushTarget * 2 ^ reads.length :=
          le_mul_of_one_le_left (pow_nonneg zero_le_two _) hpos
    have hsome : (searchTopLoop pushTarget pushTarget reads).isSome := isSome_searchTopLoop
      (fun read hread => (hreads.max_eq read hread).le) hceiling hne
    unfold searchTop at hnone
    rw [Option.map_eq_none_iff] at hnone
    split_ifs at hnone
    rw [hnone] at hsome
    cases hsome
  refine ⟨fun first reads hfirst hreads => ⟨hends first reads hreads, ?_⟩, ?_⟩
  · intro pushUrls h
    unfold searchTop at h
    obtain ⟨found, hfound, rfl⟩ := Option.map_eq_some_iff.mp h
    -- the last filter found enough, or all there is
    have hcases : found.length ≤ (needCrawlUrls env.contribs env.hostDb env.urlDb all uniq
          env.now).2.length ∧ (pushTarget ≤ found.length ∨ found.length
        = (needCrawlUrls env.contribs env.hostDb env.urlDb all uniq env.now).2.length) := by
      split_ifs at hfound with henough
      · obtain rfl := Option.some.inj hfound
        exact ⟨hfirst.length_le hall huniq, Or.inl henough⟩
      · obtain ⟨last, hfilter, hend, hlast⟩ := filter_of_searchTopLoop hreads hfound
        refine ⟨hfilter.length_le hall huniq, hend.imp_right fun hceiling => ?_⟩
        -- the ceiling fits 32 bits, for its half is the target or below `max()`
        have hlt : last * 2 < 2 ^ 32 := by omega
        exact hfilter.length_eq hall huniq
          (le_limitSize_toInt (by omega) (Or.inl (by omega)) hlt)
    split_ifs with hmore
    · rw [hlimit found pushTarget (by omega) hmore.le]
      omega
    · omega
  · obtain ⟨first, hfirst⟩ := exists_filter env pushTarget
    obtain ⟨reads, hreads, hlen⟩ := exists_loopReads env pushTarget 30
    cases hsearch : searchTop limitVector pushTarget first reads with
    | none => exact absurd (hends first reads hreads hsearch) (by omega)
    | some pushUrls => exact ⟨first, reads, pushUrls, hfirst, hreads, hsearch⟩

/-- The first elements are as many as asked for. -/
theorem limitsTo_take : LimitsTo fun v n => v.take n.toNat := by
  intro v n hn hle
  rw [List.length_take]
  omega

/-- The visits of a page at the epoch. -/
def visitsOf (url : String) (cnt : ℤ) : UrlTpStat × ℤ := (⟨Str.ofString url, 0, cnt⟩, 0)

/-- Four visited pages.  The most frequent one has just been enqueued, and of the host of the last
one no text is stored. -/
def fourPages : SearchEnv where
  contribs := .plainHttp
  maps := UrlFreqStats.insertAll .init
    [visitsOf "http://a/x" 4, visitsOf "http://a/y" 3, visitsOf "http://a/z" 2,
      visitsOf "http://b/x" 1]
  hostDb := knownHost
  urlDb := (default : UrlDb).setEnqueued .nearEpoch [Str.ofString "http://a/x"] 0
  now := 0

/-- The pages with their counts, from the most frequent one on. -/
def fourFreqs : List UrlFreq :=
  [(Str.ofString "http://a/x", 4), (Str.ofString "http://a/y", 3), (Str.ofString "http://a/z", 2),
    (Str.ofString "http://b/x", 1)]

theorem reachable_fourPages : fourPages.maps.Reachable :=
  Or.inl (.insertVisitsPack (.insertVisitsPack (.insertVisitsPack (.insertVisitsPack .init
    _ (by decide) 0) _ (by decide) 0) _ (by decide) 0) _ (by decide) 0)

/-- The two most frequent pages are too few for a target of two, as one of them is not due, and
twice as many are more than enough. -/
theorem filter_fourPages :
    Filter fourPages 2 [(Str.ofString "http://a/y", 3)] ∧
      Filter fourPages 4 [(Str.ofString "http://b/robots.txt", 1), (Str.ofString "http://a/y", 3),
        (Str.ofString "http://a/z", 2)] := by
  have hhour : fourPages.maps.hourMap.GetTopUrls fourFreqs :=
    ⟨by decide +kernel, by decide⟩
  have hday : fourPages.maps.dayMap.GetTopUrls fourFreqs :=
    ⟨by decide +kernel, by decide⟩
  constructor
  · exact ⟨fourFreqs.take 2, [], ⟨_, _, hhour, hday, by decide +kernel, by decide⟩,
      by decide +kernel, by decide +kernel⟩
  · exact ⟨fourFreqs, [(Str.ofString "http://b/robots.txt", 1)],
      ⟨_, _, hhour, hday, by decide +kernel, by decide⟩, by decide +kernel, by decide +kernel⟩

theorem finds_of_searchTop_fourPages :
    ∃ first reads pushUrls, Filter fourPages 2 first ∧ first.length = 1 ∧
      LoopReads fourPages 2 reads ∧
      searchTop (fun v n => v.take n.toNat) 2 first reads = some pushUrls ∧
      pushUrls.length = 2 := by
  have hall : AllUrls fourPages fourFreqs := by
    unfold AllUrls
    decide +kernel
  have huniq : ReduceUrlFreqs (fourPages.hostDb.leaveAllowedByRobots fourPages.contribs
      fourFreqs).needRobots [(Str.ofString "http://b/robots.txt", 1)] := by
    decide +kernel
  obtain ⟨hfirst, hread⟩ := filter_fourPages
  have hpos : (1 : ℤ) ≤ 2 := by decide
  obtain ⟨hruns, -⟩ := finds_of_searchTop fourPages reachable_fourPages (by decide +kernel)
    limitsTo_take hpos (by decide) hall huniq
  have hreads : LoopReads fourPages 2 [⟨_, fourPages.maps.max⟩] := ⟨hread, rfl, trivial⟩
  have hlen := (hruns _ _ hfirst hreads).2 _ rfl
  have hmin : min (2 : ℤ) (needCrawlUrls fourPages.contribs fourPages.hostDb fourPages.urlDb
      fourFreqs [(Str.ofString "http://b/robots.txt", 1)] fourPages.now).2.length = 2 := by
    decide +kernel
  exact ⟨_, _, _, hfirst, rfl, hreads, rfl, by exact_mod_cast hlen.trans hmin⟩

end Contentv1.EnqueueLoop
