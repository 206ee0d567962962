import Contentv1.Scheduler.Equiv.SearchTop

/-!
# Whether a round pushes a URL twice

The statistics tell URLs apart by their text, what a filter puts out are normalized URLs and robots
URLs, and only the robots URLs are reduced to distinct ones.

* `nodup_needCrawlUrls_iff`: a filter puts out distinct URLs exactly when no two of its candidates
  come out as the same URL.
* `pushesDistinct_iff`: the exact extent of the slip.  Whatever the target, a search in the given
  statistics and stores returns distinct URLs exactly when no two of their URLs collide.
-/

namespace Contentv1.EnqueueLoop

variable {env : SearchEnv} {urls urls' : List Url} {top pushTarget : ℤ}

/-- Two of the URLs come out of a filter as the same URL: both as pages, or one as a page that is
the robots URL which the other needs. -/
structure Collides (env : SearchEnv) (u v : UrlFreq) : Prop where
  page : duePage env.contribs env.hostDb env.urlDb env.now u = true
  other :
    u.1 ≠ v.1 ∧ duePage env.contribs env.hostDb env.urlDb env.now v = true ∧
        (UrlParsed.ofUrl env.contribs u.1).normalized
          = (UrlParsed.ofUrl env.contribs v.1).normalized ∨
      dueRobots env.contribs env.hostDb env.urlDb env.now v = true ∧
        (UrlParsed.ofUrl env.contribs u.1).normalized = (UrlParsed.ofUrl env.contribs v.1).robots

/-- No two of the URLs collide, whatever their frequencies. -/
def NoCollision (env : SearchEnv) (urls : List Url) : Prop :=
  ∀ u v : UrlFreq, u.1 ∈ urls → v.1 ∈ urls → ¬ Collides env u v

theorem NoCollision.mono (h : NoCollision env urls') (hsub : urls ⊆ urls') :
    NoCollision env urls :=
  fun u v hu hv => h u v (hsub hu) (hsub hv)

/-! ### One filter -/

section Filter

variable {inUrls uniq : List UrlFreq}

theorem map_fst_pagesOut :
    (pagesOut env.contribs env.hostDb env.urlDb env.now inUrls).map Prod.fst
      = (inUrls.filter (duePage env.contribs env.hostDb env.urlDb env.now)).map fun u =>
          (UrlParsed.ofUrl env.contribs u.1).normalized := by
  unfold pagesOut
  rw [List.map_map]
  rfl

/-- The pages are distinct when no two candidates collide as pages. -/
theorem nodup_pagesOut_iff (hin : (inUrls.map Prod.fst).Nodup) :
    ((pagesOut env.contribs env.hostDb env.urlDb env.now inUrls).map Prod.fst).Nodup ↔
      ∀ u ∈ inUrls, ∀ v ∈ inUrls, duePage env.contribs env.hostDb env.urlDb env.now u = true →
        duePage env.contribs env.hostDb env.urlDb env.now v = true →
        (UrlParsed.ofUrl env.contribs u.1).normalized
          = (UrlParsed.ofUrl env.contribs v.1).normalized → u.1 = v.1 := by
  have hnodup : (inUrls.filter (duePage env.contribs env.hostDb env.urlDb env.now)).Nodup :=
    (List.Nodup.of_map _ hin).filter _
  rw [map_fst_pagesOut, List.nodup_map_iff_inj_on hnodup]
  constructor
  · intro h u hu v hv hdueu hduev heq
    rw [h u (List.mem_filter.mpr ⟨hu, hdueu⟩) v (List.mem_filter.mpr ⟨hv, hduev⟩) heq]
  · intro h u hu v hv heq
    obtain ⟨hu, hdueu⟩ := List.mem_filter.mp hu
    obtain ⟨hv, hduev⟩ := List.mem_filter.mp hv
    exact List.inj_on_of_nodup_map hin hu hv (h u hu v hv hdueu hduev heq)

theorem mem_map_fst_pagesOut_iff {url : Url} :
    url ∈ (pagesOut env.contribs env.hostDb env.urlDb env.now inUrls).map Prod.fst ↔
      ∃ u ∈ inUrls, duePage env.contribs env.hostDb env.urlDb env.now u = true ∧
        (UrlParsed.ofUrl env.contribs u.1).normalized = url := by
  rw [map_fst_pagesOut]
  simp only [List.mem_map, List.mem_filter, and_assoc]

/-- **Distinct URLs of a filter.** -/
theorem nodup_needCrawlUrls_iff (hin : (inUrls.map Prod.fst).Nodup)
    (huniq : ReduceUrlFreqs (env.hostDb.leaveAllowedByRobots env.contribs inUrls).needRobots
      uniq) :
    ((needCrawlUrls env.contribs env.hostDb env.urlDb inUrls uniq env.now).2.map
        Prod.fst).Nodup ↔ NoCollision env (inUrls.map Prod.fst) := by
  rw [needCrawlUrls_eq, List.map_append, List.nodup_append, nodup_pagesOut_iff hin]
  constructor
  · rintro ⟨-, hpages, hdisjoint⟩ ⟨_, fu⟩ ⟨_, fv⟩ hmemu hmemv ⟨hdueu, hother⟩
    obtain ⟨u, hu, rfl⟩ := List.mem_map.mp hmemu
    obtain ⟨v, hv, rfl⟩ := List.mem_map.mp hmemv
    rcases hother with ⟨hne, hduev, heq⟩ | ⟨hduev, heq⟩
    · exact hne (hpages u hu v hv hdueu hduev heq)
    · exact hdisjoint _ ((mem_map_fst_robotsOut_iff huniq).mpr ⟨v, hv, hduev, rfl⟩) _
        (mem_map_fst_pagesOut_iff.mpr ⟨u, hu, hdueu, rfl⟩) heq.symm
  · intro hnone
    refine ⟨nodup_robotsOut huniq, fun u hu v hv hdueu hduev heq => ?_, ?_⟩
    · by_contra hne
      exact hnone u v (List.mem_map_of_mem hu) (List.mem_map_of_mem hv)
        ⟨hdueu, Or.inl ⟨hne, hduev, heq⟩⟩
    · rintro url hrobots _ hpage rfl
      obtain ⟨v, hv, hduev, hrobotsEq⟩ := (mem_map_fst_robotsOut_iff huniq).mp hrobots
      obtain ⟨u, hu, hdueu, hpageEq⟩ := mem_map_fst_pagesOut_iff.mp hpage
      exact hnone u v (List.mem_map_of_mem hu) (List.mem_map_of_mem hv)
        ⟨hdueu, Or.inr ⟨hduev, hpageEq.trans hrobotsEq.symm⟩⟩

theorem Filter.nodup {pushUrls : List UrlFreq} (h : Filter env top pushUrls)
    (hnone : NoCollision env env.maps.urls) : (toUrlsVec pushUrls).Nodup := by
  obtain ⟨topUrls, robots, htop, hrobots, rfl⟩ := h
  have hnodup := (LastPerMaps.topOf_of_getTopUrls htop).nodup
  exact (nodup_needCrawlUrls_iff hnodup hrobots).mpr (hnone.mono (subperm_urls htop).1.subset)

/-- A filter of all URLs puts out distinct ones only if no two collide. -/
theorem Filter.noCollision {pushUrls : List UrlFreq} (h : Filter env top pushUrls)
    (hle : env.maps.urls.length ≤ LastPerMaps.limitSize (toInt top))
    (hnodup : (toUrlsVec pushUrls).Nodup) : NoCollision env env.maps.urls := by
  obtain ⟨topUrls, robots, htop, hrobots, rfl⟩ := h
  have hin := (LastPerMaps.topOf_of_getTopUrls htop).nodup
  exact ((nodup_needCrawlUrls_iff hin hrobots).mp hnodup).mono
    ((subperm_urls htop).2 hle).symm.subset

/-- A candidate comes out at most once: as a page or for the text of its host. -/
theorem Filter.length_le_urls {pushUrls : List UrlFreq} (h : Filter env top pushUrls) :
    pushUrls.length ≤ 2 * env.maps.urls.length := by
  obtain ⟨topUrls, robots, htop, hrobots, rfl⟩ := h
  have hle := (subperm_urls htop).1.length_le
  rw [List.length_map] at hle
  have hpages : (pagesOut env.contribs env.hostDb env.urlDb env.now topUrls).length
      ≤ topUrls.length := by
    unfold pagesOut
    rw [List.length_map]
    exact List.length_filter_le _ _
  have hneed : ((robotsOut env.urlDb env.now robots).map Prod.fst).length
      ≤ (topUrls.map fun u => (UrlParsed.ofUrl env.contribs u.1).robots).length := by
    refine ((nodup_robotsOut hrobots).subperm fun url hurl => ?_).length_le
    obtain ⟨u, hu, -, rfl⟩ := (mem_map_fst_robotsOut_iff hrobots).mp hurl
    exact List.mem_map_of_mem hu
  rw [List.length_map, List.length_map] at hneed
  rw [needCrawlUrls_eq, List.length_append]
  omega

end Filter

/-! ### A round -/

/-- Whatever the target and the answers, the URLs that a round pushes are distinct. -/
def PushesDistinct (env : SearchEnv) (limitVector : List UrlFreq → ℤ → List UrlFreq) : Prop :=
  ∀ pushTarget first reads pushUrls, Filter env pushTarget first →
    LoopReads env pushTarget reads →
    checkEnqueueImpl limitVector pushTarget first reads = some pushUrls →
      (toUrlsVec pushUrls).Nodup

theorem pushesDistinct_of_noCollision {limitVector : List UrlFreq → ℤ → List UrlFreq}
    (hlimit : ∀ v n, (limitVector v n).Subperm v) (hnone : NoCollision env env.maps.urls) :
    PushesDistinct env limitVector := by
  intro pushTarget first reads pushUrls hfirst hreads h
  unfold checkEnqueueImpl at h
  split_ifs at h
  · obtain rfl := Option.some.inj h
    exact List.nodup_nil
  · unfold searchTop at h
    obtain ⟨found, hfound, rfl⟩ := Option.map_eq_some_iff.mp h
    have hfilter : ∃ top, Filter env top found := by
      split_ifs at hfound
      · obtain rfl := Option.some.inj hfound
        exact ⟨pushTarget, hfirst⟩
      · obtain ⟨last, hfilter, -⟩ := filter_of_searchTopLoop hreads hfound
        exact ⟨last * 2, hfilter⟩
    obtain ⟨top, hfilter⟩ := hfilter
    have hnodup := hfilter.nodup hnone
    split_ifs
    · obtain ⟨l, hperm, hsub⟩ := hlimit found pushTarget
      exact (hperm.map Prod.fst).nodup_iff.mp (hnodup.sublist (hsub.map Prod.fst))
    · exact hnodup

/-- A target beyond all there is: its double still is a `Cnt`, and negative as an `int`. -/
def hugeTarget : ℤ := 2 ^ 62 - 2 ^ 30

theorem max_le_length_urls (maps : LastPerMaps) : maps.max ≤ maps.urls.length := by
  have hkeys : ∀ ufm ∈ [maps.hourMap, maps.dayMap], ufm.urlFreq.size ≤ maps.urls.length := by
    intro ufm hufm
    rw [← Std.ExtTreeMap.length_keys]
    have hnodup : ufm.urlFreq.keys.Nodup := Std.ExtTreeMap.nodup_keys
    refine (hnodup.subperm fun url hurl => LastPerMaps.mem_urls_iff.mpr ?_).length_le
    have hmem := Std.ExtTreeMap.mem_keys.mp hurl
    rcases List.mem_pair.mp hufm with rfl | rfl
    · exact Or.inl hmem
    · exact Or.inr hmem
  have hhour := hkeys maps.hourMap List.mem_cons_self
  have hday := hkeys maps.dayMap (by simp)
  unfold LastPerMaps.max UrlFreqMap.size
  exact max_le (by exact_mod_cast hhour) (by exact_mod_cast hday)

/-- **When a round pushes no URL twice.**  In any state of the statistics and the stores: whatever
the target and the orders of equal counts, the URLs are distinct exactly when no two URLs of the
statistics collide.  The bound on their number is the memory's. -/
theorem pushesDistinct_iff (env : SearchEnv) (hsize : env.maps.urls.length < 2 ^ 60)
    {limitVector : List UrlFreq → ℤ → List UrlFreq}
    (hlimit : ∀ v n, (limitVector v n).Subperm v) :
    PushesDistinct env limitVector ↔ NoCollision env env.maps.urls := by
  refine ⟨fun h => ?_, pushesDistinct_of_noCollision hlimit⟩
  obtain ⟨first, hfirst⟩ := exists_filter env hugeTarget
  obtain ⟨pushUrls, hpush⟩ := exists_filter env (hugeTarget * 2)
  have hfew : first.length < hugeTarget ∧ pushUrls.length < hugeTarget := by
    have hfirstLe := hfirst.length_le_urls
    have hpushLe := hpush.length_le_urls
    unfold hugeTarget
    omega
  have hmax : env.maps.max < hugeTarget * 2 := by
    have hle := max_le_length_urls env.maps
    unfold hugeTarget
    omega
  have hsearch : checkEnqueueImpl limitVector hugeTarget first [⟨pushUrls, env.maps.max⟩]
      = some pushUrls := by
    unfold checkEnqueueImpl searchTop
    rw [if_neg (by decide), if_neg (not_le.mpr hfew.1), searchTopLoop,
      if_neg (not_le.mpr hfew.2), if_pos hmax, Option.map_some, if_neg (not_lt.mpr hfew.2.le)]
  have hreads : LoopReads env hugeTarget [⟨pushUrls, env.maps.max⟩] := ⟨hpush, rfl, trivial⟩
  have hnodup := h hugeTarget first _ pushUrls hfirst hreads hsearch
  refine hpush.noCollision ?_ hnodup
  have hunlimited : LastPerMaps.limitSize (toInt (hugeTarget * 2)) = 2 ^ 64 - 2 ^ 31 := by decide
  rw [hunlimited]
  omega

theorem pushesDistinct_iff_fourPages :
    NoCollision fourPages fourPages.maps.urls ∧
      PushesDistinct fourPages fun v n => v.take n.toNat := by
  have hnone : ∀ u ∈ fourPages.maps.urls, ∀ v ∈ fourPages.maps.urls,
      ¬ (duePage .plainHttp fourPages.hostDb fourPages.urlDb 0 (u, 0) = true ∧
        (u ≠ v ∧ duePage .plainHttp fourPages.hostDb fourPages.urlDb 0 (v, 0) = true ∧
            (UrlParsed.ofUrl .plainHttp u).normalized
              = (UrlParsed.ofUrl .plainHttp v).normalized ∨
          dueRobots .plainHttp fourPages.hostDb fourPages.urlDb 0 (v, 0) = true ∧
            (UrlParsed.ofUrl .plainHttp u).normalized
              = (UrlParsed.ofUrl .plainHttp v).robots)) := by
    decide +kernel
  have hcollision : NoCollision fourPages fourPages.maps.urls :=
    fun u v hu hv h => hnone u.1 hu v.1 hv ⟨h.page, h.other⟩
  exact ⟨hcollision, (pushesDistinct_iff fourPages (by decide +kernel)
    fun v n => (List.take_sublist n.toNat v).subperm).mpr hcollision⟩

/-- Two spellings of one page have been visited, and the text of its host is known. -/
def twoSpellings : SearchEnv where
  contribs := .plainHttp
  maps := UrlFreqStats.insertAll .init
    [(⟨Str.ofString "http://a", 0, 1⟩, 0), (⟨Str.ofString "http://a/", 0, 1⟩, 0)]
  hostDb := knownHost
  urlDb := default
  now := 0

/-- A round with the target 2 pushes the page twice. -/
theorem not_pushesDistinct_twoSpellings :
    ¬ ∀ env : SearchEnv, env.maps.Reachable → PushesDistinct env fun v n => v.take n.toNat := by
  intro h
  have hreach : twoSpellings.maps.Reachable :=
    Or.inl (.insertVisitsPack (.insertVisitsPack .init _ le_rfl 0) _ le_rfl 0)
  have hhour : twoSpellings.maps.hourMap.GetTopUrls
      [(Str.ofString "http://a", 1), (Str.ofString "http://a/", 1)] :=
    ⟨by decide +kernel, by decide⟩
  have hday : twoSpellings.maps.dayMap.GetTopUrls
      [(Str.ofString "http://a", 1), (Str.ofString "http://a/", 1)] :=
    ⟨by decide +kernel, by decide⟩
  have hfirst : Filter twoSpellings 2
      [(Str.ofString "http://a/", 1), (Str.ofString "http://a/", 1)] :=
    ⟨[(Str.ofString "http://a", 1), (Str.ofString "http://a/", 1)], [],
      ⟨_, _, hhour, hday, by decide +kernel, by decide⟩,
      by decide +kernel, by decide +kernel⟩
  have hnodup := h twoSpellings hreach 2 _ [] _ hfirst trivial rfl
  exact absurd hnodup (by decide)

end Contentv1.EnqueueLoop
