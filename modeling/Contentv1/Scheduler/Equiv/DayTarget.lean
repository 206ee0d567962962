import Contentv1.Scheduler.Equiv.DayQuota
import Contentv1.Scheduler.Equiv.SearchTop

/-!
# The target of a day

Within a day that starts without counters, `pushed_eq_target`: where every round finds what was
saved before it merged, and no merge falls between its readings, a round in the last hour tops up
to `target_day_crawl` exactly if there are enough URLs.

* `length_searchTop_of_enough`: where there are as many URLs to crawl as asked for, the search gives
  that many, whatever the other threads do between its turns.
* `Balanced` goes beside `Quota`: the saved ENQUEUED records count exactly what was pushed, and what
  a round reads adds up to it, whatever part of it has finished.
-/

namespace Contentv1.EnqueueLoop

open CrawledDb

/-! ### Enough URLs -/

/-- There are `n` URLs to crawl: so many are put out for all URLs of the statistics. -/
def HasCrawlable (env : SearchEnv) (n : ℤ) : Prop :=
  ∃ all uniq, AllUrls env all ∧
    ReduceUrlFreqs (env.hostDb.leaveAllowedByRobots env.contribs all).needRobots uniq ∧
    n ≤ (needCrawlUrls env.contribs env.hostDb env.urlDb all uniq env.now).2.length

/-- A possible reading of a turn where there are `n` URLs to crawl.  The statistics, which fit into
memory, and the stores are as this turn finds them. -/
def EnoughRead (n top : ℤ) (read : FilterRead) : Prop :=
  ∃ env : SearchEnv, env.maps.Reachable ∧ env.maps.urls.length < 2 ^ 62 ∧ HasCrawlable env n ∧
    Filter env top read.pushUrls ∧ read.max = env.maps.max

/-- Possible readings of the turns of the loop of `searchTop` where at each of them there are `n`
URLs to crawl. -/
def EnoughReads (n : ℤ) : ℤ → List FilterRead → Prop
  | _, [] => True
  | topCur, read :: reads =>
    EnoughRead n (topCur * 2) read ∧ EnoughReads n (topCur * 2) reads

/-- A turn that finds too few has a ceiling that is a limit. -/
theorem EnoughRead.ceiling {n top : ℤ} {read : FilterRead} (h : EnoughRead n top read)
    (hlt : top < 2 ^ 32) (hfew : (read.pushUrls.length : ℤ) < n) :
    top < 2 ^ 31 ∧ top ≤ read.max := by
  obtain ⟨env, hmaps, hsize, ⟨all, uniq, hall, huniq, hn⟩, hfilter, hmax⟩ := h
  have hurls : env.maps.max = env.maps.urls.length := LastPerMaps.max_of_reachable hmaps
  by_contra! hceiling
  -- without a limit the turn finds all there is
  have hunlimited : (env.maps.urls.length : ℤ) ≤ top ∨ 2 ^ 31 ≤ top := by
    by_cases htop : top < 2 ^ 31
    · left
      have hover := hceiling htop
      omega
    · exact Or.inr (not_lt.mp htop)
  have hlen := hfilter.length_eq hall huniq (le_limitSize_toInt hsize hunlimited hlt)
  omega

theorem le_length_searchTopLoop {n topCur : ℤ} (htop : topCur < 2 ^ 31)
    {reads : List FilterRead} {pushUrls : List UrlFreq} (hreads : EnoughReads n topCur reads)
    (h : searchTopLoop n topCur reads = some pushUrls) : n ≤ pushUrls.length := by
  induction reads generalizing topCur with
  | nil => cases h
  | cons read reads ih =>
    obtain ⟨hread, hreads⟩ := hreads
    rw [searchTopLoop] at h
    split_ifs at h with henough hceiling
    · obtain rfl := Option.some.inj h
      exact henough
    · have hle := (hread.ceiling (by omega) (not_le.mp henough)).2
      omega
    · exact ih (hread.ceiling (by omega) (not_le.mp henough)).1 hreads h

/-- **Where there is enough, the search gives what it is asked for.** -/
theorem length_searchTop_of_enough {limitVector : List UrlFreq → ℤ → List UrlFreq}
    (hlimit : LimitsTo limitVector) {n : ℤ} (hpos : 0 ≤ n) (hint : n ≤ 2 ^ 31 - 1)
    {first : List UrlFreq} {reads : List FilterRead} {pushUrls : List UrlFreq}
    (hreads : EnoughReads n n reads) (h : searchTop limitVector n first reads = some pushUrls) :
    (pushUrls.length : ℤ) = n := by
  unfold searchTop at h
  obtain ⟨found, hfound, rfl⟩ := Option.map_eq_some_iff.mp h
  have henough : n ≤ found.length := by
    split_ifs at hfound with hfirst
    · obtain rfl := Option.some.inj hfound
      exact hfirst
    · exact le_length_searchTopLoop (by omega) hreads hfound
  split_ifs with hmore
  · exact hlimit found n hpos henough
  · omega

/-! ### The steps of an orderly day -/

/-- What is saved is merged before a round reads its first counter, no merge falls between its
readings, and what the workers report has been fetched. -/
def Label.Orderly (misc : MiscTime) (start : ℤ) (s : State) : Label → Prop
  | .readCounter =>
    s.enqueueTh.Fresh → ∀ status ∈ AttemptStatus.all,
      s.crawledDb.unmergedOn (genFakeUrlForResult status.value) (misc.getDayStr start) = 0
  | .crawled a => a = .switch → s.enqueueTh.reads → s.enqueueTh.Fresh
  | .onFetched results _ => ∀ res ∈ results, res.status ≠ .enqueued
  | _ => True

instance (misc : MiscTime) (start : ℤ) (s : State) :
    ∀ a : Label, Decidable (a.Orderly misc start s)
  | .readCounter => inferInstanceAs (Decidable (_ → ∀ status ∈ AttemptStatus.all, _))
  | .crawled _ => inferInstanceAs (Decidable (_ → _ → _))
  | .onFetched results _ => inferInstanceAs (Decidable (∀ res ∈ results, res.status ≠ _))
  | .start _ | .search _ _ _ _ | .push | .saveEnqueued _ | .setEnqueued | .sleep
  | .saveResult _ _ => isTrue trivial

variable {env : Env} {start : ℤ} {s t : State}

/-- All that was pushed is in the ENQUEUED counter once it is merged, and in the two sums of a round
that reads. -/
structure Balanced (env : Env) (start : ℤ) (s : State) : Prop where
  calls : ∀ call ∈ s.calls, ∀ p ∈ call, p.1 ≠ .enqueued
  enqueued : s.topic.length + s.enqueueTh.ahead
    = s.crawledDb.totalOn (genFakeUrlForResult AttemptStatus.enqueued.value)
        (env.misc.getDayStr start) + s.enqueueTh.toSave
  merged : s.enqueueTh.reads → ¬ s.enqueueTh.Fresh →
    s.crawledDb.unmergedOn (genFakeUrlForResult AttemptStatus.enqueued.value)
      (env.misc.getDayStr start) = 0
  counters : ∀ todo crawledToday inProgress,
    s.enqueueTh = .reading todo crawledToday inProgress → ¬ s.enqueueTh.Fresh →
    crawledToday + leftToday env.misc s.crawledDb.urlsDays todo
      + (inProgress + leftInProgress env.misc s.crawledDb.urlsDays todo) = s.topic.length

theorem balanced_init (urlDb : UrlDb) : Balanced env start (.init urlDb) where
  calls := nofun
  enqueued := by
    show (0 : ℤ) + 0 = (UrlsDaysDb.openDb ∅).totalOn _ _ + 0
    rw [UrlsDaysDb.totalOn_openDb]
  merged := nofun
  counters := nofun

/-- A reading keeps the two sums with what is to come. -/
theorem sums_readCounter {misc : MiscTime} {db : UrlsLastDays} {todo todo' : List CounterRead}
    {crawledToday crawledToday' inProgress inProgress' : ℤ} {read : CounterRead}
    (h : readCounter misc db todo crawledToday inProgress read
      = .reading todo' crawledToday' inProgress') :
    crawledToday' + leftToday misc db todo' + (inProgress' + leftInProgress misc db todo')
      = crawledToday + leftToday misc db (read :: todo)
        + (inProgress + leftInProgress misc db (read :: todo)) := by
  unfold leftToday leftInProgress
  rw [List.map_cons, List.sum_cons, List.map_cons, List.sum_cons]
  cases read <;>
  · cases h
    dsimp only
    omega

/-- A call saves the statuses that results have. -/
theorem ne_enqueued_of_mem_onFetched {results : List FetchResult}
    (h : ∀ res ∈ results, res.status ≠ .enqueued) : ∀ p ∈ onFetched results, p.1 ≠ .enqueued := by
  rintro ⟨status, cnt⟩ hp rfl
  obtain ⟨hmem, hcnt⟩ := List.mem_filter.mp hp
  obtain ⟨status, -, heq⟩ := List.mem_map.mp hmem
  obtain ⟨rfl, rfl⟩ := Prod.mk.inj heq
  have hnone : results.countP (fun res => res.status = .enqueued) = 0 :=
    List.countP_eq_zero.mpr fun res hres => by simpa using h res hres
  simp [hnone] at hcnt

/-- The ENQUEUED counter of a round that reads is merged. -/
theorem unmergedOn_enqueued_of_orderly (hs : Balanced env start s)
    (horderly : Label.Orderly env.misc start s .readCounter) (hreads : s.enqueueTh.reads) :
    s.crawledDb.unmergedOn (genFakeUrlForResult AttemptStatus.enqueued.value)
      (env.misc.getDayStr start) = 0 := by
  by_cases hfresh : s.enqueueTh.Fresh
  · exact horderly hfresh .enqueued (AttemptStatus.mem_all _)
  · exact hs.merged hreads hfresh

/-- With the first reading the sums are what was pushed. -/
theorem sums_eq_pushed (hstore : UrlsDaysDb.WithinDay env.misc start s.crawledDb)
    (hs : Balanced env start s) {todo : List CounterRead} {crawledToday inProgress : ℤ}
    (hth : s.enqueueTh = .reading todo crawledToday inProgress)
    (hmerged : s.crawledDb.unmergedOn (genFakeUrlForResult AttemptStatus.enqueued.value)
      (env.misc.getDayStr start) = 0) :
    crawledToday + leftToday env.misc s.crawledDb.urlsDays todo
      + (inProgress + leftInProgress env.misc s.crawledDb.urlsDays todo) = s.topic.length := by
  by_cases hfresh : s.enqueueTh.Fresh
  · obtain ⟨enqueuedFirst, hfresh⟩ := hfresh
    obtain ⟨rfl, rfl, rfl⟩ := EnqueueTh.reading.inj (hth.symm.trans hfresh)
    have henqueued := hs.enqueued
    rw [hth] at henqueued
    simp only [EnqueueTh.ahead, EnqueueTh.toSave] at henqueued
    rw [leftToday_counterReads, leftInProgress_counterReads, getInProgress,
      getTodayEvents_eq_visitsOn hstore.stored]
    unfold UrlsDaysDb.State.totalOn at henqueued
    omega
  · exact hs.counters todo crawledToday inProgress hth hfresh

/-! ### What a step preserves -/

theorem balanced_readCounter (h : step env s .readCounter = some t)
    (horderly : Label.Orderly env.misc start s .readCounter)
    (hstore : UrlsDaysDb.WithinDay env.misc start s.crawledDb) (hs : Balanced env start s) :
    Balanced env start t := by
  obtain ⟨read, todo, crawledToday, inProgress, hth, rfl⟩ := step_readCounter.mp h
  have hmerged := unmergedOn_enqueued_of_orderly hs horderly (by rw [hth]; rfl)
  have hsums := sums_eq_pushed hstore hs hth hmerged
  have henqueued := hs.enqueued
  rw [hth] at henqueued
  refine ⟨hs.calls, ?_, fun _ _ => hmerged, ?_⟩
  · cases read <;> exact henqueued
  · intro todo' crawledToday' inProgress' heq _
    exact (sums_readCounter heq).trans hsums

theorem balanced_search {hours : ℕ} {first : List UrlFreq} {reads : List FilterRead}
    {attemptTp : ℤ} (h : step env s (.search hours first reads attemptTp) = some t)
    (hs : Balanced env start s) : Balanced env start t := by
  obtain ⟨crawledToday, inProgress, pushUrls, hth, -, -, rfl⟩ := step_search.mp h
  have henqueued := hs.enqueued
  rw [hth] at henqueued
  refine ⟨hs.calls, ?_, nofun, nofun⟩
  show (s.topic.length : ℤ) + (toUrlsVec pushUrls).length
    = s.crawledDb.totalOn _ _ + (toUrlsVec pushUrls).length
  simp only [EnqueueTh.ahead, EnqueueTh.toSave, add_zero] at henqueued
  rw [henqueued]

theorem balanced_push (h : step env s .push = some t) (hs : Balanced env start s) :
    Balanced env start t := by
  obtain ⟨url, rest, pushUrls, attemptTp, hth, rfl⟩ := step_push.mp h
  have henqueued := hs.enqueued
  rw [hth] at henqueued
  refine ⟨hs.calls, ?_, nofun, nofun⟩
  simp only [EnqueueTh.ahead, EnqueueTh.toSave, List.length_cons, List.length_append,
    List.length_nil] at henqueued ⊢
  omega

theorem balanced_saveEnqueued {now : ℤ} (h : step env s (.saveEnqueued now) = some t)
    (hclock : ∀ now, env.clock now → OnDay env.misc start now)
    (hstore : UrlsDaysDb.WithinDay env.misc start s.crawledDb) (hs : Balanced env start s) :
    Balanced env start t := by
  obtain ⟨pushUrls, attemptTp, db, hth, hnow, hdb, rfl⟩ := step_saveEnqueued.mp h
  have hsaved := totalOn_enqueued_save hdb hstore (hclock now hnow) (Int.natCast_nonneg _)
  have henqueued := hs.enqueued
  rw [hth] at henqueued
  refine ⟨hs.calls, ?_, nofun, nofun⟩
  show (s.topic.length : ℤ) + 0 = db.totalOn _ _ + 0
  rw [hsaved]
  simp only [EnqueueTh.ahead, EnqueueTh.toSave, List.length_nil] at henqueued
  omega

/-- Results of fetches leave the ENQUEUED counter alone. -/
theorem balanced_onFetched {results : List FetchResult} {now : ℤ}
    (h : step env s (.onFetched results now) = some t)
    (horderly : Label.Orderly env.misc start s (.onFetched results now))
    (hs : Balanced env start s) : Balanced env start t := by
  obtain ⟨-, -, urlDb, -, rfl⟩ := step_onFetched.mp h
  refine ⟨?_, hs.enqueued, hs.merged, hs.counters⟩
  intro call hcall
  rcases List.mem_cons.mp hcall with rfl | hcall
  · exact ne_enqueued_of_mem_onFetched horderly
  · exact hs.calls call hcall

theorem balanced_saveResult {i : ℕ} {now : ℤ} (h : step env s (.saveResult i now) = some t)
    (hclock : ∀ now, env.clock now → OnDay env.misc start now)
    (hstore : UrlsDaysDb.WithinDay env.misc start s.crawledDb)
    (hcnt : ∀ call ∈ s.calls, ∀ p ∈ call, 0 ≤ p.2) (hs : Balanced env start s) :
    Balanced env start t := by
  obtain ⟨status, cnt, rest, db, hcall, hnow, hdb, rfl⟩ := step_saveResult.mp h
  have hmem := List.mem_of_getElem? hcall
  have hstatus : status ≠ .enqueued := hs.calls _ hmem (status, cnt) List.mem_cons_self
  obtain ⟨-, htotal⟩ := UrlsDaysDb.withinDay_save hdb hstore (hclock now hnow)
    (hcnt _ hmem (status, cnt) List.mem_cons_self)
  have hurlsDays : db.urlsDays = s.crawledDb.urlsDays :=
    UrlsDaysDb.urlsDays_step (by simp) (by simp) hdb
  have hsame : db.totalOn (genFakeUrlForResult AttemptStatus.enqueued.value)
        (env.misc.getDayStr start)
      = s.crawledDb.totalOn (genFakeUrlForResult AttemptStatus.enqueued.value)
        (env.misc.getDayStr start) := by
    have hne : (saveResult status cnt now).url
        ≠ genFakeUrlForResult AttemptStatus.enqueued.value :=
      fun heq => hstatus (genFakeUrlForResult_injective status .enqueued heq)
    rw [htotal, if_neg hne, add_zero]
  refine ⟨?_, ?_, fun hreads hfresh => ?_, ?_⟩
  · intro call hcall'
    rcases List.mem_cons.mp hcall' with rfl | hcall'
    · exact fun p hp => hs.calls _ hmem p (List.mem_cons_of_mem _ hp)
    · exact hs.calls call (List.mem_of_mem_eraseIdx hcall')
  · dsimp only
    rw [hsame]
    exact hs.enqueued
  · exact (UrlsDaysDb.unmergedOn_congr hurlsDays hsame).trans (hs.merged hreads hfresh)
  · dsimp only
    rw [hurlsDays]
    exact hs.counters

theorem balanced_crawled (hmono : env.misc.DaysInOrder)
    (hclock : ∀ now, env.clock now → OnDay env.misc start now) {a : UrlsDaysDb.Label}
    (h : step env s (.crawled a) = some t)
    (horderly : Label.Orderly env.misc start s (.crawled a))
    (hstore : UrlsDaysDb.WithinDay env.misc start s.crawledDb) (hs : Balanced env start s) :
    Balanced env start t := by
  obtain ⟨db, hdb, rfl⟩ := step_crawled.mp h
  obtain ⟨-, htotal⟩ := UrlsDaysDb.withinDay_threadStep hmono hclock hdb hstore
  have henqueued : (s.topic.length : ℤ) + s.enqueueTh.ahead
      = db.totalOn (genFakeUrlForResult AttemptStatus.enqueued.value) (env.misc.getDayStr start)
        + s.enqueueTh.toSave := by
    rw [htotal]
    exact hs.enqueued
  by_cases ha : a = .switch
  · -- a round that has begun to read has come to its last reading
    refine ⟨hs.calls, henqueued, fun hreads hfresh => absurd (horderly ha hreads) hfresh, ?_⟩
    intro todo crawledToday inProgress hth hfresh
    cases todo with
    | nil => exact hs.counters [] crawledToday inProgress hth hfresh
    | cons read todo =>
      have hth : s.enqueueTh = .reading (read :: todo) crawledToday inProgress := hth
      exact absurd (horderly ha (by rw [hth]; rfl)) hfresh
  · have hurlsDays := UrlsDaysDb.urlsDays_threadStep hdb ha
    refine ⟨hs.calls, henqueued, fun hreads hfresh => ?_, ?_⟩
    · exact (UrlsDaysDb.unmergedOn_congr hurlsDays (htotal _)).trans (hs.merged hreads hfresh)
    · dsimp only
      rw [hurlsDays]
      exact hs.counters

theorem balanced_step (hmono : env.misc.DaysInOrder)
    (hclock : ∀ now, env.clock now → OnDay env.misc start now) {a : Label}
    (h : step env s a = some t) (horderly : a.Orderly env.misc start s)
    (hquota : Quota env start s) (hs : Balanced env start s) : Balanced env start t := by
  cases a with
  | start enqueuedFirst =>
    obtain ⟨hth, rfl⟩ := step_start.mp h
    have henqueued := hs.enqueued
    rw [hth] at henqueued
    refine ⟨hs.calls, henqueued, fun _ hfresh => ?_, fun _ _ _ _ hfresh => ?_⟩ <;>
      exact absurd ⟨enqueuedFirst, rfl⟩ hfresh
  | readCounter => exact balanced_readCounter h horderly hquota.store hs
  | search hours first reads attemptTp => exact balanced_search h hs
  | push => exact balanced_push h hs
  | saveEnqueued now => exact balanced_saveEnqueued h hclock hquota.store hs
  | setEnqueued =>
    obtain ⟨pushUrls, attemptTp, hth, rfl⟩ := step_setEnqueued.mp h
    have henqueued := hs.enqueued
    rw [hth] at henqueued
    exact ⟨hs.calls, henqueued, nofun, nofun⟩
  | sleep =>
    obtain ⟨hth, rfl⟩ := step_sleep.mp h
    have henqueued := hs.enqueued
    rw [hth] at henqueued
    exact ⟨hs.calls, henqueued, nofun, nofun⟩
  | onFetched results now => exact balanced_onFetched h horderly hs
  | saveResult i now => exact balanced_saveResult h hclock hquota.store hquota.calls hs
  | crawled a => exact balanced_crawled hmono hclock h horderly hquota.store hs

/-- Orderly steps are timely. -/
theorem timely_of_orderly {a : Label} (hs : Balanced env start s)
    (horderly : a.Orderly env.misc start s) : a.Timely env.misc start s := by
  constructor
  · rintro rfl hreads
    refine unmergedOn_enqueued_of_orderly hs horderly ?_
    generalize s.enqueueTh = th at hreads
    revert hreads
    fun_cases EnqueueTh.readsEnqueued th <;> simp [EnqueueTh.reads]
  · rintro rfl hreads hfresh
    exact absurd (horderly rfl hreads) hfresh

/-! ### The last hour -/

/-- What is pushed and about to be pushed never gets less. -/
theorem pushed_le_of_step {a : Label} (h : step env s a = some t) :
    (s.topic.length : ℤ) + s.enqueueTh.ahead ≤ t.topic.length + t.enqueueTh.ahead := by
  cases a with
  | start enqueuedFirst =>
    obtain ⟨hth, rfl⟩ := step_start.mp h
    rw [hth]
    exact le_refl _
  | readCounter =>
    obtain ⟨read, todo, crawledToday, inProgress, hth, rfl⟩ := step_readCounter.mp h
    rw [hth]
    cases read <;> exact le_refl _
  | search hours first reads attemptTp =>
    obtain ⟨crawledToday, inProgress, pushUrls, hth, -, -, rfl⟩ := step_search.mp h
    rw [hth]
    exact Int.add_le_add_left (Int.natCast_nonneg _) _
  | push =>
    obtain ⟨url, rest, pushUrls, attemptTp, hth, rfl⟩ := step_push.mp h
    rw [hth]
    simp only [EnqueueTh.ahead, List.length_cons, List.length_append, List.length_nil]
    omega
  | saveEnqueued now =>
    obtain ⟨pushUrls, attemptTp, db, hth, -, -, rfl⟩ := step_saveEnqueued.mp h
    rw [hth]
    exact le_refl _
  | setEnqueued =>
    obtain ⟨pushUrls, attemptTp, hth, rfl⟩ := step_setEnqueued.mp h
    rw [hth]
    exact le_refl _
  | sleep =>
    obtain ⟨hth, rfl⟩ := step_sleep.mp h
    rw [hth]
    exact le_refl _
  | onFetched results now =>
    obtain ⟨-, -, urlDb, -, rfl⟩ := step_onFetched.mp h
    exact le_refl _
  | saveResult i now =>
    obtain ⟨status, cnt, rest, db, -, -, -, rfl⟩ := step_saveResult.mp h
    exact le_refl _
  | crawled a =>
    obtain ⟨db, -, rfl⟩ := step_crawled.mp h
    exact le_refl _

/-- How many URLs the search of a round asks for. -/
def State.pushTarget (env : Env) (s : State) (hoursTillMidnight : ℕ) : ℤ :=
  match s.enqueueTh with
  | .reading _ crawledToday inProgress =>
    calcToEnqueueNow (calcHourTarget env.targetDayCrawl crawledToday hoursTillMidnight) inProgress
  | _ => 0

/-- In the last hour the target of a round is all that is left of the day. -/
theorem calcToEnqueueNow_eq {targetDayCrawl pushed crawledToday inProgress : ℤ} {hours : ℕ}
    (hhours : hours ≤ 1) (hpushed : pushed ≤ targetDayCrawl)
    (hsums : crawledToday + inProgress = pushed) :
    calcToEnqueueNow (calcHourTarget targetDayCrawl crawledToday hours) inProgress
      = targetDayCrawl - pushed := by
  have hhour : calcHourTarget targetDayCrawl crawledToday hours
      = targetDayCrawl - crawledToday := by
    unfold calcHourTarget
    rcases Nat.le_one_iff_eq_zero_or_eq_one.mp hhours with rfl | rfl
    · exact if_pos rfl
    · exact Int.tdiv_one _
  rw [hhour]
  unfold calcToEnqueueNow
  split_ifs <;> omega

/-- **The last round** finds all that is left of the day. -/
theorem pushed_eq_target_of_search (hlimit : LimitsTo env.limitVector)
    (hint : env.targetDayCrawl ≤ 2 ^ 31 - 1) {hours : ℕ} {first : List UrlFreq}
    {reads : List FilterRead} {attemptTp : ℤ} (hhours : hours ≤ 1)
    (hreads : EnoughReads (s.pushTarget env hours) (s.pushTarget env hours) reads)
    (h : step env s (.search hours first reads attemptTp) = some t)
    (hquota : Quota env start s) (hs : Balanced env start s) :
    t.topic.length + t.enqueueTh.ahead = env.targetDayCrawl := by
  obtain ⟨crawledToday, inProgress, pushUrls, hth, -, hpush, rfl⟩ := step_search.mp h
  have hfresh : ¬ s.enqueueTh.Fresh := by
    rw [hth]
    rintro ⟨enqueuedFirst, heq⟩
    cases enqueuedFirst <;> cases heq
  have hsums := hs.counters [] crawledToday inProgress hth hfresh
  simp only [leftToday, leftInProgress, List.map_nil, List.sum_nil, add_zero] at hsums
  have hleft := hquota.quota
  rw [hth] at hleft
  simp only [EnqueueTh.ahead, add_zero] at hleft
  have htarget := calcToEnqueueNow_eq hhours hleft hsums
  have hrequested : s.pushTarget env hours = env.targetDayCrawl - s.topic.length := by
    unfold State.pushTarget
    rw [hth]
    exact htarget
  rw [hrequested] at hreads
  rw [htarget] at hpush
  have hfound : (pushUrls.length : ℤ) = env.targetDayCrawl - s.topic.length := by
    unfold checkEnqueueImpl at hpush
    split_ifs at hpush with hnone
    · obtain rfl := Option.some.inj hpush
      rw [List.length_nil]
      omega
    · exact length_searchTop_of_enough hlimit (by omega) (by omega) hreads hpush
  show (s.topic.length : ℤ) + (toUrlsVec pushUrls).length = env.targetDayCrawl
  rw [toUrlsVec, List.length_map, hfound]
  omega

/-- **The target of the day is met.**  In every run of a day whose steps are orderly, once a round
with at most one hour left has searched where there are as many URLs to crawl as it asks for, what
is pushed and about to be pushed is the target of the day, so that it is pushed when the round has
returned. -/
theorem pushed_eq_target (env : Env) {start : ℤ} (hmono : env.misc.DaysInOrder)
    (hlimit : Limits env.limitVector) (hlimitTo : LimitsTo env.limitVector)
    (htarget : 0 ≤ env.targetDayCrawl) (hint : env.targetDayCrawl ≤ 2 ^ 31 - 1)
    (hclock : ∀ now, env.clock now → OnDay env.misc start now) (urlDb : UrlDb)
    {before after : List Label} {hours : ℕ} {first : List UrlFreq} {reads : List FilterRead}
    {attemptTp : ℤ} {s t : State} (hhours : hours ≤ 1)
    (hbefore : Machine.run (step env) (.init urlDb) before = some s)
    (hafter : Machine.run (step env) s (.search hours first reads attemptTp :: after) = some t)
    (hreads : EnoughReads (s.pushTarget env hours) (s.pushTarget env hours) reads)
    (horderly : Machine.Meets (step env) (fun s a => a.Orderly env.misc start s) (.init urlDb)
      (before ++ .search hours first reads attemptTp :: after)) :
    t.topic.length + t.enqueueTh.ahead = env.targetDayCrawl ∧
      (t.enqueueTh = .returned → t.topic.length = env.targetDayCrawl) := by
  have hinv : ∀ s a t, step env s a = some t → a.Orderly env.misc start s →
      Quota env start s ∧ Balanced env start s → Quota env start t ∧ Balanced env start t :=
    fun s a t h ok hs => ⟨quota_step hmono hclock hlimit h (timely_of_orderly hs.2 ok) hs.1,
      balanced_step hmono hclock h ok hs.1 hs.2⟩
  obtain ⟨hmeets, hmeets'⟩ := (Machine.meets_append_of_run hbefore).mp horderly
  obtain ⟨u, hsearch, hrest⟩ := Machine.run_cons_eq_some.mp hafter
  obtain ⟨hok, hmeets''⟩ := (Machine.meets_cons_of_step hsearch).mp hmeets'
  have hs : Quota env start s ∧ Balanced env start s :=
    (Machine.along_of_meets hinv hmeets
      ⟨quota_init urlDb htarget, balanced_init urlDb⟩).last hbefore
  have hfull := pushed_eq_target_of_search hlimitTo hint hhours hreads hsearch hs.1 hs.2
  -- from then on there is nothing more to push
  have hstays : t.topic.length + t.enqueueTh.ahead = env.targetDayCrawl := by
    refine (Machine.along_of_meets (P := fun s => (Quota env start s ∧ Balanced env start s) ∧
      s.topic.length + s.enqueueTh.ahead = env.targetDayCrawl) ?_ hmeets''
      ⟨hinv s _ u hsearch hok hs, hfull⟩).last hrest |>.2
    rintro v a w h ok ⟨hv, hfull⟩
    have hw := hinv v a w h ok hv
    exact ⟨hw, le_antisymm hw.1.quota (hfull.ge.trans (pushed_le_of_step h))⟩
  refine ⟨hstays, fun hth => ?_⟩
  rw [hth] at hstays
  exact (add_zero _).symm.trans hstays

/-- A round that pushes its share of a day with two hours left, the result of what it pushed, the
merge of both, and the readings of the next round. -/
def shareRound : List Label :=
  .start true :: List.replicate 9 .readCounter ++
    [.search 2 [(Str.ofString "http://b/", 1)] [] (seconds 1), .push, .saveEnqueued (seconds 1),
      .setEnqueued, .sleep,
      .onFetched [⟨⟨Str.ofString "http://b/", 1⟩, .ok, default, default⟩] (seconds 2),
      .saveResult 0 (seconds 2), .crawled .mergeStart, .crawled (.tryDequeue 0 (seconds 3)),
      .crawled (.tryDequeue 0 (seconds 3)), .crawled .drained, .crawled .copy,
      .crawled (.mergeLocal (seconds 3)), .crawled .switch] ++
    .start false :: List.replicate 9 .readCounter

/-- The next round finds a page that was not there when it began to search. -/
def lastRound : List Label :=
  [.search 1 [] [⟨[(Str.ofString "http://a/", 2)], 1⟩] (seconds 4), .push,
    .saveEnqueued (seconds 4), .setEnqueued]

/-- One visited page of a host whose text is known. -/
def onePage : SearchEnv :=
  ⟨.plainHttp, LastPerMaps.init.insert ⟨Str.ofString "http://a/", 0⟩ 0, knownHost, default, 0⟩

theorem enoughRead_onePage : EnoughRead 1 2 ⟨[(Str.ofString "http://a/", 2)], 1⟩ := by
  have hhour : onePage.maps.hourMap.GetTopUrls [(Str.ofString "http://a/", 1)] :=
    ⟨by decide +kernel, by decide⟩
  have hday : onePage.maps.dayMap.GetTopUrls [(Str.ofString "http://a/", 1)] :=
    ⟨by decide +kernel, by decide⟩
  have hall : AllUrls onePage [(Str.ofString "http://a/", 2)] := by
    unfold AllUrls
    decide +kernel
  have huniq : ReduceUrlFreqs (onePage.hostDb.leaveAllowedByRobots onePage.contribs
      [(Str.ofString "http://a/", 2)]).needRobots [] := by decide +kernel
  refine ⟨onePage, Or.inl (.insert .init _ 0), by decide +kernel, ⟨_, [], hall, huniq, ?_⟩,
    ⟨[(Str.ofString "http://a/", 2)], [], ⟨_, _, hhour, hday, ?_, by decide⟩, huniq, ?_⟩, ?_⟩ <;>
    decide +kernel

/-- The first round pushes its share, and the second the rest. -/
theorem pushed_eq_target_lastRound :
    ∃ s t, Machine.run (step (.firstDay 2)) (.init default) shareRound = some s ∧
      Machine.run (step (.firstDay 2)) s lastRound = some t ∧ t.enqueueTh = .returned ∧
      t.topic.length = 2 := by
  have hrun : ∃ s, Machine.run (step (.firstDay 2)) (.init default) shareRound = some s ∧
      s.pushTarget (.firstDay 2) 1 = 1 ∧
      ∃ t, Machine.run (step (.firstDay 2)) s lastRound = some t ∧ t.enqueueTh = .returned := by
    decide +kernel
  obtain ⟨s, hs, hasked, t, ht, hth⟩ := hrun
  have horderly : Machine.Meets (step (.firstDay 2)) (fun s a => a.Orderly .nearEpoch 0 s)
      (.init default) (shareRound ++ lastRound) := by
    decide +kernel
  have hpushed := pushed_eq_target (.firstDay 2) MiscTime.daysInOrder_nearEpoch limits_take
    limitsTo_take (by decide) (by decide) (fun now hnow => of_decide_eq_true hnow) default le_rfl
    hs ht (by rw [hasked]; exact ⟨enoughRead_onePage, trivial⟩) horderly
  have hlen : (t.topic.length : ℤ) = 2 := hpushed.2 hth
  exact ⟨s, t, hs, ht, hth, by omega⟩

end Contentv1.EnqueueLoop
