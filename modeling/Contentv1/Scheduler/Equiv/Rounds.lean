import Contentv1.Scheduler.Rounds
import Mathlib.Tactic.SplitIfs
import Mathlib.Tactic.Ring

/-!
# The steps of the rounds

One lemma for each label says when it is enabled and what it does.  `length_checkEnqueueImpl_le`:
the search never gives more URLs than it was asked for.  `run_counterReads`: where nothing else acts
in between, the readings of a round add up to `getFinishedToday` and `getInProgress`.
-/

namespace Contentv1.EnqueueLoop

/-! ### The search -/

/-- `misc::limit_vector` keeps no more than it is told to. -/
def Limits (limitVector : List UrlFreq → ℤ → List UrlFreq) : Prop :=
  ∀ v n, 0 ≤ n → ((limitVector v n).length : ℤ) ≤ n

theorem length_searchTop_le {limitVector : List UrlFreq → ℤ → List UrlFreq}
    (hlimit : Limits limitVector) {pushTarget : ℤ} (hpos : 0 ≤ pushTarget) {first : List UrlFreq}
    {reads : List FilterRead} {pushUrls : List UrlFreq}
    (h : searchTop limitVector pushTarget first reads = some pushUrls) :
    (pushUrls.length : ℤ) ≤ pushTarget := by
  unfold searchTop at h
  obtain ⟨found, -, rfl⟩ := Option.map_eq_some_iff.mp h
  split_ifs with hmore
  · exact hlimit found pushTarget hpos
  · exact not_lt.mp hmore

theorem length_checkEnqueueImpl_le {limitVector : List UrlFreq → ℤ → List UrlFreq}
    (hlimit : Limits limitVector) {pushTarget : ℤ} {first : List UrlFreq}
    {reads : List FilterRead} {pushUrls : List UrlFreq}
    (h : checkEnqueueImpl limitVector pushTarget first reads = some pushUrls) :
    (pushUrls.length : ℤ) ≤ max pushTarget 0 := by
  unfold checkEnqueueImpl at h
  split_ifs at h with hpos
  · obtain rfl := Option.some.inj h
    exact le_max_right pushTarget 0
  · have hle := length_searchTop_le hlimit (not_le.mp hpos).le h
    exact hle.trans (le_max_left pushTarget 0)

/-- The search ends: once `top_cur` has passed what `max()` says at every turn, some turn was the
last one. -/
theorem isSome_searchTopLoop {pushTarget topCur max : ℤ} {reads : List FilterRead}
    (hmax : ∀ read ∈ reads, read.max ≤ max) (hlen : max < topCur * 2 ^ reads.length)
    (hne : reads ≠ []) : (searchTopLoop pushTarget topCur reads).isSome := by
  induction reads generalizing topCur with
  | nil => exact absurd rfl hne
  | cons read reads ih =>
    rw [searchTopLoop]
    split_ifs with hsize hceil
    · rfl
    · rfl
    · have hread : read.max ≤ max := hmax read List.mem_cons_self
      have hlen' : max < topCur * 2 * 2 ^ reads.length := by
        rw [List.length_cons, pow_succ] at hlen
        calc max < topCur * (2 ^ reads.length * 2) := hlen
          _ = topCur * 2 * 2 ^ reads.length := by ring
      refine ih (fun r hr => hmax r (List.mem_cons_of_mem read hr)) hlen' ?_
      rintro rfl
      -- the last turn had a ceiling above `max`
      rw [List.length_nil, pow_zero, mul_one] at hlen'
      omega

/-! ### One lemma for each label -/

variable {env : Env} {s t : State}

theorem step_start {enqueuedFirst : Bool} :
    step env s (.start enqueuedFirst) = some t ↔
      s.enqueueTh = .idle ∧
        { s with enqueueTh := .reading (counterReads enqueuedFirst) 0 0 } = t := by
  unfold step
  cases s.enqueueTh <;> simp

theorem step_readCounter :
    step env s .readCounter = some t ↔
      ∃ read todo crawledToday inProgress,
        s.enqueueTh = .reading (read :: todo) crawledToday inProgress ∧
        { s with
          enqueueTh := readCounter env.misc s.crawledDb.urlsDays todo crawledToday inProgress
            read } = t := by
  unfold step
  cases s.enqueueTh with
  | reading todo crawledToday inProgress => cases todo <;> simp
  | _ => simp

theorem step_search {hours : ℕ} {first : List UrlFreq} {reads : List FilterRead} {attemptTp : ℤ} :
    step env s (.search hours first reads attemptTp) = some t ↔
      ∃ crawledToday inProgress pushUrls,
        s.enqueueTh = .reading [] crawledToday inProgress ∧ env.clock attemptTp ∧
        checkEnqueueImpl env.limitVector
          (calcToEnqueueNow (calcHourTarget env.targetDayCrawl crawledToday hours) inProgress)
          first reads = some pushUrls ∧
        { s with enqueueTh := .pushing (toUrlsVec pushUrls) (toUrlsVec pushUrls) attemptTp }
          = t := by
  unfold step
  cases s.enqueueTh with
  | reading todo crawledToday inProgress =>
    cases todo with
    | nil =>
      dsimp only
      split_ifs with hclock
      · simp [hclock, Option.map_eq_some_iff]
      · simp [hclock]
    | cons read todo => simp
  | _ => simp

theorem step_push :
    step env s .push = some t ↔
      ∃ url rest pushUrls attemptTp, s.enqueueTh = .pushing (url :: rest) pushUrls attemptTp ∧
        { s with
          enqueueTh := .pushing rest pushUrls attemptTp
          topic := s.topic ++ [⟨url, env.misc.toInt64 attemptTp⟩] } = t := by
  unfold step
  cases s.enqueueTh with
  | pushing rest pushUrls attemptTp => cases rest <;> simp
  | _ => simp

theorem step_saveEnqueued {now : ℤ} :
    step env s (.saveEnqueued now) = some t ↔
      ∃ pushUrls attemptTp crawledDb, s.enqueueTh = .pushing [] pushUrls attemptTp ∧
        env.clock now ∧
        UrlsDaysDb.step env.misc s.crawledDb
          (.save (CrawledDb.saveResult .enqueued pushUrls.length now)) = some crawledDb ∧
        { s with enqueueTh := .saved pushUrls attemptTp, crawledDb := crawledDb } = t := by
  unfold step
  cases s.enqueueTh with
  | pushing rest pushUrls attemptTp =>
    cases rest with
    | nil =>
      dsimp only
      split_ifs with hclock
      · simp [hclock, Option.map_eq_some_iff]
      · simp [hclock]
    | cons url rest => simp
  | _ => simp

theorem step_setEnqueued :
    step env s .setEnqueued = some t ↔
      ∃ pushUrls attemptTp, s.enqueueTh = .saved pushUrls attemptTp ∧
        { s with
          enqueueTh := .returned
          urlDb := s.urlDb.setEnqueued env.misc pushUrls attemptTp } = t := by
  unfold step
  cases s.enqueueTh <;> simp

theorem step_sleep :
    step env s .sleep = some t ↔
      s.enqueueTh = .returned ∧ { s with enqueueTh := .idle } = t := by
  unfold step
  cases s.enqueueTh <;> simp

theorem step_onFetched {results : List FetchResult} {now : ℤ} :
    step env s (.onFetched results now) = some t ↔
      env.clock now ∧ ((s.reported ++ results).map FetchResult.gfq).Subperm s.topic ∧
        ∃ urlDb, s.urlDb.onFetched env.misc results now = some urlDb ∧
          { s with
            urlDb := urlDb
            reported := s.reported ++ results
            calls := CrawledDb.onFetched results :: s.calls } = t := by
  rw [step]
  split_ifs with hguard
  · rw [Option.map_eq_some_iff]
    exact ⟨fun h => ⟨hguard.1, hguard.2, h⟩, fun h => h.2.2⟩
  · constructor
    · intro h
      cases h
    · rintro ⟨hclock, hsub, -⟩
      exact absurd ⟨hclock, hsub⟩ hguard

theorem step_saveResult {i : ℕ} {now : ℤ} :
    step env s (.saveResult i now) = some t ↔
      ∃ status cnt rest crawledDb, s.calls[i]? = some ((status, cnt) :: rest) ∧ env.clock now ∧
        UrlsDaysDb.step env.misc s.crawledDb (.save (CrawledDb.saveResult status cnt now))
          = some crawledDb ∧
        { s with crawledDb := crawledDb, calls := rest :: s.calls.eraseIdx i } = t := by
  rcases hcall : s.calls[i]? with _ | _ | ⟨⟨status, cnt⟩, rest⟩
  · simp [step, hcall]
  · simp [step, hcall]
  · by_cases hclock : env.clock now
    · simp [step, hcall, hclock, Option.map_eq_some_iff]
    · simp [step, hcall, hclock]

theorem step_crawled {a : UrlsDaysDb.Label} :
    step env s (.crawled a) = some t ↔
      ∃ crawledDb, UrlsDaysDb.threadStep env.misc env.clock s.crawledDb a = some crawledDb ∧
        { s with crawledDb := crawledDb } = t :=
  Option.map_eq_some_iff

/-! ### What the readings of a round add up to -/

/-- What the readings to come will add to the finished crawls of the first sum. -/
def leftToday (misc : MiscTime) (db : UrlsLastDays) (todo : List CounterRead) : ℤ :=
  (todo.map fun
    | .crawledToday id => CrawledDb.getTodayEvents misc db id
    | _ => 0).sum

/-- What the readings to come will add to the crawls in progress. -/
def leftInProgress (misc : MiscTime) (db : UrlsLastDays) (todo : List CounterRead) : ℤ :=
  (todo.map fun
    | .crawledToday _ => 0
    | .enqueued => CrawledDb.getTodayEvents misc db AttemptStatus.enqueued.value
    | .finished id => -CrawledDb.getTodayEvents misc db id).sum

/-- Readings of a store that stands still. -/
theorem run_readCounter {todo : List CounterRead} {crawledToday inProgress : ℤ}
    (hth : s.enqueueTh = .reading todo crawledToday inProgress) :
    Machine.run (step env) s (todo.map fun _ => .readCounter)
      = some { s with
          enqueueTh := .reading [] (crawledToday + leftToday env.misc s.crawledDb.urlsDays todo)
            (inProgress + leftInProgress env.misc s.crawledDb.urlsDays todo) } := by
  induction todo generalizing s crawledToday inProgress with
  | nil =>
    obtain ⟨th, urlDb, db, topic, reported, calls⟩ := s
    obtain rfl : th = .reading [] crawledToday inProgress := hth
    show some _ = some _
    simp [leftToday, leftInProgress]
  | cons read todo ih =>
    have hstep : step env s .readCounter = some { s with
        enqueueTh := readCounter env.misc s.crawledDb.urlsDays todo crawledToday inProgress
          read } :=
      step_readCounter.mpr ⟨read, todo, crawledToday, inProgress, hth, rfl⟩
    rw [List.map_cons, Machine.run, hstep, Option.bind_some]
    cases read with
    | crawledToday id =>
      rw [ih rfl]
      simp [leftToday, leftInProgress, add_assoc]
    | enqueued =>
      rw [ih rfl]
      simp [leftToday, leftInProgress, add_assoc]
    | finished id =>
      rw [ih rfl]
      simp [leftToday, leftInProgress, add_assoc, sub_eq_add_neg]

theorem leftToday_counterReads {misc : MiscTime} {db : UrlsLastDays} (enqueuedFirst : Bool) :
    leftToday misc db (counterReads enqueuedFirst) = CrawledDb.getFinishedToday misc db := by
  cases enqueuedFirst <;>
  · simp [leftToday, counterReads, CrawledDb.getFinishedToday, Function.comp_def]

theorem leftInProgress_counterReads {misc : MiscTime} {db : UrlsLastDays} (enqueuedFirst : Bool) :
    leftInProgress misc db (counterReads enqueuedFirst) = CrawledDb.getInProgress misc db := by
  have hids : CrawledDb.enumFinishedValues = [2, 3, 4, 5] := rfl
  unfold leftInProgress counterReads CrawledDb.getInProgress CrawledDb.getFinishedToday
  rw [hids]
  cases enqueuedFirst <;>
  · simp
    omega

/-- **The readings of a round**, where nothing else acts in between, add up to `getFinishedToday`
and `getInProgress`. -/
theorem run_counterReads (enqueuedFirst : Bool) (hth : s.enqueueTh = .idle) :
    Machine.run (step env) s
        (.start enqueuedFirst :: (counterReads enqueuedFirst).map fun _ => .readCounter)
      = some { s with
          enqueueTh := .reading [] (CrawledDb.getFinishedToday env.misc s.crawledDb.urlsDays)
            (CrawledDb.getInProgress env.misc s.crawledDb.urlsDays) } := by
  have hstart : step env s (.start enqueuedFirst)
      = some { s with enqueueTh := .reading (counterReads enqueuedFirst) 0 0 } :=
    step_start.mpr ⟨hth, rfl⟩
  rw [Machine.run, hstart, Option.bind_some, run_readCounter rfl, leftToday_counterReads,
    leftInProgress_counterReads, zero_add, zero_add]

end Contentv1.EnqueueLoop
