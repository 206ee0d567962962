import Contentv1.Scheduler.Equiv.Rounds
import Contentv1.Ldb.Equiv.CrawledDb

/-!
# The quota of a day

Within a day that starts without counters, `along_pushed_le_target`: the rounds push no more than
`target_day_crawl` URLs as long as every round finds the ENQUEUED records of the earlier ones merged
when it reads their counter, and no merge round brings finished crawls while it reads.  Two rounds
before the first merge push the quota twice (`not_along_pushed_le_target_twoRounds`).

The invariant is `Quota`: the saved ENQUEUED records count all that was pushed by earlier rounds,
the saved finished ones at most what was reported, and what the round is about to push still fits.
What the readings of a round add up to is in `CountersOk`.
-/

namespace Contentv1.EnqueueLoop

open CrawledDb

/-! ### What is saved for a status -/

/-- The made-up URL of a status is the one of its number only. -/
theorem genFakeUrlForResult_eq_iff : ∀ status ∈ AttemptStatus.all, ∀ id ∈ enumFinishedValues,
    genFakeUrlForResult status.value = genFakeUrlForResult id ↔ status.value = id := by
  decide

/-- The part of a pack of `status` that counts as finished. -/
def finishedPart (status : AttemptStatus) (cnt : ℤ) : ℤ :=
  if status.value ∈ enumFinishedValues then cnt else 0

/-- Exactly one of the finished counters gets the pack of a finished status. -/
theorem sum_finished_eq (status : AttemptStatus) (cnt : ℤ) :
    (enumFinishedValues.map fun id =>
        if genFakeUrlForResult status.value = genFakeUrlForResult id then cnt else 0).sum
      = finishedPart status cnt := by
  have hcongr : (enumFinishedValues.map fun id =>
        if genFakeUrlForResult status.value = genFakeUrlForResult id then cnt else 0)
      = enumFinishedValues.map fun id => if status.value = id then cnt else 0 := by
    apply List.map_congr_left
    intro id hid
    exact if_congr (genFakeUrlForResult_eq_iff status status.mem_all id hid) rfl rfl
  rw [hcongr]
  show ([2, 3, 4, 5].map fun id => if status.value = id then cnt else 0).sum
    = if status.value ∈ [2, 3, 4, 5] then cnt else 0
  cases status <;> simp [AttemptStatus.value]

/-- What a call has yet to save of finished crawls. -/
def finishedIn (call : List (AttemptStatus × ℤ)) : ℤ :=
  (call.map fun p => finishedPart p.1 p.2).sum

theorem finishedIn_filter (call : List (AttemptStatus × ℤ)) :
    finishedIn (call.filter fun p => p.2 ≠ 0) = finishedIn call := by
  unfold finishedIn
  induction call with
  | nil => rfl
  | cons p call ih =>
    by_cases hp : p.2 = 0
    · have hzero : finishedPart p.1 p.2 = 0 := by
        unfold finishedPart
        rw [hp, ite_self]
      rw [List.filter_cons_of_neg (by simpa using hp), ih, List.map_cons, List.sum_cons, hzero,
        zero_add]
    · rw [List.filter_cons_of_pos (by simpa using hp), List.map_cons, List.map_cons, List.sum_cons,
        List.sum_cons, ih]

theorem finishedIn_all (cnt : AttemptStatus → ℤ) :
    finishedIn (AttemptStatus.all.map fun status => (status, cnt status))
      = cnt .ok + cnt .curlErr + cnt .s4xx + cnt .s5xx := by
  show (0 : ℤ) + (0 + (cnt .ok + (cnt .curlErr + (cnt .s4xx + (cnt .s5xx + 0))))) = _
  omega

/-- A call saves no more finished crawls than it was given results. -/
theorem finishedIn_onFetched_le (results : List FetchResult) :
    finishedIn (onFetched results) ≤ results.length := by
  unfold onFetched
  rw [finishedIn_filter, finishedIn_all]
  induction results with
  | nil => decide
  | cons res results ih =>
    simp only [List.countP_cons]
    cases res.status <;>
    · simp
      omega

theorem finishedIn_nonneg {call : List (AttemptStatus × ℤ)} (h : ∀ p ∈ call, 0 ≤ p.2) :
    0 ≤ finishedIn call := by
  apply List.sum_nonneg
  intro c hc
  obtain ⟨p, hp, rfl⟩ := List.mem_map.mp hc
  unfold finishedPart
  split_ifs
  · exact h p hp
  · exact le_refl 0

/-- The finished crawls that are saved. -/
def finishedTotal (misc : MiscTime) (start : ℤ) (s : UrlsDaysDb.State) : ℤ :=
  (enumFinishedValues.map fun id =>
    s.totalOn (genFakeUrlForResult id) (misc.getDayStr start)).sum

variable {env : Env} {start : ℤ} {s t : State}

theorem finishedTotal_save {db db' : UrlsDaysDb.State} {status : AttemptStatus} {cnt : ℤ}
    (h : ∀ url, db'.totalOn url (env.misc.getDayStr start)
      = db.totalOn url (env.misc.getDayStr start)
        + if genFakeUrlForResult status.value = url then cnt else 0) :
    finishedTotal env.misc start db'
      = finishedTotal env.misc start db + finishedPart status cnt := by
  unfold finishedTotal
  rw [← sum_finished_eq, ← List.sum_map_add]
  congr 1
  exact List.map_congr_left fun id _ => h (genFakeUrlForResult id)

theorem finishedTotal_congr {db db' : UrlsDaysDb.State}
    (h : ∀ url, db'.totalOn url (env.misc.getDayStr start)
      = db.totalOn url (env.misc.getDayStr start)) :
    finishedTotal env.misc start db' = finishedTotal env.misc start db :=
  congrArg List.sum (List.map_congr_left fun id _ => h (genFakeUrlForResult id))

/-- A round adds what it has pushed to the ENQUEUED records that are saved. -/
theorem totalOn_enqueued_save {db db' : UrlsDaysDb.State} {cnt now : ℤ}
    (h : UrlsDaysDb.step env.misc db (.save (saveResult .enqueued cnt now)) = some db')
    (hdb : UrlsDaysDb.WithinDay env.misc start db) (hnow : OnDay env.misc start now)
    (hcnt : 0 ≤ cnt) :
    db'.totalOn (genFakeUrlForResult AttemptStatus.enqueued.value) (env.misc.getDayStr start)
      = db.totalOn (genFakeUrlForResult AttemptStatus.enqueued.value) (env.misc.getDayStr start)
        + cnt :=
  ((UrlsDaysDb.withinDay_save h hdb hnow hcnt).2 _).trans (congrArg _ (if_pos rfl))

/-- What can be read of finished crawls is saved. -/
theorem getFinishedToday_le {db : UrlsDaysDb.State} (hdb : UrlsDaysDb.WithinDay env.misc start db) :
    getFinishedToday env.misc db.urlsDays ≤ finishedTotal env.misc start db := by
  unfold getFinishedToday finishedTotal
  apply List.sum_le_sum
  intro id _
  rw [getTodayEvents_eq_visitsOn hdb.stored]
  exact le_add_of_nonneg_right (UrlsDaysDb.unmergedOn_nonneg hdb _)

/-! ### What the readings of a round add up to -/

/-- What the readings to come will take from the crawls in progress. -/
def leftFinished (misc : MiscTime) (db : UrlsLastDays) (todo : List CounterRead) : ℤ :=
  (todo.map fun
    | .finished id => getTodayEvents misc db id
    | _ => 0).sum

/-- The finished crawls are the same in both sums, and the crawls in progress are at least those
that were pushed and have not finished. -/
def CountersOk (misc : MiscTime) (db : UrlsLastDays) (pushed : ℤ) (todo : List CounterRead)
    (crawledToday inProgress : ℤ) : Prop :=
  (∀ id, .crawledToday id ∈ todo ∨ .finished id ∈ todo → id ∈ enumFinishedValues) ∧
    ∃ finished ≤ pushed, crawledToday + leftToday misc db todo = finished ∧
      (if CounterRead.enqueued ∈ todo then 0 else pushed) - finished
        ≤ inProgress - leftFinished misc db todo

theorem countersOk_start {misc : MiscTime} {db : UrlsLastDays} {pushed : ℤ}
    (hfinished : getFinishedToday misc db ≤ pushed) (enqueuedFirst : Bool) :
    CountersOk misc db pushed (counterReads enqueuedFirst) 0 0 := by
  refine ⟨?_, getFinishedToday misc db, hfinished, ?_, ?_⟩
  · intro id hid
    cases enqueuedFirst <;> simpa [counterReads] using hid
  · cases enqueuedFirst <;>
    · simp [counterReads, leftToday, getFinishedToday, Function.comp_def]
  · rw [if_pos (by cases enqueuedFirst <;> simp [counterReads])]
    cases enqueuedFirst <;>
    · simp [counterReads, leftFinished, getFinishedToday, Function.comp_def]

/-- A reading moves a counter from what is to come to the sums.  That of the ENQUEUED counter must
find all that was pushed. -/
theorem countersOk_readCounter {misc : MiscTime} {db : UrlsLastDays} {pushed : ℤ}
    {read : CounterRead} {todo : List CounterRead} {crawledToday inProgress : ℤ}
    (hpushed : 0 ≤ pushed)
    (henqueued : read = .enqueued → pushed ≤ getTodayEvents misc db AttemptStatus.enqueued.value)
    (h : CountersOk misc db pushed (read :: todo) crawledToday inProgress) :
    ∀ todo' crawledToday' inProgress',
      readCounter misc db todo crawledToday inProgress read
        = .reading todo' crawledToday' inProgress' →
      CountersOk misc db pushed todo' crawledToday' inProgress' := by
  obtain ⟨hids, finished, hle, htoday, hprogress⟩ := h
  have hids' : ∀ id, .crawledToday id ∈ todo ∨ .finished id ∈ todo → id ∈ enumFinishedValues :=
    fun id hid => hids id (hid.imp (List.mem_cons_of_mem read) (List.mem_cons_of_mem read))
  unfold leftToday at htoday
  unfold leftFinished at hprogress
  rw [List.map_cons, List.sum_cons] at htoday hprogress
  intro todo' crawledToday' inProgress' heq
  cases read with
  | crawledToday id | finished id =>
    cases heq
    dsimp only at htoday hprogress
    refine ⟨hids', finished, hle, ?_, ?_⟩
    · unfold leftToday
      omega
    · simp only [List.mem_cons, reduceCtorEq, false_or] at hprogress
      unfold leftFinished
      omega
  | enqueued =>
    cases heq
    dsimp only at htoday hprogress
    refine ⟨hids', finished, hle, ?_, ?_⟩
    · unfold leftToday
      omega
    · have hread := henqueued rfl
      rw [if_pos List.mem_cons_self] at hprogress
      unfold leftFinished
      split_ifs <;> omega

/-- The sums do not depend on counters that are read already. -/
theorem CountersOk.congr {misc : MiscTime} {db db' : UrlsLastDays} {pushed : ℤ}
    {todo : List CounterRead} {crawledToday inProgress : ℤ}
    (hdb : todo ≠ [] → ∀ id ∈ enumFinishedValues,
      getTodayEvents misc db' id = getTodayEvents misc db id)
    (h : CountersOk misc db pushed todo crawledToday inProgress) :
    CountersOk misc db' pushed todo crawledToday inProgress := by
  obtain ⟨hids, finished, hle, htoday, hprogress⟩ := h
  have hleftToday : leftToday misc db' todo = leftToday misc db todo := by
    refine congrArg List.sum (List.map_congr_left fun read hread => ?_)
    cases read with
    | crawledToday id => exact hdb (List.ne_nil_of_mem hread) id (hids id (Or.inl hread))
    | _ => rfl
  have hleftFinished : leftFinished misc db' todo = leftFinished misc db todo := by
    refine congrArg List.sum (List.map_congr_left fun read hread => ?_)
    cases read with
    | finished id => exact hdb (List.ne_nil_of_mem hread) id (hids id (Or.inr hread))
    | _ => rfl
  rw [← hleftToday] at htoday
  rw [← hleftFinished] at hprogress
  exact ⟨hids, finished, hle, htoday, hprogress⟩

/-- **The target of a round** is within what is left of the day. -/
theorem calcToEnqueueNow_le {targetDayCrawl pushed crawledToday inProgress : ℤ} {misc : MiscTime}
    {db : UrlsLastDays} (h : CountersOk misc db pushed [] crawledToday inProgress)
    (hpushed : pushed ≤ targetDayCrawl) (hours : ℕ) :
    pushed + max (calcToEnqueueNow (calcHourTarget targetDayCrawl crawledToday hours) inProgress) 0
      ≤ targetDayCrawl := by
  obtain ⟨-, finished, hle, htoday, hprogress⟩ := h
  have htoday : crawledToday = finished := by
    rw [← htoday]
    exact (add_zero crawledToday).symm
  have hprogress : pushed - finished ≤ inProgress := by
    rw [if_neg List.not_mem_nil] at hprogress
    exact hprogress.trans (sub_zero inProgress).le
  -- an hour's share of what is left of the day is not more than that
  have hhour : calcHourTarget targetDayCrawl crawledToday hours ≤ targetDayCrawl - finished := by
    unfold calcHourTarget
    subst htoday
    have hleft : 0 ≤ targetDayCrawl - crawledToday := by omega
    dsimp only
    split_ifs
    · exact le_refl _
    · rw [Int.tdiv_eq_ediv_of_nonneg hleft]
      exact Int.ediv_le_self _ hleft
  unfold calcToEnqueueNow
  split_ifs <;> omega

/-! ### The invariant -/

/-- The URLs that the round has yet to push. -/
def EnqueueTh.ahead : EnqueueTh → ℤ
  | .pushing rest _ _ => rest.length
  | _ => 0

/-- The URLs that the round has yet to save as ENQUEUED. -/
def EnqueueTh.toSave : EnqueueTh → ℤ
  | .pushing _ pushUrls _ => pushUrls.length
  | _ => 0

structure Quota (env : Env) (start : ℤ) (s : State) : Prop where
  store : UrlsDaysDb.WithinDay env.misc start s.crawledDb
  reported : (s.reported.map FetchResult.gfq).Subperm s.topic
  calls : ∀ call ∈ s.calls, ∀ p ∈ call, 0 ≤ p.2
  enqueued : s.topic.length + s.enqueueTh.ahead
    ≤ s.crawledDb.totalOn (genFakeUrlForResult AttemptStatus.enqueued.value)
        (env.misc.getDayStr start) + s.enqueueTh.toSave
  finished : finishedTotal env.misc start s.crawledDb + (s.calls.map finishedIn).sum
    ≤ s.reported.length
  counters : ∀ todo crawledToday inProgress,
    s.enqueueTh = .reading todo crawledToday inProgress →
    CountersOk env.misc s.crawledDb.urlsDays s.topic.length todo crawledToday inProgress
  quota : s.topic.length + s.enqueueTh.ahead ≤ env.targetDayCrawl

/-- The next reading is that of the ENQUEUED counter. -/
def EnqueueTh.readsEnqueued : EnqueueTh → Bool
  | .reading (.enqueued :: _) _ _ => true
  | _ => false

/-- There are readings to come. -/
def EnqueueTh.reads : EnqueueTh → Bool
  | .reading (_ :: _) _ _ => true
  | _ => false

/-- No counter has been read yet. -/
def EnqueueTh.Fresh (th : EnqueueTh) : Prop :=
  ∃ enqueuedFirst, th = .reading (counterReads enqueuedFirst) 0 0

instance (th : EnqueueTh) : Decidable th.Fresh :=
  inferInstanceAs (Decidable (∃ _, _))

/-- The step does not reach the defect: a round reads the ENQUEUED counter when all such records
are merged, and between its first and its last reading no finished crawls are merged. -/
def Label.Timely (misc : MiscTime) (start : ℤ) (s : State) (a : Label) : Prop :=
  (a = .readCounter → s.enqueueTh.readsEnqueued →
    s.crawledDb.unmergedOn (genFakeUrlForResult AttemptStatus.enqueued.value)
      (misc.getDayStr start) = 0) ∧
  (a = .crawled .switch → s.enqueueTh.reads → ¬ s.enqueueTh.Fresh →
    ∀ id ∈ enumFinishedValues, s.crawledDb.mergeTh.pending.visitsOn (genFakeUrlForResult id)
      (misc.getDayStr start) = 0)

instance (misc : MiscTime) (start : ℤ) (s : State) (a : Label) :
    Decidable (a.Timely misc start s) :=
  inferInstanceAs (Decidable (_ ∧ _))

theorem sum_finishedIn_nonneg (hs : Quota env start s) : 0 ≤ (s.calls.map finishedIn).sum := by
  apply List.sum_nonneg
  intro c hc
  obtain ⟨call, hcall, rfl⟩ := List.mem_map.mp hc
  exact finishedIn_nonneg (hs.calls call hcall)

/-- What can be read of finished crawls was pushed before, also after a merge. -/
theorem getFinishedToday_le_pushed (hs : Quota env start s) {db : UrlsDaysDb.State}
    (hdb : UrlsDaysDb.WithinDay env.misc start db)
    (htotal : finishedTotal env.misc start db = finishedTotal env.misc start s.crawledDb) :
    getFinishedToday env.misc db.urlsDays ≤ s.topic.length := by
  have hread := getFinishedToday_le hdb
  have hcalls := sum_finishedIn_nonneg hs
  have hfinished := hs.finished
  have hreported : s.reported.length ≤ s.topic.length := by
    have hlen := hs.reported.length_le
    rwa [List.length_map] at hlen
  omega

theorem quota_init (urlDb : UrlDb) (htarget : 0 ≤ env.targetDayCrawl) :
    Quota env start (.init urlDb) where
  store := UrlsDaysDb.withinDay_openDb
  reported := List.Subperm.refl _
  calls := nofun
  enqueued := by
    show (0 : ℤ) + 0 ≤ (UrlsDaysDb.openDb ∅).totalOn _ _ + 0
    rw [UrlsDaysDb.totalOn_openDb]
  finished := by
    show finishedTotal env.misc start (UrlsDaysDb.openDb ∅) + 0 ≤ (0 : ℤ)
    unfold finishedTotal
    simp only [UrlsDaysDb.totalOn_openDb]
    decide
  counters := nofun
  quota := htarget

/-- A step of the store's threads keeps the counters of a round that reads. -/
theorem countersOk_crawled (hmono : env.misc.DaysInOrder)
    (hclock : ∀ now, env.clock now → OnDay env.misc start now) {a : UrlsDaysDb.Label}
    {db : UrlsDaysDb.State}
    (h : UrlsDaysDb.threadStep env.misc env.clock s.crawledDb a = some db)
    (htimely : Label.Timely env.misc start s (.crawled a)) (hs : Quota env start s)
    (todo : List CounterRead) (crawledToday inProgress : ℤ)
    (hth : s.enqueueTh = .reading todo crawledToday inProgress) :
    CountersOk env.misc db.urlsDays s.topic.length todo crawledToday inProgress := by
  obtain ⟨hstore, htotal⟩ := UrlsDaysDb.withinDay_threadStep hmono hclock h hs.store
  by_cases hfresh : s.enqueueTh.Fresh
  · -- the round has not begun to read
    obtain ⟨enqueuedFirst, hfresh⟩ := hfresh
    obtain ⟨rfl, rfl, rfl⟩ := EnqueueTh.reading.inj (hth.symm.trans hfresh)
    exact countersOk_start (getFinishedToday_le_pushed hs hstore
      (finishedTotal_congr fun url => htotal url)) enqueuedFirst
  apply (hs.counters todo crawledToday inProgress hth).congr
  intro hne id hid
  by_cases ha : a = .switch
  · subst ha
    obtain ⟨read, todo, rfl⟩ := List.exists_cons_of_ne_nil hne
    rw [getTodayEvents_eq_visitsOn hstore.stored, getTodayEvents_eq_visitsOn hs.store.stored,
      UrlsDaysDb.visitsOn_switch hmono hs.store h,
      htimely.2 rfl (by rw [hth]; rfl) hfresh id hid, add_zero]
  · rw [UrlsDaysDb.urlsDays_threadStep h ha]

/-! ### What a step preserves -/

theorem quota_readCounter (h : step env s .readCounter = some t)
    (htimely : Label.Timely env.misc start s .readCounter) (hs : Quota env start s) :
    Quota env start t := by
  obtain ⟨hstore, hreported, hcalls, henqueued, hfinished, hcounters, hquota⟩ := hs
  obtain ⟨read, todo, crawledToday, inProgress, hth, rfl⟩ := step_readCounter.mp h
  have hread := hcounters (read :: todo) crawledToday inProgress hth
  have hidle : ∀ db, (readCounter env.misc db todo crawledToday inProgress read).ahead = 0 ∧
      (readCounter env.misc db todo crawledToday inProgress read).toSave = 0 := by
    intro db
    cases read <;> exact ⟨rfl, rfl⟩
  rw [hth] at henqueued hquota
  simp only [EnqueueTh.ahead, EnqueueTh.toSave] at henqueued hquota
  refine ⟨hstore, hreported, hcalls, ?_, hfinished, ?_, ?_⟩
  · dsimp only
    rw [(hidle _).1, (hidle _).2]
    exact henqueued
  · refine countersOk_readCounter (Int.natCast_nonneg _) ?_ hread
    rintro rfl
    -- what is saved of ENQUEUED records is merged
    have hmerged := htimely.1 rfl (by rw [hth]; rfl)
    rw [getTodayEvents_eq_visitsOn hstore.stored]
    unfold UrlsDaysDb.State.totalOn at henqueued
    dsimp only
    omega
  · dsimp only
    rw [(hidle _).1]
    exact hquota

/-- What a round finds is at most what is left of the day. -/
theorem quota_search (hlimit : Limits env.limitVector) {hours : ℕ} {first : List UrlFreq}
    {reads : List FilterRead} {attemptTp : ℤ}
    (h : step env s (.search hours first reads attemptTp) = some t) (hs : Quota env start s) :
    Quota env start t := by
  obtain ⟨hstore, hreported, hcalls, henqueued, hfinished, hcounters, hquota⟩ := hs
  obtain ⟨crawledToday, inProgress, pushUrls, hth, -, hpush, rfl⟩ := step_search.mp h
  have hlen := length_checkEnqueueImpl_le hlimit hpush
  rw [hth] at henqueued hquota
  -- what is searched for still fits into the day, and no more than that is found
  have hleft : (s.topic.length : ℤ) ≤ env.targetDayCrawl :=
    (add_zero _).symm.le.trans hquota
  have htarget :=
    calcToEnqueueNow_le (hcounters [] crawledToday inProgress hth) hleft hours
  have hurls : (toUrlsVec pushUrls).length = pushUrls.length := List.length_map _
  simp only [EnqueueTh.ahead, EnqueueTh.toSave] at henqueued
  refine ⟨hstore, hreported, hcalls, ?_, hfinished, nofun, ?_⟩
  · show (s.topic.length : ℤ) + (toUrlsVec pushUrls).length
      ≤ s.crawledDb.totalOn _ _ + (toUrlsVec pushUrls).length
    omega
  · show (s.topic.length : ℤ) + (toUrlsVec pushUrls).length ≤ env.targetDayCrawl
    omega

theorem quota_push (h : step env s .push = some t) (hs : Quota env start s) :
    Quota env start t := by
  obtain ⟨hstore, hreported, hcalls, henqueued, hfinished, hcounters, hquota⟩ := hs
  obtain ⟨url, rest, pushUrls, attemptTp, hth, rfl⟩ := step_push.mp h
  rw [hth] at henqueued hquota
  -- the URL goes from those ahead to the topic
  refine ⟨hstore, hreported.trans (List.sublist_append_left _ _).subperm, hcalls, ?_, hfinished,
    nofun, ?_⟩
  · simp only [EnqueueTh.ahead, EnqueueTh.toSave, List.length_cons, List.length_append,
      List.length_nil] at henqueued ⊢
    omega
  · simp only [EnqueueTh.ahead, List.length_cons, List.length_append, List.length_nil]
      at hquota ⊢
    omega

theorem quota_saveEnqueued (hclock : ∀ now, env.clock now → OnDay env.misc start now) {now : ℤ}
    (h : step env s (.saveEnqueued now) = some t) (hs : Quota env start s) :
    Quota env start t := by
  obtain ⟨hstore, hreported, hcalls, henqueued, hfinished, hcounters, hquota⟩ := hs
  obtain ⟨pushUrls, attemptTp, db, hth, hnow, hdb, rfl⟩ := step_saveEnqueued.mp h
  rw [hth] at henqueued hquota
  obtain ⟨hstore', htotal⟩ :=
    UrlsDaysDb.withinDay_save hdb hstore (hclock now hnow) (Int.natCast_nonneg _)
  have hsaved := totalOn_enqueued_save hdb hstore (hclock now hnow) (Int.natCast_nonneg _)
  have hfinished' : finishedTotal env.misc start db
      = finishedTotal env.misc start s.crawledDb + finishedPart .enqueued pushUrls.length :=
    finishedTotal_save htotal
  refine ⟨hstore', hreported, hcalls, ?_, ?_, nofun, hquota⟩
  · show (s.topic.length : ℤ) + 0 ≤ db.totalOn _ _ + 0
    rw [hsaved]
    simp only [EnqueueTh.ahead, EnqueueTh.toSave, List.length_nil] at henqueued
    omega
  · have hpart : finishedPart .enqueued pushUrls.length = 0 := rfl
    dsimp only
    omega

theorem quota_onFetched {results : List FetchResult} {now : ℤ}
    (h : step env s (.onFetched results now) = some t) (hs : Quota env start s) :
    Quota env start t := by
  obtain ⟨hstore, hreported, hcalls, henqueued, hfinished, hcounters, hquota⟩ := hs
  obtain ⟨-, hsub, urlDb, -, rfl⟩ := step_onFetched.mp h
  -- a new call has no more to save than there are new results
  have hresults := finishedIn_onFetched_le results
  refine ⟨hstore, hsub, ?_, henqueued, ?_, hcounters, hquota⟩
  · intro call hcall
    rcases List.mem_cons.mp hcall with rfl | hcall
    · exact cnt_nonneg_of_mem_onFetched
    · exact hcalls call hcall
  · rw [List.map_cons, List.sum_cons, List.length_append]
    push_cast
    omega

theorem quota_saveResult (hclock : ∀ now, env.clock now → OnDay env.misc start now) {i : ℕ}
    {now : ℤ} (h : step env s (.saveResult i now) = some t) (hs : Quota env start s) :
    Quota env start t := by
  obtain ⟨hstore, hreported, hcalls, henqueued, hfinished, hcounters, hquota⟩ := hs
  obtain ⟨status, cnt, rest, db, hcall, hnow, hdb, rfl⟩ := step_saveResult.mp h
  have hmem := hcalls _ (List.mem_of_getElem? hcall)
  have hcnt : 0 ≤ cnt := hmem (status, cnt) List.mem_cons_self
  obtain ⟨hstore', htotal⟩ := UrlsDaysDb.withinDay_save hdb hstore (hclock now hnow) hcnt
  have hfinished' : finishedTotal env.misc start db
      = finishedTotal env.misc start s.crawledDb + finishedPart status cnt :=
    finishedTotal_save htotal
  refine ⟨hstore', hreported, ?_, ?_, ?_, ?_, hquota⟩
  · intro call hcall'
    rcases List.mem_cons.mp hcall' with rfl | hcall'
    · exact fun p hp => hmem p (List.mem_cons_of_mem _ hp)
    · exact hcalls call (List.mem_of_mem_eraseIdx hcall')
  · have hsaved := htotal (genFakeUrlForResult AttemptStatus.enqueued.value)
    have hge : 0 ≤ if (saveResult status cnt now).url
        = genFakeUrlForResult AttemptStatus.enqueued.value then cnt else 0 := by
      split_ifs
      · exact hcnt
      · exact le_refl 0
    show s.topic.length + s.enqueueTh.ahead ≤ db.totalOn _ _ + s.enqueueTh.toSave
    rw [hsaved]
    show _ ≤ _ + (if (saveResult status cnt now).url = _ then cnt else 0) + _
    omega
  · -- what the call has saved is no longer to be saved
    have hperm := UrlsDaysDb.sum_map_eraseIdx finishedIn hcall
    have hcons : finishedIn ((status, cnt) :: rest) = finishedPart status cnt + finishedIn rest :=
      rfl
    rw [List.map_cons, List.sum_cons]
    dsimp only
    omega
  · dsimp only
    rw [UrlsDaysDb.urlsDays_step (by simp) (by simp) hdb]
    exact hcounters

theorem quota_crawled (hmono : env.misc.DaysInOrder)
    (hclock : ∀ now, env.clock now → OnDay env.misc start now) {a : UrlsDaysDb.Label}
    (h : step env s (.crawled a) = some t) (htimely : Label.Timely env.misc start s (.crawled a))
    (hs : Quota env start s) : Quota env start t := by
  obtain ⟨db, hdb, rfl⟩ := step_crawled.mp h
  obtain ⟨hstore', htotal⟩ := UrlsDaysDb.withinDay_threadStep hmono hclock hdb hs.store
  have hfinished' : finishedTotal env.misc start db = finishedTotal env.misc start s.crawledDb :=
    finishedTotal_congr fun url => htotal url
  refine ⟨hstore', hs.reported, hs.calls, ?_, ?_, ?_, hs.quota⟩
  · dsimp only
    rw [htotal]
    exact hs.enqueued
  · dsimp only
    rw [hfinished']
    exact hs.finished
  · exact countersOk_crawled (s := s) hmono hclock hdb htimely hs

theorem quota_step (hmono : env.misc.DaysInOrder)
    (hclock : ∀ now, env.clock now → OnDay env.misc start now)
    (hlimit : Limits env.limitVector) {a : Label} (h : step env s a = some t)
    (htimely : a.Timely env.misc start s) (hs : Quota env start s) : Quota env start t := by
  cases a with
  | start enqueuedFirst =>
    obtain ⟨hth, rfl⟩ := step_start.mp h
    have henqueued := hs.enqueued
    have hquota := hs.quota
    rw [hth] at henqueued hquota
    refine ⟨hs.store, hs.reported, hs.calls, henqueued, hs.finished, ?_, hquota⟩
    rintro todo crawledToday inProgress heq
    cases heq
    exact countersOk_start (getFinishedToday_le_pushed hs hs.store rfl) enqueuedFirst
  | readCounter => exact quota_readCounter h htimely hs
  | search hours first reads attemptTp => exact quota_search hlimit h hs
  | push => exact quota_push h hs
  | saveEnqueued now => exact quota_saveEnqueued hclock h hs
  | setEnqueued =>
    obtain ⟨pushUrls, attemptTp, hth, rfl⟩ := step_setEnqueued.mp h
    have henqueued := hs.enqueued
    have hquota := hs.quota
    rw [hth] at henqueued hquota
    exact ⟨hs.store, hs.reported, hs.calls, henqueued, hs.finished, nofun, hquota⟩
  | sleep =>
    obtain ⟨hth, rfl⟩ := step_sleep.mp h
    have henqueued := hs.enqueued
    have hquota := hs.quota
    rw [hth] at henqueued hquota
    exact ⟨hs.store, hs.reported, hs.calls, henqueued, hs.finished, nofun, hquota⟩
  | onFetched results now => exact quota_onFetched h hs
  | saveResult i now => exact quota_saveResult hclock h hs
  | crawled a => exact quota_crawled hmono hclock h htimely hs

/-- **Where the quota holds.**  In every run of a day whose steps are timely, no more than the
target of the day is pushed. -/
theorem along_pushed_le_target (env : Env) {start : ℤ} (hmono : env.misc.DaysInOrder)
    (hlimit : Limits env.limitVector) (htarget : 0 ≤ env.targetDayCrawl)
    (hclock : ∀ now, env.clock now → OnDay env.misc start now) (urlDb : UrlDb) {l : List Label}
    (htimely : Machine.Meets (step env) (fun s a => a.Timely env.misc start s) (.init urlDb) l) :
    Machine.Along (step env) (fun s => (s.topic.length : ℤ) ≤ env.targetDayCrawl)
      (.init urlDb) l := by
  have halong := Machine.along_of_meets (P := Quota env start)
    (fun s a t h ok hs => quota_step hmono hclock hlimit h ok hs) htimely
    (quota_init urlDb htarget)
  apply halong.mono
  intro s hs
  have hahead : 0 ≤ s.enqueueTh.ahead := by
    cases s.enqueueTh with
    | pushing rest pushUrls attemptTp => exact Int.natCast_nonneg rest.length
    | _ => exact le_refl 0
  have hquota := hs.quota
  omega

/-- The first elements are no more than asked for. -/
theorem limits_take : Limits fun v n => v.take n.toNat := by
  intro v n hn
  have hlen := List.length_take_le n.toNat v
  dsimp only
  omega

/-- The first day of the calendar near the epoch. -/
def Env.firstDay (targetDayCrawl : ℤ) : Env where
  misc := .nearEpoch
  limitVector v n := v.take n.toNat
  targetDayCrawl := targetDayCrawl
  clock now := decide (OnDay .nearEpoch 0 now)

/-- A round that finds one URL. -/
def roundOf (url : Url) : List Label :=
  .start true :: List.replicate 9 .readCounter ++
    [.search 0 [(url, 1)] [] (seconds 1), .push, .saveEnqueued (seconds 1), .setEnqueued, .sleep]

/-- Two rounds before a merge. -/
def twoRounds : List Label :=
  roundOf (Str.ofString "http://a/") ++ roundOf (Str.ofString "http://b/")

/-- The second round does not see what the first one pushed. -/
theorem not_along_pushed_le_target_twoRounds :
    ∃ s, Machine.run (step (.firstDay 1)) (.init default) twoRounds = some s ∧
      ¬ Machine.Along (step (.firstDay 1)) (fun s => (s.topic.length : ℤ) ≤ 1) (.init default)
        twoRounds := by
  have hrun : ∃ s, Machine.run (step (.firstDay 1)) (.init default) twoRounds = some s ∧
      s.topic.length = 2 := by
    decide
  obtain ⟨s, hs, hlen⟩ := hrun
  refine ⟨s, hs, fun h => ?_⟩
  have hle := h.last hs
  omega

/-- A round, and a second one that starts before the merge of what the first saved has ended. -/
def mergedRounds : List Label :=
  roundOf (Str.ofString "http://a/") ++
    [.crawled .mergeStart, .crawled (.tryDequeue 0 (seconds 2)), .crawled .drained, .crawled .copy,
      .crawled (.mergeLocal (seconds 2)), .start false, .crawled .switch] ++
    List.replicate 9 .readCounter ++ [.search 1 [] [] (seconds 3)]

theorem along_pushed_le_target_mergedRounds :
    Machine.Along (step (.firstDay 1)) (fun s => (s.topic.length : ℤ) ≤ 1) (.init default)
      mergedRounds := by
  refine along_pushed_le_target (.firstDay 1) MiscTime.daysInOrder_nearEpoch limits_take
    (by decide) (fun now hnow => of_decide_eq_true hnow) default ?_
  decide +kernel

end Contentv1.EnqueueLoop
