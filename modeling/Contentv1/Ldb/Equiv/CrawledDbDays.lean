import Contentv1.Ldb.CrawledDbRun
import Contentv1.Ldb.Equiv.CrawledDb
import Contentv1.Ldb.Equiv.UrlsDaysLast

/-!
# The counters of `CrawledDb` over many days

`_getTodayEvents` reads the last day of a status, which need not be today.

* `Followed` is the invariant of a run: every saved pack is in one place, and the global object has
  the last days of what was merged (`KeepsLast`) as long as no pack came too late.
* `getTodayEvents_eq_lastDay`: once everything is merged, the count read is that of the last day on
  which the status was saved.
* `getFinishedToday_eq_iff` and `getInProgress_eq_iff` say exactly when the two counters are what
  they are named after.
-/

namespace Contentv1

namespace UrlsDays

variable {DAYS : ℕ} {misc : MiscTime} {ud : UrlsDays DAYS} {visits visits' : List UrlTpStat}

theorem daySum_of_perm (h : visits.Perm visits') (url : Url) (day : Str) :
    daySum misc visits url day = daySum misc visits' url day := by
  have hperm : (countsOn misc visits url day).Perm (countsOn misc visits' url day) :=
    (h.filter _).map _
  unfold daySum
  rw [hperm.sum_eq, hperm.isEmpty_eq]

theorem KeepsLast.of_perm (h : KeepsLast misc ud visits) (hperm : visits.Perm visits') :
    KeepsLast misc ud visits' := by
  refine ⟨fun url hentry => ?_, fun url day hday => ?_, fun url day hlast => ?_⟩
  · obtain ⟨v, hv, hurl⟩ := h.entry url hentry
    exact ⟨v, hperm.mem_iff.mp hv, hurl⟩
  · rw [← daySum_of_perm hperm]
    exact h.known url day hday
  · rw [← daySum_of_perm hperm]
    exact h.last url day fun v hv => hlast v (hperm.mem_iff.mp hv)

end UrlsDays

namespace CrawledDb

open UrlsDays

variable {misc : MiscTime} {o o' : Observed}

theorem holds_iff {ud : UrlsLastDays} {utp : UrlTpStat} :
    holds misc ud utp = true ↔ ((ud.daysOf utp.url)[misc.getDayStr utp.tp]?).isSome := by
  unfold holds daysOf
  cases ud.urlsDays[utp.url]? with
  | none => simp
  | some impl => simp

/-! ### The invariant -/

structure Followed (misc : MiscTime) (o : Observed) : Prop where
  inv : UrlsDaysDb.Invariant misc o.st
  /-- Every saved pack is in one place. -/
  places : (o.merged ++ o.round ++ o.st.q ++ o.lost).Perm (o.saved.map Saved.pack)
  pending : KeepsLast misc o.st.mergeTh.pending o.round
  stored : o.lost = [] → KeepsLast misc o.st.urlsDays o.merged
  ordered : o.saved.Pairwise fun r r' => r.tp ≤ r'.tp
  past : ∀ r ∈ o.saved, r.tp ≤ o.clock
  calls : ∀ call ∈ o.calls, 0 ≤ call.2
  nonneg : ∀ r ∈ o.saved, 0 ≤ r.cnt

theorem followed_init (misc : MiscTime) (clock : ℤ) : Followed misc (.init clock) where
  inv := UrlsDaysDb.invariant_openDb
  places := List.Perm.refl _
  pending := keepsLast_default misc
  stored := by
    intro _
    have hempty : UrlsDaysDb.loadSnapshot ∅ = default := by
      refine congrArg UrlsDays.mk (Std.ExtTreeMap.ext_getElem? fun url => ?_)
      have hload := UrlsDaysDb.getElem?_loadSnapshot ∅ url
      rw [Std.ExtTreeMap.getElem?_empty, Option.map_none] at hload
      exact hload.trans Std.ExtTreeMap.getElem?_empty.symm
    show KeepsLast misc (UrlsDaysDb.loadSnapshot ∅) []
    rw [hempty]
    exact keepsLast_default misc
  ordered := List.Pairwise.nil
  past := nofun
  calls := nofun
  nonneg := nofun

/-- A step of the store that moves no pack between the places. -/
theorem Followed.of_same {t : UrlsDaysDb.State} (h : Followed misc o)
    (hinv : UrlsDaysDb.Invariant misc t) (hq : t.q = o.st.q)
    (hpending : t.mergeTh.pending = o.st.mergeTh.pending) (hdays : t.urlsDays = o.st.urlsDays) :
    Followed misc { o with st := t } where
  inv := hinv
  places := by
    dsimp only
    rw [hq]
    exact h.places
  pending := by
    dsimp only
    rw [hpending]
    exact h.pending
  stored := by
    dsimp only
    rw [hdays]
    exact h.stored
  ordered := h.ordered
  past := h.past
  calls := h.calls
  nonneg := h.nonneg

/-- The merge thread takes a pack from the queue. -/
theorem Followed.tryDequeue (hmono : misc.DaysInOrder) (h : Followed misc o) {i : ℕ} {now : ℤ}
    {t : UrlsDaysDb.State} (ht : UrlsDaysDb.step misc o.st (.tryDequeue i now) = some t) :
    Followed misc (o.follow misc t (.tryDequeue i now)) := by
  have hinv := UrlsDaysDb.invariant_step _ ht h.inv
  obtain ⟨upd, utp, hth, hutp, rfl⟩ := UrlsDaysDb.step_tryDequeue.mp ht
  have hpending : KeepsLast misc upd o.round := by
    have := h.pending
    rwa [hth] at this
  have hq : o.st.q.Perm (utp :: o.st.q.eraseIdx i) := Machine.perm_cons_eraseIdx hutp
  have hplaces := h.places
  unfold Observed.follow
  simp only [hutp]
  split_ifs with hold
  · -- too old: `add` has dropped it
    have hsame : upd.add misc utp now = upd := by
      unfold UrlsDays.add
      rw [if_pos hold]
    rw [hsame] at hinv ⊢
    refine ⟨hinv, ?_, hpending, fun hlost => ?_, h.ordered, h.past, h.calls, h.nonneg⟩
    · refine List.Perm.trans ?_ hplaces
      rw [List.perm_iff_count]
      intro v
      have hcount := hq.count_eq v
      simp only [List.count_append, List.count_cons, List.count_nil] at hcount ⊢
      omega
    · simp at hlost
  · have hnew : now - utp.tp ≤ UrlsDays.duration 14 := not_lt.mp hold
    refine ⟨hinv, ?_, hpending.add hmono hnew, h.stored, h.ordered, h.past, h.calls, h.nonneg⟩
    refine List.Perm.trans ?_ hplaces
    rw [List.perm_iff_count]
    intro v
    have hcount := hq.count_eq v
    simp only [List.count_append, List.count_cons, List.count_nil] at hcount ⊢
    omega

/-- The merge thread puts what it holds into the global object. -/
theorem Followed.switch (h : Followed misc o) {t : UrlsDaysDb.State}
    (ht : UrlsDaysDb.step misc o.st .switch = some t) :
    Followed misc (o.follow misc t .switch) := by
  have hinv := UrlsDaysDb.invariant_step _ ht h.inv
  obtain ⟨upd, copy, hth, rfl⟩ := UrlsDaysDb.step_switch.mp ht
  obtain ⟨now, hcopy⟩ := h.inv.merged upd copy hth
  have hpending : KeepsLast misc upd o.round := by
    have := h.pending
    rwa [hth] at this
  refine ⟨hinv, ?_, keepsLast_default misc, fun hlost => ?_, h.ordered, h.past, h.calls, h.nonneg⟩
  · -- the round is parted into what the new object holds and what it does not
    refine List.Perm.trans ?_ h.places
    rw [List.perm_iff_count]
    intro utp
    have hpart := (List.filter_append_perm (holds misc copy) o.round).count_eq utp
    simp only [Observed.follow, List.count_append, List.count_nil] at hpart ⊢
    omega
  · obtain ⟨hlost, hround⟩ := List.append_eq_nil_iff.mp hlost
    have hheld : ∀ v ∈ o.round, holds misc copy v = true := by
      intro v hv
      have hnot := List.filter_eq_nil_iff.mp hround v hv
      simpa using hnot
    have hall : o.round.filter (holds misc copy) = o.round := List.filter_eq_self.mpr hheld
    show KeepsLast misc copy (o.merged ++ o.round.filter (holds misc copy))
    rw [hall, hcopy]
    apply (h.stored hlost).merge hpending
    intro v hv
    rw [← hcopy]
    exact holds_iff.mp (hheld v hv)

/-- A call hands its pack over. -/
theorem Followed.enqueue (h : Followed misc o) {i : ℕ} {now : ℤ} {call : AttemptStatus × ℤ}
    {t : UrlsDaysDb.State} (hnow : o.clock ≤ now) (hcall : o.calls[i]? = some call)
    (ht : UrlsDaysDb.step misc o.st (.save (CrawledDb.saveResult call.1 call.2 now)) = some t) :
    Followed misc { o with
      st := t, calls := o.calls.eraseIdx i, saved := o.saved ++ [⟨call.1, call.2, now⟩],
      clock := now } := by
  have hinv := UrlsDaysDb.invariant_step _ ht h.inv
  obtain rfl := UrlsDaysDb.step_save.mp ht
  have hcnt : 0 ≤ call.2 := h.calls call (List.mem_of_getElem? hcall)
  refine ⟨hinv, ?_, h.pending, h.stored, ?_, ?_, ?_, ?_⟩
  · rw [List.perm_iff_count]
    intro utp
    have hplaces := h.places.count_eq utp
    simp only [List.map_append, List.map_singleton, Saved.pack, List.count_append] at hplaces ⊢
    omega
  · refine List.pairwise_append.mpr ⟨h.ordered, List.pairwise_singleton _ _, fun r hr r' hr' => ?_⟩
    rw [List.mem_singleton.mp hr']
    exact (h.past r hr).trans hnow
  · refine List.forall_mem_append.mpr ⟨fun r hr => (h.past r hr).trans hnow, ?_⟩
    simp
  · exact fun c hc => h.calls c (List.mem_of_mem_eraseIdx hc)
  · refine List.forall_mem_append.mpr ⟨h.nonneg, ?_⟩
    simpa using hcnt

theorem Followed.store (hmono : misc.DaysInOrder) (h : Followed misc o) {a : UrlsDaysDb.Label}
    {t : UrlsDaysDb.State} (hsave : ∀ utp, a ≠ .save utp)
    (ht : UrlsDaysDb.step misc o.st a = some t) : Followed misc (o.follow misc t a) := by
  have hinv := UrlsDaysDb.invariant_step _ ht h.inv
  cases a with
  | save utp => exact absurd rfl (hsave utp)
  | tryDequeue i now => exact h.tryDequeue hmono ht
  | switch => exact h.switch ht
  | mergeStart =>
    obtain ⟨hth, rfl⟩ := UrlsDaysDb.step_mergeStart.mp ht
    exact h.of_same hinv rfl (by rw [hth]; rfl) rfl
  | drained =>
    obtain ⟨upd, hth, hq, rfl⟩ := UrlsDaysDb.step_drained.mp ht
    refine h.of_same hinv rfl ?_ rfl
    rw [hth]
    split_ifs with hempty
    · -- nothing was added in this round
      show (default : UrlsLastDays) = upd
      have hnil : upd.urlsDays = ∅ := Std.ExtTreeMap.isEmpty_iff.mp hempty
      exact congrArg UrlsDays.mk hnil.symm
    · rfl
  | copy =>
    obtain ⟨upd, hth, rfl⟩ := UrlsDaysDb.step_copy.mp ht
    exact h.of_same hinv rfl (by rw [hth]; rfl) rfl
  | mergeLocal now =>
    obtain ⟨upd, copy, hth, rfl⟩ := UrlsDaysDb.step_mergeLocal.mp ht
    exact h.of_same hinv rfl (by rw [hth]; rfl) rfl
  | snapCopy keys =>
    obtain ⟨-, -, rfl⟩ := UrlsDaysDb.step_snapCopy.mp ht
    exact h.of_same hinv rfl rfl rfl
  | snapPut =>
    rcases UrlsDaysDb.step_snapPut.mp ht with ⟨ud, -, rfl⟩ | ⟨ud, key, keys, -, rfl⟩
    · exact h.of_same hinv rfl rfl rfl
    · exact h.of_same hinv rfl rfl rfl
  | reopen =>
    have hdays := UrlsDaysDb.urlsDays_reopen h.inv ht
    obtain ⟨hth, hq, -, rfl⟩ := UrlsDaysDb.step_reopen.mp ht
    exact h.of_same hinv hq.symm (by rw [hth]; rfl) hdays

theorem observe_store {a : UrlsDaysDb.Label} :
    observe misc o (.store a) = some o' ↔
      (∀ utp, a ≠ .save utp) ∧ ∃ t, UrlsDaysDb.step misc o.st a = some t ∧
        o.follow misc t a = o' := by
  rw [← Option.map_eq_some_iff]
  cases a <;> simp [observe]

/-- **Every step keeps the invariant.** -/
theorem followed_observe (hmono : misc.DaysInOrder) (a : Label) (hstep : observe misc o a = some o')
    (h : Followed misc o) : Followed misc o' := by
  cases a with
  | saveResult status cnt =>
    obtain rfl := Option.some.inj hstep
    refine ⟨h.inv, h.places, h.pending, h.stored, h.ordered, h.past, ?_, h.nonneg⟩
    refine List.forall_mem_append.mpr ⟨h.calls, ?_⟩
    simp
  | onFetched results =>
    obtain rfl := Option.some.inj hstep
    refine ⟨h.inv, h.places, h.pending, h.stored, h.ordered, h.past, ?_, h.nonneg⟩
    exact List.forall_mem_append.mpr ⟨h.calls, cnt_nonneg_of_mem_onFetched⟩
  | enqueue i now =>
    rw [observe] at hstep
    split_ifs at hstep with hnow
    obtain ⟨call, hcall, hmap⟩ := Option.bind_eq_some_iff.mp hstep
    obtain ⟨t, ht, rfl⟩ := Option.map_eq_some_iff.mp hmap
    exact h.enqueue hnow hcall ht
  | store a =>
    obtain ⟨hsave, t, ht, rfl⟩ := observe_store.mp hstep
    exact h.store hmono hsave ht

/-! ### What is read -/

theorem getTodayEvents_eq_getLast? (misc : MiscTime) (db : UrlsLastDays) (eventId : ℕ) :
    getTodayEvents misc db eventId
      = ((db.daysOf (genFakeUrlForResult eventId)).toList.getLast?.map Prod.snd).getD 0 := by
  unfold getTodayEvents UrlsDays.getUTSV daysOf
  cases db.urlsDays[genFakeUrlForResult eventId]? with
  | none => rfl
  | some impl => simp [UrlDaysImpl.toUTSV, List.getLast?_map, Function.comp_def]

/-- The packs of a status on a day are the visits of its made-up URL. -/
theorem countsOn_pack (misc : MiscTime) (saved : List Saved) (status : AttemptStatus) (day : Str) :
    countsOn misc (saved.map Saved.pack) (genFakeUrlForResult status.value) day
      = (saved.filter fun r => r.status = status ∧ misc.getDayStr r.tp = day).map Saved.cnt := by
  unfold countsOn
  rw [List.filter_map, List.map_map]
  have hfilter : saved.filter ((fun v : UrlTpStat =>
        decide (v.url = genFakeUrlForResult status.value ∧ misc.getDayStr v.tp = day)) ∘ Saved.pack)
      = saved.filter fun r => r.status = status ∧ misc.getDayStr r.tp = day := by
    apply List.filter_congr
    intro r _
    have hiff : genFakeUrlForResult r.status.value = genFakeUrlForResult status.value ↔
        r.status = status := by
      constructor
      · exact genFakeUrlForResult_injective r.status status
      · rintro rfl
        rfl
    exact decide_eq_decide.mpr (and_congr_left' hiff)
  rw [hfilter]
  rfl

theorem lastDay_eq_none {saved : List Saved} {status : AttemptStatus} :
    lastDay misc saved status = none ↔ ∀ r ∈ saved, r.status ≠ status := by
  unfold lastDay
  rw [Option.map_eq_none_iff, List.getLast?_eq_none_iff, List.filter_eq_nil_iff]
  simp

/-- The clock does not go back, so nothing of a status is of a later day than its last. -/
theorem lastDay_spec (hmono : misc.DaysInOrder) {saved : List Saved} {status : AttemptStatus}
    {day : Str} (hordered : saved.Pairwise fun r r' => r.tp ≤ r'.tp)
    (h : lastDay misc saved status = some day) :
    (∃ r ∈ saved, r.status = status ∧ misc.getDayStr r.tp = day) ∧
      ∀ r ∈ saved, r.status = status → misc.getDayStr r.tp ≤ day := by
  obtain ⟨last, hlast, rfl⟩ := Option.map_eq_some_iff.mp h
  have hmem := List.mem_filter.mp (List.mem_of_getLast? hlast)
  refine ⟨⟨last, hmem.1, of_decide_eq_true hmem.2, rfl⟩, fun r hr hstatus => hmono ?_⟩
  obtain ⟨init, hinit⟩ := List.getLast?_eq_some_iff.mp hlast
  have hr' : r ∈ saved.filter fun r => r.status = status :=
    List.mem_filter.mpr ⟨hr, decide_eq_true hstatus⟩
  have hsorted := hordered.filter fun r => decide (r.status = status)
  rw [hinit] at hr' hsorted
  rcases List.mem_append.mp hr' with hfront | hback
  · exact (List.pairwise_append.mp hsorted).2.2 r hfront last (List.mem_singleton_self last)
  · rw [List.mem_singleton.mp hback]

/-- **Once everything is merged**, what is read of a status is its count on the last day on which
it was saved. -/
theorem getTodayEvents_eq_lastDay (hmono : misc.DaysInOrder) (h : Followed misc o)
    (hall : AllMerged o) (status : AttemptStatus) :
    getTodayEvents misc o.st.urlsDays status.value
      = (lastDay misc o.saved status).elim 0 (countOn misc o.saved status) := by
  have hlost : o.lost = [] := by
    have hlen := h.places.length_eq
    have hlen' := hall.length_eq
    simp only [List.length_append] at hlen
    exact List.length_eq_zero_iff.mp (by omega)
  have hkeeps := (h.stored hlost).of_perm hall
  rw [getTodayEvents_eq_getLast?]
  cases hlast : lastDay misc o.saved status with
  | none =>
    -- a status that was never saved has no day
    have hnever := lastDay_eq_none.mp hlast
    cases hdays : (o.st.urlsDays.daysOf (genFakeUrlForResult status.value)).toList.getLast? with
    | none => rfl
    | some p =>
      have hp := Std.ExtTreeMap.mem_toList_iff_getElem?_eq_some.mp (List.mem_of_getLast? hdays)
      obtain ⟨v, hv, hurl, -⟩ :=
        daySum_isSome_iff.mp (hkeeps.known (genFakeUrlForResult status.value) p.1 (by rw [hp]; rfl))
      obtain ⟨r, hr, rfl⟩ := List.mem_map.mp hv
      exact absurd (genFakeUrlForResult_injective r.status status hurl) (hnever r hr)
  | some day =>
    obtain ⟨⟨r, hr, rfl, rfl⟩, hmax⟩ := lastDay_spec hmono h.ordered hlast
    have hpack : r.pack ∈ o.saved.map Saved.pack := List.mem_map_of_mem hr
    have htoList := hkeeps.getLast?_toList hpack fun w hw hurl => by
      obtain ⟨r', hr', rfl⟩ := List.mem_map.mp hw
      exact hmax r' hr' (genFakeUrlForResult_injective r'.status r.status hurl)
    have hsome : (daySum misc (o.saved.map Saved.pack) r.pack.url
        (misc.getDayStr r.pack.tp)).isSome := daySum_isSome_iff.mpr ⟨r.pack, hpack, rfl, rfl⟩
    obtain ⟨c, hc⟩ := Option.isSome_iff_exists.mp hsome
    have hcount : c = countOn misc o.saved r.status (misc.getDayStr r.tp) := by
      unfold daySum at hc
      rw [Option.ite_none_left_eq_some] at hc
      rw [← Option.some.inj hc.2]
      show (countsOn misc _ (genFakeUrlForResult r.status.value) (misc.getDayStr r.tp)).sum = _
      rw [countsOn_pack]
      rfl
    rw [hc] at htoList
    show ((o.st.urlsDays.daysOf r.pack.url).toList.getLast?.map Prod.snd).getD 0 = _
    rw [htoList, hcount]
    rfl

/-! ### The two counters -/

/-- The statuses that the finished counters are kept for. -/
def finishedStatuses : List AttemptStatus := AttemptStatus.all.filter AttemptStatus.isFinished

theorem getFinishedToday_eq_sum (misc : MiscTime) (db : UrlsLastDays) :
    getFinishedToday misc db
      = (finishedStatuses.map fun status => getTodayEvents misc db status.value).sum := rfl

theorem isFinished_iff {status : AttemptStatus} :
    status.isFinished = true ↔ status ∈ finishedStatuses := by
  cases status <;> decide

/-- A sum over the finished results is taken status by status. -/
theorem sum_isFinished (saved : List Saved) (p : Saved → Prop) [DecidablePred p] :
    ((saved.filter fun r => r.status.isFinished ∧ p r).map Saved.cnt).sum
      = (finishedStatuses.map fun status =>
          ((saved.filter fun r => r.status = status ∧ p r).map Saved.cnt).sum).sum := by
  simp only [isFinished_iff]
  show ((saved.filter fun r => r.status ∈ [.ok, .curlErr, .s4xx, .s5xx] ∧ p r).map Saved.cnt).sum
    = ([.ok, .curlErr, .s4xx, .s5xx].map fun status : AttemptStatus =>
          ((saved.filter fun r => r.status = status ∧ p r).map Saved.cnt).sum).sum
  induction saved with
  | nil => rfl
  | cons r saved ih =>
    simp only [List.map_cons, List.map_nil, List.sum_cons, List.sum_nil] at ih ⊢
    obtain ⟨status, cnt, tp⟩ := r
    by_cases hp : p ⟨status, cnt, tp⟩
    · cases status <;> simp [hp] at ih ⊢ <;> omega
    · simp [hp] at ih ⊢
      omega

/-- The results of a status, parted by a property. -/
theorem sum_filter_and_add (saved : List Saved) (q p : Saved → Prop) [DecidablePred q]
    [DecidablePred p] :
    ((saved.filter fun r => q r ∧ p r).map Saved.cnt).sum
        + ((saved.filter fun r => q r ∧ ¬ p r).map Saved.cnt).sum
      = ((saved.filter fun r => q r).map Saved.cnt).sum := by
  induction saved with
  | nil => rfl
  | cons r saved ih =>
    by_cases hq : q r <;> by_cases hp : p r <;> simp [hq, hp] at ih ⊢ <;> omega

/-- **A status is read as of its last day**, which holds all of its results but those before. -/
theorem beforeLastDay_add_getTodayEvents (hmono : misc.DaysInOrder) (h : Followed misc o)
    (hall : AllMerged o) (status : AttemptStatus) :
    beforeLastDay misc o.saved status + getTodayEvents misc o.st.urlsDays status.value
      = total o.saved status := by
  rw [getTodayEvents_eq_lastDay hmono h hall]
  have hparts := sum_filter_and_add o.saved (fun r => r.status = status)
    fun r => some (misc.getDayStr r.tp) = lastDay misc o.saved status
  unfold beforeLastDay total
  cases hlast : lastDay misc o.saved status with
  | none =>
    rw [hlast] at hparts
    simp only [reduceCtorEq, and_false, not_false_eq_true, and_true] at hparts
    simp only [ne_eq, reduceCtorEq, not_false_eq_true, and_true, Option.elim_none]
    omega
  | some day =>
    rw [hlast] at hparts
    simp only [Option.some.injEq] at hparts
    simp only [ne_eq, Option.some.injEq, Option.elim_some, countOn]
    omega

/-- What a status adds to the counters of `day` though it was last saved before. -/
def staleOn (misc : MiscTime) (saved : List Saved) (status : AttemptStatus) (day : Str) : ℤ :=
  (lastDay misc saved status).elim 0 fun last =>
    if last = day then 0 else countOn misc saved status last

theorem countOn_nonneg {saved : List Saved} (h : ∀ r ∈ saved, 0 ≤ r.cnt) (status : AttemptStatus)
    (day : Str) : 0 ≤ countOn misc saved status day := by
  apply List.sum_nonneg
  intro c hc
  obtain ⟨r, hr, rfl⟩ := List.mem_map.mp hc
  exact h r (List.mem_of_mem_filter hr)

theorem staleOn_nonneg {saved : List Saved} (h : ∀ r ∈ saved, 0 ≤ r.cnt) (status : AttemptStatus)
    (day : Str) : 0 ≤ staleOn misc saved status day := by
  unfold staleOn
  cases lastDay misc saved status with
  | none => exact le_refl 0
  | some last =>
    rw [Option.elim_some]
    split_ifs
    · exact le_refl 0
    · exact countOn_nonneg h status last

theorem staleOn_eq_zero_iff {saved : List Saved} {status : AttemptStatus} {day : Str} :
    staleOn misc saved status day = 0 ↔
      ∀ last, lastDay misc saved status = some last →
        last = day ∨ countOn misc saved status last = 0 := by
  unfold staleOn
  cases lastDay misc saved status with
  | none => simp
  | some last =>
    rw [Option.elim_some]
    split_ifs with heq <;> simp [heq]

theorem countOn_eq_zero {saved : List Saved} {status : AttemptStatus} {day : Str}
    (h : ∀ r ∈ saved, r.status = status → misc.getDayStr r.tp ≠ day) :
    countOn misc saved status day = 0 := by
  have hnil : saved.filter (fun r => r.status = status ∧ misc.getDayStr r.tp = day) = [] := by
    apply List.filter_eq_nil_iff.mpr
    intro r hr hon
    obtain ⟨hstatus, hday⟩ := of_decide_eq_true hon
    exact h r hr hstatus hday
  rw [countOn, hnil]
  rfl

/-- A status is read as its count of the day with what is stale. -/
theorem getTodayEvents_eq_countOn_add (hmono : misc.DaysInOrder) (h : Followed misc o)
    (hall : AllMerged o) {now : ℤ} (hnow : o.clock ≤ now) (status : AttemptStatus) :
    getTodayEvents misc o.st.urlsDays status.value
      = countOn misc o.saved status (misc.getDayStr now)
        + staleOn misc o.saved status (misc.getDayStr now) := by
  rw [getTodayEvents_eq_lastDay hmono h hall]
  unfold staleOn
  cases hlast : lastDay misc o.saved status with
  | none =>
    have hnever := lastDay_eq_none.mp hlast
    rw [countOn_eq_zero fun r hr hstatus => absurd hstatus (hnever r hr)]
    rfl
  | some last =>
    rw [Option.elim_some, Option.elim_some]
    obtain ⟨⟨r, hr, -, rfl⟩, hmax⟩ := lastDay_spec hmono h.ordered hlast
    split_ifs with heq
    · rw [heq, add_zero]
    · -- the last day is over, so the status was not saved today
      have hzero : countOn misc o.saved status (misc.getDayStr now) = 0 := by
        apply countOn_eq_zero
        intro r' hr' hstatus hday
        have hle := hmax r' hr' hstatus
        rw [hday] at hle
        exact heq (le_antisymm (hmono ((h.past r hr).trans hnow)) hle)
      rw [hzero, zero_add]

theorem followed_of_run (hmono : misc.DaysInOrder) {clock : ℤ} {l : List Label}
    (hrun : Machine.run (observe misc) (.init clock) l = some o) : Followed misc o :=
  Machine.run_induction (fun _ a _ h hs => followed_observe hmono a h hs) hrun
    (followed_init misc clock)

/-- **Today's finished results** are what `getFinishedToday` gives exactly when every finished
status that was ever saved was saved today, or has no results on its last day. -/
theorem getFinishedToday_eq_iff (hmono : misc.DaysInOrder) {clock : ℤ} {l : List Label}
    (hrun : Machine.run (observe misc) (.init clock) l = some o) (hall : AllMerged o) {now : ℤ}
    (hnow : o.clock ≤ now) :
    getFinishedToday misc o.st.urlsDays = finishedOn misc o.saved (misc.getDayStr now) ↔
      ∀ status, status.isFinished = true → ∀ last, lastDay misc o.saved status = some last →
        last = misc.getDayStr now ∨ countOn misc o.saved status last = 0 := by
  have hs := followed_of_run hmono hrun
  have hread := getTodayEvents_eq_countOn_add hmono hs hall hnow
  have hstale : ∀ status, 0 ≤ staleOn misc o.saved status (misc.getDayStr now) :=
    fun status => staleOn_nonneg hs.nonneg status (misc.getDayStr now)
  have hsum : finishedOn misc o.saved (misc.getDayStr now)
      = (finishedStatuses.map fun status =>
          countOn misc o.saved status (misc.getDayStr now)).sum :=
    sum_isFinished o.saved fun r => misc.getDayStr r.tp = misc.getDayStr now
  have hmap : (finishedStatuses.map fun status => getTodayEvents misc o.st.urlsDays status.value)
      = finishedStatuses.map fun status => countOn misc o.saved status (misc.getDayStr now)
        + staleOn misc o.saved status (misc.getDayStr now) :=
    List.map_congr_left fun status _ => hread status
  simp only [← staleOn_eq_zero_iff]
  rw [getFinishedToday_eq_sum, hsum, hmap, List.sum_map_add]
  constructor
  · intro heq status hfinished
    have hzero : (finishedStatuses.map fun status =>
        staleOn misc o.saved status (misc.getDayStr now)).sum = 0 := by omega
    refine List.all_zero_of_le_zero_le_of_sum_eq_zero ?_ hzero
      (List.mem_map_of_mem (isFinished_iff.mp hfinished))
    exact List.forall_mem_map.mpr fun status _ => hstale status
  · intro hzero
    have hsum : (finishedStatuses.map fun status =>
        staleOn misc o.saved status (misc.getDayStr now)).sum = 0 :=
      List.sum_eq_zero (List.forall_mem_map.mpr fun status hmem =>
        hzero status (isFinished_iff.mpr hmem))
    omega

/-- An OK result and the merge round that brings it. -/
def okYesterday : List Label :=
  [.onFetched [⟨⟨Str.ofString "http://a/", 0⟩, .ok, default, default⟩], .enqueue 0 0,
    .store .mergeStart, .store (.tryDequeue 0 0), .store .drained, .store .copy,
    .store (.mergeLocal 0), .store .switch]

/-- On the next day the result is still counted as today's. -/
theorem not_getFinishedToday_okYesterday :
    ∃ o, Machine.run (observe .nearEpoch) (.init 0) okYesterday = some o ∧ AllMerged o ∧
      o.clock ≤ days 1 ∧
      getFinishedToday .nearEpoch o.st.urlsDays
        ≠ finishedOn .nearEpoch o.saved (MiscTime.nearEpoch.getDayStr (days 1)) := by
  decide

/-- An instance: the same run, asked on its own day. -/
theorem getFinishedToday_eq_iff_okToday :
    ∃ o, Machine.run (observe .nearEpoch) (.init 0) okYesterday = some o ∧
      getFinishedToday .nearEpoch o.st.urlsDays
        = finishedOn .nearEpoch o.saved (MiscTime.nearEpoch.getDayStr 0) := by
  have hrun : ∃ o, Machine.run (observe .nearEpoch) (.init 0) okYesterday = some o ∧
      AllMerged o ∧ o.clock ≤ 0 ∧ ∀ status ∈ finishedStatuses,
        ∀ last ∈ lastDay .nearEpoch o.saved status,
          last = MiscTime.nearEpoch.getDayStr 0 ∨ countOn .nearEpoch o.saved status last = 0 := by
    decide
  obtain ⟨o, ho, hall, hnow, hlast⟩ := hrun
  exact ⟨o, ho, (getFinishedToday_eq_iff MiscTime.daysInOrder_nearEpoch ho hall hnow).mpr
    fun status hstatus => hlast status (isFinished_iff.mp hstatus)⟩

/-- **The URLs in progress** are what `getInProgress` gives exactly when as many were enqueued
before the last day of enqueuing as results came in before the last days of their statuses. -/
theorem getInProgress_eq_iff (hmono : misc.DaysInOrder) {clock : ℤ} {l : List Label}
    (hrun : Machine.run (observe misc) (.init clock) l = some o) (hall : AllMerged o)
    (hanswered : Answered o.saved) :
    (getInProgress misc o.st.urlsDays = inProgress o.saved ∧ 0 ≤ getInProgress misc o.st.urlsDays) ↔
      beforeLastDay misc o.saved .enqueued
        = (finishedStatuses.map (beforeLastDay misc o.saved)).sum := by
  have hs := followed_of_run hmono hrun
  have hparts := beforeLastDay_add_getTodayEvents hmono hs hall
  have hnonneg : 0 ≤ inProgress o.saved :=
    hanswered o.saved ((List.mem_inits _ _).mpr List.prefix_rfl)
  have hsum : ((o.saved.filter fun r => r.status.isFinished).map Saved.cnt).sum
      = (finishedStatuses.map (total o.saved)).sum := by
    have hsplit := sum_isFinished o.saved fun _ => True
    simp only [and_true, Bool.decide_eq_true] at hsplit
    exact hsplit
  have hiff : getInProgress misc o.st.urlsDays = inProgress o.saved ↔
      beforeLastDay misc o.saved .enqueued
        = (finishedStatuses.map (beforeLastDay misc o.saved)).sum := by
    unfold getInProgress inProgress
    have hmap : finishedStatuses.map (total o.saved)
        = finishedStatuses.map fun status => beforeLastDay misc o.saved status
          + getTodayEvents misc o.st.urlsDays status.value :=
      List.map_congr_left fun status _ => (hparts status).symm
    rw [getFinishedToday_eq_sum, hsum, hmap, List.sum_map_add, ← hparts .enqueued]
    omega
  rw [← hiff, and_iff_left_iff_imp]
  intro heq
  rw [heq]
  exact hnonneg

/-- Two URLs enqueued and one result on one day, and a round with nothing to enqueue on the next. -/
def emptyRoundNextDay : List Label :=
  [.saveResult .enqueued 2, .enqueue 0 0,
    .onFetched [⟨⟨Str.ofString "http://a/", 0⟩, .ok, default, default⟩], .enqueue 0 0,
    .saveResult .enqueued 0, .enqueue 0 (days 1),
    .store .mergeStart, .store (.tryDequeue 0 (days 1)), .store (.tryDequeue 0 (days 1)),
    .store (.tryDequeue 0 (days 1)), .store .drained, .store .copy, .store (.mergeLocal (days 1)),
    .store .switch]

/-- One URL is in progress and the counter says minus one. -/
theorem not_getInProgress_emptyRoundNextDay :
    ∃ o, Machine.run (observe .nearEpoch) (.init 0) emptyRoundNextDay = some o ∧ AllMerged o ∧
      Answered o.saved ∧ inProgress o.saved = 1 ∧ getInProgress .nearEpoch o.st.urlsDays = -1 := by
  decide

/-- The same without the empty round. -/
def sameDay : List Label :=
  [.saveResult .enqueued 2, .enqueue 0 0,
    .onFetched [⟨⟨Str.ofString "http://a/", 0⟩, .ok, default, default⟩], .enqueue 0 0,
    .store .mergeStart, .store (.tryDequeue 0 0), .store (.tryDequeue 0 0), .store .drained,
    .store .copy, .store (.mergeLocal 0), .store .switch]

/-- An instance: one URL of two is in progress. -/
theorem getInProgress_eq_iff_sameDay :
    ∃ o, Machine.run (observe .nearEpoch) (.init 0) sameDay = some o ∧
      getInProgress .nearEpoch o.st.urlsDays = inProgress o.saved ∧
        0 ≤ getInProgress .nearEpoch o.st.urlsDays := by
  have hrun : ∃ o, Machine.run (observe .nearEpoch) (.init 0) sameDay = some o ∧
      AllMerged o ∧ Answered o.saved ∧ beforeLastDay .nearEpoch o.saved .enqueued
        = (finishedStatuses.map (beforeLastDay .nearEpoch o.saved)).sum := by
    decide
  obtain ⟨o, ho, hall, hanswered, hbefore⟩ := hrun
  exact ⟨o, ho,
    (getInProgress_eq_iff MiscTime.daysInOrder_nearEpoch ho hall hanswered).mpr hbefore⟩

end CrawledDb

end Contentv1
