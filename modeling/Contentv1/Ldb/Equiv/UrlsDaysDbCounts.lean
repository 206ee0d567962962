import Contentv1.Ldb.Equiv.UrlsDaysDb

/-!
# No visit is lost or counted twice

`Observed` runs the store beside a record of what was saved, of what the merge thread dequeued and
when, and of the last reading of the clock, which does not go back.

`visitsOn_eq_dequeuedOn`: whenever the queue is drained, the saved visits are the dequeued ones, and
on every day that no cleaning can have reached the stored count of a URL is the sum of its dequeued
visits.  The invariant is `Counted`: `State.visitsOn` counts a visit from the moment it is dequeued,
wherever the merge thread holds it, and each step of the thread only moves it on.
-/

namespace Contentv1.UrlsDaysDb

structure Observed where
  st : State
  saved : List UrlTpStat
  /-- The dequeued visits with the reading of the clock at which each was added. -/
  dequeued : List (UrlTpStat × ℤ)
  clock : ℤ

/-- The start on an empty database. -/
def Observed.init (clock : ℤ) : Observed := ⟨openDb ∅, [], [], clock⟩

/-- A step of the store under a clock that does not go back. -/
def observe (misc : MiscTime) (o : Observed) (a : Label) : Option Observed :=
  (step misc o.st a).bind fun t =>
    match a with
    | .save utp => some { o with st := t, saved := o.saved ++ [utp] }
    | .tryDequeue i now =>
      if o.clock ≤ now then
        o.st.q[i]?.map fun utp =>
          { o with st := t, dequeued := o.dequeued ++ [(utp, now)], clock := now }
      else none
    | .mergeLocal now => if o.clock ≤ now then some { o with st := t, clock := now } else none
    | _ => some { o with st := t }

/-- The count of the dequeued visits of `url` on `day` that were at most 13 days old then. -/
def dequeuedOn (misc : MiscTime) (dequeued : List (UrlTpStat × ℤ)) (url : Url) (day : Str) : ℤ :=
  ((dequeued.filter fun p => p.2 - p.1.tp ≤ days 13 ∧ p.1.url = url ∧
    misc.getDayStr p.1.tp = day).map fun p => p.1.cnt).sum

theorem duration_eq : UrlsDays.duration 14 = days 13 := rfl

theorem dequeuedOn_append (misc : MiscTime) (dequeued : List (UrlTpStat × ℤ)) (utp : UrlTpStat)
    (now : ℤ) (url : Url) (day : Str) :
    dequeuedOn misc (dequeued ++ [(utp, now)]) url day
      = dequeuedOn misc dequeued url day + UrlsDays.addedOn 14 misc utp now url day := by
  unfold dequeuedOn UrlsDays.addedOn
  rw [List.filter_append, List.map_append, List.sum_append, duration_eq]
  congr 1
  split_ifs with h
  · rw [List.filter_cons_of_pos (by simpa using h)]
    simp
  · rw [List.filter_cons_of_neg (by simpa using h)]
    simp

/-- The visits the store answers for: those of the global object and those the merge thread holds
and has not yet put there. -/
def State.visitsOn (s : State) (url : Url) (day : Str) : ℤ :=
  match s.mergeTh with
  | .idle => s.urlsDays.visitsOn url day
  | .draining upd | .drained upd | .copied upd _ =>
    s.urlsDays.visitsOn url day + upd.visitsOn url day
  | .merged _ copy => copy.visitsOn url day

structure Counted (misc : MiscTime) (o : Observed) : Prop where
  inv : Invariant misc o.st
  saved : (o.dequeued.map Prod.fst ++ o.st.q).Perm o.saved
  count : ∀ T url day, o.clock ≤ T → misc.getDayStr (T - days 13) ≤ day →
    o.st.visitsOn url day = dequeuedOn misc o.dequeued url day

variable {misc : MiscTime} {o o' : Observed}

theorem counted_init (clock : ℤ) : Counted misc (Observed.init clock) where
  inv := invariant_openDb
  saved := List.Perm.refl _
  count := by
    intro T url day _ _
    show (loadSnapshot ∅).visitsOn url day = 0
    rw [UrlsDays.visitsOn, getElem?_loadSnapshot, Std.ExtTreeMap.getElem?_empty, Option.map_none,
      Option.elim_none]

/-- A step that takes nothing from the queue and only moves visits on. -/
theorem Counted.move (ho : Counted misc o) {t : State} (hinv : Invariant misc t)
    (hq : t.q = o.st.q) (hvisits : ∀ url day, t.visitsOn url day = o.st.visitsOn url day) :
    Counted misc { o with st := t } where
  inv := hinv
  saved := by
    rw [show ({ o with st := t } : Observed).st.q = o.st.q from hq]
    exact ho.saved
  count T url day hT hday := (hvisits url day).trans (ho.count T url day hT hday)

theorem counted_step (hmono : misc.DaysInOrder) (a : Label)
    (h : observe misc o a = some o') (ho : Counted misc o) : Counted misc o' := by
  obtain ⟨t, ht, h⟩ := Option.bind_eq_some_iff.mp h
  have hmoved := ho.move (t := t)
  obtain ⟨hinv, hsaved, hcount⟩ := ho
  have hinv' := invariant_step a ht hinv
  -- a day from the cut of a later time on is not before the cut of `now`
  have hcut : ∀ {now T : ℤ} {day : Str}, now ≤ T → misc.getDayStr (T - days 13) ≤ day →
      misc.getDayStr (now - UrlsDays.duration 14) ≤ day := by
    intro now T day hle hday
    exact (hmono (sub_le_sub_right hle (days 13))).trans hday
  cases a with
  | save utp =>
    obtain rfl := step_save.mp ht
    obtain rfl := Option.some.inj h
    refine ⟨hinv', ?_, hcount⟩
    rw [← List.append_assoc]
    exact hsaved.append_right _
  | mergeStart =>
    obtain ⟨hth, rfl⟩ := step_mergeStart.mp ht
    obtain rfl := Option.some.inj h
    exact hmoved hinv' rfl fun url day => by simp [State.visitsOn, hth]
  | tryDequeue i now =>
    obtain ⟨upd, utp, hth, hutp, rfl⟩ := step_tryDequeue.mp ht
    dsimp only at h
    split_ifs at h with hle
    rw [hutp] at h
    obtain rfl := Option.some.inj h
    refine ⟨hinv', ?_, fun T url day hT hday => ?_⟩
    · -- the element moves from the queue to the dequeued ones
      have hmove := (Machine.perm_cons_eraseIdx hutp).append_left (o.dequeued.map Prod.fst)
      rw [List.map_append, List.append_assoc]
      exact hmove.symm.trans hsaved
    · have hold := hcount T url day (hle.trans hT) hday
      rw [State.visitsOn, hth] at hold
      rw [dequeuedOn_append, ← hold, add_assoc, ← UrlsDays.visitsOn_add (hcut hT hday)]
      rfl
  | drained =>
    obtain ⟨upd, hth, -, rfl⟩ := step_drained.mp ht
    obtain rfl := Option.some.inj h
    refine hmoved hinv' rfl fun url day => ?_
    unfold State.visitsOn
    rw [hth]
    dsimp only
    -- an empty local object is thrown away, with nothing in it to count
    by_cases hempty : upd.empty = true
    · rw [if_pos hempty, UrlsDays.visitsOn_of_empty hempty, add_zero]
    · rw [if_neg hempty]
  | copy =>
    obtain ⟨upd, hth, rfl⟩ := step_copy.mp ht
    obtain rfl := Option.some.inj h
    exact hmoved hinv' rfl fun url day => by simp [State.visitsOn, hth]
  | mergeLocal now =>
    obtain ⟨upd, copy, hth, rfl⟩ := step_mergeLocal.mp ht
    dsimp only at h
    split_ifs at h with hle
    obtain rfl := Option.some.inj h
    refine ⟨hinv', hsaved, fun T url day hT hday => ?_⟩
    rw [← hcount T url day (hle.trans hT) hday]
    -- nobody else writes the global object, so the copy is still what it holds
    obtain rfl := hinv.copied upd copy hth
    unfold State.visitsOn
    rw [hth]
    exact UrlsDays.visitsOn_merge (hcut hT hday)
  | switch =>
    obtain ⟨upd, copy, hth, rfl⟩ := step_switch.mp ht
    obtain rfl := Option.some.inj h
    exact hmoved hinv' rfl fun url day => by simp [State.visitsOn, hth]
  | snapCopy keys =>
    obtain ⟨-, -, rfl⟩ := step_snapCopy.mp ht
    obtain rfl := Option.some.inj h
    exact ⟨hinv', hsaved, hcount⟩
  | snapPut =>
    obtain rfl := Option.some.inj h
    rcases step_snapPut.mp ht with ⟨ud, -, rfl⟩ | ⟨ud, key, keys, -, rfl⟩
    · exact ⟨hinv', hsaved, hcount⟩
    · exact ⟨hinv', hsaved, hcount⟩
  | reopen =>
    have hkeep := urlsDays_reopen hinv ht
    obtain ⟨hth, hq, -, rfl⟩ := step_reopen.mp ht
    obtain rfl := Option.some.inj h
    refine ⟨hinv', ?_, fun T url day hT hday => ?_⟩
    · -- the queue was drained before the store was closed
      rw [hq] at hsaved
      exact hsaved
    · rw [← hcount T url day hT hday, State.visitsOn, State.visitsOn, hth]
      show UrlsDays.visitsOn _ url day = _
      rw [hkeep]

/-- **Conservation.**  When the queue is drained at a time `T`, the dequeued visits are the saved
ones, and on every day from that of `T - 13 days` on the stored count of a URL is the sum over its
visits of that day that were at most 13 days old when they were dequeued. -/
theorem visitsOn_eq_dequeuedOn (misc : MiscTime) (hmono : misc.DaysInOrder)
    {start T : ℤ} {l : List Label} {o : Observed}
    (hrun : Machine.run (observe misc) (Observed.init start) l = some o)
    (hidle : o.st.mergeTh = .idle) (hq : o.st.q = []) (hT : o.clock ≤ T) :
    (o.dequeued.map Prod.fst).Perm o.saved ∧
      ∀ url day, misc.getDayStr (T - days 13) ≤ day →
        o.st.urlsDays.visitsOn url day = dequeuedOn misc o.dequeued url day := by
  have ho : Counted misc o :=
    Machine.run_induction (fun _ a _ h ho => counted_step hmono a h ho) hrun (counted_init start)
  obtain ⟨-, hsaved, hcount⟩ := ho
  constructor
  · rwa [hq, List.append_nil] at hsaved
  · intro url day hday
    rw [← hcount T url day hT hday, State.visitsOn, hidle]

/-- Two packs of one URL, dequeued out of order around a snapshot, a restart and a later visit. -/
def packsAndReopen (url : Url) : List Label :=
  [.save ⟨url, seconds 5, 2⟩, .save ⟨url, seconds 3, 4⟩, .mergeStart, .tryDequeue 1 (seconds 6),
    .snapCopy [], .tryDequeue 0 (seconds 6), .drained, .copy, .snapPut, .mergeLocal (seconds 7),
    .switch, .reopen, .save ⟨url, seconds 8, 1⟩, .mergeStart, .tryDequeue 0 (seconds 9), .drained,
    .copy, .mergeLocal (seconds 9), .switch]

theorem visitsOn_eq_dequeuedOn_reopen :
    ∃ o, Machine.run (observe .nearEpoch) (Observed.init 0)
        (packsAndReopen (Str.ofString "http://a/")) = some o ∧
      (o.dequeued.map Prod.fst).Perm o.saved ∧
      ∀ url day, MiscTime.nearEpoch.getDayStr (seconds 9 - days 13) ≤ day →
        o.st.urlsDays.visitsOn url day = dequeuedOn .nearEpoch o.dequeued url day := by
  have hrun : ∃ o, Machine.run (observe .nearEpoch) (Observed.init 0)
        (packsAndReopen (Str.ofString "http://a/")) = some o ∧
      o.st.mergeTh.isIdle = true ∧ o.st.q = [] ∧ o.clock ≤ seconds 9 := by
    decide
  obtain ⟨o, ho, hidle, hq, hclock⟩ := hrun
  exact ⟨o, ho, visitsOn_eq_dequeuedOn .nearEpoch MiscTime.daysInOrder_nearEpoch ho
    (MergeTh.isIdle_iff.mp hidle) hq hclock⟩

end Contentv1.UrlsDaysDb
