import Contentv1.Ldb.UrlsDaysHistory
import Contentv1.Ldb.Equiv.UrlsDaysLast
import Contentv1.Ldb.Equiv.UrlsDaysDbCounts

/-!
# Which days `UrlsDays` reports

The days of a URL are cleaned when the URL gets new visits, and at no other time: neither loading
nor reading looks at the clock, and a merge into an entry without days takes the other days as they
are.  So a URL that gets no visits any more keeps reporting its old days.

* `counted` are the visits that make up the days of a URL, with the time of their last cleaning,
  and `daysAre_counted` says that of these the last cleaning decides which days there are.
* `reportsLastDays_iff_cleaned`: at a time `T` only days of the window are reported exactly when
  every counted visit from before the window was dropped by the last cleaning of its URL.
* `exists_history_urlsDays`: the global object of the store has such a history.
-/

namespace Contentv1

/-- Going back `k` days from a time point one comes to `k + 1` days at most. -/
theorem MiscTime.OneMidnight.exists_getDayStr_eq {misc : MiscTime} (h : misc.OneMidnight) {t T : ℤ}
    (htT : t ≤ T) (k : ℕ) (hk : T - days k ≤ t) :
    ∃ i ≤ k, misc.getDayStr t = misc.getDayStr (T - days i) := by
  induction k with
  | zero =>
    have hzero : days ((0 : ℕ) : ℤ) = 0 := rfl
    rw [hzero] at hk
    obtain rfl : t = T := by omega
    exact ⟨0, le_rfl, by rw [hzero, sub_zero]⟩
  | succ k ih =>
    rcases le_or_gt (T - days k) t with hle | hlt
    · obtain ⟨i, hi, heq⟩ := ih hle
      exact ⟨i, Nat.le_succ_of_le hi, heq⟩
    · -- `t` is in the day before
      have hday : T - days ((k + 1 : ℕ) : ℤ) + days 1 = T - days k := by
        unfold days seconds
        push_cast
        ring
      rcases h hk (by omega) with heq | heq
      · exact ⟨k + 1, le_rfl, heq⟩
      · rw [hday] at heq
        exact ⟨k, Nat.le_succ k, heq⟩

namespace UrlsDays

variable {DAYS : ℕ} {misc : MiscTime} {ud uds : UrlsDays DAYS} {T now : ℤ} {url : Url} {day : Str}

/-! ### Snapshots -/

theorem getElem?_saveSnapshot (db : OrdMap Url UrlDaysPb) (ud : UrlsDays DAYS) (url : Url) :
    (saveSnapshot db ud)[url]?
      = (ud.urlsDays[url]?).elim db[url]? fun impl => some impl.dump := by
  have hloc : OrdMap.LocalAt UrlsDaysDb.putEntry fun _ (impl : UrlDaysImpl) _ => some impl.dump :=
    UrlsDaysDb.getElem?_putEntry
  exact OrdMap.getElem?_foldl_perm hloc (List.Perm.refl _) db url

theorem getElem?_loadSnapshot (db : OrdMap Url UrlDaysPb) (url : Url) :
    (loadSnapshot DAYS db).urlsDays[url]? = db[url]?.map UrlDaysImpl.ofDump := by
  exact UrlsDaysDb.getElem?_loadSnapshot db url

/-- What was written last is loaded. -/
theorem getElem?_reload (earlier ud : UrlsDays DAYS) (url : Url) :
    (loadSnapshot DAYS (saveSnapshot (saveSnapshot ∅ earlier) ud)).urlsDays[url]?
      = ud.urlsDays[url]?.or earlier.urlsDays[url]? := by
  rw [getElem?_loadSnapshot, getElem?_saveSnapshot, getElem?_saveSnapshot,
    Std.ExtTreeMap.getElem?_empty]
  cases ud.urlsDays[url]? with
  | none => cases earlier.urlsDays[url]? <;> simp
  | some impl => simp

theorem daysOf_reload (earlier ud : UrlsDays DAYS) (url : Url) :
    (loadSnapshot DAYS (saveSnapshot (saveSnapshot ∅ earlier) ud)).daysOf url
      = if (ud.urlsDays[url]?).isSome then ud.daysOf url else earlier.daysOf url := by
  unfold daysOf
  rw [getElem?_reload]
  cases ud.urlsDays[url]? <;> simp

/-! ### The counted visits -/

/-- The last cleaning of the visit's days, at the reading `p.2` of the clock, dropped its day. -/
def Dropped (DAYS : ℕ) (misc : MiscTime) (p : UrlTpStat × ℤ) : Prop :=
  misc.getDayStr p.1.tp < misc.getDayStr (p.2 - duration DAYS)

instance (DAYS : ℕ) (misc : MiscTime) : DecidablePred (Dropped DAYS misc) := fun p =>
  inferInstanceAs (Decidable (misc.getDayStr p.1.tp < misc.getDayStr (p.2 - duration DAYS)))

/-- All the visits have had their days cleaned at `now`. -/
def cleanedAt (now : ℤ) (visits : List (UrlTpStat × ℤ)) : List (UrlTpStat × ℤ) :=
  visits.map fun p => (p.1, now)

namespace History

/-- The visits of `url` that were not too old to be counted, with the reading of the clock at the
last cleaning of their days. -/
def counted (DAYS : ℕ) (misc : MiscTime) (url : Url) : History → List (UrlTpStat × ℤ)
  | .empty => []
  | .add h utp now =>
    if now - utp.tp ≤ duration DAYS ∧ utp.url = url then
      cleanedAt now (h.counted DAYS misc url ++ [(utp, now)])
    else h.counted DAYS misc url
  | .merge h uds now =>
    let visits := h.counted DAYS misc url ++ uds.counted DAYS misc url
    if uds.counted DAYS misc url = [] then h.counted DAYS misc url
    -- the entry has no days, so there is no cleaning
    else if ∀ p ∈ h.counted DAYS misc url, Dropped DAYS misc p then visits
    else cleanedAt now visits
  | .reload earlier h =>
    if h.counted DAYS misc url = [] then earlier.counted DAYS misc url
    else h.counted DAYS misc url

/-- Every counted visit from before the window at `T` was dropped by the last cleaning of its
days. -/
def Cleaned (DAYS : ℕ) (misc : MiscTime) (T : ℤ) (h : History) : Prop :=
  ∀ url, ∀ p ∈ h.counted DAYS misc url,
    misc.getDayStr p.1.tp < misc.getDayStr (T - duration DAYS) → Dropped DAYS misc p

variable {h : History} {p : UrlTpStat × ℤ}

theorem DoneBy.mono {h : History} {T T' : ℤ} (hT : T ≤ T') (hdone : h.DoneBy T) : h.DoneBy T' := by
  induction h with
  | empty => trivial
  | add h utp now ih => exact ⟨hdone.1.trans hT, hdone.2⟩
  | merge h uds now ih ihuds => exact ⟨hdone.1.trans hT, hdone.2⟩
  | reload earlier h ihearlier ih => exact ⟨ihearlier hdone.1, ih hdone.2⟩

theorem mem_cleanedAt {visits : List (UrlTpStat × ℤ)} :
    p ∈ cleanedAt now visits ↔ p.2 = now ∧ ∃ n, (p.1, n) ∈ visits := by
  unfold cleanedAt
  rw [List.mem_map]
  constructor
  · rintro ⟨q, hq, rfl⟩
    exact ⟨rfl, q.2, hq⟩
  · rintro ⟨rfl, n, hn⟩
    exact ⟨_, hn, rfl⟩

/-- What is true of a counted visit whatever happens to it later. -/
structure Admitted (DAYS : ℕ) (T : ℤ) (p : UrlTpStat × ℤ) : Prop where
  duration_nonneg : 0 ≤ duration DAYS
  tp_le : p.1.tp ≤ p.2
  cleaned_le : p.2 ≤ T

theorem Admitted.mono {T' : ℤ} (hp : Admitted DAYS T p) (hT : T ≤ T') : Admitted DAYS T' p :=
  ⟨hp.duration_nonneg, hp.tp_le, hp.cleaned_le.trans hT⟩

/-- A visit that is counted now. -/
theorem admitted_append_new {visits : List (UrlTpStat × ℤ)} {utp : UrlTpStat}
    (hvisits : ∀ p ∈ visits, Admitted DAYS now p) (hnew : now - utp.tp ≤ duration DAYS)
    (htp : utp.tp ≤ now) : ∀ p ∈ visits ++ [(utp, now)], Admitted DAYS now p := by
  intro p hp
  rcases List.mem_append.mp hp with hp | hp
  · exact hvisits p hp
  · rw [List.mem_singleton.mp hp]
    exact ⟨by omega, htp, le_rfl⟩

/-- Cleaning at the present time. -/
theorem admitted_of_mem_cleanedAt {visits : List (UrlTpStat × ℤ)}
    (hvisits : ∀ p ∈ visits, Admitted DAYS now p) (hp : p ∈ cleanedAt now visits) :
    Admitted DAYS now p := by
  obtain ⟨hnow, n, hn⟩ := mem_cleanedAt.mp hp
  have hold := hvisits _ hn
  refine ⟨hold.duration_nonneg, ?_, hnow.le⟩
  rw [hnow]
  exact hold.tp_le.trans hold.cleaned_le

theorem admitted_of_mem_counted (hdone : h.DoneBy T) (hp : p ∈ h.counted DAYS misc url) :
    Admitted DAYS T p := by
  induction h generalizing T p with
  | empty => cases hp
  | add h utp now ih =>
    obtain ⟨hnow, htp, hdone⟩ := hdone
    rw [counted] at hp
    split_ifs at hp with hnew
    · have hvisits := admitted_append_new (fun q hq => ih hdone hq) hnew.1 htp
      exact (admitted_of_mem_cleanedAt hvisits hp).mono hnow
    · exact (ih hdone hp).mono hnow
  | merge h uds now ih ihuds =>
    obtain ⟨hnow, hdone, hudone⟩ := hdone
    have hvisits : ∀ q ∈ h.counted DAYS misc url ++ uds.counted DAYS misc url,
        Admitted DAYS now q := by
      intro q hq
      exact (List.mem_append.mp hq).elim (ih hdone) (ihuds hudone)
    rw [counted] at hp
    split_ifs at hp
    · exact (ih hdone hp).mono hnow
    · exact (hvisits p hp).mono hnow
    · exact (admitted_of_mem_cleanedAt hvisits hp).mono hnow
  | reload earlier h ihearlier ih =>
    rw [counted] at hp
    split_ifs at hp
    · exact ihearlier hdone.1 hp
    · exact ih hdone.2 hp

/-- An entry is one for counted visits. -/
theorem isSome_iff_counted (DAYS : ℕ) (misc : MiscTime) (h : History) (url : Url) :
    ((h.urlsDays DAYS misc).urlsDays[url]?).isSome ↔ h.counted DAYS misc url ≠ [] := by
  induction h with
  | empty =>
    refine iff_of_false ?_ fun hne => hne rfl
    rw [show (History.empty.urlsDays DAYS misc).urlsDays[url]? = none from
      Std.ExtTreeMap.getElem?_empty]
    exact Bool.false_ne_true
  | add h utp now ih =>
    rw [counted, urlsDays, UrlsDays.add]
    by_cases hnew : now - utp.tp ≤ duration DAYS
    · rw [if_neg (not_lt.mpr hnew)]
      by_cases hurl : utp.url = url
      · rw [if_pos ⟨hnew, hurl⟩, OrdMap.getElem?_insert, if_pos hurl]
        exact iff_of_true rfl (by simp [cleanedAt])
      · rw [if_neg fun hand => hurl hand.2, OrdMap.getElem?_insert, if_neg hurl]
        exact ih
    · rw [if_pos (not_le.mp hnew), if_neg fun hand => hnew hand.1]
      exact ih
  | merge h uds now ih ihuds =>
    rw [counted, urlsDays, getElem?_merge]
    cases hentry : (uds.urlsDays DAYS misc).urlsDays[url]? with
    | none =>
      rw [hentry] at ihuds
      have hnil : uds.counted DAYS misc url = [] := by simpa using ihuds
      rw [Option.elim_none, if_pos hnil]
      exact ih
    | some v =>
      rw [hentry] at ihuds
      have hne : uds.counted DAYS misc url ≠ [] := ihuds.mp rfl
      rw [Option.elim_some, if_neg hne]
      refine iff_of_true rfl ?_
      split_ifs <;> simp [cleanedAt, hne]
  | reload earlier h ihearlier ih =>
    rw [counted, urlsDays, getElem?_reload, Option.isSome_or, Bool.or_eq_true, ih, ihearlier]
    split_ifs with hnil
    · exact or_iff_right fun hne => hne hnil
    · exact iff_of_true (Or.inl hnil) hnil

/-- The day is that of a counted visit that the last cleaning did not drop. -/
def KeptOn (DAYS : ℕ) (misc : MiscTime) (visits : List (UrlTpStat × ℤ)) (day : Str) : Prop :=
  ∃ p ∈ visits, misc.getDayStr p.1.tp = day ∧ ¬ Dropped DAYS misc p

theorem keptOn_append {visits visits' : List (UrlTpStat × ℤ)} :
    KeptOn DAYS misc (visits ++ visits') day
      ↔ KeptOn DAYS misc visits day ∨ KeptOn DAYS misc visits' day := by
  simp [KeptOn, or_and_right, exists_or]

/-- These are the days of the visits that the last cleaning did not drop. -/
def DaysAre (DAYS : ℕ) (misc : MiscTime) (m : OrdMap Str ℤ) (visits : List (UrlTpStat × ℤ)) :
    Prop :=
  ∀ day : Str, (m[day]?).isSome ↔ KeptOn DAYS misc visits day

/-- No day is left where all the visits were dropped. -/
theorem DaysAre.eq_empty_iff {m : OrdMap Str ℤ} {visits : List (UrlTpStat × ℤ)}
    (h : DaysAre DAYS misc m visits) : m = ∅ ↔ ∀ p ∈ visits, Dropped DAYS misc p := by
  constructor
  · rintro rfl p hp
    by_contra hkept
    have hsome := (h (misc.getDayStr p.1.tp)).mpr ⟨p, hp, rfl, hkept⟩
    rw [Std.ExtTreeMap.getElem?_empty] at hsome
    cases hsome
  · intro hdropped
    apply Std.ExtTreeMap.ext_getElem?
    intro day
    rw [Std.ExtTreeMap.getElem?_empty, ← Option.not_isSome_iff_eq_none, h day]
    rintro ⟨p, hp, -, hkept⟩
    exact hkept (hdropped p hp)

theorem daysAre_empty : DaysAre DAYS misc ((default : UrlsDays DAYS).daysOf url) [] := by
  have hempty : (default : UrlsDays DAYS).daysOf url = ∅ := by
    unfold daysOf
    rw [show (default : UrlsDays DAYS).urlsDays[url]? = none from Std.ExtTreeMap.getElem?_empty,
      Option.elim_none]
  intro day
  rw [hempty, Std.ExtTreeMap.getElem?_empty]
  refine iff_of_false Bool.false_ne_true ?_
  rintro ⟨p, hp, -⟩
  cases hp

/-- The cut of a cleaning is not before those of the earlier ones. -/
theorem keptOn_cleanedAt (hmono : misc.DaysInOrder) {visits : List (UrlTpStat × ℤ)}
    (hvisits : ∀ p ∈ visits, Admitted DAYS now p) :
    KeptOn DAYS misc (cleanedAt now visits) day
      ↔ misc.getDayStr (now - duration DAYS) ≤ day ∧ KeptOn DAYS misc visits day := by
  constructor
  · rintro ⟨p, hp, rfl, hkept⟩
    obtain ⟨rfl, n, hn⟩ := mem_cleanedAt.mp hp
    have hcut := not_lt.mp hkept
    have hold : misc.getDayStr (n - duration DAYS) ≤ misc.getDayStr (p.2 - duration DAYS) :=
      hmono (sub_le_sub_right (hvisits _ hn).cleaned_le _)
    exact ⟨hcut, (p.1, n), hn, rfl, not_lt.mpr (hold.trans hcut)⟩
  · rintro ⟨hcut, p, hp, rfl, -⟩
    exact ⟨(p.1, now), mem_cleanedAt.mpr ⟨rfl, p.2, hp⟩, rfl, not_lt.mpr hcut⟩

/-- **`add`** of a visit that is counted cleans the days of its URL. -/
theorem DaysAre.add (hmono : misc.DaysInOrder) {visits : List (UrlTpStat × ℤ)} {utp : UrlTpStat}
    (h : DaysAre DAYS misc (ud.daysOf utp.url) visits)
    (hvisits : ∀ p ∈ visits, Admitted DAYS now p) (hnew : now - utp.tp ≤ duration DAYS)
    (htp : utp.tp ≤ now) :
    DaysAre DAYS misc ((ud.add misc utp now).daysOf utp.url)
      (cleanedAt now (visits ++ [(utp, now)])) := by
  intro day
  -- the visit itself is not dropped
  have hcut : ¬ Dropped DAYS misc (utp, now) := not_lt.mpr (hmono (by dsimp only; omega))
  have hsingle : KeptOn DAYS misc [(utp, now)] day ↔ misc.getDayStr utp.tp = day := by
    simp [KeptOn, hcut]
  rw [keptOn_cleanedAt hmono (admitted_append_new hvisits hnew htp), keptOn_append, hsingle,
    ← h day, getElem?_daysOf_add hnew, daySum_singleton]
  by_cases hday : day < misc.getDayStr (now - duration DAYS)
  · rw [if_pos ⟨rfl, hday⟩]
    exact iff_of_false Bool.false_ne_true fun hand => absurd hday (not_lt.mpr hand.1)
  · rw [if_neg fun hand => hday hand.2, isSome_merge_iff, and_iff_right (not_lt.mp hday)]
    simp

/-- An `add` to another URL, or one of a visit that is too old. -/
theorem daysOf_add_of_not {utp : UrlTpStat}
    (h : ¬ (now - utp.tp ≤ duration DAYS ∧ utp.url = url)) :
    (ud.add misc utp now).daysOf url = ud.daysOf url := by
  unfold UrlsDays.add
  split_ifs with hold
  · rfl
  · have hurl : utp.url ≠ url := fun hurl => h ⟨not_lt.mp hold, hurl⟩
    unfold daysOf
    dsimp only
    rw [OrdMap.getElem?_insert, if_neg hurl]

/-- **`merge`** with visits of the URL cleans its days, unless it had none. -/
theorem DaysAre.merge (hmono : misc.DaysInOrder) {visits visits' : List (UrlTpStat × ℤ)}
    (h : DaysAre DAYS misc (ud.daysOf url) visits)
    (huds : DaysAre DAYS misc (uds.daysOf url) visits')
    (hvisits : ∀ p ∈ visits ++ visits', Admitted DAYS now p)
    (hentry : (uds.urlsDays[url]?).isSome) :
    DaysAre DAYS misc ((ud.merge misc uds now).daysOf url)
      (if ∀ p ∈ visits, Dropped DAYS misc p then visits ++ visits'
        else cleanedAt now (visits ++ visits')) := by
  intro day
  split_ifs with hdropped
  · have hnone : ¬ KeptOn DAYS misc visits day := by
      rintro ⟨p, hp, -, hkept⟩
      exact hkept (hdropped p hp)
    rw [daysOf_merge_of_eq_empty hentry (h.eq_empty_iff.mpr hdropped), huds day, keptOn_append,
      or_iff_right hnone]
  · rw [keptOn_cleanedAt hmono hvisits, keptOn_append, ← h day, ← huds day,
      getElem?_daysOf_merge_of_ne_empty hentry (mt h.eq_empty_iff.mp hdropped)]
    split_ifs with hday
    · exact iff_of_false Bool.false_ne_true fun hand => absurd hday (not_lt.mpr hand.1)
    · rw [isSome_merge_iff, and_iff_right (not_lt.mp hday)]

/-- **The days of a URL** are those of its counted visits that the last cleaning did not drop. -/
theorem daysAre_counted (hmono : misc.DaysInOrder) (hdone : h.DoneBy T) (url : Url) :
    DaysAre DAYS misc ((h.urlsDays DAYS misc).daysOf url) (h.counted DAYS misc url) := by
  induction h generalizing T with
  | empty => exact daysAre_empty
  | add h utp now ih =>
    obtain ⟨-, htp, hdone⟩ := hdone
    rw [counted, urlsDays]
    split_ifs with hnew
    · obtain ⟨hnew, rfl⟩ := hnew
      exact (ih hdone).add hmono (fun p hp => admitted_of_mem_counted hdone hp) hnew htp
    · rw [daysOf_add_of_not hnew]
      exact ih hdone
  | merge h uds now ih ihuds =>
    obtain ⟨-, hdone, hudone⟩ := hdone
    have hentry := isSome_iff_counted DAYS misc uds url
    rw [counted, urlsDays]
    by_cases hnil : uds.counted DAYS misc url = []
    · have hnone : (uds.urlsDays DAYS misc).urlsDays[url]? = none := by
        rw [← Option.not_isSome_iff_eq_none, hentry]
        exact fun hne => hne hnil
      rw [if_pos hnil, daysOf_merge_of_none hnone]
      exact ih hdone
    · rw [if_neg hnil]
      have hvisits : ∀ p ∈ h.counted DAYS misc url ++ uds.counted DAYS misc url,
          Admitted DAYS now p := List.forall_mem_append.mpr
        ⟨fun p hp => admitted_of_mem_counted hdone hp,
          fun p hp => admitted_of_mem_counted hudone hp⟩
      exact (ih hdone).merge hmono (ihuds hudone) hvisits (hentry.mpr hnil)
  | reload earlier h ihearlier ih =>
    have hentry := isSome_iff_counted DAYS misc h url
    rw [counted, urlsDays, daysOf_reload]
    by_cases hnil : h.counted DAYS misc url = []
    · rw [if_pos hnil, if_neg fun hsome => hentry.mp hsome hnil]
      exact ihearlier hdone.1
    · rw [if_neg hnil, if_pos (hentry.mpr hnil)]
      exact ih hdone.2

end History

/-! ### What is reported -/

/-- The days are not before the window of the last `DAYS` days at `T`, and they are at most as
many. -/
def InWindow (DAYS : ℕ) (misc : MiscTime) (T : ℤ) (utsv : List UrlTpStat) : Prop :=
  (∀ utp ∈ utsv, misc.getDayStr (T - duration DAYS) ≤ misc.getDayStr utp.tp) ∧ utsv.length ≤ DAYS

instance (DAYS : ℕ) (misc : MiscTime) (T : ℤ) : DecidablePred (InWindow DAYS misc T) := fun utsv =>
  inferInstanceAs (Decidable ((∀ utp ∈ utsv, _) ∧ utsv.length ≤ DAYS))

structure ReportsLastDays (misc : MiscTime) (ud : UrlsDays DAYS) (T : ℤ) : Prop where
  getUTSV : ∀ url utsv, ud.getUTSV misc url = some utsv → InWindow DAYS misc T utsv
  iterateAll : ∀ p ∈ ud.iterateAll misc, InWindow DAYS misc T p.2

/-- Both reports are made of the entries. -/
theorem reportsLastDays_iff :
    ReportsLastDays misc ud T ↔
      ∀ (url : Url) (impl : UrlDaysImpl), ud.urlsDays[url]? = some impl →
        InWindow DAYS misc T (impl.toUTSV misc) := by
  constructor
  · intro h url impl himpl
    apply h.getUTSV url
    unfold UrlsDays.getUTSV
    rw [himpl, Option.map_some]
  · intro h
    constructor
    · intro url utsv hutsv
      obtain ⟨impl, himpl, rfl⟩ := Option.map_eq_some_iff.mp hutsv
      exact h url impl himpl
    · intro p hp
      obtain ⟨q, hq, rfl⟩ := List.mem_map.mp hp
      exact h q.1 q.2 (Std.ExtTreeMap.mem_toList_iff_getElem?_eq_some.mp hq)

namespace History

variable {h : History}

/-- Where a visit can be counted there is a day. -/
theorem exists_duration_eq (h : 0 ≤ duration DAYS) : ∃ k < DAYS, duration DAYS = days (k : ℤ) := by
  cases DAYS with
  | zero => exact absurd h (by decide)
  | succ k =>
    refine ⟨k, Nat.lt_succ_self k, ?_⟩
    unfold duration
    push_cast
    rw [add_sub_cancel_right]

/-- The days in the window are at most as many as it has. -/
theorem length_toList_le (hmono : misc.DaysInOrder) (hone : misc.OneMidnight)
    (hdone : h.DoneBy T) {m : OrdMap Str ℤ}
    (hspec : DaysAre DAYS misc m (h.counted DAYS misc url))
    (hcut : ∀ day : Str, (m[day]?).isSome → misc.getDayStr (T - duration DAYS) ≤ day) :
    m.toList.length ≤ DAYS := by
  have hsub : m.toList.map Prod.fst ⊆
      (List.range DAYS).map fun i : ℕ => misc.getDayStr (T - days i) := by
    intro day hday
    obtain ⟨q, hq, rfl⟩ := List.mem_map.mp hday
    have hsome : (m[q.1]?).isSome := by
      rw [Std.ExtTreeMap.mem_toList_iff_getElem?_eq_some.mp hq]
      rfl
    obtain ⟨p, hp, heq, -⟩ := (hspec q.1).mp hsome
    obtain ⟨hduration, htp, hle⟩ := admitted_of_mem_counted hdone hp
    obtain ⟨k, hk, hdays⟩ := exists_duration_eq hduration
    have hcut := hcut q.1 hsome
    rw [← heq, hdays] at hcut
    rw [← heq, List.mem_map]
    rcases le_or_gt (T - days k) p.1.tp with hin | hout
    · obtain ⟨i, hi, hday⟩ := hone.exists_getDayStr_eq (htp.trans hle) k hin
      exact ⟨i, List.mem_range.mpr (hi.trans_lt hk), hday.symm⟩
    · -- earlier on the first day of the window
      exact ⟨k, List.mem_range.mpr hk, le_antisymm hcut (hmono hout.le)⟩
  have hlength := (List.subperm_of_subset (OrdMap.nodup_map_fst_toList m) hsub).length_le
  rwa [List.length_map, List.length_map, List.length_range] at hlength

/-- The days of an entry are those of its URL. -/
theorem daysAre_dayVisits (hmono : misc.DaysInOrder) (hdone : h.DoneBy T) {impl : UrlDaysImpl}
    (himpl : (h.urlsDays DAYS misc).urlsDays[url]? = some impl) :
    DaysAre DAYS misc impl.dayVisits (h.counted DAYS misc url) := by
  have hdays : (h.urlsDays DAYS misc).daysOf url = impl.dayVisits := by
    unfold daysOf
    rw [himpl, Option.elim_some]
  rw [← hdays]
  exact daysAre_counted hmono hdone url

/-- **An entry** is reported in the window exactly when the last cleaning dropped all that is
before it. -/
theorem inWindow_toUTSV_iff (hmono : misc.DaysInOrder) (hback : misc.DaysReadBack)
    (hone : misc.OneMidnight) (hdone : h.DoneBy T) {impl : UrlDaysImpl}
    (himpl : (h.urlsDays DAYS misc).urlsDays[url]? = some impl) :
    InWindow DAYS misc T (impl.toUTSV misc) ↔ ∀ p ∈ h.counted DAYS misc url,
      misc.getDayStr p.1.tp < misc.getDayStr (T - duration DAYS) → Dropped DAYS misc p := by
  have hspec := daysAre_dayVisits hmono hdone himpl
  constructor
  · rintro ⟨hreport, -⟩ p hp hout
    by_contra hkept
    have hsome := (hspec (misc.getDayStr p.1.tp)).mpr ⟨p, hp, rfl, hkept⟩
    obtain ⟨cnt, hcnt⟩ := Option.isSome_iff_exists.mp hsome
    have hday := hreport ⟨impl.url, _, cnt⟩
      (List.mem_map.mpr ⟨_, Std.ExtTreeMap.mem_toList_iff_getElem?_eq_some.mpr hcnt, rfl⟩)
    dsimp only at hday
    rw [hback] at hday
    exact absurd hout (not_lt.mpr hday)
  · intro hcleaned
    have hcut : ∀ day : Str, (impl.dayVisits[day]?).isSome →
        misc.getDayStr (T - duration DAYS) ≤ day := by
      intro day hsome
      obtain ⟨p, hp, rfl, hkept⟩ := (hspec day).mp hsome
      exact not_lt.mp fun hout => hkept (hcleaned p hp hout)
    refine ⟨fun utp hutp => ?_, ?_⟩
    · obtain ⟨q, hq, rfl⟩ := List.mem_map.mp hutp
      have hget := Std.ExtTreeMap.mem_toList_iff_getElem?_eq_some.mp hq
      have hsome : (impl.dayVisits[q.1]?).isSome := by simp [hget]
      obtain ⟨p, -, heq, -⟩ := (hspec q.1).mp hsome
      show misc.getDayStr _ ≤ misc.getDayStr (misc.tpFromDayStr q.1)
      rw [← heq, hback, heq]
      exact hcut q.1 hsome
    · rw [UrlDaysImpl.toUTSV, List.length_map]
      exact length_toList_le hmono hone hdone hspec hcut

/-- **The last days** are all that is reported at a time `T` exactly when every counted visit from
before them was dropped by the last cleaning of its days. -/
theorem reportsLastDays_iff_cleaned (DAYS : ℕ) (misc : MiscTime) (hmono : misc.DaysInOrder)
    (hback : misc.DaysReadBack) (hone : misc.OneMidnight) {h : History} {T : ℤ}
    (hdone : h.DoneBy T) :
    ReportsLastDays misc (h.urlsDays DAYS misc) T ↔ h.Cleaned DAYS misc T := by
  rw [reportsLastDays_iff]
  refine forall_congr' fun url => ?_
  cases himpl : (h.urlsDays DAYS misc).urlsDays[url]? with
  | none =>
    -- a URL without an entry has no counted visits
    have hnil : h.counted DAYS misc url = [] := by
      by_contra hne
      have hsome := (isSome_iff_counted DAYS misc h url).mpr hne
      rw [himpl] at hsome
      cases hsome
    rw [hnil]
    exact iff_of_true (fun _ hsome => by cases hsome) fun _ hp => absurd hp List.not_mem_nil
  | some impl =>
    rw [← inWindow_toUTSV_iff hmono hback hone hdone himpl]
    constructor
    · intro hreports
      exact hreports impl rfl
    · rintro hwindow _ ⟨⟩
      exact hwindow

/-- A visit of 12 days ago. -/
def oldVisit : UrlTpStat := ⟨Str.ofString "http://a/", days (-12) - 1, 1⟩

/-- A day later the URL is visited again. -/
def visitedAgain : History :=
  .add (.add .empty oldVisit 0) ⟨Str.ofString "http://a/", days 1, 1⟩ (days 1)

theorem reportsLastDays_iff_cleaned_visitedAgain :
    ReportsLastDays .nearEpoch (visitedAgain.urlsDays 14 .nearEpoch) (days 1) := by
  have hdone : visitedAgain.DoneBy (days 1) :=
    ⟨le_rfl, le_rfl, by decide, by decide, trivial⟩
  refine (reportsLastDays_iff_cleaned 14 .nearEpoch MiscTime.daysInOrder_nearEpoch
    MiscTime.daysReadBack_nearEpoch MiscTime.oneMidnight_nearEpoch hdone).mpr ?_
  intro url
  by_cases hurl : Str.ofString "http://a/" = url
  · subst hurl
    decide
  · have hnone : visitedAgain.counted 14 .nearEpoch url = [] := by
      simp [visitedAgain, counted, oldVisit, hurl]
    rw [hnone]
    exact fun _ h => absurd h List.not_mem_nil

/-- The visit is merged and saved, and the store is opened again. -/
def mergedAndReloaded : History := .reload .empty (.merge .empty (.add .empty oldVisit 0) 0)

/-- A day later its day, the fourteenth before, is still reported. -/
theorem not_reportsLastDays_mergedAndReloaded :
    mergedAndReloaded.DoneBy 0 ∧
      ¬ ReportsLastDays .nearEpoch (mergedAndReloaded.urlsDays 14 .nearEpoch) (days 1) := by
  refine ⟨⟨trivial, le_rfl, trivial, le_rfl, by decide, trivial⟩, fun h => ?_⟩
  have hsome : ((mergedAndReloaded.urlsDays 14 .nearEpoch).getUTSV .nearEpoch
      (Str.ofString "http://a/")).isSome := by decide
  have hout : ¬ InWindow 14 .nearEpoch (days 1) (Option.get _ hsome) := by
    decide +revert
  exact hout (h.getUTSV _ _ (Option.some_get hsome).symm)

end History

end UrlsDays

/-! ### The global object of the store -/

namespace UrlsDaysDb

open UrlsDays (History)

/-- An object that a program has made by the time `T`. -/
def Made (misc : MiscTime) (T : ℤ) (ud : UrlsLastDays) : Prop :=
  ∃ h : History, h.DoneBy T ∧ h.urlsDays 14 misc = ud

/-- So are the objects of the store, if no visit was in the future when it was dequeued. -/
structure AllMade (misc : MiscTime) (o : Observed) : Prop where
  inv : Invariant misc o.st
  urlsDays : Made misc o.clock o.st.urlsDays
  /-- Those of the merge thread. -/
  mergeTh : match o.st.mergeTh with
    | .idle => True
    | .draining upd | .drained upd | .copied upd _ => Made misc o.clock upd
    | .merged _ copy => Made misc o.clock copy

variable {misc : MiscTime} {o o' : Observed}

theorem Made.mono {T T' : ℤ} {ud : UrlsLastDays} (hT : T ≤ T') (h : Made misc T ud) :
    Made misc T' ud := by
  obtain ⟨h, hdone, rfl⟩ := h
  exact ⟨h, hdone.mono hT, rfl⟩

theorem made_default (T : ℤ) : Made misc T default := ⟨.empty, trivial, rfl⟩

theorem allMade_init (clock : ℤ) : AllMade misc (Observed.init clock) where
  inv := invariant_openDb
  urlsDays := by
    have hempty : loadSnapshot ∅ = default := by
      have hmap : (loadSnapshot ∅).urlsDays = (default : UrlsLastDays).urlsDays := by
        apply Std.ExtTreeMap.ext_getElem?
        intro url
        rw [getElem?_loadSnapshot, Std.ExtTreeMap.getElem?_empty, Option.map_none]
        exact Std.ExtTreeMap.getElem?_empty.symm
      exact congrArg UrlsDays.mk hmap
    show Made misc clock (loadSnapshot ∅)
    rw [hempty]
    exact made_default clock
  mergeTh := trivial

/-- **Refinement.**  The steps of the store make its objects by the operations of a history. -/
theorem allMade_observe (a : Label) (h : observe misc o a = some o')
    (hpast : ∀ p ∈ o'.dequeued, p.1.tp ≤ p.2) (ho : AllMade misc o) : AllMade misc o' := by
  obtain ⟨hinv, hmade, hth⟩ := ho
  obtain ⟨⟨q, th, ud, snap, db, fin⟩, saved, dequeued, clock⟩ := o
  obtain ⟨t, ht, h⟩ := Option.bind_eq_some_iff.mp h
  have hinv' := invariant_step a ht hinv
  cases a with
  | save utp =>
    obtain rfl := step_save.mp ht
    obtain rfl := Option.some.inj h
    exact ⟨hinv', hmade, hth⟩
  | mergeStart =>
    obtain ⟨-, rfl⟩ := step_mergeStart.mp ht
    obtain rfl := Option.some.inj h
    exact ⟨hinv', hmade, made_default clock⟩
  | tryDequeue i now =>
    obtain ⟨upd, utp, hdraining, hutp, rfl⟩ := step_tryDequeue.mp ht
    obtain rfl : th = .draining upd := hdraining
    dsimp only at h
    split_ifs at h with hle
    rw [hutp] at h
    obtain rfl := Option.some.inj h
    have hutp_past := hpast (utp, now) (List.mem_append_right _ (List.mem_singleton_self _))
    refine ⟨hinv', hmade.mono hle, ?_⟩
    obtain ⟨hist, hdone, rfl⟩ := hth
    exact ⟨.add hist utp now, ⟨le_rfl, hutp_past, hdone.mono hle⟩, rfl⟩
  | drained =>
    obtain ⟨upd, hdraining, -, rfl⟩ := step_drained.mp ht
    obtain rfl : th = .draining upd := hdraining
    obtain rfl := Option.some.inj h
    refine ⟨hinv', hmade, ?_⟩
    dsimp only
    split_ifs
    · trivial
    · exact hth
  | copy =>
    obtain ⟨upd, hdrained, rfl⟩ := step_copy.mp ht
    obtain rfl : th = .drained upd := hdrained
    obtain rfl := Option.some.inj h
    exact ⟨hinv', hmade, hth⟩
  | mergeLocal now =>
    obtain ⟨upd, copy, hcopied, rfl⟩ := step_mergeLocal.mp ht
    obtain rfl : th = .copied upd copy := hcopied
    dsimp only at h
    split_ifs at h with hle
    obtain rfl := Option.some.inj h
    refine ⟨hinv', hmade.mono hle, ?_⟩
    -- the copy is one of the present global object
    obtain rfl : copy = ud := hinv.copied upd copy rfl
    obtain ⟨hist, hdone, rfl⟩ := hmade
    obtain ⟨updHist, hudone, rfl⟩ := hth
    exact ⟨.merge hist updHist now, ⟨le_rfl, hdone.mono hle, hudone.mono hle⟩, rfl⟩
  | switch =>
    obtain ⟨upd, copy, hmerged, rfl⟩ := step_switch.mp ht
    obtain rfl : th = .merged upd copy := hmerged
    obtain rfl := Option.some.inj h
    exact ⟨hinv', hth, trivial⟩
  | snapCopy keys =>
    obtain ⟨-, -, rfl⟩ := step_snapCopy.mp ht
    obtain rfl := Option.some.inj h
    exact ⟨hinv', hmade, hth⟩
  | snapPut =>
    obtain rfl := Option.some.inj h
    rcases step_snapPut.mp ht with ⟨ud, -, rfl⟩ | ⟨ud, key, keys, -, rfl⟩
    · exact ⟨hinv', hmade, hth⟩
    · exact ⟨hinv', hmade, hth⟩
  | reopen =>
    have hkeep := urlsDays_reopen hinv ht
    obtain ⟨-, -, -, rfl⟩ := step_reopen.mp ht
    obtain rfl := Option.some.inj h
    refine ⟨hinv', ?_, trivial⟩
    rw [hkeep]
    exact hmade

theorem dequeued_subset {a : Label} (h : observe misc o a = some o') :
    o.dequeued ⊆ o'.dequeued := by
  obtain ⟨t, -, h⟩ := Option.bind_eq_some_iff.mp h
  cases a with
  | tryDequeue i now =>
    dsimp only at h
    split_ifs at h
    obtain ⟨utp, -, rfl⟩ := Option.map_eq_some_iff.mp h
    exact List.subset_append_left _ _
  | mergeLocal now =>
    dsimp only at h
    split_ifs at h
    obtain rfl := Option.some.inj h
    exact List.Subset.refl _
  | save | mergeStart | drained | copy | switch | snapCopy | snapPut | reopen =>
    obtain rfl := Option.some.inj h
    exact List.Subset.refl _

/-- **The global object** of every run has a history up to the last reading of the clock. -/
theorem exists_history_urlsDays {start : ℤ} {l : List Label}
    (hrun : Machine.run (observe misc) (Observed.init start) l = some o)
    (hpast : ∀ p ∈ o.dequeued, p.1.tp ≤ p.2) :
    ∃ h : History, h.DoneBy o.clock ∧ h.urlsDays 14 misc = o.st.urlsDays := by
  have hmade : (∀ p ∈ o.dequeued, p.1.tp ≤ p.2) → AllMade misc o := by
    refine Machine.run_induction
      (P := fun o => (∀ p ∈ o.dequeued, p.1.tp ≤ p.2) → AllMade misc o) ?_ hrun
      fun _ => allMade_init start
    intro o a o' h ho hpast
    exact allMade_observe a h hpast (ho fun p hp => hpast p (dequeued_subset h hp))
  exact (hmade hpast).urlsDays

end UrlsDaysDb

end Contentv1
