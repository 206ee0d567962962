import Contentv1.Ldb.CrawledDb
import Contentv1.Ldb.Equiv.UrlsDaysDb
import Mathlib.Algebra.BigOperators.Group.List.Basic
import Mathlib.Algebra.Order.BigOperators.Group.List

/-!
# The counters of `CrawledDb` within a day

`OnDay misc start` are the readings of the clock on the day of `start`.  While all readings are of
that day the store holds no other day (`OneDay`), so that `getTodayEvents` reads the count of the
day (`getTodayEvents_eq_visitsOn`), and the steps of its threads move the visits of a URL from the
queue to the merge thread and on to the global object without changing their number
(`withinDay_threadStep`).
-/

namespace Contentv1

/-- The times of the day that has begun at `start`. -/
def OnDay (misc : MiscTime) (start now : ℤ) : Prop :=
  start ≤ now ∧ now < start + days 1 ∧ misc.getDayStr now = misc.getDayStr start

instance (misc : MiscTime) (start now : ℤ) : Decidable (OnDay misc start now) :=
  inferInstanceAs (Decidable (_ ∧ _ ∧ _))

namespace UrlDaysImpl

variable {misc : MiscTime} {duration : ℤ} {impl uds : UrlDaysImpl} {now : ℤ} {day : Str}

/-- Only `day` has a count, which is not negative. -/
def OneDay (day : Str) (m : OrdMap Str ℤ) : Prop :=
  ∀ (d : Str) (c : ℤ), m[d]? = some c → d = day ∧ 0 ≤ c

theorem oneDay_empty : OneDay day (∅ : OrdMap Str ℤ) := by
  intro d c h
  rw [Std.ExtTreeMap.getElem?_empty] at h
  cases h

theorem OneDay.getD_nonneg {m : OrdMap Str ℤ} (h : OneDay day m) (d : Str) :
    0 ≤ m[d]?.getD 0 := by
  cases hd : m[d]? with
  | none => exact le_refl 0
  | some c => exact (h d c hd).2

theorem OneDay.eraseIf {m : OrdMap Str ℤ} (h : OneDay day m) (p : Str → Bool) :
    OneDay day (m.eraseIf p) := by
  intro d c hd
  rw [OrdMap.getElem?_eraseIf] at hd
  split_ifs at hd
  exact h d c hd

theorem OneDay.addVisits {m : OrdMap Str ℤ} (h : OneDay day m) {cnt : ℤ} (hcnt : 0 ≤ cnt) :
    OneDay day (addVisits m day cnt) := by
  intro d c hd
  rw [UrlDaysImpl.addVisits, OrdMap.getElem?_alter] at hd
  split_ifs at hd with heq
  · obtain rfl := Option.some.inj hd
    exact ⟨heq.symm, add_nonneg (h.getD_nonneg day) hcnt⟩
  · exact h d c hd

theorem OneDay.foldl_addVisits {m n : OrdMap Str ℤ} (hm : OneDay day m) (hn : OneDay day n) :
    OneDay day (n.toList.foldl (fun m p => UrlDaysImpl.addVisits m p.1 p.2) m) := by
  intro d c hd
  rw [OrdMap.getElem?_foldl_perm addVisits_localAt (List.Perm.refl _)] at hd
  cases hnd : n[d]? with
  | none =>
    rw [hnd] at hd
    exact hm d c hd
  | some c' =>
    rw [hnd, Option.elim_some] at hd
    obtain rfl := Option.some.inj hd
    obtain ⟨rfl, hc'⟩ := hn d c' hnd
    exact ⟨rfl, add_nonneg (hm.getD_nonneg d) hc'⟩

theorem OneDay.merge (himpl : OneDay day impl.dayVisits) (huds : OneDay day uds.dayVisits) :
    OneDay day (impl.merge misc duration uds now).dayVisits := by
  unfold UrlDaysImpl.merge
  split_ifs
  · exact huds
  · exact (himpl.foldl_addVisits huds).eraseIf _

/-- With one day, the last count is the count of that day. -/
theorem getLast?_toUTSV (h : OneDay day impl.dayVisits) :
    ((impl.toUTSV misc).getLast?.map UrlTpStat.cnt).getD 0 = impl.visitsOn day := by
  unfold toUTSV visitsOn
  rw [List.getLast?_map, Option.map_map]
  cases hlast : impl.dayVisits.toList.getLast? with
  | none =>
    have hnil := List.getLast?_eq_none_iff.mp hlast
    cases hd : impl.dayVisits[day]? with
    | none => rfl
    | some c =>
      have hmem := Std.ExtTreeMap.mem_toList_iff_getElem?_eq_some.mpr hd
      rw [hnil] at hmem
      cases hmem
  | some p =>
    have hp := Std.ExtTreeMap.mem_toList_iff_getElem?_eq_some.mp (List.mem_of_getLast? hlast)
    rw [(h p.1 p.2 hp).1] at hp
    rw [hp]
    rfl

end UrlDaysImpl

namespace UrlsDays

variable {DAYS : ℕ} {misc : MiscTime} {ud uds : UrlsDays DAYS} {utp : UrlTpStat} {now : ℤ}
  {url : Url} {day : Str}

/-- No entry has a count of another day. -/
def OneDay (day : Str) (ud : UrlsDays DAYS) : Prop :=
  ∀ (url : Url) (impl : UrlDaysImpl), ud.urlsDays[url]? = some impl →
    UrlDaysImpl.OneDay day impl.dayVisits

theorem oneDay_default : (default : UrlsDays DAYS).OneDay day := by
  intro url impl h
  have hnone : (default : UrlsDays DAYS).urlsDays[url]? = none := Std.ExtTreeMap.getElem?_empty
  rw [hnone] at h
  cases h

/-- A missing entry is read as one without days. -/
theorem OneDay.getD (h : ud.OneDay day) (url : Url) {impl : UrlDaysImpl}
    (himpl : UrlDaysImpl.OneDay day impl.dayVisits) :
    UrlDaysImpl.OneDay day (ud.urlsDays[url]?.getD impl).dayVisits := by
  cases hget : ud.urlsDays[url]? with
  | none => exact himpl
  | some old => exact h url old hget

theorem OneDay.visitsOn_nonneg (h : ud.OneDay day) (url : Url) : 0 ≤ ud.visitsOn url day := by
  rw [visitsOn_eq_getD ud UrlDaysImpl.visitsOn_default]
  exact (h.getD url UrlDaysImpl.oneDay_empty).getD_nonneg day

theorem OneDay.add (h : ud.OneDay day) (hday : misc.getDayStr utp.tp = day) (hcnt : 0 ≤ utp.cnt) :
    (ud.add misc utp now).OneDay day := by
  unfold UrlsDays.add
  split_ifs
  · exact h
  · intro url impl himpl
    rw [OrdMap.getElem?_insert] at himpl
    split_ifs at himpl
    · obtain rfl := Option.some.inj himpl
      subst hday
      exact ((h.getD utp.url UrlDaysImpl.oneDay_empty).addVisits hcnt).eraseIf _
    · exact h url impl himpl

theorem OneDay.merge (h : ud.OneDay day) (huds : uds.OneDay day) :
    (ud.merge misc uds now).OneDay day := by
  intro url impl himpl
  rw [getElem?_merge] at himpl
  cases hurl : uds.urlsDays[url]? with
  | none =>
    rw [hurl] at himpl
    exact h url impl himpl
  | some v =>
    rw [hurl, Option.elim_some] at himpl
    obtain rfl := Option.some.inj himpl
    exact (h.getD url UrlDaysImpl.oneDay_empty).merge (huds url v hurl)

end UrlsDays

theorem AttemptStatus.mem_all (status : AttemptStatus) : status ∈ AttemptStatus.all := by
  cases status <;> decide

/-- The made-up URLs of different statuses are different. -/
theorem CrawledDb.genFakeUrlForResult_injective : ∀ status status' : AttemptStatus,
    genFakeUrlForResult status.value = genFakeUrlForResult status'.value → status = status' := by
  intro status status'
  cases status <;> cases status' <;> decide

theorem CrawledDb.getTodayEvents_eq_visitsOn {misc : MiscTime} {db : UrlsLastDays} {day : Str}
    (h : db.OneDay day) (eventId : ℕ) :
    getTodayEvents misc db eventId = db.visitsOn (genFakeUrlForResult eventId) day := by
  unfold getTodayEvents UrlsDays.getUTSV UrlsDays.visitsOn
  cases hget : db.urlsDays[genFakeUrlForResult eventId]? with
  | none => rfl
  | some impl => exact UrlDaysImpl.getLast?_toUTSV (h _ impl hget)

/-- What a call of `onFetched` saves are numbers of results. -/
theorem CrawledDb.cnt_nonneg_of_mem_onFetched {results : List FetchResult} :
    ∀ call ∈ CrawledDb.onFetched results, 0 ≤ call.2 := by
  intro call hcall
  obtain ⟨status, -, rfl⟩ := List.mem_map.mp (List.mem_of_mem_filter hcall)
  exact Int.natCast_nonneg _

/-! ### Within a day -/

section OnDay

variable {misc : MiscTime} {start now : ℤ}

/-- Cleaning at a time of the day keeps the day. -/
theorem OnDay.getDayStr_cut_le (hmono : misc.DaysInOrder) (h : OnDay misc start now) :
    misc.getDayStr (now - UrlsDays.duration 14) ≤ misc.getDayStr start := by
  have hcut : now - UrlsDays.duration 14 ≤ now := by
    have : (0 : ℤ) ≤ UrlsDays.duration 14 := by decide
    omega
  rw [← h.2.2]
  exact hmono hcut

/-- A visit of the day is never too old on the day. -/
theorem OnDay.addedOn_eq {utp : UrlTpStat} (h : OnDay misc start now)
    (hutp : OnDay misc start utp.tp) (url : Url) :
    UrlsDays.addedOn 14 misc utp now url (misc.getDayStr start)
      = if utp.url = url then utp.cnt else 0 := by
  have hage : now - utp.tp ≤ UrlsDays.duration 14 := by
    have hdays : days 1 ≤ UrlsDays.duration 14 := by decide
    have hnow := h.2.1
    have htp := hutp.1
    omega
  unfold UrlsDays.addedOn
  refine if_congr ?_ rfl rfl
  constructor
  · rintro ⟨-, hurl, -⟩
    exact hurl
  · intro hurl
    exact ⟨hage, hurl, hutp.2.2⟩

end OnDay

/-- The visits that the merge thread holds and has not put into the global object. -/
def MergeTh.pending : MergeTh → UrlsLastDays
  | .idle => default
  | .draining upd | .drained upd | .copied upd _ | .merged upd _ => upd

namespace UrlsDaysDb

variable {misc : MiscTime} {clock : ℤ → Bool} {start : ℤ} {s t : State}

/-- A sum after one element is taken out. -/
theorem sum_map_eraseIdx {α : Type} (f : α → ℤ) {l : List α} {i : ℕ} {a : α} (h : l[i]? = some a) :
    (l.map f).sum = f a + ((l.eraseIdx i).map f).sum := by
  rw [((Machine.perm_cons_eraseIdx h).map f).sum_eq, List.map_cons, List.sum_cons]

/-- The visits of a URL that a queue holds. -/
def queuedOn (q : List UrlTpStat) (url : Url) : ℤ :=
  (q.map fun utp => if utp.url = url then utp.cnt else 0).sum

theorem queuedOn_append (q : List UrlTpStat) (utp : UrlTpStat) (url : Url) :
    queuedOn (q ++ [utp]) url = queuedOn q url + if utp.url = url then utp.cnt else 0 := by
  simp [queuedOn]

theorem queuedOn_eraseIdx {q : List UrlTpStat} {i : ℕ} {utp : UrlTpStat} (h : q[i]? = some utp)
    (url : Url) :
    queuedOn q url = (if utp.url = url then utp.cnt else 0) + queuedOn (q.eraseIdx i) url :=
  sum_map_eraseIdx (fun utp : UrlTpStat => if utp.url = url then utp.cnt else 0) h

/-- The visits of a URL that are saved and not yet in the global object. -/
def State.unmergedOn (s : State) (url : Url) (day : Str) : ℤ :=
  queuedOn s.q url + s.mergeTh.pending.visitsOn url day

/-- The visits of a URL that are saved. -/
def State.totalOn (s : State) (url : Url) (day : Str) : ℤ :=
  s.urlsDays.visitsOn url day + s.unmergedOn url day

/-- The store has seen the day of `start` only. -/
structure WithinDay (misc : MiscTime) (start : ℤ) (s : State) : Prop where
  q : ∀ utp ∈ s.q, OnDay misc start utp.tp ∧ 0 ≤ utp.cnt
  pending : s.mergeTh.pending.OneDay (misc.getDayStr start)
  stored : s.urlsDays.OneDay (misc.getDayStr start)
  copied : ∀ upd copy, s.mergeTh = .copied upd copy → copy = s.urlsDays
  merged : ∀ upd copy, s.mergeTh = .merged upd copy →
    ∃ now, OnDay misc start now ∧ copy = s.urlsDays.merge misc upd now

theorem withinDay_openDb : WithinDay misc start (openDb ∅) where
  q := nofun
  pending := UrlsDays.oneDay_default
  stored := by
    intro url impl h
    have hnone : (openDb ∅).urlsDays.urlsDays[url]? = none := by
      show (loadSnapshot ∅).urlsDays[url]? = none
      rw [getElem?_loadSnapshot, Std.ExtTreeMap.getElem?_empty, Option.map_none]
    rw [hnone] at h
    cases h
  copied := nofun
  merged := nofun

theorem totalOn_openDb (url : Url) (day : Str) : (openDb ∅).totalOn url day = 0 := by
  have hstored : (openDb ∅).urlsDays.visitsOn url day = 0 := by
    show (loadSnapshot ∅).visitsOn url day = 0
    rw [UrlsDays.visitsOn, getElem?_loadSnapshot, Std.ExtTreeMap.getElem?_empty, Option.map_none,
      Option.elim_none]
  show (openDb ∅).urlsDays.visitsOn url day + (0 + (default : UrlsLastDays).visitsOn url day) = 0
  rw [hstored, UrlsDays.visitsOn_default]
  rfl

/-- What is unmerged is what is saved and cannot be read yet. -/
theorem unmergedOn_congr {url : Url} {day : Str} (hurlsDays : t.urlsDays = s.urlsDays)
    (htotal : t.totalOn url day = s.totalOn url day) :
    t.unmergedOn url day = s.unmergedOn url day := by
  unfold State.totalOn at htotal
  rw [hurlsDays] at htotal
  exact add_left_cancel htotal

/-- A step that moves no visits keeps their number. -/
theorem totalOn_congr {url : Url} {day : Str} (hq : t.q = s.q) (hurlsDays : t.urlsDays = s.urlsDays)
    (hpending : t.mergeTh.pending.visitsOn url day = s.mergeTh.pending.visitsOn url day) :
    t.totalOn url day = s.totalOn url day := by
  unfold State.totalOn State.unmergedOn
  rw [hq, hurlsDays, hpending]

theorem queuedOn_nonneg (hs : WithinDay misc start s) (url : Url) : 0 ≤ queuedOn s.q url := by
  apply List.sum_nonneg
  intro c hc
  obtain ⟨utp, hutp, rfl⟩ := List.mem_map.mp hc
  split_ifs
  · exact (hs.q utp hutp).2
  · exact le_refl 0

theorem unmergedOn_nonneg (hs : WithinDay misc start s) (url : Url) :
    0 ≤ s.unmergedOn url (misc.getDayStr start) :=
  add_nonneg (queuedOn_nonneg hs url) (hs.pending.visitsOn_nonneg url)

/-- Saving a pack of the day adds its visits. -/
theorem withinDay_save {utp : UrlTpStat} (h : step misc s (.save utp) = some t)
    (hs : WithinDay misc start s) (hutp : OnDay misc start utp.tp) (hcnt : 0 ≤ utp.cnt) :
    WithinDay misc start t ∧
      ∀ url, t.totalOn url (misc.getDayStr start)
        = s.totalOn url (misc.getDayStr start) + if utp.url = url then utp.cnt else 0 := by
  obtain rfl := step_save.mp h
  constructor
  · refine ⟨fun x hx => ?_, hs.pending, hs.stored, hs.copied, hs.merged⟩
    rcases List.mem_append.mp hx with hx | hx
    · exact hs.q x hx
    · obtain rfl := List.mem_singleton.mp hx
      exact ⟨hutp, hcnt⟩
  · intro url
    unfold State.totalOn State.unmergedOn
    rw [queuedOn_append]
    dsimp only
    omega

/-- **A step of the threads** moves visits and neither loses nor counts one twice. -/
theorem withinDay_threadStep (hmono : misc.DaysInOrder)
    (hclock : ∀ now, clock now → OnDay misc start now) {a : Label}
    (h : threadStep misc clock s a = some t) (hs : WithinDay misc start s) :
    WithinDay misc start t ∧
      ∀ url, t.totalOn url (misc.getDayStr start) = s.totalOn url (misc.getDayStr start) := by
  unfold threadStep at h
  split_ifs at h with hguard
  obtain ⟨hthreads, hnow⟩ := hguard
  obtain ⟨hq, hpending, hstored, hcopied, hmerged⟩ := hs
  cases a with
  | save utp => cases hthreads
  | reopen => cases hthreads
  | mergeStart =>
    obtain ⟨hth, rfl⟩ := step_mergeStart.mp h
    refine ⟨⟨hq, UrlsDays.oneDay_default, hstored, nofun, nofun⟩, fun url => ?_⟩
    exact totalOn_congr rfl rfl (by rw [hth]; rfl)
  | tryDequeue i now =>
    have hon := hclock now (hnow now rfl)
    obtain ⟨upd, utp, hth, hutp, rfl⟩ := step_tryDequeue.mp h
    rw [hth] at hpending
    obtain ⟨htp, hcnt⟩ := hq utp (List.mem_of_getElem? hutp)
    refine ⟨⟨fun x hx => hq x (List.mem_of_mem_eraseIdx hx), hpending.add htp.2.2 hcnt, hstored,
      nofun, nofun⟩, fun url => ?_⟩
    -- no visit of the day is too old for `add`
    have hadd : (upd.add misc utp now).visitsOn url (misc.getDayStr start)
        = upd.visitsOn url (misc.getDayStr start) + if utp.url = url then utp.cnt else 0 := by
      rw [UrlsDays.visitsOn_add (hon.getDayStr_cut_le hmono), hon.addedOn_eq htp]
    unfold State.totalOn State.unmergedOn
    rw [hth, queuedOn_eraseIdx hutp]
    show _ + (_ + (upd.add misc utp now).visitsOn url _) = _ + (_ + upd.visitsOn url _)
    rw [hadd]
    dsimp only
    omega
  | drained =>
    obtain ⟨upd, hth, -, rfl⟩ := step_drained.mp h
    rw [hth] at hpending
    by_cases hempty : upd.empty = true
    · rw [if_pos hempty]
      refine ⟨⟨hq, UrlsDays.oneDay_default, hstored, nofun, nofun⟩, fun url => ?_⟩
      refine totalOn_congr rfl rfl ?_
      rw [hth]
      show (default : UrlsLastDays).visitsOn url _ = upd.visitsOn url _
      rw [UrlsDays.visitsOn_default, UrlsDays.visitsOn_of_empty hempty]
    · rw [if_neg hempty]
      refine ⟨⟨hq, hpending, hstored, nofun, nofun⟩, fun url => ?_⟩
      exact totalOn_congr rfl rfl (by rw [hth]; rfl)
  | copy =>
    obtain ⟨upd, hth, rfl⟩ := step_copy.mp h
    rw [hth] at hpending
    refine ⟨⟨hq, hpending, hstored, ?_, nofun⟩, fun url => ?_⟩
    · rintro upd' copy heq
      cases heq
      rfl
    · exact totalOn_congr rfl rfl (by rw [hth]; rfl)
  | mergeLocal now =>
    obtain ⟨upd, copy, hth, rfl⟩ := step_mergeLocal.mp h
    obtain rfl := hcopied upd copy hth
    rw [hth] at hpending
    refine ⟨⟨hq, hpending, hstored, nofun, ?_⟩, fun url => ?_⟩
    · rintro upd' copy heq
      cases heq
      exact ⟨now, hclock now (hnow now rfl), rfl⟩
    · exact totalOn_congr rfl rfl (by rw [hth]; rfl)
  | switch =>
    obtain ⟨upd, copy, hth, rfl⟩ := step_switch.mp h
    obtain ⟨now, hon, rfl⟩ := hmerged upd copy hth
    rw [hth] at hpending
    -- what was pending is in the merged copy
    refine ⟨⟨hq, UrlsDays.oneDay_default, hstored.merge hpending, nofun, nofun⟩, fun url => ?_⟩
    unfold State.totalOn State.unmergedOn
    rw [hth]
    show UrlsDays.visitsOn (s.urlsDays.merge misc upd now) url _
      + (_ + (default : UrlsLastDays).visitsOn url _) = _ + (_ + upd.visitsOn url _)
    rw [UrlsDays.visitsOn_merge (hon.getDayStr_cut_le hmono), UrlsDays.visitsOn_default]
    dsimp only
    omega
  | snapCopy keys =>
    obtain ⟨-, -, rfl⟩ := step_snapCopy.mp h
    exact ⟨⟨hq, hpending, hstored, hcopied, hmerged⟩, fun _ => rfl⟩
  | snapPut =>
    rcases step_snapPut.mp h with ⟨ud, -, rfl⟩ | ⟨ud, key, keys, -, rfl⟩
    · exact ⟨⟨hq, hpending, hstored, hcopied, hmerged⟩, fun _ => rfl⟩
    · exact ⟨⟨hq, hpending, hstored, hcopied, hmerged⟩, fun _ => rfl⟩

/-- Of the threads' steps only `switch` changes the global object. -/
theorem urlsDays_threadStep {a : Label} (h : threadStep misc clock s a = some t)
    (ha : a ≠ .switch) : t.urlsDays = s.urlsDays := by
  unfold threadStep at h
  split_ifs at h with hguard
  refine urlsDays_step ha ?_ h
  rintro rfl
  cases hguard.1

/-- `switch` puts what the merge thread holds into the global object. -/
theorem visitsOn_switch (hmono : misc.DaysInOrder) (hs : WithinDay misc start s)
    (h : threadStep misc clock s .switch = some t) (url : Url) :
    t.urlsDays.visitsOn url (misc.getDayStr start)
      = s.urlsDays.visitsOn url (misc.getDayStr start)
        + s.mergeTh.pending.visitsOn url (misc.getDayStr start) := by
  unfold threadStep at h
  split_ifs at h with hguard
  obtain ⟨upd, copy, hth, rfl⟩ := step_switch.mp h
  obtain ⟨now, hon, rfl⟩ := hs.merged upd copy hth
  rw [hth]
  exact UrlsDays.visitsOn_merge (hon.getDayStr_cut_le hmono)

end UrlsDaysDb

end Contentv1
