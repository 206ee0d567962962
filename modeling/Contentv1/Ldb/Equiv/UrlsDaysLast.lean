import Contentv1.Ldb.Equiv.UrlsDays

/-!
# The last day of each URL

Cleaning drops days of a URL from the front, and only when the URL gets new visits, so the last day
of a URL is complete however old it is.

* `daySum` is the count of a list of visits; a store adds up day by day (`getElem?_daysOf_add`,
  `getElem?_daysOf_merge`), except for the days it cleans.
* `KeepsLast ud visits`: on the last day of each URL the store has the count of `visits`, and it has
  no day that they lack.  `KeepsLast.add` and `KeepsLast.merge` are the two operations on it.
* `KeepsLast.getLast?_toList` is what a reader of the last day finds.
-/

namespace Contentv1

/-- The last entry of a map is that of its greatest key. -/
theorem OrdMap.getLast?_toList_eq_some {α β : Type*} [LinearOrder α] {m : OrdMap α β} {k : α}
    {v : β} (h : m[k]? = some v) (hmax : ∀ k', m[k']?.isSome → k' ≤ k) :
    m.toList.getLast? = some (k, v) := by
  have hmem := Std.ExtTreeMap.mem_toList_iff_getElem?_eq_some.mpr h
  cases hlast : m.toList.getLast? with
  | none =>
    rw [List.getLast?_eq_none_iff.mp hlast] at hmem
    cases hmem
  | some p =>
    obtain ⟨init, hinit⟩ := List.getLast?_eq_some_iff.mp hlast
    have hp := Std.ExtTreeMap.mem_toList_iff_getElem?_eq_some.mp (List.mem_of_getLast? hlast)
    have hsorted := m.ordered_keys_toList
    rw [hinit] at hmem hsorted
    rcases List.mem_append.mp hmem with hfront | hback
    · -- an entry before the last one has a smaller key
      have hlt := (List.pairwise_append.mp hsorted).2.2 _ hfront _ (List.mem_singleton_self p)
      have hle := hmax p.1 (by rw [hp]; rfl)
      exact absurd (compare_lt_iff_lt.mp hlt) (not_lt.mpr hle)
    · rw [List.mem_singleton.mp hback]

namespace UrlsDays

variable {DAYS : ℕ} {misc : MiscTime} {ud uds : UrlsDays DAYS} {utp : UrlTpStat} {now : ℤ}
  {visits visits' : List UrlTpStat} {url : Url} {day : Str}

/-- The days of a URL with their counts. -/
def daysOf (ud : UrlsDays DAYS) (url : Url) : OrdMap Str ℤ :=
  ud.urlsDays[url]?.elim ∅ UrlDaysImpl.dayVisits

/-- The counts of the visits of a URL on a day. -/
def countsOn (misc : MiscTime) (visits : List UrlTpStat) (url : Url) (day : Str) : List ℤ :=
  (visits.filter fun v => v.url = url ∧ misc.getDayStr v.tp = day).map UrlTpStat.cnt

/-- The count of the visits of a URL on a day, `none` where there is none. -/
def daySum (misc : MiscTime) (visits : List UrlTpStat) (url : Url) (day : Str) : Option ℤ :=
  if (countsOn misc visits url day).isEmpty then none
  else some (countsOn misc visits url day).sum

/-! ### Counts of lists -/

theorem mem_countsOn {c : ℤ} :
    c ∈ countsOn misc visits url day ↔
      ∃ v ∈ visits, (v.url = url ∧ misc.getDayStr v.tp = day) ∧ v.cnt = c := by
  simp only [countsOn, List.mem_map, List.mem_filter, decide_eq_true_eq, and_assoc]

theorem daySum_append (misc : MiscTime) (visits visits' : List UrlTpStat) (url : Url) (day : Str) :
    daySum misc (visits ++ visits') url day
      = (daySum misc visits url day).merge (· + ·) (daySum misc visits' url day) := by
  have happend : countsOn misc (visits ++ visits') url day
      = countsOn misc visits url day ++ countsOn misc visits' url day := by
    simp [countsOn]
  unfold daySum
  rw [happend]
  cases countsOn misc visits url day with
  | nil => cases countsOn misc visits' url day <;> simp
  | cons a l => cases countsOn misc visits' url day <;> simp [add_assoc]

theorem daySum_singleton (misc : MiscTime) (utp : UrlTpStat) (url : Url) (day : Str) :
    daySum misc [utp] url day
      = if utp.url = url ∧ misc.getDayStr utp.tp = day then some utp.cnt else none := by
  unfold daySum countsOn
  split_ifs with h <;> simp_all

theorem daySum_isSome_iff :
    (daySum misc visits url day).isSome ↔
      ∃ v ∈ visits, v.url = url ∧ misc.getDayStr v.tp = day := by
  have hsome : (daySum misc visits url day).isSome ↔
      ∃ c, c ∈ countsOn misc visits url day := by
    unfold daySum
    cases countsOn misc visits url day with
    | nil => simp
    | cons a l => exact iff_of_true rfl ⟨a, List.mem_cons_self⟩
  rw [hsome]
  constructor
  · rintro ⟨c, hc⟩
    obtain ⟨v, hv, honDay, -⟩ := mem_countsOn.mp hc
    exact ⟨v, hv, honDay⟩
  · rintro ⟨v, hv, honDay⟩
    exact ⟨v.cnt, mem_countsOn.mpr ⟨v, hv, honDay, rfl⟩⟩

/-! ### The two operations, day by day -/

theorem daysOf_eq_getD (ud : UrlsDays DAYS) {impl : UrlDaysImpl} (h : impl.dayVisits = ∅) :
    ud.daysOf url = (ud.urlsDays[url]?.getD impl).dayVisits := by
  unfold daysOf
  cases ud.urlsDays[url]? with
  | none => exact h.symm
  | some _ => rfl

theorem dayVisits_default : (default : UrlDaysImpl).dayVisits = ∅ := rfl

/-- Adding visits of a day. -/
theorem getElem?_addVisits (m : OrdMap Str ℤ) (day day' : Str) (cnt : ℤ) :
    (UrlDaysImpl.addVisits m day cnt)[day']?
      = m[day']?.merge (· + ·) (if day = day' then some cnt else none) := by
  rw [UrlDaysImpl.addVisits, OrdMap.getElem?_alter]
  split_ifs with h
  · subst h
    cases m[day]? <;> simp
  · cases m[day']? <;> rfl

/-- Adding the days of another entry. -/
theorem getElem?_foldl_addVisits (m n : OrdMap Str ℤ) (day : Str) :
    (n.toList.foldl (fun m p => UrlDaysImpl.addVisits m p.1 p.2) m)[day]?
      = m[day]?.merge (· + ·) n[day]? := by
  rw [OrdMap.getElem?_foldl_perm UrlDaysImpl.addVisits_localAt (List.Perm.refl _)]
  cases n[day]? <;> cases m[day]? <;> simp

/-- **`add`** of a visit that is not too old. -/
theorem getElem?_daysOf_add (hnew : now - utp.tp ≤ duration DAYS) (url : Url) (day : Str) :
    ((ud.add misc utp now).daysOf url)[day]?
      = if utp.url = url ∧ day < misc.getDayStr (now - duration DAYS) then none
        else (ud.daysOf url)[day]?.merge (· + ·) (daySum misc [utp] url day) := by
  unfold add
  rw [if_neg (not_lt.mpr hnew), daySum_singleton]
  unfold daysOf
  dsimp only
  rw [OrdMap.getElem?_insert]
  by_cases hurl : utp.url = url
  · subst hurl
    rw [if_pos rfl, Option.elim_some]
    unfold UrlDaysImpl.checkClean
    dsimp only
    rw [OrdMap.getElem?_eraseIf, getElem?_addVisits]
    cases ud.urlsDays[utp.url]? <;> simp [UrlDaysImpl.ofUrl]
  · rw [if_neg hurl, if_neg fun h => hurl h.1, if_neg fun h => hurl h.1]
    cases (ud.urlsDays[url]?.elim ∅ UrlDaysImpl.dayVisits)[day]? <;> rfl

theorem daysOf_merge_of_none (h : uds.urlsDays[url]? = none) :
    (ud.merge misc uds now).daysOf url = ud.daysOf url := by
  unfold daysOf
  rw [getElem?_merge, h, Option.elim_none]

/-- Into an entry without days `merge` takes the other days as they are. -/
theorem daysOf_merge_of_eq_empty (hentry : (uds.urlsDays[url]?).isSome)
    (hempty : ud.daysOf url = ∅) : (ud.merge misc uds now).daysOf url = uds.daysOf url := by
  obtain ⟨v, hv⟩ := Option.isSome_iff_exists.mp hentry
  rw [daysOf_eq_getD ud dayVisits_default] at hempty
  unfold daysOf
  rw [getElem?_merge, hv, Option.elim_some, Option.elim_some, Option.elim_some]
  unfold UrlDaysImpl.merge
  rw [if_pos (Std.ExtTreeMap.isEmpty_iff.mpr hempty)]

/-- Into other entries it adds up the days and cleans them. -/
theorem getElem?_daysOf_merge_of_ne_empty (hentry : (uds.urlsDays[url]?).isSome)
    (hne : ud.daysOf url ≠ ∅) (day : Str) :
    ((ud.merge misc uds now).daysOf url)[day]?
      = if day < misc.getDayStr (now - duration DAYS) then none
        else (ud.daysOf url)[day]?.merge (· + ·) (uds.daysOf url)[day]? := by
  obtain ⟨v, hv⟩ := Option.isSome_iff_exists.mp hentry
  have hudsv : uds.daysOf url = v.dayVisits := by simp [daysOf, hv]
  have hmerge : (ud.merge misc uds now).daysOf url
      = ((ud.urlsDays[url]?.getD default).merge misc (duration DAYS) v now).dayVisits := by
    unfold daysOf
    rw [getElem?_merge, hv, Option.elim_some, Option.elim_some]
  rw [daysOf_eq_getD ud dayVisits_default] at hne
  rw [hmerge, hudsv, daysOf_eq_getD ud dayVisits_default]
  unfold UrlDaysImpl.merge
  rw [if_neg (mt Std.ExtTreeMap.isEmpty_iff.mp hne)]
  unfold UrlDaysImpl.checkClean
  dsimp only
  rw [OrdMap.getElem?_eraseIf, getElem?_foldl_addVisits]
  simp

/-- **`merge`** adds up all days, or those that it does not clean. -/
theorem getElem?_daysOf_merge (misc : MiscTime) (ud uds : UrlsDays DAYS) (now : ℤ) (url : Url) :
    (∀ day : Str, ((ud.merge misc uds now).daysOf url)[day]?
        = (ud.daysOf url)[day]?.merge (· + ·) (uds.daysOf url)[day]?) ∨
      ∀ day : Str, ((ud.merge misc uds now).daysOf url)[day]?
        = if day < misc.getDayStr (now - duration DAYS) then none
          else (ud.daysOf url)[day]?.merge (· + ·) (uds.daysOf url)[day]? := by
  cases hv : uds.urlsDays[url]? with
  | none =>
    apply Or.inl
    intro day
    have hnone : (uds.daysOf url)[day]? = none := by simp [daysOf, hv]
    rw [daysOf_merge_of_none hv, hnone]
    cases (ud.daysOf url)[day]? <;> rfl
  | some v =>
    have hentry : (uds.urlsDays[url]?).isSome := by simp [hv]
    by_cases hempty : ud.daysOf url = ∅
    · apply Or.inl
      intro day
      rw [daysOf_merge_of_eq_empty hentry hempty, hempty, Std.ExtTreeMap.getElem?_empty]
      cases (uds.daysOf url)[day]? <;> rfl
    · exact Or.inr fun day => getElem?_daysOf_merge_of_ne_empty hentry hempty day

/-! ### The last day -/

/-- The store has the count of `visits` on the last day of each URL. -/
structure KeepsLast (misc : MiscTime) (ud : UrlsDays DAYS) (visits : List UrlTpStat) : Prop where
  /-- No entry without a visit. -/
  entry : ∀ url : Url, (ud.urlsDays[url]?).isSome → ∃ v ∈ visits, v.url = url
  /-- No day without a visit. -/
  known : ∀ (url : Url) (day : Str), ((ud.daysOf url)[day]?).isSome →
    (daySum misc visits url day).isSome
  /-- A day is complete if no visit of the URL is after it. -/
  last : ∀ (url : Url) (day : Str),
    (∀ v ∈ visits, v.url = url → misc.getDayStr v.tp ≤ day) →
      (ud.daysOf url)[day]? = daySum misc visits url day

theorem isSome_merge_iff {a b : Option ℤ} :
    (a.merge (· + ·) b).isSome ↔ a.isSome ∨ b.isSome := by
  cases a <;> cases b <;> simp

theorem keepsLast_default (misc : MiscTime) : KeepsLast misc (default : UrlsDays DAYS) [] := by
  have hnone : ∀ url : Url, (default : UrlsDays DAYS).urlsDays[url]? = none :=
    fun _ => Std.ExtTreeMap.getElem?_empty
  have hdays : ∀ url : Url, (default : UrlsDays DAYS).daysOf url = ∅ := by
    intro url
    simp [daysOf, hnone]
  refine ⟨fun url h => ?_, fun url day h => ?_, fun url day _ => ?_⟩
  · rw [hnone] at h
    cases h
  · rw [hdays, Std.ExtTreeMap.getElem?_empty] at h
    cases h
  · rw [hdays, Std.ExtTreeMap.getElem?_empty]
    rfl

/-- A visit that `add` takes leaves the last days complete. -/
theorem KeepsLast.add (hmono : misc.DaysInOrder) (h : KeepsLast misc ud visits)
    (hnew : now - utp.tp ≤ duration DAYS) :
    KeepsLast misc (ud.add misc utp now) (visits ++ [utp]) := by
  -- the day of the visit is not cleaned
  have hcut : misc.getDayStr (now - duration DAYS) ≤ misc.getDayStr utp.tp :=
    hmono (by omega)
  refine ⟨fun url hentry => ?_, fun url day hday => ?_, fun url day hlast => ?_⟩
  · unfold UrlsDays.add at hentry
    rw [if_neg (not_lt.mpr hnew), OrdMap.getElem?_insert] at hentry
    split_ifs at hentry with hurl
    · exact ⟨utp, by simp, hurl⟩
    · obtain ⟨v, hv, hvurl⟩ := h.entry url hentry
      exact ⟨v, List.mem_append_left _ hv, hvurl⟩
  · rw [getElem?_daysOf_add hnew] at hday
    split_ifs at hday
    · cases hday
    · rw [daySum_append, isSome_merge_iff]
      rcases isSome_merge_iff.mp hday with hold | hutp
      · exact Or.inl (h.known url day hold)
      · exact Or.inr hutp
  · obtain ⟨hvisits, hutp⟩ := List.forall_mem_append.mp hlast
    have hkept : ¬ (utp.url = url ∧ day < misc.getDayStr (now - duration DAYS)) := by
      rintro ⟨hurl, hlt⟩
      have hle := hutp utp (List.mem_singleton_self utp) hurl
      exact absurd (hlt.trans_le hcut) (not_lt.mpr hle)
    rw [getElem?_daysOf_add hnew, if_neg hkept, h.last url day hvisits, daySum_append]

/-- Merging leaves the last days complete if the store has the days of all merged visits. -/
theorem KeepsLast.merge (h : KeepsLast misc ud visits) (huds : KeepsLast misc uds visits')
    (hheld : ∀ v ∈ visits',
      (((ud.merge misc uds now).daysOf v.url)[misc.getDayStr v.tp]?).isSome) :
    KeepsLast misc (ud.merge misc uds now) (visits ++ visits') := by
  refine ⟨fun url hentry => ?_, fun url day hday => ?_, fun url day hlast => ?_⟩
  · rw [getElem?_merge] at hentry
    cases hv : uds.urlsDays[url]? with
    | none =>
      rw [hv] at hentry
      obtain ⟨v, hvisit, hurl⟩ := h.entry url hentry
      exact ⟨v, List.mem_append_left _ hvisit, hurl⟩
    | some impl =>
      obtain ⟨v, hvisit, hurl⟩ := huds.entry url (by rw [hv]; rfl)
      exact ⟨v, List.mem_append_right _ hvisit, hurl⟩
  · have hsome : ((ud.daysOf url)[day]?.merge (· + ·) (uds.daysOf url)[day]?).isSome := by
      rcases getElem?_daysOf_merge misc ud uds now url with hall | hcleaned
      · rwa [hall] at hday
      · rw [hcleaned] at hday
        split_ifs at hday
        · cases hday
        · exact hday
    rw [daySum_append, isSome_merge_iff]
    exact (isSome_merge_iff.mp hsome).imp (h.known url day) (huds.known url day)
  · obtain ⟨hvisits, hvisits'⟩ := List.forall_mem_append.mp hlast
    rw [daySum_append, ← h.last url day hvisits, ← huds.last url day hvisits']
    by_cases hany : ∃ v ∈ visits', v.url = url
    · obtain ⟨v, hv, rfl⟩ := hany
      rcases getElem?_daysOf_merge misc ud uds now v.url with hall | hcleaned
      · exact hall day
      · -- the day of `v` was not cleaned, so no later one was
        have hkept := hheld v hv
        rw [hcleaned] at hkept
        have hle := hvisits' v hv rfl
        have hcut : ¬ day < misc.getDayStr (now - duration DAYS) := by
          intro hlt
          rw [if_pos (hle.trans_lt hlt)] at hkept
          cases hkept
        rw [hcleaned, if_neg hcut]
    · have hnone : uds.urlsDays[url]? = none := by
        rw [← Option.not_isSome_iff_eq_none]
        exact fun hentry => hany (huds.entry url hentry)
      have hdays : (uds.daysOf url)[day]? = none := by simp [daysOf, hnone]
      rw [daysOf_merge_of_none hnone, hdays]
      cases (ud.daysOf url)[day]? <;> rfl

/-- **The last day of a URL**, as a reader finds it. -/
theorem KeepsLast.getLast?_toList (h : KeepsLast misc ud visits) {v : UrlTpStat} (hv : v ∈ visits)
    (hmax : ∀ w ∈ visits, w.url = v.url → misc.getDayStr w.tp ≤ misc.getDayStr v.tp) :
    (ud.daysOf v.url).toList.getLast?
      = (daySum misc visits v.url (misc.getDayStr v.tp)).map fun c => (misc.getDayStr v.tp, c) := by
  have hlast := h.last v.url (misc.getDayStr v.tp) hmax
  have hsome : (daySum misc visits v.url (misc.getDayStr v.tp)).isSome :=
    daySum_isSome_iff.mpr ⟨v, hv, rfl, rfl⟩
  obtain ⟨c, hc⟩ := Option.isSome_iff_exists.mp hsome
  rw [hc] at hlast ⊢
  apply OrdMap.getLast?_toList_eq_some hlast
  intro day hday
  obtain ⟨w, hw, hurl, rfl⟩ := daySum_isSome_iff.mp (h.known v.url day hday)
  exact hmax w hw hurl

end UrlsDays

end Contentv1
