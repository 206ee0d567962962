import Contentv1.Core.Equiv.UrlFreqMap

/-!
# What the calls on a `UrlFreqMap` build

* `mirrorsQueue_of_reachable`: whatever calls built a map, its frequencies are the sums of its
  queue, and merging it with another one takes in both queues and keeps their order.
* `exactWindow_of_calls`: after calls in the order of their times the map answers for the visits
  within the window, as if there had been no others.

Both read the queue only: that the frequencies follow it is `Mirrors`.
-/

namespace Contentv1.UrlFreqMap

variable {ufm a : UrlFreqMap} {url : Url}

/-! ### Keys and values -/

theorem stored_eq_some_iff {c freq : ℤ} : stored c = some freq ↔ 0 < c ∧ freq = c := by
  unfold stored
  split_ifs with h
  · rw [Option.some_inj]
    exact ⟨fun heq => ⟨h, heq.symm⟩, fun heq => heq.2.symm⟩
  · exact ⟨nofun, fun heq => absurd heq.1 h⟩

theorem exists_mem_of_countOf_pos {q : List UrlTpStat} (h : 0 < countOf q url) :
    ∃ uts ∈ q, uts.url = url := by
  by_contra! hnone
  have hnil : (q.filter fun uts => uts.url = url) = [] :=
    List.filter_eq_nil_iff.mpr fun uts huts => by simpa using hnone uts huts
  unfold countOf at h
  rw [hnil] at h
  exact absurd h (lt_irrefl 0)

/-- A URL is counted when it is in the queue. -/
theorem countOf_pos_iff {q : List UrlTpStat} (hpos : ∀ uts ∈ q, 0 < uts.cnt) :
    0 < countOf q url ↔ ∃ uts ∈ q, uts.url = url := by
  refine ⟨exists_mem_of_countOf_pos, ?_⟩
  rintro ⟨uts, huts, rfl⟩
  exact countOf_pos_of_mem hpos huts

theorem Mirrors.getElem?_eq_some_iff (h : Mirrors ufm) {freq : ℤ} :
    ufm.urlFreq[url]? = some freq ↔
      (∃ uts ∈ ufm.utsQ, uts.url = url) ∧ freq = countOf ufm.utsQ url := by
  rw [h.freq, stored_eq_some_iff, countOf_pos_iff h.pos]

theorem Mirrors.mem_iff (h : Mirrors ufm) :
    url ∈ ufm.urlFreq ↔ ∃ uts ∈ ufm.utsQ, uts.url = url := by
  rw [Std.ExtTreeMap.mem_iff_isSome_getElem?, Option.isSome_iff_exists]
  constructor
  · rintro ⟨freq, hfreq⟩
    exact (h.getElem?_eq_some_iff.mp hfreq).1
  · intro hmem
    exact ⟨_, h.getElem?_eq_some_iff.mpr ⟨hmem, rfl⟩⟩

/-! ### Maps that calls build -/

theorem Mirrors.insert (h : Mirrors ufm) (urlVisit : UrlVisit) (now : ℤ) :
    Mirrors (ufm.insert urlVisit now) :=
  h.insertVisitsPack one_pos

/-- The maps that the constructor and the calls build. -/
inductive Reachable : UrlFreqMap → Prop
  | ofWindow (window : ℤ) : Reachable (ofWindow window)
  | insert {ufm : UrlFreqMap} (h : Reachable ufm) (urlVisit : UrlVisit) (now : ℤ) :
      Reachable (ufm.insert urlVisit now)
  | insertVisitsPack {ufm : UrlFreqMap} (h : Reachable ufm) (uts : UrlTpStat)
      (hcnt : 1 ≤ uts.cnt) (now : ℤ) : Reachable (ufm.insertVisitsPack uts now)
  | merge {ufm a : UrlFreqMap} (h : Reachable ufm) (ha : Reachable a) : Reachable (ufm.merge a)

theorem Reachable.mirrors (h : Reachable ufm) : Mirrors ufm := by
  induction h with
  | ofWindow window => exact mirrors_ofWindow window
  | insert _ urlVisit now ih => exact ih.insert urlVisit now
  | insertVisitsPack _ uts hcnt now ih => exact ih.insertVisitsPack hcnt
  | merge _ _ ih iha => exact ih.merge iha

/-- The visits of a queue stand in the order of their times. -/
def SortedByTp (q : List UrlTpStat) : Prop := q.Pairwise fun a b => a.tp ≤ b.tp

instance (q : List UrlTpStat) : Decidable (SortedByTp q) :=
  inferInstanceAs (Decidable (q.Pairwise _))

/-- No visit of the queue is earlier than the first. -/
def FirstIsEarliest (q : List UrlTpStat) : Prop :=
  ∀ first ∈ q.head?, ∀ uts ∈ q, first.tp ≤ uts.tp

theorem firstIsEarliest_cons {first : UrlTpStat} {q : List UrlTpStat} :
    FirstIsEarliest (first :: q) ↔ ∀ uts ∈ q, first.tp ≤ uts.tp := by
  simp [FirstIsEarliest]

theorem sortedByTp_iff {q : List UrlTpStat} :
    SortedByTp q ↔ FirstIsEarliest q ∧ SortedByTp q.tail := by
  cases q with
  | nil => exact iff_of_true List.Pairwise.nil ⟨nofun, List.Pairwise.nil⟩
  | cons first q =>
    rw [firstIsEarliest_cons]
    exact List.pairwise_cons

/-- Of two visits at the front the earlier one goes first, so the rest is no earlier. -/
theorem FirstIsEarliest.mergeQueues {q1 q2 : List UrlTpStat} (h1 : FirstIsEarliest q1)
    (h2 : FirstIsEarliest q2) : FirstIsEarliest (mergeQueues q1 q2) := by
  cases q1 with
  | nil => simpa only [UrlFreqMap.mergeQueues, List.nil_merge] using h2
  | cons x q1 =>
    cases q2 with
    | nil => simpa only [UrlFreqMap.mergeQueues, List.merge_right] using h1
    | cons y q2 =>
      rw [firstIsEarliest_cons] at h1 h2
      unfold UrlFreqMap.mergeQueues
      rw [List.cons_merge_cons]
      split_ifs with hlt
      · have hxy : x.tp < y.tp := of_decide_eq_true hlt
        refine firstIsEarliest_cons.mpr fun z hz => ?_
        rcases List.mem_merge.mp hz with hz | hz
        · exact h1 z hz
        · rcases List.mem_cons.mp hz with rfl | hz
          · exact hxy.le
          · exact hxy.le.trans (h2 z hz)
      · have hyx : y.tp ≤ x.tp := not_lt.mp fun h => hlt (decide_eq_true h)
        refine firstIsEarliest_cons.mpr fun z hz => ?_
        rcases List.mem_merge.mp hz with hz | hz
        · rcases List.mem_cons.mp hz with rfl | hz
          · exact hyx
          · exact hyx.trans (h1 z hz)
        · exact h2 z hz

theorem SortedByTp.mergeQueues {q1 q2 : List UrlTpStat} (h1 : SortedByTp q1)
    (h2 : SortedByTp q2) : SortedByTp (mergeQueues q1 q2) := by
  induction q1 generalizing q2 with
  | nil => simpa only [UrlFreqMap.mergeQueues, List.nil_merge] using h2
  | cons x q1 ih1 =>
    induction q2 with
    | nil => simpa only [UrlFreqMap.mergeQueues, List.merge_right] using h1
    | cons y q2 ih2 =>
      have hfirst := (sortedByTp_iff.mp h1).1.mergeQueues (sortedByTp_iff.mp h2).1
      refine sortedByTp_iff.mpr ⟨hfirst, ?_⟩
      -- what is behind the first is the merge of what is left
      unfold UrlFreqMap.mergeQueues
      rw [List.cons_merge_cons]
      split_ifs
      · exact ih1 (sortedByTp_iff.mp h1).2 h2
      · exact ih2 (sortedByTp_iff.mp h2).2

/-- **The map mirrors the queue.**  Its keys are the URLs in the queue and each value is the
positive sum of that URL's visits; merging with another such map unites the two queues, in the
order of their times if both are in it. -/
theorem mirrorsQueue_of_reachable (h : Reachable ufm) :
    (∀ url : Url, url ∈ ufm.urlFreq ↔ ∃ uts ∈ ufm.utsQ, uts.url = url) ∧
      (∀ (url : Url) (freq : ℤ), ufm.urlFreq[url]? = some freq →
        freq = countOf ufm.utsQ url ∧ 0 < freq) ∧
      ∀ a : UrlFreqMap, Reachable a →
        (ufm.merge a).utsQ.Perm (ufm.utsQ ++ a.utsQ) ∧
          (SortedByTp ufm.utsQ → SortedByTp a.utsQ → SortedByTp (ufm.merge a).utsQ) := by
  have hmirrors := h.mirrors
  refine ⟨fun url => hmirrors.mem_iff, fun url freq hfreq => ?_, fun a _ => ?_⟩
  · obtain ⟨hmem, rfl⟩ := hmirrors.getElem?_eq_some_iff.mp hfreq
    exact ⟨rfl, (countOf_pos_iff hmirrors.pos).mpr hmem⟩
  · exact ⟨utsQ_merge_perm, SortedByTp.mergeQueues⟩

/-- A map of one visit merged with itself. -/
theorem mirrorsQueue_of_reachable_merge :
    let ufm := (ofWindow 3600).insert ⟨Str.ofString "http://a/", 0⟩ 0
    Str.ofString "http://a/" ∈ (ufm.merge ufm).urlFreq ∧ SortedByTp (ufm.merge ufm).utsQ := by
  intro ufm
  have hufm : Reachable ufm := .insert (.ofWindow 3600) _ 0
  obtain ⟨hperm, hsorted⟩ := (mirrorsQueue_of_reachable hufm).2.2 ufm hufm
  have hkeys := (mirrorsQueue_of_reachable (hufm.merge hufm)).1
  refine ⟨(hkeys _).mpr ?_, hsorted (by decide) (by decide)⟩
  exact ⟨⟨Str.ofString "http://a/", 0, 1⟩, hperm.mem_iff.mpr (by decide), rfl⟩

/-! ### Calls in the order of their times -/

/-- A call that writes visits. -/
inductive Call
  | insert (urlVisit : UrlVisit) (now : ℤ)
  | insertVisitsPack (uts : UrlTpStat) (now : ℤ)

namespace Call

/-- The visits of a call. -/
def uts : Call → UrlTpStat
  | insert urlVisit _ => .ofUrlVisit urlVisit
  | insertVisitsPack uts _ => uts

/-- The time of a call. -/
def now : Call → ℤ
  | insert _ now => now
  | insertVisitsPack _ now => now

/-- What a call does. -/
def run (ufm : UrlFreqMap) : Call → UrlFreqMap
  | insert urlVisit now => ufm.insert urlVisit now
  | insertVisitsPack uts now => ufm.insertVisitsPack uts now

/-- A call as a pack with its time. -/
def pack (c : Call) : UrlTpStat × ℤ := (c.uts, c.now)

theorem run_eq (ufm : UrlFreqMap) (c : Call) : c.run ufm = ufm.insertVisitsPack c.uts c.now := by
  cases c <;> rfl

end Call

/-- A map after its constructor and the given calls. -/
def runCalls (window : ℤ) (calls : List Call) : UrlFreqMap :=
  calls.foldl (fun ufm c => c.run ufm) (ofWindow window)

theorem runCalls_eq (window : ℤ) (calls : List Call) :
    runCalls window calls = (ofWindow window).insertAll (calls.map Call.pack) := by
  unfold runCalls insertAll
  rw [List.foldl_map]
  congr
  funext ufm c
  exact c.run_eq ufm

/-- The visits of a call are at most the window old, in whole seconds. -/
def Call.Within (window now : ℤ) (c : Call) : Prop := durationCastSecs (now - c.uts.tp) ≤ window

instance (window now : ℤ) : DecidablePred (Call.Within window now) :=
  fun _ => inferInstanceAs (Decidable (_ ≤ _))

/-- The calls whose visits are within the window at `now`. -/
def within (window now : ℤ) (calls : List Call) : List Call :=
  calls.filter (Call.Within window now)

theorem alive_map_pack (window now : ℤ) (calls : List Call) :
    alive window now (calls.map Call.pack) = (within window now calls).map Call.uts := by
  unfold alive within
  rw [List.map_map, List.filter_map]
  congr 1
  apply List.filter_congr
  intro c _
  show (!decide (window < durationCastSecs (now - c.uts.tp))) = decide (_ ≤ window)
  rw [← decide_not]
  exact decide_eq_decide.mpr not_lt

theorem endOf_map_pack {calls : List Call} {last : Call} (hlast : calls.getLast? = some last) :
    endOf (calls.map Call.pack) = last.now := by
  obtain ⟨l, rfl⟩ := List.getLast?_eq_some_iff.mp hlast
  rw [List.map_append, List.map_singleton, endOf_append]
  rfl

theorem utsQ_runCalls {window : ℤ} {calls : List Call}
    (htp : calls.Pairwise fun a b => a.uts.tp ≤ b.uts.tp)
    (hnow : calls.Pairwise fun a b => a.now ≤ b.now) {last : Call}
    (hlast : calls.getLast? = some last) :
    (runCalls window calls).utsQ = (within window last.now calls).map Call.uts := by
  rw [runCalls_eq, utsQ_insertAll (List.pairwise_map.mpr htp) (List.pairwise_map.mpr hnow),
    alive_map_pack, endOf_map_pack hlast]

theorem mirrors_runCalls (window : ℤ) {calls : List Call} (hcnt : ∀ c ∈ calls, 1 ≤ c.uts.cnt) :
    Mirrors (runCalls window calls) := by
  rw [runCalls_eq]
  apply (mirrors_ofWindow window).insertAll
  intro p hp
  obtain ⟨c, hc, rfl⟩ := List.mem_map.mp hp
  exact hcnt c hc

@[simp] theorem window_runCalls (window : ℤ) (calls : List Call) :
    (runCalls window calls).window = window := by
  rw [runCalls_eq, window_insertAll]
  rfl

/-- The queue is the whole state. -/
theorem Mirrors.eq_of_utsQ (h : Mirrors ufm) (ha : Mirrors a) (hq : ufm.utsQ = a.utsQ)
    (hwindow : ufm.window = a.window) : ufm = a := by
  have hfreq : ufm.urlFreq = a.urlFreq := by
    apply Std.ExtTreeMap.ext_getElem?
    intro url
    rw [h.freq, ha.freq, hq]
  cases ufm
  cases a
  rw [UrlFreqMap.mk.injEq]
  exact ⟨hfreq, hq, hwindow⟩

/-- What is within the window at the end was within it at every call before. -/
theorem within_within {window : ℤ} {calls : List Call}
    (hnow : calls.Pairwise fun a b => a.now ≤ b.now) {last last' : Call}
    (hlast : calls.getLast? = some last)
    (hlast' : (within window last.now calls).getLast? = some last') :
    within window last'.now (within window last.now calls) = within window last.now calls := by
  have hle : last'.now ≤ last.now := by
    have hmem : last' ∈ calls := List.mem_of_mem_filter (List.mem_of_getLast? hlast')
    have hpacks : (calls.map Call.pack).Pairwise fun a b => a.2 ≤ b.2 :=
      List.pairwise_map.mpr hnow
    have hend := le_endOf hpacks (List.mem_map_of_mem hmem)
    rwa [endOf_map_pack hlast] at hend
  apply List.filter_eq_self.mpr
  intro c hc
  have hwithin : durationCastSecs (last.now - c.uts.tp) ≤ window :=
    of_decide_eq_true (List.mem_filter.mp hc).2
  exact decide_eq_true ((durationCastSecs_mono (sub_le_sub_right hle _)).trans hwithin)

/-- The other calls might as well not have been made. -/
theorem runCalls_within {window : ℤ} {calls : List Call} (hcnt : ∀ c ∈ calls, 1 ≤ c.uts.cnt)
    (htp : calls.Pairwise fun a b => a.uts.tp ≤ b.uts.tp)
    (hnow : calls.Pairwise fun a b => a.now ≤ b.now) {last : Call}
    (hlast : calls.getLast? = some last) :
    runCalls window calls = runCalls window (within window last.now calls) := by
  have hsub : ∀ c ∈ within window last.now calls, 1 ≤ c.uts.cnt :=
    fun c hc => hcnt c (List.mem_of_mem_filter hc)
  apply (mirrors_runCalls window hcnt).eq_of_utsQ (mirrors_runCalls window hsub)
  · rw [utsQ_runCalls htp hnow hlast]
    cases hlast' : (within window last.now calls).getLast? with
    | none =>
      rw [List.getLast?_eq_none_iff.mp hlast']
      rfl
    | some last' =>
      have hsubTp : (within window last.now calls).Pairwise _ := htp.filter _
      rw [utsQ_runCalls hsubTp (hnow.filter _) hlast', within_within hnow hlast hlast']
  · rw [window_runCalls, window_runCalls]

/-- **The window is exact.**  After calls in the order of their times `getTopUrls` has a result, and
each result lists the URLs of the visits within the window, once and with their counts, most
frequent first; the map is the one those visits alone would have built. -/
theorem exactWindow_of_calls (window : ℤ) {calls : List Call} {last : Call}
    (hlast : calls.getLast? = some last) (hcnt : ∀ c ∈ calls, 1 ≤ c.uts.cnt)
    (htp : calls.Pairwise fun a b => a.uts.tp ≤ b.uts.tp)
    (hnow : calls.Pairwise fun a b => a.now ≤ b.now) :
    (∃ urls, (runCalls window calls).GetTopUrls urls) ∧
      (∀ urls, (runCalls window calls).GetTopUrls urls →
        (urls.map Prod.fst).Nodup ∧ (urls.Pairwise fun a b => b.2 ≤ a.2) ∧
          ∀ (url : Url) (freq : ℤ), (url, freq) ∈ urls ↔
            (∃ c ∈ within window last.now calls, c.uts.url = url) ∧
              freq = (((within window last.now calls).filter fun c => c.uts.url = url).map
                fun c => c.uts.cnt).sum) ∧
      runCalls window calls = runCalls window (within window last.now calls) := by
  have hmirrors := mirrors_runCalls window hcnt
  refine ⟨exists_perm_descending _, ?_, runCalls_within hcnt htp hnow hlast⟩
  rintro urls ⟨hperm, hsorted⟩
  refine ⟨OrdMap.nodup_map_fst_of_perm hperm, hsorted, fun url freq => ?_⟩
  have hcount : countOf ((within window last.now calls).map Call.uts) url
      = (((within window last.now calls).filter fun c => c.uts.url = url).map
          fun c => c.uts.cnt).sum := by
    unfold countOf
    rw [List.filter_map, List.map_map]
    rfl
  rw [OrdMap.mem_perm_iff hperm, hmirrors.getElem?_eq_some_iff, utsQ_runCalls htp hnow hlast,
    ← hcount]
  simp only [List.mem_map, exists_exists_and_eq_and]

/-- A pack of three visits and, 20 seconds later, a visit of another URL. -/
def twentySecsApart : List Call :=
  [.insertVisitsPack ⟨Str.ofString "http://a/", 0, 3⟩ 0,
    .insert ⟨Str.ofString "http://b/", seconds 20⟩ (seconds 20)]

/-- In a window of 20 seconds both are there, in one of 19 only the second. -/
theorem exactWindow_of_calls_twentySecsApart :
    (∀ urls, (runCalls 20 twentySecsApart).GetTopUrls urls →
        (Str.ofString "http://a/", 3) ∈ urls ∧ (Str.ofString "http://b/", 1) ∈ urls) ∧
      ∀ urls, (runCalls 19 twentySecsApart).GetTopUrls urls →
        (Str.ofString "http://b/", 1) ∈ urls ∧ ∀ freq, (Str.ofString "http://a/", freq) ∉ urls := by
  have hlast : twentySecsApart.getLast?
      = some (.insert ⟨Str.ofString "http://b/", seconds 20⟩ (seconds 20)) := rfl
  have hspec := fun window =>
    exactWindow_of_calls window hlast (by decide) (by decide) (by decide)
  refine ⟨fun urls hurls => ?_, fun urls hurls => ?_⟩
  · have hmem := ((hspec 20).2.1 urls hurls).2.2
    exact ⟨(hmem _ _).mpr (by decide), (hmem _ _).mpr (by decide)⟩
  · have hmem := ((hspec 19).2.1 urls hurls).2.2
    exact ⟨(hmem _ _).mpr (by decide), fun freq hfreq => absurd ((hmem _ _).mp hfreq).1 (by decide)⟩

end Contentv1.UrlFreqMap
