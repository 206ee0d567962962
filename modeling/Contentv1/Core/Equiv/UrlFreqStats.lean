import Contentv1.Core.UrlFreqStats
import Contentv1.Core.Equiv.UrlFreqMap

/-!
# `UrlFreqStatsLF` against `UrlFreqStats`

`UrlFreqStats` evicts expired visits whenever it inserts.  `UrlFreqStatsLF` inserts into the fresh
maps of a round and merges those into its global ones, which nothing cleans: a visit that is within
the window at the end of its own round stays for good.

`sameStats_iff_noneLeaves` says when the two agree nevertheless: exactly when no visit has left a
window between the end of its own round and the end of the last one.
-/

namespace Contentv1

open UrlFreqMap

variable {window fin : ℤ} {rounds : List (List (UrlTpStat × ℤ))}

/-! ### One window -/

/-- The rounds of a merge queue seen by one of the two windows. -/
def mergeRounds (window : ℤ) (rounds : List (List (UrlTpStat × ℤ))) : UrlFreqMap :=
  rounds.foldl (fun ufm round => ufm.merge ((ofWindow window).insertAll round)) (ofWindow window)

theorem mergeRounds_append (window : ℤ) (rounds : List (List (UrlTpStat × ℤ)))
    (round : List (UrlTpStat × ℤ)) :
    mergeRounds window (rounds ++ [round])
      = (mergeRounds window rounds).merge ((ofWindow window).insertAll round) := by
  unfold mergeRounds
  rw [List.foldl_append]
  rfl

theorem mirrors_mergeRounds (window : ℤ) (hcnt : ∀ round ∈ rounds, ∀ p ∈ round, 0 < p.1.cnt) :
    Mirrors (mergeRounds window rounds) := by
  induction rounds using List.reverseRecOn with
  | nil => exact mirrors_ofWindow window
  | append_singleton rounds round ih =>
    rw [mergeRounds_append]
    have hround := hcnt round (List.mem_append_right rounds (List.mem_singleton_self round))
    exact (ih fun r hr => hcnt r (List.mem_append_left _ hr)).merge
      ((mirrors_ofWindow window).insertAll hround)

/-- What the rounds leave in the queue: of each round what is alive at its own end. -/
def survivors (window : ℤ) (rounds : List (List (UrlTpStat × ℤ))) : List UrlTpStat :=
  rounds.flatMap fun round => alive window (endOf round) round

theorem utsQ_mergeRounds_perm (window : ℤ)
    (htp : ∀ round ∈ rounds, round.Pairwise fun a b => a.1.tp ≤ b.1.tp)
    (hnow : ∀ round ∈ rounds, round.Pairwise fun a b => a.2 ≤ b.2) :
    (mergeRounds window rounds).utsQ.Perm (survivors window rounds) := by
  induction rounds using List.reverseRecOn with
  | nil => exact List.Perm.refl _
  | append_singleton rounds round ih =>
    have hmem : round ∈ rounds ++ [round] :=
      List.mem_append_right rounds (List.mem_singleton_self round)
    have ih := ih (fun r hr => htp r (List.mem_append_left _ hr))
      fun r hr => hnow r (List.mem_append_left _ hr)
    unfold survivors
    rw [mergeRounds_append, List.flatMap_append, List.flatMap_singleton,
      ← utsQ_insertAll (htp round hmem) (hnow round hmem)]
    exact utsQ_merge_perm.trans (ih.append_right _)

/-- The survivors that have expired by `fin`. -/
def leavers (window fin : ℤ) (rounds : List (List (UrlTpStat × ℤ))) : List UrlTpStat :=
  (survivors window rounds).filter (expired window fin)

theorem alive_flatten (hend : ∀ round ∈ rounds, ∀ p ∈ round, p.2 ≤ fin) :
    alive window fin rounds.flatten
      = (survivors window rounds).filter fun uts => !expired window fin uts := by
  unfold survivors
  rw [List.filter_flatMap]
  induction rounds with
  | nil => rfl
  | cons round rounds ih =>
    have ih := ih fun r hr => hend r (List.mem_cons_of_mem round hr)
    rw [List.flatMap_cons, ← ih]
    unfold alive
    rw [List.flatten_cons, List.map_append, List.filter_append]
    congr 1
    rw [List.filter_filter]
    apply List.filter_congr
    intro uts huts
    -- what has expired at the end of its own round has expired at the end of all
    have hle : endOf round ≤ fin := by
      have hne : round ≠ [] := by
        rintro rfl
        cases huts
      obtain ⟨p, hp, heq⟩ := endOf_mem hne
      rw [← heq]
      exact hend round List.mem_cons_self p hp
    cases hown : expired window (endOf round) uts with
    | false => rw [Bool.not_false, Bool.and_true]
    | true => rw [persistent_expired window _ _ uts hle hown, Bool.not_true, Bool.and_false]

/-- The rounds count the leavers besides what a single window counts. -/
theorem countOf_survivors (hend : ∀ round ∈ rounds, ∀ p ∈ round, p.2 ≤ fin) (url : Url) :
    countOf (survivors window rounds) url
      = countOf (leavers window fin rounds) url
        + countOf (alive window fin rounds.flatten) url := by
  unfold leavers
  rw [alive_flatten hend, ← countOf_append]
  exact (countOf_perm (List.filter_append_perm _ _) url).symm

theorem mem_survivors {uts : UrlTpStat} :
    uts ∈ survivors window rounds ↔
      ∃ round ∈ rounds, ∃ p ∈ round, p.1 = uts ∧
        durationCastSecs (endOf round - uts.tp) ≤ window := by
  unfold survivors alive
  simp only [List.mem_flatMap, List.mem_filter, List.mem_map, Bool.not_eq_true',
    expired_eq_false_iff]
  constructor
  · rintro ⟨round, hround, ⟨p, hp, rfl⟩, hown⟩
    exact ⟨round, hround, p, hp, rfl, hown⟩
  · rintro ⟨round, hround, p, hp, rfl, hown⟩
    exact ⟨round, hround, ⟨p, hp, rfl⟩, hown⟩

theorem leavers_eq_nil_iff :
    leavers window fin rounds = [] ↔
      ∀ round ∈ rounds, ∀ p ∈ round, durationCastSecs (endOf round - p.1.tp) ≤ window →
        durationCastSecs (fin - p.1.tp) ≤ window := by
  unfold leavers
  rw [List.filter_eq_nil_iff]
  constructor
  · intro h round hround p hp hown
    have hkept := h p.1 (mem_survivors.mpr ⟨round, hround, p, hp, rfl, hown⟩)
    exact expired_eq_false_iff.mp (Bool.eq_false_iff.mpr hkept)
  · intro h uts huts
    obtain ⟨round, hround, p, hp, rfl, hown⟩ := mem_survivors.mp huts
    rw [expired_eq_false_iff.mpr (h round hround p hp hown)]
    exact Bool.false_ne_true

/-- **One window.**  The rounds count as a single window does exactly when nothing leaves. -/
theorem urlFreq_eq_iff (hcnt : ∀ p ∈ rounds.flatten, 0 < p.1.cnt)
    (htp : rounds.flatten.Pairwise fun a b => a.1.tp ≤ b.1.tp)
    (hnow : rounds.flatten.Pairwise fun a b => a.2 ≤ b.2) :
    (∀ url : Url, (mergeRounds window rounds).urlFreq[url]?
        = ((ofWindow window).insertAll rounds.flatten).urlFreq[url]?) ↔
      ∀ round ∈ rounds, ∀ p ∈ round, durationCastSecs (endOf round - p.1.tp) ≤ window →
        durationCastSecs (endOf rounds.flatten - p.1.tp) ≤ window := by
  have hflat : ∀ {round}, round ∈ rounds → ∀ {p}, p ∈ round → p ∈ rounds.flatten :=
    fun hround _ hp => List.mem_flatten_of_mem hround hp
  have hLF := mirrors_mergeRounds window fun round hround p hp =>
    hcnt p (hflat hround hp)
  have hplain := (mirrors_ofWindow window).insertAll hcnt
  have hperm := utsQ_mergeRounds_perm window
    (fun round hround => (List.pairwise_flatten.mp htp).1 round hround)
    fun round hround => (List.pairwise_flatten.mp hnow).1 round hround
  have hend : ∀ round ∈ rounds, ∀ p ∈ round, p.2 ≤ endOf rounds.flatten :=
    fun round hround p hp => le_endOf hnow (hflat hround hp)
  have hsplit : ∀ url, countOf (mergeRounds window rounds).utsQ url
      = countOf (leavers window (endOf rounds.flatten) rounds) url
        + countOf ((ofWindow window).insertAll rounds.flatten).utsQ url := by
    intro url
    rw [countOf_perm hperm, countOf_survivors hend, utsQ_insertAll htp hnow]
  have hpos : ∀ uts ∈ leavers window (endOf rounds.flatten) rounds, 0 < uts.cnt :=
    fun uts huts => hLF.pos uts (hperm.symm.subset (List.mem_filter.mp huts).1)
  rw [← leavers_eq_nil_iff]
  constructor
  · intro heq
    by_contra hne
    -- a leaver is counted by the rounds only, so its URL tells the two apart
    obtain ⟨uts, huts⟩ := List.exists_mem_of_ne_nil _ hne
    have hfreq := heq uts.url
    rw [hLF.freq, hplain.freq] at hfreq
    have hcount := stored_inj (countOf_nonneg hLF.pos _) (countOf_nonneg hplain.pos _) hfreq
    have := countOf_pos_of_mem hpos huts
    have := hsplit uts.url
    omega
  · intro hnil url
    rw [hLF.freq, hplain.freq, hsplit, hnil, countOf_nil, zero_add]

/-! ### Both windows -/

theorem insertAll_eq (packs : List (UrlTpStat × ℤ)) :
    UrlFreqStats.insertAll .init packs
      = ⟨(ofWindow 3600).insertAll packs, (ofWindow 86400).insertAll packs⟩ := by
  induction packs using List.reverseRecOn with
  | nil => rfl
  | append_singleton packs p ih =>
    have hstep : UrlFreqStats.insertAll .init (packs ++ [p])
        = (UrlFreqStats.insertAll .init packs).insertVisitsPack p.1 p.2 := by
      unfold UrlFreqStats.insertAll
      rw [List.foldl_append]
      rfl
    rw [hstep, ih, UrlFreqMap.insertAll_append, UrlFreqMap.insertAll_append]
    rfl

theorem runRounds_eq (rounds : List (List (UrlTpStat × ℤ))) :
    UrlFreqStatsLF.runRounds rounds = ⟨mergeRounds 3600 rounds, mergeRounds 86400 rounds⟩ := by
  induction rounds using List.reverseRecOn with
  | nil => rfl
  | append_singleton rounds round ih =>
    have hstep : UrlFreqStatsLF.runRounds (rounds ++ [round])
        = (UrlFreqStatsLF.runRounds rounds).merge (UrlFreqStats.insertAll .init round) := by
      unfold UrlFreqStatsLF.runRounds
      rw [List.foldl_append]
      rfl
    rw [hstep, ih, insertAll_eq, mergeRounds_append, mergeRounds_append]
    rfl

/-- The same counts in both windows, the same `max` and the same possible results of
`getTopUrls`. -/
structure SameStats (a b : LastPerMaps) : Prop where
  hour : ∀ url : Url, a.hourMap.urlFreq[url]? = b.hourMap.urlFreq[url]?
  day : ∀ url : Url, a.dayMap.urlFreq[url]? = b.dayMap.urlFreq[url]?
  max : a.max = b.max
  top : ∀ (limit : ℤ) (filter : Url → Bool) (r : List UrlFreq),
    a.GetTopUrls limit filter r ↔ b.GetTopUrls limit filter r

/-- Everything the statistics answer is read from the two maps of frequencies. -/
theorem sameStats_iff {a b : LastPerMaps} :
    SameStats a b ↔ (∀ url : Url, a.hourMap.urlFreq[url]? = b.hourMap.urlFreq[url]?) ∧
      ∀ url : Url, a.dayMap.urlFreq[url]? = b.dayMap.urlFreq[url]? := by
  refine ⟨fun h => ⟨h.hour, h.day⟩, ?_⟩
  rintro ⟨hhour, hday⟩
  have hhour' : a.hourMap.urlFreq = b.hourMap.urlFreq := Std.ExtTreeMap.ext_getElem? hhour
  have hday' : a.dayMap.urlFreq = b.dayMap.urlFreq := Std.ExtTreeMap.ext_getElem? hday
  refine ⟨hhour, hday, ?_, fun limit filter r => ?_⟩
  · unfold LastPerMaps.max UrlFreqMap.size
    rw [hhour', hday']
  · unfold LastPerMaps.GetTopUrls UrlFreqMap.GetTopUrls
    rw [hhour', hday']

/-- No visit that is within a window at the end of its own round has left it at the end of the
last one. -/
def NoneLeaves (rounds : List (List (UrlTpStat × ℤ))) : Prop :=
  ∀ window ∈ [(3600 : ℤ), 86400], ∀ round ∈ rounds, ∀ p ∈ round,
    durationCastSecs (endOf round - p.1.tp) ≤ window →
      durationCastSecs (endOf rounds.flatten - p.1.tp) ≤ window

/-- **When merging in rounds does no harm.**  For visits in the order of their times the two
statistics agree exactly when no visit leaves a window after its own round. -/
theorem sameStats_iff_noneLeaves (rounds : List (List (UrlTpStat × ℤ)))
    (hcnt : ∀ p ∈ rounds.flatten, 0 < p.1.cnt)
    (htp : rounds.flatten.Pairwise fun a b => a.1.tp ≤ b.1.tp)
    (hnow : rounds.flatten.Pairwise fun a b => a.2 ≤ b.2) :
    SameStats (UrlFreqStatsLF.runRounds rounds) (UrlFreqStats.insertAll .init rounds.flatten) ↔
      NoneLeaves rounds := by
  rw [sameStats_iff, insertAll_eq, runRounds_eq]
  show (_ ∧ _) ↔ _
  rw [urlFreq_eq_iff hcnt htp hnow, urlFreq_eq_iff hcnt htp hnow]
  unfold NoneLeaves
  simp only [List.forall_mem_cons, List.not_mem_nil, IsEmpty.forall_iff, implies_true, and_true]

/-- A visit in a round of its own and, two days later, one of another URL. -/
def twoDaysApart : List (List (UrlTpStat × ℤ)) :=
  [[(⟨Str.ofString "http://a/", 0, 1⟩, 0)], [(⟨Str.ofString "http://b/", days 2, 1⟩, days 2)]]

/-- The first visit has expired in one and is counted for good in the other. -/
theorem not_sameStats_twoDaysApart :
    ¬ ∀ rounds : List (List (UrlTpStat × ℤ)), (∀ p ∈ rounds.flatten, 0 < p.1.cnt) →
      rounds.flatten.Pairwise (fun a b => a.1.tp ≤ b.1.tp) →
      rounds.flatten.Pairwise (fun a b => a.2 ≤ b.2) →
      SameStats (UrlFreqStatsLF.runRounds rounds)
        (UrlFreqStats.insertAll .init rounds.flatten) := by
  intro h
  have hday := (h twoDaysApart (by decide) (by decide) (by decide)).day (Str.ofString "http://a/")
  exact absurd hday (by decide)

/-- An instance: the second round comes half an hour later. -/
theorem sameStats_iff_noneLeaves_halfHour :
    SameStats
        (UrlFreqStatsLF.runRounds [[(⟨Str.ofString "http://a/", 0, 1⟩, 0)],
          [(⟨Str.ofString "http://a/", minutes 30, 1⟩, minutes 30)]])
        (UrlFreqStats.insertAll .init [(⟨Str.ofString "http://a/", 0, 1⟩, 0),
          (⟨Str.ofString "http://a/", minutes 30, 1⟩, minutes 30)]) :=
  (sameStats_iff_noneLeaves [[(⟨Str.ofString "http://a/", 0, 1⟩, 0)],
    [(⟨Str.ofString "http://a/", minutes 30, 1⟩, minutes 30)]] (by decide) (by decide)
      (by decide)).mpr (by unfold NoneLeaves; decide)

end Contentv1
