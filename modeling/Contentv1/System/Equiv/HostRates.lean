import Contentv1.System.Equiv.HostLimits

/-!
# How often all workers together fetch from a host

`host_rates_hold`: seen from `HostDb`, a run of the crawler is a run of the machine of
`Ldb/HostDbRun.lean`, in which every result is that of a crawl that was allowed and is outstanding.
So the rates of that machine are those of all workers together: no minute, hour or day has more
decisions to fetch from a host than its limit, and every fetch has a decision of its own.

`Tracks` relates the two.  The crawler keeps no record of the decisions, which the machine has.
-/

namespace Contentv1

namespace HostDb

open SchedulerRpc (hostOf)

variable {c : Contribs} {v v' : View} {o o' : Observed} {outstanding rest : List Host}

/-- The outstanding crawls are those of the view, and the decisions those of its crawls and of the
results it has been told. -/
structure Tracks (c : Contribs) (v : View) (o : Observed) : Prop where
  db : o.db = v.db
  outstanding : o.outstanding.Perm (v.crawls.map (hostOf c))
  allows : (o.allows.map Prod.fst).Perm
    ((v.heard.map FetchResult.gfq ++ v.crawls).map (hostOf c))
  parsed : ∀ gfq ∈ v.crawls, (UrlParsed.ofUrl c gfq.url).ok = true

/-- Results of outstanding crawls can be reported. -/
theorem exists_report {results : List FetchResult}
    (hok : ∀ r ∈ results, (UrlParsed.ofUrl c r.gfq.url).ok = true)
    (hperm : outstanding.Perm ((results.map FetchResult.gfq).map (hostOf c) ++ rest)) :
    ∃ left, report c outstanding results = some left ∧ left.Perm rest := by
  induction results generalizing outstanding with
  | nil => exact ⟨outstanding, rfl, hperm⟩
  | cons r results ih =>
    rw [List.map_cons, List.map_cons, List.cons_append] at hperm
    have herase := hperm.erase (hostOf c r.gfq)
    rw [List.erase_cons_head] at herase
    obtain ⟨left, hleft, hrest⟩ := ih (fun r' hr' => hok r' (List.mem_cons_of_mem r hr')) herase
    refine ⟨left, report_cons_eq_some.mpr ⟨hok r List.mem_cons_self, ?_, hleft⟩, hrest⟩
    exact hperm.mem_iff.mpr List.mem_cons_self

/-- **The machine can follow** whatever a program calls. -/
theorem Tracks.follow (h : Tracks c v o) {ops : List Op} (hcalled : Called c v v' ops) :
    ∃ o', Machine.run (observe c) o ops = some o' ∧ Tracks c v' o' := by
  cases hcalled with
  | quiet hdb hheard hperm =>
    refine ⟨o, rfl, h.db.trans hdb.symm, h.outstanding.trans (hperm.map _), ?_, ?_⟩
    · rw [hheard]
      exact h.allows.trans ((hperm.append_left _).map _)
    · exact fun gfq hgfq => h.parsed gfq (hperm.mem_iff.mpr hgfq)
  | onFetched results hdb hheard hperm =>
    have hok : ∀ r ∈ results, (UrlParsed.ofUrl c r.gfq.url).ok = true := fun r hr =>
      h.parsed r.gfq (hperm.mem_iff.mpr (List.mem_append_left _ (List.mem_map_of_mem hr)))
    have hmap := h.outstanding.trans (hperm.map (hostOf c))
    rw [List.map_append] at hmap
    obtain ⟨left, hleft, hrest⟩ := exists_report hok hmap
    refine ⟨{ o with db := o.db.onFetched c results, outstanding := left }, ?_, ?_, hrest, ?_, ?_⟩
    · rw [Machine.run, observe, hleft]
      rfl
    · rw [hdb, h.db]
    · rw [hheard, List.map_append (f := FetchResult.gfq), List.append_assoc]
      exact h.allows.trans ((hperm.append_left _).map _)
    · exact fun gfq hgfq => h.parsed gfq (hperm.mem_iff.mpr (List.mem_append_right _ hgfq))
  | tryCrawl tryUrls hdb hheard hperm =>
    have hmap := hperm.map (hostOf c)
    have hgranted := map_host_allowed c v.db tryUrls
    rw [List.map_append] at hmap
    refine ⟨_, rfl, ?_, ?_, ?_, ?_⟩
    · rw [hdb, ← h.db]
      rfl
    · show (o.outstanding ++ _).Perm _
      rw [h.db, ← hgranted]
      exact (h.outstanding.append_right _).trans hmap
    · show ((o.allows ++ _).map Prod.fst).Perm _
      rw [h.db, List.map_append, ← hgranted, hheard, List.map_append]
      have hallows := h.allows
      rw [List.map_append] at hallows
      refine (hallows.append_right _).trans ?_
      rw [List.append_assoc]
      exact hmap.append_left _
    · intro gfq hgfq
      rcases List.mem_append.mp (hperm.mem_iff.mpr hgfq) with hgfq | hgfq
      · exact h.parsed gfq hgfq
      · exact ok_of_mem_allowed hgfq

/-- A run is one under a clock if the readings of its operations do not go back. -/
theorem exists_run_observeTimed {ops : List Op} (hrun : Machine.run (observe c) o ops = some o')
    {clock : ℤ} (htimes : (clock :: ops.flatMap Op.times).Pairwise (· ≤ ·)) :
    ∃ clock', Machine.run (observeTimed c) ⟨o, clock⟩ ops = some ⟨o', clock'⟩ := by
  induction ops generalizing o clock with
  | nil =>
    obtain rfl := Option.some.inj hrun
    exact ⟨clock, rfl⟩
  | cons op ops ih =>
    obtain ⟨u, hu, hrest⟩ := Machine.run_cons_eq_some.mp hrun
    rw [List.flatMap_cons, ← List.cons_append, List.pairwise_append] at htimes
    obtain ⟨hop, hops, hcross⟩ := htimes
    -- the operations that follow begin with the last reading of this one
    have hlast : (op.times.getLastD clock :: ops.flatMap Op.times).Pairwise (· ≤ ·) :=
      List.pairwise_cons.mpr ⟨hcross _ List.getLastD_mem_cons, hops⟩
    obtain ⟨clock', hclock'⟩ := ih hrest hlast
    refine ⟨clock', Machine.run_cons_eq_some.mpr ⟨⟨u, op.times.getLastD clock⟩, ?_, hclock'⟩⟩
    rw [observeTimed, if_pos hop, hu]
    rfl

theorem hostOk_of_run {limits : CrawlLimits} (hpos : Positive limits) {robots : OrdMap Host Str}
    {clock : ℤ} {ops : List Op} {s : Timed}
    (hrun : Machine.run (observeTimed c) ⟨.init limits robots, clock⟩ ops = some s) :
    HostOk limits s.o.db s.o.allows s.clock := by
  refine Machine.run_induction (P := fun s : Timed => HostOk limits s.o.db s.o.allows s.clock)
    (fun _ op _ h hs => hostOk_observeTimed hpos op h hs) hrun ⟨rfl, fun host => ?_, ?_⟩
  · show (openDb limits robots).crawling host ≤ _
    rw [(counted_init limits robots).host]
    exact zero_le_one.trans hpos.parallel
  · exact rateInv_init limits robots clock fun rate => zero_le_one.trans (hpos.rate rate)

theorem HostOk.decisionsIn_le {limits : CrawlLimits} {db : HostDb}
    {allows : List (Host × CrawlReads)} {clock : ℤ} (h : HostOk limits db allows clock)
    (host : Host) (rate : Rate) (T : ℤ) :
    (decisionsIn allows host (seconds rate.width) T : ℤ) ≤ rate.limit limits := by
  have hT := (h.rate host rate).bound T
  rwa [countIn_history, h.limits_eq] at hT

end HostDb

namespace System

open SchedulerRpc (hostOf)

variable {env : Env} {s : State env}

theorem tracks_init (start : Start env) :
    HostDb.Tracks env.sched.rounds.contribs (State.init start).view
      (.init start.sched.limits start.sched.robots) := by
  have hnone : (State.init start).crawls = [] := crawls_init start
  refine ⟨rfl, ?_, ?_, ?_⟩
  · show [].Perm ((State.init start).crawls.map _)
    rw [hnone]
    exact List.Perm.nil
  · show [].Perm (([] ++ (State.init start).crawls).map _)
    rw [hnone]
    exact List.Perm.nil
  · show ∀ gfq ∈ (State.init start).crawls, _
    rw [hnone]
    exact fun _ h => absurd h List.not_mem_nil

/-- **The rates of a host.**  In every run of the crawler in which the readings of the clock by
`tryFetchUrls` do not go back, with all limits of a host at least 1: the calls of `HostDb` are a run
of its machine to the same database; the decisions for a host are as many as its results that were
told and its crawls that are going on or lost; and in every closed minute, hour and day they are
within its limits. -/
theorem host_rates_hold (start : Start env)
    (hparallel : 1 ≤ start.sched.limits.maxHostParallelCrawl)
    (hmin : 1 ≤ start.sched.limits.maxHostMinuteCrawl)
    (hhour : 1 ≤ start.sched.limits.maxHostHourCrawl)
    (hday : 1 ≤ start.sched.limits.maxHostDayCrawl) {l : List Label}
    (hrun : Machine.run step (.init start) l = some s) {clock : ℤ}
    (htimes : (clock :: (Machine.outputs step State.hostDbCalls (.init start) l).flatMap
      HostDb.Op.times).Pairwise (· ≤ ·)) :
    ∃ (o : HostDb.Observed) (clock' : ℤ),
      Machine.run (HostDb.observeTimed env.sched.rounds.contribs)
          ⟨.init start.sched.limits start.sched.robots, clock⟩
          (Machine.outputs step State.hostDbCalls (.init start) l) = some ⟨o, clock'⟩ ∧
        o.db = s.sched.rounds.hostDb ∧
        ∀ host : Host, (o.allows.map Prod.fst).count host
            = ((s.sched.heard.map FetchResult.gfq).map
                (hostOf env.sched.rounds.contribs)).count host
              + (s.crawls.map (hostOf env.sched.rounds.contribs)).count host ∧
          ∀ T, (HostDb.decisionsIn o.allows host (minutes 1) T : ℤ)
              ≤ start.sched.limits.maxHostMinuteCrawl ∧
            (HostDb.decisionsIn o.allows host (hours 1) T : ℤ)
              ≤ start.sched.limits.maxHostHourCrawl ∧
            (HostDb.decisionsIn o.allows host (days 1) T : ℤ)
              ≤ start.sched.limits.maxHostDayCrawl := by
  have hpos : HostDb.Positive start.sched.limits :=
    ⟨hparallel, fun rate => by cases rate <;> assumption⟩
  obtain ⟨o, ho, htracks⟩ := Machine.run_outputs
    (R := fun (s : State env) o => HostDb.Tracks env.sched.rounds.contribs s.view o)
    (fun _ _ _ _ h hs => hs.follow (called_of_step h)) hrun (tracks_init start)
  obtain ⟨clock', htimed⟩ := HostDb.exists_run_observeTimed ho htimes
  have hok := HostDb.hostOk_of_run hpos htimed
  refine ⟨o, clock', htimed, htracks.db, fun host => ⟨?_, fun T => ?_⟩⟩
  · rw [htracks.allows.count_eq, List.map_append, List.count_append]
    rfl
  · exact ⟨hok.decisionsIn_le host .min T, hok.decisionsIn_le host .hour T,
      hok.decisionsIn_le host .day T⟩

theorem host_rates_hold_fetchPage :
    ∃ s : State .plain, Machine.run step (.init .fresh) fetchPage = some s ∧
      ∃ (o : HostDb.Observed) (clock' : ℤ),
        Machine.run (HostDb.observeTimed plainUTF8) ⟨.init ⟨1, 5, 5, 5, 5⟩ ∅, 0⟩
            (Machine.outputs step State.hostDbCalls (.init .fresh) fetchPage) = some ⟨o, clock'⟩ ∧
          o.db = s.sched.rounds.hostDb ∧
          (o.allows.map Prod.fst).count (.ofString "a") = 2 ∧
          ∀ T, (HostDb.decisionsIn o.allows (.ofString "a") (minutes 1) T : ℤ) ≤ 5 := by
  have hrun : ∃ s : State .plain, Machine.run step (.init .fresh) fetchPage = some s ∧
      ((s.sched.heard.map FetchResult.gfq).map (hostOf plainUTF8)).count (.ofString "a") = 2 ∧
      (s.crawls.map (hostOf plainUTF8)).count (.ofString "a") = 0 := by
    decide +kernel
  have htimes : (0 :: (Machine.outputs step State.hostDbCalls (.init .fresh) fetchPage).flatMap
      HostDb.Op.times).Pairwise (· ≤ ·) := by
    decide +kernel
  obtain ⟨s, hs, hheard, hcrawls⟩ := hrun
  obtain ⟨o, clock', ho, hdb, hhost⟩ :=
    host_rates_hold .fresh (by decide) (by decide) (by decide) (by decide) hs htimes
  obtain ⟨hcount, hrates⟩ := hhost (.ofString "a")
  refine ⟨s, hs, o, clock', ho, hdb, ?_, fun T => (hrates T).1⟩
  rw [hcount]
  exact congrArg₂ (· + ·) hheard hcrawls

end System

end Contentv1
