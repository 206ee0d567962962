import Contentv1.System.Equiv.System

/-!
# Whether the counters of fetches agree

A dry run of `bin/contentd` ends by comparing the counters of its worker and of its scheduler.
`fetchStats_agree`: in every state that a run leads to, each of the four counters of all workers
together is that of the scheduler and the number of results that were counted by a worker only,
because they are in flight, at a call that has not come so far, or lost.  With one worker the two
are equal exactly when there are none.
-/

namespace Contentv1

namespace FetchStats

variable {isOk isRobots : Bool}

/-- The counter of fetches that end so. -/
def get (isOk isRobots : Bool) (stats : FetchStats) : ℕ :=
  if isOk then if isRobots then stats.robotsSuccess else stats.success
  else if isRobots then stats.robotsFail else stats.fail

/-- The fetch is counted there. -/
def counts (isOk isRobots : Bool) (r : FetchResult) : Bool :=
  r.isOk == isOk && r.isRobots == isRobots

theorem get_inc (stats : FetchStats) (isOk' isRobots' : Bool) :
    (stats.inc isOk' isRobots').get isOk isRobots
      = stats.get isOk isRobots + if isOk' == isOk && isRobots' == isRobots then 1 else 0 := by
  cases isOk <;> cases isRobots <;> cases isOk' <;> cases isRobots' <;> rfl

theorem get_incStats (stats : FetchStats) (results : List FetchResult) :
    (stats.incStats results).get isOk isRobots
      = stats.get isOk isRobots + results.countP (counts isOk isRobots) := by
  unfold incStats
  induction results generalizing stats with
  | nil => rfl
  | cons r results ih =>
    rw [List.foldl_cons, ih, get_inc, List.countP_cons]
    unfold counts
    omega

theorem eq_iff {a b : FetchStats} :
    a.eq b = true ↔ ∀ isOk isRobots, a.get isOk isRobots = b.get isOk isRobots := by
  unfold eq
  simp only [Bool.and_eq_true, beq_iff_eq]
  constructor
  · rintro ⟨⟨⟨hsuccess, hfail⟩, hrobots⟩, hrobotsFail⟩ isOk isRobots
    cases isOk <;> cases isRobots
    · exact hfail
    · exact hrobotsFail
    · exact hsuccess
    · exact hrobots
  · exact fun h => ⟨⟨⟨h true false, h false false⟩, h true true⟩, h false true⟩

end FetchStats

namespace Scheduler

variable {env : Env} {ω : Type} {s t : State env ω} {isOk isRobots : Bool}

/-- The results of a call that the scheduler has not counted. -/
def Call.uncounted (call : Call ω) : List FetchResult :=
  if call.stage = .returned then [] else call.results

/-- What the scheduler has counted and what its calls are going to add. -/
def State.total (isOk isRobots : Bool) (s : State env ω) : ℕ :=
  s.stats.get isOk isRobots
    + (s.calls.map fun call => call.uncounted.countP (FetchStats.counts isOk isRobots)).sum

theorem total_step {a : Label ω} (hstep : step s a = some t)
    (hcaller : ∀ caller results, a ≠ .onFetched caller results) (hfinish : ∀ i, a ≠ .finish i)
    (isOk isRobots : Bool) : t.total isOk isRobots = s.total isOk isRobots := by
  cases effect_of_step hstep with
  | load b load hrun h ha ht =>
    subst ht
    rfl
  | crawled b crawledDb hrun h ha ht =>
    subst ht
    rfl
  | enqueue h ha =>
    unfold State.total
    rw [h.beside.stats, h.beside.calls]
  | call caller results ha ht => exact absurd ha (hcaller caller results)
  | finish i call ha hcall hstage ht => exact absurd ha (hfinish i)
  | advance i now call u stage hcall h ha ht =>
    subst ht
    have hset := Machine.sum_map_set
      (fun call : Call ω => call.uncounted.countP (FetchStats.counts isOk isRobots)) hcall
      { call with stage := stage }
    have hold := Machine.sum_map_eraseIdx
      (fun call : Call ω => call.uncounted.countP (FetchStats.counts isOk isRobots)) hcall
    unfold State.total
    dsimp only at hset hold ⊢
    rw [hset, hold]
    -- a call counts its results with its last step
    have hbefore : ∀ {stage' : Stage}, stage' ≠ .returned →
        Call.uncounted { call with stage := stage' } = call.results := fun h => if_neg h
    cases h with
    | urlDb urlDb hstage hdb =>
      rw [hbefore (by rintro ⟨⟩), Call.uncounted, if_neg (by rw [hstage]; rintro ⟨⟩)]
    | hostDb hstage =>
      rw [hbefore (by rintro ⟨⟩), Call.uncounted, if_neg (by rw [hstage]; rintro ⟨⟩)]
    | saveResult status cnt todo crawledDb hstage h =>
      rw [hbefore (by rintro ⟨⟩), Call.uncounted, if_neg (by rw [hstage]; rintro ⟨⟩)]
    | saved hstage =>
      rw [hbefore (by rintro ⟨⟩), Call.uncounted, if_neg (by rw [hstage]; rintro ⟨⟩)]
    | incStats hstage =>
      have hafter : Call.uncounted { call with stage := .returned } = [] := if_pos rfl
      rw [hafter, Call.uncounted, if_neg (by rw [hstage]; rintro ⟨⟩),
        FetchStats.get_incStats, List.countP_nil]
      omega

end Scheduler

namespace System

open FetchPages (JobInfo SaveOutcome)
open SchedulerRpc (Msg)

variable {env : Env} {start : Start env} {s t : State env} {isOk isRobots : Bool}

/-- The results that a message brings to the scheduler. -/
def results : Msg → List FetchResult
  | .onFetchedRequest _ results => results
  | _ => []

/-- The results that the workers have counted and the scheduler has not. -/
def State.unreported (s : State env) : List FetchResult :=
  s.net.flatMap results ++ s.sched.calls.flatMap Scheduler.Call.uncounted
    ++ s.lost.flatMap results

/-- A counter of all workers together. -/
def State.fetched (isOk isRobots : Bool) (s : State env) : ℕ :=
  ∑ w ∈ Finset.range env.workerCount, (s.workers w).stats.get isOk isRobots

/-- What the results in messages are counted as. -/
def carried (isOk isRobots : Bool) (msg : Msg) : ℕ :=
  (results msg).countP (FetchStats.counts isOk isRobots)

/-- A counter is the scheduler's and what is on its way to it. -/
def Agrees (isOk isRobots : Bool) (s : State env) : Prop :=
  s.fetched isOk isRobots = s.sched.total isOk isRobots
    + (s.net.map (carried isOk isRobots)).sum + (s.lost.map (carried isOk isRobots)).sum

theorem Agrees.eq (hs : Agrees isOk isRobots s) :
    s.fetched isOk isRobots = s.sched.total isOk isRobots
      + (s.net.map (carried isOk isRobots)).sum + (s.lost.map (carried isOk isRobots)).sum :=
  hs

theorem agrees_init (start : Start env) : Agrees isOk isRobots (.init start) := by
  have hzero : (default : FetchStats).get isOk isRobots = 0 := by
    cases isOk <;> cases isRobots <;> rfl
  show ∑ w ∈ Finset.range env.workerCount, (default : FetchStats).get isOk isRobots
    = (default : FetchStats).get isOk isRobots + 0 + 0 + 0
  rw [hzero]
  exact Finset.sum_const_zero

/-- A step of one worker and of the messages, which leaves the scheduler as it is. -/
theorem Agrees.update {w : ℕ} {worker : Worker.State} {net lost : List Msg}
    (hs : Agrees isOk isRobots s) (hw : w < env.workerCount)
    (hcarried : worker.stats.get isOk isRobots + (s.net.map (carried isOk isRobots)).sum
        + (s.lost.map (carried isOk isRobots)).sum
      = (s.workers w).stats.get isOk isRobots + (net.map (carried isOk isRobots)).sum
        + (lost.map (carried isOk isRobots)).sum) :
    Agrees isOk isRobots { s with
      workers := Function.update s.workers w worker, net := net, lost := lost } := by
  have hsum := Machine.sum_range_update
    (fun worker : Worker.State => worker.stats.get isOk isRobots) s.workers hw worker
  have hs' := hs.eq
  show ∑ v ∈ Finset.range env.workerCount,
      (Function.update s.workers w worker v).stats.get isOk isRobots
    = s.sched.total isOk isRobots + (net.map (carried isOk isRobots)).sum
      + (lost.map (carried isOk isRobots)).sum
  unfold State.fetched at hs'
  omega

theorem agrees_step {a : Label} (hstep : step s a = some t) (hs : Agrees isOk isRobots s) :
    Agrees isOk isRobots t := by
  have herase : ∀ {i : ℕ} {msg : Msg}, s.net[i]? = some msg →
      (s.net.map (carried isOk isRobots)).sum
        = carried isOk isRobots msg + ((s.net.eraseIdx i).map (carried isOk isRobots)).sum :=
    fun hmsg => Machine.sum_map_eraseIdx (carried isOk isRobots) hmsg
  have hadd : ∀ (net : List Msg) (msg : Msg), ((net ++ [msg]).map (carried isOk isRobots)).sum
      = (net.map (carried isOk isRobots)).sum + carried isOk isRobots msg := by
    intro net msg
    rw [List.map_append, List.sum_append]
    rfl
  cases effect_of_step hstep with
  | sched a sched hown h ht =>
    subst ht
    have htotal := Scheduler.total_step h (by rintro _ _ rfl; cases hown)
      (by rintro _ rfl; cases hown) isOk isRobots
    unfold Agrees at hs ⊢
    dsimp only
    rw [htotal]
    exact hs
  | readKafka w hw dump gfq worker hdump hgfq h ht =>
    subst ht
    obtain rfl := Worker.read_eq_some.mp h
    refine hs.update hw ?_
    cases isOk <;> cases isRobots <;> rfl
  | merge w hw a worker h ht =>
    subst ht
    obtain ⟨-, fetch, -, rfl⟩ := Worker.mergeStep_eq_some.mp h
    exact hs.update hw rfl
  | ask w hw worker h ht =>
    subst ht
    obtain ⟨-, -, -, -, rfl⟩ := Worker.ask_eq_some.mp h
    refine hs.update hw ?_
    rw [hadd]
    rfl
  | respond w hw i ji worker hclient h ht =>
    subst ht
    obtain ⟨-, fetch, -, rfl⟩ := Worker.respond_eq_some.mp h
    refine hs.update hw ?_
    -- the result is of the kind that the worker has counted
    have hresult : carried isOk isRobots (.onFetchedRequest w [ji.result])
        = if ji.success == isOk && ji.userdata.isRobots == isRobots then 1 else 0 := by
      have hok : ji.result.isOk = ji.success := by
        unfold JobInfo.result FetchLoop.responseResult FetchResult.isOk
        cases ji.success <;> rfl
      unfold carried results
      rw [List.countP_singleton, FetchStats.counts, hok]
      rfl
    dsimp only
    rw [FetchStats.get_inc, hadd, hresult]
    omega
  | serveTryFetch i w tryUrls now hmsg hnow ht =>
    subst ht
    have hsum := herase hmsg
    have hs' := hs.eq
    show s.fetched isOk isRobots = s.sched.total isOk isRobots
      + ((s.net.eraseIdx i ++ [_]).map (carried isOk isRobots)).sum
      + (s.lost.map (carried isOk isRobots)).sum
    rw [hadd, hs', hsum, Nat.add_comm (carried isOk isRobots _)]
    rfl
  | serveOnFetched i w results hmsg ht =>
    subst ht
    have hsum := herase hmsg
    have hs' := hs.eq
    have htotal : Scheduler.State.total isOk isRobots
        { s.sched with calls := s.sched.calls ++ [⟨w, results, .urlDb⟩] }
        = s.sched.total isOk isRobots + carried isOk isRobots (.onFetchedRequest w results) := by
      unfold Scheduler.State.total
      rw [List.map_append, List.sum_append]
      exact (Nat.add_assoc _ _ _).symm
    show s.fetched isOk isRobots = Scheduler.State.total isOk isRobots
        { s.sched with calls := s.sched.calls ++ [⟨w, results, .urlDb⟩] }
      + ((s.net.eraseIdx i).map (carried isOk isRobots)).sum
      + (s.lost.map (carried isOk isRobots)).sum
    rw [htotal, hs', hsum]
    omega
  | reply i call hcall hstage ht =>
    subst ht
    have hs' := hs.eq
    have htotal : Scheduler.State.total isOk isRobots
        { s.sched with calls := s.sched.calls.eraseIdx i } = s.sched.total isOk isRobots := by
      have hsum := Machine.sum_map_eraseIdx (fun call : Scheduler.Call ℕ =>
        call.uncounted.countP (FetchStats.counts isOk isRobots)) hcall
      have hnone : call.uncounted = [] := if_pos hstage
      rw [hnone, List.countP_nil, Nat.zero_add] at hsum
      unfold Scheduler.State.total
      rw [hsum]
    show s.fetched isOk isRobots = Scheduler.State.total isOk isRobots
        { s.sched with calls := s.sched.calls.eraseIdx i }
      + ((s.net ++ [_]).map (carried isOk isRobots)).sum
      + (s.lost.map (carried isOk isRobots)).sum
    rw [htotal, hadd]
    exact hs'
  | answer i w hw msg allowedUrls lost worker hmsg hends h ht =>
    subst ht
    obtain ⟨-, fetch, -, rfl⟩ := Worker.answer_eq_some.mp h
    refine hs.update hw ?_
    rw [herase hmsg, List.map_append, List.sum_append]
    -- there are no results in these messages
    have hnone : carried isOk isRobots msg = 0 ∧ (lost.map (carried isOk isRobots)).sum = 0 := by
      cases hends <;> exact ⟨rfl, rfl⟩
    rw [hnone.1, hnone.2]
    dsimp only
    omega
  | reported i w hw msg lost save worker hmsg hends h ht =>
    subst ht
    obtain ⟨ji, -, rfl⟩ := Worker.reported_eq_some.mp h
    refine hs.update hw ?_
    rw [herase hmsg, List.map_append, List.sum_append]
    -- a request that is lost has its results still
    have hmoved : carried isOk isRobots msg = (lost.map (carried isOk isRobots)).sum := by
      cases hends <;> rfl
    dsimp only
    omega

/-- What is not reported is what the scheduler's calls, the messages and the lost messages have. -/
theorem total_eq (s : State env) :
    s.sched.total isOk isRobots + (s.net.map (carried isOk isRobots)).sum
        + (s.lost.map (carried isOk isRobots)).sum
      = s.sched.stats.get isOk isRobots
        + s.unreported.countP (FetchStats.counts isOk isRobots) := by
  have hcarried : ∀ net : List Msg, (net.flatMap results).countP (FetchStats.counts isOk isRobots)
      = (net.map (carried isOk isRobots)).sum :=
    fun net => List.countP_flatMap
  have hcalls : (s.sched.calls.flatMap Scheduler.Call.uncounted).countP
        (FetchStats.counts isOk isRobots)
      = (s.sched.calls.map fun call =>
          call.uncounted.countP (FetchStats.counts isOk isRobots)).sum :=
    List.countP_flatMap
  unfold State.unreported Scheduler.State.total
  rw [List.countP_append, List.countP_append, hcarried, hcarried, hcalls]
  omega

/-- Every result is counted in one of the four ways. -/
theorem unreported_eq_nil_iff : s.unreported = [] ↔
    ∀ isOk isRobots, s.unreported.countP (FetchStats.counts isOk isRobots) = 0 := by
  constructor
  · intro hnil isOk isRobots
    rw [hnil, List.countP_nil]
  · intro hzero
    refine List.eq_nil_iff_forall_not_mem.mpr fun r hr => ?_
    have hnot := List.countP_eq_zero.mp (hzero r.isOk r.isRobots) r hr
    unfold FetchStats.counts at hnot
    simp at hnot

/-- **The counters of fetches.**  In every state that a run leads to, each counter of all workers
together is the scheduler's and the results that are not reported to it; so a dry run, which has one
worker and compares the two, finds them equal exactly when every result is reported. -/
theorem fetchStats_agree {l : List Label} (hrun : Machine.run step (.init start) l = some s) :
    (∀ isOk isRobots, s.fetched isOk isRobots
        = s.sched.stats.get isOk isRobots
          + s.unreported.countP (FetchStats.counts isOk isRobots)) ∧
      (env.workerCount = 1 →
        ((s.workers 0).stats.eq s.sched.stats = true ↔ s.unreported = [])) := by
  have hagree : ∀ isOk isRobots, s.fetched isOk isRobots
      = s.sched.stats.get isOk isRobots
        + s.unreported.countP (FetchStats.counts isOk isRobots) := by
    intro isOk isRobots
    have hs : Agrees isOk isRobots s :=
      Machine.run_induction (P := Agrees isOk isRobots) (fun _ _ _ h hs => agrees_step h hs) hrun
        (agrees_init start)
    rw [hs.eq, total_eq]
  refine ⟨hagree, fun hone => ?_⟩
  rw [FetchStats.eq_iff, unreported_eq_nil_iff]
  refine forall_congr' fun isOk => forall_congr' fun isRobots => ?_
  have hfetched : s.fetched isOk isRobots = (s.workers 0).stats.get isOk isRobots := by
    unfold State.fetched
    rw [hone, Finset.sum_range_one]
  rw [← hfetched, hagree]
  omega

/-- The page is fetched, and its report is lost. -/
def lostReport : List Label :=
  fetchPage.take (fetchPage.length - 9) ++
    [.respond 0 0 true default (Str.ofString "page"), .lose 0 .returned]

theorem fetchStats_agree_lostReport :
    ∃ s : State .plain, Machine.run step (.init .fresh) lostReport = some s ∧
      s.sched.stats.get true true = 1 ∧ s.sched.stats.get true false = 0 ∧
      s.fetched true false = 1 ∧ (s.workers 0).stats.eq s.sched.stats = false := by
  have hrun : ∃ s : State .plain, Machine.run step (.init .fresh) lostReport = some s ∧
      s.sched.stats.get true true = 1 ∧ s.sched.stats.get true false = 0 ∧
      s.unreported.countP (FetchStats.counts true false) = 1 := by
    decide +kernel
  obtain ⟨s, hs, hrobots, hpages, hunreported⟩ := hrun
  obtain ⟨hagree, hequal⟩ := fetchStats_agree hs
  refine ⟨s, hs, hrobots, hpages, ?_, ?_⟩
  · rw [hagree, hpages, hunreported]
  · rw [Bool.eq_false_iff, Ne, hequal rfl]
    intro hnil
    rw [hnil] at hunreported
    cases hunreported

end System

end Contentv1
