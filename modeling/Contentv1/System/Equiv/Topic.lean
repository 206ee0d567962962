import Contentv1.System.Equiv.System

/-!
# The topic as the log of the rounds

`topic_logs_rounds`: the scheduler writes to the topic what its rounds push and nothing else, round
by round and URL by URL, and a round of which everything is written is in `UrlDb`; so the records of
a URL that different rounds have written are an hour apart, while workers report what they like.
The clock that the thread of the rounds reads does not go back (`Scheduler/FilterRounds.lean`).

`Placed` and `Logged` are the invariants.  A round is in the log as soon as its time is taken;
`State.toWrite` is what of it the topic does not have yet.
-/

namespace Contentv1

namespace FilterRounds

variable {env : Env} {s t : State}

/-- What is written for a round. -/
def Round.records (misc : MiscTime) (round : Round) : List GFQRecord :=
  round.urls.map fun url => ⟨url, misc.toInt64 round.attemptTp⟩

/-- A round begins where its time is taken. -/
theorem pushedRounds_step {a : Label} (h : step env s a = some t)
    (hpush : ∀ attemptTp, a ≠ .pushToKafka attemptTp) : t.pushedRounds = s.pushedRounds := by
  unfold State.pushedRounds
  cases a with
  | calcToEnqueueNow pushTarget =>
    obtain ⟨hth, rfl⟩ := step_calcToEnqueueNow.mp h
    rw [hth]
    dsimp only
    split_ifs <;> rfl
  | leaveAllowedByRobots topUrls now =>
    obtain ⟨_, _, hth, -, rfl⟩ := step_leaveAllowedByRobots.mp h
    rw [hth]
  | leaveNeedUrls =>
    obtain ⟨_, _, _, _, _, hth, rfl⟩ := step_leaveNeedUrls.mp h
    rw [hth]
  | leaveNeedRobots needRobotsUniq max =>
    obtain ⟨pushTarget, reads, now, _, _, hth, -, rfl⟩ := step_leaveNeedRobots.mp h
    rw [hth]
    dsimp only
    unfold afterFilter
    cases searchReads env pushTarget _ <;> rfl
  | pushToKafka attemptTp => exact absurd rfl (hpush attemptTp)
  | setEnqueued =>
    obtain ⟨round, hth, rfl⟩ := step_setEnqueued.mp h
    rw [hth]
  | onFetched results now =>
    obtain ⟨urlDb, -, rfl⟩ := step_onFetched.mp h
    rfl
  | hostOnFetched results =>
    obtain rfl := Option.some.inj h
    rfl

/-- A round ends with `setEnqueued`. -/
theorem th_step {a : Label} (h : step env s a = some t) (hset : a ≠ .setEnqueued) {round : Round}
    (hth : s.th = .pushed round) : t.th = .pushed round := by
  cases a with
  | calcToEnqueueNow pushTarget =>
    obtain ⟨hidle, -⟩ := step_calcToEnqueueNow.mp h
    cases hth.symm.trans hidle
  | leaveAllowedByRobots topUrls now =>
    obtain ⟨_, _, hsearching, -⟩ := step_leaveAllowedByRobots.mp h
    cases hth.symm.trans hsearching
  | leaveNeedUrls =>
    obtain ⟨_, _, _, _, _, hallowed, -⟩ := step_leaveNeedUrls.mp h
    cases hth.symm.trans hallowed
  | leaveNeedRobots needRobotsUniq max =>
    obtain ⟨_, _, _, _, _, hneeded, -⟩ := step_leaveNeedRobots.mp h
    cases hth.symm.trans hneeded
  | pushToKafka attemptTp =>
    obtain ⟨_, _, hfound, -⟩ := step_pushToKafka.mp h
    cases hth.symm.trans hfound
  | setEnqueued => exact absurd rfl hset
  | onFetched results now =>
    obtain ⟨urlDb, -, rfl⟩ := step_onFetched.mp h
    exact hth
  | hostOnFetched results =>
    obtain rfl := Option.some.inj h
    exact hth

end FilterRounds

namespace Scheduler

open FilterRounds (Round)

variable {env : Env} {ω : Type} {start : Start env} {s t : State env ω}

/-- What the round that is under way has yet to write. -/
def State.toWrite (s : State env ω) : List GFQRecord :=
  match s.enqueueTh with
  | .pushing rest _ attemptTp =>
    rest.map fun url => ⟨url, env.rounds.misc.toInt64 attemptTp⟩
  | _ => []

/-- A round is written after its time was taken and before it is entered. -/
def Placed (s : State env ω) : Prop :=
  match s.enqueueTh with
  | .pushing _ _ _ | .saved _ _ => ∃ round, s.rounds.th = .pushed round
  | _ => True

theorem toWrite_of_rests (h : Rests s.enqueueTh) : s.toWrite = [] := by
  unfold State.toWrite
  cases hth : s.enqueueTh with
  | pushing rest pushUrls attemptTp =>
    rw [hth] at h
    exact h.elim
  | _ => rfl

theorem placed_of_rests (h : Rests s.enqueueTh) : Placed s := by
  unfold Placed
  cases hth : s.enqueueTh with
  | pushing rest pushUrls attemptTp =>
    rw [hth] at h
    exact h.elim
  | saved pushUrls attemptTp =>
    rw [hth] at h
    exact h.elim
  | _ => trivial

/-- Where no round is under way the loop writes none. -/
theorem Placed.rests (hs : Placed s) (hth : ∀ round, s.rounds.th ≠ .pushed round) :
    Rests s.enqueueTh := by
  unfold Placed at hs
  cases hqueue : s.enqueueTh with
  | pushing rest pushUrls attemptTp =>
    rw [hqueue] at hs
    obtain ⟨round, hpushed⟩ := hs
    exact absurd hpushed (hth round)
  | saved pushUrls attemptTp =>
    rw [hqueue] at hs
    obtain ⟨round, hpushed⟩ := hs
    exact absurd hpushed (hth round)
  | _ => trivial

theorem Placed.of_eq (hs : Placed s) (hrounds : t.rounds.th = s.rounds.th)
    (hth : t.enqueueTh = s.enqueueTh) : Placed t := by
  unfold Placed
  rw [hrounds, hth]
  exact hs

/-- A round stays under way until it is entered. -/
theorem Placed.step (hs : Placed s) {b : FilterRounds.Label}
    (h : FilterRounds.step env.rounds s.rounds b = some t.rounds) (hset : b ≠ .setEnqueued)
    (hth : t.enqueueTh = s.enqueueTh) : Placed t := by
  unfold Placed at hs ⊢
  rw [hth]
  cases hqueue : s.enqueueTh with
  | pushing rest pushUrls attemptTp =>
    rw [hqueue] at hs
    exact hs.imp fun round hpushed => FilterRounds.th_step h hset hpushed
  | saved pushUrls attemptTp =>
    rw [hqueue] at hs
    exact hs.imp fun round hpushed => FilterRounds.th_step h hset hpushed
  | _ => trivial

theorem Placed.enqueues {a : Label ω} (hs : Placed s) (h : Enqueues s a t) : Placed t := by
  cases h with
  | turn enqueueTh hfrom hto ha ht =>
    subst ht
    exact placed_of_rests hto
  | search b rounds h hsearch htop ha ht =>
    subst ht
    refine hs.step h ?_ rfl
    rintro rfl
    cases hsearch
  | takeTime pushUrls now attemptTp rounds hth h ha ht =>
    subst ht
    obtain ⟨_, _, _, _, rfl⟩ := FilterRounds.step_pushToKafka.mp h
    exact ⟨_, rfl⟩
  | push url rest pushUrls attemptTp hth ha ht =>
    subst ht
    rw [Placed, hth] at hs
    exact hs
  | saveEnqueued pushUrls attemptTp now crawledDb hth h ha ht =>
    subst ht
    rw [Placed, hth] at hs
    exact hs
  | setEnqueued pushUrls attemptTp rounds hth h ha ht =>
    subst ht
    exact trivial

theorem placed_step {a : Label ω} (hstep : step s a = some t) (hs : Placed s) : Placed t := by
  cases effect_of_step hstep with
  | enqueue h ha => exact hs.enqueues h
  | advance i now call u stage hcall h ha ht =>
    subst ht
    cases h <;> exact hs.of_eq rfl rfl
  | _ =>
    rename_i ht
    subst ht
    exact hs.of_eq rfl rfl

structure Logged (start : Start env) (s : State env ω) : Prop where
  topic : s.topic ++ s.toWrite.map (GFQRecord.dump env.pb)
    = (start.topic ++ s.rounds.pushedRounds.flatMap (Round.records env.rounds.misc)).map
        (GFQRecord.dump env.pb)
  rounds : FilterRounds.Inv env.rounds s.rounds

theorem logged_init (start : Start env) : Logged start (.init ω start) where
  topic := by
    show start.topic.map (GFQRecord.dump env.pb) ++ [] = (start.topic ++ []).map _
    rw [List.append_nil, List.append_nil]
  rounds := FilterRounds.inv_init _ _ _ _

theorem Logged.of_eq (hs : Logged start s) (htopic : t.topic = s.topic)
    (hrounds : t.rounds = s.rounds) (hth : t.enqueueTh = s.enqueueTh) : Logged start t where
  topic := by
    unfold State.toWrite
    rw [htopic, hrounds, hth]
    exact hs.topic
  rounds := by
    rw [hrounds]
    exact hs.rounds

/-- The loop goes on, with nothing to write before and after. -/
theorem Logged.enqueueTh (hs : Logged start s) (htopic : t.topic = s.topic)
    (hrounds : t.rounds.pushedRounds = s.rounds.pushedRounds) (hbefore : s.toWrite = [])
    (hafter : t.toWrite = []) (hinv : FilterRounds.Inv env.rounds t.rounds) :
    Logged start t where
  topic := by
    have h := hs.topic
    rw [hbefore] at h
    rw [htopic, hrounds, hafter]
    exact h
  rounds := hinv

/-- The search and the results, which begin and end no round. -/
theorem Logged.step (hround : env.rounds.misc.RoundsInOrder)
    (hlimit : ∀ v n, env.rounds.limitVector v n ⊆ v) (hs : Logged start s)
    {b : FilterRounds.Label} (h : FilterRounds.step env.rounds s.rounds b = some t.rounds)
    (hpush : ∀ attemptTp, b ≠ .pushToKafka attemptTp) (htopic : t.topic = s.topic)
    (hth : t.enqueueTh = s.enqueueTh) : Logged start t where
  topic := by
    unfold State.toWrite
    rw [htopic, hth, FilterRounds.pushedRounds_step h hpush]
    exact hs.topic
  rounds := FilterRounds.inv_step hround hlimit h hs.rounds

/-- The time is taken: the whole round is in the log and to be written. -/
theorem Logged.takeTime (hround : env.rounds.misc.RoundsInOrder)
    (hlimit : ∀ v n, env.rounds.limitVector v n ⊆ v) (hs : Logged start s) (hplaced : Placed s)
    {pushUrls : List UrlFreq} {now attemptTp : ℤ} (hth : s.rounds.th = .found pushUrls now)
    (h : FilterRounds.step env.rounds s.rounds (.pushToKafka attemptTp) = some t.rounds)
    (htopic : t.topic = s.topic)
    (hqueue : t.enqueueTh = .pushing (EnqueueLoop.toUrlsVec pushUrls)
      (EnqueueLoop.toUrlsVec pushUrls) attemptTp) : Logged start t := by
  have hnone : s.toWrite = [] := toWrite_of_rests <| hplaced.rests fun round hpushed => by
    cases hth.symm.trans hpushed
  have hinv := FilterRounds.inv_step hround hlimit h hs.rounds
  obtain ⟨pushUrls', now', hth', -, heq⟩ := FilterRounds.step_pushToKafka.mp h
  cases hth.symm.trans hth'
  have hbefore : s.rounds.pushedRounds = s.rounds.rounds := by
    rw [FilterRounds.State.pushedRounds, hth]
  refine ⟨?_, hinv⟩
  have hlog := hs.topic
  rw [hnone, List.map_nil, List.append_nil, hbefore] at hlog
  unfold State.toWrite
  rw [htopic, hqueue, hlog, ← heq]
  show _ = (start.topic ++ (s.rounds.rounds ++ [_]).flatMap _).map _
  rw [List.flatMap_append, List.flatMap_singleton, ← List.append_assoc]
  exact List.map_append.symm

/-- The search and the rounds. -/
theorem Logged.enqueues (hround : env.rounds.misc.RoundsInOrder)
    (hlimit : ∀ v n, env.rounds.limitVector v n ⊆ v) (hs : Logged start s) (hplaced : Placed s)
    {a : Label ω} (h : Enqueues s a t) : Logged start t := by
  cases h with
  | turn enqueueTh hfrom hto ha ht =>
    subst ht
    exact hs.enqueueTh rfl rfl (toWrite_of_rests hfrom) (toWrite_of_rests hto) hs.rounds
  | search b rounds h hsearch htop ha ht =>
    subst ht
    refine hs.step hround hlimit h ?_ rfl rfl
    rintro attemptTp rfl
    cases hsearch
  | takeTime pushUrls now attemptTp rounds hth h ha ht =>
    subst ht
    exact hs.takeTime hround hlimit hplaced hth h rfl rfl
  | push url rest pushUrls attemptTp hth ha ht =>
    subst ht
    have hlog := hs.topic
    refine ⟨?_, hs.rounds⟩
    -- the record goes from what is to be written to the topic
    have hwrite : s.toWrite = ⟨url, env.rounds.misc.toInt64 attemptTp⟩ ::
        rest.map fun url => ⟨url, env.rounds.misc.toInt64 attemptTp⟩ := by
      rw [State.toWrite, hth]
      rfl
    rw [hwrite, List.map_cons] at hlog
    rw [← hlog]
    exact List.append_assoc _ _ _
  | saveEnqueued pushUrls attemptTp now crawledDb hth h ha ht =>
    subst ht
    refine hs.enqueueTh rfl rfl ?_ rfl hs.rounds
    rw [State.toWrite, hth]
    rfl
  | setEnqueued pushUrls attemptTp rounds hth h ha ht =>
    subst ht
    refine hs.enqueueTh rfl (FilterRounds.pushedRounds_step h (by rintro _ ⟨⟩)) ?_ rfl
      (FilterRounds.inv_step hround hlimit h hs.rounds)
    rw [State.toWrite, hth]

theorem logged_step (hround : env.rounds.misc.RoundsInOrder)
    (hlimit : ∀ v n, env.rounds.limitVector v n ⊆ v) {a : Label ω} (hstep : step s a = some t)
    (hplaced : Placed s) (hs : Logged start s) : Logged start t := by
  cases effect_of_step hstep with
  | enqueue h ha => exact hs.enqueues hround hlimit hplaced h
  | advance i now call u stage hcall h ha ht =>
    subst ht
    cases h with
    | urlDb urlDb hstage h =>
      have hrounds := FilterRounds.step_onFetched.mpr ⟨urlDb, h, rfl⟩
      exact hs.step hround hlimit hrounds (by rintro _ ⟨⟩) rfl rfl
    | hostDb hstage =>
      have hrounds : FilterRounds.step env.rounds s.rounds (.hostOnFetched call.results)
        = some { s.rounds with
            hostDb := s.rounds.hostDb.onFetched env.rounds.contribs call.results } := rfl
      exact hs.step hround hlimit hrounds (by rintro _ ⟨⟩) rfl rfl
    | _ => exact hs.of_eq rfl rfl rfl
  | _ =>
    rename_i ht
    subst ht
    exact hs.of_eq rfl rfl rfl

end Scheduler

namespace System

open FilterRounds (Round RestedBetween)
open Scheduler (Logged Placed)

variable {env : Env} {start : Start env} {s t : State env}

theorem placed_step {a : Label} (hstep : step s a = some t) (hs : Placed s.sched) :
    Placed t.sched := by
  cases effect_of_step hstep with
  | sched a sched hown h ht =>
    subst ht
    exact Scheduler.placed_step h hs
  | _ =>
    rename_i ht _
    subst ht
    exact hs.of_eq rfl rfl

theorem logged_step (hround : env.sched.rounds.misc.RoundsInOrder)
    (hlimit : ∀ v n, env.sched.rounds.limitVector v n ⊆ v) {a : Label} (hstep : step s a = some t)
    (hplaced : Placed s.sched) (hs : Logged start.sched s.sched) : Logged start.sched t.sched := by
  cases effect_of_step hstep with
  | sched a sched hown h ht =>
    subst ht
    exact Scheduler.logged_step hround hlimit h hplaced hs
  | serveTryFetch i w tryUrls now hmsg hnow ht =>
    subst ht
    -- only the counters of hosts change
    exact ⟨hs.topic, hs.rounds.of_th rfl rfl le_rfl hs.rounds.th⟩
  | _ =>
    rename_i ht _
    subst ht
    exact hs.of_eq rfl rfl rfl

/-- **The topic logs the rounds.**  In every state that a run leads to, whatever is fetched and
reported meanwhile, under a clock of the rounds that does not go back: the topic, with what the
round under way has yet to write, is what it was at the start and the records of all rounds in their
order; a URL that two rounds have written has rested for an hour in between; and `UrlDb` has an
attempt of every URL of a round that was entered, no earlier than the round. -/
theorem topic_logs_rounds (hround : env.sched.rounds.misc.RoundsInOrder)
    (hlimit : ∀ v n, env.sched.rounds.limitVector v n ⊆ v) (start : Start env) {l : List Label}
    (hrun : Machine.run step (.init start) l = some s) :
    s.sched.topic ++ s.sched.toWrite.map (GFQRecord.dump env.sched.pb)
        = (start.sched.topic
          ++ s.sched.rounds.pushedRounds.flatMap (Round.records env.sched.rounds.misc)).map
            (GFQRecord.dump env.sched.pb) ∧
      s.sched.rounds.pushedRounds.Pairwise (RestedBetween env.sched.rounds.misc) ∧
      ∀ round ∈ s.sched.rounds.rounds, ∀ url ∈ round.urls, ∃ attempt,
        (s.sched.rounds.urlDb.attemptsOf url).getLast? = some attempt ∧
          env.sched.rounds.misc.roundSecs round.attemptTp ≤ attempt.tp := by
  obtain ⟨-, hs⟩ : Placed s.sched ∧ Logged start.sched s.sched :=
    Machine.run_induction (P := fun s : State env => Placed s.sched ∧ Logged start.sched s.sched)
      (fun _ _ _ h hs => ⟨placed_step h hs.1, logged_step hround hlimit h hs.1 hs.2⟩) hrun
      ⟨trivial, Scheduler.logged_init start.sched⟩
  refine ⟨hs.topic, hs.rounds.pushedRounds, fun round hmem url hurl => ?_⟩
  obtain ⟨tp, htp, hlast⟩ := hs.rounds.entered round hmem url hurl
  obtain ⟨attempt, hattempt, rfl⟩ := Option.map_eq_some_iff.mp hlast
  exact ⟨attempt, hattempt, htp⟩

theorem topic_logs_rounds_fetchPage :
    ∃ s : State .plain, Machine.run step (.init .fresh) fetchPage = some s ∧
      s.sched.topic.length = 2 ∧
      s.sched.topic ++ s.sched.toWrite.map (GFQRecord.dump Env.plain.sched.pb)
        = (s.sched.rounds.pushedRounds.flatMap (Round.records Env.plain.sched.rounds.misc)).map
            (GFQRecord.dump Env.plain.sched.pb) := by
  have hrun : ∃ s : State .plain, Machine.run step (.init .fresh) fetchPage = some s ∧
      s.sched.topic.length = 2 := by
    decide +kernel
  obtain ⟨s, hs, htopic⟩ := hrun
  have hround : Env.plain.sched.rounds.misc.RoundsInOrder := MiscTime.roundsInOrder_nearEpoch
  have hlimit : ∀ v n, Env.plain.sched.rounds.limitVector v n ⊆ v :=
    fun v n => List.take_subset n.toNat v
  exact ⟨s, hs, htopic, (topic_logs_rounds hround hlimit .fresh hs).1⟩

end System

end Contentv1
