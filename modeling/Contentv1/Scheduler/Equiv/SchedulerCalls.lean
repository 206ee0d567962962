import Contentv1.Scheduler.Equiv.Scheduler
import Contentv1.Ldb.Equiv.UrlDbSnap

/-!
# Calls of `onFetched` run to their ends

A call can always go on (`exists_advance`), for `UrlDb` finds an attempt of every URL that it knows
(`allStored_step`), and each thing that it does leaves it fewer (`left_lt_of_advance`).
-/

namespace Contentv1

namespace FilterRounds

variable {env : Env} {s t : State}

theorem allStored_step {a : Label} (h : step env s a = some t)
    (hs : s.urlDb.AllStored env.misc) : t.urlDb.AllStored env.misc := by
  cases a with
  | calcToEnqueueNow pushTarget =>
    obtain ⟨-, rfl⟩ := step_calcToEnqueueNow.mp h
    exact hs
  | leaveAllowedByRobots topUrls now =>
    obtain ⟨_, _, _, _, rfl⟩ := step_leaveAllowedByRobots.mp h
    exact hs
  | leaveNeedUrls =>
    obtain ⟨_, _, _, _, _, _, rfl⟩ := step_leaveNeedUrls.mp h
    exact hs
  | leaveNeedRobots needRobotsUniq max =>
    obtain ⟨_, _, _, _, _, _, _, rfl⟩ := step_leaveNeedRobots.mp h
    exact hs
  | pushToKafka attemptTp =>
    obtain ⟨_, _, _, _, rfl⟩ := step_pushToKafka.mp h
    exact hs
  | setEnqueued =>
    obtain ⟨round, _, rfl⟩ := step_setEnqueued.mp h
    exact (UrlDb.keeps_setEnqueued s.urlDb round.urls round.attemptTp).stored hs
  | onFetched results now =>
    obtain ⟨urlDb, hdb, rfl⟩ := step_onFetched.mp h
    exact (UrlDb.keeps_onFetched hs hdb).stored hs
  | hostOnFetched results =>
    obtain rfl := Option.some.inj h
    exact hs

end FilterRounds

namespace Scheduler

variable {env : Env} {ω : Type} {s t : State env ω}

/-- What a call has yet to do before it returns. -/
def Stage.left (results : List FetchResult) : Stage → ℕ
  | .urlDb => 4 + (CrawledDb.onFetched results).length
  | .hostDb => 3 + (CrawledDb.onFetched results).length
  | .crawledDb todo => 2 + todo.length
  | .incStats => 1
  | .returned => 0

theorem left_lt_of_advance {call : Call ω} {now : ℤ} {r : State env ω × Stage}
    (h : advance s call now = some r) : r.2.left call.results < call.stage.left call.results := by
  unfold advance at h
  cases hstage : call.stage with
  | urlDb =>
    rw [hstage] at h
    obtain ⟨rounds, -, rfl⟩ := Option.map_eq_some_iff.mp h
    simp only [Stage.left]
    omega
  | hostDb =>
    rw [hstage] at h
    obtain ⟨rounds, -, rfl⟩ := Option.map_eq_some_iff.mp h
    simp only [Stage.left]
    omega
  | crawledDb todo =>
    rw [hstage] at h
    cases todo with
    | nil =>
      obtain rfl := Option.some.inj h
      simp only [Stage.left]
      omega
    | cons p todo =>
      obtain ⟨crawledDb, -, rfl⟩ := Option.map_eq_some_iff.mp h
      simp only [Stage.left, List.length_cons]
      omega
  | incStats =>
    rw [hstage] at h
    obtain rfl := Option.some.inj h
    simp only [Stage.left]
    omega
  | returned =>
    rw [hstage] at h
    cases h

/-- A call that has not returned can go on. -/
theorem exists_advance (hs : s.rounds.urlDb.AllStored env.rounds.misc) {call : Call ω}
    (hstage : call.stage ≠ .returned) (now : ℤ) : ∃ r, advance s call now = some r := by
  unfold advance
  cases hcall : call.stage with
  | urlDb =>
    obtain ⟨urlDb, hdb, -⟩ := UrlDb.exists_onFetched hs call.results now
    have hstep := FilterRounds.step_onFetched.mpr ⟨urlDb, hdb, rfl⟩
    dsimp only
    rw [hstep]
    exact ⟨_, rfl⟩
  | hostDb => exact ⟨_, rfl⟩
  | crawledDb todo =>
    cases todo with
    | nil => exact ⟨_, rfl⟩
    | cons p todo => exact ⟨_, rfl⟩
  | incStats => exact ⟨_, rfl⟩
  | returned => exact absurd hcall hstage

theorem allStored_step {a : Label ω} (hstep : step s a = some t)
    (hs : s.rounds.urlDb.AllStored env.rounds.misc) :
    t.rounds.urlDb.AllStored env.rounds.misc := by
  cases effect_of_step hstep with
  | load b load hrun h ha ht =>
    subst ht
    exact hs
  | crawled b crawledDb hrun h ha ht =>
    subst ht
    exact hs
  | enqueue h ha =>
    cases h with
    | search b rounds h hsearch htop ha ht =>
      subst ht
      exact FilterRounds.allStored_step h hs
    | takeTime pushUrls now attemptTp rounds hth h ha ht =>
      subst ht
      exact FilterRounds.allStored_step h hs
    | setEnqueued pushUrls attemptTp rounds hth h ha ht =>
      subst ht
      exact FilterRounds.allStored_step h hs
    | _ =>
      rename_i ht
      subst ht
      exact hs
  | call caller results ha ht =>
    subst ht
    exact hs
  | advance i now call u stage hcall h ha ht =>
    subst ht
    cases h with
    | urlDb urlDb hstage hdb => exact (UrlDb.keeps_onFetched hs hdb).stored hs
    | _ => exact hs
  | finish i call ha hcall hstage ht =>
    subst ht
    exact hs

/-- Calls come and go with the messages only. -/
theorem callers_step {a : Label ω} (hstep : step s a = some t)
    (hcaller : ∀ caller results, a ≠ .onFetched caller results) (hfinish : ∀ i, a ≠ .finish i) :
    t.calls.map Call.caller = s.calls.map Call.caller := by
  cases effect_of_step hstep with
  | load b load hrun h ha ht =>
    subst ht
    rfl
  | crawled b crawledDb hrun h ha ht =>
    subst ht
    rfl
  | enqueue h ha => exact congrArg _ h.beside.calls
  | call caller results ha ht => exact absurd ha (hcaller caller results)
  | advance i now call u stage hcall h ha ht =>
    subst ht
    exact Machine.map_set_of_eq Call.caller hcall rfl
  | finish i call ha hcall hstage ht => exact absurd ha (hfinish i)

end Scheduler

end Contentv1
