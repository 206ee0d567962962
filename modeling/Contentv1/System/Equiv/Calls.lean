import Contentv1.System.Equiv.System
import Contentv1.Scheduler.Equiv.SchedulerCalls

/-!
# Every call comes back

`calls_return`: as long as a worker waits for the scheduler, something can be delivered, and however
the deliveries follow one another there is only a bounded number of them.  Neither the scheduler nor
a worker is stopped by an exception meanwhile, and every record of the topic can be read.

`Matched` says why: a worker that waits has exactly one message in flight or one call at the
scheduler, and one that does not wait has none.
-/

namespace Contentv1.System

open FetchPages (JobInfo SaveOutcome)
open SchedulerRpc (Msg)

variable {env : Env} {start : Start env} {s t : State env}

/-! ### What belongs to a worker -/

/-- The message belongs to a call of `tryFetchUrls` by worker `w`. -/
def isAsk (w : ℕ) : Msg → Bool
  | .tryFetchRequest v _ | .tryFetchReply v _ => v == w
  | _ => false

/-- The message belongs to a call of `onFetched` by worker `w`. -/
def isReport (w : ℕ) : Msg → Bool
  | .onFetchedRequest v _ | .onFetchedReply v => v == w
  | _ => false

/-- The calls of `onFetched` by worker `w`, in flight and at the scheduler. -/
def State.reporting (s : State env) (w : ℕ) : ℕ :=
  s.net.countP (isReport w) + (s.sched.calls.map Scheduler.Call.caller).count w

/-- The message is about the cut that its worker has asked for. -/
def Fits (env : Env) (workers : ℕ → Worker.State) : Msg → Prop
  | .tryFetchRequest w tryUrls => w < env.workerCount ∧ tryUrls = (workers w).tryUrls env.fetch
  | .tryFetchReply w allowedUrls =>
    w < env.workerCount ∧ allowedUrls.Subperm ((workers w).tryUrls env.fetch)
  | .onFetchedRequest w _ | .onFetchedReply w => w < env.workerCount

structure Matched (s : State env) : Prop where
  asks : ∀ w, s.net.countP (isAsk w) = (s.workers w).asking.toNat
  reports : ∀ w, s.reporting w = (s.workers w).responding.isSome.toNat
  fits : ∀ msg ∈ s.net, Fits env s.workers msg
  callers : ∀ w ∈ s.sched.calls.map Scheduler.Call.caller, w < env.workerCount
  waits : ∀ w, (s.workers w).asking = true →
    ∃ a, (s.workers w).fetch.mergeTh = .sending a ∧ a.empty = false

theorem matched_init (start : Start env) : Matched (.init start) where
  asks _ := rfl
  reports _ := rfl
  fits _ h := absurd h List.not_mem_nil
  callers _ h := absurd h List.not_mem_nil
  waits _ h := absurd h Bool.false_ne_true

/-! ### Steps of a worker -/

section Worker

variable {worker worker' : Worker.State}

/-- What a step leaves of a worker's calls and of the cut that it asks for. -/
structure SameCalls (env : FetchLoop.Env) (worker worker' : Worker.State) : Prop where
  asking : worker'.asking = worker.asking
  responding : worker'.responding = worker.responding
  mergeTh : worker.asking = true → worker'.fetch.mergeTh = worker.fetch.mergeTh

theorem SameCalls.tryUrls {env : FetchLoop.Env} (h : SameCalls env worker worker')
    (hasking : worker.asking = true) : worker'.tryUrls env = worker.tryUrls env := by
  unfold Worker.State.tryUrls
  rw [h.mergeTh hasking]

theorem sameCalls_of_read {gfq : GFQRecord}
    (h : Worker.read env.fetch worker gfq = some worker') : SameCalls env.fetch worker worker' := by
  obtain rfl := Worker.read_eq_some.mp h
  exact ⟨rfl, rfl, fun _ => rfl⟩

/-- The thread that waits for an answer takes no step. -/
theorem sameCalls_of_mergeStep {a : FetchLoop.Label}
    (hwaits : worker.asking = true → ∃ a, worker.fetch.mergeTh = .sending a ∧ a.empty = false)
    (h : Worker.mergeStep env.fetch worker a = some worker') :
    SameCalls env.fetch worker worker' := by
  obtain ⟨hmerge, fetch, hfetch, rfl⟩ := Worker.mergeStep_eq_some.mp h
  refine ⟨rfl, rfl, fun hasking => ?_⟩
  obtain ⟨batch, hth, hempty⟩ := hwaits hasking
  cases a with
  | startRound =>
    obtain ⟨hidle, -⟩ := FetchLoop.step_startRound.mp hfetch
    rw [hth] at hidle
    cases hidle
  | accEvent i =>
    obtain ⟨_, _, hdraining, -⟩ := FetchLoop.step_accEvent.mp hfetch
    rw [hth] at hdraining
    cases hdraining
  | drained =>
    obtain ⟨_, hdraining, -⟩ := FetchLoop.step_drained.mp hfetch
    rw [hth] at hdraining
    cases hdraining
  | sent =>
    obtain ⟨a, hsending, hsent, -⟩ := FetchLoop.step_sent.mp hfetch
    rw [hth] at hsending
    cases hsending
    rw [hempty] at hsent
    cases hsent
  | _ => cases hmerge

end Worker

/-! ### Steps of the crawler -/

theorem isAsk_of_endsAsk {w : ℕ} {msg : Msg} {allowedUrls : List GFQRecord} {lost : List Msg}
    (h : EndsAsk w msg allowedUrls lost) (v : ℕ) :
    isAsk v msg = (w == v) ∧ isReport v msg = false := by
  cases h <;> exact ⟨rfl, rfl⟩

theorem isReport_of_endsReport {w : ℕ} {msg : Msg} {lost : List Msg} (h : EndsReport w msg lost)
    (v : ℕ) : isAsk v msg = false ∧ isReport v msg = (w == v) := by
  cases h <;> exact ⟨rfl, rfl⟩

/-- A message of a call of `tryFetchUrls` means that its worker waits. -/
theorem Matched.asking {w : ℕ} {msg : Msg} (hs : Matched s) (hmem : msg ∈ s.net)
    (hasks : isAsk w msg = true) : (s.workers w).asking = true := by
  have hpos : 0 < s.net.countP (isAsk w) := List.countP_pos_iff.mpr ⟨msg, hmem, hasks⟩
  rw [hs.asks w] at hpos
  cases hasking : (s.workers w).asking with
  | true => rfl
  | false =>
    rw [hasking] at hpos
    cases hpos

/-- What fits goes on to do so while its worker is asking for the same cut. -/
theorem fits_update {workers : ℕ → Worker.State} {w : ℕ} {worker : Worker.State} {msg : Msg}
    (h : Fits env workers msg) (hsame : isAsk w msg = true →
      worker.tryUrls env.fetch = (workers w).tryUrls env.fetch) :
    Fits env (Function.update workers w worker) msg := by
  cases msg with
  | tryFetchRequest v tryUrls =>
    refine ⟨h.1, ?_⟩
    show tryUrls = (Function.update workers w worker v).tryUrls env.fetch
    by_cases hv : v = w
    · subst hv
      rw [Function.update_self, hsame (beq_self_eq_true v)]
      exact h.2
    · rw [Function.update_of_ne hv]
      exact h.2
  | tryFetchReply v allowedUrls =>
    refine ⟨h.1, ?_⟩
    show allowedUrls.Subperm ((Function.update workers w worker v).tryUrls env.fetch)
    by_cases hv : v = w
    · subst hv
      rw [Function.update_self, hsame (beq_self_eq_true v)]
      exact h.2
    · rw [Function.update_of_ne hv]
      exact h.2
  | onFetchedRequest v results => exact h
  | onFetchedReply v => exact h

/-- A step of one worker and of the messages: what is to be checked is about this worker. -/
theorem Matched.update {w : ℕ} {worker : Worker.State} {net lost : List Msg} (hs : Matched s)
    (hasks : net.countP (isAsk w) = worker.asking.toNat)
    (hreports : net.countP (isReport w)
      + (s.sched.calls.map Scheduler.Call.caller).count w = worker.responding.isSome.toNat)
    (hothers : ∀ v ≠ w, net.countP (isAsk v) = s.net.countP (isAsk v) ∧
      net.countP (isReport v) = s.net.countP (isReport v))
    (hfits : ∀ msg ∈ net, Fits env (Function.update s.workers w worker) msg)
    (hwaits : worker.asking = true →
      ∃ a, worker.fetch.mergeTh = .sending a ∧ a.empty = false) :
    Matched { s with
      workers := Function.update s.workers w worker, net := net, lost := lost } := by
  refine ⟨fun v => ?_, fun v => ?_, hfits, hs.callers, ?_⟩
  · show net.countP (isAsk v) = (Function.update s.workers w worker v).asking.toNat
    by_cases hv : v = w
    · subst hv
      rw [Function.update_self]
      exact hasks
    · rw [Function.update_of_ne hv, (hothers v hv).1]
      exact hs.asks v
  · show net.countP (isReport v) + (s.sched.calls.map Scheduler.Call.caller).count v
      = (Function.update s.workers w worker v).responding.isSome.toNat
    by_cases hv : v = w
    · subst hv
      rw [Function.update_self]
      exact hreports
    · rw [Function.update_of_ne hv, (hothers v hv).2]
      exact hs.reports v
  · show ∀ v, (Function.update s.workers w worker v).asking = true →
      ∃ a, (Function.update s.workers w worker v).fetch.mergeTh = .sending a ∧ a.empty = false
    rw [Function.forall_update_iff s.workers fun _ worker => worker.asking = true →
      ∃ a, worker.fetch.mergeTh = .sending a ∧ a.empty = false]
    exact ⟨hwaits, fun v _ => hs.waits v⟩

/-- A step of a worker that leaves its calls as they are. -/
theorem Matched.sameCalls {w : ℕ} {worker : Worker.State} (hs : Matched s)
    (h : SameCalls env.fetch (s.workers w) worker) :
    Matched { s with workers := Function.update s.workers w worker } := by
  refine hs.update ?_ ?_ (fun v _ => ⟨rfl, rfl⟩) (fun msg hmsg => ?_) fun hasking => ?_
  · rw [h.asking]
    exact hs.asks w
  · rw [h.responding]
    exact hs.reports w
  · exact fits_update (hs.fits msg hmsg) fun hasks => h.tryUrls (hs.asking hmsg hasks)
  · rw [h.asking] at hasking
    rw [h.mergeTh hasking]
    exact hs.waits w hasking

theorem countP_append_singleton (p : Msg → Bool) (net : List Msg) (msg : Msg) :
    (net ++ [msg]).countP p = net.countP p + if p msg then 1 else 0 := by
  rw [List.countP_append, List.countP_singleton]

theorem Matched.ask {w : ℕ} {worker : Worker.State} (hs : Matched s) (hw : w < env.workerCount)
    (h : Worker.ask (s.workers w) = some worker) :
    Matched { s with
      workers := Function.update s.workers w worker
      net := s.net ++ [.tryFetchRequest w ((s.workers w).tryUrls env.fetch)] } := by
  obtain ⟨a, hth, hasking, hempty, rfl⟩ := Worker.ask_eq_some.mp h
  have hcount := hs.asks w
  rw [hasking] at hcount
  refine hs.update ?_ ?_ (fun v hv => ?_) (fun msg hmsg => ?_) fun _ => ⟨a, hth, hempty⟩
  · rw [countP_append_singleton, hcount, isAsk, beq_self_eq_true]
    rfl
  · rw [countP_append_singleton]
    exact hs.reports w
  · rw [countP_append_singleton, countP_append_singleton, isAsk, beq_false_of_ne (Ne.symm hv)]
    exact ⟨rfl, rfl⟩
  · rcases List.mem_append.mp hmsg with hmsg | hmsg
    · -- no message of the worker was in flight
      refine fits_update (hs.fits msg hmsg) fun hasks => ?_
      have hyes := hs.asking hmsg hasks
      rw [hasking] at hyes
      cases hyes
    · rw [List.mem_singleton.mp hmsg]
      refine ⟨hw, ?_⟩
      rw [Function.update_self]
      rfl

theorem Matched.respond {w i : ℕ} {ji : JobInfo} {worker : Worker.State} (hs : Matched s)
    (hw : w < env.workerCount)
    (h : Worker.respond env.fetch (s.workers w) i ji = some worker) :
    Matched { s with
      workers := Function.update s.workers w worker
      net := s.net ++ [.onFetchedRequest w [ji.result]] } := by
  obtain ⟨hresponding, fetch, hfetch, rfl⟩ := Worker.respond_eq_some.mp h
  obtain ⟨gfq, -, rfl⟩ := FetchLoop.step_onResponse.mp hfetch
  have hcount := hs.reports w
  rw [hresponding] at hcount
  refine hs.update ?_ ?_ (fun v hv => ?_) (fun msg hmsg => ?_) (hs.waits w)
  · rw [countP_append_singleton]
    exact hs.asks w
  · rw [countP_append_singleton, isReport, beq_self_eq_true]
    unfold State.reporting at hcount
    simp only [Option.isSome_none, Bool.toNat_false, Option.isSome_some, Bool.toNat_true,
      if_true] at hcount ⊢
    omega
  · rw [countP_append_singleton, countP_append_singleton, isReport,
      beq_false_of_ne (Ne.symm hv)]
    exact ⟨rfl, rfl⟩
  · rcases List.mem_append.mp hmsg with hmsg | hmsg
    · exact fits_update (hs.fits msg hmsg) fun _ => rfl
    · rw [List.mem_singleton.mp hmsg]
      exact hw

/-- The answer to the one question that the worker has asked. -/
theorem Matched.answer {w i : ℕ} {msg : Msg} {allowedUrls : List GFQRecord} {lost : List Msg}
    {worker : Worker.State} (hs : Matched s) (hmsg : s.net[i]? = some msg)
    (hends : EndsAsk w msg allowedUrls lost)
    (h : Worker.answer env.fetch (s.workers w) allowedUrls = some worker) :
    Matched { s with
      net := s.net.eraseIdx i
      workers := Function.update s.workers w worker
      lost := s.lost ++ lost } := by
  obtain ⟨hasking, fetch, hfetch, rfl⟩ := Worker.answer_eq_some.mp h
  have hmine := isAsk_of_endsAsk hends
  have hasks := fun v => Machine.countP_eraseIdx (isAsk v) hmsg
  have hreports := fun v => Machine.countP_eraseIdx (isReport v) hmsg
  -- there is no other message of it
  have hnone : (s.net.eraseIdx i).countP (isAsk w) = 0 := by
    have hone := hasks w
    rw [hs.asks w, hasking, (hmine w).1, beq_self_eq_true] at hone
    simpa using hone
  refine hs.update hnone ?_ (fun v hv => ⟨?_, ?_⟩) (fun msg' hmsg' => ?_) fun hno => ?_
  · have hsame := hreports w
    rw [(hmine w).2, if_neg Bool.false_ne_true, Nat.zero_add] at hsame
    rw [← hsame]
    exact hs.reports w
  · have hsame := hasks v
    rw [(hmine v).1, beq_false_of_ne (Ne.symm hv), if_neg Bool.false_ne_true,
      Nat.zero_add] at hsame
    exact hsame.symm
  · have hsame := hreports v
    rw [(hmine v).2, if_neg Bool.false_ne_true, Nat.zero_add] at hsame
    exact hsame.symm
  · refine fits_update (hs.fits msg' (List.eraseIdx_subset hmsg')) fun hyes => ?_
    exact absurd hyes (List.countP_eq_zero.mp hnone msg' hmsg')
  · cases hno

theorem Matched.reported {w i : ℕ} {msg : Msg} {lost : List Msg} {save : SaveOutcome}
    {worker : Worker.State} (hs : Matched s) (hmsg : s.net[i]? = some msg)
    (hends : EndsReport w msg lost)
    (h : Worker.reported (s.workers w) save = some worker) :
    Matched { s with
      net := s.net.eraseIdx i
      workers := Function.update s.workers w worker
      lost := s.lost ++ lost } := by
  obtain ⟨ji, hji, rfl⟩ := Worker.reported_eq_some.mp h
  have hmine := isReport_of_endsReport hends
  have hasks := fun v => Machine.countP_eraseIdx (isAsk v) hmsg
  have hreports := fun v => Machine.countP_eraseIdx (isReport v) hmsg
  have hsame : ∀ v, s.net.countP (isAsk v) = (s.net.eraseIdx i).countP (isAsk v) := by
    intro v
    have hv := hasks v
    rwa [(hmine v).1, if_neg Bool.false_ne_true, Nat.zero_add] at hv
  refine hs.update ?_ ?_ (fun v hv => ⟨(hsame v).symm, ?_⟩) (fun msg' hmsg' => ?_) (hs.waits w)
  · rw [← hsame w]
    exact hs.asks w
  · have hone := hs.reports w
    unfold State.reporting at hone
    rw [hreports w, (hmine w).2, beq_self_eq_true, if_pos rfl, hji] at hone
    simp only [Option.isSome_some, Bool.toNat_true, Option.isSome_none,
      Bool.toNat_false] at hone ⊢
    omega
  · have hv' := hreports v
    rw [(hmine v).2, beq_false_of_ne (Ne.symm hv), if_neg Bool.false_ne_true,
      Nat.zero_add] at hv'
    exact hv'.symm
  · exact fits_update (hs.fits msg' (List.eraseIdx_subset hmsg')) fun _ => rfl

/-- A request that `HostDb` answers. -/
theorem Matched.serveTryFetch {i w : ℕ} {tryUrls allowedUrls : List GFQRecord}
    {sched : Scheduler.State env.sched ℕ} (hs : Matched s)
    (hmsg : s.net[i]? = some (.tryFetchRequest w tryUrls))
    (hsub : allowedUrls.Sublist tryUrls) (hcalls : sched.calls = s.sched.calls) :
    Matched { s with
      sched := sched, net := s.net.eraseIdx i ++ [.tryFetchReply w allowedUrls] } := by
  have hasks := fun v => Machine.countP_eraseIdx (isAsk v) hmsg
  have hreports := fun v => Machine.countP_eraseIdx (isReport v) hmsg
  refine ⟨fun v => ?_, fun v => ?_, fun msg hmem => ?_, ?_, hs.waits⟩
  · have hcount := hs.asks v
    dsimp only
    rw [hasks v] at hcount
    rw [countP_append_singleton, Nat.add_comm]
    exact hcount
  · have hcount := hs.reports v
    unfold State.reporting at hcount ⊢
    dsimp only
    rw [hreports v] at hcount
    rw [hcalls, countP_append_singleton, Nat.add_comm (List.countP _ _)]
    exact hcount
  · rcases List.mem_append.mp hmem with hmem | hmem
    · exact hs.fits msg (List.eraseIdx_subset hmem)
    · rw [List.mem_singleton.mp hmem]
      obtain ⟨hw, rfl⟩ := hs.fits _ (List.mem_of_getElem? hmsg)
      exact ⟨hw, hsub.subperm⟩
  · dsimp only
    rw [hcalls]
    exact hs.callers

/-- A request that `onFetched` takes. -/
theorem Matched.serveOnFetched {i w : ℕ} {results : List FetchResult} {stage : Scheduler.Stage}
    (hs : Matched s) (hmsg : s.net[i]? = some (.onFetchedRequest w results)) :
    Matched { s with
      sched := { s.sched with calls := s.sched.calls ++ [⟨w, results, stage⟩] }
      net := s.net.eraseIdx i } := by
  have hasks := fun v => Machine.countP_eraseIdx (isAsk v) hmsg
  have hreports := fun v => Machine.countP_eraseIdx (isReport v) hmsg
  refine ⟨fun v => ?_, fun v => ?_, fun msg hmem => ?_, fun v hv => ?_, hs.waits⟩
  · have hno : isAsk v (.onFetchedRequest w results) = false := rfl
    have hcount := hs.asks v
    rw [hasks v, hno, if_neg Bool.false_ne_true, Nat.zero_add] at hcount
    exact hcount
  · have hcount := hs.reports v
    unfold State.reporting at hcount ⊢
    dsimp only
    rw [hreports v, isReport] at hcount
    rw [List.map_append, List.count_append, ← hcount]
    show _ + (_ + List.count v [w]) = _
    rw [List.count_singleton]
    omega
  · exact hs.fits msg (List.eraseIdx_subset hmem)
  · dsimp only at hv
    rw [List.map_append] at hv
    rcases List.mem_append.mp hv with hv | hv
    · exact hs.callers v hv
    · rw [List.mem_singleton.mp hv]
      exact hs.fits _ (List.mem_of_getElem? hmsg)

/-- A call that has returned becomes a reply. -/
theorem Matched.reply {i : ℕ} {call : Scheduler.Call ℕ} (hs : Matched s)
    (hcall : s.sched.calls[i]? = some call) :
    Matched { s with
      sched := { s.sched with calls := s.sched.calls.eraseIdx i }
      net := s.net ++ [.onFetchedReply call.caller] } := by
  have hperm := (Machine.perm_cons_eraseIdx hcall).map Scheduler.Call.caller
  refine ⟨fun v => ?_, fun v => ?_, fun msg hmem => ?_, fun v hv => ?_, hs.waits⟩
  · dsimp only
    rw [countP_append_singleton]
    exact hs.asks v
  · have hcount := hs.reports v
    unfold State.reporting at hcount ⊢
    dsimp only
    rw [hperm.count_eq v, List.map_cons, List.count_cons] at hcount
    rw [countP_append_singleton, isReport, ← hcount]
    omega
  · rcases List.mem_append.mp hmem with hmem | hmem
    · exact hs.fits msg hmem
    · rw [List.mem_singleton.mp hmem]
      exact hs.callers call.caller (List.mem_map_of_mem (List.mem_of_getElem? hcall))
  · exact hs.callers v (hperm.mem_iff.mpr (List.mem_cons_of_mem _ hv))

theorem matched_step {a : Label} (hstep : step s a = some t) (hs : Matched s) : Matched t := by
  cases effect_of_step hstep with
  | sched a sched hown h ht =>
    subst ht
    have hcallers := Scheduler.callers_step h (by rintro _ _ rfl; cases hown)
      (by rintro _ rfl; cases hown)
    refine ⟨hs.asks, fun w => ?_, hs.fits, ?_, hs.waits⟩
    · show s.net.countP (isReport w) + (sched.calls.map Scheduler.Call.caller).count w = _
      rw [hcallers]
      exact hs.reports w
    · show ∀ w ∈ sched.calls.map Scheduler.Call.caller, _
      rw [hcallers]
      exact hs.callers
  | readKafka w hw dump gfq worker hdump hgfq h ht =>
    subst ht
    exact hs.sameCalls (sameCalls_of_read h)
  | merge w hw a worker h ht =>
    subst ht
    exact hs.sameCalls (sameCalls_of_mergeStep (hs.waits w) h)
  | ask w hw worker h ht =>
    subst ht
    exact hs.ask hw h
  | respond w hw i ji worker hclient h ht =>
    subst ht
    exact hs.respond hw h
  | serveTryFetch i w tryUrls now hmsg hnow ht =>
    subst ht
    refine hs.serveTryFetch hmsg ?_ rfl
    have hsub := HostDb.allowed_tryCrawl_sublist env.sched.rounds.contribs s.sched.rounds.hostDb
      (tryUrls.zip now)
    rwa [List.map_fst_zip hnow.ge] at hsub
  | serveOnFetched i w results hmsg ht =>
    subst ht
    exact hs.serveOnFetched hmsg
  | reply i call hcall hstage ht =>
    subst ht
    exact hs.reply hcall
  | answer i w hw msg allowedUrls lost worker hmsg hends h ht =>
    subst ht
    exact hs.answer hmsg hends h
  | reported i w hw msg lost save worker hmsg hends h ht =>
    subst ht
    exact hs.reported hmsg hends h

/-! ### Deliveries -/

/-- The labels that bring a call nearer to its end. -/
def Label.delivers : Label → Bool
  | .sched (.advance _ _) | .serve _ _ | .reply _ | .receive _ _ | .lose _ _ => true
  | _ => false

/-- The deliveries that a message may still lead to. -/
def weight : Msg → ℕ
  | .tryFetchRequest _ _ => 2
  | .tryFetchReply _ _ | .onFetchedReply _ => 1
  | .onFetchedRequest _ results => 3 + Scheduler.Stage.left results .urlDb

/-- The deliveries that a call may still lead to. -/
def callWeight (call : Scheduler.Call ℕ) : ℕ := 2 + call.stage.left call.results

/-- A bound on the deliveries to come. -/
def State.pending (s : State env) : ℕ :=
  (s.net.map weight).sum + (s.sched.calls.map callWeight).sum

theorem weight_pos (msg : Msg) : 0 < weight msg := by
  cases msg <;> simp [weight]

/-- The end of a call sends nothing. -/
theorem pending_endCall {save : SaveOutcome} {msg : Msg} (h : s.endCall save msg = some t) :
    t.pending = s.pending := by
  cases msg with
  | tryFetchReply w allowedUrls =>
    rw [State.endCall] at h
    obtain ⟨-, worker, -, rfl⟩ := setWorker_eq_some.mp h
    rfl
  | onFetchedReply w =>
    rw [State.endCall] at h
    obtain ⟨-, worker, -, rfl⟩ := setWorker_eq_some.mp h
    rfl
  | tryFetchRequest w tryUrls => cases h
  | onFetchedRequest w results => cases h

/-- A delivery leaves fewer deliveries to come. -/
theorem pending_step {a : Label} (h : step s a = some t) (ha : a.delivers = true) :
    t.pending < s.pending := by
  cases a with
  | sched a =>
    obtain ⟨-, h⟩ := Option.ite_none_right_eq_some.mp h
    obtain ⟨sched, hsched, rfl⟩ := Option.map_eq_some_iff.mp h
    cases a with
    | advance i now =>
      obtain ⟨call, r, hcall, hr, rfl⟩ := Scheduler.step_advance.mp hsched
      have hleft := Scheduler.left_lt_of_advance hr
      have hsum := Machine.sum_map_eraseIdx callWeight hcall
      have hset := Machine.sum_map_set callWeight hcall { call with stage := r.2 }
      unfold State.pending
      dsimp only
      unfold callWeight at hsum hset ⊢
      dsimp only at hsum hset
      omega
    | _ => cases ha
  | serve i now =>
    obtain ⟨-, h⟩ := Option.ite_none_right_eq_some.mp h
    rcases hmsg : s.net[i]? with _ | ⟨w, tryUrls⟩ | _ | ⟨w, results⟩ | _ <;> rw [hmsg] at h
    · cases h
    · dsimp only at h
      split_ifs at h
      obtain rfl := Option.some.inj h
      -- the reply weighs less than the request
      have hsum := Machine.sum_map_eraseIdx weight hmsg
      unfold State.pending
      simp only [List.map_append, List.map_cons, List.map_nil, List.sum_append, List.sum_cons,
        List.sum_nil, weight] at hsum ⊢
      show _ + (List.map callWeight s.sched.calls).sum < _
      omega
    · cases h
    · obtain rfl := Option.some.inj h
      have hsum := Machine.sum_map_eraseIdx weight hmsg
      unfold State.pending
      simp only [List.map_append, List.map_cons, List.map_nil, List.sum_append, List.sum_cons,
        List.sum_nil, weight, callWeight] at hsum ⊢
      omega
    · cases h
  | reply i =>
    obtain ⟨call, hcall, h⟩ := Option.bind_eq_some_iff.mp h
    obtain ⟨sched, hsched, rfl⟩ := Option.map_eq_some_iff.mp h
    obtain ⟨call', hcall', -, rfl⟩ := Scheduler.step_finish.mp hsched
    have hsum := Machine.sum_map_eraseIdx callWeight hcall
    unfold State.pending
    simp only [List.map_append, List.map_cons, List.map_nil, List.sum_append, List.sum_cons,
      List.sum_nil, weight, callWeight] at hsum ⊢
    omega
  | receive i save =>
    obtain ⟨msg, hmsg, h⟩ := Option.bind_eq_some_iff.mp h
    have hsum := Machine.sum_map_eraseIdx weight hmsg
    have hpos := weight_pos msg
    rw [pending_endCall h]
    unfold State.pending
    dsimp only
    omega
  | lose i save =>
    obtain ⟨msg, hmsg, h⟩ := Option.bind_eq_some_iff.mp h
    have hsum := Machine.sum_map_eraseIdx weight hmsg
    have hpos := weight_pos msg
    rw [pending_endCall h]
    unfold State.pending
    dsimp only
    omega
  | _ => cases ha

/-! ### Nothing is stuck -/

theorem isSome_setWorker {w : ℕ} {f : Worker.State → Option Worker.State} {worker : Worker.State}
    (hw : w < env.workerCount) (hf : f (s.workers w) = some worker) :
    (s.setWorker w f).isSome = true := by
  rw [State.setWorker, if_pos hw, hf]
  rfl

/-- A worker that has asked can take any part of its cut as the answer. -/
theorem Matched.exists_answer (hs : Matched s) {w : ℕ} {msg : Msg} (hmem : msg ∈ s.net)
    (hasks : isAsk w msg = true) {allowedUrls : List GFQRecord}
    (hsub : allowedUrls.Subperm ((s.workers w).tryUrls env.fetch)) :
    ∃ worker, Worker.answer env.fetch (s.workers w) allowedUrls = some worker := by
  have hasking := hs.asking hmem hasks
  obtain ⟨a, hth, hempty⟩ := hs.waits w hasking
  have htry : (s.workers w).tryUrls env.fetch = (a.getReqs env.fetch.maxRequestsInBatch).2 := by
    rw [Worker.State.tryUrls, hth]
  rw [htry] at hsub
  have hfetch := FetchLoop.step_tryFetchUrls.mpr ⟨a, hth, hempty, hsub, rfl⟩
  exact ⟨_, Worker.answer_eq_some.mpr ⟨hasking, _, hfetch, rfl⟩⟩

theorem Matched.exists_reported (hs : Matched s) {w : ℕ} {msg : Msg} (hmem : msg ∈ s.net)
    (hreports : isReport w msg = true) :
    ∃ worker, Worker.reported (s.workers w) .returned = some worker := by
  have hpos : 0 < s.reporting w := by
    have hone : 0 < s.net.countP (isReport w) := List.countP_pos_iff.mpr ⟨msg, hmem, hreports⟩
    unfold State.reporting
    omega
  rw [hs.reports w] at hpos
  cases hresponding : (s.workers w).responding with
  | none =>
    rw [hresponding] at hpos
    cases hpos
  | some ji => exact ⟨_, Worker.reported_eq_some.mpr ⟨ji, hresponding, rfl⟩⟩

/-- A message in flight can be delivered or, while the scheduler cannot be called, be lost. -/
theorem Matched.exists_deliver_msg (hs : Matched s) {msg : Msg} (hmem : msg ∈ s.net) :
    ∃ a, a.delivers = true ∧ (step s a).isSome = true := by
  obtain ⟨i, hmsg⟩ := List.mem_iff_getElem?.mp hmem
  have hfits := hs.fits msg hmem
  cases msg with
  | tryFetchRequest w tryUrls =>
    by_cases hfill : s.sched.load.toFill = []
    · refine ⟨.serve i (List.replicate tryUrls.length (.at 0)), rfl, ?_⟩
      rw [step, if_pos hfill, hmsg]
      dsimp only
      rw [if_pos List.length_replicate]
      rfl
    · obtain ⟨worker, hanswer⟩ :=
        hs.exists_answer hmem (beq_self_eq_true w) (List.nil_subperm (l := _))
      refine ⟨.lose i .returned, rfl, ?_⟩
      rw [step, hmsg, Option.bind_some, onLoss, State.endCall]
      exact isSome_setWorker hfits.1 hanswer
  | onFetchedRequest w results =>
    by_cases hfill : s.sched.load.toFill = []
    · refine ⟨.serve i [], rfl, ?_⟩
      rw [step, if_pos hfill, hmsg]
      rfl
    · obtain ⟨worker, hreported⟩ := hs.exists_reported hmem (beq_self_eq_true w)
      refine ⟨.lose i .returned, rfl, ?_⟩
      rw [step, hmsg, Option.bind_some, onLoss, State.endCall]
      exact isSome_setWorker hfits hreported
  | tryFetchReply w allowedUrls =>
    obtain ⟨worker, hanswer⟩ := hs.exists_answer hmem (beq_self_eq_true w) hfits.2
    refine ⟨.receive i .returned, rfl, ?_⟩
    rw [step, hmsg, Option.bind_some, State.endCall]
    exact isSome_setWorker hfits.1 hanswer
  | onFetchedReply w =>
    obtain ⟨worker, hreported⟩ := hs.exists_reported hmem (beq_self_eq_true w)
    refine ⟨.receive i .returned, rfl, ?_⟩
    rw [step, hmsg, Option.bind_some, State.endCall]
    exact isSome_setWorker hfits hreported

/-- A call at the scheduler can go on or be replied to. -/
theorem exists_deliver_call (hs : s.sched.rounds.urlDb.AllStored env.sched.rounds.misc)
    {call : Scheduler.Call ℕ} (hmem : call ∈ s.sched.calls) :
    ∃ a, a.delivers = true ∧ (step s a).isSome = true := by
  obtain ⟨i, hcall⟩ := List.mem_iff_getElem?.mp hmem
  by_cases hstage : call.stage = .returned
  · refine ⟨.reply i, rfl, ?_⟩
    have hfinish := Scheduler.step_finish.mpr ⟨call, hcall, hstage, rfl⟩
    rw [step, hcall, Option.bind_some, hfinish]
    rfl
  · obtain ⟨r, hr⟩ := Scheduler.exists_advance hs hstage 0
    refine ⟨.sched (.advance i 0), rfl, ?_⟩
    have hadvance := Scheduler.step_advance.mpr ⟨call, r, hcall, hr, rfl⟩
    have hown : ofScheduler (.advance i 0) = true := rfl
    rw [step, if_pos hown, hadvance]
    rfl

theorem allStored_step {a : Label} (hstep : step s a = some t)
    (hs : s.sched.rounds.urlDb.AllStored env.sched.rounds.misc) :
    t.sched.rounds.urlDb.AllStored env.sched.rounds.misc := by
  cases effect_of_step hstep with
  | sched a sched hown h ht =>
    subst ht
    exact Scheduler.allStored_step h hs
  | _ =>
    rename_i ht _
    subst ht
    exact hs

/-- The strings of the records in the topic are UTF-8, so every record can be read. -/
theorem exists_readKafka (hsourced : Scheduler.Sourced start.sched s.sched)
    (hutf8 : ∀ url, (UrlParsed.ofUrl env.sched.rounds.contribs url).ok = true →
      (UrlParsed.ofUrl env.sched.rounds.contribs url).normalized.IsValidUTF8 ∧
        (UrlParsed.ofUrl env.sched.rounds.contribs url).robots.IsValidUTF8)
    (htopic : ∀ gfq ∈ start.sched.topic, gfq.url.IsValidUTF8) {w i : ℕ}
    (hw : w < env.workerCount) (hi : i < s.sched.topic.length) :
    (step s (.readKafka w i)).isSome = true := by
  obtain ⟨gfq, hdump, hsource⟩ := hsourced.topic s.sched.topic[i] (List.getElem_mem hi)
  have hvalid : gfq.url.IsValidUTF8 := by
    rcases hsource with hgfq | ⟨u, -, hok, hurl | hurl⟩
    · exact htopic gfq hgfq
    · exact hurl ▸ (hutf8 u hok).1
    · exact hurl ▸ (hutf8 u hok).2
  have hread : GFQRecord.ofDump env.sched.pb s.sched.topic[i] = .ok gfq := by
    rw [← hdump, GFQRecord.ofDump_dump, if_pos hvalid]
  rw [step, List.getElem?_eq_getElem hi, Option.bind_some, hread]
  exact isSome_setWorker hw (Worker.read_eq_some.mpr rfl)

theorem sourced_step (hlimit : ∀ v n, env.sched.rounds.limitVector v n ⊆ v) {a : Label}
    (hstep : step s a = some t) (hs : Scheduler.Sourced start.sched s.sched) :
    Scheduler.Sourced start.sched t.sched := by
  cases effect_of_step hstep with
  | sched a sched hown h ht =>
    subst ht
    exact Scheduler.sourced_step hlimit h hs
  | _ =>
    rename_i ht _
    subst ht
    exact hs.of_eq rfl (List.Subset.refl _) (List.Subset.refl _) rfl

/-- **Calls come back.**  In every state that a run leads to: a run of deliveries is no longer than
what is pending; while a worker waits for the scheduler, something can be delivered; and every
worker can read every record of the topic. -/
theorem calls_return (hlimit : ∀ v n, env.sched.rounds.limitVector v n ⊆ v)
    (hutf8 : ∀ url, (UrlParsed.ofUrl env.sched.rounds.contribs url).ok = true →
      (UrlParsed.ofUrl env.sched.rounds.contribs url).normalized.IsValidUTF8 ∧
        (UrlParsed.ofUrl env.sched.rounds.contribs url).robots.IsValidUTF8)
    (start : Start env) (htopic : ∀ gfq ∈ start.sched.topic, gfq.url.IsValidUTF8)
    (hattempts : start.sched.urlDb.AllStored env.sched.rounds.misc) {l : List Label}
    (hrun : Machine.run step (.init start) l = some s) :
    (∀ l' t, (∀ a ∈ l', a.delivers = true) → Machine.run step s l' = some t →
        l'.length ≤ s.pending) ∧
      (∀ w, (s.workers w).asking = true ∨ (s.workers w).responding.isSome = true →
        ∃ a, a.delivers = true ∧ (step s a).isSome = true) ∧
      ∀ w < env.workerCount, ∀ i < s.sched.topic.length,
        (step s (.readKafka w i)).isSome = true := by
  have hs : Matched s ∧ s.sched.rounds.urlDb.AllStored env.sched.rounds.misc ∧
      Scheduler.Sourced start.sched s.sched :=
    Machine.run_induction (P := fun s : State env => Matched s ∧
        s.sched.rounds.urlDb.AllStored env.sched.rounds.misc ∧
        Scheduler.Sourced start.sched s.sched)
      (fun _ _ _ h hs => ⟨matched_step h hs.1, allStored_step h hs.2.1,
        sourced_step hlimit h hs.2.2⟩) hrun
      ⟨matched_init start, hattempts, Scheduler.sourced_init start.sched⟩
  obtain ⟨hmatched, hstored, hsourced⟩ := hs
  refine ⟨fun l' t hl' ht => ?_, fun w hw => ?_, fun w hw i hi => ?_⟩
  · have hlength : l'.length + t.pending ≤ s.pending :=
      Machine.length_add_le_of_run (p := fun a : Label => a.delivers = true) (I := fun _ => True)
        (fun _ _ _ _ _ => trivial) (fun _ _ _ h _ ha => pending_step h ha) ht trivial hl'
    omega
  · rcases hw with hasking | hresponding
    · have hpos : 0 < s.net.countP (isAsk w) := by
        rw [hmatched.asks w, hasking]
        exact Nat.one_pos
      obtain ⟨msg, hmem, -⟩ := List.countP_pos_iff.mp hpos
      exact hmatched.exists_deliver_msg hmem
    · have hone := hmatched.reports w
      rw [hresponding] at hone
      unfold State.reporting at hone
      rcases Nat.eq_zero_or_pos (s.net.countP (isReport w)) with hzero | hpos
      · -- no message, so a call
        have hcalls : 0 < (s.sched.calls.map Scheduler.Call.caller).count w := by
          rw [hzero, Nat.zero_add] at hone
          rw [hone]
          exact Nat.one_pos
        obtain ⟨call, hcall, -⟩ := List.mem_map.mp (List.count_pos_iff.mp hcalls)
        exact exists_deliver_call hstored hcall
      · obtain ⟨msg, hmem, -⟩ := List.countP_pos_iff.mp hpos
        exact hmatched.exists_deliver_msg hmem
  · exact exists_readKafka hsourced hutf8 htopic hw hi

/-- A record is read, and the worker has just asked for it. -/
def askedFor : List Label :=
  visit (Str.ofString "http://a/x") ++
    enqueue (Str.ofString "http://a/x") [(Str.ofString "http://a/robots.txt", 1)] ++
    (ask 0).take 5

theorem calls_return_askedFor :
    ∃ s : State .plain, Machine.run step (.init .fresh) askedFor = some s ∧
      s.net.length = 1 ∧ ∃ a, a.delivers = true ∧ (step s a).isSome = true := by
  have hrun : ∃ s : State .plain, Machine.run step (.init .fresh) askedFor = some s ∧
      s.net.length = 1 ∧ (s.workers 0).asking = true := by
    decide +kernel
  obtain ⟨s, hs, hnet, hasking⟩ := hrun
  have hlimit : ∀ v n, Env.plain.sched.rounds.limitVector v n ⊆ v :=
    fun v n => List.take_subset n.toNat v
  have hattempts : Start.fresh.sched.urlDb.AllStored .nearEpoch := by
    intro url ca hca
    replace hca : (∅ : OrdMap Url CrawlAttempts)[url]? = some ca := hca
    rw [Std.ExtTreeMap.getElem?_empty] at hca
    cases hca
  have hreturn := calls_return hlimit utf8_of_plain .fresh (fun _ h => absurd h List.not_mem_nil)
    hattempts hs
  exact ⟨s, hs, hnet, hreturn.2.1 0 (Or.inl hasking)⟩

end Contentv1.System
