import Contentv1.Scheduler.RpcServer
import Mathlib.Data.List.Nodup
import Mathlib.Logic.Function.Basic

/-!
# The life cycle of the call objects

Of each method one object waits for a request, and an object that has got its request lives until
its reply has completed.  `HandleRpcs` skips an event that is not ok, and the event of a reply is
the only one that could make its object delete itself.

* `Inv`: what the statuses of the objects have to do with the operations, in every run.
* `along_lifecycle_iff_meets_answered`: the life cycle holds all along a run exactly if no reply
  completes with `ok` false.
-/

namespace Contentv1.SchedulerServer

variable {σ : Type} {sched : IScheduler σ} {s t : State σ}

/-- The object at the address waits for a request of the method. -/
def Armed (s : State σ) (m : Method) (tag : ℕ) : Prop :=
  Op.request tag ∈ s.pending ∧
    ∃ callData, s.callDatas[tag]? = some callData ∧ callData.request.method = m

/-- **The life cycle.**  One object of each method is armed, every accepted request was executed
once, and an object exists exactly if it is armed or its reply has not completed. -/
structure Lifecycle (s : State σ) : Prop where
  armed : ∀ m, ∃! tag, Armed s m tag
  executed : s.executed = s.accepted
  mem_iff : ∀ tag, tag ∈ s.callDatas ↔ Op.request tag ∈ s.pending ∨ Op.finish tag ∈ s.pending

/-- No reply completes without having been sent. -/
def Label.Answered : Label → Prop
  | .request _ _ => True
  | .reply _ ok => ok = true

instance : DecidablePred Label.Answered
  | .request _ _ => isTrue trivial
  | .reply _ _ => inferInstanceAs (Decidable (_ = _))

/-! ### The invariant -/

/-- The objects and the operations, with the address `a m` of the object of each method that is
armed. -/
structure Inv (a : Method → ℕ) (s : State σ) : Prop where
  nodup : s.pending.Nodup
  lt_nextTag : ∀ tag callData, s.callDatas[tag]? = some callData → tag < s.nextTag
  armed : ∀ m, ∃ callData, s.callDatas[a m]? = some callData ∧ callData.status = .process ∧
    callData.request.method = m
  request_mem_iff : ∀ tag, Op.request tag ∈ s.pending ↔ ∃ m, a m = tag
  finish_mem : ∀ tag, Op.finish tag ∈ s.pending →
    ∃ callData, s.callDatas[tag]? = some callData ∧ callData.status = .finish
  status : ∀ tag callData, s.callDatas[tag]? = some callData →
    callData.status = .finish ∨ ∃ m, a m = tag
  executed : s.executed = s.accepted

/-- Every object with its reply under way waits for the event. -/
def Awaited (s : State σ) : Prop :=
  ∀ tag callData, s.callDatas[tag]? = some callData → callData.status = .finish →
    Op.finish tag ∈ s.pending

theorem Inv.armed_iff {a : Method → ℕ} (hs : Inv a s) {m : Method} {tag : ℕ} :
    Armed s m tag ↔ tag = a m := by
  constructor
  · rintro ⟨hmem, callData, hget, hm⟩
    obtain ⟨m', rfl⟩ := (hs.request_mem_iff tag).mp hmem
    obtain ⟨callData', hget', -, hm'⟩ := hs.armed m'
    obtain rfl := Option.some.inj (hget.symm.trans hget')
    rw [← hm, ← hm']
  · rintro rfl
    obtain ⟨callData, hget, -, hm⟩ := hs.armed m
    exact ⟨(hs.request_mem_iff _).mpr ⟨m, rfl⟩, callData, hget, hm⟩

/-- Of the life cycle the invariant leaves open whether what is finishing is awaited. -/
theorem Inv.lifecycle_iff {a : Method → ℕ} (hs : Inv a s) : Lifecycle s ↔ Awaited s := by
  constructor
  · intro hlife tag callData hget hstatus
    have hmem : tag ∈ s.callDatas := Std.ExtTreeMap.mem_iff_isSome_getElem?.mpr (by simp [hget])
    rcases (hlife.mem_iff tag).mp hmem with hrequest | hfinish
    · obtain ⟨m, rfl⟩ := (hs.request_mem_iff tag).mp hrequest
      obtain ⟨callData', hget', hstatus', -⟩ := hs.armed m
      obtain rfl := Option.some.inj (hget.symm.trans hget')
      cases hstatus.symm.trans hstatus'
    · exact hfinish
  · intro hawaited
    refine ⟨fun m => ⟨a m, hs.armed_iff.mpr rfl, fun tag h => hs.armed_iff.mp h⟩, hs.executed,
      fun tag => ?_⟩
    rw [Std.ExtTreeMap.mem_iff_isSome_getElem?, Option.isSome_iff_exists]
    constructor
    · rintro ⟨callData, hget⟩
      rcases hs.status tag callData hget with hfinish | ⟨m, rfl⟩
      · exact Or.inr (hawaited tag callData hget hfinish)
      · exact Or.inl ((hs.request_mem_iff _).mpr ⟨m, rfl⟩)
    · rintro (hrequest | hfinish)
      · obtain ⟨m, rfl⟩ := (hs.request_mem_iff tag).mp hrequest
        obtain ⟨callData, hget, -⟩ := hs.armed m
        exact ⟨callData, hget⟩
      · obtain ⟨callData, hget, -⟩ := hs.finish_mem tag hfinish
        exact ⟨callData, hget⟩

/-! ### Steps -/

/-- What a request leads to: its object finishes with the reply, and another one is armed. -/
def afterRequest (sched : IScheduler σ) (s : State σ) (i tag : ℕ) (request : Request) :
    State σ where
  callDatas :=
    ((s.callDatas.insert tag ⟨request, .process⟩).insert s.nextTag
      ⟨.empty request.method, .process⟩).insert tag ⟨request, .finish⟩
  nextTag := s.nextTag + 1
  pending := s.pending.eraseIdx i ++ [.request s.nextTag] ++ [.finish tag]
  sched := (call sched s request).sched
  accepted := s.accepted ++ [request]
  executed := s.executed ++ [request]

theorem Inv.step_request {a : Method → ℕ} (hs : Inv a s) {i : ℕ} {request : Request}
    (h : step sched s (.request i request) = some t) :
    s.pending[i]? = some (.request (a request.method)) ∧
      t = afterRequest sched s i (a request.method) request := by
  unfold step at h
  dsimp only at h
  split at h
  · rename_i tag hop
    obtain ⟨m, rfl⟩ := (hs.request_mem_iff tag).mp (List.mem_of_getElem? hop)
    obtain ⟨⟨old, status⟩, hget, hstatus, hm⟩ := hs.armed m
    obtain rfl : status = .process := hstatus
    obtain rfl : old.method = m := hm
    rw [hget] at h
    dsimp only at h
    split_ifs at h with hmethod
    rw [← hmethod]
    refine ⟨hop, ?_⟩
    unfold handleRpc proceed at h
    rw [if_pos rfl, OrdMap.getElem?_insert, if_pos rfl, Option.map_some] at h
    exact (Option.some.inj h).symm
  · cases h

/-- What the completion of a reply leads to. -/
def afterReply (s : State σ) (i tag : ℕ) (ok : Bool) : State σ :=
  { s with
    callDatas := if ok then s.callDatas.erase tag else s.callDatas
    pending := s.pending.eraseIdx i }

theorem Inv.step_reply {a : Method → ℕ} (hs : Inv a s) {i : ℕ} {ok : Bool}
    (h : step sched s (.reply i ok) = some t) :
    ∃ tag, s.pending[i]? = some (.finish tag) ∧ t = afterReply s i tag ok := by
  unfold step at h
  dsimp only at h
  split at h
  · rename_i tag hop
    refine ⟨tag, hop, ?_⟩
    obtain ⟨⟨request, status⟩, hget, hstatus⟩ := hs.finish_mem tag (List.mem_of_getElem? hop)
    obtain rfl : status = .finish := hstatus
    unfold handleRpc proceed at h
    cases ok with
    | false => exact (Option.some.inj h).symm
    | true =>
      rw [if_pos rfl, hget, Option.map_some] at h
      exact (Option.some.inj h).symm
  · cases h

/-! ### What the invariant is kept by -/

theorem getElem?_afterRequest (i tag tag' : ℕ) (request : Request) :
    (afterRequest sched s i tag request).callDatas[tag']? =
      if tag = tag' then some ⟨request, .finish⟩
      else if s.nextTag = tag' then some ⟨.empty request.method, .process⟩
      else s.callDatas[tag']? := by
  unfold afterRequest
  dsimp only
  rw [OrdMap.getElem?_insert, OrdMap.getElem?_insert, OrdMap.getElem?_insert]
  split_ifs <;> rfl

theorem mem_afterRequest_iff {i tag : ℕ} {request : Request} (hnodup : s.pending.Nodup)
    (hop : s.pending[i]? = some (.request tag)) {op : Op} :
    op ∈ (afterRequest sched s i tag request).pending ↔
      (op ∈ s.pending ∧ op ≠ .request tag) ∨ op = .request s.nextTag ∨ op = .finish tag := by
  unfold afterRequest
  dsimp only
  rw [List.mem_append, List.mem_append, List.mem_singleton, List.mem_singleton,
    Machine.mem_eraseIdx_iff hnodup hop, or_assoc]

theorem getElem?_afterReply (i tag tag' : ℕ) (ok : Bool) :
    (afterReply s i tag ok).callDatas[tag']? =
      if ok ∧ tag = tag' then none else s.callDatas[tag']? := by
  unfold afterReply
  cases ok with
  | false => simp
  | true => simp [OrdMap.getElem?_erase]

namespace Inv

variable {a : Method → ℕ} (hs : Inv a s)
include hs

theorem lt_nextTag_armed (m : Method) : a m < s.nextTag := by
  obtain ⟨callData, hget, -⟩ := hs.armed m
  exact hs.lt_nextTag _ _ hget

theorem armed_injective : Function.Injective a := by
  intro m m' heq
  obtain ⟨callData, hget, -, rfl⟩ := hs.armed m
  obtain ⟨callData', hget', -, rfl⟩ := hs.armed m'
  rw [heq] at hget
  rw [Option.some.inj (hget.symm.trans hget')]

/-- An object that waits for a request has not sent a reply. -/
theorem finish_armed_not_mem (m : Method) : Op.finish (a m) ∉ s.pending := by
  intro hmem
  obtain ⟨callData, hget, hfinish⟩ := hs.finish_mem _ hmem
  obtain ⟨callData', hget', hprocess, -⟩ := hs.armed m
  obtain rfl := Option.some.inj (hget.symm.trans hget')
  cases hfinish.symm.trans hprocess

/-- No operation is one of an object that does not exist yet. -/
theorem tag_lt_nextTag {op : Op} (hmem : op ∈ s.pending) : op.tag < s.nextTag := by
  cases op with
  | request tag =>
    obtain ⟨m, rfl⟩ := (hs.request_mem_iff tag).mp hmem
    exact hs.lt_nextTag_armed m
  | finish tag =>
    obtain ⟨callData, hget, -⟩ := hs.finish_mem tag hmem
    exact hs.lt_nextTag _ _ hget

/-- A request moves the address that is armed to the new object. -/
theorem of_request {i : ℕ} {request : Request}
    (hop : s.pending[i]? = some (.request (a request.method))) :
    Inv (Function.update a request.method s.nextTag)
      (afterRequest sched s i (a request.method) request) := by
  have hlt := hs.lt_nextTag_armed
  have hmem : ∀ op, op ∈ (afterRequest sched s i (a request.method) request).pending ↔
      (op ∈ s.pending ∧ op ≠ .request (a request.method)) ∨ op = .request s.nextTag ∨
        op = .finish (a request.method) := fun op => mem_afterRequest_iff hs.nodup hop
  constructor
  case nodup =>
    have hnew : Op.request s.nextTag ∉ s.pending := fun h => (hs.tag_lt_nextTag h).ne rfl
    have herase : ∀ op ∈ s.pending.eraseIdx i, op ∈ s.pending := fun op =>
      List.mem_of_mem_eraseIdx
    show (s.pending.eraseIdx i ++ [Op.request s.nextTag]
      ++ [Op.finish (a request.method)]).Nodup
    rw [List.append_assoc, List.nodup_append]
    refine ⟨hs.nodup.eraseIdx i, by simp, ?_⟩
    rintro op hop' op' hop'' rfl
    rcases List.mem_cons.mp hop'' with rfl | hfinish
    · exact hnew (herase _ hop')
    · rw [List.mem_singleton.mp hfinish] at hop'
      exact hs.finish_armed_not_mem _ (herase _ hop')
  case lt_nextTag =>
    intro tag callData hget
    show tag < s.nextTag + 1
    rw [getElem?_afterRequest] at hget
    split_ifs at hget with htag hnew
    · have htag' := hlt request.method
      omega
    · omega
    · have htag' := hs.lt_nextTag tag callData hget
      omega
  case armed =>
    intro m
    by_cases hm : m = request.method
    · subst hm
      rw [Function.update_self, getElem?_afterRequest, if_neg (hlt _).ne, if_pos rfl]
      refine ⟨_, rfl, rfl, ?_⟩
      cases request <;> rfl
    · have hne : a request.method ≠ a m := fun h => hm (hs.armed_injective h).symm
      rw [Function.update_of_ne hm, getElem?_afterRequest, if_neg hne, if_neg (hlt m).ne']
      exact hs.armed m
  case request_mem_iff =>
    intro tag
    rw [hmem]
    constructor
    · rintro (⟨hold, hne⟩ | hnew | hfinish)
      · obtain ⟨m, rfl⟩ := (hs.request_mem_iff tag).mp hold
        have hm : m ≠ request.method := by
          rintro rfl
          exact hne rfl
        exact ⟨m, Function.update_of_ne hm _ _⟩
      · obtain rfl := Op.request.inj hnew
        exact ⟨request.method, Function.update_self ..⟩
      · cases hfinish
    · rintro ⟨m, rfl⟩
      by_cases hm : m = request.method
      · subst hm
        rw [Function.update_self]
        exact Or.inr (Or.inl rfl)
      · rw [Function.update_of_ne hm]
        refine Or.inl ⟨(hs.request_mem_iff _).mpr ⟨m, rfl⟩, fun h => hm ?_⟩
        exact hs.armed_injective (Op.request.inj h)
  case finish_mem =>
    intro tag hfinish
    rw [hmem] at hfinish
    rw [getElem?_afterRequest]
    rcases hfinish with ⟨hold, -⟩ | hnew | hsent
    · have hne : a request.method ≠ tag := by
        rintro rfl
        exact hs.finish_armed_not_mem _ hold
      have hlt' : tag < s.nextTag := hs.tag_lt_nextTag hold
      rw [if_neg hne, if_neg hlt'.ne']
      exact hs.finish_mem tag hold
    · cases hnew
    · obtain rfl := Op.finish.inj hsent
      rw [if_pos rfl]
      exact ⟨_, rfl, rfl⟩
  case status =>
    intro tag callData hget
    rw [getElem?_afterRequest] at hget
    split_ifs at hget with htag hnew
    · obtain rfl := Option.some.inj hget
      exact Or.inl rfl
    · exact Or.inr ⟨request.method, (Function.update_self ..).trans hnew⟩
    · refine (hs.status tag callData hget).imp_right ?_
      rintro ⟨m, rfl⟩
      refine ⟨m, Function.update_of_ne (fun hm => htag ?_) _ _⟩
      rw [hm]
  case executed =>
    exact congrArg (· ++ [request]) hs.executed

/-- A reply that completes leaves what is armed alone. -/
theorem of_reply {i tag : ℕ} {ok : Bool} (hop : s.pending[i]? = some (.finish tag)) :
    Inv a (afterReply s i tag ok) := by
  have hmem : ∀ op, op ∈ s.pending.eraseIdx i ↔ op ∈ s.pending ∧ op ≠ .finish tag :=
    fun op => Machine.mem_eraseIdx_iff hs.nodup hop
  have hsub : ∀ (tag' : ℕ) (callData : CallData),
      (afterReply s i tag ok).callDatas[tag']? = some callData →
        s.callDatas[tag']? = some callData := by
    intro tag' callData h
    rw [getElem?_afterReply] at h
    split_ifs at h
    exact h
  constructor
  case nodup =>
    exact hs.nodup.eraseIdx i
  case lt_nextTag =>
    exact fun tag' callData h => hs.lt_nextTag tag' callData (hsub tag' callData h)
  case armed =>
    intro m
    have hne : tag ≠ a m := by
      rintro rfl
      exact hs.finish_armed_not_mem m (List.mem_of_getElem? hop)
    rw [getElem?_afterReply, if_neg fun h => hne h.2]
    exact hs.armed m
  case request_mem_iff =>
    exact fun tag' => (hmem _).trans ((and_iff_left nofun).trans (hs.request_mem_iff tag'))
  case finish_mem =>
    intro tag' hfinish
    obtain ⟨hold, hne⟩ := (hmem _).mp hfinish
    rw [getElem?_afterReply, if_neg fun h => hne (congrArg Op.finish h.2.symm)]
    exact hs.finish_mem tag' hold
  case status =>
    exact fun tag' callData h => hs.status tag' callData (hsub tag' callData h)
  case executed =>
    exact hs.executed

end Inv

/-- **One step** keeps the invariant. -/
theorem inv_step {label : Label} (h : step sched s label = some t) (hs : ∃ a, Inv a s) :
    ∃ a, Inv a t := by
  obtain ⟨a, hs⟩ := hs
  cases label with
  | request i request =>
    obtain ⟨hop, rfl⟩ := hs.step_request h
    exact ⟨_, hs.of_request hop⟩
  | reply i ok =>
    obtain ⟨tag, hop, rfl⟩ := hs.step_reply h
    exact ⟨a, hs.of_reply hop⟩

theorem getElem?_init (sched : σ) (tag : ℕ) :
    (State.init sched).callDatas[tag]? =
      if 1 = tag then some ⟨.empty .onFetched, .process⟩
      else if 0 = tag then some ⟨.empty .tryFetchUrls, .process⟩ else none := by
  show (((∅ : OrdMap ℕ CallData).insert 0 _).insert 1 _)[tag]? = _
  rw [OrdMap.getElem?_insert, OrdMap.getElem?_insert, Std.ExtTreeMap.getElem?_empty]

/-- The first two objects are armed. -/
theorem inv_init (sched : σ) :
    Inv (fun | .tryFetchUrls => 0 | .onFetched => 1) (State.init sched) := by
  have hget := getElem?_init sched
  constructor
  · show [Op.request 0, Op.request 1].Nodup
    decide
  · intro tag callData h
    show tag < 2
    rw [hget] at h
    split_ifs at h <;> omega
  · intro m
    cases m with
    | tryFetchUrls => exact ⟨_, hget 0, rfl, rfl⟩
    | onFetched => exact ⟨_, hget 1, rfl, rfl⟩
  · intro tag
    show Op.request tag ∈ [Op.request 0, Op.request 1] ↔ _
    constructor
    · intro h
      rcases List.mem_cons.mp h with h | h
      · exact ⟨.tryFetchUrls, (Op.request.inj h).symm⟩
      · exact ⟨.onFetched, (Op.request.inj (List.mem_singleton.mp h)).symm⟩
    · rintro ⟨m, rfl⟩
      cases m <;> decide
  · intro tag h
    have hnot : Op.finish tag ∉ [Op.request 0, Op.request 1] := by simp
    exact absurd h hnot
  · intro tag callData h
    rw [hget] at h
    split_ifs at h with hone hzero
    · exact Or.inr ⟨.onFetched, hone⟩
    · exact Or.inr ⟨.tryFetchUrls, hzero⟩
  · rfl

theorem awaited_init (sched : σ) : Awaited (State.init sched) := by
  intro tag callData hget hfinish
  rw [getElem?_init] at hget
  split_ifs at hget
  · obtain rfl := Option.some.inj hget
    cases hfinish
  · obtain rfl := Option.some.inj hget
    cases hfinish

/-! ### Runs -/

/-- A request leaves every reply awaited that was. -/
theorem Inv.awaited_of_request {a : Method → ℕ} (hs : Inv a s) {i : ℕ} {request : Request}
    (hop : s.pending[i]? = some (.request (a request.method))) (hawaited : Awaited s) :
    Awaited (afterRequest sched s i (a request.method) request) := by
  intro tag callData hget hfinish
  rw [mem_afterRequest_iff hs.nodup hop]
  rw [getElem?_afterRequest] at hget
  split_ifs at hget with htag hnew
  · exact Or.inr (Or.inr (congrArg Op.finish htag.symm))
  · obtain rfl := Option.some.inj hget
    cases hfinish
  · exact Or.inl ⟨hawaited tag callData hget hfinish, nofun⟩

/-- The object of a reply is deleted with the event of it, if that is ok, and never otherwise. -/
theorem Inv.awaited_of_reply_iff {a : Method → ℕ} (hs : Inv a s) {i tag : ℕ} {ok : Bool}
    (hop : s.pending[i]? = some (.finish tag)) (hawaited : Awaited s) :
    Awaited (afterReply s i tag ok) ↔ ok = true := by
  have hmem : ∀ op, op ∈ (afterReply s i tag ok).pending ↔ op ∈ s.pending ∧ op ≠ .finish tag :=
    fun op => Machine.mem_eraseIdx_iff hs.nodup hop
  constructor
  · intro h
    by_contra hok
    obtain ⟨callData, hget, hfinish⟩ := hs.finish_mem tag (List.mem_of_getElem? hop)
    have hkept : (afterReply s i tag ok).callDatas[tag]? = some callData := by
      rw [getElem?_afterReply, if_neg fun h => hok h.1]
      exact hget
    exact ((hmem _).mp (h tag callData hkept hfinish)).2 rfl
  · rintro rfl tag' callData hget hfinish
    rw [getElem?_afterReply] at hget
    split_ifs at hget with htag
    refine (hmem _).mpr ⟨hawaited tag' callData hget hfinish, fun h => htag ⟨rfl, ?_⟩⟩
    exact (Op.finish.inj h).symm

/-- **The life cycle of the call objects.**  In a run of events that gRPC can give, one object of
each method is armed at every moment, every accepted request is executed once, and an object exists
exactly if it is armed or its reply has not completed, if and only if no reply completes with `ok`
false. -/
theorem along_lifecycle_iff_meets_answered (sched : IScheduler σ) (sched₀ : σ) (l : List Label)
    (hrun : ∃ t, Machine.run (step sched) (.init sched₀) l = some t) :
    Machine.Along (step sched) Lifecycle (.init sched₀) l ↔
      Machine.Meets (step sched) (fun _ label => label.Answered) (.init sched₀) l := by
  obtain ⟨t, hrun⟩ := hrun
  refine Machine.along_iff_meets (I := fun s => ∃ a, Inv a s) (fun s label t => inv_step) ?_ hrun
    ⟨_, inv_init sched₀⟩ ((inv_init sched₀).lifecycle_iff.mpr (awaited_init sched₀))
  rintro s label t h ⟨a, hs⟩ hlife
  have hawaited := hs.lifecycle_iff.mp hlife
  cases label with
  | request i request =>
    obtain ⟨hop, rfl⟩ := hs.step_request h
    rw [(hs.of_request hop).lifecycle_iff]
    exact iff_of_true (hs.awaited_of_request hop hawaited) trivial
  | reply i ok =>
    obtain ⟨tag, hop, rfl⟩ := hs.step_reply h
    rw [(hs.of_reply hop).lifecycle_iff]
    exact hs.awaited_of_reply_iff hop hawaited

/-- A scheduler that counts the calls. -/
def counting : IScheduler ℕ where
  tryFetchUrls n _ := ([], n + 1)
  onFetched n _ := n + 1

/-- A second request of one method and one of the other come before the reply of the first, and the
replies complete in another order than the requests came in. -/
def overlapping : List Label :=
  [.request 0 (.tryFetchUrls []), .request 1 (.tryFetchUrls []), .request 0 (.onFetched []),
    .reply 2 true, .reply 3 true, .reply 0 true]

/-- An instance: the clients get their replies. -/
theorem along_lifecycle_iff_meets_answered_overlapping :
    Machine.Along (step counting) Lifecycle (.init 0) overlapping :=
  (along_lifecycle_iff_meets_answered counting 0 _ (Option.isSome_iff_exists.mp (by decide))).mpr
    (by decide)

/-- The client has gone: its object stays. -/
theorem not_along_lifecycle_clientGone :
    ¬ Machine.Along (step counting) Lifecycle (.init 0)
      [.request 0 (.tryFetchUrls []), .reply 2 false] := by
  intro h
  have hlast : ∃ t, Machine.run (step counting) (.init 0)
      [.request 0 (.tryFetchUrls []), .reply 2 false] = some t ∧
        0 ∈ t.callDatas ∧ Op.request 0 ∉ t.pending ∧ Op.finish 0 ∉ t.pending := by
    decide
  obtain ⟨t, hrun, hmem, hrequest, hfinish⟩ := hlast
  exact (((h.last hrun).mem_iff 0).mp hmem).elim hrequest hfinish

end Contentv1.SchedulerServer
