import Contentv1.Scheduler.RpcMessages

/-!
# What comes through the network

The conversions on the two sides are inverse to each other, so it is the parsing that decides: a
message with a string that is not UTF-8 does not come through, and the content of a page is any
string.

* `receivedResults_eq_some_iff`: results come through exactly if all their strings are valid.
* `tryFetchUrls_fst_eq`: what the client puts out.
* `sameOverRpc_iff_comesThrough` is the exact extent of both.
-/

namespace Contentv1

/-- The strings of the record are UTF-8. -/
def GFQRecord.Valid (gfq : GFQRecord) : Prop := gfq.url.IsValidUTF8

instance : DecidablePred GFQRecord.Valid := fun gfq =>
  inferInstanceAs (Decidable gfq.url.IsValidUTF8)

/-- The strings of the result are UTF-8. -/
def FetchResult.Valid (r : FetchResult) : Prop :=
  r.gfq.Valid ∧ r.errorStr.IsValidUTF8 ∧ r.content.IsValidUTF8

instance : DecidablePred FetchResult.Valid := fun _ => inferInstanceAs (Decidable (_ ∧ _))

namespace SchedulerRpc

variable {σ : Type} {grpc : Grpc} {sched : IScheduler σ} {s : σ}

/-- The client's vector of allowed records and the vector of results that the scheduler receives are
those of the direct calls. -/
def SameOverRpc (grpc : Grpc) (sched : IScheduler σ) (s : σ) (tryUrls : List GFQRecord)
    (results : List FetchResult) : Prop :=
  (tryFetchUrls grpc sched s tryUrls).1 = (sched.tryFetchUrls s tryUrls).1 ∧
    receivedResults grpc results = some results

/-- The records and the answer are valid, or the client is left with the same answer without that;
and the results are valid. -/
def ComesThrough (grpc : Grpc) (sched : IScheduler σ) (s : σ) (tryUrls : List GFQRecord)
    (results : List FetchResult) : Prop :=
  let allowedUrls := (sched.tryFetchUrls s tryUrls).1
  let leftover := grpc.leftover (grpc.tryFetchReply.serialize (allowedUrls.map GFQRecord.toPb))
  (if ∀ gfq ∈ tryUrls, gfq.Valid then
      (∀ gfq ∈ allowedUrls, gfq.Valid) ∨ leftover.map GFQRecord.fromPb = allowedUrls
    else allowedUrls = []) ∧
    ∀ r ∈ results, r.Valid

/-! ### Messages -/

theorem forall_strings_map_toPb_gfq (gfqs : List GFQRecord) :
    (∀ s ∈ (gfqs.map GFQRecord.toPb).flatMap GFQRecordPb.strings, s.IsValidUTF8) ↔
      ∀ gfq ∈ gfqs, gfq.Valid := by
  simp [GFQRecordPb.strings, GFQRecord.toPb, GFQRecord.Valid]

theorem forall_strings_map_toPb (results : List FetchResult) :
    (∀ s ∈ (results.map FetchResult.toPb).flatMap FetchResultPb.strings, s.IsValidUTF8) ↔
      ∀ r ∈ results, r.Valid := by
  simp only [List.forall_mem_flatMap, List.forall_mem_map]
  refine forall₂_congr fun r _ => ?_
  simp [FetchResultPb.strings, FetchResult.toPb, GFQRecordPb.strings, GFQRecord.toPb,
    FetchResult.Valid, GFQRecord.Valid]

theorem map_fromPb_toPb_gfq (gfqs : List GFQRecord) :
    (gfqs.map GFQRecord.toPb).map GFQRecord.fromPb = gfqs := by
  rw [List.map_map]
  exact List.map_id gfqs

theorem map_fromPb_toPb (results : List FetchResult) :
    (results.map FetchResult.toPb).map FetchResult.fromPb = results := by
  rw [List.map_map]
  exact List.map_id results

/-! ### Calls -/

/-- Results come through unchanged, or they do not come through at all. -/
theorem receivedResults_eq (results : List FetchResult) :
    receivedResults grpc results = if ∀ r ∈ results, r.Valid then some results else none := by
  unfold receivedResults
  dsimp only
  rw [grpc.onFetchedRequest.parse_serialize]
  simp only [forall_strings_map_toPb]
  split_ifs
  · exact congrArg some (map_fromPb_toPb results)
  · rfl

theorem receivedResults_eq_some_iff {results : List FetchResult} :
    receivedResults grpc results = some results ↔ ∀ r ∈ results, r.Valid := by
  rw [receivedResults_eq]
  split_ifs with h
  · exact iff_of_true rfl h
  · exact iff_of_false nofun h

/-- The client's vector of allowed records. -/
theorem tryFetchUrls_fst_eq (tryUrls : List GFQRecord) :
    (tryFetchUrls grpc sched s tryUrls).1
      = if ∀ gfq ∈ tryUrls, gfq.Valid then
          let allowedUrls := (sched.tryFetchUrls s tryUrls).1
          if ∀ gfq ∈ allowedUrls, gfq.Valid then allowedUrls
          else (grpc.leftover
            (grpc.tryFetchReply.serialize (allowedUrls.map GFQRecord.toPb))).map GFQRecord.fromPb
        else [] := by
  unfold tryFetchUrls callTryFetchUrls
  dsimp only
  rw [grpc.tryFetchRequest.parse_serialize]
  simp only [forall_strings_map_toPb_gfq]
  by_cases hvalid : ∀ gfq ∈ tryUrls, gfq.Valid
  · simp only [if_pos hvalid, map_fromPb_toPb_gfq, grpc.tryFetchReply.parse_serialize,
      forall_strings_map_toPb_gfq]
    split_ifs
    · rw [Option.getD_some, map_fromPb_toPb_gfq]
    · rw [Option.getD_none]
  · simp only [if_neg hvalid]

/-- **Over RPC and directly.**  On every scheduler and all arguments, a client gets the records that
the scheduler allows, and the scheduler receives the client's results, exactly when both come
through. -/
theorem sameOverRpc_iff_comesThrough (grpc : Grpc) (sched : IScheduler σ) (s : σ)
    (tryUrls : List GFQRecord) (results : List FetchResult) :
    SameOverRpc grpc sched s tryUrls results ↔ ComesThrough grpc sched s tryUrls results := by
  unfold SameOverRpc ComesThrough
  dsimp only
  rw [receivedResults_eq_some_iff, tryFetchUrls_fst_eq]
  apply and_congr_left
  intro _
  by_cases hvalid : ∀ gfq ∈ tryUrls, gfq.Valid
  · rw [if_pos hvalid, if_pos hvalid]
    dsimp only
    by_cases hallowed : ∀ gfq ∈ (sched.tryFetchUrls s tryUrls).1, gfq.Valid
    · rw [if_pos hallowed]
      exact iff_of_true rfl (Or.inl hallowed)
    · rw [if_neg hallowed]
      exact (or_iff_right hallowed).symm
  · rw [if_neg hvalid, if_neg hvalid]
    exact eq_comm

/-- With valid strings, the scheduler over RPC is the scheduler itself. -/
theorem overRpc_tryFetchUrls_eq {tryUrls : List GFQRecord} (hvalid : ∀ gfq ∈ tryUrls, gfq.Valid)
    (hallowed : ∀ gfq ∈ (sched.tryFetchUrls s tryUrls).1, gfq.Valid) :
    (overRpc grpc sched).tryFetchUrls s tryUrls = sched.tryFetchUrls s tryUrls := by
  have hfst := @tryFetchUrls_fst_eq σ grpc sched s tryUrls
  rw [if_pos hvalid] at hfst
  dsimp only at hfst
  rw [if_pos hallowed] at hfst
  refine Prod.ext hfst ?_
  show (tryFetchUrls grpc sched s tryUrls).2 = _
  unfold tryFetchUrls callTryFetchUrls
  dsimp only
  rw [grpc.tryFetchRequest.parse_serialize_of_valid
    ((forall_strings_map_toPb_gfq tryUrls).mpr hvalid)]
  dsimp only
  rw [map_fromPb_toPb_gfq]

theorem overRpc_onFetched_eq {results : List FetchResult} (hvalid : ∀ r ∈ results, r.Valid) :
    (overRpc grpc sched).onFetched s results = sched.onFetched s results := by
  show (receivedResults grpc results).elim s (sched.onFetched s) = _
  rw [receivedResults_eq_some_iff.mpr hvalid, Option.elim_some]

/-- A host's robots.txt in a Latin encoding, fetched with success. -/
def latinRobots : FetchResult :=
  ⟨⟨Str.ofString "http://a/robots.txt", 0⟩, .ok, default, .ofBytes [35, 32, 99, 97, 102, 233]⟩

/-- Its result does not come to a scheduler. -/
theorem not_sameOverRpc_latinRobots :
    ¬ SameOverRpc .plain (⟨fun s _ => ([], s), fun s _ => s⟩ : IScheduler Unit) () []
      [latinRobots] := by
  rintro ⟨-, hreceived⟩
  exact absurd (receivedResults_eq_some_iff.mp hreceived) (by decide)

end SchedulerRpc

end Contentv1
