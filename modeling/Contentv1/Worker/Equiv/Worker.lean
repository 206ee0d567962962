import Contentv1.Worker.Worker
import Contentv1.Worker.Equiv.FetchLoop

/-!
# What a worker holds

`FromRead`: whatever a worker holds, it has read.  It may lose records and fetch some twice
(`not_along_conserved_twoTimes`), but it makes none up.

The other lemmas say when a worker can do something, and what it then does.
-/

namespace Contentv1

namespace FetchLoop

variable {env : Env} {s t : State}

/-! ### Records that were read -/

/-- The records that the thread of the merge queue holds. -/
def MergeTh.reqs : MergeTh → List GFQRecord
  | .idle => []
  | .draining updLocal => updLocal.reqs
  | .sending a => a.reqs

structure FromRead (s : State) : Prop where
  queue : s.queue ⊆ s.read
  reqBatch : s.reqBatch.reqs ⊆ s.read
  mergeTh : s.mergeTh.reqs ⊆ s.read
  client : s.client ⊆ s.read

theorem fromRead_init : FromRead .init :=
  ⟨List.Subset.refl _, List.Subset.refl _, List.Subset.refl _, List.Subset.refl _⟩

/-- What is pushed back is part of the cut. -/
theorem disallowedUrls_subset (tryUrls allowedUrls : List GFQRecord) :
    disallowedUrls env tryUrls allowedUrls ⊆ tryUrls := by
  intro gfq hgfq
  have hmem := (SortedDiff.setDifference_sublist _ _).subset hgfq
  exact (env.stdSort.perm tryUrls).subset hmem

theorem fromRead_step {a : Label} (h : step env s a = some t) (hs : FromRead s) : FromRead t := by
  obtain ⟨hqueue, hbatch, hth, hclient⟩ := hs
  cases a with
  | read gfq =>
    obtain rfl := step_read.mp h
    have hmono : s.read ⊆ s.read ++ [gfq] := List.subset_append_left _ _
    exact ⟨List.append_subset.mpr
        ⟨List.Subset.trans hqueue hmono, List.subset_append_right _ _⟩,
      List.Subset.trans hbatch hmono, List.Subset.trans hth hmono,
      List.Subset.trans hclient hmono⟩
  | startRound =>
    obtain ⟨-, rfl⟩ := step_startRound.mp h
    exact ⟨hqueue, hbatch, List.nil_subset _, hclient⟩
  | accEvent i =>
    obtain ⟨updLocal, req, -, hreq, rfl⟩ := step_accEvent.mp h
    have hmem : req ∈ s.read := hqueue (List.mem_of_getElem? hreq)
    refine ⟨List.Subset.trans (List.eraseIdx_subset) hqueue, ?_, hth, hclient⟩
    exact List.append_subset.mpr ⟨hbatch, List.cons_subset.mpr ⟨hmem, List.nil_subset _⟩⟩
  | drained =>
    obtain ⟨updLocal, hdraining, -, rfl⟩ := step_drained.mp h
    rw [hdraining] at hth
    exact ⟨hqueue, hbatch, List.append_subset.mpr ⟨hbatch, hth⟩, hclient⟩
  | tryFetchUrls allowedUrls =>
    obtain ⟨a, hsending, -, hsub, rfl⟩ := step_tryFetchUrls.mp h
    rw [hsending] at hth
    have hcut : (a.getReqs env.maxRequestsInBatch).2 ⊆ s.read := by
      intro gfq hgfq
      apply hth
      show gfq ∈ a.reqs
      rw [← a.getReqs_append_drop env.maxRequestsInBatch]
      exact List.mem_append_left _ hgfq
    refine ⟨List.append_subset.mpr ⟨hqueue, ?_⟩, hbatch, ?_,
      List.append_subset.mpr ⟨hclient, List.Subset.trans hsub.subset hcut⟩⟩
    · exact List.Subset.trans (disallowedUrls_subset _ _) hcut
    · exact List.Subset.trans (List.drop_subset _ _) hth
  | sent =>
    obtain ⟨a, hsending, -, rfl⟩ := step_sent.mp h
    rw [hsending] at hth
    exact ⟨hqueue, hth, List.nil_subset _, hclient⟩
  | onResponse i =>
    obtain ⟨gfq, -, rfl⟩ := step_onResponse.mp h
    exact ⟨hqueue, hbatch, hth, List.Subset.trans List.eraseIdx_subset hclient⟩

end FetchLoop

namespace Worker

open FetchPages (JobInfo SaveOutcome savePage)

variable {env : FetchLoop.Env} {s t : State}

/-! ### One lemma for each thing it does -/

theorem read_eq_some {gfq : GFQRecord} :
    read env s gfq = some t ↔
      { s with
        fetch := { s.fetch with queue := s.fetch.queue ++ [gfq], read := s.fetch.read ++ [gfq] }
        stats := { s.stats with pushed := s.stats.pushed + 1 } } = t :=
  Option.some_inj

theorem mergeStep_eq_some {a : FetchLoop.Label} :
    mergeStep env s a = some t ↔
      ofMergeTh a = true ∧ ∃ fetch, FetchLoop.step env s.fetch a = some fetch ∧
        { s with fetch := fetch } = t := by
  unfold mergeStep
  rw [Option.ite_none_right_eq_some, Option.map_eq_some_iff]

theorem ask_eq_some :
    ask s = some t ↔
      ∃ a, s.fetch.mergeTh = .sending a ∧ s.asking = false ∧ a.empty = false ∧
        { s with asking := true } = t := by
  unfold ask
  cases s.fetch.mergeTh with
  | sending a => cases hasking : s.asking <;> cases hempty : a.empty <;> simp [hempty]
  | _ => simp

theorem answer_eq_some {allowedUrls : List GFQRecord} :
    answer env s allowedUrls = some t ↔
      s.asking = true ∧ ∃ fetch,
        FetchLoop.step env s.fetch (.tryFetchUrls allowedUrls) = some fetch ∧
        { s with fetch := fetch, asking := false } = t := by
  unfold answer
  rw [Option.ite_none_right_eq_some, Option.map_eq_some_iff]

theorem jobInfo_eq_some {i : ℕ} {success : Bool} {curlerror resp : Str} {ji : JobInfo} :
    s.jobInfo i success curlerror resp = some ji ↔
      ∃ gfq, s.fetch.client[i]? = some gfq ∧ ⟨gfq, success, curlerror, resp⟩ = ji :=
  Option.map_eq_some_iff

theorem respond_eq_some {i : ℕ} {ji : JobInfo} :
    respond env s i ji = some t ↔
      s.responding = none ∧ ∃ fetch, FetchLoop.step env s.fetch (.onResponse i) = some fetch ∧
        { s with
          fetch := fetch
          responding := some ji
          stats := s.stats.inc ji.success ji.userdata.isRobots } = t := by
  unfold respond
  rw [Option.ite_none_right_eq_some, Option.map_eq_some_iff, Option.isNone_iff_eq_none]

theorem reported_eq_some {save : SaveOutcome} :
    reported s save = some t ↔
      ∃ ji, s.responding = some ji ∧
        { s with responding := none, pageDb := savePage s.pageDb ji save } = t :=
  Option.map_eq_some_iff

end Worker

end Contentv1
