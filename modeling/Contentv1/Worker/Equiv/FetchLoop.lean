import Contentv1.Worker.FetchLoop
import Mathlib.Tactic.SplitIfs

/-!
# No record of the fetch queue is lost or fetched twice

`along_conserved_of_separable`: between two rounds every record that was read is in the merge queue,
with the HTTP client or answered, with its multiplicity, as long as no cut holds records of one URL
with different times of which the scheduler allows some and not all (`SortedDiff.Separable`); and
`_sendToCurl` always ends with an empty batch.  The subtraction tells records apart by their URL
only, so a cut with two times of a URL may lose one record and fetch the other twice
(`not_along_conserved_twoTimes`).

The invariant `Conserved` says where the records are within a round.  That `accEvent` writes to
`m_req_batch` instead of its argument leaves the argument empty, so `merge` adds nothing.
-/

namespace Contentv1.FetchLoop

variable {env : Env} {s t : State}

/-! ### One lemma for each label -/

theorem step_read {gfq : GFQRecord} :
    step env s (.read gfq) = some t ↔
      { s with queue := s.queue ++ [gfq], read := s.read ++ [gfq] } = t := by
  show some _ = some t ↔ _
  rw [Option.some_inj]

theorem step_startRound :
    step env s .startRound = some t ↔
      s.mergeTh = .idle ∧ { s with mergeTh := .draining default } = t := by
  unfold step
  cases s.mergeTh <;> simp

theorem step_accEvent {i : ℕ} :
    step env s (.accEvent i) = some t ↔
      ∃ updLocal req, s.mergeTh = .draining updLocal ∧ s.queue[i]? = some req ∧
        { s with queue := s.queue.eraseIdx i, reqBatch := s.reqBatch.acc req } = t := by
  obtain ⟨queue, th, reqBatch, client, answered, read⟩ := s
  cases th <;> cases hq : queue[i]? <;> simp [step, hq, accEvent]

theorem step_drained :
    step env s .drained = some t ↔
      ∃ updLocal, s.mergeTh = .draining updLocal ∧ s.queue = [] ∧
        { s with mergeTh := .sending (s.reqBatch.merge updLocal) } = t := by
  obtain ⟨queue, th, reqBatch, client, answered, read⟩ := s
  cases th <;> cases queue <;> simp [step]

theorem step_tryFetchUrls {allowedUrls : List GFQRecord} :
    step env s (.tryFetchUrls allowedUrls) = some t ↔
      ∃ a, s.mergeTh = .sending a ∧ a.empty = false ∧
        allowedUrls.Subperm (a.getReqs env.maxRequestsInBatch).2 ∧
        { s with
          queue := s.queue
            ++ disallowedUrls env (a.getReqs env.maxRequestsInBatch).2 allowedUrls
          mergeTh := .sending ⟨a.reqs.drop env.maxRequestsInBatch⟩
          client := s.client ++ allowedUrls } = t := by
  unfold step
  cases s.mergeTh with
  | sending a =>
    dsimp only
    rw [ReqBatch.slice_getReqs]
    split_ifs with hguard
    · simp only [Option.map_some, Option.some_inj]
      constructor
      · intro h
        exact ⟨a, rfl, by simpa using hguard.1, hguard.2, h⟩
      · rintro ⟨a', heq, -, -, h⟩
        cases heq
        exact h
    · constructor
      · intro h
        cases h
      · rintro ⟨a', heq, hempty, hsub, -⟩
        cases heq
        exact absurd ⟨by simp [hempty], hsub⟩ hguard
  | _ => simp

theorem step_sent :
    step env s .sent = some t ↔
      ∃ a, s.mergeTh = .sending a ∧ a.empty = true ∧
        { s with mergeTh := .idle, reqBatch := a } = t := by
  unfold step
  cases s.mergeTh with
  | sending a => by_cases hempty : a.empty = true <;> simp [hempty]
  | _ => simp

theorem step_onResponse {i : ℕ} :
    step env s (.onResponse i) = some t ↔
      ∃ gfq, s.client[i]? = some gfq ∧
        { s with client := s.client.eraseIdx i, answered := s.answered ++ [gfq] } = t :=
  Option.map_eq_some_iff

/-! ### Conservation -/

/-- The records that a round has taken from the queue. -/
def State.held (s : State) : List GFQRecord :=
  match s.mergeTh with
  | .idle => []
  | .draining _ => s.reqBatch.reqs
  | .sending a => a.reqs

structure Conserved (s : State) : Prop where
  perm : (s.queue ++ s.held ++ s.client ++ s.answered).Perm s.read
  idle : s.mergeTh = .idle → s.reqBatch.reqs = []
  draining : ∀ updLocal, s.mergeTh = .draining updLocal → updLocal.reqs = []

/-- The cut that the next turn of `_sendToCurl` takes. -/
def State.cut (env : Env) (s : State) : List GFQRecord :=
  match s.mergeTh with
  | .sending a => (a.getReqs env.maxRequestsInBatch).2
  | _ => []

def Label.allowedUrls : Label → List GFQRecord
  | .tryFetchUrls allowedUrls => allowedUrls
  | _ => []

/-- The step does not reach the defect: the URLs of the cut tell the allowed records from the
others. -/
def Label.Separable (env : Env) (s : State) (a : Label) : Prop :=
  SortedDiff.Separable GFQRecord.url (s.cut env) a.allowedUrls

instance (env : Env) (s : State) (a : Label) : Decidable (a.Separable env s) :=
  inferInstanceAs (Decidable (SortedDiff.Separable _ _ _))

theorem conserved_init : Conserved .init where
  perm := List.Perm.refl _
  idle _ := rfl
  draining := nofun

theorem count_eraseIdx {l : List GFQRecord} {i : ℕ} {a : GFQRecord} (h : l[i]? = some a)
    (b : GFQRecord) : l.count b = [a].count b + (l.eraseIdx i).count b := by
  rw [(Machine.perm_cons_eraseIdx h).count_eq b, ← List.count_append]
  rfl

theorem conserved_step {a : Label} (h : step env s a = some t) (hsep : a.Separable env s)
    (hs : Conserved s) : Conserved t := by
  obtain ⟨hperm, hidle, hdraining⟩ := hs
  have hcount := fun b => hperm.count_eq b
  simp only [List.count_append] at hcount
  cases a with
  | read gfq =>
    obtain rfl := step_read.mp h
    refine ⟨List.perm_iff_count.mpr fun b => ?_, hidle, hdraining⟩
    have hb := hcount b
    simp only [List.count_append]
    show _ + [gfq].count b + s.held.count b + _ + _ = _
    omega
  | startRound =>
    obtain ⟨hth, rfl⟩ := step_startRound.mp h
    refine ⟨?_, nofun, ?_⟩
    · have hheld : s.held = [] := by rw [State.held, hth]
      rw [hheld] at hperm
      show (s.queue ++ s.reqBatch.reqs ++ s.client ++ s.answered).Perm s.read
      rw [hidle hth]
      exact hperm
    · rintro updLocal heq
      cases heq
      rfl
  | accEvent i =>
    obtain ⟨updLocal, req, hth, hreq, rfl⟩ := step_accEvent.mp h
    refine ⟨List.perm_iff_count.mpr fun b => ?_, ?_, hdraining⟩
    · have hb := hcount b
      have herase := count_eraseIdx hreq b
      have hheld : s.held = s.reqBatch.reqs := by rw [State.held, hth]
      rw [hheld] at hb
      have hheld' : State.held { s with
          queue := s.queue.eraseIdx i, reqBatch := s.reqBatch.acc req }
          = s.reqBatch.reqs ++ [req] := by rw [State.held, hth]; rfl
      rw [hheld']
      simp only [List.count_append]
      omega
    · intro heq
      rw [hth] at heq
      cases heq
  | drained =>
    obtain ⟨updLocal, hth, hqueue, rfl⟩ := step_drained.mp h
    refine ⟨?_, nofun, nofun⟩
    -- the merged batch is `m_req_batch` alone
    have hheld : s.held = s.reqBatch.reqs := by rw [State.held, hth]
    rw [hheld] at hperm
    show (s.queue ++ (s.reqBatch.reqs ++ updLocal.reqs) ++ s.client ++ s.answered).Perm s.read
    rw [hdraining updLocal hth, List.append_nil]
    exact hperm
  | tryFetchUrls allowedUrls =>
    obtain ⟨a, hth, -, hsub, rfl⟩ := step_tryFetchUrls.mp h
    refine ⟨List.perm_iff_count.mpr fun b => ?_, nofun, nofun⟩
    have hb := hcount b
    have hheld : s.held = a.reqs := by rw [State.held, hth]
    -- the cut is what is allowed and what is pushed back
    have hcut : s.cut env = (a.getReqs env.maxRequestsInBatch).2 := by rw [State.cut, hth]
    unfold Label.Separable at hsep
    rw [hcut] at hsep
    have hback : (disallowedUrls env _ allowedUrls ++ allowedUrls).Perm _ :=
      SortedDiff.setDifference_sort_append_perm env.stdSort hsub hsep
    have hbatch := congrArg (List.count b) (a.getReqs_append_drop env.maxRequestsInBatch)
    have hback' := hback.count_eq b
    rw [hheld] at hb
    rw [List.count_append] at hbatch hback'
    show List.count b (_ ++ a.reqs.drop env.maxRequestsInBatch ++ _ ++ _) = _
    simp only [List.count_append]
    omega
  | sent =>
    obtain ⟨a, hth, hempty, rfl⟩ := step_sent.mp h
    have hreqs : a.reqs = [] := List.isEmpty_iff.mp hempty
    refine ⟨?_, fun _ => hreqs, nofun⟩
    have hheld : s.held = a.reqs := by rw [State.held, hth]
    rw [hheld, hreqs] at hperm
    exact hperm
  | onResponse i =>
    obtain ⟨gfq, hgfq, rfl⟩ := step_onResponse.mp h
    refine ⟨List.perm_iff_count.mpr fun b => ?_, hidle, hdraining⟩
    have hb := hcount b
    have herase := count_eraseIdx hgfq b
    simp only [List.count_append]
    show _ + s.held.count b + _ + (_ + [gfq].count b) = _
    omega

/-! ### Termination -/

/-- `_sendToCurl` ends with an empty batch: each turn takes at least one record. -/
theorem sendToCurl_eq_some (hmax : 1 ≤ env.maxRequestsInBatch)
    {tryFetchUrls : ℕ → List GFQRecord → List GFQRecord}
    (hsub : ∀ n tryUrls, (tryFetchUrls n tryUrls).Subperm tryUrls) {fuel n : ℕ} {a : ReqBatch}
    (hth : s.mergeTh = .sending a) (hfuel : a.size < fuel) :
    ∃ t, sendToCurl env tryFetchUrls fuel n s = some t ∧ t.mergeTh = .idle ∧
      t.reqBatch.reqs = [] := by
  induction fuel generalizing n s a with
  | zero => omega
  | succ fuel ih =>
    rw [sendToCurl, hth]
    dsimp only
    by_cases hempty : a.empty = true
    · rw [if_pos hempty]
      refine ⟨_, step_sent.mpr ⟨a, hth, hempty, rfl⟩, rfl, List.isEmpty_iff.mp hempty⟩
    · rw [if_neg hempty]
      have hne : a.empty = false := by simpa using hempty
      have hstep := step_tryFetchUrls.mpr
        ⟨a, hth, hne, hsub n (a.getReqs env.maxRequestsInBatch).2, rfl⟩
      rw [hstep, Option.bind_some]
      -- the cut is not empty, so the fuel does for the rest
      have hpos : 0 < a.reqs.length := by
        refine List.length_pos_of_ne_nil fun hnil => hempty ?_
        exact List.isEmpty_iff.mpr hnil
      have hless : (⟨a.reqs.drop env.maxRequestsInBatch⟩ : ReqBatch).size < fuel := by
        show (a.reqs.drop env.maxRequestsInBatch).length < fuel
        rw [List.length_drop]
        unfold ReqBatch.size at hfuel
        omega
      exact ih rfl hless

/-- **Where records are conserved.**  In a run whose cuts are all separable, between two rounds the
queue, the client and the answers hold what was read, and whatever the scheduler allows
`_sendToCurl` ends with an empty batch. -/
theorem along_conserved_of_separable (env : Env) (hmax : 1 ≤ env.maxRequestsInBatch)
    {l : List Label}
    (hsep : Machine.Meets (step env) (fun s a => a.Separable env s) .init l) :
    Machine.Along (step env) (fun s =>
      (s.mergeTh = .idle → (s.queue ++ s.client ++ s.answered).Perm s.read) ∧
      ∀ tryFetchUrls : ℕ → List GFQRecord → List GFQRecord,
        (∀ n tryUrls, (tryFetchUrls n tryUrls).Subperm tryUrls) →
        ∀ a, s.mergeTh = .sending a →
          ∃ t, sendToCurl env tryFetchUrls (a.size + 1) 0 s = some t ∧ t.mergeTh = .idle ∧
            t.reqBatch.reqs = []) .init l := by
  have halong := Machine.along_of_meets (P := Conserved)
    (fun s a t h ok hs => conserved_step h ok hs) hsep conserved_init
  refine halong.mono fun s hs => ⟨fun hth => ?_, fun tryFetchUrls hsub a hth => ?_⟩
  · have hheld : s.held = [] := by rw [State.held, hth]
    have hperm := hs.perm
    rwa [hheld, List.append_nil] at hperm
  · exact sendToCurl_eq_some hmax hsub hth (Nat.lt_succ_self a.size)

/-- A worker with cuts of two records. -/
def Env.twoInBatch : Env := ⟨.insertion _, 2⟩

/-- A record of one URL. -/
def record (attemptTs : ℤ) : GFQRecord := ⟨Str.ofString "http://a/", attemptTs⟩

/-- A round over two records of a URL, of which the scheduler allows the second. -/
def twoTimes : List Label :=
  [.read (record 1), .read (record 2), .startRound, .accEvent 0, .accEvent 0, .drained,
    .tryFetchUrls [record 2], .sent]

/-- The first record is lost and the second one waits to be fetched again. -/
theorem not_along_conserved_twoTimes :
    ∃ s, Machine.run (step .twoInBatch) .init twoTimes = some s ∧ s.mergeTh = .idle ∧
      s.read = [record 1, record 2] ∧ s.queue ++ s.client ++ s.answered = [record 2, record 2] ∧
      ¬ Machine.Along (step .twoInBatch) (fun s =>
        s.mergeTh = .idle → (s.queue ++ s.client ++ s.answered).Perm s.read) .init twoTimes := by
  have hrun : ∃ s, Machine.run (step .twoInBatch) .init twoTimes = some s ∧ s.mergeTh = .idle ∧
      s.read = [record 1, record 2] ∧ s.queue ++ s.client ++ s.answered = [record 2, record 2] := by
    decide
  obtain ⟨s, hs, hth, hread, hplaces⟩ := hrun
  refine ⟨s, hs, hth, hread, hplaces, fun h => ?_⟩
  have hperm := h.last hs hth
  rw [hplaces, hread] at hperm
  exact absurd hperm (by decide)

/-- Rounds over a record that is first refused and then allowed, beside one of another URL. -/
def refusedOnce : List Label :=
  [.read (record 1), .startRound, .accEvent 0, .read ⟨Str.ofString "http://b/", 1⟩, .accEvent 0,
    .drained, .tryFetchUrls [⟨Str.ofString "http://b/", 1⟩], .sent, .onResponse 0, .startRound,
    .accEvent 0, .drained, .tryFetchUrls [record 1], .sent]

theorem along_conserved_of_separable_refusedOnce :
    Machine.Along (step .twoInBatch) (fun s =>
      (s.mergeTh = .idle → (s.queue ++ s.client ++ s.answered).Perm s.read) ∧
      ∀ tryFetchUrls : ℕ → List GFQRecord → List GFQRecord,
        (∀ n tryUrls, (tryFetchUrls n tryUrls).Subperm tryUrls) →
        ∀ a, s.mergeTh = .sending a →
          ∃ t, sendToCurl .twoInBatch tryFetchUrls (a.size + 1) 0 s = some t ∧
            t.mergeTh = .idle ∧ t.reqBatch.reqs = []) .init refusedOnce := by
  apply along_conserved_of_separable .twoInBatch (by decide)
  decide +kernel

end Contentv1.FetchLoop
