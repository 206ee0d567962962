import Contentv1.Ldb.Equiv.HostDb
import Contentv1.Worker.Equiv.FetchLoop
import Contentv1.Worker.FetchRounds
import Mathlib.Data.List.TakeWhile

/-!
# Whether the queue of a worker gets shorter

A refused record is pushed back for whatever reason it was refused.  Where no crawl is outstanding
and no window holds an event, nothing but robots.txt and the parsing of the URL refuses the first
record that is tried, so a round hands a record to the client exactly if the queue holds one that
these two let through (`Crawlable`).

* `roundStep_reduces_iff`: one round.
* `drains_iff_meets_holdsCrawlable`: all rounds of a run shorten the queue exactly if each begins
  with such a record, and then the worker reads Kafka again after as many rounds as the queue is
  too long.
-/

namespace Contentv1

namespace HostFreq

/-- No crawl is in progress and what the windows hold has expired. -/
@[mk_iff]
structure Quiet (hf : HostFreq) (now : ℤ) : Prop where
  crawlingNow : hf.crawlingNow ≤ 0
  min : ∀ tp ∈ hf.min.q, tpExpired hf.min.window now tp = true
  hour : ∀ tp ∈ hf.hour.q, tpExpired hf.hour.window now tp = true
  day : ∀ tp ∈ hf.day.q, tpExpired hf.day.window now tp = true

instance (hf : HostFreq) (now : ℤ) : Decidable (hf.Quiet now) :=
  decidable_of_iff' _ (quiet_iff hf now)

end HostFreq

/-- Every limit lets one crawl through. -/
@[mk_iff]
structure CrawlLimits.AtLeastOne (limits : CrawlLimits) : Prop where
  hostParallel : 1 ≤ limits.maxHostParallelCrawl
  hostMinute : 1 ≤ limits.maxHostMinuteCrawl
  hostHour : 1 ≤ limits.maxHostHourCrawl
  hostDay : 1 ≤ limits.maxHostDayCrawl
  systemParallel : 1 ≤ limits.maxSystemParallelCrawl

instance (limits : CrawlLimits) : Decidable limits.AtLeastOne :=
  decidable_of_iff' _ (CrawlLimits.atLeastOne_iff limits)

/-- The clock is read at a moment or later. -/
@[mk_iff]
structure FreqReads.From (reads : FreqReads) (now : ℤ) : Prop where
  min : now ≤ reads.min
  hour : now ≤ reads.hour
  day : now ≤ reads.day

instance (reads : FreqReads) (now : ℤ) : Decidable (reads.From now) :=
  decidable_of_iff' _ (FreqReads.from_iff reads now)

/-- A window of which everything has expired is empty from then on. -/
theorem TpSlidWin.checkClean_of_expired {w : TpSlidWin} {now now' : ℤ} (hnow : now ≤ now')
    (h : ∀ tp ∈ w.q, tpExpired w.window now tp = true) : (w.checkClean now').q = [] :=
  List.dropWhile_eq_nil_iff.mpr fun tp htp => tpExpired_mono hnow le_rfl (h tp htp)

namespace HostFreq

theorem Quiet.isAllowed {hf : HostFreq} {now : ℤ} (hquiet : hf.Quiet now) {limits : CrawlLimits}
    (hlimits : limits.AtLeastOne) {reads : FreqReads} (hreads : reads.From now) :
    (hf.isAllowed limits reads).1 = true := by
  obtain ⟨hparallel, hminute, hhour, hday, -⟩ := hlimits
  have hcrawling := hquiet.crawlingNow
  unfold HostFreq.isAllowed TpSlidWin.size
  dsimp only
  rw [TpSlidWin.checkClean_of_expired hreads.min hquiet.min,
    TpSlidWin.checkClean_of_expired hreads.hour hquiet.hour,
    TpSlidWin.checkClean_of_expired hreads.day hquiet.day]
  simp only [List.length_nil, Nat.cast_zero]
  rw [if_neg (by omega), if_neg (by omega), if_neg (by omega), if_neg (by omega)]

end HostFreq

namespace HostDb

variable {c : Contribs} {db : HostDb} {now : ℤ}

/-- No crawl is outstanding, the windows are empty and every limit is at least 1. -/
@[mk_iff]
structure Quiet (db : HostDb) (now : ℤ) : Prop where
  limits : db.limits.AtLeastOne
  host : ∀ (host : Host) (hf : HostFreq), db.hostFreq[host]? = some hf → hf.Quiet now
  global : db.globalFreq.Quiet now

instance (db : HostDb) (now : ℤ) : Decidable (db.Quiet now) :=
  decidable_of_iff' _ (quiet_iff db now)

/-- The record's URL parses and robots.txt lets it through. -/
def Crawlable (c : Contribs) (db : HostDb) (gfq : GFQRecord) : Prop :=
  (UrlParsed.ofUrl c gfq.url).ok = true ∧
    (db.isAllowedRobots c (UrlParsed.ofUrl c gfq.url)).1 = true

instance (c : Contribs) (db : HostDb) : DecidablePred (db.Crawlable c) := fun _ =>
  inferInstanceAs (Decidable (_ ∧ _))

theorem Quiet.isAllowedFreq (hquiet : db.Quiet now) (host : Host) {reads : CrawlReads}
    (hhost : reads.hostCheck.From now) (hglobal : reads.globalCheck.From now) :
    (db.isAllowedFreq host reads).1 = true := by
  unfold HostDb.isAllowedFreq
  cases hget : db.hostFreq[host]? with
  | none => rfl
  | some hf =>
    dsimp only
    rw [if_pos ((hquiet.host host hf hget).isAllowed hquiet.limits hhost)]
    exact hquiet.global.isAllowed hquiet.limits hglobal

/-- What is refused before the frequencies are looked at leaves the database as it is. -/
theorem refused_of_not_crawlable {item : GFQRecord × CrawlReads} (h : ¬ db.Crawlable c item.1) :
    decisionOn c GFQRecord.url db item ≠ .allow ∧ dbAfter c GFQRecord.url db item = db := by
  unfold decisionOn dbAfter
  by_cases hok : (UrlParsed.ofUrl c item.1.url).ok = true
  · have hrobots : ¬ (db.isAllowedRobots c (UrlParsed.ofUrl c item.1.url)).1 = true :=
      fun hrobots => h ⟨hok, hrobots⟩
    rw [if_pos hok, if_pos hok]
    refine ⟨fun hallow => hrobots (tryCrawlParsed_eq_allow_iff.mp hallow).1, ?_⟩
    unfold tryCrawlParsed
    dsimp only
    rw [if_neg hrobots]
    split_ifs <;> rfl
  · rw [if_neg hok, if_neg hok]
    exact ⟨nofun, rfl⟩

theorem Quiet.decisionOn_of_crawlable (hquiet : db.Quiet now) {item : GFQRecord × CrawlReads}
    (hhost : item.2.hostCheck.From now) (hglobal : item.2.globalCheck.From now)
    (h : db.Crawlable c item.1) : decisionOn c GFQRecord.url db item = .allow := by
  unfold decisionOn
  rw [if_pos h.1]
  exact tryCrawlParsed_eq_allow_iff.mpr ⟨h.2, hquiet.isAllowedFreq _ hhost hglobal⟩

/-- Records that are not crawlable are all refused and leave the database as it is. -/
theorem tryCrawl_of_not_crawlable {items : List (GFQRecord × CrawlReads)}
    (h : ∀ item ∈ items, ¬ db.Crawlable c item.1) :
    (db.tryCrawl c items).allowed = [] ∧ (db.tryCrawl c items).db = db := by
  unfold tryCrawl
  induction items using List.reverseRecOn with
  | nil => exact ⟨rfl, rfl⟩
  | append_singleton items item ih =>
    obtain ⟨hallowed, hdb⟩ := ih fun item hitem => h item (List.mem_append_left _ hitem)
    obtain ⟨hne, hafter⟩ := refused_of_not_crawlable (h item (by simp))
    rw [tryCrawlLoop_append, allowed_tryCrawlItem, db_tryCrawlItem, hdb, hallowed, if_neg hne]
    exact ⟨rfl, hafter⟩

/-- **The first crawlable record** of a batch is allowed. -/
theorem Quiet.allowed_ne_nil (hquiet : db.Quiet now) {items : List (GFQRecord × CrawlReads)}
    (hreads : ∀ item ∈ items, item.2.hostCheck.From now ∧ item.2.globalCheck.From now)
    (h : ∃ item ∈ items, db.Crawlable c item.1) : (db.tryCrawl c items).allowed ≠ [] := by
  unfold tryCrawl
  induction items using List.reverseRecOn with
  | nil => simp at h
  | append_singleton items item ih =>
    rw [tryCrawlLoop_append, allowed_tryCrawlItem]
    by_cases hbefore : ∃ item ∈ items, db.Crawlable c item.1
    · have hne := ih (fun item hitem => hreads item (List.mem_append_left _ hitem)) hbefore
      simp [hne]
    · obtain ⟨item', hitem', hcrawlable⟩ := h
      rcases List.mem_append.mp hitem' with hmem | hmem
      · exact absurd ⟨item', hmem, hcrawlable⟩ hbefore
      · obtain rfl := List.mem_singleton.mp hmem
        have hdb : (tryCrawlLoop c GFQRecord.url (fun gfq _ => gfq) db items).db = db :=
          (tryCrawl_of_not_crawlable fun item hitem hc => hbefore ⟨item, hitem, hc⟩).2
        obtain ⟨hhost, hglobal⟩ := hreads item' hitem'
        rw [hdb, if_pos (hquiet.decisionOn_of_crawlable hhost hglobal hcrawlable)]
        simp

end HostDb

namespace FetchRounds

variable {env : FetchLoop.Env} {c : Contribs} {s₀ s t : State}

/-- The readings of the clock at the URLs of a call. -/
def Label.reads : Label → List CrawlReads
  | .tryFetchUrls now => now
  | _ => []

/-- The clock does not run back in the round. -/
def Round.ClockRuns (r : Round) : Prop :=
  ∀ now, Label.tryFetchUrls now ∈ r.labels → ∀ reads ∈ now,
    reads.hostCheck.From r.now ∧ reads.globalCheck.From r.now

/-- The clock is read at the URLs of a call only. -/
theorem Round.clockRuns_iff (r : Round) : r.ClockRuns ↔
    ∀ label ∈ r.labels, ∀ reads ∈ label.reads,
      reads.hostCheck.From r.now ∧ reads.globalCheck.From r.now := by
  constructor
  · intro h label hmem reads hreads
    cases label with
    | tryFetchUrls now => exact h now hmem reads hreads
    | _ => cases hreads
  · exact fun h now hmem => h _ hmem

instance (r : Round) : Decidable r.ClockRuns := decidable_of_iff' _ r.clockRuns_iff

/-- The round starts where no crawl is outstanding and the windows are empty. -/
@[mk_iff]
structure StartsQuiet (s : State) (r : Round) : Prop where
  client : s.worker.client = []
  hostDb : s.hostDb.Quiet r.now
  clock : r.ClockRuns

instance (s : State) (r : Round) : Decidable (StartsQuiet s r) :=
  decidable_of_iff' _ (startsQuiet_iff s r)

/-- Some record of the queue is let through by its URL and by robots.txt. -/
def HoldsCrawlable (c : Contribs) (s : State) : Prop :=
  ∃ gfq ∈ s.worker.queue, s.hostDb.Crawlable c gfq

instance (c : Contribs) : DecidablePred (HoldsCrawlable c) := fun _ =>
  inferInstanceAs (Decidable (∃ _ ∈ _, _))

/-! ### Where the records are in a round -/

/-- From `_sendToCurl` on: `rest` has not been tried.  Either nothing was allowed and what could be
is still to be tried, or a record went to the client. -/
structure Sending (c : Contribs) (s₀ s : State) (rest : List GFQRecord) : Prop where
  length : s.worker.queue.length + rest.length + s.worker.client.length + s.worker.answered.length
    = s₀.worker.queue.length + s₀.worker.answered.length
  handed : (s.hostDb = s₀.hostDb ∧ s.worker.client = [] ∧ s.worker.answered = s₀.worker.answered ∧
      rest ⊆ s₀.worker.queue ∧
      ∀ gfq ∈ s₀.worker.queue, s₀.hostDb.Crawlable c gfq → gfq ∈ rest) ∨
    (s₀.worker.answered.length < s.worker.client.length + s.worker.answered.length ∧
      HoldsCrawlable c s₀)

/-- What holds in a round that started at `s₀`. -/
inductive InRound (c : Contribs) (s₀ s : State) : Prop
  | draining (updLocal : ReqBatch) (hth : s.worker.mergeTh = .draining updLocal)
      (hempty : updLocal.reqs = [])
      (hperm : (s.worker.queue ++ s.worker.reqBatch.reqs).Perm s₀.worker.queue)
      (hdb : s.hostDb = s₀.hostDb) (hclient : s.worker.client = [])
      (hanswered : s.worker.answered = s₀.worker.answered)
  | sending (a : ReqBatch) (hth : s.worker.mergeTh = .sending a) (hsending : Sending c s₀ s a.reqs)
  | idle (hth : s.worker.mergeTh = .idle) (hempty : s.worker.reqBatch.reqs = [])
      (hsending : Sending c s₀ s [])

theorem stepWorker_eq_some {label : FetchLoop.Label} :
    s.stepWorker env label = some t ↔
      ∃ worker, FetchLoop.step env s.worker label = some worker ∧
        { s with worker := worker } = t :=
  Option.map_eq_some_iff

theorem step_tryFetchUrls {now : List CrawlReads} :
    step env c s (.tryFetchUrls now) = some t ↔
      now.length = (s.tryUrls env).length ∧
      ∃ worker, FetchLoop.step env s.worker (.tryFetchUrls
          (s.hostDb.tryCrawl c ((s.tryUrls env).zip now)).allowed) = some worker ∧
        ⟨worker, (s.hostDb.tryCrawl c ((s.tryUrls env).zip now)).db⟩ = t := by
  unfold step
  dsimp only
  split_ifs with hlen
  · rw [Option.map_eq_some_iff]
    exact (and_iff_right hlen).symm
  · exact iff_of_false nofun fun h => hlen h.1

theorem step_onResponse {i : ℕ} {success : Bool} {curlerror resp : Str} :
    step env c s (.onResponse i success curlerror resp) = some t →
      ∃ gfq, s.worker.client[i]? = some gfq ∧
        { s.worker with
          client := s.worker.client.eraseIdx i
          answered := s.worker.answered ++ [gfq] } = t.worker := by
  intro h
  obtain ⟨gfq, hgfq, h⟩ := Option.bind_eq_some_iff.mp h
  obtain ⟨worker, hworker, rfl⟩ := Option.map_eq_some_iff.mp h
  obtain ⟨gfq', hgfq', hworker'⟩ := FetchLoop.step_onResponse.mp hworker
  exact ⟨gfq', hgfq', hworker'⟩

/-- An answer of the client moves one of its calls. -/
theorem Sending.onResponse {rest : List GFQRecord} (hs : Sending c s₀ s rest) {i : ℕ}
    {gfq : GFQRecord} (hgfq : s.worker.client[i]? = some gfq)
    (hqueue : t.worker.queue = s.worker.queue)
    (hclient : t.worker.client = s.worker.client.eraseIdx i)
    (hanswered : t.worker.answered = s.worker.answered ++ [gfq]) : Sending c s₀ t rest := by
  have hperm := (Machine.perm_cons_eraseIdx hgfq).length_eq
  rw [List.length_cons] at hperm
  obtain ⟨hlength, hnone | ⟨hmore, hcrawlable⟩⟩ := hs
  · rw [hnone.2.1] at hgfq
    cases hgfq
  · constructor
    · rw [hqueue, hclient, hanswered, List.length_append, List.length_singleton]
      omega
    · refine Or.inr ⟨?_, hcrawlable⟩
      rw [hclient, hanswered, List.length_append, List.length_singleton]
      omega

/-- **A turn of `_sendToCurl`**: it allows a record as soon as one in the cut is crawlable. -/
theorem Sending.tryFetchUrls {a : ReqBatch} (hs : Sending c s₀ s a.reqs) {start : ℤ}
    (hquiet : s₀.hostDb.Quiet start) {now : List CrawlReads}
    (hlen : now.length = (a.getReqs env.maxRequestsInBatch).2.length)
    (hreads : ∀ reads ∈ now, reads.hostCheck.From start ∧ reads.globalCheck.From start)
    {allowedUrls : List GFQRecord}
    (hallowed : allowedUrls
      = (s.hostDb.tryCrawl c ((a.getReqs env.maxRequestsInBatch).2.zip now)).allowed)
    (hsub : allowedUrls.Subperm (a.getReqs env.maxRequestsInBatch).2)
    (hdb : t.hostDb = (s.hostDb.tryCrawl c ((a.getReqs env.maxRequestsInBatch).2.zip now)).db)
    (hqueue : t.worker.queue = s.worker.queue
      ++ FetchLoop.disallowedUrls env (a.getReqs env.maxRequestsInBatch).2 allowedUrls)
    (hclient : t.worker.client = s.worker.client ++ allowedUrls)
    (hanswered : t.worker.answered = s.worker.answered) :
    Sending c s₀ t (a.reqs.drop env.maxRequestsInBatch) := by
  have hback := SortedDiff.length_setDifference_add env.stdSort hsub
  have hbatch := a.getReqs_append_drop env.maxRequestsInBatch
  have hbatch' := congrArg List.length hbatch
  rw [List.length_append] at hbatch'
  obtain ⟨hlength, hhanded⟩ := hs
  constructor
  · rw [hqueue, hclient, hanswered, List.length_append, List.length_append]
    unfold FetchLoop.disallowedUrls
    omega
  rcases hhanded with ⟨hdb₀, hclient₀, hanswered₀, hsubset, hcrawlable⟩ | ⟨hmore, hcrawlable⟩
  · rw [hdb₀] at hallowed hdb
    have hcuts : ∀ gfq ∈ (a.getReqs env.maxRequestsInBatch).2, gfq ∈ a.reqs := fun gfq hgfq =>
      hbatch ▸ List.mem_append_left _ hgfq
    by_cases hcut : ∃ gfq ∈ (a.getReqs env.maxRequestsInBatch).2, s₀.hostDb.Crawlable c gfq
    · obtain ⟨gfq, hgfq, hgfq'⟩ := hcut
      have hitem : gfq ∈ ((a.getReqs env.maxRequestsInBatch).2.zip now).map Prod.fst := by
        rw [List.map_fst_zip hlen.ge]
        exact hgfq
      obtain ⟨item, hzip, rfl⟩ := List.mem_map.mp hitem
      have hne : allowedUrls ≠ [] := by
        rw [hallowed]
        exact hquiet.allowed_ne_nil (fun item hitem => hreads _ (List.of_mem_zip hitem).2)
          ⟨item, hzip, hgfq'⟩
      have hpos := List.length_pos_of_ne_nil hne
      refine Or.inr ⟨?_, item.1, hsubset (hcuts _ hgfq), hgfq'⟩
      rw [hclient, hanswered, hanswered₀, List.length_append]
      omega
    · have hnone : ∀ item ∈ (a.getReqs env.maxRequestsInBatch).2.zip now,
          ¬ s₀.hostDb.Crawlable c item.1 :=
        fun item hitem h => hcut ⟨item.1, (List.of_mem_zip hitem).1, h⟩
      have hrefused := HostDb.tryCrawl_of_not_crawlable hnone
      rw [hrefused.1] at hallowed
      refine Or.inl ⟨hdb.trans hrefused.2, ?_, hanswered.trans hanswered₀, ?_, ?_⟩
      · rw [hclient, hclient₀, hallowed]
        rfl
      · exact fun gfq hgfq => hsubset (List.mem_of_mem_drop hgfq)
      · intro gfq hgfq h
        have hrest := hcrawlable gfq hgfq h
        rw [← hbatch] at hrest
        exact (List.mem_append.mp hrest).resolve_left fun hmem => hcut ⟨gfq, hmem, h⟩
  · refine Or.inr ⟨?_, hcrawlable⟩
    rw [hclient, hanswered, List.length_append]
    omega

/-- **One step** of a round that started quiet. -/
theorem inRound_step {start : ℤ} {label : Label} (hquiet : s₀.hostDb.Quiet start)
    (hclock : ∀ now, label = .tryFetchUrls now → ∀ reads ∈ now,
      reads.hostCheck.From start ∧ reads.globalCheck.From start)
    (hlabel : label ≠ .startRound) (h : step env c s label = some t) (hs : InRound c s₀ s) :
    InRound c s₀ t := by
  cases label with
  | startRound => exact absurd rfl hlabel
  | accEvent i =>
    obtain ⟨worker, hworker, rfl⟩ := stepWorker_eq_some.mp h
    obtain ⟨updLocal, req, hth, hreq, rfl⟩ := FetchLoop.step_accEvent.mp hworker
    cases hs with
    | draining updLocal' hth' hempty hperm hdb hclient hanswered =>
      refine .draining updLocal' hth' hempty ?_ hdb hclient hanswered
      have hqueue := Machine.perm_cons_eraseIdx hreq
      have hmove : (s.worker.queue.eraseIdx i ++ (s.worker.reqBatch.reqs ++ [req])).Perm
          (s.worker.queue ++ s.worker.reqBatch.reqs) := by
        rw [← List.append_assoc]
        exact (List.perm_append_singleton req _).trans (hqueue.symm.append_right _)
      exact hmove.trans hperm
    | sending a hth' hsending => cases hth.symm.trans hth'
    | idle hth' hempty hsending => cases hth.symm.trans hth'
  | drained =>
    obtain ⟨worker, hworker, rfl⟩ := stepWorker_eq_some.mp h
    obtain ⟨updLocal, hth, hqueue, rfl⟩ := FetchLoop.step_drained.mp hworker
    cases hs with
    | draining updLocal' hth' hempty hperm hdb hclient hanswered =>
      obtain rfl := FetchLoop.MergeTh.draining.inj (hth.symm.trans hth')
      rw [hqueue, List.nil_append] at hperm
      have hreqs : (s.worker.reqBatch.merge updLocal).reqs = s.worker.reqBatch.reqs := by
        show s.worker.reqBatch.reqs ++ updLocal.reqs = _
        rw [hempty, List.append_nil]
      refine .sending _ rfl ⟨?_, Or.inl ⟨hdb, hclient, hanswered, ?_, ?_⟩⟩
      · show s.worker.queue.length + _ + s.worker.client.length + s.worker.answered.length = _
        rw [hreqs, hqueue, hclient, hanswered, ← hperm.length_eq, List.length_nil]
        omega
      · rw [hreqs]
        exact hperm.subset
      · intro gfq hgfq _
        rw [hreqs]
        exact hperm.symm.subset hgfq
    | sending a hth' hsending => cases hth.symm.trans hth'
    | idle hth' hempty hsending => cases hth.symm.trans hth'
  | tryFetchUrls now =>
    obtain ⟨hlen, worker, hworker, rfl⟩ := step_tryFetchUrls.mp h
    obtain ⟨a, hth, -, hsub, rfl⟩ := FetchLoop.step_tryFetchUrls.mp hworker
    have hcut : s.tryUrls env = (a.getReqs env.maxRequestsInBatch).2 := by rw [State.tryUrls, hth]
    rw [hcut] at hlen hsub ⊢
    cases hs with
    | draining updLocal' hth' hempty hperm hdb hclient hanswered => cases hth.symm.trans hth'
    | sending a' hth' hsending =>
      obtain rfl := FetchLoop.MergeTh.sending.inj (hth.symm.trans hth')
      exact .sending _ rfl
        (hsending.tryFetchUrls hquiet hlen (hclock now rfl) rfl hsub rfl rfl rfl rfl)
    | idle hth' hempty hsending => cases hth.symm.trans hth'
  | sent =>
    obtain ⟨worker, hworker, rfl⟩ := stepWorker_eq_some.mp h
    obtain ⟨a, hth, hempty, rfl⟩ := FetchLoop.step_sent.mp hworker
    cases hs with
    | draining updLocal' hth' hempty hperm hdb hclient hanswered => cases hth.symm.trans hth'
    | sending a' hth' hsending =>
      obtain rfl := FetchLoop.MergeTh.sending.inj (hth.symm.trans hth')
      have hreqs : a.reqs = [] := List.isEmpty_iff.mp hempty
      exact .idle rfl hreqs ⟨hreqs ▸ hsending.length, hreqs ▸ hsending.handed⟩
    | idle hth' hempty' hsending => cases hth.symm.trans hth'
  | onResponse i success curlerror resp =>
    obtain ⟨gfq, hgfq, hworker⟩ := step_onResponse h
    have hqueue := (congrArg FetchLoop.State.queue hworker).symm
    have hclient := (congrArg FetchLoop.State.client hworker).symm
    have hanswered := (congrArg FetchLoop.State.answered hworker).symm
    have hmergeTh := (congrArg FetchLoop.State.mergeTh hworker).symm
    have hreqBatch := (congrArg FetchLoop.State.reqBatch hworker).symm
    cases hs with
    | draining updLocal' hth' hempty hperm hdb hclient' hanswered' =>
      rw [hclient'] at hgfq
      cases hgfq
    | sending a hth' hsending =>
      exact .sending a (hmergeTh.trans hth') (hsending.onResponse hgfq hqueue hclient hanswered)
    | idle hth' hempty hsending =>
      exact .idle (hmergeTh.trans hth') ((congrArg ReqBatch.reqs hreqBatch).trans hempty)
        (hsending.onResponse hgfq hqueue hclient hanswered)

/-! ### Rounds -/

/-- Between two rounds the batch is empty. -/
def Ready (s : State) : Prop := s.worker.mergeTh = .idle ∧ s.worker.reqBatch.reqs = []

theorem roundStep_eq_some {r : Round} :
    roundStep env c s r = some t ↔ r.OneStart ∧
      Machine.run (step env c) s (.startRound :: r.labels) = some t ∧ t.worker.mergeTh = .idle := by
  unfold roundStep
  split_ifs with hone
  · simp [Option.filter_eq_some_iff, hone]
  · simp [hone]

theorem inRound_run {start : ℤ} {labels : List Label} (hquiet : s₀.hostDb.Quiet start)
    (hclock : ∀ now, .tryFetchUrls now ∈ labels → ∀ reads ∈ now,
      reads.hostCheck.From start ∧ reads.globalCheck.From start)
    (hlabels : .startRound ∉ labels) (h : Machine.run (step env c) s labels = some t)
    (hs : InRound c s₀ s) : InRound c s₀ t := by
  induction labels generalizing s with
  | nil => exact Option.some.inj h ▸ hs
  | cons label labels ih =>
    obtain ⟨u, hu, hrest⟩ := Machine.run_cons_eq_some.mp h
    rw [List.mem_cons, not_or] at hlabels
    refine ih (fun now hnow => hclock now (List.mem_cons_of_mem _ hnow)) hlabels.2 hrest ?_
    refine inRound_step hquiet (fun now heq => hclock now ?_) (Ne.symm hlabels.1) hu hs
    exact heq ▸ List.mem_cons_self

/-- **One round** that starts quiet shortens the queue exactly if this holds a crawlable record. -/
theorem roundStep_reduces_iff {r : Round} (hs : Ready s) (hquiet : StartsQuiet s r)
    (h : roundStep env c s r = some t) :
    t.worker.queue.length < s.worker.queue.length ↔ HoldsCrawlable c s := by
  obtain ⟨hone, hrun, hidle⟩ := roundStep_eq_some.mp h
  obtain ⟨u, hu, hrest⟩ := Machine.run_cons_eq_some.mp hrun
  obtain ⟨worker, hworker, rfl⟩ := stepWorker_eq_some.mp hu
  obtain ⟨-, rfl⟩ := FetchLoop.step_startRound.mp hworker
  have hstart : InRound c s { s with worker := { s.worker with mergeTh := .draining default } } :=
    .draining default rfl rfl (by rw [hs.2, List.append_nil]) rfl hquiet.client rfl
  cases inRound_run hquiet.hostDb hquiet.clock hone hrest hstart with
  | draining updLocal hth => cases hidle.symm.trans hth
  | sending a hth => cases hidle.symm.trans hth
  | idle hth hempty hsending =>
    obtain ⟨hlength, hhanded⟩ := hsending
    rw [List.length_nil] at hlength
    rcases hhanded with ⟨-, hclient, hanswered, -, hnone⟩ | ⟨hmore, hcrawlable⟩
    · rw [hclient, hanswered, List.length_nil] at hlength
      refine iff_of_false (by omega) ?_
      rintro ⟨gfq, hgfq, hc⟩
      cases hnone gfq hgfq hc
    · exact iff_of_true (by omega) hcrawlable

/-- Where the thread is idle the batch is empty. -/
theorem reqBatch_step {label : Label} (h : step env c s label = some t)
    (hs : s.worker.mergeTh = .idle → s.worker.reqBatch.reqs = []) :
    t.worker.mergeTh = .idle → t.worker.reqBatch.reqs = [] := by
  cases label with
  | startRound =>
    obtain ⟨worker, hworker, rfl⟩ := stepWorker_eq_some.mp h
    obtain ⟨-, rfl⟩ := FetchLoop.step_startRound.mp hworker
    exact nofun
  | accEvent i =>
    obtain ⟨worker, hworker, rfl⟩ := stepWorker_eq_some.mp h
    obtain ⟨updLocal, req, hth, -, rfl⟩ := FetchLoop.step_accEvent.mp hworker
    exact fun hidle => nomatch hth.symm.trans hidle
  | drained =>
    obtain ⟨worker, hworker, rfl⟩ := stepWorker_eq_some.mp h
    obtain ⟨updLocal, -, -, rfl⟩ := FetchLoop.step_drained.mp hworker
    exact nofun
  | tryFetchUrls now =>
    obtain ⟨-, worker, hworker, rfl⟩ := step_tryFetchUrls.mp h
    obtain ⟨a, -, -, -, rfl⟩ := FetchLoop.step_tryFetchUrls.mp hworker
    exact nofun
  | sent =>
    obtain ⟨worker, hworker, rfl⟩ := stepWorker_eq_some.mp h
    obtain ⟨a, -, hempty, rfl⟩ := FetchLoop.step_sent.mp hworker
    exact fun _ => List.isEmpty_iff.mp hempty
  | onResponse i success curlerror resp =>
    obtain ⟨gfq, -, hworker⟩ := step_onResponse h
    rw [← hworker]
    exact hs

theorem ready_roundStep {r : Round} (h : roundStep env c s r = some t) (hs : Ready s) :
    Ready t := by
  obtain ⟨-, hrun, hidle⟩ := roundStep_eq_some.mp h
  exact ⟨hidle, Machine.run_induction (fun _ _ _ => reqBatch_step) hrun (fun _ => hs.2) hidle⟩

/-- The round shortens the queue. -/
def Reduces (env : FetchLoop.Env) (c : Contribs) (s : State) (r : Round) : Prop :=
  ∀ t, roundStep env c s r = some t → t.worker.queue.length < s.worker.queue.length

/-- Every round shortens the queue, and the worker reads Kafka again after as many rounds as the
queue is longer than what is read at once. -/
def Drains (env : FetchLoop.Env) (c : Contribs) (kafkaReadBatchSize : ℕ) (s : State)
    (rounds : List Round) : Prop :=
  Machine.Meets (roundStep env c) (Reduces env c) s rounds ∧
    ∀ t, Machine.run (roundStep env c) s rounds = some t →
      s.worker.queue.length ≤ kafkaReadBatchSize + rounds.length →
        readsKafka kafkaReadBatchSize t = true

/-- Rounds that shorten the queue do so by one record each at least. -/
theorem length_add_le_of_meets_reduces {rounds : List Round}
    (h : Machine.Meets (roundStep env c) (Reduces env c) s rounds)
    (hrun : Machine.run (roundStep env c) s rounds = some t) :
    t.worker.queue.length + rounds.length ≤ s.worker.queue.length := by
  induction rounds generalizing s with
  | nil => exact (congrArg (·.worker.queue.length) (Option.some.inj hrun)).ge
  | cons r rounds ih =>
    obtain ⟨u, hu, hrest⟩ := Machine.run_cons_eq_some.mp hrun
    have hreduced := h.1 u hu
    have hrounds := ih (h.2 u hu) hrest
    rw [List.length_cons]
    omega

/-! ### A round ends -/

/-- How many steps the thread of the merge queue takes at most before the round is over. -/
def State.toDo (s : State) : ℕ :=
  match s.worker.mergeTh with
  | .idle => 0
  | .draining updLocal =>
    2 * s.worker.queue.length + s.worker.reqBatch.size + updLocal.size + 2
  | .sending a => a.size + 1

/-- As long as the thread is not idle it has a step to take, with any readings of the clock, and
less to do after it. -/
theorem exists_step_toDo_lt (hmax : 1 ≤ env.maxRequestsInBatch) (c : Contribs) (s : State)
    (hs : s.worker.mergeTh ≠ .idle) (reads : CrawlReads) :
    ∃ label t, step env c s label = some t ∧ label ≠ .startRound ∧
      (∀ now, label = .tryFetchUrls now → ∀ r ∈ now, r = reads) ∧ t.toDo < s.toDo := by
  obtain ⟨worker, hostDb⟩ := s
  cases hth : worker.mergeTh with
  | idle => exact absurd hth hs
  | draining updLocal =>
    cases hqueue : worker.queue with
    | nil =>
      refine ⟨.drained, _, stepWorker_eq_some.mpr
        ⟨_, FetchLoop.step_drained.mpr ⟨updLocal, hth, hqueue, rfl⟩, rfl⟩, nofun, nofun, ?_⟩
      simp only [State.toDo, hth, hqueue, ReqBatch.merge, ReqBatch.size, List.length_append]
      omega
    | cons req queue =>
      have hreq : worker.queue[0]? = some req := by rw [hqueue]; rfl
      refine ⟨.accEvent 0, _, stepWorker_eq_some.mpr
        ⟨_, FetchLoop.step_accEvent.mpr ⟨updLocal, req, hth, hreq, rfl⟩, rfl⟩, nofun, nofun, ?_⟩
      simp only [State.toDo, hth, hqueue, ReqBatch.acc, ReqBatch.size, List.length_append,
        List.eraseIdx_cons_zero, List.length_cons, List.length_nil]
      omega
  | sending a =>
    by_cases hempty : a.empty = true
    · refine ⟨.sent, _, stepWorker_eq_some.mpr
        ⟨_, FetchLoop.step_sent.mpr ⟨a, hth, hempty, rfl⟩, rfl⟩, nofun, nofun, ?_⟩
      simp only [State.toDo, hth]
      omega
    · have hcut : State.tryUrls env ⟨worker, hostDb⟩ = (a.getReqs env.maxRequestsInBatch).2 := by
        rw [State.tryUrls, hth]
      have hpos : 0 < a.reqs.length :=
        List.length_pos_of_ne_nil fun hnil => hempty (List.isEmpty_iff.mpr hnil)
      have hsub := (HostDb.allowed_tryCrawl_sublist c hostDb
        ((a.getReqs env.maxRequestsInBatch).2.zip
          (List.replicate (a.getReqs env.maxRequestsInBatch).2.length reads))).subperm
      rw [List.map_fst_zip (by rw [List.length_replicate])] at hsub
      refine ⟨.tryFetchUrls (List.replicate (a.getReqs env.maxRequestsInBatch).2.length reads), _,
        step_tryFetchUrls.mpr ⟨?_, _, FetchLoop.step_tryFetchUrls.mpr
          ⟨a, hth, Bool.eq_false_iff.mpr hempty, ?_, rfl⟩, rfl⟩, nofun, ?_, ?_⟩
      · rw [hcut, List.length_replicate]
      · rw [hcut]
        exact hsub
      · intro now heq r hr
        cases heq
        exact List.eq_of_mem_replicate hr
      · simp only [State.toDo, hth, ReqBatch.size, List.length_drop]
        omega

/-- Wherever the thread is in a round, it can go on to the end of it. -/
theorem exists_run_idle (hmax : 1 ≤ env.maxRequestsInBatch) (c : Contribs) (s : State)
    (reads : CrawlReads) :
    ∃ labels t, Machine.run (step env c) s labels = some t ∧ t.worker.mergeTh = .idle ∧
      .startRound ∉ labels ∧ ∀ now, .tryFetchUrls now ∈ labels → ∀ r ∈ now, r = reads := by
  induction htodo : s.toDo using Nat.strong_induction_on generalizing s with
  | _ n ih =>
    by_cases hidle : s.worker.mergeTh = .idle
    · exact ⟨[], s, rfl, hidle, nofun, nofun⟩
    · obtain ⟨label, u, hu, hlabel, hreads, hlt⟩ :=
        exists_step_toDo_lt hmax c s hidle reads
      obtain ⟨labels, t, hrun, ht, hlabels, hrest⟩ := ih u.toDo (htodo ▸ hlt) u rfl
      refine ⟨label :: labels, t, Machine.run_cons_eq_some.mpr ⟨u, hu, hrun⟩, ht, ?_, ?_⟩
      · exact fun hmem => (List.mem_cons.mp hmem).elim (fun h => hlabel h.symm) hlabels
      · intro now hmem
        rcases List.mem_cons.mp hmem with h | h
        · exact hreads now h.symm
        · exact hrest now h

/-- **A round ends**, whatever the queue holds. -/
theorem exists_roundStep (hmax : 1 ≤ env.maxRequestsInBatch) (c : Contribs) (hs : Ready s)
    (now : ℤ) :
    ∃ r t, r.now = now ∧ r.ClockRuns ∧ roundStep env c s r = some t := by
  have hstart : step env c s .startRound
      = some { s with worker := { s.worker with mergeTh := .draining default } } :=
    stepWorker_eq_some.mpr ⟨_, FetchLoop.step_startRound.mpr ⟨hs.1, rfl⟩, rfl⟩
  obtain ⟨labels, t, hrun, hidle, hlabels, hreads⟩ := exists_run_idle hmax c
    { s with worker := { s.worker with mergeTh := .draining default } } (.at now)
  refine ⟨⟨now, labels⟩, t, rfl, fun readings hmem r hr => ?_, roundStep_eq_some.mpr
    ⟨hlabels, Machine.run_cons_eq_some.mpr ⟨_, hstart, hrun⟩, hidle⟩⟩
  rw [hreads readings hmem r hr]
  exact ⟨⟨le_rfl, le_rfl, le_rfl⟩, le_rfl, le_rfl, le_rfl⟩

/-! ### Draining -/

/-- **When the queue drains.**  In rounds that start with no crawl outstanding, empty windows and
limits of at least 1, every round shortens the queue, and so the worker reads Kafka again, if and
only if each of them begins with a record in the queue that its URL and robots.txt let through. -/
theorem drains_iff_meets_holdsCrawlable (env : FetchLoop.Env) (c : Contribs)
    (kafkaReadBatchSize : ℕ) (s : State) (rounds : List Round) (hs : Ready s)
    (hquiet : Machine.Meets (roundStep env c) StartsQuiet s rounds)
    (hrun : ∃ t, Machine.run (roundStep env c) s rounds = some t) :
    Drains env c kafkaReadBatchSize s rounds ↔
      Machine.Meets (roundStep env c) (fun s _ => HoldsCrawlable c s) s rounds := by
  obtain ⟨t, hrun⟩ := hrun
  have hreduces : Machine.Meets (roundStep env c) (Reduces env c) s rounds ↔
      Machine.Meets (roundStep env c) (fun s _ => HoldsCrawlable c s) s rounds := by
    refine Machine.meets_congr_of_meets (fun _ _ _ => ready_roundStep) ?_ hquiet hrun hs
    intro s r u hu hready hstart
    rw [← roundStep_reduces_iff hready hstart hu]
    exact ⟨fun h => h u hu, fun h u' hu' => Option.some.inj (hu.symm.trans hu') ▸ h⟩
  rw [← hreduces]
  refine and_iff_left_of_imp fun hmeets t' hrun' hlen => ?_
  have hbound := length_add_le_of_meets_reduces hmeets hrun'
  unfold readsKafka
  simp only [Bool.not_eq_true', decide_eq_false_iff_not]
  omega

/-- Two pages of a host whose robots.txt is known and, between them, one of an unknown host wait in
the queue. -/
def threePages : State where
  worker := { FetchLoop.State.init with
    queue := ["http://a/x", "http://b/", "http://a/y"].map fun url => ⟨.ofString url, 0⟩ }
  hostDb := .openDb ⟨1, 1, 1, 1, 1⟩ (Std.ExtTreeMap.empty.insert (.ofString "a") default)

/-- In the first round one page of the known host is fetched; two days later it is the other's
turn. -/
def twoDaysApart : List Round :=
  [⟨0, [.accEvent 0, .accEvent 0, .accEvent 0, .drained, .tryFetchUrls [.at 0, .at 0],
      .tryFetchUrls [.at 1], .sent, .onResponse 0 true default (.ofString "OK")]⟩,
    ⟨days 2, [.accEvent 0, .accEvent 0, .drained, .tryFetchUrls [.at (days 2), .at (days 2)],
      .sent]⟩]

/-- The page of the unknown host is pushed back twice. -/
theorem drains_iff_meets_holdsCrawlable_twoDaysApart :
    Drains .twoInBatch .plainHttp 1 threePages twoDaysApart :=
  (drains_iff_meets_holdsCrawlable .twoInBatch .plainHttp 1 _ _ ⟨rfl, rfl⟩ (by decide)
    (Option.isSome_iff_exists.mp (by decide))).mpr (by decide)

/-- A page of a host whose robots.txt is not known. -/
def unknownHost : State where
  worker := { FetchLoop.State.init with queue := [⟨.ofString "http://a/", 0⟩] }
  hostDb := .openDb ⟨1, 1, 1, 1, 1⟩ ∅

/-- It is pushed back. -/
theorem not_drains_unknownHost :
    ¬ Drains .twoInBatch .plainHttp 0 unknownHost
      [⟨0, [.accEvent 0, .drained, .tryFetchUrls [.at 0], .sent]⟩] := by
  intro h
  have hrun : ∃ t, Machine.run (roundStep .twoInBatch .plainHttp) unknownHost
      [⟨0, [.accEvent 0, .drained, .tryFetchUrls [.at 0], .sent]⟩] = some t ∧
        readsKafka 0 t = false := by
    decide
  obtain ⟨t, ht, hsleeps⟩ := hrun
  exact absurd (h.2 t ht le_rfl) (by simp [hsleeps])

end FetchRounds

end Contentv1
