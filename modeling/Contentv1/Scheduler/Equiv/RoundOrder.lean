import Contentv1.Scheduler.Equiv.Rounds
import Contentv1.Ldb.Equiv.UrlDb

/-!
# The results of a round and its attempts

A round writes its records to Kafka before it enters the attempts in `UrlDb`, so a result may come
in for an attempt that is not entered yet.

`along_agrees_of_afterRound`: in a run with one round whose results are all handled after
`setEnqueued`, the last attempt of every reported URL has the reported status and all attempts stay
sorted.  A result that is faster is overtaken (`not_agrees_fastResult`): the attempt of the round is
put behind the one that the result has made up for a new URL.
-/

namespace Contentv1.EnqueueLoop

/-- The status of the last result for a URL. -/
def lastReported (reported : List FetchResult) (url : Url) : Option AttemptStatus :=
  (reported.filter fun res => res.gfq.url = url).getLast?.map FetchResult.status

/-- Every reported URL has the reported status, and all attempts are sorted by time. -/
structure Agrees (reported : List FetchResult) (urlDb : UrlDb) : Prop where
  status : ∀ url status, lastReported reported url = some status →
    (urlDb.attemptsOf url).getLast?.map CrawlAttempt.status = some status
  sorted : ∀ url, (urlDb.attemptsOf url).Pairwise fun a b => a.tp ≤ b.tp

/-- The results that a label brings. -/
def Label.results : Label → List FetchResult
  | .onFetched results _ => results
  | _ => []

/-- The step does not reach the defect: results come after the round has entered its attempts. -/
def Label.AfterRound (s : State) (a : Label) : Prop :=
  a.results = [] ∨ s.enqueueTh = .returned

instance (s : State) (a : Label) : Decidable (a.AfterRound s) :=
  inferInstanceAs (Decidable (_ ∨ _))

variable {env : Env} {start : ℤ} {s t : State}

theorem lastReported_append (reported : List FetchResult) (res : FetchResult) (url : Url) :
    lastReported (reported ++ [res]) url
      = if res.gfq.url = url then some res.status else lastReported reported url := by
  unfold lastReported
  rw [List.filter_append]
  split_ifs with h
  · rw [List.filter_cons_of_pos (by simpa using h), List.filter_nil, List.getLast?_concat]
    rfl
  · rw [List.filter_cons_of_neg (by simpa using h), List.filter_nil, List.append_nil]

theorem agrees_setStatus {misc : MiscTime} {reported : List FetchResult} {db db' : UrlDb}
    {res : FetchResult} {now : ℤ} (hs : Agrees reported db)
    (h : db.setStatus misc res now = some db') : Agrees (reported ++ [res]) db' := by
  refine ⟨fun url status hlast => ?_, UrlDb.pairwise_setStatus h hs.sorted⟩
  rw [lastReported_append] at hlast
  split_ifs at hlast with hurl
  · subst hurl
    obtain ⟨init, last, hafter, -⟩ := UrlDb.setStatus_eq_some h
    rw [hafter, List.getLast?_concat]
    exact hlast
  · rw [UrlDb.attemptsOf_setStatus_of_ne hurl h]
    exact hs.status url status hlast

/-- The results of a call are handled one by one. -/
theorem agrees_onFetched {misc : MiscTime} {reported results : List FetchResult} {db db' : UrlDb}
    {now : ℤ} (hs : Agrees reported db) (h : db.onFetched misc results now = some db') :
    Agrees (reported ++ results) db' := by
  unfold UrlDb.onFetched at h
  induction results generalizing reported db with
  | nil =>
    obtain rfl := Option.some.inj h
    rwa [List.append_nil]
  | cons res results ih =>
    rw [List.foldlM_cons] at h
    obtain ⟨db₁, h₁, hrest⟩ := Option.bind_eq_some_iff.mp h
    have hall := ih (agrees_setStatus hs h₁) hrest
    rwa [List.append_assoc, List.singleton_append] at hall

/-- What holds in a run with one round. -/
structure Ordered (env : Env) (start : ℤ) (s : State) : Prop where
  agrees : Agrees s.reported s.urlDb
  /-- Before the attempts are entered nothing is reported and all attempts are older. -/
  before : s.enqueueTh ≠ .returned → s.reported = [] ∧
    ∀ url, ∀ a ∈ s.urlDb.attemptsOf url, a.tp ≤ env.misc.roundSecs start
  attemptTp : ∀ rest pushUrls attemptTp, s.enqueueTh = .pushing rest pushUrls attemptTp ∨
    s.enqueueTh = .saved pushUrls attemptTp → start ≤ attemptTp

/-- The steps of the round that leave `UrlDb` alone. -/
theorem Ordered.of_urlDb_eq (hs : Ordered env start s) (hdb : t.urlDb = s.urlDb)
    (hreported : t.reported = s.reported) (hth : s.enqueueTh ≠ .returned)
    (htp : ∀ rest pushUrls attemptTp, t.enqueueTh = .pushing rest pushUrls attemptTp ∨
      t.enqueueTh = .saved pushUrls attemptTp → start ≤ attemptTp) : Ordered env start t := by
  refine ⟨?_, fun _ => ?_, htp⟩
  · rw [hdb, hreported]
    exact hs.agrees
  · rw [hdb, hreported]
    exact hs.before hth

theorem ordered_step (hround : env.misc.RoundsInOrder)
    (hclock : ∀ now, env.clock now → start ≤ now) {a : Label} (h : step env s a = some t)
    (hok : a.AfterRound s ∧ a ≠ .sleep) (hs : Ordered env start s) : Ordered env start t := by
  cases a with
  | start enqueuedFirst =>
    obtain ⟨hth, rfl⟩ := step_start.mp h
    refine hs.of_urlDb_eq rfl rfl (by rw [hth]; nofun) ?_
    rintro rest pushUrls attemptTp (heq | heq) <;> cases heq
  | readCounter =>
    obtain ⟨read, todo, crawledToday, inProgress, hth, rfl⟩ := step_readCounter.mp h
    refine hs.of_urlDb_eq rfl rfl (by rw [hth]; nofun) ?_
    cases read <;>
    · rintro rest pushUrls attemptTp (heq | heq) <;> cases heq
  | search hours first reads attemptTp =>
    obtain ⟨crawledToday, inProgress, pushUrls, hth, htp, -, rfl⟩ := step_search.mp h
    refine hs.of_urlDb_eq rfl rfl (by rw [hth]; nofun) ?_
    rintro rest urls tp (heq | heq) <;> cases heq
    exact hclock attemptTp htp
  | push =>
    obtain ⟨url, rest, pushUrls, attemptTp, hth, rfl⟩ := step_push.mp h
    refine hs.of_urlDb_eq rfl rfl (by rw [hth]; nofun) ?_
    rintro rest' urls tp (heq | heq) <;> cases heq
    exact hs.attemptTp (url :: rest) pushUrls attemptTp (Or.inl hth)
  | saveEnqueued now =>
    obtain ⟨pushUrls, attemptTp, db, hth, -, -, rfl⟩ := step_saveEnqueued.mp h
    refine hs.of_urlDb_eq rfl rfl (by rw [hth]; nofun) ?_
    rintro rest urls tp (heq | heq) <;> cases heq
    exact hs.attemptTp [] pushUrls attemptTp (Or.inl hth)
  | setEnqueued =>
    obtain ⟨pushUrls, attemptTp, hth, rfl⟩ := step_setEnqueued.mp h
    -- all stored attempts are older than the round, so its own go to the end of a sorted list
    obtain ⟨hreported, hle⟩ := hs.before (by rw [hth]; nofun)
    have htp := hround (hs.attemptTp [] pushUrls attemptTp (Or.inr hth))
    have hsorted := UrlDb.sortedUpTo_setEnqueued pushUrls fun url =>
      ⟨hs.agrees.sorted url, fun a ha => (hle url a ha).trans htp⟩
    refine ⟨⟨?_, fun url => (hsorted url).1⟩, fun hne => absurd rfl hne, ?_⟩
    · intro url status hlast
      rw [hreported] at hlast
      cases hlast
    · rintro rest urls tp (heq | heq) <;> cases heq
  | sleep => exact absurd rfl hok.2
  | onFetched results now =>
    obtain ⟨-, -, urlDb, hdb, rfl⟩ := step_onFetched.mp h
    rcases hok.1 with hnil | hth
    · -- a call without results
      obtain rfl : results = [] := hnil
      obtain rfl := Option.some.inj hdb
      refine ⟨?_, fun hne => ?_, hs.attemptTp⟩
      · rw [List.append_nil]
        exact hs.agrees
      · rw [List.append_nil]
        exact hs.before hne
    · exact ⟨agrees_onFetched hs.agrees hdb, fun hne => absurd hth hne, hs.attemptTp⟩
  | saveResult i now =>
    obtain ⟨status, cnt, rest, db, -, -, -, rfl⟩ := step_saveResult.mp h
    exact ⟨hs.agrees, hs.before, hs.attemptTp⟩
  | crawled a =>
    obtain ⟨db, -, rfl⟩ := step_crawled.mp h
    exact ⟨hs.agrees, hs.before, hs.attemptTp⟩

/-- **One round.**  When all results come after the attempts are entered, the attempts agree with
the results all along. -/
theorem along_agrees_of_afterRound (env : Env) {start : ℤ} (hround : env.misc.RoundsInOrder)
    (hclock : ∀ now, env.clock now → start ≤ now) {urlDb : UrlDb}
    (hbefore : ∀ url, UrlDb.SortedUpTo (env.misc.roundSecs start) (urlDb.attemptsOf url))
    {l : List Label} (hone : Label.sleep ∉ l)
    (hafter : Machine.Meets (step env) (fun s a => a.AfterRound s) (.init urlDb) l) :
    Machine.Along (step env) (fun s => Agrees s.reported s.urlDb) (.init urlDb) l := by
  have hinit : Ordered env start (.init urlDb) := by
    refine ⟨⟨nofun, fun url => (hbefore url).1⟩, fun _ => ⟨rfl, fun url => (hbefore url).2⟩, ?_⟩
    rintro rest pushUrls attemptTp (heq | heq) <;> cases heq
  have hboth := hafter.and_of_forall_mem fun a ha => ne_of_mem_of_not_mem ha hone
  have halong := Machine.along_of_meets (P := Ordered env start)
    (fun s a t h ok hs => ordered_step hround hclock h ok hs) hboth hinit
  exact halong.mono fun s hs => hs.agrees

/-- The clock near the epoch, with a quota of one URL. -/
def Env.fromEpoch : Env where
  misc := .nearEpoch
  limitVector v n := v.take n.toNat
  targetDayCrawl := 1
  clock now := decide (0 ≤ now)

/-- A round up to the write to Kafka, for one URL. -/
def pushOne (url : Url) : List Label :=
  .start true :: List.replicate 9 .readCounter ++ [.search 0 [(url, 1)] [] (seconds 1), .push]

/-- The worker's answer to the record of the round. -/
def answer (url : Url) (now : ℤ) : Label :=
  .onFetched [⟨⟨url, 1⟩, .ok, default, default⟩] now

/-- The answer comes before the attempt is entered. -/
def fastResult : List Label :=
  pushOne (Str.ofString "http://a/") ++ [answer (Str.ofString "http://a/") (seconds 2),
    .saveEnqueued (seconds 2), .setEnqueued, .saveResult 0 (seconds 3)]

/-- The attempt stays ENQUEUED, behind one that is later than it. -/
theorem not_agrees_fastResult :
    ∃ s, Machine.run (step .fromEpoch) (.init default) fastResult = some s ∧
      s.enqueueTh = .returned ∧ s.calls = [[]] ∧
      s.urlDb.attemptsOf (Str.ofString "http://a/")
        = [⟨seconds 2, .ok⟩, ⟨seconds 1, .enqueued⟩] ∧
      ¬ Agrees s.reported s.urlDb := by
  have hrun : ∃ s, Machine.run (step .fromEpoch) (.init default) fastResult = some s ∧
      s.enqueueTh = .returned ∧ s.calls = [[]] ∧
      s.urlDb.attemptsOf (Str.ofString "http://a/")
        = [⟨seconds 2, .ok⟩, ⟨seconds 1, .enqueued⟩] := by
    decide
  obtain ⟨s, hs, hth, hcalls, hattempts⟩ := hrun
  refine ⟨s, hs, hth, hcalls, hattempts, fun h => ?_⟩
  have hsorted := h.sorted (Str.ofString "http://a/")
  rw [hattempts] at hsorted
  exact absurd hsorted (by decide)

/-- The answer comes after the attempt is entered. -/
def slowResult : List Label :=
  pushOne (Str.ofString "http://a/") ++ [.saveEnqueued (seconds 1), .setEnqueued,
    answer (Str.ofString "http://a/") (seconds 2), .saveResult 0 (seconds 3)]

theorem along_agrees_of_afterRound_slowResult :
    Machine.Along (step .fromEpoch) (fun s => Agrees s.reported s.urlDb) (.init default)
      slowResult := by
  have hround : Env.fromEpoch.misc.RoundsInOrder := MiscTime.roundsInOrder_nearEpoch
  have hbefore (url : Url) :
      UrlDb.SortedUpTo (Env.fromEpoch.misc.roundSecs 0) ((default : UrlDb).attemptsOf url) := by
    rw [UrlDb.attemptsOf_default]
    exact ⟨List.Pairwise.nil, nofun⟩
  refine along_agrees_of_afterRound .fromEpoch hround (fun now hnow => of_decide_eq_true hnow)
    hbefore (by decide) ?_
  decide +kernel

end Contentv1.EnqueueLoop
