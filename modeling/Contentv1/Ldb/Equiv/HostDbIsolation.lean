import Contentv1.Ldb.Equiv.HostDbRobots
import Contentv1.Ldb.Equiv.HostDbTexts
import Contentv1.Lib.Unwinding

/-!
# What one host's traffic does to another's

The limits are those of a host, and the traffic of other hosts should not count against them.  The
check of a known host asks the frequency of the system as well, and holds it against the same
limits.

* `operate_eq_foldl`: a call is its URLs one after another, each an event of one host.
* `view_after_of_not_isOf`: events of other hosts leave alone what the database keeps of a host.
* `runDecisions_eq_iff_systemAnswers_eq`: between two runs with the same events of a host, it is the
  answers of the system's frequency that make the only difference.
-/

namespace Contentv1

namespace HostDb

variable {c : Contribs} {db db' : HostDb} {host : Host}

/-! ### Events -/

/-- What happens to one URL. -/
inductive Event
  | tryCrawl (url : Url) (now : CrawlReads)
  | onFetched (result : FetchResult)
  deriving DecidableEq

def Event.url : Event → Url
  | .tryCrawl url _ => url
  | .onFetched result => result.gfq.url

def Op.events : Op → List Event
  | .tryCrawlUrls tryUrls => tryUrls.map fun item => .tryCrawl item.1 item.2
  | .tryCrawl tryUrls => tryUrls.map fun item => .tryCrawl item.1.url item.2
  | .onFetched results => results.map .onFetched

/-- The URL parses, to the host. -/
def isOf (c : Contribs) (host : Host) (url : Url) : Bool :=
  (UrlParsed.ofUrl c url).ok && (UrlParsed.ofUrl c url).host == host

/-- The events of a host in a run, in their order. -/
def hostEvents (c : Contribs) (host : Host) (ops : List Op) : List Event :=
  (ops.flatMap Op.events).filter fun e => isOf c host e.url

/-- Those of the decisions on the items that are on URLs of the host. -/
def decisionsFor {α : Type} (c : Contribs) (host : Host) (url : α → Url)
    (items : List (α × CrawlReads)) (decisions : List EHostCrawlDecision) :
    List EHostCrawlDecision :=
  ((items.zip decisions).filter fun p => isOf c host (url p.1.1)).map Prod.snd

def Op.decisions (c : Contribs) (host : Host) (db : HostDb) : Op → List EHostCrawlDecision
  | .tryCrawlUrls tryUrls => decisionsFor c host id tryUrls (db.tryCrawlUrls c tryUrls).decisions
  | .tryCrawl tryUrls => decisionsFor c host GFQRecord.url tryUrls (db.tryCrawl c tryUrls).decisions
  | .onFetched _ => []

/-- The decisions on the URLs of the host in a run. -/
def runDecisions (c : Contribs) (host : Host) : HostDb → List Op → List EHostCrawlDecision
  | _, [] => []
  | db, op :: ops =>
    op.decisions c host db ++ (operate c db op).elim [] fun db => runDecisions c host db ops

/-- The database after an event. -/
def after (c : Contribs) (db : HostDb) : Event → HostDb
  | .tryCrawl url now => dbAfter c id db (url, now)
  | .onFetched result => onFetchedItem c db result

/-- The check of a URL comes to the frequency of the system: robots.txt lets the URL through, its
host is known and below the limits. -/
def asksSystem (c : Contribs) (db : HostDb) (url : Url) (now : CrawlReads) : Bool :=
  let urlParsed := UrlParsed.ofUrl c url
  (db.isAllowedRobots c urlParsed).1 &&
    db.hostFreq[urlParsed.host]?.any fun hf => (hf.isAllowed db.limits now.hostCheck).1

/-- What the frequency of the system answers to an event, if it is asked. -/
def systemAnswer (c : Contribs) (db : HostDb) : Event → List (Option Bool)
  | .tryCrawl url now =>
    [if asksSystem c db url now then some (db.globalFreq.isAllowed db.limits now.globalCheck).1
      else none]
  | .onFetched _ => []

/-- Its answers to the events of the host in a run. -/
def systemAnswers (c : Contribs) (host : Host) (db : HostDb) (ops : List Op) : List (Option Bool) :=
  Unwinding.outputs (after c) (fun e => isOf c host e.url) (systemAnswer c) db
    (ops.flatMap Op.events)

/-! ### Runs as events -/

/-- The decision on an event. -/
def decided (c : Contribs) (db : HostDb) : Event → List EHostCrawlDecision
  | .tryCrawl url now => [decisionOn c id db (url, now)]
  | .onFetched _ => []

theorem dbAt_eq_foldl {α : Type} (c : Contribs) (url : α → Url) (db : HostDb)
    (items : List (α × CrawlReads)) :
    dbAt c url db items
      = (items.map fun item => Event.tryCrawl (url item.1) item.2).foldl (after c) db := by
  rw [List.foldl_map]
  rfl

/-- A call is its events one after another. -/
theorem operate_eq_foldl (c : Contribs) (db : HostDb) (op : Op) :
    operate c db op = some (op.events.foldl (after c) db) := by
  cases op with
  | tryCrawlUrls tryUrls =>
    show some (tryCrawlLoop c id _ db tryUrls).db = _
    rw [db_tryCrawlLoop, dbAt_eq_foldl]
    rfl
  | tryCrawl tryUrls =>
    show some (tryCrawlLoop c GFQRecord.url _ db tryUrls).db = _
    rw [db_tryCrawlLoop, dbAt_eq_foldl]
    rfl
  | onFetched results =>
    show some (results.foldl (onFetchedItem c) db)
      = some ((results.map Event.onFetched).foldl (after c) db)
    rw [List.foldl_map]
    rfl

theorem decisionsFor_tryCrawlLoop {α β : Type} (c : Contribs) (host : Host) (url : α → Url)
    (out : α → UrlParsed → β) (db : HostDb) (items : List (α × CrawlReads)) :
    decisionsFor c host url items (tryCrawlLoop c url out db items).decisions
      = Unwinding.outputs (after c) (fun e => isOf c host e.url) (decided c) db
          (items.map fun item => .tryCrawl (url item.1) item.2) := by
  induction items using List.reverseRecOn with
  | nil => rfl
  | append_singleton items item ih =>
    unfold decisionsFor at *
    rw [tryCrawlLoop_append, decisions_tryCrawlItem, List.map_append, Unwinding.outputs_append,
      ← ih, ← dbAt_eq_foldl, db_tryCrawlLoop, List.zip_append (length_decisions items).symm,
      List.filter_append, List.map_append]
    congr 1
    by_cases hhost : isOf c host (url item.1) = true
    · simp [hhost, Unwinding.outputs, Event.url, decided, decisionOn]
    · simp [hhost, Unwinding.outputs, Event.url]

theorem decisions_eq_outputs (op : Op) :
    op.decisions c host db = Unwinding.outputs (after c) (fun e => isOf c host e.url) (decided c) db
      op.events := by
  cases op with
  | tryCrawlUrls tryUrls => exact decisionsFor_tryCrawlLoop c host id _ db tryUrls
  | tryCrawl tryUrls => exact decisionsFor_tryCrawlLoop c host GFQRecord.url _ db tryUrls
  | onFetched results =>
    show [] = Unwinding.outputs _ _ _ db (results.map Event.onFetched)
    induction results generalizing db with
    | nil => rfl
    | cons r results ih =>
      rw [List.map_cons, Unwinding.outputs, ← ih]
      split_ifs <;> rfl

/-- The decisions in a run are those on its events. -/
theorem runDecisions_eq_outputs (ops : List Op) :
    runDecisions c host db ops = Unwinding.outputs (after c) (fun e => isOf c host e.url)
      (decided c) db (ops.flatMap Op.events) := by
  induction ops generalizing db with
  | nil => rfl
  | cons op ops ih =>
    rw [runDecisions, List.flatMap_cons, Unwinding.outputs_append, operate_eq_foldl,
      Option.elim_some, ih, decisions_eq_outputs]

/-! ### What the database keeps of a host -/

/-- The limits, and what the database keeps of the host. -/
def view (host : Host) (db : HostDb) : CrawlLimits × Option Robots × Option HostFreq :=
  (db.limits, db.hostRobots[host]?, db.hostFreq[host]?)

theorem view_eq_iff :
    view host db = view host db' ↔
      db.limits = db'.limits ∧ db.hostRobots[host]? = db'.hostRobots[host]? ∧
        db.hostFreq[host]? = db'.hostFreq[host]? := by
  simp [view]

theorem isOf_iff {url : Url} :
    isOf c host url = true ↔
      (UrlParsed.ofUrl c url).ok = true ∧ (UrlParsed.ofUrl c url).host = host := by
  simp [isOf]

/-- The check leaves the windows of its own host cleaned as far as it came. -/
theorem hostFreq_isAllowedFreq (db : HostDb) (host h : Host) (now : CrawlReads) :
    (db.isAllowedFreq host now).2.hostFreq[h]?
      = if host = h then db.hostFreq[host]?.map fun hf => (hf.isAllowed db.limits now.hostCheck).2
        else db.hostFreq[h]? := by
  unfold isAllowedFreq
  cases hhost : db.hostFreq[host]? with
  | none =>
    dsimp only
    split_ifs with heq
    · rw [← heq, hhost]
      rfl
    · rfl
  | some hf =>
    dsimp only
    split_ifs <;> simp_all [OrdMap.getElem?_insert]

/-- A known host below its limits passes if the system's frequency says so. -/
theorem isAllowedFreq_fst (db : HostDb) (host : Host) (now : CrawlReads) :
    (db.isAllowedFreq host now).1
      = match db.hostFreq[host]? with
        | none => true
        | some hf => (hf.isAllowed db.limits now.hostCheck).1 &&
            (db.globalFreq.isAllowed db.limits now.globalCheck).1 := by
  unfold isAllowedFreq
  cases db.hostFreq[host]? with
  | none => rfl
  | some hf =>
    dsimp only
    split_ifs with hallow
    · rw [hallow, Bool.true_and]
    · rw [Bool.eq_false_iff.mpr hallow, Bool.false_and]

/-- The decision on a URL, from the answers of the checks. -/
theorem tryCrawlParsed_fst (db : HostDb) (urlParsed : UrlParsed) (now : CrawlReads) :
    (db.tryCrawlParsed c urlParsed now).1
      = if (db.isAllowedRobots c urlParsed).1 then
          if (db.isAllowedFreq urlParsed.host now).1 then .allow else .disallowFreq
        else if (db.isAllowedRobots c urlParsed).2.bytes.isEmpty then .disallowByRobots
        else .disallowNeedRobots := by
  unfold tryCrawlParsed
  dsimp only
  split_ifs <;> rfl

theorem tryCrawlParsed_snd (db : HostDb) (urlParsed : UrlParsed) (now : CrawlReads) :
    (db.tryCrawlParsed c urlParsed now).2.2
      = if (db.isAllowedRobots c urlParsed).1 then
          let checked := (db.isAllowedFreq urlParsed.host now).2
          if (db.isAllowedFreq urlParsed.host now).1 then checked.setCrawling urlParsed.host now
          else checked
        else db := by
  unfold tryCrawlParsed
  dsimp only
  split_ifs <;> rfl

/-- The host's frequency after a URL of it was tried, from the one before and the answers. -/
theorem hostFreq_dbAfter {url : Url} {now : CrawlReads} (hok : (UrlParsed.ofUrl c url).ok = true)
    (h : Host) :
    (dbAfter c id db (url, now)).hostFreq[h]?
      = if (UrlParsed.ofUrl c url).host = h ∧
          (db.isAllowedRobots c (UrlParsed.ofUrl c url)).1 = true
        then
          let checked := db.hostFreq[h]?.map fun hf => (hf.isAllowed db.limits now.hostCheck).2
          if (db.isAllowedFreq (UrlParsed.ofUrl c url).host now).1
          then some ((checked.getD .init).incCrawling now.hostInc) else checked
        else db.hostFreq[h]? := by
  have hfreq := hostFreq_isAllowedFreq db (UrlParsed.ofUrl c url).host h now
  unfold dbAfter
  dsimp only [id]
  rw [if_pos hok, tryCrawlParsed_snd]
  by_cases hrobots : (db.isAllowedRobots c (UrlParsed.ofUrl c url)).1 = true
  · rw [if_pos hrobots]
    by_cases hhost : (UrlParsed.ofUrl c url).host = h
    · subst hhost
      simp only [hrobots, and_self, if_true] at hfreq ⊢
      rw [← hfreq]
      split_ifs
      · unfold setCrawling
        rw [OrdMap.getElem?_alter, if_pos rfl]
      · rfl
    · simp only [hhost, false_and, if_false] at hfreq ⊢
      rw [← hfreq]
      split_ifs
      · unfold setCrawling
        rw [OrdMap.getElem?_alter, if_neg hhost]
      · rfl
  · simp only [hrobots, and_false, if_false, Bool.false_eq_true]

/-- **Other hosts' events** leave alone what the database keeps of a host. -/
theorem view_after_of_not_isOf {e : Event} (h : ¬ isOf c host e.url = true) :
    view host (after c db e) = view host db := by
  rw [isOf_iff, not_and] at h
  rw [view_eq_iff]
  cases e with
  | tryCrawl url now =>
    refine ⟨limits_dbAfter _, congrArg (·[host]?) (hostRobots_dbAfter _), ?_⟩
    by_cases hok : (UrlParsed.ofUrl c url).ok = true
    · show (dbAfter c id db (url, now)).hostFreq[host]? = _
      rw [hostFreq_dbAfter hok, if_neg fun hand => h hok hand.1]
    · show (dbAfter c id db (url, now)).hostFreq[host]? = _
      unfold dbAfter
      dsimp only [id]
      rw [if_neg hok]
  | onFetched result =>
    by_cases hok : (UrlParsed.ofUrl c result.gfq.url).ok = true
    · have htakes : ¬ takes c host result = true := fun htakes => h hok (takes_iff.mp htakes).2.1
      refine ⟨limits_onFetchedItem db result, ?_, ?_⟩
      · exact ((texts_onFetchedItem c db result host).1).trans (if_neg htakes)
      · show (onFetchedItem c db result).hostFreq[host]? = _
        rw [hostFreq_onFetchedItem hok, OrdMap.getElem?_alter]
        exact if_neg (h hok)
    · show (onFetchedItem c db result).limits = _ ∧
        (onFetchedItem c db result).hostRobots[host]? = _ ∧
          (onFetchedItem c db result).hostFreq[host]? = _
      unfold onFetchedItem
      dsimp only
      rw [if_neg hok]
      exact ⟨rfl, rfl, rfl⟩

/-! ### Two states that agree on a host -/

variable {url : Url} {now : CrawlReads}

theorem isAllowedRobots_congr_host {urlParsed : UrlParsed}
    (h : db.hostRobots[urlParsed.host]? = db'.hostRobots[urlParsed.host]?) :
    db.isAllowedRobots c urlParsed = db'.isAllowedRobots c urlParsed := by
  unfold isAllowedRobots
  rw [h]

theorem asksSystem_congr (hhost : (UrlParsed.ofUrl c url).host = host)
    (h : view host db = view host db') : asksSystem c db url now = asksSystem c db' url now := by
  subst hhost
  obtain ⟨hlimits, hrobots, hfreq⟩ := view_eq_iff.mp h
  unfold asksSystem
  dsimp only
  rw [isAllowedRobots_congr_host hrobots, hlimits, hfreq]

/-- The frequencies answer the same exactly if that of the system does, where it is asked. -/
theorem isAllowedFreq_eq_iff (hhost : (UrlParsed.ofUrl c url).host = host)
    (hrobots : (db.isAllowedRobots c (UrlParsed.ofUrl c url)).1 = true)
    (h : view host db = view host db') :
    (db.isAllowedFreq host now).1 = (db'.isAllowedFreq host now).1 ↔
      systemAnswer c db (.tryCrawl url now) = systemAnswer c db' (.tryCrawl url now) := by
  have hasks : asksSystem c db url now = asksSystem c db' url now := asksSystem_congr hhost h
  subst hhost
  obtain ⟨hlimits, -, hfreq⟩ := view_eq_iff.mp h
  unfold systemAnswer
  dsimp only
  have hknown : asksSystem c db url now = db.hostFreq[(UrlParsed.ofUrl c url).host]?.any
      fun hf => (hf.isAllowed db.limits now.hostCheck).1 := by
    simp [asksSystem, hrobots]
  rw [isAllowedFreq_fst, isAllowedFreq_fst, ← hasks, ← hlimits, ← hfreq, hknown]
  cases db.hostFreq[(UrlParsed.ofUrl c url).host]? with
  | none => simp
  | some hf =>
    cases hallow : (hf.isAllowed db.limits now.hostCheck).1 with
    | false => simp [hallow]
    | true => simp [hallow]

theorem decisionOn_id_eq (hok : (UrlParsed.ofUrl c url).ok = true) :
    decisionOn c id db (url, now) = (db.tryCrawlParsed c (UrlParsed.ofUrl c url) now).1 := by
  unfold decisionOn
  exact if_pos hok

/-- **One event of the host** is decided the same exactly if the system's frequency answers it the
same. -/
theorem decided_eq_iff {e : Event} (he : isOf c host e.url = true)
    (h : view host db = view host db') :
    decided c db e = decided c db' e ↔ systemAnswer c db e = systemAnswer c db' e := by
  cases e with
  | onFetched result => exact iff_of_true rfl rfl
  | tryCrawl url now =>
    obtain ⟨hok, hhost⟩ : (UrlParsed.ofUrl c url).ok = true ∧ (UrlParsed.ofUrl c url).host = host :=
      isOf_iff.mp he
    have hrule : db.isAllowedRobots c (UrlParsed.ofUrl c url)
        = db'.isAllowedRobots c (UrlParsed.ofUrl c url) :=
      isAllowedRobots_congr_host (hhost ▸ (view_eq_iff.mp h).2.1)
    show [decisionOn c id db (url, now)] = [decisionOn c id db' (url, now)] ↔ _
    rw [decisionOn_id_eq hok, decisionOn_id_eq hok, tryCrawlParsed_fst, tryCrawlParsed_fst, ← hrule]
    by_cases hrobots : (db.isAllowedRobots c (UrlParsed.ofUrl c url)).1 = true
    · rw [if_pos hrobots, if_pos hrobots, ← isAllowedFreq_eq_iff hhost hrobots h, hhost]
      cases (db.isAllowedFreq host now).1 <;> cases (db'.isAllowedFreq host now).1 <;> simp
    · -- robots.txt refuses it, and the frequencies are not looked at
      have hasks : asksSystem c db url now = false := by simp [asksSystem, hrobots]
      have hasks' : asksSystem c db' url now = false := (asksSystem_congr hhost h).symm.trans hasks
      rw [if_neg hrobots, if_neg hrobots]
      simp [systemAnswer, hasks, hasks']

/-- After an event of the host that the system's frequency answers the same, the two states agree on
the host again. -/
theorem view_after_eq {e : Event} (he : isOf c host e.url = true)
    (h : view host db = view host db') (hanswer : systemAnswer c db e = systemAnswer c db' e) :
    view host (after c db e) = view host (after c db' e) := by
  obtain ⟨hlimits, hrobots, hfreq⟩ := view_eq_iff.mp h
  rw [view_eq_iff]
  cases e with
  | onFetched result =>
    obtain ⟨hok, rfl⟩ : (UrlParsed.ofUrl c result.gfq.url).ok = true ∧
        (UrlParsed.ofUrl c result.gfq.url).host = host := isOf_iff.mp he
    refine ⟨?_, ?_, ?_⟩
    · exact (limits_onFetchedItem db result).trans
        (hlimits.trans (limits_onFetchedItem db' result).symm)
    · show (onFetchedItem c db result).hostRobots[_]? = (onFetchedItem c db' result).hostRobots[_]?
      rw [(texts_onFetchedItem c db result _).1, (texts_onFetchedItem c db' result _).1]
      split_ifs
      · rfl
      · exact hrobots
    · show (onFetchedItem c db result).hostFreq[_]? = (onFetchedItem c db' result).hostFreq[_]?
      rw [hostFreq_onFetchedItem hok, hostFreq_onFetchedItem hok, OrdMap.getElem?_alter,
        OrdMap.getElem?_alter, if_pos rfl, if_pos rfl]
      exact congrArg (fun o => some (Option.getD o .init).decCrawling) hfreq
  | tryCrawl url now =>
    obtain ⟨hok, hhost⟩ : (UrlParsed.ofUrl c url).ok = true ∧ (UrlParsed.ofUrl c url).host = host :=
      isOf_iff.mp he
    refine ⟨?_, ?_, ?_⟩
    · exact (limits_dbAfter _).trans (hlimits.trans (limits_dbAfter _).symm)
    · show (dbAfter c id db (url, now)).hostRobots[_]?
        = (dbAfter c id db' (url, now)).hostRobots[_]?
      rw [hostRobots_dbAfter, hostRobots_dbAfter]
      exact hrobots
    · have hrule : db.isAllowedRobots c (UrlParsed.ofUrl c url)
          = db'.isAllowedRobots c (UrlParsed.ofUrl c url) :=
        isAllowedRobots_congr_host (hhost ▸ hrobots)
      show (dbAfter c id db (url, now)).hostFreq[_]? = (dbAfter c id db' (url, now)).hostFreq[_]?
      rw [hostFreq_dbAfter hok, hostFreq_dbAfter hok, ← hrule, ← hlimits, ← hfreq]
      by_cases hpass : (db.isAllowedRobots c (UrlParsed.ofUrl c url)).1 = true
      · have hsame := (isAllowedFreq_eq_iff hhost hpass h).mpr hanswer
        rw [hhost, hsame]
      · rw [if_neg fun hand => hpass hand.2, if_neg fun hand => hpass hand.2]

/-! ### Two runs -/

/-- **Two runs with the same events of a host.**  The URLs of the host are decided the same in both
exactly when the system's frequency, wherever it is asked about one of them, answers the same in
both. -/
theorem runDecisions_eq_iff_systemAnswers_eq (c : Contribs) (host : Host) (limits : CrawlLimits)
    (stored : OrdMap Host Str) {ops ops' : List Op}
    (hevents : hostEvents c host ops = hostEvents c host ops') :
    runDecisions c host (openDb limits stored) ops
        = runDecisions c host (openDb limits stored) ops' ↔
      systemAnswers c host (openDb limits stored) ops
        = systemAnswers c host (openDb limits stored) ops' := by
  have hskip : ∀ db e, ¬ isOf c host (Event.url e) = true →
      view host (after c db e) = view host db := fun _ _ => view_after_of_not_isOf
  rw [runDecisions_eq_outputs, runDecisions_eq_outputs]
  refine Unwinding.outputs_eq_iff hskip ?_ ?_ ?_ ?_ hevents rfl
  · rintro db db' (_ | _) <;> rfl
  · rintro db db' (_ | _) <;> rfl
  · exact fun _ _ _ he h => decided_eq_iff he h
  · exact fun _ _ _ he h => view_after_eq he h

/-- A host's robots.txt and then a page of it. -/
def quiet : List Op :=
  [.tryCrawl [(⟨Str.ofString "http://a/robots.txt", 0⟩, .at 0)],
    .onFetched [⟨⟨Str.ofString "http://a/robots.txt", 0⟩, .ok, default, default⟩],
    .tryCrawl [(⟨Str.ofString "http://a/x", 1⟩, .at 1)]]

/-- The same while one crawl each of two other hosts is in progress. -/
def crowded : List Op :=
  .tryCrawl [(⟨Str.ofString "http://b/robots.txt", 0⟩, .at 0),
    (⟨Str.ofString "http://c/robots.txt", 0⟩, .at 0)] :: quiet

/-- With at most 3 of 10 crawls outstanding, and none of them of the host, its page is refused. -/
theorem not_runDecisions_eq_crowded :
    let limits : CrawlLimits := ⟨2, 100, 100, 100, 10⟩
    let below (o : Observed) : Prop := (o.outstanding.length : ℤ) < limits.maxSystemParallelCrawl
    hostEvents .plainHttp (Str.ofString "a") quiet
        = hostEvents .plainHttp (Str.ofString "a") crowded ∧
      (Machine.run (observe .plainHttp) (.init limits ∅) quiet).isSome ∧
      (Machine.run (observe .plainHttp) (.init limits ∅) crowded).isSome ∧
      Machine.Along (observe .plainHttp) below (.init limits ∅) quiet ∧
      Machine.Along (observe .plainHttp) below (.init limits ∅) crowded ∧
      runDecisions .plainHttp (Str.ofString "a") (openDb limits ∅) quiet
        ≠ runDecisions .plainHttp (Str.ofString "a") (openDb limits ∅) crowded := by
  decide

/-- An instance: the page of one host with one crawl of another in progress. -/
theorem runDecisions_eq_iff_systemAnswers_eq_oneOther :
    let ops := Op.tryCrawl [(⟨Str.ofString "http://b/robots.txt", 0⟩, .at 0)] :: quiet
    runDecisions .plainHttp (Str.ofString "a") (openDb ⟨2, 100, 100, 100, 10⟩ ∅) quiet
        = runDecisions .plainHttp (Str.ofString "a") (openDb ⟨2, 100, 100, 100, 10⟩ ∅) ops ↔
      systemAnswers .plainHttp (Str.ofString "a") (openDb ⟨2, 100, 100, 100, 10⟩ ∅) quiet
        = systemAnswers .plainHttp (Str.ofString "a") (openDb ⟨2, 100, 100, 100, 10⟩ ∅) ops :=
  runDecisions_eq_iff_systemAnswers_eq .plainHttp (Str.ofString "a") ⟨2, 100, 100, 100, 10⟩ ∅
    (by decide)

end HostDb

end Contentv1
