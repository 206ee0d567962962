import Contentv1.Ldb.Equiv.HostDbAttempts
import Contentv1.Ldb.Equiv.HostDbCounters
import Contentv1.Ldb.Equiv.HostDbIsolation
import Contentv1.Ldb.Equiv.HostDbRates
import Contentv1.Ldb.Equiv.HostDbSystemLimit

/-!
# What crashes do to `HostDb`

A robots text goes to LevelDB as it is taken, and the frequencies are kept in memory only.  So a
process that is killed and started again knows every text (`texts_survive_crashes`) and forgets
every crawl.  Forgetting is also what it takes to crawl a host again whose results got lost: its
counter has no timeout (`lost_results_block_host`).
-/

namespace Contentv1

namespace HostDb

variable {c : Contribs} {db db' : HostDb} {host : Host}

inductive CrashOp
  | op (a : Op)
  /-- The process is killed and started again. -/
  | crash

def crashOperate (c : Contribs) (db : HostDb) : CrashOp → Option HostDb
  | .op a => operate c db a
  | .crash => some (openDb db.limits db.db)

/-- The run without its crashes. -/
def CrashOp.toOp : CrashOp → Option Op
  | .op a => some a
  | .crash => none

/-! ### Robots texts -/

/-- The texts in memory are those in LevelDB, in both databases. -/
structure SameTexts (db db' : HostDb) : Prop where
  stored : ∀ host : Host, db.hostRobots[host]? = db.db[host]?.map Robots.mk
  robots : db.hostRobots = db'.hostRobots
  texts : db.db = db'.db
  limits : db.limits = db'.limits

theorem sameTexts_openDb (limits : CrawlLimits) (stored : OrdMap Host Str) :
    SameTexts (openDb limits stored) (openDb limits stored) :=
  ⟨hostRobots_openDb limits stored, rfl, rfl, rfl⟩

theorem texts_tryCrawlLoop {α β : Type} (c : Contribs) (url : α → Url) (out : α → UrlParsed → β)
    (db : HostDb) (items : List (α × CrawlReads)) :
    (tryCrawlLoop c url out db items).db.db = db.db := by
  have hfreq : ∀ (db : HostDb) (host : Host) (now : CrawlReads),
      (db.isAllowedFreq host now).2.db = db.db := by
    intro db host now
    unfold isAllowedFreq
    cases db.hostFreq[host]? with
    | none => rfl
    | some hf =>
      dsimp only
      split_ifs <;> rfl
  induction items using List.reverseRecOn with
  | nil => rfl
  | append_singleton items item ih =>
    rw [tryCrawlLoop_append, db_tryCrawlItem, ← ih]
    generalize (tryCrawlLoop c url out db items).db = db
    unfold dbAfter
    split_ifs
    · rcases tryCrawlParsed_cases c db (UrlParsed.ofUrl c (url item.1)) item.2 with
        ⟨-, heq | heq⟩ | ⟨-, -, -, heq⟩
      · rw [heq]
      · rw [heq, hfreq]
      · rw [heq]
        exact hfreq _ _ _
    · rfl

theorem SameTexts.tryCrawlLoop {α β : Type} {url : α → Url} {out : α → UrlParsed → β}
    (h : SameTexts db db') (items : List (α × CrawlReads)) :
    SameTexts (tryCrawlLoop c url out db items).db
      (HostDb.tryCrawlLoop c url out db' items).db where
  stored host := by
    rw [hostRobots_tryCrawlLoop, texts_tryCrawlLoop]
    exact h.stored host
  robots := by
    rw [hostRobots_tryCrawlLoop, hostRobots_tryCrawlLoop]
    exact h.robots
  texts := by
    rw [texts_tryCrawlLoop, texts_tryCrawlLoop]
    exact h.texts
  limits := by
    rw [limits_tryCrawlLoop, limits_tryCrawlLoop]
    exact h.limits

theorem SameTexts.onFetched (h : SameTexts db db') (results : List FetchResult) :
    SameTexts (db.onFetched c results) (db'.onFetched c results) where
  stored host := by
    obtain ⟨hrobots, htext⟩ := texts_onFetched c db results host
    rw [hrobots, htext, Option.map_or, Option.map_map, h.stored host]
    rfl
  robots := by
    apply Std.ExtTreeMap.ext_getElem?
    intro host
    rw [(texts_onFetched c db results host).1, (texts_onFetched c db' results host).1, h.robots]
  texts := by
    apply Std.ExtTreeMap.ext_getElem?
    intro host
    rw [(texts_onFetched c db results host).2, (texts_onFetched c db' results host).2, h.texts]
  limits := by
    unfold HostDb.onFetched
    induction results using List.reverseRecOn with
    | nil => exact h.limits
    | append_singleton results r ih =>
      rw [List.foldl_append, List.foldl_append]
      exact (limits_onFetchedItem _ r).trans (ih.trans (limits_onFetchedItem _ r).symm)

theorem SameTexts.operate (h : SameTexts db db') (a : Op) {t : HostDb}
    (ht : operate c db a = some t) : ∃ t', operate c db' a = some t' ∧ SameTexts t t' := by
  cases a with
  | tryCrawlUrls tryUrls =>
    obtain rfl := Option.some.inj ht
    exact ⟨_, rfl, h.tryCrawlLoop tryUrls⟩
  | tryCrawl tryUrls =>
    obtain rfl := Option.some.inj ht
    exact ⟨_, rfl, h.tryCrawlLoop tryUrls⟩
  | onFetched results =>
    obtain rfl := Option.some.inj ht
    exact ⟨_, rfl, h.onFetched results⟩

/-- After a start the texts are those that were in memory before the crash. -/
theorem SameTexts.crash (h : SameTexts db db') : SameTexts (openDb db.limits db.db) db' where
  stored := hostRobots_openDb _ _
  robots := by
    rw [← h.robots]
    apply Std.ExtTreeMap.ext_getElem?
    intro host
    rw [hostRobots_openDb, h.stored]
  texts := h.texts
  limits := h.limits

/-- Runs with crashes and without them keep the same texts. -/
theorem SameTexts.run {l : List CrashOp} (h : SameTexts db db') {t : HostDb}
    (hrun : Machine.run (crashOperate c) db l = some t) :
    ∃ t', Machine.run (HostDb.operate c) db' (l.filterMap CrashOp.toOp) = some t' ∧
      SameTexts t t' := by
  induction l generalizing db db' with
  | nil =>
    obtain rfl := Option.some.inj hrun
    exact ⟨db', rfl, h⟩
  | cons a l ih =>
    obtain ⟨s, hs, hrest⟩ := Machine.run_cons_eq_some.mp hrun
    cases a with
    | op a =>
      obtain ⟨s', hs', hsame⟩ := h.operate a hs
      obtain ⟨t', ht', hlast⟩ := ih hsame hrest
      exact ⟨t', Machine.run_cons_eq_some.mpr ⟨s', hs', ht'⟩, hlast⟩
    | crash =>
      obtain rfl := Option.some.inj hs
      exact ih h.crash hrest

/-- **Crashes lose no robots text.**  Whenever the process is killed and started again, it knows the
texts, and passes the URLs, that it would without any crash. -/
theorem texts_survive_crashes (c : Contribs) (limits : CrawlLimits) (stored : OrdMap Host Str)
    {l : List CrashOp} {db : HostDb}
    (hrun : Machine.run (crashOperate c) (openDb limits stored) l = some db) :
    ∃ db', Machine.run (operate c) (openDb limits stored) (l.filterMap CrashOp.toOp) = some db' ∧
      db.hostRobots = db'.hostRobots ∧ db.db = db'.db ∧
      ∀ urls, db.leaveAllowedByRobots c urls = db'.leaveAllowedByRobots c urls := by
  obtain ⟨db', hdb', h⟩ := (sameTexts_openDb limits stored).run hrun
  refine ⟨db', hdb', h.robots, h.texts, fun urls => ?_⟩
  unfold leaveAllowedByRobots leaveAllowedLoop
  congr 1
  funext acc urlFreq
  unfold leaveAllowedItem
  dsimp only
  rw [isAllowedRobots_congr h.robots.symm]

/-- A text is taken, the process is killed, another text is taken. -/
def crashBetween : List CrashOp :=
  [.op (.onFetched [⟨⟨Str.ofString "http://a/robots.txt", 0⟩, .ok, default, default⟩]), .crash,
    .op (.onFetched [⟨⟨Str.ofString "http://b/robots.txt", 0⟩, .ok, default, default⟩]), .crash]

theorem texts_survive_crashes_crashBetween :
    ∃ db, Machine.run (crashOperate .plainHttp) (openDb ⟨1, 1, 1, 1, 1⟩ ∅) crashBetween = some db ∧
      ∃ db', Machine.run (operate .plainHttp) (openDb ⟨1, 1, 1, 1, 1⟩ ∅)
          (crashBetween.filterMap CrashOp.toOp) = some db' ∧
        db.hostRobots = db'.hostRobots ∧ db.db = db'.db ∧
        ∀ urls, db.leaveAllowedByRobots .plainHttp urls
          = db'.leaveAllowedByRobots .plainHttp urls := by
  have hrun : (Machine.run (crashOperate .plainHttp) (openDb ⟨1, 1, 1, 1, 1⟩ ∅)
      crashBetween).isSome := by decide
  exact ⟨_, (Option.some_get hrun).symm,
    texts_survive_crashes .plainHttp ⟨1, 1, 1, 1, 1⟩ ∅ (Option.some_get hrun).symm⟩

/-! ### Lost results -/

/-- No result of the host. -/
def Event.SparesHost (c : Contribs) (host : Host) : Event → Prop
  | .tryCrawl _ _ => True
  | .onFetched r => ¬ isOf c host r.gfq.url = true

/-- Only a result of the host itself counts its crawls down. -/
theorem crawling_le_after {e : Event} (h : e.SparesHost c host) :
    db.crawling host ≤ (after c db e).crawling host := by
  cases e with
  | tryCrawl url now =>
    show _ ≤ (dbAfter c id db (url, now)).crawling host
    rw [(counters_dbAfter c id db (url, now)).1]
    split_ifs <;> omega
  | onFetched r =>
    show _ ≤ (onFetchedItem c db r).crawling host
    by_cases hok : (UrlParsed.ofUrl c r.gfq.url).ok = true
    · have hne : ¬ (UrlParsed.ofUrl c r.gfq.url).host = host := fun heq =>
        h (isOf_iff.mpr ⟨hok, heq⟩)
      rw [crawling_onFetchedItem hok, if_neg fun hp => hne hp.1]
    · rw [onFetchedItem_of_not_ok hok]

theorem limits_after (e : Event) : (after c db e).limits = db.limits := by
  cases e with
  | tryCrawl url now => exact limits_dbAfter (url, now)
  | onFetched r => exact limits_onFetchedItem db r

/-- With the maximum of its crawls under way a host is refused. -/
theorem not_mem_decided (hlimit : 1 ≤ db.limits.maxHostParallelCrawl)
    (hfull : db.limits.maxHostParallelCrawl ≤ db.crawling host) {e : Event}
    (he : isOf c host e.url = true) : EHostCrawlDecision.allow ∉ decided c db e := by
  cases e with
  | tryCrawl url now =>
    intro hmem
    obtain ⟨-, -, hfreq⟩ := decisionOn_eq_allow_iff.mp (List.mem_singleton.mp hmem).symm
    obtain ⟨-, rfl⟩ := isOf_iff.mp he
    exact absurd (crawling_lt_of_isAllowedFreq hlimit hfreq) (not_lt.mpr hfull)
  | onFetched r => exact List.not_mem_nil

theorem not_mem_outputs_decided {es : List Event} (hlimit : 1 ≤ db.limits.maxHostParallelCrawl)
    (hfull : db.limits.maxHostParallelCrawl ≤ db.crawling host)
    (h : ∀ e ∈ es, e.SparesHost c host) :
    EHostCrawlDecision.allow ∉
      Unwinding.outputs (after c) (fun e => isOf c host e.url) (decided c) db es := by
  induction es generalizing db with
  | nil => exact List.not_mem_nil
  | cons e es ih =>
    have hfull' :
        (after c db e).limits.maxHostParallelCrawl ≤ (after c db e).crawling host := by
      rw [limits_after]
      exact hfull.trans (crawling_le_after (h e List.mem_cons_self))
    have hnext := ih (by rwa [limits_after]) hfull' fun e' he' => h e' (List.mem_cons_of_mem e he')
    rw [Unwinding.outputs]
    split_ifs with he
    · exact List.not_mem_append (not_mem_decided hlimit hfull he) hnext
    · exact hnext

/-- **Lost results block a host.**  When the maximum of a host's crawls is outstanding and none of
its results comes any more, no URL of the host is ever allowed again, however long the run goes on.
A restart lets it through. -/
theorem lost_results_block_host (c : Contribs) (limits : CrawlLimits) (stored : OrdMap Host Str)
    (hlimit : 1 ≤ limits.maxHostParallelCrawl) {pre : List Op} {o : Observed}
    (hrun : Machine.run (observe c) (.init limits stored) pre = some o) {host : Host}
    (hfull : limits.maxHostParallelCrawl ≤ (o.outstanding.count host : ℤ)) {l : List Op}
    (hlost : ∀ results, Op.onFetched results ∈ l →
      ∀ r ∈ results, ¬ isOf c host r.gfq.url = true) :
    (∀ d ∈ runDecisions c host o.db l, d ≠ .allow) ∧
      ∀ now, ((openDb o.db.limits o.db.db).isAllowedFreq host now).1 = true := by
  have hinv : o.db.limits = limits ∧ Counted o.db o.outstanding :=
    Machine.run_induction (P := fun o : Observed => o.db.limits = limits ∧
        Counted o.db o.outstanding)
      (fun _ op _ h hs => ⟨(limits_observe op h).trans hs.1, counted_observe op h hs.2⟩) hrun
      ⟨rfl, counted_init limits stored⟩
  obtain ⟨hlimits, hcounted⟩ := hinv
  constructor
  · rintro d hd rfl
    rw [runDecisions_eq_outputs] at hd
    refine absurd hd (not_mem_outputs_decided (by rwa [hlimits]) ?_ ?_)
    · rw [hlimits, hcounted.host]
      exact hfull
    · intro e he
      obtain ⟨op, hop, he⟩ := List.mem_flatMap.mp he
      cases op with
      | tryCrawlUrls tryUrls =>
        obtain ⟨item, -, rfl⟩ := List.mem_map.mp he
        trivial
      | tryCrawl tryUrls =>
        obtain ⟨item, -, rfl⟩ := List.mem_map.mp he
        trivial
      | onFetched results =>
        obtain ⟨r, hr, rfl⟩ := List.mem_map.mp he
        exact hlost results hop r hr
  · intro now
    have hunseen : (openDb o.db.limits o.db.db).hostFreq[host]? = none :=
      Std.ExtTreeMap.getElem?_empty
    rw [isAllowedFreq_fst, hunseen]

/-- The only crawl that a host may have never reports, and the host is tried a day later. -/
theorem lost_results_block_host_oneCrawl :
    ∃ o, Machine.run (observe .plainHttp) (.init ⟨1, 9, 9, 9, 9⟩ ∅)
        [.tryCrawlUrls [(Str.ofString "http://a/robots.txt", .at 0)]] = some o ∧
      (∀ d ∈ runDecisions .plainHttp (Str.ofString "a") o.db
          [.tryCrawlUrls [(Str.ofString "http://a/robots.txt", .at (days 1))]], d ≠ .allow) ∧
      ∀ now, ((openDb o.db.limits o.db.db).isAllowedFreq (Str.ofString "a") now).1 = true := by
  have hrun : (Machine.run (observe .plainHttp) (.init ⟨1, 9, 9, 9, 9⟩ ∅)
      [.tryCrawlUrls [(Str.ofString "http://a/robots.txt", .at 0)]]).isSome := by decide
  refine ⟨_, (Option.some_get hrun).symm, ?_⟩
  exact lost_results_block_host .plainHttp ⟨1, 9, 9, 9, 9⟩ ∅ (by decide)
    (Option.some_get hrun).symm (by decide +revert) (by simp)

end HostDb

end Contentv1
