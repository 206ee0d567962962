import Contentv1.Ldb.Equiv.HostDbRun

/-!
# The system-wide limit on parallel crawls

`_isAllowedFreq` holds the frequency of the system against the limits of a host and lets a host
that was never seen pass without any check, so nothing reads `max_system_parallel_crawl`.

`along_outstanding_le_iff_meets_within` is the exact extent of this: the limit is kept all along a
run exactly when every URL that parses and that robots.txt allows is tried either below the limit
or, its host being known, where the host or the system is at one of the limits of a host.
-/

namespace Contentv1

namespace HostFreq

variable {hf : HostFreq} {limits : CrawlLimits} {now : FreqReads}

/-- The counter or one of the windows has reached its limit. -/
def AtLimit (hf : HostFreq) (limits : CrawlLimits) (now : FreqReads) : Prop :=
  limits.maxHostParallelCrawl ≤ hf.crawlingNow ∨
    limits.maxHostMinuteCrawl ≤ (hf.min.size now.min).1 ∨
    limits.maxHostHourCrawl ≤ (hf.hour.size now.hour).1 ∨
    limits.maxHostDayCrawl ≤ (hf.day.size now.day).1

theorem isAllowed_eq_false_iff :
    (hf.isAllowed limits now).1 = false ↔ hf.AtLimit limits now := by
  unfold isAllowed AtLimit
  dsimp only
  split_ifs with h1 h2 h3 h4
  · exact iff_of_true rfl (Or.inl h1)
  · exact iff_of_true rfl (Or.inr (Or.inl h2))
  · exact iff_of_true rfl (Or.inr (Or.inr (Or.inl h3)))
  · exact iff_of_true rfl (Or.inr (Or.inr (Or.inr h4)))
  · simp [h1, h2, h3, h4]

end HostFreq

namespace HostDb

variable {c : Contribs} {db : HostDb} {o o' : Observed}

/-- Trying `url` cannot take the system over its limit. -/
def WithinSystem (c : Contribs) (db : HostDb) (url : Url) (now : CrawlReads) : Prop :=
  let urlParsed := UrlParsed.ofUrl c url
  urlParsed.ok = true → (db.isAllowedRobots c urlParsed).1 = true →
    db.globalCrawling < db.limits.maxSystemParallelCrawl ∨
      ∃ hf, db.hostFreq[urlParsed.host]? = some hf ∧
        (hf.AtLimit db.limits now.hostCheck ∨ db.globalFreq.AtLimit db.limits now.globalCheck)

/-- Every URL of the operation is tried in such a state. -/
def Op.Within (c : Contribs) (o : Observed) : Op → Prop
  | .tryCrawlUrls tryUrls => ∀ pre item post, tryUrls = pre ++ item :: post →
    WithinSystem c (o.db.tryCrawlUrls c pre).db item.1 item.2
  | .tryCrawl tryUrls => ∀ pre item post, tryUrls = pre ++ item :: post →
    WithinSystem c (o.db.tryCrawl c pre).db item.1.url item.2
  | .onFetched _ => True

/-! ### One URL -/

/-- The frequencies refuse a known host at a limit, and nothing else. -/
theorem isAllowedFreq_eq_false_iff {host : Host} {now : CrawlReads} :
    (db.isAllowedFreq host now).1 = false ↔
      ∃ hf, db.hostFreq[host]? = some hf ∧
        (hf.AtLimit db.limits now.hostCheck ∨ db.globalFreq.AtLimit db.limits now.globalCheck) := by
  unfold isAllowedFreq
  simp only [← HostFreq.isAllowed_eq_false_iff]
  cases hhost : db.hostFreq[host]? with
  | none => simp
  | some hf =>
    dsimp only
    by_cases hallow : (hf.isAllowed db.limits now.hostCheck).1 = true
    · rw [if_pos hallow]
      simp [hallow]
    · rw [if_neg hallow]
      simp [Bool.eq_false_iff.mpr hallow]

/-- Within the system a URL is allowed below the limit only. -/
theorem withinSystem_iff {α : Type} {url : α → Url} {item : α × CrawlReads} :
    WithinSystem c db (url item.1) item.2 ↔
      (decisionOn c url db item = .allow →
        db.globalCrawling < db.limits.maxSystemParallelCrawl) := by
  unfold WithinSystem decisionOn
  dsimp only
  by_cases hok : (UrlParsed.ofUrl c (url item.1)).ok = true
  · rw [if_pos hok, tryCrawlParsed_eq_allow_iff, ← isAllowedFreq_eq_false_iff]
    constructor
    · rintro hwithin ⟨hrobots, hfreq⟩
      rcases hwithin hok hrobots with hlt | hrefused
      · exact hlt
      · rw [hfreq] at hrefused
        cases hrefused
    · intro hbelow _ hrobots
      cases hfreq : (db.isAllowedFreq (UrlParsed.ofUrl c (url item.1)).host item.2).1 with
      | false => exact Or.inr rfl
      | true => exact Or.inl (hbelow ⟨hrobots, hfreq⟩)
  · rw [if_neg hok]
    exact iff_of_true (fun h => absurd h hok) nofun

/-! ### A batch -/

/-- A batch leaves the system within its limit exactly when each of its URLs is tried within. -/
theorem globalCrawling_tryCrawlLoop_le_iff {α β : Type} {url : α → Url}
    {out : α → UrlParsed → β} {items : List (α × CrawlReads)}
    (h : db.globalCrawling ≤ db.limits.maxSystemParallelCrawl) :
    (tryCrawlLoop c url out db items).db.globalCrawling ≤ db.limits.maxSystemParallelCrawl ↔
      ∀ pre item post, items = pre ++ item :: post →
        WithinSystem c (tryCrawlLoop c url out db pre).db (url item.1) item.2 := by
  induction items using List.reverseRecOn with
  | nil => exact iff_of_true h fun pre item post hnil => by simp at hnil
  | append_singleton items item ih =>
    rw [forall_split_append_singleton, ← ih, withinSystem_iff, limits_tryCrawlLoop,
      tryCrawlLoop_append, db_tryCrawlItem, (counters_dbAfter c url _ item).2]
    split_ifs with hallow
    · constructor
      · intro hle
        exact ⟨by omega, fun _ => by omega⟩
      · rintro ⟨-, hlt⟩
        have := hlt hallow
        omega
    · rw [add_zero]
      exact ⟨fun hle => ⟨hle, fun h => absurd h hallow⟩, fun hle => hle.1⟩

/-! ### Runs -/

theorem limits_onFetched (db : HostDb) (results : List FetchResult) :
    (db.onFetched c results).limits = db.limits := by
  unfold onFetched
  induction results generalizing db with
  | nil => rfl
  | cons result results ih => rw [List.foldl_cons, ih, limits_onFetchedItem]

theorem limits_observe (op : Op) (h : observe c o op = some o') :
    o'.db.limits = o.db.limits := by
  cases op with
  | tryCrawlUrls tryUrls =>
    obtain rfl := Option.some.inj h
    exact limits_tryCrawlLoop c _ _ o.db tryUrls
  | tryCrawl tryUrls =>
    obtain rfl := Option.some.inj h
    exact limits_tryCrawlLoop c _ _ o.db tryUrls
  | onFetched results =>
    obtain ⟨outstanding, -, rfl⟩ := Option.map_eq_some_iff.mp h
    exact limits_onFetched o.db results

theorem length_report_le {results : List FetchResult} {outstanding outstanding' : List Host}
    (h : report c outstanding results = some outstanding') :
    outstanding'.length ≤ outstanding.length := by
  induction results generalizing outstanding with
  | nil =>
    obtain rfl := Option.some.inj h
    exact le_refl _
  | cons r rs ih =>
    obtain ⟨-, -, hrs⟩ := report_cons_eq_some.mp h
    exact (ih hrs).trans List.length_erase_le

/-- An operation keeps the limit exactly when it is within the system. -/
theorem outstanding_le_observe_iff (op : Op) (h : observe c o op = some o')
    (hcounted : Counted o.db o.outstanding)
    (hle : (o.outstanding.length : ℤ) ≤ o.db.limits.maxSystemParallelCrawl) :
    (o'.outstanding.length : ℤ) ≤ o.db.limits.maxSystemParallelCrawl ↔ op.Within c o := by
  have hcounted' := counted_observe op h hcounted
  cases op with
  | tryCrawlUrls tryUrls | tryCrawl tryUrls =>
    obtain rfl := Option.some.inj h
    rw [← hcounted.global] at hle
    rw [← hcounted'.global]
    exact globalCrawling_tryCrawlLoop_le_iff hle
  | onFetched results =>
    obtain ⟨outstanding, hreport, rfl⟩ := Option.map_eq_some_iff.mp h
    have hlen := length_report_le hreport
    exact iff_of_true (show (outstanding.length : ℤ) ≤ _ by omega) trivial

/-- **Where the system's limit holds.**  The outstanding crawls never exceed
`max_system_parallel_crawl` exactly in the runs whose operations are all within the system. -/
theorem along_outstanding_le_iff_meets_within (c : Contribs) (limits : CrawlLimits)
    (robots : OrdMap Host Str) (hsystem : 1 ≤ limits.maxSystemParallelCrawl) {l : List Op}
    (hrun : Machine.run (observe c) (.init limits robots) l = some o) :
    Machine.Along (observe c)
        (fun o => (o.outstanding.length : ℤ) ≤ limits.maxSystemParallelCrawl)
        (.init limits robots) l ↔
      Machine.Meets (observe c) (fun o op => op.Within c o) (.init limits robots) l := by
  refine Machine.along_iff_meets
    (I := fun o => o.db.limits = limits ∧ Counted o.db o.outstanding) ?_ ?_ hrun
    ⟨rfl, counted_init limits robots⟩ (show (0 : ℤ) ≤ _ by omega)
  · rintro o op o' h ⟨hlimits, hcounted⟩
    exact ⟨(limits_observe op h).trans hlimits, counted_observe op h hcounted⟩
  · rintro o op o' h ⟨rfl, hcounted⟩ hle
    exact outstanding_le_observe_iff op h hcounted hle

/-- One batch with the robots URLs of two hosts. -/
def twoHosts : List Op :=
  [.tryCrawl [(⟨Str.ofString "http://a/robots.txt", 0⟩, .at 0),
    (⟨Str.ofString "http://b/robots.txt", 0⟩, .at 0)]]

/-- Two hosts that were never seen pass a system-wide limit of one crawl. -/
theorem not_along_outstanding_le_twoHosts :
    ¬ Machine.Along (observe .plainHttp) (fun o => (o.outstanding.length : ℤ) ≤ 1)
      (.init ⟨1, 1, 1, 1, 1⟩ ∅) twoHosts := by
  intro h
  have hone := (h.2 _ rfl).head
  exact absurd hone (by decide)

/-- The robots URL of a host twice, under limits of one crawl. -/
def oneHost : List Op :=
  [.tryCrawl [(⟨Str.ofString "http://a/robots.txt", 0⟩, .at 0)],
    .tryCrawl [(⟨Str.ofString "http://a/robots.txt", 1⟩, .at 1)]]

/-- An instance: the second URL is that of a known host. -/
theorem along_outstanding_le_iff_meets_within_oneHost :
    Machine.Along (observe .plainHttp) (fun o => (o.outstanding.length : ℤ) ≤ 1)
        (.init ⟨1, 1, 1, 1, 1⟩ ∅) oneHost ↔
      Machine.Meets (observe .plainHttp) (fun o op => op.Within .plainHttp o)
        (.init ⟨1, 1, 1, 1, 1⟩ ∅) oneHost := by
  have hrun : (Machine.run (observe .plainHttp) (.init ⟨1, 1, 1, 1, 1⟩ ∅) oneHost).isSome :=
    rfl
  exact along_outstanding_le_iff_meets_within .plainHttp ⟨1, 1, 1, 1, 1⟩ ∅ (by decide)
    (Option.some_get hrun).symm

end HostDb

end Contentv1
