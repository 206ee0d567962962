import Contentv1.Ldb.HostDbRun
import Mathlib.Algebra.Group.Int.Defs
import Mathlib.Tactic.SplitIfs
import Mathlib.Data.List.Count
import Mathlib.Data.List.Induction

/-!
# The crawl counters of `HostDb`

* `tryCrawlParsed_cases` lists what trying one URL can do.
* `counters_tryCrawlLoop`: a batch raises the counters by the hosts it allows (`grants`), through
  either overload of `tryCrawl`.
* `crawling_onFetchedItem` and `globalCrawling_onFetchedItem`: a result of a parseable URL lowers
  the counter of its host and the global one, neither below 0.
-/

namespace Contentv1

namespace HostFreq

variable {hf : HostFreq} {limits : CrawlLimits} {now : FreqReads}

@[simp] theorem crawlingNow_isAllowed :
    (hf.isAllowed limits now).2.crawlingNow = hf.crawlingNow := by
  unfold isAllowed TpSlidWin.size
  dsimp only
  split_ifs <;> rfl

/-- A frequency is allowed only below all four limits, the windows being cleaned first. -/
theorem isAllowed_eq_true (h : (hf.isAllowed limits now).1 = true) :
    hf.crawlingNow < limits.maxHostParallelCrawl ∧
      ((hf.min.checkClean now.min).q.length : ℤ) < limits.maxHostMinuteCrawl ∧
      ((hf.hour.checkClean now.hour).q.length : ℤ) < limits.maxHostHourCrawl ∧
      ((hf.day.checkClean now.day).q.length : ℤ) < limits.maxHostDayCrawl ∧
      (hf.isAllowed limits now).2
        = { hf with min := hf.min.checkClean now.min, hour := hf.hour.checkClean now.hour,
                    day := hf.day.checkClean now.day } := by
  unfold isAllowed TpSlidWin.size at *
  dsimp only at *
  split_ifs at h ⊢ with h1 h2 h3 h4
  exact ⟨not_le.mp h1, not_le.mp h2, not_le.mp h3, not_le.mp h4, rfl⟩

end HostFreq

namespace HostDb

variable {c : Contribs} {db : HostDb} {host : Host}

/-- The crawls in progress that the database counts for a host. -/
def crawling (db : HostDb) (host : Host) : ℤ := db.hostFreq[host]?.elim 0 HostFreq.crawlingNow

theorem crawling_eq_getD (db : HostDb) (host : Host) :
    db.crawling host = (db.hostFreq[host]?.getD .init).crawlingNow := by
  unfold crawling
  cases db.hostFreq[host]? <;> rfl

/-- The crawls in progress that the database counts in all. -/
def globalCrawling (db : HostDb) : ℤ := db.globalFreq.crawlingNow

/-! ### One URL -/

/-- The checks clean windows and change no counter and no limit. -/
structure SameCounters (db db' : HostDb) : Prop where
  limits : db'.limits = db.limits
  crawling : ∀ host : Host, db'.crawling host = db.crawling host
  global : db'.globalCrawling = db.globalCrawling

theorem SameCounters.refl (db : HostDb) : SameCounters db db :=
  ⟨rfl, fun _ => rfl, rfl⟩

theorem sameCounters_isAllowedFreq (db : HostDb) (host : Host) (now : CrawlReads) :
    SameCounters db (db.isAllowedFreq host now).2 := by
  unfold isAllowedFreq
  cases hhost : db.hostFreq[host]? with
  | none => exact SameCounters.refl db
  | some hf =>
    have hcrawl : ∀ h : Host,
        (db.hostFreq.insert host (hf.isAllowed db.limits now.hostCheck).2)[h]?.elim 0
          HostFreq.crawlingNow = db.crawling h := by
      intro h
      rw [OrdMap.getElem?_insert]
      split_ifs with heq
      · subst heq
        rw [crawling, hhost, Option.elim_some, Option.elim_some, HostFreq.crawlingNow_isAllowed]
      · rfl
    dsimp only
    split_ifs
    · exact ⟨rfl, hcrawl, HostFreq.crawlingNow_isAllowed⟩
    · exact ⟨rfl, hcrawl, rfl⟩

theorem crawling_setCrawling (db : HostDb) (host : Host) (now : CrawlReads) (h : Host) :
    (db.setCrawling host now).crawling h = db.crawling h + if host = h then 1 else 0 := by
  unfold crawling setCrawling
  rw [OrdMap.getElem?_alter]
  split_ifs with heq
  · subst heq
    cases db.hostFreq[host]? <;> rfl
  · rw [add_zero]

theorem globalCrawling_setCrawling (db : HostDb) (host : Host) (now : CrawlReads) :
    (db.setCrawling host now).globalCrawling = db.globalCrawling + 1 := rfl

/-- **Trying one URL.**  It is refused with the counters as they were, or it passes robots.txt and
the frequencies and its host is counted. -/
theorem tryCrawlParsed_cases (c : Contribs) (db : HostDb) (urlParsed : UrlParsed)
    (now : CrawlReads) :
    ((db.tryCrawlParsed c urlParsed now).1 ≠ .allow ∧
      ((db.tryCrawlParsed c urlParsed now).2.2 = db ∨
        (db.tryCrawlParsed c urlParsed now).2.2 = (db.isAllowedFreq urlParsed.host now).2)) ∨
    ((db.tryCrawlParsed c urlParsed now).1 = .allow ∧
      (db.isAllowedRobots c urlParsed).1 = true ∧
      (db.isAllowedFreq urlParsed.host now).1 = true ∧
      (db.tryCrawlParsed c urlParsed now).2.2
        = (db.isAllowedFreq urlParsed.host now).2.setCrawling urlParsed.host now) := by
  unfold tryCrawlParsed
  dsimp only
  split_ifs with hrobots hfreq hneed
  · exact Or.inr ⟨rfl, hrobots, hfreq, rfl⟩
  · exact Or.inl ⟨nofun, Or.inr rfl⟩
  · exact Or.inl ⟨nofun, Or.inl rfl⟩
  · exact Or.inl ⟨nofun, Or.inl rfl⟩

theorem tryCrawlParsed_eq_allow_iff {urlParsed : UrlParsed} {now : CrawlReads} :
    (db.tryCrawlParsed c urlParsed now).1 = .allow ↔
      (db.isAllowedRobots c urlParsed).1 = true ∧
        (db.isAllowedFreq urlParsed.host now).1 = true := by
  unfold tryCrawlParsed
  dsimp only
  split_ifs with hrobots hfreq hneed <;> simp_all

theorem sameCounters_of_ne_allow {urlParsed : UrlParsed} {now : CrawlReads}
    (h : (db.tryCrawlParsed c urlParsed now).1 ≠ .allow) :
    SameCounters db (db.tryCrawlParsed c urlParsed now).2.2 := by
  rcases tryCrawlParsed_cases c db urlParsed now with ⟨-, heq | heq⟩ | ⟨hallow, -⟩
  · rw [heq]
    exact SameCounters.refl db
  · rw [heq]
    exact sameCounters_isAllowedFreq db urlParsed.host now
  · exact absurd hallow h

theorem counters_of_allow {urlParsed : UrlParsed} {now : CrawlReads}
    (h : (db.tryCrawlParsed c urlParsed now).1 = .allow) :
    (∀ host, (db.tryCrawlParsed c urlParsed now).2.2.crawling host
        = db.crawling host + if urlParsed.host = host then 1 else 0) ∧
      (db.tryCrawlParsed c urlParsed now).2.2.globalCrawling = db.globalCrawling + 1 := by
  rcases tryCrawlParsed_cases c db urlParsed now with ⟨hne, -⟩ | ⟨-, -, -, heq⟩
  · exact absurd h hne
  · have hsame := sameCounters_isAllowedFreq db urlParsed.host now
    rw [heq]
    constructor
    · intro host
      rw [crawling_setCrawling, hsame.crawling]
    · rw [globalCrawling_setCrawling, hsame.global]

/-! ### A batch -/

variable {α β : Type} {url : α → Url} {out : α → UrlParsed → β} {items : List (α × CrawlReads)}

theorem tryCrawlLoop_append (items : List (α × CrawlReads)) (item : α × CrawlReads) :
    tryCrawlLoop c url out db (items ++ [item])
      = tryCrawlItem c url out (tryCrawlLoop c url out db items) item := by
  unfold tryCrawlLoop
  rw [List.foldl_append]
  rfl

/-- The ways to split a list with one more element at the end. -/
theorem forall_split_append_singleton {γ : Type} {Q : List γ → γ → Prop} {l : List γ} {a : γ} :
    (∀ pre x post, l ++ [a] = pre ++ x :: post → Q pre x) ↔
      (∀ pre x post, l = pre ++ x :: post → Q pre x) ∧ Q l a := by
  constructor
  · intro h
    exact ⟨fun pre x post hl => h pre x (post ++ [a]) (by rw [hl]; simp), h l a [] rfl⟩
  · rintro ⟨hinit, hlast⟩ pre x post hl
    rcases List.eq_nil_or_concat' post with rfl | ⟨post, y, rfl⟩
    · obtain ⟨rfl, heq⟩ := List.append_inj' hl rfl
      obtain ⟨rfl, -⟩ := List.cons.inj heq
      exact hlast
    · rw [← List.cons_append, ← List.append_assoc] at hl
      exact hinit pre x post (List.append_inj' hl rfl).1

/-- The decision on an item. -/
def decisionOn (c : Contribs) (url : α → Url) (db : HostDb) (item : α × CrawlReads) :
    EHostCrawlDecision :=
  if (UrlParsed.ofUrl c (url item.1)).ok then
    (db.tryCrawlParsed c (UrlParsed.ofUrl c (url item.1)) item.2).1
  else .disallowUrlParsing

/-- The database after an item. -/
def dbAfter (c : Contribs) (url : α → Url) (db : HostDb) (item : α × CrawlReads) : HostDb :=
  if (UrlParsed.ofUrl c (url item.1)).ok then
    (db.tryCrawlParsed c (UrlParsed.ofUrl c (url item.1)) item.2).2.2
  else db

theorem decisions_tryCrawlItem (acc : TryAcc β) (item : α × CrawlReads) :
    (tryCrawlItem c url out acc item).decisions
      = acc.decisions ++ [decisionOn c url acc.db item] := by
  unfold tryCrawlItem decisionOn
  dsimp only
  split_ifs <;> rfl

theorem db_tryCrawlItem (acc : TryAcc β) (item : α × CrawlReads) :
    (tryCrawlItem c url out acc item).db = dbAfter c url acc.db item := by
  unfold tryCrawlItem dbAfter
  dsimp only
  split_ifs <;> rfl

/-- There is one decision for each item. -/
theorem length_decisions (items : List (α × CrawlReads)) :
    (tryCrawlLoop c url out db items).decisions.length = items.length := by
  induction items using List.reverseRecOn with
  | nil => rfl
  | append_singleton items item ih =>
    rw [tryCrawlLoop_append, decisions_tryCrawlItem, List.length_append, List.length_append, ih]
    rfl

/-- One more item adds its grant, if it has one, at the end. -/
theorem grants_append (items : List (α × CrawlReads)) (item : α × CrawlReads) :
    grants c url (items ++ [item]) (tryCrawlLoop c url out db (items ++ [item])).decisions
      = grants c url items (tryCrawlLoop c url out db items).decisions
        ++ if decisionOn c url (tryCrawlLoop c url out db items).db item = .allow
          then [((UrlParsed.ofUrl c (url item.1)).host, item.2)] else [] := by
  unfold grants
  rw [tryCrawlLoop_append, decisions_tryCrawlItem,
    List.zip_append (length_decisions items).symm, List.filterMap_append]
  congr 1
  split_ifs with h <;> simp [h]

theorem allowed_tryCrawlItem (acc : TryAcc β) (item : α × CrawlReads) :
    (tryCrawlItem c url out acc item).allowed
      = acc.allowed ++ if decisionOn c url acc.db item = .allow
          then [out item.1 (UrlParsed.ofUrl c (url item.1))] else [] := by
  unfold tryCrawlItem decisionOn
  by_cases hok : (UrlParsed.ofUrl c (url item.1)).ok = true
  · rw [if_pos hok, if_pos hok]
    dsimp only
    by_cases hallow :
        (acc.db.tryCrawlParsed c (UrlParsed.ofUrl c (url item.1)) item.2).1 = .allow
    · rw [if_pos hallow, if_pos hallow]
    · rw [if_neg hallow, if_neg hallow, List.append_nil]
  · rw [if_neg hok, if_neg hok, if_neg nofun, List.append_nil]

/-- The records that are put out are those of the grants. -/
theorem map_host_allowed (c : Contribs) (db : HostDb) (tryUrls : List (GFQRecord × CrawlReads)) :
    (db.tryCrawl c tryUrls).allowed.map (fun gfq => (UrlParsed.ofUrl c gfq.url).host)
      = (grants c GFQRecord.url tryUrls (db.tryCrawl c tryUrls).decisions).map Prod.fst := by
  unfold tryCrawl
  induction tryUrls using List.reverseRecOn with
  | nil => rfl
  | append_singleton tryUrls item ih =>
    rw [grants_append, List.map_append, ← ih, tryCrawlLoop_append, allowed_tryCrawlItem,
      List.map_append]
    congr 1
    split_ifs <;> rfl

/-- What is put out are some of the records that were tried. -/
theorem allowed_tryCrawl_sublist (c : Contribs) (db : HostDb)
    (tryUrls : List (GFQRecord × CrawlReads)) :
    (db.tryCrawl c tryUrls).allowed.Sublist (tryUrls.map Prod.fst) := by
  unfold tryCrawl
  induction tryUrls using List.reverseRecOn with
  | nil => exact List.Sublist.refl _
  | append_singleton tryUrls item ih =>
    rw [tryCrawlLoop_append, allowed_tryCrawlItem, List.map_append]
    refine ih.append ?_
    split_ifs
    · exact List.Sublist.refl _
    · exact List.nil_sublist _

/-- What is put out parses. -/
theorem ok_of_mem_allowed {tryUrls : List (GFQRecord × CrawlReads)} {gfq : GFQRecord}
    (h : gfq ∈ (db.tryCrawl c tryUrls).allowed) : (UrlParsed.ofUrl c gfq.url).ok = true := by
  unfold tryCrawl at h
  induction tryUrls using List.reverseRecOn with
  | nil => cases h
  | append_singleton tryUrls item ih =>
    rw [tryCrawlLoop_append, allowed_tryCrawlItem] at h
    rcases List.mem_append.mp h with h | h
    · exact ih h
    · split_ifs at h with hallow
      · rw [List.mem_singleton.mp h]
        by_contra hok
        rw [decisionOn, if_neg hok] at hallow
        cases hallow
      · cases h

/-- The counters after one item. -/
theorem counters_dbAfter (c : Contribs) (url : α → Url) (db : HostDb) (item : α × CrawlReads) :
    (∀ host, (dbAfter c url db item).crawling host = db.crawling host
        + if decisionOn c url db item = .allow ∧ (UrlParsed.ofUrl c (url item.1)).host = host
          then 1 else 0) ∧
      (dbAfter c url db item).globalCrawling
        = db.globalCrawling + if decisionOn c url db item = .allow then 1 else 0 := by
  unfold dbAfter decisionOn
  by_cases hok : (UrlParsed.ofUrl c (url item.1)).ok = true
  · rw [if_pos hok, if_pos hok]
    by_cases hallow :
        (db.tryCrawlParsed c (UrlParsed.ofUrl c (url item.1)) item.2).1 = .allow
    · obtain ⟨hhost, hglobal⟩ := counters_of_allow hallow
      refine ⟨fun host => ?_, ?_⟩
      · rw [hhost]
        simp only [hallow, true_and]
      · rw [hglobal, if_pos hallow]
    · have hsame := sameCounters_of_ne_allow hallow
      refine ⟨fun host => ?_, ?_⟩
      · rw [hsame.crawling, if_neg fun h => hallow h.1, add_zero]
      · rw [hsame.global, if_neg hallow, add_zero]
  · rw [if_neg hok, if_neg hok]
    exact ⟨fun host => (add_zero _).symm, (add_zero _).symm⟩

theorem limits_dbAfter (item : α × CrawlReads) : (dbAfter c url db item).limits = db.limits := by
  unfold dbAfter
  split_ifs
  · rcases tryCrawlParsed_cases c db (UrlParsed.ofUrl c (url item.1)) item.2 with
      ⟨-, heq | heq⟩ | ⟨-, -, -, heq⟩
    · rw [heq]
    · rw [heq, (sameCounters_isAllowedFreq db _ item.2).limits]
    · rw [heq]
      exact (sameCounters_isAllowedFreq db _ item.2).limits
  · rfl

@[simp] theorem limits_tryCrawlLoop (c : Contribs) (url : α → Url) (out : α → UrlParsed → β)
    (db : HostDb) (items : List (α × CrawlReads)) :
    (tryCrawlLoop c url out db items).db.limits = db.limits := by
  induction items using List.reverseRecOn with
  | nil => rfl
  | append_singleton items item ih =>
    rw [tryCrawlLoop_append, db_tryCrawlItem, limits_dbAfter, ih]

/-- **A batch** raises the counters by the hosts it allows. -/
theorem counters_tryCrawlLoop (c : Contribs) (url : α → Url) (out : α → UrlParsed → β)
    (db : HostDb) (items : List (α × CrawlReads)) :
    (∀ host, (tryCrawlLoop c url out db items).db.crawling host = db.crawling host
        + (((grants c url items (tryCrawlLoop c url out db items).decisions).map Prod.fst).count
            host : ℤ)) ∧
      (tryCrawlLoop c url out db items).db.globalCrawling = db.globalCrawling
        + ((grants c url items (tryCrawlLoop c url out db items).decisions).length : ℤ) := by
  induction items using List.reverseRecOn with
  | nil => exact ⟨fun _ => (add_zero _).symm, (add_zero _).symm⟩
  | append_singleton items item ih =>
    obtain ⟨ihhost, ihglobal⟩ := ih
    obtain ⟨hhost, hglobal⟩ := counters_dbAfter c url (tryCrawlLoop c url out db items).db item
    rw [grants_append, List.map_append, List.length_append, tryCrawlLoop_append, db_tryCrawlItem]
    refine ⟨fun host => ?_, ?_⟩
    · rw [hhost, ihhost, List.count_append]
      -- allowed for this host, allowed for another one, not allowed
      split_ifs with h1 h2 h2
      · rw [List.map_singleton, List.count_singleton, h1.2]
        simp [add_assoc]
      · exact absurd h1.1 h2
      · have hne : (UrlParsed.ofUrl c (url item.1)).host ≠ host := fun h => h1 ⟨h2, h⟩
        rw [List.map_singleton, List.count_singleton]
        simp [hne]
      · simp
    · rw [hglobal, ihglobal]
      split_ifs <;> simp [add_assoc]

/-! ### Results -/

theorem decCrawling_crawlingNow (hf : HostFreq) :
    hf.decCrawling.crawlingNow = if hf.crawlingNow ≤ 0 then hf.crawlingNow
      else hf.crawlingNow - 1 := by
  unfold HostFreq.decCrawling
  split_ifs <;> rfl

theorem hostFreq_onFetchedItem {result : FetchResult}
    (hok : (UrlParsed.ofUrl c result.gfq.url).ok = true) :
    (onFetchedItem c db result).hostFreq
      = db.hostFreq.alter (UrlParsed.ofUrl c result.gfq.url).host
          fun o => some (o.getD .init).decCrawling := by
  unfold onFetchedItem
  dsimp only
  rw [if_pos hok]
  split_ifs <;> rfl

/-- A result of a parseable URL. -/
theorem crawling_onFetchedItem {result : FetchResult}
    (hok : (UrlParsed.ofUrl c result.gfq.url).ok = true) (host : Host) :
    (onFetchedItem c db result).crawling host
      = if (UrlParsed.ofUrl c result.gfq.url).host = host ∧ 0 < db.crawling host
        then db.crawling host - 1 else db.crawling host := by
  rw [crawling, hostFreq_onFetchedItem hok, OrdMap.getElem?_alter]
  by_cases heq : (UrlParsed.ofUrl c result.gfq.url).host = host
  · subst heq
    rw [if_pos rfl, Option.elim_some, decCrawling_crawlingNow, ← crawling_eq_getD]
    split_ifs with h1 h2 h2
    · exact absurd h2.2 (not_lt.mpr h1)
    · rfl
    · rfl
    · exact absurd ⟨rfl, not_le.mp h1⟩ h2
  · rw [if_neg heq, if_neg fun h => heq h.1]
    rfl

theorem globalCrawling_onFetchedItem {result : FetchResult}
    (hok : (UrlParsed.ofUrl c result.gfq.url).ok = true) :
    (onFetchedItem c db result).globalCrawling
      = if db.globalCrawling ≤ 0 then db.globalCrawling else db.globalCrawling - 1 := by
  rw [globalCrawling, globalCrawling, ← decCrawling_crawlingNow]
  unfold onFetchedItem
  dsimp only
  rw [if_pos hok]
  split_ifs <;> rfl

@[simp] theorem limits_onFetchedItem (db : HostDb) (result : FetchResult) :
    (onFetchedItem c db result).limits = db.limits := by
  unfold onFetchedItem
  dsimp only
  split_ifs <;> rfl

end HostDb

end Contentv1
