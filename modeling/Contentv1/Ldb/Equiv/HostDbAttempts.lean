import Contentv1.Ldb.Equiv.HostDbRobots
import Contentv1.Ldb.Equiv.HostDbTexts

/-!
# What opens a host

Nothing is to be fetched from a host until its robots URL has been tried, and its pages may be
fetched from then on, whatever came of the try.  `onFetched` keeps the text of an OK result only, so
a try that failed leaves the host as it was.

* `decisionOn_eq_disallowNeedRobots_iff`: what is refused for want of a text.
* `knownTexts_serve`: the texts known are those of the results taken and, for other hosts, those
  stored before.
* `meets_openedByAttempt_iff_meets_answered` is the exact extent of both halves of the rule.
-/

namespace Contentv1

namespace HostDb

variable {c : Contribs} {db : HostDb} {host : Host} {s t : Heard} {stored : OrdMap Host Str}

/-- A URL of the host that is none of its robots URLs. -/
def IsPageOf (c : Contribs) (host : Host) (url : Url) : Prop :=
  (UrlParsed.ofUrl c url).ok = true ∧ (UrlParsed.ofUrl c url).host = host ∧
    ¬ IsRobotsUrlOf c host (UrlParsed.ofUrl c url).normalized

/-- Some result, of any status, is of a robots URL of the host. -/
def Attempted (c : Contribs) (host : Host) (results : List FetchResult) : Prop :=
  ∃ r ∈ results, IsRobotsUrlOf c host r.gfq.url

/-- Pages of a host are allowed only after an attempt on its robots URL, unless its text was stored
before, and after one they are not refused for want of a text. -/
def OpenedByAttempt (c : Contribs) (stored : OrdMap Host Str) (s : Heard) : Call → Prop
  | .tryFetchUrls tryUrls =>
    ∀ p ∈ tryUrls.zip (s.db.tryCrawl c tryUrls).decisions, ∀ host, IsPageOf c host p.1.1.url →
      (p.2 = .allow → stored[host]? ≠ none ∨ Attempted c host s.results) ∧
        (Attempted c host s.results → p.2 ≠ .disallowNeedRobots)
  | .onFetched _ => True

/-- The last text taken for the host, if there is one, allows the URL. -/
def TakenTextAllows (c : Contribs) (host : Host) (results : List FetchResult) (url : Url) : Prop :=
  ∃ r, (results.filter (takes c host)).getLast? = some r ∧
    (Robots.mk r.content).isAllowed c url = true

/-- A page tried after an attempt ends like a robots URL, or the host's text was stored before or
taken from some result.  A page tried before any, with no text stored, neither ends like a robots
URL nor is allowed by a text taken from another URL of the host, or the frequencies refuse it. -/
def Answered (c : Contribs) (stored : OrdMap Host Str) (s : Heard) : Call → Prop
  | .tryFetchUrls tryUrls =>
    ∀ pre item post, tryUrls = pre ++ item :: post → ∀ host, IsPageOf c host item.1.url →
      let urlParsed := UrlParsed.ofUrl c item.1.url
      (Attempted c host s.results →
        urlParsed.isRobots = true ∨ stored[host]? ≠ none ∨ ∃ r ∈ s.results, takes c host r = true) ∧
      (¬ Attempted c host s.results → stored[host]? = none →
        ¬ (urlParsed.isRobots = true ∨ TakenTextAllows c host s.results urlParsed.normalized) ∨
          ((dbAt c GFQRecord.url s.db pre).isAllowedFreq host item.2).1 = false)
  | .onFetched _ => True

/-! ### Decisions -/

variable {α β : Type} {url : α → Url} {out : α → UrlParsed → β}

theorem tryCrawlParsed_eq_disallowNeedRobots_iff {urlParsed : UrlParsed} {now : CrawlReads}
    (hne : urlParsed.robots.bytes.isEmpty = false) :
    (db.tryCrawlParsed c urlParsed now).1 = .disallowNeedRobots ↔
      urlParsed.isRobots = false ∧ db.hostRobots[urlParsed.host]? = none := by
  unfold tryCrawlParsed
  by_cases hunknown : urlParsed.isRobots = false ∧ db.hostRobots[urlParsed.host]? = none
  · rw [isAllowedRobots_of_unknown hunknown.1 hunknown.2]
    simp [hne, hunknown]
  · -- no robots URL is asked for
    have hdefault : (db.isAllowedRobots c urlParsed).2.bytes.isEmpty = true := by
      rw [isAllowedRobots_of_known hunknown]
      rfl
    refine iff_of_false ?_ hunknown
    dsimp only
    split_ifs <;> exact nofun

/-- A URL is refused for want of a text if it does not end like a robots URL and its host's text is
not known. -/
theorem decisionOn_eq_disallowNeedRobots_iff {item : α × CrawlReads} :
    decisionOn c url db item = .disallowNeedRobots ↔
      (UrlParsed.ofUrl c (url item.1)).ok = true ∧
        (UrlParsed.ofUrl c (url item.1)).isRobots = false ∧
        db.hostRobots[(UrlParsed.ofUrl c (url item.1)).host]? = none := by
  unfold decisionOn
  split_ifs with hok
  · rw [tryCrawlParsed_eq_disallowNeedRobots_iff (UrlParsed.isEmpty_of_endsWith_robots
      (UrlParsed.endsWith_robots_ofUrl hok))]
    exact (and_iff_right hok).symm
  · simp [hok]

/-- What holds of the items of a batch and the decisions on them. -/
theorem forall_mem_zip_decisions {Q : α × CrawlReads → EHostCrawlDecision → Prop}
    (items : List (α × CrawlReads)) :
    (∀ p ∈ items.zip (tryCrawlLoop c url out db items).decisions, Q p.1 p.2) ↔
      ∀ pre item post, items = pre ++ item :: post →
        Q item (decisionOn c url (dbAt c url db pre) item) := by
  induction items using List.reverseRecOn with
  | nil => simp
  | append_singleton items item ih =>
    rw [forall_split_append_singleton, ← ih, tryCrawlLoop_append, decisions_tryCrawlItem,
      List.zip_append (length_decisions items).symm, List.forall_mem_append, db_tryCrawlLoop]
    simp

/-! ### The texts known -/

/-- The texts of the results taken, over the ones stored before. -/
def KnownTexts (c : Contribs) (stored : OrdMap Host Str) (s : Heard) : Prop :=
  ∀ host : Host, s.db.hostRobots[host]?
    = ((s.results.filter (takes c host)).getLast?.map fun r => ⟨r.content⟩).or
        (stored[host]?.map Robots.mk)

/-- The texts that the constructor loads. -/
theorem hostRobots_openDb (limits : CrawlLimits) (stored : OrdMap Host Str) (host : Host) :
    (openDb limits stored).hostRobots[host]? = stored[host]?.map Robots.mk := by
  have hF : OrdMap.LocalAt (fun (m : OrdMap Host Robots) (p : Host × Str) => m.insert p.1 ⟨p.2⟩)
      fun _ text _ => some ⟨text⟩ := fun m p host => OrdMap.getElem?_insert m p.1 host ⟨p.2⟩
  unfold openDb
  rw [OrdMap.getElem?_foldl_perm hF (List.Perm.refl _)]
  cases stored[host]? <;> simp

theorem knownTexts_onStored (c : Contribs) (limits : CrawlLimits) (stored : OrdMap Host Str) :
    KnownTexts c stored (.onStored limits stored) :=
  fun host => hostRobots_openDb limits stored host

theorem knownTexts_serve {call : Call} (h : serve c s call = some t) (hs : KnownTexts c stored s) :
    KnownTexts c stored t := by
  intro host
  cases call with
  | tryFetchUrls tryUrls =>
    obtain rfl := Option.some.inj h
    dsimp only
    rw [tryCrawl, hostRobots_tryCrawlLoop, hs host]
  | onFetched results =>
    obtain rfl := Option.some.inj h
    dsimp only
    rw [(texts_onFetched c s.db results host).1, hs host, List.filter_append,
      List.getLast?_append, Option.map_or, Option.or_assoc]

/-- A text is known exactly if it was stored before or taken from some result. -/
theorem KnownTexts.eq_none_iff (hs : KnownTexts c stored s) :
    s.db.hostRobots[host]? = none ↔
      ¬ (stored[host]? ≠ none ∨ ∃ r ∈ s.results, takes c host r = true) := by
  rw [hs host, Option.or_eq_none_iff, Option.map_eq_none_iff, Option.map_eq_none_iff,
    List.getLast?_eq_none_iff, List.filter_eq_nil_iff]
  simp [and_comm]

/-- With no text stored before, it is the last one taken that allows a URL. -/
theorem KnownTexts.textAllows_iff {urlParsed : UrlParsed} (hs : KnownTexts c stored s)
    (hhost : urlParsed.host = host) (hnone : stored[host]? = none) :
    TextAllows c s.db urlParsed ↔ TakenTextAllows c host s.results urlParsed.normalized := by
  subst hhost
  unfold TextAllows TakenTextAllows
  rw [hs, hnone, Option.map_none, Option.or_none]
  simp [Option.map_eq_some_iff]

/-! ### Calls -/

/-- **One call** follows the rule exactly when it is answered. -/
theorem openedByAttempt_iff_answered (hs : KnownTexts c stored s) (call : Call) :
    OpenedByAttempt c stored s call ↔ Answered c stored s call := by
  cases call with
  | onFetched results => exact Iff.rfl
  | tryFetchUrls tryUrls =>
    unfold OpenedByAttempt Answered
    dsimp only
    -- from the decisions that are put out to the turns of the loop
    have hzip := @forall_mem_zip_decisions c s.db _ _ GFQRecord.url (fun gfq _ => gfq)
      (fun item decision => ∀ host, IsPageOf c host item.1.url →
        (decision = .allow → stored[host]? ≠ none ∨ Attempted c host s.results) ∧
          (Attempted c host s.results → decision ≠ .disallowNeedRobots)) tryUrls
    refine hzip.trans ?_
    refine forall₃_congr fun pre item post => forall₃_congr fun _ host hpage => ?_
    obtain ⟨hok, rfl, -⟩ := hpage
    have hrobots : (dbAt c GFQRecord.url s.db pre).hostRobots = s.db.hostRobots := by
      have hkept := hostRobots_tryCrawlLoop c GFQRecord.url (fun _ _ => ()) s.db pre
      rwa [db_tryCrawlLoop] at hkept
    rw [decisionOn_eq_allow_iff, isAllowedRobots_congr hrobots, isAllowedRobots_iff,
      ne_eq _ EHostCrawlDecision.disallowNeedRobots, decisionOn_eq_disallowNeedRobots_iff, hrobots,
      hs.eq_none_iff, and_comm]
    refine and_congr (imp_congr_right fun _ => ?_) ?_
    · rw [← Bool.not_eq_true, and_iff_right hok, not_and_or, not_not, not_not]
    · constructor
      · intro hallow hattempt hnone
        rw [← hs.textAllows_iff rfl hnone]
        by_contra hpass
        rw [not_or, not_not, Bool.not_eq_false] at hpass
        exact (hallow ⟨hok, hpass⟩).elim (fun h => h hnone) hattempt
      · rintro hrefused ⟨-, hrule, hfreq⟩
        by_contra hnot
        rw [not_or, not_not] at hnot
        have hcase := hrefused hnot.2 hnot.1
        rw [← hs.textAllows_iff rfl hnot.1, hfreq] at hcase
        exact hcase.elim (fun h => h hrule) nofun

/-- **What opens a host.**  In every sequence of calls, hosts are opened by an attempt on their
robots URL, and by that only, exactly when every page tried is answered. -/
theorem meets_openedByAttempt_iff_meets_answered (c : Contribs) (limits : CrawlLimits)
    (stored : OrdMap Host Str) (calls : List Call) :
    Machine.Meets (serve c) (OpenedByAttempt c stored) (.onStored limits stored) calls ↔
      Machine.Meets (serve c) (Answered c stored) (.onStored limits stored) calls :=
  Machine.meets_congr (I := KnownTexts c stored) (fun _ _ _ h hs => knownTexts_serve h hs)
    (fun _ call hs => openedByAttempt_iff_answered hs call) (knownTexts_onStored c limits stored)

/-- The robots URL of a host, which the host answers with 404, and then a page of it. -/
def failedRobots : List Call :=
  [.tryFetchUrls [(⟨Str.ofString "http://a/robots.txt", 0⟩, .at 0)],
    .onFetched [⟨⟨Str.ofString "http://a/robots.txt", 0⟩, .s4xx, default, default⟩],
    .tryFetchUrls [(⟨Str.ofString "http://a/x", 1⟩, .at 1)]]

/-- The page is refused for want of a text after the attempt. -/
theorem not_meets_openedByAttempt_failedRobots :
    ¬ Machine.Meets (serve .plainHttp) (OpenedByAttempt .plainHttp ∅) (.onStored ⟨2, 2, 2, 2, 2⟩ ∅)
      failedRobots := by
  intro h
  have hlast := (((h.2 _ rfl).2 _ rfl).1 : OpenedByAttempt _ _ _ _)
    (((⟨Str.ofString "http://a/x", 1⟩ : GFQRecord), .at 1), .disallowNeedRobots) (by decide)
    (Str.ofString "a")
  have hpage : IsPageOf .plainHttp (Str.ofString "a") (Str.ofString "http://a/x") := by
    refine ⟨by decide, by decide, fun hrobots => ?_⟩
    exact absurd (eq_of_isRobotsUrlOf_plainHttp hrobots) (by decide)
  refine (hlast hpage).2 ⟨_, List.mem_singleton.mpr rfl, ?_⟩ rfl
  exact ⟨Str.ofString "http://a/x", by decide, by decide, by decide⟩

end HostDb

end Contentv1
