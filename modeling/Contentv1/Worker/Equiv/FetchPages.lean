import Contentv1.Worker.FetchPages
import Contentv1.Ldb.Equiv.UrlDb
import Contentv1.Ldb.Equiv.UrlDbPolicy
import Contentv1.Lib.Machine

/-!
# Whether what counts as crawled is stored

A page whose last attempt is entered as successful is left alone for a week, so it should be in the
page store.  `along_pagesStored_iff`: it is, all along a run, exactly when every page that was
fetched is stored by its save or was stored with the same content before.
-/

namespace Contentv1.FetchPages

variable {misc : MiscTime} {s t : State} {ji : JobInfo} {now : ℤ} {save : SaveOutcome} {url : Url}

/-- The last response of a URL. -/
def lastResponse (handled : List JobInfo) (url : Url) : Option JobInfo :=
  (handled.filter fun ji => ji.userdata.url = url).getLast?

theorem lastResponse_append (handled : List JobInfo) (ji : JobInfo) (url : Url) :
    lastResponse (handled ++ [ji]) url
      = if ji.userdata.url = url then some ji else lastResponse handled url := by
  unfold lastResponse
  rw [List.filter_append]
  split_ifs with hurl
  · rw [List.filter_cons_of_pos (by simpa using hurl), List.filter_nil, List.getLast?_concat]
  · rw [List.filter_cons_of_neg (by simpa using hurl), List.filter_nil, List.append_nil]

/-- The page of a URL is stored as its last response had it. -/
def PageStored (s : State) (url : Url) : Prop :=
  ∃ ji, lastResponse s.handled url = some ji ∧ ji.success = true ∧
    s.pageDb.db[url]? = some ji.resp

/-- The last attempt of a URL is entered as successful. -/
def CountsAsCrawled (s : State) (url : Url) : Prop :=
  ∃ last, (s.urlDb.attemptsOf url).getLast? = some last ∧ last.status = .ok

/-- Every page that counts as crawled is stored. -/
def PagesStored (s : State) : Prop :=
  ∀ url : Url, url.endsWith robotsPostfix = false → CountsAsCrawled s url → PageStored s url

/-- The step does not reach the defect: a page that was fetched is stored by its save, or it was
stored with that content before. -/
def Stores (s : State) : Label → Prop
  | .setEnqueued _ _ => True
  | .onResponse ji _ save =>
    ji.success = true → ji.userdata.isRobots = false →
      save.stored = true ∨ s.pageDb.db[ji.userdata.url]? = some ji.resp

instance (s : State) : DecidablePred (Stores s)
  | .setEnqueued _ _ => isTrue trivial
  | .onResponse ji _ save =>
    inferInstanceAs (Decidable (ji.success = true → ji.userdata.isRobots = false →
      save.stored = true ∨ s.pageDb.db[ji.userdata.url]? = some ji.resp))

/-! ### One lemma for each label -/

theorem step_setEnqueued {urls : List Url} :
    step misc s (.setEnqueued urls now) = some t ↔
      { s with urlDb := s.urlDb.setEnqueued misc urls now } = t := by
  unfold step
  rw [Option.some_inj]

theorem step_onResponse :
    step misc s (.onResponse ji now save) = some t ↔
      ∃ urlDb, s.urlDb.setStatus misc ji.result now = some urlDb ∧
        { urlDb := urlDb, pageDb := savePage s.pageDb ji save,
          stats := s.stats.inc ji.success ji.userdata.isRobots,
          handled := s.handled ++ [ji] } = t := by
  have hone : s.urlDb.onFetched misc [ji.result] now = s.urlDb.setStatus misc ji.result now := by
    unfold UrlDb.onFetched
    rw [List.foldlM_cons]
    exact bind_pure _
  rw [← hone]
  exact Option.map_eq_some_iff

/-! ### What a response does to a URL -/

/-- Enqueued URLs do not count as crawled. -/
theorem countsAsCrawled_setEnqueued {urls : List Url}
    (h : CountsAsCrawled { s with urlDb := s.urlDb.setEnqueued misc urls now } url) :
    CountsAsCrawled s url := by
  obtain ⟨last, hlast, hok⟩ := h
  dsimp only at hlast
  rw [UrlDb.getLast?_setEnqueued] at hlast
  split_ifs at hlast with hurl
  · obtain rfl := Option.some.inj hlast
    cases hok
  · exact ⟨last, hlast, hok⟩

/-- A response counts for its URL if it is a success. -/
theorem countsAsCrawled_own_iff (h : step misc s (.onResponse ji now save) = some t) :
    CountsAsCrawled t ji.userdata.url ↔ ji.success = true := by
  obtain ⟨urlDb, hdb, rfl⟩ := step_onResponse.mp h
  obtain ⟨init, last, hafter, -⟩ := UrlDb.setStatus_eq_some hdb
  have hlast : (urlDb.attemptsOf ji.userdata.url).getLast?
      = some { last with status := ji.result.status } := by
    have heq : urlDb.attemptsOf ji.userdata.url
        = init ++ [{ last with status := ji.result.status }] := hafter
    rw [heq, List.getLast?_concat]
  have hstatus : ji.result.status = .ok ↔ ji.success = true := by
    unfold JobInfo.result FetchLoop.responseResult
    cases ji.success <;> simp
  rw [← hstatus]
  constructor
  · rintro ⟨last', hlast', hok⟩
    obtain rfl := Option.some.inj (hlast.symm.trans hlast')
    exact hok
  · intro hok
    exact ⟨_, hlast, hok⟩

theorem getElem?_savePage (pageDb : PageDb) (ji : JobInfo) (save : SaveOutcome) (url : Url) :
    (savePage pageDb ji save).db[url]?
      = if ji.success = true ∧ ji.userdata.isRobots = false ∧ save.stored = true ∧
            ji.userdata.url = url then some ji.resp else pageDb.db[url]? := by
  unfold savePage PageDb.save
  cases hsuccess : ji.success with
  | false => simp
  | true =>
    cases hrobots : ji.userdata.isRobots with
    | true => simp
    | false =>
      cases hstored : save.stored with
      | false => simp
      | true => simp [OrdMap.getElem?_insert]

/-- The other URLs stay as they are. -/
theorem step_onResponse_of_ne (h : step misc s (.onResponse ji now save) = some t)
    (hurl : ji.userdata.url ≠ url) :
    (CountsAsCrawled t url ↔ CountsAsCrawled s url) ∧ (PageStored t url ↔ PageStored s url) := by
  obtain ⟨urlDb, hdb, rfl⟩ := step_onResponse.mp h
  unfold CountsAsCrawled PageStored
  dsimp only
  rw [UrlDb.attemptsOf_setStatus_of_ne hurl hdb, lastResponse_append, if_neg hurl,
    getElem?_savePage, if_neg fun hown => hurl hown.2.2.2]
  exact ⟨Iff.rfl, Iff.rfl⟩

/-- The page of a successful response is stored by its save or was stored before. -/
theorem pageStored_own_iff (h : step misc s (.onResponse ji now save) = some t)
    (hsuccess : ji.success = true) (hpage : ji.userdata.isRobots = false) :
    PageStored t ji.userdata.url ↔
      save.stored = true ∨ s.pageDb.db[ji.userdata.url]? = some ji.resp := by
  obtain ⟨urlDb, hdb, rfl⟩ := step_onResponse.mp h
  unfold PageStored
  dsimp only
  rw [lastResponse_append, if_pos rfl, getElem?_savePage]
  have hexists : ∀ o : Option Str, (∃ ji', some ji = some ji' ∧ ji'.success = true ∧
      o = some ji'.resp) ↔ o = some ji.resp := by
    intro o
    constructor
    · rintro ⟨ji', heq, -, ho⟩
      obtain rfl := Option.some.inj heq
      exact ho
    · exact fun ho => ⟨ji, rfl, hsuccess, ho⟩
  rw [hexists]
  cases hstored : save.stored with
  | true => simp [hsuccess, hpage]
  | false => simp

/-! ### Every run -/

theorem pagesStored_init : PagesStored .init := by
  rintro url - ⟨last, hlast, -⟩
  rw [State.init, UrlDb.attemptsOf_default] at hlast
  cases hlast

/-- A step keeps the pages stored exactly when it does not reach the defect. -/
theorem pagesStored_step_iff {a : Label} (h : step misc s a = some t) (hs : PagesStored s) :
    PagesStored t ↔ Stores s a := by
  cases a with
  | setEnqueued urls now =>
    obtain rfl := step_setEnqueued.mp h
    refine iff_of_true (fun url hurl hcrawled => ?_) trivial
    exact hs url hurl (countsAsCrawled_setEnqueued hcrawled)
  | onResponse ji now save =>
    constructor
    · intro ht hsuccess hpage
      have hstored := ht ji.userdata.url hpage ((countsAsCrawled_own_iff h).mpr hsuccess)
      exact (pageStored_own_iff h hsuccess hpage).mp hstored
    · intro hok url hurl hcrawled
      by_cases hown : ji.userdata.url = url
      · subst hown
        have hsuccess := (countsAsCrawled_own_iff h).mp hcrawled
        exact (pageStored_own_iff h hsuccess hurl).mpr (hok hsuccess hurl)
      · obtain ⟨hcounts, hstored⟩ := step_onResponse_of_ne h hown
        exact hstored.mpr (hs url hurl (hcounts.mp hcrawled))

/-- **When a page counted as crawled is stored.**  In a run from any state in which the pages that
count as crawled are stored, they are so all along exactly when every step meets the condition. -/
theorem along_pagesStored_iff (misc : MiscTime) (hs : PagesStored s) {l : List Label}
    (hrun : Machine.run (step misc) s l = some t) :
    Machine.Along (step misc) PagesStored s l ↔ Machine.Meets (step misc) Stores s l :=
  Machine.along_iff_meets (I := fun _ => True) (fun _ _ _ _ _ => trivial)
    (fun _ _ _ h _ hs => pagesStored_step_iff h hs) hrun trivial hs

/-- A page is enqueued and fetched; its save fails or not. -/
def fetchPage (save : SaveOutcome) : List Label :=
  [.setEnqueued [Str.ofString "http://a/"] 0,
    .onResponse ⟨⟨Str.ofString "http://a/", 0⟩, true, default, Str.ofString "page"⟩ 0 save]

/-- With a save that returns. -/
theorem along_pagesStored_iff_returned :
    ∃ s, Machine.run (step .nearEpoch) .init (fetchPage .returned) = some s ∧
      Machine.Along (step .nearEpoch) PagesStored .init (fetchPage .returned) := by
  have hrun : ∃ s, Machine.run (step .nearEpoch) .init (fetchPage .returned) = some s ∧ True := by
    decide +kernel
  obtain ⟨s, hs, -⟩ := hrun
  have hmeets : Machine.Meets (step .nearEpoch) Stores .init (fetchPage .returned) := by
    decide +kernel
  exact ⟨s, hs, (along_pagesStored_iff .nearEpoch pagesStored_init hs).mpr hmeets⟩

/-- With one that throws the page is nowhere, and is not asked for again for a week. -/
theorem not_pagesStored_threw :
    ¬ ∀ (l : List Label) (s : State), Machine.run (step .nearEpoch) .init l = some s →
        ∀ url : Url, url.endsWith robotsPostfix = false → CountsAsCrawled s url →
          PageStored s url := by
  intro h
  have hrun : ∃ s, Machine.run (step .nearEpoch) .init (fetchPage (.threw false)) = some s ∧
      (s.urlDb.attemptsOf (Str.ofString "http://a/")).getLast? = some ⟨0, .ok⟩ ∧
      s.pageDb.db[Str.ofString "http://a/"]? = none ∧
      s.urlDb.isNeedCrawl (Str.ofString "http://a/") (days 6) = .disallowTryInAWeek := by
    decide +kernel
  obtain ⟨s, hs, hlast, hnone, -⟩ := hrun
  obtain ⟨ji, -, -, hpage⟩ := h _ s hs (Str.ofString "http://a/") (by decide) ⟨_, hlast, rfl⟩
  rw [hnone] at hpage
  cases hpage

end Contentv1.FetchPages
