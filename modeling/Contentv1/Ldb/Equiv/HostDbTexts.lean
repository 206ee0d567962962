import Contentv1.Core.Equiv.UrlParsed
import Contentv1.Ldb.Equiv.HostDb

/-!
# Which results set a host's robots text

A host's policy is what the host itself answered for its robots URL.  `onFetched` takes the content
of every OK result whose URL, as it stands in the record, ends like a robots URL, for the host the
URL parses to.

* `texts_onFetched`: the text held is that of the last such result.
* `takes_of_own`: the results of a host's robots URL are among them.
* `ownTexts_leavesOthers_iff_meets_genuine`: the texts are the hosts' own all along a run exactly
  when in every call the last result taken for a host is one of its robots URL, or says the same.
-/

namespace Contentv1

namespace HostDb

variable {c : Contribs} {db : HostDb} {host : Host} {s t : Heard}

/-- `onFetched` takes the result's content as the host's text. -/
def takes (c : Contribs) (host : Host) (result : FetchResult) : Bool :=
  (UrlParsed.ofUrl c result.gfq.url).ok && (UrlParsed.ofUrl c result.gfq.url).host == host &&
    result.isRobots && result.isOk

/-- An OK result of the host's robots URL. -/
def Own (c : Contribs) (host : Host) (result : FetchResult) : Prop :=
  result.isOk = true ∧ IsRobotsUrlOf c host result.gfq.url

open Classical in
/-- The content of the latest OK result of the host's robots URL. -/
noncomputable def latestOwn (c : Contribs) (host : Host) (results : List FetchResult) :
    Option Str :=
  (results.filter fun r => decide (Own c host r)).getLast?.map FetchResult.content

/-- Every host's text, in memory and in LevelDB, is the latest of its own. -/
def OwnTexts (c : Contribs) (s : Heard) : Prop :=
  ∀ host : Host, s.db.hostRobots[host]? = (latestOwn c host s.results).map Robots.mk ∧
    s.db.db[host]? = latestOwn c host s.results

/-- The results of a call that are not of a host's robots URL leave its text as it is. -/
def LeavesOthers (c : Contribs) (s : Heard) (results : List FetchResult) : Prop :=
  ∀ host, (∀ r ∈ results, ¬ Own c host r) →
    (s.db.onFetched c results).hostRobots[host]? = s.db.hostRobots[host]? ∧
      (s.db.onFetched c results).db[host]? = s.db.db[host]?

/-- The last result that is taken for a host is one of its robots URL or says the same as the
latest of those. -/
def Genuine (c : Contribs) (s : Heard) (results : List FetchResult) : Prop :=
  ∀ host r, (results.filter (takes c host)).getLast? = some r →
    Own c host r ∨ latestOwn c host (s.results ++ results) = some r.content

/-! ### The texts that `onFetched` leaves -/

theorem takes_iff {result : FetchResult} :
    takes c host result = true ↔
      (UrlParsed.ofUrl c result.gfq.url).ok = true ∧
        (UrlParsed.ofUrl c result.gfq.url).host = host ∧
        result.isRobots = true ∧ result.isOk = true := by
  simp [takes, and_assoc]

/-- A result sets the text of the host it is taken for and no other. -/
theorem texts_onFetchedItem (c : Contribs) (db : HostDb) (result : FetchResult) (host : Host) :
    (onFetchedItem c db result).hostRobots[host]?
        = (if takes c host result then some ⟨result.content⟩ else db.hostRobots[host]?) ∧
      (onFetchedItem c db result).db[host]?
        = if takes c host result then some result.content else db.db[host]? := by
  unfold onFetchedItem
  dsimp only
  by_cases hok : (UrlParsed.ofUrl c result.gfq.url).ok = true
  · by_cases htext : (result.isRobots && result.isOk) = true
    · have htext' : result.isRobots = true ∧ result.isOk = true := by simpa using htext
      rw [if_pos hok, if_pos htext, OrdMap.getElem?_insert, OrdMap.getElem?_insert]
      simp [takes_iff, hok, htext']
    · have hno : ¬ takes c host result = true := fun h => htext (by simp [(takes_iff.mp h).2.2])
      rw [if_pos hok, if_neg htext, if_neg hno, if_neg hno]
      exact ⟨rfl, rfl⟩
  · have hno : ¬ takes c host result = true := fun h => hok (takes_iff.mp h).1
    rw [if_neg hok, if_neg hno, if_neg hno]
    exact ⟨rfl, rfl⟩

/-- **The last result taken for a host sets its text.** -/
theorem texts_onFetched (c : Contribs) (db : HostDb) (results : List FetchResult) (host : Host) :
    (db.onFetched c results).hostRobots[host]?
        = ((results.filter (takes c host)).getLast?.map fun r => ⟨r.content⟩).or
            db.hostRobots[host]? ∧
      (db.onFetched c results).db[host]?
        = ((results.filter (takes c host)).getLast?.map FetchResult.content).or db.db[host]? := by
  unfold onFetched
  induction results using List.reverseRecOn with
  | nil => exact ⟨rfl, rfl⟩
  | append_singleton results r ih =>
    obtain ⟨hmem, hdb⟩ := texts_onFetchedItem c (results.foldl (onFetchedItem c) db) r host
    rw [List.foldl_append, List.foldl_cons, List.foldl_nil, hmem, hdb, List.filter_append]
    by_cases htakes : takes c host r = true
    · simp [htakes]
    · simp [htakes, ih]

/-! ### A host's own results -/

/-- What comes from a host's robots URL is taken for the host. -/
theorem takes_of_own (hc : c.RobotsUrlsParse) {r : FetchResult} (h : Own c host r) :
    takes c host r = true := by
  obtain ⟨hOk, u, hok, rfl, hrobots⟩ := h
  have hends : r.isRobots = true := by
    unfold FetchResult.isRobots GFQRecord.isRobots
    rw [← hrobots]
    exact UrlParsed.endsWith_robots_ofUrl hok
  have hparse := hc u hok
  rw [hrobots] at hparse
  exact takes_iff.mpr ⟨hparse.1, hparse.2, hends, hOk⟩

theorem latestOwn_append (c : Contribs) (host : Host) (results results' : List FetchResult) :
    latestOwn c host (results ++ results')
      = (latestOwn c host results').or (latestOwn c host results) := by
  unfold latestOwn
  rw [List.filter_append, List.getLast?_append, Option.map_or]

theorem latestOwn_eq_none {results : List FetchResult} (h : ∀ r ∈ results, ¬ Own c host r) :
    latestOwn c host results = none := by
  unfold latestOwn
  rw [List.filter_eq_nil_iff.mpr fun r hr => by simpa using h r hr]
  rfl

/-- The last result taken, where it is the host's own, is the latest of its own. -/
theorem latestOwn_of_getLast?_takes (hc : c.RobotsUrlsParse) {results : List FetchResult}
    {r : FetchResult} (hlast : (results.filter (takes c host)).getLast? = some r)
    (hown : Own c host r) : latestOwn c host results = some r.content := by
  classical
  have hsub : (results.filter (takes c host)).filter (fun r => decide (Own c host r))
      = results.filter fun r => decide (Own c host r) := by
    rw [List.filter_filter]
    apply List.filter_congr
    intro r _
    by_cases hr : Own c host r
    · simp [hr, takes_of_own hc hr]
    · simp [hr]
  obtain ⟨init, hinit⟩ := List.getLast?_eq_some_iff.mp hlast
  unfold latestOwn
  rw [← hsub, hinit, List.filter_append]
  simp [hown]

/-- No result taken, none of the host's own. -/
theorem latestOwn_of_getLast?_eq_none (hc : c.RobotsUrlsParse) {results : List FetchResult}
    (hlast : (results.filter (takes c host)).getLast? = none) :
    latestOwn c host results = none := by
  apply latestOwn_eq_none
  intro r hr hown
  have hnil := List.filter_eq_nil_iff.mp (List.getLast?_eq_none_iff.mp hlast) r hr
  exact hnil (takes_of_own hc hown)

/-! ### Runs -/

theorem ownTexts_init (c : Contribs) (limits : CrawlLimits) : OwnTexts c (.init limits) :=
  fun _ => ⟨rfl, rfl⟩

/-- **One call** keeps the texts the hosts' own exactly when it is genuine. -/
theorem ownTexts_hear_iff (hc : c.RobotsUrlsParse) {results : List FetchResult}
    (hstep : hear c s results = some t) (hs : OwnTexts c s) :
    OwnTexts c t ↔ Genuine c s results := by
  obtain rfl := Option.some.inj hstep
  unfold OwnTexts Genuine
  apply forall_congr'
  intro host
  obtain ⟨hmem, hdb⟩ := texts_onFetched c s.db results host
  obtain ⟨hmem₀, hdb₀⟩ := hs host
  dsimp only
  rw [hmem, hdb, hmem₀, hdb₀]
  cases hlast : (results.filter (takes c host)).getLast? with
  | none =>
    have hnone := latestOwn_of_getLast?_eq_none hc hlast
    simp [latestOwn_append, hnone]
  | some r =>
    constructor
    · rintro ⟨-, htext⟩ r' heq
      obtain rfl := Option.some.inj heq
      exact Or.inr htext.symm
    · intro hgenuine
      have htext : latestOwn c host (s.results ++ results) = some r.content := by
        rcases hgenuine r rfl with hown | hsame
        · rw [latestOwn_append, latestOwn_of_getLast?_takes hc hlast hown]
          rfl
        · exact hsame
      rw [htext]
      exact ⟨rfl, rfl⟩

/-- Where the texts are the hosts' own before and after a call, its other results leave them. -/
theorem leavesOthers_of_ownTexts {results : List FetchResult} (hs : OwnTexts c s)
    (ht : ∀ t, hear c s results = some t → OwnTexts c t) : LeavesOthers c s results := by
  intro host hothers
  obtain ⟨hmem, hdb⟩ := hs host
  obtain ⟨hmem', hdb'⟩ := ht _ rfl host
  have hsame : latestOwn c host (s.results ++ results) = latestOwn c host s.results := by
    rw [latestOwn_append, latestOwn_eq_none hothers]
    rfl
  rw [hsame] at hmem' hdb'
  exact ⟨hmem'.trans hmem.symm, hdb'.trans hdb.symm⟩

/-- **The texts are the hosts' own exactly in genuine runs.** -/
theorem ownTexts_leavesOthers_iff_meets_genuine (hc : c.RobotsUrlsParse) (limits : CrawlLimits)
    (calls : List (List FetchResult)) :
    (Machine.Along (hear c) (OwnTexts c) (.init limits) calls ∧
        Machine.Meets (hear c) (LeavesOthers c) (.init limits) calls) ↔
      Machine.Meets (hear c) (Genuine c) (.init limits) calls := by
  have hrun : ∃ t, Machine.run (hear c) (.init limits) calls = some t := by
    generalize Heard.init limits = s
    induction calls generalizing s with
    | nil => exact ⟨s, rfl⟩
    | cons results calls ih => exact ih _
  obtain ⟨t, ht⟩ := hrun
  have hiff : Machine.Along (hear c) (OwnTexts c) (.init limits) calls ↔
      Machine.Meets (hear c) (Genuine c) (.init limits) calls :=
    Machine.along_iff_meets (I := fun _ => True) (fun _ _ _ _ _ => trivial)
      (fun _ _ _ h _ hP => ownTexts_hear_iff hc h hP) ht trivial (ownTexts_init c limits)
  rw [← hiff, and_iff_left_iff_imp]
  exact Machine.Along.meets fun s results hs ht => leavesOthers_of_ownTexts hs ht

/-- One call with a page below a directory that has a robots URL's name. -/
def pageNamedRobots : List FetchResult :=
  [⟨⟨Str.ofString "http://a/b/robots.txt", 0⟩, .ok, default, Str.ofString "Disallow: /"⟩]

/-- The page becomes the policy of its host. -/
theorem not_along_ownTexts_pageNamedRobots :
    ¬ Machine.Along (hear .plainHttp) (OwnTexts .plainHttp) (.init ⟨1, 1, 1, 1, 1⟩)
      [pageNamedRobots] := by
  intro h
  have hnone : latestOwn .plainHttp (Str.ofString "a") pageNamedRobots = none := by
    apply latestOwn_eq_none
    intro r hr hown
    obtain rfl := List.mem_singleton.mp hr
    exact absurd (eq_of_isRobotsUrlOf_plainHttp hown.2) (by decide)
  have htext : some (Str.ofString "Disallow: /")
      = latestOwn .plainHttp (Str.ofString "a") pageNamedRobots :=
    ((h.2 _ rfl).head (Str.ofString "a")).2
  rw [hnone] at htext
  cases htext

/-- An instance: the robots URL of a host and then a page of it. -/
theorem ownTexts_leavesOthers_iff_meets_genuine_ownRobots :
    let calls : List (List FetchResult) :=
      [[⟨⟨Str.ofString "http://a/robots.txt", 0⟩, .ok, default, Str.ofString "Disallow: /b"⟩],
        [⟨⟨Str.ofString "http://a/c", 1⟩, .ok, default, default⟩]]
    (Machine.Along (hear .plainHttp) (OwnTexts .plainHttp) (.init ⟨1, 1, 1, 1, 1⟩) calls ∧
        Machine.Meets (hear .plainHttp) (LeavesOthers .plainHttp) (.init ⟨1, 1, 1, 1, 1⟩) calls) ↔
      Machine.Meets (hear .plainHttp) (Genuine .plainHttp) (.init ⟨1, 1, 1, 1, 1⟩) calls :=
  ownTexts_leavesOthers_iff_meets_genuine Contribs.robotsUrlsParse_plainHttp ⟨1, 1, 1, 1, 1⟩ _

end HostDb

end Contentv1
