import Contentv1.Core.Equiv.UrlParsed
import Contentv1.Ldb.Equiv.HostDb

/-!
# What robots.txt lets through

`_isAllowedRobots` takes every URL that ends like a robots URL for one, its path and its query
included, while the texts are kept by host.

* `isAllowedRobots_iff` is the rule as the code has it.
* `allowed_leaveAllowedLoop` and `forall_mem_allowed_tryCrawlLoop_append` list what the loops put
  out; `hostRobots_tryCrawlLoop`: the texts stay as they are meanwhile.
* `respected_of_passed_iff` is the exact extent of the slip: all that a call passes respects
  robots.txt exactly when no URL that reaches the check is disguised as a robots URL.
-/

namespace Contentv1

namespace HostDb

variable {c : Contribs} {db : HostDb} {urlParsed : UrlParsed}

/-- A text of the URL's host is stored and allows the URL. -/
def TextAllows (c : Contribs) (db : HostDb) (urlParsed : UrlParsed) : Prop :=
  ∃ robots, db.hostRobots[urlParsed.host]? = some robots ∧
    robots.isAllowed c urlParsed.normalized = true

/-- The URL is its host's robots URL, or the host's text allows it. -/
def Respected (c : Contribs) (db : HostDb) (urlParsed : UrlParsed) : Prop :=
  urlParsed.normalized = urlParsed.robots ∨ TextAllows c db urlParsed

/-- The URL ends like a robots URL and is not its host's, nor does the host's text allow it. -/
def Disguised (c : Contribs) (db : HostDb) (urlParsed : UrlParsed) : Prop :=
  urlParsed.isRobots = true ∧ ¬ Respected c db urlParsed

/-- **The rule of the code**: a URL that ends like a robots URL, or one that the text allows. -/
theorem isAllowedRobots_iff :
    (db.isAllowedRobots c urlParsed).1 = true ↔
      urlParsed.isRobots = true ∨ TextAllows c db urlParsed := by
  unfold isAllowedRobots TextAllows
  by_cases hrobots : urlParsed.isRobots = true
  · simp [hrobots]
  · cases hhost : db.hostRobots[urlParsed.host]? with
    | none => simp [hrobots]
    | some robots => simp [hrobots]

/-- What the rule lets through respects robots.txt or is disguised. -/
theorem isAllowedRobots_iff_respected_or_disguised {url : Url}
    (hok : (UrlParsed.ofUrl c url).ok = true) :
    (db.isAllowedRobots c (UrlParsed.ofUrl c url)).1 = true ↔
      Respected c db (UrlParsed.ofUrl c url) ∨ Disguised c db (UrlParsed.ofUrl c url) := by
  rw [isAllowedRobots_iff]
  constructor
  · rintro (hends | htext)
    · by_cases hrespected : Respected c db (UrlParsed.ofUrl c url)
      · exact Or.inl hrespected
      · exact Or.inr ⟨hends, hrespected⟩
    · exact Or.inl (Or.inr htext)
  · rintro ((hown | htext) | ⟨hends, -⟩)
    · exact Or.inl (UrlParsed.isRobots_of_normalized_eq_robots hok hown)
    · exact Or.inr htext
    · exact Or.inl hends

theorem Disguised.not_respected (h : Disguised c db urlParsed) : ¬ Respected c db urlParsed := h.2

/-! ### `leaveAllowedByRobots` -/

variable {β : Type}

/-- The URL parses and the rule lets it through. -/
def passesRobots (c : Contribs) (db : HostDb) (urlFreq : UrlFreq) : Bool :=
  (UrlParsed.ofUrl c urlFreq.1).ok && (db.isAllowedRobots c (UrlParsed.ofUrl c urlFreq.1)).1

theorem leaveAllowedLoop_append (out : UrlFreq → UrlParsed → β) (urls : List UrlFreq)
    (u : UrlFreq) :
    leaveAllowedLoop c db out (urls ++ [u])
      = leaveAllowedItem c db out (leaveAllowedLoop c db out urls) u := by
  simp [leaveAllowedLoop]

theorem allowed_leaveAllowedLoop (c : Contribs) (db : HostDb) (out : UrlFreq → UrlParsed → β)
    (urls : List UrlFreq) :
    (leaveAllowedLoop c db out urls).allowed
      = (urls.filter (passesRobots c db)).map fun u => out u (UrlParsed.ofUrl c u.1) := by
  induction urls using List.reverseRecOn with
  | nil => rfl
  | append_singleton urls u ih =>
    rw [leaveAllowedLoop_append, List.filter_append, List.map_append, ← ih]
    unfold leaveAllowedItem
    by_cases hok : (UrlParsed.ofUrl c u.1).ok = true
    · by_cases hpass : (db.isAllowedRobots c (UrlParsed.ofUrl c u.1)).1 = true
      · simp [passesRobots, hok, hpass]
      · simp [passesRobots, hok, hpass]
        split_ifs <;> rfl
    · simp [passesRobots, hok]

/-- The URL parses, does not end like a robots URL, and its host's text is not known. -/
def needsRobots (c : Contribs) (db : HostDb) (urlFreq : UrlFreq) : Bool :=
  (UrlParsed.ofUrl c urlFreq.1).ok && !(UrlParsed.ofUrl c urlFreq.1).isRobots &&
    db.hostRobots[(UrlParsed.ofUrl c urlFreq.1).host]?.isNone

theorem needsRobots_iff {urlFreq : UrlFreq} :
    needsRobots c db urlFreq = true ↔
      (UrlParsed.ofUrl c urlFreq.1).ok = true ∧ (UrlParsed.ofUrl c urlFreq.1).isRobots = false ∧
        db.hostRobots[(UrlParsed.ofUrl c urlFreq.1).host]? = none := by
  simp [needsRobots, and_assoc]

theorem isAllowedRobots_of_unknown (hrobots : urlParsed.isRobots = false)
    (hhost : db.hostRobots[urlParsed.host]? = none) :
    db.isAllowedRobots c urlParsed = (false, urlParsed.robots) := by
  unfold isAllowedRobots
  rw [hhost, hrobots]
  rfl

/-- Nothing is asked for where the host's text is known, nor for a robots URL. -/
theorem isAllowedRobots_of_known
    (h : ¬ (urlParsed.isRobots = false ∧ db.hostRobots[urlParsed.host]? = none)) :
    (db.isAllowedRobots c urlParsed).2 = default := by
  unfold isAllowedRobots
  split_ifs with hrobots
  · rfl
  · cases hhost : db.hostRobots[urlParsed.host]? with
    | none => exact absurd ⟨by simpa using hrobots, hhost⟩ h
    | some robots => rfl

theorem needRobots_leaveAllowedLoop (c : Contribs) (db : HostDb) (out : UrlFreq → UrlParsed → β)
    (urls : List UrlFreq) :
    (leaveAllowedLoop c db out urls).needRobots
      = (urls.filter (needsRobots c db)).map fun u => ((UrlParsed.ofUrl c u.1).robots, u.2) := by
  induction urls using List.reverseRecOn with
  | nil => rfl
  | append_singleton urls u ih =>
    rw [leaveAllowedLoop_append, List.filter_append, List.map_append, ← ih]
    unfold leaveAllowedItem
    by_cases hok : (UrlParsed.ofUrl c u.1).ok = true
    · by_cases hneeds : needsRobots c db u = true
      · obtain ⟨-, hrobots, hhost⟩ := needsRobots_iff.mp hneeds
        have hne : (UrlParsed.ofUrl c u.1).robots.bytes.isEmpty = false :=
          UrlParsed.isEmpty_of_endsWith_robots (UrlParsed.endsWith_robots_ofUrl hok)
        simp [hok, hneeds, hne, isAllowedRobots_of_unknown hrobots hhost]
      · have hknown : ¬ ((UrlParsed.ofUrl c u.1).isRobots = false ∧
            db.hostRobots[(UrlParsed.ofUrl c u.1).host]? = none) :=
          fun hunknown => hneeds (needsRobots_iff.mpr ⟨hok, hunknown⟩)
        have hdefault : (default : Url).bytes.isEmpty = true := rfl
        simp only [hok, isAllowedRobots_of_known hknown, hdefault, if_true,
          List.filter_cons_of_neg hneeds, List.filter_nil, List.map_nil, List.append_nil]
        split_ifs <;> rfl
    · have hneeds : ¬ needsRobots c db u = true :=
        fun hneeds => hok (needsRobots_iff.mp hneeds).1
      simp [hok, hneeds]

/-! ### `tryCrawl` -/

variable {α : Type} {url : α → Url} {out : α → UrlParsed → β}

theorem hostRobots_isAllowedFreq (db : HostDb) (host : Host) (now : CrawlReads) :
    (db.isAllowedFreq host now).2.hostRobots = db.hostRobots := by
  unfold isAllowedFreq
  cases db.hostFreq[host]? with
  | none => rfl
  | some hf =>
    dsimp only
    split_ifs <;> rfl

theorem hostRobots_dbAfter (item : α × CrawlReads) :
    (dbAfter c url db item).hostRobots = db.hostRobots := by
  unfold dbAfter
  split_ifs
  · have hfreq := hostRobots_isAllowedFreq db (UrlParsed.ofUrl c (url item.1)).host item.2
    rcases tryCrawlParsed_cases c db (UrlParsed.ofUrl c (url item.1)) item.2 with
      ⟨-, heq | heq⟩ | ⟨-, -, -, heq⟩
    · rw [heq]
    · rw [heq, hfreq]
    · rw [heq, ← hfreq]
      rfl
  · rfl

/-- Trying URLs leaves the robots texts as they are. -/
theorem hostRobots_tryCrawlLoop (c : Contribs) (url : α → Url) (out : α → UrlParsed → β)
    (db : HostDb) (items : List (α × CrawlReads)) :
    (tryCrawlLoop c url out db items).db.hostRobots = db.hostRobots := by
  induction items using List.reverseRecOn with
  | nil => rfl
  | append_singleton items item ih =>
    rw [tryCrawlLoop_append, db_tryCrawlItem, hostRobots_dbAfter, ih]

/-- The rule reads the texts only. -/
theorem isAllowedRobots_congr {db' : HostDb} (h : db'.hostRobots = db.hostRobots) :
    db'.isAllowedRobots c urlParsed = db.isAllowedRobots c urlParsed := by
  unfold isAllowedRobots
  rw [h]

/-- The database in which `item` is tried after `pre`: what the items before it leave. -/
def dbAt (c : Contribs) (url : α → Url) (db : HostDb) (pre : List (α × CrawlReads)) : HostDb :=
  pre.foldl (dbAfter c url) db

theorem db_tryCrawlLoop (items : List (α × CrawlReads)) :
    (tryCrawlLoop c url out db items).db = dbAt c url db items := by
  induction items using List.reverseRecOn with
  | nil => rfl
  | append_singleton items item ih =>
    have hfold : dbAt c url db (items ++ [item]) = dbAfter c url (dbAt c url db items) item := by
      simp [dbAt]
    rw [tryCrawlLoop_append, db_tryCrawlItem, ih, hfold]

/-- An item is allowed if it parses, the rule lets it through and so do the frequencies. -/
theorem decisionOn_eq_allow_iff {item : α × CrawlReads} :
    decisionOn c url db item = .allow ↔
      (UrlParsed.ofUrl c (url item.1)).ok = true ∧
        (db.isAllowedRobots c (UrlParsed.ofUrl c (url item.1))).1 = true ∧
        (db.isAllowedFreq (UrlParsed.ofUrl c (url item.1)).host item.2).1 = true := by
  unfold decisionOn
  split_ifs with hok
  · simp [hok, tryCrawlParsed_eq_allow_iff]
  · simp [hok]

/-- What is put out for one more item. -/
theorem forall_mem_allowed_tryCrawlLoop_append {Q : β → Prop} {items : List (α × CrawlReads)}
    {item : α × CrawlReads} :
    (∀ b ∈ (tryCrawlLoop c url out db (items ++ [item])).allowed, Q b) ↔
      (∀ b ∈ (tryCrawlLoop c url out db items).allowed, Q b) ∧
        (decisionOn c url (dbAt c url db items) item = .allow →
          Q (out item.1 (UrlParsed.ofUrl c (url item.1)))) := by
  rw [tryCrawlLoop_append, allowed_tryCrawlItem, db_tryCrawlLoop, List.forall_mem_append]
  apply and_congr_right
  intro _
  split_ifs with hallow
  · simp [hallow]
  · simp [hallow]

/-- A disguised URL among the items is refused for its frequencies. -/
def DisguisedRefused (c : Contribs) (url : α → Url) (db : HostDb)
    (items : List (α × CrawlReads)) : Prop :=
  ∀ pre item post, items = pre ++ item :: post →
    (UrlParsed.ofUrl c (url item.1)).ok = true →
    Disguised c db (UrlParsed.ofUrl c (url item.1)) →
      ((dbAt c url db pre).isAllowedFreq (UrlParsed.ofUrl c (url item.1)).host item.2).1 = false

theorem respected_of_allowed_tryCrawlLoop_iff (items : List (α × CrawlReads)) :
    (∀ e ∈ (tryCrawlLoop c url Prod.mk db items).allowed, Respected c db e.2) ↔
      DisguisedRefused c url db items := by
  unfold DisguisedRefused
  induction items using List.reverseRecOn with
  | nil => exact iff_of_true nofun fun pre item post hnil => by simp at hnil
  | append_singleton items item ih =>
    rw [forall_mem_allowed_tryCrawlLoop_append, forall_split_append_singleton, ih]
    apply and_congr_right
    intro _
    have hrobots : (dbAt c url db items).hostRobots = db.hostRobots := by
      have hkept := hostRobots_tryCrawlLoop c url (fun _ _ => ()) db items
      rwa [db_tryCrawlLoop] at hkept
    rw [decisionOn_eq_allow_iff, isAllowedRobots_congr hrobots]
    constructor
    · intro hallow hok hdisguised
      by_contra hfreq
      have hrule := (isAllowedRobots_iff_respected_or_disguised hok).mpr (Or.inr hdisguised)
      exact hdisguised.not_respected (hallow ⟨hok, hrule, by simpa using hfreq⟩)
    · rintro hrefused ⟨hok, hrule, hfreq⟩
      rcases (isAllowedRobots_iff_respected_or_disguised hok).mp hrule with h | hdisguised
      · exact h
      · have hno := hrefused hok hdisguised
        rw [hfreq] at hno
        cases hno

/-- What is put out comes from the items that pass. -/
theorem allowed_tryCrawlLoop_eq_map (items : List (α × CrawlReads)) :
    (tryCrawlLoop c url out db items).allowed
      = (tryCrawlLoop c url Prod.mk db items).allowed.map fun e => out e.1 e.2 := by
  induction items using List.reverseRecOn with
  | nil => rfl
  | append_singleton items item ih =>
    simp only [tryCrawlLoop_append, allowed_tryCrawlItem, db_tryCrawlLoop, List.map_append, ih]
    split_ifs <;> rfl

/-! ### The three ways to ask -/

/-- The calls that pass URLs as allowed. -/
inductive Request
  | leaveAllowedByRobots (urls : List UrlFreq)
  | tryCrawlUrls (tryUrls : List (Url × CrawlReads))
  | tryCrawl (tryUrls : List (GFQRecord × CrawlReads))

/-- The URLs a call passes as allowed, parsed. -/
def Request.passed (c : Contribs) (db : HostDb) : Request → List UrlParsed
  | .leaveAllowedByRobots urls =>
    (leaveAllowedLoop c db (fun _ urlParsed => urlParsed) urls).allowed
  | .tryCrawlUrls tryUrls => (tryCrawlLoop c id Prod.mk db tryUrls).allowed.map Prod.snd
  | .tryCrawl tryUrls => (tryCrawlLoop c GFQRecord.url Prod.mk db tryUrls).allowed.map Prod.snd

/-- No URL that reaches the check is disguised; `tryCrawl` may still refuse one for the
frequencies at its turn. -/
def Request.Undisguised (c : Contribs) (db : HostDb) : Request → Prop
  | .leaveAllowedByRobots urls => ∀ u ∈ urls, (UrlParsed.ofUrl c u.1).ok = true →
      ¬ Disguised c db (UrlParsed.ofUrl c u.1)
  | .tryCrawlUrls tryUrls => DisguisedRefused c id db tryUrls
  | .tryCrawl tryUrls => DisguisedRefused c GFQRecord.url db tryUrls

/-- `leaveAllowedByRobots` puts out the normalized URLs of what it passes. -/
theorem allowed_leaveAllowedByRobots (urls : List UrlFreq) :
    (db.leaveAllowedByRobots c urls).allowed.map Prod.fst
      = ((Request.leaveAllowedByRobots urls).passed c db).map UrlParsed.normalized := by
  unfold leaveAllowedByRobots Request.passed
  simp only [allowed_leaveAllowedLoop, List.map_map]
  rfl

/-- `tryCrawl` on URLs puts out the normalized URLs of what it passes. -/
theorem allowed_tryCrawlUrls (tryUrls : List (Url × CrawlReads)) :
    (db.tryCrawlUrls c tryUrls).allowed
      = ((Request.tryCrawlUrls tryUrls).passed c db).map UrlParsed.normalized := by
  unfold tryCrawlUrls Request.passed
  rw [allowed_tryCrawlLoop_eq_map, List.map_map]
  rfl

/-- `tryCrawl` on records puts out the records of what it passes. -/
theorem allowed_tryCrawl (tryUrls : List (GFQRecord × CrawlReads)) :
    (db.tryCrawl c tryUrls).allowed.map (fun gfq => UrlParsed.ofUrl c gfq.url)
      = (Request.tryCrawl tryUrls).passed c db := by
  unfold tryCrawl Request.passed
  rw [allowed_tryCrawlLoop_eq_map, List.map_map]
  apply List.map_congr_left
  intro e he
  revert he e
  show ∀ e ∈ (tryCrawlLoop c GFQRecord.url Prod.mk db tryUrls).allowed, _ = e.2
  induction tryUrls using List.reverseRecOn with
  | nil => simp [tryCrawlLoop]
  | append_singleton tryUrls item ih =>
    exact forall_mem_allowed_tryCrawlLoop_append.mpr ⟨ih, fun _ => rfl⟩

/-- **Robots.txt is respected exactly without disguise.**  In every state, all that a call passes
as allowed is its host's robots URL or allowed by its host's text exactly when no URL that reaches
the check only ends like a robots URL. -/
theorem respected_of_passed_iff (c : Contribs) (db : HostDb) (request : Request) :
    (∀ urlParsed ∈ request.passed c db, Respected c db urlParsed) ↔ request.Undisguised c db := by
  cases request with
  | leaveAllowedByRobots urls =>
    unfold Request.passed Request.Undisguised
    simp only [allowed_leaveAllowedLoop, List.forall_mem_map, List.mem_filter, and_imp]
    apply forall₂_congr
    intro u _
    unfold passesRobots
    by_cases hok : (UrlParsed.ofUrl c u.1).ok = true
    · rw [hok, Bool.true_and, isAllowedRobots_iff_respected_or_disguised hok]
      constructor
      · exact fun h _ hdisguised => hdisguised.not_respected (h (Or.inr hdisguised))
      · exact fun h hrule => hrule.resolve_right (h rfl)
    · simp [hok]
  | tryCrawlUrls tryUrls =>
    unfold Request.passed Request.Undisguised
    rw [List.forall_mem_map, respected_of_allowed_tryCrawlLoop_iff]
  | tryCrawl tryUrls =>
    unfold Request.passed Request.Undisguised
    rw [List.forall_mem_map, respected_of_allowed_tryCrawlLoop_iff]

/-- A page below a directory, with a robots URL's name, on a host whose text is not known. -/
theorem not_respected_pageNamedRobots :
    ¬ ∀ urlParsed ∈ (Request.leaveAllowedByRobots
        [(Str.ofString "http://a/b/robots.txt", 1)]).passed .plainHttp (openDb ⟨1, 1, 1, 1, 1⟩ ∅),
      Respected .plainHttp (openDb ⟨1, 1, 1, 1, 1⟩ ∅) urlParsed := by
  intro h
  rcases h (UrlParsed.ofUrl .plainHttp (Str.ofString "http://a/b/robots.txt"))
    (List.mem_singleton.mpr rfl) with hown | ⟨robots, hstored, -⟩
  · exact absurd hown (by decide)
  · cases hstored

end HostDb

end Contentv1
