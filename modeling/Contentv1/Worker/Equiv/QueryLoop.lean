import Contentv1.Worker.QueryLoop
import Contentv1.Core.Equiv.QueryGroupMatcher
import Contentv1.Ldb.Equiv.QueryDb

/-!
# The hits after a cycle of the query loop

`getElem?_query`: the hits of a group are the pages that match it, in the order of the scan, and a
group without a matching page has no entry.  A cycle saves only what has an entry, and nothing at
all where a stored group cannot be read (`loopImpl_dumps`).  So `hitsExact_iff`: the stored hits are
those of the present queries and pages exactly when no group that matches nothing has hits stored
from before and the hits that are found can be read back, or when the groups cannot all be read and
the hits were right before.
-/

namespace Contentv1.QueryLoop

variable {pb : QueryGroupPb} {pbHits : QueryGroupHitsPb} {aho : AhoCorasick} {pageDb : PageDb}
  {Scans : List (Url × Str) → Prop} {content : QueryDbContent} {db db' : QueryDb pb pbHits}
  {thrown : Option Str} {qgs : List QueryGroup} {scan : List (Url × Str)} {gid : GroupId}
  {qg : QueryGroup}

/-! ### `_query` -/

/-- The URLs of the pages on which a group is found, in the order of the scan. -/
def hitUrls (aho : AhoCorasick) (qgs : List QueryGroup) (scan : List (Url × Str)) (gid : GroupId) :
    List Url :=
  (scan.filter fun page =>
    gid ∈ QueryGroupMatcher.gidsSet aho (.buildState qgs) page.2).map Prod.fst

/-- The two loops of `_query` as one: each id that is found beside the URL of its page. -/
def hitEvents (aho : AhoCorasick) (matcher : QueryGroupMatcher) (scan : List (Url × Str)) :
    List (GroupId × Url) :=
  scan.flatMap fun page => (matcher.matchContent aho page.2 []).2.map fun gid => (gid, page.1)

/-- A page is a hit of a group at most once. -/
theorem valuesAt_hitEvents (aho : AhoCorasick) (qgs : List QueryGroup) (scan : List (Url × Str))
    (gid : GroupId) :
    OrdMap.valuesAt (hitEvents aho (.buildState qgs) scan) gid = hitUrls aho qgs scan gid := by
  induction scan with
  | nil => rfl
  | cons page scan ih =>
    unfold hitEvents at ih ⊢
    rw [List.flatMap_cons, OrdMap.valuesAt_append, ih]
    show OrdMap.valuesAt ((QueryGroupMatcher.gidsSet aho (.buildState qgs) page.2).toList.map
      fun gid => (gid, page.1)) gid ++ _ = _
    rw [OrdMap.valuesAt_map_mk (OrdSet.nodup_toList _)]
    unfold hitUrls
    rw [List.filter_cons]
    by_cases hmem : gid ∈ QueryGroupMatcher.gidsSet aho (.buildState qgs) page.2
    · rw [if_pos (Std.ExtTreeSet.mem_toList.mpr hmem), if_pos (decide_eq_true hmem), List.map_cons]
      rfl
    · rw [if_neg fun h => hmem (Std.ExtTreeSet.mem_toList.mp h),
        if_neg fun h => hmem (of_decide_eq_true h), List.nil_append]

theorem query_eq (aho : AhoCorasick) (qgs : List QueryGroup) (scan : List (Url × Str)) :
    query aho qgs scan
      = (hitEvents aho (.buildState qgs) scan).foldl (fun m p => addHit m p.1 p.2) ∅ := by
  unfold query hitEvents
  rw [List.foldl_flatMap]
  simp only [List.foldl_map]
  rfl

/-- **What `_query` puts out** for a group. -/
theorem getElem?_query (aho : AhoCorasick) (qgs : List QueryGroup) (scan : List (Url × Str))
    (gid : GroupId) :
    (query aho qgs scan)[gid]?
      = if hitUrls aho qgs scan gid = [] then none
        else some ⟨gid, hitUrls aho qgs scan gid⟩ := by
  have hfold : ∀ (urls us : List Url),
      urls.foldl (fun o url => some (⟨gid, (o.getD default).hits ++ [url]⟩ : QueryGroupHits))
        (some ⟨gid, us⟩) = some ⟨gid, us ++ urls⟩ := by
    intro urls
    induction urls with
    | nil => exact fun us => by rw [List.append_nil]; rfl
    | cons url urls ih =>
      intro us
      rw [List.foldl_cons, Option.getD_some, ih, List.append_assoc]
      rfl
  rw [query_eq]
  unfold addHit
  rw [OrdMap.getElem?_foldl_alter
    (fun gid url o => some (⟨gid, (o.getD default).hits ++ [url]⟩ : QueryGroupHits)),
    valuesAt_hitEvents, Std.ExtTreeMap.getElem?_empty]
  cases hurls : hitUrls aho qgs scan gid with
  | nil => rfl
  | cons url urls =>
    rw [if_neg (List.cons_ne_nil url urls), List.foldl_cons]
    exact hfold urls [url]

/-- What is put out for a group carries its id. -/
theorem gid_of_getElem?_query {hits : QueryGroupHits}
    (h : (query aho qgs scan)[gid]? = some hits) : hits.gid = gid := by
  rw [getElem?_query] at h
  split_ifs at h
  rw [← Option.some.inj h]

/-- Hits are put out for groups that were read, whatever the trie reports. -/
theorem mem_gids_of_getElem?_query {hits : QueryGroupHits}
    (h : (query aho qgs scan)[gid]? = some hits) : gid ∈ qgs.map QueryGroup.gid := by
  rw [getElem?_query] at h
  split_ifs at h with hurls
  obtain ⟨url, hurl⟩ := List.exists_mem_of_ne_nil _ hurls
  obtain ⟨page, hpage, -⟩ := List.mem_map.mp hurl
  have hgid := of_decide_eq_true (List.mem_filter.mp hpage).2
  obtain ⟨query, -, hgroups⟩ := (QueryGroupMatcher.mem_gidsSet_iff _).mp hgid
  rw [QueryGroupMatcher.mem_keywordGroups_buildState, QueryGroupMatcher.mem_groupQueries] at hgroups
  obtain ⟨qg, hqg, hid, -⟩ := hgroups
  exact List.mem_map.mpr ⟨qg, hqg, hid⟩

theorem mem_hitUrls (haho : aho.Exact) {url : Url} :
    url ∈ hitUrls aho qgs scan gid ↔
      ∃ content, (url, content) ∈ scan ∧ ∃ qg ∈ qgs, qg.gid = gid ∧ qg.Finds content := by
  unfold hitUrls
  simp only [List.mem_map, List.mem_filter, decide_eq_true_iff,
    QueryGroupMatcher.mem_gidsSet haho]
  constructor
  · rintro ⟨page, ⟨hpage, hfinds⟩, rfl⟩
    exact ⟨page.2, hpage, hfinds⟩
  · rintro ⟨content, hpage, hfinds⟩
    exact ⟨(url, content), ⟨hpage, hfinds⟩, rfl⟩

/-! ### A cycle -/

/-- The URLs of the pages that a group is found on. -/
def foundUrls (qg : QueryGroup) (scan : List (Url × Str)) : List Url :=
  (scan.filter fun page => qg.Finds page.2).map Prod.fst

theorem mem_foundUrls {url : Url} :
    url ∈ foundUrls qg scan ↔ ∃ page, (url, page) ∈ scan ∧ qg.Finds page := by
  simp [foundUrls]

/-- The hits that a cycle saves are found again; nothing else changes. -/
theorem getElem?_saveAll {m : OrdMap GroupId QueryGroupHits} {qgsHits : List QueryGroupHits}
    (hkeyed : ∀ (gid : GroupId) (hits : QueryGroupHits), m[gid]? = some hits → hits.gid = gid)
    (hperm : qgsHits.Perm (m.toList.map Prod.snd)) (db : QueryDb pb pbHits) (gid : GroupId) :
    (saveAll db qgsHits).qgHitsDb[gid]?
      = (m[gid]?).elim db.qgHitsDb[gid]? fun hits => some (pbHits.serialize hits) := by
  have hfold : ∀ (l : List QueryGroupHits) (db : QueryDb pb pbHits),
      (saveAll db l).qgHitsDb
        = (l.map fun hits => (hits.gid, hits)).foldl
            (fun m p => m.insert p.1 (pbHits.serialize p.2)) db.qgHitsDb := by
    intro l
    induction l with
    | nil => exact fun db => rfl
    | cons hits l ih => exact fun db => ih (db.saveQGHits none hits).2
  -- each value beside its id is an entry again
  have hentries := hperm.map fun hits => (hits.gid, hits)
  rw [OrdMap.map_key_map_snd_toList hkeyed] at hentries
  have hlocal : OrdMap.LocalAt
      (fun (m : OrdMap GroupId pbHits.Dump) (p : GroupId × QueryGroupHits) =>
        m.insert p.1 (pbHits.serialize p.2)) fun _ hits _ => some (pbHits.serialize hits) :=
    fun m p k => OrdMap.getElem?_insert m p.1 k (pbHits.serialize p.2)
  rw [hfold, OrdMap.getElem?_foldl_perm hlocal hentries]

/-- The groups that are read are the stored ones. -/
theorem mem_of_perm_qgDb (h : qgs.Perm (content.qgDb.toList.map Prod.snd)) :
    qg ∈ qgs ∧ qg.gid = gid ↔ content.qgDb[gid]? = some qg := by
  rw [h.mem_iff, OrdMap.mem_map_snd_toList_iff content.keyed]
  constructor
  · rintro ⟨hget, rfl⟩
    exact hget
  · intro hget
    obtain rfl := content.keyed gid qg hget
    exact ⟨hget, rfl⟩

/-- A stored group is found where its queries are. -/
theorem hitUrls_eq_foundUrls (haho : aho.Exact)
    (hqgs : qgs.Perm (content.qgDb.toList.map Prod.snd)) (hget : content.qgDb[gid]? = some qg) :
    hitUrls aho qgs scan gid = foundUrls qg scan := by
  unfold hitUrls foundUrls
  congr 1
  apply List.filter_congr
  intro page _
  rw [decide_eq_decide, QueryGroupMatcher.mem_gidsSet haho]
  constructor
  · rintro ⟨qg', hqg', hid, hfinds⟩
    have hget' := (mem_of_perm_qgDb hqgs).mp ⟨hqg', hid⟩
    rw [hget] at hget'
    rwa [Option.some.inj hget']
  · intro hfinds
    obtain ⟨hmem, hid⟩ := (mem_of_perm_qgDb hqgs).mpr hget
    exact ⟨qg, hmem, hid, hfinds⟩

/-- Nothing is found for an id without a group. -/
theorem hitUrls_eq_nil (haho : aho.Exact)
    (hqgs : qgs.Perm (content.qgDb.toList.map Prod.snd)) (hget : content.qgDb[gid]? = none) :
    hitUrls aho qgs scan gid = [] := by
  apply List.eq_nil_iff_forall_not_mem.mpr
  intro url hurl
  obtain ⟨page, -, qg, hqg, hid, -⟩ := (mem_hitUrls haho).mp hurl
  rw [(mem_of_perm_qgDb hqgs).mp ⟨hqg, hid⟩] at hget
  cases hget

/-- What a cycle stores for a group. -/
def hitsAfter (content : QueryDbContent) (scan : List (Url × Str))
    (gid : GroupId) : Option QueryGroupHits :=
  match content.qgDb[gid]? with
  | none => content.qgHitsDb[gid]?
  | some qg =>
    if foundUrls qg scan = [] then content.qgHitsDb[gid]? else some ⟨gid, foundUrls qg scan⟩

/-- **One cycle.**  Where every stored group can be read, a group has the pages it is found on for
hits, or its earlier ones if there is no such page; elsewhere the cycle throws and saves nothing. -/
theorem loopImpl_dumps (haho : aho.Exact)
    (h : LoopImpl aho Scans (content.dumps pb pbHits) thrown db') :
    (content.Readable ∧ thrown = none ∧ ∃ scan, Scans scan ∧
        ∀ gid, db'.qgHitsDb[gid]? = (hitsAfter content scan gid).map pbHits.serialize) ∨
      (¬ content.Readable ∧ thrown.isSome ∧ db' = content.dumps pb pbHits) := by
  unfold LoopImpl at h
  rcases QueryDb.getAllQG_dumps pb pbHits content with ⟨hread, hall⟩ | ⟨hread, hall⟩
  · rw [hall] at h
    obtain ⟨hthrown, qgs, scan, qgsHits, hqgs, hscan, hhits, rfl⟩ := h
    refine Or.inl ⟨hread, hthrown, scan, hscan, fun gid => ?_⟩
    rw [getElem?_saveAll (fun _ _ => gid_of_getElem?_query) hhits, getElem?_query]
    unfold hitsAfter
    cases hget : content.qgDb[gid]? with
    | none =>
      rw [hitUrls_eq_nil haho hqgs hget, if_pos rfl]
      exact DumpDb.getElem?_dumpsOf content.qgHitsDb gid
    | some qg =>
      rw [hitUrls_eq_foundUrls haho hqgs hget]
      dsimp only
      split_ifs
      · exact DumpDb.getElem?_dumpsOf content.qgHitsDb gid
      · rfl
  · rw [hall] at h
    exact Or.inr ⟨hread, h.1 ▸ rfl, h.2⟩

/-! ### The hits after a cycle -/

/-- The stored hits of every group can be read and are the pages that its queries find. -/
def HitsExact (pageDb : PageDb) (content : QueryDbContent) (db : QueryDb pb pbHits) : Prop :=
  ∀ (gid : GroupId) (qg : QueryGroup), content.qgDb[gid]? = some qg →
    ∃ hits, db.loadQGHits gid = .ok hits ∧ (hits.getD default).hits.Nodup ∧
      ∀ url, url ∈ (hits.getD default).hits ↔
        ∃ page, pageDb.db[url]? = some page ∧ qg.Finds page

/-- A group that finds nothing has no hits stored, or an empty list of them. -/
def NoLeftovers (pageDb : PageDb) (content : QueryDbContent) : Prop :=
  ∀ (gid : GroupId) (qg : QueryGroup), content.qgDb[gid]? = some qg →
    (∀ (url : Url) (page : Str), pageDb.db[url]? = some page → ¬ qg.Finds page) →
      ∀ hits ∈ content.qgHitsDb[gid]?, hits.Valid ∧ hits.hits = []

/-- The URLs of the pages that a group finds are UTF-8. -/
def FoundValid (pageDb : PageDb) (content : QueryDbContent) : Prop :=
  ∀ (gid : GroupId) (qg : QueryGroup), content.qgDb[gid]? = some qg →
    ∀ (url : Url) (page : Str), pageDb.db[url]? = some page → qg.Finds page → url.IsValidUTF8

instance (pageDb : PageDb) (content : QueryDbContent) : Decidable (NoLeftovers pageDb content) :=
  inferInstanceAs (Decidable (∀ (gid : GroupId) (qg : QueryGroup),
    content.qgDb[gid]? = some qg → (∀ (url : Url) (page : Str), pageDb.db[url]? = some page → _) →
      ∀ hits ∈ content.qgHitsDb[gid]?, _))

instance (pageDb : PageDb) (content : QueryDbContent) : Decidable (FoundValid pageDb content) :=
  inferInstanceAs (Decidable (∀ (gid : GroupId) (qg : QueryGroup),
    content.qgDb[gid]? = some qg →
      ∀ (url : Url) (page : Str), pageDb.db[url]? = some page → _))

/-- Hits that were found can be read back if their URLs are UTF-8. -/
theorem valid_iff (hqg : qg.Valid) {urls : List Url} :
    (⟨qg.gid, urls⟩ : QueryGroupHits).Valid ↔ ∀ url ∈ urls, url.IsValidUTF8 := by
  have hgid : qg.gid.IsValidUTF8 := hqg qg.gid List.mem_cons_self
  unfold QueryGroupHits.Valid QueryGroupHits.strings
  rw [List.forall_mem_cons, and_iff_right hgid]

/-- **A cycle that reads the groups** leaves exact hits exactly where no group that finds nothing
has leftovers and what is found can be read back. -/
theorem hitsExact_iff_of_readable (hread : content.Readable) (hscan : ScansPageDb pageDb scan)
    (hafter : ∀ gid, db'.qgHitsDb[gid]? = (hitsAfter content scan gid).map pbHits.serialize) :
    HitsExact pageDb content db' ↔ NoLeftovers pageDb content ∧ FoundValid pageDb content := by
  unfold NoLeftovers FoundValid
  simp only [← forall_and]
  refine forall_congr' fun gid => forall_congr' fun qg => forall_congr' fun hget => ?_
  have hmem : ∀ url, url ∈ foundUrls qg scan ↔
      ∃ page, pageDb.db[url]? = some page ∧ qg.Finds page := by
    intro url
    rw [mem_foundUrls]
    exact exists_congr fun page => and_congr_left fun _ => OrdMap.mem_perm_iff hscan
  have hnodup : (foundUrls qg scan).Nodup :=
    (OrdMap.nodup_map_fst_of_perm hscan).sublist (List.filter_sublist.map Prod.fst)
  rw [QueryDb.exists_loadQGHits_iff (hafter gid) (P := fun hits => hits.hits.Nodup ∧
    ∀ url, url ∈ hits.hits ↔ ∃ page, pageDb.db[url]? = some page ∧ qg.Finds page)]
  unfold hitsAfter
  rw [hget]
  dsimp only
  by_cases hurls : foundUrls qg scan = []
  · -- nothing is saved for this group
    have hnone : ∀ (url : Url) (page : Str), pageDb.db[url]? = some page → ¬ qg.Finds page := by
      intro url page hpage hfinds
      have hurl := (hmem url).mpr ⟨page, hpage, hfinds⟩
      rw [hurls] at hurl
      exact List.not_mem_nil hurl
    rw [if_pos hurls]
    cases content.qgHitsDb[gid]? with
    | none =>
      refine iff_of_true ⟨fun _ h => (nomatch h), List.nodup_nil, fun url => ?_⟩
        ⟨fun _ _ h => (nomatch h),
          fun url page hpage hfinds => absurd hfinds (hnone url page hpage)⟩
      exact iff_of_false List.not_mem_nil fun ⟨page, hpage, hfinds⟩ => hnone url page hpage hfinds
    | some hits =>
      simp only [Option.mem_def, Option.some.injEq, forall_eq', Option.getD_some]
      constructor
      · rintro ⟨hvalid, -, hexact⟩
        refine ⟨fun _ => ⟨hvalid, List.eq_nil_iff_forall_not_mem.mpr fun url hurl => ?_⟩,
          fun url page hpage hfinds => absurd hfinds (hnone url page hpage)⟩
        obtain ⟨page, hpage, hfinds⟩ := (hexact url).mp hurl
        exact hnone url page hpage hfinds
      · rintro ⟨hold, -⟩
        obtain ⟨hvalid, hnil⟩ := hold hnone
        rw [hnil]
        refine ⟨hvalid, List.nodup_nil, fun url => ?_⟩
        exact iff_of_false List.not_mem_nil
          fun ⟨page, hpage, hfinds⟩ => hnone url page hpage hfinds
  · obtain rfl := content.keyed gid qg hget
    rw [if_neg hurls]
    simp only [Option.mem_def, Option.some.injEq, forall_eq', Option.getD_some]
    rw [valid_iff (hread qg.gid qg hget), and_iff_left ⟨hnodup, hmem⟩]
    have hsome : ¬ ∀ (url : Url) (page : Str), pageDb.db[url]? = some page → ¬ qg.Finds page := by
      intro hnone
      obtain ⟨url, hurl⟩ := List.exists_mem_of_ne_nil _ hurls
      obtain ⟨page, hpage, hfinds⟩ := (hmem url).mp hurl
      exact hnone url page hpage hfinds
    rw [and_iff_right fun hnone => absurd hnone hsome]
    constructor
    · exact fun hvalid url page hpage hfinds => hvalid url ((hmem url).mpr ⟨page, hpage, hfinds⟩)
    · intro hvalid url hurl
      obtain ⟨page, hpage, hfinds⟩ := (hmem url).mp hurl
      exact hvalid url page hpage hfinds

/-- **When the stored hits are exact** after a cycle.  Where every stored group can be read: when
the groups that find nothing had no hits stored from before, and the URLs that are found are UTF-8.
Where one cannot be read the cycle throws: when the hits were exact before. -/
theorem hitsExact_iff (haho : aho.Exact) (content : QueryDbContent)
    (h : LoopImpl aho (ScansPageDb pageDb) (content.dumps pb pbHits) thrown db') :
    HitsExact pageDb content db' ↔
      (content.Readable → NoLeftovers pageDb content ∧ FoundValid pageDb content) ∧
      (¬ content.Readable → HitsExact pageDb content (content.dumps pb pbHits)) := by
  rcases loopImpl_dumps haho h with ⟨hread, -, scan, hscan, hafter⟩ | ⟨hread, -, rfl⟩
  · rw [hitsExact_iff_of_readable hread hscan hafter]
    simp [hread]
  · simp [hread]

theorem scansPageDb_self : ScansPageDb pageDb pageDb.scanFull := List.Perm.refl _

theorem loopImpl_self (aho : AhoCorasick) (hscan : Scans scan) (db : QueryDb pb pbHits) :
    LoopImpl aho Scans db (loopImpl aho scan db).1 (loopImpl aho scan db).2 := by
  unfold LoopImpl loopImpl
  cases db.getAllQG with
  | error what => exact ⟨rfl, rfl⟩
  | ok groups =>
    exact ⟨rfl, groups, scan, _, List.Perm.refl _, hscan, List.Perm.refl _, rfl⟩

/-- Two pages, of which one has news. -/
def twoPages : PageDb :=
  ((default : PageDb).save (Str.ofString "http://a/") (Str.ofString "lean news")).save
    (Str.ofString "http://b/") (Str.ofString "lean")

def groupOf (gid query : String) : QueryGroup := ⟨Str.ofString gid, [Str.ofString query]⟩

def hitsOf (gid : String) (urls : List String) : QueryGroupHits :=
  ⟨Str.ofString gid, urls.map Str.ofString⟩

/-- A group with hits of an earlier cycle that it finds again in part, and one without hits. -/
def foundAgain : QueryDbContent :=
  ((QueryDbContent.empty.saveQG (groupOf "g" "news")).saveQG (groupOf "h" "weather")).saveQGHits
    (hitsOf "g" ["http://a/", "http://b/"])

/-- The databases after a cycle over the two pages. -/
def afterCycle (content : QueryDbContent) : QueryDb (.plain _) (.plain _) :=
  (loopImpl .search twoPages.scanFull (content.dumps (.plain _) (.plain _))).2

theorem hitsExact_iff_foundAgain : HitsExact twoPages foundAgain (afterCycle foundAgain) :=
  (hitsExact_iff AhoCorasick.exact_search foundAgain
    (loopImpl_self .search scansPageDb_self _)).mpr
      ⟨fun _ => by decide +kernel, fun h => absurd (by decide +kernel) h⟩

/-- A cycle that found a group, and another query for it since. -/
def changedQuery : QueryDbContent :=
  ((QueryDbContent.empty.saveQG (groupOf "g" "news")).saveQGHits (hitsOf "g" ["http://a/"])).saveQG
    (groupOf "g" "weather")

/-- The page stays a hit although the group no longer asks for it. -/
theorem not_hitsExact_changedQuery :
    ¬ ∀ (pb : QueryGroupPb) (pbHits : QueryGroupHitsPb) (aho : AhoCorasick) (pageDb : PageDb)
      (content : QueryDbContent) (thrown : Option Str) (db' : QueryDb pb pbHits), aho.Exact →
      LoopImpl aho (ScansPageDb pageDb) (content.dumps pb pbHits) thrown db' →
        HitsExact pageDb content db' := by
  intro h
  have hexact := h _ _ .search twoPages changedQuery _ (afterCycle changedQuery)
    AhoCorasick.exact_search (loopImpl_self .search scansPageDb_self _)
  obtain ⟨hits, hload, -, hmem⟩ :=
    hexact (Str.ofString "g") (groupOf "g" "weather") (by decide +kernel)
  have hstill : (afterCycle changedQuery).loadQGHits (Str.ofString "g")
      = .ok (some (hitsOf "g" ["http://a/"])) := by
    decide +kernel
  obtain rfl := Except.ok.inj (hload.symm.trans hstill)
  obtain ⟨page, hpage, hfinds⟩ := (hmem (Str.ofString "http://a/")).mp (List.mem_singleton_self _)
  have hnone : ∀ (url : Url) (page : Str), twoPages.db[url]? = some page →
      ¬ (groupOf "g" "weather").Finds page := by
    decide +kernel
  exact hnone _ page hpage hfinds

end Contentv1.QueryLoop
