import Contentv1.Worker.Equiv.QueryLoop

/-!
# What the queries match

`exactMatching_of_scan`: whatever the groups, ids and queries given twice among them, `_query` puts
out the groups that some page contains a query of, each once, with exactly those pages in the order
of the scan.  `match` finds the groups of one content, each once.
-/

namespace Contentv1

namespace QueryGroupMatcher

variable {aho : AhoCorasick} {qgs : List QueryGroup} {gid : GroupId} {content : Str}

/-- The content contains a query of a group with the id. -/
def Matches (qgs : List QueryGroup) (gid : GroupId) (content : Str) : Prop :=
  ∃ qg ∈ qgs, qg.gid = gid ∧ ∃ query ∈ qg.queries, query.bytes <:+: content.bytes

instance (qgs : List QueryGroup) (gid : GroupId) (content : Str) :
    Decidable (Matches qgs gid content) :=
  inferInstanceAs (Decidable (∃ qg ∈ qgs, _))

/-- No query is empty. -/
def NoEmptyQuery (qgs : List QueryGroup) : Prop :=
  ∀ qg ∈ qgs, ∀ query ∈ qg.queries, query.bytes ≠ []

instance (qgs : List QueryGroup) : Decidable (NoEmptyQuery qgs) :=
  inferInstanceAs (Decidable (∀ qg ∈ qgs, _))

theorem mem_gidsSet_iff_matches (haho : aho.Exact) (hqgs : NoEmptyQuery qgs) :
    gid ∈ gidsSet aho (buildState qgs) content ↔ Matches qgs gid content := by
  rw [mem_gidsSet haho]
  refine exists_congr fun qg => and_congr_right fun hqg => and_congr_right fun _ => ?_
  refine exists_congr fun query => and_congr_right fun hquery => ?_
  exact and_iff_right (hqgs qg hqg query hquery)

/-- **What `match` finds** when it is given an empty vector. -/
theorem matchContent_spec (haho : aho.Exact) (hqgs : NoEmptyQuery qgs) (content : Str) :
    (matchContent aho (buildState qgs) content []).2.Nodup ∧
      (∀ gid, gid ∈ (matchContent aho (buildState qgs) content []).2 ↔ Matches qgs gid content) ∧
      ((matchContent aho (buildState qgs) content []).1 = true ↔
        ∃ gid, Matches qgs gid content) := by
  have hmem : ∀ gid, gid ∈ (gidsSet aho (buildState qgs) content).toList ↔
      Matches qgs gid content := by
    intro gid
    rw [Std.ExtTreeSet.mem_toList, mem_gidsSet_iff_matches haho hqgs]
  unfold matchContent
  simp only [List.nil_append]
  refine ⟨OrdSet.nodup_toList _, hmem, ?_⟩
  simp only [← hmem, Bool.not_eq_true', List.isEmpty_eq_false_iff_exists_mem]

end QueryGroupMatcher

namespace QueryLoop

open QueryGroupMatcher (Matches NoEmptyQuery)

variable {aho : AhoCorasick} {qgs : List QueryGroup} {scan : List (Url × Str)}

/-- The URLs of the pages that contain a query of a group with the id, in the order of the scan. -/
def matchingUrls (qgs : List QueryGroup) (scan : List (Url × Str)) (gid : GroupId) : List Url :=
  (scan.filter fun page => Matches qgs gid page.2).map Prod.fst

/-- What `_query` puts out has one element for each id with a matching page, and that one the
matching pages. -/
structure Exact (qgs : List QueryGroup) (scan : List (Url × Str)) (qgsHits : List QueryGroupHits) :
    Prop where
  gids : (qgsHits.map QueryGroupHits.gid).Nodup
  mem : ∀ gid, gid ∈ qgsHits.map QueryGroupHits.gid ↔ ∃ page ∈ scan, Matches qgs gid page.2
  hits : ∀ qgHits ∈ qgsHits, qgHits.hits = matchingUrls qgs scan qgHits.gid
  urls : ∀ qgHits ∈ qgsHits, qgHits.hits.Nodup

theorem hitUrls_eq_matchingUrls (haho : aho.Exact) (hqgs : NoEmptyQuery qgs) (gid : GroupId) :
    hitUrls aho qgs scan gid = matchingUrls qgs scan gid := by
  unfold hitUrls matchingUrls
  congr 1
  apply List.filter_congr
  intro page _
  rw [decide_eq_decide, QueryGroupMatcher.mem_gidsSet_iff_matches haho hqgs]

theorem matchingUrls_eq_nil_iff {gid : GroupId} :
    matchingUrls qgs scan gid = [] ↔ ¬ ∃ page ∈ scan, Matches qgs gid page.2 := by
  unfold matchingUrls
  rw [List.map_eq_nil_iff, List.filter_eq_nil_iff]
  simp

/-- **Queries are matched exactly.**  For a trie that reports what occurs, any groups without empty
queries and any scan that visits each URL once: this is what `_query` puts out, in whatever order,
and what `match` says of any content. -/
theorem exactMatching_of_scan (haho : aho.Exact) (hqgs : NoEmptyQuery qgs)
    (hscan : (scan.map Prod.fst).Nodup) :
    (∀ qgsHits : List QueryGroupHits,
        qgsHits.Perm ((query aho qgs scan).toList.map Prod.snd) → Exact qgs scan qgsHits) ∧
      ∀ content, let found := (QueryGroupMatcher.buildState qgs).matchContent aho content []
        found.2.Nodup ∧ (∀ gid, gid ∈ found.2 ↔ Matches qgs gid content) ∧
          (found.1 = true ↔ ∃ gid, Matches qgs gid content) := by
  refine ⟨fun qgsHits hperm => ?_, QueryGroupMatcher.matchContent_spec haho hqgs⟩
  have hkeyed : ∀ (gid : GroupId) (qgHits : QueryGroupHits),
      (query aho qgs scan)[gid]? = some qgHits → qgHits.gid = gid :=
    fun _ _ => gid_of_getElem?_query
  -- an element is the entry of its id
  have helem : ∀ qgHits, qgHits ∈ qgsHits ↔
      matchingUrls qgs scan qgHits.gid ≠ [] ∧
        qgHits.hits = matchingUrls qgs scan qgHits.gid := by
    intro qgHits
    rw [hperm.mem_iff, OrdMap.mem_map_snd_toList_iff hkeyed, getElem?_query,
      hitUrls_eq_matchingUrls haho hqgs]
    obtain ⟨gid, hits⟩ := qgHits
    split_ifs with hnil
    · exact iff_of_false nofun fun h => h.1 hnil
    · simp [hnil, eq_comm]
  refine ⟨?_, fun gid => ?_, fun qgHits hmem => ((helem qgHits).mp hmem).2, fun qgHits hmem => ?_⟩
  · exact (hperm.map QueryGroupHits.gid).nodup_iff.mpr
      (OrdMap.nodup_map_key_map_snd_toList hkeyed)
  · have hnil : matchingUrls qgs scan gid = [] ↔ ¬ ∃ page ∈ scan, Matches qgs gid page.2 :=
      matchingUrls_eq_nil_iff
    rw [← not_iff_not, ← hnil, List.mem_map]
    constructor
    · intro hnone
      by_contra hne
      exact hnone ⟨⟨gid, matchingUrls qgs scan gid⟩, (helem _).mpr ⟨hne, rfl⟩, rfl⟩
    · rintro heq ⟨qgHits, hmem, rfl⟩
      exact ((helem qgHits).mp hmem).1 heq
  · rw [((helem qgHits).mp hmem).2]
    exact hscan.sublist (List.filter_sublist.map Prod.fst)

/-- A group given twice, with a query that is part of another one's. -/
def catGroups : List QueryGroup :=
  [⟨Str.ofString "pets", [Str.ofString "cat", Str.ofString "dog"]⟩,
    ⟨Str.ofString "real", [Str.ofString "cathouse"]⟩,
    ⟨Str.ofString "pets", [Str.ofString "cat"]⟩]

def catPages : List (Url × Str) :=
  [(Str.ofString "http://b/", Str.ofString "a cathouse and a dog"),
    (Str.ofString "http://a/", Str.ofString "a dog"), (Str.ofString "http://c/", Str.ofString "vw")]

theorem exactMatching_of_scan_catPages :
    Exact catGroups catPages ((query .search catGroups catPages).toList.map Prod.snd) :=
  (exactMatching_of_scan AhoCorasick.exact_search (by decide) (by decide)).1 _ (List.Perm.refl _)

end QueryLoop

end Contentv1
