import Contentv1.Core.QueryGroupMatcher

/-!
# What the matcher finds

`mem_gidsSet`: with a trie that reports what occurs, the ids found on a text are those of the groups
one of whose queries is not empty and occurs in it.
-/

namespace Contentv1.QueryGroupMatcher

variable {aho : AhoCorasick} {qgs : List QueryGroup} {query : Query} {gid : GroupId}
  {content : Str}

theorem mem_groupQueries :
    (query, gid) ∈ groupQueries qgs ↔ ∃ qg ∈ qgs, qg.gid = gid ∧ query ∈ qg.queries := by
  simp only [groupQueries, List.mem_flatMap, List.mem_map, Prod.mk.injEq]
  constructor
  · rintro ⟨qg, hqg, query', hquery, rfl, rfl⟩
    exact ⟨qg, hqg, rfl, hquery⟩
  · rintro ⟨qg, hqg, rfl, hquery⟩
    exact ⟨qg, hqg, query, hquery, rfl, rfl⟩

/-- Every query goes into the trie. -/
theorem mem_trie_buildState :
    query ∈ (buildState qgs).trie ↔ ∃ gid, (query, gid) ∈ groupQueries qgs := by
  unfold buildState
  rw [Std.ExtTreeSet.mem_toList, OrdSet.mem_foldl_insert Prod.fst]
  simp

/-- The groups kept for a query are those that have it. -/
theorem mem_keywordGroups_buildState :
    gid ∈ ((buildState qgs).keywordGroups[query]?).getD [] ↔ (query, gid) ∈ groupQueries qgs := by
  unfold buildState
  rw [OrdMap.getD_foldl_push, Std.ExtTreeMap.getElem?_empty, Option.getD_none, List.nil_append,
    OrdMap.mem_valuesAt]

/-- The loop over the matches collects the groups of each of them. -/
theorem mem_gidsSet_iff (m : QueryGroupMatcher) :
    gid ∈ gidsSet aho m content ↔
      ∃ query ∈ aho.parseText m.trie content, gid ∈ (m.keywordGroups[query]?).getD [] := by
  have hstep : addGids m = fun set query =>
      ((m.keywordGroups[query]?).getD []).foldl (fun set gidHit => set.insert (id gidHit)) set := by
    funext set query
    unfold addGids
    cases m.keywordGroups[query]? <;> rfl
  unfold gidsSet
  rw [hstep, ← List.foldl_flatMap, OrdSet.mem_foldl_insert id]
  simp

/-- **What is found** on a text. -/
theorem mem_gidsSet (haho : aho.Exact) :
    gid ∈ gidsSet aho (buildState qgs) content ↔
      ∃ qg ∈ qgs, qg.gid = gid ∧ qg.Finds content := by
  rw [mem_gidsSet_iff]
  constructor
  · rintro ⟨query, hquery, hgid⟩
    obtain ⟨-, hoccurs⟩ := (haho _ _ _).mp hquery
    obtain ⟨qg, hqg, hid, hmem⟩ := mem_groupQueries.mp (mem_keywordGroups_buildState.mp hgid)
    exact ⟨qg, hqg, hid, query, hmem, hoccurs⟩
  · rintro ⟨qg, hqg, hid, query, hmem, hoccurs⟩
    have hpair : (query, gid) ∈ groupQueries qgs := mem_groupQueries.mpr ⟨qg, hqg, hid, hmem⟩
    have htrie : query ∈ (buildState qgs).trie := mem_trie_buildState.mpr ⟨gid, hpair⟩
    exact ⟨query, (haho _ _ _).mpr ⟨htrie, hoccurs⟩, mem_keywordGroups_buildState.mpr hpair⟩

end Contentv1.QueryGroupMatcher
