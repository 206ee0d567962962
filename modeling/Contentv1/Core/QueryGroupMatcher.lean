import Contentv1.Core.QueryGroup
import Contentv1.Lib.OrdMap

/-!
# Matching a text against query groups (`core/QueryGroupMatcher.cpp`)

The matcher inserts every query of every group into an `aho_corasick::trie` and keeps, for each
query, the groups that have it.  The trie is a library outside the repository: `AhoCorasick` holds
the function that the code calls.
-/

namespace Contentv1

structure AhoCorasick where
  /-- The keywords of the matches that `parse_text` reports on a text, by a trie into which the
  given keywords were inserted. -/
  parseText : List Query → Str → List Query

/-- `parse_text` reports the occurrences of the inserted keywords; `insert` ignores an empty one. -/
def AhoCorasick.Exact (aho : AhoCorasick) : Prop :=
  ∀ (keywords : List Query) (text : Str) (keyword : Query),
    keyword ∈ aho.parseText keywords text ↔ keyword ∈ keywords ∧ Query.OccursIn keyword text

/-- The trie that looks for one keyword after another. -/
def AhoCorasick.search : AhoCorasick where
  parseText keywords text := keywords.filter fun keyword => Query.OccursIn keyword text

theorem AhoCorasick.exact_search : AhoCorasick.search.Exact := by
  intro keywords text keyword
  show keyword ∈ keywords.filter _ ↔ _
  rw [List.mem_filter, decide_eq_true_iff]

structure QueryGroupMatcher where
  /-- The keywords inserted into the trie. -/
  trie : List Query
  keywordGroups : OrdMap Query (List GroupId)

namespace QueryGroupMatcher

/-- The two nested loops of `_buildState` as one: each query beside the id of its group. -/
def groupQueries (qgs : List QueryGroup) : List (Query × GroupId) :=
  qgs.flatMap fun qg => qg.queries.map fun query => (query, qg.gid)

/-- `_buildState`. -/
def buildState (qgs : List QueryGroup) : QueryGroupMatcher :=
  { trie := ((groupQueries qgs).foldl (fun set p => set.insert p.1) (∅ : OrdSet Query)).toList
    keywordGroups := (groupQueries qgs).foldl (fun m p => m.push p.1 p.2) ∅ }

/-- One turn of the loop over the matches. -/
def addGids (m : QueryGroupMatcher) (set : OrdSet GroupId) (query : Query) : OrdSet GroupId :=
  match m.keywordGroups[query]? with
  | some gids => gids.foldl (fun set gidHit => set.insert gidHit) set
  | none => set

/-- The ids that the matches on a text bring into `gids_set`. -/
def gidsSet (aho : AhoCorasick) (m : QueryGroupMatcher) (content : Str) : OrdSet GroupId :=
  (aho.parseText m.trie content).foldl (addGids m) ∅

/-- `match`: the given vector with the ids that were found put behind it, and whether there is
anything in it. -/
def matchContent (aho : AhoCorasick) (m : QueryGroupMatcher) (content : Str)
    (gids : List GroupId) : Bool × List GroupId :=
  let gids := gids ++ (gidsSet aho m content).toList
  (!gids.isEmpty, gids)

end QueryGroupMatcher

end Contentv1
