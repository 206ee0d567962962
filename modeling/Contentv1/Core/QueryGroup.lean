import Contentv1.Core.Types

/-!
# Query groups and their hits (`core/QueryGroup.cpp`)
-/

namespace Contentv1

abbrev GroupId := Str
abbrev Query := Str

/-- The queries a customer watches under one name. -/
structure QueryGroup where
  gid : GroupId
  queries : List Query
  deriving DecidableEq, Repr

/-- The URLs of the pages found for a group. -/
structure QueryGroupHits where
  gid : GroupId
  hits : List Url
  deriving DecidableEq, Repr, Inhabited

/-- A page's content contains a query, and the query is not empty. -/
def Query.OccursIn (query : Query) (content : Str) : Prop :=
  query.bytes ≠ [] ∧ query.bytes <:+: content.bytes

instance (query : Query) (content : Str) : Decidable (query.OccursIn content) :=
  inferInstanceAs (Decidable (_ ∧ _))

/-- A page's content contains one of the group's queries. -/
def QueryGroup.Finds (qg : QueryGroup) (content : Str) : Prop :=
  ∃ query ∈ qg.queries, Query.OccursIn query content

instance (qg : QueryGroup) (content : Str) : Decidable (qg.Finds content) :=
  inferInstanceAs (Decidable (∃ query ∈ qg.queries, _))

end Contentv1
