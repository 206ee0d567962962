import Contentv1.Worker.Equiv.QueryLoop

/-!
# A cycle whose scan fails

The scan calls back with the rows before the one it cannot read (`fullScanWebPages_eq`), and the
cycle goes on with them as if they were all.  `keepsHits_iff_alreadyStored`: it leaves the stored
hits alone exactly when every group that is found in these rows has them, and no others, for hits
already, or when a stored group cannot be read, so that the cycle ends before the scan.
-/

namespace Contentv1

/-! ### The scan -/

/-- The two columns of a row, if both can be read. -/
def readRow (row : List (Option Str)) : Option (Url × Str) :=
  match row[0]?.join, row[1]?.join with
  | some url, some content => some (url, content)
  | _, _ => none

namespace CassAnswer

/-- The rows before the first one that cannot be read. -/
def rowsRead : CassAnswer → List (Url × Str)
  | .error _ => []
  | .rows table => (table.takeWhile fun row => (readRow row).isSome).filterMap readRow

/-- A query error, or a row that cannot be read. -/
def FailsScan : CassAnswer → Prop
  | .error _ => True
  | .rows table => ∃ row ∈ table, readRow row = none

theorem rowsRead_cons (row : List (Option Str)) (table : List (List (Option Str))) :
    (rows (row :: table)).rowsRead
      = (readRow row).elim [] fun page => page :: (rows table).rowsRead := by
  show List.filterMap readRow (List.takeWhile _ (row :: table)) = _
  rw [List.takeWhile_cons]
  cases hrow : readRow row with
  | none => rfl
  | some page =>
    rw [if_pos Option.isSome_some, List.filterMap_cons, hrow]
    rfl

end CassAnswer

namespace PageDbScylla

/-- One turn of the loop. -/
theorem scanRows_cons (row : List (Option Str)) (rows : List (List (Option Str))) :
    scanRows (row :: rows) = (readRow row).elim
      ([], Str.ofString "PageDbScylla::getColumnValue cass_value_get_string !CASS_OK")
      fun page => (page :: (scanRows rows).1, (scanRows rows).2) := by
  rw [scanRows]
  unfold readRow
  cases row[0]?.join with
  | none => rfl
  | some url => cases row[1]?.join <;> rfl

theorem scanRows_eq (rows : List (List (Option Str))) :
    (scanRows rows).1 = (CassAnswer.rows rows).rowsRead ∧
      ((scanRows rows).2.bytes = [] ↔ ∀ row ∈ rows, readRow row ≠ none) := by
  induction rows with
  | nil => exact ⟨rfl, iff_of_true rfl fun row hrow => absurd hrow List.not_mem_nil⟩
  | cons row rows ih =>
    obtain ⟨hread, hreadable⟩ := ih
    have hne : (Str.ofString
        "PageDbScylla::getColumnValue cass_value_get_string !CASS_OK").bytes ≠ [] := by decide
    rw [scanRows_cons, CassAnswer.rowsRead_cons, List.forall_mem_cons, ← hread, ← hreadable]
    cases readRow row with
    | none => exact ⟨rfl, iff_of_false hne fun h => h.1 rfl⟩
    | some page => exact ⟨rfl, (and_iff_right (Option.some_ne_none page)).symm⟩

/-- The exception is thrown for an error string that is not empty. -/
theorem isSome_thrown_iff (text : Str) :
    (if text.bytes.isEmpty then none else some text).isSome ↔ text.bytes ≠ [] := by
  cases hbytes : text.bytes <;> simp

/-- **The scan** calls back with the rows it has read and throws if it fails. -/
theorem fullScanWebPages_eq (answer : CassAnswer) :
    (fullScanWebPages answer).1 = answer.rowsRead ∧
      ((fullScanWebPages answer).2.isSome ↔ answer.FailsScan) := by
  cases answer with
  | error message =>
    have hne : (Str.ofString "PageDbScylla::fullScanWebPage query exec error ").bytes
        ++ message.bytes ≠ [] := List.append_ne_nil_of_left_ne_nil (by decide) _
    exact ⟨rfl, iff_of_true ((isSome_thrown_iff ⟨_⟩).mpr hne) trivial⟩
  | rows rows =>
    obtain ⟨hread, hreadable⟩ := scanRows_eq rows
    refine ⟨hread, ?_⟩
    have hthrown : (fullScanWebPages (.rows rows)).2.isSome ↔ (scanRows rows).2.bytes ≠ [] :=
      isSome_thrown_iff _
    rw [hthrown, Ne, hreadable]
    unfold CassAnswer.FailsScan
    simp

end PageDbScylla

namespace QueryLoop

variable {pb : QueryGroupPb} {pbHits : QueryGroupHitsPb} {aho : AhoCorasick} {answer : CassAnswer}
  {content : QueryDbContent} {thrown : Option Str} {db' : QueryDb pb pbHits}

/-- The hits of every group that is found in the scan are the pages of the scan already. -/
def AlreadyStored (scan : List (Url × Str)) (content : QueryDbContent) (db : QueryDb pb pbHits) :
    Prop :=
  ∀ (gid : GroupId) (qg : QueryGroup), content.qgDb[gid]? = some qg → foundUrls qg scan ≠ [] →
    db.qgHitsDb[gid]? = some (pbHits.serialize ⟨gid, foundUrls qg scan⟩)

/-- **A failing scan** leaves the stored hits alone exactly when the hits of every group that is
found in the rows before the failure are these rows already, or the groups cannot be read. -/
theorem keepsHits_iff_alreadyStored (haho : aho.Exact) (content : QueryDbContent)
    (h : LoopImpl aho (ScansAnswer answer) (content.dumps pb pbHits) thrown db') :
    ((PageDbScylla.fullScanWebPages answer).2.isSome →
        ∀ gid : GroupId, db'.qgHitsDb[gid]? = (content.dumps pb pbHits).qgHitsDb[gid]?)
      ↔ (answer.FailsScan → content.Readable →
        AlreadyStored answer.rowsRead content (content.dumps pb pbHits)) := by
  obtain ⟨hrows, hfails⟩ := PageDbScylla.fullScanWebPages_eq answer
  rw [hfails]
  apply imp_congr_right
  intro _
  rcases loopImpl_dumps haho h with ⟨hread, -, scan, hscan, hafter⟩ | ⟨hread, -, rfl⟩
  · obtain rfl : scan = answer.rowsRead := hscan.trans hrows
    rw [imp_iff_right hread]
    have hbefore : ∀ gid : GroupId, (content.dumps pb pbHits).qgHitsDb[gid]?
        = content.qgHitsDb[gid]?.map pbHits.serialize :=
      DumpDb.getElem?_dumpsOf content.qgHitsDb
    constructor
    · intro hkeeps gid qg hget hfound
      rw [← hkeeps gid, hafter gid, hitsAfter, hget]
      dsimp only
      rw [if_neg hfound]
      rfl
    · intro hstored gid
      rw [hafter gid, hitsAfter, hbefore gid]
      cases hget : content.qgDb[gid]? with
      | none => rfl
      | some qg =>
        dsimp only
        split_ifs with hfound
        · rfl
        · rw [← hbefore gid, hstored gid qg hget hfound]
          rfl
  · exact iff_of_true (fun _ => rfl) fun h => absurd h hread

/-- Two pages of which the second cannot be read. -/
def secondUnreadable : CassAnswer :=
  .rows [[some (Str.ofString "http://a/"), some (Str.ofString "lean news")],
    [some (Str.ofString "http://b/"), none]]

/-- The databases after a cycle over what was read of the two pages. -/
def afterFailure (content : QueryDbContent) : QueryDb (.plain _) (.plain _) :=
  (loopImpl .search (PageDbScylla.scanFullOn secondUnreadable)
    (content.dumps (.plain _) (.plain _))).2

/-- A group that was found on the first page only, and one that was found on neither. -/
def foundOnFirst : QueryDbContent :=
  ((QueryDbContent.empty.saveQG (groupOf "g" "news")).saveQG (groupOf "h" "weather")).saveQGHits
    (hitsOf "g" ["http://a/"])

theorem keepsHits_iff_alreadyStored_foundOnFirst :
    (PageDbScylla.fullScanWebPages secondUnreadable).2.isSome ∧
      ∀ gid : GroupId, (afterFailure foundOnFirst).qgHitsDb[gid]?
        = (foundOnFirst.dumps (.plain _) (.plain _)).qgHitsDb[gid]? := by
  have hscan : ScansAnswer secondUnreadable (PageDbScylla.scanFullOn secondUnreadable) := rfl
  have hstored : ∀ (gid : GroupId) (qg : QueryGroup), foundOnFirst.qgDb[gid]? = some qg →
      foundUrls qg secondUnreadable.rowsRead ≠ [] →
        foundOnFirst.qgHitsDb[gid]? = some ⟨gid, foundUrls qg secondUnreadable.rowsRead⟩ := by
    decide +kernel
  refine ⟨by decide, (keepsHits_iff_alreadyStored AhoCorasick.exact_search foundOnFirst
    (loopImpl_self .search hscan _)).mpr (fun _ _ gid qg hget hfound => ?_) (by decide)⟩
  exact (DumpDb.getElem?_dumpsOf foundOnFirst.qgHitsDb gid).trans
    (congrArg (Option.map _) (hstored gid qg hget hfound))

/-- A group that was found on both pages before. -/
def foundOnBoth : QueryDbContent :=
  (QueryDbContent.empty.saveQG (groupOf "g" "news")).saveQGHits
    (hitsOf "g" ["http://a/", "http://b/"])

/-- The cycle drops the hit on the second page. -/
theorem not_keepsHits_secondUnreadable :
    (PageDbScylla.fullScanWebPages secondUnreadable).2.isSome ∧
      (foundOnBoth.dumps (.plain _) (.plain _)).loadQGHits (Str.ofString "g")
        = .ok (some (hitsOf "g" ["http://a/", "http://b/"])) ∧
      (afterFailure foundOnBoth).loadQGHits (Str.ofString "g")
        = .ok (some (hitsOf "g" ["http://a/"])) := by
  decide +kernel

end QueryLoop

end Contentv1
