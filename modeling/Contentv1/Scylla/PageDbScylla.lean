import Contentv1.Ldb.PageDb

/-!
# The page store on ScyllaDB (`scylla/PageDbScylla.cpp`, `scylla/PageDbScyllaDetail.cpp`)

The methods send one statement each and turn the driver's answer into an error string, which decides
whether an exception is thrown.  The driver (cassandra) is not part of the repository: `CassAnswer`
is what it can answer, and `PageDbScylla.iface` runs the methods on a table that answers every
statement without an error.
-/

namespace Contentv1

/-- What the driver answers to a statement. -/
inductive CassAnswer
  /-- The error code is not `CASS_OK`; the driver's message. -/
  | error (message : Str)
  /-- The rows by column, `none` where `cass_value_get_string` fails on a column. -/
  | rows (rows : List (List (Option Str)))
  deriving DecidableEq, Repr

/-- `cass_statement_bind_string` on `c_str()`: the bytes up to the first NUL. -/
def Str.cStr (s : Str) : Str := ⟨s.bytes.takeWhile (· ≠ 0)⟩

/-- The string has no NUL byte, so that `c_str()` has all of it. -/
def Str.NulFree (s : Str) : Prop := 0 ∉ s.bytes

namespace PageDbScylla

/-- `upsertWebPage`: the text of the exception, if one is thrown. -/
def upsertWebPage : CassAnswer → Option Str
  | .error message => if message.bytes.isEmpty then none else some message
  | .rows _ => none

/-- `selectWebPage`: the text of the exception, if one is thrown, and `_content` after the call. -/
def selectWebPage (answer : CassAnswer) (content : Str) : Option Str × Str :=
  let r : Str × Str :=
    match answer with
    | .error message =>
      (⟨(Str.ofString "PageDbScylla::selectWebPage query exec error ").bytes ++ message.bytes⟩,
        content)
    | .rows [] => (Str.ofString "PageDbScylla::selectWebPage iterate no rows", content)
    | .rows (row :: _) =>
      match row.head?.join with
      | some stored => (Str.ofString "", stored)
      | none =>
        (Str.ofString "PageDbScylla::selectWebPage cass_value_get_string !CASS_OK", content)
  -- the exception is thrown where there is no error
  (if r.1.bytes.isEmpty then some r.1 else none, r.2)

/-- The loop of `fullScanWebPages`: the calls of the callback and the error string. -/
def scanRows : List (List (Option Str)) → List (Url × Str) × Str
  | [] => ([], Str.ofString "")
  | row :: rows =>
    match row[0]?.join, row[1]?.join with
    | some url, some content =>
      let r := scanRows rows
      ((url, content) :: r.1, r.2)
    | _, _ => ([], Str.ofString "PageDbScylla::getColumnValue cass_value_get_string !CASS_OK")

/-- `fullScanWebPages`: the calls of the callback and the text of the exception, if there is one. -/
def fullScanWebPages (answer : CassAnswer) : List (Url × Str) × Option Str :=
  let r : List (Url × Str) × Str :=
    match answer with
    | .error message =>
      ([], ⟨(Str.ofString "PageDbScylla::fullScanWebPage query exec error ").bytes
        ++ message.bytes⟩)
    | .rows rows => scanRows rows
  (r.1, if r.2.bytes.isEmpty then none else some r.2)

/-- `scanFull`: the calls of the callback.  An exception is logged. -/
def scanFullOn (answer : CassAnswer) : List (Url × Str) := (fullScanWebPages answer).1

end PageDbScylla

/-- The table `contentv1.web_pages` of a database without errors. -/
structure PageDbScylla where
  webPages : OrdMap Url Str

namespace PageDbScylla

instance : Inhabited PageDbScylla := ⟨⟨∅⟩⟩

def save (pageDb : PageDbScylla) (url : Url) (content : Str) : Except Str PageDbScylla :=
  match upsertWebPage (.rows []) with
  | some text => .error text
  | none => .ok ⟨pageDb.webPages.insert url.cStr content.cStr⟩

/-- The answer to `SELECT content FROM contentv1.web_pages WHERE url = ?`. -/
def selectAnswer (pageDb : PageDbScylla) (url : Url) : CassAnswer :=
  .rows (pageDb.webPages[url.cStr]?.toList.map fun content => [some content])

def load (pageDb : PageDbScylla) (url : Url) (content : Str) : Bool × Str :=
  let r := selectWebPage (pageDb.selectAnswer url) content
  (r.1.isNone, r.2)

/-- The answer to `SELECT url, content FROM contentv1.web_pages`. -/
def scanAnswer (pageDb : PageDbScylla) : CassAnswer :=
  .rows (pageDb.webPages.toList.map fun p => [some p.1, some p.2])

def scanFull (pageDb : PageDbScylla) : List (Url × Str) := scanFullOn pageDb.scanAnswer

def iface : IPageDb PageDbScylla where
  save := save
  load := load
  scanFull := scanFull

end PageDbScylla

end Contentv1
