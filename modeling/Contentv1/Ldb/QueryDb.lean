import Contentv1.Core.Pb
import Contentv1.Core.QueryGroup
import Contentv1.Lib.OrdMap

/-!
# Query groups and hits in LevelDB (`ldb/QueryDb.cpp`, `core/QueryGroup.cpp`)

Two databases, both by the id of the group and kept in the same way: a message is written to LevelDB
under its id and parsed each time it is read, which throws where it cannot be parsed.  `DumpDb` is
one such database.

Whether LevelDB takes a write is an argument: the text of its exception, if there is one.
-/

namespace Contentv1

section

variable {μ : Type} {strings : μ → List Str}

/-- A LevelDB of dumped messages. -/
abbrev DumpDb (pb : Proto3 μ strings) := OrdMap Str pb.Dump

namespace DumpDb

variable {pb : Proto3 μ strings}

/-- The dumps of all messages. -/
def dumpsOf (pb : Proto3 μ strings) (m : OrdMap Str μ) : DumpDb pb :=
  m.map fun _ v => pb.serialize v

/-- The constructor from a dump, with the text of its exception. -/
def ofDump (pb : Proto3 μ strings) (what : Str) (dump : pb.Dump) : Except Str μ :=
  match pb.parse dump with
  | none => .error what
  | some m => .ok m

def load (what : Str) (db : DumpDb pb) (key : Str) : Except Str (Option μ) :=
  match db[key]? with
  | none => .ok none
  | some dump => (ofDump pb what dump).map some

/-- The scan parses one dump after another and ends with the first exception. -/
def scanFull (what : Str) (db : DumpDb pb) : Except Str (List μ) :=
  db.toList.mapM fun p => ofDump pb what p.2

/-- A write that LevelDB may refuse, with the name of the function that catches the exception. -/
def tryWrite (name : Str) (error : Option Str) (write : DumpDb pb → DumpDb pb) (db : DumpDb pb) :
    Option Str × DumpDb pb :=
  match error with
  | some what => (some (name ++ what), db)
  | none => (none, write db)

end DumpDb

end

/-- The `string` fields of `QueryGroupPb`. -/
def QueryGroup.strings (qg : QueryGroup) : List Str := qg.gid :: qg.queries

abbrev QueryGroupPb := Proto3 QueryGroup QueryGroup.strings

/-- The `string` fields of `QueryGroupHitsPb`. -/
def QueryGroupHits.strings (hits : QueryGroupHits) : List Str := hits.gid :: hits.hits

abbrev QueryGroupHitsPb := Proto3 QueryGroupHits QueryGroupHits.strings

structure QueryDb (pb : QueryGroupPb) (pbHits : QueryGroupHitsPb) where
  qgDb : DumpDb pb
  qgHitsDb : DumpDb pbHits

namespace QueryDb

variable {pb : QueryGroupPb} {pbHits : QueryGroupHitsPb} (db : QueryDb pb pbHits)

/-- What a write says and leaves, put back into the two databases. -/
def setQG (written : Option Str × DumpDb pb) : Option Str × QueryDb pb pbHits :=
  (written.1, { db with qgDb := written.2 })

def setQGHits (written : Option Str × DumpDb pbHits) : Option Str × QueryDb pb pbHits :=
  (written.1, { db with qgHitsDb := written.2 })

def saveQG (error : Option Str) (qg : QueryGroup) : Option Str × QueryDb pb pbHits :=
  db.setQG (DumpDb.tryWrite (Str.ofString "QueryDb::saveQG ") error
    (fun qgDb => qgDb.insert qg.gid (pb.serialize qg)) db.qgDb)

def deleteQG (error : Option Str) (gid : GroupId) : Option Str × QueryDb pb pbHits :=
  db.setQG (DumpDb.tryWrite (Str.ofString "QueryDb::deleteQG ") error
    (fun qgDb => qgDb.erase gid) db.qgDb)

def loadQG (gid : GroupId) : Except Str (Option QueryGroup) :=
  DumpDb.load (Str.ofString "QueryGroup::QueryGroup parsing") db.qgDb gid

def getAllQG : Except Str (List QueryGroup) :=
  DumpDb.scanFull (Str.ofString "QueryGroup::QueryGroup parsing") db.qgDb

def saveQGHits (error : Option Str) (hits : QueryGroupHits) :
    Option Str × QueryDb pb pbHits :=
  db.setQGHits (DumpDb.tryWrite (Str.ofString "QueryDb::saveQGHits ") error
    (fun qgHitsDb => qgHitsDb.insert hits.gid (pbHits.serialize hits)) db.qgHitsDb)

def deleteQGHits (error : Option Str) (gid : GroupId) : Option Str × QueryDb pb pbHits :=
  db.setQGHits (DumpDb.tryWrite (Str.ofString "QueryDb::deleteQGHits ") error
    (fun qgHitsDb => qgHitsDb.erase gid) db.qgHitsDb)

def loadQGHits (gid : GroupId) : Except Str (Option QueryGroupHits) :=
  DumpDb.load (Str.ofString "QueryGroupHitsPb::QueryGroupHitsPb parsing") db.qgHitsDb gid

end QueryDb

/-- What has been saved and not deleted since, as it was before it was dumped. -/
structure QueryDbContent where
  qgDb : OrdMap GroupId QueryGroup
  qgHitsDb : OrdMap GroupId QueryGroupHits
  /-- A group is stored under its own id. -/
  keyed : ∀ (gid : GroupId) (qg : QueryGroup), qgDb[gid]? = some qg → qg.gid = gid

namespace QueryDbContent

/-- The constructor on empty directories. -/
def empty : QueryDbContent where
  qgDb := ∅
  qgHitsDb := ∅
  keyed := by
    intro gid qg h
    rw [Std.ExtTreeMap.getElem?_empty] at h
    cases h

def saveQG (content : QueryDbContent) (qg : QueryGroup) : QueryDbContent where
  qgDb := content.qgDb.insert qg.gid qg
  qgHitsDb := content.qgHitsDb
  keyed := by
    intro gid qg' h
    rw [OrdMap.getElem?_insert] at h
    split_ifs at h with hgid
    · rw [← Option.some.inj h, hgid]
    · exact content.keyed gid qg' h

def saveQGHits (content : QueryDbContent) (hits : QueryGroupHits) : QueryDbContent :=
  { content with qgHitsDb := content.qgHitsDb.insert hits.gid hits }

/-- The databases on disk. -/
def dumps (pb : QueryGroupPb) (pbHits : QueryGroupHitsPb) (content : QueryDbContent) :
    QueryDb pb pbHits :=
  ⟨DumpDb.dumpsOf pb content.qgDb, DumpDb.dumpsOf pbHits content.qgHitsDb⟩

end QueryDbContent

end Contentv1
