import Contentv1.Api.Auth
import Contentv1.Core.QueryGroupJson
import Contentv1.Ldb.QueryDb

/-!
# What the API stores of a group (`api/v1/APIv1HdlQG.cpp`)

`hdlSetQueryGroup` decodes a group from JSON and stores it as a protocol buffer.  `step` runs the
two handlers that write on requests with any body, on databases that take every write, beside the
groups as they were decoded.
-/

namespace Contentv1

namespace APIv1

/-- What a handler sets the response to. -/
inductive Answer
  | ok
  | badRequest (mess : Str)
  deriving DecidableEq

section

variable {pb : QueryGroupPb} {pbHits : QueryGroupHitsPb} (reader : JsonReader)
  (db : QueryDb pb pbHits) (req : APIRequest)

def hdlSetQueryGroup : Except Str (Answer × QueryDb pb pbHits) :=
  match reader req.body with
  | .error what => .error what
  | .ok none => .ok (.badRequest (Str.ofString "err: parsing json req body"), db)
  | .ok (some _) =>
    -- the body is parsed a second time
    match QueryGroup.fromJson reader req.body with
    | .error what => .error what
    | .ok qg => .ok (.ok, (db.saveQG none qg).2)

def hdlDeleteQueryGroup : Except Str (Answer × QueryDb pb pbHits) :=
  match req.params.lookup (Str.ofString "gid") with
  | none => .ok (.badRequest (Str.ofString "err: parsing gid param"), db)
  | some gid => .ok (.ok, ((db.deleteQG none gid).2.deleteQGHits none gid).2)

end

end APIv1

namespace QueryGroupStore

open APIv1

structure State (pb : QueryGroupPb) (pbHits : QueryGroupHitsPb) where
  db : QueryDb pb pbHits
  /-- The groups that were decoded and stored. -/
  groups : OrdMap GroupId QueryGroup

/-- Empty databases. -/
def State.init (pb : QueryGroupPb) (pbHits : QueryGroupHitsPb) : State pb pbHits := ⟨⟨∅, ∅⟩, ∅⟩

inductive Label
  | setQueryGroup (req : APIRequest)
  | deleteQueryGroup (req : APIRequest)

variable {pb : QueryGroupPb} {pbHits : QueryGroupHitsPb}

def step (reader : JsonReader) (s : State pb pbHits) : Label → Option (State pb pbHits)
  | .setQueryGroup req =>
    match hdlSetQueryGroup reader s.db req with
    -- an exception is answered by `handler_wrap`, and nothing was written before it
    | .error _ => some s
    | .ok (_, db) =>
      match QueryGroup.fromJson reader req.body with
      | .error _ => some { s with db := db }
      | .ok qg => some ⟨db, s.groups.insert qg.gid qg⟩
  | .deleteQueryGroup req =>
    match hdlDeleteQueryGroup s.db req with
    | .error _ => some s
    | .ok (_, db) =>
      match req.params.lookup (Str.ofString "gid") with
      | none => some { s with db := db }
      | some gid => some ⟨db, s.groups.erase gid⟩

end QueryGroupStore

end Contentv1
