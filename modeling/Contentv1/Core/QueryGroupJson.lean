import Contentv1.Core.QueryGroup

/-!
# Query groups in JSON (`core/QueryGroup.cpp`)

The JSON parser (jsoncpp) is a library outside the repository.  `JsonReader` is what it makes of a
text: a value, nothing where the text is not JSON, or an exception, as for values nested too deeply.
-/

namespace Contentv1

/-- `Json::Value`. -/
inductive JsonValue
  | null
  | bool (b : Bool)
  | number
  | string (s : Str)
  | array (values : List JsonValue)
  | object (members : List (Str × JsonValue))

/-- `Json::Reader().parse`. -/
abbrev JsonReader := Str → Except Str (Option JsonValue)

/-- `operator[]` on a constant value: null where the member is missing. -/
def JsonValue.member (js : JsonValue) (key : Str) : Except Str JsonValue :=
  match js with
  | .null => .ok .null
  | .object members => .ok ((members.lookup key).getD .null)
  | _ => .error (Str.ofString "requires objectValue or nullValue")

namespace QueryGroup

def errMsg : Str := Str.ofString "QueryGroup::fromJson parsing error"

/-- One turn of the loop over the queries. -/
def queryFromJson : JsonValue → Except Str Query
  | .string query => .ok query
  | _ => .error errMsg

def fromJsonValue (js : JsonValue) : Except Str QueryGroup :=
  match js.member (Str.ofString "gid") with
  | .error what => .error what
  | .ok (.string gid) =>
    match js.member (Str.ofString "queries") with
    | .error what => .error what
    | .ok .null => .ok ⟨gid, []⟩
    | .ok (.array values) =>
      match values.mapM queryFromJson with
      | .error what => .error what
      | .ok queries => .ok ⟨gid, queries⟩
    | .ok _ => .error errMsg
  | .ok _ => .error errMsg

def fromJson (reader : JsonReader) (mess : Str) : Except Str QueryGroup :=
  match reader mess with
  | .error what => .error what
  | .ok none => .error errMsg
  | .ok (some js) => fromJsonValue js

end QueryGroup

end Contentv1
