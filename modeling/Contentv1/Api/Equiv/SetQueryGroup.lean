import Contentv1.Api.SetQueryGroup
import Contentv1.Ldb.Equiv.QueryDb

/-!
# What `/set_query_group` takes and answers

A body is of the form of a group if it is an object with a string `gid` and no `queries`, null or an
array of strings there.

* `fromJsonValue_eq_ok_iff`: those bodies are the ones that are decoded.
* `classified_iff`: the answers are 200, 400 and 500 as they should be, unless the body is JSON of
  another form or makes the parser throw, which is answered as an error of the server, or the group
  has strings that are not UTF-8, which is stored and cannot be loaded.
-/

namespace Contentv1

namespace QueryGroup

/-- The value is an object with this group in it. -/
def InJson (qg : QueryGroup) (js : JsonValue) : Prop :=
  ∃ members, js = .object members ∧
    members.lookup (Str.ofString "gid") = some (.string qg.gid) ∧
    ((members.lookup (Str.ofString "queries")).getD .null = .null ∧ qg.queries = [] ∨
      members.lookup (Str.ofString "queries") = some (.array (qg.queries.map .string)))

/-- The loop takes arrays of strings. -/
theorem mapM_queryFromJson_eq_ok_iff {values : List JsonValue} {queries : List Query} :
    values.mapM queryFromJson = .ok queries ↔ values = queries.map .string := by
  induction values generalizing queries with
  | nil =>
    rw [List.mapM_nil]
    constructor
    · intro h
      rw [← Except.ok.inj h]
      rfl
    · intro h
      rw [List.map_eq_nil_iff.mp h.symm]
      rfl
  | cons value values ih =>
    rw [List.mapM_cons]
    cases value with
    | string query =>
      cases hvalues : values.mapM queryFromJson with
      | error what =>
        refine iff_of_false (fun h => nomatch h) fun h => ?_
        cases queries with
        | nil => cases h
        | cons query' queries =>
          have htail := ih.mpr (List.cons.inj h).2
          cases hvalues.symm.trans htail
      | ok queries' =>
        obtain rfl := ih.mp hvalues
        constructor
        · intro h
          rw [← Except.ok.inj h]
          rfl
        · intro h
          cases queries with
          | nil => cases h
          | cons query' queries =>
            obtain ⟨hquery, htail⟩ := List.cons.inj h
            have hinj : Function.Injective JsonValue.string := fun _ _ h => JsonValue.string.inj h
            rw [← hinj hquery, ← hinj.list_map htail]
            rfl
    | _ =>
      refine iff_of_false (fun h => nomatch h) fun h => ?_
      cases queries <;> cases h

theorem inJson_object_iff {members : List (Str × JsonValue)} {qg : QueryGroup} :
    qg.InJson (.object members) ↔
      members.lookup (Str.ofString "gid") = some (.string qg.gid) ∧
      ((members.lookup (Str.ofString "queries")).getD .null = .null ∧ qg.queries = [] ∨
        members.lookup (Str.ofString "queries") = some (.array (qg.queries.map .string))) := by
  constructor
  · rintro ⟨members', hobject, h⟩
    obtain rfl := JsonValue.object.inj hobject
    exact h
  · exact fun h => ⟨members, rfl, h⟩

/-- **The bodies that are decoded** are those of the form of a group. -/
theorem fromJsonValue_eq_ok_iff {js : JsonValue} {qg : QueryGroup} :
    fromJsonValue js = .ok qg ↔ qg.InJson js := by
  obtain ⟨gid, queries⟩ := qg
  cases js with
  | object members =>
    rw [inJson_object_iff]
    unfold fromJsonValue JsonValue.member
    dsimp only
    cases members.lookup (Str.ofString "gid") with
    | none => simp
    | some gidValue =>
      cases gidValue with
      | string gid' =>
        cases members.lookup (Str.ofString "queries") with
        | none => simp [eq_comm]
        | some value =>
          cases value with
          | array values =>
            have hmapM : values.mapM queryFromJson = .ok queries ↔ values = queries.map .string :=
              mapM_queryFromJson_eq_ok_iff
            cases hqueries : values.mapM queryFromJson with
            | error what =>
              rw [hqueries] at hmapM
              simp [hqueries, ← hmapM]
            | ok queries' =>
              rw [hqueries] at hmapM
              simp [hqueries, ← hmapM]
          | null => simp [eq_comm]
          | _ => simp
      | _ => simp
  | _ => simp [fromJsonValue, JsonValue.member, InJson]

/-- The body is JSON of the form of a group, of this one. -/
def InBody (qg : QueryGroup) (reader : JsonReader) (body : Str) : Prop :=
  ∃ js, reader body = .ok (some js) ∧ qg.InJson js

theorem fromJson_eq_ok_iff {reader : JsonReader} {body : Str} {qg : QueryGroup} :
    fromJson reader body = .ok qg ↔ qg.InBody reader body := by
  unfold fromJson InBody
  cases reader body with
  | error what => simp
  | ok parsed =>
    cases parsed with
    | none => simp
    | some js => simp [fromJsonValue_eq_ok_iff]

/-- A body has one group in it. -/
theorem InBody.eq {reader : JsonReader} {body : Str} {qg qg' : QueryGroup}
    (h : qg.InBody reader body) (h' : qg'.InBody reader body) : qg = qg' :=
  Except.ok.inj ((fromJson_eq_ok_iff.mpr h).symm.trans (fromJson_eq_ok_iff.mpr h'))

end QueryGroup

namespace APIv1.SetQueryGroup

variable {pb : QueryGroupPb} {pbHits : QueryGroupHitsPb} {reader : JsonReader}
  {saveError : Option Str} {db : QueryDb pb pbHits} {hash : Str → Str} {req : APIRequest}
  {qg : QueryGroup}

/-! ### One lemma for each way through the handler -/

theorem hdl_of_throws {what : Str} (h : reader req.body = .error what) :
    hdl reader saveError db req = (.error what, db) := by
  unfold hdl
  rw [h]

theorem hdl_of_not_json (h : reader req.body = .ok none) :
    hdl reader saveError db req
      = (.ok (.setBadRequest (Str.ofString "err: parsing json req body")), db) := by
  unfold hdl
  rw [h]

theorem hdl_of_json {js : JsonValue} (hjs : reader req.body = .ok (some js)) :
    hdl reader saveError db req =
      match QueryGroup.fromJson reader req.body with
      | .error what => (.error what, db)
      | .ok qg =>
        match saveError with
        | some _ => (.ok (.setInternalError (Str.ofString "err: set gid:" ++ qg.gid)), db)
        | none => (.ok .ok, (db.saveQG none qg).2) := by
  unfold hdl
  rw [hjs]
  cases QueryGroup.fromJson reader req.body with
  | error what => rfl
  | ok qg => cases saveError <;> rfl

/-- A request that is let through is answered by the handler, or for it where it throws. -/
theorem answer_of_auth (hauth : auth hash req.headers = .ok ()) :
    answer reader saveError db hash req =
      (match (hdl reader saveError db req).1 with
        | .error _ => APIResponse.internalServerError
        | .ok res => res, (hdl reader saveError db req).2) := by
  unfold answer handlerWrap
  dsimp only
  rw [if_pos rfl, hauth]
  cases (hdl reader saveError db req).1 <;> rfl

/-! ### The answers -/

/-- The answer is the one that the body and the store call for, and so is what is stored. -/
def Classified (reader : JsonReader) (saveError : Option Str) (db : QueryDb pb pbHits) (body : Str)
    (res : APIResponse × QueryDb pb pbHits) : Prop :=
  (res.1 = .ok ∧ ∃ qg : QueryGroup, qg.InBody reader body ∧
    res.2.loadQG qg.gid = .ok (some qg) ∧
    (∀ gid, gid ≠ qg.gid → res.2.loadQG gid = db.loadQG gid) ∧
    res.2.qgHitsDb = db.qgHitsDb) ∨
  (res.1.status = 400 ∧ (¬ ∃ qg : QueryGroup, qg.InBody reader body) ∧ res.2 = db) ∨
  (res.1.status = 500 ∧ (∃ qg : QueryGroup, qg.InBody reader body) ∧ saveError ≠ none ∧
    res.2 = db)

theorem loadQG_saveQG (db : QueryDb pb pbHits) (qg : QueryGroup) (gid : GroupId) :
    (db.saveQG none qg).2.loadQG gid =
      if qg.gid = gid then
        (DumpDb.ofDump pb (Str.ofString "QueryGroup::QueryGroup parsing") (pb.serialize qg)).map
          some
      else db.loadQG gid := by
  unfold QueryDb.loadQG DumpDb.load
  rw [QueryDb.qgDb_saveQG, OrdMap.getElem?_insert]
  split_ifs <;> rfl

theorem classified_badRequest_iff {body mess : Str} :
    Classified reader saveError db body (.setBadRequest mess, db) ↔
      ¬ ∃ qg : QueryGroup, qg.InBody reader body := by
  constructor
  · rintro (⟨hok, -⟩ | ⟨-, hnone, -⟩ | ⟨hstatus, -⟩)
    · cases congrArg APIResponse.status hok
    · exact hnone
    · cases hstatus
  · exact fun hnone => Or.inr (Or.inl ⟨rfl, hnone, rfl⟩)

/-- An answer of 500 is for a group that the store did not take. -/
theorem classified_500_iff {body : Str} {res : APIResponse} (hres : res.status = 500) :
    Classified reader saveError db body (res, db) ↔
      (∃ qg : QueryGroup, qg.InBody reader body) ∧ saveError ≠ none := by
  constructor
  · rintro (⟨hok, -⟩ | ⟨hstatus, -⟩ | ⟨-, hqg, hsave, -⟩)
    · cases hres.symm.trans (congrArg APIResponse.status hok)
    · cases hres.symm.trans hstatus
    · exact ⟨hqg, hsave⟩
  · exact fun h => Or.inr (Or.inr ⟨hres, h.1, h.2, rfl⟩)

/-- A group that was stored is there if and only if its strings are valid. -/
theorem classified_ok_iff {body : Str} (hqg : qg.InBody reader body) :
    Classified reader saveError db body (.ok, (db.saveQG none qg).2) ↔ qg.Valid := by
  constructor
  · rintro (⟨-, qg', hqg', hload, -⟩ | ⟨hstatus, -⟩ | ⟨hstatus, -⟩)
    · obtain rfl := hqg.eq hqg'
      rw [loadQG_saveQG, if_pos rfl, DumpDb.ofDump_serialize] at hload
      split_ifs at hload with hvalid
      · exact hvalid
      · cases hload
    · cases hstatus
    · cases hstatus
  · intro hvalid
    refine Or.inl ⟨rfl, qg, hqg, ?_, fun gid hgid => ?_, rfl⟩
    · have hstrings : ∀ s ∈ qg.strings, s.IsValidUTF8 := hvalid
      rw [loadQG_saveQG, if_pos rfl, DumpDb.ofDump_serialize, if_pos hstrings]
      rfl
    · rw [loadQG_saveQG, if_neg hgid.symm]

/-- **The answers of `/set_query_group`.**  A request that gets to the handler is answered with 200,
400 or 500 as its body and the store call for, if and only if a body that the parser does not reject
as no JSON has the form of a group and a group that is stored has valid strings. -/
theorem classified_iff (reader : JsonReader) (saveError : Option Str) (db : QueryDb pb pbHits)
    (hash : Str → Str) (req : APIRequest) (hauth : auth hash req.headers = .ok ()) :
    Classified reader saveError db req.body (answer reader saveError db hash req) ↔
      (reader req.body ≠ .ok none → ∃ qg : QueryGroup, qg.InBody reader req.body) ∧
      (saveError = none → ∀ qg : QueryGroup, qg.InBody reader req.body → qg.Valid) := by
  rw [answer_of_auth hauth]
  -- an exception is answered as an error of the server
  have hthrown : ∀ what : Str, (hdl reader saveError db req) = (.error what, db) →
      (¬ ∃ qg : QueryGroup, qg.InBody reader req.body) → reader req.body ≠ .ok none →
      (Classified reader saveError db req.body
          (match (hdl reader saveError db req).1 with
            | .error _ => APIResponse.internalServerError
            | .ok res => res, (hdl reader saveError db req).2) ↔
        (reader req.body ≠ .ok none → ∃ qg : QueryGroup, qg.InBody reader req.body) ∧
        (saveError = none → ∀ qg : QueryGroup, qg.InBody reader req.body → qg.Valid)) := by
    intro what hhdl hnone hjson
    rw [hhdl]
    refine iff_of_false (fun h => hnone ((classified_500_iff rfl).mp h).1) fun h => ?_
    exact hnone (h.1 hjson)
  cases hjs : reader req.body with
  | error what =>
    rw [← hjs]
    refine hthrown what (hdl_of_throws hjs) ?_ ?_
    · rintro ⟨qg, js, hjs', -⟩
      cases hjs.symm.trans hjs'
    · exact fun h => nomatch hjs.symm.trans h
  | ok parsed =>
    cases parsed with
    | none =>
      have hnone : ¬ ∃ qg : QueryGroup, qg.InBody reader req.body := by
        rintro ⟨qg, js, hjs', -⟩
        cases hjs.symm.trans hjs'
      rw [hdl_of_not_json hjs]
      refine iff_of_true (classified_badRequest_iff.mpr hnone) ⟨fun h => absurd rfl h, ?_⟩
      exact fun _ qg hqg => absurd ⟨qg, hqg⟩ hnone
    | some js =>
      cases hjson : QueryGroup.fromJson reader req.body with
      | error what =>
        rw [← hjs]
        refine hthrown what ?_ ?_ ?_
        · rw [hdl_of_json hjs, hjson]
        · rintro ⟨qg, hqg⟩
          cases hjson.symm.trans (QueryGroup.fromJson_eq_ok_iff.mpr hqg)
        · exact fun h => nomatch hjs.symm.trans h
      | ok qg =>
        have hqg := QueryGroup.fromJson_eq_ok_iff.mp hjson
        rw [hdl_of_json hjs, hjson, and_iff_right fun _ => ⟨qg, hqg⟩]
        cases saveError with
        | some what =>
          refine iff_of_true ((classified_500_iff rfl).mpr ⟨⟨qg, hqg⟩, ?_⟩) fun h => nomatch h
          exact Option.some_ne_none what
        | none =>
          refine (classified_ok_iff hqg).trans ⟨fun hvalid _ qg' hqg' => ?_, fun h => h rfl qg hqg⟩
          exact hqg.eq hqg' ▸ hvalid

/-- A request with a good token, where every string has the same hash. -/
def goodRequest (body : String) : APIRequest :=
  ⟨[(Str.ofString "Authorization", Str.ofString "Bearer abcdefghijkAAAAA")], .ofString body, []⟩

def gidOnly : String := "\x7b\"gid\":\"g\"\x7d"

/-- The parser on the JSON text of an object with an id and of an empty array. -/
def objectOrArray : JsonReader := fun mess =>
  if mess = .ofString "[]" then .ok (some (.array []))
  else if mess = .ofString gidOnly then
    .ok (some (.object [(.ofString "gid", .string (.ofString "g"))]))
  else .ok none

/-- The answer to a request on empty databases that take every write. -/
def answerTo (body : String) :
    APIResponse × QueryDb (.plain QueryGroup.strings) (.plain QueryGroupHits.strings) :=
  answer objectOrArray none ⟨∅, ∅⟩ (fun _ => Str.ofString "AAAAA") (goodRequest body)

/-- An instance: a group without queries. -/
theorem classified_iff_gidOnly :
    Classified objectOrArray none ⟨∅, ∅⟩ (goodRequest gidOnly).body (answerTo gidOnly) := by
  have hbody : QueryGroup.InBody ⟨Str.ofString "g", []⟩ objectOrArray (goodRequest gidOnly).body :=
    QueryGroup.fromJson_eq_ok_iff.mp (by decide)
  refine (classified_iff objectOrArray none ⟨∅, ∅⟩ _ _ (by decide)).mpr
    ⟨fun _ => ⟨_, hbody⟩, fun _ qg hqg => ?_⟩
  rw [hqg.eq hbody]
  decide

/-- An array is answered as an error of the server. -/
theorem not_classified_array :
    ¬ Classified objectOrArray none ⟨∅, ∅⟩ (goodRequest "[]").body (answerTo "[]") := by
  have hanswer : (answerTo "[]").1 = .internalServerError := by decide
  rintro (⟨hok, -⟩ | ⟨hstatus, -⟩ | ⟨-, -, hsave, -⟩)
  · exact absurd (hanswer.symm.trans hok) (by decide)
  · rw [hanswer] at hstatus
    cases hstatus
  · exact hsave rfl

end APIv1.SetQueryGroup

end Contentv1
