import Contentv1.Ldb.QueryDb

/-!
# What the query databases are read as

`DumpDb.dumpsOf pb m` is the LevelDB that the messages `m` are dumped to.  Writes of dumps keep this
form, and a message is read back exactly if its strings are UTF-8; a scan needs that of all
messages.

* `getAllQG_dumps` and `exists_loadQGHits_iff`: what a content reads as.
* `Keyed`: whatever is read is read under its own id.
-/

namespace Contentv1

/-- All strings of the group are UTF-8. -/
def QueryGroup.Valid (qg : QueryGroup) : Prop := ∀ s ∈ qg.strings, s.IsValidUTF8

instance : DecidablePred QueryGroup.Valid := fun qg =>
  inferInstanceAs (Decidable (∀ s ∈ qg.strings, s.IsValidUTF8))

/-- All strings of the hits are UTF-8. -/
def QueryGroupHits.Valid (hits : QueryGroupHits) : Prop := ∀ s ∈ hits.strings, s.IsValidUTF8

instance : DecidablePred QueryGroupHits.Valid := fun hits =>
  inferInstanceAs (Decidable (∀ s ∈ hits.strings, s.IsValidUTF8))

/-! ### Dumps -/

namespace DumpDb

variable {μ : Type} {strings : μ → List Str} {pb : Proto3 μ strings} {what key : Str}
  {m : OrdMap Str μ}

theorem getElem?_dumpsOf (m : OrdMap Str μ) (key : Str) :
    (dumpsOf pb m)[key]? = m[key]?.map pb.serialize :=
  Std.ExtTreeMap.getElem?_map

theorem dumpsOf_empty : dumpsOf pb ∅ = ∅ := by
  apply Std.ExtTreeMap.ext_getElem?
  intro key
  rw [getElem?_dumpsOf, Std.ExtTreeMap.getElem?_empty, Std.ExtTreeMap.getElem?_empty]
  rfl

theorem insert_dumpsOf (m : OrdMap Str μ) (key : Str) (v : μ) :
    (dumpsOf pb m).insert key (pb.serialize v) = dumpsOf pb (m.insert key v) := by
  apply Std.ExtTreeMap.ext_getElem?
  intro key'
  rw [OrdMap.getElem?_insert, getElem?_dumpsOf, getElem?_dumpsOf, OrdMap.getElem?_insert]
  split_ifs <;> rfl

theorem erase_dumpsOf (m : OrdMap Str μ) (key : Str) :
    (dumpsOf pb m).erase key = dumpsOf pb (m.erase key) := by
  apply Std.ExtTreeMap.ext_getElem?
  intro key'
  rw [OrdMap.getElem?_erase, getElem?_dumpsOf, getElem?_dumpsOf, OrdMap.getElem?_erase]
  split_ifs <;> rfl

theorem ofDump_serialize (what : Str) (v : μ) :
    ofDump pb what (pb.serialize v)
      = if ∀ s ∈ strings v, s.IsValidUTF8 then .ok v else .error what := by
  unfold ofDump
  rw [pb.parse_serialize]
  split_ifs <;> rfl

theorem load_dumpsOf_eq_none (h : m[key]? = none) : load what (dumpsOf pb m) key = .ok none := by
  unfold load
  rw [getElem?_dumpsOf, h]
  rfl

theorem load_dumpsOf_eq_some {v : μ} (h : m[key]? = some v) :
    load what (dumpsOf pb m) key
      = if ∀ s ∈ strings v, s.IsValidUTF8 then .ok (some v) else .error what := by
  unfold load
  rw [getElem?_dumpsOf, h]
  show (ofDump pb what (pb.serialize v)).map some = _
  rw [ofDump_serialize]
  split_ifs <;> rfl

theorem mapM_ofDump (what : Str) (l : List μ) :
    (l.mapM fun v => ofDump pb what (pb.serialize v))
      = if ∀ v ∈ l, ∀ s ∈ strings v, s.IsValidUTF8 then .ok l else .error what := by
  induction l with
  | nil => rfl
  | cons v l ih =>
    rw [List.mapM_cons, ih, ofDump_serialize]
    simp only [List.forall_mem_cons]
    by_cases hv : ∀ s ∈ strings v, s.IsValidUTF8
    · by_cases hl : ∀ v ∈ l, ∀ s ∈ strings v, s.IsValidUTF8
      · rw [if_pos hv, if_pos hl, if_pos ⟨hv, hl⟩]
        rfl
      · rw [if_pos hv, if_neg hl]
        exact (if_neg fun h => hl h.2).symm
    · rw [if_neg hv]
      exact (if_neg fun h => hv h.1).symm

/-- A scan reads all messages or none. -/
theorem scanFull_dumpsOf (what : Str) (m : OrdMap Str μ) :
    scanFull what (dumpsOf pb m)
      = if ∀ v ∈ m.toList.map Prod.snd, ∀ s ∈ strings v, s.IsValidUTF8 then
          .ok (m.toList.map Prod.snd)
        else .error what := by
  have hall : (m.toList.map Prod.snd).mapM (fun v => ofDump pb what (pb.serialize v)) = _ :=
    mapM_ofDump what _
  rw [← hall]
  unfold scanFull dumpsOf
  rw [Std.ExtTreeMap.toList_map, List.mapM_map, List.mapM_map]
  rfl

/-- What a scan gives was parsed from a stored dump. -/
theorem exists_of_mem_scanFull {db : DumpDb pb} {l : List μ} {v : μ}
    (h : scanFull what db = .ok l) (hv : v ∈ l) :
    ∃ (key : Str) (dump : pb.Dump), db[key]? = some dump ∧ pb.parse dump = some v := by
  have hmem : ∀ (entries : List (Str × pb.Dump)) (l : List μ),
      (entries.mapM fun p => ofDump pb what p.2) = .ok l → v ∈ l →
      ∃ p ∈ entries, ofDump pb what p.2 = .ok v := by
    intro entries
    induction entries with
    | nil =>
      intro l h hv
      cases h
      cases hv
    | cons p entries ih =>
      intro l h hv
      rw [List.mapM_cons] at h
      cases hp : ofDump pb what p.2 with
      | error what' =>
        rw [hp] at h
        cases h
      | ok v' =>
        cases hentries : entries.mapM fun p => ofDump pb what p.2 with
        | error what' =>
          rw [hp, hentries] at h
          cases h
        | ok l' =>
          rw [hp, hentries] at h
          cases h
          rcases List.mem_cons.mp hv with rfl | hv
          · exact ⟨p, List.mem_cons_self, hp⟩
          · obtain ⟨p', hp', hparse⟩ := ih l' hentries hv
            exact ⟨p', List.mem_cons_of_mem p hp', hparse⟩
  obtain ⟨⟨key, dump⟩, hentry, hparse⟩ := hmem db.toList l h hv
  refine ⟨key, dump, Std.ExtTreeMap.mem_toList_iff_getElem?_eq_some.mp hentry, ?_⟩
  unfold ofDump at hparse
  cases hdump : pb.parse dump with
  | none =>
    rw [hdump] at hparse
    cases hparse
  | some v' =>
    rw [hdump] at hparse
    rw [Except.ok.inj hparse]

end DumpDb

/-! ### Groups and hits -/

/-- Every stored group can be read back. -/
def QueryDbContent.Readable (content : QueryDbContent) : Prop :=
  ∀ (gid : GroupId) (qg : QueryGroup), content.qgDb[gid]? = some qg → qg.Valid

instance : DecidablePred QueryDbContent.Readable := fun content =>
  inferInstanceAs (Decidable (∀ (gid : GroupId) (qg : QueryGroup),
    content.qgDb[gid]? = some qg → _))

namespace QueryDb

variable {pb : QueryGroupPb} {pbHits : QueryGroupHitsPb} {db : QueryDb pb pbHits}
  {content : QueryDbContent} {gid : GroupId} {qg : QueryGroup} {hits : QueryGroupHits}

/-! #### What a write that is taken leaves -/

@[simp] theorem qgDb_saveQG (db : QueryDb pb pbHits) (qg : QueryGroup) :
    (db.saveQG none qg).2.qgDb = db.qgDb.insert qg.gid (pb.serialize qg) := rfl

@[simp] theorem qgHitsDb_saveQG (db : QueryDb pb pbHits) (qg : QueryGroup) :
    (db.saveQG none qg).2.qgHitsDb = db.qgHitsDb := rfl

@[simp] theorem qgDb_deleteQG (db : QueryDb pb pbHits) (gid : GroupId) :
    (db.deleteQG none gid).2.qgDb = db.qgDb.erase gid := rfl

@[simp] theorem qgHitsDb_deleteQG (db : QueryDb pb pbHits) (gid : GroupId) :
    (db.deleteQG none gid).2.qgHitsDb = db.qgHitsDb := rfl

@[simp] theorem qgDb_saveQGHits (db : QueryDb pb pbHits) (hits : QueryGroupHits) :
    (db.saveQGHits none hits).2.qgDb = db.qgDb := rfl

@[simp] theorem qgHitsDb_saveQGHits (db : QueryDb pb pbHits) (hits : QueryGroupHits) :
    (db.saveQGHits none hits).2.qgHitsDb
      = db.qgHitsDb.insert hits.gid (pbHits.serialize hits) := rfl

@[simp] theorem qgDb_deleteQGHits (db : QueryDb pb pbHits) (gid : GroupId) :
    (db.deleteQGHits none gid).2.qgDb = db.qgDb := rfl

@[simp] theorem qgHitsDb_deleteQGHits (db : QueryDb pb pbHits) (gid : GroupId) :
    (db.deleteQGHits none gid).2.qgHitsDb = db.qgHitsDb.erase gid := rfl

/-- Saving is the same before and after the messages are dumped. -/
theorem dumps_saveQG (content : QueryDbContent) (qg : QueryGroup) :
    (content.saveQG qg).dumps pb pbHits = ((content.dumps pb pbHits).saveQG none qg).2 :=
  congrArg (fun qgDb => (⟨qgDb, DumpDb.dumpsOf pbHits content.qgHitsDb⟩ : QueryDb pb pbHits))
    (DumpDb.insert_dumpsOf content.qgDb qg.gid qg).symm

theorem dumps_saveQGHits (content : QueryDbContent) (hits : QueryGroupHits) :
    (content.saveQGHits hits).dumps pb pbHits
      = ((content.dumps pb pbHits).saveQGHits none hits).2 :=
  congrArg (fun qgHitsDb => (⟨DumpDb.dumpsOf pb content.qgDb, qgHitsDb⟩ : QueryDb pb pbHits))
    (DumpDb.insert_dumpsOf content.qgHitsDb hits.gid hits).symm

/-! #### What is read -/

/-- The scan of the groups gives them all, or throws for one that it cannot read. -/
theorem getAllQG_dumps (pb : QueryGroupPb) (pbHits : QueryGroupHitsPb) (content : QueryDbContent) :
    (content.Readable ∧
        (content.dumps pb pbHits).getAllQG = .ok (content.qgDb.toList.map Prod.snd)) ∨
      (¬ content.Readable ∧
        (content.dumps pb pbHits).getAllQG
          = .error (Str.ofString "QueryGroup::QueryGroup parsing")) := by
  have hvalid : (∀ qg ∈ content.qgDb.toList.map Prod.snd, qg.Valid) ↔ content.Readable := by
    unfold QueryDbContent.Readable
    rw [OrdMap.forall_getElem?_iff, List.forall_mem_map]
  have hscan : (content.dumps pb pbHits).getAllQG = if _ then _ else _ :=
    DumpDb.scanFull_dumpsOf (Str.ofString "QueryGroup::QueryGroup parsing") content.qgDb
  by_cases h : content.Readable
  · exact Or.inl ⟨h, hscan.trans (if_pos (hvalid.mpr h))⟩
  · exact Or.inr ⟨h, hscan.trans (if_neg (mt hvalid.mp h))⟩

/-- What can be read of hits that were dumped. -/
theorem exists_loadQGHits_iff {o : Option QueryGroupHits}
    (h : db.qgHitsDb[gid]? = o.map pbHits.serialize) {P : QueryGroupHits → Prop} :
    (∃ hits, db.loadQGHits gid = .ok hits ∧ P (hits.getD default)) ↔
      (∀ hits ∈ o, hits.Valid) ∧ P (o.getD default) := by
  unfold loadQGHits DumpDb.load
  rw [h]
  cases o with
  | none => simp
  | some hits =>
    simp only [Option.map_some, DumpDb.ofDump_serialize, Option.getD_some, Option.mem_def,
      Option.some.injEq, forall_eq']
    by_cases hvalid : hits.Valid
    · have hstrings : ∀ s ∈ hits.strings, s.IsValidUTF8 := hvalid
      rw [if_pos hstrings, and_iff_right hvalid]
      constructor
      · rintro ⟨hits', hok, hP⟩
        cases hok
        exact hP
      · exact fun hP => ⟨some hits, rfl, hP⟩
    · have hstrings : ¬ ∀ s ∈ hits.strings, s.IsValidUTF8 := hvalid
      rw [if_neg hstrings]
      exact iff_of_false (fun ⟨_, hok, _⟩ => nomatch hok) fun h => hvalid h.1

/-! #### Ids -/

/-- Where a group can be parsed, it stands under its own id. -/
def Keyed (db : QueryDb pb pbHits) : Prop :=
  ∀ (gid : GroupId) (dump : pb.Dump) (qg : QueryGroup),
    db.qgDb[gid]? = some dump → pb.parse dump = some qg → qg.gid = gid

theorem eq_of_parse_serialize {m : QueryGroup} (h : pb.parse (pb.serialize m) = some qg) :
    qg = m := by
  rw [pb.parse_serialize] at h
  split_ifs at h
  exact (Option.some.inj h).symm

theorem keyed_dumps (content : QueryDbContent) : (content.dumps pb pbHits).Keyed := by
  intro gid dump qg hdump hparse
  have hget : (DumpDb.dumpsOf pb content.qgDb)[gid]? = some dump := hdump
  rw [DumpDb.getElem?_dumpsOf] at hget
  obtain ⟨qg', hqg', rfl⟩ := Option.map_eq_some_iff.mp hget
  rw [eq_of_parse_serialize hparse]
  exact content.keyed gid qg' hqg'

theorem Keyed.saveQG (h : db.Keyed) (qg : QueryGroup) : (db.saveQG none qg).2.Keyed := by
  intro gid dump qg' hdump hparse
  rw [qgDb_saveQG, OrdMap.getElem?_insert] at hdump
  split_ifs at hdump with hgid
  · cases hdump
    rw [eq_of_parse_serialize hparse]
    exact hgid
  · exact h gid dump qg' hdump hparse

theorem Keyed.deleteQG (h : db.Keyed) (gid : GroupId) : (db.deleteQG none gid).2.Keyed := by
  intro gid' dump qg hdump hparse
  rw [qgDb_deleteQG, OrdMap.getElem?_erase] at hdump
  split_ifs at hdump
  exact h gid' dump qg hdump hparse

/-- The groups that are read are stored. -/
theorem Keyed.getElem?_ne_none (h : db.Keyed) {qgs : List QueryGroup}
    (hqgs : db.getAllQG = .ok qgs) (hqg : qg ∈ qgs) : db.qgDb[qg.gid]? ≠ none := by
  obtain ⟨gid, dump, hdump, hparse⟩ := DumpDb.exists_of_mem_scanFull hqgs hqg
  rw [h gid dump qg hdump hparse, hdump]
  exact Option.some_ne_none dump

end QueryDb

end Contentv1
