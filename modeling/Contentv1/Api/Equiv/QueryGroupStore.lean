import Contentv1.Api.QueryGroupStore
import Contentv1.Ldb.Equiv.QueryDb
import Contentv1.Lib.Machine

/-!
# Whether stored groups can be read back

JSON takes strings of any bytes, and a protocol buffer is written with them, but parsed only if they
are UTF-8.  So a group that was stored may be one that cannot be loaded, and one such group is
enough for the scan of all groups to throw.

* `loadQG_eq_ok_iff` and `getAllQG_eq_ok`: what is read where all strings are valid.
* `along_readsBack_iff_meets_readable`: all along a run everything stored can be read back exactly
  when every group that is accepted has valid strings.
-/

namespace Contentv1.QueryGroupStore

open APIv1

variable {pb : QueryGroupPb} {pbHits : QueryGroupHitsPb} {reader : JsonReader}
  {s t : State pb pbHits}

/-- Every stored group is loaded as it was decoded, and the scan gives one group for each stored
id. -/
def ReadsBack (s : State pb pbHits) : Prop :=
  (∀ (gid : GroupId) (qg : QueryGroup), s.groups[gid]? = some qg →
      s.db.loadQG gid = .ok (some qg)) ∧
    ∃ qgs, s.db.getAllQG = .ok qgs ∧ qgs.map QueryGroup.gid = s.db.qgDb.keys

/-- A group that the request makes the handler store has valid strings. -/
def Readable (reader : JsonReader) : Label → Prop
  | .setQueryGroup req => ∀ qg, QueryGroup.fromJson reader req.body = .ok qg → qg.Valid
  | .deleteQueryGroup _ => True

/-! ### Steps -/

/-- What is on disk are the dumps of the groups decoded, each under its own id. -/
structure Dumped (s : State pb pbHits) : Prop where
  db : s.db.qgDb = DumpDb.dumpsOf pb s.groups
  keyed : ∀ (gid : GroupId) (qg : QueryGroup), s.groups[gid]? = some qg → qg.gid = gid

/-- What a request stores. -/
theorem step_setQueryGroup (reader : JsonReader) (s : State pb pbHits) (req : APIRequest) :
    step reader s (.setQueryGroup req)
      = match QueryGroup.fromJson reader req.body with
        | .error _ => some s
        | .ok qg => some ⟨(s.db.saveQG none qg).2, s.groups.insert qg.gid qg⟩ := by
  unfold step hdlSetQueryGroup QueryGroup.fromJson
  dsimp only
  cases reader req.body with
  | error what => rfl
  | ok parsed =>
    cases parsed with
    | none => rfl
    | some js =>
      dsimp only
      cases QueryGroup.fromJsonValue js <;> rfl

theorem step_deleteQueryGroup (reader : JsonReader) (s : State pb pbHits) (req : APIRequest) :
    step reader s (.deleteQueryGroup req)
      = match req.params.lookup (Str.ofString "gid") with
        | none => some s
        | some gid =>
          some ⟨((s.db.deleteQG none gid).2.deleteQGHits none gid).2, s.groups.erase gid⟩ := by
  unfold step hdlDeleteQueryGroup
  dsimp only
  cases req.params.lookup (Str.ofString "gid") <;> rfl

theorem dumped_init (pb : QueryGroupPb) (pbHits : QueryGroupHitsPb) :
    Dumped (.init pb pbHits) where
  db := DumpDb.dumpsOf_empty.symm
  keyed := by
    intro gid qg h
    cases Std.ExtTreeMap.getElem?_empty.symm.trans h

theorem dumped_saveQG (hs : Dumped s) (qg : QueryGroup) :
    Dumped (⟨(s.db.saveQG none qg).2, s.groups.insert qg.gid qg⟩ : State pb pbHits) where
  db := by
    show s.db.qgDb.insert qg.gid (pb.serialize qg) = _
    rw [hs.db, DumpDb.insert_dumpsOf]
  keyed := by
    intro gid qg' h
    rw [OrdMap.getElem?_insert] at h
    split_ifs at h with hgid
    · rw [← Option.some.inj h, hgid]
    · exact hs.keyed gid qg' h

theorem dumped_deleteQG (hs : Dumped s) (gid : GroupId) :
    Dumped (⟨((s.db.deleteQG none gid).2.deleteQGHits none gid).2, s.groups.erase gid⟩ :
      State pb pbHits) where
  db := by
    show s.db.qgDb.erase gid = _
    rw [hs.db, DumpDb.erase_dumpsOf]
  keyed := by
    intro gid' qg h
    rw [OrdMap.getElem?_erase] at h
    split_ifs at h
    exact hs.keyed gid' qg h

theorem dumped_step {label : Label} (h : step reader s label = some t) (hs : Dumped s) :
    Dumped t := by
  cases label with
  | setQueryGroup req =>
    rw [step_setQueryGroup] at h
    cases hjson : QueryGroup.fromJson reader req.body with
    | error what =>
      rw [hjson] at h
      exact Option.some.inj h ▸ hs
    | ok qg =>
      rw [hjson] at h
      exact Option.some.inj h ▸ dumped_saveQG hs qg
  | deleteQueryGroup req =>
    rw [step_deleteQueryGroup] at h
    cases hgid : req.params.lookup (Str.ofString "gid") with
    | none =>
      rw [hgid] at h
      exact Option.some.inj h ▸ hs
    | some gid =>
      rw [hgid] at h
      exact Option.some.inj h ▸ dumped_deleteQG hs gid

/-! ### Reading -/

theorem loadQG_eq_ok_iff (hs : Dumped s) {gid : GroupId} {qg : QueryGroup}
    (hqg : s.groups[gid]? = some qg) : s.db.loadQG gid = .ok (some qg) ↔ qg.Valid := by
  unfold QueryDb.loadQG
  rw [hs.db, DumpDb.load_dumpsOf_eq_some hqg]
  constructor
  · intro h
    split_ifs at h with hvalid
    exact hvalid
  · exact fun hvalid => if_pos hvalid

/-- Where every group is valid, the scan gives the groups as they were decoded. -/
theorem getAllQG_eq_ok (hs : Dumped s)
    (hvalid : ∀ (gid : GroupId) (qg : QueryGroup), s.groups[gid]? = some qg → qg.Valid) :
    s.db.getAllQG = .ok (s.groups.toList.map Prod.snd) := by
  unfold QueryDb.getAllQG
  rw [hs.db, DumpDb.scanFull_dumpsOf, if_pos]
  intro qg hqg
  exact hvalid qg.gid qg ((OrdMap.mem_map_snd_toList_iff hs.keyed).mp hqg)

/-- The groups that were decoded have the stored ids, each once. -/
theorem map_gid_groups (hs : Dumped s) :
    (s.groups.toList.map Prod.snd).map QueryGroup.gid = s.db.qgDb.keys := by
  rw [hs.db, DumpDb.dumpsOf, Std.ExtTreeMap.keys_map, ← Std.ExtTreeMap.map_fst_toList_eq_keys,
    List.map_map]
  apply List.map_congr_left
  rintro ⟨gid, qg⟩ hmem
  exact hs.keyed gid qg (Std.ExtTreeMap.mem_toList_iff_getElem?_eq_some.mp hmem)

theorem readsBack_iff (hs : Dumped s) :
    ReadsBack s ↔ ∀ (gid : GroupId) (qg : QueryGroup), s.groups[gid]? = some qg → qg.Valid := by
  constructor
  · rintro ⟨hload, -⟩ gid qg hqg
    exact (loadQG_eq_ok_iff hs hqg).mp (hload gid qg hqg)
  · intro hvalid
    refine ⟨fun gid qg hqg => (loadQG_eq_ok_iff hs hqg).mpr (hvalid gid qg hqg), ?_⟩
    exact ⟨_, getAllQG_eq_ok hs hvalid, map_gid_groups hs⟩

/-! ### Runs -/

/-- **One request** leaves what is stored readable exactly when it is readable itself. -/
theorem readsBack_step_iff {label : Label} (h : step reader s label = some t) (hs : Dumped s)
    (hback : ReadsBack s) : ReadsBack t ↔ Readable reader label := by
  have ht := dumped_step h hs
  rw [readsBack_iff hs] at hback
  rw [readsBack_iff ht]
  cases label with
  | setQueryGroup req =>
    rw [step_setQueryGroup] at h
    unfold Readable
    cases hjson : QueryGroup.fromJson reader req.body with
    | error what =>
      rw [hjson] at h
      obtain rfl := Option.some.inj h
      exact iff_of_true hback fun qg h => nomatch hjson.symm.trans h
    | ok qg =>
      rw [hjson] at h
      obtain rfl := Option.some.inj h
      simp only [OrdMap.getElem?_insert]
      constructor
      · intro hvalid qg' heq
        obtain rfl := Except.ok.inj (hjson.symm.trans heq)
        exact hvalid qg.gid qg (if_pos rfl)
      · intro hvalid gid qg' hget
        split_ifs at hget with hgid
        · exact Option.some.inj hget ▸ hvalid qg hjson
        · exact hback gid qg' hget
  | deleteQueryGroup req =>
    rw [step_deleteQueryGroup] at h
    refine iff_of_true ?_ trivial
    cases hgid : req.params.lookup (Str.ofString "gid") with
    | none =>
      rw [hgid] at h
      exact Option.some.inj h ▸ hback
    | some gid =>
      rw [hgid] at h
      obtain rfl := Option.some.inj h
      simp only [OrdMap.getElem?_erase]
      intro gid' qg hget
      split_ifs at hget
      exact hback gid' qg hget

theorem exists_run_step (reader : JsonReader) (s : State pb pbHits) (labels : List Label) :
    ∃ t, Machine.run (step reader) s labels = some t := by
  induction labels generalizing s with
  | nil => exact ⟨s, rfl⟩
  | cons label labels ih =>
    have hstep : ∃ u, step reader s label = some u := by
      cases label with
      | setQueryGroup req =>
        rw [step_setQueryGroup]
        cases QueryGroup.fromJson reader req.body <;> exact ⟨_, rfl⟩
      | deleteQueryGroup req =>
        rw [step_deleteQueryGroup]
        cases req.params.lookup (Str.ofString "gid") <;> exact ⟨_, rfl⟩
    obtain ⟨u, hu⟩ := hstep
    obtain ⟨t, ht⟩ := ih u
    exact ⟨t, Machine.run_cons_eq_some.mpr ⟨u, hu, ht⟩⟩

/-- **What can be read back.**  After every request, each stored group can be loaded and the scan
gives one group for each stored id, exactly in the runs in which every accepted group has valid
strings. -/
theorem along_readsBack_iff_meets_readable (pb : QueryGroupPb) (pbHits : QueryGroupHitsPb)
    (reader : JsonReader) (labels : List Label) :
    Machine.Along (step reader) ReadsBack (.init pb pbHits) labels ↔
      Machine.Meets (step reader) (fun _ label => Readable reader label) (.init pb pbHits)
        labels := by
  obtain ⟨t, hrun⟩ := exists_run_step reader (.init pb pbHits) labels
  refine Machine.along_iff_meets (I := Dumped) (fun _ _ _ h hs => dumped_step h hs)
    (fun _ _ _ h hs hback => readsBack_step_iff h hs hback) hrun (dumped_init pb pbHits) ?_
  refine (readsBack_iff (dumped_init pb pbHits)).mpr fun gid qg h => ?_
  cases Std.ExtTreeMap.getElem?_empty.symm.trans h

/-- A group whose id is one byte above ASCII. -/
def latinGid : QueryGroup := ⟨.ofBytes [233], []⟩

/-- The parser on the JSON text of that group and on nothing else. -/
def latinReader : JsonReader := fun mess =>
  if mess = Str.ofString "\x7b\"gid\":\"" ++ latinGid.gid ++ Str.ofString "\"\x7d" then
    .ok (some (.object [(Str.ofString "gid", .string latinGid.gid)]))
  else .ok none

/-- The group is accepted and cannot be loaded after that. -/
theorem not_along_readsBack_latinGid :
    ¬ Machine.Along (step latinReader) ReadsBack
      (.init (.plain QueryGroup.strings) (.plain QueryGroupHits.strings))
      [.setQueryGroup ⟨[], Str.ofString "\x7b\"gid\":\"" ++ latinGid.gid ++ Str.ofString "\"\x7d",
        []⟩] := by
  intro h
  have hload := ((h.2 _ rfl).head : ReadsBack _).1 latinGid.gid latinGid (by decide)
  exact absurd hload (by decide)

end Contentv1.QueryGroupStore
