import Contentv1.Ldb.UrlsDaysDbCrash
import Contentv1.Ldb.Equiv.UrlsDaysDb
import Contentv1.Lib.Snapshot

/-!
# What a crash of `UrlsDaysDb` loses

The merge thread never touches LevelDB, so what a killed process leaves there lies between two
snapshots (`Lib/Snapshot.lean`), of which the earlier one is complete.  `urlsDays_crash`: the next
start finds for each URL the days of one of the two, with all that was merged before the copy was
taken and nothing that was merged after it.
-/

namespace Contentv1.UrlsDaysDb

open Snapshot

variable {misc : MiscTime} {ud ud' : UrlsLastDays} {url : Url}

/-- The dumps of all entries. -/
def dumps (ud : UrlsLastDays) : OrdMap Url UrlDaysPb := ud.urlsDays.map fun _ impl => impl.dump

theorem getElem?_dumps (ud : UrlsLastDays) (url : Url) :
    (dumps ud)[url]? = ud.urlsDays[url]?.map UrlDaysImpl.dump :=
  Std.ExtTreeMap.getElem?_map

theorem getElem?_dumps_eq_none_iff : (dumps ud)[url]? = none ↔ ud.urlsDays[url]? = none := by
  rw [getElem?_dumps, Option.map_eq_none_iff]

/-- A dump is read back from LevelDB. -/
theorem map_ofDump_dumps (ud : UrlsLastDays) (url : Url) :
    (dumps ud)[url]?.map UrlDaysImpl.ofDump = ud.urlsDays[url]? := by
  rw [getElem?_dumps]
  cases ud.urlsDays[url]? with
  | none => rfl
  | some impl => exact congrArg some impl.ofDump_dump

/-- A complete snapshot leaves the dumps of its copy where LevelDB had no other keys. -/
theorem saveSnapshot_eq_dumps {db : OrdMap Url UrlDaysPb} (h : Covers ud.urlsDays db) :
    saveSnapshot db ud = dumps ud := by
  apply Std.ExtTreeMap.ext_getElem?
  intro url
  rw [getElem?_saveSnapshot, getElem?_dumps]
  cases hurl : ud.urlsDays[url]? with
  | none => rw [Option.elim_none, Option.map_none, h url hurl]
  | some impl => rfl

theorem loadSnapshot_dumps (ud : UrlsLastDays) : loadSnapshot (dumps ud) = ud := by
  have hmap : (loadSnapshot (dumps ud)).urlsDays = ud.urlsDays := by
    apply Std.ExtTreeMap.ext_getElem?
    intro url
    rw [getElem?_loadSnapshot, map_ofDump_dumps]
  exact congrArg UrlsDays.mk hmap

/-- Between two snapshots LevelDB has dumps only: those of what it is loaded as. -/
theorem dumps_loadSnapshot_of_between {todo : List Url} {db : OrdMap Url UrlDaysPb}
    (h : Between (dumps ud) (dumps ud') todo db) : dumps (loadSnapshot db) = db := by
  apply Std.ExtTreeMap.ext_getElem?
  intro url
  rw [getElem?_dumps, getElem?_loadSnapshot]
  rcases h.getElem?_or url with hget | hget <;>
  · rw [hget, map_ofDump_dumps, getElem?_dumps]

/-- What is loaded for a URL is what one of the two snapshots has copied. -/
theorem getElem?_loadSnapshot_of_between {todo : List Url} {db : OrdMap Url UrlDaysPb}
    (h : Between (dumps ud) (dumps ud') todo db) (url : Url) :
    (loadSnapshot db).urlsDays[url]? = ud.urlsDays[url]? ∨
      (loadSnapshot db).urlsDays[url]? = ud'.urlsDays[url]? := by
  rw [getElem?_loadSnapshot]
  rcases h.getElem?_or url with hget | hget
  · exact Or.inl (hget ▸ map_ofDump_dumps ud url)
  · exact Or.inr (hget ▸ map_ofDump_dumps ud' url)

/-! ### Runs -/

/-- What holds between any two steps.  Where no snapshot is on its way, LevelDB has the last
complete one. -/
structure Saved.Invariant (misc : MiscTime) (s : Saved) : Prop where
  running : UrlsDaysDb.Invariant misc s.running
  /-- No URL of the base is missing in a later copy. -/
  keys : ∀ copy ∈ s.copy, Covers copy.urlsDays s.base.urlsDays
  todo : ∀ p ∈ s.running.snapTh,
    p.2.Nodup ∧ s.copy = some p.1 ∧ ∀ url ∈ p.2, p.1.urlsDays[url]? ≠ none
  between : Between (dumps s.base) (dumps (s.copy.getD s.base))
    ((s.running.snapTh.map Prod.snd).getD []) s.running.db
  idle : s.running.snapTh = none → s.copy = none

variable {s t : Saved}

/-- After a start LevelDB has what was loaded. -/
theorem saved_start (misc : MiscTime) {db : OrdMap Url UrlDaysPb}
    (hdb : dumps (loadSnapshot db) = db) : (Saved.start db).Invariant misc where
  running := invariant_openDb
  keys := nofun
  todo := nofun
  between := by
    show Between (dumps (loadSnapshot db)) (dumps (loadSnapshot db)) [] db
    rw [hdb]
    exact between_self db
  idle _ := rfl

theorem saved_start_empty (misc : MiscTime) : (Saved.start ∅).Invariant misc := by
  apply saved_start
  apply Std.ExtTreeMap.ext_getElem?
  intro url
  rw [getElem?_dumps, getElem?_loadSnapshot, Std.ExtTreeMap.getElem?_empty]
  rfl

/-- A step that leaves the snapshot thread and LevelDB alone. -/
theorem Saved.Invariant.frame {r : State} (hs : s.Invariant misc)
    (hr : UrlsDaysDb.Invariant misc r) (hsnap : r.snapTh = s.running.snapTh)
    (hdb : r.db = s.running.db) : (⟨r, s.base, s.copy⟩ : Saved).Invariant misc where
  running := hr
  keys := hs.keys
  todo := fun p hp => hs.todo p (hsnap ▸ hp)
  between := by
    show Between _ _ ((r.snapTh.map Prod.snd).getD []) r.db
    rw [hsnap, hdb]
    exact hs.between
  idle := fun hnone => hs.idle (hsnap ▸ hnone)

theorem Saved.Invariant.op (hs : s.Invariant misc) {a : Label} {r : State}
    (h : step misc s.running a = some r) : (s.follow r a).Invariant misc := by
  have hr : UrlsDaysDb.Invariant misc r := invariant_step a h hs.running
  cases a with
  | save utp =>
    obtain rfl := step_save.mp h
    exact hs.frame hr rfl rfl
  | mergeStart =>
    obtain ⟨-, rfl⟩ := step_mergeStart.mp h
    exact hs.frame hr rfl rfl
  | tryDequeue i now =>
    obtain ⟨upd, utp, -, -, rfl⟩ := step_tryDequeue.mp h
    exact hs.frame hr rfl rfl
  | drained =>
    obtain ⟨upd, -, -, rfl⟩ := step_drained.mp h
    exact hs.frame hr rfl rfl
  | copy =>
    obtain ⟨upd, -, rfl⟩ := step_copy.mp h
    exact hs.frame hr rfl rfl
  | mergeLocal now =>
    obtain ⟨upd, copy, -, rfl⟩ := step_mergeLocal.mp h
    exact hs.frame hr rfl rfl
  | switch =>
    obtain ⟨upd, copy, -, rfl⟩ := step_switch.mp h
    exact hs.frame hr rfl rfl
  | snapCopy keys =>
    obtain ⟨hidle, hperm, rfl⟩ := step_snapCopy.mp h
    have hdone : s.running.db = dumps s.base := by
      have hbetween := hs.between
      rw [hidle, hs.idle hidle] at hbetween
      exact hbetween.done
    have hkeys : Covers s.running.urlsDays.urlsDays s.base.urlsDays := by
      intro url hnone
      have hdb := hs.running.db url hnone
      rw [hdone] at hdb
      exact getElem?_dumps_eq_none_iff.mp hdb
    have hmem : ∀ url : Url, url ∈ keys ↔ s.running.urlsDays.urlsDays[url]? ≠ none := by
      intro url
      rw [hperm.mem_iff, Std.ExtTreeMap.mem_keys, Std.ExtTreeMap.mem_iff_isSome_getElem?,
        Option.isSome_iff_ne_none]
    refine
      { running := hr
        keys := ?_
        todo := ?_
        between := ?_
        idle := nofun }
    · rintro _ ⟨⟩
      exact hkeys
    · rintro _ ⟨⟩
      exact ⟨hperm.nodup_iff.mpr Std.ExtTreeMap.nodup_keys, rfl, fun url h => (hmem url).mp h⟩
    · show Between (dumps s.base) (dumps s.running.urlsDays) keys s.running.db
      rw [hdone]
      refine between_start (fun url hnone => ?_) fun url hnot => ?_
      · exact getElem?_dumps_eq_none_iff.mpr (hkeys url (getElem?_dumps_eq_none_iff.mp hnone))
      · rw [getElem?_dumps_eq_none_iff]
        by_contra hsome
        exact hnot ((hmem url).mpr hsome)
  | snapPut =>
    obtain ⟨running, base, copy⟩ := s
    rcases step_snapPut.mp h with ⟨ud, hsnap, rfl⟩ | ⟨ud, key, keys, hsnap, rfl⟩
    · -- the last entry was written before
      obtain ⟨-, rfl, -⟩ := hs.todo _ hsnap
      have hbetween := hs.between
      rw [hsnap] at hbetween
      refine
        { running := hr
          keys := nofun
          todo := nofun
          between := ?_
          idle := fun _ => rfl }
      show Between (dumps ud) (dumps ud) [] running.db
      rw [hbetween.done]
      exact between_self _
    · obtain ⟨hnodup, rfl, hmem⟩ := hs.todo _ hsnap
      obtain ⟨hkey, hnodup⟩ := List.nodup_cons.mp hnodup
      obtain ⟨impl, himpl⟩ := Option.ne_none_iff_exists'.mp (hmem key List.mem_cons_self)
      have hbetween := hs.between
      rw [hsnap] at hbetween
      refine
        { running := hr
          keys := hs.keys
          todo := ?_
          between := ?_
          idle := nofun }
      · rintro _ ⟨⟩
        exact ⟨hnodup, rfl, fun url h => hmem url (List.mem_cons_of_mem key h)⟩
      · show Between (dumps base) (dumps ud) keys (ud.urlsDays[key]?.elim running.db _)
        rw [himpl, Option.elim_some]
        refine Between.put hbetween hkey ?_
        show (dumps ud)[key]? = _
        rw [getElem?_dumps, himpl, Option.map_some]
  | reopen =>
    obtain ⟨-, -, -, rfl⟩ := step_reopen.mp h
    show (Saved.start (saveSnapshot s.running.db s.running.urlsDays)).Invariant misc
    rw [saveSnapshot_eq_dumps hs.running.db]
    exact saved_start misc (congrArg dumps (loadSnapshot_dumps _))

theorem saved_crashStep {a : CrashLabel} (h : crashStep misc s a = some t)
    (hs : s.Invariant misc) : t.Invariant misc := by
  cases a with
  | op a =>
    obtain ⟨r, hr, rfl⟩ := Option.map_eq_some_iff.mp h
    exact hs.op hr
  | crash =>
    obtain rfl := Option.some.inj h
    exact saved_start misc (dumps_loadSnapshot_of_between hs.between)

/-- **What a crash loses.**  At any moment of any run, crashes before it included, a crash goes back
for each URL to the days of the last complete snapshot or to those of the snapshot on its way, and
it loses no URL of the former. -/
theorem urlsDays_crash {l : List CrashLabel} {s : Saved}
    (hrun : Machine.run (crashStep misc) (.start ∅) l = some s) :
    ∃ t, crashStep misc s .crash = some t ∧
      ∀ url : Url, (t.running.urlsDays.urlsDays[url]? = s.base.urlsDays[url]? ∨
          ∃ copy, s.copy = some copy ∧
            t.running.urlsDays.urlsDays[url]? = copy.urlsDays[url]?) ∧
        (t.running.urlsDays.urlsDays[url]? = none → s.base.urlsDays[url]? = none) := by
  have hs : s.Invariant misc :=
    Machine.run_induction (fun _ _ _ h hs => saved_crashStep h hs) hrun
      (saved_start_empty misc)
  refine ⟨_, rfl, fun url => ?_⟩
  show ((loadSnapshot s.running.db).urlsDays[url]? = _ ∨
    ∃ copy, s.copy = some copy ∧ (loadSnapshot s.running.db).urlsDays[url]? = _) ∧ (_ → _)
  have hor := getElem?_loadSnapshot_of_between hs.between url
  cases hc : s.copy with
  | none =>
    rw [hc] at hor
    have hbase := hor.elim id id
    exact ⟨Or.inl hbase, fun hnone => hbase ▸ hnone⟩
  | some copy =>
    rw [hc] at hor
    refine ⟨hor.imp_right fun h => ⟨copy, rfl, h⟩, fun hnone => ?_⟩
    rcases hor with hor | hor
    · exact hor ▸ hnone
    · exact hs.keys copy hc url (hor ▸ hnone)

/-- The process is killed when its second snapshot has written none of its entries. -/
def mergedAgain : List CrashLabel :=
  [.op (.save ⟨Str.ofString "http://a/", 0, 2⟩), .op .mergeStart, .op (.tryDequeue 0 0),
    .op .drained, .op .copy, .op (.mergeLocal 0), .op .switch,
    .op (.snapCopy [Str.ofString "http://a/"]), .op .snapPut, .op .snapPut,
    .op (.save ⟨Str.ofString "http://a/", 0, 3⟩), .op .mergeStart, .op (.tryDequeue 0 0),
    .op .drained, .op .copy, .op (.mergeLocal 0), .op .switch,
    .op (.snapCopy [Str.ofString "http://a/"])]

theorem urlsDays_crash_mergedAgain :
    ∃ s, Machine.run (crashStep .nearEpoch) (.start ∅) mergedAgain = some s ∧
      ∃ t, crashStep .nearEpoch s .crash = some t ∧
        ∀ url : Url, (t.running.urlsDays.urlsDays[url]? = s.base.urlsDays[url]? ∨
            ∃ copy, s.copy = some copy ∧
              t.running.urlsDays.urlsDays[url]? = copy.urlsDays[url]?) ∧
          (t.running.urlsDays.urlsDays[url]? = none → s.base.urlsDays[url]? = none) := by
  have hrun : (Machine.run (crashStep .nearEpoch) (.start ∅) mergedAgain).isSome := by decide
  exact ⟨_, (Option.some_get hrun).symm, urlsDays_crash (Option.some_get hrun).symm⟩

end Contentv1.UrlsDaysDb
