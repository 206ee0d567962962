import Contentv1.Ldb.UrlDbCrash
import Contentv1.Ldb.Equiv.UrlDbSnap
import Contentv1.Lib.Snapshot

/-!
# What a crash of `UrlDb` loses

LevelDB is at any moment between two snapshots (`Lib/Snapshot.lean`), of which the earlier one is
complete.  `crash_goes_back`: whatever was on its way when the process was killed, the next start
finds for each URL the attempts of one of the two, so that a crash loses no more than what came
after the last complete snapshot.
-/

namespace Contentv1.UrlDb

open Snapshot

variable {misc : MiscTime} {pb : CrawlAttemptsPb} {db db' : UrlDb} {url : Url}

/-- The dumps of all attempts. -/
def dumps (misc : MiscTime) (pb : CrawlAttemptsPb) (db : UrlDb) : OrdMap Url pb.Dump :=
  db.urlCrawlAttempts.map fun _ ca => ca.dump misc pb

theorem getElem?_dumps (db : UrlDb) (url : Url) :
    (db.dumps misc pb)[url]? = (db.getAttempts url).map fun ca => ca.dump misc pb :=
  Std.ExtTreeMap.getElem?_map

theorem getElem?_dumps_eq_none_iff :
    (db.dumps misc pb)[url]? = none ↔ db.getAttempts url = none := by
  rw [getElem?_dumps, Option.map_eq_none_iff]

theorem dumps_default : (default : UrlDb).dumps misc pb = ∅ := by
  apply Std.ExtTreeMap.ext_getElem?
  intro url
  have hnone : (default : UrlDb).getAttempts url = none := Std.ExtTreeMap.getElem?_empty
  rw [getElem?_dumps, hnone, Std.ExtTreeMap.getElem?_empty]
  rfl

/-- Attempts with the same dumps are the same. -/
theorem getAttempts_eq_of_dumps (hsecs : misc.SecsReadBack) (hdb : db.AllStored misc)
    (hdb' : db'.AllStored misc) (h : (db.dumps misc pb)[url]? = (db'.dumps misc pb)[url]?) :
    db.getAttempts url = db'.getAttempts url := by
  rw [getElem?_dumps, getElem?_dumps] at h
  cases hca : db.getAttempts url with
  | none =>
    rw [hca, Option.map_none] at h
    exact (Option.map_eq_none_iff.mp h.symm).symm
  | some ca =>
    rw [hca, Option.map_some] at h
    obtain ⟨ca', hca', hdump⟩ := Option.map_eq_some_iff.mp h.symm
    have hback : CrawlAttempts.ofDump misc pb (ca'.dump misc pb) = .ok ca' :=
      (hdb' url ca' hca').ofDump_dump hsecs
    rw [hdump, (hdb url ca hca).ofDump_dump hsecs] at hback
    rw [hca', Except.ok.inj hback]

/-- Where LevelDB has the dumps of some attempts, these are loaded. -/
theorem loadCrawlAttempts_dumps (hsecs : misc.SecsReadBack) (hdb : db.AllStored misc) :
    loadCrawlAttempts misc pb (db.dumps misc pb) = .ok db := by
  have hkeys : ∀ url : Url, db.urlCrawlAttempts[url]? = none → (db.dumps misc pb)[url]? = none :=
    fun url h => getElem?_dumps_eq_none_iff.mpr h
  have hload : loadCrawlAttempts misc pb (snapData misc pb (db.dumps misc pb) _) = .ok db :=
    loadCrawlAttempts_snapData hsecs hdb hkeys (List.Perm.refl _)
  rwa [snapData_eq_map hkeys (List.Perm.refl _)] at hload

/-- A store on its way between the dumps of two databases has the dumps of a third. -/
theorem exists_dumps_of_between (hsecs : misc.SecsReadBack) {base copy : UrlDb}
    (hbase : base.AllStored misc) (hcopy : copy.AllStored misc) {todo : List Url}
    {attemptsDb : OrdMap Url pb.Dump}
    (h : Between (base.dumps misc pb) (copy.dumps misc pb) todo attemptsDb) :
    ∃ loaded : UrlDb, loaded.AllStored misc ∧ attemptsDb = loaded.dumps misc pb := by
  have hstored : ∀ (url : Url) (dump : pb.Dump), attemptsDb[url]? = some dump →
      ∃ ca : CrawlAttempts, ca.Stored misc ∧ ca.dump misc pb = dump := by
    intro url dump hdump
    rcases h.getElem?_or url with hget | hget
    · rw [hget, getElem?_dumps] at hdump
      obtain ⟨ca, hca, heq⟩ := Option.map_eq_some_iff.mp hdump
      exact ⟨ca, hbase url ca hca, heq⟩
    · rw [hget, getElem?_dumps] at hdump
      obtain ⟨ca, hca, heq⟩ := Option.map_eq_some_iff.mp hdump
      exact ⟨ca, hcopy url ca hca, heq⟩
  let read (dump : pb.Dump) : CrawlAttempts :=
    (CrawlAttempts.ofDump misc pb dump).toOption.getD default
  have hread : ∀ ca : CrawlAttempts, ca.Stored misc → read (ca.dump misc pb) = ca := by
    intro ca hca
    show (CrawlAttempts.ofDump misc pb (ca.dump misc pb)).toOption.getD default = ca
    rw [hca.ofDump_dump hsecs]
    rfl
  have hget : ∀ url : Url, (attemptsDb.map fun _ dump => read dump)[url]?
      = attemptsDb[url]?.map read := fun url => Std.ExtTreeMap.getElem?_map
  refine ⟨⟨attemptsDb.map fun _ dump => read dump⟩, fun url ca hca => ?_, ?_⟩
  · obtain ⟨dump, hdump, rfl⟩ := Option.map_eq_some_iff.mp ((hget url).symm.trans hca)
    obtain ⟨ca, hstore, rfl⟩ := hstored url dump hdump
    rwa [hread ca hstore]
  · apply Std.ExtTreeMap.ext_getElem?
    intro url
    rw [getElem?_dumps]
    show _ = Option.map _ (attemptsDb.map fun _ dump => read dump)[url]?
    rw [hget url]
    cases hdump : attemptsDb[url]? with
    | none => rfl
    | some dump =>
      obtain ⟨ca, hca, rfl⟩ := hstored url dump hdump
      rw [Option.map_some, Option.map_some, hread ca hca]

/-! ### Runs -/

/-- What holds between any two steps.  Where no snapshot is on its way, LevelDB has the last
complete one. -/
structure Watched.Invariant (misc : MiscTime) (s : Watched pb) : Prop where
  running : s.running.Invariant misc
  base : s.base.AllStored misc
  copy : ∀ copy ∈ s.copy, copy.AllStored misc
  /-- No URL of the base is missing in a later copy. -/
  keys : ∀ copy ∈ s.copy, ∀ url, copy.getAttempts url = none → s.base.getAttempts url = none
  todo : ∀ localCopy ∈ s.running.snapTh, (localCopy.map Prod.fst).Nodup ∧
    ∃ copy ∈ s.copy, ∀ p ∈ localCopy, copy.getAttempts p.1 = some p.2
  between : Between (s.base.dumps misc pb) ((s.copy.getD s.base).dumps misc pb)
    ((s.running.snapTh.getD []).map Prod.fst) s.running.attemptsDb
  idle : s.running.snapTh = none → s.copy = none

variable {s t : Watched pb}

theorem watched_init (misc : MiscTime) (pb : CrawlAttemptsPb) :
    (Watched.init pb).Invariant misc where
  running := invariant_init
  base := (invariant_init : (Running.init pb).Invariant misc).stored
  copy := nofun
  keys := nofun
  todo := nofun
  between := by
    show Between (UrlDb.dumps misc pb default) (UrlDb.dumps misc pb default) [] ∅
    rw [dumps_default]
    exact between_self ∅
  idle _ := rfl

/-- After a start LevelDB has what was loaded. -/
theorem watched_started {attemptsDb : OrdMap Url pb.Dump} (hdb : db.AllStored misc)
    (hdumps : attemptsDb = db.dumps misc pb) :
    (⟨⟨db, attemptsDb, none⟩, db, none⟩ : Watched pb).Invariant misc where
  running :=
    { stored := hdb
      db := fun _ h => hdumps ▸ getElem?_dumps_eq_none_iff.mpr h
      snap := nofun }
  base := hdb
  copy := nofun
  keys := nofun
  todo := nofun
  between := hdumps ▸ between_self _
  idle _ := rfl

theorem Watched.Invariant.op (hsecs : misc.SecsReadBack) (hs : s.Invariant misc) {a : SnapLabel}
    {t : Running pb} (h : snapStep misc pb s.running a = some t) :
    (s.follow t a).Invariant misc := by
  have ht : t.Invariant misc := invariant_snapStep hsecs a h hs.running
  cases a with
  | setEnqueued urls now =>
    obtain rfl := Option.some.inj h
    exact { hs with running := ht }
  | onFetched results now =>
    obtain ⟨db, -, rfl⟩ := Option.map_eq_some_iff.mp h
    exact { hs with running := ht }
  | snapCopy localCopy =>
    rw [snapStep] at h
    split_ifs at h with hcopy
    obtain rfl := Option.some.inj h
    obtain ⟨hidle, hperm⟩ := hcopy
    have hdone : s.running.attemptsDb = s.base.dumps misc pb := by
      have hbetween := hs.between
      rw [hidle, hs.idle hidle] at hbetween
      exact hbetween.done
    have hkeys : ∀ url, s.running.urlDb.getAttempts url = none → s.base.getAttempts url = none := by
      intro url hnone
      have hdb := hs.running.db url hnone
      rw [hdone] at hdb
      exact getElem?_dumps_eq_none_iff.mp hdb
    refine
      { running := ht
        base := hs.base
        copy := ?_
        keys := ?_
        todo := ?_
        between := ?_
        idle := by
          intro hidle'
          cases hidle' }
    · rintro _ ⟨⟩
      exact hs.running.stored
    · rintro _ ⟨⟩
      exact hkeys
    · rintro _ ⟨⟩
      exact ⟨OrdMap.nodup_map_fst_of_perm hperm, _, rfl, fun p hp =>
        (OrdMap.mem_perm_iff hperm).mp hp⟩
    · show Between (s.base.dumps misc pb) (s.running.urlDb.dumps misc pb)
        (localCopy.map Prod.fst) s.running.attemptsDb
      rw [hdone]
      refine between_start (fun url hnone => ?_) fun url hnot => ?_
      · exact getElem?_dumps_eq_none_iff.mpr (hkeys url (getElem?_dumps_eq_none_iff.mp hnone))
      · rw [getElem?_dumps_eq_none_iff]
        by_contra hsome
        obtain ⟨ca, hca⟩ := Option.ne_none_iff_exists'.mp hsome
        exact hnot (List.mem_map.mpr ⟨(url, ca), (OrdMap.mem_perm_iff hperm).mpr hca, rfl⟩)
  | snapPut =>
    obtain ⟨⟨urlDb, attemptsDb, snapTh⟩, base, copy⟩ := s
    rcases snapTh with _ | ⟨_ | ⟨p, localCopy⟩⟩
    · cases h
    · -- the last entry was written before
      obtain rfl := Option.some.inj h
      obtain ⟨-, copy, rfl, -⟩ := hs.todo [] rfl
      have hdone : attemptsDb = copy.dumps misc pb := hs.between.done
      refine
        { running := ht
          base := hs.copy copy rfl
          copy := by
            intro _ hmem
            cases hmem
          keys := by
            intro _ hmem
            cases hmem
          todo := by
            intro _ hmem
            cases hmem
          between := ?_
          idle := fun _ => rfl }
      show Between (copy.dumps misc pb) (copy.dumps misc pb) [] attemptsDb
      exact hdone ▸ between_self _
    · obtain rfl := Option.some.inj h
      obtain ⟨hnodup, copy, rfl, hcopy⟩ := hs.todo _ rfl
      obtain ⟨hp, hnodup⟩ := List.nodup_cons.mp hnodup
      refine
        { running := ht
          base := hs.base
          copy := hs.copy
          keys := hs.keys
          todo := ?_
          between := ?_
          idle := by
            intro hidle
            cases hidle }
      · rintro _ ⟨⟩
        exact ⟨hnodup, copy, rfl, fun q hq => hcopy q (List.mem_cons_of_mem p hq)⟩
      · refine Between.put hs.between hp ?_
        show (copy.dumps misc pb)[p.1]? = _
        rw [getElem?_dumps, hcopy p List.mem_cons_self, Option.map_some]
  | restart localCopy =>
    rw [snapStep] at h
    split_ifs at h with hcopy
    have hload : loadCrawlAttempts misc pb (snapData misc pb _ localCopy) = .ok _ :=
      loadCrawlAttempts_snapData hsecs hs.running.stored hs.running.db hcopy.2
    dsimp only at h
    rw [hload] at h
    obtain rfl := Option.some.inj h
    exact watched_started hs.running.stored (snapData_eq_map hs.running.db hcopy.2)

/-- What a crash finds is one of two snapshots for each URL. -/
theorem Watched.Invariant.load (hsecs : misc.SecsReadBack) (hs : s.Invariant misc) :
    ∃ loaded : UrlDb, loadCrawlAttempts misc pb s.running.attemptsDb = .ok loaded ∧
      loaded.AllStored misc ∧ s.running.attemptsDb = loaded.dumps misc pb ∧
      ∀ url, loaded.getAttempts url = s.base.getAttempts url ∨
        loaded.getAttempts url = (s.copy.getD s.base).getAttempts url := by
  have hcopy : (s.copy.getD s.base).AllStored misc := by
    cases hc : s.copy with
    | none => exact hs.base
    | some copy => exact hs.copy copy hc
  obtain ⟨loaded, hloaded, hdumps⟩ := exists_dumps_of_between hsecs hs.base hcopy hs.between
  refine ⟨loaded, hdumps ▸ loadCrawlAttempts_dumps hsecs hloaded, hloaded, hdumps, fun url => ?_⟩
  have hbetween := hs.between
  rw [hdumps] at hbetween
  exact (hbetween.getElem?_or url).imp (getAttempts_eq_of_dumps hsecs hloaded hs.base)
    (getAttempts_eq_of_dumps hsecs hloaded hcopy)

theorem watched_crashStep (hsecs : misc.SecsReadBack) {a : CrashLabel}
    (h : crashStep misc pb s a = some t) (hs : s.Invariant misc) : t.Invariant misc := by
  cases a with
  | op a =>
    obtain ⟨t, ht, rfl⟩ := Option.map_eq_some_iff.mp h
    exact hs.op hsecs ht
  | crash =>
    obtain ⟨loaded, hload, hstored, hdumps, -⟩ := hs.load hsecs
    unfold crashStep at h
    rw [hload] at h
    obtain rfl := Option.some.inj h
    exact watched_started hstored hdumps

/-- **What a crash loses.**  At any moment of any run, crashes before it included, the next start
after a crash would load for each URL the attempts of the last complete snapshot or those of the
snapshot on its way, and it would miss no URL of the former. -/
theorem crash_goes_back (misc : MiscTime) (hsecs : misc.SecsReadBack) (pb : CrawlAttemptsPb)
    {l : List CrashLabel} {s : Watched pb}
    (hrun : Machine.run (crashStep misc pb) (.init pb) l = some s) :
    ∃ loaded, loadCrawlAttempts misc pb s.running.attemptsDb = .ok loaded ∧
      ∀ url, (loaded.getAttempts url = s.base.getAttempts url ∨
          ∃ copy, s.copy = some copy ∧ loaded.getAttempts url = copy.getAttempts url) ∧
        (loaded.getAttempts url = none → s.base.getAttempts url = none) := by
  have hs : s.Invariant misc :=
    Machine.run_induction (fun _ _ _ h hs => watched_crashStep hsecs h hs) hrun
      (watched_init misc pb)
  obtain ⟨loaded, hload, -, -, hor⟩ := hs.load hsecs
  refine ⟨loaded, hload, fun url => ?_⟩
  cases hc : s.copy with
  | none =>
    have hbase : loaded.getAttempts url = s.base.getAttempts url := by
      have hurl := hor url
      rw [hc] at hurl
      exact hurl.elim id id
    exact ⟨Or.inl hbase, fun hnone => hbase ▸ hnone⟩
  | some copy =>
    have hurl := hor url
    rw [hc] at hurl
    refine ⟨hurl.imp_right fun h => ⟨copy, rfl, h⟩, fun hnone => ?_⟩
    rcases hurl with hurl | hurl
    · exact hurl ▸ hnone
    · exact hs.keys copy hc url (hurl ▸ hnone)

/-- The process is killed when one of two entries of its second snapshot is written. -/
def halfWritten : List CrashLabel :=
  [.op (.setEnqueued [Str.ofString "http://a/", Str.ofString "http://b/"] 0),
    .op (.snapCopy [(Str.ofString "http://a/", ⟨[⟨0, .enqueued⟩]⟩),
      (Str.ofString "http://b/", ⟨[⟨0, .enqueued⟩]⟩)]),
    .op .snapPut, .op .snapPut, .op .snapPut,
    .op (.onFetched [⟨⟨Str.ofString "http://a/", 0⟩, .ok, default, default⟩,
      ⟨⟨Str.ofString "http://b/", 0⟩, .ok, default, default⟩] 1),
    .op (.snapCopy [(Str.ofString "http://a/", ⟨[⟨0, .ok⟩]⟩),
      (Str.ofString "http://b/", ⟨[⟨0, .ok⟩]⟩)]),
    .op .snapPut]

theorem crash_goes_back_halfWritten :
    ∃ s, Machine.run (crashStep .nearEpoch (.plain _)) (.init _) halfWritten = some s ∧
      ∃ loaded, loadCrawlAttempts .nearEpoch (.plain _) s.running.attemptsDb = .ok loaded ∧
        ∀ url, (loaded.getAttempts url = s.base.getAttempts url ∨
            ∃ copy, s.copy = some copy ∧ loaded.getAttempts url = copy.getAttempts url) ∧
          (loaded.getAttempts url = none → s.base.getAttempts url = none) := by
  have hrun : (Machine.run (crashStep .nearEpoch (.plain _)) (.init _) halfWritten).isSome := by
    decide
  refine ⟨_, (Option.some_get hrun).symm, ?_⟩
  exact crash_goes_back .nearEpoch MiscTime.secsReadBack_nearEpoch (.plain _)
    (Option.some_get hrun).symm

end Contentv1.UrlDb
