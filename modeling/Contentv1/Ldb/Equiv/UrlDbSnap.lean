import Contentv1.Ldb.UrlDbPolicy
import Contentv1.Ldb.UrlDbSnap
import Contentv1.Ldb.Equiv.UrlDb

/-!
# A restart changes no decision

The attempts are kept in memory with the time points of `std::chrono` and written as whole seconds,
so nothing is lost only because every attempt is rounded where it enters a list.

* `CrawlAttempts.Stored`: what is true of every stored list (`keeps_setEnqueued`,
  `keeps_onFetched`), and of these `ofDump` gives back what was dumped.
* `Running.Invariant`: every key in LevelDB is one in memory, so that a snapshot overwrites all
  entries of the earlier ones.
* `restart_keeps_decisions`: what is loaded decides as the original does, at every time.
-/

namespace Contentv1

variable {misc : MiscTime} {pb : CrawlAttemptsPb}

namespace CrawlAttempts

/-- The attempts are at whole seconds, and there are some. -/
structure Stored (misc : MiscTime) (ca : CrawlAttempts) : Prop where
  rounded : ∀ a ∈ ca.attempts, ∃ t, a.tp = misc.roundSecs t
  ne_nil : ca.attempts ≠ []

theorem stored_add {ca : CrawlAttempts} (h : ∀ a ∈ ca.attempts, ∃ t, a.tp = misc.roundSecs t)
    (tp : ℤ) : (ca.add misc tp).2.Stored misc := by
  obtain ⟨k, hk⟩ := ca.attempts_add misc tp
  constructor
  · intro a ha
    rw [hk] at ha
    rcases List.mem_append.mp ha with ha | ha
    · exact h a (List.mem_of_mem_drop ha)
    · rw [List.mem_singleton.mp ha]
      exact ⟨tp, rfl⟩
  · rw [hk]
    exact List.append_ne_nil_of_right_ne_nil _ (List.cons_ne_nil _ _)

theorem stored_add_default (tp : ℤ) : ((default : CrawlAttempts).add misc tp).2.Stored misc :=
  stored_add (fun _ ha => absurd ha List.not_mem_nil) tp

/-- A list with an attempt takes a status, and its time points stay what they are. -/
theorem Stored.setLastStatus {ca : CrawlAttempts} (h : ca.Stored misc) (status : AttemptStatus) :
    ∃ ca', ca.setLastStatus status = some ca' ∧ ca'.Stored misc := by
  obtain hnil | ⟨init, last, hconcat⟩ := ca.attempts.eq_nil_or_concat'
  · exact absurd hnil h.ne_nil
  · have hset : ca.setLastStatus status = some ⟨init ++ [{ last with status := status }]⟩ :=
      setLastStatus_eq_some.mpr ⟨init, last, hconcat, rfl⟩
    refine ⟨_, hset, fun a ha => ?_, List.append_ne_nil_of_right_ne_nil _ (List.cons_ne_nil _ _)⟩
    have hrounded := h.rounded
    rw [hconcat] at hrounded
    rcases List.mem_append.mp ha with ha | ha
    · exact hrounded a (List.mem_append_left _ ha)
    · rw [List.mem_singleton.mp ha]
      exact hrounded last (List.mem_append_right _ (List.mem_singleton_self last))

/-- **Losslessness.**  Of what is at whole seconds a dump loses nothing. -/
theorem Stored.ofDump_dump (hsecs : misc.SecsReadBack) {ca : CrawlAttempts}
    (h : ca.Stored misc) : ofDump misc pb (ca.dump misc pb) = .ok ca := by
  unfold ofDump dump
  rw [pb.parse_serialize_of_valid fun s hs => absurd hs List.not_mem_nil]
  show Except.ok (CrawlAttempts.mk _) = _
  rw [List.map_map]
  congr 2
  calc ca.attempts.map _ = ca.attempts.map id := List.map_congr_left fun a ha => ?_
    _ = ca.attempts := List.map_id _
  obtain ⟨t, ht⟩ := h.rounded a ha
  show CrawlAttempt.mk (misc.fromInt64 (misc.toInt64 a.tp)) a.status = a
  rw [ht, hsecs t, ← ht]

end CrawlAttempts

namespace UrlDb

variable {db db' db'' : UrlDb}

def AllStored (misc : MiscTime) (db : UrlDb) : Prop :=
  ∀ (url : Url) (ca : CrawlAttempts), db.urlCrawlAttempts[url]? = some ca → ca.Stored misc

/-- What every change of the attempts keeps: the keys, and what is true of the lists. -/
structure Keeps (misc : MiscTime) (db db' : UrlDb) : Prop where
  keys : ∀ url : Url, db'.urlCrawlAttempts[url]? = none → db.urlCrawlAttempts[url]? = none
  stored : db.AllStored misc → db'.AllStored misc

theorem Keeps.refl (db : UrlDb) : Keeps misc db db := ⟨fun _ h => h, id⟩

theorem Keeps.trans (h : Keeps misc db db') (h' : Keeps misc db' db'') : Keeps misc db db'' :=
  ⟨fun url hurl => h.keys url (h'.keys url hurl), fun hs => h'.stored (h.stored hs)⟩

/-- Writing the list of one URL. -/
theorem keeps_write {url : Url} {ca : CrawlAttempts}
    (hget : ∀ url' : Url, db'.urlCrawlAttempts[url']?
      = if url = url' then some ca else db.urlCrawlAttempts[url']?)
    (hca : db.AllStored misc → ca.Stored misc) : Keeps misc db db' := by
  constructor
  · intro url' hnone
    rw [hget] at hnone
    split_ifs at hnone
    exact hnone
  · intro hs
    exact OrdMap.forall_of_write hs (hca hs) hget

theorem keeps_setEnqueuedUrl (db : UrlDb) (url : Url) (now : ℤ) :
    Keeps misc db (db.setEnqueuedUrl misc url now) := by
  refine keeps_write (fun url' => OrdMap.getElem?_alter _ url url' _) fun hs => ?_
  cases hurl : db.urlCrawlAttempts[url]? with
  | none => exact CrawlAttempts.stored_add_default now
  | some ca => exact CrawlAttempts.stored_add (hs url ca hurl).rounded now

theorem keeps_setEnqueued (db : UrlDb) (urls : List Url) (now : ℤ) :
    Keeps misc db (db.setEnqueued misc urls now) :=
  setEnqueued_induction (fun db' url h => h.trans (keeps_setEnqueuedUrl db' url now)) urls
    (Keeps.refl db)

/-- `getLast` finds an attempt. -/
theorem exists_setStatus (hs : db.AllStored misc) (res : FetchResult) (now : ℤ) :
    ∃ db', db.setStatus misc res now = some db' ∧ Keeps misc db db' := by
  have hstored : (db.urlCrawlAttempts[res.gfq.url]?.getD
      ((default : CrawlAttempts).add misc now).2).Stored misc := by
    cases hurl : db.urlCrawlAttempts[res.gfq.url]? with
    | none => exact CrawlAttempts.stored_add_default now
    | some ca => exact hs res.gfq.url ca hurl
  obtain ⟨ca', hset, hca'⟩ := hstored.setLastStatus res.status
  refine ⟨⟨db.urlCrawlAttempts.insert res.gfq.url ca'⟩, ?_, ?_⟩
  · show Option.map _ (CrawlAttempts.setLastStatus _ _) = _
    rw [hset]
    rfl
  · exact keeps_write (fun url' => OrdMap.getElem?_insert _ _ url' ca') fun _ => hca'

/-- **No exception**: the results of a call are all written. -/
theorem exists_onFetched (hs : db.AllStored misc) (results : List FetchResult) (now : ℤ) :
    ∃ db', db.onFetched misc results now = some db' ∧ Keeps misc db db' := by
  unfold onFetched
  induction results generalizing db with
  | nil => exact ⟨db, rfl, Keeps.refl db⟩
  | cons res results ih =>
    obtain ⟨db₁, h₁, hkeeps₁⟩ := exists_setStatus hs res now
    obtain ⟨db₂, h₂, hkeeps₂⟩ := ih (hkeeps₁.stored hs)
    refine ⟨db₂, ?_, hkeeps₁.trans hkeeps₂⟩
    rw [List.foldlM_cons, h₁]
    exact h₂

theorem keeps_onFetched (hs : db.AllStored misc) {results : List FetchResult} {now : ℤ}
    (h : db.onFetched misc results now = some db') : Keeps misc db db' := by
  obtain ⟨db₁, h₁, hkeeps⟩ := exists_onFetched hs results now
  obtain rfl := Option.some.inj (h₁.symm.trans h)
  exact hkeeps

/-! ### Snapshots -/

theorem getElem?_putAttempts (attemptsDb : OrdMap Url pb.Dump) (p : Url × CrawlAttempts)
    (url : Url) :
    (putAttempts misc pb attemptsDb p)[url]?
      = if p.1 = url then some (p.2.dump misc pb) else attemptsDb[url]? :=
  OrdMap.getElem?_insert attemptsDb p.1 url _

/-- Where memory has all the keys, a snapshot leaves nothing of the earlier ones. -/
theorem snapData_eq_map {attemptsDb : OrdMap Url pb.Dump}
    (hkeys : ∀ url : Url, db.urlCrawlAttempts[url]? = none → attemptsDb[url]? = none)
    {localCopy : List (Url × CrawlAttempts)}
    (hcopy : localCopy.Perm db.urlCrawlAttempts.toList) :
    snapData misc pb attemptsDb localCopy
      = db.urlCrawlAttempts.map fun _ ca => ca.dump misc pb := by
  have hloc : OrdMap.LocalAt (putAttempts misc pb) fun _ ca _ => some (ca.dump misc pb) :=
    getElem?_putAttempts
  apply Std.ExtTreeMap.ext_getElem?
  intro url
  unfold snapData
  rw [OrdMap.getElem?_foldl_perm hloc hcopy, Std.ExtTreeMap.getElem?_map]
  cases hurl : db.urlCrawlAttempts[url]? with
  | none => rw [Option.elim_none, hkeys url hurl, Option.map_none]
  | some ca => rfl

/-- Loading dumps that can all be parsed. -/
theorem foldlM_ofDump_dump (hsecs : misc.SecsReadBack) {l : List (Url × CrawlAttempts)}
    (hl : ∀ p ∈ l, p.2.Stored misc) (m : OrdMap Url CrawlAttempts) :
    l.foldlM (fun m p => do
        let attempts ← CrawlAttempts.ofDump misc pb (p.2.dump misc pb)
        pure (m.insert p.1 attempts)) m
      = .ok (l.foldl (fun m p => m.insert p.1 p.2) m) := by
  induction l generalizing m with
  | nil => rfl
  | cons p l ih =>
    rw [List.foldlM_cons, (hl p List.mem_cons_self).ofDump_dump hsecs]
    exact ih (fun q hq => hl q (List.mem_cons_of_mem p hq)) _

/-- **Round trip.**  What was written is loaded as it was. -/
theorem loadCrawlAttempts_snapData (hsecs : misc.SecsReadBack) (hs : db.AllStored misc)
    {attemptsDb : OrdMap Url pb.Dump}
    (hkeys : ∀ url : Url, db.urlCrawlAttempts[url]? = none → attemptsDb[url]? = none)
    {localCopy : List (Url × CrawlAttempts)}
    (hcopy : localCopy.Perm db.urlCrawlAttempts.toList) :
    loadCrawlAttempts misc pb (snapData misc pb attemptsDb localCopy) = .ok db := by
  have hl : ∀ p ∈ db.urlCrawlAttempts.toList, p.2.Stored misc := fun p hp =>
    hs p.1 p.2 (Std.ExtTreeMap.mem_toList_iff_getElem?_eq_some.mp hp)
  unfold loadCrawlAttempts
  rw [snapData_eq_map hkeys hcopy, Std.ExtTreeMap.toList_map, List.foldlM_map,
    foldlM_ofDump_dump hsecs hl, OrdMap.foldl_insert_perm (List.Perm.refl _)]
  rfl

/-! ### Runs -/

/-- What holds between any two steps. -/
structure Running.Invariant (misc : MiscTime) (s : Running pb) : Prop where
  stored : s.urlDb.AllStored misc
  db : ∀ url : Url, s.urlDb.urlCrawlAttempts[url]? = none → s.attemptsDb[url]? = none
  snap : ∀ localCopy, s.snapTh = some localCopy →
    ∀ p ∈ localCopy, s.urlDb.urlCrawlAttempts[p.1]? ≠ none

theorem invariant_init : (Running.init pb).Invariant misc where
  stored url ca h := by
    rw [show (Running.init pb).urlDb.urlCrawlAttempts[url]? = none from
      Std.ExtTreeMap.getElem?_empty] at h
    cases h
  db url _ := Std.ExtTreeMap.getElem?_empty
  snap := nofun

variable {s t : Running pb}

/-- A change in memory. -/
theorem Running.Invariant.change (hs : s.Invariant misc) (h : Keeps misc s.urlDb db) :
    ({ s with urlDb := db } : Running pb).Invariant misc where
  stored := h.stored hs.stored
  db url hurl := hs.db url (h.keys url hurl)
  snap localCopy hcopy p hp hnone := hs.snap localCopy hcopy p hp (h.keys p.1 hnone)

theorem invariant_snapStep (hsecs : misc.SecsReadBack) (a : SnapLabel)
    (h : snapStep misc pb s a = some t) (hs : s.Invariant misc) : t.Invariant misc := by
  cases a with
  | setEnqueued urls now =>
    obtain rfl := Option.some.inj h
    exact hs.change (keeps_setEnqueued s.urlDb urls now)
  | onFetched results now =>
    obtain ⟨db, hdb, rfl⟩ := Option.map_eq_some_iff.mp h
    exact hs.change (keeps_onFetched hs.stored hdb)
  | snapCopy localCopy =>
    rw [snapStep] at h
    split_ifs at h with hcopy
    obtain rfl := Option.some.inj h
    refine ⟨hs.stored, hs.db, ?_⟩
    rintro localCopy' heq p hp hnone
    obtain rfl := Option.some.inj heq
    have hmem := (OrdMap.mem_perm_iff hcopy.2 (k := p.1) (v := p.2)).mp hp
    rw [hnone] at hmem
    cases hmem
  | snapPut =>
    obtain ⟨urlDb, attemptsDb, snapTh⟩ := s
    rcases snapTh with _ | ⟨_ | ⟨p, localCopy⟩⟩
    · cases h
    · obtain rfl := Option.some.inj h
      exact ⟨hs.stored, hs.db, nofun⟩
    · obtain rfl := Option.some.inj h
      refine ⟨hs.stored, fun url hurl => ?_, ?_⟩
      · have hne : p.1 ≠ url := by
          rintro rfl
          exact hs.snap _ rfl p List.mem_cons_self hurl
        show (putAttempts misc pb attemptsDb p)[url]? = none
        rw [getElem?_putAttempts, if_neg hne]
        exact hs.db url hurl
      · rintro localCopy' heq q hq
        obtain rfl := Option.some.inj heq
        exact hs.snap _ rfl q (List.mem_cons_of_mem p hq)
  | restart localCopy =>
    rw [snapStep] at h
    split_ifs at h with hcopy
    have hload : loadCrawlAttempts misc pb (snapData misc pb s.attemptsDb localCopy)
        = .ok s.urlDb := loadCrawlAttempts_snapData hsecs hs.stored hs.db hcopy.2
    dsimp only at h
    rw [hload] at h
    obtain rfl := Option.some.inj h
    refine ⟨hs.stored, fun url hurl => ?_, nofun⟩
    show (snapData misc pb s.attemptsDb localCopy)[url]? = none
    rw [snapData_eq_map hs.db hcopy.2, Std.ExtTreeMap.getElem?_map,
      show s.urlDb.urlCrawlAttempts[url]? = none from hurl, Option.map_none]

theorem invariant_of_run (hsecs : misc.SecsReadBack) {l : List SnapLabel}
    (hrun : Machine.run (snapStep misc pb) (.init pb) l = some s) : s.Invariant misc :=
  Machine.run_induction (fun _ a _ h hs => invariant_snapStep hsecs a h hs) hrun invariant_init

/-- **A restart changes no decision.**  Whatever came in and whatever earlier snapshots have
written, what is loaded after a snapshot has the same attempts and decides alike at every time. -/
theorem restart_keeps_decisions (misc : MiscTime) (hsecs : misc.SecsReadBack)
    (pb : CrawlAttemptsPb) {l : List SnapLabel} {s : Running pb}
    (hrun : Machine.run (snapStep misc pb) (.init pb) l = some s)
    {localCopy : List (Url × CrawlAttempts)}
    (hcopy : localCopy.Perm s.urlDb.urlCrawlAttempts.toList) :
    ∃ loaded, loadCrawlAttempts misc pb (snapData misc pb s.attemptsDb localCopy) = .ok loaded ∧
      ∀ url, loaded.getAttempts url = s.urlDb.getAttempts url ∧
        ∀ now, loaded.isNeedCrawl url now = s.urlDb.isNeedCrawl url now ∧
          loaded.isNeedCrawlRobots url now = s.urlDb.isNeedCrawlRobots url now := by
  have hs := invariant_of_run hsecs hrun
  exact ⟨s.urlDb, loadCrawlAttempts_snapData hsecs hs.stored hs.db hcopy,
    fun url => ⟨rfl, fun now => ⟨rfl, rfl⟩⟩⟩

/-- A page is enqueued half a second after the epoch, a snapshot is taken of it while its result
and that of another page come in. -/
def halfSecond : List SnapLabel :=
  [.setEnqueued [Str.ofString "http://a/"] (ticksPerSec / 2),
    .snapCopy [(Str.ofString "http://a/", ⟨[⟨0, .enqueued⟩]⟩)],
    .onFetched [⟨⟨Str.ofString "http://a/", 0⟩, .s4xx, default, default⟩,
      ⟨⟨Str.ofString "http://b/", 0⟩, .ok, default, default⟩] (days 1 + 1),
    .snapPut]

theorem restart_keeps_decisions_halfSecond :
    ∃ s, Machine.run (snapStep .nearEpoch (.plain _)) (.init _) halfSecond = some s ∧
      ∃ loaded, loadCrawlAttempts .nearEpoch (.plain _) (snapData .nearEpoch (.plain _)
          s.attemptsDb s.urlDb.urlCrawlAttempts.toList) = .ok loaded ∧
        ∀ url, loaded.getAttempts url = s.urlDb.getAttempts url ∧
          ∀ now, loaded.isNeedCrawl url now = s.urlDb.isNeedCrawl url now ∧
            loaded.isNeedCrawlRobots url now = s.urlDb.isNeedCrawlRobots url now := by
  have hrun : (Machine.run (snapStep .nearEpoch (.plain _)) (.init _) halfSecond).isSome := by
    decide
  refine ⟨_, (Option.some_get hrun).symm, ?_⟩
  exact restart_keeps_decisions .nearEpoch MiscTime.secsReadBack_nearEpoch (.plain _)
    (Option.some_get hrun).symm (List.Perm.refl _)

end UrlDb

end Contentv1
