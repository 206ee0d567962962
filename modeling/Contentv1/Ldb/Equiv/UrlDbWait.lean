import Contentv1.Ldb.Equiv.UrlDbPolicy
import Contentv1.Ldb.UrlDbSnap

/-!
# No URL is blocked for good

Each policy is a threshold on the age of the last attempt, and no wait is longer than 512 hours: of
ten attempts at most nine are counted as failures.  That no list is longer than ten is an invariant
of runs, restarts included (`Running.Bounded`), for a restart loads what was stored.
-/

namespace Contentv1.UrlDb

variable {misc : MiscTime} {pb : CrawlAttemptsPb} {db db' : UrlDb} {url : Url}

/-! ### At most ten attempts -/

/-- No list has more than ten attempts. -/
def Short (lists : OrdMap Url CrawlAttempts) : Prop :=
  ∀ (url : Url) (ca : CrawlAttempts), lists[url]? = some ca →
    ca.attempts.length ≤ CrawlAttempts.lastStoreAttempts

theorem Short.write {lists lists' : OrdMap Url CrawlAttempts} (h : Short lists) {url : Url}
    {ca : CrawlAttempts} (hca : ca.attempts.length ≤ CrawlAttempts.lastStoreAttempts)
    (hget : ∀ url' : Url, lists'[url']? = if url = url' then some ca else lists[url']?) :
    Short lists' :=
  OrdMap.forall_of_write h hca hget

theorem short_setEnqueued (h : Short db.urlCrawlAttempts) (urls : List Url) (now : ℤ) :
    Short (db.setEnqueued misc urls now).urlCrawlAttempts := by
  refine setEnqueued_induction (P := fun db => Short db.urlCrawlAttempts) (fun db url hdb => ?_)
    urls h
  exact hdb.write (CrawlAttempts.length_attempts_add_le misc _ now) fun url' =>
    OrdMap.getElem?_alter _ url url' _

theorem short_setStatus (h : Short db.urlCrawlAttempts) {res : FetchResult} {now : ℤ}
    (hdb : db.setStatus misc res now = some db') : Short db'.urlCrawlAttempts := by
  obtain ⟨ca, hca, rfl⟩ := Option.map_eq_some_iff.mp hdb
  obtain ⟨init, last, hbefore, hafter⟩ := CrawlAttempts.setLastStatus_eq_some.mp hca
  -- the list is as long as before
  have hlen : ca.attempts.length
      = (db.urlCrawlAttempts[res.gfq.url]?.getD
          ((default : CrawlAttempts).add misc now).2).attempts.length := by
    rw [hafter, hbefore, List.length_append, List.length_append]
    rfl
  have hle : ca.attempts.length ≤ CrawlAttempts.lastStoreAttempts := by
    rw [hlen]
    cases hurl : db.urlCrawlAttempts[res.gfq.url]? with
    | none => exact CrawlAttempts.length_attempts_add_le misc default now
    | some old => exact h _ old hurl
  exact h.write hle fun url' => OrdMap.getElem?_insert _ _ url' ca

theorem short_onFetched (h : Short db.urlCrawlAttempts) {results : List FetchResult} {now : ℤ}
    (hdb : db.onFetched misc results now = some db') : Short db'.urlCrawlAttempts :=
  onFetched_induction (P := fun db => Short db.urlCrawlAttempts)
    (fun _ _ _ h₁ hold => short_setStatus hold h₁) hdb h

/-! ### Snapshots -/

/-- The dump of a list of at most ten attempts. -/
def ShortDump (misc : MiscTime) (pb : CrawlAttemptsPb) (dump : pb.Dump) : Prop :=
  ∃ ca : CrawlAttempts, dump = ca.dump misc pb ∧
    ca.attempts.length ≤ CrawlAttempts.lastStoreAttempts

/-- A list is as long when it is read as it was when it was written. -/
theorem ShortDump.length_le {dump : pb.Dump} (h : ShortDump misc pb dump) {ca : CrawlAttempts}
    (hca : CrawlAttempts.ofDump misc pb dump = .ok ca) :
    ca.attempts.length ≤ CrawlAttempts.lastStoreAttempts := by
  obtain ⟨written, rfl, hlen⟩ := h
  unfold CrawlAttempts.ofDump CrawlAttempts.dump at hca
  rw [pb.parse_serialize_of_valid fun s hs => absurd hs List.not_mem_nil] at hca
  obtain rfl := Except.ok.inj hca
  rw [List.length_map, List.length_map]
  exact hlen

theorem short_load {l : List (Url × pb.Dump)} (hl : ∀ p ∈ l, ShortDump misc pb p.2)
    {lists lists' : OrdMap Url CrawlAttempts} (h : Short lists)
    (hload : l.foldlM (fun (lists : OrdMap Url CrawlAttempts) p => do
        let attempts ← CrawlAttempts.ofDump misc pb p.2
        pure (lists.insert p.1 attempts)) lists = .ok lists') : Short lists' := by
  induction l generalizing lists with
  | nil =>
    obtain rfl := Except.ok.inj hload
    exact h
  | cons p l ih =>
    rw [List.foldlM_cons] at hload
    cases hdump : CrawlAttempts.ofDump misc pb p.2 with
    | error text =>
      rw [hdump] at hload
      cases hload
    | ok ca =>
      rw [hdump] at hload
      have hca := (hl p List.mem_cons_self).length_le hdump
      refine ih (fun q hq => hl q (List.mem_cons_of_mem p hq)) ?_ hload
      exact h.write hca fun url' => OrdMap.getElem?_insert _ p.1 url' ca

/-- What is loaded is no longer than what was written. -/
theorem short_loadCrawlAttempts {attemptsDb : OrdMap Url pb.Dump}
    (h : ∀ (url : Url) (dump : pb.Dump), attemptsDb[url]? = some dump → ShortDump misc pb dump)
    (hload : loadCrawlAttempts misc pb attemptsDb = .ok db) : Short db.urlCrawlAttempts := by
  have hl : ∀ p ∈ attemptsDb.toList, ShortDump misc pb p.2 := fun p hp =>
    h p.1 p.2 (Std.ExtTreeMap.mem_toList_iff_getElem?_eq_some.mp hp)
  have hempty : Short ∅ := by
    intro url ca hsome
    rw [Std.ExtTreeMap.getElem?_empty] at hsome
    cases hsome
  unfold loadCrawlAttempts at hload
  cases hlists : attemptsDb.toList.foldlM (fun (lists : OrdMap Url CrawlAttempts) p => do
      let attempts ← CrawlAttempts.ofDump misc pb p.2
      pure (lists.insert p.1 attempts)) ∅ with
  | error text =>
    rw [hlists] at hload
    cases hload
  | ok lists =>
    rw [hlists] at hload
    obtain rfl := Except.ok.inj hload
    exact short_load hl hempty hlists

/-- No list anywhere has more than ten attempts. -/
structure Running.Bounded (misc : MiscTime) (s : Running pb) : Prop where
  memory : Short s.urlDb.urlCrawlAttempts
  db : ∀ (url : Url) (dump : pb.Dump), s.attemptsDb[url]? = some dump → ShortDump misc pb dump
  snap : ∀ localCopy, s.snapTh = some localCopy →
    ∀ p ∈ localCopy, p.2.attempts.length ≤ CrawlAttempts.lastStoreAttempts

theorem bounded_init : (Running.init pb).Bounded misc where
  memory url ca h := by
    rw [show (Running.init pb).urlDb.urlCrawlAttempts[url]? = none from
      Std.ExtTreeMap.getElem?_empty] at h
    cases h
  db url dump h := by
    rw [show (Running.init pb).attemptsDb[url]? = none from Std.ExtTreeMap.getElem?_empty] at h
    cases h
  snap := nofun

theorem Short.of_perm (h : Short db.urlCrawlAttempts) {localCopy : List (Url × CrawlAttempts)}
    (hcopy : localCopy.Perm db.urlCrawlAttempts.toList) :
    ∀ p ∈ localCopy, p.2.attempts.length ≤ CrawlAttempts.lastStoreAttempts :=
  fun p hp => h p.1 p.2 ((OrdMap.mem_perm_iff hcopy).mp hp)

theorem shortDump_putAttempts {attemptsDb : OrdMap Url pb.Dump}
    (h : ∀ (url : Url) (dump : pb.Dump), attemptsDb[url]? = some dump → ShortDump misc pb dump)
    {p : Url × CrawlAttempts} (hp : p.2.attempts.length ≤ CrawlAttempts.lastStoreAttempts)
    (url : Url) (dump : pb.Dump) (hdump : (putAttempts misc pb attemptsDb p)[url]? = some dump) :
    ShortDump misc pb dump := by
  rw [putAttempts, OrdMap.getElem?_insert] at hdump
  split_ifs at hdump
  · exact ⟨p.2, (Option.some.inj hdump).symm, hp⟩
  · exact h url dump hdump

theorem shortDump_snapData {localCopy : List (Url × CrawlAttempts)}
    (hcopy : ∀ p ∈ localCopy, p.2.attempts.length ≤ CrawlAttempts.lastStoreAttempts)
    {attemptsDb : OrdMap Url pb.Dump}
    (h : ∀ (url : Url) (dump : pb.Dump), attemptsDb[url]? = some dump → ShortDump misc pb dump) :
    ∀ (url : Url) (dump : pb.Dump), (snapData misc pb attemptsDb localCopy)[url]? = some dump →
      ShortDump misc pb dump := by
  unfold snapData
  induction localCopy generalizing attemptsDb with
  | nil => exact h
  | cons p localCopy ih =>
    exact ih (fun q hq => hcopy q (List.mem_cons_of_mem p hq))
      (shortDump_putAttempts h (hcopy p List.mem_cons_self))

variable {s t : Running pb}

theorem bounded_snapStep (a : SnapLabel) (h : snapStep misc pb s a = some t)
    (hs : s.Bounded misc) : t.Bounded misc := by
  cases a with
  | setEnqueued urls now =>
    obtain rfl := Option.some.inj h
    exact ⟨short_setEnqueued hs.memory urls now, hs.db, hs.snap⟩
  | onFetched results now =>
    obtain ⟨db, hdb, rfl⟩ := Option.map_eq_some_iff.mp h
    exact ⟨short_onFetched hs.memory hdb, hs.db, hs.snap⟩
  | snapCopy localCopy =>
    rw [snapStep] at h
    split_ifs at h with hcopy
    obtain rfl := Option.some.inj h
    refine ⟨hs.memory, hs.db, ?_⟩
    rintro localCopy' heq
    obtain rfl := Option.some.inj heq
    exact hs.memory.of_perm hcopy.2
  | snapPut =>
    obtain ⟨urlDb, attemptsDb, snapTh⟩ := s
    rcases snapTh with _ | ⟨_ | ⟨p, localCopy⟩⟩
    · cases h
    · obtain rfl := Option.some.inj h
      exact ⟨hs.memory, hs.db, nofun⟩
    · obtain rfl := Option.some.inj h
      have hsnap := hs.snap _ rfl
      refine ⟨hs.memory, shortDump_putAttempts hs.db (hsnap p List.mem_cons_self), ?_⟩
      rintro localCopy' heq q hq
      obtain rfl := Option.some.inj heq
      exact hsnap q (List.mem_cons_of_mem p hq)
  | restart localCopy =>
    rw [snapStep] at h
    split_ifs at h with hcopy
    have hdumps := shortDump_snapData (hs.memory.of_perm hcopy.2) hs.db
    cases hload : loadCrawlAttempts misc pb (snapData misc pb s.attemptsDb localCopy) with
    | error text =>
      dsimp only at h
      rw [hload] at h
      cases h
    | ok urlDb =>
      dsimp only at h
      rw [hload] at h
      obtain rfl := Option.some.inj h
      exact ⟨short_loadCrawlAttempts hdumps hload, hdumps, nofun⟩

theorem bounded_of_run {l : List SnapLabel}
    (hrun : Machine.run (snapStep misc pb) (.init pb) l = some s) : s.Bounded misc :=
  Machine.run_induction (fun _ a _ h hs => bounded_snapStep a h hs) hrun bounded_init

/-! ### The waits -/

/-- The policies for a URL: what is allowed stays allowed, the last attempt holds nothing back for
longer than 512 hours, or 24 of a robots URL, and the loop that doubles the wait stays within an
`int`. -/
structure NeverBlocks (db : UrlDb) (url : Url) : Prop where
  page_mono : ∀ ⦃now now' : ℤ⦄, now ≤ now' → db.isNeedCrawl url now = .allow →
    db.isNeedCrawl url now' = .allow
  robots_mono : ∀ ⦃now now' : ℤ⦄, now ≤ now' → db.isNeedCrawlRobots url now = .allow →
    db.isNeedCrawlRobots url now' = .allow
  page_le : ∀ last, (db.attemptsOf url).getLast? = some last →
    ∀ now, last.tp + hours 512 ≤ now → db.isNeedCrawl url now = .allow
  robots_le : ∀ last, (db.attemptsOf url).getLast? = some last →
    ∀ now, last.tp + hours 24 ≤ now → db.isNeedCrawlRobots url now = .allow
  fits : ∀ n ≤ (CrawlAttempts.mk (db.attemptsOf url)).last4xx5xxCount, waitHours n < 2 ^ 31

/-- Of ten attempts at most nine are counted. -/
theorem last4xx5xxCount_le {ca : CrawlAttempts}
    (h : ca.attempts.length ≤ CrawlAttempts.lastStoreAttempts) : ca.last4xx5xxCount ≤ 9 := by
  have hcount : ca.last4xx5xxCount ≤ (ca.attempts.drop 1).reverse.length :=
    (List.takeWhile_prefix _).length_le
  rw [List.length_reverse, List.length_drop] at hcount
  unfold CrawlAttempts.lastStoreAttempts at h
  omega

theorem waitHours_le_of_le {n m : ℕ} (h : n ≤ m) : waitHours n ≤ waitHours m := by
  rw [waitHours_eq, waitHours_eq]
  exact pow_le_pow_right₀ one_le_two h

theorem pageWait_le {ca : CrawlAttempts}
    (h : ca.attempts.length ≤ CrawlAttempts.lastStoreAttempts) (last : CrawlAttempt) :
    pageWait ca last ≤ 512 := by
  have hwait : waitHours ca.last4xx5xxCount ≤ 512 := waitHours_le_of_le (last4xx5xxCount_le h)
  unfold pageWait
  cases last.status with
  | curlErr | pending | enqueued | ok =>
    dsimp only
    omega
  | s4xx | s5xx => exact hwait

theorem robotsWait_le (last : CrawlAttempt) : robotsWait last ≤ 24 := by
  unfold robotsWait
  cases last.status <;> decide

/-- **No URL is blocked for good.**  In every run of the database, with results of any status,
snapshots and restarts, what a policy allows it allows at every later time, and it allows every URL
from 512 hours after its last attempt on, and every robots URL from 24 hours on. -/
theorem neverBlocks_of_run (misc : MiscTime) (pb : CrawlAttemptsPb) {l : List SnapLabel}
    {s : Running pb} (hrun : Machine.run (snapStep misc pb) (.init pb) l = some s) (url : Url) :
    NeverBlocks s.urlDb url := by
  have hlen : (s.urlDb.attemptsOf url).length ≤ CrawlAttempts.lastStoreAttempts := by
    unfold attemptsOf
    cases hurl : s.urlDb.urlCrawlAttempts[url]? with
    | none => exact Nat.zero_le _
    | some ca => exact (bounded_of_run hrun).memory url ca hurl
  refine ⟨fun now now' hle h => ?_, fun now now' hle h => ?_, fun last hlast now hnow => ?_,
    fun last hlast now hnow => ?_, fun n hn => ?_⟩
  · cases hlast : (s.urlDb.attemptsOf url).getLast? with
    | none => exact decideBy_of_getLast?_eq_none hlast
    | some last =>
      rw [isNeedCrawl_eq_allow_iff hlast] at h ⊢
      omega
  · cases hlast : (s.urlDb.attemptsOf url).getLast? with
    | none => exact decideBy_of_getLast?_eq_none hlast
    | some last =>
      rw [isNeedCrawlRobots_eq_allow_iff hlast] at h ⊢
      omega
  · rw [isNeedCrawl_eq_allow_iff hlast]
    have hwait : hours (pageWait ⟨s.urlDb.attemptsOf url⟩ last) ≤ hours 512 :=
      hours_le_hours (pageWait_le hlen last)
    omega
  · rw [isNeedCrawlRobots_eq_allow_iff hlast]
    have hwait := hours_le_hours (robotsWait_le last)
    omega
  · have hcount : CrawlAttempts.last4xx5xxCount ⟨s.urlDb.attemptsOf url⟩ ≤ 9 :=
      last4xx5xxCount_le hlen
    calc waitHours n ≤ waitHours 9 := waitHours_le_of_le (hn.trans hcount)
      _ < 2 ^ 31 := by decide

/-- A page that fails eleven times in a row, a day after another. -/
def elevenFailures : List SnapLabel :=
  (List.range 11).flatMap fun n =>
    [.setEnqueued [Str.ofString "http://a/"] (days n),
      .onFetched [⟨⟨Str.ofString "http://a/", 0⟩, .s5xx, default, default⟩] (days n)]

theorem neverBlocks_of_run_elevenFailures :
    ∃ s, Machine.run (snapStep .nearEpoch (.plain _)) (.init _) elevenFailures = some s ∧
      (s.urlDb.attemptsOf (Str.ofString "http://a/")).length = 10 ∧
      NeverBlocks s.urlDb (Str.ofString "http://a/") := by
  have hrun : ∃ s, Machine.run (snapStep .nearEpoch (.plain _)) (.init _) elevenFailures = some s ∧
      (s.urlDb.attemptsOf (Str.ofString "http://a/")).length = 10 := by
    decide +kernel
  obtain ⟨s, hs, hlen⟩ := hrun
  exact ⟨s, hs, hlen, neverBlocks_of_run .nearEpoch (.plain _) hs (Str.ofString "http://a/")⟩

end Contentv1.UrlDb
