import Contentv1.Ldb.Equiv.HostDbRun
import Contentv1.Core.Equiv.TpSlidWin

/-!
# The limits of a host

`host_limits_hold`: under a clock that does not go back, the outstanding crawls of a host never
exceed `max_host_parallel_crawl`, and no closed minute, hour or day holds more `allow` decisions
for it than the limit of that window.

The three windows of a host are one argument (`Rate` names the window).  `WinInv` is its
invariant: the queue tracks the recorded times of the host's `allow` decisions, and every interval
is within the limit so far.  A decision comes between a check and a record, so what an interval
around it holds had not expired at the check (`SlidingWindow.countIn_push_le`).
-/

namespace Contentv1

/-! ### One window -/

/-- A window of a host and the host's decisions, each with the time recorded for it.  There is no
window as long as the host was never seen. -/
structure WinInv (width limit clock : ℤ) (w : Option TpSlidWin) (hist : List (ℤ × ℤ)) : Prop where
  new : w = none → hist = []
  window : ∀ win, w = some win → win.window = width
  tracks : ∀ win, w = some win →
    SlidingWindow.Tracks (tpExpired width) clock (hist.map Prod.snd) win.q
  recorded : ∀ p ∈ hist, p.1 ≤ p.2
  bound : ∀ T, (SlidingWindow.countIn (seconds width) hist T : ℤ) ≤ limit

namespace WinInv

variable {width limit clock now d t : ℤ} {w : Option TpSlidWin} {win : TpSlidWin}
  {hist : List (ℤ × ℤ)}

theorem mono (h : WinInv width limit clock w hist) (hle : clock ≤ now) :
    WinInv width limit now w hist :=
  ⟨h.new, h.window, fun win hwin => (h.tracks win hwin).mono (persistent_tpExpired width) hle,
    h.recorded, h.bound⟩

/-- The window that the first crawl of a host creates. -/
theorem create (h : WinInv width limit clock none hist) :
    WinInv width limit clock (some ⟨[], width⟩) hist := by
  obtain rfl := h.new rfl
  refine ⟨nofun, ?_, ?_, h.recorded, h.bound⟩
  · rintro win hwin
    rw [← Option.some.inj hwin]
  · rintro win hwin
    rw [← Option.some.inj hwin]
    exact SlidingWindow.Tracks.nil

theorem checkClean (h : WinInv width limit clock (some win) hist) (hle : clock ≤ now) :
    WinInv width limit now (some (win.checkClean now)) hist := by
  have hwindow := h.window win rfl
  refine ⟨nofun, ?_, ?_, h.recorded, h.bound⟩
  · rintro win' hwin
    rw [← Option.some.inj hwin]
    exact hwindow
  · rintro win' hwin
    rw [← Option.some.inj hwin]
    have hclean := (h.tracks win rfl).clean (persistent_tpExpired width) hle
    rw [← hwindow] at hclean ⊢
    exact hclean

/-- A decision at `d`, after a check that found the window below its limit, recorded at `t`. -/
theorem inc (h : WinInv width limit clock (some win) hist) (hwidth : 0 ≤ width)
    (hlen : (win.q.length : ℤ) < limit) (hd : clock ≤ d) (ht : d ≤ t) :
    WinInv width limit t (some (win.inc t)) (hist ++ [(d, t)]) := by
  have hwindow := h.window win rfl
  have htracks := h.tracks win rfl
  refine ⟨nofun, ?_, ?_, ?_, fun T => ?_⟩
  · rintro win' hwin
    rw [← Option.some.inj hwin]
    exact hwindow
  · rintro win' hwin
    rw [← Option.some.inj hwin, List.map_append]
    have hpush := (htracks.push (e := t)).clean (persistent_tpExpired width) (hd.trans ht)
    rw [← hwindow] at hpush ⊢
    exact hpush
  · intro p hp
    rcases List.mem_append.mp hp with hp | hp
    · exact h.recorded p hp
    · rw [List.mem_singleton.mp hp]
      exact ht
  · have hle := SlidingWindow.countIn_push_le (seconds width) limit.toNat
      (tpExpired_eq_false hwidth) (fun T => by have := h.bound T; omega) htracks (by omega)
      h.recorded hd (t := t) T
    omega

end WinInv

/-! ### The three windows -/

inductive Rate
  | min
  | hour
  | day

namespace Rate

def width : Rate → ℤ
  | min => 60
  | hour => 3600
  | day => 86400

def limit (limits : CrawlLimits) : Rate → ℤ
  | min => limits.maxHostMinuteCrawl
  | hour => limits.maxHostHourCrawl
  | day => limits.maxHostDayCrawl

def window (hf : HostFreq) : Rate → TpSlidWin
  | min => hf.min
  | hour => hf.hour
  | day => hf.day

def read (now : FreqReads) : Rate → ℤ
  | min => now.min
  | hour => now.hour
  | day => now.day

theorem width_nonneg (rate : Rate) : 0 ≤ rate.width := by
  cases rate <;> decide

theorem window_init (rate : Rate) : rate.window .init = ⟨[], rate.width⟩ := by
  cases rate <;> rfl

theorem window_incCrawling (rate : Rate) (hf : HostFreq) (now : FreqReads) :
    rate.window (hf.incCrawling now) = (rate.window hf).inc (rate.read now) := by
  cases rate <;> rfl

theorem window_decCrawling (rate : Rate) (hf : HostFreq) :
    rate.window hf.decCrawling = rate.window hf := by
  unfold HostFreq.decCrawling
  split_ifs <;> cases rate <;> rfl

/-- A check cleans a window or does not come to it. -/
theorem window_isAllowed (rate : Rate) (hf : HostFreq) (limits : CrawlLimits) (now : FreqReads) :
    rate.window (hf.isAllowed limits now).2 = rate.window hf ∨
      rate.window (hf.isAllowed limits now).2
        = (rate.window hf).checkClean (rate.read now) := by
  unfold HostFreq.isAllowed TpSlidWin.size
  dsimp only
  split_ifs <;> cases rate <;> first | exact Or.inl rfl | exact Or.inr rfl

/-- A check that passes has cleaned every window and found it below its limit. -/
theorem window_of_isAllowed (rate : Rate) {hf : HostFreq} {limits : CrawlLimits} {now : FreqReads}
    (h : (hf.isAllowed limits now).1 = true) :
    rate.window (hf.isAllowed limits now).2 = (rate.window hf).checkClean (rate.read now) ∧
      (((rate.window hf).checkClean (rate.read now)).q.length : ℤ) < rate.limit limits := by
  obtain ⟨-, hmin, hhour, hday, heq⟩ := HostFreq.isAllowed_eq_true h
  rw [heq]
  cases rate with
  | min => exact ⟨rfl, hmin⟩
  | hour => exact ⟨rfl, hhour⟩
  | day => exact ⟨rfl, hday⟩

end Rate

/-- What the order of the readings around one URL says about one window. -/
theorem times_bounds {clock : ℤ} {r : CrawlReads} (h : (clock :: r.times).Pairwise (· ≤ ·))
    (rate : Rate) :
    clock ≤ rate.read r.hostCheck ∧ rate.read r.hostCheck ≤ r.decided ∧
      r.decided ≤ rate.read r.hostInc ∧ rate.read r.hostInc ≤ r.globalInc.day := by
  unfold CrawlReads.times at h
  simp only [List.pairwise_cons, List.forall_mem_cons, List.not_mem_nil, IsEmpty.forall_iff,
    implies_true, and_true] at h
  cases rate <;> unfold Rate.read <;> dsimp only <;> omega

namespace HostDb

variable {c : Contribs} {db : HostDb} {allows : List (Host × CrawlReads)} {clock : ℤ}

/-- The decisions for a host, each with the time one of its windows recorded. -/
def history (rate : Rate) (host : Host) (allows : List (Host × CrawlReads)) : List (ℤ × ℤ) :=
  (allows.filter fun p => p.1 = host).map fun p => (p.2.decided, rate.read p.2.hostInc)

theorem history_append (rate : Rate) (host host' : Host) (allows : List (Host × CrawlReads))
    (r : CrawlReads) :
    history rate host (allows ++ [(host', r)])
      = history rate host allows ++ if host' = host then [(r.decided, rate.read r.hostInc)]
        else [] := by
  unfold history
  rw [List.filter_append, List.map_append]
  congr 1
  split_ifs with h <;> simp [h]

theorem countIn_history (rate : Rate) (host : Host) (allows : List (Host × CrawlReads))
    (width T : ℤ) :
    SlidingWindow.countIn width (history rate host allows) T = decisionsIn allows host width T := by
  unfold SlidingWindow.countIn history decisionsIn
  rw [List.filter_map, List.length_map, List.filter_filter]
  congr 2
  funext p
  simp [Bool.and_comm]

/-- The windows of every host. -/
def RateInv (db : HostDb) (allows : List (Host × CrawlReads)) (clock : ℤ) : Prop :=
  ∀ (host : Host) (rate : Rate), WinInv rate.width (rate.limit db.limits) clock
    (db.hostFreq[host]?.map fun hf => rate.window hf) (history rate host allows)

theorem RateInv.mono {now : ℤ} (h : RateInv db allows clock) (hle : clock ≤ now) :
    RateInv db allows now :=
  fun host rate => (h host rate).mono hle

theorem rateInv_init (limits : CrawlLimits) (robots : OrdMap Host Str) (clock : ℤ)
    (hlimit : ∀ rate : Rate, 0 ≤ rate.limit limits) :
    RateInv (openDb limits robots) [] clock := by
  intro host rate
  show WinInv _ _ _ ((∅ : OrdMap Host HostFreq)[host]?.map _) []
  rw [Std.ExtTreeMap.getElem?_empty]
  exact ⟨fun _ => rfl, nofun, nofun, nofun, fun T => hlimit rate⟩

/-! ### One URL -/

variable {host : Host} {now : CrawlReads}

/-- A check leaves the windows of the other hosts alone and may clean those of its own. -/
theorem RateInv.isAllowedFreq (h : RateInv db allows clock)
    (htimes : (clock :: now.times).Pairwise (· ≤ ·)) (host : Host) :
    RateInv (db.isAllowedFreq host now).2 allows now.decided := by
  have hmono : RateInv db allows now.decided := by
    obtain ⟨h1, h2, -⟩ := times_bounds htimes .min
    exact h.mono (h1.trans h2)
  unfold HostDb.isAllowedFreq
  cases hhost : db.hostFreq[host]? with
  | none => exact hmono
  | some hf =>
    have hinsert : ∀ (host' : Host) (rate : Rate),
        WinInv rate.width (rate.limit db.limits) now.decided
          ((db.hostFreq.insert host (hf.isAllowed db.limits now.hostCheck).2)[host']?.map
            fun hf => rate.window hf) (history rate host' allows) := by
      intro host' rate
      rw [OrdMap.getElem?_insert]
      split_ifs with heq
      · subst heq
        obtain ⟨h1, h2, -⟩ := times_bounds htimes rate
        have hwin := h host rate
        rw [hhost, Option.map_some] at hwin
        rw [Option.map_some]
        rcases rate.window_isAllowed hf db.limits now.hostCheck with hsame | hclean
        · rw [hsame]
          exact hwin.mono (h1.trans h2)
        · rw [hclean]
          exact (hwin.checkClean h1).mono h2
      · exact hmono host' rate
    dsimp only
    split_ifs
    · exact hinsert
    · exact hinsert

/-- After a check that passed, every window of the host is below its limit. -/
theorem RateInv.of_isAllowedFreq (h : RateInv db allows clock)
    (htimes : (clock :: now.times).Pairwise (· ≤ ·))
    (hallowed : (db.isAllowedFreq host now).1 = true) (rate : Rate)
    (hlimit : 1 ≤ rate.limit db.limits) :
    WinInv rate.width (rate.limit db.limits) now.decided
        (some (rate.window ((db.isAllowedFreq host now).2.hostFreq[host]?.getD .init)))
        (history rate host allows) ∧
      ((rate.window ((db.isAllowedFreq host now).2.hostFreq[host]?.getD .init)).q.length : ℤ)
        < rate.limit db.limits := by
  obtain ⟨h1, h2, -⟩ := times_bounds htimes rate
  have hwin := h host rate
  unfold HostDb.isAllowedFreq at hallowed ⊢
  cases hhost : db.hostFreq[host]? with
  | none =>
    -- a host that was never seen: nothing was decided for it yet
    rw [hhost, Option.map_none] at hwin
    dsimp only
    rw [hhost, Option.getD_none, Rate.window_init]
    refine ⟨hwin.create.mono (h1.trans h2), ?_⟩
    rw [List.length_nil]
    omega
  | some hf =>
    rw [hhost] at hallowed
    dsimp only at hallowed ⊢
    split_ifs at hallowed ⊢ with hhostAllowed
    rw [hhost, Option.map_some] at hwin
    obtain ⟨heq, hlen⟩ := rate.window_of_isAllowed hhostAllowed
    rw [OrdMap.getElem?_insert, if_pos rfl, Option.getD_some, heq]
    exact ⟨(hwin.checkClean h1).mono h2, hlen⟩

/-- Counting a host as crawled after a check that passed. -/
theorem RateInv.setCrawling (h : RateInv db allows clock)
    (htimes : (clock :: now.times).Pairwise (· ≤ ·))
    (hallowed : (db.isAllowedFreq host now).1 = true)
    (hlimit : ∀ rate : Rate, 1 ≤ rate.limit db.limits) :
    RateInv ((db.isAllowedFreq host now).2.setCrawling host now) (allows ++ [(host, now)])
      now.globalInc.day := by
  have hlimits : (db.isAllowedFreq host now).2.limits = db.limits :=
    (sameCounters_isAllowedFreq db host now).limits
  intro host' rate
  obtain ⟨-, -, h3, h4⟩ := times_bounds htimes rate
  -- the windows of the host get the decision, those of the others only see time pass
  show WinInv rate.width (rate.limit (db.isAllowedFreq host now).2.limits) _
    (((db.isAllowedFreq host now).2.hostFreq.alter host _)[host']?.map _) _
  rw [hlimits, OrdMap.getElem?_alter, history_append]
  split_ifs with heq
  · subst heq
    obtain ⟨hwin, hlen⟩ := h.of_isAllowedFreq htimes hallowed rate (hlimit rate)
    rw [Option.map_some, Rate.window_incCrawling]
    exact (hwin.inc rate.width_nonneg hlen (le_refl _) h3).mono h4
  · rw [List.append_nil]
    have hother := h.isAllowedFreq htimes host host' rate
    rw [hlimits] at hother
    exact hother.mono (h3.trans h4)

/-- **One URL.** -/
theorem RateInv.dbAfter {α : Type} (url : α → Url) {item : α × CrawlReads}
    (h : RateInv db allows clock) (htimes : (clock :: item.2.times).Pairwise (· ≤ ·))
    (hlimit : ∀ rate : Rate, 1 ≤ rate.limit db.limits) :
    RateInv (dbAfter c url db item)
      (allows ++ if decisionOn c url db item = .allow
        then [((UrlParsed.ofUrl c (url item.1)).host, item.2)] else [])
      item.2.globalInc.day := by
  obtain ⟨h1, h2, h3, h4⟩ := times_bounds htimes .min
  have hmono : RateInv db allows item.2.globalInc.day :=
    h.mono (h1.trans (h2.trans (h3.trans h4)))
  unfold HostDb.dbAfter decisionOn
  by_cases hok : (UrlParsed.ofUrl c (url item.1)).ok = true
  · rw [if_pos hok, if_pos hok]
    rcases tryCrawlParsed_cases c db (UrlParsed.ofUrl c (url item.1)) item.2 with
      ⟨hne, heq | heq⟩ | ⟨hallow, -, hfreq, heq⟩
    · -- refused by robots.txt
      rw [if_neg hne, List.append_nil, heq]
      exact hmono
    · -- refused by a frequency, whose windows the check may have cleaned
      rw [if_neg hne, List.append_nil, heq]
      exact (h.isAllowedFreq htimes _).mono (h3.trans h4)
    · rw [if_pos hallow, heq]
      exact h.setCrawling htimes hfreq hlimit
  · rw [if_neg hok, if_neg hok, if_neg nofun, List.append_nil]
    exact hmono

/-- A check passes only below the limit on parallel crawls. -/
theorem crawling_lt_of_isAllowedFreq (hlimit : 1 ≤ db.limits.maxHostParallelCrawl)
    (hallowed : (db.isAllowedFreq host now).1 = true) :
    db.crawling host < db.limits.maxHostParallelCrawl := by
  unfold HostDb.isAllowedFreq at hallowed
  unfold crawling
  cases hhost : db.hostFreq[host]? with
  | none =>
    -- no check is made, but nothing is being crawled either
    rw [Option.elim_none]
    omega
  | some hf =>
    rw [hhost] at hallowed
    dsimp only at hallowed
    split_ifs at hallowed with hhostAllowed
    rw [Option.elim_some]
    exact (HostFreq.isAllowed_eq_true hhostAllowed).1

theorem crawling_dbAfter_le {α : Type} {url : α → Url} (item : α × CrawlReads)
    (hlimit : 1 ≤ db.limits.maxHostParallelCrawl)
    (h : ∀ host, db.crawling host ≤ db.limits.maxHostParallelCrawl) (host : Host) :
    (dbAfter c url db item).crawling host ≤ db.limits.maxHostParallelCrawl := by
  rw [(counters_dbAfter c url db item).1]
  split_ifs with hallow
  · obtain ⟨hallow, rfl⟩ := hallow
    unfold decisionOn at hallow
    split_ifs at hallow with hok
    rcases tryCrawlParsed_cases c db (UrlParsed.ofUrl c (url item.1)) item.2 with
      ⟨hne, -⟩ | ⟨-, -, hfreq, -⟩
    · exact absurd hallow hne
    · have := crawling_lt_of_isAllowedFreq hlimit hfreq
      omega
  · have := h host
    omega

/-! ### Batches, operations, runs -/

/-- All limits of a host allow something. -/
structure Positive (limits : CrawlLimits) : Prop where
  parallel : 1 ≤ limits.maxHostParallelCrawl
  rate : ∀ rate : Rate, 1 ≤ rate.limit limits

structure HostOk (limits : CrawlLimits) (db : HostDb) (allows : List (Host × CrawlReads))
    (clock : ℤ) : Prop where
  limits_eq : db.limits = limits
  crawling : ∀ host, db.crawling host ≤ limits.maxHostParallelCrawl
  rate : RateInv db allows clock

theorem HostOk.tryCrawlLoop {limits : CrawlLimits} (hpos : Positive limits) {α β : Type}
    {url : α → Url} {out : α → UrlParsed → β} {items : List (α × CrawlReads)}
    (h : HostOk limits db allows clock)
    (htimes : (clock :: items.flatMap fun item => item.2.times).Pairwise (· ≤ ·)) :
    HostOk limits (tryCrawlLoop c url out db items).db
      (allows ++ grants c url items (HostDb.tryCrawlLoop c url out db items).decisions)
      ((items.flatMap fun item => item.2.times).getLastD clock) := by
  induction items using List.reverseRecOn with
  | nil =>
    show HostOk limits db (allows ++ []) clock
    rw [List.append_nil]
    exact h
  | append_singleton items item ih =>
    rw [List.flatMap_append, List.flatMap_singleton, ← List.cons_append,
      List.pairwise_append] at htimes
    obtain ⟨hinit, hitem, hcross⟩ := htimes
    obtain ⟨hlimits, hcrawl, hrate⟩ := ih hinit
    -- the readings of the item come after those of the items before it
    have hlast : (((items.flatMap fun item => item.2.times).getLastD clock)
        :: item.2.times).Pairwise (· ≤ ·) :=
      List.pairwise_cons.mpr ⟨hcross _ List.getLastD_mem_cons, hitem⟩
    have hrate' := hrate.dbAfter (c := c) url hlast (by rw [hlimits]; exact hpos.rate)
    have hend : ((items ++ [item]).flatMap fun item => item.2.times).getLastD clock
        = item.2.globalInc.day := by
      rw [List.flatMap_append, List.flatMap_singleton, List.getLastD_eq_getLast?,
        List.getLast?_append]
      rfl
    rw [tryCrawlLoop_append, db_tryCrawlItem, ← tryCrawlLoop_append, grants_append,
      ← List.append_assoc, hend]
    refine ⟨(limits_dbAfter item).trans hlimits, fun host => ?_, hrate'⟩
    rw [← hlimits]
    exact crawling_dbAfter_le item (by rw [hlimits]; exact hpos.parallel)
      (by rw [hlimits]; exact hcrawl) host

/-- A result lowers a counter and leaves the windows alone. -/
theorem HostOk.onFetchedItem {limits : CrawlLimits} (h : HostOk limits db allows clock)
    {result : FetchResult} (hok : (UrlParsed.ofUrl c result.gfq.url).ok = true) :
    HostOk limits (onFetchedItem c db result) allows clock := by
  obtain ⟨hlimits, hcrawl, hrate⟩ := h
  refine ⟨(limits_onFetchedItem db result).trans hlimits, fun host => ?_, fun host rate => ?_⟩
  · rw [crawling_onFetchedItem hok]
    have := hcrawl host
    split_ifs <;> omega
  · have hwin := hrate host rate
    rw [limits_onFetchedItem, hostFreq_onFetchedItem hok, OrdMap.getElem?_alter]
    split_ifs with heq
    · subst heq
      rw [Option.map_some, Rate.window_decCrawling]
      cases hhost : db.hostFreq[(UrlParsed.ofUrl c result.gfq.url).host]? with
      | none =>
        rw [hhost] at hwin
        rw [Option.getD_none, Rate.window_init]
        exact hwin.create
      | some hf =>
        rw [hhost] at hwin
        exact hwin
    · exact hwin

theorem hostOk_observeTimed {limits : CrawlLimits} (hpos : Positive limits) {s s' : Timed}
    (op : Op) (h : observeTimed c s op = some s')
    (hs : HostOk limits s.o.db s.o.allows s.clock) :
    HostOk limits s'.o.db s'.o.allows s'.clock := by
  unfold observeTimed at h
  split_ifs at h with htimes
  obtain ⟨o, ho, rfl⟩ := Option.map_eq_some_iff.mp h
  cases op with
  | tryCrawlUrls tryUrls =>
    obtain rfl := Option.some.inj ho
    exact hs.tryCrawlLoop hpos htimes
  | tryCrawl tryUrls =>
    obtain rfl := Option.some.inj ho
    exact hs.tryCrawlLoop hpos htimes
  | onFetched results =>
    obtain ⟨outstanding, hreport, rfl⟩ := Option.map_eq_some_iff.mp ho
    exact onFetched_induction (P := fun db _ => HostOk limits db s.o.allows s.clock)
      (fun _ _ _ hok _ hP => hP.onFetchedItem hok) hreport hs

/-- **The limits of a host.**  In every run under a clock that does not go back, with all limits of
a host at least 1, the outstanding crawls of each host are within its limit, and so are its `allow`
decisions in every closed minute, hour and day. -/
theorem host_limits_hold (c : Contribs) (limits : CrawlLimits) (robots : OrdMap Host Str)
    (hparallel : 1 ≤ limits.maxHostParallelCrawl) (hmin : 1 ≤ limits.maxHostMinuteCrawl)
    (hhour : 1 ≤ limits.maxHostHourCrawl) (hday : 1 ≤ limits.maxHostDayCrawl)
    {start : ℤ} {l : List Op} {s : Timed}
    (hrun : Machine.run (observeTimed c) ⟨.init limits robots, start⟩ l = some s) (host : Host) :
    (s.o.outstanding.count host : ℤ) ≤ limits.maxHostParallelCrawl ∧
      ∀ T, (decisionsIn s.o.allows host (minutes 1) T : ℤ) ≤ limits.maxHostMinuteCrawl ∧
        (decisionsIn s.o.allows host (hours 1) T : ℤ) ≤ limits.maxHostHourCrawl ∧
        (decisionsIn s.o.allows host (days 1) T : ℤ) ≤ limits.maxHostDayCrawl := by
  have hpos : Positive limits := ⟨hparallel, fun rate => by cases rate <;> assumption⟩
  have hinit : HostOk limits (openDb limits robots) [] start := by
    refine ⟨rfl, fun h => ?_, rateInv_init limits robots start fun rate => ?_⟩
    · rw [(counted_init limits robots).host]
      exact (zero_le_one.trans hparallel)
    · exact zero_le_one.trans (hpos.rate rate)
  have hok : HostOk limits s.o.db s.o.allows s.clock :=
    Machine.run_induction (P := fun s : Timed => HostOk limits s.o.db s.o.allows s.clock)
      (fun _ op _ h hs => hostOk_observeTimed hpos op h hs) hrun hinit
  have hcounted : Counted s.o.db s.o.outstanding :=
    Machine.run_induction (P := fun s : Timed => Counted s.o.db s.o.outstanding)
      (fun _ op _ h hs => counted_observeTimed op h hs) hrun (counted_init limits robots)
  obtain ⟨hlimits, hcrawl, hrate⟩ := hok
  have hbound : ∀ (rate : Rate) (T : ℤ),
      (decisionsIn s.o.allows host (seconds rate.width) T : ℤ) ≤ rate.limit limits := by
    intro rate T
    have hT := (hrate host rate).bound T
    rwa [countIn_history, hlimits] at hT
  constructor
  · rw [← hcounted.host]
    exact hcrawl host
  · exact fun T => ⟨hbound .min T, hbound .hour T, hbound .day T⟩

/-- The robots URL of a host tried twice in one batch and again after its result. -/
def robotsThrice : List Op :=
  [.tryCrawl [(⟨Str.ofString "http://a/robots.txt", 0⟩, .at 0),
      (⟨Str.ofString "http://a/robots.txt", 0⟩, .at (seconds 1))],
    .onFetched [⟨⟨Str.ofString "http://a/robots.txt", 0⟩, .ok, default, default⟩],
    .tryCrawl [(⟨Str.ofString "http://a/robots.txt", 2⟩, .at (seconds 2))]]

theorem host_limits_hold_robotsThrice :
    ∃ s, Machine.run (observeTimed .plainHttp) ⟨.init ⟨1, 2, 2, 2, 9⟩ ∅, 0⟩ robotsThrice = some s ∧
      (s.o.outstanding.count (Str.ofString "a") : ℤ) ≤ 1 ∧
      ∀ T, (decisionsIn s.o.allows (Str.ofString "a") (minutes 1) T : ℤ) ≤ 2 ∧
        (decisionsIn s.o.allows (Str.ofString "a") (hours 1) T : ℤ) ≤ 2 ∧
        (decisionsIn s.o.allows (Str.ofString "a") (days 1) T : ℤ) ≤ 2 := by
  have hrun : (Machine.run (observeTimed .plainHttp) ⟨.init ⟨1, 2, 2, 2, 9⟩ ∅, 0⟩
      robotsThrice).isSome := by decide
  exact ⟨_, (Option.some_get hrun).symm,
    host_limits_hold .plainHttp ⟨1, 2, 2, 2, 9⟩ ∅ (by decide) (by decide) (by decide) (by decide)
      (Option.some_get hrun).symm (Str.ofString "a")⟩

end HostDb

end Contentv1
