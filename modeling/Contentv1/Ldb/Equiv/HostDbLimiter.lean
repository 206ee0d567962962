import Contentv1.Ldb.Equiv.HostDbAttempts
import Contentv1.Ldb.Equiv.HostDbIsolation
import Contentv1.Ldb.Equiv.HostDbRates

/-!
# `HostDb` as a limiter over its history

`HostDb` keeps counters and queues that are cleaned now and then.  What they are for can be said
without them: a crawl is let through by what happened before it.  `Limiter` says this over a plain
log of the allowed crawls and of the results, which it never cleans.

`answers_eq_limiter`: under a clock that does not go back `HostDb` decides like the limiter, on
whatever URLs it is asked and whatever results it is given.

A window holds what `SlidingWindow.Tracks` says, so a check counts the crawls in the log that are
no older than it (`Held.isAllowed`).
-/

namespace Contentv1

/-- A frequency is allowed exactly below all limits. -/
theorem HostFreq.isAllowed_iff {hf : HostFreq} {limits : CrawlLimits} {now : FreqReads} :
    (hf.isAllowed limits now).1 = true ↔
      hf.crawlingNow < limits.maxHostParallelCrawl ∧
        ∀ rate : Rate, (((rate.window hf).checkClean (rate.read now)).q.length : ℤ)
          < rate.limit limits := by
  constructor
  · intro h
    exact ⟨(isAllowed_eq_true h).1, fun rate => (rate.window_of_isAllowed h).2⟩
  · rintro ⟨hparallel, hrates⟩
    have hmin := hrates .min
    have hhour := hrates .hour
    have hday := hrates .day
    unfold isAllowed TpSlidWin.size
    dsimp only [Rate.window, Rate.read, Rate.limit] at hmin hhour hday ⊢
    rw [if_neg (not_le.mpr hparallel), if_neg (not_le.mpr hmin), if_neg (not_le.mpr hhour),
      if_neg (not_le.mpr hday)]

namespace HostDb

/-! ### The limiter -/

inductive Entry
  /-- A crawl of the host was allowed, with the readings around the decision. -/
  | crawl (host : Host) (now : CrawlReads)
  /-- A result came for the host, with the robots text that it brought. -/
  | result (host : Host) (text : Option Str)

namespace Entry

def host : Entry → Host
  | crawl host _ | result host _ => host

/-- The crawls under way after an entry. -/
def count (n : ℕ) : Entry → ℕ
  | crawl _ _ => n + 1
  -- a result that no crawl is waiting for does not count
  | result _ _ => n - 1

/-- The time recorded for a crawl. -/
def time (read : CrawlReads → ℤ) : Entry → Option ℤ
  | crawl _ now => some (read now)
  | result _ _ => none

def text : Entry → Option Str
  | crawl _ _ => none
  | result _ text => text

end Entry

/-- The crawls under way. -/
def underWay (log : List Entry) : ℕ := log.foldl Entry.count 0

/-- The times of all crawls as the windows of `rate` record them, at the readings `inc`. -/
def times (inc : CrawlReads → FreqReads) (rate : Rate) (log : List Entry) : List ℤ :=
  log.filterMap (Entry.time fun r => rate.read (inc r))

/-- The crawls of the last minute, hour or day. -/
def recent (inc : CrawlReads → FreqReads) (rate : Rate) (log : List Entry) (now : ℤ) : ℕ :=
  (times inc rate log).countP fun tp => decide (durationCastSecs (now - tp) ≤ rate.width)

/-- The crawls under way and the recent ones are below the limits. -/
def below (limits : CrawlLimits) (inc : CrawlReads → FreqReads) (log : List Entry)
    (now : FreqReads) : Bool :=
  decide ((underWay log : ℤ) < limits.maxHostParallelCrawl) &&
    [Rate.min, Rate.hour, Rate.day].all fun rate =>
      decide ((recent inc rate log (rate.read now) : ℤ) < rate.limit limits)

structure Limiter where
  limits : CrawlLimits
  /-- The robots texts stored before. -/
  stored : OrdMap Host Str
  log : List Entry

namespace Limiter

def logOf (lim : Limiter) (host : Host) : List Entry := lim.log.filter fun e => e.host == host

/-- The latest robots text of a host. -/
def text (lim : Limiter) (host : Host) : Option Str :=
  ((lim.logOf host).filterMap Entry.text).getLast?.or lim.stored[host]?

/-- Nothing is held against the first crawl of a host.  The log of all hosts is held against the
limits of one. -/
def lets (lim : Limiter) (host : Host) (now : CrawlReads) : Bool :=
  (lim.logOf host).isEmpty ||
    (below lim.limits CrawlReads.hostInc (lim.logOf host) now.hostCheck &&
      below lim.limits CrawlReads.globalInc lim.log now.globalCheck)

def decision (c : Contribs) (lim : Limiter) (url : Url) (now : CrawlReads) : EHostCrawlDecision :=
  let urlParsed := UrlParsed.ofUrl c url
  let byFreq := if lim.lets urlParsed.host now then .allow else .disallowFreq
  if urlParsed.ok then
    if urlParsed.isRobots then byFreq
    else
      match lim.text urlParsed.host with
      | none => .disallowNeedRobots
      | some text =>
        if Robots.isAllowed c ⟨text⟩ urlParsed.normalized then byFreq else .disallowByRobots
  else .disallowUrlParsing

/-- The limiter after an event. -/
def after (c : Contribs) (lim : Limiter) : Event → Limiter
  | .tryCrawl url now =>
    if lim.decision c url now = .allow then
      { lim with log := lim.log ++ [.crawl (UrlParsed.ofUrl c url).host now] }
    else lim
  | .onFetched result =>
    let urlParsed := UrlParsed.ofUrl c result.gfq.url
    if urlParsed.ok then
      let text := if result.isRobots && result.isOk then some result.content else none
      { lim with log := lim.log ++ [.result urlParsed.host text] }
    else lim

/-- The decisions on the URLs of a call. -/
def answer (c : Contribs) : Limiter → List Event → List EHostCrawlDecision
  | _, [] => []
  | lim, .tryCrawl url now :: es =>
    lim.decision c url now :: answer c (lim.after c (.tryCrawl url now)) es
  | lim, .onFetched result :: es => answer c (lim.after c (.onFetched result)) es

/-- The decisions of a run, call by call. -/
def answers (c : Contribs) : Limiter → List Op → List (List EHostCrawlDecision)
  | _, [] => []
  | lim, op :: ops => lim.answer c op.events :: answers c (op.events.foldl (after c) lim) ops

end Limiter

/-- The decisions that a call gives back. -/
def Op.answer (c : Contribs) (db : HostDb) : Op → List EHostCrawlDecision
  | .tryCrawlUrls tryUrls => (db.tryCrawlUrls c tryUrls).decisions
  | .tryCrawl tryUrls => (db.tryCrawl c tryUrls).decisions
  | .onFetched _ => []

/-- The decisions of a run, call by call. -/
def answers (c : Contribs) : HostDb → List Op → List (List EHostCrawlDecision)
  | _, [] => []
  | db, op :: ops => op.answer c db :: (operate c db op).elim [] fun db => answers c db ops

/-! ### One frequency -/

open SlidingWindow

variable {inc : CrawlReads → FreqReads} {log : List Entry} {clock : ℤ} {hf : HostFreq}

theorem underWay_append (log : List Entry) (e : Entry) :
    underWay (log ++ [e]) = e.count (underWay log) := by
  rw [underWay, List.foldl_append]
  rfl

theorem times_append (inc : CrawlReads → FreqReads) (rate : Rate) (log : List Entry) (e : Entry) :
    times inc rate (log ++ [e])
      = times inc rate log ++ (e.time fun r => rate.read (inc r)).toList := by
  unfold times
  rw [List.filterMap_append]
  cases e <;> rfl

/-- A frequency holds what its log says. -/
structure Held (inc : CrawlReads → FreqReads) (hf : HostFreq) (log : List Entry) (clock : ℤ) :
    Prop where
  crawlingNow : hf.crawlingNow = (underWay log : ℤ)
  width : ∀ rate : Rate, (rate.window hf).window = rate.width
  tracks : ∀ rate : Rate,
    Tracks (tpExpired rate.width) clock (times inc rate log) (rate.window hf).q
  sorted : ∀ rate : Rate, (times inc rate log).Pairwise (· ≤ ·)
  le_clock : ∀ (rate : Rate), ∀ tp ∈ times inc rate log, tp ≤ clock

theorem held_init (inc : CrawlReads → FreqReads) (clock : ℤ) : Held inc .init [] clock where
  crawlingNow := rfl
  width rate := by rw [Rate.window_init]
  tracks rate := by
    rw [Rate.window_init]
    exact Tracks.nil
  sorted _ := List.Pairwise.nil
  le_clock _ _ h := absurd h List.not_mem_nil

namespace Held

variable (h : Held inc hf log clock)
include h

theorem mono {now : ℤ} (hle : clock ≤ now) : Held inc hf log now where
  crawlingNow := h.crawlingNow
  width := h.width
  tracks rate := (h.tracks rate).mono (persistent_tpExpired _) hle
  sorted := h.sorted
  le_clock rate tp htp := (h.le_clock rate tp htp).trans hle

/-- What is left of a window after a check is what the log has of it. -/
theorem length_checkClean (rate : Rate) {now : ℤ} (hle : clock ≤ now) :
    ((rate.window hf).checkClean now).q.length = recent inc rate log now := by
  have hord : (times inc rate log).Pairwise fun a b =>
      tpExpired rate.width now b = true → tpExpired rate.width now a = true :=
    (h.sorted rate).imp fun hab => tpExpired_mono le_rfl hab
  have hq : ((rate.window hf).checkClean now).q
      = (times inc rate log).filter fun tp => !tpExpired rate.width now tp := by
    rw [← ((h.tracks rate).mono (persistent_tpExpired _) hle).eq_filter hord, ← h.width rate]
    rfl
  rw [hq, ← List.countP_eq_length_filter]
  unfold recent
  congr 1
  funext tp
  unfold tpExpired
  rw [← decide_not, decide_eq_decide, not_lt]

/-- **A check** looks at the crawls of the log that are no older than its windows. -/
theorem fst_isAllowed {limits : CrawlLimits} {now : FreqReads}
    (hle : ∀ rate : Rate, clock ≤ rate.read now) :
    (hf.isAllowed limits now).1 = below limits inc log now := by
  rw [Bool.eq_iff_iff, HostFreq.isAllowed_iff, h.crawlingNow]
  unfold below
  rw [Bool.and_eq_true, decide_eq_true_iff, List.all_eq_true]
  refine and_congr_right fun _ => ⟨fun hrates rate _ => ?_, fun hrates rate => ?_⟩
  · rw [decide_eq_true_iff, ← h.length_checkClean rate (hle rate)]
    exact hrates rate
  · have hmem : rate ∈ [Rate.min, Rate.hour, Rate.day] := by cases rate <;> simp
    rw [h.length_checkClean rate (hle rate)]
    exact of_decide_eq_true (hrates rate hmem)

/-- What a check leaves. -/
theorem snd_isAllowed {limits : CrawlLimits} {now : FreqReads} {T : ℤ}
    (hle : ∀ rate : Rate, clock ≤ rate.read now) (hT : ∀ rate : Rate, rate.read now ≤ T) :
    Held inc (hf.isAllowed limits now).2 log T where
  crawlingNow := HostFreq.crawlingNow_isAllowed.trans h.crawlingNow
  width rate := by
    rcases rate.window_isAllowed hf limits now with heq | heq <;>
    · rw [heq]
      exact h.width rate
  tracks rate := by
    rcases rate.window_isAllowed hf limits now with heq | heq
    · rw [heq]
      exact (h.tracks rate).mono (persistent_tpExpired _) ((hle rate).trans (hT rate))
    · have hclean := (h.tracks rate).clean (persistent_tpExpired _) (hle rate)
      rw [← h.width rate] at hclean
      rw [heq, ← h.width rate]
      exact hclean.mono (persistent_tpExpired _) (hT rate)
  sorted := h.sorted
  le_clock rate tp htp := (h.le_clock rate tp htp).trans ((hle rate).trans (hT rate))

/-- A crawl that is counted. -/
theorem incCrawling {host : Host} {now : CrawlReads} {T : ℤ}
    (hle : ∀ rate : Rate, clock ≤ rate.read (inc now))
    (hT : ∀ rate : Rate, rate.read (inc now) ≤ T) :
    Held inc (hf.incCrawling (inc now)) (log ++ [.crawl host now]) T where
  crawlingNow := by
    rw [underWay_append]
    show hf.crawlingNow + 1 = ((underWay log + 1 : ℕ) : ℤ)
    rw [h.crawlingNow, Nat.cast_succ]
  width rate := by
    rw [Rate.window_incCrawling, TpSlidWin.window_inc]
    exact h.width rate
  tracks rate := by
    rw [Rate.window_incCrawling, TpSlidWin.q_inc, h.width rate, times_append]
    exact (((h.tracks rate).push).clean (persistent_tpExpired _) (hle rate)).mono
      (persistent_tpExpired _) (hT rate)
  sorted rate := by
    rw [times_append]
    refine List.pairwise_append.mpr ⟨h.sorted rate, List.pairwise_singleton _ _, ?_⟩
    intro tp htp tp' htp'
    obtain rfl := List.mem_singleton.mp htp'
    exact (h.le_clock rate tp htp).trans (hle rate)
  le_clock rate tp htp := by
    rw [times_append] at htp
    rcases List.mem_append.mp htp with htp | htp
    · exact (h.le_clock rate tp htp).trans ((hle rate).trans (hT rate))
    · obtain rfl := List.mem_singleton.mp htp
      exact hT rate

/-- A result that is counted. -/
theorem decCrawling (host : Host) (text : Option Str) :
    Held inc hf.decCrawling (log ++ [.result host text]) clock where
  crawlingNow := by
    rw [underWay_append, decCrawling_crawlingNow, h.crawlingNow]
    show _ = ((underWay log - 1 : ℕ) : ℤ)
    split_ifs <;> omega
  width rate := by
    rw [Rate.window_decCrawling]
    exact h.width rate
  tracks rate := by
    rw [Rate.window_decCrawling, times_append]
    exact (List.append_nil (times inc rate log)).symm ▸ h.tracks rate
  sorted rate := by
    rw [times_append]
    exact (List.append_nil (times inc rate log)).symm ▸ h.sorted rate
  le_clock rate tp htp := by
    rw [times_append] at htp
    exact h.le_clock rate tp ((List.append_nil (times inc rate log)) ▸ htp)

end Held

/-! ### The database and the limiter -/

variable {c : Contribs} {db : HostDb} {lim : Limiter}

/-- The database holds what the limiter's log says. -/
structure Sim (db : HostDb) (lim : Limiter) (clock : ℤ) : Prop where
  limits : db.limits = lim.limits
  host : ∀ host : Host, Held CrawlReads.hostInc (db.hostFreq[host]?.getD .init) (lim.logOf host)
    clock
  /-- A host is known from its first crawl or result on. -/
  known : ∀ host : Host, db.hostFreq[host]? = none ↔ lim.logOf host = []
  global : Held CrawlReads.globalInc db.globalFreq lim.log clock
  robots : ∀ host : Host, db.hostRobots[host]? = (lim.text host).map Robots.mk

theorem sim_openDb (limits : CrawlLimits) (stored : OrdMap Host Str) (clock : ℤ) :
    Sim (openDb limits stored) ⟨limits, stored, []⟩ clock where
  limits := rfl
  host host := by
    show Held _ ((∅ : OrdMap Host HostFreq)[host]?.getD .init) [] clock
    rw [Std.ExtTreeMap.getElem?_empty]
    exact held_init _ clock
  known host := iff_of_true Std.ExtTreeMap.getElem?_empty rfl
  global := held_init _ clock
  robots host := hostRobots_openDb limits stored host

theorem logOf_append (lim : Limiter) (e : Entry) (host : Host) :
    Limiter.logOf { lim with log := lim.log ++ [e] } host
      = lim.logOf host ++ if e.host = host then [e] else [] := by
  unfold Limiter.logOf
  rw [List.filter_append]
  congr 1
  split_ifs with heq <;> simp [heq]

theorem text_append (lim : Limiter) (e : Entry) (host : Host) :
    Limiter.text { lim with log := lim.log ++ [e] } host
      = (if e.host = host then e.text else none).or (lim.text host) := by
  unfold Limiter.text
  rw [logOf_append]
  split_ifs with heq
  · rw [List.filterMap_append, List.getLast?_append, Option.or_assoc]
    cases htext : e.text <;> simp [htext]
  · rw [List.append_nil, Option.none_or]

/-- The readings of the check and of the record of the system's frequency. -/
theorem globalTimes_bounds {r : CrawlReads} (h : (clock :: r.times).Pairwise (· ≤ ·))
    (rate : Rate) :
    clock ≤ rate.read r.globalCheck ∧ rate.read r.globalCheck ≤ r.decided ∧
      r.decided ≤ rate.read r.globalInc ∧ rate.read r.globalInc ≤ r.globalInc.day := by
  unfold CrawlReads.times at h
  simp only [List.pairwise_cons, List.forall_mem_cons, List.not_mem_nil, IsEmpty.forall_iff,
    implies_true, and_true] at h
  cases rate <;> unfold Rate.read <;> dsimp only <;> omega

namespace Sim

theorem mono {now : ℤ} (h : Sim db lim clock) (hle : clock ≤ now) : Sim db lim now where
  limits := h.limits
  host host := (h.host host).mono hle
  known := h.known
  global := h.global.mono hle
  robots := h.robots

variable {host : Host} {now : CrawlReads}

/-- **The check of the frequencies** lets through what the limiter lets through. -/
theorem fst_isAllowedFreq (h : Sim db lim clock) (htimes : (clock :: now.times).Pairwise (· ≤ ·))
    (host : Host) : (db.isAllowedFreq host now).1 = lim.lets host now := by
  rw [HostDb.isAllowedFreq_fst]
  unfold Limiter.lets
  have hheld := h.host host
  cases hhost : db.hostFreq[host]? with
  | none => rw [(h.known host).mp hhost, List.isEmpty_nil, Bool.true_or]
  | some hf =>
    have hne : (lim.logOf host).isEmpty = false := by
      rw [List.isEmpty_eq_false_iff, ne_eq, ← h.known host, hhost]
      exact nofun
    rw [hhost, Option.getD_some] at hheld
    dsimp only
    rw [hne, Bool.false_or, ← h.limits,
      hheld.fst_isAllowed fun rate => (times_bounds htimes rate).1,
      h.global.fst_isAllowed fun rate => (globalTimes_bounds htimes rate).1]

/-- The check cleans windows. -/
theorem isAllowedFreq (h : Sim db lim clock) (htimes : (clock :: now.times).Pairwise (· ≤ ·))
    (host : Host) : Sim (db.isAllowedFreq host now).2 lim now.decided := by
  have hle : clock ≤ now.decided :=
    (times_bounds htimes .min).1.trans (times_bounds htimes .min).2.1
  unfold HostDb.isAllowedFreq
  cases hhost : db.hostFreq[host]? with
  | none => exact h.mono hle
  | some hf =>
    have hheld := h.host host
    rw [hhost, Option.getD_some] at hheld
    have hcheck : Held _ (hf.isAllowed db.limits now.hostCheck).2 _ _ :=
      hheld.snd_isAllowed (fun rate => (times_bounds htimes rate).1)
        fun rate => (times_bounds htimes rate).2.1
    have hclean : Sim { db with
        hostFreq := db.hostFreq.insert host (hf.isAllowed db.limits now.hostCheck).2 } lim
        now.decided :=
      { limits := h.limits
        host := fun host' => by
          show Held _ ((db.hostFreq.insert host _)[host']?.getD .init) _ _
          rw [OrdMap.getElem?_insert]
          split_ifs with heq
          · exact heq ▸ hcheck
          · exact (h.host host').mono hle
        known := fun host' => by
          show (db.hostFreq.insert host _)[host']? = none ↔ _
          rw [← h.known host', OrdMap.getElem?_insert]
          split_ifs with heq
          · rw [← heq, hhost]
            exact iff_of_false nofun nofun
          · exact Iff.rfl
        global := h.global.mono hle
        robots := h.robots }
    dsimp only
    split_ifs
    · exact
        { hclean with
          global := h.global.snd_isAllowed (fun rate => (globalTimes_bounds htimes rate).1)
            fun rate => (globalTimes_bounds htimes rate).2.1 }
    · exact hclean

/-- An allowed crawl is counted and logged. -/
theorem setCrawling (h : Sim db lim now.decided)
    (htimes : (clock :: now.times).Pairwise (· ≤ ·)) (host : Host) :
    Sim (db.setCrawling host now) { lim with log := lim.log ++ [.crawl host now] }
      now.globalInc.day where
  limits := h.limits
  host host' := by
    have hle : now.decided ≤ now.globalInc.day :=
      (times_bounds htimes .min).2.2.1.trans (times_bounds htimes .min).2.2.2
    show Held _ ((db.hostFreq.alter host _)[host']?.getD .init) _ _
    rw [OrdMap.getElem?_alter, logOf_append]
    show Held _ _ (_ ++ if host = host' then [_] else []) _
    split_ifs with heq
    · subst heq
      exact (h.host host).incCrawling (fun rate => (times_bounds htimes rate).2.2.1)
        fun rate => (times_bounds htimes rate).2.2.2
    · rw [List.append_nil]
      exact (h.host host').mono hle
  known host' := by
    show (db.hostFreq.alter host _)[host']? = none ↔ _
    rw [OrdMap.getElem?_alter, logOf_append]
    show _ ↔ (_ ++ if host = host' then [_] else []) = []
    split_ifs with heq
    · exact iff_of_false nofun (List.append_ne_nil_of_right_ne_nil _ (List.cons_ne_nil _ _))
    · rw [List.append_nil]
      exact h.known host'
  global := h.global.incCrawling (fun rate => (globalTimes_bounds htimes rate).2.2.1)
    fun rate => (globalTimes_bounds htimes rate).2.2.2
  robots host' := by
    rw [text_append]
    show db.hostRobots[host']? = ((if host = host' then none else none).or _).map _
    rw [ite_self, Option.none_or]
    exact h.robots host'

/-- A result is counted and logged. -/
theorem onFetchedItem (h : Sim db lim clock) (result : FetchResult) :
    Sim (onFetchedItem c db result) (lim.after c (.onFetched result)) clock := by
  unfold Limiter.after
  dsimp only
  by_cases hok : (UrlParsed.ofUrl c result.gfq.url).ok = true
  · rw [if_pos hok]
    obtain ⟨text, htext⟩ : ∃ text : Option Str,
        text = if (result.isRobots && result.isOk) = true then some result.content else none :=
      ⟨_, rfl⟩
    rw [← htext]
    refine
      { limits := (limits_onFetchedItem db result).trans h.limits
        host := fun host' => ?_
        known := fun host' => ?_
        global := ?_
        robots := fun host' => ?_ }
    · rw [hostFreq_onFetchedItem hok, OrdMap.getElem?_alter, logOf_append]
      show Held _ _ (_ ++ if (UrlParsed.ofUrl c result.gfq.url).host = host' then [_] else []) _
      split_ifs with heq
      · subst heq
        exact (h.host _).decCrawling _ _
      · rw [List.append_nil]
        exact h.host host'
    · rw [hostFreq_onFetchedItem hok, OrdMap.getElem?_alter, logOf_append]
      show _ ↔ (_ ++ if (UrlParsed.ofUrl c result.gfq.url).host = host' then [_] else []) = []
      split_ifs with heq
      · exact iff_of_false nofun (List.append_ne_nil_of_right_ne_nil _ (List.cons_ne_nil _ _))
      · rw [List.append_nil]
        exact h.known host'
    · have hglobal : (HostDb.onFetchedItem c db result).globalFreq = db.globalFreq.decCrawling := by
        unfold HostDb.onFetchedItem
        dsimp only
        rw [if_pos hok]
        split_ifs <;> rfl
      rw [hglobal]
      exact h.global.decCrawling _ _
    · rw [(texts_onFetchedItem c db result host').1, text_append, h.robots host']
      show _ = ((if (UrlParsed.ofUrl c result.gfq.url).host = host' then _ else none).or _).map _
      unfold takes
      rw [hok, Bool.true_and]
      by_cases heq : (UrlParsed.ofUrl c result.gfq.url).host = host'
      · rw [if_pos heq, beq_iff_eq.mpr heq, Bool.true_and]
        show _ = (text.or _).map _
        rw [htext]
        split_ifs <;> rfl
      · rw [if_neg heq, beq_eq_false_iff_ne.mpr heq, Bool.false_and]
        rfl
  · unfold HostDb.onFetchedItem
    dsimp only
    rw [if_neg hok, if_neg hok]
    exact h

/-- **The decision** on a URL is the limiter's. -/
theorem decisionOn (h : Sim db lim clock) {α : Type} (url : α → Url) {item : α × CrawlReads}
    (htimes : (clock :: item.2.times).Pairwise (· ≤ ·)) :
    decisionOn c url db item = lim.decision c (url item.1) item.2 := by
  unfold HostDb.decisionOn Limiter.decision
  dsimp only
  rw [tryCrawlParsed_fst, h.fst_isAllowedFreq htimes]
  by_cases hok : (UrlParsed.ofUrl c (url item.1)).ok = true
  · rw [if_pos hok, if_pos hok]
    unfold isAllowedRobots
    by_cases hrobots : (UrlParsed.ofUrl c (url item.1)).isRobots = true
    · rw [if_pos hrobots, if_pos hrobots]
      rfl
    · rw [if_neg hrobots, if_neg hrobots, h.robots]
      cases lim.text (UrlParsed.ofUrl c (url item.1)).host with
      | none =>
        -- a robots URL is never empty
        have hne := UrlParsed.isEmpty_of_endsWith_robots (UrlParsed.endsWith_robots_ofUrl hok)
        simp [hne]
      | some text =>
        have hdefault : (default : Url).bytes.isEmpty = true := rfl
        dsimp only [Option.map_some]
        rw [if_pos hdefault]
  · rw [if_neg hok, if_neg hok]

/-- A URL that was tried. -/
theorem dbAfter (h : Sim db lim clock) {α : Type} (url : α → Url) {item : α × CrawlReads}
    (htimes : (clock :: item.2.times).Pairwise (· ≤ ·)) :
    Sim (dbAfter c url db item) (lim.after c (.tryCrawl (url item.1) item.2))
      item.2.globalInc.day := by
  obtain ⟨h1, h2, h3, h4⟩ := times_bounds htimes .min
  have hafter : lim.after c (.tryCrawl (url item.1) item.2)
      = if HostDb.decisionOn c url db item = .allow then
          { lim with log := lim.log ++ [.crawl (UrlParsed.ofUrl c (url item.1)).host item.2] }
        else lim := by
    rw [h.decisionOn url htimes]
    rfl
  rw [hafter]
  unfold HostDb.dbAfter HostDb.decisionOn
  by_cases hok : (UrlParsed.ofUrl c (url item.1)).ok = true
  · rw [if_pos hok, if_pos hok]
    rcases tryCrawlParsed_cases c db (UrlParsed.ofUrl c (url item.1)) item.2 with
      ⟨hne, heq | heq⟩ | ⟨hallow, -, -, heq⟩
    · rw [if_neg hne, heq]
      exact h.mono (h1.trans (h2.trans (h3.trans h4)))
    · rw [if_neg hne, heq]
      exact (h.isAllowedFreq htimes _).mono (h3.trans h4)
    · rw [if_pos hallow, heq]
      exact (h.isAllowedFreq htimes _).setCrawling htimes _
  · rw [if_neg hok, if_neg hok, if_neg nofun]
    exact h.mono (h1.trans (h2.trans (h3.trans h4)))

end Sim

/-! ### Calls and runs -/

/-- The readings of the clock during an event. -/
def Event.times : Event → List ℤ
  | .tryCrawl _ now => now.times
  | .onFetched _ => []

theorem Op.times_eq_flatMap (op : Op) : op.times = op.events.flatMap Event.times := by
  cases op with
  | tryCrawlUrls tryUrls =>
    show tryUrls.flatMap _ = (tryUrls.map _).flatMap Event.times
    rw [List.flatMap_map]
    rfl
  | tryCrawl tryUrls =>
    show tryUrls.flatMap _ = (tryUrls.map _).flatMap Event.times
    rw [List.flatMap_map]
    rfl
  | onFetched results =>
    show [] = (results.map Event.onFetched).flatMap Event.times
    rw [List.flatMap_map]
    exact (List.flatMap_eq_nil_iff.mpr fun _ _ => rfl).symm

theorem decisions_tryCrawlLoop {α β : Type} (c : Contribs) (url : α → Url)
    (out : α → UrlParsed → β) (db : HostDb) (items : List (α × CrawlReads)) :
    (tryCrawlLoop c url out db items).decisions
      = Unwinding.outputs (after c) (fun _ => true) (decided c) db
          (items.map fun item => .tryCrawl (url item.1) item.2) := by
  induction items using List.reverseRecOn with
  | nil => rfl
  | append_singleton items item ih =>
    rw [tryCrawlLoop_append, decisions_tryCrawlItem, List.map_append, Unwinding.outputs_append,
      ← ih, ← dbAt_eq_foldl, db_tryCrawlLoop]
    rfl

/-- The decisions of a call are those on its events. -/
theorem answer_eq_outputs (op : Op) :
    op.answer c db = Unwinding.outputs (after c) (fun _ => true) (decided c) db op.events := by
  cases op with
  | tryCrawlUrls tryUrls => exact decisions_tryCrawlLoop c id _ db tryUrls
  | tryCrawl tryUrls => exact decisions_tryCrawlLoop c GFQRecord.url _ db tryUrls
  | onFetched results =>
    show [] = Unwinding.outputs _ _ _ db (results.map Event.onFetched)
    induction results generalizing db with
    | nil => rfl
    | cons r results ih => exact ih

/-- One event, before others at the times `later`. -/
theorem Sim.event (h : Sim db lim clock) {e : Event} {later : List ℤ}
    (htimes : (clock :: (e.times ++ later)).Pairwise (· ≤ ·)) :
    (∀ es, lim.answer c (e :: es) = decided c db e ++ (lim.after c e).answer c es) ∧
      ∃ clock', Sim (after c db e) (lim.after c e) clock' ∧
        (clock' :: later).Pairwise (· ≤ ·) := by
  cases e with
  | tryCrawl url now =>
    rw [← List.cons_append, List.pairwise_append] at htimes
    obtain ⟨hnow, hlater, hcross⟩ := htimes
    refine ⟨fun es => ?_, now.globalInc.day, h.dbAfter id hnow, ?_⟩
    · have hdecision : HostDb.decisionOn c id db (url, now) = lim.decision c url now :=
        h.decisionOn id hnow
      show _ = [HostDb.decisionOn c id db (url, now)] ++ _
      rw [hdecision]
      rfl
    · refine List.pairwise_cons.mpr ⟨fun t ht => hcross _ ?_ t ht, hlater⟩
      show now.globalInc.day ∈ clock :: now.times
      simp [CrawlReads.times]
  | onFetched result => exact ⟨fun _ => rfl, clock, h.onFetchedItem result, htimes⟩

/-- The events of a call. -/
theorem Sim.events {es : List Event} (h : Sim db lim clock) {later : List ℤ}
    (htimes : (clock :: (es.flatMap Event.times ++ later)).Pairwise (· ≤ ·)) :
    Unwinding.outputs (after c) (fun _ => true) (decided c) db es = lim.answer c es ∧
      ∃ clock', Sim (es.foldl (after c) db) (es.foldl (Limiter.after c) lim) clock' ∧
        (clock' :: later).Pairwise (· ≤ ·) := by
  induction es generalizing db lim clock with
  | nil => exact ⟨rfl, clock, h, htimes⟩
  | cons e es ih =>
    rw [List.flatMap_cons, List.append_assoc] at htimes
    obtain ⟨hanswer, clock', hafter, hrest⟩ := h.event (c := c) htimes
    obtain ⟨hes, hlast⟩ := ih hafter hrest
    refine ⟨?_, hlast⟩
    rw [hanswer, ← hes]
    rfl

/-- The calls of a run. -/
theorem Sim.answers {l : List Op} (h : Sim db lim clock)
    (htimes : (clock :: l.flatMap Op.times).Pairwise (· ≤ ·)) :
    HostDb.answers c db l = lim.answers c l := by
  induction l generalizing db lim clock with
  | nil => rfl
  | cons op l ih =>
    rw [List.flatMap_cons, Op.times_eq_flatMap] at htimes
    obtain ⟨hanswer, clock', hafter, hrest⟩ := h.events (c := c) htimes
    rw [HostDb.answers, Limiter.answers, answer_eq_outputs, hanswer, operate_eq_foldl,
      Option.elim_some, ih hafter hrest]

/-- **The limiter.**  Under a clock that does not go back `HostDb` decides in every run, whatever
URLs it is asked and whatever results it is given, like the limiter that never forgets. -/
theorem answers_eq_limiter (c : Contribs) (limits : CrawlLimits) (stored : OrdMap Host Str)
    {l : List Op} (htimes : (l.flatMap Op.times).Pairwise (· ≤ ·)) :
    answers c (openDb limits stored) l = Limiter.answers c ⟨limits, stored, []⟩ l := by
  cases hl : l.flatMap Op.times with
  | nil =>
    apply (sim_openDb limits stored 0).answers
    rw [hl]
    exact List.pairwise_singleton _ _
  | cons clock times =>
    apply (sim_openDb limits stored clock).answers
    rw [hl] at htimes ⊢
    refine List.pairwise_cons.mpr ⟨?_, htimes⟩
    exact List.forall_mem_cons.mpr ⟨le_rfl, (List.pairwise_cons.mp htimes).1⟩

/-- A host is tried again when the only crawl of a minute is under way, when it is done, and when
the minute is over. -/
def oneAMinute : List Op :=
  [.tryCrawlUrls [(Str.ofString "http://a/robots.txt", .at 0),
      (Str.ofString "http://a/robots.txt", .at 0)],
    .onFetched [⟨⟨Str.ofString "http://a/robots.txt", 0⟩, .ok, default, default⟩],
    .tryCrawlUrls [(Str.ofString "http://a/b", .at 0)],
    .tryCrawlUrls [(Str.ofString "http://a/b", .at (seconds 61))]]

theorem answers_eq_limiter_oneAMinute :
    answers .plainHttp (openDb ⟨1, 1, 9, 9, 9⟩ ∅) oneAMinute
        = Limiter.answers .plainHttp ⟨⟨1, 1, 9, 9, 9⟩, ∅, []⟩ oneAMinute ∧
      answers .plainHttp (openDb ⟨1, 1, 9, 9, 9⟩ ∅) oneAMinute
        = [[.allow, .disallowFreq], [], [.disallowFreq], [.allow]] := by
  refine ⟨answers_eq_limiter .plainHttp ⟨1, 1, 9, 9, 9⟩ ∅ (by decide), ?_⟩
  decide

end HostDb

end Contentv1
