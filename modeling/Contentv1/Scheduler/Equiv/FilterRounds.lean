import Contentv1.Scheduler.FilterRounds
import Contentv1.Ldb.Equiv.UrlDbPolicy
import Contentv1.Lib.Machine

/-!
# An hour between two rounds of a URL

* `run_filter`: the three labels of a filter, one right after another, are `needCrawlUrls`.
* `searchReads_append`: what a search leaves is what its last filter left.
* `inv_step`: the last attempt of a URL is no earlier than the last round that has entered it,
  whatever results come in, so that what a filter leaves is rested from all these rounds.
* `hour_between_rounds`: in every run, a URL that two rounds push has rested for an hour in between.
-/

namespace Contentv1.FilterRounds

open EnqueueLoop

variable {env : Env} {s t : State}

/-! ### The search -/

/-- A filter without anybody between its calls. -/
theorem run_filter {pushTarget : ℤ} {reads : List FilterRead}
    (hth : s.th = .searching pushTarget reads) {now : ℤ} (hclock : s.clock ≤ now)
    {topUrls needRobotsUniq : List UrlFreq}
    (huniq : ReduceUrlFreqs (s.hostDb.leaveAllowedByRobots env.contribs topUrls).needRobots
      needRobotsUniq) (max : ℤ) :
    Machine.run (step env) s
        [.leaveAllowedByRobots topUrls now, .leaveNeedUrls, .leaveNeedRobots needRobotsUniq max]
      = some { s with
          th := afterFilter env pushTarget
            (reads ++ [⟨(needCrawlUrls env.contribs s.hostDb s.urlDb topUrls needRobotsUniq now).2,
              max⟩]) now
          clock := now } := by
  simp only [Machine.run, step, hth, if_pos hclock, Option.bind_some, if_pos huniq]
  rfl

theorem searchTopLoop_append {pushTarget topCur : ℤ} {reads : List FilterRead} {read : FilterRead}
    {pushUrls : List UrlFreq} (hnone : searchTopLoop pushTarget topCur reads = none)
    (h : searchTopLoop pushTarget topCur (reads ++ [read]) = some pushUrls) :
    pushUrls = read.pushUrls := by
  induction reads generalizing topCur with
  | nil =>
    rw [List.nil_append] at h
    unfold searchTopLoop at h
    dsimp only at h
    split_ifs at h with henough hceiling
    · exact (Option.some.inj h).symm
    · exact (Option.some.inj h).symm
    · cases h
  | cons first reads ih =>
    rw [List.cons_append] at h
    unfold searchTopLoop at h hnone
    dsimp only at h hnone
    split_ifs at h hnone with henough hceiling
    exact ih hnone h

/-- Limited or not, the URLs of a search are among those it found. -/
theorem mem_of_searchTop (hlimit : ∀ v n, env.limitVector v n ⊆ v) {pushTarget : ℤ}
    {first pushUrls : List UrlFreq} {reads : List FilterRead}
    (h : searchTop env.limitVector pushTarget first reads = some pushUrls) :
    ∃ found, (if pushTarget ≤ first.length then some first
        else searchTopLoop pushTarget pushTarget reads) = some found ∧ pushUrls ⊆ found := by
  unfold searchTop at h
  obtain ⟨found, hfound, rfl⟩ := Option.map_eq_some_iff.mp h
  refine ⟨found, hfound, ?_⟩
  split_ifs
  · exact hlimit found pushTarget
  · exact List.Subset.refl found

/-- **The last filter decides.**  A search that has gone on until now ends with URLs of the filter
that ends it. -/
theorem searchReads_append (hlimit : ∀ v n, env.limitVector v n ⊆ v) {pushTarget : ℤ}
    {reads : List FilterRead} {read : FilterRead} {pushUrls : List UrlFreq}
    (hnone : searchReads env pushTarget reads = none)
    (h : searchReads env pushTarget (reads ++ [read]) = some pushUrls) :
    pushUrls ⊆ read.pushUrls := by
  cases reads with
  | nil =>
    obtain ⟨found, hfound, hsub⟩ := mem_of_searchTop hlimit h
    split_ifs at hfound
    · obtain rfl := Option.some.inj hfound
      exact hsub
    · cases hfound
  | cons first reads =>
    obtain ⟨found, hfound, hsub⟩ := mem_of_searchTop hlimit h
    unfold searchReads searchTop at hnone
    rw [Option.map_eq_none_iff] at hnone
    split_ifs at hfound hnone
    obtain rfl := searchTopLoop_append hnone hfound
    exact hsub

/-! ### Rested URLs -/

/-- An hour has passed at `now` since all rounds that pushed the URL. -/
def Rested (misc : MiscTime) (rounds : List Round) (now : ℤ) (url : Url) : Prop :=
  ∀ round ∈ rounds, url ∈ round.urls → hours 1 ≤ now - misc.roundSecs round.attemptTp

/-- The URLs of both rounds have rested in between. -/
def RestedBetween (misc : MiscTime) (round later : Round) : Prop :=
  ∀ url ∈ round.urls, url ∈ later.urls →
    hours 1 ≤ later.filterNow - misc.roundSecs round.attemptTp

/-- The last attempt of a URL is no earlier than any round that has entered it. -/
def Entered (misc : MiscTime) (rounds : List Round) (urlDb : UrlDb) : Prop :=
  ∀ round ∈ rounds, ∀ url ∈ round.urls, ∃ tp, misc.roundSecs round.attemptTp ≤ tp ∧
    (urlDb.attemptsOf url).getLast?.map CrawlAttempt.tp = some tp

/-- What the place of the thread says. -/
def ThInv (env : Env) (rounds : List Round) (clock : ℤ) : Th → Prop
  | .idle => True
  | .searching pushTarget reads => searchReads env pushTarget reads = none
  | .allowed pushTarget reads _ _ _ => searchReads env pushTarget reads = none
  | .needed pushTarget reads now needUrls _ =>
    searchReads env pushTarget reads = none ∧ ∀ u ∈ needUrls, Rested env.misc rounds now u.1
  | .found pushUrls now => ∀ u ∈ pushUrls, Rested env.misc rounds now u.1
  | .pushed round =>
    (∀ url ∈ round.urls, Rested env.misc rounds round.filterNow url) ∧
      (∀ earlier ∈ rounds, earlier.attemptTp ≤ round.attemptTp) ∧ round.attemptTp ≤ clock

/-- What holds in every run. -/
structure Inv (env : Env) (s : State) : Prop where
  rested : s.rounds.Pairwise (RestedBetween env.misc)
  entered : Entered env.misc s.rounds s.urlDb
  clock : ∀ round ∈ s.rounds, round.attemptTp ≤ s.clock
  th : ThInv env s.rounds s.clock s.th

/-! ### One lemma for each label -/

theorem step_calcToEnqueueNow {pushTarget : ℤ} :
    step env s (.calcToEnqueueNow pushTarget) = some t ↔
      s.th = .idle ∧
        { s with
          th := if pushTarget ≤ 0 then .found [] s.clock else .searching pushTarget [] } = t := by
  unfold step
  cases s.th <;> simp

theorem step_leaveAllowedByRobots {topUrls : List UrlFreq} {now : ℤ} :
    step env s (.leaveAllowedByRobots topUrls now) = some t ↔
      ∃ pushTarget reads, s.th = .searching pushTarget reads ∧ s.clock ≤ now ∧
        { s with
          th := .allowed pushTarget reads now
            (s.hostDb.leaveAllowedByRobots env.contribs topUrls).allowed
            (s.hostDb.leaveAllowedByRobots env.contribs topUrls).needRobots
          clock := now } = t := by
  unfold step
  cases s.th <;> simp

theorem step_leaveNeedUrls :
    step env s .leaveNeedUrls = some t ↔
      ∃ pushTarget reads now allowedUrls needRobots,
        s.th = .allowed pushTarget reads now allowedUrls needRobots ∧
        { s with
          th := .needed pushTarget reads now (s.urlDb.leaveNeedUrls allowedUrls now).2
            needRobots } = t := by
  unfold step
  cases s.th <;> simp

theorem step_leaveNeedRobots {needRobotsUniq : List UrlFreq} {max : ℤ} :
    step env s (.leaveNeedRobots needRobotsUniq max) = some t ↔
      ∃ pushTarget reads now needUrls needRobots,
        s.th = .needed pushTarget reads now needUrls needRobots ∧
        ReduceUrlFreqs needRobots needRobotsUniq ∧
        { s with
          th := afterFilter env pushTarget
            (reads ++ [⟨(s.urlDb.leaveNeedRobots needRobotsUniq now).2 ++ needUrls, max⟩])
            now } = t := by
  unfold step
  cases s.th <;> simp

theorem step_pushToKafka {attemptTp : ℤ} :
    step env s (.pushToKafka attemptTp) = some t ↔
      ∃ pushUrls now, s.th = .found pushUrls now ∧ s.clock ≤ attemptTp ∧
        { s with
          th := .pushed ⟨toUrlsVec pushUrls, now, attemptTp⟩
          clock := attemptTp } = t := by
  unfold step
  cases s.th <;> simp

theorem step_setEnqueued :
    step env s .setEnqueued = some t ↔
      ∃ round, s.th = .pushed round ∧
        { s with
          th := .idle
          urlDb := s.urlDb.setEnqueued env.misc round.urls round.attemptTp
          rounds := s.rounds ++ [round] } = t := by
  unfold step
  cases s.th <;> simp

theorem step_onFetched {results : List FetchResult} {now : ℤ} :
    step env s (.onFetched results now) = some t ↔
      ∃ urlDb, s.urlDb.onFetched env.misc results now = some urlDb ∧
        { s with urlDb := urlDb } = t :=
  Option.map_eq_some_iff

/-! ### What has entered `UrlDb` -/

section Entered

variable {misc : MiscTime} {rounds : List Round} {urlDb urlDb' : UrlDb} {now : ℤ} {url : Url}

theorem Entered.rested (hentered : Entered misc rounds urlDb)
    (hwait : ∀ last, (urlDb.attemptsOf url).getLast? = some last → hours 1 ≤ now - last.tp) :
    Rested misc rounds now url := by
  intro round hround hurl
  obtain ⟨tp, htp, htpLast⟩ := hentered round hround url hurl
  obtain ⟨last, hlast, rfl⟩ := Option.map_eq_some_iff.mp htpLast
  calc hours 1 ≤ now - last.tp := hwait last hlast
    _ ≤ now - misc.roundSecs round.attemptTp := sub_le_sub_left htp now

theorem rested_leaveNeedUrls (hentered : Entered misc rounds urlDb) {allowedUrls : List UrlFreq} :
    ∀ u ∈ (urlDb.leaveNeedUrls allowedUrls now).2, Rested misc rounds now u.1 := by
  intro u hu
  have hallow : urlDb.isNeedCrawl u.1 now = .allow := (UrlDb.mem_leaveNeed.mp hu).2
  exact hentered.rested fun last hlast => UrlDb.hour_le_of_isNeedCrawl hlast hallow

theorem rested_leaveNeedRobots (hentered : Entered misc rounds urlDb)
    {needRobotsUniq : List UrlFreq} :
    ∀ u ∈ (urlDb.leaveNeedRobots needRobotsUniq now).2, Rested misc rounds now u.1 := by
  intro u hu
  have hallow : urlDb.isNeedCrawlRobots u.1 now = .allow := (UrlDb.mem_leaveNeed.mp hu).2
  exact hentered.rested fun last hlast => UrlDb.hour_le_of_isNeedCrawlRobots hlast hallow

/-- A round that is later than all before it enters last attempts of its own. -/
theorem Entered.setEnqueued (hround : misc.RoundsInOrder) (hentered : Entered misc rounds urlDb)
    {round : Round} (hlater : ∀ earlier ∈ rounds, earlier.attemptTp ≤ round.attemptTp) :
    Entered misc (rounds ++ [round])
      (urlDb.setEnqueued misc round.urls round.attemptTp) := by
  have hle : ∀ r ∈ rounds ++ [round], r.attemptTp ≤ round.attemptTp := by
    intro r hr
    rcases List.mem_append.mp hr with hr | hr
    · exact hlater r hr
    · rw [List.mem_singleton.mp hr]
  intro r hr url hurl
  rw [UrlDb.getLast?_setEnqueued]
  split_ifs with hown
  · exact ⟨_, hround (hle r hr), rfl⟩
  · rcases List.mem_append.mp hr with hr | hr
    · exact hentered r hr url hurl
    · rw [List.mem_singleton.mp hr] at hurl
      exact absurd hurl hown

/-- Results change the status of a last attempt only. -/
theorem Entered.onFetched (hentered : Entered misc rounds urlDb) {results : List FetchResult}
    (h : urlDb.onFetched misc results now = some urlDb') : Entered misc rounds urlDb' := by
  intro round hround url hurl
  obtain ⟨tp, htp, hlast⟩ := hentered round hround url hurl
  exact ⟨tp, htp, UrlDb.tp_getLast?_onFetched h hlast⟩

end Entered

/-! ### Every run -/

/-- The steps that neither enter a round nor touch `UrlDb`. -/
theorem Inv.of_th (hs : Inv env s) (hrounds : t.rounds = s.rounds) (hdb : t.urlDb = s.urlDb)
    (hclock : s.clock ≤ t.clock) (hth : ThInv env s.rounds t.clock t.th) : Inv env t := by
  refine ⟨?_, ?_, ?_, ?_⟩
  · rw [hrounds]
    exact hs.rested
  · rw [hrounds, hdb]
    exact hs.entered
  · rw [hrounds]
    exact fun round hround => (hs.clock round hround).trans hclock
  · rw [hrounds]
    exact hth

/-- The round that is under way has rested from those before it. -/
theorem Inv.pushedRounds (hs : Inv env s) : s.pushedRounds.Pairwise (RestedBetween env.misc) := by
  have hplace := hs.th
  unfold State.pushedRounds
  cases hth : s.th with
  | pushed round =>
    rw [hth] at hplace
    refine List.pairwise_append.mpr ⟨hs.rested, List.pairwise_singleton _ _, ?_⟩
    intro earlier hearlier later hl
    rw [List.mem_singleton.mp hl]
    exact fun url hin hurl => hplace.1 url hurl earlier hearlier hin
  | _ => exact hs.rested

theorem thInv_afterFilter (hlimit : ∀ v n, env.limitVector v n ⊆ v) {rounds : List Round}
    {pushTarget clock now : ℤ} {reads : List FilterRead} {read : FilterRead}
    (hnone : searchReads env pushTarget reads = none)
    (hrested : ∀ u ∈ read.pushUrls, Rested env.misc rounds now u.1) :
    ThInv env rounds clock (afterFilter env pushTarget (reads ++ [read]) now) := by
  unfold afterFilter
  cases hsearch : searchReads env pushTarget (reads ++ [read]) with
  | none => exact hsearch
  | some pushUrls =>
    have hsub : pushUrls ⊆ read.pushUrls := searchReads_append hlimit hnone hsearch
    exact fun u hu => hrested u (hsub hu)

theorem inv_init (env : Env) (hostDb : HostDb) (urlDb : UrlDb) (clock : ℤ) :
    Inv env (.init hostDb urlDb clock) :=
  ⟨List.Pairwise.nil, nofun, nofun, trivial⟩

theorem inv_step (hround : env.misc.RoundsInOrder) (hlimit : ∀ v n, env.limitVector v n ⊆ v)
    {a : Label} (h : step env s a = some t) (hs : Inv env s) : Inv env t := by
  have hplace := hs.th
  cases a with
  | calcToEnqueueNow pushTarget =>
    obtain ⟨-, rfl⟩ := step_calcToEnqueueNow.mp h
    refine hs.of_th rfl rfl le_rfl ?_
    dsimp only
    split_ifs
    · exact nofun
    · exact rfl
  | leaveAllowedByRobots topUrls now =>
    obtain ⟨pushTarget, reads, hth, hclock, rfl⟩ := step_leaveAllowedByRobots.mp h
    rw [hth] at hplace
    exact hs.of_th rfl rfl hclock hplace
  | leaveNeedUrls =>
    obtain ⟨pushTarget, reads, now, allowedUrls, needRobots, hth, rfl⟩ := step_leaveNeedUrls.mp h
    rw [hth] at hplace
    exact hs.of_th rfl rfl le_rfl ⟨hplace, rested_leaveNeedUrls hs.entered⟩
  | leaveNeedRobots needRobotsUniq max =>
    obtain ⟨pushTarget, reads, now, needUrls, needRobots, hth, -, rfl⟩ :=
      step_leaveNeedRobots.mp h
    rw [hth] at hplace
    obtain ⟨hnone, hurls⟩ := hplace
    refine hs.of_th rfl rfl le_rfl (thInv_afterFilter hlimit hnone fun u hu => ?_)
    rcases List.mem_append.mp hu with hu | hu
    · exact rested_leaveNeedRobots hs.entered u hu
    · exact hurls u hu
  | pushToKafka attemptTp =>
    obtain ⟨pushUrls, now, hth, hclock, rfl⟩ := step_pushToKafka.mp h
    rw [hth] at hplace
    refine hs.of_th rfl rfl hclock ⟨fun url hurl => ?_, fun earlier hearlier => ?_, le_rfl⟩
    · obtain ⟨u, hu, rfl⟩ := List.mem_map.mp hurl
      exact hplace u hu
    · exact (hs.clock earlier hearlier).trans hclock
  | setEnqueued =>
    obtain ⟨round, hth, rfl⟩ := step_setEnqueued.mp h
    have hrested := hs.pushedRounds
    rw [State.pushedRounds, hth] at hrested
    rw [hth] at hplace
    obtain ⟨-, hlater, hclock⟩ := hplace
    refine ⟨hrested, hs.entered.setEnqueued hround hlater, fun r hr => ?_, trivial⟩
    rcases List.mem_append.mp hr with hr | hr
    · exact hs.clock r hr
    · rw [List.mem_singleton.mp hr]
      exact hclock
  | onFetched results now =>
    obtain ⟨urlDb, hdb, rfl⟩ := step_onFetched.mp h
    exact ⟨hs.rested, hs.entered.onFetched hdb, hs.clock, hplace⟩
  | hostOnFetched results =>
    obtain rfl := Option.some.inj h
    exact hs.of_th rfl rfl le_rfl hplace

/-- **An hour between two rounds of a URL.**  In every run, from any stores and with any results in
between, a URL that a round and a later one push has rested for an hour: from the attempt that
`UrlDb` recorded for the first to what the filter of the second read on the clock. -/
theorem hour_between_rounds (env : Env) (hround : env.misc.RoundsInOrder)
    (hlimit : ∀ v n, env.limitVector v n ⊆ v) (hostDb : HostDb) (urlDb : UrlDb) (clock : ℤ)
    {l : List Label} (hrun : Machine.run (step env) (.init hostDb urlDb clock) l = some s) :
    s.pushedRounds.Pairwise (RestedBetween env.misc) := by
  have hinv : Inv env s := Machine.run_induction (P := Inv env)
    (fun s a t h hs => inv_step hround hlimit h hs) hrun (inv_init env hostDb urlDb clock)
  exact hinv.pushedRounds

/-! ### A robots URL pushed twice -/

/-- The plain libraries near the epoch. -/
def Env.plain : Env where
  contribs := .plainHttp
  misc := .nearEpoch
  limitVector v n := v.take n.toNat

/-- A round on the page `http://a/x`, whose host's text is not known, with a result for its robots
URL before the attempt is entered. -/
def roundOn (now attemptTp : ℤ) : List Label :=
  [.calcToEnqueueNow 1, .leaveAllowedByRobots [(Str.ofString "http://a/x", 1)] now,
    .leaveNeedUrls, .leaveNeedRobots [(Str.ofString "http://a/robots.txt", 1)] 1,
    .pushToKafka attemptTp,
    .onFetched [⟨⟨Str.ofString "http://a/robots.txt", 1⟩, .curlErr, default, default⟩] attemptTp,
    .setEnqueued]

theorem hour_between_rounds_robots :
    ∃ s, Machine.run (step .plain) (.init (.openDb ⟨1, 1, 1, 1, 1⟩ ∅) default 0)
        (roundOn (seconds 1) (seconds 2) ++ roundOn (seconds 3602) (seconds 3603)) = some s ∧
      s.pushedRounds = [⟨[Str.ofString "http://a/robots.txt"], seconds 1, seconds 2⟩,
        ⟨[Str.ofString "http://a/robots.txt"], seconds 3602, seconds 3603⟩] ∧
      s.pushedRounds.Pairwise (RestedBetween .nearEpoch) := by
  have hrun : ∃ s, Machine.run (step .plain) (.init (.openDb ⟨1, 1, 1, 1, 1⟩ ∅) default 0)
        (roundOn (seconds 1) (seconds 2) ++ roundOn (seconds 3602) (seconds 3603)) = some s ∧
      s.pushedRounds = [⟨[Str.ofString "http://a/robots.txt"], seconds 1, seconds 2⟩,
        ⟨[Str.ofString "http://a/robots.txt"], seconds 3602, seconds 3603⟩] := by
    decide +kernel
  obtain ⟨s, hs, hrounds⟩ := hrun
  have hround : Env.plain.misc.RoundsInOrder := MiscTime.roundsInOrder_nearEpoch
  have hlimit : ∀ v n, Env.plain.limitVector v n ⊆ v := fun v n => List.take_subset n.toNat v
  exact ⟨s, hs, hrounds,
    hour_between_rounds .plain hround hlimit (.openDb ⟨1, 1, 1, 1, 1⟩ ∅) default 0 hs⟩

end Contentv1.FilterRounds
