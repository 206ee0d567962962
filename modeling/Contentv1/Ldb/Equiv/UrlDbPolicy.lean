import Contentv1.Ldb.UrlDbPolicy
import Contentv1.Ldb.Equiv.UrlDb
import Mathlib.Data.List.Induction

/-!
# What the policies promise

* `isNeedCrawl_eq_allow_iff` and `isNeedCrawlRobots_eq_allow_iff`: each policy is a threshold, the
  wait after the last attempt.
* `hour_le_of_isNeedCrawl` and `hour_le_of_isNeedCrawlRobots`: whatever the status, a URL is allowed
  no earlier than an hour after its last attempt.
* `isNeedCrawl_of_ok` and `isNeedCrawlRobots_of_ok`: a URL that was fetched waits for a week, a
  robots URL for a day.
* `mem_leaveNeed`: the loops leave the allowed URLs.
-/

namespace Contentv1.UrlDb

variable {db : UrlDb} {url : Url} {now : ℤ} {last : CrawlAttempt}

theorem afterHours_eq_allow {wait tp : ℤ} {disallow : EUrlCrawlDecision} (hne : disallow ≠ .allow)
    (hwait : 0 < wait) : afterHours wait now tp disallow = .allow ↔ hours wait ≤ now - tp := by
  unfold afterHours
  rw [← le_durationCastHours_iff hwait]
  split_ifs with h <;> simp [h, hne]

theorem afterDays_eq_allow {wait tp : ℤ} {disallow : EUrlCrawlDecision} (hne : disallow ≠ .allow)
    (hwait : 0 < wait) : afterDays wait now tp disallow = .allow ↔ days wait ≤ now - tp := by
  unfold afterDays
  rw [← le_durationCastDays_iff hwait]
  split_ifs with h <;> simp [h, hne]

/-- The wait doubles with every 4xx or 5xx. -/
theorem waitHours_eq (count : ℕ) : waitHours count = 2 ^ count := by
  unfold waitHours
  induction count with
  | zero => rfl
  | succ count ih => rw [List.range_succ, List.foldl_append, ih, pow_succ]; rfl

theorem hours_le_hours {m n : ℤ} (h : m ≤ n) : hours m ≤ hours n := by
  unfold hours seconds ticksPerSec
  omega

theorem waitHours_pos (count : ℕ) : 0 < waitHours count := by
  rw [waitHours_eq]
  exact pow_pos two_pos count

/-! ### Thresholds -/

/-- The hours that a page waits after its last attempt. -/
def pageWait (attempts : CrawlAttempts) (last : CrawlAttempt) : ℤ :=
  match last.status with
  | .curlErr | .pending => 1
  | .enqueued => 24
  | .ok => 7 * 24
  | .s4xx | .s5xx => waitHours attempts.last4xx5xxCount

/-- The hours that a robots URL waits after its last attempt. -/
def robotsWait (last : CrawlAttempt) : ℤ :=
  match last.status with
  | .enqueued | .pending => 1
  | .curlErr | .ok | .s4xx | .s5xx => 24

theorem pageWait_pos (attempts : CrawlAttempts) (last : CrawlAttempt) :
    0 < pageWait attempts last := by
  unfold pageWait
  cases last.status with
  | curlErr | pending | enqueued | ok =>
    dsimp only
    omega
  | s4xx | s5xx => exact waitHours_pos _

theorem robotsWait_pos (last : CrawlAttempt) : 0 < robotsWait last := by
  unfold robotsWait
  cases last.status <;> decide

/-- A page is allowed from its wait on. -/
theorem policy_eq_allow_iff {attempts : CrawlAttempts} :
    policy attempts last now = .allow ↔ hours (pageWait attempts last) ≤ now - last.tp := by
  obtain ⟨tp, status⟩ := last
  cases status with
  | curlErr | pending => exact afterHours_eq_allow (by decide) one_pos
  | enqueued => exact afterHours_eq_allow (by decide) (by decide)
  | ok => exact afterDays_eq_allow (by decide) (by decide)
  | s4xx | s5xx => exact afterHours_eq_allow (by decide) (waitHours_pos _)

/-- A robots URL is allowed from its wait on. -/
theorem policyRobots_eq_allow_iff :
    policyRobots last now = .allow ↔ hours (robotsWait last) ≤ now - last.tp := by
  obtain ⟨tp, status⟩ := last
  cases status with
  | enqueued | pending => exact afterHours_eq_allow (by decide) one_pos
  | curlErr | s4xx | s5xx => exact afterHours_eq_allow (by decide) (by decide)
  | ok => exact afterDays_eq_allow (by decide) one_pos

/-- A decision is the policy's for the last attempt. -/
theorem decideBy_of_getLast? {policy : CrawlAttempts → CrawlAttempt → ℤ → EUrlCrawlDecision}
    (hlast : (db.attemptsOf url).getLast? = some last) :
    db.decideBy policy url now = policy ⟨db.attemptsOf url⟩ last now := by
  unfold attemptsOf at hlast ⊢
  unfold decideBy
  cases hurl : db.urlCrawlAttempts[url]? with
  | none =>
    rw [hurl] at hlast
    cases hlast
  | some attempts =>
    rw [hurl, Option.elim_some] at hlast
    dsimp only
    rw [hlast, Option.elim_some]

/-- A URL without attempts is allowed. -/
theorem decideBy_of_getLast?_eq_none
    {policy : CrawlAttempts → CrawlAttempt → ℤ → EUrlCrawlDecision}
    (hlast : (db.attemptsOf url).getLast? = none) : db.decideBy policy url now = .allow := by
  unfold attemptsOf at hlast
  unfold decideBy
  cases hurl : db.urlCrawlAttempts[url]? with
  | none => rfl
  | some attempts =>
    rw [hurl, Option.elim_some] at hlast
    dsimp only
    rw [hlast]

theorem isNeedCrawl_eq_allow_iff (hlast : (db.attemptsOf url).getLast? = some last) :
    db.isNeedCrawl url now = .allow ↔
      hours (pageWait ⟨db.attemptsOf url⟩ last) ≤ now - last.tp := by
  rw [isNeedCrawl, decideBy_of_getLast? hlast, policy_eq_allow_iff]

theorem isNeedCrawlRobots_eq_allow_iff (hlast : (db.attemptsOf url).getLast? = some last) :
    db.isNeedCrawlRobots url now = .allow ↔ hours (robotsWait last) ≤ now - last.tp := by
  rw [isNeedCrawlRobots, decideBy_of_getLast? hlast, policyRobots_eq_allow_iff]

/-! ### An hour at least -/

/-- **Pages wait for an hour at least.** -/
theorem hour_le_of_isNeedCrawl (hlast : (db.attemptsOf url).getLast? = some last)
    (h : db.isNeedCrawl url now = .allow) : hours 1 ≤ now - last.tp :=
  (hours_le_hours (pageWait_pos _ last)).trans ((isNeedCrawl_eq_allow_iff hlast).mp h)

/-- **Robots URLs wait for an hour at least.** -/
theorem hour_le_of_isNeedCrawlRobots (hlast : (db.attemptsOf url).getLast? = some last)
    (h : db.isNeedCrawlRobots url now = .allow) : hours 1 ≤ now - last.tp :=
  (hours_le_hours (robotsWait_pos last)).trans ((isNeedCrawlRobots_eq_allow_iff hlast).mp h)

/-! ### After success -/

theorem isNeedCrawl_of_ok (hlast : (db.attemptsOf url).getLast? = some last)
    (hok : last.status = .ok) :
    db.isNeedCrawl url now = .allow ↔ days 7 ≤ now - last.tp := by
  rw [isNeedCrawl_eq_allow_iff hlast, pageWait, hok]
  exact Iff.rfl

theorem isNeedCrawlRobots_of_ok (hlast : (db.attemptsOf url).getLast? = some last)
    (hok : last.status = .ok) :
    db.isNeedCrawlRobots url now = .allow ↔ days 1 ≤ now - last.tp := by
  rw [isNeedCrawlRobots_eq_allow_iff hlast, robotsWait, hok]
  exact Iff.rfl

/-! ### The loops -/

/-- The loop in closed form. -/
theorem leaveNeed_eq (isNeed : Url → EUrlCrawlDecision) (inUrls : List UrlFreq) :
    leaveNeed isNeed inUrls
      = (inUrls.map fun uf => isNeed uf.1, inUrls.filter fun uf => isNeed uf.1 = .allow) := by
  unfold leaveNeed
  induction inUrls using List.reverseRecOn with
  | nil => rfl
  | append_singleton inUrls uf ih =>
    rw [List.foldl_append, ih, List.map_append, List.filter_append]
    by_cases hallow : isNeed uf.1 = .allow <;> simp [hallow]

theorem mem_leaveNeed {isNeed : Url → EUrlCrawlDecision} {inUrls : List UrlFreq} {uf : UrlFreq} :
    uf ∈ (leaveNeed isNeed inUrls).2 ↔ uf ∈ inUrls ∧ isNeed uf.1 = .allow := by
  rw [leaveNeed_eq, List.mem_filter, decide_eq_true_eq]

theorem mem_map_fst_leaveNeed {isNeed : Url → EUrlCrawlDecision} {inUrls : List UrlFreq} :
    url ∈ (leaveNeed isNeed inUrls).2.map Prod.fst ↔
      url ∈ inUrls.map Prod.fst ∧ isNeed url = .allow := by
  simp only [List.mem_map, mem_leaveNeed]
  constructor
  · rintro ⟨uf, ⟨hmem, hallow⟩, rfl⟩
    exact ⟨⟨uf, hmem, rfl⟩, hallow⟩
  · rintro ⟨⟨uf, hmem, rfl⟩, hallow⟩
    exact ⟨uf, ⟨hmem, hallow⟩, rfl⟩

end Contentv1.UrlDb
