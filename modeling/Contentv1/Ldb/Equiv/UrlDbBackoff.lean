import Contentv1.Ldb.Equiv.UrlDbPolicy

/-!
# The wait after server errors

A page whose last attempts were 4xx or 5xx waits twice as long after each of them.
`backoffDoubles_iff_stops` says of which URLs this is true: of those with an attempt that did not
fail, for the count leaves out the first attempt of a list.
-/

namespace Contentv1.UrlDb

open CrawlAttempts (failing failuresAtEnd Stops)

variable {db : UrlDb} {url url' : Url} {wait wait' : ℤ}

/-- `_IsNeedCrawl` allows the URL from so many hours after its last attempt on. -/
def WaitsFor (db : UrlDb) (url : Url) (wait : ℤ) : Prop :=
  ∀ last, (db.attemptsOf url).getLast? = some last →
    ∀ now, db.isNeedCrawl url now = .allow ↔ hours wait ≤ now - last.tp

/-- What the policy says of two URLs: the failures at the end of their histories are counted, the
same number of them imposes the same wait, and one more twice the wait.  Of ten attempts no more
than ten have failed. -/
structure BackoffDoubles (db : UrlDb) (url url' : Url) : Prop where
  count : (CrawlAttempts.mk (db.attemptsOf url)).last4xx5xxCount
    = failuresAtEnd (db.attemptsOf url)
  count' : (CrawlAttempts.mk (db.attemptsOf url')).last4xx5xxCount
    = failuresAtEnd (db.attemptsOf url')
  same : 1 ≤ failuresAtEnd (db.attemptsOf url) →
    failuresAtEnd (db.attemptsOf url') = failuresAtEnd (db.attemptsOf url) →
    failuresAtEnd (db.attemptsOf url') ≤ CrawlAttempts.lastStoreAttempts →
    ∀ wait, WaitsFor db url wait ↔ WaitsFor db url' wait
  double : 1 ≤ failuresAtEnd (db.attemptsOf url) →
    failuresAtEnd (db.attemptsOf url') = failuresAtEnd (db.attemptsOf url) + 1 →
    failuresAtEnd (db.attemptsOf url') ≤ CrawlAttempts.lastStoreAttempts →
    ∀ wait, WaitsFor db url wait ↔ WaitsFor db url' (2 * wait)

/-- Where there are failures at the end the last attempt is one. -/
theorem exists_getLast?_of_failures {attempts : List CrawlAttempt}
    (h : 1 ≤ failuresAtEnd attempts) :
    ∃ last, attempts.getLast? = some last ∧ failing last = true := by
  rcases attempts.eq_nil_or_concat' with rfl | ⟨init, last, rfl⟩
  · exact absurd h (by decide)
  · refine ⟨last, List.getLast?_concat, ?_⟩
    by_contra hfail
    unfold failuresAtEnd at h
    rw [List.rtakeWhile_concat_neg _ _ _ hfail] at h
    exact absurd h (by decide)

theorem pageWait_of_failing {attempts : CrawlAttempts} {last : CrawlAttempt}
    (h : failing last = true) : pageWait attempts last = 2 ^ attempts.last4xx5xxCount := by
  rw [← waitHours_eq]
  obtain ⟨tp, status⟩ := last
  cases status <;> first
    | rfl
    | cases h

/-- There is one wait after a failure. -/
theorem waitsFor_iff (h : 1 ≤ failuresAtEnd (db.attemptsOf url)) :
    WaitsFor db url wait ↔ wait = 2 ^ (CrawlAttempts.mk (db.attemptsOf url)).last4xx5xxCount := by
  obtain ⟨last, hlast, hfail⟩ := exists_getLast?_of_failures h
  have hallow : ∀ now, db.isNeedCrawl url now = .allow ↔
      hours (2 ^ (CrawlAttempts.mk (db.attemptsOf url)).last4xx5xxCount) ≤ now - last.tp := by
    intro now
    rw [isNeedCrawl_eq_allow_iff hlast, pageWait_of_failing hfail]
  generalize (2 : ℤ) ^ (CrawlAttempts.mk (db.attemptsOf url)).last4xx5xxCount = wait' at hallow ⊢
  constructor
  · intro hwaits
    -- each of the two waits is over where the other is
    have hle := (hwaits last hlast (last.tp + hours wait')).mp ((hallow _).mpr (by omega))
    have hge := (hallow (last.tp + hours wait)).mp ((hwaits last hlast _).mpr (by omega))
    unfold hours seconds ticksPerSec at hle hge
    omega
  · rintro rfl last' hlast' now
    obtain rfl := Option.some.inj (hlast.symm.trans hlast')
    exact hallow now

/-- **Where the wait doubles.**  For any two URLs, the policy counts their failures and doubles the
wait with each of them exactly if neither history consists of failures alone. -/
theorem backoffDoubles_iff_stops (db : UrlDb) (url url' : Url) :
    BackoffDoubles db url url' ↔ Stops (db.attemptsOf url) ∧ Stops (db.attemptsOf url') := by
  rw [← CrawlAttempts.last4xx5xxCount_eq_iff ⟨db.attemptsOf url⟩,
    ← CrawlAttempts.last4xx5xxCount_eq_iff ⟨db.attemptsOf url'⟩]
  constructor
  · exact fun h => ⟨h.count, h.count'⟩
  · rintro ⟨hcount, hcount'⟩
    refine ⟨hcount, hcount', fun hone heq _ wait => ?_, fun hone heq _ wait => ?_⟩
    · rw [waitsFor_iff hone, waitsFor_iff (by omega), hcount, hcount']
      dsimp only
      rw [heq]
    · rw [waitsFor_iff hone, waitsFor_iff (by omega), hcount, hcount']
      dsimp only
      rw [heq, pow_succ]
      omega

/-- Two pages with one failure at the end, of which only one was ever fetched. -/
def oneFailure : UrlDb :=
  ⟨((∅ : OrdMap Url CrawlAttempts).insert (Str.ofString "http://a/") ⟨[⟨0, .s4xx⟩]⟩).insert
    (Str.ofString "http://b/") ⟨[⟨0, .ok⟩, ⟨days 7, .s4xx⟩]⟩⟩

/-- The one waits for an hour and the other for two. -/
theorem not_backoffDoubles_oneFailure :
    oneFailure.isNeedCrawl (Str.ofString "http://a/") (hours 1) = .allow ∧
      oneFailure.isNeedCrawl (Str.ofString "http://b/") (days 7 + hours 1)
        = .disallowWaitX2Time ∧
      ¬ ∀ (db : UrlDb) (url url' : Url), BackoffDoubles db url url' := by
  refine ⟨by decide, by decide, fun h => ?_⟩
  exact absurd (h oneFailure (Str.ofString "http://a/") (Str.ofString "http://b/")).count
    (by decide)

end Contentv1.UrlDb
