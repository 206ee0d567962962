import Contentv1.Ldb.UrlDb

/-!
# When a URL is crawled again (`ldb/UrlDbPolicy.cpp`, `ldb/UrlDbPolicyRobots.cpp`)

Both policies look at the last attempt of a URL and at its age.  Pages and robots URLs wait for
different times.
-/

namespace Contentv1

/-- `EUrlCrawlDecisionPb`. -/
inductive EUrlCrawlDecision
  | allow
  | disallowNoUrl
  | disallowNoReason
  | disallowTryInHour
  | disallowWaitX2Time
  | disallowTryInADay
  | disallowTryInAWeek
  deriving DecidableEq, Repr

namespace UrlDb

/-- Allowed from `wait` whole hours after the attempt on. -/
def afterHours (wait now tp : ℤ) (disallow : EUrlCrawlDecision) : EUrlCrawlDecision :=
  if wait ≤ durationCastHours (now - tp) then .allow else disallow

/-- Allowed from `wait` whole days after the attempt on. -/
def afterDays (wait now tp : ℤ) (disallow : EUrlCrawlDecision) : EUrlCrawlDecision :=
  if wait ≤ durationCastDays (now - tp) then .allow else disallow

/-- `wait_hours` of a URL whose last attempts were 4xx or 5xx.  An `int` holds it, for no list has
more than ten attempts. -/
def waitHours (last4xx5xxCount : ℕ) : ℤ :=
  (List.range last4xx5xxCount).foldl (fun waitHours _ => waitHours * 2) 1

/-- The policy for pages.  Its six cases are all statuses there are, so that the last line of the
source, which gives `disallowNoReason`, is never reached. -/
def policy (attempts : CrawlAttempts) (lastAttempt : CrawlAttempt) (now : ℤ) : EUrlCrawlDecision :=
  match lastAttempt.status with
  | .curlErr => afterHours 1 now lastAttempt.tp .disallowTryInHour
  | .enqueued => afterHours 24 now lastAttempt.tp .disallowTryInADay
  | .pending => afterHours 1 now lastAttempt.tp .disallowTryInHour
  | .ok => afterDays 7 now lastAttempt.tp .disallowTryInAWeek
  | .s4xx | .s5xx =>
    afterHours (waitHours attempts.last4xx5xxCount) now lastAttempt.tp .disallowWaitX2Time

/-- The policy for robots URLs. -/
def policyRobots (lastAttempt : CrawlAttempt) (now : ℤ) : EUrlCrawlDecision :=
  match lastAttempt.status with
  | .curlErr => afterHours 24 now lastAttempt.tp .disallowTryInADay
  | .enqueued => afterHours 1 now lastAttempt.tp .disallowTryInHour
  | .pending => afterHours 1 now lastAttempt.tp .disallowTryInHour
  -- whole days here, against 24 hours
  | .ok => afterDays 1 now lastAttempt.tp .disallowTryInADay
  | .s4xx | .s5xx => afterHours 24 now lastAttempt.tp .disallowTryInADay

/-- What both decisions have in common: a URL without attempts is allowed. -/
def decideBy (policy : CrawlAttempts → CrawlAttempt → ℤ → EUrlCrawlDecision) (db : UrlDb)
    (url : Url) (now : ℤ) : EUrlCrawlDecision :=
  match db.urlCrawlAttempts[url]? with
  | none => .allow
  | some attempts =>
    match attempts.attempts.getLast? with
    | none => .allow
    | some lastAttempt => policy attempts lastAttempt now

/-- `_IsNeedCrawl`. -/
def isNeedCrawl (db : UrlDb) (url : Url) (now : ℤ) : EUrlCrawlDecision :=
  db.decideBy policy url now

/-- `_IsNeedCrawlRobots`. -/
def isNeedCrawlRobots (db : UrlDb) (robotsUrl : Url) (now : ℤ) : EUrlCrawlDecision :=
  db.decideBy (fun _ => policyRobots) robotsUrl now

/-- The loop of `leaveNeedUrls` and `leaveNeedRobots`: a decision for each URL, and the allowed
ones. -/
def leaveNeed (isNeed : Url → EUrlCrawlDecision) (inUrls : List UrlFreq) :
    List EUrlCrawlDecision × List UrlFreq :=
  inUrls.foldl
    (fun acc uf =>
      let decision := isNeed uf.1
      (acc.1 ++ [decision], if decision = .allow then acc.2 ++ [uf] else acc.2)) ([], [])

def leaveNeedUrls (db : UrlDb) (inUrls : List UrlFreq) (now : ℤ) :
    List EUrlCrawlDecision × List UrlFreq :=
  leaveNeed (fun url => db.isNeedCrawl url now) inUrls

def leaveNeedRobots (db : UrlDb) (inRobots : List UrlFreq) (now : ℤ) :
    List EUrlCrawlDecision × List UrlFreq :=
  leaveNeed (fun url => db.isNeedCrawlRobots url now) inRobots

end UrlDb

end Contentv1
