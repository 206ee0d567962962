import Contentv1.Core.FetchResult
import Contentv1.Core.Pb

/-!
# The attempts to crawl a URL (`core/CrawlAttempts.cpp`)

The last ten attempts in the order in which they were added; the methods expect them sorted by
time.
-/

namespace Contentv1

structure CrawlAttempt where
  tp : ℤ
  status : AttemptStatus
  deriving DecidableEq, Repr

structure CrawlAttempts where
  attempts : List CrawlAttempt
  deriving DecidableEq, Repr

/-- `CrawlAttemptsPb::CrawlAttempt`; `dump` sets both of its fields. -/
structure CrawlAttemptPb where
  ts : ℤ
  status : AttemptStatus
  deriving DecidableEq, Repr

/-- The message has no `string` field. -/
abbrev CrawlAttemptsPb := Proto3 (List CrawlAttemptPb) fun _ => []

namespace CrawlAttempts

instance : Inhabited CrawlAttempts := ⟨⟨[]⟩⟩

/-- `LAST_STORE_ATTEMPTS`. -/
def lastStoreAttempts : ℕ := 10

/-- Append an `enqueued` attempt at the second of `tp` and drop the oldest ones beyond the last
ten.  The source returns `tp` as it was given. -/
def add (misc : MiscTime) (ca : CrawlAttempts) (tp : ℤ) : ℤ × CrawlAttempts :=
  let attempts := ca.attempts ++ [⟨misc.roundSecs tp, .enqueued⟩]
  (tp, ⟨attempts.drop (attempts.length - lastStoreAttempts)⟩)

/-- The loop of `set`: the first attempt at `tp` takes the status. -/
def setLoop (tp : ℤ) (status : AttemptStatus) : List CrawlAttempt → Option (List CrawlAttempt)
  | [] => none
  | a :: attempts =>
    if a.tp = tp then some ({ a with status := status } :: attempts)
    else (setLoop tp status attempts).map fun attempts => a :: attempts

/-- `set` by the time of an attempt, and whether there is one. -/
def set (ca : CrawlAttempts) (tp : ℤ) (status : AttemptStatus) : Bool × CrawlAttempts :=
  match setLoop tp status ca.attempts with
  | some attempts => (true, ⟨attempts⟩)
  | none => (false, ca)

/-- `getLast().status = status`; `getLast` throws where there is no attempt. -/
def setLastStatus (ca : CrawlAttempts) (status : AttemptStatus) : Option CrawlAttempts :=
  ca.attempts.getLast?.map fun last => ⟨ca.attempts.dropLast ++ [{ last with status := status }]⟩

/-- The number of 4xx and 5xx attempts at the end.  The loop stops before the first attempt of the
list, which is never counted. -/
def last4xx5xxCount (ca : CrawlAttempts) : ℕ :=
  ((ca.attempts.drop 1).reverse.takeWhile fun a => a.status == .s4xx || a.status == .s5xx).length

def dump (misc : MiscTime) (pb : CrawlAttemptsPb) (ca : CrawlAttempts) : pb.Dump :=
  pb.serialize (ca.attempts.map fun a => ⟨misc.toInt64 a.tp, a.status⟩)

/-- The constructor from a dump. -/
def ofDump (misc : MiscTime) (pb : CrawlAttemptsPb) (dump : pb.Dump) : Except Str CrawlAttempts :=
  match pb.parse dump with
  | none => .error (Str.ofString "CrawlAttempts::CrawlAttempts parsing")
  | some attemptsPb => .ok ⟨attemptsPb.map fun a => ⟨misc.fromInt64 a.ts, a.status⟩⟩

end CrawlAttempts

end Contentv1
