import Contentv1.Core.CrawlAttempts
import Mathlib.Data.List.DropRight
import Mathlib.Tactic.SplitIfs

/-!
# What the operations of `CrawlAttempts` do

* `attempts_add_eq`: what `add` keeps of the earlier attempts, and the new one at the end.
* `findsAdded_iff`: when `set` at the time that `add` returned finds the new attempt.  The time is
  stored rounded and returned as it was given, and `set` looks from the front.
* `last4xx5xxCount_eq_iff`: when `last4xx5xxCount` counts all failures at the end.  Its loop never
  looks at the first attempt.
-/

namespace Contentv1.CrawlAttempts

/-! ### Adding -/

/-- The earlier attempts that `add` leaves. -/
def kept (ca : CrawlAttempts) : List CrawlAttempt :=
  ca.attempts.drop (ca.attempts.length + 1 - lastStoreAttempts)

theorem attempts_add_eq (misc : MiscTime) (ca : CrawlAttempts) (tp : ℤ) :
    (ca.add misc tp).2.attempts = ca.kept ++ [⟨misc.roundSecs tp, .enqueued⟩] := by
  show (ca.attempts ++ [_]).drop ((ca.attempts ++ [_]).length - lastStoreAttempts) = _
  rw [List.length_append, List.length_singleton]
  have hle : ca.attempts.length + 1 - lastStoreAttempts ≤ ca.attempts.length := by
    unfold lastStoreAttempts
    omega
  exact List.drop_append_of_le_length hle

theorem attempts_add (misc : MiscTime) (ca : CrawlAttempts) (tp : ℤ) :
    ∃ k, (ca.add misc tp).2.attempts = ca.attempts.drop k ++ [⟨misc.roundSecs tp, .enqueued⟩] :=
  ⟨_, attempts_add_eq misc ca tp⟩

theorem length_attempts_add_le (misc : MiscTime) (ca : CrawlAttempts) (tp : ℤ) :
    (ca.add misc tp).2.attempts.length ≤ lastStoreAttempts := by
  rw [attempts_add_eq, kept, List.length_append, List.length_drop, List.length_singleton]
  unfold lastStoreAttempts
  omega

/-! ### Setting the last status -/

theorem setLastStatus_eq_some {ca ca' : CrawlAttempts} {status : AttemptStatus} :
    ca.setLastStatus status = some ca' ↔
      ∃ init last, ca.attempts = init ++ [last] ∧
        ca'.attempts = init ++ [{ last with status := status }] := by
  unfold setLastStatus
  rcases ca.attempts.eq_nil_or_concat' with hnil | ⟨init, last, hcons⟩
  · rw [hnil]
    constructor
    · intro h
      cases h
    · rintro ⟨init, last, h, -⟩
      exact absurd h.symm (List.append_ne_nil_of_right_ne_nil init (List.cons_ne_nil last []))
  · rw [hcons, List.getLast?_concat, Option.map_some, List.dropLast_concat]
    constructor
    · intro h
      rw [← Option.some.inj h]
      exact ⟨init, last, rfl, rfl⟩
    · rintro ⟨init', last', heq, hattempts⟩
      obtain ⟨rfl, hlast⟩ := List.append_inj' heq rfl
      obtain rfl : last = last' := (List.cons.inj hlast).1
      rw [← hattempts]

/-! ### Setting by the time -/

theorem setLoop_of_find?_eq_none {tp : ℤ} {status : AttemptStatus} {l : List CrawlAttempt}
    (h : l.find? (fun a => a.tp = tp) = none) : setLoop tp status l = none := by
  induction l with
  | nil => rfl
  | cons a l ih =>
    obtain ⟨ha, hl⟩ : a.tp ≠ tp ∧ l.find? (fun a => a.tp = tp) = none := by simpa using h
    rw [setLoop, if_neg ha, ih hl, Option.map_none]

/-- The first attempt at the time takes the status, so nothing changes if it has that already. -/
theorem setLoop_of_find?_eq_some {tp : ℤ} (status : AttemptStatus) {l : List CrawlAttempt}
    {a : CrawlAttempt} (h : l.find? (fun a => a.tp = tp) = some a) :
    ∃ l', setLoop tp status l = some l' ∧ (l' = l ↔ a.status = status) := by
  induction l with
  | nil => cases h
  | cons b l ih =>
    by_cases hb : b.tp = tp
    · rw [List.find?_cons_of_pos (by simpa using hb)] at h
      obtain rfl := Option.some.inj h
      refine ⟨_, by rw [setLoop, if_pos hb], ?_⟩
      rw [List.cons.injEq, and_iff_left rfl]
      obtain ⟨_, bstatus⟩ := b
      simp [eq_comm]
    · rw [List.find?_cons_of_neg (by simpa using hb)] at h
      obtain ⟨l', hl', hiff⟩ := ih h
      refine ⟨b :: l', by rw [setLoop, if_neg hb, hl', Option.map_some], ?_⟩
      rw [List.cons.injEq, and_iff_right rfl, hiff]

/-- The loop comes to the new attempt only where no earlier one has the time. -/
theorem setLoop_append_singleton (tp : ℤ) (status : AttemptStatus) (l : List CrawlAttempt)
    (last : CrawlAttempt) :
    setLoop tp status (l ++ [last])
      = (setLoop tp status l).elim
          (if last.tp = tp then some (l ++ [{ last with status := status }]) else none)
          fun l' => some (l' ++ [last]) := by
  induction l with
  | nil => rw [List.nil_append, setLoop]; rfl
  | cons a l ih =>
    rw [List.cons_append, setLoop, setLoop]
    by_cases ha : a.tp = tp
    · rw [if_pos ha, if_pos ha, Option.elim_some, List.cons_append]
    · rw [if_neg ha, if_neg ha, ih]
      cases setLoop tp status l with
      | none =>
        rw [Option.elim_none, Option.map_none, Option.elim_none]
        split_ifs <;> rfl
      | some l' => rfl

/-- `set` at the time that `add` returned gives the status to the attempt just added and changes
nothing else. -/
def FindsAdded (misc : MiscTime) (ca : CrawlAttempts) (tp : ℤ) (status : AttemptStatus) : Prop :=
  let added := ca.add misc tp
  let found := added.2.set added.1 status
  found.1 = true ∧ added.2.setLastStatus status = some found.2

instance (misc : MiscTime) (ca : CrawlAttempts) (tp : ℤ) (status : AttemptStatus) :
    Decidable (FindsAdded misc ca tp status) :=
  inferInstanceAs (Decidable (_ ∧ _))

/-- No earlier attempt is in the way of a whole second; or one is, and there is nothing to
change. -/
def AddedIsFirst (misc : MiscTime) (ca : CrawlAttempts) (tp : ℤ) (status : AttemptStatus) : Prop :=
  match ca.kept.find? fun a => a.tp = tp with
  | none => misc.roundSecs tp = tp
  | some a => a.status = .enqueued ∧ status = .enqueued

/-- **Finding an attempt again.**  For every list, time and status, `set` at the time that `add`
returned finds the attempt just added exactly if the time is a whole second that no earlier attempt
has, or if the first one that has it is enqueued and is to stay so. -/
theorem findsAdded_iff (misc : MiscTime) (ca : CrawlAttempts) (tp : ℤ) (status : AttemptStatus) :
    FindsAdded misc ca tp status ↔ AddedIsFirst misc ca tp status := by
  have hadd := attempts_add_eq misc ca tp
  have hlast : (ca.add misc tp).2.setLastStatus status
      = some ⟨ca.kept ++ [⟨misc.roundSecs tp, status⟩]⟩ :=
    setLastStatus_eq_some.mpr ⟨_, _, hadd, rfl⟩
  have hloop := setLoop_append_singleton tp status ca.kept ⟨misc.roundSecs tp, .enqueued⟩
  rw [← hadd] at hloop
  show (set (ca.add misc tp).2 tp status).1 = true ∧
    setLastStatus (ca.add misc tp).2 status = some (set (ca.add misc tp).2 tp status).2 ↔ _
  unfold set AddedIsFirst
  rw [hlast, hloop]
  cases hfind : ca.kept.find? fun a => a.tp = tp with
  | none =>
    rw [setLoop_of_find?_eq_none hfind, Option.elim_none]
    split_ifs with htp
    · exact iff_of_true ⟨rfl, rfl⟩ htp
    · exact iff_of_false (fun h => h.1) htp
  | some a =>
    obtain ⟨l', hl', hiff⟩ := setLoop_of_find?_eq_some status hfind
    rw [hl', Option.elim_some]
    show true = true ∧ some (CrawlAttempts.mk _) = some (CrawlAttempts.mk _) ↔
      a.status = .enqueued ∧ status = .enqueued
    constructor
    · rintro ⟨-, heq⟩
      have hlists := congrArg attempts (Option.some.inj heq)
      obtain ⟨hkept, hnew⟩ := List.append_inj' hlists rfl
      have hstatus : status = .enqueued := congrArg CrawlAttempt.status (List.cons.inj hnew).1
      exact ⟨(hiff.mp hkept.symm).trans hstatus, hstatus⟩
    · rintro ⟨ha, rfl⟩
      rw [hiff.mpr ha]
      exact ⟨rfl, rfl⟩

/-- Half a second after the epoch. -/
theorem not_findsAdded_halfSecond :
    ¬ ∀ (ca : CrawlAttempts) (tp : ℤ) (status : AttemptStatus),
      FindsAdded .nearEpoch ca tp status := by
  intro h
  exact absurd (h ⟨[]⟩ (ticksPerSec / 2) .ok) (by decide)

/-! ### Failures at the end -/

/-- The attempt got a 4xx or a 5xx. -/
def failing (a : CrawlAttempt) : Bool := a.status == .s4xx || a.status == .s5xx

/-- The length of the longest suffix of failing attempts. -/
def failuresAtEnd (attempts : List CrawlAttempt) : ℕ := (attempts.rtakeWhile failing).length

/-- There is an attempt at which the loop of `last4xx5xxCount` has a reason to stop. -/
def Stops (attempts : List CrawlAttempt) : Prop :=
  attempts = [] ∨ ∃ a ∈ attempts, failing a = false

instance (attempts : List CrawlAttempt) : Decidable (Stops attempts) :=
  inferInstanceAs (Decidable (_ ∨ _))

theorem failuresAtEnd_of_forall {l : List CrawlAttempt} (h : ∀ a ∈ l, failing a = true) :
    failuresAtEnd l = l.length := by
  rw [failuresAtEnd, List.rtakeWhile_eq_self_iff.mpr h]

/-- The first attempt counts only where all after it have failed. -/
theorem failuresAtEnd_cons_of_exists {a b : CrawlAttempt} {l : List CrawlAttempt} (hb : b ∈ l)
    (hfail : failing b = false) : failuresAtEnd (a :: l) = failuresAtEnd l := by
  have hne : (l.reverse.takeWhile failing).length ≠ l.reverse.length := by
    intro hlen
    have heq := (List.takeWhile_prefix failing).eq_of_length hlen
    have hall := List.takeWhile_eq_self_iff.mp heq b (List.mem_reverse.mpr hb)
    rw [hfail] at hall
    cases hall
  unfold failuresAtEnd List.rtakeWhile
  rw [List.reverse_cons, List.takeWhile_append, if_neg hne]

theorem failuresAtEnd_cons_of_forall {a : CrawlAttempt} {l : List CrawlAttempt}
    (ha : failing a = false) (h : ∀ b ∈ l, failing b = true) :
    failuresAtEnd (a :: l) = l.length := by
  have hrev : ∀ b ∈ l.reverse, failing b = true := fun b hb => h b (List.mem_reverse.mp hb)
  have hstop : [a].takeWhile failing = [] := List.takeWhile_cons_of_neg (by rw [ha]; decide)
  unfold failuresAtEnd List.rtakeWhile
  rw [List.reverse_cons, List.takeWhile_append_of_pos hrev, hstop, List.append_nil,
    List.reverse_reverse]

/-- The loop leaves out the first attempt. -/
theorem last4xx5xxCount_eq (ca : CrawlAttempts) :
    ca.last4xx5xxCount = failuresAtEnd (ca.attempts.drop 1) := by
  unfold last4xx5xxCount failuresAtEnd List.rtakeWhile
  rw [List.length_reverse]
  rfl

theorem last4xx5xxCount_eq_iff (ca : CrawlAttempts) :
    ca.last4xx5xxCount = failuresAtEnd ca.attempts ↔ Stops ca.attempts := by
  rw [last4xx5xxCount_eq]
  cases ca.attempts with
  | nil => exact iff_of_true rfl (Or.inl rfl)
  | cons a l =>
    rw [List.drop_one, List.tail_cons]
    by_cases hl : ∀ b ∈ l, failing b = true
    · rw [failuresAtEnd_of_forall hl]
      cases ha : failing a with
      | false =>
        exact iff_of_true (failuresAtEnd_cons_of_forall ha hl).symm
          (Or.inr ⟨a, List.mem_cons_self, ha⟩)
      | true =>
        have hall : ∀ b ∈ a :: l, failing b = true := List.forall_mem_cons.mpr ⟨ha, hl⟩
        rw [failuresAtEnd_of_forall hall, List.length_cons]
        refine iff_of_false (Nat.succ_ne_self _).symm ?_
        rintro (hnil | ⟨b, hb, hfail⟩)
        · cases hnil
        · rw [hall b hb] at hfail
          cases hfail
    · obtain ⟨b, hb, hfail⟩ : ∃ b ∈ l, failing b = false := by simpa using hl
      exact iff_of_true (failuresAtEnd_cons_of_exists hb hfail).symm
        (Or.inr ⟨b, List.mem_cons_of_mem a hb, hfail⟩)

end Contentv1.CrawlAttempts
