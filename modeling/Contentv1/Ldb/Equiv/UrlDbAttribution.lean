import Contentv1.Ldb.Equiv.UrlDb
import Contentv1.Lib.Machine

/-!
# Which attempt a result is credited to

A result carries the second of its attempt in `gfq.attempt_ts`, but `_setStatus` does not look at
it and writes the status to the last attempt of the URL.

`along_attributed_iff_meets_own`: the attempts carry the statuses of their own results all along a
run exactly when every result finds its own attempt at the end of the list, or statuses that
already are what they should become, and no URL is enqueued in a second for which a result came in.
-/

namespace Contentv1.UrlDb

/-- The database beside the results it was given so far. -/
structure Credited where
  db : UrlDb
  log : List FetchResult
  /-- No result has changed an attempt that is not its own. -/
  undisturbed : Prop

def Credited.init : Credited := ⟨default, [], True⟩

/-- One item of a call: `setEnqueued` and `onFetched` with several items are as many in a row. -/
inductive Item
  | enqueue (url : Url) (now : ℤ)
  | result (res : FetchResult) (now : ℤ)

/-- The second of an attempt, in which `gfq.attempt_ts` names it. -/
def second (misc : MiscTime) (a : CrawlAttempt) : ℤ := misc.toInt64 a.tp

/-- The attempts of `url` that the record `gfq` does not name. -/
def others (misc : MiscTime) (gfq : GFQRecord) (url : Url) (l : List CrawlAttempt) :
    List CrawlAttempt :=
  l.filter fun a => ¬(gfq.url = url ∧ gfq.attemptTs = second misc a)

/-- A result comes in for a stored attempt. -/
def creditItem (misc : MiscTime) (o : Credited) : Item → Option Credited
  | .enqueue url now => some { o with db := o.db.setEnqueuedUrl misc url now }
  | .result res now =>
    if ∃ a ∈ o.db.attemptsOf res.gfq.url, second misc a = res.gfq.attemptTs then
      (o.db.setStatus misc res now).map fun db =>
        { db := db
          log := o.log ++ [res]
          undisturbed := o.undisturbed ∧ ∀ url, others misc res.gfq url (db.attemptsOf url)
            = others misc res.gfq url (o.db.attemptsOf url) }
    else none

/-- The status that the results so far give to the attempts of a URL in a second. -/
def due (log : List FetchResult) (url : Url) (ts : ℤ) : AttemptStatus :=
  ((log.filter fun res => res.gfq = ⟨url, ts⟩).getLast?.map FetchResult.status).getD .enqueued

/-- Every attempt has the status of its own result, and no result touched another's. -/
structure Attributed (misc : MiscTime) (o : Credited) : Prop where
  status : ∀ url, ∀ a ∈ o.db.attemptsOf url, a.status = due o.log url (second misc a)
  undisturbed : o.undisturbed

/-- The item does not reach the defect. -/
def Item.Own (misc : MiscTime) (o : Credited) : Item → Prop
  | .enqueue url now => due o.log url (misc.toInt64 now) = .enqueued
  | .result res _ => ∀ init last, o.db.attemptsOf res.gfq.url = init ++ [last] →
    (second misc last = res.gfq.attemptTs ∨ last.status = res.status) ∧
      ∀ a ∈ init, second misc a = res.gfq.attemptTs → a.status = res.status

variable {misc : MiscTime} {o o' : Credited}

theorem due_append (log : List FetchResult) (res : FetchResult) (url : Url) (ts : ℤ) :
    due (log ++ [res]) url ts
      = if res.gfq.url = url ∧ res.gfq.attemptTs = ts then res.status else due log url ts := by
  have hiff : res.gfq = ⟨url, ts⟩ ↔ res.gfq.url = url ∧ res.gfq.attemptTs = ts := by
    rw [← GFQRecord.mk.injEq]
  unfold due
  rw [List.filter_append]
  by_cases h : res.gfq = ⟨url, ts⟩
  · rw [if_pos (hiff.mp h), List.filter_cons_of_pos (by simpa using h), List.filter_nil,
      List.getLast?_concat]
    rfl
  · rw [if_neg (hiff.not.mp h), List.filter_cons_of_neg (by simpa using h), List.filter_nil,
      List.append_nil]

/-- Enqueuing keeps the attribution exactly when no result has come in for that second. -/
theorem attributed_enqueue_iff (hsec : ∀ t, misc.toInt64 (misc.roundSecs t) = misc.toInt64 t)
    {url : Url} {now : ℤ} (ho : Attributed misc o) :
    Attributed misc { o with db := o.db.setEnqueuedUrl misc url now } ↔
      due o.log url (misc.toInt64 now) = .enqueued := by
  obtain ⟨k, hk⟩ := attemptsOf_setEnqueuedUrl misc o.db url now
  constructor
  · rintro ⟨hstatus, -⟩
    have hnew := hstatus url ⟨misc.roundSecs now, .enqueued⟩ (by
      show _ ∈ (o.db.setEnqueuedUrl misc url now).attemptsOf url
      rw [hk]
      exact List.mem_append_right _ (List.mem_singleton_self _))
    rw [second, hsec] at hnew
    exact hnew.symm
  · intro hdue
    refine ⟨fun url' a ha => ?_, ho.undisturbed⟩
    by_cases hurl : url = url'
    · subst hurl
      rw [show (o.db.setEnqueuedUrl misc url now).attemptsOf url = _ from hk] at ha
      rcases List.mem_append.mp ha with ha | ha
      · exact ho.status url a (List.mem_of_mem_drop ha)
      · rw [List.mem_singleton.mp ha, second, hsec]
        exact hdue.symm
    · rw [show (o.db.setEnqueuedUrl misc url now).attemptsOf url' = _ from
        attemptsOf_setEnqueuedUrl_of_ne hurl now] at ha
      exact ho.status url' a ha

/-- Rewriting the last attempt leaves the attempts that `gfq` does not name alone exactly when it
names the last one or nothing is rewritten. -/
theorem others_rewriteLast_iff {gfq : GFQRecord} {init : List CrawlAttempt} {last : CrawlAttempt}
    {status : AttemptStatus} :
    others misc gfq gfq.url (init ++ [{ last with status := status }])
        = others misc gfq gfq.url (init ++ [last]) ↔
      second misc last = gfq.attemptTs ∨ last.status = status := by
  unfold others
  rw [List.filter_append, List.filter_append, List.append_cancel_left_eq]
  by_cases hts : gfq.attemptTs = second misc last
  · rw [List.filter_cons_of_neg (by simpa [second] using hts),
      List.filter_cons_of_neg (by simpa using hts)]
    exact iff_of_true rfl (Or.inl hts.symm)
  · rw [List.filter_cons_of_pos (by simpa [second] using hts),
      List.filter_cons_of_pos (by simpa using hts)]
    constructor
    · intro h
      exact Or.inr (congrArg CrawlAttempt.status (List.cons.inj h).1).symm
    · rintro (h | rfl)
      · exact absurd h.symm hts
      · rfl

/-- A result keeps the attribution exactly when it is its own attempt that it is written to. -/
theorem attributed_result_iff {res : FetchResult} {now : ℤ} (ho : Attributed misc o)
    (h : creditItem misc o (.result res now) = some o') :
    Attributed misc o' ↔ Item.Own misc o (.result res now) := by
  rw [creditItem] at h
  split_ifs at h with hguard
  obtain ⟨db', hdb', rfl⟩ := Option.map_eq_some_iff.mp h
  have hne : o.db.attemptsOf res.gfq.url ≠ [] := by
    obtain ⟨a, ha, -⟩ := hguard
    exact List.ne_nil_of_mem ha
  obtain ⟨init, last, hafter, hbefore⟩ := setStatus_eq_some hdb'
  have hbefore := hbefore.resolve_right fun hnil => hne hnil.1
  have hother := fun url (hurl : res.gfq.url ≠ url) => attemptsOf_setStatus_of_ne hurl hdb'
  -- the whole effect of the result is at the end of its URL's list, so both sides are about it
  constructor
  · rintro ⟨hstatus, -, hrest⟩ init' last' heq
    rw [hbefore] at heq
    obtain ⟨rfl, hlast⟩ := List.append_inj' heq rfl
    obtain rfl : last = last' := (List.cons.inj hlast).1
    constructor
    · have hurl := hrest res.gfq.url
      rw [hbefore, hafter] at hurl
      exact others_rewriteLast_iff.mp hurl
    · intro a ha hts
      have hdue := hstatus res.gfq.url a (by
        rw [hafter]
        exact List.mem_append_left _ ha)
      rw [due_append, if_pos ⟨rfl, hts.symm⟩] at hdue
      exact hdue
  · intro hown
    obtain ⟨hlast, hinit⟩ := hown init last hbefore
    refine ⟨fun url a ha => ?_, ho.undisturbed, fun url => ?_⟩
    · by_cases hurl : res.gfq.url = url
      · subst hurl
        rw [due_append]
        rw [hafter] at ha
        rcases List.mem_append.mp ha with ha | ha
        · have hold := ho.status _ a (hbefore ▸ List.mem_append_left _ ha)
          split_ifs with hts
          · exact hinit a ha hts.2.symm
          · exact hold
        · obtain rfl := List.mem_singleton.mp ha
          have hold := ho.status _ last (hbefore ▸ List.mem_append_right _ (by simp))
          split_ifs with hts
          · rfl
          · have hts' : second misc last ≠ res.gfq.attemptTs := fun h => hts ⟨rfl, h.symm⟩
            exact (hlast.resolve_left hts').symm.trans hold
      · rw [due_append, if_neg fun hts => hurl hts.1]
        rw [hother url hurl] at ha
        exact ho.status url a ha
    · by_cases hurl : res.gfq.url = url
      · subst hurl
        rw [hbefore, hafter]
        exact others_rewriteLast_iff.mpr hlast
      · rw [hother url hurl]

theorem attributed_creditItem_iff (hsec : ∀ t, misc.toInt64 (misc.roundSecs t) = misc.toInt64 t)
    {item : Item} (ho : Attributed misc o) (h : creditItem misc o item = some o') :
    Attributed misc o' ↔ item.Own misc o := by
  cases item with
  | enqueue url now =>
    obtain rfl := Option.some.inj h
    exact attributed_enqueue_iff hsec ho
  | result res now => exact attributed_result_iff ho h

theorem attributed_init : Attributed misc .init := by
  refine ⟨fun url a ha => ?_, trivial⟩
  rw [show (Credited.init.db).attemptsOf url = [] from attemptsOf_default url] at ha
  cases ha

/-- **Results are credited to their own attempts** along a run exactly when every result finds its
own attempt at the end of the list. -/
theorem along_attributed_iff_meets_own (misc : MiscTime)
    (hsec : ∀ t, misc.toInt64 (misc.roundSecs t) = misc.toInt64 t) {l : List Item} {o : Credited}
    (hrun : Machine.run (creditItem misc) .init l = some o) :
    Machine.Along (creditItem misc) (Attributed misc) .init l ↔
      Machine.Meets (creditItem misc) (fun o item => item.Own misc o) .init l := by
  have hI : ∀ (s : Credited) (a : Item) (t : Credited), creditItem misc s a = some t →
    True → True := fun _ _ _ _ _ => trivial
  refine Machine.along_iff_meets hI ?_ hrun trivial attributed_init
  intro s item t hstep _ hs
  exact attributed_creditItem_iff hsec hs hstep

def okResult (ts : ℤ) : FetchResult := ⟨⟨Str.ofString "http://a/", ts⟩, .ok, default, default⟩

/-- A result that comes in before its URL is enqueued again. -/
def promptResult : List Item :=
  [.enqueue (Str.ofString "http://a/") 0, .result (okResult 0) (seconds 1),
    .enqueue (Str.ofString "http://a/") (days 1)]

theorem along_attributed_iff_meets_own_prompt :
    Machine.Along (creditItem .nearEpoch) (Attributed .nearEpoch) .init promptResult ↔
      Machine.Meets (creditItem .nearEpoch) (fun o item => item.Own .nearEpoch o) .init
        promptResult := by
  have hsec (t : ℤ) :
      MiscTime.nearEpoch.toInt64 (MiscTime.nearEpoch.roundSecs t)
        = MiscTime.nearEpoch.toInt64 t :=
    Int.mul_ediv_cancel _ (by decide)
  have hrun : (Machine.run (creditItem .nearEpoch) .init promptResult).isSome := by decide
  exact along_attributed_iff_meets_own .nearEpoch hsec (Option.some_get hrun).symm

/-- A result that comes in after its URL was enqueued again. -/
def lateResult : List Item :=
  [.enqueue (Str.ofString "http://a/") 0, .enqueue (Str.ofString "http://a/") (days 1),
    .result (okResult 0) (days 1)]

/-- The late result leaves its own attempt enqueued. -/
theorem not_along_attributed_late :
    ∃ o, Machine.run (creditItem .nearEpoch) .init lateResult = some o ∧
      ¬ Machine.Along (creditItem .nearEpoch) (Attributed .nearEpoch) .init lateResult := by
  refine ⟨_, rfl, fun h => ?_⟩
  have hlast := h.last rfl
  have hstatus := hlast.status (Str.ofString "http://a/") ⟨0, .enqueued⟩ (by decide)
  exact absurd hstatus (by decide)

end Contentv1.UrlDb
