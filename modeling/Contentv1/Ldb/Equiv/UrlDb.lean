import Contentv1.Ldb.UrlDb
import Contentv1.Core.Equiv.CrawlAttempts

/-!
# What the operations of `UrlDb` do to the attempts

`attemptsOf db url` is the attempt list of a URL.  Enqueuing puts one more attempt at its end and
may drop some at its front (`attemptsOf_setEnqueuedUrl`); a result rewrites the status of its end
(`setStatus_eq_some`), whichever attempt it belongs to.  So the time of the last attempt is the one
of the last enqueuing, whatever results come in (`getLast?_setEnqueued`, `tp_getLast?_onFetched`).
-/

namespace Contentv1

namespace UrlDb

variable {misc : MiscTime} {db db' : UrlDb}

/-- The stored attempts of a URL. -/
def attemptsOf (db : UrlDb) (url : Url) : List CrawlAttempt :=
  db.urlCrawlAttempts[url]?.elim [] CrawlAttempts.attempts

theorem attemptsOf_eq_getD (db : UrlDb) (url : Url) :
    db.attemptsOf url = (db.urlCrawlAttempts[url]?.getD default).attempts := by
  unfold attemptsOf
  cases db.urlCrawlAttempts[url]? <;> rfl

@[simp] theorem attemptsOf_default (url : Url) : (default : UrlDb).attemptsOf url = [] := by
  show ((∅ : OrdMap Url CrawlAttempts)[url]?).elim [] _ = []
  rw [Std.ExtTreeMap.getElem?_empty, Option.elim_none]

theorem attemptsOf_setEnqueuedUrl (misc : MiscTime) (db : UrlDb) (url : Url) (now : ℤ) :
    ∃ k, (db.setEnqueuedUrl misc url now).attemptsOf url
        = (db.attemptsOf url).drop k ++ [⟨misc.roundSecs now, .enqueued⟩] := by
  obtain ⟨k, hk⟩ := (db.urlCrawlAttempts[url]?.getD default).attempts_add misc now
  refine ⟨k, ?_⟩
  rw [attemptsOf_eq_getD db, ← hk]
  unfold attemptsOf setEnqueuedUrl
  rw [OrdMap.getElem?_alter, if_pos rfl, Option.elim_some]

theorem attemptsOf_setEnqueuedUrl_of_ne {url url' : Url} (h : url ≠ url') (now : ℤ) :
    (db.setEnqueuedUrl misc url now).attemptsOf url' = db.attemptsOf url' := by
  unfold attemptsOf setEnqueuedUrl
  rw [OrdMap.getElem?_alter, if_neg h]

/-- **A result** rewrites the status of the last attempt, which is a new one if the URL has none. -/
theorem setStatus_eq_some {res : FetchResult} {now : ℤ} (h : db.setStatus misc res now = some db') :
    ∃ init last, db'.attemptsOf res.gfq.url = init ++ [{ last with status := res.status }] ∧
      (db.attemptsOf res.gfq.url = init ++ [last] ∨
        db.attemptsOf res.gfq.url = [] ∧ init = []) := by
  unfold setStatus at h
  unfold attemptsOf
  obtain ⟨ca', hca', rfl⟩ := Option.map_eq_some_iff.mp h
  rw [OrdMap.getElem?_insert, if_pos rfl, Option.elim_some]
  obtain ⟨init, last, hbefore, hafter⟩ := CrawlAttempts.setLastStatus_eq_some.mp hca'
  refine ⟨init, last, hafter, ?_⟩
  cases hget : db.urlCrawlAttempts[res.gfq.url]? with
  | none =>
    rw [hget, Option.getD_none] at hbefore
    obtain ⟨k, hk⟩ := (default : CrawlAttempts).attempts_add misc now
    rw [hk, show (default : CrawlAttempts).attempts = [] from rfl, List.drop_nil,
      List.nil_append] at hbefore
    obtain ⟨rfl, -⟩ | ⟨-, hnil⟩ := List.singleton_eq_append_iff.mp hbefore
    · exact Or.inr ⟨rfl, rfl⟩
    · cases hnil
  | some ca =>
    rw [hget, Option.getD_some] at hbefore
    exact Or.inl hbefore

theorem attemptsOf_setStatus_of_ne {res : FetchResult} {now : ℤ} {url : Url}
    (hne : res.gfq.url ≠ url) (h : db.setStatus misc res now = some db') :
    db'.attemptsOf url = db.attemptsOf url := by
  unfold setStatus at h
  obtain ⟨ca', -, rfl⟩ := Option.map_eq_some_iff.mp h
  unfold attemptsOf
  rw [OrdMap.getElem?_insert, if_neg hne]

/-! ### Calls with several items -/

/-- What enqueuing one URL keeps, enqueuing many keeps. -/
theorem setEnqueued_induction {P : UrlDb → Prop} {now : ℤ}
    (hstep : ∀ db url, P db → P (db.setEnqueuedUrl misc url now)) (urls : List Url) (h : P db) :
    P (db.setEnqueued misc urls now) := by
  unfold setEnqueued
  induction urls generalizing db with
  | nil => exact h
  | cons url urls ih => exact ih (hstep db url h)

/-- What one result keeps, all results of a call keep. -/
theorem onFetched_induction {P : UrlDb → Prop} {results : List FetchResult} {now : ℤ}
    (hstep : ∀ db db' res, db.setStatus misc res now = some db' → P db → P db')
    (hdb : db.onFetched misc results now = some db') (h : P db) : P db' := by
  unfold onFetched at hdb
  induction results generalizing db with
  | nil =>
    obtain rfl := Option.some.inj hdb
    exact h
  | cons res results ih =>
    rw [List.foldlM_cons] at hdb
    obtain ⟨db₁, h₁, hrest⟩ := Option.bind_eq_some_iff.mp hdb
    exact ih hrest (hstep db db₁ res h₁ h)

/-! ### The last attempt -/

theorem getLast?_setEnqueuedUrl (misc : MiscTime) (db : UrlDb) (url url' : Url) (now : ℤ) :
    ((db.setEnqueuedUrl misc url now).attemptsOf url').getLast?
      = if url = url' then some ⟨misc.roundSecs now, .enqueued⟩
        else (db.attemptsOf url').getLast? := by
  split_ifs with hurl
  · subst hurl
    obtain ⟨k, hk⟩ := attemptsOf_setEnqueuedUrl misc db url now
    rw [hk, List.getLast?_concat]
  · rw [attemptsOf_setEnqueuedUrl_of_ne hurl now]

/-- Enqueuing makes its own attempt the last one of all its URLs. -/
theorem getLast?_setEnqueued (misc : MiscTime) (db : UrlDb) (urls : List Url) (now : ℤ)
    (url : Url) :
    ((db.setEnqueued misc urls now).attemptsOf url).getLast?
      = if url ∈ urls then some ⟨misc.roundSecs now, .enqueued⟩
        else (db.attemptsOf url).getLast? := by
  unfold setEnqueued
  induction urls generalizing db with
  | nil => rfl
  | cons url' urls ih =>
    rw [List.foldl_cons, ih (db.setEnqueuedUrl misc url' now), getLast?_setEnqueuedUrl]
    by_cases hmem : url ∈ urls
    · rw [if_pos hmem, if_pos (List.mem_cons_of_mem url' hmem)]
    · by_cases hurl : url' = url
      · rw [if_neg hmem, if_pos hurl, if_pos (by rw [hurl]; exact List.mem_cons_self)]
      · have hnot : url ∉ url' :: urls := List.not_mem_cons_of_ne_of_not_mem (Ne.symm hurl) hmem
        rw [if_neg hmem, if_neg hurl, if_neg hnot]

theorem tp_getLast?_setStatus {res : FetchResult} {now tp : ℤ} {url : Url}
    (h : db.setStatus misc res now = some db')
    (hlast : (db.attemptsOf url).getLast?.map CrawlAttempt.tp = some tp) :
    (db'.attemptsOf url).getLast?.map CrawlAttempt.tp = some tp := by
  by_cases hurl : res.gfq.url = url
  · subst hurl
    obtain ⟨init, last, hafter, hbefore | ⟨hnil, -⟩⟩ := setStatus_eq_some h
    · rw [hbefore, List.getLast?_concat] at hlast
      rw [hafter, List.getLast?_concat]
      exact hlast
    · rw [hnil] at hlast
      cases hlast
  · rw [attemptsOf_setStatus_of_ne hurl h]
    exact hlast

/-- Results leave the time of a last attempt as it is. -/
theorem tp_getLast?_onFetched {results : List FetchResult} {now tp : ℤ} {url : Url}
    (h : db.onFetched misc results now = some db')
    (hlast : (db.attemptsOf url).getLast?.map CrawlAttempt.tp = some tp) :
    (db'.attemptsOf url).getLast?.map CrawlAttempt.tp = some tp :=
  onFetched_induction (fun _ _ _ => tp_getLast?_setStatus) h hlast

/-! ### The order of the attempts -/

/-- The attempts of a URL are sorted by time and end at `tp`, as `CrawlAttempts` expects of the
next one. -/
def SortedUpTo (tp : ℤ) (attempts : List CrawlAttempt) : Prop :=
  (attempts.Pairwise fun a b => a.tp ≤ b.tp) ∧ ∀ a ∈ attempts, a.tp ≤ tp

theorem sortedUpTo_setEnqueuedUrl {now : ℤ}
    (h : ∀ url, SortedUpTo (misc.roundSecs now) (db.attemptsOf url)) (url url' : Url) :
    SortedUpTo (misc.roundSecs now) ((db.setEnqueuedUrl misc url now).attemptsOf url') := by
  by_cases hurl : url = url'
  · subst hurl
    obtain ⟨k, hk⟩ := attemptsOf_setEnqueuedUrl misc db url now
    obtain ⟨hsorted, hle⟩ := h url
    rw [hk]
    constructor
    · refine List.pairwise_append.mpr ⟨hsorted.sublist (List.drop_sublist k _),
        List.pairwise_singleton _ _, fun a ha b hb => ?_⟩
      rw [List.mem_singleton.mp hb]
      exact hle a (List.mem_of_mem_drop ha)
    · intro a ha
      rcases List.mem_append.mp ha with ha | ha
      · exact hle a (List.mem_of_mem_drop ha)
      · rw [List.mem_singleton.mp ha]
  · rw [attemptsOf_setEnqueuedUrl_of_ne hurl now]
    exact h url'

theorem sortedUpTo_setEnqueued {now : ℤ} (urls : List Url)
    (h : ∀ url, SortedUpTo (misc.roundSecs now) (db.attemptsOf url)) (url : Url) :
    SortedUpTo (misc.roundSecs now) ((db.setEnqueued misc urls now).attemptsOf url) :=
  setEnqueued_induction (P := fun db => ∀ url, SortedUpTo (misc.roundSecs now) (db.attemptsOf url))
    (fun _ url' hdb => sortedUpTo_setEnqueuedUrl hdb url') urls h url

/-- A result leaves the times of the attempts as they are. -/
theorem pairwise_setStatus {res : FetchResult} {now : ℤ} (h : db.setStatus misc res now = some db')
    (hsorted : ∀ url, (db.attemptsOf url).Pairwise fun a b => a.tp ≤ b.tp) (url : Url) :
    (db'.attemptsOf url).Pairwise fun a b => a.tp ≤ b.tp := by
  by_cases hurl : res.gfq.url = url
  · subst hurl
    obtain ⟨init, last, hafter, hbefore | ⟨-, rfl⟩⟩ := setStatus_eq_some h
    · have hold := hsorted res.gfq.url
      rw [hbefore, List.pairwise_append] at hold
      rw [hafter]
      refine List.pairwise_append.mpr ⟨hold.1, List.pairwise_singleton _ _, fun a ha b hb => ?_⟩
      rw [List.mem_singleton.mp hb]
      exact hold.2.2 a ha last (List.mem_singleton_self last)
    · rw [hafter]
      exact List.pairwise_singleton _ _
  · rw [attemptsOf_setStatus_of_ne hurl h]
    exact hsorted url

end UrlDb

end Contentv1
