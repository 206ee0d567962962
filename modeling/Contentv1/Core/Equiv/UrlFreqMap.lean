import Contentv1.Core.UrlFreqMap
import Contentv1.Lib.SlidingWindow
import Mathlib.Data.List.Induction
import Mathlib.Data.List.DropRight
import Mathlib.Algebra.BigOperators.Group.List.Basic
import Mathlib.Algebra.Order.BigOperators.Group.List

/-!
# What a `UrlFreqMap` holds

* `Mirrors`: the map of frequencies is determined by the queue.  Inserting, cleaning and merging
  keep this (`Mirrors.insertVisitsPack`, `Mirrors.checkCleanup`, `Mirrors.merge`).
* `utsQ_insertAll`: after packs in the order of their times, the queue holds those whose age at the
  last insertion is within the window, and no others.
* `utsQ_merge_perm`: merging forgets nothing, whatever the clock says.
-/

namespace Contentv1.UrlFreqMap

open SlidingWindow

variable {ufm a : UrlFreqMap} {uts : UrlTpStat} {now : ℤ} {q : List UrlTpStat} {url : Url}

/-! ### Counts of a queue -/

/-- The visits of a URL in a queue. -/
def countOf (q : List UrlTpStat) (url : Url) : ℤ :=
  ((q.filter fun uts => uts.url = url).map UrlTpStat.cnt).sum

@[simp] theorem countOf_nil : countOf [] url = 0 := rfl

theorem countOf_append (q q' : List UrlTpStat) (url : Url) :
    countOf (q ++ q') url = countOf q url + countOf q' url := by
  unfold countOf
  rw [List.filter_append, List.map_append, List.sum_append]

theorem countOf_singleton (uts : UrlTpStat) (url : Url) :
    countOf [uts] url = if uts.url = url then uts.cnt else 0 := by
  unfold countOf
  split_ifs with h <;> simp [h]

theorem countOf_cons (uts : UrlTpStat) (q : List UrlTpStat) (url : Url) :
    countOf (uts :: q) url = (if uts.url = url then uts.cnt else 0) + countOf q url := by
  rw [← countOf_singleton, ← countOf_append]
  rfl

theorem countOf_perm {q q' : List UrlTpStat} (h : q.Perm q') (url : Url) :
    countOf q url = countOf q' url :=
  ((h.filter _).map _).sum_eq

theorem countOf_nonneg (h : ∀ uts ∈ q, 0 < uts.cnt) (url : Url) : 0 ≤ countOf q url := by
  apply List.sum_nonneg
  intro c hc
  obtain ⟨uts, huts, rfl⟩ := List.mem_map.mp hc
  exact (h uts (List.mem_filter.mp huts).1).le

theorem countOf_pos_of_mem (h : ∀ uts ∈ q, 0 < uts.cnt) (huts : uts ∈ q) :
    0 < countOf q uts.url := by
  obtain ⟨l, r, rfl⟩ := List.append_of_mem huts
  rw [countOf_append, countOf_cons, if_pos rfl]
  have hl := countOf_nonneg (fun x hx => h x (List.mem_append_left _ hx)) uts.url
  have hr := countOf_nonneg
    (fun x hx => h x (List.mem_append_right l (List.mem_cons_of_mem uts hx))) uts.url
  have := h uts huts
  omega

/-- A queue that holds all of another has no smaller counts. -/
theorem countOf_le_of_subperm {q q' : List UrlTpStat} (h : q.Subperm q')
    (hpos : ∀ uts ∈ q', 0 < uts.cnt) (url : Url) : countOf q url ≤ countOf q' url := by
  obtain ⟨l, hperm, hsub⟩ := h
  rw [← countOf_perm hperm]
  refine ((hsub.filter _).map _).sum_le_sum fun c hc => ?_
  obtain ⟨uts, huts, rfl⟩ := List.mem_map.mp hc
  exact (hpos uts (List.mem_filter.mp huts).1).le

/-- A frequency as the map stores it: a URL without visits has no entry. -/
def stored (c : ℤ) : Option ℤ := if 0 < c then some c else none

theorem getD_stored {c : ℤ} (hc : 0 ≤ c) : (stored c).getD 0 = c := by
  unfold stored
  split_ifs with h
  · rfl
  · rw [Option.getD_none]
    omega

theorem stored_of_pos {c : ℤ} (hc : 0 < c) : stored c = some c := if_pos hc

/-- Different counts are stored differently. -/
theorem stored_inj {c d : ℤ} (hc : 0 ≤ c) (hd : 0 ≤ d) (h : stored c = stored d) : c = d := by
  rw [← getD_stored hc, h, getD_stored hd]

/-! ### The map mirrors the queue -/

structure Mirrors (ufm : UrlFreqMap) : Prop where
  pos : ∀ uts ∈ ufm.utsQ, 0 < uts.cnt
  freq : ∀ url : Url, ufm.urlFreq[url]? = stored (countOf ufm.utsQ url)

theorem mirrors_ofWindow (window : ℤ) : Mirrors (ofWindow window) where
  pos := nofun
  freq _ := Std.ExtTreeMap.getElem?_empty

theorem getElem?_addFreq {m : OrdMap Url ℤ} {c cnt : ℤ} {url' : Url}
    (hm : m[url']? = stored c) (hc : 0 ≤ c) (hcnt : 0 < cnt) :
    (addFreq m url cnt)[url']? = stored ((if url = url' then cnt else 0) + c) := by
  rw [addFreq, OrdMap.getElem?_alter]
  split_ifs with h
  · subst h
    rw [hm, getD_stored hc, stored_of_pos (by omega), add_comm]
  · rw [hm, zero_add]

theorem getElem?_subFreq {m : OrdMap Url ℤ} {c cnt : ℤ} {url' : Url}
    (hm : m[url']? = stored ((if url = url' then cnt else 0) + c)) (hc : 0 ≤ c) (hcnt : 0 < cnt) :
    (subFreq m url cnt)[url']? = stored c := by
  rw [subFreq, OrdMap.getElem?_alter]
  split_ifs with h
  · subst h
    rw [hm, if_pos rfl, stored_of_pos (by omega), Option.bind_some, add_sub_cancel_left]
    unfold stored
    split_ifs with h1 h2 h2
    · omega
    · rfl
    · rfl
    · omega
  · rw [hm, if_neg h, zero_add]

theorem cleanupLoop_spec (window : ℤ) (now : ℤ) {m : OrdMap Url ℤ} {q : List UrlTpStat}
    (hpos : ∀ uts ∈ q, 0 < uts.cnt) (hm : ∀ url : Url, m[url]? = stored (countOf q url)) :
    ∀ url : Url, (cleanupLoop window now m q).1[url]?
      = stored (countOf (cleanupLoop window now m q).2 url) := by
  induction q generalizing m with
  | nil => exact hm
  | cons uts q ih =>
    unfold cleanupLoop
    split_ifs with h
    · exact hm
    · -- the popped visit leaves the queue and the map together
      have hpos' : ∀ x ∈ q, 0 < x.cnt := fun x hx => hpos x (List.mem_cons_of_mem uts hx)
      apply ih hpos'
      intro url
      exact getElem?_subFreq (by rw [hm url, countOf_cons]) (countOf_nonneg hpos' url)
        (hpos uts List.mem_cons_self)

/-- A visit that an insertion at `now` drops once it is at the front. -/
def expired (window : ℤ) (now : ℤ) (uts : UrlTpStat) : Bool := tpExpired window now uts.tp

theorem expired_eq_false_iff {window : ℤ} :
    expired window now uts = false ↔ durationCastSecs (now - uts.tp) ≤ window := by
  rw [expired, tpExpired, decide_eq_false_iff_not, not_lt]

theorem cleanupLoop_snd (window : ℤ) (now : ℤ) (m : OrdMap Url ℤ) (q : List UrlTpStat) :
    (cleanupLoop window now m q).2 = clean (expired window) now q := by
  induction q generalizing m with
  | nil => rfl
  | cons uts q ih =>
    unfold cleanupLoop clean
    split_ifs with h
    · rw [List.dropWhile_cons_of_neg (by simpa [expired, tpExpired] using h)]
    · rw [List.dropWhile_cons_of_pos (by simpa [expired, tpExpired] using h)]
      exact ih _

@[simp] theorem utsQ_checkCleanup :
    (ufm.checkCleanup now).utsQ = clean (expired ufm.window) now ufm.utsQ :=
  cleanupLoop_snd ufm.window now ufm.urlFreq ufm.utsQ

@[simp] theorem utsQ_insertVisitsPack :
    (ufm.insertVisitsPack uts now).utsQ = clean (expired ufm.window) now (ufm.utsQ ++ [uts]) :=
  utsQ_checkCleanup

@[simp] theorem window_insertVisitsPack : (ufm.insertVisitsPack uts now).window = ufm.window := rfl

theorem Mirrors.checkCleanup (h : Mirrors ufm) : Mirrors (ufm.checkCleanup now) where
  pos := by
    intro uts huts
    rw [utsQ_checkCleanup] at huts
    exact h.pos uts (clean_suffix.subset huts)
  freq := cleanupLoop_spec ufm.window now h.pos h.freq

theorem Mirrors.insertVisitsPack (h : Mirrors ufm) (hcnt : 0 < uts.cnt) :
    Mirrors (ufm.insertVisitsPack uts now) := by
  refine Mirrors.checkCleanup ⟨?_, fun url => ?_⟩
  · intro x hx
    rcases List.mem_append.mp hx with hx | hx
    · exact h.pos x hx
    · rw [List.mem_singleton.mp hx]
      exact hcnt
  · show (addFreq ufm.urlFreq uts.url uts.cnt)[url]? = _
    rw [getElem?_addFreq (h.freq url) (countOf_nonneg h.pos url) hcnt, countOf_append,
      countOf_singleton, add_comm]

/-! ### `getTopUrls` -/

/-- Any list has an arrangement by descending count. -/
theorem exists_perm_descending (l : List UrlFreq) :
    ∃ s : List UrlFreq, s.Perm l ∧ s.Pairwise fun a b => b.2 ≤ a.2 := by
  refine ⟨l.mergeSort fun a b => decide (b.2 ≤ a.2), List.mergeSort_perm _ _, ?_⟩
  have hsorted : (l.mergeSort fun a b => decide (b.2 ≤ a.2)).Pairwise fun a b =>
      decide (b.2 ≤ a.2) = true := List.pairwise_mergeSort
    (fun a b c hab hbc => decide_eq_true
      ((of_decide_eq_true hbc).trans (of_decide_eq_true hab)))
    (fun a b => by simpa using le_total b.2 a.2) l
  exact hsorted.imp of_decide_eq_true

/-- Among equal counts an element may come first or last: `p` says which others come before it. -/
theorem exists_perm_descending_around {l : List UrlFreq} {x : UrlFreq} (hx : x ∈ l)
    {p : UrlFreq → Bool} (hbefore : ∀ a, p a = true → x.2 ≤ a.2)
    (hafter : ∀ a, p a = false → a.2 ≤ x.2) :
    ∃ before after : List UrlFreq, (before ++ x :: after).Perm l ∧
      ((before ++ x :: after).Pairwise fun a b => b.2 ≤ a.2) ∧
      before.Perm ((l.erase x).filter p) := by
  obtain ⟨before, hpermBefore, hsortedBefore⟩ := exists_perm_descending ((l.erase x).filter p)
  obtain ⟨after, hpermAfter, hsortedAfter⟩ :=
    exists_perm_descending ((l.erase x).filter fun a => !p a)
  have hmemBefore : ∀ a ∈ before, x.2 ≤ a.2 := fun a ha =>
    hbefore a (List.mem_filter.mp (hpermBefore.subset ha)).2
  have hmemAfter : ∀ a ∈ after, a.2 ≤ x.2 := fun a ha =>
    hafter a (by simpa using (List.mem_filter.mp (hpermAfter.subset ha)).2)
  refine ⟨before, after, ?_, ?_, hpermBefore⟩
  · calc (before ++ x :: after).Perm (x :: (before ++ after)) := List.perm_middle
      _ |>.Perm (x :: ((l.erase x).filter p ++ (l.erase x).filter fun a => !p a)) :=
        (hpermBefore.append hpermAfter).cons x
      _ |>.Perm (x :: l.erase x) := (List.filter_append_perm p _).cons x
      _ |>.Perm l := (List.perm_cons_erase hx).symm
  · refine List.pairwise_append.mpr ⟨hsortedBefore, ?_, fun a ha b hb => ?_⟩
    · exact List.pairwise_cons.mpr ⟨hmemAfter, hsortedAfter⟩
    · rcases List.mem_cons.mp hb with rfl | hb
      · exact hmemBefore a ha
      · exact (hmemAfter b hb).trans (hmemBefore a ha)

/-! ### Merging -/

/-- Merging forgets nothing. -/
theorem utsQ_merge_perm : (ufm.merge a).utsQ.Perm (ufm.utsQ ++ a.utsQ) :=
  List.merge_perm_append _

theorem getElem?_merge (ufm a : UrlFreqMap) (url : Url) :
    (ufm.merge a).urlFreq[url]?
      = (a.urlFreq[url]?).elim ufm.urlFreq[url]? fun c => some (ufm.urlFreq[url]?.getD 0 + c) := by
  have hloc : OrdMap.LocalAt (fun (m : OrdMap Url ℤ) (p : Url × ℤ) => addFreq m p.1 p.2)
      fun _ c o => some (o.getD 0 + c) := fun m p k => OrdMap.getElem?_alter m p.1 k _
  exact OrdMap.getElem?_foldl_perm hloc (List.Perm.refl _) ufm.urlFreq url

theorem Mirrors.merge (h : Mirrors ufm) (ha : Mirrors a) : Mirrors (ufm.merge a) where
  pos := by
    intro uts huts
    rcases List.mem_append.mp (utsQ_merge_perm.subset huts) with huts | huts
    · exact h.pos uts huts
    · exact ha.pos uts huts
  freq url := by
    have hc := countOf_nonneg h.pos url
    have hca := countOf_nonneg ha.pos url
    rw [getElem?_merge, countOf_perm utsQ_merge_perm, countOf_append, h.freq, ha.freq,
      getD_stored hc]
    -- only what the other map stores is added, and that has no entry for a count of 0
    rcases hca.eq_or_lt with hzero | hpos
    · rw [← hzero, add_zero]
      rfl
    · rw [stored_of_pos hpos, Option.elim_some, stored_of_pos (by omega)]

/-! ### Packs in the order of their times -/

/-- The time of the last insertion. -/
def endOf (packs : List (UrlTpStat × ℤ)) : ℤ := (packs.map Prod.snd).getLastD 0

@[simp] theorem endOf_append (packs : List (UrlTpStat × ℤ)) (p : UrlTpStat × ℤ) :
    endOf (packs ++ [p]) = p.2 := by
  unfold endOf
  rw [List.map_append, List.map_singleton, List.getLastD_concat]

theorem le_endOf {packs : List (UrlTpStat × ℤ)} (h : packs.Pairwise fun a b => a.2 ≤ b.2)
    {p : UrlTpStat × ℤ} (hp : p ∈ packs) : p.2 ≤ endOf packs := by
  induction packs using List.reverseRecOn with
  | nil => cases hp
  | append_singleton packs x _ =>
    rw [endOf_append]
    rcases List.mem_append.mp hp with hp | hp
    · exact (List.pairwise_append.mp h).2.2 p hp x (List.mem_singleton_self x)
    · rw [List.mem_singleton.mp hp]

theorem endOf_mem {packs : List (UrlTpStat × ℤ)} (h : packs ≠ []) :
    ∃ p ∈ packs, p.2 = endOf packs := by
  induction packs using List.reverseRecOn with
  | nil => exact absurd rfl h
  | append_singleton packs x _ =>
    exact ⟨x, List.mem_append_right packs (List.mem_singleton_self x), (endOf_append packs x).symm⟩

/-- The packs whose age at `now` is within the window. -/
def alive (window now : ℤ) (packs : List (UrlTpStat × ℤ)) : List UrlTpStat :=
  (packs.map Prod.fst).filter fun uts => !expired window now uts

/-- `insertVisitsPack` for each pack in turn. -/
def insertAll (ufm : UrlFreqMap) (packs : List (UrlTpStat × ℤ)) : UrlFreqMap :=
  packs.foldl (fun ufm p => ufm.insertVisitsPack p.1 p.2) ufm

theorem insertAll_append (ufm : UrlFreqMap) (packs : List (UrlTpStat × ℤ)) (p : UrlTpStat × ℤ) :
    ufm.insertAll (packs ++ [p]) = (ufm.insertAll packs).insertVisitsPack p.1 p.2 := by
  unfold insertAll
  rw [List.foldl_append]
  rfl

@[simp] theorem window_insertAll (ufm : UrlFreqMap) (packs : List (UrlTpStat × ℤ)) :
    (ufm.insertAll packs).window = ufm.window := by
  induction packs using List.reverseRecOn with
  | nil => rfl
  | append_singleton packs p ih => rw [insertAll_append, window_insertVisitsPack, ih]

theorem Mirrors.insertAll (h : Mirrors ufm) {packs : List (UrlTpStat × ℤ)}
    (hcnt : ∀ p ∈ packs, 0 < p.1.cnt) : Mirrors (ufm.insertAll packs) := by
  induction packs using List.reverseRecOn with
  | nil => exact h
  | append_singleton packs p ih =>
    rw [insertAll_append]
    have hp := hcnt p (List.mem_append_right packs (List.mem_singleton_self p))
    exact (ih fun x hx => hcnt x (List.mem_append_left _ hx)).insertVisitsPack hp

theorem persistent_expired (window : ℤ) : Persistent (expired window) :=
  fun _ _ uts hle h => tpExpired_mono hle (le_refl uts.tp) h

theorem tracks_insertAll (window : ℤ) {packs : List (UrlTpStat × ℤ)}
    (hnow : packs.Pairwise fun a b => a.2 ≤ b.2) :
    Tracks (expired window) (endOf packs) (packs.map Prod.fst)
      ((ofWindow window).insertAll packs).utsQ := by
  induction packs using List.reverseRecOn with
  | nil => exact Tracks.nil
  | append_singleton packs p ih =>
    rw [List.pairwise_append] at hnow
    have ih := ih hnow.1
    rw [insertAll_append, utsQ_insertVisitsPack, window_insertAll, endOf_append, List.map_append]
    rcases packs.eq_nil_or_concat' with rfl | ⟨l, x, rfl⟩
    · exact Tracks.nil.push.clean (persistent_expired window) (le_refl p.2)
    · have hle : endOf (l ++ [x]) ≤ p.2 := by
        rw [endOf_append]
        exact hnow.2.2 x (List.mem_append_right l (List.mem_singleton_self x)) p
          (List.mem_singleton_self p)
      exact ih.push.clean (persistent_expired window) hle

/-- **The window is exact.**  After packs in the order of their times the queue holds those whose
age at the last insertion is within the window. -/
theorem utsQ_insertAll {window : ℤ} {packs : List (UrlTpStat × ℤ)}
    (htp : packs.Pairwise fun a b => a.1.tp ≤ b.1.tp)
    (hnow : packs.Pairwise fun a b => a.2 ≤ b.2) :
    ((ofWindow window).insertAll packs).utsQ = alive window (endOf packs) packs := by
  have htracks := tracks_insertAll window hnow
  have hord : (packs.map Prod.fst).Pairwise fun a b =>
      expired window (endOf packs) b = true → expired window (endOf packs) a = true :=
    List.pairwise_map.mpr (htp.imp fun hle hexp => tpExpired_mono (le_refl _) hle hexp)
  unfold alive
  rw [← htracks.eq_filter hord]
  -- the last insertion has cleaned the queue at that time
  rcases packs.eq_nil_or_concat' with rfl | ⟨l, x, rfl⟩
  · rfl
  · rw [insertAll_append, utsQ_insertVisitsPack, window_insertAll, endOf_append]
    exact (List.dropWhile_idempotent _ _).symm

/-! ### Packs at one moment -/

/-- Whatever the order of the packs, the queue is what cleaning leaves of all of them. -/
theorem utsQ_insertAll_eq_clean {window : ℤ} {packs : List (UrlTpStat × ℤ)}
    (hnow : packs.Pairwise fun a b => a.2 ≤ b.2) :
    ((ofWindow window).insertAll packs).utsQ
      = clean (expired window) (endOf packs) (packs.map Prod.fst) := by
  obtain ⟨old, hold, hexp⟩ := tracks_insertAll window hnow
  have hcleaned : clean (expired window) (endOf packs) ((ofWindow window).insertAll packs).utsQ
      = ((ofWindow window).insertAll packs).utsQ := by
    rcases packs.eq_nil_or_concat' with rfl | ⟨l, x, rfl⟩
    · rfl
    · rw [insertAll_append, utsQ_insertVisitsPack, window_insertAll, endOf_append]
      exact List.dropWhile_idempotent _ _
  rw [hold, clean, List.dropWhile_append_of_pos hexp]
  exact hcleaned.symm

/-- **Packs at one moment.**  The frequencies are those of the packs within the window exactly when
no pack within it comes before one that has expired. -/
theorem urlFreq_insertAll_eq_iff {window now : ℤ} {packs : List (UrlTpStat × ℤ)}
    (hnow : ∀ p ∈ packs, p.2 = now) (hcnt : ∀ p ∈ packs, 0 < p.1.cnt) :
    (∀ url : Url, ((ofWindow window).insertAll packs).urlFreq[url]?
        = stored (countOf (alive window now packs) url)) ↔
      (packs.map Prod.fst).Pairwise fun a b =>
        expired window now b = true → expired window now a = true := by
  have hmirrors := (mirrors_ofWindow window).insertAll hcnt
  have hq : ((ofWindow window).insertAll packs).utsQ
      = clean (expired window) now (packs.map Prod.fst) := by
    rcases packs.eq_nil_or_concat' with rfl | ⟨l, x, rfl⟩
    · rfl
    · have hpair : (l ++ [x]).Pairwise fun a b => a.2 ≤ b.2 :=
        List.pairwise_of_forall_mem_list fun a ha b hb => by rw [hnow a ha, hnow b hb]
      have hend : endOf (l ++ [x]) = now := by
        rw [endOf_append]
        exact hnow x (List.mem_append_right l (List.mem_singleton_self x))
      rw [utsQ_insertAll_eq_clean hpair, hend]
  have hpos : ∀ uts ∈ clean (expired window) now (packs.map Prod.fst), 0 < uts.cnt := by
    rw [← hq]
    exact hmirrors.pos
  -- what is in the queue is within the window or has expired behind something that is
  have hsplit : ∀ url, countOf (clean (expired window) now (packs.map Prod.fst)) url
      = countOf ((clean (expired window) now (packs.map Prod.fst)).filter (expired window now)) url
        + countOf (alive window now packs) url := by
    intro url
    have halive : ((clean (expired window) now (packs.map Prod.fst)).filter fun uts =>
        !expired window now uts) = (packs.map Prod.fst).filter fun uts => !expired window now uts :=
      filter_not_clean
    unfold alive
    rw [← halive, ← countOf_append]
    exact countOf_perm (List.filter_append_perm _ _).symm url
  have hpos' : ∀ uts ∈ (clean (expired window) now (packs.map Prod.fst)).filter
      (expired window now), 0 < uts.cnt := fun uts huts => hpos uts (List.mem_of_mem_filter huts)
  have haliveNonneg : ∀ url, 0 ≤ countOf (alive window now packs) url := by
    intro url
    refine countOf_nonneg (fun uts huts => ?_) url
    obtain ⟨p, hp, rfl⟩ := List.mem_map.mp (List.mem_of_mem_filter huts)
    exact hcnt p hp
  rw [← filter_clean_eq_nil_iff]
  constructor
  · intro hfreq
    apply List.eq_nil_iff_forall_not_mem.mpr
    intro uts huts
    have hstored := hfreq uts.url
    rw [hmirrors.freq, hq] at hstored
    have hcount := stored_inj (countOf_nonneg hpos _) (haliveNonneg _) hstored
    have hexp := countOf_pos_of_mem hpos' huts
    have := hsplit uts.url
    omega
  · intro hnil url
    rw [hmirrors.freq, hq, hsplit, hnil, countOf_nil, zero_add]

end Contentv1.UrlFreqMap
