import Contentv1.Core.UrlFreqStatsLF
import Contentv1.Core.Equiv.UrlFreqStats

/-!
# What the merge queue of `UrlFreqStatsLF` has merged

`Accounts`: the global maps are those of some rounds (`runRounds`), and the packs of these rounds,
of the round that goes on and of the queue are what was pushed, each as often.  Every step keeps
accounts (`Accounts.step`).  So the maps name no URL but those of packs (`Accounts.exists_pushed`).
-/

namespace Contentv1

namespace UrlFreqMap

variable {ufm a : UrlFreqMap} {m : OrdMap Url ℤ} {url url' : Url} {cnt : ℤ}

/-! ### Whose URLs a map has -/

theorem mem_addFreq (h : url' ∈ addFreq m url cnt) : url = url' ∨ url' ∈ m := by
  rw [Std.ExtTreeMap.mem_iff_isSome_getElem?, addFreq, OrdMap.getElem?_alter] at h
  split_ifs at h with heq
  · exact Or.inl heq
  · exact Or.inr (Std.ExtTreeMap.mem_iff_isSome_getElem?.mpr h)

theorem mem_subFreq (h : url' ∈ subFreq m url cnt) : url' ∈ m := by
  rw [Std.ExtTreeMap.mem_iff_isSome_getElem?, subFreq, OrdMap.getElem?_alter] at h
  rw [Std.ExtTreeMap.mem_iff_isSome_getElem?]
  split_ifs at h with heq
  · subst heq
    cases hm : m[url]? with
    | none =>
      rw [hm] at h
      cases h
    | some freq => rfl
  · exact h

theorem mem_cleanupLoop {window now : ℤ} {q : List UrlTpStat}
    (h : url ∈ (cleanupLoop window now m q).1) : url ∈ m := by
  induction q generalizing m with
  | nil => exact h
  | cons uts q ih =>
    rw [cleanupLoop] at h
    split_ifs at h
    · exact h
    · exact mem_subFreq (ih h)

theorem mem_insertVisitsPack {uts : UrlTpStat} {now : ℤ}
    (h : url ∈ (ufm.insertVisitsPack uts now).urlFreq) : uts.url = url ∨ url ∈ ufm.urlFreq :=
  mem_addFreq (mem_cleanupLoop h)

theorem mem_insertAll {packs : List (UrlTpStat × ℤ)} (h : url ∈ (ufm.insertAll packs).urlFreq) :
    url ∈ ufm.urlFreq ∨ ∃ p ∈ packs, p.1.url = url := by
  induction packs using List.reverseRecOn with
  | nil => exact Or.inl h
  | append_singleton packs p ih =>
    rw [insertAll_append] at h
    rcases mem_insertVisitsPack h with heq | h
    · exact Or.inr ⟨p, List.mem_append_right _ (List.mem_singleton_self p), heq⟩
    · rcases ih h with h | ⟨p', hp', heq⟩
      · exact Or.inl h
      · exact Or.inr ⟨p', List.mem_append_left _ hp', heq⟩

theorem mem_merge (h : url ∈ (ufm.merge a).urlFreq) : url ∈ ufm.urlFreq ∨ url ∈ a.urlFreq := by
  rw [Std.ExtTreeMap.mem_iff_isSome_getElem?, getElem?_merge] at h
  rw [Std.ExtTreeMap.mem_iff_isSome_getElem?, Std.ExtTreeMap.mem_iff_isSome_getElem?]
  cases ha : a.urlFreq[url]? with
  | none =>
    rw [ha] at h
    exact Or.inl h
  | some freq => exact Or.inr rfl

theorem not_mem_ofWindow (window : ℤ) : url ∉ (ofWindow window).urlFreq := by
  show url ∉ (∅ : OrdMap Url ℤ)
  exact Std.ExtTreeMap.not_mem_empty

end UrlFreqMap

open UrlFreqMap in
/-- The rounds of one window name no URL but those of their packs. -/
theorem mem_mergeRounds {window : ℤ} {rounds : List (List (UrlTpStat × ℤ))} {url : Url}
    (h : url ∈ (mergeRounds window rounds).urlFreq) : ∃ p ∈ rounds.flatten, p.1.url = url := by
  induction rounds using List.reverseRecOn with
  | nil => exact absurd h (not_mem_ofWindow window)
  | append_singleton rounds round ih =>
    rw [mergeRounds_append] at h
    rw [List.flatten_append, List.flatten_singleton]
    rcases mem_merge h with h | h
    · obtain ⟨p, hp, heq⟩ := ih h
      exact ⟨p, List.mem_append_left _ hp, heq⟩
    · rcases mem_insertAll h with h | ⟨p, hp, heq⟩
      · exact absurd h (not_mem_ofWindow window)
      · exact ⟨p, List.mem_append_right _ hp, heq⟩

namespace UrlFreqStatsLF

variable {s t : State} {rounds : List (List (UrlTpStat × ℤ))} {round : List (UrlTpStat × ℤ)}

/-! ### One lemma for each label -/

theorem step_push {uts : UrlTpStat} :
    step s (.push uts) = some t ↔
      { s with queue := s.queue ++ [uts], pushed := s.pushed ++ [uts] } = t := by
  show some _ = some t ↔ _
  rw [Option.some_inj]

theorem step_startRound :
    step s .startRound = some t ↔
      s.mergeTh = .idle ∧ { s with mergeTh := .draining .init } = t := by
  unfold step
  cases s.mergeTh <;> simp

theorem step_accEvent {i : ℕ} {now : ℤ} :
    step s (.accEvent i now) = some t ↔
      ∃ loc uts, s.mergeTh = .draining loc ∧ s.queue[i]? = some uts ∧
        { s with queue := s.queue.eraseIdx i,
                 mergeTh := .draining (accEvent loc uts now) } = t := by
  obtain ⟨queue, th, maps, pushed⟩ := s
  cases th <;> cases hq : queue[i]? <;> simp [step, hq]

theorem step_drained :
    step s .drained = some t ↔
      ∃ loc, s.mergeTh = .draining loc ∧ s.queue = [] ∧
        { s with mergeTh := .idle, maps := s.maps.merge loc } = t := by
  obtain ⟨queue, th, maps, pushed⟩ := s
  cases th <;> cases queue <;> simp [step]

/-! ### Accounts -/

/-- Where the packs that were pushed are: in the rounds before, in the one that goes on and in the
queue. -/
structure Accounts (s : State) (rounds : List (List (UrlTpStat × ℤ)))
    (round : List (UrlTpStat × ℤ)) : Prop where
  maps : s.maps = runRounds rounds
  draining : ∀ loc, s.mergeTh = .draining loc → loc = UrlFreqStats.insertAll .init round
  idle : s.mergeTh = .idle → round = []
  perm : (rounds.flatten.map Prod.fst ++ round.map Prod.fst ++ s.queue).Perm s.pushed

theorem accounts_init : Accounts .init [] [] where
  maps := rfl
  draining _ h := by cases h
  idle _ := rfl
  perm := List.Perm.refl _

/-- A step leaves all accounts or moves one pack or one round on. -/
theorem Accounts.step {a : Label} (h : step s a = some t) (hs : Accounts s rounds round) :
    ∃ rounds' round', Accounts t rounds' round' := by
  cases a with
  | push uts =>
    obtain rfl := step_push.mp h
    refine ⟨rounds, round, hs.maps, hs.draining, hs.idle, ?_⟩
    show (_ ++ (s.queue ++ [uts])).Perm (s.pushed ++ [uts])
    rw [← List.append_assoc]
    exact hs.perm.append_right _
  | startRound =>
    obtain ⟨hth, rfl⟩ := step_startRound.mp h
    obtain rfl := hs.idle hth
    refine ⟨rounds, [], hs.maps, ?_, fun _ => rfl, hs.perm⟩
    intro loc heq
    cases heq
    rfl
  | accEvent i now =>
    obtain ⟨loc, uts, hth, huts, rfl⟩ := step_accEvent.mp h
    refine ⟨rounds, round ++ [(uts, now)], hs.maps, ?_, ?_, ?_⟩
    · intro loc' heq
      cases heq
      rw [hs.draining loc hth]
      unfold UrlFreqStats.insertAll
      rw [List.foldl_append]
      rfl
    · intro heq
      cases heq
    · refine List.Perm.trans ?_ hs.perm
      rw [List.map_append, List.append_assoc, List.append_assoc, List.append_assoc]
      refine List.Perm.append_left _ (List.Perm.append_left _ ?_)
      exact (Machine.perm_cons_eraseIdx huts).symm
  | drained =>
    obtain ⟨loc, hth, hqueue, rfl⟩ := step_drained.mp h
    refine ⟨rounds ++ [round], [], ?_, ?_, fun _ => rfl, ?_⟩
    · show s.maps.merge loc = runRounds (rounds ++ [round])
      rw [hs.maps, hs.draining loc hth]
      unfold runRounds
      rw [List.foldl_append]
      rfl
    · intro loc' heq
      cases heq
    · rw [List.flatten_append, List.flatten_singleton, List.map_append, List.map_nil,
        List.append_nil]
      exact hs.perm

/-- A URL of the maps is the one of a pack. -/
theorem Accounts.exists_pushed (hs : Accounts s rounds round) {url : Url}
    (h : url ∈ s.maps.hourMap.urlFreq ∨ url ∈ s.maps.dayMap.urlFreq) :
    ∃ uts ∈ s.pushed, uts.url = url := by
  have hpacks : ∃ p ∈ rounds.flatten, p.1.url = url := by
    rw [hs.maps, runRounds_eq] at h
    exact h.elim mem_mergeRounds mem_mergeRounds
  obtain ⟨p, hp, heq⟩ := hpacks
  refine ⟨p.1, hs.perm.subset ?_, heq⟩
  exact List.mem_append_left _ (List.mem_append_left _ (List.mem_map_of_mem hp))

end UrlFreqStatsLF

end Contentv1
