import Contentv1.Api.QueryGroups
import Contentv1.Worker.Equiv.QueryLoop
import Mathlib.Tactic.SplitIfs

/-!
# Whether a deletion is final

A deletion is settled if, when it is answered, the group is not stored again and no cycle has it: a
cycle in progress has not read it, or is done with its hits.  `gone_step` keeps what follows from
that (`Gone`), so that no cycle saves hits of the group before it is set again, and
`along_noHits_of_meets_settled`: no hits come back for a deleted group in any run in which every
deletion is settled.

Otherwise they do (`not_along_noHits`).  A cycle that has the group saves its hits after the answer,
and as the group is gone no later cycle replaces them; and a group that was set between its two
deletions is still there for later cycles.
-/

namespace Contentv1.QueryGroups

variable {pb : QueryGroupPb} {pbHits : QueryGroupHitsPb} {aho : AhoCorasick}
  {s t : State pb pbHits} {gid : GroupId}

/-! ### One lemma for each label -/

theorem step_setQueryGroup {error : Option Str} {qg : QueryGroup} :
    step aho s (.setQueryGroup error qg) = some t ↔
      (error ≠ none ∧ s = t) ∨
      (error = none ∧
        { s with
          db := (s.db.saveQG none qg).2
          deleted := s.deleted.filter fun p => p.1 ≠ qg.gid } = t) := by
  cases error <;> simp [step, QueryDb.saveQG, QueryDb.setQG, DumpDb.tryWrite]

theorem step_deleteQG {error : Option Str} :
    step aho s (.deleteQG error gid) = some t ↔
      (error ≠ none ∧ s = t) ∨
      (error = none ∧
        { s with db := (s.db.deleteQG none gid).2, deleting := gid :: s.deleting } = t) := by
  cases error <;> simp [step, QueryDb.deleteQG, QueryDb.setQG, DumpDb.tryWrite]

theorem step_deleteQGHits {error : Option Str} {i : ℕ} :
    step aho s (.deleteQGHits error i) = some t ↔
      ∃ gid, s.deleting[i]? = some gid ∧
        ((error ≠ none ∧ { s with deleting := s.deleting.eraseIdx i } = t) ∨
        (error = none ∧
          { s with
            db := (s.db.deleteQGHits none gid).2
            deleting := s.deleting.eraseIdx i
            deleted := (gid, s.cycleEnd) :: s.deleted } = t)) := by
  cases error <;> simp [step, QueryDb.deleteQGHits, QueryDb.setQGHits, DumpDb.tryWrite]

theorem step_getAllQG {qgs : List QueryGroup} :
    step aho s (.getAllQG qgs) = some t ↔
      s.queryTh = .idle ∧ ∃ groups, s.db.getAllQG = .ok groups ∧ qgs.Perm groups ∧
        { s with queryTh := .querying qgs } = t := by
  unfold step
  cases s.queryTh with
  | idle => cases s.db.getAllQG <;> simp
  | _ => simp

theorem step_query {scan : List (Url × Str)} {qgsHits : List QueryGroupHits} :
    step aho s (.query scan qgsHits) = some t ↔
      ∃ qgs, s.queryTh = .querying qgs ∧
        qgsHits.Perm ((QueryLoop.query aho qgs scan).toList.map Prod.snd) ∧
        { s with queryTh := .saving qgsHits } = t := by
  unfold step
  cases s.queryTh <;> simp

theorem step_saveQGHits :
    step aho s .saveQGHits = some t ↔
      ∃ qgHits qgsHits, s.queryTh = .saving (qgHits :: qgsHits) ∧
        { s with db := (s.db.saveQGHits none qgHits).2, queryTh := .saving qgsHits } = t := by
  unfold step
  cases s.queryTh with
  | saving qgsHits => cases qgsHits <;> simp
  | _ => simp

theorem step_endCycle :
    step aho s .endCycle = some t ↔
      s.queryTh = .saving [] ∧
        { s with queryTh := .idle, cyclesCount := s.cyclesCount + 1 } = t := by
  unfold step
  cases s.queryTh with
  | saving qgsHits => cases qgsHits <;> simp
  | _ => simp

/-! ### Deleted groups -/

/-- No hits come back for a deleted group once the cycle in progress has ended. -/
def NoHits (s : State pb pbHits) : Prop :=
  ∀ p ∈ s.deleted, p.2 ≤ s.cyclesCount → hdlGetHits s.db p.1 = .ok []

/-- The groups that the cycle in progress has: those it has read, then those whose hits it is yet to
save. -/
def QueryTh.gids : QueryTh → List GroupId
  | .idle => []
  | .querying qgs => qgs.map QueryGroup.gid
  | .saving qgsHits => qgsHits.map QueryGroupHits.gid

/-- Where the label is the answer to a deletion, its group is not stored again and the cycle in
progress does not have it. -/
def Label.Settled (s : State pb pbHits) : Label → Prop
  | .deleteQGHits none i => ∀ gid ∈ s.deleting[i]?, gid ∉ s.db.qgDb ∧ gid ∉ s.queryTh.gids
  | _ => True

instance (s : State pb pbHits) (a : Label) : Decidable (a.Settled s) :=
  match a with
  | .deleteQGHits none _ => inferInstanceAs (Decidable (∀ _ ∈ _, _ ∧ _))
  | .deleteQGHits (some _) _ => .isTrue trivial
  | .setQueryGroup _ _ => .isTrue trivial
  | .deleteQG _ _ => .isTrue trivial
  | .getAllQG _ => .isTrue trivial
  | .query _ _ => .isTrue trivial
  | .saveQGHits => .isTrue trivial
  | .endCycle => .isTrue trivial

/-- Nothing is left of the group, in the databases or in the cycle. -/
structure GoneOf (s : State pb pbHits) (gid : GroupId) : Prop where
  group : s.db.qgDb[gid]? = none
  cycle : gid ∉ s.queryTh.gids
  hits : s.db.qgHitsDb[gid]? = none

/-- Groups are read under their own ids, and nothing is left of the deleted ones. -/
structure Gone (s : State pb pbHits) : Prop where
  keyed : s.db.Keyed
  deleted : ∀ p ∈ s.deleted, GoneOf s p.1

theorem gone_init (content : QueryDbContent) : Gone (.init content : State pb pbHits) where
  keyed := QueryDb.keyed_dumps content
  deleted _ hp := absurd hp List.not_mem_nil

/-- A cycle has no more groups than before. -/
theorem GoneOf.of_subset (h : GoneOf s gid) (hdb : t.db = s.db)
    (hth : t.queryTh.gids ⊆ s.queryTh.gids) : GoneOf t gid where
  group := hdb ▸ h.group
  cycle hmem := h.cycle (hth hmem)
  hits := hdb ▸ h.hits

/-- The hits that `_query` puts out are of groups that were read. -/
theorem gids_query_subset {qgs : List QueryGroup} {scan : List (Url × Str)}
    {qgsHits : List QueryGroupHits}
    (h : qgsHits.Perm ((QueryLoop.query aho qgs scan).toList.map Prod.snd)) :
    (QueryTh.saving qgsHits).gids ⊆ (QueryTh.querying qgs).gids := by
  intro gid hgid
  obtain ⟨hits, hhits, rfl⟩ := List.mem_map.mp hgid
  have hget := (OrdMap.mem_map_snd_toList_iff
    fun _ _ => QueryLoop.gid_of_getElem?_query).mp (h.mem_iff.mp hhits)
  exact QueryLoop.mem_gids_of_getElem?_query hget

/-- **One step.**  What is gone stays so until the group is set again, and a settled deletion leaves
nothing of its group. -/
theorem gone_step {a : Label} (h : step aho s a = some t) (hsettled : a.Settled s) (hs : Gone s) :
    Gone t := by
  cases a with
  | setQueryGroup error qg =>
    rcases step_setQueryGroup.mp h with ⟨-, rfl⟩ | ⟨-, rfl⟩
    · exact hs
    · refine ⟨hs.keyed.saveQG qg, fun p hp => ?_⟩
      obtain ⟨hmem, hne⟩ := List.mem_filter.mp hp
      have hgone := hs.deleted p hmem
      refine ⟨?_, hgone.cycle, hgone.hits⟩
      show (s.db.saveQG none qg).2.qgDb[p.1]? = none
      rw [QueryDb.qgDb_saveQG, OrdMap.getElem?_insert, if_neg (Ne.symm (of_decide_eq_true hne))]
      exact hgone.group
  | deleteQG error gid =>
    rcases step_deleteQG.mp h with ⟨-, rfl⟩ | ⟨-, rfl⟩
    · exact hs
    · refine ⟨hs.keyed.deleteQG gid, fun p hp => ?_⟩
      have hgone := hs.deleted p hp
      refine ⟨?_, hgone.cycle, hgone.hits⟩
      show (s.db.deleteQG none gid).2.qgDb[p.1]? = none
      rw [QueryDb.qgDb_deleteQG, OrdMap.getElem?_erase, hgone.group, ite_self]
  | deleteQGHits error i =>
    obtain ⟨gid, hi, ⟨-, rfl⟩ | ⟨rfl, rfl⟩⟩ := step_deleteQGHits.mp h
    · exact ⟨hs.keyed, fun p hp => (hs.deleted p hp).of_subset rfl (List.Subset.refl _)⟩
    · obtain ⟨hgroup, hcycle⟩ := hsettled gid hi
      refine ⟨hs.keyed, fun p hp => ?_⟩
      have herased : (s.db.deleteQGHits none gid).2.qgHitsDb[p.1]?
          = if gid = p.1 then none else s.db.qgHitsDb[p.1]? := by
        rw [QueryDb.qgHitsDb_deleteQGHits, OrdMap.getElem?_erase]
      rcases List.mem_cons.mp hp with rfl | hmem
      · exact ⟨Std.ExtTreeMap.getElem?_eq_none hgroup, hcycle, herased.trans (if_pos rfl)⟩
      · have hgone := hs.deleted p hmem
        refine ⟨hgone.group, hgone.cycle, ?_⟩
        rw [herased, hgone.hits, ite_self]
  | getAllQG qgs =>
    obtain ⟨-, groups, hgroups, hqgs, rfl⟩ := step_getAllQG.mp h
    refine ⟨hs.keyed, fun p hp => ?_⟩
    have hgone := hs.deleted p hp
    -- a group that is not stored is not read
    refine ⟨hgone.group, fun hmem => ?_, hgone.hits⟩
    obtain ⟨qg, hqg, hgid⟩ := List.mem_map.mp hmem
    exact hs.keyed.getElem?_ne_none hgroups (hqgs.mem_iff.mp hqg) (hgid ▸ hgone.group)
  | query scan qgsHits =>
    obtain ⟨qgs, hth, hhits, rfl⟩ := step_query.mp h
    have hsubset : (QueryTh.saving qgsHits).gids ⊆ s.queryTh.gids := by
      rw [hth]
      exact gids_query_subset hhits
    exact ⟨hs.keyed, fun p hp => (hs.deleted p hp).of_subset rfl hsubset⟩
  | saveQGHits =>
    obtain ⟨qgHits, qgsHits, hth, rfl⟩ := step_saveQGHits.mp h
    refine ⟨hs.keyed, fun p hp => ?_⟩
    have hgone := hs.deleted p hp
    have hcycle := hgone.cycle
    rw [hth] at hcycle
    have hne : p.1 ≠ qgHits.gid := fun heq => hcycle (heq ▸ List.mem_cons_self)
    refine ⟨hgone.group, fun hmem => hcycle (List.mem_cons_of_mem _ hmem), ?_⟩
    -- the hits saved are not of a deleted group
    show (s.db.saveQGHits none qgHits).2.qgHitsDb[p.1]? = none
    rw [QueryDb.qgHitsDb_saveQGHits, OrdMap.getElem?_insert, if_neg (Ne.symm hne)]
    exact hgone.hits
  | endCycle =>
    obtain ⟨-, rfl⟩ := step_endCycle.mp h
    refine ⟨hs.keyed, fun p hp => (hs.deleted p hp).of_subset rfl ?_⟩
    exact List.nil_subset _

theorem GoneOf.hdlGetHits_eq (h : GoneOf s gid) : hdlGetHits s.db gid = .ok [] := by
  unfold hdlGetHits QueryDb.loadQGHits DumpDb.load
  rw [h.hits]
  rfl

/-- **When a deletion is final.**  No hits come back for a deleted group in any run in which every
deletion that is answered finds its group not set again and not with the cycle in progress. -/
theorem along_noHits_of_meets_settled (aho : AhoCorasick) (content : QueryDbContent)
    {l : List Label}
    (hsettled : Machine.Meets (step aho) (fun s a => a.Settled s)
      (.init content : State pb pbHits) l) :
    Machine.Along (step aho) NoHits (.init content : State pb pbHits) l := by
  have halong := Machine.along_of_meets (P := Gone)
    (fun _ _ _ h hok hs => gone_step h hok hs) hsettled (gone_init content)
  exact halong.mono fun s hs p hp _ => (hs.deleted p hp).hdlGetHits_eq

/-- Two groups that are found on the page of `scan`. -/
def newsGroup : QueryGroup := ⟨Str.ofString "g", [Str.ofString "news"]⟩

def leanGroup : QueryGroup := ⟨Str.ofString "h", [Str.ofString "lean"]⟩

def scan : List (Url × Str) := [(Str.ofString "http://a/", Str.ofString "lean news")]

def hitsOf (qg : QueryGroup) : QueryGroupHits := ⟨qg.gid, [Str.ofString "http://a/"]⟩

def deleteGroup : List Label :=
  [.deleteQG none newsGroup.gid, .deleteQGHits none 0]

/-- A cycle that finds these groups, with what happens before it searches the pages and before it
saves the hits of the second group. -/
def cycleWith (qgs : List QueryGroup) (before between : List Label) : List Label :=
  .getAllQG qgs :: before ++ .query scan (qgs.map hitsOf) :: .saveQGHits :: between ++
    (qgs.tail.map fun _ => .saveQGHits) ++ [.endCycle]

/-- A group is deleted between the hits of two groups, and set again after the cycle. -/
def deletedBetween : List Label :=
  [.setQueryGroup none newsGroup, .setQueryGroup none leanGroup] ++
    cycleWith [newsGroup, leanGroup] [] deleteGroup ++ cycleWith [leanGroup] [] [] ++
    .setQueryGroup none newsGroup :: cycleWith [newsGroup, leanGroup] [] []

/-- Empty databases. -/
def noGroups : State (.plain QueryGroup.strings) (.plain QueryGroupHits.strings) := .init .empty

theorem along_noHits_of_meets_settled_deletedBetween :
    (Machine.run (step .search) noGroups deletedBetween).isSome ∧
      Machine.Along (step .search) NoHits noGroups deletedBetween :=
  ⟨by decide +kernel, along_noHits_of_meets_settled .search .empty (by decide +kernel)⟩

/-- A deletion in a cycle that has read the group. -/
def deletedInCycle : List Label :=
  .setQueryGroup none newsGroup :: cycleWith [newsGroup] deleteGroup []

/-- A deletion in two steps, with the group set in between, and a cycle after it. -/
def setBetween : List Label :=
  [.setQueryGroup none newsGroup, .deleteQG none newsGroup.gid, .setQueryGroup none newsGroup,
    .deleteQGHits none 0] ++ cycleWith [newsGroup] [] []

/-- A run breaks the promise if a deleted group has hits at its end. -/
theorem not_along_of_hits {l : List Label}
    (h : ∃ s, Machine.run (step .search) noGroups l = some s ∧
      ∃ p ∈ s.deleted, p.2 ≤ s.cyclesCount ∧ hdlGetHits s.db p.1 ≠ .ok []) :
    ¬ Machine.Along (step .search) NoHits noGroups l := by
  intro halong
  obtain ⟨s, hs, p, hp, hcount, hhits⟩ := h
  exact hhits (halong.last hs p hp hcount)

/-- In both the deleted group has hits afterwards. -/
theorem not_along_noHits :
    ¬ Machine.Along (step .search) NoHits noGroups deletedInCycle ∧
      ¬ Machine.Along (step .search) NoHits noGroups setBetween :=
  ⟨not_along_of_hits (by decide +kernel), not_along_of_hits (by decide +kernel)⟩

end Contentv1.QueryGroups
