import Contentv1.Ldb.Equiv.UrlsDaysDb

/-!
# What `waitMerged` waits for

`waitMerged` blocks until `m_merge_finished` is true.  A round takes the flag back when it starts
and gives it when it has merged something; a round that finds nothing returns early, and saving a
visit leaves the flag as it is.  So between rounds the flag says that the last round took a visit,
whether or not something was saved since (`Tracks.idle`).

* `along_waitsRight_iff_along_inStep`: where a run has come to, and in all its continuations, the
  flag is true exactly when everything is merged if and only if the last round took a visit exactly
  when nothing was saved since.
* `along_mergeFinished_eq_false`: a caller that has nothing to wait for, while the flag is false,
  waits until somebody saves a visit.
-/

namespace Contentv1.UrlsDaysDb

/-- The store beside a record of its visits. -/
structure Watched where
  st : State
  saved : List UrlTpStat
  /-- The visits of the rounds that have ended; those that were too old were dropped there. -/
  merged : List UrlTpStat
  /-- What the last round took from the queue, with the reading of the clock at each visit. -/
  round : List (UrlTpStat × ℤ)
  /-- What was saved since the last round found the queue empty. -/
  since : List UrlTpStat

/-- The start on any database. -/
def Watched.init (db : OrdMap Url UrlDaysPb) : Watched := ⟨openDb db, [], [], [], []⟩

def watch (misc : MiscTime) (o : Watched) (a : Label) : Option Watched :=
  (step misc o.st a).bind fun t =>
    match a with
    | .save utp =>
      some { o with st := t, saved := o.saved ++ [utp], since := o.since ++ [utp] }
    | .mergeStart => some { o with st := t, round := [] }
    | .tryDequeue i now =>
      o.st.q[i]?.map fun utp => { o with st := t, round := o.round ++ [(utp, now)] }
    | .drained =>
      -- the early return ends the round
      some { o with
        st := t
        since := []
        merged := if t.mergeTh.isIdle then o.merged ++ o.round.map Prod.fst else o.merged }
    | .switch => some { o with st := t, merged := o.merged ++ o.round.map Prod.fst }
    | .reopen => some { o with st := t, round := [], since := [] }
    | _ => some { o with st := t }

/-- The visit is not too old for `add`. -/
def Fresh (p : UrlTpStat × ℤ) : Prop := p.2 - p.1.tp ≤ days 13

instance : DecidablePred Fresh := fun p => inferInstanceAs (Decidable (p.2 - p.1.tp ≤ days 13))

/-- Where no round is running, the flag is true exactly when every saved visit is merged. -/
def WaitsRight (o : Watched) : Prop :=
  o.st.mergeTh = .idle → (o.st.mergeFinished = true ↔ o.merged.Perm o.saved)

/-- Where no round is running, the last one took a visit exactly when nothing was saved since. -/
def InStep (o : Watched) : Prop :=
  o.st.mergeTh = .idle → ((∃ p ∈ o.round, Fresh p) ↔ o.since = [])

instance : DecidablePred InStep := fun o =>
  decidable_of_iff (o.st.mergeTh.isIdle = true → ((∃ p ∈ o.round, Fresh p) ↔ o.since = []))
    (imp_congr_left MergeTh.isIdle_iff)

variable {misc : MiscTime} {o o' : Watched} {db : OrdMap Url UrlDaysPb} {l₀ l : List Label}

theorem empty_default : (default : UrlsLastDays).empty = true := Std.ExtTreeMap.isEmpty_empty

/-- A local object has an entry exactly when it was given a visit that was not too old. -/
theorem empty_add {ud : UrlsLastDays} {utp : UrlTpStat} {now : ℤ} :
    (ud.add misc utp now).empty = false ↔ ud.empty = false ∨ Fresh (utp, now) := by
  unfold UrlsDays.add Fresh
  rw [show UrlsDays.duration 14 = days 13 from rfl]
  split_ifs with hold
  · exact (or_iff_left (not_le.mpr hold)).symm
  · refine iff_of_true ?_ (Or.inr (not_lt.mp hold))
    show Std.ExtTreeMap.isEmpty (Std.ExtTreeMap.insert _ _ _) = false
    simp

/-- What the last round has taken says where the merge thread stands. -/
def RoundTracked (o : Watched) : Prop :=
  match o.st.mergeTh with
  | .idle => (o.st.mergeFinished = true ↔ ∃ p ∈ o.round, Fresh p) ∧ o.st.q = o.since
  | .draining upd => o.st.mergeFinished = false ∧ (upd.empty = false ↔ ∃ p ∈ o.round, Fresh p)
  -- only a round that has taken something comes here
  | .drained _ | .copied _ _ | .merged _ _ => (∃ p ∈ o.round, Fresh p) ∧ o.st.q = o.since

/-- The visits of a round that is running. -/
def inRound (o : Watched) : List UrlTpStat :=
  if o.st.mergeTh.isIdle then [] else o.round.map Prod.fst

structure Tracks (o : Watched) : Prop where
  /-- A saved visit is merged, in the round that is running, or in the queue. -/
  saved : (o.merged ++ inRound o ++ o.st.q).Perm o.saved
  round : RoundTracked o

theorem tracks_init (db : OrdMap Url UrlDaysPb) : Tracks (.init db) where
  saved := List.Perm.refl _
  round := by
    refine ⟨iff_of_false Bool.false_ne_true ?_, rfl⟩
    rintro ⟨p, hp, -⟩
    cases hp

theorem tracks_watch (a : Label) (h : watch misc o a = some o') (ho : Tracks o) : Tracks o' := by
  obtain ⟨hsaved, hround⟩ := ho
  obtain ⟨⟨q, th, ud, snap, db, fin⟩, saved, merged, round, since⟩ := o
  obtain ⟨t, ht, h⟩ := Option.bind_eq_some_iff.mp h
  cases a with
  | save utp =>
    obtain rfl := step_save.mp ht
    obtain rfl := Option.some.inj h
    refine ⟨?_, ?_⟩
    · show (merged ++ _ ++ (q ++ [utp])).Perm (saved ++ [utp])
      rw [← List.append_assoc]
      exact hsaved.append_right _
    · cases th with
      | draining upd => exact hround
      | idle | drained | copied | merged => exact ⟨hround.1, congrArg (· ++ [utp]) hround.2⟩
  | mergeStart =>
    obtain ⟨hth, rfl⟩ := step_mergeStart.mp ht
    obtain rfl := Option.some.inj h
    obtain rfl : th = .idle := hth
    have hempty : ¬(default : UrlsLastDays).empty = false := by
      rw [Bool.not_eq_false]
      exact empty_default
    refine ⟨hsaved, rfl, iff_of_false hempty ?_⟩
    rintro ⟨p, hp, -⟩
    cases hp
  | tryDequeue i now =>
    obtain ⟨upd, utp, hth, hutp, rfl⟩ := step_tryDequeue.mp ht
    obtain rfl : th = .draining upd := hth
    dsimp only at h
    rw [hutp] at h
    obtain rfl := Option.some.inj h
    refine ⟨?_, ?_⟩
    · -- the element moves from the queue to the round
      have hmove := (Machine.perm_cons_eraseIdx hutp).append_left (merged ++ round.map Prod.fst)
      show (merged ++ (round ++ [(utp, now)]).map Prod.fst ++ q.eraseIdx i).Perm saved
      rw [List.map_append, ← List.append_assoc, List.append_assoc]
      exact hmove.symm.trans hsaved
    · obtain ⟨hfin, htook⟩ := hround
      refine ⟨hfin, ?_⟩
      show (upd.add misc utp now).empty = false ↔ ∃ p ∈ round ++ [(utp, now)], Fresh p
      rw [empty_add, htook]
      simp [or_and_right, exists_or]
  | drained =>
    obtain ⟨upd, hth, hq, rfl⟩ := step_drained.mp ht
    obtain rfl : th = .draining upd := hth
    obtain rfl : q = [] := hq
    obtain rfl := Option.some.inj h
    obtain ⟨hfin, htook⟩ := hround
    dsimp only at hfin htook
    by_cases hempty : upd.empty = true
    · -- the early return: the flag stays as the start of the round left it
      rw [if_pos hempty]
      rw [hempty] at htook
      refine ⟨?_, iff_of_false ?_ ?_, rfl⟩
      · show (merged ++ round.map Prod.fst ++ [] ++ []).Perm saved
        rw [List.append_nil]
        exact hsaved
      · rw [hfin]
        exact Bool.false_ne_true
      · exact fun h => Bool.noConfusion (htook.mpr h)
    · rw [if_neg hempty]
      exact ⟨hsaved, htook.mp (Bool.not_eq_true _ ▸ hempty), rfl⟩
  | copy =>
    obtain ⟨upd, hth, rfl⟩ := step_copy.mp ht
    obtain rfl : th = .drained upd := hth
    obtain rfl := Option.some.inj h
    exact ⟨hsaved, hround⟩
  | mergeLocal now =>
    obtain ⟨upd, copy, hth, rfl⟩ := step_mergeLocal.mp ht
    obtain rfl : th = .copied upd copy := hth
    obtain rfl := Option.some.inj h
    exact ⟨hsaved, hround⟩
  | switch =>
    obtain ⟨upd, copy, hth, rfl⟩ := step_switch.mp ht
    obtain rfl : th = .merged upd copy := hth
    obtain rfl := Option.some.inj h
    refine ⟨?_, iff_of_true rfl hround.1, hround.2⟩
    show (merged ++ round.map Prod.fst ++ [] ++ q).Perm saved
    rw [List.append_nil]
    exact hsaved
  | snapCopy keys =>
    obtain ⟨-, -, rfl⟩ := step_snapCopy.mp ht
    obtain rfl := Option.some.inj h
    exact ⟨hsaved, hround⟩
  | snapPut =>
    obtain rfl := Option.some.inj h
    rcases step_snapPut.mp ht with ⟨ud, -, rfl⟩ | ⟨ud, key, keys, -, rfl⟩
    · exact ⟨hsaved, hround⟩
    · exact ⟨hsaved, hround⟩
  | reopen =>
    obtain ⟨hth, hq, -, rfl⟩ := step_reopen.mp ht
    obtain rfl : th = .idle := hth
    obtain rfl : q = [] := hq
    obtain rfl := Option.some.inj h
    exact ⟨hsaved, (tracks_init _).round⟩

/-- Between the rounds the flag says that the last one took a visit, and everything is merged
exactly when nothing was saved since. -/
theorem Tracks.idle (ho : Tracks o) (hidle : o.st.mergeTh = .idle) :
    (o.st.mergeFinished = true ↔ ∃ p ∈ o.round, Fresh p) ∧
      (o.merged.Perm o.saved ↔ o.since = []) := by
  obtain ⟨⟨q, th, ud, snap, db, fin⟩, saved, merged, round, since⟩ := o
  obtain rfl : th = .idle := hidle
  obtain ⟨hsaved, hflag, hq⟩ := ho
  refine ⟨hflag, ?_⟩
  have hbag : (merged ++ since).Perm saved := by
    have hsaved : (merged ++ [] ++ q).Perm saved := hsaved
    rwa [List.append_nil, show q = since from hq] at hsaved
  show merged.Perm saved ↔ since = []
  constructor
  · intro hall
    have hlength := (hbag.trans hall.symm).length_eq
    rw [List.length_append] at hlength
    exact List.length_eq_zero_iff.mp (by omega)
  · rintro rfl
    rwa [List.append_nil] at hbag

theorem waitsRight_iff_inStep (ho : Tracks o) : WaitsRight o ↔ InStep o := by
  refine forall_congr' fun hidle => ?_
  obtain ⟨hflag, hmerged⟩ := ho.idle hidle
  rw [hflag, hmerged]

/-- **`waitMerged`** waits as long as it should, from any point of a run on, exactly when between
the rounds the last one took a visit if and only if nothing was saved since. -/
theorem along_waitsRight_iff_along_inStep (misc : MiscTime) {db : OrdMap Url UrlDaysPb}
    {l₀ : List Label} {o : Watched}
    (hrun : Machine.run (watch misc) (.init db) l₀ = some o) (l : List Label) :
    Machine.Along (watch misc) WaitsRight o l ↔ Machine.Along (watch misc) InStep o l := by
  have hstep : ∀ o a o', watch misc o a = some o' → Tracks o → Tracks o' :=
    fun o a o' h ho => tracks_watch a h ho
  have ho : Tracks o := Machine.run_induction hstep hrun (tracks_init db)
  exact Machine.along_congr hstep (fun o ho => waitsRight_iff_inStep ho) ho

/-- A visit of `url` that is saved and merged at the epoch. -/
def roundAtEpoch (url : Url) : List Label :=
  [.save ⟨url, 0, 1⟩, .mergeStart, .tryDequeue 0 0, .drained, .copy, .mergeLocal 0, .switch]

theorem along_waitsRight_iff_along_inStep_round :
    ∃ o, Machine.run (watch .nearEpoch) (.init ∅) (roundAtEpoch (Str.ofString "http://a/"))
        = some o ∧ Machine.Along (watch .nearEpoch) WaitsRight o [.mergeStart] := by
  have hrun : ∃ o, Machine.run (watch .nearEpoch) (.init ∅)
      (roundAtEpoch (Str.ofString "http://a/")) = some o ∧
        Machine.Along (watch .nearEpoch) InStep o [.mergeStart] := by
    decide
  obtain ⟨o, ho, hinStep⟩ := hrun
  exact ⟨o, ho, (along_waitsRight_iff_along_inStep .nearEpoch ho _).mpr hinStep⟩

/-- After a round a caller with a pending visit does not wait, and after the next, empty one a
caller without one does. -/
theorem exists_not_waitsRight :
    (∃ o, Machine.run (watch .nearEpoch) (.init ∅)
        (roundAtEpoch (Str.ofString "http://a/") ++ [.save ⟨Str.ofString "http://a/", 0, 1⟩])
        = some o ∧
      o.st.mergeTh.isIdle = true ∧ o.st.mergeFinished = true ∧ ¬ o.merged.Perm o.saved) ∧
    ∃ o, Machine.run (watch .nearEpoch) (.init ∅)
        (roundAtEpoch (Str.ofString "http://a/") ++ [.mergeStart, .drained]) = some o ∧
      o.st.mergeTh.isIdle = true ∧ o.st.mergeFinished = false ∧ o.merged.Perm o.saved := by
  decide

/-! ### A wait without an end -/

/-- There is nothing to merge, and the flag is false. -/
structure Stuck (s : State) : Prop where
  mergeFinished : s.mergeFinished = false
  q : s.q = []
  mergeTh : s.mergeTh = .idle ∨ s.mergeTh = .draining default

/-- Only saving a visit changes that. -/
theorem stuck_step {s t : State} {a : Label} (hsave : ∀ utp, a ≠ .save utp)
    (h : step misc s a = some t) (hs : Stuck s) : Stuck t := by
  obtain ⟨hfin, hq, hth⟩ := hs
  cases a with
  | save utp => exact absurd rfl (hsave utp)
  | mergeStart =>
    obtain ⟨-, rfl⟩ := step_mergeStart.mp h
    exact ⟨rfl, hq, Or.inr rfl⟩
  | tryDequeue i now =>
    obtain ⟨upd, utp, -, hutp, -⟩ := step_tryDequeue.mp h
    rw [hq] at hutp
    cases hutp
  | drained =>
    obtain ⟨upd, hupd, -, rfl⟩ := step_drained.mp h
    rw [hupd] at hth
    obtain rfl : upd = default := by simpa using hth
    refine ⟨hfin, hq, Or.inl ?_⟩
    show (if (default : UrlsLastDays).empty then MergeTh.idle else MergeTh.drained default) = .idle
    rw [if_pos empty_default]
  | copy =>
    obtain ⟨upd, hupd, -⟩ := step_copy.mp h
    rw [hupd] at hth
    simp at hth
  | mergeLocal now =>
    obtain ⟨upd, copy, hupd, -⟩ := step_mergeLocal.mp h
    rw [hupd] at hth
    simp at hth
  | switch =>
    obtain ⟨upd, copy, hupd, -⟩ := step_switch.mp h
    rw [hupd] at hth
    simp at hth
  | snapCopy keys =>
    obtain ⟨-, -, rfl⟩ := step_snapCopy.mp h
    exact ⟨hfin, hq, hth⟩
  | snapPut =>
    rcases step_snapPut.mp h with ⟨ud, -, rfl⟩ | ⟨ud, key, keys, -, rfl⟩ <;>
    · exact ⟨hfin, hq, hth⟩
  | reopen =>
    obtain ⟨-, -, -, rfl⟩ := step_reopen.mp h
    exact ⟨rfl, rfl, Or.inl rfl⟩

/-- **No end.**  A caller that starts to wait then waits as long as no visit is saved, whatever the
threads do. -/
theorem along_mergeFinished_eq_false {s : State} {l : List Label} (hs : Stuck s)
    (hl : ∀ utp, Label.save utp ∉ l) :
    Machine.Along (step misc) (fun s => s.mergeFinished = false) s l := by
  induction l generalizing s with
  | nil => exact hs.mergeFinished
  | cons a l ih =>
    refine ⟨hs.mergeFinished, fun t ht => ?_⟩
    have hsave : ∀ utp, a ≠ .save utp := by
      rintro utp rfl
      exact hl utp List.mem_cons_self
    exact ih (stuck_step hsave ht hs) fun utp hutp => hl utp (List.mem_cons_of_mem a hutp)

end Contentv1.UrlsDaysDb
