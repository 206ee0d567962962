import Contentv1.Ldb.UrlsDaysDb
import Contentv1.Ldb.Equiv.UrlsDays

/-!
# What every run of `UrlsDaysDb` keeps

* `step_*` say for each label when it is enabled and what it does.
* `Invariant`: the global object has not moved under the merge thread while that works on its copy,
  and whatever a snapshot has written or will write has its key in the global object.
* `urlsDays_reopen`: a clean shutdown and reopening leaves the global object as it was.
-/

namespace Contentv1.UrlsDaysDb

variable {misc : MiscTime} {s t : State}

/-! ### One lemma for each label -/

theorem step_save {utp : UrlTpStat} :
    step misc s (.save utp) = some t ↔ { s with q := s.q ++ [utp] } = t := by
  show some _ = some t ↔ _
  rw [Option.some_inj]

theorem step_mergeStart :
    step misc s .mergeStart = some t ↔
      s.mergeTh = .idle ∧ { s with mergeTh := .draining default, mergeFinished := false } = t := by
  obtain ⟨q, th, ud, snap, db, fin⟩ := s
  cases th <;> simp [step]

theorem step_tryDequeue {i : ℕ} {now : ℤ} :
    step misc s (.tryDequeue i now) = some t ↔
      ∃ upd utp, s.mergeTh = .draining upd ∧ s.q[i]? = some utp ∧
        { s with q := s.q.eraseIdx i, mergeTh := .draining (upd.add misc utp now) } = t := by
  obtain ⟨q, th, ud, snap, db, fin⟩ := s
  cases th <;> cases hq : q[i]? <;> simp [step, hq]

theorem step_drained :
    step misc s .drained = some t ↔
      ∃ upd, s.mergeTh = .draining upd ∧ s.q = [] ∧
        { s with mergeTh := if upd.empty then .idle else .drained upd } = t := by
  obtain ⟨q, th, ud, snap, db, fin⟩ := s
  cases th <;> cases q <;> simp [step]

theorem step_copy :
    step misc s .copy = some t ↔
      ∃ upd, s.mergeTh = .drained upd ∧ { s with mergeTh := .copied upd s.urlsDays } = t := by
  obtain ⟨q, th, ud, snap, db, fin⟩ := s
  cases th <;> simp [step]

theorem step_mergeLocal {now : ℤ} :
    step misc s (.mergeLocal now) = some t ↔
      ∃ upd copy, s.mergeTh = .copied upd copy ∧
        { s with mergeTh := .merged upd (copy.merge misc upd now) } = t := by
  obtain ⟨q, th, ud, snap, db, fin⟩ := s
  cases th <;> simp [step]

theorem step_switch :
    step misc s .switch = some t ↔
      ∃ upd copy, s.mergeTh = .merged upd copy ∧
        { s with mergeTh := .idle, urlsDays := copy, mergeFinished := true } = t := by
  obtain ⟨q, th, ud, snap, db, fin⟩ := s
  cases th <;> simp [step]

theorem step_snapCopy {keys : List Url} :
    step misc s (.snapCopy keys) = some t ↔
      s.snapTh = none ∧ keys.Perm s.urlsDays.urlsDays.keys ∧
        { s with snapTh := some (s.urlsDays, keys) } = t := by
  show (if _ then _ else _) = some t ↔ _
  split_ifs with h
  · rw [Option.isNone_iff_eq_none] at h
    simp [h.1, h.2]
  · rw [Option.isNone_iff_eq_none] at h
    constructor
    · intro hn
      cases hn
    · rintro ⟨h1, h2, -⟩
      exact absurd ⟨h1, h2⟩ h

theorem step_snapPut :
    step misc s .snapPut = some t ↔
      (∃ ud, s.snapTh = some (ud, []) ∧ { s with snapTh := none } = t) ∨
      ∃ ud key keys, s.snapTh = some (ud, key :: keys) ∧
        { s with
          snapTh := some (ud, keys)
          db := (ud.urlsDays[key]?).elim s.db fun impl => putEntry s.db (key, impl) } = t := by
  obtain ⟨q, th, ud, snap, db, fin⟩ := s
  rcases snap with _ | ⟨copy, _ | ⟨key, keys⟩⟩ <;> simp [step]

theorem step_reopen :
    step misc s .reopen = some t ↔
      s.mergeTh = .idle ∧ s.q = [] ∧ s.snapTh = none ∧
        openDb (saveSnapshot s.db s.urlsDays) = t := by
  obtain ⟨q, th, ud, snap, db, fin⟩ := s
  cases th <;> cases q <;> cases snap <;> simp [step]

/-! ### Snapshots -/

/-- Every key of `n` is a key of `m`. -/
def Covers {β : Type} (m : OrdMap Url UrlDaysImpl) (n : OrdMap Url β) : Prop :=
  ∀ url : Url, m[url]? = none → n[url]? = none

theorem getElem?_putEntry (db : OrdMap Url UrlDaysPb) (p : Url × UrlDaysImpl) (url : Url) :
    (putEntry db p)[url]? = if p.1 = url then some p.2.dump else db[url]? :=
  OrdMap.getElem?_insert db p.1 url p.2.dump

theorem getElem?_saveSnapshot (db : OrdMap Url UrlDaysPb) (ud : UrlsLastDays) (url : Url) :
    (saveSnapshot db ud)[url]?
      = (ud.urlsDays[url]?).elim db[url]? fun impl => some impl.dump := by
  have hloc : OrdMap.LocalAt putEntry fun _ (impl : UrlDaysImpl) _ => some impl.dump :=
    getElem?_putEntry
  exact OrdMap.getElem?_foldl_perm hloc (List.Perm.refl _) db url

theorem getElem?_loadSnapshot (db : OrdMap Url UrlDaysPb) (url : Url) :
    (loadSnapshot db).urlsDays[url]? = db[url]?.map UrlDaysImpl.ofDump := by
  have hloc : OrdMap.LocalAt
      (fun (m : OrdMap Url UrlDaysImpl) (p : Url × UrlDaysPb) =>
        m.insert p.1 (UrlDaysImpl.ofDump p.2))
      fun _ pb _ => some (UrlDaysImpl.ofDump pb) :=
    fun m p k => OrdMap.getElem?_insert m p.1 k _
  unfold loadSnapshot
  rw [OrdMap.getElem?_foldl_perm hloc (List.Perm.refl _)]
  cases db[url]? <;> simp

/-- A snapshot over entries of known keys is loaded as it was saved. -/
theorem loadSnapshot_saveSnapshot {db : OrdMap Url UrlDaysPb} {ud : UrlsLastDays}
    (h : Covers ud.urlsDays db) : loadSnapshot (saveSnapshot db ud) = ud := by
  have hmap : (loadSnapshot (saveSnapshot db ud)).urlsDays = ud.urlsDays := by
    apply Std.ExtTreeMap.ext_getElem?
    intro url
    rw [getElem?_loadSnapshot, getElem?_saveSnapshot]
    cases hurl : ud.urlsDays[url]? with
    | none => rw [Option.elim_none, h url hurl, Option.map_none]
    | some impl => rw [Option.elim_some, Option.map_some, UrlDaysImpl.ofDump_dump]
  exact congrArg UrlsDays.mk hmap

/-! ### The invariant -/

structure Invariant (misc : MiscTime) (s : State) : Prop where
  /-- LevelDB holds no key that the global object lacks. -/
  db : Covers s.urlsDays.urlsDays s.db
  /-- Neither does the copy that is being written. -/
  snap : ∀ ud keys, s.snapTh = some (ud, keys) → Covers s.urlsDays.urlsDays ud.urlsDays
  /-- The merge thread's copy is one of the present global object. -/
  copied : ∀ upd copy, s.mergeTh = .copied upd copy → copy = s.urlsDays
  merged : ∀ upd copy, s.mergeTh = .merged upd copy → ∃ now, copy = s.urlsDays.merge misc upd now

theorem invariant_openDb {db : OrdMap Url UrlDaysPb} : Invariant misc (openDb db) where
  db := by
    intro url hurl
    have h := getElem?_loadSnapshot db url
    rw [show (loadSnapshot db).urlsDays[url]? = none from hurl, eq_comm, Option.map_eq_none_iff]
      at h
    exact h
  snap := nofun
  copied := nofun
  merged := nofun

/-- Merging keeps every key. -/
theorem covers_merge {ud upd : UrlsLastDays} {now : ℤ} {β : Type} {n : OrdMap Url β}
    (h : Covers ud.urlsDays n) : Covers (ud.merge misc upd now).urlsDays n := by
  intro url hurl
  rw [UrlsDays.getElem?_merge] at hurl
  cases hupd : upd.urlsDays[url]? with
  | none =>
    rw [hupd] at hurl
    exact h url hurl
  | some v =>
    rw [hupd] at hurl
    cases hurl

theorem covers_putEntry {m : OrdMap Url UrlDaysImpl} {ud : UrlsLastDays}
    {db : OrdMap Url UrlDaysPb} {key : Url} (hud : Covers m ud.urlsDays) (hdb : Covers m db) :
    Covers m ((ud.urlsDays[key]?).elim db fun impl => putEntry db (key, impl)) := by
  intro url hurl
  cases hkey : ud.urlsDays[key]? with
  | none => exact hdb url hurl
  | some impl =>
    have hne : key ≠ url := by
      rintro rfl
      rw [hud key hurl] at hkey
      cases hkey
    rw [Option.elim_some, getElem?_putEntry, if_neg hne]
    exact hdb url hurl

theorem invariant_step (a : Label) (h : step misc s a = some t) (hs : Invariant misc s) :
    Invariant misc t := by
  obtain ⟨hdb, hsnap, hcopied, hmerged⟩ := hs
  cases a with
  | save utp =>
    obtain rfl := step_save.mp h
    exact ⟨hdb, hsnap, hcopied, hmerged⟩
  | mergeStart =>
    obtain ⟨-, rfl⟩ := step_mergeStart.mp h
    exact ⟨hdb, hsnap, nofun, nofun⟩
  | tryDequeue i now =>
    obtain ⟨upd, utp, -, -, rfl⟩ := step_tryDequeue.mp h
    exact ⟨hdb, hsnap, nofun, nofun⟩
  | drained =>
    obtain ⟨upd, -, -, rfl⟩ := step_drained.mp h
    refine ⟨hdb, hsnap, ?_, ?_⟩ <;>
    · intro upd' copy hth
      dsimp only at hth
      split_ifs at hth
  | copy =>
    obtain ⟨upd, -, rfl⟩ := step_copy.mp h
    refine ⟨hdb, hsnap, ?_, nofun⟩
    rintro upd' copy hth
    cases hth
    rfl
  | mergeLocal now =>
    obtain ⟨upd, copy, hth, rfl⟩ := step_mergeLocal.mp h
    -- the global object is what it was when it was copied
    obtain rfl := hcopied upd copy hth
    refine ⟨hdb, hsnap, nofun, ?_⟩
    rintro upd' copy hth'
    cases hth'
    exact ⟨now, rfl⟩
  | switch =>
    obtain ⟨upd, copy, hth, rfl⟩ := step_switch.mp h
    obtain ⟨now, rfl⟩ := hmerged upd copy hth
    -- keys are only ever added, so what a snapshot has written keeps its key
    exact ⟨covers_merge hdb, fun ud keys hud => covers_merge (hsnap ud keys hud), nofun, nofun⟩
  | snapCopy keys =>
    obtain ⟨-, -, rfl⟩ := step_snapCopy.mp h
    refine ⟨hdb, ?_, hcopied, hmerged⟩
    rintro ud keys' hud
    cases hud
    exact fun url hurl => hurl
  | snapPut =>
    rcases step_snapPut.mp h with ⟨ud, -, rfl⟩ | ⟨ud, key, keys, hud, rfl⟩
    · exact ⟨hdb, nofun, hcopied, hmerged⟩
    · have hud' := hsnap ud _ hud
      refine ⟨covers_putEntry hud' hdb, ?_, hcopied, hmerged⟩
      rintro ud' keys' heq
      cases heq
      exact hud'
  | reopen =>
    obtain ⟨-, -, -, rfl⟩ := step_reopen.mp h
    exact invariant_openDb

/-- **Restart.**  A clean shutdown and reopening leaves the global object as it was. -/
theorem urlsDays_reopen (hs : Invariant misc s) (h : step misc s .reopen = some t) :
    t.urlsDays = s.urlsDays := by
  obtain ⟨-, -, -, rfl⟩ := step_reopen.mp h
  exact loadSnapshot_saveSnapshot hs.db

/-- Within a run of the program only the switch changes the global object. -/
theorem urlsDays_step {a : Label} (hswitch : a ≠ .switch) (hreopen : a ≠ .reopen)
    (h : step misc s a = some t) : t.urlsDays = s.urlsDays := by
  cases a with
  | save utp => rw [← step_save.mp h]
  | mergeStart => rw [← (step_mergeStart.mp h).2]
  | tryDequeue i now =>
    obtain ⟨upd, utp, -, -, rfl⟩ := step_tryDequeue.mp h
    rfl
  | drained =>
    obtain ⟨upd, -, -, rfl⟩ := step_drained.mp h
    rfl
  | copy =>
    obtain ⟨upd, -, rfl⟩ := step_copy.mp h
    rfl
  | mergeLocal now =>
    obtain ⟨upd, copy, -, rfl⟩ := step_mergeLocal.mp h
    rfl
  | switch => exact absurd rfl hswitch
  | snapCopy keys => rw [← (step_snapCopy.mp h).2.2]
  | snapPut =>
    rcases step_snapPut.mp h with ⟨ud, -, rfl⟩ | ⟨ud, key, keys, -, rfl⟩ <;> rfl
  | reopen => exact absurd rfl hreopen

end Contentv1.UrlsDaysDb
