import Contentv1.Scheduler.FillUrlFreqStats
import Contentv1.Ldb.Equiv.UrlsDaysDb

/-!
# Keys and entries of the visits store

`Agrees ud`: every entry of `ud` carries its own key, so that `getUTSV`, `iterateAll` and the
seeding of the frequency statistics speak of the URL a count was recorded for.

`UrlsDays::merge` creates an entry for a key that is new to it with `operator[]` and
`UrlDaysImpl::merge` copies the days only, so the entry has no URL.
`along_agrees_iff_meets_knownKeys` is the exact extent of this: the store agrees all along a run
exactly when no merge round brings a URL that the global object does not hold.
-/

namespace Contentv1

/-- The loop in closed form: every pack of every callback, and their number. -/
theorem fillUrlFreqStats_eq (calls : List (Url × List UrlTpStat)) (now : ℤ) :
    fillUrlFreqStats calls now
      = (calls.flatMap fun c => c.2.map fun uts => (uts, now),
          ((calls.flatMap fun c => c.2).length : ℤ)) := by
  have hinner : ∀ (l : List UrlTpStat) (acc : List (UrlTpStat × ℤ) × ℤ),
      l.foldl (fun acc uts => (acc.1 ++ [(uts, now)], acc.2 + 1)) acc
        = (acc.1 ++ l.map fun uts => (uts, now), acc.2 + (l.length : ℤ)) := by
    intro l
    induction l with
    | nil => simp
    | cons uts l ih =>
      intro acc
      rw [List.foldl_cons, ih, List.map_cons, List.append_assoc, List.length_cons]
      push_cast
      rw [add_assoc, add_comm 1]
      rfl
  have houter : ∀ (calls : List (Url × List UrlTpStat)) (acc : List (UrlTpStat × ℤ) × ℤ),
      calls.foldl
          (fun acc c => c.2.foldl (fun acc uts => (acc.1 ++ [(uts, now)], acc.2 + 1)) acc) acc
        = (acc.1 ++ calls.flatMap fun c => c.2.map fun uts => (uts, now),
            acc.2 + ((calls.flatMap fun c => c.2).length : ℤ)) := by
    intro calls
    induction calls with
    | nil => simp
    | cons c calls ih =>
      intro acc
      rw [List.foldl_cons, hinner, ih, List.flatMap_cons, List.append_assoc, List.flatMap_cons,
        List.length_append]
      push_cast
      rw [add_assoc]
  rw [fillUrlFreqStats, houter, List.nil_append, zero_add]

/-- What seeding should hand over: each stored count under the URL it is stored for. -/
def storedPacks (misc : MiscTime) (ud : UrlsLastDays) (now : ℤ) : List (UrlTpStat × ℤ) :=
  ud.urlsDays.toList.flatMap fun p =>
    p.2.dayVisits.toList.map fun q => (⟨p.1, misc.tpFromDayStr q.1, q.2⟩, now)

/-- Every entry carries its own key, and so does everything read from it. -/
structure Agrees (misc : MiscTime) (ud : UrlsLastDays) : Prop where
  url : ∀ (key : Url) (impl : UrlDaysImpl), ud.urlsDays[key]? = some impl → impl.url = key
  getUTSV : ∀ (key : Url) (utsv : List UrlTpStat), ud.getUTSV misc key = some utsv →
    ∀ uts ∈ utsv, uts.url = key
  iterateAll : ∀ calls : List (Url × List UrlTpStat), calls.Perm (ud.iterateAll misc) →
    ∀ c ∈ calls, ∀ uts ∈ c.2, uts.url = c.1
  fill : ∀ (calls : List (Url × List UrlTpStat)) (now : ℤ), calls.Perm (ud.iterateAll misc) →
    (fillUrlFreqStats calls now).1.Perm (storedPacks misc ud now)

theorem url_of_mem_toUTSV {misc : MiscTime} {impl : UrlDaysImpl} {uts : UrlTpStat}
    (h : uts ∈ impl.toUTSV misc) : uts.url = impl.url := by
  obtain ⟨q, -, rfl⟩ := List.mem_map.mp h
  rfl

/-- All of it follows from the entries. -/
theorem agrees_iff {misc : MiscTime} {ud : UrlsLastDays} :
    Agrees misc ud ↔
      ∀ (key : Url) (impl : UrlDaysImpl), ud.urlsDays[key]? = some impl → impl.url = key := by
  refine ⟨Agrees.url, fun h => ⟨h, ?_, ?_, ?_⟩⟩
  · intro key utsv hutsv uts huts
    obtain ⟨impl, himpl, rfl⟩ := Option.map_eq_some_iff.mp hutsv
    rw [url_of_mem_toUTSV huts]
    exact h key impl himpl
  · intro calls hcalls c hc uts huts
    obtain ⟨p, hp, rfl⟩ := List.mem_map.mp (hcalls.subset hc)
    rw [url_of_mem_toUTSV huts]
    exact h p.1 p.2 (Std.ExtTreeMap.mem_toList_iff_getElem?_eq_some.mp hp)
  · intro calls now hcalls
    have heq : ((ud.iterateAll misc).flatMap fun c => c.2.map fun uts => (uts, now))
        = storedPacks misc ud now := by
      unfold UrlsDays.iterateAll storedPacks UrlDaysImpl.toUTSV
      rw [List.flatMap_map]
      apply List.flatMap_congr
      intro p hp
      rw [List.map_map, h p.1 p.2 (Std.ExtTreeMap.mem_toList_iff_getElem?_eq_some.mp hp)]
      rfl
    rw [fillUrlFreqStats_eq, ← heq]
    exact hcalls.flatMap_right _

namespace UrlsDaysDb

variable {misc : MiscTime} {s t : State}

/-- A merge round brings no URL that the global object lacks. -/
def KnownKeys (s : State) (a : Label) : Prop :=
  a = .switch → ∀ upd copy, s.mergeTh = .merged upd copy →
    ∀ (key : Url) (impl : UrlDaysImpl), upd.urlsDays[key]? = some impl →
      key = default ∨ ∃ old, s.urlsDays.urlsDays[key]? = some old

/-- What a merge round is about to bring. -/
def brought (s : State) : UrlsLastDays :=
  match s.mergeTh with
  | .merged upd _ => upd
  | _ => default

theorem knownKeys_iff {a : Label} :
    KnownKeys s a ↔ (a = .switch → ∀ (key : Url) (impl : UrlDaysImpl),
      (brought s).urlsDays[key]? = some impl →
        key = default ∨ s.urlsDays.urlsDays[key]?.isSome = true) := by
  have hnone : ∀ key : Url, (default : UrlsLastDays).urlsDays[key]? = none :=
    fun _ => Std.ExtTreeMap.getElem?_empty
  unfold KnownKeys brought
  simp only [Option.isSome_iff_exists]
  cases s.mergeTh with
  | merged upd copy =>
    exact imp_congr_right fun _ => ⟨fun h => h upd copy rfl, by rintro h _ _ ⟨⟩; exact h⟩
  | _ => exact imp_congr_right fun _ => iff_of_true nofun (by simp [hnone])

instance (s : State) (a : Label) : Decidable (KnownKeys s a) := decidable_of_iff' _ knownKeys_iff

/-- One step keeps the agreement exactly when it brings no unknown URL. -/
theorem agrees_step_iff {a : Label} (h : step misc s a = some t) (hs : Invariant misc s)
    (hagree : Agrees misc s.urlsDays) : Agrees misc t.urlsDays ↔ KnownKeys s a := by
  by_cases ha : a = .switch
  · subst ha
    obtain ⟨upd, copy, hth, rfl⟩ := step_switch.mp h
    obtain ⟨now, rfl⟩ := hs.merged upd copy hth
    rw [agrees_iff]
    constructor
    · intro hnew _ upd' copy' hth' key impl hkey
      rw [hth] at hth'
      cases hth'
      -- the merged entry of a key that is new has the empty URL
      have hget := UrlsDays.getElem?_merge misc s.urlsDays upd now key
      rw [hkey, Option.elim_some] at hget
      have hurl := UrlsDays.url_merge hkey hget
      rw [hnew key _ hget] at hurl
      cases hold : s.urlsDays.urlsDays[key]? with
      | none =>
        rw [hold] at hurl
        exact Or.inl hurl
      | some old => exact Or.inr ⟨old, rfl⟩
    · intro hknown key impl hkey
      have hget := UrlsDays.getElem?_merge misc s.urlsDays upd now key
      cases hupd : upd.urlsDays[key]? with
      | none =>
        rw [hupd, Option.elim_none] at hget
        exact hagree.url key impl (hget.symm.trans hkey)
      | some v =>
        rw [UrlsDays.url_merge hupd hkey]
        rcases hknown rfl upd _ hth key v hupd with rfl | ⟨old, hold⟩
        · cases hold : s.urlsDays.urlsDays[(default : Url)]? with
          | none => rfl
          | some old => exact hagree.url _ old hold
        · rw [hold]
          exact hagree.url key old hold
  · -- no other step changes the global object, a restart included
    have hkeep : t.urlsDays = s.urlsDays := by
      by_cases hreopen : a = .reopen
      · subst hreopen
        exact urlsDays_reopen hs h
      · exact urlsDays_step ha hreopen h
    rw [hkeep]
    exact iff_of_true hagree fun hswitch => absurd hswitch ha

/-- **Where keys and entries agree.**  A run from a database whose entries carry their keys stays
in agreement exactly as long as no merge round brings a URL that is not stored yet. -/
theorem along_agrees_iff_meets_knownKeys (misc : MiscTime) (db : OrdMap Url UrlDaysPb)
    (hdb : ∀ (key : Url) (pb : UrlDaysPb), db[key]? = some pb → pb.url = key) {l : List Label}
    (hrun : Machine.run (step misc) (openDb db) l = some s) :
    Machine.Along (step misc) (fun s => Agrees misc s.urlsDays) (openDb db) l ↔
      Machine.Meets (step misc) KnownKeys (openDb db) l := by
  refine Machine.along_iff_meets (I := Invariant misc) (fun s a t => invariant_step a)
    (fun s a t h hs hagree => agrees_step_iff h hs hagree) hrun invariant_openDb ?_
  rw [agrees_iff]
  intro key impl hkey
  have hget := getElem?_loadSnapshot db key
  rw [show (loadSnapshot db).urlsDays[key]? = some impl from hkey, eq_comm,
    Option.map_eq_some_iff] at hget
  obtain ⟨pb, hpb, rfl⟩ := hget
  exact hdb key pb hpb

/-- One visit of a URL and the merge round that brings it. -/
def visitAndMerge (url : Url) : List Label :=
  [.save ⟨url, 0, 1⟩, .mergeStart, .tryDequeue 0 0, .drained, .copy, .mergeLocal 0, .switch]

/-- A database that holds the URL already. -/
def storedBefore (url : Url) : OrdMap Url UrlDaysPb := Std.ExtTreeMap.empty.insert url ⟨url, []⟩

/-- An instance: the run brings no other URL. -/
theorem along_agrees_iff_meets_knownKeys_stored :
    Machine.Along (step .nearEpoch) (fun s => Agrees .nearEpoch s.urlsDays)
      (openDb (storedBefore (Str.ofString "http://a/")))
      (visitAndMerge (Str.ofString "http://a/")) := by
  have hrun : (Machine.run (step .nearEpoch) (openDb (storedBefore (Str.ofString "http://a/")))
      (visitAndMerge (Str.ofString "http://a/"))).isSome := by
    decide
  exact (along_agrees_iff_meets_knownKeys .nearEpoch _ (by decide)
    (Option.some_get hrun).symm).mpr (by decide)

/-- The first visit of a URL leaves an entry without a URL. -/
theorem exists_not_agrees_first_visit :
    ∃ s, runEmpty .nearEpoch (visitAndMerge (Str.ofString "http://a/")) = some s ∧
      ¬ Agrees .nearEpoch s.urlsDays := by
  have hurl : (runEmpty .nearEpoch (visitAndMerge (Str.ofString "http://a/"))).map
      (fun s => s.urlsDays.urlsDays[Str.ofString "http://a/"]?.map UrlDaysImpl.url)
        = some (some (Str.ofString "")) := by decide
  obtain ⟨s, hs, hurl⟩ := Option.map_eq_some_iff.mp hurl
  obtain ⟨impl, himpl, hempty⟩ := Option.map_eq_some_iff.mp hurl
  refine ⟨s, hs, fun hagree => ?_⟩
  rw [hagree.url _ impl himpl] at hempty
  exact absurd hempty (by decide)

end UrlsDaysDb

end Contentv1
