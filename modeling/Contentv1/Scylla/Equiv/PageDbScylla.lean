import Contentv1.Scylla.PageDbScylla
import Contentv1.Lib.Machine
import Mathlib.Data.List.TakeWhile
import Mathlib.Tactic.SplitIfs

/-!
# `PageDbScylla` against `PageDb`

Both stores take the same operations; `IPageDb.see` is what a caller sees of one.
`meets_sameSeen_iff_meets_plain`: the two agree on every operation of a run exactly when it scans
only while no stored string has a NUL byte and loads only what shows two mistakes cancel.  For
`load` returns true where there is no row and false where there is one (`see_load`); a caller gets
the same from both stores only for a URL that is not stored and looks like a stored one up to its
first NUL byte.
-/

namespace Contentv1

/-! ### What a caller sees -/

namespace IPageDb

inductive Op
  | save (url : Url) (content : Str)
  | load (url : Url)
  | scanFull
  deriving DecidableEq

/-- What a caller sees of an operation. -/
inductive Seen
  /-- The text of the exception, if one is thrown. -/
  | saved (thrown : Option Str)
  /-- The content, if `load` returns true. -/
  | loaded (content : Option Str)
  | scanned (pages : List (Url × Str))
  deriving DecidableEq

/-- A scan may visit the pages in any order. -/
def Seen.Same : Seen → Seen → Prop
  | .saved thrown, .saved thrown' => thrown = thrown'
  | .loaded content, .loaded content' => content = content'
  | .scanned pages, .scanned pages' => pages.Perm pages'
  | _, _ => False

variable {σ : Type} (db : IPageDb σ)

def see (s : σ) : Op → Seen
  | .save url content =>
    .saved (match db.save s url content with
      | .ok _ => none
      | .error text => some text)
  | .load url =>
    let r := db.load s url default
    .loaded (if r.1 then some r.2 else none)
  | .scanFull => .scanned (db.scanFull s)

/-- The store after an operation. -/
def after (s : σ) : Op → σ
  | .save url content =>
    match db.save s url content with
    | .ok s => s
    | .error _ => s
  | _ => s

end IPageDb

/-- Both stores under the same operations. -/
def bothStep (p : PageDb × PageDbScylla) (op : IPageDb.Op) : Option (PageDb × PageDbScylla) :=
  some (PageDb.iface.after p.1 op, PageDbScylla.iface.after p.2 op)

/-- The operation shows the same of both stores. -/
def SameSeen (p : PageDb × PageDbScylla) (op : IPageDb.Op) : Prop :=
  (PageDb.iface.see p.1 op).Same (PageDbScylla.iface.see p.2 op)

/-- The URL is not stored, but one with the same bytes up to the first NUL is. -/
def CutShort (pageDb : PageDb) (url : Url) : Prop :=
  pageDb.db[url]? = none ∧
    ∃ (url' : Url) (content : Str), pageDb.db[url']? = some content ∧ url'.cStr = url.cStr

/-- A load is of a URL that is cut short, and there is no scan while a string with a NUL byte is
stored. -/
def IPageDb.Op.Plain (pageDb : PageDb) : IPageDb.Op → Prop
  | .save _ _ => True
  | .load url => CutShort pageDb url
  | .scanFull => ∀ (url : Url) (content : Str), pageDb.db[url]? = some content →
      url.NulFree ∧ content.NulFree

/-! ### The methods -/

theorem Str.nulFree_cStr (s : Str) : s.cStr.NulFree := by
  intro h
  unfold cStr at h
  have hne := List.mem_takeWhile_imp h
  exact absurd rfl (of_decide_eq_true hne)

theorem Str.cStr_eq_self {s : Str} (h : s.NulFree) : s.cStr = s := by
  have hall : ∀ b ∈ s.bytes, decide (b ≠ 0) = true := by
    intro b hb
    apply decide_eq_true
    rintro rfl
    exact h hb
  unfold Str.cStr
  rw [List.takeWhile_eq_self_iff.mpr hall]

namespace PageDbScylla

/-- A save writes what the driver leaves of both strings. -/
theorem getElem?_after_save (pageDb : PageDbScylla) (url url' : Url) (content : Str) :
    (iface.after pageDb (.save url content)).webPages[url']?
      = if url.cStr = url' then some content.cStr else pageDb.webPages[url']? :=
  OrdMap.getElem?_insert pageDb.webPages url.cStr url' content.cStr

/-- A row is answered with false, and no row with true and the content as it was. -/
theorem see_load (pageDb : PageDbScylla) (url : Url) :
    iface.see pageDb (.load url)
      = .loaded (if pageDb.webPages[url.cStr]?.isSome then none else some default) := by
  have hload : iface.load pageDb url default = pageDb.load url default := rfl
  simp only [IPageDb.see, hload, load, selectAnswer]
  cases pageDb.webPages[url.cStr]? <;> rfl

theorem scanRows_map (l : List (Url × Str)) :
    scanRows (l.map fun p => [some p.1, some p.2]) = (l, Str.ofString "") := by
  induction l with
  | nil => rfl
  | cons p l ih =>
    rw [List.map_cons]
    simp [scanRows, ih]

/-- A scan of a table without errors calls back with every row. -/
theorem scanFull_eq (pageDb : PageDbScylla) : pageDb.scanFull = pageDb.webPages.toList := by
  simp only [scanFull, scanFullOn, scanAnswer, fullScanWebPages, scanRows_map]

end PageDbScylla

theorem PageDb.see_load (pageDb : PageDb) (url : Url) :
    PageDb.iface.see pageDb (.load url) = .loaded pageDb.db[url]? := by
  have hload : PageDb.iface.load pageDb url default = pageDb.load url default := rfl
  simp only [IPageDb.see, hload, PageDb.load]
  cases pageDb.db[url]? <;> rfl

/-- `PageDb` answers as a map does: `load` finds what was saved last. -/
theorem PageDb.getElem?_after_save (pageDb : PageDb) (url url' : Url) (content : Str) :
    (PageDb.iface.after pageDb (.save url content)).db[url']?
      = if url = url' then some content else pageDb.db[url']? :=
  OrdMap.getElem?_insert pageDb.db url url' content

/-! ### Both stores -/

/-- The table holds what the driver cuts off the strings, and all of what `PageDb` holds if no URL
has a NUL byte. -/
structure CutOff (p : PageDb × PageDbScylla) : Prop where
  keys : ∀ url : Url, (∃ content, p.2.webPages[url]? = some content) ↔
    ∃ (url' : Url) (content : Str), p.1.db[url']? = some content ∧ url'.cStr = url
  plain : ∀ (url : Url) (content : Str), p.2.webPages[url]? = some content →
    url.NulFree ∧ content.NulFree
  mirrors : (∀ (url : Url) (content : Str), p.1.db[url]? = some content → url.NulFree) →
    ∀ url : Url, p.2.webPages[url]? = p.1.db[url]?.map Str.cStr

theorem cutOff_init : CutOff (default, default) := by
  have hdb (url : Url) : (default : PageDb).db[url]? = none := Std.ExtTreeMap.getElem?_empty
  have hpages (url : Url) : (default : PageDbScylla).webPages[url]? = none :=
    Std.ExtTreeMap.getElem?_empty
  refine ⟨fun url => ?_, fun url content h => ?_, fun _ url => ?_⟩
  · simp [hdb, hpages]
  · rw [hpages] at h
    cases h
  · rw [hdb, hpages]
    rfl

theorem cutOff_step (p : PageDb × PageDbScylla) (op : IPageDb.Op) (q : PageDb × PageDbScylla)
    (h : bothStep p op = some q) (hp : CutOff p) : CutOff q := by
  obtain rfl := Option.some.inj h
  cases op with
  | load url => exact hp
  | scanFull => exact hp
  | save url content =>
    have hdb := PageDb.getElem?_after_save p.1 url
    have hpages := PageDbScylla.getElem?_after_save p.2 url
    refine ⟨fun url' => ?_, fun url' content' hget => ?_, fun hurls url' => ?_⟩
    · simp only [hdb, hpages]
      constructor
      · rintro ⟨content', hget⟩
        split_ifs at hget with heq
        · exact ⟨url, content, if_pos rfl, heq⟩
        · obtain ⟨url'', content'', hget', rfl⟩ := (hp.keys url').mp ⟨content', hget⟩
          refine ⟨url'', content'', ?_, rfl⟩
          rw [if_neg, hget']
          rintro rfl
          exact heq rfl
      · rintro ⟨url'', content', hget, rfl⟩
        by_cases heq : url.cStr = url''.cStr
        · exact ⟨content.cStr, if_pos heq⟩
        · have hne : url ≠ url'' := fun h => heq (congrArg Str.cStr h)
          rw [if_neg hne] at hget
          obtain ⟨content'', hget'⟩ := (hp.keys url''.cStr).mpr ⟨url'', content', hget, rfl⟩
          exact ⟨content'', by rw [if_neg heq, hget']⟩
    · rw [hpages] at hget
      split_ifs at hget with heq
      · rw [← heq, ← Option.some.inj hget]
        exact ⟨url.nulFree_cStr, content.nulFree_cStr⟩
      · exact hp.plain url' content' hget
    · -- no URL in the new map has a NUL byte, so neither has one in the old map
      have hurl : url.NulFree := by
        apply hurls url content
        rw [hdb, if_pos rfl]
      have hold : ∀ (url' : Url) (content' : Str), p.1.db[url']? = some content' →
          url'.NulFree := by
        intro url' content' hold
        by_cases heq : url = url'
        · rwa [← heq]
        · apply hurls url' content'
          rw [hdb, if_neg heq, hold]
      rw [hpages, hdb, Str.cStr_eq_self hurl, hp.mirrors hold]
      split_ifs <;> rfl

/-- A URL of which both stores say that nothing is loaded. -/
theorem sameSeen_load_iff (p : PageDb × PageDbScylla) (url : Url) (hp : CutOff p) :
    SameSeen p (.load url) ↔ CutShort p.1 url := by
  have hseen : SameSeen p (.load url) ↔
      p.1.db[url]? = if p.2.webPages[url.cStr]?.isSome then none else some default := by
    unfold SameSeen
    rw [PageDb.see_load, PageDbScylla.see_load]
    exact Iff.rfl
  rw [hseen]
  unfold CutShort
  rw [← hp.keys, ← Option.isSome_iff_exists]
  split_ifs with hrow
  · exact (and_iff_left hrow).symm
  · refine iff_of_false (fun hget => hrow ?_) fun h => hrow h.2
    -- a stored URL has a row
    exact Option.isSome_iff_exists.mpr ((hp.keys url.cStr).mpr ⟨url, default, hget, rfl⟩)

/-- A scan that visits the same pages of both stores. -/
theorem sameSeen_scanFull_iff (p : PageDb × PageDbScylla) (hp : CutOff p) :
    SameSeen p .scanFull ↔ ∀ (url : Url) (content : Str), p.1.db[url]? = some content →
      url.NulFree ∧ content.NulFree := by
  have hseen : SameSeen p .scanFull ↔ p.1.db.toList.Perm p.2.webPages.toList := by
    rw [← PageDbScylla.scanFull_eq]
    exact Iff.rfl
  rw [hseen]
  constructor
  · intro hperm url content hget
    apply hp.plain url content
    have hmem := Std.ExtTreeMap.mem_toList_iff_getElem?_eq_some.mpr hget
    exact Std.ExtTreeMap.mem_toList_iff_getElem?_eq_some.mp (hperm.subset hmem)
  · intro hplain
    have hmirrors := hp.mirrors fun url content hget => (hplain url content hget).1
    have heq : p.2.webPages = p.1.db := by
      apply Std.ExtTreeMap.ext_getElem?
      intro url
      rw [hmirrors]
      cases hget : p.1.db[url]? with
      | none => rfl
      | some content => rw [Option.map_some, Str.cStr_eq_self (hplain url content hget).2]
    rw [heq]

/-- **When the stores are interchangeable.** -/
theorem meets_sameSeen_iff_meets_plain (ops : List IPageDb.Op) :
    Machine.Meets bothStep SameSeen (default, default) ops ↔
      Machine.Meets bothStep (fun p op => op.Plain p.1) (default, default) ops := by
  refine Machine.meets_congr (I := CutOff) cutOff_step (fun p op hp => ?_) cutOff_init
  cases op with
  | save url content => exact iff_of_true rfl trivial
  | load url => exact sameSeen_load_iff p url hp
  | scanFull => exact sameSeen_scanFull_iff p hp

/-- A page that was saved is not loaded. -/
theorem not_meets_sameSeen_loadSaved :
    ¬ ∀ ops : List IPageDb.Op, Machine.Meets bothStep SameSeen (default, default) ops := by
  intro h
  have hmeets := h [.save (Str.ofString "http://a/") (Str.ofString "content"),
    .load (Str.ofString "http://a/")]
  have hload : some (Str.ofString "content") = none := (hmeets.2 _ rfl).1
  cases hload

end Contentv1
