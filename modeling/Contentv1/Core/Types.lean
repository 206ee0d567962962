import Mathlib.Algebra.Order.Ring.Int
import Mathlib.Order.Fin.Basic
import Mathlib.Data.List.Lex
import Mathlib.Tactic.SplitIfs
import Mathlib.Tactic.Ring

/-!
# Basic types

* `Str` is `std::string`: bytes, compared as unsigned characters, which is the order of every
  `std::map` keyed by a string and of `day_str` comparisons.
* A `Tp` is a time point of `system_clock` in nanoseconds, a `Ts` a time in whole seconds and a
  `Cnt` an `int64_t` counter whose sums stay far from its bounds.  All three are plain integers
  here, without names of their own, so that arithmetic sees them as such.
* `MiscTime` holds the functions of `misc/Time.h`, which is not part of the repository.
-/

namespace Contentv1

/-- `std::string`. -/
structure Str where
  bytes : List (Fin 256)
  deriving Repr

namespace Str

theorem bytes_injective : Function.Injective Str.bytes := by
  rintro ⟨a⟩ ⟨b⟩ rfl
  rfl

/-- Strings compare byte by byte, as `std::char_traits<char>` does. -/
instance : LinearOrder Str := LinearOrder.lift' Str.bytes bytes_injective

/-- The bytes of a literal. -/
def ofString (s : String) : Str := ⟨s.toUTF8.data.toList.map fun b => b.toFin⟩

/-- A string of any bytes. -/
def ofBytes (bytes : List UInt8) : Str := ⟨bytes.map UInt8.toFin⟩

instance : Inhabited Str := ⟨⟨[]⟩⟩

/-- `std::string::ends_with`. -/
def endsWith (s ending : Str) : Bool := ending.bytes.isSuffixOf s.bytes

def size (s : Str) : ℕ := s.bytes.length

instance : Append Str := ⟨fun s t => ⟨s.bytes ++ t.bytes⟩⟩

/-- `std::string::substr` from a position on. -/
def substr (s : Str) (pos : ℕ) : Str := ⟨s.bytes.drop pos⟩

/-- `std::string::substr` from the start. -/
def first (s : Str) (n : ℕ) : Str := ⟨s.bytes.take n⟩

/-- `misc::last_n`: the last `n` characters, or all of a shorter string. -/
def lastN (s : Str) (n : ℕ) : Str := ⟨s.bytes.drop (s.bytes.length - n)⟩

theorem size_append (s t : Str) : (s ++ t).size = s.size + t.size := List.length_append

theorem first_append_substr (s : Str) (n : ℕ) : s.first n ++ s.substr n = s :=
  congrArg Str.mk (List.take_append_drop n s.bytes)

theorem substr_append (s t : Str) : (s ++ t).substr s.size = t :=
  congrArg Str.mk List.drop_left

theorem size_first {s : Str} {n : ℕ} (h : n ≤ s.size) : (s.first n).size = n :=
  List.length_take_of_le h

theorem first_append (s t : Str) : (s ++ t).first s.size = s :=
  congrArg Str.mk List.take_left

theorem size_lastN (s : Str) (n : ℕ) : (s.lastN n).size = min n s.size := by
  unfold lastN size
  rw [List.length_drop]
  omega

theorem lastN_append {s t : Str} {n : ℕ} (h : t.size = n) : (s ++ t).lastN n = t := by
  have hlen : (s.bytes ++ t.bytes).length - n = s.bytes.length := by
    rw [List.length_append, ← h]
    exact Nat.add_sub_cancel _ _
  exact congrArg Str.mk ((congrArg (List.drop · _) hlen).trans List.drop_left)

/-- A string has one start of a size and one rest. -/
theorem append_inj {start start' rest rest' : Str} (h : start ++ rest = start' ++ rest')
    (hsize : start.size = start'.size) : start = start' ∧ rest = rest' := by
  have hbytes : start.bytes ++ rest.bytes = start'.bytes ++ rest'.bytes := congrArg Str.bytes h
  obtain ⟨hstart, hrest⟩ := List.append_inj hbytes hsize
  exact ⟨bytes_injective hstart, bytes_injective hrest⟩

end Str

abbrev Url := Str
abbrev Host := Str
abbrev UrlFreq := Url × ℤ

/-- Ticks of the clock in a second. -/
def ticksPerSec : ℤ := 1000000000

/-- `std::chrono::duration_cast<std::chrono::seconds>`, which truncates towards zero. -/
def durationCastSecs (d : ℤ) : ℤ := d.tdiv ticksPerSec

/-- `std::chrono::seconds` as a difference of time points. -/
def seconds (n : ℤ) : ℤ := n * ticksPerSec
def minutes (n : ℤ) : ℤ := seconds (60 * n)
def hours (n : ℤ) : ℤ := seconds (3600 * n)
def days (n : ℤ) : ℤ := seconds (86400 * n)

/-- `std::chrono::duration_cast<std::chrono::hours>`. -/
def durationCastHours (d : ℤ) : ℤ := d.tdiv (hours 1)

/-- `std::chrono::duration_cast<std::chrono::days>`. -/
def durationCastDays (d : ℤ) : ℤ := d.tdiv (days 1)

theorem durationCastSecs_mono {d e : ℤ} (h : d ≤ e) : durationCastSecs d ≤ durationCastSecs e :=
  Int.tdiv_le_tdiv (by decide) h

/-- A difference of at most `n` seconds is one of at most `n` seconds after truncation. -/
theorem durationCastSecs_le {d n : ℤ} (hn : 0 ≤ n) (h : d ≤ seconds n) :
    durationCastSecs d ≤ n := by
  rcases le_or_gt 0 d with hd | hd
  · rw [durationCastSecs, Int.tdiv_eq_ediv_of_nonneg hd]
    exact Int.ediv_le_of_le_mul (by decide) h
  · exact (durationCastSecs_mono hd.le).trans hn

/-- A positive number of whole units is reached once as many units have passed. -/
theorem le_tdiv_iff {d n unit : ℤ} (hn : 0 < n) (hunit : 0 < unit) :
    n ≤ d.tdiv unit ↔ n * unit ≤ d := by
  rcases le_or_gt 0 d with hd | hd
  · rw [Int.tdiv_eq_ediv_of_nonneg hd, Int.le_ediv_iff_mul_le hunit]
  · have hneg : d.tdiv unit ≤ 0 := by
      have hmono := Int.tdiv_le_tdiv (c := unit) hunit hd.le
      rwa [Int.zero_tdiv] at hmono
    have hprod : 0 < n * unit := mul_pos hn hunit
    exact iff_of_false (by omega) (by omega)

theorem le_durationCastHours_iff {d n : ℤ} (hn : 0 < n) :
    n ≤ durationCastHours d ↔ hours n ≤ d := by
  rw [durationCastHours, le_tdiv_iff hn (by decide)]
  unfold hours seconds
  rw [show n * (3600 * 1 * ticksPerSec) = 3600 * n * ticksPerSec by ring]

theorem le_durationCastDays_iff {d n : ℤ} (hn : 0 < n) :
    n ≤ durationCastDays d ↔ days n ≤ d := by
  rw [durationCastDays, le_tdiv_iff hn (by decide)]
  unfold days seconds
  rw [show n * (86400 * 1 * ticksPerSec) = 86400 * n * ticksPerSec by ring]

/-- The age of `tp` at `now`, in whole seconds, is above the window. -/
def tpExpired (window now tp : ℤ) : Bool := decide (window < durationCastSecs (now - tp))

/-- An earlier time point has expired too, and at a later moment. -/
theorem tpExpired_mono {window now now' tp tp' : ℤ} (hnow : now ≤ now') (htp : tp' ≤ tp)
    (h : tpExpired window now tp = true) : tpExpired window now' tp' = true := by
  have hold : window < durationCastSecs (now - tp) := of_decide_eq_true h
  have hage : durationCastSecs (now - tp) ≤ durationCastSecs (now' - tp') :=
    durationCastSecs_mono (sub_le_sub hnow htp)
  exact decide_eq_true (hold.trans_le hage)

/-- What is at most `window` seconds old has not expired, for its age is truncated. -/
theorem tpExpired_eq_false {window : ℤ} (hwindow : 0 ≤ window) (now tp : ℤ)
    (h : now - tp ≤ seconds window) : tpExpired window now tp = false :=
  decide_eq_false (not_lt.mpr (durationCastSecs_le hwindow h))

/-- One visit of a URL (`core/UrlVisit.h`). -/
structure UrlVisit where
  url : Url
  tp : ℤ
  deriving DecidableEq, Repr

/-- A number of visits of a URL at one time (`core/UrlTpStat.h`). -/
structure UrlTpStat where
  url : Url
  tp : ℤ
  cnt : ℤ
  deriving DecidableEq, Repr

/-- The constructor from a single visit. -/
def UrlTpStat.ofUrlVisit (uv : UrlVisit) : UrlTpStat := ⟨uv.url, uv.tp, 1⟩

/-- The functions of `misc/Time.h`.  What a result needs to know about them is among its
hypotheses. -/
structure MiscTime where
  /-- The day of a time point; days compare as strings. -/
  getDayStr : ℤ → Str
  /-- The time point at which a day begins. -/
  tpFromDayStr : Str → ℤ
  /-- The time point without its fraction of a second. -/
  roundSecs : ℤ → ℤ
  /-- The number of seconds of a time point, as it is written to a record. -/
  toInt64 : ℤ → ℤ
  /-- The time point with a number of seconds, as it is read from a record. -/
  fromInt64 : ℤ → ℤ

/-- The day strings sort as the days do: a later time point has no smaller one. -/
def MiscTime.DaysInOrder (misc : MiscTime) : Prop :=
  ∀ ⦃t u : ℤ⦄, t ≤ u → misc.getDayStr t ≤ misc.getDayStr u

/-- The time point of a day lies in that day. -/
def MiscTime.DaysReadBack (misc : MiscTime) : Prop :=
  ∀ t : ℤ, misc.getDayStr (misc.tpFromDayStr (misc.getDayStr t)) = misc.getDayStr t

/-- Between two time points that are 24 hours apart there is one midnight. -/
def MiscTime.OneMidnight (misc : MiscTime) : Prop :=
  ∀ ⦃t u : ℤ⦄, t ≤ u → u ≤ t + days 1 →
    misc.getDayStr u = misc.getDayStr t ∨ misc.getDayStr u = misc.getDayStr (t + days 1)

/-- Rounding to seconds keeps the order of time points. -/
def MiscTime.RoundsInOrder (misc : MiscTime) : Prop :=
  ∀ ⦃t u : ℤ⦄, t ≤ u → misc.roundSecs t ≤ misc.roundSecs u

/-- A time point without a fraction of a second is read as it was written. -/
def MiscTime.SecsReadBack (misc : MiscTime) : Prop :=
  ∀ t : ℤ, misc.fromInt64 (misc.toInt64 (misc.roundSecs t)) = misc.roundSecs t

/-- The calendar near the epoch, which is all that runs on fixed inputs look at. -/
def MiscTime.nearEpoch : MiscTime where
  getDayStr t :=
    Str.ofString (if t < days (-12) then "1969-12-19" else if t < days 1 then "1970-01-01"
      else "1970-01-02")
  tpFromDayStr day :=
    if day = Str.ofString "1969-12-19" then days (-13)
    else if day = Str.ofString "1970-01-01" then 0 else days 1
  roundSecs t := t / ticksPerSec * ticksPerSec
  toInt64 t := t / ticksPerSec
  fromInt64 ts := ts * ticksPerSec

theorem MiscTime.roundsInOrder_nearEpoch : MiscTime.nearEpoch.RoundsInOrder := by
  intro t u htu
  have hsecs : t / ticksPerSec ≤ u / ticksPerSec := Int.ediv_le_ediv (by decide) htu
  exact Int.mul_le_mul_of_nonneg_right hsecs (by decide)

theorem MiscTime.secsReadBack_nearEpoch : MiscTime.nearEpoch.SecsReadBack := by
  intro t
  show t / ticksPerSec * ticksPerSec / ticksPerSec * ticksPerSec = t / ticksPerSec * ticksPerSec
  rw [Int.mul_ediv_cancel _ (by decide)]

theorem MiscTime.daysInOrder_nearEpoch : MiscTime.nearEpoch.DaysInOrder := by
  intro t u htu
  show Str.ofString (if t < days (-12) then _ else if t < days 1 then _ else _)
    ≤ Str.ofString (if u < days (-12) then _ else if u < days 1 then _ else _)
  -- `t` lies in no later piece of the calendar than `u`
  rcases lt_or_ge t (days (-12)) with ht | ht
  · rw [if_pos ht]
    split_ifs <;> decide
  · rw [if_neg (not_lt.mpr ht), if_neg (not_lt.mpr (ht.trans htu))]
    rcases lt_or_ge t (days 1) with ht' | ht'
    · rw [if_pos ht']
      split_ifs <;> decide
    · rw [if_neg (not_lt.mpr ht'), if_neg (not_lt.mpr (ht'.trans htu))]

theorem MiscTime.daysReadBack_nearEpoch : MiscTime.nearEpoch.DaysReadBack := by
  intro t
  show MiscTime.nearEpoch.getDayStr (MiscTime.nearEpoch.tpFromDayStr
      (Str.ofString (if t < days (-12) then _ else if t < days 1 then _ else _)))
    = Str.ofString (if t < days (-12) then _ else if t < days 1 then _ else _)
  split_ifs <;> decide

theorem MiscTime.oneMidnight_nearEpoch : MiscTime.nearEpoch.OneMidnight := by
  have hdays : days (-12) + days 1 < days 1 := by decide
  intro t u htu hut
  show Str.ofString (if u < days (-12) then _ else if u < days 1 then _ else _)
      = Str.ofString (if t < days (-12) then _ else if t < days 1 then _ else _) ∨
    Str.ofString (if u < days (-12) then _ else if u < days 1 then _ else _)
      = Str.ofString (if t + days 1 < days (-12) then _ else if t + days 1 < days 1 then _ else _)
  -- `u` lies in the piece of the calendar of one of the ends
  split_ifs <;> first
    | exact Or.inl rfl
    | exact Or.inr rfl
    | omega

end Contentv1
