import Mathlib.Order.Fin.Basic
import Mathlib.Tactic.SplitIfs

/-!
# Base64

Three bytes become four characters of an alphabet of 64, the last group is padded.  `decode` reads
groups of four characters and ends at the first one that is padded or not of the alphabet.

`decode_encode` is the round trip and `length_encode` the size of what is encoded.
-/

namespace Base64

/-- What a character of the alphabet stands for. -/
abbrev Sextet := Fin 64

abbrev Byte := Fin 256

def pad : Byte := ⟨61, by decide⟩

/-- The letters, the small letters, the digits, `+` and `/`. -/
def symbol (v : Sextet) : Byte :=
  if v.val < 26 then ⟨65 + v.val, by omega⟩
  else if v.val < 52 then ⟨71 + v.val, by omega⟩
  else if h : v.val < 62 then ⟨v.val - 4, by omega⟩
  else if v.val = 62 then ⟨43, by decide⟩
  else ⟨47, by decide⟩

def value (c : Byte) : Option Sextet :=
  if h : 65 ≤ c.val ∧ c.val ≤ 90 then some ⟨c.val - 65, by omega⟩
  else if h : 97 ≤ c.val ∧ c.val ≤ 122 then some ⟨c.val - 71, by omega⟩
  else if h : 48 ≤ c.val ∧ c.val ≤ 57 then some ⟨c.val + 4, by omega⟩
  else if c.val = 43 then some 62
  else if c.val = 47 then some 63
  else none

/-! ### Six bits of eight -/

def high6 (a : Byte) : Sextet := ⟨a.val / 4, by omega⟩
def low2high4 (a b : Byte) : Sextet := ⟨a.val % 4 * 16 + b.val / 16, by omega⟩
def low4high2 (b c : Byte) : Sextet := ⟨b.val % 16 * 4 + c.val / 64, by omega⟩
def low6 (c : Byte) : Sextet := ⟨c.val % 64, by omega⟩

def encode : List Byte → List Byte
  | [] => []
  | [a] => [symbol (high6 a), symbol (low2high4 a ⟨0, by decide⟩), pad, pad]
  | [a, b] =>
    [symbol (high6 a), symbol (low2high4 a b), symbol (low4high2 b ⟨0, by decide⟩), pad]
  | a :: b :: c :: rest =>
    symbol (high6 a) :: symbol (low2high4 a b) :: symbol (low4high2 b c) :: symbol (low6 c)
      :: encode rest

/-! ### Eight bits of six -/

def byte1 (w x : Sextet) : Byte := ⟨w.val * 4 + x.val / 16, by omega⟩
def byte2 (x y : Sextet) : Byte := ⟨x.val % 16 * 16 + y.val / 4, by omega⟩
def byte3 (y z : Sextet) : Byte := ⟨y.val % 4 * 64 + z.val, by omega⟩

def decode : List Byte → List Byte
  | w :: x :: y :: z :: rest =>
    match value w, value x, value y, value z with
    | some w, some x, some y, some z => byte1 w x :: byte2 x y :: byte3 y z :: decode rest
    | some w, some x, some y, none => [byte1 w x, byte2 x y]
    | some w, some x, none, _ => [byte1 w x]
    | _, _, _, _ => []
  | _ => []

/-! ### The round trip -/

@[simp] theorem value_symbol : ∀ v : Sextet, value (symbol v) = some v := by decide

@[simp] theorem value_pad : value pad = none := by decide

@[simp] theorem byte1_high6 (a b : Byte) : byte1 (high6 a) (low2high4 a b) = a := by
  apply Fin.ext
  simp only [byte1, high6, low2high4]
  omega

@[simp] theorem byte2_low2high4 (a b c : Byte) : byte2 (low2high4 a b) (low4high2 b c) = b := by
  apply Fin.ext
  simp only [byte2, low2high4, low4high2]
  omega

@[simp] theorem byte3_low4high2 (b c : Byte) : byte3 (low4high2 b c) (low6 c) = c := by
  apply Fin.ext
  simp only [byte3, low4high2, low6]
  omega

/-- What was encoded is decoded to what it was. -/
theorem decode_encode (bytes : List Byte) : decode (encode bytes) = bytes := by
  induction bytes using encode.induct with
  | case1 => rfl
  | case2 a => simp [encode, decode]
  | case3 a b => simp [encode, decode]
  | case4 a b c rest ih => simp [encode, decode, ih]

/-- Each group of three bytes, and what is left of one, takes four characters. -/
theorem length_encode (bytes : List Byte) :
    (encode bytes).length = 4 * ((bytes.length + 2) / 3) := by
  induction bytes using encode.induct with
  | case1 => rfl
  | case2 a => simp [encode]
  | case3 a b => simp [encode]
  | case4 a b c rest ih =>
    simp only [encode, List.length_cons, ih]
    omega

end Base64
