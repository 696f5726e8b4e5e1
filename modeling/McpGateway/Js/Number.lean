import McpGateway.Js.String
import Mathlib.Data.Rat.Defs

/-!
# JavaScript numbers

The values of the `number` type. A finite number is kept as the rational it
stands for; `roundToDouble` is the rounding that makes one out of a decimal
literal, ties to even. The text `String(x)` prints for a finite number is a
parameter of what follows: `NumberText` states what the language guarantees
about it.
-/

namespace McpGateway.Js

inductive JsNumber
  | nan
  | infinity (negative : Bool)
  | negZero
  | finite (value : ℚ)
  deriving DecidableEq

namespace JsNumber

def isFinite : JsNumber → Bool
  | .nan | .infinity _ => false
  | .negZero | .finite _ => true

/-- The value of a finite number; `-0` has the value of `0`. -/
def value : JsNumber → ℚ
  | .finite q => q
  | _ => 0

/-- `===` of two numbers: `NaN` equals nothing and `-0` equals `0`. -/
def strictEq (m n : JsNumber) : Bool :=
  match m, n with
  | .infinity s, .infinity t => s == t
  | m, n => m.isFinite && n.isFinite && m.value == n.value

theorem strictEq_of_finite {m n : JsNumber} (hm : m.isFinite = true)
    (hn : n.isFinite = true) : m.strictEq n = (m.value == n.value) := by
  cases m <;> cases n <;> simp_all [strictEq, isFinite]

end JsNumber

-- ---------------------------------------------------------------------------
-- Rounding a decimal literal
-- ---------------------------------------------------------------------------

/-- The largest `k` with `2 ^ k ≤ num / den`, for positive arguments. -/
def floorLog2 (num den : Nat) : ℤ :=
  let k : ℤ := (Nat.log2 num : ℤ) - Nat.log2 den
  if den * 2 ^ k.toNat ≤ num * 2 ^ (-k).toNat then k else k - 1

def divHalfEven (num den : Nat) : Nat :=
  let below := num / den
  let part := 2 * (num % den)
  if part < den ∨ (part = den ∧ below % 2 = 0) then below else below + 1

/-- The double nearest to `num / den`: 53 bits of precision, no exponent below
-1074, and infinity from 2^1024 on. -/
def roundToDouble (negative : Bool) (num den : Nat) : JsNumber :=
  let e := max (floorLog2 num den - 52) (-1074)
  let m := divHalfEven (num * 2 ^ (-e).toNat) (den * 2 ^ e.toNat)
  if num = 0 ∨ m = 0 then if negative then .negZero else .finite 0
  else if 2 ^ 1024 ≤ m * 2 ^ e.toNat then .infinity negative
  else
    let q := mkRat (m * 2 ^ e.toNat) (2 ^ (-e).toNat)
    .finite (if negative then -q else q)

theorem floorLog2_one {n : Nat} (h : n ≠ 0) : floorLog2 n 1 = Nat.log2 n := by
  have hle : 2 ^ Nat.log2 n ≤ n := Nat.log2_self_le h
  simp [floorLog2, show Nat.log2 1 = 0 by decide, hle]

theorem divHalfEven_one (n : Nat) : divHalfEven n 1 = n := by
  simp [divHalfEven, Nat.mod_one]

theorem roundToDouble_integer {n : Nat} (h0 : n ≠ 0) (h : n ≤ 2 ^ 53) (negative : Bool) :
    roundToDouble negative n 1 = .finite (if negative then -n else n) := by
  by_cases hmax : n = 2 ^ 53
  · subst hmax
    cases negative <;> decide +kernel
  have hlog : Nat.log2 n ≤ 52 := by
    have := (Nat.log2_lt h0).mpr (show n < 2 ^ 53 by omega)
    omega
  have he : max ((Nat.log2 n : ℤ) - 52) (-1074) = (Nat.log2 n : ℤ) - 52 := max_eq_left (by omega)
  have hpos : ((Nat.log2 n : ℤ) - 52).toNat = 0 := by omega
  generalize hj : (-((Nat.log2 n : ℤ) - 52)).toNat = j
  have hj' : j = 52 - Nat.log2 n := by omega
  simp only [roundToDouble, floorLog2_one h0, he, hpos, hj, pow_zero, Nat.mul_one, divHalfEven_one]
  have hn : n * 2 ^ j ≠ 0 := by positivity
  have hle : n * 2 ^ j ≤ 2 ^ 105 :=
    calc n * 2 ^ j ≤ 2 ^ 53 * 2 ^ 52 := Nat.mul_le_mul h (Nat.pow_le_pow_right (by omega) (by omega))
      _ = 2 ^ 105 := by rw [← pow_add]
  have hlt : 2 ^ 105 < 2 ^ 1024 := pow_lt_pow_right₀ one_lt_two (by decide)
  have hbig : ¬ 2 ^ 1024 ≤ n * 2 ^ j := not_le.mpr (hle.trans_lt hlt)
  rw [if_neg (by omega), if_neg hbig]
  have hq : mkRat (↑(n * 2 ^ j)) (2 ^ j) = (n : ℚ) := by
    rw [Rat.mkRat_eq_div]
    push_cast
    field_simp
  rw [mul_one, hq]

-- ---------------------------------------------------------------------------
-- Arithmetic
-- ---------------------------------------------------------------------------

namespace JsNumber

def ofRat (q : ℚ) : JsNumber := roundToDouble (decide (q < 0)) q.num.natAbs q.den

/-- Which zero a sum of zero is makes no difference to its users. -/
def add : JsNumber → JsNumber → JsNumber
  | .nan, _ | _, .nan => .nan
  | .infinity s, .infinity t => if s = t then .infinity s else .nan
  | .infinity s, _ | _, .infinity s => .infinity s
  | m, n => ofRat (m.value + n.value)

def neg : JsNumber → JsNumber
  | .nan => .nan
  | .infinity s => .infinity !s
  | n => ofRat (-n.value)

def sub (m n : JsNumber) : JsNumber := m.add n.neg

/-- `<=`: false when one of the two is not a number. -/
def le : JsNumber → JsNumber → Bool
  | .nan, _ | _, .nan => false
  | .infinity true, _ | _, .infinity false => true
  | .infinity false, _ | _, .infinity true => false
  | m, n => decide (m.value ≤ n.value)

/-- `Math.min` of two numbers. -/
def min (m n : JsNumber) : JsNumber :=
  if m = .nan ∨ n = .nan then .nan else if m.le n then m else n

def lt (m n : JsNumber) : Bool := m.le n && !n.le m

def isNegative : JsNumber → Bool
  | .infinity s => s
  | .negZero => true
  | n => decide (n.value < 0)

def mul (m n : JsNumber) : JsNumber :=
  if m = .nan ∨ n = .nan then .nan
  else if m.isFinite && n.isFinite then ofRat (m.value * n.value)
  else if (m.isFinite && m.value == 0) || (n.isFinite && n.value == 0) then .nan
  else .infinity (m.isNegative != n.isNegative)

def divBy (m : JsNumber) (n : ℕ+) : JsNumber :=
  if m.isFinite then ofRat (m.value / n) else m

/-- `Math.round`: halves go up. -/
def round (m : JsNumber) : JsNumber :=
  if m.isFinite then .finite (m.value + 1 / 2).floor else m

end JsNumber

-- ---------------------------------------------------------------------------
-- The text of a number
-- ---------------------------------------------------------------------------

def integerText (n : ℤ) : JsString := (if n < 0 then [hyphen] else []) ++ decimal n.natAbs

/-- A code unit `String(x)` can use for a finite `x`. -/
def isNumberUnit (c : CodeUnit) : Bool :=
  isDigit c || c == hyphen || c == plusSign || c == fullStop || c == unit 'e'

/-- What the language guarantees of `Number.prototype.toString` on finite
numbers: different values have different texts, an integer up to 2^53 is its
decimal text, and a text is a nonempty run of digits, signs, a dot and an
exponent letter. -/
structure NumberText (text : ℚ → JsString) : Prop where
  integer : ∀ n : ℤ, n.natAbs ≤ 2 ^ 53 → text n = integerText n
  injective : Function.Injective text
  nonempty : ∀ q, text q ≠ []
  units : ∀ q, ∀ c ∈ text q, isNumberUnit c = true

theorem NumberText.zero {text : ℚ → JsString} (h : NumberText text) : text 0 = js "0" := by
  rw [← Int.cast_zero, h.integer 0 (by simp)]
  decide

end McpGateway.Js
