import McpGateway.Js.Json
import McpGateway.Js.NumberText

/-!
# Comparing numbers, and reading integers back

The order of the `number` type, the rounding of integers, which may make equal
what was different but keeps the order, and the `bigint` PostgreSQL reads from
the text of a number parameter.
-/

namespace McpGateway.Js

/-- `m <= n`: false as soon as one of the two is `NaN`. -/
def JsNumber.lessEq : JsNumber → JsNumber → Bool
  | .nan, _ | _, .nan => false
  | .infinity true, _ | _, .infinity false => true
  | .infinity false, _ | _, .infinity true => false
  | m, n => m.value ≤ n.value

/-- `String(n)`. -/
def numberString (numberText : ℚ → JsString) : JsNumber → JsString
  | .nan => js "NaN"
  | .infinity negative => (if negative then js "-" else []) ++ js "Infinity"
  | n => numberText n.value

/-- What PostgreSQL reads as a `bigint` from the text of a number. -/
def parseBigint (text : JsString) : Option ℤ :=
  let (negative, ds) := match text with
    | [] => (false, [])
    | c :: s => if c = hyphen then (true, s) else if c = plusSign then (false, s) else (false, text)
  if ds ≠ [] ∧ ds.all isDigit then
    let n : ℤ := if negative then -Json.digitsValue ds else Json.digitsValue ds
    if -9223372036854775808 ≤ n ∧ n ≤ 9223372036854775807 then some n else none
  else none

-- ---------------------------------------------------------------------------
-- Rounding is monotone
-- ---------------------------------------------------------------------------

theorem divHalfEven_mono (h : m ≤ n) : divHalfEven m d ≤ divHalfEven n d := by
  have hdiv : m / d ≤ n / d := Nat.div_le_div_right h
  have hm := Nat.div_add_mod m d
  have hn := Nat.div_add_mod n d
  unfold divHalfEven
  obtain heq | hlt := Nat.eq_or_lt_of_le hdiv
  · -- in one interval the larger remainder rounds up if the smaller one does
    rw [heq] at hm ⊢
    have hmod : m % d ≤ n % d := by omega
    dsimp only
    split <;> split <;> omega
  · dsimp only
    split <;> split <;> omega

theorem divHalfEven_mul (hd : 0 < d) : divHalfEven (k * d) d = k := by
  rw [divHalfEven, Nat.mul_mod_left, Nat.mul_div_cancel k hd]
  simp [hd]

/-- The integer the double nearest to `n` stands for. -/
def roundNat (n : Nat) : Nat :=
  let e := n.log2 - 52
  divHalfEven n (2 ^ e) * 2 ^ e

theorem pow_log2_sub (n : Nat) : 2 ^ (n.log2 - (n.log2 - 52)) * 2 ^ (n.log2 - 52) = 2 ^ n.log2 := by
  rw [← pow_add, Nat.sub_add_cancel (Nat.sub_le _ _)]

theorem le_roundNat (h : n ≠ 0) : 2 ^ n.log2 ≤ roundNat n := by
  have hle := divHalfEven_mono (d := 2 ^ (n.log2 - 52)) (Nat.log2_self_le h)
  rw [← pow_log2_sub, divHalfEven_mul (by positivity)] at hle
  calc 2 ^ n.log2 = 2 ^ (n.log2 - (n.log2 - 52)) * 2 ^ (n.log2 - 52) := (pow_log2_sub n).symm
    _ ≤ roundNat n := Nat.mul_le_mul_right _ hle

theorem roundNat_le (n : Nat) : roundNat n ≤ 2 ^ (n.log2 + 1) := by
  have hle := divHalfEven_mono (d := 2 ^ (n.log2 - 52)) (Nat.le_of_lt (Nat.lt_log2_self (n := n)))
  have hpow : 2 ^ (n.log2 + 1) = 2 * 2 ^ (n.log2 - (n.log2 - 52)) * 2 ^ (n.log2 - 52) := by
    rw [mul_assoc, pow_log2_sub, pow_succ, mul_comm]
  rw [hpow, divHalfEven_mul (by positivity)] at hle
  rw [hpow]
  exact Nat.mul_le_mul_right _ hle

theorem roundNat_mono (hm : m ≠ 0) (h : m ≤ n) : roundNat m ≤ roundNat n := by
  have hn : n ≠ 0 := by omega
  have hlog : m.log2 ≤ n.log2 := (Nat.le_log2 hn).mpr ((Nat.log2_self_le hm).trans h)
  obtain heq | hlt := Nat.eq_or_lt_of_le hlog
  · unfold roundNat
    rw [heq]
    exact Nat.mul_le_mul_right _ (divHalfEven_mono h)
  · calc roundNat m ≤ 2 ^ (m.log2 + 1) := roundNat_le m
      _ ≤ 2 ^ n.log2 := Nat.pow_le_pow_right (by decide) hlt
      _ ≤ roundNat n := le_roundNat hn

theorem not_pow_le (hn : n ≠ 0) (h : n.log2 < k) : ¬ 2 ^ k ≤ n :=
  Nat.not_le_of_gt ((Nat.log2_lt hn).mp h)

def overLimit (limit : Nat) (negative : Bool) (k : Nat) : JsNumber :=
  if limit ≤ k then .infinity negative else .finite (if negative then -(k : ℚ) else k)

theorem roundToDouble_nat : ∃ limit : Nat, 0 < limit ∧
    ∀ n ≠ 0, ∀ negative, roundToDouble negative n 1 = overLimit limit negative (roundNat n) := by
  refine ⟨2 ^ 1024, by positivity, fun n hn negative => ?_⟩
  have hpos : 0 < roundNat n := lt_of_lt_of_le (by positivity) (le_roundNat hn)
  by_cases hlog : n.log2 ≤ 52
  · have hround : roundNat n = n := by
      rw [roundNat, Nat.sub_eq_zero_of_le hlog, pow_zero, divHalfEven_one, mul_one]
    have hlt : n < 2 ^ 53 := (Nat.log2_lt hn).mp (by omega)
    have hbig : ¬ 2 ^ 1024 ≤ n := not_pow_le hn (by omega)
    rw [hround, overLimit, if_neg hbig, roundToDouble_integer hn hlt.le]
  · have he : max ((n.log2 : ℤ) - 52) (-1074) = ((n.log2 - 52 : ℕ) : ℤ) := by
      omega
    have hneg : (-((n.log2 - 52 : ℕ) : ℤ)).toNat = 0 := by
      omega
    have hm : divHalfEven n (2 ^ (n.log2 - 52)) ≠ 0 := by
      intro hz
      rw [roundNat, hz, zero_mul] at hpos
      exact absurd hpos (Nat.lt_irrefl 0)
    simp only [roundToDouble, floorLog2_one hn, he, hneg, Int.toNat_natCast, pow_zero, mul_one,
      one_mul, hn, hm, or_self, if_false]
    have hvalue : divHalfEven n (2 ^ (n.log2 - 52)) * 2 ^ (n.log2 - 52) = roundNat n := rfl
    rw [hvalue, Rat.mkRat_one]
    rfl

theorem roundToDouble_zero : roundToDouble false 0 1 = .finite 0 := by decide +kernel

theorem overLimit_nonneg (h : a ≤ b) :
    (overLimit limit false a).lessEq (overLimit limit false b) = true := by
  unfold overLimit
  by_cases hb : limit ≤ b
  · rw [if_pos hb]
    split <;> rfl
  · have ha : ¬ limit ≤ a := fun ha => hb (ha.trans h)
    rw [if_neg ha, if_neg hb]
    simpa [JsNumber.lessEq, JsNumber.value] using h

theorem overLimit_negative (h : a ≤ b) :
    (overLimit limit true b).lessEq (overLimit limit true a) = true := by
  unfold overLimit
  by_cases hb : limit ≤ b
  · rw [if_pos hb]
    split <;> rfl
  · have ha : ¬ limit ≤ a := fun ha => hb (ha.trans h)
    rw [if_neg ha, if_neg hb]
    simpa [JsNumber.lessEq, JsNumber.value] using h

theorem overLimit_signs :
    (overLimit limit true a).lessEq (overLimit limit false b) = true := by
  have hneg : -(a : ℚ) ≤ b := by
    have h₁ : (0 : ℚ) ≤ a := Nat.cast_nonneg _
    have h₂ : (0 : ℚ) ≤ b := Nat.cast_nonneg _
    linarith
  unfold overLimit
  by_cases ha : limit ≤ a <;> by_cases hb : limit ≤ b
  · rw [if_pos ha, if_pos hb]
    rfl
  · rw [if_pos ha, if_neg hb]
    rfl
  · rw [if_neg ha, if_pos hb]
    rfl
  · rw [if_neg ha, if_neg hb]
    simpa [JsNumber.lessEq, JsNumber.value] using hneg

theorem roundToDouble_mono {m n : ℤ} (h : m ≤ n) :
    (roundToDouble (m < 0) m.natAbs 1).lessEq (roundToDouble (n < 0) n.natAbs 1) = true := by
  obtain ⟨limit, hlimit, hround⟩ := roundToDouble_nat
  have hnonneg (a : Nat) :
      ∃ k, roundToDouble false a 1 = overLimit limit false k ∧ (a ≠ 0 → k = roundNat a) ∧
        (a = 0 → k = 0) := by
    by_cases ha : a = 0
    · subst ha
      refine ⟨0, ?_, by simp, by simp⟩
      rw [roundToDouble_zero, overLimit, if_neg (by omega)]
      rfl
    · exact ⟨roundNat a, hround a ha false, fun _ => rfl, fun h0 => absurd h0 ha⟩
  by_cases hm : m < 0 <;> by_cases hn : n < 0
  · rw [decide_eq_true hm, decide_eq_true hn, hround _ (by omega), hround _ (by omega)]
    exact overLimit_negative (roundNat_mono (by omega) (by omega))
  · obtain ⟨k, hk, -⟩ := hnonneg n.natAbs
    rw [decide_eq_true hm, decide_eq_false hn, hround _ (by omega), hk]
    exact overLimit_signs
  · omega
  · obtain ⟨j, hj, hj', hj0⟩ := hnonneg m.natAbs
    obtain ⟨k, hk, hk', -⟩ := hnonneg n.natAbs
    rw [decide_eq_false hm, decide_eq_false hn, hj, hk]
    refine overLimit_nonneg ?_
    by_cases h0 : m = 0
    · rw [hj0 (by omega)]
      exact Nat.zero_le k
    · rw [hj' (by omega), hk' (by omega)]
      exact roundNat_mono (by omega) (by omega)

-- ---------------------------------------------------------------------------
-- Reading integers back
-- ---------------------------------------------------------------------------

theorem digitsValue_map {ds : List Char} (h : ∀ c ∈ ds, c.isDigit = true) :
    Json.digitsValue (ds.map unit) = Nat.ofDigitChars 10 ds 0 := by
  unfold Json.digitsValue Nat.ofDigitChars
  generalize 0 = acc
  induction ds generalizing acc with
  | nil => rfl
  | cons c ds ih =>
    rw [List.forall_mem_cons] at h
    have hc := h.1
    simp only [Char.isDigit, Bool.and_eq_true, decide_eq_true_eq, ge_iff_le,
      UInt32.le_iff_toNat_le] at hc
    change 48 ≤ c.toNat ∧ c.toNat ≤ 57 at hc
    have hunit : (unit c).toNat = c.toNat := Nat.mod_eq_of_lt (by omega)
    have hstep : acc * 10 + ((unit c).toNat - 0x30) = 10 * acc + (c.toNat - '0'.toNat) := by
      rw [hunit, Nat.mul_comm]
      rfl
    simp only [List.map_cons, List.foldl_cons]
    rw [hstep]
    exact ih h.2 _

theorem digitsValue_decimal (n : Nat) : Json.digitsValue (decimal n) = n := by
  rw [decimal, digitsValue_map, Nat.ofDigitChars_ten_toDigits]
  intro c hc
  exact Nat.isDigit_of_mem_toDigits (by omega) (by omega) hc

theorem all_isDigit_decimal (n : Nat) : (decimal n).all isDigit = true :=
  List.all_eq_true.mpr fun _ => isDigit_of_mem_decimal

theorem parseBigint_integerText {n : ℤ} (h : n.natAbs ≤ 2 ^ 53) :
    parseBigint (integerText n) = some n := by
  have hrange : -9223372036854775808 ≤ n ∧ n ≤ 9223372036854775807 := by omega
  by_cases hneg : n < 0
  · simp [parseBigint, integerText, hneg, decimal_ne_nil, all_isDigit_decimal, digitsValue_decimal,
      abs_of_neg hneg]
    omega
  · have hvalue : ((n.natAbs : ℕ) : ℤ) = n := by omega
    have htext : integerText n = decimal n.natAbs := by rw [integerText, if_neg hneg, List.nil_append]
    rw [htext]
    cases hd : decimal n.natAbs with
    | nil => exact absurd hd decimal_ne_nil
    | cons c ds =>
      have hc : isDigit c = true := isDigit_of_mem_decimal (n := n.natAbs) (by simp [hd])
      have hhyphen : c ≠ hyphen := by
        rintro rfl
        exact absurd hc (by decide)
      have hplus : c ≠ plusSign := by
        rintro rfl
        exact absurd hc (by decide)
      have hall : (c :: ds).all isDigit = true := hd ▸ all_isDigit_decimal _
      have hdigits : Json.digitsValue (c :: ds) = n.natAbs := hd ▸ digitsValue_decimal _
      simp [parseBigint, hhyphen, hplus, hall, hdigits, hvalue, hrange]

end McpGateway.Js
