import McpGateway.Js.Compare
import Mathlib.Algebra.Order.Field.Power
import Mathlib.Tactic.FieldSimp
import Mathlib.Tactic.Linarith
import Mathlib.Tactic.Positivity

/-!
# Doubles

The finite numbers of the language have 53 bits of precision, no exponent below
-1074 and a magnitude below 2^1024. They are what rounding gives and rounding
leaves them alone. Their differences are multiples of the smallest one, so a
difference rounds to zero only between equal numbers, and a comparator that
subtracts compares.
-/

namespace McpGateway.Js

def leastExponent : ℤ := -1074

def tooLarge : ℚ := 2 ^ 1024

/-- A number the language has. -/
def IsDouble : JsNumber → Prop
  | .finite q => ∃ (m : ℕ) (e : ℤ), |q| = m * 2 ^ e ∧ m < 2 ^ 53 ∧ leastExponent ≤ e ∧ |q| < tooLarge
  | _ => True

def OnGrid (q : ℚ) : Prop := ∃ k : ℤ, q = k * 2 ^ leastExponent

-- ---------------------------------------------------------------------------
-- Powers of two
-- ---------------------------------------------------------------------------

theorem pow_toNat (e : ℤ) : (2 : ℚ) ^ e.toNat = 2 ^ e * 2 ^ (-e).toNat := by
  rcases Int.le_total 0 e with h | h
  · lift e to ℕ using h
    simp
  · have hpow : (2 : ℚ) ^ (-e).toNat = 2 ^ (-e) := by
      rw [← zpow_natCast, Int.toNat_of_nonneg (by omega)]
    rw [Int.toNat_of_nonpos h, hpow, ← zpow_add₀ two_ne_zero, add_neg_cancel, zpow_zero, pow_zero]

theorem scaled_div (num den : ℕ) (e : ℤ) :
    ((num * 2 ^ (-e).toNat : ℕ) : ℚ) / (den * 2 ^ e.toNat : ℕ) = num / den / 2 ^ e := by
  have hpos : (2 : ℚ) ^ (-e).toNat ≠ 0 := by positivity
  push_cast
  rw [pow_toNat e, div_div, mul_comm ((2 : ℚ) ^ e), ← mul_assoc, mul_right_comm, mul_div_mul_right _ _ hpos]

theorem mkRat_pow (m : ℕ) (e : ℤ) :
    mkRat ((m * 2 ^ e.toNat : ℕ) : ℤ) (2 ^ (-e).toNat) = (m : ℚ) * 2 ^ e := by
  have hpos : (2 : ℚ) ^ (-e).toNat ≠ 0 := by positivity
  rw [Rat.mkRat_eq_div]
  push_cast
  rw [pow_toNat e, ← mul_assoc, mul_div_cancel_right₀ _ hpos]

theorem onGrid_of_exponent {m : ℤ} {e : ℤ} (he : leastExponent ≤ e) : OnGrid (m * 2 ^ e) := by
  refine ⟨m * 2 ^ (e - leastExponent).toNat, ?_⟩
  have hpow : (2 : ℚ) ^ e = 2 ^ (e - leastExponent).toNat * 2 ^ leastExponent := by
    rw [← zpow_natCast, Int.toNat_of_nonneg (Int.sub_nonneg_of_le he), ← zpow_add₀ two_ne_zero,
      sub_add_cancel]
  rw [hpow]
  push_cast
  rw [mul_assoc]

theorem OnGrid.neg (h : OnGrid q) : OnGrid (-q) := by
  obtain ⟨k, rfl⟩ := h
  exact ⟨-k, by push_cast; ring⟩

theorem OnGrid.sub (hq : OnGrid q) (hr : OnGrid r) : OnGrid (q - r) := by
  obtain ⟨k, rfl⟩ := hq
  obtain ⟨j, rfl⟩ := hr
  exact ⟨k - j, by push_cast; ring⟩

theorem onGrid_of_abs (h : OnGrid |q|) : OnGrid q := by
  rcases abs_choice q with hq | hq
  · rwa [hq] at h
  · rw [hq] at h
    simpa using h.neg

theorem IsDouble.onGrid {q : ℚ} (h : IsDouble (.finite q)) : OnGrid q := by
  obtain ⟨m, e, hq, -, he, -⟩ := h
  apply onGrid_of_abs
  rw [hq]
  exact_mod_cast onGrid_of_exponent (m := m) he

theorem isDouble_natural {n : ℕ} (h : n < 2 ^ 53) : IsDouble (.finite n) := by
  have hn : (n : ℚ) < 2 ^ 53 := by exact_mod_cast h
  refine ⟨n, 0, by simp, h, by decide, ?_⟩
  rw [Nat.abs_cast]
  exact hn.trans (pow_lt_pow_right₀ one_lt_two (by decide))

theorem OnGrid.le_of_pos (h : OnGrid q) (hpos : 0 < q) : 2 ^ leastExponent ≤ q := by
  obtain ⟨k, rfl⟩ := h
  have hstep : (0 : ℚ) < 2 ^ leastExponent := by positivity
  have hk : 0 < k := by exact_mod_cast pos_of_mul_pos_left hpos hstep.le
  have hk' : (1 : ℚ) ≤ k := by exact_mod_cast hk
  nlinarith

-- ---------------------------------------------------------------------------
-- Rounding
-- ---------------------------------------------------------------------------

section
variable {num den : ℕ}

theorem two_pow_log2 (h : num ≠ 0) :
    (2 : ℚ) ^ (num.log2 : ℤ) ≤ num ∧ (num : ℚ) < 2 ^ ((num.log2 : ℤ) + 1) := by
  have hle : 2 ^ num.log2 ≤ num := Nat.log2_self_le h
  have hlt : num < 2 ^ (num.log2 + 1) := Nat.lt_log2_self
  constructor
  · exact_mod_cast hle
  · exact_mod_cast hlt

theorem floorLog2_spec (hnum : num ≠ 0) (hden : den ≠ 0) :
    (2 : ℚ) ^ floorLog2 num den ≤ num / den ∧ (num : ℚ) / den < 2 ^ (floorLog2 num den + 1) := by
  obtain ⟨hn, hn'⟩ := two_pow_log2 hnum
  obtain ⟨hd, hd'⟩ := two_pow_log2 hden
  have hden' : (0 : ℚ) < den := by positivity
  have htwo (k : ℤ) : (0 : ℚ) < 2 ^ k := by positivity
  have hupper : (num : ℚ) / den < 2 ^ ((num.log2 : ℤ) - den.log2 + 1) := by
    rw [div_lt_iff₀ hden']
    calc (num : ℚ) < 2 ^ ((num.log2 : ℤ) + 1) := hn'
      _ = 2 ^ ((num.log2 : ℤ) - den.log2 + 1) * 2 ^ (den.log2 : ℤ) := by
        rw [← zpow_add₀ two_ne_zero]
        congr 1
        ring
      _ ≤ _ := mul_le_mul_of_nonneg_left hd (htwo _).le
  have hlower : (2 : ℚ) ^ ((num.log2 : ℤ) - den.log2 - 1) ≤ num / den := by
    rw [le_div_iff₀ hden']
    calc (2 : ℚ) ^ ((num.log2 : ℤ) - den.log2 - 1) * den
        ≤ 2 ^ ((num.log2 : ℤ) - den.log2 - 1) * 2 ^ ((den.log2 : ℤ) + 1) :=
          mul_le_mul_of_nonneg_left hd'.le (htwo _).le
      _ = 2 ^ (num.log2 : ℤ) := by
        rw [← zpow_add₀ two_ne_zero]
        congr 1
        ring
      _ ≤ num := hn
  unfold floorLog2
  dsimp only
  generalize (num.log2 : ℤ) - den.log2 = k at hupper hlower ⊢
  have htest : den * 2 ^ k.toNat ≤ num * 2 ^ (-k).toNat ↔ (2 : ℚ) ^ k ≤ num / den := by
    have hcast : den * 2 ^ k.toNat ≤ num * 2 ^ (-k).toNat ↔
        (den : ℚ) * (2 ^ k * 2 ^ (-k).toNat) ≤ num * 2 ^ (-k).toNat := by
      rw [← pow_toNat]
      exact_mod_cast Iff.rfl
    have hpos : (0 : ℚ) < 2 ^ (-k).toNat := by positivity
    rw [hcast, ← mul_assoc, mul_le_mul_iff_left₀ hpos, le_div_iff₀ hden', mul_comm]
  split
  · next h => exact ⟨htest.mp h, hupper⟩
  · next h =>
    rw [htest, not_le] at h
    exact ⟨hlower, by simpa using h⟩

def lastBit (num den : ℕ) : ℤ := max (floorLog2 num den - 52) leastExponent

def significand (num den : ℕ) : ℕ :=
  divHalfEven (num * 2 ^ (-lastBit num den).toNat) (den * 2 ^ (lastBit num den).toNat)

theorem div_le_divHalfEven (a b : ℕ) : a / b ≤ divHalfEven a b ∧ divHalfEven a b ≤ a / b + 1 := by
  unfold divHalfEven
  dsimp only
  split <;> omega

/-- The unit of the last bit in a fraction, against the integer division of the rounding. -/
theorem div_lastBit (num den k : ℕ) (hden : den ≠ 0) :
    (k ≤ num * 2 ^ (-lastBit num den).toNat / (den * 2 ^ (lastBit num den).toNat) ↔
      (k : ℚ) * 2 ^ lastBit num den ≤ num / den) := by
  have hpos : 0 < den * 2 ^ (lastBit num den).toNat := by positivity
  have hpos' : (0 : ℚ) < (den * 2 ^ (lastBit num den).toNat : ℕ) := by exact_mod_cast hpos
  have hunit : (0 : ℚ) < 2 ^ lastBit num den := by positivity
  rw [Nat.le_div_iff_mul_le hpos, ← le_div_iff₀ hunit, ← scaled_div, le_div_iff₀ hpos']
  exact_mod_cast Iff.rfl

theorem significand_le (hnum : num ≠ 0) (hden : den ≠ 0) : significand num den ≤ 2 ^ 53 := by
  refine (div_le_divHalfEven _ _).2.trans (Nat.succ_le_of_lt (Nat.lt_of_not_le fun h => ?_))
  rw [div_lastBit num den _ hden] at h
  refine absurd (h.trans_lt (floorLog2_spec hnum hden).2) (not_lt.mpr ?_)
  calc (2 : ℚ) ^ (floorLog2 num den + 1) ≤ 2 ^ (53 + lastBit num den) := by
        apply zpow_le_zpow_right₀ one_le_two
        have := le_max_left (floorLog2 num den - 52) leastExponent
        unfold lastBit
        omega
    _ = ((2 ^ 53 : ℕ) : ℚ) * 2 ^ lastBit num den := by
        rw [zpow_add₀ two_ne_zero]
        norm_num

theorem significand_exact {n : ℕ} (hden : den ≠ 0)
    (h : (num : ℚ) / den = n * 2 ^ lastBit num den) : significand num den = n := by
  have hpos : 0 < den * 2 ^ (lastBit num den).toNat := by positivity
  have hpos' : ((den * 2 ^ (lastBit num den).toNat : ℕ) : ℚ) ≠ 0 := by exact_mod_cast hpos.ne'
  have hunit : (2 : ℚ) ^ lastBit num den ≠ 0 := by positivity
  have hscaled := scaled_div num den (lastBit num den)
  rw [h, mul_div_cancel_right₀ _ hunit, div_eq_iff hpos'] at hscaled
  unfold significand
  rw [show num * 2 ^ (-lastBit num den).toNat = n * (den * 2 ^ (lastBit num den).toNat) by
    exact_mod_cast hscaled]
  exact divHalfEven_mul hpos

theorem significand_pos (hnum : num ≠ 0) (hden : den ≠ 0) (h : OnGrid ((num : ℚ) / den)) :
    0 < significand num den := by
  refine Nat.lt_of_lt_of_le ?_ (div_le_divHalfEven _ _).1
  rw [← Nat.succ_le_iff, div_lastBit num den _ hden, Nat.cast_one, one_mul]
  have hpos : (0 : ℚ) < num / den := by positivity
  rcases le_total (floorLog2 num den - 52) leastExponent with hle | hle
  · rw [lastBit, max_eq_right hle]
    exact h.le_of_pos hpos
  · rw [lastBit, max_eq_left hle]
    exact (zpow_le_zpow_right₀ one_le_two (by omega)).trans (floorLog2_spec hnum hden).1

theorem limit_le_iff {m k : ℕ} (hm : m ≤ 2 ^ 53) (e : ℤ) (hk : 53 < k) :
    2 ^ k ≤ m * 2 ^ e.toNat ↔ (2 : ℚ) ^ k ≤ m * 2 ^ e := by
  rcases le_total 0 e with he | he
  · lift e to ℕ using he
    rw [Int.toNat_natCast, zpow_natCast]
    exact_mod_cast Iff.rfl
  · have hsmall : (m : ℚ) * 2 ^ e ≤ 2 ^ 53 := by
      have hm' : (m : ℚ) ≤ 2 ^ 53 := by exact_mod_cast hm
      have hpow : (2 : ℚ) ^ e ≤ 1 := zpow_le_one_of_nonpos₀ one_le_two he
      have hnonneg : (0 : ℚ) ≤ m := Nat.cast_nonneg m
      nlinarith
    have hlt : (2 : ℚ) ^ 53 < 2 ^ k := pow_lt_pow_right₀ one_lt_two hk
    have hlt' : 2 ^ 53 < 2 ^ k := Nat.pow_lt_pow_right one_lt_two hk
    rw [Int.toNat_of_nonpos he, pow_zero, mul_one]
    exact iff_of_false (Nat.not_le_of_gt (hm.trans_lt hlt')) (not_le.mpr (hsmall.trans_lt hlt))

theorem roundToDouble_eq (negative : Bool) (hnum : num ≠ 0) (hden : den ≠ 0) :
    roundToDouble negative num den =
      if significand num den = 0 then if negative then .negZero else .finite 0
      else if tooLarge ≤ significand num den * 2 ^ lastBit num den then .infinity negative
      else .finite (if negative then -(significand num den * 2 ^ lastBit num den)
        else significand num den * 2 ^ lastBit num den) := by
  have hlimit : 2 ^ 1024 ≤ significand num den * 2 ^ (lastBit num den).toNat ↔
      tooLarge ≤ significand num den * 2 ^ lastBit num den :=
    limit_le_iff (significand_le hnum hden) (lastBit num den) (by decide)
  unfold roundToDouble
  dsimp only
  simp only [hnum, false_or]
  change (if significand num den = 0 then _ else if 2 ^ 1024 ≤ significand num den *
    2 ^ (lastBit num den).toNat then _ else JsNumber.finite (if negative then
      -mkRat ((significand num den * 2 ^ (lastBit num den).toNat : ℕ) : ℤ) (2 ^ (-lastBit num den).toNat)
    else mkRat ((significand num den * 2 ^ (lastBit num den).toNat : ℕ) : ℤ)
      (2 ^ (-lastBit num den).toNat))) = _
  rw [mkRat_pow]
  simp only [hlimit]

end

theorem ofRat_zero : JsNumber.ofRat 0 = .finite 0 := by decide +kernel

theorem ofRat_eq (h : q ≠ 0) : JsNumber.ofRat q =
    if significand q.num.natAbs q.den = 0 then if q < 0 then .negZero else .finite 0
    else if tooLarge ≤ significand q.num.natAbs q.den * 2 ^ lastBit q.num.natAbs q.den then
      .infinity (decide (q < 0))
    else .finite (if q < 0 then -(significand q.num.natAbs q.den * 2 ^ lastBit q.num.natAbs q.den)
      else significand q.num.natAbs q.den * 2 ^ lastBit q.num.natAbs q.den) := by
  have hnum : q.num.natAbs ≠ 0 := Int.natAbs_ne_zero.mpr (Rat.num_ne_zero.mpr h)
  rw [JsNumber.ofRat, roundToDouble_eq _ hnum q.den_nz]
  simp only [decide_eq_true_eq]

theorem abs_eq_div (q : ℚ) : |q| = (q.num.natAbs : ℚ) / q.den := by
  rw [Rat.abs_def, Rat.divInt_eq_div]
  rfl

theorem ofRat_double (h : IsDouble (.finite q)) : JsNumber.ofRat q = .finite q := by
  by_cases hq : q = 0
  · rw [hq, ofRat_zero]
  obtain ⟨m, e, habs, hm, he, hlarge⟩ := h
  have hnum : q.num.natAbs ≠ 0 := Int.natAbs_ne_zero.mpr (Rat.num_ne_zero.mpr hq)
  have hle : lastBit q.num.natAbs q.den ≤ e := by
    refine max_le ?_ he
    by_contra hlt
    refine absurd (floorLog2_spec hnum q.den_nz).1 (not_le.mpr ?_)
    rw [← abs_eq_div, habs]
    calc (m : ℚ) * 2 ^ e < 2 ^ 53 * 2 ^ e := by
          refine mul_lt_mul_of_pos_right ?_ (by positivity)
          exact_mod_cast hm
      _ = 2 ^ (53 + e) := by
          rw [zpow_add₀ two_ne_zero]
          norm_num
      _ ≤ 2 ^ floorLog2 q.num.natAbs q.den := zpow_le_zpow_right₀ one_le_two (by omega)
  obtain ⟨j, hj⟩ := Int.eq_ofNat_of_zero_le (Int.sub_nonneg_of_le hle)
  have hvalue : |q| = (m * 2 ^ j : ℕ) * 2 ^ lastBit q.num.natAbs q.den := by
    rw [habs]
    push_cast
    rw [mul_assoc, ← zpow_natCast, ← hj, ← zpow_add₀ two_ne_zero, sub_add_cancel]
  have hsignificand : significand q.num.natAbs q.den = m * 2 ^ j :=
    significand_exact q.den_nz (by rw [← abs_eq_div, hvalue])
  have hne : m * 2 ^ j ≠ 0 := by
    intro hzero
    rw [hzero] at hvalue
    simp [hq] at hvalue
  rw [ofRat_eq hq, hsignificand, if_neg hne, ← hvalue, if_neg (not_le.mpr hlarge)]
  split
  · next hneg => rw [abs_of_neg hneg, neg_neg]
  · next hneg => rw [abs_of_nonneg (not_lt.mp hneg)]

theorem ofRat_pos (h : OnGrid q) (hpos : 0 < q) : JsNumber.ofRat q = .infinity false ∨
    ∃ r, 0 < r ∧ OnGrid r ∧ JsNumber.ofRat q = .finite r := by
  have hnum : q.num.natAbs ≠ 0 := Int.natAbs_ne_zero.mpr (Rat.num_ne_zero.mpr hpos.ne')
  have hgrid : OnGrid ((q.num.natAbs : ℚ) / q.den) := by
    rwa [← abs_eq_div, abs_of_pos hpos]
  have hsignificand := significand_pos hnum q.den_nz hgrid
  rw [ofRat_eq hpos.ne', if_neg hsignificand.ne', if_neg hpos.not_gt, decide_eq_false hpos.not_gt]
  split
  · exact .inl rfl
  · refine .inr ⟨_, by positivity, ?_, rfl⟩
    exact_mod_cast onGrid_of_exponent (m := (significand q.num.natAbs q.den : ℤ))
      (le_max_right _ leastExponent)

theorem ofRat_neg (h : OnGrid q) (hneg : q < 0) : JsNumber.ofRat q = .infinity true ∨
    ∃ r, r < 0 ∧ OnGrid r ∧ JsNumber.ofRat q = .finite r := by
  have hnum : q.num.natAbs ≠ 0 := Int.natAbs_ne_zero.mpr (Rat.num_ne_zero.mpr hneg.ne)
  have hgrid : OnGrid ((q.num.natAbs : ℚ) / q.den) := by
    rw [← abs_eq_div, abs_of_neg hneg]
    exact h.neg
  have hsignificand := significand_pos hnum q.den_nz hgrid
  rw [ofRat_eq hneg.ne, if_neg hsignificand.ne', if_pos hneg, decide_eq_true hneg]
  split
  · exact .inl rfl
  · refine .inr ⟨_, neg_neg_of_pos (by positivity), OnGrid.neg ?_, rfl⟩
    exact_mod_cast onGrid_of_exponent (m := (significand q.num.natAbs q.den : ℤ))
      (le_max_right _ leastExponent)

theorem zero_lt_finite (q : ℚ) : (JsNumber.finite 0).lt (.finite q) = decide (0 < q) := by
  simp only [JsNumber.lt, JsNumber.le, JsNumber.value]
  grind

theorem zero_lt_ofRat (h : OnGrid q) :
    (JsNumber.finite 0).lt (JsNumber.ofRat q) = decide (0 < q) := by
  rcases lt_trichotomy q 0 with hneg | rfl | hpos
  · rw [decide_eq_false hneg.not_gt]
    rcases ofRat_neg h hneg with heq | ⟨r, hr, -, heq⟩
    · rw [heq]
      rfl
    · rw [heq, zero_lt_finite, decide_eq_false hr.not_gt]
  · rw [ofRat_zero, zero_lt_finite]
  · rw [decide_eq_true hpos]
    rcases ofRat_pos h hpos with heq | ⟨r, hr, -, heq⟩
    · rw [heq]
      rfl
    · rw [heq, zero_lt_finite, decide_eq_true hr]

theorem zero_lt_neg_ofRat (h : OnGrid q) :
    (JsNumber.finite 0).lt (JsNumber.ofRat q).neg = decide (q < 0) := by
  rcases lt_trichotomy q 0 with hneg | rfl | hpos
  · rw [decide_eq_true hneg]
    rcases ofRat_neg h hneg with heq | ⟨r, hr, hgrid, heq⟩
    · rw [heq]
      rfl
    · rw [heq]
      show (JsNumber.finite 0).lt (JsNumber.ofRat (-r)) = true
      rw [zero_lt_ofRat hgrid.neg, decide_eq_true (neg_pos.mpr hr)]
  · rw [ofRat_zero]
    show (JsNumber.finite 0).lt (JsNumber.ofRat (-0)) = false
    rw [neg_zero, ofRat_zero, zero_lt_finite]
    rfl
  · rw [decide_eq_false hpos.not_gt]
    rcases ofRat_pos h hpos with heq | ⟨r, hr, hgrid, heq⟩
    · rw [heq]
      rfl
    · rw [heq]
      show (JsNumber.finite 0).lt (JsNumber.ofRat (-r)) = false
      rw [zero_lt_ofRat hgrid.neg, decide_eq_false (neg_neg_of_pos hr).not_gt]

-- ---------------------------------------------------------------------------
-- Differences
-- ---------------------------------------------------------------------------

theorem IsDouble.value_onGrid {n : JsNumber} (h : IsDouble n) : OnGrid n.value := by
  cases n with
  | finite q => exact h.onGrid
  | nan | infinity _ | negZero => exact ⟨0, by simp [JsNumber.value]⟩

theorem IsDouble.neg_value {n : JsNumber} (h : IsDouble n) (hn : n.isFinite = true) :
    ∃ q, n.neg = .finite q ∧ q = -n.value := by
  cases n with
  | nan | infinity _ => cases hn
  | negZero => exact ⟨0, by decide +kernel, rfl⟩
  | finite q =>
    obtain ⟨m, e, habs, hrest⟩ := h
    exact ⟨-q, ofRat_double ⟨m, e, by rwa [abs_neg], by rwa [abs_neg]⟩, rfl⟩

section
variable {m n : JsNumber}

theorem sub_finite (hn : IsDouble n) (hm' : m.isFinite = true) (hn' : n.isFinite = true) :
    m.sub n = JsNumber.ofRat (m.value - n.value) := by
  obtain ⟨q, hneg, hq⟩ := hn.neg_value hn'
  rw [JsNumber.sub, hneg, sub_eq_add_neg, ← hq]
  cases m with
  | nan | infinity _ => cases hm'
  | negZero | finite _ => rfl

theorem le_finite (hm : m.isFinite = true) (hn : n.isFinite = true) :
    m.le n = decide (m.value ≤ n.value) := by
  cases m with
  | nan | infinity _ => cases hm
  | negZero | finite _ =>
    cases n with
    | nan | infinity _ => cases hn
    | negZero | finite _ => rfl

/-- Between numbers of which one is infinite the difference is infinite, or not a number where
they are equal. -/
theorem sub_infinite (hn : IsDouble n) (hm' : m ≠ .nan) (hn' : n ≠ .nan)
    (h : ¬ (m.isFinite = true ∧ n.isFinite = true)) :
    m.sub n = .nan ∧ m.le n = true ∧ n.le m = true ∨
      m.sub n = .infinity false ∧ m.le n = false ∧ n.le m = true ∨
      m.sub n = .infinity true ∧ m.le n = true ∧ n.le m = false := by
  cases m with
  | nan => exact absurd rfl hm'
  | infinity s =>
    by_cases hfinite : n.isFinite = true
    · obtain ⟨q, hneg, -⟩ := hn.neg_value hfinite
      have hsub : (JsNumber.infinity s).sub n = .infinity s := by
        rw [JsNumber.sub, hneg]
        rfl
      rw [hsub]
      cases n with
      | nan | infinity _ => cases hfinite
      | negZero | finite _ => cases s <;> simp [JsNumber.le]
    · cases n with
      | nan => exact absurd rfl hn'
      | infinity t => cases s <;> cases t <;> decide
      | negZero | finite _ => exact absurd rfl hfinite
  | negZero | finite _ =>
    cases n with
    | nan => exact absurd rfl hn'
    | infinity t => cases t <;> simp [JsNumber.sub, JsNumber.neg, JsNumber.add, JsNumber.le]
    | negZero | finite _ => exact absurd ⟨rfl, rfl⟩ h

theorem zero_lt_sub (hm : IsDouble m) (hn : IsDouble n) (hm' : m ≠ .nan) (hn' : n ≠ .nan) :
    (JsNumber.finite 0).lt (m.sub n) = !m.le n := by
  by_cases hfinite : m.isFinite = true ∧ n.isFinite = true
  · obtain ⟨hmf, hnf⟩ := hfinite
    rw [sub_finite hn hmf hnf, zero_lt_ofRat (hm.value_onGrid.sub hn.value_onGrid),
      le_finite hmf hnf, ← decide_not]
    exact decide_eq_decide.mpr (by rw [sub_pos, not_le])
  · rcases sub_infinite hn hm' hn' hfinite with ⟨h, hle, -⟩ | ⟨h, hle, -⟩ | ⟨h, hle, -⟩
    · rw [h, hle]
      rfl
    · rw [h, hle]
      rfl
    · rw [h, hle]
      rfl

theorem zero_lt_neg_sub (hm : IsDouble m) (hn : IsDouble n) (hm' : m ≠ .nan) (hn' : n ≠ .nan) :
    (JsNumber.finite 0).lt (m.sub n).neg = !n.le m := by
  by_cases hfinite : m.isFinite = true ∧ n.isFinite = true
  · obtain ⟨hmf, hnf⟩ := hfinite
    rw [sub_finite hn hmf hnf, zero_lt_neg_ofRat (hm.value_onGrid.sub hn.value_onGrid),
      le_finite hnf hmf, ← decide_not]
    exact decide_eq_decide.mpr (by rw [sub_neg, not_le])
  · rcases sub_infinite hn hm' hn' hfinite with ⟨h, -, hle⟩ | ⟨h, -, hle⟩ | ⟨h, -, hle⟩
    · rw [h, hle]
      rfl
    · rw [h, hle]
      rfl
    · rw [h, hle]
      rfl

-- ---------------------------------------------------------------------------
-- The order of numbers
-- ---------------------------------------------------------------------------

theorem le_trans_of_number {k : JsNumber} (h : m.le n = true) (h' : n.le k = true) :
    m.le k = true := by
  unfold JsNumber.le at h h' ⊢
  cases m <;> cases n <;> cases k <;> grind

theorem le_total_of_number (hm : m ≠ .nan) (hn : n ≠ .nan) : (m.le n || n.le m) = true := by
  unfold JsNumber.le
  cases m <;> cases n <;> grind

end

end McpGateway.Js
