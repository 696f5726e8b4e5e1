import McpGateway.Js.Number
import McpGateway.Lib.Codec

/-!
# A text for every number

`fractionText` has what the language guarantees of the text of a number, and it
is that text for integers below 10^21.
-/

namespace McpGateway.Js

open Codec

theorem unit_injective_digits {s t : List Char} (hs : ∀ c ∈ s, c.isDigit = true)
    (ht : ∀ c ∈ t, c.isDigit = true) (h : s.map unit = t.map unit) : s = t := by
  induction s generalizing t with
  | nil => exact (List.map_eq_nil_iff.mp h.symm).symm
  | cons c s ih =>
    cases t with
    | nil => cases h
    | cons d t =>
      rw [List.forall_mem_cons] at hs ht
      obtain ⟨hcd, hst⟩ := List.cons.inj h
      have htoNat : c.toNat = d.toNat := by
        have hc := hs.1
        have hd := ht.1
        simp only [Char.isDigit, Bool.and_eq_true, decide_eq_true_eq, ge_iff_le,
          UInt32.le_iff_toNat_le] at hc hd
        change 48 ≤ c.toNat ∧ c.toNat ≤ 57 at hc
        change 48 ≤ d.toNat ∧ d.toNat ≤ 57 at hd
        have hmod : c.toNat % 65536 = d.toNat % 65536 := congrArg UInt16.toNat hcd
        omega
      rw [Char.toNat_inj.mp htoNat, ih hs.2 ht.2 hst]

theorem decimal_injective (h : decimal m = decimal n) : m = n := by
  have hdigits (k : Nat) : ∀ c ∈ Nat.toDigits 10 k, c.isDigit = true :=
    fun _ => Nat.isDigit_of_mem_toDigits (by omega) (by omega)
  have heq := unit_injective_digits (hdigits m) (hdigits n) h
  rw [← Nat.ofDigitChars_ten_toDigits (n := m), heq, Nat.ofDigitChars_ten_toDigits]

def fractionText (q : ℚ) : JsString :=
  (if q.num < 0 then [hyphen] else []) ++ decimal q.num.natAbs ++
    if q.den = 1 then [] else unit 'e' :: decimal q.den

theorem decimal_append_inj (hx : Outside isDigit x) (hy : Outside isDigit y)
    (h : decimal m ++ x = decimal n ++ y) : m = n ∧ x = y :=
  ReadsBack.of_class isDigit (fun _ (_ : True) _ => isDigit_of_mem_decimal)
    (fun _ _ _ _ => decimal_injective) trivial n x y trivial hx hy h

theorem decimal_ne_hyphen : decimal n ++ x ≠ hyphen :: y := by
  intro h
  cases hd : decimal n with
  | nil => exact decimal_ne_nil hd
  | cons c s =>
    rw [hd] at h
    have hc := isDigit_of_mem_decimal (c := c) (n := n) (by simp [hd])
    rw [(List.cons.inj h).1] at hc
    exact absurd hc (by decide)

theorem fractionText_injective : Function.Injective fractionText := by
  intro q r h
  have htail (d : ℕ) : Outside isDigit (if d = 1 then [] else unit 'e' :: decimal d) := by
    split
    · exact outside_nil _
    · exact outside_cons.mpr (by decide)
  have hden (hd : (if q.den = 1 then [] else unit 'e' :: decimal q.den) =
      if r.den = 1 then [] else unit 'e' :: decimal r.den) : q.den = r.den := by
    split at hd <;> split at hd
    · omega
    · cases hd
    · cases hd
    · exact decimal_injective (List.cons.inj hd).2
  unfold fractionText at h
  by_cases hq : q.num < 0 <;> by_cases hr : r.num < 0 <;>
    simp only [hq, hr, ↓reduceIte, List.nil_append, List.cons_append] at h
  · obtain ⟨hn, hd⟩ := decimal_append_inj (htail _) (htail _) (List.cons.inj h).2
    exact Rat.ext (by omega) (hden hd)
  · exact absurd h.symm decimal_ne_hyphen
  · exact absurd h decimal_ne_hyphen
  · obtain ⟨hn, hd⟩ := decimal_append_inj (htail _) (htail _) h
    exact Rat.ext (by omega) (hden hd)

theorem isNumberUnit_of_isDigit (h : isDigit c = true) : isNumberUnit c = true := by
  simp [isNumberUnit, h]

theorem numberText_fractionText : NumberText fractionText where
  integer n _ := by
    rw [fractionText, Rat.num_intCast, Rat.den_intCast, if_pos rfl, List.append_nil]
    rfl
  injective := fractionText_injective
  nonempty q h := decimal_ne_nil (List.append_eq_nil_iff.mp (List.append_eq_nil_iff.mp h).1).2
  units q c hc := by
    simp only [fractionText, List.mem_append] at hc
    obtain (hc | hc) | hc := hc
    · split at hc
      · rw [List.mem_singleton.mp hc]
        decide
      · cases hc
    · exact isNumberUnit_of_isDigit (isDigit_of_mem_decimal hc)
    · split at hc
      · cases hc
      · cases hc with
        | head => decide
        | tail _ hc => exact isNumberUnit_of_isDigit (isDigit_of_mem_decimal hc)

end McpGateway.Js
