import McpGateway.Js.String
import McpGateway.Lib.Codec

/-!
# Dates

A `Date` holds a time value: a whole number of milliseconds since 1970 within
100 million days of it, or nothing when it is invalid. `toISOString` prints the
civil date of the proleptic Gregorian calendar, and different time values are
printed differently.
-/

namespace McpGateway.Js

structure TimeValue where
  ms : ℤ
  inRange : -8640000000000000 ≤ ms ∧ ms ≤ 8640000000000000
  deriving DecidableEq

theorem epoch_inRange : -8640000000000000 ≤ (0 : ℤ) ∧ (0 : ℤ) ≤ 8640000000000000 := by decide

/-- A `Date`; `none` is the invalid one. -/
abbrev Date := Option TimeValue

structure Civil where
  year : ℤ
  month : ℤ
  day : ℤ

def epochDays : ℤ := 719468

/-- The year, counted from March, and the day of that year of a day counted from
1970-01-01: eras of 400 years are cut into centuries and cycles of four. -/
def marchYear (days : ℤ) : ℤ × ℤ :=
  let z := days + epochDays
  let dayOfEra := z % 146097
  let century := min (dayOfEra / 36524) 3
  let dayOfCentury := dayOfEra - century * 36524
  let cycle := dayOfCentury / 1461
  let dayOfCycle := dayOfCentury - cycle * 1461
  let yearOfCycle := min (dayOfCycle / 365) 3
  (z / 146097 * 400 + century * 100 + cycle * 4 + yearOfCycle, dayOfCycle - yearOfCycle * 365)

def civilOf (year dayOfYear : ℤ) : Civil :=
  let march := (5 * dayOfYear + 2) / 153
  { year := if march < 10 then year else year + 1
    month := if march < 10 then march + 3 else march - 9
    day := dayOfYear - (153 * march + 2) / 5 + 1 }

def civilFromDays (days : ℤ) : Civil := civilOf (marchYear days).1 (marchYear days).2

def digitUnit (n : ℕ) : CodeUnit := UInt16.ofNat (0x30 + n)

/-- The last `width` decimal digits of `n`. -/
def pad : ℕ → ℕ → JsString
  | 0, _ => []
  | width + 1, n => pad width (n / 10) ++ [digitUnit (n % 10)]

def isoYear (year : ℤ) : JsString :=
  if 0 ≤ year ∧ year ≤ 9999 then pad 4 year.toNat
  else (if 0 ≤ year then plusSign else hyphen) :: pad 6 year.natAbs

def isoDate (date : Civil) : JsString :=
  isoYear date.year ++ hyphen :: pad 2 date.month.toNat ++ hyphen :: pad 2 date.day.toNat

def isoTime (ms : ℕ) : JsString :=
  pad 2 (ms / 3600000) ++ colon :: pad 2 (ms / 60000 % 60) ++ colon :: pad 2 (ms / 1000 % 60) ++
    fullStop :: pad 3 (ms % 1000)

def TimeValue.isoString (t : TimeValue) : JsString :=
  isoDate (civilFromDays (t.ms / 86400000)) ++ unit 'T' :: isoTime (t.ms % 86400000).toNat ++
    [unit 'Z']

example : (TimeValue.mk 951826554321 (by decide)).isoString = js "2000-02-29T12:15:54.321Z" := by
  decide

-- ---------------------------------------------------------------------------
-- The calendar
-- ---------------------------------------------------------------------------

/-- The day of a civil date, the inverse of `civilFromDays`. -/
def daysFromCivil (date : Civil) : ℤ :=
  let year := if date.month ≤ 2 then date.year - 1 else date.year
  let march := if date.month ≤ 2 then date.month + 9 else date.month - 3
  365 * year + year / 4 - year / 100 + year / 400 + (153 * march + 2) / 5 + (date.day - 1) -
    epochDays

theorem marchYear_spec (days : ℤ) :
    let year := (marchYear days).1
    let dayOfYear := (marchYear days).2
    0 ≤ dayOfYear ∧ dayOfYear ≤ 365 ∧
      365 * year + year / 4 - year / 100 + year / 400 + dayOfYear = days + epochDays := by
  simp only [marchYear]
  generalize days + epochDays = z
  refine ⟨by omega, by omega, ?_⟩
  generalize he : z / 146097 = e
  generalize hd : z % 146097 = d
  generalize hc : min (d / 36524) 3 = c
  generalize hq : (d - c * 36524) / 1461 = q
  generalize hy : min ((d - c * 36524 - q * 1461) / 365) 3 = y
  have hbounds : 0 ≤ c ∧ c ≤ 3 ∧ 0 ≤ q ∧ q ≤ 24 ∧ 0 ≤ y ∧ y ≤ 3 := by omega
  have h4 : (e * 400 + c * 100 + q * 4 + y) / 4 = e * 100 + c * 25 + q := by omega
  have h100 : (e * 400 + c * 100 + q * 4 + y) / 100 = e * 4 + c := by omega
  have h400 : (e * 400 + c * 100 + q * 4 + y) / 400 = e := by omega
  rw [h4, h100, h400]
  omega

theorem civilOf_bounds {year dayOfYear : ℤ} (h0 : 0 ≤ dayOfYear) (h1 : dayOfYear ≤ 365) :
    let date := civilOf year dayOfYear
    1 ≤ date.month ∧ date.month ≤ 12 ∧ 1 ≤ date.day ∧ date.day ≤ 31 := by
  simp only [civilOf]
  split <;> omega

theorem daysFromCivil_civilOf {year dayOfYear : ℤ} (h0 : 0 ≤ dayOfYear) (h1 : dayOfYear ≤ 365) :
    daysFromCivil (civilOf year dayOfYear) =
      365 * year + year / 4 - year / 100 + year / 400 + dayOfYear - epochDays := by
  by_cases h10 : (5 * dayOfYear + 2) / 153 < 10
  · have hd : ¬ (5 * dayOfYear + 2) / 153 + 3 ≤ 2 := by omega
    simp only [civilOf, daysFromCivil, h10, hd, ↓reduceIte]
    omega
  · have hd : (5 * dayOfYear + 2) / 153 - 9 ≤ 2 := by omega
    simp only [civilOf, daysFromCivil, h10, hd, ↓reduceIte]
    omega

theorem daysFromCivil_civilFromDays (days : ℤ) : daysFromCivil (civilFromDays days) = days := by
  have h := marchYear_spec days
  rw [civilFromDays, daysFromCivil_civilOf h.1 h.2.1]
  dsimp only at h
  omega

-- ---------------------------------------------------------------------------
-- The text of a date
-- ---------------------------------------------------------------------------

theorem digitUnit_injective (hm : m < 10) (hn : n < 10) (h : digitUnit m = digitUnit n) : m = n :=
  (by decide : ∀ m < 10, ∀ n < 10, digitUnit m = digitUnit n → m = n) m hm n hn h

@[simp] theorem pad_length (width n : ℕ) : (pad width n).length = width := by
  induction width generalizing n with
  | zero => rfl
  | succ width ih => simp [pad, ih]

theorem pad_injective (hm : m < 10 ^ width) (hn : n < 10 ^ width)
    (h : pad width m = pad width n) : m = n := by
  induction width generalizing m n with
  | zero => omega
  | succ width ih =>
    obtain ⟨hquot, hdigit⟩ := List.append_inj h (by simp)
    rw [pow_succ] at hm hn
    have hq := ih (by omega) (by omega) hquot
    have hd := digitUnit_injective (Nat.mod_lt m (by omega)) (Nat.mod_lt n (by omega))
      (List.cons.inj hdigit).1
    omega

theorem pad_append_inj (hm : m < 10 ^ width) (hn : n < 10 ^ width)
    (h : pad width m ++ x = pad width n ++ y) : m = n ∧ x = y := by
  obtain ⟨hpad, hxy⟩ := List.append_inj h (by simp)
  exact ⟨pad_injective hm hn hpad, hxy⟩

theorem isDigit_of_mem_pad (h : c ∈ pad width n) : isDigit c = true := by
  induction width generalizing n with
  | zero => simp [pad] at h
  | succ width ih =>
    rcases List.mem_append.mp h with h | h
    · exact ih h
    · rw [List.mem_singleton.mp h]
      exact (by decide : ∀ d < 10, isDigit (digitUnit d) = true) _ (Nat.mod_lt n (by omega))

theorem pad_ne_sign (hc : isDigit c = false) : pad 4 n ++ x ≠ c :: y := by
  intro h
  cases hpad : pad 4 n with
  | nil => simpa using congrArg List.length hpad
  | cons d s =>
    rw [hpad] at h
    have hd := isDigit_of_mem_pad (show d ∈ pad 4 n by simp [hpad])
    rw [(List.cons.inj h).1, hc] at hd
    exact Bool.noConfusion hd

theorem isoYear_append_inj {y y' : ℤ} (hy : y.natAbs < 10 ^ 6) (hy' : y'.natAbs < 10 ^ 6)
    (h : isoYear y ++ x = isoYear y' ++ z) : y = y' ∧ x = z := by
  have hsign (b : Prop) [Decidable b] : isDigit (if b then plusSign else hyphen) = false := by
    split <;> decide
  unfold isoYear at h
  by_cases hs : 0 ≤ y ∧ y ≤ 9999 <;> by_cases hs' : 0 ≤ y' ∧ y' ≤ 9999
  · rw [if_pos hs, if_pos hs'] at h
    obtain ⟨hn, hxz⟩ := pad_append_inj (by omega) (by omega) h
    exact ⟨by omega, hxz⟩
  · rw [if_pos hs, if_neg hs'] at h
    exact absurd h (pad_ne_sign (hsign _))
  · rw [if_neg hs, if_pos hs'] at h
    exact absurd h.symm (pad_ne_sign (hsign _))
  · rw [if_neg hs, if_neg hs'] at h
    obtain ⟨hc, htail⟩ := List.cons.inj h
    obtain ⟨hn, hxz⟩ := pad_append_inj hy hy' htail
    have hne : plusSign ≠ hyphen := by decide
    have hiff : 0 ≤ y ↔ 0 ≤ y' := by
      by_cases h0 : 0 ≤ y <;> by_cases h0' : 0 ≤ y' <;> simp [h0, h0', hne, hne.symm] at hc ⊢
    exact ⟨by omega, hxz⟩

theorem isoDate_append_inj {d d' : Civil} (hd : d.year.natAbs < 10 ^ 6)
    (hd' : d'.year.natAbs < 10 ^ 6) (hm : 1 ≤ d.month ∧ d.month ≤ 12 ∧ 1 ≤ d.day ∧ d.day ≤ 31)
    (hm' : 1 ≤ d'.month ∧ d'.month ≤ 12 ∧ 1 ≤ d'.day ∧ d'.day ≤ 31)
    (h : isoDate d ++ x = isoDate d' ++ z) : d = d' ∧ x = z := by
  simp only [isoDate, List.append_assoc, List.cons_append] at h
  obtain ⟨hyear, h⟩ := isoYear_append_inj hd hd' h
  obtain ⟨hmonth, h⟩ := pad_append_inj (by omega) (by omega) (List.cons.inj h).2
  obtain ⟨hday, h⟩ := pad_append_inj (by omega) (by omega) (List.cons.inj h).2
  refine ⟨?_, h⟩
  cases d
  cases d'
  simp only [Civil.mk.injEq]
  dsimp only at hyear hmonth hday hm hm'
  exact ⟨hyear, by omega, by omega⟩

theorem isoTime_append_inj (hm : m < 86400000) (hn : n < 86400000)
    (h : isoTime m ++ x = isoTime n ++ z) : m = n ∧ x = z := by
  simp only [isoTime, List.append_assoc, List.cons_append] at h
  obtain ⟨hhour, h⟩ := pad_append_inj (by omega) (by omega) h
  obtain ⟨hminute, h⟩ := pad_append_inj (by omega) (by omega) (List.cons.inj h).2
  obtain ⟨hsecond, h⟩ := pad_append_inj (by omega) (by omega) (List.cons.inj h).2
  obtain ⟨hms, h⟩ := pad_append_inj (by omega) (by omega) (List.cons.inj h).2
  exact ⟨by omega, h⟩

theorem civilFromDays_bounds (days : ℤ) :
    let date := civilFromDays days
    1 ≤ date.month ∧ date.month ≤ 12 ∧ 1 ≤ date.day ∧ date.day ≤ 31 :=
  civilOf_bounds (marchYear_spec days).1 (marchYear_spec days).2.1

theorem year_bound {days : ℤ} (h : -100000000 ≤ days ∧ days ≤ 100000000) :
    (civilFromDays days).year.natAbs < 10 ^ 6 := by
  have hspec := marchYear_spec days
  dsimp only [epochDays] at hspec
  simp only [civilFromDays, civilOf]
  split <;> omega

theorem isoString_injective {s t : TimeValue} (h : s.isoString = t.isoString) : s = t := by
  have hs := s.inRange
  have ht := t.inRange
  simp only [TimeValue.isoString, List.append_assoc] at h
  obtain ⟨hdate, h⟩ := isoDate_append_inj (year_bound (by omega)) (year_bound (by omega))
    (civilFromDays_bounds _) (civilFromDays_bounds _) h
  obtain ⟨htime, -⟩ := isoTime_append_inj (by omega) (by omega) (List.cons.inj h).2
  have hdays := congrArg daysFromCivil hdate
  rw [daysFromCivil_civilFromDays, daysFromCivil_civilFromDays] at hdays
  cases s
  cases t
  simp only [TimeValue.mk.injEq]
  dsimp only at hdays htime
  omega

end McpGateway.Js
