import McpGateway.Js.Sha256

/-!
# Code points

A well-formed string is the UTF-16 of a sequence of Unicode scalar values, and
its UTF-8 is read back to it. Bytes are taken from any source that yields them
one by one: a buffer, or the escapes of a URI.
-/

namespace McpGateway.Js

def IsScalar (n : Nat) : Prop := n < 0xD800 ∨ 0xE000 ≤ n ∧ n < 0x110000

def surrogatePair (c d : CodeUnit) : Nat :=
  0x10000 + (c.toNat - 0xD800) * 0x400 + (d.toNat - 0xDC00)

/-- The code points of a well-formed string; `none` when a surrogate has no other half. -/
def codePoints : JsString → Option (List Nat)
  | [] => some []
  | [c] => if isHighSurrogate c || isLowSurrogate c then none else some [c.toNat]
  | c :: d :: s =>
    if isHighSurrogate c && isLowSurrogate d then
      (codePoints s).map (surrogatePair c d :: ·)
    else if isHighSurrogate c || isLowSurrogate c then none
    else (codePoints (d :: s)).map (c.toNat :: ·)

/-- `isWellFormed`. -/
def isWellFormed (s : JsString) : Bool := (codePoints s).isSome

/-- `String.fromCodePoint`. -/
def codePointUnits (n : Nat) : JsString :=
  if n < 0x10000 then [.ofNat n]
  else [.ofNat (0xD800 + (n - 0x10000) / 0x400), .ofNat (0xDC00 + (n - 0x10000) % 0x400)]

-- ---------------------------------------------------------------------------
-- UTF-8, read
-- ---------------------------------------------------------------------------

section
variable {σ : Type} (next : σ → Option (UInt8 × σ))

def continuation (s : σ) : Option (Nat × σ) := do
  let (b, s) ← next s
  if 0x80 ≤ b.toNat ∧ b.toNat < 0xC0 then return (b.toNat - 0x80, s) else none

/-- The code point at the front; overlong forms, surrogates and what lies beyond Unicode are
refused. -/
def readCodePoint (s : σ) : Option (Nat × σ) := do
  let (a, s) ← next s
  let n := a.toNat
  if n < 0x80 then return (n, s)
  else if 0xC2 ≤ n ∧ n < 0xE0 then do
    let (x, s) ← continuation next s
    return ((n - 0xC0) * 0x40 + x, s)
  else if 0xE0 ≤ n ∧ n < 0xF0 then do
    let (x, s) ← continuation next s
    let (y, s) ← continuation next s
    let m := (n - 0xE0) * 0x1000 + x * 0x40 + y
    if 0x800 ≤ m ∧ (m < 0xD800 ∨ 0xE000 ≤ m) then return (m, s) else none
  else if 0xF0 ≤ n ∧ n < 0xF5 then do
    let (x, s) ← continuation next s
    let (y, s) ← continuation next s
    let (z, s) ← continuation next s
    let m := (n - 0xF0) * 0x40000 + x * 0x1000 + y * 0x40 + z
    if 0x10000 ≤ m ∧ m < 0x110000 then return (m, s) else none
  else none

end

def takeByte : List UInt8 → Option (UInt8 × List UInt8)
  | [] => none
  | b :: bytes => some (b, bytes)

/-- `fuel` bounds the number of code points. -/
def utf8TextFuel : Nat → List UInt8 → Option JsString
  | _, [] => some []
  | 0, _ :: _ => none
  | fuel + 1, b :: bytes => do
    let (n, rest) ← readCodePoint takeByte (b :: bytes)
    let text ← utf8TextFuel fuel rest
    return codePointUnits n ++ text

/-- `buffer.toString('utf8')` of bytes that are UTF-8. -/
def utf8Text (bytes : List UInt8) : Option JsString := utf8TextFuel bytes.length bytes

-- ---------------------------------------------------------------------------
-- What a well-formed string is made of
-- ---------------------------------------------------------------------------

theorem isScalar_unit {c : CodeUnit} (h : (isHighSurrogate c || isLowSurrogate c) = false) :
    IsScalar c.toNat := by
  simp only [isHighSurrogate, isLowSurrogate, Bool.or_eq_false_iff, Bool.and_eq_false_iff,
    decide_eq_false_iff_not, UInt16.le_iff_toNat_le, UInt16.reduceToNat] at h
  have hmax := c.toNat_lt
  unfold IsScalar
  omega

theorem codePointUnits_unit (c : CodeUnit) : codePointUnits c.toNat = [c] := by
  unfold codePointUnits
  rw [if_pos c.toNat_lt, UInt16.ofNat_toNat]

theorem surrogate_bounds {c d : CodeUnit} (h : (isHighSurrogate c && isLowSurrogate d) = true) :
    (0xD800 ≤ c.toNat ∧ c.toNat < 0xDC00) ∧ 0xDC00 ≤ d.toNat ∧ d.toNat < 0xE000 := by
  simp only [isHighSurrogate, isLowSurrogate, Bool.and_eq_true, decide_eq_true_eq,
    UInt16.le_iff_toNat_le, UInt16.reduceToNat] at h
  omega

theorem isScalar_pair {c d : CodeUnit} (h : (isHighSurrogate c && isLowSurrogate d) = true) :
    IsScalar (surrogatePair c d) := by
  have hbounds := surrogate_bounds h
  unfold IsScalar surrogatePair
  omega

theorem codePointUnits_pair {c d : CodeUnit} (h : (isHighSurrogate c && isLowSurrogate d) = true) :
    codePointUnits (surrogatePair c d) = [c, d] := by
  have hbounds := surrogate_bounds h
  unfold codePointUnits surrogatePair
  rw [if_neg (by omega)]
  have hhigh : UInt16.ofNat (0xD800 + (0x10000 + (c.toNat - 0xD800) * 0x400 +
      (d.toNat - 0xDC00) - 0x10000) / 0x400) = c := by
    apply UInt16.toNat_inj.mp
    simp only [UInt16.toNat_ofNat']
    omega
  have hlow : UInt16.ofNat (0xDC00 + (0x10000 + (c.toNat - 0xD800) * 0x400 +
      (d.toNat - 0xDC00) - 0x10000) % 0x400) = d := by
    apply UInt16.toNat_inj.mp
    simp only [UInt16.toNat_ofNat']
    omega
  rw [hhigh, hlow]

/-- A well-formed string is the UTF-16 of its code points, which are scalar values, and its UTF-8
is theirs. -/
theorem codePoints_spec {s : JsString} {ns : List Nat} (h : codePoints s = some ns) :
    (∀ n ∈ ns, IsScalar n) ∧ ns.flatMap codePointUnits = s ∧ utf8 s = ns.flatMap utf8CodePoint := by
  induction s using codePoints.induct generalizing ns with
  | case1 =>
    cases h
    exact ⟨List.forall_mem_nil _, rfl, rfl⟩
  | case2 c hlone =>
    rw [codePoints, if_pos hlone] at h
    cases h
  | case3 c hplain =>
    rw [codePoints, if_neg hplain] at h
    cases h
    refine ⟨?_, ?_, ?_⟩
    · simpa using isScalar_unit (Bool.eq_false_of_not_eq_true hplain)
    · simp [codePointUnits_unit]
    · simp [utf8, utf8Unit, hplain]
  | case4 c d s hpair ih =>
    rw [codePoints, if_pos hpair] at h
    obtain ⟨ns, hns, rfl⟩ := Option.map_eq_some_iff.mp h
    obtain ⟨hscalar, hunits, hbytes⟩ := ih hns
    refine ⟨List.forall_mem_cons.mpr ⟨isScalar_pair hpair, hscalar⟩, ?_, ?_⟩
    · rw [List.flatMap_cons, codePointUnits_pair hpair, hunits]
      rfl
    · rw [utf8, if_pos hpair, List.flatMap_cons, hbytes]
      rfl
  | case5 c d s hpair hlone =>
    rw [codePoints, if_neg hpair, if_pos hlone] at h
    cases h
  | case6 c d s hpair hplain ih =>
    rw [codePoints, if_neg hpair, if_neg hplain] at h
    obtain ⟨ns, hns, rfl⟩ := Option.map_eq_some_iff.mp h
    obtain ⟨hscalar, hunits, hbytes⟩ := ih hns
    have hunit := Bool.eq_false_of_not_eq_true hplain
    refine ⟨List.forall_mem_cons.mpr ⟨isScalar_unit hunit, hscalar⟩, ?_, ?_⟩
    · rw [List.flatMap_cons, codePointUnits_unit, hunits]
      rfl
    · rw [utf8, if_neg hpair, List.flatMap_cons, hbytes, utf8Unit, if_neg hplain]

theorem isWellFormed_ascii {s : JsString} (h : ∀ c ∈ s, c.toNat < 0x80) : isWellFormed s = true := by
  have hplain : ∀ c ∈ s, isHighSurrogate c = false ∧ isLowSurrogate c = false := by
    intro c hc
    have hlt := h c hc
    simp only [isHighSurrogate, isLowSurrogate, Bool.and_eq_false_iff, decide_eq_false_iff_not,
      UInt16.le_iff_toNat_le, UInt16.reduceToNat]
    omega
  unfold isWellFormed
  induction s using codePoints.induct with
  | case1 => rfl
  | case2 c hlone =>
    have hc := hplain c List.mem_cons_self
    simp [hc] at hlone
  | case3 c hunit => rw [codePoints, if_neg hunit]; rfl
  | case4 c d s hpair ih =>
    have hc := hplain c List.mem_cons_self
    simp [hc] at hpair
  | case5 c d s hpair hlone =>
    have hc := hplain c List.mem_cons_self
    simp [hc] at hlone
  | case6 c d s hpair hunit ih =>
    rw [codePoints, if_neg hpair, if_neg hunit, Option.isSome_map]
    exact ih (List.forall_mem_of_forall_mem_cons h) (List.forall_mem_of_forall_mem_cons hplain)

-- ---------------------------------------------------------------------------
-- UTF-8 undone
-- ---------------------------------------------------------------------------

def Yields {σ : Type} (next : σ → Option (UInt8 × σ)) : σ → List UInt8 → σ → Prop
  | s, [], t => s = t
  | s, b :: bytes, t => ∃ s', next s = some (b, s') ∧ Yields next s' bytes t

section
variable {σ : Type} {next : σ → Option (UInt8 × σ)} {s t : σ}

theorem continuation_eq {x : Nat} (hx : x < 0x40) (h : next s = some (.ofNat (0x80 + x), t)) :
    continuation next s = some (x, t) := by
  have hbyte : (UInt8.ofNat (0x80 + x)).toNat = 0x80 + x := Nat.mod_eq_of_lt (by omega)
  simp only [continuation, h, Option.bind_eq_bind, Option.bind_some, hbyte]
  rw [if_pos (by omega), Nat.add_sub_cancel_left]
  rfl

theorem toNat_byte {n : Nat} (h : n < 256) : (UInt8.ofNat n).toNat = n := Nat.mod_eq_of_lt h

theorem readCodePoint_yields {n : Nat} (hn : IsScalar n) (h : Yields next s (utf8CodePoint n) t) :
    readCodePoint next s = some (n, t) := by
  unfold IsScalar at hn
  unfold utf8CodePoint at h
  unfold readCodePoint
  split at h
  · obtain ⟨s₁, hlead, rfl⟩ := h
    simp only [hlead, Option.bind_eq_bind, Option.bind_some, toNat_byte (show n < 256 by omega)]
    rw [if_pos (by omega)]
    rfl
  split at h
  · obtain ⟨s₁, hlead, s₂, hx, rfl⟩ := h
    simp only [hlead, Option.bind_eq_bind, Option.bind_some,
      toNat_byte (show 0xC0 + n / 0x40 < 256 by omega), continuation_eq (Nat.mod_lt _ (by decide)) hx]
    rw [if_neg (by omega), if_pos (by omega),
      show (0xC0 + n / 0x40 - 0xC0) * 0x40 + n % 0x40 = n by omega]
    rfl
  split at h
  · obtain ⟨s₁, hlead, s₂, hx, s₃, hy, rfl⟩ := h
    simp only [hlead, Option.bind_eq_bind, Option.bind_some,
      toNat_byte (show 0xE0 + n / 0x1000 < 256 by omega),
      continuation_eq (Nat.mod_lt _ (by decide)) hx, continuation_eq (Nat.mod_lt _ (by decide)) hy]
    rw [if_neg (by omega), if_neg (by omega), if_pos (by omega),
      show (0xE0 + n / 0x1000 - 0xE0) * 0x1000 + n / 0x40 % 0x40 * 0x40 + n % 0x40 = n by omega,
      if_pos (by omega)]
    rfl
  · obtain ⟨s₁, hlead, s₂, hx, s₃, hy, s₄, hz, rfl⟩ := h
    simp only [hlead, Option.bind_eq_bind, Option.bind_some,
      toNat_byte (show 0xF0 + n / 0x40000 < 256 by omega),
      continuation_eq (Nat.mod_lt _ (by decide)) hx, continuation_eq (Nat.mod_lt _ (by decide)) hy,
      continuation_eq (Nat.mod_lt _ (by decide)) hz]
    rw [if_neg (by omega), if_neg (by omega), if_neg (by omega), if_pos (by omega),
      show (0xF0 + n / 0x40000 - 0xF0) * 0x40000 + n / 0x1000 % 0x40 * 0x1000 +
        n / 0x40 % 0x40 * 0x40 + n % 0x40 = n by omega, if_pos (by omega)]
    rfl

end

theorem yields_takeByte (bytes rest : List UInt8) : Yields takeByte (bytes ++ rest) bytes rest := by
  induction bytes with
  | nil => rfl
  | cons b bytes ih => exact ⟨_, rfl, ih⟩

theorem utf8CodePoint_ne_nil (n : Nat) : utf8CodePoint n ≠ [] := by
  unfold utf8CodePoint
  repeat' split
  all_goals exact List.cons_ne_nil _ _

theorem utf8TextFuel_flatMap {ns : List Nat} (hns : ∀ n ∈ ns, IsScalar n) {fuel : Nat}
    (hfuel : (ns.flatMap utf8CodePoint).length ≤ fuel) :
    utf8TextFuel fuel (ns.flatMap utf8CodePoint) = some (ns.flatMap codePointUnits) := by
  induction ns generalizing fuel with
  | nil => cases fuel <;> rfl
  | cons n ns ih =>
    obtain ⟨hn, hns⟩ := List.forall_mem_cons.mp hns
    have hread := readCodePoint_yields hn
      (yields_takeByte (utf8CodePoint n) (ns.flatMap utf8CodePoint))
    rw [List.flatMap_cons] at hfuel ⊢
    obtain ⟨b, bytes, hbytes⟩ := List.exists_cons_of_ne_nil (utf8CodePoint_ne_nil n)
    rw [hbytes, List.cons_append] at hfuel hread ⊢
    cases fuel with
    | zero => cases hfuel
    | succ fuel =>
      have hrest : (ns.flatMap utf8CodePoint).length ≤ fuel := by
        simp only [List.length_cons, List.length_append] at hfuel
        omega
      rw [utf8TextFuel, hread, Option.bind_eq_bind, Option.bind_some]
      simp only [ih hns hrest, Option.bind_eq_bind, Option.bind_some, List.flatMap_cons]
      rfl

theorem utf8Text_utf8 {s : JsString} (h : isWellFormed s = true) : utf8Text (utf8 s) = some s := by
  obtain ⟨ns, hns⟩ := Option.isSome_iff_exists.mp h
  obtain ⟨hscalar, hunits, hbytes⟩ := codePoints_spec hns
  rw [hbytes]
  exact (utf8TextFuel_flatMap hscalar (Nat.le_refl _)).trans (congrArg some hunits)

end McpGateway.Js
