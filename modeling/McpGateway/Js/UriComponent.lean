import McpGateway.Js.CodePoints

/-!
# URI components

`encodeURIComponent` and `decodeURIComponent`. What is not a letter, a digit or
one of nine marks is escaped, byte by byte of its UTF-8; the escapes of one code
point are read together.
-/

namespace McpGateway.Js

@[match_pattern] abbrev percentSign : CodeUnit := 0x25

/-- What `encodeURIComponent` leaves as it is. -/
def isUnescaped (n : Nat) : Bool :=
  n < 0x80 && (isLetter (.ofNat n) || isDigit (.ofNat n) || (js "-_.!~*'()").contains (.ofNat n))

def upperHexDigit (n : Nat) : CodeUnit := .ofNat (if n < 10 then 0x30 + n else 0x37 + n)

def percentByte (b : UInt8) : JsString :=
  [percentSign, upperHexDigit (b.toNat / 16), upperHexDigit (b.toNat % 16)]

def encodeCodePoint (n : Nat) : JsString :=
  if isUnescaped n then [.ofNat n] else (utf8CodePoint n).flatMap percentByte

/-- `none` is a `URIError`. -/
def encodeURIComponent (s : JsString) : Option JsString :=
  (codePoints s).map (List.flatMap encodeCodePoint)

def escapedByte : JsString → Option (UInt8 × JsString)
  | c :: h :: l :: s =>
    if c = percentSign then do
      let h ← Json.hexValue h
      let l ← Json.hexValue l
      return (.ofNat (h * 16 + l), s)
    else none
  | _ => none

/-- `fuel` bounds the length. -/
def decodeURIComponentFuel : Nat → JsString → Option JsString
  | _, [] => some []
  | 0, _ :: _ => none
  | fuel + 1, c :: s =>
    if c = percentSign then do
      let (n, rest) ← readCodePoint escapedByte (c :: s)
      let text ← decodeURIComponentFuel fuel rest
      return codePointUnits n ++ text
    else (decodeURIComponentFuel fuel s).map (c :: ·)

/-- `none` is a `URIError`. -/
def decodeURIComponent (s : JsString) : Option JsString := decodeURIComponentFuel s.length s

-- ---------------------------------------------------------------------------
-- What an encoded text is made of
-- ---------------------------------------------------------------------------

/-- An encoded text is ASCII, and no separator of a URI or of credentials stands in it. -/
def isComponentUnit (c : CodeUnit) : Bool := c.toNat < 0x80 && c != colon

theorem isComponentUnit_hex {n : Nat} (h : n < 16) : isComponentUnit (upperHexDigit n) = true :=
  (by decide : ∀ n < 16, isComponentUnit (upperHexDigit n) = true) n h

theorem unescaped_spec {n : Nat} (h : isUnescaped n = true) :
    n < 0x80 ∧ isComponentUnit (.ofNat n) = true ∧ UInt16.ofNat n ≠ percentSign := by
  have hn : n < 0x80 := by
    simp only [isUnescaped, Bool.and_eq_true, decide_eq_true_eq] at h
    exact h.1
  exact ⟨hn, (by decide +kernel : ∀ n < 0x80, isUnescaped n = true →
    isComponentUnit (.ofNat n) = true ∧ UInt16.ofNat n ≠ percentSign) n hn h⟩

theorem isComponentUnit_encodeCodePoint {n : Nat} {c : CodeUnit} (h : c ∈ encodeCodePoint n) :
    isComponentUnit c = true := by
  unfold encodeCodePoint at h
  split at h
  · next hplain =>
    rw [List.mem_singleton.mp h]
    exact (unescaped_spec hplain).2.1
  · obtain ⟨b, -, hc⟩ := List.mem_flatMap.mp h
    have hb := b.toNat_lt
    simp only [percentByte, List.mem_cons, List.not_mem_nil, or_false] at hc
    rcases hc with rfl | rfl | rfl
    · decide
    · exact isComponentUnit_hex (by omega)
    · exact isComponentUnit_hex (Nat.mod_lt _ (by decide))

theorem isComponentUnit_encode {s t : JsString} (h : encodeURIComponent s = some t) :
    ∀ c ∈ t, isComponentUnit c = true := by
  obtain ⟨ns, -, rfl⟩ := Option.map_eq_some_iff.mp h
  intro c hc
  obtain ⟨n, -, hc⟩ := List.mem_flatMap.mp hc
  exact isComponentUnit_encodeCodePoint hc

-- ---------------------------------------------------------------------------
-- Escapes undone
-- ---------------------------------------------------------------------------

theorem hexValue_upperHexDigit {n : Nat} (h : n < 16) : Json.hexValue (upperHexDigit n) = some n :=
  (by decide : ∀ n < 16, Json.hexValue (upperHexDigit n) = some n) n h

theorem escapedByte_percentByte (b : UInt8) (s : JsString) :
    escapedByte (percentByte b ++ s) = some (b, s) := by
  have hb := b.toNat_lt
  have hbyte : UInt8.ofNat (b.toNat / 16 * 16 + b.toNat % 16) = b := by
    rw [Nat.div_add_mod', UInt8.ofNat_toNat]
  simp only [percentByte, List.cons_append, List.nil_append, escapedByte, if_true,
    hexValue_upperHexDigit (show b.toNat / 16 < 16 by omega),
    hexValue_upperHexDigit (show b.toNat % 16 < 16 by omega), Option.bind_eq_bind,
    Option.bind_some, hbyte]
  rfl

theorem yields_escapedByte (bytes : List UInt8) (rest : JsString) :
    Yields escapedByte (bytes.flatMap percentByte ++ rest) bytes rest := by
  induction bytes with
  | nil => rfl
  | cons b bytes ih =>
    refine ⟨bytes.flatMap percentByte ++ rest, ?_, ih⟩
    rw [List.flatMap_cons, List.append_assoc]
    exact escapedByte_percentByte b _

theorem decodeURIComponentFuel_flatMap {ns : List Nat} (hns : ∀ n ∈ ns, IsScalar n) {fuel : Nat}
    (hfuel : (ns.flatMap encodeCodePoint).length ≤ fuel) :
    decodeURIComponentFuel fuel (ns.flatMap encodeCodePoint) =
      some (ns.flatMap codePointUnits) := by
  induction ns generalizing fuel with
  | nil => cases fuel <;> rfl
  | cons n ns ih =>
    obtain ⟨hn, hns⟩ := List.forall_mem_cons.mp hns
    rw [List.flatMap_cons] at hfuel ⊢
    by_cases hplain : isUnescaped n = true
    · obtain ⟨hascii, -, hunit⟩ := unescaped_spec hplain
      have hunits : codePointUnits n = [.ofNat n] := if_pos (by omega)
      rw [encodeCodePoint, if_pos hplain, List.singleton_append] at hfuel ⊢
      cases fuel with
      | zero => cases hfuel
      | succ fuel =>
        rw [decodeURIComponentFuel, if_neg hunit, ih hns (Nat.le_of_succ_le_succ hfuel),
          Option.map_some, List.flatMap_cons, hunits]
        rfl
    · have hread := readCodePoint_yields hn
        (yields_escapedByte (utf8CodePoint n) (ns.flatMap encodeCodePoint))
      rw [encodeCodePoint, if_neg hplain] at hfuel ⊢
      obtain ⟨b, bytes, hbytes⟩ := List.exists_cons_of_ne_nil (utf8CodePoint_ne_nil n)
      rw [hbytes] at hfuel hread ⊢
      simp only [List.flatMap_cons, percentByte, List.cons_append, List.nil_append] at hfuel hread ⊢
      cases fuel with
      | zero => cases hfuel
      | succ fuel =>
        have hrest : (ns.flatMap encodeCodePoint).length ≤ fuel := by
          simp only [List.length_cons, List.length_append] at hfuel
          omega
        rw [decodeURIComponentFuel, if_pos rfl, hread, Option.bind_eq_bind, Option.bind_some]
        simp only [ih hns hrest, Option.bind_eq_bind, Option.bind_some]
        rfl

theorem decodeURIComponent_encode {s t : JsString} (h : encodeURIComponent s = some t) :
    decodeURIComponent t = some s := by
  obtain ⟨ns, hns, rfl⟩ := Option.map_eq_some_iff.mp h
  obtain ⟨hscalar, hunits, -⟩ := codePoints_spec hns
  exact (decodeURIComponentFuel_flatMap hscalar (Nat.le_refl _)).trans (congrArg some hunits)

end McpGateway.Js
