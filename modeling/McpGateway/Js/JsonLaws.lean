import McpGateway.Js.Json
import McpGateway.Lib.Codec

/-!
# Reading JSON text back

A quoted string is decoded by the parser's own string reader, so it ends where
its closing quote stands. From that, and from what the language guarantees of
the text of a number, the text of a value determines the value: `stringify`
reads back on every value whose numbers are finite and not `-0`.
-/

namespace McpGateway.Js.Json

open Codec

-- ---------------------------------------------------------------------------
-- Strings
-- ---------------------------------------------------------------------------

theorem hexValue_hexDigit (h : n < 16) : hexValue (hexDigit n) = some n :=
  (by decide : ∀ n < 16, hexValue (hexDigit n) = some n) n h

theorem unicodeEscape?_hexDigits (c : CodeUnit) :
    unicodeEscape? (hexDigit (c.toNat / 4096)) (hexDigit (c.toNat / 256 % 16))
      (hexDigit (c.toNat / 16 % 16)) (hexDigit (c.toNat % 16)) = some c := by
  have hc : c.toNat < 65536 := c.toNat_lt
  have hsum : ((c.toNat / 4096 * 16 + c.toNat / 256 % 16) * 16 + c.toNat / 16 % 16) * 16 +
      c.toNat % 16 = c.toNat := by omega
  rw [unicodeEscape?, hexValue_hexDigit (by omega), hexValue_hexDigit (by omega),
    hexValue_hexDigit (by omega), hexValue_hexDigit (by omega)]
  show some (UInt16.ofNat _) = some c
  rw [hsum, UInt16.ofNat_toNat]

theorem shortEscape?_of_mem : ∀ e ∈ shortEscapes,
    e.1 ≠ unit 'u' ∧ shortEscape? e.1 = some e.2 := by
  decide

theorem stringBody_quote (x : JsString) : stringBody (doubleQuote :: x) = some ([], x) := by
  rw [stringBody.eq_def]
  simp

theorem stringBody_plain (hq : c ≠ doubleQuote) (hb : c ≠ backslash) (hc : ¬ c < 0x20)
    (r : JsString) : stringBody (c :: r) = (stringBody r).map fun b => (c :: b.1, b.2) := by
  rw [stringBody.eq_def]
  simp [hq, hb, hc]

theorem stringBody_short (hu : e ≠ unit 'u') (he : shortEscape? e = some u) (r : JsString) :
    stringBody (backslash :: e :: r) = (stringBody r).map fun b => (u :: b.1, b.2) := by
  rw [stringBody.eq_def]
  simp only [show (backslash = doubleQuote) = False by decide, hu, he, ↓reduceIte]
  cases stringBody r <;> rfl

theorem stringBody_unicode (he : unicodeEscape? x y z w = some u) (r : JsString) :
    stringBody (backslash :: unit 'u' :: x :: y :: z :: w :: r) =
      (stringBody r).map fun b => (u :: b.1, b.2) := by
  rw [stringBody.eq_def]
  simp only [show (backslash = doubleQuote) = False by decide, he, ↓reduceIte]
  cases stringBody r <;> rfl

theorem stringBody_encodeUnit (c : CodeUnit) (r : JsString) :
    stringBody (encodeUnit c ++ r) = (stringBody r).map fun b => (c :: b.1, b.2) := by
  unfold encodeUnit
  cases hfind : shortEscapes.find? (·.2 == c) with
  | some e =>
    obtain ⟨hu, hs⟩ := shortEscape?_of_mem e (List.mem_of_find?_eq_some hfind)
    have hc : e.2 = c := by simpa using List.find?_some hfind
    exact stringBody_short hu (hs.trans (congrArg some hc)) r
  | none =>
    have hplain : c ≠ doubleQuote ∧ c ≠ backslash := by
      refine ⟨?_, ?_⟩ <;> rintro rfl <;> exact absurd hfind (by decide)
    dsimp only
    split
    · exact stringBody_unicode (unicodeEscape?_hexDigits c) r
    · next h =>
      simp only [not_or] at h
      exact stringBody_plain hplain.1 hplain.2 h.1 r

theorem surrogate_ge (h : (isHighSurrogate c || isLowSurrogate c) = true) : 0xD800 ≤ c.toNat := by
  simp only [isHighSurrogate, isLowSurrogate, Bool.or_eq_true, Bool.and_eq_true, decide_eq_true_eq,
    UInt16.le_iff_toNat_le] at h
  have h1 : (0xD800 : CodeUnit).toNat = 0xD800 := rfl
  have h2 : (0xDC00 : CodeUnit).toNat = 0xDC00 := rfl
  omega

theorem stringBody_surrogate (h : (isHighSurrogate c || isLowSurrogate c) = true) (r : JsString) :
    stringBody (c :: r) = (stringBody r).map fun b => (c :: b.1, b.2) := by
  have hge := surrogate_ge h
  refine stringBody_plain ?_ ?_ ?_ r
  · rintro rfl
    exact absurd hge (by decide)
  · rintro rfl
    exact absurd hge (by decide)
  · rw [UInt16.lt_iff_toNat_lt]
    have h1 : (0x20 : CodeUnit).toNat = 0x20 := rfl
    omega

theorem stringBody_encodeUnits (s x : JsString) :
    stringBody (encodeUnits s ++ doubleQuote :: x) = some (s, x) := by
  fun_induction encodeUnits s with
  | case1 => exact stringBody_quote x
  | case2 c => rw [stringBody_encodeUnit, stringBody_quote]; rfl
  | case3 c d s h ih =>
    obtain ⟨hc, hd⟩ := Bool.and_eq_true_iff.mp h
    rw [List.cons_append, List.cons_append, stringBody_surrogate (by simp [hc]),
      stringBody_surrogate (by simp [hd]), ih]
    rfl
  | case4 c d s h ih =>
    rw [List.append_assoc, stringBody_encodeUnit, ih]
    rfl

theorem quote_readsBack (s : JsString) : ReadsBack (fun _ => True) quote Always s := by
  refine ReadsBack.of_decoder (fun t => stringBody t.tail) ?_ trivial
  intro v x _
  simpa [quote] using stringBody_encodeUnits v x

-- ---------------------------------------------------------------------------
-- Values
-- ---------------------------------------------------------------------------

/-- Every number of the value is finite and none is `-0`: the values a canonical
text is written for. -/
def Plain : Json → Prop
  | .number n => ∃ q, n = .finite q
  | .array items => PlainAll items
  | .object props => PlainProps props
  | _ => True
where
  PlainAll : List Json → Prop
    | [] => True
    | v :: vs => Plain v ∧ PlainAll vs
  PlainProps : List (JsString × Json) → Prop
    | [] => True
    | p :: ps => Plain p.2 ∧ PlainProps ps

theorem plainAll_iff : Plain.PlainAll vs ↔ ∀ v ∈ vs, Plain v := by
  induction vs with
  | nil => simp [Plain.PlainAll]
  | cons v vs ih => simp [Plain.PlainAll, ih]

theorem plainProps_iff : Plain.PlainProps ps ↔ ∀ p ∈ ps, Plain p.2 := by
  induction ps with
  | nil => simp [Plain.PlainProps]
  | cons p ps ih => simp only [Plain.PlainProps, ih, List.forall_mem_cons]

inductive Shape
  | null | boolean (b : Bool) | number | string | array | object
  deriving DecidableEq

def shape : Json → Shape
  | .null => .null
  | .boolean b => .boolean b
  | .number _ => .number
  | .string _ => .string
  | .array _ => .array
  | .object _ => .object

def shapeAt (c : CodeUnit) : Shape :=
  if isNumberUnit c then .number
  else if c = doubleQuote then .string
  else if c = leftBracket then .array
  else if c = leftBrace then .object
  else if c = unit 't' then .boolean true
  else if c = unit 'f' then .boolean false
  else .null

section
variable {numberText : ℚ → JsString} (hnum : NumberText numberText)
include hnum

theorem stringify_head (hv : Plain v) :
    ∃ c s, stringify numberText v = c :: s ∧ shapeAt c = shape v ∧ c ≠ rightBracket := by
  cases v with
  | null => exact ⟨_, _, rfl, rfl, by decide⟩
  | boolean b => cases b <;> exact ⟨_, _, rfl, rfl, by decide⟩
  | number n =>
    obtain ⟨q, rfl⟩ := hv
    cases ht : numberText q with
    | nil => exact absurd ht (hnum.nonempty q)
    | cons c s =>
      have hc := hnum.units q c (by simp [ht])
      refine ⟨c, s, ht, ?_, ?_⟩
      · simp [shapeAt, hc, shape]
      · rintro rfl
        exact absurd hc (by decide)
  | string s => exact ⟨_, _, rfl, rfl, by decide⟩
  | array items => exact ⟨_, _, rfl, rfl, by decide⟩
  | object props => exact ⟨_, _, rfl, rfl, by decide⟩

theorem shape_eq (hv : Plain v) (hw : Plain w)
    (he : stringify numberText v ++ x = stringify numberText w ++ y) : shape v = shape w := by
  obtain ⟨c, s, hc, hcv, -⟩ := stringify_head hnum hv
  obtain ⟨d, t, hd, hdw, -⟩ := stringify_head hnum hw
  rw [hc, hd] at he
  rw [← hcv, ← hdw, (List.cons.inj he).1]

end

section
variable (numberText : ℚ → JsString)

def propText (p : JsString × Json) : JsString := quote p.1 ++ [colon] ++ stringify numberText p.2

theorem joinComma_close (close : CodeUnit) (code : α → JsString) (as : List α) :
    joinComma (as.map code) ++ [close] = separated comma close code as := by
  induction as with
  | nil => rfl
  | cons a as ih =>
    cases as with
    | nil => rfl
    | cons b bs =>
      simp only [List.map_cons, joinComma, List.append_assoc, List.cons_append] at ih ⊢
      rw [ih]
      simp [separated, remainder]

theorem stringifyAll_eq (vs : List Json) :
    stringify.stringifyAll numberText vs = vs.map (stringify numberText) := by
  induction vs with
  | nil => rfl
  | cons v vs ih => rw [stringify.stringifyAll, ih, List.map_cons]

theorem stringifyProps_eq (ps : List (JsString × Json)) :
    stringify.stringifyProps numberText ps = ps.map (propText numberText) := by
  induction ps with
  | nil => rfl
  | cons p ps ih => simp [stringify.stringifyProps, ih, propText]

theorem stringify_array (vs : List Json) :
    stringify numberText (.array vs) =
      leftBracket :: separated comma rightBracket (stringify numberText) vs := by
  rw [stringify, stringifyAll_eq, List.cons_append, joinComma_close]

theorem stringify_object (ps : List (JsString × Json)) :
    stringify numberText (.object ps) =
      leftBrace :: separated comma rightBrace (propText numberText) ps := by
  rw [stringify, stringifyProps_eq, List.cons_append, joinComma_close]

end

section
variable {numberText : ℚ → JsString}

theorem propText_readsBack (key : JsString)
    (hv : ReadsBack Plain (stringify numberText) (Outside isNumberUnit) v) (hp : Plain v) :
    ReadsBack (fun p => Plain p.2) (propText numberText) (Outside isNumberUnit) (key, v) := by
  have hkey := (quote_readsBack key).closed [colon] (fun _ => trivial)
  exact fun p x y hb => hkey.pair hv (fun _ _ _ _ => trivial) hp p x y ⟨trivial, hb⟩

mutual

/-- The text of a value determines the value, before any unit a number cannot
go on with. -/
theorem stringify_readsBack (hnum : NumberText numberText) : ∀ v, Plain v →
    ReadsBack Plain (stringify numberText) (Outside isNumberUnit) v
  | .null, _ => by
    intro w x y hw _ _ he
    have hs := shape_eq hnum (v := .null) trivial hw he
    cases w <;> simp [shape] at hs
    exact ⟨rfl, List.append_cancel_left he⟩
  | .boolean b, _ => by
    intro w x y hw _ _ he
    have hs := shape_eq hnum (v := .boolean b) trivial hw he
    cases w <;> simp [shape] at hs
    subst hs
    exact ⟨rfl, List.append_cancel_left he⟩
  | .number n, hv => by
    intro w x y hw hx hy he
    have hs := shape_eq hnum hv hw he
    cases w <;> simp [shape] at hs
    obtain ⟨q, rfl⟩ := hv
    obtain ⟨r, rfl⟩ := hw
    have hread : ReadsBack (fun _ => True) numberText (Outside isNumberUnit) q :=
      ReadsBack.of_class isNumberUnit (fun v _ => hnum.units v)
        (fun _ _ _ _ h => hnum.injective h) trivial
    obtain ⟨rfl, hxy⟩ := hread r x y trivial hx hy he
    exact ⟨rfl, hxy⟩
  | .string s, _ => by
    intro w x y hw _ _ he
    have hs := shape_eq hnum (v := .string s) trivial hw he
    cases w <;> simp [shape] at hs
    obtain ⟨rfl, hxy⟩ := quote_readsBack s _ x y trivial trivial trivial he
    exact ⟨rfl, hxy⟩
  | .array vs, hv => by
    intro w x y hw hx hy he
    have hs := shape_eq hnum hv hw he
    cases w <;> simp [shape] at hs
    next ws =>
    rw [stringify_array, stringify_array] at he
    have hvs := plainAll_iff.mp hv
    have hlist := ReadsBack.separated comma rightBracket
      (fun _ => outside_cons.mpr (by decide)) (fun _ => outside_cons.mpr (by decide)) (by decide)
      (fun v h => (stringify_head hnum h).imp fun c hc => hc.imp fun s hs => ⟨hs.1, hs.2.2⟩)
      hvs (stringifyAll_readsBack hnum vs hvs)
    obtain ⟨rfl, hxy⟩ := hlist ws x y (plainAll_iff.mp hw) trivial trivial (List.cons.inj he).2
    exact ⟨rfl, hxy⟩
  | .object ps, hv => by
    intro w x y hw hx hy he
    have hs := shape_eq hnum hv hw he
    cases w <;> simp [shape] at hs
    next qs =>
    rw [stringify_object, stringify_object] at he
    have hps := plainProps_iff.mp hv
    have hlist := ReadsBack.separated comma rightBrace
      (fun _ => outside_cons.mpr (by decide)) (fun _ => outside_cons.mpr (by decide)) (by decide)
      (fun p _ => ⟨doubleQuote, _, rfl, by decide⟩) hps (stringifyProps_readsBack hnum ps hps)
    obtain ⟨rfl, hxy⟩ := hlist qs x y (plainProps_iff.mp hw) trivial trivial (List.cons.inj he).2
    exact ⟨rfl, hxy⟩

theorem stringifyAll_readsBack (hnum : NumberText numberText) :
    ∀ vs : List Json, (∀ v ∈ vs, Plain v) →
    ∀ v ∈ vs, ReadsBack Plain (stringify numberText) (Outside isNumberUnit) v
  | [], _ => by simp
  | v :: vs, h => by
    rw [List.forall_mem_cons] at h ⊢
    exact ⟨stringify_readsBack hnum v h.1, stringifyAll_readsBack hnum vs h.2⟩

theorem stringifyProps_readsBack (hnum : NumberText numberText) :
    ∀ ps : List (JsString × Json), (∀ p ∈ ps, Plain p.2) →
    ∀ p ∈ ps, ReadsBack (fun p => Plain p.2) (propText numberText) (Outside isNumberUnit) p
  | [], _ => by simp
  | (key, v) :: ps, h => by
    rw [List.forall_mem_cons] at h ⊢
    exact ⟨propText_readsBack key (stringify_readsBack hnum v h.1) h.1,
      stringifyProps_readsBack hnum ps h.2⟩

end

theorem stringify_injective (hnum : NumberText numberText) (hv : Plain v) (hw : Plain w)
    (he : stringify numberText v = stringify numberText w) : v = w :=
  (stringify_readsBack hnum v hv).eq hw (outside_nil _) he

end

-- ---------------------------------------------------------------------------
-- Properties
-- ---------------------------------------------------------------------------

theorem lookup_setProp {key name : JsString} {v : Json} {props : List (JsString × Json)} :
    (setProp key v props).lookup name = if name = key then some v else props.lookup name := by
  induction props with
  | nil =>
    unfold setProp
    by_cases h : name = key
    · simp [h]
    · simp [List.lookup_cons, h, beq_false_of_ne h]
  | cons q props ih =>
    obtain ⟨other, w⟩ := q
    unfold setProp
    by_cases hother : other = key
    · subst hother
      by_cases h : name = other
      · simp [h]
      · simp [List.lookup_cons, h, beq_false_of_ne h]
    · simp only [hother, if_false]
      by_cases h : name = other
      · subst h
        simp [hother]
      · simp [List.lookup_cons, ih, beq_false_of_ne h]

end McpGateway.Js.Json
