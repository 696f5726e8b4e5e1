import McpGateway.Js.JsonLaws

/-!
# Storing JSON text in a `jsonb` column

PostgreSQL takes the text `JSON.stringify` writes, except that a `jsonb` string
cannot hold U+0000 and has no unpaired surrogates: it refuses the escapes that
stand for them. `JSON.stringify` writes such an escape exactly for a string or
a key that contains one of them.
-/

namespace McpGateway.Js

open Codec

/-- The escapes of a JSON text are ones a `jsonb` column takes. A high surrogate
has to be followed by the escape of a low one. -/
def jsonbAccepts : JsString → Bool
  | [] => true
  | c :: s =>
    if c ≠ backslash then jsonbAccepts s
    else
      match s with
      | e :: x :: y :: z :: w :: t =>
        if e ≠ unit 'u' then jsonbAccepts (x :: y :: z :: w :: t)
        else
          match Json.unicodeEscape? x y z w with
          | none => false
          | some u =>
            if u = 0 ∨ isLowSurrogate u then false
            else if isHighSurrogate u then
              match t with
              | b :: e' :: x' :: y' :: z' :: w' :: r =>
                b == backslash && e' == unit 'u' &&
                  (Json.unicodeEscape? x' y' z' w').any isLowSurrogate && jsonbAccepts r
              | _ => false
            else jsonbAccepts t
      | e :: t => e ≠ unit 'u' && jsonbAccepts t
      | [] => false

def isStorable : JsString → Bool
  | [] => true
  | [c] => c ≠ 0 && !isHighSurrogate c && !isLowSurrogate c
  | c :: d :: s =>
    if isHighSurrogate c && isLowSurrogate d then isStorable s
    else c ≠ 0 && !isHighSurrogate c && !isLowSurrogate c && isStorable (d :: s)

def Json.isStorable : Json → Bool
  | .string s => Js.isStorable s
  | .array items => all items
  | .object props => allProps props
  | _ => true
where
  all : List Json → Bool
    | [] => true
    | v :: vs => v.isStorable && all vs
  allProps : List (JsString × Json) → Bool
    | [] => true
    | (key, v) :: ps => Js.isStorable key && v.isStorable && allProps ps

-- ---------------------------------------------------------------------------
-- One symbol of the text
-- ---------------------------------------------------------------------------

theorem jsonbAccepts_plain (h : c ≠ backslash) (s : JsString) :
    jsonbAccepts (c :: s) = jsonbAccepts s := by
  rw [jsonbAccepts.eq_def]
  simp only [ne_eq, h, not_false_eq_true, ↓reduceIte]

theorem jsonbAccepts_short (h : e ≠ unit 'u') (s : JsString) :
    jsonbAccepts (backslash :: e :: s) = jsonbAccepts s := by
  rw [jsonbAccepts.eq_def]
  simp only [ne_eq, not_true_eq_false, ↓reduceIte]
  split
  · next heq =>
    obtain ⟨rfl, rfl⟩ := List.cons.inj heq
    rw [if_pos h]
  · next heq =>
    obtain ⟨rfl, rfl⟩ := List.cons.inj heq
    simp [h]
  · next heq => cases heq

def startsWithLow : JsString → Bool
  | b :: e :: x :: y :: z :: w :: _ =>
    b == backslash && e == unit 'u' && (Json.unicodeEscape? x y z w).any isLowSurrogate
  | _ => false

theorem jsonbAccepts_unicode (c : CodeUnit) (s : JsString) :
    jsonbAccepts (Json.unicodeEscape c ++ s) =
      if c = 0 ∨ isLowSurrogate c then false
      else if isHighSurrogate c then startsWithLow s && jsonbAccepts (s.drop 6)
      else jsonbAccepts s := by
  have hc := Json.unicodeEscape?_hexDigits c
  simp only [Json.unicodeEscape, List.cons_append, List.nil_append]
  rw [jsonbAccepts.eq_def]
  simp only [ne_eq, not_true_eq_false, ↓reduceIte, hc]
  split
  · rfl
  · split
    · split
      · next h => simp [startsWithLow]
      · next h =>
        unfold startsWithLow
        split
        · exact absurd rfl (h _ _ _ _ _ _ _)
        · rfl
    · rfl

theorem startsWithLow_plain (h : c ≠ backslash) (s : JsString) : startsWithLow (c :: s) = false := by
  unfold startsWithLow
  split
  · next heq =>
    obtain ⟨rfl, -⟩ := List.cons.inj heq
    simp [h]
  · rfl

theorem startsWithLow_short (h : e ≠ unit 'u') (s : JsString) :
    startsWithLow (backslash :: e :: s) = false := by
  unfold startsWithLow
  split
  · next heq =>
    obtain ⟨-, htail⟩ := List.cons.inj heq
    obtain ⟨rfl, -⟩ := List.cons.inj htail
    simp [h]
  · rfl

-- ---------------------------------------------------------------------------
-- Strings
-- ---------------------------------------------------------------------------

/-- How a code unit is written: a short escape, the escape of its digits, or
itself. -/
theorem encodeUnit_cases (c : CodeUnit) :
    (∃ e, e ≠ unit 'u' ∧ Json.encodeUnit c = [backslash, e] ∧ c ≠ 0 ∧
      isHighSurrogate c = false ∧ isLowSurrogate c = false) ∨
    Json.encodeUnit c = Json.unicodeEscape c ∨
    (Json.encodeUnit c = [c] ∧ c ≠ backslash ∧ c ≠ 0 ∧ isHighSurrogate c = false ∧
      isLowSurrogate c = false) := by
  unfold Json.encodeUnit
  cases hfind : Json.shortEscapes.find? (·.2 == c) with
  | some e =>
    have hc : e.2 = c := by simpa using List.find?_some hfind
    have hspec : ∀ e ∈ Json.shortEscapes, e.1 ≠ unit 'u' ∧ e.2 ≠ 0 ∧
        isHighSurrogate e.2 = false ∧ isLowSurrogate e.2 = false := by decide
    obtain ⟨hu, h0, hh, hl⟩ := hspec e (List.mem_of_find?_eq_some hfind)
    rw [hc] at h0 hh hl
    exact .inl ⟨e.1, hu, rfl, h0, hh, hl⟩
  | none =>
    dsimp only
    split
    · exact .inr (.inl rfl)
    · next h =>
      simp only [not_or, Bool.not_eq_true] at h
      refine .inr (.inr ⟨rfl, ?_, ?_, h.2⟩)
      · rintro rfl
        exact absurd hfind (by decide)
      · rintro rfl
        exact absurd h.1 (by decide)

theorem jsonbAccepts_encodeUnit (c : CodeUnit) (s : JsString) :
    jsonbAccepts (Json.encodeUnit c ++ s) =
      if c = 0 ∨ isLowSurrogate c then false
      else if isHighSurrogate c then startsWithLow s && jsonbAccepts (s.drop 6)
      else jsonbAccepts s := by
  obtain ⟨e, hu, henc, h0, hh, hl⟩ | henc | ⟨henc, hb, h0, hh, hl⟩ := encodeUnit_cases c
  · rw [henc]
    simpa [h0, hh, hl] using jsonbAccepts_short hu s
  · rw [henc]
    exact jsonbAccepts_unicode c s
  · rw [henc]
    simpa [h0, hh, hl] using jsonbAccepts_plain hb s

theorem startsWithLow_encodeUnit (h : isLowSurrogate c = false) (s : JsString) :
    startsWithLow (Json.encodeUnit c ++ s) = false := by
  obtain ⟨e, hu, henc, -⟩ | henc | ⟨henc, hb, -⟩ := encodeUnit_cases c
  · rw [henc]
    exact startsWithLow_short hu s
  · rw [henc]
    simp [Json.unicodeEscape, startsWithLow, Json.unicodeEscape?_hexDigits, h]
  · rw [henc]
    exact startsWithLow_plain hb s

theorem surrogate_ne_backslash (h : (isHighSurrogate c || isLowSurrogate c) = true) :
    c ≠ backslash := by
  rintro rfl
  exact absurd h (by decide)

theorem startsWithLow_encodeUnits (h : ∀ c ∈ s.head?, isLowSurrogate c = false) (x : JsString) :
    startsWithLow (Json.encodeUnits s ++ doubleQuote :: x) = false := by
  unfold Json.encodeUnits
  split
  · exact startsWithLow_plain (by decide) x
  · exact startsWithLow_encodeUnit (h _ rfl) _
  · split
    · next hpair =>
      rw [Bool.and_eq_true] at hpair
      exact startsWithLow_plain (surrogate_ne_backslash (by simp [hpair.1])) _
    · rw [List.append_assoc]
      exact startsWithLow_encodeUnit (h _ rfl) _

theorem jsonbAccepts_encodeUnits (s x : JsString) :
    jsonbAccepts (Json.encodeUnits s ++ doubleQuote :: x) = (isStorable s && jsonbAccepts x) := by
  have hquote : jsonbAccepts (doubleQuote :: x) = jsonbAccepts x := jsonbAccepts_plain (by decide) x
  fun_induction Json.encodeUnits s with
  | case1 => simpa [isStorable] using hquote
  | case2 c =>
    rw [jsonbAccepts_encodeUnit, startsWithLow_plain (by decide), hquote]
    by_cases h0 : c = 0 <;> cases hl : isLowSurrogate c <;> cases hh : isHighSurrogate c <;>
      simp [isStorable, h0, hl, hh]
  | case3 c d s h ih =>
    obtain ⟨hc, hd⟩ := Bool.and_eq_true_iff.mp h
    rw [List.cons_append, List.cons_append,
      jsonbAccepts_plain (surrogate_ne_backslash (by simp [hc])),
      jsonbAccepts_plain (surrogate_ne_backslash (by simp [hd])), ih, isStorable, if_pos h]
  | case4 c d s h ih =>
    rw [List.append_assoc, jsonbAccepts_encodeUnit, ih, isStorable, if_neg h]
    cases hh : isHighSurrogate c with
    | true =>
      have hd : isLowSurrogate d = false := by simpa [hh] using h
      rw [startsWithLow_encodeUnits (by simpa using hd)]
      simp
    | false =>
      by_cases h0 : c = 0
      · simp [h0]
      · cases hl : isLowSurrogate c <;> simp [h0]

-- ---------------------------------------------------------------------------
-- Values
-- ---------------------------------------------------------------------------

theorem jsonbAccepts_quote (s x : JsString) :
    jsonbAccepts (Json.quote s ++ x) = (isStorable s && jsonbAccepts x) := by
  rw [← jsonbAccepts_encodeUnits, Json.quote, List.append_assoc, List.cons_append,
    List.cons_append, List.nil_append, jsonbAccepts_plain (by decide)]

theorem jsonbAccepts_append (h : ∀ c ∈ s, c ≠ backslash) (x : JsString) :
    jsonbAccepts (s ++ x) = jsonbAccepts x := by
  induction s with
  | nil => rfl
  | cons c s ih =>
    rw [List.forall_mem_cons] at h
    rw [List.cons_append, jsonbAccepts_plain h.1, ih h.2]

section
variable {numberText : ℚ → JsString}

theorem jsonbAccepts_encodeNumber (hnum : NumberText numberText) (n : JsNumber) (x : JsString) :
    jsonbAccepts (Json.encodeNumber numberText n ++ x) = jsonbAccepts x := by
  refine jsonbAccepts_append (fun c hc => ?_) x
  unfold Json.encodeNumber at hc
  split at hc
  · rintro rfl
    exact absurd (hnum.units _ _ hc) (by decide)
  · exact (by decide : ∀ c ∈ js "null", c ≠ backslash) c hc

theorem jsonbAccepts_separated {code : α → JsString} {ok : α → Bool} {close : CodeUnit}
    (hclose : close ≠ backslash) {as : List α}
    (h : ∀ a ∈ as, ∀ x, jsonbAccepts (code a ++ x) = (ok a && jsonbAccepts x)) (x : JsString) :
    jsonbAccepts (separated comma close code as ++ x) = (as.all ok && jsonbAccepts x) := by
  have hrest : ∀ as : List α,
      (∀ a ∈ as, ∀ x, jsonbAccepts (code a ++ x) = (ok a && jsonbAccepts x)) →
      jsonbAccepts (remainder comma close code as ++ x) = (as.all ok && jsonbAccepts x) := by
    intro as h
    induction as with
    | nil => simpa [remainder] using jsonbAccepts_plain hclose x
    | cons a as ih =>
      rw [List.forall_mem_cons] at h
      rw [remainder, List.cons_append, List.cons_append, List.append_assoc,
        jsonbAccepts_plain (by decide), h.1, ih h.2, List.all_cons, Bool.and_assoc]
  cases as with
  | nil => simpa [separated] using jsonbAccepts_plain hclose x
  | cons a as =>
    rw [List.forall_mem_cons] at h
    rw [separated, List.append_assoc, h.1, hrest as h.2, List.all_cons, Bool.and_assoc]

theorem isStorable_all (vs : List Json) : Json.isStorable.all vs = vs.all Json.isStorable := by
  induction vs with
  | nil => rfl
  | cons v vs ih => rw [Json.isStorable.all, ih, List.all_cons]

theorem isStorable_allProps (ps : List (JsString × Json)) :
    Json.isStorable.allProps ps = ps.all fun p => isStorable p.1 && p.2.isStorable := by
  induction ps with
  | nil => rfl
  | cons p ps ih => simp only [Json.isStorable.allProps, ih, List.all_cons]

mutual

/-- The text of a value is taken exactly when its strings and keys are storable. -/
theorem jsonbAccepts_stringify (hnum : NumberText numberText) : ∀ (v : Json) (x : JsString),
    jsonbAccepts (Json.stringify numberText v ++ x) = (v.isStorable && jsonbAccepts x)
  | .null, x => jsonbAccepts_append (by decide : ∀ c ∈ js "null", c ≠ backslash) x
  | .boolean true, x => jsonbAccepts_append (by decide : ∀ c ∈ js "true", c ≠ backslash) x
  | .boolean false, x => jsonbAccepts_append (by decide : ∀ c ∈ js "false", c ≠ backslash) x
  | .number n, x => jsonbAccepts_encodeNumber hnum n x
  | .string s, x => jsonbAccepts_quote s x
  | .array vs, x => by
    rw [Json.stringify_array, List.cons_append, jsonbAccepts_plain (by decide),
      jsonbAccepts_separated (by decide) (jsonbAccepts_stringifyAll hnum vs), Json.isStorable,
      isStorable_all]
  | .object ps, x => by
    rw [Json.stringify_object, List.cons_append, jsonbAccepts_plain (by decide),
      jsonbAccepts_separated (by decide) (jsonbAccepts_stringifyProps hnum ps), Json.isStorable,
      isStorable_allProps]

theorem jsonbAccepts_stringifyAll (hnum : NumberText numberText) : ∀ (vs : List Json), ∀ v ∈ vs,
    ∀ x, jsonbAccepts (Json.stringify numberText v ++ x) = (v.isStorable && jsonbAccepts x)
  | [] => by simp
  | v :: vs => by
    rw [List.forall_mem_cons]
    exact ⟨jsonbAccepts_stringify hnum v, jsonbAccepts_stringifyAll hnum vs⟩

theorem jsonbAccepts_stringifyProps (hnum : NumberText numberText) :
    ∀ (ps : List (JsString × Json)), ∀ p ∈ ps, ∀ x,
      jsonbAccepts (Json.propText numberText p ++ x) =
        ((isStorable p.1 && p.2.isStorable) && jsonbAccepts x)
  | [] => by simp
  | (key, v) :: ps => by
    rw [List.forall_mem_cons]
    refine ⟨fun x => ?_, jsonbAccepts_stringifyProps hnum ps⟩
    rw [Json.propText, List.append_assoc, List.append_assoc, jsonbAccepts_quote, List.cons_append,
      List.nil_append, jsonbAccepts_plain (by decide), jsonbAccepts_stringify hnum v,
      Bool.and_assoc]

end

end

end McpGateway.Js
