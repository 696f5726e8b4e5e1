import McpGateway.Lib.Words
import McpGateway.Salesforce.Grammar

/-!
# The text of a query

The units of the rendered parts: what none of the parser's cuts can be made at,
which parts are single words, how a part begins and ends.
-/

namespace McpGateway.Salesforce

open Js Words

-- ---------------------------------------------------------------------------
-- Code units
-- ---------------------------------------------------------------------------

theorem of_ascii {P : CodeUnit → Bool} (h : ∀ n < 128, P (UInt16.ofNat n) = true) {c : CodeUnit}
    (hc : c.toNat < 128) : P c = true := by
  have hn := h c.toNat hc
  rwa [UInt16.ofNat_toNat] at hn

theorem wordChar_ascii {c : CodeUnit} (h : isWordChar c = true) : c.toNat < 128 := by
  simp only [isWordChar, isLetter, isUpper, isLower, isDigit, Bool.or_eq_true, Bool.and_eq_true,
    decide_eq_true_eq, UInt16.le_iff_toNat_le, beq_iff_eq] at h
  rcases h with (h | h) | rfl
  · simp at h
    omega
  · simp at h
    omega
  · decide

def isPlain (c : CodeUnit) : Bool :=
  isWordChar c || c == hyphen || c == plusSign || c == fullStop

theorem plain_ascii {c : CodeUnit} (h : isPlain c = true) : c.toNat < 128 := by
  simp only [isPlain, Bool.or_eq_true, beq_iff_eq] at h
  rcases h with ((h | rfl) | rfl) | rfl
  · exact wordChar_ascii h
  all_goals decide

structure Inert (c : CodeUnit) : Prop where
  space : isSpace c = false
  comma : c ≠ Js.comma
  quote : c ≠ singleQuote
  semicolon : c ≠ Js.semicolon
  leftParen : c ≠ Js.leftParen
  rightParen : c ≠ Js.rightParen
  line : inLine c = true

theorem plain_inert {c : CodeUnit} (h : isPlain c = true) : Inert c := by
  have hall : ∀ n < 128, (!isPlain (UInt16.ofNat n) || (!isSpace (UInt16.ofNat n) &&
      UInt16.ofNat n != comma && UInt16.ofNat n != singleQuote && UInt16.ofNat n != semicolon &&
      UInt16.ofNat n != leftParen && UInt16.ofNat n != rightParen &&
      inLine (UInt16.ofNat n))) = true := by
    decide +kernel
  have hc := of_ascii (P := fun c => !isPlain c || (!isSpace c && c != comma && c != singleQuote &&
    c != semicolon && c != leftParen && c != rightParen && inLine c)) hall (plain_ascii h)
  simp only [h, Bool.not_true, Bool.false_or, Bool.and_eq_true, bne_iff_ne,
    Bool.not_eq_true'] at hc
  obtain ⟨⟨⟨⟨⟨⟨hspace, hcomma⟩, hquote⟩, hsemicolon⟩, hleft⟩, hright⟩, hline⟩ := hc
  exact ⟨hspace, hcomma, hquote, hsemicolon, hleft, hright, hline⟩

theorem wordChar_plain {c : CodeUnit} (h : isWordChar c = true) : isPlain c = true := by
  simp [isPlain, h]

theorem numberUnit_plain {c : CodeUnit} (h : isNumberUnit c = true) :
    isPlain c = true ∧ lower c = c := by
  simp only [isNumberUnit, Bool.or_eq_true, beq_iff_eq] at h
  rcases h with (((h | rfl) | rfl) | rfl) | rfl
  · have hword : isWordChar c = true := by simp [isWordChar, h]
    have hall : ∀ n < 128, (!isDigit (UInt16.ofNat n) ||
        lower (UInt16.ofNat n) == UInt16.ofNat n) = true := by
      decide +kernel
    have hc := of_ascii (P := fun c => !isDigit c || lower c == c) hall (wordChar_ascii hword)
    exact ⟨wordChar_plain hword, by simpa [h] using hc⟩
  all_goals decide

theorem startsName_wordChar {c : CodeUnit} (h : startsName c = true) : isWordChar c = true := by
  simp only [startsName, Bool.or_eq_true] at h
  simp only [isWordChar, Bool.or_eq_true]
  rcases h with h | h
  · exact .inl (.inl h)
  · exact .inr h

theorem isWord_of_plain {s : JsString} (hne : s ≠ []) (h : ∀ c ∈ s, isPlain c = true) :
    IsWord isSpace s :=
  ⟨hne, fun c hc => (plain_inert (h c hc)).space⟩

-- ---------------------------------------------------------------------------
-- Where a part begins and ends
-- ---------------------------------------------------------------------------

structure Solid (s : JsString) : Prop where
  first : ∃ c rest, s = c :: rest ∧ isSpace c = false
  last : ∃ rest c, s = rest ++ [c] ∧ isSpace c = false ∧ c ≠ semicolon

theorem Solid.of_plain {s : JsString} (hne : s ≠ []) (h : ∀ c ∈ s, isPlain c = true) : Solid s where
  first := by
    obtain ⟨c, rest, rfl⟩ := List.exists_cons_of_ne_nil hne
    exact ⟨c, rest, rfl, (plain_inert (h c List.mem_cons_self)).space⟩
  last := by
    have hinert := plain_inert (h _ (List.getLast_mem hne))
    exact ⟨s.dropLast, s.getLast hne, (List.dropLast_append_getLast hne).symm, hinert.space,
      hinert.semicolon⟩

theorem Solid.append {s t : JsString} (hs : Solid s) (ht : Solid t) (between : JsString) :
    Solid (s ++ (between ++ t)) := by
  obtain ⟨c, rest, rfl, hc⟩ := hs.first
  obtain ⟨rest', d, rfl, hd⟩ := ht.last
  exact ⟨⟨c, rest ++ (between ++ (rest' ++ [d])), rfl, hc⟩,
    ⟨c :: rest ++ (between ++ rest'), d, by simp, hd⟩⟩

theorem Solid.ne_nil {s : JsString} (h : Solid s) : s ≠ [] := by
  obtain ⟨c, rest, rfl, -⟩ := h.first
  exact List.cons_ne_nil c rest

theorem Solid.stopsAt {s : JsString} (h : Solid s) (rest : JsString) :
    Regex.StopsAt isSpace (s ++ rest) := by
  obtain ⟨c, s, rfl, hc⟩ := h.first
  rintro d ⟨⟩
  exact hc

theorem Solid.trim {s : JsString} (h : Solid s) : trim s = s := by
  obtain ⟨c, rest, hs, hc⟩ := h.first
  obtain ⟨rest', d, hs', hd, -⟩ := h.last
  have hstart : trimStart s = s := by
    rw [hs]
    exact List.dropWhile_cons_of_neg (by simp [hc])
  unfold Js.trim
  rw [hstart, hs']
  exact List.rdropWhile_concat_neg isSpace rest' d (by simp [hd])

theorem Solid.trimmedQuery {s : JsString} (h : Solid s) : trimmedQuery s = s := by
  obtain ⟨rest, c, hs, hc, hsemicolon⟩ := h.last
  unfold Salesforce.trimmedQuery Regex.removeFirst
  rw [h.trim]
  split
  · next start stop hexec =>
    -- a match would end the text with a semicolon or a space
    obtain ⟨hspot, hstop⟩ := Regex.exec_some hexec
    obtain ⟨m, hm, hstop⟩ := Regex.mem_ends_seq.mp hstop
    obtain ⟨m', hm', hstop⟩ := Regex.mem_ends_seq.mp hstop
    obtain ⟨hend, rfl⟩ := Regex.mem_ends_finish.mp hstop
    obtain ⟨d, tail, hstart, hd, hm⟩ : ∃ d tail, start.2 = d :: tail ∧ d = Js.semicolon ∧
        ∃ run, (∀ c ∈ run, (c == Js.semicolon) = true) ∧ tail = run ++ m.2 := by
      obtain ⟨p, hp, hm⟩ := Regex.mem_ends_seq.mp hm
      obtain ⟨d, tail, hstart, hd, rfl⟩ := Regex.mem_ends_one.mp hp
      obtain ⟨run, hrun, htail, -⟩ := Regex.mem_ends_many.mp hm
      exact ⟨d, tail, hstart, beq_iff_eq.mp hd, run, hrun, htail⟩
    obtain ⟨run, hrun, rfl⟩ := hm
    obtain ⟨run', hrun', hafter, -⟩ := Regex.mem_ends_many.mp hm'
    rw [hend, List.append_nil] at hafter
    have hlast : c ∈ d :: (run ++ run') := by
      have htext : start.1.reverse ++ (d :: (run ++ run')) = rest ++ [c] := by
        rw [← hs, ← hspot, hstart, hafter]
      have hgetLast := congrArg List.getLast? htext
      rw [List.getLast?_append_of_ne_nil _ (List.cons_ne_nil _ _), List.getLast?_concat] at hgetLast
      exact List.mem_of_getLast? hgetLast
    rcases List.mem_cons.mp hlast with rfl | hlast
    · exact absurd hd hsemicolon
    · rcases List.mem_append.mp hlast with hlast | hlast
      · exact absurd (beq_iff_eq.mp (hrun c hlast)) hsemicolon
      · rw [hrun' c hlast] at hc
        cases hc
  · rfl

-- ---------------------------------------------------------------------------
-- Names and literals
-- ---------------------------------------------------------------------------

theorem Identifier.cons (field : Identifier) :
    ∃ c cs, field.val = c :: cs ∧ startsName c = true ∧ ∀ d ∈ cs, isWordChar d = true := by
  obtain ⟨name, hname⟩ := field
  cases name with
  | nil => cases hname
  | cons c cs =>
    simp only [isFieldName, Bool.and_eq_true, List.all_eq_true] at hname
    exact ⟨c, cs, rfl, hname⟩

theorem Identifier.ne_nil (field : Identifier) : field.val ≠ [] := by
  obtain ⟨c, cs, hval, -⟩ := field.cons
  rw [hval]
  exact List.cons_ne_nil c cs

theorem Identifier.wordChars (field : Identifier) : ∀ c ∈ field.val, isWordChar c = true := by
  obtain ⟨c, cs, hval, hc, hcs⟩ := field.cons
  rw [hval]
  exact List.forall_mem_cons.mpr ⟨startsName_wordChar hc, hcs⟩

theorem Identifier.plain (field : Identifier) : ∀ c ∈ field.val, isPlain c = true :=
  fun c hc => wordChar_plain (field.wordChars c hc)

theorem Identifier.isWord (field : Identifier) : IsWord isSpace field.val :=
  isWord_of_plain field.ne_nil field.plain

theorem Identifier.solid (field : Identifier) : Solid field.val :=
  Solid.of_plain field.ne_nil field.plain

theorem Operator.isWord (operator : Operator) : IsWord isSpace operator.text := by
  cases operator <;> exact ⟨by decide, by decide⟩

def Literal.IsString : Literal → Prop
  | .string _ => True
  | _ => False

def reserved : List JsString := [js "and", js "or", js "order", js "limit"]

def constants : List JsString :=
  [js "NaN", js "Infinity", js "-Infinity", js "-0", js "true", js "false", js "null"]

theorem constants_plain : ∀ text ∈ constants,
    (text ≠ [] ∧ ∀ c ∈ text, isPlain c = true) ∧ toLowerCase text ∉ reserved := by
  decide

theorem Literal.constant (engine : Engine) (value : Literal) :
    value.IsString ∨ (∃ q, value = .number (.finite q)) ∨ value.render engine ∈ constants := by
  have hmem (i : Fin 7) : constants.get i ∈ constants := List.get_mem constants i
  cases value with
  | string s => exact .inl trivial
  | number n =>
    cases n with
    | nan => exact .inr (.inr (hmem 0))
    | infinity negative =>
      cases negative with
      | false => exact .inr (.inr (hmem 1))
      | true => exact .inr (.inr (hmem 2))
    | negZero => exact .inr (.inr (hmem 3))
    | finite q => exact .inr (.inl ⟨q, rfl⟩)
  | boolean b =>
    cases b with
    | true => exact .inr (.inr (hmem 4))
    | false => exact .inr (.inr (hmem 5))
  | null => exact .inr (.inr (hmem 6))

section
variable {engine : Engine} (hnum : NumberText engine.numberText)

include hnum

theorem Literal.plain {value : Literal} (h : ¬ value.IsString) :
    value.render engine ≠ [] ∧ ∀ c ∈ value.render engine, isPlain c = true := by
  rcases value.constant engine with hstring | ⟨q, rfl⟩ | hconstant
  · exact absurd hstring h
  · exact ⟨hnum.nonempty q, fun c hc => (numberUnit_plain (hnum.units q c hc)).1⟩
  · exact (constants_plain _ hconstant).1

theorem Literal.not_reserved {value : Literal} (h : ¬ value.IsString) :
    toLowerCase (value.render engine) ∉ reserved := by
  rcases value.constant engine with hstring | ⟨q, rfl⟩ | hconstant
  · exact absurd hstring h
  · -- each of the words has a letter that no number has
    have hletter : ∀ word ∈ reserved, ∃ c ∈ word, isNumberUnit c = false := by decide
    intro hmem
    obtain ⟨c, hc, hunit⟩ := hletter _ hmem
    obtain ⟨d, hd, rfl⟩ := List.mem_map.mp hc
    have hnumber : isNumberUnit d = true := hnum.units q d hd
    rw [(numberUnit_plain hnumber).2, hnumber] at hunit
    cases hunit
  · exact (constants_plain _ hconstant).2

theorem Literal.solid (value : Literal) : Solid (value.render engine) := by
  by_cases h : value.IsString
  · cases value with
    | string s =>
      exact ⟨⟨singleQuote, _, rfl, by decide⟩, ⟨singleQuote :: double s, singleQuote, rfl,
        by decide, by decide⟩⟩
    | number n => exact h.elim
    | boolean b => exact h.elim
    | null => exact h.elim
  · exact Solid.of_plain (value.plain hnum h).1 (value.plain hnum h).2

theorem Test.solid (test : Test) : Solid (test.render engine) := by
  cases test with
  | compare operator value scalar => exact value.solid hnum
  | isIn values =>
    exact ⟨⟨leftParen, _, rfl, by decide⟩, ⟨leftParen :: List.intercalate [comma]
      (values.map (Literal.render engine)), rightParen, rfl, by decide, by decide⟩⟩

theorem Condition.solid (condition : Condition) : Solid (condition.render engine) := by
  have hsolid := condition.field.solid.append (condition.test.solid hnum)
    (blank :: (condition.test.operator.text ++ [blank]))
  unfold Condition.render
  simpa using hsolid

theorem clause_solid (combinator : Combinator) {conditions : List Condition}
    (h : conditions ≠ []) : Solid (clause engine combinator conditions) := by
  induction conditions with
  | nil => exact absurd rfl h
  | cons condition conditions ih =>
    cases conditions with
    | nil => exact condition.solid hnum
    | cons next conditions =>
      have hsolid := (condition.solid hnum).append (ih (List.cons_ne_nil _ _))
        (blank :: (combinator.text ++ [blank]))
      show Solid (condition.render engine ++
        keyed combinator.text (clause engine combinator (next :: conditions)))
      unfold keyed
      simpa using hsolid

end

end McpGateway.Salesforce
