import McpGateway.Salesforce.Cuts
import McpGateway.Salesforce.SoqlLaws

/-!
# Parsing a rendered query

A query is read back from its text exactly when it is clear. Whatever the parser
returns has no cut in it, so a string with one cannot come back; without cuts the
parts that are found are the rendered ones.
-/

namespace McpGateway.Salesforce

open Js Words Shared

-- ---------------------------------------------------------------------------
-- Conditions
-- ---------------------------------------------------------------------------

def Test.read (engine : Engine) : Test → Operand
  | .compare _ value _ => .one (literal (value.render engine))
  | .isIn values =>
    .many (((List.intercalate [comma] (values.map (Literal.render engine))).splitOn comma).map
      fun item => literal (trim item))

def Condition.read (engine : Engine) (condition : Condition) : Comparison where
  field := condition.field.val
  operator := condition.test.operator
  value := condition.test.read engine

section
variable {before rest : JsString}

theorem field_first (field : Identifier) (h : Regex.StopsAt isWordChar rest) :
    Regex.First isWordChar (.seq (.one startsName) (.many isWordChar)) (before, field.val ++ rest)
      (field.val.reverse ++ before, rest) := by
  obtain ⟨c, cs, hval, hc, hcs⟩ := field.cons
  rw [hval, List.reverse_cons, List.append_assoc]
  exact .seq (Regex.first_one hc) (Regex.first_many hcs h)

theorem blanks_first (h : Regex.StopsAt isSpace rest) :
    Regex.First isWordChar (.many isSpace) (before, blank :: rest) (blank :: before, rest) := by
  have hrun : ∀ c ∈ [blank], isSpace c = true := by decide
  exact Regex.first_many hrun h

theorem keywords_nil {words : List String} {start : JsString}
    (h : ∀ word ∈ words, (toLowerCase start).take (js word).length ≠
      (toLowerCase (js word)).take start.length) :
    ∀ r ∈ words.map keyword, r.ends isWordChar (before, start ++ rest) = [] := by
  intro r hr
  obtain ⟨word, hword, rfl⟩ := List.mem_map.mp hr
  exact keyword_ends_nil (h word hword) before rest

theorem word_first {word : String} (hne : js word ≠ [])
    (hword : ∀ c ∈ js word, isWordChar c = true) :
    Regex.First isWordChar (.seq .boundary (.seq (keyword word) .boundary))
      (blank :: before, js word ++ blank :: rest)
      ((js word).reverse ++ blank :: before, blank :: rest) := by
  have hblank : isWordChar blank = false := by decide
  refine .seq (Regex.first_boundary ?_) (.seq (keyword_first word _ _) (Regex.first_boundary ?_))
  · obtain ⟨c, cs, hcs⟩ := List.exists_cons_of_ne_nil hne
    have hc := hword c (by rw [hcs]; exact List.mem_cons_self)
    rw [hcs]
    simp [Regex.atBoundary, hblank, hc]
  · obtain ⟨c, cs, hcs⟩ := List.exists_cons_of_ne_nil (List.reverse_ne_nil_iff.mpr hne)
    have hc := hword c (List.mem_reverse.mp (by rw [hcs]; exact List.mem_cons_self))
    rw [hcs]
    simp [Regex.atBoundary, hblank, hc]

theorem word_ends_nil {word : String} {start : JsString}
    (h : (toLowerCase start).take (js word).length ≠ (toLowerCase (js word)).take start.length) :
    Regex.ends isWordChar (.seq .boundary (.seq (keyword word) .boundary))
      (before, start ++ rest) = [] := by
  rw [List.eq_nil_iff_forall_not_mem]
  intro e he
  obtain ⟨m, hm, he⟩ := Regex.mem_ends_seq.mp he
  obtain ⟨m', hm', -⟩ := Regex.mem_ends_seq.mp he
  obtain ⟨-, rfl⟩ := Regex.mem_ends_boundary.mp hm
  rw [keyword_ends_nil h] at hm'
  cases hm'

theorem operator_first (operator : Operator) :
    Regex.First isWordChar (.anyOf
        [keyword ">=", keyword "<=", keyword "!=", keyword "=", keyword "<", keyword ">",
          .seq .boundary (.seq (keyword "LIKE") .boundary),
          .seq .boundary (.seq (keyword "IN") .boundary)])
      (blank :: before, operator.text ++ blank :: rest)
      (operator.text.reverse ++ blank :: before, blank :: rest) := by
  have hnil (words : List String) (word : String)
      (h : ∀ other ∈ words, (toLowerCase (js word ++ [blank])).take (js other).length ≠
        (toLowerCase (js other)).take (js word ++ [blank]).length) :
      ∀ r ∈ words.map keyword,
        r.ends isWordChar (blank :: before, js word ++ blank :: rest) = [] := by
    have hwords := @keywords_nil (blank :: before) rest _ _ h
    rwa [List.append_assoc] at hwords
  have hsymbol (words : List String) (word : String) (rs : List (Regex CodeUnit))
      (h : ∀ other ∈ words, (toLowerCase (js word ++ [blank])).take (js other).length ≠
        (toLowerCase (js other)).take (js word ++ [blank]).length) :
      Regex.First isWordChar (.anyOf (words.map keyword ++ keyword word :: rs))
        (blank :: before, js word ++ blank :: rest)
        ((js word).reverse ++ blank :: before, blank :: rest) :=
    Regex.first_anyOf (hnil words word h) (keyword_first word _ _)
  cases operator with
  | eq => exact hsymbol [">=", "<=", "!="] "=" _ (by decide)
  | ne => exact hsymbol [">=", "<="] "!=" _ (by decide)
  | lt => exact hsymbol [">=", "<=", "!=", "="] "<" _ (by decide)
  | le => exact hsymbol [">="] "<=" _ (by decide)
  | gt => exact hsymbol [">=", "<=", "!=", "=", "<"] ">" _ (by decide)
  | ge => exact hsymbol [] ">=" _ (by decide)
  | like =>
    exact Regex.first_anyOf (hnil [">=", "<=", "!=", "=", "<", ">"] "LIKE" (by decide))
      (word_first (by decide) (by decide))
  | in_ =>
    have hlike : Regex.ends isWordChar (.seq .boundary (.seq (keyword "LIKE") .boundary))
        (blank :: before, js "IN" ++ blank :: rest) = [] :=
      @word_ends_nil (blank :: before) (blank :: rest) "LIKE" (js "IN") (by decide)
    have hothers : ∀ r ∈ [">=", "<=", "!=", "=", "<", ">"].map keyword ++
        [Regex.seq .boundary (.seq (keyword "LIKE") .boundary)],
        r.ends isWordChar (blank :: before, js "IN" ++ blank :: rest) = [] :=
      List.forall_mem_append.mpr ⟨hnil _ "IN" (by decide), List.forall_mem_singleton.mpr hlike⟩
    exact Regex.first_anyOf hothers (word_first (by decide) (by decide))

theorem value_finds {text : JsString} (hne : text ≠ []) (hline : ∀ c ∈ text, inLine c = true)
    (before : JsString) (groups : List (Group × JsString)) :
    Pattern.Finds isWordChar
      (.seq (.group .value (.plain (.many1 inLine))) (.plain .finish)) (fun s => [s])
      ((before, text), groups) ((text.reverse ++ before, []), (.value, text) :: groups) := by
  have hvalue : Regex.First isWordChar (.many1 inLine) (before, text ++ [])
      (text.reverse ++ before, []) := Regex.first_many1 hne hline (stopsAt_nil inLine)
  have hend : Pattern.Finds isWordChar (.plain .finish) (fun s => [s])
      ((text.reverse ++ before, []), (Group.value, text) :: groups)
      ((text.reverse ++ before, []), (.value, text) :: groups) :=
    Pattern.Finds.plain Regex.first_finish rfl
  have hfinds := Pattern.Finds.seq_group hvalue hend
  rwa [List.append_nil] at hfinds

theorem exec_condition (engine : Engine) (condition : Condition)
    (hne : condition.test.render engine ≠ [])
    (hstart : Regex.StopsAt isSpace (condition.test.render engine))
    (hline : ∀ c ∈ condition.test.render engine, inLine c = true) :
    comparisonPattern.exec isWordChar (condition.render engine) =
      some [(.value, condition.test.render engine), (.op, condition.test.operator.text),
        (.field, condition.field.val)] := by
  have hblank (rest : JsString) : Regex.StopsAt isWordChar (blank :: rest) := by
    rintro c ⟨⟩
    decide
  have hfinds : ∃ spot, Pattern.Finds isWordChar comparisonPattern (fun s => [s])
      (([], condition.render engine), [])
      (spot, [(.value, condition.test.render engine), (.op, condition.test.operator.text),
        (.field, condition.field.val)]) := by
    unfold comparisonPattern Condition.render
    apply Exists.intro
    apply Pattern.Finds.seq_group (field_first condition.field (hblank _))
    apply Pattern.Finds.seq_plain (blanks_first (word_stopsAt (Operator.isWord _) _))
    apply Pattern.Finds.seq_group (operator_first condition.test.operator)
    apply Pattern.Finds.seq_plain (blanks_first hstart)
    exact value_finds hne hline _ _
  obtain ⟨spot, hfinds⟩ := hfinds
  exact Pattern.exec_of_finds hfinds

end

-- ---------------------------------------------------------------------------
-- Literals
-- ---------------------------------------------------------------------------

theorem literal_quoted (s : JsString) :
    literal (singleQuote :: (double s ++ [singleQuote])) = .string s := by
  have hquoted : quoted? (singleQuote :: (double s ++ [singleQuote])) = some (double s) := by
    show (if (double s ++ [singleQuote]).getLast? = some singleQuote then
      some (double s ++ [singleQuote]).dropLast else none) = some (double s)
    rw [List.getLast?_concat, if_pos rfl, List.dropLast_concat]
  unfold literal
  rw [hquoted]
  dsimp only
  rw [undouble_double]

theorem mem_double {c : CodeUnit} {s : JsString} (h : c ∈ double s) : c ∈ s := by
  obtain ⟨d, hd, hc⟩ := List.mem_flatMap.mp h
  have hsame : c = d := by
    split at hc
    · simpa using hc
    · simpa using hc
  rw [hsame]
  exact hd

theorem quoted_plain {text : JsString} (h : ∀ c ∈ text, isPlain c = true) : quoted? text = none := by
  unfold quoted?
  split
  · have hquote := (plain_inert (h singleQuote List.mem_cons_self)).quote
    exact absurd rfl hquote
  · rfl

def Literal.Written (engine : Engine) (value : Literal) : Prop :=
  ∀ n, value = .number n → isNumeral (numeral engine n) = true

section
variable {engine : Engine} (hnum : NumberText engine.numberText)
include hnum

theorem literal_numeral {n : JsNumber}
    (hread : ∀ q, n = .finite q → stringToNumber (engine.numberText q) = .finite q) :
    literal (numeral engine n) = .number n ↔ isNumeral (numeral engine n) = true := by
  have hplain : ∀ c ∈ (Literal.number n).render engine, isPlain c = true :=
    ((Literal.number n).plain hnum id).2
  have hquoted : quoted? (numeral engine n) = none := quoted_plain hplain
  unfold literal
  rw [hquoted]
  dsimp only
  constructor
  · intro h
    by_contra hnot
    rw [if_neg hnot] at h
    split at h
    · cases h
    · split at h
      · cases h
      · split at h
        · cases h
        · cases h
  · intro h
    rw [if_pos h]
    cases n with
    | nan => exact absurd h (show ¬ isNumeral (js "NaN") = true by decide)
    | infinity negative =>
      cases negative with
      | false => exact absurd h (show ¬ isNumeral (js "Infinity") = true by decide)
      | true => exact absurd h (show ¬ isNumeral (js "-Infinity") = true by decide)
    | negZero =>
      exact congrArg Literal.number (show stringToNumber (js "-0") = .negZero by decide +kernel)
    | finite q => exact congrArg Literal.number (hread q rfl)

theorem literal_render {value : Literal}
    (hread : ∀ q, value = .number (.finite q) → stringToNumber (engine.numberText q) = .finite q) :
    literal (value.render engine) = value ↔ value.Written engine := by
  have hother (hvalue : ∀ n, value ≠ .number n) : value.Written engine := fun n h =>
    absurd h (hvalue n)
  cases value with
  | string s => exact iff_of_true (literal_quoted s) (hother (by simp))
  | number n =>
    have hwritten : (Literal.number n).Written engine ↔ isNumeral (numeral engine n) = true := by
      constructor
      · exact fun h => h n rfl
      · rintro h m ⟨⟩
        exact h
    rw [hwritten]
    exact literal_numeral hnum fun q hq => hread q (by rw [hq])
  | boolean b =>
    have hliteral : literal (if b then js "true" else js "false") = .boolean b := by
      cases b <;> decide
    exact iff_of_true hliteral (hother (by simp))
  | null =>
    have hliteral : literal (js "null") = .null := by decide
    exact iff_of_true hliteral (hother (by simp))

theorem comma_not_mem {value : Literal} (h : ∀ s, value = .string s → comma ∉ s) :
    comma ∉ value.render engine := by
  by_cases hstring : value.IsString
  · cases value with
    | string s =>
      intro hmem
      rcases List.mem_cons.mp hmem with hquote | hmem
      · exact absurd hquote (by decide)
      · rcases List.mem_append.mp hmem with hmem | hmem
        · exact h s rfl (mem_double hmem)
        · exact absurd (List.mem_singleton.mp hmem) (by decide)
    | number n => exact hstring.elim
    | boolean b => exact hstring.elim
    | null => exact hstring.elim
  · exact fun hmem => (plain_inert ((value.plain hnum hstring).2 comma hmem)).comma rfl

theorem read_eq_iff {test : Test}
    (hcomma : ∀ values, test = .isIn values → ∀ s, .string s ∈ values → comma ∉ s)
    (hread : ∀ q, .number (.finite q) ∈ test.literals →
      stringToNumber (engine.numberText q) = .finite q) :
    test.read engine = test.operand ↔
      test ≠ .isIn [] ∧ ∀ value ∈ test.literals, value.Written engine := by
  cases test with
  | compare operator value scalar =>
    have hvalue : literal (value.render engine) = value ↔ value.Written engine :=
      literal_render hnum fun q hq => hread q (hq ▸ List.mem_cons_self)
    constructor
    · intro h
      exact ⟨by simp, List.forall_mem_singleton.mpr (hvalue.mp (Operand.one.inj h))⟩
    · rintro ⟨-, h⟩
      exact congrArg Operand.one (hvalue.mpr (h value List.mem_cons_self))
  | isIn values =>
    by_cases hempty : values = []
    · subst hempty
      refine ⟨fun h => ?_, fun h => absurd rfl h.1⟩
      have hitems : [literal []] = [] := Operand.many.inj h
      exact absurd hitems (List.cons_ne_nil _ _)
    · have hitems : (List.intercalate [comma] (values.map (Literal.render engine))).splitOn comma =
          values.map (Literal.render engine) := by
        refine List.splitOn_intercalate comma ?_ (by simpa using hempty)
        intro text htext
        obtain ⟨value, hvalue, rfl⟩ := List.mem_map.mp htext
        exact comma_not_mem hnum fun s hs => hcomma values rfl s (hs ▸ hvalue)
      have hvalues : (Test.isIn values).read engine =
          .many (values.map fun value => literal (value.render engine)) := by
        unfold Test.read
        dsimp only
        rw [hitems, List.map_map]
        congr 1
        refine List.map_congr_left fun value _ => ?_
        dsimp only [Function.comp_apply]
        rw [(value.solid hnum).trim]
      have hself : values.map (fun value => literal (value.render engine)) = values ↔
          ∀ value ∈ values, literal (value.render engine) = value := by
        conv_lhs => rhs; rw [← List.map_id values]
        exact List.map_inj_left
      rw [hvalues]
      constructor
      · intro h
        refine ⟨fun h => hempty (Test.isIn.inj h), fun value hvalue => ?_⟩
        exact (literal_render hnum fun q hq => hread q (hq ▸ hvalue)).mp
          (hself.mp (Operand.many.inj h) value hvalue)
      · rintro ⟨-, h⟩
        refine congrArg Operand.many (hself.mpr fun value hvalue => ?_)
        exact (literal_render hnum fun q hq => hread q (hq ▸ hvalue)).mpr (h value hvalue)

omit hnum in
theorem stripParens_list (inner : JsString) :
    stripParens (leftParen :: (inner ++ [rightParen])) = inner := by
  unfold stripParens
  rw [List.head?_cons, if_pos rfl, List.tail_cons]
  dsimp only
  rw [List.getLast?_concat, if_pos rfl, List.dropLast_concat]

theorem parseComparison_render {condition : Condition}
    (hline : ∀ c ∈ condition.test.render engine, inLine c = true) :
    parseComparison (condition.render engine) = .ok (condition.read engine) := by
  have hsolid := condition.test.solid hnum
  have hstops := hsolid.stopsAt []
  rw [List.append_nil] at hstops
  have hoperator : operatorOf condition.test.operator.text = condition.test.operator := by
    cases condition.test.operator <;> decide
  unfold parseComparison
  rw [exec_condition engine condition hsolid.ne_nil hstops hline]
  show (if operatorOf condition.test.operator.text = .in_ then
      Except.ok (Comparison.mk condition.field.val (operatorOf condition.test.operator.text)
        (.many (((stripParens (trim (condition.test.render engine))).splitOn comma).map
          fun item => literal (trim item))))
    else .ok (Comparison.mk condition.field.val (operatorOf condition.test.operator.text)
      (.one (literal (trim (condition.test.render engine)))))) = .ok (condition.read engine)
  rw [hoperator, hsolid.trim]
  unfold Condition.read
  cases condition.test with
  | compare operator value scalar => exact if_neg scalar
  | isIn values =>
    rw [show (Test.isIn values).operator = .in_ from rfl, if_pos rfl]
    unfold Test.render
    rw [stripParens_list]
    rfl

-- ---------------------------------------------------------------------------
-- Clauses
-- ---------------------------------------------------------------------------

def LineStrings (test : Test) : Prop := ∀ s, .string s ∈ test.literals → ∀ c ∈ s, inLine c = true

theorem literal_line {value : Literal} (h : ∀ s, value = .string s → ∀ c ∈ s, inLine c = true) :
    ∀ c ∈ value.render engine, inLine c = true := by
  by_cases hstring : value.IsString
  · cases value with
    | string s =>
      have hquote : inLine singleQuote = true := by decide
      refine List.forall_mem_cons.mpr ⟨hquote, List.forall_mem_append.mpr
        ⟨fun c hc => h s rfl c (mem_double hc), List.forall_mem_singleton.mpr hquote⟩⟩
    | number n => exact hstring.elim
    | boolean b => exact hstring.elim
    | null => exact hstring.elim
  · exact fun c hc => (plain_inert ((value.plain hnum hstring).2 c hc)).line

theorem test_line {test : Test} (h : LineStrings test) :
    ∀ c ∈ test.render engine, inLine c = true := by
  cases test with
  | compare operator value scalar =>
    exact literal_line hnum fun s hs => h s (hs ▸ List.mem_cons_self)
  | isIn values =>
    intro c hc
    rcases List.mem_cons.mp hc with rfl | hc
    · decide
    rcases List.mem_append.mp hc with hc | hc
    · rcases mem_intercalate hc with rfl | ⟨text, htext, hc⟩
      · decide
      · obtain ⟨value, hvalue, rfl⟩ := List.mem_map.mp htext
        exact literal_line hnum (fun s hs => h s (hs ▸ hvalue)) c hc
    · rw [List.mem_singleton.mp hc]
      decide

/-- A clause without cuts of its own is parsed into what its conditions read like. -/
theorem parseWhere_clause {combinator : Combinator} {conditions : List Condition}
    (hne : conditions ≠ []) (hjoined : conditions.length < 2 → combinator = .and)
    (hstring : ∀ combinator, ¬ StringCut combinator conditions)
    (hfield : ¬ FieldCut combinator.other conditions.tail)
    (hline : ∀ condition ∈ conditions, LineStrings condition.test) :
    parseWhere (clause engine combinator conditions) =
      .ok ⟨conditions.map (Condition.read engine), combinator⟩ := by
  have hother : (separator combinator.other.word).test isWordChar
      (clause engine combinator conditions) = false := by
    rw [Bool.eq_false_iff]
    intro htest
    rcases cut_clause hnum (separator_test.mp htest) with h | ⟨-, h | h⟩
    · exact hstring _ h
    · exact hfield h
    · cases combinator <;> cases h
  have hparts : ((separator combinator.word).split isWordChar
      (clause engine combinator conditions)).mapM (fun part => parseComparison (trim part)) =
        .ok (conditions.map (Condition.read engine)) := by
    rw [split_clause hnum hne (hstring combinator), List.mapM_map]
    refine Outcome.mapM_ok fun condition hcondition => ?_
    dsimp only [Function.comp_apply]
    rw [(condition.solid hnum).trim]
    exact parseComparison_render hnum (test_line hnum (hline condition hcondition))
  unfold parseWhere
  dsimp only
  cases combinator with
  | and =>
    have hor : (separator "OR").test isWordChar (clause engine .and conditions) = false := hother
    have hand : ((separator "AND").split isWordChar (clause engine .and conditions)).mapM
        (fun part => parseComparison (trim part)) = .ok (conditions.map (Condition.read engine)) :=
      hparts
    rw [hor, Bool.false_and, if_neg Bool.false_ne_true, if_neg Bool.false_ne_true, hand]
    rfl
  | or =>
    have hor : (separator "OR").test isWordChar (clause engine .or conditions) = true := by
      have hlong : 2 ≤ conditions.length := by
        by_contra hlt
        cases hjoined (Nat.lt_of_not_le hlt)
      have hcut : CutAt .or (clause engine .or conditions) := clause_cut hlong
      exact separator_test.mpr hcut
    have hand : (separator "AND").test isWordChar (clause engine .or conditions) = false := hother
    have hsplit : ((separator "OR").split isWordChar (clause engine .or conditions)).mapM
        (fun part => parseComparison (trim part)) = .ok (conditions.map (Condition.read engine)) :=
      hparts
    rw [hor, hand, Bool.and_false, if_neg Bool.false_ne_true, if_pos rfl, hsplit]
    rfl

end

-- ---------------------------------------------------------------------------
-- What a parse can return
-- ---------------------------------------------------------------------------

def Operand.literals : Operand → List Literal
  | .one value => [value]
  | .many values => values

theorem infix_of_literal {raw s seg : JsString} (h : literal raw = .string s)
    (hseg : singleQuote ∉ seg) (hin : seg <:+: s) : seg <:+: raw := by
  unfold literal at h
  cases hquoted : quoted? raw with
  | some inner =>
    rw [hquoted] at h
    cases h
    refine (infix_of_undouble hseg hin).trans ?_
    unfold quoted? at hquoted
    split at hquoted
    · split at hquoted
      · cases hquoted
        exact List.infix_cons (List.dropLast_prefix _).isInfix
      · cases hquoted
    · cases hquoted
  | none =>
    rw [hquoted] at h
    dsimp only at h
    split at h
    · cases h
    · split at h
      · cases h
      · split at h
        · cases h
        · split at h
          · cases h
          · cases h
            exact hin

theorem stripParens_within (s : JsString) : stripParens s <:+: s := by
  have hstart : (if s.head? = some leftParen then s.tail else s) <:+: s := by
    split
    · exact (List.tail_suffix s).isInfix
    · exact List.infix_rfl
  unfold stripParens
  dsimp only
  generalize (if s.head? = some leftParen then s.tail else s) = inner at hstart ⊢
  split
  · exact (List.dropLast_prefix inner).isInfix.trans hstart
  · exact hstart

theorem value_line {input g : JsString} {groups : List (Group × JsString)}
    (h : comparisonPattern.exec isWordChar input = some groups) (hg : (.value, g) ∈ groups) :
    ∀ c ∈ g, inLine c = true := by
  have hcaptures : comparisonPattern.Captures isWordChar Group.value
      fun g => ∀ c ∈ g, inLine c = true := by
    refine ⟨⟨trivial, fun h => by cases h⟩, trivial, ⟨trivial, fun h => by cases h⟩, trivial,
      ⟨trivial, fun _ s e run he _ hafter => ?_⟩, trivial⟩
    have hover : (Pattern.plain (κ := Group) (.many1 inLine)).Over fun c => inLine c = true :=
      ⟨fun _ h => h, fun _ h => h⟩
    obtain ⟨run', hafter', hrun'⟩ := Pattern.ends_over hover he
    rw [hafter] at hafter'
    rwa [List.append_cancel_right hafter']
  exact Pattern.exec_captures hcaptures h hg

/-- The strings of a comparison are parts of one line of its text, those of a list between two
commas. -/
theorem infix_of_comparison {input : JsString} {comparison : Comparison}
    (h : parseComparison input = .ok comparison) {s : JsString}
    (hs : .string s ∈ comparison.value.literals) :
    ∃ raw, raw <:+: input ∧ (∀ c ∈ raw, inLine c = true) ∧
      (∀ values, comparison.value = .many values → comma ∉ raw) ∧
      ∀ seg, singleQuote ∉ seg → seg <:+: s → seg <:+: raw := by
  unfold parseComparison at h
  split at h
  · cases h
  · next groups hexec =>
    dsimp only at h
    obtain ⟨hin, hline⟩ : (groups.lookup .value).getD [] <:+: input ∧
        ∀ c ∈ (groups.lookup .value).getD [], inLine c = true := by
      cases hlookup : groups.lookup .value with
      | none => exact ⟨List.nil_infix, List.forall_mem_nil _⟩
      | some g =>
        exact ⟨Pattern.exec_infix hexec (mem_of_lookup hlookup),
          value_line hexec (mem_of_lookup hlookup)⟩
    generalize (groups.lookup .value).getD [] = g at h hin hline
    have hpart {raw : JsString} (hraw : raw <:+: g) : raw <:+: input ∧ ∀ c ∈ raw, inLine c = true :=
      ⟨hraw.trans hin, fun c hc => hline c (hraw.subset hc)⟩
    split at h
    · cases h
      obtain ⟨item, hitem, hliteral⟩ := List.mem_map.mp hs
      have hitem_in : item <:+: g := (infix_of_mem_splitOnP hitem).trans
        ((stripParens_within _).trans (trim_within g))
      obtain ⟨hinput, hone⟩ := hpart ((trim_within item).trans hitem_in)
      refine ⟨trim item, hinput, hone, fun values _ hmem => ?_,
        fun seg hseg hin => infix_of_literal hliteral hseg hin⟩
      have hcomma := mem_splitOnP hitem comma ((trim_within item).subset hmem)
      exact absurd hcomma (by decide)
    · cases h
      obtain ⟨hinput, hone⟩ := hpart (trim_within g)
      exact ⟨trim g, hinput, hone, fun values h => (by cases h),
        fun seg hseg hin => infix_of_literal (List.mem_singleton.mp hs).symm hseg hin⟩

theorem uncut_of_parseWhere {text : JsString} {parsed : WhereClause}
    (h : parseWhere text = .ok parsed) {comparison : Comparison}
    (hcomparison : comparison ∈ parsed.conditions) {s : JsString}
    (hs : .string s ∈ comparison.value.literals) :
    Uncut s ∧ ∀ values, comparison.value = .many values → comma ∉ s := by
  unfold parseWhere at h
  dsimp only at h
  split at h
  · cases h
  · next hmixed =>
    obtain ⟨conditions, hconditions, h⟩ := Outcome.bind_eq_ok.mp h
    cases h
    obtain ⟨part, hpart, hparse⟩ := Outcome.mem_of_mapM hconditions hcomparison
    obtain ⟨raw, hraw, hline, hcomma, hseg⟩ := infix_of_comparison hparse hs
    have hpart_cut : ∃ combinator : Combinator, part <:+: text ∧ ¬ CutAt combinator part ∧
        ¬ CutAt combinator.other text := by
      cases hor : (separator "OR").test isWordChar text with
      | true =>
        rw [hor, if_pos rfl] at hpart
        obtain ⟨hin, hcut⟩ := @not_cut_of_mem_split .or _ _ hpart
        refine ⟨.or, hin, hcut, fun hand => hmixed ?_⟩
        have htest : (separator "AND").test isWordChar text = true := separator_test.mpr hand
        rw [hor, htest]
        rfl
      | false =>
        rw [hor, if_neg Bool.false_ne_true] at hpart
        obtain ⟨hin, hcut⟩ := @not_cut_of_mem_split .and _ _ hpart
        refine ⟨.and, hin, hcut, fun hcut => ?_⟩
        have htest : (separator "OR").test isWordChar text = true := separator_test.mpr hcut
        rw [hor] at htest
        cases htest
    obtain ⟨combinator, hin, hcut, hother⟩ := hpart_cut
    have hwithin : raw <:+: part := hraw.trans (trim_within part)
    have hcut_raw (comb : Combinator) (hs : CutAt comb s) : CutAt comb raw := by
      obtain ⟨a, w, t, ha, ht, hw, hin⟩ := hs
      exact ⟨a, w, t, ha, ht, hw, hseg _ (not_mem_cut (by decide) (by decide) ha ht hw) hin⟩
    have hnone (comb : Combinator) : ¬ CutAt comb s := fun hs => by
      have hcases : comb = combinator ∨ comb = combinator.other := by
        cases comb <;> cases combinator <;> simp [Combinator.other]
      rcases hcases with rfl | rfl
      · exact hcut ((hcut_raw _ hs).within hwithin)
      · exact hother ((hcut_raw _ hs).within (hwithin.trans hin))
    have hunit {c : CodeUnit} (hc : c ∈ s) (hquote : c ≠ singleQuote) : c ∈ raw := by
      have hmem : [c] <:+: raw := hseg [c] (by simpa using Ne.symm hquote)
        (by obtain ⟨a, b, rfl⟩ := List.append_of_mem hc; exact ⟨a, b, by simp⟩)
      exact hmem.subset List.mem_cons_self
    refine ⟨⟨fun comb => ?_, fun c hc => ?_⟩, fun values hvalues hmem => ?_⟩
    · rw [Bool.eq_false_iff]
      exact fun htest => hnone comb (separator_test.mp htest)
    · by_cases hquote : c = singleQuote
      · rw [hquote]
        decide
      · exact hline c (hunit hc hquote)
    · exact hcomma values hvalues (hunit hmem (by decide))

-- ---------------------------------------------------------------------------
-- Queries
-- ---------------------------------------------------------------------------

theorem parseFields_render (selection : Selection) :
    parseFields selection.render = .ok selection.fields := by
  obtain ⟨hne, hunits⟩ := selection_units selection
  have htrim : trim selection.render = selection.render := by
    obtain ⟨c, rest, hcons⟩ := List.exists_cons_of_ne_nil hne
    have hlast : selection.render = selection.render.dropLast ++ [selection.render.getLast hne] :=
      (List.dropLast_append_getLast hne).symm
    have hstart : trimStart selection.render = selection.render := by
      rw [hcons]
      exact List.dropWhile_cons_of_neg (by simp [hunits c (by rw [hcons]; exact List.mem_cons_self)])
    unfold trim
    rw [hstart, hlast]
    exact List.rdropWhile_concat_neg isSpace _ _ (by simp [hunits _ (List.getLast_mem hne)])
  unfold parseFields
  rw [htrim]
  dsimp only
  cases selection with
  | star => exact if_pos rfl
  | named first rest =>
    have hnames : ∀ name ∈ first.val :: rest.map Subtype.val, ∃ field : Identifier,
        name = field.val := by
      intro name hname
      rcases List.mem_cons.mp hname with rfl | hname
      · exact ⟨first, rfl⟩
      · obtain ⟨field, -, rfl⟩ := List.mem_map.mp hname
        exact ⟨field, rfl⟩
    have hsplit : (Selection.named first rest).render.splitOn comma =
        first.val :: rest.map Subtype.val := by
      refine List.splitOn_intercalate comma ?_ (List.cons_ne_nil _ _)
      intro name hname hcomma
      obtain ⟨field, rfl⟩ := hnames name hname
      exact (plain_inert (field.plain comma hcomma)).comma rfl
    have hstar : (Selection.named first rest).render ≠ [asterisk] := by
      obtain ⟨c, cs, hval, hc, -⟩ := first.cons
      intro hrender
      have hhead : (Selection.named first rest).render.splitOn comma = [[asterisk]] := by
        rw [hrender]
        rfl
      rw [hsplit, hval] at hhead
      obtain ⟨rfl, -⟩ := List.cons.inj (List.cons.inj hhead).1
      revert hc
      decide
    have hselected : ((first.val :: rest.map Subtype.val).map trim).filter
        (fun field => !field.isEmpty) = first.val :: rest.map Subtype.val := by
      have htrims : (first.val :: rest.map Subtype.val).map trim = first.val :: rest.map Subtype.val := by
        conv_rhs => rw [← List.map_id (first.val :: rest.map Subtype.val)]
        refine List.map_congr_left fun name hname => ?_
        obtain ⟨field, rfl⟩ := hnames name hname
        exact field.solid.trim
      rw [htrims]
      refine List.filter_eq_self.mpr fun name hname => ?_
      obtain ⟨field, rfl⟩ := hnames name hname
      simpa using field.ne_nil
    have hvalid : (first.val :: rest.map Subtype.val).find? (fun field => !isFieldName field) =
        none := by
      refine List.find?_eq_none.mpr fun name hname => ?_
      obtain ⟨field, rfl⟩ := hnames name hname
      simp [field.property]
    rw [if_neg hstar, hsplit, hselected, hvalid]
    rfl

def Closed (text : JsString) : Prop := text = [] ∨ ∃ front last, text = front ++ last ∧ Solid last

theorem Solid.append_closed {s t : JsString} (hs : Solid s) (ht : Closed t) : Solid (s ++ t) := by
  rcases ht with rfl | ⟨front, last, rfl, hlast⟩
  · rwa [List.append_nil]
  · exact hs.append hlast front

theorem solid_of_isWord {w : JsString} (hne : w ≠ []) (h : ∀ c ∈ w, isWordChar c = true) : Solid w :=
  Solid.of_plain hne fun c hc => wordChar_plain (h c hc)

section
variable {engine : Engine} (hnum : NumberText engine.numberText) (query : Query)

theorem order_closed : Closed query.orderText := by
  unfold Query.orderText
  cases query.orderBy with
  | none => exact .inl rfl
  | some order =>
    have hdirection : Solid order.2.text :=
      solid_of_isWord (by cases order.2 <;> decide) (by cases order.2 <;> decide)
    refine .inr ⟨blank :: (js "ORDER" ++ blank :: (js "BY" ++ blank :: (order.1.val ++ [blank]))),
      order.2.text, ?_, hdirection⟩
    simp [keyed]

theorem limit_closed : Closed query.limitText := by
  unfold Query.limitText
  cases query.limit with
  | none => exact .inl rfl
  | some n =>
    have hdigits : Solid (decimal n.val) := solid_of_isWord decimal_ne_nil fun c hc => by
      simp [isWordChar, isDigit_of_mem_decimal hc]
    refine .inr ⟨blank :: (js "LIMIT" ++ [blank]), decimal n.val, ?_, hdigits⟩
    simp [keyed]

include hnum

theorem where_closed : Closed (query.whereText engine) := by
  unfold Query.whereText
  split
  · exact .inl rfl
  · next hempty =>
    refine .inr ⟨blank :: (js "WHERE" ++ [blank]), _, ?_, clause_solid hnum query.combinator
      fun h => hempty (List.isEmpty_iff.mpr h)⟩
    simp [keyed]

theorem render_solid : Solid (query.render engine) := by
  have hselect : Solid (js "SELECT") := solid_of_isWord (by decide) (by decide)
  have hobject : Solid query.object.text :=
    solid_of_isWord (by cases query.object <;> decide) (by cases query.object <;> decide)
  have hsolid := (((hselect.append hobject
    (blank :: (query.selection.render ++ blank :: (js "FROM" ++ [blank])))).append_closed
      (where_closed hnum query)).append_closed (order_closed query)).append_closed
        (limit_closed query)
  unfold Query.render keyed
  simpa using hsolid

theorem queryGroups_render
    (horder : ∀ order, query.orderBy = some order → ∀ c ∈ order.1.val, isDigit c = false)
    (hlength : (query.render engine).length ≤ 4000) :
    queryGroups (query.render engine) = .ok (query.groups engine) := by
  have hsolid := render_solid hnum query
  unfold queryGroups
  rw [hsolid.trimmedQuery]
  dsimp only
  rw [if_neg hsolid.ne_nil, if_neg (Nat.not_lt.mpr hlength), exec_render hnum query horder]

omit hnum in
theorem groups_lookup : (query.groups engine).lookup .object = some query.object.text ∧
    (query.groups engine).lookup .fields = some query.selection.render ∧
    (query.groups engine).lookup .whereClause = (if query.conditions.isEmpty then none
      else some (clause engine query.combinator query.conditions)) ∧
    (query.groups engine).lookup .order = query.orderBy.map (fun order => order.1.val) ∧
    (query.groups engine).lookup .dir = query.orderBy.map (fun order => order.2.text) ∧
    (query.groups engine).lookup .limit = query.limit.map (fun n => decimal n.val) := by
  unfold Query.groups Query.limitGroups Query.orderGroups Query.whereGroups
  cases query.limit <;> cases query.orderBy <;> cases query.conditions.isEmpty <;>
    exact ⟨rfl, rfl, rfl, rfl, rfl, rfl⟩

theorem parseSoql_render
    (horder : ∀ order, query.orderBy = some order → ∀ c ∈ order.1.val, isDigit c = false)
    (hlength : (query.render engine).length ≤ 4000) :
    parseSoql (query.render engine) = (parseConditions (if query.conditions.isEmpty then none
      else some (clause engine query.combinator query.conditions))).map fun parsed =>
        { query.parsed with
          conditions := parsed.conditions
          combinator := parsed.combinator } := by
  obtain ⟨hobject, hfields, hwhere, hby, hdir, hlimit⟩ := @groups_lookup engine query
  have hresolved : parseObject query.object.text = .ok (.sobject query.object) := by
    cases query.object <;> rfl
  have horders : orderOf (query.orderBy.map fun order => order.1.val)
      (query.orderBy.map fun order => order.2.text) = query.parsed.orderBy := by
    unfold Query.parsed orderOf
    dsimp only
    cases query.orderBy with
    | none => rfl
    | some order =>
      obtain ⟨field, direction⟩ := order
      cases direction <;> rfl
  have hlimits : (query.limit.map fun n => decimal n.val).map parseLimit = query.parsed.limit := by
    unfold Query.parsed
    dsimp only
    cases query.limit with
    | none => rfl
    | some n =>
      refine congrArg some ?_
      unfold parseLimit
      rw [digitsValue_decimal]
      exact n.property
  unfold parseSoql
  rw [queryGroups_render hnum query horder hlength, Outcome.ok_bind, hobject, hfields, hwhere, hby,
    hdir, hlimit, horders, hlimits, Option.getD_some, Option.getD_some, hresolved, Outcome.ok_bind,
    parseFields_render, Outcome.ok_bind]
  cases parseConditions (if query.conditions.isEmpty then none
    else some (clause engine query.combinator query.conditions)) <;> rfl

-- ---------------------------------------------------------------------------
-- Clear queries
-- ---------------------------------------------------------------------------

omit hnum in
theorem literal_clear {value : Literal} :
    value.Clear engine ↔ value.Written engine ∧ ∀ s, value = .string s → Uncut s := by
  cases value with
  | string s =>
    constructor
    · intro h
      refine ⟨fun n hn => (by cases hn), ?_⟩
      rintro t ⟨⟩
      exact h
    · exact fun h => h.2 s rfl
  | number n =>
    constructor
    · intro h
      refine ⟨?_, fun s hs => by cases hs⟩
      rintro m ⟨⟩
      exact h
    · exact fun h => h.1 n rfl
  | boolean b => exact iff_of_true trivial ⟨fun n hn => (by cases hn), fun s hs => by cases hs⟩
  | null => exact iff_of_true trivial ⟨fun n hn => (by cases hn), fun s hs => by cases hs⟩

def StringsClear (test : Test) : Prop :=
  ∀ s, .string s ∈ test.literals → Uncut s ∧ ∀ values, test = .isIn values → comma ∉ s

omit hnum in
theorem test_clear {test : Test} : test.Clear engine ↔ StringsClear test ∧ test ≠ .isIn [] ∧
    ∀ value ∈ test.literals, value.Written engine := by
  cases test with
  | compare operator value scalar =>
    constructor
    · intro h
      obtain ⟨hwritten, hstring⟩ := literal_clear.mp h
      refine ⟨fun s hs => ⟨hstring s (List.mem_singleton.mp hs).symm, fun values hvalues => ?_⟩,
        by simp, List.forall_mem_singleton.mpr hwritten⟩
      cases hvalues
    · rintro ⟨hstrings, -, hwritten⟩
      refine literal_clear.mpr ⟨hwritten value List.mem_cons_self, ?_⟩
      rintro s rfl
      exact (hstrings s List.mem_cons_self).1
  | isIn values =>
    constructor
    · rintro ⟨hne, hvalues⟩
      refine ⟨fun s hs => ?_, fun h => hne (Test.isIn.inj h), fun value hvalue =>
        (literal_clear.mp (hvalues value hvalue).1).1⟩
      obtain ⟨hclear, hcomma⟩ := hvalues _ hs
      exact ⟨(literal_clear.mp hclear).2 s rfl, fun _ _ => hcomma s rfl⟩
    · rintro ⟨hstrings, hne, hwritten⟩
      refine ⟨fun h => hne (congrArg Test.isIn h), fun value hvalue => ⟨literal_clear.mpr
        ⟨hwritten value hvalue, ?_⟩, ?_⟩⟩
      · rintro s rfl
        exact (hstrings s hvalue).1
      · rintro s rfl
        exact (hstrings s hvalue).2 values rfl

omit hnum in
theorem not_stringCut {conditions : List Condition}
    (h : ∀ condition ∈ conditions, StringsClear condition.test) (combinator : Combinator) :
    ¬ StringCut combinator conditions := by
  rintro ⟨condition, hcondition, s, hs, hcut⟩
  have huncut := (h condition hcondition s hs).1.combinators combinator
  rw [separator_test.mpr hcut] at huncut
  cases huncut

omit hnum in
theorem clause_joined : clause engine query.combinator query.conditions =
    clause engine query.joined query.conditions := by
  unfold Query.joined
  match query.conditions with
  | [] => rfl
  | [condition] => rfl
  | condition :: next :: conditions => rfl

theorem parseSoql_uncut
    (horder : ∀ order, query.orderBy = some order → ∀ c ∈ order.1.val, isDigit c = false)
    (hlength : (query.render engine).length ≤ 4000)
    (hstrings : ∀ condition ∈ query.conditions, StringsClear condition.test)
    (hfields : ¬ FieldCut query.combinator.other query.conditions.tail) :
    parseSoql (query.render engine) =
      .ok { query.parsed with conditions := query.conditions.map (Condition.read engine) } := by
  rw [parseSoql_render hnum query horder hlength]
  by_cases hempty : query.conditions = []
  · have hjoined : query.joined = .and := by
      unfold Query.joined
      rw [hempty]
      rfl
    have hparsed : query.parsed.combinator = .and := hjoined
    rw [hempty]
    show Except.ok { query.parsed with conditions := [], combinator := .and } =
      Except.ok { query.parsed with conditions := [] }
    rw [← hparsed]
  · have hjoined : query.conditions.length < 2 → query.joined = .and := fun h => if_pos h
    have hfield : ¬ FieldCut query.joined.other query.conditions.tail := by
      by_cases hlong : query.conditions.length < 2
      · have htail : query.conditions.tail = [] := by
          rw [← List.length_eq_zero_iff, List.length_tail]
          omega
        rw [htail]
        rintro ⟨condition, hmem, -⟩
        cases hmem
      · have hsame : query.joined = query.combinator := if_neg hlong
        rwa [hsame]
    have hwhere := parseWhere_clause hnum hempty hjoined (not_stringCut hstrings) hfield
      fun condition hcondition s hs => (hstrings condition hcondition s hs).1.line
    have hconditions : parseConditions (some (clause engine query.joined query.conditions)) =
        .ok ⟨query.conditions.map (Condition.read engine), query.joined⟩ := hwhere
    rw [if_neg (by simpa using hempty), clause_joined, hconditions]
    rfl

omit hnum in
theorem order_of_parseSoql {text : JsString} {parsed : ParsedQuery} {order : OrderBy}
    (h : parseSoql text = .ok parsed) (horder : parsed.orderBy = some order) :
    ∀ c ∈ order.field, isDigit c = false := by
  unfold parseSoql at h
  obtain ⟨groups, hgroups, h⟩ := Outcome.bind_eq_ok.mp h
  obtain ⟨object, -, h⟩ := Outcome.bind_eq_ok.mp h
  obtain ⟨fields, -, h⟩ := Outcome.bind_eq_ok.mp h
  obtain ⟨clause, -, h⟩ := Outcome.bind_eq_ok.mp h
  cases h
  obtain ⟨field, hlookup, rfl⟩ := Option.map_eq_some_iff.mp horder
  have hcaptures : queryPattern.Captures isWordChar Group.order
      fun g => ∀ c ∈ g, isOrderUnit c = true := by
    have hother {name : Group} (hne : name ≠ .order) {P : Prop} : name = .order → P :=
      fun h => absurd h hne
    refine ⟨trivial, trivial, trivial, ⟨trivial, hother (by decide)⟩, trivial, trivial, trivial,
      ⟨trivial, hother (by decide)⟩, ⟨trivial, trivial, trivial, trivial, hother (by decide)⟩,
      ⟨trivial, trivial, trivial, trivial, trivial, ⟨trivial, fun _ s e run he _ hafter => ?_⟩,
        trivial, trivial, hother (by decide)⟩,
      ⟨trivial, trivial, trivial, trivial, hother (by decide)⟩, trivial, trivial⟩
    have hover : (Pattern.plain (κ := Group) (.many1 isOrderUnit)).Over
        fun c => isOrderUnit c = true := ⟨fun _ h => h, fun _ h => h⟩
    obtain ⟨run', hafter', hrun'⟩ := Pattern.ends_over hover he
    rw [hafter] at hafter'
    rwa [List.append_cancel_right hafter']
  intro c hc
  have hunit := Pattern.exec_captures hcaptures (queryGroups_ok hgroups) (mem_of_lookup hlookup) c hc
  have hall : ∀ n < 128, (!isOrderUnit (UInt16.ofNat n) || !isDigit (UInt16.ofNat n)) = true := by
    decide +kernel
  have hdigit := of_ascii (P := fun c => !isOrderUnit c || !isDigit c) hall
    (plain_ascii (orderUnit_plain hunit))
  simpa [hunit] using hdigit

omit hnum in
theorem comparison_literals (condition : Condition) :
    condition.comparison.value.literals = condition.test.literals := by
  unfold Condition.comparison
  cases condition.test <;> rfl

omit hnum in
theorem parseWhere_mixed {text : JsString} {parsed : WhereClause}
    (h : parseWhere text = .ok parsed) (combinator : Combinator) (hcut : CutAt combinator text)
    (hother : CutAt combinator.other text) : False := by
  have hboth : CutAt .or text ∧ CutAt .and text := by
    cases combinator with
    | and => exact ⟨hother, hcut⟩
    | or => exact ⟨hcut, hother⟩
  have hor : (separator "OR").test isWordChar text = true := separator_test.mpr hboth.1
  have hand : (separator "AND").test isWordChar text = true := separator_test.mpr hboth.2
  unfold parseWhere at h
  rw [hor, hand] at h
  cases h

theorem clear_of_parsed (hlength : (query.render engine).length ≤ 4000)
    (h : parseSoql (query.render engine) = .ok query.parsed) :
    (∀ order, query.orderBy = some order → ∀ c ∈ order.1.val, isDigit c = false) ∧
      (∀ condition ∈ query.conditions, StringsClear condition.test) ∧
      ¬ FieldCut query.combinator.other query.conditions.tail := by
  have horder : ∀ order, query.orderBy = some order → ∀ c ∈ order.1.val, isDigit c = false := by
    intro order hby
    have hparsed : query.parsed.orderBy = some (OrderBy.mk order.1.val order.2) := by
      unfold Query.parsed
      rw [hby]
      rfl
    exact order_of_parseSoql h hparsed
  rw [parseSoql_render hnum query horder hlength] at h
  obtain ⟨parsed, hwhere, hparsed⟩ := Outcome.map_eq_ok.mp h
  have hconditions : parsed.conditions = query.conditions.map Condition.comparison :=
    congrArg ParsedQuery.conditions hparsed
  refine ⟨horder, fun condition hcondition s hs => ?_, ?_⟩
  · rw [if_neg (by simpa using List.ne_nil_of_mem hcondition)] at hwhere
    have hmem : condition.comparison ∈ parsed.conditions := by
      rw [hconditions]
      exact List.mem_map_of_mem hcondition
    obtain ⟨huncut, hcomma⟩ := uncut_of_parseWhere (s := s) hwhere hmem (by rwa [comparison_literals])
    refine ⟨huncut, fun values hvalues => hcomma values ?_⟩
    unfold Condition.comparison
    rw [hvalues]
    rfl
  · rintro ⟨condition, hmem, hfield⟩
    have hlong : 2 ≤ query.conditions.length := by
      have hpos := List.length_pos_of_mem hmem
      rw [List.length_tail] at hpos
      omega
    have hne : query.conditions ≠ [] := List.ne_nil_of_length_pos (by omega)
    rw [if_neg (by simpa using hne)] at hwhere
    exact parseWhere_mixed hwhere query.combinator (clause_cut hlong)
      (clause_field_cut ⟨condition, hmem, hfield⟩)

theorem read_conditions (hread : NumbersRead engine query)
    (hstrings : ∀ condition ∈ query.conditions, StringsClear condition.test) :
    query.conditions.map (Condition.read engine) = query.conditions.map Condition.comparison ↔
      ∀ condition ∈ query.conditions, condition.test.Clear engine := by
  rw [List.map_inj_left]
  refine forall₂_congr fun condition hcondition => ?_
  have hvalue : condition.read engine = condition.comparison ↔
      condition.test.read engine = condition.test.operand := by
    constructor
    · exact fun h => congrArg Comparison.value h
    · intro h
      unfold Condition.read Condition.comparison
      rw [h]
  have hcomma : ∀ values, condition.test = .isIn values → ∀ s, .string s ∈ values → comma ∉ s := by
    intro values hvalues s hs
    have hmem : .string s ∈ condition.test.literals := by
      rw [hvalues]
      exact hs
    exact (hstrings condition hcondition s hmem).2 values hvalues
  rw [hvalue, read_eq_iff hnum hcomma (hread condition hcondition), test_clear,
    and_iff_right (hstrings condition hcondition)]

/-- A rendered query is read back exactly when it is clear. -/
theorem parse_render_iff (hread : NumbersRead engine query)
    (hlength : (query.render engine).length ≤ 4000) :
    parseSoql (query.render engine) = .ok query.parsed ↔ query.Clear engine := by
  constructor
  · intro h
    obtain ⟨horder, hstrings, hfields⟩ := clear_of_parsed hnum query hlength h
    rw [parseSoql_uncut hnum query horder hlength hstrings hfields] at h
    have hconditions := congrArg ParsedQuery.conditions (Except.ok.inj h)
    exact
      { tests := (read_conditions hnum query hread hstrings).mp hconditions
        fields := fun condition hcondition hsame => hfields ⟨condition, hcondition, hsame⟩
        order := horder }
  · intro h
    have hstrings : ∀ condition ∈ query.conditions, StringsClear condition.test :=
      fun condition hcondition => (test_clear.mp (h.tests condition hcondition)).1
    have hfields : ¬ FieldCut query.combinator.other query.conditions.tail := by
      rintro ⟨condition, hcondition, hsame⟩
      exact h.fields condition hcondition hsame
    rw [parseSoql_uncut hnum query h.order hlength hstrings hfields,
      (read_conditions hnum query hread hstrings).mpr h.tests]
    rfl

end

-- ---------------------------------------------------------------------------
-- Two queries
-- ---------------------------------------------------------------------------

def fractionEngine : Engine := { plainEngine with numberText := fractionText }

theorem name_isFieldName : isFieldName (js "Name") = true := by decide

theorem amount_isFieldName : isFieldName (js "Amount") = true := by decide

theorem eq_scalar : Operator.eq ≠ .in_ := by decide

theorem gt_scalar : Operator.gt ≠ .in_ := by decide

theorem ten_rows : roundToDouble false 10 1 = .finite (10 : Nat) := by decide +kernel

/-- `SELECT * FROM Account WHERE Name = 'R and D'`. -/
def departmentQuery : Query where
  object := .account
  selection := .star
  conditions := [⟨⟨js "Name", name_isFieldName⟩,
    .compare .eq (.string (js "R and D")) eq_scalar⟩]
  combinator := .and
  orderBy := none
  limit := none

/-- `SELECT Name FROM Opportunity WHERE Name = 'Acme' AND Amount > 5 ORDER BY Amount DESC LIMIT 10`. -/
def largestQuery : Query where
  object := .opportunity
  selection := .named ⟨js "Name", name_isFieldName⟩ []
  conditions := [⟨⟨js "Name", name_isFieldName⟩, .compare .eq (.string (js "Acme")) eq_scalar⟩,
    ⟨⟨js "Amount", amount_isFieldName⟩, .compare .gt (.number (.finite 5)) gt_scalar⟩]
  combinator := .and
  orderBy := some (⟨js "Amount", amount_isFieldName⟩, .desc)
  limit := some ⟨10, ten_rows⟩

theorem largestQuery_numbers : NumbersRead fractionEngine largestQuery := by
  have hfive : stringToNumber (js "5") = .finite 5 := by decide +kernel
  intro condition hcondition q hq
  have hfinite : q = 5 := by
    rcases List.mem_cons.mp hcondition with rfl | hcondition
    · cases List.mem_singleton.mp hq
    · rw [List.mem_singleton.mp hcondition] at hq
      cases List.mem_singleton.mp hq
      rfl
  have htext : fractionText 5 = js "5" := by decide +kernel
  rw [hfinite]
  show stringToNumber (fractionText 5) = .finite 5
  rw [htext]
  exact hfive

theorem largestQuery_read_iff :
    parseSoql (largestQuery.render fractionEngine) = .ok largestQuery.parsed ↔
      largestQuery.Clear fractionEngine :=
  parse_render_iff numberText_fractionText largestQuery largestQuery_numbers (by decide +kernel)

/-- A string that has the word of a combinator in it is cut at it. -/
theorem departmentQuery_not_read :
    (departmentQuery.render fractionEngine).length ≤ 4000 ∧
      parseSoql (departmentQuery.render fractionEngine) ≠ .ok departmentQuery.parsed := by
  refine ⟨by decide +kernel, fun h => ?_⟩
  have hfails : (parseSoql (departmentQuery.render fractionEngine)).toOption.isNone = true := by
    decide +kernel
  rw [h] at hfails
  cases hfails

end McpGateway.Salesforce
