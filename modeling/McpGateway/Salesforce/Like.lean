import McpGateway.Salesforce.Soql

/-!
# LIKE

A LIKE operand is rewritten to the source of a regular expression: what has a
meaning there is escaped, then the two wildcards are replaced. The source reads
as one term a code unit of the operand. Its dots have no `s` flag, so a wildcard
does not cover a line terminator.
-/

namespace McpGateway.Salesforce

open Js Shared

-- ---------------------------------------------------------------------------
-- The source of the regular expression
-- ---------------------------------------------------------------------------

def percent : CodeUnit := unit '%'

def caret : CodeUnit := unit '^'

/-- The units that `likeToRegExp` escapes. -/
def isSyntaxUnit (c : CodeUnit) : Bool := (js ".*+?^$\x7b\x7d()|[]\\").contains c

/-- `.replace(/[...]/g, '\\$&')`. -/
def escapeUnits (s : JsString) : JsString :=
  s.flatMap fun c => if isSyntaxUnit c then [backslash, c] else [c]

/-- `.replace(/c/g, text)` of one code unit. -/
def replaceUnit (c : CodeUnit) (text s : JsString) : JsString :=
  s.flatMap fun d => if d = c then text else [d]

def likeSource (pattern : JsString) : JsString :=
  caret :: (replaceUnit underscore (js ".") (replaceUnit percent (js ".*") (escapeUnits pattern)) ++
    [dollar])

section
variable (engine : Engine)

/-- A unit of a source that stands for itself, with the `i` flag. -/
def sameUnit (c : CodeUnit) : Regex CodeUnit :=
  .one fun d => engine.canonicalize c == engine.canonicalize d

/-- The terms of a source up to its `$`; none but these are read. -/
def readTerms : JsString → Option (Regex CodeUnit)
  | [] => none
  | c :: s =>
    if c = dollar then if s = [] then some .finish else none
    else if c = backslash then
      match s with
      | [] => none
      | d :: s => if isSyntaxUnit d then (readTerms s).map (.seq (sameUnit engine d)) else none
    else if c = fullStop then
      match s with
      | asterisk :: s => (readTerms s).map (.seq (.many inLine))
      | s => (readTerms s).map (.seq (.one inLine))
    else if isSyntaxUnit c then none
    else (readTerms s).map (.seq (sameUnit engine c))

/-- `new RegExp(source, 'i')` of a source between `^` and `$`. -/
def readRegExp : JsString → Option (Regex CodeUnit)
  | [] => none
  | c :: s => if c = caret then readTerms engine s else none

end

def likeUnits (c : CodeUnit) : JsString :=
  if c = percent then js ".*"
  else if c = underscore then js "."
  else if isSyntaxUnit c then [backslash, c]
  else [c]

theorem replaced_unit (c : CodeUnit) :
    replaceUnit underscore (js ".") (replaceUnit percent (js ".*")
      (if isSyntaxUnit c then [backslash, c] else [c])) = likeUnits c := by
  unfold likeUnits
  by_cases hpercent : c = percent
  · subst hpercent
    decide
  by_cases hunderscore : c = underscore
  · subst hunderscore
    decide
  have hbackslash : ¬ backslash = percent ∧ ¬ backslash = underscore := by decide
  rw [if_neg hpercent, if_neg hunderscore]
  split
  · simp [replaceUnit, hbackslash, hpercent, hunderscore]
  · simp [replaceUnit, hpercent, hunderscore]

theorem likeSource_eq (pattern : JsString) :
    likeSource pattern = caret :: (pattern.flatMap likeUnits ++ [dollar]) := by
  unfold likeSource
  congr 2
  induction pattern with
  | nil => rfl
  | cons c pattern ih =>
    rw [List.flatMap_cons, ← ih, ← replaced_unit]
    simp only [escapeUnits, replaceUnit, List.flatMap_cons, List.flatMap_append]

theorem terms_head (pattern : JsString) :
    (pattern.flatMap likeUnits ++ [dollar]).head? ≠ some asterisk := by
  cases pattern with
  | nil => decide
  | cons c pattern =>
    rw [List.flatMap_cons, List.append_assoc]
    unfold likeUnits
    split
    · exact fun h => absurd (Option.some.inj h) (by decide)
    split
    · exact fun h => absurd (Option.some.inj h) (by decide)
    split
    · exact fun h => absurd (Option.some.inj h) (by decide)
    · next hsyntax =>
      intro h
      have hasterisk : c = asterisk := Option.some.inj h
      subst hasterisk
      exact hsyntax (by decide)

section
variable {engine : Engine}

theorem readTerms_dot {s : JsString} (h : s.head? ≠ some asterisk) :
    readTerms engine (fullStop :: s) = (readTerms engine s).map (.seq (.one inLine)) := by
  conv_lhs => unfold readTerms
  rw [if_neg (by decide), if_neg (by decide), if_pos rfl]
  split
  · next s => exact absurd rfl h
  · rfl

theorem readTerms_escaped {c : CodeUnit} {s : JsString} (h : isSyntaxUnit c = true) :
    readTerms engine (backslash :: c :: s) = (readTerms engine s).map (.seq (sameUnit engine c)) := by
  conv_lhs => unfold readTerms
  rw [if_neg (by decide), if_pos rfl]
  exact if_pos h

theorem readTerms_unit {c : CodeUnit} {s : JsString} (h : isSyntaxUnit c = false) :
    readTerms engine (c :: s) = (readTerms engine s).map (.seq (sameUnit engine c)) := by
  have hne (d : CodeUnit) (hd : isSyntaxUnit d = true) : c ≠ d := by
    rintro rfl
    rw [h] at hd
    cases hd
  conv_lhs => unfold readTerms
  rw [if_neg (hne dollar (by decide)), if_neg (hne backslash (by decide)),
    if_neg (hne fullStop (by decide)), if_neg (by rw [h]; exact Bool.false_ne_true)]

theorem readTerms_likeUnits (pattern : JsString) :
    readTerms engine (pattern.flatMap likeUnits ++ [dollar]) = some (likePattern engine pattern) := by
  induction pattern with
  | nil => rfl
  | cons c pattern ih =>
    have hhead := terms_head pattern
    rw [List.flatMap_cons, List.append_assoc]
    generalize pattern.flatMap likeUnits ++ [dollar] = rest at ih hhead ⊢
    unfold likeUnits likePattern
    by_cases hpercent : c = percent
    · subst hpercent
      rw [if_pos rfl]
      show (readTerms engine rest).map _ = _
      rw [ih]
      rfl
    rw [if_neg hpercent]
    by_cases hunderscore : c = underscore
    · subst hunderscore
      rw [if_pos rfl]
      show readTerms engine (fullStop :: rest) = _
      rw [readTerms_dot hhead, ih]
      rfl
    have hpercent' : ¬ c = unit '%' := hpercent
    rw [if_neg hunderscore, if_neg hpercent', if_neg hunderscore]
    split
    · next hsyntax =>
      rw [List.cons_append, List.singleton_append, readTerms_escaped hsyntax, ih]
      rfl
    · next hsyntax =>
      rw [List.singleton_append, readTerms_unit (Bool.eq_false_iff.mpr hsyntax), ih]
      rfl

theorem readRegExp_likeSource (pattern : JsString) :
    readRegExp engine (likeSource pattern) = some (likePattern engine pattern) := by
  rw [likeSource_eq]
  exact readTerms_likeUnits pattern

-- ---------------------------------------------------------------------------
-- Wildcard matching
-- ---------------------------------------------------------------------------

/-- What one character of an operand covers. A character is one UTF-16 code unit, as it is to
a `RegExp` without the `u` flag. -/
def Covers (engine : Engine) (c : CodeUnit) (piece : JsString) : Prop :=
  if c = percent then True
  else if c = underscore then piece.length = 1
  else ∃ d, piece = [d] ∧ engine.canonicalize c = engine.canonicalize d

/-- A cut of the subject into pieces, one for each code unit of the operand. -/
def Cut (engine : Engine) (pattern subject : JsString) (pieces : List JsString) : Prop :=
  pieces.flatten = subject ∧ List.Forall₂ (Covers engine) pattern pieces

def InOneLine (c : CodeUnit) (piece : JsString) : Prop :=
  c = percent ∨ c = underscore → ∀ d ∈ piece, isLineTerminator d = false

/-- No wildcard covers a line terminator. -/
def NoBreakCovered (pattern : JsString) (pieces : List JsString) : Prop :=
  List.Forall₂ InOneLine pattern pieces

theorem mem_ends_likeTerm {c : CodeUnit} {before s : JsString} {e : Regex.Spot CodeUnit} :
    e ∈ (if c = unit '%' then Regex.many inLine
        else if c = underscore then .one inLine
        else .one fun d => engine.canonicalize c == engine.canonicalize d).ends isWordChar (before, s) ↔
      ∃ piece, Covers engine c piece ∧ InOneLine c piece ∧ s = piece ++ e.2 ∧
        e.1 = piece.reverse ++ before := by
  unfold Covers InOneLine
  change e ∈ (if c = percent then Regex.many inLine
    else if c = underscore then .one inLine
    else .one fun d => engine.canonicalize c == engine.canonicalize d).ends isWordChar (before, s) ↔ _
  by_cases hpercent : c = percent
  · simp [hpercent, inLine]
  by_cases hunderscore : c = underscore
  · have hne : ¬ underscore = percent := by decide
    subst hunderscore
    simp only [hne, if_false, if_true, Regex.mem_ends_one, List.length_eq_one_iff]
    constructor
    · rintro ⟨d, rest, rfl, hd, rfl⟩
      exact ⟨[d], ⟨d, rfl⟩, by simpa [inLine] using hd, rfl, rfl⟩
    · rintro ⟨piece, ⟨d, rfl⟩, hline, rfl, he⟩
      refine ⟨d, e.2, rfl, ?_, Prod.ext he rfl⟩
      simpa [inLine] using hline
  · simp only [hpercent, hunderscore, if_false, Regex.mem_ends_one, or_self, false_implies, true_and,
      beq_iff_eq]
    constructor
    · rintro ⟨d, rest, rfl, hd, rfl⟩
      exact ⟨[d], ⟨d, rfl, hd⟩, rfl, rfl⟩
    · rintro ⟨piece, ⟨d, rfl, hd⟩, rfl, he⟩
      exact ⟨d, e.2, rfl, hd, Prod.ext he rfl⟩

theorem exists_ends_likePattern {pattern before s : JsString} :
    (∃ e, e ∈ (likePattern engine pattern).ends isWordChar (before, s)) ↔
      ∃ pieces, Cut engine pattern s pieces ∧ NoBreakCovered pattern pieces := by
  induction pattern generalizing before s with
  | nil =>
    show (∃ e, e ∈ Regex.finish.ends isWordChar (before, s)) ↔ _
    simp only [Regex.mem_ends_finish]
    constructor
    · rintro ⟨e, rfl, -⟩
      exact ⟨[], ⟨rfl, .nil⟩, .nil⟩
    · rintro ⟨pieces, ⟨rfl, hcovers⟩, -⟩
      cases hcovers
      exact ⟨_, rfl, rfl⟩
  | cons c pattern ih =>
    unfold likePattern
    simp only [Regex.mem_ends_seq]
    constructor
    · rintro ⟨e, ⟨before', rest⟩, hterm, he⟩
      obtain ⟨piece, hcovers, hline, rfl, -⟩ := mem_ends_likeTerm.mp hterm
      obtain ⟨pieces, ⟨rfl, hpieces⟩, hlines⟩ := ih.mp ⟨e, he⟩
      exact ⟨piece :: pieces, ⟨rfl, .cons hcovers hpieces⟩, .cons hline hlines⟩
    · rintro ⟨pieces, ⟨rfl, hcovers⟩, hlines⟩
      cases hcovers with
      | @cons _ piece _ pieces hcovers hpieces =>
        cases hlines with
        | cons hline hlines =>
          have hrest : ∃ e, e ∈ (likePattern engine pattern).ends isWordChar
              (piece.reverse ++ before, pieces.flatten) :=
            ih.mpr ⟨pieces, ⟨rfl, hpieces⟩, hlines⟩
          obtain ⟨e, he⟩ := hrest
          exact ⟨e, (piece.reverse ++ before, pieces.flatten),
            mem_ends_likeTerm.mpr ⟨piece, hcovers, hline, rfl, rfl⟩, he⟩

theorem likeTest_iff {pattern subject : JsString} : likeTest engine pattern subject = true ↔
    ∃ pieces, Cut engine pattern subject pieces ∧ NoBreakCovered pattern pieces := by
  rw [← exists_ends_likePattern, likeTest, Bool.not_eq_true', List.isEmpty_eq_false_iff_exists_mem]

end

/-- `field LIKE pattern`. -/
def likeCondition (field pattern : JsString) : Comparison :=
  { field, operator := .like, value := .one (.string pattern) }

/-- The source of an operand reads as the pattern that is tested. The test asks for a cut with
no line terminator under a wildcard, and is wildcard matching exactly where a subject that can be
cut at all can be cut so. -/
theorem like_is_wildcard_matching (engine : Engine) (field pattern subject : JsString) :
    readRegExp engine (likeSource pattern) = some (likePattern engine pattern) ∧
    (compare engine (.json (.string subject)) (likeCondition field pattern) = .ok true ↔
      ∃ pieces, Cut engine pattern subject pieces ∧ NoBreakCovered pattern pieces) ∧
    ((compare engine (.json (.string subject)) (likeCondition field pattern) = .ok true ↔
        ∃ pieces, Cut engine pattern subject pieces) ↔
      ((∃ pieces, Cut engine pattern subject pieces) →
        ∃ pieces, Cut engine pattern subject pieces ∧ NoBreakCovered pattern pieces)) := by
  refine ⟨readRegExp_likeSource pattern, ?_⟩
  have hcompare : compare engine (.json (.string subject)) (likeCondition field pattern) = .ok true ↔
      ∃ pieces, Cut engine pattern subject pieces ∧ NoBreakCovered pattern pieces := by
    rw [← likeTest_iff]
    exact ⟨Except.ok.inj, congrArg Except.ok⟩
  refine ⟨hcompare, ?_⟩
  rw [hcompare]
  constructor
  · exact fun h => h.mpr
  · intro h
    exact ⟨fun ⟨pieces, hcut, _⟩ => ⟨pieces, hcut⟩, h⟩

/-- A percent sign does not cover a line feed. -/
theorem percent_stops_at_line_feed :
    compare plainEngine (.json (.string [lineFeed])) (likeCondition (js "Name") (js "%")) =
        .ok false ∧
      Cut plainEngine (js "%") [lineFeed] [[lineFeed]] := by
  refine ⟨rfl, rfl, .cons trivial .nil⟩

end McpGateway.Salesforce
