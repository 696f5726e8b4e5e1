import McpGateway.Postgres.StripLaws
import McpGateway.Lib.PgLexCompose

/-!
# What the guard emits

An accepted statement passed every check, and its tokens stand between those of
the wrapper. The row cap applies exactly to statements in which no comment
brings a comment opener together.
-/

namespace McpGateway.Postgres

open Js
open PgLex

-- ---------------------------------------------------------------------------
-- Accepted statements
-- ---------------------------------------------------------------------------

/-- What every accepted statement satisfies. -/
structure Accepted (raw : JsString) (o : GuardOptions) (g : GuardedStatement) : Prop where
  nonempty : trim raw ≠ []
  length : (trim raw).length ≤ o.maxLength.getD 8000
  single : semicolon ∉ withoutTrailing (trim raw)
  leading : leadingWord (withoutTrailing (trim raw)) ∈ allowedLeadingKeywords
  keyword : forbiddenKeyword.exec isWordChar (withoutTrailing (trim raw)) = none
  identifier : forbiddenIdentifier.exec isWordChar (withoutTrailing (trim raw)) = none
  original : g.original = trim raw
  limit : g.limit = (max 1 o.maxRows).toNat
  sql : g.sql = opening ++ withoutTrailing (trim raw) ++ closing g.limit

theorem guard_ok (h : guardStatement raw o = .ok g) : Accepted raw o g := by
  unfold guardStatement at h
  simp only [bind, Except.bind, pure, Except.pure, throw, throwThe, MonadExceptOf.throw] at h
  split_ifs at h with h1 h2 h3 h4
  split at h
  · cases h
  rename_i hkeyword
  split at h
  · cases h
  rename_i hidentifier
  cases h
  exact
    { nonempty := fun h => h1 (by simp [h])
      length := Nat.le_of_not_gt h2
      single := fun h => h3 (List.contains_iff_mem.mpr h)
      leading := by simpa using h4
      keyword := Option.eq_none_iff_forall_ne_some.mpr hkeyword
      identifier := Option.eq_none_iff_forall_ne_some.mpr hidentifier
      original := rfl
      limit := by simp
      sql := rfl }

/-- The wrapped text is the stripped statement, or what stands before its last
semicolon when only white space follows it. -/
theorem withoutTrailing_spec (original : JsString) :
    withoutTrailing original = stripLiteralsAndComments original ∨
      ∃ spaces, (∀ c ∈ spaces, isSpace c = true) ∧
        stripLiteralsAndComments original = withoutTrailing original ++ semicolon :: spaces := by
  unfold withoutTrailing Regex.removeFirst
  split
  · rename_i start stop h
    right
    obtain ⟨htext, hmem⟩ := Regex.exec_some h
    obtain ⟨before, after⟩ := start
    simp only [trailingSemicolon, Regex.mem_ends_seq, Regex.mem_ends_one, Regex.mem_ends_finish] at hmem
    obtain ⟨_, ⟨c, rest, rfl, hc, rfl⟩, m, hm, hend, rfl⟩ := hmem
    obtain ⟨run, hrun, hrest, -⟩ := Regex.mem_ends_many.mp hm
    rw [hend, List.append_nil] at hrest
    refine ⟨run, hrun, ?_⟩
    rw [← htext, hend, hrest, beq_iff_eq.mp hc]
    simp
  · exact .inl rfl

theorem withoutTrailing_prefix (original : JsString) :
    withoutTrailing original <+: stripLiteralsAndComments original := by
  rcases withoutTrailing_spec original with h | ⟨spaces, -, h⟩
  · rw [h]
  · exact ⟨_, h.symm⟩

theorem withoutTrailing_quoteFree (original : JsString) : QuoteFree (withoutTrailing original) :=
  fun c hc => strip_quoteFree c ( withoutTrailing_prefix original |>.subset hc)

-- ---------------------------------------------------------------------------
-- Whole words
-- ---------------------------------------------------------------------------

/-- Where a pattern matches between two word boundaries, the whole word is found. -/
theorem wholeWord_found {r : Regex CodeUnit} {pre text : JsString} {e : Regex.Spot CodeUnit}
    (hends : e ∈ r.ends isWordChar (pre.reverse, text))
    (hbefore : Regex.atBoundary isWordChar (pre.reverse, text) = true)
    (hafter : Regex.atBoundary isWordChar e = true) :
    (wholeWord r).exec isWordChar (pre ++ text) ≠ none := by
  intro h
  have hnil := Regex.exec_none h (b := pre.reverse) (a := text) (by simp)
  have hmatch := Regex.mem_ends_seq.mpr ⟨_, Regex.mem_ends_boundary.mpr ⟨hbefore, rfl⟩,
    Regex.mem_ends_seq.mpr ⟨_, hends, Regex.mem_ends_boundary.mpr ⟨hafter, rfl⟩⟩⟩
  rw [← wholeWord, hnil] at hmatch
  cases hmatch

theorem sameLetter_of_fold (hw : cs.map lower = cs) (h : run.map lower = cs) :
    List.Forall₂ (fun c d => sameLetter c d = true) cs run := by
  have heq : List.Forall₂ (fun c d => c = d) (cs.map lower) (run.map lower) := by
    rw [hw, h, List.forall₂_eq_eq_eq]
  rw [List.forall₂_map_left_iff, List.forall₂_map_right_iff] at heq
  exact heq.imp fun c d hcd => beq_iff_eq.mpr hcd

theorem word_of_lower (h : isWordChar (lower c) = true) : isWordChar c = true := by
  unfold lower at h
  split at h
  · simp [isWordChar, isLetter, ‹isUpper c = true›]
  · exact h

theorem folded_words {y : JsString} (h : y.map lower = n) (hn : ∀ c ∈ n, isWordChar c = true) :
    ∀ c ∈ y, isWordChar c = true := by
  intro c hc
  refine word_of_lower (hn _ ?_)
  rw [← h]
  exact List.mem_map_of_mem hc

theorem head_any {y rest : JsString} (hne : y ≠ []) (h : ∀ c ∈ y, isWordChar c = true) :
    (y ++ rest).head?.any isWordChar = true := by
  cases y with
  | nil => exact absurd rfl hne
  | cons c y => exact h c (.head _)

theorem boundary_before {pre y rest : JsString} (hpre : pre.reverse.head?.any isWordChar = false)
    (hne : y ≠ []) (hy : ∀ c ∈ y, isWordChar c = true) :
    Regex.atBoundary isWordChar (pre.reverse, y ++ rest) = true := by
  rw [Regex.atBoundary, hpre, head_any hne hy]
  rfl

theorem boundary_after {before y rest : JsString} (hrest : rest.head?.any isWordChar = false)
    (hne : y ≠ []) (hy : ∀ c ∈ y, isWordChar c = true) :
    Regex.atBoundary isWordChar (y.reverse ++ before, rest) = true := by
  rw [Regex.atBoundary, hrest, head_any (by simpa using hne) fun c hc => hy c (by simpa using hc)]
  rfl

-- ---------------------------------------------------------------------------
-- The tokens of the wrapper
-- ---------------------------------------------------------------------------

def openingTokens : List Token :=
  [.ident (js "select"), .op (js "*"), .ident (js "from"), .self leftParen]

def closingTokens (limit : Nat) : List Token :=
  [.self rightParen, .ident (js "as"), .ident (js "mcp_guarded_query"), .ident (js "limit"),
    .num (decimal limit)]

theorem tokens_opening (s : JsString) : tokens (opening ++ s) = (tokens s).map (openingTokens ++ ·) := by
  have hparen : lexeme (leftParen :: s) = some (.token (.self leftParen), s) := by
    cases s <;> rfl
  rw [opening, tokens_step (l := .token (.ident (js "select"))) (r := js " * FROM (" ++ s) rfl,
    tokens_step (l := .space) (r := js "* FROM (" ++ s) rfl,
    tokens_step (l := .token (.op (js "*"))) (r := js " FROM (" ++ s) rfl,
    tokens_step (l := .space) (r := js "FROM (" ++ s) rfl,
    tokens_step (l := .token (.ident (js "from"))) (r := js " (" ++ s) rfl,
    tokens_step (l := .space) (r := js "(" ++ s) rfl,
    show js "(" ++ s = leftParen :: s from rfl, tokens_step hparen]
  cases tokens s <;> rfl

theorem tokens_closing (limit : Nat) : tokens (closing limit) = some (closingTokens limit) := by
  let d := decimal limit
  have hnum : tokens d = some [.num d] := by
    rw [tokens_step (lexeme_digits (fun c => isDigit_of_mem_decimal) decimal_ne_nil)]
    rfl
  rw [closing, tokens_step (l := .token (.self rightParen)) (r := js " AS mcp_guarded_query LIMIT " ++ d) rfl,
    tokens_step (l := .space) (r := js "AS mcp_guarded_query LIMIT " ++ d) rfl,
    tokens_step (l := .token (.ident (js "as"))) (r := js " mcp_guarded_query LIMIT " ++ d) rfl,
    tokens_step (l := .space) (r := js "mcp_guarded_query LIMIT " ++ d) rfl,
    tokens_step (l := .token (.ident (js "mcp_guarded_query"))) (r := js " LIMIT " ++ d) rfl,
    tokens_step (l := .space) (r := js "LIMIT " ++ d) rfl,
    tokens_step (l := .token (.ident (js "limit"))) (r := js " " ++ d) rfl,
    tokens_step (l := .space) (r := d) rfl, hnum]
  rfl

theorem occurs_opening (t : Token) (s : JsString) :
    Occurs t (opening ++ s) ↔ t ∈ openingTokens ∨ Occurs t s := by
  have hparen : lexeme (leftParen :: s) = some (.token (.self leftParen), s) := by
    cases s <;> rfl
  rw [opening, occurs_step (l := .token (.ident (js "select"))) (r := js " * FROM (" ++ s) rfl,
    occurs_step (l := .space) (r := js "* FROM (" ++ s) rfl,
    occurs_step (l := .token (.op (js "*"))) (r := js " FROM (" ++ s) rfl,
    occurs_step (l := .space) (r := js "FROM (" ++ s) rfl,
    occurs_step (l := .token (.ident (js "from"))) (r := js " (" ++ s) rfl,
    occurs_step (l := .space) (r := js "(" ++ s) rfl,
    show js "(" ++ s = leftParen :: s from rfl, occurs_step hparen]
  simp [openingTokens, or_assoc, eq_comm]

theorem stops_closing (limit : Nat) : Stops (closing limit) := by
  have hdigit {c : CodeUnit} (hc : isDigit c = false) (h : c ∉ js ") AS mcp_guarded_query LIMIT ") :
      c ∉ closing limit := by
    intro hm
    rcases List.mem_append.mp hm with hm | hm
    · exact h hm
    · rw [isDigit_of_mem_decimal hm] at hc
      cases hc
  refine ⟨?_, fun c hc => ?_, hdigit rfl (by decide), hdigit rfl (by decide)⟩
  · rw [closing]
    exact headNot_cons.mpr rfl
  · rw [Bool.eq_false_iff]
    intro hq
    rcases Bool.or_eq_true_iff.mp hq with h | h
    · rw [beq_iff_eq.mp h] at hc
      exact hdigit rfl (by decide) hc
    · rw [beq_iff_eq.mp h] at hc
      exact hdigit rfl (by decide) hc

theorem afterLine_closing (limit : Nat) : afterLine (closing limit) = [] := by
  refine List.dropWhile_eq_nil_iff.mpr fun c hc => ?_
  rcases List.mem_append.mp hc with hc | hc
  · exact (by decide : ∀ c ∈ js ") AS mcp_guarded_query LIMIT ", (!isNewline c) = true) c hc
  · rw [Bool.not_eq_true', Bool.eq_false_iff]
    intro hn
    have hd := isDigit_of_mem_decimal hc
    rcases Bool.or_eq_true_iff.mp hn with h | h <;> rw [beq_iff_eq.mp h] at hd <;> cases hd

/-- The tokens of the emitted text: those of the wrapped text between those of
the wrapper, unless that text ends in a line comment. -/
theorem tokens_emitted (limit) (hw : QuoteFree w) :
    tokens (opening ++ w ++ closing limit) = (lex w).map fun ls =>
      openingTokens ++ ls.filterMap Lexeme.token? ++
        if ls.getLast? = some .lineComment then [] else closingTokens limit := by
  rw [List.append_assoc, tokens_opening, tokens, lex_append_stop hw (stops_closing limit)]
  cases lex w with
  | none => rfl
  | some ls =>
    have hclosing := tokens_closing limit
    simp only [Option.bind_some, Option.map_some, resume]
    split
    · rw [afterLine_closing, lex_nil]
      simp
    · cases hl : lex (closing limit) with
      | none => rw [tokens, hl] at hclosing; cases hclosing
      | some cs =>
        rw [tokens, hl] at hclosing
        simp [← Option.some.inj hclosing]

/-- The tokens a scan of the emitted text comes to are those it comes to in the wrapped text and
the wrapper's own, also when an error follows. -/
theorem occurs_emitted (limit : Nat) (hw : QuoteFree w) :
    (Occurs t w → Occurs t (opening ++ w ++ closing limit)) ∧
      (Occurs t (opening ++ w ++ closing limit) →
        t ∈ openingTokens ∨ Occurs t w ∨ t ∈ closingTokens limit) := by
  obtain ⟨hkept, honly⟩ := occurs_append_stop (t := t) hw (stops_closing limit)
    (afterLine_closing limit)
  rw [List.append_assoc, occurs_opening]
  exact ⟨fun h => .inr (hkept h), fun h => h.imp_right fun h =>
    (honly h).imp_right (mem_tokens (tokens_closing limit)).mpr⟩

theorem emitted_quoteFree (h : guardStatement raw o = .ok g) : QuoteFree g.sql := by
  rw [(guard_ok h).sql]
  refine List.forall_mem_append.mpr ⟨List.forall_mem_append.mpr ⟨by decide, ?_⟩, ?_⟩
  · exact withoutTrailing_quoteFree _
  · exact (stops_closing _).quotes

end McpGateway.Postgres
