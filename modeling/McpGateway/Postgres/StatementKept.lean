import McpGateway.Lib.PgLexBlank
import McpGateway.Lib.PgLexNames
import McpGateway.Postgres.GuardLaws

/-!
# The wrapped statement

The statement that is sent is the text the checks scanned, with literals blanked
and comments cut. It has the tokens of the caller's own statement when that has
no literal to blank and no comment that holds two tokens apart.
-/

namespace McpGateway.Postgres

open Js
open PgLex

/-- The loop cuts the comments between the two texts and keeps the white space between
them. -/
inductive Cut : JsString → JsString → JsString → Prop
  | none : Cut s s []
  | comment : opensComment s = true → Cut (afterTurn s) r w → Cut s r w
  | space : isPgSpace c = true → Cut s r w → Cut (c :: s) r (c :: w)

/-- The loop, reading `s`, and the scanner, reading `s` and `tail`, agree that `k` is what
stands outside the comments: no quote does, what is cut is no token, and no cut brings two
tokens together. -/
inductive Agrees (tail : JsString) : JsString → JsString → Prop
  | done : QuoteFree z → hasOpener z = false → (∀ c ∈ tail, isPgSpace c = true) → Agrees tail z z
  /-- The last comments take the tail in. -/
  | ends : QuoteFree z → NoOpenerIn z rest → opensComment rest = true →
      Refused z (rest ++ tail) → Cut rest [] w → Blanks (rest ++ tail) [] →
      Agrees tail (z ++ rest) (z ++ w)
  | comment : QuoteFree z → NoOpenerIn z rest → opensComment rest = true →
      Refused z (rest ++ tail) → Cut rest r w → Blanks (rest ++ tail) (r ++ tail) →
      Agrees tail r k → Fits z (w ++ k) → Refused z (w ++ k) →
      Agrees tail (z ++ rest) (z ++ (w ++ k))

def dropSemicolon (ts : List Token) : List Token :=
  if ts.getLast? = some (.self semicolon) then ts.dropLast else ts

/-- The emitted text has the caller's tokens between those of the wrapper. -/
def StatementKept (raw : JsString) (g : GuardedStatement) : Prop :=
  tokens g.sql = (tokens raw).map fun ts =>
    openingTokens ++ dropSemicolon ts ++ closingTokens g.limit

/-- The statement reads the same to the loop and to the database: the two agree on what
stands outside the comments, and what is trimmed off in front or follows a final semicolon
is white space to the database as well. -/
structure ReadsAlike (raw k : JsString) : Prop where
  before : ∀ c ∈ raw.takeWhile isSpace, isPgSpace c = true
  text : Agrees ((trimStart raw).rtakeWhile isSpace) (trim raw) k
  trailing : ∀ statement spaces, k = statement ++ semicolon :: spaces →
    (∀ c ∈ spaces, isSpace c = true) → ∀ c ∈ spaces, isPgSpace c = true

/-- A name in quotes, or a string constant with a quote around it or in it. -/
def holdsQuote : Token → Bool
  | .str opening body => opening.any isQuote || body.any isQuote
  | .quotedIdent _ => true
  | _ => false

-- ---------------------------------------------------------------------------
-- One stretch of the loop
-- ---------------------------------------------------------------------------

theorem strip_append (hz : QuoteFree z) (hno : NoOpenerIn z rest) :
    stripLiteralsAndComments (z ++ rest) = z ++ stripLiteralsAndComments rest := by
  induction z with
  | nil => rfl
  | cons c z ih =>
    rw [List.cons_append, strip_kept hno.head (hz c (.head _)),
      ih (fun d hd => hz d (.tail _ hd)) hno.tail, List.cons_append]

theorem Cut.blank (h : Cut s r w) : ∀ c ∈ w, isPgSpace c = true := by
  induction h with
  | none => exact fun _ hc => nomatch hc
  | comment _ _ ih => exact ih
  | space hc _ ih => exact List.forall_mem_cons.mpr ⟨hc, ih⟩

theorem Cut.strip (h : Cut s r w) :
    stripLiteralsAndComments s = w ++ stripLiteralsAndComments r := by
  induction h with
  | none => rfl
  | comment ho _ ih => rw [strip_comment ho, ih]
  | @space c s r w hc _ ih =>
    have ho : opensComment (c :: s) = false := by
      rw [Bool.eq_false_iff, Ne, opensComment_cons]
      rintro (⟨rfl, -⟩ | ⟨rfl, -⟩) <;> cases hc
    rw [strip_kept ho (blank_facts hc).2.1, ih, List.cons_append]

-- ---------------------------------------------------------------------------
-- Stripping keeps the tokens
-- ---------------------------------------------------------------------------

/-- What the two agree on is the stripped text, free of comments and with the tokens that
the scanner reads. -/
theorem Agrees.kept (h : Agrees tail s k) :
    stripLiteralsAndComments s = k ∧ CommentFree k ∧ tokens (s ++ tail) = tokens k := by
  induction h with
  | @done z hz hno htail =>
    have hstrip := strip_append hz (noOpenerIn_nil hno)
    rw [List.append_nil, strip_nil, List.append_nil] at hstrip
    exact ⟨hstrip, fun _ => lex_no_comment hno, tokens_append_blank hz hno htail⟩
  | @ends z rest w hz hno ho herr hcut hblank =>
    obtain ⟨ho', hno'⟩ := opens_append ho hno tail
    have hw := hcut.blank
    have happend := lex_append_blank hz hno.hasOpener hw
    have herr' : Refused z w := fun hl => by rw [happend, hl]; rfl
    have hread : ∀ ls, lex z = some ls → lex (z ++ w) = (lex w).map (ls ++ ·) :=
      fun ls hl => by rw [happend, hl]; rfl
    refine ⟨?_, ?_, ?_⟩
    · rw [strip_append hz hno, hcut.strip, strip_nil, List.append_nil]
    · have hfree := commentFree_blank_append (s := []) hw fun ls hl => by cases hl; simp
      rw [List.append_nil] at hfree
      exact commentFree_append (fun _ => lex_no_comment hno.hasOpener) hfree hread herr'
    · rw [List.append_assoc]
      refine tokens_append_congr ?_
        (fun ls hl => ⟨lex_append_comment hz ho' hno' hl, hread ls hl⟩) herr herr'
      rw [hblank.tokens, tokens_blank hw]
      rfl
  | @comment z rest r w k hz hno ho herr hcut hblank _ hfits herr' ih =>
    obtain ⟨hstrip, hfree, htok⟩ := ih
    obtain ⟨ho', hno'⟩ := opens_append ho hno tail
    have hw := hcut.blank
    have hk : QuoteFree (w ++ k) := by
      refine List.forall_mem_append.mpr ⟨fun c hc => (blank_facts (hw c hc)).2.1, ?_⟩
      rw [← hstrip]
      exact strip_quoteFree
    have hread : ∀ ls, lex z = some ls → lex (z ++ (w ++ k)) = (lex (w ++ k)).map (ls ++ ·) :=
      fun ls hl => lex_append_fits hz hk hno.hasOpener hfits hl
    refine ⟨?_, ?_, ?_⟩
    · rw [strip_append hz hno, hcut.strip, hstrip]
    · exact commentFree_append (fun _ => lex_no_comment hno.hasOpener)
        (commentFree_blank_append hw hfree) hread herr'
    · rw [List.append_assoc]
      refine tokens_append_congr ?_
        (fun ls hl => ⟨lex_append_comment hz ho' hno' hl, hread ls hl⟩) herr herr'
      rw [hblank.tokens, htok, tokens_blank_append hw]

-- ---------------------------------------------------------------------------
-- The statement inside the wrapper
-- ---------------------------------------------------------------------------

theorem trim_split (raw : JsString) :
    raw = raw.takeWhile isSpace ++ (trim raw ++ (trimStart raw).rtakeWhile isSpace) := by
  have h : trim raw ++ (trimStart raw).rtakeWhile isSpace = trimStart raw := by
    rw [trim, trimEnd, List.rdropWhile, List.rtakeWhile, ← List.reverse_append,
      List.takeWhile_append_dropWhile, List.reverse_reverse]
  rw [h, trimStart, List.takeWhile_append_dropWhile]

theorem ReadsAlike.tokens (h : ReadsAlike raw k) : PgLex.tokens raw = PgLex.tokens k := by
  conv_lhs => rw [trim_split raw]
  rw [tokens_blank_append h.before, h.text.kept.2.2]

theorem self_mem (h : lex s = some ls) (hm : .token (.self c) ∈ ls) : c ∈ s := by
  induction s using scan_induction generalizing ls with
  | nil => cases h; cases hm
  | fail s hs hl => rw [lex_none hs hl] at h; cases h
  | step s l r hl ih =>
    rw [lex_step hl] at h
    obtain ⟨ls', hls, rfl⟩ := Option.map_eq_some_iff.mp h
    rcases List.mem_cons.mp hm with rfl | hm
    · rw [(lexeme_self hl).1]
      exact .head _
    · exact (lexeme_suffix_of hl).subset (ih hls hm)

theorem dropSemicolon_of_not_mem (h : .self semicolon ∉ ts) : dropSemicolon ts = ts := by
  rw [dropSemicolon, if_neg fun hl => h (List.mem_of_getLast? hl)]

theorem dropSemicolon_append : dropSemicolon (ts ++ [.self semicolon]) = ts := by
  simp [dropSemicolon]

theorem tokens_semicolon (h : ∀ c ∈ spaces, isPgSpace c = true) :
    tokens (semicolon :: spaces) = some [.self semicolon] := by
  have hl : lexeme (semicolon :: spaces) = some (.token (.self semicolon), spaces) := by
    cases spaces <;> rfl
  rw [tokens_step hl, tokens_blank h]
  rfl

theorem stops_semicolon (h : ∀ c ∈ spaces, isPgSpace c = true) : Stops (semicolon :: spaces) := by
  have hblank := stops_blank h
  exact ⟨headNot_cons.mpr rfl, List.forall_mem_cons.mpr ⟨rfl, hblank.quotes⟩,
    fun h => hblank.dollars ((List.mem_cons.mp h).resolve_left (by decide)),
    fun h => hblank.stars ((List.mem_cons.mp h).resolve_left (by decide))⟩

/-- A trailing semicolon with white space after it adds its own token, and brings no comment. -/
theorem lex_append_semicolon (hq : QuoteFree w) (hfree : CommentFree (w ++ semicolon :: spaces))
    (hspaces : ∀ c ∈ spaces, isPgSpace c = true) :
    CommentFree w ∧
      tokens (w ++ semicolon :: spaces) = (tokens w).map (· ++ [.self semicolon]) := by
  have happend := lex_append_stop hq (stops_semicolon hspaces)
  have hsemi := tokens_semicolon hspaces
  cases hl : lex w with
  | none =>
    refine ⟨fun ls hls => ?_, ?_⟩
    · rw [hl] at hls
      cases hls
    · rw [hl, Option.bind_none] at happend
      rw [tokens, tokens, happend, hl]
      rfl
  | some ls =>
    rw [hl, Option.bind_some] at happend
    -- whatever the last lexeme is, the scanner reads the rest
    obtain ⟨tail, htail⟩ : ∃ tail, lex (resume ls (semicolon :: spaces)) = some tail := by
      refine Option.ne_none_iff_exists'.mp fun hnone => ?_
      unfold resume at hnone
      split at hnone
      · have hline : afterLine (semicolon :: spaces) = afterLine spaces := rfl
        have hblank : tokens (afterLine spaces) = some [] :=
          tokens_blank fun c hc => hspaces c ((List.dropWhile_suffix _).subset hc)
        rw [tokens, ← hline, hnone] at hblank
        cases hblank
      · rw [tokens, hnone] at hsemi
        cases hsemi
    rw [htail, Option.map_some] at happend
    have hw : CommentFree w := by
      intro ls' hls'
      rw [hl] at hls'
      cases hls'
      exact fun l hl => hfree _ happend l (List.mem_append_left _ hl)
    rw [resume, if_neg (hw.getLast hl)] at htail
    rw [tokens, htail, Option.map_some] at hsemi
    refine ⟨hw, ?_⟩
    rw [tokens, tokens, happend, hl]
    simp only [Option.map_some, List.filterMap_append, Option.some.inj hsemi]

theorem tokens_wrapped (limit : Nat) (hq : QuoteFree w) (hw : CommentFree w) :
    tokens (opening ++ w ++ closing limit) = (tokens w).map fun ts =>
      openingTokens ++ ts ++ closingTokens limit := by
  rw [tokens_emitted _ hq, tokens, Option.map_map]
  cases hl : lex w with
  | none => rfl
  | some ls => simp [hw.getLast hl]

theorem ReadsAlike.statement (h : guardStatement raw o = .ok g) (hr : ReadsAlike raw k) :
    StatementKept raw g := by
  have ha := guard_ok h
  obtain ⟨hstrip, hfree, -⟩ := hr.text.kept
  have hq := withoutTrailing_quoteFree (trim raw)
  have hspec := withoutTrailing_spec (trim raw)
  have hsingle := ha.single
  rw [StatementKept, ha.sql, hr.tokens]
  rw [hstrip] at hspec
  generalize withoutTrailing (trim raw) = w at hq hspec hsingle
  rcases hspec with rfl | ⟨spaces, hspaces, rfl⟩
  · rw [tokens_wrapped _ hq hfree, PgLex.tokens]
    cases hl : lex w with
    | none => rfl
    | some ls =>
      have hsemi : .self semicolon ∉ ls.filterMap Lexeme.token? := by
        intro hm
        obtain ⟨l, hmem, ht⟩ := List.mem_filterMap.mp hm
        cases l <;> cases ht
        exact hsingle (self_mem hl hmem)
      simp only [Option.map_some, dropSemicolon_of_not_mem hsemi]
  · obtain ⟨hw, htok⟩ := lex_append_semicolon hq hfree (hr.trailing w spaces rfl hspaces)
    rw [tokens_wrapped _ hq hw, htok, Option.map_map]
    congr 1
    funext ts
    rw [Function.comp, dropSemicolon_append]

-- ---------------------------------------------------------------------------
-- Literals are lost
-- ---------------------------------------------------------------------------

theorem not_holdsQuote {s r : JsString} (h : Unquoted s r t) : holdsQuote t = false := by
  cases t with
  | str opening body =>
    have hnone {s : JsString} (hs : QuoteFree s) : s.any isQuote = false :=
      List.any_eq_false.mpr fun c hc => Bool.eq_false_iff.mp (hs c hc)
    rw [holdsQuote, hnone h.1, hnone h.2]
    rfl
  | quotedIdent n => cases h
  | _ => rfl

theorem tokens_unquoted (hz : QuoteFree z) (h : tokens z = some ts) :
    ∀ t ∈ ts, holdsQuote t = false := by
  induction z using scan_induction generalizing ts with
  | nil => cases h; simp
  | fail z hnil hl => rw [tokens, lex_none hnil hl] at h; cases h
  | step z l r hl ih =>
    rw [tokens_step hl] at h
    obtain ⟨ts', hts, rfl⟩ := Option.map_eq_some_iff.mp h
    refine List.forall_mem_append.mpr ⟨fun t ht => ?_, ih (hz.suffix (lexeme_suffix_of hl)) hts⟩
    cases l <;> simp only [Lexeme.token?, Option.toList_none, Option.toList_some, List.not_mem_nil,
      List.mem_singleton] at ht
    rw [ht]
    exact not_holdsQuote (lexeme_unquoted hz hl)

theorem mem_dropSemicolon (h : t ∈ ts) (ht : t ≠ .self semicolon) : t ∈ dropSemicolon ts := by
  rw [dropSemicolon]
  split
  · rename_i hl
    obtain ⟨ts', rfl⟩ := List.getLast?_eq_some_iff.mp hl
    rw [List.dropLast_concat]
    simpa [ht] using h
  · exact h

/-- A statement in which the database reads a quote inside a token never keeps its tokens. -/
theorem literal_lost (h : guardStatement raw o = .ok g) (hts : tokens raw = some ts) (ht : t ∈ ts)
    (hq : holdsQuote t = true) : ¬ StatementKept raw g := by
  intro hkept
  rw [StatementKept, hts, Option.map_some] at hkept
  have hne : t ≠ .self semicolon := by
    rintro rfl
    cases hq
  have hmem : t ∈ openingTokens ++ dropSemicolon ts ++ closingTokens g.limit := by
    simp [mem_dropSemicolon ht hne]
  rw [tokens_unquoted (emitted_quoteFree h) hkept t hmem] at hq
  cases hq

/-- A statement keeps its tokens when it reads alike, and never when one of them holds a
quote. -/
theorem statement_kept (h : guardStatement raw o = .ok g) :
    ((∃ k, ReadsAlike raw k) → StatementKept raw g) ∧
      ∀ ts t, tokens raw = some ts → t ∈ ts → holdsQuote t = true → ¬ StatementKept raw g :=
  ⟨fun ⟨_, hr⟩ => hr.statement h, fun _ _ => literal_lost h⟩

/-- A comment at the end, and a blank after it that is no white space to the database. -/
theorem statement_kept_noted :
    StatementKept (js "SELECT a FROM b -- note\u00a0")
      ⟨js "SELECT * FROM (SELECT a FROM b ) AS mcp_guarded_query LIMIT 5",
        js "SELECT a FROM b -- note", 5⟩ := by
  refine (statement_kept (o := { maxRows := 5 }) rfl).1 ⟨js "SELECT a FROM b ", ?_⟩
  have hopen : ∀ y ∈ (js "SELECT a FROM b ").tails, y ≠ [] →
      opensComment (y ++ js "-- note") = false := by
    decide
  have htext : Agrees (js "\u00a0") (js "SELECT a FROM b " ++ js "-- note")
      (js "SELECT a FROM b " ++ []) :=
    .ends (by unfold QuoteFree; decide) (fun y hy => hopen y ((List.mem_tails y _).mpr hy)) rfl
      (fun h => nomatch h) (.comment rfl .none) (.next rfl rfl .none)
  refine ⟨by decide, htext, fun statement spaces hk => ?_⟩
  have hmem : semicolon ∈ js "SELECT a FROM b " := by
    rw [hk]
    simp
  exact absurd hmem (by decide)

/-- What the database refuses is sent as it is and refused. -/
example : tokens (js "SELECT 1 AS 1a") = none ∧
    ReadsAlike (js "SELECT 1 AS 1a") (js "SELECT 1 AS 1a") := by
  refine ⟨by decide, by decide, .done (by unfold QuoteFree; decide) rfl (by decide), ?_⟩
  intro statement spaces hk
  have hmem : semicolon ∈ js "SELECT 1 AS 1a" := by
    rw [hk]
    simp
  exact absurd hmem (by decide)

/-- A literal never reaches the database. -/
theorem statement_changed :
    ¬∀ raw o g, guardStatement raw o = .ok g → StatementKept raw g := by
  intro h
  have hkept := h (js "SELECT 'a'") { maxRows := 5 } ⟨_, _, 5⟩ rfl
  unfold StatementKept at hkept
  exact absurd hkept (by decide)

end McpGateway.Postgres
