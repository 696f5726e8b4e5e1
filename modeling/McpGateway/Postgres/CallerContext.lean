import McpGateway.Postgres.GuardLaws
import McpGateway.Lib.PgLexNames

/-!
# The caller's role and settings

Row-level security reads the role and two settings of the transaction, which
`set_config`, `SET ROLE` and `SET SESSION` would change. The keyword pattern
finds the last two as long as white space separates their words.
-/

namespace McpGateway.Postgres

open Js
open PgLex

-- ---------------------------------------------------------------------------
-- Two tokens side by side
-- ---------------------------------------------------------------------------

theorem pair_append_left (hx : x ∉ a) : [x, y] <:+: a ++ t ↔ [x, y] <:+: t := by
  refine ⟨fun h => ?_, fun h => h.trans (List.suffix_append a t).isInfix⟩
  induction a with
  | nil => exact h
  | cons e a ih =>
    rcases List.infix_cons_iff.mp h with h | h
    · exact absurd (by simp [(List.cons_prefix_cons.mp h).1]) hx
    · exact ih (fun h => hx (.tail _ h)) h

theorem pair_append_right (hy : y ∉ c) : [x, y] <:+: t ++ c ↔ [x, y] <:+: t := by
  refine ⟨fun h => ?_, fun h => h.trans (List.prefix_append t c).isInfix⟩
  induction t with
  | nil => exact absurd (h.subset (.tail x (.head _))) hy
  | cons e t ih =>
    rcases List.infix_cons_iff.mp h with h | h
    · obtain ⟨rfl, hp⟩ := List.cons_prefix_cons.mp h
      cases t with
      | nil => exact absurd (hp.subset (.head _)) hy
      | cons f t => exact ⟨[], t, by rw [(List.cons_prefix_cons.mp hp).1]; rfl⟩
    · exact List.infix_cons (ih h)

/-- Two tokens are neighbours exactly when only white space and comments stand
between their lexemes. -/
theorem pair_tokens {ls : List Lexeme} :
    [x, y] <:+: ls.filterMap Lexeme.token? ↔
      ∃ before gap after, ls = before ++ .token x :: (gap ++ .token y :: after) ∧
        ∀ l ∈ gap, l.token? = none := by
  have htoken {l : Lexeme} {t : Token} : l.token? = some t ↔ l = .token t := by
    cases l <;> simp [Lexeme.token?]
  constructor
  · rintro ⟨u, v, h⟩
    rw [List.append_assoc, eq_comm, List.filterMap_eq_append_iff] at h
    obtain ⟨l1, l2, rfl, -, h⟩ := h
    obtain ⟨s1, a, l3, rfl, -, ha, h⟩ := List.filterMap_eq_cons_iff.mp h
    obtain ⟨gap, b, l4, rfl, hgap, hb, -⟩ := List.filterMap_eq_cons_iff.mp h
    exact ⟨l1 ++ s1, gap, l4, by rw [htoken.mp ha, htoken.mp hb, List.append_assoc], hgap⟩
  · rintro ⟨before, gap, after, rfl, hgap⟩
    refine ⟨before.filterMap Lexeme.token?, after.filterMap Lexeme.token?, ?_⟩
    have : gap.filterMap Lexeme.token? = [] := List.filterMap_eq_nil_iff.mpr hgap
    simp [Lexeme.token?, this]

-- ---------------------------------------------------------------------------
-- The keyword pattern finds SET ROLE and SET SESSION
-- ---------------------------------------------------------------------------

theorem lex_cons (h : lex s = some (l :: ls)) : ∃ r, lexeme s = some (l, r) ∧ lex r = some ls := by
  cases hl : lexeme s with
  | none =>
    have hnil : s ≠ [] := by
      rintro rfl
      cases h
    rw [lex_none hnil hl] at h
    cases h
  | some p =>
    rw [lex_step (l := p.1) (r := p.2) hl] at h
    obtain ⟨ls', hls, he⟩ := Option.map_eq_some_iff.mp h
    obtain ⟨rfl, rfl⟩ := List.cons.inj he
    exact ⟨p.2, rfl, hls⟩

theorem lex_reaches (h : lex w = some (before ++ rest)) : ∃ s, Reaches w s ∧ lex s = some rest := by
  suffices ∀ s, Reaches w s → lex s = some (before ++ rest) → ∃ s, Reaches w s ∧ lex s = some rest from
    this w .start h
  clear h
  induction before with
  | nil => exact fun s hs h => ⟨s, hs, h⟩
  | cons l before ih =>
    intro s hs h
    obtain ⟨r, hl, hr⟩ := lex_cons h
    exact ih r (.next hs hl) hr

theorem lex_spaces (h : lex s = some (gap ++ ls)) (hgap : ∀ l ∈ gap, l = .space) :
    ∃ spaces r, s = spaces ++ r ∧ lex r = some ls ∧ (∀ c ∈ spaces, isPgSpace c = true) := by
  induction gap generalizing s with
  | nil => exact ⟨[], s, rfl, h, by simp⟩
  | cons l gap ih =>
    obtain rfl := hgap l (.head _)
    obtain ⟨r, hl, hr⟩ := lex_cons h
    obtain ⟨spaces, r', rfl, hls, hspaces⟩ := ih hr fun l hl => hgap l (.tail _ hl)
    cases s with
    | nil => cases hl
    | cons c s =>
      rcases lexeme_shape hl with ⟨-, hc, hr⟩ | ⟨h, -⟩ | ⟨h, -⟩ | ⟨⟨t, h⟩, -⟩
      · exact ⟨c :: spaces, r', by rw [← hr]; rfl, hls, List.forall_mem_cons.mpr ⟨hc, hspaces⟩⟩
      · cases h
      · cases h
      · cases h

section
variable {pre y spaces y' rest : JsString}

/-- The two words as the pattern sees them: both whole, with white space between. -/
theorem phrase_found {first second : String} (hmem : phrase first second ∈ rs)
    (hfirst : List.Forall₂ (fun c d => sameLetter c d = true) (js first) y)
    (hsecond : List.Forall₂ (fun c d => sameLetter c d = true) (js second) y')
    (hne : spaces ≠ []) (hspaces : ∀ c ∈ spaces, isSpace c = true)
    (hbefore : Regex.atBoundary isWordChar (pre.reverse, y ++ (spaces ++ (y' ++ rest))) = true)
    (hafter : Regex.atBoundary isWordChar
      (y'.reverse ++ (spaces.reverse ++ (y.reverse ++ pre.reverse)), rest) = true) :
    (wholeWord (Regex.anyOf rs)).exec isWordChar (pre ++ (y ++ (spaces ++ (y' ++ rest)))) ≠ none := by
  have hword : (y.reverse ++ pre.reverse, spaces ++ (y' ++ rest)) ∈
      (Regex.literal sameLetter (js first)).ends isWordChar
        (pre.reverse, y ++ (spaces ++ (y' ++ rest))) := Regex.literal_ends hfirst
  have hphrase := Regex.mem_ends_seq.mpr ⟨_, hword, Regex.mem_ends_seq.mpr
    ⟨_, Regex.many1_ends hne hspaces, Regex.literal_ends hsecond⟩⟩
  exact wholeWord_found (Regex.mem_ends_anyOf hmem hphrase) hbefore hafter

end

theorem isSpace_of_pg (h : isPgSpace c = true) : isSpace c = true := by
  rcases Bool.or_eq_true_iff.mp h with h | h <;> simp [isSpace, h]

/-- The words that make `SET` change the role or the session. -/
def contextWords : List JsString := [js "role", js "session"]

theorem set_phrase {n : JsString} (hn : n ∈ contextWords) :
    ∃ second, n = js second ∧ n.map lower = n ∧ n ≠ [] ∧
      (∀ c ∈ n, isWordChar c = true) ∧
      ∃ rs, forbiddenKeyword = wholeWord (Regex.anyOf rs) ∧ phrase "set" second ∈ rs := by
  simp only [contextWords, List.mem_cons, List.not_mem_nil, or_false] at hn
  rcases hn with rfl | rfl
  · exact ⟨"role", rfl, by decide, by decide, by decide, _, rfl, by simp⟩
  · exact ⟨"session", rfl, by decide, by decide, by decide, _, rfl, by simp⟩

theorem set_gap_comment (hq : QuoteFree w) (hno : forbiddenKeyword.exec isWordChar w = none)
    (hw : lex w =
      some (before ++ .token (.ident (js "set")) :: (gap ++ .token (.ident n) :: after)))
    (hn : n ∈ contextWords) : ∃ l ∈ gap, l ≠ .space := by
  by_contra hcon
  have hspace : ∀ l ∈ gap, l = .space := fun l hl => by
    by_contra h
    exact hcon ⟨l, hl, h⟩
  obtain ⟨s, hs, hlex⟩ := lex_reaches hw
  obtain ⟨r, hset, hr⟩ := lex_cons hlex
  obtain ⟨spaces, r', rfl, hr', hspaces⟩ := lex_spaces hr hspace
  obtain ⟨r'', hsecond, -⟩ := lex_cons hr'
  have hqs : QuoteFree s := hq.suffix hs.suffix
  have hqr : QuoteFree r' := hqs.suffix ((List.suffix_append spaces r').trans (lexeme_suffix_of hset))
  obtain ⟨hsh, hy, hyr⟩ := lexeme_unquoted hqs hset
  obtain ⟨hrh, hy', hyr'⟩ := lexeme_unquoted hqr hsecond
  have hsplit : s = s.takeWhile isIdentCont ++ (spaces ++ r') := by
    rw [hyr, List.takeWhile_append_dropWhile]
  have hsplit' : r' = r'.takeWhile isIdentCont ++ r'' := by
    rw [hyr', List.takeWhile_append_dropWhile]
  obtain ⟨second, rfl, hfold, hwne, hwords, rs, hrs, hmem⟩ := set_phrase hn
  have hne : spaces ≠ [] := by
    rintro rfl
    rw [List.nil_append] at hyr
    rw [hyr] at hrh
    obtain ⟨c, hc, hn⟩ := dropWhile_head hrh
    simp [isIdentCont, isTagCont, hc] at hn
  have hyne : s.takeWhile isIdentCont ≠ [] := by
    intro h
    rw [h] at hy
    cases hy
  have hyne' : r'.takeWhile isIdentCont ≠ [] := by
    intro h
    rw [h] at hy'
    exact hwne hy'.symm
  obtain ⟨pre, hpre, hstart⟩ := name_before hq hs hsh
  have hend : r''.head?.any isWordChar = false := by
    rw [hyr']
    exact name_after r'
  rw [hpre, hsplit, hsplit', hrs] at hno
  refine phrase_found hmem (sameLetter_of_fold (by decide) hy) (sameLetter_of_fold hfold hy') hne
    (fun c hc => isSpace_of_pg (hspaces c hc)) ?_ ?_ hno
  · exact boundary_before hstart hyne (folded_words hy (by decide))
  · exact boundary_after hend hyne' (folded_words hy' hwords)

-- ---------------------------------------------------------------------------
-- The emitted statement
-- ---------------------------------------------------------------------------

/-- Nothing in the text can change the transaction's role or settings. -/
structure ContextSafe (sql : JsString) : Prop where
  setConfig : ∀ ts, tokens sql = some ts → .ident (js "set_config") ∉ ts
  set : ∀ ts, tokens sql = some ts → ∀ n ∈ contextWords,
    ¬[.ident (js "set"), .ident n] <:+: ts

/-- The scanned text calls no `set_config`, and no comment hides the gap of a
`SET ROLE` or `SET SESSION` in it. -/
def NoHiddenSet (scanned : JsString) : Prop :=
  ∀ ls, lex scanned = some ls → .token (.ident (js "set_config")) ∉ ls ∧
    ∀ n ∈ contextWords, ∀ before gap after,
      ls = before ++ .token (.ident (js "set")) :: (gap ++ .token (.ident n) :: after) →
      (∀ l ∈ gap, l.token? = none) → ∀ l ∈ gap, l = .space

theorem context_safe_iff (h : guardStatement raw o = .ok g) :
    ContextSafe g.sql ↔ NoHiddenSet (withoutTrailing (trim raw)) := by
  have ha := guard_ok h
  have hq := withoutTrailing_quoteFree (trim raw)
  have hmem {ls : List Lexeme} {t : Token} : t ∈ ls.filterMap Lexeme.token? ↔ .token t ∈ ls := by
    rw [List.mem_filterMap]
    refine ⟨?_, fun h => ⟨_, h, rfl⟩⟩
    rintro ⟨l, hl, ht⟩
    cases l <;> cases ht
    exact hl
  have htokens := tokens_emitted g.limit hq
  rw [← ha.sql] at htokens
  constructor
  · intro hsafe ls hls
    rw [hls] at htokens
    refine ⟨fun hcall => hsafe.setConfig _ htokens ?_, fun n hn before gap after heq hgap => ?_⟩
    · simp only [List.mem_append]
      exact .inl (.inr (hmem.mpr hcall))
    · refine absurd ?_ (hsafe.set _ htokens n hn)
      have hpair := pair_tokens.mpr ⟨before, gap, after, heq, hgap⟩
      exact hpair.trans ⟨openingTokens, _, rfl⟩
  · intro hno
    constructor
    all_goals
      intro ts hts
      obtain ⟨ls, hls, rfl⟩ := Option.map_eq_some_iff.mp (htokens ▸ hts)
      obtain ⟨hcall, hset⟩ := hno ls hls
    · simp only [List.mem_append, not_or]
      refine ⟨⟨by decide, fun h => hcall (hmem.mp h)⟩, ?_⟩
      split
      · exact List.not_mem_nil
      · simp [closingTokens, js, unit]
    · intro n hn hpair
      have hend : Token.ident n ∉
          (if ls.getLast? = some .lineComment then [] else closingTokens g.limit) := by
        split
        · exact List.not_mem_nil
        · simp only [contextWords, List.mem_cons, List.not_mem_nil, or_false] at hn
          rcases hn with rfl | rfl <;> simp [closingTokens, js, unit]
      rw [pair_append_right hend, pair_append_left (by decide)] at hpair
      obtain ⟨before, gap, after, heq, hgap⟩ := pair_tokens.mp hpair
      obtain ⟨l, hl, hne⟩ := set_gap_comment hq ha.keyword (heq ▸ hls) hn
      exact hne (hset n hn before gap after heq hgap l hl)

/-- A statement that only reads a table. -/
theorem context_safe_plain :
    ContextSafe (js "SELECT * FROM (SELECT a FROM b) AS mcp_guarded_query LIMIT 5") ↔
      NoHiddenSet (withoutTrailing (trim (js "SELECT a FROM b"))) :=
  context_safe_iff (o := { maxRows := 5 }) (g := ⟨_, js "SELECT a FROM b", 5⟩) rfl

/-- Dollar quotes carry the arguments of `set_config` past every check. -/
theorem context_changed :
    ¬∀ raw o g, guardStatement raw o = .ok g → ContextSafe g.sql := by
  intro h
  have hsafe := h (js "SELECT set_config($$app.tenant_id$$, $$globex$$, true)") { maxRows := 5 }
    ⟨_, _, 5⟩ rfl
  exact absurd (by decide) (hsafe.setConfig _ rfl)

end McpGateway.Postgres
