import McpGateway.Lib.PgLex

/-!
# Laws of the scanner

Each scanner returns a suffix of its text, so a scan ends. A text followed by a
character that continues nothing is scanned as it is alone, and so is one
followed by a comment.
-/

namespace PgLex

open McpGateway.Js

-- ---------------------------------------------------------------------------
-- Every scanner leaves a suffix
-- ---------------------------------------------------------------------------

theorem afterBlock_suffix (h : afterBlock n s = some r) : r <:+ s := by
  fun_induction afterBlock n s with
  | case1 | case2 => cases h
  | case3 depth c d s _ ih => exact (ih h).trans ⟨[c, d], rfl⟩
  | case4 c d s => cases h; exact ⟨[c, d], rfl⟩
  | case5 c d s _ _ depth ih => exact (ih h).trans ⟨[c, d], rfl⟩
  | case6 depth c d s _ _ ih => exact (ih h).trans ⟨[c], rfl⟩

theorem suffix_of_map {f : α × JsString → β × JsString} (h : o.map f = some b)
    (hf : ∀ b, (f b).2 = b.2) (ho : ∀ b, o = some b → b.2 <:+ s) : b.2 <:+ s := by
  obtain ⟨b', hb, rfl⟩ := Option.map_eq_some_iff.mp h
  rw [hf]
  exact ho b' hb

theorem quoteBody_suffix (h : quoteBody q s = some b) : b.2 <:+ s := by
  fun_induction quoteBody q s generalizing b with
  | case1 | case3 => cases h
  | case2 | case5 => cases h; exact List.suffix_cons _ _
  | case4 s ih =>
    exact suffix_of_map h (fun _ => rfl) fun b hb => (ih hb).trans ⟨[q, q], rfl⟩
  | case6 c d s _ ih =>
    exact suffix_of_map h (fun _ => rfl) fun b hb => (ih hb).trans ⟨[c], rfl⟩

theorem escapeBody_suffix (h : escapeBody s = some b) : b.2 <:+ s := by
  fun_induction escapeBody s generalizing b with
  | case1 | case3 => cases h
  | case2 | case6 => cases h; exact List.suffix_cons _ _
  | case4 d s ih =>
    exact suffix_of_map h (fun _ => rfl) fun b hb => (ih hb).trans ⟨[backslash, d], rfl⟩
  | case5 s _ ih =>
    exact suffix_of_map h (fun _ => rfl) fun b hb => (ih hb).trans ⟨[singleQuote, singleQuote], rfl⟩
  | case7 c d s _ _ ih =>
    exact suffix_of_map h (fun _ => rfl) fun b hb => (ih hb).trans ⟨[c], rfl⟩

theorem dollarBody_suffix (h : dollarBody d s = some b) : b.2 <:+ s := by
  induction s generalizing b with
  | nil => simp [dollarBody] at h; simp [← h.2]
  | cons c s ih =>
    simp only [dollarBody] at h
    split at h
    · cases h; exact List.drop_suffix _ _
    · obtain ⟨b', hb, rfl⟩ := Option.map_eq_some_iff.mp h
      exact (ih hb).trans ⟨[c], rfl⟩

theorem digitRun_append_snd (p : CodeUnit → Bool) (s) : (digitRun p s).1 ++ (digitRun p s).2 = s := by
  fun_induction digitRun p s with
  | case1 | case2 | case3 | case5 => rfl
  | case4 c d s _ ih => simpa using ih

theorem digitRun_suffix : (digitRun p s).2 <:+ s := ⟨_, digitRun_append_snd p s⟩

theorem fraction_suffix : (fraction b s).2 <:+ s := by
  fun_cases fraction b s with
  | case1 | case3 | case6 => exact List.suffix_rfl
  | case2 c => exact ⟨[c], rfl⟩
  | case4 c d s => exact digitRun_suffix.trans ⟨[c], rfl⟩
  | case5 c d s => exact ⟨[c], rfl⟩

theorem exponent_suffix : (exponent s).2 <:+ s := by
  fun_cases exponent s with
  | case1 c d s => exact digitRun_suffix.trans ⟨[c], rfl⟩
  | case2 c d s => exact digitRun_suffix.trans ⟨[c, d], rfl⟩
  | case3 | case4 => exact List.suffix_rfl

theorem digitRun_of_head (hc : p c = true) : (digitRun p (c :: s)).2 <:+ s := by
  cases s with
  | nil => simp [digitRun, hc]
  | cons d s => simpa [digitRun, hc] using digitRun_suffix

theorem digitRun_stop (hp : p c = false) (hc : c ≠ underscore) :
    digitRun p (c :: s) = ([], c :: s) := by
  cases s <;> simp [digitRun, hp, hc]

theorem fraction_dot (hd : isDigit d = true) :
    fraction b (fullStop :: d :: s) =
      (fullStop :: (digitRun isDigit (d :: s)).1, (digitRun isDigit (d :: s)).2) := by
  simp [fraction, hd]

theorem endNumber_eq (h : endNumber text rest = some b) :
    b = (text, rest) ∧ rest.head?.any isIdentStart = false := by
  simp only [endNumber] at h
  split at h
  · cases h
  · exact ⟨by cases h; rfl, Bool.not_eq_true _ ▸ ‹¬_›⟩

theorem decimalNumber_suffix (hs : isDigit c = true ∨ c = fullStop ∧ s.head?.any isDigit = true)
    (h : decimalNumber (c :: s) = some b) :
    b.2 <:+ s := by
  obtain ⟨rfl, -⟩ := endNumber_eq h
  refine exponent_suffix.trans ?_
  by_cases hc : isDigit c = true
  · exact fraction_suffix.trans (digitRun_of_head hc)
  · obtain ⟨rfl, hd⟩ := hs.resolve_left hc
    cases s with
    | nil => simp at hd
    | cons d s =>
      rw [digitRun_stop rfl (by decide), fraction_dot (by simpa using hd)]
      exact digitRun_suffix

theorem number_suffix (hs : isDigit c = true ∨ c = fullStop ∧ s.head?.any isDigit = true)
    (h : number (c :: s) = some b) : b.2 <:+ s := by
  cases s with
  | nil => exact decimalNumber_suffix hs h
  | cons d s =>
    simp only [number] at h
    split at h
    · split at h
      · cases h
      · obtain ⟨rfl, -⟩ := endNumber_eq h
        exact digitRun_suffix.trans ⟨[d], rfl⟩
    · exact decimalNumber_suffix hs h

theorem number_end (h : number s = some b) : b.2.head?.any isIdentStart = false := by
  have hend {text rest : JsString} (h : endNumber text rest = some b) :
      b.2.head?.any isIdentStart = false := by
    obtain ⟨rfl, hr⟩ := endNumber_eq h
    exact hr
  unfold number at h
  split at h
  · split at h
    · split at h
      · cases h
      · exact hend h
    · exact hend h
  · exact hend h

def opensComment : JsString → Bool
  | c :: d :: _ => (c == hyphen && d == hyphen) || (c == slash && d == asterisk)
  | _ => false

theorem opensComment_cons :
    opensComment (c :: s) = true ↔
      (c = hyphen ∧ s.head? = some hyphen) ∨ (c = slash ∧ s.head? = some asterisk) := by
  cases s <;> simp [opensComment]

theorem beforeComment_cons (h : opensComment (c :: s) = false) :
    beforeComment (c :: s) = c :: beforeComment s := by
  cases s with
  | nil => rfl
  | cons d s =>
    have : ¬((c = hyphen ∧ d = hyphen) ∨ (c = slash ∧ d = asterisk)) := by
      simpa [opensComment] using h
    simp [beforeComment, this]

theorem opensComment_takeWhile :
    opensComment (c :: s.takeWhile isOpChar) = opensComment (c :: s) := by
  cases s with
  | nil => rfl
  | cons d s =>
    by_cases hd : isOpChar d = true
    · simp [hd, opensComment]
    · have h1 : d ≠ hyphen := by rintro rfl; exact hd rfl
      have h2 : d ≠ asterisk := by rintro rfl; exact hd rfl
      simp [hd, opensComment, h1, h2]

theorem operator_cons (hc : isOpChar c = true) (h : opensComment (c :: s) = false) :
    ∃ t, operator (c :: s) = c :: t := by
  rw [operator, List.takeWhile_cons_of_pos hc, beforeComment_cons (opensComment_takeWhile.trans h)]
  simp only [dropSigns]
  split
  · exact ⟨_, rfl⟩
  · exact ⟨_, rfl⟩

-- ---------------------------------------------------------------------------
-- One lexeme leaves less
-- ---------------------------------------------------------------------------

theorem name_suffix (hc : isIdentStart c = true) (h : name c s = some (l, r)) : r <:+ s := by
  simp only [name] at h
  split at h
  · exact (suffix_of_map h (fun _ => rfl) fun b hb => escapeBody_suffix hb).trans s.tail_suffix
  split at h
  · exact (suffix_of_map h (fun _ => rfl) fun b hb => quoteBody_suffix hb).trans s.tail_suffix
  split at h
  · exact (suffix_of_map h (fun _ => rfl) fun b hb => quoteBody_suffix hb).trans (s.drop_suffix 2)
  split at h
  · exact (suffix_of_map h (fun _ => rfl) fun b hb => quoteBody_suffix hb).trans (s.drop_suffix 2)
  · cases h
    rw [List.dropWhile_cons_of_pos (by simp [isIdentCont, isTagCont, hc])]
    exact List.dropWhile_suffix _

theorem dollarSign_suffix (h : dollarSign s = some (l, r)) : r <:+ s := by
  simp only [dollarSign] at h
  split at h
  · split at h
    · cases h
    · cases h; exact List.dropWhile_suffix _
  split at h
  · exact (suffix_of_map h (fun _ => rfl) fun b hb => dollarBody_suffix hb).trans
      ((List.tail_suffix _).trans (List.dropWhile_suffix _))
  · cases h; exact List.suffix_rfl

theorem punctuation_suffix : (punctuation c s).2 <:+ s := by
  cases s with
  | nil => exact List.suffix_rfl
  | cons d s =>
    simp only [punctuation]
    split
    · exact ⟨[d], rfl⟩
    · exact List.suffix_rfl

theorem start_spec :
    match start c s with
    | .space => isPgSpace c = true
    | .line => c = hyphen ∧ s.head? = some hyphen
    | .block => c = slash ∧ s.head? = some asterisk
    | .quote => c = singleQuote
    | .quotedName => c = doubleQuote
    | .dollar => c = dollar
    | .number => isDigit c = true ∨ c = fullStop ∧ s.head?.any isDigit = true
    | .name => isIdentStart c = true
    | .operator => isOpChar c = true ∧ opensComment (c :: s) = false
    | .punctuation => isDigit c = false ∧ isIdentStart c = false ∧ isOpChar c = false := by
  unfold start
  split_ifs with h1 h2 h3 h4 h5 h6 h7 h8 h9
  · exact h1
  · exact h2
  · exact h3
  · exact h4
  · exact h5
  · exact h6
  · simpa using h7
  · exact h8
  · refine ⟨h9, ?_⟩
    rw [Bool.eq_false_iff, Ne, opensComment_cons]
    exact fun hc => hc.elim h2 h3
  · exact ⟨by simp_all, by simpa using h8, by simpa using h9⟩

theorem lexeme_suffix (h : lexeme (c :: s) = some (l, r)) : r <:+ s := by
  have hs := start_spec (c := c) (s := s)
  simp only [lexeme] at h
  cases hk : start c s <;> simp only [hk] at h hs
  case space => cases h; exact List.suffix_rfl
  case line => cases h; exact List.dropWhile_suffix _
  case block =>
    obtain ⟨r', hr, he⟩ := Option.map_eq_some_iff.mp h
    cases he
    exact (afterBlock_suffix hr).trans s.tail_suffix
  case quote => exact suffix_of_map h (fun _ => rfl) fun b hb => quoteBody_suffix hb
  case quotedName => exact suffix_of_map h (fun _ => rfl) fun b hb => quoteBody_suffix hb
  case dollar => exact dollarSign_suffix h
  case number => exact suffix_of_map h (fun _ => rfl) fun b hb => number_suffix hs hb
  case name => exact name_suffix hs h
  case operator =>
    obtain ⟨t, ht⟩ := operator_cons hs.1 hs.2
    rw [ht] at h
    cases h
    exact List.drop_suffix t.length s
  case punctuation =>
    rw [← show (punctuation c s).2 = r by rw [Option.some.inj h]]
    exact punctuation_suffix

theorem lexeme_length (h : lexeme s = some (l, r)) : r.length < s.length := by
  cases s with
  | nil => cases h
  | cons c s => exact Nat.lt_succ_of_le (lexeme_suffix h).length_le

theorem lexFuel_of_le (h : s.length ≤ fuel) : lexFuel fuel s = lex s := by
  induction hn : s.length using Nat.strong_induction_on generalizing s fuel with
  | _ n ih =>
    subst hn
    cases s with
    | nil => cases fuel <;> rfl
    | cons c s =>
      obtain ⟨fuel, rfl⟩ : ∃ f, fuel = f + 1 := ⟨fuel - 1, by simp at h; omega⟩
      simp only [lex, lexFuel, List.length_cons]
      cases hl : lexeme (c :: s) with
      | none => rfl
      | some p =>
        obtain ⟨l, r⟩ := p
        have hr := lexeme_length hl
        simp only [List.length_cons] at h hr
        simp only [Option.bind_eq_bind, Option.bind_some]
        have hlex (f : Nat) (hf : r.length ≤ f) : lexFuel f r = lex r :=
          ih r.length (by simp; omega) hf rfl
        rw [hlex fuel (by omega), hlex s.length (by omega)]

theorem lex_nil : lex [] = some [] := rfl

theorem lex_step (h : lexeme s = some (l, r)) : lex s = (lex r).map (l :: ·) := by
  cases s with
  | nil => cases h
  | cons c s =>
    have hr : r.length ≤ s.length := by simpa [Nat.lt_succ_iff] using lexeme_length h
    rw [lex]
    simp only [List.length_cons, lexFuel, h, Option.bind_eq_bind, Option.bind_some, lexFuel_of_le hr]
    cases lex r <;> rfl

theorem lex_none (hs : s ≠ []) (h : lexeme s = none) : lex s = none := by
  cases s with
  | nil => exact absurd rfl hs
  | cons c s => simp [lex, lexFuel, h]

theorem tokens_step (h : lexeme s = some (l, r)) :
    tokens s = (tokens r).map (l.token?.toList ++ ·) := by
  rw [tokens, lex_step h, tokens]
  cases lex r with
  | none => rfl
  | some ls => cases l <;> rfl

theorem scan_induction {P : JsString → Prop} (nil : P [])
    (fail : ∀ s, s ≠ [] → lexeme s = none → P s)
    (step : ∀ s l r, lexeme s = some (l, r) → P r → P s) (s : JsString) : P s := by
  induction hn : s.length using Nat.strong_induction_on generalizing s with
  | _ n ih =>
    subst hn
    by_cases hnil : s = []
    · rw [hnil]; exact nil
    cases hl : lexeme s with
    | none => exact fail s hnil hl
    | some p => exact step s p.1 p.2 hl (ih _ (lexeme_length hl) _ rfl)

theorem lexeme_ne_nil (h : lexeme s = some p) : s ≠ [] := by
  rintro rfl
  cases h

theorem lex_eq_nil (h : lex s = some []) : s = [] := by
  induction s using scan_induction with
  | nil => rfl
  | fail s hs hl => rw [lex_none hs hl] at h; cases h
  | step s l r hl _ => rw [lex_step hl] at h; simp at h

/-- A scan of `s` comes to `r` between two lexemes. -/
inductive Reaches (s : JsString) : JsString → Prop
  | start : Reaches s s
  | next : Reaches s r → lexeme r = some (l, r') → Reaches s r'

theorem lexeme_suffix_of (h : lexeme s = some (l, r)) : r <:+ s := by
  cases s with
  | nil => cases h
  | cons c s => exact (lexeme_suffix h).trans (List.suffix_cons c s)

theorem Reaches.suffix (h : Reaches s r) : r <:+ s := by
  induction h with
  | start => exact List.suffix_rfl
  | next _ hl ih => exact (lexeme_suffix_of hl).trans ih

theorem Reaches.cases_head (h : Reaches s x) :
    s = x ∨ ∃ l r, lexeme s = some (l, r) ∧ Reaches r x := by
  induction h with
  | start => exact .inl rfl
  | next _ hl ih =>
    right
    obtain rfl | ⟨l, r, hhead, hrest⟩ := ih
    · exact ⟨_, _, hl, .start⟩
    · exact ⟨l, r, hhead, .next hrest hl⟩

theorem Reaches.trans (h : Reaches z r) (hr : Reaches r x) : Reaches z x := by
  induction hr with
  | start => exact h
  | next _ hl ih => exact .next ih hl

/-- A scan of `s` comes to the token, whatever the rest of the text is. -/
def Occurs (t : Token) (s : JsString) : Prop := ∃ x r, Reaches s x ∧ lexeme x = some (.token t, r)

theorem occurs_none (h : lexeme s = none) : ¬ Occurs t s := by
  rintro ⟨x, r, hx, htoken⟩
  obtain rfl | ⟨l, r', hl, -⟩ := hx.cases_head
  · rw [h] at htoken
    cases htoken
  · rw [h] at hl
    cases hl

theorem occurs_step (h : lexeme s = some (l, r)) : Occurs t s ↔ l = .token t ∨ Occurs t r := by
  constructor
  · rintro ⟨x, r', hx, htoken⟩
    obtain rfl | ⟨l', r'', hl, hrest⟩ := hx.cases_head
    · rw [h] at htoken
      cases htoken
      exact .inl rfl
    · rw [h] at hl
      cases hl
      exact .inr ⟨x, r', hrest, htoken⟩
  · rintro (rfl | ⟨x, r', hx, htoken⟩)
    · exact ⟨s, r, .start, h⟩
    · exact ⟨x, r', .trans (.next .start h) hx, htoken⟩

theorem mem_tokens {ts : List Token} (h : tokens s = some ts) : t ∈ ts ↔ Occurs t s := by
  induction s using scan_induction generalizing ts with
  | nil =>
    cases h
    exact iff_of_false List.not_mem_nil (occurs_none rfl)
  | fail s hnil hl =>
    rw [tokens, lex_none hnil hl] at h
    cases h
  | step s l r hl ih =>
    rw [tokens_step hl] at h
    obtain ⟨rest, hrest, rfl⟩ := Option.map_eq_some_iff.mp h
    rw [occurs_step hl, ← ih hrest, List.mem_append, Option.mem_toList]
    cases l <;> simp [Lexeme.token?]

-- ---------------------------------------------------------------------------
-- What kind of lexeme starts where
-- ---------------------------------------------------------------------------

theorem op_facts (h : isOpChar c = true) :
    isPgSpace c = false ∧ isQuote c = false ∧ isTagCont c = false ∧ c ≠ dollar ∧ c ≠ fullStop := by
  have hmem : c ∈ js "~!@#^&|?+-*/%<>=" ++ [0x60] := by
    rcases Bool.or_eq_true_iff.mp h with h | h
    · exact List.mem_append_left _ (by simpa using h)
    · simp [beq_iff_eq.mp h]
  exact (by decide : ∀ d ∈ js "~!@#^&|?+-*/%<>=" ++ [0x60], isPgSpace d = false ∧
    isQuote d = false ∧ isTagCont d = false ∧ d ≠ dollar ∧ d ≠ fullStop) c hmem

theorem lexeme_operator (hc : isOpChar c = true) (ho : opensComment (c :: s) = false) :
    lexeme (c :: s) =
      some (.token (.op (operator (c :: s))), (c :: s).drop (operator (c :: s)).length) := by
  obtain ⟨h1, h2, h3, h4, h5⟩ := op_facts hc
  simp only [isTagCont, Bool.or_eq_false_iff] at h3
  simp only [isQuote, Bool.or_eq_false_iff, beq_eq_false_iff_ne] at h2
  rw [Bool.eq_false_iff, Ne, opensComment_cons, not_or] at ho
  have hstart : start c s = .operator := by
    simp [start, h1, h2, h3, h4, h5, ho, hc]
  rw [lexeme, hstart]

theorem map_token {o : Option α} {f : α → Scanned} (h : o.map f = some (l, r))
    (hf : ∀ b, ∃ t, (f b).1 = .token t) : ∃ t, l = .token t := by
  obtain ⟨b, -, hb⟩ := Option.map_eq_some_iff.mp h
  obtain ⟨t, ht⟩ := hf b
  exact ⟨t, by rw [← ht, hb]⟩

theorem dollarSign_token (h : dollarSign s = some (l, r)) : ∃ t, l = .token t := by
  simp only [dollarSign] at h
  split at h
  · split at h
    · cases h
    · cases h; exact ⟨_, rfl⟩
  split at h
  · exact map_token h fun b => ⟨_, rfl⟩
  · cases h; exact ⟨_, rfl⟩

theorem name_token (h : name c s = some (l, r)) : ∃ t, l = .token t := by
  simp only [name] at h
  split_ifs at h
  · exact map_token h fun b => ⟨_, rfl⟩
  · exact map_token h fun b => ⟨_, rfl⟩
  · exact map_token h fun b => ⟨_, rfl⟩
  · exact map_token h fun b => ⟨_, rfl⟩
  · cases h; exact ⟨_, rfl⟩

theorem punctuation_token : ∃ t, (punctuation c s).1 = .token t := by
  cases s with
  | nil => exact ⟨_, rfl⟩
  | cons d s =>
    simp only [punctuation]
    split <;> exact ⟨_, rfl⟩

theorem start_of_opens (h : opensComment (c :: s) = true) : start c s = .line ∨ start c s = .block := by
  rcases opensComment_cons.mp h with ⟨rfl, hs⟩ | ⟨rfl, hs⟩
  · left; simp [start, hs, show isPgSpace hyphen = false from rfl]
  · right; simp [start, hs, show isPgSpace slash = false from rfl, show asterisk ≠ hyphen by decide]

theorem lexeme_shape (h : lexeme (c :: s) = some (l, r)) :
    (l = .space ∧ isPgSpace c = true ∧ r = s) ∨
    (l = .lineComment ∧ c = hyphen ∧ s.head? = some hyphen ∧ r = afterLine s) ∨
    (l = .blockComment ∧ c = slash ∧ s.head? = some asterisk ∧ afterBlock 0 s.tail = some r) ∨
    ((∃ t, l = .token t) ∧ opensComment (c :: s) = false) := by
  have hspec := start_spec (c := c) (s := s)
  have hopen : start c s ≠ .line → start c s ≠ .block → opensComment (c :: s) = false := by
    intro h1 h2
    rw [Bool.eq_false_iff]
    exact fun h => (start_of_opens h).elim h1 h2
  rw [lexeme] at h
  cases hk : start c s <;> simp only [hk] at h hspec hopen
  case space => cases h; exact .inl ⟨rfl, hspec, rfl⟩
  case line => cases h; exact .inr (.inl ⟨rfl, hspec.1, hspec.2, rfl⟩)
  case block =>
    obtain ⟨r', hr, he⟩ := Option.map_eq_some_iff.mp h
    cases he
    exact .inr (.inr (.inl ⟨rfl, hspec.1, hspec.2, hr⟩))
  all_goals refine .inr (.inr (.inr ⟨?_, hopen (by simp) (by simp)⟩))
  case quote => exact map_token h fun b => ⟨_, rfl⟩
  case quotedName => exact map_token h fun b => ⟨_, rfl⟩
  case dollar => exact dollarSign_token h
  case number => exact map_token h fun b => ⟨_, rfl⟩
  case name => exact name_token h
  case operator => cases h; exact ⟨_, rfl⟩
  case punctuation =>
    obtain ⟨t, ht⟩ := punctuation_token (c := c) (s := s)
    exact ⟨t, by rw [← ht, Option.some.inj h]⟩

def hasOpener : JsString → Bool
  | [] => false
  | c :: s => opensComment (c :: s) || hasOpener s

theorem hasOpener_of_suffix (h : v <:+ w) (hv : hasOpener v = true) : hasOpener w = true := by
  obtain ⟨u, rfl⟩ := h
  induction u with
  | nil => exact hv
  | cons c u ih => simp [hasOpener, ih]

theorem hasOpener_of_opens (h : opensComment s = true) : hasOpener s = true := by
  cases s with
  | nil => cases h
  | cons c s => simp [hasOpener, h]

theorem lexeme_token (ho : hasOpener s = false) (h : lexeme s = some (l, r)) :
    l = .space ∨ ∃ t, l = .token t := by
  cases s with
  | nil => cases h
  | cons c s =>
    have ho : opensComment (c :: s) = false := by
      rw [Bool.eq_false_iff] at ho ⊢
      exact fun h => ho (hasOpener_of_opens h)
    rw [Bool.eq_false_iff, Ne, opensComment_cons] at ho
    rcases lexeme_shape h with ⟨hl, -⟩ | ⟨-, hc, hs, -⟩ | ⟨-, hc, hs, -⟩ | ⟨ht, -⟩
    · exact .inl hl
    · exact absurd (.inl ⟨hc, hs⟩) ho
    · exact absurd (.inr ⟨hc, hs⟩) ho
    · exact .inr ht

theorem lex_no_comment (ho : hasOpener s = false) (h : lex s = some ls) :
    ∀ l ∈ ls, l = .space ∨ ∃ t, l = .token t := by
  induction s using scan_induction generalizing ls with
  | nil => cases h; simp
  | fail s hs hl => rw [lex_none hs hl] at h; cases h
  | step s l r hl ih =>
    rw [lex_step hl] at h
    obtain ⟨ls', hls, rfl⟩ := Option.map_eq_some_iff.mp h
    have hr : hasOpener r = false := by
      rw [Bool.eq_false_iff] at ho ⊢
      exact fun hr => ho (hasOpener_of_suffix (lexeme_suffix_of hl) hr)
    exact List.forall_mem_cons.mpr ⟨lexeme_token ho hl, ih hr hls⟩

theorem digitRun_all (h : ∀ c ∈ s, p c = true) : digitRun p s = (s, []) := by
  fun_induction digitRun p s with
  | case1 | case2 => rfl
  | case3 c hc => exact absurd (h c (by simp)) hc
  | case4 c d s hc ih => rw [ih fun x hx => h x (.tail _ hx)]
  | case5 c d s hc => simp [h c (by simp)] at hc

theorem radix?_digit (h : isDigit d = true) : radix? d = none := by
  have hup : isUpper d = false := by
    simp only [isUpper, isDigit, Bool.and_eq_true, decide_eq_true_eq, UInt16.le_iff_toNat_le,
      Bool.and_eq_false_iff, decide_eq_false_iff_not] at h ⊢
    simp at h ⊢
    omega
  have hne {x : CodeUnit} (hx : isDigit x = false) : d ≠ x := by
    rintro rfl
    rw [h] at hx
    cases hx
  simp [radix?, lower, hup, hne (x := unit 'x') rfl, hne (x := unit 'o') rfl, hne (x := unit 'b') rfl]

theorem lexeme_digits (h : ∀ c ∈ s, isDigit c = true) (hs : s ≠ []) :
    lexeme s = some (.token (.num s), []) := by
  have hdec : decimalNumber s = some (s, []) := by
    simp [decimalNumber, digitRun_all h, fraction, exponent, endNumber]
  cases s with
  | nil => exact absurd rfl hs
  | cons c s =>
    have hc := h c (.head _)
    have hstart : start c s = .number := by
      have hne {d : CodeUnit} (hd : isDigit d = false) : c ≠ d := by
        rintro rfl
        rw [hc] at hd
        cases hd
      have hspace : isPgSpace c = false := by
        simp only [isPgSpace, isDigit, Bool.and_eq_true, decide_eq_true_eq, UInt16.le_iff_toNat_le,
          Bool.or_eq_false_iff, Bool.and_eq_false_iff, decide_eq_false_iff_not] at hc ⊢
        refine ⟨?_, beq_false_of_ne (hne rfl)⟩
        simp at hc ⊢
        omega
      simp [start, hspace, hc, hne (d := hyphen) rfl, hne (d := slash) rfl,
        hne (d := singleQuote) rfl, hne (d := doubleQuote) rfl, hne (d := dollar) rfl]
    have hnum : number (c :: s) = decimalNumber (c :: s) := by
      cases s with
      | nil => rfl
      | cons d s =>
        have hd := h d (by simp)
        rw [number, radix?_digit hd, ite_self]
    rw [lexeme, hstart]
    simp [hnum, hdec]

end PgLex
