import McpGateway.Lib.PgLexAppend

/-!
# Names in a text

Where the scanner reads an unquoted name, the name is a whole word of the text:
no word character stands right before it or right after it.
-/

namespace PgLex

open McpGateway.Js

theorem isIdentCont_of_word (h : isWordChar c = true) : isIdentCont c = true := by
  simp only [isWordChar, Bool.or_eq_true] at h
  rcases h with (h | h) | h
  · simp [isIdentCont, isTagCont, isIdentStart, h]
  · simp [isIdentCont, isTagCont, h]
  · simp [isIdentCont, isTagCont, isIdentStart, h]

theorem not_word_of_op (h : isOpChar c = true) : isWordChar c = false := by
  have hop := op_facts h
  rw [Bool.eq_false_iff]
  intro hw
  have := isIdentCont_of_word hw
  rcases Bool.or_eq_true_iff.mp this with h | h
  · simp [hop.2.2.1] at h
  · exact hop.2.2.2.1 (beq_iff_eq.mp h)

-- ---------------------------------------------------------------------------
-- The last character of a lexeme
-- ---------------------------------------------------------------------------

/-- `s` is what is left of `t` after a last character that is no word character. -/
def LeavesAfterGap (t s : JsString) : Prop := ∃ x d, t = x ++ d :: s ∧ isWordChar d = false

theorem LeavesAfterGap.cons (h : LeavesAfterGap t s) : LeavesAfterGap (c :: t) s := by
  obtain ⟨x, d, rfl, hd⟩ := h
  exact ⟨c :: x, d, rfl, hd⟩

theorem afterBlock_gap (h : afterBlock n t = some s) : LeavesAfterGap t s := by
  fun_induction afterBlock n t with
  | case1 | case2 => cases h
  | case3 n c d t hc ih => exact (ih h).cons.cons
  | case4 c d t hc hd => cases h; exact ⟨[c], d, rfl, by rw [hd.2]; rfl⟩
  | case5 c d t hc hd n ih => exact (ih h).cons.cons
  | case6 n c d t hc hd ih => exact (ih h).cons

theorem dollarBody_gap (h : dollarBody (d ++ [dollar]) t = some b) : LeavesAfterGap t b.2 := by
  induction t generalizing b with
  | nil => simp [dollarBody] at h
  | cons c t ih =>
    simp only [dollarBody] at h
    split at h
    · obtain ⟨u, hu⟩ := List.isPrefixOf_iff_prefix.mp ‹_›
      cases h
      refine ⟨d, dollar, ?_, rfl⟩
      rw [← hu]
      simp
    · obtain ⟨b', hb, rfl⟩ := Option.map_eq_some_iff.mp h
      exact (ih hb).cons

theorem operator_gap (h : operator t ≠ []) : LeavesAfterGap t (t.drop (operator t).length) := by
  have ht : operator t ++ t.drop (operator t).length = t :=
    (List.prefix_iff_eq_append.mp operator_prefix)
  have hop : ∀ c ∈ operator t, isOpChar c = true := by
    intro c hc
    exact List.mem_takeWhile_imp (operator_run.subset hc)
  obtain ⟨x, d, hx⟩ := (List.eq_nil_or_concat _).resolve_left h
  refine ⟨x, d, ?_, not_word_of_op (hop d (by rw [hx]; simp))⟩
  conv_lhs => rw [← ht]
  rw [hx]
  simp

theorem punctuation_gap (hd : isDigit c = false) (hi : isIdentStart c = false) :
    LeavesAfterGap (c :: s) (punctuation c s).2 := by
  have hc : isWordChar c = false := by
    rw [Bool.eq_false_iff]
    intro h
    simp only [isWordChar, Bool.or_eq_true, hd, Bool.false_eq_true, or_false] at h
    rw [Bool.eq_false_iff] at hi
    exact hi (by rcases h with h | h <;> simp [isIdentStart, h])
  cases s with
  | nil => exact ⟨[], c, rfl, hc⟩
  | cons d s =>
    simp only [punctuation]
    split
    · refine ⟨[c], d, rfl, ?_⟩
      rename_i h
      rcases h with ⟨-, rfl | rfl⟩ | ⟨-, rfl⟩ <;> rfl
    · exact ⟨[], c, rfl, hc⟩

theorem dropWhile_head {t : JsString} {p q : CodeUnit → Bool} (h : (t.dropWhile p).head?.any q = true) :
    ∃ c, q c = true ∧ p c = false := by
  cases hr : t.dropWhile p with
  | nil => simp [hr] at h
  | cons c r =>
    refine ⟨c, by simpa [hr] using h, ?_⟩
    have := List.head_dropWhile_not p (l := t) (by rw [hr]; simp)
    simpa [hr] using this

theorem not_word_of_space (h : isPgSpace c = true) : isWordChar c = false := by
  rcases Bool.or_eq_true_iff.mp h with h | h
  · have hu : c ≠ underscore := by rintro rfl; cases h
    simp only [isWordChar, isLetter, isUpper, isLower, isDigit, Bool.and_eq_true, decide_eq_true_eq,
      UInt16.le_iff_toNat_le, Bool.or_eq_false_iff, Bool.and_eq_false_iff,
      decide_eq_false_iff_not] at h ⊢
    refine ⟨?_, beq_false_of_ne hu⟩
    simp at h ⊢
    omega
  · rw [beq_iff_eq.mp h]
    rfl

/-- A name starts the text or follows a character that is no word character: the
lexemes that could end in one take in every character a name can start with. -/
theorem lexeme_gap (hz : QuoteFree t) (h : lexeme t = some (l, r))
    (hr : r.head?.any isIdentStart = true) : LeavesAfterGap t r := by
  cases t with
  | nil => cases h
  | cons a t =>
    have hspec := start_spec (c := a) (s := t)
    rw [lexeme] at h
    cases hk : start a t <;> simp only [hk] at h hspec
    case space => cases h; exact ⟨[], a, rfl, not_word_of_space hspec⟩
    case line =>
      cases h
      obtain ⟨c, hc, hn⟩ := dropWhile_head hr
      rw [Bool.not_eq_false'] at hn
      rcases Bool.or_eq_true_iff.mp hn with h | h <;> rw [beq_iff_eq.mp h] at hc <;> cases hc
    case block =>
      obtain ⟨r', hr, he⟩ := Option.map_eq_some_iff.mp h
      cases he
      cases t with
      | nil => cases hspec.2
      | cons d t => exact (afterBlock_gap hr).cons.cons
    case quote => cases hspec; cases hz singleQuote (.head _)
    case quotedName => cases hspec; cases hz doubleQuote (.head _)
    case dollar =>
      simp only [dollarSign] at h
      split at h
      · split at h
        · cases h
        · cases h
          exact absurd hr ‹_›
      split at h
      · rename_i hd
        obtain ⟨b, hb, he⟩ := Option.map_eq_some_iff.mp h
        cases he
        have hgap : LeavesAfterGap (t.dropWhile isTagCont) b.2 := by
          cases ht : t.dropWhile isTagCont with
          | nil => simp [ht] at hd
          | cons d t' => rw [ht] at hb; exact (dollarBody_gap hb).cons
        obtain ⟨x, d, hx, hd⟩ := hgap
        refine ⟨a :: t.takeWhile isTagCont ++ x, d, ?_, hd⟩
        rw [List.append_assoc, ← hx, List.cons_append, List.takeWhile_append_dropWhile]
      · cases h
        exact ⟨[], a, rfl, by rw [hspec]; rfl⟩
    case number =>
      obtain ⟨b, hb, he⟩ := Option.map_eq_some_iff.mp h
      cases he
      rw [number_end hb] at hr
      cases hr
    case name =>
      rw [name_plain fun d hd => hz d (.tail _ (List.mem_of_mem_take hd))] at h
      cases h
      obtain ⟨d, hd, hn⟩ := dropWhile_head hr
      simp [isIdentCont, isTagCont, hd] at hn
    case operator =>
      obtain ⟨u, hu⟩ := operator_cons hspec.1 hspec.2
      cases h
      exact operator_gap (by rw [hu]; simp)
    case punctuation =>
      have := punctuation_gap (s := t) hspec.1 hspec.2.1
      rw [Option.some.inj h] at this
      exact this

theorem reaches_name (hz : QuoteFree w) (h : Reaches w s) (hs : s.head?.any isIdentStart = true) :
    s = w ∨ LeavesAfterGap w s := by
  cases h with
  | start => exact .inl rfl
  | next h hl =>
    right
    obtain ⟨x, d, hx, hd⟩ := lexeme_gap (hz.suffix h.suffix) hl hs
    obtain ⟨u, hu⟩ := h.suffix
    exact ⟨u ++ x, d, by rw [← hu, hx, List.append_assoc], hd⟩

theorem name_before (hz : QuoteFree w) (h : Reaches w s) (hs : s.head?.any isIdentStart = true) :
    ∃ pre, w = pre ++ s ∧ pre.reverse.head?.any isWordChar = false := by
  rcases reaches_name hz h hs with rfl | ⟨x, d, hx, hd⟩
  · exact ⟨[], rfl, rfl⟩
  · exact ⟨x ++ [d], by rw [hx]; simp, by simpa using hd⟩

/-- What a token read at the front of `s`, with `r` left, can be when no quote is near: a
name is a run of name characters, folded, and a string constant has no quote in it. -/
def Unquoted (s r : JsString) : Token → Prop
  | .ident n => s.head?.any isIdentStart = true ∧ (s.takeWhile isIdentCont).map lower = n ∧
      r = s.dropWhile isIdentCont
  | .quotedIdent _ => False
  | .str opening body => QuoteFree opening ∧ QuoteFree body
  | _ => True

theorem mem_dollarBody (h : dollarBody d s = some b) : ∀ c ∈ b.1, c ∈ s := by
  induction s generalizing b with
  | nil =>
    simp only [dollarBody] at h
    split at h <;> cases h
    exact List.forall_mem_nil _
  | cons c s ih =>
    simp only [dollarBody] at h
    split at h
    · cases h
      exact List.forall_mem_nil _
    · obtain ⟨b', hb, rfl⟩ := Option.map_eq_some_iff.mp h
      intro d hd
      rcases List.mem_cons.mp hd with rfl | hd
      · exact .head _
      · exact .tail _ (ih hb d hd)

theorem dollarSign_unquoted (hz : QuoteFree s) (h : dollarSign s = some (.token t, r)) :
    Unquoted (dollar :: s) r t := by
  unfold dollarSign at h
  split at h
  · split at h <;> cases h
    exact trivial
  split at h
  · obtain ⟨b, hbody, hb⟩ := Option.map_eq_some_iff.mp h
    cases hb
    refine ⟨fun d hd => ?_, fun d hd => ?_⟩
    · rcases List.mem_append.mp hd with hd | hd
      · rcases List.mem_cons.mp hd with rfl | hd
        · rfl
        · exact hz d ((List.takeWhile_prefix _).subset hd)
      · rw [List.mem_singleton.mp hd]
        rfl
    · exact hz d ((List.dropWhile_suffix _).subset (List.mem_of_mem_tail (mem_dollarBody hbody d hd)))
  · cases h
    exact trivial

theorem lexeme_unquoted (hz : QuoteFree s) (h : lexeme s = some (.token t, r)) :
    Unquoted s r t := by
  cases s with
  | nil => cases h
  | cons c s =>
    have hs : QuoteFree s := fun d hd => hz d (.tail _ hd)
    have hspec := start_spec (c := c) (s := s)
    rw [lexeme] at h
    cases hk : start c s <;> simp only [hk] at h hspec
    case quote => cases hspec; cases hz singleQuote (.head _)
    case quotedName => cases hspec; cases hz doubleQuote (.head _)
    case dollar =>
      rw [hspec]
      exact dollarSign_unquoted hs h
    case name =>
      rw [name_plain fun d hd => hs d (List.mem_of_mem_take hd)] at h
      cases h
      exact ⟨by simpa using hspec, rfl, rfl⟩
    case punctuation =>
      cases s with
      | nil => cases h; exact trivial
      | cons d s =>
        simp only [punctuation] at h
        split at h <;> cases h <;> exact trivial
    case operator => cases h; exact trivial
    case number =>
      obtain ⟨b, -, hb⟩ := Option.map_eq_some_iff.mp h
      cases hb
      exact trivial
    case space => cases h
    case line => cases h
    case block =>
      obtain ⟨b, -, hb⟩ := Option.map_eq_some_iff.mp h
      cases hb

theorem name_after (s : JsString) : (s.dropWhile isIdentCont).head?.any isWordChar = false := by
  rw [Bool.eq_false_iff]
  intro h
  obtain ⟨c, hc, hn⟩ := dropWhile_head h
  rw [isIdentCont_of_word hc] at hn
  cases hn

end PgLex
