import McpGateway.Lib.PgLexLaws

/-!
# Scanning a text with something after it

A lexeme is scanned the same when more text follows, as long as that text does
not continue it. Everything here is about texts without quote characters.
-/

namespace PgLex

open McpGateway.Js

def HeadNot (p : CodeUnit → Bool) (u : JsString) : Prop := ∀ c, u.head? = some c → p c = false

theorem HeadNot.mono (h : HeadNot p u) (hpq : ∀ c, q c = true → p c = true) : HeadNot q u := by
  intro c hc
  rw [Bool.eq_false_iff]
  exact fun hq => Bool.eq_false_iff.mp (h c hc) (hpq c hq)

@[simp] theorem headNot_cons : HeadNot p (c :: u) ↔ p c = false := by
  simp [HeadNot]

theorem takeWhile_append (h : s.dropWhile p = [] → HeadNot p u) :
    (s ++ u).takeWhile p = s.takeWhile p := by
  induction s with
  | nil =>
    cases u with
    | nil => rfl
    | cons c u =>
      have hc : p c = false := by simpa using h rfl
      simp [hc]
  | cons c s ih =>
    cases hc : p c with
    | true => simp only [List.dropWhile_cons_of_pos hc] at h; simpa [hc] using ih h
    | false => simp [hc]

theorem dropWhile_append (h : s.dropWhile p = [] → HeadNot p u) :
    (s ++ u).dropWhile p = s.dropWhile p ++ u := by
  induction s with
  | nil =>
    cases u with
    | nil => rfl
    | cons c u =>
      have hc : p c = false := by simpa using h rfl
      simp [hc]
  | cons c s ih =>
    cases hc : p c with
    | true => simp only [List.dropWhile_cons_of_pos hc] at h; simpa [hc] using ih h
    | false => simp [hc]

-- ---------------------------------------------------------------------------
-- Dollar quotes
-- ---------------------------------------------------------------------------

theorem dollarBody_length (h : dollarBody d s = some b) : d.length ≤ s.length := by
  induction s generalizing b with
  | nil => simp [dollarBody] at h; simp [h.1]
  | cons c s ih =>
    simp only [dollarBody] at h
    split at h
    · exact (List.isPrefixOf_iff_prefix.mp ‹_›).length_le
    · obtain ⟨b', hb, -⟩ := Option.map_eq_some_iff.mp h
      exact (ih hb).trans (Nat.le_succ _)

theorem dollarBody_append (h : dollarBody d s = some b) :
    dollarBody d (s ++ u) = some (b.1, b.2 ++ u) := by
  have hlen := dollarBody_length h
  induction s generalizing b with
  | nil =>
    obtain ⟨rfl, rfl⟩ : d = [] ∧ ([], []) = b := by simpa [dollarBody] using h
    cases u <;> simp [dollarBody]
  | cons c s ih =>
    have hpre : d.isPrefixOf (c :: s ++ u) = d.isPrefixOf (c :: s) := by
      rw [Bool.eq_iff_iff, List.isPrefixOf_iff_prefix, List.isPrefixOf_iff_prefix]
      refine ⟨fun hp => ?_, fun hp => hp.trans (List.prefix_append _ _)⟩
      exact List.prefix_of_prefix_length_le hp (List.prefix_append _ _) hlen
    simp only [dollarBody] at h
    rw [List.cons_append, dollarBody, ← List.cons_append, hpre]
    split at h
    · cases h
      rw [if_pos ‹_›, List.drop_append_of_le_length hlen]
    · obtain ⟨b', hb, rfl⟩ := Option.map_eq_some_iff.mp h
      rw [if_neg ‹_›, ih hb (dollarBody_length hb)]
      rfl

theorem dollarBody_none (hd : dollar ∈ d) (hu : dollar ∉ u) : dollarBody d u = none := by
  have hne : d ≠ [] := List.ne_nil_of_mem hd
  induction u with
  | nil => simp [dollarBody, hne]
  | cons c u ih =>
    have hp : ¬d.isPrefixOf (c :: u) = true := fun hp =>
      hu ((List.isPrefixOf_iff_prefix.mp hp).subset hd)
    rw [dollarBody, if_neg hp, ih (fun hm => hu (.tail _ hm))]
    rfl

theorem prefix_of_append (hu : dollar ∉ u) (h : d ++ [dollar] <+: t ++ u) : d ++ [dollar] <+: t := by
  obtain ⟨v, hv⟩ := h
  rcases List.append_eq_append_iff.mp hv with ⟨w, rfl, -⟩ | ⟨w, hw, rfl⟩
  · exact List.prefix_append _ _
  rcases List.eq_nil_or_concat w with rfl | ⟨w, e, rfl⟩
  · exact ⟨[], by simpa using hw⟩
  rw [List.concat_eq_append, ← List.append_assoc] at hw
  obtain ⟨-, he⟩ := List.append_inj' hw rfl
  exact absurd (by simp [List.cons.inj he]) hu

/-- A delimiter ends in a dollar sign, so text without one does not complete it. -/
theorem dollarBody_append_none (hu : dollar ∉ u) (h : dollarBody (d ++ [dollar]) s = none) :
    dollarBody (d ++ [dollar]) (s ++ u) = none := by
  induction s with
  | nil => exact dollarBody_none (by simp) hu
  | cons c s ih =>
    simp only [dollarBody] at h
    split at h
    · cases h
    have hp : ¬(d ++ [dollar]).isPrefixOf (c :: (s ++ u)) = true := fun hp =>
      ‹¬_› (List.isPrefixOf_iff_prefix.mpr
        (prefix_of_append hu (t := c :: s) (List.isPrefixOf_iff_prefix.mp hp)))
    rw [List.cons_append, dollarBody, if_neg hp, ih (Option.map_eq_none_iff.mp h)]
    rfl

-- ---------------------------------------------------------------------------
-- Numbers
-- ---------------------------------------------------------------------------

def isNumCont (c : CodeUnit) : Bool := isTagCont c || c == fullStop

theorem isTagCont_of_digit (h : isDigit c = true) : isTagCont c = true := by simp [isTagCont, h]

theorem isNumCont_of_digit (h : isDigit c = true) : isNumCont c = true := by
  simp [isNumCont, isTagCont, h]

theorem digitRun_stop_append (hu : HeadNot (fun c => p c || c == underscore) u) :
    digitRun p u = ([], u) := by
  cases u with
  | nil => rfl
  | cons c u =>
    obtain ⟨hp, hc⟩ : p c = false ∧ c ≠ underscore := by simpa using hu
    exact digitRun_stop hp hc

theorem digitRun_append
    (h0 : (digitRun p s).2 = [] → HeadNot (fun c => p c || c == underscore) u)
    (h1 : (digitRun p s).2 = [underscore] → HeadNot p u) :
    digitRun p (s ++ u) = ((digitRun p s).1, (digitRun p s).2 ++ u) := by
  fun_induction digitRun p s with
  | case1 => exact digitRun_stop_append (h0 rfl)
  | case2 c hc =>
    have hu := digitRun_stop_append (h0 rfl)
    cases u with
    | nil => simp [digitRun, hc]
    | cons d u => simp [digitRun, hc, hu]
  | case3 c hc =>
    cases u with
    | nil => simp [digitRun, hc]
    | cons d u =>
      have hd : c = underscore → p d = false := by rintro rfl; simpa using h1 rfl
      by_cases hu : c = underscore <;> simp_all [digitRun]
  | case4 c d s hc ih =>
    have ih : digitRun p (d :: (s ++ u)) = _ := ih h0 h1
    simp [digitRun, hc, ih]
  | case5 c d s hc => simp [digitRun, hc]

/-- A run of digits that leaves `rest` may go on into the text after it. -/
def Open (rest : JsString) : Prop := rest = [] ∨ rest = [underscore]

theorem digitRun_append_num {p : CodeUnit → Bool} (hp : ∀ c, p c = true → isTagCont c = true)
    (h0 : Open (digitRun p s).2 → HeadNot isNumCont u) :
    digitRun p (s ++ u) = ((digitRun p s).1, (digitRun p s).2 ++ u) := by
  refine digitRun_append (fun h => (h0 (.inl h)).mono fun c hc => ?_)
    fun h => (h0 (.inr h)).mono fun c hc => by simp [isNumCont, hp c hc]
  rcases Bool.or_eq_true_iff.mp hc with hc | hc
  · simp [isNumCont, hp c hc]
  · simp [isNumCont, isTagCont, isIdentStart, hc]

theorem fraction_append (h0 : Open (fraction b s).2 → HeadNot isNumCont u)
    (h1 : s = [fullStop] → b = false → HeadNot isDigit u) :
    fraction b (s ++ u) = ((fraction b s).1, (fraction b s).2 ++ u) := by
  fun_cases fraction b s with
  | case1 =>
    rcases u with _ | ⟨c, _ | ⟨d, u⟩⟩
    · rfl
    all_goals
      have hc : c ≠ fullStop := by rintro rfl; simpa [isNumCont] using h0 (.inl rfl)
      simp [fraction, hc]
  | case2 c hc =>
    cases u with
    | nil => simp [fraction, hc]
    | cons d u =>
      have hd : isNumCont d = false := by simpa [fraction, hc, Open] using h0
      have hdot : d ≠ fullStop := by rintro rfl; cases hd
      have hdig : isDigit d = false := by
        rw [Bool.eq_false_iff] at hd ⊢
        exact fun h => hd (isNumCont_of_digit h)
      simp [fraction, hc, hdot, hdig]
  | case3 c hc =>
    cases u with
    | nil => simp [fraction, hc]
    | cons d u =>
      by_cases hdot : c = fullStop
      · have hb : b = false := by simpa [hdot] using hc
        have hd : isDigit d = false := by simpa using h1 (by rw [hdot]) hb
        simp [fraction, hb, hd]
      · simp [fraction, hdot]
  | case4 c d s hc =>
    simp only [fraction, hc, and_self, ↓reduceIte] at h0
    have := digitRun_append_num (s := d :: s) (fun _ => isTagCont_of_digit) h0
    rw [List.cons_append] at this
    simp [fraction, hc, this]
  | case5 c d s hc hd =>
    have hd' : isDigit d = false := by simpa [hd.1] using hc
    simp [fraction, hd, hd']
  | case6 c d s hc hd => simp [fraction, hc, hd]

/-- A character that could turn a lone `e` after a number into an exponent. -/
def isExpCont (c : CodeUnit) : Bool := isDigit c || c == plusSign || c == hyphen

theorem isIdentStart_of_lower (h : lower c = unit 'e') : isIdentStart c = true := by
  unfold lower at h
  split at h
  · simp [isIdentStart, isLetter, ‹isUpper c = true›]
  · subst h
    decide

theorem headNot_or {p q : CodeUnit → Bool} (h : HeadNot (fun c => p c || q c) u) :
    HeadNot p u ∧ HeadNot q u :=
  ⟨h.mono fun c hc => by simp [hc], h.mono fun c hc => by simp [hc]⟩

theorem head_any_append {p : CodeUnit → Bool} (h : s = [] → HeadNot p u) :
    (s ++ u).head?.any p = s.head?.any p := by
  cases s with
  | nil =>
    cases u with
    | nil => rfl
    | cons c u => simpa using h rfl
  | cons c s => rfl

theorem exponent_append (h0 : Open (exponent s).2 → HeadNot isNumCont u)
    (h1 : HeadNot isExpCont u ∨ (exponent s).2.head?.any isIdentStart = false) :
    exponent (s ++ u) = ((exponent s).1, (exponent s).2 ++ u) := by
  fun_cases exponent s with
  | case1 c d s hc =>
    simp only [exponent, hc, and_self, ↓reduceIte] at h0
    have := digitRun_append_num (s := d :: s) (fun _ => isTagCont_of_digit) h0
    rw [List.cons_append] at this
    simp [exponent, hc, this]
  | case2 c d s hc hd =>
    have hdig : isDigit d = false := by rcases hd.2.1 with rfl | rfl <;> rfl
    simp only [exponent, hdig, hd, Bool.false_eq_true, and_false, and_self, ↓reduceIte] at h0
    have := digitRun_append_num (fun _ => isTagCont_of_digit) h0
    have hs : s ≠ [] := by rintro rfl; cases hd.2.2
    simp only [List.cons_append, exponent, head_any_append (fun h => absurd h hs), hd, hdig, this,
      Bool.false_eq_true, and_false, and_self, ↓reduceIte]
  | case3 c d s hc hd =>
    simp only [exponent, hc, hd, ↓reduceIte] at h1
    rcases h1 with h1 | h1
    · have hu := (headNot_or (headNot_or h1).1).1
      simp only [List.cons_append, exponent, head_any_append fun _ => hu, hc, hd, ↓reduceIte]
    · have he : lower c ≠ unit 'e' := fun he => by simp [isIdentStart_of_lower he] at h1
      simp [exponent, he]
  | case4 s hs =>
    rcases s with _ | ⟨c, _ | ⟨d, s⟩⟩
    · rcases u with _ | ⟨c, _ | ⟨d, u⟩⟩
      · rfl
      · rfl
      · have hc : lower c ≠ unit 'e' := fun he => by
          simpa [isNumCont, isTagCont, isIdentStart_of_lower he] using h0 (.inl rfl)
        simp [exponent, hc]
    · rcases u with _ | ⟨d, u⟩
      · rfl
      rcases h1 with h1 | h1
      · obtain ⟨⟨hd, hp⟩, hm⟩ : (isDigit d = false ∧ d ≠ plusSign) ∧ d ≠ hyphen := by
          simpa [isExpCont] using h1
        simp [exponent, hd, hp, hm]
      · have he : lower c ≠ unit 'e' := fun he => by simp [exponent, isIdentStart_of_lower he] at h1
        simp [exponent, he]
    · exact absurd rfl (hs c d s)

/-- The text after a number leaves it as it is: it is of no class that continues
one, or the number ended before it. -/
def Clear (rest u : JsString) : Prop :=
  HeadNot (fun c => isNumCont c || isExpCont c) u ∨
    (rest.head?.any isIdentStart = false ∧ (rest = [] → HeadNot isNumCont u))

theorem Clear.headNot (h : Clear rest u) (hr : Open rest) : HeadNot isNumCont u := by
  rcases h with h | h
  · exact (headNot_or h).1
  · rcases hr with rfl | rfl
    · exact h.2 rfl
    · cases h.1

theorem endNumber_append (h : Clear rest u) :
    endNumber text (rest ++ u) = (endNumber text rest).map fun b => (b.1, b.2 ++ u) := by
  have hr : rest = [] → HeadNot isIdentStart u := by
    rintro rfl
    exact (h.headNot (.inl rfl)).mono fun c hc => by simp [isNumCont, isTagCont, hc]
  rw [endNumber, endNumber, head_any_append hr]
  split <;> rfl

theorem decimalNumber_append
    (hs : isDigit c = true ∨ c = fullStop ∧ s.head?.any isDigit = true)
    (hu : Clear (exponent (fraction (!(digitRun isDigit (c :: s)).1.isEmpty)
      (digitRun isDigit (c :: s)).2).2).2 u) :
    decimalNumber (c :: s ++ u) = (decimalNumber (c :: s)).map fun b => (b.1, b.2 ++ u) := by
  -- A run left open is left open by the scans after it, which have nothing to take.
  have hexp : ∀ {r}, Open r → Open (exponent r).2 := by
    rintro r (rfl | rfl)
    · exact .inl rfl
    · exact .inr rfl
  have hfrac : ∀ {b r}, Open r → Open (fraction b r).2 := by
    rintro b r (rfl | rfl)
    · exact .inl rfl
    · exact .inr rfl
  have hdot : (digitRun isDigit (c :: s)).2 = [fullStop] →
      (!(digitRun isDigit (c :: s)).1.isEmpty) = false → HeadNot isDigit u := by
    intro h1 h2
    have h3 := digitRun_append_snd isDigit (c :: s)
    have h4 : (digitRun isDigit (c :: s)).1 = [] := by simpa using h2
    rw [h1, h4] at h3
    obtain ⟨rfl, rfl⟩ : fullStop = c ∧ [] = s := by simpa using h3
    rcases hs with hs | ⟨-, hs⟩ <;> cases hs
  simp only [decimalNumber]
  rw [digitRun_append_num (fun _ => isTagCont_of_digit) fun h => hu.headNot (hexp (hfrac h))]
  dsimp only
  rw [fraction_append (fun h => hu.headNot (hexp h)) hdot]
  dsimp only
  rw [exponent_append hu.headNot (hu.imp (fun h => (headNot_or h).2) fun h => h.1)]
  exact endNumber_append hu

theorem isTagCont_of_radix (h : radix? d = some p) (hc : p c = true) : isTagCont c = true := by
  have key : isHexDigit c = true → isTagCont c = true := by
    intro h
    simp only [isHexDigit, isTagCont, isIdentStart, isLetter, isUpper, isLower, isDigit,
      Bool.or_eq_true, Bool.and_eq_true, decide_eq_true_eq, UInt16.le_iff_toNat_le] at *
    simp at *
    omega
  unfold radix? at h
  split_ifs at h <;> cases h
  · exact key hc
  · refine isTagCont_of_digit ?_
    simp only [isOctDigit, isDigit, Bool.and_eq_true, decide_eq_true_eq,
      UInt16.le_iff_toNat_le] at *
    simp at *
    omega
  · rcases Bool.or_eq_true_iff.mp hc with h | h <;> rw [beq_iff_eq.mp h] <;> decide

theorem isTagCont_of_radix_letter (h : radix? d = some p) : isTagCont d = true := by
  have key : isLetter (lower d) = true → isTagCont d = true := by
    intro h
    unfold lower at h
    split at h
    · simp [isTagCont, isIdentStart, isLetter, ‹isUpper d = true›]
    · simp [isTagCont, isIdentStart, h]
  unfold radix? at h
  refine key ?_
  split_ifs at h with h1 h2 h3
  · rw [h1]; decide
  · rw [h2]; decide
  · rw [h3]; decide

theorem number_append
    (hs : isDigit c = true ∨ c = fullStop ∧ s.head?.any isDigit = true)
    (hu : HeadNot (fun c => isNumCont c || isExpCont c) u ∨
      ∃ b, number (c :: s) = some b ∧ (b.2 = [] → HeadNot isNumCont u)) :
    number (c :: s ++ u) = (number (c :: s)).map fun b => (b.1, b.2 ++ u) := by
  have hdec (heq : number (c :: s) = decimalNumber (c :: s)) :
      decimalNumber (c :: s ++ u) = (decimalNumber (c :: s)).map fun b => (b.1, b.2 ++ u) := by
    refine decimalNumber_append hs (hu.imp id ?_)
    rintro ⟨b, hb, hr⟩
    obtain ⟨rfl, hj⟩ := endNumber_eq (heq ▸ hb)
    exact ⟨hj, hr⟩
  cases s with
  | nil =>
    have h := hdec rfl
    cases u with
    | nil => exact h
    | cons d u =>
      have hd : isTagCont d = false := by
        rcases hu with hu | ⟨b, hb, hr⟩
        · have := (headNot_or hu).1
          simp only [headNot_cons, isNumCont, Bool.or_eq_false_iff] at this
          exact this.1
        · have hb2 : b.2 = [] := List.suffix_nil.mp (number_suffix hs hb)
          simpa [isNumCont] using (headNot_or (hr hb2)).1
      have hr : radix? d = none := by
        cases hr : radix? d with
        | none => rfl
        | some p => exact absurd (isTagCont_of_radix_letter hr) (by simp [hd])
      simp only [List.cons_append, List.nil_append, number, hr, ite_self] at h ⊢
      exact h
  | cons d s =>
    simp only [number] at hdec hu
    simp only [List.cons_append, number]
    split
    · rename_i p hp
      simp only [hp] at hu
      have hp : radix? d = some p := by
        split at hp
        · exact hp
        · cases hp
      have hclear : (digitRun p s).1 ≠ [] → Clear (digitRun p s).2 u := by
        intro hne
        refine hu.imp id ?_
        rintro ⟨b, hb, hr⟩
        rw [if_neg hne] at hb
        obtain ⟨rfl, hj⟩ := endNumber_eq hb
        exact ⟨hj, hr⟩
      have hrun : digitRun p (s ++ u) = ((digitRun p s).1, (digitRun p s).2 ++ u) := by
        refine digitRun_append_num (fun _ => isTagCont_of_radix hp) fun ho => ?_
        by_cases hne : (digitRun p s).1 = []
        · rcases hu with hu | ⟨b, hb, -⟩
          · exact (headNot_or hu).1
          · simp [hne] at hb
        · exact (hclear hne).headNot ho
      rw [hrun]
      dsimp only
      split
      · rfl
      · exact endNumber_append (hclear ‹_›)
    · rename_i hp
      simp only [hp] at hdec
      simpa using hdec trivial

-- ---------------------------------------------------------------------------
-- Names, parameters, punctuation and operators
-- ---------------------------------------------------------------------------

def QuoteFree (s : JsString) : Prop := ∀ c ∈ s, isQuote c = false

theorem QuoteFree.suffix (h : QuoteFree s) (hr : r <:+ s) : QuoteFree r := fun c hc => h c (hr.mem hc)

def isJoint (c : CodeUnit) : Bool :=
  isIdentCont c || c == fullStop || c == colon || c == equalsSign

theorem isJoint_of_num (h : isNumCont c = true) : isJoint c = true := by
  rcases Bool.or_eq_true_iff.mp h with h | h <;> simp [isJoint, isIdentCont, h]

theorem name_plain (h : QuoteFree (s.take 2)) : name c s = some (nameToken (c :: s)) := by
  have h1 : s.head? ≠ some singleQuote := by
    intro hs
    cases s with
    | nil => cases hs
    | cons d s =>
      cases hs
      cases h singleQuote (by simp)
  have h2 : ∀ q, isQuote q = true → s.take 2 ≠ [ampersand, q] := by
    intro q hq hs
    rw [hs] at h
    simp [h q (by simp)] at hq
  simp [name, h1, h2 singleQuote rfl, h2 doubleQuote rfl]

theorem name_append (hs : QuoteFree s) (hu : QuoteFree (u.take 2))
    (h : name c s = some (l, r)) (he : r = [] → HeadNot isIdentCont u) :
    name c (s ++ u) = some (l, r ++ u) := by
  have hsu : QuoteFree ((s ++ u).take 2) := by
    intro d hd
    rw [List.take_append] at hd
    rcases List.mem_append.mp hd with hd | hd
    · exact hs d (List.mem_of_mem_take hd)
    · exact hu d (List.take_subset_take_left _ (by omega) hd)
  rw [name_plain fun d hd => hs d (List.mem_of_mem_take hd)] at h
  rw [name_plain hsu, ← List.cons_append]
  cases h
  rw [nameToken, takeWhile_append he, dropWhile_append he]

theorem dollarSign_append (hend : s.dropWhile isTagCont = [] → HeadNot isIdentCont u)
    (h : dollarSign s ≠ none ∨ dollar ∉ u) :
    dollarSign (s ++ u) = (dollarSign s).map fun b => (b.1, b.2 ++ u) := by
  have htag : s.dropWhile isTagCont = [] → HeadNot isTagCont u := fun h =>
    (hend h).mono fun c hc => by simp [isIdentCont, hc]
  have hdig : s.dropWhile isDigit = [] → HeadNot isTagCont u := by
    intro hd
    refine htag ?_
    rw [List.dropWhile_eq_nil_iff] at hd ⊢
    exact fun c hc => isTagCont_of_digit (hd c hc)
  have hhead : (s ++ u).head?.any isDigit = s.head?.any isDigit :=
    head_any_append fun hs => (hdig (by simp [hs])).mono fun c => isTagCont_of_digit
  have hjunk : (s.dropWhile isDigit ++ u).head?.any isIdentStart =
      (s.dropWhile isDigit).head?.any isIdentStart :=
    head_any_append fun hs => (hdig hs).mono fun c hc => by simp [isTagCont, hc]
  have hdollar : (s.dropWhile isTagCont ++ u).head? = some dollar ↔
      (s.dropWhile isTagCont).head? = some dollar := by
    cases hr : s.dropWhile isTagCont with
    | nil =>
      simp only [List.nil_append, List.head?_nil, reduceCtorEq, iff_false]
      exact fun hu => absurd (hend hr dollar hu) (by decide)
    | cons d r => rfl
  have hdigits : (s ++ u).dropWhile isDigit = s.dropWhile isDigit ++ u :=
    dropWhile_append fun hd => (hdig hd).mono fun c => isTagCont_of_digit
  simp only [dollarSign, hhead, hdigits, hjunk, dropWhile_append htag, hdollar,
    takeWhile_append htag, takeWhile_append fun hd => (hdig hd).mono fun c => isTagCont_of_digit]
  split
  · split <;> rfl
  split
  · rename_i hnd hd
    have hne : s.dropWhile isTagCont ≠ [] := by rintro hr; simp [hr] at hd
    rw [List.tail_append_of_ne_nil hne]
    cases hb : dollarBody (dollar :: s.takeWhile isTagCont ++ [dollar]) (s.dropWhile isTagCont).tail with
    | some b => rw [dollarBody_append hb]; rfl
    | none =>
      rcases h with h | h
      · simp only [dollarSign, hnd, hd, hb] at h
        exact absurd rfl h
      · rw [dollarBody_append_none h hb]
        rfl
  · rfl

/-- A dollar sign with nothing but tag characters after it: a parameter, or a sign
alone. -/
theorem dollarSign_open (hs : s.dropWhile isTagCont = []) (h : dollarSign s = some (l, r)) :
    r = [] ∨ l = .token (.self dollar) ∧ r = s := by
  simp only [dollarSign, hs] at h
  split at h
  · rename_i hd
    split at h
    · cases h
    rename_i hj
    cases h
    left
    cases hr : s.dropWhile isDigit with
    | nil => rfl
    | cons c r =>
      have hc : isTagCont c = true := by
        refine List.dropWhile_eq_nil_iff.mp hs c ((List.dropWhile_suffix isDigit).mem ?_)
        rw [hr]
        exact .head _
      have hnd : isDigit c ≠ true := by
        have := List.head_dropWhile_not isDigit (l := s) (by rw [hr]; simp)
        simpa [hr] using this
      simp [hr] at hj
      simp [isTagCont, hj, hnd] at hc
  · cases h
    exact .inr ⟨rfl, rfl⟩

theorem punctuation_append (h : s = [] → HeadNot isJoint u) :
    punctuation c (s ++ u) = ((punctuation c s).1, (punctuation c s).2 ++ u) := by
  cases s with
  | nil =>
    cases u with
    | nil => rfl
    | cons d u =>
      have hd : isJoint d = false := by simpa using h rfl
      have h1 : d ≠ colon := by rintro rfl; cases hd
      have h2 : d ≠ equalsSign := by rintro rfl; cases hd
      have h3 : d ≠ fullStop := by rintro rfl; cases hd
      simp [punctuation, h1, h2, h3]
  | cons d s =>
    simp only [List.cons_append, punctuation]
    split <;> rfl

theorem beforeComment_prefix : beforeComment s <+: s := by
  fun_induction beforeComment s with
  | case1 c d s _ => exact List.nil_prefix
  | case2 c d s _ ih => exact (List.prefix_cons_inj c).mpr ih
  | case3 s => exact List.prefix_rfl

theorem operator_run : operator s <+: s.takeWhile isOpChar := by
  have hsigns : ∀ run, dropSigns run <+: run := by
    intro run
    cases run with
    | nil => exact List.nil_prefix
    | cons c t =>
      simp only [dropSigns]
      split
      · exact List.prefix_rfl
      · exact (List.prefix_cons_inj c).mpr (List.rdropWhile_prefix _ _)
  exact (hsigns _).trans beforeComment_prefix

theorem operator_prefix : operator s <+: s := operator_run.trans (List.takeWhile_prefix _)

-- ---------------------------------------------------------------------------
-- Comments
-- ---------------------------------------------------------------------------

theorem afterBlock_append (h : afterBlock n s = some r) : afterBlock n (s ++ u) = some (r ++ u) := by
  fun_induction afterBlock n s with
  | case1 | case2 => cases h
  | case3 n c d s hc ih =>
    simp only [List.cons_append, afterBlock, hc, and_self, ↓reduceIte]
    exact ih h
  | case4 c d s hc hd =>
    cases h
    simp only [List.cons_append, afterBlock, hd, and_self, ↓reduceIte]
    rfl
  | case5 c d s hc hd n ih =>
    simp only [List.cons_append, afterBlock, hd, and_self, ↓reduceIte]
    exact ih h
  | case6 n c d s hc hd ih =>
    simp only [List.cons_append, afterBlock, hc, hd, ↓reduceIte]
    exact ih h

theorem afterBlock_none (hu : asterisk ∉ u) : afterBlock n u = none := by
  fun_induction afterBlock n u with
  | case1 | case2 => rfl
  | case3 n c d s hc ih => simp [hc.2] at hu
  | case4 c d s hc hd => simp [hd.1] at hu
  | case5 c d s hc hd n ih => simp [hd.1] at hu
  | case6 n c d s hc hd ih => exact ih fun h => hu (.tail _ h)

theorem afterBlock_append_none (hu : asterisk ∉ u) (hs : HeadNot (· == slash) u)
    (h : afterBlock n s = none) : afterBlock n (s ++ u) = none := by
  fun_induction afterBlock n s with
  | case1 => exact afterBlock_none hu
  | case2 n c =>
    cases u with
    | nil => rfl
    | cons d u =>
      have hd : d ≠ asterisk := by rintro rfl; simp at hu
      have hd' : d ≠ slash := by rintro rfl; simp at hs
      simp only [List.cons_append, List.nil_append, afterBlock, hd, hd', and_false, ↓reduceIte]
      exact afterBlock_none hu
  | case3 n c d s hc ih =>
    simp only [List.cons_append, afterBlock, hc, and_self, ↓reduceIte]
    exact ih h
  | case4 => cases h
  | case5 c d s hc hd n ih =>
    simp only [List.cons_append, afterBlock, hd, and_self, ↓reduceIte]
    exact ih h
  | case6 n c d s hc hd ih =>
    simp only [List.cons_append, afterBlock, hc, hd, ↓reduceIte]
    exact ih h

-- ---------------------------------------------------------------------------
-- One lexeme
-- ---------------------------------------------------------------------------

theorem start_append (h : s = [] → HeadNot isDigit u ∧ opensComment (c :: u) = false) :
    start c (s ++ u) = start c s := by
  cases s with
  | cons d s => rfl
  | nil =>
    obtain ⟨hd, ho⟩ := h rfl
    rw [Bool.eq_false_iff, Ne, opensComment_cons] at ho
    have hdig : u.head?.any isDigit = false := by
      simpa using head_any_append (s := []) (p := isDigit) fun _ => hd
    simp [start, not_or.mp ho, hdig]

section
variable {z u : JsString} (hz : QuoteFree z) (h : lexeme z = some (l, r)) (hq : QuoteFree (u.take 2))
include hz h hq

theorem lexeme_append (hend : r = [] → HeadNot isJoint u)
    (hone : z.length = 1 → opensComment (z ++ u) = false)
    (hop : ∀ t, l = .token (.op t) → operator (z ++ u) = operator z)
    (hdollar : l = .token (.self dollar) → r.dropWhile isTagCont = [] → HeadNot isIdentCont u)
    (hline : l = .lineComment → r = [] → HeadNot (!isNewline ·) u) :
    lexeme (z ++ u) = some (l, r ++ u) := by
  cases z with
  | nil => cases h
  | cons c s =>
    have hsuffix := lexeme_suffix h
    have hnil : s = [] → HeadNot isJoint u := by
      rintro rfl
      exact hend (List.suffix_nil.mp hsuffix)
    have hstart : start c (s ++ u) = start c s := by
      refine start_append fun hs => ⟨(hnil hs).mono fun d hd => ?_, ?_⟩
      · exact isJoint_of_num (isNumCont_of_digit hd)
      · subst hs
        exact hone rfl
    have hspec := start_spec (c := c) (s := s)
    rw [lexeme] at h
    rw [List.cons_append, lexeme, hstart]
    cases hk : start c s <;> simp only [hk] at h hspec ⊢
    case space => cases h; rfl
    case line =>
      cases h
      rw [afterLine, dropWhile_append (hline rfl)]
      rfl
    case block =>
      obtain ⟨r', hr, he⟩ := Option.map_eq_some_iff.mp h
      cases he
      have hs : s ≠ [] := by rintro rfl; cases hspec.2
      rw [List.tail_append_of_ne_nil hs, afterBlock_append hr]
      rfl
    case quote => cases hspec; cases hz singleQuote (by simp)
    case quotedName => cases hspec; cases hz doubleQuote (by simp)
    case dollar =>
      rw [dollarSign_append (fun hs => ?_) (.inl (by simp [h])), h]
      · rfl
      rcases dollarSign_open hs h with hr | ⟨rfl, rfl⟩
      · exact (hend hr).mono fun d hd => by simp [isJoint, hd]
      · exact hdollar rfl hs
    case number =>
      obtain ⟨b, hb, he⟩ := Option.map_eq_some_iff.mp h
      cases he
      rw [← List.cons_append, number_append hspec (.inr ⟨b, hb, fun hr => ?_⟩), hb]
      · rfl
      · exact (hend hr).mono fun d => isJoint_of_num
    case name =>
      refine name_append (fun d hd => hz d (.tail _ hd)) hq h fun hr => ?_
      exact (hend hr).mono fun d hd => by simp [isJoint, hd]
    case operator =>
      cases h
      have ht := hop _ rfl
      rw [List.cons_append] at ht
      rw [ht, ← List.cons_append,
        List.drop_append_of_le_length operator_prefix.length_le]
    case punctuation =>
      rw [punctuation_append hnil, Option.some.inj h]

end

end PgLex
