import McpGateway.Js.Compare
import McpGateway.Salesforce.QueryText

/-!
# Where the parts of a query are found

The pattern takes as little as it can for the fields and for the WHERE clause.
On the text of a query the least that lets the rest match is the rendered part:
no end of a clause, with what follows the clause, reads like an ORDER BY or a LIMIT.
-/

namespace McpGateway.Salesforce

open Js Words

-- ---------------------------------------------------------------------------
-- Keywords and blanks
-- ---------------------------------------------------------------------------

theorem forall₂_sameLetter {cs run : JsString} :
    List.Forall₂ (fun c d => sameLetter true c d = true) cs run ↔
      toLowerCase cs = toLowerCase run := by
  have hiff : (fun c d => sameLetter true c d = true) = fun c d : CodeUnit => lower c = lower d := by
    funext c d
    simp [sameLetter]
  rw [hiff]
  unfold toLowerCase
  constructor
  · intro h
    induction h with
    | nil => rfl
    | cons hcd _ ih => simp [hcd, ih]
  · intro h
    induction cs generalizing run with
    | nil =>
      obtain rfl := List.map_eq_nil_iff.mp h.symm
      exact .nil
    | cons c cs ih =>
      cases run with
      | nil => cases h
      | cons d run =>
        obtain ⟨hcd, hrest⟩ := List.cons.inj h
        exact .cons hcd (ih hrest)

theorem mem_ends_keyword {word : String} {before after : JsString} {e : Regex.Spot CodeUnit} :
    e ∈ (keyword word).ends isWordChar (before, after) ↔
      ∃ run, toLowerCase run = toLowerCase (js word) ∧ after = run ++ e.2 ∧
        e.1 = run.reverse ++ before := by
  have hends : e ∈ (Regex.literal (sameLetter true) (js word)).ends isWordChar (before, after) ↔ _ :=
    Regex.mem_ends_literal
  simp only [forall₂_sameLetter] at hends
  unfold keyword
  rw [hends]
  constructor
  · rintro ⟨run, hrun, h⟩
    exact ⟨run, hrun.symm, h⟩
  · rintro ⟨run, hrun, h⟩
    exact ⟨run, hrun.symm, h⟩

theorem keyword_first (word : String) (before rest : JsString) :
    Regex.First isWordChar (keyword word) (before, js word ++ rest)
      ((js word).reverse ++ before, rest) :=
  Regex.first_literal (forall₂_sameLetter.mpr rfl) before rest

theorem keyword_ends_nil {word : String} {start : JsString}
    (hstart : (toLowerCase start).take (js word).length ≠
      (toLowerCase (js word)).take start.length)
    (before rest : JsString) : (keyword word).ends isWordChar (before, start ++ rest) = [] := by
  rw [List.eq_nil_iff_forall_not_mem]
  intro e he
  obtain ⟨run, hrun, hafter, -⟩ := mem_ends_keyword.mp he
  have hlength : run.length = (js word).length := by
    have hlengths := congrArg List.length hrun
    simpa [toLowerCase] using hlengths
  apply hstart
  rw [← hrun, ← hlength]
  unfold toLowerCase
  rw [← List.map_take, ← List.map_take]
  congr 1
  -- both are the text as far as it is in both
  calc start.take run.length = ((start ++ rest).take start.length).take run.length := by
        rw [List.take_left]
    _ = ((run ++ e.2).take run.length).take start.length := by
        rw [hafter, List.take_take, List.take_take, Nat.min_comm]
    _ = run.take start.length := by rw [List.take_left]

theorem blank_first {before rest : JsString} (h : Regex.StopsAt isSpace rest) :
    Regex.First isWordChar spaces (before, blank :: rest) (blank :: before, rest) := by
  have hrun : ∀ c ∈ [blank], isSpace c = true := by decide
  exact Regex.first_many1 (List.cons_ne_nil blank []) hrun h

theorem mem_ends_spaces {before after : JsString} {e : Regex.Spot CodeUnit} :
    e ∈ spaces.ends isWordChar (before, after) ↔
      ∃ run, run ≠ [] ∧ (∀ c ∈ run, isSpace c = true) ∧ after = run ++ e.2 ∧
        e.1 = run.reverse ++ before := by
  constructor
  · intro h
    obtain ⟨m, hm, he⟩ := Regex.mem_ends_seq.mp h
    obtain ⟨c, rest, rfl, hc, rfl⟩ := Regex.mem_ends_one.mp hm
    obtain ⟨run, hrun, rfl, hbefore⟩ := Regex.mem_ends_many.mp he
    refine ⟨c :: run, List.cons_ne_nil c run, List.forall_mem_cons.mpr ⟨hc, hrun⟩, rfl, ?_⟩
    rw [hbefore, List.reverse_cons, List.append_assoc, List.singleton_append]
  · rintro ⟨run, hne, hrun, rfl, hbefore⟩
    obtain ⟨c, run, rfl⟩ := List.exists_cons_of_ne_nil hne
    apply Regex.mem_ends_seq.mpr
    refine ⟨_, Regex.mem_ends_one.mpr ⟨c, _, rfl, hrun c List.mem_cons_self, rfl⟩, ?_⟩
    refine Regex.mem_ends_many.mpr ⟨run, fun d hd => hrun d (List.mem_cons_of_mem c hd), rfl, ?_⟩
    rw [hbefore, List.reverse_cons, List.append_assoc, List.singleton_append]

theorem spaces_nil {before rest : JsString} (h : Regex.StopsAt isSpace rest) :
    spaces.ends isWordChar (before, rest) = [] := Regex.seq_ends_nil (Regex.one_ends_nil h)

theorem word_stopsAt {word : JsString} (h : IsWord isSpace word) (rest : JsString) :
    Regex.StopsAt isSpace (word ++ rest) := by
  obtain ⟨c, cs, rfl⟩ := List.exists_cons_of_ne_nil h.1
  rintro d ⟨⟩
  exact h.2 c List.mem_cons_self

theorem stopsAt_nil (p : CodeUnit → Bool) : Regex.StopsAt p [] := fun _ h => nomatch h

section
variable {a b : Pattern Group CodeUnit}
  {k : Pattern.State Group CodeUnit → List (Pattern.State Group CodeUnit)}
  {e : Pattern.State Group CodeUnit} {before rest : JsString} {groups : List (Group × JsString)}

theorem finds_keyed {word : String} (hword : IsWord isSpace (js word))
    (hrest : Regex.StopsAt isSpace rest)
    (h : Pattern.Finds isWordChar (.seq a b) k
      ((blank :: ((js word).reverse ++ blank :: before), rest), groups) e) :
    Pattern.Finds isWordChar (.seq (.seq (.plain spaces) (.seq (.plain (keyword word))
      (.seq (.plain spaces) a))) b) k ((before, keyed (js word) rest), groups) e := by
  unfold keyed
  apply Pattern.Finds.assoc_plain (blank_first (word_stopsAt hword _))
  apply Pattern.Finds.assoc_plain (keyword_first word _ _)
  exact Pattern.Finds.assoc_plain (blank_first hrest) h

end

-- ---------------------------------------------------------------------------
-- The order and the limit
-- ---------------------------------------------------------------------------

def Query.orderGroups (query : Query) : List (Group × JsString) :=
  match query.orderBy with
  | none => []
  | some (field, direction) => [(.dir, direction.text), (.order, field.val)]

def Query.limitGroups (query : Query) : List (Group × JsString) :=
  match query.limit with
  | none => []
  | some n => [(.limit, decimal n.val)]

def limitTail : Pattern Group CodeUnit :=
  .seq (.maybe limitPart) (.seq (.plain (.many isSpace)) (.plain .finish))

theorem decimal_isWord (n : Nat) : IsWord isSpace (decimal n) := by
  apply isWord_of_plain decimal_ne_nil
  intro c hc
  exact wordChar_plain (by simp [isWordChar, isDigit_of_mem_decimal hc])

theorem isWord_stopsAt {word : JsString} (h : IsWord isSpace word) :
    Regex.StopsAt isSpace word := by
  have hword := word_stopsAt h []
  rwa [List.append_nil] at hword

theorem end_finds (before : JsString) (groups : List (Group × JsString)) :
    Pattern.Finds isWordChar (.seq (.plain (.many isSpace)) (.plain .finish)) (fun s => [s])
      ((before, []), groups) ((before, []), groups) := by
  have hmany : Regex.First isWordChar (.many isSpace) (before, [] ++ []) (before, []) :=
    Regex.first_many (List.forall_mem_nil _) (stopsAt_nil isSpace)
  exact Pattern.Finds.seq_plain hmany (Pattern.Finds.plain Regex.first_finish rfl)

theorem limit_finds (query : Query) (before : JsString) (groups : List (Group × JsString)) :
    ∃ spot, Pattern.Finds isWordChar limitTail (fun s => [s])
      ((before, query.limitText), groups) (spot, query.limitGroups ++ groups) := by
  unfold Query.limitText Query.limitGroups limitTail
  cases query.limit with
  | none =>
    exact ⟨_, Pattern.Finds.maybe_not (Pattern.seq_plain_ends_nil (spaces_nil (stopsAt_nil _)))
      (end_finds before groups)⟩
  | some n =>
    have hdigits (before : JsString) : Regex.First isWordChar (.many1 isDigit)
        (before, decimal n.val ++ []) ((decimal n.val).reverse ++ before, []) :=
      Regex.first_many1 decimal_ne_nil (fun _ hc => isDigit_of_mem_decimal hc) (stopsAt_nil isDigit)
    have hgroup (before : JsString) : Pattern.Finds isWordChar
        (.seq (.group .limit (.plain (.many1 isDigit)))
          (.seq (.plain (.many isSpace)) (.plain .finish))) (fun s => [s])
        ((before, decimal n.val), groups)
        (((decimal n.val).reverse ++ before, []), (.limit, decimal n.val) :: groups) := by
      have hfinds := Pattern.Finds.seq_group (hdigits before)
        (end_finds ((decimal n.val).reverse ++ before) ((Group.limit, decimal n.val) :: groups))
      rwa [List.append_nil] at hfinds
    exact ⟨_, Pattern.Finds.maybe (finds_keyed ⟨by decide, by decide⟩
      (isWord_stopsAt (decimal_isWord n.val)) (hgroup _))⟩

theorem order_first {field : Identifier} (hfield : ∀ c ∈ field.val, isDigit c = false)
    (before rest : JsString) :
    Regex.First isWordChar (.many1 isOrderUnit) (before, field.val ++ blank :: rest)
      (field.val.reverse ++ before, blank :: rest) := by
  apply Regex.first_many1 field.ne_nil
  · intro c hc
    have hword := field.wordChars c hc
    have hdigit := hfield c hc
    simp only [isWordChar, hdigit, Bool.or_false] at hword
    simp only [isOrderUnit, startsName, hword, Bool.true_or]
  · rintro c ⟨⟩
    decide

theorem direction_first (direction : Direction) (before rest : JsString) :
    Regex.First isWordChar (.alt (keyword "ASC") (keyword "DESC"))
      (before, direction.text ++ rest) (direction.text.reverse ++ before, rest) := by
  cases direction with
  | asc => exact Regex.First.alt_left (keyword_first "ASC" before rest)
  | desc =>
    have hasc : (keyword "ASC").ends isWordChar (before, js "DESC" ++ rest) = [] :=
      keyword_ends_nil (by decide) before rest
    exact Regex.First.alt_right hasc (keyword_first "DESC" before rest)

theorem direction_isWord (direction : Direction) : IsWord isSpace direction.text := by
  cases direction with
  | asc => exact ⟨by decide, by decide⟩
  | desc => exact ⟨by decide, by decide⟩

def Led (words : List String) (text : JsString) : Prop :=
  text = [] ∨ ∃ word ∈ words, ∃ rest, text = keyed (js word) rest

theorem limitText_led (query : Query) : Led ["LIMIT"] query.limitText := by
  unfold Query.limitText
  cases query.limit with
  | none => exact .inl rfl
  | some n => exact .inr ⟨"LIMIT", List.mem_cons_self, _, rfl⟩

theorem orderText_led (query : Query) :
    Led ["ORDER", "LIMIT"] (query.orderText ++ query.limitText) := by
  unfold Query.orderText
  cases query.orderBy with
  | none =>
    rcases limitText_led query with h | ⟨word, hword, rest, h⟩
    · exact .inl (by simp [h])
    · exact .inr ⟨word, List.mem_cons_of_mem _ hword, rest, by simpa using h⟩
  | some order =>
    refine .inr ⟨"ORDER", List.mem_cons_self, js "BY" ++ blank :: (order.1.val ++
      blank :: (order.2.text ++ query.limitText)), ?_⟩
    simp [keyed]

theorem led_ends_nil {others : List String} {word : String} {text : JsString} (h : Led others text)
    (hothers : ∀ other ∈ others, IsWord isSpace (js other) ∧
      (toLowerCase (js other ++ [blank])).take (js word).length ≠
        (toLowerCase (js word)).take (js other ++ [blank]).length)
    (a : Pattern Group CodeUnit) (before : JsString) (groups : List (Group × JsString)) :
    Pattern.ends isWordChar (.seq (.plain spaces) (.seq (.plain (keyword word)) a))
      ((before, text), groups) = [] := by
  rw [List.eq_nil_iff_forall_not_mem]
  intro e he
  obtain ⟨m, hm, he⟩ := List.mem_flatMap.mp he
  obtain ⟨spot, hspot, rfl⟩ := List.mem_map.mp hm
  rcases h with rfl | ⟨other, hother, rest, rfl⟩
  · rw [spaces_nil (stopsAt_nil _)] at hspot
    cases hspot
  · obtain ⟨hword, hne⟩ := hothers other hother
    -- the blank is all that the spaces can take
    obtain ⟨run, hne', hrun, hafter, -⟩ := mem_ends_spaces.mp hspot
    obtain ⟨c, run, rfl⟩ := List.exists_cons_of_ne_nil hne'
    have hrest : js other ++ blank :: rest = run ++ spot.2 := (List.cons.inj hafter).2
    have hstop : spot.2 = (js other ++ [blank]) ++ rest := by
      cases run with
      | nil => simpa using hrest.symm
      | cons d run =>
        have hd : isSpace d = true := hrun d (by simp)
        have hfalse := word_stopsAt hword (blank :: rest) d (by rw [hrest]; rfl)
        rw [hd] at hfalse
        cases hfalse
    have hnil := keyword_ends_nil hne spot.1 rest
    rw [← hstop] at hnil
    obtain ⟨m', hm', -⟩ := List.mem_flatMap.mp he
    obtain ⟨spot', hspot', -⟩ := List.mem_map.mp hm'
    rw [hnil] at hspot'
    cases hspot'

theorem tail_finds (query : Query)
    (horder : ∀ order, query.orderBy = some order → ∀ c ∈ order.1.val, isDigit c = false)
    (before : JsString) (groups : List (Group × JsString)) :
    ∃ spot, Pattern.Finds isWordChar tailPattern (fun s => [s])
      ((before, query.orderText ++ query.limitText), groups)
      (spot, query.limitGroups ++ (query.orderGroups ++ groups)) := by
  show ∃ spot, Pattern.Finds isWordChar (.seq (.maybe orderPart) limitTail) _ _ _
  unfold Query.orderText Query.orderGroups
  cases hby : query.orderBy with
  | none =>
    obtain ⟨spot, hlimit⟩ := limit_finds query before groups
    exact ⟨spot, Pattern.Finds.maybe_not
      (led_ends_nil (limitText_led query) (by decide) _ before groups) hlimit⟩
  | some order =>
    obtain ⟨field, direction⟩ := order
    obtain ⟨spot, hlimit⟩ := limit_finds query
      (direction.text.reverse ++ blank :: (field.val.reverse ++
        blank :: ((js "BY").reverse ++ blank :: ((js "ORDER").reverse ++ blank :: before))))
      ((.dir, direction.text) :: (.order, field.val) :: groups)
    refine ⟨spot, Pattern.Finds.maybe ?_⟩
    have htext : keyed (js "ORDER") (js "BY" ++ blank :: (field.val ++ blank :: direction.text)) ++
        query.limitText = keyed (js "ORDER") (js "BY" ++ blank :: (field.val ++
          blank :: (direction.text ++ query.limitText))) := by
      simp [keyed]
    dsimp only
    rw [htext]
    apply finds_keyed ⟨by decide, by decide⟩ (word_stopsAt ⟨by decide, by decide⟩ _)
    apply Pattern.Finds.assoc_plain (keyword_first "BY" _ _)
    apply Pattern.Finds.assoc_plain (blank_first (word_stopsAt field.isWord _))
    apply Pattern.finds_assoc.mpr
    apply Pattern.Finds.seq_group (order_first (horder _ hby) _ _)
    apply Pattern.Finds.maybe
    apply Pattern.Finds.assoc_plain (blank_first (word_stopsAt (direction_isWord direction) _))
    exact Pattern.Finds.seq_group (direction_first direction _ _) hlimit

-- ---------------------------------------------------------------------------
-- What reads like a tail
-- ---------------------------------------------------------------------------

def TailUnit (c : CodeUnit) : Prop := isSpace c = true ∨ isPlain c = true

theorem letter_of_lower {c d : CodeUnit} (h : lower c = lower d) (hd : isLetter d = true) :
    isLetter c = true := by
  have hall : ∀ n < 128, (!isLetter (UInt16.ofNat n) || isLower (lower (UInt16.ofNat n))) = true := by
    decide +kernel
  have hword : isWordChar d = true := by simp [isWordChar, hd]
  have hlower : isLower (lower d) = true := by
    have hc := of_ascii (P := fun c => !isLetter c || isLower (lower c)) hall (wordChar_ascii hword)
    simpa [hd] using hc
  rw [← h] at hlower
  unfold lower at hlower
  split at hlower
  · next hupper => simp [isLetter, hupper]
  · simp [isLetter, hlower]

theorem keyword_letters {word : String} (hword : ∀ c ∈ js word, isLetter c = true)
    {run : JsString} (h : toLowerCase run = toLowerCase (js word)) :
    ∀ c ∈ run, isLetter c = true := by
  intro c hc
  have hmem : lower c ∈ toLowerCase (js word) := h ▸ List.mem_map_of_mem hc
  obtain ⟨d, hd, hlower⟩ := List.mem_map.mp hmem
  exact letter_of_lower hlower.symm (hword d hd)

theorem letter_plain {c : CodeUnit} (h : isLetter c = true) : isPlain c = true :=
  wordChar_plain (by simp [isWordChar, h])

theorem keyword_over {word : String} (hword : ∀ c ∈ js word, isLetter c = true) :
    (keyword word).Over TailUnit := by
  apply Regex.over_literal
  intro c hc d hd
  have hlower : lower c = lower d := by simpa [sameLetter] using hd
  exact .inr (letter_plain (letter_of_lower hlower.symm (hword c hc)))

theorem keyword_isWord {word : String} (hne : js word ≠ [])
    (hword : ∀ c ∈ js word, isLetter c = true) {run : JsString}
    (h : toLowerCase run = toLowerCase (js word)) : IsWord isSpace run := by
  refine isWord_of_plain ?_ fun c hc => letter_plain (keyword_letters hword h c hc)
  rintro rfl
  exact hne (List.map_eq_nil_iff.mp h.symm)

theorem digit_plain {c : CodeUnit} (h : isDigit c = true) : isPlain c = true :=
  wordChar_plain (by simp [isWordChar, h])

theorem orderUnit_plain {c : CodeUnit} (h : isOrderUnit c = true) : isPlain c = true := by
  simp only [isOrderUnit, Bool.or_eq_true] at h
  rcases h with h | h
  · exact wordChar_plain (startsName_wordChar h)
  · simp [isPlain, h]

theorem tail_over : tailPattern.Over TailUnit := by
  have hspace (c : CodeUnit) (h : isSpace c = true) : TailUnit c := .inl h
  have hspaces : spaces.Over TailUnit := ⟨hspace, hspace⟩
  have hletters (c : CodeUnit) (h : isOrderUnit c = true) : TailUnit c := .inr (orderUnit_plain h)
  have hdigits (c : CodeUnit) (h : isDigit c = true) : TailUnit c := .inr (digit_plain h)
  exact ⟨⟨hspaces, keyword_over (by decide), hspaces, keyword_over (by decide), hspaces,
      ⟨hletters, hletters⟩, hspaces, keyword_over (by decide), keyword_over (by decide)⟩,
    ⟨hspaces, keyword_over (by decide), hspaces, hdigits, hdigits⟩, hspace, trivial⟩

structure TailText (text : JsString) : Prop where
  units : ∀ c ∈ text, TailUnit c
  start : ∀ c ∈ text.head?, isSpace c = true
  words : words isSpace text = [] ∨ ∃ w₁ w₂ ws, words isSpace text = w₁ :: w₂ :: ws ∧
    (toLowerCase w₁ = js "order" ∧ toLowerCase w₂ = js "by" ∨
      toLowerCase w₁ = js "limit" ∧ ∀ c ∈ w₂, isDigit c = true)

theorem starts_with_spaces {run rest : JsString} (hne : run ≠ [])
    (h : ∀ c ∈ run, isSpace c = true) : ∀ c ∈ (run ++ rest).head?, isSpace c = true := by
  obtain ⟨d, run, rfl⟩ := List.exists_cons_of_ne_nil hne
  rintro c ⟨⟩
  exact h d List.mem_cons_self

theorem mem_ends_plain {r : Regex CodeUnit} {s e : Pattern.State Group CodeUnit}
    (h : e ∈ (Pattern.plain r).ends isWordChar s) : e.1 ∈ r.ends isWordChar s.1 := by
  obtain ⟨spot, hspot, rfl⟩ := List.mem_map.mp h
  exact hspot

theorem keyed_run {word : String} {a : Pattern Group CodeUnit} {s e : Pattern.State Group CodeUnit}
    (h : e ∈ (Pattern.seq (.plain spaces) (.seq (.plain (keyword word))
      (.seq (.plain spaces) a))).ends isWordChar s) :
    ∃ run w run' m, run ≠ [] ∧ (∀ c ∈ run, isSpace c = true) ∧
      toLowerCase w = toLowerCase (js word) ∧ run' ≠ [] ∧ (∀ c ∈ run', isSpace c = true) ∧
      s.1.2 = run ++ (w ++ (run' ++ m.1.2)) ∧ e ∈ a.ends isWordChar m := by
  obtain ⟨m₁, hm₁, h⟩ := List.mem_flatMap.mp h
  obtain ⟨m₂, hm₂, h⟩ := List.mem_flatMap.mp h
  obtain ⟨m₃, hm₃, h⟩ := List.mem_flatMap.mp h
  obtain ⟨run, hne, hrun, hafter, -⟩ := mem_ends_spaces.mp (mem_ends_plain hm₁)
  obtain ⟨w, hw, hafter₂, -⟩ := mem_ends_keyword.mp (mem_ends_plain hm₂)
  obtain ⟨run', hne', hrun', hafter₃, -⟩ := mem_ends_spaces.mp (mem_ends_plain hm₃)
  exact ⟨run, w, run', m₃, hne, hrun, hw, hne', hrun', by rw [hafter, hafter₂, hafter₃], h⟩

theorem limitTail_run {s e : Pattern.State Group CodeUnit}
    (h : e ∈ limitTail.ends isWordChar s) :
    (∀ c ∈ s.1.2, isSpace c = true) ∨
      ∃ run w run' digits run'', run ≠ [] ∧ (∀ c ∈ run, isSpace c = true) ∧
        toLowerCase w = toLowerCase (js "LIMIT") ∧ run' ≠ [] ∧ (∀ c ∈ run', isSpace c = true) ∧
        digits ≠ [] ∧ (∀ c ∈ digits, isDigit c = true) ∧ (∀ c ∈ run'', isSpace c = true) ∧
        s.1.2 = run ++ (w ++ (run' ++ (digits ++ run''))) := by
  obtain ⟨m, hm, h⟩ := List.mem_flatMap.mp h
  obtain ⟨m', hm', h⟩ := List.mem_flatMap.mp h
  obtain ⟨hend, -⟩ := Regex.mem_ends_finish.mp (mem_ends_plain h)
  obtain ⟨run'', hrun'', hafter'', -⟩ := Regex.mem_ends_many.mp (mem_ends_plain hm')
  rw [hend, List.append_nil] at hafter''
  rcases List.mem_append.mp hm with hm | hm
  · obtain ⟨run, w, run', p, hne, hrun, hw, hne', hrun', htext, hp⟩ := keyed_run hm
    obtain ⟨q, hq, rfl⟩ := List.mem_map.mp hp
    obtain ⟨q', hq', hq⟩ := Regex.mem_ends_seq.mp (mem_ends_plain hq)
    obtain ⟨d, rest, hafter, hd, rfl⟩ := Regex.mem_ends_one.mp hq'
    obtain ⟨digits, hdigits, rfl, -⟩ := Regex.mem_ends_many.mp hq
    refine .inr ⟨run, w, run', d :: digits, run'', hne, hrun, hw, hne', hrun',
      List.cons_ne_nil d digits, List.forall_mem_cons.mpr ⟨hd, hdigits⟩, hrun'', ?_⟩
    rw [htext, hafter, ← hafter'']
    rfl
  · obtain rfl := List.mem_singleton.mp hm
    exact .inl (by rw [hafter'']; exact hrun'')

theorem tailText_of_mem {s e : Pattern.State Group CodeUnit}
    (h : e ∈ tailPattern.ends isWordChar s) : TailText s.1.2 := by
  obtain ⟨run, hafter, hunits⟩ := Pattern.ends_over tail_over h
  obtain ⟨m, hm, htail⟩ := List.mem_flatMap.mp h
  have hend : e.1.2 = [] := by
    obtain ⟨_, -, htail⟩ := List.mem_flatMap.mp htail
    obtain ⟨_, -, htail⟩ := List.mem_flatMap.mp htail
    obtain ⟨hend, heq⟩ := Regex.mem_ends_finish.mp (mem_ends_plain htail)
    rw [heq, hend]
  rw [hend, List.append_nil] at hafter
  rw [← hafter] at hunits
  rcases List.mem_append.mp hm with hm | hm
  · obtain ⟨run₁, w₁, run₂, p, hne₁, hrun₁, hw₁, hne₂, hrun₂, htext, hp⟩ := keyed_run hm
    obtain ⟨p₁, hp₁, hp⟩ := List.mem_flatMap.mp hp
    obtain ⟨p₂, hp₂, -⟩ := List.mem_flatMap.mp hp
    obtain ⟨w₂, hw₂, hafter₂, -⟩ := mem_ends_keyword.mp (mem_ends_plain hp₁)
    obtain ⟨run₃, hne₃, hrun₃, hafter₃, -⟩ := mem_ends_spaces.mp (mem_ends_plain hp₂)
    refine ⟨hunits, by rw [htext]; exact starts_with_spaces hne₁ hrun₁,
      .inr ⟨w₁, w₂, words isSpace p₂.1.2, ?_, .inl ⟨hw₁, hw₂⟩⟩⟩
    rw [htext, hafter₂, hafter₃, words_seps_append hrun₁,
      words_word_seps (keyword_isWord (by decide) (by decide) hw₁) hne₂ hrun₂,
      words_word_seps (keyword_isWord (by decide) (by decide) hw₂) hne₃ hrun₃]
  · obtain rfl := List.mem_singleton.mp hm
    rcases limitTail_run htail with hspaces |
      ⟨run₁, w, run₂, digits, run₃, hne₁, hrun₁, hw, hne₂, hrun₂, hne, hdigits, hrun₃, htext⟩
    · exact ⟨hunits, fun c hc => hspaces c (List.mem_of_head? hc), .inl (words_seps hspaces)⟩
    · have hword : IsWord isSpace digits :=
        isWord_of_plain hne fun c hc => digit_plain (hdigits c hc)
      refine ⟨hunits, by rw [htext]; exact starts_with_spaces hne₁ hrun₁,
        .inr ⟨w, digits, [], ?_, .inr ⟨hw, hdigits⟩⟩⟩
      rw [htext, words_seps_append hrun₁,
        words_word_seps (keyword_isWord (by decide) (by decide) hw) hne₂ hrun₂,
        words_word_end hword hrun₃]

-- ---------------------------------------------------------------------------
-- The ends of a clause
-- ---------------------------------------------------------------------------

theorem suffix_append_cases {rest a b : JsString} (h : rest <:+ a ++ b) :
    rest <:+ b ∨ ∃ a', a' ≠ [] ∧ a' <:+ a ∧ rest = a' ++ b := by
  obtain ⟨front, h⟩ := h
  rcases List.append_eq_append_iff.mp h with ⟨a', rfl, hrest⟩ | ⟨b', hfront, hb⟩
  · cases a' with
    | nil => exact .inl (by rw [hrest, List.nil_append])
    | cons c a' => exact .inr ⟨c :: a', List.cons_ne_nil c a', List.suffix_append _ _, hrest⟩
  · exact .inl ⟨b', hb.symm⟩

theorem suffix_after_word {rest w b : JsString} (hw : ∀ c ∈ w, isSpace c = false)
    (hspace : ∃ c r, rest = c :: r ∧ isSpace c = true) (h : rest <:+ w ++ b) : rest <:+ b := by
  rcases suffix_append_cases h with h | ⟨w', hne, hw', hrest⟩
  · exact h
  · obtain ⟨c, r, rfl, hc⟩ := hspace
    obtain ⟨d, w', rfl⟩ := List.exists_cons_of_ne_nil hne
    obtain ⟨rfl, -⟩ := List.cons.inj hrest
    rw [hw c (hw'.subset List.mem_cons_self)] at hc
    cases hc

/-- The text is not read as a tail: its first word is none that a tail begins with, or its second
word is an operator. -/
def Unread (rest : JsString) : Prop :=
  ∃ w ws, words isSpace rest = w :: ws ∧
    (toLowerCase w ∉ [js "order", js "limit"] ∨ ∃ operator ws', ws = Operator.text operator :: ws')

def clauseRest (engine : Engine) (combinator : Combinator) : List Condition → JsString
  | [] => []
  | conditions => keyed combinator.text (clause engine combinator conditions)

theorem clause_cons (engine : Engine) (combinator : Combinator) (condition : Condition)
    (conditions : List Condition) :
    clause engine combinator (condition :: conditions) = condition.field.val ++
      blank :: (condition.test.operator.text ++ blank :: (condition.test.render engine ++
        clauseRest engine combinator conditions)) := by
  cases conditions <;> simp [clause, clauseRest, Condition.render]

theorem isSpace_blank : isSpace blank = true := by decide

theorem words_condition (field : Identifier) (operator : Operator) (rest : JsString) :
    words isSpace (field.val ++ blank :: (operator.text ++ blank :: rest)) =
      field.val :: operator.text :: words isSpace rest := by
  rw [words_word_sep field.isWord isSpace_blank, words_word_sep operator.isWord isSpace_blank]

theorem operator_not_read (operator : Operator) :
    toLowerCase operator.text ∉ [js "order", js "limit"] := by
  cases operator <;> decide

theorem combinator_not_read (combinator : Combinator) :
    toLowerCase combinator.text ∉ [js "order", js "limit"] := by
  cases combinator <;> decide

theorem combinator_isWord (combinator : Combinator) : IsWord isSpace combinator.text := by
  cases combinator <;> decide

theorem clauseRest_cases (engine : Engine) (combinator : Combinator) (conditions : List Condition) :
    clauseRest engine combinator conditions = [] ∨
      ∃ rest, clauseRest engine combinator conditions = blank :: rest := by
  cases conditions with
  | nil => exact .inl rfl
  | cons next conditions => exact .inr ⟨_, rfl⟩

theorem last_mem_suffix {a init : JsString} {c : CodeUnit} (hne : a ≠ []) (h : a <:+ init ++ [c]) :
    c ∈ a := by
  obtain ⟨front, h⟩ := h
  have hlast := congrArg List.getLast? h
  rw [List.getLast?_append_of_ne_nil _ hne, List.getLast?_concat] at hlast
  exact List.mem_of_getLast? hlast

theorem selection_units (selection : Selection) :
    selection.render ≠ [] ∧ ∀ c ∈ selection.render, isSpace c = false := by
  cases selection with
  | star => exact ⟨by decide, by decide⟩
  | named first rest =>
    constructor
    · intro h
      dsimp only [Selection.render] at h
      cases rest with
      | nil =>
        rw [List.map_nil, List.intercalate_singleton] at h
        exact first.ne_nil h
      | cons next rest =>
        rw [List.map_cons, List.intercalate_cons_cons, List.append_assoc] at h
        exact first.ne_nil (List.append_eq_nil_iff.mp h).1
    · intro c hc
      rcases mem_intercalate hc with rfl | ⟨name, hname, hc⟩
      · decide
      · rcases List.mem_cons.mp hname with rfl | hname
        · exact first.isWord.2 c hc
        · obtain ⟨field, -, rfl⟩ := List.mem_map.mp hname
          exact (Identifier.isWord field).2 c hc

section
variable {engine : Engine} (hnum : NumberText engine.numberText)

theorem test_plain {test : Test} {a : JsString} (hne : a ≠ []) (ha : a <:+ test.render engine)
    (h : ∀ c ∈ a, TailUnit c) :
    ∃ value : Literal, ¬ value.IsString ∧ test.render engine = value.render engine := by
  have hquote : ¬ TailUnit singleQuote := by unfold TailUnit; decide
  have hparen : ¬ TailUnit rightParen := by unfold TailUnit; decide
  cases test with
  | compare operator value scalar =>
    cases value with
    | string s =>
      have hlast : singleQuote ∈ a := @last_mem_suffix a (singleQuote :: double s) _ hne ha
      exact absurd (h _ hlast) hquote
    | number n => exact ⟨.number n, id, rfl⟩
    | boolean b => exact ⟨.boolean b, id, rfl⟩
    | null => exact ⟨.null, id, rfl⟩
  | isIn values =>
    have hlast : rightParen ∈ a := @last_mem_suffix a (leftParen :: _) _ hne ha
    exact absurd (h _ hlast) hparen

include hnum

theorem unread_of_suffix (combinator : Combinator) {conditions : List Condition} {rest : JsString}
    (hspace : ∃ c r, rest = c :: r ∧ isSpace c = true) (hunits : ∀ c ∈ rest, TailUnit c)
    (h : rest <:+ clause engine combinator conditions) : Unread rest := by
  induction conditions with
  | nil =>
    obtain ⟨c, r, rfl, -⟩ := hspace
    exact absurd (List.suffix_nil.mp h) (List.cons_ne_nil c r)
  | cons condition conditions ih =>
    rw [clause_cons] at h
    have hfield := suffix_after_word condition.field.isWord.2 hspace h
    rcases List.suffix_cons_iff.mp hfield with rfl | h
    · refine ⟨condition.test.operator.text, words isSpace (condition.test.render engine ++
        clauseRest engine combinator conditions), ?_, .inl (operator_not_read _)⟩
      rw [words_cons_sep isSpace_blank, words_word_sep (Operator.isWord _) isSpace_blank]
    have hoperator := suffix_after_word (Operator.isWord _).2 hspace h
    rcases List.suffix_cons_iff.mp hoperator with rfl | h
    · -- the value is a part of the text
      obtain ⟨value, hvalue, hrender⟩ := test_plain (condition.test.solid hnum).ne_nil
        List.suffix_rfl fun c hc => hunits c (List.mem_cons_of_mem _ (List.mem_append_left _ hc))
      have hword : IsWord isSpace (value.render engine) :=
        isWord_of_plain (value.plain hnum hvalue).1 (value.plain hnum hvalue).2
      have hnot : toLowerCase (value.render engine) ∉ [js "order", js "limit"] := fun hmem =>
        value.not_reserved hnum hvalue (List.mem_cons_of_mem _ (List.mem_cons_of_mem _ hmem))
      refine ⟨value.render engine, words isSpace (clauseRest engine combinator conditions), ?_,
        .inl hnot⟩
      rw [hrender, words_cons_sep isSpace_blank]
      rcases clauseRest_cases engine combinator conditions with hrest | ⟨rest, hrest⟩
      · rw [hrest, List.append_nil, words_of_isWord hword]
        rfl
      · rw [hrest, words_word_sep hword isSpace_blank, words_cons_sep isSpace_blank]
    rcases suffix_append_cases h with h | ⟨a, hne, ha, rfl⟩
    · cases conditions with
      | nil =>
        obtain ⟨c, r, rfl, -⟩ := hspace
        exact absurd (List.suffix_nil.mp h) (List.cons_ne_nil c r)
      | cons next conditions =>
        rcases List.suffix_cons_iff.mp h with rfl | h
        · refine ⟨combinator.text, words isSpace (clause engine combinator (next :: conditions)), ?_,
            .inl (combinator_not_read combinator)⟩
          rw [words_cons_sep isSpace_blank,
            words_word_sep (combinator_isWord combinator) isSpace_blank]
        have hcombinator := suffix_after_word (combinator_isWord combinator).2 hspace h
        rcases List.suffix_cons_iff.mp hcombinator with rfl | h
        · have hwords : words isSpace (blank :: clause engine combinator (next :: conditions)) =
              next.field.val :: next.test.operator.text :: words isSpace
                (next.test.render engine ++ clauseRest engine combinator conditions) := by
            rw [words_cons_sep isSpace_blank, clause_cons, words_condition]
          exact ⟨_, _, hwords, .inr ⟨_, _, rfl⟩⟩
        · exact ih h
    · -- no part of a value that is no string starts with a space
      obtain ⟨value, hvalue, hrender⟩ := test_plain hne ha fun c hc =>
        hunits c (List.mem_append_left _ hc)
      obtain ⟨c, a, rfl⟩ := List.exists_cons_of_ne_nil hne
      obtain ⟨d, r, hr, hd⟩ := hspace
      obtain ⟨rfl, -⟩ := List.cons.inj hr
      have hmem : c ∈ value.render engine := hrender ▸ ha.subset List.mem_cons_self
      rw [(plain_inert ((value.plain hnum hvalue).2 c hmem)).space] at hd
      cases hd

theorem tail_ends_nil (query : Query) (combinator : Combinator) {conditions : List Condition}
    {run rest : JsString} (hsplit : clause engine combinator conditions = run ++ rest)
    (hne : rest ≠ []) (before : JsString) (groups : List (Group × JsString)) :
    tailPattern.ends isWordChar
      ((before, rest ++ (query.orderText ++ query.limitText)), groups) = [] := by
  rw [List.eq_nil_iff_forall_not_mem]
  intro e he
  obtain ⟨hunits, hstart, hwords⟩ := tailText_of_mem he
  dsimp only at hunits hstart hwords
  obtain ⟨c, r, rfl⟩ := List.exists_cons_of_ne_nil hne
  have hspace : isSpace c = true := hstart c rfl
  obtain ⟨w, ws, hrest, hunread⟩ : Unread (c :: r) := unread_of_suffix hnum combinator
    ⟨c, r, rfl, hspace⟩ (fun d hd => hunits d (List.mem_append_left _ hd)) ⟨run, hsplit.symm⟩
  obtain ⟨after, hafter⟩ : ∃ after, words isSpace (c :: r ++ (query.orderText ++ query.limitText)) =
      w :: (ws ++ after) := by
    rcases orderText_led query with htail | ⟨word, -, rest, htail⟩
    · exact ⟨[], by rw [htail, List.append_nil, hrest, List.append_nil]⟩
    · unfold keyed at htail
      refine ⟨words isSpace (js word ++ blank :: rest), ?_⟩
      rw [htail, words_append_cons _ isSpace_blank, hrest, List.cons_append]
  rw [hafter] at hwords
  rcases hwords with hnil | ⟨w₁, w₂, ws', hcons, hread⟩
  · cases hnil
  · obtain ⟨rfl, hws⟩ := List.cons.inj hcons
    rcases hunread with hnot | ⟨operator, ws'', rfl⟩
    · rcases hread with ⟨horder, -⟩ | ⟨hlimit, -⟩
      · exact hnot (by rw [horder]; exact List.mem_cons_self)
      · exact hnot (by rw [hlimit]; exact List.mem_cons_of_mem _ List.mem_cons_self)
    · obtain ⟨rfl, -⟩ := List.cons.inj hws
      rcases hread with ⟨-, hby⟩ | ⟨-, hdigits⟩
      · revert hby
        cases operator <;> decide
      · revert hdigits
        cases operator <;> decide

-- ---------------------------------------------------------------------------
-- The groups of a query
-- ---------------------------------------------------------------------------

def Query.whereGroups (engine : Engine) (query : Query) : List (Group × JsString) :=
  if query.conditions.isEmpty then []
  else [(.whereClause, clause engine query.combinator query.conditions)]

theorem where_finds (query : Query)
    (horder : ∀ order, query.orderBy = some order → ∀ c ∈ order.1.val, isDigit c = false)
    (before : JsString) (groups : List (Group × JsString)) :
    ∃ spot, Pattern.Finds isWordChar (.seq (.maybe wherePart) tailPattern) (fun s => [s])
      ((before, query.whereText engine ++ (query.orderText ++ query.limitText)), groups)
      (spot, query.limitGroups ++ (query.orderGroups ++ (query.whereGroups engine ++ groups))) := by
  unfold Query.whereText Query.whereGroups
  by_cases hempty : query.conditions.isEmpty = true
  · obtain ⟨spot, htail⟩ := tail_finds query horder before groups
    rw [if_pos hempty, if_pos hempty]
    exact ⟨spot, Pattern.Finds.maybe_not
      (led_ends_nil (orderText_led query) (by decide) _ before groups) htail⟩
  · have hne : query.conditions ≠ [] := fun h => hempty (List.isEmpty_iff.mpr h)
    have hsolid := clause_solid hnum query.combinator hne
    obtain ⟨spot, htail⟩ := tail_finds query horder
      ((clause engine query.combinator query.conditions).reverse ++
        blank :: ((js "WHERE").reverse ++ blank :: before))
      ((.whereClause, clause engine query.combinator query.conditions) :: groups)
    rw [if_neg hempty, if_neg hempty]
    refine ⟨spot, Pattern.Finds.maybe ?_⟩
    have htext : keyed (js "WHERE") (clause engine query.combinator query.conditions) ++
        (query.orderText ++ query.limitText) = keyed (js "WHERE")
          (clause engine query.combinator query.conditions ++ (query.orderText ++ query.limitText)) := by
      simp [keyed]
    rw [htext]
    apply finds_keyed (by decide) (hsolid.stopsAt _)
    apply Pattern.Finds.seq_few hsolid.ne_nil (fun _ _ => rfl) _ htail
    intro run rest hsplit _ hrest
    exact tail_ends_nil hnum query query.combinator hsplit hrest _ _

omit hnum in
theorem object_first (query : Query) (before rest : JsString)
    (hrest : ∀ c ∈ rest.head?, c = blank) :
    Regex.First isWordChar (.many1 startsName) (before, query.object.text ++ rest)
      (query.object.text.reverse ++ before, rest) := by
  have hletters : query.object.text ≠ [] ∧ ∀ c ∈ query.object.text, startsName c = true := by
    cases query.object <;> decide
  apply Regex.first_many1 hletters.1 hletters.2
  intro c hc
  rw [hrest c hc]
  decide

omit hnum in
theorem whereText_led (query : Query) :
    Led ["WHERE", "ORDER", "LIMIT"]
      (query.whereText engine ++ (query.orderText ++ query.limitText)) := by
  unfold Query.whereText
  split
  · rcases orderText_led query with h | ⟨word, hword, h⟩
    · exact .inl h
    · exact .inr ⟨word, List.mem_cons_of_mem _ hword, h⟩
  · refine .inr ⟨"WHERE", List.mem_cons_self, clause engine query.combinator query.conditions ++
      (query.orderText ++ query.limitText), ?_⟩
    simp [keyed]

def Query.groups (engine : Engine) (query : Query) : List (Group × JsString) :=
  query.limitGroups ++ (query.orderGroups ++ (query.whereGroups engine ++
    [(.object, query.object.text), (.fields, query.selection.render)]))

theorem exec_render (query : Query)
    (horder : ∀ order, query.orderBy = some order → ∀ c ∈ order.1.val, isDigit c = false) :
    queryPattern.exec isWordChar (query.render engine) = some (query.groups engine) := by
  obtain ⟨hne, hunits⟩ := selection_units query.selection
  obtain ⟨spot, hwhere⟩ := where_finds hnum query horder
    (query.object.text.reverse ++ blank :: ((js "FROM").reverse ++ blank ::
      (query.selection.render.reverse ++ blank :: ((js "SELECT").reverse ++ []))))
    [(.object, query.object.text), (.fields, query.selection.render)]
  refine Pattern.exec_of_finds (e := (spot, query.groups engine)) ?_
  have select_word : IsWord isSpace (js "SELECT") := by decide
  have from_word : IsWord isSpace (js "FROM") := by decide
  have hstart : Regex.First isWordChar (.many isSpace)
      ([], [] ++ query.render engine) ([], query.render engine) :=
    Regex.first_many (List.forall_mem_nil _) (word_stopsAt select_word _)
  apply Pattern.Finds.seq_plain hstart
  unfold Query.render keyed
  apply Pattern.Finds.seq_plain (keyword_first "SELECT" _ _)
  apply Pattern.Finds.seq_plain (blank_first (word_stopsAt ⟨hne, hunits⟩ _))
  apply Pattern.Finds.seq_few hne (fun _ _ => rfl)
  · -- the selection has no space that FROM could stand behind
    intro run rest hsplit _ hrest
    obtain ⟨c, rest, rfl⟩ := List.exists_cons_of_ne_nil hrest
    apply Pattern.seq_plain_ends_nil
    apply spaces_nil
    rintro d ⟨⟩
    exact hunits c (by rw [hsplit]; simp)
  · apply Pattern.Finds.seq_plain (blank_first (word_stopsAt from_word _))
    apply Pattern.Finds.seq_plain (keyword_first "FROM" _ _)
    have hobject : IsWord isSpace query.object.text := by cases query.object <;> decide
    apply Pattern.Finds.seq_plain (blank_first (word_stopsAt hobject _))
    apply Pattern.Finds.seq_group (object_first query _ _ ?_) hwhere
    rcases @whereText_led engine query with h | ⟨word, -, rest, h⟩
    · rw [h]
      rintro c ⟨⟩
    · rw [h]
      rintro c ⟨⟩
      rfl

end

end McpGateway.Salesforce
