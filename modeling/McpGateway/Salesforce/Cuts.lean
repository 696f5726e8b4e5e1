import McpGateway.Salesforce.QueryParts

/-!
# Cuts at a combinator

Where the parser cuts a clause: at the word of a combinator between two spaces,
wherever in the clause it stands. A clause whose conditions have no cut of their
own is cut into its conditions.
-/

namespace McpGateway.Salesforce

open Js Words

def CutAt (combinator : Combinator) (text : JsString) : Prop :=
  ∃ s w t, isSpace s = true ∧ isSpace t = true ∧ toLowerCase w = toLowerCase combinator.text ∧
    s :: (w ++ [t]) <:+: text

section
variable {combinator : Combinator} {x y w text before : JsString} {c : CodeUnit}

theorem combinator_letters (h : toLowerCase w = toLowerCase combinator.text) :
    ∀ c ∈ w, isLetter c = true := by
  have hletters : ∀ c ∈ js combinator.word, isLetter c = true := by cases combinator <;> decide
  exact keyword_letters hletters h

theorem combinator_word (h : toLowerCase w = toLowerCase combinator.text) : IsWord isSpace w := by
  have hletters : ∀ c ∈ js combinator.word, isLetter c = true := by cases combinator <;> decide
  exact keyword_isWord (by cases combinator <;> decide) hletters h

theorem CutAt.within (h : CutAt combinator x) (hxy : x <:+: y) : CutAt combinator y := by
  obtain ⟨s, w, t, hs, ht, hw, hseg⟩ := h
  exact ⟨s, w, t, hs, ht, hw, hseg.trans hxy⟩

theorem mem_ends_separator {e : Regex.Spot CodeUnit} :
    e ∈ (separator combinator.word).ends isWordChar (before, text) ↔
      ∃ run w run', run ≠ [] ∧ (∀ c ∈ run, isSpace c = true) ∧
        toLowerCase w = toLowerCase combinator.text ∧ run' ≠ [] ∧ (∀ c ∈ run', isSpace c = true) ∧
        text = run ++ (w ++ (run' ++ e.2)) ∧
        e.1 = run'.reverse ++ (w.reverse ++ (run.reverse ++ before)) := by
  constructor
  · intro h
    obtain ⟨m₁, hm₁, h⟩ := Regex.mem_ends_seq.mp h
    obtain ⟨m₂, hm₂, h⟩ := Regex.mem_ends_seq.mp h
    obtain ⟨run, hne, hrun, hafter, hbefore⟩ := mem_ends_spaces.mp hm₁
    obtain ⟨w, hw, hafter₂, hbefore₂⟩ := mem_ends_keyword.mp hm₂
    obtain ⟨run', hne', hrun', hafter₃, hbefore₃⟩ := mem_ends_spaces.mp h
    exact ⟨run, w, run', hne, hrun, hw, hne', hrun', by rw [hafter, hafter₂, hafter₃],
      by rw [hbefore₃, hbefore₂, hbefore]⟩
  · rintro ⟨run, w, run', hne, hrun, hw, hne', hrun', rfl, hbefore⟩
    refine Regex.mem_ends_seq.mpr ⟨_, mem_ends_spaces.mpr ⟨run, hne, hrun, rfl, rfl⟩,
      Regex.mem_ends_seq.mpr ⟨_, mem_ends_keyword.mpr ⟨w, hw, rfl, rfl⟩,
        mem_ends_spaces.mpr ⟨run', hne', hrun', rfl, hbefore⟩⟩⟩

theorem separator_consumes (s e : Regex.Spot CodeUnit)
    (h : e ∈ (separator combinator.word).ends isWordChar s) : e.2.length < s.2.length := by
  obtain ⟨run, w, run', hne, -, -, -, -, htext, -⟩ := mem_ends_separator.mp h
  have hpos : 0 < run.length := List.length_pos_of_ne_nil hne
  rw [htext, List.length_append, List.length_append, List.length_append]
  omega

theorem cutAt_of_run {run rest : JsString} {t : CodeUnit} (hne : run ≠ [])
    (hrun : ∀ c ∈ run, isSpace c = true) (hw : toLowerCase w = toLowerCase combinator.text)
    (ht : isSpace t = true) : CutAt combinator (run ++ (w ++ t :: rest)) := by
  refine ⟨run.getLast hne, w, t, hrun _ (List.getLast_mem hne), ht, hw, run.dropLast, rest, ?_⟩
  calc run.dropLast ++ run.getLast hne :: (w ++ [t]) ++ rest
      = (run.dropLast ++ [run.getLast hne]) ++ (w ++ t :: rest) := by simp
    _ = run ++ (w ++ t :: rest) := by rw [List.dropLast_append_getLast]

theorem cut_of_mem {e : Regex.Spot CodeUnit}
    (h : e ∈ (separator combinator.word).ends isWordChar (before, text)) :
    CutAt combinator text := by
  obtain ⟨run, w, run', hne, hrun, hw, hne', hrun', rfl, -⟩ := mem_ends_separator.mp h
  obtain ⟨t, run', rfl⟩ := List.exists_cons_of_ne_nil hne'
  exact cutAt_of_run hne hrun hw (hrun' t List.mem_cons_self)

theorem separator_test : (separator combinator.word).test isWordChar text = true ↔
    CutAt combinator text := by
  constructor
  · intro h
    obtain ⟨⟨start, stop⟩, hexec⟩ := Option.isSome_iff_exists.mp h
    obtain ⟨hspot, hstop⟩ := Regex.exec_some hexec
    exact (cut_of_mem hstop).within ⟨start.1.reverse, [], by rw [List.append_nil, hspot]⟩
  · rintro ⟨s, w, t, hs, ht, hw, a, b, rfl⟩
    have hends : (t :: (w.reverse ++ s :: a.reverse), b) ∈ (separator combinator.word).ends
        isWordChar (a.reverse, s :: (w ++ t :: b)) :=
      mem_ends_separator.mpr ⟨[s], w, [t], List.cons_ne_nil s [], List.forall_mem_singleton.mpr hs,
        hw, List.cons_ne_nil t [], List.forall_mem_singleton.mpr ht, rfl, rfl⟩
    exact Regex.test_of_ends hends (by simp)

theorem not_cut_of_mem_split {piece : JsString}
    (h : piece ∈ (separator combinator.word).split isWordChar text) :
    piece <:+: text ∧ ¬ CutAt combinator piece := by
  have hconsumes := @separator_consumes combinator
  obtain ⟨hsub, b, a, hunbroken⟩ := (Regex.splitFrom_pieces hconsumes 0).1 piece h
  refine ⟨hsub, ?_⟩
  rintro ⟨s, w, t, hs, ht, hw, front, back, rfl⟩
  have hends := hunbroken front (s :: (w ++ [t]) ++ back) (by simp) (by simp)
  have hmem : (t :: (w.reverse ++ s :: (front.reverse ++ b)), back ++ a) ∈
      (separator combinator.word).ends isWordChar
        (front.reverse ++ b, s :: (w ++ [t]) ++ back ++ a) :=
    mem_ends_separator.mpr ⟨[s], w, [t], List.cons_ne_nil s [], List.forall_mem_singleton.mpr hs,
      hw, List.cons_ne_nil t [], List.forall_mem_singleton.mpr ht, by simp, rfl⟩
  rw [hends] at hmem
  cases hmem

-- ---------------------------------------------------------------------------
-- Where a cut can be
-- ---------------------------------------------------------------------------

theorem infix_append_cons {seg : JsString} (hc : c ∉ seg) (h : seg <:+: x ++ c :: y) :
    seg <:+: x ∨ seg <:+: y := by
  obtain ⟨a, b, h⟩ := h
  rcases List.append_eq_append_iff.mp h with ⟨z, hx, -⟩ | ⟨z, hseg, hy⟩
  · exact .inl ⟨a, z, hx.symm⟩
  cases z with
  | nil =>
    rw [List.append_nil] at hseg
    exact .inl ⟨a, [], by rw [List.append_nil, hseg]⟩
  | cons d z =>
    obtain ⟨rfl, rfl⟩ := List.cons.inj hy
    rcases List.append_eq_append_iff.mp hseg with ⟨z', -, hz⟩ | ⟨z', -, hz⟩
    · exact absurd (hz ▸ List.mem_append_right z' List.mem_cons_self) hc
    · cases z' with
      | nil =>
        rw [List.nil_append] at hz
        exact absurd (hz ▸ List.mem_cons_self) hc
      | cons d z' =>
        obtain ⟨rfl, rfl⟩ := List.cons.inj hz
        exact .inr ⟨z', b, rfl⟩

theorem cut_append_blank (h : CutAt combinator (x ++ blank :: y)) :
    CutAt combinator (x ++ [blank]) ∨ CutAt combinator (blank :: y) := by
  obtain ⟨s, w, t, hs, ht, hw, a, b, h⟩ := h
  have hblank : blank ∉ w := fun hmem => by
    have hletter := combinator_letters hw blank hmem
    revert hletter
    decide
  suffices hside : s :: (w ++ [t]) <:+: x ++ [blank] ∨ s :: (w ++ [t]) <:+: blank :: y from
    hside.imp (fun hx => ⟨s, w, t, hs, ht, hw, hx⟩) fun hy => ⟨s, w, t, hs, ht, hw, hy⟩
  replace h := h.trans (List.append_cons x blank y)
  rcases List.append_eq_append_iff.mp h with ⟨z, hx, -⟩ | ⟨z, hseg, rfl⟩
  · exact .inl ⟨a, z, hx.symm⟩
  rw [List.append_assoc, List.singleton_append] at hseg
  rcases List.append_eq_append_iff.mp hseg with ⟨z', rfl, hz⟩ | ⟨z', -, hz⟩
  · cases z' with
    | nil => exact .inr ⟨[], b, by rw [hz]; rfl⟩
    | cons d z' =>
      obtain ⟨rfl, hwt⟩ := List.cons.inj hz
      rcases List.eq_nil_or_concat z with rfl | ⟨z, t', rfl⟩
      · exact .inl ⟨a, [], by rw [hwt]; simp⟩
      · have hends : w ++ [t] = (z' ++ blank :: z) ++ [t'] := by
          rw [hwt]
          simp
        have hw' : w = z' ++ blank :: z := (List.append_inj' hends rfl).1
        exact absurd (hw' ▸ List.mem_append_right z' List.mem_cons_self) hblank
  · exact .inr ⟨z', b, by rw [← hz]; rfl⟩

theorem not_mem_cut {s t : CodeUnit} (hspace : isSpace c = false) (hletter : isLetter c = false)
    (hs : isSpace s = true) (ht : isSpace t = true)
    (hw : toLowerCase w = toLowerCase combinator.text) : c ∉ s :: (w ++ [t]) := by
  simp only [List.mem_cons, List.mem_append, List.not_mem_nil, or_false, not_or]
  refine ⟨?_, fun hmem => ?_, ?_⟩
  · rintro rfl
    rw [hspace] at hs
    cases hs
  · rw [combinator_letters hw c hmem] at hletter
    cases hletter
  · rintro rfl
    rw [hspace] at ht
    cases ht

theorem cut_append_cons (hspace : isSpace c = false) (hletter : isLetter c = false)
    (h : CutAt combinator (x ++ c :: y)) : CutAt combinator x ∨ CutAt combinator y := by
  obtain ⟨s, w, t, hs, ht, hw, hseg⟩ := h
  have hc : c ∉ s :: (w ++ [t]) := not_mem_cut hspace hletter hs ht hw
  exact (infix_append_cons hc hseg).imp (fun hx => ⟨s, w, t, hs, ht, hw, hx⟩)
    fun hy => ⟨s, w, t, hs, ht, hw, hy⟩

theorem CutAt.two_spaces (h : CutAt combinator text) : 2 ≤ text.countP isSpace := by
  obtain ⟨s, w, t, hs, ht, hw, hseg⟩ := h
  have hle : (s :: (w ++ [t])).countP isSpace ≤ text.countP isSpace :=
    List.Sublist.countP_le hseg.sublist
  rw [List.countP_cons_of_pos hs, List.countP_append, List.countP_singleton, if_pos ht] at hle
  omega

theorem not_cut_nil : ¬ CutAt combinator [] := fun h => absurd h.two_spaces (by decide)

theorem not_cut_blank : ¬ CutAt combinator [blank] := fun h => absurd h.two_spaces (by decide)

theorem not_cut_word (h : ∀ c ∈ w, isSpace c = false) : ¬ CutAt combinator (w ++ [blank]) := by
  intro hcut
  have htwo := hcut.two_spaces
  rw [List.countP_append, List.countP_eq_zero.mpr fun c hc => by simp [h c hc],
    List.countP_singleton, if_pos isSpace_blank] at htwo
  omega

theorem cut_blank_word (hword : IsWord isSpace w)
    (h : CutAt combinator (blank :: (w ++ [blank]))) :
    toLowerCase w = toLowerCase combinator.text := by
  obtain ⟨s, v, t, hs, ht, hv, a, b, h⟩ := h
  have hwords := congrArg (words isSpace) h
  have hleft : words isSpace (a ++ s :: (v ++ [t]) ++ b) =
      words isSpace a ++ v :: words isSpace b := by
    rw [List.append_assoc, List.cons_append, List.append_assoc, List.singleton_append,
      words_append_cons a hs, words_word_sep (combinator_word hv) ht]
  have hright : words isSpace (blank :: (w ++ [blank])) = [w] := by
    rw [words_cons_sep isSpace_blank, words_word_sep hword isSpace_blank]
    rfl
  rw [hleft, hright] at hwords
  have hmem : v ∈ [w] := hwords ▸ List.mem_append_right _ List.mem_cons_self
  rw [← List.mem_singleton.mp hmem]
  exact hv

-- ---------------------------------------------------------------------------
-- Doubled quotes
-- ---------------------------------------------------------------------------

theorem double_cons (c : CodeUnit) (s : JsString) :
    double (c :: s) = (if c = singleQuote then [c, c] else [c]) ++ double s := List.flatMap_cons

theorem prefix_of_double {seg : JsString} (hseg : singleQuote ∉ seg) (h : seg <+: double text) :
    seg <+: text := by
  induction text generalizing seg with
  | nil => exact h
  | cons c text ih =>
    cases seg with
    | nil => exact List.nil_prefix
    | cons d seg =>
      rw [List.mem_cons, not_or] at hseg
      obtain ⟨hd, hseg⟩ := hseg
      rw [double_cons] at h
      split at h
      · next hc =>
        obtain ⟨rfl, -⟩ := List.cons_prefix_cons.mp h
        exact absurd hc.symm hd
      · obtain ⟨rfl, htail⟩ := List.cons_prefix_cons.mp h
        exact List.cons_prefix_cons.mpr ⟨rfl, ih hseg htail⟩

theorem infix_of_double {seg : JsString} (hseg : singleQuote ∉ seg) (h : seg <:+: double text) :
    seg <:+: text := by
  induction text with
  | nil => exact h
  | cons c text ih =>
    rw [double_cons] at h
    split at h
    · next hc =>
      subst hc
      rcases infix_append_cons (x := []) hseg h with h | h
      · exact h.trans List.nil_infix
      · rcases infix_append_cons (x := []) hseg h with h | h
        · exact h.trans List.nil_infix
        · exact List.infix_cons (ih h)
    · next hc =>
      rcases List.infix_cons_iff.mp h with h | h
      · have hprefix : seg <+: double (c :: text) := by
          rw [double_cons, if_neg hc]
          exact h
        exact (prefix_of_double hseg hprefix).isInfix
      · exact List.infix_cons (ih h)

theorem prefix_of_undouble {seg : JsString} (hseg : singleQuote ∉ seg)
    (h : seg <+: undouble text) : seg <+: text := by
  cases seg with
  | nil => exact List.nil_prefix
  | cons d seg =>
    induction text using undouble.induct generalizing d seg with
    | case1 s ih =>
      rw [undouble] at h
      obtain ⟨rfl, -⟩ := List.cons_prefix_cons.mp h
      exact absurd List.mem_cons_self hseg
    | case2 c s hne ih =>
      rw [undouble] at h
      · obtain ⟨rfl, htail⟩ := List.cons_prefix_cons.mp h
        refine List.cons_prefix_cons.mpr ⟨rfl, ?_⟩
        cases seg with
        | nil => exact List.nil_prefix
        | cons d seg => exact ih _ _ (fun hmem => hseg (List.mem_cons_of_mem _ hmem)) htail
      · exact hne
    | case3 => exact h

theorem infix_of_undouble {seg : JsString} (hseg : singleQuote ∉ seg)
    (h : seg <:+: undouble text) : seg <:+: text := by
  induction text using undouble.induct with
  | case1 s ih =>
    rw [undouble] at h
    rcases infix_append_cons (x := []) hseg h with h | h
    · exact h.trans List.nil_infix
    · exact List.infix_cons (List.infix_cons (ih h))
  | case2 c s hne ih =>
    have hcons : undouble (c :: s) = c :: undouble s := by
      rw [undouble]
      exact hne
    rcases List.infix_cons_iff.mp (hcons ▸ h) with h | h
    · exact (prefix_of_undouble hseg (hcons ▸ h)).isInfix
    · exact List.infix_cons (ih h)
  | case3 => exact h

theorem undouble_double (s : JsString) : undouble (double s) = s := by
  induction s with
  | nil => rfl
  | cons c s ih =>
    rw [double_cons]
    split
    · next hc =>
      subst hc
      show singleQuote :: undouble (double s) = singleQuote :: s
      rw [ih]
    · next hc =>
      have hcons : undouble (c :: double s) = c :: undouble (double s) := by
        rw [undouble]
        intro rest hquote
        exact absurd hquote hc
      rw [List.singleton_append, hcons, ih]

theorem cut_of_double (h : CutAt combinator (double text)) : CutAt combinator text := by
  obtain ⟨s, w, t, hs, ht, hw, hseg⟩ := h
  exact ⟨s, w, t, hs, ht, hw,
    infix_of_double (not_mem_cut (by decide) (by decide) hs ht hw) hseg⟩

end

-- ---------------------------------------------------------------------------
-- Cuts in a clause
-- ---------------------------------------------------------------------------

theorem operator_ne_combinator (operator : Operator) (combinator : Combinator) :
    toLowerCase operator.text ≠ toLowerCase combinator.text := by
  cases operator <;> cases combinator <;> decide

theorem combinator_of_text {combinator other : Combinator}
    (h : toLowerCase combinator.text = toLowerCase other.text) : combinator = other := by
  revert h
  cases combinator <;> cases other <;> decide

section
variable {engine : Engine} (hnum : NumberText engine.numberText) {combinator other : Combinator}
include hnum

theorem cut_literal {value : Literal} (h : CutAt combinator (value.render engine)) :
    ∃ s, value = .string s ∧ CutAt combinator s := by
  by_cases hstring : value.IsString
  · cases value with
    | string s =>
      refine ⟨s, rfl, ?_⟩
      rcases cut_append_cons (x := []) (by decide) (by decide) h with h | h
      · exact absurd h not_cut_nil
      · rcases cut_append_cons (by decide) (by decide) h with h | h
        · exact cut_of_double h
        · exact absurd h not_cut_nil
    | number n => exact hstring.elim
    | boolean b => exact hstring.elim
    | null => exact hstring.elim
  · have hnone : (value.render engine).countP isSpace = 0 := List.countP_eq_zero.mpr fun c hc => by
      simp [(plain_inert ((value.plain hnum hstring).2 c hc)).space]
    have htwo := h.two_spaces
    omega

theorem cut_blank_literal {value : Literal}
    (h : CutAt combinator (blank :: (value.render engine ++ [blank]))) :
    ∃ s, value = .string s ∧ CutAt combinator s := by
  by_cases hstring : value.IsString
  · cases value with
    | string s =>
      refine ⟨s, rfl, ?_⟩
      have htext : blank :: ((Literal.string s).render engine ++ [blank]) =
          [blank] ++ singleQuote :: (double s ++ singleQuote :: [blank]) := by
        simp [Literal.render]
      rw [htext] at h
      rcases cut_append_cons (by decide) (by decide) h with h | h
      · exact absurd h not_cut_blank
      · rcases cut_append_cons (by decide) (by decide) h with h | h
        · exact cut_of_double h
        · exact absurd h not_cut_blank
    | number n => exact hstring.elim
    | boolean b => exact hstring.elim
    | null => exact hstring.elim
  · obtain ⟨hne, hplain⟩ := value.plain hnum hstring
    have hsame := cut_blank_word (isWord_of_plain hne hplain) h
    have hmem : toLowerCase combinator.text ∈ reserved := by cases combinator <;> decide
    exact absurd (hsame ▸ hmem) (value.not_reserved hnum hstring)

theorem cut_intercalate {values : List Literal}
    (h : CutAt combinator (List.intercalate [comma] (values.map (Literal.render engine)))) :
    ∃ s, .string s ∈ values ∧ CutAt combinator s := by
  induction values with
  | nil => exact absurd h not_cut_nil
  | cons value values ih =>
    have hhead (hvalue : CutAt combinator (value.render engine)) :
        ∃ s, .string s ∈ value :: values ∧ CutAt combinator s := by
      obtain ⟨s, rfl, hs⟩ := cut_literal hnum hvalue
      exact ⟨s, List.mem_cons_self, hs⟩
    cases values with
    | nil =>
      rw [List.map_singleton, List.intercalate_singleton] at h
      exact hhead h
    | cons next values =>
      rw [List.map_cons, List.map_cons, List.intercalate_cons_cons, List.append_assoc,
        List.singleton_append] at h
      rcases cut_append_cons (by decide) (by decide) h with h | h
      · exact hhead h
      · obtain ⟨s, hmem, hs⟩ := ih h
        exact ⟨s, List.mem_cons_of_mem value hmem, hs⟩

theorem cut_blank_test {test : Test}
    (h : CutAt combinator (blank :: (test.render engine ++ [blank]))) :
    ∃ s, .string s ∈ test.literals ∧ CutAt combinator s := by
  cases test with
  | compare operator value scalar =>
    obtain ⟨s, rfl, hs⟩ := cut_blank_literal hnum h
    exact ⟨s, List.mem_cons_self, hs⟩
  | isIn values =>
    have htext : blank :: ((Test.isIn values).render engine ++ [blank]) = [blank] ++ leftParen ::
        (List.intercalate [comma] (values.map (Literal.render engine)) ++ rightParen :: [blank]) := by
      simp [Test.render]
    rw [htext] at h
    rcases cut_append_cons (by decide) (by decide) h with h | h
    · exact absurd h not_cut_blank
    · rcases cut_append_cons (by decide) (by decide) h with h | h
      · exact cut_intercalate hnum h
      · exact absurd h not_cut_blank

def StringCut (combinator : Combinator) (conditions : List Condition) : Prop :=
  ∃ condition ∈ conditions, ∃ s, .string s ∈ condition.test.literals ∧ CutAt combinator s

omit hnum in
theorem StringCut.cons {conditions : List Condition} (h : StringCut combinator conditions)
    (condition : Condition) : StringCut combinator (condition :: conditions) := by
  obtain ⟨next, hnext, hcut⟩ := h
  exact ⟨next, List.mem_cons_of_mem condition hnext, hcut⟩

theorem cut_after_field {condition : Condition} {conditions : List Condition}
    (h : CutAt combinator (blank :: (condition.test.operator.text ++
      blank :: (condition.test.render engine ++ [blank])))) :
    StringCut combinator (condition :: conditions) := by
  rcases cut_append_blank (x := blank :: condition.test.operator.text) h with h | h
  · exact absurd (cut_blank_word (Operator.isWord _) h) (operator_ne_combinator _ _)
  · obtain ⟨s, hmem, hs⟩ := cut_blank_test hnum h
    exact ⟨condition, List.mem_cons_self, s, hmem, hs⟩

theorem cut_condition {condition : Condition} {conditions : List Condition}
    (h : CutAt combinator (condition.render engine ++ [blank])) :
    StringCut combinator (condition :: conditions) := by
  have htext : condition.render engine ++ [blank] = condition.field.val ++ blank ::
      (condition.test.operator.text ++ blank :: (condition.test.render engine ++ [blank])) := by
    simp [Condition.render]
  rw [htext] at h
  rcases cut_append_blank h with h | h
  · exact absurd h (not_cut_word condition.field.isWord.2)
  · exact cut_after_field hnum h

def FieldCut (combinator : Combinator) (conditions : List Condition) : Prop :=
  ∃ condition ∈ conditions, toLowerCase condition.field.val = toLowerCase combinator.text

theorem cut_blank_condition {condition : Condition} {conditions : List Condition}
    (h : CutAt combinator (blank :: (condition.render engine ++ [blank]))) :
    StringCut combinator (condition :: conditions) ∨ FieldCut combinator (condition :: conditions) := by
  have htext : blank :: (condition.render engine ++ [blank]) = (blank :: condition.field.val) ++
      blank :: (condition.test.operator.text ++
        blank :: (condition.test.render engine ++ [blank])) := by
    simp [Condition.render]
  rw [htext] at h
  rcases cut_append_blank h with h | h
  · exact .inr ⟨condition, List.mem_cons_self, cut_blank_word condition.field.isWord h⟩
  · exact .inl (cut_after_field hnum h)

theorem cut_blank_clause {conditions : List Condition}
    (h : CutAt combinator (blank :: clause engine other conditions)) :
    StringCut combinator conditions ∨ FieldCut combinator conditions ∨ combinator = other := by
  induction conditions with
  | nil => exact absurd h not_cut_blank
  | cons condition conditions ih =>
    cases conditions with
    | nil =>
      have hwithin : blank :: condition.render engine <:+:
          blank :: (condition.render engine ++ [blank]) :=
        (List.prefix_append (blank :: condition.render engine) [blank]).isInfix
      exact (cut_blank_condition hnum (h.within hwithin)).imp_right .inl
    | cons next conditions =>
      have htext : blank :: clause engine other (condition :: next :: conditions) =
          (blank :: condition.render engine) ++ blank :: (other.text ++
            blank :: clause engine other (next :: conditions)) := rfl
      rw [htext] at h
      rcases cut_append_blank h with h | h
      · exact (cut_blank_condition hnum h).imp_right .inl
      rcases cut_append_blank (x := blank :: other.text) h with h | h
      · exact .inr (.inr (combinator_of_text (cut_blank_word (combinator_isWord other) h)).symm)
      · rcases ih h with h | ⟨field, hfield, hsame⟩ | h
        · exact .inl (h.cons condition)
        · exact .inr (.inl ⟨field, List.mem_cons_of_mem condition hfield, hsame⟩)
        · exact .inr (.inr h)

theorem cut_clause {conditions : List Condition}
    (h : CutAt combinator (clause engine other conditions)) :
    StringCut combinator conditions ∨
      2 ≤ conditions.length ∧ (FieldCut combinator conditions.tail ∨ combinator = other) := by
  cases conditions with
  | nil => exact absurd h not_cut_nil
  | cons condition conditions =>
    cases conditions with
    | nil =>
      have hwithin : condition.render engine <:+: condition.render engine ++ [blank] :=
        (List.prefix_append _ _).isInfix
      exact .inl (cut_condition hnum (h.within hwithin))
    | cons next conditions =>
      have htext : clause engine other (condition :: next :: conditions) =
          condition.render engine ++ blank :: (other.text ++
            blank :: clause engine other (next :: conditions)) := rfl
      rw [htext] at h
      have htwo : 2 ≤ (condition :: next :: conditions).length := Nat.le_add_left 2 _
      rcases cut_append_blank h with h | h
      · exact .inl (cut_condition hnum h)
      rcases cut_append_blank (x := blank :: other.text) h with h | h
      · exact .inr ⟨htwo,
          .inr (combinator_of_text (cut_blank_word (combinator_isWord other) h)).symm⟩
      · rcases cut_blank_clause hnum h with h | h | h
        · exact .inl (h.cons condition)
        · exact .inr ⟨htwo, .inl h⟩
        · exact .inr ⟨htwo, .inr h⟩

omit hnum in
theorem cut_at_word {a b v : JsString} (hv : toLowerCase v = toLowerCase combinator.text)
    {text : JsString} (htext : text = a ++ blank :: (v ++ blank :: b)) : CutAt combinator text :=
  ⟨blank, v, blank, isSpace_blank, isSpace_blank, hv, a, b, by rw [htext]; simp⟩

omit hnum in
theorem clause_cut {conditions : List Condition} (h : 2 ≤ conditions.length) :
    CutAt combinator (clause engine combinator conditions) := by
  match conditions, h with
  | condition :: next :: conditions, _ => exact cut_at_word rfl rfl

omit hnum in
theorem field_between_blanks {conditions : List Condition} {condition : Condition}
    (h : condition ∈ conditions) : ∃ a b, blank :: clause engine other conditions =
      a ++ blank :: (condition.field.val ++ blank :: b) := by
  induction conditions with
  | nil => cases h
  | cons first conditions ih =>
    rcases List.mem_cons.mp h with rfl | h
    · exact ⟨[], _, by rw [clause_cons]; rfl⟩
    · obtain ⟨a, b, hclause⟩ := ih h
      cases conditions with
      | nil => cases h
      | cons next conditions =>
        refine ⟨blank :: (first.render engine ++ blank :: (other.text ++ a)), b, ?_⟩
        have htext : blank :: clause engine other (first :: next :: conditions) =
            blank :: (first.render engine ++ blank :: (other.text ++
              blank :: clause engine other (next :: conditions))) := rfl
        rw [htext, hclause]
        simp

omit hnum in
theorem clause_field_cut {conditions : List Condition} (h : FieldCut combinator conditions.tail) :
    CutAt combinator (clause engine other conditions) := by
  obtain ⟨condition, hmem, hfield⟩ := h
  match conditions, hmem with
  | first :: next :: conditions, hmem =>
    obtain ⟨a, b, hclause⟩ := @field_between_blanks engine other _ _ hmem
    refine cut_at_word (a := first.render engine ++ blank :: (other.text ++ a)) (b := b) hfield ?_
    have htext : clause engine other (first :: next :: conditions) = first.render engine ++
        blank :: (other.text ++ blank :: clause engine other (next :: conditions)) := rfl
    rw [List.tail_cons] at hclause
    rw [htext, hclause]
    simp

-- ---------------------------------------------------------------------------
-- The parts of a clause
-- ---------------------------------------------------------------------------

omit hnum in
theorem separator_ends_nil {v z before : JsString} (hv : ∃ front c, v = front ++ [c] ∧
      isSpace c = false) (hcut : ¬ CutAt combinator (v ++ [blank])) :
    (separator combinator.word).ends isWordChar (before, v ++ blank :: z) = [] := by
  rw [List.eq_nil_iff_forall_not_mem]
  intro e he
  obtain ⟨run, w, run', hne, hrun, hw, hne', hrun', htext, -⟩ := mem_ends_separator.mp he
  obtain ⟨t, run', rfl⟩ := List.exists_cons_of_ne_nil hne'
  have ht : isSpace t = true := hrun' t List.mem_cons_self
  rw [← List.append_assoc] at htext
  rcases List.append_eq_append_iff.mp htext with ⟨u, hu, hz⟩ | ⟨u, rfl, hz⟩
  · cases u with
    | nil =>
      rw [List.append_nil] at hu
      apply hcut
      rw [← hu, List.append_assoc]
      exact cutAt_of_run hne hrun hw isSpace_blank
    | cons d u =>
      obtain ⟨rfl, -⟩ := List.cons.inj hz
      -- the blank is in the word, or the text before it is all spaces
      have hblank : blank ∉ w := fun hmem => by
        have hletter := combinator_letters hw blank hmem
        revert hletter
        decide
      rcases List.append_eq_append_iff.mp hu with ⟨u', -, hw'⟩ | ⟨u', hrun'', -⟩
      · exact absurd (hw' ▸ List.mem_append_right u' List.mem_cons_self) hblank
      · obtain ⟨front, c, rfl, hc⟩ := hv
        have hspace := hrun c (by rw [hrun'']; simp)
        rw [hspace] at hc
        cases hc
  · apply hcut
    cases u with
    | nil =>
      rw [List.append_nil, List.append_assoc]
      exact cutAt_of_run hne hrun hw isSpace_blank
    | cons d u =>
      obtain ⟨rfl, -⟩ := List.cons.inj hz
      rw [List.append_assoc, List.append_assoc, List.cons_append]
      exact cutAt_of_run hne hrun hw ht

omit hnum in
theorem separator_first (combinator : Combinator) (before : JsString) {rest : JsString}
    (h : Regex.StopsAt isSpace rest) : Regex.First isWordChar (separator combinator.word)
      (before, (blank :: (combinator.text ++ [blank])) ++ rest)
      ((blank :: (combinator.text ++ [blank])).reverse ++ before, rest) := by
  have hfirst : Regex.First isWordChar (separator combinator.word)
      (before, blank :: (js combinator.word ++ blank :: rest))
      (blank :: ((js combinator.word).reverse ++ blank :: before), rest) :=
    .seq (blank_first (word_stopsAt (combinator_isWord combinator) _))
      (.seq (keyword_first combinator.word _ _) (blank_first h))
  unfold Combinator.text
  simpa using hfirst

theorem split_clause {conditions : List Condition} (hne : conditions ≠ [])
    (h : ¬ StringCut combinator conditions) :
    (separator combinator.word).split isWordChar (clause engine combinator conditions) =
      conditions.map (Condition.render engine) := by
  have hwhole (condition : Condition) (rest : List Condition)
      (hstring : ¬ StringCut combinator (condition :: rest)) (front back : JsString)
      (hsplit : condition.render engine = front ++ back) :
      ¬ CutAt combinator (back ++ [blank]) := fun hcut =>
    hstring (cut_condition hnum (hcut.within ⟨front, [], by rw [hsplit]; simp⟩))
  suffices hfrom : ∀ before, Regex.splitFrom isWordChar (separator combinator.word) 0 before
      (clause engine combinator conditions) = conditions.map (Condition.render engine) from hfrom []
  intro before
  induction conditions generalizing before with
  | nil => exact absurd rfl hne
  | cons condition conditions ih =>
    cases conditions with
    | nil =>
      refine Regex.splitFrom_unbroken fun run rest hsplit _ => ?_
      rw [List.append_nil, List.eq_nil_iff_forall_not_mem]
      intro e he
      exact hwhole condition [] h run rest hsplit
        ((cut_of_mem he).within (List.prefix_append rest [blank]).isInfix)
    | cons next conditions =>
      have htext : clause engine combinator (condition :: next :: conditions) =
          condition.render engine ++ ((blank :: (combinator.text ++ [blank])) ++
            clause engine combinator (next :: conditions)) := by
        show condition.render engine ++ keyed combinator.text
          (clause engine combinator (next :: conditions)) = _
        simp [keyed]
      have hstops := (clause_solid hnum combinator (List.cons_ne_nil next conditions)).stopsAt []
      rw [List.append_nil] at hstops
      rw [htext, Regex.splitFrom_cut (List.cons_ne_nil _ _) _ (separator_first _ _ hstops),
        ih (List.cons_ne_nil _ _) fun hcut => h (hcut.cons condition)]
      · rfl
      · intro run rest hsplit hrest
        rw [List.cons_append]
        refine separator_ends_nil ?_ (hwhole condition _ h run rest hsplit)
        obtain ⟨front, c, hlast, hc, -⟩ := (condition.solid hnum).last
        have hmem := congrArg List.getLast? (hsplit.symm.trans hlast)
        rw [List.getLast?_append_of_ne_nil _ hrest, List.getLast?_concat] at hmem
        obtain ⟨front', rfl⟩ := List.getLast?_eq_some_iff.mp hmem
        exact ⟨front', c, rfl, hc⟩

end

end McpGateway.Salesforce
