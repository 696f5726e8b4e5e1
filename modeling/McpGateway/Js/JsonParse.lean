import McpGateway.Js.JsonLaws

/-!
# Parsing what was printed

`JSON.parse` on the texts `JSON.stringify` prints for strings, lists of strings
and objects of them. A number that ends an object is read in some way or the
text is refused: nothing that follows the number's own digits is a property.
-/

namespace McpGateway.Js.Json

@[simp] theorem skipSpace_of_not {c : CodeUnit} (h : isJsonSpace c = false) (s : JsString) :
    skipSpace (c :: s) = c :: s := by
  simp [skipSpace, h]

-- ---------------------------------------------------------------------------
-- Strings
-- ---------------------------------------------------------------------------

theorem parseFuel_quote (fuel : Nat) (s x : JsString) :
    parseFuel (fuel + 1) (quote s ++ x) = some (.string s, x) := by
  have hbody := stringBody_encodeUnits s x
  rw [parseFuel.eq_def]
  simp [quote, hbody, show isJsonSpace doubleQuote = false by decide]

theorem elements_more {fuel : Nat} {text t : JsString} {v : Json}
    (h : parseFuel fuel text = some (v, comma :: t)) :
    parseFuel.elements (fuel + 1) text =
      (parseFuel.elements fuel t).map fun vs => (v :: vs.1, vs.2) := by
  rw [parseFuel.elements.eq_def]
  simp only [h, Option.bind_eq_bind, Option.bind_some,
    skipSpace_of_not (show isJsonSpace comma = false by decide)]
  change ((parseFuel.elements fuel t).bind fun vs => some (v :: vs.1, vs.2)) = _
  cases parseFuel.elements fuel t <;> rfl

theorem elements_last {fuel : Nat} {text t : JsString} {v : Json}
    (h : parseFuel fuel text = some (v, rightBracket :: t)) :
    parseFuel.elements (fuel + 1) text = some ([v], t) := by
  rw [parseFuel.elements.eq_def]
  simp only [h, Option.bind_eq_bind, Option.bind_some,
    skipSpace_of_not (show isJsonSpace rightBracket = false by decide)]
  rfl

theorem elements_quotes (x : JsString) : ∀ (ss : List JsString) (fuel : Nat), ss ≠ [] →
    ss.length < fuel →
    parseFuel.elements fuel (joinComma (ss.map quote) ++ rightBracket :: x) =
      some (ss.map .string, x)
  | [], _, h, _ => absurd rfl h
  | [s], _ + 2, _, _ => elements_last (parseFuel_quote _ s _)
  | s :: t :: ss, fuel + 2, _, hfuel => by
    have ih := elements_quotes x (t :: ss) (fuel + 1) (List.cons_ne_nil _ _) (by simpa using hfuel)
    have hmore := elements_more (parseFuel_quote fuel s
      (comma :: (joinComma ((t :: ss).map quote) ++ rightBracket :: x)))
    rw [ih] at hmore
    simpa [joinComma] using hmore

theorem parseFuel_quotes {fuel : Nat} (ss : List JsString) (x : JsString)
    (hfuel : ss.length < fuel) :
    parseFuel (fuel + 1) (leftBracket :: joinComma (ss.map quote) ++ rightBracket :: x) =
      some (.array (ss.map .string), x) := by
  rw [parseFuel.eq_def]
  simp only [List.cons_append, skipSpace_of_not (show isJsonSpace leftBracket = false by decide),
    show (leftBracket = doubleQuote) = False by decide, if_false, if_true]
  cases ss with
  | nil =>
    simp only [List.map_nil, joinComma, List.nil_append,
      skipSpace_of_not (show isJsonSpace rightBracket = false by decide)]
    rfl
  | cons s ss =>
    have helements := elements_quotes x (s :: ss) fuel (List.cons_ne_nil _ _) hfuel
    have hquote : ∃ t, joinComma ((s :: ss).map quote) ++ rightBracket :: x = doubleQuote :: t := by
      cases ss <;> exact ⟨_, rfl⟩
    obtain ⟨t, ht⟩ := hquote
    rw [ht] at helements ⊢
    simp only [skipSpace_of_not (show isJsonSpace doubleQuote = false by decide)]
    change (parseFuel.elements fuel (doubleQuote :: t)).map _ = _
    rw [helements]
    rfl

-- ---------------------------------------------------------------------------
-- Members
-- ---------------------------------------------------------------------------

theorem members_read (fuel : Nat) (key s : JsString) (props : List (JsString × Json)) :
    parseFuel.members (fuel + 1) props (quote key ++ colon :: s) =
      (parseFuel fuel s).bind fun v => match skipSpace v.2 with
        | comma :: t => parseFuel.members fuel (setProp key v.1 props) t
        | rightBrace :: t => some (setProp key v.1 props, t)
        | _ => none := by
  have hbody := stringBody_encodeUnits key (colon :: s)
  have hkey : skipSpace (quote key ++ colon :: s) =
      doubleQuote :: (encodeUnits key ++ doubleQuote :: colon :: s) := by
    simp [quote, show isJsonSpace doubleQuote = false by decide]
  rw [parseFuel.members.eq_def]
  simp only [hkey]
  refine (show _ = (stringBody (encodeUnits key ++ doubleQuote :: colon :: s)).bind _ from rfl).trans ?_
  rw [hbody]
  rfl

theorem members_more {fuel : Nat} {key s t : JsString} {v : Json} (props : List (JsString × Json))
    (h : parseFuel fuel s = some (v, comma :: t)) :
    parseFuel.members (fuel + 1) props (quote key ++ colon :: s) =
      parseFuel.members fuel (setProp key v props) t := by
  rw [members_read, h, Option.bind_some, skipSpace_of_not (by decide)]
  rfl

-- ---------------------------------------------------------------------------
-- A number at the end
-- ---------------------------------------------------------------------------

def Leaves (text rest : JsString) : Prop := ∃ p, text = p ++ rest ∧ rightBrace ∉ p

theorem Leaves.refl (s : JsString) : Leaves s s := ⟨[], rfl, List.not_mem_nil⟩

theorem Leaves.trans {s t r : JsString} (hst : Leaves s t) (htr : Leaves t r) : Leaves s r := by
  obtain ⟨p, rfl, hp⟩ := hst
  obtain ⟨q, rfl, hq⟩ := htr
  exact ⟨p ++ q, (List.append_assoc p q r).symm, by simp [hp, hq]⟩

theorem Leaves.cons {c : CodeUnit} {s r : JsString} (hc : c ≠ rightBrace) (h : Leaves s r) :
    Leaves (c :: s) r := by
  obtain ⟨p, rfl, hp⟩ := h
  exact ⟨c :: p, rfl, by simp [hp, hc.symm]⟩

theorem digits_leaves {s r : JsString} (h : digits s = some (ds, r)) : Leaves s r := by
  unfold digits at h
  split at h
  · cases h
  · cases h
    refine ⟨_, (List.takeWhile_append_dropWhile).symm, fun hmem => ?_⟩
    exact absurd (List.mem_takeWhile_imp hmem) (by decide)

theorem wholePart_leaves {s r : JsString} (h : wholePart s = some (ds, r)) : Leaves s r := by
  unfold wholePart at h
  split at h
  · split at h
    · next hc =>
      cases h
      exact .cons (by rw [hc]; decide) (.refl _)
    · exact digits_leaves h
  · cases h

theorem fractionPart_leaves {s r : JsString} (h : fractionPart s = some (ds, r)) : Leaves s r := by
  unfold fractionPart at h
  split at h
  · split at h
    · next hc => exact .cons (by rw [hc]; decide) (digits_leaves h)
    · cases h
      exact .refl _
  · cases h
    exact .refl _

theorem exponentPart_leaves {s r : JsString} (h : exponentPart s = some (n, r)) : Leaves s r := by
  unfold exponentPart at h
  split at h
  · next c s =>
    split at h
    · next hc =>
      have hletter : c ≠ rightBrace := by
        rcases hc with rfl | rfl <;> decide
      split at h
      · next d t =>
        split at h
        · next hd =>
          obtain ⟨x, hx, hr⟩ := Option.map_eq_some_iff.mp h
          cases hr
          exact .cons hletter (.cons (by rw [hd]; decide) (digits_leaves hx))
        · split at h
          · next hd =>
            obtain ⟨x, hx, hr⟩ := Option.map_eq_some_iff.mp h
            cases hr
            exact .cons hletter (.cons (by rw [hd]; decide) (digits_leaves hx))
          · obtain ⟨x, hx, hr⟩ := Option.map_eq_some_iff.mp h
            cases hr
            exact .cons hletter (digits_leaves hx)
      · cases h
    · cases h
      exact .refl _
  · cases h
    exact .refl _

theorem magnitude_leaves {s r : JsString} (h : magnitude s = some (m, r)) : Leaves s r := by
  unfold magnitude at h
  simp only [Option.bind_eq_bind, Option.bind_eq_some_iff] at h
  obtain ⟨⟨ds, s₁⟩, hwhole, ⟨fs, s₂⟩, hfraction, ⟨e, s₃⟩, hexponent, h⟩ := h
  cases h
  exact (wholePart_leaves hwhole).trans
    ((fractionPart_leaves hfraction).trans (exponentPart_leaves hexponent))

theorem numberLiteral_leaves {s r : JsString} (h : numberLiteral s = some (n, r)) : Leaves s r := by
  unfold numberLiteral at h
  split at h
  · split at h
    · next hc =>
      obtain ⟨m, hm, hr⟩ := Option.map_eq_some_iff.mp h
      cases hr
      exact .cons (by rw [hc]; decide) (magnitude_leaves hm)
    · obtain ⟨m, hm, hr⟩ := Option.map_eq_some_iff.mp h
      cases hr
      exact magnitude_leaves hm
  · cases h

/-- What is left of a number's text and the brace after it starts with a unit of the number
or is the brace. -/
theorem leaves_brace {s r : JsString} (h : Leaves (s ++ [rightBrace]) r) :
    r = [rightBrace] ∨ ∃ c t, r = c :: t ∧ c ∈ s := by
  obtain ⟨p, hp, hbrace⟩ := h
  obtain ⟨t, hs, hr⟩ | ⟨t, hs, hr⟩ := List.append_eq_append_iff.mp hp
  · cases t with
    | nil => exact .inl (by simpa using hr.symm)
    | cons c t =>
      have hmem : rightBrace ∈ c :: t := by
        obtain ⟨hc, -⟩ := List.cons.inj hr
        exact hc ▸ List.mem_cons_self
      exact absurd (hs ▸ List.mem_append_right s hmem) hbrace
  · cases t with
    | nil => exact .inl hr
    | cons c t => exact .inr ⟨c, t ++ [rightBrace], hr, by simp [hs]⟩

theorem members_last {fuel : Nat} {key s t : JsString} {v : Json} (props : List (JsString × Json))
    (h : parseFuel fuel s = some (v, rightBrace :: t)) :
    parseFuel.members (fuel + 1) props (quote key ++ colon :: s) =
      some (setProp key v props, t) := by
  rw [members_read, h, Option.bind_some, skipSpace_of_not (by decide)]
  rfl

section
variable {numberText : ℚ → JsString}

theorem ne_of_isNumberUnit {c : CodeUnit} (hc : isNumberUnit c = true) (d : CodeUnit)
    (hd : isNumberUnit d = false) : c ≠ d := by
  rintro rfl
  exact absurd hc (by simp [hd])

theorem isJsonSpace_number {c : CodeUnit} (hc : isNumberUnit c = true) : isJsonSpace c = false := by
  simp [isJsonSpace, ne_of_isNumberUnit hc blank (by decide), ne_of_isNumberUnit hc 0x09 (by decide),
    ne_of_isNumberUnit hc lineFeed (by decide), ne_of_isNumberUnit hc carriageReturn (by decide)]

theorem not_isPrefixOf {c d : CodeUnit} {w : JsString} (hw : w.head? = some d) (h : c ≠ d)
    (s : JsString) : ¬ w.isPrefixOf (c :: s) = true := by
  obtain ⟨t, rfl⟩ := List.head?_eq_some_iff.mp hw
  simp [List.isPrefixOf, h.symm]

theorem parseFuel_number {c : CodeUnit} (hc : isNumberUnit c = true) (fuel : Nat) (s : JsString) :
    parseFuel (fuel + 1) (c :: s) =
      (numberLiteral (c :: s)).map fun n => (.number n.1, n.2) := by
  have hne := ne_of_isNumberUnit hc
  rw [parseFuel.eq_def]
  simp only [skipSpace_of_not (isJsonSpace_number hc)]
  rw [if_neg (hne doubleQuote (by decide)), if_neg (hne leftBracket (by decide)),
    if_neg (hne leftBrace (by decide)), if_neg (not_isPrefixOf rfl (hne (unit 't') (by decide)) s),
    if_neg (not_isPrefixOf rfl (hne (unit 'f') (by decide)) s),
    if_neg (not_isPrefixOf rfl (hne (unit 'n') (by decide)) s)]

/-- A number that ends an object is its last property, if the text is read at all. -/
theorem members_number (hnum : NumberText numberText) (fuel : Nat) (key : JsString) (n : JsNumber)
    (props : List (JsString × Json)) :
    let read := parseFuel.members (fuel + 2) props
      (quote key ++ colon :: (encodeNumber numberText n ++ [rightBrace]))
    read = none ∨ ∃ v, read = some (setProp key v props, []) := by
  intro read
  have hread : read = _ := members_read (fuel + 1) key _ props
  rw [hread]
  unfold encodeNumber
  cases n.isFinite with
  | false => exact .inr ⟨.null, rfl⟩
  | true =>
    rw [if_pos rfl]
    obtain ⟨c, t, htext⟩ := List.exists_cons_of_ne_nil (hnum.nonempty n.value)
    have hunits := hnum.units n.value
    rw [htext] at hunits ⊢
    rw [List.cons_append, parseFuel_number (hunits c List.mem_cons_self)]
    cases hliteral : numberLiteral (c :: (t ++ [rightBrace])) with
    | none => exact .inl rfl
    | some m =>
      obtain ⟨m, r⟩ := m
      have hleaves : Leaves ((c :: t) ++ [rightBrace]) r := numberLiteral_leaves hliteral
      obtain rfl | ⟨d, u, rfl, hd⟩ := leaves_brace hleaves
      · exact .inr ⟨.number m, rfl⟩
      · left
        have hunit := hunits d hd
        simp only [Option.map_some, Option.bind_some, skipSpace_of_not (isJsonSpace_number hunit)]
        split
        · next heq => exact absurd (List.cons.inj heq).1 (ne_of_isNumberUnit hunit comma (by decide))
        · next heq =>
          exact absurd (List.cons.inj heq).1 (ne_of_isNumberUnit hunit rightBrace (by decide))
        · rfl

end

-- ---------------------------------------------------------------------------
-- Whole texts
-- ---------------------------------------------------------------------------

theorem parse_object (key s : JsString) :
    parse (leftBrace :: (quote key ++ s)) =
      (parseFuel.members (quote key ++ s).length.succ [] (quote key ++ s)).bind fun b =>
        if skipSpace b.2 = [] then some (.object b.1) else none := by
  have hbrace := skipSpace_of_not (show isJsonSpace leftBrace = false by decide) (quote key ++ s)
  have hquote : skipSpace (quote key ++ s) = quote key ++ s :=
    skipSpace_of_not (show isJsonSpace doubleQuote = false by decide) _
  have hread : parseFuel ((leftBrace :: (quote key ++ s)).length + 1) (leftBrace :: (quote key ++ s)) =
      (parseFuel.members (quote key ++ s).length.succ [] (quote key ++ s)).map fun b =>
        (.object b.1, b.2) := by
    rw [parseFuel.eq_def]
    simp only [hbrace, hquote]
    rfl
  unfold parse
  rw [hread]
  cases parseFuel.members (quote key ++ s).length.succ [] (quote key ++ s) <;> rfl

theorem length_joinComma_quotes (ss : List JsString) :
    ss.length ≤ (joinComma (ss.map quote)).length := by
  induction ss with
  | nil => exact Nat.le_refl _
  | cons s ss ih =>
    cases ss with
    | nil => simp [joinComma, quote]
    | cons t ss =>
      simp only [List.map_cons, joinComma, List.length_append, List.length_cons] at ih ⊢
      omega

end McpGateway.Js.Json
