import McpGateway.Js.JsonParse

/-!
# What `JSON.stringify` prints, `JSON.parse` reads

A value whose numbers are read back from their texts and whose objects have one
property for each key is the value its text is parsed to. The text has no
control character.
-/

namespace McpGateway.Js.Json

open Codec

def ReadsNumber (numberText : ℚ → JsString) (q : ℚ) : Prop :=
  ∀ rest, Outside isNumberUnit rest →
    numberLiteral (numberText q ++ rest) = some (.finite q, rest)

/-- The values a text is read back to. -/
def Readable (numberText : ℚ → JsString) : Json → Prop
  | .number n => ∃ q, n = .finite q ∧ ReadsNumber numberText q
  | .array items => ReadableAll numberText items
  | .object props => (props.map Prod.fst).Nodup ∧ ReadableProps numberText props
  | _ => True
where
  ReadableAll (numberText : ℚ → JsString) : List Json → Prop
    | [] => True
    | v :: vs => Readable numberText v ∧ ReadableAll numberText vs
  ReadableProps (numberText : ℚ → JsString) : List (JsString × Json) → Prop
    | [] => True
    | p :: ps => Readable numberText p.2 ∧ ReadableProps numberText ps

def Reads (numberText : ℚ → JsString) (v : Json) : Prop :=
  ∀ fuel rest, (stringify numberText v).length ≤ fuel → Outside isNumberUnit rest →
    parseFuel fuel (stringify numberText v ++ rest) = some (v, rest)

section
variable {numberText : ℚ → JsString}

theorem setProp_new {key : JsString} {v : Json} {props : List (JsString × Json)}
    (h : key ∉ props.map Prod.fst) : setProp key v props = props ++ [(key, v)] := by
  induction props with
  | nil => rfl
  | cons p props ih =>
    rw [List.map_cons, List.mem_cons, not_or] at h
    unfold setProp
    rw [if_neg (Ne.symm h.1), ih h.2]
    rfl

theorem outside_comma (x : JsString) : Outside isNumberUnit (comma :: x) :=
  outside_cons.mpr (by decide)

theorem outside_bracket (x : JsString) : Outside isNumberUnit (rightBracket :: x) :=
  outside_cons.mpr (by decide)

theorem outside_brace (x : JsString) : Outside isNumberUnit (rightBrace :: x) :=
  outside_cons.mpr (by decide)

theorem elements_separated {v : Json} {vs : List Json} (h : ∀ w ∈ v :: vs, Reads numberText w)
    (fuel : Nat) (rest : JsString)
    (hfuel : (separated comma rightBracket (stringify numberText) (v :: vs)).length ≤ fuel) :
    parseFuel.elements fuel (separated comma rightBracket (stringify numberText) (v :: vs) ++ rest) =
      some (v :: vs, rest) := by
  obtain ⟨hv, hvs⟩ := List.forall_mem_cons.mp h
  induction vs generalizing v fuel with
  | nil =>
    simp only [separated, remainder, List.length_append, List.length_cons, List.append_assoc,
      List.cons_append, List.nil_append] at hfuel ⊢
    obtain ⟨fuel, rfl⟩ := Nat.exists_eq_add_of_le' (Nat.le_of_add_left_le hfuel)
    exact elements_last (hv _ _ (by omega) (outside_bracket rest))
  | cons w vs ih =>
    simp only [separated, remainder, List.length_append, List.length_cons, List.append_assoc,
      List.cons_append] at hfuel ih ⊢
    obtain ⟨fuel, rfl⟩ := Nat.exists_eq_add_of_le' (show 1 ≤ fuel by omega)
    rw [elements_more (hv fuel _ (by omega) (outside_comma _))]
    have hrest := ih hvs fuel (by omega) (hvs w List.mem_cons_self)
      (List.forall_mem_cons.mp hvs).2
    rw [hrest]
    rfl

theorem members_separated {p : JsString × Json} {ps : List (JsString × Json)}
    (h : ∀ q ∈ p :: ps, Reads numberText q.2) (fuel : Nat) (rest : JsString)
    (before : List (JsString × Json)) (hnew : ((before ++ p :: ps).map Prod.fst).Nodup)
    (hfuel : (separated comma rightBrace (propText numberText) (p :: ps)).length ≤ fuel) :
    parseFuel.members fuel before
        (separated comma rightBrace (propText numberText) (p :: ps) ++ rest) =
      some (before ++ p :: ps, rest) := by
  obtain ⟨key, v⟩ := p
  obtain ⟨hv, hps⟩ := List.forall_mem_cons.mp h
  replace hv : Reads numberText v := hv
  have hkey : key ∉ before.map Prod.fst := by
    rw [List.map_append, List.nodup_append] at hnew
    exact fun hmem => hnew.2.2 key hmem key List.mem_cons_self rfl
  induction ps generalizing key v before fuel with
  | nil =>
    simp only [separated, remainder, propText, List.length_append, List.length_cons,
      List.append_assoc, List.cons_append, List.nil_append] at hfuel ⊢
    obtain ⟨fuel, rfl⟩ := Nat.exists_eq_add_of_le' (show 1 ≤ fuel by omega)
    rw [members_last before (hv fuel _ (by omega) (outside_brace rest)), setProp_new hkey]
  | cons q ps ih =>
    obtain ⟨key', w⟩ := q
    simp only [separated, remainder, propText, List.length_append, List.length_cons,
      List.append_assoc, List.cons_append, List.nil_append] at hfuel ih ⊢
    obtain ⟨fuel, rfl⟩ := Nat.exists_eq_add_of_le' (show 1 ≤ fuel by omega)
    rw [members_more before (hv fuel _ (by omega) (outside_comma _)), setProp_new hkey]
    have hnew' : (((before ++ [(key, v)]) ++ (key', w) :: ps).map Prod.fst).Nodup := by
      simpa using hnew
    have hkey' : key' ∉ (before ++ [(key, v)]).map Prod.fst := by
      rw [List.map_append, List.nodup_append] at hnew'
      exact fun hmem => hnew'.2.2 key' hmem key' List.mem_cons_self rfl
    have hrest := ih fuel (before ++ [(key, v)]) key' w hps hnew' (by omega)
      (List.forall_mem_cons.mp hps).2 (hps _ List.mem_cons_self) hkey'
    rw [hrest]
    simp

theorem stringify_first (hnum : NumberText numberText) (hv : Readable numberText v) :
    ∃ c s, stringify numberText v = c :: s ∧ isJsonSpace c = false ∧ c ≠ rightBracket := by
  cases v with
  | null => exact ⟨_, _, rfl, by decide, by decide⟩
  | boolean b => cases b <;> exact ⟨_, _, rfl, by decide, by decide⟩
  | number n =>
    obtain ⟨q, rfl, -⟩ := hv
    obtain ⟨c, s, htext⟩ := List.exists_cons_of_ne_nil (hnum.nonempty q)
    have hc := hnum.units q c (by simp [htext])
    exact ⟨c, s, htext, isJsonSpace_number hc, ne_of_isNumberUnit hc _ (by decide)⟩
  | string s => exact ⟨_, _, rfl, by decide, by decide⟩
  | array items => exact ⟨_, _, rfl, by decide, by decide⟩
  | object props => exact ⟨_, _, rfl, by decide, by decide⟩

theorem reads_array (hnum : NumberText numberText) {vs : List Json}
    (hreadable : Readable.ReadableAll numberText vs) (h : ∀ v ∈ vs, Reads numberText v) :
    Reads numberText (.array vs) := by
  intro fuel rest hfuel _
  rw [stringify_array] at hfuel ⊢
  simp only [List.length_cons] at hfuel
  obtain ⟨fuel, rfl⟩ := Nat.exists_eq_add_of_le' (show 1 ≤ fuel by omega)
  rw [List.cons_append, parseFuel.eq_def]
  simp only [skipSpace_of_not (show isJsonSpace leftBracket = false by decide)]
  rw [if_neg (by decide), if_pos trivial]
  cases vs with
  | nil => rfl
  | cons v vs =>
    have hlist := elements_separated h fuel rest (by omega)
    obtain ⟨c, s, htext, hspace, hne⟩ := stringify_first hnum hreadable.1
    have hopen : separated comma rightBracket (stringify numberText) (v :: vs) ++ rest =
        c :: (s ++ remainder comma rightBracket (stringify numberText) vs ++ rest) := by
      simp [separated, htext]
    rw [hopen] at hlist ⊢
    rw [skipSpace_of_not hspace]
    split
    · next heq => exact absurd (List.cons.inj heq).1 hne
    · rw [hlist]
      rfl

theorem reads_object {ps : List (JsString × Json)} (honce : (ps.map Prod.fst).Nodup)
    (h : ∀ p ∈ ps, Reads numberText p.2) : Reads numberText (.object ps) := by
  intro fuel rest hfuel _
  rw [stringify_object] at hfuel ⊢
  simp only [List.length_cons] at hfuel
  obtain ⟨fuel, rfl⟩ := Nat.exists_eq_add_of_le' (show 1 ≤ fuel by omega)
  rw [List.cons_append, parseFuel.eq_def]
  simp only [skipSpace_of_not (show isJsonSpace leftBrace = false by decide)]
  rw [if_neg (by decide), if_neg (by decide), if_pos trivial]
  cases ps with
  | nil => rfl
  | cons p ps =>
    have hlist := members_separated h fuel rest [] honce (by omega)
    have hopen : separated comma rightBrace (propText numberText) (p :: ps) ++ rest =
        doubleQuote :: (encodeUnits p.1 ++ doubleQuote :: colon :: stringify numberText p.2 ++
          remainder comma rightBrace (propText numberText) ps ++ rest) := by
      simp [separated, propText, quote]
    rw [hopen] at hlist ⊢
    rw [skipSpace_of_not (by decide)]
    exact (congrArg (Option.map _) hlist).trans rfl

mutual

theorem readable_reads (hnum : NumberText numberText) : ∀ v, Readable numberText v →
    Reads numberText v
  | .null, _ => fun
    | _ + 1, _, _, _ => rfl
  | .boolean true, _ => fun
    | _ + 1, _, _, _ => rfl
  | .boolean false, _ => fun
    | _ + 1, _, _, _ => rfl
  | .number n, hv => by
    intro fuel rest hfuel hrest
    obtain ⟨q, rfl, hread⟩ := hv
    obtain ⟨c, s, htext⟩ := List.exists_cons_of_ne_nil (hnum.nonempty q)
    have hc := hnum.units q c (by simp [htext])
    have hliteral := hread rest hrest
    have hstringify : stringify numberText (.number (.finite q)) = numberText q := rfl
    rw [hstringify, htext] at hfuel ⊢
    rw [htext] at hliteral
    obtain ⟨fuel, rfl⟩ := Nat.exists_eq_add_of_le' (show 1 ≤ fuel from Nat.le_of_add_left_le hfuel)
    rw [List.cons_append] at hliteral ⊢
    rw [parseFuel_number hc, hliteral]
    rfl
  | .string s, _ => by
    intro fuel rest hfuel _
    obtain ⟨fuel, rfl⟩ := Nat.exists_eq_add_of_le' (show 1 ≤ fuel from Nat.le_of_add_left_le hfuel)
    exact parseFuel_quote fuel s rest
  | .array vs, hv => reads_array hnum hv (readableAll_reads hnum vs hv)
  | .object ps, hv => reads_object hv.1 (readableProps_reads hnum ps hv.2)

theorem readableAll_reads (hnum : NumberText numberText) :
    ∀ vs : List Json, Readable.ReadableAll numberText vs → ∀ v ∈ vs, Reads numberText v
  | [], _ => by simp
  | v :: vs, h => by
    rw [List.forall_mem_cons]
    exact ⟨readable_reads hnum v h.1, readableAll_reads hnum vs h.2⟩

theorem readableProps_reads (hnum : NumberText numberText) :
    ∀ ps : List (JsString × Json), Readable.ReadableProps numberText ps →
      ∀ p ∈ ps, Reads numberText p.2
  | [], _ => by simp
  | (_, v) :: ps, h => by
    rw [List.forall_mem_cons]
    exact ⟨readable_reads hnum v h.1, readableProps_reads hnum ps h.2⟩

end

theorem parse_stringify (hnum : NumberText numberText) (hv : Readable numberText v) :
    parse (stringify numberText v) = some v := by
  have hread := readable_reads hnum v hv ((stringify numberText v).length + 1) []
    (Nat.le_succ _) (outside_nil _)
  rw [List.append_nil] at hread
  unfold parse
  rw [hread]
  rfl

end

-- ---------------------------------------------------------------------------
-- No control character
-- ---------------------------------------------------------------------------

def Printable (s : JsString) : Prop := ∀ c ∈ s, 0x20 ≤ c

theorem Printable.append {s t : JsString} (hs : Printable s) (ht : Printable t) :
    Printable (s ++ t) :=
  fun c hc => (List.mem_append.mp hc).elim (hs c) (ht c)

theorem Printable.cons {c : CodeUnit} {s : JsString} (hc : 0x20 ≤ c) (hs : Printable s) :
    Printable (c :: s) :=
  List.forall_mem_cons.mpr ⟨hc, hs⟩

theorem hexDigit_printable : ∀ n < 16, 0x20 ≤ hexDigit n := by
  decide

theorem encodeUnit_printable (c : CodeUnit) : Printable (encodeUnit c) := by
  unfold encodeUnit
  cases hfind : shortEscapes.find? (·.2 == c) with
  | some e =>
    have hshort : ∀ e ∈ shortEscapes, Printable [backslash, e.1] := by
      unfold Printable
      decide
    exact hshort e (List.mem_of_find?_eq_some hfind)
  | none =>
    dsimp only
    split
    · have hc := c.toNat_lt
      refine .cons (by decide) (.cons (by decide) ?_)
      have hdigit : ∀ n, n < 16 → Printable [hexDigit n] := fun n hn =>
        .cons (hexDigit_printable n hn) (by simp [Printable])
      exact ((hdigit _ (by omega)).append ((hdigit _ (by omega)).append
        ((hdigit _ (by omega)).append (hdigit _ (by omega)))))
    · next h =>
      rw [not_or, UInt16.not_lt] at h
      exact .cons h.1 (by simp [Printable])

theorem encodeUnits_printable (s : JsString) : Printable (encodeUnits s) := by
  fun_induction encodeUnits s with
  | case1 => simp [Printable]
  | case2 c => exact encodeUnit_printable c
  | case3 c d s h ih =>
    obtain ⟨hc, hd⟩ := Bool.and_eq_true_iff.mp h
    have hc := surrogate_ge (c := c) (by simp [hc])
    have hd := surrogate_ge (c := d) (by simp [hd])
    refine .cons ?_ (.cons ?_ ih)
    · exact UInt16.le_iff_toNat_le.mpr (Nat.le_trans (by decide) hc)
    · exact UInt16.le_iff_toNat_le.mpr (Nat.le_trans (by decide) hd)
  | case4 c d s h ih => exact (encodeUnit_printable c).append ih

theorem quote_printable (s : JsString) : Printable (quote s) :=
  ((encodeUnits_printable s).append (.cons (by decide) (by simp [Printable]))).cons (by decide)

theorem literals_printable : ∀ s ∈ [js "null", js "true", js "false"], Printable s := by
  unfold Printable
  decide

theorem joinComma_printable {ss : List JsString} (h : ∀ s ∈ ss, Printable s) :
    Printable (joinComma ss) := by
  fun_induction joinComma ss with
  | case1 => simp [Printable]
  | case2 s => exact h s List.mem_cons_self
  | case3 s ss _ ih =>
    obtain ⟨hs, hss⟩ := List.forall_mem_cons.mp h
    exact hs.append ((ih hss).cons (by decide))

section
variable {numberText : ℚ → JsString}

theorem encodeNumber_printable (hnum : NumberText numberText) (n : JsNumber) :
    Printable (encodeNumber numberText n) := by
  unfold encodeNumber
  split
  · intro c hc
    have hunit := hnum.units _ c hc
    unfold isNumberUnit isDigit at hunit
    simp only [Bool.or_eq_true, Bool.and_eq_true, beq_iff_eq, decide_eq_true_eq] at hunit
    rcases hunit with (((hdigit | rfl) | rfl) | rfl) | rfl
    · exact UInt16.le_trans (by decide) hdigit.1
    all_goals decide
  · exact literals_printable _ (by simp)

mutual

theorem stringify_printable (hnum : NumberText numberText) :
    ∀ v, Printable (stringify numberText v)
  | .null => literals_printable _ (by simp [stringify])
  | .boolean true => literals_printable _ (by simp [stringify])
  | .boolean false => literals_printable _ (by simp [stringify])
  | .number n => encodeNumber_printable hnum n
  | .string s => quote_printable s
  | .array vs => by
    have hvs := joinComma_printable (stringifyAll_printable hnum vs)
    exact (hvs.append (.cons (by decide) (by simp [Printable]))).cons (by decide)
  | .object ps => by
    have hps := joinComma_printable (stringifyProps_printable hnum ps)
    exact (hps.append (.cons (by decide) (by simp [Printable]))).cons (by decide)

theorem stringifyAll_printable (hnum : NumberText numberText) :
    ∀ vs : List Json, ∀ s ∈ stringify.stringifyAll numberText vs, Printable s
  | [] => by simp [stringify.stringifyAll]
  | v :: vs => by
    rw [stringify.stringifyAll, List.forall_mem_cons]
    exact ⟨stringify_printable hnum v, stringifyAll_printable hnum vs⟩

theorem stringifyProps_printable (hnum : NumberText numberText) :
    ∀ ps : List (JsString × Json), ∀ s ∈ stringify.stringifyProps numberText ps, Printable s
  | [] => by simp [stringify.stringifyProps]
  | (key, v) :: ps => by
    rw [stringify.stringifyProps, List.forall_mem_cons]
    refine ⟨?_, stringifyProps_printable hnum ps⟩
    exact (quote_printable key).append ((stringify_printable hnum v).cons (by decide))

end

end

end McpGateway.Js.Json
