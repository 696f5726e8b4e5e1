import McpGateway.Postgres.GuardLaws
import McpGateway.Lib.PgLexNames

/-!
# Catalog names

The identifier pattern asks for letters and underscores after `pg_` and for a
word boundary after those. A name of PostgreSQL goes on with digits, dollar
signs and letters beyond ASCII as well, and need not go on at all.
-/

namespace McpGateway.Postgres

open Js
open PgLex

def CatalogName (name : JsString) : Prop := js "pg_" <+: name ∨ name = js "information_schema"

/-- No name the scanner comes to is a catalog name; a quoted one is not folded. -/
structure CatalogFree (sql : JsString) : Prop where
  unquoted : ∀ name, Occurs (.ident name) sql → ¬ CatalogName name
  quoted : ∀ name, Occurs (.quotedIdent name) sql → ¬ CatalogName name

/-- `[a-z_]` with the `i` flag. -/
def isPatternUnit (c : CodeUnit) : Bool := isLetter c || c == underscore

/-- A name whose `pg_` is followed by no letter or underscore, or by some with a digit right after
them. -/
def evadesPattern (name : JsString) : Bool :=
  (js "pg_").isPrefixOf name &&
    (((name.drop 3).takeWhile isPatternUnit).isEmpty ||
      ((name.drop 3).dropWhile isPatternUnit).head?.any isDigit)

/-- A name of that kind stands in the text. -/
def NamesEvade (scanned : JsString) : Prop :=
  ∃ name, Occurs (.ident name) scanned ∧ evadesPattern name = true

-- ---------------------------------------------------------------------------
-- Folding
-- ---------------------------------------------------------------------------

theorem isUpper_bounds {c : CodeUnit} (h : isUpper c = true) : 0x41 ≤ c.toNat ∧ c.toNat ≤ 0x5A := by
  simpa [isUpper, UInt16.le_iff_toNat_le] using h

theorem toNat_lower {c : CodeUnit} (h : isUpper c = true) : (c + 0x20).toNat = c.toNat + 0x20 := by
  have hbounds := isUpper_bounds h
  rw [UInt16.toNat_add]
  exact Nat.mod_eq_of_lt (by simp; omega)

theorem isPatternUnit_lower (c : CodeUnit) : isPatternUnit (lower c) = isPatternUnit c := by
  unfold lower
  split
  · next hupper =>
    have hlower : isLower (c + 0x20) = true := by
      have hbounds := isUpper_bounds hupper
      simp only [isLower, UInt16.le_iff_toNat_le, Bool.and_eq_true, decide_eq_true_eq,
        toNat_lower hupper, UInt16.reduceToNat]
      omega
    simp [isPatternUnit, isLetter, hupper, hlower]
  · rfl

theorem isDigit_lower (c : CodeUnit) : isDigit (lower c) = isDigit c := by
  unfold lower
  split
  · next hupper =>
    have hbounds := isUpper_bounds hupper
    have hleft : isDigit (c + 0x20) = false := by
      simp only [isDigit, UInt16.le_iff_toNat_le, Bool.and_eq_false_iff, decide_eq_false_iff_not,
        toNat_lower hupper, UInt16.reduceToNat]
      omega
    have hright : isDigit c = false := by
      simp only [isDigit, UInt16.le_iff_toNat_le, Bool.and_eq_false_iff, decide_eq_false_iff_not,
        UInt16.reduceToNat]
      omega
    rw [hleft, hright]
  · rfl

theorem takeWhile_lower (s : JsString) :
    (s.map lower).takeWhile isPatternUnit = (s.takeWhile isPatternUnit).map lower := by
  rw [List.takeWhile_map, show isPatternUnit ∘ lower = isPatternUnit from funext isPatternUnit_lower]

theorem dropWhile_lower (s : JsString) :
    (s.map lower).dropWhile isPatternUnit = (s.dropWhile isPatternUnit).map lower := by
  rw [List.dropWhile_map, show isPatternUnit ∘ lower = isPatternUnit from funext isPatternUnit_lower]

theorem isWordChar_pattern {c : CodeUnit} (h : isPatternUnit c = true) : isWordChar c = true := by
  simp only [isPatternUnit, Bool.or_eq_true] at h
  rcases h with h | h <;> simp [isWordChar, h]

-- ---------------------------------------------------------------------------
-- What the pattern finds
-- ---------------------------------------------------------------------------

section
variable {pre y r : JsString}

theorem patternRun_after {q : JsString} (hr : r.head?.any isWordChar = false)
    (hdigit : (q.dropWhile isPatternUnit).head?.any isDigit = false) :
    (q.dropWhile isPatternUnit ++ r).head?.any isWordChar = false := by
  cases hrest : q.dropWhile isPatternUnit with
  | nil => exact hr
  | cons c rest =>
    have hstop := List.head_dropWhile_not isPatternUnit (l := q) (by rw [hrest]; simp)
    simp only [hrest, List.head_cons, List.head?_cons, Option.any_some] at hstop hdigit
    simp only [isPatternUnit, Bool.or_eq_false_iff] at hstop
    simp [isWordChar, hstop, hdigit]

theorem pgName_found (hpre : pre.reverse.head?.any isWordChar = false)
    (hr : r.head?.any isWordChar = false) (hname : js "pg_" <+: y.map lower)
    (hevades : evadesPattern (y.map lower) = false) :
    forbiddenIdentifier.exec isWordChar (pre ++ (y ++ r)) ≠ none := by
  obtain ⟨m, hm⟩ := hname
  obtain ⟨p, q, rfl, hp, rfl⟩ := List.map_eq_append_iff.mp hm.symm
  have hprefix : (js "pg_").isPrefixOf (js "pg_" ++ q.map lower) = true :=
    List.isPrefixOf_iff_prefix.mpr (List.prefix_append ..)
  have hdrop : (js "pg_" ++ q.map lower).drop 3 = q.map lower := List.drop_left' rfl
  rw [← hm] at hevades
  simp only [evadesPattern, hprefix, hdrop, takeWhile_lower, dropWhile_lower, Bool.true_and,
    Bool.or_eq_false_iff, List.isEmpty_eq_false_iff, ne_eq, List.map_eq_nil_iff, List.head?_map,
    Option.any_map, isDigit_lower] at hevades
  obtain ⟨hne, hdigit⟩ := hevades
  have hrun : ∀ c ∈ q.takeWhile isPatternUnit, isPatternUnit c = true :=
    fun c hc => List.mem_takeWhile_imp hc
  have htext : p ++ q ++ r =
      p ++ (q.takeWhile isPatternUnit ++ (q.dropWhile isPatternUnit ++ r)) := by
    rw [← List.append_assoc (q.takeWhile _), List.takeWhile_append_dropWhile, List.append_assoc]
  have hfirst : (p.reverse ++ pre.reverse,
      q.takeWhile isPatternUnit ++ (q.dropWhile isPatternUnit ++ r)) ∈
      (word "pg_").ends isWordChar (pre.reverse,
        p ++ (q.takeWhile isPatternUnit ++ (q.dropWhile isPatternUnit ++ r))) :=
    Regex.literal_ends (sameLetter_of_fold (by decide) hp)
  have hpne : p ≠ [] := by
    rintro rfl
    cases hp
  rw [htext]
  exact wholeWord_found
    (Regex.mem_ends_anyOf List.mem_cons_self
      (Regex.mem_ends_seq.mpr ⟨_, hfirst, Regex.many1_ends hne hrun⟩))
    (boundary_before hpre hpne (folded_words hp (by decide)))
    (boundary_after (patternRun_after hr hdigit) hne fun c hc => isWordChar_pattern (hrun c hc))

theorem schemaName_found (hpre : pre.reverse.head?.any isWordChar = false)
    (hr : r.head?.any isWordChar = false) (hname : y.map lower = js "information_schema") :
    forbiddenIdentifier.exec isWordChar (pre ++ (y ++ r)) ≠ none := by
  have hwords := folded_words hname (by decide)
  have hne : y ≠ [] := by
    rintro rfl
    cases hname
  have hends : (y.reverse ++ pre.reverse, r) ∈
      (word "information_schema").ends isWordChar (pre.reverse, y ++ r) :=
    Regex.literal_ends (sameLetter_of_fold (by decide) hname)
  exact wholeWord_found (Regex.mem_ends_anyOf (List.mem_cons_of_mem _ List.mem_cons_self) hends)
    (boundary_before hpre hne hwords) (boundary_after hr hne hwords)

theorem catalogName_found {w name : JsString} (hw : QuoteFree w) (hoccurs : Occurs (.ident name) w)
    (hname : CatalogName name) (hevades : evadesPattern name = false) :
    forbiddenIdentifier.exec isWordChar w ≠ none := by
  obtain ⟨s, r, hs, hl⟩ := hoccurs
  obtain ⟨hhead, rfl, rfl⟩ := lexeme_unquoted (hw.suffix hs.suffix) hl
  obtain ⟨pre, rfl, hpre⟩ := name_before hw hs hhead
  rw [← List.takeWhile_append_dropWhile (p := isIdentCont) (l := s)]
  obtain hname | hname := hname
  · exact pgName_found hpre (name_after s) hname hevades
  · exact schemaName_found hpre (name_after s) hname

end

-- ---------------------------------------------------------------------------
-- The emitted statement
-- ---------------------------------------------------------------------------

theorem wrapper_names {name : JsString} {limit : Nat}
    (h : Token.ident name ∈ openingTokens ∨ Token.ident name ∈ closingTokens limit) :
    ¬ CatalogName name := by
  have hname : name ∈ [js "select", js "from", js "as", js "mcp_guarded_query", js "limit"] := by
    simpa [openingTokens, closingTokens, or_assoc] using h
  have hall : ∀ n ∈ [js "select", js "from", js "as", js "mcp_guarded_query", js "limit"],
      ¬ (js "pg_" <+: n) ∧ n ≠ js "information_schema" := by decide
  rintro (h | h)
  · exact (hall name hname).1 h
  · exact (hall name hname).2 h

theorem catalogName_of_evades {name : JsString} (h : evadesPattern name = true) :
    CatalogName name := by
  simp only [evadesPattern, Bool.and_eq_true] at h
  exact .inl (List.isPrefixOf_iff_prefix.mp h.1)

/-- What an accepted statement sends names no catalog relation exactly when no name in it evades
the pattern. -/
theorem catalog_free_iff (h : guardStatement raw o = .ok g) :
    CatalogFree g.sql ↔ ¬ NamesEvade (withoutTrailing (trim raw)) := by
  have ha := guard_ok h
  have hw := withoutTrailing_quoteFree (trim raw)
  have hquotes := emitted_quoteFree h
  rw [ha.sql] at hquotes ⊢
  constructor
  · rintro hfree ⟨name, hoccurs, hevades⟩
    exact hfree.unquoted name ((occurs_emitted g.limit hw).1 hoccurs)
      (catalogName_of_evades hevades)
  · intro hnone
    refine ⟨fun name hoccurs hname => ?_, fun name hoccurs _ => ?_⟩
    · rcases (occurs_emitted g.limit hw).2 hoccurs with hopening | hoccurs | hclosing
      · exact @wrapper_names _ g.limit (.inl hopening) hname
      · have hevades : evadesPattern name = false :=
          Bool.eq_false_of_not_eq_true fun hevades => hnone ⟨name, hoccurs, hevades⟩
        exact catalogName_found hw hoccurs hname hevades ha.identifier
      · exact wrapper_names (.inr hclosing) hname
    · obtain ⟨s, r, hs, hl⟩ := hoccurs
      exact lexeme_unquoted (hquotes.suffix hs.suffix) hl

/-- A statement that reads a table with an underscore in its name. -/
theorem catalog_free_plain :
    CatalogFree (js "SELECT * FROM (SELECT a FROM my_pg) AS mcp_guarded_query LIMIT 5") ↔
      ¬ NamesEvade (withoutTrailing (trim (js "SELECT a FROM my_pg"))) :=
  catalog_free_iff (o := { maxRows := 5 }) (g := ⟨_, js "SELECT a FROM my_pg", 5⟩) rfl

/-- The schema of a session's temporary tables has a digit in its name. -/
theorem catalog_reached :
    ¬ ∀ raw o g, guardStatement raw o = .ok g → CatalogFree g.sql := by
  intro h
  have hfree := h (js "SELECT a FROM pg_temp_3.b") { maxRows := 5 } ⟨_, _, 5⟩ rfl
  exact hfree.unquoted (js "pg_temp_3") ((mem_tokens rfl).mp (by decide)) (.inl (by decide))

end McpGateway.Postgres
