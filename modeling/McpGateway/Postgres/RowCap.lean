import McpGateway.Postgres.GuardLaws

/-!
# The row cap

The closing text of the wrapper carries the row cap. It stays outside every
comment unless removing a comment brought a comment opener together.
-/

namespace McpGateway.Postgres

open Js
open PgLex

/-- Every comment of the emitted text ends before its closing text, whose tokens
come last; and the stripped statement opens no comment. -/
structure CapApplies (g : GuardedStatement) : Prop where
  outside : ∀ rest, Reaches g.sql rest → opensComment rest = true →
    ∃ l r, lexeme rest = some (l, r) ∧ closing g.limit <:+ r
  last : ∀ ts, tokens g.sql = some ts → closingTokens g.limit <:+ ts
  noOpener : hasOpener (stripLiteralsAndComments g.original) = false

theorem hasOpener_plain (hw : ∀ c ∈ w, c ≠ hyphen ∧ c ≠ slash) :
    hasOpener (w ++ v) = hasOpener v := by
  induction w with
  | nil => rfl
  | cons c w ih =>
    obtain ⟨h1, h2⟩ := hw c (.head _)
    have hopen : opensComment (c :: (w ++ v)) = false := by
      rw [Bool.eq_false_iff, Ne, opensComment_cons]
      exact fun h => h.elim (fun h => h1 h.1) fun h => h2 h.1
    rw [List.cons_append, hasOpener, hopen, Bool.false_or]
    exact ih fun d hd => hw d (.tail _ hd)

theorem hasOpener_of_prefix (h : hasOpener w = true) : hasOpener (w ++ v) = true := by
  induction w with
  | nil => cases h
  | cons c w ih =>
    rcases Bool.or_eq_true_iff.mp h with h | h
    · cases w with
      | nil => cases h
      | cons d w => exact hasOpener_of_opens h
    · rw [List.cons_append, hasOpener, ih h, Bool.or_true]

theorem hasOpener_append (hv : ∀ c, v.head? = some c → c ≠ hyphen ∧ c ≠ asterisk) :
    hasOpener (w ++ v) = (hasOpener w || hasOpener v) := by
  induction w with
  | nil => rfl
  | cons c w ih =>
    have hopen : opensComment (c :: (w ++ v)) = opensComment (c :: w) := by
      cases w with
      | cons d w => rfl
      | nil =>
        cases v with
        | nil => rfl
        | cons d v =>
          obtain ⟨h1, h2⟩ := hv d rfl
          simp [opensComment, h1, h2]
    rw [List.cons_append, hasOpener, hasOpener, hopen, ih, Bool.or_assoc]

theorem hasOpener_closing (limit : Nat) : hasOpener (closing limit) = false := by
  have hdigit {d c : CodeUnit} (hd : isDigit d = false) (hc : isDigit c = true) : c ≠ d := by
    rintro rfl
    rw [hc] at hd
    cases hd
  rw [closing, hasOpener_plain (by decide), ← List.append_nil (decimal limit), hasOpener_plain]
  · rfl
  · exact fun c hc =>
      ⟨hdigit rfl (isDigit_of_mem_decimal hc), hdigit rfl (isDigit_of_mem_decimal hc)⟩

theorem hasOpener_emitted :
    hasOpener (opening ++ w ++ closing limit) = hasOpener w := by
  rw [List.append_assoc, opening, hasOpener_plain (by decide), hasOpener_append ?_,
    hasOpener_closing, Bool.or_false]
  intro c hc
  cases hc
  decide

theorem cap_applies_iff (h : guardStatement raw o = .ok g) :
    CapApplies g ↔ ¬Splices (trim raw) := by
  have ha := guard_ok h
  rw [← hasOpener_iff_splices, Bool.not_eq_true]
  constructor
  · intro hcap
    rw [← ha.original]
    exact hcap.noOpener
  · intro hno
    have hw : hasOpener (withoutTrailing (trim raw)) = false := by
      obtain ⟨v, hv⟩ := withoutTrailing_prefix (trim raw)
      rw [Bool.eq_false_iff] at hno ⊢
      exact fun h => hno (hv ▸ hasOpener_of_prefix h)
    have hsql : hasOpener g.sql = false := by rw [ha.sql, hasOpener_emitted, hw]
    refine ⟨fun rest hr ho => ?_, fun ts hts => ?_, by rw [ha.original, hno]⟩
    · have := hasOpener_of_suffix hr.suffix (hasOpener_of_opens ho)
      rw [hsql] at this
      cases this
    · rw [ha.sql, tokens_emitted _ (withoutTrailing_quoteFree _)] at hts
      obtain ⟨ls, hls, rfl⟩ := Option.map_eq_some_iff.mp hts
      have hlast : ls.getLast? ≠ some .lineComment := by
        intro hl
        rcases lex_no_comment hw hls _ (List.mem_of_getLast? hl) with h | ⟨t, h⟩ <;> cases h
      rw [if_neg hlast]
      exact List.suffix_append _ _

/-- A statement with a comment in it that brings nothing together. -/
theorem cap_applies_comment :
    CapApplies ⟨js "SELECT * FROM (SELECT 1 ) AS mcp_guarded_query LIMIT 5",
        js "SELECT 1 /* one */;", 5⟩ ↔
      ¬Splices (trim (js "SELECT 1 /* one */;")) :=
  cap_applies_iff (o := { maxRows := 5 }) rfl

/-- Two hyphens a removed comment kept apart comment out the closing text. -/
theorem cap_evaded :
    ¬∀ raw o g, guardStatement raw o = .ok g → CapApplies g := by
  intro h
  have hcap := h (js "SELECT 1 -/**/-") { maxRows := 5 }
    ⟨js "SELECT * FROM (SELECT 1 --) AS mcp_guarded_query LIMIT 5", js "SELECT 1 -/**/-", 5⟩ rfl
  exact absurd (hcap.last _ rfl) (by decide)

end McpGateway.Postgres
