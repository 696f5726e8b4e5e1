import McpGateway.Lib.PgLexCompose

/-!
# White space and comments

Text that holds no token, and what it changes next to text that does: after a
text without comments white space changes nothing, and two texts with the same
tokens are alike after a text that is read alike before both.
-/

namespace PgLex

open McpGateway.Js

inductive Blanks : JsString → JsString → Prop
  | none : Blanks s s
  | next : lexeme s = some (l, r) → l.token? = none → Blanks r r' → Blanks s r'

/-- An error that the scanner finds in `z` is not mended by `u`. -/
def Refused (z u : JsString) : Prop := lex z = none → lex (z ++ u) = none

theorem Blanks.tokens (h : Blanks s r) : PgLex.tokens s = PgLex.tokens r := by
  induction h with
  | none => rfl
  | next hl ht _ ih =>
    rw [tokens_step hl, ht, ih]
    cases PgLex.tokens _ <;> rfl

theorem tokens_append {z u : JsString} (h : lex (z ++ u) = (lex u).map (ls ++ ·)) :
    tokens (z ++ u) = (tokens u).map (ls.filterMap Lexeme.token? ++ ·) := by
  rw [tokens, tokens, h]
  cases lex u <;> simp

-- ---------------------------------------------------------------------------
-- White space
-- ---------------------------------------------------------------------------

theorem tokens_blank_append (h : ∀ c ∈ w, isPgSpace c = true) : tokens (w ++ s) = tokens s := by
  induction w with
  | nil => rfl
  | cons c w ih =>
    have hl : lexeme (c :: (w ++ s)) = some (.space, w ++ s) := by
      simp [lexeme, start, h c (.head _)]
    rw [List.cons_append, tokens_step hl, ih fun d hd => h d (.tail _ hd)]
    cases tokens s <;> rfl

theorem tokens_blank (h : ∀ c ∈ w, isPgSpace c = true) : tokens w = some [] := by
  rw [← List.append_nil w, tokens_blank_append h]
  rfl

theorem blank_facts (h : isPgSpace c = true) :
    (isJoint c || isOpChar c) = false ∧ isQuote c = false ∧ c ≠ dollar ∧ c ≠ asterisk := by
  have hmem : c ∈ ([0x09, 0x0A, 0x0B, 0x0C, 0x0D, blank] : JsString) := by
    rcases Bool.or_eq_true_iff.mp h with h | h
    · simp only [Bool.and_eq_true, decide_eq_true_eq, UInt16.le_iff_toNat_le] at h
      simp only [List.mem_cons, ← UInt16.toNat_inj]
      simp at h ⊢
      omega
    · simp [beq_iff_eq.mp h]
  exact (by decide : ∀ d ∈ ([0x09, 0x0A, 0x0B, 0x0C, 0x0D, blank] : JsString),
    (isJoint d || isOpChar d) = false ∧ isQuote d = false ∧ d ≠ dollar ∧ d ≠ asterisk) c hmem

theorem stops_blank (h : ∀ c ∈ w, isPgSpace c = true) : Stops w where
  head c hc := (blank_facts (h c (List.mem_of_head? hc))).1
  quotes c hc := (blank_facts (h c hc)).2.1
  dollars hd := (blank_facts (h _ hd)).2.2.1 rfl
  stars hd := (blank_facts (h _ hd)).2.2.2 rfl

-- ---------------------------------------------------------------------------
-- Text without comments
-- ---------------------------------------------------------------------------

def CommentFree (s : JsString) : Prop :=
  ∀ ls, lex s = some ls → ∀ l ∈ ls, l = .space ∨ ∃ t, l = .token t

theorem CommentFree.getLast (h : CommentFree s) (hl : lex s = some ls) :
    ls.getLast? ≠ some .lineComment := by
  intro hlast
  rcases h ls hl _ (List.mem_of_getLast? hlast) with h | ⟨t, h⟩ <;> cases h

theorem commentFree_blank_append (hw : ∀ c ∈ w, isPgSpace c = true) (h : CommentFree s) :
    CommentFree (w ++ s) := by
  induction w with
  | nil => exact h
  | cons c w ih =>
    have hl : lexeme (c :: (w ++ s)) = some (.space, w ++ s) := by
      simp [lexeme, start, hw c (.head _)]
    intro ls hls
    rw [List.cons_append, lex_step hl] at hls
    obtain ⟨ls', hls', rfl⟩ := Option.map_eq_some_iff.mp hls
    exact List.forall_mem_cons.mpr ⟨.inl rfl, ih (fun d hd => hw d (.tail _ hd)) ls' hls'⟩

theorem commentFree_append {z u : JsString} (hz : CommentFree z) (hu : CommentFree u)
    (h : ∀ ls, lex z = some ls → lex (z ++ u) = (lex u).map (ls ++ ·)) (herr : Refused z u) :
    CommentFree (z ++ u) := by
  intro ls hls
  cases hl : lex z with
  | none =>
    rw [herr hl] at hls
    cases hls
  | some ls' =>
    rw [h ls' hl] at hls
    obtain ⟨ls'', hls'', rfl⟩ := Option.map_eq_some_iff.mp hls
    exact List.forall_mem_append.mpr ⟨hz ls' hl, hu ls'' hls''⟩

section
variable {z w : JsString} (hz : QuoteFree z) (hno : hasOpener z = false)
  (hw : ∀ c ∈ w, isPgSpace c = true)
include hz hno hw

theorem lex_append_blank :
    lex (z ++ w) = (lex z).bind fun ls => (lex w).map (ls ++ ·) := by
  rw [lex_append_stop hz (stops_blank hw)]
  cases hl : lex z with
  | none => rfl
  | some ls =>
    have hcom : CommentFree z := fun _ => lex_no_comment hno
    rw [Option.bind_some, Option.bind_some, resume, if_neg (hcom.getLast hl)]

theorem tokens_append_blank : tokens (z ++ w) = tokens z := by
  have happend := lex_append_blank hz hno hw
  cases hl : lex z with
  | none =>
    rw [hl] at happend
    rw [tokens, tokens, happend, hl]
    rfl
  | some ls =>
    rw [hl] at happend
    rw [tokens_append happend, tokens_blank hw, tokens, hl]
    simp

end

-- ---------------------------------------------------------------------------
-- Text before a comment
-- ---------------------------------------------------------------------------

theorem noOpenerIn_nil (h : hasOpener z = false) : NoOpenerIn z [] := by
  intro y hy _
  rw [List.append_nil, Bool.eq_false_iff]
  rw [Bool.eq_false_iff] at h
  exact fun ho => h (hasOpener_of_suffix hy (hasOpener_of_opens ho))

theorem opens_append (ho : opensComment rest = true) (hno : NoOpenerIn z rest) (tail : JsString) :
    opensComment (rest ++ tail) = true ∧ NoOpenerIn z (rest ++ tail) := by
  have hopen : ∀ y, opensComment (y ++ (rest ++ tail)) = opensComment (y ++ rest) := by
    intro y
    rcases rest with _ | ⟨c, _ | ⟨d, rest⟩⟩
    · cases ho
    · cases ho
    · rcases y with _ | ⟨a, _ | ⟨b, y⟩⟩ <;> rfl
  exact ⟨(hopen []).trans ho, fun y hy hne => (hopen y).trans (hno y hy hne)⟩

theorem tokens_append_congr {z p u : JsString} (hp : tokens p = tokens u)
    (hread : ∀ ls, lex z = some ls →
      lex (z ++ p) = (lex p).map (ls ++ ·) ∧ lex (z ++ u) = (lex u).map (ls ++ ·))
    (herr : Refused z p) (herr' : Refused z u) : tokens (z ++ p) = tokens (z ++ u) := by
  cases hl : lex z with
  | none => rw [tokens, tokens, herr hl, herr' hl]
  | some ls =>
    obtain ⟨hreadp, hreadu⟩ := hread ls hl
    rw [tokens_append hreadp, tokens_append hreadu, hp]

end PgLex
