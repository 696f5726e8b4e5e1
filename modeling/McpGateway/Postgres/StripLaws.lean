import McpGateway.Postgres.Guard
import McpGateway.Lib.PgLexLaws

/-!
# What stripping leaves

The loop of `stripLiteralsAndComments` as an equation, and the two facts about
its output the guard rests on: it has no quote character, and it has a comment
opener exactly when taking a comment out brings one together.
-/

namespace McpGateway.Postgres

open Js
open PgLex (opensComment hasOpener hasOpener_of_suffix)

-- ---------------------------------------------------------------------------
-- One turn of the loop
-- ---------------------------------------------------------------------------

theorem stripFrom_skip (n : Nat) (s) : stripFrom n s = stripFrom 0 (s.drop n) := by
  induction s generalizing n with
  | nil => cases n <;> rfl
  | cons c s ih =>
    cases n with
    | zero => rfl
    | succ n => rw [stripFrom, ih, List.drop_succ_cons]

theorem indexOf_pos (h : needle.isPrefixOf s = false) (hi : indexOf needle s = some n) : 0 < n := by
  cases s with
  | nil => simp [indexOf] at hi; simp [hi.1] at h
  | cons c s =>
    simp only [indexOf, h, Bool.false_eq_true, ↓reduceIte, Option.map_eq_some_iff] at hi
    obtain ⟨m, -, rfl⟩ := hi
    exact Nat.succ_pos m

theorem opensComment_eq :
    opensComment s = ((js "--").isPrefixOf s || (js "/*").isPrefixOf s) := by
  rw [show js "--" = [hyphen, hyphen] from rfl, show js "/*" = [slash, asterisk] from rfl]
  rcases s with _ | ⟨c, _ | ⟨d, s⟩⟩
  · rfl
  · simp [opensComment, List.isPrefixOf]
  · simp [opensComment, List.isPrefixOf, Bool.beq_comm]

theorem stripStep_comment (h : opensComment s = true) : (stripStep s).1 = [] ∧ 0 < (stripStep s).2 := by
  cases s with
  | nil => cases h
  | cons c s =>
    simp only [stripStep]
    split
    · rename_i hp
      obtain ⟨t, ht⟩ := List.isPrefixOf_iff_prefix.mp hp
      have hc : hyphen = c := (List.cons.inj ht).1
      refine ⟨rfl, ?_⟩
      cases hi : indexOf [lineFeed] (c :: s) with
      | none => exact Nat.succ_pos _
      | some n =>
        refine indexOf_pos ?_ hi
        rw [← hc]
        rfl
    · rename_i hp
      rw [opensComment_eq, Bool.eq_false_iff.mpr hp, Bool.false_or] at h
      simp only [h, ↓reduceIte, true_and]
      cases indexOf (js "*/") (c :: s) with
      | none => exact Nat.succ_pos _
      | some n => exact Nat.succ_pos _

theorem stripStep_kept (h : opensComment (c :: s) = false) (hc : isQuote c = false) :
    stripStep (c :: s) = ([c], 1) := by
  rw [opensComment_eq, Bool.or_eq_false_iff] at h
  simp only [stripStep, h, hc, Bool.false_eq_true, ↓reduceIte]

theorem stripStep_literal (hc : isQuote c = true) :
    stripStep (c :: s) = ([blank], literalEnd c s + 1) := by
  have h : opensComment (c :: s) = false := by
    rw [Bool.eq_false_iff, Ne, PgLex.opensComment_cons]
    rintro (⟨rfl, -⟩ | ⟨rfl, -⟩) <;> cases hc
  rw [opensComment_eq, Bool.or_eq_false_iff] at h
  simp only [stripStep, h, hc, Bool.false_eq_true, ↓reduceIte]

theorem stripStep_pos (hs : s ≠ []) : 0 < (stripStep s).2 := by
  cases s with
  | nil => exact absurd rfl hs
  | cons c s =>
    cases ho : opensComment (c :: s) with
    | true => exact (stripStep_comment ho).2
    | false =>
      cases hc : isQuote c with
      | true => rw [stripStep_literal hc]; exact Nat.succ_pos _
      | false => rw [stripStep_kept ho hc]; exact Nat.one_pos

def afterTurn (rest : JsString) : JsString := rest.drop (stripStep rest).2

theorem afterTurn_length (hs : s ≠ []) : (afterTurn s).length < s.length := by
  have := stripStep_pos hs
  have := List.length_pos_of_ne_nil hs
  simp only [afterTurn, List.length_drop]
  omega

theorem strip_turn (hs : s ≠ []) :
    stripLiteralsAndComments s = (stripStep s).1 ++ stripLiteralsAndComments (afterTurn s) := by
  cases s with
  | nil => exact absurd rfl hs
  | cons c s =>
    have hn := stripStep_pos hs
    rw [stripLiteralsAndComments, stripFrom, stripFrom_skip]
    congr 2
    obtain ⟨n, hn⟩ : ∃ n, (stripStep (c :: s)).2 = n + 1 := ⟨_, (Nat.succ_pred_eq_of_pos hn).symm⟩
    rw [afterTurn, hn]
    rfl

theorem strip_induction {P : JsString → Prop} (nil : P [])
    (turn : ∀ s, s ≠ [] → P (afterTurn s) → P s) (s : JsString) : P s := by
  induction hn : s.length using Nat.strong_induction_on generalizing s with
  | _ n ih =>
    subst hn
    by_cases hs : s = []
    · rw [hs]; exact nil
    · exact turn s hs (ih _ (afterTurn_length hs) _ rfl)

@[simp] theorem strip_nil : stripLiteralsAndComments [] = [] := rfl

section
variable {c : CodeUnit} {s : JsString}

theorem strip_comment (h : opensComment s = true) :
    stripLiteralsAndComments s = stripLiteralsAndComments (afterTurn s) := by
  have hs : s ≠ [] := by rintro rfl; cases h
  rw [strip_turn hs, (stripStep_comment h).1]
  rfl

theorem strip_kept (h : opensComment (c :: s) = false) (hc : isQuote c = false) :
    stripLiteralsAndComments (c :: s) = c :: stripLiteralsAndComments s := by
  rw [strip_turn (List.cons_ne_nil c s), afterTurn, stripStep_kept h hc]
  rfl

theorem strip_literal (hc : isQuote c = true) :
    stripLiteralsAndComments (c :: s) =
      blank :: stripLiteralsAndComments (afterTurn (c :: s)) := by
  rw [strip_turn (List.cons_ne_nil c s), stripStep_literal hc]
  rfl

end

theorem strip_quoteFree : ∀ c ∈ stripLiteralsAndComments s, isQuote c = false := by
  induction s using strip_induction with
  | nil => simp
  | turn s hs ih =>
    cases s with
    | nil => exact absurd rfl hs
    | cons c s =>
      cases ho : opensComment (c :: s) with
      | true => rwa [strip_comment ho]
      | false =>
        cases hc : isQuote c with
        | true =>
          rw [strip_literal hc]
          exact List.forall_mem_cons.mpr ⟨rfl, ih⟩
        | false =>
          rw [strip_kept ho hc]
          rw [afterTurn, stripStep_kept ho hc] at ih
          exact List.forall_mem_cons.mpr ⟨hc, ih⟩

-- ---------------------------------------------------------------------------
-- Comment openers in the output
-- ---------------------------------------------------------------------------

/-- The loop, started on `sql`, has `rest` still to read. -/
inductive LoopAt (sql : JsString) : JsString → Prop
  | start : LoopAt sql sql
  | turn : LoopAt sql rest → rest ≠ [] → LoopAt sql (afterTurn rest)

inductive Removed : JsString → JsString → Prop
  | none : Removed s s
  | comment : opensComment s = true → Removed (afterTurn s) r → Removed s r

/-- The loop keeps a character, removes the comments right after it and keeps
the character after those, and the two make a comment opener. -/
def Splices (sql : JsString) : Prop :=
  ∃ a b s t, LoopAt sql (a :: s) ∧ opensComment (a :: s) = false ∧
    Removed s (b :: t) ∧ opensComment (b :: t) = false ∧ opensComment [a, b] = true

theorem strip_removed (h : Removed s r) :
    stripLiteralsAndComments s = stripLiteralsAndComments r := by
  induction h with
  | none => rfl
  | comment ho _ ih => rw [strip_comment ho, ih]

theorem strip_loopAt (h : LoopAt sql rest) :
    stripLiteralsAndComments rest <:+ stripLiteralsAndComments sql := by
  induction h with
  | start => exact List.suffix_rfl
  | turn _ hr ih =>
    rw [strip_turn hr] at ih
    exact (List.suffix_append _ _).trans ih

/-- The first character of the output comes from a literal or is kept, after
comments. -/
theorem strip_head (h : stripLiteralsAndComments s = b :: w) :
    ∃ c t, Removed s (c :: t) ∧ opensComment (c :: t) = false ∧
      (isQuote c = true ∧ b = blank ∨ isQuote c = false ∧ b = c) := by
  induction s using strip_induction with
  | nil => cases h
  | turn s hs ih =>
    cases s with
    | nil => exact absurd rfl hs
    | cons c s =>
      cases ho : opensComment (c :: s) with
      | true =>
        rw [strip_comment ho] at h
        obtain ⟨d, t, hr, hd⟩ := ih h
        exact ⟨d, t, .comment ho hr, hd⟩
      | false =>
        refine ⟨c, s, .none, ho, ?_⟩
        cases hc : isQuote c with
        | true => rw [strip_literal hc] at h; exact .inl ⟨rfl, (List.cons.inj h).1.symm⟩
        | false => rw [strip_kept ho hc] at h; exact .inr ⟨rfl, (List.cons.inj h).1.symm⟩

theorem opensComment_pair : opensComment (a :: b :: s) = opensComment [a, b] := rfl

theorem hasOpener_of_splices (h : Splices sql) : hasOpener (stripLiteralsAndComments sql) = true := by
  obtain ⟨a, b, s, t, hloop, ha, hr, hb, hab⟩ := h
  have hqa : isQuote a = false := by
    rcases PgLex.opensComment_cons.mp hab with ⟨rfl, -⟩ | ⟨rfl, -⟩ <;> rfl
  have hqb : isQuote b = false := by
    rcases PgLex.opensComment_cons.mp hab with ⟨-, h⟩ | ⟨-, h⟩ <;> cases h <;> rfl
  refine hasOpener_of_suffix (strip_loopAt hloop) ?_
  rw [strip_kept ha hqa, strip_removed hr, strip_kept hb hqb, hasOpener, opensComment_pair, hab]
  rfl

theorem splices_of_hasOpener (hloop : LoopAt sql s)
    (h : hasOpener (stripLiteralsAndComments s) = true) : Splices sql := by
  induction s using strip_induction with
  | nil => cases h
  | turn s hs ih =>
    have ih := ih (.turn hloop hs)
    cases s with
    | nil => exact absurd rfl hs
    | cons a s =>
      cases ho : opensComment (a :: s) with
      | true => rw [strip_comment ho] at h; exact ih h
      | false =>
        cases hq : isQuote a with
        | true =>
          rw [strip_literal hq, hasOpener] at h
          refine ih ((Bool.or_eq_true_iff.mp h).resolve_left fun h => ?_)
          rcases PgLex.opensComment_cons.mp h with ⟨h, -⟩ | ⟨h, -⟩ <;> cases h
        | false =>
          rw [afterTurn, stripStep_kept ho hq] at ih
          rw [strip_kept ho hq, hasOpener] at h
          rcases Bool.or_eq_true_iff.mp h with h | h
          · cases hw : stripLiteralsAndComments s with
            | nil => rw [hw] at h; cases h
            | cons b w =>
              rw [hw, opensComment_pair] at h
              obtain ⟨c, t, hr, hc, ⟨-, rfl⟩ | ⟨-, rfl⟩⟩ := strip_head hw
              · rcases PgLex.opensComment_cons.mp h with ⟨-, h⟩ | ⟨-, h⟩ <;> cases h
              · exact ⟨a, b, s, t, hloop, ho, hr, hc, h⟩
          · exact ih h

theorem hasOpener_iff_splices :
    hasOpener (stripLiteralsAndComments sql) = true ↔ Splices sql :=
  ⟨splices_of_hasOpener .start, hasOpener_of_splices⟩

end McpGateway.Postgres
