import Mathlib.Data.List.Basic

/-!
# Runs of a transition system

A system takes a step by an action or refuses it. A run is a list of actions
each of which was taken; what every step preserves, every run preserves.
-/

namespace McpGateway.Transition

variable {σ α : Type}

/-- Take the actions one after another; `none` when one of them is refused. -/
def run (step : σ → α → Option σ) : σ → List α → Option σ
  | s, [] => some s
  | s, a :: as => (step s a).bind fun s' => run step s' as

section
variable {step : σ → α → Option σ}

@[simp] theorem run_nil (s : σ) : run step s [] = some s := rfl

theorem run_cons (s : σ) (a : α) (as : List α) :
    run step s (a :: as) = (step s a).bind fun s' => run step s' as := rfl

theorem run_append (s : σ) (as bs : List α) :
    run step s (as ++ bs) = (run step s as).bind fun s' => run step s' bs := by
  induction as generalizing s with
  | nil => rfl
  | cons a as ih =>
    rw [List.cons_append, run_cons, run_cons, Option.bind_assoc]
    exact congrArg _ (funext ih)

theorem run_cons_some : run step s (a :: as) = some s' ↔
    ∃ m, step s a = some m ∧ run step m as = some s' :=
  Option.bind_eq_some_iff

theorem run_invariant (I : σ → Prop) (hstep : ∀ s a s', I s → step s a = some s' → I s')
    (hs : I s) (h : run step s as = some s') : I s' := by
  induction as generalizing s with
  | nil =>
    cases h
    exact hs
  | cons a as ih =>
    obtain ⟨m, hm, hrest⟩ := run_cons_some.mp h
    exact ih (hstep s a m hs hm) hrest

/-- The same for an invariant that a step preserves under a condition on the
action and the state it is taken in, when every step of the run meets it. -/
theorem run_invariant_of (I : σ → Prop) (ok : σ → α → Prop)
    (hstep : ∀ s a s', I s → ok s a → step s a = some s' → I s') (hs : I s)
    (hok : ∀ pre a post m, as = pre ++ a :: post → run step s pre = some m → ok m a)
    (h : run step s as = some s') : I s' := by
  induction as generalizing s with
  | nil =>
    cases h
    exact hs
  | cons a as ih =>
    obtain ⟨m, hm, hrest⟩ := run_cons_some.mp h
    refine ih (hstep s a m hs (hok [] a as s rfl rfl) hm) ?_ hrest
    rintro pre b post k rfl hk
    exact hok (a :: pre) b post k rfl (run_cons_some.mpr ⟨m, hm, hk⟩)

/-- Every step of the run meets the condition in the state it is taken in. -/
def Along (step : σ → α → Option σ) (ok : σ → α → Prop) : σ → List α → Prop
  | _, [] => True
  | s, a :: as => ok s a ∧ match step s a with
    | some s' => Along step ok s' as
    | none => True

instance decidableAlong {ok : σ → α → Prop} [∀ s a, Decidable (ok s a)] :
    ∀ s as, Decidable (Along step ok s as)
  | _, [] => isTrue trivial
  | s, a :: as =>
    have : Decidable (match step s a with
        | some s' => Along step ok s' as
        | none => True) :=
      match step s a with
      | some s' => decidableAlong s' as
      | none => isTrue trivial
    inferInstanceAs (Decidable (ok s a ∧ _))

theorem along_next {ok : σ → α → Prop} (hok : Along step ok s (a :: as))
    (h : step s a = some s') : Along step ok s' as := by
  have hrest := hok.2
  rw [h] at hrest
  exact hrest

theorem along_and {ok ok' : σ → α → Prop} (h : Along step ok s as) (h' : Along step ok' s as) :
    Along step (fun s a => ok s a ∧ ok' s a) s as := by
  induction as generalizing s with
  | nil => trivial
  | cons a as ih =>
    refine ⟨⟨h.1, h'.1⟩, ?_⟩
    cases hstep : step s a with
    | none => trivial
    | some s' => exact ih (along_next h hstep) (along_next h' hstep)

theorem along_of_forall {P : α → Prop} (h : ∀ a ∈ as, P a) :
    Along step (fun _ a => P a) s as := by
  induction as generalizing s with
  | nil => trivial
  | cons a as ih =>
    refine ⟨h a List.mem_cons_self, ?_⟩
    cases step s a with
    | none => trivial
    | some s' => exact ih fun b hb => h b (List.mem_cons_of_mem _ hb)

/-- An invariant of every step that meets the condition, along a run whose steps
all do. -/
theorem run_invariant_along (I : σ → Prop) (ok : σ → α → Prop)
    (hstep : ∀ s a s', I s → ok s a → step s a = some s' → I s') (hs : I s)
    (hok : Along step ok s as) (h : run step s as = some s') : I s' := by
  induction as generalizing s with
  | nil =>
    cases h
    exact hs
  | cons a as ih =>
    obtain ⟨m, hm, hrest⟩ := run_cons_some.mp h
    exact ih (hstep s a m hs hok.1 hm) (along_next hok hm) hrest

theorem run_history_along (I : List α → σ → Prop) (ok : σ → α → Prop)
    (hstep : ∀ pre s a s', I pre s → ok s a → step s a = some s' → I (pre ++ [a]) s')
    (hs : I pre s) (hok : Along step ok s as) (h : run step s as = some s') : I (pre ++ as) s' := by
  induction as generalizing pre s with
  | nil =>
    cases h
    simpa using hs
  | cons a as ih =>
    obtain ⟨m, hm, hrest⟩ := run_cons_some.mp h
    have hnext := ih (hstep pre s a m hs hok.1 hm) (along_next hok hm) hrest
    simpa using hnext

end

end McpGateway.Transition
