import Mathlib.Data.List.Basic
import Mathlib.Logic.Function.Basic

/-!
# Cells under keys

A machine that keeps one cell for each key and answers a request from the cell
of its key alone. What is answered under one key is what a run of only the
requests under that key answers.
-/

namespace McpGateway.Keyed

variable {κ σ α ω : Type} [DecidableEq κ] (key : α → κ) (act : α → σ → σ × ω)

def next (cells : κ → σ) (a : α) : κ → σ :=
  Function.update cells (key a) (act a (cells (key a))).1

def final (cells : κ → σ) (as : List α) : κ → σ := as.foldl (next key act) cells

def answers : (κ → σ) → List α → List (α × ω)
  | _, [] => []
  | cells, a :: as => (a, (act a (cells (key a))).2) :: answers (next key act cells a) as

section
variable {key act}

@[simp] theorem next_self (cells : κ → σ) (a : α) :
    next key act cells a (key a) = (act a (cells (key a))).1 := Function.update_self ..

theorem next_of_ne (cells : κ → σ) {a : α} {k : κ} (h : key a ≠ k) :
    next key act cells a k = cells k := Function.update_of_ne h.symm ..

theorem answers_append (cells : κ → σ) (as bs : List α) :
    answers key act cells (as ++ bs) =
      answers key act cells as ++ answers key act (final key act cells as) bs := by
  induction as generalizing cells with
  | nil => rfl
  | cons a as ih => simp [answers, final, ih]

theorem final_append (cells : κ → σ) (as bs : List α) :
    final key act cells (as ++ bs) = final key act (final key act cells as) bs := by
  simp [final]

@[simp] theorem answers_map_fst (cells : κ → σ) (as : List α) :
    (answers key act cells as).map Prod.fst = as := by
  induction as generalizing cells with
  | nil => rfl
  | cons a as ih => simp [answers, ih]

theorem answers_congr {cells cells' : κ → σ} {k : κ} (h : cells k = cells' k) {as : List α}
    (has : ∀ a ∈ as, key a = k) : answers key act cells as = answers key act cells' as := by
  induction as generalizing cells cells' with
  | nil => rfl
  | cons a as ih =>
    have ha : key a = k := has a List.mem_cons_self
    have hcell : cells (key a) = cells' (key a) := ha ▸ h
    have hnext : next key act cells a k = next key act cells' a k := by
      rw [← ha, next_self, next_self, hcell]
    rw [answers, answers, hcell, ih hnext fun b hb => has b (List.mem_cons_of_mem _ hb)]

theorem answers_filter (cells : κ → σ) (as : List α) (k : κ) :
    (answers key act cells as).filter (fun e => key e.1 = k) =
      answers key act cells (as.filter fun a => key a = k) := by
  induction as generalizing cells with
  | nil => rfl
  | cons a as ih =>
    by_cases ha : key a = k
    · simp [answers, ha, ih]
    · have hcell : next key act cells a k = cells k := next_of_ne cells ha
      have hrest : answers key act (next key act cells a) (as.filter fun b => key b = k) =
          answers key act cells (as.filter fun b => key b = k) :=
        answers_congr hcell fun b hb => of_decide_eq_true (List.mem_filter.mp hb).2
      simp [answers, ha, ih, hrest]

end

end McpGateway.Keyed
