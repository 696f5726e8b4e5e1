import Mathlib.Algebra.Order.Field.Basic
import Mathlib.Algebra.BigOperators.Group.List.Basic
import Mathlib.Tactic.Linarith
import Mathlib.Tactic.Ring

/-!
# Draws from a reservoir

A reservoir of a fixed size fills at a fixed rate and is drawn from at certain
times. When no draw leaves more than the level before it and the inflow since
then allow, what is drawn in any window of time is at most the size and the
inflow of the window.
-/

namespace McpGateway.Reservoir

variable {K : Type} [Field K] [LinearOrder K]

structure Draw (K : Type) where
  time : K
  amount : K
  deriving DecidableEq, Repr

/-- What was drawn from time `from` to time `to`, both included. -/
def drawn (t₁ t₂ : K) (ds : List (Draw K)) : K :=
  ((ds.filter fun d => decide (t₁ ≤ d.time ∧ d.time ≤ t₂)).map Draw.amount).sum

@[simp] theorem drawn_nil (t₁ t₂ : K) : drawn t₁ t₂ [] = 0 := rfl

theorem drawn_append (t₁ t₂ : K) (ds es : List (Draw K)) :
    drawn t₁ t₂ (ds ++ es) = drawn t₁ t₂ ds + drawn t₁ t₂ es := by
  simp only [drawn, List.filter_append, List.map_append, List.sum_append]

theorem drawn_singleton (t₁ t₂ : K) (d : Draw K) :
    drawn t₁ t₂ [d] = if t₁ ≤ d.time ∧ d.time ≤ t₂ then d.amount else 0 := by
  unfold drawn
  split
  · next h => simp [h]
  · next h => simp [h]

theorem drawn_none {ds : List (Draw K)} (h : ∀ d ∈ ds, ¬ (t₁ ≤ d.time ∧ d.time ≤ t₂)) :
    drawn t₁ t₂ ds = 0 := by
  have hempty : ds.filter (fun d => decide (t₁ ≤ d.time ∧ d.time ≤ t₂)) = [] := by
    simpa using h
  rw [drawn, hempty]
  rfl

theorem drawn_until {ds : List (Draw K)} (h : ∀ d ∈ ds, d.time ≤ t) (ht : t ≤ t₂) :
    drawn t₁ t₂ ds = drawn t₁ t ds := by
  have hsame : ds.filter (fun d => decide (t₁ ≤ d.time ∧ d.time ≤ t₂)) =
      ds.filter (fun d => decide (t₁ ≤ d.time ∧ d.time ≤ t)) := by
    apply List.filter_congr
    intro d hd
    have hpast := h d hd
    have hlate := hpast.trans ht
    simp [hpast, hlate]
  rw [drawn, hsame, drawn]

variable [IsStrictOrderedRing K]

/-- The level left at a time, after some draws, and what holds of every window
of them. -/
structure Metered (size rate level time : K) (ds : List (Draw K)) : Prop where
  nonneg : 0 ≤ level
  within : level ≤ size
  past : ∀ d ∈ ds, d.time ≤ time
  since : ∀ t ≤ time, drawn t time ds + level ≤ size + rate * (time - t)
  window : ∀ t₁ t₂, t₁ ≤ t₂ → drawn t₁ t₂ ds ≤ size + rate * (t₂ - t₁)

section
variable {size rate level level' time time' amount : K} {ds : List (Draw K)}

theorem Metered.full (hsize : 0 ≤ size) (hrate : 0 ≤ rate) : Metered size rate size time [] where
  nonneg := hsize
  within := le_refl size
  past := fun _ hd => nomatch hd
  since := fun t ht => by
    have hin := mul_nonneg hrate (sub_nonneg.mpr ht)
    rw [drawn_nil]
    linarith
  window := fun t₁ t₂ ht => by
    have hin := mul_nonneg hrate (sub_nonneg.mpr ht)
    rw [drawn_nil]
    linarith

/-- A draw at a later time that takes no more than was left and has flowed in
since, and no more than the size. -/
theorem Metered.draw (h : Metered size rate level time ds) (hrate : 0 ≤ rate)
    (htime : time ≤ time') (hlevel : 0 ≤ level') (hamount : 0 ≤ amount)
    (hsize : level' + amount ≤ size) (hinflow : level' + amount ≤ level + rate * (time' - time)) :
    Metered size rate level' time' (ds ++ [⟨time', amount⟩]) := by
  have hnow : ∀ t ≤ time', drawn t time' (ds ++ [⟨time', amount⟩]) = drawn t time' ds + amount := by
    intro t ht
    rw [drawn_append, drawn_singleton, if_pos ⟨ht, le_refl time'⟩]
  have hsince : ∀ t ≤ time',
      drawn t time' (ds ++ [⟨time', amount⟩]) + level' ≤ size + rate * (time' - t) := by
    intro t ht
    rw [hnow t ht]
    rcases le_or_gt t time with hold | hnew
    · -- the window reaches back over earlier draws: their bound and the new inflow
      have hbefore := h.since t hold
      rw [drawn_until h.past htime]
      have hsplit : rate * (time' - t) = rate * (time' - time) + rate * (time - t) := by ring
      linarith
    · have hnone : drawn t time' ds = 0 :=
        drawn_none fun d hd hin => absurd (h.past d hd) (not_le.mpr (hnew.trans_le hin.1))
      have hin := mul_nonneg hrate (sub_nonneg.mpr ht)
      rw [hnone]
      linarith
  have hpast : ∀ d ∈ ds ++ [⟨time', amount⟩], d.time ≤ time' := by
    intro d hd
    rcases List.mem_append.mp hd with hd | hd
    · exact (h.past d hd).trans htime
    · rw [List.mem_singleton.mp hd]
  refine ⟨hlevel, by linarith, hpast, hsince, ?_⟩
  intro t₁ t₂ ht
  rcases le_or_gt time' t₂ with hdone | hlater
  · rw [drawn_until hpast hdone]
    rcases le_or_gt t₁ time' with hstart | hafter
    · have hbound := hsince t₁ hstart
      have hmono := mul_le_mul_of_nonneg_left (sub_le_sub_right hdone t₁) hrate
      linarith
    · have hnone : drawn t₁ time' (ds ++ [⟨time', amount⟩]) = 0 :=
        drawn_none fun d _ hin => absurd (hin.1.trans hin.2) (not_le.mpr hafter)
      have hin := mul_nonneg hrate (sub_nonneg.mpr ht)
      have hroom : 0 ≤ size := by linarith [h.nonneg, h.within]
      rw [hnone]
      linarith
  · -- the draw comes after the window
    have houtside : ¬ (t₁ ≤ time' ∧ time' ≤ t₂) := fun hin => absurd hin.2 (not_le.mpr hlater)
    rw [drawn_append, drawn_singleton, if_neg houtside, add_zero]
    exact h.window t₁ t₂ ht

end

theorem fill_le {level : K} (size inflow : K) (hlevel : 0 ≤ level) :
    min size (level + inflow) ≤ level + min size inflow := by
  rcases le_total size inflow with h | h
  · rw [min_eq_left h]
    linarith [min_le_left size (level + inflow)]
  · rw [min_eq_right h]
    exact min_le_right size (level + inflow)

end McpGateway.Reservoir
