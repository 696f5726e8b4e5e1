import Mathlib.Data.List.Induction
import Mathlib.Order.Basic

/-!
# Histories

A machine that answers every event it takes. Its transcript lists the events
with their answers, so an event is named by its position. What the first step of
every prolonged transcript preserves holds of the transcript of every run.
-/

namespace McpGateway.History

variable {σ α ω : Type} (step : σ → α → σ × ω)

def final (s : σ) (as : List α) : σ := as.foldl (fun s a => (step s a).1) s

def transcript : σ → List α → List (α × ω)
  | _, [] => []
  | s, a :: as => (a, (step s a).2) :: transcript (step s a).1 as

section
variable {step}

@[simp] theorem final_nil (s : σ) : final step s [] = s := rfl

@[simp] theorem transcript_nil (s : σ) : transcript step s [] = [] := rfl

theorem final_snoc (s : σ) (as : List α) (a : α) :
    final step s (as ++ [a]) = (step (final step s as) a).1 := by
  simp [final]

theorem transcript_snoc (s : σ) (as : List α) (a : α) :
    transcript step s (as ++ [a]) = transcript step s as ++ [(a, (step (final step s as) a).2)] := by
  induction as generalizing s with
  | nil => rfl
  | cons b as ih =>
    show (b, (step s b).2) :: transcript step (step s b).1 (as ++ [a]) = _
    rw [ih]
    rfl

@[simp] theorem transcript_map_fst (s : σ) (as : List α) :
    (transcript step s as).map Prod.fst = as := by
  induction as generalizing s with
  | nil => rfl
  | cons a as ih => simp [transcript, ih]

theorem event_at {s : σ} {as : List α} {i : Nat} {e : α × ω}
    (h : (transcript step s as)[i]? = some e) : as[i]? = some e.1 := by
  have hmap : ((transcript step s as).map Prod.fst)[i]? = some e.1 := by
    rw [List.getElem?_map, h]
    rfl
  rwa [transcript_map_fst] at hmap

theorem exists_answer (s : σ) {as : List α} {i : Nat} {a : α} (h : as[i]? = some a) :
    ∃ o, (transcript step s as)[i]? = some (a, o) := by
  induction as generalizing s i with
  | nil => simp at h
  | cons b as ih =>
    cases i with
    | zero =>
      cases h
      exact ⟨_, rfl⟩
    | succ i => exact ih _ h

theorem transcript_take (s : σ) (as : List α) (i : Nat) :
    (transcript step s as).take i = transcript step s (as.take i) := by
  induction as generalizing s i with
  | nil => simp
  | cons a as ih =>
    cases i with
    | zero => rfl
    | succ i => simp [transcript, ih]

theorem answer_at {s : σ} {as : List α} {i : Nat} {a : α} {o : ω}
    (h : (transcript step s as)[i]? = some (a, o)) :
    (step (final step s (as.take i)) a).2 = o := by
  induction as generalizing s i with
  | nil => simp at h
  | cons b as ih =>
    cases i with
    | zero =>
      cases h
      rfl
    | succ i => exact ih h

theorem transcript_invariant (I : List (α × ω) → σ → Prop) {s : σ} (hs : I [] s)
    (hstep : ∀ h s a, I h s → I (h ++ [(a, (step s a).2)]) (step s a).1) (as : List α) :
    I (transcript step s as) (final step s as) := by
  induction as using List.reverseRecOn with
  | nil => exact hs
  | append_singleton as a ih =>
    rw [transcript_snoc, final_snoc]
    exact hstep _ _ a ih

/-- Related states that answer alike and stay related answer every run alike. -/
theorem transcript_eq_of_related {R : σ → σ → Prop}
    (hstep : ∀ s s' a, R s s' → (step s a).2 = (step s' a).2 ∧ R (step s a).1 (step s' a).1)
    {s s' : σ} (h : R s s') (as : List α) : transcript step s as = transcript step s' as := by
  induction as generalizing s s' with
  | nil => rfl
  | cons a as ih =>
    obtain ⟨hanswer, hnext⟩ := hstep s s' a h
    unfold transcript
    rw [hanswer, ih hnext]

end

-- ---------------------------------------------------------------------------
-- Positions
-- ---------------------------------------------------------------------------

section
variable {β γ : Type} {h : List β} {e x : β} {i j : Nat}

theorem at_snoc : (h ++ [e])[i]? = some x ↔ h[i]? = some x ∨ i = h.length ∧ e = x := by
  rcases Nat.lt_trichotomy i h.length with hlt | rfl | hgt
  · simp [List.getElem?_append_left hlt, Nat.ne_of_lt hlt]
  · simp
  · have hpast : h[i]? = none := List.getElem?_eq_none (Nat.le_of_lt hgt)
    have hend : (h ++ [e])[i]? = none := List.getElem?_eq_none (by rw [List.length_append]; exact hgt)
    simp [hpast, hend, Nat.ne_of_gt hgt]

theorem lt_length (hx : h[i]? = some x) : i < h.length :=
  (List.getElem?_eq_some_iff.mp hx).1

theorem drawn_once {f : β → Option γ} {c : γ} {y : β} (hnodup : (h.filterMap f).Nodup)
    (hx : h[i]? = some x) (hy : h[j]? = some y) (hfx : f x = some c) (hfy : f y = some c) :
    i = j := by
  have hpair := List.pairwise_iff_getElem.mp (List.pairwise_filterMap.mp hnodup)
  obtain ⟨hi, rfl⟩ := List.getElem?_eq_some_iff.mp hx
  obtain ⟨hj, rfl⟩ := List.getElem?_eq_some_iff.mp hy
  rcases Nat.lt_trichotomy i j with hlt | heq | hgt
  · exact absurd rfl (hpair i j hi hj hlt c hfx c hfy)
  · exact heq
  · exact absurd rfl (hpair j i hj hi hgt c hfy c hfx)

theorem at_take : (h.take j)[i]? = some x ↔ i < j ∧ h[i]? = some x := by
  simp [List.getElem?_take]

end

-- ---------------------------------------------------------------------------
-- Values that are spent
-- ---------------------------------------------------------------------------

section
variable {β : Type} {h : List β} {issued spent : β → Prop} {e y : β} {i j k : Nat}

def Outstanding (h : List β) (issued spent : β → Prop) : Prop :=
  ∃ (i : Nat) (x : β), h[i]? = some x ∧ issued x ∧
    ∀ (j : Nat) (y : β), i < j → h[j]? = some y → ¬ spent y

def IssuedOnce (h : List β) (issued : β → Prop) : Prop :=
  ∀ (i i' : Nat) (x x' : β), h[i]? = some x → h[i']? = some x' → issued x → issued x' → i = i'

theorem outstanding_issued (he : issued e) : Outstanding (h ++ [e]) issued spent := by
  refine ⟨h.length, e, at_snoc.mpr (.inr ⟨rfl, rfl⟩), he, ?_⟩
  intro j y hj hy
  have hlt := lt_length hy
  rw [List.length_append] at hlt
  exact absurd hj (Nat.not_lt.mpr (Nat.le_of_lt_succ hlt))

theorem Outstanding.snoc (ho : Outstanding h issued spent) (he : ¬ spent e) :
    Outstanding (h ++ [e]) issued spent := by
  obtain ⟨i, x, hx, hissued, hspent⟩ := ho
  refine ⟨i, x, at_snoc.mpr (.inl hx), hissued, ?_⟩
  intro j y hj hy
  rcases at_snoc.mp hy with hy | ⟨-, rfl⟩
  · exact hspent j y hj hy
  · exact he

/-- A value that is issued once is not outstanding where it was spent before. -/
theorem not_outstanding (honce : IssuedOnce h issued) (hissued : h[i]? = some e ∧ issued e)
    (hij : i < j) (hspent : h[j]? = some y ∧ spent y) (hjk : j < k) :
    ¬ Outstanding (h.take k) issued spent := by
  rintro ⟨i', x, hx, hissued', hunspent⟩
  have hi : i' = i := honce i' i x e (at_take.mp hx).2 hissued.1 hissued' hissued.2
  subst hi
  exact hunspent j y hij (at_take.mpr ⟨hjk, hspent.1⟩) hspent.2

theorem spent_once (honce : IssuedOnce h issued) {y' : β} (hj : h[j]? = some y ∧ spent y)
    (hk : h[k]? = some y' ∧ spent y') (hoj : Outstanding (h.take j) issued spent) (hok : Outstanding (h.take k) issued spent) :
    j = k := by
  obtain ⟨i, x, hx, hissued, -⟩ := id hoj
  obtain ⟨i', x', hx', hissued', -⟩ := id hok
  obtain ⟨hij, hx⟩ := at_take.mp hx
  obtain ⟨hik, hx'⟩ := at_take.mp hx'
  rcases Nat.lt_trichotomy j k with hlt | heq | hgt
  · exact absurd hok (not_outstanding honce ⟨hx, hissued⟩ hij hj hlt)
  · exact heq
  · exact absurd hoj (not_outstanding honce ⟨hx', hissued'⟩ hik hk hgt)

end

end McpGateway.History
