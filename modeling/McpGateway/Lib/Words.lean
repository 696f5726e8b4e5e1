import Mathlib.Data.List.Basic

/-!
# Words between separators

The words of a sequence are its longest stretches without a separator. Putting
words together with a separator between them, and reading them back, gives the
words of each of them.
-/

namespace McpGateway.Words

variable {α : Type} {p : α → Bool}

def words (p : α → Bool) (xs : List α) : List (List α) :=
  (xs.splitOnP p).filter fun w => !w.isEmpty

def IsWord (p : α → Bool) (w : List α) : Prop := w ≠ [] ∧ ∀ a ∈ w, p a = false

instance (p : α → Bool) (w : List α) : Decidable (IsWord p w) := inferInstanceAs (Decidable (_ ∧ _))

theorem words_append_cons (xs : List α) {sep : α} (hsep : p sep = true) (ys : List α) :
    words p (xs ++ sep :: ys) = words p xs ++ words p ys := by
  unfold words
  rw [List.splitOnP_append_cons xs ys hsep, List.filter_append]

theorem words_cons_sep {sep : α} (hsep : p sep = true) (xs : List α) :
    words p (sep :: xs) = words p xs :=
  words_append_cons [] hsep xs

theorem words_seps_append {run : List α} (h : ∀ a ∈ run, p a = true) (xs : List α) :
    words p (run ++ xs) = words p xs := by
  induction run with
  | nil => rfl
  | cons a run ih =>
    rw [List.cons_append, words_cons_sep (h a List.mem_cons_self),
      ih fun b hb => h b (List.mem_cons_of_mem a hb)]

theorem words_of_isWord {w : List α} (h : IsWord p w) : words p w = [w] := by
  obtain ⟨a, w, rfl⟩ := List.exists_cons_of_ne_nil h.1
  unfold words
  rw [List.splitOnP_eq_singleton h.2]
  rfl

theorem words_word_sep {w : List α} (h : IsWord p w) {sep : α} (hsep : p sep = true)
    (xs : List α) : words p (w ++ sep :: xs) = w :: words p xs := by
  rw [words_append_cons w hsep, words_of_isWord h, List.singleton_append]

theorem words_word_seps {w run : List α} (h : IsWord p w) (hne : run ≠ [])
    (hrun : ∀ a ∈ run, p a = true) (xs : List α) :
    words p (w ++ (run ++ xs)) = w :: words p xs := by
  obtain ⟨sep, run, rfl⟩ := List.exists_cons_of_ne_nil hne
  rw [List.cons_append, words_word_sep h (hrun sep List.mem_cons_self),
    words_seps_append fun a ha => hrun a (List.mem_cons_of_mem sep ha)]

theorem words_seps {run : List α} (h : ∀ a ∈ run, p a = true) : words p run = [] := by
  have hwords := words_seps_append h []
  rwa [List.append_nil] at hwords

theorem words_word_end {w run : List α} (h : IsWord p w) (hrun : ∀ a ∈ run, p a = true) :
    words p (w ++ run) = [w] := by
  cases run with
  | nil => rw [List.append_nil, words_of_isWord h]
  | cons sep run =>
    rw [words_word_sep h (hrun sep List.mem_cons_self),
      words_seps fun a ha => hrun a (List.mem_cons_of_mem sep ha)]

theorem mem_splitOnP {xs w : List α} (h : w ∈ xs.splitOnP p) : ∀ a ∈ w, p a = false := by
  induction xs generalizing w with
  | nil =>
    obtain rfl := List.mem_singleton.mp h
    exact fun _ ha => nomatch ha
  | cons x xs ih =>
    rw [List.splitOnP_cons_eq_if_modifyHead] at h
    split at h
    · rcases List.mem_cons.mp h with rfl | h
      · exact fun _ ha => nomatch ha
      · exact ih h
    · next hx =>
      cases hxs : xs.splitOnP p with
      | nil => exact absurd hxs (List.splitOnP_ne_nil p xs)
      | cons v vs =>
        rw [hxs] at h ih
        rcases List.mem_cons.mp h with rfl | h
        · intro a ha
          rcases List.mem_cons.mp ha with rfl | ha
          · exact Bool.eq_false_iff.mpr hx
          · exact ih List.mem_cons_self a ha
        · exact ih (List.mem_cons_of_mem _ h)

theorem infix_of_mem_splitOnP {xs w : List α} (h : w ∈ xs.splitOnP p) : w <:+: xs := by
  suffices hpieces : (∃ v vs, xs.splitOnP p = v :: vs ∧ v <+: xs) ∧
      ∀ w ∈ xs.splitOnP p, w <:+: xs from hpieces.2 w h
  clear h
  induction xs with
  | nil => exact ⟨⟨[], [], rfl, List.nil_prefix⟩, fun w hw => by simp_all⟩
  | cons x xs ih =>
    obtain ⟨⟨v, vs, hsplit, hprefix⟩, hall⟩ := ih
    rw [List.splitOnP_cons_eq_if_modifyHead]
    split
    · refine ⟨⟨[], _, rfl, List.nil_prefix⟩, ?_⟩
      intro w hw
      rcases List.mem_cons.mp hw with rfl | hw
      · exact List.nil_infix
      · exact List.infix_cons (hall w hw)
    · rw [hsplit] at hall ⊢
      have hhead : x :: v <+: x :: xs := (List.prefix_cons_inj x).mpr hprefix
      refine ⟨⟨x :: v, vs, rfl, hhead⟩, ?_⟩
      intro w hw
      rcases List.mem_cons.mp hw with rfl | hw
      · exact hhead.isInfix
      · exact List.infix_cons (hall w (List.mem_cons_of_mem v hw))

theorem isWord_of_mem {xs w : List α} (h : w ∈ words p xs) : IsWord p w := by
  obtain ⟨hmem, hne⟩ := List.mem_filter.mp h
  refine ⟨?_, mem_splitOnP hmem⟩
  rintro rfl
  cases hne

theorem mem_intercalate {sep a : α} {ws : List (List α)} (h : a ∈ List.intercalate [sep] ws) :
    a = sep ∨ ∃ w ∈ ws, a ∈ w := by
  induction ws with
  | nil => cases h
  | cons w ws ih =>
    cases ws with
    | nil =>
      rw [List.intercalate_singleton] at h
      exact .inr ⟨w, List.mem_cons_self, h⟩
    | cons v vs =>
      rw [List.intercalate_cons_cons, List.append_assoc, List.singleton_append, List.mem_append,
        List.mem_cons] at h
      rcases h with ha | rfl | ha
      · exact .inr ⟨w, List.mem_cons_self, ha⟩
      · exact .inl rfl
      · exact (ih ha).imp_right fun ⟨u, hu, hau⟩ => ⟨u, List.mem_cons_of_mem w hu, hau⟩

theorem words_intercalate {sep : α} (hsep : p sep = true) (ws : List (List α)) :
    words p (List.intercalate [sep] ws) = ws.flatMap (words p) := by
  induction ws with
  | nil => rfl
  | cons w ws ih =>
    cases ws with
    | nil => simp [List.intercalate]
    | cons v vs =>
      rw [List.intercalate_cons_cons, List.append_assoc, List.singleton_append,
        words_append_cons w hsep, ih]
      rfl

theorem words_intercalate_of_isWord {sep : α} (hsep : p sep = true) {ws : List (List α)}
    (h : ∀ w ∈ ws, IsWord p w) : words p (List.intercalate [sep] ws) = ws := by
  rw [words_intercalate hsep]
  induction ws with
  | nil => rfl
  | cons w ws ih =>
    rw [List.flatMap_cons, words_of_isWord (h w List.mem_cons_self),
      ih fun v hv => h v (List.mem_cons_of_mem _ hv)]
    rfl

/-- A sequence has no separator, or one that two shorter sequences stand around. -/
theorem separator_induction {P : List α → Prop} (p : α → Bool)
    (hfree : ∀ xs, (∀ a ∈ xs, p a = false) → P xs)
    (hsep : ∀ before sep after, p sep = true → P before → P after → P (before ++ sep :: after))
    (xs : List α) : P xs := by
  induction hn : xs.length using Nat.strongRecOn generalizing xs with
  | _ n ih =>
    by_cases h : ∃ a ∈ xs, p a = true
    · obtain ⟨sep, hmem, hp⟩ := h
      obtain ⟨before, after, rfl⟩ := List.append_of_mem hmem
      simp only [List.length_append, List.length_cons] at hn
      exact hsep before sep after hp (ih before.length (by omega) before rfl)
        (ih after.length (by omega) after rfl)
    · exact hfree xs fun a ha => Bool.eq_false_iff.mpr fun hp => h ⟨a, ha, hp⟩

theorem words_flatMap_words {q : α → Bool} (h : ∀ a, p a = true → q a = true) (xs : List α) :
    (words p xs).flatMap (words q) = words q xs := by
  induction xs using separator_induction p with
  | hfree xs hfree =>
    cases xs with
    | nil => rfl
    | cons a xs => simp [words_of_isWord ⟨List.cons_ne_nil a xs, hfree⟩]
  | hsep before sep after hp hbefore hafter =>
    rw [words_append_cons before hp, words_append_cons before (h sep hp), List.flatMap_append,
      hbefore, hafter]

theorem words_ne_nil {xs : List α} {a : α} (ha : a ∈ xs) (hp : p a = false) : words p xs ≠ [] := by
  induction xs using separator_induction p with
  | hfree xs hfree =>
    rw [words_of_isWord ⟨List.ne_nil_of_mem ha, hfree⟩]
    exact List.cons_ne_nil _ _
  | hsep before sep after hsep hbefore hafter =>
    rw [words_append_cons before hsep]
    rcases List.mem_append.mp ha with ha | ha
    · exact List.append_ne_nil_of_left_ne_nil (hbefore ha) _
    · rcases List.mem_cons.mp ha with rfl | ha
      · rw [hp] at hsep
        cases hsep
      · exact List.append_ne_nil_of_right_ne_nil _ (hafter ha)

theorem before_sep_inj {sep : α} {xs xs' ys ys' : List α} (hx : sep ∉ xs) (hx' : sep ∉ xs')
    (h : xs ++ sep :: ys = xs' ++ sep :: ys') : xs = xs' ∧ ys = ys' := by
  induction xs generalizing xs' with
  | nil =>
    cases xs' with
    | nil => exact ⟨rfl, (List.cons.inj h).2⟩
    | cons b bs => exact absurd (List.cons.inj h).1 (List.ne_of_not_mem_cons hx')
  | cons a as ih =>
    cases xs' with
    | nil => exact absurd (List.cons.inj h).1.symm (List.ne_of_not_mem_cons hx)
    | cons b bs =>
      simp only [List.cons_append, List.cons.injEq] at h
      simp only [List.mem_cons, not_or] at hx hx'
      obtain ⟨rfl, rfl⟩ := ih hx.2 hx'.2 h.2
      exact ⟨by rw [h.1], rfl⟩

theorem after_sep_inj {sep : α} {xs xs' ys ys' : List α} (hy : sep ∉ ys) (hy' : sep ∉ ys')
    (h : xs ++ sep :: ys = xs' ++ sep :: ys') : xs = xs' ∧ ys = ys' := by
  have hrev := congrArg List.reverse h
  simp only [List.reverse_append, List.reverse_cons, List.append_assoc, List.singleton_append]
    at hrev
  obtain ⟨hys, hxs⟩ := before_sep_inj (by simpa using hy) (by simpa using hy') hrev
  exact ⟨List.reverse_injective hxs, List.reverse_injective hys⟩

end McpGateway.Words
