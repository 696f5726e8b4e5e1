/-!
# Computations that may fail

When a sequence of fallible steps succeeds, each step did.
-/

namespace McpGateway.Outcome

@[simp] theorem bind_eq_ok {x : Except ε α} {f : α → Except ε β} :
    x >>= f = .ok b ↔ ∃ a, x = .ok a ∧ f a = .ok b := by
  cases x <;> simp [bind, Except.bind]

@[simp] theorem map_eq_ok {x : Except ε α} {f : α → β} :
    x.map f = .ok b ↔ ∃ a, x = .ok a ∧ f a = b := by
  cases x <;> simp [Except.map]

@[simp] theorem pure_eq_ok : (pure a : Except ε α) = .ok b ↔ a = b := by
  simp [pure, Except.pure]

@[simp] theorem ok_bind (a : α) (f : α → Except ε β) : (.ok a : Except ε α) >>= f = f a := rfl

@[simp] theorem error_bind (e : ε) (f : α → Except ε β) :
    (.error e : Except ε α) >>= f = .error e := rfl

theorem toOption_eq_some {x : Except ε α} : x.toOption = some a ↔ x = .ok a := by
  cases x <;> simp [Except.toOption]

@[simp] theorem mapError_eq_ok {x : Except ε α} {f : ε → ε'} : x.mapError f = .ok a ↔ x = .ok a := by
  cases x with
  | ok b => constructor <;> (rintro ⟨⟩; rfl)
  | error e => constructor <;> rintro ⟨⟩

/-- The computation returns. -/
def Returns (x : Except ε α) : Prop := ∃ a, x = .ok a

@[simp] theorem returns_ok (a : α) : Returns (.ok a : Except ε α) := ⟨a, rfl⟩

@[simp] theorem not_returns_error (e : ε) : ¬ Returns (.error e : Except ε α) := by
  rintro ⟨a, ha⟩
  cases ha

@[simp] theorem returns_map {x : Except ε α} {f : α → β} : Returns (x.map f) ↔ Returns x := by
  cases x <;> simp [Returns, Except.map]

@[simp] theorem returns_fmap {x : Except ε α} {f : α → β} : Returns (f <$> x) ↔ Returns x :=
  returns_map

def filterExcept (p : α → Except ε Bool) : List α → Except ε (List α)
  | [] => .ok []
  | x :: xs => do
    let keep ← p x
    let rest ← filterExcept p xs
    return if keep then x :: rest else rest

theorem mem_filterExcept {p : α → Except ε Bool} (h : filterExcept p xs = .ok ys) (x : α) :
    x ∈ ys ↔ x ∈ xs ∧ p x = .ok true := by
  induction xs generalizing ys with
  | nil =>
    cases h
    exact ⟨fun hx => (nomatch hx), fun hx => (nomatch hx.1)⟩
  | cons a xs ih =>
    obtain ⟨keep, hkeep, h⟩ := bind_eq_ok.mp h
    obtain ⟨rest, hrest, h⟩ := bind_eq_ok.mp h
    cases h
    cases keep with
    | true =>
      rw [if_pos rfl, List.mem_cons, List.mem_cons, ih hrest]
      constructor
      · rintro (rfl | ⟨hx, hp⟩)
        · exact ⟨.inl rfl, hkeep⟩
        · exact ⟨.inr hx, hp⟩
      · rintro ⟨rfl | hx, hp⟩
        · exact .inl rfl
        · exact .inr ⟨hx, hp⟩
    | false =>
      rw [if_neg Bool.false_ne_true, List.mem_cons, ih hrest]
      constructor
      · exact fun ⟨hx, hp⟩ => ⟨.inr hx, hp⟩
      · rintro ⟨rfl | hx, hp⟩
        · rw [hkeep] at hp
          cases hp
        · exact ⟨hx, hp⟩

theorem filterExcept_of_ok {p : α → Except ε Bool} {xs : List α} {q : α → Bool}
    (h : ∀ x ∈ xs, p x = .ok (q x)) : filterExcept p xs = .ok (xs.filter q) := by
  induction xs with
  | nil => rfl
  | cons a xs ih =>
    rw [filterExcept, h a List.mem_cons_self, ih fun x hx => h x (List.mem_cons_of_mem _ hx)]
    rw [List.filter_cons]
    rfl

def holds : Except ε Bool → Bool
  | .ok b => b
  | .error _ => false

theorem returns_iff_holds {x : Except ε Bool} : Returns x ↔ x = .ok (holds x) := by
  cases x with
  | ok b => exact ⟨fun _ => rfl, fun _ => returns_ok b⟩
  | error e =>
    constructor
    · exact fun h => absurd h (not_returns_error e)
    · rintro ⟨⟩

theorem filterExcept_eq_ok {p : α → Except ε Bool} {xs ys : List α} :
    filterExcept p xs = .ok ys ↔
      (∀ x ∈ xs, Returns (p x)) ∧ ys = xs.filter fun x => holds (p x) := by
  constructor
  · intro h
    have hall : ∀ x ∈ xs, Returns (p x) := by
      induction xs generalizing ys with
      | nil => exact fun _ hx => nomatch hx
      | cons a xs ih =>
        obtain ⟨keep, hkeep, h⟩ := bind_eq_ok.mp h
        obtain ⟨rest, hrest, -⟩ := bind_eq_ok.mp h
        intro x hx
        rcases List.mem_cons.mp hx with rfl | hx
        · exact ⟨keep, hkeep⟩
        · exact ih hrest x hx
    rw [filterExcept_of_ok fun x hx => returns_iff_holds.mp (hall x hx)] at h
    exact ⟨hall, (Except.ok.inj h).symm⟩
  · rintro ⟨hall, rfl⟩
    exact filterExcept_of_ok fun x hx => returns_iff_holds.mp (hall x hx)

theorem filterExcept_of_error {p : α → Except ε Bool} {xs : List α} {e : ε}
    (h : ∀ x, p x = .error e) (hne : xs ≠ []) : filterExcept p xs = .error e := by
  obtain ⟨x, xs, rfl⟩ := List.exists_cons_of_ne_nil hne
  rw [filterExcept, h x]
  rfl

-- ---------------------------------------------------------------------------
-- One computation for each element
-- ---------------------------------------------------------------------------

theorem mapM_ok {f : α → Except ε β} {g : α → β} {xs : List α}
    (h : ∀ x ∈ xs, f x = .ok (g x)) : xs.mapM f = .ok (xs.map g) := by
  induction xs with
  | nil => rfl
  | cons x xs ih =>
    rw [List.mapM_cons, h x List.mem_cons_self, ok_bind,
      ih fun y hy => h y (List.mem_cons_of_mem x hy), ok_bind]
    rfl

theorem mem_of_mapM {f : α → Except ε β} {xs : List α} {ys : List β} (h : xs.mapM f = .ok ys)
    {y : β} (hy : y ∈ ys) : ∃ x ∈ xs, f x = .ok y := by
  induction xs generalizing ys with
  | nil =>
    cases h
    cases hy
  | cons x xs ih =>
    rw [List.mapM_cons] at h
    obtain ⟨b, hb, h⟩ := bind_eq_ok.mp h
    obtain ⟨bs, hbs, h⟩ := bind_eq_ok.mp h
    cases h
    rcases List.mem_cons.mp hy with rfl | hy
    · exact ⟨x, List.mem_cons_self, hb⟩
    · obtain ⟨x', hx', hfx⟩ := ih hbs hy
      exact ⟨x', List.mem_cons_of_mem x hx', hfx⟩

end McpGateway.Outcome
