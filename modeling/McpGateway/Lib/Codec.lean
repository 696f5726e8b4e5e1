import Mathlib.Data.List.Basic

/-!
# Texts that read back

A code writes a value as a list of symbols. It reads back when the text of a
value, followed by anything the context allows, can be cut in one way only: the
value and what follows it are determined. The rules below build such codes from
smaller ones: a class of symbols, a decoder, a pair, a list with a separator and
a closing symbol.
-/

namespace McpGateway.Codec

/-- The text of `a` stands at the front of a text for no other admissible value,
and it ends at one place, whenever `ends` holds of what follows it. -/
def ReadsBack (ok : α → Prop) (code : α → List σ) (ends : List σ → Prop) (a : α) : Prop :=
  ∀ b x y, ok b → ends x → ends y → code a ++ x = code b ++ y → a = b ∧ x = y

def Always (_ : List σ) : Prop := True

/-- What follows does not start in the class `p`. -/
def Outside (p : σ → Bool) (x : List σ) : Prop := ∀ c ∈ x.head?, p c = false

@[simp] theorem outside_nil (p : σ → Bool) : Outside p [] := by simp [Outside]

@[simp] theorem outside_cons : Outside p (c :: x) ↔ p c = false := by simp [Outside]

section
variable {ok : α → Prop} {code : α → List σ} {ends : List σ → Prop} {a : α}

theorem ReadsBack.eq (h : ReadsBack ok code ends a) (hb : ok b) (hnil : ends [])
    (he : code a = code b) : a = b :=
  (h b [] [] hb hnil hnil (by simpa using he)).1

/-- A text that goes on with a fixed tail: what follows the value is the tail. -/
theorem ReadsBack.closed (tail : List σ) (h : ReadsBack ok code ends a)
    (htail : ∀ x, ends (tail ++ x)) : ReadsBack ok (fun v => code v ++ tail) Always a := by
  intro b x y hb _ _ he
  rw [List.append_assoc, List.append_assoc] at he
  obtain ⟨rfl, hxy⟩ := h b _ _ hb (htail x) (htail y) he
  exact ⟨rfl, List.append_cancel_left hxy⟩

theorem ReadsBack.pair {ok' : β → Prop} {code' : β → List σ} {ends' : List σ → Prop} {b : β}
    (h : ReadsBack ok code ends a) (h' : ReadsBack ok' code' ends' b)
    (hends : ∀ v x, ok' v → ends' x → ends (code' v ++ x)) (hb : ok' b) :
    ReadsBack (fun p : α × β => ok p.1 ∧ ok' p.2) (fun p => code p.1 ++ code' p.2) ends' (a, b) := by
  rintro ⟨c, d⟩ x y ⟨hc, hd⟩ hx hy he
  simp only [List.append_assoc] at he
  obtain ⟨rfl, htail⟩ := h c _ _ hc (hends b x hb hx) (hends d y hd hy) he
  obtain ⟨rfl, rfl⟩ := h' d x y hd hx hy htail
  exact ⟨rfl, rfl⟩

theorem ReadsBack.of_decoder (decode : List σ → Option (α × List σ))
    (h : ∀ v x, ok v → decode (code v ++ x) = some (v, x)) (ha : ok a) :
    ReadsBack ok code Always a := by
  intro b x y hb _ _ he
  have hd : some (a, x) = some (b, y) := by rw [← h a x ha, he, h b y hb]
  simpa using hd

end

theorem takeWhile_append_outside {p : σ → Bool} {s : List σ} (hs : ∀ c ∈ s, p c = true)
    (hx : Outside p x) : (s ++ x).takeWhile p = s := by
  rw [List.takeWhile_append_of_pos hs]
  cases x with
  | nil => simp
  | cons c x => simp [outside_cons.mp hx]

theorem ReadsBack.of_class (p : σ → Bool) {ok : α → Prop} {code : α → List σ}
    (hunits : ∀ v, ok v → ∀ c ∈ code v, p c = true)
    (hinj : ∀ v w, ok v → ok w → code v = code w → v = w) (ha : ok a) :
    ReadsBack ok code (Outside p) a := by
  intro b x y hb hx hy he
  have hcode : code a = code b := by
    rw [← takeWhile_append_outside (hunits a ha) hx, he,
      takeWhile_append_outside (hunits b hb) hy]
  rw [hcode] at he
  exact ⟨hinj a b ha hb hcode, List.append_cancel_left he⟩

-- ---------------------------------------------------------------------------
-- Lists
-- ---------------------------------------------------------------------------

/-- What follows the first element of a list: each further one after the
separator, then the closing symbol. -/
def remainder (sep close : σ) (code : α → List σ) : List α → List σ
  | [] => [close]
  | a :: as => sep :: code a ++ remainder sep close code as

def separated (sep close : σ) (code : α → List σ) : List α → List σ
  | [] => [close]
  | a :: as => code a ++ remainder sep close code as

section
variable {sep close : σ} {ok : α → Prop} {code : α → List σ} {ends : List σ → Prop}

theorem ends_remainder (hsep : ∀ x, ends (sep :: x)) (hclose : ∀ x, ends (close :: x))
    (as : List α) (x : List σ) : ends (remainder sep close code as ++ x) := by
  cases as with
  | nil => exact hclose x
  | cons a as => exact hsep _

theorem ReadsBack.remainder {as : List α} (hsep : ∀ x, ends (sep :: x))
    (hclose : ∀ x, ends (close :: x)) (hne : sep ≠ close)
    (has : ∀ v ∈ as, ReadsBack ok code ends v) :
    ReadsBack (fun vs => ∀ v ∈ vs, ok v) (Codec.remainder sep close code) Always as := by
  intro bs x y hbs _ _ he
  induction as generalizing bs with
  | nil =>
    cases bs with
    | nil => exact ⟨rfl, by simpa [Codec.remainder] using he⟩
    | cons b bs => exact absurd (List.cons.inj he).1.symm hne
  | cons a as ih =>
    cases bs with
    | nil => exact absurd (List.cons.inj he).1 hne
    | cons b bs =>
      simp only [Codec.remainder, List.cons_append, List.append_assoc] at he
      obtain ⟨rfl, htail⟩ := has a (by simp) b _ _ (hbs b (by simp))
        (ends_remainder hsep hclose as x) (ends_remainder hsep hclose bs y) (List.cons.inj he).2
      obtain ⟨rfl, rfl⟩ := ih (fun v hv => has v (by simp [hv])) bs
        (fun v hv => hbs v (by simp [hv])) htail
      exact ⟨rfl, rfl⟩

/-- A list reads back when its elements do: an element never starts with the
closing symbol, and the symbol after it tells whether the list goes on. -/
theorem ReadsBack.separated (sep close : σ) {as : List α} (hsep : ∀ x, ends (sep :: x))
    (hclose : ∀ x, ends (close :: x)) (hne : sep ≠ close)
    (hhead : ∀ v, ok v → ∃ c s, code v = c :: s ∧ c ≠ close) (hok : ∀ v ∈ as, ok v)
    (has : ∀ v ∈ as, ReadsBack ok code ends v) :
    ReadsBack (fun vs => ∀ v ∈ vs, ok v) (Codec.separated sep close code) Always as := by
  intro bs x y hbs _ _ he
  cases as with
  | nil =>
    cases bs with
    | nil => exact ⟨rfl, by simpa [Codec.separated] using he⟩
    | cons b bs =>
      obtain ⟨c, s, hc, hne'⟩ := hhead b (hbs b (by simp))
      simp only [Codec.separated, hc] at he
      exact absurd (List.cons.inj he).1.symm hne'
  | cons a as =>
    cases bs with
    | nil =>
      obtain ⟨c, s, hc, hne'⟩ := hhead a (hok a (by simp))
      simp only [Codec.separated, hc] at he
      exact absurd (List.cons.inj he).1 hne'
    | cons b bs =>
      simp only [Codec.separated, List.append_assoc] at he
      obtain ⟨rfl, htail⟩ := has a (by simp) b _ _ (hbs b (by simp))
        (ends_remainder hsep hclose as x) (ends_remainder hsep hclose bs y) he
      obtain ⟨rfl, rfl⟩ := ReadsBack.remainder hsep hclose hne
        (fun v hv => has v (by simp [hv])) bs x y (fun v hv => hbs v (by simp [hv]))
        trivial trivial htail
      exact ⟨rfl, rfl⟩

end

end McpGateway.Codec
