import Mathlib.Data.List.Basic
import Mathlib.Tactic

/-!
# Backtracking regular expressions

The fragment of ECMAScript patterns built from classes, sequence, ordered
choice, greedy repetition of a class, `\b` and `$`. A match is tried at every
position from the left; at one position `ends` lists where a match can stop,
in the order a backtracking matcher finds it. The alphabet and the class of
word characters are parameters.
-/

inductive Regex (α : Type u)
  | empty
  | one (p : α → Bool)
  | seq (first second : Regex α)
  | alt (first second : Regex α)
  | many (p : α → Bool)
  | boundary
  | finish

namespace Regex

/-- A position of a text: what stands before it, last symbol first, and what
stands after it. -/
abbrev Spot (α : Type u) := List α × List α

def many1 (p : α → Bool) : Regex α := .seq (.one p) (.many p)

/-- The symbols of a list, each compared with `same`. -/
def literal (same : α → α → Bool) : List α → Regex α
  | [] => .empty
  | c :: cs => .seq (.one (same c)) (literal same cs)

def anyOf : List (Regex α) → Regex α
  | [] => .one fun _ => false
  | [r] => r
  | r :: rs => .alt r (anyOf rs)

def repeats (p : α → Bool) : List α → List α → List (Spot α)
  | before, [] => [(before, [])]
  | before, c :: after =>
    if p c then repeats p (c :: before) after ++ [(before, c :: after)] else [(before, c :: after)]

def atBoundary (word : α → Bool) (s : Spot α) : Bool :=
  s.1.head?.any word != s.2.head?.any word

def ends (word : α → Bool) : Regex α → Spot α → List (Spot α)
  | .empty, s => [s]
  | .one p, (before, c :: after) => if p c then [(c :: before, after)] else []
  | .one _, (_, []) => []
  | .seq r t, s => (r.ends word s).flatMap (t.ends word)
  | .alt r t, s => r.ends word s ++ t.ends word s
  | .many p, (before, after) => repeats p before after
  | .boundary, s => if atBoundary word s then [s] else []
  | .finish, s => if s.2.isEmpty then [s] else []

def execFrom (word : α → Bool) (r : Regex α) : List α → List α → Option (Spot α × Spot α)
  | before, [] => (r.ends word (before, [])).head?.map ((before, []), ·)
  | before, c :: after =>
    ((r.ends word (before, c :: after)).head?.map ((before, c :: after), ·)).or
      (execFrom word r (c :: before) after)

def exec (word : α → Bool) (r : Regex α) (text : List α) : Option (Spot α × Spot α) :=
  execFrom word r [] text

def matched (m : Spot α × Spot α) : List α :=
  (m.2.1.take (m.2.1.length - m.1.1.length)).reverse

/-- `text.replace(r, '')` for a pattern without the global flag. -/
def removeFirst (word : α → Bool) (r : Regex α) (text : List α) : List α :=
  match r.exec word text with
  | some (start, stop) => start.1.reverse ++ stop.2
  | none => text

def test (word : α → Bool) (r : Regex α) (text : List α) : Bool := (r.exec word text).isSome

/-- The pieces around the matches, with `skip` symbols of the current match still
to pass over; a match of nothing does not cut. -/
def splitFrom (word : α → Bool) (r : Regex α) : Nat → List α → List α → List (List α)
  | _, _, [] => [[]]
  | skip + 1, before, c :: after => splitFrom word r skip (c :: before) after
  | 0, before, c :: after =>
    match (r.ends word (before, c :: after)).head? with
    | some stop =>
      if stop.2.length ≤ after.length then
        [] :: splitFrom word r (after.length - stop.2.length) (c :: before) after
      else (splitFrom word r 0 (c :: before) after).modifyHead (c :: ·)
    | none => (splitFrom word r 0 (c :: before) after).modifyHead (c :: ·)

/-- `text.split(r)`. -/
def split (word : α → Bool) (r : Regex α) (text : List α) : List (List α) :=
  splitFrom word r 0 [] text

-- ---------------------------------------------------------------------------
-- Where a match can stop
-- ---------------------------------------------------------------------------

section
variable {word : α → Bool}

@[simp] theorem ends_empty : (empty : Regex α).ends word s = [s] := rfl

theorem mem_if_singleton {β : Type*} {b : Bool} {x y : β} :
    x ∈ (if b then [y] else []) ↔ b = true ∧ x = y := by
  cases b <;> simp

@[simp] theorem mem_ends_one :
    e ∈ (one p).ends word (before, after) ↔
      ∃ c rest, after = c :: rest ∧ p c = true ∧ e = (c :: before, rest) := by
  cases after with
  | nil => exact ⟨fun h => (nomatch h), fun ⟨c, rest, h, _⟩ => (nomatch h)⟩
  | cons c rest =>
    refine mem_if_singleton.trans ⟨fun ⟨hc, he⟩ => ⟨c, rest, rfl, hc, he⟩, ?_⟩
    rintro ⟨_, _, hafter, hc, rfl⟩
    cases hafter
    exact ⟨hc, rfl⟩

@[simp] theorem mem_ends_seq :
    e ∈ (seq r t).ends word s ↔ ∃ m, m ∈ r.ends word s ∧ e ∈ t.ends word m :=
  List.mem_flatMap

@[simp] theorem mem_ends_alt :
    e ∈ (alt r t).ends word s ↔ e ∈ r.ends word s ∨ e ∈ t.ends word s :=
  List.mem_append

@[simp] theorem mem_ends_boundary :
    e ∈ (boundary : Regex α).ends word s ↔ atBoundary word s = true ∧ e = s :=
  mem_if_singleton

@[simp] theorem mem_ends_finish :
    e ∈ (finish : Regex α).ends word s ↔ s.2 = [] ∧ e = s :=
  mem_if_singleton.trans (and_congr_left fun _ => List.isEmpty_iff)

theorem mem_repeats :
    e ∈ repeats p before after ↔
      ∃ run, (∀ c ∈ run, p c = true) ∧ after = run ++ e.2 ∧ e.1 = run.reverse ++ before := by
  induction after generalizing before with
  | nil =>
    simp only [repeats, List.mem_singleton]
    constructor
    · rintro rfl; exact ⟨[], by simp⟩
    · rintro ⟨run, -, ha, hb⟩
      obtain ⟨rfl, h2⟩ := List.append_eq_nil_iff.mp ha.symm
      exact Prod.ext (by simpa using hb) h2
  | cons c after ih =>
    have hstop : (e = (before, c :: after)) →
        ∃ run, (∀ c ∈ run, p c = true) ∧ c :: after = run ++ e.2 ∧ e.1 = run.reverse ++ before := by
      rintro rfl; exact ⟨[], by simp⟩
    have hcut : ∀ run, c :: after = run ++ e.2 → e.1 = run.reverse ++ before →
        e = (before, c :: after) ∨ ∃ run', run = c :: run' := by
      intro run ha hb
      cases run with
      | nil => exact .inl (Prod.ext (by simpa using hb) (by simpa using ha.symm))
      | cons d run' => exact .inr ⟨run', by simp at ha; rw [ha.1]⟩
    simp only [repeats]
    split
    · rename_i hp
      simp only [List.mem_append, List.mem_singleton, ih]
      constructor
      · rintro (⟨run, hr, rfl, hb⟩ | h)
        · exact ⟨c :: run, by simpa [hp] using hr, rfl, by simpa using hb⟩
        · exact hstop h
      · rintro ⟨run, hr, ha, hb⟩
        rcases hcut run ha hb with h | ⟨run', rfl⟩
        · exact .inr h
        · refine .inl ⟨run', fun d hd => hr d (by simp [hd]), by simpa using ha, by simpa using hb⟩
    · rename_i hp
      simp only [List.mem_singleton]
      constructor
      · exact hstop
      · rintro ⟨run, hr, ha, hb⟩
        rcases hcut run ha hb with h | ⟨run', rfl⟩
        · exact h
        · exact absurd (hr c (by simp)) hp

@[simp] theorem mem_ends_many :
    e ∈ (many p).ends word (before, after) ↔
      ∃ run, (∀ c ∈ run, p c = true) ∧ after = run ++ e.2 ∧ e.1 = run.reverse ++ before :=
  mem_repeats

theorem mem_ends_literal {same : α → α → Bool} {cs : List α} :
    e ∈ (literal same cs).ends word (before, after) ↔
      ∃ run, List.Forall₂ (fun c d => same c d = true) cs run ∧ after = run ++ e.2 ∧
        e.1 = run.reverse ++ before := by
  induction cs generalizing before after with
  | nil =>
    simp only [literal, ends_empty, List.mem_singleton]
    constructor
    · rintro rfl; exact ⟨[], by simp⟩
    · rintro ⟨_, hall, ha, hb⟩
      cases hall
      exact Prod.ext (by simpa using hb) (by simpa using ha.symm)
  | cons c cs ih =>
    simp only [literal, mem_ends_seq, mem_ends_one]
    constructor
    · rintro ⟨_, ⟨d, rest, rfl, hd, rfl⟩, he⟩
      obtain ⟨run, hrun, rfl, hb⟩ := ih.mp he
      exact ⟨d :: run, .cons hd hrun, rfl, by simpa using hb⟩
    · rintro ⟨_, hall, ha, hb⟩
      cases hall with
      | cons hd hrun =>
        exact ⟨_, ⟨_, _, ha, hd, rfl⟩, ih.mpr ⟨_, hrun, rfl, by simpa using hb⟩⟩

theorem literal_ends {same : α → α → Bool} {cs : List α}
    (h : List.Forall₂ (fun c d => same c d = true) cs run) :
    (run.reverse ++ before, rest) ∈ (literal same cs).ends word (before, run ++ rest) :=
  mem_ends_literal.mpr ⟨run, h, rfl, rfl⟩

theorem many1_ends (hne : run ≠ []) (h : ∀ c ∈ run, p c = true) :
    (run.reverse ++ before, rest) ∈ (many1 p).ends word (before, run ++ rest) := by
  obtain ⟨c, run, rfl⟩ := List.exists_cons_of_ne_nil hne
  simp only [many1, mem_ends_seq, mem_ends_one]
  refine ⟨_, ⟨c, run ++ rest, rfl, h c (.head _), rfl⟩, ?_⟩
  exact mem_ends_many.mpr ⟨run, fun d hd => h d (.tail _ hd), rfl, by simp⟩

theorem mem_ends_anyOf {rs : List (Regex α)} (hr : r ∈ rs) (he : e ∈ r.ends word s) :
    e ∈ (anyOf rs).ends word s := by
  induction rs with
  | nil => cases hr
  | cons t ts ih =>
    cases ts with
    | nil =>
      obtain rfl : r = t := by simpa using hr
      exact he
    | cons u us =>
      simp only [anyOf, mem_ends_alt]
      rcases List.mem_cons.mp hr with rfl | h
      · exact .inl he
      · exact .inr (ih h)

-- ---------------------------------------------------------------------------
-- The search from the left
-- ---------------------------------------------------------------------------

theorem execFrom_none (h : execFrom word r before after = none) :
    ∀ b a, b.reverse ++ a = after → r.ends word (b ++ before, a) = [] := by
  induction after generalizing before with
  | nil =>
    intro b a hba
    obtain ⟨hb, rfl⟩ := List.append_eq_nil_iff.mp hba
    obtain rfl := List.reverse_eq_nil_iff.mp hb
    simpa [execFrom] using h
  | cons c after ih =>
    intro b a hba
    simp only [execFrom, Option.or_eq_none_iff, Option.map_eq_none_iff, List.head?_eq_none_iff] at h
    rcases List.eq_nil_or_concat b with rfl | ⟨b', d, rfl⟩
    · obtain rfl : a = c :: after := by simpa using hba
      simpa using h.1
    · simp only [List.concat_eq_append, List.reverse_append, List.reverse_cons, List.reverse_nil,
        List.nil_append, List.cons_append, List.cons.injEq] at hba
      obtain ⟨rfl, hrest⟩ := hba
      simpa using ih h.2 b' a hrest

/-- A match that is found is one of the pattern's, at a position of the text. -/
theorem exec_some {r : Regex α} (h : r.exec word text = some (start, stop)) :
    start.1.reverse ++ start.2 = text ∧ stop ∈ r.ends word start := by
  suffices ∀ before after, execFrom word r before after = some (start, stop) →
      start.1.reverse ++ start.2 = before.reverse ++ after ∧ stop ∈ r.ends word start from
    this [] text h
  intro before after
  induction after generalizing before with
  | nil =>
    intro h
    obtain ⟨e, he, hse⟩ := Option.map_eq_some_iff.mp h
    cases hse
    exact ⟨rfl, List.mem_of_head? he⟩
  | cons c after ih =>
    intro h
    rcases Option.or_eq_some_iff.mp h with h | ⟨-, h⟩
    · obtain ⟨e, he, hse⟩ := Option.map_eq_some_iff.mp h
      cases hse
      exact ⟨rfl, List.mem_of_head? he⟩
    · simpa using ih (c :: before) h

/-- A match covers what is between the position it starts at and the one it stops at. -/
theorem ends_run {r : Regex α} {s e : Spot α} (h : e ∈ r.ends word s) :
    ∃ run, s.2 = run ++ e.2 ∧ e.1 = run.reverse ++ s.1 := by
  induction r generalizing s e with
  | empty =>
    rw [ends_empty, List.mem_singleton] at h
    subst h
    exact ⟨[], rfl, rfl⟩
  | one p =>
    obtain ⟨c, rest, hafter, -, rfl⟩ := mem_ends_one.mp h
    exact ⟨[c], hafter, rfl⟩
  | seq r t ihr iht =>
    obtain ⟨m, hm, he⟩ := mem_ends_seq.mp h
    obtain ⟨run, hrun, hbefore⟩ := ihr hm
    obtain ⟨run', hrun', hbefore'⟩ := iht he
    refine ⟨run ++ run', ?_, ?_⟩
    · rw [hrun, hrun', List.append_assoc]
    · rw [hbefore', hbefore, List.reverse_append, List.append_assoc]
  | alt r t ihr iht =>
    rcases mem_ends_alt.mp h with h | h
    · exact ihr h
    · exact iht h
  | many p =>
    obtain ⟨run, -, hafter, hbefore⟩ := mem_ends_many.mp h
    exact ⟨run, hafter, hbefore⟩
  | boundary =>
    obtain ⟨-, rfl⟩ := mem_ends_boundary.mp h
    exact ⟨[], rfl, rfl⟩
  | finish =>
    obtain ⟨-, rfl⟩ := mem_ends_finish.mp h
    exact ⟨[], rfl, rfl⟩

def Over (P : α → Prop) : Regex α → Prop
  | .one p | .many p => ∀ c, p c = true → P c
  | .seq r t | .alt r t => r.Over P ∧ t.Over P
  | .empty | .boundary | .finish => True

theorem over_literal {P : α → Prop} {same : α → α → Bool} {cs : List α}
    (h : ∀ c ∈ cs, ∀ d, same c d = true → P d) : (literal same cs).Over P := by
  induction cs with
  | nil => trivial
  | cons c cs ih =>
    exact ⟨h c List.mem_cons_self, ih fun d hd => h d (List.mem_cons_of_mem c hd)⟩

theorem ends_over {P : α → Prop} {r : Regex α} {s e : Spot α} (hr : r.Over P)
    (h : e ∈ r.ends word s) : ∃ run, s.2 = run ++ e.2 ∧ ∀ c ∈ run, P c := by
  induction r generalizing s e with
  | empty =>
    rw [ends_empty, List.mem_singleton] at h
    subst h
    exact ⟨[], rfl, List.forall_mem_nil P⟩
  | one p =>
    obtain ⟨c, rest, hafter, hc, rfl⟩ := mem_ends_one.mp h
    exact ⟨[c], hafter, List.forall_mem_singleton.mpr (hr c hc)⟩
  | seq r t ihr iht =>
    obtain ⟨m, hm, he⟩ := mem_ends_seq.mp h
    obtain ⟨run, hrun, hall⟩ := ihr hr.1 hm
    obtain ⟨run', hrun', hall'⟩ := iht hr.2 he
    refine ⟨run ++ run', ?_, List.forall_mem_append.mpr ⟨hall, hall'⟩⟩
    rw [hrun, hrun', List.append_assoc]
  | alt r t ihr iht =>
    rcases mem_ends_alt.mp h with h | h
    · exact ihr hr.1 h
    · exact iht hr.2 h
  | many p =>
    obtain ⟨run, hall, hafter, -⟩ := mem_ends_many.mp h
    exact ⟨run, hafter, fun c hc => hr c (hall c hc)⟩
  | boundary =>
    obtain ⟨-, rfl⟩ := mem_ends_boundary.mp h
    exact ⟨[], rfl, List.forall_mem_nil P⟩
  | finish =>
    obtain ⟨-, rfl⟩ := mem_ends_finish.mp h
    exact ⟨[], rfl, List.forall_mem_nil P⟩

theorem matched_run {s e : Spot α} {run : List α} (h : e.1 = run.reverse ++ s.1) :
    matched (s, e) = run := by
  simp [matched, h]

theorem exec_none {r : Regex α} {b : List α} (h : r.exec word text = none)
    (hs : b.reverse ++ a = text) :
    r.ends word (b, a) = [] := by
  simpa using execFrom_none h b a hs

theorem test_of_ends {r : Regex α} {b : List α} {e : Spot α} (he : e ∈ r.ends word (b, a))
    (hs : b.reverse ++ a = text) : r.test word text = true := by
  unfold test
  cases hexec : r.exec word text with
  | none =>
    rw [exec_none hexec hs] at he
    cases he
  | some m => rfl

-- ---------------------------------------------------------------------------
-- The stop a backtracking matcher finds first
-- ---------------------------------------------------------------------------

theorem head?_flatMap {β γ : Type*} {xs : List β} {f : β → List γ} {m : β} {e : γ}
    (h : xs.head? = some m) (h' : (f m).head? = some e) : (xs.flatMap f).head? = some e := by
  cases xs with
  | nil => cases h
  | cons x xs =>
    cases h
    rw [List.flatMap_cons, List.head?_append, h']
    rfl

def First (word : α → Bool) (r : Regex α) (s e : Spot α) : Prop := (r.ends word s).head? = some e

theorem First.seq {r t : Regex α} (h : First word r s m) (h' : First word t m e) :
    First word (.seq r t) s e :=
  head?_flatMap h h'

theorem First.alt_left {r t : Regex α} (h : First word r s e) : First word (.alt r t) s e := by
  show (r.ends word s ++ t.ends word s).head? = some e
  unfold First at h
  rw [List.head?_append, h]
  rfl

theorem First.alt_right {r t : Regex α} (hr : r.ends word s = []) (h : First word t s e) :
    First word (.alt r t) s e := by
  show (r.ends word s ++ t.ends word s).head? = some e
  rw [hr, List.nil_append]
  exact h

theorem head?_if {β : Type*} {b : Bool} {x : β} (h : b = true) :
    (if b then [x] else []).head? = some x := by
  rw [if_pos h]
  rfl

theorem first_one {p : α → Bool} {c : α} (h : p c = true) :
    First word (.one p) (before, c :: after) (c :: before, after) :=
  head?_if h

theorem first_boundary (h : atBoundary word s = true) : First word .boundary s s :=
  head?_if h

theorem first_finish : First word .finish (before, []) (before, []) := rfl

def StopsAt (p : α → Bool) (rest : List α) : Prop := ∀ c ∈ rest.head?, p c = false

theorem first_many {p : α → Bool} {run rest : List α} (hrun : ∀ c ∈ run, p c = true)
    (hrest : StopsAt p rest) :
    First word (.many p) (before, run ++ rest) (run.reverse ++ before, rest) := by
  show (repeats p before (run ++ rest)).head? = some (run.reverse ++ before, rest)
  induction run generalizing before with
  | nil =>
    cases rest with
    | nil => rfl
    | cons c rest =>
      have hc : p c = false := hrest c rfl
      simp [repeats, hc]
  | cons c run ih =>
    have hc : p c = true := hrun c List.mem_cons_self
    have hlater : (repeats p (c :: before) (run ++ rest)).head? =
        some (run.reverse ++ c :: before, rest) :=
      ih fun d hd => hrun d (List.mem_cons_of_mem c hd)
    rw [List.cons_append, repeats, if_pos hc, List.head?_append, hlater]
    simp

theorem first_many1 {p : α → Bool} {run rest : List α} (hne : run ≠ [])
    (hrun : ∀ c ∈ run, p c = true) (hrest : StopsAt p rest) :
    First word (many1 p) (before, run ++ rest) (run.reverse ++ before, rest) := by
  obtain ⟨c, run, rfl⟩ := List.exists_cons_of_ne_nil hne
  have hmany : First word (.many p) (c :: before, run ++ rest) (run.reverse ++ c :: before, rest) :=
    first_many (fun d hd => hrun d (List.mem_cons_of_mem c hd)) hrest
  rw [List.reverse_cons, List.append_assoc, List.singleton_append]
  exact First.seq (first_one (hrun c List.mem_cons_self)) hmany

theorem first_literal {same : α → α → Bool} {cs run : List α}
    (h : List.Forall₂ (fun c d => same c d = true) cs run) (before rest : List α) :
    First word (literal same cs) (before, run ++ rest) (run.reverse ++ before, rest) := by
  induction h generalizing before with
  | nil => rfl
  | @cons c d cs run hcd hrun ih =>
    have hlater := ih (d :: before)
    rw [List.reverse_cons, List.append_assoc, List.singleton_append]
    exact First.seq (first_one hcd) hlater

theorem first_anyOf {rs ts : List (Regex α)} {r : Regex α} (hrs : ∀ q ∈ rs, q.ends word s = [])
    (h : First word r s e) : First word (anyOf (rs ++ r :: ts)) s e := by
  induction rs with
  | nil =>
    cases ts with
    | nil => exact h
    | cons t ts => exact First.alt_left h
  | cons q rs ih =>
    have hlater := ih fun q' hq' => hrs q' (List.mem_cons_of_mem q hq')
    obtain ⟨t, us, htail⟩ : ∃ t us, rs ++ r :: ts = t :: us := by
      cases rs with
      | nil => exact ⟨r, ts, rfl⟩
      | cons t rs => exact ⟨t, rs ++ r :: ts, rfl⟩
    rw [htail] at hlater
    rw [List.cons_append, htail]
    exact First.alt_right (hrs q List.mem_cons_self) hlater

theorem seq_ends_nil {r t : Regex α} (h : r.ends word s = []) : (seq r t).ends word s = [] := by
  show (r.ends word s).flatMap (t.ends word) = []
  rw [h]
  rfl

theorem one_ends_nil {p : α → Bool} (h : StopsAt p after) : (one p).ends word (before, after) = [] := by
  cases after with
  | nil => rfl
  | cons c after =>
    have hc : p c = false := h c rfl
    exact if_neg (Bool.eq_false_iff.mp hc)

-- ---------------------------------------------------------------------------
-- The pieces between the matches
-- ---------------------------------------------------------------------------

def Unbroken (word : α → Bool) (r : Regex α) (before piece after : List α) : Prop :=
  ∀ run rest, piece = run ++ rest → rest ≠ [] →
    r.ends word (run.reverse ++ before, rest ++ after) = []

theorem Unbroken.head {r : Regex α} {c : α} {piece : List α}
    (h : Unbroken word r before (c :: piece) after) :
    r.ends word (before, c :: (piece ++ after)) = [] :=
  h [] (c :: piece) rfl (List.cons_ne_nil c piece)

theorem Unbroken.tail {r : Regex α} {c : α} {piece : List α}
    (h : Unbroken word r before (c :: piece) after) : Unbroken word r (c :: before) piece after := by
  intro run rest hpiece hne
  have hends := h (c :: run) rest (by rw [hpiece, List.cons_append]) hne
  rwa [List.reverse_cons, List.append_assoc] at hends

theorem unbroken_cons {r : Regex α} {c : α} {piece : List α}
    (hhead : r.ends word (before, c :: (piece ++ after)) = [])
    (htail : Unbroken word r (c :: before) piece after) :
    Unbroken word r before (c :: piece) after := by
  intro run rest hpiece hne
  cases run with
  | nil =>
    obtain rfl : c :: piece = rest := hpiece
    exact hhead
  | cons d run =>
    obtain ⟨rfl, hrest⟩ := List.cons.inj hpiece
    rw [List.reverse_cons, List.append_assoc]
    exact htail run rest hrest hne

theorem splitFrom_skip {r : Regex α} (run rest : List α) :
    splitFrom word r run.length before (run ++ rest) =
      splitFrom word r 0 (run.reverse ++ before) rest := by
  induction run generalizing before with
  | nil => rfl
  | cons c run ih =>
    rw [List.cons_append, List.length_cons, splitFrom, ih, List.reverse_cons, List.append_assoc]
    rfl

theorem splitFrom_unbroken {r : Regex α} {text : List α} (h : Unbroken word r before text []) :
    splitFrom word r 0 before text = [text] := by
  induction text generalizing before with
  | nil => rfl
  | cons c text ih =>
    have hhead := h.head
    rw [List.append_nil] at hhead
    rw [splitFrom, hhead, List.head?_nil]
    dsimp only
    rw [ih h.tail]
    rfl

/-- What stands before the first match is a piece, and the others are cut from what follows it. -/
theorem splitFrom_cut {r : Regex α} {piece m rest : List α} (hne : m ≠ [])
    (h : Unbroken word r before piece (m ++ rest))
    (hm : First word r (piece.reverse ++ before, m ++ rest)
      (m.reverse ++ (piece.reverse ++ before), rest)) :
    splitFrom word r 0 before (piece ++ (m ++ rest)) =
      piece :: splitFrom word r 0 (m.reverse ++ (piece.reverse ++ before)) rest := by
  induction piece generalizing before with
  | nil =>
    obtain ⟨c, m, rfl⟩ := List.exists_cons_of_ne_nil hne
    unfold First at hm
    rw [List.nil_append, List.cons_append, splitFrom]
    rw [List.reverse_nil, List.nil_append, List.cons_append] at hm
    rw [hm]
    dsimp only
    have hlength : (m ++ rest).length - rest.length = m.length := by
      rw [List.length_append, Nat.add_sub_cancel]
    rw [if_pos (by rw [List.length_append]; exact Nat.le_add_left _ _), hlength, splitFrom_skip,
      List.reverse_nil, List.nil_append, List.reverse_cons, List.append_assoc]
    rfl
  | cons c piece ih =>
    rw [List.cons_append, splitFrom, h.head, List.head?_nil]
    dsimp only
    rw [List.reverse_cons, List.append_assoc, List.singleton_append] at hm ⊢
    rw [ih h.tail hm]
    rfl

theorem splitFrom_pieces {r : Regex α} {text : List α}
    (hr : ∀ s, ∀ e ∈ r.ends word s, e.2.length < s.2.length) (skip : Nat) :
    (∀ piece ∈ splitFrom word r skip before text,
      piece <:+: text ∧ ∃ b a, Unbroken word r b piece a) ∧
    (skip = 0 → ∃ piece pieces a, splitFrom word r skip before text = piece :: pieces ∧
      text = piece ++ a ∧ Unbroken word r before piece a) := by
  have hnil (b a : List α) : Unbroken word r b [] a := by
    intro run rest hnil hne
    exact absurd (List.append_eq_nil_iff.mp hnil.symm).2 hne
  induction text generalizing before skip with
  | nil =>
    rw [splitFrom]
    refine ⟨fun piece hpiece => ?_, fun _ => ⟨[], [], [], rfl, rfl, hnil _ _⟩⟩
    obtain rfl := List.mem_singleton.mp hpiece
    exact ⟨List.infix_rfl, [], [], hnil _ _⟩
  | cons c text ih =>
    cases skip with
    | succ skip =>
      rw [splitFrom]
      refine ⟨fun piece hpiece => ?_, fun h => nomatch h⟩
      obtain ⟨hsub, hpiece⟩ := (@ih (c :: before) skip).1 piece hpiece
      exact ⟨List.infix_cons hsub, hpiece⟩
    | zero =>
      cases hends : r.ends word (before, c :: text) with
      | nil =>
        rw [splitFrom, hends, List.head?_nil]
        dsimp only
        obtain ⟨hall, hhead⟩ := @ih (c :: before) 0
        obtain ⟨piece, pieces, a, hsplit, rfl, hpiece⟩ := hhead rfl
        rw [hsplit] at hall ⊢
        have hgrown : Unbroken word r before (c :: piece) a := unbroken_cons hends hpiece
        refine ⟨fun q hq => ?_, fun _ => ⟨c :: piece, pieces, a, rfl, rfl, hgrown⟩⟩
        rcases List.mem_cons.mp hq with rfl | hq
        · exact ⟨(List.prefix_append (c :: piece) a).isInfix, before, a, hgrown⟩
        · obtain ⟨hsub, hq⟩ := hall q (List.mem_cons_of_mem piece hq)
          exact ⟨List.infix_cons hsub, hq⟩
      | cons e es =>
        have hlt := hr _ e (by rw [hends]; exact List.mem_cons_self)
        have hle : e.2.length ≤ text.length := Nat.le_of_lt_succ hlt
        rw [splitFrom, hends, List.head?_cons]
        dsimp only
        rw [if_pos hle]
        refine ⟨fun q hq => ?_, fun _ => ⟨[], _, c :: text, rfl, rfl, hnil _ _⟩⟩
        rcases List.mem_cons.mp hq with rfl | hq
        · exact ⟨List.nil_infix, [], [], hnil _ _⟩
        · obtain ⟨hsub, hq⟩ := (@ih (c :: before) _).1 q hq
          exact ⟨List.infix_cons hsub, hq⟩

end

end Regex
