import McpGateway.Shared.Canonical

/-!
# Object graphs

What `canonicalize` is given are references into a heap, where one object can be
the value of several properties and of its own. A heap here has `n` arrays and
plain objects, and no reference leads out of it. A graph without cycles is
unfolded to a tree, a shared object once for each way to it.
-/

namespace McpGateway.Shared

open Js

/-- A value with references into a heap of `n` objects. -/
inductive Value (n : Nat)
  | undefined
  | null
  | boolean (b : Bool)
  | number (x : JsNumber)
  | bigint (x : ℤ)
  | string (s : JsString)
  | ref (r : Fin n)

/-- An array without holes, or the own enumerable properties of a plain object. -/
inductive HeapObject (n : Nat)
  | array (items : List (Value n))
  | object (props : List (JsString × Value n))

def HeapObject.values {n : Nat} : HeapObject n → List (Value n)
  | .array items => items
  | .object props => props.map Prod.snd

structure Heap (n : Nat) where
  read : Fin n → HeapObject n

-- ---------------------------------------------------------------------------
-- Reachable values
-- ---------------------------------------------------------------------------

section
variable {n : Nat} (heap : Heap n)

inductive Reachable (root : Value n) : Value n → Prop
  | root : Reachable root root
  | step (r : Fin n) (v : Value n) (hr : Reachable root (.ref r)) (hv : v ∈ (heap.read r).values) :
      Reachable root v

def OnCycle (r : Fin n) : Prop := ∃ v ∈ (heap.read r).values, Reachable heap v (.ref r)

def CycleReachable (root : Value n) : Prop :=
  ∃ r, Reachable heap root (.ref r) ∧ OnCycle heap r

def NonFiniteReachable (root : Value n) : Prop :=
  ∃ x : JsNumber, Reachable heap root (.number x) ∧ x.isFinite = false

/-- The tree is what the value unfolds to. -/
def Unfolds : CanonicalValue → Value n → Prop
  | .undefined, v => v = .undefined
  | .null, v => v = .null
  | .boolean b, v => v = .boolean b
  | .number x, v => v = .number x
  | .bigint x, v => v = .bigint x
  | .string s, v => v = .string s
  | .date _, _ => False
  | .array trees, v => ∃ r items, v = .ref r ∧ heap.read r = .array items ∧ UnfoldsAll trees items
  | .object trees, v =>
    ∃ r props, v = .ref r ∧ heap.read r = .object props ∧ UnfoldsProps trees props
where
  UnfoldsAll : List CanonicalValue → List (Value n) → Prop
    | [], vs => vs = []
    | t :: ts, vs => ∃ w ws, vs = w :: ws ∧ Unfolds t w ∧ UnfoldsAll ts ws
  UnfoldsProps : List (JsString × CanonicalValue) → List (JsString × Value n) → Prop
    | [], ps => ps = []
    | (key, t) :: ts, ps =>
      ∃ w ws, ps = (key, w) :: ws ∧ Unfolds t w ∧ UnfoldsProps ts ws

end

section
variable {n : Nat} {heap : Heap n} {root v w : Value n} {r : Fin n}

theorem Reachable.cases_head (h : Reachable heap root w) :
    w = root ∨ ∃ r v, root = .ref r ∧ v ∈ (heap.read r).values ∧ Reachable heap v w := by
  induction h with
  | root => exact .inl rfl
  | step r v hr hv ih =>
    right
    obtain heq | ⟨q, u, hroot, hu, hrest⟩ := ih
    · exact ⟨r, v, heq.symm, hv, .root⟩
    · exact ⟨q, u, hroot, hu, .step r v hrest hv⟩

theorem Reachable.prepend (hv : v ∈ (heap.read r).values) (h : Reachable heap v w) :
    Reachable heap (.ref r) w := by
  induction h with
  | root => exact .step r v .root hv
  | step q u _ hu ih => exact .step q u ih hu

-- ---------------------------------------------------------------------------
-- One unfolding
-- ---------------------------------------------------------------------------

theorem unfolds_array {trees : List CanonicalValue} {items : List (Value n)}
    (hread : heap.read r = .array items) :
    Unfolds heap (.array trees) (.ref r) ↔ Unfolds.UnfoldsAll heap trees items := by
  constructor
  · rintro ⟨q, items', hq, hread', hall⟩
    cases hq
    cases hread.symm.trans hread'
    exact hall
  · exact fun hall => ⟨r, items, rfl, hread, hall⟩

theorem unfolds_object {trees : List (JsString × CanonicalValue)}
    {props : List (JsString × Value n)} (hread : heap.read r = .object props) :
    Unfolds heap (.object trees) (.ref r) ↔ Unfolds.UnfoldsProps heap trees props := by
  constructor
  · rintro ⟨q, props', hq, hread', hall⟩
    cases hq
    cases hread.symm.trans hread'
    exact hall
  · exact fun hall => ⟨r, props, rfl, hread, hall⟩

theorem unfolds_ref {t : CanonicalValue} (h : Unfolds heap t (.ref r)) :
    (∃ trees, t = .array trees) ∨ ∃ trees, t = .object trees := by
  cases t with
  | array trees => exact .inl ⟨trees, rfl⟩
  | object trees => exact .inr ⟨trees, rfl⟩
  | date d => cases h
  | _ => cases h

mutual

theorem unfolds_unique : ∀ (t : CanonicalValue) (v : Value n), Unfolds heap t v →
    ∀ t', Unfolds heap t' v → t = t'
  | .undefined, v, h, t', h' | .null, v, h, t', h' | .boolean _, v, h, t', h'
  | .number _, v, h, t', h' | .bigint _, v, h, t', h' | .string _, v, h, t', h' => by
    cases h
    cases t' <;> simp_all [Unfolds]
  | .date _, _, h, _, _ => h.elim
  | .array trees, v, h, t', h' => by
    obtain ⟨r, items, rfl, hread, hall⟩ := h
    rcases unfolds_ref h' with ⟨trees', rfl⟩ | ⟨trees', rfl⟩
    · rw [unfoldsAll_unique trees items hall trees' ((unfolds_array hread).mp h')]
    · obtain ⟨q, props, hq, hread', -⟩ := h'
      cases hq
      cases hread.symm.trans hread'
  | .object trees, v, h, t', h' => by
    obtain ⟨r, props, rfl, hread, hall⟩ := h
    rcases unfolds_ref h' with ⟨trees', rfl⟩ | ⟨trees', rfl⟩
    · obtain ⟨q, items, hq, hread', -⟩ := h'
      cases hq
      cases hread.symm.trans hread'
    · rw [unfoldsProps_unique trees props hall trees' ((unfolds_object hread).mp h')]

theorem unfoldsAll_unique : ∀ (ts : List CanonicalValue) (vs : List (Value n)),
    Unfolds.UnfoldsAll heap ts vs → ∀ ts', Unfolds.UnfoldsAll heap ts' vs → ts = ts'
  | [], vs, h, ts', h' => by
    cases h
    cases ts' with
    | nil => rfl
    | cons t' ts' =>
      obtain ⟨w, ws, heq, -⟩ := h'
      cases heq
  | t :: ts, vs, h, ts', h' => by
    obtain ⟨w, ws, rfl, hhead, htail⟩ := h
    cases ts' with
    | nil => cases h'
    | cons t' ts' =>
      obtain ⟨w', ws', heq, hhead', htail'⟩ := h'
      cases heq
      rw [unfolds_unique t w hhead t' hhead', unfoldsAll_unique ts ws htail ts' htail']

theorem unfoldsProps_unique : ∀ (ts : List (JsString × CanonicalValue))
    (ps : List (JsString × Value n)), Unfolds.UnfoldsProps heap ts ps →
    ∀ ts', Unfolds.UnfoldsProps heap ts' ps → ts = ts'
  | [], ps, h, ts', h' => by
    cases h
    cases ts' with
    | nil => rfl
    | cons t' ts' =>
      obtain ⟨w, ws, heq, -⟩ := h'
      cases heq
  | (key, t) :: ts, ps, h, ts', h' => by
    obtain ⟨w, ws, rfl, hhead, htail⟩ := h
    cases ts' with
    | nil => cases h'
    | cons t' ts' =>
      obtain ⟨w', ws', heq, hhead', htail'⟩ := h'
      cases heq
      rw [unfolds_unique t w hhead t'.2 hhead', unfoldsProps_unique ts ws htail ts' htail']

end

theorem unfoldsAll_map {vs : List (Value n)} {tree : Value n → CanonicalValue}
    (h : ∀ v ∈ vs, Unfolds heap (tree v) v) : Unfolds.UnfoldsAll heap (vs.map tree) vs := by
  induction vs with
  | nil => rfl
  | cons v vs ih =>
    obtain ⟨hv, hvs⟩ := List.forall_mem_cons.mp h
    exact ⟨v, vs, rfl, hv, ih hvs⟩

theorem unfoldsProps_map {ps : List (JsString × Value n)} {tree : Value n → CanonicalValue}
    (h : ∀ p ∈ ps, Unfolds heap (tree p.2) p.2) :
    Unfolds.UnfoldsProps heap (ps.map fun p => (p.1, tree p.2)) ps := by
  induction ps with
  | nil => rfl
  | cons p ps ih =>
    obtain ⟨hp, hps⟩ := List.forall_mem_cons.mp h
    exact ⟨p.2, ps, rfl, hp, ih hps⟩

-- ---------------------------------------------------------------------------
-- What a value must not reach
-- ---------------------------------------------------------------------------

def Faulty (heap : Heap n) (path : List (Fin n)) (v : Value n) : Prop :=
  (∃ r, Reachable heap v (.ref r) ∧ (r ∈ path ∨ OnCycle heap r)) ∨ NonFiniteReachable heap v

theorem faulty_iff : Faulty heap [] v ↔ CycleReachable heap v ∨ NonFiniteReachable heap v := by
  simp [Faulty, CycleReachable]

theorem faulty_path {path : List (Fin n)} (h : r ∈ path) : Faulty heap path (.ref r) :=
  .inl ⟨r, .root, .inl h⟩

/-- On the way to the values of an object the object itself is one that must not be reached. -/
theorem faulty_ref {path : List (Fin n)} (hr : r ∉ path) :
    Faulty heap path (.ref r) ↔ ∃ v ∈ (heap.read r).values, Faulty heap (r :: path) v := by
  constructor
  · rintro (⟨q, hq, hbad⟩ | ⟨x, hx, hfinite⟩)
    · obtain heq | ⟨r', v, heq, hv, hrest⟩ := hq.cases_head
      · cases heq
        obtain ⟨v, hv, hback⟩ := hbad.resolve_left hr
        exact ⟨v, hv, .inl ⟨_, hback, .inl List.mem_cons_self⟩⟩
      · cases heq
        exact ⟨v, hv, .inl ⟨q, hrest, hbad.imp_left (List.mem_cons_of_mem r)⟩⟩
    · obtain heq | ⟨r', v, heq, hv, hrest⟩ := hx.cases_head
      · cases heq
      · cases heq
        exact ⟨v, hv, .inr ⟨x, hrest, hfinite⟩⟩
  · rintro ⟨v, hv, ⟨q, hq, hbad⟩ | ⟨x, hx, hfinite⟩⟩
    · rcases hbad with hmem | hcycle
      · rcases List.mem_cons.mp hmem with rfl | hmem
        · exact .inl ⟨_, .root, .inr ⟨v, hv, hq⟩⟩
        · exact .inl ⟨q, hq.prepend hv, .inl hmem⟩
      · exact .inl ⟨q, hq.prepend hv, .inr hcycle⟩
    · exact .inr ⟨x, hx.prepend hv, hfinite⟩

theorem faulty_primitive {path : List (Fin n)} (hv : ∀ r, v ≠ .ref r) :
    Faulty heap path v ↔ ∃ x : JsNumber, v = .number x ∧ x.isFinite = false := by
  have hself : ∀ {w}, Reachable heap v w → w = v := by
    intro w hw
    obtain heq | ⟨r, u, heq, -⟩ := hw.cases_head
    · exact heq
    · exact absurd heq (hv r)
  constructor
  · rintro (⟨r, hr, -⟩ | ⟨x, hx, hfinite⟩)
    · exact absurd (hself hr).symm (hv r)
    · exact ⟨x, (hself hx).symm, hfinite⟩
  · rintro ⟨x, rfl, hfinite⟩
    exact .inr ⟨x, .root, hfinite⟩

end

end McpGateway.Shared
