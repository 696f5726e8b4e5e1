import Mathlib.Algebra.BigOperators.Group.List.Basic
import Mathlib.Data.List.Basic
import Mathlib.Data.List.Nodup
import Mathlib.Tactic.Abel

/-!
# JavaScript maps

A `Map` keeps its entries in the order their keys were first set.
-/

namespace McpGateway.Js

structure JsMap (κ ν : Type) where
  entries : List (κ × ν)
  deriving DecidableEq, Repr

namespace JsMap

variable {κ ν : Type} [DecidableEq κ]

def empty : JsMap κ ν := ⟨[]⟩

def size (m : JsMap κ ν) : Nat := m.entries.length

def get (m : JsMap κ ν) (k : κ) : Option ν := m.entries.lookup k

def setEntry (k : κ) (v : ν) : List (κ × ν) → List (κ × ν)
  | [] => [(k, v)]
  | (k', v') :: es => if k = k' then (k, v) :: es else (k', v') :: setEntry k v es

def set (m : JsMap κ ν) (k : κ) (v : ν) : JsMap κ ν := ⟨setEntry k v m.entries⟩

def delete (m : JsMap κ ν) (k : κ) : JsMap κ ν := ⟨m.entries.filter fun e => decide (k ≠ e.1)⟩

omit [DecidableEq κ] in
theorem size_pos {m : JsMap κ ν} (h : m.entries ≠ []) : 0 < m.size := List.length_pos_iff.mpr h

theorem size_pos_of_get {m : JsMap κ ν} {k : κ} (h : m.get k = some v) : 0 < m.size := by
  apply size_pos
  intro hnil
  unfold get at h
  rw [hnil] at h
  cases h

@[simp] theorem get_set_self (m : JsMap κ ν) (k : κ) (v : ν) : (m.set k v).get k = some v := by
  obtain ⟨es⟩ := m
  show (setEntry k v es).lookup k = some v
  induction es with
  | nil => exact List.lookup_cons_self
  | cons e es ih =>
    unfold setEntry
    split
    · exact List.lookup_cons_self
    · next hne => rwa [List.lookup_cons, beq_false_of_ne hne]

theorem get_set_of_ne (m : JsMap κ ν) {k k' : κ} (v : ν) (h : k' ≠ k) :
    (m.set k v).get k' = m.get k' := by
  obtain ⟨es⟩ := m
  show (setEntry k v es).lookup k' = es.lookup k'
  induction es with
  | nil => rw [setEntry, List.lookup_cons, beq_false_of_ne h]
  | cons e es ih =>
    unfold setEntry
    split
    · next heq =>
      subst heq
      rw [List.lookup_cons, List.lookup_cons, beq_false_of_ne h]
    · rw [List.lookup_cons, List.lookup_cons, ih]

theorem get_set (m : JsMap κ ν) (k k' : κ) (v : ν) :
    (m.set k v).get k' = if k' = k then some v else m.get k' := by
  split
  · next h => rw [h, get_set_self]
  · next h => exact get_set_of_ne m v h

theorem get_delete (m : JsMap κ ν) (k k' : κ) :
    (m.delete k).get k' = if k' = k then none else m.get k' := by
  obtain ⟨es⟩ := m
  show (es.filter fun e => decide (k ≠ e.1)).lookup k' = if k' = k then none else es.lookup k'
  induction es with
  | nil => split <;> rfl
  | cons e es ih =>
    by_cases hk : k = e.1
    · rw [List.filter_cons_of_neg (by simpa using hk), ih, List.lookup_cons, ← hk]
      split
      · rfl
      · next hne => rw [beq_false_of_ne hne]
    · rw [List.filter_cons_of_pos (by simpa using hk), List.lookup_cons, ih, List.lookup_cons]
      by_cases hk' : k' = e.1
      · have hne : k' ≠ k := fun h => hk (h.symm.trans hk')
        simp only [beq_iff_eq.mpr hk', if_neg hne]
      · rw [beq_false_of_ne hk']

-- ---------------------------------------------------------------------------
-- Entries
-- ---------------------------------------------------------------------------

theorem mem_of_get {m : JsMap κ ν} {k : κ} {v : ν} (h : m.get k = some v) : (k, v) ∈ m.entries := by
  obtain ⟨before, after, heq, -⟩ := List.lookup_eq_some_iff.mp h
  simp [heq]

theorem mem_set {m : JsMap κ ν} {k : κ} {v : ν} {e : κ × ν} (h : e ∈ (m.set k v).entries) :
    e = (k, v) ∨ e ∈ m.entries := by
  obtain ⟨es⟩ := m
  change e ∈ setEntry k v es at h
  induction es with
  | nil => simpa [setEntry] using h
  | cons e' es ih =>
    unfold setEntry at h
    split at h
    · rcases List.mem_cons.mp h with rfl | h
      · exact .inl rfl
      · exact .inr (List.mem_cons_of_mem _ h)
    · rcases List.mem_cons.mp h with rfl | h
      · exact .inr List.mem_cons_self
      · exact (ih h).imp_right (List.mem_cons_of_mem _)

theorem mem_delete {m : JsMap κ ν} {k : κ} {e : κ × ν} (h : e ∈ (m.delete k).entries) :
    e ∈ m.entries := (List.mem_filter.mp h).1

theorem keys_set (m : JsMap κ ν) (k : κ) (v : ν) : (m.set k v).entries.map Prod.fst =
    if k ∈ m.entries.map Prod.fst then m.entries.map Prod.fst
    else m.entries.map Prod.fst ++ [k] := by
  obtain ⟨es⟩ := m
  show (setEntry k v es).map Prod.fst = _
  induction es with
  | nil => rfl
  | cons e es ih =>
    unfold setEntry
    by_cases h : k = e.1
    · simp [h]
    · rw [if_neg h, List.map_cons, ih]
      by_cases hmem : k ∈ es.map Prod.fst
      · simp [hmem]
      · simp [h, hmem]

theorem mem_keys_set {m : JsMap κ ν} {k k' : κ} {v : ν} :
    k' ∈ (m.set k v).entries.map Prod.fst ↔ k' ∈ m.entries.map Prod.fst ∨ k' = k := by
  rw [keys_set]
  split
  · next hold =>
    refine ⟨.inl, fun hkey => hkey.elim id ?_⟩
    rintro rfl
    exact hold
  · rw [List.mem_append, List.mem_singleton]

theorem nodup_keys_set {m : JsMap κ ν} (h : (m.entries.map Prod.fst).Nodup) (k : κ) (v : ν) :
    ((m.set k v).entries.map Prod.fst).Nodup := by
  rw [keys_set]
  split
  · exact h
  · next hnew =>
    rw [← List.concat_eq_append]
    exact List.Nodup.concat hnew h

theorem get_eq_some {m : JsMap κ ν} (h : (m.entries.map Prod.fst).Nodup) {k : κ} {v : ν} :
    m.get k = some v ↔ (k, v) ∈ m.entries := by
  refine ⟨mem_of_get, fun hmem => ?_⟩
  obtain ⟨before, after, hsplit⟩ := List.append_of_mem hmem
  refine List.lookup_eq_some_iff.mpr ⟨before, after, hsplit, fun e he => ?_⟩
  rw [hsplit, List.map_append, List.map_cons] at h
  have hne : e.1 ≠ k := (List.nodup_append.mp h).2.2 e.1 (List.mem_map_of_mem he) k
    List.mem_cons_self
  simpa using hne.symm

theorem entries_perm {m m' : JsMap κ ν} (h : (m.entries.map Prod.fst).Nodup)
    (h' : (m'.entries.map Prod.fst).Nodup) (hget : ∀ k, m.get k = m'.get k) :
    m.entries.Perm m'.entries := by
  rw [List.perm_ext_iff_of_nodup (List.Nodup.of_map _ h) (List.Nodup.of_map _ h')]
  rintro ⟨k, v⟩
  rw [← get_eq_some h, ← get_eq_some h', hget]

theorem sum_set {M : Type} [AddCommMonoid M] (m : JsMap κ ν) (f : ν → M) (k : κ) (v : ν) :
    ((m.set k v).entries.map fun e => f e.2).sum + ((m.get k).map f).getD 0 =
      (m.entries.map fun e => f e.2).sum + f v := by
  obtain ⟨es⟩ := m
  show ((setEntry k v es).map fun e => f e.2).sum + ((es.lookup k).map f).getD 0 = _
  induction es with
  | nil => simp [setEntry]
  | cons e es ih =>
    unfold setEntry
    by_cases h : k = e.1
    · subst h
      rw [if_pos rfl, List.lookup_cons_self, List.map_cons, List.map_cons, List.sum_cons,
        List.sum_cons]
      show f v + _ + f e.2 = _
      abel
    · rw [if_neg h, List.lookup_cons, beq_false_of_ne h, List.map_cons, List.map_cons,
        List.sum_cons, List.sum_cons, add_assoc, ih, add_assoc]

end JsMap

end McpGateway.Js
