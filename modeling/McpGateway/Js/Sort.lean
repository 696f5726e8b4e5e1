import McpGateway.Js.Number
import Mathlib.Data.List.Sort

/-!
# Sorting

`Array.prototype.sort` with a comparator. Where the comparator is consistent the
result is the stable order; otherwise the language leaves the order open.
-/

namespace McpGateway.Js

/-- The comparator does not put the first after the second; `NaN` counts as zero. -/
def notAfter {α : Type} (compare : α → α → JsNumber) (a b : α) : Bool :=
  !(JsNumber.finite 0).lt (compare a b)

structure Consistent {α : Type} (compare : α → α → JsNumber) (items : List α) : Prop where
  total : ∀ a ∈ items, ∀ b ∈ items, (notAfter compare a b || notAfter compare b a) = true
  trans : ∀ a ∈ items, ∀ b ∈ items, ∀ c ∈ items,
    notAfter compare a b = true → notAfter compare b c = true → notAfter compare a c = true

structure Sorter where
  sort : {α : Type} → (α → α → JsNumber) → List α → List α
  perm : ∀ {α : Type} (compare : α → α → JsNumber) (items : List α),
    (sort compare items).Perm items
  stable : ∀ {α : Type} (compare : α → α → JsNumber) (items : List α),
    Consistent compare items → sort compare items = items.mergeSort (notAfter compare)

def mergeSorter : Sorter where
  sort compare items := items.mergeSort (notAfter compare)
  perm _ _ := List.mergeSort_perm _ _
  stable _ _ _ := rfl

/-- The items in ascending order, those that are equal in the order they came in. -/
structure StableSort {α : Type} (le : α → α → Bool) (items sorted : List α) : Prop where
  perm : sorted.Perm items
  ordered : sorted.Pairwise fun a b => le a b = true
  stable : ∀ a ∈ items, (sorted.filter fun b => le a b && le b a) =
    items.filter fun b => le a b && le b a

section
variable {α : Type} {le le' : α → α → Bool} {items sorted : List α}

theorem StableSort.congr (h : StableSort le items sorted)
    (hle : ∀ a ∈ items, ∀ b ∈ items, le a b = le' a b) : StableSort le' items sorted := by
  have hmem (a : α) : a ∈ sorted ↔ a ∈ items := h.perm.mem_iff
  refine ⟨h.perm, ?_, fun a ha => ?_⟩
  · refine h.ordered.imp_of_mem fun {a b} ha hb hab => ?_
    rwa [← hle a ((hmem a).mp ha) b ((hmem b).mp hb)]
  · have hclass : ∀ b ∈ items, (le a b && le b a) = (le' a b && le' b a) := fun b hb => by
      rw [hle a ha b hb, hle b hb a ha]
    rw [← List.filter_congr hclass, ← List.filter_congr fun b hb => hclass b ((hmem b).mp hb)]
    exact h.stable a ha

theorem stableSort_mergeSort (htotal : ∀ a b, (le a b || le b a) = true)
    (htrans : ∀ a b c, le a b = true → le b c = true → le a c = true) :
    StableSort le items (items.mergeSort le) := by
  have hperm : (items.mergeSort le).Perm items := List.mergeSort_perm _ _
  refine ⟨hperm, List.pairwise_mergeSort htrans htotal items, fun a _ => ?_⟩
  -- the items equal to one are in order, so the sort keeps them as a sublist
  have hclass : (items.filter fun b => le a b && le b a).Pairwise fun b c => le b c = true := by
    apply List.pairwise_of_forall_mem_list
    intro b hb c hc
    obtain ⟨-, hab⟩ := List.mem_filter.mp hb
    obtain ⟨-, hac⟩ := List.mem_filter.mp hc
    rw [Bool.and_eq_true] at hab hac
    exact htrans b a c hab.2 hac.1
  have hkept := List.sublist_mergeSort htrans htotal hclass List.filter_sublist
  have hfilter := hkept.filter fun b => le a b && le b a
  rw [List.filter_filter, List.filter_congr fun b _ => Bool.and_self _] at hfilter
  exact (hfilter.eq_of_length ((hperm.filter _).length_eq.symm)).symm

theorem StableSort.map {β : Type} {f : β → α} {items sorted : List β}
    (h : StableSort (fun a b => le (f a) (f b)) items sorted) :
    StableSort le (items.map f) (sorted.map f) := by
  refine ⟨h.perm.map f, ?_, ?_⟩
  · rw [List.pairwise_map]
    exact h.ordered
  · rw [List.forall_mem_map]
    intro a ha
    rw [List.filter_map, List.filter_map]
    exact congrArg (List.map f) (h.stable a ha)

theorem StableSort.filter (h : StableSort le items sorted) (p : α → Bool) :
    StableSort le (items.filter p) (sorted.filter p) := by
  refine ⟨h.perm.filter p, h.ordered.filter p, fun a ha => ?_⟩
  have hclass := h.stable a (List.mem_of_mem_filter ha)
  rw [List.filter_comm, hclass, List.filter_comm]

/-- Two ordered lists with the same equal items, each in the same order, are the same. -/
theorem ordered_eq {sorted' : List α} (hrefl : ∀ a, le a a = true)
    (hperm : sorted.Perm sorted') (hordered : sorted.Pairwise fun a b => le a b = true)
    (hordered' : sorted'.Pairwise fun a b => le a b = true)
    (hclass : ∀ a ∈ sorted, (sorted.filter fun b => le a b && le b a) =
      sorted'.filter fun b => le a b && le b a) : sorted = sorted' := by
  induction sorted generalizing sorted' with
  | nil => exact hperm.nil_eq
  | cons a rest ih =>
    cases sorted' with
    | nil => exact absurd hperm.eq_nil (List.cons_ne_nil _ _)
    | cons b rest' =>
      rw [List.pairwise_cons] at hordered hordered'
      -- each head comes before the other, so both are in one class
      have hhead : a = b := by
        have hab : le a b = true := by
          rcases List.mem_cons.mp (hperm.mem_iff.mpr List.mem_cons_self) with rfl | hb
          · exact hrefl b
          · exact hordered.1 b hb
        have hba : le b a = true := by
          rcases List.mem_cons.mp (hperm.mem_iff.mp List.mem_cons_self) with rfl | ha
          · exact hrefl a
          · exact hordered'.1 a ha
        have hfilter := hclass a List.mem_cons_self
        simp only [List.filter_cons, hrefl, hab, hba, Bool.and_self, if_true] at hfilter
        exact (List.cons.inj hfilter).1
      subst hhead
      rw [ih hperm.cons_inv hordered.2 hordered'.2]
      intro c hc
      have hfilter := hclass c (List.mem_cons_of_mem _ hc)
      simp only [List.filter_cons] at hfilter
      split at hfilter
      · exact (List.cons.inj hfilter).2
      · exact hfilter

theorem StableSort.unique {sorted' : List α} (hrefl : ∀ a, le a a = true)
    (h : StableSort le items sorted) (h' : StableSort le items sorted') : sorted = sorted' := by
  apply ordered_eq hrefl (h.perm.trans h'.perm.symm) h.ordered h'.ordered
  intro a ha
  have hmem := h.perm.mem_iff.mp ha
  rw [h.stable a hmem, h'.stable a hmem]

/-- Sorting puts one more item among the others and leaves these in their order. -/
theorem mergeSort_insert (htotal : ∀ a b, (le a b || le b a) = true)
    (htrans : ∀ a b c, le a b = true → le b c = true → le a c = true) (xs : List α) (a : α)
    (ys : List α) : ∃ pre post, (xs ++ a :: ys).mergeSort le = pre ++ a :: post ∧
      (xs ++ ys).mergeSort le = pre ++ post := by
  -- the new item is marked, as an equal one may be there already
  have hrefl (b : α × Bool) : le b.1 b.1 = true := by simpa using htotal b.1 b.1
  have hmarked : StableSort (fun b c : α × Bool => le b.1 c.1)
      (xs.map (·, false) ++ (a, true) :: ys.map (·, false)) _ :=
    stableSort_mergeSort (fun b c => htotal b.1 c.1) fun b c d => htrans b.1 c.1 d.1
  have hrest : StableSort (fun b c : α × Bool => le b.1 c.1) ((xs ++ ys).map (·, false)) _ :=
    stableSort_mergeSort (fun b c => htotal b.1 c.1) fun b c d => htrans b.1 c.1 d.1
  have hfst (items : List (α × Bool)) : (items.mergeSort fun b c => le b.1 c.1).map Prod.fst =
      (items.map Prod.fst).mergeSort le := List.map_mergeSort fun _ _ _ _ => rfl
  have hunmarked : (xs.map (·, false) ++ (a, true) :: ys.map (·, false)).filter (!·.2) =
      (xs ++ ys).map (·, false) := by
    simp [List.filter_map, Function.comp_def]
  obtain ⟨pre, post, hsplit⟩ := List.append_of_mem (hmarked.perm.mem_iff.mpr
    (List.mem_append_right _ List.mem_cons_self))
  have hone := hmarked.perm.filter (·.2)
  have hkept := (hunmarked ▸ hmarked.filter (!·.2)).unique hrefl hrest
  rw [hsplit] at hone hkept
  simp only [List.filter_append, List.filter_cons, List.filter_map, Function.comp_def,
    List.filter_false, List.map_nil, List.nil_append, if_true] at hone
  have hlength := hone.length_eq
  rw [List.length_append, List.length_cons, List.length_singleton] at hlength
  have hpre : ∀ b ∈ pre, (!b.2) = true := by
    have hnil : pre.filter (·.2) = [] := List.length_eq_zero_iff.mp (by omega)
    intro b hb
    simpa using List.filter_eq_nil_iff.mp hnil b hb
  have hpost : ∀ b ∈ post, (!b.2) = true := by
    have hnil : post.filter (·.2) = [] := List.length_eq_zero_iff.mp (by omega)
    intro b hb
    simpa using List.filter_eq_nil_iff.mp hnil b hb
  rw [List.filter_append, List.filter_eq_self.mpr hpre, List.filter_cons_of_neg (by simp),
    List.filter_eq_self.mpr hpost] at hkept
  refine ⟨pre.map Prod.fst, post.map Prod.fst, ?_, ?_⟩
  · have hall := congrArg (List.map Prod.fst) hsplit
    rw [hfst] at hall
    simpa [Function.comp_def] using hall
  · have hall := congrArg (List.map Prod.fst) hkept.symm
    rw [hfst] at hall
    simpa [Function.comp_def] using hall

theorem Sorter.stableSort (sorter : Sorter) {compare : α → α → JsNumber}
    (h : Consistent compare items) :
    StableSort (notAfter compare) items (sorter.sort compare items) := by
  rw [sorter.stable compare items h]
  have hattach : items.mergeSort (notAfter compare) =
      (items.attach.mergeSort fun a b => notAfter compare a.1 b.1).map Subtype.val := by
    rw [List.map_mergeSort (s := notAfter compare) fun _ _ _ _ => rfl, List.attach_map_subtype_val]
  have hsorted : StableSort (fun a b : {x // x ∈ items} => notAfter compare a.1 b.1) items.attach
      (items.attach.mergeSort fun a b => notAfter compare a.1 b.1) :=
    stableSort_mergeSort (fun a b => h.total a.1 a.2 b.1 b.2)
      fun a b c => h.trans a.1 a.2 b.1 b.2 c.1 c.2
  have hmapped : StableSort (notAfter compare) (items.attach.map Subtype.val) _ := hsorted.map
  rw [hattach]
  rwa [List.attach_map_subtype_val] at hmapped

theorem Sorter.stableSort_of (sorter : Sorter) {compare : α → α → JsNumber}
    (hle : ∀ a ∈ items, ∀ b ∈ items, notAfter compare a b = le a b)
    (htotal : ∀ a ∈ items, ∀ b ∈ items, (le a b || le b a) = true)
    (htrans : ∀ a ∈ items, ∀ b ∈ items, ∀ c ∈ items, le a b = true → le b c = true → le a c = true) :
    StableSort le items (sorter.sort compare items) := by
  have hconsistent : Consistent compare items := by
    constructor
    · intro a ha b hb
      rw [hle a ha b hb, hle b hb a ha]
      exact htotal a ha b hb
    · intro a ha b hb c hc
      rw [hle a ha b hb, hle b hb c hc, hle a ha c hc]
      exact htrans a ha b hb c hc
  exact (sorter.stableSort hconsistent).congr hle

end

end McpGateway.Js
