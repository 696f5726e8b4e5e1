import Mathlib.Data.List.Basic
import Mathlib.Data.List.Forall2
import Mathlib.Data.List.Induction

/-!
# Hash chains

Each link of a chain carries the digest of its predecessor and its own digest,
taken over a text made of the predecessor's digest and the link's content; the
first predecessor is the digest of an origin text. When texts can be told apart
the last digest binds the whole chain: two chains that end at one digest are the
same, or two different texts hashed on the way have one digest.
-/

namespace McpGateway.HashChain

/-- How the links of a chain are hashed. A link that has no text cannot be
hashed after the digest given. -/
structure Scheme (L δ π : Type) where
  prev : L → δ
  hash : L → δ
  preimage : δ → L → Option π
  digest : π → δ

variable {L δ π : Type} (S : Scheme L δ π)

/-- The link is hashed over the digest `d`, which it carries. -/
def Follows (d : δ) (l : L) : Prop :=
  S.prev l = d ∧ ∃ m, S.preimage d l = some m ∧ S.digest m = S.hash l

/-- The links follow one another, the first one after `d`. -/
def Chained : δ → List L → Prop
  | _, [] => True
  | d, l :: ls => Follows S d l ∧ Chained (S.hash l) ls

def last : δ → List L → δ
  | d, [] => d
  | _, l :: ls => last (S.hash l) ls

def hashed (origin : π) (ls : List L) : List π :=
  origin :: ls.filterMap fun l => S.preimage (S.prev l) l

def Collision (ms : List π) : Prop :=
  ∃ m ∈ ms, ∃ n ∈ ms, m ≠ n ∧ S.digest m = S.digest n

-- ---------------------------------------------------------------------------
-- Growing and cutting
-- ---------------------------------------------------------------------------

section
variable {S}

@[simp] theorem chained_nil (d : δ) : Chained S d [] := trivial

@[simp] theorem last_nil (d : δ) : last S d [] = d := rfl

@[simp] theorem last_append : last S d (xs ++ ys) = last S (last S d xs) ys := by
  induction xs generalizing d with
  | nil => rfl
  | cons l xs ih => exact ih

@[simp] theorem chained_append :
    Chained S d (xs ++ ys) ↔ Chained S d xs ∧ Chained S (last S d xs) ys := by
  induction xs generalizing d with
  | nil => simp
  | cons l xs ih => simp [Chained, last, ih, and_assoc]

theorem last_concat (xs : List L) (l : L) : last S d (xs ++ [l]) = S.hash l := by
  simp [last]

theorem chained_concat :
    Chained S d (xs ++ [l]) ↔ Chained S d xs ∧ Follows S (last S d xs) l := by
  simp [Chained]

theorem Chained.take (h : Chained S d ls) (i : Nat) : Chained S d (ls.take i) := by
  rw [← List.take_append_drop i ls] at h
  exact (chained_append.mp h).1

theorem Chained.last_take {ls : List L} (h : Chained S d ls) (hi : i < ls.length) :
    last S d (ls.take i) = S.prev ls[i] := by
  induction ls generalizing d i with
  | nil => cases hi
  | cons l ls ih =>
    cases i with
    | zero => exact h.1.1.symm
    | succ i => exact ih h.2 (Nat.lt_of_succ_lt_succ hi)

theorem Collision.mono (h : Collision S ms) (hsub : ms ⊆ ns) : Collision S ns := by
  obtain ⟨m, hm, n, hn, hne⟩ := h
  exact ⟨m, hsub hm, n, hsub hn, hne⟩

theorem origin_mem_hashed : origin ∈ hashed S origin ls := List.mem_cons_self

theorem mem_hashed (hl : l ∈ ls) (hm : S.preimage (S.prev l) l = some m) :
    m ∈ hashed S origin ls :=
  List.mem_cons_of_mem _ (List.mem_filterMap.mpr ⟨l, hl, hm⟩)

theorem hashed_subset (h : xs ⊆ ys) : hashed S origin xs ⊆ hashed S origin ys :=
  List.cons_subset_cons _ (List.filterMap_subset _ h)

/-- The last link of a chain is hashed over the digest of the links before it. -/
theorem Follows.mem_hashed (origin : π) (h : Follows S d l) (hl : l ∈ ls) :
    ∃ m, S.preimage d l = some m ∧ S.digest m = S.hash l ∧ m ∈ hashed S origin ls := by
  obtain ⟨rfl, m, hm, hd⟩ := h
  exact ⟨m, hm, hd, HashChain.mem_hashed hl hm⟩

theorem last_digest (D : δ → Prop) (hD : ∀ m, D (S.digest m)) (hd : D d)
    (h : Chained S d ls) : D (last S d ls) := by
  induction ls generalizing d with
  | nil => exact hd
  | cons l ls ih =>
    obtain ⟨⟨-, m, -, hm⟩, hls⟩ := h
    exact ih (hm ▸ hD m) hls

end

-- ---------------------------------------------------------------------------
-- Binding
-- ---------------------------------------------------------------------------

/-- What makes a chain binding: a text tells the digest it was made of and the
link, up to `same`, and it is never the origin. `D` describes the digests. -/
structure Separated (origin : π) (same : L → L → Prop) (D : δ → Prop) : Prop where
  digest : ∀ m, D (S.digest m)
  origin : ∀ d l, D d → S.preimage d l ≠ some origin
  text : ∀ d e l k m, D d → D e → S.preimage d l = some m → S.preimage e k = some m →
    d = e ∧ same l k

def Agree (same : L → L → Prop) (l k : L) : Prop :=
  same l k ∧ S.prev l = S.prev k ∧ S.hash l = S.hash k

section
variable {S} {origin : π} {same : L → L → Prop} {D : δ → Prop}

theorem collision_of_last_eq_origin (hS : Separated S origin same D)
    (h : Chained S (S.digest origin) (ls ++ [l]))
    (hlast : S.hash l = S.digest origin) : Collision S (hashed S origin (ls ++ [l])) := by
  obtain ⟨hls, hl⟩ := chained_concat.mp h
  have hD := last_digest D hS.digest (hS.digest origin) hls
  obtain ⟨m, hm, hd, hmem⟩ := hl.mem_hashed origin (show l ∈ ls ++ [l] by simp)
  refine ⟨m, hmem, origin, origin_mem_hashed, ?_, hd.trans hlast⟩
  rintro rfl
  exact hS.origin _ l hD hm

theorem binding (hS : Separated S origin same D) (hA : Chained S (S.digest origin) A)
    (hB : Chained S (S.digest origin) B)
    (hlast : last S (S.digest origin) A = last S (S.digest origin) B) :
    List.Forall₂ (Agree S same) A B ∨ Collision S (hashed S origin A ++ hashed S origin B) := by
  induction A using List.reverseRecOn generalizing B with
  | nil =>
    cases B using List.reverseRecOn with
    | nil => exact .inl .nil
    | append_singleton B k =>
      rw [last_concat, last_nil] at hlast
      exact .inr ((collision_of_last_eq_origin hS hB hlast.symm).mono
        (List.subset_append_right _ _))
  | append_singleton A l ih =>
    cases B using List.reverseRecOn with
    | nil =>
      rw [last_concat, last_nil] at hlast
      exact .inr ((collision_of_last_eq_origin hS hA hlast).mono (List.subset_append_left _ _))
    | append_singleton B k =>
      rw [last_concat, last_concat] at hlast
      obtain ⟨hA', hl⟩ := chained_concat.mp hA
      obtain ⟨hB', hk⟩ := chained_concat.mp hB
      obtain ⟨m, hm, hdm, hmem⟩ := hl.mem_hashed origin (show l ∈ A ++ [l] by simp)
      obtain ⟨n, hn, hdn, hnmem⟩ := hk.mem_hashed origin (show k ∈ B ++ [k] by simp)
      by_cases hmn : m = n
      · subst hmn
        have hDA := last_digest D hS.digest (hS.digest origin) hA'
        have hDB := last_digest D hS.digest (hS.digest origin) hB'
        obtain ⟨hprev, hsame⟩ := hS.text _ _ _ _ _ hDA hDB hm hn
        obtain hagree | hcoll := ih hA' hB' hprev
        · refine .inl (List.rel_append hagree (.cons ⟨hsame, ?_, hlast⟩ .nil))
          rw [hl.1, hk.1, hprev]
        · refine .inr (hcoll.mono ?_)
          exact List.append_subset.mpr
            ⟨List.subset_append_of_subset_left _ (hashed_subset (List.subset_append_left _ _)),
              List.subset_append_of_subset_right _ (hashed_subset (List.subset_append_left _ _))⟩
      · refine .inr ⟨m, List.mem_append_left _ hmem, n, List.mem_append_right _ hnmem, hmn, ?_⟩
        rw [hdm, hdn, hlast]

theorem collision_of_length_ne (hS : Separated S origin same D)
    (hA : Chained S (S.digest origin) A) (hB : Chained S (S.digest origin) B)
    (hlast : last S (S.digest origin) A = last S (S.digest origin) B)
    (hne : A.length ≠ B.length) : Collision S (hashed S origin A ++ hashed S origin B) := by
  obtain hagree | hcoll := binding hS hA hB hlast
  · exact absurd hagree.length_eq hne
  · exact hcoll

theorem collision_of_dropped (hS : Separated S origin same D)
    (hA : Chained S (S.digest origin) A) (hB : Chained S (S.digest origin) B)
    (hsub : List.Sublist B A) (hne : B.length ≠ A.length)
    (hlast : last S (S.digest origin) B = last S (S.digest origin) A) :
    Collision S (hashed S origin A) := by
  refine (collision_of_length_ne hS hB hA hlast hne).mono ?_
  exact List.append_subset.mpr ⟨hashed_subset hsub.subset, fun _ h => h⟩

theorem collision_of_shared_prev (hS : Separated S origin same D)
    (h : Chained S (S.digest origin) ls) (hij : i < j) (hj : j < ls.length)
    (hprev : S.prev ls[i] = S.prev ls[j]) : Collision S (hashed S origin ls) := by
  have hlast : last S (S.digest origin) (ls.take i) = last S (S.digest origin) (ls.take j) := by
    rw [h.last_take (Nat.lt_trans hij hj), h.last_take hj, hprev]
  have hsub : (ls.take i).Sublist (ls.take j) :=
    (List.take_prefix_take_left (Nat.le_of_lt hij)).sublist
  refine (collision_of_dropped hS (h.take j) (h.take i) hsub ?_ hlast).mono
    (hashed_subset (List.take_subset j ls))
  rw [List.length_take, List.length_take]
  omega

theorem collision_of_origins {origin' : π} (hne : origin ≠ origin')
    (h : Chained S (S.digest origin) (l :: ls)) (h' : Chained S (S.digest origin') (l :: ls)) :
    Collision S (hashed S origin (l :: ls) ++ hashed S origin' (l :: ls)) :=
  ⟨origin, List.mem_append_left _ origin_mem_hashed, origin',
    List.mem_append_right _ origin_mem_hashed, hne, h.1.1.symm.trans h'.1.1⟩

end

end McpGateway.HashChain
