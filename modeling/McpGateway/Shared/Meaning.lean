import McpGateway.Js.NumberText
import McpGateway.Shared.CanonicalLaws

/-!
# What a canonical text identifies

A JSON document without its layout: an object is the map from its keys to their
values, so key order and undefined properties are no part of it. Two accepted
values have one canonical text exactly when they mean the same document.
-/

namespace McpGateway.Shared

open Js Outcome

inductive Meaning
  | null
  | boolean (b : Bool)
  | number (q : ℚ)
  | string (s : JsString)
  | array (items : List Meaning)
  | object (props : JsString → Option Meaning)

/-- The normal form of a value; `undefined` has none. -/
def CanonicalValue.meaning : CanonicalValue → Option Meaning
  | .undefined => none
  | .null => some .null
  | .boolean b => some (.boolean b)
  | .number n => some (.number n.value)
  | .bigint n => some (.string (integerText n))
  | .string s => some (.string s)
  | .date d => d.map fun t => .string t.isoString
  | .array items => some (.array (meanings items))
  | .object props => some (.object fun key => ((propMeanings props).lookup key).join)
where
  meanings : List CanonicalValue → List Meaning
    | [] => []
    | v :: vs => (meaning v).getD .null :: meanings vs
  propMeanings : List (JsString × CanonicalValue) → List (JsString × Option Meaning)
    | [] => []
    | (key, v) :: ps => (key, meaning v) :: propMeanings ps

/-- Every object has one property for each key, as objects have. -/
def CanonicalValue.DistinctKeys : CanonicalValue → Prop
  | .array items => distinctItems items
  | .object props => (props.map Prod.fst).Nodup ∧ distinctProps props
  | _ => True
where
  distinctItems : List CanonicalValue → Prop
    | [] => True
    | v :: vs => DistinctKeys v ∧ distinctItems vs
  distinctProps : List (JsString × CanonicalValue) → Prop
    | [] => True
    | p :: ps => DistinctKeys p.2 ∧ distinctProps ps

def jsonMeaning : Json → Meaning
  | .null => .null
  | .boolean b => .boolean b
  | .number n => .number n.value
  | .string s => .string s
  | .array items => .array (itemMeanings items)
  | .object props => .object fun key => (jsonPropMeanings props).lookup key
where
  itemMeanings : List Json → List Meaning
    | [] => []
    | v :: vs => jsonMeaning v :: itemMeanings vs
  jsonPropMeanings : List (JsString × Json) → List (JsString × Meaning)
    | [] => []
    | (key, v) :: ps => (key, jsonMeaning v) :: jsonPropMeanings ps

def Ordered : Json → Prop
  | .number n => ∃ q, n = .finite q
  | .array items => orderedItems items
  | .object props => (props.map Prod.fst).Pairwise (· < ·) ∧ orderedProps props
  | _ => True
where
  orderedItems : List Json → Prop
    | [] => True
    | v :: vs => Ordered v ∧ orderedItems vs
  orderedProps : List (JsString × Json) → Prop
    | [] => True
    | p :: ps => Ordered p.2 ∧ orderedProps ps

-- ---------------------------------------------------------------------------
-- Lookups
-- ---------------------------------------------------------------------------

section
variable {α β : Type}

theorem lookup_eq_some_iff {ps : List (JsString × α)} (h : (ps.map Prod.fst).Nodup) {key : JsString}
    {a : α} : ps.lookup key = some a ↔ (key, a) ∈ ps := by
  induction ps with
  | nil => simp
  | cons p ps ih =>
    obtain ⟨k, b⟩ := p
    simp only [List.map_cons, List.nodup_cons] at h
    by_cases hk : key = k
    · subst hk
      have hnone (c : α) : (key, c) ∉ ps := fun hc => h.1 (List.mem_map_of_mem hc)
      simp [hnone, eq_comm]
    · simp [List.lookup_cons, beq_false_of_ne hk, ih h.2, hk]

theorem lookup_none_of_lt {ps : List (JsString × α)} {key : JsString}
    (h : ∀ p ∈ ps, key < p.1) : ps.lookup key = none := by
  apply List.lookup_eq_none_iff.mpr
  rintro ⟨k, a⟩ hp
  have hlt : key < k := h _ hp
  apply bne_iff_ne.mpr
  rintro rfl
  exact List.lt_irrefl key hlt

theorem keys_propMeanings (ps : List (JsString × CanonicalValue)) :
    (CanonicalValue.meaning.propMeanings ps).map Prod.fst = ps.map Prod.fst := by
  induction ps with
  | nil => rfl
  | cons p ps ih => simp [CanonicalValue.meaning.propMeanings, ih]

theorem mem_propMeanings {ps : List (JsString × CanonicalValue)} {key : JsString}
    {m : Option Meaning} :
    (key, m) ∈ CanonicalValue.meaning.propMeanings ps ↔ ∃ v, (key, v) ∈ ps ∧ v.meaning = m := by
  induction ps with
  | nil => simp [CanonicalValue.meaning.propMeanings]
  | cons p ps ih =>
    obtain ⟨k, v⟩ := p
    simp only [CanonicalValue.meaning.propMeanings, List.mem_cons, ih, Prod.mk.injEq]
    constructor
    · rintro (⟨rfl, rfl⟩ | ⟨w, hw, rfl⟩)
      · exact ⟨v, .inl ⟨rfl, rfl⟩, rfl⟩
      · exact ⟨w, .inr hw, rfl⟩
    · rintro ⟨w, ⟨rfl, rfl⟩ | hw, rfl⟩
      · exact .inl ⟨rfl, rfl⟩
      · exact .inr ⟨w, hw, rfl⟩

theorem jsonPropMeanings_eq (ps : List (JsString × Json)) :
    jsonMeaning.jsonPropMeanings ps = ps.map fun p => (p.1, jsonMeaning p.2) := by
  induction ps with
  | nil => rfl
  | cons p ps ih => simp [jsonMeaning.jsonPropMeanings, ih]

theorem normalProps_eq (ps : List (JsString × CanonicalValue)) :
    normalForm.normalProps ps = ps.map fun p => (p.1, normalForm p.2) := by
  induction ps with
  | nil => rfl
  | cons p ps ih => simp [normalForm.normalProps, ih]

theorem orderedProps_iff {ps : List (JsString × Json)} :
    Ordered.orderedProps ps ↔ ∀ p ∈ ps, Ordered p.2 := by
  induction ps with
  | nil => simp [Ordered.orderedProps]
  | cons p ps ih => simp [Ordered.orderedProps, ih]

end

-- ---------------------------------------------------------------------------
-- Collecting the parts
-- ---------------------------------------------------------------------------

section
variable {ε α : Type} {ps : List (JsString × Except ε (Option α))} {qs : List (JsString × α)}

theorem mem_collect (h : collect ps = .ok qs) {key : JsString} {a : α} :
    (key, a) ∈ qs ↔ (key, Except.ok (some a)) ∈ ps := by
  refine ⟨fun hq => mem_of_collect h hq, fun hp => ?_⟩
  induction ps generalizing qs with
  | nil => cases hp
  | cons p ps ih =>
    obtain ⟨k, part⟩ := p
    obtain ⟨value, rfl, hrest⟩ := bind_eq_ok.mp h
    cases value with
    | none =>
      rcases List.mem_cons.mp hp with hp | hp
      · cases hp
      · exact ih hrest hp
    | some b =>
      obtain ⟨rs, hrs, hpure⟩ := bind_eq_ok.mp hrest
      obtain rfl := pure_eq_ok.mp hpure
      rcases List.mem_cons.mp hp with hp | hp
      · cases hp
        exact List.mem_cons_self
      · exact List.mem_cons_of_mem _ (ih hrs hp)

theorem ok_of_collect (h : collect ps = .ok qs) {p : JsString × Except ε (Option α)} (hp : p ∈ ps) :
    ∃ part, p.2 = .ok part := by
  induction ps generalizing qs with
  | nil => cases hp
  | cons p' ps ih =>
    obtain ⟨k, part⟩ := p'
    obtain ⟨value, rfl, hrest⟩ := bind_eq_ok.mp h
    rcases List.mem_cons.mp hp with rfl | hlater
    · exact ⟨value, rfl⟩
    · cases value with
      | none => exact ih hrest hlater
      | some b =>
        obtain ⟨rs, hrs, -⟩ := bind_eq_ok.mp hrest
        exact ih hrs hlater

theorem collect_keys (h : collect ps = .ok qs) : (qs.map Prod.fst).Sublist (ps.map Prod.fst) := by
  induction ps generalizing qs with
  | nil =>
    cases h
    exact List.Sublist.refl _
  | cons p ps ih =>
    obtain ⟨k, part⟩ := p
    obtain ⟨value, rfl, hrest⟩ := bind_eq_ok.mp h
    cases value with
    | none => exact (ih hrest).cons _
    | some b =>
      obtain ⟨rs, hrs, hpure⟩ := bind_eq_ok.mp hrest
      obtain rfl := pure_eq_ok.mp hpure
      exact (ih hrs).cons_cons _

end

theorem sortKeys_strict {ps : List (JsString × α)} (h : (ps.map Prod.fst).Nodup) :
    ((sortKeys ps).map Prod.fst).Pairwise (· < ·) := by
  have hperm : ((sortKeys ps).map Prod.fst).Perm (ps.map Prod.fst) :=
    (List.perm_insertionSort _ ps).map _
  have hsorted : ((sortKeys ps).map Prod.fst).Pairwise (· ≤ ·) :=
    List.pairwise_map.mpr (List.pairwise_insertionSort (fun p q : JsString × α => p.1 ≤ q.1) ps)
  have hnodup : ((sortKeys ps).map Prod.fst).Nodup := hperm.nodup_iff.mpr h
  exact (hsorted.and hnodup).imp fun ⟨hle, hne⟩ => (List.le_iff_lt_or_eq.mp hle).resolve_right hne

-- ---------------------------------------------------------------------------
-- The normal form and its meaning
-- ---------------------------------------------------------------------------

def Faithful (v : CanonicalValue) (part : Option Json) : Prop :=
  v.meaning = part.map jsonMeaning ∧ ∀ j ∈ part, Ordered j

theorem faithful_object {props : List (JsString × CanonicalValue)} {parts : List (JsString × Json)}
    (hkeys : (props.map Prod.fst).Nodup)
    (hparts : collect (sortKeys (normalForm.normalProps props)) = .ok parts)
    (hprops : ∀ p ∈ props, ∀ part, normalForm p.2 = .ok part → Faithful p.2 part) :
    Faithful (.object props) (some (.object parts)) := by
  have hnormal : (normalForm.normalProps props).map Prod.fst = props.map Prod.fst := by
    simp [normalProps_eq, Function.comp_def]
  have hstrict : (parts.map Prod.fst).Pairwise (· < ·) :=
    (sortKeys_strict (hnormal ▸ hkeys)).sublist (collect_keys hparts)
  have hnodup : (parts.map Prod.fst).Nodup := by
    apply hstrict.imp
    rintro k _ hlt rfl
    exact List.lt_irrefl k hlt
  have hmem (key : JsString) (j : Json) :
      (key, j) ∈ parts ↔ ∃ v, (key, v) ∈ props ∧ normalForm v = .ok (some j) := by
    rw [mem_collect hparts, mem_sortKeys, normalProps_eq]
    simp
  constructor
  · simp only [CanonicalValue.meaning, Option.map_some, jsonMeaning, Option.some.injEq,
      Meaning.object.injEq]
    funext key
    ext m
    have hpropNodup : ((CanonicalValue.meaning.propMeanings props).map Prod.fst).Nodup := by
      rw [keys_propMeanings]
      exact hkeys
    have hjsonNodup : ((jsonMeaning.jsonPropMeanings parts).map Prod.fst).Nodup := by
      simpa [jsonPropMeanings_eq, Function.comp_def] using hnodup
    rw [Option.join_eq_some_iff, lookup_eq_some_iff hpropNodup, mem_propMeanings,
      lookup_eq_some_iff hjsonNodup, jsonPropMeanings_eq]
    constructor
    · rintro ⟨v, hv, hm⟩
      obtain ⟨part, hpart⟩ := ok_of_collect hparts (p := (key, normalForm v))
        (mem_sortKeys.mpr (by rw [normalProps_eq]; exact List.mem_map_of_mem hv))
      have hfaithful := (hprops _ hv part hpart).1
      rw [hm] at hfaithful
      obtain ⟨j, rfl, hj⟩ := Option.map_eq_some_iff.mp hfaithful.symm
      exact List.mem_map.mpr ⟨(key, j), (hmem key j).mpr ⟨v, hv, hpart⟩, by rw [hj]⟩
    · intro h
      obtain ⟨⟨k, j⟩, hj, heq⟩ := List.mem_map.mp h
      obtain ⟨rfl, rfl⟩ := Prod.mk.inj heq
      obtain ⟨v, hv, hpart⟩ := (hmem k j).mp hj
      exact ⟨v, hv, (hprops _ hv _ hpart).1⟩
  · rintro j ⟨⟩
    refine ⟨hstrict, orderedProps_iff.mpr fun p hp => ?_⟩
    obtain ⟨v, hv, hpart⟩ := (hmem p.1 p.2).mp hp
    exact (hprops _ hv _ hpart).2 _ rfl

mutual

theorem normalForm_faithful : ∀ (v : CanonicalValue) (part : Option Json),
    normalForm v = .ok part → v.DistinctKeys → Faithful v part
  | .undefined, _, h, _ => by
    cases h
    exact ⟨rfl, fun _ h => nomatch h⟩
  | .null, _, h, _ | .boolean _, _, h, _ | .bigint _, _, h, _ | .string _, _, h, _ => by
    cases h
    refine ⟨rfl, ?_⟩
    rintro j ⟨⟩
    trivial
  | .number n, _, h, _ => by
    rw [normalForm] at h
    split at h
    · cases h
    · cases h
      refine ⟨rfl, ?_⟩
      rintro j ⟨⟩
      exact ⟨_, rfl⟩
  | .date d, _, h, _ => by
    cases d with
    | none => cases h
    | some t =>
      cases h
      refine ⟨rfl, ?_⟩
      rintro j ⟨⟩
      trivial
  | .array items, _, h, hd => by
    obtain ⟨parts, hparts, h⟩ := bind_eq_ok.mp h
    cases h
    obtain ⟨hmeaning, hordered⟩ := normalItems_faithful items parts hparts hd
    refine ⟨by simp [CanonicalValue.meaning, jsonMeaning, hmeaning], ?_⟩
    rintro j ⟨⟩
    exact hordered
  | .object props, _, h, hd => by
    obtain ⟨parts, hparts, h⟩ := bind_eq_ok.mp h
    cases h
    exact faithful_object hd.1 hparts (normalProps_faithful props hd.2)

theorem normalItems_faithful : ∀ (vs : List CanonicalValue) (parts : List Json),
    normalForm.normalItems vs = .ok parts → CanonicalValue.DistinctKeys.distinctItems vs →
    CanonicalValue.meaning.meanings vs = jsonMeaning.itemMeanings parts ∧
      Ordered.orderedItems parts
  | [], _, h, _ => by
    cases h
    exact ⟨rfl, trivial⟩
  | v :: vs, _, h, hd => by
    obtain ⟨part, hpart, h⟩ := bind_eq_ok.mp h
    obtain ⟨parts, hparts, h⟩ := bind_eq_ok.mp h
    cases h
    obtain ⟨hmeaning, hordered⟩ := normalForm_faithful v part hpart hd.1
    obtain ⟨hmeanings, hrest⟩ := normalItems_faithful vs parts hparts hd.2
    rw [CanonicalValue.meaning.meanings, jsonMeaning.itemMeanings, hmeanings, hmeaning]
    cases part with
    | none => exact ⟨rfl, trivial, hrest⟩
    | some j => exact ⟨rfl, hordered j rfl, hrest⟩

theorem normalProps_faithful : ∀ ps : List (JsString × CanonicalValue),
    CanonicalValue.DistinctKeys.distinctProps ps →
    ∀ p ∈ ps, ∀ part, normalForm p.2 = .ok part → Faithful p.2 part
  | [], _ => by simp
  | (_, v) :: ps, hd => by
    rw [List.forall_mem_cons]
    exact ⟨fun part hpart => normalForm_faithful v part hpart hd.1, normalProps_faithful ps hd.2⟩

end

-- ---------------------------------------------------------------------------
-- An ordered document is determined by its meaning
-- ---------------------------------------------------------------------------

mutual

theorem meaning_injective : ∀ v w : Json, Ordered v → Ordered w → jsonMeaning v = jsonMeaning w →
    v = w
  | .null, w, _, _, h => by cases w <;> simp_all [jsonMeaning]
  | .boolean _, w, _, _, h => by cases w <;> simp_all [jsonMeaning]
  | .string _, w, _, _, h => by cases w <;> simp_all [jsonMeaning]
  | .number n, w, hv, hw, h => by
    cases w <;> simp only [jsonMeaning, reduceCtorEq, Meaning.number.injEq] at h
    obtain ⟨q, rfl⟩ := hv
    obtain ⟨r, rfl⟩ := hw
    rw [show q = r from h]
  | .array vs, w, hv, hw, h => by
    cases w <;> simp only [jsonMeaning, reduceCtorEq, Meaning.array.injEq] at h
    rw [itemMeanings_injective vs _ hv hw h]
  | .object ps, w, hv, hw, h => by
    cases w <;> simp only [jsonMeaning, reduceCtorEq, Meaning.object.injEq] at h
    rw [propMeanings_injective ps _ hv.1 hw.1 hv.2 hw.2 (congrFun h)]

theorem itemMeanings_injective : ∀ vs ws : List Json, Ordered.orderedItems vs →
    Ordered.orderedItems ws → jsonMeaning.itemMeanings vs = jsonMeaning.itemMeanings ws → vs = ws
  | [], ws, _, _, h => by cases ws <;> simp_all [jsonMeaning.itemMeanings]
  | v :: vs, [], _, _, h => by simp [jsonMeaning.itemMeanings] at h
  | v :: vs, w :: ws, hv, hw, h => by
    simp only [jsonMeaning.itemMeanings, List.cons.injEq] at h
    rw [meaning_injective v w hv.1 hw.1 h.1, itemMeanings_injective vs ws hv.2 hw.2 h.2]

theorem propMeanings_injective : ∀ ps qs : List (JsString × Json),
    (ps.map Prod.fst).Pairwise (· < ·) → (qs.map Prod.fst).Pairwise (· < ·) →
    Ordered.orderedProps ps → Ordered.orderedProps qs →
    (∀ key, (jsonMeaning.jsonPropMeanings ps).lookup key =
      (jsonMeaning.jsonPropMeanings qs).lookup key) → ps = qs
  | [], [], _, _, _, _, _ => rfl
  | [], (k, w) :: qs, _, _, _, _, h => by
    have hk := h k
    simp [jsonMeaning.jsonPropMeanings] at hk
  | (k, v) :: ps, [], _, _, _, _, h => by
    have hk := h k
    simp [jsonMeaning.jsonPropMeanings] at hk
  | (k, v) :: ps, (k', w) :: qs, hps, hqs, hv, hw, h => by
    simp only [List.map_cons, List.pairwise_cons, List.forall_mem_map] at hps hqs
    have habsent {key : JsString} {rs : List (JsString × Json)} (hlt : ∀ p ∈ rs, key < p.1) :
        (jsonMeaning.jsonPropMeanings rs).lookup key = none := by
      apply lookup_none_of_lt
      rw [jsonPropMeanings_eq]
      intro p hp
      obtain ⟨r, hr, rfl⟩ := List.mem_map.mp hp
      exact hlt r hr
    -- the smaller of the two first keys has no value on the other side
    have hkey : k = k' := by
      rcases List.le_total k k' with hle | hle
      · refine (List.le_iff_lt_or_eq.mp hle).resolve_left fun hlt => ?_
        have hk := h k
        have hnone : (jsonMeaning.jsonPropMeanings ((k', w) :: qs)).lookup k = none :=
          habsent (List.forall_mem_cons.mpr ⟨hlt, fun p hp => List.lt_trans hlt (hqs.1 p hp)⟩)
        rw [hnone] at hk
        simp [jsonMeaning.jsonPropMeanings] at hk
      · refine ((List.le_iff_lt_or_eq.mp hle).resolve_left fun hlt => ?_).symm
        have hk := h k'
        have hnone : (jsonMeaning.jsonPropMeanings ((k, v) :: ps)).lookup k' = none :=
          habsent (List.forall_mem_cons.mpr ⟨hlt, fun p hp => List.lt_trans hlt (hps.1 p hp)⟩)
        rw [hnone] at hk
        simp [jsonMeaning.jsonPropMeanings] at hk
    subst hkey
    have hvalue : jsonMeaning v = jsonMeaning w := by
      simpa [jsonMeaning.jsonPropMeanings] using h k
    have hrest (key : JsString) : (jsonMeaning.jsonPropMeanings ps).lookup key =
        (jsonMeaning.jsonPropMeanings qs).lookup key := by
      by_cases hkey : key = k
      · subst hkey
        rw [habsent hps.1, habsent hqs.1]
      · simpa [jsonMeaning.jsonPropMeanings, List.lookup_cons, beq_false_of_ne hkey] using h key
    rw [meaning_injective v w hv.1 hw.1 hvalue,
      propMeanings_injective ps qs hps.2 hqs.2 hv.2 hw.2 hrest]

end

-- ---------------------------------------------------------------------------
-- Canonical texts
-- ---------------------------------------------------------------------------

/-- A value of the language: its objects have distinct keys. -/
abbrev Canonicalizable := { v : CanonicalValue // v.DistinctKeys }

/-- Accepted values have one canonical text exactly when they have one normal form;
`undefined` at the top counts as `null`. -/
theorem canonicalize_eq_iff {numberText : ℚ → JsString} (hnum : NumberText numberText)
    (v w : Canonicalizable) (hv : Returns (canonicalize numberText v.1))
    (hw : Returns (canonicalize numberText w.1)) :
    canonicalize numberText v.1 = canonicalize numberText w.1 ↔
      v.1.meaning.getD .null = w.1.meaning.getD .null := by
  obtain ⟨s, hs⟩ := hv
  obtain ⟨t, ht⟩ := hw
  obtain ⟨a, ha, rfl⟩ := (canonicalize_ok_iff hnum).mp hs
  obtain ⟨b, hb, rfl⟩ := (canonicalize_ok_iff hnum).mp ht
  obtain ⟨hva, hao⟩ := normalForm_faithful v.1 a ha v.2
  obtain ⟨hwb, hbo⟩ := normalForm_faithful w.1 b hb w.2
  have hdocument (part : Option Json) :
      (part.map jsonMeaning).getD .null = jsonMeaning (part.getD .null) := by
    cases part <;> rfl
  have hordered {part : Option Json} (h : ∀ j ∈ part, Ordered j) : Ordered (part.getD .null) := by
    cases part with
    | none => trivial
    | some j => exact h j rfl
  rw [hva, hwb, hdocument, hdocument]
  constructor
  · intro heq
    rw [canonicalize_injective hnum ha hb heq]
  · intro heq
    rw [hs, ht, meaning_injective _ _ (hordered hao) (hordered hbo) heq]

/-- Two orders of the keys, a property left undefined and a negative zero. -/
theorem canonicalize_eq_iff_reordered :
    canonicalize fractionText (.object [(js "b", .number (.finite 0)), (js "a", .null)]) =
        canonicalize fractionText (.object [(js "a", .null), (js "c", .undefined),
          (js "b", .number .negZero)]) ↔
      (CanonicalValue.object [(js "b", .number (.finite 0)), (js "a", .null)]).meaning.getD .null =
        (CanonicalValue.object [(js "a", .null), (js "c", .undefined),
          (js "b", .number .negZero)]).meaning.getD .null :=
  canonicalize_eq_iff numberText_fractionText
    ⟨.object [(js "b", .number (.finite 0)), (js "a", .null)],
      by decide, trivial, trivial, trivial⟩
    ⟨.object [(js "a", .null), (js "c", .undefined), (js "b", .number .negZero)],
      by decide, trivial, trivial, trivial, trivial⟩
    ⟨_, rfl⟩ ⟨_, rfl⟩

end McpGateway.Shared
