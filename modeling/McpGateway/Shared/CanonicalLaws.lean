import McpGateway.Lib.Outcome
import McpGateway.Shared.Canonical

/-!
# The canonical text determines the normal form

The normal form of a value is JSON: dates and big integers are strings, `-0` is
`0`, undefined properties are gone, undefined array entries are `null` and keys
are sorted. The encoder writes the normal form's text, so two values have one
canonical text exactly when they have one normal form.
-/

namespace McpGateway.Shared

open Js Outcome

def normalForm : CanonicalValue → Except JsError (Option Json)
  | .undefined => .ok none
  | .null => .ok (some .null)
  | .boolean b => .ok (some (.boolean b))
  | .number n =>
    if !n.isFinite then
      .error (.typeError (js "Cannot canonicalize non-finite number: " ++ nonFiniteText n))
    else .ok (some (.number (.finite n.value)))
  | .bigint n => .ok (some (.string (integerText n)))
  | .string s => .ok (some (.string s))
  | .date d => (toISOString d).map fun s => some (.string s)
  | .array items => do return some (.array (← normalItems items))
  | .object props => do return some (.object (← collect (sortKeys (normalProps props))))
where
  normalItems : List CanonicalValue → Except JsError (List Json)
    | [] => .ok []
    | v :: vs => do
      let part := (← normalForm v).getD .null
      return part :: (← normalItems vs)
  normalProps : List (JsString × CanonicalValue) →
      List (JsString × Except JsError (Option Json))
    | [] => []
    | (key, v) :: ps => (key, normalForm v) :: normalProps ps

-- ---------------------------------------------------------------------------
-- Properties in order
-- ---------------------------------------------------------------------------

theorem mem_sortKeys {p : JsString × α} : p ∈ sortKeys ps ↔ p ∈ ps := List.mem_insertionSort _

theorem sortKeys_map (f : α → β) (ps : List (JsString × α)) :
    sortKeys (ps.map fun p => (p.1, f p.2)) = (sortKeys ps).map fun p => (p.1, f p.2) :=
  (List.map_insertionSort (fun p q : JsString × α => p.1 ≤ q.1)
    (fun p q : JsString × β => p.1 ≤ q.1) (fun p => (p.1, f p.2)) ps fun _ _ _ _ => Iff.rfl).symm

theorem sortKeys_of_sorted {ps : List (JsString × α)} (h : keys.Pairwise (· ≤ ·))
    (hkeys : ps.map (·.1) = keys) : sortKeys ps = ps := by
  subst hkeys
  exact List.Pairwise.insertionSort_eq (List.pairwise_map.mp h)

theorem collect_map (f : α → β) (ps : List (JsString × Except ε (Option α))) :
    collect (ps.map fun p => (p.1, p.2.map (Option.map f))) =
      (collect ps).map (List.map fun p => (p.1, f p.2)) := by
  induction ps with
  | nil => rfl
  | cons p ps ih =>
    obtain ⟨key, part⟩ := p
    cases part with
    | error e => rfl
    | ok part =>
      cases part with
      | none => exact ih
      | some a =>
        simp only [List.map_cons, collect] at ih ⊢
        rw [ih]
        cases collect ps <;> rfl

theorem mem_of_collect (h : collect ps = .ok qs) (hq : q ∈ qs) :
    (q.1, Except.ok (some q.2)) ∈ ps := by
  induction ps generalizing qs with
  | nil =>
    cases h
    cases hq
  | cons p ps ih =>
    obtain ⟨key, part⟩ := p
    obtain ⟨value, rfl, hrest⟩ := bind_eq_ok.mp h
    cases value with
    | none => exact List.mem_cons_of_mem _ (ih hrest hq)
    | some a =>
      obtain ⟨rs, hrs, hpure⟩ := bind_eq_ok.mp hrest
      obtain rfl := pure_eq_ok.mp hpure
      cases hq with
      | head => exact List.mem_cons_self
      | tail _ hq => exact List.mem_cons_of_mem _ (ih hrs hq)

-- ---------------------------------------------------------------------------
-- The encoder
-- ---------------------------------------------------------------------------

section
variable {numberText : ℚ → JsString} (hnum : NumberText numberText)
include hnum

theorem encodeNumber_eq (n : JsNumber) :
    (encodeNumber numberText n).map some =
      (normalForm (.number n)).map (Option.map (Json.stringify numberText)) := by
  cases n with
  | nan => rfl
  | infinity negative => rfl
  | finite q => rfl
  | negZero =>
    show Except.ok (some (js "0")) = Except.ok (some (numberText 0))
    rw [hnum.zero]

end

mutual

theorem encode_eq (hnum : NumberText numberText) : ∀ v : CanonicalValue,
    encode numberText v = (normalForm v).map (Option.map (Json.stringify numberText))
  | .undefined => rfl
  | .null => rfl
  | .boolean _ => rfl
  | .number n => encodeNumber_eq hnum n
  | .bigint _ => rfl
  | .string _ => rfl
  | .date d => by cases d <;> rfl
  | .array items => by
    rw [encode, encodeItems_eq hnum items, normalForm]
    cases normalForm.normalItems items with
    | error e => rfl
    | ok items =>
      simp only [Except.map, bind, Except.bind, pure, Except.pure, Option.map, Json.stringify,
        Json.stringifyAll_eq]
  | .object props => by
    rw [encode, encodeProps_eq hnum props, sortKeys_map, collect_map, normalForm]
    cases collect (sortKeys (normalForm.normalProps props)) with
    | error e => rfl
    | ok props =>
      have htexts : (fun p : JsString × JsString => Json.quote p.1 ++ colon :: p.2) ∘
          (fun p : JsString × Json => (p.1, Json.stringify numberText p.2)) =
            Json.propText numberText := by
        funext p
        simp [Json.propText]
      simp only [Except.map, bind, Except.bind, pure, Except.pure, Option.map, Json.stringify,
        Json.stringifyProps_eq, List.map_map, htexts]

theorem encodeItems_eq (hnum : NumberText numberText) : ∀ vs : List CanonicalValue,
    encode.encodeItems numberText vs =
      (normalForm.normalItems vs).map (List.map (Json.stringify numberText))
  | [] => rfl
  | v :: vs => by
    rw [encode.encodeItems, encode_eq hnum v, encodeItems_eq hnum vs, normalForm.normalItems]
    cases normalForm v with
    | error e => rfl
    | ok part => cases part <;> cases normalForm.normalItems vs <;> rfl

theorem encodeProps_eq (hnum : NumberText numberText) :
    ∀ ps : List (JsString × CanonicalValue), encode.encodeProps numberText ps =
      (normalForm.normalProps ps).map
        fun p => (p.1, p.2.map (Option.map (Json.stringify numberText)))
  | [] => rfl
  | (key, v) :: ps => by
    rw [encode.encodeProps, encode_eq hnum v, encodeProps_eq hnum ps]
    rfl

end

mutual

theorem plain_normalForm : ∀ v : CanonicalValue, normalForm v = .ok (some j) → j.Plain
  | .undefined, h => by cases h
  | .null, h => by cases h; trivial
  | .boolean _, h => by cases h; trivial
  | .number n, h => by
    rw [normalForm] at h
    split at h
    · cases h
    · cases h
      exact ⟨_, rfl⟩
  | .bigint _, h => by cases h; trivial
  | .string _, h => by cases h; trivial
  | .date d, h => by
    cases d with
    | none => cases h
    | some t => cases h; trivial
  | .array items, h => by
    obtain ⟨parts, hparts, h⟩ := bind_eq_ok.mp h
    cases h
    exact Json.plainAll_iff.mpr (plain_normalItems items hparts)
  | .object props, h => by
    obtain ⟨parts, hparts, h⟩ := bind_eq_ok.mp h
    cases h
    exact Json.plainProps_iff.mpr fun p hmem =>
      plain_normalProps props (mem_sortKeys.mp (mem_of_collect hparts hmem))

theorem plain_normalItems : ∀ vs : List CanonicalValue, normalForm.normalItems vs = .ok parts →
    ∀ j ∈ parts, j.Plain
  | [], h => by
    cases h
    simp
  | v :: vs, h => by
    obtain ⟨part, hv, h⟩ := bind_eq_ok.mp h
    obtain ⟨parts, hvs, h⟩ := bind_eq_ok.mp h
    cases h
    rw [List.forall_mem_cons]
    refine ⟨?_, plain_normalItems vs hvs⟩
    cases part with
    | none => trivial
    | some j => exact plain_normalForm v hv

theorem plain_normalProps : ∀ ps : List (JsString × CanonicalValue),
    (key, Except.ok (some j)) ∈ normalForm.normalProps ps → j.Plain
  | [], h => by cases h
  | (key', v) :: ps, h => by
    rcases List.mem_cons.mp h with h | h
    · exact plain_normalForm v (Prod.mk.inj h).2.symm
    · exact plain_normalProps ps h

end

section
variable {numberText : ℚ → JsString} (hnum : NumberText numberText)
include hnum

theorem canonicalize_ok_iff {v : CanonicalValue} {s : JsString} :
    canonicalize numberText v = .ok s ↔
      ∃ part, normalForm v = .ok part ∧ Json.stringify numberText (part.getD .null) = s := by
  rw [canonicalize, encode_eq hnum]
  cases normalForm v with
  | error e => simp [Except.map, bind, Except.bind]
  | ok part => cases part <;> simp [Except.map, bind, Except.bind, pure, Except.pure, Json.stringify]

theorem canonicalize_injective {v w : CanonicalValue} (hv : normalForm v = .ok a)
    (hw : normalForm w = .ok b) (h : canonicalize numberText v = canonicalize numberText w) :
    a.getD .null = b.getD .null := by
  have hs := (canonicalize_ok_iff hnum).mpr ⟨b, hw, rfl⟩
  obtain ⟨a', ha', he⟩ := (canonicalize_ok_iff hnum).mp (h.trans hs)
  obtain rfl : a = a' := Except.ok.inj (hv.symm.trans ha')
  have hplain (v : CanonicalValue) {part : Option Json} (h : normalForm v = .ok part) :
      (part.getD .null).Plain := by
    cases part with
    | none => trivial
    | some j => exact plain_normalForm v h
  exact Json.stringify_injective hnum (hplain v hv) (hplain w hw) he

end

end McpGateway.Shared
