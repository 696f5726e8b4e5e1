import McpGateway.Shared.CanonicalLaws
import McpGateway.Shared.ObjectGraph

/-!
# Encoding object graphs

`canonicalize` remembers the objects it is inside of, in a set that every call
shares. The set holds the path from the root to the value at hand: an object is
added before its values are encoded and deleted after them, also when one of
them throws. So an object met twice is circular only when it is met on its own
path.
-/

namespace McpGateway.Shared

open Js Outcome

abbrev Ended (n : Nat) (α : Type) := Except JsError α × List (Fin n)

namespace Heap

section
variable {n : Nat} (encode : Value n → List (Fin n) → Option (Ended n (Option JsString)))

/-- `value.map((item) => encode(item, seen) ?? 'null')`. -/
def encodeItems : List (Value n) → List (Fin n) → Option (Ended n (List JsString))
  | [], seen => some (.ok [], seen)
  | v :: vs, seen => do
    match ← encode v seen with
    | (.error e, seen) => return (.error e, seen)
    | (.ok part, seen) =>
      let (parts, seen) ← encodeItems vs seen
      return (parts.map (part.getD (js "null") :: ·), seen)

def encodeProps : List (JsString × Value n) → List (Fin n) →
    Option (Ended n (List (JsString × JsString)))
  | [], seen => some (.ok [], seen)
  | (key, v) :: ps, seen => do
    match ← encode v seen with
    | (.error e, seen) => return (.error e, seen)
    | (.ok none, seen) => encodeProps ps seen
    | (.ok (some encoded), seen) =>
      let (parts, seen) ← encodeProps ps seen
      return (parts.map ((key, encoded) :: ·), seen)

end

section
variable (numberText : ℚ → JsString) {n : Nat} (heap : Heap n)

def circular : JsError := .typeError (js "Cannot canonicalize a circular structure")

/-- `fuel` bounds the nesting of calls; `none` when it does not suffice. -/
def encode : Nat → Value n → List (Fin n) → Option (Ended n (Option JsString))
  | _, .undefined, seen => some (.ok none, seen)
  | _, .null, seen => some (.ok (some (js "null")), seen)
  | _, .boolean b, seen => some (.ok (some (if b then js "true" else js "false")), seen)
  | _, .number x, seen => some ((encodeNumber numberText x).map some, seen)
  | _, .bigint x, seen => some (.ok (some (Json.quote (integerText x))), seen)
  | _, .string s, seen => some (.ok (some (Json.quote s)), seen)
  | 0, .ref _, _ => none
  | fuel + 1, .ref r, seen =>
    if r ∈ seen then some (.error circular, seen)
    else
      -- `finally` deletes the object again, however its values end.
      match heap.read r with
      | .array items => do
        let (parts, seen) ← encodeItems (encode fuel) items (r :: seen)
        return (parts.map fun parts => some (leftBracket :: Json.joinComma parts ++ [rightBracket]),
          seen.filter (· ≠ r))
      | .object props => do
        let (parts, seen) ← encodeProps (encode fuel) (sortKeys props) (r :: seen)
        let texts := parts.map (List.map fun p => Json.quote p.1 ++ colon :: p.2)
        return (texts.map fun texts => some (leftBrace :: Json.joinComma texts ++ [rightBrace]),
          seen.filter (· ≠ r))

/-- `canonicalize` with a new set. -/
def canonicalize (fuel : Nat) (root : Value n) : Option (Except JsError JsString) :=
  (encode numberText heap fuel root []).map fun ended => ended.1.map (·.getD (js "null"))

end

-- ---------------------------------------------------------------------------
-- One value
-- ---------------------------------------------------------------------------

/-- A call returns with the set it was called with: it throws a `TypeError` on a value at fault, and
any other it encodes as the tree it unfolds to. -/
structure Settles (numberText : ℚ → JsString) {n : Nat} (heap : Heap n)
    (encode : Value n → List (Fin n) → Option (Ended n (Option JsString))) (seen : List (Fin n))
    (v : Value n) : Prop where
  fails : Faulty heap seen v → ∃ m, encode v seen = some (.error (.typeError m), seen)
  agrees : ¬ Faulty heap seen v → ∃ tree part, Unfolds heap tree v ∧
    encode v seen = some (.ok part, seen) ∧ Shared.encode numberText tree = .ok part

section
variable {numberText : ℚ → JsString} {n : Nat} {heap : Heap n}
  {enc : Value n → List (Fin n) → Option (Ended n (Option JsString))} {seen : List (Fin n)}

theorem encodeItems_fails {vs : List (Value n)}
    (h : ∀ v ∈ vs, Settles numberText heap enc seen v) (hfaulty : ∃ v ∈ vs, Faulty heap seen v) :
    ∃ m, encodeItems enc vs seen = some (.error (.typeError m), seen) := by
  induction vs with
  | nil =>
    obtain ⟨v, hv, -⟩ := hfaulty
    cases hv
  | cons v vs ih =>
    obtain ⟨hv, hvs⟩ := List.forall_mem_cons.mp h
    by_cases hhead : Faulty heap seen v
    · obtain ⟨m, hm⟩ := hv.fails hhead
      exact ⟨m, by simp [encodeItems, hm]⟩
    · obtain ⟨tree, part, -, hpart, -⟩ := hv.agrees hhead
      obtain ⟨w, hw, hbad⟩ := hfaulty
      have htail : w ∈ vs := (List.mem_cons.mp hw).resolve_left fun heq => hhead (heq ▸ hbad)
      obtain ⟨m, hm⟩ := ih hvs ⟨w, htail, hbad⟩
      exact ⟨m, by simp [encodeItems, hpart, hm, Except.map]⟩

theorem encodeItems_agrees {tree : Value n → CanonicalValue} {vs : List (Value n)}
    (h : ∀ v ∈ vs, ∃ part, enc v seen = some (.ok part, seen) ∧
      Shared.encode numberText (tree v) = .ok part) :
    ∃ parts, encodeItems enc vs seen = some (.ok parts, seen) ∧
      Shared.encode.encodeItems numberText (vs.map tree) = .ok parts := by
  induction vs with
  | nil => exact ⟨[], rfl, rfl⟩
  | cons v vs ih =>
    obtain ⟨hv, hvs⟩ := List.forall_mem_cons.mp h
    obtain ⟨part, hpart, htree⟩ := hv
    obtain ⟨parts, hparts, htrees⟩ := ih hvs
    refine ⟨part.getD (js "null") :: parts, by simp [encodeItems, hpart, hparts, Except.map], ?_⟩
    rw [List.map_cons, Shared.encode.encodeItems, htree, htrees]
    rfl

theorem encodeProps_fails {ps : List (JsString × Value n)}
    (h : ∀ p ∈ ps, Settles numberText heap enc seen p.2)
    (hfaulty : ∃ p ∈ ps, Faulty heap seen p.2) :
    ∃ m, encodeProps enc ps seen = some (.error (.typeError m), seen) := by
  induction ps with
  | nil =>
    obtain ⟨p, hp, -⟩ := hfaulty
    cases hp
  | cons p ps ih =>
    obtain ⟨hp, hps⟩ := List.forall_mem_cons.mp h
    by_cases hhead : Faulty heap seen p.2
    · obtain ⟨m, hm⟩ := hp.fails hhead
      exact ⟨m, by simp [encodeProps, hm]⟩
    · obtain ⟨tree, part, -, hpart, -⟩ := hp.agrees hhead
      obtain ⟨q, hq, hbad⟩ := hfaulty
      have htail : q ∈ ps := (List.mem_cons.mp hq).resolve_left fun heq => hhead (heq ▸ hbad)
      obtain ⟨m, hm⟩ := ih hps ⟨q, htail, hbad⟩
      cases part with
      | none => exact ⟨m, by simp [encodeProps, hpart, hm]⟩
      | some part => exact ⟨m, by simp [encodeProps, hpart, hm, Except.map]⟩

theorem encodeProps_agrees {tree : Value n → CanonicalValue} {ps : List (JsString × Value n)}
    (h : ∀ p ∈ ps, ∃ part, enc p.2 seen = some (.ok part, seen) ∧
      Shared.encode numberText (tree p.2) = .ok part) :
    ∃ parts, encodeProps enc ps seen = some (.ok parts, seen) ∧
      collect (ps.map fun p => (p.1, Shared.encode numberText (tree p.2))) = .ok parts := by
  induction ps with
  | nil => exact ⟨[], rfl, rfl⟩
  | cons p ps ih =>
    obtain ⟨hp, hps⟩ := List.forall_mem_cons.mp h
    obtain ⟨part, hpart, htree⟩ := hp
    obtain ⟨parts, hparts, hcollect⟩ := ih hps
    rw [List.map_cons, htree]
    cases part with
    | none => exact ⟨parts, by simp [encodeProps, hpart, hparts], hcollect⟩
    | some part =>
      refine ⟨(p.1, part) :: parts, by simp [encodeProps, hpart, hparts, Except.map], ?_⟩
      rw [collect, hcollect]
      rfl

-- ---------------------------------------------------------------------------
-- One object
-- ---------------------------------------------------------------------------

theorem filter_seen {r : Fin n} (hr : r ∉ seen) : (r :: seen).filter (· ≠ r) = seen := by
  rw [List.filter_cons_of_neg (by simp), List.filter_eq_self]
  intro q hq
  simpa using fun heq : q = r => hr (heq ▸ hq)

/-- The encoder's call for each value, and the tree for each that is not at fault. -/
theorem exists_trees {vs : List (Value n)} (h : ∀ v ∈ vs, Settles numberText heap enc seen v)
    (hsound : ∀ v ∈ vs, ¬ Faulty heap seen v) :
    ∃ tree : Value n → CanonicalValue, ∀ v ∈ vs, Unfolds heap (tree v) v ∧
      ∃ part, enc v seen = some (.ok part, seen) ∧
        Shared.encode numberText (tree v) = .ok part := by
  have hall : ∀ v, ∃ tree, v ∈ vs → Unfolds heap tree v ∧
      ∃ part, enc v seen = some (.ok part, seen) ∧ Shared.encode numberText tree = .ok part := by
    intro v
    by_cases hv : v ∈ vs
    · obtain ⟨tree, part, hunfolds, hpart, htree⟩ := (h v hv).agrees (hsound v hv)
      exact ⟨tree, fun _ => ⟨hunfolds, part, hpart, htree⟩⟩
    · exact ⟨.null, fun hmem => absurd hmem hv⟩
  choose tree htree using hall
  exact ⟨tree, htree⟩

theorem treeProps_eq (ps : List (JsString × CanonicalValue)) :
    Shared.encode.encodeProps numberText ps =
      ps.map fun p => (p.1, Shared.encode numberText p.2) := by
  induction ps with
  | nil => rfl
  | cons p ps ih => rw [Shared.encode.encodeProps, ih, List.map_cons]

theorem encode_array {fuel : Nat} {r : Fin n} {items : List (Value n)} (hr : r ∉ seen)
    (hread : heap.read r = .array items) {parts : Except JsError (List JsString)}
    (hitems : encodeItems (encode numberText heap fuel) items (r :: seen) =
      some (parts, r :: seen)) :
    encode numberText heap (fuel + 1) (.ref r) seen =
      some (parts.map fun parts => some (leftBracket :: Json.joinComma parts ++ [rightBracket]),
        seen) := by
  simp only [encode, hr, if_false, hread, hitems, Option.bind_eq_bind, Option.bind_some,
    filter_seen hr]
  rfl

theorem encode_object {fuel : Nat} {r : Fin n} {props : List (JsString × Value n)} (hr : r ∉ seen)
    (hread : heap.read r = .object props) {parts : Except JsError (List (JsString × JsString))}
    (hprops : encodeProps (encode numberText heap fuel) (sortKeys props) (r :: seen) =
      some (parts, r :: seen)) :
    encode numberText heap (fuel + 1) (.ref r) seen =
      some ((parts.map (List.map fun p => Json.quote p.1 ++ colon :: p.2)).map fun texts =>
        some (leftBrace :: Json.joinComma texts ++ [rightBrace]), seen) := by
  simp only [encode, hr, if_false, hread, hprops, Option.bind_eq_bind, Option.bind_some,
    filter_seen hr]
  rfl

theorem settles_array {fuel : Nat} {r : Fin n} {items : List (Value n)} (hr : r ∉ seen)
    (hread : heap.read r = .array items)
    (h : ∀ v ∈ (heap.read r).values,
      Settles numberText heap (encode numberText heap fuel) (r :: seen) v) :
    Settles numberText heap (encode numberText heap (fuel + 1)) seen (.ref r) := by
  have hvalues : (heap.read r).values = items := by
    rw [hread]
    rfl
  constructor
  · intro hfaulty
    rw [faulty_ref hr] at hfaulty
    rw [hvalues] at h hfaulty
    obtain ⟨m, hm⟩ := encodeItems_fails h hfaulty
    exact ⟨m, encode_array hr hread hm⟩
  · intro hsound
    rw [faulty_ref hr] at hsound
    obtain ⟨tree, htree⟩ := exists_trees h fun v hv hbad => hsound ⟨v, hv, hbad⟩
    rw [hvalues] at htree
    obtain ⟨parts, hparts, htrees⟩ := encodeItems_agrees fun v hv => (htree v hv).2
    refine ⟨.array (items.map tree), _,
      (unfolds_array hread).mpr (unfoldsAll_map fun v hv => (htree v hv).1),
      encode_array hr hread hparts, ?_⟩
    rw [Shared.encode, htrees]
    rfl

theorem settles_object {fuel : Nat} {r : Fin n} {props : List (JsString × Value n)} (hr : r ∉ seen)
    (hread : heap.read r = .object props)
    (h : ∀ v ∈ (heap.read r).values,
      Settles numberText heap (encode numberText heap fuel) (r :: seen) v) :
    Settles numberText heap (encode numberText heap (fuel + 1)) seen (.ref r) := by
  have hvalues : ∀ p ∈ sortKeys props, p.2 ∈ (heap.read r).values := by
    intro p hp
    rw [hread]
    exact List.mem_map_of_mem (mem_sortKeys.mp hp)
  constructor
  · intro hfaulty
    rw [faulty_ref hr, hread] at hfaulty
    obtain ⟨v, hv, hbad⟩ := hfaulty
    obtain ⟨p, hp, rfl⟩ := List.mem_map.mp hv
    obtain ⟨m, hm⟩ := encodeProps_fails (fun p hp => h p.2 (hvalues p hp))
      ⟨p, mem_sortKeys.mpr hp, hbad⟩
    exact ⟨m, encode_object hr hread hm⟩
  · intro hsound
    rw [faulty_ref hr] at hsound
    obtain ⟨tree, htree⟩ := exists_trees h fun v hv hbad => hsound ⟨v, hv, hbad⟩
    have hsorted : ∀ p ∈ sortKeys props, _ := fun p hp => htree p.2 (hvalues p hp)
    obtain ⟨parts, hparts, hcollect⟩ := encodeProps_agrees fun p hp => (hsorted p hp).2
    have hprops : sortKeys (Shared.encode.encodeProps numberText
        (props.map fun p => (p.1, tree p.2))) =
        (sortKeys props).map fun p => (p.1, Shared.encode numberText (tree p.2)) := by
      rw [treeProps_eq, List.map_map]
      exact sortKeys_map (fun v => Shared.encode numberText (tree v)) props
    refine ⟨.object (props.map fun p => (p.1, tree p.2)), _,
      (unfolds_object hread).mpr
        (unfoldsProps_map fun p hp => (hsorted p (mem_sortKeys.mpr hp)).1),
      encode_object hr hread hparts, ?_⟩
    rw [Shared.encode, hprops, hcollect]
    rfl

-- ---------------------------------------------------------------------------
-- Enough fuel
-- ---------------------------------------------------------------------------

theorem settles_plain {v : Value n} {t : CanonicalValue} {part : Option JsString}
    (hv : ∀ r, v ≠ .ref r) (hnumber : ∀ x, v ≠ .number x) (hunfolds : Unfolds heap t v)
    (hpart : enc v seen = some (.ok part, seen)) (htree : Shared.encode numberText t = .ok part) :
    Settles numberText heap enc seen v where
  fails hfaulty := by
    obtain ⟨x, heq, -⟩ := (faulty_primitive hv).mp hfaulty
    exact absurd heq (hnumber x)
  agrees _ := ⟨t, part, hunfolds, hpart, htree⟩

theorem settles_number {fuel : Nat} (x : JsNumber) :
    Settles numberText heap (encode numberText heap fuel) seen (.number x) := by
  have hcall : encode numberText heap fuel (.number x) seen =
      some ((encodeNumber numberText x).map some, seen) := by
    cases fuel <;> rfl
  cases hfinite : x.isFinite with
  | false =>
    refine ⟨fun _ => ⟨js "Cannot canonicalize non-finite number: " ++ nonFiniteText x, ?_⟩,
      fun hsound => absurd (.inr ⟨x, .root, hfinite⟩) hsound⟩
    rw [hcall, encodeNumber, hfinite]
    rfl
  | true =>
    have hencode : encodeNumber numberText x =
        .ok (if x = .negZero then js "0" else Json.encodeNumber numberText x) := by
      rw [encodeNumber, hfinite]
      rfl
    constructor
    · intro hfaulty
      obtain ⟨y, heq, hy⟩ := (faulty_primitive fun r h => by cases h).mp hfaulty
      cases heq
      rw [hfinite] at hy
      cases hy
    · intro _
      refine ⟨.number x, _, rfl, hcall.trans (by rw [hencode]; rfl), ?_⟩
      rw [Shared.encode, hencode]
      rfl

theorem settles_primitive {fuel : Nat} {v : Value n} (hv : ∀ r, v ≠ .ref r) :
    Settles numberText heap (encode numberText heap fuel) seen v := by
  cases v with
  | ref r => exact absurd rfl (hv r)
  | number x => exact settles_number x
  | undefined =>
    exact settles_plain (t := .undefined) hv (by simp) rfl (by cases fuel <;> rfl) rfl
  | null => exact settles_plain (t := .null) hv (by simp) rfl (by cases fuel <;> rfl) rfl
  | boolean b =>
    exact settles_plain (t := .boolean b) hv (by simp) rfl (by cases fuel <;> rfl) rfl
  | bigint x =>
    exact settles_plain (t := .bigint x) hv (by simp) rfl (by cases fuel <;> rfl) rfl
  | string s =>
    exact settles_plain (t := .string s) hv (by simp) rfl (by cases fuel <;> rfl) rfl

theorem settles_seen {fuel : Nat} {r : Fin n} (hr : r ∈ seen) :
    Settles numberText heap (encode numberText heap (fuel + 1)) seen (.ref r) where
  fails _ := ⟨_, if_pos hr⟩
  agrees hsound := absurd (faulty_path hr) hsound

/-- Every object that is entered is one more on the path, and the path repeats none. -/
theorem encode_settles {fuel : Nat} {v : Value n} (hseen : seen.Nodup)
    (hfuel : n < fuel + seen.length) :
    Settles numberText heap (encode numberText heap fuel) seen v := by
  induction fuel generalizing v seen with
  | zero =>
    have hlength := hseen.length_le_card
    rw [Fintype.card_fin] at hlength
    omega
  | succ fuel ih =>
    cases v with
    | ref r =>
      by_cases hr : r ∈ seen
      · exact settles_seen hr
      · have hentered : ∀ v ∈ (heap.read r).values,
            Settles numberText heap (encode numberText heap fuel) (r :: seen) v :=
          fun v _ => ih (List.nodup_cons.mpr ⟨hr, hseen⟩) (by rw [List.length_cons]; omega)
        cases hread : heap.read r with
        | array items => exact settles_array hr hread hentered
        | object props => exact settles_object hr hread hentered
    | _ => exact settles_primitive fun r h => by cases h

theorem encodeItems_mono
    {enc' : Value n → List (Fin n) → Option (Ended n (Option JsString))}
    (h : ∀ v seen p, enc v seen = some p → enc' v seen = some p) {vs : List (Value n)}
    {p : Ended n (List JsString)} (hp : encodeItems enc vs seen = some p) :
    encodeItems enc' vs seen = some p := by
  induction vs generalizing seen p with
  | nil => exact hp
  | cons v vs ih =>
    obtain ⟨⟨o, left⟩, hv, hrest⟩ := Option.bind_eq_some_iff.mp hp
    rw [encodeItems, h v seen _ hv]
    cases o with
    | error e => exact hrest
    | ok part =>
      obtain ⟨q, hq, hpure⟩ := Option.bind_eq_some_iff.mp hrest
      change (encodeItems enc' vs left).bind _ = some p
      rw [ih hq]
      exact hpure

theorem encodeProps_mono
    {enc' : Value n → List (Fin n) → Option (Ended n (Option JsString))}
    (h : ∀ v seen p, enc v seen = some p → enc' v seen = some p) {ps : List (JsString × Value n)}
    {p : Ended n (List (JsString × JsString))} (hp : encodeProps enc ps seen = some p) :
    encodeProps enc' ps seen = some p := by
  induction ps generalizing seen p with
  | nil => exact hp
  | cons prop ps ih =>
    obtain ⟨⟨o, left⟩, hv, hrest⟩ := Option.bind_eq_some_iff.mp hp
    rw [encodeProps, h prop.2 seen _ hv]
    cases o with
    | error e => exact hrest
    | ok part =>
      cases part with
      | none => exact ih hrest
      | some part =>
        obtain ⟨q, hq, hpure⟩ := Option.bind_eq_some_iff.mp hrest
        change (encodeProps enc' ps left).bind _ = some p
        rw [ih hq]
        exact hpure

theorem encode_succ {fuel : Nat} {v : Value n} {p : Ended n (Option JsString)}
    (h : encode numberText heap fuel v seen = some p) :
    encode numberText heap (fuel + 1) v seen = some p := by
  induction fuel generalizing v seen p with
  | zero =>
    cases v with
    | ref r => cases h
    | _ => exact h
  | succ fuel ih =>
    cases v with
    | ref r =>
      by_cases hr : r ∈ seen
      · simp only [encode, hr, if_true] at h ⊢
        exact h
      · cases hread : heap.read r with
        | array items =>
          simp only [encode, hr, if_false, hread] at h ⊢
          obtain ⟨q, hq, hpure⟩ := Option.bind_eq_some_iff.mp h
          rw [encodeItems_mono (fun _ _ _ hp => ih hp) hq]
          exact hpure
        | object props =>
          simp only [encode, hr, if_false, hread] at h ⊢
          obtain ⟨q, hq, hpure⟩ := Option.bind_eq_some_iff.mp h
          rw [encodeProps_mono (fun _ _ _ hp => ih hp) hq]
          exact hpure
    | _ => exact h

theorem encode_mono {fuel fuel' : Nat} {v : Value n} {p : Ended n (Option JsString)}
    (h : encode numberText heap fuel v seen = some p) (hle : fuel ≤ fuel') :
    encode numberText heap fuel' v seen = some p := by
  induction hle with
  | refl => exact h
  | step _ ih => exact encode_succ ih

/-- Once there is more fuel than there are objects, a call with a new set returns, and leaves the
set empty. -/
theorem encode_returns (numberText : ℚ → JsString) (heap : Heap n) (root : Value n) :
    ∃ o, ∀ fuel, n < fuel → encode numberText heap fuel root [] = some (o, []) := by
  have hsettles : Settles numberText heap (encode numberText heap (n + 1)) [] root :=
    encode_settles List.nodup_nil (Nat.lt_succ_self n)
  have hreturns : ∃ o, encode numberText heap (n + 1) root [] = some (o, []) := by
    by_cases hfaulty : Faulty heap [] root
    · obtain ⟨m, hm⟩ := hsettles.fails hfaulty
      exact ⟨_, hm⟩
    · obtain ⟨tree, part, -, hpart, -⟩ := hsettles.agrees hfaulty
      exact ⟨_, hpart⟩
  obtain ⟨o, ho⟩ := hreturns
  exact ⟨o, fun fuel hfuel => encode_mono ho hfuel⟩

end

end Heap

/-- Every graph is encoded: a graph from whose root a cycle or a number that is not finite can be
reached throws a `TypeError`, and any other has the text of the tree it unfolds to. -/
theorem canonicalize_graph (numberText : ℚ → JsString) (n : Nat) (heap : Heap n)
    (root : Value n) :
    ∃ outcome, (∀ fuel, n < fuel → heap.canonicalize numberText fuel root = some outcome) ∧
      ((∃ m, outcome = .error (.typeError m)) ↔
        CycleReachable heap root ∨ NonFiniteReachable heap root) ∧
      (¬ (CycleReachable heap root ∨ NonFiniteReachable heap root) →
        ∃ tree text, Unfolds heap tree root ∧ (∀ tree', Unfolds heap tree' root → tree' = tree) ∧
          outcome = .ok text ∧ canonicalize numberText tree = .ok text) := by
  obtain ⟨o, ho⟩ := Heap.encode_returns numberText heap root
  have hsettles : Heap.Settles numberText heap (heap.encode numberText (n + 1)) [] root :=
    Heap.encode_settles List.nodup_nil (Nat.lt_succ_self n)
  have houtcome : ∀ {o'}, heap.encode numberText (n + 1) root [] = some (o', []) → o = o' := by
    intro o' ho'
    rw [ho (n + 1) (Nat.lt_succ_self n)] at ho'
    cases ho'
    rfl
  refine ⟨o.map (·.getD (js "null")), fun fuel hfuel => ?_, ?_, fun hsound => ?_⟩
  · rw [Heap.canonicalize, ho fuel hfuel]
    rfl
  · rw [← faulty_iff]
    constructor
    · rintro ⟨m, hm⟩
      by_contra hsound
      obtain ⟨tree, part, -, hpart, -⟩ := hsettles.agrees hsound
      rw [houtcome hpart] at hm
      cases hm
    · intro hfaulty
      obtain ⟨m, hm⟩ := hsettles.fails hfaulty
      exact ⟨m, by rw [houtcome hm]; rfl⟩
  · rw [← faulty_iff] at hsound
    obtain ⟨tree, part, hunfolds, hpart, htree⟩ := hsettles.agrees hsound
    refine ⟨tree, part.getD (js "null"), hunfolds,
      fun tree' h => unfolds_unique tree' root h tree hunfolds, ?_, ?_⟩
    · rw [houtcome hpart]
      rfl
    · rw [canonicalize, htree]
      rfl

/-- An object that is the value of two properties is encoded twice. -/
example : Heap.canonicalize (fun _ => []) (n := 2)
    ⟨![.object [(js "a", .ref 1), (js "b", .ref 1)], .array [.null]]⟩ 3 (.ref 0) =
      some (.ok (js "\x7b\"a\":[null],\"b\":[null]\x7d")) := by decide

end McpGateway.Shared
