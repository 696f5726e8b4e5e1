import McpGateway.Lib.Outcome
import McpGateway.Policy.Malformed

/-!
# Conditions with several parts

The schema lets a condition state a combinator together with another one or with a
comparison. The evaluator looks at the first part alone.
-/

namespace McpGateway.Policy

open Js Shared

-- ---------------------------------------------------------------------------
-- What a condition says
-- ---------------------------------------------------------------------------

inductive Part
  | all (children : List Condition)
  | any (children : List Condition)
  | not (child : Condition)
  | comparison (path : JsString) (op : Operator) (value : Option Json)

/-- The parts that are present, in the order in which the evaluator looks for them. -/
def Condition.parts (c : Condition) : List Part :=
  (c.all.map Part.all).toList ++ (c.any.map Part.any).toList ++ (c.not.map Part.not).toList ++
    match c.path, c.op with
    | some path, some op => [.comparison path op c.value]
    | _, _ => []

def Part.children : Part → List Condition
  | .all children => children
  | .any children => children
  | .not child => [child]
  | .comparison .. => []

def Part.holds (engine : Engine) (input : EvaluationInput)
    (value : Condition → Except Thrown Bool) : Part → Except Thrown Bool
  | .all children => children.allM value
  | .any children => children.anyM value
  | .not child => (!·) <$> value child
  | .comparison path op expected => applyLeaf engine (some path) (some op) expected input

def andThen (first rest : Except Thrown Bool) : Except Thrown Bool :=
  match first with
  | .ok true => rest
  | other => other

/-- Every part that is present holds, at every node: all of the children, one of them, not the
child, the comparison. -/
def meaning (engine : Engine) (input : EvaluationInput) : Condition → Except Thrown Bool
  | ⟨path, op, value, all, any, not⟩ =>
    andThen (ofAll all) (andThen (ofAny any) (andThen (ofNot not) (ofComparison path op value)))
where
  ofAll : Option (List Condition) → Except Thrown Bool
    | none => .ok true
    | some children => every children
  ofAny : Option (List Condition) → Except Thrown Bool
    | none => .ok true
    | some children => some' children
  ofNot : Option Condition → Except Thrown Bool
    | none => .ok true
    | some child => (!·) <$> meaning engine input child
  ofComparison (path : Option JsString) (op : Option Operator) (value : Option Json) :
      Except Thrown Bool :=
    match path, op with
    | some path, some op => applyLeaf engine (some path) (some op) value input
    | _, _ => .ok true
  every : List Condition → Except Thrown Bool
    | [] => .ok true
    | child :: rest => andThen (meaning engine input child) (every rest)
  some' : List Condition → Except Thrown Bool
    | [] => .ok false
    | child :: rest =>
      match meaning engine input child with
      | .ok false => some' rest
      | other => other

/-- A condition in the tree of another. -/
inductive IsNode (n : Condition) : Condition → Prop
  | self : IsNode n n
  | child {c : Condition} {part : Part} {child : Condition} (hpart : part ∈ c.parts)
      (hchild : child ∈ part.children) (h : IsNode n child) : IsNode n c

/-- No part is ignored: at every node the evaluation is true exactly when all the parts hold, and
a condition that states fewer of the parts matches whatever the condition matches. -/
structure IgnoresNoPart (engine : Engine) (input : EvaluationInput) (c : Condition) : Prop where
  nodes : ∀ n, IsNode n c → (evaluateCondition engine input n = .ok true ↔
    ∀ part ∈ n.parts, part.holds engine input (meaning engine input) = .ok true)
  narrows : ∀ c₀ : Condition, c₀.wellFormed = true → (∀ part ∈ c₀.parts, part ∈ c.parts) →
    evaluateCondition engine input c = .ok true → evaluateCondition engine input c₀ = .ok true

/-- The other parts of a node hold when its first does. -/
def FirstSuffices (engine : Engine) (input : EvaluationInput) (n : Condition) : Prop :=
  ∀ first rest, n.parts = first :: rest →
    first.holds engine input (meaning engine input) = .ok true →
    ∀ part ∈ rest, part.holds engine input (meaning engine input) = .ok true

-- ---------------------------------------------------------------------------
-- Trees
-- ---------------------------------------------------------------------------

section
variable {n c child : Condition} {part : Part}

theorem mem_parts : part ∈ c.parts ↔
    (∃ children, c.all = some children ∧ part = .all children) ∨
      (∃ children, c.any = some children ∧ part = .any children) ∨
      (∃ child, c.not = some child ∧ part = .not child) ∨
      ∃ path op, c.path = some path ∧ c.op = some op ∧ part = .comparison path op c.value := by
  obtain ⟨path, op, value, all, any, not⟩ := c
  unfold Condition.parts
  cases path <;> cases op <;> simp [eq_comm]

theorem sizeOf_child (hpart : part ∈ c.parts) (hchild : child ∈ part.children) :
    sizeOf child < sizeOf c := by
  obtain ⟨path, op, value, all, any, not⟩ := c
  rcases mem_parts.mp hpart with ⟨children, rfl, rfl⟩ | ⟨children, rfl, rfl⟩ | ⟨only, rfl, rfl⟩ |
    ⟨_, _, -, -, rfl⟩
  · have hsize : sizeOf child < sizeOf children := List.sizeOf_lt_of_mem hchild
    simp only [Condition.mk.sizeOf_spec, Option.some.sizeOf_spec]
    omega
  · have hsize : sizeOf child < sizeOf children := List.sizeOf_lt_of_mem hchild
    simp only [Condition.mk.sizeOf_spec, Option.some.sizeOf_spec]
    omega
  · rw [List.mem_singleton.mp hchild]
    simp only [Condition.mk.sizeOf_spec, Option.some.sizeOf_spec]
    omega
  · exact absurd hchild List.not_mem_nil

/-- What holds of a condition when it holds of the children of its parts holds of every one. -/
theorem Condition.induction {P : Condition → Prop}
    (h : ∀ c, (∀ part ∈ c.parts, ∀ child ∈ part.children, P child) → P c) (c : Condition) :
    P c :=
  h c fun _ hpart _ hchild =>
    have := sizeOf_child hpart hchild
    Condition.induction h _
termination_by sizeOf c

theorem IsNode.trans {m : Condition} (h : IsNode m n) (hn : IsNode n c) : IsNode m c := by
  induction hn with
  | self => exact h
  | child hpart hchild _ ih => exact .child hpart hchild ih

theorem parts_ne_nil (h : c.wellFormed = true) : c.parts ≠ [] := by
  obtain ⟨path, op, value, all, any, not⟩ := c
  unfold Condition.parts
  rw [Condition.wellFormed] at h
  cases path <;> cases op <;> cases all <;> cases any <;> cases not <;> simp_all

theorem wellFormed_of_mem {children : List Condition}
    (h : Condition.wellFormed.each children = true) (hchild : child ∈ children) :
    child.wellFormed = true := by
  induction children with
  | nil => exact absurd hchild List.not_mem_nil
  | cons first rest ih =>
    rw [Condition.wellFormed.each, Bool.and_eq_true] at h
    rcases List.mem_cons.mp hchild with rfl | hrest
    · exact h.1
    · exact ih h.2 hrest

theorem wellFormed_child (h : c.wellFormed = true) (hpart : part ∈ c.parts)
    (hchild : child ∈ part.children) : child.wellFormed = true := by
  obtain ⟨path, op, value, all, any, not⟩ := c
  rw [Condition.wellFormed] at h
  simp only [Bool.and_eq_true] at h
  obtain ⟨⟨⟨-, hall⟩, hany⟩, hnot⟩ := h
  rcases mem_parts.mp hpart with ⟨children, rfl, rfl⟩ | ⟨children, rfl, rfl⟩ | ⟨only, rfl, rfl⟩ |
    ⟨_, _, -, -, rfl⟩
  · exact wellFormed_of_mem hall hchild
  · exact wellFormed_of_mem hany hchild
  · rwa [List.mem_singleton.mp hchild]
  · exact absurd hchild List.not_mem_nil

theorem IsNode.wellFormed (hn : IsNode n c) (h : c.wellFormed = true) : n.wellFormed = true := by
  induction hn with
  | self => exact h
  | child hpart hchild _ ih => exact ih (wellFormed_child h hpart hchild)

end

-- ---------------------------------------------------------------------------
-- One node
-- ---------------------------------------------------------------------------

section
variable {engine : Engine} {input : EvaluationInput} {n c : Condition} {part first : Part}
  {rest : List Part}

theorem andThen_eq_true {x y : Except Thrown Bool} :
    andThen x y = .ok true ↔ x = .ok true ∧ y = .ok true := by
  rcases x with e | _ | _ <;> simp [andThen]

theorem andThen_of_ne {x : Except Thrown Bool} (h : x ≠ .ok true) (y : Except Thrown Bool) :
    andThen x y = x := by
  rcases x with e | _ | _
  · rfl
  · rfl
  · exact absurd rfl h

@[simp] theorem true_andThen (x : Except Thrown Bool) : andThen (.ok true) x = x := rfl

@[simp] theorem andThen_true (x : Except Thrown Bool) : andThen x (.ok true) = x := by
  rcases x with e | _ | _ <;> rfl

theorem meaning_every (children : List Condition) :
    meaning.every engine input children = children.allM (meaning engine input) := by
  induction children with
  | nil => rfl
  | cons child rest ih =>
    rw [meaning.every, List.allM, ih]
    rcases meaning engine input child with e | _ | _ <;> rfl

theorem meaning_some (children : List Condition) :
    meaning.some' engine input children = children.anyM (meaning engine input) := by
  induction children with
  | nil => rfl
  | cons child rest ih =>
    rw [meaning.some', List.anyM, ih]
    rcases meaning engine input child with e | _ | _ <;> rfl

theorem evaluateCondition_every (children : List Condition) :
    evaluateCondition.every engine input children =
      children.allM (evaluateCondition engine input) := by
  induction children with
  | nil => rfl
  | cons child rest ih =>
    rw [evaluateCondition.every, List.allM, ih]
    rcases evaluateCondition engine input child with e | _ | _ <;> rfl

theorem evaluateCondition_some (children : List Condition) :
    evaluateCondition.some' engine input children =
      children.anyM (evaluateCondition engine input) := by
  induction children with
  | nil => rfl
  | cons child rest ih =>
    rw [evaluateCondition.some', List.anyM, ih]
    rcases evaluateCondition engine input child with e | _ | _ <;> rfl

theorem meaning_parts (n : Condition) : meaning engine input n =
    n.parts.foldr (fun part rest => andThen (part.holds engine input (meaning engine input)) rest)
      (.ok true) := by
  obtain ⟨path, op, value, all, any, not⟩ := n
  rw [meaning, Condition.parts]
  cases all <;> cases any <;> cases not <;> cases path <;> cases op <;>
    simp [meaning.ofAll, meaning.ofAny, meaning.ofNot, meaning.ofComparison, Part.holds,
      meaning_every, meaning_some]

theorem meaning_eq_true : meaning engine input n = .ok true ↔
    ∀ part ∈ n.parts, part.holds engine input (meaning engine input) = .ok true := by
  rw [meaning_parts]
  induction n.parts with
  | nil => simp
  | cons first rest ih => rw [List.foldr_cons, andThen_eq_true, ih, List.forall_mem_cons]

theorem evaluateCondition_first (h : n.parts = first :: rest) :
    evaluateCondition engine input n = first.holds engine input (evaluateCondition engine input) := by
  obtain ⟨path, op, value, all, any, not⟩ := n
  rw [Condition.parts] at h
  cases all with
  | some children =>
    obtain ⟨rfl, -⟩ := List.cons.inj h
    rw [evaluateCondition, evaluateCondition_every]
    rfl
  | none =>
    cases any with
    | some children =>
      obtain ⟨rfl, -⟩ := List.cons.inj h
      rw [evaluateCondition, evaluateCondition_some]
      rfl
    | none =>
      cases not with
      | some child =>
        obtain ⟨rfl, -⟩ := List.cons.inj h
        rw [evaluateCondition]
        rfl
      | none =>
        cases path with
        | none => cases h
        | some path =>
          cases op with
          | none => cases h
          | some op =>
            obtain ⟨rfl, -⟩ := List.cons.inj h
            rw [evaluateCondition]
            rfl

theorem allM_congr {children : List Condition} {f g : Condition → Except Thrown Bool}
    (h : ∀ child ∈ children, f child = g child) : children.allM f = children.allM g := by
  induction children with
  | nil => rfl
  | cons child rest ih =>
    rw [List.forall_mem_cons] at h
    rw [List.allM, List.allM, h.1, ih h.2]

theorem anyM_congr {children : List Condition} {f g : Condition → Except Thrown Bool}
    (h : ∀ child ∈ children, f child = g child) : children.anyM f = children.anyM g := by
  induction children with
  | nil => rfl
  | cons child rest ih =>
    rw [List.forall_mem_cons] at h
    rw [List.anyM, List.anyM, h.1, ih h.2]

theorem holds_congr {f g : Condition → Except Thrown Bool}
    (h : ∀ child ∈ part.children, f child = g child) :
    part.holds engine input f = part.holds engine input g := by
  cases part with
  | all children => exact allM_congr h
  | any children => exact anyM_congr h
  | not child =>
    have hchild : f child = g child := h child List.mem_cons_self
    exact congrArg ((!·) <$> ·) hchild
  | comparison => rfl

/-- With children that are evaluated to their meaning a node is evaluated to its first part. -/
theorem evaluateCondition_of_children (h : n.parts = first :: rest)
    (hchildren : ∀ part ∈ n.parts, ∀ child ∈ part.children,
      evaluateCondition engine input child = meaning engine input child) :
    evaluateCondition engine input n = first.holds engine input (meaning engine input) := by
  rw [evaluateCondition_first h]
  apply holds_congr
  apply hchildren
  rw [h]
  exact List.mem_cons_self

theorem meaning_of_firstSuffices (h : n.parts = first :: rest)
    (hfirst : FirstSuffices engine input n) :
    meaning engine input n = first.holds engine input (meaning engine input) := by
  by_cases htrue : first.holds engine input (meaning engine input) = .ok true
  · rw [htrue, meaning_eq_true, h]
    exact List.forall_mem_cons.mpr ⟨htrue, hfirst first rest h htrue⟩
  · rw [meaning_parts, h, List.foldr_cons, andThen_of_ne htrue]

-- ---------------------------------------------------------------------------
-- Every node
-- ---------------------------------------------------------------------------

/-- Where the first part of every node suffices, a condition is evaluated to its meaning. -/
theorem evaluateCondition_eq_meaning (hc : c.wellFormed = true)
    (h : ∀ n, IsNode n c → FirstSuffices engine input n) :
    evaluateCondition engine input c = meaning engine input c := by
  induction c using Condition.induction with
  | h c ih =>
    obtain ⟨first, rest, hparts⟩ := List.exists_cons_of_ne_nil (parts_ne_nil hc)
    rw [meaning_of_firstSuffices hparts (h c .self)]
    apply evaluateCondition_of_children hparts
    intro part hpart child hchild
    exact ih part hpart child hchild (wellFormed_child hc hpart hchild)
      fun n hn => h n (.child hpart hchild hn)

/-- Where the evaluation of every node is that of all its parts, the first of them suffices. -/
theorem firstSuffices_of_nodes (hc : c.wellFormed = true)
    (h : ∀ n, IsNode n c → (evaluateCondition engine input n = .ok true ↔
      ∀ part ∈ n.parts, part.holds engine input (meaning engine input) = .ok true)) :
    FirstSuffices engine input c ∧
      evaluateCondition engine input c = meaning engine input c := by
  induction c using Condition.induction with
  | h c ih =>
    obtain ⟨first, rest, hparts⟩ := List.exists_cons_of_ne_nil (parts_ne_nil hc)
    have hchildren : ∀ part ∈ c.parts, ∀ child ∈ part.children,
        evaluateCondition engine input child = meaning engine input child := by
      intro part hpart child hchild
      exact (ih part hpart child hchild (wellFormed_child hc hpart hchild)
        fun n hn => h n (.child hpart hchild hn)).2
    have heval := evaluateCondition_of_children hparts hchildren
    have hfirst : FirstSuffices engine input c := by
      intro first' rest' hparts' htrue
      obtain ⟨rfl, rfl⟩ := List.cons.inj (hparts.symm.trans hparts')
      have hall := (h c .self).mp (heval.trans htrue)
      rw [hparts] at hall
      exact (List.forall_mem_cons.mp hall).2
    exact ⟨hfirst, heval.trans (meaning_of_firstSuffices hparts hfirst).symm⟩

end

/-- A condition ignores none of its parts exactly when at every node the parts behind the first
hold whenever the first does. -/
theorem ignores_no_part_iff (engine : Engine) (input : EvaluationInput) (c : Condition)
    (hc : c.wellFormed = true) :
    IgnoresNoPart engine input c ↔ ∀ n, IsNode n c → FirstSuffices engine input n := by
  constructor
  · intro h n hn
    exact (firstSuffices_of_nodes (hn.wellFormed hc) fun m hm => h.nodes m (hm.trans hn)).1
  · intro h
    have hmeaning : ∀ n, IsNode n c →
        evaluateCondition engine input n = meaning engine input n := fun n hn =>
      evaluateCondition_eq_meaning (hn.wellFormed hc) fun m hm => h m (hm.trans hn)
    refine ⟨fun n hn => ?_, fun c₀ hc₀ hparts htrue => ?_⟩
    · rw [hmeaning n hn, meaning_eq_true]
    · obtain ⟨first, rest, hfirst⟩ := List.exists_cons_of_ne_nil (parts_ne_nil hc₀)
      have hchildren : ∀ part ∈ c₀.parts, ∀ child ∈ part.children,
          evaluateCondition engine input child = meaning engine input child :=
        fun part hpart child hchild => hmeaning child (.child (hparts part hpart) hchild .self)
      rw [evaluateCondition_of_children hfirst hchildren]
      rw [hmeaning c .self, meaning_eq_true] at htrue
      apply htrue
      apply hparts
      rw [hfirst]
      exact List.mem_cons_self

def anyAndRole : Condition where
  any := some [{ path := some (js "tool"), op := some .exists_ }]
  path := some (js "principal.role")
  op := some .eq
  value := some (.string (js "admin"))

/-- The comparison with the role is ignored. -/
theorem role_is_ignored :
    anyAndRole.wellFormed = true ∧ ¬ IgnoresNoPart plainEngine queryCall anyAndRole := by
  refine ⟨by decide +kernel, fun h => ?_⟩
  have hall := (h.nodes anyAndRole .self).mp rfl
  have hrole := hall (.comparison (js "principal.role") .eq (some (.string (js "admin"))))
    (List.mem_cons_of_mem _ List.mem_cons_self)
  cases hrole

theorem role_ignored_iff : IgnoresNoPart plainEngine queryCall anyAndRole ↔
    ∀ n, IsNode n anyAndRole → FirstSuffices plainEngine queryCall n :=
  ignores_no_part_iff plainEngine queryCall anyAndRole (by decide +kernel)

end McpGateway.Policy
