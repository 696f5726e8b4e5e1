import McpGateway.Lib.Words
import McpGateway.RateLimit.Limiter

/-!
# Buckets do not interfere

A tenant id without a brace and a tool name without a colon can be read back
from a key, whatever stands between them. So no two scopes share a key, and the
verdicts of a scope are those of its own calls.
-/

namespace McpGateway.RateLimit

open Js Keyed Words

/-- A scope as the service builds it, with a tenant id and a tool name as they are
registered. -/
def LimitScope.Regular (s : LimitScope) : Prop :=
  rightBrace ∉ s.tenantId ∧
    match s.type with
    | .tenant => s.userId = none ∧ s.toolName = none
    | .userTool => ∃ user tool, s.userId = some user ∧ s.toolName = some tool ∧ colon ∉ tool

def keyTail (scope : LimitScope) : JsString :=
  match scope.type with
  | .tenant => js ":t"
  | .userTool =>
    js ":u:" ++ (scope.userId.getD (js "anonymous") ++ colon :: scope.toolName.getD (js "*"))

theorem bucketKey_eq (scope : LimitScope) :
    bucketKey scope = js "rl:\x7b" ++ (scope.tenantId ++ rightBrace :: keyTail scope) := by
  have htenant : js "\x7d:t" = rightBrace :: js ":t" := by decide
  have huser : js "\x7d:u:" = rightBrace :: js ":u:" := by decide
  have hcolon : js ":" = [colon] := by decide
  unfold bucketKey keyTail
  cases scope.type <;> simp [htenant, huser, hcolon]

theorem keyTail_inj {s s' : LimitScope} (hs : s.Regular) (hs' : s'.Regular)
    (h : keyTail s = keyTail s') :
    s.type = s'.type ∧ s.userId = s'.userId ∧ s.toolName = s'.toolName := by
  have hshape (x : JsString) : js ":t" ≠ js ":u:" ++ x := by
    intro hx
    exact absurd (List.cons.inj (List.cons.inj hx).2).1 (by decide)
  obtain ⟨-, hs⟩ := hs
  obtain ⟨-, hs'⟩ := hs'
  unfold keyTail at h
  cases hty : s.type <;> cases hty' : s'.type <;> simp only [hty, hty'] at hs hs' h
  · simp [hs, hs']
  · exact absurd h (hshape _)
  · exact absurd h.symm (hshape _)
  · obtain ⟨user, tool, huser, htool, hcolon⟩ := hs
    obtain ⟨user', tool', huser', htool', hcolon'⟩ := hs'
    simp only [huser, huser', htool, htool', Option.getD_some] at h ⊢
    obtain ⟨rfl, rfl⟩ := after_sep_inj hcolon hcolon' (List.append_cancel_left h)
    exact ⟨trivial, rfl, rfl⟩

theorem bucketKey_inj {s s' : LimitScope} (hs : s.Regular) (hs' : s'.Regular)
    (h : bucketKey s = bucketKey s') : s = s' := by
  rw [bucketKey_eq, bucketKey_eq] at h
  obtain ⟨htenant, htail⟩ := before_sep_inj hs.1 hs'.1 (List.append_cancel_left h)
  obtain ⟨htype, huser, htool⟩ := keyTail_inj hs hs' htail
  cases s
  cases s'
  simp_all

/-- Whatever calls are made on other scopes in between, a scope gets the verdicts
it gets from its own calls at the same times. -/
theorem buckets_isolated (keys : Keyspace) (calls : List TimedCall)
    (hcalls : ∀ c ∈ calls, c.scope.Regular) (s : LimitScope) (hs : s.Regular) :
    (verdicts keys calls).filter (fun e => e.1.scope = s) =
      verdicts keys (calls.filter fun c => c.scope = s) := by
  have hkey {c : TimedCall} (hc : c ∈ calls) : c.bucketKey = bucketKey s ↔ c.scope = s :=
    ⟨bucketKey_inj (hcalls c hc) hs, fun h => congrArg bucketKey h⟩
  have hfilter : calls.filter (fun c => c.scope = s) =
      calls.filter (fun c => c.bucketKey = bucketKey s) :=
    List.filter_congr fun c hc => by simp [hkey hc]
  have hanswers : (verdicts keys calls).filter (fun e => e.1.scope = s) =
      (verdicts keys calls).filter (fun e => e.1.bucketKey = bucketKey s) := by
    apply List.filter_congr
    intro e he
    have hmem : e.1 ∈ calls := by
      have hfst := List.mem_map_of_mem (f := Prod.fst) he
      rwa [verdicts, answers_map_fst] at hfst
    simp [hkey hmem]
  rw [hfilter, hanswers]
  exact answers_filter keys calls (bucketKey s)

/-- A user whose id reads like the key of another bucket. -/
theorem buckets_isolated_colons :
    (verdicts (fun _ => none)
        [⟨⟨⟨.userTool, js "acme", some (js "a:t"), some (js "sf.query")⟩, ⟨1, 0, 1000, none⟩, 1, none⟩, ⟨1, 0⟩⟩,
          ⟨⟨⟨.tenant, js "acme", none, none⟩, ⟨1, 0, 1000, none⟩, 1, none⟩, ⟨1, 0⟩⟩]).filter
        (fun e => e.1.scope = ⟨.tenant, js "acme", none, none⟩) =
      verdicts (fun _ => none)
        [⟨⟨⟨.tenant, js "acme", none, none⟩, ⟨1, 0, 1000, none⟩, 1, none⟩, ⟨1, 0⟩⟩] :=
  buckets_isolated (fun _ => none) _
    (by simp only [List.mem_cons, List.not_mem_nil, or_false, forall_eq_or_imp, forall_eq]
        exact ⟨⟨by decide, _, _, rfl, rfl, by decide⟩, by decide, rfl, rfl⟩)
    ⟨.tenant, js "acme", none, none⟩ ⟨by decide, rfl, rfl⟩

end McpGateway.RateLimit
