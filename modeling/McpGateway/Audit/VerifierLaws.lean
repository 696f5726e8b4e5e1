import McpGateway.Audit.AppendedChain
import McpGateway.Audit.Verifier

/-!
# What a walk has read

A walk that met no break has read a list of rows of the tenant, one after
another, and stands after them: that list determines all it keeps. A page either
verifies and moves the walk on, or ends it at a row that breaks the chain, at a
row whose number does not exceed the one before, or at one that cannot be hashed.
-/

namespace McpGateway.Audit

open Js Shared Outcome

/-- The number of the last row, or `start` when there is none. -/
def lastNumber (start : JsNumber) (rows : List AuditEvent) : JsNumber :=
  (rows.getLast?.map (numberOf ·.seq)).getD start

def Walk.after (tenantId : JsString) (rows : List AuditEvent) : Walk where
  expected := headHash tenantId (rows.map toLink)
  afterSeq := lastNumber (.finite 0) rows
  rowsChecked := rows.length
  lastSeq := lastNumber (.finite (-1)) rows

def Rises (rows : List AuditEvent) (e : AuditEvent) : Prop :=
  (numberOf e.seq).lessEq (lastNumber (.finite (-1)) rows) = false

def RisesAll (rows : List AuditEvent) : List AuditEvent → Prop
  | [] => True
  | e :: page => Rises rows e ∧ RisesAll (rows ++ [e]) page

def Verified (numberText : ℚ → JsString) (tenantId : JsString) (rows : List AuditEvent) : Prop :=
  HashChain.Chained (auditChain numberText) (genesisHash tenantId) (rows.map toLink)

section
variable {numberText : ℚ → JsString} {tenantId : JsString} {rows page rest : List AuditEvent}

@[simp] theorem lastNumber_concat (start : JsNumber) (rows : List AuditEvent) (e : AuditEvent) :
    lastNumber start (rows ++ [e]) = numberOf e.seq := by
  simp [lastNumber]

@[simp] theorem headHash_concat (links : List ChainLink) (link : ChainLink) :
    headHash tenantId (links ++ [link]) = link.rowHash := by
  simp [headHash]

theorem after_concat (rows : List AuditEvent) (e : AuditEvent) :
    Walk.after tenantId (rows ++ [e]) =
      { expected := (toLink e).rowHash, afterSeq := numberOf e.seq
        rowsChecked := rows.length + 1, lastSeq := numberOf e.seq } := by
  simp [Walk.after]

theorem last_eq_headHash (links : List ChainLink) :
    HashChain.last (auditChain numberText) (genesisHash tenantId) links = headHash tenantId links :=
  last_eq_getLast _ _

theorem verified_concat : Verified numberText tenantId (rows ++ [e]) ↔
    Verified numberText tenantId rows ∧
      verifyLink numberText (toLink e) (headHash tenantId (rows.map toLink)) = .ok none := by
  rw [Verified, List.map_append, List.map_singleton, HashChain.chained_concat, last_eq_headHash,
    verifyLink_none_iff]
  rfl

theorem Verified.of_append (h : Verified numberText tenantId (rows ++ rest)) :
    Verified numberText tenantId rows := by
  rw [Verified, List.map_append] at h
  exact (HashChain.chained_append.mp h).1

theorem risesAll_append : RisesAll rows (page ++ rest) ↔
    RisesAll rows page ∧ RisesAll (rows ++ page) rest := by
  induction page generalizing rows with
  | nil => simp [RisesAll]
  | cons e page ih => simp [RisesAll, ih, and_assoc]

def Walk.disordered (numberText : ℚ → JsString) (tenantId : JsString) (walk : Walk)
    (e : AuditEvent) : Walk :=
  { walk with
    firstBreak := some
      { seq := some (numberOf e.seq), id := e.id, tenantId, reason := .orderingViolation
        expected := js "> " ++ numberString numberText walk.lastSeq
        actual := numberString numberText (numberOf e.seq) } }

/-- What reading a page after `rows` comes to. -/
inductive PageOutcome (numberText : ℚ → JsString) (tenantId : JsString) (rows : List AuditEvent) :
    List AuditEvent → Except JsError Walk → Prop
  | verified (page : List AuditEvent) (hverified : Verified numberText tenantId (rows ++ page))
      (hrises : RisesAll rows page) :
      PageOutcome numberText tenantId rows page (.ok (.after tenantId (rows ++ page)))
  | broken (page : List AuditEvent) (e : AuditEvent) (rest : List AuditEvent) (failure : VerificationBreak)
      (hverified : Verified numberText tenantId (rows ++ page))
      (hrises : RisesAll rows (page ++ [e]))
      (hlink : verifyLink numberText (toLink e) (headHash tenantId ((rows ++ page).map toLink)) =
        .ok (some failure)) :
      PageOutcome numberText tenantId rows (page ++ e :: rest)
        (.ok { Walk.after tenantId (rows ++ page) with
          lastSeq := numberOf e.seq, firstBreak := some failure })
  | disordered (page : List AuditEvent) (e : AuditEvent) (rest : List AuditEvent)
      (hverified : Verified numberText tenantId (rows ++ page))
      (hrises : RisesAll rows page) (hfalls : ¬ Rises (rows ++ page) e) :
      PageOutcome numberText tenantId rows (page ++ e :: rest)
        (.ok ((Walk.after tenantId (rows ++ page)).disordered numberText tenantId e))
  | threw (page : List AuditEvent) (e : AuditEvent) (rest : List AuditEvent) (error : JsError)
      (hverified : Verified numberText tenantId (rows ++ page))
      (hrises : RisesAll rows (page ++ [e]))
      (hlink : verifyLink numberText (toLink e) (headHash tenantId ((rows ++ page).map toLink)) =
        .error error) :
      PageOutcome numberText tenantId rows (page ++ e :: rest) (.error error)

theorem checkRow_after (rows : List AuditEvent) (e : AuditEvent) :
    (Walk.after tenantId rows).checkRow numberText tenantId (toLink e) =
      if (numberOf e.seq).lessEq (lastNumber (.finite (-1)) rows) then
        .ok ((Walk.after tenantId rows).disordered numberText tenantId e)
      else
        match verifyLink numberText (toLink e) (headHash tenantId (rows.map toLink)) with
        | .error error => .error error
        | .ok (some failure) => .ok { Walk.after tenantId rows with
            lastSeq := numberOf e.seq, firstBreak := some failure }
        | .ok none => .ok (Walk.after tenantId (rows ++ [e])) := by
  rw [after_concat]
  by_cases hle : (numberOf e.seq).lessEq (lastNumber (.finite (-1)) rows) = true
  · rw [if_pos hle]
    exact if_pos hle
  · rw [if_neg hle]
    refine (if_neg hle).trans ?_
    dsimp only [Walk.after]
    cases verifyLink numberText (toLink e) (headHash tenantId (rows.map toLink)) with
    | error error => rfl
    | ok failure => cases failure <;> rfl

theorem PageOutcome.cons (hrise : Rises rows e)
    (h : PageOutcome numberText tenantId (rows ++ [e]) page w) :
    PageOutcome numberText tenantId rows (e :: page) w := by
  have happ (page : List AuditEvent) : rows ++ [e] ++ page = rows ++ e :: page := by simp
  cases h with
  | verified page hverified hrises =>
    rw [happ] at hverified ⊢
    exact .verified (e :: page) hverified ⟨hrise, hrises⟩
  | broken page f rest failure hverified hrises hlink =>
    rw [happ] at hverified hlink ⊢
    exact .broken (e :: page) f rest failure hverified ⟨hrise, hrises⟩ hlink
  | disordered page f rest hverified hrises hfalls =>
    rw [happ] at hverified hfalls ⊢
    exact .disordered (e :: page) f rest hverified ⟨hrise, hrises⟩ hfalls
  | threw page f rest error hverified hrises hlink =>
    rw [happ] at hverified hlink
    exact .threw (e :: page) f rest error hverified ⟨hrise, hrises⟩ hlink

theorem pageOutcome_checkRows (h : Verified numberText tenantId rows) (page : List AuditEvent) :
    PageOutcome numberText tenantId rows page
      ((Walk.after tenantId rows).checkRows numberText tenantId (page.map toLink)) := by
  induction page generalizing rows with
  | nil =>
    have hnone : Verified numberText tenantId (rows ++ []) := by rwa [List.append_nil]
    have hout := PageOutcome.verified [] hnone trivial
    rwa [List.append_nil] at hout
  | cons e page ih =>
    have hnil : Verified numberText tenantId (rows ++ []) := by rwa [List.append_nil]
    rw [List.map_cons, Walk.checkRows, checkRow_after]
    by_cases hle : (numberOf e.seq).lessEq (lastNumber (.finite (-1)) rows) = true
    · rw [if_pos hle, ok_bind]
      have hfalls : ¬ Rises (rows ++ []) e := by simp [Rises, hle]
      have hout := PageOutcome.disordered [] e page hnil trivial hfalls
      rwa [List.append_nil] at hout
    · rw [if_neg hle]
      have hrise : Rises rows e := by simpa [Rises] using hle
      cases hlink : verifyLink numberText (toLink e) (headHash tenantId (rows.map toLink)) with
      | error error =>
        exact .threw [] e page error hnil ⟨hrise, trivial⟩ (by rwa [List.append_nil])
      | ok failure =>
        cases failure with
        | some failure =>
          have hout := PageOutcome.broken [] e page failure hnil ⟨hrise, trivial⟩
            (by rwa [List.append_nil])
          rwa [List.append_nil] at hout
        | none =>
          refine .cons hrise ?_
          exact ih (verified_concat.mpr ⟨h, hlink⟩)

theorem compareHead_tenantOk {db : Db} (n : Nat) (h : TenantOk numberText db tenantId) :
    compareHead tenantId n none (headHash tenantId (db.links tenantId)) (db.recordedHead tenantId) =
      { tenantId, valid := true, rowsChecked := n, firstBreak := none
        headHash := headHash tenantId (db.links tenantId)
        recordedHeadHash := db.recordedHead tenantId } := by
  have hrecorded : (db.recordedHead tenantId).any (· != headHash tenantId (db.links tenantId)) =
      false := by
    unfold Db.recordedHead
    cases hhead : db.heads tenantId with
    | none => rfl
    | some head =>
      have hprev := h.prevHash
      have hdigest := h.isDigest_head
      rw [Db.head, hhead, Option.getD_some] at hprev hdigest
      rw [last_eq_headHash] at hprev
      rw [hprev] at hdigest
      simp [hprev, trim_digest hdigest]
  simp [compareHead, hrecorded]

end

end McpGateway.Audit
