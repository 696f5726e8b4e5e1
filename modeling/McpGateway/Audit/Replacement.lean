import McpGateway.Audit.PagedVerifier

/-!
# Changing a stored row

A row is hashed as it is read: the time to the millisecond, the digests without the
white space around them. A change of the row that this reading keeps is found by every
verification that gets to the row; any other change is not found.
-/

namespace McpGateway.Audit

open Js Shared Outcome

-- ---------------------------------------------------------------------------
-- Rows as they are stored and as they are read
-- ---------------------------------------------------------------------------

/-- The characters of a string: all units but the second halves of surrogate pairs. -/
def charLength (s : JsString) : Nat := (s.filter fun c => !isLowSurrogate c).length

/-- What the types and checks of the columns admit. -/
structure Admitted (e : AuditEvent) : Prop where
  /-- 4713 BC to 294276 AD. -/
  ts : -210866803200000000 ≤ e.ts.micros ∧ e.ts.micros < 9224318016000000000
  argumentsHash : charLength e.argumentsHash = 64
  decision : e.decision = js "allow" ∨ e.decision = js "deny"
  latencyMs : 0 ≤ e.latencyMs ∧ e.latencyMs ≤ 2147483647
  prevHash : charLength e.prevHash = 64
  rowHash : charLength e.rowHash = 64
  texts : ∀ s ∈ [e.tenantId, e.userId, e.actorTokenJti, e.mcpServer, e.toolName, e.argumentsHash,
    e.prevHash, e.rowHash] ++ e.denyReason.toList ++ e.traceId.toList, isText s = true

/-- The twelve hashed columns hold the same. -/
structure SameStored (r s : AuditEvent) : Prop where
  id : r.id = s.id
  ts : r.ts = s.ts
  tenantId : r.tenantId = s.tenantId
  userId : r.userId = s.userId
  actorTokenJti : r.actorTokenJti = s.actorTokenJti
  mcpServer : r.mcpServer = s.mcpServer
  toolName : r.toolName = s.toolName
  argumentsHash : r.argumentsHash = s.argumentsHash
  decision : r.decision = s.decision
  denyReason : r.denyReason = s.denyReason
  latencyMs : r.latencyMs = s.latencyMs
  traceId : r.traceId = s.traceId

/-- They hold the same up to the digits below the millisecond and the white space around the
digest of the arguments. -/
structure SameRead (r s : AuditEvent) : Prop where
  id : r.id = s.id
  ts : r.ts.micros / 1000 = s.ts.micros / 1000
  tenantId : r.tenantId = s.tenantId
  userId : r.userId = s.userId
  actorTokenJti : r.actorTokenJti = s.actorTokenJti
  mcpServer : r.mcpServer = s.mcpServer
  toolName : r.toolName = s.toolName
  argumentsHash : trim r.argumentsHash = trim s.argumentsHash
  decision : r.decision = s.decision
  denyReason : r.denyReason = s.denyReason
  latencyMs : r.latencyMs = s.latencyMs
  traceId : r.traceId = s.traceId

/-- The time is one that a `Date` holds. -/
def Dated (e : AuditEvent) : Prop :=
  -8640000000000000 ≤ e.ts.micros / 1000 ∧ e.ts.micros / 1000 ≤ 8640000000000000

def storedText (numberText : ℚ → JsString) (e : AuditEvent) : Except JsError JsString :=
  canonicalRow numberText (toLink e).toAuditRowInput

section
variable {r s : AuditEvent}

theorem date_of_dated (h : Dated r) : r.ts.date = some ⟨r.ts.micros / 1000, h⟩ := dif_pos h

theorem dated_of_date (h : r.ts.date = some t) : Dated r ∧ r.ts.micros / 1000 = t.ms := by
  unfold Timestamptz.date at h
  split at h
  · next hrange =>
    cases h
    exact ⟨hrange, rfl⟩
  · cases h

theorem Admitted.latency (h : Admitted r) : (toLink r).latencyMs = .finite r.latencyMs := by
  obtain ⟨hlow, hhigh⟩ := h.latencyMs
  exact numberOf_exact (by omega)

theorem Admitted.decision_eq (hr : Admitted r) (hs : Admitted s) :
    (toLink r).decision = (toLink s).decision ↔ r.decision = s.decision := by
  have hne : js "allow" ≠ js "deny" := by decide
  unfold toLink
  rcases hr.decision with hr | hr <;> rcases hs.decision with hs | hs <;> simp [hr, hs, hne, hne.symm]

section
variable {numberText : ℚ → JsString} (hnum : NumberText numberText)
include hnum

theorem storedText_ok (h : Admitted r) :
    (∃ m, storedText numberText r = .ok m) ↔ Dated r := by
  constructor
  · rintro ⟨m, hm⟩
    obtain ⟨t, ht, -⟩ := (canonicalRow_ok_iff hnum).mp hm
    exact (dated_of_date ht).1
  · intro hdated
    refine ⟨_, (canonicalRow_ok_iff hnum).mpr ⟨_, date_of_dated hdated, ?_, rfl⟩⟩
    rw [h.latency]
    rfl

theorem storedText_eq (hr : Admitted r) (hs : Admitted s) {m n : JsString}
    (hm : storedText numberText r = .ok m) (hn : storedText numberText s = .ok n) :
    m = n ↔ SameRead r s := by
  constructor
  · rintro rfl
    have hsame := canonicalRow_injective hnum hm hn
    obtain ⟨t, ht, -⟩ := (canonicalRow_ok_iff hnum).mp hm
    have hts : s.ts.date = some t := hsame.ts.symm.trans ht
    have hlatency : (r.latencyMs : ℚ) = s.latencyMs := by
      have hequal := hsame.latencyMs
      rw [hr.latency, hs.latency] at hequal
      simpa [JsNumber.strictEq, JsNumber.value, JsNumber.isFinite] using hequal
    exact
      { id := hsame.id
        ts := (dated_of_date ht).2.trans (dated_of_date hts).2.symm
        tenantId := hsame.tenantId
        userId := hsame.userId
        actorTokenJti := hsame.actorTokenJti
        mcpServer := hsame.mcpServer
        toolName := hsame.toolName
        argumentsHash := hsame.argumentsHash
        decision := (hr.decision_eq hs).mp hsame.decision
        denyReason := hsame.denyReason
        latencyMs := Int.cast_injective hlatency
        traceId := hsame.traceId }
  · intro h
    have hdate : r.ts.date = s.ts.date := by
      unfold Timestamptz.date
      simp only [h.ts]
    have hrow : (toLink r).toAuditRowInput = (toLink s).toAuditRowInput := by
      unfold toLink
      rw [h.id, hdate, h.tenantId, h.userId, h.actorTokenJti, h.mcpServer, h.toolName,
        h.argumentsHash, h.decision, h.denyReason, h.latencyMs, h.traceId]
    have htext : storedText numberText r = storedText numberText s :=
      congrArg (canonicalRow numberText) hrow
    exact Except.ok.inj (hm.symm.trans (htext.trans hn))

end

end

-- ---------------------------------------------------------------------------
-- Replacing a row
-- ---------------------------------------------------------------------------

def AuditEvent.inPlaceOf (s r : AuditEvent) : AuditEvent :=
  { s with seq := r.seq, prevHash := r.prevHash, rowHash := r.rowHash }

def replaceRow (r s e : AuditEvent) : AuditEvent := if e = r then s.inPlaceOf r else e

def Db.replace (db : Db) (r s : AuditEvent) : Db := { db with rows := db.rows.map (replaceRow r s) }

section
variable (numberText : ℚ → JsString) (tenantId : JsString) (batchSize : Nat) (db : Db)

def GetsTo (walk : Walk) (e : AuditEvent) : Prop :=
  ∃ k start pre post,
    (Verification.step numberText tenantId batchSize db)^[k] (.page (.start tenantId)) =
      .page start ∧
    db.selectPage numberText tenantId batchSize start.afterSeq = some (pre ++ e :: post) ∧
    start.checkRows numberText tenantId (pre.map toLink) = .ok walk ∧ walk.firstBreak = none

def VerifiesRow (e : AuditEvent) : Prop :=
  ∃ walk walk', GetsTo numberText tenantId batchSize db walk e ∧
    walk.checkRow numberText tenantId (toLink e) = .ok walk' ∧ walk'.firstBreak = none

end

def BreaksAt (e : AuditEvent) (failure : VerificationBreak) : Prop :=
  failure.seq = some (numberOf e.seq) ∧ failure.id = e.id

/-- The texts that are hashed for the two rows differ, and put in the place of the first row the
second is found by every verification that gets to it, unless the two hashed strings collide; one
of the tenant of the first row does. -/
structure Detected (numberText : ℚ → JsString) (r s : AuditEvent) : Prop where
  texts : ∃ m n, storedText numberText r = .ok m ∧ storedText numberText s = .ok n ∧ m ≠ n
  breaks : ∀ db batchSize, (db.rows.map (·.seq)).Nodup →
    VerifiesRow numberText r.tenantId batchSize db r →
    (s.tenantId = r.tenantId → ∃ walk,
      GetsTo numberText s.tenantId batchSize (db.replace r s) walk (s.inPlaceOf r)) ∧
    ∀ walk, GetsTo numberText s.tenantId batchSize (db.replace r s) walk (s.inPlaceOf r) →
      (∃ result failure,
        verifyTenantChain numberText s.tenantId batchSize (db.replace r s) = some (.ok result) ∧
        result.firstBreak = some failure ∧ BreaksAt (s.inPlaceOf r) failure) ∨
      ∃ m n, storedText numberText r = .ok m ∧ storedText numberText s = .ok n ∧
        HashChain.Collision (auditChain numberText)
          [trim r.prevHash ++ m, trim r.prevHash ++ n]

section
variable {numberText : ℚ → JsString} {tenantId : JsString} {batchSize : Nat} {db : Db}
  {r s e : AuditEvent} {walk walk' start : Walk} {pre post page rows : List AuditEvent}

-- ---------------------------------------------------------------------------
-- From a break to the result
-- ---------------------------------------------------------------------------

theorem checkRows_append {links rest : List ChainLink}
    (h : start.checkRows numberText tenantId links = .ok walk) (hnone : walk.firstBreak = none) :
    start.checkRows numberText tenantId (links ++ rest) =
      walk.checkRows numberText tenantId rest := by
  induction links generalizing start with
  | nil =>
    cases h
    rfl
  | cons link links ih =>
    rw [Walk.checkRows] at h
    obtain ⟨next, hnext, h⟩ := bind_eq_ok.mp h
    rw [List.cons_append, Walk.checkRows, hnext, ok_bind]
    split at h
    · next hsome =>
      cases h
      rw [hnone] at hsome
      cases hsome
    · next hgoes =>
      rw [if_neg hgoes]
      exact ih h

theorem finish_iterate {v : Verification} {fuel : Nat}
    {outcome : Except VerifierError ChainVerificationResult}
    (h : v.finish numberText tenantId batchSize db fuel = some outcome) :
    ∃ k, (Verification.step numberText tenantId batchSize db)^[k] v = .done outcome := by
  induction fuel generalizing v with
  | zero =>
    cases v with
    | done o =>
      cases h
      exact ⟨0, rfl⟩
    | page => cases h
    | head => cases h
  | succ fuel ih =>
    cases v with
    | done o =>
      cases h
      exact ⟨0, rfl⟩
    | page walk =>
      obtain ⟨k, hk⟩ := ih h
      exact ⟨k + 1, hk⟩
    | head walk =>
      obtain ⟨k, hk⟩ := ih h
      exact ⟨k + 1, hk⟩

theorem iterate_done (k : Nat) (outcome : Except VerifierError ChainVerificationResult) :
    (Verification.step numberText tenantId batchSize db)^[k] (.done outcome) = .done outcome :=
  Function.iterate_fixed rfl k

theorem done_unique {v : Verification} {j k : Nat}
    {outcome outcome' : Except VerifierError ChainVerificationResult}
    (h : (Verification.step numberText tenantId batchSize db)^[j] v = .done outcome)
    (h' : (Verification.step numberText tenantId batchSize db)^[k] v = .done outcome') :
    outcome = outcome' := by
  have hj : (Verification.step numberText tenantId batchSize db)^[k + j] v = .done outcome := by
    rw [Function.iterate_add_apply, h, iterate_done]
  have hk : (Verification.step numberText tenantId batchSize db)^[k + j] v = .done outcome' := by
    rw [Nat.add_comm, Function.iterate_add_apply, h', iterate_done]
  exact Verification.done.inj (hj.symm.trans hk)

theorem reported_of_getsTo (hseq : ((db.tenantRows tenantId).map (·.seq)).Nodup)
    (h : GetsTo numberText tenantId batchSize db walk e)
    (hcheck : walk.checkRow numberText tenantId (toLink e) = .ok walk')
    {failure : VerificationBreak} (hbreak : walk'.firstBreak = some failure) :
    ∃ result, verifyTenantChain numberText tenantId batchSize db = some (.ok result) ∧
      result.firstBreak = some failure := by
  obtain ⟨k, start, pre, post, hk, hpage, hpre, hnone⟩ := h
  have hrows : start.checkRows numberText tenantId ((pre ++ e :: post).map toLink) = .ok walk' := by
    rw [List.map_append, checkRows_append hpre hnone, List.map_cons, Walk.checkRows, hcheck, ok_bind,
      if_pos (by rw [hbreak]; rfl)]
    rfl
  have hne : pre ++ e :: post ≠ [] := List.append_ne_nil_of_right_ne_nil _ (List.cons_ne_nil _ _)
  have hstep := step_page_ok hpage hne hrows
  rw [if_pos (.inl (by rw [hbreak]; rfl))] at hstep
  obtain ⟨outcome, houtcome⟩ : ∃ outcome,
      verifyTenantChain numberText tenantId batchSize db = some outcome :=
    verifyTenantChain_ends hseq
  obtain ⟨j, hj⟩ := finish_iterate houtcome
  have hdone : (Verification.step numberText tenantId batchSize db)^[2 + k]
      (.page (.start tenantId)) = .done (.ok (compareHead tenantId walk'.rowsChecked
        walk'.firstBreak walk'.expected (db.recordedHead tenantId))) := by
    rw [Function.iterate_add_apply, hk, Function.iterate_succ_apply, Function.iterate_one, hstep]
    rfl
  refine ⟨_, houtcome.trans (congrArg some (done_unique hj hdone)), ?_⟩
  rw [hbreak, compareHead_broken]

-- ---------------------------------------------------------------------------
-- The replaced row
-- ---------------------------------------------------------------------------

theorem rowHash_of_checkRow (hcheck : walk.checkRow numberText tenantId (toLink r) = .ok walk')
    (hnone : walk'.firstBreak = none) : (numberOf r.seq).lessEq walk.lastSeq = false ∧
      ∃ m, storedText numberText r = .ok m ∧
        sha256Hex (trim r.prevHash ++ m) = trim r.rowHash := by
  unfold Walk.checkRow at hcheck
  dsimp only [toLink, Option.getD_some] at hcheck
  by_cases hle : (numberOf r.seq).lessEq walk.lastSeq = true
  · rw [if_pos hle] at hcheck
    cases hcheck
    cases hnone
  · rw [if_neg hle] at hcheck
    obtain ⟨failure, hlink, hcheck⟩ := bind_eq_ok.mp hcheck
    cases failure with
    | some failure =>
      cases hcheck
      cases hnone
    | none =>
      obtain ⟨hprev, m, hm, hhash⟩ := follows_iff.mp (verifyLink_none_iff.mp hlink)
      dsimp only at hprev
      rw [← hprev] at hhash
      exact ⟨eq_false_of_ne_true hle, m, hm, hhash⟩

/-- At a row with other hashed columns a walk finds a break, unless two strings collide. -/
theorem checkRow_replaced {m n : JsString}
    (hhash : sha256Hex (trim r.prevHash ++ m) = trim r.rowHash)
    (hn : storedText numberText s = .ok n) (hne : m ≠ n) (walk : Walk) :
    (∃ walk' failure, walk.checkRow numberText tenantId (toLink (s.inPlaceOf r)) = .ok walk' ∧
        walk'.firstBreak = some failure ∧ BreaksAt (s.inPlaceOf r) failure) ∨
      HashChain.Collision (auditChain numberText)
        [trim r.prevHash ++ m, trim r.prevHash ++ n] := by
  by_cases hsame : sha256Hex (trim r.prevHash ++ n) = trim r.rowHash
  · refine .inr ⟨_, List.mem_cons_self, _, List.mem_cons_of_mem _ List.mem_cons_self, ?_,
      hhash.trans hsame.symm⟩
    exact fun h => hne (List.append_cancel_left h)
  · refine .inl ?_
    by_cases hle : (numberOf r.seq).lessEq walk.lastSeq = true
    · exact ⟨_, _, if_pos hle, rfl, rfl, rfl⟩
    · have hlink : ∃ failure,
          verifyLink numberText (toLink (s.inPlaceOf r)) walk.expected = .ok (some failure) := by
        by_cases hprev : trim r.prevHash = walk.expected
        · have hrow : canonicalRow numberText (toLink (s.inPlaceOf r)).toAuditRowInput = .ok n := hn
          have hkept : ¬ (toLink (s.inPlaceOf r)).prevHash ≠ walk.expected := not_not_intro hprev
          unfold verifyLink computeRowHash
          rw [if_neg hkept, hrow]
          exact ⟨_, if_pos hsame⟩
        · exact ⟨_, if_pos hprev⟩
      obtain ⟨failure, hlink⟩ := hlink
      obtain ⟨hseq, hid, -⟩ := verifyLink_failure hlink
      refine ⟨{ walk with lastSeq := numberOf r.seq, firstBreak := some failure }, failure, ?_, rfl,
        hseq, hid⟩
      have hgoes : ¬ ((toLink (s.inPlaceOf r)).seq.getD (.finite 0)).lessEq walk.lastSeq = true := hle
      unfold Walk.checkRow
      dsimp only
      rw [if_neg hgoes, hlink]
      rfl

theorem replaceRow_seq (e : AuditEvent) : (replaceRow r s e).seq = e.seq := by
  unfold replaceRow
  split
  · next h =>
    rw [h]
    rfl
  · rfl

theorem selectPage_replace (htenant : s.tenantId = r.tenantId) (afterSeq : JsNumber) :
    (db.replace r s).selectPage numberText tenantId batchSize afterSeq =
      (db.selectPage numberText tenantId batchSize afterSeq).map (List.map (replaceRow r s)) := by
  have htenantOf (e : AuditEvent) : (replaceRow r s e).tenantId = e.tenantId := by
    unfold replaceRow
    split
    · next h =>
      rw [h]
      exact htenant
    · rfl
  have htenants : (fun e : AuditEvent => e.tenantId == tenantId) ∘ replaceRow r s =
      fun e => e.tenantId == tenantId := funext fun e => congrArg (· == tenantId) (htenantOf e)
  have hbound (bound : ℤ) : (fun e : AuditEvent => decide (bound < e.seq)) ∘ replaceRow r s =
      fun e => decide (bound < e.seq) := funext fun e => by
    dsimp only [Function.comp_apply]
    rw [replaceRow_seq]
  unfold Db.selectPage Db.tenantRows Db.replace orderBySeq
  rw [Option.map_map]
  congr 1
  funext bound
  dsimp only [Function.comp_apply]
  rw [List.map_take, List.map_insertionSort _ (fun e f : AuditEvent => e.seq ≤ f.seq),
    List.filter_map, List.filter_map, htenants, hbound]
  · intro e _ f _
    rw [replaceRow_seq, replaceRow_seq]

theorem map_replaceRow (h : r ∉ rows) : rows.map (replaceRow r s) = rows := by
  have hself : ∀ e ∈ rows, replaceRow r s e = e := fun e he =>
    if_neg fun heq : e = r => h (heq ▸ he)
  rw [List.map_congr_left hself, List.map_id']

/-- The walks over the table before the row was replaced and after it are one until they get to
the row. -/
theorem iterate_replace (htenant : s.tenantId = r.tenantId) {k : Nat}
    (h : (Verification.step numberText tenantId batchSize db)^[k] (.page (.start tenantId)) =
      .page start) :
    ∃ rows, start = .after tenantId rows ∧
      Walked numberText tenantId (orderBySeq (db.tenantRows tenantId)) rows ∧
      (r ∉ rows → (Verification.step numberText tenantId batchSize (db.replace r s))^[k]
        (.page (.start tenantId)) = .page start) := by
  induction k generalizing start with
  | zero =>
    cases h
    exact ⟨[], rfl, walked_nil, fun _ => rfl⟩
  | succ k ih =>
    rw [Function.iterate_succ_apply'] at h
    cases hstate : (Verification.step numberText tenantId batchSize db)^[k]
        (.page (.start tenantId)) with
    | head walk =>
      rw [hstate] at h
      cases h
    | done outcome =>
      rw [hstate] at h
      cases h
    | page walk =>
      rw [hstate] at h
      obtain ⟨rows, rfl, hwalked, hsame⟩ := ih hstate
      cases hpage : db.selectPage numberText tenantId batchSize (Walk.after tenantId rows).afterSeq with
      | none =>
        rw [step_page_none hpage] at h
        cases h
      | some page =>
        by_cases hne : page = []
        · subst hne
          rw [step_page_nil hpage] at h
          cases h
        · have hout := pageOutcome_checkRows hwalked.verified page
          generalize hcheck : (Walk.after tenantId rows).checkRows numberText tenantId
            (page.map toLink) = w at hout
          cases hout with
          | verified _ hverified hrises =>
            rw [step_page_ok hpage hne hcheck] at h
            split at h
            · cases h
            · next hgoes =>
              cases h
              refine ⟨rows ++ page, rfl, hwalked.append hverified hrises (mem_of_selectPage hpage),
                fun hr => ?_⟩
              rw [List.mem_append, not_or] at hr
              have hkept : page.map (replaceRow r s) = page :=
                map_replaceRow hr.2
              have hpage' : (db.replace r s).selectPage numberText tenantId batchSize
                  (Walk.after tenantId rows).afterSeq = some page := by
                rw [selectPage_replace htenant, hpage, Option.map_some, hkept]
              rw [Function.iterate_succ_apply', hsame hr.1, step_page_ok hpage' hne hcheck,
                if_neg hgoes]
          | broken page e rest failure hverified hrises hlink =>
            rw [step_page_ok hpage hne hcheck, if_pos (.inl rfl)] at h
            cases h
          | disordered page e rest hverified hrises hfalls =>
            rw [step_page_ok hpage hne hcheck, if_pos (.inl rfl)] at h
            cases h
          | threw page e rest error hverified hrises hlink =>
            rw [step_page_threw hpage hne hcheck] at h
            cases h

/-- A verification of the tenant gets to the row that replaces one it verified. -/
theorem getsTo_replaced (htenant : s.tenantId = r.tenantId)
    (h : VerifiesRow numberText tenantId batchSize db r) :
    ∃ walk, GetsTo numberText tenantId batchSize (db.replace r s) walk (s.inPlaceOf r) := by
  obtain ⟨walk, walk', ⟨k, start, pre, post, hk, hpage, hpre, hnone⟩, hcheck, hnone'⟩ := h
  obtain ⟨rows, rfl, hwalked, hsame⟩ := iterate_replace htenant hk
  have hsub : pre ++ r :: post ⊆ orderBySeq (db.tenantRows tenantId) := mem_of_selectPage hpage
  have hout := pageOutcome_checkRows hwalked.verified pre
  rw [hpre] at hout
  cases hout with
  | verified _ hverified hrises =>
    have hread : Walked numberText tenantId (orderBySeq (db.tenantRows tenantId)) (rows ++ pre) :=
      hwalked.append hverified hrises (List.append_subset.mp hsub).1
    have hrise : Rises (rows ++ pre) r := (rowHash_of_checkRow hcheck hnone').1
    have hfresh : r ∉ rows ++ pre := fun hr => by
      have hlt := hrise.seq_lt hread.increasing r hr
      exact absurd hlt (lt_irrefl _)
    rw [List.mem_append, not_or] at hfresh
    refine ⟨_, k, _, pre, post.map (replaceRow r s), hsame hfresh.1, ?_, hpre, hnone⟩
    rw [selectPage_replace htenant, hpage, Option.map_some, List.map_append, List.map_cons,
      map_replaceRow hfresh.2]
    congr 3
    exact if_pos rfl
  | broken => cases hnone
  | disordered => cases hnone

theorem nodup_replace (h : (db.rows.map (·.seq)).Nodup) (tenantId : JsString) :
    (((db.replace r s).tenantRows tenantId).map (·.seq)).Nodup := by
  have hseq : (db.replace r s).rows.map (·.seq) = db.rows.map (·.seq) := by
    unfold Db.replace
    rw [List.map_map]
    exact List.map_congr_left fun e _ => replaceRow_seq e
  rw [← hseq] at h
  exact h.sublist (List.filter_sublist.map _)

theorem detected_of_texts
    (h : ∃ m n, storedText numberText r = .ok m ∧ storedText numberText s = .ok n ∧ m ≠ n) :
    Detected numberText r s := by
  refine ⟨h, fun db batchSize hseq hverifies => ⟨fun htenant => ?_, fun walk hgets => ?_⟩⟩
  · rw [htenant]
    exact getsTo_replaced htenant hverifies
  · obtain ⟨m, n, hm, hn, hne⟩ := h
    obtain ⟨_, _, -, hcheck, hnone⟩ := hverifies
    obtain ⟨-, m', hm', hhash⟩ := rowHash_of_checkRow hcheck hnone
    cases hm.symm.trans hm'
    rcases checkRow_replaced hhash hn hne walk with ⟨walk', failure, hrow, hbreak, hat⟩ | hcollision
    · obtain ⟨result, hresult, hfirst⟩ := reported_of_getsTo (nodup_replace hseq _) hgets hrow hbreak
      exact .inl ⟨result, failure, hresult, hfirst, hat⟩
    · exact .inr ⟨m, n, hm, hn, hcollision⟩

end

/-- A change of a stored row is found exactly when the two rows have times that a date holds and
are read differently. -/
theorem stored_change_detected_iff (numberText : ℚ → JsString) (hnum : NumberText numberText)
    (r s : AuditEvent) (hr : Admitted r) (hs : Admitted s) :
    (¬ SameStored r s → Detected numberText r s) ↔
      SameStored r s ∨ (Dated r ∧ Dated s ∧ ¬ SameRead r s) := by
  constructor
  · intro h
    by_cases hsame : SameStored r s
    · exact .inl hsame
    · obtain ⟨m, n, hm, hn, hne⟩ := (h hsame).texts
      exact .inr ⟨(storedText_ok hnum hr).mp ⟨m, hm⟩, (storedText_ok hnum hs).mp ⟨n, hn⟩,
        fun hread => hne ((storedText_eq hnum hr hs hm hn).mpr hread)⟩
  · rintro (hsame | ⟨hdated, hdated', hread⟩) hne
    · exact absurd hsame hne
    · obtain ⟨m, hm⟩ := (storedText_ok hnum hr).mpr hdated
      obtain ⟨n, hn⟩ := (storedText_ok hnum hs).mpr hdated'
      exact detected_of_texts ⟨m, n, hm, hn, fun h => hread ((storedText_eq hnum hr hs hm hn).mp h)⟩

def novemberRow (micros : ℤ) : AuditEvent where
  seq := 1
  id := js "018bcfe5-6800-7000-8000-000000000001"
  ts := ⟨1700000000000000 + micros⟩
  tenantId := js "acme"
  userId := js "usr_alice"
  actorTokenJti := js "jti-1"
  mcpServer := js "salesforce"
  toolName := js "sf.query"
  argumentsHash := List.replicate 64 (unit 'a')
  decision := js "allow"
  denyReason := none
  latencyMs := 12
  traceId := none
  prevHash := List.replicate 64 (unit '0')
  rowHash := List.replicate 64 (unit '0')

theorem novemberRow_admitted {micros : ℤ} (h : 0 ≤ micros ∧ micros < 1000000) :
    Admitted (novemberRow micros) where
  ts := by
    show -210866803200000000 ≤ 1700000000000000 + micros ∧
      1700000000000000 + micros < 9224318016000000000
    omega
  argumentsHash := show charLength (List.replicate 64 (unit 'a')) = 64 from by decide +kernel
  decision := .inl rfl
  latencyMs := show (0 : ℤ) ≤ 12 ∧ (12 : ℤ) ≤ 2147483647 from by decide
  prevHash := show charLength (List.replicate 64 (unit '0')) = 64 from by decide +kernel
  rowHash := show charLength (List.replicate 64 (unit '0')) = 64 from by decide +kernel
  texts := by
    show ∀ s ∈ [js "acme", js "usr_alice", js "jti-1", js "salesforce", js "sf.query",
      List.replicate 64 (unit 'a'), List.replicate 64 (unit '0'), List.replicate 64 (unit '0')],
      isText s = true
    decide +kernel

/-- A change of the time by microseconds is not found. -/
theorem microseconds_not_detected :
    Admitted (novemberRow 0) ∧ Admitted (novemberRow 999) ∧
      ¬ (¬ SameStored (novemberRow 0) (novemberRow 999) →
        Detected fractionText (novemberRow 0) (novemberRow 999)) := by
  have hr : Admitted (novemberRow 0) := novemberRow_admitted (by decide)
  have hs : Admitted (novemberRow 999) := novemberRow_admitted (by decide)
  refine ⟨hr, hs, fun h => ?_⟩
  have hdiffer : ¬ SameStored (novemberRow 0) (novemberRow 999) := fun hsame =>
    absurd hsame.ts (by decide)
  have hread : SameRead (novemberRow 0) (novemberRow 999) := by
    constructor <;> rfl
  obtain ⟨m, n, hm, hn, hne⟩ := (h hdiffer).texts
  exact hne ((storedText_eq numberText_fractionText hr hs hm hn).mpr hread)

theorem microseconds_detected_iff :
    (¬ SameStored (novemberRow 0) (novemberRow 999) →
        Detected fractionText (novemberRow 0) (novemberRow 999)) ↔
      SameStored (novemberRow 0) (novemberRow 999) ∨
        (Dated (novemberRow 0) ∧ Dated (novemberRow 999) ∧
          ¬ SameRead (novemberRow 0) (novemberRow 999)) :=
  stored_change_detected_iff fractionText numberText_fractionText (novemberRow 0) (novemberRow 999)
    (novemberRow_admitted (by decide)) (novemberRow_admitted (by decide))

end McpGateway.Audit
