import McpGateway.Audit.Commits

/-!
# Deleted rows

Rows are taken out of the events and the heads are left alone. A tenant that
keeps a row is still visited, and its chain no longer ends at the recorded head;
a tenant that keeps none is not visited at all.
-/

namespace McpGateway.Audit

open Js Shared Outcome Transition

/-- The tables after the rows that are not in `kept` were deleted. -/
def Db.keep (db : Db) (kept : List AuditEvent) : Db := { db with rows := kept }

/-- The tenant has lost a row and still has one. -/
def LostSome (db : Db) (kept : List AuditEvent) (tenantId : JsString) : Prop :=
  (db.keep kept).tenantRows tenantId ≠ db.tenantRows tenantId ∧
    (db.keep kept).tenantRows tenantId ≠ []

section
variable {numberText : ℚ → JsString} {tenantId : JsString} {db : Db} {kept : List AuditEvent}
  {batchSize : Nat}

-- ---------------------------------------------------------------------------
-- One tenant after another
-- ---------------------------------------------------------------------------

theorem mem_tenants : tenantId ∈ db.tenants ↔ db.tenantRows tenantId ≠ [] := by
  rw [Db.tenants, (List.perm_insertionSort _ _).mem_iff, List.mem_dedup, List.mem_map, Db.tenantRows,
    ne_eq, List.filter_eq_nil_iff]
  simp

theorem verifyTenants_ok {tenants : List JsString} {results : List ChainVerificationResult}
    (h : verifyTenants numberText batchSize db tenants = some (.ok results)) :
    (∀ t ∈ tenants, ∃ r ∈ results, verifyTenantChain numberText t batchSize db = some (.ok r)) ∧
      ∀ r ∈ results, ∃ t ∈ tenants, verifyTenantChain numberText t batchSize db = some (.ok r) := by
  induction tenants generalizing results with
  | nil =>
    cases h
    exact ⟨nofun, nofun⟩
  | cons tenantId tenants ih =>
    rw [verifyTenants] at h
    cases hone : verifyTenantChain numberText tenantId batchSize db with
    | none => simp [hone] at h
    | some outcome =>
      cases outcome with
      | error e => simp [hone] at h
      | ok r =>
        simp only [hone] at h
        obtain ⟨rest, hrest, hmap⟩ := Option.map_eq_some_iff.mp h
        obtain ⟨results, rfl, rfl⟩ := map_eq_ok.mp hmap
        obtain ⟨hvisited, hresults⟩ := ih hrest
        simp only [List.forall_mem_cons, List.exists_mem_cons_iff]
        exact ⟨⟨.inl hone, fun t ht => .inr (hvisited t ht)⟩,
          .inl hone, fun r hr => .inr (hresults r hr)⟩

theorem verifyTenants_returns {tenants : List JsString}
    (h : ∀ tenantId ∈ tenants, ∃ r, verifyTenantChain numberText tenantId batchSize db = some (.ok r)) :
    ∃ results, verifyTenants numberText batchSize db tenants = some (.ok results) := by
  induction tenants with
  | nil => exact ⟨[], rfl⟩
  | cons tenantId tenants ih =>
    rw [List.forall_mem_cons] at h
    obtain ⟨⟨r, hr⟩, hrest⟩ := h
    obtain ⟨results, hresults⟩ := ih hrest
    refine ⟨r :: results, ?_⟩
    rw [verifyTenants, hr]
    simp only [hresults]
    rfl

theorem verifyTenants_ends {tenants : List JsString}
    (h : ∀ tenantId ∈ tenants, ∃ outcome,
      verifyTenantChain numberText tenantId batchSize db = some outcome) :
    ∃ outcome, verifyTenants numberText batchSize db tenants = some outcome := by
  induction tenants with
  | nil => exact ⟨_, rfl⟩
  | cons tenantId tenants ih =>
    rw [List.forall_mem_cons] at h
    obtain ⟨⟨outcome, hone⟩, hrest⟩ := h
    obtain ⟨outcomes, hresults⟩ := ih hrest
    rw [verifyTenants, hone]
    cases outcome with
    | error e => exact ⟨_, rfl⟩
    | ok r => exact ⟨_, by simp only [hresults]; rfl⟩

-- ---------------------------------------------------------------------------
-- A tenant's rows after a deletion
-- ---------------------------------------------------------------------------

theorem tenantRows_keep (hsub : kept.Sublist db.rows) (tenantId : JsString) :
    ((db.keep kept).tenantRows tenantId).Sublist (db.tenantRows tenantId) :=
  hsub.filter _

theorem keep_increasing (hinv : Inv numberText db) (hsub : kept.Sublist db.rows) :
    ((db.keep kept).tenantRows tenantId).Pairwise (·.seq < ·.seq) :=
  (hinv.tenants tenantId).increasing.sublist (tenantRows_keep hsub tenantId)

theorem keep_seq_nodup (hinv : Inv numberText db) (hsub : kept.Sublist db.rows) :
    (((db.keep kept).tenantRows tenantId).map (·.seq)).Nodup :=
  List.pairwise_map.mpr ((keep_increasing hinv hsub).imp fun h => ne_of_lt h)

theorem orderBySeq_keep (hinv : Inv numberText db) (hsub : kept.Sublist db.rows) :
    orderBySeq ((db.keep kept).tenantRows tenantId) = (db.keep kept).tenantRows tenantId :=
  orderBySeq_of_increasing (keep_increasing hinv hsub)

theorem collision_of_lost (hnum : NumberText numberText) (hinv : Inv numberText db)
    {rows : List AuditEvent} (hrows : rows.Sublist (db.tenantRows tenantId))
    (hne : rows.length ≠ (db.tenantRows tenantId).length) (hverified : Verified numberText tenantId rows)
    (hhead : headHash tenantId (rows.map toLink) = (db.head tenantId).prevHash) :
    DigestCollision (walkTexts numberText tenantId (db.links tenantId)) := by
  have htenant := hinv.tenants tenantId
  refine HashChain.collision_of_dropped (separated_auditChain hnum tenantId) htenant.chained
    hverified (hrows.map toLink) (by simpa [Db.links] using hne) ?_
  exact (last_eq_headHash _).trans (hhead.trans htenant.prevHash)

theorem verifyLink_returns {link : ChainLink}
    (h : canonicalRow numberText link.toAuditRowInput = .ok s) (d : JsString) :
    ∃ failure, verifyLink numberText link d = .ok failure := by
  unfold verifyLink
  split
  · exact ⟨_, rfl⟩
  · rw [computeRowHash, h]
    simp only [ok_bind, pure, Except.pure]
    split <;> exact ⟨_, rfl⟩

theorem verifyRest_returns {rows rest : List AuditEvent}
    (h : ∀ e ∈ rest, ∃ s, canonicalRow numberText (toLink e).toAuditRowInput = .ok s) :
    ∃ r, verifyRest numberText tenantId db rows rest = .ok r := by
  induction rest generalizing rows with
  | nil => exact ⟨_, verifyRest_nil⟩
  | cons e rest ih =>
    rw [List.forall_mem_cons] at h
    obtain ⟨s, hs⟩ := h.1
    obtain ⟨failure, hlink⟩ := verifyLink_returns hs (headHash tenantId (rows.map toLink))
    rw [verifyRest_cons, hlink]
    cases failure with
    | some failure => exact ⟨_, rfl⟩
    | none => exact ih h.2

-- ---------------------------------------------------------------------------
-- What the verifier finds
-- ---------------------------------------------------------------------------

theorem compareHead_valid (h : (compareHead tenantId n firstBreak d recorded).valid = true) :
    firstBreak = none ∧ ∀ head ∈ recorded, head = d := by
  unfold compareHead at h
  cases firstBreak with
  | some failure => simp at h
  | none =>
    refine ⟨rfl, fun head hhead => ?_⟩
    cases hhead
    simpa using h

theorem collision_of_valid (hnum : NumberText numberText) (hinv : Inv numberText db)
    (hsub : kept.Sublist db.rows) (hlost : LostSome db kept tenantId)
    (hr : verifyTenantChain numberText tenantId batchSize (db.keep kept) = some (.ok r))
    (hvalid : r.valid = true) :
    DigestCollision (walkTexts numberText tenantId (db.links tenantId)) := by
  have htenant := hinv.tenants tenantId
  have hkeep := tenantRows_keep hsub tenantId
  have hseq : (((db.keep kept).tenantRows tenantId).map (·.seq)).Nodup := keep_seq_nodup hinv hsub
  obtain ⟨outcome, hfinish, hends⟩ :=
    finish_ends hseq walked_nil (Nat.le_of_eq (Nat.zero_add _).symm)
  cases hfinish.symm.trans hr
  obtain ⟨final, next, -, hwalked, hend⟩ := hends r rfl
  rw [orderBySeq_keep hinv hsub] at hwalked
  cases hend with
  | broken e failure => cases (compareHead_valid hvalid).1
  | disordered e failure => cases (compareHead_valid hvalid).1
  | clean =>
    have hfinal := (hwalked.sublist (keep_increasing hinv hsub))
    have hshort : ((db.keep kept).tenantRows tenantId).length < (db.tenantRows tenantId).length :=
      lt_of_le_of_ne hkeep.length_le fun h => hlost.1 (hkeep.eq_of_length h)
    refine collision_of_lost hnum hinv (hfinal.trans hkeep) ?_ hwalked.verified ?_
    · exact ne_of_lt (hfinal.length_le.trans_lt hshort)
    · have hrecorded := (compareHead_valid hvalid).2
      cases hhead : db.heads tenantId with
      | none =>
        have hnil := List.sublist_nil.mp (htenant.noHead hhead ▸ hkeep)
        exact absurd hnil hlost.2
      | some head =>
        have hdigest := htenant.isDigest_head
        rw [Db.head, hhead, Option.getD_some] at hdigest ⊢
        rw [← hrecorded (trim head.prevHash) (by simp [Db.recordedHead, Db.keep, hhead])]
        exact trim_digest hdigest

section
variable (hnum : NumberText numberText) (hinv : Inv numberText db) (hpos : SeqsPositive db)
  (hsmall : db.nextSeq ≤ 2 ^ 53 + 1) (hsub : kept.Sublist db.rows)
include hnum hinv hpos hsmall hsub

theorem verifyTenantChain_keep (hbatch : 1 ≤ batchSize) :
    verifyTenantChain numberText tenantId batchSize (db.keep kept) =
      some ((verifyRest numberText tenantId (db.keep kept) []
        ((db.keep kept).tenantRows tenantId)).mapError .js) := by
  have hkeep := tenantRows_keep hsub tenantId
  have hreads : WalkReads numberText tenantId batchSize
      (orderBySeq ((db.keep kept).tenantRows tenantId)) := by
    rw [orderBySeq_keep hinv hsub]
    refine walkReads_of_exact hnum (keep_increasing hinv hsub) (fun e he => ?_) batchSize
    exact seqExact_of_inv hinv hpos hsmall (hkeep.subset he)
  exact finish_of_reads (keep_seq_nodup hinv hsub) hbatch hreads (orderBySeq_keep hinv hsub)
    verified_nil (dvd_zero _) (le_refl _)

theorem verifyTenantChain_returns (hbatch : 1 ≤ batchSize) :
    ∃ r, verifyTenantChain numberText tenantId batchSize (db.keep kept) = some (.ok r) := by
  have htenant := hinv.tenants tenantId
  have hhashed := (wellFormedChain_of_chained htenant.chained htenant.digests).2.2
  obtain ⟨r, hr⟩ : ∃ r, verifyRest numberText tenantId (db.keep kept) []
      ((db.keep kept).tenantRows tenantId) = .ok r := by
    refine verifyRest_returns fun e he => ?_
    obtain ⟨s, hs, -⟩ := computeRowHash_ok (hhashed e ((tenantRows_keep hsub tenantId).subset he))
    exact ⟨s, hs⟩
  refine ⟨r, ?_⟩
  rw [verifyTenantChain_keep hnum hinv hpos hsmall hsub hbatch, hr]
  rfl

theorem valid_of_intact (hbatch : 1 ≤ batchSize)
    (hintact : (db.keep kept).tenantRows tenantId = db.tenantRows tenantId)
    (hr : verifyTenantChain numberText tenantId batchSize (db.keep kept) = some (.ok r)) :
    r.valid = true := by
  have htenant := hinv.tenants tenantId
  have hwhole : verifyRest numberText tenantId (db.keep kept) [] (db.tenantRows tenantId ++ []) =
      verifyRest numberText tenantId (db.keep kept) ([] ++ db.tenantRows tenantId) [] :=
    verifyRest_append htenant.chained
  rw [List.append_nil, verifyRest_nil, List.nil_append] at hwhole
  rw [verifyTenantChain_keep hnum hinv hpos hsmall hsub hbatch, hintact, hwhole] at hr
  cases hr
  exact congrArg (·.valid) (compareHead_tenantOk (db.tenantRows tenantId).length htenant)

end

end

/-- Rows are deleted from a log that appends wrote, and the heads are left.
`verifyAllChains` ends. When it returns, and some tenant that lost a row has one
left, one of its results is not valid, or the deletion has exhibited a collision.
As long as the sequence has not passed 2^53 it does return, and a result that is
not valid is only found when some tenant that lost a row has one left. -/
theorem deletion_detected_iff (numberText : ℚ → JsString) (hnum : NumberText numberText)
    (batchSize : Nat) (hbatch : 1 ≤ batchSize) (actions : List Action) (db : Db)
    (hrun : run (Db.step numberText) Db.empty actions = some db) (kept : List AuditEvent)
    (hsub : kept.Sublist db.rows) :
    ∃ outcome, verifyAllChains numberText batchSize (db.keep kept) = some outcome ∧
      (∀ results, outcome = .ok results → (∃ tenantId, LostSome db kept tenantId) →
        (∃ r ∈ results, r.valid = false) ∨
          ∃ tenantId, DigestCollision (walkTexts numberText tenantId (db.links tenantId))) ∧
      (db.nextSeq ≤ 2 ^ 53 + 1 → ∃ results, outcome = .ok results ∧
        ((∃ r ∈ results, r.valid = false) → ∃ tenantId, LostSome db kept tenantId)) := by
  have hinv := inv_run hrun
  obtain ⟨outcome, hout⟩ : ∃ outcome,
      verifyAllChains numberText batchSize (db.keep kept) = some outcome :=
    verifyTenants_ends fun tenantId _ => verifyTenantChain_ends (keep_seq_nodup hinv hsub)
  refine ⟨outcome, hout, ?_, fun hsmall => ?_⟩
  · rintro results rfl ⟨tenantId, hlost⟩
    obtain ⟨r, hmem, hr⟩ := (verifyTenants_ok hout).1 tenantId (mem_tenants.mpr hlost.2)
    cases hvalid : r.valid with
    | false => exact .inl ⟨r, hmem, hvalid⟩
    | true => exact .inr ⟨tenantId, collision_of_valid hnum hinv hsub hlost hr hvalid⟩
  · have hpos := seqsPositive_run hrun
    obtain ⟨results, hreturns⟩ : ∃ results,
        verifyAllChains numberText batchSize (db.keep kept) = some (.ok results) :=
      verifyTenants_returns fun tenantId _ =>
        verifyTenantChain_returns hnum hinv hpos hsmall hsub hbatch
    cases hout.symm.trans hreturns
    refine ⟨results, rfl, ?_⟩
    rintro ⟨r, hmem, hinvalid⟩
    obtain ⟨tenantId, htenant, hr⟩ := (verifyTenants_ok hreturns).2 r hmem
    refine ⟨tenantId, fun hintact => ?_, mem_tenants.mp htenant⟩
    have hvalid := valid_of_intact hnum hinv hpos hsmall hsub hbatch hintact hr
    cases hvalid.symm.trans hinvalid

/-- Two rows of a tenant, the second of which is deleted. -/
theorem deletion_detected_tail :
    ∃ db, run (Db.step fractionText) Db.empty racingAppends = some db ∧
      LostSome db (db.rows.take 1) (js "acme") ∧
      ∃ outcome, verifyAllChains fractionText 1000 (db.keep (db.rows.take 1)) = some outcome ∧
        (∀ results, outcome = .ok results → (∃ tenantId, LostSome db (db.rows.take 1) tenantId) →
          (∃ r ∈ results, r.valid = false) ∨
            ∃ tenantId, DigestCollision (walkTexts fractionText tenantId (db.links tenantId))) ∧
        (db.nextSeq ≤ 2 ^ 53 + 1 → ∃ results, outcome = .ok results ∧
          ((∃ r ∈ results, r.valid = false) →
            ∃ tenantId, LostSome db (db.rows.take 1) tenantId)) := by
  have hlost : (run (Db.step fractionText) Db.empty racingAppends).map (fun db =>
      (((db.keep (db.rows.take 1)).tenantRows (js "acme")).length,
        (db.tenantRows (js "acme")).length)) = some (1, 2) := by
    decide +kernel
  obtain ⟨db, hdb, hlengths⟩ := Option.map_eq_some_iff.mp hlost
  obtain ⟨hkept, hall⟩ := Prod.mk.inj hlengths
  refine ⟨db, hdb, ⟨fun h => ?_, fun h => ?_⟩, deletion_detected_iff fractionText
    numberText_fractionText 1000 (by decide) racingAppends db hdb (db.rows.take 1)
    (List.take_sublist 1 db.rows)⟩
  · rw [h, hall] at hkept
    cases hkept
  · rw [h] at hkept
    cases hkept

/-- The only row of the only tenant is deleted: nothing is left to visit. -/
theorem deletion_undetected :
    ∃ db, run (Db.step fractionText) Db.empty appendOnce = some db ∧ db.rows.length = 1 ∧
      verifyAllChains fractionText 1000 (db.keep []) = some (.ok []) := by
  have hrun : (run (Db.step fractionText) Db.empty appendOnce).map (·.rows.length) = some 1 := by
    decide +kernel
  obtain ⟨db, hdb, hlength⟩ := Option.map_eq_some_iff.mp hrun
  exact ⟨db, hdb, hlength, rfl⟩

end McpGateway.Audit
