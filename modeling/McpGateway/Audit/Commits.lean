import McpGateway.Audit.PagedVerifier

/-!
# What a step of the writer changes

Only a commit changes the committed tables, and it adds one row. Every row has a
`seq` the sequence gave, which starts at one.
-/

namespace McpGateway.Audit

open Js Shared Outcome Transition

section
variable {numberText : ℚ → JsString} {db db' : Db} {i j : TxnId} {x y : Txn} {e : AuditEvent}

def Db.Commits (db : Db) (tenantId : JsString) (a : Action) : Prop :=
  ∃ i txn event, a = .statement i ∧ db.txns i = some txn ∧ txn.phase = .commit event ∧
    txn.tenantId = tenantId

theorem lockHead_effect (h : db.lockHead i x = some (db', y)) :
    db'.rows = db.rows ∧ db'.heads = db.heads ∧ db'.txns = db.txns ∧ db'.nextSeq = db.nextSeq ∧
      y.phase = x.phase := by
  obtain ⟨-, rfl, rfl⟩ | ⟨-, -, rfl, rfl⟩ | ⟨-, -, -, rfl, rfl⟩ := lockHead_spec h
  · exact ⟨rfl, rfl, rfl, rfl, rfl⟩
  · exact ⟨rfl, rfl, rfl, rfl, rfl⟩
  · exact ⟨rfl, rfl, rfl, rfl, rfl⟩

/-- A statement that commits nothing: its transaction goes on, and a row it has
inserted is the one it had, or has the next `seq`. -/
structure GoesOn (db db' : Db) (i : TxnId) (x y : Txn) : Prop where
  txns : db'.txns = Function.update db.txns i (some y)
  rows : db'.rows = db.rows
  heads : db'.heads = db.heads
  nextSeq : db.nextSeq ≤ db'.nextSeq
  event : ∀ e, y.event? = some e → x.event? = some e ∨ e.seq = db.nextSeq

theorem createHead_effect (h : db.createHead i x = some db') : ∃ y, GoesOn db db' i x y := by
  unfold Db.createHead at h
  split at h
  · cases h
    exact ⟨_, rfl, rfl, rfl, le_refl _, fun e he => nomatch he⟩
  · split at h
    · cases h
      exact ⟨_, rfl, rfl, rfl, le_refl _, fun e he => nomatch he⟩
    · cases h

theorem selectHead_effect (h : db.selectHead i x = some db') : ∃ y, GoesOn db db' i x y := by
  obtain ⟨⟨db₁, z⟩, hl, h⟩ := Option.bind_eq_some_iff.mp h
  cases h
  obtain ⟨hrows, hheads, htxns, hnext, -⟩ := lockHead_effect hl
  refine ⟨_, congrArg (Function.update · i _) htxns, hrows, hheads, hnext.ge, ?_⟩
  exact fun e he => nomatch he

theorem insertEvent_effect (h : db.insertEvent numberText i x prevHash = some db') :
    ∃ y, GoesOn db db' i x y := by
  obtain ⟨rowHash, e, -, he, -, rfl⟩ := insertEvent_spec h
  refine ⟨_, rfl, rfl, rfl, ?_, fun f hf => .inr ?_⟩
  · show db.nextSeq ≤ db.nextSeq + 1
    omega
  · cases hf
    obtain ⟨t, latencyMs, -, -, rfl⟩ := insertedEvent_inv he
    rfl

theorem updateHead_effect (h : db.updateHead i x e = some db') (hphase : x.phase = .updateHead e) :
    ∃ y, GoesOn db db' i x y := by
  obtain ⟨⟨db₁, z⟩, hl, h⟩ := Option.bind_eq_some_iff.mp h
  cases h
  obtain ⟨hrows, hheads, htxns, hnext, -⟩ := lockHead_effect hl
  refine ⟨_, congrArg (Function.update · i _) htxns, hrows, hheads, hnext.ge, fun f hf => .inl ?_⟩
  rw [Txn.event?, hphase]
  cases hpayload : z.payload.isSome <;> simp only [Txn.event?, hpayload] at hf <;> exact hf

theorem insertPayload_effect (h : db.insertPayload i x e = some db')
    (hphase : x.phase = .insertPayload e) : ∃ y, GoesOn db db' i x y := by
  unfold Db.insertPayload at h
  split at h
  · cases h
    refine ⟨_, rfl, rfl, rfl, le_refl _, fun f hf => .inl ?_⟩
    rw [Txn.event?, hphase]
    exact hf
  · cases h

theorem finish_tables : (db.finish i x).rows = db.rows ∧ (db.finish i x).heads = db.heads ∧
    (db.finish i x).nextSeq = db.nextSeq := by
  unfold Db.finish
  dsimp only
  split <;> exact ⟨rfl, rfl, rfl⟩

theorem commit_effect (h : db.commit i x e = some db') :
    db'.txns = Function.update db.txns i none ∧ db'.rows = db.rows ++ [e] ∧
      (∀ t ≠ x.tenantId, db'.heads t = db.heads t) ∧ db'.nextSeq = db.nextSeq := by
  unfold Db.commit at h
  split at h
  · cases h
    rw [finish_txns, finish_tables.1, finish_tables.2.1, finish_tables.2.2]
    refine ⟨rfl, rfl, fun t ht => ?_, rfl⟩
    cases x.head with
    | none => rfl
    | some head => exact Function.update_of_ne ht ..
  · cases h

theorem statement_effect (h : db.statement numberText i x = some db') :
    (∃ y, GoesOn db db' i x y) ∨ ∃ e, x.phase = .commit e ∧ db.commit i x e = some db' := by
  unfold Db.statement at h
  cases hphase : x.phase with
  | createHead => exact .inl (createHead_effect (by simpa only [hphase] using h))
  | selectHead => exact .inl (selectHead_effect (by simpa only [hphase] using h))
  | insertEvent prevHash => exact .inl (insertEvent_effect (by simpa only [hphase] using h))
  | updateHead e => exact .inl (updateHead_effect (by simpa only [hphase] using h) hphase)
  | insertPayload e => exact .inl (insertPayload_effect (by simpa only [hphase] using h) hphase)
  | commit e => exact .inr ⟨e, rfl, by simpa only [hphase] using h⟩

-- ---------------------------------------------------------------------------
-- The tenant's rows
-- ---------------------------------------------------------------------------

theorem step_same (hinv : Inv numberText db) (h : db.step numberText a = some db')
    (hquiet : ¬ db.Commits tenantId a) :
    db'.tenantRows tenantId = db.tenantRows tenantId ∧ db'.heads tenantId = db.heads tenantId := by
  cases a with
  | start i call =>
    obtain ⟨row, -, -, rfl⟩ := start_spec h
    exact ⟨rfl, rfl⟩
  | statement i =>
    obtain ⟨x, hi, hs⟩ := Option.bind_eq_some_iff.mp h
    obtain ⟨y, hy⟩ | ⟨e, hphase, hcommit⟩ := statement_effect hs
    · exact ⟨congrArg (List.filter _) hy.rows, congrFun hy.heads tenantId⟩
    · have hne : x.tenantId ≠ tenantId := fun ht => hquiet ⟨i, x, e, rfl, hi, hphase, ht⟩
      obtain ⟨-, he⟩ := (phaseOk_advanced (.inr hphase)).mp (hinv.txns i x hi).phase
      obtain ⟨-, hrows, hheads, -⟩ := commit_effect hcommit
      refine ⟨?_, hheads tenantId hne.symm⟩
      have hother : (e.tenantId == tenantId) = false := by
        rw [he.tenant]
        exact beq_false_of_ne hne
      rw [Db.tenantRows, hrows, List.filter_append, List.filter_singleton, hother]
      exact List.append_nil _
  | abort i =>
    obtain ⟨x, -, rfl⟩ := Option.map_eq_some_iff.mp h
    exact ⟨congrArg (List.filter _) finish_tables.1, congrFun finish_tables.2.1 tenantId⟩
  | drawSeq =>
    cases h
    exact ⟨rfl, rfl⟩

theorem step_grows (h : db.step numberText a = some db') (tenantId : JsString) :
    db.tenantRows tenantId <+: db'.tenantRows tenantId := by
  have hgrows : db.rows <+: db'.rows := by
    cases a with
    | start i call =>
      obtain ⟨row, -, -, rfl⟩ := start_spec h
      exact List.prefix_refl _
    | statement i =>
      obtain ⟨x, hi, hs⟩ := Option.bind_eq_some_iff.mp h
      obtain ⟨y, hy⟩ | ⟨e, -, hcommit⟩ := statement_effect hs
      · rw [hy.rows]
      · rw [(commit_effect hcommit).2.1]
        exact List.prefix_append _ _
    | abort i =>
      obtain ⟨x, -, rfl⟩ := Option.map_eq_some_iff.mp h
      rw [finish_tables.1]
    | drawSeq =>
      cases h
      exact List.prefix_refl _
  exact hgrows.filter _

-- ---------------------------------------------------------------------------
-- The sequence
-- ---------------------------------------------------------------------------

/-- The sequence gave every `seq` there is, and started at one. -/
structure SeqsPositive (db : Db) : Prop where
  nextSeq : 1 ≤ db.nextSeq
  rows : ∀ e ∈ db.rows, 1 ≤ e.seq
  inserted : ∀ i x e, db.txns i = some x → x.event? = some e → 1 ≤ e.seq

theorem seqsPositive_empty : SeqsPositive Db.empty := ⟨le_refl 1, by simp [Db.empty], by simp [Db.empty]⟩

theorem seqsPositive_step (hpos : SeqsPositive db) (h : db.step numberText a = some db') :
    SeqsPositive db' := by
  cases a with
  | start i call =>
    obtain ⟨row, -, -, rfl⟩ := start_spec h
    refine ⟨hpos.nextSeq, hpos.rows, fun j x e hj he => ?_⟩
    by_cases hji : j = i
    · subst hji
      cases (Function.update_self ..).symm.trans hj
      cases he
    · exact hpos.inserted j x e ((Function.update_of_ne hji ..).symm.trans hj) he
  | statement i =>
    obtain ⟨x, hi, hs⟩ := Option.bind_eq_some_iff.mp h
    obtain ⟨y, hy⟩ | ⟨e, hphase, hcommit⟩ := statement_effect hs
    · refine ⟨hpos.nextSeq.trans hy.nextSeq, hy.rows ▸ hpos.rows, fun j z e hj he => ?_⟩
      rw [hy.txns] at hj
      by_cases hji : j = i
      · subst hji
        cases (Function.update_self ..).symm.trans hj
        obtain hx | hnext := hy.event e he
        · exact hpos.inserted j x e hi hx
        · exact hnext ▸ hpos.nextSeq
      · exact hpos.inserted j z e ((Function.update_of_ne hji ..).symm.trans hj) he
    · obtain ⟨htxns, hrows, -, hnext⟩ := commit_effect hcommit
      refine ⟨hnext ▸ hpos.nextSeq, ?_, fun j z f hj hf => ?_⟩
      · rw [hrows, List.forall_mem_append]
        refine ⟨hpos.rows, fun f hf => ?_⟩
        rw [List.mem_singleton.mp hf]
        exact hpos.inserted i x e hi (by rw [Txn.event?, hphase])
      · rw [htxns] at hj
        by_cases hji : j = i
        · subst hji
          cases (Function.update_self ..).symm.trans hj
        · exact hpos.inserted j z f ((Function.update_of_ne hji ..).symm.trans hj) hf
  | abort i =>
    obtain ⟨x, -, rfl⟩ := Option.map_eq_some_iff.mp h
    refine ⟨finish_tables.2.2.ge.trans' hpos.nextSeq, ?_, fun j z f hj hf => ?_⟩
    · rw [finish_tables.1]
      exact hpos.rows
    rw [finish_txns] at hj
    by_cases hji : j = i
    · subst hji
      cases (Function.update_self ..).symm.trans hj
    · exact hpos.inserted j z f ((Function.update_of_ne hji ..).symm.trans hj) hf
  | drawSeq =>
    cases h
    refine ⟨?_, hpos.rows, hpos.inserted⟩
    show 1 ≤ db.nextSeq + 1
    exact hpos.nextSeq.trans (by omega)

theorem seqsPositive_run (h : run (Db.step numberText) Db.empty as = some db) : SeqsPositive db :=
  run_invariant SeqsPositive (fun _ _ _ hpos hs => seqsPositive_step hpos hs) seqsPositive_empty h

theorem seqExact_of_inv (hinv : Inv numberText db) (hpos : SeqsPositive db)
    (hsmall : db.nextSeq ≤ 2 ^ 53 + 1) (h : e ∈ db.tenantRows tenantId) : SeqExact e := by
  have hbelow := (hinv.tenants tenantId).below e h
  exact ⟨hpos.rows e (List.mem_of_mem_filter h), by omega⟩

end

end McpGateway.Audit
