import McpGateway.Audit.PagedExactly

/-!
# The paged verifier is the plain one where its pages read what they should

With every `seq` between 1 and 2^53 they do. A row with a `seq` of zero or less
is never read; numbers beyond 2^53 may not tell two rows apart.
-/

namespace McpGateway.Audit

open Js Shared Outcome

section
variable {numberText : ℚ → JsString} {tenantId : JsString} {all : List AuditEvent}

theorem parseBigint_numberOf (hnum : NumberText numberText) {n : ℤ} (h : n.natAbs ≤ 2 ^ 53) :
    parseBigint (numberString numberText (numberOf n)) = some n := by
  rw [numberOf_exact h]
  exact (congrArg parseBigint (hnum.integer n h)).trans (parseBigint_integerText h)

/-- The `seq` of a row of the size the sequence gives in practice. -/
def SeqExact (e : AuditEvent) : Prop := 1 ≤ e.seq ∧ e.seq ≤ 2 ^ 53

theorem SeqExact.natAbs_le (h : SeqExact e) : e.seq.natAbs ≤ 2 ^ 53 := by
  obtain ⟨hlow, hhigh⟩ := h
  omega

theorem SeqExact.lessEq_false {m : ℤ} (h : SeqExact e) (hm : m < e.seq) :
    (numberOf e.seq).lessEq (.finite m) = false := by
  rw [numberOf_exact h.natAbs_le]
  simpa [JsNumber.lessEq, JsNumber.value] using hm

theorem walkReads_of_exact (hnum : NumberText numberText) (hall : all.Pairwise (·.seq < ·.seq))
    (h : ∀ e ∈ all, SeqExact e) (batchSize : Nat) : WalkReads numberText tenantId batchSize all := by
  rintro rows rest rfl -
  obtain ⟨hrows, -, hcross⟩ := List.pairwise_append.mp hall
  rw [List.forall_mem_append] at h
  cases rows using List.reverseRecOn with
  | nil =>
    refine ⟨fun _ => ⟨0, ?_, by simp, fun e he => (h.2 e he).1⟩, fun e he => ?_⟩
    · exact parseBigint_numberOf hnum (n := 0) (Nat.zero_le _)
    · have hlow := (h.2 e (List.mem_of_mem_head? he)).1
      exact (h.2 e (List.mem_of_mem_head? he)).lessEq_false (m := -1) (by omega)
  | append_singleton rows l =>
    have hl : SeqExact l := h.1 l (by simp)
    refine ⟨fun _ => ⟨l.seq, ?_, fun e he => ?_, fun e he => hcross l (by simp) e he⟩,
      fun e he => ?_⟩
    · rw [lastNumber_concat]
      exact parseBigint_numberOf hnum hl.natAbs_le
    · rcases List.mem_append.mp he with he | he
      · exact ((List.pairwise_append.mp hrows).2.2 e he l (by simp)).le
      · rw [List.mem_singleton.mp he]
    · have hmem := List.mem_of_mem_head? he
      rw [Rises, lastNumber_concat, numberOf_exact hl.natAbs_le]
      exact (h.2 e hmem).lessEq_false (hcross l (by simp) e hmem)

end

/-- `verifyTenantChain` ends on every content of the tables. It comes to what
`verifyChain` comes to on the ordered rows exactly when, wherever the walk gets
to, the page it asks for separates and the numbers rise. -/
theorem paged_verifier_iff (numberText : ℚ → JsString) (tenantId : JsString) (batchSize : Nat)
    (hbatch : 1 ≤ batchSize) (db : Db) (hseq : (db.rows.map (·.seq)).Nodup)
    (hid : (db.rows.map (·.id)).Nodup) :
    ∃ outcome, verifyTenantChain numberText tenantId batchSize db = some outcome ∧
      (WalkReads numberText tenantId batchSize (orderBySeq (db.tenantRows tenantId)) →
        outcome = (verifyWhole numberText tenantId db).mapError .js) ∧
      ∀ r, verifyWhole numberText tenantId db = .ok r →
        (outcome = .ok r ↔
          WalkReads numberText tenantId batchSize (orderBySeq (db.tenantRows tenantId))) := by
  have htenant {α : Type} {f : AuditEvent → α} (h : (db.rows.map f).Nodup) :
      ((db.tenantRows tenantId).map f).Nodup :=
    h.sublist (List.filter_sublist.map _)
  obtain ⟨outcome, hout⟩ := verifyTenantChain_ends (htenant hseq)
  have hreads (h : WalkReads numberText tenantId batchSize (orderBySeq (db.tenantRows tenantId))) :
      outcome = (verifyWhole numberText tenantId db).mapError .js := by
    have hfinish := finish_of_reads (htenant hseq) hbatch h (List.nil_append _).symm verified_nil
      (dvd_zero _) (by rw [(orderBySeq_perm _).length_eq])
    exact Option.some.inj (hout.symm.trans hfinish)
  refine ⟨outcome, hout, hreads, fun r hr => ⟨?_, ?_⟩⟩
  · rintro rfl rows rest hsplit hverified
    refine reads_of_agree (htenant hseq) (htenant hid) hbatch
      ⟨(List.nil_append _).symm, walked_nil, dvd_zero _, ?_, hr, hout⟩ hsplit hverified
    rw [List.nil_append, (orderBySeq_perm _).length_eq, List.length_nil, Nat.zero_add]
  · intro h
    rw [hreads h, hr]
    rfl

def strayEvent (seq : ℤ) (id : JsString) : AuditEvent where
  seq
  id
  ts := ⟨0⟩
  tenantId := js "acme"
  userId := js "u"
  actorTokenJti := js "t"
  mcpServer := js "postgres"
  toolName := js "pg.query"
  argumentsHash := []
  decision := js "allow"
  denyReason := none
  latencyMs := 0
  traceId := none
  prevHash := []
  rowHash := []

def strayTable (rows : List AuditEvent) : Db := { Db.empty with rows }

theorem paged_verifier_two_rows :
    ∃ outcome, verifyTenantChain fractionText (js "acme") 1
        (strayTable [strayEvent 7 (js "a"), strayEvent 0 (js "b")]) = some outcome ∧
      (WalkReads fractionText (js "acme") 1 (orderBySeq
          ((strayTable [strayEvent 7 (js "a"), strayEvent 0 (js "b")]).tenantRows (js "acme"))) →
        outcome = (verifyWhole fractionText (js "acme")
          (strayTable [strayEvent 7 (js "a"), strayEvent 0 (js "b")])).mapError .js) ∧
      ∀ r, verifyWhole fractionText (js "acme")
          (strayTable [strayEvent 7 (js "a"), strayEvent 0 (js "b")]) = .ok r →
        (outcome = .ok r ↔ WalkReads fractionText (js "acme") 1 (orderBySeq
          ((strayTable [strayEvent 7 (js "a"), strayEvent 0 (js "b")]).tenantRows (js "acme")))) :=
  paged_verifier_iff fractionText (js "acme") 1 (by decide)
    (strayTable [strayEvent 7 (js "a"), strayEvent 0 (js "b")]) (by decide) (by decide)

/-- A row with `seq` zero is never read: the log counts as valid. -/
theorem paged_verifier_skips :
    ∃ r r', verifyTenantChain fractionText (js "acme") 1000 (strayTable [strayEvent 0 (js "a")]) =
        some (.ok r) ∧
      verifyWhole fractionText (js "acme") (strayTable [strayEvent 0 (js "a")]) = .ok r' ∧
      (r.valid, r.rowsChecked, r.firstBreak.isSome) = (true, 0, false) ∧
      (r'.valid, r'.rowsChecked, r'.firstBreak.isSome) = (false, 0, true) := by
  have hpaged : ((verifyTenantChain fractionText (js "acme") 1000
      (strayTable [strayEvent 0 (js "a")])).bind (·.toOption)).map
        (fun r => (r.valid, r.rowsChecked, r.firstBreak.isSome)) = some (true, 0, false) := by
    decide +kernel
  have hwhole : (verifyWhole fractionText (js "acme")
      (strayTable [strayEvent 0 (js "a")])).toOption.map
        (fun r => (r.valid, r.rowsChecked, r.firstBreak.isSome)) = some (false, 0, true) := by
    decide +kernel
  obtain ⟨r, hr, hfields⟩ := Option.map_eq_some_iff.mp hpaged
  obtain ⟨outcome, hout, hok⟩ := Option.bind_eq_some_iff.mp hr
  obtain ⟨r', hr', hfields'⟩ := Option.map_eq_some_iff.mp hwhole
  rw [toOption_eq_some.mp hok] at hout
  exact ⟨r, r', hout, toOption_eq_some.mp hr', hfields, hfields'⟩

end McpGateway.Audit
