import McpGateway.Audit.VerifierLaws

/-!
# The paged walk and the whole chain

A page is asked for by the number of the last row, printed and read back. As long
as what is read separates the rows before the page from those after it, and the
numbers of the rows increase, the pages are the chain cut in pieces and the walk
over them is the walk over the whole chain. Where one of the two fails the walk
skips a row, reads one again or does not get its page.
-/

namespace McpGateway.Audit

open Js Shared Outcome

section
variable {rows : List AuditEvent}

-- ---------------------------------------------------------------------------
-- Rows by ascending seq
-- ---------------------------------------------------------------------------

theorem orderBySeq_perm (rows : List AuditEvent) : (orderBySeq rows).Perm rows :=
  List.perm_insertionSort _ _

theorem mem_orderBySeq : e ∈ orderBySeq rows ↔ e ∈ rows := (orderBySeq_perm rows).mem_iff

theorem orderBySeq_increasing (h : (rows.map (·.seq)).Nodup) :
    (orderBySeq rows).Pairwise (·.seq < ·.seq) := by
  have htotal : Std.Total fun e f : AuditEvent => e.seq ≤ f.seq := ⟨fun e f => le_total _ _⟩
  have htrans : IsTrans AuditEvent fun e f => e.seq ≤ f.seq := ⟨fun _ _ _ => le_trans⟩
  have hle : (orderBySeq rows).Pairwise (·.seq ≤ ·.seq) := List.pairwise_insertionSort _ _
  have hne : (orderBySeq rows).Pairwise (·.seq ≠ ·.seq) :=
    List.pairwise_map.mp (((orderBySeq_perm rows).map _).nodup_iff.mpr h)
  exact (hle.and hne).imp fun h => lt_of_le_of_ne h.1 h.2

theorem eq_of_increasing {xs ys : List AuditEvent} (hx : xs.Pairwise (·.seq < ·.seq))
    (hy : ys.Pairwise (·.seq < ·.seq)) (hp : xs.Perm ys) : xs = ys :=
  hp.eq_of_pairwise (fun _ _ _ _ h h' => absurd (h.trans h') (lt_irrefl _)) hx hy

theorem orderBySeq_filter (h : (rows.map (·.seq)).Nodup) (p : AuditEvent → Bool) :
    orderBySeq (rows.filter p) = (orderBySeq rows).filter p :=
  eq_of_increasing (orderBySeq_increasing (h.sublist (List.filter_sublist.map _)))
    ((orderBySeq_increasing h).filter p)
    ((orderBySeq_perm _).trans ((orderBySeq_perm rows).filter p).symm)

theorem filter_separated (h : ∀ e ∈ rows, e.seq ≤ bound) (h' : ∀ e ∈ rest, bound < e.seq) :
    (rows ++ rest).filter (bound < ·.seq) = rest := by
  rw [List.filter_append, List.filter_eq_nil_iff.mpr, List.filter_eq_self.mpr, List.nil_append]
  · intro e he
    exact decide_eq_true (h' e he)
  · intro e he
    simpa using h e he

end

section
variable (numberText : ℚ → JsString) (tenantId : JsString) (db : Db)

def verifyRest (rows rest : List AuditEvent) : Except JsError ChainVerificationResult := do
  let check ← verifyFrom numberText (headHash tenantId (rows.map toLink)) rows.length
    (rest.map toLink)
  return compareHead tenantId check.checked check.firstBreak
    (headHash tenantId (((rows ++ rest).map toLink).take check.checked)) (db.recordedHead tenantId)

/-- The bound of a page, as it is read back, separates what was read from what
was not. -/
def PageReads (rows rest : List AuditEvent) : Prop :=
  ∃ bound, parseBigint (numberString numberText (lastNumber (.finite 0) rows)) = some bound ∧
    (∀ e ∈ rows, e.seq ≤ bound) ∧ ∀ e ∈ rest, bound < e.seq

/-- Wherever the walk gets to, every page separates and every number rises. -/
def WalkReads (batchSize : Nat) (all : List AuditEvent) : Prop :=
  ∀ rows rest, all = rows ++ rest → Verified numberText tenantId rows →
    (batchSize ∣ rows.length → PageReads numberText rows rest) ∧ ∀ e ∈ rest.head?, Rises rows e

end

section
variable {numberText : ℚ → JsString} {tenantId : JsString} {db : Db}
  {rows page rest : List AuditEvent} {batchSize : Nat}

theorem verifyRest_nil : verifyRest numberText tenantId db rows [] =
    .ok (compareHead tenantId rows.length none (headHash tenantId (rows.map toLink))
      (db.recordedHead tenantId)) := by
  simp [verifyRest, verifyFrom, pure, Except.pure, ← List.map_take]

theorem verifyRest_cons : verifyRest numberText tenantId db rows (e :: rest) =
    match verifyLink numberText (toLink e) (headHash tenantId (rows.map toLink)) with
    | .error error => .error error
    | .ok (some failure) => .ok (compareHead tenantId rows.length (some failure)
        (headHash tenantId (rows.map toLink)) (db.recordedHead tenantId))
    | .ok none => verifyRest numberText tenantId db (rows ++ [e]) rest := by
  cases hlink : verifyLink numberText (toLink e) (headHash tenantId (rows.map toLink)) with
  | error error => simp [verifyRest, verifyFrom, hlink]
  | ok failure =>
    cases failure with
    | some failure => simp [verifyRest, verifyFrom, hlink, pure, Except.pure]
    | none => simp [verifyRest, verifyFrom, hlink]

theorem verifyRest_append (h : Verified numberText tenantId (rows ++ page)) :
    verifyRest numberText tenantId db rows (page ++ rest) =
      verifyRest numberText tenantId db (rows ++ page) rest := by
  induction page generalizing rows with
  | nil => simp
  | cons e page ih =>
    have happ : rows ++ e :: page = rows ++ [e] ++ page := by simp
    rw [happ] at h ⊢
    have hlink := (verified_concat.mp h.of_append).2
    rw [List.cons_append, verifyRest_cons, hlink]
    exact ih h

-- ---------------------------------------------------------------------------
-- One page
-- ---------------------------------------------------------------------------

theorem selectPage_eq (hseq : ((db.tenantRows tenantId).map (·.seq)).Nodup)
    (hbound : parseBigint (numberString numberText afterSeq) = some bound) :
    db.selectPage numberText tenantId batchSize afterSeq =
      some (((orderBySeq (db.tenantRows tenantId)).filter (bound < ·.seq)).take batchSize) := by
  rw [Db.selectPage, hbound, Option.map_some, orderBySeq_filter hseq]

theorem selectPage_of_reads (hseq : ((db.tenantRows tenantId).map (·.seq)).Nodup)
    (hrows : orderBySeq (db.tenantRows tenantId) = rows ++ rest)
    (h : PageReads numberText rows rest) :
    db.selectPage numberText tenantId batchSize (Walk.after tenantId rows).afterSeq =
      some (rest.take batchSize) := by
  obtain ⟨bound, hparse, hbefore, hafter⟩ := h
  rw [Walk.after, selectPage_eq hseq hparse, hrows, filter_separated hbefore hafter]

section
variable {walk walk' : Walk}

theorem step_page_ok
    (hpage : db.selectPage numberText tenantId batchSize walk.afterSeq = some page) (hne : page ≠ [])
    (hcheck : walk.checkRows numberText tenantId (page.map toLink) = .ok walk') :
    (Verification.page walk).step numberText tenantId batchSize db =
      if walk'.firstBreak.isSome ∨ page.length < batchSize then .head walk' else .page walk' := by
  cases page with
  | nil => exact absurd rfl hne
  | cons e page => simp only [Verification.step, hpage, hcheck]

theorem step_page_threw
    (hpage : db.selectPage numberText tenantId batchSize walk.afterSeq = some page) (hne : page ≠ [])
    (hcheck : walk.checkRows numberText tenantId (page.map toLink) = .error e) :
    (Verification.page walk).step numberText tenantId batchSize db = .done (.error (.js e)) := by
  cases page with
  | nil => exact absurd rfl hne
  | cons f page => simp only [Verification.step, hpage, hcheck]

theorem step_page_nil
    (hpage : db.selectPage numberText tenantId batchSize walk.afterSeq = some []) :
    (Verification.page walk).step numberText tenantId batchSize db = .head walk := by
  rw [Verification.step, hpage]

theorem step_page_none
    (hpage : db.selectPage numberText tenantId batchSize walk.afterSeq = none) :
    (Verification.page walk).step numberText tenantId batchSize db = .done (.error .database) := by
  rw [Verification.step, hpage]

end

theorem finish_head (fuel : Nat) (walk : Walk) :
    (Verification.head walk).finish numberText tenantId batchSize db (fuel + 1) =
      some (.ok (compareHead tenantId walk.rowsChecked walk.firstBreak walk.expected
        (db.recordedHead tenantId))) := by
  cases fuel <;> rfl

theorem finish_done (fuel : Nat) (outcome : Except VerifierError ChainVerificationResult) :
    (Verification.done outcome).finish numberText tenantId batchSize db fuel = some outcome := by
  cases fuel <;> rfl

theorem finish_page (fuel : Nat) (walk : Walk) :
    (Verification.page walk).finish numberText tenantId batchSize db (fuel + 1) =
      ((Verification.page walk).step numberText tenantId batchSize db).finish numberText tenantId
        batchSize db fuel := rfl

-- ---------------------------------------------------------------------------
-- Pages that read what they should
-- ---------------------------------------------------------------------------

theorem split_page (batchSize : Nat) (rest : List AuditEvent) :
    ∃ page tail, rest = page ++ tail ∧ (page ++ tail).take batchSize = page ∧
      page.length ≤ batchSize ∧ (page.length < batchSize → tail = []) := by
  refine ⟨rest.take batchSize, rest.drop batchSize, ?_, ?_, ?_, ?_⟩
  · exact (List.take_append_drop batchSize rest).symm
  · rw [List.take_append_drop]
  · rw [List.length_take]
    exact Nat.min_le_left _ _
  · intro h
    rw [List.length_take] at h
    exact List.drop_of_length_le (by omega)

theorem finish_of_reads (hseq : ((db.tenantRows tenantId).map (·.seq)).Nodup) (hbatch : 1 ≤ batchSize)
    (hreads : WalkReads numberText tenantId batchSize (orderBySeq (db.tenantRows tenantId)))
    (hrows : orderBySeq (db.tenantRows tenantId) = rows ++ rest)
    (hverified : Verified numberText tenantId rows) (hdvd : batchSize ∣ rows.length)
    (hfuel : rest.length + 2 ≤ fuel) :
    (Verification.page (.after tenantId rows)).finish numberText tenantId batchSize db fuel =
      some ((verifyRest numberText tenantId db rows rest).mapError .js) := by
  induction hn : rest.length using Nat.strong_induction_on generalizing rows rest fuel with
  | _ n ih =>
    obtain ⟨fuel, rfl⟩ : ∃ f, fuel = f + 2 := ⟨fuel - 2, by omega⟩
    have hpage : db.selectPage numberText tenantId batchSize (Walk.after tenantId rows).afterSeq =
        some (rest.take batchSize) :=
      selectPage_of_reads hseq hrows ((hreads rows rest hrows hverified).1 hdvd)
    rw [finish_page]
    by_cases hrest : rest = []
    · subst hrest
      rw [step_page_nil (by simpa using hpage), finish_head, verifyRest_nil]
      rfl
    · obtain ⟨page, tail, rfl, htake, hlength, hshort⟩ := split_page batchSize rest
      rw [htake] at hpage
      have hne : page ≠ [] := by
        rintro rfl
        rw [List.length_nil] at hshort
        exact hrest (hshort (by omega))
      have hout := pageOutcome_checkRows hverified page
      generalize hcheck : (Walk.after tenantId rows).checkRows numberText tenantId
        (page.map toLink) = w at hout
      cases hout with
      | verified _ hpages hrises =>
        rw [step_page_ok hpage hne hcheck, verifyRest_append hpages]
        by_cases hend : page.length < batchSize
        · rw [if_pos (.inr hend), finish_head, hshort hend, verifyRest_nil]
          rfl
        · rw [if_neg (by simpa [Walk.after] using hend)]
          have hpos : 0 < page.length := List.length_pos_of_ne_nil hne
          rw [List.length_append] at hn hfuel
          refine ih tail.length (by omega) (by simp [hrows]) hpages ?_ (by omega) rfl
          have hfull : page.length = batchSize := by omega
          rw [List.length_append, hfull]
          exact Nat.dvd_add hdvd (dvd_refl _)
      | broken page e rest failure hpages hrises hlink =>
        rw [step_page_ok hpage hne hcheck, if_pos (.inl rfl), finish_head, List.append_assoc,
          verifyRest_append hpages, List.cons_append, verifyRest_cons, hlink]
        rfl
      | disordered page e rest hpages hrises hfalls =>
        have hsplit : orderBySeq (db.tenantRows tenantId) = rows ++ page ++ (e :: rest ++ tail) := by
          simp [hrows]
        exact absurd ((hreads _ _ hsplit hpages).2 e rfl) hfalls
      | threw page e rest error hpages hrises hlink =>
        rw [step_page_threw hpage hne hcheck, finish_done, List.append_assoc,
          verifyRest_append hpages, List.cons_append, verifyRest_cons, hlink]
        rfl

end

end McpGateway.Audit
