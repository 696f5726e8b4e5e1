import McpGateway.Audit.PagedWalk

/-!
# The paged verifier against the plain one

The paged walk always ends, because the rows it verifies increase. It comes to
what the plain walk comes to exactly when every page it reaches reads what it
should.
-/

namespace McpGateway.Audit

open Js Shared Outcome

section
variable {numberText : ℚ → JsString} {tenantId : JsString} {db : Db}
  {rows page rest all : List AuditEvent} {batchSize : Nat} {e f : AuditEvent}

-- ---------------------------------------------------------------------------
-- The rows of a walk increase
-- ---------------------------------------------------------------------------

theorem seq_lt_of_number (h : (numberOf e.seq).lessEq (numberOf f.seq) = false) : f.seq < e.seq := by
  by_contra hle
  have hmono := roundToDouble_mono (not_lt.mp hle)
  rw [numberOf, numberOf, hmono] at h
  cases h

theorem Rises.seq_lt (h : Rises rows e) (hrows : rows.Pairwise (·.seq < ·.seq)) :
    ∀ f ∈ rows, f.seq < e.seq := by
  cases rows using List.reverseRecOn with
  | nil => simp
  | append_singleton rows l =>
    rw [Rises, lastNumber_concat] at h
    have hl := seq_lt_of_number h
    intro f hf
    rcases List.mem_append.mp hf with hf | hf
    · exact ((List.pairwise_append.mp hrows).2.2 f hf l (by simp)).trans hl
    · exact List.mem_singleton.mp hf ▸ hl

theorem RisesAll.increasing (h : RisesAll rows page) (hrows : rows.Pairwise (·.seq < ·.seq)) :
    (rows ++ page).Pairwise (·.seq < ·.seq) := by
  induction page generalizing rows with
  | nil => rwa [List.append_nil]
  | cons e page ih =>
    have hstep : (rows ++ [e]).Pairwise (·.seq < ·.seq) := by
      refine List.pairwise_append.mpr ⟨hrows, List.pairwise_singleton _ _, ?_⟩
      intro f hf g hg
      exact List.mem_singleton.mp hg ▸ h.1.seq_lt hrows f hf
    have hall := ih h.2 hstep
    rwa [List.append_assoc, List.singleton_append] at hall

theorem sublist_of_increasing {xs ys : List AuditEvent} (hx : xs.Pairwise (·.seq < ·.seq))
    (hy : ys.Pairwise (·.seq < ·.seq)) (hsub : xs ⊆ ys) : xs.Sublist ys := by
  have hnodup : xs.Nodup := hx.imp fun h => by
    rintro rfl
    exact lt_irrefl _ h
  obtain ⟨zs, hzx, hzy⟩ := List.subperm_of_subset hnodup hsub
  rwa [← eq_of_increasing (hy.sublist hzy) hx hzx]

structure Walked (numberText : ℚ → JsString) (tenantId : JsString) (all rows : List AuditEvent) :
    Prop where
  verified : Verified numberText tenantId rows
  increasing : rows.Pairwise (·.seq < ·.seq)
  subset : rows ⊆ all

theorem verified_nil : Verified numberText tenantId [] := trivial

theorem walked_nil : Walked numberText tenantId all [] := ⟨trivial, .nil, List.nil_subset _⟩

theorem Walked.append (h : Walked numberText tenantId all rows)
    (hverified : Verified numberText tenantId (rows ++ page)) (hrises : RisesAll rows page)
    (hpage : page ⊆ all) : Walked numberText tenantId all (rows ++ page) :=
  ⟨hverified, hrises.increasing h.increasing, List.append_subset.mpr ⟨h.subset, hpage⟩⟩

theorem Walked.sublist (h : Walked numberText tenantId all rows)
    (hall : all.Pairwise (·.seq < ·.seq)) : rows.Sublist all :=
  sublist_of_increasing h.increasing hall h.subset

-- ---------------------------------------------------------------------------
-- How a walk ends
-- ---------------------------------------------------------------------------

/-- The result of a walk that verified `rows` of `all` and then met `next`. -/
inductive Ends (numberText : ℚ → JsString) (tenantId : JsString) (db : Db)
    (all rows : List AuditEvent) : List AuditEvent → ChainVerificationResult → Prop
  | clean :
      Ends numberText tenantId db all rows []
        (compareHead tenantId rows.length none (headHash tenantId (rows.map toLink))
          (db.recordedHead tenantId))
  | broken (e : AuditEvent) (failure : VerificationBreak) (hmem : e ∈ all) (hrise : Rises rows e)
      (hlink : verifyLink numberText (toLink e) (headHash tenantId (rows.map toLink)) =
        .ok (some failure)) :
      Ends numberText tenantId db all rows [e]
        (compareHead tenantId rows.length (some failure) (headHash tenantId (rows.map toLink))
          (db.recordedHead tenantId))
  | disordered (e : AuditEvent) (failure : VerificationBreak) (hfalls : ¬ Rises rows e)
      (hreason : failure.reason = .orderingViolation) (hseq : failure.seq ≠ none) :
      Ends numberText tenantId db all rows [e]
        (compareHead tenantId rows.length (some failure) (headHash tenantId (rows.map toLink))
          (db.recordedHead tenantId))

theorem mem_of_selectPage {afterSeq : JsNumber}
    (h : db.selectPage numberText tenantId batchSize afterSeq = some page) :
    page ⊆ orderBySeq (db.tenantRows tenantId) := by
  obtain ⟨bound, -, rfl⟩ := Option.map_eq_some_iff.mp h
  intro e he
  have hmem := mem_orderBySeq.mp (List.mem_of_mem_take he)
  exact mem_orderBySeq.mpr (List.mem_of_mem_filter hmem)

/-- From any page on the walk ends, and what it verified before stays verified. -/
theorem finish_ends (hseq : ((db.tenantRows tenantId).map (·.seq)).Nodup)
    (hwalked : Walked numberText tenantId (orderBySeq (db.tenantRows tenantId)) rows)
    (hfuel : (db.tenantRows tenantId).length + 2 ≤ rows.length + fuel) :
    ∃ outcome, (Verification.page (.after tenantId rows)).finish numberText tenantId batchSize db
        fuel = some outcome ∧
      ∀ r, outcome = .ok r → ∃ final next, rows <+: final ∧
        Walked numberText tenantId (orderBySeq (db.tenantRows tenantId)) final ∧
        Ends numberText tenantId db (orderBySeq (db.tenantRows tenantId)) final next r := by
  have hall : (orderBySeq (db.tenantRows tenantId)).Pairwise (·.seq < ·.seq) :=
    orderBySeq_increasing hseq
  induction fuel generalizing rows with
  | zero =>
    have hle := (hwalked.sublist hall).length_le
    rw [(orderBySeq_perm _).length_eq] at hle
    omega
  | succ fuel ih =>
    have hle := (hwalked.sublist hall).length_le
    rw [(orderBySeq_perm _).length_eq] at hle
    obtain ⟨fuel, rfl⟩ : ∃ f, fuel = f + 1 := ⟨fuel - 1, by omega⟩
    rw [finish_page]
    cases hpage : db.selectPage numberText tenantId batchSize (Walk.after tenantId rows).afterSeq with
    | none =>
      rw [step_page_none hpage, finish_done]
      exact ⟨_, rfl, by rintro r ⟨⟩⟩
    | some page =>
      by_cases hne : page = []
      · subst hne
        rw [step_page_nil hpage, finish_head]
        refine ⟨_, rfl, ?_⟩
        rintro r ⟨rfl⟩
        exact ⟨rows, [], List.prefix_refl _, hwalked, .clean⟩
      have hsub := mem_of_selectPage hpage
      have hout := pageOutcome_checkRows hwalked.verified page
      generalize hcheck : (Walk.after tenantId rows).checkRows numberText tenantId
        (page.map toLink) = w at hout
      cases hout with
      | verified _ hverified hrises =>
        have hnext := hwalked.append hverified hrises hsub
        rw [step_page_ok hpage hne hcheck]
        by_cases hend : page.length < batchSize
        · rw [if_pos (.inr hend), finish_head]
          refine ⟨_, rfl, ?_⟩
          rintro r ⟨rfl⟩
          exact ⟨rows ++ page, [], List.prefix_append _ _, hnext, .clean⟩
        · rw [if_neg (by simpa [Walk.after] using hend)]
          have hpos : 0 < page.length := List.length_pos_of_ne_nil hne
          obtain ⟨outcome, hfinish, hends⟩ := ih hnext (by rw [List.length_append]; omega)
          refine ⟨outcome, hfinish, fun r hr => ?_⟩
          obtain ⟨final, next, hprefix, hfinal⟩ := hends r hr
          exact ⟨final, next, (List.prefix_append _ _).trans hprefix, hfinal⟩
      | broken page e rest failure hverified hrises hlink =>
        rw [List.append_subset] at hsub
        rw [step_page_ok hpage hne hcheck, if_pos (.inl rfl), finish_head]
        refine ⟨_, rfl, ?_⟩
        rintro r ⟨rfl⟩
        have hrises := risesAll_append.mp hrises
        exact ⟨rows ++ page, [e], List.prefix_append _ _, hwalked.append hverified hrises.1 hsub.1,
          .broken e failure (hsub.2 List.mem_cons_self) hrises.2.1 hlink⟩
      | disordered page e rest hverified hrises hfalls =>
        rw [List.append_subset] at hsub
        rw [step_page_ok hpage hne hcheck, if_pos (.inl rfl), finish_head]
        refine ⟨_, rfl, ?_⟩
        rintro r ⟨rfl⟩
        exact ⟨rows ++ page, [e], List.prefix_append _ _, hwalked.append hverified hrises hsub.1,
          .disordered e _ hfalls rfl (Option.some_ne_none _)⟩
      | threw page e rest error hverified hrises hlink =>
        rw [step_page_threw hpage hne hcheck, finish_done]
        exact ⟨_, rfl, by rintro r ⟨⟩⟩

theorem verifyTenantChain_ends (hseq : ((db.tenantRows tenantId).map (·.seq)).Nodup) :
    ∃ outcome, verifyTenantChain numberText tenantId batchSize db = some outcome := by
  obtain ⟨outcome, h, -⟩ := finish_ends hseq walked_nil
    (Nat.le_of_eq (Nat.zero_add _).symm)
  exact ⟨outcome, h⟩

-- ---------------------------------------------------------------------------
-- Results that agree
-- ---------------------------------------------------------------------------

theorem compareHead_broken (n : Nat) (failure : VerificationBreak) (d : JsString)
    (recorded : Option JsString) :
    (compareHead tenantId n (some failure) d recorded).firstBreak = some failure := by
  simp [compareHead]

theorem compareHead_clean {failure : VerificationBreak}
    (h : (compareHead tenantId n none d recorded).firstBreak = some failure) :
    failure.seq = none := by
  unfold compareHead at h
  dsimp only at h
  split at h
  · cases h
    rfl
  · cases h

theorem verifyLink_failure {link : ChainLink} {failure : VerificationBreak}
    (h : verifyLink numberText link d = .ok (some failure)) :
    failure.seq = link.seq ∧ failure.id = link.id ∧ failure.reason ≠ .orderingViolation := by
  unfold verifyLink at h
  split at h
  · cases h
    exact ⟨rfl, rfl, BreakReason.noConfusion⟩
  · obtain ⟨recomputed, -, h⟩ := bind_eq_ok.mp h
    split at h
    · cases h
      exact ⟨rfl, rfl, BreakReason.noConfusion⟩
    · cases h

theorem verifyRest_ok (hverified : Verified numberText tenantId rows)
    (h : verifyRest numberText tenantId db rows rest = .ok r) :
    (Verified numberText tenantId (rows ++ rest) ∧
      r = compareHead tenantId (rows ++ rest).length none
        (headHash tenantId ((rows ++ rest).map toLink)) (db.recordedHead tenantId)) ∨
    ∃ page e tail failure, rest = page ++ e :: tail ∧
      Verified numberText tenantId (rows ++ page) ∧
      verifyLink numberText (toLink e) (headHash tenantId ((rows ++ page).map toLink)) =
        .ok (some failure) ∧
      r = compareHead tenantId (rows ++ page).length (some failure)
        (headHash tenantId ((rows ++ page).map toLink)) (db.recordedHead tenantId) := by
  induction rest generalizing rows with
  | nil =>
    rw [verifyRest_nil] at h
    cases h
    rw [List.append_nil]
    exact .inl ⟨hverified, rfl⟩
  | cons e rest ih =>
    rw [verifyRest_cons] at h
    cases hlink : verifyLink numberText (toLink e) (headHash tenantId (rows.map toLink)) with
    | error error => simp [hlink] at h
    | ok failure =>
      rw [hlink] at h
      cases failure with
      | some failure =>
        cases h
        refine .inr ⟨[], e, rest, failure, rfl, ?_, ?_, ?_⟩ <;> rw [List.append_nil]
        · exact hverified
        · exact hlink
      | none =>
        have happ (page : List AuditEvent) : rows ++ [e] ++ page = rows ++ e :: page := by simp
        obtain ⟨hall, hr⟩ | ⟨page, f, tail, failure, rfl, hpage, hf, hr⟩ :=
          ih (verified_concat.mpr ⟨hverified, hlink⟩) h
        · rw [happ] at hall hr
          exact .inl ⟨hall, hr⟩
        · rw [happ] at hpage hf hr
          exact .inr ⟨e :: page, f, tail, failure, rfl, hpage, hf, hr⟩

/-- What was verified before a row is all that stands before it, when there is as
much of it. -/
theorem eq_before (hall : (page ++ e :: rest).Pairwise (·.seq < ·.seq))
    (hwalked : Walked numberText tenantId (page ++ e :: rest) rows) (hrise : Rises rows e)
    (hlength : rows.length = page.length) : rows = page := by
  have hparts := List.pairwise_append.mp hall
  have hsub : rows ⊆ page := by
    intro f hf
    have hlt := hrise.seq_lt hwalked.increasing f hf
    rcases List.mem_append.mp (hwalked.subset hf) with hmem | hmem
    · exact hmem
    · rcases List.mem_cons.mp hmem with rfl | hmem
      · exact absurd hlt (lt_irrefl _)
      · have hgt := (List.pairwise_cons.mp hparts.2.1).1 f hmem
        exact absurd (hlt.trans hgt) (lt_irrefl _)
  exact (sublist_of_increasing hwalked.increasing hparts.1 hsub).eq_of_length hlength

theorem ends_prefix (hall : all.Pairwise (·.seq < ·.seq)) (hid : (all.map (·.id)).Nodup)
    (hwalked : Walked numberText tenantId all rows)
    (hends : Ends numberText tenantId db all rows next r)
    (hr : verifyRest numberText tenantId db [] all = .ok r) :
    ∃ tail, all = rows ++ next ++ tail ∧ (next = [] → tail = []) ∧ ∀ e ∈ next, Rises rows e := by
  obtain ⟨-, hplain⟩ | ⟨page, f, tail, failure', rfl, hpage, hlink', hplain⟩ :=
    verifyRest_ok verified_nil hr
  · cases hends with
    | clean =>
      have hlength : rows.length = all.length := congrArg (·.rowsChecked) hplain
      have heq := (hwalked.sublist hall).eq_of_length hlength
      exact ⟨[], by simp [heq], fun _ => rfl, by simp⟩
    | broken e failure hmem hrise hlink =>
      have hbreak := congrArg (·.firstBreak) hplain
      rw [compareHead_broken] at hbreak
      have hnone := compareHead_clean hbreak.symm
      rw [(verifyLink_failure hlink).1] at hnone
      cases hnone
    | disordered e failure hfalls hreason hseq =>
      have hbreak := congrArg (·.firstBreak) hplain
      rw [compareHead_broken] at hbreak
      exact absurd (compareHead_clean hbreak.symm) hseq
  · obtain ⟨hseq', hid', hreason'⟩ := verifyLink_failure hlink'
    have hbreak := congrArg (·.firstBreak) hplain
    rw [compareHead_broken] at hbreak
    cases hends with
    | clean =>
      have hnone := compareHead_clean hbreak
      rw [hseq'] at hnone
      cases hnone
    | broken e failure hmem hrise hlink =>
      rw [compareHead_broken] at hbreak
      cases hbreak
      have hef : e = f := by
        refine List.inj_on_of_nodup_map hid hmem (by simp) ?_
        exact (verifyLink_failure hlink).2.1.symm.trans hid'
      subst hef
      have hlength : rows.length = page.length := congrArg (·.rowsChecked) hplain
      have heq := eq_before hall hwalked hrise hlength
      exact ⟨tail, by simp [heq], fun h => (nomatch h), by simpa using hrise⟩
    | disordered e failure hfalls hreason hseq =>
      rw [compareHead_broken] at hbreak
      cases hbreak
      exact absurd hreason hreason'

-- ---------------------------------------------------------------------------
-- The paged walk agrees only where its pages read what they should
-- ---------------------------------------------------------------------------

theorem pageReads_of_head (hall : (rows ++ rest).Pairwise (·.seq < ·.seq)) (hbatch : 1 ≤ batchSize)
    (hparse : parseBigint (numberString numberText (lastNumber (.finite 0) rows)) = some bound)
    (hhead : (((rows ++ rest).filter (bound < ·.seq)).take batchSize).head? = rest.head?) :
    PageReads numberText rows rest := by
  obtain ⟨hrows, hrest, hcross⟩ := List.pairwise_append.mp hall
  rw [List.head?_take, if_neg (by omega)] at hhead
  have hmem (e : AuditEvent) : e ∈ (rows ++ rest).filter (bound < ·.seq) ↔
      e ∈ rows ++ rest ∧ bound < e.seq := by
    rw [List.mem_filter, decide_eq_true_iff]
  refine ⟨bound, hparse, fun e he => ?_, fun e he => ?_⟩
  · by_contra hlt
    have hin := (hmem e).mpr ⟨List.mem_append_left _ he, not_le.mp hlt⟩
    cases rest with
    | nil =>
      rw [List.head?_nil, List.head?_eq_none_iff] at hhead
      rw [hhead] at hin
      cases hin
    | cons f rest =>
      -- the filtered rows start at `f`, and `e` comes before it
      obtain ⟨tail, htail⟩ := List.head?_eq_some_iff.mp hhead
      have hsorted := hall.filter (fun g => decide (bound < g.seq))
      rw [htail] at hin hsorted
      have hlt := hcross e he f List.mem_cons_self
      rcases List.mem_cons.mp hin with rfl | hin
      · exact lt_irrefl _ hlt
      · exact lt_irrefl _ (((List.pairwise_cons.mp hsorted).1 e hin).trans hlt)
  · cases rest with
    | nil => cases he
    | cons f rest =>
      obtain ⟨tail, htail⟩ := List.head?_eq_some_iff.mp hhead
      have hf : bound < f.seq := ((hmem f).mp (htail ▸ List.mem_cons_self)).2
      rcases List.mem_cons.mp he with rfl | he
      · exact hf
      · exact hf.trans ((List.pairwise_cons.mp hrest).1 e he)

/-- What was read of a page: between its first row and its last no new page is
asked for, and the numbers rise. -/
theorem reads_within {before after read tail : List AuditEvent}
    (hpage : PageReads numberText rows (read ++ tail)) (hrises : RisesAll rows read)
    (hlength : read.length ≤ batchSize) (hdvd : batchSize ∣ rows.length)
    (hsplit : rows ++ (read ++ tail) = rows ++ before ++ after)
    (hbefore : before.length < read.length) :
    (batchSize ∣ (rows ++ before).length → PageReads numberText (rows ++ before) after) ∧
      ∀ e ∈ after.head?, Rises (rows ++ before) e := by
  rw [List.append_assoc] at hsplit
  have hrest := List.append_cancel_left hsplit
  obtain ⟨last, rfl⟩ : before <+: read :=
    List.prefix_of_prefix_length_le ⟨after, hrest.symm⟩ (List.prefix_append _ _) hbefore.le
  rw [List.length_append] at hlength hbefore
  rw [List.append_assoc] at hrest
  obtain rfl := List.append_cancel_left hrest
  constructor
  · intro hdvd'
    rw [List.length_append, Nat.dvd_add_right hdvd] at hdvd'
    have hnil : before = [] := by
      by_contra hne
      have hpos := List.length_pos_of_ne_nil hne
      exact absurd (Nat.le_of_dvd hpos hdvd') (by omega)
    subst hnil
    rwa [List.append_nil]
  · intro e he
    cases last with
    | nil =>
      rw [List.length_nil] at hbefore
      omega
    | cons f last =>
      cases he
      exact (risesAll_append.mp hrises).2.1

/-- A walk stands at a page after `rows`, with `rest` to come, and comes to what
the plain walk comes to. -/
structure Agrees (numberText : ℚ → JsString) (tenantId : JsString) (db : Db) (batchSize : Nat)
    (rows rest : List AuditEvent) (fuel : Nat) (r : ChainVerificationResult) : Prop where
  split : orderBySeq (db.tenantRows tenantId) = rows ++ rest
  walked : Walked numberText tenantId (rows ++ rest) rows
  dvd : batchSize ∣ rows.length
  enough : (rows ++ rest).length + 2 ≤ rows.length + fuel
  plain : verifyRest numberText tenantId db [] (rows ++ rest) = .ok r
  paged : (Verification.page (.after tenantId rows)).finish numberText tenantId batchSize db fuel =
    some (.ok r)

inductive PageRead (numberText : ℚ → JsString) (tenantId : JsString) (db : Db) (batchSize : Nat)
    (rows : List AuditEvent) (fuel : Nat) (r : ChainVerificationResult) :
    List AuditEvent → List AuditEvent → Prop
  | last (read : List AuditEvent) (hshort : read.length < batchSize) :
      PageRead numberText tenantId db batchSize rows fuel r read []
  | broken (read tail : List AuditEvent) (hbroken : ¬ Verified numberText tenantId (rows ++ read)) :
      PageRead numberText tenantId db batchSize rows fuel r read tail
  | full (read tail : List AuditEvent) (hread : read ≠ [])
      (hagrees : Agrees numberText tenantId db batchSize (rows ++ read) tail fuel r) :
      PageRead numberText tenantId db batchSize rows fuel r read tail

theorem page_of_agree (hseq : ((db.tenantRows tenantId).map (·.seq)).Nodup)
    (hid : ((db.tenantRows tenantId).map (·.id)).Nodup) (hbatch : 1 ≤ batchSize)
    (h : Agrees numberText tenantId db batchSize rows rest (fuel + 1) r) :
    PageReads numberText rows rest ∧ ∃ read tail, rest = read ++ tail ∧ RisesAll rows read ∧
      read.length ≤ batchSize ∧ PageRead numberText tenantId db batchSize rows fuel r read tail := by
  have hall : (rows ++ rest).Pairwise (·.seq < ·.seq) :=
    h.split ▸ orderBySeq_increasing hseq
  have hids : ((rows ++ rest).map (·.id)).Nodup := by
    rw [← h.split, ((orderBySeq_perm _).map _).nodup_iff]
    exact hid
  have hprefix {final next : List AuditEvent} (hwalked : Walked numberText tenantId (rows ++ rest) final)
      (hends : Ends numberText tenantId db (rows ++ rest) final next r) :=
    ends_prefix hall hids hwalked hends h.plain
  have hlarge := h.enough
  rw [List.length_append] at hlarge
  obtain ⟨fuel, rfl⟩ : ∃ f, fuel = f + 1 := ⟨fuel - 1, by omega⟩
  have hpaged := h.paged
  rw [finish_page] at hpaged
  cases hpage : db.selectPage numberText tenantId batchSize (Walk.after tenantId rows).afterSeq with
  | none =>
    rw [step_page_none hpage, finish_done] at hpaged
    cases hpaged
  | some page =>
    obtain ⟨bound, hparse, -⟩ := Option.map_eq_some_iff.mp hpage
    have hselect := selectPage_eq hseq hparse ▸ hpage
    rw [h.split, Option.some.injEq] at hselect
    have hsub : page ⊆ rows ++ rest := h.split ▸ mem_of_selectPage hpage
    have hreads (hhead : page.head? = rest.head?) : PageReads numberText rows rest :=
      pageReads_of_head hall hbatch hparse (hselect ▸ hhead)
    have hlength : page.length ≤ batchSize := by
      rw [← hselect, List.length_take]
      exact Nat.min_le_left _ _
    by_cases hne : page = []
    · subst hne
      rw [step_page_nil hpage, finish_head] at hpaged
      have hends : Ends numberText tenantId db (rows ++ rest) rows [] r := by
        rw [← Except.ok.inj (Option.some.inj hpaged)]
        exact .clean
      obtain ⟨tail, htail, hend, -⟩ := hprefix h.walked hends
      have hrest : rest = [] := by
        rw [hend rfl] at htail
        simpa using htail
      subst hrest
      exact ⟨hreads rfl, [], [], rfl, trivial, Nat.zero_le _, .last [] hbatch⟩
    have hout := pageOutcome_checkRows h.walked.verified page
    generalize hcheck : (Walk.after tenantId rows).checkRows numberText tenantId
      (page.map toLink) = w at hout
    cases hout with
    | verified _ hverified hrises =>
      have hnext := h.walked.append hverified hrises hsub
      rw [step_page_ok hpage hne hcheck] at hpaged
      by_cases hshort : page.length < batchSize
      · rw [if_pos (.inr hshort), finish_head] at hpaged
        have hends : Ends numberText tenantId db (rows ++ rest) (rows ++ page) [] r := by
          rw [← Except.ok.inj (Option.some.inj hpaged)]
          exact .clean
        obtain ⟨tail, htail, hend, -⟩ := hprefix hnext hends
        have hrest : rest = page := by
          rw [hend rfl] at htail
          simpa using htail
        subst hrest
        exact ⟨hreads rfl, rest, [], by simp, hrises, hlength, .last rest hshort⟩
      · rw [if_neg (by simpa [Walk.after] using hshort)] at hpaged
        have hpos : 0 < page.length := List.length_pos_of_ne_nil hne
        have hfull : page.length = batchSize := by omega
        have henough : (db.tenantRows tenantId).length + 2 ≤ (rows ++ page).length + (fuel + 1) := by
          rw [← (orderBySeq_perm _).length_eq, h.split, List.length_append, List.length_append]
          omega
        obtain ⟨outcome, hfinish, hends⟩ := finish_ends hseq (h.split ▸ hnext) henough
        cases hfinish.symm.trans hpaged
        obtain ⟨final, next, ⟨more, rfl⟩, hfinal, hlast⟩ := hends r rfl
        rw [h.split] at hfinal hlast
        obtain ⟨tail, htail, -, -⟩ := hprefix hfinal hlast
        have hrest : rest = page ++ (more ++ next ++ tail) := by
          simpa using htail
        generalize more ++ next ++ tail = tail at hrest
        subst hrest
        have happ : rows ++ (page ++ tail) = rows ++ page ++ tail := (List.append_assoc _ _ _).symm
        refine ⟨hreads ?_, page, tail, rfl, hrises, hlength, .full page tail hne ?_⟩
        · cases page with
          | nil => exact absurd rfl hne
          | cons e page => rfl
        · refine ⟨happ ▸ h.split, happ ▸ hnext, ?_, ?_, happ ▸ h.plain, hpaged⟩
          · rw [List.length_append, hfull]
            exact Nat.dvd_add h.dvd (dvd_refl _)
          · simp only [List.length_append] at hlarge ⊢
            omega
    | broken read e rest' failure hverified hrises hlink =>
      rw [step_page_ok hpage hne hcheck, if_pos (.inl rfl), finish_head] at hpaged
      rw [List.append_subset] at hsub
      have hrises' := risesAll_append.mp hrises
      have hends : Ends numberText tenantId db (rows ++ rest) (rows ++ read) [e] r := by
        rw [← Except.ok.inj (Option.some.inj hpaged)]
        exact .broken e failure (hsub.2 List.mem_cons_self) hrises'.2.1 hlink
      obtain ⟨tail, htail, -, -⟩ := hprefix (h.walked.append hverified hrises'.1 hsub.1) hends
      have hrest : rest = read ++ [e] ++ tail := by
        simpa using htail
      subst hrest
      refine ⟨hreads ?_, read ++ [e], tail, rfl, hrises, ?_, .broken _ _ ?_⟩
      · cases read <;> rfl
      · rw [List.length_append] at hlength ⊢
        exact (Nat.add_le_add_left (Nat.succ_le_succ (Nat.zero_le _)) _).trans hlength
      · intro hall
        rw [← List.append_assoc, verified_concat, hlink] at hall
        cases hall.2
    | disordered read e rest' hverified hrises hfalls =>
      rw [step_page_ok hpage hne hcheck, if_pos (.inl rfl), finish_head] at hpaged
      rw [List.append_subset] at hsub
      have hends : Ends numberText tenantId db (rows ++ rest) (rows ++ read) [e] r := by
        rw [← Except.ok.inj (Option.some.inj hpaged)]
        exact .disordered e _ hfalls rfl (Option.some_ne_none _)
      obtain ⟨tail, -, -, hrise⟩ := hprefix (h.walked.append hverified hrises hsub.1) hends
      exact absurd (hrise e (List.mem_singleton.mpr rfl)) hfalls
    | threw read e rest' error hverified hrises hlink =>
      rw [step_page_threw hpage hne hcheck, finish_done] at hpaged
      cases hpaged

/-- From a page on, a walk that comes to the plain result reads what it should. -/
theorem reads_of_agree {before after : List AuditEvent}
    (hseq : ((db.tenantRows tenantId).map (·.seq)).Nodup)
    (hid : ((db.tenantRows tenantId).map (·.id)).Nodup) (hbatch : 1 ≤ batchSize)
    (h : Agrees numberText tenantId db batchSize rows rest fuel r)
    (hsplit : rest = before ++ after) (hverified : Verified numberText tenantId (rows ++ before)) :
    (batchSize ∣ (rows ++ before).length → PageReads numberText (rows ++ before) after) ∧
      ∀ e ∈ after.head?, Rises (rows ++ before) e := by
  induction fuel generalizing rows rest before with
  | zero =>
    have hpaged := h.paged
    cases hpaged
  | succ fuel ih =>
    obtain ⟨hreads, read, tail, rfl, hrises, hlength, hpage⟩ := page_of_agree hseq hid hbatch h
    by_cases hwithin : before.length < read.length
    · refine reads_within hreads hrises hlength h.dvd ?_ hwithin
      rw [hsplit, List.append_assoc]
    -- the page was read to its end, and what follows is up to the next one
    obtain ⟨more, rfl⟩ : read <+: before :=
      List.prefix_of_prefix_length_le (List.prefix_append _ _) ⟨after, hsplit.symm⟩ (by omega)
    rw [List.append_assoc] at hsplit
    have htail := List.append_cancel_left hsplit
    rw [← List.append_assoc] at hverified ⊢
    cases hpage with
    | last hshort =>
      obtain ⟨rfl, rfl⟩ := List.append_eq_nil_iff.mp htail.symm
      refine ⟨fun hdvd => ?_, by simp⟩
      rw [List.append_nil, List.length_append, Nat.dvd_add_right h.dvd] at hdvd
      have hread : read = [] := List.eq_nil_of_length_eq_zero (Nat.eq_zero_of_dvd_of_lt hdvd hshort)
      subst hread
      simpa using hreads
    | broken _ hbroken => exact absurd hverified.of_append hbroken
    | full _ hread hagrees => exact ih hagrees htail hverified

end

end McpGateway.Audit
