import McpGateway.Audit.Commits

/-!
# Verifying a log that is being appended to

The statements of one verification run between the steps of any number of
appends. Rows committed while the pages are read are read, or are not, and in
either case the walk is a walk over the start of the tenant's chain. The head is
read later than the last page: a row committed between the two moves the head on
and not the walk.
-/

namespace McpGateway.Audit

open Js Shared Outcome Transition

/-- The database and a verification of the tenant that runs on it. -/
structure Live where
  db : Db
  verification : Verification

inductive LiveAction
  | append (a : Action)
  | verify

def Live.start (tenantId : JsString) : Live := ⟨Db.empty, .page (Walk.start tenantId)⟩

def Live.step (numberText : ℚ → JsString) (tenantId : JsString) (batchSize : Nat) (live : Live) :
    LiveAction → Option Live
  | .append a => (live.db.step numberText a).map fun db => { live with db }
  | .verify => some { live with
      verification := live.verification.step numberText tenantId batchSize live.db }

def Verification.isAtHead : Verification → Bool
  | .head _ => true
  | _ => false

def Verification.result? : Verification → Option ChainVerificationResult
  | .done (.ok r) => some r
  | _ => none

/-- No row of the tenant is committed between the last page and the head, and a
statement of the verification comes before the sequence has passed 2^53. -/
def Live.Quiet (tenantId : JsString) (live : Live) : LiveAction → Prop
  | .append a => live.verification.isAtHead = true → ¬ live.db.Commits tenantId a
  | .verify => live.db.nextSeq ≤ 2 ^ 53 + 1

theorem result_eq_some {v : Verification} : v.result? = some r ↔ v = .done (.ok r) := by
  constructor
  · intro h
    unfold Verification.result? at h
    split at h
    · cases h
      rfl
    · cases h
  · rintro rfl
    rfl

section
variable {numberText : ℚ → JsString} {tenantId : JsString} {db db' : Db} {live live' : Live}

def VerificationOk (tenantId : JsString) (db : Db) : Verification → Prop
  | .page walk => ∃ rows, rows <+: db.tenantRows tenantId ∧ walk = Walk.after tenantId rows
  | .head walk => walk = Walk.after tenantId (db.tenantRows tenantId)
  | .done (.ok r) => r.valid = true ∧ r.firstBreak = none
  | .done (.error _) => True

structure LiveOk (numberText : ℚ → JsString) (tenantId : JsString) (live : Live) : Prop where
  inv : Inv numberText live.db
  positive : SeqsPositive live.db
  verification : VerificationOk tenantId live.db live.verification

theorem liveOk_start : LiveOk numberText tenantId (.start tenantId) :=
  ⟨inv_empty, seqsPositive_empty, [], List.nil_prefix, rfl⟩

-- ---------------------------------------------------------------------------
-- The statements of the verification
-- ---------------------------------------------------------------------------

theorem checkRows_of_verified {rows page rest : List AuditEvent}
    (hreads : WalkReads numberText tenantId batchSize (rows ++ page ++ rest))
    (h : Verified numberText tenantId (rows ++ page)) :
    (Walk.after tenantId rows).checkRows numberText tenantId (page.map toLink) =
      .ok (Walk.after tenantId (rows ++ page)) := by
  have hout := pageOutcome_checkRows h.of_append page
  generalize hcheck : (Walk.after tenantId rows).checkRows numberText tenantId
    (page.map toLink) = w at hout
  have hnext {read tail : List AuditEvent} {e : AuditEvent} (hpage : page = read ++ e :: tail) :
      Rises (rows ++ read) e ∧ verifyLink numberText (toLink e)
        (headHash tenantId ((rows ++ read).map toLink)) = .ok none := by
    subst hpage
    have hsplit : rows ++ (read ++ e :: tail) = rows ++ read ++ [e] ++ tail := by simp
    rw [hsplit] at h
    have hread := verified_concat.mp h.of_append
    refine ⟨(hreads (rows ++ read) (e :: (tail ++ rest)) (by simp) hread.1).2 e rfl, hread.2⟩
  cases hout with
  | verified => rfl
  | broken read e tail failure hverified hrises hlink =>
    cases hlink.symm.trans (hnext rfl).2
  | disordered read e tail hverified hrises hfalls => exact absurd (hnext rfl).1 hfalls
  | threw read e tail error hverified hrises hlink =>
    cases hlink.symm.trans (hnext rfl).2

theorem verificationOk_page (hnum : NumberText numberText) (hbatch : 1 ≤ batchSize)
    (hinv : Inv numberText db) (hpos : SeqsPositive db) (hsmall : db.nextSeq ≤ 2 ^ 53 + 1)
    (h : VerificationOk tenantId db (.page walk)) :
    VerificationOk tenantId db
      ((Verification.page walk).step numberText tenantId batchSize db) := by
  obtain ⟨rows, ⟨rest, hrows⟩, rfl⟩ := h
  have htenant := hinv.tenants tenantId
  have hinc := htenant.increasing
  have hseq : ((db.tenantRows tenantId).map (·.seq)).Nodup :=
    List.pairwise_map.mpr (hinc.imp fun h => ne_of_lt h)
  have horder := orderBySeq_of_increasing hinc
  have hverified : Verified numberText tenantId (rows ++ rest) := hrows ▸ htenant.chained
  -- whatever the pages were cut into, a page starts after any row
  have hreads : WalkReads numberText tenantId 1 (rows ++ rest) :=
    hrows ▸ walkReads_of_exact hnum hinc (fun e he => seqExact_of_inv hinv hpos hsmall he) 1
  have hpage : db.selectPage numberText tenantId batchSize (Walk.after tenantId rows).afterSeq =
      some (rest.take batchSize) :=
    selectPage_of_reads hseq (horder.trans hrows.symm)
      ((hreads rows rest rfl hverified.of_append).1 (one_dvd _))
  by_cases hrest : rest = []
  · subst hrest
    rw [step_page_nil (by simpa using hpage)]
    rw [List.append_nil] at hrows
    exact congrArg (Walk.after tenantId) hrows
  · obtain ⟨page, tail, rfl, htake, -, hshort⟩ := split_page batchSize rest
    rw [htake] at hpage
    rw [← List.append_assoc] at hreads hverified hrows
    have hne : page ≠ [] := by
      rintro rfl
      rw [List.length_nil] at hshort
      exact hrest (hshort hbatch)
    rw [step_page_ok hpage hne (checkRows_of_verified hreads hverified.of_append)]
    by_cases hend : page.length < batchSize
    · rw [if_pos (.inr hend), VerificationOk, ← hrows, hshort hend, List.append_nil]
    · rw [if_neg (by simpa [Walk.after] using hend)]
      exact ⟨rows ++ page, ⟨tail, hrows⟩, rfl⟩

theorem verificationOk_head (batchSize : Nat) (h : TenantOk numberText db tenantId) :
    VerificationOk tenantId db ((Verification.head (.after tenantId (db.tenantRows tenantId))).step
      numberText tenantId batchSize db) := by
  have hhead := compareHead_tenantOk (db.tenantRows tenantId).length h
  refine ⟨?_, ?_⟩
  · exact congrArg (·.valid) hhead
  · exact congrArg (·.firstBreak) hhead

-- ---------------------------------------------------------------------------
-- Every quiet run
-- ---------------------------------------------------------------------------

theorem liveOk_step (hnum : NumberText numberText) (hbatch : 1 ≤ batchSize)
    (hok : LiveOk numberText tenantId live) (hquiet : live.Quiet tenantId a)
    (h : live.step numberText tenantId batchSize a = some live') :
    LiveOk numberText tenantId live' := by
  obtain ⟨db, verification⟩ := live
  obtain ⟨hinv, hpos, hverification⟩ := hok
  cases a with
  | append a =>
    obtain ⟨db', hs, rfl⟩ := Option.map_eq_some_iff.mp h
    refine ⟨inv_step hinv hs, seqsPositive_step hpos hs, ?_⟩
    cases verification with
    | page walk =>
      obtain ⟨rows, hprefix, hwalk⟩ := hverification
      exact ⟨rows, hprefix.trans (step_grows hs tenantId), hwalk⟩
    | head walk =>
      have hsame := (step_same hinv hs (hquiet rfl)).1
      exact hverification.trans (congrArg (Walk.after tenantId) hsame.symm)
    | done outcome => cases outcome <;> exact hverification
  | verify =>
    cases h
    refine ⟨hinv, hpos, ?_⟩
    cases verification with
    | page walk => exact verificationOk_page hnum hbatch hinv hpos hquiet hverification
    | head walk =>
      obtain rfl : walk = Walk.after tenantId (db.tenantRows tenantId) := hverification
      exact verificationOk_head batchSize (hinv.tenants tenantId)
    | done outcome => cases outcome <;> exact hverification

end

/-- In every run in which no row of the tenant is committed between the last page
and the head, a verification that returns finds the log valid. -/
theorem quiet_verification_valid (numberText : ℚ → JsString) (hnum : NumberText numberText)
    (tenantId : JsString) (batchSize : Nat) (hbatch : 1 ≤ batchSize) (actions : List LiveAction)
    (live : Live)
    (hrun : run (Live.step numberText tenantId batchSize) (.start tenantId) actions = some live)
    (hquiet : ∀ before a after mid, actions = before ++ a :: after →
      run (Live.step numberText tenantId batchSize) (.start tenantId) before = some mid →
      mid.Quiet tenantId a)
    (r : ChainVerificationResult) (hdone : live.verification = .done (.ok r)) :
    r.valid = true ∧ r.firstBreak = none := by
  have hok := run_invariant_of (LiveOk numberText tenantId) (Live.Quiet tenantId)
    (fun _ _ _ hok hquiet hs => liveOk_step hnum hbatch hok hquiet hs) liveOk_start hquiet hrun
  have hverification := hok.verification
  rw [hdone] at hverification
  exact hverification

def verifiedAfter : List LiveAction := appendOnce.map .append ++ [.verify, .verify]

/-- All states before a step of the run: rows are appended before the walk ends. -/
theorem verifiedAfter_quiet (before : List LiveAction) (a : LiveAction) (after : List LiveAction)
    (mid : Live) (hsplit : verifiedAfter = before ++ a :: after)
    (hmid : run (Live.step fractionText (js "acme") 1000) (.start (js "acme")) before = some mid) :
    mid.Quiet (js "acme") a := by
  have hstates : ∀ n < 8, (run (Live.step fractionText (js "acme") 1000) (.start (js "acme"))
      (verifiedAfter.take n)).all (fun mid =>
        (decide (6 < n) || !mid.verification.isAtHead) && decide (mid.db.nextSeq ≤ 2)) = true := by
    decide +kernel
  have hlength := congrArg List.length hsplit
  rw [List.length_append, List.length_cons] at hlength
  have htake : verifiedAfter.take before.length = before := by
    rw [hsplit, List.take_left]
  have hget : verifiedAfter[before.length]? = some a := by
    rw [hsplit, List.getElem?_append_right (le_refl _), Nat.sub_self, List.getElem?_cons_zero]
  have hlt : before.length < 8 := by
    rw [show verifiedAfter.length = 8 from rfl] at hlength
    omega
  have hstate := hstates before.length hlt
  rw [htake, hmid] at hstate
  simp only [Option.all_some, Bool.and_eq_true, Bool.or_eq_true, decide_eq_true_eq] at hstate
  cases a with
  | verify =>
    exact hstate.2.trans (by norm_num)
  | append a =>
    intro hhead
    rw [hhead] at hstate
    have hlarge : before.length = 7 := by
      have := hstate.1
      simp at this
      omega
    rw [hlarge] at hget
    cases hget

theorem quiet_verification_after :
    ∃ live r, run (Live.step fractionText (js "acme") 1000) (.start (js "acme")) verifiedAfter =
        some live ∧
      live.verification = .done (.ok r) ∧ r.rowsChecked = 1 ∧ r.valid = true ∧
        r.firstBreak = none := by
  have hresult : ((run (Live.step fractionText (js "acme") 1000) (.start (js "acme"))
      verifiedAfter).bind (·.verification.result?)).map (·.rowsChecked) = some 1 := by
    decide +kernel
  obtain ⟨r, hr, hchecked⟩ := Option.map_eq_some_iff.mp hresult
  obtain ⟨live, hrun, hlive⟩ := Option.bind_eq_some_iff.mp hr
  have hdone := result_eq_some.mp hlive
  exact ⟨live, r, hrun, hdone, hchecked,
    quiet_verification_valid fractionText numberText_fractionText (js "acme") 1000 (by decide)
      verifiedAfter live hrun verifiedAfter_quiet r hdone⟩

def verifiedAround : List LiveAction := .verify :: appendOnce.map .append ++ [.verify]

/-- A row committed between the last page and the head raises a false alarm. -/
theorem verification_false_alarm :
    ∃ live r, run (Live.step fractionText (js "acme") 1000) (.start (js "acme")) verifiedAround =
        some live ∧
      live.verification = .done (.ok r) ∧ r.valid = false := by
  have hresult : ((run (Live.step fractionText (js "acme") 1000) (.start (js "acme"))
      verifiedAround).bind (·.verification.result?)).map (·.valid) = some false := by
    decide +kernel
  obtain ⟨r, hr, hvalid⟩ := Option.map_eq_some_iff.mp hresult
  obtain ⟨live, hrun, hlive⟩ := Option.bind_eq_some_iff.mp hr
  exact ⟨live, r, hrun, result_eq_some.mp hlive, hvalid⟩

end McpGateway.Audit
