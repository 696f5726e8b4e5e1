import McpGateway.Audit.WriterLaws

/-!
# Concurrent appends keep a well-formed chain

Whatever the interleaving of append transactions, and whichever of them abort,
the committed rows of each tenant ordered by `seq` form its chain and the
committed head is its end.
-/

namespace McpGateway.Audit

open Js Shared Transition

/-- The rows start at the tenant's genesis hash, each carries the hash of the
one before it, and each hash is the one of its own fields. -/
structure WellFormedChain (numberText : ℚ → JsString) (tenantId : JsString)
    (rows : List AuditEvent) : Prop where
  first : ∀ e ∈ rows.head?, e.prevHash = genesisHash tenantId
  linked : ∀ i (h : i + 1 < rows.length), rows[i + 1].prevHash = rows[i].rowHash
  hashed : ∀ e ∈ rows,
    computeRowHash numberText e.prevHash (toLink e).toAuditRowInput = .ok e.rowHash

/-- What holds of a tenant's committed rows, ordered by `seq`, and of its head. -/
structure ChainKept (numberText : ℚ → JsString) (db : Db) (tenantId : JsString) : Prop where
  chain : WellFormedChain numberText tenantId (orderBySeq (db.tenantRows tenantId))
  head : ∀ head, db.heads tenantId = some head →
    head.prevHash = ((orderBySeq (db.tenantRows tenantId)).getLast?.map (·.rowHash)).getD
      (genesisHash tenantId) ∧
    head.length = (orderBySeq (db.tenantRows tenantId)).length
  /-- Rows that share a `prev_hash` exhibit a collision of SHA-256. -/
  unshared : ∀ i j (hi : i < (orderBySeq (db.tenantRows tenantId)).length)
    (hj : j < (orderBySeq (db.tenantRows tenantId)).length), i ≠ j →
    (orderBySeq (db.tenantRows tenantId))[i].prevHash =
      (orderBySeq (db.tenantRows tenantId))[j].prevHash →
    DigestCollision
      (walkTexts numberText tenantId ((orderBySeq (db.tenantRows tenantId)).map toLink))

section
variable {numberText : ℚ → JsString} {rows : List AuditEvent} {d t : JsString} {db : Db}

theorem orderBySeq_of_increasing (h : rows.Pairwise (·.seq < ·.seq)) : orderBySeq rows = rows :=
  List.Pairwise.insertionSort_eq (h.imp le_of_lt)

theorem toLink_digests (h : IsDigest e.prevHash ∧ IsDigest e.rowHash) :
    (toLink e).prevHash = e.prevHash ∧ (toLink e).rowHash = e.rowHash :=
  ⟨trim_digest h.1, trim_digest h.2⟩

theorem follows_inv (h : HashChain.Follows (auditChain numberText) d l) :
    l.prevHash = d ∧ computeRowHash numberText d l.toAuditRowInput = .ok l.rowHash := by
  obtain ⟨hprev, s, hs, hd⟩ := follows_iff.mp h
  refine ⟨hprev, ?_⟩
  rw [computeRowHash, hs]
  exact congrArg Except.ok hd

theorem wellFormedChain_of_chained
    (h : HashChain.Chained (auditChain numberText) d (rows.map toLink))
    (hdigests : ∀ e ∈ rows, IsDigest e.prevHash ∧ IsDigest e.rowHash) :
    (∀ e ∈ rows.head?, e.prevHash = d) ∧
      (∀ i (h : i + 1 < rows.length), rows[i + 1].prevHash = rows[i].rowHash) ∧
      ∀ e ∈ rows,
        computeRowHash numberText e.prevHash (toLink e).toAuditRowInput = .ok e.rowHash := by
  induction rows generalizing d with
  | nil => simp
  | cons e rows ih =>
    rw [List.forall_mem_cons] at hdigests
    obtain ⟨hprev, hhash⟩ := toLink_digests hdigests.1
    obtain ⟨hfirst, hlinked, hhashed⟩ := ih h.2 hdigests.2
    obtain ⟨heprev, hehash⟩ := follows_inv h.1
    rw [hprev] at heprev
    refine ⟨?_, ?_, ?_⟩
    · intro f hf
      cases hf
      exact heprev
    · intro i hi
      cases i with
      | zero =>
        cases rows with
        | nil => simp at hi
        | cons f rows => exact (hfirst f rfl).trans hhash
      | succ i => exact hlinked i (by simpa using hi)
    · rw [List.forall_mem_cons]
      exact ⟨by rw [heprev, hehash, hhash], hhashed⟩

theorem getLast_links (hdigests : ∀ e ∈ rows, IsDigest e.prevHash ∧ IsDigest e.rowHash) :
    (rows.map toLink).getLast?.map (·.rowHash) = rows.getLast?.map (·.rowHash) := by
  rw [List.getLast?_map]
  cases hlast : rows.getLast? with
  | none => rfl
  | some e =>
    simp only [Option.map_some, Option.some.injEq]
    exact (toLink_digests (hdigests e (List.mem_of_getLast? hlast))).2

theorem unshared_of_chained (hnum : NumberText numberText)
    (h : HashChain.Chained (auditChain numberText) (genesisHash t) (rows.map toLink))
    (hdigests : ∀ e ∈ rows, IsDigest e.prevHash ∧ IsDigest e.rowHash) {i j : Nat}
    (hij : i < j) (hj : j < rows.length) (hprev : rows[i].prevHash = rows[j].prevHash) :
    DigestCollision (walkTexts numberText t (rows.map toLink)) := by
  have hi : i < rows.length := hij.trans hj
  refine HashChain.collision_of_shared_prev (separated_auditChain hnum t) h hij
    (by simpa using hj) ?_
  simp only [List.getElem_map]
  exact (toLink_digests (hdigests _ (List.getElem_mem hi))).1.trans
    (hprev.trans (toLink_digests (hdigests _ (List.getElem_mem hj))).1.symm)

theorem Inv.chainKept (hnum : NumberText numberText) (h : Inv numberText db) (t : JsString) :
    ChainKept numberText db t := by
  have ht := h.tenants t
  have hrows := orderBySeq_of_increasing ht.increasing
  have hchain := wellFormedChain_of_chained ht.chained ht.digests
  constructor
  · rw [hrows]
    exact ⟨hchain.1, hchain.2.1, hchain.2.2⟩
  · rw [hrows]
    intro head hhead
    have heq : db.head t = head := by rw [Db.head, hhead, Option.getD_some]
    rw [← heq, ht.prevHash, last_eq_getLast, Db.links, getLast_links ht.digests]
    exact ⟨rfl, ht.length⟩
  · rw [hrows]
    intro i j hi hj hij hprev
    obtain hlt | hgt := Nat.lt_or_gt_of_ne hij
    · exact unshared_of_chained hnum ht.chained ht.digests hlt hj hprev
    · exact unshared_of_chained hnum ht.chained ht.digests hgt hi hprev.symm

end

/-- Every interleaving of appends, aborted or not, keeps every tenant's chain. -/
theorem append_keeps_chain (numberText : ℚ → JsString) (hnum : NumberText numberText)
    (actions : List Action) (db : Db)
    (hrun : run (Db.step numberText) Db.empty actions = some db) (tenantId : JsString) :
    ChainKept numberText db tenantId :=
  (inv_run hrun).chainKept hnum tenantId

/-- Two first events of a tenant race: the one that created the head aborts, the
other one and a third commit. -/
def racingAppends : List Action :=
  [.start 0 (sampleCall (.object []) (js "a")), .start 1 (sampleCall (.object []) (js "b")),
    .statement 0, .statement 0, .statement 0, .abort 0, .statement 1,
    .start 2 (sampleCall (.object []) (js "c")), .statement 1, .statement 1, .statement 1,
    .statement 1, .statement 2, .statement 2, .statement 2, .statement 2, .statement 2]

theorem append_keeps_chain_racing :
    ∃ db, run (Db.step fractionText) Db.empty racingAppends = some db ∧
      db.rows.map (·.seq) = [2, 3] ∧ ChainKept fractionText db (js "acme") := by
  have hrun : (run (Db.step fractionText) Db.empty racingAppends).map (·.rows.map (·.seq)) =
      some [2, 3] := by
    decide +kernel
  obtain ⟨db, hdb, hseqs⟩ := Option.map_eq_some_iff.mp hrun
  exact ⟨db, hdb, hseqs,
    append_keeps_chain fractionText numberText_fractionText racingAppends db hdb (js "acme")⟩

end McpGateway.Audit
