import McpGateway.Audit.Writer

/-!
# What every interleaving keeps

A transaction that has locked its tenant's head, or inserted it, is the only one
to do so until it ends, and the head it works on is the committed one. So the
rows a tenant commits extend its chain one by one, in the order of their `seq`,
and the committed head is where the chain ends.
-/

namespace McpGateway.Audit

open Js Shared Outcome Transition

/-- The committed head of a tenant, which an absent row stands for at genesis. -/
def Db.head (db : Db) (tenantId : JsString) : ChainHead :=
  (db.heads tenantId).getD { prevHash := genesisHash tenantId, length := 0 }

def Db.links (db : Db) (tenantId : JsString) : List ChainLink := (db.tenantRows tenantId).map toLink

section
variable (numberText : ℚ → JsString)

structure TenantOk (db : Db) (tenantId : JsString) : Prop where
  chained : HashChain.Chained (auditChain numberText) (genesisHash tenantId) (db.links tenantId)
  prevHash : (db.head tenantId).prevHash =
    HashChain.last (auditChain numberText) (genesisHash tenantId) (db.links tenantId)
  length : (db.head tenantId).length = (db.tenantRows tenantId).length
  noHead : db.heads tenantId = none → db.tenantRows tenantId = []
  digests : ∀ e ∈ db.tenantRows tenantId, IsDigest e.prevHash ∧ IsDigest e.rowHash
  increasing : (db.tenantRows tenantId).Pairwise (·.seq < ·.seq)
  below : ∀ e ∈ db.tenantRows tenantId, e.seq < db.nextSeq

structure NextRow (db : Db) (tenantId : JsString) (e : AuditEvent) : Prop where
  tenant : e.tenantId = tenantId
  follows : HashChain.Follows (auditChain numberText) (db.head tenantId).prevHash (toLink e)
  digests : IsDigest e.prevHash ∧ IsDigest e.rowHash
  above : ∀ f ∈ db.tenantRows tenantId, f.seq < e.seq
  below : e.seq < db.nextSeq

def PhaseOk (db : Db) (txn : Txn) : Prop :=
  let head := db.head txn.tenantId
  match txn.phase with
  | .createHead => txn.head = none
  | .selectHead => txn.head = some head ∨ txn.head = none ∧ (db.heads txn.tenantId).isSome
  | .insertEvent prevHash => txn.head = some head ∧ prevHash = head.prevHash
  | .updateHead e => txn.head = some head ∧ NextRow numberText db txn.tenantId e
  | .insertPayload e | .commit e =>
    txn.head = some { prevHash := e.rowHash, length := head.length + 1 } ∧
      NextRow numberText db txn.tenantId e

structure TxnOk (db : Db) (i : TxnId) (txn : Txn) : Prop where
  writable : Writable txn.row
  lock : txn.head.isSome → db.lock txn.tenantId = some i
  phase : PhaseOk numberText db txn

def LockOk (db : Db) : Prop :=
  ∀ tenantId i, db.lock tenantId = some i →
    ∃ txn, db.txns i = some txn ∧ txn.tenantId = tenantId ∧ txn.head.isSome

structure Inv (db : Db) : Prop where
  tenants : ∀ tenantId, TenantOk numberText db tenantId
  txns : ∀ i txn, db.txns i = some txn → TxnOk numberText db i txn
  locks : LockOk db

end

section
variable {numberText : ℚ → JsString} {db db' : Db} {i j : TxnId} {x y z txn : Txn}

-- ---------------------------------------------------------------------------
-- Statements that commit nothing
-- ---------------------------------------------------------------------------

structure SameTenant (db db' : Db) (tenantId : JsString) : Prop where
  tenantRows : db'.tenantRows tenantId = db.tenantRows tenantId
  heads : db'.heads tenantId = db.heads tenantId
  nextSeq : db.nextSeq ≤ db'.nextSeq

theorem SameTenant.head (h : SameTenant db db' t) : db'.head t = db.head t := by
  rw [Db.head, h.heads, Db.head]

theorem TenantOk.same (h : TenantOk numberText db t) (hs : SameTenant db db' t) :
    TenantOk numberText db' t where
  chained := by
    rw [Db.links, hs.tenantRows]
    exact h.chained
  prevHash := by
    rw [hs.head, Db.links, hs.tenantRows]
    exact h.prevHash
  length := by
    rw [hs.head, hs.tenantRows]
    exact h.length
  noHead hn := by
    rw [hs.tenantRows]
    exact h.noHead (hs.heads ▸ hn)
  digests := by
    rw [hs.tenantRows]
    exact h.digests
  increasing := by
    rw [hs.tenantRows]
    exact h.increasing
  below e he := by
    rw [hs.tenantRows] at he
    exact lt_of_lt_of_le (h.below e he) hs.nextSeq

theorem NextRow.same (h : NextRow numberText db t e) (hs : SameTenant db db' t) :
    NextRow numberText db' t e where
  tenant := h.tenant
  follows := by
    rw [hs.head]
    exact h.follows
  digests := h.digests
  above f hf := by
    rw [hs.tenantRows] at hf
    exact h.above f hf
  below := lt_of_lt_of_le h.below hs.nextSeq

theorem PhaseOk.same (h : PhaseOk numberText db txn) (hs : SameTenant db db' txn.tenantId) :
    PhaseOk numberText db' txn := by
  unfold PhaseOk at h ⊢
  rw [hs.head, hs.heads]
  cases hp : txn.phase with
  | createHead | selectHead | insertEvent => simpa only [hp] using h
  | updateHead e =>
    simp only [hp] at h ⊢
    exact ⟨h.1, h.2.same hs⟩
  | insertPayload e | commit e =>
    simp only [hp] at h ⊢
    exact ⟨h.1, h.2.same hs⟩

theorem phaseOk_advanced (hphase : x.phase = .insertPayload e ∨ x.phase = .commit e) :
    PhaseOk numberText db x ↔
      x.head = some { prevHash := e.rowHash, length := (db.head x.tenantId).length + 1 } ∧
        NextRow numberText db x.tenantId e := by
  unfold PhaseOk
  obtain hp | hp := hphase <;> simp only [hp]

theorem Inv.exclusive (h : Inv numberText db) (hi : db.txns i = some x) (hj : db.txns j = some y)
    (ht : x.tenantId = y.tenantId) (hx : x.head.isSome) (hy : y.head.isSome) : i = j := by
  have hlock := (h.txns i x hi).lock hx
  rw [ht, (h.txns j y hj).lock hy] at hlock
  exact (Option.some.inj hlock).symm

/-- The transaction `i` goes on as `txn`: it keeps its tenant and the lock it
holds, or takes one that was free, and nothing is committed. -/
theorem Inv.goOn (h : Inv numberText db) (hs : ∀ t, SameTenant db db' t)
    (htxns : db'.txns = Function.update db.txns i (some txn))
    (hlock : ∀ t, db'.lock t = db.lock t ∨
      t = txn.tenantId ∧ db.lock t = none ∧ db'.lock t = some i ∧ txn.head.isSome)
    (hkeeps : ∀ x, db.txns i = some x →
      x.tenantId = txn.tenantId ∧ (x.head.isSome → txn.head.isSome))
    (hok : TxnOk numberText db' i txn) : Inv numberText db' where
  tenants t := (h.tenants t).same (hs t)
  txns j x hj := by
    rw [htxns] at hj
    by_cases hij : j = i
    · subst hij
      rw [Function.update_self] at hj
      cases hj
      exact hok
    · rw [Function.update_of_ne hij] at hj
      have hx := h.txns j x hj
      refine ⟨hx.writable, fun hhead => ?_, hx.phase.same (hs _)⟩
      obtain heq | ⟨-, hnone, -⟩ := hlock x.tenantId
      · exact heq.trans (hx.lock hhead)
      · cases hnone.symm.trans (hx.lock hhead)
  locks t k hk := by
    rw [htxns]
    obtain heq | ⟨rfl, -, hsome, hhead⟩ := hlock t
    · obtain ⟨x, hx, hxt, hxh⟩ := h.locks t k (heq.symm.trans hk)
      by_cases hki : k = i
      · subst hki
        obtain ⟨ht, hhead⟩ := hkeeps x hx
        exact ⟨txn, Function.update_self .., ht.symm.trans hxt, hhead hxh⟩
      · exact ⟨x, by rw [Function.update_of_ne hki, hx], hxt, hxh⟩
    · cases hsome.symm.trans hk
      exact ⟨txn, Function.update_self .., rfl, hhead⟩

theorem same_setTxn (t : JsString) : SameTenant db (db.setTxn i x?) t := ⟨rfl, rfl, le_refl _⟩

theorem same_setLock (t : JsString) : SameTenant db ((db.setLock u k).setTxn i x?) t :=
  ⟨rfl, rfl, le_refl _⟩

-- ---------------------------------------------------------------------------
-- Rows and digests
-- ---------------------------------------------------------------------------

theorem isDigest_genesisHash (t : JsString) : IsDigest (genesisHash t) := isDigest_sha256Hex _

theorem TenantOk.isDigest_head (h : TenantOk numberText db t) : IsDigest (db.head t).prevHash := by
  rw [h.prevHash]
  exact HashChain.last_digest IsDigest isDigest_sha256Hex (isDigest_genesisHash t) h.chained

theorem atLeastZero_ne_negZero (n : JsNumber) : atLeastZero n ≠ .negZero := by
  unfold atLeastZero
  split <;> simp

theorem writable_row {call : AppendCall} (h : call.row numberText = .ok row) : Writable row := by
  obtain ⟨hash, hhash, h⟩ := bind_eq_ok.mp h
  obtain ⟨text, -, htext⟩ := bind_eq_ok.mp hhash
  cases h
  cases htext
  exact ⟨isDigest_sha256Hex _, atLeastZero_ne_negZero _⟩

theorem computeRowHash_ok (h : computeRowHash numberText prevHash row = .ok rowHash) :
    ∃ s, canonicalRow numberText row = .ok s ∧ sha256Hex (prevHash ++ s) = rowHash := by
  obtain ⟨s, hs, h⟩ := bind_eq_ok.mp h
  exact ⟨s, hs, pure_eq_ok.mp h⟩

theorem follows_insertedEvent (hrow : Writable row) (hprev : IsDigest prevHash)
    (hhash : computeRowHash numberText prevHash row = .ok rowHash)
    (h : insertedEvent row prevHash rowHash seq = some e) :
    HashChain.Follows (auditChain numberText) prevHash (toLink e) ∧
      IsDigest e.prevHash ∧ IsDigest e.rowHash := by
  obtain ⟨s, hs, rfl⟩ := computeRowHash_ok hhash
  have hdigest := isDigest_sha256Hex (prevHash ++ s)
  obtain ⟨hfields, hlprev, hlhash⟩ := toLink_insertedEvent hrow hprev hdigest h
  refine ⟨follows_iff.mpr ⟨hlprev, s, hfields ▸ hs, hlhash.symm⟩, ?_⟩
  · obtain ⟨t, latencyMs, -, -, rfl⟩ := insertedEvent_inv h
    exact ⟨hprev, hdigest⟩

-- ---------------------------------------------------------------------------
-- One statement
-- ---------------------------------------------------------------------------

/-- What taking the lock leaves: the tenant's committed head is locked by `i`,
unless there is no such row. -/
theorem lockHead_spec (h : db.lockHead i x = some (db', y)) :
    (x.head.isSome ∧ db' = db ∧ y = x) ∨
    (x.head = none ∧ db.heads x.tenantId = none ∧ db' = db ∧ y = x) ∨
    (x.head = none ∧ db.heads x.tenantId ≠ none ∧ db.lock x.tenantId = none ∧
      db' = db.setLock x.tenantId (some i) ∧ y = { x with head := some (db.head x.tenantId) }) := by
  unfold Db.lockHead at h
  split at h
  · next hhead =>
    cases h
    exact .inl ⟨hhead, rfl, rfl⟩
  · next hhead =>
    rw [Option.not_isSome_iff_eq_none] at hhead
    split at h
    · next hnone =>
      cases h
      exact .inr (.inl ⟨hhead, hnone, rfl, rfl⟩)
    · next head hsome =>
      split at h
      · next hfree =>
        cases h
        refine .inr (.inr ⟨hhead, by simp [hsome], hfree, rfl, ?_⟩)
        rw [Db.head, hsome, Option.getD_some]
      · cases h

theorem inv_createHead (h : Inv numberText db) (hi : db.txns i = some x)
    (hphase : x.phase = .createHead) (hs : db.createHead i x = some db') : Inv numberText db' := by
  have hx := h.txns i x hi
  have hhead : x.head = none := by simpa only [PhaseOk, hphase] using hx.phase
  unfold Db.createHead at hs
  split at hs
  · next head hsome =>
    cases hs
    refine h.goOn same_setTxn rfl (fun t => .inl rfl) ?_ ⟨hx.writable, hx.lock, ?_⟩
    · intro y hy
      cases hi.symm.trans hy
      exact ⟨rfl, id⟩
    · exact .inr ⟨hhead, Option.isSome_of_mem hsome⟩
  · next hnone =>
    split at hs
    · next hfree =>
      cases hs
      refine h.goOn same_setLock rfl (fun t => ?_) ?_ ⟨hx.writable, fun _ => ?_, ?_⟩
      · by_cases ht : t = x.tenantId
        · subst ht
          exact .inr ⟨rfl, hfree, Function.update_self .., rfl⟩
        · exact .inl (Function.update_of_ne ht ..)
      · intro y hy
        cases hi.symm.trans hy
        exact ⟨rfl, fun _ => rfl⟩
      · exact Function.update_self ..
      · refine .inl ?_
        show some _ = some (Db.head _ x.tenantId)
        rw [(same_setLock _).head, Db.head, hnone, Option.getD_none]
    · cases hs

theorem Inv.goOn_locked (h : Inv numberText db) (hi : db.txns i = some x)
    (hl : db.lockHead i x = some (db', z)) (hrow : y.row = x.row)
    (hhead : y.head.isSome = z.head.isSome) (hphase : PhaseOk numberText db y) :
    Inv numberText (db'.setTxn i (some y)) := by
  have hx := h.txns i x hi
  have ht : x.tenantId = y.tenantId := by rw [Txn.tenantId, Txn.tenantId, hrow]
  have hw : Writable y.row := hrow ▸ hx.writable
  obtain ⟨hsome, rfl, rfl⟩ | ⟨hnone, -, rfl, rfl⟩ | ⟨hnone, -, hfree, rfl, rfl⟩ := lockHead_spec hl
  · refine h.goOn same_setTxn rfl (fun t => .inl rfl) ?_ ⟨hw, ?_, hphase.same (same_setTxn _)⟩
    · intro w hw
      cases hi.symm.trans hw
      exact ⟨ht, fun _ => hhead ▸ hsome⟩
    · intro _
      rw [← ht]
      exact hx.lock hsome
  · refine h.goOn same_setTxn rfl (fun t => .inl rfl) ?_ ⟨hw, ?_, hphase.same (same_setTxn _)⟩
    · intro w hw
      cases hi.symm.trans hw
      exact ⟨ht, fun hsome => by simp [hnone] at hsome⟩
    · intro hsome
      rw [hhead, hnone] at hsome
      cases hsome
  · refine h.goOn same_setLock rfl (fun t => ?_) ?_ ⟨hw, ?_, hphase.same (same_setLock _)⟩
    · by_cases hxt : t = x.tenantId
      · subst hxt
        exact .inr ⟨ht, hfree, Function.update_self .., hhead ▸ rfl⟩
      · exact .inl (Function.update_of_ne hxt ..)
    · intro w hw
      cases hi.symm.trans hw
      exact ⟨ht, fun _ => hhead ▸ rfl⟩
    · intro _
      rw [← ht]
      exact Function.update_self ..

theorem inv_selectHead (h : Inv numberText db) (hi : db.txns i = some x)
    (hphase : x.phase = .selectHead) (hs : db.selectHead i x = some db') : Inv numberText db' := by
  obtain ⟨⟨db₁, z⟩, hl, hs⟩ := Option.bind_eq_some_iff.mp hs
  cases hs
  have hx := h.txns i x hi
  have hp : x.head = some (db.head x.tenantId) ∨
      x.head = none ∧ (db.heads x.tenantId).isSome := by
    simpa only [PhaseOk, hphase] using hx.phase
  have hz : z.row = x.row ∧ z.head = some (db.head x.tenantId) := by
    obtain ⟨hsome, -, rfl⟩ | ⟨hnone, habsent, -, rfl⟩ | ⟨hnone, -, -, -, rfl⟩ := lockHead_spec hl
    · obtain hp | ⟨hp, -⟩ := hp
      · exact ⟨rfl, hp⟩
      · simp [hp] at hsome
    · obtain hp | ⟨-, hp⟩ := hp
      · simp [hnone] at hp
      · simp [habsent] at hp
    · exact ⟨rfl, rfl⟩
  have ht : z.tenantId = x.tenantId := by rw [Txn.tenantId, Txn.tenantId, hz.1]
  refine h.goOn_locked hi hl hz.1 rfl ?_
  show z.head = some (db.head z.tenantId) ∧ _ = (db.head z.tenantId).prevHash
  rw [hz.2, ht]
  exact ⟨rfl, rfl⟩

theorem insertEvent_spec (h : db.insertEvent numberText i x prevHash = some db') :
    ∃ rowHash e, computeRowHash numberText prevHash x.row = .ok rowHash ∧
      insertedEvent x.row prevHash rowHash db.nextSeq = some e ∧ (∀ f ∈ db.rows, f.id ≠ e.id) ∧
      db' = { db with nextSeq := db.nextSeq + 1 }.setTxn i
        (some { x with phase := .updateHead e }) := by
  obtain ⟨rowHash, hhash, hrest⟩ := Option.bind_eq_some_iff.mp h
  obtain ⟨e, he, hguard⟩ := Option.bind_eq_some_iff.mp hrest
  refine ⟨rowHash, e, ?_, he, ?_⟩
  · cases hc : computeRowHash numberText prevHash x.row with
    | error _ => simp [hc, Except.toOption] at hhash
    | ok _ => simpa [hc, Except.toOption] using hhash
  · split at hguard
    · next hfree =>
      cases hguard
      exact ⟨by simpa using hfree, rfl⟩
    · cases hguard

theorem inv_insertEvent (h : Inv numberText db) (hi : db.txns i = some x)
    (hphase : x.phase = .insertEvent prevHash)
    (hs : db.insertEvent numberText i x prevHash = some db') : Inv numberText db' := by
  obtain ⟨rowHash, e, hhash, he, -, rfl⟩ := insertEvent_spec hs
  have hx := h.txns i x hi
  have hp : x.head = some (db.head x.tenantId) ∧ prevHash = (db.head x.tenantId).prevHash := by
    simpa only [PhaseOk, hphase] using hx.phase
  have htenant := h.tenants x.tenantId
  obtain ⟨hfollows, hdigests⟩ :=
    follows_insertedEvent hx.writable (hp.2 ▸ htenant.isDigest_head) hhash he
  have hsame (t : JsString) : SameTenant db ({ db with nextSeq := db.nextSeq + 1 }.setTxn i
      (some { x with phase := .updateHead e })) t := ⟨rfl, rfl, by simp [Db.setTxn]⟩
  refine h.goOn hsame rfl (fun t => .inl rfl) ?_ ⟨hx.writable, hx.lock, hp.1, ?_⟩
  · intro w hw
    cases hi.symm.trans hw
    exact ⟨rfl, id⟩
  · obtain ⟨t, latencyMs, -, -, rfl⟩ := insertedEvent_inv he
    exact
      { tenant := rfl
        follows := hp.2 ▸ hfollows
        digests := hdigests
        above := htenant.below
        below := by simp [Db.setTxn] }

theorem inv_updateHead (h : Inv numberText db) (hi : db.txns i = some x)
    (hphase : x.phase = .updateHead e) (hs : db.updateHead i x e = some db') :
    Inv numberText db' := by
  obtain ⟨⟨db₁, z⟩, hl, hs⟩ := Option.bind_eq_some_iff.mp hs
  cases hs
  have hx := h.txns i x hi
  have hp : x.head = some (db.head x.tenantId) ∧ NextRow numberText db x.tenantId e := by
    simpa only [PhaseOk, hphase] using hx.phase
  obtain ⟨-, rfl, rfl⟩ | ⟨hnone, -⟩ | ⟨hnone, -⟩ := lockHead_spec hl
  · refine h.goOn_locked hi hl rfl (by simp) ((phaseOk_advanced (e := e) ?_).mpr ?_)
    · dsimp only
      split <;> simp
    · exact ⟨by simp only [hp.1, Option.map_some, Txn.tenantId], hp.2⟩
  · simp [hnone] at hp
  · simp [hnone] at hp

theorem inv_insertPayload (h : Inv numberText db) (hi : db.txns i = some x)
    (hphase : x.phase = .insertPayload e) (hs : db.insertPayload i x e = some db') :
    Inv numberText db' := by
  have hx := h.txns i x hi
  have hp := (phaseOk_advanced (.inl hphase)).mp hx.phase
  unfold Db.insertPayload at hs
  split at hs
  · cases hs
    refine h.goOn same_setTxn rfl (fun t => .inl rfl) ?_ ⟨hx.writable, hx.lock, ?_⟩
    · intro w hw
      cases hi.symm.trans hw
      exact ⟨rfl, id⟩
    · exact ⟨hp.1, hp.2.same (same_setTxn _)⟩
  · cases hs

-- ---------------------------------------------------------------------------
-- The end of a transaction
-- ---------------------------------------------------------------------------

theorem same_finish (t : JsString) : SameTenant db (db.finish i x) t := by
  unfold Db.finish
  dsimp only
  split <;> exact ⟨rfl, rfl, le_refl _⟩

theorem finish_txns : (db.finish i x).txns = Function.update db.txns i none := by
  unfold Db.finish
  dsimp only
  split <;> rfl

theorem finish_lock (t : JsString) : (db.finish i x).lock t =
    if x.head.isSome ∧ t = x.tenantId then none else db.lock t := by
  unfold Db.finish
  dsimp only
  by_cases hhead : x.head.isSome
  · by_cases ht : t = x.tenantId
    · rw [if_pos hhead, if_pos ⟨hhead, ht⟩, ht]
      exact Function.update_self ..
    · rw [if_pos hhead, if_neg fun h => ht h.2]
      exact Function.update_of_ne ht ..
  · rw [if_neg hhead, if_neg fun h => hhead h.1]
    rfl

/-- The transaction `x` ends, having committed what `db'` adds to the tables. -/
theorem Inv.finish (h : Inv numberText db) (hi : db.txns i = some x)
    (htxns : db'.txns = db.txns) (hlock : db'.lock = db.lock)
    (htenants : ∀ t, TenantOk numberText db' t)
    (hothers : ∀ j y, j ≠ i → db.txns j = some y → PhaseOk numberText db' y) :
    Inv numberText (db'.finish i x) where
  tenants t := (htenants t).same (same_finish t)
  txns j y hj := by
    rw [finish_txns, htxns] at hj
    by_cases hij : j = i
    · subst hij
      rw [Function.update_self] at hj
      cases hj
    · rw [Function.update_of_ne hij] at hj
      have hy := h.txns j y hj
      refine ⟨hy.writable, fun hhead => ?_, (hothers j y hij hj).same (same_finish _)⟩
      rw [finish_lock, hlock, if_neg]
      · exact hy.lock hhead
      · rintro ⟨hxhead, ht⟩
        exact hij (h.exclusive hj hi ht hhead hxhead)
  locks t k hk := by
    rw [finish_lock, hlock] at hk
    split at hk
    · cases hk
    · next hfree =>
      obtain ⟨y, hy, ht, hhead⟩ := h.locks t k hk
      refine ⟨y, ?_, ht, hhead⟩
      rw [finish_txns, htxns, Function.update_of_ne]
      · exact hy
      · rintro rfl
        cases hi.symm.trans hy
        exact hfree ⟨hhead, ht.symm⟩

theorem inv_abort (h : Inv numberText db) (hi : db.txns i = some x) :
    Inv numberText (db.finish i x) :=
  h.finish hi rfl rfl h.tenants fun j y _ hj => (h.txns j y hj).phase

theorem tenantRows_append (ht : e.tenantId = t) :
    Db.tenantRows { db with rows := db.rows ++ [e], heads, payloads } u =
      if u = t then db.tenantRows u ++ [e] else db.tenantRows u := by
  subst ht
  simp only [Db.tenantRows, List.filter_append]
  by_cases hu : u = e.tenantId
  · simp [hu]
  · have hne : ¬ e.tenantId = u := fun h => hu h.symm
    simp [hu, hne]

theorem TenantOk.commit (h : TenantOk numberText db t) (he : NextRow numberText db t e)
    (hrows : db'.tenantRows t = db.tenantRows t ++ [e])
    (hhead : db'.heads t = some { prevHash := e.rowHash, length := (db.head t).length + 1 })
    (hseq : db'.nextSeq = db.nextSeq) : TenantOk numberText db' t := by
  have hlinks : db'.links t = db.links t ++ [toLink e] := by
    rw [Db.links, hrows, List.map_append, Db.links, List.map_singleton]
  have hhead' : db'.head t = { prevHash := e.rowHash, length := (db.head t).length + 1 } := by
    rw [Db.head, hhead, Option.getD_some]
  refine ⟨?_, ?_, ?_, ?_, ?_, ?_, ?_⟩
  · rw [hlinks]
    exact HashChain.chained_concat.mpr ⟨h.chained, h.prevHash ▸ he.follows⟩
  · rw [hlinks, hhead', HashChain.last_concat]
    exact (trim_digest he.digests.2).symm
  · rw [hrows, hhead', h.length, List.length_append, List.length_singleton, Nat.cast_add,
      Nat.cast_one]
  · intro hnone
    cases hhead.symm.trans hnone
  · rw [hrows]
    intro f hf
    rcases List.mem_append.mp hf with hf | hf
    · exact h.digests f hf
    · exact List.mem_singleton.mp hf ▸ he.digests
  · rw [hrows]
    refine List.pairwise_append.mpr ⟨h.increasing, List.pairwise_singleton _ _, ?_⟩
    intro f hf g hg
    exact List.mem_singleton.mp hg ▸ he.above f hf
  · rw [hrows, hseq]
    intro f hf
    rcases List.mem_append.mp hf with hf | hf
    · exact h.below f hf
    · exact List.mem_singleton.mp hf ▸ he.below

theorem inv_commit (h : Inv numberText db) (hi : db.txns i = some x)
    (hphase : x.phase = .commit e) (hs : db.commit i x e = some db') : Inv numberText db' := by
  have hx := h.txns i x hi
  obtain ⟨hhead, he⟩ := (phaseOk_advanced (.inr hphase)).mp hx.phase
  unfold Db.commit at hs
  split at hs
  · cases hs
    rw [hhead]
    dsimp only
    refine h.finish hi rfl rfl (fun t => ?_) (fun j y hij hj => ?_)
    · by_cases ht : t = x.tenantId
      · subst ht
        refine (h.tenants _).commit he ?_ (Function.update_self ..) rfl
        rw [tenantRows_append he.tenant, if_pos rfl]
      · refine (h.tenants t).same ⟨?_, Function.update_of_ne ht .., le_refl _⟩
        rw [tenantRows_append he.tenant, if_neg ht]
    · have hy := (h.txns j y hj).phase
      by_cases ht : y.tenantId = x.tenantId
      · -- `y` waits for the lock, so all it relies on is that the head exists
        have hfree : y.head = none := by
          rw [← Option.not_isSome_iff_eq_none]
          exact fun hsome => hij (h.exclusive hj hi ht hsome (by simp [hhead]))
        unfold PhaseOk at hy ⊢
        cases hp : y.phase with
        | createHead => exact hfree
        | selectHead => exact .inr ⟨hfree, by simp [ht]⟩
        | insertEvent => simp [hp, hfree] at hy
        | updateHead | insertPayload | commit => simp [hp, hfree] at hy
      · refine hy.same ⟨?_, Function.update_of_ne ht .., le_refl _⟩
        rw [tenantRows_append he.tenant, if_neg ht]
  · cases hs

-- ---------------------------------------------------------------------------
-- Every run
-- ---------------------------------------------------------------------------

theorem inv_empty : Inv numberText Db.empty where
  tenants t := by
    refine ⟨trivial, rfl, rfl, fun _ => rfl, ?_, .nil, ?_⟩ <;> intro e he <;> cases he
  txns i x hi := by cases hi
  locks t i hi := by cases hi

theorem inv_statement (h : Inv numberText db) (hi : db.txns i = some x)
    (hs : db.statement numberText i x = some db') : Inv numberText db' := by
  unfold Db.statement at hs
  cases hphase : x.phase with
  | createHead => exact inv_createHead h hi hphase (by simpa only [hphase] using hs)
  | selectHead => exact inv_selectHead h hi hphase (by simpa only [hphase] using hs)
  | insertEvent prevHash => exact inv_insertEvent h hi hphase (by simpa only [hphase] using hs)
  | updateHead e => exact inv_updateHead h hi hphase (by simpa only [hphase] using hs)
  | insertPayload e => exact inv_insertPayload h hi hphase (by simpa only [hphase] using hs)
  | commit e => exact inv_commit h hi hphase (by simpa only [hphase] using hs)

theorem start_spec (h : db.step numberText (.start i call) = some db') :
    ∃ row, call.row numberText = .ok row ∧ db.txns i = none ∧
      db' = db.setTxn i (some
        { row, payload := call.payload numberText, phase := .createHead, head := none }) := by
  obtain ⟨row, hrow, hguard⟩ := Option.bind_eq_some_iff.mp h
  refine ⟨row, ?_, ?_⟩
  · cases hc : call.row numberText with
    | error _ => simp [hc, Except.toOption] at hrow
    | ok _ => simpa [hc, Except.toOption] using hrow
  · split at hguard
    · next hfree =>
      cases hguard
      exact ⟨by simpa using hfree, rfl⟩
    · cases hguard

theorem inv_step (h : Inv numberText db) (hs : db.step numberText a = some db') :
    Inv numberText db' := by
  cases a with
  | start i call =>
    obtain ⟨row, hrow, hfree, rfl⟩ := start_spec hs
    refine h.goOn same_setTxn rfl (fun t => .inl rfl) ?_ ⟨writable_row hrow, by simp, rfl⟩
    intro y hy
    cases hfree.symm.trans hy
  | statement i =>
    obtain ⟨x, hi, hstmt⟩ := Option.bind_eq_some_iff.mp hs
    exact inv_statement h hi hstmt
  | abort i =>
    obtain ⟨x, hi, rfl⟩ := Option.map_eq_some_iff.mp hs
    exact inv_abort h hi
  | drawSeq =>
    cases hs
    have hsame (t : JsString) : SameTenant db { db with nextSeq := db.nextSeq + 1 } t :=
      ⟨rfl, rfl, by simp⟩
    exact ⟨fun t => (h.tenants t).same (hsame t),
      fun j y hj => ⟨(h.txns j y hj).writable, (h.txns j y hj).lock, (h.txns j y hj).phase.same (hsame _)⟩,
      h.locks⟩

theorem inv_run (h : run (Db.step numberText) Db.empty as = some db) : Inv numberText db :=
  run_invariant (Inv numberText) (fun _ _ _ hinv hs => inv_step hinv hs) inv_empty h

end

end McpGateway.Audit
