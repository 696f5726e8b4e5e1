import McpGateway.Audit.WriterLaws

/-!
# Which arguments leave a row

A tool call's arguments reach the writer as `JSON.parse` and the route's schema
leave them. The digest needs every number to be finite, and the captured payload
needs every string to be one a `jsonb` column holds. `JSON.parse` guarantees
neither, and an append that fails leaves no row.
-/

namespace McpGateway.Audit

open Js Shared Outcome Transition

-- ---------------------------------------------------------------------------
-- The route's schema
-- ---------------------------------------------------------------------------

def lookup (key : JsString) (props : List (JsString × Json)) : Option Json :=
  (props.find? (·.1 == key)).map (·.2)

/-- `callSchema.safeParse`: `arguments` is a record, `{}` when it is absent.
A record keeps every property but `__proto__`. -/
def callSchema : Json → Option Json
  | .object props =>
    match lookup (js "arguments") props with
    | none => some (.object [])
    | some (.object args) => some (.object (args.filter (·.1 != js "__proto__")))
    | some _ => none
  | _ => none

/-- The arguments of an accepted request body: `callSchema` of `request.body ?? {}`. -/
def acceptedArguments (text : JsString) : Option Json := do
  match ← Json.parse text with
  | .null => callSchema (.object [])
  | body => callSchema body

def allFinite : Json → Bool
  | .number n => n.isFinite
  | .array items => all items
  | .object props => allProps props
  | _ => true
where
  all : List Json → Bool
    | [] => true
    | v :: vs => allFinite v && all vs
  allProps : List (JsString × Json) → Bool
    | [] => true
    | (_, v) :: ps => allFinite v && allProps ps

-- ---------------------------------------------------------------------------
-- The digest
-- ---------------------------------------------------------------------------

theorem returns_collect {ps : List (JsString × Except ε (Option α))} :
    Returns (collect ps) ↔ ∀ p ∈ ps, Returns p.2 := by
  induction ps with
  | nil => simp [collect]
  | cons p ps ih =>
    obtain ⟨key, part⟩ := p
    rw [List.forall_mem_cons, ← ih]
    cases part with
    | error e => simp [collect]
    | ok part => cases part <;> simp [collect]

mutual

theorem returns_normalForm : ∀ v : Json, Returns (normalForm (ofJson v)) ↔ allFinite v = true
  | .null => by simp [ofJson, normalForm, allFinite]
  | .boolean _ => by simp [ofJson, normalForm, allFinite]
  | .number n => by cases n <;> simp [ofJson, normalForm, allFinite, JsNumber.isFinite]
  | .string _ => by simp [ofJson, normalForm, allFinite]
  | .array vs => by
    rw [allFinite, ← returns_normalItems vs]
    simp [ofJson, normalForm]
  | .object ps => by
    have hcollect : Returns (collect (sortKeys (normalForm.normalProps (ofJson.ofProps ps)))) ↔
        allFinite.allProps ps = true := by
      rw [returns_collect, ← returns_normalProps ps]
      exact forall_congr' fun p => imp_congr_left mem_sortKeys
    rw [allFinite, ← hcollect]
    simp [ofJson, normalForm]

theorem returns_normalItems : ∀ vs : List Json,
    Returns (normalForm.normalItems (ofJson.ofItems vs)) ↔ allFinite.all vs = true
  | [] => by simp [ofJson.ofItems, normalForm.normalItems, allFinite.all]
  | v :: vs => by
    rw [allFinite.all, Bool.and_eq_true, ← returns_normalForm v, ← returns_normalItems vs,
      ofJson.ofItems, normalForm.normalItems]
    cases normalForm (ofJson v) <;> simp

theorem returns_normalProps : ∀ ps : List (JsString × Json),
    (∀ p ∈ normalForm.normalProps (ofJson.ofProps ps), Returns p.2) ↔
      allFinite.allProps ps = true
  | [] => by simp [ofJson.ofProps, normalForm.normalProps, allFinite.allProps]
  | (key, v) :: ps => by
    rw [allFinite.allProps, Bool.and_eq_true, ← returns_normalForm v, ← returns_normalProps ps]
    simp [ofJson.ofProps, normalForm.normalProps]

end

section
variable {numberText : ℚ → JsString} (hnum : NumberText numberText)
include hnum

theorem returns_sha256Canonical (v : Json) :
    Returns (sha256Canonical numberText (ofJson v)) ↔ allFinite v = true := by
  rw [← returns_normalForm v]
  simp [sha256Canonical, canonicalize, encode_eq hnum]

end

-- ---------------------------------------------------------------------------
-- An append on an available database
-- ---------------------------------------------------------------------------

def appendActions (i : TxnId) (call : AppendCall) : List Action :=
  .start i call :: List.replicate (if call.captures then 6 else 5) (.statement i)

/-- The database takes the append as far as it depends on anything but the
arguments: no one holds the tenant's head, the id is new and the columns take
the other fields. -/
structure Available (db : Db) (i : TxnId) (call : AppendCall) : Prop where
  idle : db.txns i = none
  unlocked : db.lock call.input.tenantId = none
  fresh : ∀ f ∈ db.rows, f.id ≠ call.newId
  columns : ∀ argumentsHash prevHash rowHash seq,
    (insertedEvent (call.rowOf argumentsHash) prevHash rowHash seq).isSome

/-- The append commits and leaves one row for the call. -/
def LeavesRow (numberText : ℚ → JsString) (db : Db) (i : TxnId) (call : AppendCall) : Prop :=
  ∃ db' e, run (Db.step numberText) db (appendActions i call) = some db' ∧
    db'.rows = db.rows ++ [e] ∧ e.id = call.newId

/-- The transaction has come to the statement `phase` and nothing is committed. -/
structure Running (db₀ db : Db) (i : TxnId) (row : AuditRowInput) (payload : Option JsString)
    (phase : Phase) : Prop where
  rows : db.rows = db₀.rows
  txn : ∃ head, db.txns i = some { row, payload, phase, head } ∧
    (phase = .createHead ∨ head = none → db.lock row.tenantId = none)

section
variable {numberText : ℚ → JsString} {db₀ db : Db} {i : TxnId} {x : Txn} {call : AppendCall}
  {row : AuditRowInput} {payload : Option JsString}

theorem running_start (hav : Available db i call) (hrow : call.row numberText = .ok row) :
    ∃ db', db.step numberText (.start i call) = some db' ∧
      Running db db' i row (call.payload numberText) .createHead := by
  let txn : Txn :=
    { row, payload := call.payload numberText, phase := .createHead, head := none }
  refine ⟨db.setTxn i (some txn), ?_, rfl, none, Function.update_self .., fun _ => ?_⟩
  · simp [Db.step, hrow, Except.toOption, hav.idle, txn]
  · obtain ⟨hash, -, hpure⟩ := bind_eq_ok.mp hrow
    cases hpure
    exact hav.unlocked

theorem running_createHead (numberText : ℚ → JsString) (h : Running db₀ db i row payload .createHead) :
    ∃ db', db.step numberText (.statement i) = some db' ∧
      Running db₀ db' i row payload .selectHead := by
  obtain ⟨head, hi, hfree⟩ := h.txn
  have hunlocked := hfree (.inl rfl)
  simp only [Db.step, hi, Option.bind_some, Db.statement, Db.createHead]
  cases hheads : db.heads row.tenantId with
  | some committed =>
    simp only [Txn.tenantId, hheads]
    exact ⟨_, rfl, h.rows, head, Function.update_self .., fun _ => hunlocked⟩
  | none =>
    simp only [Txn.tenantId, hheads, hunlocked, ↓reduceIte]
    exact ⟨_, rfl, h.rows, _, Function.update_self .., by simp⟩

theorem lockHead_free (hfree : x.head = none → db.lock x.tenantId = none) :
    ∃ db' y, db.lockHead i x = some (db', y) ∧ db'.rows = db.rows ∧ y.row = x.row ∧
      y.payload = x.payload ∧ (y.head = none → db'.lock x.tenantId = none) := by
  unfold Db.lockHead
  cases hhead : x.head with
  | some head =>
    exact ⟨_, _, by simp, rfl, rfl, rfl, by simp [hhead]⟩
  | none =>
    cases hheads : db.heads x.tenantId with
    | none => exact ⟨_, _, by simp, rfl, rfl, rfl, fun _ => hfree hhead⟩
    | some head =>
      refine ⟨db.setLock x.tenantId (some i), { x with head := some head }, ?_, rfl, rfl, rfl, ?_⟩
      · simp [hfree hhead]
      · simp

theorem running_selectHead (numberText : ℚ → JsString) (h : Running db₀ db i row payload .selectHead) :
    ∃ prevHash db', db.step numberText (.statement i) = some db' ∧
      Running db₀ db' i row payload (.insertEvent prevHash) := by
  obtain ⟨head, hi, hfree⟩ := h.txn
  obtain ⟨db₁, y, hl, hrows, hyrow, hypay, hyfree⟩ :=
    lockHead_free (i := i) (x := { row, payload, phase := .selectHead, head })
      fun hnone => hfree (.inr hnone)
  simp only [Db.step, hi, Option.bind_some, Db.statement, Db.selectHead, hl, Option.bind_eq_bind]
  refine ⟨(y.head.map (·.prevHash)).getD (genesisHash y.tenantId), _, rfl, hrows.trans h.rows,
    y.head, ?_, ?_⟩
  · simp only [Db.setTxn, Function.update_self, hyrow, hypay]
  · intro hnone
    exact hyfree (hnone.resolve_left (by simp))

theorem running_insertEvent (h : Running db₀ db i row payload (.insertEvent prevHash))
    (hrow : canonicalRow numberText row = .ok text)
    (hcolumns : ∀ prevHash rowHash seq, (insertedEvent row prevHash rowHash seq).isSome)
    (hfresh : ∀ f ∈ db₀.rows, f.id ≠ row.id) :
    ∃ e db', e.id = row.id ∧ db.step numberText (.statement i) = some db' ∧
      Running db₀ db' i row payload (.updateHead e) := by
  obtain ⟨head, hi, hfree⟩ := h.txn
  have hhash : computeRowHash numberText prevHash row = .ok (sha256Hex (prevHash ++ text)) := by
    rw [computeRowHash, hrow]
    rfl
  obtain ⟨e, he⟩ := Option.isSome_iff_exists.mp
    (hcolumns prevHash (sha256Hex (prevHash ++ text)) db.nextSeq)
  obtain ⟨t, latencyMs, -, -, hshape⟩ := insertedEvent_inv he
  have hid : e.id = row.id := by rw [hshape]
  have hall : db.rows.all (·.id != e.id) = true := by
    simp only [List.all_eq_true, bne_iff_ne, h.rows, hid]
    exact hfresh
  let txn : Txn := { row, payload, phase := .updateHead e, head }
  refine ⟨e, { db with nextSeq := db.nextSeq + 1 }.setTxn i (some txn), hid, ?_, h.rows, head,
    Function.update_self .., fun hnone => ?_⟩
  · simp only [Db.step, hi, Option.bind_some, Db.statement, Db.insertEvent, hhash,
      Except.toOption, Option.bind_eq_bind, he, hall, ↓reduceIte]
    rfl
  · exact hfree (.inr (hnone.resolve_left (by simp)))

theorem running_updateHead (numberText : ℚ → JsString) (h : Running db₀ db i row payload (.updateHead e)) :
    ∃ db', db.step numberText (.statement i) = some db' ∧
      Running db₀ db' i row payload
        (if payload.isSome then .insertPayload e else .commit e) := by
  obtain ⟨head, hi, hfree⟩ := h.txn
  obtain ⟨db₁, y, hl, hrows, hyrow, hypay, hyfree⟩ :=
    lockHead_free (i := i) (x := { row, payload, phase := .updateHead e, head })
      fun hnone => hfree (.inr hnone)
  simp only [Db.step, hi, Option.bind_some, Db.statement, Db.updateHead, hl, Option.bind_eq_bind]
  refine ⟨_, rfl, hrows.trans h.rows,
    y.head.map fun h => { prevHash := e.rowHash, length := h.length + 1 }, ?_, ?_⟩
  · simp only [Db.setTxn, Function.update_self, hyrow, hypay]
  · intro hnone
    have hne : (if payload.isSome then Phase.insertPayload e else .commit e) ≠ .createHead := by
      split <;> simp
    exact hyfree (Option.map_eq_none_iff.mp (hnone.resolve_left hne))

theorem step_insertPayload (numberText : ℚ → JsString) (h : Running db₀ db i row payload (.insertPayload e)) :
    if payload.all jsonbAccepts then
      ∃ db', db.step numberText (.statement i) = some db' ∧
        Running db₀ db' i row payload (.commit e)
    else db.step numberText (.statement i) = none := by
  obtain ⟨head, hi, hfree⟩ := h.txn
  simp only [Db.step, hi, Option.bind_some, Db.statement, Db.insertPayload]
  split
  · refine ⟨_, rfl, h.rows, head, Function.update_self .., fun hnone => ?_⟩
    exact hfree (.inr (hnone.resolve_left (by simp)))
  · rfl

theorem running_commit (numberText : ℚ → JsString) (h : Running db₀ db i row payload (.commit e))
    (hfresh : ∀ f ∈ db₀.rows, f.id ≠ e.id) :
    ∃ db', db.step numberText (.statement i) = some db' ∧ db'.rows = db₀.rows ++ [e] := by
  obtain ⟨head, hi, -⟩ := h.txn
  have hall : db.rows.all (·.id != e.id) = true := by
    simp only [List.all_eq_true, bne_iff_ne, h.rows]
    exact hfresh
  simp only [Db.step, hi, Option.bind_some, Db.statement, Db.commit, hall, ↓reduceIte]
  refine ⟨_, rfl, ?_⟩
  unfold Db.finish
  dsimp only
  split <;> exact congrArg (· ++ [e]) h.rows

theorem running_updated (hav : Available db i call) (hrow : call.row numberText = .ok row)
    (htext : canonicalRow numberText row = .ok text) :
    ∃ e db', e.id = call.newId ∧
      run (Db.step numberText) db (.start i call :: List.replicate 4 (.statement i)) = some db' ∧
      Running db db' i row (call.payload numberText)
        (if (call.payload numberText).isSome then .insertPayload e else .commit e) := by
  obtain ⟨hash, -, hpure⟩ := bind_eq_ok.mp hrow
  have hrowOf : call.rowOf hash = row := pure_eq_ok.mp hpure
  have hid : row.id = call.newId := hrowOf ▸ rfl
  obtain ⟨db₁, hs₁, h₁⟩ := running_start hav hrow
  obtain ⟨db₂, hs₂, h₂⟩ := running_createHead numberText h₁
  obtain ⟨prevHash, db₃, hs₃, h₃⟩ := running_selectHead numberText h₂
  obtain ⟨e, db₄, he, hs₄, h₄⟩ := running_insertEvent h₃ htext
    (hrowOf ▸ hav.columns hash) (hid ▸ hav.fresh)
  obtain ⟨db₅, hs₅, h₅⟩ := running_updateHead numberText h₄
  refine ⟨e, db₅, he.trans hid, ?_, h₅⟩
  simp only [List.replicate, run_cons, hs₁, hs₂, hs₃, hs₄, hs₅, Option.bind_some, run_nil]

end

section
variable {numberText : ℚ → JsString} (hnum : NumberText numberText) {db : Db} {i : TxnId}
  {call : AppendCall}
include hnum

theorem canonicalRow_of_columns (h : (insertedEvent row prevHash rowHash seq).isSome) :
    ∃ text, canonicalRow numberText row = .ok text := by
  obtain ⟨e, he⟩ := Option.isSome_iff_exists.mp h
  obtain ⟨t, latencyMs, hts, hlatency, -⟩ := insertedEvent_inv he
  refine ⟨_, (canonicalRow_ok_iff hnum).mpr ⟨t, hts, ?_, rfl⟩⟩
  unfold int4? at hlatency
  split at hlatency
  · next h =>
    simp only [Bool.and_eq_true] at h
    exact h.1.1.1
  · cases hlatency

/-- On an available database the arguments decide whether the call leaves a row. -/
theorem leavesRow_iff (hav : Available db i call) :
    LeavesRow numberText db i call ↔
      allFinite call.input.arguments = true ∧
        (call.captures = true → call.input.arguments.isStorable = true) := by
  cases hrow : call.row numberText with
  | error e =>
    have hfinite : ¬ allFinite call.input.arguments = true := by
      rw [← returns_sha256Canonical hnum]
      rintro ⟨hash, hhash⟩
      simp [AppendCall.row, hhash] at hrow
    refine iff_of_false ?_ fun h => hfinite h.1
    rintro ⟨db', e', hrun, -⟩
    obtain ⟨m, hm, -⟩ := run_cons_some.mp hrun
    simp [Db.step, hrow, Except.toOption] at hm
  | ok row =>
    obtain ⟨hash, hhash, hpure⟩ := bind_eq_ok.mp hrow
    have hrowOf : call.rowOf hash = row := pure_eq_ok.mp hpure
    have hfinite : allFinite call.input.arguments = true :=
      (returns_sha256Canonical hnum _).mp ⟨hash, hhash⟩
    obtain ⟨text, htext⟩ := canonicalRow_of_columns hnum (hrowOf ▸ hav.columns hash [] [] 0)
    obtain ⟨e, db₅, he, hrun₅, h₅⟩ := running_updated hav hrow htext
    have hsplit : appendActions i call = (.start i call :: List.replicate 4 (.statement i)) ++
        List.replicate (if call.captures then 2 else 1) (.statement i) := by
      unfold appendActions
      cases call.captures <;> rfl
    have hfresh : ∀ f ∈ db.rows, f.id ≠ e.id := he ▸ hav.fresh
    rw [LeavesRow, hsplit, run_append, hrun₅, Option.bind_some]
    cases hcap : call.captures with
    | false =>
      have hpay : call.payload numberText = none := by simp [AppendCall.payload, hcap]
      rw [hpay] at h₅
      obtain ⟨db₆, hs₆, hrows⟩ := running_commit numberText h₅ hfresh
      refine iff_of_true ⟨db₆, e, ?_, hrows, he⟩ ⟨hfinite, by simp⟩
      simp [run_cons, hs₆]
    | true =>
      have hpay : call.payload numberText =
          some (Json.stringify numberText call.input.arguments) := by
        simp [AppendCall.payload, hcap]
      rw [hpay] at h₅
      have haccepts : (some (Json.stringify numberText call.input.arguments)).all jsonbAccepts =
          call.input.arguments.isStorable := by
        have := jsonbAccepts_stringify hnum call.input.arguments []
        simpa [jsonbAccepts] using this
      have hs₆ := step_insertPayload numberText h₅
      rw [haccepts] at hs₆
      cases hstorable : call.input.arguments.isStorable with
      | true =>
        rw [if_pos hstorable] at hs₆
        obtain ⟨db₆, hs₆, h₆⟩ := hs₆
        obtain ⟨db₇, hs₇, hrows⟩ := running_commit numberText h₆ hfresh
        refine iff_of_true ⟨db₇, e, ?_, hrows, he⟩ ⟨hfinite, by simp⟩
        simp [run_cons, List.replicate, hs₆, hs₇]
      | false =>
        rw [if_neg (by simp [hstorable])] at hs₆
        refine iff_of_false ?_ (by simp)
        rintro ⟨db', e', hrun, -⟩
        simp [run_cons, List.replicate, hs₆] at hrun

end

/-- An accepted request body leaves its row exactly when no number in its
arguments is infinite and, if the payload is captured, every string and key of
them can be stored. -/
theorem arguments_leave_row_iff (numberText : ℚ → JsString) (hnum : NumberText numberText)
    (text : JsString) (db : Db) (i : TxnId) (call : AppendCall)
    (hbody : acceptedArguments text = some call.input.arguments) (hav : Available db i call) :
    LeavesRow numberText db i call ↔
      ∃ args, acceptedArguments text = some args ∧ allFinite args = true ∧
        (call.captures = true → args.isStorable = true) := by
  rw [leavesRow_iff hnum hav]
  constructor
  · exact fun h => ⟨_, hbody, h⟩
  · rintro ⟨args, hargs, h⟩
    cases hbody.symm.trans hargs
    exact h

theorem available_sampleCall : Available Db.empty 0 (sampleCall arguments newId) where
  idle := rfl
  unlocked := rfl
  fresh f hf := by cases hf
  columns argumentsHash prevHash rowHash seq := by
    have hlatency : int4? (atLeastZero (mathRound (.finite 3))) = some 3 := by decide +kernel
    simp only [insertedEvent, AppendCall.rowOf, sampleCall, Option.getD_none, hlatency]
    rfl

theorem arguments_leave_row_plain :
    ∃ args, acceptedArguments (js "\x7b\"arguments\":\x7b\"limit\":10\x7d\x7d") = some args ∧
      LeavesRow fractionText Db.empty 0 (sampleCall args (js "a")) := by
  have hfinite : (acceptedArguments
      (js "\x7b\"arguments\":\x7b\"limit\":10\x7d\x7d")).map allFinite = some true := by
    decide +kernel
  obtain ⟨args, hargs, hfinite⟩ := Option.map_eq_some_iff.mp hfinite
  exact ⟨args, hargs, (arguments_leave_row_iff fractionText numberText_fractionText _ Db.empty 0
    (sampleCall args (js "a")) hargs available_sampleCall).mpr
      ⟨args, hargs, hfinite, by simp [AppendCall.captures, sampleCall]⟩⟩

/-- The literal `1e999` is read as an infinity, which has no canonical text. -/
theorem arguments_lose_row :
    ∃ args, acceptedArguments (js "\x7b\"arguments\":\x7b\"x\":1e999\x7d\x7d") = some args ∧
      Available Db.empty 0 (sampleCall args (js "a")) ∧
      ¬ LeavesRow fractionText Db.empty 0 (sampleCall args (js "a")) := by
  have hinfinite : (acceptedArguments
      (js "\x7b\"arguments\":\x7b\"x\":1e999\x7d\x7d")).map allFinite = some false := by
    decide +kernel
  obtain ⟨args, hargs, hinfinite⟩ := Option.map_eq_some_iff.mp hinfinite
  refine ⟨args, hargs, available_sampleCall, fun h => ?_⟩
  have hfinite := ((leavesRow_iff numberText_fractionText available_sampleCall).mp h).1
  exact absurd (hinfinite.symm.trans hfinite) (by decide)

end McpGateway.Audit
