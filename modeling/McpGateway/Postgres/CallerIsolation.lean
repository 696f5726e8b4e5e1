import McpGateway.Postgres.Warehouse

/-!
# Callers share the pool and nothing else

While an operation's own statements run, the connection it has been lent is in a
transaction that sees the caller's role, tenant and territory and what those
statements have changed, and nothing an earlier operation left behind. What
`list_tables` reports are the rows the caller may read.
-/

namespace McpGateway.Postgres

open Js Shared DbSession Transition
open Idp (Role)

/-- The connection on which the statements of `fn`, or the commit, are in flight. -/
def CallPhase.serving? : CallPhase → Option Nat
  | .counting k _ _ | .selecting k _ | .committing k _ => some k
  | _ => none

def Serves (options : WarehouseOptions) (call : WarehouseCall)
    (session : Session Setting (Option JsString)) : Prop :=
  session.status = .inTransaction ∧
    ∃ base, session.current = changed base (callerSettings options call.caller ++ call.own)

def PhaseOk (options : WarehouseOptions) (lost : Prop)
    (session : Session Setting (Option JsString)) (call : WarehouseCall) : Prop :=
  match call.phase with
  | .connecting | .settled _ => True
  | .beginning _ => session.Settled ∧ call.own = []
  | .configuring _ todo => session.status = .inTransaction ∧ call.own = [] ∧ ∃ base made,
      made ++ todo = callerSettings options call.caller ∧ session.current = changed base made
  | .counting _ _ _ | .selecting _ _ => Serves options call session ∧ call.own = []
  | .committing _ _ => Serves options call session
  | .rollingBack _ _ => session.status = .idle → session.Settled
  | .releasing _ _ => lost ∨ session.Settled

structure Warehouse.Ok (options : WarehouseOptions) (s : Warehouse) : Prop where
  alone : ∀ c c' call call' k, s.calls c = some call → s.calls c' = some call' →
    call.phase.client? = some k → call'.phase.client? = some k → c = c'
  idleFree : ∀ c call k, s.calls c = some call → call.phase.client? = some k → k ∉ s.idle
  idleOnce : s.idle.Nodup
  idleOpened : ∀ k ∈ s.idle, k < s.opened
  heldOpened : ∀ c call k, s.calls c = some call → call.phase.client? = some k → k < s.opened
  clean : ∀ k ∈ s.idle, (s.session k).Settled
  waiting : ∀ c call, s.calls c = some call → call.phase = .connecting → call.own = []
  phase : ∀ c call k, s.calls c = some call → call.phase.client? = some k →
    PhaseOk options (k ∈ s.lost) (s.session k) call

section
variable {options : WarehouseOptions} {s s' : Warehouse} {c c' k k' : Nat}
  {call call' : WarehouseCall} {lost lost' : Prop} {outcome : Except Thrown Answer}
  {session : Session Setting (Option JsString)}

theorem ok_created (tables : Tables) : (Warehouse.created tables).Ok options where
  alone := by rintro _ _ _ _ _ ⟨⟩
  idleFree := by rintro _ _ _ ⟨⟩
  idleOnce := List.nodup_nil
  idleOpened := by rintro _ ⟨⟩
  heldOpened := by rintro _ _ _ ⟨⟩
  clean := by rintro _ ⟨⟩
  waiting := by rintro _ _ ⟨⟩
  phase := by rintro _ _ _ ⟨⟩

theorem calls_setCall (s : Warehouse) (c : Nat) (call : WarehouseCall) (c' : Nat) :
    (s.setCall c call).calls c' = if c' = c then some call else s.calls c' :=
  Function.update_apply ..

theorem session_setSession (s : Warehouse) (k k' : Nat)
    (session : Session Setting (Option JsString)) :
    (s.setSession k session).session k' = if k' = k then session else s.session k' :=
  Function.update_apply ..

theorem PhaseOk.mono (h : PhaseOk options lost session call) (hlost : lost → lost') :
    PhaseOk options lost' session call := by
  unfold PhaseOk at h ⊢
  cases hcall : call.phase with
  | releasing k outcome =>
    rw [hcall] at h
    exact h.imp_left hlost
  | _ =>
    rw [hcall] at h
    exact h

theorem PhaseOk.idle (h : PhaseOk options lost session call) (hk : call.phase.client? = some k)
    (hphase : ∀ outcome, call.phase ≠ .releasing k outcome) (hidle : session.status = .idle) :
    session.Settled := by
  unfold PhaseOk at h
  cases hcall : call.phase with
  | connecting | settled outcome =>
    rw [hcall] at hk
    cases hk
  | beginning k' =>
    rw [hcall] at h
    exact h.1
  | configuring k' todo =>
    rw [hcall] at h
    rw [h.1] at hidle
    cases hidle
  | counting k' todo counted | selecting k' guarded =>
    rw [hcall] at h
    rw [h.1.1] at hidle
    cases hidle
  | committing k' answer =>
    rw [hcall] at h
    rw [h.1] at hidle
    cases hidle
  | rollingBack k' error =>
    rw [hcall] at h
    exact h hidle
  | releasing k' outcome =>
    rw [hcall] at hk
    cases hk
    exact absurd hcall (hphase outcome)

-- ---------------------------------------------------------------------------
-- One change at a time
-- ---------------------------------------------------------------------------

/-- An operation goes on with the connection it has, which only it can change. -/
theorem Warehouse.Ok.advance (hs : s.Ok options) (hc : s.calls c = some call)
    (hk : call.phase.client? = some k) (hk' : call'.phase.client? = some k)
    (hphase : PhaseOk options (k ∈ s.lost) session call') :
    ((s.setSession k session).setCall c call').Ok options where
  alone := by
    intro c₁ c₂ call₁ call₂ j h₁ h₂ hj₁ hj₂
    rw [calls_setCall] at h₁ h₂
    split at h₁
    · cases h₁
      cases hk'.symm.trans hj₁
      split at h₂
      · next heq₁ heq₂ => exact heq₁.trans heq₂.symm
      · next heq₁ _ => exact heq₁.trans (hs.alone _ _ _ _ _ hc h₂ hk hj₂)
    · split at h₂
      · next heq₂ =>
        cases h₂
        cases hk'.symm.trans hj₂
        exact (hs.alone _ _ _ _ _ h₁ hc hj₁ hk).trans heq₂.symm
      · exact hs.alone _ _ _ _ _ h₁ h₂ hj₁ hj₂
  idleFree := by
    intro c₁ call₁ j h₁ hj
    rw [calls_setCall] at h₁
    split at h₁
    · cases h₁
      cases hk'.symm.trans hj
      exact hs.idleFree _ _ _ hc hk
    · exact hs.idleFree _ _ _ h₁ hj
  idleOnce := hs.idleOnce
  idleOpened := hs.idleOpened
  heldOpened := by
    intro c₁ call₁ j h₁ hj
    rw [calls_setCall] at h₁
    split at h₁
    · cases h₁
      cases hk'.symm.trans hj
      exact hs.heldOpened _ _ _ hc hk
    · exact hs.heldOpened _ _ _ h₁ hj
  clean := by
    intro j hj
    have hne : j ≠ k := by
      rintro rfl
      exact hs.idleFree _ _ _ hc hk hj
    have hsame : ((s.setSession k session).setCall c call').session j = s.session j :=
      Function.update_of_ne hne ..
    rw [hsame]
    exact hs.clean j hj
  waiting := by
    intro c₁ call₁ h₁ hwait
    rw [calls_setCall] at h₁
    split at h₁
    · cases h₁
      rw [hwait] at hk'
      cases hk'
    · exact hs.waiting _ _ h₁ hwait
  phase := by
    intro c₁ call₁ j h₁ hj
    have hsession : ((s.setSession k session).setCall c call').session j =
        if j = k then session else s.session j := session_setSession ..
    rw [hsession]
    rw [calls_setCall] at h₁
    split at h₁
    · cases h₁
      cases hk'.symm.trans hj
      rwa [if_pos rfl]
    · next hne =>
      have hjk : j ≠ k := by
        rintro rfl
        exact hne (hs.alone _ _ _ _ _ h₁ hc hj hk)
      rw [if_neg hjk]
      exact hs.phase _ _ _ h₁ hj

theorem setSession_self (s : Warehouse) (k : Nat) : s.setSession k (s.session k) = s := by
  unfold Warehouse.setSession
  rw [Function.update_eq_self]

theorem Warehouse.Ok.stay (hs : s.Ok options) (hc : s.calls c = some call)
    (hk : call.phase.client? = some k) (hk' : call'.phase.client? = some k)
    (hphase : PhaseOk options (k ∈ s.lost) (s.session k) call') : (s.setCall c call').Ok options := by
  have h := hs.advance hc hk hk' hphase
  rwa [setSession_self] at h

theorem Warehouse.Ok.lose (hs : s.Ok options) (k : Nat) :
    ({ s with lost := k :: s.lost } : Warehouse).Ok options where
  alone := hs.alone
  idleFree := hs.idleFree
  idleOnce := hs.idleOnce
  idleOpened := hs.idleOpened
  heldOpened := hs.heldOpened
  clean := hs.clean
  waiting := hs.waiting
  phase := fun _ _ _ h hj => (hs.phase _ _ _ h hj).mono (List.mem_cons_of_mem _)

theorem Warehouse.Ok.without (hs : s.Ok options) (hk : call.phase.client? = none)
    (hwait : call.phase = .connecting → call.own = []) : (s.setCall c call).Ok options where
  alone := by
    intro c₁ c₂ call₁ call₂ j h₁ h₂ hj₁ hj₂
    rw [calls_setCall] at h₁ h₂
    split at h₁
    · cases h₁
      cases hk.symm.trans hj₁
    · split at h₂
      · cases h₂
        cases hk.symm.trans hj₂
      · exact hs.alone _ _ _ _ _ h₁ h₂ hj₁ hj₂
  idleFree := by
    intro c₁ call₁ j h₁ hj
    rw [calls_setCall] at h₁
    split at h₁
    · cases h₁
      cases hk.symm.trans hj
    · exact hs.idleFree _ _ _ h₁ hj
  idleOnce := hs.idleOnce
  idleOpened := hs.idleOpened
  heldOpened := by
    intro c₁ call₁ j h₁ hj
    rw [calls_setCall] at h₁
    split at h₁
    · cases h₁
      cases hk.symm.trans hj
    · exact hs.heldOpened _ _ _ h₁ hj
  clean := hs.clean
  waiting := by
    intro c₁ call₁ h₁ hphase
    rw [calls_setCall] at h₁
    split at h₁
    · cases h₁
      exact hwait hphase
    · exact hs.waiting _ _ h₁ hphase
  phase := by
    intro c₁ call₁ j h₁ hj
    rw [calls_setCall] at h₁
    split at h₁
    · cases h₁
      cases hk.symm.trans hj
    · exact hs.phase _ _ _ h₁ hj

-- ---------------------------------------------------------------------------
-- Steps
-- ---------------------------------------------------------------------------

theorem PhaseOk.at {phase : CallPhase} (h : PhaseOk options lost session call)
    (hphase : call.phase = phase) : PhaseOk options lost session { call with phase } := by
  cases hphase
  exact h

theorem Warehouse.Ok.succeed (hs : s.Ok options) (hc : s.calls c = some call)
    (h : s.succeed options c call = some s') : s'.Ok options := by
  unfold Warehouse.succeed at h
  split at h
  · next k hphase =>
    have hk : call.phase.client? = some k := by rw [hphase]; rfl
    have hp := (hs.phase _ _ _ hc hk).at hphase
    split at h
    · cases h
    · cases h
      refine hs.advance hc hk rfl ⟨?_, hp.2, (s.session k).begin.current, [], rfl, rfl⟩
      refine Session.begin_status ?_
      rw [hp.1.status]
      decide
  · next k change todo hphase =>
    have hk : call.phase.client? = some k := by rw [hphase]; rfl
    obtain ⟨hstatus, hown, base, made, hmade, hcurrent⟩ := (hs.phase _ _ _ hc hk).at hphase
    have hstatus' := Session.change_status hstatus change
    have hcurrent' : ((s.session k).change change).current = changed base (made ++ [change]) := by
      rw [Session.change_current hstatus, hcurrent, changed_append]
      rfl
    split at h
    · cases h
    · cases h
      cases todo with
      | nil =>
        have hserves : Serves options call ((s.session k).change change) := by
          refine ⟨hstatus', base, ?_⟩
          rw [hcurrent', hmade, hown, List.append_nil]
        cases hwork : call.work with
        | listTables => exact hs.advance hc hk rfl ⟨hserves, hown⟩
        | query guarded => exact hs.advance hc hk rfl ⟨hserves, hown⟩
      | cons next rest =>
        refine hs.advance hc hk rfl ⟨hstatus', hown, base, made ++ [change], ?_, hcurrent'⟩
        rw [List.append_assoc]
        exact hmade
  · next k table todo counted hphase =>
    have hk : call.phase.client? = some k := by rw [hphase]; rfl
    have hp := (hs.phase _ _ _ hc hk).at hphase
    split at h
    · cases h
    · obtain ⟨role, -, rfl⟩ := Option.map_eq_some_iff.mp h
      cases todo with
      | nil => exact hs.stay hc hk rfl hp.1
      | cons next rest => exact hs.stay hc hk rfl hp
  · next k answer hphase =>
    have hk : call.phase.client? = some k := by rw [hphase]; rfl
    have hp := (hs.phase _ _ _ hc hk).at hphase
    split at h
    · cases h
    · cases h
      refine hs.advance hc hk rfl (.inr (Session.settled_commit ?_))
      intro hidle
      rw [hp.1] at hidle
      cases hidle
  · cases h

theorem Warehouse.Ok.failOn (hs : s.Ok options) (hc : s.calls c = some call)
    (hk : call.phase.client? = some k) (hphase : ∀ outcome, call.phase ≠ .releasing k outcome)
    (alive : Bool) (error : Thrown) :
    ((s.failOn k alive).setCall c { call with phase := .rollingBack k error }).Ok options := by
  have hp := hs.phase _ _ _ hc hk
  cases alive with
  | true => exact hs.advance hc hk rfl (Session.fail_idle (hp.idle hk hphase))
  | false => exact (hs.lose k).stay hc hk rfl (hp.idle hk hphase)

theorem Warehouse.Ok.failing (hs : s.Ok options) (hc : s.calls c = some call)
    (h : s.failing options c call message alive = some s') : s'.Ok options := by
  unfold Warehouse.failing at h
  split at h
  · next k hphase =>
    cases h
    exact hs.failOn hc (by rw [hphase]; rfl) (by simp [hphase]) alive _
  · next k todo hphase =>
    cases h
    exact hs.failOn hc (by rw [hphase]; rfl) (by simp [hphase]) alive _
  · next k todo counted hphase =>
    cases h
    exact hs.failOn hc (by rw [hphase]; rfl) (by simp [hphase]) alive _
  · next k guarded hphase =>
    cases h
    exact hs.failOn hc (by rw [hphase]; rfl) (by simp [hphase]) alive _
  · next k answer hphase =>
    have hk : call.phase.client? = some k := by rw [hphase]; rfl
    have hp := hs.phase _ _ _ hc hk
    cases h
    cases alive with
    | true =>
      refine hs.advance hc hk rfl fun _ => Session.settled_rollback ?_
      exact hp.idle hk (by simp [hphase])
    | false => exact hs.failOn hc hk (by simp [hphase]) false _
  · cases h

/-- An operation that waits takes a settled connection that nobody has, which the pool has
no more. -/
theorem Warehouse.Ok.lend (hs : s.Ok options) (hc : s.calls c = some call)
    (hphase : call.phase = .connecting)
    (hfree : ∀ c' call', s.calls c' = some call' → call'.phase.client? ≠ some k)
    (hclean : (s.session k).Settled) (hopened : k < s.opened) :
    ({ s with idle := s.idle.erase k }.setCall c { call with phase := .beginning k }).Ok options where
  alone := by
    intro c₁ c₂ call₁ call₂ j h₁ h₂ hj₁ hj₂
    rw [calls_setCall] at h₁ h₂
    split at h₁
    · next heq₁ =>
      cases h₁
      cases hj₁
      split at h₂
      · next heq₂ => exact heq₁.trans heq₂.symm
      · exact absurd hj₂ (hfree _ _ h₂)
    · split at h₂
      · cases h₂
        cases hj₂
        exact absurd hj₁ (hfree _ _ h₁)
      · exact hs.alone _ _ _ _ _ h₁ h₂ hj₁ hj₂
  idleFree := by
    intro c₁ call₁ j h₁ hj hidle
    rw [calls_setCall] at h₁
    split at h₁
    · cases h₁
      cases hj
      exact (List.Nodup.mem_erase_iff hs.idleOnce).mp hidle |>.1 rfl
    · exact hs.idleFree _ _ _ h₁ hj (List.mem_of_mem_erase hidle)
  idleOnce := hs.idleOnce.erase k
  idleOpened := fun j hj => hs.idleOpened j (List.mem_of_mem_erase hj)
  heldOpened := by
    intro c₁ call₁ j h₁ hj
    rw [calls_setCall] at h₁
    split at h₁
    · cases h₁
      cases hj
      exact hopened
    · exact hs.heldOpened _ _ _ h₁ hj
  clean := fun j hj => hs.clean j (List.mem_of_mem_erase hj)
  waiting := by
    intro c₁ call₁ h₁ hwait
    rw [calls_setCall] at h₁
    split at h₁
    · cases h₁
      cases hwait
    · exact hs.waiting _ _ h₁ hwait
  phase := by
    intro c₁ call₁ j h₁ hj
    rw [calls_setCall] at h₁
    split at h₁
    · cases h₁
      cases hj
      have hown : call.own = [] := hs.waiting _ _ hc hphase
      exact ⟨hclean, hown⟩
    · exact hs.phase _ _ _ h₁ hj

theorem Warehouse.Ok.open (hs : s.Ok options) (settings : Settings) :
    ({ s with opened := s.opened + 1 }.setSession s.opened (.opened settings)).Ok options where
  alone := hs.alone
  idleFree := hs.idleFree
  idleOnce := hs.idleOnce
  idleOpened := fun j hj => Nat.lt_succ_of_lt (hs.idleOpened j hj)
  heldOpened := fun _ _ _ h hj => Nat.lt_succ_of_lt (hs.heldOpened _ _ _ h hj)
  clean := by
    intro j hj
    rw [session_setSession, if_neg (Nat.ne_of_lt (hs.idleOpened j hj))]
    exact hs.clean j hj
  waiting := hs.waiting
  phase := by
    intro c₁ call₁ j h₁ hj
    rw [session_setSession, if_neg (Nat.ne_of_lt (hs.heldOpened _ _ _ h₁ hj))]
    exact hs.phase _ _ _ h₁ hj

/-- The pool gets back a connection that is settled, and that nobody has any more. -/
theorem Warehouse.Ok.giveBack (hs : s.Ok options)
    (hfree : ∀ c' call', s.calls c' = some call' → call'.phase.client? ≠ some k)
    (hidle : k ∉ s.idle) (hclean : (s.session k).Settled) (hopened : k < s.opened) :
    ({ s with idle := k :: s.idle } : Warehouse).Ok options where
  alone := hs.alone
  idleFree := by
    intro c₁ call₁ j h₁ hj hmem
    rcases List.mem_cons.mp hmem with rfl | hmem
    · exact hfree _ _ h₁ hj
    · exact hs.idleFree _ _ _ h₁ hj hmem
  idleOnce := List.nodup_cons.mpr ⟨hidle, hs.idleOnce⟩
  idleOpened := List.forall_mem_cons.mpr ⟨hopened, hs.idleOpened⟩
  heldOpened := hs.heldOpened
  clean := List.forall_mem_cons.mpr ⟨hclean, hs.clean⟩
  waiting := hs.waiting
  phase := hs.phase

theorem Warehouse.Ok.release (hs : s.Ok options) (hc : s.calls c = some call)
    (hphase : call.phase = .releasing k outcome) :
    ((if k ∈ s.lost then s else { s with idle := k :: s.idle }).setCall c
      { call with phase := .settled outcome }).Ok options := by
  have hk : call.phase.client? = some k := by rw [hphase]; rfl
  have hrest : (s.setCall c { call with phase := .settled outcome }).Ok options :=
    hs.without rfl (by rintro ⟨⟩)
  split
  · exact hrest
  · next hlost =>
    have hclean := ((hs.phase _ _ _ hc hk).at hphase).resolve_left hlost
    refine hrest.giveBack ?_ (hs.idleFree _ _ _ hc hk) hclean (hs.heldOpened _ _ _ hc hk)
    intro c' call' h' hk'
    rw [calls_setCall] at h'
    split at h'
    · cases h'
      cases hk'
    · next hne => exact hne (hs.alone _ _ _ _ _ h' hc hk' hk)

theorem Warehouse.Ok.step (hs : s.Ok options) {e : WarehouseEvent}
    (h : s.step options e = some s') : s'.Ok options := by
  cases e with
  | call c caller operation =>
    simp only [Warehouse.step] at h
    split at h
    · cases h
    · split at h
      · cases h
        exact hs.without rfl fun _ => rfl
      · cases h
        exact hs
  | lent c k =>
    obtain ⟨call, hc, h⟩ := Option.bind_eq_some_iff.mp h
    split at h
    · next hphase =>
      split at h
      · next hmem =>
        cases h
        refine hs.lend hc hphase ?_ (hs.clean k hmem) (hs.idleOpened k hmem)
        exact fun c' call' h' hk => hs.idleFree _ _ _ h' hk hmem
      · cases h
    · cases h
  | connected c settings =>
    obtain ⟨call, hc, h⟩ := Option.bind_eq_some_iff.mp h
    split at h
    · next hphase =>
      cases h
      have hfree : ∀ c' call', s.calls c' = some call' → call'.phase.client? ≠ some s.opened :=
        fun c' call' h' hk => Nat.lt_irrefl _ (hs.heldOpened _ _ _ h' hk)
      have hsame : s.idle.erase s.opened = s.idle :=
        List.erase_of_not_mem fun hmem => Nat.lt_irrefl _ (hs.idleOpened _ hmem)
      have hlent := (hs.open settings).lend hc hphase hfree ?_ (Nat.lt_succ_self _)
      · simp only [Warehouse.setSession, hsame] at hlent
        exact hlent
      · rw [session_setSession, if_pos rfl]
        exact Session.settled_opened _
    · cases h
  | notConnected c message =>
    obtain ⟨call, hc, h⟩ := Option.bind_eq_some_iff.mp h
    split at h
    · cases h
      exact hs.without rfl (by rintro ⟨⟩)
    · cases h
  | done c =>
    obtain ⟨call, hc, h⟩ := Option.bind_eq_some_iff.mp h
    exact hs.succeed hc h
  | selected c changes result =>
    obtain ⟨call, hc, h⟩ := Option.bind_eq_some_iff.mp h
    split at h
    · next k guarded hphase =>
      have hk : call.phase.client? = some k := by rw [hphase]; rfl
      obtain ⟨⟨hstatus, base, hcurrent⟩, hown⟩ := (hs.phase _ _ _ hc hk).at hphase
      split at h
      · cases h
      · cases h
        refine hs.advance hc hk rfl ⟨Session.changes_status hstatus changes, base, ?_⟩
        rw [Session.changes_current hstatus, hcurrent, hown, List.append_nil, ← changed_append]
    · cases h
  | failed c message alive =>
    obtain ⟨call, hc, h⟩ := Option.bind_eq_some_iff.mp h
    exact hs.failing hc h
  | rolledBack c alive =>
    obtain ⟨call, hc, h⟩ := Option.bind_eq_some_iff.mp h
    split at h
    · next k error hphase =>
      have hk : call.phase.client? = some k := by rw [hphase]; rfl
      have hp := (hs.phase _ _ _ hc hk).at hphase
      cases h
      split
      · exact hs.advance hc hk rfl (.inr (Session.settled_rollback hp))
      · exact (hs.lose k).stay hc hk rfl (.inl List.mem_cons_self)
    · cases h
  | released c =>
    obtain ⟨call, hc, h⟩ := Option.bind_eq_some_iff.mp h
    split at h
    · next k outcome hphase =>
      cases h
      exact hs.release hc hphase
    · cases h
  | expired k =>
    cases h
    exact {
      alone := hs.alone
      idleFree := fun _ _ _ h hk hmem => hs.idleFree _ _ _ h hk (List.mem_of_mem_erase hmem)
      idleOnce := hs.idleOnce.erase k
      idleOpened := fun j hj => hs.idleOpened j (List.mem_of_mem_erase hj)
      heldOpened := hs.heldOpened
      clean := fun j hj => hs.clean j (List.mem_of_mem_erase hj)
      waiting := hs.waiting
      phase := hs.phase }
  | written tables =>
    cases h
    exact {
      alone := hs.alone
      idleFree := hs.idleFree
      idleOnce := hs.idleOnce
      idleOpened := hs.idleOpened
      heldOpened := hs.heldOpened
      clean := hs.clean
      waiting := hs.waiting
      phase := hs.phase }

theorem ok_run {tables : Tables} {events : List WarehouseEvent}
    (h : run (Warehouse.step options) (.created tables) events = some s) : s.Ok options :=
  run_invariant (Warehouse.Ok options) (fun _ _ _ hs hstep => hs.step hstep) (ok_created tables) h

theorem PhaseOk.serves (h : PhaseOk options lost session call) (hk : call.phase.serving? = some k) :
    Serves options call session ∧ (call.own ≠ [] → ∃ answer, call.phase = .committing k answer) := by
  unfold PhaseOk at h
  cases hcall : call.phase with
  | counting k' todo counted | selecting k' guarded =>
    rw [hcall] at h
    exact ⟨h.1, fun hown => absurd h.2 hown⟩
  | committing k' answer =>
    rw [hcall] at h hk
    cases hk
    exact ⟨h, fun _ => ⟨answer, rfl⟩⟩
  | _ =>
    rw [hcall] at hk
    cases hk

theorem callerSettings_once (options : WarehouseOptions) (caller : WarehouseCaller) :
    ((callerSettings options caller).map Change.key).Nodup := by
  have hkeys : (callerSettings options caller).map Change.key =
      [.statementTimeout, .tenantId, .territory, .role] := rfl
  rw [hkeys]
  decide

theorem Serves.setting (h : Serves options call session)
    {change : Change Setting (Option JsString)}
    (hmem : change ∈ callerSettings options call.caller)
    (hown : change.key ∉ call.own.map Change.key) : session.current change.key = change.value := by
  obtain ⟨-, base, hcurrent⟩ := h
  rw [hcurrent, changed_append, changed_other hown]
  exact changed_value hmem (callerSettings_once options call.caller)

end

theorem serving_client {phase : CallPhase} {k : Nat} (h : phase.serving? = some k) :
    phase.client? = some k := by
  cases phase <;> first | exact h | cases h

section
-- Somebody of one tenant changes settings for the session, and somebody of another tenant
-- is lent the same connection.
private def reusedConnection : List WarehouseEvent :=
  [.call 0 ⟨js "acme", .admin, none⟩ (.query (js "SELECT a FROM b") none),
    .connected 0 fun _ => none,
    .done 0, .done 0, .done 0, .done 0, .done 0,
    .selected 0 [.inSession .tenantId (some (js "acme")), .inSession .role none] ⟨[], [], none⟩,
    .done 0, .released 0,
    .call 1 ⟨js "globex", .analyst, some (js "emea")⟩ .listTables,
    .lent 1 0, .done 1, .done 1, .done 1, .done 1, .done 1]

private def noTables : Tables := ⟨[], [], [], []⟩

end

-- ---------------------------------------------------------------------------
-- What `list_tables` reports
-- ---------------------------------------------------------------------------

/-- The rows a caller may read: those of the tenant, and of them an analyst or a viewer
those of the own territory. -/
def WarehouseCaller.MayRead (caller : WarehouseCaller) (tenantId territory : JsString) : Prop :=
  tenantId = caller.tenantId ∧
    (caller.role = .admin ∨ caller.role = .manager ∨ territory = caller.territory.getD [])

instance (caller : WarehouseCaller) (tenantId territory : JsString) :
    Decidable (caller.MayRead tenantId territory) :=
  inferInstanceAs (Decidable (_ ∧ _))

def Tables.own (tables : Tables) (caller : WarehouseCaller) : Tables where
  customers := tables.customers.filter fun row => caller.MayRead row.tenantId row.territory
  products := tables.products.filter fun row => row.tenantId = caller.tenantId
  orders := tables.orders.filter fun row => caller.MayRead row.tenantId row.territory
  orderItems := tables.orderItems.filter fun item =>
    ∃ row ∈ tables.orders, caller.MayRead row.tenantId row.territory ∧ row.id = item.orderId

def tableHistory (tables : Tables) (events : List WarehouseEvent) : List Tables :=
  tables :: events.filterMap fun
    | .written tables => some tables
    | _ => none

def Reports (history : List Tables) (caller : WarehouseCaller) (table : ExposedTable)
    (entry : TableEntry) : Prop :=
  ∃ tables ∈ history, entry = tableEntry table ((tables.own caller).count table)

def ListingAnswer (history : List Tables) (caller : WarehouseCaller) (answer : Answer) : Prop :=
  ∃ entries, answer = .tables entries (roleToDbRole caller.role) listTablesCountCap ∧
    List.Forall₂ (Reports history caller) exposedTables entries

def ListingOk (history : List Tables) (call : WarehouseCall) : Prop :=
  match call.phase with
  | .counting _ todo counted => todo ≠ [] ∧ ∃ listed, listed ++ todo = exposedTables ∧
      List.Forall₂ (Reports history call.caller) listed counted
  | .selecting _ _ => False
  | .committing _ answer => ListingAnswer history call.caller answer
  | .releasing _ outcome | .settled outcome =>
    ∀ answer, outcome = .ok answer → ListingAnswer history call.caller answer
  | _ => True

theorem appRole_roleToDbRole (role : Role) : appRole (some (roleToDbRole role)) = some role := by
  cases role <;> decide

theorem tenantWide_iff (role : Role) : tenantWide role = true ↔ role = .admin ∨ role = .manager := by
  cases role <;> decide

section
variable {options : WarehouseOptions} {s s' : Warehouse} {c k : Nat} {call : WarehouseCall}
  {tables : Tables} {history history' : List Tables} {settings : Settings}

theorem readable_own {caller : WarehouseCaller} (htenant : settings .tenantId = some caller.tenantId)
    (hterritory : settings .territory = some (caller.territory.getD [])) :
    tables.readable caller.role settings = tables.own caller := by
  have hin : ∀ tenantId, inTenant settings tenantId = decide (tenantId = caller.tenantId) := by
    intro tenantId
    unfold inTenant
    rw [htenant, Bool.eq_iff_iff, beq_iff_eq, decide_eq_true_iff, Option.some.injEq]
    exact eq_comm
  have hreach : ∀ tenantId territory, inReach caller.role settings tenantId territory =
      decide (caller.MayRead tenantId territory) := by
    intro tenantId territory
    unfold inReach
    rw [hin, hterritory, Bool.eq_iff_iff, Bool.and_eq_true, Bool.or_eq_true, tenantWide_iff,
      decide_eq_true_iff, beq_iff_eq, Option.some.injEq, decide_eq_true_iff, or_assoc,
      eq_comm (b := territory)]
    rfl
  unfold Tables.readable Tables.own
  simp only [hin, hreach]
  congr 1
  refine List.filter_congr fun item _ => ?_
  rw [Bool.eq_iff_iff]
  simp

theorem Reports.mono {caller : WarehouseCaller} {table : ExposedTable} {entry : TableEntry}
    (hsub : history ⊆ history') (h : Reports history caller table entry) :
    Reports history' caller table entry := by
  obtain ⟨tables, hmem, hentry⟩ := h
  exact ⟨tables, hsub hmem, hentry⟩

theorem ListingAnswer.mono {caller : WarehouseCaller} {answer : Answer} (hsub : history ⊆ history')
    (h : ListingAnswer history caller answer) : ListingAnswer history' caller answer := by
  obtain ⟨entries, hanswer, hall⟩ := h
  exact ⟨entries, hanswer, hall.imp fun _ _ hreports => hreports.mono hsub⟩

theorem ListingOk.mono (hsub : history ⊆ history') (h : ListingOk history call) :
    ListingOk history' call := by
  unfold ListingOk at h ⊢
  cases hcall : call.phase with
  | counting k todo counted =>
    rw [hcall] at h
    obtain ⟨hne, listed, hlisted, hall⟩ := h
    exact ⟨hne, listed, hlisted, hall.imp fun _ _ hreports => hreports.mono hsub⟩
  | committing k answer =>
    rw [hcall] at h
    exact ListingAnswer.mono hsub h
  | releasing k outcome | settled outcome =>
    rw [hcall] at h
    exact fun answer hanswer => (h answer hanswer).mono hsub
  | _ =>
    rw [hcall] at h
    exact h

theorem ListingOk.at {phase : CallPhase} (h : ListingOk history call) (hphase : call.phase = phase) :
    ListingOk history { call with phase } := by
  cases hphase
  exact h

/-- The state of the tables is in the history, and so is what the listings have reported. -/
def Listings (history : List Tables) (s : Warehouse) : Prop :=
  s.tables ∈ history ∧
    ∀ c call, s.calls c = some call → call.work = .listTables → ListingOk history call

theorem Listings.mono (hsub : history ⊆ history') (hl : Listings history s) :
    Listings history' s :=
  ⟨hsub hl.1, fun c call hc hwork => (hl.2 c call hc hwork).mono hsub⟩

theorem Listings.setCall (hl : Listings history s)
    (hnew : call.work = .listTables → ListingOk history call) :
    Listings history (s.setCall c call) := by
  refine ⟨hl.1, fun c₁ call₁ h₁ hwork => ?_⟩
  rw [calls_setCall] at h₁
  split at h₁
  · cases h₁
    exact hnew hwork
  · exact hl.2 c₁ call₁ h₁ hwork

theorem reports_count (hserves : Serves options call (s.session k)) (hown : call.own = [])
    (hmem : s.tables ∈ history) {role : Role}
    (hrole : appRole ((s.session k).current .role) = some role) (table : ExposedTable) :
    Reports history call.caller table
      (tableEntry table ((s.tables.readable role (s.session k).current).count table)) := by
  have hsetting : ∀ change ∈ callerSettings options call.caller,
      (s.session k).current change.key = change.value := by
    intro change hchange
    refine hserves.setting hchange ?_
    rw [hown]
    exact List.not_mem_nil
  have hcaller : (s.session k).current .role = some (roleToDbRole call.caller.role) :=
    hsetting (.inTransaction .role _) (by simp [callerSettings])
  rw [hcaller, appRole_roleToDbRole] at hrole
  cases hrole
  refine ⟨s.tables, hmem, ?_⟩
  rw [readable_own]
  · exact hsetting (.inTransaction .tenantId _) (by simp [callerSettings])
  · exact hsetting (.inTransaction .territory _) (by simp [callerSettings])

theorem Listings.succeed (hs : s.Ok options) (hl : Listings history s)
    (hc : s.calls c = some call) (h : s.succeed options c call = some s') : Listings history s' := by
  unfold Warehouse.succeed at h
  split at h
  · split at h
    · cases h
    · cases h
      exact hl.setCall (s := s.setSession ..) fun _ => trivial
  · next k change todo hphase =>
    split at h
    · cases h
    · cases h
      refine hl.setCall (s := s.setSession ..) fun hwork => ?_
      have hwork : call.work = .listTables := hwork
      cases todo with
      | nil =>
        rw [hwork]
        exact ⟨by decide, [], rfl, .nil⟩
      | cons next rest => trivial
  · next k table todo counted hphase =>
    have hk : call.phase.client? = some k := by rw [hphase]; rfl
    obtain ⟨hserves, hown⟩ := (hs.phase _ _ _ hc hk).at hphase
    split at h
    · cases h
    · obtain ⟨role, hrole, rfl⟩ := Option.map_eq_some_iff.mp h
      refine hl.setCall fun hwork => ?_
      obtain ⟨-, listed, hlisted, hall⟩ := (hl.2 c call hc hwork).at hphase
      have hreports := reports_count hserves hown hl.1 hrole table
      have hall' : List.Forall₂ (Reports history call.caller) (listed ++ [table])
          (counted ++ [_]) := List.rel_append hall (.cons hreports .nil)
      cases todo with
      | nil =>
        refine ⟨_, rfl, ?_⟩
        rwa [hlisted] at hall'
      | cons next rest =>
        refine ⟨List.cons_ne_nil _ _, listed ++ [table], ?_, hall'⟩
        rw [List.append_assoc]
        exact hlisted
  · next k answer hphase =>
    split at h
    · cases h
    · cases h
      refine hl.setCall (s := s.setSession ..) fun hwork => ?_
      rintro _ ⟨⟩
      exact (hl.2 c call hc hwork).at hphase
  · cases h

theorem Listings.failOn (hl : Listings history s) (k : Nat) (alive : Bool) :
    Listings history (s.failOn k alive) := by
  cases alive <;> exact hl

theorem Listings.failing {message : Option JsString} {alive : Bool} (hl : Listings history s)
    (h : s.failing options c call message alive = some s') : Listings history s' := by
  unfold Warehouse.failing at h
  split at h
  · cases h
    exact (hl.failOn _ _).setCall fun _ => trivial
  · cases h
    exact (hl.failOn _ _).setCall fun _ => trivial
  · cases h
    exact (hl.failOn _ _).setCall fun _ => trivial
  · cases h
    exact (hl.failOn _ _).setCall fun _ => trivial
  · next k answer _ =>
    cases h
    have hended : Listings history
        (if alive then s.setSession k (s.session k).rollback else s.failOn k false) := by
      split <;> exact hl
    exact hended.setCall fun _ => trivial
  · cases h

theorem Listings.step (hs : s.Ok options) (hl : Listings history s) {e : WarehouseEvent}
    (hwritten : ∀ tables, e = .written tables → tables ∈ history)
    (h : s.step options e = some s') : Listings history s' := by
  cases e with
  | call c caller operation =>
    simp only [Warehouse.step] at h
    split at h
    · cases h
    · split at h
      · cases h
        exact hl.setCall fun _ => trivial
      · cases h
        exact hl
  | lent c k =>
    obtain ⟨call, hc, h⟩ := Option.bind_eq_some_iff.mp h
    split at h
    · split at h
      · cases h
        exact hl.setCall (s := { s with idle := _ }) fun _ => trivial
      · cases h
    · cases h
  | connected c settings =>
    obtain ⟨call, hc, h⟩ := Option.bind_eq_some_iff.mp h
    split at h
    · cases h
      refine hl.setCall (s := { s with opened := _ }.setSession ..) fun _ => ?_
      trivial
    · cases h
  | notConnected c message =>
    obtain ⟨call, hc, h⟩ := Option.bind_eq_some_iff.mp h
    split at h
    · cases h
      refine hl.setCall fun _ => ?_
      rintro _ ⟨⟩
    · cases h
  | done c =>
    obtain ⟨call, hc, h⟩ := Option.bind_eq_some_iff.mp h
    exact hl.succeed hs hc h
  | selected c changes result =>
    obtain ⟨call, hc, h⟩ := Option.bind_eq_some_iff.mp h
    split at h
    · next k guarded hphase =>
      split at h
      · cases h
      · cases h
        refine hl.setCall (s := s.setSession ..) fun hwork => ?_
        exact ((hl.2 c call hc hwork).at hphase).elim
    · cases h
  | failed c message alive =>
    obtain ⟨call, hc, h⟩ := Option.bind_eq_some_iff.mp h
    exact hl.failing h
  | rolledBack c alive =>
    obtain ⟨call, hc, h⟩ := Option.bind_eq_some_iff.mp h
    split at h
    · next k error hphase =>
      cases h
      have hended : Listings history (if alive ∧ k ∉ s.lost then
          s.setSession k (s.session k).rollback else s.failOn k false) := by
        split <;> exact hl
      refine hended.setCall fun _ => ?_
      rintro _ ⟨⟩
    · cases h
  | released c =>
    obtain ⟨call, hc, h⟩ := Option.bind_eq_some_iff.mp h
    split at h
    · next k outcome hphase =>
      cases h
      have hreturned : Listings history (if k ∈ s.lost then s else { s with idle := k :: s.idle }) := by
        split <;> exact hl
      refine hreturned.setCall fun hwork => ?_
      have hlisting := (hl.2 c call hc hwork).at hphase
      exact hlisting
    · cases h
  | expired k =>
    cases h
    exact hl
  | written tables =>
    cases h
    exact ⟨hwritten tables rfl, hl.2⟩

end

/-- Whatever other callers do at the same time, a listing that succeeds has one entry for
each exposed table, and the entry counts the caller's own rows as the table was at some
time. -/
theorem listing_own_rows {options : WarehouseOptions} {tables : Tables}
    {events : List WarehouseEvent} {s : Warehouse}
    (h : run (Warehouse.step options) (.created tables) events = some s) {c : Nat}
    {call : WarehouseCall} {answer : Answer} (hc : s.calls c = some call)
    (hwork : call.work = .listTables) (hphase : call.phase = .settled (.ok answer)) :
    ListingAnswer (tableHistory tables events) call.caller answer := by
  have hinv : (s.Ok options ∧ Listings (tableHistory tables ([] ++ events)) s) := by
    refine run_history_along
      (fun pre s => s.Ok options ∧ Listings (tableHistory tables pre) s) (fun _ _ => True)
      ?_ ⟨ok_created tables, ?_⟩ (along_of_forall fun _ _ => trivial) h
    · rintro pre s e s' ⟨hs, hl⟩ - hstep
      have hsub : tableHistory tables pre ⊆ tableHistory tables (pre ++ [e]) := by
        unfold tableHistory
        rw [List.filterMap_append]
        exact List.cons_subset_cons _ (List.subset_append_left _ _)
      refine ⟨hs.step hstep, (hl.mono hsub).step hs ?_ hstep⟩
      rintro written rfl
      simp [tableHistory]
    · refine ⟨List.mem_cons_self, ?_⟩
      rintro _ _ ⟨⟩
  exact (hinv.2.2 c call hc hwork).at hphase answer rfl

section
private def listedTables : Tables :=
  ⟨[⟨1, js "acme", js "emea"⟩, ⟨2, js "globex", js "emea"⟩, ⟨3, js "globex", js "apac"⟩], [], [], []⟩

private def oneListing : List WarehouseEvent :=
  [.call 0 ⟨js "globex", .viewer, some (js "apac")⟩ .listTables, .connected 0 fun _ => none,
    .done 0, .done 0, .done 0, .done 0, .done 0, .done 0, .done 0, .done 0, .done 0, .done 0,
    .released 0]

theorem listing_own_rows_viewer :
    ∃ s call answer, run (Warehouse.step ⟨5000, 100⟩) (.created listedTables) oneListing = some s ∧
      s.calls 0 = some call ∧ call.phase = .settled (.ok answer) ∧
        ListingAnswer [listedTables] ⟨js "globex", .viewer, some (js "apac")⟩ answer := by
  refine ⟨_, _, _, rfl, rfl, rfl, ?_⟩
  exact @listing_own_rows ⟨5000, 100⟩ listedTables oneListing _ rfl 0 _ _ rfl rfl rfl

end

end McpGateway.Postgres
