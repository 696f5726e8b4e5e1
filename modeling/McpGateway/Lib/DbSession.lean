import Mathlib.Logic.Function.Basic

/-!
# Settings of a database session

A setting is changed for the session, or for the transaction at hand alone. The
end of a transaction drops what was changed for it alone, and a rollback drops
everything that was changed in it. A transaction in which a statement has failed
takes no further statement.
-/

namespace DbSession

variable {κ ν : Type}

inductive Status
  | idle
  | inTransaction
  | failed
  deriving DecidableEq, Repr

structure Session (κ ν : Type) where
  status : Status
  /-- What a setting is now. -/
  current : κ → ν
  /-- What it will be once the transaction is committed. -/
  kept : κ → ν
  /-- What it was when the transaction was begun. -/
  saved : κ → ν

inductive Change (κ ν : Type)
  | inTransaction (key : κ) (value : ν)
  | inSession (key : κ) (value : ν)
  deriving DecidableEq, Repr

def Change.key : Change κ ν → κ
  | .inTransaction key _ | .inSession key _ => key

def Change.value : Change κ ν → ν
  | .inTransaction _ value | .inSession _ value => value

namespace Session

def opened (settings : κ → ν) : Session κ ν := ⟨.idle, settings, settings, settings⟩

/-- `BEGIN`; inside a transaction it does nothing. -/
def begin (s : Session κ ν) : Session κ ν :=
  match s.status with
  | .idle => { s with status := .inTransaction, kept := s.current, saved := s.current }
  | _ => s

def fail (s : Session κ ν) : Session κ ν :=
  match s.status with
  | .idle => s
  | _ => { s with status := .failed }

def rollback (s : Session κ ν) : Session κ ν :=
  match s.status with
  | .idle => s
  | _ => opened s.saved

/-- `COMMIT`, which rolls a failed transaction back. -/
def commit (s : Session κ ν) : Session κ ν :=
  match s.status with
  | .idle => s
  | .inTransaction => opened s.kept
  | .failed => opened s.saved

/-- No transaction is open, and no setting has a value for one alone. -/
def Settled (s : Session κ ν) : Prop := s = opened s.current

theorem settled_opened (settings : κ → ν) : (opened settings).Settled := rfl

section
variable {s : Session κ ν}

theorem begin_status (h : s.status ≠ .failed) : s.begin.status = .inTransaction := by
  unfold begin
  cases hstatus : s.status with
  | idle => rfl
  | inTransaction => exact hstatus
  | failed => exact absurd hstatus h

theorem Settled.status (h : s.Settled) : s.status = .idle := by
  rw [h]
  rfl

theorem settled_rollback (h : s.status = .idle → s.Settled) : s.rollback.Settled := by
  unfold Session.rollback
  split
  · exact h ‹_›
  · exact settled_opened _

theorem settled_commit (h : s.status = .idle → s.Settled) : s.commit.Settled := by
  unfold Session.commit
  split
  · exact h ‹_›
  · exact settled_opened _
  · exact settled_opened _

theorem fail_idle (h : s.status = .idle → s.Settled) (hfail : s.fail.status = .idle) :
    s.fail.Settled := by
  unfold fail at hfail ⊢
  split at hfail
  · exact h ‹_›
  · cases hfail

end

end Session

-- ---------------------------------------------------------------------------
-- Changes
-- ---------------------------------------------------------------------------

variable [DecidableEq κ]

def changed (settings : κ → ν) (changes : List (Change κ ν)) : κ → ν :=
  changes.foldl (fun f c => Function.update f c.key c.value) settings

namespace Session

/-- One change. Outside a transaction a change for the transaction alone is gone with the
statement that made it. -/
def change (s : Session κ ν) (c : Change κ ν) : Session κ ν :=
  match s.status, c with
  | .inTransaction, .inTransaction key value =>
    { s with current := Function.update s.current key value }
  | .inTransaction, .inSession key value =>
    { s with
      current := Function.update s.current key value
      kept := Function.update s.kept key value }
  | .idle, .inSession key value => opened (Function.update s.current key value)
  | _, _ => s

def changes (s : Session κ ν) (cs : List (Change κ ν)) : Session κ ν := cs.foldl change s

section
variable {s : Session κ ν}

theorem change_status (h : s.status = .inTransaction) (c : Change κ ν) :
    (s.change c).status = .inTransaction := by
  unfold change
  rw [h]
  cases c <;> rfl

theorem change_current (h : s.status = .inTransaction) (c : Change κ ν) :
    (s.change c).current = Function.update s.current c.key c.value := by
  unfold change
  rw [h]
  cases c <;> rfl

theorem changes_status (h : s.status = .inTransaction) (cs : List (Change κ ν)) :
    (s.changes cs).status = .inTransaction := by
  induction cs generalizing s with
  | nil => exact h
  | cons c cs ih => exact ih (change_status h c)

theorem changes_current (h : s.status = .inTransaction) (cs : List (Change κ ν)) :
    (s.changes cs).current = changed s.current cs := by
  induction cs generalizing s with
  | nil => rfl
  | cons c cs ih =>
    have hnext := ih (change_status h c)
    rw [change_current h] at hnext
    exact hnext

end

end Session

theorem changed_append (settings : κ → ν) (cs cs' : List (Change κ ν)) :
    changed settings (cs ++ cs') = changed (changed settings cs) cs' :=
  List.foldl_append ..

theorem changed_other {settings : κ → ν} {key : κ} {cs : List (Change κ ν)}
    (h : key ∉ cs.map Change.key) : changed settings cs key = settings key := by
  induction cs generalizing settings with
  | nil => rfl
  | cons c cs ih =>
    rw [List.map_cons, List.mem_cons, not_or] at h
    calc changed settings (c :: cs) key
        = Function.update settings c.key c.value key := ih h.2
      _ = settings key := Function.update_of_ne h.1 ..

/-- A setting that is changed once is what that change made it, over any settings. -/
theorem changed_value {settings : κ → ν} {c : Change κ ν} {cs : List (Change κ ν)}
    (hmem : c ∈ cs) (honce : (cs.map Change.key).Nodup) :
    changed settings cs c.key = c.value := by
  induction cs generalizing settings with
  | nil => cases hmem
  | cons c' cs ih =>
    obtain ⟨hfresh, hrest⟩ := List.nodup_cons.mp honce
    rcases List.mem_cons.mp hmem with rfl | hmem
    · calc changed settings (c :: cs) c.key
          = Function.update settings c.key c.value c.key := changed_other hfresh
        _ = c.value := Function.update_self ..
    · exact ih hmem hrest

end DbSession
