import McpGateway.RateLimit.ConfigStore
import Mathlib.Data.Fintype.Basic

/-!
# Replicas and the latest limits

A store that reloads out of order, or that a change is published past while it
has read its first rows but does not listen yet, keeps old rows for good. In
every run without these two, a store that has started resolves limits from the
rows committed last as soon as nothing is on its way.
-/

namespace McpGateway.RateLimit

open Js Transition

variable {ι : Type} [DecidableEq ι]

/-- The rows of that version, or of a later one, are installed, or will be read by
a loader, or have been read by one. -/
def Store.Covers (s : Store) (v : Nat) : Prop :=
  (∃ r ∈ s.reloads, ∀ rows ∈ r.rows, v ≤ rows.version) ∨ ∃ rows ∈ s.installed, v ≤ rows.version

/-- A `publishReload` called on the first store makes the second one reload. -/
def Replicas.Reaches (options : ι → Options) (s : Replicas ι) (i j : ι) : Prop :=
  if (options i).publisher then (s.stores j).listening = true else i = j

/-- The two things a step must not do: publish a change past a store that has read
rows before it and is not reached, and install rows older than those installed. -/
def Replicas.Orderly (options : ι → Options) (s : Replicas ι) : Step ι → Prop
  | .publish k => ∀ change ∈ s.unpublished[k]?, ∀ j, (s.stores j).phase = .created ∨
      s.Reaches options change.1 j ∨ (s.stores j).Covers change.2
  | .install i k => ∀ r ∈ (s.stores i).reloads[k]?, ∀ rows ∈ r.rows,
      ∀ old ∈ (s.stores i).installed, old.version ≤ rows.version
  | _ => True

instance (s : Store) (v : Nat) : Decidable (s.Covers v) := by
  unfold Store.Covers
  infer_instance

instance (options : ι → Options) (s : Replicas ι) (i j : ι) : Decidable (s.Reaches options i j) := by
  unfold Replicas.Reaches
  infer_instance

instance [Fintype ι] (options : ι → Options) (s : Replicas ι) (a : Step ι) :
    Decidable (s.Orderly options a) := by
  cases a <;> unfold Replicas.Orderly <;> infer_instance

instance [Fintype ι] (s : Replicas ι) : Decidable s.Settled := by
  unfold Replicas.Settled
  infer_instance

section
variable {options : ι → Options} {s s' : Replicas ι} {i j : ι}

@[simp] theorem set_self (s : Replicas ι) (i : ι) (store : Store) :
    (s.set i store).stores i = store := Function.update_self ..

theorem set_of_ne (h : j ≠ i) (s : Replicas ι) (store : Store) :
    (s.set i store).stores j = s.stores j := Function.update_of_ne h ..

-- ---------------------------------------------------------------------------
-- What a store knows
-- ---------------------------------------------------------------------------

/-- Rows somebody has read: committed at some time, and the latest ones if none
were committed since. -/
def Snapshot.ReadFrom (rows latest : Snapshot) : Prop :=
  rows.version ≤ latest.version ∧ (rows.version = latest.version → rows = latest)

/-- The index is that of the installed rows, all rows were read from the table, and
only `start` reloads for `start`. -/
structure Store.Ok (s : Store) (latest : Snapshot) : Prop where
  starting : ∀ r ∈ s.reloads, r.starting = true → s.phase ≠ .created
  index : ∀ rows ∈ s.installed, s.index = indexOf rows.rows
  installed : ∀ rows ∈ s.installed, rows.ReadFrom latest
  read : ∀ r ∈ s.reloads, ∀ rows ∈ r.rows, rows.ReadFrom latest

/-- Nothing that was published has been missed. -/
def Store.Hears (s : Store) (v : Nat) : Prop := s.phase = .created ∨ 0 < s.inbox ∨ s.Covers v

structure Replicas.Tracked (s : Replicas ι) : Prop where
  ok : ∀ j, (s.stores j).Ok s.latest
  hears : ∀ v ≤ s.latest.version, (∀ i, (i, v) ∉ s.unpublished) → ∀ j, (s.stores j).Hears v

omit [DecidableEq ι] in
theorem tracked_created (rows : List RateLimitConfigRecord) :
    (Replicas.created rows : Replicas ι).Tracked where
  ok := fun _ => ⟨fun _ h => (nomatch h), fun _ h => (nomatch h), fun _ h => (nomatch h),
    fun _ h => (nomatch h)⟩
  hears := fun _ _ _ _ => .inl rfl

theorem readFrom_latest (rows : Snapshot) : rows.ReadFrom rows := ⟨le_refl _, fun _ => rfl⟩

theorem tracked_set (hs : s.Tracked) {store : Store} (hok : store.Ok s.latest)
    (hhears : ∀ v, v ≤ s.latest.version → (s.stores i).Hears v → store.Hears v) :
    (s.set i store).Tracked := by
  constructor
  · intro j
    by_cases hj : j = i
    · subst hj
      rw [set_self]
      exact hok
    · rw [set_of_ne hj]
      exact hs.ok j
  · intro v hv hpublished j
    have hold := hs.hears v hv hpublished j
    by_cases hj : j = i
    · subst hj
      rw [set_self]
      exact hhears v hv hold
    · rw [set_of_ne hj]
      exact hold

-- ---------------------------------------------------------------------------
-- The steps
-- ---------------------------------------------------------------------------

theorem reload_covers (s : Store) (starting : Bool) (v : Nat) : (s.reload starting).Covers v :=
  .inl ⟨⟨starting, none⟩, List.mem_append_right _ List.mem_cons_self, fun _ h => nomatch h⟩

theorem mem_reload {s : Store} {starting : Bool} {r : Reload}
    (h : r ∈ (s.reload starting).reloads) : r ∈ s.reloads ∨ r = ⟨starting, none⟩ :=
  (List.mem_append.mp h).imp_right List.mem_singleton.mp

theorem reload_ok {s : Store} {latest : Snapshot} (hs : s.Ok latest) {starting : Bool}
    (hphase : starting = true → s.phase ≠ .created) : (s.reload starting).Ok latest where
  starting := fun r hr hstarting => by
    obtain hold | rfl := mem_reload hr
    · exact hs.starting r hold hstarting
    · exact hphase hstarting
  index := hs.index
  installed := hs.installed
  read := fun r hr => by
    obtain hold | rfl := mem_reload hr
    · exact hs.read r hold
    · exact fun _ h => nomatch h

theorem tracked_reload (hs : s.Tracked) {store : Store} (hok : store.Ok s.latest)
    {starting : Bool} (hphase : starting = true → store.phase ≠ .created) :
    (s.set i (store.reload starting)).Tracked :=
  tracked_set hs (reload_ok hok hphase) fun v _ _ => .inr (.inr (reload_covers store starting v))

theorem tracked_read (hs : s.Tracked) {starting : Bool}
    (hk : (s.stores i).reloads[k]? = some ⟨starting, none⟩) :
    (s.set i { s.stores i with
      reloads := (s.stores i).reloads.set k ⟨starting, some s.latest⟩ }).Tracked := by
  have hlt : k < (s.stores i).reloads.length := (List.getElem?_eq_some_iff.mp hk).1
  have hmem : ⟨starting, some s.latest⟩ ∈ (s.stores i).reloads.set k ⟨starting, some s.latest⟩ :=
    List.mem_of_getElem? (List.getElem?_set_self hlt)
  refine tracked_set hs ⟨?_, (hs.ok i).index, (hs.ok i).installed, ?_⟩ ?_
  · intro r hr hstarting
    rcases List.mem_or_eq_of_mem_set hr with hold | rfl
    · exact (hs.ok i).starting r hold hstarting
    · exact (hs.ok i).starting _ (List.mem_of_getElem? hk) hstarting
  · intro r hr rows hrows
    rcases List.mem_or_eq_of_mem_set hr with hold | rfl
    · exact (hs.ok i).read r hold rows hrows
    · cases hrows
      exact readFrom_latest s.latest
  · rintro v hv (hcreated | hinbox | ⟨r, hr, hrows⟩ | hinstalled)
    · exact .inl hcreated
    · exact .inr (.inl hinbox)
    · -- this loader reads the latest rows; any other is still there
      refine .inr (.inr (.inl ⟨⟨starting, some s.latest⟩, hmem, ?_⟩))
      intro rows hread
      cases hread
      exact hv
    · exact .inr (.inr (.inr hinstalled))

theorem tracked_install (hs : s.Tracked) {starting : Bool} {rows : Snapshot}
    (hk : (s.stores i).reloads[k]? = some ⟨starting, some rows⟩)
    (horder : ∀ old ∈ (s.stores i).installed, old.version ≤ rows.version) :
    (s.set i ((s.stores i).install (options i) k starting rows)).Tracked := by
  have hmem := List.mem_of_getElem? hk
  have hphase : ((s.stores i).install (options i) k starting rows).phase = .created →
      starting = false ∧ (s.stores i).phase = .created := by
    intro h
    unfold Store.install at h
    cases starting with
    | false => exact ⟨rfl, h⟩
    | true => cases hsub : (options i).subscriber <;> simp [hsub] at h
  refine tracked_set hs ⟨?_, ?_, ?_, ?_⟩ ?_
  · intro r hr hstarting hcreated
    exact (hs.ok i).starting r (List.mem_of_mem_eraseIdx hr) hstarting (hphase hcreated).2
  · intro rows' h
    cases h
    rfl
  · intro rows' h
    cases h
    exact (hs.ok i).read _ hmem rows rfl
  · exact fun r hr => (hs.ok i).read r (List.mem_of_mem_eraseIdx hr)
  · rintro v hv (hcreated | hinbox | ⟨r, hr, hrows⟩ | ⟨old, hold, hversion⟩)
    · cases starting with
      | false => exact .inl hcreated
      | true => exact absurd hcreated ((hs.ok i).starting _ hmem rfl)
    · exact .inr (.inl hinbox)
    · obtain ⟨n, hn⟩ := List.getElem?_of_mem hr
      by_cases hnk : n = k
      · subst hnk
        obtain rfl := Option.some.inj (hk.symm.trans hn)
        exact .inr (.inr (.inr ⟨rows, rfl, hrows rows rfl⟩))
      · exact .inr (.inr (.inl ⟨r, List.mem_eraseIdx_iff_getElem?.mpr ⟨n, hnk, hn⟩, hrows⟩))
    · exact .inr (.inr (.inr ⟨rows, rfl, hversion.trans (horder old hold)⟩))

theorem tracked_phase (hs : s.Tracked) {phase : Phase} {listening : Bool}
    (hphase : (s.stores i).phase ≠ .created) (hnext : phase ≠ .created) :
    (s.set i { s.stores i with phase := phase, listening := listening }).Tracked := by
  refine tracked_set hs ⟨?_, (hs.ok i).index, (hs.ok i).installed, (hs.ok i).read⟩ ?_
  · exact fun _ _ _ => hnext
  · rintro v hv (hcreated | hheard)
    · exact absurd hcreated hphase
    · exact .inr hheard

theorem readFrom_commit {rows latest : Snapshot} (h : rows.ReadFrom latest)
    (records : List RateLimitConfigRecord) : rows.ReadFrom ⟨latest.version + 1, records⟩ := by
  refine ⟨h.1.trans (Nat.le_succ _), fun heq => ?_⟩
  exact absurd heq (Nat.ne_of_lt (Nat.lt_succ_of_le h.1))

omit [DecidableEq ι] in
theorem tracked_commit (hs : s.Tracked) (i : ι) (records : List RateLimitConfigRecord) :
    Replicas.Tracked { s with
      latest := ⟨s.latest.version + 1, records⟩
      unpublished := s.unpublished ++ [(i, s.latest.version + 1)] } := by
  constructor
  · intro j
    have hok := hs.ok j
    exact ⟨hok.starting, hok.index, fun rows h => readFrom_commit (hok.installed rows h) records,
      fun r hr rows h => readFrom_commit (hok.read r hr rows h) records⟩
  · intro v hv hpublished j
    have hold : v ≤ s.latest.version := by
      -- the new change is not published yet
      refine Nat.le_of_lt_succ (lt_of_le_of_ne hv ?_)
      rintro rfl
      exact hpublished i (List.mem_append_right _ List.mem_cons_self)
    exact hs.hears v hold (fun i' h => hpublished i' (List.mem_append_left _ h)) j

theorem publishReload_latest (options : ι → Options) (s : Replicas ι) (i : ι) :
    (s.publishReload options i).latest = s.latest := by
  unfold Replicas.publishReload
  split <;> rfl

theorem publishReload_hears {v : Nat} (hs : (s.stores j).Hears v) :
    ((s.publishReload options i).stores j).Hears v := by
  unfold Replicas.publishReload
  split
  · dsimp only
    split
    · exact .inr (.inl (Nat.succ_pos _))
    · exact hs
  · by_cases hj : j = i
    · subst hj
      rw [set_self]
      exact .inr (.inr (reload_covers _ _ v))
    · rw [set_of_ne hj]
      exact hs

theorem publishReload_reaches {v : Nat} (hreach : s.Reaches options i j) :
    ((s.publishReload options i).stores j).Hears v := by
  unfold Replicas.Reaches at hreach
  unfold Replicas.publishReload
  split at hreach
  · next hpublisher =>
    rw [if_pos hpublisher]
    dsimp only
    rw [if_pos hreach]
    exact .inr (.inl (Nat.succ_pos _))
  · next hpublisher =>
    subst hreach
    rw [if_neg hpublisher, set_self]
    exact .inr (.inr (reload_covers _ _ v))

theorem publishReload_ok (hs : s.Tracked) :
    ((s.publishReload options i).stores j).Ok s.latest := by
  unfold Replicas.publishReload
  split
  · dsimp only
    split
    · exact ⟨(hs.ok j).starting, (hs.ok j).index, (hs.ok j).installed, (hs.ok j).read⟩
    · exact hs.ok j
  · have hreload : (s.set i ((s.stores i).reload false)).Tracked :=
      tracked_reload hs (hs.ok i) nofun
    exact hreload.ok j

theorem tracked_publish (hs : s.Tracked) {change : ι × Nat} (hk : s.unpublished[k]? = some change)
    (hreach : ∀ j, (s.stores j).phase = .created ∨ s.Reaches options change.1 j ∨
      (s.stores j).Covers change.2) :
    Replicas.Tracked { s.publishReload options change.1 with
      unpublished := s.unpublished.eraseIdx k } := by
  constructor
  · intro j
    rw [publishReload_latest]
    exact publishReload_ok hs
  · intro v hv hpublished j
    rw [publishReload_latest] at hv
    by_cases hchange : v = change.2
    · subst hchange
      obtain hcreated | hreached | hcovers := hreach j
      · exact publishReload_hears (.inl hcreated)
      · exact publishReload_reaches hreached
      · exact publishReload_hears (.inr (.inr hcovers))
    · refine publishReload_hears (hs.hears v hv (fun i' hmem => ?_) j)
      obtain ⟨n, hn⟩ := List.getElem?_of_mem hmem
      refine hpublished i' (List.mem_eraseIdx_iff_getElem?.mpr ⟨n, ?_, hn⟩)
      rintro rfl
      obtain rfl := Option.some.inj (hk.symm.trans hn)
      exact hchange rfl

theorem tracked_step (hs : s.Tracked) {a : Step ι} (horderly : s.Orderly options a)
    (h : s.step options a = some s') : s'.Tracked := by
  cases a with
  | start i =>
    dsimp only [Replicas.step] at h
    split at h
    · cases h
      have hloading : Store.Ok { s.stores i with phase := .loading } s.latest :=
        ⟨fun _ _ _ => nofun, (hs.ok i).index, (hs.ok i).installed, (hs.ok i).read⟩
      exact tracked_reload hs hloading fun _ => nofun
    · cases h
  | read i k =>
    dsimp only [Replicas.step] at h
    split at h
    · next hk =>
      cases h
      exact tracked_read hs hk
    · cases h
  | install i k =>
    dsimp only [Replicas.step] at h
    split at h
    · next hk =>
      cases h
      exact tracked_install hs hk (horderly _ hk _ rfl)
    · cases h
  | subscribe i =>
    dsimp only [Replicas.step] at h
    split at h
    · next hphase =>
      cases h
      refine tracked_phase hs ?_ nofun
      rw [hphase]
      nofun
    · cases h
  | acknowledge i =>
    dsimp only [Replicas.step] at h
    split at h
    · next hphase =>
      cases h
      refine tracked_phase hs ?_ nofun
      rw [hphase]
      nofun
    · cases h
  | commit i rows =>
    cases h
    exact tracked_commit hs i rows
  | publish k =>
    obtain ⟨change, hk, rfl⟩ := Option.map_eq_some_iff.mp h
    exact tracked_publish hs hk (horderly change hk)
  | deliver i =>
    dsimp only [Replicas.step] at h
    split at h
    · next n hinbox =>
      cases h
      refine tracked_reload hs ?_ nofun
      exact ⟨(hs.ok i).starting, (hs.ok i).index, (hs.ok i).installed, (hs.ok i).read⟩
    · cases h

omit [DecidableEq ι] in
/-- With nothing on its way, a store that hears everything has the latest rows. -/
theorem settled_index (hs : s.Tracked) (hsettled : s.Settled)
    (hphase : (s.stores j).phase ≠ .created) : (s.stores j).index = indexOf s.latest.rows := by
  obtain ⟨hpublished, hidle⟩ := hsettled
  obtain ⟨hreloads, hinbox⟩ := hidle j
  have hnone : ∀ i, (i, s.latest.version) ∉ s.unpublished := by
    intro i hi
    rw [hpublished] at hi
    cases hi
  obtain hcreated | hwaiting | ⟨r, hr, -⟩ | ⟨rows, hrows, hversion⟩ :=
    hs.hears s.latest.version (le_refl _) hnone j
  · exact absurd hcreated hphase
  · rw [hinbox] at hwaiting
    exact absurd hwaiting (lt_irrefl 0)
  · rw [hreloads] at hr
    cases hr
  · have hread := (hs.ok j).installed rows hrows
    rw [(hs.ok j).index rows hrows, hread.2 (le_antisymm hread.1 hversion)]

end

/-- In every orderly run, once nothing is on its way, a store that has started
resolves every limit from the rows committed last. -/
theorem replicas_converge (options : ι → Options) (rows : List RateLimitConfigRecord)
    (steps : List (Step ι)) (s : Replicas ι)
    (hrun : run (Replicas.step options) (.created rows) steps = some s)
    (horderly : Along (Replicas.step options) (Replicas.Orderly options) (.created rows) steps)
    (hsettled : s.Settled) (j : ι) (hstarted : (s.stores j).phase = .started)
    (tenantId toolName tier : JsString) :
    resolve (s.stores j).index (options j).fallback tenantId toolName tier =
      resolve (indexOf s.latest.rows) (options j).fallback tenantId toolName tier := by
  have htracked := run_invariant_along Replicas.Tracked (Replicas.Orderly options)
    (fun _ _ _ hs ho h => tracked_step hs ho h) (tracked_created rows) horderly hrun
  have hphase : (s.stores j).phase ≠ .created := by
    rw [hstarted]
    nofun
  rw [settled_index htracked hsettled hphase]

-- ---------------------------------------------------------------------------
-- Two runs
-- ---------------------------------------------------------------------------

def replicaOptions (_ : ι) : Options where
  subscriber := true
  publisher := true

def limitedTo (capacity : Nat) : List RateLimitConfigRecord :=
  [⟨js "acme-corp", .userTool, js "*", js "default", capacity, 60, 60000⟩]

def changeHeard : List (Step (Fin 2)) :=
  [.start 0, .read 0 0, .install 0 0, .subscribe 0, .acknowledge 0,
    .start 1, .read 1 0, .install 1 0, .subscribe 1, .acknowledge 1,
    .commit 0 (limitedTo 5), .publish 0, .deliver 0, .deliver 1,
    .read 1 0, .read 0 0, .install 0 0, .install 1 0]

theorem replicas_converge_heard :
    ∃ s, run (Replicas.step replicaOptions) (.created (limitedTo 60)) changeHeard = some s ∧
      s.latest.rows = limitedTo 5 ∧
      resolve (s.stores 1).index defaultFallback (js "acme-corp") (js "sf.query") (js "default") =
        resolve (indexOf s.latest.rows) defaultFallback (js "acme-corp") (js "sf.query")
          (js "default") := by
  have hend : (run (Replicas.step replicaOptions) (.created (limitedTo 60)) changeHeard).any
      (fun s => decide (s.latest.rows = limitedTo 5 ∧ s.Settled ∧ (s.stores 1).phase = .started)) =
        true := by
    decide +kernel
  have horderly : Along (Replicas.step replicaOptions) (Replicas.Orderly replicaOptions)
      (.created (limitedTo 60)) changeHeard := by
    decide +kernel
  obtain ⟨s, hrun, hs⟩ := (Option.any_eq_true _ _).mp hend
  obtain ⟨hrows, hsettled, hstarted⟩ := of_decide_eq_true hs
  exact ⟨s, hrun, hrows, replicas_converge replicaOptions (limitedTo 60) changeHeard s hrun horderly
    hsettled 1 hstarted (js "acme-corp") (js "sf.query") (js "default")⟩

/-- The store reads its first rows, a change is committed and published, and only
then does the store subscribe. -/
def changeMissed : List (Step (Fin 1)) :=
  [.start 0, .read 0 0, .install 0 0, .commit 0 (limitedTo 5), .publish 0, .subscribe 0,
    .acknowledge 0]

def changeOverwritten : List (Step (Fin 1)) :=
  [.start 0, .read 0 0, .install 0 0, .subscribe 0, .acknowledge 0,
    .commit 0 (limitedTo 30), .publish 0, .deliver 0, .read 0 0,
    .commit 0 (limitedTo 5), .publish 0, .deliver 0, .read 0 1,
    .install 0 1, .install 0 0]

/-- The run ends settled, with the store started and a limit that is not the latest. -/
def endsStale (steps : List (Step (Fin 1))) : Bool :=
  (run (Replicas.step replicaOptions) (.created (limitedTo 60)) steps).any fun s =>
    decide (s.Settled ∧ (s.stores 0).phase = .started ∧
      resolve (s.stores 0).index defaultFallback (js "acme-corp") (js "sf.query") (js "default") ≠
        resolve (indexOf s.latest.rows) defaultFallback (js "acme-corp") (js "sf.query")
          (js "default"))

/-- Neither run leaves the store with the latest limits. -/
theorem replicas_diverge :
    (¬ ∀ (steps : List (Step (Fin 1))) (s : Replicas (Fin 1)),
      run (Replicas.step replicaOptions) (.created (limitedTo 60)) steps = some s → s.Settled →
      (s.stores 0).phase = .started → ∀ tenantId toolName tier : JsString,
      resolve (s.stores 0).index defaultFallback tenantId toolName tier =
        resolve (indexOf s.latest.rows) defaultFallback tenantId toolName tier) ∧
      endsStale changeMissed = true ∧ endsStale changeOverwritten = true := by
  have hmissed : endsStale changeMissed = true := by decide +kernel
  refine ⟨fun hclaim => ?_, hmissed, by decide +kernel⟩
  obtain ⟨s, hrun, hs⟩ := (Option.any_eq_true _ _).mp hmissed
  obtain ⟨hsettled, hstarted, hstale⟩ := of_decide_eq_true hs
  exact hstale (hclaim changeMissed s hrun hsettled hstarted _ _ _)

end McpGateway.RateLimit
