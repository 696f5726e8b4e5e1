import McpGateway.Lib.Regex

/-!
# Patterns with groups

What a pattern that captures needs on top of `Regex`: named groups, optional
parts and a repetition that takes as little as it can. The pattern is tried at
the start of the text; `ends` lists where it can stop and what its groups have
captured, in the order a backtracking matcher finds it.
-/

inductive Pattern (κ : Type) (α : Type u)
  | plain (r : Regex α)
  | seq (first second : Pattern κ α)
  | maybe (r : Pattern κ α)
  /-- `p+?`. -/
  | few (p : α → Bool)
  | group (name : κ) (r : Pattern κ α)

namespace Pattern

abbrev State (κ : Type) (α : Type u) := Regex.Spot α × List (κ × List α)

def inSequence : List (Pattern κ α) → Pattern κ α
  | [] => .plain .empty
  | [r] => r
  | r :: rs => .seq r (inSequence rs)

/-- The stops of `p+?`, nearest first. -/
def fewEnds (p : α → Bool) : List α → List α → List (Regex.Spot α)
  | _, [] => []
  | before, c :: after =>
    if p c then (c :: before, after) :: fewEnds p (c :: before) after else []

def ends (word : α → Bool) : Pattern κ α → State κ α → List (State κ α)
  | .plain r, s => (r.ends word s.1).map (·, s.2)
  | .seq r t, s => (r.ends word s).flatMap (t.ends word)
  | .maybe r, s => r.ends word s ++ [s]
  | .few p, s => (fewEnds p s.1.1 s.1.2).map (·, s.2)
  | .group name r, s =>
    (r.ends word s).map fun e => (e.1, (name, Regex.matched (s.1, e.1)) :: e.2)

def exec (word : α → Bool) (r : Pattern κ α) (text : List α) : Option (List (κ × List α)) :=
  (r.ends word (([], text), [])).head?.map Prod.snd

section
variable {κ : Type} {α : Type u} {word : α → Bool} {s : State κ α}

theorem ends_plain {r : Regex α} :
    (plain r).ends word s = (r.ends word s.1).map fun spot => (spot, s.2) := rfl

theorem ends_seq {r t : Pattern κ α} :
    (seq r t).ends word s = (r.ends word s).flatMap (t.ends word) := rfl

theorem ends_maybe {r : Pattern κ α} : (maybe r).ends word s = r.ends word s ++ [s] := rfl

theorem ends_group_few {name : κ} {p : α → Bool} :
    (group name (few p)).ends word s = (fewEnds p s.1.1 s.1.2).map fun spot =>
      (spot, (name, Regex.matched (s.1, spot)) :: s.2) :=
  List.map_map

theorem ends_group_plain {name : κ} {r : Regex α} :
    (group name (plain r)).ends word s = (r.ends word s.1).map fun spot =>
      (spot, (name, Regex.matched (s.1, spot)) :: s.2) :=
  List.map_map

end

-- ---------------------------------------------------------------------------
-- What a match covers
-- ---------------------------------------------------------------------------

section
variable {κ : Type} {α : Type u} {word : α → Bool} {r : Pattern κ α} {s e : State κ α}

theorem mem_fewEnds {p : α → Bool} {before after : List α} {spot : Regex.Spot α} :
    spot ∈ fewEnds p before after ↔
      ∃ run, run ≠ [] ∧ (∀ c ∈ run, p c = true) ∧ after = run ++ spot.2 ∧
        spot.1 = run.reverse ++ before := by
  induction after generalizing before with
  | nil =>
    unfold fewEnds
    constructor
    · rintro ⟨⟩
    · rintro ⟨run, hne, -, hnil, -⟩
      exact absurd (List.append_eq_nil_iff.mp hnil.symm).1 hne
  | cons c after ih =>
    unfold fewEnds
    by_cases hc : p c = true
    · simp only [hc, if_true, List.mem_cons, ih]
      constructor
      · rintro (rfl | ⟨run, -, hrun, rfl, hbefore⟩)
        · exact ⟨[c], List.cons_ne_nil c [], by simp [hc], rfl, rfl⟩
        · exact ⟨c :: run, List.cons_ne_nil c run, by simpa [hc] using hrun, rfl, by simp [hbefore]⟩
      · rintro ⟨run, hne, hrun, hafter, hbefore⟩
        obtain ⟨d, run, rfl⟩ := List.exists_cons_of_ne_nil hne
        obtain ⟨rfl, hrest⟩ := List.cons.inj hafter
        cases run with
        | nil => exact .inl (Prod.ext hbefore hrest.symm)
        | cons d run =>
          refine .inr ⟨d :: run, List.cons_ne_nil d run, ?_, hrest, by simpa using hbefore⟩
          intro x hx
          exact hrun x (List.mem_cons_of_mem c hx)
    · simp only [hc]
      constructor
      · rintro ⟨⟩
      · rintro ⟨run, hne, hrun, hafter, -⟩
        obtain ⟨d, run, rfl⟩ := List.exists_cons_of_ne_nil hne
        obtain ⟨rfl, -⟩ := List.cons.inj hafter
        exact absurd (hrun c List.mem_cons_self) hc

theorem ends_run (h : e ∈ r.ends word s) :
    ∃ run, s.1.2 = run ++ e.1.2 ∧ e.1.1 = run.reverse ++ s.1.1 := by
  induction r generalizing s e with
  | plain r =>
    obtain ⟨spot, hspot, rfl⟩ := List.mem_map.mp h
    exact Regex.ends_run hspot
  | seq r t ihr iht =>
    obtain ⟨m, hm, he⟩ := List.mem_flatMap.mp h
    obtain ⟨run, hrun, hbefore⟩ := ihr hm
    obtain ⟨run', hrun', hbefore'⟩ := iht he
    refine ⟨run ++ run', ?_, ?_⟩
    · rw [hrun, hrun', List.append_assoc]
    · rw [hbefore', hbefore, List.reverse_append, List.append_assoc]
  | maybe r ih =>
    rcases List.mem_append.mp h with h | h
    · exact ih h
    · obtain rfl := List.mem_singleton.mp h
      exact ⟨[], rfl, rfl⟩
  | few p =>
    obtain ⟨spot, hspot, rfl⟩ := List.mem_map.mp h
    obtain ⟨run, -, -, hafter, hbefore⟩ := mem_fewEnds.mp hspot
    exact ⟨run, hafter, hbefore⟩
  | group name r ih =>
    obtain ⟨m, hm, rfl⟩ := List.mem_map.mp h
    have hrun := ih hm
    exact hrun

def Over (P : α → Prop) : Pattern κ α → Prop
  | .plain r => r.Over P
  | .seq r t => r.Over P ∧ t.Over P
  | .maybe r => r.Over P
  | .few p => ∀ c, p c = true → P c
  | .group _ r => r.Over P

theorem ends_over {P : α → Prop} (hr : r.Over P) (h : e ∈ r.ends word s) :
    ∃ run, s.1.2 = run ++ e.1.2 ∧ ∀ c ∈ run, P c := by
  induction r generalizing s e with
  | plain r =>
    obtain ⟨spot, hspot, rfl⟩ := List.mem_map.mp h
    exact Regex.ends_over hr hspot
  | seq r t ihr iht =>
    obtain ⟨m, hm, he⟩ := List.mem_flatMap.mp h
    obtain ⟨run, hrun, hall⟩ := ihr hr.1 hm
    obtain ⟨run', hrun', hall'⟩ := iht hr.2 he
    refine ⟨run ++ run', ?_, List.forall_mem_append.mpr ⟨hall, hall'⟩⟩
    rw [hrun, hrun', List.append_assoc]
  | maybe r ih =>
    rcases List.mem_append.mp h with h | h
    · exact ih hr h
    · obtain rfl := List.mem_singleton.mp h
      exact ⟨[], rfl, List.forall_mem_nil P⟩
  | few p =>
    obtain ⟨spot, hspot, rfl⟩ := List.mem_map.mp h
    obtain ⟨run, -, hall, hafter, -⟩ := mem_fewEnds.mp hspot
    exact ⟨run, hafter, fun c hc => hr c (hall c hc)⟩
  | group name r ih =>
    obtain ⟨m, hm, rfl⟩ := List.mem_map.mp h
    have hrun := ih hr hm
    exact hrun

structure Within (text : List α) (s : State κ α) : Prop where
  spot : s.1.1.reverse ++ s.1.2 = text
  groups : ∀ g ∈ s.2, g.2 <:+: text

theorem ends_within {text : List α} (hs : Within text s) (h : e ∈ r.ends word s) :
    Within text e := by
  induction r generalizing s e with
  | plain r =>
    obtain ⟨spot, hspot, rfl⟩ := List.mem_map.mp h
    obtain ⟨run, hrun, hbefore⟩ := Regex.ends_run hspot
    exact ⟨by simp [hbefore, ← hs.spot, hrun], hs.groups⟩
  | seq r t ihr iht =>
    obtain ⟨m, hm, he⟩ := List.mem_flatMap.mp h
    exact iht (ihr hs hm) he
  | maybe r ih =>
    rcases List.mem_append.mp h with h | h
    · exact ih hs h
    · obtain rfl := List.mem_singleton.mp h
      exact hs
  | few p =>
    obtain ⟨spot, hspot, rfl⟩ := List.mem_map.mp h
    obtain ⟨run, -, -, hafter, hbefore⟩ := mem_fewEnds.mp hspot
    exact ⟨by simp [hbefore, ← hs.spot, hafter], hs.groups⟩
  | group name r ih =>
    obtain ⟨m, hm, rfl⟩ := List.mem_map.mp h
    obtain ⟨run, hrun, hbefore⟩ := ends_run hm
    obtain ⟨hspot, hgroups⟩ := ih hs hm
    refine ⟨hspot, ?_⟩
    intro g hg
    rcases List.mem_cons.mp hg with rfl | hg
    · refine ⟨s.1.1.reverse, m.1.2, ?_⟩
      rw [Regex.matched_run hbefore, ← hs.spot, hrun, List.append_assoc]
    · exact hgroups g hg

theorem exec_infix {text : List α} {groups : List (κ × List α)} (h : r.exec word text = some groups)
    {name : κ} {g : List α} (hg : (name, g) ∈ groups) : g <:+: text := by
  obtain ⟨e, he, rfl⟩ := Option.map_eq_some_iff.mp h
  have hstart : Within text ((([], text), []) : State κ α) := ⟨rfl, fun _ hg => nomatch hg⟩
  exact (ends_within hstart (List.mem_of_head? he)).groups (name, g) hg

end

-- ---------------------------------------------------------------------------
-- What a group captures
-- ---------------------------------------------------------------------------

section
variable {κ : Type} {α : Type u} {word : α → Bool} {s e : State κ α}

def Captures (word : α → Bool) (name : κ) (P : List α → Prop) : Pattern κ α → Prop
  | .plain _ | .few _ => True
  | .seq r t => r.Captures word name P ∧ t.Captures word name P
  | .maybe r => r.Captures word name P
  | .group n r => r.Captures word name P ∧
      (n = name → ∀ s e run, e ∈ r.ends word s → e.1.1 = run.reverse ++ s.1.1 →
        s.1.2 = run ++ e.1.2 → P run)

theorem ends_captures {name : κ} {P : List α → Prop} {r : Pattern κ α}
    (hr : r.Captures word name P) (hs : ∀ g, (name, g) ∈ s.2 → P g) (h : e ∈ r.ends word s) :
    ∀ g, (name, g) ∈ e.2 → P g := by
  induction r generalizing s e with
  | plain r =>
    obtain ⟨spot, -, rfl⟩ := List.mem_map.mp h
    exact hs
  | seq r t ihr iht =>
    obtain ⟨m, hm, he⟩ := List.mem_flatMap.mp h
    exact iht hr.2 (ihr hr.1 hs hm) he
  | maybe r ih =>
    rcases List.mem_append.mp h with h | h
    · exact ih hr hs h
    · obtain rfl := List.mem_singleton.mp h
      exact hs
  | few p =>
    obtain ⟨spot, -, rfl⟩ := List.mem_map.mp h
    exact hs
  | group n r ih =>
    obtain ⟨m, hm, rfl⟩ := List.mem_map.mp h
    intro g hg
    rcases List.mem_cons.mp hg with hnew | hg
    · obtain ⟨run, hafter, hbefore⟩ := ends_run hm
      cases hnew
      rw [Regex.matched_run hbefore]
      exact hr.2 rfl s m run hm hbefore hafter
    · exact ih hr.1 hs hm g hg

theorem exec_captures {name : κ} {P : List α → Prop} {r : Pattern κ α}
    (hr : r.Captures word name P) {text : List α} {groups : List (κ × List α)}
    (h : r.exec word text = some groups) {g : List α} (hg : (name, g) ∈ groups) : P g := by
  obtain ⟨e, he, rfl⟩ := Option.map_eq_some_iff.mp h
  have hnone : ∀ g, (name, g) ∈ ((([], text), []) : State κ α).2 → P g := by
    rintro g ⟨⟩
  exact ends_captures hr hnone (List.mem_of_head? he) g hg

end

-- ---------------------------------------------------------------------------
-- The match that is found
-- ---------------------------------------------------------------------------

section
variable {κ : Type} {α : Type u} {word : α → Bool} {a b : Pattern κ α}
  {k : State κ α → List (State κ α)} {s e : State κ α}

/-- What follows `k` finds after a match of the pattern, the first match of the pattern that
lets `k` find anything. -/
def Finds (word : α → Bool) (r : Pattern κ α) (k : State κ α → List (State κ α))
    (s e : State κ α) : Prop := ((r.ends word s).flatMap k).head? = some e

theorem exec_of_finds {r : Pattern κ α} {text : List α}
    (h : Finds word r (fun s => [s]) (([], text), []) e) : r.exec word text = some e.2 := by
  unfold Finds at h
  rw [List.flatMap_singleton'] at h
  unfold exec
  rw [h]
  rfl

theorem finds_seq : Finds word (.seq a b) k s e ↔
    Finds word a (fun m => (b.ends word m).flatMap k) s e := by
  unfold Finds
  rw [ends_seq, List.flatMap_assoc]

theorem Finds.plain {r : Regex α} {m : Regex.Spot α} (h : Regex.First word r s.1 m)
    (hk : (k (m, s.2)).head? = some e) : Finds word (.plain r) k s e := by
  unfold Finds
  rw [ends_plain, List.flatMap_map]
  exact Regex.head?_flatMap h hk

theorem Finds.seq_plain {r : Regex α} {m : Regex.Spot α} (h : Regex.First word r s.1 m)
    (hb : Finds word b k (m, s.2) e) : Finds word (.seq (.plain r) b) k s e :=
  finds_seq.mpr (.plain h hb)

theorem Finds.seq_group {name : κ} {r : Regex α} {before run after : List α}
    {groups : List (κ × List α)}
    (h : Regex.First word r (before, run ++ after) (run.reverse ++ before, after))
    (hb : Finds word b k ((run.reverse ++ before, after), (name, run) :: groups) e) :
    Finds word (.seq (.group name (.plain r)) b) k ((before, run ++ after), groups) e := by
  apply finds_seq.mpr
  unfold Finds
  rw [ends_group_plain, List.flatMap_map]
  apply Regex.head?_flatMap h
  rw [Regex.matched_run rfl]
  exact hb

theorem Finds.maybe (h : Finds word (.seq a b) k s e) : Finds word (.seq (.maybe a) b) k s e := by
  apply finds_seq.mpr
  have ha := finds_seq.mp h
  unfold Finds at ha ⊢
  rw [ends_maybe, List.flatMap_append, List.head?_append, ha]
  rfl

theorem Finds.maybe_not (ha : a.ends word s = []) (h : Finds word b k s e) :
    Finds word (.seq (.maybe a) b) k s e := by
  apply finds_seq.mpr
  unfold Finds at h ⊢
  rw [ends_maybe, ha, List.nil_append, List.flatMap_singleton]
  exact h

theorem finds_assoc {c : Pattern κ α} :
    Finds word (.seq (.seq a b) c) k s e ↔ Finds word (.seq a (.seq b c)) k s e := by
  unfold Finds
  simp only [ends_seq, List.flatMap_assoc]

theorem Finds.seq_few {name : κ} {p : α → Bool} {before run after : List α}
    {groups : List (κ × List α)} (hne : run ≠ []) (hrun : ∀ c ∈ run, p c = true)
    (hless : ∀ run' rest, run = run' ++ rest → run' ≠ [] → rest ≠ [] →
      b.ends word ((run'.reverse ++ before, rest ++ after), (name, run') :: groups) = [])
    (hb : Finds word b k ((run.reverse ++ before, after), (name, run) :: groups) e) :
    Finds word (.seq (.group name (.few p)) b) k ((before, run ++ after), groups) e := by
  apply finds_seq.mpr
  unfold Finds
  rw [ends_group_few, List.flatMap_map]
  -- the stops past `done`, with the group that starts at `before`
  suffices hfrom : ∀ done rest, run = done ++ rest → rest ≠ [] →
      ((fewEnds p (done.reverse ++ before) (rest ++ after)).flatMap fun spot =>
        (b.ends word (spot, (name, Regex.matched ((before, run ++ after), spot)) :: groups)).flatMap
          k).head? = some e from
    hfrom [] run rfl hne
  intro done rest
  induction rest generalizing done with
  | nil => exact fun _ h => absurd rfl h
  | cons c rest ih =>
    intro hsplit _
    have hc : p c = true := hrun c (by rw [hsplit]; simp)
    have hnext : run = (done ++ [c]) ++ rest := by simpa using hsplit
    have hspot : c :: (done.reverse ++ before) = (done ++ [c]).reverse ++ before := by simp
    have hgroup : Regex.matched ((before, run ++ after),
        ((done ++ [c]).reverse ++ before, rest ++ after)) = done ++ [c] := Regex.matched_run rfl
    rw [List.cons_append, fewEnds, if_pos hc, List.flatMap_cons, hspot, hgroup]
    cases rest with
    | nil =>
      rw [List.append_nil] at hnext
      subst hnext
      unfold Finds at hb
      rw [List.head?_append, List.nil_append, hb]
      rfl
    | cons d rest =>
      rw [hless _ _ hnext (by simp) (by simp), List.flatMap_nil, List.nil_append]
      exact ih (done ++ [c]) hnext (by simp)

theorem Finds.assoc_plain {c : Pattern κ α} {r : Regex α} {m : Regex.Spot α}
    (h : Regex.First word r s.1 m) (hb : Finds word (.seq b c) k (m, s.2) e) :
    Finds word (.seq (.seq (.plain r) b) c) k s e :=
  finds_assoc.mpr (.seq_plain h hb)

theorem seq_plain_ends_nil {r : Regex α} (h : r.ends word s.1 = []) :
    (seq (.plain r) b).ends word s = [] := by
  rw [ends_seq, ends_plain, h]
  rfl

end

end Pattern
