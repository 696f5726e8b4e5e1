import McpGateway.Js.Doubles
import McpGateway.Salesforce.Reach
import McpGateway.Salesforce.Tools

/-!
# Listed opportunities

Each filter of `sf.list_opportunities` is stated on its own, and with it what
the records, the totals and the stages of a result have to be. The handler
tests an empty argument as if it were missing, keeps what it cannot compare,
takes every stage that begins with `Closed` for closed, and counts in an object
that has inherited names.
-/

namespace McpGateway.Salesforce

open Js Shared McpGateway.Runtime

-- ---------------------------------------------------------------------------
-- What is asked of a result
-- ---------------------------------------------------------------------------

def visibleOpportunities (dataset : Dataset) (principal : DownstreamPrincipal) :
    List OpportunityRecord :=
  dataset.opportunities.filter fun record => isVisible record.toCrmRecord principal

section
variable (engine : Engine) (args : ListArguments)

def closesBefore (closeDate closingBefore : JsString) : Bool :=
  match engine.dateParse closeDate, engine.dateParse closingBefore with
  | some t, some limit => decide (t.ms < limit.ms)
  | _, _ => false

def isClosed (stage : JsString) : Bool := stage == js "Closed Won" || stage == js "Closed Lost"

def meets (opportunity : OpportunityRecord) : Bool :=
  args.stage.all (fun stage =>
    engine.toLowerCase opportunity.stageName == engine.toLowerCase stage) &&
  args.minAmount.all (fun minAmount => minAmount.le opportunity.amount) &&
  !(args.openOnly && isClosed opportunity.stageName) &&
  args.closingBefore.all (closesBefore engine opportunity.closeDate)

def meeting (visible : List OpportunityRecord) : List OpportunityRecord :=
  visible.filter (meets engine args)

end

def part (result : Json) (name : String) : Option Json :=
  match result with
  | .object props => props.lookup (js name)
  | _ => none

def IsWhole (n : JsNumber) : Prop := n.isFinite = true ∧ ∃ z : ℤ, n.value = z

/-- The stages of a result: one entry a name that occurs, with figures that add up. -/
structure StagesOf (opportunities : List OpportunityRecord)
    (totals : List (JsString × StageTotal)) : Prop where
  once : (totals.map Prod.fst).Nodup
  occurs : ∀ name, name ∈ totals.map Prod.fst ↔ ∃ o ∈ opportunities, o.stageName = name
  counts : (totals.map fun e => e.2.count).sum = opportunities.length

/-- The result is the one of the opportunities that meet the filters. -/
structure Honours (engine : Engine) (args : ListArguments) (visible : List OpportunityRecord)
    (result : Json) : Prop where
  totalSize : part result "totalSize" = some (natural (meeting engine args visible).length)
  page : ∃ arranged : List OpportunityRecord,
    arranged.Perm (meeting engine args visible) ∧
    arranged.Pairwise (fun a b => b.amount.le a.amount = true) ∧
    part result "records" = some (.array
      ((arranged.take (min args.limit (meeting engine args visible).length)).map fun o => o.json))
  stages : ∃ totals : List (JsString × StageTotal),
    part result "byStage" = some (.object (totals.map fun e => (e.1, e.2.json))) ∧
    StagesOf (meeting engine args visible) totals ∧
    ((∀ o ∈ meeting engine args visible, IsWhole o.amount) →
      ∃ totalValue : JsNumber, part result "totalValue" = some (.number totalValue) ∧
        totalValue.isFinite = true ∧ totalValue.value = (totals.map fun e => e.2.value.value).sum)

-- ---------------------------------------------------------------------------
-- Where the handler differs
-- ---------------------------------------------------------------------------

section
variable (engine : Engine) (args : ListArguments) (opportunity : OpportunityRecord)

/-- A filter that would exclude the opportunity is not applied: the stage or the date given is
empty, or one of the two dates is none. -/
def Unapplied : Prop :=
  (args.stage = some [] ∧ engine.toLowerCase opportunity.stageName ≠ engine.toLowerCase []) ∨
    ∃ closingBefore, args.closingBefore = some closingBefore ∧
      closesBefore engine opportunity.closeDate closingBefore = false ∧
      (closingBefore = [] ∨ engine.dateParse closingBefore = none ∨
        engine.dateParse opportunity.closeDate = none)

def Overapplied : Prop :=
  args.openOnly = true ∧ (js "Closed").isPrefixOf opportunity.stageName = true ∧
    isClosed opportunity.stageName = false

end

/-- Among the visible opportunities the handler keeps none past a filter it does not apply, and
none that meets the filters is dropped or has a stage named like an inherited property. -/
structure FiltersApply (engine : Engine) (prototype : ObjectPrototype) (args : ListArguments)
    (visible : List OpportunityRecord) : Prop where
  kept : ∀ o ∈ visible, keeps engine args o = true → ¬ Unapplied engine args o
  dropped : ∀ o ∈ visible, meets engine args o = true → ¬ Overapplied args o
  named : ∀ o ∈ visible, meets engine args o = true → o.stageName ∉ prototype.names

/-- Sums of these amounts are not rounded, if they are integers. -/
def SumsExact (opportunities : List OpportunityRecord) : Prop :=
  (∀ o ∈ opportunities, IsWhole o.amount) →
    (opportunities.map fun o => |o.amount.value|).sum ≤ 2 ^ 53

-- ---------------------------------------------------------------------------
-- The filters
-- ---------------------------------------------------------------------------

section
variable {engine : Engine} {args : ListArguments} {o : OpportunityRecord}

theorem lt_eq_not_le {m n : JsNumber} (hm : m ≠ .nan) (hn : n ≠ .nan) : m.lt n = !n.le m := by
  have htotal := le_total_of_number hm hn
  unfold JsNumber.lt
  grind

theorem parsedDate_le (closeDate closingBefore : JsString) :
    (engine.parsedDate closingBefore).le (engine.parsedDate closeDate) =
      match engine.dateParse closeDate, engine.dateParse closingBefore with
      | some t, some limit => decide (limit.ms ≤ t.ms)
      | _, _ => false := by
  unfold Engine.parsedDate
  cases engine.dateParse closeDate with
  | none => cases engine.dateParse closingBefore <;> rfl
  | some t =>
    cases engine.dateParse closingBefore with
    | none => rfl
    | some limit =>
      show decide ((limit.ms : ℚ) ≤ t.ms) = decide (limit.ms ≤ t.ms)
      exact decide_eq_decide.mpr Int.cast_le

theorem prefix_of_isClosed {stage : JsString} (h : isClosed stage = true) :
    (js "Closed").isPrefixOf stage = true := by
  unfold isClosed at h
  rcases Bool.or_eq_true_iff.mp h with h | h
  · rw [LawfulBEq.eq_of_beq h]
    decide
  · rw [LawfulBEq.eq_of_beq h]
    decide

theorem truthy_cons (c : CodeUnit) (text : JsString) : truthy (some (c :: text)) = some (c :: text) :=
  rfl

theorem keeps_iff : keeps engine args o = true ↔
    (∀ stage, truthy args.stage = some stage →
      engine.toLowerCase o.stageName = engine.toLowerCase stage) ∧
    (∀ minAmount, args.minAmount = some minAmount → o.amount.lt minAmount = false) ∧
    (args.openOnly = true → (js "Closed").isPrefixOf o.stageName = false) ∧
    ∀ closingBefore, truthy args.closingBefore = some closingBefore →
      (engine.parsedDate closingBefore).le (engine.parsedDate o.closeDate) = false := by
  unfold keeps
  simp only [Bool.and_eq_true, Option.all_eq_true, beq_iff_eq, Bool.not_eq_true', and_assoc,
    Bool.and_eq_false_imp]

theorem meets_iff : meets engine args o = true ↔
    (∀ stage, args.stage = some stage →
      engine.toLowerCase o.stageName = engine.toLowerCase stage) ∧
    (∀ minAmount, args.minAmount = some minAmount → minAmount.le o.amount = true) ∧
    (args.openOnly = true → isClosed o.stageName = false) ∧
    ∀ closingBefore, args.closingBefore = some closingBefore →
      closesBefore engine o.closeDate closingBefore = true := by
  unfold meets
  simp only [Bool.and_eq_true, Option.all_eq_true, beq_iff_eq, Bool.not_eq_true', and_assoc,
    Bool.and_eq_false_imp]

/-- What the handler keeps and does not meet the filters was kept past one of them. -/
theorem meets_of_keeps (hmin : ∀ n, args.minAmount = some n → n ≠ .nan) (hamount : o.amount ≠ .nan)
    (hkeeps : keeps engine args o = true) (happlied : ¬ Unapplied engine args o) :
    meets engine args o = true := by
  obtain ⟨hstage, hminAmount, hopen, hclosing⟩ := keeps_iff.mp hkeeps
  refine meets_iff.mpr ⟨fun stage h => ?_, fun minAmount h => ?_, fun h => ?_,
    fun closingBefore h => ?_⟩
  · cases stage with
    | nil => exact by_contra fun hne => happlied (.inl ⟨h, hne⟩)
    | cons c stage => exact hstage (c :: stage) (by rw [h]; exact truthy_cons c stage)
  · have hlt := hminAmount minAmount h
    rwa [lt_eq_not_le hamount (hmin minAmount h), Bool.not_eq_false'] at hlt
  · refine Bool.eq_false_iff.mpr fun hclosed => ?_
    rw [prefix_of_isClosed hclosed] at hopen
    cases hopen h
  · by_contra hbefore
    rw [Bool.not_eq_true] at hbefore
    refine happlied (.inr ⟨closingBefore, h, hbefore, ?_⟩)
    cases closingBefore with
    | nil => exact .inl rfl
    | cons c closingBefore =>
      have hdates := hclosing (c :: closingBefore) (by rw [h]; exact truthy_cons c closingBefore)
      rw [parsedDate_le] at hdates
      unfold closesBefore at hbefore
      cases hlimit : engine.dateParse (c :: closingBefore) with
      | none => exact .inr (.inl rfl)
      | some limit =>
        cases hclose : engine.dateParse o.closeDate with
        | none => exact .inr (.inr rfl)
        | some t =>
          simp only [hlimit, hclose, decide_eq_false_iff_not] at hdates hbefore
          omega

/-- What meets the filters and is dropped has an open stage that begins like a closed one. -/
theorem keeps_of_meets (hmin : ∀ n, args.minAmount = some n → n ≠ .nan) (hamount : o.amount ≠ .nan)
    (hmeets : meets engine args o = true) (hopen : ¬ Overapplied args o) :
    keeps engine args o = true := by
  obtain ⟨hstage, hminAmount, hclosed, hclosing⟩ := meets_iff.mp hmeets
  refine keeps_iff.mpr ⟨fun stage h => hstage stage (Option.filter_eq_some_iff.mp h).1,
    fun minAmount h => ?_, fun h => ?_, fun closingBefore h => ?_⟩
  · rw [lt_eq_not_le hamount (hmin minAmount h), hminAmount minAmount h]
    rfl
  · exact Bool.eq_false_iff.mpr fun hprefix => hopen ⟨h, hprefix, hclosed h⟩
  · have hbefore := hclosing closingBefore (Option.filter_eq_some_iff.mp h).1
    rw [parsedDate_le]
    unfold closesBefore at hbefore
    split at hbefore
    · next t limit hclose hlimit =>
      exact decide_eq_false (not_le.mpr (of_decide_eq_true hbefore))
    · cases hbefore

theorem minAmount_number {arguments : List (JsString × Json)}
    (h : readArguments (js "sf.list_opportunities") arguments = some (.listOpportunities args)) :
    ∀ n, args.minAmount = some n → n ≠ .nan := by
  unfold readArguments at h
  rw [if_neg (by decide), if_neg (by decide), if_pos rfl] at h
  obtain ⟨stage, -, h⟩ := Option.bind_eq_some_iff.mp h
  obtain ⟨minAmount, hmin, h⟩ := Option.bind_eq_some_iff.mp h
  obtain ⟨closingBefore, -, h⟩ := Option.bind_eq_some_iff.mp h
  obtain ⟨openOnly, -, h⟩ := Option.bind_eq_some_iff.mp h
  obtain ⟨limit, -, h⟩ := Option.bind_eq_some_iff.mp h
  cases h
  rintro n rfl rfl
  unfold optionalArgument at hmin
  split at hmin
  · cases hmin
  · next v hlookup =>
    obtain ⟨m, hm, hnan⟩ := Option.map_eq_some_iff.mp hmin
    cases hnan
    unfold amountOf at hm
    split at hm
    · split at hm
      · next hle =>
        cases hm
        cases hle
      · cases hm
    · cases hm

end

-- ---------------------------------------------------------------------------
-- The stages
-- ---------------------------------------------------------------------------

structure WholeWithin (bound : ℚ) (n : JsNumber) : Prop where
  finite : n.isFinite = true
  whole : ∃ z : ℤ, n.value = z
  within : |n.value| ≤ bound

theorem WholeWithin.mono {bound bound' : ℚ} {n : JsNumber} (h : WholeWithin bound n)
    (hle : bound ≤ bound') : WholeWithin bound' n :=
  ⟨h.finite, h.whole, h.within.trans hle⟩

theorem ofRat_integer {z : ℤ} (h : |(z : ℚ)| ≤ 2 ^ 53) : JsNumber.ofRat z = .finite z := by
  have hle : z.natAbs ≤ 2 ^ 53 := by
    rw [← Int.cast_abs, Int.abs_eq_natAbs] at h
    exact_mod_cast h
  by_cases hz : z = 0
  · rw [hz, Int.cast_zero, ofRat_zero]
  · have hnum : (z : ℚ).num.natAbs = z.natAbs := by simp
    have hden : (z : ℚ).den = 1 := Rat.den_intCast z
    have hneg : decide ((z : ℚ) < 0) = decide (z < 0) := decide_eq_decide.mpr Int.cast_lt_zero
    rw [JsNumber.ofRat, hnum, hden, hneg,
      roundToDouble_integer (Int.natAbs_ne_zero.mpr hz) hle]
    by_cases hsign : z < 0
    · rw [decide_eq_true hsign, if_pos rfl, Nat.cast_natAbs, abs_of_neg hsign]
      push_cast
      rw [neg_neg]
    · rw [decide_eq_false hsign, if_neg Bool.false_ne_true, Nat.cast_natAbs,
        abs_of_nonneg (not_lt.mp hsign)]

theorem WholeWithin.add {b c : ℚ} {m n : JsNumber} (hm : WholeWithin b m) (hn : WholeWithin c n)
    (hle : b + c ≤ 2 ^ 53) : WholeWithin (b + c) (m.add n) ∧ (m.add n).value = m.value + n.value := by
  obtain ⟨x, hx⟩ := hm.whole
  obtain ⟨y, hy⟩ := hn.whole
  have hwithin : |m.value + n.value| ≤ b + c :=
    (abs_add_le _ _).trans (add_le_add hm.within hn.within)
  have hadd : m.add n = .finite (m.value + n.value) := by
    have hround : m.add n = JsNumber.ofRat (m.value + n.value) := by
      have hmf := hm.finite
      have hnf := hn.finite
      cases m with
      | nan | infinity _ => cases hmf
      | negZero | finite _ =>
        cases n with
        | nan | infinity _ => cases hnf
        | negZero | finite _ => rfl
    have hcast : m.value + n.value = ((x + y : ℤ) : ℚ) := by
      rw [hx, hy]
      push_cast
      rfl
    rw [hround, hcast, ofRat_integer]
    rw [← hcast]
    exact hwithin.trans hle
  rw [hadd]
  refine ⟨⟨rfl, ⟨x + y, ?_⟩, hwithin⟩, rfl⟩
  show m.value + n.value = _
  rw [hx, hy]
  push_cast
  rfl

section
variable {opportunities : List OpportunityRecord} {o : OpportunityRecord}

def magnitude (opportunities : List OpportunityRecord) : ℚ :=
  (opportunities.map fun o => |o.amount.value|).sum

theorem magnitude_snoc :
    magnitude (opportunities ++ [o]) = magnitude opportunities + |o.amount.value| := by
  simp [magnitude]

theorem magnitude_nonneg : 0 ≤ magnitude opportunities := by
  apply List.sum_nonneg
  intro x hx
  obtain ⟨o, -, rfl⟩ := List.mem_map.mp hx
  exact abs_nonneg _

theorem addToStage_entries (totals : JsMap JsString StageTotal) (o : OpportunityRecord) :
    ∃ entry, entry = (totals.get o.stageName).getD { count := 0, value := .finite 0 } ∧
      addToStage totals o = totals.set o.stageName
        { count := entry.count + 1, value := entry.value.add o.amount } :=
  ⟨_, rfl, rfl⟩

theorem StagesOf.step {totals : JsMap JsString StageTotal}
    (h : StagesOf opportunities totals.entries) :
    StagesOf (opportunities ++ [o]) (addToStage totals o).entries := by
  obtain ⟨entry, hentry, hadd⟩ := addToStage_entries totals o
  rw [hadd]
  refine ⟨?_, fun name => ?_, ?_⟩
  · rw [JsMap.keys_set]
    split
    · exact h.once
    · next hnew => exact h.once.append (List.nodup_singleton _) (by simpa using hnew)
  · rw [JsMap.mem_keys_set, h.occurs]
    constructor
    · rintro (⟨o', ho', hname⟩ | hname)
      · exact ⟨o', List.mem_append_left _ ho', hname⟩
      · exact ⟨o, List.mem_append_right _ (List.mem_singleton_self o), hname.symm⟩
    · rintro ⟨o', ho', hname⟩
      rcases List.mem_append.mp ho' with ho' | ho'
      · exact .inl ⟨o', ho', hname⟩
      · exact .inr (List.mem_singleton.mp ho' ▸ hname.symm)
  · have hsum := totals.sum_set StageTotal.count o.stageName
      { count := entry.count + 1, value := entry.value.add o.amount }
    have hold : ((totals.get o.stageName).map StageTotal.count).getD 0 = entry.count := by
      rw [hentry]
      cases totals.get o.stageName <;> rfl
    rw [hold, h.counts] at hsum
    rw [List.length_append, List.length_singleton]
    dsimp only at hsum
    omega

theorem stagesOf_foldl (opportunities : List OpportunityRecord) :
    StagesOf opportunities (opportunities.foldl addToStage .empty).entries := by
  induction opportunities using List.reverseRecOn with
  | nil => exact ⟨List.nodup_nil, by simp [JsMap.empty], rfl⟩
  | append_singleton opportunities o ih =>
    rw [List.foldl_append]
    exact ih.step

theorem stageValues (hwhole : ∀ o ∈ opportunities, IsWhole o.amount)
    (hsum : magnitude opportunities ≤ 2 ^ 53) :
    (∀ e ∈ (opportunities.foldl addToStage .empty).entries,
      WholeWithin (magnitude opportunities) e.2.value) ∧
    ((opportunities.foldl addToStage .empty).entries.map fun e => e.2.value.value).sum =
      (opportunities.map fun o => o.amount.value).sum := by
  induction opportunities using List.reverseRecOn with
  | nil => exact ⟨fun e he => (List.not_mem_nil he).elim, rfl⟩
  | append_singleton opportunities o ih =>
    rw [magnitude_snoc] at hsum ⊢
    have hmono : magnitude opportunities ≤ magnitude opportunities + |o.amount.value| :=
      le_add_of_nonneg_right (abs_nonneg _)
    obtain ⟨hentries, hvalues⟩ := ih (fun o' ho' => hwhole o' (List.mem_append_left _ ho'))
      (hmono.trans hsum)
    obtain ⟨hfinite, hz⟩ := hwhole o (List.mem_append_right _ (List.mem_singleton_self o))
    have hamount : WholeWithin |o.amount.value| o.amount := ⟨hfinite, hz, le_rfl⟩
    rw [List.foldl_append, List.foldl_cons, List.foldl_nil]
    generalize opportunities.foldl addToStage .empty = totals at hentries hvalues ⊢
    obtain ⟨entry, hentry, hadd⟩ := addToStage_entries totals o
    have hold : WholeWithin (magnitude opportunities) entry.value ∧
        ((totals.get o.stageName).map fun t => t.value.value).getD 0 = entry.value.value := by
      rw [hentry]
      cases hget : totals.get o.stageName with
      | none =>
        exact ⟨⟨rfl, ⟨0, Int.cast_zero.symm⟩, by simpa [JsNumber.value] using magnitude_nonneg⟩, rfl⟩
      | some t => exact ⟨hentries _ (JsMap.mem_of_get hget), rfl⟩
    obtain ⟨hwithin, hvalue⟩ := hold.1.add hamount hsum
    rw [hadd]
    constructor
    · intro e he
      rcases JsMap.mem_set he with rfl | he
      · exact hwithin
      · exact (hentries e he).mono hmono
    · have hset := totals.sum_set (fun t => t.value.value) o.stageName
        { count := entry.count + 1, value := entry.value.add o.amount }
      rw [hold.2, hvalues] at hset
      dsimp only at hset
      rw [hvalue] at hset
      rw [List.map_append, List.sum_append, List.map_singleton, List.sum_singleton]
      linarith

theorem totalValue_foldl (hwhole : ∀ o ∈ opportunities, IsWhole o.amount)
    (hsum : magnitude opportunities ≤ 2 ^ 53) :
    WholeWithin (magnitude opportunities)
      (opportunities.foldl (fun sum o => JsNumber.add sum o.amount) (.finite 0)) ∧
    (opportunities.foldl (fun sum o => JsNumber.add sum o.amount) (.finite 0)).value =
      (opportunities.map fun o => o.amount.value).sum := by
  induction opportunities using List.reverseRecOn with
  | nil => exact ⟨⟨rfl, ⟨0, Int.cast_zero.symm⟩, by simp [JsNumber.value, magnitude]⟩, rfl⟩
  | append_singleton opportunities o ih =>
    rw [magnitude_snoc] at hsum ⊢
    obtain ⟨htotal, hvalue⟩ := ih (fun o' ho' => hwhole o' (List.mem_append_left _ ho'))
      ((le_add_of_nonneg_right (abs_nonneg _)).trans hsum)
    obtain ⟨hfinite, hz⟩ := hwhole o (List.mem_append_right _ (List.mem_singleton_self o))
    obtain ⟨hwithin, hadd⟩ := htotal.add ⟨hfinite, hz, le_rfl⟩ hsum
    rw [List.foldl_append, List.foldl_cons, List.foldl_nil]
    refine ⟨hwithin, ?_⟩
    rw [hadd, hvalue]
    simp

theorem WholeWithin.round {bound : ℚ} {n : JsNumber} (h : WholeWithin bound n) :
    n.round.isFinite = true ∧ n.round.value = n.value := by
  obtain ⟨z, hz⟩ := h.whole
  have hround : n.round = .finite (n.value + 1 / 2).floor := if_pos h.finite
  rw [hround]
  refine ⟨rfl, ?_⟩
  show (((n.value + 1 / 2).floor : ℤ) : ℚ) = n.value
  have hfloor : (n.value + 1 / 2).floor = z := by
    rw [hz]
    show ⌊(z : ℚ) + 1 / 2⌋ = z
    rw [Int.floor_eq_iff]
    constructor <;> linarith
  rw [hfloor, hz]

end

-- ---------------------------------------------------------------------------
-- The loop over the opportunities
-- ---------------------------------------------------------------------------

section
variable {opportunities : List OpportunityRecord} {prototype : ObjectPrototype} {stages : Stages}

theorem Stages.add_ok {o : OpportunityRecord} {stages' : Stages} (h : stages.add o = .ok stages') :
    stages'.totals = addToStage stages.totals o ∧
      (stages.prototype.counted = true → stages'.prototype.counted = true ∧
        (stages.totals.get o.stageName = none → o.stageName ∉ [js "count", js "value"])) := by
  unfold Stages.add at h
  dsimp only at h
  split at h
  · cases h
  · next hinherits =>
    cases h
    refine ⟨rfl, fun hcounted => ⟨by simp [hcounted], fun hnew hname => hinherits ?_⟩⟩
    rw [hnew, hcounted, List.contains_iff_mem.mpr hname]
    rfl

/-- A loop that returns has counted every opportunity, and none under a name that
`Object.prototype` has from an earlier call. -/
theorem foldlM_add_ok
    (h : opportunities.foldlM Stages.add { totals := .empty, prototype } = .ok stages) :
    stages.totals = opportunities.foldl addToStage .empty ∧
      (prototype.counted = true → stages.prototype.counted = true ∧
        ∀ o ∈ opportunities, o.stageName ∉ [js "count", js "value"]) := by
  induction opportunities using List.reverseRecOn generalizing stages with
  | nil =>
    cases h
    exact ⟨rfl, fun hcounted => ⟨hcounted, fun _ ho => absurd ho List.not_mem_nil⟩⟩
  | append_singleton opportunities o ih =>
    rw [List.foldlM_append] at h
    obtain ⟨before, hbefore, hadd⟩ := Outcome.bind_eq_ok.mp h
    rw [List.foldlM_cons] at hadd
    obtain ⟨after, hafter, hlast⟩ := Outcome.bind_eq_ok.mp hadd
    cases hlast
    obtain ⟨htotals, hcounted⟩ := ih hbefore
    obtain ⟨hstep, hnew⟩ := Stages.add_ok hafter
    refine ⟨by rw [hstep, htotals, List.foldl_append]; rfl, fun h => ?_⟩
    obtain ⟨hproto, hnames⟩ := hcounted h
    obtain ⟨hproto', hname⟩ := hnew hproto
    refine ⟨hproto', fun o' ho' => ?_⟩
    rcases List.mem_append.mp ho' with ho' | ho'
    · exact hnames o' ho'
    · obtain rfl := List.mem_singleton.mp ho'
      cases hget : before.totals.get o'.stageName with
      | none => exact hname hget
      | some total =>
        -- the name was counted before, and was not inherited then
        have hmem : o'.stageName ∈ before.totals.entries.map Prod.fst :=
          List.mem_map_of_mem (JsMap.mem_of_get hget)
        rw [htotals, (stagesOf_foldl opportunities).occurs] at hmem
        obtain ⟨earlier, hearlier, hsame⟩ := hmem
        exact hsame ▸ hnames earlier hearlier

theorem foldlM_add_of_names (h : ∀ o ∈ opportunities, o.stageName ∉ prototype.names) :
    opportunities.foldlM Stages.add { totals := .empty, prototype } =
      .ok { totals := opportunities.foldl addToStage .empty, prototype } := by
  induction opportunities using List.reverseRecOn with
  | nil => rfl
  | append_singleton opportunities o ih =>
    rw [List.foldlM_append, ih fun o' ho' => h o' (List.mem_append_left _ ho'), List.foldl_append]
    have hname := h o (List.mem_append_right _ (List.mem_singleton_self o))
    unfold ObjectPrototype.names at hname
    rw [List.mem_append, not_or] at hname
    obtain ⟨hlanguage, hcounted⟩ := hname
    have hproto : (o.stageName == js "__proto__") = false := by
      rw [beq_eq_false_iff_ne]
      exact fun heq => hlanguage (heq ▸ by decide)
    have hnan : (prototype.counted && [js "count", js "value"].contains o.stageName) = false := by
      cases hflag : prototype.counted with
      | false => rfl
      | true =>
        rw [hflag, if_pos rfl] at hcounted
        simpa using hcounted
    show (List.foldlM Stages.add _ [o]) = _
    rw [List.foldlM_cons, Stages.add]
    dsimp only
    rw [Bool.and_assoc, hnan, hproto, Bool.and_false, if_neg Bool.false_ne_true, Bool.or_false]
    rfl

end

-- ---------------------------------------------------------------------------
-- The result
-- ---------------------------------------------------------------------------

section
variable {engine : Engine} {sorter : Sorter} {d : Dataset} {p : DownstreamPrincipal}
  {prototype prototype' : ObjectPrototype} {args : ListArguments} {result : Json}

def kept (engine : Engine) (args : ListArguments) (d : Dataset) (p : DownstreamPrincipal) :
    List OpportunityRecord :=
  (visibleOpportunities d p).filter (keeps engine args)

def byAmount (a b : OpportunityRecord) : JsNumber := b.amount.sub a.amount

/-- The handler returns when its loop does, and these are the parts of its result. -/
theorem listOpportunities_ok
    (h : listOpportunities engine sorter d p prototype args = .ok (result, prototype')) :
    ∃ stages, (kept engine args d p).foldlM Stages.add { totals := .empty, prototype } = .ok stages ∧
      prototype' = stages.prototype ∧
      part result "totalSize" = some (natural (kept engine args d p).length) ∧
      part result "totalValue" = some (.number ((kept engine args d p).foldl
        (fun sum o => JsNumber.add sum o.amount) (.finite 0)).round) ∧
      part result "byStage" = some (stagesJson stages.totals) ∧
      part result "records" = some (.array (((sorter.sort byAmount (kept engine args d p)).take
        args.limit).map fun o => o.json)) := by
  obtain ⟨stages, hstages, h⟩ := Outcome.bind_eq_ok.mp h
  cases h
  exact ⟨stages, hstages, rfl, rfl, rfl, rfl, rfl⟩

theorem propertyOrder_perm {α : Type} (props : List (JsString × α)) :
    (propertyOrder props).Perm props := by
  unfold propertyOrder
  exact ((List.mergeSort_perm _ _).append_right _).trans (List.filter_append_perm _ _)

theorem StagesOf.perm {opportunities : List OpportunityRecord}
    {totals totals' : List (JsString × StageTotal)} (h : StagesOf opportunities totals)
    (hperm : totals'.Perm totals) : StagesOf opportunities totals' := by
  refine ⟨(hperm.map Prod.fst).nodup_iff.mpr h.once, fun name => ?_, ?_⟩
  · rw [(hperm.map Prod.fst).mem_iff, h.occurs]
  · rw [(hperm.map fun e => e.2.count).sum_eq, h.counts]

theorem stagesJson_eq {totals : JsMap JsString StageTotal}
    (h : ∀ e ∈ totals.entries, e.1 ∉ inheritedNames) :
    stagesJson totals = .object ((propertyOrder totals.entries).map fun e => (e.1, e.2.json)) := by
  unfold stagesJson
  rw [List.filter_eq_self.mpr]
  intro e he
  simpa using h e he

theorem stagesJson_names {totals : JsMap JsString StageTotal}
    {printed : List (JsString × StageTotal)}
    (h : stagesJson totals = .object (printed.map fun e => (e.1, e.2.json))) {name : JsString}
    (hname : name ∈ printed.map Prod.fst) :
    name ∈ totals.entries.map Prod.fst ∧ name ∉ inheritedNames := by
  have hprops := congrArg (List.map Prod.fst) (Json.object.inj h)
  rw [List.map_map, List.map_map] at hprops
  change (propertyOrder (totals.entries.filter _)).map Prod.fst = printed.map Prod.fst at hprops
  rw [← hprops] at hname
  obtain ⟨e, he, rfl⟩ := List.mem_map.mp hname
  obtain ⟨hmem, hnew⟩ := List.mem_filter.mp ((propertyOrder_perm _).mem_iff.mp he)
  exact ⟨List.mem_map_of_mem hmem, by simpa using hnew⟩

theorem sort_byAmount {opportunities : List OpportunityRecord}
    (hdata : ∀ o ∈ opportunities, IsDouble o.amount ∧ o.amount ≠ .nan) :
    StableSort (fun a b => b.amount.le a.amount) opportunities
      (sorter.sort byAmount opportunities) := by
  apply sorter.stableSort_of
  · intro a ha b hb
    unfold notAfter byAmount
    rw [zero_lt_sub (hdata b hb).1 (hdata a ha).1 (hdata b hb).2 (hdata a ha).2, Bool.not_not]
  · intro a ha b hb
    exact le_total_of_number (hdata b hb).2 (hdata a ha).2
  · intro a _ b _ c _ hab hbc
    exact le_trans_of_number hbc hab

/-- The stage of an opportunity that meets the filters has an entry, so `openOnly` has not dropped
it and no inherited property hides it. -/
theorem stage_of_honours
    (hok : listOpportunities engine sorter d p prototype args = .ok (result, prototype'))
    (h : Honours engine args (visibleOpportunities d p) result) {o : OpportunityRecord}
    (ho : o ∈ visibleOpportunities d p) (hmeets : meets engine args o = true) :
    ¬ Overapplied args o ∧ o.stageName ∉ prototype.names := by
  obtain ⟨stages, hloop, -, -, -, hbyStage, -⟩ := listOpportunities_ok hok
  obtain ⟨htotals, hcounted⟩ := foldlM_add_ok hloop
  obtain ⟨totals, hprinted, hstages, -⟩ := h.stages
  rw [hbyStage, Option.some_inj] at hprinted
  have hname : o.stageName ∈ totals.map Prod.fst :=
    (hstages.occurs o.stageName).mpr ⟨o, List.mem_filter.mpr ⟨ho, hmeets⟩, rfl⟩
  obtain ⟨hmem, hnew⟩ := stagesJson_names hprinted hname
  rw [htotals] at hmem
  obtain ⟨o', ho', hsame⟩ := ((stagesOf_foldl _).occurs o.stageName).mp hmem
  refine ⟨fun ⟨hopen, hprefix, _⟩ => ?_, ?_⟩
  · have hkept := (keeps_iff.mp (List.mem_filter.mp ho').2).2.2.1 hopen
    rw [hsame, hprefix] at hkept
    cases hkept
  · unfold ObjectPrototype.names
    rw [List.mem_append, not_or]
    refine ⟨hnew, ?_⟩
    split
    · next hflag => exact hsame ▸ (hcounted hflag).2 o' ho'
    · exact List.not_mem_nil

theorem meeting_sublist_kept (hkeeps : ∀ o ∈ visibleOpportunities d p,
      meets engine args o = true → keeps engine args o = true) :
    (meeting engine args (visibleOpportunities d p)).Sublist (kept engine args d p) := by
  have hboth : meeting engine args (visibleOpportunities d p) =
      (kept engine args d p).filter (meets engine args) := by
    unfold meeting kept
    rw [List.filter_filter]
    refine List.filter_congr fun o ho => ?_
    cases hmeets : meets engine args o with
    | false => rfl
    | true => rw [hkeeps o ho hmeets, Bool.and_self]
  rw [hboth]
  exact List.filter_sublist

/-- A result that honours the filters comes from a handler that applied them. -/
theorem filtersApply_of_honours (hmin : ∀ n, args.minAmount = some n → n ≠ .nan)
    (hdata : ∀ o ∈ d.opportunities, IsDouble o.amount ∧ o.amount ≠ .nan)
    (hok : listOpportunities engine sorter d p prototype args = .ok (result, prototype'))
    (h : Honours engine args (visibleOpportunities d p) result) :
    FiltersApply engine prototype args (visibleOpportunities d p) := by
  have hstage := fun o ho hmeets => stage_of_honours hok h (o := o) ho hmeets
  refine ⟨?_, fun o ho hmeets => (hstage o ho hmeets).1, fun o ho hmeets => (hstage o ho hmeets).2⟩
  -- the opportunities that meet the filters are kept, and there are as many of them
  have hsub := meeting_sublist_kept fun o ho hmeets =>
    keeps_of_meets hmin (hdata o (List.mem_filter.mp ho).1).2 hmeets (hstage o ho hmeets).1
  have hlength : (meeting engine args (visibleOpportunities d p)).length =
      (kept engine args d p).length := by
    obtain ⟨stages, -, -, htotalSize, -⟩ := listOpportunities_ok hok
    have hsize := h.totalSize
    rw [htotalSize, Option.some_inj] at hsize
    unfold natural at hsize
    simpa using hsize.symm
  have hsame := hsub.eq_of_length hlength
  intro o ho hkeeps hunapplied
  have hmeets : meets engine args o = true := by
    have hmem : o ∈ kept engine args d p := List.mem_filter.mpr ⟨ho, hkeeps⟩
    rw [← hsame] at hmem
    exact (List.mem_filter.mp hmem).2
  obtain ⟨hstageOk, -, -, hclosingOk⟩ := meets_iff.mp hmeets
  rcases hunapplied with ⟨hstage', hne⟩ | ⟨closingBefore, hclosing, hbefore, -⟩
  · exact hne (hstageOk [] hstage')
  · rw [hclosingOk closingBefore hclosing] at hbefore
    cases hbefore

/-- A handler that applies the filters returns a result that honours them, and leaves
`Object.prototype` as it is. -/
theorem honours_of_filtersApply (hmin : ∀ n, args.minAmount = some n → n ≠ .nan)
    (hdata : ∀ o ∈ d.opportunities, IsDouble o.amount ∧ o.amount ≠ .nan)
    (h : FiltersApply engine prototype args (visibleOpportunities d p))
    (hexact : SumsExact (meeting engine args (visibleOpportunities d p))) :
    ∃ result, listOpportunities engine sorter d p prototype args = .ok (result, prototype) ∧
      Honours engine args (visibleOpportunities d p) result := by
  have hamount : ∀ o ∈ visibleOpportunities d p, IsDouble o.amount ∧ o.amount ≠ .nan :=
    fun o ho => hdata o (List.mem_filter.mp ho).1
  have hsame : kept engine args d p = meeting engine args (visibleOpportunities d p) := by
    refine List.filter_congr fun o ho => Bool.eq_iff_iff.mpr ⟨fun hkeeps => ?_, fun hmeets => ?_⟩
    · exact meets_of_keeps hmin (hamount o ho).2 hkeeps (h.kept o ho hkeeps)
    · exact keeps_of_meets hmin (hamount o ho).2 hmeets (h.dropped o ho hmeets)
  have hnamed : ∀ o ∈ meeting engine args (visibleOpportunities d p),
      o.stageName ∉ prototype.names := fun o ho =>
    h.named o (List.mem_filter.mp ho).1 (List.mem_filter.mp ho).2
  have hloop : (kept engine args d p).foldlM Stages.add { totals := .empty, prototype } =
      .ok { totals := (meeting engine args (visibleOpportunities d p)).foldl addToStage .empty
            prototype } := by
    rw [hsame]
    exact foldlM_add_of_names hnamed
  obtain ⟨result, hresult⟩ : ∃ result,
      listOpportunities engine sorter d p prototype args = .ok (result, prototype) :=
    ⟨_, Outcome.bind_eq_ok.mpr ⟨_, hloop, rfl⟩⟩
  refine ⟨result, hresult, ?_⟩
  obtain ⟨stages, hstages, -, htotalSize, htotalValue, hbyStage, hrecords⟩ :=
    listOpportunities_ok hresult
  cases hloop.symm.trans hstages
  have hsorted : StableSort (fun a b : OpportunityRecord => b.amount.le a.amount)
      (meeting engine args (visibleOpportunities d p))
      (sorter.sort byAmount (meeting engine args (visibleOpportunities d p))) :=
    sort_byAmount fun o ho => hamount o (List.mem_filter.mp ho).1
  have hcounted := stagesOf_foldl (meeting engine args (visibleOpportunities d p))
  have hperm := propertyOrder_perm
    ((meeting engine args (visibleOpportunities d p)).foldl addToStage .empty).entries
  refine ⟨by rw [htotalSize, hsame], ⟨_, hsorted.perm, hsorted.ordered, ?_⟩,
    ⟨_, ?_, hcounted.perm hperm, ?_⟩⟩
  · rw [hrecords, hsame, ← hsorted.perm.length_eq, ← List.take_eq_take_min]
  · rw [hbyStage, stagesJson_eq]
    intro e he
    obtain ⟨o, ho, hname⟩ := (hcounted.occurs e.1).mp (List.mem_map_of_mem he)
    exact hname ▸ fun hmem => hnamed o ho (List.mem_append_left _ hmem)
  · intro hwhole
    obtain ⟨htotal, hvalue⟩ := totalValue_foldl hwhole (hexact hwhole)
    obtain ⟨hfinite, hround⟩ := htotal.round
    refine ⟨_, htotalValue, ?_, ?_⟩
    · rwa [hsame]
    · rw [hsame, hround, hvalue, (hperm.map fun e => e.2.value.value).sum_eq,
        (stageValues hwhole (hexact hwhole)).2]

end

/-- Whatever earlier calls have left on `Object.prototype`, the call returns a result that honours
the filters if and only if the handler applies them, as far as no sum of integers is rounded. -/
theorem listOpportunities_honours (engine : Engine) (sorter : Sorter) (d : Dataset)
    (hdata : ∀ o ∈ d.opportunities, IsDouble o.amount ∧ o.amount ≠ .nan)
    (p : DownstreamPrincipal) (prototype : ObjectPrototype) (arguments : List (JsString × Json))
    (args : ListArguments)
    (hargs : readArguments (js "sf.list_opportunities") arguments = some (.listOpportunities args)) :
    (∀ result prototype', listOpportunities engine sorter d p prototype args = .ok (result, prototype') →
      Honours engine args (visibleOpportunities d p) result →
        FiltersApply engine prototype args (visibleOpportunities d p)) ∧
    (FiltersApply engine prototype args (visibleOpportunities d p) →
      SumsExact (meeting engine args (visibleOpportunities d p)) →
        ∃ result, listOpportunities engine sorter d p prototype args = .ok (result, prototype) ∧
          Honours engine args (visibleOpportunities d p) result) :=
  ⟨fun _ _ => filtersApply_of_honours (minAmount_number hargs) hdata,
    honours_of_filtersApply (minAmount_number hargs) hdata⟩

def deal (stage : JsString) : OpportunityRecord where
  props :=
    [(js "Id", .string (js "006A")), (js "TenantId", .string (js "acme-corp")),
      (js "OwnerId", .string (js "usr_alice")), (js "Territory", .string (js "West")),
      (js "StageName", .string stage), (js "Amount", .number (.finite 100)),
      (js "Probability", .number (.finite 50)), (js "CloseDate", .string (js "2026-01-01"))]
  id := js "006A"
  tenantId := js "acme-corp"
  ownerId := js "usr_alice"
  territory := some (js "West")
  stageName := stage
  amount := .finite 100
  probability := .finite 50
  closeDate := js "2026-01-01"
  hasId := rfl
  hasTenantId := rfl
  hasOwnerId := rfl
  hasTerritory := rfl
  hasStageName := rfl
  hasAmount := rfl
  hasProbability := rfl
  hasCloseDate := rfl

def oneDeal (stage : JsString) : Dataset := ⟨[], [], [deal stage], []⟩

theorem deal_visible (stage : JsString) :
    visibleOpportunities (oneDeal stage) westAnalyst = [deal stage] := by
  have hvisible : isVisible (deal stage).toCrmRecord westAnalyst = true :=
    (isVisible_of_own (by unfold HoldsTeam; decide +kernel) (by unfold HoldsAll; decide +kernel)).mpr
      ⟨rfl, rfl⟩
  simp [visibleOpportunities, oneDeal, hvisible]

/-- A closing date that is none is ignored, and a stage with an inherited name has no entry. -/
theorem filters_not_honoured :
    (readArguments (js "sf.list_opportunities") [(js "closingBefore", .string (js "soon"))] =
        some (.listOpportunities { closingBefore := some (js "soon") }) ∧
      ¬ ∃ result prototype', listOpportunities plainEngine mergeSorter
          (oneDeal (js "Negotiation")) westAnalyst {} { closingBefore := some (js "soon") } =
            .ok (result, prototype') ∧
        Honours plainEngine { closingBefore := some (js "soon") }
          (visibleOpportunities (oneDeal (js "Negotiation")) westAnalyst) result) ∧
    (readArguments (js "sf.list_opportunities") [] = some (.listOpportunities {}) ∧
      ¬ ∃ result prototype', listOpportunities plainEngine mergeSorter
          (oneDeal (js "constructor")) westAnalyst {} {} = .ok (result, prototype') ∧
        Honours plainEngine {} (visibleOpportunities (oneDeal (js "constructor")) westAnalyst)
          result) := by
  refine ⟨⟨rfl, ?_⟩, rfl, ?_⟩
  · rintro ⟨result, prototype', hok, h⟩
    obtain ⟨_, -, -, htotalSize, -⟩ := listOpportunities_ok hok
    have hsize := h.totalSize
    rw [htotalSize, kept, deal_visible] at hsize
    have hkeeps : keeps plainEngine { closingBefore := some (js "soon") }
        (deal (js "Negotiation")) = true := rfl
    have hmeets : meets plainEngine { closingBefore := some (js "soon") }
        (deal (js "Negotiation")) = false := rfl
    simp [hkeeps, hmeets, meeting, natural] at hsize
  · rintro ⟨result, prototype', hok, h⟩
    obtain ⟨_, -, -, -, -, hbyStage, -⟩ := listOpportunities_ok hok
    obtain ⟨totals, hprinted, hstages, -⟩ := h.stages
    rw [hbyStage, Option.some_inj] at hprinted
    have hname : js "constructor" ∈ totals.map Prod.fst := by
      refine (hstages.occurs _).mpr ⟨deal (js "constructor"), ?_, rfl⟩
      rw [deal_visible]
      exact List.mem_filter.mpr ⟨List.mem_singleton_self _, rfl⟩
    exact (stagesJson_names hprinted hname).2 (by decide)

/-- After a call that met a stage named `__proto__`, one that meets the stage `count` throws. -/
example : (listOpportunities plainEngine mergeSorter (oneDeal (js "__proto__")) westAnalyst {} {}).map
      Prod.snd = .ok { counted := true } ∧
    Except.isOk (listOpportunities plainEngine mergeSorter (oneDeal (js "count")) westAnalyst
      { counted := true } {}) = false := ⟨rfl, rfl⟩

/-- The only opportunity is listed with its stage and its amount. -/
theorem deal_listed :
    (∀ o ∈ (oneDeal (js "Negotiation")).opportunities, IsDouble o.amount ∧ o.amount ≠ .nan) ∧
      readArguments (js "sf.list_opportunities") [] = some (.listOpportunities {}) ∧
      ∃ result, listOpportunities plainEngine mergeSorter (oneDeal (js "Negotiation")) westAnalyst
          {} {} = .ok (result, {}) ∧
        Honours plainEngine {} (visibleOpportunities (oneDeal (js "Negotiation")) westAnalyst)
          result := by
  have hdata : ∀ o ∈ (oneDeal (js "Negotiation")).opportunities,
      IsDouble o.amount ∧ o.amount ≠ .nan := by
    intro o ho
    obtain rfl := List.mem_singleton.mp ho
    exact ⟨isDouble_natural (n := 100) (by decide), JsNumber.noConfusion⟩
  have hargs : readArguments (js "sf.list_opportunities") [] = some (.listOpportunities {}) := rfl
  refine ⟨hdata, hargs, (listOpportunities_honours plainEngine mergeSorter _ hdata westAnalyst {} [] {}
    hargs).2 ?_ ?_⟩
  · rw [deal_visible]
    constructor
    · rintro o - - (⟨hstage, -⟩ | ⟨closingBefore, hclosing, -⟩)
      · cases hstage
      · cases hclosing
    · rintro o - - ⟨hopen, -⟩
      cases hopen
    · intro o ho _
      obtain rfl := List.mem_singleton.mp ho
      show js "Negotiation" ∉ ObjectPrototype.names {}
      decide
  · intro _
    rw [deal_visible]
    have hmeeting : meeting plainEngine {} [deal (js "Negotiation")] = [deal (js "Negotiation")] := rfl
    rw [hmeeting]
    norm_num [deal, JsNumber.value]

end McpGateway.Salesforce
