import McpGateway.Salesforce.Dataset

/-!
# What a wider token reaches

Each scope is documented to add records to the ones before it. The level of a
principal is its strongest scope alone, and the level of the team asks for the
territory only: of the records that a member of a team owns, it shows those in
the territory of the token.
-/

namespace McpGateway.Salesforce

open Js McpGateway.Runtime

def withScopes (p : DownstreamPrincipal) (added : List JsString) : DownstreamPrincipal :=
  { p with scopes := p.scopes ++ added }

def HoldsTeam (p : DownstreamPrincipal) : Prop := js "salesforce:read.team" ∈ p.scopes

def HoldsAll (p : DownstreamPrincipal) : Prop := js "salesforce:read.all" ∈ p.scopes

def Owns (p : DownstreamPrincipal) (record : CrmRecord) : Prop :=
  record.tenantId = p.tenantId ∧ record.ownerId = p.subject

def InTerritory (p : DownstreamPrincipal) (record : CrmRecord) : Prop :=
  p.territory ≠ none ∧ record.territory = p.territory

/-- More scopes do not hide the record, and a member of a team sees it if it is the member's. -/
def NeverHidden (p : DownstreamPrincipal) (added : List JsString) (record : CrmRecord) : Prop :=
  (isVisible record p = true → isVisible record (withScopes p added) = true) ∧
    (HoldsTeam p → Owns p record → isVisible record p = true)

/-- Of the two tokens one has the scope of the team and not that of the tenant. -/
def TeamAtMost (p : DownstreamPrincipal) (added : List JsString) : Prop :=
  ∃ q ∈ [p, withScopes p added], HoldsTeam q ∧ ¬ HoldsAll q

/-- The record is the principal's, in another territory than the token's or in none. -/
def OwnedElsewhere (p : DownstreamPrincipal) (record : CrmRecord) : Prop :=
  Owns p record ∧ ¬ InTerritory p record

-- ---------------------------------------------------------------------------
-- Levels
-- ---------------------------------------------------------------------------

section
variable {p : DownstreamPrincipal} {added : List JsString} {record : CrmRecord}

theorem isVisible_of_all (h : HoldsAll p) :
    isVisible record p = true ↔ record.tenantId = p.tenantId := by
  have hlevel : visibilityFor p = .tenant := if_pos (List.contains_iff_mem.mpr h)
  simp [isVisible, hlevel]

theorem isVisible_of_team (hteam : HoldsTeam p) (hall : ¬ HoldsAll p) :
    isVisible record p = true ↔ record.tenantId = p.tenantId ∧ InTerritory p record := by
  have hlevel : visibilityFor p = .territory :=
    (if_neg (mt List.contains_iff_mem.mp hall)).trans (if_pos (List.contains_iff_mem.mpr hteam))
  simp [isVisible, hlevel, InTerritory, Option.isSome_iff_ne_none]

theorem isVisible_of_own (hteam : ¬ HoldsTeam p) (hall : ¬ HoldsAll p) :
    isVisible record p = true ↔ Owns p record := by
  have hlevel : visibilityFor p = .own :=
    (if_neg (mt List.contains_iff_mem.mp hall)).trans (if_neg (mt List.contains_iff_mem.mp hteam))
  simp [isVisible, hlevel, Owns]

theorem HoldsTeam.withScopes (h : HoldsTeam p) : HoldsTeam (withScopes p added) :=
  List.mem_append_left added h

theorem HoldsAll.withScopes (h : HoldsAll p) : HoldsAll (withScopes p added) :=
  List.mem_append_left added h

/-- Below the level of the tenant a visible record is the principal's or in the territory. -/
theorem owns_or_inTerritory (hall : ¬ HoldsAll p) (h : isVisible record p = true) :
    record.tenantId = p.tenantId ∧ (Owns p record ∨ HoldsTeam p ∧ InTerritory p record) := by
  by_cases hteam : HoldsTeam p
  · obtain ⟨htenant, hterritory⟩ := (isVisible_of_team hteam hall).mp h
    exact ⟨htenant, .inr ⟨hteam, hterritory⟩⟩
  · have howns := (isVisible_of_own hteam hall).mp h
    exact ⟨howns.1, .inl howns⟩

theorem neverHidden_of_inTerritory (h : Owns p record → InTerritory p record) :
    NeverHidden p added record := by
  constructor
  · intro hvisible
    by_cases hall' : HoldsAll (withScopes p added)
    · have htenant : record.tenantId = p.tenantId := by
        by_cases hall : HoldsAll p
        · exact (isVisible_of_all hall).mp hvisible
        · exact (owns_or_inTerritory hall hvisible).1
      exact (isVisible_of_all hall').mpr htenant
    · have hall : ¬ HoldsAll p := fun hall => hall' hall.withScopes
      obtain ⟨htenant, howns | ⟨hteam, hterritory⟩⟩ := owns_or_inTerritory hall hvisible
      · by_cases hteam' : HoldsTeam (withScopes p added)
        · exact (isVisible_of_team hteam' hall').mpr ⟨htenant, h howns⟩
        · exact (isVisible_of_own hteam' hall').mpr howns
      · exact (isVisible_of_team hteam.withScopes hall').mpr ⟨htenant, hterritory⟩
  · intro hteam howns
    by_cases hall : HoldsAll p
    · exact (isVisible_of_all hall).mpr howns.1
    · exact (isVisible_of_team hteam hall).mpr ⟨howns.1, h howns⟩

/-- Nothing is hidden unless one of the tokens stops at the level of the team. -/
theorem neverHidden_of_not_teamAtMost (h : ¬ TeamAtMost p added) :
    NeverHidden p added record := by
  have hlevel (q : DownstreamPrincipal) (hq : q ∈ [p, withScopes p added]) (hteam : HoldsTeam q) :
      HoldsAll q := by
    by_contra hall
    exact h ⟨q, hq, hteam, hall⟩
  constructor
  · intro hvisible
    by_cases hall' : HoldsAll (withScopes p added)
    · refine (isVisible_of_all hall').mpr ?_
      by_cases hall : HoldsAll p
      · exact (isVisible_of_all hall).mp hvisible
      · exact (owns_or_inTerritory hall hvisible).1
    · have hall : ¬ HoldsAll p := fun hall => hall' hall.withScopes
      have hteam' : ¬ HoldsTeam (withScopes p added) := fun hteam' =>
        hall' (hlevel _ (by simp) hteam')
      have hteam : ¬ HoldsTeam p := fun hteam => hteam' hteam.withScopes
      exact (isVisible_of_own hteam' hall').mpr ((isVisible_of_own hteam hall).mp hvisible)
  · intro hteam howns
    exact (isVisible_of_all (hlevel p (by simp) hteam)).mpr howns.1

theorem neverHidden_iff :
    NeverHidden p added record ↔ ¬ (TeamAtMost p added ∧ OwnedElsewhere p record) := by
  constructor
  · rintro ⟨hwider, hown⟩ ⟨⟨q, hq, hteam, hall⟩, howns, helsewhere⟩
    have hvisible : isVisible record q = true := by
      rcases List.mem_pair.mp hq with rfl | rfl
      · exact hown hteam howns
      · refine hwider ?_
        have hall' : ¬ HoldsAll p := fun hall' => hall hall'.withScopes
        by_cases hteam' : HoldsTeam p
        · exact hown hteam' howns
        · exact (isVisible_of_own hteam' hall').mpr howns
    have hterritory : InTerritory q record := ((isVisible_of_team hteam hall).mp hvisible).2
    rcases List.mem_pair.mp hq with rfl | rfl
    · exact helsewhere hterritory
    · exact helsewhere hterritory
  · intro h
    by_cases hlevel : TeamAtMost p added
    · exact neverHidden_of_inTerritory fun howns => by_contra fun helsewhere =>
        h ⟨hlevel, howns, helsewhere⟩
    · exact neverHidden_of_not_teamAtMost hlevel

end

-- ---------------------------------------------------------------------------
-- Datasets
-- ---------------------------------------------------------------------------

/-- The wider principal's records contain the narrower one's, and a member of a team has the
member's own among them. -/
def NothingHidden (p : DownstreamPrincipal) (added : List JsString) (dataset : Dataset)
    (object : SObjectName) : Prop :=
  (visibleRecords dataset object p).Sublist (visibleRecords dataset object (withScopes p added)) ∧
    (HoldsTeam p → ∀ record ∈ dataset.records object, Owns p record →
      record ∈ visibleRecords dataset object p)

theorem nothingHidden_iff_forall {p : DownstreamPrincipal} {added : List JsString}
    {dataset : Dataset} {object : SObjectName} :
    NothingHidden p added dataset object ↔
      ∀ record ∈ dataset.records object, NeverHidden p added record := by
  constructor
  · rintro ⟨hwider, hown⟩ record hrecord
    refine ⟨fun hvisible => ?_, fun hteam howns => ?_⟩
    · have hmem := hwider.subset (List.mem_filter.mpr ⟨hrecord, hvisible⟩)
      exact (List.mem_filter.mp hmem).2
    · exact (List.mem_filter.mp (hown hteam record hrecord howns)).2
  · intro h
    refine ⟨?_, fun hteam record hrecord howns => ?_⟩
    · have hkept : visibleRecords dataset object p =
          (visibleRecords dataset object (withScopes p added)).filter fun record =>
            isVisible record p := by
        unfold visibleRecords
        rw [List.filter_filter]
        refine List.filter_congr fun record hrecord => ?_
        have hwider := (h record hrecord).1
        grind
      rw [hkept]
      exact List.filter_sublist
    · exact List.mem_filter.mpr ⟨hrecord, (h record hrecord).2 hteam howns⟩

/-- More scopes hide nothing exactly where no token stops at the level of the team, or no record
of the principal's lies outside of its territory. -/
theorem scopes_add_reach (p : DownstreamPrincipal) (added : List JsString) :
    (∀ record, NeverHidden p added record ↔
        ¬ (TeamAtMost p added ∧ OwnedElsewhere p record)) ∧
      ∀ dataset object, NothingHidden p added dataset object ↔
        ∀ record ∈ dataset.records object, ¬ (TeamAtMost p added ∧ OwnedElsewhere p record) := by
  refine ⟨fun record => neverHidden_iff, fun dataset object => ?_⟩
  rw [nothingHidden_iff_forall]
  exact forall₂_congr fun record _ => neverHidden_iff

def westAnalyst : DownstreamPrincipal :=
  { subject := js "usr_alice", tenantId := js "acme-corp", scopes := [js "salesforce:read"]
    territory := some (js "West") }

def eastRecord : CrmRecord where
  props :=
    [(js "Id", .string (js "006000000000001")), (js "TenantId", .string (js "acme-corp")),
      (js "OwnerId", .string (js "usr_alice")), (js "Territory", .string (js "East"))]
  id := js "006000000000001"
  tenantId := js "acme-corp"
  ownerId := js "usr_alice"
  territory := some (js "East")
  hasId := rfl
  hasTenantId := rfl
  hasOwnerId := rfl
  hasTerritory := rfl

/-- The scope of the team hides the record from its owner. -/
theorem team_scope_hides_record :
    isVisible eastRecord westAnalyst = true ∧
      isVisible eastRecord (withScopes westAnalyst [js "salesforce:read.team"]) = false ∧
      Owns (withScopes westAnalyst [js "salesforce:read.team"]) eastRecord := by
  refine ⟨by decide +kernel, by decide +kernel, rfl, rfl⟩

end McpGateway.Salesforce
