import McpGateway.RateLimit.Available
import McpGateway.RateLimit.Service

/-!
# What a refused call spends

A refusal by a bucket leaves the tokens of that bucket as they were. But the
caller's own bucket has been charged when the tenant's refuses, and a run of the
script that reads a clock behind the stored timestamp moves the timestamp back.
-/

namespace McpGateway.RateLimit

open Js Keyed

def KeepsPace (config : BucketConfig) (now : ℚ) (bucket : Option Bucket) : Prop :=
  ∀ b ∈ bucket, b.ts ≤ now ∨ config.rate = 0 ∨ (config.capacity : ℚ) ≤ b.tokens

theorem written_back_iff (config : BucketConfig) (now : ℚ) (bucket : Option Bucket) :
    (∀ t ≥ now, available config t (some ⟨available config now bucket, now⟩) =
        available config t bucket) ↔ KeepsPace config now bucket := by
  have hrate := rate_nonneg config
  cases bucket with
  | none =>
    refine ⟨fun _ b hb => (nomatch hb), fun _ t ht => ?_⟩
    have hinflow := mul_nonneg hrate (le_max_left 0 (t - now))
    rw [available_none, available_none, available_some]
    exact min_eq_left (by linarith)
  | some b =>
    simp only [KeepsPace, Option.mem_some_iff, forall_eq']
    constructor
    · intro hall
      by_contra hnot
      simp only [not_or, not_le] at hnot
      obtain ⟨hts, hne, htokens⟩ := hnot
      have hpos : 0 < config.rate := lt_of_le_of_ne hrate (Ne.symm hne)
      -- at the stored timestamp the bucket would not have been refilled yet
      have hback := hall b.ts hts.le
      simp only [available_some, sub_self, max_self, mul_zero, add_zero,
        max_eq_left (sub_nonpos.mpr hts.le), max_eq_right (sub_nonneg.mpr hts.le),
        min_eq_right htokens.le] at hback
      have hgain : 0 < config.rate * (b.ts - now) := mul_pos hpos (sub_pos.mpr hts)
      rcases min_choice (config.capacity : ℚ) (b.tokens + config.rate * (b.ts - now)) with h | h <;>
        linarith
    · intro hpace t ht
      simp only [available_some, max_eq_right (sub_nonneg.mpr ht)]
      have hinflow : 0 ≤ config.rate * (t - now) := mul_nonneg hrate (sub_nonneg.mpr ht)
      rcases hpace with hts | hzero | hfull
      · rw [max_eq_right (sub_nonneg.mpr hts), max_eq_right (sub_nonneg.mpr (hts.trans ht))]
        have hsplit : config.rate * (t - b.ts) =
            config.rate * (now - b.ts) + config.rate * (t - now) := by ring
        rcases min_cases (config.capacity : ℚ) (b.tokens + config.rate * (now - b.ts)) with
          ⟨h, hle⟩ | ⟨h, hlt⟩
        · rw [h, min_eq_left (by linarith), min_eq_left (by linarith)]
        · rw [h, hsplit, add_assoc]
      · simp [hzero]
      · have hnow := mul_nonneg hrate (le_max_left 0 (now - b.ts))
        have hlater := mul_nonneg hrate (le_max_left 0 (t - b.ts))
        rw [min_eq_left (by linarith : (config.capacity : ℚ) ≤ b.tokens + _), min_eq_left (by linarith),
          min_eq_left (by linarith)]

/-- What was found at a reading less what was charged, stored with that reading. -/
theorem charged_iff (config : BucketConfig) (now cost : ℚ) (bucket : Option Bucket) :
    (∀ t ≥ now, available config t (some ⟨available config now bucket - cost, now⟩) =
        available config t bucket) ↔
      (cost = 0 ∧ KeepsPace config now bucket) ∨
        (cost < 0 ∧ available config now bucket = config.capacity) := by
  have hle := available_le config now bucket
  rcases lt_trichotomy cost 0 with hneg | rfl | hpos
  · have hnow : available config now (some ⟨available config now bucket - cost, now⟩) =
        min (config.capacity : ℚ) (available config now bucket - cost) := by
      simp [available_some]
    constructor
    · intro hall
      refine .inr ⟨hneg, ?_⟩
      have heq := hall now (le_refl _)
      rw [hnow] at heq
      rcases min_choice (config.capacity : ℚ) (available config now bucket - cost) with h | h <;>
        linarith
    · rintro (⟨hzero, -⟩ | ⟨-, hfull⟩) t ht
      · exact absurd hzero hneg.ne
      · have hinflow := mul_nonneg (rate_nonneg config) (le_max_left 0 (t - now))
        have hkept : available config now bucket ≤ available config t bucket :=
          available_mono ht bucket
        rw [hfull] at hkept ⊢
        rw [available_some, min_eq_left (by linarith)]
        exact le_antisymm hkept (available_le config t bucket)
  · simp [written_back_iff]
  · constructor
    · intro hall
      have heq := hall now (le_refl _)
      simp only [available_some, sub_self, max_self, mul_zero, add_zero] at heq
      have hless := min_le_right (config.capacity : ℚ) (available config now bucket - cost)
      linarith
    · rintro (⟨hzero, -⟩ | ⟨hneg, -⟩) <;> linarith

-- ---------------------------------------------------------------------------
-- A check
-- ---------------------------------------------------------------------------

theorem scopes_apart (request : RateLimitRequest) :
    bucketKey request.userScope ≠ bucketKey request.tenantScope := by
  have hshape (x : JsString) : js "\x7d:u:" ++ x ≠ js "\x7d:t" := by
    intro hx
    exact absurd (List.cons.inj (List.cons.inj (List.cons.inj hx).2).2).1 (by decide)
  intro h
  simp only [bucketKey, RateLimitRequest.userScope, RateLimitRequest.tenantScope, List.append_assoc,
    List.append_cancel_left_eq] at h
  exact hshape _ h

section
variable (limits : ResolvedLimits) (request : RateLimitRequest) (userAt tenantAt : Reading)
  (keys : Keyspace)

def userBucket : Option Bucket := live userAt.time (keys (bucketKey request.userScope))

def tenantBucket : Option Bucket := live tenantAt.time (keys (bucketKey request.tenantScope))

/-- After a refusal both buckets hold, from the reading of the check on, what they
would hold without it. -/
def SpendsNothing : Prop :=
  (checkLimits limits request userAt tenantAt keys).2.allowed = false →
    (∀ t ≥ userAt.clock,
      available limits.userTool t
          (userBucket request userAt (checkLimits limits request userAt tenantAt keys).1) =
        available limits.userTool t (userBucket request userAt keys)) ∧
    ∀ t ≥ tenantAt.clock,
      available limits.tenant t
          (tenantBucket request tenantAt (checkLimits limits request userAt tenantAt keys).1) =
        available limits.tenant t (tenantBucket request tenantAt keys)

/-- The caller's bucket refuses; or the tenant's does after the caller's was charged
nothing, or was full and is given tokens. No run turns the clock back on a bucket
that refills and is not full. -/
def RefusedForFree : Prop :=
  let cost := request.cost.getD 1
  let user := userBucket request userAt keys
  let tenant := tenantBucket request tenantAt keys
  if available limits.userTool userAt.clock user < cost then
    KeepsPace limits.userTool userAt.clock user
  else if available limits.tenant tenantAt.clock tenant < cost then
    ((cost = 0 ∧ KeepsPace limits.userTool userAt.clock user) ∨
      (cost < 0 ∧ available limits.userTool userAt.clock user = limits.userTool.capacity)) ∧
    KeepsPace limits.tenant tenantAt.clock tenant
  else True

end

section
variable {request : RateLimitRequest} {userAt : Reading} {keys : Keyspace}

theorem check_user_refuses (limits : ResolvedLimits) (tenantAt : Reading)
    (h : available limits.userTool userAt.clock (userBucket request userAt keys) <
      request.cost.getD 1) :
    (checkLimits limits request userAt tenantAt keys).2.allowed = false ∧
      userBucket request userAt (checkLimits limits request userAt tenantAt keys).1 =
        some ⟨available limits.userTool userAt.clock (userBucket request userAt keys),
          userAt.clock⟩ ∧
      tenantBucket request tenantAt (checkLimits limits request userAt tenantAt keys).1 =
        tenantBucket request tenantAt keys := by
  let user := request.charge request.userScope limits.userTool userAt
  have hrefused : (user.act (keys user.bucketKey)).2.allowed = false :=
    Bool.eq_false_iff.mpr fun hyes => absurd ((allowed_iff user _).mp hyes) (not_le.mpr h)
  have hcheck : checkLimits limits request userAt tenantAt keys =
      (next TimedCall.bucketKey TimedCall.act keys user,
        ⟨false, (user.act (keys user.bucketKey)).2, [(user.act (keys user.bucketKey)).2]⟩) := by
    have hbranch : (!(user.act (keys user.bucketKey)).2.allowed) = true := by rw [hrefused]; rfl
    exact if_pos hbranch
  have hstored := live_act user (keys user.bucketKey)
  rw [hrefused, if_neg Bool.false_ne_true] at hstored
  rw [hcheck]
  have huserSlot : next TimedCall.bucketKey TimedCall.act keys user user.bucketKey =
      (user.act (keys user.bucketKey)).1 := next_self keys user
  have htenantSlot : next TimedCall.bucketKey TimedCall.act keys user
      (bucketKey request.tenantScope) = keys (bucketKey request.tenantScope) :=
    next_of_ne keys (scopes_apart request)
  exact ⟨rfl, (congrArg (live userAt.time) huserSlot).trans hstored,
    congrArg (live tenantAt.time) htenantSlot⟩

theorem check_tenant_decides (limits : ResolvedLimits) (tenantAt : Reading)
    (h : request.cost.getD 1 ≤
      available limits.userTool userAt.clock (userBucket request userAt keys)) :
    ((checkLimits limits request userAt tenantAt keys).2.allowed = false ↔
      available limits.tenant tenantAt.clock (tenantBucket request tenantAt keys) <
        request.cost.getD 1) ∧
      userBucket request userAt (checkLimits limits request userAt tenantAt keys).1 =
        some ⟨available limits.userTool userAt.clock (userBucket request userAt keys) -
          request.cost.getD 1, userAt.clock⟩ ∧
      ((checkLimits limits request userAt tenantAt keys).2.allowed = false →
        tenantBucket request tenantAt (checkLimits limits request userAt tenantAt keys).1 =
          some ⟨available limits.tenant tenantAt.clock (tenantBucket request tenantAt keys),
            tenantAt.clock⟩) := by
  let user := request.charge request.userScope limits.userTool userAt
  let tenant := request.charge request.tenantScope limits.tenant tenantAt
  have hadmitted : (user.act (keys user.bucketKey)).2.allowed = true :=
    (allowed_iff user _).mpr h
  let charged := next TimedCall.bucketKey TimedCall.act keys user
  have htenantSlot : charged tenant.bucketKey = keys tenant.bucketKey :=
    next_of_ne keys (scopes_apart request)
  have hcheck : (checkLimits limits request userAt tenantAt keys).1 =
        next TimedCall.bucketKey TimedCall.act charged tenant ∧
      (checkLimits limits request userAt tenantAt keys).2.allowed =
        (tenant.act (keys tenant.bucketKey)).2.allowed := by
    have hbranch : ¬ (!(user.act (keys user.bucketKey)).2.allowed) = true := by simp [hadmitted]
    have hcheck : checkLimits limits request userAt tenantAt keys =
        (next TimedCall.bucketKey TimedCall.act charged tenant,
          ⟨(tenant.act (charged tenant.bucketKey)).2.allowed, _, _⟩) := if_neg hbranch
    rw [hcheck, htenantSlot]
    exact ⟨rfl, rfl⟩
  have hdecides := allowed_iff tenant (keys tenant.bucketKey)
  have huser := live_act user (keys user.bucketKey)
  have htenant := live_act tenant (keys tenant.bucketKey)
  rw [if_pos hadmitted] at huser
  rw [hcheck.1, hcheck.2]
  refine ⟨?_, ?_, fun hrefused => ?_⟩
  · rw [← not_le, ← Bool.not_eq_true, hdecides]
    rfl
  · have hkept : next TimedCall.bucketKey TimedCall.act charged tenant
        (bucketKey request.userScope) = charged (bucketKey request.userScope) :=
      next_of_ne charged (scopes_apart request).symm
    have hself : charged (bucketKey request.userScope) = (user.act (keys user.bucketKey)).1 :=
      next_self keys user
    exact (congrArg (live userAt.time) (hkept.trans hself)).trans huser
  · rw [if_neg (by simpa using hrefused)] at htenant
    have hself : next TimedCall.bucketKey TimedCall.act charged tenant tenant.bucketKey =
        (tenant.act (charged tenant.bucketKey)).1 := next_self charged tenant
    rw [htenantSlot] at hself
    exact (congrArg (live tenantAt.time) hself).trans htenant

end

/-- Exactly when a refused check spends nothing. -/
theorem spends_nothing_iff (limits : ResolvedLimits) (request : RateLimitRequest)
    (userAt tenantAt : Reading) (keys : Keyspace) :
    SpendsNothing limits request userAt tenantAt keys ↔
      RefusedForFree limits request userAt tenantAt keys := by
  unfold SpendsNothing RefusedForFree
  by_cases huser : available limits.userTool userAt.clock (userBucket request userAt keys) <
      request.cost.getD 1
  · obtain ⟨hrefused, hbucket, htenant⟩ := check_user_refuses limits tenantAt huser
    simp [hrefused, hbucket, htenant, huser, written_back_iff]
  · obtain ⟨hdecides, hbucket, htenant⟩ :=
      check_tenant_decides limits tenantAt (not_lt.mp huser)
    by_cases hrefused : available limits.tenant tenantAt.clock
        (tenantBucket request tenantAt keys) < request.cost.getD 1
    · simp [hdecides.mpr hrefused, htenant (hdecides.mpr hrefused), hbucket, huser, hrefused,
        charged_iff, written_back_iff]
    · simp [hdecides, huser, hrefused]

def spentTenant (request : RateLimitRequest) : Keyspace :=
  fun key => if key = bucketKey request.tenantScope then some ⟨⟨0, 1000⟩, 61000⟩ else none

/-- The tenant's bucket refuses, and the caller is left with nine tokens of ten. -/
theorem refusal_charges_caller :
    ¬ ∀ (limits : ResolvedLimits) (request : RateLimitRequest) (userAt tenantAt : Reading)
      (keys : Keyspace), SpendsNothing limits request userAt tenantAt keys := by
  intro hclaim
  let limits : ResolvedLimits := ⟨⟨1, 1, 60000, none⟩, ⟨10, 10, 60000, none⟩⟩
  let request : RateLimitRequest := ⟨js "acme-corp", js "usr_alice", js "sf.query", none, none⟩
  let reading : Reading := ⟨none, ⟨1, 0⟩⟩
  have hrefused : (checkLimits limits request reading reading (spentTenant request)).2.allowed =
      false := by decide +kernel
  obtain ⟨huser, -⟩ := hclaim limits request reading reading (spentTenant request) hrefused
  have hnow := huser 1000 (by decide +kernel)
  revert hnow
  decide +kernel

end McpGateway.RateLimit
