import GameLauncher.Catalog.Database

/-!
# The placement planner

`planWithPools` decides at which storage providers a chunk or a pack is stored. For each storage
class it walks through the candidate pools in order of preference and selects eligible ones until
the preferred number of replicas and the required number of failure domains are reached; the plan
then says whether the policy is satisfied by the existing replicas and the selected ones.

`hot_action_of_satisfied` is what publication relies on: without existing replicas, a satisfied plan
of a policy that needs a HOT replica uploads to a HOT provider.

Replica counts are natural numbers.
-/

set_option autoImplicit false

namespace GameLauncher.Placement

open Foundation Fallible Catalog

/-! ### Policies -/

/-- A storage policy together with the numbers of replicas it prefers. -/
structure PlacementPolicy extends StoragePolicy where
  preferredHotReplicas : ℕ
  preferredColdReplicas : ℕ
  preferredArchiveReplicas : ℕ
  deriving DecidableEq, Repr

def PlacementPolicy.preferredReplicas (policy : PlacementPolicy) : StorageClass → ℕ
  | .hot => policy.preferredHotReplicas
  | .cold => max policy.preferredColdReplicas (if policy.coldBackupRequired then 1 else 0)
  | .archive => policy.preferredArchiveReplicas

/-- `StorageClass::as_str`. -/
def className : StorageClass → Text
  | .hot => "HOT"
  | .cold => "COLD"
  | .archive => "ARCHIVE"

/-- A rejected configuration. -/
inductive StorageError
  | configuration (message : Text)
  deriving DecidableEq, Repr

def checkFailureDomains (storageClass : StorageClass) (replicas domains : ℕ) :
    Except StorageError Unit :=
  throwIf (replicas < domains) (.configuration (className storageClass ++
    " failure-domain requirement " ++ (Nat.repr domains).toList ++
    " exceeds replica requirement " ++ (Nat.repr replicas).toList))

/-- `StoragePolicy::validate`. -/
def PlacementPolicy.validate (policy : PlacementPolicy) : Except StorageError Unit := do
  throwIf (policy.minVerifiedHotReplicas = 0)
    (.configuration "at least one verified hot replica is required")
  throwIf (policy.preferredHotReplicas < policy.minVerifiedHotReplicas ∨
      policy.preferredColdReplicas < policy.minVerifiedColdReplicas ∨
      policy.preferredArchiveReplicas < policy.minVerifiedArchiveReplicas)
    (.configuration "preferred replica counts cannot be below minimum counts")
  throwIf (policy.coldBackupRequired = true ∧ policy.minVerifiedColdReplicas = 0)
    (.configuration "cold backup required must have at least one cold replica")
  checkFailureDomains .hot policy.minVerifiedHotReplicas policy.minHotFailureDomains
  checkFailureDomains .cold policy.minVerifiedColdReplicas policy.minColdFailureDomains
  checkFailureDomains .archive policy.minVerifiedArchiveReplicas policy.minArchiveFailureDomains

variable {policy : PlacementPolicy}

theorem one_le_hot_of_validate (h : policy.validate = .ok ()) :
    1 ≤ policy.requiredReplicas .hot := by
  simp only [PlacementPolicy.validate, bind_eq_ok, throwIf_eq_ok] at h
  obtain ⟨-, hhot, -⟩ := h
  exact Nat.one_le_iff_ne_zero.mpr hhot

/-! ### Pools -/

inductive PoolStatus
  | ready
  | degraded
  | needsCapacity
  | unavailable
  | disabled
  deriving DecidableEq, Repr

/-- A pool in which a provider can store an object. -/
structure PoolCandidate where
  poolId : Text
  providerId : Text
  storageClass : StorageClass
  priority : ℤ
  failureDomain : Text
  enabled : Bool
  status : PoolStatus
  healthy : Bool
  capacityAvailableBytes : Option ℕ
  deriving DecidableEq, Repr

structure ExistingReplica where
  providerId : Text
  poolId : Text
  storageClass : StorageClass
  failureDomain : Text
  deriving DecidableEq, Repr

/-- An upload that a plan asks for. -/
structure PlacementAction where
  providerId : Text
  tier : StorageClass
  poolId : Text
  failureDomain : Text
  priority : ℤ
  reason : Text
  deriving DecidableEq, Repr

/-- A configured pool of a registry. -/
structure StoragePool where
  id : Text
  storageClass : StorageClass
  priority : ℤ
  failureDomain : Text
  enabled : Bool
  status : PoolStatus
  deriving DecidableEq, Repr

/-- A provider of a registry: the answer of its health check, and whether it serves direct
downloads. -/
structure ProviderHealth where
  providerId : Text
  healthCheck : Bool
  directDownload : Bool
  deriving DecidableEq, Repr

/-- `placement_pools`: every provider with its pool, which is looked up by the id of the
provider. -/
def placementPools (providers : List ProviderHealth) (poolForProvider : Text → Option StoragePool) :
    List PoolCandidate :=
  providers.filterMap fun provider ↦
    (poolForProvider provider.providerId).map fun pool ↦
      let healthy := provider.healthCheck && (pool.storageClass != .hot || provider.directDownload)
      { poolId := pool.id
        providerId := provider.providerId
        storageClass := pool.storageClass
        priority := pool.priority
        failureDomain := pool.failureDomain
        enabled := pool.enabled
        status := if !pool.enabled then .disabled else if healthy then pool.status else .unavailable
        healthy
        capacityAvailableBytes := none }

theorem storageClass_of_placementPools {providers : List ProviderHealth}
    {poolForProvider : Text → Option StoragePool} {first second : PoolCandidate}
    (hfirst : first ∈ placementPools providers poolForProvider)
    (hsecond : second ∈ placementPools providers poolForProvider)
    (h : first.providerId = second.providerId) : first.storageClass = second.storageClass := by
  simp only [placementPools, List.mem_filterMap, Option.map_eq_some_iff] at hfirst hsecond
  obtain ⟨one, -, onePool, hone, rfl⟩ := hfirst
  obtain ⟨two, -, twoPool, htwo, rfl⟩ := hsecond
  rw [show one.providerId = two.providerId from h, htwo] at hone
  rw [Option.some.inj hone]

/-! ### The planner -/

/-- What the planner has selected in one class. -/
structure Selection where
  actions : List PlacementAction
  projected : ℕ
  projectedDomains : ℕ
  domains : List Text
  selectedProviders : List Text
  deriving DecidableEq, Repr

/-- The numbers wanted of a class are reached. -/
def Selection.enough (selection : Selection) (desired desiredDomains : ℕ) : Bool :=
  desired ≤ selection.projected && desiredDomains ≤ selection.projectedDomains

def PoolCandidate.action (candidate : PoolCandidate) : PlacementAction where
  providerId := candidate.providerId
  tier := candidate.storageClass
  poolId := candidate.poolId
  failureDomain := candidate.failureDomain
  priority := candidate.priority
  reason := "satisfy " ++ className candidate.storageClass ++
    " replica policy in pool " ++ candidate.poolId ++ " (priority " ++
    (Int.repr candidate.priority).toList ++ ")"

def Selection.add (selection : Selection) (candidate : PoolCandidate) : Selection where
  actions := selection.actions ++ [candidate.action]
  projected := selection.projected + 1
  projectedDomains := selection.projectedDomains +
    if candidate.failureDomain ∈ selection.domains then 0 else 1
  domains := selection.domains.insert candidate.failureDomain
  selectedProviders := selection.selectedProviders.insert candidate.providerId

/-- The candidate may take another replica of an object. -/
def PoolCandidate.eligible (candidate : PoolCandidate) (encodedSize : ℕ)
    (takenProviders : List Text) : Bool :=
  candidate.enabled && candidate.healthy && candidate.status != .disabled &&
    candidate.status != .unavailable && candidate.status != .needsCapacity &&
    !takenProviders.contains candidate.providerId &&
    !candidate.capacityAvailableBytes.any fun available ↦ available < encodedSize

/-- The loop over the candidates of a class. -/
def selectCandidates (encodedSize desired desiredDomains : ℕ) :
    List PoolCandidate → Selection → Selection
  | [], selection => selection
  | candidate :: rest, selection =>
    if selection.enough desired desiredDomains ||
        !candidate.eligible encodedSize selection.selectedProviders then
      selectCandidates encodedSize desired desiredDomains rest selection
    else
      let selection := selection.add candidate
      if selection.enough desired desiredDomains then selection
      else selectCandidates encodedSize desired desiredDomains rest selection

def existingDomains (existingReplicas : List ExistingReplica) (storageClass : StorageClass) :
    List Text :=
  ((existingReplicas.filter fun replica ↦ replica.storageClass == storageClass).map
    ExistingReplica.failureDomain).dedup

/-- The rank of a class in the order of the candidates. -/
def classRank : StorageClass → ℕ
  | .hot => 0
  | .cold => 1
  | .archive => 2

/-- The order of preference: by class, new failure domains first, then by priority and by the
identifiers. -/
def preferred (existingReplicas : List ExistingReplica) (left right : PoolCandidate) : Bool :=
  let seen (candidate : PoolCandidate) : ℕ :=
    if candidate.failureDomain ∈ existingDomains existingReplicas candidate.storageClass then 1
    else 0
  let key (candidate : PoolCandidate) : List ℤ :=
    [classRank candidate.storageClass, seen candidate, candidate.priority]
  key left < key right || (key left == key right &&
      decide ([left.poolId, left.providerId] ≤ [right.poolId, right.providerId]))

/-- The uploads planned for one class. -/
def planClass (policy : PlacementPolicy) (encodedSize : ℕ)
    (existingReplicas : List ExistingReplica) (candidates : List PoolCandidate)
    (storageClass : StorageClass) : List PlacementAction :=
  let domains := existingDomains existingReplicas storageClass
  (selectCandidates encodedSize (policy.preferredReplicas storageClass)
    (policy.requiredFailureDomains storageClass)
    (candidates.filter fun candidate ↦ candidate.storageClass == storageClass)
    { actions := []
      projected := existingReplicas.countP fun replica ↦ replica.storageClass == storageClass
      projectedDomains := domains.length
      domains
      selectedProviders := existingReplicas.map ExistingReplica.providerId }).actions

/-- A placement plan: its uploads, and for each class what exists, what they lead to and what is
required. -/
structure PlacementPlan where
  actions : List PlacementAction
  existingReplicas : StorageClass → ℕ
  existingFailureDomains : StorageClass → ℕ
  projectedReplicas : StorageClass → ℕ
  projectedFailureDomains : StorageClass → ℕ
  requiredReplicas : StorageClass → ℕ
  requiredFailureDomains : StorageClass → ℕ
  policySatisfied : Bool
  explanation : Text

/-- The numbers reached and required in one class, as the explanation of a plan shows them. -/
def explainClass (policy : PlacementPolicy) (projected projectedDomains : StorageClass → ℕ)
    (storageClass : StorageClass) : Text :=
  className storageClass ++ " " ++ (Nat.repr (projected storageClass)).toList ++
    "/" ++ (Nat.repr (policy.requiredReplicas storageClass)).toList ++
    " replicas and " ++ (Nat.repr (projectedDomains storageClass)).toList ++
    "/" ++ (Nat.repr (policy.requiredFailureDomains storageClass)).toList ++
    " failure domains"

def planWithPools (policy : PlacementPolicy) (encodedSize : ℕ)
    (existingReplicas : List ExistingReplica) (pools : List PoolCandidate) : PlacementPlan :=
  let candidates := pools.insertionSort fun left right ↦ preferred existingReplicas left right
  let actions := [StorageClass.hot, .cold, .archive].flatMap
    (planClass policy encodedSize existingReplicas candidates)
  let projected (storageClass : StorageClass) : ℕ :=
    (existingReplicas.countP fun replica ↦ replica.storageClass == storageClass) +
      actions.countP fun action ↦ action.tier == storageClass
  let projectedDomains (storageClass : StorageClass) : ℕ :=
    (((existingReplicas.filter fun replica ↦ replica.storageClass == storageClass).map
        ExistingReplica.failureDomain) ++
      (actions.filter fun action ↦ action.tier == storageClass).map
        PlacementAction.failureDomain).dedup.length
  let classSatisfied (storageClass : StorageClass) : Bool :=
    policy.requiredReplicas storageClass ≤ projected storageClass &&
      policy.requiredFailureDomains storageClass ≤ projectedDomains storageClass
  { actions
    existingReplicas := fun storageClass ↦
      existingReplicas.countP fun replica ↦ replica.storageClass == storageClass
    existingFailureDomains := fun storageClass ↦
      (existingDomains existingReplicas storageClass).length
    projectedReplicas := projected
    projectedFailureDomains := projectedDomains
    requiredReplicas := policy.requiredReplicas
    requiredFailureDomains := policy.requiredFailureDomains
    policySatisfied := [StorageClass.hot, .cold, .archive].all classSatisfied
    explanation :=
      if [StorageClass.hot, .cold, .archive].all classSatisfied then
        "storage policy satisfied"
      else
        "; ".toList.intercalate (([StorageClass.hot, .cold, .archive].filter fun storageClass ↦
          !classSatisfied storageClass).map (explainClass policy projected projectedDomains)) }

/-! ### What a plan uploads -/

variable {encodedSize : ℕ}

theorem hot_action_of_satisfied {pools : List PoolCandidate}
    (hpolicy : 1 ≤ policy.requiredReplicas .hot)
    (h : (planWithPools policy encodedSize [] pools).policySatisfied = true) :
    ∃ action ∈ (planWithPools policy encodedSize [] pools).actions, action.tier = .hot := by
  have hhot := List.all_eq_true.mp h .hot List.mem_cons_self
  have hcount : policy.requiredReplicas .hot ≤ 0 +
      (planWithPools policy encodedSize [] pools).actions.countP fun action ↦ action.tier == .hot :=
    of_decide_eq_true (Bool.and_eq_true_iff.mp hhot).1
  rw [Nat.zero_add] at hcount
  have hpositive := hpolicy.trans hcount
  obtain ⟨action, haction, htier⟩ := List.countP_pos_iff.mp hpositive
  exact ⟨action, haction, beq_iff_eq.mp htier⟩

theorem selectCandidates_spec (encodedSize desired desiredDomains : ℕ)
    (candidates : List PoolCandidate) (selection : Selection)
    (hnodup : (selection.actions.map PlacementAction.providerId).Nodup)
    (htaken : ∀ action ∈ selection.actions, action.providerId ∈ selection.selectedProviders) :
    let result := selectCandidates encodedSize desired desiredDomains candidates selection
    (result.actions.map PlacementAction.providerId).Nodup ∧
      ∀ action ∈ result.actions, action ∈ selection.actions ∨
        ∃ candidate ∈ candidates, action.providerId = candidate.providerId ∧
          action.tier = candidate.storageClass := by
  induction candidates generalizing selection with
  | nil => exact ⟨hnodup, fun action haction ↦ .inl haction⟩
  | cons candidate rest ih =>
    unfold selectCandidates
    by_cases hskip : (selection.enough desired desiredDomains ||
        !candidate.eligible encodedSize selection.selectedProviders) = true
    · rw [if_pos hskip]
      obtain ⟨hactions, hfrom⟩ := ih selection hnodup htaken
      refine ⟨hactions, fun action haction ↦ (hfrom action haction).imp_right ?_⟩
      rintro ⟨other, hother, hsame⟩
      exact ⟨other, List.mem_cons_of_mem _ hother, hsame⟩
    · rw [if_neg hskip]
      have heligible : candidate.providerId ∉ selection.selectedProviders := by
        simp only [Bool.or_eq_true, not_or, PoolCandidate.eligible, Bool.not_eq_true',
          Bool.not_eq_false, Bool.and_eq_true] at hskip
        simpa using hskip.2.1.2
      have hnext : ((selection.add candidate).actions.map PlacementAction.providerId).Nodup := by
        rw [Selection.add, List.map_append, List.nodup_append]
        refine ⟨hnodup, List.nodup_singleton _, fun taken htakenMem other hother heq ↦ ?_⟩
        obtain ⟨action, haction, rfl⟩ := List.mem_map.mp htakenMem
        rw [List.map_singleton, List.mem_singleton] at hother
        have hsame : action.providerId = candidate.providerId := heq.trans hother
        exact heligible (hsame ▸ htaken action haction)
      have hnextTaken : ∀ action ∈ (selection.add candidate).actions,
          action.providerId ∈ (selection.add candidate).selectedProviders := by
        intro action haction
        rcases List.mem_append.mp haction with hold | hnew
        · exact List.mem_insert_of_mem (htaken action hold)
        · rw [List.mem_singleton.mp hnew]
          exact List.mem_insert_self
      have hadded : ∀ action ∈ (selection.add candidate).actions, action ∈ selection.actions ∨
          ∃ other ∈ candidate :: rest, action.providerId = other.providerId ∧
            action.tier = other.storageClass := by
        intro action haction
        rcases List.mem_append.mp haction with hold | hnew
        · exact .inl hold
        · rw [List.mem_singleton.mp hnew]
          exact .inr ⟨candidate, List.mem_cons_self, rfl, rfl⟩
      by_cases henough : (selection.add candidate).enough desired desiredDomains = true
      · simp only [henough, if_true]
        exact ⟨hnext, hadded⟩
      · simp only [henough]
        obtain ⟨hactions, hfrom⟩ := ih (selection.add candidate) hnext hnextTaken
        refine ⟨hactions, fun action haction ↦ ?_⟩
        rcases hfrom action haction with hsel | ⟨other, hother, hsame⟩
        · exact hadded action hsel
        · exact .inr ⟨other, List.mem_cons_of_mem _ hother, hsame⟩

theorem planClass_spec {existingReplicas : List ExistingReplica} {candidates : List PoolCandidate}
    {storageClass : StorageClass} :
    ((planClass policy encodedSize existingReplicas candidates storageClass).map
        PlacementAction.providerId).Nodup ∧
      ∀ action ∈ planClass policy encodedSize existingReplicas candidates storageClass,
        action.tier = storageClass ∧ ∃ candidate ∈ candidates,
          action.providerId = candidate.providerId ∧ candidate.storageClass = storageClass := by
  have hspec := selectCandidates_spec encodedSize (policy.preferredReplicas storageClass)
    (policy.requiredFailureDomains storageClass)
    (candidates.filter fun candidate ↦ candidate.storageClass == storageClass)
    ⟨[], existingReplicas.countP fun replica ↦ replica.storageClass == storageClass,
      (existingDomains existingReplicas storageClass).length,
      existingDomains existingReplicas storageClass,
      existingReplicas.map ExistingReplica.providerId⟩ List.nodup_nil
    fun action haction ↦ absurd haction List.not_mem_nil
  refine ⟨hspec.1, fun action haction ↦ ?_⟩
  rcases hspec.2 action haction with hnone | ⟨candidate, hcandidate, hprovider, htier⟩
  · exact absurd hnone List.not_mem_nil
  · obtain ⟨hmem, hclass⟩ := List.mem_filter.mp hcandidate
    exact ⟨htier.trans (beq_iff_eq.mp hclass), candidate, hmem, hprovider, beq_iff_eq.mp hclass⟩

theorem actions_provider_nodup {existingReplicas : List ExistingReplica}
    {pools : List PoolCandidate}
    (hpools : ∀ first ∈ pools, ∀ second ∈ pools, first.providerId = second.providerId →
      first.storageClass = second.storageClass) :
    ((planWithPools policy encodedSize existingReplicas pools).actions.map
      PlacementAction.providerId).Nodup := by
  unfold planWithPools
  simp only [List.map_flatMap]
  rw [List.nodup_flatMap]
  refine ⟨fun storageClass _ ↦ planClass_spec.1, ?_⟩
  have hclasses : [StorageClass.hot, .cold, .archive].Pairwise fun first second ↦
      first ≠ second := by decide
  refine hclasses.imp fun hne ↦ ?_
  intro providerId hfirst hsecond
  obtain ⟨one, hone, rfl⟩ := List.mem_map.mp hfirst
  obtain ⟨two, htwo, hsame⟩ := List.mem_map.mp hsecond
  obtain ⟨-, first, hfirstMem, hfirstId, hfirstClass⟩ := planClass_spec.2 one hone
  obtain ⟨-, second, hsecondMem, hsecondId, hsecondClass⟩ := planClass_spec.2 two htwo
  rw [List.mem_insertionSort] at hfirstMem hsecondMem
  refine hne (hfirstClass.symm.trans ((hpools first hfirstMem second hsecondMem ?_).trans
    hsecondClass))
  rw [← hfirstId, ← hsecondId, hsame]

end GameLauncher.Placement
