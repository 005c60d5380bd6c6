import GameLauncher.Placement.ClassPlan

/-!
# Soundness and stability of placement plans

`plan_sound` says what a plan asks for and what its numbers mean: every upload goes to a usable
pool of its class at a provider without a replica, no provider is used twice in a class, the
running counters of the loop and the reported numbers are those of the existing and planned
placements, and the policy is satisfied exactly when these reach its minima.

`plan_converges` says that a plan is complete: when its uploads have been made, the same pools lead
to no further upload.
-/

set_option autoImplicit false

namespace GameLauncher.Placement

open Foundation Catalog List

/-! ### Placements -/

/-- The replica that an upload creates. -/
def PlacementAction.replica (action : PlacementAction) : ExistingReplica where
  providerId := action.providerId
  poolId := action.poolId
  storageClass := action.tier
  failureDomain := action.failureDomain

/-- The existing replicas together with those that a plan creates. -/
def placements (existingReplicas : List ExistingReplica) (plan : PlacementPlan) :
    List ExistingReplica :=
  existingReplicas ++ plan.actions.map PlacementAction.replica

def replicaCount (replicas : List ExistingReplica) (storageClass : StorageClass) : ℕ :=
  replicas.countP fun replica ↦ replica.storageClass == storageClass

variable {policy : PlacementPolicy} {encodedSize : ℕ} {existingReplicas : List ExistingReplica}
  {pools : List PoolCandidate} {storageClass : StorageClass}

theorem exists_taken (policy : PlacementPolicy) (encodedSize : ℕ)
    (existingReplicas : List ExistingReplica) (pools : List PoolCandidate)
    (storageClass : StorageClass) :
    ∃ taken rest, choices encodedSize existingReplicas (ordered existingReplicas pools)
        storageClass = taken ++ rest ∧
      (classSelection policy encodedSize existingReplicas (ordered existingReplicas pools)
        storageClass).Counts existingReplicas storageClass taken ∧
      ((planWithPools policy encodedSize existingReplicas pools).actions.filter fun action ↦
        action.tier == storageClass) = taken.map PoolCandidate.action ∧
      (rest = [] ∨ Reached policy existingReplicas storageClass taken) := by
  obtain ⟨count, hcount, hcounts, -, hend⟩ := classSelection_counts policy encodedSize
    existingReplicas (ordered existingReplicas pools) storageClass
  refine ⟨_, _, (take_append_drop count _).symm, hcounts, ?_, hend.imp_left fun hall ↦ ?_⟩
  · rw [filter_actions, planClass_eq_actions, hcounts.actions]
  · rw [hall, drop_length]

theorem filter_replicas_actions (plan : PlacementPlan) (storageClass : StorageClass) :
    ((plan.actions.map PlacementAction.replica).filter fun replica ↦
        replica.storageClass == storageClass) =
      (plan.actions.filter fun action ↦ action.tier == storageClass).map
        PlacementAction.replica := by
  rw [filter_map]
  rfl

theorem replicaCount_placements {taken : List PoolCandidate} {plan : PlacementPlan}
    (h : (plan.actions.filter fun action ↦ action.tier == storageClass) =
      taken.map PoolCandidate.action) :
    replicaCount (placements existingReplicas plan) storageClass =
      replicaCount existingReplicas storageClass + taken.length := by
  rw [replicaCount, placements, countP_append, countP_eq_length_filter
    (l := plan.actions.map PlacementAction.replica), filter_replicas_actions, h,
    length_map, length_map]
  rfl

theorem replicaDomains_placements {taken : List PoolCandidate} {plan : PlacementPlan}
    (h : (plan.actions.filter fun action ↦ action.tier == storageClass) =
      taken.map PoolCandidate.action) :
    replicaDomains (placements existingReplicas plan) storageClass =
      replicaDomains existingReplicas storageClass ∪ poolDomains taken := by
  rw [replicaDomains, placements, filter_append, map_append, toFinset_append,
    filter_replicas_actions, h, map_map, map_map]
  rfl

/-! ### What a plan reports -/

theorem projectedReplicas_eq :
    (planWithPools policy encodedSize existingReplicas pools).projectedReplicas storageClass =
      replicaCount (placements existingReplicas
        (planWithPools policy encodedSize existingReplicas pools)) storageClass := by
  rw [replicaCount, placements, countP_append, countP_map]
  rfl

theorem projectedFailureDomains_eq :
    (planWithPools policy encodedSize existingReplicas pools).projectedFailureDomains
        storageClass =
      (replicaDomains (placements existingReplicas
        (planWithPools policy encodedSize existingReplicas pools)) storageClass).card := by
  rw [replicaDomains, placements, filter_append, filter_replicas_actions, map_append,
    map_map, card_toFinset]
  rfl

/-- The existing and planned placements of a class reach the policy's minima. -/
def ClassSatisfied (policy : PlacementPolicy) (replicas : List ExistingReplica)
    (storageClass : StorageClass) : Prop :=
  policy.requiredReplicas storageClass ≤ replicaCount replicas storageClass ∧
    policy.requiredFailureDomains storageClass ≤ (replicaDomains replicas storageClass).card

theorem policySatisfied_iff :
    (planWithPools policy encodedSize existingReplicas pools).policySatisfied = true ↔
      ∀ storageClass, ClassSatisfied policy (placements existingReplicas
        (planWithPools policy encodedSize existingReplicas pools)) storageClass := by
  have hall : (planWithPools policy encodedSize existingReplicas pools).policySatisfied =
      [StorageClass.hot, .cold, .archive].all fun storageClass ↦
        decide (policy.requiredReplicas storageClass ≤
          (planWithPools policy encodedSize existingReplicas pools).projectedReplicas
            storageClass) &&
        decide (policy.requiredFailureDomains storageClass ≤
          (planWithPools policy encodedSize existingReplicas pools).projectedFailureDomains
            storageClass) := rfl
  rw [hall, all_eq_true]
  simp only [Bool.and_eq_true, decide_eq_true_eq, projectedReplicas_eq,
    projectedFailureDomains_eq, ClassSatisfied]
  exact ⟨fun h storageClass ↦ h storageClass (mem_allClasses storageClass),
    fun h storageClass _ ↦ h storageClass⟩

/-- Every upload of a plan goes to a choice of its class. -/
theorem exists_pool_of_mem_actions {action : PlacementAction}
    (h : action ∈ (planWithPools policy encodedSize existingReplicas pools).actions) :
    ∃ pool ∈ pools, action = pool.action ∧ pool.Usable encodedSize ∧
      pool.providerId ∉ existingReplicas.map ExistingReplica.providerId := by
  obtain ⟨taken, rest, hchoices, -, htaken, -⟩ := exists_taken policy encodedSize existingReplicas
    pools action.tier
  have hmem : action ∈ taken.map PoolCandidate.action := by
    rw [← htaken, mem_filter]
    exact ⟨h, beq_self_eq_true _⟩
  obtain ⟨pool, hpool, rfl⟩ := mem_map.mp hmem
  have hchoice := mem_append_left rest hpool
  rw [← hchoices] at hchoice
  obtain ⟨hordered, -, husable, hprovider⟩ := of_mem_choices hchoice
  rw [ordered, mem_insertionSort] at hordered
  exact ⟨pool, hordered, rfl, usable_iff.mp husable, hprovider⟩

/-- What a plan asks for and what its numbers mean, for every policy, size, list of existing
replicas and list of pools. -/
theorem plan_sound (policy : PlacementPolicy) (encodedSize : ℕ)
    (existingReplicas : List ExistingReplica) (pools : List PoolCandidate) :
    let plan := planWithPools policy encodedSize existingReplicas pools
    let after := placements existingReplicas plan
    (∀ action ∈ plan.actions, ∃ pool ∈ pools, action = pool.action ∧ pool.Usable encodedSize ∧
      ∀ replica ∈ existingReplicas, replica.providerId ≠ action.providerId) ∧
    (∀ storageClass, ((plan.actions.filter fun action ↦ action.tier == storageClass).map
      PlacementAction.providerId).Nodup) ∧
    (∀ storageClass,
      let selection := classSelection policy encodedSize existingReplicas
        (ordered existingReplicas pools) storageClass
      plan.projectedReplicas storageClass = replicaCount after storageClass ∧
        plan.projectedFailureDomains storageClass = (replicaDomains after storageClass).card ∧
        selection.projected = plan.projectedReplicas storageClass ∧
        selection.projectedDomains = plan.projectedFailureDomains storageClass) ∧
    (plan.policySatisfied = true ↔ ∀ storageClass,
      policy.requiredReplicas storageClass ≤ replicaCount after storageClass ∧
        policy.requiredFailureDomains storageClass ≤ (replicaDomains after storageClass).card) := by
  intro plan after
  refine ⟨?_, ?_, ?_, policySatisfied_iff⟩
  · intro action haction
    obtain ⟨pool, hpool, rfl, husable, hprovider⟩ := exists_pool_of_mem_actions haction
    refine ⟨pool, hpool, rfl, husable, fun replica hreplica hsame ↦ hprovider ?_⟩
    exact mem_map.mpr ⟨replica, hreplica, hsame⟩
  · intro storageClass
    rw [filter_actions]
    exact planClass_spec.1
  · intro storageClass selection
    obtain ⟨taken, rest, -, hcounts, htaken, -⟩ := exists_taken policy encodedSize
      existingReplicas pools storageClass
    refine ⟨projectedReplicas_eq, projectedFailureDomains_eq, ?_, ?_⟩
    · rw [projectedReplicas_eq, replicaCount_placements htaken]
      exact hcounts.projected
    · rw [projectedFailureDomains_eq, replicaDomains_placements htaken]
      exact hcounts.projectedDomains

/-! ### A plan is complete -/

variable {candidates : List PoolCandidate}

theorem planClass_eq_nil_of_choices
    (h : choices encodedSize existingReplicas candidates storageClass = []) :
    planClass policy encodedSize existingReplicas candidates storageClass = [] := by
  obtain ⟨count, -, hcounts, -⟩ := classSelection_counts policy encodedSize existingReplicas
    candidates storageClass
  rw [planClass_eq_actions, hcounts.actions, h, take_nil, map_nil]

theorem planClass_eq_nil_of_reached (h : Reached policy existingReplicas storageClass []) :
    planClass policy encodedSize existingReplicas candidates storageClass = [] := by
  obtain ⟨count, -, hcounts, hearlier, -⟩ := classSelection_counts policy encodedSize
    existingReplicas candidates storageClass
  have hzero : count = 0 := by
    by_contra hne
    exact hearlier 0 (Nat.pos_of_ne_zero hne) h
  rw [planClass_eq_actions, hcounts.actions, hzero, take_zero, map_nil]

/-- After the uploads of a plan, the pools of a class lead to no upload: the wanted numbers are
reached, or every provider with a usable pool of the class holds a replica. -/
theorem planClass_placements_eq_nil (hcandidates : ∀ candidate ∈ candidates, candidate ∈ pools) :
    planClass policy encodedSize (placements existingReplicas
      (planWithPools policy encodedSize existingReplicas pools)) candidates storageClass = [] := by
  obtain ⟨taken, rest, hchoices, -, htaken, hend⟩ := exists_taken policy encodedSize
    existingReplicas pools storageClass
  rcases hend with rfl | hreached
  · apply planClass_eq_nil_of_choices
    rw [append_nil] at hchoices
    rw [eq_nil_iff_forall_not_mem]
    intro candidate hcandidate
    obtain ⟨hmem, hclass, husable, hprovider⟩ := of_mem_choices hcandidate
    rw [placements, map_append, mem_append, not_or, map_map] at hprovider
    have hordered : candidate ∈ ordered existingReplicas pools := by
      rw [ordered, mem_insertionSort]
      exact hcandidates candidate hmem
    obtain ⟨choice, hchoice, hsame⟩ := exists_choice hordered husable hprovider.1
    -- The provider's choice was taken, so an upload goes to the provider.
    rw [hclass, hchoices] at hchoice
    have haction : choice.action ∈ (planWithPools policy encodedSize existingReplicas
        pools).actions := by
      have hin := mem_map_of_mem (f := PoolCandidate.action) hchoice
      rw [← htaken] at hin
      exact (mem_filter.mp hin).1
    exact hprovider.2 (mem_map.mpr ⟨choice.action, haction, hsame⟩)
  · apply planClass_eq_nil_of_reached
    obtain ⟨hreplicas, hdomains⟩ := hreached
    refine ⟨?_, ?_⟩
    · rw [length_nil, Nat.add_zero]
      exact hreplicas.trans (replicaCount_placements htaken).ge
    · rw [poolDomains, map_nil, toFinset_nil, Finset.union_empty, replicaDomains_placements htaken]
      exact hdomains

/-- Planning again after the uploads of a plan, with the same pools, leads to no upload and to the
same verdict on the policy. -/
theorem plan_converges (policy : PlacementPolicy) (encodedSize : ℕ)
    (existingReplicas : List ExistingReplica) (pools : List PoolCandidate) :
    let plan := planWithPools policy encodedSize existingReplicas pools
    let again := planWithPools policy encodedSize (placements existingReplicas plan) pools
    again.actions = [] ∧ again.policySatisfied = plan.policySatisfied := by
  intro plan again
  have hactions : again.actions = [] := by
    apply flatMap_eq_nil_iff.mpr
    intro storageClass _
    apply planClass_placements_eq_nil
    intro candidate hcandidate
    exact (mem_insertionSort _).mp hcandidate
  refine ⟨hactions, ?_⟩
  rw [Bool.eq_iff_iff, policySatisfied_iff, policySatisfied_iff]
  have hsame : placements (placements existingReplicas plan) again =
      placements existingReplicas plan := by
    rw [placements, hactions, map_nil, append_nil]
  rw [hsame]

end GameLauncher.Placement
