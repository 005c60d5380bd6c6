import GameLauncher.Placement.PlanSoundness

/-!
# The reconciler of physical packs

`PhysicalPackReconciler::evaluate` judges the replicas of a pack that have been observed. It counts
the verified ones and their failure domains on its own and reports the classes that need a repair.
`reconciler_agrees` says that it finds nothing to repair exactly when the planner, given the
verified replicas and no pools, finds the policy satisfied.
-/

set_option autoImplicit false

namespace GameLauncher.Placement

open Foundation Catalog List

inductive PhysicalPackHealth
  | healthy
  | underReplicated
  | degraded
  | lost
  deriving DecidableEq, Repr

structure PackReplicaObservation where
  provider : Text
  poolId : Text
  failureDomain : Text
  storageClass : StorageClass
  verified : Bool
  readable : Bool
  deriving DecidableEq, Repr

/-- `PhysicalPackReconciliation`: the verified replicas and failure domains are given for each
class. -/
structure PhysicalPackReconciliation where
  packHash : Text
  health : PhysicalPackHealth
  verifiedReplicas : StorageClass → ℕ
  verifiedFailureDomains : StorageClass → ℕ
  repairClasses : List StorageClass
  scrubRequired : Bool

namespace PhysicalPackReconciler

/-- `PhysicalPackReconciler::evaluate`. -/
def evaluate (packHash : Text) (observations : List PackReplicaObservation)
    (policy : StoragePolicy) : PhysicalPackReconciliation :=
  let verified := observations.filter fun observation ↦ observation.verified
  let count (storageClass : StorageClass) : ℕ :=
    (verified.filter fun observation ↦ observation.storageClass == storageClass).length
  let domains (storageClass : StorageClass) : ℕ :=
    ((verified.filter fun observation ↦ observation.storageClass == storageClass).map
      PackReplicaObservation.failureDomain).dedup.length
  let counts := [StorageClass.hot, .cold, .archive].map fun storageClass ↦
    (storageClass, count storageClass, domains storageClass)
  let repairClasses := counts.filterMap fun (storageClass, replicas, failureDomains) ↦
    if replicas < policy.requiredReplicas storageClass ∨
        failureDomains < policy.requiredFailureDomains storageClass then
      some storageClass
    else none
  let scrubRequired := observations.any fun observation ↦
    observation.verified && !observation.readable
  { packHash
    health :=
      if verified.isEmpty then .lost
      else if !repairClasses.isEmpty then .underReplicated
      else if scrubRequired then .degraded
      else .healthy
    verifiedReplicas := count
    verifiedFailureDomains := domains
    repairClasses
    scrubRequired }

/-- The replicas that the reconciler counts: the verified ones. -/
def verifiedReplicas (observations : List PackReplicaObservation) : List ExistingReplica :=
  (observations.filter fun observation ↦ observation.verified).map fun observation ↦
    { providerId := observation.provider
      poolId := observation.poolId
      storageClass := observation.storageClass
      failureDomain := observation.failureDomain }

section

variable (packHash : Text) (observations : List PackReplicaObservation)

theorem verifiedReplicas_eq_replicaCount (policy : StoragePolicy) (storageClass : StorageClass) :
    (evaluate packHash observations policy).verifiedReplicas storageClass =
      replicaCount (verifiedReplicas observations) storageClass := by
  rw [replicaCount, verifiedReplicas, countP_map, countP_eq_length_filter]
  rfl

theorem verifiedFailureDomains_eq_card (policy : StoragePolicy) (storageClass : StorageClass) :
    (evaluate packHash observations policy).verifiedFailureDomains storageClass =
      (replicaDomains (verifiedReplicas observations) storageClass).card := by
  rw [replicaDomains, verifiedReplicas, filter_map, map_map, card_toFinset]
  rfl

theorem mem_repairClasses_iff (policy : PlacementPolicy) (storageClass : StorageClass) :
    storageClass ∈ (evaluate packHash observations policy.toStoragePolicy).repairClasses ↔
      ¬ ClassSatisfied policy (verifiedReplicas observations) storageClass := by
  have hrepair : (evaluate packHash observations policy.toStoragePolicy).repairClasses =
      (([StorageClass.hot, .cold, .archive].map fun storageClass ↦
        (storageClass,
          (evaluate packHash observations policy.toStoragePolicy).verifiedReplicas storageClass,
          (evaluate packHash observations policy.toStoragePolicy).verifiedFailureDomains
            storageClass)).filterMap fun (storageClass, replicas, failureDomains) ↦
        if replicas < policy.requiredReplicas storageClass ∨
            failureDomains < policy.requiredFailureDomains storageClass then
          some storageClass
        else none) := rfl
  rw [hrepair, filterMap_map, mem_filterMap, ClassSatisfied, not_and_or, not_le, not_le,
    ← verifiedReplicas_eq_replicaCount packHash observations policy.toStoragePolicy,
    ← verifiedFailureDomains_eq_card packHash observations policy.toStoragePolicy]
  constructor
  · rintro ⟨other, -, hother⟩
    simp only [Function.comp_apply, Option.ite_none_right_eq_some, Option.some.injEq] at hother
    obtain ⟨hshort, rfl⟩ := hother
    exact hshort
  · intro hshort
    exact ⟨storageClass, mem_allClasses storageClass, if_pos hshort⟩

end

/-- The reconciler finds no class to repair exactly when the planner, given the replicas that the
reconciler counts and no pools, finds the policy satisfied. -/
theorem reconciler_agrees (packHash : Text) (observations : List PackReplicaObservation)
    (policy : PlacementPolicy) (encodedSize : ℕ) :
    (evaluate packHash observations policy.toStoragePolicy).repairClasses = [] ↔
      (planWithPools policy encodedSize (verifiedReplicas observations) []).policySatisfied =
        true := by
  have hplacements : placements (verifiedReplicas observations)
      (planWithPools policy encodedSize (verifiedReplicas observations) []) =
        verifiedReplicas observations := by
    have hactions : (planWithPools policy encodedSize (verifiedReplicas observations)
        []).actions = [] := by
      rw [eq_nil_iff_forall_not_mem]
      intro action haction
      obtain ⟨pool, hpool, -⟩ := exists_pool_of_mem_actions haction
      exact not_mem_nil hpool
    rw [placements, hactions, map_nil, append_nil]
  rw [policySatisfied_iff, hplacements, eq_nil_iff_forall_not_mem]
  simp only [mem_repairClasses_iff, not_not]

end PhysicalPackReconciler

end GameLauncher.Placement
