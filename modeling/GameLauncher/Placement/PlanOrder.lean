import Mathlib.Data.List.Pairwise
import Mathlib.Data.Prod.Lex
import GameLauncher.Placement.ClassPlan

/-!
# Placement plans do not depend on the order of their inputs

Database rows arrive in no guaranteed order. The order of preference is a total order that tells
apart any two pools of a class with different identifiers, and it looks at the existing replicas
only through the set of their failure domains; the loop looks at them through numbers and sets. So
a permutation of the existing replicas and of the pools leads to the same plan.
-/

set_option autoImplicit false

namespace GameLauncher.Placement

open Foundation Catalog List

/-! ### The order of preference -/

variable {left right : PoolCandidate}

/-- The numbers by which candidates are compared first. -/
def preferenceKey (existingReplicas : List ExistingReplica) (candidate : PoolCandidate) : List ℤ :=
  [classRank candidate.storageClass,
    if candidate.failureDomain ∈ existingDomains existingReplicas candidate.storageClass then 1
      else 0,
    candidate.priority]

theorem preferred_iff {existingReplicas : List ExistingReplica} :
    preferred existingReplicas left right = true ↔
      toLex (preferenceKey existingReplicas left, [left.poolId, left.providerId]) ≤
        toLex (preferenceKey existingReplicas right, [right.poolId, right.providerId]) := by
  rw [Prod.Lex.toLex_le_toLex]
  simp [preferred, preferenceKey]

instance preferred_total (existingReplicas : List ExistingReplica) :
    Std.Total fun left right ↦ preferred existingReplicas left right = true where
  total left right := by
    rw [preferred_iff, preferred_iff]
    exact le_total _ _

instance preferred_trans (existingReplicas : List ExistingReplica) :
    IsTrans PoolCandidate fun left right ↦ preferred existingReplicas left right = true where
  trans first second third hfirst hsecond := by
    rw [preferred_iff] at hfirst hsecond ⊢
    exact hfirst.trans hsecond

theorem classRank_injective : Function.Injective classRank := by
  intro first second h
  cases first <;> cases second <;> first | rfl | cases h

theorem same_of_preferred {existingReplicas : List ExistingReplica}
    (hle : preferred existingReplicas left right = true)
    (hge : preferred existingReplicas right left = true) :
    left.storageClass = right.storageClass ∧ left.poolId = right.poolId ∧
      left.providerId = right.providerId := by
  rw [preferred_iff] at hle hge
  have hequal := Prod.ext_iff.mp (toLex_inj.mp (le_antisymm hle hge))
  simp only [preferenceKey, List.cons.injEq, Nat.cast_inj, and_true] at hequal
  exact ⟨classRank_injective hequal.1.1, hequal.2⟩

/-- No two pools of one class share both identifiers. -/
def DistinctPools (pools : List PoolCandidate) : Prop :=
  pools.Pairwise fun left right ↦ ¬ (left.storageClass = right.storageClass ∧
    left.poolId = right.poolId ∧ left.providerId = right.providerId)

instance (pools : List PoolCandidate) : Decidable (DistinctPools pools) :=
  inferInstanceAs (Decidable (pools.Pairwise _))

variable {policy : PlacementPolicy} {encodedSize : ℕ}
  {existingReplicas otherReplicas : List ExistingReplica} {pools otherPools : List PoolCandidate}

theorem eq_of_preferred (hdistinct : DistinctPools pools) (hleft : left ∈ pools)
    (hright : right ∈ pools) (hle : preferred existingReplicas left right = true)
    (hge : preferred existingReplicas right left = true) : left = right := by
  by_contra hne
  have : Std.Symm fun left right : PoolCandidate ↦
      ¬ (left.storageClass = right.storageClass ∧ left.poolId = right.poolId ∧
        left.providerId = right.providerId) := by
    refine ⟨fun first second h hsame ↦ h ?_⟩
    exact ⟨hsame.1.symm, hsame.2.1.symm, hsame.2.2.symm⟩
  exact hdistinct.forall hleft hright hne (same_of_preferred hle hge)

/-! ### Permuted replicas -/

section

variable (hreplicas : existingReplicas.Perm otherReplicas)

include hreplicas

theorem mem_existingDomains_of_perm (storageClass : StorageClass) (domain : Text) :
    domain ∈ existingDomains existingReplicas storageClass ↔
      domain ∈ existingDomains otherReplicas storageClass := by
  rw [existingDomains, existingDomains, mem_dedup, mem_dedup]
  exact ((hreplicas.filter _).map _).mem_iff

theorem length_existingDomains_of_perm (storageClass : StorageClass) :
    (existingDomains existingReplicas storageClass).length =
      (existingDomains otherReplicas storageClass).length :=
  (((hreplicas.filter _).map _).dedup).length_eq

theorem preferred_of_perm : preferred existingReplicas = preferred otherReplicas := by
  funext left right
  have hkey (candidate : PoolCandidate) :
      preferenceKey existingReplicas candidate = preferenceKey otherReplicas candidate := by
    simp only [preferenceKey, mem_existingDomains_of_perm hreplicas]
  rw [Bool.eq_iff_iff, preferred_iff, preferred_iff, hkey left, hkey right]

theorem ordered_of_perm (hpools : pools.Perm otherPools) (hdistinct : DistinctPools pools) :
    ordered existingReplicas pools = ordered otherReplicas otherPools := by
  rw [ordered, ordered, ← preferred_of_perm hreplicas]
  apply insertionSort_eq_of_perm hpools
  intro left hleft right hright
  exact eq_of_preferred hdistinct hleft hright

end

/-- Two states of the loop that differ at most in the order of their sets. -/
structure Selection.Alike (first second : Selection) : Prop where
  actions : first.actions = second.actions
  projected : first.projected = second.projected
  projectedDomains : first.projectedDomains = second.projectedDomains
  domains : ∀ domain, domain ∈ first.domains ↔ domain ∈ second.domains

theorem Selection.Alike.add {first second : Selection} (h : first.Alike second)
    (candidate : PoolCandidate) : (first.add candidate).Alike (second.add candidate) where
  actions := by rw [Selection.add, Selection.add, h.actions]
  projected := by rw [Selection.add, Selection.add, h.projected]
  projectedDomains := by
    simp only [Selection.add, h.projectedDomains, h.domains]
  domains := fun domain ↦ by
    rw [Selection.add, Selection.add, mem_insert_iff, mem_insert_iff, h.domains]

theorem alike_initialSelection (hreplicas : existingReplicas.Perm otherReplicas)
    (storageClass : StorageClass) :
    (initialSelection existingReplicas storageClass).Alike
      (initialSelection otherReplicas storageClass) where
  actions := rfl
  projected := hreplicas.countP_eq _
  projectedDomains := length_existingDomains_of_perm hreplicas storageClass
  domains := mem_existingDomains_of_perm hreplicas storageClass

theorem planClass_of_perm (hreplicas : existingReplicas.Perm otherReplicas)
    (candidates : List PoolCandidate) :
    planClass policy encodedSize existingReplicas candidates =
      planClass policy encodedSize otherReplicas candidates := by
  funext storageClass
  rw [planClass_eq_actions, planClass_eq_actions, classSelection, classSelection,
    selectCandidates_eq_fillUntil, selectCandidates_eq_fillUntil]
  have hproviders : firstsBy PoolCandidate.providerId
      (initialSelection existingReplicas storageClass).selectedProviders =
      firstsBy PoolCandidate.providerId
        (initialSelection otherReplicas storageClass).selectedProviders := by
    funext items
    apply firstsBy_congr
    intro providerId
    exact (hreplicas.map _).mem_iff
  rw [hproviders]
  apply Selection.Alike.actions
  apply fillUntil_related _ _ _ (alike_initialSelection hreplicas storageClass)
  · intro first second h
    rw [Selection.enough, Selection.enough, h.projected, h.projectedDomains]
  · intro first second candidate h
    exact h.add candidate

/-! ### The plan -/

/-- The verdict on a policy and its explanation, from the projected numbers. -/
def verdict (policy : PlacementPolicy) (projected projectedDomains : StorageClass → ℕ) :
    Bool × Text :=
  let classSatisfied (storageClass : StorageClass) : Bool :=
    policy.requiredReplicas storageClass ≤ projected storageClass &&
      policy.requiredFailureDomains storageClass ≤ projectedDomains storageClass
  ([StorageClass.hot, .cold, .archive].all classSatisfied,
    if [StorageClass.hot, .cold, .archive].all classSatisfied then
      "storage policy satisfied"
    else
      "; ".toList.intercalate (([StorageClass.hot, .cold, .archive].filter fun storageClass ↦
        !classSatisfied storageClass).map (explainClass policy projected projectedDomains)))

theorem planWithPools_ext {policy : PlacementPolicy} {encodedSize : ℕ}
    {existingReplicas otherReplicas : List ExistingReplica} {pools otherPools : List PoolCandidate}
    (hreplicas : existingReplicas.Perm otherReplicas)
    (hactions : (planWithPools policy encodedSize existingReplicas pools).actions =
      (planWithPools policy encodedSize otherReplicas otherPools).actions) :
    planWithPools policy encodedSize existingReplicas pools =
      planWithPools policy encodedSize otherReplicas otherPools := by
  generalize hplan : planWithPools policy encodedSize existingReplicas pools = plan at hactions
  generalize hother : planWithPools policy encodedSize otherReplicas otherPools = other at hactions
  have hexisting : plan.existingReplicas = other.existingReplicas := by
    subst hplan hother
    funext storageClass
    exact hreplicas.countP_eq _
  have hdomains : plan.existingFailureDomains = other.existingFailureDomains := by
    subst hplan hother
    funext storageClass
    exact length_existingDomains_of_perm hreplicas storageClass
  have hprojected : plan.projectedReplicas = other.projectedReplicas := by
    have hsplit (storageClass : StorageClass) : plan.projectedReplicas storageClass =
        plan.existingReplicas storageClass +
          plan.actions.countP fun action ↦ action.tier == storageClass := by
      subst hplan
      rfl
    funext storageClass
    rw [hsplit, hexisting, hactions]
    subst hother
    rfl
  have hprojectedDomains : plan.projectedFailureDomains = other.projectedFailureDomains := by
    funext storageClass
    have hperm := ((hreplicas.filter fun replica ↦ replica.storageClass == storageClass).map
      ExistingReplica.failureDomain).append_right ((plan.actions.filter fun action ↦
        action.tier == storageClass).map PlacementAction.failureDomain)
    have hlength := hperm.dedup.length_eq
    subst hplan
    refine hlength.trans ?_
    rw [hactions]
    subst hother
    rfl
  have hverdict : (plan.policySatisfied, plan.explanation) =
      (other.policySatisfied, other.explanation) := by
    have hfirst : (plan.policySatisfied, plan.explanation) =
        verdict policy plan.projectedReplicas plan.projectedFailureDomains := by
      subst hplan
      rfl
    rw [hfirst, hprojected, hprojectedDomains]
    subst hother
    rfl
  have hrequired : plan.requiredReplicas = other.requiredReplicas := by
    subst hplan hother
    rfl
  have hrequiredDomains : plan.requiredFailureDomains = other.requiredFailureDomains := by
    subst hplan hother
    rfl
  obtain ⟨hsatisfied, hexplanation⟩ := Prod.ext_iff.mp hverdict
  cases plan
  cases other
  simp_all only

/-- Permuting the existing replicas and the pools, no two of which share class and identifiers,
leads to the same plan: the same uploads in the same order, the same counts and the same
verdict. -/
theorem planWithPools_of_perm (policy : PlacementPolicy) (encodedSize : ℕ)
    (existingReplicas otherReplicas : List ExistingReplica)
    (pools otherPools : List PoolCandidate) (hdistinct : DistinctPools pools)
    (hreplicas : existingReplicas.Perm otherReplicas) (hpools : pools.Perm otherPools) :
    planWithPools policy encodedSize existingReplicas pools =
      planWithPools policy encodedSize otherReplicas otherPools := by
  apply planWithPools_ext hreplicas
  change [StorageClass.hot, .cold, .archive].flatMap (planClass policy encodedSize
    existingReplicas (ordered existingReplicas pools)) = [StorageClass.hot, .cold,
      .archive].flatMap (planClass policy encodedSize otherReplicas
        (ordered otherReplicas otherPools))
  rw [ordered_of_perm hreplicas hpools hdistinct, planClass_of_perm hreplicas]

/-- Two pools in either order. -/
theorem planWithPools_of_perm_swapped :
    planWithPools (hotPolicy 1 2 1) 10 [] [readyPool "a" "p" "east" 1, readyPool "b" "q" "west" 0] =
      planWithPools (hotPolicy 1 2 1) 10 []
        [readyPool "b" "q" "west" 0, readyPool "a" "p" "east" 1] :=
  planWithPools_of_perm (hotPolicy 1 2 1) 10 [] [] _ _ (by decide) (.refl _)
    (.swap _ _ _)

end GameLauncher.Placement
