import GameLauncher.Placement.PlanSoundness

/-!
# Which selections a placement plan finds

The planner takes of each provider the pool that comes first in its order of preference and never
goes back on it. Where a provider has pools in several failure domains, an early pick can rule out
the only selection that meets the policy, and `satisfied_missed` is such a case.

`satisfied_iff_preferredChoice` says exactly what the planner finds: the policy is satisfied if and
only if it can be met by a selection that keeps to the failure domain of each provider's first
choice.
-/

set_option autoImplicit false

namespace GameLauncher.Placement

open Foundation Fallible Catalog

/-! ### Selections -/

/-- Pools that could be taken together: usable, at providers without a replica, and at most one for
each provider and class. -/
structure Selectable (encodedSize : ℕ) (existingReplicas : List ExistingReplica)
    (pools : List PoolCandidate) (chosen : Finset PoolCandidate) : Prop where
  mem_pools : ∀ pool ∈ chosen, pool ∈ pools
  usable : ∀ pool ∈ chosen, pool.Usable encodedSize
  new_provider : ∀ pool ∈ chosen, pool.providerId ∉ existingReplicas.map ExistingReplica.providerId
  one_per_provider : ∀ first ∈ chosen, ∀ second ∈ chosen,
    first.storageClass = second.storageClass → first.providerId = second.providerId → first = second

def chosenOf (chosen : Finset PoolCandidate) (storageClass : StorageClass) :
    Finset PoolCandidate :=
  chosen.filter fun pool ↦ pool.storageClass = storageClass

/-- With the selected pools, every class reaches the minima of the policy. -/
def MeetsPolicy (policy : PlacementPolicy) (existingReplicas : List ExistingReplica)
    (chosen : Finset PoolCandidate) : Prop :=
  ∀ storageClass, policy.requiredReplicas storageClass ≤
        replicaCount existingReplicas storageClass + (chosenOf chosen storageClass).card ∧
      policy.requiredFailureDomains storageClass ≤ (replicaDomains existingReplicas storageClass ∪
          (chosenOf chosen storageClass).image PoolCandidate.failureDomain).card

/-- The pool that the planner prefers among the usable pools of the same provider and class. -/
def preferredChoice (encodedSize : ℕ) (existingReplicas : List ExistingReplica)
    (pools : List PoolCandidate) (pool : PoolCandidate) : Option PoolCandidate :=
  (((ordered existingReplicas pools).filter fun other ↦
      other.storageClass == pool.storageClass).filter fun other ↦
        other.usable encodedSize).find? fun other ↦ other.providerId == pool.providerId

/-- The selection keeps to the failure domains of the preferred pools. -/
def KeepsToPreferred (encodedSize : ℕ) (existingReplicas : List ExistingReplica)
    (pools : List PoolCandidate) (chosen : Finset PoolCandidate) : Prop :=
  ∀ pool ∈ chosen, (preferredChoice encodedSize existingReplicas pools pool).map
    PoolCandidate.failureDomain = some pool.failureDomain

variable {policy : PlacementPolicy} {encodedSize : ℕ} {existingReplicas : List ExistingReplica}
  {pools : List PoolCandidate} {storageClass : StorageClass}

theorem mem_choices_iff {pool : PoolCandidate} :
    pool ∈ choices encodedSize existingReplicas (ordered existingReplicas pools)
        pool.storageClass ↔
      pool.providerId ∉ existingReplicas.map ExistingReplica.providerId ∧
        preferredChoice encodedSize existingReplicas pools pool = some pool :=
  mem_firstsBy

theorem preferredChoice_mem_choices {pool choice : PoolCandidate}
    (hprovider : pool.providerId ∉ existingReplicas.map ExistingReplica.providerId)
    (h : preferredChoice encodedSize existingReplicas pools pool = some choice) :
    choice ∈ choices encodedSize existingReplicas (ordered existingReplicas pools)
        pool.storageClass ∧ choice.providerId = pool.providerId := by
  have hsame : choice.providerId = pool.providerId := by
    simpa only [beq_iff_eq] using List.find?_some h
  refine ⟨mem_firstsBy.mpr ?_, hsame⟩
  rw [hsame]
  exact ⟨hprovider, h⟩

theorem required_le_preferred (hvalid : policy.validate = .ok ()) (storageClass : StorageClass) :
    policy.requiredReplicas storageClass ≤ policy.preferredReplicas storageClass := by
  simp only [PlacementPolicy.validate, bind_eq_ok, throwIf_eq_ok, not_or, not_lt] at hvalid
  obtain ⟨-, -, -, ⟨hhot, hcold, harchive⟩, -⟩ := hvalid
  cases storageClass with
  | hot => exact hhot
  | cold => exact max_le_max_right _ hcold
  | archive => exact harchive

def allChoices (encodedSize : ℕ) (existingReplicas : List ExistingReplica)
    (pools : List PoolCandidate) : Finset PoolCandidate :=
  ([StorageClass.hot, .cold, .archive].flatMap
    (choices encodedSize existingReplicas (ordered existingReplicas pools))).toFinset

theorem mem_allChoices_iff {pool : PoolCandidate} :
    pool ∈ allChoices encodedSize existingReplicas pools ↔
      pool ∈ choices encodedSize existingReplicas (ordered existingReplicas pools)
        pool.storageClass := by
  rw [allChoices, List.mem_toFinset, List.mem_flatMap]
  constructor
  · rintro ⟨storageClass, -, hpool⟩
    rwa [(of_mem_choices hpool).2.1]
  · intro hpool
    exact ⟨pool.storageClass, mem_allClasses _, hpool⟩

theorem chosenOf_allChoices (storageClass : StorageClass) :
    chosenOf (allChoices encodedSize existingReplicas pools) storageClass =
      (choices encodedSize existingReplicas (ordered existingReplicas pools)
        storageClass).toFinset := by
  ext pool
  rw [chosenOf, Finset.mem_filter, mem_allChoices_iff, List.mem_toFinset]
  constructor
  · rintro ⟨hpool, rfl⟩
    exact hpool
  · intro hpool
    obtain rfl := (of_mem_choices hpool).2.1
    exact ⟨hpool, rfl⟩

theorem nodup_choices (storageClass : StorageClass) :
    ((choices encodedSize existingReplicas (ordered existingReplicas pools) storageClass).map
      PoolCandidate.providerId).Nodup :=
  nodup_map_firstsBy _ _ _

theorem selectable_allChoices :
    Selectable encodedSize existingReplicas pools
        (allChoices encodedSize existingReplicas pools) ∧
      KeepsToPreferred encodedSize existingReplicas pools
        (allChoices encodedSize existingReplicas pools) := by
  refine ⟨⟨?_, ?_, ?_, ?_⟩, ?_⟩
  · intro pool hpool
    have hordered := (of_mem_choices (mem_allChoices_iff.mp hpool)).1
    rwa [ordered, List.mem_insertionSort] at hordered
  · intro pool hpool
    exact usable_iff.mp (of_mem_choices (mem_allChoices_iff.mp hpool)).2.2.1
  · intro pool hpool
    exact (of_mem_choices (mem_allChoices_iff.mp hpool)).2.2.2
  · intro first hfirst second hsecond hclass hprovider
    rw [mem_allChoices_iff] at hfirst hsecond
    rw [← hclass] at hsecond
    exact List.inj_on_of_nodup_map (nodup_choices first.storageClass) hfirst hsecond hprovider
  · intro pool hpool
    rw [(mem_choices_iff.mp (mem_allChoices_iff.mp hpool)).2, Option.map_some]

theorem classSatisfied_mono {taken : List PoolCandidate} (more : List PoolCandidate)
    (h : policy.requiredReplicas storageClass ≤
        replicaCount existingReplicas storageClass + taken.length ∧
      policy.requiredFailureDomains storageClass ≤
        (replicaDomains existingReplicas storageClass ∪ poolDomains taken).card) :
    policy.requiredReplicas storageClass ≤
        replicaCount existingReplicas storageClass + (taken ++ more).length ∧
      policy.requiredFailureDomains storageClass ≤
        (replicaDomains existingReplicas storageClass ∪ poolDomains (taken ++ more)).card := by
  refine ⟨h.1.trans ?_, h.2.trans (Finset.card_le_card ?_)⟩
  · rw [List.length_append]
    omega
  · apply Finset.union_subset_union_right
    rw [poolDomains, poolDomains, List.map_append, List.toFinset_append]
    exact Finset.subset_union_left

theorem meetsPolicy_allChoices
    (h : (planWithPools policy encodedSize existingReplicas pools).policySatisfied = true) :
    MeetsPolicy policy existingReplicas (allChoices encodedSize existingReplicas pools) := by
  intro storageClass
  obtain ⟨taken, rest, hchoices, -, htaken, -⟩ := exists_taken policy encodedSize
    existingReplicas pools storageClass
  have hclass := policySatisfied_iff.mp h storageClass
  rw [ClassSatisfied, replicaCount_placements htaken, replicaDomains_placements htaken] at hclass
  obtain ⟨hreplicas, hdomains⟩ := classSatisfied_mono rest hclass
  rw [← hchoices] at hreplicas hdomains
  rw [chosenOf_allChoices, List.toFinset_card_of_nodup (nodup_choices storageClass).of_map]
  refine ⟨hreplicas, hdomains.trans (Finset.card_le_card ?_)⟩
  apply Finset.union_subset_union_right
  intro domain hdomain
  rw [poolDomains, List.mem_toFinset] at hdomain
  obtain ⟨pool, hpool, rfl⟩ := List.mem_map.mp hdomain
  exact Finset.mem_image_of_mem _ (List.mem_toFinset.mpr hpool)

/-- A selection has no more pools in a class than there are choices, and if it keeps to the
preferred pools it covers no other failure domain. -/
theorem chosenOf_le_choices {chosen : Finset PoolCandidate}
    (hchosen : Selectable encodedSize existingReplicas pools chosen)
    (hkeeps : KeepsToPreferred encodedSize existingReplicas pools chosen)
    (storageClass : StorageClass) :
    (chosenOf chosen storageClass).card ≤
        (choices encodedSize existingReplicas (ordered existingReplicas pools)
          storageClass).length ∧
      (chosenOf chosen storageClass).image PoolCandidate.failureDomain ⊆
        poolDomains (choices encodedSize existingReplicas (ordered existingReplicas pools)
          storageClass) := by
  have hchoice : ∀ pool ∈ chosenOf chosen storageClass,
      ∃ choice ∈ choices encodedSize existingReplicas (ordered existingReplicas pools)
        storageClass, choice.providerId = pool.providerId ∧
          choice.failureDomain = pool.failureDomain := by
    intro pool hpool
    obtain ⟨hmem, rfl⟩ := Finset.mem_filter.mp hpool
    obtain ⟨choice, hfound, hdomain⟩ := Option.map_eq_some_iff.mp (hkeeps pool hmem)
    obtain ⟨hin, hsame⟩ := preferredChoice_mem_choices (hchosen.new_provider pool hmem) hfound
    exact ⟨choice, hin, hsame, hdomain⟩
  constructor
  · have hinjective : Set.InjOn PoolCandidate.providerId (chosenOf chosen storageClass) := by
      intro first hfirst second hsecond hsame
      obtain ⟨hfirst, hfirstClass⟩ := Finset.mem_filter.mp hfirst
      obtain ⟨hsecond, hsecondClass⟩ := Finset.mem_filter.mp hsecond
      exact hchosen.one_per_provider first hfirst second hsecond
        (hfirstClass.trans hsecondClass.symm) hsame
    rw [← Finset.card_image_of_injOn hinjective, ← List.length_map (f := PoolCandidate.providerId),
      ← List.toFinset_card_of_nodup (nodup_choices storageClass)]
    apply Finset.card_le_card
    intro providerId hprovider
    obtain ⟨pool, hpool, rfl⟩ := Finset.mem_image.mp hprovider
    obtain ⟨choice, hin, hsame, -⟩ := hchoice pool hpool
    exact List.mem_toFinset.mpr (List.mem_map.mpr ⟨choice, hin, hsame⟩)
  · intro domain hdomain
    obtain ⟨pool, hpool, rfl⟩ := Finset.mem_image.mp hdomain
    obtain ⟨choice, hin, -, hsame⟩ := hchoice pool hpool
    exact List.mem_toFinset.mpr (List.mem_map.mpr ⟨choice, hin, hsame⟩)

theorem satisfied_of_keepsToPreferred (hvalid : policy.validate = .ok ())
    {chosen : Finset PoolCandidate}
    (hchosen : Selectable encodedSize existingReplicas pools chosen)
    (hkeeps : KeepsToPreferred encodedSize existingReplicas pools chosen)
    (hmeets : MeetsPolicy policy existingReplicas chosen) :
    (planWithPools policy encodedSize existingReplicas pools).policySatisfied = true := by
  rw [policySatisfied_iff]
  intro storageClass
  obtain ⟨taken, rest, hchoices, -, htaken, hend⟩ := exists_taken policy encodedSize
    existingReplicas pools storageClass
  rw [ClassSatisfied, replicaCount_placements htaken, replicaDomains_placements htaken]
  rcases hend with rfl | hreached
  · rw [List.append_nil] at hchoices
    obtain ⟨hcard, hdomains⟩ := chosenOf_le_choices hchosen hkeeps storageClass
    obtain ⟨hreplicas, hcovered⟩ := hmeets storageClass
    rw [hchoices] at hcard hdomains
    refine ⟨hreplicas.trans (Nat.add_le_add_left hcard _), hcovered.trans ?_⟩
    exact Finset.card_le_card (Finset.union_subset_union_right hdomains)
  · exact ⟨(required_le_preferred hvalid storageClass).trans hreached.1, hreached.2⟩

/-- A plan satisfies the policy exactly when the policy is met by some selection that keeps to the
failure domain of the pool that the planner prefers at each provider. -/
theorem satisfied_iff_preferredChoice (policy : PlacementPolicy) (encodedSize : ℕ)
    (existingReplicas : List ExistingReplica) (pools : List PoolCandidate)
    (hvalid : policy.validate = .ok ()) :
    (planWithPools policy encodedSize existingReplicas pools).policySatisfied = true ↔
      ∃ chosen, Selectable encodedSize existingReplicas pools chosen ∧
        KeepsToPreferred encodedSize existingReplicas pools chosen ∧
        MeetsPolicy policy existingReplicas chosen := by
  constructor
  · intro h
    exact ⟨_, selectable_allChoices.1, selectable_allChoices.2, meetsPolicy_allChoices h⟩
  · rintro ⟨chosen, hchosen, hkeeps, hmeets⟩
    exact satisfied_of_keepsToPreferred hvalid hchosen hkeeps hmeets

/-- Two providers with one pool each. -/
theorem satisfied_iff_preferredChoice_twoProviders :
    ∃ chosen, Selectable 10 [] [readyPool "a" "p" "east" 0, readyPool "b" "q" "west" 1] chosen ∧
        KeepsToPreferred 10 [] [readyPool "a" "p" "east" 0, readyPool "b" "q" "west" 1] chosen ∧
        MeetsPolicy (hotPolicy 2 2 2) [] chosen :=
  (satisfied_iff_preferredChoice (hotPolicy 2 2 2) 10 [] _ (by decide)).mp (by decide)

/-- Provider `p` has a pool in the domain of `q` that comes before its pool in another one. The
second pool of `p` and the pool of `q` meet the policy; the plan takes the first of `p`. -/
def sharedDomainPools : List PoolCandidate :=
  [readyPool "p-east" "p" "east" 0, readyPool "p-west" "p" "west" 1,
    readyPool "q-east" "q" "east" 2]

/-- A selection that meets the policy can be missed. -/
theorem satisfied_missed :
    (hotPolicy 2 2 2).validate = .ok () ∧ Selectable 10 [] sharedDomainPools
        {readyPool "p-west" "p" "west" 1, readyPool "q-east" "q" "east" 2} ∧
      MeetsPolicy (hotPolicy 2 2 2) []
        {readyPool "p-west" "p" "west" 1, readyPool "q-east" "q" "east" 2} ∧
      (planWithPools (hotPolicy 2 2 2) 10 [] sharedDomainPools).policySatisfied = false := by
  refine ⟨by decide, ⟨by decide, ?_, by decide, by decide⟩, ?_, by decide⟩
  · intro pool hpool
    rw [← usable_iff]
    revert pool
    decide
  · intro storageClass
    cases storageClass <;> decide

end GameLauncher.Placement
