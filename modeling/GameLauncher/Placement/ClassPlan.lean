import GameLauncher.Foundation.GreedyScan
import GameLauncher.Placement.Planner

/-!
# What a placement plan selects

In each class the planner takes the usable pools in its order of preference, at most one for each
provider, until the wanted numbers are reached. `choices` are the pools it may come to take, and
`planClass_eq` says which of them it takes: the shortest initial segment with enough replicas and
failure domains, or all of them.
-/

set_option autoImplicit false

namespace GameLauncher.Placement

open Foundation Catalog List

/-! ### Usable pools -/

variable {encodedSize : ℕ}

/-- The pool may take an object of the size: it is enabled and healthy, its status allows it, and
its free capacity is unknown or sufficient. -/
structure PoolCandidate.Usable (candidate : PoolCandidate) (encodedSize : ℕ) : Prop where
  enabled : candidate.enabled = true
  healthy : candidate.healthy = true
  not_disabled : candidate.status ≠ .disabled
  not_unavailable : candidate.status ≠ .unavailable
  not_needsCapacity : candidate.status ≠ .needsCapacity
  capacity : ∀ available ∈ candidate.capacityAvailableBytes, encodedSize ≤ available

/-- The checks of the loop, apart from the one on the provider. -/
def PoolCandidate.usable (candidate : PoolCandidate) (encodedSize : ℕ) : Bool :=
  candidate.eligible encodedSize []

variable {candidate : PoolCandidate}

theorem eligible_iff {taken : List Text} :
    candidate.eligible encodedSize taken = true ↔
      candidate.usable encodedSize = true ∧ candidate.providerId ∉ taken := by
  simp only [PoolCandidate.usable, PoolCandidate.eligible, Bool.and_eq_true, Bool.not_eq_true',
    contains_eq_mem, decide_eq_false_iff_not, not_mem_nil, not_false_eq_true, and_true]
  tauto

theorem usable_iff : candidate.usable encodedSize = true ↔ candidate.Usable encodedSize := by
  simp only [PoolCandidate.usable, PoolCandidate.eligible, Bool.and_eq_true, Bool.not_eq_true',
    contains_eq_mem, decide_eq_false_iff_not, not_mem_nil, not_false_eq_true, and_true,
    bne_iff_ne, ne_eq, Option.any_eq_false, not_lt]
  constructor
  · rintro ⟨⟨⟨⟨⟨henabled, hhealthy⟩, hdisabled⟩, hunavailable⟩, hneeds⟩, hcapacity⟩
    exact ⟨henabled, hhealthy, hdisabled, hunavailable, hneeds, hcapacity⟩
  · rintro ⟨henabled, hhealthy, hdisabled, hunavailable, hneeds, hcapacity⟩
    exact ⟨⟨⟨⟨⟨henabled, hhealthy⟩, hdisabled⟩, hunavailable⟩, hneeds⟩, hcapacity⟩

def readyPool (poolId providerId failureDomain : String) (priority : ℤ) : PoolCandidate where
  poolId := poolId.toList
  providerId := providerId.toList
  storageClass := .hot
  priority := priority
  failureDomain := failureDomain.toList
  enabled := true
  status := .ready
  healthy := true
  capacityAvailableBytes := none

/-- A policy that concerns the HOT class only. -/
def hotPolicy (required preferred domains : ℕ) : PlacementPolicy where
  minVerifiedHotReplicas := required
  minVerifiedColdReplicas := 0
  minVerifiedArchiveReplicas := 0
  preferredHotReplicas := preferred
  preferredColdReplicas := 0
  preferredArchiveReplicas := 0
  minHotFailureDomains := domains
  minColdFailureDomains := 0
  minArchiveFailureDomains := 0
  coldBackupRequired := false

/-! ### The loop as a scan -/

variable {selection : Selection}

theorem selectCandidates_of_enough {desired desiredDomains : ℕ} (candidates : List PoolCandidate)
    (h : selection.enough desired desiredDomains = true) :
    selectCandidates encodedSize desired desiredDomains candidates selection = selection := by
  induction candidates with
  | nil => rfl
  | cons candidate rest ih =>
    rw [selectCandidates, h, Bool.true_or, if_pos rfl, ih]

/-- The loop takes the first usable pool of each provider that is not taken, until the numbers are
reached. -/
theorem selectCandidates_eq_fillUntil (encodedSize desired desiredDomains : ℕ)
    (candidates : List PoolCandidate) (selection : Selection) :
    selectCandidates encodedSize desired desiredDomains candidates selection =
      fillUntil (fun state ↦ state.enough desired desiredDomains) Selection.add
        (firstsBy PoolCandidate.providerId selection.selectedProviders
          (candidates.filter fun candidate ↦ candidate.usable encodedSize)) selection := by
  have hstop (items : List PoolCandidate) {state : Selection}
      (h : state.enough desired desiredDomains = true) :
      fillUntil (fun state ↦ state.enough desired desiredDomains) Selection.add items state =
        state :=
    fillUntil_of_done items h
  induction candidates generalizing selection with
  | nil => rfl
  | cons candidate rest ih =>
    by_cases henough : selection.enough desired desiredDomains = true
    · rw [selectCandidates_of_enough _ henough, hstop _ henough]
    · rw [selectCandidates, Bool.eq_false_iff.mpr henough, Bool.false_or, filter_cons]
      by_cases husable : candidate.usable encodedSize = true
      · rw [if_pos husable, firstsBy]
        by_cases htaken : candidate.providerId ∈ selection.selectedProviders
        · have hskip : (!candidate.eligible encodedSize selection.selectedProviders) = true := by
            rw [Bool.not_eq_true', Bool.eq_false_iff, ne_eq, eligible_iff]
            exact fun h ↦ h.2 htaken
          rw [if_pos hskip, if_pos htaken, ih]
        · have hkeep : ¬ (!candidate.eligible encodedSize selection.selectedProviders) = true := by
            rw [Bool.not_eq_true', Bool.not_eq_false, eligible_iff]
            exact ⟨husable, htaken⟩
          rw [if_neg hkeep, if_neg htaken]
          refine Eq.trans ?_ (if_neg henough).symm
          by_cases hnext : (selection.add candidate).enough desired desiredDomains = true
          · exact (if_pos hnext).trans (hstop _ hnext).symm
          · exact (if_neg hnext).trans (ih (selection.add candidate))
      · have hskip : (!candidate.eligible encodedSize selection.selectedProviders) = true := by
          rw [Bool.not_eq_true', Bool.eq_false_iff, ne_eq, eligible_iff]
          exact fun h ↦ husable h.1
        rw [if_pos hskip, if_neg husable, ih]

/-! ### The selection of a class -/

variable {candidates : List PoolCandidate} {existingReplicas : List ExistingReplica}
  {storageClass : StorageClass}

/-- The state of the loop before the candidates of a class. -/
def initialSelection (existingReplicas : List ExistingReplica) (storageClass : StorageClass) :
    Selection where
  actions := []
  projected := existingReplicas.countP fun replica ↦ replica.storageClass == storageClass
  projectedDomains := (existingDomains existingReplicas storageClass).length
  domains := existingDomains existingReplicas storageClass
  selectedProviders := existingReplicas.map ExistingReplica.providerId

/-- The state of the loop after the candidates of a class. -/
def classSelection (policy : PlacementPolicy) (encodedSize : ℕ)
    (existingReplicas : List ExistingReplica) (candidates : List PoolCandidate)
    (storageClass : StorageClass) : Selection :=
  selectCandidates encodedSize (policy.preferredReplicas storageClass)
    (policy.requiredFailureDomains storageClass)
    (candidates.filter fun candidate ↦ candidate.storageClass == storageClass)
    (initialSelection existingReplicas storageClass)

theorem planClass_eq_actions {policy : PlacementPolicy} :
    planClass policy encodedSize existingReplicas candidates storageClass =
      (classSelection policy encodedSize existingReplicas candidates storageClass).actions :=
  rfl

/-- The pools of a class that the planner may come to take: the first usable one of each provider
without an existing replica. -/
def choices (encodedSize : ℕ) (existingReplicas : List ExistingReplica)
    (candidates : List PoolCandidate) (storageClass : StorageClass) : List PoolCandidate :=
  firstsBy PoolCandidate.providerId (existingReplicas.map ExistingReplica.providerId)
    ((candidates.filter fun candidate ↦ candidate.storageClass == storageClass).filter
      fun candidate ↦ candidate.usable encodedSize)

theorem of_mem_choices
    (h : candidate ∈ choices encodedSize existingReplicas candidates storageClass) :
    candidate ∈ candidates ∧ candidate.storageClass = storageClass ∧
      candidate.usable encodedSize = true ∧
      candidate.providerId ∉ existingReplicas.map ExistingReplica.providerId := by
  obtain ⟨hclass, husable⟩ := mem_filter.mp (mem_of_mem_firstsBy h)
  obtain ⟨hmem, hclass⟩ := mem_filter.mp hclass
  exact ⟨hmem, beq_iff_eq.mp hclass, husable, (mem_firstsBy.mp h).1⟩

theorem exists_choice (hmem : candidate ∈ candidates)
    (husable : candidate.usable encodedSize = true)
    (hprovider : candidate.providerId ∉ existingReplicas.map ExistingReplica.providerId) :
    ∃ choice ∈ choices encodedSize existingReplicas candidates candidate.storageClass,
      choice.providerId = candidate.providerId := by
  apply exists_mem_firstsBy _ hprovider
  rw [mem_filter, mem_filter]
  exact ⟨⟨hmem, beq_self_eq_true _⟩, husable⟩

/-! ### The counters of the loop -/

variable {taken : List PoolCandidate}

def replicaDomains (existingReplicas : List ExistingReplica) (storageClass : StorageClass) :
    Finset Text :=
  ((existingReplicas.filter fun replica ↦ replica.storageClass == storageClass).map
    ExistingReplica.failureDomain).toFinset

def poolDomains (pools : List PoolCandidate) : Finset Text :=
  (pools.map PoolCandidate.failureDomain).toFinset

theorem length_existingDomains (existingReplicas : List ExistingReplica)
    (storageClass : StorageClass) :
    (existingDomains existingReplicas storageClass).length =
      (replicaDomains existingReplicas storageClass).card :=
  (card_toFinset _).symm

theorem mem_existingDomains {domain : Text} :
    domain ∈ existingDomains existingReplicas storageClass ↔
      domain ∈ replicaDomains existingReplicas storageClass := by
  rw [existingDomains, mem_dedup, replicaDomains, mem_toFinset]

/-- What the loop knows after it has taken some pools: its counters are the numbers of replicas
and of failure domains that exist or are planned. -/
structure Selection.Counts (selection : Selection) (existingReplicas : List ExistingReplica)
    (storageClass : StorageClass) (taken : List PoolCandidate) : Prop where
  actions : selection.actions = taken.map PoolCandidate.action
  projected : selection.projected =
    (existingReplicas.countP fun replica ↦ replica.storageClass == storageClass) + taken.length
  projectedDomains : selection.projectedDomains =
    (replicaDomains existingReplicas storageClass ∪ poolDomains taken).card
  domains : ∀ domain, domain ∈ selection.domains ↔
    domain ∈ replicaDomains existingReplicas storageClass ∪ poolDomains taken

theorem counts_initialSelection (existingReplicas : List ExistingReplica)
    (storageClass : StorageClass) :
    (initialSelection existingReplicas storageClass).Counts existingReplicas storageClass [] where
  actions := rfl
  projected := rfl
  projectedDomains := by
    rw [poolDomains, map_nil, toFinset_nil, Finset.union_empty]
    exact length_existingDomains existingReplicas storageClass
  domains := fun domain ↦ by
    rw [poolDomains, map_nil, toFinset_nil, Finset.union_empty]
    exact mem_existingDomains

theorem poolDomains_concat (taken : List PoolCandidate) (candidate : PoolCandidate) :
    poolDomains (taken ++ [candidate]) = insert candidate.failureDomain (poolDomains taken) := by
  rw [poolDomains, map_append, toFinset_append, map_singleton,
    toFinset_cons, toFinset_nil, Finset.union_comm]
  rfl

theorem Selection.Counts.add (h : selection.Counts existingReplicas storageClass taken)
    (candidate : PoolCandidate) :
    (selection.add candidate).Counts existingReplicas storageClass (taken ++ [candidate]) where
  actions := by
    rw [Selection.add, h.actions, map_append, map_singleton]
  projected := by
    rw [Selection.add, h.projected, length_append, length_singleton, Nat.add_assoc]
  projectedDomains := by
    rw [Selection.add, h.projectedDomains, poolDomains_concat, Finset.union_insert]
    by_cases hmem : candidate.failureDomain ∈
        replicaDomains existingReplicas storageClass ∪ poolDomains taken
    · rw [Finset.insert_eq_of_mem hmem, if_pos ((h.domains _).mpr hmem)]
      rfl
    · rw [Finset.card_insert_of_notMem hmem, if_neg fun hin ↦ hmem ((h.domains _).mp hin)]
  domains := fun domain ↦ by
    rw [Selection.add, mem_insert_iff, h.domains, poolDomains_concat, Finset.union_insert,
      Finset.mem_insert]

theorem Selection.Counts.foldl (h : selection.Counts existingReplicas storageClass taken)
    (more : List PoolCandidate) :
    (more.foldl Selection.add selection).Counts existingReplicas storageClass (taken ++ more) := by
  induction more generalizing selection taken with
  | nil => rwa [append_nil]
  | cons candidate rest ih =>
    rw [foldl_cons, append_cons]
    exact ih (h.add candidate)

/-- The numbers that the policy wants of a class are reached by the existing replicas and the
pools. -/
def Reached (policy : PlacementPolicy) (existingReplicas : List ExistingReplica)
    (storageClass : StorageClass) (taken : List PoolCandidate) : Prop :=
  policy.preferredReplicas storageClass ≤
      (existingReplicas.countP fun replica ↦ replica.storageClass == storageClass) + taken.length ∧
    policy.requiredFailureDomains storageClass ≤
      (replicaDomains existingReplicas storageClass ∪ poolDomains taken).card

theorem Selection.Counts.enough_iff (h : selection.Counts existingReplicas storageClass taken)
    (policy : PlacementPolicy) :
    selection.enough (policy.preferredReplicas storageClass)
        (policy.requiredFailureDomains storageClass) = true ↔
      Reached policy existingReplicas storageClass taken := by
  rw [Selection.enough, Bool.and_eq_true, decide_eq_true_eq, decide_eq_true_eq, h.projected,
    h.projectedDomains, Reached]

/-- The loop takes the shortest initial segment of the choices that reaches the wanted numbers,
or all of them. -/
theorem classSelection_counts (policy : PlacementPolicy) (encodedSize : ℕ)
    (existingReplicas : List ExistingReplica) (candidates : List PoolCandidate)
    (storageClass : StorageClass) :
    let all := choices encodedSize existingReplicas candidates storageClass
    ∃ count ≤ all.length,
      (classSelection policy encodedSize existingReplicas candidates storageClass).Counts
          existingReplicas storageClass (all.take count) ∧
        (∀ earlier < count, ¬ Reached policy existingReplicas storageClass (all.take earlier)) ∧
        (count = all.length ∨ Reached policy existingReplicas storageClass (all.take count)) := by
  intro all
  have hcounts (taken : List PoolCandidate) :
      (taken.foldl Selection.add (initialSelection existingReplicas storageClass)).Counts
        existingReplicas storageClass taken := by
    simpa using (counts_initialSelection existingReplicas storageClass).foldl taken
  obtain ⟨count, hcount, hresult, hearlier, hend⟩ := fillUntil_spec
    (fun state : Selection ↦ state.enough (policy.preferredReplicas storageClass)
      (policy.requiredFailureDomains storageClass)) Selection.add all
    (initialSelection existingReplicas storageClass)
  have hloop : classSelection policy encodedSize existingReplicas candidates storageClass =
      (all.take count).foldl Selection.add (initialSelection existingReplicas storageClass) := by
    rw [← hresult]
    exact selectCandidates_eq_fillUntil _ _ _ _ _
  refine ⟨count, hcount, ?_, ?_, hend.imp_right ?_⟩
  · rw [hloop]
    exact hcounts _
  · intro earlier hlt hreached
    have hdone := ((hcounts (all.take earlier)).enough_iff policy).mpr hreached
    exact Bool.noConfusion ((hearlier earlier hlt).symm.trans hdone)
  · intro hdone
    rw [hresult] at hdone
    exact ((hcounts (all.take count)).enough_iff policy).mp hdone

/-! ### The uploads of a plan -/

theorem mem_allClasses (storageClass : StorageClass) :
    storageClass ∈ [StorageClass.hot, .cold, .archive] := by
  cases storageClass <;> decide

/-- The candidates of a plan in the planner's order. -/
def ordered (existingReplicas : List ExistingReplica) (pools : List PoolCandidate) :
    List PoolCandidate :=
  pools.insertionSort fun left right ↦ preferred existingReplicas left right

theorem filter_actions (policy : PlacementPolicy) (encodedSize : ℕ)
    (existingReplicas : List ExistingReplica) (pools : List PoolCandidate)
    (storageClass : StorageClass) :
    ((planWithPools policy encodedSize existingReplicas pools).actions.filter fun action ↦
        action.tier == storageClass) =
      planClass policy encodedSize existingReplicas (ordered existingReplicas pools)
        storageClass := by
  have hown (other : StorageClass) :
      ((planClass policy encodedSize existingReplicas (ordered existingReplicas pools)
        other).filter fun action ↦ action.tier == storageClass) =
        if other = storageClass then planClass policy encodedSize existingReplicas
          (ordered existingReplicas pools) other else [] := by
    by_cases hsame : other = storageClass
    · rw [if_pos hsame, filter_eq_self]
      intro action haction
      rw [(planClass_spec.2 action haction).1, hsame, beq_self_eq_true]
    · rw [if_neg hsame, filter_eq_nil_iff]
      intro action haction
      rw [(planClass_spec.2 action haction).1, beq_iff_eq]
      exact hsame
  have hactions : (planWithPools policy encodedSize existingReplicas pools).actions =
      [StorageClass.hot, .cold, .archive].flatMap
        (planClass policy encodedSize existingReplicas (ordered existingReplicas pools)) := rfl
  rw [hactions, filter_flatMap]
  simp only [flatMap_cons, flatMap_nil, hown]
  cases storageClass <;> simp

end GameLauncher.Placement
