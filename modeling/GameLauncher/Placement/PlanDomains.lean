import GameLauncher.Placement.PlanSoundness

/-!
# Uploads for failure domains

Once a class has the preferred number of replicas, further uploads are made for failure domains
that are still missing. The order of preference puts domains without an existing replica first, but
it is fixed before the loop, so a domain that the loop itself has covered still counts as new:
`additions_repeat_domain` is a plan with an upload that adds neither a wanted replica nor a domain.

`additions_new_iff` is the exact condition under which this does not happen, in terms of the
choices of a class: those that follow the preferred number, as many as domains are still missing,
lie in new and different domains.
-/

set_option autoImplicit false

namespace GameLauncher.Placement

open Foundation Catalog List

/-! ### Pools that cover new domains -/

variable {covered : Finset Text}

/-- The pools cover failure domains that are not covered, each another one. -/
def CoverNew (covered : Finset Text) (pools : List PoolCandidate) : Prop :=
  (pools.map PoolCandidate.failureDomain).Nodup ∧ ∀ pool ∈ pools, pool.failureDomain ∉ covered

theorem poolDomains_append (first second : List PoolCandidate) :
    poolDomains (first ++ second) = poolDomains first ∪ poolDomains second := by
  rw [poolDomains, map_append, toFinset_append]
  rfl

theorem coverNew_cons {pool : PoolCandidate} {rest : List PoolCandidate} :
    CoverNew covered (pool :: rest) ↔
      pool.failureDomain ∉ covered ∧ CoverNew (insert pool.failureDomain covered) rest := by
  simp only [CoverNew, map_cons, nodup_cons, forall_mem_cons, Finset.mem_insert,
    not_or, mem_map, not_exists, not_and]
  constructor
  · rintro ⟨⟨hother, hnodup⟩, hpool, hrest⟩
    exact ⟨hpool, hnodup, fun other hmem ↦ ⟨hother other hmem, hrest other hmem⟩⟩
  · rintro ⟨hpool, hnodup, hrest⟩
    exact ⟨⟨fun other hmem ↦ (hrest other hmem).1, hnodup⟩, hpool,
      fun other hmem ↦ (hrest other hmem).2⟩

theorem CoverNew.card {pools : List PoolCandidate} (h : CoverNew covered pools) :
    (covered ∪ poolDomains pools).card = covered.card + pools.length := by
  have hdisjoint : Disjoint covered (poolDomains pools) := by
    rw [Finset.disjoint_right]
    intro domain hdomain
    obtain ⟨pool, hpool, rfl⟩ := mem_map.mp (mem_toFinset.mp hdomain)
    exact h.2 pool hpool
  rw [Finset.card_union_of_disjoint hdisjoint, poolDomains, toFinset_card_of_nodup h.1, length_map]

theorem CoverNew.take {pools : List PoolCandidate} (h : CoverNew covered pools) (count : ℕ) :
    CoverNew covered (pools.take count) := by
  refine ⟨h.1.sublist ((take_sublist count pools).map _), fun pool hpool ↦ ?_⟩
  exact h.2 pool (mem_of_mem_take hpool)

/-- If a greedy scan takes pools until enough domains are covered, what it takes covers new
domains exactly when the missing number of pools does. -/
theorem coverNew_take_iff (covered : Finset Text) (pools : List PoolCandidate) (wanted count : ℕ)
    (hearlier : ∀ earlier < count, (covered ∪ poolDomains (pools.take earlier)).card < wanted)
    (hend : count = pools.length ∨ wanted ≤ (covered ∪ poolDomains (pools.take count)).card) :
    CoverNew covered (pools.take count) ↔
      CoverNew covered (pools.take (wanted - covered.card)) := by
  constructor
  · intro hnew
    have hcard := hnew.card
    rw [length_take] at hcard
    rcases hend with rfl | hreached
    · rw [take_length] at hnew
      exact hnew.take _
    · -- Enough domains are covered, so no fewer pools were taken than domains were missing.
      have hle : wanted - covered.card ≤ count := by omega
      have htake := hnew.take (wanted - covered.card)
      rwa [take_take, min_eq_left hle] at htake
  · intro hnew
    by_cases hle : count ≤ wanted - covered.card
    · have htake := hnew.take count
      rwa [take_take, min_eq_left hle] at htake
    · -- The missing number of pools would have been enough.
      have hfewer := hearlier (wanted - covered.card) (not_le.mp hle)
      have hcard := hnew.card
      rw [length_take] at hcard
      have hall : pools.length ≤ wanted - covered.card := by omega
      rw [take_of_length_le hall] at hnew
      exact hnew.take count

/-! ### Uploads beyond the preferred number -/

/-- The preferred number of replicas that a class still lacks. -/
def missingReplicas (policy : PlacementPolicy) (existingReplicas : List ExistingReplica)
    (storageClass : StorageClass) : ℕ :=
  policy.preferredReplicas storageClass - replicaCount existingReplicas storageClass

section

variable (policy : PlacementPolicy) (encodedSize : ℕ) (existingReplicas : List ExistingReplica)
  (pools : List PoolCandidate)

/-- Every upload that a plan adds to a class after the preferred number of replicas is projected
goes to a failure domain that neither an existing replica nor an earlier upload covers. -/
def AdditionsNew : Prop :=
  ∀ storageClass, ∀ earlier action later,
    ((planWithPools policy encodedSize existingReplicas pools).actions.filter fun action ↦
        action.tier == storageClass) = earlier ++ action :: later →
      policy.preferredReplicas storageClass ≤
        replicaCount existingReplicas storageClass + earlier.length →
      action.failureDomain ∉ replicaDomains existingReplicas storageClass ∧
        ∀ other ∈ earlier, other.failureDomain ≠ action.failureDomain

/-- Of the choices of a class, those after the missing replicas, as many as failure domains are
then missing, cover new domains. -/
def SpareChoicesNew
    (storageClass : StorageClass) : Prop :=
  let all := choices encodedSize existingReplicas (ordered existingReplicas pools) storageClass
  let missing := missingReplicas policy existingReplicas storageClass
  let covered := replicaDomains existingReplicas storageClass ∪ poolDomains (all.take missing)
  CoverNew covered
    ((all.drop missing).take (policy.requiredFailureDomains storageClass - covered.card))

end

variable {policy : PlacementPolicy} {encodedSize : ℕ} {existingReplicas : List ExistingReplica}
  {pools : List PoolCandidate} {storageClass : StorageClass}

theorem coverNew_iff_splits {extra : List PoolCandidate} :
    CoverNew covered extra ↔ ∀ earlier pool later, extra = earlier ++ pool :: later →
      pool.failureDomain ∉ covered ∪ poolDomains earlier := by
  induction extra generalizing covered with
  | nil =>
    constructor
    · intro _ earlier pool later hsplit
      exact absurd hsplit (by simp)
    · intro _
      exact ⟨nodup_nil, fun _ hmem ↦ absurd hmem not_mem_nil⟩
  | cons head rest ih =>
    have hdomains (earlier : List PoolCandidate) : covered ∪ poolDomains (head :: earlier) =
        insert head.failureDomain covered ∪ poolDomains earlier := by
      rw [poolDomains, map_cons, toFinset_cons, Finset.union_insert, Finset.insert_union]
      rfl
    rw [coverNew_cons, ih]
    constructor
    · rintro ⟨hhead, hrest⟩ earlier pool later hsplit
      cases earlier with
      | nil =>
        obtain ⟨rfl, -⟩ := List.cons.inj hsplit
        rwa [poolDomains, map_nil, toFinset_nil, Finset.union_empty]
      | cons first earlier =>
        obtain ⟨rfl, htail⟩ := List.cons.inj hsplit
        rw [hdomains]
        exact hrest earlier pool later htail
    · intro hall
      refine ⟨?_, fun earlier pool later hsplit ↦ ?_⟩
      · have hfirst := hall [] head rest rfl
        rwa [poolDomains, map_nil, toFinset_nil, Finset.union_empty] at hfirst
      · rw [← hdomains]
        exact hall (head :: earlier) pool later (by rw [hsplit, cons_append])

/-- The same for the pools that follow an initial segment. -/
theorem coverNew_append_iff {base extra : List PoolCandidate} :
    CoverNew (covered ∪ poolDomains base) extra ↔
      ∀ earlier pool later, base ++ extra = earlier ++ pool :: later →
        base.length ≤ earlier.length → pool.failureDomain ∉ covered ∪ poolDomains earlier := by
  rw [coverNew_iff_splits]
  constructor
  · intro hextra earlier pool later hsplit hlength
    obtain ⟨middle, rfl⟩ : base <+: earlier :=
      prefix_of_prefix_length_le (prefix_append base extra)
        (hsplit ▸ prefix_append earlier _) hlength
    rw [append_assoc] at hsplit
    rw [poolDomains_append, ← Finset.union_assoc]
    exact hextra middle pool later (append_cancel_left hsplit)
  · intro hall earlier pool later hsplit
    rw [Finset.union_assoc, ← poolDomains_append]
    apply hall (base ++ earlier) pool later
    · rw [hsplit, append_assoc]
    · rw [length_append]
      exact Nat.le_add_right _ _

theorem reached_iff {taken : List PoolCandidate} :
    Reached policy existingReplicas storageClass taken ↔
      missingReplicas policy existingReplicas storageClass ≤ taken.length ∧
        policy.requiredFailureDomains storageClass ≤
          (replicaDomains existingReplicas storageClass ∪ poolDomains taken).card := by
  have hmissing : policy.preferredReplicas storageClass ≤
      (existingReplicas.countP fun replica ↦ replica.storageClass == storageClass) + taken.length ↔
      missingReplicas policy existingReplicas storageClass ≤ taken.length := by
    rw [missingReplicas, replicaCount]
    omega
  rw [Reached, hmissing]

/-- What the loop takes of the choices: those for the missing replicas, and then as many as it
takes to cover the required domains. The latter cover new domains exactly when the missing number
of choices does. -/
theorem coverNew_taken_iff {all : List PoolCandidate} {missing wanted count : ℕ}
    (hcount : count ≤ all.length)
    (hearlier : ∀ earlier < count, ¬ (missing ≤ (all.take earlier).length ∧
      wanted ≤ (covered ∪ poolDomains (all.take earlier)).card))
    (hend : count = all.length ∨ missing ≤ (all.take count).length ∧
      wanted ≤ (covered ∪ poolDomains (all.take count)).card) :
    CoverNew (covered ∪ poolDomains (all.take missing)) ((all.drop missing).take
        (wanted - (covered ∪ poolDomains (all.take missing)).card)) ↔
      ∀ earlier pool later, all.take count = earlier ++ pool :: later →
        missing ≤ earlier.length → pool.failureDomain ∉ covered ∪ poolDomains earlier := by
  by_cases hle : missing ≤ count
  · have hsplit (extra : ℕ) :
        all.take (missing + extra) = all.take missing ++ (all.drop missing).take extra :=
      take_add
    have hlength : (all.take missing).length = missing :=
      length_take_of_le (hle.trans hcount)
    obtain ⟨extra, rfl⟩ := Nat.exists_eq_add_of_le hle
    have hscan := coverNew_take_iff (covered ∪ poolDomains (all.take missing))
      (all.drop missing) wanted extra
    simp only [Finset.union_assoc, ← poolDomains_append, ← hsplit] at hscan
    rw [← hscan ?_ ?_, coverNew_append_iff, hlength, ← hsplit]
    · intro earlier hlt
      by_contra hcard
      refine hearlier (missing + earlier) (by omega) ⟨?_, not_lt.mp hcard⟩
      rw [length_take_of_le (by omega)]
      exact Nat.le_add_right _ _
    · refine hend.imp (fun hall ↦ ?_) And.right
      rw [length_drop]
      omega
  · -- All choices are taken and do not make up for the missing replicas.
    have hall : count = all.length := by
      rcases hend with hall | ⟨hreached, -⟩
      · exact hall
      · rw [length_take_of_le hcount] at hreached
        exact absurd hreached hle
    have hnone : all.drop missing = [] := drop_eq_nil_of_le (by omega)
    rw [hnone, take_nil]
    constructor
    · intro _ earlier pool later hsplit hlong
      have hlengths := congrArg List.length hsplit
      rw [length_take_of_le hcount, length_append, length_cons] at hlengths
      omega
    · intro _
      exact ⟨nodup_nil, fun _ hmem ↦ absurd hmem not_mem_nil⟩

theorem additions_class_iff {taken : List PoolCandidate} :
    (∀ earlier action later, taken.map PoolCandidate.action = earlier ++ action :: later →
      policy.preferredReplicas storageClass ≤
        replicaCount existingReplicas storageClass + earlier.length →
      action.failureDomain ∉ replicaDomains existingReplicas storageClass ∧
        ∀ other ∈ earlier, other.failureDomain ≠ action.failureDomain) ↔
      ∀ earlier pool later, taken = earlier ++ pool :: later →
        missingReplicas policy existingReplicas storageClass ≤ earlier.length →
        pool.failureDomain ∉ replicaDomains existingReplicas storageClass ∪
          poolDomains earlier := by
  have hmissing (count : ℕ) : policy.preferredReplicas storageClass ≤
      replicaCount existingReplicas storageClass + count ↔
      missingReplicas policy existingReplicas storageClass ≤ count := by
    rw [missingReplicas]
    omega
  have hcovered (earlier : List PoolCandidate) (domain : Text) :
      domain ∉ replicaDomains existingReplicas storageClass ∪ poolDomains earlier ↔
        domain ∉ replicaDomains existingReplicas storageClass ∧
          ∀ other ∈ earlier.map PoolCandidate.action, other.failureDomain ≠ domain := by
    rw [Finset.mem_union, not_or, poolDomains, mem_toFinset, forall_mem_map, mem_map]
    simp only [not_exists, not_and]
    rfl
  constructor
  · rintro hall earlier pool later rfl hlong
    rw [hcovered]
    apply hall _ pool.action (later.map PoolCandidate.action)
    · rw [map_append, map_cons]
    · rwa [length_map, hmissing]
  · intro hall earlier action later hsplit hlong
    obtain ⟨before, after, rfl, rfl, hafter⟩ := map_eq_append_iff.mp hsplit
    obtain ⟨pool, rest, rfl, rfl, rfl⟩ := map_eq_cons_iff.mp hafter
    rw [length_map, hmissing] at hlong
    exact (hcovered before _).mp (hall before pool rest rfl hlong)

/-- A plan never repeats a failure domain beyond the preferred number of replicas exactly when, in
every class, the choices that follow the missing replicas, as many as failure domains are then
missing, cover new domains. -/
theorem additions_new_iff (policy : PlacementPolicy) (encodedSize : ℕ)
    (existingReplicas : List ExistingReplica) (pools : List PoolCandidate) :
    AdditionsNew policy encodedSize existingReplicas pools ↔
      ∀ storageClass, SpareChoicesNew policy encodedSize existingReplicas pools storageClass := by
  apply forall_congr'
  intro storageClass
  obtain ⟨count, hcount, hcounts, hearlier, hend⟩ := classSelection_counts policy encodedSize
    existingReplicas (ordered existingReplicas pools) storageClass
  rw [filter_actions, planClass_eq_actions, hcounts.actions, additions_class_iff]
  simp only [reached_iff] at hearlier hend
  exact (coverNew_taken_iff hcount hearlier hend).symm

/-- Three pools in one failure domain before one in another. -/
def crowdedDomainPools : List PoolCandidate :=
  [readyPool "a" "p" "east" 0, readyPool "b" "q" "east" 1, readyPool "c" "r" "east" 2,
    readyPool "d" "s" "west" 3]

/-- The third upload adds neither a wanted replica nor a failure domain. -/
theorem additions_repeat_domain :
    (hotPolicy 2 2 2).validate = .ok () ∧
      ¬ AdditionsNew (hotPolicy 2 2 2) 10 [] crowdedDomainPools := by
  refine ⟨by decide, fun hnew ↦ ?_⟩
  have hactions : ((planWithPools (hotPolicy 2 2 2) 10 [] crowdedDomainPools).actions.filter
      fun action ↦ action.tier == .hot) =
      [(readyPool "a" "p" "east" 0).action, (readyPool "b" "q" "east" 1).action] ++
        (readyPool "c" "r" "east" 2).action :: [(readyPool "d" "s" "west" 3).action] := by
    decide
  have hthird := (hnew .hot _ _ _ hactions (by decide)).2
  exact hthird (readyPool "a" "p" "east" 0).action mem_cons_self rfl

end GameLauncher.Placement
