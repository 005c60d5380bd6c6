import GameLauncher.Catalog.Publication
import GameLauncher.Foundation.Run

/-!
# The publication gate

Several workers publish builds at the same time: `PublicationSystem` is the catalog together with
how far each worker is, and an event is the start of a run, one step of a run, the end of a run (by
an error or a crash, or once it is complete), or a deletion of a retirement. The steps of different
runs interleave in any order.

`published_only_through_gate` is about every reachable system in which no two runs publish the same
build at the same time. A pack-canonical build becomes published only when every chunk of its
manifest is in an attached pack that is verified and whose verified copies meet the policy in every
class. The check of the index and the publication are two statements: what carries the first over to
the second is that no other run attaches a chunk to the build, and that packs and chunks are
attached and never detached (`hasPack_perform`, `packContains_perform`).

A run outside the pack-canonical mode checks the logical chunks instead, also when the build has
packs (`gate_ignores_packs_while_migrating`).
-/

set_option autoImplicit false

namespace GameLauncher.Catalog

open Foundation Fallible Manifests Placement List Function

/-! ### What the gate requires -/

/-- The verified copies of a pack in a class; a HOT copy needs a direct URL. -/
def Database.verifiedCopies (database : Database) (packHash : Text)
    (storageClass : StorageClass) : List PackLocation :=
  database.packLocations.rows.filter fun row ↦ row.packHash == packHash &&
    row.storageClass == storageClass && row.verifiedAt.isSome &&
    (row.storageClass != .hot || row.directUrl.any (· != ' '))

/-- The verified copies of a pack meet the minima of a policy in every class. -/
structure Database.MeetsPolicy (database : Database) (policy : StoragePolicy)
    (packHash : Text) : Prop where
  replicas : ∀ storageClass, policy.requiredReplicas storageClass ≤
    ((database.verifiedCopies packHash storageClass).map PackLocation.provider).dedup.length
  failureDomains : ∀ storageClass, policy.requiredFailureDomains storageClass ≤
    ((database.verifiedCopies packHash storageClass).map PackLocation.failureDomain).dedup.length

/-- A chunk is in a pack of the build that is verified and meets the policy. -/
structure Database.InVerifiedPack (database : Database) (policy : StoragePolicy)
    (buildId encodedHash packHash : Text) : Prop where
  attached : database.hasPack buildId packHash = true
  contained : database.packContains packHash encodedHash = true
  verified : database.packVerified packHash = true
  policy : database.MeetsPolicy policy packHash

theorem buildPacksCoverAllChunks_iff {database : Database} {buildId : Text} :
    database.buildPacksCoverAllChunks buildId = true ↔
      ∀ encodedHash, database.hasChunk buildId encodedHash = true →
        ∃ packHash, database.hasPack buildId packHash = true ∧
          database.packContains packHash encodedHash = true := by
  simp only [Database.buildPacksCoverAllChunks, all_eq_true, Bool.or_eq_true, bne_iff_ne,
    ne_eq, any_eq_true, Bool.and_eq_true, beq_iff_eq, hasChunk_iff, packContains_iff,
    Table.mem_iff]
  constructor
  · rintro hcover _ ⟨chunk, hchunk, hbuild, rfl⟩
    obtain ⟨entry, hentry, hhash, hpack⟩ := (hcover chunk hchunk).resolve_left (· hbuild)
    exact ⟨entry.packHash, hpack, hhash ▸ hentry⟩
  · intro hcover chunk hchunk
    by_cases hbuild : chunk.buildId = buildId
    · obtain ⟨packHash, hpack, hentry⟩ := hcover _ ⟨chunk, hchunk, hbuild, rfl⟩
      exact .inr ⟨_, hentry, rfl, hpack⟩
    · exact .inl hbuild

theorem packReplicas_filter {database : Database} {buildId packHash : Text}
    {storageClass : StorageClass} (hpack : database.hasPack buildId packHash = true)
    (hverified : database.packVerified packHash = true) :
    (database.packReplicas buildId).filter (fun replica ↦
        replica.hash == packHash && replica.storageClass == storageClass) =
      (database.verifiedCopies packHash storageClass).map fun row ↦
        ⟨row.packHash, row.storageClass, row.provider, row.failureDomain⟩ := by
  unfold Database.packReplicas Database.verifiedCopies
  rw [filter_map, filter_filter]
  refine congrArg _ (filter_congr fun row _ ↦ ?_)
  simp only [Function.comp]
  by_cases hhash : row.packHash = packHash
  · simp only [Database.packVerified] at hverified
    simp only [hhash, hpack, hverified, beq_self_eq_true, Bool.true_and, Bool.and_true]
    simp only [Bool.and_assoc]
  · rw [beq_eq_false_iff_ne.mpr hhash]
    rfl

theorem packReplicas_filter_of_not_verified {database : Database} {buildId packHash : Text}
    {storageClass : StorageClass} (hverified : database.packVerified packHash = false) :
    (database.packReplicas buildId).filter (fun replica ↦
      replica.hash == packHash && replica.storageClass == storageClass) = [] := by
  rw [filter_eq_nil_iff]
  rintro replica hreplica
  obtain ⟨row, hrow, rfl⟩ := mem_map.mp hreplica
  have hcondition := (mem_filter.mp hrow).2
  simp only [Bool.and_eq_true, beq_iff_eq, not_and]
  rintro rfl
  simp only [Database.packVerified] at hverified
  simp [hverified] at hcondition

theorem meetsPolicy_of_not_lacksPolicy {database : Database} {policy : StoragePolicy}
    {buildId packHash : Text} (hhot : 1 ≤ policy.requiredReplicas .hot)
    (hpack : database.hasPack buildId packHash = true)
    (h : lacksPolicy policy (database.packReplicas buildId) packHash = false) :
    database.packVerified packHash = true ∧ database.MeetsPolicy policy packHash := by
  have hclass (storageClass : StorageClass) :
      lacksReplicas policy (database.packReplicas buildId) packHash storageClass = false := by
    simp only [lacksPolicy, Bool.or_eq_false_iff] at h
    cases storageClass
    · exact h.1.1
    · exact h.1.2
    · exact h.2
  have hcounts (storageClass : StorageClass) := hclass storageClass
  simp only [lacksReplicas, Bool.or_eq_false_iff, decide_eq_false_iff_not, not_lt] at hcounts
  have hverified : database.packVerified packHash = true := by
    by_contra hnot
    have hcount := (hcounts .hot).1
    rw [packReplicas_filter_of_not_verified (Bool.eq_false_of_not_eq_true hnot)] at hcount
    simp only [map_nil, dedup_nil, length_nil] at hcount
    omega
  simp only [packReplicas_filter hpack hverified, map_map] at hcounts
  exact ⟨hverified, fun storageClass ↦ (hcounts storageClass).1,
    fun storageClass ↦ (hcounts storageClass).2⟩

/-! ### Workers -/

/-- A run of a worker: the publication, and how many of its steps it has performed. -/
structure ActiveRun where
  publication : Publication
  performed : ℕ

def ActiveRun.buildId (run : ActiveRun) : Text := run.publication.manifest.buildId

/-- The catalog and the runs of the workers. -/
structure PublicationSystem where
  database : Database
  workers : ℕ → Option ActiveRun

/-- What can happen. -/
inductive PublicationEvent
  | start (worker : ℕ) (publication : Publication)
  | advance (worker : ℕ) (now : ℤ)
  | leave (worker : ℕ)
  | retireObject (encodedHash provider : Text)
  | retirePack (packHash provider directUrl : Text)

/-- One event. A step that fails ends its run. -/
def PublicationSystem.step (system : PublicationSystem) (event : PublicationEvent) :
    PublicationSystem :=
  match event with
  | .start worker publication =>
    { system with workers := Function.update system.workers worker (some ⟨publication, 0⟩) }
  | .advance worker now =>
    match system.workers worker with
    | none => system
    | some run =>
      match run.publication.steps[run.performed]? with
      | none => system
      | some next =>
        match perform now next system.database with
        | .ok database =>
          { database
            workers := Function.update system.workers worker
              (some { run with performed := run.performed + 1 }) }
        | .error _ => { system with workers := Function.update system.workers worker none }
  | .leave worker => { system with workers := Function.update system.workers worker none }
  | .retireObject encodedHash provider =>
    { system with database := system.database.deleteStorageObject encodedHash provider }
  | .retirePack packHash provider directUrl =>
    { system with database := system.database.deletePackLocation packHash provider directUrl }

/-- No two runs publish the same build at the same time. -/
def PublicationSystem.NoOverlap (system : PublicationSystem) (event : PublicationEvent) : Prop :=
  match event with
  | .start _ publication => ∀ worker run, system.workers worker = some run →
    run.buildId ≠ publication.manifest.buildId
  | _ => True

/-! ### The program of a run -/

theorem attachBuildChunk_mem {publication : Publication} {file : FileRecipe} {chunk : ChunkRef}
    (hfile : file ∈ publication.manifest.files) (hchunk : chunk ∈ file.chunks) :
    ∃ ordinal, .attachBuildChunk publication.manifest.buildId chunk.encodedHash ordinal ∈
      publication.preparationSteps := by
  obtain ⟨ordinal, hordinal⟩ := mem_iff_getElem?.mp hchunk
  refine ⟨ordinal, ?_⟩
  have hbuild : .attachBuildChunk publication.manifest.buildId chunk.encodedHash ordinal ∈
      publication.buildSteps := by
    refine mem_append_right _ (mem_flatMap.mpr ⟨file, hfile, ?_⟩)
    refine mem_flatMap.mpr ⟨(chunk, ordinal), ?_, mem_cons_of_mem _ mem_cons_self⟩
    exact mem_zipIdx_iff_getElem?.mpr hordinal
  simp only [Publication.preparationSteps, mem_append]
  exact .inl (.inl (.inr hbuild))

theorem published_step {publication : Publication} {number : ℕ} {step : PublicationStep}
    {buildId : Text} (h : publication.steps[number]? = some step)
    (hpublished : step.published = some buildId) :
    publication.manifest.buildId = buildId ∧ if publication.packCanonical then
        number = publication.preparationSteps.length + 1 ∧
          step = .publishBuildWithPackStoragePolicy buildId publication.packPolicy.toStoragePolicy
      else number = publication.preparationSteps.length ∧
        step = .publishBuildWithStoragePolicy buildId publication.policy.toStoragePolicy := by
  rw [Publication.steps] at h
  by_cases hlt : number < publication.preparationSteps.length
  · rw [List.getElem?_append_left hlt] at h
    have hbefore := Publication.beforeGate_of_mem_preparationSteps (mem_of_getElem? h)
    cases step <;> first | exact hbefore.elim | exact absurd hpublished (by decide) | skip
    all_goals simp [PublicationStep.published] at hpublished
  · rw [List.getElem?_append_right (not_lt.mp hlt), Publication.gateSteps] at h
    obtain ⟨index, hindex⟩ := Nat.exists_eq_add_of_le (not_lt.mp hlt)
    rw [hindex, Nat.add_sub_cancel_left] at h
    split_ifs at h ⊢
    · rcases index with - | - | index
      · simp only [List.getElem?_cons_zero, Option.some.injEq] at h
        subst h
        simp [PublicationStep.published] at hpublished
      · simp only [zero_add, List.getElem?_cons_succ, List.getElem?_cons_zero,
          Option.some.injEq] at h
        subst h
        simp only [PublicationStep.published, Option.some.injEq] at hpublished
        exact ⟨hpublished, hindex, by rw [hpublished]⟩
      · simp at h
    · rcases index with - | index
      · simp only [List.getElem?_cons_zero, Option.some.injEq] at h
        subst h
        simp only [PublicationStep.published, Option.some.injEq] at hpublished
        exact ⟨hpublished, hindex, by rw [hpublished]⟩
      · simp at h

theorem attachBuildChunk_step {publication : Publication} {number ordinal : ℕ}
    {buildId encodedHash : Text}
    (h : publication.steps[number]? = some (.attachBuildChunk buildId encodedHash ordinal)) :
    buildId = publication.manifest.buildId ∧ number < publication.preparationSteps.length := by
  rw [Publication.steps] at h
  by_cases hlt : number < publication.preparationSteps.length
  · rw [List.getElem?_append_left hlt] at h
    exact ⟨Publication.beforeGate_of_mem_preparationSteps (mem_of_getElem? h), hlt⟩
  · rw [List.getElem?_append_right (not_lt.mp hlt)] at h
    have hmem := mem_of_getElem? h
    unfold Publication.gateSteps at hmem
    split_ifs at hmem <;> simp at hmem

theorem check_step {publication : Publication} (hcanonical : publication.packCanonical = true) :
    publication.steps[publication.preparationSteps.length]? =
      some (.buildPacksCoverAllChunks publication.manifest.buildId) := by
  rw [Publication.steps, List.getElem?_append_right le_rfl, Nat.sub_self, Publication.gateSteps,
    if_pos hcanonical]
  rfl

/-! ### The invariant of the system -/

/-- What the catalog holds for every run: its chunks once it has attached them, and the coverage
of its build once it has checked it. -/
structure GateInvariant (system : PublicationSystem) : Prop where
  distinct : ∀ first second one two, system.workers first = some one →
    system.workers second = some two → one.buildId = two.buildId → first = second
  attached : ∀ worker run, system.workers worker = some run → ∀ encodedHash ordinal,
    .attachBuildChunk run.buildId encodedHash ordinal ∈ run.publication.steps.take run.performed →
    system.database.hasChunk run.buildId encodedHash = true
  covered : ∀ worker run, system.workers worker = some run → run.publication.packCanonical = true →
    run.publication.preparationSteps.length < run.performed →
    system.database.buildPacksCoverAllChunks run.buildId = true

theorem covered_perform {now : ℤ} {step : PublicationStep} {database after : Database}
    {buildId : Text} (h : perform now step database = .ok after)
    (hstep : ∀ encodedHash ordinal, step ≠ .attachBuildChunk buildId encodedHash ordinal)
    (hcovered : database.buildPacksCoverAllChunks buildId = true) :
    after.buildPacksCoverAllChunks buildId = true := by
  rw [buildPacksCoverAllChunks_iff] at hcovered ⊢
  intro encodedHash hchunk
  rcases (hasChunk_perform h buildId encodedHash).mp hchunk with hold | ⟨ordinal, hnew⟩
  · obtain ⟨packHash, hpack, hentry⟩ := hcovered encodedHash hold
    exact ⟨packHash, (hasPack_perform h _ _).mpr (.inl hpack),
      (packContains_perform h _ _).mpr (.inl hentry)⟩
  · exact absurd hnew (hstep encodedHash ordinal)

theorem GateInvariant.of_perform {system : PublicationSystem} {after : Database}
    (hinvariant : GateInvariant system) (now : ℤ) (step : PublicationStep)
    (h : perform now step system.database = .ok after)
    (hstep : ∀ buildId encodedHash ordinal, step ≠ .attachBuildChunk buildId encodedHash ordinal) :
    GateInvariant { system with database := after } where
  distinct := hinvariant.distinct
  attached worker run hrun encodedHash ordinal hmem :=
    (hasChunk_perform h _ _).mpr (.inl (hinvariant.attached worker run hrun encodedHash ordinal hmem))
  covered worker run hrun hcanonical hperformed :=
    covered_perform h (hstep run.buildId) (hinvariant.covered worker run hrun hcanonical hperformed)

theorem GateInvariant.of_leave {system : PublicationSystem} (hinvariant : GateInvariant system)
    (worker : ℕ) :
    GateInvariant { system with workers := Function.update system.workers worker none } := by
  have hother {other : ℕ} {run : ActiveRun}
      (hrun : Function.update system.workers worker none other = some run) :
      system.workers other = some run := by
    by_cases hsame : other = worker
    · rw [hsame, update_self] at hrun
      exact absurd hrun (by simp)
    · rwa [update_of_ne hsame] at hrun
  exact
    { distinct := fun first second one two hone htwo ↦
        hinvariant.distinct first second one two (hother hone) (hother htwo)
      attached := fun other run hrun ↦ hinvariant.attached other run (hother hrun)
      covered := fun other run hrun ↦ hinvariant.covered other run (hother hrun) }

theorem GateInvariant.of_start {system : PublicationSystem} (hinvariant : GateInvariant system)
    {worker : ℕ} {publication : Publication}
    (hfresh : ∀ other run, system.workers other = some run →
      run.buildId ≠ publication.manifest.buildId) :
    GateInvariant { system with
      workers := Function.update system.workers worker (some ⟨publication, 0⟩) } := by
  have hcases {other : ℕ} {run : ActiveRun}
      (hrun : Function.update system.workers worker (some ⟨publication, 0⟩) other = some run) :
      other = worker ∧ run = ⟨publication, 0⟩ ∨ system.workers other = some run := by
    by_cases hsame : other = worker
    · rw [hsame, update_self, Option.some.injEq] at hrun
      exact .inl ⟨hsame, hrun.symm⟩
    · rw [update_of_ne hsame] at hrun
      exact .inr hrun
  refine ⟨fun first second one two hone htwo hid ↦ ?_, fun other run hrun ↦ ?_,
    fun other run hrun ↦ ?_⟩
  · rcases hcases hone with ⟨rfl, rfl⟩ | hfirst <;> rcases hcases htwo with ⟨rfl, rfl⟩ | hsecond
    · rfl
    · exact absurd hid.symm (hfresh _ _ hsecond)
    · exact absurd hid (hfresh _ _ hfirst)
    · exact hinvariant.distinct first second one two hfirst hsecond hid
  · rcases hcases hrun with ⟨-, rfl⟩ | hold
    · simp
    · exact hinvariant.attached other run hold
  · rcases hcases hrun with ⟨-, rfl⟩ | hold
    · simp
    · exact hinvariant.covered other run hold

theorem GateInvariant.of_advance {system : PublicationSystem} (hinvariant : GateInvariant system)
    {worker : ℕ} {run : ActiveRun} {now : ℤ} {next : PublicationStep} {after : Database}
    (hrun : system.workers worker = some run)
    (hnext : run.publication.steps[run.performed]? = some next)
    (h : perform now next system.database = .ok after) :
    GateInvariant
      { database := after
        workers := Function.update system.workers worker
          (some { run with performed := run.performed + 1 }) } := by
  have hcases {other : ℕ} {found : ActiveRun}
      (hfound : Function.update system.workers worker
        (some { run with performed := run.performed + 1 }) other = some found) :
      other = worker ∧ found = { run with performed := run.performed + 1 } ∨
        other ≠ worker ∧ system.workers other = some found := by
    by_cases hsame : other = worker
    · rw [hsame, update_self, Option.some.injEq] at hfound
      exact .inl ⟨hsame, hfound.symm⟩
    · rw [update_of_ne hsame] at hfound
      exact .inr ⟨hsame, hfound⟩
  have htake : run.publication.steps.take (run.performed + 1) =
      run.publication.steps.take run.performed ++ [next] := by
    rw [take_add_one, hnext]
    rfl
  refine ⟨fun first second one two hone htwo hid ↦ ?_, fun other found hfound hash ordinal hmem ↦ ?_,
    fun other found hfound hcanonical hperformed ↦ ?_⟩
  · rcases hcases hone with ⟨rfl, rfl⟩ | ⟨-, hfirst⟩ <;>
      rcases hcases htwo with ⟨rfl, rfl⟩ | ⟨-, hsecond⟩
    · rfl
    · exact hinvariant.distinct _ _ run two hrun hsecond hid
    · exact hinvariant.distinct _ _ one run hfirst hrun hid
    · exact hinvariant.distinct _ _ one two hfirst hsecond hid
  · rw [hasChunk_perform h]
    rcases hcases hfound with ⟨rfl, rfl⟩ | ⟨-, hold⟩
    · rw [htake, mem_append, mem_singleton] at hmem
      rcases hmem with hearlier | hlast
      · exact .inl (hinvariant.attached _ run hrun hash ordinal hearlier)
      · exact .inr ⟨ordinal, hlast.symm⟩
    · exact .inl (hinvariant.attached other found hold hash ordinal hmem)
  · rcases hcases hfound with ⟨rfl, rfl⟩ | ⟨hne, hold⟩
    · have hbound : run.publication.preparationSteps.length < run.performed + 1 := hperformed
      rcases Nat.lt_succ_iff_lt_or_eq.mp hbound with hlater | hcheck
      · refine covered_perform h (fun hash ordinal heq ↦ ?_)
          (hinvariant.covered _ run hrun hcanonical hlater)
        rw [heq] at hnext
        exact absurd (attachBuildChunk_step hnext).2 (not_lt.mpr hlater.le)
      · rw [← hcheck, check_step hcanonical, Option.some.injEq] at hnext
        rw [← hnext] at h
        simp only [perform, bind_eq_ok, throwIf_eq_ok, pure_eq_ok, exists_const,
          Bool.not_eq_false] at h
        obtain ⟨hcovered, rfl⟩ := h
        exact hcovered
    · refine covered_perform h (fun hash ordinal heq ↦ ?_)
        (hinvariant.covered other found hold hcanonical hperformed)
      rw [heq] at hnext
      have hid : found.buildId = run.buildId := (attachBuildChunk_step hnext).1
      exact hne (hinvariant.distinct _ _ found run hold hrun hid)

theorem gateInvariant_step {system : PublicationSystem} {event : PublicationEvent}
    (hinvariant : GateInvariant system) (hallowed : system.NoOverlap event) :
    GateInvariant (system.step event) := by
  cases event with
  | start worker publication => exact hinvariant.of_start hallowed
  | leave worker => exact hinvariant.of_leave worker
  | retireObject encodedHash provider =>
    exact hinvariant.of_perform 0 (.deleteStorageObject encodedHash provider) rfl (by simp)
  | retirePack packHash provider directUrl =>
    exact hinvariant.of_perform 0 (.deletePackLocation packHash provider directUrl) rfl (by simp)
  | advance worker now =>
    rw [PublicationSystem.step]
    cases hrun : system.workers worker with
    | none => exact hinvariant
    | some run =>
      cases hnext : run.publication.steps[run.performed]? with
      | none => simpa only [hnext] using hinvariant
      | some next =>
        cases hperform : perform now next system.database with
        | error failure => simpa only [hnext, hperform] using hinvariant.of_leave worker
        | ok after => simpa only [hnext, hperform] using hinvariant.of_advance hrun hnext hperform

theorem one_le_hot_packPolicy (publication : Publication) :
    1 ≤ publication.packPolicy.toStoragePolicy.requiredReplicas .hot := by
  have hpolicy := one_le_hot_of_validate publication.policy_valid
  unfold Publication.packPolicy
  split_ifs
  · exact hpolicy
  · exact hpolicy

theorem exists_run_of_published {system : PublicationSystem} {event : PublicationEvent}
    {buildId : Text} (hbefore : system.database.isPublished buildId = false)
    (hafter : (system.step event).database.isPublished buildId = true) :
    ∃ worker run now next after, system.workers worker = some run ∧
      run.publication.steps[run.performed]? = some next ∧
      perform now next system.database = .ok after ∧ next.published = some buildId := by
  cases event with
  | start _ _ | leave _ | retireObject _ _ => exact absurd (hbefore.symm.trans hafter) (by decide)
  | retirePack packHash provider directUrl =>
    exact absurd (hbefore.symm.trans hafter) (by decide)
  | advance worker now =>
    rw [PublicationSystem.step] at hafter
    cases hrun : system.workers worker with
    | none =>
      simp only [hrun, hbefore] at hafter
      exact absurd hafter (by decide)
    | some run =>
      cases hnext : run.publication.steps[run.performed]? with
      | none =>
        simp only [hrun, hnext, hbefore] at hafter
        exact absurd hafter (by decide)
      | some next =>
        cases hperform : perform now next system.database with
        | error failure =>
          simp only [hrun, hnext, hperform, hbefore] at hafter
          exact absurd hafter (by decide)
        | ok after =>
          simp only [hrun, hnext, hperform] at hafter
          rcases (isPublished_perform hperform buildId).mp hafter with hpublishes | ⟨hold, -⟩
          · exact ⟨worker, run, now, next, after, hrun, hnext, hperform, hpublishes⟩
          · exact absurd (hbefore.symm.trans hold) (by decide)

/-- In every system that runs without overlap reach, a pack-canonical build becomes published only
when every chunk of its manifest is in an attached pack that is verified and meets the policy. -/
theorem published_only_through_gate {start : Database} {system : PublicationSystem}
    (hreach : Reaches PublicationSystem.step PublicationSystem.NoOverlap
      ⟨start, fun _ ↦ none⟩ system)
    {event : PublicationEvent} {buildId : Text}
    (hbefore : system.database.isPublished buildId = false)
    (hafter : (system.step event).database.isPublished buildId = true) :
    ∃ worker run, system.workers worker = some run ∧ run.buildId = buildId ∧
      (run.publication.packCanonical = true →
        ∀ file ∈ run.publication.manifest.files, ∀ chunk ∈ file.chunks, ∃ packHash,
          system.database.InVerifiedPack run.publication.packPolicy.toStoragePolicy buildId
            chunk.encodedHash packHash) := by
  have hinvariant : GateInvariant system :=
    hreach.invariant GateInvariant ⟨by simp, by simp, by simp⟩
      fun _ _ hholds hallowed ↦ gateInvariant_step hholds hallowed
  obtain ⟨worker, run, now, next, after, hrun, hnext, hperform, hpublishes⟩ :=
    exists_run_of_published hbefore hafter
  obtain ⟨hid, hgate⟩ := published_step hnext hpublishes
  refine ⟨worker, run, hrun, hid, fun hcanonical file hfile chunk hchunk ↦ ?_⟩
  rw [if_pos hcanonical] at hgate
  obtain ⟨hnumber, rfl⟩ := hgate
  simp only [perform, mapError_eq_ok, publishBuildWithPackStoragePolicy_eq_ok] at hperform
  -- the run has attached its chunks and passed the check of the index
  obtain ⟨ordinal, hattach⟩ := attachBuildChunk_mem hfile hchunk
  have hperformed : .attachBuildChunk run.buildId chunk.encodedHash ordinal ∈
      run.publication.steps.take run.performed := by
    rw [hnumber, Publication.steps, take_append]
    exact mem_append_left _ (by rwa [take_of_length_le (Nat.le_succ _)])
  have hhas := hinvariant.attached worker run hrun chunk.encodedHash ordinal hperformed
  have hcovered := hinvariant.covered worker run hrun hcanonical (hnumber ▸ Nat.lt_succ_self _)
  obtain ⟨packHash, hpack, hcontains⟩ :=
    buildPacksCoverAllChunks_iff.mp hcovered chunk.encodedHash hhas
  have hbuild : run.buildId = buildId := hid
  rw [hbuild] at hpack
  -- and its publication has counted the copies of every attached pack
  obtain ⟨hverified, hmeets⟩ := meetsPolicy_of_not_lacksPolicy
    (one_le_hot_packPolicy run.publication) hpack (hperform.1 packHash hpack)
  exact ⟨packHash, hpack, hcontains, hverified, hmeets⟩

/-! ### A catalog with one mirror -/

/-- A catalog without rows. -/
def emptyCatalog : Database :=
  ⟨.empty, .empty, .empty, .empty, .empty, .empty, .empty, .empty⟩

/-- A chunk recipe with a given encoded hash. -/
def chunkWithHash (encodedHash : Text) : ChunkRef := ⟨encodedHash, 1, encodedHash, 1, []⟩

/-- A publication of a build `b` in one file of chunks, with one pack, on one HOT mirror. -/
def mirrorPublication (canonical : Bool) (chunks entries : List Text) : Publication where
  manifest :=
    { schemaVersion := 1
      manifestId := "m"
      gameId := "g"
      buildId := "b"
      displayVersion := "1"
      chunking := .standard
      encoding := .standard
      files := [⟨"f", chunks.length, [], chunks.map chunkWithHash⟩]
      launch := ⟨"f", "."⟩ }
  policy := ⟨oneHotReplica, 1, 0, 0⟩
  policy_valid := rfl
  packsEnabled := true
  telegramEnabled := false
  launcherPackColdOnly := false
  launcherPackCanonical := canonical
  providers := [⟨"mirror", true, true⟩]
  poolForProvider _ := some ⟨"pool", .hot, 1, "domain", true, .ready⟩
  logicalRecords := chunks.map fun encodedHash ↦ .object (mirroredObject encodedHash)
  packs := [⟨"p", 1, entries⟩]
  downloadPackLocation _ _ := some ("url", none)

/-- The system after a worker has started a publication and performed some of its steps. -/
def advanced (system : PublicationSystem) (worker : ℕ) (publication : Publication) (count : ℕ) :
    PublicationSystem :=
  (List.replicate count (.advance worker 1)).foldl PublicationSystem.step
    (system.step (.start worker publication))

theorem reaches_advanced {allowed : PublicationSystem → PublicationEvent → Prop}
    {start system : PublicationSystem} {worker : ℕ} {publication : Publication}
    (h : Reaches PublicationSystem.step allowed start system)
    (hstart : allowed system (.start worker publication))
    (hadvance : ∀ other, allowed other (.advance worker 1)) (count : ℕ) :
    Reaches PublicationSystem.step allowed start (advanced system worker publication count) := by
  refine (h.step hstart).foldl ?_
  generalize system.step (.start worker publication) = current
  induction count generalizing current with
  | zero => trivial
  | succ count ih => exact ⟨hadvance current, ih _⟩

/-- A worker that is about to publish a build whose pack has its only chunk. -/
def aboutToPublish : PublicationSystem :=
  advanced ⟨emptyCatalog, fun _ ↦ none⟩ 0 (mirrorPublication true ["a"] ["a"]) 21

theorem published_only_through_gate_mirror :
    aboutToPublish.database.isPublished "b" = false ∧
      (aboutToPublish.step (.advance 0 1)).database.isPublished "b" = true ∧
      ∃ worker run, aboutToPublish.workers worker = some run ∧ run.buildId = "b" ∧
        (run.publication.packCanonical = true →
          ∀ file ∈ run.publication.manifest.files, ∀ chunk ∈ file.chunks, ∃ packHash,
            aboutToPublish.database.InVerifiedPack run.publication.packPolicy.toStoragePolicy
              "b" chunk.encodedHash packHash) := by
  have hbefore : aboutToPublish.database.isPublished "b" = false := by decide
  have hafter : (aboutToPublish.step (.advance 0 1)).database.isPublished "b" = true := by
    decide
  have hreach : Reaches PublicationSystem.step PublicationSystem.NoOverlap
      ⟨emptyCatalog, fun _ ↦ none⟩ aboutToPublish :=
    reaches_advanced .refl (by simp [PublicationSystem.NoOverlap]) (fun _ ↦ trivial) _
  exact ⟨hbefore, hafter, published_only_through_gate hreach hbefore hafter⟩

/-- A publication of two chunks, one of which its pack lacks. -/
def incompletePublication (canonical : Bool) : Publication :=
  mirrorPublication canonical ["a", "z"] ["a"]

/-- A worker outside the pack-canonical mode that is about to publish. -/
def migrating : PublicationSystem :=
  advanced ⟨emptyCatalog, fun _ ↦ none⟩ 0 (incompletePublication false) 26

/-- A second worker has written the build anew and attached its chunks after the first has checked
the index. -/
def overlapping : PublicationSystem := advanced aboutToPublish 1 (incompletePublication true) 9

theorem reaches_overlapping : Reaches PublicationSystem.step (fun _ _ ↦ True)
    ⟨emptyCatalog, fun _ ↦ none⟩ overlapping :=
  reaches_advanced (reaches_advanced .refl trivial (fun _ ↦ trivial) _) trivial (fun _ ↦ trivial) _

/-- A build with a pack becomes published although no pack contains one of its chunks: outside the
pack-canonical mode, and when a second run of the same build attaches the chunk between the check
of the index and the publication. -/
theorem gate_ignores_packs_while_migrating :
    (Reaches PublicationSystem.step (fun _ _ ↦ True) ⟨emptyCatalog, fun _ ↦ none⟩ migrating ∧
      migrating.database.isPublished "b" = false ∧
      (migrating.step (.advance 0 1)).database.isPublished "b" = true ∧
      migrating.database.hasPack "b" "p" = true ∧
      (∃ file ∈ (incompletePublication false).manifest.files, chunkWithHash "z" ∈ file.chunks) ∧
      ∀ packHash, migrating.database.packContains packHash "z" = false) ∧
    Reaches PublicationSystem.step (fun _ _ ↦ True) ⟨emptyCatalog, fun _ ↦ none⟩ overlapping ∧
      overlapping.database.isPublished "b" = false ∧
      (overlapping.step (.advance 0 1)).database.isPublished "b" = true ∧
      overlapping.database.hasPack "b" "p" = true ∧
      (∃ file ∈ (incompletePublication true).manifest.files, chunkWithHash "z" ∈ file.chunks) ∧
      ∀ packHash, overlapping.database.packContains packHash "z" = false := by
  have hnone (database : Database)
      (h : (database.packChunks.rows.any fun row ↦ row.encodedHash == "z") = false)
      (packHash : Text) : database.packContains packHash "z" = false := by
    simp only [any_eq_false, beq_iff_eq] at h
    simp only [Database.packContains, any_eq_false, Bool.and_eq_true, beq_iff_eq, not_and]
    exact fun row hrow _ ↦ h row hrow
  refine ⟨⟨reaches_advanced .refl trivial (fun _ ↦ trivial) _, by decide,
      by decide, by decide, by decide, hnone _ (by decide)⟩,
    reaches_overlapping, by decide, by decide, by decide, by decide,
    hnone _ (by decide)⟩

end GameLauncher.Catalog
