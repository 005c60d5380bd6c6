import GameLauncher.Catalog.FailedPublication

/-!
# Publishing a build again

The rows of `build_chunks` and `build_packs` say of what a build is made: coverage checks,
resolution and retirement read them. `publish_verified_build` writes the row of its build anew but
only adds to these rows, with upserts, and no statement deletes from them. After any history of
attempts to publish builds, complete or not, `mapsExactly_iff` says exactly when a complete
publication leaves the rows of its own manifest and package and no others: when no earlier attempt
has attached a chunk or a pack that the latest publication lacks.
-/

set_option autoImplicit false

namespace GameLauncher.Catalog

open Foundation Fallible Manifests Placement List Publication

/-! ### The mapping of a build -/

def HasChunkAt (manifest : Manifest) (encodedHash : Text) (ordinal : ℕ) : Prop :=
  ∃ file ∈ manifest.files, ∃ chunk,
    file.chunks[ordinal]? = some chunk ∧ chunk.encodedHash = encodedHash

def Publication.HasPackFile (publication : Publication) (packHash : Text) : Prop :=
  packHash ∈ publication.packs.map PackFile.packHash

/-- The rows of the build are the chunks of the manifest and the packs of the package. -/
structure Database.MapsExactly (database : Database) (publication : Publication) : Prop where
  chunks : ∀ encodedHash ordinal,
    ⟨publication.manifest.buildId, encodedHash, ordinal⟩ ∈ database.buildChunks ↔
      HasChunkAt publication.manifest encodedHash ordinal
  packs : ∀ packHash, ⟨publication.manifest.buildId, packHash⟩ ∈ database.buildPacks ↔
    publication.HasPackFile packHash

/-! ### Attempts -/

/-- An attempt to publish a build, and where it stops. -/
structure Attempt where
  publication : Publication
  storage : StorageRegistry
  clock : ℕ → ℤ
  stop : Stop

/-- The steps that an attempt performs before the retirement. -/
def Attempt.performed (attempt : Attempt) : List PublicationStep :=
  match attempt.stop with
  | .publishing performed => attempt.publication.steps.take performed
  | .retiring _ => attempt.publication.steps

/-- The catalog after one attempt after another. -/
def performAttempts (attempts : List Attempt) (database : Database) :
    Except WorkerError Database :=
  attempts.foldlM (fun database attempt ↦
    attempt.publication.stopped attempt.storage attempt.clock database attempt.stop) database

/-- `publish_verified_build` from its beginning to its end. -/
def Publication.publishVerifiedBuild (publication : Publication) (storage : StorageRegistry)
    (clock : ℕ → ℤ) (database : Database) : Except WorkerError Database := do
  let committed ← performAll clock 0 publication.steps database
  performAll clock publication.steps.length (publication.retirementSteps storage committed)
    committed

/-! ### What steps add to the mapping -/

variable {storage : StorageRegistry}

section Steps

variable {publication : Publication} {clock : ℕ → ℤ} {number : ℕ} {database after : Database}
  {steps : List PublicationStep}

theorem mem_buildChunks_perform {now : ℤ} {step : PublicationStep}
    (h : perform now step database = .ok after) (row : BuildChunk) :
    row ∈ after.buildChunks ↔ row ∈ database.buildChunks ∨
      step = .attachBuildChunk row.buildId row.encodedHash row.ordinal := by
  have htable := (perform_tables h).1
  cases step
  case attachBuildChunk buildId encodedHash ordinal =>
    rw [htable, Table.mem_upsert, PublicationStep.attachBuildChunk.injEq]
    constructor
    · rintro (rfl | ⟨hrow, -⟩)
      · exact .inr ⟨rfl, rfl, rfl⟩
      · exact .inl hrow
    · rintro (hrow | ⟨rfl, rfl, rfl⟩)
      · by_cases hkey : (row.buildId, row.encodedHash, row.ordinal) =
            (buildId, encodedHash, ordinal)
        · simp only [Prod.mk.injEq] at hkey
          obtain ⟨rfl, rfl, rfl⟩ := hkey
          exact .inl rfl
        · exact .inr ⟨hrow, hkey⟩
      · exact .inl rfl
  all_goals rw [htable, or_iff_left nofun]

theorem mem_buildChunks_performAll (h : performAll clock number steps database = .ok after)
    (row : BuildChunk) : row ∈ after.buildChunks ↔ row ∈ database.buildChunks ∨
      .attachBuildChunk row.buildId row.encodedHash row.ordinal ∈ steps := by
  induction steps generalizing number database with
  | nil => simp [← Except.ok.inj h]
  | cons step rest ih =>
    rw [performAll, bind_eq_ok] at h
    obtain ⟨next, hnext, hrest⟩ := h
    rw [ih hrest, mem_buildChunks_perform hnext, mem_cons, or_assoc, eq_comm (a := step)]

theorem mem_buildPacks_performAll (h : performAll clock number steps database = .ok after)
    (row : BuildPack) : row ∈ after.buildPacks ↔ row ∈ database.buildPacks ∨
      .attachBuildPack row.buildId row.packHash ∈ steps := by
  have hpack := hasPack_performAll h row.buildId row.packHash
  rwa [hasPack_iff, hasPack_iff] at hpack

variable {buildId : Text}

theorem attachBuildChunk_mem_buildSteps {encodedHash : Text} {ordinal : ℕ}
    (h : .attachBuildChunk buildId encodedHash ordinal ∈ publication.steps) :
    .attachBuildChunk buildId encodedHash ordinal ∈ publication.buildSteps := by
  rw [steps, preparationSteps] at h
  simp only [mem_append] at h
  rcases h with (((hconfiguration | hbuild) | hlogical) | hpacks) | hgate
  · simp [configurationSteps] at hconfiguration
  · exact hbuild
  · split_ifs at hlogical
    · exact absurd hlogical not_mem_nil
    · obtain ⟨record, -, hrecord⟩ := mem_flatMap.mp hlogical
      cases record <;> simp at hrecord
  · split_ifs at hpacks
    · simp [publishPhysicalPacks, packSteps, uploadSteps, actionSteps] at hpacks
    · exact absurd hpacks not_mem_nil
  · unfold gateSteps at hgate
    split_ifs at hgate <;> simp at hgate

theorem attachBuildChunk_mem_steps {encodedHash : Text} {ordinal : ℕ} :
    .attachBuildChunk buildId encodedHash ordinal ∈ publication.steps ↔
      buildId = publication.manifest.buildId ∧
        HasChunkAt publication.manifest encodedHash ordinal := by
  have hbuild : .attachBuildChunk buildId encodedHash ordinal ∈ publication.buildSteps ↔
      buildId = publication.manifest.buildId ∧
        HasChunkAt publication.manifest encodedHash ordinal := by
    simp only [buildSteps, mem_append, mem_cons, not_mem_nil, or_false,
      reduceCtorEq, false_or, mem_flatMap, PublicationStep.attachBuildChunk.injEq, Prod.exists,
      mem_zipIdx_iff_getElem?, HasChunkAt]
    constructor
    · rintro ⟨file, hfile, chunk, position, hchunk, rfl, rfl, rfl⟩
      exact ⟨rfl, file, hfile, chunk, hchunk, rfl⟩
    · rintro ⟨rfl, file, hfile, chunk, hchunk, rfl⟩
      exact ⟨file, hfile, chunk, ordinal, hchunk, rfl, rfl, rfl⟩
  rw [← hbuild]
  refine ⟨attachBuildChunk_mem_buildSteps, fun h ↦ ?_⟩
  simp only [steps, preparationSteps, mem_append]
  exact .inl (.inl (.inl (.inr h)))

theorem attachBuildPack_mem_steps {packHash : Text} :
    .attachBuildPack buildId packHash ∈ publication.steps ↔
      buildId = publication.manifest.buildId ∧ publication.packsEnabled = true ∧
        publication.HasPackFile packHash := by
  constructor
  · intro h
    obtain ⟨hid, file, hfile, rfl⟩ := exists_file_of_attachBuildPack h
    unfold uploaded at hfile
    split_ifs at hfile with hpacks
    · exact ⟨hid, hpacks, mem_map_of_mem hfile⟩
    · exact absurd hfile not_mem_nil
  · rintro ⟨rfl, hpacks, hpack⟩
    obtain ⟨file, hfile, rfl⟩ := mem_map.mp hpack
    rw [steps_eq, mem_append, mem_append, mem_flatMap]
    refine .inl (.inr ⟨file, ?_, ?_⟩)
    · rwa [uploaded, if_pos hpacks]
    · simp [packSteps, uploadSteps]

/-- The step adds no row to the mapping of a build. -/
structure PublicationStep.AttachesNothing (step : PublicationStep) : Prop where
  chunks : ∀ buildId encodedHash ordinal, step ≠ .attachBuildChunk buildId encodedHash ordinal
  packs : ∀ buildId packHash, step ≠ .attachBuildPack buildId packHash

theorem retirement_attaches_nothing {committed : Database} {step : PublicationStep}
    (h : step ∈ publication.retirementSteps storage committed) : step.AttachesNothing := by
  refine ⟨?_, (of_mem_retirementSteps h).2.2.2.1⟩
  simp only [retirementSteps, mem_append] at h
  rcases h with hobjects | hpacks
  · split_ifs at hobjects
    · exact absurd hobjects not_mem_nil
    · obtain ⟨object, -, hmem⟩ := mem_flatMap.mp hobjects
      simp only [mem_cons, not_mem_nil, or_false] at hmem
      rcases hmem with rfl | rfl <;> rintro _ _ _ ⟨⟩
  · obtain ⟨location, -, hmem⟩ := mem_flatMap.mp hpacks
    simp only [mem_cons, not_mem_nil, or_false] at hmem
    rcases hmem with rfl | rfl <;> rintro _ _ _ ⟨⟩

end Steps

/-! ### What attempts add to the mapping -/

variable {before : Database}

/-- What the steps of a list add to the two tables. -/
structure Adds (steps : List PublicationStep) (before after : Database) : Prop where
  chunks : ∀ row, row ∈ after.buildChunks ↔ row ∈ before.buildChunks ∨
    .attachBuildChunk row.buildId row.encodedHash row.ordinal ∈ steps
  packs : ∀ row, row ∈ after.buildPacks ↔ row ∈ before.buildPacks ∨
    .attachBuildPack row.buildId row.packHash ∈ steps

variable {after : Database}

theorem Adds.of_performAll {clock : ℕ → ℤ} {number : ℕ} {steps : List PublicationStep} (h : performAll clock number steps before = .ok after) :
    Adds steps before after :=
  ⟨mem_buildChunks_performAll h, mem_buildPacks_performAll h⟩

theorem Adds.trans {first second : List PublicationStep} {middle : Database}
    (h : Adds first before middle) (h' : Adds second middle after) :
    Adds (first ++ second) before after := by
  constructor
  · intro row
    rw [h'.chunks, h.chunks, mem_append, or_assoc]
  · intro row
    rw [h'.packs, h.packs, mem_append, or_assoc]

theorem Adds.of_attaches_nothing {first second : List PublicationStep}
    (h : Adds (first ++ second) before after) (hsecond : ∀ step ∈ second, step.AttachesNothing) :
    Adds first before after := by
  constructor
  · intro row
    rw [h.chunks, mem_append, or_iff_left (b := _ ∈ second)]
    exact fun hmem ↦ (hsecond _ hmem).chunks _ _ _ rfl
  · intro row
    rw [h.packs, mem_append, or_iff_left (b := _ ∈ second)]
    exact fun hmem ↦ (hsecond _ hmem).packs _ _ rfl

theorem Adds.of_retirement {publication : Publication} {clock : ℕ → ℤ} {number count : ℕ}
    {committed : Database} (h : Adds publication.steps before committed)
    (hretired : performAll clock number
      ((publication.retirementSteps storage committed).take count) committed = .ok after) :
    Adds publication.steps before after :=
  (h.trans (.of_performAll hretired)).of_attaches_nothing fun _ hstep ↦
    retirement_attaches_nothing (mem_of_mem_take hstep)

theorem Adds.of_stopped {attempt : Attempt}
    (h : attempt.publication.stopped attempt.storage attempt.clock before attempt.stop =
      .ok after) : Adds attempt.performed before after := by
  unfold Attempt.performed
  cases hstop : attempt.stop with
  | publishing performed =>
    rw [hstop] at h
    exact .of_performAll h
  | retiring performed =>
    rw [hstop, stopped, bind_eq_ok] at h
    obtain ⟨committed, hcommitted, hretired⟩ := h
    exact (Adds.of_performAll hcommitted).of_retirement hretired

theorem Adds.of_performAttempts {attempts : List Attempt}
    (h : performAttempts attempts before = .ok after) :
    Adds (attempts.flatMap Attempt.performed) before after := by
  induction attempts generalizing before with
  | nil =>
    obtain rfl : before = after := Except.ok.inj h
    exact ⟨fun row ↦ by simp, fun row ↦ by simp⟩
  | cons attempt rest ih =>
    rw [performAttempts, foldlM_cons, bind_eq_ok] at h
    obtain ⟨next, hnext, hrest⟩ := h
    exact (Adds.of_stopped hnext).trans (ih hrest)

theorem Adds.of_publishVerifiedBuild {publication : Publication} {clock : ℕ → ℤ}
    (h : publication.publishVerifiedBuild storage clock before = .ok after) :
    Adds publication.steps before after := by
  rw [publishVerifiedBuild, bind_eq_ok] at h
  obtain ⟨committed, hcommitted, hretired⟩ := h
  rw [← take_length (l := publication.retirementSteps storage committed)] at hretired
  exact (Adds.of_performAll hcommitted).of_retirement hretired

/-! ### The latest publication -/

/-- Everything that an attempt attached to the build of a later publication belongs to that
publication. -/
structure Attempt.AttachedWithin (attempt : Attempt) (publication : Publication) : Prop where
  chunks : ∀ encodedHash ordinal,
    .attachBuildChunk publication.manifest.buildId encodedHash ordinal ∈ attempt.performed →
      HasChunkAt publication.manifest encodedHash ordinal
  packs : ∀ packHash, .attachBuildPack publication.manifest.buildId packHash ∈ attempt.performed →
      publication.HasPackFile packHash

/-- The packs of the package are attached by the publication or were by an earlier attempt. -/
def Publication.PacksAttached (publication : Publication) (attempts : List Attempt) : Prop :=
  publication.packsEnabled = true ∨ ∀ packHash, publication.HasPackFile packHash →
    ∃ attempt ∈ attempts, .attachBuildPack publication.manifest.buildId packHash ∈ attempt.performed

/-- After any history of attempts from a catalog without rows of the build, a complete publication
leaves exactly its own chunks and packs when no earlier attempt has attached another one, and when
its own packs are attached.

Assumes: the build had no rows at the start; the attempts stop where they say, and the publication
runs to its end. -/
theorem mapsExactly_iff (publication : Publication) (storage : StorageRegistry) (clock : ℕ → ℤ)
    (attempts : List Attempt) {start before after : Database}
    (hchunks : ∀ row ∈ start.buildChunks, row.buildId ≠ publication.manifest.buildId)
    (hpacks : ∀ row ∈ start.buildPacks, row.buildId ≠ publication.manifest.buildId)
    (hattempts : performAttempts attempts start = .ok before)
    (hrun : publication.publishVerifiedBuild storage clock before = .ok after) :
    after.MapsExactly publication ↔ (∀ attempt ∈ attempts, attempt.AttachedWithin publication) ∧
        publication.PacksAttached attempts := by
  have hadds := (Adds.of_performAttempts hattempts).trans (.of_publishVerifiedBuild hrun)
  have hchunk (encodedHash : Text) (ordinal : ℕ) :
      ⟨publication.manifest.buildId, encodedHash, ordinal⟩ ∈ after.buildChunks ↔
        (∃ attempt ∈ attempts, .attachBuildChunk publication.manifest.buildId encodedHash ordinal ∈
          attempt.performed) ∨ HasChunkAt publication.manifest encodedHash ordinal := by
    rw [hadds.chunks, mem_append, mem_flatMap, attachBuildChunk_mem_steps,
      or_iff_right fun hrow ↦ hchunks _ hrow rfl, and_iff_right rfl]
  have hpack (packHash : Text) :
      ⟨publication.manifest.buildId, packHash⟩ ∈ after.buildPacks ↔
        (∃ attempt ∈ attempts, .attachBuildPack publication.manifest.buildId packHash ∈
          attempt.performed) ∨
        publication.packsEnabled = true ∧ publication.HasPackFile packHash := by
    rw [hadds.packs, mem_append, mem_flatMap, attachBuildPack_mem_steps,
      or_iff_right fun hrow ↦ hpacks _ hrow rfl, and_iff_right rfl]
  constructor
  · intro hexact
    refine ⟨fun attempt hattempt ↦ ⟨fun encodedHash ordinal hattached ↦ ?_,
      fun packHash hattached ↦ ?_⟩, ?_⟩
    · exact (hexact.chunks _ _).mp ((hchunk _ _).mpr (.inl ⟨attempt, hattempt, hattached⟩))
    · exact (hexact.packs _).mp ((hpack _).mpr (.inl ⟨attempt, hattempt, hattached⟩))
    · by_cases henabled : publication.packsEnabled = true
      · exact .inl henabled
      · refine .inr fun packHash hfile ↦ ?_
        have hrow := (hpack _).mp ((hexact.packs packHash).mpr hfile)
        exact hrow.resolve_right fun h ↦ henabled h.1
  · rintro ⟨hwithin, henabled⟩
    refine ⟨fun encodedHash ordinal ↦ ?_, fun packHash ↦ ?_⟩
    · rw [hchunk]
      refine or_iff_right_of_imp ?_
      rintro ⟨attempt, hattempt, hattached⟩
      exact (hwithin attempt hattempt).chunks _ _ hattached
    · rw [hpack]
      constructor
      · rintro (⟨attempt, hattempt, hattached⟩ | ⟨-, hfile⟩)
        · exact (hwithin attempt hattempt).packs _ hattached
        · exact hfile
      · intro hfile
        rcases henabled with henabled | hearlier
        · exact .inr ⟨henabled, hfile⟩
        · exact .inl (hearlier packHash hfile)

/-! ### A build that is published twice -/

/-- The build `b` again, of the chunks `a` and `z` in the pack that it had. -/
def extendedPublication : Publication :=
  mirrorPublication true ["a", "z"] ["a", "z"]

/-- The build `b` again, of the chunk `z` in a new pack. -/
def replacedPublication : Publication :=
  { mirrorPublication true ["z"] ["z"] with
    packs := [⟨"q", 1, ["z"]⟩] }

/-- A complete first publication of the build. -/
def firstAttempt : Attempt where
  publication := firstPublication
  storage := deletingRegistry
  clock := fun _ ↦ 1
  stop := .retiring 0

/-- The catalog after the first publication and another one of the same build. -/
def republished (publication : Publication) : Database :=
  (publication.publishVerifiedBuild deletingRegistry (fun _ ↦ 1) liveCatalog).toOption.getD
    liveCatalog

theorem publishVerifiedBuild_republished {publication : Publication}
    (h : (publication.publishVerifiedBuild deletingRegistry (fun _ ↦ 1)
      liveCatalog).toOption.isSome = true) :
    publication.publishVerifiedBuild deletingRegistry (fun _ ↦ 1) liveCatalog =
      .ok (republished publication) := by
  obtain ⟨after, hafter⟩ := Option.isSome_iff_exists.mp h
  rw [republished, hafter]
  exact toOption_eq_some.mp hafter

theorem performAttempts_firstAttempt :
    performAttempts [firstAttempt] emptyCatalog = .ok liveCatalog := by
  have hrun : performAll (fun _ ↦ 1) 0 firstPublication.steps emptyCatalog = .ok liveCatalog :=
    performAll_catalogAfter (by decide)
  simp only [performAttempts, foldlM_cons, foldlM_nil, firstAttempt, stopped,
    hrun, take_zero, performAll]
  rfl

theorem mapsExactly_iff_extended :
    (republished extendedPublication).MapsExactly extendedPublication ↔
      (∀ attempt ∈ [firstAttempt], attempt.AttachedWithin extendedPublication) ∧
        extendedPublication.PacksAttached [firstAttempt] :=
  mapsExactly_iff extendedPublication deletingRegistry (fun _ ↦ 1) [firstAttempt]
    (fun _ hrow ↦ absurd hrow not_mem_nil) (fun _ hrow ↦ absurd hrow not_mem_nil)
    performAttempts_firstAttempt (publishVerifiedBuild_republished (by decide))

/-- A build is published with the chunk `a` and the pack `p`, and then with the chunk `z` and the
pack `q`: both publications succeed, and the rows of the chunk `a` and of the pack `p` stay. -/
theorem republished_keeps_stale_rows :
    performAttempts [firstAttempt] emptyCatalog = .ok liveCatalog ∧
      replacedPublication.publishVerifiedBuild deletingRegistry (fun _ ↦ 1) liveCatalog =
        .ok (republished replacedPublication) ∧
      replacedPublication.manifest.buildId = firstPublication.manifest.buildId ∧
      ⟨"b", "a", 0⟩ ∈ (republished replacedPublication).buildChunks ∧
      ⟨"b", "p"⟩ ∈ (republished replacedPublication).buildPacks ∧
      ¬ (republished replacedPublication).MapsExactly replacedPublication := by
  have hchunk : ⟨"b", "a", 0⟩ ∈ (republished replacedPublication).buildChunks :=
    Table.mem_iff.mpr (by decide)
  have hrow : ⟨"b", "p"⟩ ∈ (republished replacedPublication).buildPacks :=
    hasPack_iff.mp (by decide)
  have hnone : "p".toList ∉ replacedPublication.packs.map PackFile.packHash := by decide
  refine ⟨performAttempts_firstAttempt, publishVerifiedBuild_republished (by decide), rfl,
    hchunk, hrow, fun hexact ↦ ?_⟩
  exact hnone ((hexact.packs "p").mp hrow)

end GameLauncher.Catalog
