import GameLauncher.Catalog.HotRetention
import GameLauncher.Manifests.Manifest
import GameLauncher.Placement.Planner

/-!
# Publication of a build

`publish_verified_build` records a build in the catalog, uploads its chunks or packs and publishes
it. It is not one transaction: it is a sequence of steps, each of them one statement of the
database, a check that ends the run, or a call to a storage provider, and it can stop with an error
after any of them. `Publication.steps` is that sequence, up to the step that publishes the build;
`Publication.retirementSteps` is the retirement that follows.

A build can be published in two modes. In the pack-canonical mode the physical packs hold the bytes
of the build; otherwise its chunks are stored one by one, and packs are a second copy.

The manifest validation and the statements on tables that are not modelled are calls here. The
concurrent upload tasks of logical chunks appear by the rows that they record, in the order in which
they record them.
-/

set_option autoImplicit false

namespace GameLauncher.Catalog

open Foundation Fallible Manifests Placement List Table

/-! ### The operations of the database -/

section

variable (database : Database)

/-- `upsert_build_with_bytes`. A row that exists keeps its game and its times. -/
def Database.upsertBuildWithBytes (now : ℤ) (buildId gameId : Text)
    (state : BuildState) : Database :=
  { database with
    builds := database.builds.upsert
      (match database.builds.find buildId with
      | some row => { row with state }
      | none => ⟨buildId, gameId, state, now, none⟩) }

def Database.attachBuildChunk (buildId encodedHash : Text) (ordinal : ℕ) :
    Database :=
  { database with buildChunks := database.buildChunks.upsert ⟨buildId, encodedHash, ordinal⟩ }

/-- `add_storage_object_with_pool`. -/
def Database.addStorageObject (now : ℤ) (row : StorageObject) : Database :=
  { database with
    storageObjects := database.storageObjects.upsert { row with verifiedAt := some now } }

/-- `add_storage_location_with_pool`. -/
def Database.addStorageLocation (now : ℤ) (row : StorageLocation) :
    Database :=
  { database with
    storageLocations := database.storageLocations.upsert { row with verifiedAt := some now } }

/-- `upsert_physical_pack`, with the state `VERIFIED` or `UPLOADING`. A pack that was verified
before keeps its time of verification. -/
def Database.upsertPhysicalPack (now : ℤ) (packHash : Text)
    (verified : Bool) : Database :=
  { database with
    physicalPacks := database.physicalPacks.upsert
      { packHash
        verified
        verifiedAt :=
          if verified then some now
          else (database.physicalPacks.find packHash).bind PhysicalPack.verifiedAt } }

def Database.attachBuildPack (buildId packHash : Text) : Database :=
  { database with buildPacks := database.buildPacks.upsert ⟨buildId, packHash⟩ }

def Database.addPackChunk (packHash encodedHash : Text) : Database :=
  { database with packChunks := database.packChunks.upsert ⟨packHash, encodedHash⟩ }

def Database.addPackLocation (now : ℤ) (row : PackLocation) :
    Except DatabaseError Database := do
  throwIf (row.storageClass = .hot ∧ trim row.directUrl = [])
    (.manifest ("HOT physical pack location for " ++ row.packHash ++ " has no direct URL"))
  return { database with
    packLocations := database.packLocations.upsert { row with verifiedAt := some now } }

end

/-! ### Steps -/

/-- A call that leaves the modelled tables as they are. -/
inductive ExternalCall
  | upsertGame
  | validateManifest
  | addChunk (encodedHash : Text)
  | putEncoded (encodedHash : Text)
  | readPacksDirectory
  | readPackFile (packHash : Text)
  | putPackFile (providerId packHash : Text)
  | readVerifiedPackWithRetry (providerId packHash : Text)
  | downloadPackLocation (providerId packHash : Text)
  | deleteEncoded (providerId encodedHash : Text)
  | deletePack (providerId packHash : Text)
  deriving DecidableEq, Repr

inductive PublicationStep
  | call (call : ExternalCall)
  | require (condition : Bool) (message : Text)
  | upsertBuildWithBytes (buildId gameId : Text)
  | attachBuildChunk (buildId encodedHash : Text) (ordinal : ℕ)
  | addStorageObject (row : StorageObject)
  | addStorageLocation (row : StorageLocation)
  | upsertPhysicalPack (packHash : Text) (verified : Bool)
  | attachBuildPack (buildId packHash : Text)
  | addPackChunk (packHash encodedHash : Text)
  | addPackLocation (row : PackLocation)
  | buildPacksCoverAllChunks (buildId : Text)
  | publishBuildWithPackStoragePolicy (buildId : Text) (policy : StoragePolicy)
  | publishBuildWithStoragePolicy (buildId : Text) (policy : StoragePolicy)
  | deleteStorageObject (encodedHash provider : Text)
  | deletePackLocation (packHash provider directUrl : Text)
  deriving DecidableEq, Repr

/-- The effect of a step on the catalog. -/
def perform (now : ℤ) (step : PublicationStep) (database : Database) :
    Except WorkerError Database :=
  match step with
  | .call _ => .ok database
  | .require condition message => do
    throwIf (condition = false) (.context message)
    return database
  | .upsertBuildWithBytes buildId gameId =>
    .ok (database.upsertBuildWithBytes now buildId gameId .ready)
  | .attachBuildChunk buildId encodedHash ordinal =>
    .ok (database.attachBuildChunk buildId encodedHash ordinal)
  | .addStorageObject row => .ok (database.addStorageObject now row)
  | .addStorageLocation row => .ok (database.addStorageLocation now row)
  | .upsertPhysicalPack packHash verified =>
    .ok (database.upsertPhysicalPack now packHash verified)
  | .attachBuildPack buildId packHash => .ok (database.attachBuildPack buildId packHash)
  | .addPackChunk packHash encodedHash => .ok (database.addPackChunk packHash encodedHash)
  | .addPackLocation row => (database.addPackLocation now row).mapError .database
  | .buildPacksCoverAllChunks buildId => do
    throwIf (database.buildPacksCoverAllChunks buildId = false)
      (.context ("pack-canonical build " ++ buildId ++
        " has manifest chunks missing from its physical-pack index"))
    return database
  | .publishBuildWithPackStoragePolicy buildId policy =>
    (database.publishBuildWithPackStoragePolicy now buildId policy).mapError .database
  | .publishBuildWithStoragePolicy buildId policy =>
    (database.publishBuildWithStoragePolicy now buildId policy).mapError .database
  | .deleteStorageObject encodedHash provider =>
    .ok (database.deleteStorageObject encodedHash provider)
  | .deletePackLocation packHash provider directUrl =>
    .ok (database.deletePackLocation packHash provider directUrl)

/-- The effect of a list of steps, the first of which has a number on the clock. -/
def performAll (clock : ℕ → ℤ) : ℕ → List PublicationStep → Database → Except WorkerError Database
  | _, [], database => .ok database
  | number, step :: rest, database => do
    let database ← perform (clock number) step database
    performAll clock (number + 1) rest database

/-! ### The program -/

variable {step : PublicationStep}

/-- A pack file of the package: its name, its size and the encoded hashes of its entries. -/
structure PackFile where
  packHash : Text
  packSize : ℕ
  entries : List Text
  deriving DecidableEq, Repr

/-- What an upload task of a logical chunk records. -/
inductive LogicalRecord
  | object (row : StorageObject)
  | location (row : StorageLocation)
  deriving DecidableEq, Repr

/-- The inputs of `publish_verified_build`: the build, the configuration of the worker, the pack
files of the package, and the answers of the storage providers. -/
structure Publication where
  manifest : Manifest
  policy : PlacementPolicy
  policy_valid : policy.validate = .ok ()
  packsEnabled : Bool
  telegramEnabled : Bool
  launcherPackColdOnly : Bool
  launcherPackCanonical : Bool
  providers : List ProviderHealth
  poolForProvider : Text → Option StoragePool
  logicalRecords : List LogicalRecord
  packs : List PackFile
  downloadPackLocation : Text → Text → Option (Text × Option ℤ)

namespace Publication

section

variable (publication : Publication)

def packCanonical : Bool :=
  publication.packsEnabled && publication.launcherPackCanonical

/-- `pack_policy`: in pack mode the packs need a COLD copy. -/
def packPolicy : PlacementPolicy :=
  if publication.launcherPackColdOnly then
    { publication.policy with
      minVerifiedColdReplicas := max publication.policy.minVerifiedColdReplicas 1
      preferredColdReplicas := max publication.policy.preferredColdReplicas 1
      minColdFailureDomains := max publication.policy.minColdFailureDomains 1
      coldBackupRequired := true }
  else publication.policy

/-- The checks of the configuration. -/
def configurationSteps : List PublicationStep :=
  [.require (!publication.telegramEnabled || publication.packsEnabled)
      ("Telegram COLD retention requires PACK_STORAGE_ENABLED=true; Telegram stores immutable " ++
        "packs, not an untracked logical-chunk history").toList,
    .require (!publication.launcherPackColdOnly || publication.packsEnabled)
      "LAUNCHER_PACK_COLD_ONLY=true requires PACK_STORAGE_ENABLED=true"]

def buildSteps : List PublicationStep :=
  [.call .upsertGame, .call .validateManifest,
    .upsertBuildWithBytes publication.manifest.buildId publication.manifest.gameId] ++
  publication.manifest.files.flatMap fun file ↦ file.chunks.zipIdx.flatMap fun chunk ↦
    [.call (.addChunk chunk.1.encodedHash),
      .attachBuildChunk publication.manifest.buildId chunk.1.encodedHash chunk.2]

/-- The upload of the logical chunks. -/
def logicalSteps : List PublicationStep :=
  publication.logicalRecords.flatMap fun record ↦
    match record with
    | .object row => [.call (.putEncoded row.encodedHash), .addStorageObject row]
    | .location row => [.addStorageLocation row]

def plan (file : PackFile) : PlacementPlan :=
  planWithPools publication.packPolicy file.packSize []
    (placementPools publication.providers publication.poolForProvider)

/-- The location that an upload of a pack records. -/
def packLocation (packHash : Text) (action : PlacementAction) :
    PackLocation :=
  let answer := publication.downloadPackLocation action.providerId packHash
  { packHash
    provider := action.providerId
    poolId := action.poolId
    failureDomain := action.failureDomain
    storageClass := action.tier
    objectKey := "packs/" ++ packHash ++ ".pack"
    directUrl := (answer.map Prod.fst).getD []
    priority := action.priority
    verifiedAt := none
    expiresAt := answer.bind Prod.snd }

/-- One round of the loop over the uploads of a pack. -/
def actionSteps (packHash : Text) (action : PlacementAction) :
    List PublicationStep :=
  let answer := publication.downloadPackLocation action.providerId packHash
  [.call (.putPackFile action.providerId packHash),
    .call (.readVerifiedPackWithRetry action.providerId packHash),
    .call (.downloadPackLocation action.providerId packHash),
    .require (action.tier != .hot || answer.isSome) ("HOT provider " ++ action.providerId ++
      " did not produce a direct download location for pack " ++ packHash),
    .require (action.tier != .hot || answer.any fun location ↦ trim location.1 != [])
      ("HOT provider " ++ action.providerId ++
        " returned an empty direct download location for pack " ++ packHash),
    .addPackLocation (publication.packLocation packHash action)]

/-- What follows the mark of a pack as uploading, up to its mark as verified. -/
def uploadSteps (file : PackFile) : List PublicationStep :=
  .attachBuildPack publication.manifest.buildId file.packHash ::
  file.entries.map (.addPackChunk file.packHash) ++
  .require (publication.plan file).policySatisfied
    ("storage policy cannot be satisfied for pack " ++ file.packHash ++ ": " ++
      (publication.plan file).explanation) ::
  (publication.plan file).actions.flatMap (publication.actionSteps file.packHash)

/-- One round of the loop over the pack files. -/
def packSteps (file : PackFile) : List PublicationStep :=
  [.call (.readPackFile file.packHash), .upsertPhysicalPack file.packHash false] ++
  publication.uploadSteps file ++ [.upsertPhysicalPack file.packHash true]

def publishPhysicalPacks : List PublicationStep :=
  .call .readPacksDirectory :: publication.packs.flatMap publication.packSteps

def gateSteps : List PublicationStep :=
  if publication.packCanonical then
    [.buildPacksCoverAllChunks publication.manifest.buildId,
      .publishBuildWithPackStoragePolicy publication.manifest.buildId
        publication.packPolicy.toStoragePolicy]
  else
    [.publishBuildWithStoragePolicy publication.manifest.buildId
      publication.policy.toStoragePolicy]

/-- The steps before the gate. -/
def preparationSteps : List PublicationStep :=
  publication.configurationSteps ++ publication.buildSteps ++
  (if publication.packCanonical then [] else publication.logicalSteps) ++
  if publication.packsEnabled then publication.publishPhysicalPacks else []

/-- `publish_verified_build`, up to the publication of the build. -/
def steps : List PublicationStep :=
  publication.preparationSteps ++ publication.gateSteps

/-- `retire_superseded_hot_storage`, on the catalog in which the build is published. -/
def retirementSteps (storage : StorageRegistry)
    (database : Database) : List PublicationStep :=
  (if publication.packCanonical then [] else
    ((database.listHotObjectsToRetire publication.manifest.gameId
        publication.manifest.buildId).filter fun object ↦
          storage.deletes object.provider).flatMap fun object ↦
      [.call (.deleteEncoded object.provider object.encodedHash),
        .deleteStorageObject object.encodedHash object.provider]) ++
  ((database.listHotPackLocationsToRetire publication.manifest.gameId
      publication.manifest.buildId).filter fun location ↦
        storage.deletes location.provider).flatMap fun location ↦
    [.call (.deletePack location.provider location.packHash),
      .deletePackLocation location.packHash location.provider location.directUrl]

def BeforeGate : PublicationStep → Prop
  | .call _ | .require _ _ | .addStorageObject _ | .addStorageLocation _ | .addPackChunk _ _ => True
  | .upsertBuildWithBytes buildId gameId =>
    buildId = publication.manifest.buildId ∧ gameId = publication.manifest.gameId
  | .attachBuildChunk buildId _ _ => buildId = publication.manifest.buildId
  | .attachBuildPack buildId packHash =>
    buildId = publication.manifest.buildId ∧ packHash ∈ publication.packs.map PackFile.packHash
  | .upsertPhysicalPack packHash _ => packHash ∈ publication.packs.map PackFile.packHash
  | .addPackLocation row => row.packHash ∈ publication.packs.map PackFile.packHash
  | .buildPacksCoverAllChunks _ | .publishBuildWithPackStoragePolicy _ _
  | .publishBuildWithStoragePolicy _ _ | .deleteStorageObject _ _ | .deletePackLocation _ _ _ =>
    False

end

variable {publication : Publication}

theorem beforeGate_of_mem_configurationSteps (h : step ∈ publication.configurationSteps) :
    publication.BeforeGate step := by
  simp only [configurationSteps, mem_cons, not_mem_nil, or_false] at h
  rcases h with rfl | rfl
  · trivial
  · trivial

theorem beforeGate_of_mem_buildSteps (h : step ∈ publication.buildSteps) :
    publication.BeforeGate step := by
  simp only [buildSteps, mem_append, mem_cons, not_mem_nil, or_false, mem_flatMap] at h
  rcases h with (rfl | rfl | rfl) | ⟨file, -, chunk, -, rfl | rfl⟩
  · trivial
  · trivial
  · exact ⟨rfl, rfl⟩
  · trivial
  · exact rfl

theorem beforeGate_of_mem_logicalSteps (h : step ∈ publication.logicalSteps) :
    publication.BeforeGate step := by
  obtain ⟨record, -, hrecord⟩ := mem_flatMap.mp h
  cases record with
  | object row =>
    simp only [mem_cons, not_mem_nil, or_false] at hrecord
    rcases hrecord with rfl | rfl
    · trivial
    · trivial
  | location row =>
    rw [mem_singleton.mp hrecord]
    trivial

theorem beforeGate_of_mem_packSteps {file : PackFile} (hfile : file ∈ publication.packs)
    (h : step ∈ publication.packSteps file) : publication.BeforeGate step := by
  have hpack : file.packHash ∈ publication.packs.map PackFile.packHash := mem_map_of_mem hfile
  simp only [packSteps, uploadSteps, actionSteps, mem_append, mem_cons,
    not_mem_nil, or_false, mem_flatMap, mem_map] at h
  rcases h with ((rfl | rfl) | (rfl | ⟨entry, -, rfl⟩) |
    rfl | ⟨action, -, rfl | rfl | rfl | rfl | rfl | rfl⟩) | rfl
  · trivial
  · exact hpack
  · exact ⟨rfl, hpack⟩
  · trivial
  · trivial
  · trivial
  · trivial
  · trivial
  · trivial
  · trivial
  · exact hpack
  · exact hpack

theorem beforeGate_of_mem_preparationSteps (h : step ∈ publication.preparationSteps) :
    publication.BeforeGate step := by
  simp only [preparationSteps, mem_append] at h
  rcases h with ((hconfiguration | hbuild) | hlogical) | hpacks
  · exact beforeGate_of_mem_configurationSteps hconfiguration
  · exact beforeGate_of_mem_buildSteps hbuild
  · split_ifs at hlogical
    · exact absurd hlogical not_mem_nil
    · exact beforeGate_of_mem_logicalSteps hlogical
  · split_ifs at hpacks
    · rcases mem_cons.mp hpacks with rfl | hfiles
      · trivial
      · obtain ⟨file, hfile, hstep⟩ := mem_flatMap.mp hfiles
        exact beforeGate_of_mem_packSteps hfile hstep
    · exact absurd hpacks not_mem_nil

end Publication

/-! ### Runs of a list of steps -/

variable {after database : Database}

theorem performAll_append {clock : ℕ → ℤ} {number : ℕ} {first second : List PublicationStep} :
    performAll clock number (first ++ second) database = .ok after ↔
      ∃ middle, performAll clock number first database = .ok middle ∧
        performAll clock (number + first.length) second middle = .ok after := by
  induction first generalizing number database with
  | nil => simp [performAll]
  | cons step rest ih =>
    have hnumber : number + (step :: rest).length = number + 1 + rest.length := by
      rw [length_cons]
      omega
    simp only [cons_append, performAll, bind_eq_ok, ih, hnumber]
    constructor
    · rintro ⟨next, hnext, middle, hmiddle, hafter⟩
      exact ⟨middle, ⟨next, hnext, hmiddle⟩, hafter⟩
    · rintro ⟨middle, ⟨next, hnext, hmiddle⟩, hafter⟩
      exact ⟨next, hnext, middle, hmiddle, hafter⟩

theorem performAll_invariant {clock : ℕ → ℤ} {steps : List PublicationStep} {number : ℕ}
    (invariant : Database → Prop) (hstep : ∀ now, ∀ step ∈ steps, ∀ before next, invariant before →
      perform now step before = .ok next → invariant next) (hstart : invariant database)
    (h : performAll clock number steps database = .ok after) : invariant after := by
  induction steps generalizing number database with
  | nil => exact Except.ok.inj h ▸ hstart
  | cons step rest ih =>
    rw [performAll, bind_eq_ok] at h
    obtain ⟨next, hnext, hrest⟩ := h
    have hkept := hstep _ step mem_cons_self database next hstart hnext
    exact ih (fun now other hother ↦ hstep now other (mem_cons_of_mem _ hother)) hkept hrest

/-! ### What a step changes -/

variable {buildId packHash : Text} {now : ℤ}

def Database.isPublished (database : Database) (buildId : Text) : Bool :=
  database.builds.rows.any fun row ↦ row.id == buildId && row.state == .published

/-- The pack is in the state `VERIFIED`, with a time of verification. -/
def Database.packVerified (database : Database) (packHash : Text) : Bool :=
  database.physicalPacks.rows.any fun pack ↦
    pack.packHash == packHash && pack.verified && pack.verifiedAt.isSome

def Database.packContains (database : Database) (packHash encodedHash : Text) : Bool :=
  database.packChunks.rows.any fun row ↦ row.packHash == packHash && row.encodedHash == encodedHash

theorem isPublished_iff :
    database.isPublished buildId = true ↔
      ∃ row ∈ database.builds, row.id = buildId ∧ row.state = .published := by
  simp [Database.isPublished, mem_iff]

theorem hasChunk_iff {encodedHash : Text} :
    database.hasChunk buildId encodedHash = true ↔
      ∃ row ∈ database.buildChunks, row.buildId = buildId ∧ row.encodedHash = encodedHash := by
  simp [Database.hasChunk, mem_iff]

theorem hasPack_iff :
    database.hasPack buildId packHash = true ↔ ⟨buildId, packHash⟩ ∈ database.buildPacks := by
  simp only [Database.hasPack, mem_iff, any_eq_true, Bool.and_eq_true, beq_iff_eq]
  constructor
  · rintro ⟨row, hrow, rfl, rfl⟩
    exact hrow
  · exact fun hrow ↦ ⟨_, hrow, rfl, rfl⟩

theorem packContains_iff {encodedHash : Text} :
    database.packContains packHash encodedHash = true ↔
      ⟨packHash, encodedHash⟩ ∈ database.packChunks := by
  simp only [Database.packContains, mem_iff, any_eq_true, Bool.and_eq_true, beq_iff_eq]
  constructor
  · rintro ⟨row, hrow, rfl, rfl⟩
    exact hrow
  · exact fun hrow ↦ ⟨_, hrow, rfl, rfl⟩

theorem packVerified_iff :
    database.packVerified packHash = true ↔ ∃ pack ∈ database.physicalPacks,
      pack.packHash = packHash ∧ pack.verified = true ∧ pack.verifiedAt.isSome = true := by
  simp [Database.packVerified, mem_iff, and_assoc]

def PublicationStep.published : PublicationStep → Option Text
  | .publishBuildWithPackStoragePolicy buildId _ => some buildId
  | .publishBuildWithStoragePolicy buildId _ => some buildId
  | _ => none

/-- The build that a step puts back to the state `READY`. -/
def PublicationStep.reset : PublicationStep → Option Text
  | .upsertBuildWithBytes buildId _ => some buildId
  | _ => none

theorem mapError_eq_ok {ε ε' α : Type} {f : ε → ε'} {outcome : Except ε α} {value : α} :
    outcome.mapError f = .ok value ↔ outcome = .ok value := by
  cases outcome <;> simp [Except.mapError]

theorem markPublished_eq_ok :
    database.markPublished now buildId = .ok after ↔
      database.builds.countWhere (isPublishable buildId) = 1 ∧
      after = { database with
        builds := database.builds.updateWhere (isPublishable buildId)
          (fun row ↦ { row with state := .published, publishedAt := some now }) fun _ ↦ rfl } := by
  simp only [Database.markPublished, bind_eq_ok, throwIf_eq_ok, pure_eq_ok, exists_const, not_not]
  exact and_congr_right fun _ ↦ eq_comm

theorem isPublished_markPublished {other : Text}
    (h : database.markPublished now buildId = .ok after) :
    after.isPublished other = true ↔ buildId = other ∨ database.isPublished other = true := by
  obtain ⟨hcount, rfl⟩ := markPublished_eq_ok.mp h
  simp only [isPublished_iff, mem_updateWhere]
  constructor
  · rintro ⟨row, ⟨old, hold, rfl⟩, hid, hstate⟩
    by_cases hcondition : isPublishable buildId old = true
    · simp only [hcondition, if_true] at hid
      have hold := beq_iff_eq.mp (Bool.and_eq_true_iff.mp hcondition).1
      exact .inl (hold.symm.trans hid)
    · simp only [hcondition] at hid hstate
      exact .inr ⟨old, hold, hid, hstate⟩
  · rintro (rfl | ⟨row, hrow, hid, hstate⟩)
    · obtain ⟨row, hrow, hcondition⟩ := countP_pos_iff.mp
        (show 0 < database.builds.countWhere (isPublishable buildId) by omega)
      have hid := beq_iff_eq.mp (Bool.and_eq_true_iff.mp hcondition).1
      exact ⟨_, ⟨row, hrow, rfl⟩, by simp [hcondition, hid], by simp [hcondition]⟩
    · refine ⟨_, ⟨row, hrow, rfl⟩, ?_, ?_⟩
      · split_ifs <;> exact hid
      · split_ifs
        · rfl
        · exact hstate

theorem publishBuildWithPackStoragePolicy_eq_ok {policy : StoragePolicy} :
    database.publishBuildWithPackStoragePolicy now buildId policy = .ok after ↔
      (∀ packHash, database.hasPack buildId packHash = true →
        lacksPolicy policy (database.packReplicas buildId) packHash = false) ∧
      database.markPublished now buildId = .ok after := by
  simp only [Database.publishBuildWithPackStoragePolicy, bind_eq_ok, throwIf_eq_ok, exists_const,
    not_not]
  simp only [Table.countWhere, countP_eq_zero, Bool.and_eq_true, beq_iff_eq, not_and,
    Bool.not_eq_true]
  refine and_congr_left fun _ ↦ ⟨?_, ?_⟩
  · intro hnone packHash hpack
    exact hnone _ (hasPack_iff.mp hpack) rfl
  · intro hnone row hrow hid
    exact hnone row.packHash (hasPack_iff.mpr (hid ▸ hrow))

theorem publishBuildWithStoragePolicy_eq_ok {policy : StoragePolicy} :
    database.publishBuildWithStoragePolicy now buildId policy = .ok after ↔
      (∀ encodedHash, database.hasChunk buildId encodedHash = true →
        lacksPolicy policy database.chunkReplicas encodedHash = false) ∧
      database.markPublished now buildId = .ok after := by
  simp only [Database.publishBuildWithStoragePolicy, bind_eq_ok, throwIf_eq_ok, exists_const,
    not_not]
  simp only [Table.countWhere, countP_eq_zero, Bool.and_eq_true, beq_iff_eq, not_and,
    Bool.not_eq_true, hasChunk_iff]
  refine and_congr_left fun _ ↦ ⟨?_, ?_⟩
  · rintro hnone _ ⟨row, hrow, hid, rfl⟩
    exact hnone row hrow hid
  · intro hnone row hrow hid
    exact hnone _ ⟨row, hrow, hid, rfl⟩

theorem isPublished_upsertBuildWithBytes {gameId other : Text} :
    (database.upsertBuildWithBytes now buildId gameId .ready).isPublished other = true ↔
      database.isPublished other = true ∧ buildId ≠ other := by
  have hrow : ∃ row : Build, row.id = buildId ∧ row.state = .ready ∧
      (database.upsertBuildWithBytes now buildId gameId .ready).builds =
        database.builds.upsert row := by
    unfold Database.upsertBuildWithBytes
    cases hfind : database.builds.find buildId with
    | none => exact ⟨_, rfl, rfl, rfl⟩
    | some row =>
      exact ⟨{ row with state := .ready }, (find_eq_some.mp hfind).2, rfl, rfl⟩
  obtain ⟨row, hid, hstate, hbuilds⟩ := hrow
  simp only [isPublished_iff, hbuilds, mem_upsert]
  constructor
  · rintro ⟨found, rfl | ⟨hfound, hne⟩, hother, hpublished⟩
    · exact absurd (hstate.symm.trans hpublished) (by decide)
    · exact ⟨⟨found, hfound, hother, hpublished⟩, fun h ↦ hne (hother.trans (hid.trans h).symm)⟩
  · rintro ⟨⟨found, hfound, hother, hpublished⟩, hne⟩
    exact ⟨found, .inr ⟨hfound, fun h ↦ hne (hid.symm.trans (h.symm.trans hother))⟩, hother,
      hpublished⟩

section

variable (h : perform now step database = .ok after)

include h

theorem isPublished_perform (buildId : Text) :
    after.isPublished buildId = true ↔ step.published = some buildId ∨
      database.isPublished buildId = true ∧ step.reset ≠ some buildId := by
  cases step <;> simp only [perform, mapError_eq_ok, bind_eq_ok, throwIf_eq_ok, pure_eq_ok,
    exists_const, Except.ok.injEq, Database.addPackLocation, publishBuildWithPackStoragePolicy_eq_ok,
    publishBuildWithStoragePolicy_eq_ok] at h
  case upsertBuildWithBytes =>
    rw [← h, isPublished_upsertBuildWithBytes]
    simp [PublicationStep.published, PublicationStep.reset]
  case publishBuildWithPackStoragePolicy =>
    rw [isPublished_markPublished h.2]
    simp [PublicationStep.published, PublicationStep.reset]
  case publishBuildWithStoragePolicy =>
    rw [isPublished_markPublished h.2]
    simp [PublicationStep.published, PublicationStep.reset]
  all_goals
    simp only [PublicationStep.published, PublicationStep.reset, ne_eq, reduceCtorEq,
      not_false_eq_true, and_true, false_or]
    first
    | subst h
      exact Iff.rfl
    | obtain ⟨-, rfl⟩ := h
      exact Iff.rfl

theorem perform_tables :
    (after.buildChunks = match step with
      | .attachBuildChunk buildId encodedHash ordinal =>
        database.buildChunks.upsert ⟨buildId, encodedHash, ordinal⟩
      | _ => database.buildChunks) ∧
    (after.buildPacks = match step with
      | .attachBuildPack buildId packHash => database.buildPacks.upsert ⟨buildId, packHash⟩
      | _ => database.buildPacks) ∧
    (after.packChunks = match step with
      | .addPackChunk packHash encodedHash => database.packChunks.upsert ⟨packHash, encodedHash⟩
      | _ => database.packChunks) ∧
    (after.physicalPacks = match step with
      | .upsertPhysicalPack packHash verified =>
        (database.upsertPhysicalPack now packHash verified).physicalPacks
      | _ => database.physicalPacks) ∧
    after.packLocations = match step with
      | .addPackLocation row =>
        database.packLocations.upsert { row with verifiedAt := some now }
      | .deletePackLocation packHash provider directUrl =>
        (database.deletePackLocation packHash provider directUrl).packLocations
      | _ => database.packLocations := by
  cases step <;> simp only [perform, mapError_eq_ok, bind_eq_ok, throwIf_eq_ok, pure_eq_ok,
    exists_const, Except.ok.injEq, Database.addPackLocation, publishBuildWithPackStoragePolicy_eq_ok,
    publishBuildWithStoragePolicy_eq_ok, markPublished_eq_ok] at h
  case publishBuildWithPackStoragePolicy =>
    obtain ⟨-, -, rfl⟩ := h
    exact ⟨rfl, rfl, rfl, rfl, rfl⟩
  case publishBuildWithStoragePolicy =>
    obtain ⟨-, -, rfl⟩ := h
    exact ⟨rfl, rfl, rfl, rfl, rfl⟩
  all_goals
    first
    | subst h
    | obtain ⟨-, rfl⟩ := h
    exact ⟨rfl, rfl, rfl, rfl, rfl⟩

theorem hasChunk_perform (buildId encodedHash : Text) :
    after.hasChunk buildId encodedHash = true ↔ database.hasChunk buildId encodedHash = true ∨
      ∃ ordinal, step = .attachBuildChunk buildId encodedHash ordinal := by
  have htable := (perform_tables h).1
  cases step
  case attachBuildChunk other hash ordinal =>
    simp only [hasChunk_iff, htable, mem_upsert, PublicationStep.attachBuildChunk.injEq]
    constructor
    · rintro ⟨row, rfl | ⟨hrow, -⟩, rfl, rfl⟩
      · exact .inr ⟨ordinal, rfl, rfl, rfl⟩
      · exact .inl ⟨row, hrow, rfl, rfl⟩
    · rintro (⟨row, hrow, rfl, rfl⟩ | ⟨_, rfl, rfl, -⟩)
      · by_cases hkey : (row.buildId, row.encodedHash, row.ordinal) = (other, hash, ordinal)
        · simp only [Prod.mk.injEq] at hkey
          exact ⟨_, .inl rfl, hkey.1.symm, hkey.2.1.symm⟩
        · exact ⟨row, .inr ⟨hrow, hkey⟩, rfl, rfl⟩
      · exact ⟨_, .inl rfl, rfl, rfl⟩
  all_goals simp only [hasChunk_iff, htable, reduceCtorEq, exists_false, or_false]

theorem hasPack_perform (buildId packHash : Text) :
    after.hasPack buildId packHash = true ↔ database.hasPack buildId packHash = true ∨
      step = .attachBuildPack buildId packHash := by
  have htable := (perform_tables h).2.1
  cases step
  case attachBuildPack other hash =>
    simp only [hasPack_iff, htable, mem_upsert, PublicationStep.attachBuildPack.injEq,
      BuildPack.mk.injEq, Prod.mk.injEq, ne_eq]
    tauto
  all_goals simp only [hasPack_iff, htable, reduceCtorEq, or_false]

theorem packContains_perform (packHash encodedHash : Text) :
    after.packContains packHash encodedHash = true ↔
      database.packContains packHash encodedHash = true ∨
        step = .addPackChunk packHash encodedHash := by
  have htable := (perform_tables h).2.2.1
  cases step
  case addPackChunk other hash =>
    simp only [packContains_iff, htable, mem_upsert, PublicationStep.addPackChunk.injEq,
      PackChunk.mk.injEq, Prod.mk.injEq, ne_eq]
    tauto
  all_goals simp only [packContains_iff, htable, reduceCtorEq, or_false]

end

end GameLauncher.Catalog
