import GameLauncher.Catalog.Database

/-!
# Retirement of superseded HOT storage

After a build is published, the worker retires the HOT copies of the content of older builds of the
same game: `listHotObjectsToRetire` and `listHotPackLocationsToRetire` select them, and
`retireSupersededHotStorage` deletes each one at its provider and then from the catalog, skipping
the providers that are not configured or cannot delete. `commitPublication` is the end of
`publish_verified_build`, from the publication of the build to the retirement.

The queries spare the content of the new build, so the content of the game's own latest build stays
(`latest_of_same_game`). They do not look at other games, although chunks and packs are
content-addressed and shared between games: `retirement_keeps_current_iff` is the exact condition
under which every current build keeps its HOT copies.
-/

set_option autoImplicit false

namespace GameLauncher.Catalog

open Foundation Fallible List Table

/-! ### The queries and deletions -/

section

variable (database : Database) (gameId latestBuildId : Text)

/-- An older published build of the game satisfies the condition. -/
def Database.anyOldBuild
    (condition : Text → Bool) : Bool :=
  database.builds.rows.any fun old ↦ old.gameId == gameId && old.state == .published &&
    old.id != latestBuildId && condition old.id

def Database.listHotObjectsToRetire :
    List StorageObject :=
  (database.storageObjects.rows.filter fun row ↦ row.tier == .hot &&
    database.anyOldBuild gameId latestBuildId (database.hasChunk · row.encodedHash) &&
    !database.hasChunk latestBuildId row.encodedHash).insertionSort
    fun first second ↦ [first.encodedHash, first.provider] ≤ [second.encodedHash, second.provider]

def Database.listHotPackLocationsToRetire :
    List PackLocation :=
  (database.packLocations.rows.filter fun row ↦ row.storageClass == .hot &&
    database.anyOldBuild gameId latestBuildId (database.hasPack · row.packHash) &&
    !database.hasPack latestBuildId row.packHash).insertionSort
    fun first second ↦ [first.packHash, first.provider, first.directUrl] ≤
      [second.packHash, second.provider, second.directUrl]

end

/-- `delete_storage_object`: the object and the locations of a chunk at a provider. -/
def Database.deleteStorageObject (database : Database) (encodedHash provider : Text) : Database :=
  { database with
    storageObjects := database.storageObjects.deleteWhere fun row ↦
      row.encodedHash == encodedHash && row.provider == provider
    storageLocations := database.storageLocations.deleteWhere fun row ↦
      row.encodedHash == encodedHash && row.provider == provider }

def Database.deletePackLocation (database : Database) (packHash provider directUrl : Text) :
    Database :=
  { database with
    packLocations := database.packLocations.deleteWhere fun row ↦
      row.packHash == packHash && row.provider == provider && row.directUrl == directUrl }

/-! ### The worker -/

/-- A configured storage provider: whether it supports deletion, and which of its deletions
succeed. The number counts the deletions requested before. -/
structure StorageProvider where
  providerId : Text
  canDelete : Bool
  deleteEncoded : ℕ → Text → Bool
  deletePack : ℕ → Text → Bool

/-- The configured providers. -/
structure StorageRegistry where
  providers : List StorageProvider

/-- `StorageRegistry::provider`. -/
def StorageRegistry.provider (storage : StorageRegistry) (providerId : Text) :
    Option StorageProvider :=
  storage.providers.find? fun provider ↦ provider.providerId == providerId

/-- The provider is configured and supports deletion. -/
def StorageRegistry.deletes (storage : StorageRegistry) (providerId : Text) : Bool :=
  (storage.provider providerId).any StorageProvider.canDelete

structure Retirement where
  database : Database
  retiredObjects : ℕ
  retiredPacks : ℕ
  skippedProviders : List Text
  requests : ℕ

/-- A failed publication: of the database, of its pack index, or of a deletion at a provider. -/
inductive WorkerError
  | database (error : DatabaseError)
  | context (message : Text)
  deriving DecidableEq, Repr

/-- A retirement with a provider added to those that were skipped. -/
def Retirement.skip (state : Retirement) (provider : Text) : Retirement :=
  { state with skippedProviders := state.skippedProviders.insert provider }

/-- One round of the loop over the objects. -/
def retireObject (storage : StorageRegistry) (state : Retirement) (object : StorageObject) :
    Except WorkerError Retirement :=
  match storage.provider object.provider with
  | none => .ok (state.skip object.provider)
  | some provider => do
    if !provider.canDelete then
      return state.skip object.provider
    throwIf (provider.deleteEncoded state.requests object.encodedHash = false)
      (.context ("could not retire old HOT object " ++ object.encodedHash ++
        " from " ++ provider.providerId))
    return { state with
      database := state.database.deleteStorageObject object.encodedHash object.provider
      retiredObjects := state.retiredObjects + 1
      requests := state.requests + 1 }

/-- One round of the loop over the pack locations. -/
def retirePack (storage : StorageRegistry) (state : Retirement) (location : PackLocation) :
    Except WorkerError Retirement :=
  match storage.provider location.provider with
  | none => .ok (state.skip location.provider)
  | some provider => do
    if !provider.canDelete then
      return state.skip location.provider
    throwIf (provider.deletePack state.requests location.packHash = false)
      (.context ("could not retire old HOT pack " ++ location.packHash ++
        " from " ++ provider.providerId))
    return { state with
      database := state.database.deletePackLocation location.packHash location.provider
        location.directUrl
      retiredPacks := state.retiredPacks + 1
      requests := state.requests + 1 }

/-- `retire_superseded_hot_storage`. Both lists are read before the first deletion. -/
def retireSupersededHotStorage (gameId latestBuildId : Text) (storage : StorageRegistry)
    (database : Database) (retireLogicalObjects : Bool) : Except WorkerError Retirement := do
  let objects := if retireLogicalObjects then
    database.listHotObjectsToRetire gameId latestBuildId else []
  let packs := database.listHotPackLocationsToRetire gameId latestBuildId
  let retired ← objects.foldlM (retireObject storage) ⟨database, 0, 0, [], 0⟩
  packs.foldlM (retirePack storage) retired

/-- The publication of a build in one of the two modes. -/
def publishBuild (database : Database) (now : ℤ) (buildId : Text) (packCanonical : Bool)
    (policy packPolicy : StoragePolicy) : Except WorkerError Database :=
  if packCanonical then do
    throwIf (database.buildPacksCoverAllChunks buildId = false)
      (.context ("pack-canonical build " ++ buildId ++
        " has manifest chunks missing from its physical-pack index"))
    (database.publishBuildWithPackStoragePolicy now buildId packPolicy).mapError .database
  else
    (database.publishBuildWithStoragePolicy now buildId policy).mapError .database

/-- The end of `publish_verified_build`: the catalog once the build is published, and the
retirement that follows. -/
def commitPublication (database : Database) (now : ℤ) (gameId buildId : Text)
    (packCanonical : Bool) (policy packPolicy : StoragePolicy) (storage : StorageRegistry) :
    Except WorkerError (Database × Retirement) := do
  let published ← publishBuild database now buildId packCanonical policy packPolicy
  let retired ← retireSupersededHotStorage gameId buildId storage published (!packCanonical)
  return (published, retired)

/-! ### What a retirement leaves -/

variable {state final : Retirement} {storage : StorageRegistry} {database : Database}
  {gameId latestBuildId : Text}

theorem retireObject_eq_ok {next : Retirement} {object : StorageObject}
    (h : retireObject storage state object = .ok next) :
    next.database = if storage.deletes object.provider then
      state.database.deleteStorageObject object.encodedHash object.provider else state.database := by
  unfold retireObject at h
  unfold StorageRegistry.deletes
  cases hprovider : storage.provider object.provider with
  | none =>
    rw [hprovider] at h
    rw [← Except.ok.inj h]
    rfl
  | some provider =>
    simp only [hprovider] at h
    cases hdelete : provider.canDelete with
    | false =>
      simp only [hdelete, Bool.not_false, if_true, pure_eq_ok] at h
      rw [← h]
      simp [hdelete, Retirement.skip]
    | true =>
      simp only [hdelete, Bool.not_true, Bool.false_eq_true, if_false, bind_eq_ok, pure_eq_ok] at h
      obtain ⟨_, -, rfl⟩ := h
      simp [hdelete]

theorem retirePack_eq_ok {next : Retirement} {location : PackLocation}
    (h : retirePack storage state location = .ok next) :
    next.database = if storage.deletes location.provider then
      state.database.deletePackLocation location.packHash location.provider location.directUrl
      else state.database := by
  unfold retirePack at h
  unfold StorageRegistry.deletes
  cases hprovider : storage.provider location.provider with
  | none =>
    rw [hprovider] at h
    rw [← Except.ok.inj h]
    rfl
  | some provider =>
    simp only [hprovider] at h
    cases hdelete : provider.canDelete with
    | false =>
      simp only [hdelete, Bool.not_false, if_true, pure_eq_ok] at h
      rw [← h]
      simp [hdelete, Retirement.skip]
    | true =>
      simp only [hdelete, Bool.not_true, Bool.false_eq_true, if_false, bind_eq_ok, pure_eq_ok] at h
      obtain ⟨_, -, rfl⟩ := h
      simp [hdelete]

/-- After the loop over the objects, an object is recorded unless it was on the list and its
provider deletes; the pack locations are as before. -/
theorem retireObjects_spec {objects : List StorageObject}
    (h : objects.foldlM (retireObject storage) state = .ok final) :
    (∀ row, row ∈ final.database.storageObjects ↔ row ∈ state.database.storageObjects ∧
      ∀ object ∈ objects, storage.deletes object.provider = true →
        ¬ (row.encodedHash = object.encodedHash ∧ row.provider = object.provider)) ∧
      final.database.packLocations = state.database.packLocations := by
  induction objects generalizing state with
  | nil =>
    rw [foldlM_nil, pure_eq_ok] at h
    simp [h]
  | cons object rest ih =>
    rw [foldlM_cons, bind_eq_ok] at h
    obtain ⟨next, hnext, hrest⟩ := h
    obtain ⟨hobjects, hpacks⟩ := ih hrest
    have hdatabase := retireObject_eq_ok hnext
    constructor
    · intro row
      rw [hobjects row, hdatabase]
      by_cases hdelete : storage.deletes object.provider = true
      · simp only [hdelete, if_true, Database.deleteStorageObject, mem_deleteWhere,
          forall_mem_cons, true_imp_iff, and_assoc, Bool.and_eq_false_imp, beq_iff_eq,
          beq_eq_false_iff_ne, ne_eq, not_and]
      · simp only [hdelete, Bool.false_eq_true, if_false, forall_mem_cons, false_imp_iff, true_and]
    · rw [hpacks, hdatabase]
      split_ifs <;> rfl

/-- After the loop over the pack locations, a location is recorded unless it was on the list and
its provider deletes; the objects are as before. -/
theorem retirePacks_spec {locations : List PackLocation}
    (h : locations.foldlM (retirePack storage) state = .ok final) :
    (∀ row, row ∈ final.database.packLocations ↔ row ∈ state.database.packLocations ∧
      ∀ location ∈ locations, storage.deletes location.provider = true →
        ¬ (row.packHash = location.packHash ∧ row.provider = location.provider ∧
          row.directUrl = location.directUrl)) ∧
      final.database.storageObjects = state.database.storageObjects := by
  induction locations generalizing state with
  | nil =>
    rw [foldlM_nil, pure_eq_ok] at h
    simp [h]
  | cons location rest ih =>
    rw [foldlM_cons, bind_eq_ok] at h
    obtain ⟨next, hnext, hrest⟩ := h
    obtain ⟨hpacks, hobjects⟩ := ih hrest
    have hdatabase := retirePack_eq_ok hnext
    constructor
    · intro row
      rw [hpacks row, hdatabase]
      by_cases hdelete : storage.deletes location.provider = true
      · simp only [hdelete, if_true, Database.deletePackLocation, mem_deleteWhere,
          forall_mem_cons, true_imp_iff, and_assoc, Bool.and_eq_false_imp, beq_iff_eq,
          beq_eq_false_iff_ne, ne_eq, not_and, Bool.and_eq_true, and_imp]
      · simp only [hdelete, Bool.false_eq_true, if_false, forall_mem_cons, false_imp_iff, true_and]
    · rw [hobjects, hdatabase]
      split_ifs <;> rfl

/-- The retirement after the publication of `latestBuildId` deletes this object. -/
structure RetiresObject (database : Database) (storage : StorageRegistry)
    (gameId latestBuildId : Text) (row : StorageObject) : Prop where
  hot : row.tier = .hot
  deletable : storage.deletes row.provider = true
  superseded : database.anyOldBuild gameId latestBuildId (database.hasChunk · row.encodedHash) = true
  unused : database.hasChunk latestBuildId row.encodedHash = false

/-- The retirement after the publication of `latestBuildId` deletes this pack location. -/
structure RetiresPack (database : Database) (storage : StorageRegistry)
    (gameId latestBuildId : Text) (row : PackLocation) : Prop where
  hot : row.storageClass = .hot
  deletable : storage.deletes row.provider = true
  superseded : database.anyOldBuild gameId latestBuildId (database.hasPack · row.packHash) = true
  unused : database.hasPack latestBuildId row.packHash = false

theorem mem_listHotObjectsToRetire {row : StorageObject} :
    row ∈ database.listHotObjectsToRetire gameId latestBuildId ↔
      row ∈ database.storageObjects ∧ row.tier = .hot ∧
        database.anyOldBuild gameId latestBuildId (database.hasChunk · row.encodedHash) = true ∧
        database.hasChunk latestBuildId row.encodedHash = false := by
  unfold Database.listHotObjectsToRetire
  simp only [mem_insertionSort, mem_filter, Bool.and_eq_true, beq_iff_eq,
    Bool.not_eq_true', mem_iff, and_assoc]

theorem mem_listHotPackLocationsToRetire {row : PackLocation} :
    row ∈ database.listHotPackLocationsToRetire gameId latestBuildId ↔
      row ∈ database.packLocations ∧ row.storageClass = .hot ∧
        database.anyOldBuild gameId latestBuildId (database.hasPack · row.packHash) = true ∧
        database.hasPack latestBuildId row.packHash = false := by
  unfold Database.listHotPackLocationsToRetire
  simp only [mem_insertionSort, mem_filter, Bool.and_eq_true, beq_iff_eq,
    Bool.not_eq_true', mem_iff, and_assoc]

theorem mem_storageObjects_of_retire {retireLogicalObjects : Bool}
    (h : retireSupersededHotStorage gameId latestBuildId storage database retireLogicalObjects =
      .ok final) (row : StorageObject) :
    row ∈ final.database.storageObjects ↔ row ∈ database.storageObjects ∧
      ¬ (retireLogicalObjects = true ∧
        RetiresObject database storage gameId latestBuildId row) := by
  simp only [retireSupersededHotStorage, bind_eq_ok] at h
  obtain ⟨middle, hobjects, hpacks⟩ := h
  rw [(retirePacks_spec hpacks).2, (retireObjects_spec hobjects).1 row]
  refine and_congr_right fun hrow ↦ ?_
  cases retireLogicalObjects with
  | false => simp
  | true =>
    simp only [if_true, true_and]
    constructor
    · intro hkept hretires
      refine hkept row ?_ hretires.deletable ⟨rfl, rfl⟩
      exact mem_listHotObjectsToRetire.mpr
        ⟨hrow, hretires.hot, hretires.superseded, hretires.unused⟩
    · intro hkept object hobject hdelete hkey
      obtain ⟨hmem, hhot, hold, hunused⟩ := mem_listHotObjectsToRetire.mp hobject
      have hsame : row = object := eq_of_key_eq hrow hmem (Prod.ext hkey.1 hkey.2)
      exact hkept (hsame ▸ ⟨hhot, hdelete, hold, hunused⟩)

theorem mem_packLocations_of_retire {retireLogicalObjects : Bool}
    (h : retireSupersededHotStorage gameId latestBuildId storage database retireLogicalObjects =
      .ok final) (row : PackLocation) :
    row ∈ final.database.packLocations ↔ row ∈ database.packLocations ∧
      ¬ RetiresPack database storage gameId latestBuildId row := by
  simp only [retireSupersededHotStorage, bind_eq_ok] at h
  obtain ⟨middle, hobjects, hpacks⟩ := h
  rw [(retirePacks_spec hpacks).1 row, (retireObjects_spec hobjects).2]
  refine and_congr_right fun hrow ↦ ?_
  constructor
  · intro hkept hretires
    refine hkept row ?_ hretires.deletable ⟨rfl, rfl, rfl⟩
    exact mem_listHotPackLocationsToRetire.mpr
      ⟨hrow, hretires.hot, hretires.superseded, hretires.unused⟩
  · intro hkept location hlocation hdelete hkey
    obtain ⟨hmem, hhot, hold, hunused⟩ := mem_listHotPackLocationsToRetire.mp hlocation
    have hsame : row = location :=
      eq_of_key_eq hrow hmem (Prod.ext hkey.1 (Prod.ext hkey.2.1 hkey.2.2))
    exact hkept (hsame ▸ ⟨hhot, hdelete, hold, hunused⟩)

/-! ### Current builds -/

/-- Every HOT object and HOT pack location with content of a latest published build, of whatever
game, is recorded in the second catalog if it is in the first. -/
structure KeepsCurrentBuilds (before after : Database) : Prop where
  objects : ∀ row ∈ before.storageObjects, row.tier = .hot → ∀ build, before.IsLatest build →
    before.hasChunk build.id row.encodedHash = true → row ∈ after.storageObjects
  packs : ∀ row ∈ before.packLocations, row.storageClass = .hot → ∀ build, before.IsLatest build →
    before.hasPack build.id row.packHash = true → row ∈ after.packLocations

/-- No object and no pack location that the retirement deletes has content of the latest published
build of another game. -/
structure SparesOtherGames (database : Database) (storage : StorageRegistry)
    (gameId latestBuildId : Text) (retireLogicalObjects : Bool) : Prop where
  objects : retireLogicalObjects = true → ∀ row ∈ database.storageObjects,
    RetiresObject database storage gameId latestBuildId row →
    ∀ build, database.IsLatest build → build.gameId ≠ gameId →
      database.hasChunk build.id row.encodedHash = false
  packs : ∀ row ∈ database.packLocations, RetiresPack database storage gameId latestBuildId row →
    ∀ build, database.IsLatest build → build.gameId ≠ gameId →
      database.hasPack build.id row.packHash = false

theorem latest_of_same_game {latest build : Build} (hlatest : database.IsLatest latest)
    (hbuild : database.IsLatest build) (hgame : build.gameId = latest.gameId) :
    build.id = latest.id :=
  congrArg Build.id (latestPublished_unique hbuild hlatest hgame)

/-- After the publication of a new latest build of a game and the retirement, the HOT copies of
every current build are still recorded exactly when the retirement spares the other games.

Assumes: the publication and the retirement succeed; the published build is the latest of its
game. -/
theorem retirement_keeps_current_iff (database : Database) (now : ℤ) (latest : Build)
    (packCanonical : Bool) (policy packPolicy : StoragePolicy) (storage : StorageRegistry)
    (published : Database) (retired : Retirement)
    (hcommit : commitPublication database now latest.gameId latest.id packCanonical policy
      packPolicy storage = .ok (published, retired))
    (hlatest : published.IsLatest latest) :
    KeepsCurrentBuilds published retired.database ↔
      SparesOtherGames published storage latest.gameId latest.id (!packCanonical) := by
  simp only [commitPublication, bind_eq_ok, pure_eq_ok, Prod.mk.injEq] at hcommit
  obtain ⟨_, -, _, hretire, rfl, rfl⟩ := hcommit
  have hobjects := mem_storageObjects_of_retire hretire
  have hpacks := mem_packLocations_of_retire hretire
  constructor
  · intro hkeeps
    refine ⟨fun hlogical row hrow hretires build hbuild _ ↦ ?_,
      fun row hrow hretires build hbuild _ ↦ ?_⟩
    · by_contra hchunk
      have hkept := hkeeps.objects row hrow hretires.hot build hbuild
        (Bool.eq_true_of_not_eq_false hchunk)
      exact ((hobjects row).mp hkept).2 ⟨hlogical, hretires⟩
    · by_contra hpack
      have hkept := hkeeps.packs row hrow hretires.hot build hbuild
        (Bool.eq_true_of_not_eq_false hpack)
      exact ((hpacks row).mp hkept).2 hretires
  · intro hspares
    refine ⟨fun row hrow _ build hbuild hchunk ↦ ?_, fun row hrow _ build hbuild hpack ↦ ?_⟩
    · refine (hobjects row).mpr ⟨hrow, ?_⟩
      rintro ⟨hlogical, hretires⟩
      by_cases hgame : build.gameId = latest.gameId
      · rw [latest_of_same_game hlatest hbuild hgame, hretires.unused] at hchunk
        exact absurd hchunk (by decide)
      · rw [hspares.objects hlogical row hrow hretires build hbuild hgame] at hchunk
        exact absurd hchunk (by decide)
    · refine (hpacks row).mpr ⟨hrow, fun hretires ↦ ?_⟩
      by_cases hgame : build.gameId = latest.gameId
      · rw [latest_of_same_game hlatest hbuild hgame, hretires.unused] at hpack
        exact absurd hpack (by decide)
      · rw [hspares.packs row hrow hretires build hbuild hgame] at hpack
        exact absurd hpack (by decide)

def oneHotReplica : StoragePolicy where
  minVerifiedHotReplicas := 1
  minVerifiedColdReplicas := 0
  minVerifiedArchiveReplicas := 0
  minHotFailureDomains := 1
  minColdFailureDomains := 0
  minArchiveFailureDomains := 0
  coldBackupRequired := false

/-- One provider, all of whose deletions succeed. -/
def deletingRegistry : StorageRegistry :=
  ⟨[⟨"mirror", true, fun _ _ ↦ true, fun _ _ ↦ true⟩]⟩

def mirroredObject (encodedHash : Text) : StorageObject where
  encodedHash := encodedHash
  encodedSize := 1
  provider := "mirror"
  poolId := none
  failureDomain := none
  tier := .hot
  objectKey := "chunks/encoded/" ++ encodedHash ++ ".bin"
  verifiedAt := some 0

/-- Build 2 of a game as it is once published. -/
def chessTwo : Build := ⟨"chess-2", "chess", .published, 2, some 3⟩

/-- Two games: one has a published build 1 with chunk `a` and a ready build 2 with chunk `b`, the
other a published build with the given chunk. -/
def twoGames (goChunk : Text) : Database where
  builds := ⟨[⟨"chess-1", "chess", .published, 0, some 0⟩, ⟨"chess-2", "chess", .ready, 2, none⟩,
    ⟨"go-1", "go", .published, 1, some 1⟩], by decide⟩
  buildChunks := ⟨[⟨"chess-1", "a", 0⟩, ⟨"chess-2", "b", 0⟩, ⟨"go-1", goChunk, 0⟩], by simp⟩
  buildPacks := .empty
  physicalPacks := .empty
  packChunks := .empty
  storageObjects := ⟨[mirroredObject "a", mirroredObject "b", mirroredObject "c"], by decide⟩
  storageLocations := .empty
  packLocations := .empty

/-- The publication of build 2. -/
def commitChessTwo (goChunk : Text) : Except WorkerError (Database × Retirement) :=
  commitPublication (twoGames goChunk) 3 chessTwo.gameId chessTwo.id false oneHotReplica
    oneHotReplica deletingRegistry

/-- What the publication of build 2 leaves when the other game has a chunk of its own. -/
def disjointOutcome : Database × Retirement :=
  (commitChessTwo "c").toOption.get (by decide)

/-- What the publication of build 2 leaves when the other game has the chunk of build 1. -/
def sharedOutcome : Database × Retirement :=
  (commitChessTwo "a").toOption.get (by decide)

theorem commitChessTwo_disjoint : commitChessTwo "c" = .ok disjointOutcome :=
  toOption_eq_some.mp (Option.some_get (by decide)).symm

theorem commitChessTwo_shared : commitChessTwo "a" = .ok sharedOutcome :=
  toOption_eq_some.mp (Option.some_get (by decide)).symm

instance (database : Database) (candidate : Build) : Decidable (database.IsLatest candidate) :=
  inferInstanceAs (Decidable (candidate ∈ database.builds.rows ∧ candidate.state = .published ∧
    ∀ newer ∈ database.builds.rows, newer.gameId = candidate.gameId → newer.state = .published →
      candidate.precedes newer = false))

/-- With disjoint content, the retirement keeps what both current builds need and deletes the
object of the superseded one. -/
theorem retirement_keeps_current_iff_disjoint :
    KeepsCurrentBuilds disjointOutcome.1 disjointOutcome.2.database ∧
      mirroredObject "a" ∉ disjointOutcome.2.database.storageObjects.rows := by
  refine ⟨(retirement_keeps_current_iff (twoGames "c") 3 chessTwo false oneHotReplica
    oneHotReplica deletingRegistry disjointOutcome.1 disjointOutcome.2 commitChessTwo_disjoint
    (by decide)).mpr ⟨fun _ row hrow hretires build hbuild hgame ↦ ?_,
      fun row hrow ↦ ?_⟩, by decide⟩
  · have hall : ∀ build ∈ disjointOutcome.1.builds.rows, build.gameId ≠ chessTwo.gameId →
        ∀ row ∈ disjointOutcome.1.storageObjects.rows,
          disjointOutcome.1.anyOldBuild chessTwo.gameId chessTwo.id
            (disjointOutcome.1.hasChunk · row.encodedHash) = true →
          disjointOutcome.1.hasChunk build.id row.encodedHash = false := by
      decide
    exact hall build hbuild.1 hgame row hrow hretires.superseded
  · have hempty : disjointOutcome.1.packLocations.rows = [] := by decide
    exact absurd hrow not_mem_nil

/-- A chunk of the superseded build that is also in the only build of another game loses its HOT
object. -/
theorem retirement_drops_shared_chunk :
    commitPublication (twoGames "a") 3 chessTwo.gameId chessTwo.id false oneHotReplica
        oneHotReplica deletingRegistry = .ok sharedOutcome ∧
      sharedOutcome.1.IsLatest chessTwo ∧
      ¬ KeepsCurrentBuilds sharedOutcome.1 sharedOutcome.2.database := by
  refine ⟨commitChessTwo_shared, by decide, fun hkeeps ↦ ?_⟩
  have hkept := hkeeps.objects (mirroredObject "a")
    (by change _ ∈ sharedOutcome.1.storageObjects.rows; decide) rfl
    ⟨"go-1", "go", .published, 1, some 1⟩ (by decide) (by decide)
  have hdropped : mirroredObject "a" ∉ sharedOutcome.2.database.storageObjects.rows := by
    decide
  exact hdropped hkept

end GameLauncher.Catalog
