import Mathlib.Data.List.Dedup
import Mathlib.Data.List.Sort
import GameLauncher.Foundation.Table
import GameLauncher.Foundation.Text

/-!
# The catalog database

The tables of the control plane that publication and storage placement read and write, with their
primary keys: builds, the chunks and packs of a build, the index of the packs, and where chunks and
packs are stored. Each function is one database operation of the server, its SQL statement written
as operations on tables. Timestamps are integers, and build identifiers compare as texts.

`latestPublished_unique` shows that a game has at most one latest build.

Left out of the rows: columns that none of these statements reads.
-/

set_option autoImplicit false

namespace GameLauncher.Catalog

open Foundation Fallible

/-! ### Rows -/

/-- The storage classes, also called tiers. -/
inductive StorageClass
  | hot
  | cold
  | archive
  deriving DecidableEq, Repr

inductive BuildState
  | ready
  | verified
  | published
  deriving DecidableEq, Repr

/-- A row of `builds`. -/
structure Build where
  id : Text
  gameId : Text
  state : BuildState
  createdAt : ℤ
  publishedAt : Option ℤ
  deriving DecidableEq, Repr

/-- A row of `build_chunks`. -/
structure BuildChunk where
  buildId : Text
  encodedHash : Text
  ordinal : ℕ
  deriving DecidableEq, Repr

/-- A row of `build_packs`. -/
structure BuildPack where
  buildId : Text
  packHash : Text
  deriving DecidableEq, Repr

/-- A row of `physical_packs`. -/
structure PhysicalPack where
  packHash : Text
  verified : Bool
  verifiedAt : Option ℤ
  deriving DecidableEq, Repr

/-- A row of `pack_chunks`. -/
structure PackChunk where
  packHash : Text
  encodedHash : Text
  deriving DecidableEq, Repr

/-- A row of `storage_objects`. -/
structure StorageObject where
  encodedHash : Text
  encodedSize : ℕ
  provider : Text
  poolId : Option Text
  failureDomain : Option Text
  tier : StorageClass
  objectKey : Text
  verifiedAt : Option ℤ
  deriving DecidableEq, Repr

/-- A row of `storage_locations`. -/
structure StorageLocation where
  encodedHash : Text
  provider : Text
  poolId : Option Text
  failureDomain : Option Text
  tier : StorageClass
  directUrl : Text
  verifiedAt : Option ℤ
  deriving DecidableEq, Repr

/-- A row of `pack_locations`. -/
structure PackLocation where
  packHash : Text
  provider : Text
  poolId : Text
  failureDomain : Text
  storageClass : StorageClass
  objectKey : Text
  directUrl : Text
  priority : ℤ
  verifiedAt : Option ℤ
  expiresAt : Option ℤ
  deriving DecidableEq, Repr

/-- The catalog. -/
structure Database where
  builds : Table Build Build.id
  buildChunks : Table BuildChunk fun row ↦ (row.buildId, row.encodedHash, row.ordinal)
  buildPacks : Table BuildPack fun row ↦ (row.buildId, row.packHash)
  physicalPacks : Table PhysicalPack PhysicalPack.packHash
  packChunks : Table PackChunk fun row ↦ (row.packHash, row.encodedHash)
  storageObjects : Table StorageObject fun row ↦ (row.encodedHash, row.provider)
  storageLocations : Table StorageLocation fun row ↦ (row.encodedHash, row.provider, row.directUrl)
  packLocations : Table PackLocation fun row ↦ (row.packHash, row.provider, row.directUrl)

/-! ### What a build is made of -/

def Database.hasChunk (database : Database) (buildId encodedHash : Text) : Bool :=
  database.buildChunks.rows.any fun row ↦ row.buildId == buildId && row.encodedHash == encodedHash

def Database.hasPack (database : Database) (buildId packHash : Text) : Bool :=
  database.buildPacks.rows.any fun row ↦ row.buildId == buildId && row.packHash == packHash

def Database.buildPacksCoverAllChunks (database : Database) (buildId : Text) : Bool :=
  database.buildChunks.rows.all fun chunk ↦ chunk.buildId != buildId ||
    database.packChunks.rows.any fun entry ↦
      entry.encodedHash == chunk.encodedHash && database.hasPack buildId entry.packHash

/-! ### Publication -/

/-- How many replicas a policy asks for. -/
structure StoragePolicy where
  minVerifiedHotReplicas : ℕ
  minVerifiedColdReplicas : ℕ
  minVerifiedArchiveReplicas : ℕ
  minHotFailureDomains : ℕ
  minColdFailureDomains : ℕ
  minArchiveFailureDomains : ℕ
  coldBackupRequired : Bool
  deriving DecidableEq, Repr

def StoragePolicy.requiredReplicas (policy : StoragePolicy) : StorageClass → ℕ
  | .hot => policy.minVerifiedHotReplicas
  | .cold => max policy.minVerifiedColdReplicas (if policy.coldBackupRequired then 1 else 0)
  | .archive => policy.minVerifiedArchiveReplicas

def StoragePolicy.requiredFailureDomains (policy : StoragePolicy) : StorageClass → ℕ
  | .hot => policy.minHotFailureDomains
  | .cold => policy.minColdFailureDomains
  | .archive => policy.minArchiveFailureDomains

/-- A verified copy of a chunk or pack. -/
structure Replica where
  hash : Text
  storageClass : StorageClass
  provider : Text
  failureDomain : Text
  deriving DecidableEq, Repr

/-- The replicas of a hash fall short of a policy in one class. -/
def lacksReplicas (policy : StoragePolicy) (replicas : List Replica) (hash : Text)
    (storageClass : StorageClass) : Bool :=
  let found := replicas.filter fun replica ↦
    replica.hash == hash && replica.storageClass == storageClass
  (found.map Replica.provider).dedup.length < policy.requiredReplicas storageClass ||
    (found.map Replica.failureDomain).dedup.length < policy.requiredFailureDomains storageClass

/-- The replicas of a hash fall short of a policy. -/
def lacksPolicy (policy : StoragePolicy) (replicas : List Replica) (hash : Text) : Bool :=
  lacksReplicas policy replicas hash .hot || lacksReplicas policy replicas hash .cold ||
    lacksReplicas policy replicas hash .archive

/-- The verified copies of chunks, among the objects and among the locations. -/
def Database.chunkReplicas (database : Database) : List Replica :=
  ((database.storageObjects.rows.filter fun row ↦ row.verifiedAt.isSome).map fun row ↦
    ⟨row.encodedHash, row.tier, row.provider,
      (row.failureDomain.or row.poolId).getD row.provider⟩) ++
  (database.storageLocations.rows.filter fun row ↦ row.verifiedAt.isSome).map fun row ↦
    ⟨row.encodedHash, row.tier, row.provider, (row.failureDomain.or row.poolId).getD row.provider⟩

/-- The verified copies of the packs of a build; a HOT copy counts when it has a direct URL. -/
def Database.packReplicas (database : Database) (buildId : Text) : List Replica :=
  (database.packLocations.rows.filter fun row ↦
    database.hasPack buildId row.packHash && (database.physicalPacks.rows.any fun pack ↦
        pack.packHash == row.packHash && pack.verified && pack.verifiedAt.isSome) &&
      row.verifiedAt.isSome && (row.storageClass != .hot || row.directUrl.any (· != ' '))).map
    fun row ↦ ⟨row.packHash, row.storageClass, row.provider, row.failureDomain⟩

/-- The errors of the database operations used here. -/
inductive DatabaseError
  | manifest (message : Text)
  deriving DecidableEq, Repr

/-- The row may be published. -/
def isPublishable (buildId : Text) (row : Build) : Bool :=
  row.id == buildId && (row.state == .ready || row.state == .verified)

section

variable (database : Database) (now : ℤ) (buildId : Text)

/-- The `UPDATE` that publishes a build, which must change one row. -/
def Database.markPublished :
    Except DatabaseError Database := do
  throwIf (database.builds.countWhere (isPublishable buildId) ≠ 1)
    (.manifest ("build " ++ buildId ++ " is not publishable"))
  return { database with
    builds := database.builds.updateWhere (isPublishable buildId)
      (fun row ↦ { row with state := .published, publishedAt := some now }) fun _ ↦ rfl }

def Database.publishBuildWithStoragePolicy
    (policy : StoragePolicy) : Except DatabaseError Database := do
  let missing := database.buildChunks.countWhere fun row ↦
    row.buildId == buildId && lacksPolicy policy database.chunkReplicas row.encodedHash
  throwIf (missing ≠ 0) (.manifest ("cannot publish build " ++ buildId ++ ": " ++
    (Nat.repr missing).toList ++
    " chunks do not satisfy the storage class/pool policy"))
  database.markPublished now buildId

def Database.publishBuildWithPackStoragePolicy
    (policy : StoragePolicy) : Except DatabaseError Database := do
  let missing := database.buildPacks.countWhere fun row ↦
    row.buildId == buildId && lacksPolicy policy (database.packReplicas buildId) row.packHash
  throwIf (missing ≠ 0) (.manifest ("cannot publish pack-canonical build " ++ buildId ++
    ": " ++ (Nat.repr missing).toList ++
    " physical packs do not satisfy the storage class/pool policy"))
  database.markPublished now buildId

end

/-! ### The latest build -/

/-- The time by which builds are ordered: of publication, or else of creation. -/
def Build.effectiveAt (row : Build) : ℤ := row.publishedAt.getD row.createdAt

/-- The second build comes after the first: later, or at the same time with a greater id. -/
def Build.precedes (candidate newer : Build) : Bool :=
  candidate.effectiveAt < newer.effectiveAt ||
    (newer.effectiveAt == candidate.effectiveAt && decide (candidate.id < newer.id))

/-- No published build of the same game comes after this published one. -/
def Database.IsLatest (database : Database) (candidate : Build) : Prop :=
  candidate ∈ database.builds ∧ candidate.state = .published ∧
    ∀ newer ∈ database.builds, newer.gameId = candidate.gameId → newer.state = .published →
      candidate.precedes newer = false

def Database.isLatestPublishedBuild (database : Database) (buildId : Text) : Bool :=
  database.builds.rows.any fun candidate ↦ candidate.id == buildId &&
    candidate.state == .published &&
    !database.builds.rows.any fun newer ↦ newer.gameId == candidate.gameId &&
      newer.state == .published && candidate.precedes newer

theorem isLatestPublishedBuild_iff {database : Database} {buildId : Text} :
    database.isLatestPublishedBuild buildId = true ↔
      ∃ candidate, candidate.id = buildId ∧ database.IsLatest candidate := by
  unfold Database.isLatestPublishedBuild Database.IsLatest
  simp only [List.any_eq_true, Bool.and_eq_true, beq_iff_eq, Bool.not_eq_true', List.any_eq_false,
    not_and, Bool.not_eq_true, Table.mem_iff]
  constructor
  · rintro ⟨candidate, hmem, ⟨hid, hstate⟩, hnewer⟩
    exact ⟨candidate, hid, hmem, hstate, fun newer h hgame hpublished ↦
      hnewer newer h ⟨hgame, hpublished⟩⟩
  · rintro ⟨candidate, hid, hmem, hstate, hnewer⟩
    exact ⟨candidate, hmem, ⟨hid, hstate⟩, fun newer h hother ↦ hnewer newer h hother.1 hother.2⟩

theorem latestPublished_unique {database : Database} {first second : Build}
    (hfirst : database.IsLatest first) (hsecond : database.IsLatest second)
    (hgame : first.gameId = second.gameId) : first = second := by
  have hle := hfirst.2.2 second hsecond.1 hgame.symm hsecond.2.1
  have hge := hsecond.2.2 first hfirst.1 hgame hfirst.2.1
  unfold Build.precedes at hle hge
  simp only [Bool.or_eq_false_iff, decide_eq_false_iff_not, not_lt, Bool.and_eq_false_iff,
    beq_eq_false_iff_ne, ne_eq] at hle hge
  have htime : second.effectiveAt = first.effectiveAt := le_antisymm hle.1 hge.1
  have hid : first.id = second.id := by
    refine le_antisymm ?_ ?_
    · exact hge.2.resolve_left fun h ↦ h htime.symm
    · exact hle.2.resolve_left fun h ↦ h htime
  exact Table.eq_of_key_eq hfirst.1 hsecond.1 hid

end GameLauncher.Catalog
