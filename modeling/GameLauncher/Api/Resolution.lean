import GameLauncher.Catalog.FailedPublication

/-!
# Resolution of chunks and packs

The two handlers by which a client finds the content of a build. `resolveChunks` answers with the
URLs of single chunks, `resolvePacks` with the packs that contain the requested chunks.
`resolveChunks` leaves out a chunk of a superseded build when it expects that `resolvePacks` serves
it.

`resolvePacks` iterates over hash maps, whose order is a parameter (`HashOrder`). A provider may
answer differently each time it is asked for a location, so its answers are numbered by the rounds
of the loop.

Left out: the lock around the admission of restore jobs, and faults of the database connection.
-/

set_option autoImplicit false

namespace GameLauncher.Api

open Foundation Fallible Manifests Placement Catalog

/-! ### Errors -/

structure ApiResponseError where
  status : ℕ
  code : Text
  message : Text
  retryAfterSeconds : Option ℕ
  deriving DecidableEq, Repr

namespace ApiResponseError

/-- `ApiResponseError::not_found`. -/
def notFound (resource : Text) : ApiResponseError where
  status := 404
  code := "not_found"
  message := resource ++ " was not found"
  retryAfterSeconds := none

/-- `ApiResponseError::bad_request`. -/
def badRequest (message : Text) : ApiResponseError where
  status := 400
  code := "bad_request"
  message := message
  retryAfterSeconds := none

/-- `ApiResponseError::rate_limited`. -/
def rateLimited (retryAfterSeconds : ℕ) : ApiResponseError where
  status := 429
  code := "rate_limited"
  message := "request rate limit exceeded"
  retryAfterSeconds := some (max retryAfterSeconds 1)

/-- `ApiResponseError::temporary`. -/
def temporary (code message : Text) (retryAfterSeconds : ℕ) : ApiResponseError where
  status := 503
  code := code
  message := message
  retryAfterSeconds := some retryAfterSeconds

def storageInvalidHash : ApiResponseError where
  status := 400
  code := "storage_error"
  message := "storage operation failed"
  retryAfterSeconds := none

/-- The response when a chunk cannot be downloaded from anywhere. -/
def noChunkLocations : ApiResponseError where
  status := 503
  code := "no_chunk_locations"
  message := "no download locations are currently available"
  retryAfterSeconds := none

end ApiResponseError

/-! ### The state of the server -/

structure DownloadLocation where
  url : Text
  expiresAt : Option ℤ
  deriving DecidableEq, Repr

structure ProviderCapabilities where
  directDownload : Bool
  rangeRequests : Bool
  stableUrls : Bool
  deriving DecidableEq, Repr

/-- A configured provider, with its answers when it is asked for the location of a chunk or of a
pack; the number is the round of the loop that asks. -/
structure DownloadProvider where
  providerId : Text
  providerType : Text
  capabilities : ProviderCapabilities
  downloadLocation : ℕ → Text → Option DownloadLocation
  downloadPackLocation : ℕ → Text → Option DownloadLocation

structure DownloadRegistry where
  providers : List DownloadProvider
  poolForProvider : Text → Option StoragePool

/-- The metadata database: the catalog, and the columns that only these handlers read. -/
structure MetadataDatabase where
  catalog : Database
  manifestJson : Text → Manifest
  locationPriority : StorageLocation → ℤ
  packEncodedSize : Text → ℤ

/-- The part of `AppState` that resolution uses. `retryAfterSeconds` is the answer of the rate
limiter for the client of the request. -/
structure AppState where
  database : Option MetadataDatabase
  manifests : Text → Option Manifest
  storage : DownloadRegistry
  mirrors : List Text
  packsEnabled : Bool
  publicBaseUrl : Text
  coldStreamWorkerUrl : Option Text
  coldStreamToken : Option Text
  retryAfterSeconds : Option ℕ
  restoreQueueDepth : ℕ
  maxRestoreJobsPerRequest : ℕ
  maxPendingRestoreJobs : ℕ
  restoreTarget : Text

/-- A restore job: of a pack, or of a single chunk. -/
structure RestoreJob where
  isPack : Bool
  target : Text
  targetProvider : Text
  deriving DecidableEq, Repr

/-- What a handler does: its answer, and the restore jobs it enqueues. -/
structure Handled (α : Type) where
  answer : Except ApiResponseError α
  enqueued : List RestoreJob

/-- The order in which a hash map yields its keys: some permutation of them. -/
structure HashOrder (α : Type) where
  arrange : List α → List α
  perm : ∀ keys, (arrange keys).Perm keys

theorem HashOrder.mem_arrange {α : Type} {order : HashOrder α} {keys : List α} {key : α} :
    key ∈ order.arrange keys ↔ key ∈ keys := (order.perm keys).mem_iff

/-- `StorageRegistry::provider`. -/
def DownloadRegistry.provider (storage : DownloadRegistry) (providerId : Text) :
    Option DownloadProvider :=
  storage.providers.find? fun provider ↦ provider.providerId == providerId

/-- The provider with this id and its pool, when the pool is an enabled HOT pool and the provider
has a capability. -/
def DownloadRegistry.hotProvider (storage : DownloadRegistry)
    (capability : ProviderCapabilities → Bool) (providerId : Text) :
    Option (DownloadProvider × StoragePool) :=
  match storage.provider providerId with
  | none => none
  | some provider =>
    match storage.poolForProvider provider.providerId with
    | none => none
    | some pool =>
      if pool.storageClass = .hot ∧ pool.enabled = true ∧
          capability provider.capabilities = true then some (provider, pool) else none

/-- `StorageRegistry::download_locations_for_tier`, for the HOT tier. -/
def DownloadRegistry.hotLocations (storage : DownloadRegistry) (round : ℕ) (encodedHash : Text) :
    List DownloadLocation :=
  storage.providers.foldl (fun locations provider ↦
    match (storage.poolForProvider provider.providerId).filter (·.storageClass == .hot),
        provider.downloadLocation round encodedHash with
    | some _, some location =>
      if locations.any (·.url == location.url) then locations else locations ++ [location]
    | _, _ => locations) []

/-! ### The database -/

/-- `get_manifest`, of a published build. -/
def MetadataDatabase.getManifest (database : MetadataDatabase) (buildId : Text) :
    Option Manifest :=
  if database.catalog.isPublished buildId then some (database.manifestJson buildId) else none

def referencedChunks (manifest : Manifest) : List Text :=
  manifest.files.flatMap fun file ↦ file.chunks.map ChunkRef.encodedHash

/-- The verified locations of a chunk (`get_storage_locations`). -/
def MetadataDatabase.storageLocations (database : MetadataDatabase) (encodedHash : Text) :
    List StorageLocation :=
  (database.catalog.storageLocations.rows.filter fun row ↦
    row.encodedHash == encodedHash && row.verifiedAt.isSome).insertionSort fun first second ↦
      database.locationPriority first < database.locationPriority second ∨
        database.locationPriority first = database.locationPriority second ∧
          [first.provider, first.directUrl] ≤ [second.provider, second.directUrl]

/-- The chunk has a verified COLD location, or a COLD object. -/
def hasColdReplica (database : Database) (encodedHash : Text) : Bool :=
  (database.storageLocations.rows.any fun row ↦ row.encodedHash == encodedHash &&
    row.verifiedAt.isSome && row.tier == .cold) ||
  database.storageObjects.rows.any fun row ↦ row.encodedHash == encodedHash && row.tier == .cold

/-- The requested chunks in verified packs that have a verified COLD location and satisfy the
condition. -/
def coldPackChunks (database : Database) (condition : Text → Bool) (encodedHashes : List Text) :
    List PackChunk :=
  (database.packChunks.rows.filter fun row ↦ encodedHashes.contains row.encodedHash &&
    database.packVerified row.packHash && !(database.verifiedCopies row.packHash .cold).isEmpty &&
    condition row.packHash).insertionSort
    fun first second ↦ [first.encodedHash, first.packHash] ≤ [second.encodedHash, second.packHash]

/-- `get_cold_pack_hashes_for_chunks`: packs of any build. -/
def getColdPackHashesForChunks (database : Database) (encodedHashes : List Text) :
    List PackChunk :=
  coldPackChunks database (fun _ ↦ true) encodedHashes

/-- `get_cold_pack_sources_for_build_chunks`: packs that are attached to the build. -/
def getColdPackSourcesForBuildChunks (database : Database) (buildId : Text)
    (encodedHashes : List Text) : List PackChunk :=
  coldPackChunks database (database.hasPack buildId) encodedHashes

/-! ### Checks -/

def isLowercaseContentHash (value : Text) : Bool :=
  (utf8 value).length = 64 && (utf8 value).all fun byte ↦
    (48 ≤ byte.toNat && byte.toNat ≤ 57) || (97 ≤ byte.toNat && byte.toNat ≤ 102)

/-- `validate_hash` of the storage crate. -/
def isStorageHash (value : Text) : Bool :=
  (utf8 value).length = 64 && (utf8 value).all fun byte ↦
    isAsciiHexdigit byte && !isAsciiUppercase byte

theorem isStorageHash_of_isLowercaseContentHash {packHash : Text}
    (h : isLowercaseContentHash packHash = true) : isStorageHash packHash = true := by
  unfold isLowercaseContentHash at h
  unfold isStorageHash
  rw [Bool.and_eq_true, decide_eq_true_eq] at h ⊢
  refine ⟨h.1, List.all_eq_true.mpr fun byte hbyte ↦ ?_⟩
  have hrange := List.all_eq_true.mp h.2 byte hbyte
  simp only [isAsciiHexdigit, isAsciiUppercase, Bool.or_eq_true, Bool.and_eq_true,
    decide_eq_true_eq, Bool.not_eq_true', Bool.and_eq_false_iff, decide_eq_false_iff_not]
    at hrange ⊢
  omega

def validateContentHashes (hashes : List Text) : Except ApiResponseError Unit := do
  throwIf (hashes = [] ∨ hashes.length > 512)
    (.badRequest "resolution requires between 1 and 512 hashes")
  throwIf (∃ hash ∈ hashes, isLowercaseContentHash hash = false)
    (.badRequest "hashes must be 64 lowercase hexadecimal characters")

def admitRestoreJobs (state : AppState) (requestedJobs : ℕ) : Except ApiResponseError Unit := do
  if requestedJobs = 0 then
    return ()
  throwIf (requestedJobs > state.maxRestoreJobsPerRequest) (.rateLimited 60)
  throwIf (state.retryAfterSeconds.isSome = true)
    (.rateLimited (state.retryAfterSeconds.getD 0))
  throwIf (state.database.isSome = true ∧
      saturatingAdd state.restoreQueueDepth requestedJobs > state.maxPendingRestoreJobs)
    (.temporary "restore_queue_full"
      "the restore queue is at capacity; try again later" 60)

/-- Enqueue restore jobs, when they are admitted, and ask the client to come back. -/
def enqueueRestores {α : Type} (state : AppState) (targets : List (Bool × Text)) (message : Text) :
    Handled α :=
  match admitRestoreJobs state targets.length with
  | .error error => ⟨.error error, []⟩
  | .ok () => ⟨.error (.temporary "restore_pending" message 30),
      targets.map fun target ↦ ⟨target.1, target.2, state.restoreTarget⟩⟩

/-- Superseded builds are served from COLD storage through the server. -/
def AppState.coldStreamConfigured (state : AppState) : Bool :=
  state.coldStreamWorkerUrl.isSome && state.coldStreamToken.isSome

/-! ### Chunks -/

structure ResolvedChunk where
  encodedHash : Text
  urls : List Text
  expiresAt : Option ℤ
  deriving DecidableEq, Repr

/-- A URL added to a list that does not contain it. -/
def pushUrl (urls : List Text) (url : Text) : List Text :=
  if url ∈ urls then urls else urls ++ [url]

section

variable (state : AppState)

def relayUrl (buildId encodedHash : Text) : Text :=
  state.publicBaseUrl.rdropWhile (· == '/') ++ "/api/v1/builds/" ++ buildId ++
    "/chunks/" ++ encodedHash

/-- The chunk is in a pack of which a HOT provider serves ranges. -/
def relayAvailable (database : Database) (encodedHash : Text) : Bool :=
  (database.getHotPackSourcesForChunks [encodedHash]).any fun source ↦
    (state.storage.hotProvider ProviderCapabilities.rangeRequests
      source.location.provider).isSome

/-- The URLs of a chunk of a latest build, from the providers, the database, the mirrors and the
relay. -/
def latestUrls (buildId encodedHash : Text) (locations : List DownloadLocation) :
    List Text :=
  let recorded := ((state.database.elim [] (·.storageLocations encodedHash)).filter fun row ↦
    row.tier == .hot && !row.directUrl.isEmpty).map StorageLocation.directUrl
  let mirrored := state.mirrors.map fun base ↦ base ++ "/objects/".toList ++ encodedHash
  let urls := (recorded ++ mirrored).foldl pushUrl (locations.map DownloadLocation.url)
  if urls = [] ∧ state.packsEnabled = true ∧
      state.database.any (fun database ↦ relayAvailable state database.catalog encodedHash) = true
  then [relayUrl state buildId encodedHash] else urls

/-- The chunk of a superseded build is left to the resolution of packs. -/
def leftToPacks (buildId encodedHash : Text) : Bool :=
  state.packsEnabled && state.database.any fun database ↦
    if state.coldStreamConfigured then
      !(getColdPackSourcesForBuildChunks database.catalog buildId [encodedHash]).isEmpty
    else !(database.catalog.getHotPackSourcesForChunks [encodedHash]).isEmpty

/-- What is to be restored for a chunk without a URL: its COLD packs, and the chunk itself. -/
def restoreTargets (database : Database) (buildIsLatest : Bool)
    (encodedHash : Text) : List (Bool × Text) :=
  let coldStreamEnabled := !buildIsLatest && state.coldStreamConfigured
  let coldPacks := if !coldStreamEnabled && !buildIsLatest && state.packsEnabled then
    (getColdPackHashesForChunks database [encodedHash]).map PackChunk.packHash else []
  (((coldPacks.filter isLowercaseContentHash).map fun packHash ↦ (true, packHash)) ++
    if hasColdReplica database encodedHash then [(false, encodedHash)] else []).dedup

/-- The answer for a chunk without a URL. -/
def chunkUnavailable (order : HashOrder (Bool × Text)) (buildIsLatest : Bool)
    (encodedHash : Text) : Handled (Option ResolvedChunk) :=
  match state.database with
  | none => ⟨.error .noChunkLocations, []⟩
  | some database =>
    let targets := restoreTargets state database.catalog buildIsLatest encodedHash
    if targets = [] then ⟨.error .noChunkLocations, []⟩
    else enqueueRestores state (order.arrange targets)
      "the chunk is in cold storage and a hot restore has been queued"

/-- One round of the loop of `resolve_chunks`: nothing when the chunk is left to the packs. -/
def resolveChunk (order : HashOrder (Bool × Text)) (buildId : Text)
    (allowed : List Text) (buildIsLatest : Bool) (round : ℕ) (encodedHash : Text) :
    Handled (Option ResolvedChunk) :=
  if encodedHash ∉ allowed then
    ⟨.error (.badRequest "chunk is not referenced by the requested build"), []⟩
  else if isStorageHash encodedHash = false then
    ⟨.error (if buildIsLatest then .storageInvalidHash
      else .badRequest "invalid chunk hash"), []⟩
  else
    let locations := if buildIsLatest then state.storage.hotLocations round encodedHash else []
    let urls := if buildIsLatest then latestUrls state buildId encodedHash locations else []
    if urls ≠ [] then
      ⟨.ok (some ⟨encodedHash, urls, (locations.filterMap DownloadLocation.expiresAt).min?⟩), []⟩
    else if buildIsLatest = false ∧ leftToPacks state buildId encodedHash = true then
      ⟨.ok none, []⟩
    else chunkUnavailable state order buildIsLatest encodedHash

end

/-- A loop over a request that collects what its rounds give, until one fails. -/
def resolveEach {α : Type} (resolve : ℕ → Text → Handled (Option α)) :
    ℕ → List Text → Handled (List α)
  | _, [] => ⟨.ok [], []⟩
  | round, encodedHash :: rest =>
    match resolve round encodedHash with
    | ⟨.error error, enqueued⟩ => ⟨.error error, enqueued⟩
    | ⟨.ok found, enqueued⟩ =>
      let remaining := resolveEach resolve (round + 1) rest
      ⟨remaining.answer.map (found.toList ++ ·), enqueued ++ remaining.enqueued⟩

/-- The chunks of a build, in the database or else in memory. -/
def allowedChunks (state : AppState) (buildId : Text) : Option (List Text) :=
  (match state.database with
    | some database => database.getManifest buildId
    | none => state.manifests buildId).map referencedChunks

/-- The build is the latest of its game; without a database every build counts as one. -/
def isLatestBuild (state : AppState) (buildId : Text) : Bool :=
  state.database.elim true (·.catalog.isLatestPublishedBuild buildId)

def resolveChunks (state : AppState) (order : HashOrder (Bool × Text)) (buildId : Text)
    (encodedHashes : List Text) : Handled (List ResolvedChunk) :=
  match validateContentHashes encodedHashes with
  | .error error => ⟨.error error, []⟩
  | .ok () =>
    match allowedChunks state buildId with
    | none => ⟨.error (.notFound "build"), []⟩
    | some allowed =>
      resolveEach (resolveChunk state order buildId allowed (isLatestBuild state buildId)) 0
        encodedHashes

/-! ### Packs -/

/-- One source of a resolved pack (`HotPackSource` of the response). -/
structure PackSource where
  provider : Text
  poolId : Text
  providerType : Text
  failureDomain : Text
  url : Text
  expiresAt : Option ℤ
  rangeSupported : Bool
  stableUrl : Bool
  priority : ℤ
  deriving DecidableEq, Repr

/-- Where a pack can be downloaded, and which of the requested chunks it contains. -/
structure ResolvedPack where
  packHash : Text
  encodedSize : ℕ
  chunkHashes : List Text
  sources : List PackSource
  deriving DecidableEq, Repr

/-- The packs found so far, by their hash. -/
abbrev Grouped := Table ResolvedPack ResolvedPack.packHash

/-- A pack with a source added, unless it has one with the same URL. -/
def ResolvedPack.addSource (pack : ResolvedPack) (source : PackSource) : ResolvedPack :=
  if pack.sources.any (·.url == source.url) then pack
  else { pack with sources := pack.sources ++ [source] }

/-- One round of the loop over the HOT records. -/
def groupHotSource (state : AppState) (database : MetadataDatabase) (requested : List Text)
    (grouped : Grouped) (record : HotPackSource × ℕ) : Grouped :=
  let source := record.1
  if isLowercaseContentHash source.packHash = false then grouped
  else match state.storage.hotProvider ProviderCapabilities.directDownload
      source.location.provider with
    | none => grouped
    | some (provider, pool) =>
      let entry := (grouped.find source.packHash).getD
        { packHash := source.packHash
          encodedSize := (database.packEncodedSize source.packHash).toNat
          chunkHashes := source.chunkHashes.filter requested.contains
          sources := [] }
      let runtime := provider.downloadPackLocation record.2 source.packHash
      let direct := if source.location.directUrl = [] then none
        else some source.location.directUrl
      match (runtime.map DownloadLocation.url).or direct with
      | none => grouped.upsert entry
      | some url => grouped.upsert (entry.addSource
          { provider := provider.providerId
            poolId := pool.id
            providerType := provider.providerType
            failureDomain := pool.failureDomain
            url := url
            expiresAt := (runtime.bind DownloadLocation.expiresAt).or source.location.expiresAt
            rangeSupported := provider.capabilities.rangeRequests
            stableUrl := provider.capabilities.stableUrls
            priority := source.location.priority })

def coldPackUrl (state : AppState) (buildId packHash : Text) : Text :=
  state.publicBaseUrl.rdropWhile (· == '/') ++ "/api/v1/builds/" ++ buildId ++
    "/cold-packs/" ++ packHash

/-- One round of the loop over the COLD packs that are streamed. -/
def groupColdPack (state : AppState) (database : MetadataDatabase) (buildId : Text)
    (grouped : Grouped) (row : PackChunk) : Grouped :=
  if isLowercaseContentHash row.packHash = false then grouped
  else
    let entry := (grouped.find row.packHash).getD
      { packHash := row.packHash
        encodedSize := (database.packEncodedSize row.packHash).toNat
        chunkHashes := []
        sources := [] }
    let listed := if row.encodedHash ∈ entry.chunkHashes then entry
      else { entry with chunkHashes := entry.chunkHashes ++ [row.encodedHash] }
    grouped.upsert (listed.addSource
      { provider := "telegram-cold-stream"
        poolId := "telegram-cold"
        providerType := "telegram"
        failureDomain := "telegram"
        url := coldPackUrl state buildId row.packHash
        expiresAt := none
        rangeSupported := false
        stableUrl := false
        priority := 1000 })

/-- The orders of the hash maps and sets over which `resolve_packs` iterates. -/
structure PackOrders where
  records : HashOrder Text
  coldSources : HashOrder Text
  restorePacks : HashOrder Text

def recordsByChunk (order : HashOrder Text) (sources : List HotPackSource) : List HotPackSource :=
  (order.arrange (sources.flatMap HotPackSource.chunkHashes).dedup).flatMap fun encodedHash ↦
    sources.filter (·.chunkHashes.contains encodedHash)

def rowsByChunk (order : HashOrder Text) (rows : List PackChunk) : List PackChunk :=
  (order.arrange (rows.map PackChunk.encodedHash).dedup).flatMap fun encodedHash ↦
    rows.filter (·.encodedHash == encodedHash)

/-- The checks at the beginning of `resolve_packs`. -/
def checkPackRequest (state : AppState) (buildId : Text) (encodedHashes : List Text) :
    Except ApiResponseError MetadataDatabase := do
  throwIf (state.packsEnabled = false) (.temporary "pack_storage_disabled"
    "physical pack resolution is disabled" 60)
  validateContentHashes encodedHashes
  let database ← orThrow state.database (.temporary "database_unavailable"
    "pack resolution requires the metadata database" 15)
  let manifest ← orThrow (database.getManifest buildId) (.notFound "build")
  throwIf (∃ encodedHash ∈ encodedHashes, encodedHash ∉ referencedChunks manifest)
    (.badRequest "chunk is not referenced by the requested build")
  return database

/-- The packs of the HOT records; those of a superseded build are not looked up. -/
def groupHotSources (state : AppState) (orders : PackOrders) (database : MetadataDatabase)
    (buildIsLatest : Bool) (encodedHashes : List Text) : Grouped :=
  let records := if buildIsLatest then
    database.catalog.getHotPackSourcesForChunks encodedHashes else []
  (recordsByChunk orders.records records).zipIdx.foldl
    (groupHotSource state database encodedHashes) .empty

/-- All packs that are found: the HOT ones, and the COLD ones that are streamed. -/
def groupPacks (state : AppState) (orders : PackOrders) (database : MetadataDatabase)
    (buildId : Text) (buildIsLatest : Bool) (encodedHashes : List Text) : Grouped :=
  let hot := groupHotSources state orders database buildIsLatest encodedHashes
  if !buildIsLatest && state.coldStreamConfigured then
    (rowsByChunk orders.coldSources (getColdPackSourcesForBuildChunks database.catalog buildId
      encodedHashes)).foldl (groupColdPack state database buildId) hot
  else hot

/-- The COLD packs to restore: those that were not found, unless COLD packs are streamed. -/
def packsToRestore (state : AppState) (database : MetadataDatabase) (buildIsLatest : Bool)
    (encodedHashes : List Text) (grouped : Grouped) : List Text :=
  if !buildIsLatest && state.coldStreamConfigured then []
  else (((getColdPackHashesForChunks database.catalog encodedHashes).map
    PackChunk.packHash).filter fun packHash ↦
      isLowercaseContentHash packHash && (grouped.find packHash).isNone).dedup

def packSourceOrder (left right : PackSource) : Bool :=
  left.priority < right.priority || (left.priority == right.priority &&
    decide ([left.provider, left.url] ≤ [right.provider, right.url]))

/-- The response: the packs that have chunks and sources, sorted. -/
def packResponse (grouped : Grouped) : List ResolvedPack :=
  ((grouped.rows.filter fun pack ↦ !pack.chunkHashes.isEmpty && !pack.sources.isEmpty).insertionSort
    fun left right ↦ left.packHash ≤ right.packHash).map fun pack ↦
      { pack with
        chunkHashes := pack.chunkHashes.insertionSort (· ≤ ·)
        sources := pack.sources.insertionSort fun left right ↦ packSourceOrder left right }

def resolvePacks (state : AppState) (orders : PackOrders) (buildId : Text)
    (encodedHashes : List Text) : Handled (List ResolvedPack) :=
  match checkPackRequest state buildId encodedHashes with
  | .error error => ⟨.error error, []⟩
  | .ok database =>
    let buildIsLatest := database.catalog.isLatestPublishedBuild buildId
    let grouped := groupPacks state orders database buildId buildIsLatest encodedHashes
    let restorePacks := packsToRestore state database buildIsLatest encodedHashes grouped
    if restorePacks = [] then ⟨.ok (packResponse grouped), []⟩
    else enqueueRestores state
      ((orders.restorePacks.arrange restorePacks).map fun packHash ↦ (true, packHash))
      "the requested pack is in COLD storage and a HOT restore has been queued"

end GameLauncher.Api
