import GameLauncher.Downloads.ChunkCache
import GameLauncher.Foundation.Process
import GameLauncher.Foundation.Run
import GameLauncher.Manifests.ManifestValidator

/-!
# The download manager

`DownloadManager.DownloadAsync` of `Launcher.Downloads`. It runs in two parts. The first runs
alone: the manifest is validated, the packs that the API resolves are fetched and their chunks put
into the chunk cache, and the chunks that are still missing are resolved one by one. It is a
`Process` on a `Session`, because what a pack has put into the cache stays there when a later step
of the pack path throws and the exception is caught. The second part is one task for each distinct
encoded hash, all running at once: `Transfer.advance` is one step of one task, between two points
at which another task can see or change the cache.

What the world answers is the parameter `network`, as a function of a counter of its answers, so
that it may answer every call differently: the clock, the answers of the API, the ranking of the
sources and the content of the partial file after a transfer. Resuming a partial file is part of
that answer. The semaphore that bounds the parallel transfers, the pause and the job records in the
optional state store are left out: the first two only remove orders of steps, the last does not
touch the cache.
-/

set_option autoImplicit false

namespace GameLauncher.Downloads

open Foundation Fallible Packs Manifests

/-! ### The API client -/

/-- The part of `ResolvedPackSource` that is read. -/
structure ResolvedPackSource where
  provider : Text
  url : Text
  rangeSupported : Bool
  deriving DecidableEq, Repr

structure ResolvedPack where
  packHash : Text
  encodedSize : ℤ
  chunkHashes : List Text
  sources : List ResolvedPackSource
  deriving DecidableEq, Repr

/-- The part of `ResolvedChunk` that is read. -/
structure ResolvedChunk where
  encodedHash : Text
  urls : List Text
  deriving DecidableEq, Repr

/-- What the launcher finds outside itself. The number counts the answers of a run. -/
structure Network where
  clock : ℕ → ℤ
  packAnswer : ℕ → List Text → Except LauncherException (List ResolvedPack)
  chunkAnswer : ℕ → List Text → Except LauncherException (List ResolvedChunk)
  packContent : ℕ → ResolvedPack → ResolvedPackSource → Except LauncherException (Bytes × ℕ)
  rank : ℕ → List ResolvedPackSource → List ResolvedPackSource
  isSparse : ℤ → ℤ → Bool
  isHttpUrl : Text → Bool
  lastAccessTime : Text → ℤ

namespace LauncherApiClient

variable (network : Network)

def checkPack (pack : ResolvedPack) : Except LauncherException Unit := do
  throwIf (isHash pack.packHash = false ∨ pack.encodedSize ≤ 0 ∨ pack.chunkHashes = [] ∨
    pack.chunkHashes.all isHash = false)
    (.invalidData "API returned an invalid physical pack location.")
  throwIf (pack.sources.any (fun source ↦ !network.isHttpUrl source.url ||
    isNullOrWhiteSpace source.provider) = true)
    (.invalidData "API returned an invalid physical pack source.")

def resolvePacksAsync (call : ℕ) (encodedHashes : List Text) :
    Except LauncherException (List ResolvedPack) := do
  let packs ← network.packAnswer call encodedHashes
  packs.forM (checkPack network)
  pure packs

/-- `ResolveChunksAsync`, after its polls for a cold restore. -/
def resolveChunksAsync (call : ℕ) (encodedHashes : List Text) :
    Except LauncherException (List ResolvedChunk) := do
  let resolved ← network.chunkAnswer call encodedHashes
  throwIf (resolved.any (fun item ↦ !isHash item.encodedHash || item.urls.isEmpty ||
    item.urls.any fun url ↦ !network.isHttpUrl url) = true)
    (.invalidData "API returned an invalid chunk location.")
  throwIf (¬ (resolved.map ResolvedChunk.encodedHash).Nodup)
    (.argument "An item with the same key has already been added.")
  pure resolved

end LauncherApiClient

/-! ### Chunks of a manifest -/

/-- `GroupBy` and `First`, or `Distinct`: the first item of each key, in order. -/
def distinctBy {α κ : Type} [DecidableEq κ] (key : α → κ) : List α → List α
  | [] => []
  | item :: rest => item :: (distinctBy key rest).filter fun other ↦ key other ≠ key item

def uniqueChunks (manifest : Manifest) : List ChunkRef :=
  distinctBy ChunkRef.encodedHash (manifest.files.flatMap FileRecipe.chunks)

def sumEncodedSizes (chunks : List ChunkRef) : Except LauncherException ℕ :=
  orThrow (chunks.foldlM (fun total chunk ↦
      ManifestValidator.checkedAddLong total chunk.encodedSize) 0)
    (.invalidData "Encoded chunk sizes exceed the supported download range.")

def LauncherException.ofValidation : ManifestValidator.ValidationException → LauncherException
  | .invalidData message => .invalidData (String.ofList message)
  | .argument => .argument "Invalid Unicode"

/-! ### The part that runs alone -/

/-- What the first part of a download changes. -/
structure Session where
  cache : ChunkCache
  packCache : PackCache
  packPreparedChunks : List Text
  calls : ℕ

abbrev Download (α : Type) := Process Session LauncherException α

/-- The exceptions after which the download goes on without packs. -/
def LauncherException.endsPacks : LauncherException → Bool
  | .httpRequest _ | .invalidData _ | .io _ | .launcherOperation _ => true
  | _ => false

/-- The exceptions after which the next source of a pack is tried. -/
def LauncherException.endsSource : LauncherException → Bool
  | .httpRequest _ | .io _ | .invalidData _ => true
  | _ => false

section Alone

variable (hash : Bytes → Digest) (network : Network)

/-- An answer from outside. -/
def ask {α : Type} (answer : ℕ → Except LauncherException α) : Download α :=
  Process.step fun session ↦ (answer session.calls, { session with calls := session.calls + 1 })

/-- A value or an exception that does not depend on the session. -/
def raise {α : Type} (outcome : Except LauncherException α) : Download α :=
  Process.query fun _ ↦ outcome

/-- `cache.ReadAsync`. -/
def readChunk (encodedHash : Text) : Download (Option Bytes) :=
  Process.step fun session ↦
    let outcome := session.cache.readAsync hash (network.clock session.calls) encodedHash
    (outcome.1, { session with cache := outcome.2, calls := session.calls + 1 })

/-- `cache.PutAsync`, and then the chunk is marked as prepared. -/
def putPreparedChunk (encodedHash : Text) (encoded : Bytes) : Download Unit := do
  Process.step fun session ↦
    let outcome := session.cache.putAsync hash (network.clock session.calls) encodedHash encoded
    (outcome.1, { session with cache := outcome.2, calls := session.calls + 1 })
  Process.step fun session ↦
    (.ok (), { session with packPreparedChunks := session.packPreparedChunks ++ [encodedHash] })

/-- `packCache.InitializeAsync`. -/
def initializePacks : Download Unit :=
  Process.step fun session ↦
    (.ok (), { session with
      packCache := session.packCache.initializeAsync network.lastAccessTime })

/-- `physicalCache.ReadAsync`. -/
def readPack (packHash : Text) : Download (Option Bytes) :=
  Process.step fun session ↦
    let outcome := session.packCache.readAsync hash (network.clock session.calls) packHash
    (outcome.1, { session with packCache := outcome.2, calls := session.calls + 1 })

/-- `PutAsync` of the pack cache. -/
def putPack (packHash : Text) (bytes : Bytes) : Download Unit :=
  Process.step fun session ↦
    let outcome := PackCache.putAsync hash (network.clock session.calls) packHash bytes
      session.packCache
    (outcome.1, { session with packCache := outcome.2, calls := session.calls + 1 })

/-- `DownloadPackFromSourceAsync`: the content of the partial file is checked against the size of
the pack and, by the pack cache, against its hash. -/
def downloadPackFromSourceAsync (pack : ResolvedPack) (source : ResolvedPackSource) :
    Download (Bytes × ℕ) := do
  let (bytes, received) ← ask fun call ↦ network.packContent call pack source
  raise (throwIf ((bytes.length : ℤ) ≠ pack.encodedSize)
    (.invalidData ("Pack size mismatch for " ++ String.ofList pack.packHash ++ ".")))
  putPack hash network pack.packHash bytes
  pure (bytes, received)

/-- The loop over the ranked sources. -/
def downloadFromSources (pack : ResolvedPack) :
    List ResolvedPackSource → Download (Option (Bytes × ℕ))
  | [] => pure none
  | source :: rest =>
    Process.tryCatch
      (do
        let result ← downloadPackFromSourceAsync hash network pack source
        pure (some result))
      fun failure ↦
        if failure.endsSource then downloadFromSources pack rest else Process.fail failure

/-- `refreshPack`: only an `HttpRequestException` is caught. -/
def refreshPack (pack : ResolvedPack) : Download (Option ResolvedPack) :=
  Process.tryCatch
    (do
      let refreshed ← ask fun call ↦
        LauncherApiClient.resolvePacksAsync network call pack.chunkHashes
      pure (refreshed.find? fun candidate ↦ candidate.packHash = pack.packHash))
    fun
    | .httpRequest _ => pure none
    | failure => Process.fail failure

/-- `DownloadPackWithRetryAsync`: the sources of the pack, and those of the refreshed pack. -/
def downloadPackWithRetryAsync (pack : ResolvedPack) : Download (Bytes × ℕ) := do
  let failed : LauncherException := .httpRequest
    ("Physical pack download failed after source failover: " ++ String.ofList pack.packHash)
  let sources ← ask fun call ↦ .ok (network.rank call pack.sources)
  match ← downloadFromSources hash network pack sources with
  | some result => pure result
  | none =>
    match ← refreshPack network pack with
    | none => Process.fail failed
    | some refreshed =>
      let sources ← ask fun call ↦ .ok (network.rank call refreshed.sources)
      match ← downloadFromSources hash network refreshed sources with
      | some result => pure result
      | none => Process.fail failed

/-- The hashes that are still requested, the bytes received and the bytes put into the cache. -/
structure PackTotals where
  requested : List Text
  networkBytes : ℕ
  logicalBytes : ℕ

/-- One round of the loop over the covered hashes of a pack. -/
def extractChunk (chunks : List ChunkRef) (reader : PhysicalPackReader) (encodedHash : Text)
    (totals : PackTotals) : Download PackTotals := do
  let prepared ← Process.query fun session ↦ .ok session.packPreparedChunks
  if encodedHash ∈ prepared then pure totals
  else do
    let encoded ← raise ((reader.readEncoded hash encodedHash).mapError .ofPack)
    let chunk ← raise (orThrow (chunks.find? fun item ↦ item.encodedHash = encodedHash)
      (.argument "Sequence contains no matching element"))
    raise (throwIf (encoded.length ≠ chunk.encodedSize)
      (.invalidData ("Pack chunk size mismatch for " ++ String.ofList encodedHash ++ ".")))
    putPreparedChunk hash network chunk.encodedHash encoded
    pure { totals with
      requested := totals.requested.filter fun other ↦ other ≠ encodedHash
      logicalBytes := totals.logicalBytes + chunk.encodedSize }

/-- The bytes of a pack, from the pack cache or from a source. -/
def readOrDownloadPack (pack : ResolvedPack) : Download (Bytes × ℕ) := do
  match ← readPack hash network pack.packHash with
  | some bytes => pure (bytes, 0)
  | none => downloadPackWithRetryAsync hash network pack

/-- One round of the loop over the packs. -/
def downloadPack (chunks : List ChunkRef) (allowSparseRelay : Bool) (pack : ResolvedPack)
    (totals : PackTotals) : Download PackTotals := do
  let covered := pack.chunkHashes.filter fun encodedHash ↦ encodedHash ∈ totals.requested
  if covered = [] ∨ pack.sources = [] then pure totals
  else do
    let coveredLogicalBytes ← raise (sumEncodedSizes (covered.filterMap fun encodedHash ↦
      chunks.find? fun chunk ↦ chunk.encodedHash = encodedHash))
    if allowSparseRelay && (0 < pack.encodedSize) &&
        pack.sources.any ResolvedPackSource.rangeSupported &&
        network.isSparse coveredLogicalBytes pack.encodedSize then pure totals
    else do
      let (bytes, received) ← readOrDownloadPack hash network pack
      let reader ← raise ((PhysicalPackReader.parse hash bytes (some pack.packHash)).mapError
        .ofPack)
      Process.forEach (extractChunk hash network chunks reader) covered
        { totals with networkBytes := totals.networkBytes + received }

/-- The loop over the packs, which ends when nothing is requested any more. -/
def downloadEach (chunks : List ChunkRef) (allowSparseRelay : Bool) :
    List ResolvedPack → PackTotals → Download PackTotals
  | [], totals => pure totals
  | pack :: rest, totals => do
    let totals ← downloadPack hash network chunks allowSparseRelay pack totals
    if totals.requested = [] then pure totals
    else downloadEach chunks allowSparseRelay rest totals

/-- `OrderBy(EncodedSize)` and `ThenBy(PackHash)`. -/
def sortPacks (packs : List ResolvedPack) : List ResolvedPack :=
  packs.insertionSort fun first second ↦ first.encodedSize < second.encodedSize ∨
    first.encodedSize = second.encodedSize ∧ utf16 first.packHash ≤ utf16 second.packHash

def downloadPacksAsync (chunks : List ChunkRef) (allowSparseRelay : Bool) :
    Download PackTotals := do
  let missing := distinctBy id (chunks.map ChunkRef.encodedHash)
  let nothing : PackTotals := { requested := missing, networkBytes := 0, logicalBytes := 0 }
  if missing = [] then pure nothing
  else do
    let packs ← Process.tryCatch
      (do
        let packs ← ask fun call ↦ LauncherApiClient.resolvePacksAsync network call missing
        pure (some packs))
      fun
      | .httpRequest _ => pure none
      | failure => Process.fail failure
    match packs with
    | none => pure nothing
    | some packs => downloadEach hash network chunks allowSparseRelay (sortPacks packs) nothing

/-- The loop that keeps the chunks that the cache does not have. -/
def uncachedChunks (chunks : List ChunkRef) : Download (List ChunkRef) :=
  Process.forEach (fun chunk uncached ↦ do
    match ← readChunk hash network chunk.encodedHash with
    | none => pure (uncached ++ [chunk])
    | some _ => pure uncached) chunks []

/-- The body of the `try` around the packs. -/
def packPhase (chunks : List ChunkRef) : Download PackTotals := do
  initializePacks network
  let uncached ← uncachedChunks hash network chunks
  downloadPacksAsync hash network uncached (uncached.length < chunks.length)

/-- The `try` around the packs: its exceptions of four kinds are caught. -/
def accelerate (chunks : List ChunkRef) : Download PackTotals :=
  Process.tryCatch (packPhase hash network chunks) fun failure ↦
    if failure.endsPacks then pure { requested := [], networkBytes := 0, logicalBytes := 0 }
    else Process.fail failure

/-- The loop that keeps the chunks for which the logical resolver is asked. -/
def unresolvedChunks (chunks : List ChunkRef) : Download (List Text) :=
  Process.forEach (fun chunk unresolved ↦ do
    let prepared ← Process.query fun session ↦ .ok session.packPreparedChunks
    if chunk.encodedHash ∈ prepared then pure unresolved
    else
      match ← readChunk hash network chunk.encodedHash with
      | none => pure (unresolved ++ [chunk.encodedHash])
      | some _ => pure unresolved) chunks []

/-- The pack path, when there is a pack cache and the packs are not disabled. -/
def downloadFromPacks (packsEnabled : Bool) (chunks : List ChunkRef) : Download PackTotals :=
  if packsEnabled then accelerate hash network chunks
  else pure { requested := [], networkBytes := 0, logicalBytes := 0 }

/-- The logical resolver is asked when something is missing. -/
def resolveMissing (unresolved : List Text) : Download (List ResolvedChunk) :=
  if unresolved = [] then pure []
  else ask fun call ↦ LauncherApiClient.resolveChunksAsync network call unresolved

/-- `DownloadAsync` up to the start of its tasks. -/
def prepareAsync (unicode : Unicode) (packsEnabled : Bool) (manifest : Manifest) :
    Download (PackTotals × List ResolvedChunk) := do
  raise ((ManifestValidator.validate unicode manifest).mapError .ofValidation)
  let chunks := uniqueChunks manifest
  let _ ← raise (sumEncodedSizes chunks)
  let totals ← downloadFromPacks hash network packsEnabled chunks
  let unresolved ← unresolvedChunks hash network chunks
  let resolved ← resolveMissing network unresolved
  pure (totals, resolved)

end Alone

/-! ### The tasks that run at once -/

/-- Where the task of a chunk stands. -/
inductive TaskState
  /-- Before `File.Exists` of `ReadAsync`. -/
  | waiting
  /-- Before `File.ReadAllBytesAsync`. -/
  | opened
  /-- The content has the hash. -/
  | found
  /-- The content has another hash. -/
  | corrupt
  /-- The file with another hash is deleted, its entry is not. -/
  | corruptDeleted
  /-- `ReadAsync` returned null. -/
  | missing
  /-- The attempts that are left before the next refresh, and the refreshes made. -/
  | downloading (attempts : List Text) (refreshes : ℕ)
  /-- The file is in place, its entry is not. -/
  | moved (length received : ℕ)
  /-- Before the next choice of `EvictIfNeededAsync`. -/
  | evicting (received : ℕ)
  /-- Before `File.Delete` of the victim. -/
  | selected (victim : Text) (received : ℕ)
  /-- Before the entry of the victim is removed. -/
  | victimDeleted (victim : Text) (received : ℕ)
  | done
  | failed (exception : LauncherException)
  deriving DecidableEq, Repr

/-- The counters that end up in the `DownloadSummary`. -/
structure DownloadSummary where
  preparedBytes : ℕ
  networkBytes : ℕ
  reusedBytes : ℕ
  chunksDownloaded : ℕ
  chunksReused : ℕ
  deriving DecidableEq, Repr

/-- The cache and the tasks, by encoded hash. -/
structure Transfer where
  cache : ChunkCache
  calls : ℕ
  prepared : List Text
  resolved : List ResolvedChunk
  tasks : Text → TaskState
  summary : DownloadSummary

/-- A step of one task, with what the network gives it there: the content of the partial file after
an attempt and the bytes received, and the locations that a refresh of the resolver returns. -/
structure Action where
  chunk : ChunkRef
  delivered : Except LauncherException (Bytes × ℕ)
  refreshed : Except LauncherException (List Text)

/-- The exceptions after which the next location of a chunk is tried, while the download is not
cancelled. -/
def LauncherException.endsAttempt : LauncherException → Bool
  | .httpRequest _ | .io _ | .invalidData _ | .operationCanceled => true
  | _ => false

/-- The four rounds over the locations. -/
def attemptsOf (locations : List Text) : List Text := (List.replicate 4 locations).flatten

namespace Transfer

def setTask (system : Transfer) (chunk : ChunkRef) (state : TaskState) : Transfer :=
  { system with tasks := Function.update system.tasks chunk.encodedHash state }

/-- A task ends with a chunk that the cache had. -/
def reuse (system : Transfer) (chunk : ChunkRef) : Transfer :=
  let summary := { system.summary with
    preparedBytes := system.summary.preparedBytes + chunk.encodedSize }
  { system with
    summary := if chunk.encodedHash ∈ system.prepared
      then { summary with chunksDownloaded := summary.chunksDownloaded + 1 }
      else { summary with
        reusedBytes := summary.reusedBytes + chunk.encodedSize
        chunksReused := summary.chunksReused + 1 } }

/-- A task ends with a chunk that it downloaded. -/
def count (system : Transfer) (chunk : ChunkRef) (received : ℕ) : Transfer :=
  { system with
    summary := { system.summary with
      preparedBytes := system.summary.preparedBytes + chunk.encodedSize
      networkBytes := system.summary.networkBytes + received
      chunksDownloaded := system.summary.chunksDownloaded + 1 } }

/-- What an attempt makes of the content of the partial file: the checks of `DownloadOneUrlAsync`
and `PutFileAsync`, and the exception that remains. -/
def checkDelivered (hash : Bytes → Digest) (chunk : ChunkRef)
    (delivered : Except LauncherException (Bytes × ℕ)) :
    Except LauncherException (Bytes × ℕ) := do
  let (content, received) ← delivered
  throwIf (content.length ≠ chunk.encodedSize) (.invalidData
    ("Encoded chunk size verification failed for " ++ String.ofList chunk.encodedHash ++ "."))
  throwIf ((hash content).hex ≠ chunk.encodedHash) (.invalidData "Encoded chunk hash mismatch.")
  pure (content, received)

/-- The exception when the resolver has no location of a chunk. -/
def noLocations (chunk : ChunkRef) : LauncherException :=
  .launcherOperation ("No storage locations for chunk " ++ String.ofList chunk.encodedHash ++ ".")

def attemptsFailed (chunk : ChunkRef) : LauncherException :=
  .launcherOperation ("Chunk download failed after retries: " ++ String.ofList chunk.encodedHash)

/-- The state after a step, with another number for the next answer from outside. -/
def tick (system : Transfer) : Transfer := { system with calls := system.calls + 1 }

/-- One step of the task of a chunk, by the state of the task. -/
def advanceFrom (hash : Bytes → Digest) (clock : ℕ → ℤ) (system : Transfer) (action : Action) :
    TaskState → Transfer
  | .waiting =>
    match validateHash action.chunk.encodedHash with
    | .error exception => system.tick.setTask action.chunk (.failed exception)
    | .ok () => system.tick.setTask action.chunk
        (if (system.cache.file action.chunk.encodedHash).isSome then .opened else .missing)
  | .opened =>
    match system.cache.file action.chunk.encodedHash with
    | none => system.tick.setTask action.chunk (.failed (.io "Could not find file."))
    | some bytes => system.tick.setTask action.chunk
        (if (hash bytes).hex = action.chunk.encodedHash then .found else .corrupt)
  | .found =>
    { (system.tick.reuse action.chunk).setTask action.chunk .done with
      cache := system.cache.touch action.chunk.encodedHash (clock system.calls) }
  | .corrupt =>
    { system.tick.setTask action.chunk .corruptDeleted with
      cache := system.cache.deleteFile action.chunk.encodedHash }
  | .corruptDeleted =>
    { system.tick.setTask action.chunk .missing with
      cache := system.cache.removeEntry action.chunk.encodedHash }
  | .missing =>
    match system.resolved.find? fun item ↦ item.encodedHash = action.chunk.encodedHash with
    | none => system.tick.setTask action.chunk (.failed (noLocations action.chunk))
    | some location => system.tick.setTask action.chunk
        (if location.urls = [] then .failed (noLocations action.chunk)
        else .downloading (attemptsOf location.urls) 0)
  | .downloading [] refreshes =>
    match action.refreshed with
    | .error exception => system.tick.setTask action.chunk (.failed exception)
    | .ok locations => system.tick.setTask action.chunk
        (if locations = [] ∨ 1 ≤ refreshes then .failed (attemptsFailed action.chunk)
        else .downloading (attemptsOf locations) (refreshes + 1))
  | .downloading (_ :: attempts) refreshes =>
    match checkDelivered hash action.chunk action.delivered with
    | .error exception => system.tick.setTask action.chunk
        (if exception.endsAttempt then .downloading attempts refreshes else .failed exception)
    | .ok (content, received) =>
      { system.tick.setTask action.chunk (.moved content.length received) with
        cache := system.cache.moveFile action.chunk.encodedHash content }
  | .moved length received =>
    { system.tick.setTask action.chunk (.evicting received) with
      cache := system.cache.indexEntry action.chunk.encodedHash length (clock system.calls) }
  | .evicting received =>
    match system.cache.candidate with
    | none => (system.tick.count action.chunk received).setTask action.chunk .done
    | some victim => system.tick.setTask action.chunk (.selected victim received)
  | .selected victim received =>
    { system.tick.setTask action.chunk (.victimDeleted victim received) with
      cache := system.cache.deleteFile victim }
  | .victimDeleted victim received =>
    { system.tick.setTask action.chunk (.evicting received) with
      cache := system.cache.removeEntry victim }
  | .done => system
  | .failed _ => system

/-- One step of the task of a chunk. -/
def advance (hash : Bytes → Digest) (clock : ℕ → ℤ) (system : Transfer) (action : Action) :
    Transfer :=
  advanceFrom hash clock system action (system.tasks action.chunk.encodedHash)

def start (session : Session) (totals : PackTotals) (resolved : List ResolvedChunk) :
    Transfer where
  cache := session.cache
  calls := session.calls
  prepared := session.packPreparedChunks
  resolved := resolved
  tasks := fun _ ↦ .waiting
  summary :=
    { preparedBytes := 0
      networkBytes := totals.networkBytes
      reusedBytes := 0
      chunksDownloaded := 0
      chunksReused := 0 }

/-- The tasks of `DownloadAsync` over a cache, or the exception before them. -/
def beginTasks (hash : Bytes → Digest) (network : Network) (unicode : Unicode)
    (packsEnabled : Bool) (manifest : Manifest) (cache : ChunkCache) (packCache : PackCache) :
    Except LauncherException Transfer := do
  let outcome := prepareAsync hash network unicode packsEnabled manifest
    { cache, packCache, packPreparedChunks := [], calls := 0 }
  let (totals, resolved) ← outcome.result
  pure (start outcome.final totals resolved)

/-- The states of the tasks of a manifest, in any order of their steps and with anything that the
network delivers. -/
def Runs (hash : Bytes → Digest) (clock : ℕ → ℤ) (manifest : Manifest) :
    Transfer → Transfer → Prop :=
  Reaches (advance hash clock) fun _ action ↦ action.chunk ∈ uniqueChunks manifest

/-- `Task.WhenAll` returns when every task has ended without an exception. -/
def Finished (chunks : List ChunkRef) (system : Transfer) : Prop :=
  ∀ chunk ∈ chunks, system.tasks chunk.encodedHash = .done

instance (chunks : List ChunkRef) (system : Transfer) : Decidable (system.Finished chunks) :=
  inferInstanceAs (Decidable (∀ chunk ∈ chunks, system.tasks chunk.encodedHash = .done))

end Transfer

end GameLauncher.Downloads
