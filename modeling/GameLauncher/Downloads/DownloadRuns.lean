import GameLauncher.Downloads.Preparation

/-!
# What a download leaves in the cache

A download that begins with a fitting cache, is served in any way at all and returns has left every
chunk of the manifest readable (`readable_of_finished`). Without the condition it may not have:
`finished_without_chunk` is a download of two chunks into a cache that has room for one of them,
where the put of the second chunk evicts the first.
-/

set_option autoImplicit false

namespace GameLauncher.Downloads

open Foundation Fallible Packs Manifests ManifestValidator
open Process

/-! ### The first part and the tasks -/

section Download

variable {hash : Bytes → Digest} {network : Network} {unicode : Unicode} {manifest : Manifest}
  {start : ChunkCache} {packCache : PackCache} {began : ℤ} {packsEnabled : Bool}
  {raises : LauncherException → Prop}

/-- What the logical resolver answered covers the chunks that are not held. -/
def Resolved (network : Network) (unresolved : List Text) (resolved : List ResolvedChunk) : Prop :=
  unresolved = [] ∨ ∃ call,
    LauncherApiClient.resolveChunksAsync network call unresolved = .ok resolved

/-- The first part leaves every chunk held or absent, and asks for those that are absent. It ends
with one of the exceptions that the pack path lets through, that of the sum of the sizes or one of
the logical resolver. -/
theorem ensures_prepareAsync (hvalidate : validate unicode manifest = .ok ())
    (hclock : ∀ call, began ≤ network.clock call)
    (hfitting : Fitting hash start (uniqueChunks manifest) began)
    (htolerated : Tolerated hash network (uniqueChunks manifest) raises) :
    Ensures (At (Reading hash start (uniqueChunks manifest) began (uniqueChunks manifest)))
      (prepareAsync hash network unicode packsEnabled manifest) (fun _ ↦ True)
      (fun result session ↦ At (Reading hash start (uniqueChunks manifest) began []) session ∧
        ∃ unresolved, Covering hash start (uniqueChunks manifest) began [] unresolved session.cache ∧
          Resolved network unresolved result.2)
      fun exception _ ↦ (packsEnabled = true ∧ raises exception ∧ exception.endsPacks = false) ∨
        sumEncodedSizes (uniqueChunks manifest) = .error exception ∨
        ∃ call unresolved,
          LauncherApiClient.resolveChunksAsync network call unresolved = .error exception := by
  have hnodup := nodup_uniqueChunks manifest
  have hvalid := isHash_of_validate hvalidate
  unfold prepareAsync
  rw [hvalidate]
  refine ensures_bind
    (fun _ ↦ At (Reading hash start (uniqueChunks manifest) began (uniqueChunks manifest)))
    (ensures_query (fun _ _ h _ ↦ h) fun _ _ _ h ↦ nomatch h) fun _ ↦ ?_
  refine ensures_bind
    (fun _ ↦ At (Reading hash start (uniqueChunks manifest) began (uniqueChunks manifest)))
    (ensures_query (fun _ _ h _ ↦ h) fun _ _ _ h ↦ .inr (.inl h)) fun _ ↦ ?_
  refine ensures_bind
    (fun _ ↦ At (Reading hash start (uniqueChunks manifest) began (uniqueChunks manifest)))
    ?_ fun totals ↦ ensures_bind _
      (Ensures.mono (ensures_unresolvedChunks hfitting hnodup hvalid hclock) (fun _ h ↦ h)
        (fun _ h ↦ h) (fun _ _ h ↦ h) fun _ _ h ↦ h.elim) fun unresolved ↦
      ensures_bind (fun resolved session ↦
        At (Reading hash start (uniqueChunks manifest) began []) session ∧
          Covering hash start (uniqueChunks manifest) began [] unresolved session.cache ∧
          Resolved network unresolved resolved) ?_ fun resolved ↦
        ensures_pure fun session h ↦ ⟨h.1, unresolved, h.2⟩
  · unfold downloadFromPacks
    cases packsEnabled with
    | true =>
      exact Ensures.mono (ensures_accelerate hfitting hnodup hvalid hclock htolerated)
        (fun _ h ↦ h) (fun _ h ↦ h) (fun _ _ h ↦ h) fun _ _ h ↦ .inl ⟨rfl, h⟩
    | false => exact ensures_pure fun _ h ↦ h
  · unfold resolveMissing
    by_cases hnone : unresolved = []
    · rw [if_pos hnone]
      exact ensures_pure fun session h ↦ ⟨h.1, h.2, .inl hnone⟩
    · rw [if_neg hnone]
      exact ensures_step (fun _ _ ↦ trivial)
        (fun session resolved h hok ↦ ⟨h.1, h.2, .inr ⟨session.calls, hok⟩⟩)
        fun session exception _ herror ↦ .inr (.inr ⟨session.calls, unresolved, herror⟩)

theorem tolerated_true {chunks : List ChunkRef} :
    Tolerated hash network chunks fun _ ↦ True := by
  constructor <;> intros <;> trivial

theorem reading_start {chunks : List ChunkRef} :
    Reading hash start chunks began chunks start [] where
  stock := stock_start
  chunks := fun _ hchunk ↦ .inr ⟨hchunk, .refl _ _, List.not_mem_nil⟩

theorem safe_start {session : Session} {totals : PackTotals} {resolved : List ResolvedChunk}
    (h : At (Reading hash start (uniqueChunks manifest) began []) session) :
    Safe hash start (uniqueChunks manifest) began (Transfer.start session totals resolved) where
  stock := h.stock.mono (fun _ h ↦ h.elim) fun h ↦ h.elim
  tasks := fun chunk hchunk ↦ (h.settled chunk hchunk).imp_right And.left

theorem Safe.of_runs (hvalidate : validate unicode manifest = .ok ())
    (hclock : ∀ call, began ≤ network.clock call)
    (hfitting : Fitting hash start (uniqueChunks manifest) began) {system reached : Transfer}
    (hbegin : Transfer.beginTasks hash network unicode packsEnabled manifest start packCache =
      .ok system) (hruns : Transfer.Runs hash network.clock manifest system reached) :
    Safe hash start (uniqueChunks manifest) began reached := by
  refine hruns.invariant (Safe hash start (uniqueChunks manifest) began) ?_
    fun state action hsafe hchunk ↦ hsafe.advance hfitting (nodup_uniqueChunks manifest) hclock hchunk
  unfold Transfer.beginTasks at hbegin
  simp only [bind_eq_ok, pure_eq_ok, Prod.exists] at hbegin
  obtain ⟨totals, resolved, hresult, rfl⟩ := hbegin
  obtain ⟨-, hok, -⟩ := ensures_prepareAsync hvalidate hclock hfitting tolerated_true
    { cache := start, packCache, packPreparedChunks := [], calls := 0 } reading_start
  exact safe_start (hok _ hresult).1

/-- A download that returns has left every chunk of the manifest readable with bytes of its hash.

Assumes: the manifest is valid; the clock does not go back before the beginning of the download; the
cache is fitting at the beginning. -/
theorem readable_of_finished (hash : Bytes → Digest) (network : Network) (unicode : Unicode)
    (packsEnabled : Bool) (manifest : Manifest) (start : ChunkCache) (packCache : PackCache)
    (began : ℤ) (hvalidate : validate unicode manifest = .ok ())
    (hclock : ∀ call, began ≤ network.clock call)
    (hfitting : Fitting hash start (uniqueChunks manifest) began) {system reached : Transfer}
    (hbegin : Transfer.beginTasks hash network unicode packsEnabled manifest start packCache =
      .ok system) (hruns : Transfer.Runs hash network.clock manifest system reached)
    (hfinished : reached.Finished (uniqueChunks manifest)) :
    ∀ file ∈ manifest.files, ∀ chunk ∈ file.chunks, ∀ now, ∃ bytes,
      (reached.cache.readAsync hash now chunk.encodedHash).1 = .ok (some bytes) ∧
        (hash bytes).hex = chunk.encodedHash := by
  intro file hfile chunk hchunk now
  obtain ⟨item, hitem, hhash⟩ : ∃ item ∈ uniqueChunks manifest,
      item.encodedHash = chunk.encodedHash :=
    exists_mem_distinctBy (List.mem_flatMap.mpr ⟨file, hfile, hchunk⟩)
  have hsafe := Safe.of_runs hvalidate hclock hfitting hbegin hruns
  have hheld : Held hash start began reached.cache item := by
    have htask := hsafe.tasks item hitem
    rw [hfinished item hitem] at htask
    exact htask
  obtain ⟨bytes, hfileBytes, hbytes⟩ := hheld.exists_file
  refine ⟨bytes, ?_, hhash ▸ hbytes⟩
  rw [← hhash, readAsync_of_some (isHash_of_validate hvalidate item hitem) hfileBytes,
    if_pos hbytes]

end Download

/-! ### A cache with room for one chunk -/

/-- The digest of the frame of the chunk with the one byte `a`. -/
def firstBytes : Bytes :=
  [6, 73, 133, 244, 173, 142, 191, 38, 83, 137, 107, 160, 227, 126, 220, 117, 106, 111,
    198, 165, 127, 244, 36, 50, 47, 154, 62, 69, 53, 207, 202, 97]

theorem length_firstBytes : firstBytes.length = 32 := rfl

def firstDigest : Digest := ⟨firstBytes, length_firstBytes⟩

/-- The digest of the frame of the chunk with the one byte `b`. -/
def secondDigest : Digest where
  bytes := [63, 137, 143, 178, 181, 158, 255, 127, 122, 83, 84, 53, 198, 182, 96, 212, 131, 176,
    213, 203, 193, 145, 244, 22, 177, 164, 143, 229, 76, 214, 27, 64]
  length_eq := rfl

def frameOf (byte : UInt8) : Bytes := [40, 181, 47, 253, 32, 1, 9, 0, 0, byte]

/-- A hash function with the BLAKE3 digests of the two frames. -/
def frameHash (bytes : Bytes) : Digest :=
  if bytes = frameOf 97 then firstDigest
  else if bytes = frameOf 98 then secondDigest
  else emptyDigest

def firstChunk : ChunkRef where
  rawHash := "17762fddd969a453925d65717ac3eea21320b66b54342fde15128d6caf21215f"
  rawSize := 1
  encodedHash := firstDigest.hex
  encodedSize := 10
  objectKey := chunkObjectKey firstDigest.hex

def secondChunk : ChunkRef where
  rawHash := "10e5cf3d3c8a4f9f3468c8cc58eea84892a22fdadbc1acb22410190044c1d553"
  rawSize := 1
  encodedHash := secondDigest.hex
  encodedSize := 10
  objectKey := chunkObjectKey secondDigest.hex

def twoChunkManifest : Manifest :=
  { ManifestValidator.emptyFilesManifest [] "game.exe" with
    files := [
      { path := "game.exe"
        size := 2
        blake3 := "2dc99999a6aaef3f20349d2ed4057a2b54419545dabb809e6381de1bad8337e2"
        chunks := [firstChunk, secondChunk] }] }

/-- A resolver that has one location of each chunk, and no packs. -/
def oneSource : Network where
  clock := fun call ↦ call
  packAnswer := fun _ _ ↦ .ok []
  chunkAnswer := fun _ hashes ↦ .ok (hashes.map fun encodedHash ↦
    { encodedHash, urls := ["https://cdn/" ++ encodedHash] })
  packContent := fun _ _ _ ↦ .error (.httpRequest "404")
  rank := fun _ sources ↦ sources
  isSparse := fun _ _ ↦ false
  isHttpUrl := fun _ ↦ true
  lastAccessTime := fun _ ↦ 0

def emptyCache (maxBytes : ℕ) : ChunkCache where
  maxBytes := maxBytes
  files := .empty
  entries := .empty
  pinned := []
  currentBytes := 0
  accounted := ChunkCache.accounted_empty

/-- The steps of a task that downloads its chunk at the first attempt, and evicts one entry or
none. -/
def fetch (chunk : ChunkRef) (content : Bytes) (evicted : ℕ) : List Action :=
  List.replicate (5 + 3 * evicted)
    { chunk, delivered := .ok (content, content.length), refreshed := .ok [] }

/-- The tasks at their start, of a download into an empty cache. -/
def twoTasks (maxBytes : ℕ) : Transfer :=
  match Transfer.beginTasks frameHash oneSource ManifestValidator.asciiUnicode false
    twoChunkManifest (emptyCache maxBytes) (emptyCache maxBytes) with
  | .ok system => system
  | .error _ => Transfer.start ⟨emptyCache 0, emptyCache 0, [], 0⟩ ⟨[], 0, 0⟩ []

theorem beginTasks_twoTasks {maxBytes : ℕ}
    (h : (Transfer.beginTasks frameHash oneSource asciiUnicode false
      twoChunkManifest (emptyCache maxBytes) (emptyCache maxBytes)).toOption.isSome = true) :
    Transfer.beginTasks frameHash oneSource asciiUnicode false twoChunkManifest
      (emptyCache maxBytes) (emptyCache maxBytes) = .ok (twoTasks maxBytes) := by
  unfold twoTasks
  cases hbegin : Transfer.beginTasks frameHash oneSource asciiUnicode false
    twoChunkManifest (emptyCache maxBytes) (emptyCache maxBytes) with
  | ok system => rfl
  | error failure =>
    rw [hbegin] at h
    exact absurd h Bool.false_ne_true

/-- The tasks at their end, when the first runs before the second. -/
def twoTasksDone (maxBytes evicted : ℕ) : Transfer :=
  (fetch firstChunk (frameOf 97) 0 ++ fetch secondChunk (frameOf 98) evicted).foldl
    (Transfer.advance frameHash oneSource.clock) (twoTasks maxBytes)

theorem runs_twoTasksDone (maxBytes evicted : ℕ) :
    Transfer.Runs frameHash oneSource.clock twoChunkManifest (twoTasks maxBytes)
      (twoTasksDone maxBytes evicted) := by
  refine Reaches.foldl .refl ?_
  have hfirst : firstChunk ∈ uniqueChunks twoChunkManifest := by decide
  have hsecond : secondChunk ∈ uniqueChunks twoChunkManifest := by decide
  have hactions : ∀ action ∈ fetch firstChunk (frameOf 97) 0 ++
      fetch secondChunk (frameOf 98) evicted, action.chunk ∈ uniqueChunks twoChunkManifest := by
    intro action haction
    rcases List.mem_append.mp haction with h | h
    · rw [(List.mem_replicate.mp h).2]
      exact hfirst
    · rw [(List.mem_replicate.mp h).2]
      exact hsecond
  exact permitted_of_mem hactions _

theorem readable_of_finished_roomy :
    ∃ bytes, ((twoTasksDone 20 0).cache.readAsync frameHash 0 firstChunk.encodedHash).1 =
        .ok (some bytes) ∧ (frameHash bytes).hex = firstChunk.encodedHash := by
  have hlisted : ∃ file ∈ twoChunkManifest.files, firstChunk ∈ file.chunks := by decide
  obtain ⟨file, hfile, hchunk⟩ := hlisted
  exact readable_of_finished frameHash oneSource asciiUnicode false
    twoChunkManifest (emptyCache 20) (emptyCache 20) 0 (by decide)
    (fun call ↦ Int.natCast_nonneg call) ⟨fun _ _ _ ↦ rfl, .inr (.inr (by decide))⟩
    (beginTasks_twoTasks (by decide)) (runs_twoTasksDone 20 0) (by decide) file
    hfile firstChunk hchunk 0

/-- A download of two chunks into a cache that has room for one of them returns, and the first chunk
is not in the cache. -/
theorem finished_without_chunk :
    validate asciiUnicode twoChunkManifest = .ok () ∧
      Transfer.beginTasks frameHash oneSource asciiUnicode false
        twoChunkManifest (emptyCache 15) (emptyCache 15) = .ok (twoTasks 15) ∧
      Transfer.Runs frameHash oneSource.clock twoChunkManifest (twoTasks 15)
        (twoTasksDone 15 1) ∧
      (twoTasksDone 15 1).Finished (uniqueChunks twoChunkManifest) ∧
      (∃ file ∈ twoChunkManifest.files, firstChunk ∈ file.chunks) ∧
      ((twoTasksDone 15 1).cache.readAsync frameHash 0 firstChunk.encodedHash).1 = .ok none :=
  ⟨by decide, beginTasks_twoTasks (by decide), runs_twoTasksDone 15 1,
    by decide, by decide, by decide⟩

end GameLauncher.Downloads
