import GameLauncher.Downloads.DownloadManager

/-!
# Transfers that are resumed

`DownloadChunkWithRetryAsync` and `DownloadPackWithRetryAsync` with everything below them: the
partial file of a hash, the requests with a range, the pages of a provider that redirect, the bytes
of a body as they come, the checks and the put into the cache.

The server is the parameter `http`: it answers every request as it likes, with any status, range,
length and body, and the body may end with an exception after any of its pieces. The disk may fail
at any call, and a write that fails may have reached the disk in part.

The waits are points at which a transfer may be cancelled, and the temporary file of a put is left
out: a move that fails leaves the file where it was.
-/

set_option autoImplicit false

namespace GameLauncher.Downloads

open Foundation Fallible Packs Manifests

/-! ### The outside -/

/-- The parts of a response that are read. An exception may follow the last piece of the body. -/
structure HttpResponse where
  statusCode : ℕ
  mediaType : Option Text
  contentRangeFrom : Option ℕ
  contentLength : Option ℤ
  body : List Bytes
  failure : Option LauncherException
  deriving DecidableEq, Repr

/-- The server, the disk and the libraries. The number counts the calls of a transfer. -/
structure Http where
  unicode : Unicode
  send : ℕ → Text → Option ℕ → Except LauncherException HttpResponse
  fault : ℕ → Option LauncherException
  torn : ℕ → ℕ
  cancelled : ℕ → Bool
  getString : Bytes → Text
  nextUri : Text → Text → Option Text
  precedes : ℕ → ResolvedPackSource → ResolvedPackSource → Bool
  failAfterBytes : Option ℕ

/-- What a transfer changes: the cache, the file at `GetPartialPath`, the trigger of the failure
injection, and the records of the transfer. The newest attempt and request stand first. -/
structure ResumeState where
  cache : ChunkCache
  partialFile : Option Bytes
  triggered : Bool
  calls : ℕ
  offered : List ℕ
  attempts : List (List Text)

namespace ResumeState

section

variable (state : ResumeState)

/-- Another number for the next call. -/
def tick : ResumeState := { state with calls := state.calls + 1 }

/-- The length of the partial file, 0 when there is none. -/
def partialLength : ℕ := (state.partialFile.getD []).length

/-- The partial file with more bytes at its end. -/
def appended (bytes : Bytes) : ResumeState :=
  { state with partialFile := some (state.partialFile.getD [] ++ bytes) }

def attempted : ResumeState :=
  { state with attempts := [] :: state.attempts }

def requested (url : Text) : ResumeState :=
  { state with attempts := state.attempts.modifyHead (url :: ·) }

/-- More locations from the API. -/
def offers (count : ℕ) : ResumeState :=
  { state with offered := count :: state.offered }

end

end ResumeState

abbrev Resume (α : Type) := Process ResumeState LauncherException α

section Transfers

variable (hash : Bytes → Digest) (network : Network) (http : Http)

/-! ### The disk -/

/-- A call of the file system. -/
def disk {α : Type} (action : ResumeState → Except LauncherException α × ResumeState) : Resume α :=
  Process.step fun state ↦
    match http.fault state.calls with
    | some exception => (.error exception, state.tick)
    | none => action state.tick

/-- A wait, or a call of the file system with nothing to show. -/
def pass : Resume Unit := disk http fun state ↦ (.ok (), state)

/-- A value or an exception that depends on nothing. -/
def decided {α : Type} (outcome : Except LauncherException α) : Resume α :=
  Process.query fun _ ↦ outcome

/-- `TryDeletePartial`, and `DeletePartial` of the pack cache. -/
def deletePartial : Resume Unit :=
  Process.tryCatch (disk http fun state ↦ (.ok (), { state with partialFile := none }))
    fun
    | .io _ => pure ()
    | failure => Process.fail failure

/-- `File.Exists` and the length of the file. -/
def measurePartial : Resume ℕ := disk http fun state ↦ (.ok state.partialLength, state)

/-- `File.ReadAllBytesAsync`, or the reads of `ComputeFileHashAsync`. -/
def readPartial (missing : String) : Resume Bytes :=
  disk http fun state ↦
    match state.partialFile with
    | none => (.error (.io missing), state)
    | some content => (.ok content, state)

/-- The `FileStream`, with `FileMode.Append` or `FileMode.Create`. -/
def openPartial (append : Bool) : Resume Unit :=
  disk http fun state ↦
    (.ok (), { state with
      partialFile := some (if append then state.partialFile.getD [] else []) })

/-- `output.WriteAsync`. -/
def writePartial (bytes : Bytes) : Resume Unit :=
  Process.step fun state ↦
    match http.fault state.calls with
    | some exception =>
      (.error exception, state.tick.appended (bytes.take (http.torn state.calls)))
    | none => (.ok (), state.tick.appended bytes)

/-! ### The cache -/

/-- The loop of `EvictIfNeededAsync`, for at most the given number of rounds. -/
def evictRounds : ℕ → Resume Unit
  | 0 => pure ()
  | rounds + 1 => do
    match ← Process.query fun state ↦ .ok state.cache.candidate with
    | none => pure ()
    | some victim =>
      disk http fun state ↦ (.ok (), { state with cache := state.cache.deleteFile victim })
      Process.step fun state ↦ (.ok (), { state with cache := state.cache.removeEntry victim })
      evictRounds rounds

/-- The new index entry and the eviction at the end of a put. -/
def indexAndEvict (encodedHash : Text) (size : ℕ) : Resume Unit := do
  Process.step fun state ↦ (.ok (), { state.tick with
    cache := state.cache.indexEntry encodedHash size (network.clock state.calls) })
  let rounds ← Process.query fun state ↦ .ok state.cache.entries.rows.length
  evictRounds http rounds

/-- `ChunkCache.PutFileAsync` of the partial file. -/
def putFileAsync (encodedHash : Text) : Resume Unit := do
  let content ← readPartial http "Chunk source file was not found."
  decided (throwIf ((hash content).hex ≠ encodedHash)
    (.invalidData "Encoded chunk hash mismatch."))
  pass http
  disk http fun state ↦ (.ok (), { state with
    cache := state.cache.moveFile encodedHash content
    partialFile := none })
  indexAndEvict network http encodedHash content.length

/-- `PackCache.PutAsync`. -/
def putBytesAsync (packHash : Text) (bytes : Bytes) : Resume Unit := do
  decided (throwIf ((hash bytes).hex ≠ packHash) (.invalidData "Physical pack hash mismatch."))
  pass http
  disk http fun state ↦ (.ok (), { state with cache := state.cache.moveFile packHash bytes })
  indexAndEvict network http packHash bytes.length

/-! ### Requests -/

/-- `httpClient.SendAsync`, with a range from an offset on or without one. -/
def sendAsync (url : Text) (range : Option ℕ) : Resume HttpResponse :=
  Process.step fun state ↦ (http.send state.calls url range, state.tick.requested url)

/-- The statuses after which an attempt ends. -/
def checkStatus (subject : String) (statusCode : ℕ) : Resume Unit := do
  let returned := subject ++ " URL returned " ++ toString statusCode
  if statusCode = 416 then do
    deletePartial http
    Process.fail (.httpRequest (returned ++ " for a stale partial file."))
  else if statusCode = 404 ∨ statusCode = 410 then
    Process.fail (.httpRequest (returned ++ "."))
  else if statusCode = 429 then do
    pass http
    Process.fail (.httpRequest (subject ++ " URL rate limited."))
  else if 500 ≤ statusCode ∨ statusCode = 408 then
    Process.fail (.httpRequest (returned ++ "."))
  else
    decided (throwIf (statusCode < 200 ∨ 300 ≤ statusCode) (.httpRequest
      ("Response status code does not indicate success: " ++ toString statusCode ++ ".")))

def isHtmlResponse (response : HttpResponse) : Bool :=
  response.mediaType.any fun mediaType ↦
    http.unicode.equalsIgnoreCase mediaType "text/html" ||
      http.unicode.equalsIgnoreCase mediaType "application/xhtml+xml"

/-- `DownloadFailureInjection.TryLimitWrite`: the number of bytes that are written before the
injected failure, when it comes now. -/
def tryLimitWrite (failAfterBytes : Option ℕ) (received requested : ℕ) : Resume (Option ℕ) :=
  Process.step fun state ↦
    match failAfterBytes with
    | none => (.ok none, state)
    | some limit =>
      if max 1 limit ≤ received ∨ received + requested < max 1 limit ∨ state.triggered = true then
        (.ok none, state)
      else (.ok (some (max 1 limit - received)), { state with triggered := true })

/-- The loop over the pieces of a body: the number of bytes received. -/
def copyBody (exceeded : LauncherException) (failAfterBytes : Option ℕ) (remaining : ℤ)
    (failure : Option LauncherException) : ℕ → List Bytes → Resume ℕ
  | received, [] =>
    match failure with
    | none => pure received
    | some failure => Process.fail failure
  | received, piece :: rest => do
    decided (throwIf (remaining - received < piece.length) exceeded)
    match ← tryLimitWrite failAfterBytes received piece.length with
    | some writable =>
      writePartial http (piece.take writable)
      Process.fail (.io "Injected mid-chunk download interruption.")
    | none =>
      writePartial http piece
      copyBody exceeded failAfterBytes remaining failure (received + piece.length) rest

/-- The file is opened, the body copied and the file flushed. -/
def receiveBody (exceeded : LauncherException) (failAfterBytes : Option ℕ) (append : Bool)
    (remaining : ℤ) (response : HttpResponse) : Resume ℕ := do
  openPartial http append
  let received ← copyBody http exceeded failAfterBytes remaining response.failure 0 response.body
  pass http
  pure received

/-- The response does not announce more bytes than are missing. -/
def checkContentLength (larger : LauncherException) (remaining : ℤ) (response : HttpResponse) :
    Resume Unit :=
  decided (throwIf (response.contentLength.any (fun length ↦ remaining < length) = true) larger)

/-! ### Redirects -/

def maxRedirects : ℕ := 4

def maxRedirectBodyBytes : ℕ := 64 * 1024

/-- `redirectDepth >= maxRedirects`. -/
def tooManyRedirects : LauncherException :=
  .invalidData "The storage provider returned too many HTML download redirects."

/-- The loop of `ReadLimitedAsync`. -/
def readPieces (failure : Option LauncherException) : ℕ → List Bytes →
    Except LauncherException Bytes
  | _, [] =>
    match failure with
    | none => .ok []
    | some failure => .error failure
  | length, piece :: rest => do
    throwIf (maxRedirectBodyBytes < length + piece.length)
      (.invalidData "The storage provider returned an oversized HTML redirect page.")
    let bytes ← readPieces failure (length + piece.length) rest
    return piece ++ bytes

def readLimitedAsync (response : HttpResponse) : Except LauncherException Bytes := do
  throwIf (response.contentLength.any (fun length ↦ (maxRedirectBodyBytes : ℤ) < length) = true)
    (.invalidData "The storage provider returned an oversized HTML redirect page.")
  readPieces response.failure 0 response.body

/-- The text after the first occurrence of a marker, by `StringComparison.OrdinalIgnoreCase`. -/
def afterMarker (marker : Text) : Text → Option Text
  | [] => none
  | c :: rest =>
    if http.unicode.equalsIgnoreCase ((c :: rest).take marker.length) marker = true then
      some ((c :: rest).drop marker.length)
    else afterMarker marker rest

/-- The first character of a kind, and the text after it. -/
def afterFirst (isStop : Char → Bool) (text : Text) : Option (Char × Text) :=
  match text.dropWhile fun c ↦ !isStop c with
  | [] => none
  | c :: rest => some (c, rest)

/-- `ResolveProviderRedirectAsync`, after the check of the depth. -/
def resolveProviderRedirectAsync (response : HttpResponse) (currentUrl : Text) :
    Except LauncherException Text := do
  let bytes ← readLimitedAsync response
  let invalid : LauncherException :=
    .invalidData "The storage provider returned an invalid download redirect."
  let marked ← orThrow (afterMarker http "location.href" (http.getString bytes))
    (.invalidData "The storage provider returned an HTML page instead of file bytes.")
  let (_, assigned) ← orThrow (afterFirst (fun c ↦ c == '=') marked) invalid
  let (quote, quoted) ←
    orThrow (afterFirst (fun c ↦ c.toNat == 39 || c.toNat == 34) assigned) invalid
  throwIf (quote ∉ quoted) invalid
  orThrow (http.nextUri (trim (quoted.takeWhile fun c ↦ c ≠ quote)) currentUrl)
    (.invalidData "The storage provider returned an unsafe download redirect.")

/-! ### One attempt -/

/-- The offset at which a transfer goes on: a partial file above the expected size is deleted. -/
def resumeOffset (size : ℤ) : Resume ℕ := do
  let offset ← measurePartial http
  if size < (offset : ℤ) then do
    deletePartial http
    pure 0
  else pure offset

/-- The offset after a complete partial file was refused. -/
def offsetLeft (size : ℤ) (offset : ℕ) : ℕ := if (offset : ℤ) = size then 0 else offset

/-- `append`: the response goes on where the partial file ends. -/
def appends (offset : ℕ) (response : HttpResponse) : Bool :=
  0 < offset && response.statusCode == 206 && response.contentRangeFrom == some offset

def expectedRemaining (size : ℤ) (offset : ℕ) (response : HttpResponse) : ℤ :=
  size - (if appends offset response then offset else 0 : ℕ)

/-- A partial chunk of the expected size is put at once, or deleted when it has another hash. -/
def putCompleteChunk (chunk : ChunkRef) (offset : ℕ) : Resume Bool :=
  Process.tryCatch
    (if (offset : ℤ) = chunk.encodedSize then do
      putFileAsync hash network http chunk.encodedHash
      pure true
    else pure false)
    fun
    | .invalidData _ => do
      deletePartial http
      pure false
    | failure => Process.fail failure

def deleteUnlessAppending (offset : ℕ) (append : Bool) : Resume Unit :=
  if 0 < offset ∧ append = false then deletePartial http else pure ()

/-- The body of a response for a chunk, from the check of its range on. -/
def receiveChunk (chunk : ChunkRef) (offset : ℕ) (response : HttpResponse) : Resume ℕ := do
  let name := String.ofList chunk.encodedHash
  let append := appends offset response
  let remaining := expectedRemaining chunk.encodedSize offset response
  deleteUnlessAppending http offset append
  checkContentLength
    (.invalidData ("Chunk response is larger than expected for " ++ name ++ ".")) remaining response
  pass http
  let received ← receiveBody http
    (.invalidData ("Chunk response exceeded the expected size for " ++ name ++ "."))
    http.failAfterBytes append remaining response
  let finalLength ← measurePartial http
  decided (throwIf ((finalLength : ℤ) ≠ chunk.encodedSize)
    (.invalidData ("Encoded chunk size verification failed for " ++ name ++ ".")))
  putFileAsync hash network http chunk.encodedHash
  pure received

/-- One request of `DownloadOneUrlAsync`; `onHtml` is what it does with the page of a provider. -/
def requestChunk (chunk : ChunkRef) (url : Text) (onHtml : HttpResponse → Resume ℕ) :
    Resume ℕ := do
  decided (validateHash chunk.encodedHash)
  let offset ← resumeOffset http chunk.encodedSize
  let complete ← putCompleteChunk hash network http chunk offset
  if complete then pure 0
  else do
    let offset := offsetLeft chunk.encodedSize offset
    let response ← sendAsync http url (if 0 < offset then some offset else none)
    checkStatus http "Chunk" response.statusCode
    if isHtmlResponse http response then onHtml response
    else receiveChunk hash network http chunk offset response

/-- `DownloadOneUrlAsync`, with the redirects that are left. -/
def downloadOneUrlAsync (chunk : ChunkRef) : ℕ → Text → Resume ℕ
  | 0, url => requestChunk hash network http chunk url fun _ ↦ Process.fail tooManyRedirects
  | redirects + 1, url => requestChunk hash network http chunk url fun response ↦ do
    let redirectUrl ← decided (resolveProviderRedirectAsync http response url)
    downloadOneUrlAsync chunk redirects redirectUrl

/-- A partial pack of the expected size is put at once, or deleted when it has another hash. -/
def putCompletePack (pack : ResolvedPack) (offset : ℕ) : Resume (Option Bytes) :=
  Process.tryCatch
    (if (offset : ℤ) = pack.encodedSize then do
      let existing ← readPartial http "Could not find file."
      putBytesAsync hash network http pack.packHash existing
      deletePartial http
      pure (some existing)
    else pure none)
    fun
    | .invalidData _ => do
      deletePartial http
      pure none
    | failure => Process.fail failure

/-- The body of a response for a pack, after the check of its range. -/
def receivePack (pack : ResolvedPack) (offset : ℕ) (response : HttpResponse) :
    Resume (Bytes × ℕ) := do
  let name := String.ofList pack.packHash
  let append := appends offset response
  let remaining := expectedRemaining pack.encodedSize offset response
  pass http
  checkContentLength
    (.invalidData ("Pack response is larger than expected for " ++ name ++ ".")) remaining response
  let received ← receiveBody http
    (.invalidData ("Pack response exceeded the expected size for " ++ name ++ ".")) none append
    remaining response
  let finalLength ← measurePartial http
  decided (throwIf ((finalLength : ℤ) ≠ pack.encodedSize)
    (.invalidData ("Pack size mismatch for " ++ name ++ ": expected " ++
      toString pack.encodedSize ++ ", got " ++ toString finalLength ++ ".")))
  let bytes ← readPartial http "Could not find file."
  putBytesAsync hash network http pack.packHash bytes
  deletePartial http
  pure (bytes, received)

/-- One request of `DownloadPackFromSourceAsync`; `onHtml` is what it does with the page of a
provider. -/
def requestPack (pack : ResolvedPack) (source : ResolvedPackSource)
    (onHtml : HttpResponse → Resume (Bytes × ℕ)) : Resume (Bytes × ℕ) := do
  decided (validateHash pack.packHash)
  let offset ← resumeOffset http pack.encodedSize
  match ← putCompletePack hash network http pack offset with
  | some existing => pure (existing, 0)
  | none => do
    let offset := offsetLeft pack.encodedSize offset
    let response ← sendAsync http source.url
      (if 0 < offset ∧ source.rangeSupported = true then some offset else none)
    checkStatus http "Pack" response.statusCode
    if 0 < offset ∧ response.statusCode = 206 ∧ appends offset response = false then do
      deletePartial http
      Process.fail (.invalidData ("Pack URL returned an unexpected content range for " ++
        String.ofList pack.packHash ++ "."))
    else if isHtmlResponse http response then onHtml response
    else receivePack hash network http pack offset response

/-- `DownloadPackFromSourceAsync`, with the redirects that are left. -/
def resumePackFromSourceAsync (pack : ResolvedPack) : ℕ → ResolvedPackSource → Resume (Bytes × ℕ)
  | 0, source => requestPack hash network http pack source fun _ ↦ Process.fail tooManyRedirects
  | redirects + 1, source => requestPack hash network http pack source fun response ↦ do
    let redirectUrl ← decided (resolveProviderRedirectAsync http response source.url)
    resumePackFromSourceAsync pack redirects { source with url := redirectUrl }

/-! ### Several attempts -/

def beginAttempt : Resume Unit := Process.step fun state ↦ (.ok (), state.attempted)

/-- The `foreach` over the locations of a chunk. -/
def attemptUrls (chunk : ChunkRef) : List Text → Resume (Option ℕ)
  | [] => pure none
  | url :: rest =>
    Process.tryCatch
      (do
        beginAttempt
        let received ← downloadOneUrlAsync hash network http chunk maxRedirects url
        pure (some received))
      fun
      | .httpRequest _ | .io _ => attemptUrls chunk rest
      | .invalidData _ => do
        deletePartial http
        attemptUrls chunk rest
      | .operationCanceled => do
        let cancelled ← Process.query fun state ↦ .ok (http.cancelled state.calls)
        if cancelled then Process.fail .operationCanceled else attemptUrls chunk rest
      | failure => Process.fail failure

/-- The loop over `attempt`, with the rounds that are left. -/
def attemptRounds (chunk : ChunkRef) (locations : List Text) : ℕ → Resume (Option ℕ)
  | 0 => pure none
  | rounds + 1 => do
    match ← attemptUrls hash network http chunk locations with
    | some received => pure (some received)
    | none =>
      if 0 < rounds then pass http
      attemptRounds chunk locations rounds

def refreshUrls (chunk : ChunkRef) : Resume (List Text) :=
  Process.step fun state ↦
    match LauncherApiClient.resolveChunksAsync network state.calls [chunk.encodedHash] with
    | .error exception => (.error exception, state.tick)
    | .ok resolved =>
      let urls := ((resolved.find? fun item ↦ item.encodedHash = chunk.encodedHash).map
        ResolvedChunk.urls).getD []
      (.ok urls, state.tick.offers urls.length)

/-- The loop over `refreshAttempt`, with the rounds that are left. -/
def refreshRounds (chunk : ChunkRef) : ℕ → List Text → Resume (Option ℕ)
  | 0, _ => pure none
  | rounds + 1, locations => do
    match ← attemptRounds hash network http chunk locations 4 with
    | some received => pure (some received)
    | none =>
      let locations ← refreshUrls network chunk
      if locations = [] then pure none else refreshRounds chunk rounds locations

def downloadChunkWithRetryAsync (chunk : ChunkRef) (urls : List Text) : Resume ℕ := do
  match ← refreshRounds hash network http chunk 2 urls with
  | some received => pure received
  | none => Process.fail (Transfer.attemptsFailed chunk)

/-- `HotSourceScheduler.Rank`: a sort, by an order that changes with the reports. -/
def rankSources (sources : List ResolvedPackSource) : Resume (List ResolvedPackSource) :=
  Process.step fun state ↦
    (.ok (sources.insertionSort fun first second ↦
      http.precedes state.calls first second = true), state.tick)

/-- The `foreach` over the ranked sources of a pack. -/
def attemptSources (pack : ResolvedPack) : List ResolvedPackSource → Resume (Option (Bytes × ℕ))
  | [] => pure none
  | source :: rest =>
    Process.tryCatch
      (do
        beginAttempt
        let result ← resumePackFromSourceAsync hash network http pack maxRedirects source
        pure (some result))
      fun
      | .httpRequest _ | .io _ => attemptSources pack rest
      | .invalidData _ => do
        deletePartial http
        attemptSources pack rest
      | failure => Process.fail failure

/-- The pack of the same hash among those that the API returns; only an `HttpRequestException` is
caught. -/
def refreshedPack (call : ℕ) (pack : ResolvedPack) :
    Except LauncherException (Option ResolvedPack) :=
  match LauncherApiClient.resolvePacksAsync network call pack.chunkHashes with
  | .error (.httpRequest _) => .ok none
  | .error exception => .error exception
  | .ok packs => .ok (packs.find? fun candidate ↦ candidate.packHash = pack.packHash)

/-- `refreshPack`. -/
def refreshSources (pack : ResolvedPack) : Resume (Option ResolvedPack) :=
  Process.step fun state ↦
    match refreshedPack network state.calls pack with
    | .error exception => (.error exception, state.tick)
    | .ok none => (.ok none, state.tick)
    | .ok (some refreshed) => (.ok (some refreshed), state.tick.offers refreshed.sources.length)

def sourcesFailed (pack : ResolvedPack) : LauncherException :=
  .httpRequest ("Physical pack download failed after source failover: " ++
    String.ofList pack.packHash)

/-- `DownloadPackWithRetryAsync`. -/
def resumePackWithRetryAsync (pack : ResolvedPack) : Resume (Bytes × ℕ) := do
  let sources ← rankSources http pack.sources
  match ← attemptSources hash network http pack sources with
  | some result => pure result
  | none =>
    match ← refreshSources network pack with
    | none => Process.fail (sourcesFailed pack)
    | some refreshed =>
      let sources ← rankSources http refreshed.sources
      match ← attemptSources hash network http refreshed sources with
      | some result => pure result
      | none => Process.fail (sourcesFailed pack)

end Transfers

end GameLauncher.Downloads
