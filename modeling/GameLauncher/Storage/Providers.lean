import GameLauncher.ColdStorage.MegaPool

/-!
# Uploads of packs to the storage providers

`put_pack` and `put_pack_file` of every `StorageProvider`: the local directory, an S3 bucket, the
Telegram bot, FileMirage, Buzzheavier and the MEGA pool. The file that `put_pack_file` gets is its
content. `ProviderWorld` is what the providers read and change. Every call of the file system or of
a server is one step, and `Surroundings` decides whether it fails and what a server answers; a
bucket that answers tells the truth about its objects. A call that fails changes nothing but
temporary files.
-/

set_option autoImplicit false

namespace GameLauncher.Storage

open Foundation Fallible
open ColdStorage (StorageError MegaColdStoragePool ColdWorld validateHash verifyPackBytes)

/-! ### The world of the providers -/

/-- An object of a bucket, with its `blake3` metadata. -/
structure S3Object where
  bytes : Bytes
  blake3 : Option Text
  deriving DecidableEq, Repr

structure RemoteReference where
  url : Text
  remoteId : Option Text
  deriving DecidableEq, Repr

/-- `TelegramObjectRef`, without the time. -/
structure TelegramObjectRef where
  chatId : ℤ
  messageId : ℤ
  fileId : Text
  fileUniqueId : Text
  size : ℕ
  deriving DecidableEq, Repr

structure TelegramDocument where
  fileId : Text
  fileUniqueId : Text
  deriving DecidableEq, Repr

structure TelegramMessage where
  messageId : ℤ
  document : Option TelegramDocument
  deriving DecidableEq, Repr

/-- An HTTP answer, with what the providers find in it. -/
structure HttpAnswer where
  status : ℕ
  /-- Is the body the JSON that the caller expects? -/
  json : Bool
  /-- Is the body a page? -/
  html : Bool
  server : Option Text
  url : Option Text
  directUrl : Option Text
  remoteId : Option Text
  ok : Bool
  message : Option TelegramMessage
  deriving DecidableEq, Repr

/-- Does the answer have a status of success? -/
def HttpAnswer.isSuccess (answer : HttpAnswer) : Bool := 200 ≤ answer.status && answer.status < 300

/-- What each call meets: its failure or the answer of a server. -/
structure Surroundings where
  failure : ℕ → Option StorageError
  answer : ℕ → HttpAnswer
  cold : ColdStorage.Environment

/-- The state of the providers. `telegram` is empty until the state file is read, and `sent` are the
bodies of the uploads so far. -/
structure ProviderWorld where
  files : Text → Option Bytes
  bucket : Text → Option S3Object
  telegram : Option (Text → Option TelegramObjectRef)
  telegramFile : Text → Option TelegramObjectRef
  nextChat : ℕ
  references : Text → Option RemoteReference
  referencesFile : Text → Option RemoteReference
  sent : List Bytes
  cold : ColdWorld
  /-- The number of calls so far. -/
  clock : ℕ

abbrev ProviderTask (α : Type) := Process ProviderWorld StorageError α

section Calls

variable (env : Surroundings)

/-- A call of the file system or of a server. -/
def call {α : Type}
    (done : HttpAnswer → ProviderWorld → Except StorageError α × ProviderWorld) :
    ProviderTask α :=
  Process.step fun world ↦
    match env.failure world.clock with
    | some failure => (.error failure, { world with clock := world.clock + 1 })
    | none => done (env.answer world.clock) { world with clock := world.clock + 1 }

/-- A call that changes nothing. -/
def ask {α : Type} (answer : HttpAnswer → ProviderWorld → Except StorageError α) :
    ProviderTask α :=
  call env fun found world ↦ (answer found world, world)

def change (next : ProviderWorld → ProviderWorld) : ProviderTask Unit :=
  call env fun _ world ↦ (.ok (), next world)

/-- A value or an error that does not depend on the world. -/
def lift {α : Type} (outcome : Except StorageError α) : ProviderTask α :=
  Process.query fun _ ↦ outcome

def send (body : Bytes) : ProviderTask HttpAnswer :=
  call env fun answer world ↦ (.ok answer, { world with sent := world.sent ++ [body] })

/-- An HTTP request without a body. -/
def get : ProviderTask HttpAnswer := ask env fun answer _ ↦ .ok answer

/-- `tokio::fs::metadata(path).len()` of the file of an upload. -/
def fileSize (content : Bytes) : ProviderTask ℕ := ask env fun _ _ ↦ .ok content.length

/-- `tokio::fs::read(path)`, or `open` and the reads up to the end, of the file of an upload. -/
def readFile (content : Bytes) : ProviderTask Bytes := ask env fun _ _ ↦ .ok content

/-- The chunks of a list, each of the given size but for the last. -/
def chunks (size : ℕ) : ℕ → Bytes → List Bytes
  | 0, _ => []
  | _ + 1, [] => []
  | fuel + 1, bytes => bytes.take size :: chunks size fuel (bytes.drop size)

/-- `i64::MAX` -/
def i64Max : ℕ := 2 ^ 63 - 1

/-- `i32::MAX` -/
def i32Max : ℕ := 2 ^ 31 - 1

/-- An error with a text. -/
def provider (message : String) : StorageError := .provider message.toList

end Calls

section Providers

variable (hash : Bytes → Digest) (env : Surroundings)

/-- `put_pack_file` of the trait: the file is read and put as bytes. -/
def defaultPutPackFile (putPack : Text → Bytes → ProviderTask Unit) (packHash : Text)
    (content : Bytes) : ProviderTask Unit := do
  let bytes ← readFile env content
  putPack packHash bytes

/-! ### The local directory -/

structure LocalStorage where
  root : Text
  processId : Text

namespace LocalStorage

variable (storage : LocalStorage)

def packPath (packHash : Text) : Text :=
  storage.root ++ "/packs/" ++ packHash ++ ".pack"

/-- The path of a temporary file, with a number that is used once. -/
def partPath (packHash : Text) (number : ℕ) : Text :=
  storage.root ++ "/packs/" ++ packHash ++ '.' :: storage.processId ++
    '.' :: decimal number ++ ".part"

/-- The failure of a rename to a path that exists. -/
def alreadyExists : StorageError := .io "AlreadyExists"

def readPath (path : Text) : ProviderTask Bytes :=
  ask env fun _ world ↦ orThrow (world.files path) (.io "NotFound")

/-- `remove_file`. -/
def removePath (path : Text) : ProviderTask Unit :=
  change env fun world ↦ { world with files := Function.update world.files path none }

/-- The write to a temporary file, and its move to the path of the pack. -/
def writePack (packHash : Text) (bytes : Bytes) : ProviderTask Unit := do
  let path := storage.packPath packHash
  let part ← Process.query fun world ↦ .ok (storage.partPath packHash world.clock)
  change env fun world ↦ { world with files := Function.update world.files part (some bytes) }
  Process.tryCatch
    (change env fun world ↦ { world with
      files := Function.update (Function.update world.files path (world.files part)) part none })
    fun failure ↦ do
      let _ ← Process.attempt (removePath env part)
      if failure = alreadyExists then do
        let existing ← readPath env path
        lift (verifyPackBytes hash packHash existing)
      else Process.fail failure

def putPack (packHash : Text) (bytes : Bytes) : ProviderTask Unit := do
  lift (validateHash packHash)
  lift (verifyPackBytes hash packHash bytes)
  let path := storage.packPath packHash
  change env id
  if ← ask env fun _ world ↦ .ok (world.files path).isSome then do
    let existing ← readPath env path
    if (verifyPackBytes hash packHash existing).isOk then pure ()
    else do
      removePath env path
      storage.writePack hash env packHash bytes
  else storage.writePack hash env packHash bytes

/-- `put_pack_file`, which is that of the trait. -/
def putPackFile (packHash : Text) (content : Bytes) : ProviderTask Unit :=
  defaultPutPackFile env (storage.putPack hash env) packHash content

end LocalStorage

/-! ### The S3 bucket -/

structure S3CompatibleStorage where
  multipartThresholdBytes : ℕ
  multipartPartBytes : ℕ
  part_pos : 0 < multipartPartBytes

namespace S3CompatibleStorage

variable (storage : S3CompatibleStorage)

def packKey (packHash : Text) : Text := "packs/" ++ packHash ++ ".pack"

/-- What a `HEAD` says: the length and the metadata. -/
structure HeadObject where
  contentLength : Option ℤ
  blake3 : Option Text

/-- A `HEAD` that a missing object answers with nothing. -/
def headObject (key : Text) : ProviderTask (Option HeadObject) :=
  ask env fun _ world ↦ .ok ((world.bucket key).map fun object ↦
    ⟨some object.bytes.length, object.blake3⟩)

/-- `head_remote`, for which a missing object is an error. -/
def headRemote (key : Text) : ProviderTask HeadObject := do
  let head ← headObject env key
  lift (orThrow head (provider "NotFound"))

def readRemote (key : Text) : ProviderTask Bytes :=
  ask env fun _ world ↦ orThrow ((world.bucket key).map S3Object.bytes) (provider "NoSuchKey")

/-- The end of an upload. -/
def store (key : Text) (object : S3Object) : ProviderTask Unit :=
  change env fun world ↦ { world with bucket := Function.update world.bucket key (some object) }

def putSingle (packHash key : Text) (bytes : Bytes) : ProviderTask Unit :=
  store env key { bytes := bytes, blake3 := some packHash }

def putFileStreaming (packHash key : Text) (content : Bytes) (size : ℕ) : ProviderTask Unit := do
  let body ← readFile env content
  lift (throwIf (i64Max < size) (.configuration "S3 object size exceeds i64"))
  store env key { bytes := body, blake3 := some packHash }

def uploadParts : ℕ → List Bytes → ProviderTask Unit
  | _, [] => pure ()
  | index, _ :: rest => do
    lift (throwIf (i32Max < index + 1)
      (.configuration "multipart upload exceeds 10000 parts"))
    change env id
    uploadParts (index + 1) rest

def putMultipart (packHash key : Text) (bytes : Bytes) : ProviderTask Unit := do
  change env id
  Process.tryCatch
    (do
      uploadParts env 0 (chunks storage.multipartPartBytes bytes.length bytes)
      store env key { bytes := bytes, blake3 := some packHash })
    fun failure ↦ do
      let _ ← Process.attempt (change env id)
      Process.fail failure

def putPack (packHash : Text) (bytes : Bytes) : ProviderTask Unit := do
  lift (validateHash packHash)
  lift (verifyPackBytes hash packHash bytes)
  let key := packKey packHash
  let head ← headObject env key
  if head.any fun head ↦ head.contentLength.getD (-1) = (bytes.length : ℤ) then do
    let remote ← readRemote env key
    lift (verifyPackBytes hash packHash remote)
  else do
    if storage.multipartThresholdBytes ≤ bytes.length then
      storage.putMultipart env packHash key bytes
    else putSingle env packHash key bytes
    let remote ← readRemote env key
    lift (verifyPackBytes hash packHash remote)

def putPackFile (packHash : Text) (content : Bytes) : ProviderTask Unit := do
  lift (validateHash packHash)
  let size ← fileSize env content
  lift (throwIf (i64Max < size) (.configuration "S3 object size exceeds i64"))
  let key := packKey packHash
  let head ← headObject env key
  if head.any fun head ↦
      head.contentLength.getD (-1) = (size : ℤ) && head.blake3 == some packHash then pure ()
  else do
    putFileStreaming env packHash key content size
    let head ← headRemote env key
    lift (throwIf (head.contentLength.getD (-1) ≠ (size : ℤ) ∨ head.blake3 ≠ some packHash)
      (provider "S3 pack verification failed after streaming upload"))

end S3CompatibleStorage

/-! ### The Telegram bot -/

structure TelegramColdStorageProvider where
  chatIds : List ℤ
  maxUploadBytes : ℕ
  chatIds_ne_nil : chatIds ≠ []

namespace TelegramColdStorageProvider

variable (storage : TelegramColdStorageProvider)

def ensureStateLoaded : ProviderTask Unit := do
  if ← Process.query fun world ↦ .ok world.telegram.isSome then pure ()
  else change env fun world ↦ { world with telegram := some world.telegramFile }

def saveState : ProviderTask Unit :=
  change env fun world ↦ { world with telegramFile := world.telegram.getD world.telegramFile }

def targetChat : ProviderTask ℤ :=
  Process.step fun world ↦
    (.ok (storage.chatIds.getD (world.nextChat % storage.chatIds.length) 0),
      { world with nextChat := (world.nextChat + 1) % storage.chatIds.length })

/-- The result of a call of the bot. -/
def sendDocument (body : Bytes) : ProviderTask TelegramMessage := do
  let answer ← send env body
  lift (throwIf (answer.json = false) (provider "Telegram sendDocument returned invalid JSON"))
  lift (throwIf (answer.isSuccess = false ∨ answer.ok = false)
    (provider "Telegram sendDocument failed"))
  lift (orThrow answer.message (provider "Telegram sendDocument returned no result"))

/-- The upload of a body of a known size, `upload` and `upload_file` after their checks. -/
def uploadBody (packHash : Text) (body : ProviderTask Bytes) (size : ℕ) : ProviderTask Unit := do
  ensureStateLoaded env
  lift (throwIf (storage.maxUploadBytes < size)
    (.configuration "Telegram COLD object exceeds configured upload limit"))
  lift (validateHash packHash)
  let body ← body
  let chatId ← storage.targetChat
  let message ← sendDocument env body
  let document ← lift (orThrow message.document
    (provider "Telegram did not return a document reference"))
  Process.step fun world ↦ (.ok (), { world with
    telegram := some (Function.update (world.telegram.getD world.telegramFile) packHash
      (some ⟨chatId, message.messageId, document.fileId, document.fileUniqueId, size⟩)) })
  saveState env

def upload (packHash : Text) (bytes : Bytes) : ProviderTask Unit :=
  storage.uploadBody env packHash (pure bytes) bytes.length

def uploadFile (packHash : Text) (content : Bytes) (size : ℕ) : ProviderTask Unit :=
  storage.uploadBody env packHash (readFile env content) size

def putPack (packHash : Text) (bytes : Bytes) : ProviderTask Unit := do
  lift (verifyPackBytes hash packHash bytes)
  storage.upload env packHash bytes

def putPackFile (packHash : Text) (content : Bytes) : ProviderTask Unit := do
  let size ← fileSize env content
  storage.uploadFile env packHash content size

end TelegramColdStorageProvider

/-! ### FileMirage and Buzzheavier -/

def remember (packHash : Text) (reference : RemoteReference) : ProviderTask Unit := do
  Process.step fun world ↦ (.ok (), { world with
    references := Function.update world.references packHash (some reference) })
  change env fun world ↦ { world with referencesFile := world.references }

structure FileMirageStorage where
  uploadServerUrl : Option Text
  uploadChunkBytes : ℕ
  chunk_pos : 0 < uploadChunkBytes

namespace FileMirageStorage

variable (storage : FileMirageStorage)

def filemirageServer : ProviderTask Text :=
  match storage.uploadServerUrl with
  | some server => pure server
  | none => do
    let answer ← get env
    lift (throwIf (answer.isSuccess = false) (provider "FileMirage server lookup failed"))
    lift (throwIf (answer.json = false)
      (provider "FileMirage server lookup returned invalid JSON"))
    lift (orThrow answer.server (provider "FileMirage returned no upload server"))

/-- `resolve_filemirage_url`: at most as many pages as `rounds` are followed. -/
def resolveFilemirageUrl : ℕ → Text → ProviderTask Text
  | 0, _ => Process.fail (provider "FileMirage returned too many nested download redirects")
  | rounds + 1, currentUrl => do
    let answer ← get env
    lift (throwIf (answer.isSuccess = false) (provider "FileMirage share page lookup failed"))
    if answer.html = false then pure currentUrl
    else do
      let nextUrl ← lift (orThrow answer.directUrl
        (provider "FileMirage share page returned no embedded direct download URL"))
      lift (throwIf (nextUrl = currentUrl)
        (provider "FileMirage returned a self-referencing download URL"))
      resolveFilemirageUrl rounds nextUrl

/-- The uploads of the chunks: the last URL that an answer contains. -/
def uploadChunks : List Bytes → Option Text → ProviderTask (Option Text)
  | [], remoteUrl => pure remoteUrl
  | chunk :: rest, remoteUrl => do
    let answer ← send env chunk
    lift (throwIf (answer.isSuccess = false) (provider "FileMirage upload failed"))
    uploadChunks rest (answer.url.or remoteUrl)

/-- The end of an upload, once its chunks are sent. -/
def finishUpload (packHash : Text) (remoteUrl : Option Text) : ProviderTask Unit := do
  let pageUrl ← lift (orThrow remoteUrl (provider "FileMirage upload returned no direct URL"))
  let url ← resolveFilemirageUrl env 4 pageUrl
  remember env packHash ⟨url, none⟩

/-- `upload_filemirage_bytes`. No bytes are no chunks. -/
def uploadFilemirageBytes (packHash : Text) (bytes : Bytes) : ProviderTask Unit := do
  let _ ← storage.filemirageServer env
  let remoteUrl ← uploadChunks env (chunks storage.uploadChunkBytes bytes.length bytes) none
  finishUpload env packHash remoteUrl

/-- `upload_filemirage_file`. An empty file is one empty chunk. -/
def uploadFilemirageFile (packHash : Text) (content : Bytes) : ProviderTask Unit := do
  let _ ← storage.filemirageServer env
  let size ← fileSize env content
  lift (throwIf (u64Size ≤ size) (.configuration "FileMirage object is too large"))
  let bytes ← readFile env content
  let remoteUrl ← uploadChunks env
    (if size = 0 then [[]] else chunks storage.uploadChunkBytes bytes.length bytes) none
  finishUpload env packHash remoteUrl

def putPack (packHash : Text) (bytes : Bytes) : ProviderTask Unit := do
  lift (validateHash packHash)
  lift (verifyPackBytes hash packHash bytes)
  storage.uploadFilemirageBytes env packHash bytes

def putPackFile (packHash : Text) (content : Bytes) : ProviderTask Unit := do
  lift (validateHash packHash)
  storage.uploadFilemirageFile env packHash content

end FileMirageStorage

structure BuzzheavierStorage where
  downloadBaseUrl : Text

namespace BuzzheavierStorage

variable (storage : BuzzheavierStorage)

def recordBuzzResponse (packHash : Text) (answer : HttpAnswer) : ProviderTask Unit := do
  lift (throwIf (answer.json = false) (provider "Buzzheavier upload returned invalid JSON"))
  lift (throwIf (answer.isSuccess = false) (provider "Buzzheavier upload failed"))
  let remoteId ← lift (orThrow answer.remoteId (provider "Buzzheavier upload returned no file ID"))
  remember env packHash ⟨storage.downloadBaseUrl ++ "/d/" ++ remoteId, some remoteId⟩

def uploadBuzzheavierBytes (packHash : Text) (bytes : Bytes) : ProviderTask Unit := do
  let answer ← send env bytes
  storage.recordBuzzResponse env packHash answer

def uploadBuzzheavierFile (packHash : Text) (content : Bytes) : ProviderTask Unit := do
  let _ ← fileSize env content
  let bytes ← readFile env content
  let answer ← send env bytes
  storage.recordBuzzResponse env packHash answer

def putPack (packHash : Text) (bytes : Bytes) : ProviderTask Unit := do
  lift (validateHash packHash)
  lift (verifyPackBytes hash packHash bytes)
  storage.uploadBuzzheavierBytes env packHash bytes

def putPackFile (packHash : Text) (content : Bytes) : ProviderTask Unit := do
  lift (validateHash packHash)
  storage.uploadBuzzheavierFile env packHash content

end BuzzheavierStorage

/-! ### Every provider -/

/-- `put_pack` of the MEGA pool. -/
def megaPutPack (pool : MegaColdStoragePool) (packHash : Text) (bytes : Bytes) :
    ProviderTask Unit :=
  (pool.putPack hash env.cold packHash bytes).onPart ProviderWorld.cold
    fun cold world ↦ { world with cold := cold }

/-- The implementations of `StorageProvider`. -/
inductive StorageProvider
  | localStorage (storage : LocalStorage)
  | s3 (storage : S3CompatibleStorage)
  | telegram (storage : TelegramColdStorageProvider)
  | fileMirage (storage : FileMirageStorage)
  | buzzheavier (storage : BuzzheavierStorage)
  | mega (pool : MegaColdStoragePool)

/-- `StorageProvider::put_pack`. -/
def StorageProvider.putPack : StorageProvider → Text → Bytes → ProviderTask Unit
  | localStorage storage => storage.putPack hash env
  | s3 storage => storage.putPack hash env
  | telegram storage => storage.putPack hash env
  | fileMirage storage => storage.putPack hash env
  | buzzheavier storage => storage.putPack hash env
  | mega pool => megaPutPack hash env pool

/-- `StorageProvider::put_pack_file`. -/
def StorageProvider.putPackFile : StorageProvider → Text → Bytes → ProviderTask Unit
  | localStorage storage => storage.putPackFile hash env
  | s3 _ => S3CompatibleStorage.putPackFile env
  | telegram storage => storage.putPackFile env
  | fileMirage storage => storage.putPackFile env
  | buzzheavier storage => storage.putPackFile env
  | mega pool => defaultPutPackFile env (megaPutPack hash env pool)

end Providers

end GameLauncher.Storage
