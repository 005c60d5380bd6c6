import Mathlib.Data.List.DropRight
import Mathlib.Logic.Function.Basic
import GameLauncher.Capacity.MemoryStore
import GameLauncher.Foundation.PrefixCode
import GameLauncher.Foundation.Process

/-!
# The MEGA cold storage pool

`MegaColdStoragePool` over its accounts, the ledger of reservations and the directory for temporary
files. `ColdWorld` is what the pool reads and changes; every call of an account, of the ledger or of
the file system is one step, and the environment decides whether it fails (`Turn`). An account that
answers tells the truth: an object is what was last uploaded to its path. A call that fails may have
written anything to its target.

`reserveTemp` is the scope of a reservation of temporary space, which ends however its body does.
-/

set_option autoImplicit false

namespace GameLauncher.ColdStorage

open Foundation Fallible
open Capacity (CapacitySnapshot StorageAccountSnapshot StorageReservation)

/-! ### Errors -/

inductive StorageError
  | invalidHash
  | configuration (message : Text)
  | io (message : Text)
  | json (message : Text)
  | hashMismatch (expected actual : Text)
  | provider (message : Text)
  | rateLimiterClosed
  | injectedFailure
  | needsCapacity (requiredBytes availableBytes : ℕ)
  | authentication (message : Text)
  | networkUnavailable (message : Text)
  | unavailable (message : Text)
  | poolUnavailable
  deriving DecidableEq, Repr

/-! ### The world of the pool -/

/-- An account of the pool; `store` tells which remote files are its own. -/
structure MegaAccount where
  accountId : Text
  remoteRoot : Text
  store : ℕ
  deriving DecidableEq, Repr

/-- The objects of the remote stores, by their paths. -/
abbrev Objects := ℕ → Text → Option Bytes

/-- The temporary files, by their paths. -/
abbrev Files := Text → Option Bytes

def Objects.put (objects : Objects) (store : ℕ) (path : Text) (value : Option Bytes) : Objects :=
  Function.update objects store (Function.update (objects store) path value)

structure ColdWorld where
  objects : Objects
  files : Files
  tempReserved : ℕ
  tempCounter : ℕ
  /-- The number of calls so far. -/
  clock : ℕ

/-- What a call meets: a failure, or the answers of the account and of the ledger. -/
structure Turn where
  failure : Option StorageError
  /-- What a write that fails leaves in its place. -/
  left : Option Bytes
  capacity : CapacitySnapshot
  refresh : Text → CapacitySnapshot → StorageAccountSnapshot
  reserve : Text → Text → ℕ → StorageReservation

/-- What each call meets. -/
abbrev Environment := ℕ → Turn

abbrev ColdTask (α : Type) := Process ColdWorld StorageError α

section Calls

variable (env : Environment)

/-- A call: what it does, and what it leaves when it fails. -/
def call {α : Type} (done : Turn → ColdWorld → Except StorageError α × ColdWorld)
    (undone : Turn → ColdWorld → ColdWorld) : ColdTask α :=
  Process.step fun world ↦
    let turn := env world.clock
    let world := { world with clock := world.clock + 1 }
    match turn.failure with
    | some failure => (.error failure, undone turn world)
    | none => done turn world

/-- A call that changes nothing. -/
def ask {α : Type} (answer : Turn → ColdWorld → Except StorageError α) : ColdTask α :=
  call env (fun turn world ↦ (answer turn world, world)) fun _ world ↦ world

def writesFile (path : Text) (value : ColdWorld → Except StorageError (Option Bytes)) :
    ColdTask Unit :=
  call env
    (fun _ world ↦
      match value world with
      | .ok value => (.ok (), { world with files := Function.update world.files path value })
      | .error failure => (.error failure, world))
    fun turn world ↦ { world with files := Function.update world.files path turn.left }

def writesObject (account : MegaAccount) (path : Text)
    (value : ColdWorld → Except StorageError (Option Bytes)) : ColdTask Unit :=
  call env
    (fun _ world ↦
      match value world with
      | .ok value => (.ok (), { world with objects := world.objects.put account.store path value })
      | .error failure => (.error failure, world))
    fun turn world ↦ { world with objects := world.objects.put account.store path turn.left }

/-- `tokio::fs::create_dir_all`. -/
def createDirAll : ColdTask Unit := ask env fun _ _ ↦ .ok ()

/-- `tokio::fs::write`. -/
def write (path : Text) (bytes : Bytes) : ColdTask Unit :=
  writesFile env path fun _ ↦ .ok (some bytes)

/-- `tokio::fs::read`. -/
def read (path : Text) : ColdTask Bytes :=
  ask env fun _ world ↦ orThrow (world.files path) (.io "No such file or directory")

/-- `tokio::fs::remove_file`, with the result ignored. -/
def removeFile (path : Text) : ColdTask Unit := do
  let _ ← Process.attempt (writesFile env path fun _ ↦ .ok none)
  pure ()

/-- `object_size` of an account. -/
def objectSize (account : MegaAccount) (path : Text) : ColdTask (Option ℕ) :=
  ask env fun _ world ↦ .ok ((world.objects account.store path).map List.length)

/-- `upload_file` of an account. -/
def uploadFile (account : MegaAccount) (localPath path : Text) : ColdTask Unit :=
  writesObject env account path fun world ↦ do
    let bytes ← orThrow (world.files localPath) (.io "No such file or directory")
    pure (some bytes)

/-- `download_file` of an account. -/
def downloadFile (account : MegaAccount) (path localPath : Text) : ColdTask Unit :=
  writesFile env localPath fun world ↦ do
    let bytes ← orThrow (world.objects account.store path)
      (.unavailable "object missing")
    pure (some bytes)

/-- `delete_object` of an account. -/
def deleteObject (account : MegaAccount) (path : Text) : ColdTask Unit :=
  writesObject env account path fun _ ↦ .ok none

end Calls

/-! ### The pool -/

structure MegaColdStorageOptions where
  verifyExisting : Bool
  tempDir : Text
  tempSpaceBytes : ℕ
  deriving DecidableEq, Repr

structure MegaColdStoragePool where
  accounts : List MegaAccount
  options : MegaColdStorageOptions

/-- A hash cut as in the paths of objects. -/
def shard (root : Text) (folder : String) (encodedHash : Text) (extension : String) : Text :=
  root.rdropWhile (· = '/') ++ folder.toList ++ encodedHash.take 2 ++ '/' ::
    (encodedHash.drop 2).take 2 ++ '/' :: encodedHash ++ extension.toList

def objectPath (account : MegaAccount) (encodedHash : Text) : Text :=
  shard account.remoteRoot "/chunks/" encodedHash ".chunk"

def packObjectPath (account : MegaAccount) (packHash : Text) : Text :=
  shard account.remoteRoot "/packs/" packHash ".pack"

def remotePath (account : MegaAccount) (encodedHash : Text) (pack : Bool) : Text :=
  if pack then packObjectPath account encodedHash else objectPath account encodedHash

def validateHash (value : Text) : Except StorageError Unit :=
  throwIf (¬ ((utf8 value).length = 64 ∧
    (utf8 value).all (fun byte ↦ isAsciiHexdigit byte && !isAsciiUppercase byte) = true))
    .invalidHash

section Verification

variable (hash : Bytes → Digest)

def verifyEncodedBytes (encodedHash : Text) (bytes : Bytes) : Except StorageError Unit :=
  throwIf ((hash bytes).hex ≠ encodedHash) (.hashMismatch encodedHash (hash bytes).hex)

def verifyPackBytes (packHash : Text) (bytes : Bytes) : Except StorageError Unit :=
  verifyEncodedBytes hash packHash bytes

/-- The check of a chunk or a pack. -/
def verifyBytes (encodedHash : Text) (bytes : Bytes) (pack : Bool) : Except StorageError Unit :=
  if pack then verifyPackBytes hash encodedHash bytes else verifyEncodedBytes hash encodedHash bytes

end Verification

/-! ### Temporary space -/

/-- The bytes of a reservation, if the limit leaves them. -/
def reserveBytes (limit bytes : ℕ) : ColdTask Unit :=
  Process.step fun world ↦
    let available := limit - world.tempReserved
    if available < bytes then (.error (.needsCapacity bytes available), world)
    else (.ok (), { world with tempReserved := world.tempReserved + bytes })

/-- The end of a reservation. -/
def releaseBytes (bytes : ℕ) : ColdTask Unit :=
  Process.step fun world ↦ (.ok (), { world with tempReserved := world.tempReserved - bytes })

/-- The next number for a temporary file. -/
def nextSequence : ColdTask ℕ :=
  Process.step fun world ↦
    (.ok world.tempCounter, { world with tempCounter := (world.tempCounter + 1) % u64Size })

def temporaryPath (tempDir encodedHash : Text) (sequence : ℕ) (suffix : String) : Text :=
  tempDir ++ "/launcher-mega-" ++ encodedHash ++ '-' :: decimal sequence ++
    '-' :: suffix.toList ++ ".part"

namespace MegaColdStoragePool

section Pool

variable (hash : Bytes → Digest) (env : Environment) (pool : MegaColdStoragePool)

/-- A value or an error that does not depend on the world. -/
def lift {α : Type} (outcome : Except StorageError α) : ColdTask α := Process.query fun _ ↦ outcome

/-- `reserve_temp`, with the scope in which the reservation is held. -/
def reserveTemp {α : Type} (encodedHash : Text) (suffix : String) (bytes : ℕ)
    (body : Text → ColdTask α) : ColdTask α := do
  reserveBytes pool.options.tempSpaceBytes bytes
  Process.tryFinally
    (do
      createDirAll env
      let sequence ← nextSequence
      body (temporaryPath pool.options.tempDir encodedHash sequence suffix))
    (releaseBytes bytes)

/-- The object at a path, which is downloaded to a temporary file. -/
def downloaded {α : Type} (account : MegaAccount) (path temporary : Text)
    (view : Bytes → Except StorageError α) : ColdTask α :=
  Process.tryFinally
    (do
      downloadFile env account path temporary
      let bytes ← read env temporary
      lift (view bytes))
    (removeFile env temporary)

def verifyExisting (account : MegaAccount) (path encodedHash : Text) (expectedSize : ℕ)
    (pack : Bool) : ColdTask Bool := do
  match ← objectSize env account path with
  | none => pure false
  | some size =>
    if size ≠ expectedSize ∨ pool.options.verifyExisting = false then
      pure (size = expectedSize && !pool.options.verifyExisting)
    else
      pool.reserveTemp env encodedHash "verify" expectedSize fun temporary ↦
        downloaded env account path temporary fun bytes ↦
          .ok (verifyBytes hash encodedHash bytes pack).isOk

/-! ### Put -/

/-- What the loop over the accounts has learnt. -/
structure PutProgress where
  capacityAvailable : ℕ
  capacityChecked : Bool
  lastError : Option StorageError

def PutProgress.failed (progress : PutProgress) (failure : StorageError) : PutProgress :=
  { progress with lastError := some failure }

/-- The upload to an account, with the check of the size and the commit of the reservation. -/
def uploadAndCommit (account : MegaAccount) (path temporary : Text) (size : ℕ) : ColdTask Unit := do
  uploadFile env account temporary path
  let found ← objectSize env account path
  lift (throwIf (found ≠ some size) (.provider "MEGA upload size verification failed"))
  ask env fun _ _ ↦ .ok ()

/-- The upload under a reservation; nothing when the put is done. -/
def uploadReserved (account : MegaAccount) (path temporary : Text) (size : ℕ)
    (progress : PutProgress) : ColdTask (Option PutProgress) := do
  match ← Process.attempt (uploadAndCommit env account path temporary size) with
  | .ok () => do
    removeFile env temporary
    pure none
  | .error failure => do
    let _ ← Process.attempt (ask env fun _ _ ↦ .ok ())
    let _ ← Process.attempt (deleteObject env account path)
    pure (some (progress.failed failure))

/-- The reservation at the ledger and the upload. -/
def reserveAndUpload (account : MegaAccount) (path encodedHash temporary : Text) (size : ℕ)
    (progress : PutProgress) : ColdTask (Option PutProgress) := do
  match ← Process.attempt (ask env fun turn _ ↦ .ok turn.capacity) with
  | .error failure => pure (some (progress.failed failure))
  | .ok capacity => do
    let progress := { progress with capacityChecked := true }
    match ← Process.attempt (ask env fun turn _ ↦
      .ok (turn.refresh account.accountId capacity)) with
    | .error failure => pure (some (progress.failed failure))
    | .ok snapshot => do
      let progress := { progress with
        capacityAvailable := saturatingAdd progress.capacityAvailable snapshot.usableFreeBytes }
      match ← Process.attempt (ask env fun turn _ ↦
        .ok (turn.reserve account.accountId encodedHash size)) with
      | .error (.needsCapacity ..) => pure (some progress)
      | .error failure => pure (some (progress.failed failure))
      | .ok _ => uploadReserved env account path temporary size progress

def deleteExisting (account : MegaAccount) (path : Text) : ColdTask Unit := do
  match ← Process.attempt (objectSize env account path) with
  | .ok (some _) => deleteObject env account path
  | _ => pure ()

/-- The put at one account; nothing when the put is done. -/
def putAccount (encodedHash : Text) (bytes : Bytes) (pack : Bool) (temporary : Text)
    (account : MegaAccount) (progress : PutProgress) : ColdTask (Option PutProgress) := do
  let path := remotePath account encodedHash pack
  match ← Process.attempt
    (pool.verifyExisting hash env account path encodedHash bytes.length pack) with
  | .ok true => do
    removeFile env temporary
    pure none
  | .error failure => pure (some (progress.failed failure))
  | .ok false => do
    match ← Process.attempt (deleteExisting env account path) with
    | .error failure => pure (some (progress.failed failure))
    | .ok () => reserveAndUpload env account path encodedHash temporary bytes.length progress

/-- The error of a put that no account has taken. -/
def putError (size : ℕ) (progress : PutProgress) : StorageError :=
  match progress.lastError with
  | some (.authentication message) => .authentication message
  | lastError =>
    if progress.capacityAvailable = 0 then
      match lastError with
      | some failure => failure
      | none => if progress.capacityChecked then .needsCapacity size 0 else .poolUnavailable
    else .needsCapacity size progress.capacityAvailable

def putAccounts (encodedHash : Text) (bytes : Bytes) (pack : Bool) (temporary : Text) :
    List MegaAccount → PutProgress → ColdTask Unit
  | [], progress => do
    removeFile env temporary
    Process.fail (putError bytes.length progress)
  | account :: rest, progress => do
    match ← pool.putAccount hash env encodedHash bytes pack temporary account progress with
    | none => pure ()
    | some progress => putAccounts encodedHash bytes pack temporary rest progress

def putInnerWithPaths (encodedHash : Text) (bytes : Bytes) (pack : Bool) : ColdTask Unit :=
  pool.reserveTemp env encodedHash "upload" bytes.length fun temporary ↦ do
    write env temporary bytes
    pool.putAccounts hash env encodedHash bytes pack temporary pool.accounts ⟨0, false, none⟩

def putEncoded (encodedHash : Text) (bytes : Bytes) : ColdTask Unit := do
  lift (validateHash encodedHash)
  lift (verifyEncodedBytes hash encodedHash bytes)
  pool.putInnerWithPaths hash env encodedHash bytes false

def putPack (packHash : Text) (bytes : Bytes) : ColdTask Unit := do
  lift (validateHash packHash)
  lift (verifyPackBytes hash packHash bytes)
  pool.putInnerWithPaths hash env packHash bytes true

/-! ### Read -/

/-- The read at one account; nothing when it has no such object. -/
def readAccount (encodedHash : Text) (pack : Bool) (account : MegaAccount) :
    ColdTask (Option Bytes) := do
  let path := remotePath account encodedHash pack
  match ← objectSize env account path with
  | none => pure none
  | some size => do
    let bytes ← pool.reserveTemp env encodedHash (if pack then "pack-download" else "download") size
      fun temporary ↦ downloaded env account path temporary fun bytes ↦ do
        throwIf (size ≠ bytes.length)
          (StorageError.provider "MEGA download size verification failed")
        verifyBytes hash encodedHash bytes pack
        pure bytes
    pure (some bytes)

def readAccounts (encodedHash : Text) (pack : Bool) :
    List MegaAccount → Option StorageError → ColdTask Bytes
  | [], lastError =>
    Process.fail (lastError.getD (.unavailable
      ("cold object " ++ encodedHash ++ " is unavailable")))
  | account :: rest, lastError => do
    match ← Process.attempt (pool.readAccount hash env encodedHash pack account) with
    | .ok (some bytes) => pure bytes
    | .ok none => readAccounts encodedHash pack rest lastError
    | .error failure => readAccounts encodedHash pack rest (some failure)

def readInner (encodedHash : Text) (pack : Bool) : ColdTask Bytes :=
  pool.readAccounts hash env encodedHash pack pool.accounts none

def readEncoded (encodedHash : Text) : ColdTask Bytes := do
  lift (validateHash encodedHash)
  pool.readInner hash env encodedHash false

def readPack (packHash : Text) : ColdTask Bytes := do
  lift (validateHash packHash)
  pool.readInner hash env packHash true

end Pool

end MegaColdStoragePool

end GameLauncher.ColdStorage
