import GameLauncher.Installation.World

/-!
# The installer

`installAsync` and `updateAsync` reconstruct the files of a manifest from cached chunks and put them
in place, each previous file moved to a backup directory beside the root, with a journal in the root
that is replaced after every file. `recoverAsync` reads the journals that a crash or a failure has
left: it rolls a transaction back unless its journal or the table of installed games says that it
was committed, and then removes the work files. `verifyAsync` compares the installed files with a
manifest.

The source keeps the journal in a variable that its exception handler reads. Here every part of a
transaction between two assignments of that variable is `guarded` by the handler with the value the
variable has there, which runs the handler on the same value and once.

A directory enumeration is a snapshot in an order that the environment chooses.

Left out: progress reports, and the failure injection of the tests, which fails where the next
operation can fail as well.
-/

set_option autoImplicit false

namespace GameLauncher.Installation

open Foundation Fallible Manifests Process

variable {fold : Char → Char}

/-! ### Names -/

def names (portablePath : Text) : Path := portablePath.splitOn '/'

/-- The name of a transaction's work file or directory. -/
def workName (operation : Operation) (transactionId suffix : Text) : Text :=
  ".launcher-" ++ operation.word ++ "-" ++ transactionId ++ suffix

/-- The suffix of a file under construction. -/
def partSuffix (transactionId : Text) : Text :=
  ".launcher-" ++ transactionId ++ ".part"

/-- A path with a suffix added to its last name. -/
def suffixed (path : Path) (suffix : Text) : Path :=
  path.dropLast ++ [path.getLastD [] ++ suffix]

/-- A name of the form `head*tail`, up to the case folding of the volume. -/
def matchesBetween (fold : Char → Char) (head tail name : Text) : Bool :=
  (head.map fold).isPrefixOf (name.map fold) && (tail.map fold).isSuffixOf (name.map fold) &&
    head.length + tail.length ≤ name.length

section

variable (fold : Char → Char) (name : Text)

/-- The pattern `.launcher-*.json`. -/
def isJournalName : Bool :=
  matchesBetween fold ".launcher-" ".json" name

/-- The pattern `.launcher-*.json.part`. -/
def isJournalPartName : Bool :=
  matchesBetween fold ".launcher-" ".json.part" name

/-- The pattern `.launcher-update-*.staging`. -/
def isStagingName : Bool :=
  matchesBetween fold ".launcher-update-" ".staging" name

/-- The pattern `*.launcher-*.part`. -/
def isPartName : Bool :=
  (".part".toList.map fold).isSuffixOf (name.map fold) &&
    decide (".launcher-".toList.map fold <:+: (name.map fold).take (name.length - 5))

end

/-- Comparison of paths with `StringComparison.OrdinalIgnoreCase`. -/
def pathEqualsIgnoreCase (unicode : Unicode) (left right : Path) : Bool :=
  left.map unicode.toUpperInvariant == right.map unicode.toUpperInvariant

/-! ### Paths under a root -/

/-- Some directory on the way from the root to the path, or the path itself, is a link. -/
def hasDirectoryLink (tree : FileTree fold) (root relative : Path) : Bool :=
  relative.inits.any fun above ↦ !above.isEmpty &&
    decide (tree.node (root ++ above) = some (.reparsePoint true))

/-- `PathGuard.ResolveUnderRoot`. The names of a valid portable path cannot leave the root. -/
def resolveUnderRoot (env : Environment fold) (root : Path) (portablePath : Text) :
    Task fold Path := do
  lift ((ManifestValidator.validatePortablePath env.unicode portablePath).mapError .validation)
  let escapes ← inspect fun tree ↦ hasDirectoryLink tree root (names portablePath)
  if escapes then fail (.io .ioException)
  else return root ++ names portablePath

/-- Does the path have the attribute `ReparsePoint`? -/
def hasReparsePoint (env : Environment fold) (path : Path) : Task fold Bool :=
  observe env fun tree ↦
    match tree.node path with
    | none => .error .ioException
    | some (.reparsePoint _) => .ok true
    | some _ => .ok false

/-- `PathGuard.EnsureSafeRoot`. -/
def ensureSafeRoot (env : Environment fold) (root : Path) : Task fold Unit := do
  operation env fun tree ↦ tree.createDirectory root
  let linked ← hasReparsePoint env root
  if linked then fail (.io .ioException) else return ()

/-! ### Files -/

/-- `Hashing.VerifyFileAsync`. A link does not have the length of a file. -/
def verifyFile (env : Environment fold) (path : Path) (expectedSize : ℕ) (expectedHash : Text) :
    Task fold Bool := do
  let candidate ← inspect fun tree ↦ (tree.content path).any fun content ↦
    content.length == expectedSize
  if candidate then do
    let content ← observe env fun tree ↦
      match tree.content path with
      | some content => .ok content
      | none => .error .ioException
    return env.computeHash content == expectedHash
  else return false

/-- What the handlers for `IOException` and `UnauthorizedAccessException` swallow. -/
def ignoreIo : Failure → Task fold Unit
  | .io _ => pure ()
  | failure => fail failure

def tryDeleteFile (env : Environment fold) (path : Path) : Task fold Unit :=
  tryCatch
    (do
      let found ← inspect fun tree ↦ tree.fileExists path
      if found then operation env fun tree ↦ tree.deleteFile path else return ())
    ignoreIo

def tryDeleteDirectory (env : Environment fold) (path : Path) : Task fold Unit :=
  tryCatch
    (do
      let found ← inspect fun tree ↦ tree.directoryExists path
      if found then operation env fun tree ↦ tree.deleteDirectory path else return ())
    ignoreIo

def readRaw (env : Environment fold) (chunk : ChunkRef) : Task fold Bytes := do
  let encoded ← Process.query fun world ↦
    orThrow (env.readCache world.clock chunk.encodedHash) (.io .ioException)
  let raw ← lift (orThrow (env.decompress encoded) .decompression)
  lift (throwIf (raw.length ≠ chunk.rawSize ∨ env.computeHash raw ≠ chunk.rawHash)
    (.validation (.invalidData ("Raw chunk verification failed: " ++ chunk.rawHash))))
  return raw

def reconstructFile (env : Environment fold) (file : FileRecipe) (temporary : Path) :
    Task fold Unit := do
  operation env fun tree ↦ tree.createNew temporary
  forEach (fun chunk (_ : Unit) ↦ do
    let raw ← readRaw env chunk
    operation env fun tree ↦ tree.appendFile temporary raw) file.chunks ()
  let valid ← verifyFile env temporary file.size file.blake3
  if valid then return ()
  else fail (.validation (.invalidData ("File verification failed: " ++ file.path)))

def ensureCapacity (env : Environment fold) (root : Path) (requiredBytes : ℕ) : Task fold Unit :=
  lift (throwIf (env.availableSpace.any fun available ↦ available root < (requiredBytes : ℤ))
    (.io .ioException))

def sumFileSizes (files : List FileRecipe) : Except Failure ℕ :=
  orThrow (files.foldlM (fun total file ↦ ManifestValidator.checkedAddLong total file.size) 0)
    (.validation (.invalidData "Manifest file sizes exceed the supported range."))

/-! ### Journals -/

def newJournal (transactionId : Text) (operation : Operation) (gameId oldBuild newBuild : Text)
    (backupRoot : Path) : TransactionJournal where
  transactionId := transactionId
  operation := operation
  gameId := gameId
  oldBuildId := some oldBuild
  newBuildId := some newBuild
  state := .started
  backupRoot := backupRoot
  committedPaths := []
  removedPaths := []

/-- `WriteJournalAsync`: the text goes to a temporary file, which then replaces the journal. -/
def writeJournal (env : Environment fold) (cancellable : Bool) (path : Path)
    (journal : TransactionJournal) : Task fold Unit :=
  tryCatch
    (do
      if cancellable then throwIfCancellationRequested env else pure ()
      operation env fun tree ↦ tree.writeFile (suffixed path ".part") (env.encode journal)
      operation env fun tree ↦ tree.moveFile (suffixed path ".part") path)
    fun failure ↦ do
      tryDeleteFile env (suffixed path ".part")
      fail failure

def tryWriteFailedJournal (env : Environment fold) (path : Path) (journal : TransactionJournal) :
    Task fold Unit :=
  tryCatch (writeJournal env false path { journal with state := .recoverableFailure }) ignoreIo

/-- A part of a transaction under its exception handler. -/
def guarded {α : Type} (env : Environment fold) (path : Path) (journal : TransactionJournal)
    (body : Task fold α) : Task fold α :=
  tryCatch body fun failure ↦ do
    tryWriteFailedJournal env path journal
    fail failure

def backupExistingFile (env : Environment fold) (root destination backupRoot : Path) :
    Task fold Unit := do
  let found ← inspect fun tree ↦ tree.fileExists destination
  if found then do
    let linked ← hasReparsePoint env destination
    if linked then fail (.io .ioException)
    else do
      let backup := backupRoot ++ destination.drop root.length
      operation env fun tree ↦ tree.createDirectory backup.dropLast
      operation env fun tree ↦ tree.moveFile destination backup
  else return ()

def cleanupTransaction (env : Environment fold) (journalPath backupRoot : Path) :
    Task fold Unit := do
  let backedUp ← inspect fun tree ↦ tree.directoryExists backupRoot
  if backedUp then operation env fun tree ↦ tree.deleteDirectory backupRoot else pure ()
  let journaled ← inspect fun tree ↦ tree.fileExists journalPath
  if journaled then operation env fun tree ↦ tree.deleteFile journalPath else pure ()

/-- The row that a transaction saves. -/
def installedGame (manifest : Manifest) (root : Path) (time : ℕ) : InstalledGame where
  gameId := manifest.gameId
  buildId := manifest.buildId
  displayVersion := manifest.displayVersion
  installRoot := root
  manifest := manifest
  installedAt := time

/-- The end of a transaction: the journal says that the files are in place, the table of installed
games is written, and the transaction is cleaned up. -/
def commitTransaction (env : Environment fold) (manifest : Manifest)
    (root journalPath backupRoot : Path) (journal : TransactionJournal) : Task fold Unit := do
  guarded env journalPath { journal with state := .filesystemCommitted } (do
    writeJournal env true journalPath { journal with state := .filesystemCommitted }
    throwIfCancellationRequested env
    saveInstalledGame env (installedGame manifest root))
  guarded env journalPath { journal with state := .committed } (do
    writeJournal env true journalPath { journal with state := .committed }
    cleanupTransaction env journalPath backupRoot)

/-! ### Installation -/

/-- Put one file of a manifest in place. -/
def installFile (env : Environment fold) (root backupRoot : Path) (transactionId : Text)
    (file : FileRecipe) : Task fold Unit := do
  throwIfCancellationRequested env
  let destination ← resolveUnderRoot env root file.path
  operation env fun tree ↦ tree.createDirectory destination.dropLast
  let temporary := suffixed destination (partSuffix transactionId)
  tryFinally
    (do
      reconstructFile env file temporary
      backupExistingFile env root destination backupRoot
      operation env fun tree ↦ tree.moveFile temporary destination)
    (tryDeleteFile env temporary)

def journalPathOf (root : Path) (operation : Operation) (transactionId : Text) : Path :=
  root ++ [workName operation transactionId ".json"]

/-- The directory of a transaction's backups, beside the root. -/
def backupRootOf (root : Path) (operation : Operation) (transactionId : Text) : Path :=
  root.dropLast ++ [workName operation transactionId ".backup"]

/-- The directory in which an update is staged, beside the root. -/
def stageRootOf (root : Path) (transactionId : Text) : Path :=
  root.dropLast ++ [workName .update transactionId ".staging"]

/-- The journal with one more path in place. -/
def TransactionJournal.commit (journal : TransactionJournal) (path : Text) : TransactionJournal :=
  { journal with committedPaths := journal.committedPaths ++ [path] }

def installAsync (env : Environment fold) (manifest : Manifest) (root : Path)
    (transactionId : Text) : Task fold Unit := do
  lift ((ManifestValidator.validate env.unicode manifest).mapError .validation)
  ensureSafeRoot env root
  let requiredBytes ← lift (sumFileSizes manifest.files)
  ensureCapacity env root requiredBytes
  lift (throwIf (root = []) .argumentNull)
  let backupRoot := backupRootOf root .install transactionId
  let journalPath := journalPathOf root .install transactionId
  let journal := newJournal transactionId .install manifest.gameId [] manifest.buildId backupRoot
  writeJournal env true journalPath journal
  let journal ← forEach (fun file journal ↦ do
    guarded env journalPath journal (installFile env root backupRoot transactionId file)
    guarded env journalPath (journal.commit file.path)
      (writeJournal env true journalPath (journal.commit file.path))
    return journal.commit file.path) manifest.files journal
  commitTransaction env manifest root journalPath backupRoot journal

/-! ### Update -/

/-- What an update has staged so far. -/
structure Staging where
  unchangedPaths : List Text
  reusedInstalledBytes : ℕ
  reconstructedBytes : ℕ
  changedFiles : ℕ

structure UpdateSummary where
  reusedInstalledBytes : ℕ
  reconstructedBytes : ℕ
  addedFiles : ℕ
  changedFiles : ℕ
  removedFiles : ℕ
  deriving DecidableEq, Repr

def findFile (files : List FileRecipe) (path : Text) : Option FileRecipe :=
  files.find? fun file ↦ file.path == path

/-- The files of one manifest that the other does not have with the same hash. -/
def differingFiles (files others : List FileRecipe) : List FileRecipe :=
  files.filter fun file ↦
    match findFile others file.path with
    | some other => other.blake3 != file.blake3
    | none => true

/-- The bytes an update needs: of the files that come and of those that go. -/
def requiredUpdateBytes (previous next : Manifest) : Except Failure ℕ := do
  let added ← sumFileSizes (differingFiles next.files previous.files)
  let removed ← sumFileSizes (differingFiles previous.files next.files)
  orThrow (ManifestValidator.checkedAddLong added removed)
    (.validation (.invalidData "Manifest update size exceeds the supported range."))

section

variable (env : Environment fold)

/-- Is the installed file of the previous build the one of the next? -/
def isUnchanged (previous : List FileRecipe) (existing : Path)
    (file : FileRecipe) : Task fold Bool :=
  match findFile previous file.path with
  | some old =>
    if old.blake3 = file.blake3 then verifyFile env existing old.size old.blake3 else pure false
  | none => pure false

/-- Stage one file of the next build. -/
def stageFile (previous : List FileRecipe) (root stageRoot : Path)
    (transactionId : Text) (file : FileRecipe) (staging : Staging) : Task fold Staging := do
  throwIfCancellationRequested env
  let staged ← resolveUnderRoot env stageRoot file.path
  operation env fun tree ↦ tree.createDirectory staged.dropLast
  let existing ← resolveUnderRoot env root file.path
  let unchanged ← isUnchanged env previous existing file
  if unchanged then
    return { staging with
      unchangedPaths := file.path :: staging.unchangedPaths
      reusedInstalledBytes := staging.reusedInstalledBytes + file.size }
  else do
    let temporary := suffixed staged (partSuffix transactionId)
    tryFinally
      (do
        reconstructFile env file temporary
        operation env fun tree ↦ tree.moveFile temporary staged)
      (tryDeleteFile env temporary)
    return { staging with
      reconstructedBytes := staging.reconstructedBytes + file.size
      changedFiles := staging.changedFiles + 1 }

/-- Back up one file that the next build does not have. -/
def removeFile (root backupRoot : Path) (old : FileRecipe)
    (journal : TransactionJournal) : Task fold TransactionJournal := do
  let oldPath ← resolveUnderRoot env root old.path
  let found ← inspect fun tree ↦ tree.fileExists oldPath
  if found then do
    backupExistingFile env root oldPath backupRoot
    return { journal with removedPaths := journal.removedPaths ++ [old.path] }
  else return journal

def placeFile (root stageRoot backupRoot : Path) (file : FileRecipe) :
    Task fold Unit := do
  let destination ← resolveUnderRoot env root file.path
  let staged ← resolveUnderRoot env stageRoot file.path
  operation env fun tree ↦ tree.createDirectory destination.dropLast
  backupExistingFile env root destination backupRoot
  operation env fun tree ↦ tree.moveFile staged destination

/-- Make the work directories of an update; on a failure both are removed. -/
def createWorkDirectories (stageRoot backupRoot : Path) :
    Task fold Unit :=
  tryCatch
    (do
      operation env fun tree ↦ tree.createDirectory stageRoot
      operation env fun tree ↦ tree.createDirectory backupRoot)
    fun failure ↦ do
      tryDeleteDirectory env stageRoot
      tryDeleteDirectory env backupRoot
      fail failure

/-- Write the first journal of an update; on a failure everything it has made is removed. -/
def startUpdate (stageRoot backupRoot journalPath : Path)
    (journal : TransactionJournal) : Task fold Unit :=
  tryCatch (writeJournal env true journalPath journal) fun failure ↦ do
    tryDeleteDirectory env stageRoot
    tryDeleteDirectory env backupRoot
    tryDeleteFile env journalPath
    tryDeleteFile env (suffixed journalPath ".part")
    fail failure

end

/-- The files of the previous build that the next one does not have. -/
def removedFiles (previous next : Manifest) : List FileRecipe :=
  previous.files.filter fun old ↦ (findFile next.files old.path).isNone

def deleteStaging (env : Environment fold) (stageRoot : Path) : Task fold Unit := do
  let left ← inspect fun tree ↦ tree.directoryExists stageRoot
  if left then operation env fun tree ↦ tree.deleteDirectory stageRoot else pure ()

def updateAsync (env : Environment fold) (previous next : Manifest) (root : Path)
    (transactionId : Text) : Task fold UpdateSummary := do
  lift ((ManifestValidator.validate env.unicode previous).mapError .validation)
  lift ((ManifestValidator.validate env.unicode next).mapError .validation)
  lift (throwIf (previous.gameId ≠ next.gameId) (.validation (.invalidData
    "Cannot update different games in one installation.")))
  ensureSafeRoot env root
  let requiredBytes ← lift (requiredUpdateBytes previous next)
  ensureCapacity env root requiredBytes
  lift (throwIf (root = []) .argumentNull)
  let stageRoot := stageRootOf root transactionId
  let backupRoot := backupRootOf root .update transactionId
  let journalPath := journalPathOf root .update transactionId
  createWorkDirectories env stageRoot backupRoot
  let journal := newJournal transactionId .update next.gameId previous.buildId next.buildId
    backupRoot
  startUpdate env stageRoot backupRoot journalPath journal
  let staging ← guarded env journalPath journal
    (forEach (stageFile env previous.files root stageRoot transactionId) next.files ⟨[], 0, 0, 0⟩)
  let journal ← forEach (fun old journal ↦
    guarded env journalPath journal (removeFile env root backupRoot old journal))
    (removedFiles previous next) journal
  let journal ← forEach (fun file journal ↦
    if file.path ∈ staging.unchangedPaths then return journal
    else do
      guarded env journalPath journal (placeFile env root stageRoot backupRoot file)
      guarded env journalPath (journal.commit file.path)
        (writeJournal env true journalPath (journal.commit file.path))
      return journal.commit file.path) next.files journal
  commitTransaction env next root journalPath backupRoot journal
  guarded env journalPath { journal with state := .committed } (deleteStaging env stageRoot)
  return {
    reusedInstalledBytes := staging.reusedInstalledBytes
    reconstructedBytes := staging.reconstructedBytes
    addedFiles := next.files.countP fun file ↦ (findFile previous.files file.path).isNone
    changedFiles := staging.changedFiles
    removedFiles := (removedFiles previous next).length }

/-! ### Verification -/

def verifyAsync (env : Environment fold) (manifest : Manifest) (root : Path) :
    Task fold (List Text) := do
  lift ((ManifestValidator.validate env.unicode manifest).mapError .validation)
  ensureSafeRoot env root
  forEach (fun file invalid ↦ do
    throwIfCancellationRequested env
    let path ← resolveUnderRoot env root file.path
    let valid ← verifyFile env path file.size file.blake3
    return if valid then invalid else invalid ++ [file.path]) manifest.files []

/-! ### Recovery -/

/-- A node that an enumeration of files returns. -/
def isFileNode : Node → Bool
  | .file _ => true
  | .directory => false
  | .reparsePoint toDirectory => !toDirectory

section

variable (env : Environment fold) (directory : Path)

/-- Enumerate what lies below a directory, spelled from that directory on. -/
def enumerate (select : Path → Node → Bool) :
    Task fold (List Path) :=
  Process.step fun world ↦
    match env.fault world.clock with
    | some failure => (.error (.io failure), world.tick)
    | none =>
      if world.tree.directoryExists directory then
        (.ok (env.order world.clock ((world.tree.enumerate fun path node ↦
          decide (pathKey fold directory <+: pathKey fold path) &&
            decide (directory.length < path.length) &&
            select (path.drop directory.length) node).map fun path ↦
              directory ++ path.drop directory.length)), world.tick)
      else (.error (.io .ioException), world.tick)

/-- `Directory.EnumerateFiles` in the directory itself. -/
def enumerateFiles (pattern : Text → Bool) :
    Task fold (List Path) :=
  enumerate env directory fun relative node ↦
    isFileNode node && relative.length == 1 && pattern (relative.getLastD [])

/-- `Directory.EnumerateFiles` in the directory and all below it. -/
def enumerateAllFiles (pattern : Text → Bool) :
    Task fold (List Path) :=
  enumerate env directory fun relative node ↦ isFileNode node && pattern (relative.getLastD [])

/-- `Directory.EnumerateDirectories` in the directory itself. -/
def enumerateDirectories (pattern : Text → Bool) :
    Task fold (List Path) :=
  enumerate env directory fun relative node ↦
    !isFileNode node && relative.length == 1 && pattern (relative.getLastD [])

end

/-- `Guid.TryParseExact` with the format `N`. -/
def isGuid (text : Text) : Bool :=
  (trim text).length == 32 && (trim text).all fun c ↦ isHexDigit c.toNat

section

variable (env : Environment fold)

def isSafeJournal (root journalPath : Path)
    (journal : TransactionJournal) : Bool :=
  isGuid journal.transactionId && !isNullOrWhiteSpace journal.gameId &&
    decide (journalPath.getLast? =
      some (workName journal.operation journal.transactionId ".json")) &&
    !root.isEmpty &&
    pathEqualsIgnoreCase env.unicode journal.backupRoot
      (backupRootOf root journal.operation journal.transactionId) &&
    (journal.committedPaths ++ journal.removedPaths).all fun path ↦
      (ManifestValidator.validatePortablePath env.unicode path).isOk

def recordsBuild (root : Path) (journal : TransactionJournal)
    (installed : Table InstalledGame InstalledGame.gameId) : Bool :=
  installed.rows.any fun game ↦ game.gameId == journal.gameId &&
    some game.buildId == journal.newBuildId && pathEqualsIgnoreCase env.unicode game.installRoot root

def isDatabaseCommitted (root : Path) (journal : TransactionJournal) :
    Task fold Bool :=
  Process.step fun world ↦
    if env.databaseFault world.clock then (.error .database, world.tick)
    else (.ok (recordsBuild env root journal world.installed), world.tick)

/-- Delete what a transaction has put at a path. -/
def deleteCommitted (root : Path) (portable : Text) : Task fold Unit := do
  let path ← resolveUnderRoot env root portable
  let found ← inspect fun tree ↦ tree.fileExists path
  if found then do
    let linked ← hasReparsePoint env path
    if linked then pure () else operation env fun tree ↦ tree.deleteFile path
  else pure ()

def restoreBackup (root backupRoot backup : Path) : Task fold Unit := do
  let linked ← hasReparsePoint env backup
  if linked then fail (.io .ioException)
  else do
    let destination ← resolveUnderRoot env root
      (['/'].intercalate (backup.drop backupRoot.length))
    operation env fun tree ↦ tree.createDirectory destination.dropLast
    operation env fun tree ↦ tree.moveFile backup destination

def restoreTransaction (root : Path) (journal : TransactionJournal) :
    Task fold Unit := do
  forEach (fun portable (_ : Unit) ↦ deleteCommitted env root portable) journal.committedPaths ()
  let backedUp ← inspect fun tree ↦ tree.directoryExists journal.backupRoot
  if backedUp then do
    let backups ← enumerateAllFiles env journal.backupRoot fun _ ↦ true
    forEach (fun backup (_ : Unit) ↦ restoreBackup env root journal.backupRoot backup) backups ()
  else pure ()

/-- Read a journal; a text that cannot be read or is malformed is left alone. -/
def readJournal (journalPath : Path) :
    Task fold (Option TransactionJournal) :=
  tryCatch
    (do
      let text ← observe env fun tree ↦
        match tree.content journalPath with
        | some content => .ok content
        | none => .error .ioException
      return env.decode text)
    fun failure ↦
      match failure with
      | .io _ => return none
      | failure => fail failure

/-- Finish or roll back the transaction of a safe journal. -/
def settleJournal (stateStore : Bool) (root journalPath : Path)
    (journal : TransactionJournal) : Task fold Unit := do
  let databaseCommitted ← if stateStore then isDatabaseCommitted env root journal else pure false
  if journal.state ≠ .committed ∧ databaseCommitted = false then restoreTransaction env root journal
  else pure ()
  let backedUp ← inspect fun tree ↦ tree.directoryExists journal.backupRoot
  if backedUp then operation env fun tree ↦ tree.deleteDirectory journal.backupRoot else pure ()
  operation env fun tree ↦ tree.deleteFile journalPath

/-- One round of the loop over the journals. -/
def recoverJournal (stateStore : Bool) (root journalPath : Path) :
    Task fold Unit := do
  throwIfCancellationRequested env
  let journal ← readJournal env journalPath
  match journal with
  | none => pure ()
  | some journal =>
    if isSafeJournal env root journalPath journal then
      settleJournal env stateStore root journalPath journal
    else pure ()

def deleteFiles (paths : List Path) : Task fold Unit :=
  forEach (fun path (_ : Unit) ↦ do
    throwIfCancellationRequested env
    operation env fun tree ↦ tree.deleteFile path) paths ()

def deleteDirectories (paths : List Path) : Task fold Unit :=
  forEach (fun path (_ : Unit) ↦ do
    throwIfCancellationRequested env
    operation env fun tree ↦ tree.deleteDirectory path) paths ()

/-- What recovery does in an existing root after the journals: it removes the files under
construction and the staging directories. -/
def removeWorkFiles (root : Path) : Task fold Unit := do
  let parts ← enumerateAllFiles env root (isPartName fold)
  deleteFiles env parts
  let journalParts ← enumerateFiles env root (isJournalPartName fold)
  deleteFiles env journalParts
  if root = [] then pure ()
  else do
    let stagings ← enumerateDirectories env root.dropLast (isStagingName fold)
    deleteDirectories env stagings

/-- `RecoverAsync`, with or without a state store. -/
def recoverAsync (stateStore : Bool) (root : Path) : Task fold Unit := do
  let found ← inspect fun tree ↦ tree.directoryExists root
  if found then do
    ensureSafeRoot env root
    let journals ← enumerateFiles env root (isJournalName fold)
    forEach (fun journalPath (_ : Unit) ↦ recoverJournal env stateStore root journalPath) journals ()
    removeWorkFiles env root
  else pure ()

end

end GameLauncher.Installation
