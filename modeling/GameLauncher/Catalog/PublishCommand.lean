import GameLauncher.Foundation.FileTree
import GameLauncher.Foundation.Process
import GameLauncher.Catalog.Publication

/-!
# The publish command

The command reads the manifest and the signature of a package, copies its chunks to the storage
root, publishes the build, removes the staging files when this is configured
(`cleanupAfterPublish`), and at last copies the manifest and the signature to the catalog
(`atomicCopy`).

The command is a process on a file tree and, when one is configured, a database. Paths are
canonical: what the operating system resolves is resolved, also on the way to `chunks/encoded` in
the storage root, which is `objectDirectory`. The parsers of the manifest, the signature and the
source marker are parameters, like the check of the signature. Left out: the telemetry, and the
uploads to the providers, which write other files.
-/

set_option autoImplicit false

namespace GameLauncher.Catalog

open Foundation Fallible Manifests

/-! ### The state -/

/-- The database: the catalog, and the columns of a build that hold its manifest as bytes and its
signature. -/
structure BuildStore (Signature : Type) where
  catalog : Database
  manifestBytes : Text → Option Bytes
  signatureJson : Text → Option Signature

structure CommandState (Signature : Type) where
  tree : FileTree id
  database : Option (BuildStore Signature)

/-- How the command fails: with an error of the file system, or with a message. -/
inductive CommandError
  | io (context : Text)
  | bail (message : Text)
  | worker (error : WorkerError)
  deriving DecidableEq, Repr

/-- The arguments and the configuration of the command, and the code it relies on. -/
structure PublishCommand (Signature : Type) where
  package : Path
  destination : Text → Path
  storageRoot : Path
  objectDirectory : Path
  cleanupEnabled : Bool
  publication : Manifest → Publication
  publication_manifest : ∀ manifest, (publication manifest).manifest = manifest
  storage : StorageRegistry
  clock : ℕ → ℤ
  validateJson : Bytes → Option Manifest
  parseSignature : Bytes → Option Signature
  verifyBytes : Bytes → Signature → Bool
  markerPath : Text → Path
  decodeUtf8 : Bytes → Option Text
  hash : Bytes → Digest
  walk : List Path → List Path
  walk_perm : ∀ paths, (walk paths).Perm paths

structure VerifiedPackage (Signature : Type) where
  manifest : Manifest
  manifestBytes : Bytes
  signatureBytes : Bytes
  signature : Signature
  deriving DecidableEq

variable {Signature : Type}

abbrev CommandTask (Signature α : Type) := Process (CommandState Signature) CommandError α

/-! ### File operations -/

def displayPath (path : Path) : Text := path.flatMap ('/' :: ·)

/-- What precedes the last dot of a name, or the name when it has no dot but the first. -/
def fileStem (name : Text) : Text :=
  match name.reverse.dropWhile (· != '.') with
  | [] => name
  | [_] => name
  | _ :: rest => rest.reverse

/-- `Path::with_extension`. -/
def withExtension (path : Path) (extension : Text) : Path :=
  path.dropLast ++ [fileStem (path.getLastD []) ++ '.' :: extension]

/-- An operation on the tree. -/
def change (action : FileTree id → Except IoFailure (FileTree id)) (context : Text) :
    CommandTask Signature Unit :=
  Process.step fun state ↦
    match action state.tree with
    | .ok made => (.ok (), { state with tree := made })
    | .error _ => (.error (.io context), state)

def look {α : Type} (view : FileTree id → Except CommandError α) : CommandTask Signature α :=
  Process.query fun state ↦ view state.tree

/-- `fs::read`. -/
def readFile (path : Path) (context : Text) : CommandTask Signature Bytes :=
  look fun tree ↦ orThrow (tree.content path) (.io context)

def atomicCopy (source destination : Path) : CommandTask Signature Unit := do
  let bytes ← readFile source []
  change (·.writeFile (withExtension destination "part") bytes) []
  change (·.moveFile (withExtension destination "part") destination) []

/-- `fs::create_dir_all`. -/
def createDirAll (path : Path) : CommandTask Signature Unit := change (·.createDirectory path) []

/-- A lower-case hexadecimal hash (`is_lower_hex_hash`). -/
def isLowerHexHash (value : Text) : Bool :=
  (utf8 value).length = 64 && (utf8 value).all fun byte ↦
    isAsciiHexdigit byte && !isAsciiUppercase byte

namespace PublishCommand

variable (command : PublishCommand Signature)

/-! ### The chunks of the package -/

/-- `str::trim_end_matches`, for `.bin`; the text is reversed. -/
def trimBin : Text → Text
  | 'n' :: 'i' :: 'b' :: '.' :: rest => trimBin rest
  | other => other

def objectHash (name : Text) : Text := (trimBin name.reverse).reverse

def checkObject (entry : Path) (tree : FileTree id) : Except CommandError Bytes := do
  let name := entry.getLastD []
  throwIf (¬ ".bin" <:+ name) (.bail ("unexpected storage object name: " ++ name))
  throwIf (isLowerHexHash (objectHash name) = false)
    (.bail ("invalid storage object hash: " ++ objectHash name))
  let bytes ← orThrow (tree.content entry) (.io [])
  throwIf ((command.hash bytes).hex ≠ objectHash name)
    (.bail ("storage object hash mismatch: " ++ objectHash name))
  return bytes

/-- An object that is in the storage already must be intact. -/
def checkExisting (target : Path) (hash : Text) (tree : FileTree id) :
    Except CommandError Unit := do
  let existing ← orThrow (tree.content target) (.io [])
  throwIf ((command.hash existing).hex ≠ hash)
    (.bail ("existing storage object is corrupt: " ++ hash))

/-- One round of the loop over the objects. -/
def copyVerifiedObject (destination entry : Path) : CommandTask Signature Unit := do
  let _ ← look (command.checkObject entry)
  let target := destination ++ [entry.getLastD []]
  let present ← look fun tree ↦ .ok (tree.node target).isSome
  if present then look (command.checkExisting target (objectHash (entry.getLastD [])))
  else atomicCopy entry target

def copyVerifiedObjects (source destination : Path) : CommandTask Signature Unit := do
  look fun tree ↦ throwIf (tree.directoryExists source = false)
    (.bail ("package has no encoded object directory: " ++ displayPath source))
  let entries ← look fun tree ↦ .ok (command.walk (tree.enumerate fun path node ↦
    decide (source <+: path) && (match node with | .file _ => true | _ => false)))
  Process.forEach (fun entry _ ↦ command.copyVerifiedObject destination entry) entries ()

/-! ### Publication -/

section

variable (package : VerifiedPackage Signature)

/-- The row that a step writes besides the catalog: the bytes of the manifest and the signature. -/
def record (step : PublicationStep) (catalog : Database)
    (store : BuildStore Signature) : BuildStore Signature :=
  match step with
  | .upsertBuildWithBytes buildId _ =>
    { catalog
      manifestBytes := Function.update store.manifestBytes buildId (some package.manifestBytes)
      signatureJson := Function.update store.signatureJson buildId (some package.signature) }
  | _ => { store with catalog }

/-- One step of a publication, on the database. Without a database only the checks of the
configuration have an effect. -/
def performStep (step : PublicationStep × ℕ) :
    CommandTask Signature Unit :=
  Process.step fun state ↦
    match state.database with
    | none =>
      match step.1 with
      | .require false message => (.error (.bail message), state)
      | _ => (.ok (), state)
    | some store =>
      match perform (command.clock step.2) step.1 store.catalog with
      | .ok catalog => (.ok (), { state with database := some (record package step.1 catalog store) })
      | .error error => (.error (.worker error), state)

/-- The steps of `publish_verified_build` up to the publication of the build. -/
def publicationSteps (state : CommandState Signature) :
    List PublicationStep :=
  if state.database.isSome then (command.publication package.manifest).steps
  else (command.publication package.manifest).configurationSteps

/-- The steps of `retire_superseded_hot_storage`. -/
def retirementSteps (state : CommandState Signature) :
    List PublicationStep :=
  state.database.elim [] fun store ↦
    (command.publication package.manifest).retirementSteps command.storage store.catalog

def publishVerifiedBuild : CommandTask Signature Unit := do
  let steps ← Process.query fun state ↦ .ok (command.publicationSteps package state)
  Process.forEach (fun step _ ↦ command.performStep package step) steps.zipIdx ()
  let retirement ← Process.query fun state ↦ .ok (command.retirementSteps package state)
  Process.forEach (fun step _ ↦ command.performStep package step)
    (retirement.zipIdx steps.length) ()

end

/-- The names of the two files that go to the catalog. -/
def manifestName : Text := "manifest.json"

@[inherit_doc manifestName]
def signatureName : Text := "manifest.sig.json"

def readPackage (tree : FileTree id) : Except CommandError (VerifiedPackage Signature) := do
  let manifestPath := command.package ++ [manifestName]
  let signaturePath := command.package ++ [signatureName]
  let manifestBytes ← orThrow (tree.content manifestPath)
    (.io ("could not read " ++ displayPath manifestPath))
  let manifest ← orThrow (command.validateJson manifestBytes) (.bail "invalid manifest")
  let signatureBytes ← orThrow (tree.content signaturePath)
    (.io ("could not read " ++ displayPath signaturePath))
  let signature ← orThrow (command.parseSignature signatureBytes) (.bail "invalid signature")
  throwIf (command.verifyBytes manifestBytes signature = false) (.bail "invalid signature")
  return ⟨manifest, manifestBytes, signatureBytes, signature⟩

/-- The command up to the end of `publish_verified_build`. -/
def publishPhase : CommandTask Signature (VerifiedPackage Signature) := do
  let package ← look command.readPackage
  createDirAll (command.destination package.manifest.buildId)
  createDirAll command.objectDirectory
  command.copyVerifiedObjects (command.package ++ ["chunks".toList, "encoded".toList])
    command.objectDirectory
  command.publishVerifiedBuild package
  return package

/-! ### The cleanup -/

def canonicalRoot (tree : FileTree id) : Except CommandError Unit := do
  throwIf (tree.node command.storageRoot = none)
    (.io ("could not resolve staging storage root " ++ displayPath command.storageRoot))
  throwIf (tree.node command.storageRoot ≠ some .directory)
    (.bail ("staging storage root is not a real directory: " ++ displayPath command.storageRoot))

def validateStagingPath (path : Path) (label : Text) (tree : FileTree id) :
    Except CommandError Unit := do
  throwIf (tree.node path = none)
    (.io ("could not inspect " ++ label ++ ' ' :: displayPath path))
  throwIf (tree.isReparsePoint path = true)
    (.bail ("refusing symlink " ++ label ++ ": " ++ displayPath path))
  throwIf (¬ command.storageRoot <+: path)
    (.bail (label ++ " is outside the staging storage root: " ++ displayPath path))

def sourceMarker : Text := ".launcher-source-path"

/-- The path that a source marker names. -/
def parseMarker (marker : Path) (content : Bytes) : Except CommandError Path := do
  let value ← orThrow (command.decodeUtf8 content)
    (.io ("could not read staging cleanup marker " ++ displayPath marker))
  throwIf (trim value = [])
    (.bail ("staging cleanup marker is empty: " ++ displayPath marker))
  return command.markerPath (trim value)

def readSourceMarker (tree : FileTree id) : Except CommandError (Option Path) :=
  let marker := command.package ++ [sourceMarker]
  match tree.node marker with
  | none => .ok none
  | some (.file content) => do
    let source ← command.parseMarker marker content
    command.validateStagingPath source "ingest input" tree
    return some source
  | some _ =>
    .error (.bail ("refusing invalid staging cleanup marker: " ++ displayPath marker))

/-- What is to be removed: the package, and the source that its marker names. -/
def checkStaging (tree : FileTree id) : Except CommandError (Option Path) := do
  command.canonicalRoot tree
  command.validateStagingPath command.package "published package" tree
  throwIf (command.package = command.storageRoot)
    (.bail "refusing to remove the storage root as a published package")
  let source ← command.readSourceMarker tree
  throwIf (source.any (fun path ↦ command.package.isPrefixOf path) = true)
    (.bail "staging source must not be inside the published package")
  return source

def expectedKey (encodedHash : Text) : Text :=
  "chunks/encoded/" ++ encodedHash ++ ".bin"

def stagingObject (encodedHash : Text) : Path :=
  command.objectDirectory ++ [encodedHash ++ ".bin"]

def checkStagingObject (object : Text × Text) (tree : FileTree id) : Except CommandError Bool := do
  throwIf (object.1 ≠ expectedKey object.2)
    (.bail ("unexpected staging object key for " ++ object.2 ++ ": " ++ object.1))
  throwIf (isLowerHexHash object.2 = false)
    (.bail ("invalid staging object hash: " ++ object.2))
  match tree.node (command.stagingObject object.2) with
  | none => return false
  | some (.file bytes) =>
    throwIf ((command.hash bytes).hex ≠ object.2)
      (.bail ("staging object hash mismatch: " ++ object.2))
    return true
  | some _ => throw (.bail ("refusing to remove non-regular staging object " ++
      displayPath (command.stagingObject object.2)))

/-- One round of the loop over the staging objects. -/
def removeStagingObject (object : Text × Text) : CommandTask Signature Unit := do
  let present ← look (command.checkStagingObject object)
  if present then
    change (·.deleteFile (command.stagingObject object.2))
      ("could not remove staging object " ++ displayPath (command.stagingObject object.2))
  else pure ()

def stagingObjects (manifest : Manifest) : List (Text × Text) :=
  manifest.files.flatMap fun file ↦ file.chunks.map fun chunk ↦ (chunk.objectKey, chunk.encodedHash)

/-- `cleanup_after_publish`, up to the removal of the package. -/
def prepareCleanup (manifest : Manifest) : CommandTask Signature (Option Path) := do
  let source ← look command.checkStaging
  Process.forEach (fun object _ ↦ command.removeStagingObject object) (stagingObjects manifest) ()
  return source

/-- The checks of `remove_staging_path`: is the path there to be removed, and is it a directory? -/
def checkRemoval (path : Path) (tree : FileTree id) : Except CommandError (Option Bool) :=
  match tree.node path with
  | none => .ok none
  | some (.reparsePoint _) =>
    .error (.bail ("refusing symlink staging input: " ++ displayPath path))
  | some node => do
    throwIf (path = command.storageRoot ∨ ¬ command.storageRoot <+: path)
      (.bail ("staging input is outside the storage root: " ++ displayPath path))
    return some (node = .directory)

def removeStagingPath (path : Path) : CommandTask Signature Bool := do
  match ← look (command.checkRemoval path) with
  | none => return false
  | some isDirectory =>
    change (if isDirectory then (·.deleteDirectory path) else (·.deleteFile path)) []
    return true

def removeGeneratedHandoff (source : Path) : CommandTask Signature Unit := do
  let handoff := source.dropLast ++ ["handoff.json".toList]
  let node ← look fun tree ↦ .ok (tree.node handoff)
  match if handoff = source then none else node with
  | none => pure ()
  | some (.file _) => change (·.deleteFile handoff) []
  | some _ =>
    Process.fail (.bail ("refusing invalid generated handoff: " ++ displayPath handoff))

/-- What the loop over the parents finds at a path: whether to stop, and whether the directory is
empty. -/
def checkParent (current : Path) (tree : FileTree id) : Except CommandError Bool := do
  throwIf (tree.node current = none) (.io [])
  if current = command.storageRoot then
    return true
  throwIf (¬ command.storageRoot <+: current)
    (.bail ("staging directory is outside the storage root: " ++ displayPath current))
  throwIf (tree.node current ≠ some .directory) (.io [])
  return (tree.deleteEmptyDirectory current).toOption.isNone

/-- `remove_empty_parent_dirs`. The number bounds the directories above. -/
def removeEmptyParentDirs : ℕ → Path → CommandTask Signature Unit
  | 0, _ => pure ()
  | depth + 1, current => do
    let stop ← look (command.checkParent current)
    if stop then pure ()
    else do
      change (·.deleteEmptyDirectory current) []
      removeEmptyParentDirs depth current.dropLast

/-- The removal of the source, with the handoff beside it and the directories it leaves empty. -/
def removeSource (source : Path) : CommandTask Signature Unit := do
  let removed ← command.removeStagingPath source
  if removed then do
    removeGeneratedHandoff source
    command.removeEmptyParentDirs source.length source.dropLast
  else pure ()

/-- The removal of the package and of the source. -/
def removeStaging (source : Option Path) : CommandTask Signature Unit := do
  change (·.deleteDirectory command.package)
    ("could not remove published package " ++ displayPath command.package)
  match source with
  | none => pure ()
  | some path => command.removeSource path

def cleanupAfterPublish (manifest : Manifest) : CommandTask Signature Unit := do
  let source ← command.prepareCleanup manifest
  command.removeStaging source

/-! ### The command -/

/-- The copies of the manifest and the signature. -/
def copyToCatalog (manifest : Manifest) : CommandTask Signature Unit := do
  let destination := command.destination manifest.buildId
  atomicCopy (command.package ++ [manifestName]) (destination ++ [manifestName])
  atomicCopy (command.package ++ [signatureName]) (destination ++ [signatureName])

/-- The command after `publish_verified_build`. -/
def finishPhase (package : VerifiedPackage Signature) : CommandTask Signature Unit :=
  if command.cleanupEnabled then do
    command.cleanupAfterPublish package.manifest
    command.copyToCatalog package.manifest
  else command.copyToCatalog package.manifest

/-- `Commands::Publish`. -/
def run : CommandTask Signature Unit := do
  let package ← command.publishPhase
  command.finishPhase package

end PublishCommand

end GameLauncher.Catalog
