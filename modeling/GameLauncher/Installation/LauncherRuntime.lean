import GameLauncher.Downloads.JobRecords
import GameLauncher.Foundation.Base64
import GameLauncher.Installation.InstalledRows
import GameLauncher.Installation.QuietMachine

/-!
# The launcher installs a game

`LauncherRuntime.InstallAsync`: the game of a snapshot is looked up by its id or title, the manifest
of its build and the signature of that manifest are fetched from the API, the signature is checked,
the chunks are downloaded, and the installer installs the manifest or updates the installed game to
it. The installer is the one of `Installer`; the download and the final refresh are answers of the
`Services`, since they write the download jobs and the snapshot only.

The request names a game and a build, but the row that is saved takes both from the manifest. So the
call installs what was asked for exactly when the manifest that the API answers names the game and
the build of the request (`installAsync_records_iff`); the signature does not decide it, since it
covers the bytes of a manifest and not the request.

Left out: progress reports, the gate that runs one operation at a time, and the JSON text of an
installed manifest, which is read back as it was written.
-/

set_option autoImplicit false

namespace GameLauncher.Installation

open Foundation Fallible Manifests Process
open Downloads (PersistedDownloadJob DownloadJobState)

/-! ### Games and settings -/

/-- The part of `RuntimeGame` that an installation reads. -/
structure RuntimeGame where
  id : Text
  slug : Text
  title : Text
  buildId : Option Text
  installed : Option InstalledGame
  deriving DecidableEq, Repr

/-- The part of `LauncherRuntimeSnapshot` that an installation reads. -/
structure LauncherRuntimeSnapshot where
  games : List RuntimeGame
  deriving DecidableEq, Repr

/-- The settings and the path that an installation reads. -/
structure LauncherSettings where
  trustedManifestKeysPem : Option (List (Text × Text))
  requireTrustedManifestKeys : Bool
  defaultGameDirectory : Option Text
  gamesPath : Text

structure ManifestSignature where
  schemaVersion : ℤ
  algorithm : Text
  keyId : Text
  manifestBlake3 : Text
  signatureBase64 : Text
  publicKeyBase64 : Option Text

/-- What `InstallAsync` throws. -/
inductive RuntimeFailure
  | launcherOperation (message : Text)
  | invalidData (message : Text)
  | validation (exception : ManifestValidator.ValidationException)
  | httpRequest
  | json (message : Text)
  | download
  | installer (failure : Failure)
  | database
  | refresh
  deriving DecidableEq, Repr

/-! ### Services -/

structure DownloadOutcome where
  result : Except RuntimeFailure Unit
  jobs : Table PersistedDownloadJob PersistedDownloadJob.jobId
  downloadedBytes : ℕ
  totalBytes : ℕ

/-- What the launcher finds outside its own code: the answers of the API, the class library and the
platform. The number is the time of the call. -/
structure Services (Key : Type) where
  manifestAnswer : ℕ → Text → Except RuntimeFailure Bytes
  signatureAnswer : ℕ → Text → Except RuntimeFailure ManifestSignature
  deserialize : Bytes → Option Manifest
  fromBase64String : Text → Option Bytes
  toBase64String : Bytes → Text
  importFromPem : Text → Option Key
  verifyData : Key → Bytes → Bytes → Bool
  download : ℕ → Table PersistedDownloadJob PersistedDownloadJob.jobId → Manifest → Text →
    DownloadOutcome
  refresh : ℕ → Except RuntimeFailure LauncherRuntimeSnapshot
  newGuid : ℕ → Text
  utcNow : ℕ → ℤ
  message : RuntimeFailure → String
  isInvalidFileNameChar : Char → Bool
  combine : Text → Text → Text
  getFullPath : Text → Path

variable {Key : Type} {fold : Char → Char}

/-! ### Signatures -/

namespace ManifestSignatureVerifier

variable (services : Services Key)

def toPem (derBase64 : Option Text) : Except RuntimeFailure (Option Text) :=
  match derBase64.filter fun text ↦ !isNullOrWhiteSpace text with
  | none => .ok none
  | some text => do
    let der ← orThrow (services.fromBase64String text)
      (.invalidData "Embedded manifest public key is not valid base64.")
    return some ("-----BEGIN PUBLIC KEY-----\n" ++ services.toBase64String der ++
      "\n-----END PUBLIC KEY-----")

/-- The key of a signature: a trusted one with its id, else the embedded one where it is allowed. -/
def publicKey (signature : ManifestSignature) (trustedPublicKeysPem : Option (List (Text × Text)))
    (allowEmbeddedPublicKey : Bool) : Except RuntimeFailure (Option Text) :=
  match trustedPublicKeysPem.bind (List.lookup signature.keyId) with
  | some pem => .ok (some pem)
  | none => if allowEmbeddedPublicKey then toPem services signature.publicKeyBase64 else .ok none

/-- `ManifestSignatureVerifier.Verify`. -/
def verify (computeHash : Bytes → Text) (manifestBytes : Bytes) (signature : ManifestSignature)
    (trustedPublicKeysPem : Option (List (Text × Text))) (allowEmbeddedPublicKey : Bool) :
    Except RuntimeFailure Unit := do
  throwIf (signature.schemaVersion ≠ 1 ∨ signature.algorithm ≠ "rsa-sha256-pkcs1-v1_5" ∨
    isNullOrWhiteSpace signature.keyId)
    (.invalidData "Unsupported or incomplete manifest signature.")
  throwIf (computeHash manifestBytes ≠ signature.manifestBlake3)
    (.invalidData "Manifest digest does not match its signature envelope.")
  let pem ← publicKey services signature trustedPublicKeysPem allowEmbeddedPublicKey
  let pem ← orThrow pem
    (.invalidData ("Manifest signature key ID is not trusted: " ++ signature.keyId))
  let encodedSignature ← orThrow (services.fromBase64String signature.signatureBase64)
    (.invalidData "Manifest signature is not valid base64.")
  let rsa ← orThrow (services.importFromPem pem)
    (.invalidData "Manifest public key is malformed.")
  throwIf (services.verifyData rsa manifestBytes encodedSignature = false)
    (.invalidData "Manifest signature verification failed.")

end ManifestSignatureVerifier

/-! ### The runtime -/

/-- The world of the installer, the rows of the download jobs and the current snapshot. -/
structure RuntimeState (fold : Char → Char) where
  world : World fold
  jobs : Table PersistedDownloadJob PersistedDownloadJob.jobId
  snapshot : LauncherRuntimeSnapshot

abbrev RuntimeTask (fold : Char → Char) (α : Type) := Process (RuntimeState fold) RuntimeFailure α

/-- The launcher: its machine, its services and its settings. -/
structure LauncherRuntime (Key : Type) (fold : Char → Char) where
  env : Environment fold
  services : Services Key
  settings : LauncherSettings

namespace LauncherRuntime

def runInstaller {α : Type} (task : Task fold α) : RuntimeTask fold α := fun state ↦
  { visited := (task state.world).visited.map fun world ↦ { state with world := world }
    result := (task state.world).result.mapError .installer
    final := { state with world := (task state.world).final } }

variable (runtime : LauncherRuntime Key fold)

def findGame (snapshot : LauncherRuntimeSnapshot) (idOrTitle : Text) : Option RuntimeGame :=
  if isNullOrWhiteSpace idOrTitle then none
  else snapshot.games.find? fun game ↦
    runtime.env.unicode.equalsIgnoreCase game.id idOrTitle ||
      runtime.env.unicode.equalsIgnoreCase game.title idOrTitle

/-- The build of a game, unless it is blank. -/
def publishedBuild (game : RuntimeGame) : Option Text :=
  game.buildId.filter fun buildId ↦ !isNullOrWhiteSpace buildId

/-- The text that `BuildInstallRoot` returns. -/
def installDirectory (game : RuntimeGame) : Text :=
  let baseRoot := (runtime.settings.defaultGameDirectory.filter fun directory ↦
    !isNullOrWhiteSpace directory).getD runtime.settings.gamesPath
  let segment := if isNullOrWhiteSpace game.slug then game.id else game.slug
  let segment := trim (segment.map fun c ↦
    if runtime.services.isInvalidFileNameChar c then '_' else c)
  let segment :=
    if segment.length = 0 ∨ segment = "." ∨ segment = ".." then game.id else segment
  runtime.services.combine baseRoot segment

/-- `BuildInstallRoot`, as the full path that the installer works with. -/
def buildInstallRoot (game : RuntimeGame) : Path :=
  runtime.services.getFullPath (runtime.installDirectory game)

/-- Where a game is or will be installed. -/
def installRoot (game : RuntimeGame) : Path :=
  (game.installed.map InstalledGame.installRoot).getD (runtime.buildInstallRoot game)

def getManifestWithBytes (time : ℕ) (buildId : Text) : Except RuntimeFailure (Manifest × Bytes) := do
  let bytes ← runtime.services.manifestAnswer time buildId
  let manifest ← orThrow (runtime.services.deserialize bytes)
    (.json "manifest payload was empty")
  (ManifestValidator.validate runtime.env.unicode manifest).mapError .validation
  return (manifest, bytes)

/-- The manifest of a build, after the check of its signature. -/
def getSignedManifest (buildId : Text) : RuntimeTask fold Manifest := do
  let (manifest, bytes) ← query fun state ↦ runtime.getManifestWithBytes state.world.clock buildId
  let signature ← query fun state ↦ runtime.services.signatureAnswer state.world.clock buildId
  query fun _ ↦ ManifestSignatureVerifier.verify runtime.services runtime.env.computeHash bytes
    signature runtime.settings.trustedManifestKeysPem
    (!runtime.settings.requireTrustedManifestKeys &&
      (runtime.settings.trustedManifestKeysPem.all List.isEmpty))
  return manifest

/-- `DownloadAsync` of the download manager. -/
def download (manifest : Manifest) (jobId : Text) : RuntimeTask fold (ℕ × ℕ) :=
  step fun state ↦
    let outcome := runtime.services.download state.world.clock state.jobs manifest jobId
    (outcome.result.map fun _ ↦ (outcome.downloadedBytes, outcome.totalBytes),
      { state with jobs := outcome.jobs, world := state.world.tick })

def saveDownloadJob (job : ℕ → PersistedDownloadJob) : RuntimeTask fold Unit :=
  step fun state ↦
    if runtime.env.databaseFault state.world.clock then
      (.error .database, { state with world := state.world.tick })
    else (.ok (), { state with
      world := state.world.tick
      jobs := state.jobs.upsert (job state.world.clock) })

/-- The record of an installation that failed. -/
def failedJob (manifest : Manifest) (jobId : Text) (totals : ℕ × ℕ) (failure : RuntimeFailure)
    (time : ℕ) : PersistedDownloadJob where
  jobId := jobId
  buildId := manifest.buildId
  state := if runtime.env.canceled time then .cancelled else .failed
  downloadedBytes := totals.1
  totalBytes := totals.2
  updatedAt := runtime.services.utcNow time
  lastError := some (runtime.services.message failure)

def installManifest (game : RuntimeGame) (manifest : Manifest) : RuntimeTask fold Unit := do
  let transactionId ← query fun state ↦ .ok (runtime.services.newGuid state.world.clock)
  match game.installed with
  | some installed => do
    let _ ← runInstaller (updateAsync runtime.env installed.manifest manifest
      (runtime.installRoot game) transactionId)
    return ()
  | none =>
    runInstaller (Installation.installAsync runtime.env manifest (runtime.installRoot game)
      transactionId)

/-- `RefreshAsync`, which reads the state store. -/
def refreshAsync : RuntimeTask fold Unit :=
  step fun state ↦
    match runtime.services.refresh state.world.clock with
    | .ok snapshot => (.ok (), { state with snapshot := snapshot, world := state.world.tick })
    | .error failure => (.error failure, { state with world := state.world.tick })

/-- `InstallAsync`, from the download on. -/
def installGame (game : RuntimeGame) (manifest : Manifest) : RuntimeTask fold Unit := do
  let jobId := "install-" ++ game.id ++ "-" ++ manifest.buildId
  let totals ← runtime.download manifest jobId
  tryCatch (runtime.installManifest game manifest) fun failure ↦ do
    runtime.saveDownloadJob (runtime.failedJob manifest jobId totals failure)
    fail failure
  runtime.refreshAsync

def installAsync (gameId : Text) : RuntimeTask fold Unit := do
  let game ← query fun state ↦ orThrow (runtime.findGame state.snapshot gameId)
    (.launcherOperation ("Game was not found in the catalog: " ++ gameId))
  let buildId ← query fun _ ↦ orThrow (publishedBuild game)
    (.launcherOperation ("No published build is available for " ++ game.title ++ "."))
  let manifest ← runtime.getSignedManifest buildId
  runtime.installGame game manifest

/-! ### What an installation records -/

variable {buildId : Text} {game : RuntimeGame} {manifest : Manifest}

def AnswersManifest (time : ℕ) (buildId : Text) (manifest : Manifest) : Prop :=
  ∃ bytes, runtime.services.manifestAnswer time buildId = .ok bytes ∧
    runtime.services.deserialize bytes = some manifest

/-- The table has the row of a build of a game at a root, and is otherwise what it was. -/
def RecordsInstall (game : RuntimeGame) (buildId : Text) (root : Path)
    (before after : Table InstalledGame InstalledGame.gameId) : Prop :=
  ∃ row : InstalledGame, row.gameId = game.id ∧ row.buildId = buildId ∧ row.installRoot = root ∧
    after = before.upsert row

theorem recordsInstall_upsert_iff {root : Path} {before : Table InstalledGame InstalledGame.gameId}
    {time : ℕ} :
    RecordsInstall game buildId root before (before.upsert (installedGame manifest root time)) ↔
      manifest.gameId = game.id ∧ manifest.buildId = buildId := by
  constructor
  · rintro ⟨row, hgame, hbuild, -, hrows⟩
    have hhead : installedGame manifest root time = row :=
      (List.cons.inj (congrArg Table.rows hrows)).1
    rw [← hhead] at hgame hbuild
    exact ⟨hgame, hbuild⟩
  · rintro ⟨hgame, hbuild⟩
    exact ⟨installedGame manifest root time, hgame, hbuild, rfl, rfl⟩

variable {runtime}

omit runtime in
theorem advances_runInstaller {α : Type} {relation : World fold → World fold → Prop}
    {task : Task fold α} (h : Advances relation task) :
    Advances (Order.Preimage RuntimeState.world relation) (runInstaller task) := by
  intro state
  obtain ⟨hvisited, hfinal⟩ := h state.world
  refine ⟨fun reached hreached ↦ ?_, hfinal⟩
  obtain ⟨world, hworld, rfl⟩ := List.mem_map.mp hreached
  exact hvisited world hworld

theorem mayWrite_installManifest :
    Advances (Order.Preimage RuntimeState.world (MayWrite manifest (runtime.installRoot game)))
      (runtime.installManifest game manifest) := by
  refine advances_bind advances_query fun transactionId ↦ ?_
  cases game.installed with
  | some installed =>
    exact advances_bind (advances_runInstaller (savesOnce_updateAsync _ _).mayWrite)
      fun _ ↦ advances_pure
  | none => exact advances_runInstaller (savesOnce_installAsync _).mayWrite

variable {state : RuntimeState fold}

theorem installManifest_writes (h : (runtime.installManifest game manifest state).result = .ok ()) :
    Written manifest (runtime.installRoot game) state.world
      (runtime.installManifest game manifest state).final.world := by
  have hquery : (runtime.installManifest game manifest) state = (match game.installed with
      | some installed =>
        runInstaller (updateAsync runtime.env installed.manifest manifest
          (runtime.installRoot game) (runtime.services.newGuid state.world.clock)) >>=
          fun _ ↦ pure ()
      | none =>
        runInstaller (Installation.installAsync runtime.env manifest (runtime.installRoot game)
          (runtime.services.newGuid state.world.clock))) state :=
    query_bind_of_ok rfl
  rw [hquery] at h ⊢
  cases hinstalled : game.installed with
  | some installed =>
    simp only [hinstalled] at h ⊢
    obtain ⟨summary, hsummary, -⟩ := result_bind_eq_ok.mp h
    rw [final_bind_of_ok hsummary]
    cases hupdate : (updateAsync runtime.env installed.manifest manifest
        (runtime.installRoot game) (runtime.services.newGuid state.world.clock)
        state.world).result with
    | ok value => exact (savesOnce_updateAsync _ _).written _ value hupdate
    | error failure => simp [runInstaller, hupdate, Except.mapError] at hsummary
  | none =>
    simp only [hinstalled] at h ⊢
    cases hinstall : (Installation.installAsync runtime.env manifest (runtime.installRoot game)
        (runtime.services.newGuid state.world.clock) state.world).result with
    | ok value => exact (savesOnce_installAsync _).written _ value hinstall
    | error failure => simp [runInstaller, hinstall, Except.mapError] at h

theorem installed_download {jobId : Text} (state : RuntimeState fold) :
    (runtime.download manifest jobId state).final.world.installed = state.world.installed := rfl

theorem installed_refreshAsync (state : RuntimeState fold) :
    (runtime.refreshAsync state).final.world.installed = state.world.installed := by
  unfold refreshAsync step
  cases hrefresh : runtime.services.refresh state.world.clock <;> simp only [hrefresh] <;> rfl

theorem answersManifest_of_getSignedManifest
    (h : (runtime.getSignedManifest buildId state).result = .ok manifest) :
    runtime.AnswersManifest state.world.clock buildId manifest := by
  obtain ⟨⟨found, bytes⟩, hfound, hrest⟩ := result_bind_eq_ok.mp h
  have hfound : runtime.getManifestWithBytes state.world.clock buildId = .ok (found, bytes) := hfound
  obtain ⟨signature, hsignature, hrest⟩ := result_bind_eq_ok.mp hrest
  obtain ⟨verified, hverified, hend⟩ := result_bind_eq_ok.mp hrest
  obtain rfl : found = manifest := Except.ok.inj hend
  simp only [getManifestWithBytes, bind_eq_ok, orThrow_eq_ok, pure_eq_ok, Prod.mk.injEq] at hfound
  obtain ⟨answer, hanswer, parsed, hparsed, -, -, rfl, rfl⟩ := hfound
  exact ⟨answer, hanswer, hparsed⟩

theorem silent_getSignedManifest : Silent (runtime.getSignedManifest buildId) :=
  silent_bind silent_query fun _ ↦ silent_bind silent_query fun _ ↦
    silent_bind silent_query fun _ ↦ silent_pure

theorem final_getSignedManifest : (runtime.getSignedManifest buildId state).final = state :=
  (silent_getSignedManifest state).2

theorem installGame_saves (h : (runtime.installGame game manifest state).result = .ok ()) :
    ∃ time, (runtime.installGame game manifest state).final.world.installed =
      state.world.installed.upsert (installedGame manifest (runtime.installRoot game) time) := by
  obtain ⟨totals, htotals, hrest⟩ := result_bind_eq_ok.mp h
  obtain ⟨_, hguarded, -⟩ := result_bind_eq_ok.mp hrest
  have hinstall := result_of_tryCatch_fail hguarded
  obtain ⟨time, htime⟩ := (installManifest_writes hinstall).installed
  refine ⟨time, ?_⟩
  rw [installGame, final_bind_of_ok htotals, final_bind_of_ok hguarded, installed_refreshAsync,
    final_tryCatch_of_ok hinstall, htime, installed_download]

theorem installAsync_saves {gameId : Text} (h : (runtime.installAsync gameId state).result = .ok ())
    :
    ∃ game buildId manifest time, runtime.findGame state.snapshot gameId = some game ∧
      publishedBuild game = some buildId ∧
      runtime.AnswersManifest state.world.clock buildId manifest ∧
      (runtime.installAsync gameId state).final.world.installed = state.world.installed.upsert
          (installedGame manifest (runtime.installRoot game) time) := by
  obtain ⟨game, hgame, hrest⟩ := result_bind_eq_ok.mp h
  obtain ⟨buildId, hbuild, hrest⟩ := result_bind_eq_ok.mp hrest
  obtain ⟨manifest, hmanifest, hrest⟩ := result_bind_eq_ok.mp hrest
  rw [final_getSignedManifest] at hrest
  obtain ⟨time, htime⟩ := installGame_saves hrest
  refine ⟨game, buildId, manifest, time, orThrow_eq_ok.mp hgame, orThrow_eq_ok.mp hbuild,
    answersManifest_of_getSignedManifest hmanifest, ?_⟩
  rw [installAsync, final_bind_of_ok hgame, final_bind_of_ok hbuild, final_bind_of_ok hmanifest,
    final_getSignedManifest]
  exact htime

/-! ### A launcher and an API that answers one manifest -/

/-- The hash of no bytes, and a text of its own for any other bytes. -/
def sampleHash (bytes : Bytes) : Text :=
  if bytes = [] then
    "af1349b9f5f9a1a6a0404dea36dcc9499bcb25c9adc112b7cc9a93cae41f3262"
  else toHex bytes

/-- The manifest that the API answers, the first build of the first game. -/
def answeredManifest : Manifest :=
  ManifestValidator.emptyFilesManifest ["game.exe"] "game.exe"

/-- Services whose API answers every request with one manifest, signed by the trusted key. -/
def sampleServices : Services Bytes where
  manifestAnswer := fun _ _ ↦ .ok [123, 125]
  signatureAnswer := fun _ _ ↦ .ok {
    schemaVersion := 1
    algorithm := "rsa-sha256-pkcs1-v1_5"
    keyId := "key"
    manifestBlake3 := sampleHash [123, 125]
    signatureBase64 := Base64.encode [7, 123, 125]
    publicKeyBase64 := none }
  deserialize := fun bytes ↦ if bytes = [123, 125] then some answeredManifest else none
  fromBase64String := Base64.decode
  toBase64String := Base64.encode
  importFromPem := fun pem ↦ if pem = "pem" then some [7] else none
  verifyData := fun key bytes signature ↦ decide (signature = key ++ bytes)
  download := fun _ jobs manifest jobId ↦ {
    result := .ok ()
    jobs := jobs.upsert {
      jobId := jobId, buildId := manifest.buildId, state := .ready, downloadedBytes := 0,
      totalBytes := 0, updatedAt := 0, lastError := none }
    downloadedBytes := 0
    totalBytes := 0 }
  refresh := fun _ ↦ .ok { games := [] }
  newGuid := fun _ ↦ "0123456789abcdef0123456789abcdef"
  utcNow := fun time ↦ time
  message := fun _ ↦ ""
  isInvalidFileNameChar := fun c ↦ decide (c = '/')
  combine := fun first second ↦ first ++ "/" ++ second
  getFullPath := fun path ↦ path.splitOn '/'

def sampleRuntime : LauncherRuntime Bytes id where
  env := quietEnvironment id ManifestValidator.asciiUnicode
    asciiUnicode_upper sampleHash (fun _ ↦ none) some
  services := sampleServices
  settings := {
    trustedManifestKeysPem := some [("key", "pem")]
    requireTrustedManifestKeys := true
    defaultGameDirectory := none
    gamesPath := "games" }

/-- An empty machine, and a snapshot that names a build of the first game. -/
def sampleState (buildId : Text) : RuntimeState id where
  world := {
    tree := .emptyRoot
    installed := .empty
    clock := 0
    savedAt := none }
  jobs := .empty
  snapshot := { games := [{
    id := "game-1"
    slug := "game"
    title := "Game"
    buildId := some buildId
    installed := none }] }

/-! ### The result -/

/-- **An installation records what was asked for exactly when the API answers the manifest of the
game and the build of the request.** -/
theorem installAsync_records_iff (runtime : LauncherRuntime Key fold) (gameId : Text)
    (state : RuntimeState fold) (h : (runtime.installAsync gameId state).result = .ok ()) :
    ∃ game buildId manifest, runtime.findGame state.snapshot gameId = some game ∧
      publishedBuild game = some buildId ∧
      runtime.AnswersManifest state.world.clock buildId manifest ∧
      (RecordsInstall game buildId (runtime.installRoot game) state.world.installed
          (runtime.installAsync gameId state).final.world.installed ↔
        manifest.gameId = game.id ∧ manifest.buildId = buildId) := by
  obtain ⟨game, buildId, manifest, time, hgame, hbuild, hanswer, hsaved⟩ := installAsync_saves h
  refine ⟨game, buildId, manifest, hgame, hbuild, hanswer, ?_⟩
  rw [hsaved]
  exact recordsInstall_upsert_iff

/-- The sample launcher installs the build that its snapshot names. -/
theorem installAsync_records_iff_sample :
    (sampleRuntime.installAsync "game-1" (sampleState "build-1")).result = .ok () ∧
      ∃ game buildId manifest,
        sampleRuntime.findGame (sampleState "build-1").snapshot "game-1" = some game ∧
        publishedBuild game = some buildId ∧ sampleRuntime.AnswersManifest 0 buildId manifest ∧
        (RecordsInstall game buildId (sampleRuntime.installRoot game)
            (sampleState "build-1").world.installed
            (sampleRuntime.installAsync "game-1"
              (sampleState "build-1")).final.world.installed ↔
          manifest.gameId = game.id ∧ manifest.buildId = buildId) := by
  have hok : (sampleRuntime.installAsync "game-1"
      (sampleState "build-1")).result = .ok () := by decide
  exact ⟨hok, installAsync_records_iff _ _ _ hok⟩

/-- The snapshot names the second build of the game. The API answers the signed manifest of the
first one, and that is what the call installs and records. -/
theorem installAsync_installs_older_build :
    ∃ game, sampleRuntime.findGame (sampleState "build-2".toList).snapshot "game-1".toList =
        some game ∧
      publishedBuild game = some "build-2".toList ∧
      (sampleRuntime.installAsync "game-1".toList (sampleState "build-2".toList)).result = .ok () ∧
      (sampleRuntime.installAsync "game-1".toList
        (sampleState "build-2".toList)).final.world.installed.rows.map InstalledGame.buildId =
          ["build-1".toList] ∧
      ¬ RecordsInstall game "build-2".toList (sampleRuntime.installRoot game)
        (sampleState "build-2".toList).world.installed
        (sampleRuntime.installAsync "game-1".toList
          (sampleState "build-2".toList)).final.world.installed := by
  have hrows : (sampleRuntime.installAsync "game-1".toList
      (sampleState "build-2".toList)).final.world.installed.rows.map InstalledGame.buildId =
        ["build-1".toList] := by decide
  refine ⟨_, rfl, rfl, by decide, hrows, ?_⟩
  rintro ⟨row, -, hbuild, -, hafter⟩
  rw [hafter, Table.upsert, List.map_cons, List.cons.injEq, hbuild] at hrows
  exact absurd hrows.1 (by decide)

end LauncherRuntime

end GameLauncher.Installation
