import GameLauncher.Downloads.JobRows
import GameLauncher.Installation.LauncherRuntime

/-!
# Installations and restarts

`LauncherRuntime.InstallAsync` with the download of `DownloadManager.DownloadAsync` in place of an
answer, and `LauncherRuntime.InitializeAsync`. Both work on a `Store`, the world of the installer
and the rows of the download jobs, and both can be stopped after any number of their steps. A
`Ledger` is a store with the installations that have led to it, each with the store that it started
from; `Ledger.run` takes it through installations and restarts in any order.

Every event has its own answers of the outside world. A schedule that leaves a task of a download
without its end is allowed as well, which adds runs that the program does not have.

Left out, as before: progress reports of the installation and the gate that runs one operation at a
time.
-/

set_option autoImplicit false

namespace GameLauncher.Installation

open Foundation Fallible Manifests Process
open Downloads (PersistedDownloadJob DownloadCall CallState CallProcess OthersKept)

variable {Key : Type} {fold : Char → Char}

/-! ### Stores -/

/-- The world of the installer and the rows of the download jobs. -/
structure StoreState (fold : Char → Char) where
  world : World fold
  rows : Text → Option PersistedDownloadJob

/-- What is on the disk between two runs. -/
structure Store (fold : Char → Char) extends StoreState fold where
  wellTimed : world.WellTimed

/-- The table of installed games has been written since a time. -/
def SavedSince (before after : World fold) : Prop :=
  ∃ saved, after.savedAt = some saved ∧ before.clock < saved

/-! ### A run of `InstallAsync` -/

/-- What a run acts on: the world of the installer, the download with the rows of the jobs, and the
current snapshot. -/
structure JobState (fold : Char → Char) where
  world : World fold
  call : CallState
  snapshot : LauncherRuntimeSnapshot

/-- A method of the runtime. -/
abbrev JobTask (fold : Char → Char) (α : Type) := Process (JobState fold) RuntimeFailure α

/-- A part of the runtime that does not touch the jobs. -/
def inRuntime {α : Type} (task : RuntimeTask fold α) : JobTask fold α :=
  onPart (fun state ↦ { world := state.world, jobs := .empty, snapshot := state.snapshot })
    (fun reached state ↦ { state with world := reached.world, snapshot := reached.snapshot }) task

def inDownload {α : Type} (process : CallProcess α) : JobTask fold α := fun state ↦
  { visited := (process state.call).visited.map fun call ↦ { state with call := call }
    result := (process state.call).result.mapError fun _ ↦ .download
    final := { state with call := (process state.call).final } }

/-- A run of `InstallAsync`: the launcher and its snapshot, the game asked for, the answers that the
download gets with the caches and the order of its tasks, and how many steps there are before the
process is stopped. -/
structure InstallRun (Key : Type) (fold : Char → Char) where
  runtime : LauncherRuntime Key fold
  snapshot : LauncherRuntimeSnapshot
  gameId : Text
  answers : DownloadCall
  session : Downloads.Session
  schedule : List Downloads.TaskEvent
  stop : Option ℕ

def installJobId (game : RuntimeGame) (manifest : Manifest) : Text :=
  "install-" ++ game.id ++ "-" ++ manifest.buildId

namespace InstallRun

variable (run : InstallRun Key fold) (game : RuntimeGame) (manifest : Manifest)

def call : DownloadCall :=
  { run.answers with
    manifest := manifest
    jobId := installJobId game manifest
    unicode := run.runtime.env.unicode }

def start (store : Store fold) : JobState fold where
  world := store.world
  call := {
    session := run.session
    transfer := .start run.session ⟨[], 0, 0⟩ []
    reports := fun _ ↦ .pending
    lastPersistedBytes := -1
    lastPersistedAt := 0
    rows := store.rows
    calls := 0 }
  snapshot := run.snapshot

/-- The game that is asked for, with the signed manifest of its build. -/
def request : JobTask fold (RuntimeGame × Manifest) :=
  inRuntime do
    let game ← query fun state ↦ orThrow (run.runtime.findGame state.snapshot run.gameId)
      (.launcherOperation ("Game was not found in the catalog: " ++ run.gameId))
    let buildId ← query fun _ ↦ orThrow (LauncherRuntime.publishedBuild game)
      (.launcherOperation
        ("No published build is available for " ++ game.title ++ "."))
    let manifest ← run.runtime.getSignedManifest buildId
    return (game, manifest)

def saveDownloadJob (job : ℕ → PersistedDownloadJob) : JobTask fold Unit :=
  step fun state ↦
    if run.runtime.env.databaseFault state.world.clock then
      (.error .database, { state with world := state.world.tick })
    else (.ok (), { state with
      world := state.world.tick
      call := { state.call with
        rows := Function.update state.call.rows (job state.world.clock).jobId
          (some (job state.world.clock)) } })

/-- The installation after the download, with its `catch`. -/
def install (totals : ℕ × ℕ) : JobTask fold Unit :=
  tryCatch (inRuntime (run.runtime.installManifest game manifest)) fun failure ↦ do
    run.saveDownloadJob (run.runtime.failedJob manifest (installJobId game manifest) totals failure)
    fail failure

/-- `InstallAsync`, from the download on. -/
def installGame : JobTask fold Unit := do
  let summary ← inDownload ((run.call game manifest).downloadAsync run.schedule)
  run.install game manifest (summary.preparedBytes, (run.call game manifest).totalBytes)
  inRuntime run.runtime.refreshAsync

def installAsync : JobTask fold Unit := do
  let found ← run.request
  run.installGame found.1 found.2

def reached (store : Store fold) : JobState fold :=
  (run.installAsync (run.start store)).reached (run.start store) run.stop

/-! ### What a run does to the world and to the rows -/

/-- The rows of the other jobs are kept, and the row of the manifest is written or nothing. -/
def MayChange (before after : JobState fold) : Prop :=
  OthersKept (installJobId game manifest) before.call after.call ∧
    MayWrite manifest (run.runtime.installRoot game) before.world after.world

instance : IsPreorder (JobState fold) (run.MayChange game manifest) where
  refl := fun state ↦ ⟨fun _ _ ↦ rfl, .inl (Untouched.refl state.world)⟩
  trans := fun _ _ _ hfirst hsecond ↦
    ⟨trans_of (OthersKept _) hfirst.1 hsecond.1, hfirst.2.trans hsecond.2⟩

variable {run game manifest}

theorem mayChange_inRuntime {α : Type} {task : RuntimeTask fold α}
    (h : Advances (Order.Preimage RuntimeState.world
      (MayWrite manifest (run.runtime.installRoot game))) task) :
    Advances (run.MayChange game manifest) (inRuntime task) :=
  advances_onPart h fun _ _ hworld ↦ ⟨fun _ _ ↦ rfl, hworld⟩

theorem mayChange_inDownload {α : Type} {process : CallProcess α}
    (h : Advances (OthersKept (installJobId game manifest)) process) :
    Advances (run.MayChange game manifest) (inDownload process) := by
  intro state
  obtain ⟨hvisited, hfinal⟩ := h state.call
  refine ⟨fun reached hreached ↦ ?_, hfinal, .inl (Untouched.refl state.world)⟩
  obtain ⟨call, hcall, rfl⟩ := List.mem_map.mp hreached
  exact ⟨hvisited call hcall, .inl (Untouched.refl state.world)⟩

theorem mayChange_saveDownloadJob {job : ℕ → PersistedDownloadJob}
    (hjob : ∀ time, (job time).jobId = installJobId game manifest) :
    Advances (run.MayChange game manifest) (run.saveDownloadJob job) := by
  refine advances_step fun state ↦ ?_
  cases run.runtime.env.databaseFault state.world.clock with
  | true => exact ⟨fun _ _ ↦ rfl, .inl (untouched_tick state.world)⟩
  | false =>
    refine ⟨fun other hother ↦ ?_, .inl (untouched_tick state.world)⟩
    exact Function.update_of_ne (hjob state.world.clock ▸ hother) ..

theorem mayChange_installGame : Advances (run.MayChange game manifest)
    (run.installGame game manifest) := by
  refine advances_bind (mayChange_inDownload Downloads.DownloadCall.othersKept_downloadAsync)
    fun summary ↦ advances_bind (advances_tryCatch ?_ fun failure ↦ ?_) fun _ ↦ ?_
  · exact mayChange_inRuntime LauncherRuntime.mayWrite_installManifest
  · exact advances_bind (mayChange_saveDownloadJob fun _ ↦ rfl) fun _ ↦ advances_fail
  · refine mayChange_inRuntime (advances_step fun state ↦ ?_)
    cases run.runtime.services.refresh state.world.clock <;> exact .inl (untouched_tick state.world)

theorem silent_request : Silent run.request :=
  silent_onPart (silent_bind silent_query fun _ ↦ silent_bind silent_query fun _ ↦
    silent_bind LauncherRuntime.silent_getSignedManifest fun _ ↦ silent_pure) fun _ ↦ rfl

theorem installAsync_of_request {state : JobState fold}
    (h : (run.request state).result = .ok (game, manifest)) :
    run.installAsync state = run.installGame game manifest state := by
  rw [installAsync, silent_request.bind_of_ok h]

theorem installAsync_of_error {state : JobState fold} {failure : RuntimeFailure}
    (h : (run.request state).result = .error failure) :
    run.installAsync state = ⟨[], .error failure, state⟩ := by
  rw [installAsync, silent_request.bind_of_error h]

variable (run)

theorem mayChange_reached {store : Store fold}
    (h : (run.request (run.start store)).result = .ok (game, manifest)) :
    run.MayChange game manifest (run.start store) (run.reached store) := by
  unfold reached
  rw [installAsync_of_request h]
  exact mayChange_installGame.reached (run.start store) run.stop

theorem reached_of_error {store : Store fold} {failure : RuntimeFailure}
    (h : (run.request (run.start store)).result = .error failure) :
    run.reached store = run.start store := by
  unfold reached
  rw [installAsync_of_error h]
  rcases Outcome.reached_cases ⟨[], Except.error failure, run.start store⟩ (run.start store)
    run.stop with hreached | hreached | hreached
  · exact hreached
  · exact absurd hreached List.not_mem_nil
  · exact hreached

theorem wellTimed_reached (store : Store fold) : (run.reached store).world.WellTimed := by
  cases hrequest : (run.request (run.start store)).result with
  | ok found => exact (run.mayChange_reached hrequest).2.wellTimed store.wellTimed
  | error failure =>
    rw [run.reached_of_error hrequest]
    exact store.wellTimed

def leaves (store : Store fold) : Store fold where
  world := (run.reached store).world
  rows := (run.reached store).call.rows
  wellTimed := run.wellTimed_reached store

/-! ### What a run records -/

/-- The run has written the record of a job: it has found its game and manifest, the download has not
thrown before its first record, and the process has not been stopped before. -/
def Writes (store : Store fold) (jobId : Text) : Prop :=
  ∃ game manifest, (run.request (run.start store)).result = .ok (game, manifest) ∧
    jobId = installJobId game manifest ∧
    ¬ (run.call game manifest).StopsEarly (run.start store).call ∧ run.stop ≠ some 0

/-- The run has saved the game and the build of a job in the table of installed games. -/
def Saves (store : Store fold) (jobId : Text) : Prop :=
  ∃ game manifest, (run.request (run.start store)).result = .ok (game, manifest) ∧
    jobId = installJobId game manifest ∧ SavedSince store.world (run.leaves store).world ∧
    LauncherRuntime.RecordsInstall game manifest.buildId (run.runtime.installRoot game)
      store.world.installed (run.leaves store).world.installed

end InstallRun

/-! ### A restart -/

/-- A start of the launcher: the launcher, how the initialization of its chunk cache ends, and how
many steps there are before the process is stopped. -/
structure Startup (Key : Type) (fold : Char → Char) where
  runtime : LauncherRuntime Key fold
  cacheAnswer : Except RuntimeFailure Unit
  stop : Option ℕ

/-- A part of `InitializeAsync`. -/
abbrev StartupTask (fold : Char → Char) (α : Type) :=
  Process (StoreState fold) RuntimeFailure α

/-- A part of the initialization that does not touch the jobs. -/
def inWorld {α : Type} (task : Task fold α) : StartupTask fold α := fun state ↦
  { visited := (task state.world).visited.map fun world ↦ { state with world := world }
    result := (task state.world).result.mapError .installer
    final := { state with world := (task state.world).final } }

/-- The roots are collected in a set that compares paths without case. -/
def addRoot (unicode : Unicode) (roots : List Path) (root : Path) : List Path :=
  if roots.any fun other ↦ pathEqualsIgnoreCase unicode other root then roots else roots ++ [root]

namespace Startup

variable (startup : Startup Key fold)

/-- A statement on the local database, which may fail. -/
def statement {α : Type} (action : StoreState fold → α × StoreState fold) : StartupTask fold α :=
  step fun state ↦
    if startup.runtime.env.databaseFault state.world.clock then
      (.error .database, { state with world := state.world.tick })
    else (.ok (action state).1, { (action state).2 with world := (action state).2.world.tick })

/-- `AddImmediateDirectories`. -/
def immediateDirectories (directory : Text) : Task fold (List Path) :=
  tryCatch
    (do
      let found ← inspect fun tree ↦
        tree.directoryExists (startup.runtime.services.getFullPath directory)
      if found then
        enumerateDirectories startup.runtime.env
          (startup.runtime.services.getFullPath directory) fun _ ↦ true
      else pure [])
    fun failure ↦
      match failure with
      | .io _ => pure []
      | failure => fail failure

def recoverInstallations : StartupTask fold Unit := do
  let installed ← startup.statement fun state ↦ (state.world.installed.rows, state)
  let games ← inWorld (startup.immediateDirectories startup.runtime.settings.gamesPath)
  let others ←
    match startup.runtime.settings.defaultGameDirectory.filter fun directory ↦
      !isNullOrWhiteSpace directory with
    | some directory => inWorld (startup.immediateDirectories directory)
    | none => pure []
  let roots := (installed.map InstalledGame.installRoot ++ games ++ others).foldl
    (addRoot startup.runtime.env.unicode) []
  forEach (fun root (_ : Unit) ↦ inWorld (recoverAsync startup.runtime.env true root)) roots ()

def failInterrupted (time : ℕ) (job : PersistedDownloadJob) : PersistedDownloadJob :=
  if job.state.isTerminal then job
  else { job with
    state := .failed
    lastError := some "Download was interrupted; choose Install to retry."
    updatedAt := startup.runtime.services.utcNow time }

def failInterruptedDownloadJobs : StartupTask fold Unit :=
  startup.statement fun state ↦
    ((), { state with
      rows := fun jobId ↦ (state.rows jobId).map (startup.failInterrupted state.world.clock) })

def initializeAsync : StartupTask fold LauncherRuntimeSnapshot := do
  startup.statement fun state ↦ ((), state)
  query fun _ ↦ startup.cacheAnswer
  startup.recoverInstallations
  startup.failInterruptedDownloadJobs
  query fun state ↦ startup.runtime.services.refresh state.world.clock

/-- The state in which the initialization stops, or ends. -/
def reached (store : Store fold) : StoreState fold :=
  (startup.initializeAsync store.toStoreState).reached store.toStoreState startup.stop

/-! ### What a restart does to the world and to the rows -/

/-- The table of installed games is left alone, and a job that is `Ready` has been so before. -/
def MayRecover (before after : StoreState fold) : Prop :=
  Untouched before.world after.world ∧ ∀ jobId job, after.rows jobId = some job →
    job.state = .ready → ∃ earlier, before.rows jobId = some earlier ∧ earlier.state = .ready

instance : IsPreorder (StoreState fold) MayRecover where
  refl := fun state ↦ ⟨Untouched.refl state.world, fun _ job hjob hready ↦ ⟨job, hjob, hready⟩⟩
  trans := fun _ _ _ hfirst hsecond ↦ ⟨hfirst.1.trans hsecond.1, fun jobId job hjob hready ↦ by
    obtain ⟨earlier, hearlier, hstate⟩ := hsecond.2 jobId job hjob hready
    exact hfirst.2 jobId earlier hearlier hstate⟩

theorem mayRecover_inWorld {α : Type} {task : Task fold α} (h : TreeOnly task) :
    Advances MayRecover (inWorld task) := by
  intro state
  obtain ⟨hvisited, hfinal⟩ := h state.world
  refine ⟨fun reached hreached ↦ ?_, hfinal, fun _ job hjob hready ↦ ⟨job, hjob, hready⟩⟩
  obtain ⟨world, hworld, rfl⟩ := List.mem_map.mp hreached
  exact ⟨hvisited world hworld, fun _ job hjob hready ↦ ⟨job, hjob, hready⟩⟩

variable {startup}

theorem mayRecover_statement {α : Type} {action : StoreState fold → α × StoreState fold}
    (h : ∀ state, MayRecover state (action state).2) :
    Advances MayRecover (startup.statement action) := by
  refine advances_step fun state ↦ ?_
  cases startup.runtime.env.databaseFault state.world.clock with
  | true => exact ⟨untouched_tick state.world, fun _ job hjob hready ↦ ⟨job, hjob, hready⟩⟩
  | false => exact ⟨(h state).1.trans (untouched_tick _), (h state).2⟩

theorem treeOnly_immediateDirectories {directory : Text} :
    TreeOnly (startup.immediateDirectories directory) := by
  refine advances_tryCatch (advances_bind treeOnly_inspect fun _ ↦
    advances_ite treeOnly_enumerate advances_pure) fun failure ↦ ?_
  cases failure
  case io => exact advances_pure
  all_goals exact advances_fail

theorem mayRecover_recoverInstallations : Advances MayRecover startup.recoverInstallations := by
  refine advances_bind (mayRecover_statement fun state ↦ refl_of MayRecover state) fun _ ↦ ?_
  refine advances_bind (mayRecover_inWorld treeOnly_immediateDirectories) fun _ ↦ ?_
  have hrecover (roots : List Path) : Advances MayRecover (forEach
      (fun root (_ : Unit) ↦ inWorld (recoverAsync startup.runtime.env true root)) roots ()) :=
    advances_forEach (fun _ _ ↦ mayRecover_inWorld treeOnly_recoverAsync) _ _
  cases startup.runtime.settings.defaultGameDirectory.filter fun directory ↦
    !isNullOrWhiteSpace directory with
  | some directory =>
    exact advances_bind (mayRecover_inWorld treeOnly_immediateDirectories) fun _ ↦ hrecover _
  | none => exact advances_bind advances_pure fun _ ↦ hrecover _

theorem ready_failInterrupted {time : ℕ} {job : PersistedDownloadJob}
    (h : (startup.failInterrupted time job).state = .ready) : job.state = .ready := by
  unfold failInterrupted at h
  by_cases hterminal : job.state.isTerminal = true
  · rwa [if_pos hterminal] at h
  · rw [if_neg hterminal] at h
    cases h

theorem mayRecover_initializeAsync : Advances MayRecover startup.initializeAsync := by
  refine advances_bind (mayRecover_statement fun state ↦ refl_of MayRecover state) fun _ ↦ ?_
  refine advances_bind advances_query fun _ ↦ ?_
  refine advances_bind mayRecover_recoverInstallations fun _ ↦ ?_
  refine advances_bind (mayRecover_statement fun state ↦ ?_) fun _ ↦ advances_query
  refine ⟨Untouched.refl state.world, fun jobId job hjob hready ↦ ?_⟩
  obtain ⟨earlier, hearlier, rfl⟩ := Option.map_eq_some_iff.mp hjob
  exact ⟨earlier, hearlier, ready_failInterrupted hready⟩

variable (startup)

theorem mayRecover_reached (store : Store fold) :
    MayRecover store.toStoreState (startup.reached store) :=
  mayRecover_initializeAsync.reached store.toStoreState startup.stop

/-- What the initialization leaves on the disk. -/
def leaves (store : Store fold) : Store fold where
  toStoreState := startup.reached store
  wellTimed := (startup.mayRecover_reached store).1.wellTimed store.wellTimed

end Startup

/-! ### Sequences of installations and restarts -/

/-- What happens to a store. -/
inductive JobEvent (Key : Type) (fold : Char → Char)
  | install (run : InstallRun Key fold)
  | restart (startup : Startup Key fold)

/-- A store, and the installations that have led to it with the stores that they started from, the
last one first. -/
structure Ledger (Key : Type) (fold : Char → Char) where
  store : Store fold
  log : List (InstallRun Key fold × Store fold)

namespace Ledger

/-- A store without jobs. -/
def ofWorld (world : World fold) (h : world.WellTimed) : Ledger Key fold where
  store := { world := world, rows := fun _ ↦ none, wellTimed := h }
  log := []

def next (ledger : Ledger Key fold) : JobEvent Key fold → Ledger Key fold
  | .install run => { store := run.leaves ledger.store, log := (run, ledger.store) :: ledger.log }
  | .restart startup => { ledger with store := startup.leaves ledger.store }

/-- The ledger after a sequence of events. -/
def run (ledger : Ledger Key fold) (events : List (JobEvent Key fold)) : Ledger Key fold :=
  events.foldl next ledger

/-- The installation that last wrote the record of a job. -/
def LastWriter (ledger : Ledger Key fold) (jobId : Text) (run : InstallRun Key fold)
    (store : Store fold) : Prop :=
  ∃ later earlier, ledger.log = later ++ (run, store) :: earlier ∧ run.Writes store jobId ∧
    ∀ entry ∈ later, ¬ entry.1.Writes entry.2 jobId

/-- Ready means installed: a job is `Ready` only if the installation that last wrote its record has
saved its game and build. -/
def ReadyMeansInstalled (ledger : Ledger Key fold) : Prop :=
  ∀ jobId job, ledger.store.rows jobId = some job → job.state = .ready →
    ∃ run store, ledger.LastWriter jobId run store ∧ run.Saves store jobId

end Ledger

/-! ### Where the installed games come from -/

/-- The row is that of the game and the manifest that the run has found. -/
def InstallRun.Installs (run : InstallRun Key fold) (store : Store fold) (row : InstalledGame) :
    Prop :=
  ∃ game manifest time, (run.request (run.start store)).result = .ok (game, manifest) ∧
    row = installedGame manifest (run.runtime.installRoot game) time

/-- Every installed game was there before or is that of an installation in the log, and no game that
was installed is missing. -/
structure Ledger.Explains (before after : Ledger Key fold) : Prop where
  installed : ∀ row ∈ after.store.world.installed, row ∈ before.store.world.installed ∨
    ∃ entry ∈ after.log, entry.1.Installs entry.2 row
  kept : ∀ row ∈ before.store.world.installed, ∃ kept ∈ after.store.world.installed,
    kept.gameId = row.gameId

theorem InstallRun.installed_leaves (run : InstallRun Key fold) (store : Store fold) :
    (run.leaves store).world.installed = store.world.installed ∨ ∃ row, run.Installs store row ∧
      (run.leaves store).world.installed = store.world.installed.upsert row := by
  cases hrequest : (run.request (run.start store)).result with
  | error failure => exact .inl (congrArg (·.world.installed) (run.reached_of_error hrequest))
  | ok found =>
    rcases (run.mayChange_reached hrequest).2 with huntouched | hwritten
    · exact .inl huntouched.installed
    · obtain ⟨time, htable⟩ := hwritten.installed
      exact .inr ⟨_, ⟨found.1, found.2, time, hrequest, rfl⟩, htable⟩

theorem Ledger.Explains.next {before ledger : Ledger Key fold} (h : before.Explains ledger)
    (event : JobEvent Key fold) : before.Explains (ledger.next event) := by
  cases event with
  | restart startup =>
    have htable := (startup.mayRecover_reached ledger.store).1.installed
    exact ⟨fun row hrow ↦ h.installed row (htable ▸ hrow), htable ▸ h.kept⟩
  | install run =>
    have hold (row : InstalledGame) (hrow : row ∈ ledger.store.world.installed) :=
      (h.installed row hrow).imp_right fun ⟨entry, hentry, hinstalls⟩ ↦
        (⟨entry, .tail (run, ledger.store) hentry, hinstalls⟩ :
          ∃ entry ∈ (ledger.next (.install run)).log, entry.1.Installs entry.2 row)
    rcases run.installed_leaves ledger.store with htable | ⟨made, hmade, htable⟩
    · exact ⟨fun row hrow ↦ hold row (htable ▸ hrow), htable ▸ h.kept⟩
    · refine ⟨fun row hrow ↦ ?_, fun row hrow ↦ ?_⟩
      · rcases Table.mem_upsert.mp (htable ▸ hrow) with rfl | ⟨hrow, -⟩
        · exact .inr ⟨_, .head _, hmade⟩
        · exact hold row hrow
      · obtain ⟨kept, hkept, hid⟩ := h.kept row hrow
        by_cases hgame : kept.gameId = made.gameId
        · exact ⟨made, htable ▸ Table.mem_upsert.mpr (.inl rfl), hgame.symm.trans hid⟩
        · exact ⟨kept, htable ▸ Table.mem_upsert.mpr (.inr ⟨hkept, hgame⟩), hid⟩

/-- Whatever installations and restarts follow, wherever they are stopped, the installed games are
those of the start and those of signed manifests that installations asked for. -/
theorem installed_games_explained (ledger : Ledger Key fold) (events : List (JobEvent Key fold)) :
    ledger.Explains (ledger.run events) :=
  (Reaches.refl.foldl (permitted_of_forall (fun _ _ ↦ trivial) _ events)).invariant ledger.Explains
    ⟨fun _ ↦ .inl, fun row hrow ↦ ⟨row, hrow, rfl⟩⟩ fun _ event h _ ↦ h.next event

end GameLauncher.Installation
