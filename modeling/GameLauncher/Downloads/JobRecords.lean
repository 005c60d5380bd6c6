import GameLauncher.Downloads.DownloadRuns

/-!
# The job records of a download

`DownloadAsync` with the records that it saves in the state store, and with a failure or a
cancellation at every point. The first part of the download is given by three processes
(`Operations`), which may end in any way and do anything to the caches; `Operations.ofNetwork` are
those of the download manager. The tasks run in the order of a schedule, in which every operation of
a task may throw, and report their progress; the answers of the store and of the progress receiver
are parameters as well.

The last record of a call is terminal, and is `Ready` exactly when the call returns, if and only if
nothing between the first record and the tasks throws, up to the exceptions of the pack path that
are caught, and the record of a failure can be saved (`endsTerminal_iff`).
-/

set_option autoImplicit false

namespace GameLauncher.Downloads

open Foundation Fallible Packs Manifests
open Process

/-! ### Records -/

inductive DownloadJobState
  | queued
  | resolving
  | downloading
  | verifyingEncoded
  | decompressing
  | verifyingRaw
  | ready
  | paused
  | cancelled
  | failed
  deriving DecidableEq, Repr

/-- The states that `FailInterruptedDownloadJobsAsync` leaves alone. -/
def DownloadJobState.isTerminal : DownloadJobState → Bool
  | .ready | .failed | .cancelled => true
  | _ => false

structure PersistedDownloadJob where
  jobId : Text
  buildId : Text
  state : DownloadJobState
  downloadedBytes : ℕ
  totalBytes : ℕ
  updatedAt : ℤ
  lastError : Option String
  deriving DecidableEq, Repr

/-! ### The first part -/

/-- The operations of the first part: the body of the `try` around the packs, the loop that looks for
the chunks that are missing, and the logical resolver. -/
structure Operations where
  packPhase : List ChunkRef → Download PackTotals
  unresolvedChunks : List ChunkRef → Download (List Text)
  resolveChunks : List Text → Download (List ResolvedChunk)

namespace Operations

/-- The operations of the download manager. -/
def ofNetwork (hash : Bytes → Digest) (network : Network) : Operations where
  packPhase := Downloads.packPhase hash network
  unresolvedChunks := Downloads.unresolvedChunks hash network
  resolveChunks := fun unresolved ↦ ask fun call ↦
    LauncherApiClient.resolveChunksAsync network call unresolved

variable (operations : Operations)

/-- The pack path, with its `catch`. -/
def downloadFromPacks (packsEnabled : Bool) (chunks : List ChunkRef) : Download PackTotals :=
  if packsEnabled then
    Process.tryCatch (operations.packPhase chunks) fun failure ↦
      if failure.endsPacks then pure { requested := [], networkBytes := 0, logicalBytes := 0 }
      else Process.fail failure
  else pure { requested := [], networkBytes := 0, logicalBytes := 0 }

/-- The logical resolver is asked when something is missing. -/
def resolveMissing (unresolved : List Text) : Download (List ResolvedChunk) :=
  if unresolved = [] then pure [] else operations.resolveChunks unresolved

/-- What happens between the first record and the tasks. -/
def prepare (packsEnabled : Bool) (chunks : List ChunkRef) :
    Download (PackTotals × List ResolvedChunk) := do
  let totals ← operations.downloadFromPacks packsEnabled chunks
  let unresolved ← operations.unresolvedChunks chunks
  let resolved ← operations.resolveMissing unresolved
  pure (totals, resolved)

end Operations

/-- The first part of the download manager is made of its operations. -/
theorem prepareAsync_eq (hash : Bytes → Digest) (network : Network) (unicode : Unicode)
    (packsEnabled : Bool) (manifest : Manifest) :
    prepareAsync hash network unicode packsEnabled manifest = (do
        raise ((ManifestValidator.validate unicode manifest).mapError .ofValidation)
        let _ ← raise (sumEncodedSizes (uniqueChunks manifest))
        (Operations.ofNetwork hash network).prepare packsEnabled (uniqueChunks manifest)) :=
  rfl

/-! ### A call -/

/-- How far the report of a task is. -/
inductive ReportState
  | pending
  /-- The record is to be saved, with so many bytes. -/
  | saving (downloadedBytes : ℕ)
  | ended
  | threw (exception : LauncherException)
  deriving DecidableEq, Repr

structure CallState where
  session : Session
  transfer : Transfer
  reports : Text → ReportState
  lastPersistedBytes : ℤ
  lastPersistedAt : ℤ
  rows : Text → Option PersistedDownloadJob
  calls : ℕ

inductive TaskEvent
  | advance (action : Action)
  /-- The operation that the task waits for throws. -/
  | throws (chunk : ChunkRef) (exception : LauncherException)
  /-- `ReportAsync`, up to the save. -/
  | report (chunk : ChunkRef)
  /-- The save of `ReportAsync`. -/
  | persist (chunk : ChunkRef)

def TaskEvent.chunk : TaskEvent → ChunkRef
  | .advance action => action.chunk
  | .throws chunk _ | .report chunk | .persist chunk => chunk

/-- A call of `DownloadAsync`, with the answers that it gets. -/
structure DownloadCall where
  manifest : Manifest
  jobId : Text
  packsEnabled : Bool
  unicode : Unicode
  hash : Bytes → Digest
  clock : ℕ → ℤ
  operations : Operations
  saveAnswer : ℕ → Except LauncherException Unit
  reportAnswer : ℕ → Except LauncherException Unit
  utcNow : ℕ → ℤ
  elapsed : ℕ → ℤ
  cancellationRequested : ℕ → Bool
  message : LauncherException → String

abbrev CallProcess (α : Type) := Process CallState LauncherException α

namespace DownloadCall

variable (call : DownloadCall)

/-- The chunks of the manifest, one for each encoded hash. -/
def chunks : List ChunkRef := uniqueChunks call.manifest

def totalBytes : ℕ := ((sumEncodedSizes call.chunks).toOption).getD 0

/-- `SaveJobAsync`: the row of the job, or an exception of the store. -/
def save (state : CallState) (jobState : DownloadJobState) (downloadedBytes : ℕ)
    (lastError : Option String) : Except LauncherException Unit × CallState :=
  match call.saveAnswer state.calls with
  | .error failure => (.error failure, { state with calls := state.calls + 1 })
  | .ok () =>
    (.ok (), { state with
      calls := state.calls + 1
      rows := Function.update state.rows call.jobId (some
        { jobId := call.jobId
          buildId := call.manifest.buildId
          state := jobState
          downloadedBytes
          totalBytes := call.totalBytes
          updatedAt := call.utcNow state.calls
          lastError }) })

@[inherit_doc save]
def saveJobAsync (jobState : DownloadJobState) (lastError : Option String) : CallProcess Unit :=
  Process.step fun state ↦ call.save state jobState state.transfer.summary.preparedBytes lastError

/-- The first record. -/
def saveResolving : CallProcess Unit := Process.step fun state ↦ call.save state .resolving 0 none

/-- `progress?.Report`. -/
def reportProgress : CallProcess Unit :=
  Process.step fun state ↦ (call.reportAnswer state.calls, { state with calls := state.calls + 1 })

/-- A value or an exception that does not depend on the state. -/
def check {α : Type} (outcome : Except LauncherException α) : CallProcess α :=
  Process.query fun _ ↦ outcome

/-- An operation of the first part. -/
def inSession {α : Type} (operation : Download α) : CallProcess α :=
  Process.onPart CallState.session (fun session state ↦ { state with session }) operation

/-- `DownloadAsync` up to the start of its tasks. -/
def beforeTasks : CallProcess (PackTotals × List ResolvedChunk) := do
  check ((ManifestValidator.validate call.unicode call.manifest).mapError .ofValidation)
  let _ ← check (sumEncodedSizes call.chunks)
  call.saveResolving
  call.reportProgress
  inSession (call.operations.prepare call.packsEnabled call.chunks)

def startTasks (prepared : PackTotals × List ResolvedChunk) (state : CallState) : CallState :=
  { state with
    transfer := .start state.session prepared.1 prepared.2
    reports := fun _ ↦ .pending
    lastPersistedBytes := -1
    lastPersistedAt := 0 }

/-- Whether `ReportAsync` saves a record. -/
def persists (state : CallState) : Bool :=
  let current := state.transfer.summary.preparedBytes
  current = call.totalBytes || 4 * 1024 * 1024 ≤ (current : ℤ) - state.lastPersistedBytes ||
    10000000 ≤ call.elapsed state.calls - state.lastPersistedAt

/-- The report of a task, in a new state. -/
def setReport (chunk : ChunkRef) (report : ReportState) (state : CallState) : CallState :=
  { state with reports := Function.update state.reports chunk.encodedHash report }

/-- `ReportAsync`, up to the save. -/
def reportAsync (chunk : ChunkRef) (state : CallState) : CallState :=
  match call.reportAnswer state.calls with
  | .error exception => { setReport chunk (.threw exception) state with calls := state.calls + 1 }
  | .ok () =>
    if call.persists state then
      { setReport chunk (.saving state.transfer.summary.preparedBytes) state with
        calls := state.calls + 1
        lastPersistedBytes := state.transfer.summary.preparedBytes
        lastPersistedAt := call.elapsed state.calls }
    else { setReport chunk .ended state with calls := state.calls + 1 }

/-- The save of `ReportAsync`. -/
def persistProgress (chunk : ChunkRef) (downloadedBytes : ℕ) (state : CallState) : CallState :=
  match call.save state .downloading downloadedBytes none with
  | (.error exception, state) => setReport chunk (.threw exception) state
  | (.ok (), state) => setReport chunk .ended state

/-- An event of a task, in a state in which it is possible. -/
def perform (event : TaskEvent) (state : CallState) : CallState :=
  if event.chunk ∉ call.chunks then state
  else
    match event, state.transfer.tasks event.chunk.encodedHash,
      state.reports event.chunk.encodedHash with
    | .advance action, _, _ =>
      { state with transfer := state.transfer.advance call.hash call.clock action }
    | .throws _ _, .done, _ | .throws _ _, .failed _, _ => state
    | .throws chunk exception, _, _ =>
      { state with transfer := state.transfer.setTask chunk (.failed exception) }
    | .report chunk, .done, .pending => call.reportAsync chunk state
    | .persist chunk, _, .saving downloadedBytes => call.persistProgress chunk downloadedBytes state
    | _, _, _ => state

def taskResult (state : CallState) (chunk : ChunkRef) : Option (Except LauncherException Unit) :=
  match state.transfer.tasks chunk.encodedHash, state.reports chunk.encodedHash with
  | .failed exception, _ => some (.error exception)
  | .done, .threw exception => some (.error exception)
  | .done, .ended => some (.ok ())
  | _, _ => none

/-- `Task.WhenAll` waits until every task has ended. -/
def AllEnded (state : CallState) : Prop :=
  ∀ chunk ∈ call.chunks, (taskResult state chunk).isSome = true

instance (state : CallState) : Decidable (call.AllEnded state) :=
  inferInstanceAs (Decidable (∀ chunk ∈ call.chunks, _))

/-- The exception of `Task.WhenAll`: the first one that is no cancellation, or a cancellation. -/
def whenAll (state : CallState) : Except LauncherException Unit :=
  let failures := call.chunks.filterMap fun chunk ↦
    match taskResult state chunk with
    | some (.error exception) => some exception
    | _ => none
  match failures.find? fun exception ↦ exception ≠ .operationCanceled with
  | some exception => .error exception
  | none => if failures = [] then .ok () else .error .operationCanceled

/-- The body of the `try` around `Task.WhenAll`. -/
def complete : CallProcess DownloadSummary := do
  Process.query call.whenAll
  let summary ← Process.query fun state ↦ .ok state.transfer.summary
  call.saveJobAsync .ready none
  call.reportProgress
  pure summary

/-- The two `catch` blocks. -/
def recordFailure (exception : LauncherException) : CallProcess DownloadSummary := do
  let cancelled ← Process.query fun state ↦ .ok (call.cancellationRequested state.calls)
  call.saveJobAsync
    (if exception = .operationCanceled ∧ cancelled = true then .cancelled else .failed)
    (if exception = .operationCanceled ∧ cancelled = true then none
      else some (call.message exception))
  Process.fail exception

def runTasks (schedule : List TaskEvent) (prepared : PackTotals × List ResolvedChunk) :
    CallProcess Unit := do
  Process.step fun state ↦ (.ok (), startTasks prepared state)
  Process.forEach (fun event _ ↦ Process.step fun state ↦ (.ok (), call.perform event state))
    schedule ()

/-- The `try` around `Task.WhenAll`. -/
def waitForTasks : CallProcess DownloadSummary :=
  Process.tryCatch call.complete call.recordFailure

/-- `DownloadAsync` up to the end of its tasks. -/
def untilTasksEnd (schedule : List TaskEvent) : CallProcess Unit := do
  let prepared ← call.beforeTasks
  call.runTasks schedule prepared

def downloadAsync (schedule : List TaskEvent) : CallProcess DownloadSummary := do
  call.untilTasksEnd schedule
  call.waitForTasks

end DownloadCall

/-- A run of `DownloadAsync` that ends: its schedule leads every task to its end. -/
structure DownloadRun (call : DownloadCall) where
  start : CallState
  schedule : List TaskEvent
  ended : (∃ prepared, (call.beforeTasks start).result = .ok prepared) →
    call.AllEnded (call.untilTasksEnd schedule start).final

namespace DownloadRun

variable {call : DownloadCall} (run : DownloadRun call)

/-- How the call ends. -/
def outcome : Outcome CallState LauncherException DownloadSummary :=
  call.downloadAsync run.schedule run.start

def tasksEnd : CallState := (call.untilTasksEnd run.schedule run.start).final

/-- The last record of the job is terminal, and is `Ready` exactly when the call has returned. -/
def EndsTerminal : Prop :=
  ∃ job, run.outcome.final.rows call.jobId = some job ∧ job.state.isTerminal = true ∧
    (job.state = .ready ↔ ∃ summary, run.outcome.result = .ok summary)

end DownloadRun

/-! ### What can interrupt a call before its tasks -/

/-- The cache after the pack path. -/
def Operations.afterPacks (operations : Operations) (packsEnabled : Bool) (chunks : List ChunkRef)
    (session : Session) : Session :=
  if packsEnabled then (operations.packPhase chunks session).final else session

/-- No operation throws, up to the exceptions of the pack path that are caught. -/
def Operations.RunsThrough (operations : Operations) (packsEnabled : Bool) (chunks : List ChunkRef)
    (session : Session) : Prop :=
  (packsEnabled = true → ∀ failure, (operations.packPhase chunks session).result = .error failure →
    failure.endsPacks = true) ∧
  ∃ unresolved, (operations.unresolvedChunks chunks
      (operations.afterPacks packsEnabled chunks session)).result = .ok unresolved ∧
    (unresolved = [] ∨ ∃ resolved, (operations.resolveChunks unresolved
      (operations.unresolvedChunks chunks
        (operations.afterPacks packsEnabled chunks session)).final).result = .ok resolved)

namespace DownloadCall

variable (call : DownloadCall)

/-- The call throws before it has saved a record. -/
def StopsEarly (start : CallState) : Prop :=
  ManifestValidator.validate call.unicode call.manifest ≠ .ok () ∨
    (∃ failure, sumEncodedSizes call.chunks = .error failure) ∨
    ∃ failure, call.saveAnswer start.calls = .error failure

/-- Nothing throws before the tasks. -/
def Uninterrupted (start : CallState) : Prop :=
  ¬ call.StopsEarly start ∧ call.reportAnswer (start.calls + 1) = .ok () ∧
    call.operations.RunsThrough call.packsEnabled call.chunks start.session

def Recorded (jobState : DownloadJobState) (state : CallState) : Prop :=
  ∃ job, state.rows call.jobId = some job ∧ job.state = jobState

/-- When the tasks or the record of their success throw, the record of the failure is saved. -/
def FailureRecorded (state : CallState) : Prop :=
  ∀ failure, (call.complete state).result = .error failure →
    call.saveAnswer (call.complete state).final.calls = .ok ()

end DownloadCall

section Proofs

variable {call : DownloadCall} {operations : Operations} {packsEnabled : Bool}
  {chunks : List ChunkRef} {session : Session} {start state : CallState}

theorem Operations.final_downloadFromPacks :
    (operations.downloadFromPacks packsEnabled chunks session).final =
      operations.afterPacks packsEnabled chunks session := by
  unfold Operations.downloadFromPacks Operations.afterPacks
  by_cases henabled : packsEnabled = true
  · rw [if_pos henabled, if_pos henabled]
    cases hresult : (operations.packPhase chunks session).result with
    | ok totals => rw [final_tryCatch_of_ok hresult]
    | error failure =>
      rw [final_tryCatch_of_error hresult]
      split_ifs <;> rfl
  · rw [if_neg henabled, if_neg henabled]
    rfl

theorem Operations.result_downloadFromPacks :
    (∃ totals, (operations.downloadFromPacks packsEnabled chunks session).result = .ok totals) ↔
      (packsEnabled = true → ∀ failure,
        (operations.packPhase chunks session).result = .error failure →
          failure.endsPacks = true) := by
  unfold Operations.downloadFromPacks
  by_cases henabled : packsEnabled = true
  · rw [if_pos henabled]
    cases hresult : (operations.packPhase chunks session).result with
    | ok totals => simp [result_tryCatch_of_ok hresult]
    | error failure =>
      rw [result_tryCatch_of_error hresult]
      simp only [henabled, Except.error.injEq, forall_eq', forall_const]
      split_ifs with hends
      · exact iff_of_true ⟨_, rfl⟩ hends
      · refine iff_of_false ?_ hends
        rintro ⟨totals, htotals⟩
        cases htotals
  · rw [if_neg henabled]
    exact iff_of_true ⟨_, rfl⟩ fun h ↦ absurd h henabled

theorem Operations.result_resolveMissing {unresolved : List Text} :
    (∃ resolved, (operations.resolveMissing unresolved session).result = .ok resolved) ↔
      unresolved = [] ∨
        ∃ resolved, (operations.resolveChunks unresolved session).result = .ok resolved := by
  unfold Operations.resolveMissing
  by_cases hempty : unresolved = []
  · rw [if_pos hempty]
    exact iff_of_true ⟨_, rfl⟩ (.inl hempty)
  · rw [if_neg hempty]
    simp only [hempty, false_or]

theorem Operations.result_prepare :
    (∃ prepared, (operations.prepare packsEnabled chunks session).result = .ok prepared) ↔
      operations.RunsThrough packsEnabled chunks session := by
  unfold Operations.prepare Operations.RunsThrough
  rw [← Operations.result_downloadFromPacks]
  simp only [← Operations.result_resolveMissing, ← Operations.final_downloadFromPacks]
  constructor
  · rintro ⟨prepared, hprepared⟩
    obtain ⟨totals, htotals, hrest⟩ := result_bind_eq_ok.mp hprepared
    obtain ⟨unresolved, hunresolved, hrest⟩ := result_bind_eq_ok.mp hrest
    obtain ⟨resolved, hresolved, -⟩ := result_bind_eq_ok.mp hrest
    exact ⟨⟨totals, htotals⟩, unresolved, hunresolved, resolved, hresolved⟩
  · rintro ⟨⟨totals, htotals⟩, unresolved, hunresolved, resolved, hresolved⟩
    refine ⟨(totals, resolved), result_bind_eq_ok.mpr ⟨totals, htotals, ?_⟩⟩
    refine result_bind_eq_ok.mpr ⟨unresolved, hunresolved, ?_⟩
    exact result_bind_eq_ok.mpr ⟨resolved, hresolved, rfl⟩

/-! ### Records of a call -/

variable {jobState : DownloadJobState} {lastError : Option String} {downloadedBytes : ℕ}

namespace DownloadCall

/-- The job has a record in a state that is not terminal. -/
def InProgress (call : DownloadCall) (state : CallState) : Prop :=
  ∃ job, state.rows call.jobId = some job ∧ job.state.isTerminal = false

theorem save_fst : (call.save state jobState downloadedBytes lastError).1 =
    call.saveAnswer state.calls := by
  unfold save
  cases call.saveAnswer state.calls <;> rfl

theorem rows_save_of_ok (h : call.saveAnswer state.calls = .ok ()) :
    call.Recorded jobState (call.save state jobState downloadedBytes lastError).2 := by
  unfold save
  rw [h]
  exact ⟨_, Function.update_self .., rfl⟩

theorem rows_save_of_error {failure : LauncherException}
    (h : call.saveAnswer state.calls = .error failure) :
    (call.save state jobState downloadedBytes lastError).2.rows = state.rows := by
  unfold save
  rw [h]

theorem session_save : (call.save state jobState downloadedBytes lastError).2.session =
    state.session := by
  unfold save
  cases call.saveAnswer state.calls <;> rfl

theorem calls_save : (call.save state jobState downloadedBytes lastError).2.calls =
    state.calls + 1 := by
  unfold save
  cases call.saveAnswer state.calls <;> rfl

theorem not_stopsEarly : ¬ call.StopsEarly start ↔
    ManifestValidator.validate call.unicode call.manifest = .ok () ∧
      (∃ total, sumEncodedSizes call.chunks = .ok total) ∧
      call.saveAnswer start.calls = .ok () := by
  unfold StopsEarly
  simp only [not_or, not_not]
  refine and_congr_right fun _ ↦ and_congr ?_ ?_
  · cases sumEncodedSizes call.chunks <;> simp
  · cases call.saveAnswer start.calls <;> simp

/-- The part of the first part that follows the first record. -/
def afterRecord (call : DownloadCall) : CallProcess (PackTotals × List ResolvedChunk) := do
  call.reportProgress
  inSession (call.operations.prepare call.packsEnabled call.chunks)

theorem rows_afterRecord : (call.afterRecord state).final.rows = state.rows := by
  cases hreport : call.reportAnswer state.calls with
  | error failure =>
    have hresult : (call.reportProgress state).result = .error failure := hreport
    unfold afterRecord
    rw [final_bind_of_error hresult]
    rfl
  | ok value =>
    have hresult : (call.reportProgress state).result = .ok value := hreport
    unfold afterRecord
    rw [final_bind_of_ok hresult]
    rfl

theorem result_afterRecord :
    (∃ prepared, (call.afterRecord state).result = .ok prepared) ↔
      call.reportAnswer state.calls = .ok () ∧
        call.operations.RunsThrough call.packsEnabled call.chunks state.session := by
  rw [← Operations.result_prepare]
  constructor
  · rintro ⟨prepared, hprepared⟩
    obtain ⟨_, hreport, hrest⟩ := result_bind_eq_ok.mp hprepared
    exact ⟨hreport, prepared, hrest⟩
  · rintro ⟨hreport, prepared, hprepared⟩
    exact ⟨prepared, result_bind_eq_ok.mpr ⟨(), hreport, hprepared⟩⟩

theorem beforeTasks_of_not_stopsEarly (h : ¬ call.StopsEarly start) :
    ∃ saved, saved = (call.save start .resolving 0 none).2 ∧
      (call.beforeTasks start).final = (call.afterRecord saved).final ∧
      (call.beforeTasks start).result = (call.afterRecord saved).result := by
  obtain ⟨hvalidate, ⟨total, hsum⟩, hsave⟩ := not_stopsEarly.mp h
  have hfirst : ((check ((ManifestValidator.validate call.unicode call.manifest).mapError
      .ofValidation) : CallProcess Unit) start).result = .ok () := by
    rw [hvalidate]
    rfl
  have hsecond : ((check (sumEncodedSizes call.chunks) : CallProcess ℕ) start).result =
      .ok total := hsum
  have hthird : (call.saveResolving start).result = .ok () := save_fst.trans hsave
  refine ⟨_, rfl, ?_, ?_⟩
  · unfold beforeTasks
    rw [final_bind_of_ok hfirst]
    change ((check (sumEncodedSizes call.chunks) >>= _) start).final = _
    rw [final_bind_of_ok hsecond]
    change ((call.saveResolving >>= _) start).final = _
    rw [final_bind_of_ok hthird]
    rfl
  · unfold beforeTasks
    rw [result_bind_of_ok hfirst]
    change ((check (sumEncodedSizes call.chunks) >>= _) start).result = _
    rw [result_bind_of_ok hsecond]
    change ((call.saveResolving >>= _) start).result = _
    rw [result_bind_of_ok hthird]
    rfl

theorem beforeTasks_of_stopsEarly (h : call.StopsEarly start) :
    (call.beforeTasks start).final.rows = start.rows ∧
      ∃ failure, (call.beforeTasks start).result = .error failure := by
  unfold beforeTasks
  cases hvalidate : ManifestValidator.validate call.unicode call.manifest with
  | error failure => exact ⟨rfl, _, rfl⟩
  | ok value =>
    cases hsum : sumEncodedSizes call.chunks with
    | error failure => exact ⟨rfl, _, rfl⟩
    | ok total =>
      cases hsave : call.saveAnswer start.calls with
      | ok value => exact absurd h (not_stopsEarly.mpr ⟨hvalidate, ⟨total, hsum⟩, hsave⟩)
      | error failure =>
        have hresult : (call.saveResolving start).result = .error failure := save_fst.trans hsave
        constructor
        · change ((call.saveResolving >>= _) start).final.rows = _
          rw [final_bind_of_error hresult]
          exact rows_save_of_error hsave
        · refine ⟨failure, ?_⟩
          change ((call.saveResolving >>= _) start).result = _
          rw [result_bind_of_error hresult]

theorem result_beforeTasks :
    (∃ prepared, (call.beforeTasks start).result = .ok prepared) ↔ call.Uninterrupted start := by
  unfold Uninterrupted
  by_cases hearly : call.StopsEarly start
  · obtain ⟨-, failure, hfailure⟩ := beforeTasks_of_stopsEarly hearly
    refine iff_of_false ?_ fun h ↦ h.1 hearly
    rintro ⟨prepared, hprepared⟩
    rw [hfailure] at hprepared
    cases hprepared
  · obtain ⟨saved, rfl, -, hresult⟩ := beforeTasks_of_not_stopsEarly hearly
    rw [hresult, result_afterRecord, calls_save, session_save]
    simp only [hearly, not_false_eq_true, true_and]

theorem rows_beforeTasks (hearly : ¬ call.StopsEarly start) :
    call.Recorded .resolving (call.beforeTasks start).final := by
  obtain ⟨saved, rfl, hfinal, -⟩ := beforeTasks_of_not_stopsEarly hearly
  unfold Recorded
  rw [hfinal, rows_afterRecord]
  exact rows_save_of_ok (not_stopsEarly.mp hearly).2.2

/-! ### The tasks and their end -/

theorem InProgress.of_rows {other : CallState} (h : call.InProgress state)
    (hrows : other.rows = state.rows) : call.InProgress other := by
  unfold InProgress
  rw [hrows]
  exact h

/-- The row of the job has been written with a state, or no row has. -/
def Records (call : DownloadCall) (jobState : DownloadJobState) (before after : CallState) : Prop :=
  after.rows = before.rows ∨ ∃ job : PersistedDownloadJob, job.state = jobState ∧
    after.rows = Function.update before.rows call.jobId (some job)

theorem records_save :
    call.Records jobState state (call.save state jobState downloadedBytes lastError).2 := by
  unfold save
  cases call.saveAnswer state.calls with
  | error failure => exact .inl rfl
  | ok value => exact .inr ⟨_, rfl, rfl⟩

theorem records_persistProgress {chunk : ChunkRef} :
    call.Records .downloading state (call.persistProgress chunk downloadedBytes state) := by
  have hsave : call.Records .downloading state
      (call.save state .downloading downloadedBytes none).2 := records_save
  unfold DownloadCall.persistProgress
  split
  all_goals
    rename_i heq
    rw [heq] at hsave
    exact hsave

theorem records_perform {event : TaskEvent} :
    call.Records .downloading state (call.perform event state) := by
  unfold DownloadCall.perform
  by_cases hchunk : event.chunk ∉ call.chunks
  · rw [if_pos hchunk]
    exact .inl rfl
  · rw [if_neg hchunk]
    split
    · exact .inl rfl
    · exact .inl rfl
    · exact .inl rfl
    · exact .inl rfl
    · left
      unfold reportAsync
      split
      · rfl
      · split_ifs <;> rfl
    · exact records_persistProgress
    · exact .inl rfl

theorem InProgress.of_records {other : CallState} (h : call.InProgress state)
    (hrecords : call.Records jobState state other) (hstate : jobState.isTerminal = false) :
    call.InProgress other := by
  rcases hrecords with hrows | ⟨job, rfl, hrows⟩
  · exact h.of_rows hrows
  · exact ⟨job, by rw [hrows, Function.update_self], hstate⟩

theorem InProgress.perform {event : TaskEvent} (h : call.InProgress state) :
    call.InProgress (call.perform event state) :=
  h.of_records records_perform rfl

theorem InProgress.runTasks {schedule : List TaskEvent} {prepared : PackTotals × List ResolvedChunk}
    (h : call.InProgress state) :
    call.InProgress (call.runTasks schedule prepared state).final ∧
      (call.runTasks schedule prepared state).result = .ok () := by
  have hrun : Ensures call.InProgress (call.runTasks schedule prepared) (fun _ ↦ True)
      (fun _ ↦ call.InProgress) fun _ _ ↦ False := by
    refine ensures_bind (fun _ ↦ call.InProgress) ?_ fun _ ↦ ?_
    · exact ensures_step (fun _ _ ↦ trivial) (fun _ _ hstate _ ↦ hstate.of_rows rfl)
        fun _ _ _ hfailure ↦ nomatch hfailure
    · refine ensures_forEach (fun _ _ ↦ call.InProgress) fun done event rest _ _ ↦ ?_
      exact ensures_step (fun _ _ ↦ trivial) (fun _ _ hstate _ ↦ hstate.perform)
        fun _ _ _ hfailure ↦ nomatch hfailure
  obtain ⟨-, hok, herror⟩ := hrun state h
  cases hresult : (call.runTasks schedule prepared state).result with
  | ok value => exact ⟨hok value hresult, rfl⟩
  | error failure => exact (herror failure hresult).elim

theorem ensures_complete (rows : Text → Option PersistedDownloadJob) :
    Ensures (fun state ↦ state.rows = rows) call.complete (fun _ ↦ True)
      (fun _ ↦ call.Recorded .ready) fun _ final ↦ final.rows = rows ∨ call.Recorded .ready final := by
  refine ensures_bind (fun _ state ↦ state.rows = rows)
    (ensures_query (fun _ _ h _ ↦ h) fun _ _ h _ ↦ .inl h) fun _ ↦ ?_
  refine ensures_bind (fun _ state ↦ state.rows = rows)
    (ensures_query (fun _ _ h _ ↦ h) fun _ _ h _ ↦ .inl h) fun summary ↦ ?_
  refine ensures_bind (fun _ ↦ call.Recorded .ready) (ensures_step (fun _ _ ↦ trivial) ?_ ?_)
    fun _ ↦ ?_
  · intro state value _ hsave
    exact rows_save_of_ok (save_fst.symm.trans hsave)
  · intro state failure hstate hsave
    exact .inl ((rows_save_of_error (save_fst.symm.trans hsave)).trans hstate)
  refine ensures_bind (fun _ ↦ call.Recorded .ready)
    (ensures_step (fun _ _ ↦ trivial) (fun _ _ h _ ↦ h) fun _ _ h _ ↦ .inr h) fun _ ↦ ?_
  exact ensures_pure fun _ h ↦ h

theorem ensures_recordFailure (exception : LauncherException) (state : CallState) :
    Ensures (fun other ↦ other = state) (call.recordFailure exception) (fun _ ↦ True)
      (fun _ _ ↦ False) fun _ final ↦
        (call.saveAnswer state.calls = .ok () ∧
            (call.Recorded .cancelled final ∨ call.Recorded .failed final)) ∨
          call.saveAnswer state.calls ≠ .ok () ∧ final.rows = state.rows := by
  refine ensures_bind (fun _ other ↦ other = state)
    (ensures_query (fun _ _ h _ ↦ h) fun _ _ _ h ↦ nomatch h) fun cancelled ↦ ?_
  refine ensures_bind
    (fun _ final ↦ call.saveAnswer state.calls = .ok () ∧
      (call.Recorded .cancelled final ∨ call.Recorded .failed final))
    (ensures_step (fun _ _ ↦ trivial) ?_ ?_) fun _ ↦ ?_
  · rintro _ value rfl hsave
    have hanswer := save_fst.symm.trans hsave
    refine ⟨hanswer, ?_⟩
    by_cases hcancelled : exception = .operationCanceled ∧ cancelled = true
    · rw [if_pos hcancelled]
      exact .inl (rows_save_of_ok hanswer)
    · rw [if_neg hcancelled]
      exact .inr (rows_save_of_ok hanswer)
  · rintro _ failure rfl hsave
    have hanswer := save_fst.symm.trans hsave
    refine .inr ⟨?_, rows_save_of_error hanswer⟩
    rw [hanswer]
    rintro ⟨⟩
  · exact ensures_query (fun _ _ _ h ↦ nomatch h) fun _ _ h _ ↦ .inl h

theorem waitForTasks_iff (h : call.InProgress state) :
    (∃ job, (call.waitForTasks state).final.rows call.jobId = some job ∧
      job.state.isTerminal = true ∧
      (job.state = .ready ↔ ∃ summary, (call.waitForTasks state).result = .ok summary)) ↔
      call.FailureRecorded state := by
  have hcomplete : Ensures _ call.complete _ _ _ := ensures_complete state.rows
  obtain ⟨-, hok, herror⟩ := hcomplete state rfl
  unfold waitForTasks FailureRecorded
  cases hresult : (call.complete state).result with
  | ok summary =>
    rw [result_tryCatch_of_ok hresult, final_tryCatch_of_ok hresult]
    obtain ⟨job, hjob, hstate⟩ := hok summary hresult
    refine iff_of_true ⟨job, hjob, by rw [hstate]; rfl, ?_⟩ nofun
    exact iff_of_true hstate ⟨summary, rfl⟩
  | error failure =>
    rw [result_tryCatch_of_error hresult, final_tryCatch_of_error hresult]
    have hrecord : Ensures _ (call.recordFailure failure) _ _ _ :=
      ensures_recordFailure failure (call.complete state).final
    obtain ⟨-, hnever, hfails⟩ := hrecord _ rfl
    cases hend : (call.recordFailure failure (call.complete state).final).result with
    | ok summary => exact (hnever summary hend).elim
    | error raised =>
      simp only [Except.error.injEq, forall_eq', reduceCtorEq, exists_false, iff_false]
      rcases hfails raised hend with ⟨hsaved, hrecorded⟩ | ⟨hunsaved, hrows⟩
      · refine iff_of_true ?_ hsaved
        rcases hrecorded with ⟨job, hjob, hstate⟩ | ⟨job, hjob, hstate⟩
        · exact ⟨job, hjob, by rw [hstate]; rfl, by rw [hstate]; nofun⟩
        · exact ⟨job, hjob, by rw [hstate]; rfl, by rw [hstate]; nofun⟩
      · refine iff_of_false ?_ hunsaved
        rw [hrows]
        rintro ⟨job, hjob, hterminal, hready⟩
        rcases herror failure hresult with hsame | ⟨other, hother, hstate⟩
        · obtain ⟨running, hrunning, hopen⟩ := h
          rw [hsame, hrunning, Option.some.injEq] at hjob
          rw [← hjob, hopen] at hterminal
          exact Bool.false_ne_true hterminal
        · rw [hother, Option.some.injEq] at hjob
          exact hready (hjob ▸ hstate)

end DownloadCall

/-- What the last record of a call says. It is terminal, and is `Ready` exactly when the call has
returned, if and only if nothing throws before the tasks and the record of a failure after that is
saved, or the call throws before its first record and the job had a record of a failure or a
cancellation already. -/
theorem endsTerminal_iff (call : DownloadCall) (run : DownloadRun call) :
    run.EndsTerminal ↔ call.Uninterrupted run.start ∧ call.FailureRecorded run.tasksEnd ∨
        call.StopsEarly run.start ∧
          (call.Recorded .failed run.start ∨ call.Recorded .cancelled run.start) := by
  unfold DownloadRun.EndsTerminal DownloadRun.outcome DownloadRun.tasksEnd
    DownloadCall.downloadAsync
  cases hbefore : (call.beforeTasks run.start).result with
  | ok prepared =>
    have huninterrupted := DownloadCall.result_beforeTasks.mp ⟨prepared, hbefore⟩
    obtain ⟨job, hjob, hstate⟩ := DownloadCall.rows_beforeTasks huninterrupted.1
    have hrunning : call.InProgress (call.beforeTasks run.start).final :=
      ⟨job, hjob, by rw [hstate]; rfl⟩
    have htasks : _ ∧ (call.runTasks run.schedule prepared _).result = _ := hrunning.runTasks
    have huntil : (call.untilTasksEnd run.schedule run.start).result = .ok () :=
      (result_bind_of_ok hbefore).trans htasks.2
    have hend : (call.untilTasksEnd run.schedule run.start).final =
        (call.runTasks run.schedule prepared (call.beforeTasks run.start).final).final :=
      final_bind_of_ok hbefore
    rw [result_bind_of_ok huntil, final_bind_of_ok huntil, hend,
      DownloadCall.waitForTasks_iff htasks.1]
    simp only [huninterrupted, huninterrupted.1, true_and, false_and, or_false]
  | error failure =>
    have huntil : (call.untilTasksEnd run.schedule run.start).result = .error failure :=
      result_bind_of_error hbefore
    have hend : (call.untilTasksEnd run.schedule run.start).final =
        (call.beforeTasks run.start).final := final_bind_of_error hbefore
    have hinterrupted : ¬ call.Uninterrupted run.start := by
      intro huninterrupted
      obtain ⟨prepared, hprepared⟩ := DownloadCall.result_beforeTasks.mpr huninterrupted
      rw [hbefore] at hprepared
      cases hprepared
    rw [result_bind_of_error huntil, final_bind_of_error huntil, hend]
    simp only [hinterrupted, false_and, false_or, reduceCtorEq, exists_false, iff_false]
    by_cases hearly : call.StopsEarly run.start
    · rw [(DownloadCall.beforeTasks_of_stopsEarly hearly).1]
      simp only [hearly, true_and]
      constructor
      · rintro ⟨job, hjob, hterminal, hready⟩
        cases hstate : job.state with
        | failed => exact .inl ⟨job, hjob, hstate⟩
        | cancelled => exact .inr ⟨job, hjob, hstate⟩
        | ready => exact absurd hstate hready
        | _ =>
          rw [hstate] at hterminal
          cases hterminal
      · rintro (⟨job, hjob, hstate⟩ | ⟨job, hjob, hstate⟩)
        · exact ⟨job, hjob, by rw [hstate]; rfl, by rw [hstate]; nofun⟩
        · exact ⟨job, hjob, by rw [hstate]; rfl, by rw [hstate]; nofun⟩
    · refine iff_of_false ?_ fun h ↦ hearly h.1
      rintro ⟨job, hjob, hterminal, -⟩
      obtain ⟨resolving, hresolving, hstate⟩ := DownloadCall.rows_beforeTasks hearly
      rw [hresolving, Option.some.injEq] at hjob
      rw [← hjob, hstate] at hterminal
      cases hterminal

end Proofs

/-! ### A resolver that fails -/

/-- A call for two chunks that are not in the cache, whose resolver cannot be reached. -/
def unreachableResolver : DownloadCall where
  manifest := twoChunkManifest
  jobId := "install-demo"
  packsEnabled := false
  unicode := ManifestValidator.asciiUnicode
  hash := frameHash
  clock := oneSource.clock
  operations := .ofNetwork frameHash
    { oneSource with chunkAnswer := fun _ _ ↦ .error (.httpRequest "Connection refused") }
  saveAnswer := fun _ ↦ .ok ()
  reportAnswer := fun _ ↦ .ok ()
  utcNow := fun number ↦ number
  elapsed := fun number ↦ number
  cancellationRequested := fun _ ↦ false
  message := fun _ ↦ ""

def freshState : CallState where
  session := ⟨emptyCache 20, emptyCache 20, [], 0⟩
  transfer := .start ⟨emptyCache 20, emptyCache 20, [], 0⟩ ⟨[], 0, 0⟩ []
  reports := fun _ ↦ .pending
  lastPersistedBytes := -1
  lastPersistedAt := 0
  rows := fun _ ↦ none
  calls := 0

theorem not_stopsEarly_unreachableResolver : ¬ unreachableResolver.StopsEarly freshState := by
  refine DownloadCall.not_stopsEarly.mpr ⟨?_, ⟨20, ?_⟩, rfl⟩
  · rw [← toOption_eq_some]
    decide
  · rw [← toOption_eq_some]
    decide

/-- The call throws in its first part. -/
theorem beforeTasks_unreachableResolver :
    ∃ failure, (unreachableResolver.beforeTasks freshState).result = .error failure := by
  have hnone : (unreachableResolver.beforeTasks freshState).result.toOption.isNone = true := by
    decide
  cases hresult : (unreachableResolver.beforeTasks freshState).result with
  | ok prepared =>
    rw [hresult] at hnone
    cases hnone
  | error failure => exact ⟨failure, rfl⟩

/-- The call ends with this exception. -/
def unreachableRun : DownloadRun unreachableResolver where
  start := freshState
  schedule := []
  ended := by
    rintro ⟨prepared, hprepared⟩
    obtain ⟨failure, hfailure⟩ := beforeTasks_unreachableResolver
    rw [hfailure] at hprepared
    cases hprepared

/-- The last record of a call whose resolver fails is `Resolving`. -/
theorem resolving_after_failed_resolver :
    (∃ failure, unreachableRun.outcome.result = .error failure) ∧
      unreachableResolver.Recorded .resolving unreachableRun.outcome.final ∧
      ¬ unreachableRun.EndsTerminal := by
  obtain ⟨failure, hfailure⟩ := beforeTasks_unreachableResolver
  have huntil : (unreachableResolver.untilTasksEnd [] freshState).result = .error failure :=
    result_bind_of_error hfailure
  have hfinal : unreachableRun.outcome.final = (unreachableResolver.beforeTasks freshState).final :=
    (final_bind_of_error huntil).trans (final_bind_of_error hfailure)
  obtain ⟨job, hjob, hstate⟩ :=
    DownloadCall.rows_beforeTasks not_stopsEarly_unreachableResolver
  rw [← hfinal] at hjob
  refine ⟨⟨failure, result_bind_of_error huntil⟩, ⟨job, hjob, hstate⟩, ?_⟩
  rintro ⟨other, hother, hterminal, -⟩
  rw [hjob, Option.some.injEq] at hother
  rw [← hother, hstate] at hterminal
  cases hterminal

end GameLauncher.Downloads
