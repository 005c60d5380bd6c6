import Mathlib.Data.List.Dedup
import Mathlib.Data.List.Sort
import GameLauncher.Foundation.Table
import GameLauncher.Foundation.Text

/-!
# The job store of the scraper

`SQLiteJobStore` keeps one row for each job: the job itself as a payload, and beside it the columns
that the queries read. Every write stores a whole copy of the job over its row, found by the
identifier. A call is atomic, because the store holds its lock for the transaction; it reads the
clock once.

Times are microseconds. `_iso_from_epoch` and `_epoch_from_iso` write a time as text and read it
back, so a lease is the same number in the payload and in the column.
-/

set_option autoImplicit false

namespace GameLauncher.Scraper

open Foundation List

/-! ### Jobs and outcomes -/

inductive JobStatus
  | queued
  | discovering
  | acquiring
  | validating
  | ready
  | retry
  | failed
  | cancelled
  | done
  deriving DecidableEq, Repr

namespace JobStatus

def value : JobStatus → Text
  | queued => "QUEUED"
  | discovering => "DISCOVERING"
  | acquiring => "ACQUIRING"
  | validating => "VALIDATING"
  | ready => "READY"
  | retry => "RETRY"
  | failed => "FAILED"
  | cancelled => "CANCELLED"
  | done => "DONE"

/-- The statuses for which `enqueue` returns the job that is there. -/
def active : JobStatus → Bool
  | queued | discovering | acquiring | validating | retry => true
  | _ => false

/-- The statuses that `recover_expired` leaves alone. -/
def ended : JobStatus → Bool
  | done | failed | cancelled => true
  | _ => false

theorem active_of_not_ended {status : JobStatus} (hended : status.ended = false)
    (hready : status ≠ ready) : status.active = true := by
  cases status with
  | ready => exact absurd rfl hready
  | done | failed | cancelled => cases hended
  | _ => rfl

end JobStatus

inductive ScrapeStatus
  | success
  | notFound
  | layoutChanged
  | challengeRequired
  | rateLimited
  | validationFailed
  | temporaryFailure
  | permanentFailure
  | manualReview
  deriving DecidableEq, Repr

def ScrapeStatus.value : ScrapeStatus → Text
  | success => "SUCCESS"
  | notFound => "NOT_FOUND"
  | layoutChanged => "LAYOUT_CHANGED"
  | challengeRequired => "CHALLENGE_REQUIRED"
  | rateLimited => "RATE_LIMITED"
  | validationFailed => "VALIDATION_FAILED"
  | temporaryFailure => "TEMPORARY_FAILURE"
  | permanentFailure => "PERMANENT_FAILURE"
  | manualReview => "MANUAL_REVIEW"

/-- `ScrapeJob`. The recorded actions and the artifact are kept as their JSON text. -/
structure ScrapeJob where
  id : Text
  sourceName : Text
  targetReleaseId : Option Text
  status : JobStatus
  stage : Text
  attempts : ℕ
  maxAttempts : ℤ
  createdAt : ℤ
  updatedAt : ℤ
  leaseUntil : Option ℤ
  visitedUrls : List Text
  actionHistory : List Text
  resolvedArtifact : Option Text
  lastError : Option Text
  resultStatus : Option ScrapeStatus
  geminiCalls : ℕ
  browserActions : ℕ
  deriving DecidableEq, Repr

/-- `ScrapeJob(id, source_name, …)`, with the default of every other field. -/
def ScrapeJob.new (id sourceName : Text) (targetReleaseId : Option Text) (maxAttempts now : ℤ) :
    ScrapeJob where
  id := id
  sourceName := sourceName
  targetReleaseId := targetReleaseId
  status := .queued
  stage := "QUEUED"
  attempts := 0
  maxAttempts := maxAttempts
  createdAt := now
  updatedAt := now
  leaseUntil := none
  visitedUrls := []
  actionHistory := []
  resolvedArtifact := none
  lastError := none
  resultStatus := none
  geminiCalls := 0
  browserActions := 0

/-- The part of `ScrapeOutcome` that the scheduler records. -/
structure ScrapeOutcome where
  status : ScrapeStatus
  artifact : Option Text
  message : Text
  visitedUrls : List Text
  actionHistory : List Text
  geminiCalls : ℕ
  browserActions : ℕ
  deriving DecidableEq, Repr

/-- `ScrapeOutcome(status, message=…)`. -/
def ScrapeOutcome.ofStatus (status : ScrapeStatus) (message : Text) : ScrapeOutcome where
  status := status
  artifact := none
  message := message
  visitedUrls := []
  actionHistory := []
  geminiCalls := 0
  browserActions := 0

/-- What no write of the store changes: which job it is, and how often it may be claimed. -/
structure JobIdentity where
  id : Text
  sourceName : Text
  targetReleaseId : Option Text
  maxAttempts : ℤ
  deriving DecidableEq, Repr

def ScrapeJob.identity (job : ScrapeJob) : JobIdentity :=
  ⟨job.id, job.sourceName, job.targetReleaseId, job.maxAttempts⟩

/-! ### Rows -/

variable {job : ScrapeJob}

/-- A row of `scraper_jobs`. -/
structure JobRow where
  id : Text
  sourceName : Text
  targetReleaseId : Option Text
  status : JobStatus
  stage : Text
  attempts : ℕ
  maxAttempts : ℤ
  leaseUntil : Option ℤ
  payload : ScrapeJob
  lastError : Option Text
  createdAt : ℤ
  updatedAt : ℤ
  deriving DecidableEq, Repr

/-- The table `scraper_jobs`. -/
abbrev JobTable := Table JobRow JobRow.id

variable {row : JobRow}

namespace JobRow

def identity (row : JobRow) : JobIdentity :=
  ⟨row.id, row.sourceName, row.targetReleaseId, row.maxAttempts⟩

/-- The columns say of the job what the payload says. -/
structure Agrees (row : JobRow) : Prop where
  identity : row.payload.identity = row.identity
  status : row.payload.status = row.status
  attempts : row.payload.attempts = row.attempts

/-- `_row_to_job`. -/
def toJob (row : JobRow) : ScrapeJob := row.payload

/-- The columns that `_insert_job` fills. -/
def ofNewJob (job : ScrapeJob) (now : ℤ) : JobRow where
  id := job.id
  sourceName := job.sourceName
  targetReleaseId := job.targetReleaseId
  status := job.status
  stage := job.stage
  attempts := job.attempts
  maxAttempts := job.maxAttempts
  leaseUntil := none
  payload := job
  lastError := none
  createdAt := now
  updatedAt := now

/-- The assignments of `_update_job`. -/
def write (row : JobRow) (job : ScrapeJob) (leaseEpoch : Option ℤ) (now : ℤ) : JobRow :=
  { row with
    targetReleaseId := job.targetReleaseId
    status := job.status
    stage := job.stage
    attempts := job.attempts
    maxAttempts := job.maxAttempts
    leaseUntil := leaseEpoch.or job.leaseUntil
    payload := job
    lastError := job.lastError
    updatedAt := now }

theorem agrees_ofNewJob (job : ScrapeJob) (now : ℤ) : (ofNewJob job now).Agrees := ⟨rfl, rfl, rfl⟩

theorem identity_write (h : job.identity = row.identity) (leaseEpoch : Option ℤ) (now : ℤ) :
    (row.write job leaseEpoch now).identity = row.identity := by
  rw [← h]
  have hid : job.id = row.id := congrArg JobIdentity.id h
  have hsource : job.sourceName = row.sourceName := congrArg JobIdentity.sourceName h
  simp only [identity, write, ScrapeJob.identity, hid, hsource]

theorem agrees_write (h : job.identity = row.identity) (leaseEpoch : Option ℤ) (now : ℤ) :
    (row.write job leaseEpoch now).Agrees :=
  ⟨h.trans (identity_write h leaseEpoch now).symm, rfl, rfl⟩

end JobRow

/-! ### The calls of the store -/

/-- How a call of the store fails. -/
inductive StoreError
  | duplicateId
  | unknownJob (jobId : Text)
  deriving DecidableEq, Repr

def second : ℤ := 1000000

namespace JobTable

def updateJob (table : JobTable) (job : ScrapeJob) (leaseEpoch : Option ℤ) (now : ℤ) : JobTable :=
  table.updateWhere (fun row ↦ row.id == job.id) (fun row ↦ row.write job leaseEpoch now)
    fun _ ↦ rfl

def getJob (table : JobTable) (jobId : Text) : Option ScrapeJob := (table.find jobId).map JobRow.toJob

def activeJobs (table : JobTable) (sourceName : Text) (targetReleaseId : Option Text) :
    List JobRow :=
  table.rows.filter fun row ↦
    row.sourceName == sourceName && row.targetReleaseId == targetReleaseId && row.status.active

/-- `enqueue`: the oldest active job of the source and the release, or a new one. -/
def enqueue (table : JobTable) (sourceName : Text) (targetReleaseId : Option Text)
    (maxAttempts : ℤ) (uuid : Text) (now : ℤ) : Except StoreError (ScrapeJob × JobTable) :=
  match ((table.activeJobs sourceName targetReleaseId).insertionSort fun first other ↦
      first.createdAt ≤ other.createdAt).head? with
  | some row => .ok (row.toJob, table)
  | none =>
    let job := ScrapeJob.new uuid sourceName targetReleaseId maxAttempts now
    if (table.find uuid).isSome then .error .duplicateId
    else .ok (job, table.upsert (.ofNewJob job now))

/-- The condition of `claim` on a row. -/
def claimable (now : ℤ) (row : JobRow) : Bool :=
  (row.status == .queued || row.status == .retry) && row.leaseUntil.all (fun lease ↦ lease < now) &&
    decide ((row.attempts : ℤ) < row.maxAttempts)

/-- The row that a claim takes. -/
def nextRow (table : JobTable) (now : ℤ) : Option JobRow :=
  ((table.rows.filter (claimable now)).insertionSort fun first other ↦
    first.updatedAt < other.updatedAt ∨
      first.updatedAt = other.updatedAt ∧ first.createdAt ≤ other.createdAt).head?

/-- The copy of a job that a claim returns. -/
def claimed (job : ScrapeJob) (lease now : ℤ) : ScrapeJob :=
  { job with
    attempts := job.attempts + 1
    status := .discovering
    stage := "DISCOVERY"
    leaseUntil := some lease
    updatedAt := now }

def claim (table : JobTable) (leaseSeconds now : ℤ) : Option ScrapeJob × JobTable :=
  match table.nextRow now with
  | none => (none, table)
  | some row =>
    let lease := now + max 1 leaseSeconds * second
    let job := claimed row.toJob lease now
    (some job, table.updateJob job (some lease) now)

/-- The copy that `save` stores when it is given a lease. -/
def leased (job : ScrapeJob) (leaseSeconds now : ℤ) : ScrapeJob :=
  { job with leaseUntil := some (now + max 1 leaseSeconds * second) }

/-- `heartbeat`: `save` with a lease. -/
def heartbeat (table : JobTable) (job : ScrapeJob) (leaseSeconds now : ℤ) : JobTable :=
  table.updateJob (leased job leaseSeconds now) (some (now + max 1 leaseSeconds * second)) now

/-- `save` without a lease. -/
def save (table : JobTable) (job : ScrapeJob) (now : ℤ) : JobTable := table.updateJob job none now

/-- The copy that `complete` stores. -/
def completed (job : ScrapeJob) (now : ℤ) : ScrapeJob :=
  { job with status := .done, stage := "DONE", leaseUntil := none, updatedAt := now }

/-- The status of a job after a failure or an expired lease. -/
def retryStatus (job : ScrapeJob) (retry : Bool) : JobStatus :=
  if retry && decide ((job.attempts : ℤ) < job.maxAttempts) then .retry else .failed

/-- The copy that `fail` stores. -/
def failed (job : ScrapeJob) (error : Text) (retry : Bool) (now : ℤ) : ScrapeJob :=
  { job with
    status := retryStatus job retry
    stage := (retryStatus job retry).value
    lastError := some (error.take 4000)
    leaseUntil := none
    updatedAt := now }

/-- The copy that `cancel` stores. -/
def cancelled (job : ScrapeJob) (reason : Text) : ScrapeJob :=
  { job with
    status := .cancelled
    stage := "CANCELLED"
    lastError := some (reason.take 4000)
    leaseUntil := none }

def cancel (table : JobTable) (jobId reason : Text) (now : ℤ) : Except StoreError JobTable :=
  match table.getJob jobId with
  | none => .error (.unknownJob jobId)
  | some job => .ok (table.save (cancelled job reason) now)

/-- The condition of `recover_expired` on a row. -/
def expired (now : ℤ) (row : JobRow) : Bool :=
  row.leaseUntil.any (fun lease ↦ lease < now) && !row.status.ended

/-- The copy that `recover_expired` stores. -/
def recovered (job : ScrapeJob) : ScrapeJob :=
  { job with
    status := retryStatus job true
    stage := (retryStatus job true).value
    leaseUntil := none
    lastError := some "lease expired; job recovered after scraper restart" }

def recoverExpired (table : JobTable) (now : ℤ) : JobTable :=
  table.updateWhere (expired now) (fun row ↦ row.write (recovered row.toJob) none now) fun _ ↦ rfl

/-! ### What the calls do -/

variable {table : JobTable}

variable {now : ℤ}

theorem mem_updateJob {leaseEpoch : Option ℤ} :
    row ∈ table.updateJob job leaseEpoch now ↔
      ∃ old ∈ table, row = if old.id == job.id then old.write job leaseEpoch now else old :=
  Table.mem_updateWhere

theorem getJob_eq_some {jobId : Text} :
    table.getJob jobId = some job ↔ ∃ row ∈ table, row.id = jobId ∧ row.payload = job := by
  simp only [getJob, Option.map_eq_some_iff, Table.find_eq_some, JobRow.toJob, and_assoc]

theorem nextRow_eq_some (h : table.nextRow now = some row) :
    row ∈ table ∧ claimable now row = true := by
  have hmem := mem_of_mem_head? h
  rw [mem_insertionSort, mem_filter] at hmem
  exact hmem

/-- What a successful `enqueue` leaves: the same table, or one new row for a source and a release
without an active job. -/
theorem enqueue_eq_ok {sourceName : Text} {targetReleaseId : Option Text} {maxAttempts : ℤ}
    {uuid : Text} {made : JobTable}
    (h : table.enqueue sourceName targetReleaseId maxAttempts uuid now = .ok (job, made)) :
    made = table ∨ (∀ row ∈ table, row.id ≠ uuid) ∧
      (∀ row ∈ table, row.sourceName = sourceName → row.targetReleaseId = targetReleaseId →
        row.status.active = false) ∧
      made = table.upsert
        (.ofNewJob (ScrapeJob.new uuid sourceName targetReleaseId maxAttempts now) now) := by
  unfold enqueue at h
  split at h
  · exact .inl (Prod.mk.inj (Except.ok.inj h)).2.symm
  · next hnone =>
    rw [List.head?_eq_none_iff] at hnone
    split_ifs at h with hknown
    refine .inr ⟨?_, ?_, (Prod.mk.inj (Except.ok.inj h)).2.symm⟩
    · rw [Option.not_isSome_iff_eq_none, Table.find_eq_none] at hknown
      exact hknown
    · intro row hrow hsource htarget
      by_contra hactive
      rw [Bool.not_eq_false] at hactive
      have hmem : row ∈ (table.activeJobs sourceName targetReleaseId).insertionSort
          fun first other ↦ first.createdAt ≤ other.createdAt := by
        rw [mem_insertionSort, activeJobs, mem_filter, hsource, htarget, hactive]
        simp only [beq_self_eq_true, Bool.and_self, and_true]
        exact hrow
      rw [hnone] at hmem
      cases hmem

end JobTable

end GameLauncher.Scraper
