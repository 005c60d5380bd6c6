import Mathlib.Data.List.Sort
import GameLauncher.Foundation.Table
import GameLauncher.Foundation.Text

/-!
# The job queues of the control plane

The tables `restore_jobs` and `pack_restore_jobs` hold jobs that bring stored content back to a HOT
provider, and `ingestion_jobs` holds the stages of an ingestion. A worker claims a job for a limited
time, its lease; it then completes or fails the job, and a recovery takes back the jobs whose lease
has passed. Each function is one transaction of the database, with the time of the transaction as an
argument. The restore queues have the same statements on two tables, so there is one definition for
each statement and one name for each table.

A partial unique index allows at most one active job for a content and a provider. It is part of the
table type, and a statement that would break it fails and changes nothing.

`claim` skips rows that other transactions have locked. The time of a lease is read from the clock of
the worker, every other time from the clock of the database.
-/

set_option autoImplicit false

namespace GameLauncher.Jobs

open Foundation List Table

/-- A second, in the microseconds in which times are counted. -/
def second : ℤ := 1000000

/-! ### Restore jobs -/

variable {locked : ℕ → Bool} {now : ℤ}

inductive JobState
  | queued
  | running
  | retry
  | done
  | failed
  deriving DecidableEq, Repr

/-- A row of `restore_jobs` or `pack_restore_jobs`. The content is a chunk or a pack, by its hash. -/
structure RestoreJob where
  id : ℕ
  contentHash : Text
  targetProvider : Text
  state : JobState
  attempts : ℕ
  maxAttempts : ℕ
  nextAttemptAt : ℤ
  leaseUntil : Option ℤ
  workerId : Option Text
  lastError : Option Text
  updatedAt : ℤ
  deriving DecidableEq, Repr

/-- The states that count as active: `QUEUED`, `RUNNING` and `RETRY`. -/
def JobState.isActive : JobState → Bool
  | .queued | .running | .retry => true
  | .done | .failed => false

/-- What the unique index compares. -/
def RestoreJob.target (job : RestoreJob) : Text × Text := (job.contentHash, job.targetProvider)

/-- The unique index: at most one active job for a target. -/
def ActiveUnique (rows : List RestoreJob) : Prop :=
  ∀ first ∈ rows, ∀ other ∈ rows, first.state.isActive = true → other.state.isActive = true →
    first.target = other.target → first.id = other.id

instance (rows : List RestoreJob) : Decidable (ActiveUnique rows) :=
  inferInstanceAs (Decidable (∀ first ∈ rows, ∀ other ∈ rows, _ → _ → _ → _))

/-- A table of restore jobs with its sequence of identifiers. -/
structure JobTable where
  jobs : Table RestoreJob RestoreJob.id
  nextId : ℕ
  id_lt : ∀ job ∈ jobs, job.id < nextId
  active_unique : ActiveUnique jobs.rows

def JobTable.empty : JobTable where
  jobs := .empty
  nextId := 1
  id_lt := fun _ h ↦ absurd h not_mem_nil
  active_unique := fun _ h ↦ absurd h not_mem_nil

/-- How a statement fails. -/
inductive DatabaseError
  | uniqueViolation
  deriving DecidableEq, Repr

/-- A change of a job that leaves its identity alone. -/
structure JobChange where
  apply : RestoreJob → RestoreJob
  id_apply : ∀ job, (apply job).id = job.id

namespace JobTable

/-- `UPDATE … WHERE`, under the unique index. -/
def updateWhere (table : JobTable) (condition : RestoreJob → Bool) (change : JobChange) :
    Except DatabaseError JobTable :=
  if h : ActiveUnique (table.jobs.updateWhere condition change.apply change.id_apply).rows then
    .ok {
      jobs := table.jobs.updateWhere condition change.apply change.id_apply
      nextId := table.nextId
      id_lt := by
        intro job hjob
        obtain ⟨old, hold, rfl⟩ := mem_updateWhere.mp hjob
        have hlt := table.id_lt old hold
        split_ifs
        · rw [change.id_apply]
          exact hlt
        · exact hlt
      active_unique := h }
  else .error .uniqueViolation

/-- A job as `INSERT` makes it, with the defaults of the table. -/
def newJob (id : ℕ) (contentHash targetProvider : Text) (now : ℤ) : RestoreJob where
  id := id
  contentHash := contentHash
  targetProvider := targetProvider
  state := .queued
  attempts := 0
  maxAttempts := 5
  nextAttemptAt := now
  leaseUntil := none
  workerId := none
  lastError := none
  updatedAt := now

/-- `INSERT`, under the unique index. -/
def insert (table : JobTable) (contentHash targetProvider : Text) (now : ℤ) :
    Except DatabaseError (RestoreJob × JobTable) :=
  if h : ActiveUnique
      (table.jobs.upsert (newJob table.nextId contentHash targetProvider now)).rows then
    .ok (newJob table.nextId contentHash targetProvider now, {
      jobs := table.jobs.upsert (newJob table.nextId contentHash targetProvider now)
      nextId := table.nextId + 1
      id_lt := by
        intro job hjob
        rcases mem_upsert.mp hjob with rfl | ⟨hold, -⟩
        · exact Nat.lt_succ_self _
        · exact Nat.lt_succ_of_lt (table.id_lt job hold)
      active_unique := h })
  else .error .uniqueViolation

/-- `enqueue_restore_job` and `enqueue_pack_restore_job`: the active job of the target with the least
identifier, or a new one. -/
def enqueue (table : JobTable) (contentHash targetProvider : Text) (now : ℤ) :
    Except DatabaseError (RestoreJob × JobTable) :=
  match ((table.jobs.rows.filter fun job ↦ job.contentHash == contentHash &&
      job.targetProvider == targetProvider && job.state.isActive).insertionSort
        fun first other ↦ first.id ≤ other.id).head? with
  | some job => .ok (job, table)
  | none => table.insert contentHash targetProvider now

/-- The condition under which a job may be claimed. -/
def claimable (now : ℤ) (job : RestoreJob) : Bool :=
  job.attempts < job.maxAttempts && job.nextAttemptAt ≤ now &&
    (job.state == .queued || job.state == .retry ||
      job.state == .running && job.leaseUntil.all fun lease ↦ lease < now)

/-- The job that a claim takes: the first in the order of `updated_at` and identifier that no other
transaction has locked. -/
def nextJob (table : JobTable) (now : ℤ) (locked : ℕ → Bool) : Option RestoreJob :=
  ((table.jobs.rows.filter fun job ↦ claimable now job && !locked job.id).insertionSort
    fun first other ↦ first.updatedAt < other.updatedAt ∨
      first.updatedAt = other.updatedAt ∧ first.id ≤ other.id).head?

def claimChange (worker : Text) (lease now : ℤ) : JobChange where
  apply := fun job ↦ { job with
    state := .running
    workerId := some worker
    leaseUntil := some lease
    attempts := job.attempts + 1
    updatedAt := now }
  id_apply := fun _ ↦ rfl

/-- `claim_restore_job` and `claim_pack_restore_job`. The worker gets a copy of the job, without the
new time of its last update. -/
def claim (table : JobTable) (worker : Text) (leaseSeconds now workerNow : ℤ)
    (locked : ℕ → Bool) : Except DatabaseError (Option RestoreJob × JobTable) :=
  match table.nextJob now locked with
  | none => .ok (none, table)
  | some job => do
    let lease := workerNow + max leaseSeconds 1 * second
    let claimed ← table.updateWhere (fun other ↦ other.id == job.id) (claimChange worker lease now)
    return (some { (claimChange worker lease now).apply job with updatedAt := job.updatedAt }, claimed)

/-- What a completion writes. -/
def completeChange (now : ℤ) : JobChange where
  apply := fun job ↦ { job with
    state := .done
    leaseUntil := none
    workerId := none
    lastError := none
    updatedAt := now }
  id_apply := fun _ ↦ rfl

/-- `complete_restore_job` and `complete_pack_restore_job`: the row is found by its identifier. -/
def complete (table : JobTable) (jobId : ℕ) (now : ℤ) : Except DatabaseError JobTable :=
  table.updateWhere (fun job ↦ job.id == jobId) (completeChange now)

/-- What a failure writes. -/
def failChange (error : Text) (retry : Bool) (now : ℤ) : JobChange where
  apply := fun job ↦ { job with
    state := if retry then .retry else .failed
    leaseUntil := none
    workerId := none
    lastError := some error
    nextAttemptAt := now + if retry then 30 * second else 0
    updatedAt := now }
  id_apply := fun _ ↦ rfl

/-- `fail_restore_job` and `fail_pack_restore_job`: the row is found by its identifier. -/
def fail (table : JobTable) (jobId : ℕ) (error : Text) (retry : Bool) (now : ℤ) :
    Except DatabaseError JobTable :=
  table.updateWhere (fun job ↦ job.id == jobId) (failChange error retry now)

/-- The jobs that a recovery takes back. -/
def expired (now : ℤ) (job : RestoreJob) : Bool :=
  job.state == .running && job.leaseUntil.any fun lease ↦ lease < now

/-- What a recovery writes. -/
def recoverChange (now : ℤ) : JobChange where
  apply := fun job ↦ { job with
    state := if job.attempts < job.maxAttempts then .retry else .failed
    leaseUntil := none
    workerId := none
    updatedAt := now }
  id_apply := fun _ ↦ rfl

/-- `recover_expired_restore_jobs` and `recover_expired_pack_restore_jobs`. -/
def recoverExpired (table : JobTable) (now : ℤ) : Except DatabaseError JobTable :=
  table.updateWhere (expired now) (recoverChange now)

/-! ### What the statements change -/

variable {table made : JobTable}

theorem updateWhere_eq_ok {condition : RestoreJob → Bool} {change : JobChange}
    (h : table.updateWhere condition change = .ok made) :
    made.jobs = table.jobs.updateWhere condition change.apply change.id_apply := by
  unfold updateWhere at h
  split_ifs at h
  rw [← Except.ok.inj h]

theorem updateWhere_of_active (table : JobTable) (condition : RestoreJob → Bool) (change : JobChange)
    (htarget : ∀ job, (change.apply job).target = job.target)
    (hactive : ∀ job ∈ table.jobs, condition job = true →
      (change.apply job).state.isActive = true → job.state.isActive = true) :
    ∃ made, table.updateWhere condition change = .ok made := by
  have hunique :
      ActiveUnique (table.jobs.updateWhere condition change.apply change.id_apply).rows := by
    intro first hfirst other hother hfirstActive hotherActive hsame
    obtain ⟨oldFirst, holdFirst, rfl⟩ := mem_updateWhere.mp hfirst
    obtain ⟨oldOther, holdOther, rfl⟩ := mem_updateWhere.mp hother
    have hstep (job : RestoreJob) (hjob : job ∈ table.jobs)
        (h : (if condition job then change.apply job else job).state.isActive = true) :
        job.state.isActive = true := by
      split_ifs at h with hcondition
      · exact hactive job hjob hcondition h
      · exact h
    have htargets (job : RestoreJob) :
        (if condition job then change.apply job else job).target = job.target := by
      split_ifs
      · exact htarget job
      · rfl
    have hids (job : RestoreJob) :
        (if condition job then change.apply job else job).id = job.id := by
      split_ifs
      · exact change.id_apply job
      · rfl
    rw [htargets, htargets] at hsame
    rw [hids, hids]
    exact table.active_unique oldFirst holdFirst oldOther holdOther
      (hstep oldFirst holdFirst hfirstActive) (hstep oldOther holdOther hotherActive) hsame
  exact ⟨_, dif_pos hunique⟩

theorem find_of_updateWhere {condition : RestoreJob → Bool} {change : JobChange}
    (h : table.updateWhere condition change = .ok made) (jobId : ℕ) :
    made.jobs.find jobId =
      (table.jobs.find jobId).map fun job ↦ if condition job then change.apply job else job := by
  rw [updateWhere_eq_ok h]
  exact find_updateWhere jobId

theorem nextJob_eq_some {job : RestoreJob} (h : table.nextJob now locked = some job) :
    job ∈ table.jobs ∧ claimable now job = true ∧ locked job.id = false := by
  have hmem := mem_of_mem_head? h
  rw [mem_insertionSort, mem_filter, Bool.and_eq_true, Bool.not_eq_true'] at hmem
  exact hmem

theorem exists_nextJob {job : RestoreJob} (hjob : job ∈ table.jobs)
    (hclaimable : claimable now job = true) (hlocked : locked job.id = false) :
    ∃ next, table.nextJob now locked = some next := by
  have hmem : job ∈ (table.jobs.rows.filter fun job ↦
      claimable now job && !locked job.id).insertionSort (fun first other ↦
        first.updatedAt < other.updatedAt ∨
          first.updatedAt = other.updatedAt ∧ first.id ≤ other.id) := by
    rw [mem_insertionSort, mem_filter, Bool.and_eq_true, Bool.not_eq_true']
    exact ⟨hjob, hclaimable, hlocked⟩
  cases hnext : table.nextJob now locked with
  | some next => exact ⟨next, rfl⟩
  | none =>
    rw [nextJob, List.head?_eq_none_iff] at hnext
    rw [hnext] at hmem
    cases hmem

end JobTable

/-! ### Ingestion jobs -/

/-- The stage of an ingestion job. The queue itself writes three of them. -/
inductive Stage
  | done
  | failed
  | retry
  | named (name : Text)
  deriving DecidableEq, Repr

/-- A row of `ingestion_jobs`. -/
structure IngestionJob where
  id : ℕ
  buildId : Option Text
  stage : Stage
  attempts : ℕ
  maxAttempts : ℕ
  workerId : Option Text
  leaseUntil : Option ℤ
  lastError : Option Text
  updatedAt : ℤ
  deriving DecidableEq, Repr

/-- What a worker gets from `claim_job`. -/
structure ClaimedIngestionJob where
  id : ℕ
  buildId : Option Text
  stage : Stage
  attempts : ℕ
  leaseUntil : ℤ
  deriving DecidableEq, Repr

/-- The table `ingestion_jobs`. -/
abbrev IngestionTable := Table IngestionJob IngestionJob.id

namespace IngestionTable

/-- The stage is neither `DONE` nor `FAILED`. -/
def isOpen (job : IngestionJob) : Bool := job.stage != .done && job.stage != .failed

/-- The condition under which a job may be claimed. -/
def claimable (now : ℤ) (job : IngestionJob) : Bool :=
  job.attempts < job.maxAttempts && job.leaseUntil.all (fun lease ↦ lease < now) && isOpen job

/-- The job that a claim takes. -/
def nextJob (table : IngestionTable) (now : ℤ) (locked : ℕ → Bool) : Option IngestionJob :=
  ((table.rows.filter fun job ↦ claimable now job && !locked job.id).insertionSort
    fun first other ↦ first.updatedAt < other.updatedAt ∨
      first.updatedAt = other.updatedAt ∧ first.id ≤ other.id).head?

def claimJob (table : IngestionTable) (worker : Text) (leaseSeconds now workerNow : ℤ)
    (locked : ℕ → Bool) : Option ClaimedIngestionJob × IngestionTable :=
  match nextJob table now locked with
  | none => (none, table)
  | some job =>
    (some {
        id := job.id
        buildId := job.buildId
        stage := job.stage
        attempts := job.attempts + 1
        leaseUntil := workerNow + max leaseSeconds 1 * second },
      table.updateWhere (fun other ↦ other.id == job.id) (fun other ↦ { other with
        workerId := some worker
        leaseUntil := some (workerNow + max leaseSeconds 1 * second)
        attempts := other.attempts + 1
        updatedAt := now }) fun _ ↦ rfl)

/-- `complete_job`: the row is found by its identifier. -/
def completeJob (table : IngestionTable) (jobId : ℕ) (stage : Stage) (now : ℤ) : IngestionTable :=
  table.updateWhere (fun job ↦ job.id == jobId) (fun job ↦ { job with
    stage := stage
    leaseUntil := none
    workerId := none
    lastError := none
    updatedAt := now }) fun _ ↦ rfl

/-- `fail_job`: the row is found by its identifier. -/
def failJob (table : IngestionTable) (jobId : ℕ) (error : Text) (retry : Bool) (now : ℤ) :
    IngestionTable :=
  table.updateWhere (fun job ↦ job.id == jobId) (fun job ↦ { job with
    stage := if retry then .retry else .failed
    leaseUntil := none
    workerId := none
    lastError := some error
    updatedAt := now }) fun _ ↦ rfl

def recoverExpiredJobs (table : IngestionTable) (now : ℤ) : IngestionTable :=
  table.updateWhere (fun job ↦ job.leaseUntil.any (fun lease ↦ lease < now) && isOpen job)
    (fun job ↦ { job with
      leaseUntil := none
      workerId := none
      stage := if job.attempts < job.maxAttempts then .retry else .failed
      updatedAt := now }) fun _ ↦ rfl

theorem nextJob_eq_some {table : IngestionTable} {job : IngestionJob}
    (h : nextJob table now locked = some job) : job ∈ table ∧ claimable now job = true := by
  have hmem := mem_of_mem_head? h
  rw [mem_insertionSort, mem_filter, Bool.and_eq_true] at hmem
  exact ⟨hmem.1, hmem.2.1⟩

end IngestionTable

end GameLauncher.Jobs
