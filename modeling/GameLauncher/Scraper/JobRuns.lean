import GameLauncher.Foundation.Run
import GameLauncher.Scraper.JobStore

/-!
# Workers on the scraper's jobs

Any number of workers run `IngestionScheduler.run_once` on one store. A worker keeps the copy of the
job that its claim returned, changes the copy as it goes and stores all of it at every heartbeat and
at the end, whatever has become of the row since. The system is the table together with the workers,
and a run is any sequence of calls, with crashes, exceptions of the scraping service and calls that
raise without writing.

`jobs_stay_ended` shows that ended jobs stay ended, that the counter of attempts is the number of
claims and that a source and a release have at most one active job, in every run in which a worker
writes only while its claim is in force and only jobs that have not ended are cancelled.
-/

set_option autoImplicit false

namespace GameLauncher.Scraper

open Foundation List JobTable Table

/-! ### A worker -/

/-- How far a worker has come with its job. -/
inductive Phase
  /-- The job is claimed, and its source is looked up next. -/
  | claimed
  /-- The source is found, and `discover` runs. -/
  | discovering
  /-- A successful discovery is recorded, and the job is stored as `ACQUIRING` next. -/
  | discovered
  /-- `acquire` runs, with a heartbeat at every progress callback. -/
  | acquiring
  /-- `_finish` begins. -/
  | finishing (outcome : ScrapeOutcome)
  /-- `_finish` has recorded the outcome, and the job is completed or failed next. -/
  | recorded (outcome : ScrapeOutcome)
  deriving DecidableEq, Repr

/-- A worker in `run_once`, with its copy of the job. While it is guarded, an exception leads to
`_finish`; otherwise it ends `run_once`. -/
structure Worker where
  job : ScrapeJob
  phase : Phase
  guarded : Bool
  leaseSeconds : ℤ
  deriving DecidableEq, Repr

/-- What happens to a worker between two calls of the store. -/
inductive Progress
  | sourceFound
  | sourceMissing (message : Text)
  | acquired (outcome : ScrapeOutcome)
  | raised (message : Text)
  deriving DecidableEq, Repr

/-- A call of the store that a worker makes. -/
inductive Call
  | recordDiscovery (outcome : ScrapeOutcome)
  | startAcquisition
  | reportProgress
  | recordOutcome
  | finish
  deriving DecidableEq, Repr

/-- What `_record` sets before its heartbeat. -/
def recorded (job : ScrapeJob) (outcome : ScrapeOutcome) : ScrapeJob :=
  { job with
    visitedUrls := outcome.visitedUrls.eraseDups
    actionHistory := outcome.actionHistory
    geminiCalls := outcome.geminiCalls
    browserActions := outcome.browserActions
    resultStatus := some outcome.status
    lastError := if outcome.status = .success then none else some (outcome.message.take 4000) }

/-- The copy that `_finish` hands to `complete` or `fail`. -/
def withArtifact (job : ScrapeJob) (outcome : ScrapeOutcome) : ScrapeJob :=
  match outcome.artifact with
  | some artifact => { job with resolvedArtifact := some artifact }
  | none => job

def ending (job : ScrapeJob) (outcome : ScrapeOutcome) (now : ℤ) : ScrapeJob :=
  if outcome.status = .success then JobTable.completed (withArtifact job outcome) now
  else
    JobTable.failed (withArtifact job outcome)
      (if outcome.message = [] then outcome.status.value else outcome.message)
      (outcome.status = .rateLimited || outcome.status = .temporaryFailure) now

variable {worker : Worker}

namespace Worker

/-- A call that stores the given copy with a lease. -/
def heartbeat (worker : Worker) (job : ScrapeJob) (now : ℤ) (next : Phase) :
    Option (Worker × Option ℤ × Bool) :=
  some ({ worker with job := JobTable.leased job worker.leaseSeconds now, phase := next },
    some (now + max 1 worker.leaseSeconds * second), false)

/-- The call that is due: the worker afterwards, with the copy it stores, the lease it stores, and
whether `run_once` ends with the call. -/
def call (worker : Worker) (now : ℤ) : Call → Option (Worker × Option ℤ × Bool)
  | .recordDiscovery outcome =>
    if worker.phase = .discovering then
      worker.heartbeat (recorded worker.job outcome) now
        (if outcome.status = .success then .discovered else .finishing outcome)
    else none
  | .startAcquisition =>
    if worker.phase = .discovered then
      worker.heartbeat { worker.job with status := .acquiring, stage := "ACQUIRING" } now
        .acquiring
    else none
  | .reportProgress =>
    if worker.phase = .acquiring then worker.heartbeat worker.job now .acquiring else none
  | .recordOutcome =>
    match worker.phase with
    | .finishing outcome =>
      worker.heartbeat (recorded worker.job outcome) now (.recorded outcome)
    | _ => none
  | .finish =>
    match worker.phase with
    | .recorded outcome =>
      some ({ worker with job := ending worker.job outcome now }, none, true)
    | _ => none

/-- An exception: the handler of `run_once` goes on to `_finish`, unless it is the handler itself
that has raised, or a statement outside it. -/
def raise (worker : Worker) (message : Text) : Option Worker :=
  if worker.guarded then
    some { worker with
      phase := .finishing (.ofStatus .temporaryFailure
        ("unexpected scraper failure: " ++ message))
      guarded := false }
  else none

/-- What a worker does between two calls. -/
def progress (worker : Worker) : Progress → Option Worker
  | .sourceFound =>
    if worker.phase = .claimed then some { worker with phase := .discovering, guarded := true }
    else some worker
  | .sourceMissing message =>
    if worker.phase = .claimed then
      some { worker with phase := .finishing (.ofStatus .permanentFailure message) }
    else some worker
  | .acquired outcome =>
    if worker.phase = .acquiring then some { worker with phase := .finishing outcome }
    else some worker
  | .raised message => worker.raise message

theorem call_job {after : Worker} {now : ℤ} {request : Call} {lease : Option ℤ} {ends : Bool}
    (h : worker.call now request = some (after, lease, ends)) :
    after.job.identity = worker.job.identity ∧ after.job.attempts = worker.job.attempts ∧
      (worker.job.status ≠ .ready → after.job.status ≠ .ready) := by
  cases request with
  | recordDiscovery outcome =>
    simp only [call, heartbeat] at h
    split_ifs at h <;> cases h <;> exact ⟨rfl, rfl, id⟩
  | startAcquisition =>
    simp only [call, heartbeat] at h
    split_ifs at h
    cases h
    exact ⟨rfl, rfl, fun _ ↦ JobStatus.noConfusion⟩
  | reportProgress =>
    simp only [call, heartbeat] at h
    split_ifs at h
    cases h
    exact ⟨rfl, rfl, id⟩
  | recordOutcome =>
    simp only [call, heartbeat] at h
    split at h
    · cases h
      exact ⟨rfl, rfl, id⟩
    · cases h
  | finish =>
    simp only [call] at h
    split at h
    · next outcome hphase =>
      cases h
      have hartifact : (withArtifact worker.job outcome).identity = worker.job.identity ∧
          (withArtifact worker.job outcome).attempts = worker.job.attempts := by
        unfold withArtifact
        split <;> exact ⟨rfl, rfl⟩
      change (ending worker.job outcome now).identity = _ ∧
        (ending worker.job outcome now).attempts = _ ∧
        (_ → (ending worker.job outcome now).status ≠ .ready)
      unfold ending
      split_ifs
      · exact ⟨hartifact.1, hartifact.2, fun _ ↦ JobStatus.noConfusion⟩
      all_goals
        refine ⟨hartifact.1, hartifact.2, fun _ ↦ ?_⟩
        simp only [failed, retryStatus]
        split_ifs <;> exact JobStatus.noConfusion
    · cases h

theorem progress_job {after : Worker} {event : Progress} (h : worker.progress event = some after) :
    after.job = worker.job := by
  cases event with
  | raised message =>
    simp only [progress, raise] at h
    split_ifs at h
    cases h
    rfl
  | _ =>
    simp only [progress] at h
    split_ifs at h <;> cases h <;> rfl

end Worker

/-! ### The system -/

/-- The table, the workers and the identifiers of the jobs that claims have returned. -/
structure System where
  table : JobTable
  workers : ℕ → Option Worker
  claims : List Text

/-- No job and no worker. -/
def System.empty : System := ⟨.empty, fun _ ↦ none, []⟩

/-- A call of the store, or something that happens to a worker. A worker's call may raise instead of
writing. -/
inductive Action
  | enqueue (sourceName : Text) (targetReleaseId : Option Text) (maxAttempts : ℤ) (uuid : Text)
      (now : ℤ)
  | claim (worker : ℕ) (leaseSeconds now : ℤ)
  | progress (worker : ℕ) (event : Progress)
  | call (worker : ℕ) (request : Call) (now : ℤ)
  | failedCall (worker : ℕ) (request : Call) (now : ℤ) (message : Text)
  | crash (worker : ℕ)
  | cancel (jobId reason : Text) (now : ℤ)
  | recoverExpired (now : ℤ)
  deriving DecidableEq, Repr

namespace System

/-- The system with a new state of one worker. -/
def setWorker (system : System) (name : ℕ) (worker : Option Worker) : System :=
  { system with workers := Function.update system.workers name worker }

def step (system : System) : Action → System
  | .enqueue sourceName targetReleaseId maxAttempts uuid now =>
    match system.table.enqueue sourceName targetReleaseId maxAttempts uuid now with
    | .ok (_, table) => { system with table := table }
    | .error _ => system
  | .claim name leaseSeconds now =>
    if (system.workers name).isSome then system
    else match system.table.claim leaseSeconds now with
      | (some job, table) =>
        ({ system with table := table, claims := job.id :: system.claims }).setWorker name
          (some ⟨job, .claimed, false, leaseSeconds⟩)
      | (none, _) => system
  | .progress name event =>
    match system.workers name with
    | some worker => system.setWorker name (worker.progress event)
    | none => system
  | .call name request now =>
    match (system.workers name).bind fun worker ↦ worker.call now request with
    | some (after, lease, ends) =>
      ({ system with table := system.table.updateJob after.job lease now }).setWorker name
        (if ends then none else some after)
    | none => system
  | .failedCall name request now message =>
    match (system.workers name).bind fun worker ↦ worker.call now request with
    | some (after, _, _) => system.setWorker name (after.raise message)
    | none => system
  | .crash name => system.setWorker name none
  | .cancel jobId reason now =>
    match system.table.cancel jobId reason now with
    | .ok table => { system with table := table }
    | .error _ => system
  | .recoverExpired now => { system with table := system.table.recoverExpired now }

end System

/-! ### What the runs are to keep -/

variable {row : JobRow}

/-- What a later state keeps of the jobs of an earlier one. -/
structure Lasting (earlier later : System) : Prop where
  kept : ∀ row ∈ earlier.table, ∃ after ∈ later.table,
    after.identity = row.identity ∧ row.attempts ≤ after.attempts ∧
      (row.status.ended = true → after.status = row.status)

/-- What holds of the jobs of one state. -/
structure Accounted (system : System) : Prop where
  read_back : ∀ row ∈ system.table, row.Agrees
  counted : ∀ row ∈ system.table, row.attempts = system.claims.count row.id
  bounded : ∀ row ∈ system.table, (row.attempts : ℤ) ≤ max 0 row.maxAttempts
  one_active : ∀ first ∈ system.table, ∀ second ∈ system.table,
    first.status.active = true → second.status.active = true →
    first.sourceName = second.sourceName → first.targetReleaseId = second.targetReleaseId →
    first = second

/-- A worker writes only while its claim is in force, that is, while the job has not ended and has
not been claimed again; and only a job that has not ended is cancelled. -/
def InForce (system : System) : Action → Prop
  | .call name _ _ => ∀ worker, system.workers name = some worker →
      ∀ row ∈ system.table, row.id = worker.job.id →
        row.status.ended = false ∧ row.attempts = worker.job.attempts
  | .cancel jobId _ _ => ∀ row ∈ system.table, row.id = jobId → row.status.ended = false
  | _ => True

instance (system : System) : (action : Action) → Decidable (InForce system action)
  | .call name _ _ => inferInstanceAs (Decidable (∀ worker ∈ system.workers name,
      ∀ row ∈ system.table.rows, row.id = worker.job.id →
        row.status.ended = false ∧ row.attempts = worker.job.attempts))
  | .cancel jobId _ _ => inferInstanceAs (Decidable (∀ row ∈ system.table.rows, row.id = jobId →
      row.status.ended = false))
  | .enqueue .. | .claim .. | .progress .. | .failedCall .. | .crash .. | .recoverExpired .. =>
    isTrue trivial

namespace Lasting

variable {earlier later : System} {jobId : Text}

theorem find (h : Lasting earlier later) (hrow : earlier.table.find jobId = some row) :
    ∃ after, later.table.find jobId = some after ∧ row.attempts ≤ after.attempts ∧
      (row.status.ended = true → after.status = row.status) := by
  obtain ⟨hmem, hid⟩ := find_eq_some.mp hrow
  obtain ⟨after, hafter, hidentity, hlasting⟩ := h.kept row hmem
  have hsame : after.id = row.id := congrArg JobIdentity.id hidentity
  exact ⟨after, find_eq_some.mpr ⟨hafter, hsame.trans hid⟩, hlasting⟩

theorem status_eq (h : Lasting earlier later) {status : JobStatus}
    (hstatus : (earlier.table.find jobId).map JobRow.status = some status)
    (hended : status.ended = true) :
    (later.table.find jobId).map JobRow.status = some status := by
  obtain ⟨row, hrow, rfl⟩ := Option.map_eq_some_iff.mp hstatus
  obtain ⟨after, hafter, -, hsame⟩ := h.find hrow
  rw [hafter, Option.map_some, hsame hended]

end Lasting

/-! ### What a step does to a row -/

/-- What a step may make of a row. -/
structure Continues (system after : System) (row next : JobRow) : Prop where
  identity : next.identity = row.identity
  agrees : next.Agrees
  status : next.status ≠ .ready
  ended : row.status.ended = true → next.status = row.status
  active : next.status.active = true → row.status.active = true
  attempts_le : row.attempts ≤ next.attempts
  counted : next.attempts + system.claims.count row.id = row.attempts + after.claims.count row.id
  bounded : (next.attempts : ℤ) ≤ max (row.attempts : ℤ) row.maxAttempts

/-- A row that a step inserts. -/
structure IsNew (system after : System) (next : JobRow) : Prop where
  agrees : next.Agrees
  status : next.status = .queued
  attempts : next.attempts = 0
  unknown : ∀ row ∈ system.table, row.id ≠ next.id
  none_active : ∀ row ∈ system.table, row.sourceName = next.sourceName →
    row.targetReleaseId = next.targetReleaseId → row.status.active = false
  claims : after.claims = system.claims
  only : ∀ other ∈ after.table, other.id ≠ next.id → other ∈ system.table

/-- What a step may make of the table. -/
structure Evolves (system after : System) : Prop where
  kept : ∀ row ∈ system.table, ∃ next ∈ after.table, Continues system after row next
  origin : ∀ next ∈ after.table,
    (∃ row ∈ system.table, Continues system after row next) ∨ IsNew system after next

/-- The invariant of the runs. -/
structure Consistent (system : System) : Prop extends Accounted system where
  never_ready : ∀ row ∈ system.table, row.status ≠ .ready
  known : ∀ jobId ∈ system.claims, ∃ row ∈ system.table, row.id = jobId
  copies : ∀ name worker, system.workers name = some worker →
    worker.job.status ≠ .ready ∧ ∃ row ∈ system.table, row.identity = worker.job.identity

variable {system after : System}

theorem Continues.refl (hconsistent : Consistent system) (hrow : row ∈ system.table)
    (hclaims : after.claims.count row.id = system.claims.count row.id) :
    Continues system after row row where
  identity := rfl
  agrees := hconsistent.read_back row hrow
  status := hconsistent.never_ready row hrow
  ended := fun _ ↦ rfl
  active := id
  attempts_le := le_rfl
  counted := by rw [hclaims]
  bounded := le_max_left _ _

theorem evolves_updateWhere (condition : JobRow → Bool) (change : JobRow → JobRow)
    (hkey : ∀ row, (change row).id = row.id)
    (htable : after.table = system.table.updateWhere condition change hkey)
    (hchanged : ∀ row ∈ system.table, condition row = true →
      Continues system after row (change row))
    (hsame : ∀ row ∈ system.table, condition row = false → Continues system after row row) :
    Evolves system after := by
  have heach : ∀ row ∈ system.table,
      Continues system after row (if condition row then change row else row) := by
    intro row hrow
    by_cases h : condition row = true
    · rw [if_pos h]
      exact hchanged row hrow h
    · rw [if_neg h]
      exact hsame row hrow (Bool.not_eq_true _ ▸ h)
  constructor
  · intro row hrow
    refine ⟨_, ?_, heach row hrow⟩
    rw [htable]
    exact updated_mem hrow condition change hkey
  · intro next hnext
    rw [htable, mem_updateWhere] at hnext
    obtain ⟨row, hrow, rfl⟩ := hnext
    exact .inl ⟨row, hrow, heach row hrow⟩

theorem Evolves.of_eq (hconsistent : Consistent system) (htable : after.table = system.table)
    (hclaims : after.claims = system.claims) : Evolves system after := by
  have hrefl : ∀ row ∈ system.table, Continues system after row row := fun row hrow ↦
    .refl hconsistent hrow (by rw [hclaims])
  constructor
  · intro row hrow
    exact ⟨row, by rw [htable]; exact hrow, hrefl row hrow⟩
  · intro next hnext
    rw [htable] at hnext
    exact .inl ⟨next, hnext, hrefl next hnext⟩

theorem continues_write (hconsistent : Consistent system) (hrow : row ∈ system.table)
    {job : ScrapeJob} (leaseEpoch : Option ℤ) (now : ℤ) (hidentity : job.identity = row.identity)
    (hready : job.status ≠ .ready) (hended : row.status.ended = false)
    (hattempts : row.attempts ≤ job.attempts)
    (hcounted : job.attempts + system.claims.count row.id =
      row.attempts + after.claims.count row.id)
    (hbounded : (job.attempts : ℤ) ≤ max (row.attempts : ℤ) row.maxAttempts) :
    Continues system after row (row.write job leaseEpoch now) where
  identity := JobRow.identity_write hidentity leaseEpoch now
  agrees := JobRow.agrees_write hidentity leaseEpoch now
  status := hready
  ended := fun h ↦ by rw [hended] at h; cases h
  active := fun _ ↦ JobStatus.active_of_not_ended hended (hconsistent.never_ready row hrow)
  attempts_le := hattempts
  counted := hcounted
  bounded := hbounded

theorem evolves_updateJob (hconsistent : Consistent system) (job : ScrapeJob)
    (leaseEpoch : Option ℤ) (now : ℤ)
    (htable : after.table = system.table.updateJob job leaseEpoch now)
    (hclaims : ∀ jobId, jobId ≠ job.id → after.claims.count jobId = system.claims.count jobId)
    (hrow : ∀ row ∈ system.table, row.id = job.id →
      Continues system after row (row.write job leaseEpoch now)) :
    Evolves system after := by
  refine evolves_updateWhere (fun row ↦ row.id == job.id)
    (fun row ↦ row.write job leaseEpoch now) (fun _ ↦ rfl) htable ?_ ?_
  · intro row hmem hid
    exact hrow row hmem (beq_iff_eq.mp hid)
  · intro row hmem hid
    exact .refl hconsistent hmem (hclaims row.id (beq_eq_false_iff_ne.mp hid))

theorem identity_of_id (hconsistent : Consistent system) {name : ℕ}
    (hworker : system.workers name = some worker) (hrow : row ∈ system.table)
    (hid : row.id = worker.job.id) : worker.job.identity = row.identity := by
  obtain ⟨-, own, hown, hidentity⟩ := hconsistent.copies name worker hworker
  have hsame : own.id = row.id := (congrArg JobIdentity.id hidentity).trans hid.symm
  rw [← hidentity, eq_of_key_eq hown hrow hsame]

theorem evolves_step (hconsistent : Consistent system) {action : Action}
    (hforce : InForce system action) : Evolves system (system.step action) := by
  cases action with
  | enqueue sourceName targetReleaseId maxAttempts uuid now =>
    simp only [System.step]
    split
    · next job table henqueue =>
      rcases enqueue_eq_ok henqueue with hsame | ⟨hunknown, hinactive, hmade⟩
      · exact .of_eq hconsistent hsame rfl
      · have hmem : ∀ row, row ∈ table ↔ row = .ofNewJob (ScrapeJob.new uuid sourceName
            targetReleaseId maxAttempts now) now ∨ row ∈ system.table ∧ row.id ≠ uuid := by
          intro row
          rw [hmade]
          exact mem_upsert
        constructor
        · intro row hrow
          exact ⟨row, (hmem row).mpr (.inr ⟨hrow, hunknown row hrow⟩), .refl hconsistent hrow rfl⟩
        · intro next hnext
          rcases (hmem next).mp hnext with rfl | ⟨hold, -⟩
          · refine .inr ⟨JobRow.agrees_ofNewJob _ _, rfl, rfl, hunknown, hinactive, rfl, ?_⟩
            intro other hother hid
            rcases (hmem other).mp hother with rfl | ⟨hold, -⟩
            · exact absurd rfl hid
            · exact hold
          · exact .inl ⟨next, hold, .refl hconsistent hold rfl⟩
    · exact .of_eq hconsistent rfl rfl
  | claim name leaseSeconds now =>
    simp only [System.step]
    split_ifs
    · exact .of_eq hconsistent rfl rfl
    · split
      · next job table hclaim =>
        unfold claim at hclaim
        split at hclaim
        · cases hclaim
        · next row hnext =>
          obtain ⟨hrow, hclaimable⟩ := nextRow_eq_some hnext
          have hagrees := hconsistent.read_back row hrow
          cases hclaim
          have hid : row.payload.id = row.id := congrArg JobIdentity.id hagrees.identity
          simp only [claimable, Bool.and_eq_true, Bool.or_eq_true, beq_iff_eq,
            decide_eq_true_eq] at hclaimable
          refine evolves_updateJob hconsistent (claimed row.toJob
            (now + max 1 leaseSeconds * second) now)
            (some (now + max 1 leaseSeconds * second)) now rfl ?_ ?_
          · intro jobId hne
            exact count_cons_of_ne hne.symm
          · intro other hother hsame
            obtain rfl : other = row := eq_of_key_eq hother hrow (hsame.trans hid)
            have hattempts : (claimed other.toJob (now + max 1 leaseSeconds * second)
                now).attempts = other.attempts + 1 := congrArg (· + 1) hagrees.attempts
            refine continues_write hconsistent hrow _ now hagrees.identity JobStatus.noConfusion
              ?_ ?_ ?_ ?_
            · rcases hclaimable.1.1 with h | h <;> rw [h] <;> rfl
            · omega
            · rw [hattempts]
              change _ = other.attempts + (other.payload.id :: system.claims).count other.id
              rw [hid, count_cons_self]
              omega
            · rw [hattempts]
              exact le_max_of_le_right (by exact_mod_cast hclaimable.2)
      · exact .of_eq hconsistent rfl rfl
  | progress _ _ | failedCall _ _ _ _ =>
    simp only [System.step]
    split <;> exact .of_eq hconsistent rfl rfl
  | call name request now =>
    simp only [System.step]
    split
    · next written lease ends hcall =>
      obtain ⟨worker, hworker, hcall⟩ := Option.bind_eq_some_iff.mp hcall
      obtain ⟨hidentity, hattempts, hready⟩ := Worker.call_job hcall
      have hid : written.job.id = worker.job.id := congrArg JobIdentity.id hidentity
      refine evolves_updateJob hconsistent written.job lease now rfl (fun _ _ ↦ rfl) ?_
      intro row hrow hsame
      obtain ⟨hended, hcurrent⟩ := hforce worker hworker row hrow (hsame.trans hid)
      have hjob : written.job.attempts = row.attempts := by rw [hattempts, hcurrent]
      exact continues_write hconsistent hrow lease now
        (hidentity.trans (identity_of_id hconsistent hworker hrow (hsame.trans hid)))
        (hready (hconsistent.copies name worker hworker).1) hended hjob.ge (by rw [hjob]; rfl)
        (by rw [hjob]; exact le_max_left _ _)
    · exact .of_eq hconsistent rfl rfl
  | crash name => exact .of_eq hconsistent rfl rfl
  | cancel jobId reason now =>
    simp only [System.step]
    split
    · next table hcancel =>
      unfold cancel at hcancel
      split at hcancel
      · cases hcancel
      · next job hjob =>
        obtain ⟨row, hrow, hid, rfl⟩ := getJob_eq_some.mp hjob
        have hagrees := hconsistent.read_back row hrow
        cases hcancel
        refine evolves_updateJob hconsistent (cancelled row.payload reason) none now rfl
          (fun _ _ ↦ rfl) ?_
        intro other hother hsame
        obtain rfl : other = row := eq_of_key_eq hother hrow
          (hsame.trans (congrArg JobIdentity.id hagrees.identity))
        have hattempts : (cancelled other.payload reason).attempts = other.attempts :=
          hagrees.attempts
        exact continues_write hconsistent hrow none now hagrees.identity JobStatus.noConfusion
          (hforce other hrow hid) hattempts.ge (by rw [hattempts])
          (by rw [hattempts]; exact le_max_left _ _)
    · exact .of_eq hconsistent rfl rfl
  | recoverExpired now =>
    refine evolves_updateWhere (expired now)
      (fun row ↦ row.write (recovered row.toJob) none now) (fun _ ↦ rfl) rfl ?_
      fun row hrow _ ↦ .refl hconsistent hrow rfl
    intro row hrow hexpired
    have hagrees := hconsistent.read_back row hrow
    rw [expired, Bool.and_eq_true, Bool.not_eq_true'] at hexpired
    have hattempts : (recovered row.toJob).attempts = row.attempts := hagrees.attempts
    refine continues_write hconsistent hrow none now hagrees.identity ?_ hexpired.2 hattempts.ge
      (by rw [hattempts]; rfl) (by rw [hattempts]; exact le_max_left _ _)
    simp only [recovered, retryStatus]
    split_ifs <;> exact JobStatus.noConfusion

/-! ### Runs -/

theorem copies_step (hconsistent : Consistent system) (action : Action) {name : ℕ}
    (h : (system.step action).workers name = some worker) :
    worker.job.status ≠ .ready ∧ ∃ row ∈ system.table, row.identity = worker.job.identity := by
  -- A worker other than the one that acts is as before.
  have hset : ∀ (base : System) (actor : ℕ) (next : Option Worker), base.workers = system.workers →
      (∀ made, next = some made →
        made.job.status ≠ .ready ∧ ∃ row ∈ system.table, row.identity = made.job.identity) →
      (base.setWorker actor next).workers name = some worker →
      worker.job.status ≠ .ready ∧ ∃ row ∈ system.table, row.identity = worker.job.identity := by
    intro base actor next hbase hmade hworker
    change Function.update base.workers actor next name = some worker at hworker
    rw [hbase] at hworker
    by_cases hname : name = actor
    · rw [hname, Function.update_self] at hworker
      exact hmade worker hworker
    · rw [Function.update_of_ne hname] at hworker
      exact hconsistent.copies name worker hworker
  have hcall : ∀ {actor : ℕ} {request : Call} {now : ℤ} {made : Worker} {lease : Option ℤ}
      {ends : Bool}, ((system.workers actor).bind fun worker ↦ worker.call now request) =
        some (made, lease, ends) →
      made.job.status ≠ .ready ∧ ∃ row ∈ system.table, row.identity = made.job.identity := by
    intro actor request now made lease ends hcall
    obtain ⟨before, hbefore, hcall⟩ := Option.bind_eq_some_iff.mp hcall
    obtain ⟨hidentity, -, hready⟩ := Worker.call_job hcall
    obtain ⟨hstatus, row, hrow, hown⟩ := hconsistent.copies actor before hbefore
    exact ⟨hready hstatus, row, hrow, hown.trans hidentity.symm⟩
  have hraise : ∀ {before made : Worker} {message : Text}, before.raise message = some made →
      made.job = before.job := fun {before} {made} {message} hmade ↦
    @Worker.progress_job before made (.raised message) hmade
  cases action with
  | enqueue _ _ _ _ _ | cancel _ _ _ =>
    simp only [System.step] at h
    split at h <;> exact hconsistent.copies name worker h
  | claim actor leaseSeconds now =>
    simp only [System.step] at h
    split_ifs at h
    · exact hconsistent.copies name worker h
    · split at h
      · next job table hclaim =>
        refine hset _ actor _ rfl ?_ h
        intro made hmade
        cases hmade
        unfold claim at hclaim
        split at hclaim
        · cases hclaim
        · next row hnext =>
          have hrow := (nextRow_eq_some hnext).1
          cases hclaim
          exact ⟨JobStatus.noConfusion, row, hrow, (hconsistent.read_back row hrow).identity.symm⟩
      · exact hconsistent.copies name worker h
  | progress actor event =>
    simp only [System.step] at h
    split at h
    · next before hbefore =>
      refine hset _ actor _ rfl (fun made hmade ↦ ?_) h
      rw [Worker.progress_job hmade]
      exact hconsistent.copies actor before hbefore
    · exact hconsistent.copies name worker h
  | call actor request now =>
    simp only [System.step] at h
    split at h
    · next made lease ends hmade =>
      refine hset _ actor _ ?_ (fun left hleft ↦ ?_) h
      · rfl
      · split_ifs at hleft
        cases hleft
        exact hcall hmade
    · exact hconsistent.copies name worker h
  | failedCall actor request now message =>
    simp only [System.step] at h
    split at h
    · next made lease ends hmade =>
      refine hset _ actor _ rfl (fun left hleft ↦ ?_) h
      rw [hraise hleft]
      exact hcall hmade
    · exact hconsistent.copies name worker h
  | crash actor => exact hset _ actor _ rfl (fun _ hmade ↦ by cases hmade) h
  | recoverExpired now => exact hconsistent.copies name worker h

theorem claims_step (hconsistent : Consistent system) (action : Action) {jobId : Text}
    (h : jobId ∈ (system.step action).claims) : ∃ row ∈ system.table, row.id = jobId := by
  cases action with
  | claim actor leaseSeconds now =>
    simp only [System.step] at h
    split_ifs at h
    · exact hconsistent.known jobId h
    · split at h
      · next job table hclaim =>
        unfold claim at hclaim
        split at hclaim
        · cases hclaim
        · next row hnext =>
          have hrow := (nextRow_eq_some hnext).1
          cases hclaim
          rcases mem_cons.mp h with rfl | hold
          · exact ⟨row, hrow,
              (congrArg JobIdentity.id (hconsistent.read_back row hrow).identity).symm⟩
          · exact hconsistent.known jobId hold
      · exact hconsistent.known jobId h
  | enqueue _ _ _ _ _ | cancel _ _ _ | progress _ _ | call _ _ _ | failedCall _ _ _ _ =>
    simp only [System.step] at h
    split at h <;> exact hconsistent.known jobId h
  | crash actor => exact hconsistent.known jobId h
  | recoverExpired now => exact hconsistent.known jobId h

namespace Evolves

theorem one_active (hevolves : Evolves system after) (hconsistent : Consistent system) :
    ∀ first ∈ after.table, ∀ second ∈ after.table,
      first.status.active = true → second.status.active = true →
      first.sourceName = second.sourceName → first.targetReleaseId = second.targetReleaseId →
      first = second := by
  intro first hfirst second hsecond hfirstActive hsecondActive hsource htarget
  have hid {row next : JobRow} (h : Continues system after row next) : next.id = row.id :=
    congrArg JobIdentity.id h.identity
  have hfrom {row next : JobRow} (h : Continues system after row next) :
      next.sourceName = row.sourceName :=
    congrArg JobIdentity.sourceName h.identity
  have hrelease {row next : JobRow} (h : Continues system after row next) :
      next.targetReleaseId = row.targetReleaseId :=
    congrArg JobIdentity.targetReleaseId h.identity
  rcases hevolves.origin first hfirst with ⟨row, hrow, hold⟩ | hnew
  · rcases hevolves.origin second hsecond with ⟨other, hother, holdOther⟩ | hnewOther
    · have hsame : row = other := hconsistent.one_active row hrow other hother
        (hold.active hfirstActive) (holdOther.active hsecondActive)
        ((hfrom hold).symm.trans (hsource.trans (hfrom holdOther)))
        ((hrelease hold).symm.trans (htarget.trans (hrelease holdOther)))
      exact eq_of_key_eq hfirst hsecond (by rw [hid hold, hid holdOther, hsame])
    · have hinactive := hnewOther.none_active row hrow ((hfrom hold).symm.trans hsource)
        ((hrelease hold).symm.trans htarget)
      rw [hold.active hfirstActive] at hinactive
      cases hinactive
  · rcases hevolves.origin second hsecond with ⟨other, hother, holdOther⟩ | hnewOther
    · have hinactive := hnew.none_active other hother
        ((hfrom holdOther).symm.trans hsource.symm) ((hrelease holdOther).symm.trans htarget.symm)
      rw [holdOther.active hsecondActive] at hinactive
      cases hinactive
    · by_contra hne
      have hids : second.id ≠ first.id := fun h ↦ hne (eq_of_key_eq hfirst hsecond h.symm)
      exact hnewOther.unknown second (hnew.only second hsecond hids) rfl

theorem accounted (hevolves : Evolves system after) (hconsistent : Consistent system) :
    Accounted after where
  read_back := by
    intro next hnext
    rcases hevolves.origin next hnext with ⟨row, -, hold⟩ | hnew
    · exact hold.agrees
    · exact hnew.agrees
  counted := by
    intro next hnext
    rcases hevolves.origin next hnext with ⟨row, hrow, hold⟩ | hnew
    · have hid : next.id = row.id := congrArg JobIdentity.id hold.identity
      have hcounted := hold.counted
      rw [hconsistent.counted row hrow] at hcounted
      rw [hid]
      omega
    · rw [hnew.attempts, hnew.claims, eq_comm, count_eq_zero]
      intro hclaimed
      obtain ⟨row, hrow, hid⟩ := hconsistent.known _ hclaimed
      exact hnew.unknown row hrow hid
  bounded := by
    intro next hnext
    rcases hevolves.origin next hnext with ⟨row, hrow, hold⟩ | hnew
    · have hmax : next.maxAttempts = row.maxAttempts :=
        congrArg JobIdentity.maxAttempts hold.identity
      rw [hmax]
      exact hold.bounded.trans (max_le (hconsistent.bounded row hrow) (le_max_right _ _))
    · rw [hnew.attempts]
      exact le_max_left _ _
  one_active := hevolves.one_active hconsistent

theorem lasting (hevolves : Evolves system after) : Lasting system after where
  kept := fun row hrow ↦
    let ⟨next, hnext, hold⟩ := hevolves.kept row hrow
    ⟨next, hnext, hold.identity, hold.attempts_le, hold.ended⟩

end Evolves

theorem consistent_step (hconsistent : Consistent system) {action : Action}
    (hforce : InForce system action) : Consistent (system.step action) := by
  have hevolves := evolves_step hconsistent hforce
  refine { hevolves.accounted hconsistent with never_ready := ?_, known := ?_, copies := ?_ }
  · intro next hnext
    rcases hevolves.origin next hnext with ⟨row, -, hold⟩ | hnew
    · exact hold.status
    · rw [hnew.status]
      exact JobStatus.noConfusion
  · intro jobId hclaimed
    obtain ⟨row, hrow, hid⟩ := claims_step hconsistent action hclaimed
    obtain ⟨next, hnext, hold⟩ := hevolves.kept row hrow
    exact ⟨next, hnext, (congrArg JobIdentity.id hold.identity).trans hid⟩
  · intro name worker hworker
    obtain ⟨hready, row, hrow, hidentity⟩ := copies_step hconsistent action hworker
    obtain ⟨next, hnext, hold⟩ := hevolves.kept row hrow
    exact ⟨hready, next, hnext, hold.identity.trans hidentity⟩

theorem consistent_empty : Consistent System.empty where
  read_back := fun _ h ↦ by cases h
  counted := fun _ h ↦ by cases h
  bounded := fun _ h ↦ by cases h
  one_active := fun _ h ↦ by cases h
  never_ready := fun _ h ↦ by cases h
  known := fun _ h ↦ by cases h
  copies := fun _ _ h ↦ by cases h

theorem Lasting.refl (system : System) : Lasting system system where
  kept := fun row hrow ↦ ⟨row, hrow, rfl, le_rfl, fun _ ↦ rfl⟩

theorem Lasting.trans {first second third : System} (h : Lasting first second)
    (h' : Lasting second third) : Lasting first third where
  kept := by
    intro row hrow
    obtain ⟨next, hnext, hidentity, hattempts, hended⟩ := h.kept row hrow
    obtain ⟨last, hlast, hidentity', hattempts', hended'⟩ := h'.kept next hnext
    refine ⟨last, hlast, hidentity'.trans hidentity, hattempts.trans hattempts', fun h ↦ ?_⟩
    rw [hended' (by rw [hended h]; exact h), hended h]

theorem consistent_run (hconsistent : Consistent system) {actions : List Action}
    (hpermitted : Permitted System.step InForce system actions) :
    Consistent (actions.foldl System.step system) ∧
      Lasting system (actions.foldl System.step system) := by
  induction actions generalizing system with
  | nil => exact ⟨hconsistent, .refl system⟩
  | cons action rest ih =>
    obtain ⟨hrun, hlasting⟩ := ih (consistent_step hconsistent hpermitted.1) hpermitted.2
    exact ⟨hrun, (evolves_step hconsistent hpermitted.1).lasting.trans hlasting⟩

/-- Ended jobs stay ended, attempts are the claims and never go down, and a source and a release have
at most one active job: in every run in which workers write only while their claims are in force, and
only jobs that have not ended are cancelled. -/
theorem jobs_stay_ended (earlier later : List Action)
    (hpermitted : Permitted System.step InForce .empty (earlier ++ later)) :
    Accounted ((earlier ++ later).foldl System.step .empty) ∧
      Lasting (earlier.foldl System.step .empty)
        ((earlier ++ later).foldl System.step .empty) := by
  obtain ⟨hfirst, hsecond⟩ := permitted_append.mp hpermitted
  obtain ⟨hconsistent, -⟩ := consistent_run consistent_empty hfirst
  obtain ⟨hlast, hlasting⟩ := consistent_run hconsistent hsecond
  rw [foldl_append]
  exact ⟨hlast.toAccounted, hlasting⟩

def foundRelease : ScrapeOutcome := .ofStatus .success []

def untilDiscovery : List Action :=
  [.enqueue "source" none 5 "job" 0, .claim 0 300 1, .progress 0 .sourceFound,
    .call 0 (.recordDiscovery foundRelease) 2]

/-- The worker acquires the release and completes the job. -/
def untilDone : List Action :=
  [.call 0 .startAcquisition 3, .progress 0 (.acquired foundRelease), .call 0 .recordOutcome 4,
    .call 0 .finish 5]

/-- A run in which the claim of the worker is in force to the end. -/
theorem jobs_stay_ended_done :
    (((untilDiscovery ++ untilDone).foldl System.step .empty).table.find "job").map
        JobRow.status = some .done ∧
      Accounted ((untilDiscovery ++ untilDone).foldl System.step .empty) ∧
      Lasting (untilDiscovery.foldl System.step .empty)
        ((untilDiscovery ++ untilDone).foldl System.step .empty) :=
  ⟨by decide, jobs_stay_ended untilDiscovery untilDone (by decide)⟩

/-- The job is cancelled while the worker searches. -/
def untilCancelled : List Action :=
  untilDiscovery ++ [.cancel "job" "cancelled" 3]

/-- The lease of the worker passes, and another worker claims the job. -/
def untilSecondClaim : List Action :=
  untilDiscovery ++ [.recoverExpired 400000000, .claim 1 300 400000001]

/-- A cancelled job goes back to work with the next call of its worker, and after a second claim the
next call of the first worker takes the second attempt off the counter. -/
theorem cancelled_job_revived :
    (¬ ∀ earlier later : List Action, Accounted ((earlier ++ later).foldl System.step .empty) ∧
      Lasting (earlier.foldl System.step .empty)
        ((earlier ++ later).foldl System.step .empty)) ∧
    ((untilSecondClaim.foldl System.step .empty).table.find "job").map JobRow.attempts = some 2 ∧
    (((untilSecondClaim ++ [Action.call 0 .startAcquisition 400000002]).foldl System.step
      .empty).table.find "job").map JobRow.attempts = some 1 := by
  refine ⟨fun h ↦ ?_, by decide, by decide⟩
  have hlasting := (h untilCancelled [Action.call 0 .startAcquisition 4]).2
  have hcancelled : ((untilCancelled.foldl System.step .empty).table.find "job").map
      JobRow.status = some .cancelled := by decide
  have hrevived : (((untilCancelled ++ [Action.call 0 .startAcquisition 4]).foldl System.step
      .empty).table.find "job").map JobRow.status = some .acquiring := by decide
  rw [hlasting.status_eq hcancelled rfl] at hrevived
  cases hrevived

end GameLauncher.Scraper
