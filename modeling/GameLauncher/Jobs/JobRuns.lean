import GameLauncher.Foundation.Run
import GameLauncher.Jobs.JobQueue

/-!
# Workers on the job queues

Any number of workers claim, complete and fail jobs, and may be slow: a worker keeps the copy of the
job that its claim returned, and acts on that copy later. The system is the three tables together
with the copies the workers hold, and a run is any sequence of transactions.

A worker computes the retry flag of a failure from its copy. `restoreJob_claimable` shows that no
job gets stuck in a run in which no such flag is out of date: every waiting job has attempts left, so
it can be claimed when its time has come, and every running job has a lease, so a recovery takes it
back. `exhausted_retry` is a run in which a slow worker puts an exhausted job back into the queue.

`lease_binds_claim_and_recovery` says what a lease protects a row from, and `late_complete_applies` is
a run in which a worker completes a job that another worker has claimed in the meantime.
-/

set_option autoImplicit false

namespace GameLauncher.Jobs

open Foundation JobTable Option Table

/-! ### The system -/

inductive Queue
  | restoreJobs
  | packRestoreJobs
  deriving DecidableEq, Repr

/-- The tables, and the copies of claimed jobs that workers still act on. -/
structure System where
  tables : Queue → JobTable
  ingestion : IngestionTable
  claims : List (Queue × RestoreJob)
  ingestionClaims : List ClaimedIngestionJob

/-- No job and no claim. -/
def System.empty : System where
  tables := fun _ ↦ .empty
  ingestion := .empty
  claims := []
  ingestionClaims := []

/-- A transaction of some worker, at a time of the database. -/
inductive Action
  | enqueue (queue : Queue) (contentHash targetProvider : Text) (now : ℤ)
  | claim (queue : Queue) (worker : Text) (leaseSeconds now workerNow : ℤ) (locked : ℕ → Bool)
  | complete (queue : Queue) (claimed : RestoreJob) (now : ℤ)
  | fail (queue : Queue) (claimed : RestoreJob) (error : Text) (now : ℤ)
  | recover (queue : Queue) (now : ℤ)
  | claimIngestion (worker : Text) (leaseSeconds now workerNow : ℤ) (locked : ℕ → Bool)
  | completeIngestion (claimed : ClaimedIngestionJob) (stage : Stage) (now : ℤ)
  | failIngestion (claimed : ClaimedIngestionJob) (error : Text) (retry : Bool) (now : ℤ)
  | recoverIngestion (now : ℤ)

/-- The flag that `process_restore_job` and `process_pack_restore_job` pass to a failure. -/
def retryFlag (claimed : RestoreJob) : Bool := claimed.attempts < claimed.maxAttempts

namespace System

/-- The system after a transaction on one queue; a transaction that fails is rolled back. -/
def store (system : System) (queue : Queue) : Except DatabaseError JobTable → System
  | .ok table => { system with tables := Function.update system.tables queue table }
  | .error _ => system

/-- The copy is used up. -/
def drop (system : System) (queue : Queue) (claimed : RestoreJob) : System :=
  { system with claims := system.claims.erase (queue, claimed) }

/-- One transaction. A worker completes or fails only what it has claimed. -/
def step (system : System) : Action → System
  | .enqueue queue contentHash targetProvider now =>
    system.store queue
      (((system.tables queue).enqueue contentHash targetProvider now).map Prod.snd)
  | .claim queue worker leaseSeconds now workerNow locked =>
    match (system.tables queue).claim worker leaseSeconds now workerNow locked with
    | .ok (some claimed, table) =>
      { system.store queue (.ok table) with claims := (queue, claimed) :: system.claims }
    | _ => system
  | .complete queue claimed now =>
    if (queue, claimed) ∈ system.claims then
      (system.drop queue claimed).store queue ((system.tables queue).complete claimed.id now)
    else system
  | .fail queue claimed error now =>
    if (queue, claimed) ∈ system.claims then
      (system.drop queue claimed).store queue
        ((system.tables queue).fail claimed.id error (retryFlag claimed) now)
    else system
  | .recover queue now => system.store queue ((system.tables queue).recoverExpired now)
  | .claimIngestion worker leaseSeconds now workerNow locked =>
    match IngestionTable.claimJob system.ingestion worker leaseSeconds now workerNow locked with
    | (some claimed, table) =>
      { system with ingestion := table, ingestionClaims := claimed :: system.ingestionClaims }
    | (none, _) => system
  | .completeIngestion claimed stage now =>
    if claimed ∈ system.ingestionClaims then
      { system with
        ingestion := IngestionTable.completeJob system.ingestion claimed.id stage now
        ingestionClaims := system.ingestionClaims.erase claimed }
    else system
  | .failIngestion claimed error retry now =>
    if claimed ∈ system.ingestionClaims then
      { system with
        ingestion := IngestionTable.failJob system.ingestion claimed.id error retry now
        ingestionClaims := system.ingestionClaims.erase claimed }
    else system
  | .recoverIngestion now =>
    { system with ingestion := IngestionTable.recoverExpiredJobs system.ingestion now }

end System

/-! ### What a step does to a row -/

inductive RowStep (system : System) (queue : Queue) : Action → RestoreJob → RestoreJob → Prop
  | claimed {job : RestoreJob} {worker : Text} {leaseSeconds now workerNow : ℤ} {locked : ℕ → Bool}
      (claimable : JobTable.claimable now job = true) :
      RowStep system queue (.claim queue worker leaseSeconds now workerNow locked) job
        ((JobTable.claimChange worker (workerNow + max leaseSeconds 1 * second) now).apply job)
  | completed {job claimed : RestoreJob} {now : ℤ} (held : (queue, claimed) ∈ system.claims)
      (same : job.id = claimed.id) :
      RowStep system queue (.complete queue claimed now) job
        ((JobTable.completeChange now).apply job)
  | failed {job claimed : RestoreJob} {error : Text} {now : ℤ}
      (held : (queue, claimed) ∈ system.claims) (same : job.id = claimed.id) :
      RowStep system queue (.fail queue claimed error now) job
        ((JobTable.failChange error (retryFlag claimed) now).apply job)
  | recovered {job : RestoreJob} {now : ℤ} (expired : JobTable.expired now job = true) :
      RowStep system queue (.recover queue now) job ((JobTable.recoverChange now).apply job)

variable {system : System} {queue : Queue} {action : Action}

@[simp] theorem System.store_error (system : System) (queue : Queue) (error : DatabaseError) :
    system.store queue (.error error) = system := rfl

@[simp] theorem System.store_ok_tables (system : System) (queue other : Queue) (table : JobTable) :
    (system.store queue (.ok table)).tables other =
      if other = queue then table else system.tables other := by
  change Function.update system.tables queue table other = _
  by_cases h : other = queue
  · rw [if_pos h, h, Function.update_self]
  · rw [if_neg h, Function.update_of_ne h]

theorem find_store_updateWhere (base : System) (queue other : Queue)
    (condition : RestoreJob → Bool) (change : JobChange) (hbase : base.tables = system.tables)
    (jobId : ℕ) :
    ((base.store other ((system.tables other).updateWhere condition change)).tables
        queue).jobs.find jobId = (system.tables queue).jobs.find jobId ∨
      other = queue ∧ ∃ job, (system.tables queue).jobs.find jobId = some job ∧
        condition job = true ∧
        ((base.store other ((system.tables other).updateWhere condition change)).tables
          queue).jobs.find jobId = some (change.apply job) := by
  cases hupdate : (system.tables other).updateWhere condition change with
  | error error =>
    rw [System.store_error, hbase]
    exact .inl rfl
  | ok table =>
    rw [System.store_ok_tables]
    split_ifs with hqueue
    · subst hqueue
      rw [find_of_updateWhere hupdate]
      cases hjob : (system.tables queue).jobs.find jobId with
      | none => exact .inl rfl
      | some job =>
        rw [map_some]
        by_cases hcondition : condition job = true
        · rw [if_pos hcondition]
          exact .inr ⟨rfl, job, rfl, hcondition, rfl⟩
        · rw [if_neg hcondition]
          exact .inl rfl
    · rw [hbase]
      exact .inl rfl

theorem JobTable.find_enqueue {table made : JobTable} {contentHash targetProvider : Text} {now : ℤ}
    {returned : RestoreJob} (h : table.enqueue contentHash targetProvider now = .ok (returned, made))
    (jobId : ℕ) :
    made.jobs.find jobId = table.jobs.find jobId ∨ table.jobs.find jobId = none ∧
      made.jobs.find jobId = some (newJob jobId contentHash targetProvider now) := by
  unfold enqueue at h
  split at h
  · rw [← (Prod.mk.inj (Except.ok.inj h)).2]
    exact .inl rfl
  · unfold insert at h
    split_ifs at h
    rw [← (Prod.mk.inj (Except.ok.inj h)).2, find_upsert]
    split_ifs with hid
    · change table.nextId = jobId at hid
      refine .inr ⟨find_eq_none.mpr fun job hjob hsame ↦ ?_, by rw [hid]⟩
      have hlt := table.id_lt job hjob
      omega
    · exact .inl rfl

theorem find_step (system : System) (queue : Queue) (action : Action) (jobId : ℕ) :
    ((system.step action).tables queue).jobs.find jobId = (system.tables queue).jobs.find jobId ∨
      (∃ job row, (system.tables queue).jobs.find jobId = some job ∧
        ((system.step action).tables queue).jobs.find jobId = some row ∧
        RowStep system queue action job row) ∨
      (system.tables queue).jobs.find jobId = none ∧ ∃ contentHash targetProvider now,
        ((system.step action).tables queue).jobs.find jobId =
          some (JobTable.newJob jobId contentHash targetProvider now) := by
  cases action with
  | enqueue other contentHash targetProvider now =>
    simp only [System.step]
    cases henqueue : (system.tables other).enqueue contentHash targetProvider now with
    | error error => exact .inl rfl
    | ok result =>
      change ((system.store other (.ok result.2)).tables queue).jobs.find jobId = _ ∨ _ ∨ _ ∧
        ∃ _ _ _, ((system.store other (.ok result.2)).tables queue).jobs.find jobId = _
      rw [System.store_ok_tables]
      split_ifs with hqueue
      · subst hqueue
        rcases find_enqueue henqueue jobId with hsame | ⟨hnone, hnew⟩
        · exact .inl hsame
        · exact .inr (.inr ⟨hnone, contentHash, targetProvider, now, hnew⟩)
      · exact .inl rfl
  | claim other worker leaseSeconds now workerNow locked =>
    simp only [System.step]
    split
    · next claimed table hclaim =>
      unfold claim at hclaim
      split at hclaim
      · cases hclaim
      · next next hnext =>
        obtain ⟨hmem, hclaimable, -⟩ := nextJob_eq_some hnext
        obtain ⟨made, hmade, hpair⟩ := Fallible.bind_eq_ok.mp hclaim
        obtain rfl : made = table := (Prod.mk.inj (Except.ok.inj hpair)).2
        rw [← hmade]
        rcases find_store_updateWhere system queue other (fun other ↦ other.id == next.id)
          (claimChange worker (workerNow + max leaseSeconds 1 * second) now) rfl jobId with
          hsame | ⟨rfl, job, hjob, hcondition, hrow⟩
        · exact .inl hsame
        · obtain rfl : job = next :=
            eq_of_key_eq (find_eq_some.mp hjob).1 hmem (beq_iff_eq.mp hcondition)
          exact .inr (.inl ⟨job, _, hjob, hrow, .claimed hclaimable⟩)
    · exact .inl rfl
  | complete other claimed now =>
    simp only [System.step, complete]
    split_ifs with hheld
    · rcases find_store_updateWhere (system.drop other claimed) queue other
        (fun job ↦ job.id == claimed.id) (completeChange now) rfl jobId with
        hsame | ⟨rfl, job, hjob, hcondition, hrow⟩
      · exact .inl hsame
      · exact .inr (.inl ⟨job, _, hjob, hrow, .completed hheld (beq_iff_eq.mp hcondition)⟩)
    · exact .inl rfl
  | fail other claimed error now =>
    simp only [System.step, fail]
    split_ifs with hheld
    · rcases find_store_updateWhere (system.drop other claimed) queue other
        (fun job ↦ job.id == claimed.id) (failChange error (retryFlag claimed) now) rfl
        jobId with
        hsame | ⟨rfl, job, hjob, hcondition, hrow⟩
      · exact .inl hsame
      · exact .inr (.inl ⟨job, _, hjob, hrow, .failed hheld (beq_iff_eq.mp hcondition)⟩)
    · exact .inl rfl
  | recover other now =>
    rcases find_store_updateWhere system queue other (expired now)
      (recoverChange now) rfl jobId with
      hsame | ⟨rfl, job, hjob, hcondition, hrow⟩
    · exact .inl hsame
    · exact .inr (.inl ⟨job, _, hjob, hrow, .recovered hcondition⟩)
  | claimIngestion worker leaseSeconds now workerNow locked =>
    simp only [System.step]
    split <;> exact .inl rfl
  | completeIngestion _ _ _ | failIngestion _ _ _ _ =>
    simp only [System.step]
    split_ifs <;> exact .inl rfl
  | recoverIngestion now => exact .inl rfl

/-! ### No waiting job is exhausted -/

/-- No failure is reported with a retry flag that is out of date: if the copy of the worker has
attempts left, the row has. -/
def RetryIsCurrent (system : System) : Action → Prop
  | .fail queue claimed _ _ => ∀ job ∈ (system.tables queue).jobs, job.id = claimed.id →
      retryFlag claimed = true → job.attempts < job.maxAttempts
  | _ => True

/-- A waiting job has attempts left, and a running job has a lease. -/
structure IsLive (job : RestoreJob) : Prop where
  attempts_left : job.state = .queued ∨ job.state = .retry → job.attempts < job.maxAttempts
  leased : job.state = .running → ∃ lease, job.leaseUntil = some lease

theorem isLive_newJob (id : ℕ) (contentHash targetProvider : Text) (now : ℤ) :
    IsLive (JobTable.newJob id contentHash targetProvider now) where
  attempts_left := fun _ ↦ Nat.succ_pos 4
  leased := fun h ↦ nomatch h

variable {job : RestoreJob}

theorem isLive_of_rowStep {row : RestoreJob} (hstep : RowStep system queue action job row)
    (hjob : job ∈ (system.tables queue).jobs) (hcurrent : RetryIsCurrent system action) :
    IsLive row := by
  cases hstep with
  | claimed hclaimable =>
    constructor
    · rintro (h | h) <;> cases h
    · exact fun _ ↦ ⟨_, rfl⟩
  | completed hheld hid =>
    constructor
    · rintro (h | h) <;> cases h
    · exact fun h ↦ nomatch h
  | @failed _ claimed error now hheld hid =>
    have hattempts : retryFlag claimed = true → job.attempts < job.maxAttempts :=
      hcurrent job hjob hid
    unfold failChange
    cases hretry : retryFlag claimed with
    | true =>
      constructor
      · exact fun _ ↦ hattempts hretry
      · exact fun h ↦ nomatch h
    | false =>
      constructor
      · rintro (h | h) <;> cases h
      · exact fun h ↦ nomatch h
  | recovered hexpired =>
    constructor
    · intro hstate
      change job.attempts < job.maxAttempts
      by_contra hattempts
      simp [recoverChange, hattempts] at hstate
    · intro hstate
      simp only [recoverChange] at hstate
      split_ifs at hstate

theorem isLive_of_reaches (h : Reaches System.step RetryIsCurrent System.empty system)
    (queue : Queue) (hjob : job ∈ (system.tables queue).jobs) : IsLive job := by
  refine Reaches.invariant
    (fun system ↦ ∀ queue, ∀ job ∈ (system.tables queue).jobs, IsLive job) ?_ ?_ h queue job hjob
  · intro queue job hjob
    exact absurd hjob List.not_mem_nil
  · intro system action hlive hcurrent queue row hrow
    have hfind := find_eq_some.mpr ⟨hrow, rfl⟩
    rcases find_step system queue action row.id with
      hsame | ⟨job, changed, hjob, hchanged, hstep⟩ | ⟨-, contentHash, targetProvider, now, hnew⟩
    · rw [hsame] at hfind
      exact hlive queue row (find_eq_some.mp hfind).1
    · obtain rfl : changed = row := Option.some.inj (hchanged.symm.trans hfind)
      exact isLive_of_rowStep hstep (find_eq_some.mp hjob).1 hcurrent
    · rw [← Option.some.inj (hnew.symm.trans hfind)]
      exact isLive_newJob _ _ _ _

namespace JobTable

variable {table : JobTable} {job : RestoreJob}

theorem claimable_of_waiting {now : ℤ} (hstate : job.state = .queued ∨ job.state = .retry)
    (hattempts : job.attempts < job.maxAttempts) (htime : job.nextAttemptAt ≤ now) :
    claimable now job = true := by
  rcases hstate with hstate | hstate <;> simp [claimable, hstate, hattempts, htime]

theorem exists_claim {now : ℤ} {locked : ℕ → Bool} (hjob : job ∈ table.jobs)
    (hclaimable : claimable now job = true) (hlocked : locked job.id = false) (worker : Text)
    (leaseSeconds workerNow : ℤ) :
    ∃ claimed made, table.claim worker leaseSeconds now workerNow locked =
      .ok (some claimed, made) := by
  obtain ⟨next, hnext⟩ := exists_nextJob hjob hclaimable hlocked
  obtain ⟨hmem, hnextClaimable, -⟩ := nextJob_eq_some hnext
  obtain ⟨made, hmade⟩ := table.updateWhere_of_active (fun other ↦ other.id == next.id)
    (claimChange worker (workerNow + max leaseSeconds 1 * second) now) (fun _ ↦ rfl)
    (fun other hother hid _ ↦ by
      obtain rfl : other = next := eq_of_key_eq hother hmem (beq_iff_eq.mp hid)
      simp only [claimable, Bool.and_eq_true, Bool.or_eq_true, beq_iff_eq] at hnextClaimable
      rcases hnextClaimable.2 with (h | h) | h
      · rw [h]; rfl
      · rw [h]; rfl
      · rw [h.1]; rfl)
  refine ⟨{ (claimChange worker (workerNow + max leaseSeconds 1 * second) now).apply next with
    updatedAt := next.updatedAt }, made, ?_⟩
  simp only [claim, hnext, hmade]
  rfl

theorem recoverExpired_of_lease {now lease : ℤ} (hjob : job ∈ table.jobs)
    (hstate : job.state = .running) (hlease : job.leaseUntil = some lease) (hnow : lease < now) :
    ∃ made, table.recoverExpired now = .ok made ∧
      made.jobs.find job.id = some ((recoverChange now).apply job) := by
  obtain ⟨made, hmade⟩ := table.updateWhere_of_active (expired now) (recoverChange now)
    (fun _ ↦ rfl) (fun other _ hexpired _ ↦ by
      simp only [expired, Bool.and_eq_true, beq_iff_eq] at hexpired
      rw [hexpired.1]
      rfl)
  refine ⟨made, hmade, ?_⟩
  have hexpired : expired now job = true := by simp [expired, hstate, hlease, hnow]
  rw [find_of_updateWhere hmade, find_eq_some.mpr ⟨hjob, rfl⟩, map_some, if_pos hexpired]

end JobTable

/-- In a run without outdated retry flags no job is stuck. A waiting job has attempts left: as soon as
its time has come it can be claimed, and a claim that finds it unlocked gets a job. A running job has
a lease, and a recovery after that lease takes it back. -/
theorem restoreJob_claimable (h : Reaches System.step RetryIsCurrent System.empty system)
    (queue : Queue) (job : RestoreJob) (hjob : job ∈ (system.tables queue).jobs) :
    (job.state = .queued ∨ job.state = .retry →
      job.attempts < job.maxAttempts ∧ ∀ now, job.nextAttemptAt ≤ now → claimable now job = true ∧
        ∀ worker leaseSeconds workerNow locked, locked job.id = false → ∃ claimed made,
          (system.tables queue).claim worker leaseSeconds now workerNow locked =
            .ok (some claimed, made)) ∧
    (job.state = .running → ∃ lease, job.leaseUntil = some lease ∧ ∀ now, lease < now →
      ∃ made, (system.tables queue).recoverExpired now = .ok made ∧
        made.jobs.find job.id = some ((recoverChange now).apply job)) := by
  obtain ⟨hattempts, hleased⟩ := isLive_of_reaches h queue hjob
  constructor
  · intro hstate
    refine ⟨hattempts hstate, fun now htime ↦ ?_⟩
    have hclaimable := claimable_of_waiting hstate (hattempts hstate) htime
    refine ⟨hclaimable, fun worker leaseSeconds workerNow locked hlocked ↦ ?_⟩
    exact exists_claim hjob hclaimable hlocked worker leaseSeconds workerNow
  · intro hstate
    obtain ⟨lease, hlease⟩ := hleased hstate
    exact ⟨lease, hlease, fun now hnow ↦ recoverExpired_of_lease hjob hstate hlease hnow⟩

def enqueued : System :=
  System.empty.step (.enqueue .restoreJobs "chunk" "hot" 0)

theorem restoreJob_claimable_enqueued : ∃ job ∈ (enqueued.tables .restoreJobs).jobs,
    job.state = .queued ∧ claimable 0 job = true := by
  have hreaches : Reaches System.step RetryIsCurrent System.empty enqueued :=
    .step .refl trivial
  have hjob : JobTable.newJob 1 "chunk" "hot" 0 ∈
      (enqueued.tables .restoreJobs).jobs := mem_iff.mpr (by decide)
  exact ⟨_, hjob, rfl, (((restoreJob_claimable hreaches .restoreJobs _ hjob).1 (.inl rfl)).2 0
    le_rfl).1⟩

/-- No row is locked by another transaction. -/
def unlocked : ℕ → Bool := fun _ ↦ false

/-- A claim of a worker at a second, with the lease that the restore worker asks for. -/
def claimAt (worker : Text) (seconds : ℤ) : Action :=
  .claim .restoreJobs worker 600 (seconds * second) (seconds * second) unlocked

/-- The copy that the first of two workers gets, at time zero. -/
def slowClaim : RestoreJob :=
  { JobTable.newJob 1 "chunk" "hot" 0 with
    state := .running
    attempts := 1
    leaseUntil := some (600 * second)
    workerId := some "slow" }

/-- Five attempts, each claimed after the lease of the one before; the first worker is still
working. -/
def fiveClaims : System :=
  ([.enqueue .restoreJobs "chunk" "hot" 0, claimAt "slow" 0,
    claimAt "second" 601, claimAt "third" 1202, claimAt "fourth" 1803,
    claimAt "fifth" 2404] : List Action).foldl System.step System.empty

/-- The first worker reports a failure with its own retry flag. The job then waits with no attempt
left. -/
theorem exhausted_retry : ¬ ∀ system, Reaches System.step (fun _ _ ↦ True) System.empty system →
    ∀ queue, ∀ job ∈ (system.tables queue).jobs, job.state = .queued ∨ job.state = .retry →
      job.attempts < job.maxAttempts := by
  intro hall
  have hreaches : Reaches System.step (fun _ _ ↦ True) System.empty
      (fiveClaims.step (.fail .restoreJobs slowClaim "timeout" (2405 * second))) :=
    (Reaches.foldl .refl (permitted_of_forall (fun _ _ ↦ trivial) _ _)).step trivial
  have hrow : ((fiveClaims.step (.fail .restoreJobs slowClaim "timeout"
      (2405 * second))).tables .restoreJobs).jobs.rows.any (fun job ↦ job.state == .retry &&
        job.attempts == 5 && job.maxAttempts == 5) = true := by
    decide
  obtain ⟨job, hjob, hcase⟩ := List.any_eq_true.mp hrow
  simp only [Bool.and_eq_true, beq_iff_eq] at hcase
  have hlt := hall _ hreaches .restoreJobs job hjob (.inr hcase.1.1)
  omega

/-! ### How often a job is handed out -/

/-- The number of copies of a job that a transaction hands out. -/
def System.handedOut (system : System) (queue : Queue) (jobId : ℕ) : Action → ℕ
  | .claim other worker leaseSeconds now workerNow locked =>
    match (system.tables other).claim worker leaseSeconds now workerNow locked with
    | .ok (some claimed, _) => if other = queue ∧ claimed.id = jobId then 1 else 0
    | _ => 0
  | _ => 0

/-- The number of copies of a job that workers get in a run. -/
def System.handouts (queue : Queue) (jobId : ℕ) : System → List Action → ℕ
  | _, [] => 0
  | system, action :: rest =>
    system.handedOut queue jobId action + handouts queue jobId (system.step action) rest

/-- The attempts that the row of a job counts. -/
def System.attempts (queue : Queue) (jobId : ℕ) (system : System) : ℕ :=
  ((system.tables queue).jobs.find jobId).elim 0 RestoreJob.attempts

theorem System.attempts_step (system : System) (queue : Queue) (jobId : ℕ) (action : Action) :
    (system.step action).attempts queue jobId =
      system.attempts queue jobId + system.handedOut queue jobId action := by
  cases action with
  | claim other worker leaseSeconds now workerNow locked =>
    simp only [step, handedOut]
    rcases hclaim : (system.tables other).claim worker leaseSeconds now workerNow locked with
      violation | ⟨_ | claimed, table⟩
    · rfl
    · rfl
    · unfold claim at hclaim
      split at hclaim
      · cases hclaim
      · next next hnext =>
        obtain ⟨made, hmade, hpair⟩ := Fallible.bind_eq_ok.mp hclaim
        obtain ⟨hcopy, rfl⟩ := Prod.mk.inj (Except.ok.inj hpair)
        have hid : claimed.id = next.id := by rw [← Option.some.inj hcopy]; rfl
        change (system.store other (.ok made)).attempts queue jobId =
          _ + if other = queue ∧ claimed.id = jobId then 1 else 0
        rw [hid, attempts, attempts, store_ok_tables]
        by_cases hqueue : queue = other
        · subst hqueue
          rw [if_pos rfl, find_of_updateWhere hmade]
          cases hjob : (system.tables queue).jobs.find jobId with
          | none =>
            have hne := find_eq_none.mp hjob next (nextJob_eq_some hnext).1
            rw [if_neg (mt And.right hne), map_none, add_zero]
          | some job =>
            obtain ⟨-, rfl⟩ := find_eq_some.mp hjob
            rw [map_some]
            by_cases hsame : job.id = next.id
            · rw [if_pos (beq_iff_eq.mpr hsame), if_pos ⟨rfl, hsame.symm⟩]; rfl
            · rw [if_neg (mt beq_iff_eq.mp hsame), if_neg (mt And.right (Ne.symm hsame)), add_zero]
        · rw [if_neg hqueue, if_neg (mt And.left (Ne.symm hqueue)), add_zero]
  | _ =>
    change _ = _ + 0
    rcases find_step system queue _ jobId with
      hsame | ⟨job, row, hjob, hrow, hstep⟩ | ⟨hnone, _, _, _, hnew⟩
    · rw [attempts, hsame]; rfl
    · rw [attempts, attempts, hjob, hrow]
      cases hstep <;> rfl
    · rw [attempts, attempts, hnone, hnew]; rfl

theorem attempts_le_of_reaches
    (h : Reaches System.step (fun _ _ ↦ True) System.empty system) (queue : Queue) :
    ∀ job ∈ (system.tables queue).jobs, job.maxAttempts = 5 ∧ job.attempts ≤ 5 := by
  refine h.invariant (fun system ↦ ∀ job ∈ (system.tables queue).jobs,
    job.maxAttempts = 5 ∧ job.attempts ≤ 5) (fun job hjob ↦ absurd hjob List.not_mem_nil) ?_
  intro system action hbound _ row hrow
  have hfind := find_eq_some.mpr ⟨hrow, rfl⟩
  rcases find_step system queue action row.id with
    hsame | ⟨job, changed, hjob, hchanged, hstep⟩ | ⟨-, _, _, _, hnew⟩
  · exact hbound row (find_eq_some.mp (hsame.symm.trans hfind)).1
  · obtain rfl : changed = row := Option.some.inj (hchanged.symm.trans hfind)
    have hjobBound := hbound job (find_eq_some.mp hjob).1
    cases hstep with
    | claimed hclaimable =>
      simp only [claimable, Bool.and_eq_true, decide_eq_true_eq] at hclaimable
      exact ⟨hjobBound.1, hclaimable.1.1.trans_eq hjobBound.1⟩
    | _ => exact hjobBound
  · rw [← Option.some.inj (hnew.symm.trans hfind)]
    exact ⟨rfl, Nat.zero_le 5⟩

/-- Workers get no job more than five times, however slow they are and whatever they report: the
attempts of a row count how often its job was handed out. -/
theorem handouts_le_five (actions : List Action) (queue : Queue) (jobId : ℕ) :
    (actions.foldl System.step System.empty).attempts queue jobId =
        System.handouts queue jobId System.empty actions ∧
      System.handouts queue jobId System.empty actions ≤ 5 := by
  have hcount (system : System) : (actions.foldl System.step system).attempts queue jobId =
      system.attempts queue jobId + System.handouts queue jobId system actions := by
    induction actions generalizing system with
    | nil => rfl
    | cons action rest ih =>
      rw [List.foldl_cons, ih, System.attempts_step, System.handouts, add_assoc]
  have hattempts := (hcount .empty).trans (zero_add _)
  refine ⟨hattempts, hattempts ▸ ?_⟩
  rw [System.attempts]
  cases hjob : ((actions.foldl System.step System.empty).tables queue).jobs.find jobId with
  | none => exact Nat.zero_le 5
  | some job =>
    exact (attempts_le_of_reaches (.foldl .refl (permitted_of_forall (fun _ _ ↦ trivial) _ _)) queue
      job (find_eq_some.mp hjob).1).2

/-! ### What a lease protects -/

/-- The time of a transaction. -/
def Action.now : Action → ℤ
  | .enqueue _ _ _ now => now
  | .claim _ _ _ now _ _ => now
  | .complete _ _ now => now
  | .fail _ _ _ now => now
  | .recover _ now => now
  | .claimIngestion _ _ now _ _ => now
  | .completeIngestion _ _ now => now
  | .failIngestion _ _ _ now => now
  | .recoverIngestion now => now

/-- The transaction completes or fails a job of a restore queue. -/
def Action.Reports (queue : Queue) (jobId : ℕ) : Action → Prop
  | .complete other claimed _ => other = queue ∧ claimed.id = jobId
  | .fail other claimed _ _ => other = queue ∧ claimed.id = jobId
  | _ => False

def Action.ReportsIngestion (jobId : ℕ) : Action → Prop
  | .completeIngestion claimed _ _ => claimed.id = jobId
  | .failIngestion claimed _ _ _ => claimed.id = jobId
  | _ => False

/-- What leases do. Until the lease of a row has passed, no transaction but a completion or a failure
of that job changes the row; and a completion or a failure takes effect on the row with its
identifier, whatever that row is now and whoever holds its lease. Only a failure that would make a
finished job active again can be refused, by the unique index. -/
structure LeaseDiscipline (system : System) (action : Action) : Prop where
  protected_until : ∀ queue jobId job lease, (system.tables queue).jobs.find jobId = some job →
    job.state = .running → job.leaseUntil = some lease → action.now ≤ lease →
    ¬ action.Reports queue jobId →
    ((system.step action).tables queue).jobs.find jobId = some job
  complete_applies : ∀ queue claimed now job, action = .complete queue claimed now →
    (queue, claimed) ∈ system.claims →
    (system.tables queue).jobs.find claimed.id = some job →
    ((system.step action).tables queue).jobs.find claimed.id =
      some ((JobTable.completeChange now).apply job)
  fail_applies : ∀ queue claimed error now job, action = .fail queue claimed error now →
    (queue, claimed) ∈ system.claims →
    (system.tables queue).jobs.find claimed.id = some job →
    ((system.step action).tables queue).jobs.find claimed.id =
        some ((JobTable.failChange error (retryFlag claimed) now).apply job) ∨
      retryFlag claimed = true ∧ job.state.isActive = false ∧
        ((system.step action).tables queue).jobs.find claimed.id = some job
  ingestion_protected_until : ∀ jobId job lease, system.ingestion.find jobId = some job →
    job.leaseUntil = some lease → action.now ≤ lease → ¬ action.ReportsIngestion jobId →
    (system.step action).ingestion.find jobId = some job
  ingestion_complete_applies : ∀ claimed stage now job,
    action = .completeIngestion claimed stage now → claimed ∈ system.ingestionClaims →
    system.ingestion.find claimed.id = some job →
    (system.step action).ingestion.find claimed.id = some { job with
      stage := stage, leaseUntil := none, workerId := none, lastError := none, updatedAt := now }
  ingestion_fail_applies : ∀ claimed error retry now job,
    action = .failIngestion claimed error retry now → claimed ∈ system.ingestionClaims →
    system.ingestion.find claimed.id = some job →
    (system.step action).ingestion.find claimed.id = some { job with
      stage := if retry then .retry else .failed, leaseUntil := none, workerId := none,
      lastError := some error, updatedAt := now }

theorem find_step_of_open_lease {jobId : ℕ} {lease : ℤ}
    (hjob : (system.tables queue).jobs.find jobId = some job) (hstate : job.state = .running)
    (hlease : job.leaseUntil = some lease) (hnow : action.now ≤ lease)
    (hreports : ¬ action.Reports queue jobId) :
    ((system.step action).tables queue).jobs.find jobId = some job := by
  rcases find_step system queue action jobId with
    hsame | ⟨other, row, hother, hrow, hstep⟩ | ⟨hnone, -⟩
  · rw [hsame, hjob]
  · exfalso
    obtain rfl : other = job := Option.some.inj (hother.symm.trans hjob)
    obtain ⟨-, hid⟩ := find_eq_some.mp hjob
    cases hstep with
    | claimed hclaimable =>
      simp [claimable, hstate, hlease] at hclaimable
      exact absurd hnow (not_le.mpr hclaimable.2)
    | completed hheld hsame => exact hreports ⟨rfl, hsame.symm.trans hid⟩
    | failed hheld hsame => exact hreports ⟨rfl, hsame.symm.trans hid⟩
    | recovered hexpired =>
      simp [expired, hstate, hlease] at hexpired
      exact absurd hnow (not_le.mpr hexpired)
  · rw [hjob] at hnone
    cases hnone

theorem find_step_complete {claimed : RestoreJob} {now : ℤ}
    (hheld : (queue, claimed) ∈ system.claims)
    (hjob : (system.tables queue).jobs.find claimed.id = some job) :
    ((system.step (.complete queue claimed now)).tables queue).jobs.find claimed.id =
      some ((completeChange now).apply job) := by
  obtain ⟨made, hmade⟩ := (system.tables queue).updateWhere_of_active
    (fun job ↦ job.id == claimed.id) (completeChange now) (fun _ ↦ rfl)
    fun _ _ _ hactive ↦ nomatch hactive
  have hid : (job.id == claimed.id) = true := beq_iff_eq.mpr (Table.find_eq_some.mp hjob).2
  simp only [System.step, if_pos hheld, complete, hmade, System.store_ok_tables, if_true]
  rw [find_of_updateWhere hmade, hjob, map_some, if_pos hid]

theorem find_step_fail {claimed : RestoreJob} {error : Text} {now : ℤ}
    (hheld : (queue, claimed) ∈ system.claims)
    (hjob : (system.tables queue).jobs.find claimed.id = some job) :
    ((system.step (.fail queue claimed error now)).tables queue).jobs.find claimed.id =
        some ((failChange error (retryFlag claimed) now).apply job) ∨
      retryFlag claimed = true ∧ job.state.isActive = false ∧
        ((system.step (.fail queue claimed error now)).tables queue).jobs.find claimed.id =
          some job := by
  have hid : (job.id == claimed.id) = true := beq_iff_eq.mpr (find_eq_some.mp hjob).2
  simp only [System.step, if_pos hheld, fail]
  cases hupdate : (system.tables queue).updateWhere (fun job ↦ job.id == claimed.id)
      (failChange error (retryFlag claimed) now) with
  | ok made =>
    left
    rw [System.store_ok_tables, if_pos rfl, find_of_updateWhere hupdate, hjob, map_some, if_pos hid]
  | error violation =>
    right
    -- the index refuses only what makes an inactive row active
    have hrefused : ¬ (job.state.isActive = false → retryFlag claimed = false) := by
      intro hkeeps
      obtain ⟨made, hmade⟩ := (system.tables queue).updateWhere_of_active
        (fun job ↦ job.id == claimed.id) (failChange error (retryFlag claimed) now)
        (fun _ ↦ rfl) (fun other hother hsame hactive ↦ by
          obtain rfl : other = job := eq_of_key_eq hother (find_eq_some.mp hjob).1
            ((beq_iff_eq.mp hsame).trans (beq_iff_eq.mp hid).symm)
          by_contra hinactive
          rw [Bool.not_eq_true] at hinactive
          simp [failChange, hkeeps hinactive, JobState.isActive] at hactive)
      cases hmade.symm.trans hupdate
    rw [Classical.not_imp, Bool.not_eq_false] at hrefused
    exact ⟨hrefused.2, hrefused.1, hjob⟩

theorem ingestion_step_of_open_lease {jobId : ℕ} {job : IngestionJob} {lease : ℤ}
    (hjob : system.ingestion.find jobId = some job) (hlease : job.leaseUntil = some lease)
    (hnow : action.now ≤ lease) (hreports : ¬ action.ReportsIngestion jobId) :
    (system.step action).ingestion.find jobId = some job := by
  have hclosed (now : ℤ) (hle : now ≤ lease) : ¬ lease < now := not_lt.mpr hle
  obtain ⟨hmem, hid⟩ := find_eq_some.mp hjob
  have hstore (base : System) (other : Queue) (result : Except DatabaseError JobTable) :
      (base.store other result).ingestion = base.ingestion := by
    cases result <;> rfl
  cases action with
  | enqueue _ _ _ _ | recover _ _ => simpa only [System.step, hstore] using hjob
  | claim other worker leaseSeconds now workerNow locked =>
    simp only [System.step]
    split
    · simpa only [hstore] using hjob
    · exact hjob
  | complete _ _ _ | fail _ _ _ _ =>
    simp only [System.step]
    split_ifs
    · rw [hstore]
      exact hjob
    · exact hjob
  | claimIngestion worker leaseSeconds now workerNow locked =>
    simp only [System.step, IngestionTable.claimJob]
    cases hnext : IngestionTable.nextJob system.ingestion now locked with
    | none => exact hjob
    | some next =>
      obtain ⟨hnextMem, hclaimable⟩ := IngestionTable.nextJob_eq_some hnext
      have hother : ¬ (job.id == next.id) = true := by
        intro hsame
        obtain rfl : job = next := eq_of_key_eq hmem hnextMem (beq_iff_eq.mp hsame)
        simp [IngestionTable.claimable, hlease] at hclaimable
        exact hclosed now hnow hclaimable.1.2
      rw [find_updateWhere, hjob, map_some, if_neg hother]
  | completeIngestion claimed stage now =>
    simp only [System.step]
    split_ifs with hheld
    · have hother : ¬ (job.id == claimed.id) = true := fun hsame ↦
        hreports ((beq_iff_eq.mp hsame).symm.trans hid)
      rw [IngestionTable.completeJob, find_updateWhere, hjob, map_some, if_neg hother]
    · exact hjob
  | failIngestion claimed error retry now =>
    simp only [System.step]
    split_ifs with hheld
    · have hother : ¬ (job.id == claimed.id) = true := fun hsame ↦
        hreports ((beq_iff_eq.mp hsame).symm.trans hid)
      rw [IngestionTable.failJob, find_updateWhere, hjob, map_some, if_neg hother]
    · exact hjob
  | recoverIngestion now =>
    have hother : ¬ (job.leaseUntil.any (fun lease ↦ decide (lease < now)) &&
        IngestionTable.isOpen job) = true := by
      simp [hlease, hclosed now hnow]
    simp only [System.step]
    rw [IngestionTable.recoverExpiredJobs, find_updateWhere, hjob, map_some, if_neg hother]

/-- In every state, hence at every step of every run, leases bind claims and recoveries, and
completions and failures take effect by identifier. -/
theorem lease_binds_claim_and_recovery (system : System) (action : Action) :
    LeaseDiscipline system action where
  protected_until := fun _ _ _ _ hjob hstate hlease hnow hreports ↦
    find_step_of_open_lease hjob hstate hlease hnow hreports
  complete_applies := by
    rintro queue claimed now job rfl hheld hjob
    exact find_step_complete hheld hjob
  fail_applies := by
    rintro queue claimed error now job rfl hheld hjob
    exact find_step_fail hheld hjob
  ingestion_protected_until := fun _ _ _ hjob hlease hnow hreports ↦
    ingestion_step_of_open_lease hjob hlease hnow hreports
  ingestion_complete_applies := by
    rintro claimed stage now job rfl hheld hjob
    have hid : (job.id == claimed.id) = true := beq_iff_eq.mpr (find_eq_some.mp hjob).2
    simp only [System.step, if_pos hheld]
    rw [IngestionTable.completeJob, find_updateWhere, hjob, map_some, if_pos hid]
  ingestion_fail_applies := by
    rintro claimed error retry now job rfl hheld hjob
    have hid : (job.id == claimed.id) = true := beq_iff_eq.mpr (find_eq_some.mp hjob).2
    simp only [System.step, if_pos hheld]
    rw [IngestionTable.failJob, find_updateWhere, hjob, map_some, if_pos hid]

/-- Two workers have claimed the job, the second after the lease of the first. -/
def twoClaims : System :=
  ([.enqueue .restoreJobs "chunk" "hot" 0, claimAt "slow" 0,
    claimAt "second" 601] : List Action).foldl System.step System.empty

/-- The first worker completes the job although the second one holds the lease: the row changes. -/
theorem late_complete_applies : ∃ system claimed job now lease,
    Reaches System.step (fun _ _ ↦ True) System.empty system ∧
    (Queue.restoreJobs, claimed) ∈ system.claims ∧
    claimed.leaseUntil = some lease ∧ lease < now ∧
    (system.tables .restoreJobs).jobs.find claimed.id = some job ∧
    job.state = .running ∧ job.workerId ≠ claimed.workerId ∧
    ((system.step (.complete .restoreJobs claimed now)).tables .restoreJobs).jobs.find claimed.id ≠
      some job := by
  refine ⟨twoClaims, slowClaim, { slowClaim with
      attempts := 2, leaseUntil := some (1201 * second), workerId := some "second",
      updatedAt := 601 * second }, 602 * second, 600 * second,
    .foldl .refl (permitted_of_forall (fun _ _ ↦ trivial) _ _), ?_, rfl, ?_, ?_, rfl, ?_, ?_⟩ <;> decide

end GameLauncher.Jobs
