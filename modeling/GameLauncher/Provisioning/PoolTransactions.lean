import GameLauncher.Foundation.OrderBy
import GameLauncher.Provisioning.PoolJobs

/-!
# Transactions on the jobs of all pools

`Database::create_or_get_job`, `claim_start` and `apply_event` as transactions that interleave
statement by statement at the isolation level READ COMMITTED. A statement sees the committed rows; a
row that is locked, the advisory lock of a pool, and a row that an open transaction writes and that a
unique index keeps apart from a new one make a call wait.

`Consistent` is the invariant: the committed jobs are apart, an inserted row clashes with no other
row, committed or not, and the lock on a row lasts from its reading to its writing. From it
`pools_upheld` has for the database, in every run, what `upholds_iff` has for the in-memory store
under a condition.
-/

set_option autoImplicit false

namespace GameLauncher.Provisioning

open Foundation List Table

/-! ### Open transactions -/

inductive PoolTask
  | createOrGetJob (id : Text) (now : ℤ) (request : ProvisionRequest)
  | claimStart (id : Text) (now : ℤ)
  | applyEvent (id key : Text) (event : ProvisioningEvent) (now : ℤ)
  deriving DecidableEq, Repr

/-- How far a transaction has come. -/
inductive PoolPhase
  | begun
  /-- The advisory lock of the pool is held, and the job is looked up next. -/
  | locked
  /-- No job was found, and one is inserted next. -/
  | missing
  /-- The new job is inserted, and the transaction commits next. -/
  | inserted (job : ProvisioningJob)
  /-- An index refused the new job, and the job is looked up again next. -/
  | conflicted
  /-- A job was found, and the transaction commits next. -/
  | found (job : ProvisioningJob)
  /-- The key of the event was not found, and the job is locked next. -/
  | fresh
  /-- The lock is held on the job as it is read. -/
  | held (job : ProvisioningJob)
  /-- The job is written, and the transaction commits next. -/
  | written (job : ProvisioningJob)
  deriving DecidableEq, Repr

/-- The job that a transaction works on. -/
def PoolPhase.job : PoolPhase → Option ProvisioningJob
  | .inserted job | .found job | .held job | .written job => some job
  | _ => none

/-- An open transaction, with the job that had the key of its request when it began. -/
structure PoolCall where
  number : ℕ
  task : PoolTask
  stored : Option ProvisioningJob
  phase : PoolPhase
  deriving DecidableEq, Repr

namespace PoolCall

/-- The row that the transaction locks. -/
def row (call : PoolCall) : Option Text :=
  match call.phase with
  | .held job | .written job => some job.id
  | _ => none

/-- The version of a row that the transaction has written. -/
def pending (call : PoolCall) : Option ProvisioningJob :=
  match call.phase with
  | .inserted job | .written job => some job
  | _ => none

end PoolCall

/-- The committed rows, the open transactions and the answers so far. -/
structure PoolDatabase where
  jobs : ProvisioningJobs
  eventKeys : List (Text × Text)
  calls : Table PoolCall PoolCall.number
  answers : List CreateAnswer

/-- A statement of a transaction, or the loss of its connection before or after its effect. -/
inductive PoolStatement
  | begin (number : ℕ) (task : PoolTask)
  | next (number : ℕ)
  | rollback (number : ℕ)
  /-- The commit of a new job takes effect, but the caller does not learn of it. -/
  | unacknowledged (number : ℕ)

/-- What the unique indexes say to a row. -/
inductive Admission
  | wait
  | conflict
  | admitted
  deriving DecidableEq, Repr

namespace PoolDatabase

/-- No job and no transaction. -/
def empty : PoolDatabase := ⟨.empty, [], .empty, []⟩

def lockKey (request : ProvisionRequest) : Text :=
  "provisioning:" ++ request.providerType ++ ':' :: request.poolId

/-- The advisory lock that a transaction holds, with the hash of PostgreSQL. -/
def advisoryLock (hash : Text → ℤ) (call : PoolCall) : Option ℤ :=
  match call.task, call.phase with
  | .createOrGetJob .., .begun => none
  | .createOrGetJob _ _ request, _ => some (hash (lockKey request))
  | _, _ => none

/-- `ORDER BY (idempotency_key=$1) DESC, created_at`. -/
def before (request : ProvisionRequest) (first second : ProvisioningJob) : Bool :=
  if request.keyOf first = request.keyOf second then first.createdAt ≤ second.createdAt
  else request.keyOf first

/-- The `SELECT` of `create_or_get_job`. -/
def lookUp (jobs : ProvisioningJobs) (request : ProvisionRequest) : Option ProvisioningJob :=
  firstBy (before request) (jobs.rows.filter request.selects)

variable (store : PoolDatabase)

/-- The other open transactions. -/
def others (number : ℕ) : List PoolCall := store.calls.rows.filter fun call ↦ call.number ≠ number

/-- Another transaction holds the row. -/
def rowLocked (number : ℕ) (id : Text) : Bool :=
  (store.others number).any fun call ↦ call.row == some id

/-- What the indexes say when a row is written that some rows bar: a transaction waits for one that
has written, or written over, such a row. -/
def askIndexes (number : ℕ) (bars : ProvisioningJob → Bool) : Admission :=
  if (store.others number).any fun call ↦ call.pending.any fun job ↦
      bars job || store.jobs.rows.any fun row ↦ row.id == job.id && bars row then .wait
  else if store.jobs.rows.any bars then .conflict
  else .admitted

def barsInsert (job row : ProvisioningJob) : Bool := row.id == job.id || decide (Clash row job)

/-- The rows that bar a new version of a row. -/
def barsUpdate (job row : ProvisioningJob) : Bool := row.id != job.id && decide (Clash row job)

/-- The transaction goes on. -/
def advance (call : PoolCall) (phase : PoolPhase) : PoolDatabase :=
  { store with calls := store.calls.upsert { call with phase } }

/-- The transaction has ended. -/
def close (call : PoolCall) : PoolDatabase :=
  { store with calls := store.calls.deleteWhere fun other ↦ other.number == call.number }

/-- A call of `create_or_get_job` has ended. -/
def answer (call : PoolCall) (request : ProvisionRequest) (reply : Reply) : PoolDatabase :=
  { store.close call with answers := ⟨request, call.stored, reply⟩ :: store.answers }

/-- The version that a transaction has written is committed. -/
def publish (job : ProvisioningJob) : PoolDatabase := { store with jobs := store.jobs.upsert job }

/-- A statement of `create_or_get_job`. -/
def createOrGetJob (hash : Text → ℤ) (call : PoolCall) (id : Text) (now : ℤ)
    (request : ProvisionRequest) : PoolDatabase :=
  match call.phase with
  | .begun =>
    if (store.others call.number).any fun other ↦
        advisoryLock hash other == some (hash (lockKey request)) then store
    else store.advance call .locked
  | .locked =>
    match lookUp store.jobs request with
    | some job => store.advance call (.found job)
    | none => store.advance call .missing
  | .missing =>
    match store.askIndexes call.number (barsInsert (.new id now request)) with
    | .wait => store
    | .conflict => store.advance call .conflicted
    | .admitted => store.advance call (.inserted (.new id now request))
  | .conflicted =>
    match lookUp store.jobs request with
    | some job => store.advance call (.found job)
    | none => store.answer call request .vanished
  | .found job => store.answer call request (.returned job)
  | .inserted job => (store.publish job).answer call request (.returned job)
  | _ => store

/-- The `UPDATE` of a job that the transaction holds. -/
def update (call : PoolCall) (job : ProvisioningJob) (event : ProvisioningEvent) (now : ℤ) :
    PoolDatabase :=
  match job.applyEventAt event now with
  | .error _ => store.close call
  | .ok (updated, _) =>
    if StoreKind.database.maxAttempts < updated.attemptCount then store.close call
    else
      match store.askIndexes call.number (barsUpdate updated) with
      | .wait => store
      | .conflict => store.close call
      | .admitted => store.advance call (.written updated)

/-- The row of an event is committed with the job. -/
def commitEvent (call : PoolCall) (job : ProvisioningJob) (key : Text) : PoolDatabase :=
  { (store.publish job).close call with eventKeys := (job.id, key) :: store.eventKeys }

/-- A statement of `claim_start`. -/
def claimStart (call : PoolCall) (id : Text) (now : ℤ) : PoolDatabase :=
  match call.phase with
  | .begun =>
    match store.jobs.find id with
    | none => store.close call
    | some job =>
      if job.status ≠ .created then store.close call
      else if store.rowLocked call.number id then store
      else store.update call job .start now
  | .written job => store.commitEvent call job "job-start"
  | _ => store

/-- A statement of `apply_event`. -/
def applyEvent (call : PoolCall) (id key : Text) (event : ProvisioningEvent) (now : ℤ) :
    PoolDatabase :=
  match call.phase with
  | .begun => if (id, key) ∈ store.eventKeys then store.close call else store.advance call .fresh
  | .fresh =>
    match store.jobs.find id with
    | none => store.close call
    | some job =>
      if store.rowLocked call.number id then store else store.advance call (.held job)
  | .held job => store.update call job event now
  | .written job => store.commitEvent call job key
  | _ => store

/-- A transaction begins, unless its arguments are not valid. -/
def begin (number : ℕ) (task : PoolTask) : PoolDatabase :=
  match task with
  | .createOrGetJob _ now request =>
    match StoreKind.database.checkRequest now request with
    | .error failure =>
      { store with
        answers := ⟨request, storedFor store.jobs request, .refused failure⟩ :: store.answers }
    | .ok () =>
      { store with
        calls := store.calls.upsert ⟨number, task, storedFor store.jobs request, .begun⟩ }
  | .claimStart .. => { store with calls := store.calls.upsert ⟨number, task, none, .begun⟩ }
  | .applyEvent _ key _ _ =>
    match StoreKind.database.checkText key "event idempotency key" with
    | .error _ => store
    | .ok () => { store with calls := store.calls.upsert ⟨number, task, none, .begun⟩ }

/-- The next statement of a transaction. -/
def proceed (hash : Text → ℤ) (call : PoolCall) : PoolDatabase :=
  match call.task with
  | .createOrGetJob id now request => store.createOrGetJob hash call id now request
  | .claimStart id now => store.claimStart call id now
  | .applyEvent id key event now => store.applyEvent call id key event now

/-- The connection of a transaction is lost. -/
def rollback (call : PoolCall) : PoolDatabase :=
  match call.task with
  | .createOrGetJob _ _ request => store.answer call request .lost
  | _ => store.close call

/-- The connection of a transaction is lost with the answer to its commit. -/
def unacknowledged (call : PoolCall) : PoolDatabase :=
  match call.task, call.phase with
  | .createOrGetJob _ _ request, .inserted job => (store.publish job).answer call request .lost
  | _, _ => store

/-- One statement of some transaction. -/
def step (hash : Text → ℤ) : PoolStatement → PoolDatabase
  | .begin number task =>
    match store.calls.find number with
    | some _ => store
    | none => store.begin number task
  | .next number =>
    match store.calls.find number with
    | some call => store.proceed hash call
    | none => store
  | .rollback number =>
    match store.calls.find number with
    | some call => store.rollback call
    | none => store
  | .unacknowledged number =>
    match store.calls.find number with
    | some call => store.unacknowledged call
    | none => store

/-! ### The invariant -/

/-- What a transaction may rely on. -/
structure CallSound (jobs : ProvisioningJobs) (call : PoolCall) : Prop where
  inserted : ∀ job, call.phase = .inserted job → ∀ row ∈ jobs, row.id ≠ job.id ∧ ¬ Clash row job
  held : ∀ job, call.phase = .held job → job ∈ jobs
  written : ∀ job, call.phase = .written job → ∃ row ∈ jobs, Succeeds row job
  stored : ∀ known, call.stored = some known → ∀ id now request,
    call.task = .createOrGetJob id now request →
      ∃ row ∈ jobs, row.id = known.id ∧ row.idempotencyKey = request.idempotencyKey
  own : ∀ id now request, call.task = .createOrGetJob id now request →
    ∀ job, call.phase = .inserted job → job.idempotencyKey = request.idempotencyKey
  found : ∀ id now request, call.task = .createOrGetJob id now request →
    ∀ job, call.phase = .found job → Truthful ⟨request, call.stored, .returned job⟩

/-- What keeps two transactions apart. -/
structure CallsApart (first second : PoolCall) : Prop where
  inserted : ∀ job other, first.phase = .inserted job → second.phase = .inserted other →
    job.id ≠ other.id ∧ ¬ Clash job other
  row : ∀ id, first.row = some id → second.row ≠ some id

/-- The invariant of a run. -/
structure Consistent (store : PoolDatabase) : Prop where
  apart : Apart store.jobs
  calls : ∀ call ∈ store.calls, CallSound store.jobs call
  callsApart : ∀ first ∈ store.calls, ∀ second ∈ store.calls, first.number ≠ second.number →
    CallsApart first second
  truthful : ∀ answer ∈ store.answers, Truthful answer

section Invariant

variable {store : PoolDatabase} {jobs : ProvisioningJobs} {call other : PoolCall}
  {request : ProvisionRequest} {job : ProvisioningJob} {phase : PoolPhase}

theorem CallsApart.symm (h : CallsApart call other) : CallsApart other call where
  inserted job next hjob hnext := by
    obtain ⟨hid, hclash⟩ := h.inserted next job hnext hjob
    exact ⟨hid.symm, fun h ↦ hclash h.symm⟩
  row id hid hother := h.row id hother hid

theorem callsApart_of_idle (hinserted : ∀ job, call.phase ≠ .inserted job) (hrow : call.row = none) :
    CallsApart call other where
  inserted job _ hjob := absurd hjob (hinserted job)
  row id hid := by
    rw [hrow] at hid
    cases hid

/-! ### Statements that leave the jobs alone -/

theorem Consistent.advance (h : Consistent store) (hcall : CallSound store.jobs { call with phase })
    (hapart : ∀ other ∈ store.calls, other.number ≠ call.number →
      CallsApart { call with phase } other) : Consistent (store.advance call phase) where
  apart := h.apart
  truthful := h.truthful
  calls other hother := by
    rcases mem_upsert.mp hother with rfl | ⟨hold, -⟩
    · exact hcall
    · exact h.calls other hold
  callsApart first hfirst second hsecond hne := by
    rcases mem_upsert.mp hfirst with rfl | ⟨hold, hfirstNe⟩ <;>
      rcases mem_upsert.mp hsecond with rfl | ⟨hother, hsecondNe⟩
    · exact absurd rfl hne
    · exact hapart second hother hsecondNe
    · exact (hapart first hold hfirstNe).symm
    · exact h.callsApart first hold second hother hne

theorem Consistent.advance_idle (h : Consistent store) (hmem : call ∈ store.calls)
    (hphase : phase.job = none) : Consistent (store.advance call phase) := by
  have hinserted : ∀ job, phase ≠ .inserted job := fun job heq ↦ by rw [heq] at hphase; cases hphase
  have hheld : ∀ job, phase ≠ .held job := fun job heq ↦ by rw [heq] at hphase; cases hphase
  have hwritten : ∀ job, phase ≠ .written job := fun job heq ↦ by rw [heq] at hphase; cases hphase
  have hfound : ∀ job, phase ≠ .found job := fun job heq ↦ by rw [heq] at hphase; cases hphase
  refine h.advance ⟨fun job hjob ↦ absurd hjob (hinserted job), fun job hjob ↦ absurd hjob
    (hheld job), fun job hjob ↦ absurd hjob (hwritten job), (h.calls call hmem).stored,
    fun _ _ _ _ job hjob ↦ absurd hjob (hinserted job),
    fun _ _ _ _ job hjob ↦ absurd hjob (hfound job)⟩ fun other _ _ ↦ callsApart_of_idle hinserted ?_
  unfold PoolCall.row
  split
  · exact absurd (by assumption) (hheld _)
  · exact absurd (by assumption) (hwritten _)
  · rfl

theorem Consistent.close (h : Consistent store) (call : PoolCall) :
    Consistent (store.close call) where
  apart := h.apart
  truthful := h.truthful
  calls other hother := h.calls other (mem_deleteWhere.mp hother).1
  callsApart first hfirst second hsecond hne :=
    h.callsApart first (mem_deleteWhere.mp hfirst).1 second
      (mem_deleteWhere.mp hsecond).1 hne

theorem Consistent.answer (h : Consistent store) {reply : Reply}
    (htruthful : Truthful ⟨request, call.stored, reply⟩) :
    Consistent (store.answer call request reply) where
  apart := h.apart
  truthful := forall_mem_cons.mpr ⟨htruthful, h.truthful⟩
  calls := (h.close call).calls
  callsApart := (h.close call).callsApart

theorem truthful_lost (request : ProvisionRequest) (stored : Option ProvisioningJob) :
    Truthful ⟨request, stored, .lost⟩ :=
  ⟨fun _ hjob ↦ (by cases hjob), fun _ _ ↦ .inr (.inr rfl)⟩

/-! ### The commit of a row -/

variable {id : Text}

/-- What other transactions may rely on when a version is committed: it succeeds its row, if there is
one, clashes with no row they have inserted, and is of no row they hold. -/
theorem CallSound.publish (h : CallSound jobs call)
    (hrow : ∀ row ∈ jobs, row.id = job.id → Succeeds row job)
    (hnew : ∀ next, call.phase = .inserted next → job.id ≠ next.id ∧ ¬ Clash job next)
    (hheld : call.row ≠ some job.id) : CallSound (jobs.upsert job) call where
  inserted next hnext row hmem := by
    rcases mem_upsert.mp hmem with rfl | ⟨hold, -⟩
    · exact hnew next hnext
    · exact h.inserted next hnext row hold
  held next hnext := by
    refine mem_upsert.mpr (.inr ⟨h.held next hnext, fun hid ↦ hheld ?_⟩)
    rw [PoolCall.row, hnext, ← hid]
  written next hnext := by
    obtain ⟨row, hmem, hsucceeds⟩ := h.written next hnext
    refine ⟨row, mem_upsert.mpr (.inr ⟨hmem, fun hid ↦ hheld ?_⟩), hsucceeds⟩
    rw [PoolCall.row, hnext]
    exact congrArg some (hsucceeds.id.trans hid)
  stored known hknown id now request htask := by
    obtain ⟨row, hmem, hid, hkey⟩ := h.stored known hknown id now request htask
    by_cases hsame : row.id = job.id
    · have hsucceeds := hrow row hmem hsame
      exact ⟨job, mem_upsert.mpr (.inl rfl), hsame ▸ hid, hsucceeds.key.trans hkey⟩
    · exact ⟨row, mem_upsert.mpr (.inr ⟨hmem, hsame⟩), hid, hkey⟩
  own := h.own
  found := h.found

/-- A version that a transaction has written is committed, and the transaction ends. -/
theorem Consistent.commit (h : Consistent store) (hapart : Apart (store.jobs.upsert job))
    (hrow : ∀ row ∈ store.jobs, row.id = job.id → Succeeds row job)
    (hnew : ∀ other ∈ store.calls, other.number ≠ call.number → ∀ next,
      other.phase = .inserted next → job.id ≠ next.id ∧ ¬ Clash job next)
    (hheld : ∀ other ∈ store.calls, other.number ≠ call.number → other.row ≠ some job.id) :
    Consistent ((store.publish job).close call) where
  apart := hapart
  truthful := h.truthful
  calls other hother := by
    obtain ⟨hmem, hne⟩ := mem_deleteWhere.mp hother
    have hne : other.number ≠ call.number := fun heq ↦ by
      rw [heq, beq_self_eq_true] at hne
      cases hne
    exact (h.calls other hmem).publish hrow (hnew other hmem hne) (hheld other hmem hne)
  callsApart first hfirst second hsecond hne :=
    h.callsApart first (mem_deleteWhere.mp hfirst).1 second
      (mem_deleteWhere.mp hsecond).1 hne

theorem CallSound.row_mem (h : CallSound jobs call) (hid : call.row = some id) :
    ∃ row ∈ jobs, row.id = id := by
  unfold PoolCall.row at hid
  split at hid
  · rename_i held hphase
    exact ⟨held, h.held held hphase, Option.some.inj hid⟩
  · rename_i written hphase
    obtain ⟨row, hmem, hsucceeds⟩ := h.written written hphase
    exact ⟨row, hmem, hsucceeds.id.symm.trans (Option.some.inj hid)⟩
  · cases hid

section

variable (h : Consistent store) (hcall : call ∈ store.calls)

include h hcall

theorem Consistent.commit_inserted (hphase : call.phase = .inserted job) :
    Consistent ((store.publish job).close call) := by
  have hnew := (h.calls call hcall).inserted job hphase
  refine h.commit (h.apart.upsert_of_new fun row hrow ↦ (hnew row hrow).2)
    (fun row hrow hid ↦ absurd hid (hnew row hrow).1) ?_ ?_
  · intro other hother hne next hnext
    exact (h.callsApart call hcall other hother hne.symm).inserted job next hphase hnext
  · intro other hother hne hid
    obtain ⟨row, hrow, hsame⟩ := (h.calls other hother).row_mem hid
    exact (hnew row hrow).1 hsame

theorem Consistent.commit_written (hphase : call.phase = .written job) :
    Consistent ((store.publish job).close call) := by
  obtain ⟨row, hrow, hsucceeds⟩ := (h.calls call hcall).written job hphase
  refine h.commit (h.apart.upsert_of_succeeds hrow hsucceeds) ?_ ?_ ?_
  · intro other hother hid
    have hsame : other = row := eq_of_key_eq hother hrow (hid.trans hsucceeds.id)
    rw [hsame]
    exact hsucceeds
  · intro other hother hne next hnext
    obtain ⟨hid, hclash⟩ := (h.calls other hother).inserted next hnext row hrow
    exact ⟨hsucceeds.id.symm ▸ hid, fun hnextClash ↦ hclash (hsucceeds.clash hnextClash)⟩
  · intro other hother hne
    refine (h.callsApart call hcall other hother hne.symm).row job.id ?_
    rw [PoolCall.row, hphase]

theorem Consistent.commitEvent (hphase : call.phase = .written job) (key : Text) :
    Consistent (store.commitEvent call job key) where
  apart := (h.commit_written hcall hphase).apart
  calls := (h.commit_written hcall hphase).calls
  callsApart := (h.commit_written hcall hphase).callsApart
  truthful := h.truthful

end

/-! ### The look-up and the indexes -/

variable {number : ℕ}

theorem before_trans (request : ProvisionRequest) (first second third : ProvisioningJob)
    (hfirst : before request first second = true) (hsecond : before request second third = true) :
    before request first third = true := by
  unfold before at hfirst hsecond ⊢
  grind

theorem before_total (request : ProvisionRequest) (first second : ProvisioningJob) :
    (before request first second || before request second first) = true := by
  unfold before
  grind

theorem lookUp_eq_some (h : lookUp jobs request = some job) :
    job ∈ jobs ∧ request.selects job = true ∧
      ∀ row ∈ jobs, request.keyOf row = true → request.keyOf job = true := by
  obtain ⟨hmem, hfirst⟩ := firstBy_eq_some (before_trans request) (before_total request) h
  obtain ⟨hjob, hselects⟩ := mem_filter.mp hmem
  refine ⟨hjob, hselects, fun row hrow hkey ↦ ?_⟩
  have hbefore := hfirst row (mem_filter.mpr ⟨hrow, selects_iff.mpr (.inl hkey)⟩)
  unfold before at hbefore
  grind

theorem lookUp_eq_none (h : lookUp jobs request = none) (row : ProvisioningJob)
    (hrow : row ∈ jobs) : request.keyOf row = false := by
  by_contra hkey
  have hmem : row ∈ jobs.rows.filter request.selects :=
    mem_filter.mpr ⟨hrow, selects_iff.mpr (.inl (Bool.not_eq_false _ ▸ hkey))⟩
  rw [firstBy_eq_none.mp h] at hmem
  cases hmem

theorem mem_others : other ∈ store.others number ↔ other ∈ store.calls ∧ other.number ≠ number := by
  rw [others, mem_filter, decide_eq_true_eq, mem_iff]

theorem askIndexes_eq_admitted {bars : ProvisioningJob → Bool}
    (h : store.askIndexes number bars = .admitted) :
    (∀ row ∈ store.jobs, bars row = false) ∧
      ∀ other ∈ store.calls, other.number ≠ number → ∀ next, other.pending = some next →
        bars next = false := by
  unfold askIndexes at h
  split_ifs at h with hwait hconflict
  refine ⟨fun row hrow ↦ ?_, fun other hother hne next hnext ↦ ?_⟩
  · by_contra hbars
    exact hconflict (any_eq_true.mpr ⟨row, hrow, by simpa using hbars⟩)
  · by_contra hbars
    refine hwait (any_eq_true.mpr ⟨other, mem_others.mpr ⟨hother, hne⟩, ?_⟩)
    rw [hnext, Option.any_some, Bool.or_eq_true]
    exact .inl (by simpa using hbars)

theorem row_ne_of_not_rowLocked (h : ¬ store.rowLocked number id = true)
    (hother : other ∈ store.calls) (hne : other.number ≠ number) : other.row ≠ some id := by
  intro hrow
  refine h (any_eq_true.mpr ⟨other, mem_others.mpr ⟨hother, hne⟩, ?_⟩)
  rw [hrow, beq_self_eq_true]

/-! ### One statement -/

variable {now : ℤ}

section

variable (h : Consistent store) (hmem : call ∈ store.calls)

include h hmem

section

variable (htask : call.task = .createOrGetJob id now request)

include htask

theorem truthful_lookUp (hlookUp : lookUp store.jobs request = some job) :
    Truthful ⟨request, call.stored, .returned job⟩ := by
  obtain ⟨hjob, hselects, hfirst⟩ := lookUp_eq_some hlookUp
  refine ⟨fun returned hreturned ↦ ?_, fun known hknown ↦ .inl ⟨job, rfl, ?_⟩⟩
  · obtain rfl := Reply.returned.inj hreturned
    exact own_of_selects hselects
  · obtain ⟨row, hrow, hid, hkey⟩ := (h.calls call hmem).stored known hknown id now request htask
    have hsame := keyOf_iff.mp (hfirst row hrow (keyOf_iff.mpr hkey))
    exact ⟨(h.apart.id_eq_of_key hjob hrow (hsame.trans hkey.symm)).trans hid, hsame⟩

theorem Consistent.advance_found (htruthful : Truthful ⟨request, call.stored, .returned job⟩) :
    Consistent (store.advance call (.found job)) := by
  refine h.advance ⟨fun _ h ↦ (by cases h), fun _ h ↦ (by cases h), fun _ h ↦ (by cases h),
    (h.calls call hmem).stored, fun _ _ _ _ _ h ↦ (by cases h), ?_⟩
    fun other _ _ ↦ callsApart_of_idle (fun _ h ↦ by cases h) rfl
  intro other later second hother found hfound
  obtain rfl := PoolPhase.found.inj hfound
  have hsame := htask.symm.trans hother
  rw [PoolTask.createOrGetJob.injEq] at hsame
  rw [← hsame.2.2]
  exact htruthful

theorem Consistent.advance_inserted
    (hadmitted : store.askIndexes call.number (barsInsert (.new id now request)) = .admitted) :
    Consistent (store.advance call (.inserted (.new id now request))) := by
  have hbars (row : ProvisioningJob) (hrow : barsInsert (.new id now request) row = false) :
      row.id ≠ (ProvisioningJob.new id now request).id ∧ ¬ Clash row (.new id now request) := by
    rw [barsInsert, Bool.or_eq_false_iff, beq_eq_false_iff_ne, decide_eq_false_iff_not] at hrow
    exact hrow
  obtain ⟨hrows, hcalls⟩ := askIndexes_eq_admitted hadmitted
  refine h.advance ⟨?_, fun _ h ↦ (by cases h), fun _ h ↦ (by cases h),
    (h.calls call hmem).stored, ?_, fun _ _ _ _ _ h ↦ (by cases h)⟩ ?_
  · intro job hjob row hrow
    obtain rfl := PoolPhase.inserted.inj hjob
    exact hbars row (hrows row hrow)
  · intro other later second hother job hjob
    obtain rfl := PoolPhase.inserted.inj hjob
    have hsame := htask.symm.trans hother
    rw [PoolTask.createOrGetJob.injEq] at hsame
    rw [← hsame.2.2]
    rfl
  · intro other hother hne
    refine ⟨fun job next hjob hnext ↦ ?_, fun _ h ↦ by cases h⟩
    obtain rfl := PoolPhase.inserted.inj hjob
    obtain ⟨hid, hclash⟩ := hbars next (hcalls other hother hne next (by rw [PoolCall.pending, hnext]))
    exact ⟨hid.symm, fun h ↦ hclash h.symm⟩

end

theorem Consistent.createOrGetJob (hash : Text → ℤ)
    (htask : call.task = .createOrGetJob id now request) :
    Consistent (store.createOrGetJob hash call id now request) := by
  unfold PoolDatabase.createOrGetJob
  split
  · split_ifs
    · exact h
    · exact h.advance_idle hmem rfl
  · split
    · rename_i job hlookUp
      exact h.advance_found hmem htask (truthful_lookUp h hmem htask hlookUp)
    · exact h.advance_idle hmem rfl
  · split
    · exact h
    · exact h.advance_idle hmem rfl
    · rename_i hadmitted
      exact h.advance_inserted hmem htask hadmitted
  · split
    · rename_i job hlookUp
      exact h.advance_found hmem htask (truthful_lookUp h hmem htask hlookUp)
    · rename_i hlookUp
      -- A stored key is found again.
      refine h.answer ⟨fun _ h ↦ (by cases h), fun known hknown ↦ ?_⟩
      obtain ⟨row, hrow, -, hkey⟩ := (h.calls call hmem).stored known hknown id now request htask
      rw [← keyOf_iff, lookUp_eq_none hlookUp row hrow] at hkey
      cases hkey
  · rename_i job hphase
    exact h.answer ((h.calls call hmem).found id now request htask job hphase)
  · rename_i job hphase
    have hcommit := h.commit_inserted hmem hphase
    have hkey := (h.calls call hmem).own id now request htask job hphase
    refine ⟨hcommit.apart, hcommit.calls, hcommit.callsApart,
      forall_mem_cons.mpr ⟨⟨fun returned hreturned ↦ ?_, fun known hknown ↦ ?_⟩, h.truthful⟩⟩
    · obtain rfl := Reply.returned.inj hreturned
      exact .inl hkey
    · obtain ⟨row, hrow, -, hrowKey⟩ :=
        (h.calls call hmem).stored known hknown id now request htask
      exact absurd (.inl (hrowKey.trans hkey.symm))
        ((h.calls call hmem).inserted job hphase row hrow).2
  · exact h

theorem Consistent.update {event : ProvisioningEvent} (hjob : job ∈ store.jobs)
    (hrow : ∀ other ∈ store.calls, other.number ≠ call.number → other.row ≠ some job.id) :
    Consistent (store.update call job event now) := by
  unfold PoolDatabase.update
  split
  · exact h.close call
  · rename_i updated transition happly
    have hsucceeds : Succeeds job updated := succeeds_of_apply happly
    split_ifs
    · exact h.close call
    · split
      · exact h
      · exact h.close call
      · refine h.advance ⟨fun _ h ↦ (by cases h), fun _ h ↦ (by cases h), ?_,
          (h.calls call hmem).stored, fun _ _ _ _ _ h ↦ (by cases h),
          fun _ _ _ _ _ h ↦ (by cases h)⟩ ?_
        · intro written hwritten
          obtain rfl := PoolPhase.written.inj hwritten
          exact ⟨job, hjob, hsucceeds⟩
        · intro other hother hne
          refine ⟨fun _ _ h ↦ (by cases h), fun locked hlocked ↦ ?_⟩
          obtain rfl : updated.id = locked := Option.some.inj hlocked
          rw [hsucceeds.id]
          exact hrow other hother hne

theorem Consistent.claimStart (id : Text) (now : ℤ) : Consistent (store.claimStart call id now) := by
  unfold PoolDatabase.claimStart
  split
  · split
    · exact h.close call
    · rename_i job hfind
      obtain ⟨hjob, hid⟩ := find_eq_some.mp hfind
      split_ifs with hstatus hlocked
      · exact h.close call
      · exact h
      · exact h.update hmem hjob fun other hother hne ↦
          hid ▸ row_ne_of_not_rowLocked hlocked hother hne
  · rename_i job hphase
    exact h.commitEvent hmem hphase _
  · exact h

theorem Consistent.applyEvent (id key : Text) (event : ProvisioningEvent) (now : ℤ) :
    Consistent (store.applyEvent call id key event now) := by
  unfold PoolDatabase.applyEvent
  split
  · split_ifs
    · exact h.close call
    · exact h.advance_idle hmem rfl
  · split
    · exact h.close call
    · rename_i job hfind
      obtain ⟨hjob, hid⟩ := find_eq_some.mp hfind
      split_ifs with hlocked
      · exact h
      · refine h.advance ⟨fun _ h ↦ (by cases h), ?_, fun _ h ↦ (by cases h),
          (h.calls call hmem).stored, fun _ _ _ _ _ h ↦ (by cases h),
          fun _ _ _ _ _ h ↦ (by cases h)⟩ ?_
        · intro held hheld
          obtain rfl := PoolPhase.held.inj hheld
          exact hjob
        · intro other hother hne
          refine ⟨fun _ _ h ↦ (by cases h), fun locked hrow ↦ ?_⟩
          obtain rfl : job.id = locked := Option.some.inj hrow
          exact hid ▸ row_ne_of_not_rowLocked hlocked hother hne
  · rename_i job hphase
    refine h.update hmem ((h.calls call hmem).held job hphase) fun other hother hne ↦ ?_
    exact (h.callsApart call hmem other hother hne.symm).row job.id (by rw [PoolCall.row, hphase])
  · rename_i job hphase
    exact h.commitEvent hmem hphase key
  · exact h

end

theorem Consistent.spawn (h : Consistent store) {task : PoolTask} {stored : Option ProvisioningJob}
    (hstored : ∀ known, stored = some known → ∀ id now request,
      task = .createOrGetJob id now request →
        ∃ row ∈ store.jobs, row.id = known.id ∧ row.idempotencyKey = request.idempotencyKey) :
    Consistent { store with calls := store.calls.upsert ⟨number, task, stored, .begun⟩ } := by
  have hadvance : Consistent (store.advance ⟨number, task, stored, .begun⟩ .begun) :=
    h.advance ⟨fun _ h ↦ (by cases h), fun _ h ↦ (by cases h), fun _ h ↦ (by cases h), hstored,
      fun _ _ _ _ _ h ↦ (by cases h), fun _ _ _ _ _ h ↦ (by cases h)⟩ fun _ _ _ ↦
      callsApart_of_idle (fun _ h ↦ by cases h) rfl
  exact hadvance

theorem Consistent.begin (h : Consistent store) (number : ℕ) (task : PoolTask) :
    Consistent (store.begin number task) := by
  unfold PoolDatabase.begin
  split
  · rename_i id now request
    split
    · refine ⟨h.apart, h.calls, h.callsApart, forall_mem_cons.mpr
        ⟨⟨fun _ h ↦ (by cases h), ?_⟩, h.truthful⟩⟩
      exact fun _ _ ↦ .inr (.inl ⟨_, rfl⟩)
    · refine h.spawn fun known hknown other later second hother ↦ ?_
      obtain ⟨hmem, hkey⟩ := storedFor_eq_some hknown
      rw [PoolTask.createOrGetJob.injEq] at hother
      exact ⟨known, hmem, rfl, hother.2.2 ▸ hkey⟩
  · exact h.spawn fun _ h ↦ by cases h
  · split
    · exact h
    · exact h.spawn fun _ h ↦ by cases h

theorem Consistent.step (h : Consistent store) (hash : Text → ℤ) (statement : PoolStatement) :
    Consistent (store.step hash statement) := by
  cases statement with
  | begin number task =>
    rw [PoolDatabase.step]
    split
    · exact h
    · exact h.begin number task
  | next number =>
    rw [PoolDatabase.step]
    split
    · rename_i call hfind
      have hmem := (find_eq_some.mp hfind).1
      unfold PoolDatabase.proceed
      split
      · rename_i htask
        exact h.createOrGetJob hmem hash htask
      · exact h.claimStart hmem _ _
      · exact h.applyEvent hmem _ _ _ _
    · exact h
  | rollback number =>
    rw [PoolDatabase.step]
    split
    · rename_i call hfind
      unfold PoolDatabase.rollback
      split
      · exact h.answer (truthful_lost _ _)
      · exact h.close _
    · exact h
  | unacknowledged number =>
    rw [PoolDatabase.step]
    split
    · rename_i call hfind
      unfold PoolDatabase.unacknowledged
      split
      · rename_i job htask hphase
        have hcommit := h.commit_inserted (find_eq_some.mp hfind).1 hphase
        exact ⟨hcommit.apart, hcommit.calls, hcommit.callsApart,
          forall_mem_cons.mpr ⟨truthful_lost _ _, h.truthful⟩⟩
      · exact h
    · exact h

end Invariant

/-! ### Runs -/

theorem consistent_empty : Consistent empty where
  apart := PoolMemory.apart_empty
  calls _ hcall := absurd hcall not_mem_nil
  callsApart _ hfirst := absurd hfirst not_mem_nil
  truthful _ hanswer := absurd hanswer not_mem_nil

theorem consistent_run (hash : Text → ℤ) (statements : List PoolStatement) :
    Consistent (statements.foldl (fun store ↦ store.step hash) empty) := by
  have hreaches : Reaches (fun store ↦ store.step hash) (fun _ _ ↦ True) empty (statements.foldl (fun store ↦ store.step hash) empty) :=
    Reaches.refl.foldl (permitted_of_forall (fun _ _ ↦ trivial) _ _)
  exact hreaches.invariant Consistent consistent_empty fun _ statement h _ ↦ h.step hash statement

end PoolDatabase

/-- Of a pool at most one job is active, and every call returns the job that it should: in the
database in every run of interleaved transactions, and in the in-memory store in exactly those runs
in which no call whose key is stored comes to another active job of its pool first. -/
theorem pools_upheld (hash : Text → ℤ) :
    (∀ calls : List MemoryCall, Uphold (calls.foldl PoolMemory.step .empty).jobs
            (calls.foldl PoolMemory.step .empty).answers ↔
          Permitted PoolMemory.step PoolMemory.KeyFirst .empty calls) ∧
      ∀ statements : List PoolStatement,
        Uphold (statements.foldl (fun store ↦ store.step hash) PoolDatabase.empty).jobs
          (statements.foldl (fun store ↦ store.step hash) PoolDatabase.empty).answers := by
  refine ⟨PoolMemory.upholds_iff, fun statements ↦ ?_⟩
  have hconsistent := PoolDatabase.consistent_run hash statements
  exact ⟨hconsistent.apart.oneActive, hconsistent.truthful⟩

end GameLauncher.Provisioning
