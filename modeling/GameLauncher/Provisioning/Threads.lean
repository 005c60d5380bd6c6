import GameLauncher.Foundation.Program
import GameLauncher.Foundation.Run
import GameLauncher.Provisioning.Coherence

/-!
# The manager's calls as threads

The calls of `ProvisioningManager` again, as programs over the operations of the store and the
enroller, so that the calls for one job can run interleaved, operation by operation.
`toProcess_program` shows that a call that runs alone is the one of `ProvisioningManager.perform`.
The accounts that the enroller has added to a pool are part of the shared state.
-/

set_option autoImplicit false

namespace GameLauncher.Provisioning

open Foundation Fallible ProvisioningManager Program

/-! ### Operations -/

/-- A call of the store or of the enroller; `outcome` is what the enroller will answer. -/
inductive Operation
  | createOrGetJob (id : Text) (now : ℤ) (request : ProvisionRequest)
  | claimStart (now : ℤ)
  | getJob
  | applyEvent (key : EventKey) (event : ProvisioningEvent) (now : ℤ)
  | recordMail (record : ProvisioningMailRecord)
  | enroll (poolId : Text) (validated : ValidatedCapacity) (outcome : Except ProvisioningError Unit)

namespace Operation

/-- What an operation responds. -/
def Response : Operation → Type
  | createOrGetJob .. | claimStart _ => Option ProvisioningJob
  | getJob | applyEvent .. => ProvisioningJob
  | recordMail _ => Bool
  | enroll .. => Except ProvisioningError Unit

def onStore (kind : StoreKind) : (operation : Operation) → JobProcess operation.Response
  | createOrGetJob id now request => kind.createOrGetJob id now request
  | claimStart now => kind.claimStart now
  | getJob => StoreKind.getJob
  | applyEvent key event now => kind.applyEvent key event now
  | recordMail record => kind.recordMail record
  | enroll _ _ outcome => pure outcome

def accounts : Operation → List (Text × ValidatedCapacity)
  | enroll poolId validated (.ok ()) => [(poolId, validated)]
  | _ => []

end Operation

/-- The store, and the accounts in the pools. -/
structure Enrollments where
  store : JobStore
  enrolled : List (Text × ValidatedCapacity)

namespace Enrollments

/-- No job and no account. -/
def empty : Enrollments := ⟨.empty, []⟩

/-- One operation of some thread. -/
def perform (kind : StoreKind) (operation : Operation) (shared : Enrollments) :
    Except ProvisioningError operation.Response × Enrollments :=
  let outcome := operation.onStore kind shared.store
  (outcome.result, ⟨outcome.final, shared.enrolled ++ operation.accounts⟩)

end Enrollments

abbrev CallProgram (α : Type) : Type :=
  Program Operation Operation.Response ProvisioningError α

/-! ### The calls -/

namespace Threads

variable (manager : ProvisioningManager) (answers : Answers)

def applyEvent (key : EventKey) (event : ProvisioningEvent) : CallProgram ProvisioningJob :=
  Program.perform (Operation.applyEvent key event answers.now)

def getJob : CallProgram ProvisioningJob := Program.perform Operation.getJob

/-- A value or an error that does not depend on the store. -/
def check {α : Type} (outcome : Except ProvisioningError α) : CallProgram α := .done outcome

/-- What `validate_and_enroll` records of the answer of the enroller. -/
def recordEnrollment (attempt : ℕ) : Except ProvisioningError Unit → CallProgram ProvisioningJob
  | .error _ =>
    applyEvent answers (.numbered .enrollmentFailed attempt)
      (.retryableFailure "ENROLLMENT_FAILED"
        "capacity candidate enrollment failed" (some (answers.now + fiveMinutes)))
  | .ok () => applyEvent answers (.numbered .enrolled attempt) .enrolled

/-- The end of `validate_and_enroll`. -/
def enrollValidated (attempt : ℕ) (validated : ValidatedCapacity) : CallProgram ProvisioningJob := do
  let _ ← applyEvent answers (.numbered .validationPassed attempt) .validationPassed
  let job ← applyEvent answers (.numbered .enrollmentStarted attempt) .enrollmentStarted
  Program.call (.enroll job.poolId validated (answers.enroll job.poolId validated))
    (recordEnrollment answers attempt)

def validateAndEnroll (job : ProvisioningJob) : CallProgram ProvisioningJob := do
  check (manager.checkBinding job)
  let attempt := job.attemptCount
  let job ← applyEvent answers (.numbered .validationStarted attempt) .validationStarted
  let candidate ← check job.candidate
  match answers.validate candidate job.requestedCapacityBytes with
  | .error _ =>
    applyEvent answers (.numbered .validationFailed attempt)
      (.retryableFailure "VALIDATION_FAILED"
        "capacity candidate validation failed" (some (answers.now + fiveMinutes)))
  | .ok validated => enrollValidated answers attempt validated

def applyResult (job : ProvisioningJob) : ProvisionerResult → CallProgram ProvisioningJob
  | .waitingForEmail => pure job
  | .waitingForProvider =>
    applyEvent answers (.numbered .providerReady job.attemptCount) .providerReady
  | .candidateReady candidate => do
    let job ← applyEvent answers (.numbered .candidateReady job.attemptCount)
      (.candidateReady candidate)
    validateAndEnroll manager answers job
  | .needsOperator action =>
    applyEvent answers (.plain .needsOperator)
      (.needsOperator action "operator action is required before validation")
  | .retryableFailure code _ retryAfter =>
    applyEvent answers (.plain .provisionerFailedRetryable)
      (.retryableFailure (safeProviderCode code "PROVIDER_RETRYABLE_FAILURE")
        "provider reported a retryable failure" retryAfter)
  | .permanentFailure code _ =>
    applyEvent answers (.plain .provisionerFailedPermanent)
      (.permanentFailure (safeProviderCode code "PROVIDER_PERMANENT_FAILURE")
        "provider reported a permanent failure")

def awaitEmail (job : ProvisioningJob) : CallProgram ProvisioningJob := do
  let domain ← check (aliasDomain manager.emailDomain)
  let job ← applyEvent answers (.numbered .registrationStarted job.attemptCount)
    (.registrationStarted (answers.localPart ++ '@' :: domain) (answers.now + manager.aliasTtl)
      (manager.hashToken answers.localPart))
  applyEvent answers (.numbered .waitingForEmail job.attemptCount) .awaitingEmail

def startJob (job : ProvisioningJob) : CallProgram ProvisioningJob :=
  match manager.registry job.providerType, answers.start job.request with
  | none, _ => applyEvent answers (.plain .missingProvisioner) ProvisioningManager.notConfigured
  | some _, .error _ =>
    applyEvent answers (.numbered .provisionerStartFailed job.attemptCount)
      (.retryableFailure "PROVISIONER_START_FAILED" "provider start failed"
        (some (answers.now + fiveMinutes)))
  | some _, .ok .waitingForEmail => awaitEmail manager answers job
  | some _, .ok .waitingForProvider =>
    applyEvent answers (.numbered .waitingForProvider job.attemptCount) .providerReady
  | some _, .ok result => applyResult manager answers job result

def claimAndStart : CallProgram (Option ProvisioningJob) :=
  Program.call (.claimStart answers.now) fun
    | some job => do
      let job ← startJob manager answers job
      pure (some job)
    | none => do
      let job ← getJob
      pure (some job)

/-- `ensure_capacity`; nothing when the request is for another job. -/
def ensureCapacity (request : ProvisionRequest) : CallProgram (Option ProvisioningJob) :=
  Program.call (.createOrGetJob answers.id answers.now request) fun
    | none => pure none
    | some job =>
      if job.status ≠ .created then pure (some job) else claimAndStart manager answers

def retryJob : CallProgram ProvisioningJob := do
  let job ← getJob
  check (throwIf (job.status ≠ .failedRetryable)
    (.conflict "only retryable provisioning jobs can be retried"))
  let job ← applyEvent answers
    (.numbered .operatorRetry (saturatingSucc job.attemptCount)) .retryTimer
  startJob manager answers job

def cancelJob (summary : Text) : CallProgram ProvisioningJob := do
  let job ← getJob
  if job.status.isTerminal then pure job
  else applyEvent answers (.plain .operatorCancel) (.cancelled summary)

def expireJob : CallProgram ProvisioningJob := do
  let job ← getJob
  if job.status.isTerminal then pure job
  else applyEvent answers (.plain .provisioningExpiry) .expired

def completeManual (candidate : CapacityCandidate) : CallProgram ProvisioningJob := do
  let job ← getJob
  check (throwIf (job.status ≠ .needsOperator)
    (.conflict "only jobs waiting for an operator can be completed manually"))
  let job ← applyEvent answers (.plain .operatorComplete) (.operatorCompleted candidate)
  validateAndEnroll manager answers job

/-- The provisioner's part in the handling of a mail. -/
def continueAfterMail (job : ProvisioningJob) : CallProgram ProvisioningJob :=
  match manager.registry job.providerType, answers.continueJob job with
  | none, _ =>
    applyEvent answers (.plain .missingEmailProvisioner) ProvisioningManager.notConfigured
  | some _, .error _ =>
    applyEvent answers (.plain .provisionerEmailFailed)
      (.retryableFailure "PROVIDER_EMAIL_PROCESSING_FAILED"
        "provider email processing failed" (some (answers.now + fiveMinutes)))
  | some _, .ok result => applyResult manager answers job result

/-- The job that a new mail has reached. -/
def receiveMail (record : ProvisioningMailRecord) (job : ProvisioningJob) :
    CallProgram ProvisioningJob :=
  if job.status = .waitingForEmail then
    applyEvent answers (.ofMail record.messageId) (.emailReceived record.messageId)
  else pure job

/-- The rest of `handle_email_with_record_status`, once the mail is recorded. -/
def acceptMail (record : ProvisioningMailRecord) (job : ProvisioningJob) (accepted : Bool) :
    CallProgram (ProvisioningJob × Bool) :=
  if accepted = false then pure (job, true)
  else do
    let job ← receiveMail answers record job
    let job ← continueAfterMail manager answers job
    pure (job, false)

/-- `handle_email_with_record_status`. -/
def handleEmail (record : ProvisioningMailRecord) : CallProgram (ProvisioningJob × Bool) := do
  let job ← getJob
  if job.status.isTerminal then pure (job, false)
  else Program.call (.recordMail record) (acceptMail manager answers record job)

end Threads

def ProvisioningManager.program (manager : ProvisioningManager) (call : Call) :
    CallProgram (Option ProvisioningJob) :=
  match call.request with
  | .ensureCapacity request => Threads.ensureCapacity manager call.answers request
  | .retryJob => do
    let job ← Threads.retryJob manager call.answers
    pure (some job)
  | .completeManual candidate => do
    let job ← Threads.completeManual manager call.answers candidate
    pure (some job)
  | .handleEmail record => do
    let (job, _) ← Threads.handleEmail manager call.answers record
    pure (some job)
  | .cancelJob summary => do
    let job ← Threads.cancelJob call.answers summary
    pure (some job)
  | .expireJob => do
    let job ← Threads.expireJob call.answers
    pure (some job)
  | .otherMail record => Program.call (.recordMail record) fun _ ↦ pure none

/-! ### A call that runs alone -/

namespace Threads

variable (manager : ProvisioningManager) (answers : Answers)

@[simp] theorem toProcess_applyEvent (key : EventKey) (event : ProvisioningEvent) :
    (applyEvent answers key event).toProcess (Operation.onStore manager.kind) =
      manager.applyEvent answers key event :=
  bind_pure _

@[simp] theorem toProcess_getJob :
    getJob.toProcess (Operation.onStore manager.kind) = StoreKind.getJob :=
  bind_pure _

@[simp] theorem toProcess_check {α : Type} (outcome : Except ProvisioningError α) :
    (check outcome).toProcess (Operation.onStore manager.kind) =
      ProvisioningManager.check outcome :=
  toProcess_done _ outcome

@[simp] theorem toProcess_enrollValidated (attempt : ℕ) (validated : ValidatedCapacity) :
    (enrollValidated answers attempt validated).toProcess (Operation.onStore manager.kind) =
      manager.enrollValidated answers attempt validated := by
  simp only [enrollValidated, enrollValidated, toProcess_bind, toProcess_applyEvent]
  refine bind_congr fun _ ↦ bind_congr fun job ↦ ?_
  refine (pure_bind (answers.enroll job.poolId validated) fun outcome ↦
    (recordEnrollment answers attempt outcome).toProcess (Operation.onStore manager.kind)).trans ?_
  cases answers.enroll job.poolId validated with
  | error _ | ok _ => exact toProcess_applyEvent manager answers _ _

@[simp] theorem toProcess_validateAndEnroll (job : ProvisioningJob) :
    (validateAndEnroll manager answers job).toProcess (Operation.onStore manager.kind) =
      manager.validateAndEnroll answers job := by
  simp only [validateAndEnroll, ProvisioningManager.validateAndEnroll, toProcess_bind,
    toProcess_applyEvent, toProcess_check]
  refine bind_congr fun _ ↦ bind_congr fun job ↦ bind_congr fun candidate ↦ ?_
  cases answers.validate candidate job.requestedCapacityBytes with
  | error failure => exact toProcess_applyEvent manager answers _ _
  | ok validated => exact toProcess_enrollValidated manager answers _ _

@[simp] theorem toProcess_applyResult (job : ProvisioningJob) (result : ProvisionerResult) :
    (applyResult manager answers job result).toProcess (Operation.onStore manager.kind) =
      manager.applyResult answers job result := by
  cases result <;> simp only [applyResult, ProvisioningManager.applyResult, toProcess_bind,
    toProcess_pure, toProcess_applyEvent, toProcess_validateAndEnroll]

@[simp] theorem toProcess_awaitEmail (job : ProvisioningJob) :
    (awaitEmail manager answers job).toProcess (Operation.onStore manager.kind) =
      manager.awaitEmail answers job := by
  simp only [awaitEmail, ProvisioningManager.awaitEmail, toProcess_bind,
    toProcess_applyEvent, toProcess_check]

@[simp] theorem toProcess_startJob (job : ProvisioningJob) :
    (startJob manager answers job).toProcess (Operation.onStore manager.kind) =
      manager.startJob answers job := by
  unfold startJob ProvisioningManager.startJob
  cases manager.registry job.providerType with
  | none => exact toProcess_applyEvent manager answers _ _
  | some binding =>
    cases answers.start job.request with
    | error failure => exact toProcess_applyEvent manager answers _ _
    | ok result =>
      cases result <;> simp only [toProcess_applyEvent, toProcess_awaitEmail, toProcess_applyResult]

@[simp] theorem toProcess_claimAndStart :
    (claimAndStart manager answers).toProcess (Operation.onStore manager.kind) =
      manager.claimAndStart answers := by
  refine bind_congr fun claimed ↦ ?_
  cases claimed with
  | none => simp only [toProcess_bind, toProcess_pure, toProcess_getJob]
  | some job => simp only [toProcess_bind, toProcess_pure, toProcess_startJob]

@[simp] theorem toProcess_ensureCapacity (request : ProvisionRequest) :
    (ensureCapacity manager answers request).toProcess (Operation.onStore manager.kind) =
      manager.ensureCapacity answers request := by
  refine bind_congr fun found ↦ ?_
  cases found with
  | none => rfl
  | some job =>
    simp only
    split
    · rfl
    · exact toProcess_claimAndStart manager answers

@[simp] theorem toProcess_continueAfterMail (job : ProvisioningJob) :
    (continueAfterMail manager answers job).toProcess (Operation.onStore manager.kind) =
      manager.continueAfterMail answers job := by
  unfold continueAfterMail ProvisioningManager.continueAfterMail
  cases manager.registry job.providerType with
  | none => exact toProcess_applyEvent manager answers _ _
  | some binding =>
    cases answers.continueJob job with
    | error failure => exact toProcess_applyEvent manager answers _ _
    | ok result => exact toProcess_applyResult manager answers job result

@[simp] theorem toProcess_receiveMail (record : ProvisioningMailRecord) (job : ProvisioningJob) :
    (receiveMail answers record job).toProcess (Operation.onStore manager.kind) =
      manager.receiveMail answers record job := by
  unfold receiveMail ProvisioningManager.receiveMail
  split
  · exact toProcess_applyEvent manager answers _ _
  · rfl

@[simp] theorem toProcess_handleEmail (record : ProvisioningMailRecord) :
    (handleEmail manager answers record).toProcess (Operation.onStore manager.kind) =
      manager.handleEmail answers record := by
  simp only [handleEmail, ProvisioningManager.handleEmail, toProcess_bind, toProcess_getJob]
  refine bind_congr fun job ↦ ?_
  split
  · rfl
  · refine bind_congr fun accepted ↦ ?_
    unfold acceptMail
    split <;> simp only [toProcess_bind, toProcess_pure, toProcess_receiveMail,
      toProcess_continueAfterMail]

end Threads

theorem toProcess_program (manager : ProvisioningManager) (call : Call) :
    (manager.program call).toProcess (Operation.onStore manager.kind) = manager.perform call := by
  obtain ⟨request, answers⟩ := call
  cases request with
  | ensureCapacity request => exact Threads.toProcess_ensureCapacity manager answers request
  | retryJob =>
    simp only [ProvisioningManager.program, ProvisioningManager.perform, Threads.retryJob,
      ProvisioningManager.retryJob, toProcess_bind, toProcess_pure,
      Threads.toProcess_getJob, Threads.toProcess_check, Threads.toProcess_applyEvent,
      Threads.toProcess_startJob]
  | completeManual candidate =>
    simp only [ProvisioningManager.program, ProvisioningManager.perform, Threads.completeManual,
      ProvisioningManager.completeManual, toProcess_bind, toProcess_pure,
      Threads.toProcess_getJob, Threads.toProcess_check, Threads.toProcess_applyEvent,
      Threads.toProcess_validateAndEnroll]
  | handleEmail record =>
    simp only [ProvisioningManager.program, ProvisioningManager.perform, toProcess_bind,
      toProcess_pure, Threads.toProcess_handleEmail]
  | cancelJob summary =>
    simp only [ProvisioningManager.program, ProvisioningManager.perform, Threads.cancelJob,
      cancelJob, toProcess_bind, toProcess_pure,
      Threads.toProcess_getJob]
    congr 1
    refine bind_congr fun job ↦ ?_
    split
    · rfl
    · exact Threads.toProcess_applyEvent manager answers _ _
  | expireJob =>
    simp only [ProvisioningManager.program, ProvisioningManager.perform, Threads.expireJob,
      expireJob, toProcess_bind, toProcess_pure,
      Threads.toProcess_getJob]
    congr 1
    refine bind_congr fun job ↦ ?_
    split
    · rfl
    · exact Threads.toProcess_applyEvent manager answers _ _
  | otherMail record => rfl

end GameLauncher.Provisioning
