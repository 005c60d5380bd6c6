import GameLauncher.Foundation.Process
import GameLauncher.Foundation.Unicode
import GameLauncher.Provisioning.Job

/-!
# The provisioning manager

`ProvisioningManager` over the two stores, for one job. `applyEvent` is the atomic step of both
stores: an event whose key is kept already changes nothing and answers the job as it is. The answers
of the provisioner, the validator and the enroller are parameters of a call, and so are the clock
and the random part of an alias. A mail for another job is a call as well, because the ids of the
accepted mails are kept for all jobs.
-/

set_option autoImplicit false

namespace GameLauncher.Provisioning

open Foundation Fallible

/-! ### The stores -/

/-- An event that a store has applied. -/
structure EventRow where
  key : Text
  transition : ProvisioningTransition
  deriving DecidableEq, Repr

/-- What a store keeps of one job, and the ids of the accepted mails. -/
structure JobStore where
  job : Option ProvisioningJob
  events : List EventRow
  messages : List Text
  deriving DecidableEq, Repr

namespace JobStore

/-- The keys of the events that were applied. -/
def keys (store : JobStore) : List Text := store.events.map EventRow.key

/-- No job and no mail. -/
def empty : JobStore := ⟨none, [], []⟩

end JobStore

/-- The two implementations of `ProvisioningStore`. -/
inductive StoreKind
  | inMemory
  | database
  deriving DecidableEq, Repr

abbrev JobProcess (α : Type) := Process JobStore ProvisioningError α

namespace StoreKind

/-- The checks of texts, which the database alone makes. -/
def checkText (kind : StoreKind) (value : Text) (field : String) : Except ProvisioningError Unit :=
  match kind with
  | .inMemory => .ok ()
  | .database => validateKey value field

/-- The largest number of attempts that a store can keep: a `u32`, or a PostgreSQL `INTEGER`. -/
def maxAttempts : StoreKind → ℕ
  | .inMemory => maxU32
  | .database => 2 ^ 31 - 1

def invalidRecord : ProvisioningError :=
  .provider "provisioning database record is invalid"

/-- The checks of a request, which the database alone makes. -/
def checkRequest (kind : StoreKind) (now : ℤ) (request : ProvisionRequest) :
    Except ProvisioningError Unit :=
  match kind with
  | .inMemory => .ok ()
  | .database => do
    validateKey request.providerType "provider type"
    validateKey request.poolId "pool id"
    validateKey request.idempotencyKey "idempotency key"
    throwIf (request.expiresAt ≤ now)
      (.configuration "provisioning request is already expired")
    throwIf (2 ^ 63 - 1 < request.requestedCapacityBytes)
      (.configuration "requested capacity is too large")

variable (kind : StoreKind)

/-- `create_or_get_job`; nothing when the request is for another job. -/
def createOrGetJob (id : Text) (now : ℤ) (request : ProvisionRequest) :
    JobProcess (Option ProvisioningJob) :=
  Process.step fun store ↦
    match kind.checkRequest now request with
    | .error failure => (.error failure, store)
    | .ok () =>
      match store.job with
      | none => (.ok (some (.new id now request)), { store with job := some (.new id now request) })
      | some job =>
        if job.idempotencyKey = request.idempotencyKey ∨ (job.providerType = request.providerType ∧
            job.poolId = request.poolId ∧ job.status.isActive = true) then (.ok (some job), store)
        else (.ok none, store)

def push (store : JobStore) (key : EventKey) (job : ProvisioningJob)
    (transition : ProvisioningTransition) : JobStore :=
  { store with job := some job, events := store.events ++ [⟨key.text, transition⟩] }

def claimStart (now : ℤ) : JobProcess (Option ProvisioningJob) :=
  Process.step fun store ↦
    match store.job with
    | none => (if kind = .inMemory then .error .notFound else .ok none, store)
    | some job =>
      if job.status ≠ .created then (.ok none, store)
      else
        match job.applyEventAt .start now with
        | .error failure => (.error failure, store)
        | .ok (updated, transition) =>
          (.ok (some updated), push store (.plain .jobStart) updated transition)

def getJob : JobProcess ProvisioningJob :=
  Process.query fun store ↦ orThrow store.job .notFound

def applyEvent (key : EventKey) (event : ProvisioningEvent) (now : ℤ) :
    JobProcess ProvisioningJob :=
  Process.step fun store ↦
    match kind.checkText key.text "event idempotency key", store.job with
    | .error failure, _ => (.error failure, store)
    | .ok (), none => (.error .notFound, store)
    | .ok (), some job =>
      if key.text ∈ store.keys then (.ok job, store)
      else
        match job.applyEventAt event now with
        | .error failure => (.error failure, store)
        | .ok (updated, transition) =>
          if kind.maxAttempts < updated.attemptCount then (.error invalidRecord, store)
          else (.ok updated, push store key updated transition)

end StoreKind

/-- The part of `ProvisioningMailRecord` that is read. -/
structure ProvisioningMailRecord where
  messageId : Text
  bodySha256 : Text
  envelopeTo : Text
  deriving DecidableEq, Repr

/-- The checks of a mail, which the database alone makes. -/
def StoreKind.checkMail (kind : StoreKind) (record : ProvisioningMailRecord) :
    Except ProvisioningError Unit := do
  kind.checkText record.messageId "message id"
  kind.checkText record.bodySha256 "mail body digest"
  kind.checkText record.envelopeTo "mail recipient"

/-- `record_mail`: was the mail not recorded before? -/
def StoreKind.recordMail (kind : StoreKind) (record : ProvisioningMailRecord) : JobProcess Bool :=
  Process.step fun store ↦
    match kind.checkMail record with
    | .error failure => (.error failure, store)
    | .ok () =>
      if record.messageId ∈ store.messages then (.ok false, store)
      else (.ok true, { store with messages := store.messages ++ [record.messageId] })

/-! ### The provisioner -/

inductive ProvisionerResult
  | waitingForEmail
  | waitingForProvider
  | candidateReady (candidate : CapacityCandidate)
  | needsOperator (action : Text)
  | retryableFailure (code summary : Text) (retryAfter : Option ℤ)
  | permanentFailure (code summary : Text)
  deriving DecidableEq, Repr

structure ValidatedCapacity where
  candidate : CapacityCandidate
  observedCapacityBytes : ℕ
  deriving DecidableEq, Repr

structure Answers where
  start : ProvisionRequest → Except ProvisioningError ProvisionerResult
  continueJob : ProvisioningJob → Except ProvisioningError ProvisionerResult
  validate : CapacityCandidate → ℕ → Except ProvisioningError ValidatedCapacity
  enroll : Text → ValidatedCapacity → Except ProvisioningError Unit
  now : ℤ
  id : Text
  localPart : Text

/-- Which parts of a binding are registered besides the provisioner. -/
structure ProvisionerBinding where
  validator : Bool
  enroller : Bool
  deriving DecidableEq, Repr

structure ProvisioningManager where
  kind : StoreKind
  registry : Text → Option ProvisionerBinding
  emailDomain : Text
  aliasTtl : ℤ
  hashToken : Text → Text

/-- `Duration::minutes(5)`, in nanoseconds. -/
def fiveMinutes : ℤ := 5 * 60 * 10 ^ 9

def aliasDomain (domain : Text) : Except ProvisioningError Text := do
  let domain := toAsciiLowercase (trim domain)
  throwIf (domain = [] ∨ '@' ∈ domain ∨ domain.any isWhitespace = true)
    (.configuration "invalid provisioning email domain")
  pure domain

def safeProviderCode (value : Text) (fallback : String) : Text :=
  let value := trim value
  if value ≠ [] ∧ (utf8 value).length ≤ 64 ∧ (utf8 value).all (fun byte ↦
      isAsciiUppercase byte || (48 ≤ byte.toNat && byte.toNat ≤ 57) || byte.toNat == 95 ||
        byte.toNat == 45) = true then value
  else fallback.toList

namespace ProvisioningManager

variable (manager : ProvisioningManager) (answers : Answers)

/-- `apply_event` of the manager's store. -/
def applyEvent (key : EventKey) (event : ProvisioningEvent) : JobProcess ProvisioningJob :=
  manager.kind.applyEvent key event answers.now

/-- A value or an error that does not depend on the store. -/
def check {α : Type} (outcome : Except ProvisioningError α) : JobProcess α :=
  Process.query fun _ ↦ outcome

/-- The end of `validate_and_enroll`. -/
def enrollValidated (attempt : ℕ) (validated : ValidatedCapacity) : JobProcess ProvisioningJob := do
  let _ ← manager.applyEvent answers (.numbered .validationPassed attempt) .validationPassed
  let job ← manager.applyEvent answers (.numbered .enrollmentStarted attempt) .enrollmentStarted
  match answers.enroll job.poolId validated with
  | .error _ =>
    manager.applyEvent answers (.numbered .enrollmentFailed attempt)
      (.retryableFailure "ENROLLMENT_FAILED"
        "capacity candidate enrollment failed" (some (answers.now + fiveMinutes)))
  | .ok () => manager.applyEvent answers (.numbered .enrolled attempt) .enrolled

/-- The parts of the binding that a validation needs. -/
def checkBinding (job : ProvisioningJob) : Except ProvisioningError Unit := do
  let binding ← orThrow (manager.registry job.providerType)
    (.configuration ("no provisioner for " ++ job.providerType))
  throwIf (binding.validator = false) (.configuration
    ("no authoritative validator is configured for " ++ job.providerType))
  throwIf (binding.enroller = false) (.configuration
    ("no authoritative enroller is configured for " ++ job.providerType))

def validateAndEnroll (job : ProvisioningJob) : JobProcess ProvisioningJob := do
  check (manager.checkBinding job)
  let attempt := job.attemptCount
  let job ← manager.applyEvent answers (.numbered .validationStarted attempt) .validationStarted
  let candidate ← check job.candidate
  match answers.validate candidate job.requestedCapacityBytes with
  | .error _ =>
    manager.applyEvent answers (.numbered .validationFailed attempt)
      (.retryableFailure "VALIDATION_FAILED"
        "capacity candidate validation failed" (some (answers.now + fiveMinutes)))
  | .ok validated => manager.enrollValidated answers attempt validated

def applyResult (job : ProvisioningJob) : ProvisionerResult → JobProcess ProvisioningJob
  | .waitingForEmail => pure job
  | .waitingForProvider =>
    manager.applyEvent answers (.numbered .providerReady job.attemptCount) .providerReady
  | .candidateReady candidate => do
    let job ← manager.applyEvent answers (.numbered .candidateReady job.attemptCount)
      (.candidateReady candidate)
    manager.validateAndEnroll answers job
  | .needsOperator action =>
    manager.applyEvent answers (.plain .needsOperator)
      (.needsOperator action "operator action is required before validation")
  | .retryableFailure code _ retryAfter =>
    manager.applyEvent answers (.plain .provisionerFailedRetryable)
      (.retryableFailure (safeProviderCode code "PROVIDER_RETRYABLE_FAILURE")
        "provider reported a retryable failure" retryAfter)
  | .permanentFailure code _ =>
    manager.applyEvent answers (.plain .provisionerFailedPermanent)
      (.permanentFailure (safeProviderCode code "PROVIDER_PERMANENT_FAILURE")
        "provider reported a permanent failure")

def awaitEmail (job : ProvisioningJob) : JobProcess ProvisioningJob := do
  let domain ← check (aliasDomain manager.emailDomain)
  let job ← manager.applyEvent answers (.numbered .registrationStarted job.attemptCount)
    (.registrationStarted (answers.localPart ++ '@' :: domain) (answers.now + manager.aliasTtl)
      (manager.hashToken answers.localPart))
  manager.applyEvent answers (.numbered .waitingForEmail job.attemptCount) .awaitingEmail

/-- The permanent failure of a job without a provisioner. -/
def notConfigured : ProvisioningEvent :=
  .permanentFailure "PROVISIONER_NOT_CONFIGURED"
    "no provisioner is configured for this provider"

def startJob (job : ProvisioningJob) : JobProcess ProvisioningJob :=
  match manager.registry job.providerType, answers.start job.request with
  | none, _ => manager.applyEvent answers (.plain .missingProvisioner) notConfigured
  | some _, .error _ =>
    manager.applyEvent answers (.numbered .provisionerStartFailed job.attemptCount)
      (.retryableFailure "PROVISIONER_START_FAILED" "provider start failed"
        (some (answers.now + fiveMinutes)))
  | some _, .ok .waitingForEmail => manager.awaitEmail answers job
  | some _, .ok .waitingForProvider =>
    manager.applyEvent answers (.numbered .waitingForProvider job.attemptCount) .providerReady
  | some _, .ok result => manager.applyResult answers job result

def claimAndStart : JobProcess (Option ProvisioningJob) := do
  match ← manager.kind.claimStart answers.now with
  | some job => do
    let job ← manager.startJob answers job
    pure (some job)
  | none => do
    let job ← StoreKind.getJob
    pure (some job)

/-- `ensure_capacity`; nothing when the request is for another job. -/
def ensureCapacity (request : ProvisionRequest) : JobProcess (Option ProvisioningJob) := do
  match ← manager.kind.createOrGetJob answers.id answers.now request with
  | none => pure none
  | some job =>
    if job.status ≠ .created then pure (some job) else manager.claimAndStart answers

def retryJob : JobProcess ProvisioningJob := do
  let job ← StoreKind.getJob
  check (throwIf (job.status ≠ .failedRetryable)
    (.conflict "only retryable provisioning jobs can be retried"))
  let job ← manager.applyEvent answers
    (.numbered .operatorRetry (saturatingSucc job.attemptCount)) .retryTimer
  manager.startJob answers job

def cancelJob (summary : Text) : JobProcess ProvisioningJob := do
  let job ← StoreKind.getJob
  if job.status.isTerminal then pure job
  else manager.applyEvent answers (.plain .operatorCancel) (.cancelled summary)

def expireJob : JobProcess ProvisioningJob := do
  let job ← StoreKind.getJob
  if job.status.isTerminal then pure job
  else manager.applyEvent answers (.plain .provisioningExpiry) .expired

def completeManual (candidate : CapacityCandidate) : JobProcess ProvisioningJob := do
  let job ← StoreKind.getJob
  check (throwIf (job.status ≠ .needsOperator)
    (.conflict "only jobs waiting for an operator can be completed manually"))
  let job ← manager.applyEvent answers (.plain .operatorComplete) (.operatorCompleted candidate)
  manager.validateAndEnroll answers job

/-- The provisioner's part in the handling of a mail. -/
def continueAfterMail (job : ProvisioningJob) : JobProcess ProvisioningJob :=
  match manager.registry job.providerType, answers.continueJob job with
  | none, _ => manager.applyEvent answers (.plain .missingEmailProvisioner) notConfigured
  | some _, .error _ =>
    manager.applyEvent answers (.plain .provisionerEmailFailed)
      (.retryableFailure "PROVIDER_EMAIL_PROCESSING_FAILED"
        "provider email processing failed" (some (answers.now + fiveMinutes)))
  | some _, .ok result => manager.applyResult answers job result

/-- The job that a new mail has reached. -/
def receiveMail (record : ProvisioningMailRecord) (job : ProvisioningJob) :
    JobProcess ProvisioningJob :=
  if job.status = .waitingForEmail then
    manager.applyEvent answers (.ofMail record.messageId) (.emailReceived record.messageId)
  else pure job

/-- `handle_email_with_record_status`. -/
def handleEmail (record : ProvisioningMailRecord) : JobProcess (ProvisioningJob × Bool) := do
  let job ← StoreKind.getJob
  if job.status.isTerminal then pure (job, false)
  else do
    let accepted ← manager.kind.recordMail record
    if accepted = false then pure (job, true)
    else do
      let job ← manager.receiveMail answers record job
      let job ← manager.continueAfterMail answers job
      pure (job, false)

end ProvisioningManager

/-! ### Calls -/

inductive Request
  | ensureCapacity (request : ProvisionRequest)
  | retryJob
  | completeManual (candidate : CapacityCandidate)
  | handleEmail (record : ProvisioningMailRecord)
  | cancelJob (summary : Text)
  | expireJob
  /-- A mail that another job accepts. -/
  | otherMail (record : ProvisioningMailRecord)
  deriving DecidableEq, Repr

structure Call where
  request : Request
  answers : Answers

def ProvisioningManager.perform (manager : ProvisioningManager) (call : Call) :
    JobProcess (Option ProvisioningJob) :=
  match call.request with
  | .ensureCapacity request => manager.ensureCapacity call.answers request
  | .retryJob => do
    let job ← manager.retryJob call.answers
    pure (some job)
  | .completeManual candidate => do
    let job ← manager.completeManual call.answers candidate
    pure (some job)
  | .handleEmail record => do
    let (job, _) ← manager.handleEmail call.answers record
    pure (some job)
  | .cancelJob summary => do
    let job ← manager.cancelJob call.answers summary
    pure (some job)
  | .expireJob => do
    let job ← manager.expireJob call.answers
    pure (some job)
  | .otherMail record => do
    let _ ← manager.kind.recordMail record
    pure none

end GameLauncher.Provisioning
