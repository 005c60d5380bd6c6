import GameLauncher.Provisioning.EventKey

/-!
# Provisioning jobs

The state machine of a provisioning job. `ProvisioningEvent.target` is the table of its transitions
and `ProvisioningJob.record` what an event writes into the job besides the status; together they are
`ProvisioningJob.applyEventAt`. `target_spec` says which statuses an event leads to.
-/

set_option autoImplicit false

namespace GameLauncher.Provisioning

open Foundation Fallible

/-! ### Statuses and jobs -/

inductive ProvisioningStatus
  | created
  | starting
  | registrationStarted
  | waitingForEmail
  | emailReceived
  | waitingForProvider
  | candidateReady
  | validating
  | enrolling
  | enrolled
  | failedRetryable
  | failedPermanent
  | needsOperator
  | cancelled
  deriving DecidableEq, Repr

namespace ProvisioningStatus

/-- `as_str`. -/
def text : ProvisioningStatus → Text
  | .created => "CREATED"
  | .starting => "STARTING"
  | .registrationStarted => "REGISTRATION_STARTED"
  | .waitingForEmail => "WAITING_FOR_EMAIL"
  | .emailReceived => "EMAIL_RECEIVED"
  | .waitingForProvider => "WAITING_FOR_PROVIDER"
  | .candidateReady => "CANDIDATE_READY"
  | .validating => "VALIDATING"
  | .enrolling => "ENROLLING"
  | .enrolled => "ENROLLED"
  | .failedRetryable => "FAILED_RETRYABLE"
  | .failedPermanent => "FAILED_PERMANENT"
  | .needsOperator => "NEEDS_OPERATOR"
  | .cancelled => "CANCELLED"

def isTerminal : ProvisioningStatus → Bool
  | .enrolled | .failedPermanent | .cancelled => true
  | _ => false

def isActive (status : ProvisioningStatus) : Bool := !status.isTerminal

end ProvisioningStatus

structure CapacityCandidate where
  providerType : Text
  externalAccountId : Text
  credentialReference : Text
  expectedCapacityBytes : ℕ
  metadata : List (Text × Text)
  deriving DecidableEq, Repr

structure ProvisionRequest where
  providerType : Text
  poolId : Text
  requestedCapacityBytes : ℕ
  expiresAt : ℤ
  idempotencyKey : Text
  deriving DecidableEq, Repr

structure ProvisioningJob where
  id : Text
  providerType : Text
  poolId : Text
  requestedCapacityBytes : ℕ
  status : ProvisioningStatus
  attemptCount : ℕ
  createdAt : ℤ
  updatedAt : ℤ
  startedAt : Option ℤ
  completedAt : Option ℤ
  lastErrorCode : Option Text
  lastErrorSummary : Option Text
  inboundEmailTokenHash : Option Text
  inboundEmailAddress : Option Text
  inboundEmailExpiresAt : Option ℤ
  candidateReference : Option Text
  credentialReference : Option Text
  operatorAction : Option Text
  retryAfter : Option ℤ
  expiresAt : ℤ
  idempotencyKey : Text
  deriving DecidableEq, Repr

inductive ProvisioningEvent
  | start
  | registrationStarted (inboundEmailAddress : Text) (inboundEmailExpiresAt : ℤ)
      (inboundEmailTokenHash : Text)
  | awaitingEmail
  | emailReceived (messageId : Text)
  | providerReady
  | candidateReady (candidate : CapacityCandidate)
  | validationStarted
  | validationPassed
  | enrollmentStarted
  | enrolled
  | retryableFailure (code summary : Text) (retryAfter : Option ℤ)
  | permanentFailure (code summary : Text)
  | needsOperator (action summary : Text)
  | operatorCompleted (candidate : CapacityCandidate)
  | retryTimer
  | cancelled (summary : Text)
  | expired
  deriving DecidableEq, Repr

namespace ProvisioningEvent

def kind : ProvisioningEvent → Text
  | .start => "START"
  | .registrationStarted .. => "REGISTRATION_STARTED"
  | .awaitingEmail => "WAITING_FOR_EMAIL"
  | .emailReceived _ => "EMAIL_RECEIVED"
  | .providerReady => "PROVIDER_READY"
  | .candidateReady _ => "CANDIDATE_READY"
  | .validationStarted => "VALIDATING"
  | .validationPassed => "VALIDATION_PASSED"
  | .enrollmentStarted => "ENROLLING"
  | .enrolled => "ENROLLED"
  | .retryableFailure .. => "FAILED_RETRYABLE"
  | .permanentFailure .. => "FAILED_PERMANENT"
  | .needsOperator .. => "NEEDS_OPERATOR"
  | .operatorCompleted _ => "OPERATOR_COMPLETED"
  | .retryTimer => "RETRY_TIMER"
  | .cancelled _ => "CANCELLED"
  | .expired => "EXPIRED"

/-- The `safe_summary` of the transition. -/
def safeSummary : ProvisioningEvent → Text
  | .start => "job started"
  | .registrationStarted .. => "provider registration started"
  | .awaitingEmail => "waiting for provider email"
  | .emailReceived _ => "provisioning email accepted"
  | .providerReady => "provider is ready"
  | .candidateReady _ => "candidate capacity returned"
  | .validationStarted => "server validation started"
  | .validationPassed => "server validation passed"
  | .enrollmentStarted => "storage enrollment started"
  | .enrolled => "capacity enrolled"
  | .retryableFailure .. => "retryable provisioning failure"
  | .permanentFailure .. => "permanent provisioning failure"
  | .needsOperator .. => "operator action required"
  | .operatorCompleted _ => "operator supplied a candidate reference"
  | .retryTimer => "retry timer fired"
  | .cancelled _ => "provisioning job cancelled"
  | .expired => "provisioning job expired"

/-- The status that an event leads to, where it is a transition. -/
def target : ProvisioningEvent → ProvisioningStatus → Option ProvisioningStatus
  | .start, .created => some .starting
  | .awaitingEmail, .starting | .awaitingEmail, .registrationStarted => some .waitingForEmail
  | .registrationStarted .., .starting => some .registrationStarted
  | .emailReceived _, .waitingForEmail => some .emailReceived
  | .providerReady, .emailReceived | .providerReady, .waitingForEmail => some .waitingForProvider
  | .candidateReady _, .emailReceived | .candidateReady _, .waitingForProvider =>
    some .candidateReady
  | .operatorCompleted _, .needsOperator => some .candidateReady
  | .validationStarted, .candidateReady => some .validating
  | .validationPassed, .validating => some .enrolling
  | .enrollmentStarted, .enrolling => some .enrolling
  | .enrolled, .enrolling => some .enrolled
  | .retryTimer, .failedRetryable => some .starting
  | .retryableFailure .., status => if status.isActive then some .failedRetryable else none
  | .permanentFailure .., status => if status.isActive then some .failedPermanent else none
  | .needsOperator .., status => if status.isActive then some .needsOperator else none
  | .cancelled _, status => if status.isActive then some .cancelled else none
  | .expired, status => if status.isActive then some .failedPermanent else none
  | _, _ => none

end ProvisioningEvent

/-! ### Transitions -/

/-- What the store keeps of a transition. -/
structure ProvisioningTransition where
  source : ProvisioningStatus
  target : ProvisioningStatus
  eventType : Text
  safeSummary : Text
  deriving DecidableEq, Repr

/-- `u32::MAX`. -/
def maxU32 : ℕ := 2 ^ 32 - 1

/-- `saturating_add(1)` on a `u32`. -/
def saturatingSucc (count : ℕ) : ℕ := min (count + 1) maxU32

namespace ProvisioningJob

/-- `ProvisioningJob::new`. -/
def new (id : Text) (now : ℤ) (request : ProvisionRequest) : ProvisioningJob where
  id := id
  providerType := request.providerType
  poolId := request.poolId
  requestedCapacityBytes := request.requestedCapacityBytes
  status := .created
  attemptCount := 0
  createdAt := now
  updatedAt := now
  startedAt := none
  completedAt := none
  lastErrorCode := none
  lastErrorSummary := none
  inboundEmailTokenHash := none
  inboundEmailAddress := none
  inboundEmailExpiresAt := none
  candidateReference := none
  credentialReference := none
  operatorAction := none
  retryAfter := none
  expiresAt := request.expiresAt
  idempotencyKey := request.idempotencyKey

def request (job : ProvisioningJob) : ProvisionRequest where
  providerType := job.providerType
  poolId := job.poolId
  requestedCapacityBytes := job.requestedCapacityBytes
  expiresAt := job.expiresAt
  idempotencyKey := job.idempotencyKey

def candidate (job : ProvisioningJob) : Except ProvisioningError CapacityCandidate := do
  let externalAccountId ← orThrow job.candidateReference
    (.conflict "candidate reference is missing")
  let credentialReference ← orThrow job.credentialReference
    (.conflict "credential reference is missing")
  pure
    { providerType := job.providerType
      externalAccountId
      credentialReference
      expectedCapacityBytes := job.requestedCapacityBytes
      metadata := [] }

/-- What an event writes besides the status. -/
def record (job : ProvisioningJob) (now : ℤ) : ProvisioningEvent → ProvisioningJob
  | .start => { job with
      attemptCount := saturatingSucc job.attemptCount
      startedAt := some (job.startedAt.getD now) }
  | .registrationStarted address expiresAt tokenHash => { job with
      inboundEmailAddress := some address
      inboundEmailExpiresAt := some expiresAt
      inboundEmailTokenHash := some tokenHash }
  | .candidateReady candidate => { job with
      candidateReference := some candidate.externalAccountId
      credentialReference := some candidate.credentialReference }
  | .operatorCompleted candidate => { job with
      candidateReference := some candidate.externalAccountId
      credentialReference := some candidate.credentialReference
      operatorAction := none }
  | .enrolled => { job with
      completedAt := some now
      inboundEmailTokenHash := none
      inboundEmailExpiresAt := some now }
  | .retryTimer => { job with
      attemptCount := saturatingSucc job.attemptCount
      retryAfter := none }
  | .retryableFailure code summary retryAfter => { job with
      lastErrorCode := some code
      lastErrorSummary := some summary
      retryAfter }
  | .permanentFailure code summary => { job with
      lastErrorCode := some code
      lastErrorSummary := some summary
      retryAfter := none
      inboundEmailExpiresAt := some now }
  | .needsOperator action summary => { job with
      operatorAction := some action
      lastErrorSummary := some summary }
  | .cancelled summary => { job with
      lastErrorSummary := some summary
      inboundEmailExpiresAt := some now }
  | .expired => { job with
      lastErrorCode := some "PROVISIONING_TIMEOUT"
      lastErrorSummary := some "provisioning job expired"
      inboundEmailExpiresAt := some now }
  | .awaitingEmail | .emailReceived _ | .providerReady | .validationStarted | .validationPassed
  | .enrollmentStarted => job

def applyEventAt (job : ProvisioningJob) (event : ProvisioningEvent) (now : ℤ) :
    Except ProvisioningError (ProvisioningJob × ProvisioningTransition) :=
  match event.target job.status with
  | none => .error (.invalidTransition job.status.text event.kind)
  | some target =>
    .ok ({ job.record now event with status := target, updatedAt := now },
      { source := job.status
        target
        eventType := event.kind
        safeSummary := event.safeSummary })

end ProvisioningJob

/-! ### What an event does -/

inductive Transition : ProvisioningEvent → ProvisioningStatus → ProvisioningStatus → Prop
  | start : Transition .start .created .starting
  | awaitingEmail {status} (h : status = .starting ∨ status = .registrationStarted) :
    Transition .awaitingEmail status .waitingForEmail
  | registrationStarted {address expiresAt tokenHash} :
    Transition (.registrationStarted address expiresAt tokenHash) .starting .registrationStarted
  | emailReceived {messageId} :
    Transition (.emailReceived messageId) .waitingForEmail .emailReceived
  | providerReady {status} (h : status = .emailReceived ∨ status = .waitingForEmail) :
    Transition .providerReady status .waitingForProvider
  | candidateReady {status candidate} (h : status = .emailReceived ∨ status = .waitingForProvider) :
    Transition (.candidateReady candidate) status .candidateReady
  | operatorCompleted {candidate} :
    Transition (.operatorCompleted candidate) .needsOperator .candidateReady
  | validationStarted : Transition .validationStarted .candidateReady .validating
  | validationPassed : Transition .validationPassed .validating .enrolling
  | enrollmentStarted : Transition .enrollmentStarted .enrolling .enrolling
  | enrolled : Transition .enrolled .enrolling .enrolled
  | retryTimer : Transition .retryTimer .failedRetryable .starting
  | retryableFailure {status code summary retryAfter} (h : status.isTerminal = false) :
    Transition (.retryableFailure code summary retryAfter) status .failedRetryable
  | permanentFailure {status code summary} (h : status.isTerminal = false) :
    Transition (.permanentFailure code summary) status .failedPermanent
  | needsOperator {status action summary} (h : status.isTerminal = false) :
    Transition (.needsOperator action summary) status .needsOperator
  | cancelled {status summary} (h : status.isTerminal = false) :
    Transition (.cancelled summary) status .cancelled
  | expired {status} (h : status.isTerminal = false) : Transition .expired status .failedPermanent

section Transitions

variable {event : ProvisioningEvent} {status after : ProvisioningStatus}
  {job updated : ProvisioningJob} {transition : ProvisioningTransition} {now : ℤ}

theorem target_eq_some : event.target status = some after ↔ Transition event status after := by
  constructor
  · intro h
    unfold ProvisioningEvent.target ProvisioningStatus.isActive at h
    split at h
    all_goals first
      | (obtain rfl := Option.some.inj h; constructor; done)
      | (obtain rfl := Option.some.inj h; constructor; simp)
      | (cases h)
      | skip
    all_goals
      simp only [Bool.not_eq_true', Option.ite_none_right_eq_some, Option.some.injEq] at h
      obtain ⟨hactive, rfl⟩ := h
      constructor
      exact hactive
  · intro h
    cases h with
    | awaitingEmail h => rcases h with rfl | rfl <;> rfl
    | providerReady h => rcases h with rfl | rfl <;> rfl
    | candidateReady h => rcases h with rfl | rfl <;> rfl
    | retryableFailure h => simp [ProvisioningEvent.target, ProvisioningStatus.isActive, h]
    | permanentFailure h => simp [ProvisioningEvent.target, ProvisioningStatus.isActive, h]
    | needsOperator h => simp [ProvisioningEvent.target, ProvisioningStatus.isActive, h]
    | cancelled h => simp [ProvisioningEvent.target, ProvisioningStatus.isActive, h]
    | expired h => simp [ProvisioningEvent.target, ProvisioningStatus.isActive, h]
    | _ => rfl

theorem Transition.isTerminal (h : Transition event status after) : status.isTerminal = false := by
  cases h with
  | awaitingEmail h => rcases h with rfl | rfl <;> rfl
  | providerReady h => rcases h with rfl | rfl <;> rfl
  | candidateReady h => rcases h with rfl | rfl <;> rfl
  | retryableFailure h => exact h
  | permanentFailure h => exact h
  | needsOperator h => exact h
  | cancelled h => exact h
  | expired h => exact h
  | _ => rfl

theorem applyEventAt_eq_ok : job.applyEventAt event now = .ok (updated, transition) →
    Transition event job.status updated.status ∧
      updated = { job.record now event with status := updated.status, updatedAt := now } := by
  unfold ProvisioningJob.applyEventAt
  intro h
  cases htarget : event.target job.status with
  | none =>
    rw [htarget] at h
    cases h
  | some after =>
    rw [htarget] at h
    simp only [Except.ok.injEq, Prod.mk.injEq] at h
    obtain ⟨rfl, -⟩ := h
    exact ⟨target_eq_some.mp htarget, rfl⟩

end Transitions

end GameLauncher.Provisioning
