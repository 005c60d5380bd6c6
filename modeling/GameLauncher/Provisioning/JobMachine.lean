import GameLauncher.Provisioning.Job

/-!
# Histories of a provisioning job

`apply_event_at` changes the job in place: an arm of its `match` writes the fields of its event
before the status, and the last arm refuses the event. `ProvisioningJob.applyEventInPlace` has these
writes one by one, and `run_applyEventInPlace` shows that together they are `applyEventAt`: an event
that is refused has written nothing.

`history_lawful` is about every sequence of events that is offered to a new job. What a status says
about the events that were applied before is `Traced`, an invariant of a single event.
-/

set_option autoImplicit false

namespace GameLauncher.Provisioning

open Foundation List ProvisioningJob

/-! ### The job in place -/

/-- A computation on `&mut self`: what it has written stays when it fails. -/
abbrev InPlace (α : Type) : Type := ExceptT ProvisioningError (StateM ProvisioningJob) α

/-- A transition with what its event carries. -/
structure AppliedTransition extends ProvisioningTransition where
  candidate : Option CapacityCandidate
  retryAfter : Option ℤ
  deriving DecidableEq, Repr

/-- What an arm of the `match` evaluates to. -/
structure Arm where
  target : ProvisioningStatus
  safeSummary : Text
  candidate : Option CapacityCandidate := none
  retryAfter : Option ℤ := none
  deriving DecidableEq, Repr

namespace ProvisioningJob

def write (update : ProvisioningJob → ProvisioningJob) : InPlace Unit := modify update

/-- The last arm. -/
def refuse (source : ProvisioningStatus) (event : ProvisioningEvent) : InPlace Arm :=
  throw (.invalidTransition source.text event.kind)

def writeCandidate (candidate : CapacityCandidate) : InPlace Unit := do
  write fun job ↦ { job with candidateReference := some candidate.externalAccountId }
  write fun job ↦ { job with credentialReference := some candidate.credentialReference }

/-- The guard of the failures and of a cancellation. -/
def mayFail (status : ProvisioningStatus) : Bool := status.isActive && status != .enrolled

/-- The `match` of `apply_event_at`. -/
def matchEvent (now : ℤ) : ProvisioningStatus → ProvisioningEvent → InPlace Arm
  | .created, .start => do
    write fun job ↦ { job with attemptCount := saturatingSucc job.attemptCount }
    write fun job ↦ { job with startedAt := some (job.startedAt.getD now) }
    pure { target := .starting, safeSummary := "job started" }
  | .starting, .awaitingEmail | .registrationStarted, .awaitingEmail =>
    pure { target := .waitingForEmail, safeSummary := "waiting for provider email" }
  | .starting, .registrationStarted address expiresAt tokenHash => do
    write fun job ↦ { job with inboundEmailAddress := some address }
    write fun job ↦ { job with inboundEmailExpiresAt := some expiresAt }
    write fun job ↦ { job with inboundEmailTokenHash := some tokenHash }
    pure { target := .registrationStarted, safeSummary := "provider registration started" }
  | .waitingForEmail, .emailReceived _ =>
    pure { target := .emailReceived, safeSummary := "provisioning email accepted" }
  | .emailReceived, .providerReady | .waitingForEmail, .providerReady =>
    pure { target := .waitingForProvider, safeSummary := "provider is ready" }
  | .emailReceived, .candidateReady candidate | .waitingForProvider, .candidateReady candidate => do
    writeCandidate candidate
    pure
      { target := .candidateReady
        safeSummary := "candidate capacity returned"
        candidate := some candidate }
  | .needsOperator, .operatorCompleted candidate => do
    writeCandidate candidate
    write fun job ↦ { job with operatorAction := none }
    pure
      { target := .candidateReady
        safeSummary := "operator supplied a candidate reference"
        candidate := some candidate }
  | .candidateReady, .validationStarted =>
    pure { target := .validating, safeSummary := "server validation started" }
  | .validating, .validationPassed =>
    pure { target := .enrolling, safeSummary := "server validation passed" }
  | .enrolling, .enrollmentStarted =>
    pure { target := .enrolling, safeSummary := "storage enrollment started" }
  | .enrolling, .enrolled => do
    write fun job ↦ { job with completedAt := some now }
    write fun job ↦ { job with inboundEmailTokenHash := none }
    write fun job ↦ { job with inboundEmailExpiresAt := some now }
    pure { target := .enrolled, safeSummary := "capacity enrolled" }
  | status, .retryTimer =>
    if status = .failedRetryable then do
      write fun job ↦ { job with attemptCount := saturatingSucc job.attemptCount }
      write fun job ↦ { job with retryAfter := none }
      pure { target := .starting, safeSummary := "retry timer fired" }
    else refuse status .retryTimer
  | status, .retryableFailure code summary retryAfter =>
    if mayFail status then do
      write fun job ↦ { job with lastErrorCode := some code }
      write fun job ↦ { job with lastErrorSummary := some summary }
      write fun job ↦ { job with retryAfter }
      pure
        { target := .failedRetryable
          safeSummary := "retryable provisioning failure"
          retryAfter }
    else refuse status (.retryableFailure code summary retryAfter)
  | status, .permanentFailure code summary =>
    if mayFail status then do
      write fun job ↦ { job with lastErrorCode := some code }
      write fun job ↦ { job with lastErrorSummary := some summary }
      write fun job ↦ { job with retryAfter := none }
      write fun job ↦ { job with inboundEmailExpiresAt := some now }
      pure
        { target := .failedPermanent
          safeSummary := "permanent provisioning failure" }
    else refuse status (.permanentFailure code summary)
  | status, .needsOperator action summary =>
    if mayFail status then do
      write fun job ↦ { job with operatorAction := some action }
      write fun job ↦ { job with lastErrorSummary := some summary }
      pure { target := .needsOperator, safeSummary := "operator action required" }
    else refuse status (.needsOperator action summary)
  | status, .cancelled summary =>
    if mayFail status then do
      write fun job ↦ { job with lastErrorSummary := some summary }
      write fun job ↦ { job with inboundEmailExpiresAt := some now }
      pure { target := .cancelled, safeSummary := "provisioning job cancelled" }
    else refuse status (.cancelled summary)
  | status, .expired =>
    if status.isActive && !status.isTerminal then do
      write fun job ↦ { job with lastErrorCode := some "PROVISIONING_TIMEOUT" }
      write fun job ↦ { job with lastErrorSummary := some "provisioning job expired" }
      write fun job ↦ { job with inboundEmailExpiresAt := some now }
      pure { target := .failedPermanent, safeSummary := "provisioning job expired" }
    else refuse status .expired
  | status, event => refuse status event

/-- What follows the `match`. -/
def finish (now : ℤ) (source : ProvisioningStatus) (event : ProvisioningEvent) (arm : Arm) :
    InPlace AppliedTransition := do
  write fun job ↦ { job with status := arm.target }
  write fun job ↦ { job with updatedAt := now }
  pure
    { source
      target := arm.target
      eventType := event.kind
      safeSummary := arm.safeSummary
      candidate := arm.candidate
      retryAfter := arm.retryAfter }

/-- `apply_event_at`, in place. -/
def applyEventInPlace (event : ProvisioningEvent) (now : ℤ) : InPlace AppliedTransition := do
  let job ← get
  let arm ← matchEvent now job.status event
  finish now job.status event arm

end ProvisioningJob

/-! ### An event in place -/

section InPlace

theorem run_bind_inPlace {α β : Type} (part : InPlace α) (rest : α → InPlace β)
    (job : ProvisioningJob) : (part >>= rest).run.run job = match part.run.run job with
      | (.ok value, written) => (rest value).run.run written
      | (.error failure, written) => (.error failure, written) := by
  rw [ExceptT.run_bind, StateT.run_bind]
  rcases part.run.run job with ⟨failure | value, written⟩ <;> rfl

theorem run_matchEvent (job : ProvisioningJob) (event : ProvisioningEvent) (now : ℤ) :
    (∃ arm, event.target job.status = some arm.target ∧ arm.safeSummary = event.safeSummary ∧
        (matchEvent now job.status event).run.run job = (.ok arm, job.record now event)) ∨
      (event.target job.status = none ∧ (matchEvent now job.status event).run.run job =
          (.error (.invalidTransition job.status.text event.kind), job)) := by
  generalize hstatus : job.status = status
  cases event <;> cases status <;>
    first
      | exact .inr ⟨rfl, rfl⟩
      | exact .inl ⟨_, rfl, rfl, rfl⟩

theorem run_applyEventInPlace (job : ProvisioningJob) (event : ProvisioningEvent) (now : ℤ) :
    (∃ applied updated, job.applyEventAt event now =
          .ok (updated, applied.toProvisioningTransition) ∧
        (applyEventInPlace event now).run.run job = (.ok applied, updated)) ∨
      ∃ failure, job.applyEventAt event now = .error failure ∧
        (applyEventInPlace event now).run.run job = (.error failure, job) := by
  have hrun : (applyEventInPlace event now).run.run job =
      match (matchEvent now job.status event).run.run job with
      | (.ok arm, written) =>
        (.ok ⟨⟨job.status, arm.target, event.kind, arm.safeSummary⟩, arm.candidate, arm.retryAfter⟩,
          { written with status := arm.target, updatedAt := now })
      | (.error failure, written) => (.error failure, written) := by
    change (matchEvent now job.status event >>= finish now job.status event).run.run job = _
    rw [run_bind_inPlace]
    rcases (matchEvent now job.status event).run.run job with
      ⟨failure | arm, written⟩ <;> rfl
  rcases run_matchEvent job event now with ⟨arm, htarget, hsummary, hmatch⟩ | ⟨htarget, hmatch⟩
  · refine .inl ⟨_, _, ?_, by rw [hrun, hmatch]⟩
    simp only [applyEventAt, htarget, hsummary]
  · refine .inr ⟨_, ?_, by rw [hrun, hmatch]⟩
    simp only [applyEventAt, htarget]

end InPlace

/-! ### Histories -/

structure History where
  job : ProvisioningJob
  applied : List ProvisioningEvent

namespace History

/-- `ProvisioningJob::new`. -/
def new (id : Text) (now : ℤ) (request : ProvisionRequest) : History :=
  ⟨.new id now request, []⟩

/-- An event is offered at a time; it is applied or refused. -/
def offer (history : History) (event : ProvisioningEvent × ℤ) : History :=
  match (ProvisioningJob.applyEventInPlace event.1 event.2).run.run history.job with
  | (.ok _, job) => ⟨job, history.applied ++ [event.1]⟩
  | (.error _, job) => ⟨job, history.applied⟩

theorem offer_cases (history : History) (event : ProvisioningEvent × ℤ) :
    history.offer event = history ∨
      ∃ updated, Transition event.1 history.job.status updated.status ∧
        updated = { history.job.record event.2 event.1 with
          status := updated.status, updatedAt := event.2 } ∧
        history.offer event = ⟨updated, history.applied ++ [event.1]⟩ := by
  rcases run_applyEventInPlace history.job event.1 event.2 with
    ⟨applied, updated, happly, hrun⟩ | ⟨failure, -, hrun⟩
  · obtain ⟨htransition, hupdated⟩ := applyEventAt_eq_ok happly
    refine .inr ⟨updated, htransition, hupdated, ?_⟩
    rw [offer, hrun]
  · left
    rw [offer, hrun]

end History

def ProvisioningEvent.bringsCandidate : ProvisioningEvent → Bool
  | .candidateReady _ | .operatorCompleted _ => true
  | _ => false

/-- The statuses in which a job has a candidate. -/
def ProvisioningStatus.hasCandidate : ProvisioningStatus → Bool
  | .candidateReady | .validating | .enrolling | .enrolled => true
  | _ => false

/-- The last events are one that brings a candidate, and these. -/
def EndsIn (applied last : List ProvisioningEvent) : Prop :=
  ∃ event, event.bringsCandidate = true ∧ event :: last <:+ applied

/-- The events from the candidate on to an enrollment that was started so many times. -/
def enrollingEvents (starts : ℕ) : List ProvisioningEvent :=
  .validationStarted :: .validationPassed :: List.replicate starts .enrollmentStarted

/-- What a status says about the events before it. -/
def Traced (applied : List ProvisioningEvent) : ProvisioningStatus → Prop
  | .candidateReady => EndsIn applied []
  | .validating => EndsIn applied [.validationStarted]
  | .enrolling => ∃ starts, EndsIn applied (enrollingEvents starts)
  | .enrolled => ∃ starts, EndsIn applied (enrollingEvents starts ++ [.enrolled])
  | _ => True

/-- The invariant of a history. -/
structure Lawful (history : History) : Prop where
  traced : Traced history.applied history.job.status
  candidate : history.job.status.hasCandidate = true →
    history.job.candidateReference.isSome = true ∧ history.job.credentialReference.isSome = true

variable {applied : List ProvisioningEvent}

theorem EndsIn.concat {last : List ProvisioningEvent} (h : EndsIn applied last)
    (event : ProvisioningEvent) : EndsIn (applied ++ [event]) (last ++ [event]) := by
  obtain ⟨first, hfirst, before, rfl⟩ := h
  exact ⟨first, hfirst, before, by simp only [cons_append, append_assoc]⟩

variable {event : ProvisioningEvent}

theorem endsIn_nil (h : event.bringsCandidate = true) : EndsIn (applied ++ [event]) [] :=
  ⟨event, h, suffix_append applied [event]⟩

theorem enrollingEvents_concat (starts : ℕ) :
    enrollingEvents starts ++ [.enrollmentStarted] = enrollingEvents (starts + 1) := by
  simp only [enrollingEvents, cons_append, replicate_succ']

theorem Traced.transition {status after : ProvisioningStatus} (h : Traced applied status)
    (htransition : Transition event status after) : Traced (applied ++ [event]) after := by
  cases htransition with
  | candidateReady => exact endsIn_nil rfl
  | operatorCompleted => exact endsIn_nil rfl
  | validationStarted => exact EndsIn.concat h _
  | validationPassed => exact ⟨0, EndsIn.concat h _⟩
  | enrollmentStarted =>
    obtain ⟨starts, hends⟩ := h
    exact ⟨starts + 1, enrollingEvents_concat starts ▸ hends.concat _⟩
  | enrolled =>
    obtain ⟨starts, hends⟩ := h
    exact ⟨starts, hends.concat _⟩
  | _ => trivial

theorem references_of_record {job : ProvisioningJob} {now : ℤ} {after : ProvisioningStatus}
    (htransition : Transition event job.status after) (hcandidate : after.hasCandidate = true)
    (h : job.status.hasCandidate = true →
      job.candidateReference.isSome = true ∧ job.credentialReference.isSome = true) :
    (job.record now event).candidateReference.isSome = true ∧
      (job.record now event).credentialReference.isSome = true := by
  generalize hstatus : job.status = status at htransition h
  cases htransition with
  | candidateReady => exact ⟨rfl, rfl⟩
  | operatorCompleted => exact ⟨rfl, rfl⟩
  | validationStarted => exact h rfl
  | validationPassed => exact h rfl
  | enrollmentStarted => exact h rfl
  | enrolled => exact h rfl
  | _ => cases hcandidate

theorem lawful_new (id : Text) (now : ℤ) (request : ProvisionRequest) :
    Lawful (.new id now request) :=
  ⟨trivial, fun h ↦ by cases h⟩

variable {history : History}

theorem Lawful.offer (h : Lawful history) (event : ProvisioningEvent × ℤ) :
    Lawful (history.offer event) := by
  rcases history.offer_cases event with hsame | ⟨updated, htransition, hupdated, hoffer⟩
  · rw [hsame]
    exact h
  · rw [hoffer]
    refine ⟨h.traced.transition htransition, fun hcandidate ↦ ?_⟩
    have hreferences : (history.job.record event.2 event.1).candidateReference.isSome = true ∧
        (history.job.record event.2 event.1).credentialReference.isSome = true :=
      references_of_record htransition hcandidate h.candidate
    show updated.candidateReference.isSome = true ∧ updated.credentialReference.isSome = true
    rw [hupdated]
    exact hreferences

theorem lawful_history (h : Lawful history) (events : List (ProvisioningEvent × ℤ)) :
    Lawful (events.foldl History.offer history) := by
  induction events generalizing history with
  | nil => exact h
  | cons event rest ih => exact ih (h.offer event)

theorem offer_of_isTerminal (h : history.job.status.isTerminal = true)
    (event : ProvisioningEvent × ℤ) : history.offer event = history := by
  rcases history.offer_cases event with hsame | ⟨updated, htransition, -⟩
  · exact hsame
  · rw [htransition.isTerminal] at h
    cases h

theorem history_of_isTerminal (h : history.job.status.isTerminal = true)
    (events : List (ProvisioningEvent × ℤ)) : events.foldl History.offer history = history := by
  induction events with
  | nil => rfl
  | cons event rest ih => rw [foldl_cons, offer_of_isTerminal h, ih]

theorem candidate_of_references {job : ProvisioningJob}
    (h : job.candidateReference.isSome = true ∧ job.credentialReference.isSome = true) :
    ∃ candidate, job.candidate = .ok candidate := by
  obtain ⟨account, haccount⟩ := Option.isSome_iff_exists.mp h.1
  obtain ⟨credential, hcredential⟩ := Option.isSome_iff_exists.mp h.2
  refine ⟨⟨job.providerType, account, credential, job.requestedCapacityBytes, []⟩, ?_⟩
  rw [candidate, haccount, hcredential]
  rfl

end GameLauncher.Provisioning
