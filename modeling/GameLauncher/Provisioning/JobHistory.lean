import GameLauncher.Foundation.Run
import GameLauncher.Provisioning.Coherence

/-!
# Histories of a provisioning job

What it is that the answers of the provisioner reach the job. `Sound` is the property of a history
of calls: no call leaves the job where neither a retry nor an operator can move it on, and a start
that is answered leaves the job in the status of the answer. `Handled` is the condition on a call
and the store before it.
-/

set_option autoImplicit false

namespace GameLauncher.Provisioning

open Foundation Fallible EventKey
open Process ProvisioningManager

/-! ### The property -/

section Property

variable (manager : ProvisioningManager)

/-- The job is in a status that waits for a retry or an operator, and neither changes anything. -/
def Stuck (store : JobStore) : Prop :=
  ∃ job, store.job = some job ∧
    (job.status = .starting ∨ job.status = .needsOperator ∨ job.status = .emailReceived) ∧
    (∀ answers, (manager.retryJob answers store).final = store) ∧
    ∀ answers candidate, (manager.completeManual answers candidate store).final = store

/-- The answer of the provisioner to the start of a job, when there is a provisioner. -/
def latestResult (answers : Answers) (request : ProvisionRequest) :
    Option (Except ProvisioningError ProvisionerResult) :=
  (manager.registry request.providerType).map fun _ ↦ answers.start request

/-- The status for an answer of the provisioner. A candidate goes on to its validation. -/
def Corresponds : Option (Except ProvisioningError ProvisionerResult) → ProvisioningStatus → Prop
  | none, status => status = .failedPermanent
  | some (.error _), status => status = .failedRetryable
  | some (.ok .waitingForEmail), status => status = .waitingForEmail
  | some (.ok .waitingForProvider), status => status = .waitingForProvider
  | some (.ok (.candidateReady _)), status =>
    status ∈ [.candidateReady, .validating, .enrolling, .enrolled, .failedRetryable]
  | some (.ok (.needsOperator _)), status => status = .needsOperator
  | some (.ok (.retryableFailure ..)), status => status = .failedRetryable
  | some (.ok (.permanentFailure ..)), status => status = .failedPermanent

def Request.starts : Request → Bool
  | .ensureCapacity _ | .retryJob => true
  | _ => false

def IsStarting (store : JobStore) : Prop := ∃ job, store.job = some job ∧ job.status = .starting

/-- A start that returns after it has moved the job to `Starting` leaves it in the status of the
provisioner's answer. -/
def ResultKept (store : JobStore) (call : Call) : Prop :=
  call.request.starts = true → ¬ IsStarting store →
    (∃ reached ∈ (manager.perform call store).visited, IsStarting reached) →
    ∀ answer, (manager.perform call store).result = .ok answer →
      ∃ job, (manager.perform call store).final.job = some job ∧ job.status ≠ .starting ∧
        Corresponds (latestResult manager call.answers job.request) job.status

def next (store : JobStore) (call : Call) : JobStore := (manager.perform call store).final

/-- No answer is lost in a history of calls. -/
def Sound : JobStore → List Call → Prop
  | store, [] => ¬ Stuck manager store
  | store, call :: rest =>
    ¬ Stuck manager store ∧ ResultKept manager store call ∧ Sound (next manager store call) rest

/-! ### The condition -/

/-- The answer to a start can be recorded, with these keys in the store. -/
def StartHandled (answers : Answers) (keys : List Text) (request : ProvisionRequest) : Prop :=
  match manager.registry request.providerType, answers.start request with
  | none, _ | some _, .error _ | some _, .ok (.permanentFailure ..) => True
  | some _, .ok .waitingForEmail => ∃ domain, aliasDomain manager.emailDomain = .ok domain
  | some _, .ok .waitingForProvider | some _, .ok (.candidateReady _) => False
  | some _, .ok (.needsOperator _) => (EventKey.plain .needsOperator).text ∉ keys
  | some _, .ok (.retryableFailure ..) => (EventKey.plain .provisionerFailedRetryable).text ∉ keys

/-- The answer to the mail of a job can be recorded, with these keys in the store. -/
def MailHandled (answers : Answers) (keys : List Text) (job : ProvisioningJob) : Prop :=
  match manager.registry job.providerType, answers.continueJob job with
  | none, _ | some _, .ok .waitingForProvider | some _, .ok (.candidateReady _)
  | some _, .ok (.permanentFailure ..) => True
  | some _, .error _ => (EventKey.plain .provisionerEmailFailed).text ∉ keys
  | some _, .ok .waitingForEmail => False
  | some _, .ok (.needsOperator _) => (EventKey.plain .needsOperator).text ∉ keys
  | some _, .ok (.retryableFailure ..) => (EventKey.plain .provisionerFailedRetryable).text ∉ keys

/-- The job that a mail has reached. -/
def received (answers : Answers) (job : ProvisioningJob) : ProvisioningJob :=
  { job with status := .emailReceived, updatedAt := answers.now }

/-- The condition on a call: when it starts the job, or brings a mail that the job waits for, the
answer can be recorded. -/
def Handled (store : JobStore) (call : Call) : Prop :=
  match call.request with
  | .ensureCapacity request =>
    store.job = none → manager.kind.checkRequest call.answers.now request = .ok () →
      StartHandled manager call.answers [] request
  | .retryJob =>
    ∀ job, store.job = some job → job.status = .failedRetryable →
      job.attemptCount < manager.kind.maxAttempts →
      StartHandled manager call.answers store.keys job.request
  | .handleEmail record =>
    ∀ job, store.job = some job → job.status = .waitingForEmail →
      manager.kind.checkMail record = .ok () → record.messageId ∉ store.messages →
      manager.kind.checkText (EventKey.ofMail record.messageId).text "event idempotency key" =
        .ok () →
      MailHandled manager call.answers store.keys (received call.answers job)
  | _ => True

end Property

/-! ### One event -/

section Events

variable {kind : StoreKind} {store : JobStore} {job : ProvisioningJob} {label : EventLabel}
  {key : EventKey} {event : ProvisioningEvent} {after : ProvisioningStatus} {now : ℤ}

theorem request_of_apply {updated : ProvisioningJob} {transition : ProvisioningTransition}
    (happly : job.applyEventAt event now = .ok (updated, transition)) :
    updated.request = job.request := by
  rw [(applyEventAt_eq_ok happly).2]
  cases event <;> rfl

theorem maxAttempts_lt (kind : StoreKind) : kind.maxAttempts < 10 ^ 10 := by
  cases kind <;> decide

theorem checkText_numbered {number : ℕ} (h : number ≤ kind.maxAttempts) (field : String) :
    kind.checkText (EventKey.numbered label number).text field = .ok () := by
  have hnumber := h.trans_lt (maxAttempts_lt kind)
  cases kind with
  | inMemory => rfl
  | database => exact validateKey_numbered hnumber field

theorem checkText_plain (field : String) :
    kind.checkText (EventKey.plain label).text field = .ok () := by
  cases kind with
  | inMemory => rfl
  | database => exact validateKey_plain field

/-- An event under a new key that is a transition, and leaves the statuses that a job only passes,
makes the job calm. -/
theorem settle (h : Coherent kind store job)
    (hvalid : kind.checkText key.text "event idempotency key" = .ok ())
    (hkey : key.text ∉ store.keys) (htransition : Transition event job.status after)
    (hpassing : event.isPassing = false) (hwait : after ≠ .waitingForEmail)
    (hfits : ∀ messages, Fits messages job.attemptCount key event) :
    ∃ updated, (kind.applyEvent key event now store).result = .ok updated ∧
      updated.status = after ∧ updated.request = job.request ∧
      CalmWith kind job.attemptCount updated (kind.applyEvent key event now store).final := by
  have hstart := isStart_of_not_isPassing hpassing
  obtain ⟨updated, transition, happly, hstatus, hresult, hfinal⟩ :=
    applyEvent_of_transition hvalid h.held hkey htransition fun updated transition happly ↦
      (attemptCount_of_apply happly hstart).le.trans h.attempts
  refine ⟨updated, hresult, hstatus, request_of_apply happly, ⟨?_, ?_, ?_⟩,
    (attemptCount_of_apply happly hstart).ge⟩
  · rw [hfinal]
    exact h.push_of_not_isStart hkey happly hstart (hfits store.messages)
  · rw [hstatus]
    exact htransition.rests hpassing
  · intro hwaiting
    exact absurd (hstatus.symm.trans hwaiting) hwait

theorem stay (hvalid : kind.checkText key.text "event idempotency key" = .ok ())
    (hjob : store.job = some job)
    (h : key.text ∈ store.keys ∨ ∀ after, ¬ Transition event job.status after) :
    (kind.applyEvent key event now store).final = store := by
  by_cases hkey : key.text ∈ store.keys
  · exact (applyEvent_of_mem hvalid hjob hkey).2
  · have hnone : event.target job.status = none := by
      cases htarget : event.target job.status with
      | none => rfl
      | some after => exact absurd (target_eq_some.mp htarget) (h.resolve_left hkey after)
    exact (applyEvent_of_target_eq_none hvalid hjob hkey hnone).2

end Events

/-! ### The start of an attempt -/

variable {process : JobProcess ProvisioningJob}

/-- A job whose attempt has just begun. -/
structure Entered (kind : StoreKind) (store : JobStore) (job : ProvisioningJob) : Prop where
  coherent : Coherent kind store job
  starting : job.status = .starting
  fresh : ∀ label, label ≠ .operatorRetry → label ≠ .mailReceived →
    (EventKey.numbered label job.attemptCount).text ∉ store.keys

section Start

variable {manager : ProvisioningManager} {answers : Answers} {store : JobStore}
  {job : ProvisioningJob}

/-- How the start of a job ends that has an answer which can be recorded: the job is calm, and has
the status of the answer. -/
def StartsWell (manager : ProvisioningManager) (job : ProvisioningJob)
    (latest : Option (Except ProvisioningError ProvisionerResult)) (final : JobStore) : Prop :=
  ∃ last, Calm manager.kind final last ∧ last.request = job.request ∧ Corresponds latest last.status

theorem StartsWell.of_settle {latest : Option (Except ProvisioningError ProvisionerResult)}
    {after : ProvisioningStatus}
    (h : ∃ updated, (process store).result = .ok updated ∧ updated.status = after ∧
      updated.request = job.request ∧
      CalmWith manager.kind job.attemptCount updated (process store).final)
    (hlatest : Corresponds latest after) : StartsWell manager job latest (process store).final := by
  obtain ⟨updated, -, hstatus, hrequest, hcalm, -⟩ := h
  exact ⟨updated, hcalm, hrequest, hstatus ▸ hlatest⟩

theorem awaiting {kind : StoreKind} {now : ℤ} (h : Coherent kind store job)
    (hstatus : job.status = .registrationStarted)
    (hkey : (EventKey.numbered .waitingForEmail job.attemptCount).text ∉ store.keys)
    (hfresh : ∀ label, label = .providerReady ∨ label = .candidateReady →
      (EventKey.numbered label job.attemptCount).text ∉ store.keys) :
    ∃ updated, (kind.applyEvent (.numbered .waitingForEmail job.attemptCount) .awaitingEmail now
        store).result = .ok updated ∧
      updated.status = .waitingForEmail ∧ updated.request = job.request ∧
      CalmWith kind job.attemptCount updated
        (kind.applyEvent (.numbered .waitingForEmail job.attemptCount) .awaitingEmail now
          store).final := by
  obtain ⟨updated, transition, happly, hafter, hresult, hfinal⟩ :=
    applyEvent_of_transition (checkText_numbered h.attempts _) h.held hkey
      (.awaitingEmail (.inr hstatus)) fun updated transition happly ↦
        (attemptCount_of_apply happly rfl).le.trans h.attempts
  have hattempt := attemptCount_of_apply happly rfl
  refine ⟨updated, hresult, hafter, request_of_apply happly, ⟨?_, ?_, ?_⟩, hattempt.ge⟩
  · rw [hfinal]
    exact h.push_of_not_isStart hkey happly rfl (fits_numbered (by decide) rfl _)
  · rw [hafter]
    rfl
  · intro _ label hlabel hmem
    rw [hfinal, hattempt] at hmem
    rcases mem_keys_push.mp hmem with hold | hnew
    · exact hfresh label hlabel hold
    · have hsame := (numbered_eq_numbered.mp (text_injective hnew)).1
      rw [hsame] at hlabel
      rcases hlabel with hlabel | hlabel <;> cases hlabel

theorem awaitEmail_entered (h : Entered manager.kind store job) {domain : Text}
    (hdomain : aliasDomain manager.emailDomain = .ok domain) :
    ∃ updated, (manager.awaitEmail answers job store).result = .ok updated ∧
      updated.status = .waitingForEmail ∧ updated.request = job.request ∧
      CalmWith manager.kind job.attemptCount updated
        (manager.awaitEmail answers job store).final := by
  have hcheck : ((ProvisioningManager.check (aliasDomain manager.emailDomain) : JobProcess Text)
      store).result = .ok domain := hdomain
  have hregistration : Transition (.registrationStarted (answers.localPart ++ '@' :: domain)
      (answers.now + manager.aliasTtl) (manager.hashToken answers.localPart)) job.status
      .registrationStarted := h.starting ▸ .registrationStarted
  have hkey := h.fresh .registrationStarted (by decide) (by decide)
  obtain ⟨registered, transition, happly, hstatus, hresult, hfinal⟩ :=
    applyEvent_of_transition (checkText_numbered h.coherent.attempts _) h.coherent.held hkey
      hregistration fun updated transition happly ↦
        (attemptCount_of_apply happly rfl).le.trans h.coherent.attempts
  have hattempt := attemptCount_of_apply happly rfl
  have hcoherent : Coherent manager.kind _ registered :=
    h.coherent.push_of_not_isStart hkey happly rfl (fits_numbered (by decide) rfl _)
  have hfresh : ∀ label, label ≠ .operatorRetry → label ≠ .mailReceived →
      label ≠ .registrationStarted → (EventKey.numbered label registered.attemptCount).text ∉
        (StoreKind.push store (.numbered .registrationStarted job.attemptCount) registered
          transition).keys := by
    intro label hretry hmail hother hmem
    rw [hattempt] at hmem
    rcases mem_keys_push.mp hmem with hold | hnew
    · exact h.fresh label hretry hmail hold
    · exact hother (numbered_eq_numbered.mp (text_injective hnew)).1
  have hready : ∀ label, label = .providerReady ∨ label = .candidateReady →
      (EventKey.numbered label registered.attemptCount).text ∉
        (StoreKind.push store (.numbered .registrationStarted job.attemptCount) registered
          transition).keys := by
    rintro _ (rfl | rfl)
    · exact hfresh _ (by decide) (by decide) (by decide)
    · exact hfresh _ (by decide) (by decide) (by decide)
  obtain ⟨waiting, hresultSecond, hwaiting, hrequest, hcalm, hle⟩ :=
    awaiting hcoherent hstatus (hfresh _ (by decide) (by decide) (by decide)) hready
  rw [← hfinal] at hresultSecond hcalm
  refine ⟨waiting, ?_, hwaiting, hrequest.trans (request_of_apply happly), ?_, hattempt ▸ hle⟩
  · exact (result_bind_of_ok hcheck).trans ((result_bind_of_ok hresult).trans hresultSecond)
  · have hregistered : (manager.applyEvent answers
        (.numbered .registrationStarted job.attemptCount) _ store).result = .ok registered :=
      hresult
    unfold awaitEmail
    rw [final_bind_of_ok hcheck]
    change Calm _ ((manager.applyEvent answers _ _ >>= _) store).final _
    rw [final_bind_of_ok hregistered]
    exact hcalm

theorem startsWell (h : Entered manager.kind store job)
    (hhandled : StartHandled manager answers store.keys job.request) :
    StartsWell manager job (latestResult manager answers job.request)
      (manager.startJob answers job store).final := by
  have hactive : job.status.isTerminal = false := by rw [h.starting]; rfl
  have hvalid : ∀ label, manager.kind.checkText
      (EventKey.numbered label job.attemptCount).text "event idempotency key" = .ok () :=
    fun label ↦ checkText_numbered h.coherent.attempts _
  unfold StartHandled at hhandled
  unfold startJob latestResult
  have hprovider : job.request.providerType = job.providerType := rfl
  rw [hprovider] at hhandled ⊢
  cases hbinding : manager.registry job.providerType with
  | none =>
    exact .of_settle (settle h.coherent (checkText_plain _) (h.coherent.finished hactive _ rfl)
      (.permanentFailure hactive) rfl (by decide) (fits_permanentFailure (by decide) (by decide)))
      rfl
  | some binding =>
    rw [hbinding] at hhandled
    cases hanswer : answers.start job.request with
    | error failure =>
      exact .of_settle (settle h.coherent (hvalid _) (h.fresh _ (by decide) (by decide))
        (.retryableFailure hactive) rfl (by decide) (fits_numbered (by decide) rfl)) rfl
    | ok result =>
      rw [hanswer] at hhandled
      cases result with
      | waitingForEmail =>
        obtain ⟨domain, hdomain⟩ := hhandled
        exact .of_settle (awaitEmail_entered h hdomain) rfl
      | waitingForProvider => exact hhandled.elim
      | candidateReady candidate => exact hhandled.elim
      | needsOperator action =>
        exact .of_settle (settle h.coherent (checkText_plain _) hhandled (.needsOperator hactive)
          rfl (by decide) fits_needsOperator) rfl
      | retryableFailure code summary retryAfter =>
        exact .of_settle (settle h.coherent (checkText_plain _) hhandled
          (.retryableFailure hactive) rfl (by decide)
          (fits_retryableFailure (by decide) (by decide) rfl)) rfl
      | permanentFailure code summary =>
        exact .of_settle (settle h.coherent (checkText_plain _)
          (h.coherent.finished hactive _ rfl) (.permanentFailure hactive) rfl (by decide)
          (fits_permanentFailure (by decide) (by decide))) rfl

theorem isStarting_of_not_startHandled (h : Entered manager.kind store job)
    (hhandled : ¬ StartHandled manager answers store.keys job.request) :
    (manager.startJob answers job store).final = store := by
  have hvalid : ∀ label, manager.kind.checkText
      (EventKey.numbered label job.attemptCount).text "event idempotency key" = .ok () :=
    fun label ↦ checkText_numbered h.coherent.attempts _
  unfold StartHandled at hhandled
  unfold startJob
  have hprovider : job.request.providerType = job.providerType := rfl
  rw [hprovider] at hhandled
  cases hbinding : manager.registry job.providerType with
  | none =>
    rw [hbinding] at hhandled
    exact absurd trivial hhandled
  | some binding =>
    rw [hbinding] at hhandled
    cases hanswer : answers.start job.request with
    | error failure =>
      rw [hanswer] at hhandled
      exact absurd trivial hhandled
    | ok result =>
      rw [hanswer] at hhandled
      cases result with
      | waitingForEmail =>
        have hdomain : ∃ failure, ((ProvisioningManager.check (aliasDomain manager.emailDomain) :
            JobProcess Text) store).result = .error failure := by
          cases hdomain : aliasDomain manager.emailDomain with
          | ok domain => exact absurd ⟨domain, hdomain⟩ hhandled
          | error failure => exact ⟨failure, rfl⟩
        obtain ⟨failure, hfailure⟩ := hdomain
        exact final_bind_of_error hfailure
      | waitingForProvider =>
        refine stay (hvalid _) h.coherent.held (.inr fun after htransition ↦ ?_)
        rw [h.starting] at htransition
        cases htransition with
        | providerReady h => rcases h with h | h <;> cases h
      | candidateReady candidate =>
        have htarget : (ProvisioningEvent.candidateReady candidate).target job.status = none := by
          rw [h.starting]
          rfl
        obtain ⟨hfailure, hfinal⟩ := applyEvent_of_target_eq_none (hvalid _) h.coherent.held
          (h.fresh .candidateReady (by decide) (by decide)) htarget
        obtain ⟨failure, hfailure⟩ := hfailure
        exact (final_bind_of_error hfailure).trans hfinal
      | needsOperator _ | retryableFailure _ _ _ =>
        exact stay (checkText_plain _) h.coherent.held (.inl (not_not.mp hhandled))
      | permanentFailure code summary => exact absurd trivial hhandled

end Start

/-! ### The mail of a job -/

/-- A job that a mail has just reached. -/
structure Reached (kind : StoreKind) (store : JobStore) (job : ProvisioningJob) : Prop where
  coherent : Coherent kind store job
  received : job.status = .emailReceived
  fresh : ∀ label, label = .providerReady ∨ label = .candidateReady →
    (EventKey.numbered label job.attemptCount).text ∉ store.keys

section Mail

variable {manager : ProvisioningManager} {answers : Answers} {store : JobStore}
  {job : ProvisioningJob} {attempt : ℕ}

theorem KeepsCalm.final {kind : StoreKind} (h : KeepsCalm kind attempt process)
    (hcalm : CalmAt kind attempt store) : CalmAt kind attempt (process store).final := by
  obtain ⟨-, hok, herror⟩ := h store hcalm
  cases hresult : (process store).result with
  | ok answer => exact (hok answer hresult).calmAt
  | error failure => exact herror failure hresult

theorem CalmAt.exists {kind : StoreKind} (h : CalmAt kind attempt store) :
    ∃ job, Calm kind store job := h.imp fun _ ↦ And.left

theorem exists_calm_of_settle {after : ProvisioningStatus}
    (h : ∃ updated, (process store).result = .ok updated ∧ updated.status = after ∧
      updated.request = job.request ∧
      CalmWith manager.kind job.attemptCount updated (process store).final) :
    ∃ last, Calm manager.kind (process store).final last := by
  obtain ⟨updated, -, -, -, hcalm, -⟩ := h
  exact ⟨updated, hcalm⟩

theorem calm_of_mailHandled (h : Reached manager.kind store job)
    (hhandled : MailHandled manager answers store.keys job) :
    ∃ last, Calm manager.kind (manager.continueAfterMail answers job store).final last := by
  have hactive : job.status.isTerminal = false := by rw [h.received]; rfl
  have hvalid : ∀ label, manager.kind.checkText
      (EventKey.numbered label job.attemptCount).text "event idempotency key" = .ok () :=
    fun label ↦ checkText_numbered h.coherent.attempts _
  unfold MailHandled at hhandled
  unfold continueAfterMail
  cases hbinding : manager.registry job.providerType with
  | none =>
    exact exists_calm_of_settle (settle h.coherent (checkText_plain _)
      (h.coherent.finished hactive _ rfl) (.permanentFailure hactive) rfl (by decide)
      (fits_permanentFailure (by decide) (by decide)))
  | some binding =>
    rw [hbinding] at hhandled
    cases hanswer : answers.continueJob job with
    | error failure =>
      rw [hanswer] at hhandled
      exact exists_calm_of_settle (settle h.coherent (checkText_plain _) hhandled
        (.retryableFailure hactive) rfl (by decide)
        (fits_retryableFailure (by decide) (by decide) rfl))
    | ok result =>
      rw [hanswer] at hhandled
      cases result with
      | waitingForEmail => exact hhandled.elim
      | waitingForProvider =>
        exact exists_calm_of_settle (settle h.coherent (hvalid _) (h.fresh _ (.inl rfl))
          (.providerReady (.inl h.received)) rfl (by decide) (fits_numbered (by decide) rfl))
      | candidateReady candidate =>
        obtain ⟨ready, hresult, -, -, hcalm⟩ := settle h.coherent (hvalid _)
          (h.fresh _ (.inr rfl)) (.candidateReady (.inl h.received)) rfl (by decide)
          (fits_numbered (by decide) rfl)
        have hready : (manager.applyEvent answers (.numbered .candidateReady job.attemptCount)
          (.candidateReady candidate) store).result = .ok ready := hresult
        have hfinal : (manager.applyResult answers job (.candidateReady candidate) store).final =
            _ := final_bind_of_ok hready
        rw [hfinal]
        have hkeeps : KeepsCalm manager.kind _ (manager.validateAndEnroll answers ready) :=
          keepsCalm_validateAndEnroll
        exact (hkeeps.final ⟨ready, hcalm.1, le_refl _⟩).exists
      | needsOperator action =>
        exact exists_calm_of_settle (settle h.coherent (checkText_plain _) hhandled
          (.needsOperator hactive) rfl (by decide) fits_needsOperator)
      | retryableFailure code summary retryAfter =>
        exact exists_calm_of_settle (settle h.coherent (checkText_plain _) hhandled
          (.retryableFailure hactive) rfl (by decide)
          (fits_retryableFailure (by decide) (by decide) rfl))
      | permanentFailure code summary =>
        exact exists_calm_of_settle (settle h.coherent (checkText_plain _)
          (h.coherent.finished hactive _ rfl) (.permanentFailure hactive) rfl (by decide)
          (fits_permanentFailure (by decide) (by decide)))

theorem final_of_not_mailHandled (h : Reached manager.kind store job)
    (hhandled : ¬ MailHandled manager answers store.keys job) :
    (manager.continueAfterMail answers job store).final = store := by
  unfold MailHandled at hhandled
  unfold continueAfterMail
  cases hbinding : manager.registry job.providerType with
  | none =>
    rw [hbinding] at hhandled
    exact absurd trivial hhandled
  | some binding =>
    rw [hbinding] at hhandled
    cases hanswer : answers.continueJob job with
    | error failure =>
      rw [hanswer] at hhandled
      exact stay (checkText_plain _) h.coherent.held (.inl (not_not.mp hhandled))
    | ok result =>
      rw [hanswer] at hhandled
      cases result with
      | waitingForEmail => rfl
      | waitingForProvider => exact absurd trivial hhandled
      | candidateReady candidate => exact absurd trivial hhandled
      | needsOperator _ | retryableFailure _ _ _ =>
        exact stay (checkText_plain _) h.coherent.held (.inl (not_not.mp hhandled))
      | permanentFailure code summary => exact absurd trivial hhandled

end Mail

/-! ### Stuck jobs -/

/-- No job yet, or a calm one. -/
def Idle (kind : StoreKind) (store : JobStore) : Prop :=
  (store.job = none ∧ store.events = []) ∨ ∃ job, Calm kind store job

/-- The store holds a job in a status that neither a retry nor an operator leaves. -/
def IsLost (store : JobStore) : Prop :=
  ∃ job, store.job = some job ∧ (job.status = .starting ∨ job.status = .emailReceived)

section Stuck

variable {manager : ProvisioningManager} {answers : Answers} {store : JobStore}
  {job : ProvisioningJob}

theorem getJob_of_some (hjob : store.job = some job) :
    (StoreKind.getJob store).result = .ok job := by
  change orThrow store.job ProvisioningError.notFound = .ok job
  rw [hjob]
  rfl

theorem final_check_of_error {α : Type} {failure : ProvisioningError}
    {outcome : Except ProvisioningError Unit} {rest : Unit → JobProcess α}
    (h : outcome = .error failure) :
    ((ProvisioningManager.check outcome >>= rest) store).final = store ∧
      ((ProvisioningManager.check outcome >>= rest) store).result = .error failure ∧
      ((ProvisioningManager.check outcome >>= rest) store).visited = [] := by
  subst h
  exact ⟨rfl, rfl, rfl⟩

theorem retryJob_of_status (hjob : store.job = some job) (hstatus : job.status ≠ .failedRetryable) :
    (manager.retryJob answers store).final = store ∧
      (∃ failure, (manager.retryJob answers store).result = .error failure) := by
  have hcheck : throwIf (job.status ≠ .failedRetryable) (ProvisioningError.conflict
      "only retryable provisioning jobs can be retried") = .error _ := if_pos hstatus
  have hget := getJob_of_some hjob
  unfold retryJob
  rw [final_bind_of_ok hget, result_bind_of_ok hget]
  exact ⟨(final_check_of_error hcheck).1, _, (final_check_of_error hcheck).2.1⟩

theorem completeManual_of_status {candidate : CapacityCandidate} (hjob : store.job = some job)
    (hstatus : job.status ≠ .needsOperator) :
    (manager.completeManual answers candidate store).final = store := by
  have hcheck : throwIf (job.status ≠ .needsOperator) (ProvisioningError.conflict
      "only jobs waiting for an operator can be completed manually") = .error _ :=
    if_pos hstatus
  have hget := getJob_of_some hjob
  unfold completeManual
  rw [final_bind_of_ok hget]
  exact (final_check_of_error hcheck).1

theorem stuck_of_isLost (h : IsLost store) : Stuck manager store := by
  obtain ⟨job, hjob, hstatus⟩ := h
  refine ⟨job, hjob, hstatus.imp_right .inr, fun answers ↦ ?_, fun answers candidate ↦ ?_⟩
  · refine (retryJob_of_status hjob ?_).1
    rcases hstatus with h | h <;> rw [h] <;> exact nofun
  · refine completeManual_of_status hjob ?_
    rcases hstatus with h | h <;> rw [h] <;> exact nofun

theorem keeps_mem_keys {kind : StoreKind} {key : EventKey} {event : ProvisioningEvent} {now : ℤ}
    {text : Text} :
    Keeps (fun store ↦ text ∈ store.keys) (fun _ ↦ True) (kind.applyEvent key event now)
      fun _ ↦ True := by
  refine keeps_step (fun store hmem ↦ ?_) (fun _ _ _ _ ↦ trivial) fun _ _ _ _ ↦ trivial
  split
  · exact hmem
  · exact hmem
  · split_ifs
    · exact hmem
    · split
      · exact hmem
      · split_ifs
        · exact hmem
        · exact mem_keys_push.mpr (.inl hmem)

theorem keeps_mem_keys_validateAndEnroll {text : Text} :
    Keeps (fun store ↦ text ∈ store.keys) (fun _ ↦ True) (manager.validateAndEnroll answers job)
      fun _ ↦ True := by
  have hevent : ∀ key event, Keeps (fun store ↦ text ∈ store.keys) (fun _ ↦ True)
      (manager.applyEvent answers key event) fun _ ↦ True := fun _ _ ↦ keeps_mem_keys
  have hcheck : ∀ {α : Type} (outcome : Except ProvisioningError α),
      Keeps (fun store : JobStore ↦ text ∈ store.keys) (fun _ ↦ True)
        (ProvisioningManager.check outcome) fun _ ↦ True :=
    fun _ ↦ keeps_query (fun _ _ _ _ ↦ trivial) fun _ _ _ _ ↦ trivial
  refine keeps_bind _ (hcheck _) fun _ _ ↦ keeps_bind _ (hevent _ _) fun started _ ↦ ?_
  refine keeps_bind _ (hcheck _) fun candidate _ ↦ ?_
  cases answers.validate candidate started.requestedCapacityBytes with
  | error failure => exact hevent _ _
  | ok validated =>
    refine keeps_bind _ (hevent _ _) fun _ _ ↦ keeps_bind _ (hevent _ _) fun enrolling _ ↦ ?_
    cases answers.enroll enrolling.poolId validated with
    | error failure => exact hevent _ _
    | ok value => exact hevent _ _

theorem completeManual_ne {candidate : CapacityCandidate} (h : Calm manager.kind store job)
    (hstatus : job.status = .needsOperator) :
    (manager.completeManual answers candidate store).final ≠ store := by
  have hget := getJob_of_some h.coherent.held
  have hunused : (EventKey.plain .operatorComplete).text ∉ store.keys := fun hmem ↦
    (h.coherent.operator hmem).2 hstatus
  obtain ⟨completed, transition, happly, -, hresult, hfinal⟩ :=
    applyEvent_of_transition (checkText_plain _) h.coherent.held hunused
      (hstatus ▸ Transition.operatorCompleted) fun updated transition happly ↦
        (attemptCount_of_apply happly rfl).le.trans h.coherent.attempts
  have hcompleted : (manager.applyEvent answers (.plain .operatorComplete)
      (.operatorCompleted candidate) store).result = .ok completed := hresult
  have hused : (EventKey.plain .operatorComplete).text ∈
      (manager.applyEvent answers (.plain .operatorComplete) (.operatorCompleted candidate)
        store).final.keys := by
    have hpush : (manager.applyEvent answers (.plain .operatorComplete)
      (.operatorCompleted candidate) store).final = _ := hfinal
    rw [hpush]
    exact mem_keys_push.mpr (.inr rfl)
  have hcheck : (ProvisioningManager.check (throwIf (job.status ≠ .needsOperator)
      (ProvisioningError.conflict
        "only jobs waiting for an operator can be completed manually")) store).result =
      .ok () := if_neg (not_not.mpr hstatus)
  have hrest : (manager.completeManual answers candidate store).final =
      (manager.validateAndEnroll answers completed (manager.applyEvent answers
        (.plain .operatorComplete) (.operatorCompleted candidate) store).final).final :=
    (final_bind_of_ok hget).trans ((final_bind_of_ok hcheck).trans (final_bind_of_ok hcompleted))
  intro hsame
  refine hunused ?_
  rw [← hsame, hrest]
  have hkeeps : Keeps (fun store ↦ (EventKey.plain .operatorComplete).text ∈ store.keys)
      (fun _ ↦ True) (manager.validateAndEnroll answers completed) fun _ ↦ True :=
    keeps_mem_keys_validateAndEnroll
  obtain ⟨-, hok, herror⟩ := hkeeps _ hused
  cases hend : (manager.validateAndEnroll answers completed (manager.applyEvent answers
      (.plain .operatorComplete) (.operatorCompleted candidate) store).final).result with
  | ok answer => exact (hok answer hend).2
  | error failure => exact (herror failure hend).2

def noAnswers : Answers where
  start := fun _ ↦ .error .notFound
  continueJob := fun _ ↦ .error .notFound
  validate := fun _ _ ↦ .error .notFound
  enroll := fun _ _ ↦ .error .notFound
  now := 0
  id := []
  localPart := []

theorem not_stuck_of_idle (h : Idle manager.kind store) : ¬ Stuck manager store := by
  rintro ⟨job, hjob, hstatus, -, hcomplete⟩
  rcases h with ⟨hnone, -⟩ | ⟨other, hcalm⟩
  · rw [hnone] at hjob
    cases hjob
  · rw [hcalm.coherent.held, Option.some.injEq] at hjob
    subst hjob
    rcases hstatus with h | h | h
    · have hrests := hcalm.rests
      rw [h] at hrests
      cases hrests
    · exact completeManual_ne hcalm h (hcomplete noAnswers ⟨[], [], [], 0, []⟩)
    · have hrests := hcalm.rests
      rw [h] at hrests
      cases hrests

end Stuck

end GameLauncher.Provisioning
