import GameLauncher.Provisioning.Manager

/-!
# What the stores keep of a job

`Coherent` is the invariant of a store between two events: which keys it can hold in the present
attempt and status of the job. `Calm` is the invariant between two calls; the parts of a call that
apply no passing event keep it.
-/

set_option autoImplicit false

namespace GameLauncher.Provisioning

open Foundation Fallible EventKey
open Process

/-! ### The invariant -/

variable {status after : ProvisioningStatus}

/-- The labels of the keys under which a job ends for good. -/
def EventLabel.isFinal : EventLabel → Bool
  | .missingProvisioner | .missingEmailProvisioner | .provisionerFailedPermanent | .operatorCancel
  | .provisioningExpiry => true
  | _ => false

/-- What the keys of a job tell about it. -/
structure Coherent (kind : StoreKind) (store : JobStore) (job : ProvisioningJob) : Prop where
  held : store.job = some job
  attempts : job.attemptCount ≤ kind.maxAttempts
  numbered : ∀ label attempt, label ≠ .mailReceived →
    (EventKey.numbered label attempt).text ∈ store.keys → attempt ≤ job.attemptCount
  /-- A later attempt was started under its key. -/
  retried : 2 ≤ job.attemptCount →
    (EventKey.numbered .operatorRetry job.attemptCount).text ∈ store.keys
  finished : job.status.isTerminal = false → ∀ label, label.isFinal = true →
    (EventKey.plain label).text ∉ store.keys
  /-- An operator who has completed the job was needed before, and is not needed any more. -/
  operator : (EventKey.plain .operatorComplete).text ∈ store.keys →
    (EventKey.plain .needsOperator).text ∈ store.keys ∧ job.status ≠ .needsOperator
  asked : job.status = .needsOperator → (EventKey.plain .needsOperator).text ∈ store.keys
  mails : ∀ messageId, (EventKey.ofMail messageId).text ∈ store.keys → messageId ∈ store.messages

/-- A key under which the manager applies an event in an attempt. -/
structure Fits (messages : List Text) (attempt : ℕ) (key : EventKey) (event : ProvisioningEvent) :
    Prop where
  number : ∀ label other, label ≠ .mailReceived → key = .numbered label other → other ≤ attempt
  final : ∀ label, label.isFinal = true → key = .plain label →
    ∀ status after, Transition event status after → after.isTerminal = true
  needsOperator : ∀ action summary, event = .needsOperator action summary →
    key = .plain .needsOperator
  operatorComplete : key = .plain .operatorComplete →
    ∃ candidate, event = .operatorCompleted candidate
  mail : ∀ messageId, key = .ofMail messageId → messageId ∈ messages

section Invariant

variable {kind : StoreKind} {store : JobStore} {job updated : ProvisioningJob} {key : EventKey}
  {event : ProvisioningEvent} {transition : ProvisioningTransition} {now : ℤ}

theorem Transition.needsOperator_iff (h : Transition event status .needsOperator) :
    ∃ action summary, event = .needsOperator action summary := by
  cases h
  exact ⟨_, _, rfl⟩

theorem Transition.operatorCompleted_iff {candidate : CapacityCandidate}
    (h : Transition (.operatorCompleted candidate) status after) :
    status = .needsOperator ∧ after = .candidateReady := by
  cases h
  exact ⟨rfl, rfl⟩

theorem mem_keys_push {text : Text} :
    text ∈ (StoreKind.push store key updated transition).keys ↔
      text ∈ store.keys ∨ text = key.text := by
  simp [StoreKind.push, JobStore.keys]

theorem Coherent.push (h : Coherent kind store job) (hkey : key.text ∉ store.keys)
    (happly : job.applyEventAt event now = .ok (updated, transition))
    (hfits : Fits store.messages updated.attemptCount key event)
    (hlimit : updated.attemptCount ≤ kind.maxAttempts)
    (hgrow : job.attemptCount ≤ updated.attemptCount)
    (hretried : 2 ≤ updated.attemptCount → job.attemptCount = updated.attemptCount ∨
      key = .numbered .operatorRetry updated.attemptCount) :
    Coherent kind (StoreKind.push store key updated transition) updated := by
  obtain ⟨htransition, -⟩ := applyEventAt_eq_ok happly
  constructor
  · rfl
  · exact hlimit
  · intro label attempt hlabel hmem
    rcases mem_keys_push.mp hmem with hold | hnew
    · exact (h.numbered label attempt hlabel hold).trans hgrow
    · exact hfits.number label attempt hlabel (text_injective hnew).symm
  · intro htwo
    rcases hretried htwo with hsame | hnew
    · exact mem_keys_push.mpr (.inl (hsame ▸ h.retried (hsame ▸ htwo)))
    · exact mem_keys_push.mpr (.inr (congrArg EventKey.text hnew.symm))
  · intro hactive label hfinal hmem
    rcases mem_keys_push.mp hmem with hold | hnew
    · exact h.finished htransition.isTerminal label hfinal hold
    · have hterminal := hfits.final label hfinal (text_injective hnew).symm _ _ htransition
      rw [hactive] at hterminal
      exact Bool.false_ne_true hterminal
  · intro hmem
    rcases mem_keys_push.mp hmem with hold | hnew
    · obtain ⟨hasked, -⟩ := h.operator hold
      refine ⟨mem_keys_push.mpr (.inl hasked), fun hstatus ↦ ?_⟩
      -- the key of the request for an operator is used up
      rw [hstatus] at htransition
      obtain ⟨action, summary, hevent⟩ := htransition.needsOperator_iff
      exact hkey (hfits.needsOperator action summary hevent ▸ hasked)
    · obtain ⟨candidate, hevent⟩ := hfits.operatorComplete (text_injective hnew).symm
      rw [hevent] at htransition
      obtain ⟨hbefore, hafter⟩ := htransition.operatorCompleted_iff
      refine ⟨mem_keys_push.mpr (.inl (h.asked hbefore)), ?_⟩
      rw [hafter]
      rintro ⟨⟩
  · intro hstatus
    rw [hstatus] at htransition
    obtain ⟨action, summary, hevent⟩ := htransition.needsOperator_iff
    exact mem_keys_push.mpr (.inr (congrArg EventKey.text
      (hfits.needsOperator action summary hevent).symm))
  · intro messageId hmem
    rcases mem_keys_push.mp hmem with hold | hnew
    · exact h.mails messageId hold
    · exact hfits.mail messageId (text_injective hnew).symm

theorem Coherent.of_messages (h : Coherent kind store job) {messages : List Text}
    (hsubset : store.messages ⊆ messages) : Coherent kind { store with messages } job where
  held := h.held
  attempts := h.attempts
  numbered := h.numbered
  retried := h.retried
  finished := h.finished
  operator := h.operator
  asked := h.asked
  mails := fun messageId hmem ↦ hsubset (h.mails messageId hmem)

/-! ### Events of an attempt -/

def ProvisioningEvent.isStart : ProvisioningEvent → Bool
  | .start | .retryTimer => true
  | _ => false

theorem attemptCount_of_apply (happly : job.applyEventAt event now = .ok (updated, transition))
    (hstart : event.isStart = false) : updated.attemptCount = job.attemptCount := by
  rw [(applyEventAt_eq_ok happly).2]
  cases event with
  | start => cases hstart
  | retryTimer => cases hstart
  | _ => rfl

theorem Coherent.push_of_not_isStart (h : Coherent kind store job) (hkey : key.text ∉ store.keys)
    (happly : job.applyEventAt event now = .ok (updated, transition))
    (hstart : event.isStart = false) (hfits : Fits store.messages job.attemptCount key event) :
    Coherent kind (StoreKind.push store key updated transition) updated := by
  have hattempt := attemptCount_of_apply happly hstart
  rw [← hattempt] at hfits
  exact h.push hkey happly hfits (hattempt ▸ h.attempts) hattempt.ge fun _ ↦ .inl hattempt.symm

theorem Fits.mono {messages : List Text} {attempt other : ℕ} (h : Fits messages attempt key event)
    (hle : attempt ≤ other) : Fits messages other key event where
  number := fun label number hlabel heq ↦ (h.number label number hlabel heq).trans hle
  final := h.final
  needsOperator := h.needsOperator
  operatorComplete := h.operatorComplete
  mail := h.mail

/-! ### The step of the store -/

section

variable (hvalid : kind.checkText key.text "event idempotency key" = .ok ())
  (hjob : store.job = some job)

include hvalid hjob

theorem applyEvent_of_mem (hkey : key.text ∈ store.keys) :
    (kind.applyEvent key event now store).result = .ok job ∧
      (kind.applyEvent key event now store).final = store := by
  simp only [StoreKind.applyEvent, Process.step, hvalid, hjob, hkey, if_true, and_self]

theorem applyEvent_of_target_eq_none (hkey : key.text ∉ store.keys)
    (htarget : event.target job.status = none) :
    (∃ failure, (kind.applyEvent key event now store).result = .error failure) ∧
      (kind.applyEvent key event now store).final = store := by
  have happly : job.applyEventAt event now =
      .error (.invalidTransition job.status.text event.kind) := by
    simp only [ProvisioningJob.applyEventAt, htarget]
  simp only [StoreKind.applyEvent, Process.step, hvalid, hjob, hkey, happly, if_false]
  exact ⟨⟨_, rfl⟩, trivial⟩

theorem applyEvent_of_transition (hkey : key.text ∉ store.keys)
    (htransition : Transition event job.status after)
    (hlimit : ∀ updated transition, job.applyEventAt event now = .ok (updated, transition) →
      updated.attemptCount ≤ kind.maxAttempts) :
    ∃ updated transition, job.applyEventAt event now = .ok (updated, transition) ∧
      updated.status = after ∧ (kind.applyEvent key event now store).result = .ok updated ∧
      (kind.applyEvent key event now store).final =
        StoreKind.push store key updated transition := by
  obtain ⟨updated, transition, happly, hstatus⟩ : ∃ updated transition,
      job.applyEventAt event now = .ok (updated, transition) ∧ updated.status = after := by
    unfold ProvisioningJob.applyEventAt
    rw [target_eq_some.mpr htransition]
    exact ⟨_, _, rfl, rfl⟩
  have hattempts : ¬ kind.maxAttempts < updated.attemptCount :=
    not_lt.mpr (hlimit updated transition happly)
  refine ⟨updated, transition, happly, hstatus, ?_⟩
  simp only [StoreKind.applyEvent, Process.step, hvalid, hjob, hkey, happly, hattempts, if_false,
    and_self]

end

theorem applyEvent_cases (hjob : store.job = some job) :
    ((kind.applyEvent key event now store).final = store ∧
      ∀ answer, (kind.applyEvent key event now store).result = .ok answer → answer = job) ∨
      ∃ updated transition, key.text ∉ store.keys ∧
        job.applyEventAt event now = .ok (updated, transition) ∧
        updated.attemptCount ≤ kind.maxAttempts ∧
        (kind.applyEvent key event now store).result = .ok updated ∧
        (kind.applyEvent key event now store).final =
          StoreKind.push store key updated transition := by
  cases hvalid : kind.checkText key.text "event idempotency key" with
  | error failure =>
    simp only [StoreKind.applyEvent, Process.step, hvalid]
    refine .inl ⟨trivial, fun answer hanswer ↦ ?_⟩
    cases hanswer
  | ok value =>
    by_cases hkey : key.text ∈ store.keys
    · have happlied : (kind.applyEvent key event now store).result = _ ∧ _ :=
        applyEvent_of_mem hvalid hjob hkey
      obtain ⟨hresult, hfinal⟩ := happlied
      exact .inl ⟨hfinal, fun answer hanswer ↦ Except.ok.inj (hanswer.symm.trans hresult)⟩
    · cases happly : job.applyEventAt event now with
      | error failure =>
        simp only [StoreKind.applyEvent, Process.step, hvalid, hjob, hkey, happly, if_false]
        refine .inl ⟨trivial, fun answer hanswer ↦ ?_⟩
        cases hanswer
      | ok outcome =>
        obtain ⟨updated, transition⟩ := outcome
        by_cases hlimit : kind.maxAttempts < updated.attemptCount
        · simp only [StoreKind.applyEvent, Process.step, hvalid, hjob, hkey, happly, hlimit,
            if_false, if_true]
          refine .inl ⟨trivial, fun answer hanswer ↦ ?_⟩
          cases hanswer
        · simp only [StoreKind.applyEvent, Process.step, hvalid, hjob, hkey, happly, hlimit,
            if_false]
          exact .inr ⟨updated, transition, not_false, rfl, not_lt.mp hlimit, rfl, rfl⟩

end Invariant

/-! ### Between two calls -/

variable {label : EventLabel}

/-- The events that start an attempt or lead into a status that the same call is to leave. -/
def ProvisioningEvent.isPassing : ProvisioningEvent → Bool
  | .start | .retryTimer | .registrationStarted .. | .emailReceived _ => true
  | _ => false

/-- The statuses that a job only passes within a call. -/
def ProvisioningStatus.isPassing : ProvisioningStatus → Bool
  | .created | .starting | .registrationStarted | .emailReceived => true
  | _ => false

/-- A job between two calls. -/
structure Calm (kind : StoreKind) (store : JobStore) (job : ProvisioningJob) : Prop where
  coherent : Coherent kind store job
  rests : job.status.isPassing = false
  /-- The provisioner has not gone on with the attempt. -/
  waiting : job.status = .waitingForEmail →
    ∀ label, label = .providerReady ∨ label = .candidateReady →
      (EventKey.numbered label job.attemptCount).text ∉ store.keys

/-- The store holds a job between two calls, in this attempt or a later one. -/
def CalmAt (kind : StoreKind) (attempt : ℕ) (store : JobStore) : Prop :=
  ∃ job, Calm kind store job ∧ attempt ≤ job.attemptCount

/-- A job that is answered is the one that the store holds. -/
def CalmWith (kind : StoreKind) (attempt : ℕ) (job : ProvisioningJob) (store : JobStore) : Prop :=
  Calm kind store job ∧ attempt ≤ job.attemptCount

/-- A part of a call that keeps the job calm. -/
def KeepsCalm (kind : StoreKind) (attempt : ℕ) (process : JobProcess ProvisioningJob) : Prop :=
  Ensures (CalmAt kind attempt) process (CalmAt kind attempt) (CalmWith kind attempt)
    fun _ ↦ CalmAt kind attempt

section Calm

variable {kind : StoreKind} {store : JobStore} {job updated : ProvisioningJob} {key : EventKey}
  {event : ProvisioningEvent} {transition : ProvisioningTransition} {now : ℤ} {attempt : ℕ}

theorem Transition.rests (h : Transition event status after) (hpassing : event.isPassing = false) :
    after.isPassing = false := by
  cases h with
  | start => cases hpassing
  | registrationStarted => cases hpassing
  | emailReceived => cases hpassing
  | retryTimer => cases hpassing
  | _ => rfl

theorem isStart_of_not_isPassing (hpassing : event.isPassing = false) : event.isStart = false := by
  cases event with
  | start => cases hpassing
  | retryTimer => cases hpassing
  | _ => rfl

theorem Transition.passing_of_waitingForEmail (h : Transition event status .waitingForEmail) :
    status.isPassing = true := by
  cases h with
  | awaitingEmail h => rcases h with rfl | rfl <;> rfl

theorem Calm.push (h : Calm kind store job) (hkey : key.text ∉ store.keys)
    (happly : job.applyEventAt event now = .ok (updated, transition))
    (hpassing : event.isPassing = false) (hfits : Fits store.messages job.attemptCount key event) :
    Calm kind (StoreKind.push store key updated transition) updated := by
  obtain ⟨htransition, -⟩ := applyEventAt_eq_ok happly
  refine ⟨h.coherent.push_of_not_isStart hkey happly (isStart_of_not_isPassing hpassing) hfits,
    htransition.rests hpassing, fun hwaiting ↦ ?_⟩
  rw [hwaiting] at htransition
  have hrests := h.rests
  rw [htransition.passing_of_waitingForEmail] at hrests
  cases hrests

theorem keepsCalm_applyEvent
    (hpassing : ∀ status after, Transition event status after → status.isPassing = false →
      event.isPassing = false)
    (hfits : ∀ messages, Fits messages attempt key event) :
    KeepsCalm kind attempt (kind.applyEvent key event now) := by
  rintro store ⟨job, hcalm, hle⟩
  have hvisited : (kind.applyEvent key event now store).visited =
      [(kind.applyEvent key event now store).final] := rfl
  rw [hvisited, List.forall_mem_singleton]
  rcases applyEvent_cases hcalm.coherent.held with ⟨hfinal, hanswer⟩ |
    ⟨updated, transition, hkey, happly, -, hresult, hfinal⟩
  · rw [hfinal]
    refine ⟨⟨job, hcalm, hle⟩, fun answer h ↦ ?_, fun _ _ ↦ ⟨job, hcalm, hle⟩⟩
    rw [hanswer answer h]
    exact ⟨hcalm, hle⟩
  · have hevent := hpassing _ _ (applyEventAt_eq_ok happly).1 hcalm.rests
    have hpush := hcalm.push hkey happly hevent ((hfits store.messages).mono hle)
    have hattempt := attemptCount_of_apply happly (isStart_of_not_isPassing hevent)
    rw [hfinal, hresult]
    refine ⟨⟨updated, hpush, hattempt ▸ hle⟩, fun answer h ↦ ?_, fun failure h ↦ ?_⟩
    · obtain rfl := Except.ok.inj h
      exact ⟨hpush, hattempt ▸ hle⟩
    · cases h

/-! ### The parts of a call -/

variable {summary : Text}

theorem CalmWith.calmAt (h : CalmWith kind attempt job store) : CalmAt kind attempt store :=
  ⟨job, h⟩

def ProvisioningEvent.asksOperator : ProvisioningEvent → Bool
  | .needsOperator .. => true
  | _ => false

theorem fits_numbered (hlabel : label ≠ .mailReceived) (hevent : event.asksOperator = false)
    (messages : List Text) :
    Fits messages attempt (.numbered label attempt) event where
  number := by
    intro other number _ heq
    exact (numbered_eq_numbered.mp heq).2.ge
  final := fun _ _ heq ↦ absurd heq numbered_ne_plain
  needsOperator := by
    rintro action summary rfl
    cases hevent
  operatorComplete := fun heq ↦ absurd heq numbered_ne_plain
  mail := fun messageId heq ↦ absurd (congrArg EventKey.label heq) hlabel

theorem fits_plain (hlabel : label ≠ .mailReceived) (hcomplete : label ≠ .operatorComplete)
    (hevent : ∀ action summary, event = .needsOperator action summary → label = .needsOperator)
    (hfinal : label.isFinal = true → ∀ status after, Transition event status after →
      after.isTerminal = true) (messages : List Text) :
    Fits messages attempt (.plain label) event where
  number := fun _ _ _ heq ↦ absurd heq.symm numbered_ne_plain
  final := by
    intro other hother heq
    obtain rfl := plain_eq_plain.mp heq
    exact hfinal hother
  needsOperator := fun action summary heq ↦ congrArg EventKey.plain (hevent action summary heq)
  operatorComplete := fun heq ↦ absurd (plain_eq_plain.mp heq) hcomplete
  mail := fun messageId heq ↦ absurd (congrArg EventKey.label heq) hlabel

theorem fits_permanentFailure {code : Text} (hlabel : label ≠ .mailReceived)
    (hcomplete : label ≠ .operatorComplete) (messages : List Text) :
    Fits messages attempt (.plain label) (.permanentFailure code summary) := by
  refine fits_plain hlabel hcomplete (fun _ _ heq ↦ ?_) (fun _ status after h ↦ ?_) messages
  · cases heq
  · cases h
    rfl

theorem fits_retryableFailure {code : Text} {retryAfter : Option ℤ} (hlabel : label ≠ .mailReceived)
    (hcomplete : label ≠ .operatorComplete) (hfinal : label.isFinal = false) (messages : List Text)
    :
    Fits messages attempt (.plain label) (.retryableFailure code summary retryAfter) := by
  refine fits_plain hlabel hcomplete (fun _ _ heq ↦ ?_) (fun h ↦ ?_) messages
  · cases heq
  · rw [hfinal] at h
    cases h

theorem fits_needsOperator {action : Text} (messages : List Text) :
    Fits messages attempt (.plain .needsOperator) (.needsOperator action summary) :=
  fits_plain (by decide) (by decide) (fun _ _ _ ↦ rfl) (fun h ↦ absurd h (by decide)) messages

end Calm

/-! ### The parts of a call -/

namespace ProvisioningManager

variable {manager : ProvisioningManager} {answers : Answers} {job : ProvisioningJob}
  {attempt : ℕ}

theorem keepsCalm_check {α : Type} {outcome : Except ProvisioningError α}
    {next : α → JobProcess ProvisioningJob}
    (h : ∀ value, KeepsCalm manager.kind attempt (next value)) :
    KeepsCalm manager.kind attempt (check outcome >>= next) :=
  ensures_bind (fun _ ↦ CalmAt manager.kind attempt)
    (ensures_query (fun _ _ hcalm _ ↦ hcalm) fun _ _ hcalm _ ↦ hcalm) h

/-- A part of a call that is given the job of the store. -/
def KeepsCalmWith (manager : ProvisioningManager) (attempt : ℕ) (job : ProvisioningJob)
    (process : JobProcess ProvisioningJob) : Prop :=
  Ensures (CalmWith manager.kind attempt job) process (CalmAt manager.kind attempt)
    (CalmWith manager.kind attempt) fun _ ↦ CalmAt manager.kind attempt

theorem KeepsCalm.given {process : JobProcess ProvisioningJob}
    (h : KeepsCalm manager.kind attempt process) : KeepsCalmWith manager attempt job process :=
  h.mono (fun _ hcalm ↦ hcalm.calmAt) (fun _ hcalm ↦ hcalm) (fun _ _ hcalm ↦ hcalm)
    fun _ _ hcalm ↦ hcalm

theorem KeepsCalm.of_attempt {process : JobProcess ProvisioningJob}
    (h : KeepsCalm manager.kind job.attemptCount process) :
    KeepsCalmWith manager attempt job process := by
  rintro store ⟨hcalm, hle⟩
  obtain ⟨hvisited, hok, herror⟩ := h store ⟨job, hcalm, le_refl _⟩
  refine ⟨fun reached hreached ↦ ?_, fun value hvalue ↦ ?_, fun failure hfailure ↦ ?_⟩
  · obtain ⟨other, hother, hleOther⟩ := hvisited reached hreached
    exact ⟨other, hother, hle.trans hleOther⟩
  · obtain ⟨hother, hleOther⟩ := hok value hvalue
    exact ⟨hother, hle.trans hleOther⟩
  · obtain ⟨other, hother, hleOther⟩ := herror failure hfailure
    exact ⟨other, hother, hle.trans hleOther⟩

theorem KeepsCalm.bind {first : JobProcess ProvisioningJob}
    {next : ProvisioningJob → JobProcess ProvisioningJob}
    (hfirst : KeepsCalm manager.kind attempt first)
    (hnext : ∀ job, KeepsCalmWith manager attempt job (next job)) :
    KeepsCalm manager.kind attempt (first >>= next) :=
  ensures_bind (CalmWith manager.kind attempt) hfirst hnext

theorem keepsCalm_numbered {event : ProvisioningEvent} (hlabel : label ≠ .mailReceived)
    (hpassing : event.isPassing = false) (hevent : event.asksOperator = false) :
    KeepsCalm manager.kind attempt (manager.applyEvent answers (.numbered label attempt) event) :=
  keepsCalm_applyEvent (fun _ _ _ _ ↦ hpassing) fun messages ↦ fits_numbered hlabel hevent messages

theorem keepsCalm_enrollValidated {validated : ValidatedCapacity} :
    KeepsCalm manager.kind attempt (manager.enrollValidated answers attempt validated) := by
  refine KeepsCalm.bind (keepsCalm_numbered (by decide) rfl rfl) fun _ ↦ ?_
  refine KeepsCalm.given (KeepsCalm.bind (keepsCalm_numbered (by decide) rfl rfl) fun job ↦ ?_)
  cases answers.enroll job.poolId validated with
  | error _ | ok _ => exact KeepsCalm.given (keepsCalm_numbered (by decide) rfl rfl)

theorem keepsCalm_validateAndEnroll :
    KeepsCalm manager.kind job.attemptCount (manager.validateAndEnroll answers job) := by
  refine keepsCalm_check fun _ ↦ ?_
  refine KeepsCalm.bind (keepsCalm_numbered (by decide) rfl rfl) fun started ↦ ?_
  refine KeepsCalm.given (keepsCalm_check fun candidate ↦ ?_)
  cases answers.validate candidate started.requestedCapacityBytes with
  | error failure => exact keepsCalm_numbered (by decide) rfl rfl
  | ok validated => exact keepsCalm_enrollValidated

theorem keepsCalm_applyResult (result : ProvisionerResult) :
    KeepsCalmWith manager attempt job (manager.applyResult answers job result) := by
  cases result with
  | waitingForEmail =>
    exact fun store hcalm ↦ ⟨fun _ h ↦ absurd h List.not_mem_nil,
      fun _ h ↦ Except.ok.inj h ▸ hcalm, fun _ h ↦ nomatch h⟩
  | waitingForProvider => exact KeepsCalm.of_attempt (keepsCalm_numbered (by decide) rfl rfl)
  | candidateReady candidate =>
    refine KeepsCalm.of_attempt (KeepsCalm.bind (keepsCalm_numbered (by decide) rfl rfl) ?_)
    exact fun ready ↦ KeepsCalm.of_attempt keepsCalm_validateAndEnroll
  | needsOperator action =>
    exact KeepsCalm.given (keepsCalm_applyEvent (fun _ _ _ _ ↦ rfl) fits_needsOperator)
  | retryableFailure code summary retryAfter =>
    exact KeepsCalm.given (keepsCalm_applyEvent (fun _ _ _ _ ↦ rfl)
      (fits_retryableFailure (by decide) (by decide) rfl))
  | permanentFailure code summary =>
    exact KeepsCalm.given (keepsCalm_applyEvent (fun _ _ _ _ ↦ rfl)
      (fits_permanentFailure (by decide) (by decide)))

theorem keepsCalm_awaitEmail :
    KeepsCalm manager.kind job.attemptCount (manager.awaitEmail answers job) := by
  refine keepsCalm_check fun domain ↦ ?_
  refine KeepsCalm.bind (keepsCalm_applyEvent ?_ (fits_numbered (by decide) rfl)) fun _ ↦ ?_
  · intro status after htransition hrests
    cases htransition
    cases hrests
  · exact KeepsCalm.of_attempt (keepsCalm_numbered (by decide) rfl rfl)

theorem keepsCalm_startJob :
    KeepsCalmWith manager attempt job (manager.startJob answers job) := by
  unfold startJob
  split
  · exact KeepsCalm.given (keepsCalm_applyEvent (fun _ _ _ _ ↦ rfl)
      (fits_permanentFailure (by decide) (by decide)))
  · exact KeepsCalm.of_attempt (keepsCalm_numbered (by decide) rfl rfl)
  · exact KeepsCalm.of_attempt keepsCalm_awaitEmail
  · exact KeepsCalm.of_attempt (keepsCalm_numbered (by decide) rfl rfl)
  · exact keepsCalm_applyResult _

theorem keepsCalm_continueAfterMail :
    KeepsCalmWith manager attempt job (manager.continueAfterMail answers job) := by
  unfold continueAfterMail
  split
  · exact KeepsCalm.given (keepsCalm_applyEvent (fun _ _ _ _ ↦ rfl)
      (fits_permanentFailure (by decide) (by decide)))
  · exact KeepsCalm.given (keepsCalm_applyEvent (fun _ _ _ _ ↦ rfl)
      (fits_retryableFailure (by decide) (by decide) rfl))
  · exact keepsCalm_applyResult _

end ProvisioningManager

end GameLauncher.Provisioning
