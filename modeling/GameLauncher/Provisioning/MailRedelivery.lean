import GameLauncher.Provisioning.Threads

/-!
# Mails that are delivered again

`handle_email_with_record_status` records the id of the message before it applies an event to the
job and before it asks the provisioner, each in a transaction of its own. The store and the other
parties are `Surroundings` of a call: any of its steps may fail, with any job in the store.

`redelivered_iff` says when a call that fails leaves the message to the next delivery: it must have
failed before the message was recorded, and for a message that the store accepts. After that the
next delivery is answered as a duplicate, as in `mail_lost`.
-/

set_option autoImplicit false

namespace GameLauncher.Provisioning

open Foundation Fallible
open Process

/-! ### The surroundings of a call -/

/-- How the store fails to record a message: without an effect, or with one that is not reported. -/
inductive RecordFault
  | refused (failure : ProvisioningError)
  | unanswered (failure : ProvisioningError)

/-- What a call meets. A call applies no two events with one key, so the answer of the store to an
event is given for its key. -/
structure Surroundings where
  getJob : Except ProvisioningError ProvisioningJob
  recordMail : Option RecordFault
  applyEvent : EventKey → Except ProvisioningError ProvisioningJob
  answers : Answers

/-- The ids of the recorded messages, and the jobs with which the provisioner was asked. -/
structure MailWorld where
  messages : List Text
  asked : List ProvisioningJob

abbrev MailProcess (α : Type) := Process MailWorld ProvisioningError α

namespace MailWorld

/-- `INSERT … ON CONFLICT(message_id) DO NOTHING`, or the `insert` of a set. -/
def insert (world : MailWorld) (messageId : Text) : MailWorld :=
  if messageId ∈ world.messages then world
  else { world with messages := world.messages ++ [messageId] }

end MailWorld

namespace Surroundings

variable (surroundings : Surroundings) (manager : ProvisioningManager)

/-- `record_mail`. -/
def record (kind : StoreKind) (record : ProvisioningMailRecord) : MailProcess Bool :=
  Process.step fun world ↦
    match kind.checkMail record, surroundings.recordMail with
    | .error failure, _ => (.error failure, world)
    | .ok (), some (.refused failure) => (.error failure, world)
    | .ok (), some (.unanswered failure) => (.error failure, world.insert record.messageId)
    | .ok (), none => (.ok (decide (record.messageId ∉ world.messages)),
        world.insert record.messageId)

/-- The operations of the store and the enroller in these surroundings. -/
def perform (kind : StoreKind) : (operation : Operation) → MailProcess operation.Response
  | .getJob => query fun _ ↦ surroundings.getJob
  | .applyEvent key _ _ => query fun _ ↦ surroundings.applyEvent key
  | .recordMail record => surroundings.record kind record
  | .enroll _ _ outcome => pure outcome
  -- A mail neither creates nor starts a job.
  | .createOrGetJob .. | .claimStart _ => Process.fail .notFound

/-- A part of a call in these surroundings. -/
def run {α : Type} (program : CallProgram α) : MailProcess α :=
  program.toProcess (surroundings.perform manager.kind)

/-- `continue_job` of the provisioner. -/
def askProvisioner (job : ProvisioningJob) :
    MailProcess (Except ProvisioningError ProvisionerResult) :=
  Process.step fun world ↦
    (.ok (surroundings.answers.continueJob job), { world with asked := world.asked ++ [job] })

/-- What is recorded of the answer of the provisioner. -/
def settle (job : ProvisioningJob) :
    Except ProvisioningError ProvisionerResult → CallProgram ProvisioningJob
  | .error _ =>
    Threads.applyEvent surroundings.answers (.plain .provisionerEmailFailed)
      (.retryableFailure "PROVIDER_EMAIL_PROCESSING_FAILED"
        "provider email processing failed" (some (surroundings.answers.now + fiveMinutes)))
  | .ok result => Threads.applyResult manager surroundings.answers job result

/-- The provisioner's part in the handling of a mail. -/
def continueAfterMail (job : ProvisioningJob) : MailProcess ProvisioningJob :=
  match manager.registry job.providerType with
  | none =>
    surroundings.run manager (Threads.applyEvent surroundings.answers
      (.plain .missingEmailProvisioner) ProvisioningManager.notConfigured)
  | some _ => do
    let result ← surroundings.askProvisioner job
    surroundings.run manager (surroundings.settle manager job result)

def acceptMail (record : ProvisioningMailRecord) (job : ProvisioningJob) :
    MailProcess (ProvisioningJob × Bool) := do
  let job ← surroundings.run manager (Threads.receiveMail surroundings.answers record job)
  let job ← surroundings.continueAfterMail manager job
  pure (job, false)

/-- `handle_email_with_record_status`. -/
def handleEmail (record : ProvisioningMailRecord) : MailProcess (ProvisioningJob × Bool) := do
  let job ← query fun _ ↦ surroundings.getJob
  if job.status.isTerminal then pure (job, false)
  else do
    let accepted ← surroundings.record manager.kind record
    if accepted = false then pure (job, true) else surroundings.acceptMail manager record job

end Surroundings

/-! ### Redelivery -/

/-- Nothing keeps a call from reaching the provisioner: the job is active, the message is recorded
without a fault, the store applies the event of the mail if the job waits for it, and the job has a
provisioner. -/
structure Reaches (manager : ProvisioningManager) (surroundings : Surroundings)
    (record : ProvisioningMailRecord) (reached : ProvisioningJob) : Prop where
  active : ∃ job, surroundings.getJob = .ok job ∧ job.status.isTerminal = false ∧
    (if job.status = .waitingForEmail then surroundings.applyEvent (.ofMail record.messageId)
      else .ok job) = .ok reached
  recordMail : surroundings.recordMail = none
  provisioner : manager.registry reached.providerType ≠ none

/-- After a call that fails, a later delivery of the same record that nothing keeps from it is handed
to the provisioner, and it is not answered as a duplicate. -/
def Redelivered (manager : ProvisioningManager) (record : ProvisioningMailRecord)
    (surroundings : Surroundings) (world : MailWorld) : Prop :=
  ∀ failure, (surroundings.handleEmail manager record world).result = .error failure →
    ∀ later reached, Reaches manager later record reached →
      let before := (surroundings.handleEmail manager record world).final
      let delivery := later.handleEmail manager record before
      delivery.final.asked = before.asked ++ [reached] ∧ ∀ job, delivery.result ≠ .ok (job, true)

/-! ### The condition -/

namespace Surroundings

variable (surroundings : Surroundings) (manager : ProvisioningManager)

def Applies (key : EventKey) : Prop := ∃ job, surroundings.applyEvent key = .ok job

def Enrolls (attempt : ℕ) (validated : ValidatedCapacity) : Prop :=
  surroundings.Applies (.numbered .validationPassed attempt) ∧
    ∃ job, surroundings.applyEvent (.numbered .enrollmentStarted attempt) = .ok job ∧
      match surroundings.answers.enroll job.poolId validated with
      | .error _ => surroundings.Applies (.numbered .enrollmentFailed attempt)
      | .ok () => surroundings.Applies (.numbered .enrolled attempt)

/-- A candidate can be validated: the validator and the enroller are there, the job has the references
of the candidate, and the store applies the events. -/
def Validates (job : ProvisioningJob) : Prop :=
  manager.checkBinding job = .ok () ∧
    ∃ started, surroundings.applyEvent (.numbered .validationStarted job.attemptCount) =
        .ok started ∧
      ∃ candidate, started.candidate = .ok candidate ∧
        match surroundings.answers.validate candidate started.requestedCapacityBytes with
        | .error _ => surroundings.Applies (.numbered .validationFailed job.attemptCount)
        | .ok validated => surroundings.Enrolls job.attemptCount validated

/-- The answer of the provisioner can be recorded. -/
def Settles (job : ProvisioningJob) : Prop :=
  match manager.registry job.providerType, surroundings.answers.continueJob job with
  | none, _ => surroundings.Applies (.plain .missingEmailProvisioner)
  | some _, .error _ => surroundings.Applies (.plain .provisionerEmailFailed)
  | some _, .ok .waitingForEmail => True
  | some _, .ok .waitingForProvider =>
    surroundings.Applies (.numbered .providerReady job.attemptCount)
  | some _, .ok (.needsOperator _) => surroundings.Applies (.plain .needsOperator)
  | some _, .ok (.retryableFailure ..) =>
    surroundings.Applies (.plain .provisionerFailedRetryable)
  | some _, .ok (.permanentFailure ..) =>
    surroundings.Applies (.plain .provisionerFailedPermanent)
  | some _, .ok (.candidateReady _) =>
    ∃ ready, surroundings.applyEvent (.numbered .candidateReady job.attemptCount) = .ok ready ∧
      surroundings.Validates manager ready

/-- No step fails after the message is recorded. -/
def Completes (record : ProvisioningMailRecord) (job : ProvisioningJob) : Prop :=
  ∃ reached, (if job.status = .waitingForEmail then
      surroundings.applyEvent (.ofMail record.messageId) else .ok job) = .ok reached ∧
    surroundings.Settles manager reached

/-- A failing call leaves the message to the next delivery. Before the message is recorded, it must be
one that the store accepts and has not recorded already; from then on no step may fail. -/
def LeavesMessage (record : ProvisioningMailRecord) (world : MailWorld) : Prop :=
  match surroundings.getJob with
  | .error _ => manager.kind.checkMail record = .ok () ∧ record.messageId ∉ world.messages
  | .ok job =>
    job.status.isTerminal = true ∨ manager.kind.checkMail record = .ok () ∧
      match surroundings.recordMail with
      | some (.refused _) => record.messageId ∉ world.messages
      | some (.unanswered _) => False
      | none => record.messageId ∈ world.messages ∨ surroundings.Completes manager record job

/-! ### How a call ends -/

variable {α β : Type}

section Ends

variable {surroundings manager} {world : MailWorld} {job reached : ProvisioningJob}
  {record : ProvisioningMailRecord}

theorem run_applyEvent (key : EventKey) (event : ProvisioningEvent) :
    surroundings.run manager (Threads.applyEvent surroundings.answers key event) =
      query fun _ ↦ surroundings.applyEvent key := bind_pure _

theorem run_check (outcome : Except ProvisioningError α) :
    surroundings.run manager (Threads.check outcome) = query fun _ ↦ outcome :=
  Program.toProcess_done _ outcome

theorem run_bind (program : CallProgram α) (rest : α → CallProgram β) :
    surroundings.run manager (program >>= rest) =
      surroundings.run manager program >>= fun value ↦ surroundings.run manager (rest value) :=
  Program.toProcess_bind _ program rest

theorem run_enroll {poolId : Text} {validated : ValidatedCapacity}
    {outcome : Except ProvisioningError Unit} {next : Except ProvisioningError Unit → CallProgram α}
    :
    surroundings.run manager (Program.call (.enroll poolId validated outcome) next) =
      surroundings.run manager (next outcome) := pure_bind _ _

/-- A part that only looks is followed by the rest, unless it fails. -/
theorem exists_result_query_bind {outcome : Except ProvisioningError α} {rest : α → MailProcess β} :
    (∃ value, (((query fun _ ↦ outcome) >>= rest) world).result = .ok value) ↔
      ∃ seen, outcome = .ok seen ∧ ∃ value, (rest seen world).result = .ok value := by
  simp only [result_bind_eq_ok]
  constructor
  · rintro ⟨value, seen, hseen, hvalue⟩
    exact ⟨seen, hseen, value, hvalue⟩
  · rintro ⟨seen, hseen, value, hvalue⟩
    exact ⟨value, seen, hseen, hvalue⟩

theorem exists_result_applyEvent (key : EventKey) (event : ProvisioningEvent) :
    (∃ job, (surroundings.run manager (Threads.applyEvent surroundings.answers key event)
      world).result = .ok job) ↔ surroundings.Applies key := by
  rw [run_applyEvent]
  rfl

theorem exists_result_enrollValidated (attempt : ℕ) (validated : ValidatedCapacity) :
    (∃ job, (surroundings.run manager (Threads.enrollValidated surroundings.answers attempt
      validated) world).result = .ok job) ↔ surroundings.Enrolls attempt validated := by
  unfold Threads.enrollValidated Enrolls
  rw [run_bind, run_applyEvent, exists_result_query_bind, Applies, exists_and_right]
  refine and_congr_right fun _ ↦ ?_
  rw [run_bind, run_applyEvent, exists_result_query_bind]
  refine exists_congr fun job ↦ and_congr_right fun _ ↦ ?_
  rw [run_enroll]
  cases surroundings.answers.enroll job.poolId validated with
  | error failure => exact exists_result_applyEvent _ _
  | ok value => exact exists_result_applyEvent _ _

theorem exists_result_validateAndEnroll (job : ProvisioningJob) :
    (∃ enrolled, (surroundings.run manager (Threads.validateAndEnroll manager surroundings.answers
      job) world).result = .ok enrolled) ↔ surroundings.Validates manager job := by
  unfold Threads.validateAndEnroll Validates
  rw [run_bind, run_check, exists_result_query_bind]
  have hunit (done : Except ProvisioningError Unit) (rest : Prop) :
      (∃ seen, done = .ok seen ∧ rest) ↔ done = .ok () ∧ rest :=
    ⟨fun ⟨_, hdone, hrest⟩ ↦ ⟨hdone, hrest⟩, fun ⟨hdone, hrest⟩ ↦ ⟨(), hdone, hrest⟩⟩
  rw [hunit]
  refine and_congr_right fun _ ↦ ?_
  rw [run_bind, run_applyEvent, exists_result_query_bind]
  refine exists_congr fun started ↦ and_congr_right fun _ ↦ ?_
  rw [run_bind, run_check, exists_result_query_bind]
  refine exists_congr fun candidate ↦ and_congr_right fun _ ↦ ?_
  cases surroundings.answers.validate candidate started.requestedCapacityBytes with
  | error failure => exact exists_result_applyEvent _ _
  | ok validated => exact exists_result_enrollValidated _ _

/-- The rest of a call ends well exactly when the answer of the provisioner can be recorded. -/
theorem exists_result_continueAfterMail (job : ProvisioningJob) :
    (∃ last, (surroundings.continueAfterMail manager job world).result = .ok last) ↔
      surroundings.Settles manager job := by
  unfold continueAfterMail Settles
  cases manager.registry job.providerType with
  | none => exact exists_result_applyEvent _ _
  | some binding =>
    have hask : (∃ last, ((surroundings.askProvisioner job >>= fun result ↦
        surroundings.run manager (surroundings.settle manager job result)) world).result =
          .ok last) ↔ ∃ last, (surroundings.run manager (surroundings.settle manager job
            (surroundings.answers.continueJob job))
              { world with asked := world.asked ++ [job] }).result = .ok last := by
      have hfirst : (surroundings.askProvisioner job world).result =
        .ok (surroundings.answers.continueJob job) := rfl
      rw [result_bind_of_ok hfirst]
      rfl
    refine hask.trans ?_
    cases surroundings.answers.continueJob job with
    | error failure => exact exists_result_applyEvent _ _
    | ok result =>
      cases result with
      | waitingForEmail => exact iff_of_true ⟨job, rfl⟩ trivial
      | candidateReady candidate =>
        unfold settle Threads.applyResult
        dsimp only
        rw [run_bind, run_applyEvent, exists_result_query_bind]
        exact exists_congr fun ready ↦ and_congr_right fun _ ↦ exists_result_validateAndEnroll ready
      | waitingForProvider => exact exists_result_applyEvent _ _
      | needsOperator action => exact exists_result_applyEvent _ _
      | retryableFailure code summary retryAfter => exact exists_result_applyEvent _ _
      | permanentFailure code summary => exact exists_result_applyEvent _ _

theorem run_receiveMail (job : ProvisioningJob) :
    surroundings.run manager (Threads.receiveMail surroundings.answers record job) =
      query fun _ ↦ if job.status = .waitingForEmail then
        surroundings.applyEvent (.ofMail record.messageId) else .ok job := by
  unfold Threads.receiveMail
  split_ifs
  · exact run_applyEvent _ _
  · rfl

/-- The rest of a call ends well exactly when no step of it fails. -/
theorem exists_result_acceptMail (job : ProvisioningJob) :
    (∃ last, (surroundings.acceptMail manager record job world).result = .ok last) ↔
      surroundings.Completes manager record job := by
  unfold acceptMail Completes
  rw [run_receiveMail, exists_result_query_bind]
  refine exists_congr fun reached ↦ and_congr_right fun _ ↦ ?_
  have hcontinue : (∃ last, (surroundings.continueAfterMail manager reached world).result = .ok last) ↔
      _ := exists_result_continueAfterMail reached
  rw [← hcontinue]
  simp only [result_bind_eq_ok]
  exact ⟨fun ⟨_, last, hlast, _⟩ ↦ ⟨last, hlast⟩, fun ⟨last, hlast⟩ ↦ ⟨_, last, hlast, rfl⟩⟩

/-! ### What a call leaves -/

/-- A part that neither looks at the world nor changes it. -/
def Fixed {α : Type} (process : MailProcess α) : Prop := ∃ outcome, process = query fun _ ↦ outcome

theorem Fixed.bind {first : MailProcess α} {rest : α → MailProcess β} (hfirst : Fixed first)
    (hrest : ∀ value, Fixed (rest value)) : Fixed (first >>= rest) := by
  obtain ⟨outcome, rfl⟩ := hfirst
  cases outcome with
  | error failure => exact ⟨.error failure, funext fun _ ↦ query_bind_of_error rfl⟩
  | ok value =>
    obtain ⟨outcome, hvalue⟩ := hrest value
    refine ⟨outcome, funext fun world ↦ ?_⟩
    have hbind : ((query fun _ ↦ .ok value) >>= rest) world = rest value world :=
      query_bind_of_ok rfl
    rw [hbind, hvalue]

theorem fixed_applyEvent (key : EventKey) (event : ProvisioningEvent) :
    Fixed (surroundings.run manager (Threads.applyEvent surroundings.answers key event)) :=
  ⟨_, run_applyEvent key event⟩

theorem fixed_validateAndEnroll (job : ProvisioningJob) :
    Fixed (surroundings.run manager
      (Threads.validateAndEnroll manager surroundings.answers job)) := by
  unfold Threads.validateAndEnroll
  rw [run_bind, run_check]
  refine .bind ⟨_, rfl⟩ fun _ ↦ ?_
  rw [run_bind]
  refine .bind (fixed_applyEvent _ _) fun started ↦ ?_
  rw [run_bind, run_check]
  refine .bind ⟨_, rfl⟩ fun candidate ↦ ?_
  cases surroundings.answers.validate candidate started.requestedCapacityBytes with
  | error failure => exact fixed_applyEvent _ _
  | ok validated =>
    show Fixed (surroundings.run manager (Threads.enrollValidated _ _ _))
    unfold Threads.enrollValidated
    rw [run_bind]
    refine .bind (fixed_applyEvent _ _) fun _ ↦ ?_
    rw [run_bind]
    refine .bind (fixed_applyEvent _ _) fun enrolling ↦ ?_
    rw [run_enroll]
    cases surroundings.answers.enroll enrolling.poolId validated with
    | error failure => exact fixed_applyEvent _ _
    | ok value => exact fixed_applyEvent _ _

theorem fixed_settle (job : ProvisioningJob)
    (result : Except ProvisioningError ProvisionerResult) :
    Fixed (surroundings.run manager (surroundings.settle manager job result)) := by
  cases result with
  | error failure => exact fixed_applyEvent _ _
  | ok result =>
    cases result with
    | waitingForEmail => exact ⟨.ok job, rfl⟩
    | candidateReady candidate =>
      unfold settle Threads.applyResult
      dsimp only
      rw [run_bind]
      exact .bind (fixed_applyEvent _ _) fixed_validateAndEnroll
    | waitingForProvider => exact fixed_applyEvent _ _
    | needsOperator action => exact fixed_applyEvent _ _
    | retryableFailure code summary retryAfter => exact fixed_applyEvent _ _
    | permanentFailure code summary => exact fixed_applyEvent _ _

/-- The rest of a call records no message, and it asks the provisioner of the job if there is one. -/
theorem final_continueAfterMail (job : ProvisioningJob) :
    (surroundings.continueAfterMail manager job world).final =
      if manager.registry job.providerType = none then world
      else { world with asked := world.asked ++ [job] } := by
  unfold continueAfterMail
  cases manager.registry job.providerType with
  | none =>
    obtain ⟨outcome, houtcome⟩ : Fixed (surroundings.run manager (Threads.applyEvent
        surroundings.answers (.plain .missingEmailProvisioner)
        ProvisioningManager.notConfigured)) := fixed_applyEvent _ _
    rw [if_pos rfl]
    dsimp only
    rw [houtcome]
    rfl
  | some binding =>
    have hfirst : (surroundings.askProvisioner job world).result =
      .ok (surroundings.answers.continueJob job) := rfl
    obtain ⟨outcome, houtcome⟩ : Fixed (surroundings.run manager (surroundings.settle manager job
        (surroundings.answers.continueJob job))) := fixed_settle job _
    rw [if_neg (Option.some_ne_none binding)]
    dsimp only
    rw [final_bind_of_ok hfirst, houtcome]
    rfl

theorem handleEmail_of_active (hjob : surroundings.getJob = .ok job)
    (hactive : job.status.isTerminal = false) :
    surroundings.handleEmail manager record world =
      (surroundings.record manager.kind record >>= fun accepted ↦
        if accepted = false then pure (job, true)
        else surroundings.acceptMail manager record job) world := by
  unfold handleEmail
  have hget : ((query fun _ ↦ surroundings.getJob) >>= fun job ↦
      if job.status.isTerminal = true then (pure (job, false) : MailProcess _)
      else surroundings.record manager.kind record >>= fun accepted ↦
        if accepted = false then pure (job, true)
        else surroundings.acceptMail manager record job) world = _ := query_bind_of_ok hjob
  rw [hget, if_neg (by rw [hactive]; decide)]

theorem record_of_ok (hcheck : manager.kind.checkMail record = .ok ())
    (hrecord : surroundings.recordMail = none) :
    (surroundings.record manager.kind record world).result =
        .ok (decide (record.messageId ∉ world.messages)) ∧
      (surroundings.record manager.kind record world).final = world.insert record.messageId := by
  simp only [Surroundings.record, Process.step, hcheck, hrecord, and_self]

theorem mem_insert (world : MailWorld) (messageId : Text) :
    messageId ∈ (world.insert messageId).messages := by
  unfold MailWorld.insert
  split_ifs with hmem
  · exact hmem
  · exact List.mem_append_right _ (List.mem_singleton_self _)

theorem asked_insert (world : MailWorld) (messageId : Text) :
    (world.insert messageId).asked = world.asked := by
  unfold MailWorld.insert
  split_ifs <;> rfl

section

variable (hjob : surroundings.getJob = .ok job) (hactive : job.status.isTerminal = false)
  (hcheck : manager.kind.checkMail record = .ok ()) (hrecord : surroundings.recordMail = none)

include hjob hactive hcheck hrecord

theorem result_of_duplicate (hmem : record.messageId ∈ world.messages) :
    (surroundings.handleEmail manager record world).result = .ok (job, true) := by
  have hrecorded : (surroundings.record manager.kind record world).result = _ :=
    (record_of_ok hcheck hrecord).1
  rw [handleEmail_of_active hjob hactive, result_bind_of_ok hrecorded,
    if_pos (decide_eq_false (not_not.mpr hmem))]
  rfl

theorem handleEmail_of_new (hnew : record.messageId ∉ world.messages) :
    (surroundings.handleEmail manager record world).result =
        (surroundings.acceptMail manager record job (world.insert record.messageId)).result ∧
      (surroundings.handleEmail manager record world).final =
        (surroundings.acceptMail manager record job (world.insert record.messageId)).final := by
  obtain ⟨hrecorded, hfinal⟩ : (surroundings.record manager.kind record world).result = _ ∧ _ :=
    record_of_ok hcheck hrecord
  rw [decide_eq_true hnew] at hrecorded
  rw [handleEmail_of_active hjob hactive, result_bind_of_ok hrecorded, final_bind_of_ok hrecorded,
    hfinal]
  exact ⟨rfl, rfl⟩

end

/-- A call that cannot record the message ends with it. -/
theorem handleEmail_of_unrecorded {failure : ProvisioningError}
    (hjob : surroundings.getJob = .ok job) (hactive : job.status.isTerminal = false)
    (hresult : (surroundings.record manager.kind record world).result = .error failure) :
    (surroundings.handleEmail manager record world).result = .error failure ∧
      (surroundings.handleEmail manager record world).final =
        (surroundings.record manager.kind record world).final := by
  rw [handleEmail_of_active hjob hactive]
  exact ⟨result_bind_of_error hresult, final_bind_of_error hresult⟩

theorem final_acceptMail (hreached : (if job.status = .waitingForEmail then
      surroundings.applyEvent (.ofMail record.messageId) else .ok job) = .ok reached) :
    (surroundings.acceptMail manager record job world).final =
      (surroundings.continueAfterMail manager reached world).final := by
  have hreceive : ((surroundings.run manager (Threads.receiveMail surroundings.answers record job))
      world).result = .ok reached := by
    rw [run_receiveMail]
    exact hreached
  have hworld : ((surroundings.run manager (Threads.receiveMail surroundings.answers record job))
      world).final = world := by
    rw [run_receiveMail]
    rfl
  unfold acceptMail
  rw [final_bind_of_ok hreceive, hworld]
  exact final_bind_pure

theorem messages_acceptMail (job : ProvisioningJob) :
    (surroundings.acceptMail manager record job world).final.messages = world.messages := by
  cases hreached : (if job.status = .waitingForEmail then
      surroundings.applyEvent (.ofMail record.messageId) else .ok job) with
  | ok reached =>
    rw [final_acceptMail hreached, final_continueAfterMail]
    split_ifs <;> rfl
  | error failure =>
    have hreceive : ((surroundings.run manager (Threads.receiveMail surroundings.answers record
        job)) world).result = .error failure := by
      rw [run_receiveMail]
      exact hreached
    unfold acceptMail
    rw [final_bind_of_error hreceive, run_receiveMail]
    rfl

/-- The rest of a call answers no duplicate. -/
theorem result_acceptMail_ne (job last : ProvisioningJob) :
    (surroundings.acceptMail manager record job world).result ≠ .ok (last, true) := by
  intro h
  unfold acceptMail at h
  obtain ⟨received, -, hrest⟩ := result_bind_eq_ok.mp h
  obtain ⟨settled, -, hlast⟩ := result_bind_eq_ok.mp hrest
  cases hlast

end Ends

/-! ### When a message is left -/

section Redelivery

variable {surroundings manager} {world : MailWorld} {job reached : ProvisioningJob}
  {record : ProvisioningMailRecord}

/-- A job that waits for nothing. -/
def idleJob (providerType : Text) : ProvisioningJob :=
  { ProvisioningJob.new [] 0 ⟨providerType, [], 0, 0, []⟩ with status := .enrolling }

/-- Surroundings in which a delivery reaches the provisioner. -/
def clear (answers : Answers) (providerType : Text) : Surroundings where
  getJob := .ok (idleJob providerType)
  recordMail := none
  applyEvent := fun _ ↦ .error .notFound
  answers := answers

theorem reaches_clear (answers : Answers) {providerType : Text}
    (h : manager.registry providerType ≠ none) :
    Reaches manager (clear answers providerType) record (idleJob providerType) where
  active := ⟨idleJob providerType, rfl, rfl, rfl⟩
  recordMail := rfl
  provisioner := h

/-- A later delivery is handed on exactly when the store accepts the message and has not recorded
it. -/
theorem deliverable_iff (answers : Answers)
    (hprovisioner : ∃ providerType, manager.registry providerType ≠ none) :
    (∀ later reached, Reaches manager later record reached →
        (later.handleEmail manager record world).final.asked = world.asked ++ [reached] ∧
          ∀ job, (later.handleEmail manager record world).result ≠ .ok (job, true)) ↔
      manager.kind.checkMail record = .ok () ∧ record.messageId ∉ world.messages := by
  constructor
  · intro h
    obtain ⟨providerType, hregistered⟩ := hprovisioner
    obtain ⟨hasked, hresult⟩ := h _ _ (reaches_clear answers hregistered)
    cases hcheck : manager.kind.checkMail record with
    | error failure =>
      have hrecord : ((clear answers providerType).record manager.kind record world).result =
          .error failure ∧
          ((clear answers providerType).record manager.kind record world).final = world := by
        simp only [Surroundings.record, Process.step, hcheck, and_self]
      rw [(handleEmail_of_unrecorded rfl rfl hrecord.1).2, hrecord.2] at hasked
      exact absurd hasked (by simp)
    | ok value =>
      refine ⟨rfl, fun hmem ↦ hresult (idleJob providerType) ?_⟩
      exact result_of_duplicate rfl rfl hcheck rfl hmem
  · rintro ⟨hcheck, hnew⟩ later reached ⟨⟨job, hjob, hactive, hreached⟩, hrecord, hregistered⟩
    obtain ⟨hresult, hfinal⟩ := handleEmail_of_new hjob hactive hcheck hrecord hnew
    refine ⟨?_, fun last ↦ ?_⟩
    · rw [hfinal, final_acceptMail hreached, final_continueAfterMail, if_neg hregistered]
      exact congrArg (· ++ [reached]) (asked_insert world record.messageId)
    · rw [hresult]
      exact result_acceptMail_ne job last

theorem handleEmail_of_terminal (hjob : surroundings.getJob = .ok job)
    (hterminal : job.status.isTerminal = true) :
    surroundings.handleEmail manager record world = ⟨[], .ok (job, false), world⟩ := by
  unfold handleEmail
  have hget : ((query fun _ ↦ surroundings.getJob) >>= fun job ↦
      if job.status.isTerminal = true then (pure (job, false) : MailProcess _)
      else surroundings.record manager.kind record >>= fun accepted ↦
        if accepted = false then pure (job, true)
        else surroundings.acceptMail manager record job) world = _ := query_bind_of_ok hjob
  rw [hget, if_pos hterminal]
  rfl

theorem leaves_iff_of_active (hjob : surroundings.getJob = .ok job)
    (hactive : job.status.isTerminal = false) :
    (∀ failure, (surroundings.handleEmail manager record world).result = .error failure →
        manager.kind.checkMail record = .ok () ∧
          record.messageId ∉ (surroundings.handleEmail manager record world).final.messages) ↔
      manager.kind.checkMail record = .ok () ∧ match surroundings.recordMail with
        | some (.refused _) => record.messageId ∉ world.messages
        | some (.unanswered _) => False
        | none => record.messageId ∈ world.messages ∨
          surroundings.Completes manager record job := by
  cases hcheck : manager.kind.checkMail record with
  | error failure =>
    have hrecord : (surroundings.record manager.kind record world).result = .error failure := by
      simp only [Surroundings.record, Process.step, hcheck]
    refine iff_of_false (fun h ↦ ?_) fun h ↦ by cases h.1
    cases (h failure (handleEmail_of_unrecorded hjob hactive hrecord).1).1
  | ok value =>
    have haccepted : (.ok value : Except ProvisioningError Unit) = .ok () := rfl
    simp only [haccepted, true_and]
    cases hfault : surroundings.recordMail with
    | some fault =>
      cases fault with
      | refused failure =>
        have hrecord : (surroundings.record manager.kind record world).result = .error failure ∧
            (surroundings.record manager.kind record world).final = world := by
          simp only [Surroundings.record, Process.step, hcheck, hfault, and_self]
        obtain ⟨hresult, hfinal⟩ := handleEmail_of_unrecorded hjob hactive hrecord.1
        rw [hfinal, hrecord.2]
        exact ⟨fun h ↦ h failure hresult, fun h _ _ ↦ h⟩
      | unanswered failure =>
        have hrecord : (surroundings.record manager.kind record world).result = .error failure ∧
            (surroundings.record manager.kind record world).final =
              world.insert record.messageId := by
          simp only [Surroundings.record, Process.step, hcheck, hfault, and_self]
        obtain ⟨hresult, hfinal⟩ := handleEmail_of_unrecorded hjob hactive hrecord.1
        rw [hfinal, hrecord.2]
        exact iff_of_false (fun h ↦ h failure hresult (mem_insert world _)) not_false
    | none =>
      by_cases hmem : record.messageId ∈ world.messages
      · refine iff_of_true (fun failure hfailure ↦ ?_) (.inl hmem)
        rw [result_of_duplicate hjob hactive hcheck hfault hmem] at hfailure
        cases hfailure
      · obtain ⟨hresult, hfinal⟩ := handleEmail_of_new hjob hactive hcheck hfault hmem
        have hrecorded : record.messageId ∈
            (surroundings.handleEmail manager record world).final.messages := by
          rw [hfinal, messages_acceptMail]
          exact mem_insert world _
        -- The message is recorded, so all depends on whether the rest fails.
        dsimp only
        rw [or_iff_right hmem, ← exists_result_acceptMail, ← hresult]
        cases (surroundings.handleEmail manager record world).result with
        | ok last => exact iff_of_true (fun _ hfailure ↦ by cases hfailure) ⟨last, rfl⟩
        | error failure =>
          refine iff_of_false (fun h ↦ h failure rfl hrecorded) ?_
          rintro ⟨last, hlast⟩
          cases hlast

end Redelivery

end Surroundings

/-- A call that fails leaves the message to the next delivery exactly when it fails before the message
is recorded, and the message is one that the store accepts and has not recorded already. -/
theorem redelivered_iff {manager : ProvisioningManager}
    (hprovisioner : ∃ providerType, manager.registry providerType ≠ none)
    (record : ProvisioningMailRecord) (surroundings : Surroundings) (world : MailWorld) :
    Redelivered manager record surroundings world ↔
      surroundings.LeavesMessage manager record world := by
  have hiff : Redelivered manager record surroundings world ↔
      ∀ failure, (surroundings.handleEmail manager record world).result = .error failure →
        manager.kind.checkMail record = .ok () ∧
          record.messageId ∉ (surroundings.handleEmail manager record world).final.messages :=
    forall_congr' fun _ ↦ imp_congr_right fun _ ↦ 
      Surroundings.deliverable_iff surroundings.answers hprovisioner
  rw [hiff]
  unfold Surroundings.LeavesMessage
  cases hjob : surroundings.getJob with
  | error failure =>
    have hend : surroundings.handleEmail manager record world = ⟨[], .error failure, world⟩ :=
      query_bind_of_error hjob
    rw [hend]
    exact ⟨fun h ↦ h failure rfl, fun h _ _ ↦ h⟩
  | ok job =>
    dsimp only
    cases hactive : job.status.isTerminal with
    | true =>
      refine iff_of_true (fun failure hfailure ↦ ?_) (.inl rfl)
      have hend : (surroundings.handleEmail manager record world).result = .ok (job, false) := by
        rw [Surroundings.handleEmail_of_terminal hjob hactive]
      rw [hend] at hfailure
      cases hfailure
    | false =>
      rw [or_iff_right (by decide)]
      exact Surroundings.leaves_iff_of_active hjob hactive

/-! ### A lost message -/

section LostMail

/-- A database with one provisioner. -/
def databaseManager : ProvisioningManager where
  kind := .database
  registry := fun _ ↦ some ⟨true, true⟩
  emailDomain := "mail.test"
  aliasTtl := 0
  hashToken := id

/-- A mail whose id has 500 bytes. -/
def longMail : ProvisioningMailRecord where
  messageId := List.replicate 500 'm'
  bodySha256 := "digest"
  envelopeTo := "job"

/-- A job that waits for a mail, in the database and without a fault: an event is applied if its key
is valid. -/
def waiting : Surroundings where
  getJob := .ok { Surroundings.idleJob [] with status := .waitingForEmail }
  recordMail := none
  applyEvent := fun key ↦ do
    StoreKind.database.checkText key.text "event idempotency key"
    pure (Surroundings.idleJob [])
  answers :=
    { start := fun _ ↦ .error .notFound
      continueJob := fun _ ↦ .error .notFound
      validate := fun _ _ ↦ .error .notFound
      enroll := fun _ _ ↦ .error .notFound
      now := 0
      id := []
      localPart := [] }

/-- The id is short enough for a message, and too long for the key of its event: the call fails when
the message is recorded, and the next delivery is a duplicate. -/
theorem long_mail_lost : ¬ Redelivered databaseManager longMail waiting ⟨[], []⟩ := by
  intro h
  have hfails : (waiting.handleEmail databaseManager longMail ⟨[], []⟩).result.isOk = false := by
    decide +kernel
  have hrecorded : longMail.messageId ∈
      (waiting.handleEmail databaseManager longMail ⟨[], []⟩).final.messages := by
    decide +kernel
  have hcheck : databaseManager.kind.checkMail longMail = .ok () := by
    decide +kernel
  cases hresult : (waiting.handleEmail databaseManager longMail ⟨[], []⟩).result with
  | ok last =>
    rw [hresult] at hfails
    cases hfails
  | error failure =>
    have hregistered : databaseManager.registry [] ≠ none := Option.some_ne_none _
    obtain ⟨-, hnew⟩ :=
      h failure hresult _ _ (Surroundings.reaches_clear waiting.answers hregistered)
    exact hnew _ (Surroundings.result_of_duplicate rfl rfl hcheck rfl hrecorded)

/-- A store that is out of reach. -/
def unreachable : Surroundings := { waiting with getJob := .error .notFound }

/-- A call that fails before the message is recorded. -/
theorem redelivered_iff_unreachable :
    (∃ providerType, databaseManager.registry providerType ≠ none) ∧
      (Redelivered databaseManager longMail unreachable ⟨[], []⟩ ↔
        unreachable.LeavesMessage databaseManager longMail ⟨[], []⟩) := by
  have hprovisioner : ∃ providerType, databaseManager.registry providerType ≠ none :=
    ⟨[], Option.some_ne_none _⟩
  exact ⟨hprovisioner, redelivered_iff hprovisioner longMail unreachable ⟨[], []⟩⟩

end LostMail

end GameLauncher.Provisioning
