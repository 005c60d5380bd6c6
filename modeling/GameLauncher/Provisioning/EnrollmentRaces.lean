import GameLauncher.Provisioning.JobSoundness
import GameLauncher.Provisioning.Threads

/-!
# Enrollments that run into other calls

The calls for one job run interleaved, operation by operation. `validate_and_enroll` calls the
enroller between two events of the job: `enrollment-started-N` before it and `enrolled-N` after it.

`enrollment_recorded` shows that the job of an account that was added to a pool is `Enrolled` once
all calls have ended, in every run in which the enroller is called only while the job is `Enrolling`
or `Enrolled`, and in which, once an account is added, no cancellation, expiry or failure is applied
to the job while it is `Enrolling`.
-/

set_option autoImplicit false

namespace GameLauncher.Provisioning

open Foundation List

/-! ### The system -/

/-- The shared state and the calls that run on it. -/
abbrev CallPool : Type :=
  Pool Enrollments Operation Operation.Response ProvisioningError (Option ProvisioningJob)

/-- A new call, or the next operation of a call. -/
inductive PoolStep
  | start (call : Call)
  | run (thread : ℕ)

/-- No job, no account and no call. -/
def emptyPool : CallPool := ⟨.empty, []⟩

def poolStep (manager : ProvisioningManager) (pool : CallPool) : PoolStep → CallPool
  | .start call => pool.spawn (manager.program call)
  | .run thread => pool.run (Enrollments.perform manager.kind) thread

def Enrollments.status (shared : Enrollments) : Option ProvisioningStatus :=
  shared.store.job.map ProvisioningJob.status

/-- The events that take a job out of `Enrolling` other than by an enrollment. -/
def ProvisioningEvent.endsEnrolling : ProvisioningEvent → Bool
  | .retryableFailure .. | .permanentFailure .. | .needsOperator .. | .cancelled _ | .expired => true
  | _ => false

/-- The enroller adds an account only to a job that is `Enrolling` or `Enrolled`, and a job with an
account is not taken out of `Enrolling` by a cancellation, an expiry or a failure. -/
def Operation.KeepsEnrollment (shared : Enrollments) : Operation → Prop
  | .applyEvent _ event _ => shared.enrolled ≠ [] → shared.status = some .enrolling →
      event.endsEnrolling = false
  | .enroll _ _ (.ok ()) => shared.status = some .enrolling ∨ shared.status = some .enrolled
  | _ => True

instance (shared : Enrollments) : (operation : Operation) →
    Decidable (operation.KeepsEnrollment shared)
  | .applyEvent _ event _ => inferInstanceAs (Decidable (shared.enrolled ≠ [] →
      shared.status = some .enrolling → event.endsEnrolling = false))
  | .enroll _ _ (.ok ()) => inferInstanceAs (Decidable (shared.status = some .enrolling ∨
      shared.status = some .enrolled))
  | .enroll _ _ (.error _) | .createOrGetJob .. | .claimStart _ | .getJob | .recordMail _ =>
    isTrue trivial

/-- The condition on a step: the operation that is performed keeps the enrollment. -/
def Undisturbed (pool : CallPool) : PoolStep → Prop
  | .start _ => True
  | .run thread => ∀ operation ∈ pool.threads[thread]?.bind Program.head?,
      operation.KeepsEnrollment pool.shared

instance (pool : CallPool) : (action : PoolStep) → Decidable (Undisturbed pool action)
  | .start _ => isTrue trivial
  | .run thread => inferInstanceAs (Decidable
      (∀ operation ∈ pool.threads[thread]?.bind Program.head?,
        operation.KeepsEnrollment pool.shared))

/-! ### The discipline of the calls -/

def ProvisioningEvent.isEnrolled : ProvisioningEvent → Bool
  | .enrolled => true
  | _ => false

def RecordsEnrollment (kind : StoreKind) (operation : Operation) : Prop :=
  ∃ attempt now, operation = .applyEvent (.numbered .enrolled attempt) .enrolled now ∧
    attempt ≤ kind.maxAttempts

/-- The number of attempts is one that the store can keep. -/
def Countable (kind : StoreKind) (job : ProvisioningJob) : Prop :=
  job.attemptCount ≤ kind.maxAttempts

/-- The keys of enrollments are for enrollments, and a call that has added an account records the
enrollment next. -/
def enrollmentDiscipline (kind : StoreKind) : Discipline Operation Operation.Response where
  permitted
    | .applyEvent key event _ => (key.label == .enrolled) = event.isEnrolled
    | _ => True
  answers
    | .createOrGetJob .., found => ∀ job : ProvisioningJob, found = some job → Countable kind job
    | .claimStart _, found => ∀ job : ProvisioningJob, found = some job → Countable kind job
    | .getJob, job => Countable kind job
    | .applyEvent .., job => Countable kind job
    | _, _ => True
  obliges
    | .enroll .., .ok () => some (RecordsEnrollment kind)
    | _, _ => none

variable {event : ProvisioningEvent}

namespace Threads

variable {manager : ProvisioningManager} {answers : Answers} {kind : StoreKind}

theorem meets_applyEvent {key : EventKey} (h : (key.label == .enrolled) = event.isEnrolled) :
    (applyEvent answers key event).Meets (enrollmentDiscipline kind) (Countable kind) :=
  Program.meets_perform h fun _ ↦ rfl

theorem meets_getJob : getJob.Meets (enrollmentDiscipline kind) (Countable kind) :=
  @Program.meets_perform _ _ _ (enrollmentDiscipline kind) Operation.getJob trivial fun _ ↦ rfl

theorem meets_check {α : Type} (outcome : Except ProvisioningError α) :
    (check outcome).Meets (enrollmentDiscipline kind) fun _ ↦ True :=
  Program.meets_done fun _ _ ↦ trivial

theorem meets_enrollValidated {attempt : ℕ} {validated : ValidatedCapacity}
    (hattempt : attempt ≤ kind.maxAttempts) :
    (enrollValidated answers attempt validated).Meets (enrollmentDiscipline kind)
      (Countable kind) := by
  refine (meets_applyEvent rfl).bind fun _ _ ↦
    (meets_applyEvent rfl).bind fun job _ ↦ ⟨trivial, fun outcome _ ↦ ?_⟩
  cases outcome with
  | error failure =>
    exact ⟨Program.pays_none _, meets_applyEvent rfl⟩
  | ok value =>
    refine ⟨fun owed howed ↦ ?_, meets_applyEvent rfl⟩
    obtain rfl := Option.some.inj howed
    exact ⟨_, _, rfl, attempt, answers.now, rfl, hattempt⟩

variable {job : ProvisioningJob}

theorem meets_validateAndEnroll (hjob : Countable kind job) :
    (validateAndEnroll manager answers job).Meets (enrollmentDiscipline kind)
      (Countable kind) := by
  refine (meets_check _).bind fun _ _ ↦ (meets_applyEvent rfl).bind fun _ _ ↦
    (meets_check _).bind fun candidate _ ↦ ?_
  split
  · exact meets_applyEvent rfl
  · exact meets_enrollValidated hjob

theorem meets_applyResult (hjob : Countable kind job) (result : ProvisionerResult) :
    (applyResult manager answers job result).Meets (enrollmentDiscipline kind)
      (Countable kind) := by
  cases result with
  | waitingForEmail => exact hjob
  | candidateReady candidate =>
    exact (meets_applyEvent rfl).bind fun _ h ↦ meets_validateAndEnroll h
  | _ => exact meets_applyEvent rfl

theorem meets_awaitEmail :
    (awaitEmail manager answers job).Meets (enrollmentDiscipline kind) (Countable kind) :=
  (meets_check _).bind fun _ _ ↦ (meets_applyEvent rfl).bind fun _ _ ↦ meets_applyEvent rfl

theorem meets_startJob (hjob : Countable kind job) :
    (startJob manager answers job).Meets (enrollmentDiscipline kind) (Countable kind) := by
  unfold startJob
  split
  · exact meets_applyEvent rfl
  · exact meets_applyEvent rfl
  · exact meets_awaitEmail
  · exact meets_applyEvent rfl
  · exact meets_applyResult hjob _

theorem meets_continueAfterMail (hjob : Countable kind job) :
    (continueAfterMail manager answers job).Meets (enrollmentDiscipline kind)
      (Countable kind) := by
  unfold continueAfterMail
  split
  · exact meets_applyEvent rfl
  · exact meets_applyEvent rfl
  · exact meets_applyResult hjob _

theorem meets_handleEmail {record : ProvisioningMailRecord} :
    (handleEmail manager answers record).Meets (enrollmentDiscipline kind) fun _ ↦ True := by
  refine meets_getJob.bind fun job hjob ↦ ?_
  split
  · trivial
  · refine ⟨trivial, fun accepted _ ↦ ⟨Program.pays_none _, ?_⟩⟩
    unfold acceptMail
    split
    · trivial
    · have hreceive : (receiveMail answers record job).Meets (enrollmentDiscipline kind)
          (Countable kind) := by
        unfold receiveMail
        split
        · exact meets_applyEvent rfl
        · exact hjob
      exact hreceive.bind fun _ h ↦ (meets_continueAfterMail h).bind fun _ _ ↦ trivial

theorem meets_unlessTerminal {key : EventKey} (h : (key.label == .enrolled) = event.isEnrolled)
    (hjob : Countable kind job) :
    (if job.status.isTerminal then pure job else applyEvent answers key event :
      CallProgram ProvisioningJob).Meets (enrollmentDiscipline kind) (Countable kind) := by
  split
  · exact hjob
  · exact meets_applyEvent h

end Threads

open Threads in
theorem meets_program (manager : ProvisioningManager) (call : Call) :
    (manager.program call).Meets (enrollmentDiscipline manager.kind) fun _ ↦ True := by
  obtain ⟨request, answers⟩ := call
  cases request with
  | ensureCapacity request =>
    refine ⟨trivial, fun found hfound ↦ ⟨Program.pays_none _, ?_⟩⟩
    cases found with
    | none => trivial
    | some job =>
      simp only
      split
      · trivial
      · refine ⟨trivial, fun claimed hclaimed ↦ ⟨Program.pays_none _, ?_⟩⟩
        cases claimed with
        | none => exact meets_getJob.bind fun _ _ ↦ trivial
        | some job => exact (meets_startJob (hclaimed job rfl)).bind fun _ _ ↦ trivial
  | retryJob =>
    have hretry : (retryJob manager answers).Meets (enrollmentDiscipline manager.kind)
        (Countable manager.kind) :=
      meets_getJob.bind fun _ _ ↦ (meets_check _).bind fun _ _ ↦
        (meets_applyEvent rfl).bind fun _ h ↦ meets_startJob h
    exact hretry.bind fun _ _ ↦ trivial
  | completeManual candidate =>
    have hcomplete : (completeManual manager answers candidate).Meets
        (enrollmentDiscipline manager.kind) (Countable manager.kind) :=
      meets_getJob.bind fun _ _ ↦ (meets_check _).bind fun _ _ ↦
        (meets_applyEvent rfl).bind fun _ h ↦ meets_validateAndEnroll h
    exact hcomplete.bind fun _ _ ↦ trivial
  | handleEmail record => exact meets_handleEmail.bind fun _ _ ↦ trivial
  | cancelJob summary =>
    have hcancel : (cancelJob answers summary).Meets (enrollmentDiscipline manager.kind)
        (Countable manager.kind) :=
      meets_getJob.bind fun _ h ↦ meets_unlessTerminal rfl h
    exact hcancel.bind fun _ _ ↦ trivial
  | expireJob =>
    have hexpire : (expireJob answers).Meets (enrollmentDiscipline manager.kind)
        (Countable manager.kind) :=
      meets_getJob.bind fun _ h ↦ meets_unlessTerminal rfl h
    exact hexpire.bind fun _ _ ↦ trivial
  | otherMail record => exact ⟨trivial, fun _ _ ↦ ⟨Program.pays_none _, trivial⟩⟩

/-! ### What an operation does to the job -/

/-- Everything an operation can do to the job and the keys of its events. -/
inductive StoreEffect (kind : StoreKind) (operation : Operation) (store final : JobStore) : Prop
  | kept (job : final.job = store.job) (keys : final.keys = store.keys)
  | created {id : Text} {now : ℤ} {request : ProvisionRequest} (absent : store.job = none)
      (job : final.job = some (.new id now request)) (keys : final.keys = store.keys)
  | applied {before after : ProvisioningJob} {key : EventKey} {event : ProvisioningEvent}
      (performed : event = .start ∨ ∃ now, operation = .applyEvent key event now)
      (held : store.job = some before) (named : (key.label == .enrolled) = event.isEnrolled)
      (transition : Transition event before.status after.status) (countable : Countable kind after)
      (job : final.job = some after) (keys : final.keys = store.keys ++ [key.text])

/-- What is true of the store, whatever runs: a job that is created has no attempts, and a recorded
enrollment is one of an enrolled job. -/
structure Recorded (kind : StoreKind) (store : JobStore) : Prop where
  countable : ∀ job, store.job = some job → Countable kind job
  created : ∀ job, store.job = some job → job.status = .created → job.attemptCount = 0
  enrolled : ∀ attempt, (EventKey.numbered .enrolled attempt).text ∈ store.keys →
    store.job.map ProvisioningJob.status = some .enrolled

theorem Transition.ne_created {status after : ProvisioningStatus}
    (h : Transition event status after) : after ≠ .created := by
  cases h <;> exact ProvisioningStatus.noConfusion

theorem Transition.enrolled_iff {status after : ProvisioningStatus} :
    Transition .enrolled status after ↔ status = .enrolling ∧ after = .enrolled := by
  constructor
  · intro h
    cases h
    exact ⟨rfl, rfl⟩
  · rintro ⟨rfl, rfl⟩
    exact .enrolled

theorem isEnrolled_iff : event.isEnrolled = true ↔ event = .enrolled := by
  cases event <;> simp [ProvisioningEvent.isEnrolled]

variable {kind : StoreKind} {store : JobStore}

theorem storeEffect_claimStart (h : Recorded kind store) (now : ℤ) :
    StoreEffect kind (.claimStart now) store (kind.claimStart now store).final ∧
      ∀ job, (kind.claimStart now store).result = .ok (some job) → Countable kind job := by
  simp only [StoreKind.claimStart, Process.step]
  split
  · refine ⟨.kept rfl rfl, fun job hjob ↦ ?_⟩
    split_ifs at hjob
    cases hjob
  · next job hheld =>
    split_ifs with hstatus
    · exact ⟨.kept rfl rfl, fun _ hjob ↦ by cases hjob⟩
    · rw [Decidable.not_not] at hstatus
      cases happly : job.applyEventAt .start now with
      | error failure => exact ⟨.kept rfl rfl, fun _ hjob ↦ by cases hjob⟩
      | ok outcome =>
        obtain ⟨updated, transition⟩ := outcome
        obtain ⟨htransition, hupdated⟩ := applyEventAt_eq_ok happly
        have hattempts : updated.attemptCount = saturatingSucc job.attemptCount :=
          congrArg ProvisioningJob.attemptCount hupdated
        have hcountable : Countable kind updated := by
          rw [Countable, hattempts, h.created job hheld hstatus]
          cases kind <;> decide
        refine ⟨@StoreEffect.applied _ _ _ _ job updated (.plain .jobStart) .start (.inl rfl)
          hheld rfl htransition hcountable rfl ?_, fun made hmade ↦ ?_⟩
        · simp only [StoreKind.push, JobStore.keys, map_append, map_cons, map_nil]
        · obtain rfl := Option.some.inj (Except.ok.inj hmade)
          exact hcountable

theorem storeEffect_onStore (h : Recorded kind store) (operation : Operation)
    (hpermitted : (enrollmentDiscipline kind).permitted operation) :
    StoreEffect kind operation store (operation.onStore kind store).final ∧
      ∀ response, (operation.onStore kind store).result = .ok response →
        (enrollmentDiscipline kind).answers operation response := by
  cases operation with
  | createOrGetJob id now request =>
    simp only [Operation.onStore, StoreKind.createOrGetJob, Process.step]
    split
    · exact ⟨.kept rfl rfl, fun _ hresponse ↦ by cases hresponse⟩
    · split
      · next hnone =>
        refine ⟨.created hnone rfl rfl, fun response hresponse job hjob ↦ ?_⟩
        cases hresponse
        cases hjob
        exact Nat.zero_le _
      · next job hheld =>
        split_ifs
        · refine ⟨.kept rfl rfl, fun response hresponse made hmade ↦ ?_⟩
          cases hresponse
          cases hmade
          exact h.countable job hheld
        · refine ⟨.kept rfl rfl, fun response hresponse made hmade ↦ ?_⟩
          cases hresponse
          cases hmade
  | claimStart now =>
    obtain ⟨heffect, hresponse⟩ := storeEffect_claimStart h now
    refine ⟨heffect, fun response hresult job hjob ↦ hresponse job ?_⟩
    rw [← hjob]
    exact hresult
  | getJob =>
    refine ⟨.kept rfl rfl, fun job hresult ↦ ?_⟩
    cases hheld : store.job with
    | none =>
      simp only [Operation.onStore, StoreKind.getJob, Process.query, hheld] at hresult
      cases hresult
    | some job =>
      simp only [Operation.onStore, StoreKind.getJob, Process.query, hheld] at hresult
      cases hresult
      exact h.countable _ hheld
  | applyEvent key event now =>
    cases hheld : store.job with
    | none =>
      have hfails : ∃ failure, kind.applyEvent key event now store =
          ⟨[store], .error failure, store⟩ := by
        simp only [StoreKind.applyEvent, Process.step, hheld]
        split
        · exact ⟨_, rfl⟩
        · exact ⟨_, rfl⟩
        · next job hjob => cases hjob
      obtain ⟨failure, hfails⟩ := hfails
      simp only [Operation.onStore, hfails]
      exact ⟨.kept rfl rfl, fun _ hresponse ↦ by cases hresponse⟩
    | some job =>
      rcases @applyEvent_cases kind store job key event now hheld with ⟨hfinal, hresult⟩ |
        ⟨updated, transition, -, happly, hlimit, hresult, hfinal⟩
      · refine ⟨.kept (congrArg JobStore.job hfinal) (congrArg JobStore.keys hfinal),
          fun response hresponse ↦ ?_⟩
        obtain rfl := hresult response hresponse
        exact h.countable _ hheld
      · refine ⟨@StoreEffect.applied _ _ _ _ job updated key event (.inr ⟨now, rfl⟩) hheld hpermitted (applyEventAt_eq_ok happly).1 hlimit
          (congrArg JobStore.job hfinal) ?_, fun response hresponse ↦ ?_⟩
        · refine (congrArg JobStore.keys hfinal).trans ?_
          simp only [StoreKind.push, JobStore.keys, map_append, map_cons, map_nil]
        · obtain rfl := Except.ok.inj (hresult.symm.trans hresponse)
          exact hlimit
  | recordMail record =>
    refine ⟨?_, fun _ _ ↦ trivial⟩
    simp only [Operation.onStore, StoreKind.recordMail, Process.step]
    split
    · exact .kept rfl rfl
    · split_ifs <;> exact .kept rfl rfl
  | enroll poolId validated outcome => exact ⟨.kept rfl rfl, fun _ _ ↦ trivial⟩

variable {operation : Operation}

theorem Recorded.of_effect (h : Recorded kind store) {final : JobStore}
    (heffect : StoreEffect kind operation store final) : Recorded kind final := by
  cases heffect with
  | kept hjob hkeys =>
    refine ⟨?_, ?_, ?_⟩
    · rw [hjob]; exact h.countable
    · rw [hjob]; exact h.created
    · rw [hjob, hkeys]; exact h.enrolled
  | created habsent hjob hkeys =>
    refine ⟨fun job hsome ↦ ?_, fun job hsome _ ↦ ?_, fun attempt hkey ↦ ?_⟩
    · obtain rfl := Option.some.inj (hjob.symm.trans hsome)
      exact Nat.zero_le _
    · obtain rfl := Option.some.inj (hjob.symm.trans hsome)
      rfl
    · rw [hkeys] at hkey
      have hheld := h.enrolled attempt hkey
      rw [habsent] at hheld
      cases hheld
  | @applied before after key event _ hheld hnamed htransition hcountable hjob hkeys =>
    refine ⟨fun job hsome ↦ ?_, fun job hsome hcreated ↦ ?_, fun attempt hkey ↦ ?_⟩
    · obtain rfl := Option.some.inj (hjob.symm.trans hsome)
      exact hcountable
    · obtain rfl := Option.some.inj (hjob.symm.trans hsome)
      exact absurd hcreated htransition.ne_created
    · rw [hjob, Option.map_some]
      rw [hkeys, mem_append, mem_singleton] at hkey
      rcases hkey with hold | hnew
      · have hstatus := h.enrolled attempt hold
        rw [hheld, Option.map_some, Option.some.injEq] at hstatus
        have hactive := htransition.isTerminal
        rw [hstatus] at hactive
        cases hactive
      · obtain rfl := EventKey.text_injective hnew
        obtain rfl := isEnrolled_iff.mp hnamed.symm
        rw [(Transition.enrolled_iff.mp htransition).2]

theorem status_of_effect {final : JobStore} (heffect : StoreEffect kind operation store final)
    (hstatus : store.job.map ProvisioningJob.status = some .enrolling ∨
      store.job.map ProvisioningJob.status = some .enrolled)
    (hkeeps : ∀ key event now, operation = .applyEvent key event now →
      store.job.map ProvisioningJob.status = some .enrolling → event.endsEnrolling = false) :
    (final.job.map ProvisioningJob.status = some .enrolling ∧
        store.job.map ProvisioningJob.status = some .enrolling) ∨
      final.job.map ProvisioningJob.status = some .enrolled := by
  cases heffect with
  | kept hjob hkeys =>
    rw [hjob]
    rcases hstatus with h | h
    · exact .inl ⟨h, h⟩
    · exact .inr h
  | created habsent hjob hkeys =>
    rw [habsent] at hstatus
    rcases hstatus with h | h <;> cases h
  | @applied before after key event hperformed hheld hnamed htransition hcountable hjob hkeys =>
    rw [hheld, Option.map_some] at hstatus hkeeps ⊢
    rw [hjob, Option.map_some]
    rcases hstatus with h | h
    · have hbefore : before.status = .enrolling := Option.some.inj h
      have hends : event.endsEnrolling = false := by
        rcases hperformed with rfl | ⟨now, hoperation⟩
        · rfl
        · exact hkeeps key event now hoperation h
      rw [hbefore] at htransition ⊢
      generalize after.status = reached at htransition ⊢
      cases htransition with
      | enrollmentStarted => exact .inl ⟨rfl, rfl⟩
      | enrolled => exact .inr rfl
      | awaitingEmail h => rcases h with h | h <;> cases h
      | providerReady h => rcases h with h | h <;> cases h
      | candidateReady h => rcases h with h | h <;> cases h
      | _ => cases hends
    · have hactive := htransition.isTerminal
      rw [Option.some.inj h] at hactive
      cases hactive

theorem status_of_recordsEnrollment (h : Recorded kind store)
    (hoperation : RecordsEnrollment kind operation)
    (hstatus : store.job.map ProvisioningJob.status = some .enrolling) :
    (operation.onStore kind store).final.job.map ProvisioningJob.status = some .enrolled := by
  obtain ⟨attempt, now, rfl, hattempt⟩ := hoperation
  obtain ⟨job, hjob, henrolling⟩ := Option.map_eq_some_iff.mp hstatus
  have hkey : (EventKey.numbered .enrolled attempt).text ∉ store.keys := by
    intro hkey
    have henrolled := h.enrolled attempt hkey
    rw [hstatus] at henrolled
    cases henrolled
  have htransition : Transition .enrolled job.status .enrolled := by
    rw [henrolling]
    exact .enrolled
  obtain ⟨updated, transition, -, hupdated, -, hfinal⟩ :=
    @applyEvent_of_transition .enrolled kind store job _ .enrolled now
      (checkText_numbered hattempt _) hjob hkey htransition fun updated transition happly ↦ by
        rw [(applyEventAt_eq_ok happly).2]
        exact h.countable job hjob
  have hlast : (Operation.onStore kind (.applyEvent (.numbered .enrolled attempt) .enrolled now)
      store).final.job = some updated := congrArg JobStore.job hfinal
  rw [hlast, Option.map_some, hupdated]

/-! ### Runs -/

/-- The invariant of the runs: while the job of an account is `Enrolling`, some call is about to
record the enrollment. -/
structure Accounted (kind : StoreKind) (pool : CallPool) : Prop where
  meets : pool.Meets (enrollmentDiscipline kind)
  recorded : Recorded kind pool.shared.store
  status : pool.shared.enrolled ≠ [] →
    pool.shared.status = some .enrolling ∨ pool.shared.status = some .enrolled
  pending : pool.shared.enrolled ≠ [] → pool.shared.status = some .enrolling →
    ∃ operation next, Program.call operation next ∈ pool.threads ∧ RecordsEnrollment kind operation

theorem accounted_empty (kind : StoreKind) : Accounted kind emptyPool where
  meets := fun _ h ↦ by cases h
  recorded := ⟨fun _ h ↦ (by cases h), fun _ h ↦ (by cases h), fun _ h ↦ (by cases h)⟩
  status := fun h ↦ absurd rfl h
  pending := fun h ↦ absurd rfl h

theorem enroll_of_accounts (h : operation.accounts ≠ []) :
    ∃ poolId validated, operation = .enroll poolId validated (.ok ()) := by
  cases operation with
  | enroll poolId validated outcome =>
    cases outcome with
    | ok value => exact ⟨poolId, validated, rfl⟩
    | error failure => exact absurd rfl h
  | _ => exact absurd rfl h

theorem Accounted.run {pool : CallPool} (h : Accounted kind pool) {thread : ℕ}
    {next : operation.Response → CallProgram (Option ProvisioningJob)}
    (hthread : pool.threads[thread]? = some (.call operation next))
    (hkeeps : operation.KeepsEnrollment pool.shared) :
    Accounted kind (pool.run (Enrollments.perform kind) thread) := by
  have hmeets := h.meets _ (mem_of_getElem? hthread)
  obtain ⟨heffect, hanswers⟩ := storeEffect_onStore h.recorded operation hmeets.1
  have hrun := @Pool.run_of_call _ _ _ _ _ (Enrollments.perform kind) pool thread operation next
    hthread
  have hstatusAfter : (pool.run (Enrollments.perform kind) thread).shared.status =
      (operation.onStore kind pool.shared.store).final.job.map ProvisioningJob.status := by
    rw [hrun]
    rfl
  have henrolledAfter : (pool.run (Enrollments.perform kind) thread).shared.enrolled =
      pool.shared.enrolled ++ operation.accounts := by
    rw [hrun]
    rfl
  -- With an account, the job was `Enrolling` or `Enrolled` before the operation.
  have hbefore : (pool.run (Enrollments.perform kind) thread).shared.enrolled ≠ [] →
      pool.shared.status = some .enrolling ∨ pool.shared.status = some .enrolled := by
    rw [henrolledAfter]
    intro henrolled
    by_cases hempty : pool.shared.enrolled = []
    · rw [hempty, nil_append] at henrolled
      obtain ⟨poolId, validated, rfl⟩ := enroll_of_accounts henrolled
      exact hkeeps
    · exact h.status hempty
  have hkept : (pool.run (Enrollments.perform kind) thread).shared.enrolled ≠ [] →
      ((pool.run (Enrollments.perform kind) thread).shared.status = some .enrolling ∧
        pool.shared.status = some .enrolling) ∨
      (pool.run (Enrollments.perform kind) thread).shared.status = some .enrolled := by
    intro henrolled
    rw [hstatusAfter]
    refine status_of_effect heffect (hbefore henrolled) ?_
    rintro key event now rfl hstatus
    rw [henrolledAfter] at henrolled
    exact hkeeps (by simpa [Operation.accounts] using henrolled) hstatus
  refine ⟨?_, ?_, fun henrolled ↦ ?_, fun henrolled hstatus ↦ ?_⟩
  · exact Pool.meets_run h.meets fun other response hpermitted hresponse ↦
      (storeEffect_onStore h.recorded other hpermitted).2 response hresponse
  · rw [hrun]
    exact h.recorded.of_effect heffect
  · exact (hkept henrolled).imp_left And.left
  · rcases hkept henrolled with ⟨-, hold⟩ | hdone
    · by_cases haccounts : operation.accounts = []
      · -- Another thread is still about to record the enrollment.
        rw [henrolledAfter, haccounts, append_nil] at henrolled
        obtain ⟨owed, rest, howed, hrecords⟩ := h.pending henrolled hold
        have hother : Program.call owed rest ≠ .call operation next := by
          intro hsame
          obtain ⟨rfl, -⟩ := Program.call.inj hsame
          have hdone := status_of_recordsEnrollment h.recorded hrecords hold
          rw [← hstatusAfter, hstatus] at hdone
          cases hdone
        obtain ⟨index, hindex⟩ := List.getElem?_of_mem howed
        have hne : thread ≠ index := by
          rintro rfl
          exact hother (Option.some.inj (hindex.symm.trans hthread))
        refine ⟨owed, rest, ?_, hrecords⟩
        rw [hrun]
        exact mem_of_getElem? ((List.getElem?_set_ne hne).trans hindex)
      · -- This thread has just added the account.
        obtain ⟨poolId, validated, rfl⟩ := enroll_of_accounts haccounts
        obtain ⟨owed, rest, hnext, hrecords⟩ := (hmeets.2 (.ok ()) trivial).1 _ rfl
        refine ⟨owed, rest, ?_, hrecords⟩
        rw [← hnext, hrun]
        exact mem_set (List.getElem?_eq_some_iff.mp hthread).1 _
    · rw [hstatus] at hdone
      cases hdone

theorem Accounted.step {manager : ProvisioningManager} {pool : CallPool}
    (h : Accounted manager.kind pool) {action : PoolStep} (hundisturbed : Undisturbed pool action) :
    Accounted manager.kind (poolStep manager pool action) := by
  cases action with
  | start call =>
    exact ⟨Pool.meets_spawn h.meets (meets_program manager call), h.recorded, h.status,
      fun henrolled hstatus ↦
        let ⟨operation, next, hmem, hrecords⟩ := h.pending henrolled hstatus
        ⟨operation, next, mem_append_left _ hmem, hrecords⟩⟩
  | run thread =>
    cases hthread : pool.threads[thread]? with
    | none => simpa only [poolStep, Pool.run, hthread] using h
    | some program =>
      cases program with
      | done result => simpa only [poolStep, Pool.run, hthread] using h
      | call operation next =>
        exact h.run hthread (hundisturbed operation (by rw [hthread]; rfl))

/-- An account that was added to a pool is recorded: its job is `Enrolling` or `Enrolled` in every
state, and `Enrolled` once all calls have ended, in every run in which nothing disturbs the
enrollment. -/
theorem enrollment_recorded (manager : ProvisioningManager) (steps : List PoolStep)
    (hpermitted : Permitted (poolStep manager) Undisturbed emptyPool steps)
    (henrolled : (steps.foldl (poolStep manager) emptyPool).shared.enrolled ≠ []) :
    ((steps.foldl (poolStep manager) emptyPool).shared.status = some .enrolling ∨
      (steps.foldl (poolStep manager) emptyPool).shared.status = some .enrolled) ∧
    ((steps.foldl (poolStep manager) emptyPool).isIdle = true →
      (steps.foldl (poolStep manager) emptyPool).shared.status = some .enrolled) := by
  have h : Accounted manager.kind (steps.foldl (poolStep manager) emptyPool) :=
    Reaches.invariant (Accounted manager.kind) (accounted_empty manager.kind)
      (fun _ _ haccounted hundisturbed ↦ haccounted.step hundisturbed)
      (Reaches.refl.foldl hpermitted)
  refine ⟨h.status henrolled, fun hidle ↦ ?_⟩
  rcases h.status henrolled with hstatus | hstatus
  · obtain ⟨operation, next, hmem, -⟩ := h.pending henrolled hstatus
    exact absurd (all_eq_true.mp hidle _ hmem) Bool.false_ne_true
  · exact hstatus

/-! ### A cancelled enrollment -/

section Cancelled

/-- The capacity of the candidate is validated and added to the pool. -/
def enrollingAnswers : Answers :=
  { noAnswers with
    start := fun _ ↦ .ok .waitingForEmail
    continueJob := fun _ ↦ .ok (.candidateReady
      ⟨"mega", "account", "secret", 1, []⟩)
    validate := fun candidate bytes ↦ .ok ⟨candidate, bytes⟩
    enroll := fun _ _ ↦ .ok () }

/-- A job waits for its mail; the mail arrives, and the enroller has added the account. -/
def untilEnrolled : List PoolStep :=
  .start ⟨.ensureCapacity ⟨"mega", "pool", 1, 1, "key"⟩, enrollingAnswers⟩ ::
    List.replicate 4 (.run 0) ++
    .start ⟨.handleEmail ⟨"message", "digest", "recipient"⟩,
      enrollingAnswers⟩ :: List.replicate 8 (.run 1)

/-- An operator cancels the job before the enrollment is recorded. -/
def cancelledEnrollment : List PoolStep :=
  untilEnrolled ++ .start ⟨.cancelJob "cancelled", noAnswers⟩ ::
    [.run 2, .run 2, .run 1]

theorem enrollment_recorded_alone :
    ((untilEnrolled ++ [PoolStep.run 1]).foldl (poolStep oneProvisioner) emptyPool).isIdle = true ∧
      ((untilEnrolled ++ [PoolStep.run 1]).foldl (poolStep oneProvisioner) emptyPool).shared.status =
        some .enrolled :=
  have hidle : ((untilEnrolled ++ [PoolStep.run 1]).foldl (poolStep oneProvisioner) emptyPool).isIdle =
      true := by decide
  ⟨hidle, (enrollment_recorded oneProvisioner (untilEnrolled ++ [PoolStep.run 1]) (by decide)
    (by decide)).2 hidle⟩

/-- The account is added to the pool, and the job ends `Cancelled`. -/
theorem enrollment_cancelled :
    ¬ ∀ (manager : ProvisioningManager) (steps : List PoolStep),
      (steps.foldl (poolStep manager) emptyPool).shared.enrolled ≠ [] →
      (steps.foldl (poolStep manager) emptyPool).isIdle = true →
      (steps.foldl (poolStep manager) emptyPool).shared.status = some .enrolled := by
  intro h
  have hstatus : (cancelledEnrollment.foldl (poolStep oneProvisioner) emptyPool).shared.status =
      some .cancelled := by decide
  rw [h oneProvisioner cancelledEnrollment (by decide) (by decide)] at hstatus
  cases hstatus

end Cancelled

end GameLauncher.Provisioning
