import GameLauncher.Provisioning.JobHistory

/-!
# Which histories lose an answer of the provisioner

A history of calls is sound exactly when every call of it is handled (`sound_iff`). Keys without the
number of the attempt are what makes the condition necessary: in `second_failure_is_lost`, the
shortest such history, the key of the first failure swallows the second one.
-/

set_option autoImplicit false

namespace GameLauncher.Provisioning

open Foundation Fallible List EventKey
open Process ProvisioningManager

/-! ### One call -/

section Calls

variable {manager : ProvisioningManager} {answers : Answers} {store : JobStore}
  {job : ProvisioningJob}

/-- What a call does to an idle store: it leaves an idle store and a kept result when the call is
handled, and loses the job otherwise. -/
def StepsWell (manager : ProvisioningManager) (store : JobStore) (call : Call) : Prop :=
  (Handled manager store call → Idle manager.kind (next manager store call) ∧
    ResultKept manager store call) ∧
  (¬ Handled manager store call → IsLost (next manager store call))

theorem isStarting_of_calm (h : Calm manager.kind store job) : ¬ IsStarting store := by
  rintro ⟨other, hother, hstatus⟩
  rw [h.coherent.held, Option.some.injEq] at hother
  have hrests := h.rests
  rw [hother, hstatus] at hrests
  cases hrests

variable {call : Call}

theorem resultKept_of_visited
    (h : ∀ reached ∈ (manager.perform call store).visited, ¬ IsStarting reached) :
    ResultKept manager store call := by
  rintro - - ⟨reached, hreached, hstarting⟩
  exact absurd hstarting (h reached hreached)

theorem resultKept_of_not_starts (h : call.request.starts = false) :
    ResultKept manager store call := by
  intro hstarts
  rw [h] at hstarts
  cases hstarts

variable {now : ℤ} {request : ProvisionRequest}

theorem entered_of_new {id : Text} (hevents : store.events = []) :
    ∃ started, ((manager.kind.claimStart now)
        { store with job := some (.new id now request) }).result = .ok (some started) ∧
      started.request = request ∧
      Entered manager.kind ((manager.kind.claimStart now)
        { store with job := some (.new id now request) }).final started ∧
      ((manager.kind.claimStart now)
        { store with job := some (.new id now request) }).final.keys =
          [(plain .jobStart).text] := by
  refine ⟨{ ProvisioningJob.new id now request with
      status := .starting, attemptCount := 1, startedAt := some now, updatedAt := now },
    rfl, rfl, ?_, ?_⟩
  · have hkeys : ((manager.kind.claimStart now)
        { store with job := some (.new id now request) }).final.keys =
          [(plain .jobStart).text] := by
      change (store.events ++ _).map _ = _
      rw [hevents]
      rfl
    have hone : ∀ key : EventKey, key.text ∈ ((manager.kind.claimStart now)
        { store with job := some (.new id now request) }).final.keys → key = .plain .jobStart := by
      intro key hkey
      rw [hkeys, mem_singleton] at hkey
      exact text_injective hkey
    refine ⟨⟨rfl, ?_, ?_, ?_, ?_, ?_, ?_, ?_⟩, rfl, ?_⟩
    · show 1 ≤ manager.kind.maxAttempts
      cases manager.kind <;> decide
    · exact fun label attempt _ hmem ↦ absurd (hone _ hmem) numbered_ne_plain
    · intro htwo
      exact absurd (show 2 ≤ 1 from htwo) (by decide)
    · intro _ label hfinal hmem
      rw [plain_eq_plain.mp (hone _ hmem)] at hfinal
      cases hfinal
    · intro hmem
      cases plain_eq_plain.mp (hone _ hmem)
    · rintro ⟨⟩
    · intro messageId hmem
      cases congrArg EventKey.label (hone _ hmem)
    · exact fun label _ _ hmem ↦ absurd (hone _ hmem) numbered_ne_plain
  · change (store.events ++ _).map _ = _
    rw [hevents]
    rfl

theorem startHandled_congr {keys others : List Text}
    (h : ∀ label, label = .needsOperator ∨ label = .provisionerFailedRetryable →
      ((plain label).text ∈ keys ↔ (plain label).text ∈ others)) :
    StartHandled manager answers keys request ↔ StartHandled manager answers others request := by
  unfold StartHandled
  split
  · rfl
  · rfl
  · rfl
  · rfl
  · rfl
  · rfl
  · exact not_congr (h _ (.inl rfl))
  · exact not_congr (h _ (.inr rfl))

theorem mailHandled_congr {keys others : List Text}
    (h : ∀ label, label = .needsOperator ∨ label = .provisionerFailedRetryable ∨
      label = .provisionerEmailFailed →
      ((plain label).text ∈ keys ↔ (plain label).text ∈ others)) :
    MailHandled manager answers keys job ↔ MailHandled manager answers others job := by
  unfold MailHandled
  split
  · rfl
  · rfl
  · rfl
  · rfl
  · exact not_congr (h _ (.inr (.inr rfl)))
  · rfl
  · exact not_congr (h _ (.inl rfl))
  · exact not_congr (h _ (.inr (.inl rfl)))

theorem stepsWell_of_start {started : ProvisioningJob}
    (hentered : Entered manager.kind store started) {before : JobStore}
    (hfinal : (manager.perform call before).final =
      (manager.startJob call.answers started store).final) (hhandled : Handled manager before call ↔
      StartHandled manager call.answers store.keys started.request) :
    StepsWell manager before call := by
  constructor
  · intro h
    obtain ⟨last, hcalm, hrequest, hlatest⟩ := startsWell hentered (hhandled.mp h)
    unfold next ResultKept
    rw [hfinal]
    refine ⟨.inr ⟨last, hcalm⟩, fun _ _ _ _ _ ↦ ⟨last, hcalm.coherent.held, ?_, ?_⟩⟩
    · intro hstarting
      exact isStarting_of_calm hcalm ⟨last, hcalm.coherent.held, hstarting⟩
    · rw [hrequest]
      exact hlatest
  · intro h
    have hlost := isStarting_of_not_startHandled hentered (mt hhandled.mpr h)
    unfold next
    rw [hfinal, hlost]
    exact ⟨started, hentered.coherent.held, .inl hentered.starting⟩

theorem stepsWell_of_ensures (hhandled : Handled manager store call)
    (h : Ensures (fun state ↦ state = store) (manager.perform call) (fun state ↦ ¬ IsStarting state)
      (fun _ ↦ Idle manager.kind) fun _ ↦ Idle manager.kind) : StepsWell manager store call := by
  obtain ⟨hvisited, hok, herror⟩ := h store rfl
  refine ⟨fun _ ↦ ⟨?_, resultKept_of_visited hvisited⟩, fun hnot ↦ absurd hhandled hnot⟩
  unfold next
  cases hresult : (manager.perform call store).result with
  | ok answer => exact hok answer hresult
  | error failure => exact herror failure hresult

variable {attempt : ℕ}

theorem CalmAt.idle (h : CalmAt manager.kind attempt store) :
    Idle manager.kind store := .inr h.exists

theorem not_isStarting_of_idle (h : Idle manager.kind store) : ¬ IsStarting store := by
  rcases h with ⟨hnone, -⟩ | ⟨other, hcalm⟩
  · rintro ⟨job, hjob, -⟩
    rw [hnone] at hjob
    cases hjob
  · exact isStarting_of_calm hcalm

variable {kind : StoreKind}

theorem createOrGetJob_of_some {id : Text} (hjob : store.job = some job) :
    (kind.createOrGetJob id now request store).final = store ∧
      ∀ found, (kind.createOrGetJob id now request store).result = .ok found →
        found = none ∨ found = some job := by
  unfold StoreKind.createOrGetJob Process.step
  dsimp only
  rw [hjob]
  cases kind.checkRequest now request with
  | error failure =>
    refine ⟨rfl, fun found hfound ↦ ?_⟩
    cases hfound
  | ok value =>
    dsimp only
    split_ifs
    · exact ⟨rfl, fun found hfound ↦ .inr (Except.ok.inj hfound).symm⟩
    · exact ⟨rfl, fun found hfound ↦ .inl (Except.ok.inj hfound).symm⟩

theorem stepsWell_ensureCapacity_of_calm (h : Calm manager.kind store job) :
    StepsWell manager store ⟨.ensureCapacity request, answers⟩ := by
  have hidle : Idle manager.kind store := .inr ⟨job, h⟩
  have hhandled : Handled manager store ⟨.ensureCapacity request, answers⟩ := by
    intro hnone
    rw [h.coherent.held] at hnone
    cases hnone
  have hcreate : Ensures (fun state ↦ state = store)
      (manager.kind.createOrGetJob answers.id answers.now request)
      (fun state ↦ ¬ IsStarting state)
      (fun found state ↦ state = store ∧ (found = none ∨ found = some job))
      fun _ ↦ Idle manager.kind := by
    intro state hstate
    subst hstate
    have hsame : (manager.kind.createOrGetJob answers.id answers.now request state).final = state ∧
      _ := createOrGetJob_of_some h.coherent.held
    have hvisited : (manager.kind.createOrGetJob answers.id answers.now request state).visited =
      [(manager.kind.createOrGetJob answers.id answers.now request state).final] := rfl
    rw [hvisited, forall_mem_singleton, hsame.1]
    exact ⟨not_isStarting_of_idle hidle, fun found hfound ↦ ⟨rfl, hsame.2 found hfound⟩,
      fun _ _ ↦ hidle⟩
  refine stepsWell_of_ensures hhandled (ensures_bind _ hcreate fun found ↦ ?_)
  rintro state ⟨rfl, rfl | rfl⟩
  · exact ensures_pure (fun _ hstate ↦ hstate) state hidle
  · have hcreated : job.status ≠ .created := by
      intro hstatus
      have hrests := h.rests
      rw [hstatus] at hrests
      cases hrests
    dsimp only
    rw [if_pos hcreated]
    exact ensures_pure (fun _ hstate ↦ hstate) state hidle

theorem stepsWell_ensureCapacity_of_none (hjob : store.job = none) (hevents : store.events = []) :
    StepsWell manager store ⟨.ensureCapacity request, answers⟩ := by
  cases hrequest : manager.kind.checkRequest answers.now request with
  | error failure =>
    have hcreate : (manager.kind.createOrGetJob answers.id answers.now request store).result =
        .error failure ∧
        (manager.kind.createOrGetJob answers.id answers.now request store).final = store := by
      simp only [StoreKind.createOrGetJob, Process.step, hrequest, and_self]
    have hfinal : (manager.perform ⟨.ensureCapacity request, answers⟩ store).final = store :=
      (final_bind_of_error hcreate.1).trans hcreate.2
    have hresult : (manager.perform ⟨.ensureCapacity request, answers⟩ store).result =
      .error failure := result_bind_of_error hcreate.1
    refine ⟨fun _ ↦ ⟨?_, ?_⟩, fun hnot ↦ absurd ?_ hnot⟩
    · unfold next
      rw [hfinal]
      exact .inl ⟨hjob, hevents⟩
    · intro _ _ _ answer hanswer
      rw [hresult] at hanswer
      cases hanswer
    · intro _ hok
      rw [hrequest] at hok
      cases hok
  | ok value =>
    have hcreate : (manager.kind.createOrGetJob answers.id answers.now request store).result =
        .ok (some (.new answers.id answers.now request)) ∧
        (manager.kind.createOrGetJob answers.id answers.now request store).final =
          { store with job := some (.new answers.id answers.now request) } := by
      simp only [StoreKind.createOrGetJob, Process.step, hrequest, hjob, and_self]
    have hstarted : ∃ started, ((manager.kind.claimStart answers.now)
        { store with job := some (.new answers.id answers.now request) }).result = _ ∧ _ :=
      entered_of_new hevents
    obtain ⟨started, hclaim, hsame, hentered, hkeys⟩ := hstarted
    refine stepsWell_of_start hentered ?_ ?_
    · refine (final_bind_of_ok hcreate.1).trans ?_
      rw [hcreate.2]
      refine (final_bind_of_ok hclaim).trans ?_
      exact final_bind_pure
    · have hcongr : StartHandled manager answers [] request ↔
          StartHandled manager answers [(plain .jobStart).text] request := by
        refine startHandled_congr fun label hlabel ↦ ?_
        rw [mem_singleton, text_eq_text, plain_eq_plain]
        rcases hlabel with rfl | rfl <;> simp
      rw [hkeys, hsame, ← hcongr]
      exact ⟨fun h ↦ h hjob hrequest, fun h _ _ ↦ h⟩

theorem stepsWell_of_calmAt {process : JobProcess (Option ProvisioningJob)}
    (hhandled : Handled manager store call)
    (h : Ensures (fun state ↦ state = store) process (CalmAt manager.kind 0)
      (fun _ ↦ CalmAt manager.kind 0) fun _ ↦ CalmAt manager.kind 0)
    (hperform : manager.perform call store = process store) : StepsWell manager store call := by
  refine stepsWell_of_ensures hhandled ?_
  intro state hstate
  subst hstate
  rw [hperform]
  exact (Ensures.mono h (fun _ hstate ↦ hstate) (fun _ hstate ↦ not_isStarting_of_idle hstate.idle)
    (fun _ _ ↦ CalmAt.idle) fun _ _ ↦ CalmAt.idle) state rfl

variable {α : Type}

theorem getJob_bind_of_some {rest : ProvisioningJob → JobProcess α} (hjob : store.job = some job) :
    (StoreKind.getJob >>= rest) store = rest job store := by
  have hget : (fun state : JobStore ↦ orThrow state.job ProvisioningError.notFound) store =
      .ok job := by
    dsimp only
    rw [hjob]
    rfl
  exact query_bind_of_ok hget

theorem getJob_bind_of_none {rest : ProvisioningJob → JobProcess α} (hjob : store.job = none) :
    (StoreKind.getJob >>= rest) store = ⟨[], .error .notFound, store⟩ := by
  have hget : (fun state : JobStore ↦ orThrow state.job ProvisioningError.notFound) store =
      .error .notFound := by
    dsimp only
    rw [hjob]
    rfl
  exact query_bind_of_error hget

theorem check_bind_of_ok {β : Type} {outcome : Except ProvisioningError α} {value : α}
    {rest : α → JobProcess β} (h : outcome = .ok value) :
    (ProvisioningManager.check outcome >>= rest) store = rest value store :=
  have hview : (fun _ : JobStore ↦ outcome) store = .ok value := h
  query_bind_of_ok hview

theorem stepsWell_of_refused {failure : ProvisioningError} (hidle : Idle manager.kind store)
    (hhandled : Handled manager store call)
    (h : manager.perform call store = ⟨[], .error failure, store⟩) :
    StepsWell manager store call := by
  refine stepsWell_of_ensures hhandled ?_
  intro state hstate
  subst hstate
  rw [h]
  exact ⟨fun _ hmem ↦ absurd hmem not_mem_nil, fun _ _ ↦ hidle, fun _ _ ↦ hidle⟩

theorem keepsCalm_getJob {rest : ProvisioningJob → JobProcess ProvisioningJob}
    (h : ∀ job, KeepsCalmWith manager attempt job (rest job)) :
    KeepsCalm manager.kind attempt (StoreKind.getJob >>= rest) := by
  refine ensures_bind (CalmWith manager.kind attempt) (ensures_query ?_ ?_) h
  · rintro state job ⟨held, hcalm, hle⟩ hget
    rw [hcalm.coherent.held] at hget
    obtain rfl := Except.ok.inj hget
    exact ⟨hcalm, hle⟩
  · exact fun _ _ hcalm _ ↦ hcalm

theorem KeepsCalm.some {process : JobProcess ProvisioningJob}
    (h : KeepsCalm manager.kind attempt process) :
    Ensures (CalmAt manager.kind attempt) (process >>= fun job ↦ pure (some job))
      (CalmAt manager.kind attempt) (fun _ ↦ CalmAt manager.kind attempt)
      fun _ ↦ CalmAt manager.kind attempt :=
  ensures_bind _ h fun _ ↦ ensures_pure fun _ hcalm ↦ hcalm.calmAt

theorem fits_operatorCompleted {candidate : CapacityCandidate} (messages : List Text) :
    Fits messages attempt (.plain .operatorComplete) (.operatorCompleted candidate) where
  number := fun _ _ _ heq ↦ absurd heq.symm numbered_ne_plain
  final := by
    intro label hfinal heq
    rw [← plain_eq_plain.mp heq] at hfinal
    cases hfinal
  needsOperator := fun _ _ heq ↦ by cases heq
  operatorComplete := fun _ ↦ ⟨candidate, rfl⟩
  mail := by
    intro messageId heq
    have hlabel : EventLabel.operatorComplete = .mailReceived := congrArg EventKey.label heq
    cases hlabel

theorem keepsCalm_completeManual {candidate : CapacityCandidate} :
    KeepsCalm manager.kind attempt (manager.completeManual answers candidate) := by
  refine keepsCalm_getJob fun job ↦ KeepsCalm.given (keepsCalm_check fun _ ↦ ?_)
  refine KeepsCalm.bind (keepsCalm_applyEvent (fun _ _ _ _ ↦ rfl) fits_operatorCompleted) ?_
  exact fun completed ↦ KeepsCalm.of_attempt keepsCalm_validateAndEnroll

theorem keepsCalmWith_pure : KeepsCalmWith manager attempt job (pure job) :=
  ensures_pure fun _ hcalm ↦ hcalm

theorem keepsCalm_cancelJob {summary : Text} :
    KeepsCalm manager.kind attempt (manager.cancelJob answers summary) := by
  refine keepsCalm_getJob fun job ↦ ?_
  split_ifs
  · exact keepsCalmWith_pure
  · refine KeepsCalm.given (keepsCalm_applyEvent (fun _ _ _ _ ↦ rfl)
      (fits_plain (by decide) (by decide) (fun _ _ heq ↦ by cases heq) fun _ _ _ h ↦ ?_))
    cases h
    rfl

theorem keepsCalm_expireJob : KeepsCalm manager.kind attempt (manager.expireJob answers) := by
  refine keepsCalm_getJob fun job ↦ ?_
  split_ifs
  · exact keepsCalmWith_pure
  · refine KeepsCalm.given (keepsCalm_applyEvent (fun _ _ _ _ ↦ rfl)
      (fits_plain (by decide) (by decide) (fun _ _ heq ↦ by cases heq) fun _ _ _ h ↦ ?_))
    cases h
    rfl

/-! ### A retry -/

theorem entered_of_retry (now : ℤ) (h : Calm manager.kind store job)
    (hstatus : job.status = .failedRetryable)
    (hlimit : job.attemptCount < manager.kind.maxAttempts) :
    ∃ started, (manager.kind.applyEvent (.numbered .operatorRetry (saturatingSucc job.attemptCount))
        .retryTimer now store).result = .ok started ∧ started.request = job.request ∧
      Entered manager.kind (manager.kind.applyEvent
        (.numbered .operatorRetry (saturatingSucc job.attemptCount)) .retryTimer now store).final
        started ∧
      ∀ label, (plain label).text ∈ (manager.kind.applyEvent
        (.numbered .operatorRetry (saturatingSucc job.attemptCount)) .retryTimer now
          store).final.keys ↔ (plain label).text ∈ store.keys := by
  have hsucc : saturatingSucc job.attemptCount = job.attemptCount + 1 := by
    have hmax : manager.kind.maxAttempts ≤ maxU32 := by cases manager.kind <;> decide
    exact min_eq_left (hlimit.trans_le hmax)
  have hcount : ∀ updated transition, job.applyEventAt .retryTimer now = .ok (updated, transition) →
      updated.attemptCount = job.attemptCount + 1 := by
    intro updated transition happly
    rw [(applyEventAt_eq_ok happly).2]
    exact hsucc
  have hnew : ∀ label, label ≠ .mailReceived →
      (numbered label (job.attemptCount + 1)).text ∉ store.keys :=
    fun label hlabel hmem ↦ absurd (h.coherent.numbered label _ hlabel hmem) (by omega)
  rw [hsucc]
  obtain ⟨started, transition, happly, hstarting, hresult, hfinal⟩ :=
    applyEvent_of_transition (checkText_numbered hlimit _) h.coherent.held
      (hnew .operatorRetry (by decide)) (hstatus ▸ Transition.retryTimer) fun updated transition
        happly ↦ (hcount updated transition happly).trans_le hlimit
  have hstartedCount := hcount started transition happly
  refine ⟨started, hresult, request_of_apply happly, ?_, fun label ↦ ?_⟩
  · rw [hfinal]
    refine ⟨h.coherent.push (hnew _ (by decide)) happly ?_ (hstartedCount ▸ hlimit)
      (by omega) fun _ ↦ .inr (by rw [hstartedCount]), hstarting, fun label hretry hmail hmem ↦ ?_⟩
    · rw [hstartedCount]
      exact fits_numbered (by decide) rfl _
    · rw [hstartedCount] at hmem
      rcases mem_keys_push.mp hmem with hold | hsame
      · exact hnew label hmail hold
      · exact hretry (numbered_eq_numbered.mp (text_injective hsame)).1
  · rw [hfinal, mem_keys_push, text_eq_text]
    exact or_iff_left (Ne.symm numbered_ne_plain)

theorem applyEvent_of_limit (h : Calm manager.kind store job)
    (hlimit : ¬ job.attemptCount < manager.kind.maxAttempts) :
    (manager.kind.applyEvent (.numbered .operatorRetry (saturatingSucc job.attemptCount))
        .retryTimer now store).final = store ∧
      ∀ answer, (manager.kind.applyEvent
        (.numbered .operatorRetry (saturatingSucc job.attemptCount)) .retryTimer now
          store).result = .ok answer → answer = job := by
  have hattempt : job.attemptCount = manager.kind.maxAttempts :=
    h.coherent.attempts.antisymm (not_lt.mp hlimit)
  rcases applyEvent_cases h.coherent.held with
    hsame | ⟨updated, transition, hkey, happly, hle, -, -⟩
  · exact hsame
  · exfalso
    have hcount : updated.attemptCount = saturatingSucc job.attemptCount := by
      rw [(applyEventAt_eq_ok happly).2]
      rfl
    rw [hattempt] at hcount hkey
    cases hkind : manager.kind with
    | inMemory =>
      -- the number of the attempt is saturated, and its retry was applied before
      rw [hkind] at hattempt hkey
      have hused := h.coherent.retried (by rw [hattempt]; decide)
      rw [hattempt] at hused
      exact hkey hused
    | database =>
      rw [hkind] at hcount hle
      rw [hcount] at hle
      exact absurd hle (by decide)

theorem retryJob_eq (hjob : store.job = some job) (hstatus : job.status = .failedRetryable) :
    manager.retryJob answers store = (manager.applyEvent answers
      (.numbered .operatorRetry (saturatingSucc job.attemptCount)) .retryTimer >>=
        manager.startJob answers) store := by
  have hcheck : throwIf (job.status ≠ .failedRetryable) (ProvisioningError.conflict
      "only retryable provisioning jobs can be retried") = .ok () :=
    if_neg (not_not.mpr hstatus)
  exact (getJob_bind_of_some hjob).trans (check_bind_of_ok hcheck)

theorem retryJob_of_refused (hjob : store.job = some job)
    (hstatus : job.status ≠ .failedRetryable) :
    ∃ failure, manager.retryJob answers store = ⟨[], .error failure, store⟩ := by
  have hcheck : (fun _ : JobStore ↦ throwIf (job.status ≠ .failedRetryable)
      (ProvisioningError.conflict "only retryable provisioning jobs can be retried")) store =
      .error _ := if_pos hstatus
  exact ⟨_, (getJob_bind_of_some hjob).trans (query_bind_of_error hcheck)⟩

theorem stepsWell_retryJob (h : Idle manager.kind store) :
    StepsWell manager store ⟨.retryJob, answers⟩ := by
  rcases h with ⟨hnone, hevents⟩ | ⟨job, hcalm⟩
  · have hhandled : Handled manager store ⟨.retryJob, answers⟩ := by
      intro job hjob
      rw [hnone] at hjob
      cases hjob
    exact stepsWell_of_refused (.inl ⟨hnone, hevents⟩) hhandled
      (bind_of_error (getJob_bind_of_none hnone))
  · have hjob := hcalm.coherent.held
    have hhandled_of (h : ¬ (job.status = .failedRetryable ∧
        job.attemptCount < manager.kind.maxAttempts)) :
        Handled manager store ⟨.retryJob, answers⟩ := by
      intro other hother hstatus hlimit
      rw [hjob, Option.some.injEq] at hother
      subst hother
      exact absurd ⟨hstatus, hlimit⟩ h
    by_cases hstatus : job.status = .failedRetryable
    · by_cases hlimit : job.attemptCount < manager.kind.maxAttempts
      · obtain ⟨started, hresult, hrequest, hentered, hkeys⟩ :=
          entered_of_retry answers.now hcalm hstatus hlimit
        refine stepsWell_of_start hentered ?_ ?_
        · refine final_bind_pure.trans ?_
          rw [retryJob_eq hjob hstatus]
          exact final_bind_of_ok hresult
        · rw [hrequest, startHandled_congr fun label _ ↦ hkeys label]
          constructor
          · exact fun h ↦ h job hjob hstatus hlimit
          · intro h other hother _ _
            rw [hjob, Option.some.injEq] at hother
            exact hother ▸ h
      · refine stepsWell_of_calmAt (hhandled_of fun h ↦ hlimit h.2) ?_
          (bind_congr (retryJob_eq hjob hstatus))
        refine ensures_bind _ (ensures_bind (CalmWith manager.kind 0) ?_ fun _ ↦ keepsCalm_startJob)
          fun _ ↦ ensures_pure fun _ hstate ↦ hstate.calmAt
        intro state hstate
        subst hstate
        have hcalmAt : CalmAt manager.kind 0 state := ⟨job, hcalm, Nat.zero_le _⟩
        have hsame : (manager.applyEvent answers _ .retryTimer state).final = state ∧ _ :=
          applyEvent_of_limit hcalm hlimit
        have hvisited : (manager.applyEvent answers (.numbered .operatorRetry
            (saturatingSucc job.attemptCount)) .retryTimer state).visited =
          [(manager.applyEvent answers (.numbered .operatorRetry
            (saturatingSucc job.attemptCount)) .retryTimer state).final] := rfl
        rw [hvisited, forall_mem_singleton, hsame.1]
        refine ⟨hcalmAt, fun answer hanswer ↦ ?_, fun _ _ ↦ hcalmAt⟩
        rw [hsame.2 answer hanswer]
        exact ⟨hcalm, Nat.zero_le _⟩
    · have hretry : ∃ failure, manager.retryJob answers store = _ :=
        retryJob_of_refused hjob hstatus
      obtain ⟨failure, hrefused⟩ := hretry
      exact stepsWell_of_refused (.inr ⟨job, hcalm⟩) (hhandled_of fun h ↦ hstatus h.1)
        (bind_of_error hrefused)

/-! ### The other calls -/

variable {record : ProvisioningMailRecord}

theorem stepsWell_of_keepsCalm {rest : ProvisioningJob → JobProcess ProvisioningJob}
    (h : Idle manager.kind store) (hhandled : Handled manager store call)
    (hperform : manager.perform call = ((StoreKind.getJob >>= rest) >>= fun job ↦ pure (some job)))
    (hkeeps : KeepsCalm manager.kind 0 (StoreKind.getJob >>= rest)) :
    StepsWell manager store call := by
  rcases h with ⟨hnone, hevents⟩ | ⟨job, hcalm⟩
  · have hrefused : manager.perform call store = ⟨[], .error .notFound, store⟩ := by
      rw [hperform]
      exact bind_of_error (getJob_bind_of_none hnone)
    exact stepsWell_of_refused (.inl ⟨hnone, hevents⟩) hhandled hrefused
  · refine stepsWell_of_calmAt hhandled (Ensures.mono hkeeps.some ?_ (fun _ h ↦ h)
      (fun _ _ h ↦ h) fun _ _ h ↦ h) (congrFun hperform store)
    rintro _ rfl
    exact ⟨job, hcalm, Nat.zero_le _⟩

theorem recordMail_cases (kind : StoreKind) (record : ProvisioningMailRecord)
    (store : JobStore) :
    (∃ failure, kind.checkMail record = .error failure ∧
      kind.recordMail record store = ⟨[store], .error failure, store⟩) ∨
      (kind.recordMail record store = ⟨[store], .ok false, store⟩ ∧
        record.messageId ∈ store.messages) ∨
      (kind.checkMail record = .ok () ∧ record.messageId ∉ store.messages ∧
        kind.recordMail record store =
          ⟨[{ store with messages := store.messages ++ [record.messageId] }], .ok true,
            { store with messages := store.messages ++ [record.messageId] }⟩) := by
  unfold StoreKind.recordMail Process.step
  cases hcheck : kind.checkMail record with
  | error failure => exact .inl ⟨failure, rfl, rfl⟩
  | ok value =>
    by_cases hmem : record.messageId ∈ store.messages
    · refine .inr (.inl ⟨?_, hmem⟩)
      simp only [hmem, if_true]
    · refine .inr (.inr ⟨rfl, hmem, ?_⟩)
      simp only [hmem, if_false]

theorem Calm.of_messages (h : Calm kind store job) (message : Text) :
    Calm kind { store with messages := store.messages ++ [message] } job where
  coherent := h.coherent.of_messages (subset_append_left _ _)
  rests := h.rests
  waiting := h.waiting

theorem Idle.of_messages (h : Idle kind store) (message : Text) :
    Idle kind { store with messages := store.messages ++ [message] } :=
  h.imp id fun ⟨job, hcalm⟩ ↦ ⟨job, hcalm.of_messages message⟩

theorem fits_emailReceived {messageId : Text} {messages : List Text} (h : messageId ∈ messages) :
    Fits messages attempt (.ofMail messageId) (.emailReceived messageId) where
  number := by
    intro label other hlabel heq
    exact absurd (congrArg EventKey.label heq).symm hlabel
  final := by
    intro label hfinal heq
    rw [← show EventLabel.mailReceived = label from congrArg EventKey.label heq] at hfinal
    cases hfinal
  needsOperator := fun _ _ heq ↦ by cases heq
  operatorComplete := fun heq ↦ by cases congrArg EventKey.label heq
  mail := by
    intro other heq
    have hsame : messageId = other := congrArg payload heq
    exact hsame ▸ h

theorem reached_of_mail {messageId : Text} (answers : Answers)
    (h : Calm kind { store with messages := store.messages ++ [messageId] } job)
    (hwaiting : job.status = .waitingForEmail)
    (hnew : (ofMail messageId).text ∉ store.keys)
    (hvalid : kind.checkText (ofMail messageId).text "event idempotency key" = .ok ()) :
    (kind.applyEvent (.ofMail messageId) (.emailReceived messageId) answers.now
        { store with messages := store.messages ++ [messageId] }).result =
        .ok (received answers job) ∧
      Reached kind (kind.applyEvent (.ofMail messageId) (.emailReceived messageId) answers.now
        { store with messages := store.messages ++ [messageId] }).final (received answers job) ∧
      ∀ label, label ≠ .mailReceived → ((plain label).text ∈
        (kind.applyEvent (.ofMail messageId) (.emailReceived messageId) answers.now
          { store with messages := store.messages ++ [messageId] }).final.keys ↔
            (plain label).text ∈ store.keys) := by
  obtain ⟨updated, transition, happly, hstatus, hresult, hfinal⟩ :=
    applyEvent_of_transition hvalid h.coherent.held hnew
      (hwaiting ▸ Transition.emailReceived) fun updated transition happly ↦
        (attemptCount_of_apply happly rfl).le.trans h.coherent.attempts
  obtain rfl : updated = received answers job := by
    rw [(applyEventAt_eq_ok happly).2, hstatus]
    rfl
  refine ⟨hresult, ⟨?_, rfl, fun label hlabel ↦ ?_⟩, fun label hlabel ↦ ?_⟩
  · rw [hfinal]
    exact h.coherent.push_of_not_isStart hnew happly rfl
      (fits_emailReceived (mem_append_right _ (mem_singleton_self _)))
  · rw [hfinal, mem_keys_push]
    rintro (hold | hsame)
    · exact h.waiting hwaiting label hlabel hold
    · have hother : label = .mailReceived := congrArg EventKey.label (text_injective hsame)
      rcases hlabel with rfl | rfl <;> cases hother
  · rw [hfinal, mem_keys_push]
    refine or_iff_left fun hsame ↦ hlabel ?_
    exact congrArg EventKey.label (text_injective hsame)

theorem stepsWell_of_final (hstarts : call.request.starts = false)
    (hhandled : Handled manager store call)
    (h : Idle manager.kind (manager.perform call store).final) : StepsWell manager store call :=
  ⟨fun _ ↦ ⟨h, resultKept_of_not_starts hstarts⟩, fun hnot ↦ absurd hhandled hnot⟩

theorem stepsWell_otherMail (h : Idle manager.kind store) :
    StepsWell manager store ⟨.otherMail record, answers⟩ := by
  refine stepsWell_of_final rfl trivial ?_
  have hfinal : (manager.perform ⟨.otherMail record, answers⟩ store).final =
    (manager.kind.recordMail record store).final := final_bind_pure
  rw [hfinal]
  rcases recordMail_cases manager.kind record store with
    ⟨failure, -, hrecord⟩ | ⟨hrecord, -⟩ | ⟨-, -, hrecord⟩
  · rw [hrecord]
    exact h
  · rw [hrecord]
    exact h
  · rw [hrecord]
    exact h.of_messages _

theorem final_handleEmail (hjob : store.job = some job) :
    ((job.status.isTerminal = true ∨ ¬ (manager.kind.checkMail record = .ok () ∧
        record.messageId ∉ store.messages)) ∧
      (manager.perform ⟨.handleEmail record, answers⟩ store).final = store) ∨
      (manager.kind.checkMail record = .ok () ∧ record.messageId ∉ store.messages ∧
        (manager.perform ⟨.handleEmail record, answers⟩ store).final =
          ((manager.receiveMail answers record job >>= manager.continueAfterMail answers)
            { store with messages := store.messages ++ [record.messageId] }).final) := by
  have hperform : (manager.perform ⟨.handleEmail record, answers⟩ store).final =
    (manager.handleEmail answers record store).final := final_bind_pure
  rw [hperform]
  unfold handleEmail
  rw [getJob_bind_of_some hjob]
  split_ifs with hterminal
  · exact .inl ⟨.inl hterminal, rfl⟩
  · rcases recordMail_cases manager.kind record store with
      ⟨failure, hcheck, hrecord⟩ | ⟨hrecord, hmem⟩ | ⟨hcheck, hnew, hrecord⟩
    · rw [bind_of_error hrecord, hcheck]
      refine .inl ⟨.inr fun h ↦ ?_, rfl⟩
      cases h.1
    · have hresult := congrArg Outcome.result hrecord
      rw [final_bind_of_ok hresult, hrecord]
      exact .inl ⟨.inr fun h ↦ h.2 hmem, rfl⟩
    · have hresult := congrArg Outcome.result hrecord
      refine .inr ⟨hcheck, hnew, ?_⟩
      rw [final_bind_of_ok hresult, hrecord, if_neg (by decide)]
      cases hreceive : (manager.receiveMail answers record job
          { store with messages := store.messages ++ [record.messageId] }).result with
      | ok reached => rw [final_bind_of_ok hreceive, final_bind_of_ok hreceive, final_bind_pure]
      | error failure => rw [final_bind_of_error hreceive, final_bind_of_error hreceive]

theorem calm_of_unawaited (hcalm : CalmWith manager.kind attempt job store)
    (hwaiting : job.status ≠ .waitingForEmail) :
    CalmAt manager.kind attempt ((manager.receiveMail answers record job >>=
      manager.continueAfterMail answers) store).final := by
  have hreceive : (manager.receiveMail answers record job store).result = .ok job := by
    rw [receiveMail, if_neg hwaiting]
    rfl
  have hsame : (manager.receiveMail answers record job store).final = store := by
    rw [receiveMail, if_neg hwaiting]
    rfl
  have hkeeps : KeepsCalmWith manager attempt job (manager.continueAfterMail answers job) :=
    keepsCalm_continueAfterMail
  rw [final_bind_of_ok hreceive, hsame]
  obtain ⟨-, hok, herror⟩ := hkeeps store hcalm
  cases hend : (manager.continueAfterMail answers job store).result with
  | ok answer => exact (hok answer hend).calmAt
  | error failure => exact herror failure hend

theorem stepsWell_of_awaited (hcalm : Calm manager.kind store job)
    (hwaiting : job.status = .waitingForEmail) (hcheck : manager.kind.checkMail record = .ok ())
    (hnew : record.messageId ∉ store.messages)
    (hfinal : (manager.perform ⟨.handleEmail record, answers⟩ store).final =
      ((manager.receiveMail answers record job >>= manager.continueAfterMail answers)
        { store with messages := store.messages ++ [record.messageId] }).final) :
    StepsWell manager store ⟨.handleEmail record, answers⟩ := by
  have hjob := hcalm.coherent.held
  have hreceive : manager.receiveMail answers record job = manager.applyEvent answers
    (.ofMail record.messageId) (.emailReceived record.messageId) := if_pos hwaiting
  rw [hreceive] at hfinal
  cases hvalid : manager.kind.checkText (ofMail record.messageId).text
      "event idempotency key" with
  | error failure =>
    have hrefused : (manager.applyEvent answers (.ofMail record.messageId)
        (.emailReceived record.messageId)
          { store with messages := store.messages ++ [record.messageId] }) =
        ⟨[{ store with messages := store.messages ++ [record.messageId] }], .error failure,
          { store with messages := store.messages ++ [record.messageId] }⟩ := by
      simp only [ProvisioningManager.applyEvent, StoreKind.applyEvent, Process.step, hvalid]
    have hhandled : Handled manager store ⟨.handleEmail record, answers⟩ := by
      intro _ _ _ _ _ hok
      rw [hvalid] at hok
      cases hok
    refine stepsWell_of_final rfl hhandled ?_
    rw [hfinal, bind_of_error hrefused]
    exact .inr ⟨job, hcalm.of_messages _⟩
  | ok value =>
    have hunused : (ofMail record.messageId).text ∉ store.keys :=
      mt (hcalm.coherent.mails record.messageId) hnew
    obtain ⟨hresult, hreached, hkeys⟩ :=
      reached_of_mail answers (hcalm.of_messages record.messageId) hwaiting hunused
        hvalid
    have hcontinued := hfinal.trans (final_bind_of_ok hresult)
    have hhandled : Handled manager store ⟨.handleEmail record, answers⟩ ↔
        MailHandled manager answers store.keys (received answers job) := by
      constructor
      · exact fun h ↦ h job hjob hwaiting hcheck hnew hvalid
      · intro h other hother _ _ _ _
        rw [hjob, Option.some.injEq] at hother
        exact hother ▸ h
    have hcongr : MailHandled manager answers _ (received answers job) ↔
        MailHandled manager answers store.keys (received answers job) :=
      mailHandled_congr fun label hlabel ↦ hkeys label
        (by rcases hlabel with rfl | rfl | rfl <;> decide)
    refine ⟨fun h ↦ ⟨?_, resultKept_of_not_starts rfl⟩, fun h ↦ ?_⟩
    · unfold next
      rw [hcontinued]
      exact .inr (calm_of_mailHandled hreached (hcongr.mpr (hhandled.mp h)))
    · unfold next
      have hlost : (manager.continueAfterMail answers (received answers job) _).final = _ :=
        final_of_not_mailHandled hreached (mt hcongr.mp (mt hhandled.mpr h))
      rw [hcontinued]
      refine ⟨received answers job, ?_, .inr rfl⟩
      exact (congrArg JobStore.job hlost).trans hreached.coherent.held

theorem stepsWell_handleEmail (h : Idle manager.kind store) :
    StepsWell manager store ⟨.handleEmail record, answers⟩ := by
  rcases h with ⟨hnone, hevents⟩ | ⟨job, hcalm⟩
  · have hhandled : Handled manager store ⟨.handleEmail record, answers⟩ := by
      intro job hjob
      rw [hnone] at hjob
      cases hjob
    exact stepsWell_of_refused (.inl ⟨hnone, hevents⟩) hhandled
      (bind_of_error (getJob_bind_of_none hnone))
  · have hjob := hcalm.coherent.held
    have hunawaited (h : ¬ (job.status = .waitingForEmail ∧ manager.kind.checkMail record = .ok () ∧
        record.messageId ∉ store.messages)) :
        Handled manager store ⟨.handleEmail record, answers⟩ := by
      intro other hother hwaiting hcheck hnew
      rw [hjob, Option.some.injEq] at hother
      exact absurd ⟨hother ▸ hwaiting, hcheck, hnew⟩ h
    have hends : (_ ∧ (manager.perform ⟨.handleEmail record, answers⟩ store).final = store) ∨ _ :=
      final_handleEmail hjob
    rcases hends with ⟨hrefused, hfinal⟩ | ⟨hcheck, hnew, hfinal⟩
    · have hidle : Idle manager.kind store := .inr ⟨job, hcalm⟩
      refine stepsWell_of_final rfl (hunawaited ?_) (by rw [hfinal]; exact hidle)
      rintro ⟨hwaiting, hnew⟩
      rcases hrefused with hterminal | hold
      · rw [hwaiting] at hterminal
        cases hterminal
      · exact hold hnew
    · by_cases hwaiting : job.status = .waitingForEmail
      · exact stepsWell_of_awaited hcalm hwaiting hcheck hnew hfinal
      · refine stepsWell_of_final rfl (hunawaited fun h ↦ hwaiting h.1) ?_
        have hend : CalmAt manager.kind 0
            (manager.perform ⟨.handleEmail record, answers⟩ store).final := by
          rw [hfinal]
          exact calm_of_unawaited ⟨hcalm.of_messages record.messageId, Nat.zero_le _⟩ hwaiting
        exact hend.idle

theorem stepsWell_of_idle (h : Idle manager.kind store) (call : Call) :
    StepsWell manager store call := by
  obtain ⟨request, answers⟩ := call
  cases request with
  | ensureCapacity request =>
    rcases h with ⟨hjob, hevents⟩ | ⟨job, hcalm⟩
    · exact stepsWell_ensureCapacity_of_none hjob hevents
    · exact stepsWell_ensureCapacity_of_calm hcalm
  | retryJob => exact stepsWell_retryJob h
  | completeManual candidate =>
    exact stepsWell_of_keepsCalm h trivial rfl keepsCalm_completeManual
  | handleEmail record => exact stepsWell_handleEmail h
  | cancelJob summary => exact stepsWell_of_keepsCalm h trivial rfl keepsCalm_cancelJob
  | expireJob => exact stepsWell_of_keepsCalm h trivial rfl keepsCalm_expireJob
  | otherMail record => exact stepsWell_otherMail h

end Calls

/-! ### Histories -/

theorem idle_empty (kind : StoreKind) : Idle kind .empty := .inl ⟨rfl, rfl⟩

theorem sound_iff_of_idle {manager : ProvisioningManager} {store : JobStore} (calls : List Call)
    (h : Idle manager.kind store) :
    Sound manager store calls ↔ Permitted (next manager) (Handled manager) store calls := by
  induction calls generalizing store with
  | nil => exact iff_of_true (not_stuck_of_idle h) trivial
  | cons call rest ih =>
    obtain ⟨hkeeps, hloses⟩ := stepsWell_of_idle h call
    by_cases hhandled : Handled manager store call
    · obtain ⟨hidle, hkept⟩ := hkeeps hhandled
      constructor
      · exact fun hsound ↦ ⟨hhandled, (ih hidle).mp hsound.2.2⟩
      · exact fun hpermitted ↦ ⟨not_stuck_of_idle h, hkept, (ih hidle).mpr hpermitted.2⟩
    · have hstuck : Stuck manager (next manager store call) := stuck_of_isLost (hloses hhandled)
      refine iff_of_false (fun hsound ↦ ?_) fun hpermitted ↦ hhandled hpermitted.1
      cases rest with
      | nil => exact hsound.2.2 hstuck
      | cons other rest => exact hsound.2.2.1 hstuck

/-- A history is sound exactly when every call of it is handled. -/
theorem sound_iff (manager : ProvisioningManager) (calls : List Call) :
    Sound manager .empty calls ↔ Permitted (next manager) (Handled manager) .empty calls :=
  sound_iff_of_idle calls (idle_empty manager.kind)

/-! ### A lost answer -/

section LostAnswer

def oneProvisioner : ProvisioningManager where
  kind := .inMemory
  registry := fun _ ↦ some ⟨true, true⟩
  emailDomain := "mail.test"
  aliasTtl := 0
  hashToken := id

def failing : Answers :=
  { noAnswers with start := fun _ ↦ .ok (.retryableFailure "BUSY" [] none) }

/-- A start that fails and its retry, which fails again. -/
def failedTwice : List Call :=
  [⟨.ensureCapacity ⟨"mega", "pool", 1, 1, "key"⟩, failing⟩, ⟨.retryJob, failing⟩]

/-- The key of the first failure swallows the second one: the retry returns the job in `Starting`,
where it stays. -/
theorem second_failure_is_lost : ¬ Sound oneProvisioner .empty failedTwice := by
  intro hsound
  have hlast : ∃ job, (failedTwice.foldl (next oneProvisioner) .empty).job = some job ∧
      job.status = .starting := by
    decide
  obtain ⟨job, hjob, hstatus⟩ := hlast
  exact hsound.2.2.2.2 (stuck_of_isLost ⟨job, hjob, .inl hstatus⟩)

end LostAnswer

end GameLauncher.Provisioning
