import GameLauncher.Downloads.JobRecords

/-!
# The row of a job along a call

What the rows are in every state that a call of `DownloadAsync` visits, so that a stop of the process
after any step is covered. The rows of the other jobs stay what they were
(`othersKept_downloadAsync`). The row of the job itself is not terminal from the first record until
the tasks have ended (`ensures_untilTasksEnd`); after that it is `Ready` only if every task has
succeeded and the store has accepted the record (`RecordsReady`, `ensures_waitForTasks_of_not`), and
a call that throws then leaves it so only if the record of the failure is not saved
(`ensures_waitForTasks`).
-/

set_option autoImplicit false

namespace GameLauncher.Downloads

open Foundation Manifests Packs
open Process

/-! ### The rows of the other jobs -/

/-- The rows of the other jobs are what they were. -/
def OthersKept (jobId : Text) (before after : CallState) : Prop :=
  ∀ other, other ≠ jobId → after.rows other = before.rows other

instance (jobId : Text) : IsPreorder CallState (OthersKept jobId) where
  refl := fun _ _ _ ↦ rfl
  trans := fun _ _ _ hfirst hsecond other hother ↦
    (hsecond other hother).trans (hfirst other hother)

namespace DownloadCall

variable {call : DownloadCall} {start state : CallState} {schedule : List TaskEvent}

variable {jobState : DownloadJobState}

theorem Records.othersKept {other : CallState} (h : call.Records jobState state other) :
    OthersKept call.jobId state other := by
  intro jobId hjobId
  rcases h with hrows | ⟨job, -, hrows⟩
  · rw [hrows]
  · rw [hrows, Function.update_of_ne hjobId]

theorem othersKept_saveJobAsync {lastError : Option String} :
    Advances (OthersKept call.jobId) (call.saveJobAsync jobState lastError) :=
  advances_step fun _ ↦ records_save.othersKept

theorem othersKept_reportProgress : Advances (OthersKept call.jobId) call.reportProgress :=
  advances_step fun _ _ _ ↦ rfl

theorem othersKept_beforeTasks : Advances (OthersKept call.jobId) call.beforeTasks := by
  refine advances_bind advances_query fun _ ↦ advances_bind advances_query fun _ ↦ ?_
  refine advances_bind (advances_step fun _ ↦ records_save.othersKept) fun _ ↦ ?_
  refine advances_bind othersKept_reportProgress fun _ ↦ ?_
  exact fun _ ↦ ⟨fun reached hreached _ _ ↦ by
    obtain ⟨session, -, rfl⟩ := List.mem_map.mp hreached
    rfl, fun _ _ ↦ rfl⟩

theorem othersKept_untilTasksEnd :
    Advances (OthersKept call.jobId) (call.untilTasksEnd schedule) := by
  refine advances_bind othersKept_beforeTasks fun prepared ↦ ?_
  refine advances_bind (advances_step fun _ _ _ ↦ rfl) fun _ ↦ ?_
  exact advances_forEach (fun _ _ ↦ advances_step fun _ ↦ records_perform.othersKept) _ _

theorem othersKept_waitForTasks : Advances (OthersKept call.jobId) call.waitForTasks := by
  refine advances_tryCatch ?_ fun exception ↦ ?_
  · refine advances_bind advances_query fun _ ↦ advances_bind advances_query fun _ ↦ ?_
    exact advances_bind othersKept_saveJobAsync fun _ ↦
      advances_bind othersKept_reportProgress fun _ ↦ advances_pure
  · exact advances_bind advances_query fun _ ↦
      advances_bind othersKept_saveJobAsync fun _ ↦ advances_fail

theorem othersKept_downloadAsync :
    Advances (OthersKept call.jobId) (call.downloadAsync schedule) :=
  advances_bind othersKept_untilTasksEnd fun _ ↦ othersKept_waitForTasks

/-! ### The row of the job -/

/-- No record of the job is `Ready`. -/
def NotReady (call : DownloadCall) (state : CallState) : Prop :=
  ∀ job, state.rows call.jobId = some job → job.state ≠ .ready

/-- Every task has succeeded, and the store accepts the record of the success. -/
def RecordsReady (call : DownloadCall) (state : CallState) : Prop :=
  call.whenAll state = .ok () ∧ call.saveAnswer state.calls = .ok ()

theorem InProgress.notReady (h : call.InProgress state) : call.NotReady state := by
  intro job hjob hstate
  obtain ⟨other, hother, hopen⟩ := h
  obtain rfl : other = job := Option.some.inj (hother.symm.trans hjob)
  rw [hstate] at hopen
  cases hopen

theorem Recorded.notReady (h : call.Recorded jobState state) (hstate : jobState ≠ .ready) :
    call.NotReady state := by
  intro job hjob
  obtain ⟨other, hother, rfl⟩ := h
  obtain rfl : other = job := Option.some.inj (hother.symm.trans hjob)
  exact hstate

theorem NotReady.of_records {other : CallState} (h : call.NotReady state)
    (hrecords : call.Records jobState state other) (hstate : jobState ≠ .ready) :
    call.NotReady other := by
  rcases hrecords with hrows | ⟨job, rfl, hrows⟩
  · exact fun job hjob ↦ h job (hrows ▸ hjob)
  · exact Recorded.notReady ⟨job, by rw [hrows, Function.update_self], rfl⟩ hstate

/-! ### Up to the end of the tasks -/

theorem ensures_downloadAsync_of_stopsEarly (h : call.StopsEarly start) :
    Ensures (fun state ↦ state = start) (call.downloadAsync schedule)
      (fun state ↦ state.rows = start.rows) (fun _ _ ↦ False)
      fun _ state ↦ state.rows = start.rows := by
  refine ensures_bind (fun _ _ ↦ False) (ensures_bind (fun _ _ ↦ False) ?_
    fun _ _ hfalse ↦ hfalse.elim) fun _ _ hfalse ↦ hfalse.elim
  refine ensures_bind
    (fun _ state ↦ state = start ∧ ManifestValidator.validate call.unicode call.manifest = .ok ())
    (ensures_query ?_ fun _ _ hstate _ ↦ congrArg CallState.rows hstate) fun _ ↦ ?_
  · intro state value hstate hvalue
    cases hvalidate : ManifestValidator.validate call.unicode call.manifest with
    | ok checked => exact ⟨hstate, rfl⟩
    | error failure =>
      rw [hvalidate] at hvalue
      cases hvalue
  refine ensures_bind
    (fun _ state ↦ state = start ∧ ∃ failure, call.saveAnswer start.calls = .error failure)
    (ensures_query ?_ fun _ _ hstate _ ↦ congrArg CallState.rows hstate.1) fun _ ↦ ?_
  · rintro state total ⟨hstate, hvalidate⟩ htotal
    rcases h with hinvalid | ⟨failure, hfailure⟩ | hsave
    · exact absurd hvalidate hinvalid
    · rw [hfailure] at htotal
      cases htotal
    · exact ⟨hstate, hsave⟩
  refine ensures_bind (fun _ _ ↦ False) (ensures_step ?_ ?_ ?_) fun _ _ hfalse ↦ hfalse.elim
  · rintro _ ⟨rfl, failure, hfailure⟩
    exact rows_save_of_error hfailure
  · rintro _ value ⟨rfl, failure, hfailure⟩ hvalue
    rw [save_fst, hfailure] at hvalue
    cases hvalue
  · rintro _ _ ⟨rfl, failure, hfailure⟩ _
    exact rows_save_of_error hfailure

theorem ensures_untilTasksEnd (h : ¬ call.StopsEarly start) :
    Ensures (fun state ↦ state = start) (call.untilTasksEnd schedule) call.InProgress
      (fun _ ↦ call.InProgress) fun _ ↦ call.InProgress := by
  obtain ⟨hvalidate, ⟨total, htotal⟩, hsave⟩ := not_stopsEarly.mp h
  refine ensures_bind (fun _ ↦ call.InProgress) ?_ fun prepared ↦ ?_
  · refine ensures_bind (fun _ state ↦ state = start) (ensures_query (fun _ _ hstate _ ↦ hstate) ?_)
      fun _ ↦ ?_
    · intro state failure _ hfailure
      rw [hvalidate] at hfailure
      cases hfailure
    refine ensures_bind (fun _ state ↦ state = start) (ensures_query (fun _ _ hstate _ ↦ hstate) ?_)
      fun _ ↦ ?_
    · intro state failure _ hfailure
      rw [htotal] at hfailure
      cases hfailure
    have hsaved : call.InProgress (call.save start .resolving 0 none).2 := by
      obtain ⟨job, hjob, hstate⟩ := rows_save_of_ok hsave
      exact ⟨job, hjob, by rw [hstate]; rfl⟩
    refine ensures_bind (fun _ ↦ call.InProgress) (ensures_step_keeps ?_) fun _ ↦ ?_
    · rintro _ rfl
      exact hsaved
    refine ensures_bind (fun _ ↦ call.InProgress) (ensures_step_keeps fun _ hstate ↦
      hstate.of_rows rfl) fun _ ↦ ?_
    intro state hstate
    refine ⟨fun reached hreached ↦ ?_, fun _ _ ↦ hstate.of_rows rfl, fun _ _ ↦ hstate.of_rows rfl⟩
    obtain ⟨session, -, rfl⟩ := List.mem_map.mp hreached
    exact hstate.of_rows rfl
  · refine ensures_bind (fun _ ↦ call.InProgress) (ensures_step_keeps fun _ hstate ↦
      hstate.of_rows rfl) fun _ ↦ ?_
    refine ensures_forEach (fun _ _ ↦ call.InProgress) fun done event rest _ _ ↦ ?_
    exact ensures_step_keeps fun _ hstate ↦ hstate.perform

theorem silent_check {α : Type} {outcome : Except LauncherException α} :
    Silent (check outcome : CallProcess α) :=
  silent_query

theorem visited_untilTasksEnd_ne_nil (h : ¬ call.StopsEarly start) :
    (call.untilTasksEnd schedule start).visited ≠ [] := by
  obtain ⟨hvalidate, ⟨total, htotal⟩, -⟩ := not_stopsEarly.mp h
  have hfirst : ((check ((ManifestValidator.validate call.unicode call.manifest).mapError
      .ofValidation) : CallProcess Unit) start).result = .ok () := by
    rw [hvalidate]
    rfl
  have hsecond : ((check (sumEncodedSizes call.chunks) : CallProcess ℕ) start).result =
      .ok total := htotal
  have hbefore : (call.saveResolving start).visited <+: (call.beforeTasks start).visited := by
    rw [beforeTasks, silent_check.bind_of_ok hfirst, silent_check.bind_of_ok hsecond]
    exact visited_prefix_bind
  intro hempty
  have hinitial : (call.saveResolving start).visited <+:
      (call.untilTasksEnd schedule start).visited := hbefore.trans visited_prefix_bind
  rw [hempty] at hinitial
  exact List.cons_ne_nil _ _ (List.prefix_nil.mp hinitial)

/-! ### The end of a call -/

theorem ensures_waitForTasks_of_not (h : call.InProgress state) (hnot : ¬ call.RecordsReady state) :
    Ensures (fun other ↦ other = state) call.waitForTasks call.NotReady (fun _ _ ↦ False)
      fun _ ↦ call.NotReady := by
  refine ensures_tryCatch (fun _ ↦ call.NotReady) ?_ fun exception ↦ ?_
  · refine ensures_bind (fun _ other ↦ other = state ∧ call.whenAll state = .ok ())
      (ensures_query ?_ ?_) fun _ ↦ ?_
    · rintro _ _ rfl hok
      exact ⟨rfl, hok⟩
    · rintro _ _ rfl _
      exact h.notReady
    refine ensures_bind (fun _ other ↦ other = state ∧ call.whenAll state = .ok ())
      (ensures_query (fun _ _ hother _ ↦ hother) fun _ _ _ hfailure ↦ nomatch hfailure) fun _ ↦ ?_
    have hfails (hall : call.whenAll state = .ok ()) :
        ∃ failure, call.saveAnswer state.calls = .error failure := by
      cases hsave : call.saveAnswer state.calls with
      | ok value => exact absurd ⟨hall, hsave⟩ hnot
      | error failure => exact ⟨failure, rfl⟩
    refine ensures_bind (fun _ _ ↦ False) (ensures_step ?_ ?_ ?_) fun _ _ hfalse ↦ hfalse.elim
    · rintro _ ⟨rfl, hall⟩
      obtain ⟨failure, hfailure⟩ := hfails hall
      exact (h.of_rows (rows_save_of_error hfailure)).notReady
    · rintro _ value ⟨rfl, hall⟩ hvalue
      obtain ⟨failure, hfailure⟩ := hfails hall
      rw [save_fst, hfailure] at hvalue
      cases hvalue
    · rintro _ _ ⟨rfl, hall⟩ _
      obtain ⟨failure, hfailure⟩ := hfails hall
      exact (h.of_rows (rows_save_of_error hfailure)).notReady
  · refine ensures_bind (fun _ ↦ call.NotReady)
      (ensures_query (fun _ _ hother _ ↦ hother) fun _ _ _ hfailure ↦ nomatch hfailure)
      fun cancelled ↦ ?_
    have hrecorded (other : CallState) (hother : call.NotReady other) :
        call.NotReady (call.save other
          (if exception = .operationCanceled ∧ cancelled = true then .cancelled else .failed)
          other.transfer.summary.preparedBytes
          (if exception = .operationCanceled ∧ cancelled = true then none
            else some (call.message exception))).2 := by
      refine hother.of_records records_save ?_
      split_ifs
      · rintro ⟨⟩
      · rintro ⟨⟩
    refine ensures_bind (fun _ ↦ call.NotReady) (ensures_step_keeps hrecorded) fun _ ↦ ?_
    exact ensures_query (fun _ _ _ hvalue ↦ nomatch hvalue) fun _ _ hother _ ↦ hother

theorem ensures_waitForTasks (h : call.FailureRecorded state) :
    Ensures (fun other ↦ other = state) call.waitForTasks (fun _ ↦ True) (fun _ _ ↦ True)
      fun _ ↦ call.NotReady := by
  have hcomplete : Ensures (fun other ↦ other = state) call.complete (fun _ ↦ True) (fun _ _ ↦ True)
      fun failure other ↦ (call.complete state).result = .error failure ∧
        other = (call.complete state).final := by
    rintro _ rfl
    exact ⟨fun _ _ ↦ trivial, fun _ _ ↦ trivial, fun _ hfailure ↦ ⟨hfailure, rfl⟩⟩
  refine ensures_tryCatch _ hcomplete fun exception ↦ ensures_assume fun hexception ↦ ?_
  refine (ensures_recordFailure exception (call.complete state).final).mono (fun _ hother ↦ hother)
    (fun _ _ ↦ trivial) (fun _ _ hfalse ↦ hfalse.elim) fun failure other hother ↦ ?_
  rcases hother with ⟨-, hcancelled | hfailed⟩ | ⟨hunsaved, -⟩
  · exact hcancelled.notReady nofun
  · exact hfailed.notReady nofun
  · exact absurd (h exception hexception) hunsaved

end DownloadCall

end GameLauncher.Downloads
