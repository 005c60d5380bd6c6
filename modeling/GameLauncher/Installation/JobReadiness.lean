import GameLauncher.Installation.JobRuns

/-!
# Ready means installed

The download manager records `Ready` before the installation begins, so a job can be `Ready` without
its game: when the process is stopped between this record and the save of the installed game, when
the record of a failure in between is not accepted, and when the manifest names another game.
`InstallRun.BacksReady` excludes just these runs, and only for runs whose download records `Ready`.
Under this condition on every installation, and with restarts anywhere, `Ready` means installed
(`readyMeansInstalled_of_careful`).
-/

set_option autoImplicit false

namespace GameLauncher.Installation

open Foundation Fallible Manifests Process List
open Downloads (PersistedDownloadJob DownloadCall CallState CallProcess)

variable {Key : Type} {fold : Char → Char}

namespace InstallRun

variable (run : InstallRun Key fold) (game : RuntimeGame) (manifest : Manifest)
  (store : Store fold)

/-! ### When a run backs its record -/

def tasks : Outcome CallState Downloads.LauncherException Unit :=
  (run.call game manifest).untilTasksEnd run.schedule (run.start store).call

/-- The installation after the download. -/
def installation : Outcome (RuntimeState fold) RuntimeFailure Unit :=
  run.runtime.installManifest game manifest
    { world := store.world, jobs := .empty, snapshot := run.snapshot }

/-- The download comes to its record `Ready`, and the store accepts it. -/
def RecordsReady : Prop :=
  (run.tasks game manifest store).result = .ok () ∧
    (run.call game manifest).RecordsReady (run.tasks game manifest store).final

/-- What a run must not do once its download has recorded `Ready`. -/
structure BacksReady : Prop where
  /-- The manifest is one of the game that was asked for. -/
  named : manifest.gameId = game.id
  /-- The process is not stopped between the record and the save of the installed game. -/
  unstopped : ∀ steps, run.stop = some steps →
    (run.tasks game manifest store).visited.length < steps →
      steps < (run.installAsync (run.start store)).visited.length →
        SavedSince store.world (run.reached store).world
  /-- When the download throws after the record, the record of the failure is accepted. -/
  withdrawn : (run.call game manifest).FailureRecorded (run.tasks game manifest store).final
  /-- When the installation throws before the save, the record of the failure is accepted. -/
  recorded : ∀ failure, (run.installation game manifest store).result = .error failure →
    ¬ SavedSince store.world (run.installation game manifest store).final.world →
      run.runtime.env.databaseFault
        (run.installation game manifest store).final.world.clock = false

def Careful : Prop :=
  ∀ game manifest, (run.request (run.start store)).result = .ok (game, manifest) →
    run.RecordsReady game manifest store → run.BacksReady game manifest store

/-! ### What a run leaves -/

/-- The job is not `Ready`, or the game has been saved. -/
def Settled (state : JobState fold) : Prop :=
  (run.call game manifest).NotReady state.call ∨
    Written manifest (run.runtime.installRoot game) store.world state.world

variable {run game manifest store}

theorem written_of_savedSince {root : Path} {before after : World fold}
    (h : MayWrite manifest root before after) (hbefore : before.WellTimed)
    (hsaved : SavedSince before after) : Written manifest root before after := by
  rcases h with huntouched | hwritten
  · obtain ⟨saved, hafter, hlater⟩ := hsaved
    exact absurd hlater (Nat.not_lt.mpr (huntouched.not_saved hbefore hafter))
  · exact hwritten

theorem mayWrite_installation : MayWrite manifest (run.runtime.installRoot game) store.world
    (run.installation game manifest store).final.world := by
  have hadvances : Advances (Order.Preimage RuntimeState.world
      (MayWrite manifest (run.runtime.installRoot game)))
      (run.runtime.installManifest game manifest) := LauncherRuntime.mayWrite_installManifest
  exact (hadvances { world := store.world, jobs := .empty, snapshot := run.snapshot }).2

theorem ensures_inDownload {α : Type} {process : CallProcess α} {before always : CallState → Prop}
    {after : α → CallState → Prop} {fails : Downloads.LauncherException → CallState → Prop}
    (h : Ensures before process always after fails) (world : World fold)
    (snapshot : LauncherRuntimeSnapshot) :
    Ensures (fun state : JobState fold ↦
        (state.world = world ∧ state.snapshot = snapshot) ∧ before state.call)
      (inDownload process) (fun state ↦ always state.call)
      (fun value state ↦ (state.world = world ∧ state.snapshot = snapshot) ∧ after value state.call)
      fun _ state ↦ ∃ exception, fails exception state.call := by
  rintro state ⟨hworld, hstate⟩
  obtain ⟨hvisited, hok, herror⟩ := h state.call hstate
  refine ⟨fun reached hreached ↦ ?_, fun value hvalue ↦ ⟨hworld, ?_⟩, fun failure hfailure ↦ ?_⟩
  · obtain ⟨call, hcall, rfl⟩ := mem_map.mp hreached
    exact hvisited call hcall
  · cases hresult : (process state.call).result with
    | ok returned =>
      simp only [inDownload, hresult, Except.mapError, Except.ok.injEq] at hvalue
      exact hok value (hvalue ▸ hresult)
    | error exception => simp only [inDownload, hresult, Except.mapError, reduceCtorEq] at hvalue
  · cases hresult : (process state.call).result with
    | ok returned => simp only [inDownload, hresult, Except.mapError, reduceCtorEq] at hfailure
    | error exception => exact ⟨exception, herror exception hresult⟩

theorem ensures_installGame_of_download {always fails : CallState → Prop}
    (h : Ensures (fun state ↦ state = (run.start store).call)
      ((run.call game manifest).downloadAsync run.schedule) always (fun _ _ ↦ False) fun _ ↦ fails) :
    Ensures (fun state ↦ state = run.start store) (run.installGame game manifest)
      (fun state ↦ always state.call) (fun _ _ ↦ False) fun _ state ↦ fails state.call := by
  refine ensures_bind (fun _ _ ↦ False) ?_ fun _ _ hfalse ↦ hfalse.elim
  refine (ensures_inDownload h store.world run.snapshot).mono ?_ (fun _ hstate ↦ hstate)
    (fun _ _ hstate ↦ hstate.2) fun _ _ hstate ↦ hstate.elim fun _ hrows ↦ hrows
  rintro _ rfl
  exact ⟨⟨rfl, rfl⟩, rfl⟩

section Runs

variable (hearly : ¬ (run.call game manifest).StopsEarly (run.start store).call)

include hearly

theorem ensures_tasks : Ensures (fun state ↦ state = (run.start store).call)
    ((run.call game manifest).untilTasksEnd run.schedule) (run.call game manifest).InProgress
    (fun _ state ↦ (run.tasks game manifest store).result = .ok () ∧
      state = (run.tasks game manifest store).final ∧ (run.call game manifest).InProgress state)
    fun _ ↦ (run.call game manifest).InProgress := by
  rintro _ rfl
  have htasks : Ensures _ ((run.call game manifest).untilTasksEnd run.schedule) _ _ _ :=
    DownloadCall.ensures_untilTasksEnd hearly
  obtain ⟨hvisited, hok, herror⟩ := htasks _ rfl
  exact ⟨hvisited, fun value hvalue ↦ ⟨hvalue, rfl, hok value hvalue⟩, herror⟩

theorem ensures_installGame_of_not_recordsReady (h : ¬ run.RecordsReady game manifest store) :
    Ensures (fun state ↦ state = run.start store) (run.installGame game manifest)
      (fun state ↦ (run.call game manifest).NotReady state.call) (fun _ _ ↦ False)
      fun _ state ↦ (run.call game manifest).NotReady state.call := by
  refine ensures_installGame_of_download ?_
  refine ensures_bind _ ((ensures_tasks hearly).mono (fun _ hstate ↦ hstate)
    (fun _ hstate ↦ hstate.notReady) (fun _ _ hstate ↦ hstate)
    fun _ _ hstate ↦ hstate.notReady) fun _ ↦ ?_
  rintro _ ⟨htasks, rfl, hrunning⟩
  exact DownloadCall.ensures_waitForTasks_of_not hrunning (fun hready ↦ h ⟨htasks, hready⟩) _ rfl

omit hearly in
/-- The installation saves the game, or leaves a record of its failure. -/
theorem ensures_install (h : run.BacksReady game manifest store) (totals : ℕ × ℕ) :
    Ensures (fun state ↦ state.world = store.world ∧ state.snapshot = run.snapshot)
      (run.install game manifest totals) (fun _ ↦ True)
      (fun _ state ↦ Written manifest (run.runtime.installRoot game) store.world state.world)
      fun _ ↦ run.Settled game manifest store := by
  refine ensures_tryCatch (fun failure state ↦
    (run.installation game manifest store).result = .error failure ∧
      state.world = (run.installation game manifest store).final.world) ?_ fun failure ↦ ?_
  · rintro ⟨_, call, _⟩ ⟨rfl, rfl⟩
    exact ⟨fun _ _ ↦ trivial, fun _ hvalue ↦ LauncherRuntime.installManifest_writes hvalue,
      fun _ hfailure ↦ ⟨hfailure, rfl⟩⟩
  · refine ensures_bind (fun _ state ↦ (run.call game manifest).NotReady state.call)
      (ensures_step (fun _ _ ↦ trivial) ?_ ?_) fun _ ↦
        ensures_query (fun _ _ _ hvalue ↦ nomatch hvalue) fun _ _ hstate _ ↦ .inl hstate
    · rintro state value ⟨-, -⟩ hvalue
      by_cases hfault : run.runtime.env.databaseFault state.world.clock = true
      · simp only [hfault, if_true, reduceCtorEq] at hvalue
      · simp only [hfault, Bool.false_eq_true, if_false]
        refine DownloadCall.Recorded.notReady ⟨_, Function.update_self .., rfl⟩ ?_
        show (if run.runtime.env.canceled state.world.clock then _ else _) ≠ _
        split_ifs <;> exact nofun
    · rintro state raised ⟨hresult, hworld⟩ hraised
      by_cases hfault : run.runtime.env.databaseFault state.world.clock = true
      · simp only [hfault, if_true]
        have hsaved : SavedSince store.world (run.installation game manifest store).final.world := by
          by_contra hunsaved
          have haccepts := h.recorded failure hresult hunsaved
          rw [← hworld, hfault] at haccepts
          cases haccepts
        have hwritten := written_of_savedSince mayWrite_installation store.wellTimed hsaved
        rw [← hworld] at hwritten
        exact .inr (hwritten.trans_untouched (untouched_tick state.world))
      · simp only [hfault, Bool.false_eq_true, if_false, reduceCtorEq] at hraised

theorem ensures_installGame_of_backsReady (h : run.BacksReady game manifest store) :
    Ensures (fun state ↦ state = run.start store) (run.installGame game manifest) (fun _ ↦ True)
      (fun _ ↦ run.Settled game manifest store) fun _ ↦ run.Settled game manifest store := by
  have hdownload : Ensures (fun state ↦ state = (run.start store).call)
      ((run.call game manifest).downloadAsync run.schedule) (fun _ ↦ True) (fun _ _ ↦ True)
      fun _ ↦ (run.call game manifest).NotReady := by
    refine ensures_bind _ ((ensures_tasks hearly).mono (fun _ hstate ↦ hstate)
      (fun _ _ ↦ trivial) (fun _ _ hstate ↦ hstate)
      fun _ _ hstate ↦ hstate.notReady) fun _ ↦ ?_
    rintro _ ⟨-, rfl, -⟩
    exact DownloadCall.ensures_waitForTasks h.withdrawn _ rfl
  refine ensures_bind _ ((ensures_inDownload hdownload store.world run.snapshot).mono ?_
    (fun _ hstate ↦ hstate) (fun _ _ hstate ↦ hstate)
    fun _ _ hstate ↦ .inl (hstate.elim fun _ hrows ↦ hrows)) fun summary ↦ ?_
  · rintro _ rfl
    exact ⟨⟨rfl, rfl⟩, rfl⟩
  refine ensures_bind (fun _ state ↦ Written manifest (run.runtime.installRoot game) store.world
    state.world) ((ensures_install h _).mono (fun _ hstate ↦ hstate.1) (fun _ _ ↦ trivial)
      (fun _ _ hstate ↦ hstate) fun _ _ hstate ↦ hstate) fun _ ↦ ?_
  intro state hstate
  have hrefresh : Written manifest (run.runtime.installRoot game) store.world
      (inRuntime run.runtime.refreshAsync state).final.world := by
    refine hstate.trans_untouched ?_
    simp only [inRuntime, onPart, LauncherRuntime.refreshAsync, step]
    cases run.runtime.services.refresh state.world.clock <;> exact untouched_tick state.world
  exact ⟨fun _ _ ↦ trivial, fun _ _ ↦ .inr hrefresh, fun _ _ ↦ .inr hrefresh⟩

end Runs

theorem tasks_prefix (hrequest : (run.request (run.start store)).result = .ok (game, manifest)) :
    (run.tasks game manifest store).visited.map (fun call ↦ { run.start store with call := call }) <+:
      (run.installAsync (run.start store)).visited := by
  rw [installAsync_of_request hrequest]
  refine List.IsPrefix.trans ?_ visited_prefix_bind
  exact List.IsPrefix.map _ visited_prefix_bind

theorem inProgress_reached
    (hrequest : (run.request (run.start store)).result = .ok (game, manifest))
    (hearly : ¬ (run.call game manifest).StopsEarly (run.start store).call) {steps : ℕ}
    (hsteps : run.stop = some (steps + 1))
    (hlt : steps + 1 < (run.installAsync (run.start store)).visited.length)
    (htasks : steps + 1 ≤ (run.tasks game manifest store).visited.length) :
    (run.call game manifest).InProgress (run.reached store).call := by
  have hvisited : (run.installAsync (run.start store)).visited[steps]? = some (run.reached store) := by
    rw [reached, hsteps]
    exact Outcome.reached_of_lt hlt
  have hmap : ((run.tasks game manifest store).visited.map
      fun call ↦ { run.start store with call := call })[steps]? = some (run.reached store) := by
    obtain ⟨rest, hrest⟩ := tasks_prefix hrequest
    rw [← hvisited, ← hrest, List.getElem?_append_left]
    rw [length_map]
    exact htasks
  obtain ⟨call, hcall, hreached⟩ := mem_map.mp (mem_of_getElem? hmap)
  rw [← hreached]
  obtain ⟨hrunning, -⟩ := ensures_tasks hearly (run.start store).call rfl
  exact hrunning call hcall

theorem settled_reached (hcareful : run.Careful store)
    (hrequest : (run.request (run.start store)).result = .ok (game, manifest))
    (hearly : ¬ (run.call game manifest).StopsEarly (run.start store).call)
    (hstop : run.stop ≠ some 0) :
    (run.call game manifest).NotReady (run.reached store).call ∨ manifest.gameId = game.id ∧
      Written manifest (run.runtime.installRoot game) store.world (run.reached store).world := by
  have hreached : run.reached store ∈ (run.installGame game manifest (run.start store)).visited ∨
      run.reached store = (run.installGame game manifest (run.start store)).final := by
    rw [← installAsync_of_request hrequest]
    exact Outcome.reached_of_ne_zero hstop
  by_cases hready : run.RecordsReady game manifest store
  · have hbacks := hcareful game manifest hrequest hready
    have hfinal : run.Settled game manifest store
        (run.installGame game manifest (run.start store)).final := by
      obtain ⟨-, hok, hfails⟩ := ensures_installGame_of_backsReady hearly hbacks (run.start store) rfl
      cases hresult : (run.installGame game manifest (run.start store)).result with
      | ok value => exact hok value hresult
      | error failure => exact hfails failure hresult
    have hends (hend : run.reached store =
        (run.installGame game manifest (run.start store)).final) :
        (run.call game manifest).NotReady (run.reached store).call ∨ manifest.gameId = game.id ∧
          Written manifest (run.runtime.installRoot game) store.world
            (run.reached store).world := by
      rw [hend]
      exact hfinal.imp_right fun hwritten ↦ ⟨hbacks.named, hwritten⟩
    rcases hreached with hvisited | hend
    · cases hsteps : run.stop with
      | none =>
        refine hends ?_
        rw [← installAsync_of_request hrequest, reached, hsteps]
        rfl
      | some steps =>
        by_cases hended : (run.installAsync (run.start store)).visited.length ≤ steps
        · refine hends ?_
          rw [← installAsync_of_request hrequest, reached, hsteps]
          exact Outcome.reached_of_le hended
        have hlt := Nat.lt_of_not_le hended
        by_cases hafter : (run.tasks game manifest store).visited.length < steps
        · refine .inr ⟨hbacks.named, ?_⟩
          exact written_of_savedSince (run.mayChange_reached hrequest).2 store.wellTimed
            (hbacks.unstopped steps hsteps hafter hlt)
        · left
          obtain ⟨before, rfl⟩ := Nat.exists_eq_succ_of_ne_zero fun hzero ↦ hstop (hzero ▸ hsteps)
          exact (inProgress_reached hrequest hearly hsteps hlt (Nat.le_of_not_lt hafter)).notReady
    · exact hends hend
  · left
    obtain ⟨hvisited, hnever, hfails⟩ :=
      ensures_installGame_of_not_recordsReady hearly hready (run.start store) rfl
    rcases hreached with hreached | hreached
    · exact hvisited _ hreached
    · rw [hreached]
      cases hresult : (run.installGame game manifest (run.start store)).result with
      | ok value => exact (hnever value hresult).elim
      | error failure => exact hfails failure hresult

variable {jobId : Text}

theorem saves_of_ready (hcareful : run.Careful store) (hwrites : run.Writes store jobId)
    {job : PersistedDownloadJob} (hjob : (run.leaves store).rows jobId = some job)
    (hready : job.state = .ready) : run.Saves store jobId := by
  obtain ⟨game, manifest, hrequest, rfl, hearly, hstop⟩ := hwrites
  rcases settled_reached hcareful hrequest hearly hstop with hnot | ⟨hnamed, hwritten⟩
  · exact absurd hready (hnot job hjob)
  · obtain ⟨time, hinstalled⟩ := hwritten.installed
    obtain ⟨saved, hsaved, hlater, -⟩ := hwritten.savedAt
    refine ⟨game, manifest, hrequest, rfl, ⟨saved, hsaved, hlater⟩, ?_⟩
    exact ⟨installedGame manifest (run.runtime.installRoot game) time, hnamed, rfl, rfl, hinstalled⟩

theorem rows_of_not_writes (h : ¬ run.Writes store jobId) :
    (run.leaves store).rows jobId = store.rows jobId := by
  cases hrequest : (run.request (run.start store)).result with
  | error failure =>
    show (run.reached store).call.rows jobId = _
    rw [run.reached_of_error hrequest]
    rfl
  | ok found =>
    by_cases hjob : jobId = installJobId found.1 found.2
    · by_cases hearly : (run.call found.1 found.2).StopsEarly (run.start store).call
      · have hrun : Ensures _ (run.installGame found.1 found.2) _ _ _ :=
          ensures_installGame_of_download
            (DownloadCall.ensures_downloadAsync_of_stopsEarly hearly)
        obtain ⟨hvisited, hnever, hfails⟩ := hrun (run.start store) rfl
        suffices hrows : (run.reached store).call.rows = store.rows from congrFun hrows jobId
        have hcases := Outcome.reached_cases (run.installAsync (run.start store)) (run.start store)
          run.stop
        rw [installAsync_of_request hrequest] at hcases
        rw [reached, installAsync_of_request hrequest]
        rcases hcases with hreached | hreached | hreached
        · rw [hreached]
          rfl
        · exact hvisited _ hreached
        · rw [hreached]
          cases hresult : (run.installGame found.1 found.2 (run.start store)).result with
          | ok value => exact (hnever value hresult).elim
          | error failure => exact hfails failure hresult
      · have hstop : run.stop = some 0 := by
          by_contra hstop
          exact h ⟨found.1, found.2, hrequest, hjob, hearly, hstop⟩
        have hvisited : (run.installAsync (run.start store)).visited ≠ [] := by
          intro hempty
          have hinitial := tasks_prefix hrequest
          rw [hempty] at hinitial
          exact DownloadCall.visited_untilTasksEnd_ne_nil hearly
            (map_eq_nil_iff.mp (List.prefix_nil.mp hinitial))
        show (run.reached store).call.rows jobId = _
        rw [reached, hstop, Outcome.reached_zero hvisited]
        rfl
    · exact (run.mayChange_reached hrequest).1 jobId hjob

end InstallRun

/-! ### Every sequence of installations and restarts -/

namespace Ledger

/-- The installations of a sequence of events are careful where they start. -/
def Careful (ledger : Ledger Key fold) : List (JobEvent Key fold) → Prop
  | [] => True
  | event :: rest =>
    (∀ run, event = .install run → run.Careful ledger.store) ∧ Careful (ledger.next event) rest

variable {ledger : Ledger Key fold}

theorem ReadyMeansInstalled.install (h : ledger.ReadyMeansInstalled) {run : InstallRun Key fold}
    (hrun : run.Careful ledger.store) : (ledger.next (.install run)).ReadyMeansInstalled := by
  intro jobId job hjob hready
  by_cases hwrites : run.Writes ledger.store jobId
  · refine ⟨run, ledger.store, ⟨[], ledger.log, rfl, hwrites, ?_⟩,
      InstallRun.saves_of_ready hrun hwrites hjob hready⟩
    exact fun _ hentry ↦ absurd hentry not_mem_nil
  · have hbefore : ledger.store.rows jobId = some job :=
      (InstallRun.rows_of_not_writes hwrites).symm.trans hjob
    obtain ⟨writer, start, ⟨later, earlier, hlog, hwriter, hlast⟩, hsaves⟩ :=
      h jobId job hbefore hready
    refine ⟨writer, start, ⟨(run, ledger.store) :: later, earlier, ?_, hwriter, ?_⟩, hsaves⟩
    · exact congrArg (List.cons _) hlog
    · intro entry hentry
      rcases mem_cons.mp hentry with rfl | hentry
      · exact hwrites
      · exact hlast entry hentry

theorem ReadyMeansInstalled.restart (h : ledger.ReadyMeansInstalled)
    (startup : Startup Key fold) : (ledger.next (.restart startup)).ReadyMeansInstalled := by
  intro jobId job hjob hready
  obtain ⟨earlier, hearlier, hstate⟩ :=
    (startup.mayRecover_reached ledger.store).2 jobId job hjob hready
  exact h jobId earlier hearlier hstate

theorem ReadyMeansInstalled.run {events : List (JobEvent Key fold)} (h : ledger.ReadyMeansInstalled)
    (hcareful : ledger.Careful events) : (ledger.run events).ReadyMeansInstalled := by
  induction events generalizing ledger with
  | nil => exact h
  | cons event rest ih =>
    refine ih ?_ hcareful.2
    cases event with
    | install run => exact h.install (hcareful.1 run rfl)
    | restart startup => exact h.restart startup

end Ledger

/-! ### An installation and a restart -/

/-- A run of the sample launcher, whose manifest has one file without chunks. -/
def sampleRun (stop : Option ℕ) : InstallRun Bytes id where
  runtime := LauncherRuntime.sampleRuntime
  snapshot := (LauncherRuntime.sampleState "build-1").snapshot
  gameId := "game-1"
  answers := { Downloads.unreachableResolver with
    operations := .ofNetwork Downloads.frameHash Downloads.oneSource }
  session := Downloads.freshState.session
  schedule := []
  stop := stop

def sampleStartup : Startup Bytes id where
  runtime := LauncherRuntime.sampleRuntime
  cacheAnswer := .ok ()
  stop := none

def sampleJobId : Text := "install-game-1-build-1"

/-- An empty machine. -/
def sampleWorld : World id := (LauncherRuntime.sampleState "build-1").world

theorem wellTimed_sampleWorld : sampleWorld.WellTimed := fun _ htime ↦ nomatch htime

/-- An installation on the empty machine, and a restart. -/
def sampleLedger (stop : Option ℕ) : Ledger Bytes id :=
  (Ledger.ofWorld sampleWorld wellTimed_sampleWorld).run
    [.install (sampleRun stop), .restart sampleStartup]

/-! ### The result -/

/-- **Ready means installed, in every sequence of installations and restarts whose installations
back the record `Ready` of their download.** -/
theorem readyMeansInstalled_of_careful (world : World fold) (hworld : world.WellTimed)
    (events : List (JobEvent Key fold)) (h : (Ledger.ofWorld world hworld).Careful events) :
    ((Ledger.ofWorld world hworld).run events).ReadyMeansInstalled :=
  Ledger.ReadyMeansInstalled.run (fun _ _ hjob _ ↦ nomatch hjob) h

/-- An installation that runs to its end, and a restart. -/
theorem readyMeansInstalled_of_careful_sample :
    ((sampleLedger none).store.rows sampleJobId).map PersistedDownloadJob.state = some .ready ∧
      (sampleLedger none).ReadyMeansInstalled := by
  refine ⟨by decide, readyMeansInstalled_of_careful sampleWorld wellTimed_sampleWorld
    [.install (sampleRun none), .restart sampleStartup] ⟨?_, ?_, trivial⟩⟩
  · rintro _ ⟨⟩ game manifest hrequest -
    have hnames : (((sampleRun none).request ((sampleRun none).start
        (Ledger.ofWorld sampleWorld wellTimed_sampleWorld : Ledger Bytes id).store)).result.map
          fun found ↦ decide (found.2.gameId = found.1.id)).toOption = some true := by
      decide
    refine ⟨?_, (fun _ hstop ↦ nomatch hstop), fun _ _ ↦ rfl, fun _ _ _ ↦ rfl⟩
    rw [hrequest] at hnames
    exact of_decide_eq_true (Option.some.inj hnames)
  · rintro _ ⟨⟩

/-- The process is stopped right after the download has recorded `Ready`, and the launcher is started
again: the job is still `Ready`, and no game is installed. -/
theorem not_readyMeansInstalled_stopped :
    (sampleStartup.initializeAsync ((sampleRun (some 4)).leaves
        (Ledger.ofWorld sampleWorld wellTimed_sampleWorld : Ledger Bytes id).store).toStoreState
      ).result.toOption.isSome = true ∧
      ((sampleLedger (some 4)).store.rows sampleJobId).map PersistedDownloadJob.state =
        some .ready ∧
      (sampleLedger (some 4)).store.world.installed.rows = [] ∧
      ¬ (sampleLedger (some 4)).ReadyMeansInstalled := by
  have hready : ((sampleLedger (some 4)).store.rows sampleJobId).map
      PersistedDownloadJob.state = some .ready := by decide
  refine ⟨by decide, hready, by decide, fun hclaim ↦ ?_⟩
  obtain ⟨job, hjob, hstate⟩ := Option.map_eq_some_iff.mp hready
  obtain ⟨run, store, ⟨later, earlier, hlog, -⟩, hsaves⟩ := hclaim sampleJobId job hjob hstate
  obtain ⟨-, -, -, -, ⟨saved, hsaved, -⟩, -⟩ := hsaves
  have hentry : (run, store) ∈ (sampleLedger (some 4)).log := by
    rw [hlog]
    exact mem_append_right _ mem_cons_self
  obtain ⟨rfl, rfl⟩ := Prod.mk.inj (mem_singleton.mp hentry)
  have hnever : ((sampleRun (some 4)).leaves
      (Ledger.ofWorld sampleWorld wellTimed_sampleWorld : Ledger Bytes id).store).world.savedAt =
        none := by decide
  cases hnever.symm.trans hsaved

end GameLauncher.Installation
