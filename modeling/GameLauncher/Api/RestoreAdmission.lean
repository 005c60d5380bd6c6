import GameLauncher.Api.RateLimiter
import GameLauncher.Api.ResolutionCoverage
import GameLauncher.Jobs.JobRuns

/-!
# Admission of restore jobs

Requests of `resolve_chunks` and `resolve_packs` that come to queue restores run next to each other
and next to the workers on the queues. Each takes the admission lock, reads the depth of the queues,
and enqueues its jobs one after the other, each with a look for an active job and an insertion; it
lets go of the lock when it ends. `restore_admission_bound` is the bound that the lock is for.

A step is one statement of one party. A request may be given up between two statements, by an error
of the database or by its client.
-/

set_option autoImplicit false

namespace GameLauncher.Api.Admission

open Foundation Jobs

/-! ### Requests -/

/-- The restores that a handler asks for, as packs or chunks, and its client. -/
structure RestoreRequest where
  clientKey : Text
  targets : List (Bool × Text)

/-- Where a request is. -/
inductive Phase
  | waiting
  | admitting
  | enqueuing (left : List (Bool × Text))
  | inserting (target : Bool × Text) (left : List (Bool × Text))
  | ended

/-- Does a request hold the admission lock? -/
def Phase.holdsLock : Phase → Bool
  | .waiting | .ended => false
  | .admitting | .enqueuing _ | .inserting _ _ => true

/-- How many jobs a request may still insert. -/
def Phase.remaining : Phase → ℕ
  | .waiting | .admitting | .ended => 0
  | .enqueuing left => left.length
  | .inserting _ left => left.length + 1

/-- A request, with the jobs that it has inserted. -/
structure Request where
  restore : RestoreRequest
  phase : Phase
  created : List (Queue × ℕ)

/-- One API process and the database. -/
structure World where
  jobs : System
  windows : RateWindows
  lock : Option ℕ
  requests : ℕ → Option Request

def queueOf (isPack : Bool) : Queue := if isPack then .packRestoreJobs else .restoreJobs

def activeIn (jobs : System) (queue : Queue) : ℕ :=
  (jobs.tables queue).jobs.countWhere fun job ↦ job.state.isActive

def activeJobs (jobs : System) : ℕ := activeIn jobs .restoreJobs + activeIn jobs .packRestoreJobs

/-- `restore_queue_depth`, as a `usize`. -/
def restoreQueueDepth (jobs : System) : ℕ := min (activeJobs jobs) (u64Size - 1)

/-- The job that `enqueue_restore_job` and `enqueue_pack_restore_job` find before they insert. -/
def activeJob (table : JobTable) (contentHash targetProvider : Text) : Option Jobs.RestoreJob :=
  ((table.jobs.rows.filter fun job ↦ job.contentHash == contentHash &&
    job.targetProvider == targetProvider && job.state.isActive).insertionSort
      fun first other ↦ first.id ≤ other.id).head?

/-- The two statements together are the transaction. -/
theorem enqueue_eq (table : JobTable) (contentHash targetProvider : Text) (now : ℤ) :
    table.enqueue contentHash targetProvider now =
      match activeJob table contentHash targetProvider with
      | some job => .ok (job, table)
      | none => table.insert contentHash targetProvider now := rfl

/-! ### Steps -/

inductive RequestStep
  | lock
  | admitJobs (now : ℕ) (readable : Bool)
  | look
  | insert (now : ℤ)
  | finish
  | abandon

/-- A new request, a step of one that is there, or a transaction of a worker. -/
inductive Action
  | arrive (id : ℕ) (restore : RestoreRequest)
  | request (id : ℕ) (step : RequestStep)
  | worker (action : Jobs.Action)

namespace World

/-- The world in which a request has come to another phase. -/
def enter (world : World) (id : ℕ) (request : Request) (phase : Phase) : World :=
  { world with requests := Function.update world.requests id (some { request with phase := phase }) }

/-- The world in which a request has ended; it lets go of the lock if it holds it. -/
def leave (world : World) (id : ℕ) (request : Request) : World :=
  { world.enter id request .ended with
    lock := if request.phase.holdsLock then none else world.lock }

end World

variable (app : AppState) (limiter : RequestRateLimiter)

/-- The answer of the rate limiter, which is asked only about a request of a possible size. -/
def askLimiter (world : World) (request : Request) (now : ℕ) : RateWindows × Option ℕ :=
  let requestedJobs := request.restore.targets.length
  if requestedJobs = 0 ∨ app.maxRestoreJobsPerRequest < requestedJobs then (world.windows, none)
  else limiter.retryAfterSeconds world.windows request.restore.clientKey now

/-- What `admit_restore_jobs` reads of the state of the API. -/
def admissionState (world : World) (request : Request) (now : ℕ) : AppState :=
  { app with
    retryAfterSeconds := (askLimiter app limiter world request now).2
    restoreQueueDepth := restoreQueueDepth world.jobs }

/-- `admit_restore_jobs`, once it has the lock; the depth may be unreadable. -/
def admitJobs (world : World) (id : ℕ) (request : Request) (now : ℕ) (readable : Bool) : World :=
  let asked := { world with windows := (askLimiter app limiter world request now).1 }
  match admitRestoreJobs (admissionState app limiter world request now)
      request.restore.targets.length with
  | .error _ => asked.leave id request
  | .ok () =>
    if readable then asked.enter id request (.enqueuing request.restore.targets)
    else asked.leave id request

/-- A step of a request, where it is in the phase for it. -/
def stepRequest (world : World) (id : ℕ) (request : Request) (step : RequestStep) : World :=
  match step, request.phase with
  | .lock, .waiting =>
    if world.lock = none then { world.enter id request .admitting with lock := some id }
    else world
  | .admitJobs now readable, .admitting => admitJobs app limiter world id request now readable
  | .look, .enqueuing (target :: left) =>
    match activeJob (world.jobs.tables (queueOf target.1)) target.2 app.restoreTarget with
    | some _ => world.enter id request (.enqueuing left)
    | none => world.enter id request (.inserting target left)
  | .insert now, .inserting target left =>
    match (world.jobs.tables (queueOf target.1)).insert target.2 app.restoreTarget now with
    | .error _ => world.leave id request
    | .ok (job, table) =>
      { world with jobs := world.jobs.store (queueOf target.1) (.ok table) }.enter id
        { request with created := (queueOf target.1, job.id) :: request.created } (.enqueuing left)
  | .finish, .enqueuing [] => world.leave id request
  | .abandon, _ => world.leave id request
  | _, _ => world

/-- One step. A request comes to restores only with a database. -/
def step (world : World) : Action → World
  | .arrive id restore =>
    if app.database.isSome = true ∧ (world.requests id).isNone = true then
      { world with requests := Function.update world.requests id (some ⟨restore, .waiting, []⟩) }
    else world
  | .request id step =>
    match world.requests id with
    | none => world
    | some request => stepRequest app limiter world id request step
  | .worker action => { world with jobs := world.jobs.step action }

/-- A worker still has the lease under which it claimed a job. -/
def HoldsLease (jobs : System) (queue : Queue) (claimed : Jobs.RestoreJob) : Prop :=
  ∃ job ∈ (jobs.tables queue).jobs, job.id = claimed.id ∧ job.state = .running ∧
    job.workerId = claimed.workerId ∧ job.leaseUntil = claimed.leaseUntil

/-- Workers do not enqueue, and only those report a job that hold its lease. -/
def Allowed (world : World) : Action → Prop
  | .worker (.enqueue _ _ _ _) => False
  | .worker (.complete queue claimed _) => HoldsLease world.jobs queue claimed
  | .worker (.fail queue claimed _ _) => HoldsLease world.jobs queue claimed
  | _ => True

/-! ### The number of active jobs -/

variable {world : World}

@[simp] theorem activeIn_store_ok (jobs : System) (queue other : Queue) (table : JobTable) :
    activeIn (jobs.store queue (.ok table)) other =
      if other = queue then table.jobs.countWhere fun job ↦ job.state.isActive
      else activeIn jobs other := by
  rw [activeIn, System.store_ok_tables]
  split_ifs
  · rfl
  · rfl

theorem activeJobs_store_le (jobs : System) (queue : Queue) (table : JobTable) (more : ℕ)
    (h : (table.jobs.countWhere fun job ↦ job.state.isActive) ≤ activeIn jobs queue + more) :
    activeJobs (jobs.store queue (.ok table)) ≤ activeJobs jobs + more := by
  cases queue with
  | restoreJobs | packRestoreJobs =>
    simp only [activeJobs, activeIn_store_ok, if_true, reduceCtorEq, if_false]
    omega

theorem activeJobs_update_le (jobs base : System) (hbase : base.tables = jobs.tables)
    (queue : Queue) (condition : Jobs.RestoreJob → Bool) (change : JobChange)
    (h : ∀ job ∈ (jobs.tables queue).jobs, condition job = true → job.state.isActive = true ∨
      (change.apply job).state.isActive = false) :
    activeJobs (base.store queue ((jobs.tables queue).updateWhere condition change)) ≤
      activeJobs jobs := by
  have hsame : activeJobs base = activeJobs jobs := by
    simp only [activeJobs, activeIn, hbase]
  match hupdate : (jobs.tables queue).updateWhere condition change with
  | .error _ => exact hsame.le
  | .ok table =>
    rw [← hsame]
    refine activeJobs_store_le base queue table 0 ?_
    rw [JobTable.updateWhere_eq_ok hupdate, activeIn, hbase]
    refine Table.countWhere_updateWhere_le fun job hjob hcondition hactive ↦ ?_
    refine (h job hjob hcondition).resolve_right fun hinactive ↦ ?_
    exact absurd (hinactive.symm.trans hactive) Bool.false_ne_true

theorem isActive_of_claimable {job : Jobs.RestoreJob} {now : ℤ}
    (h : JobTable.claimable now job = true) : job.state.isActive = true := by
  simp only [JobTable.claimable, Bool.and_eq_true, Bool.or_eq_true, beq_iff_eq] at h
  rcases h.2 with (hstate | hstate) | ⟨hstate, -⟩
  · rw [hstate]
    rfl
  · rw [hstate]
    rfl
  · rw [hstate]
    rfl

theorem activeJobs_step_le {action : Jobs.Action} (hallowed : Allowed world (.worker action)) :
    activeJobs (world.jobs.step action) ≤ activeJobs world.jobs := by
  cases action with
  | enqueue queue contentHash targetProvider now => exact hallowed.elim
  | claim queue worker leaseSeconds now workerNow locked =>
    simp only [System.step]
    split
    · next claimed table hclaim =>
      unfold JobTable.claim at hclaim
      split at hclaim
      · cases hclaim
      · next next hnext =>
        obtain ⟨hmem, hclaimable, -⟩ := JobTable.nextJob_eq_some hnext
        obtain ⟨made, hmade, hpair⟩ := Fallible.bind_eq_ok.mp hclaim
        obtain rfl : made = table := (Prod.mk.inj (Except.ok.inj hpair)).2
        rw [← hmade]
        refine activeJobs_update_le _ _ rfl _ _ _ fun job hjob hcondition ↦ .inl ?_
        have hsame : job = next := Table.eq_of_key_eq hjob hmem (beq_iff_eq.mp hcondition)
        rw [hsame]
        exact isActive_of_claimable hclaimable
    · exact le_rfl
  | complete queue claimed now =>
    simp only [System.step, JobTable.complete]
    split_ifs
    · exact activeJobs_update_le _ _ rfl _ _ _ fun _ _ _ ↦ .inr rfl
    · exact le_rfl
  | fail queue claimed error now =>
    obtain ⟨holder, hholder, hid, hrunning, -, -⟩ := hallowed
    simp only [System.step, JobTable.fail]
    split_ifs
    · refine activeJobs_update_le _ _ rfl _ _ _ fun job hjob hcondition ↦ .inl ?_
      have hsame : job = holder :=
        Table.eq_of_key_eq hjob hholder ((beq_iff_eq.mp hcondition).trans hid.symm)
      rw [hsame, hrunning]
      rfl
    · exact le_rfl
  | recover queue now =>
    refine activeJobs_update_le _ _ rfl _ _ _ fun job _ hcondition ↦ .inl ?_
    have hrunning : job.state = .running :=
      beq_iff_eq.mp ((Bool.and_eq_true _ _).mp hcondition).1
    rw [hrunning]
    rfl
  | claimIngestion worker leaseSeconds now workerNow locked =>
    simp only [System.step]
    split
    · exact le_rfl
    · exact le_rfl
  | completeIngestion _ _ _ | failIngestion _ _ _ _ =>
    simp only [System.step]
    split_ifs
    · exact le_rfl
    · exact le_rfl
  | recoverIngestion now => exact le_rfl

theorem activeJobs_insert_le {jobs : System} {queue : Queue} {contentHash targetProvider : Text}
    {now : ℤ} {job : Jobs.RestoreJob} {table : JobTable}
    (h : (jobs.tables queue).insert contentHash targetProvider now = .ok (job, table)) :
    activeJobs (jobs.store queue (.ok table)) ≤ activeJobs jobs + 1 := by
  refine activeJobs_store_le jobs queue table 1 ?_
  unfold JobTable.insert at h
  split_ifs at h
  obtain ⟨-, rfl⟩ := Prod.mk.inj (Except.ok.inj h)
  exact Table.countWhere_upsert_le _ _ _

/-! ### The invariant -/

/-- What holds of a request in a world: in the phases after the lock it has the lock, there is room
for all that it may still insert, and that is not too much. -/
structure Fits (world : World) (id : ℕ) (request : Request) : Prop where
  database : app.database.isSome = true
  holder : request.phase.holdsLock = true → world.lock = some id
  fresh : request.phase = .waiting ∨ request.phase = .admitting → request.created = []
  room : 0 < request.phase.remaining →
    min (activeJobs world.jobs + request.phase.remaining) (u64Size - 1) ≤ app.maxPendingRestoreJobs
  few : request.created.length + request.phase.remaining ≤ app.maxRestoreJobsPerRequest

def Bounded (world : World) : Prop :=
  ∀ id request, world.requests id = some request → Fits app world id request

variable {app}

theorem Phase.holdsLock_of_remaining {phase : Phase} (h : 0 < phase.remaining) :
    phase.holdsLock = true := by
  cases phase with
  | waiting | admitting | ended => exact absurd h (Nat.lt_irrefl 0)
  | enqueuing _ | inserting _ _ => rfl

variable {id : ℕ} {request : Request}

theorem Fits.of_world {next : World} (h : Fits app world id request)
    (hlock : request.phase.holdsLock = true → world.lock = some id → next.lock = some id ∧
      activeJobs next.jobs ≤ activeJobs world.jobs) : Fits app next id request where
  database := h.database
  holder := fun hholds ↦ (hlock hholds (h.holder hholds)).1
  fresh := h.fresh
  room := by
    intro hremaining
    have hholds := Phase.holdsLock_of_remaining hremaining
    have hfewer := (hlock hholds (h.holder hholds)).2
    have hroom := h.room hremaining
    omega
  few := h.few

/-- A step of one request keeps the invariant when that request fits afterwards, and no other loses
the lock or its room. -/
theorem Bounded.of_request {next : World} (h : Bounded app world)
    (hrequests : next.requests = Function.update world.requests id (some request))
    (hfits : Fits app next id request) (hothers : ∀ other, other ≠ id → world.lock = some other →
      next.lock = some other ∧ activeJobs next.jobs ≤ activeJobs world.jobs) :
    Bounded app next := by
  intro other found hfound
  rw [hrequests] at hfound
  by_cases hother : other = id
  · subst hother
    rw [Function.update_self] at hfound
    obtain rfl := Option.some.inj hfound
    exact hfits
  · rw [Function.update_of_ne hother] at hfound
    exact (h other found hfound).of_world fun _ hlock ↦ hothers other hother hlock

theorem Bounded.leave (h : Bounded app world) (hfits : Fits app world id request) :
    Bounded app (world.leave id request) := by
  have hended : Fits app (world.leave id request) id { request with phase := .ended } :=
    { database := hfits.database
      holder := fun hholds ↦ absurd hholds Bool.false_ne_true
      fresh := fun hphase ↦ by simp at hphase
      room := fun hremaining ↦ absurd hremaining (Nat.lt_irrefl 0)
      few := le_trans (Nat.add_le_add_left (Nat.zero_le _) _) hfits.few }
  refine h.of_request rfl hended fun other hother hlock ↦ ⟨?_, le_rfl⟩
  by_cases hholds : request.phase.holdsLock = true
  · have hsame := hlock.symm.trans (hfits.holder hholds)
    exact absurd (Option.some.inj hsame) hother
  · rw [World.leave, if_neg hholds]
    exact hlock

theorem admitRestoreJobs_ok {state : AppState} {requestedJobs : ℕ}
    (h : admitRestoreJobs state requestedJobs = .ok ()) (hdatabase : state.database.isSome = true)
    (hrequested : 0 < requestedJobs) :
    requestedJobs ≤ state.maxRestoreJobsPerRequest ∧
      saturatingAdd state.restoreQueueDepth requestedJobs ≤ state.maxPendingRestoreJobs := by
  rw [admitRestoreJobs, if_neg hrequested.ne'] at h
  obtain ⟨_, hsize, h⟩ := Fallible.bind_eq_ok.mp h
  obtain ⟨_, -, hdepth⟩ := Fallible.bind_eq_ok.mp h
  rw [Fallible.throwIf_eq_ok, not_and, not_lt] at hdepth
  rw [Fallible.throwIf_eq_ok, not_lt] at hsize
  exact ⟨hsize, hdepth hdatabase⟩

theorem Bounded.enter {phase : Phase} (h : Bounded app world)
    (hfits : Fits app world id { request with phase := phase }) :
    Bounded app (world.enter id request phase) :=
  h.of_request rfl (hfits.of_world fun _ hlock ↦ ⟨hlock, le_rfl⟩)
    fun _ _ hlock ↦ ⟨hlock, le_rfl⟩

theorem Bounded.admitJobs (h : Bounded app world) (hfits : Fits app world id request)
    (hphase : request.phase = .admitting) (now : ℕ) (readable : Bool) :
    Bounded app (admitJobs app limiter world id request now readable) := by
  unfold Admission.admitJobs
  -- Admission changes nothing but the windows.
  set asked : World := { world with windows := (askLimiter app limiter world request now).1 }
  have hbounded : Bounded app asked :=
    fun other found hfound ↦ (h other found hfound).of_world fun _ hlock ↦ ⟨hlock, le_rfl⟩
  have hasked : Fits app asked id request := hfits.of_world fun _ hlock ↦ ⟨hlock, le_rfl⟩
  have hcreated : request.created = [] := hfits.fresh (.inr hphase)
  split
  · exact hbounded.leave hasked
  · next hadmitted =>
    by_cases hreadable : readable = true
    · have hrest : 0 < request.restore.targets.length →
          request.restore.targets.length ≤ app.maxRestoreJobsPerRequest ∧
          saturatingAdd (restoreQueueDepth world.jobs) request.restore.targets.length ≤
            app.maxPendingRestoreJobs :=
        admitRestoreJobs_ok hadmitted hfits.database
      rw [if_pos hreadable]
      refine hbounded.enter ⟨hfits.database, fun _ ↦ hfits.holder (by rw [hphase]; rfl),
        fun _ ↦ hcreated, fun hremaining ↦ ?_, ?_⟩
      · have hdepth := (hrest hremaining).2
        simp only [saturatingAdd, restoreQueueDepth] at hdepth
        change min (activeJobs world.jobs + request.restore.targets.length) (u64Size - 1) ≤ _
        omega
      · change request.created.length + request.restore.targets.length ≤ _
        rw [hcreated, List.length_nil, Nat.zero_add]
        by_cases hempty : request.restore.targets.length = 0
        · omega
        · exact (hrest (Nat.pos_of_ne_zero hempty)).1
    · rw [if_neg hreadable]
      exact hbounded.leave hasked

theorem Bounded.stepRequest (h : Bounded app world) (hrequest : world.requests id = some request)
    (step : RequestStep) : Bounded app (stepRequest app limiter world id request step) := by
  have hfits := h id request hrequest
  unfold Admission.stepRequest
  split
  · next hphase =>
    split_ifs with hfree
    · refine h.of_request rfl ⟨hfits.database, fun _ ↦ rfl, fun _ ↦ hfits.fresh (.inl hphase),
        fun hremaining ↦ absurd hremaining (Nat.lt_irrefl 0), ?_⟩ fun other _ hlock ↦ ?_
      · exact le_trans (Nat.add_le_add_left (Nat.zero_le _) _) hfits.few
      · exact absurd (hfree.symm.trans hlock) (by simp)
    · exact h
  · next now readable hphase => exact h.admitJobs limiter hfits hphase now readable
  · next target left hphase =>
    have hholder : world.lock = some id := hfits.holder (by rw [hphase]; rfl)
    have hroom := hfits.room
    have hfew := hfits.few
    simp only [hphase, Phase.remaining, List.length_cons] at hroom hfew
    split
    · exact h.enter
        { database := hfits.database
          holder := fun _ ↦ hholder
          fresh := fun hother ↦ by simp at hother
          room := fun _ ↦ by
            simp only [Phase.remaining]
            omega
          few := by
            simp only [Phase.remaining]
            omega }
    · exact h.enter
        { database := hfits.database
          holder := fun _ ↦ hholder
          fresh := fun hother ↦ by simp at hother
          room := hroom
          few := hfew }
  · next now target left hphase =>
    have hholder : world.lock = some id := hfits.holder (by rw [hphase]; rfl)
    have hroom := hfits.room
    have hfew := hfits.few
    simp only [hphase, Phase.remaining] at hroom hfew
    split
    · exact h.leave hfits
    · next job table hinsert =>
      have hone := activeJobs_insert_le hinsert
      refine h.of_request rfl
        { database := hfits.database
          holder := fun _ ↦ hholder
          fresh := fun hother ↦ by simp at hother
          room := fun _ ↦ ?_
          few := ?_ } fun other hother hlock ↦ ?_
      · change min (activeJobs (world.jobs.store _ (.ok table)) + left.length) (u64Size - 1) ≤ _
        refine le_trans (min_le_min_right _ ?_) (hroom (Nat.succ_pos _))
        omega
      · simp only [Phase.remaining, List.length_cons]
        omega
      · exact absurd (Option.some.inj (hlock.symm.trans hholder)) hother
  · exact h.leave hfits
  · exact h.leave hfits
  · exact h

theorem Bounded.step (h : Bounded app world) {action : Action} (hallowed : Allowed world action) :
    Bounded app (step app limiter world action) := by
  cases action with
  | arrive id restore =>
    simp only [Admission.step]
    split_ifs with harrives
    · refine h.of_request rfl ⟨harrives.1, fun hholds ↦ absurd hholds Bool.false_ne_true,
        fun _ ↦ rfl, fun hremaining ↦ absurd hremaining (Nat.lt_irrefl 0), Nat.zero_le _⟩
        fun _ _ hlock ↦ ⟨hlock, le_rfl⟩
    · exact h
  | request id step =>
    simp only [Admission.step]
    split
    · exact h
    · next request hrequest => exact h.stepRequest limiter hrequest step
  | worker action =>
    exact fun id request hrequest ↦ (h id request hrequest).of_world
      fun _ hlock ↦ ⟨hlock, activeJobs_step_le hallowed⟩

theorem jobs_stepRequest (world : World) (id : ℕ) (request : Request) (step : RequestStep) :
    (stepRequest app limiter world id request step).jobs = world.jobs ∨
      ∃ target left job table now, request.phase = .inserting target left ∧
        (world.jobs.tables (queueOf target.1)).insert target.2 app.restoreTarget now =
          .ok (job, table) ∧
        (stepRequest app limiter world id request step).jobs =
          world.jobs.store (queueOf target.1) (.ok table) := by
  unfold stepRequest
  split
  · split_ifs
    · exact .inl rfl
    · exact .inl rfl
  · left
    unfold admitJobs
    split
    · rfl
    · split_ifs
      · rfl
      · rfl
  · split
    · exact .inl rfl
    · exact .inl rfl
  · next now target left hphase =>
    split
    · exact .inl rfl
    · next job table hinsert =>
      exact .inr ⟨target, left, job, table, now, hphase, hinsert, rfl⟩
  · exact .inl rfl
  · exact .inl rfl
  · exact .inl rfl

theorem Bounded.depth_stepRequest (h : Bounded app world)
    (hrequest : world.requests id = some request) (step : RequestStep)
    (hjobs : (Admission.stepRequest app limiter world id request step).jobs ≠ world.jobs) :
    restoreQueueDepth (Admission.stepRequest app limiter world id request step).jobs ≤
      app.maxPendingRestoreJobs := by
  obtain ⟨target, left, job, table, now, hphase, hinsert, hafter⟩ :=
    (jobs_stepRequest limiter world id request step).resolve_left hjobs
  have hroom := (h id request hrequest).room (by rw [hphase]; exact Nat.succ_pos _)
  rw [hphase] at hroom
  rw [hafter, restoreQueueDepth]
  refine le_trans (min_le_min_right _ ?_) hroom
  exact (activeJobs_insert_le hinsert).trans
    (Nat.add_le_add_left (Nat.succ_le_succ (Nat.zero_le _)) _)

/-- Whatever requests and workers do, a request that changes the queues leaves them within the
limit, and inserts no more jobs than a request may. -/
theorem restore_admission_bound {start world : World}
    (hstart : ∀ id, start.requests id = none)
    (h : Reaches (step app limiter) Allowed start world) :
    (∀ id step, (Admission.step app limiter world (.request id step)).jobs ≠ world.jobs →
      restoreQueueDepth (Admission.step app limiter world (.request id step)).jobs ≤
        app.maxPendingRestoreJobs) ∧
    ∀ id request, world.requests id = some request →
      request.created.length ≤ app.maxRestoreJobsPerRequest := by
  have hbounded : Bounded app world := by
    refine h.invariant (Bounded app) (fun id request hrequest ↦ ?_)
      fun world action hworld hallowed ↦ hworld.step limiter hallowed
    rw [hstart id] at hrequest
    cases hrequest
  refine ⟨fun id step hjobs ↦ ?_, fun id request hrequest ↦ ?_⟩
  · simp only [Admission.step] at hjobs ⊢
    split at hjobs
    · exact absurd rfl hjobs
    · next request hrequest =>
      exact hbounded.depth_stepRequest limiter hrequest step hjobs
  · exact (Nat.le_add_right _ _).trans (hbounded id request hrequest).few

/-- Two requests for a pack and a chunk, one after the other. -/
def twoRequests : List Action :=
  [.arrive 0 ⟨"shared", [(true, ['a'])]⟩, .arrive 1 ⟨"shared", [(false, ['b'])]⟩,
    .request 0 .lock, .request 0 (.admitJobs 0 true), .request 0 .look, .request 0 (.insert 0),
    .request 1 .lock, .request 0 .finish, .request 1 .lock, .request 1 (.admitJobs 1 true),
    .request 1 .look]

/-- No job and no request. -/
def World.empty : World := ⟨.empty, .empty, none, fun _ ↦ none⟩

/-- The world after the two requests have come so far. -/
def afterTwo : World :=
  twoRequests.foldl (step (serverWith servedCatalog) (.withProxyHeaders 2 nanosPerSecond)) .empty

theorem second_insertion_bounded :
    restoreQueueDepth (step (serverWith servedCatalog) (.withProxyHeaders 2 nanosPerSecond)
      afterTwo (.request 1 (.insert 2))).jobs ≤ 100 := by
  have hreaches : Reaches (step (serverWith servedCatalog) (.withProxyHeaders 2 nanosPerSecond))
      Allowed .empty afterTwo :=
    Reaches.refl.foldl (by simp [twoRequests, Permitted, Allowed])
  refine (restore_admission_bound _ (fun _ ↦ rfl) hreaches).1 1 (.insert 2) fun hsame ↦ ?_
  exact absurd (congrArg activeJobs hsame) (by decide)

end GameLauncher.Api.Admission
