import GameLauncher.Scraper.JobRuns

/-!
# No job is stuck

Every writer of the job store stores a whole copy of a job, however old the copy is. `Storable` says
of a copy what all writers keep to: it is stored with a lease, or it has ended, or it waits for a
retry that it has attempts left for. `not_stuck` concludes that in every run each job has ended, can
be claimed at once or carries a lease, after which `recover_expired` picks it up.

`cancel` reads the job and stores its copy in two transactions, with other calls in between, and so
the runs are those of the workers and of any number of callers in the middle of `cancel`.
-/

set_option autoImplicit false

namespace GameLauncher.Scraper

open Foundation

/-! ### The system with its cancelling callers -/

/-- The workers' system, and the copies that callers of `cancel` have read. -/
structure StoreSystem where
  system : System
  cancelling : ℕ → Option ScrapeJob

/-- An action of the workers' system, or one of the two halves of `cancel`. -/
inductive StoreAction
  | act (action : Action)
  | readForCancel (caller : ℕ) (jobId : Text)
  | writeCancelled (caller : ℕ) (reason : Text) (now : ℤ)
  deriving DecidableEq, Repr

namespace StoreSystem

/-- No job, no worker and no caller. -/
def empty : StoreSystem := ⟨.empty, fun _ ↦ none⟩

def step (store : StoreSystem) : StoreAction → StoreSystem
  | .act action => { store with system := store.system.step action }
  | .readForCancel caller jobId =>
    { store with
      cancelling := Function.update store.cancelling caller (store.system.table.getJob jobId) }
  | .writeCancelled caller reason now =>
    match store.cancelling caller with
    | none => store
    | some job =>
      { system := { store.system with
          table := store.system.table.save (JobTable.cancelled job reason) now }
        cancelling := Function.update store.cancelling caller none }

end StoreSystem

/-- Every job is enqueued with an attempt at least. -/
def StoreAction.Allowed : StoreAction → Prop
  | .act (.enqueue _ _ maxAttempts _ _) => 1 ≤ maxAttempts
  | _ => True

instance : DecidablePred StoreAction.Allowed
  | .act (.enqueue _ _ maxAttempts _ _) => inferInstanceAs (Decidable (1 ≤ maxAttempts))
  | .act (.claim ..) | .act (.progress ..) | .act (.call ..) | .act (.failedCall ..)
  | .act (.crash ..) | .act (.cancel ..) | .act (.recoverExpired ..) | .readForCancel ..
  | .writeCancelled .. => isTrue trivial

/-! ### Rows -/

/-- A job that can be claimed at once. -/
structure JobRow.Waits (row : JobRow) : Prop where
  status : row.status = .queued ∨ row.status = .retry
  attempts : (row.attempts : ℤ) < row.maxAttempts
  leaseUntil : row.leaseUntil = none

/-- A job that is not stuck, with columns that say what its payload says. -/
structure JobRow.NotStuck (row : JobRow) : Prop where
  status : row.payload.status = row.status
  attempts : row.payload.attempts = row.attempts
  maxAttempts : row.payload.maxAttempts = row.maxAttempts
  moves : row.status.ended = true ∨ row.Waits ∨ row.leaseUntil.isSome = true

/-- What every writer keeps to. -/
def Storable (job : ScrapeJob) (leaseEpoch : Option ℤ) : Prop :=
  leaseEpoch.isSome = true ∨ job.leaseUntil = none ∧
    (job.status.ended = true ∨ job.status = .retry ∧ (job.attempts : ℤ) < job.maxAttempts)

theorem JobRow.Waits.claimable {row : JobRow} (h : row.Waits) (now : ℤ) :
    JobTable.claimable now row = true := by
  have hstatus : (row.status == .queued || row.status == .retry) = true := by
    rw [Bool.or_eq_true, beq_iff_eq, beq_iff_eq]
    exact h.status
  rw [JobTable.claimable, hstatus, h.leaseUntil, decide_eq_true h.attempts]
  rfl

theorem notStuck_write {job : ScrapeJob} {leaseEpoch : Option ℤ} (h : Storable job leaseEpoch)
    (row : JobRow) (now : ℤ) : (row.write job leaseEpoch now).NotStuck where
  status := rfl
  attempts := rfl
  maxAttempts := rfl
  moves := by
    rcases h with hlease | ⟨hnone, hended | ⟨hretry, hattempts⟩⟩
    · obtain ⟨lease, rfl⟩ := Option.isSome_iff_exists.mp hlease
      exact .inr (.inr rfl)
    · exact .inl hended
    · cases leaseEpoch with
      | some lease => exact .inr (.inr rfl)
      | none => exact .inr (.inl ⟨.inr hretry, hattempts, hnone⟩)

theorem notStuck_ofNewJob {maxAttempts : ℤ} (h : 1 ≤ maxAttempts) (uuid sourceName : Text)
    (targetReleaseId : Option Text) (now : ℤ) :
    (JobRow.ofNewJob (.new uuid sourceName targetReleaseId maxAttempts now) now).NotStuck where
  status := rfl
  attempts := rfl
  maxAttempts := rfl
  moves := .inr (.inl ⟨.inl rfl, Int.lt_of_lt_of_le Int.zero_lt_one h, rfl⟩)

/-! ### The writers -/

theorem storable_retryStatus {job : ScrapeJob} {retry : Bool} (hnone : job.leaseUntil = none)
    (hstatus : ∃ other : ScrapeJob, other.attempts = job.attempts ∧
      other.maxAttempts = job.maxAttempts ∧ job.status = JobTable.retryStatus other retry) :
    Storable job none := by
  obtain ⟨other, hattempts, hmax, hstatus⟩ := hstatus
  unfold JobTable.retryStatus at hstatus
  split_ifs at hstatus with hretry
  · obtain ⟨-, hless⟩ := Bool.and_eq_true_iff.mp hretry
    rw [decide_eq_true_eq, hattempts, hmax] at hless
    exact .inr ⟨hnone, .inr ⟨hstatus, hless⟩⟩
  · exact .inr ⟨hnone, .inl (hstatus ▸ rfl)⟩

theorem storable_call {worker after : Worker} {now : ℤ} {request : Call} {lease : Option ℤ}
    {ends : Bool} (h : worker.call now request = some (after, lease, ends)) :
    Storable after.job lease := by
  cases request with
  | recordDiscovery outcome =>
    simp only [Worker.call, Worker.heartbeat] at h
    split_ifs at h <;> cases h <;> exact .inl rfl
  | startAcquisition | reportProgress =>
    simp only [Worker.call, Worker.heartbeat] at h
    split_ifs at h
    cases h
    exact .inl rfl
  | recordOutcome =>
    simp only [Worker.call, Worker.heartbeat] at h
    split at h
    · cases h
      exact .inl rfl
    · cases h
  | finish =>
    simp only [Worker.call] at h
    split at h
    · next outcome hphase =>
      cases h
      change Storable (ending worker.job outcome now) none
      unfold ending
      split_ifs
      · exact .inr ⟨rfl, .inl rfl⟩
      all_goals exact storable_retryStatus rfl ⟨_, rfl, rfl, rfl⟩
    · cases h

/-! ### Steps -/

def NoneStuck (table : JobTable) : Prop := ∀ row ∈ table, row.NotStuck

variable {table : JobTable}

theorem NoneStuck.updateJob (h : NoneStuck table) {job : ScrapeJob} {leaseEpoch : Option ℤ}
    (hstorable : Storable job leaseEpoch) (now : ℤ) :
    NoneStuck (table.updateJob job leaseEpoch now) := by
  intro row hrow
  obtain ⟨old, hold, rfl⟩ := JobTable.mem_updateJob.mp hrow
  split_ifs
  · exact notStuck_write hstorable old now
  · exact h old hold

theorem NoneStuck.save_cancelled (h : NoneStuck table) (job : ScrapeJob) (reason : Text) (now : ℤ) :
    NoneStuck (table.save (JobTable.cancelled job reason) now) :=
  h.updateJob (.inr ⟨rfl, .inl rfl⟩) now

theorem NoneStuck.recoverExpired (h : NoneStuck table) (now : ℤ) :
    NoneStuck (table.recoverExpired now) := by
  intro row hrow
  obtain ⟨old, hold, rfl⟩ := Table.mem_updateWhere.mp hrow
  split_ifs
  · exact notStuck_write (storable_retryStatus rfl ⟨_, rfl, rfl, rfl⟩) old now
  · exact h old hold

theorem noneStuck_act {system : System} (h : NoneStuck system.table) {action : Action}
    (hallowed : (StoreAction.act action).Allowed) : NoneStuck (system.step action).table := by
  cases action with
  | enqueue sourceName targetReleaseId maxAttempts uuid now =>
    simp only [System.step]
    split
    · next job made hmade =>
      rcases JobTable.enqueue_eq_ok hmade with rfl | ⟨-, -, rfl⟩
      · exact h
      · intro row hrow
        rcases Table.mem_upsert.mp hrow with rfl | ⟨hold, -⟩
        · exact notStuck_ofNewJob hallowed uuid sourceName targetReleaseId now
        · exact h row hold
    · exact h
  | claim name leaseSeconds now =>
    simp only [System.step]
    split_ifs
    · exact h
    · split
      · next job made hclaim =>
        unfold JobTable.claim at hclaim
        split at hclaim
        · cases hclaim
        · cases hclaim
          exact h.updateJob (.inl rfl) now
      · exact h
  | call name request now =>
    simp only [System.step]
    split
    · next after lease ends hcall =>
      obtain ⟨worker, -, hworker⟩ := Option.bind_eq_some_iff.mp hcall
      exact h.updateJob (storable_call hworker) now
    · exact h
  | cancel jobId reason now =>
    simp only [System.step]
    split
    · next made hcancel =>
      unfold JobTable.cancel at hcancel
      split at hcancel
      · cases hcancel
      · cases hcancel
        exact h.save_cancelled _ reason now
    · exact h
  | recoverExpired now => exact h.recoverExpired now
  | progress _ _ | failedCall _ _ _ _ =>
    simp only [System.step]
    split <;> exact h
  | crash name => exact h

theorem noneStuck_step {store : StoreSystem} (h : NoneStuck store.system.table)
    {action : StoreAction} (hallowed : action.Allowed) :
    NoneStuck (store.step action).system.table := by
  cases action with
  | act action => exact noneStuck_act h hallowed
  | readForCancel caller jobId => exact h
  | writeCancelled caller reason now =>
    simp only [StoreSystem.step]
    split
    · exact h
    · exact h.save_cancelled _ reason now

/-! ### Runs -/

/-- In every run, each job that has not ended can be claimed at any time or carries a lease, and
`recover_expired` takes it once the lease has passed; and the columns say what the payload says. -/
theorem not_stuck {actions : List StoreAction} (hallowed : ∀ action ∈ actions, action.Allowed) :
    ∀ row ∈ (actions.foldl StoreSystem.step .empty).system.table, row.NotStuck ∧
      (row.status.ended = false → (row.Waits ∧ ∀ now, JobTable.claimable now row = true) ∨
        ∃ lease, row.leaseUntil = some lease ∧
          ∀ now, lease < now → JobTable.expired now row = true) := by
  have hreaches : Reaches StoreSystem.step (fun _ action ↦ action.Allowed) .empty
      (actions.foldl StoreSystem.step .empty) := Reaches.refl.foldl (permitted_of_mem hallowed _)
  have hnone : NoneStuck (actions.foldl StoreSystem.step .empty).system.table :=
    hreaches.invariant (fun store ↦ NoneStuck store.system.table) (fun _ h ↦ by cases h)
      fun _ _ h hallowed ↦ noneStuck_step h hallowed
  intro row hrow
  refine ⟨hnone row hrow, fun hactive ↦ ?_⟩
  rcases (hnone row hrow).moves with hended | hwaits | hlease
  · exact absurd (hactive.symm.trans hended) Bool.false_ne_true
  · exact .inl ⟨hwaits, hwaits.claimable⟩
  · obtain ⟨lease, hsome⟩ := Option.isSome_iff_exists.mp hlease
    refine .inr ⟨lease, hsome, fun now hpassed ↦ ?_⟩
    rw [JobTable.expired, hsome, hactive, Option.any_some, decide_eq_true hpassed]
    rfl

/-- A worker's job is claimed again after its lease, while a caller is about to cancel it. -/
def staleCopies : List StoreAction :=
  (untilSecondClaim.map .act) ++ [.readForCancel 0 "job",
    .act (.call 0 .startAcquisition 400000002)]

/-- The stale copy that the first worker stores carries a lease. -/
theorem stale_copy_leased :
    ((staleCopies.foldl StoreSystem.step .empty).system.table.find "job").any
        (fun row ↦ row.leaseUntil.isSome) = true ∧
      ∀ row ∈ (staleCopies.foldl StoreSystem.step .empty).system.table, row.NotStuck :=
  ⟨by decide, fun row hrow ↦ (not_stuck (by decide) row hrow).1⟩

end GameLauncher.Scraper
