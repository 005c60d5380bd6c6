import GameLauncher.Foundation.Run
import GameLauncher.Foundation.Table
import GameLauncher.Provisioning.Manager

/-!
# The jobs of a pool

`create_or_get_job` over the jobs of all pools. A request finds the job with its idempotency key, or
else the active job of its pool. `Uphold` is what callers rely on: of a pool at most one job is active,
and a call whose key is stored returns the job with that key.

The in-memory store takes the first job that its map iterates over and that has the key or is active
in the pool. `upholds_iff` shows that its calls uphold the contract exactly when no active job of the
pool comes before the job with the key, and `other_job_returned` is a run in which one does.
-/

set_option autoImplicit false

namespace GameLauncher.Provisioning

open Foundation List Table

/-! ### Requests and jobs -/

abbrev ProvisioningJobs : Type := Table ProvisioningJob ProvisioningJob.id

namespace ProvisionRequest

variable (request : ProvisionRequest)

/-- `idempotency_key = $1`. -/
def keyOf (job : ProvisioningJob) : Bool := job.idempotencyKey == request.idempotencyKey

/-- `provider_type = $2 AND pool_id = $3 AND status NOT IN (…)`. -/
def occupiedBy (job : ProvisioningJob) : Bool :=
  job.providerType == request.providerType && job.poolId == request.poolId && job.status.isActive

/-- The jobs that a request may be answered with. -/
def selects (job : ProvisioningJob) : Bool := request.keyOf job || request.occupiedBy job

end ProvisionRequest

/-- Two jobs that a unique index keeps apart. -/
def Clash (first second : ProvisioningJob) : Prop :=
  first.idempotencyKey = second.idempotencyKey ∨
    first.providerType = second.providerType ∧ first.poolId = second.poolId ∧
      first.status.isActive = true ∧ second.status.isActive = true

instance (first second : ProvisioningJob) : Decidable (Clash first second) :=
  inferInstanceAs (Decidable (_ ∨ _))

/-- No two jobs clash. -/
def Apart (jobs : ProvisioningJobs) : Prop :=
  ∀ first ∈ jobs, ∀ second ∈ jobs, first.id ≠ second.id → ¬ Clash first second

def OneActive (jobs : ProvisioningJobs) : Prop :=
  ∀ first ∈ jobs, ∀ second ∈ jobs, first.status.isActive = true → second.status.isActive = true →
    first.providerType = second.providerType → first.poolId = second.poolId → first = second

/-- How a call ends. -/
inductive Reply
  | returned (job : ProvisioningJob)
  /-- The request is not valid. -/
  | refused (failure : ProvisioningError)
  /-- The connection is lost. -/
  | lost
  /-- The job is not there when it is read again. -/
  | vanished
  deriving DecidableEq, Repr

/-- A call of `create_or_get_job` that has ended, with the job that had its key when it began. -/
structure CreateAnswer where
  request : ProvisionRequest
  stored : Option ProvisioningJob
  reply : Reply
  deriving DecidableEq, Repr

/-- A returned job has the key of the request or is of its provider and pool, and when the key was
stored the call returns the job that had it, unless the request is not valid or the connection is
lost. -/
structure Truthful (answer : CreateAnswer) : Prop where
  own : ∀ job, answer.reply = .returned job → job.idempotencyKey = answer.request.idempotencyKey ∨
      job.providerType = answer.request.providerType ∧ job.poolId = answer.request.poolId
  keyed : ∀ known, answer.stored = some known →
    (∃ job, answer.reply = .returned job ∧ job.id = known.id ∧
      job.idempotencyKey = answer.request.idempotencyKey) ∨
    (∃ failure, answer.reply = .refused failure) ∨ answer.reply = .lost

/-- The jobs and the answers that were given. -/
structure Uphold (jobs : ProvisioningJobs) (answers : List CreateAnswer) : Prop where
  oneActive : OneActive jobs
  truthful : ∀ answer ∈ answers, Truthful answer

def storedFor (jobs : ProvisioningJobs) (request : ProvisionRequest) : Option ProvisioningJob :=
  jobs.rows.find? request.keyOf

section Jobs

variable {jobs : ProvisioningJobs} {request : ProvisionRequest} {job known : ProvisioningJob}

theorem Clash.symm {first second : ProvisioningJob} (h : Clash first second) :
    Clash second first := by
  rcases h with hkey | ⟨hprovider, hpool, hfirst, hsecond⟩
  · exact .inl hkey.symm
  · exact .inr ⟨hprovider.symm, hpool.symm, hsecond, hfirst⟩

theorem Apart.oneActive (h : Apart jobs) : OneActive jobs := by
  intro first hfirst second hsecond hactive hother hprovider hpool
  by_contra hne
  refine h first hfirst second hsecond (fun hid ↦ hne ?_) (.inr ⟨hprovider, hpool, hactive, hother⟩)
  exact eq_of_key_eq hfirst hsecond hid

theorem keyOf_iff : request.keyOf job = true ↔ job.idempotencyKey = request.idempotencyKey :=
  beq_iff_eq

theorem occupiedBy_iff : request.occupiedBy job = true ↔
    job.providerType = request.providerType ∧ job.poolId = request.poolId ∧
      job.status.isActive = true := by
  rw [ProvisionRequest.occupiedBy, Bool.and_eq_true, Bool.and_eq_true, beq_iff_eq, beq_iff_eq,
    and_assoc]

theorem selects_iff : request.selects job = true ↔
    request.keyOf job = true ∨ request.occupiedBy job = true := by
  rw [ProvisionRequest.selects, Bool.or_eq_true]

theorem storedFor_eq_some (h : storedFor jobs request = some known) :
    known ∈ jobs ∧ known.idempotencyKey = request.idempotencyKey :=
  ⟨mem_of_find?_eq_some h, keyOf_iff.mp (List.find?_some h)⟩

theorem Apart.id_eq_of_key (h : Apart jobs) {first second : ProvisioningJob} (hfirst : first ∈ jobs)
    (hsecond : second ∈ jobs) (hkey : first.idempotencyKey = second.idempotencyKey) :
    first.id = second.id := by
  by_contra hne
  exact h first hfirst second hsecond hne (.inl hkey)

theorem own_of_selects (h : request.selects job = true) :
    job.idempotencyKey = request.idempotencyKey ∨
      job.providerType = request.providerType ∧ job.poolId = request.poolId := by
  rcases selects_iff.mp h with hkey | hpool
  · exact .inl (keyOf_iff.mp hkey)
  · obtain ⟨hprovider, hpool, -⟩ := occupiedBy_iff.mp hpool
    exact .inr ⟨hprovider, hpool⟩

end Jobs

/-! ### What an event keeps of a job -/

/-- A later version of a job: what the indexes look at is kept, and a job that has ended stays so. -/
structure Succeeds (job later : ProvisioningJob) : Prop where
  id : later.id = job.id
  key : later.idempotencyKey = job.idempotencyKey
  provider : later.providerType = job.providerType
  pool : later.poolId = job.poolId
  active : later.status.isActive = true → job.status.isActive = true

variable {job : ProvisioningJob}

theorem Succeeds.clash {later other : ProvisioningJob} (h : Succeeds job later)
    (hclash : Clash later other) : Clash job other := by
  rcases hclash with hkey | ⟨hprovider, hpool, hactive, hother⟩
  · exact .inl (h.key.symm.trans hkey)
  · exact .inr ⟨h.provider.symm.trans hprovider, h.pool.symm.trans hpool, h.active hactive, hother⟩

theorem succeeds_of_apply {updated : ProvisioningJob} {event : ProvisioningEvent} {now : ℤ}
    {transition : ProvisioningTransition}
    (h : job.applyEventAt event now = .ok (updated, transition)) : Succeeds job updated := by
  obtain ⟨htransition, hupdated⟩ := applyEventAt_eq_ok h
  have hactive : job.status.isActive = true := by
    rw [ProvisioningStatus.isActive, htransition.isTerminal]
    rfl
  refine ⟨?_, ?_, ?_, ?_, fun _ ↦ hactive⟩ <;> rw [hupdated] <;> cases event <;> rfl

theorem Apart.upsert_of_succeeds {jobs : ProvisioningJobs} (h : Apart jobs) {later : ProvisioningJob}
    (hjob : job ∈ jobs) (hlater : Succeeds job later) : Apart (jobs.upsert later) := by
  intro first hfirst second hsecond hne hclash
  rcases mem_upsert.mp hfirst with rfl | ⟨hold, -⟩ <;>
    rcases mem_upsert.mp hsecond with rfl | ⟨hother, -⟩
  · exact hne rfl
  · exact h job hjob second hother (hlater.id ▸ hne) (hlater.clash hclash)
  · exact h job hjob first hold (hlater.id ▸ hne.symm) (hlater.clash hclash.symm)
  · exact h first hold second hother hne hclash

theorem Apart.upsert_of_new {jobs : ProvisioningJobs} (h : Apart jobs)
    (hnew : ∀ row ∈ jobs, ¬ Clash row job) : Apart (jobs.upsert job) := by
  intro first hfirst second hsecond hne hclash
  rcases mem_upsert.mp hfirst with rfl | ⟨hold, -⟩ <;>
    rcases mem_upsert.mp hsecond with rfl | ⟨hother, -⟩
  · exact hne rfl
  · exact hnew second hother hclash.symm
  · exact hnew first hold hclash
  · exact h first hold second hother hne hclash

/-! ### The in-memory store -/

/-- `InMemoryProvisioningState`: the jobs, the keys of their events, and the answers so far. -/
structure PoolMemory where
  jobs : ProvisioningJobs
  eventKeys : List (Text × Text)
  answers : List CreateAnswer

/-- A call; `order` is the order in which the map iterates over its values. -/
inductive MemoryCall
  | createOrGetJob (order : List ProvisioningJob) (id : Text) (now : ℤ) (request : ProvisionRequest)
  | claimStart (id : Text) (now : ℤ)
  | applyEvent (id key : Text) (event : ProvisioningEvent) (now : ℤ)

namespace PoolMemory

/-- No job. -/
def empty : PoolMemory := ⟨.empty, [], []⟩

/-- An event of a job, and the key under which it is kept. -/
def record (store : PoolMemory) (id key : Text) (event : ProvisioningEvent) (now : ℤ) :
    PoolMemory :=
  match store.jobs.find id with
  | none => store
  | some job =>
    match job.applyEventAt event now with
    | .error _ => store
    | .ok (updated, _) =>
      { store with
        jobs := store.jobs.upsert updated
        eventKeys := (id, key) :: store.eventKeys }

def createOrGetJob (store : PoolMemory) (order : List ProvisioningJob) (id : Text) (now : ℤ)
    (request : ProvisionRequest) : PoolMemory :=
  match order.find? request.selects with
  | some job =>
    { store with
      answers := ⟨request, storedFor store.jobs request, .returned job⟩ :: store.answers }
  | none =>
    { store with
      jobs := store.jobs.upsert (.new id now request)
      answers := ⟨request, storedFor store.jobs request, .returned (.new id now request)⟩ ::
        store.answers }

/-- One call under the lock; an order that is none of the map's is no call. -/
def step (store : PoolMemory) : MemoryCall → PoolMemory
  | .createOrGetJob order id now request =>
    if order.Perm store.jobs.rows then store.createOrGetJob order id now request else store
  | .claimStart id now =>
    match store.jobs.find id with
    | none => store
    | some job =>
      if job.status ≠ .created then store else store.record id "job-start" .start now
  | .applyEvent id key event now =>
    if (id, key) ∈ store.eventKeys then store else store.record id key event now

/-- No active job of the pool comes before the job with the key. -/
def KeyFirst (store : PoolMemory) : MemoryCall → Prop
  | .createOrGetJob order _ _ request =>
    order.Perm store.jobs.rows → (∃ job ∈ order, request.keyOf job = true) →
      ∀ other ∈ order.takeWhile (fun job ↦ !request.keyOf job), request.occupiedBy other = false
  | _ => True

section Calls

variable {store : PoolMemory} {order : List ProvisioningJob} {request : ProvisionRequest}
  {job known : ProvisioningJob}

theorem mem_of_order (h : order.Perm store.jobs.rows) : job ∈ order ↔ job ∈ store.jobs :=
  h.mem_iff

theorem keyOf_found (hfound : order.find? request.selects = some job)
    (h : ∀ other ∈ order.takeWhile (fun job ↦ !request.keyOf job),
      request.occupiedBy other = false) : request.keyOf job = true := by
  obtain ⟨hselects, before, after, horder, hbefore⟩ := List.find?_eq_some_iff_append.mp hfound
  by_contra hkey
  have hnone : ∀ other ∈ before, (!request.keyOf other) = true := by
    intro other hother
    have hother := hbefore other hother
    rw [Bool.not_eq_true', ProvisionRequest.selects, Bool.or_eq_false_iff] at hother
    rw [hother.1]
    rfl
  have hmem : job ∈ order.takeWhile (fun job ↦ !request.keyOf job) := by
    rw [horder, takeWhile_append_of_pos hnone, takeWhile_cons_of_pos (by simpa using hkey)]
    exact mem_append_right _ mem_cons_self
  rcases selects_iff.mp hselects with hsame | hoccupied
  · exact hkey hsame
  · rw [h job hmem] at hoccupied
    cases hoccupied

theorem occupiedBy_before (hfound : order.find? request.selects = some job)
    (hkey : request.keyOf job = true) (other : ProvisioningJob)
    (hother : other ∈ order.takeWhile (fun job ↦ !request.keyOf job)) :
    request.occupiedBy other = false := by
  obtain ⟨-, before, after, horder, hbefore⟩ := List.find?_eq_some_iff_append.mp hfound
  have hnone : ∀ other ∈ before, request.keyOf other = false ∧ request.occupiedBy other = false := by
    intro other hother
    have hother := hbefore other hother
    rwa [Bool.not_eq_true', ProvisionRequest.selects, Bool.or_eq_false_iff] at hother
  have hinitial : order.takeWhile (fun job ↦ !request.keyOf job) = before := by
    rw [horder, takeWhile_append_of_pos fun other hother ↦ by rw [(hnone other hother).1]; rfl,
      takeWhile_cons_of_neg (by simpa using hkey), append_nil]
  rw [hinitial] at hother
  exact (hnone other hother).2

theorem truthful_found_iff (hapart : Apart store.jobs) (horder : order.Perm store.jobs.rows)
    (hfound : order.find? request.selects = some job) :
    Truthful ⟨request, storedFor store.jobs request, .returned job⟩ ↔
      ((∃ other ∈ order, request.keyOf other = true) →
        ∀ other ∈ order.takeWhile (fun job ↦ !request.keyOf job),
          request.occupiedBy other = false) := by
  have hjob : job ∈ store.jobs := (mem_of_order horder).mp (mem_of_find?_eq_some hfound)
  constructor
  · rintro htruthful ⟨other, hother, hkey⟩
    obtain ⟨known, hknown⟩ : ∃ known, storedFor store.jobs request = some known :=
      Option.isSome_iff_exists.mp
        (List.find?_isSome.mpr ⟨other, (mem_of_order horder).mp hother, hkey⟩)
    rcases htruthful.keyed known hknown with
      ⟨returned, hreturned, -, hsame⟩ | ⟨failure, hrefused⟩ | hlost
    · obtain rfl := Reply.returned.inj hreturned
      exact occupiedBy_before hfound (keyOf_iff.mpr hsame)
    · cases hrefused
    · cases hlost
  · intro h
    refine ⟨fun returned hreturned ↦ ?_, fun known hknown ↦ .inl ⟨job, rfl, ?_⟩⟩
    · obtain rfl := Reply.returned.inj hreturned
      exact own_of_selects (List.find?_some hfound)
    · obtain ⟨hmem, hkey⟩ := storedFor_eq_some hknown
      have hsame : job.idempotencyKey = request.idempotencyKey := keyOf_iff.mp
        (keyOf_found hfound (h ⟨known, (mem_of_order horder).mpr hmem, keyOf_iff.mpr hkey⟩))
      exact ⟨hapart.id_eq_of_key hjob hmem (hsame.trans hkey.symm), hsame⟩

theorem truthful_new (horder : order.Perm store.jobs.rows)
    (hfound : order.find? request.selects = none) (id : Text) (now : ℤ) :
    (∀ row ∈ store.jobs, ¬ Clash row (.new id now request)) ∧
      Truthful ⟨request, storedFor store.jobs request, .returned (.new id now request)⟩ ∧
      ¬ ∃ other ∈ order, request.keyOf other = true := by
  have hnone : ∀ row ∈ order, ¬ request.selects row = true := List.find?_eq_none.mp hfound
  have hkey : ∀ row ∈ store.jobs, ¬ request.keyOf row = true := fun row hrow h ↦
    hnone row ((mem_of_order horder).mpr hrow) (selects_iff.mpr (.inl h))
  refine ⟨fun row hrow hclash ↦ ?_, ⟨fun returned hreturned ↦ ?_, fun known hknown ↦ ?_⟩, ?_⟩
  · refine hnone row ((mem_of_order horder).mpr hrow) (selects_iff.mpr ?_)
    rcases hclash with hsame | ⟨hprovider, hpool, hactive, -⟩
    · exact .inl (keyOf_iff.mpr hsame)
    · exact .inr (occupiedBy_iff.mpr ⟨hprovider, hpool, hactive⟩)
  · obtain rfl := Reply.returned.inj hreturned
    exact .inl rfl
  · obtain ⟨hmem, hsame⟩ := storedFor_eq_some hknown
    exact absurd (keyOf_iff.mpr hsame) (hkey known hmem)
  · rintro ⟨other, hother, hsame⟩
    exact hkey other ((mem_of_order horder).mp hother) hsame

end Calls

/-! ### Runs of the in-memory store -/

theorem record_kept {store : PoolMemory} (h : Apart store.jobs) (id key : Text)
    (event : ProvisioningEvent) (now : ℤ) :
    Apart (store.record id key event now).jobs ∧
      (store.record id key event now).answers = store.answers := by
  unfold record
  cases hjob : store.jobs.find id with
  | none => exact ⟨h, rfl⟩
  | some job =>
    dsimp only
    cases happly : job.applyEventAt event now with
    | error failure => exact ⟨h, rfl⟩
    | ok outcome =>
      obtain ⟨updated, transition⟩ := outcome
      exact ⟨h.upsert_of_succeeds (find_eq_some.mp hjob).1 (succeeds_of_apply happly), rfl⟩

/-- What one call does: the jobs stay apart, and its answer is truthful exactly when the job with the
key comes first. -/
theorem step_kept {store : PoolMemory} (h : Apart store.jobs) (call : MemoryCall) :
    Apart (store.step call).jobs ∧ ((∀ answer ∈ (store.step call).answers, Truthful answer) ↔
        (∀ answer ∈ store.answers, Truthful answer) ∧ store.KeyFirst call) := by
  have hidle (other : PoolMemory) (hother : Apart other.jobs ∧ other.answers = store.answers) :
      Apart other.jobs ∧ ((∀ answer ∈ other.answers, Truthful answer) ↔
        (∀ answer ∈ store.answers, Truthful answer) ∧ True) := by
    rw [hother.2, and_true]
    exact ⟨hother.1, Iff.rfl⟩
  cases call with
  | createOrGetJob order id now request =>
    rw [step]
    split_ifs with horder
    · rw [createOrGetJob]
      cases hfound : order.find? request.selects with
      | some job =>
        refine ⟨h, ?_⟩
        have hcondition : store.KeyFirst (.createOrGetJob order id now request) ↔ _ :=
          (imp_iff_right horder).trans (truthful_found_iff h horder hfound).symm
        rw [hcondition, forall_mem_cons, and_comm]
      | none =>
        obtain ⟨hapart, htruthful, hkey⟩ := truthful_new horder hfound id now
        refine ⟨h.upsert_of_new hapart, ?_⟩
        have hcondition : store.KeyFirst (.createOrGetJob order id now request) :=
          fun _ hother ↦ absurd hother hkey
        rw [forall_mem_cons, and_iff_right htruthful, and_iff_left hcondition]
    · refine ⟨h, (and_iff_left ?_).symm⟩
      exact fun hother ↦ absurd hother horder
  | claimStart id now =>
    rw [step]
    split
    · exact hidle _ ⟨h, rfl⟩
    · split_ifs
      · exact hidle _ ⟨h, rfl⟩
      · exact hidle _ (record_kept h _ _ _ _)
  | applyEvent id key event now =>
    rw [step]
    split_ifs
    · exact hidle _ ⟨h, rfl⟩
    · exact hidle _ (record_kept h _ _ _ _)

theorem run_kept {store : PoolMemory} (h : Apart store.jobs) (calls : List MemoryCall) :
    Apart (calls.foldl step store).jobs ∧
      ((∀ answer ∈ (calls.foldl step store).answers, Truthful answer) ↔
        (∀ answer ∈ store.answers, Truthful answer) ∧ Permitted step KeyFirst store calls) := by
  induction calls generalizing store with
  | nil => exact ⟨h, (and_iff_left trivial).symm⟩
  | cons call rest ih =>
    obtain ⟨hapart, hanswers⟩ := step_kept h call
    obtain ⟨hrest, hiff⟩ := ih hapart
    refine ⟨hrest, ?_⟩
    rw [foldl_cons, hiff, hanswers, Permitted, and_assoc]

theorem apart_empty : Apart .empty := fun _ hfirst ↦ absurd hfirst not_mem_nil

theorem upholds_iff (calls : List MemoryCall) :
    Uphold (calls.foldl step empty).jobs (calls.foldl step empty).answers ↔
      Permitted step KeyFirst empty calls := by
  obtain ⟨hapart, hiff⟩ := @run_kept empty apart_empty calls
  have hnone : ∀ answer ∈ empty.answers, Truthful answer :=
    fun _ hanswer ↦ absurd hanswer not_mem_nil
  constructor
  · exact fun h ↦ (hiff.mp h.truthful).2
  · exact fun h ↦ ⟨hapart.oneActive, hiff.mpr ⟨hnone, h⟩⟩

/-! ### A key whose job has ended -/

def firstRequest : ProvisionRequest := ⟨"mega", "pool", 1, 10, "first"⟩

def cancelledJob : ProvisioningJob :=
  { ProvisioningJob.new "a" 0 firstRequest with
    status := .cancelled
    updatedAt := 1
    lastErrorSummary := some []
    inboundEmailExpiresAt := some 1 }

/-- A later request for the pool. -/
def secondRequest : ProvisionRequest := { firstRequest with idempotencyKey := "second" }

def secondJob : ProvisioningJob := .new "b" 2 secondRequest

/-- The first request again, when the map comes to the second job first. -/
def requestAgain : List MemoryCall :=
  [.createOrGetJob [] "a" 0 firstRequest, .applyEvent "a" "operator-cancel" (.cancelled []) 1,
    .createOrGetJob [cancelledJob] "b" 2 secondRequest,
    .createOrGetJob [secondJob, cancelledJob] "c" 3 firstRequest]

/-- The first request gets the job of the second one, although its key is stored. -/
theorem other_job_returned :
    ¬ Uphold (requestAgain.foldl step empty).jobs (requestAgain.foldl step empty).answers := by
  intro h
  have hlast : (requestAgain.foldl step empty).answers.head? =
      some ⟨firstRequest, some cancelledJob, .returned secondJob⟩ := by
    decide
  rcases (h.truthful _ (mem_of_mem_head? hlast)).keyed cancelledJob rfl with
    ⟨job, hreturned, hid, -⟩ | ⟨failure, hrefused⟩ | hlost
  · obtain rfl := Reply.returned.inj hreturned
    exact absurd hid (by decide)
  · cases hrefused
  · cases hlost

end PoolMemory

end GameLauncher.Provisioning
