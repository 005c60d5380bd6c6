import GameLauncher.Foundation.Run
import GameLauncher.Provisioning.Manager

/-!
# Concurrent calls of `apply_event`

`Database::apply_event` is a transaction of several statements: it looks the idempotency key up,
locks the row of the job (`FOR UPDATE`), writes the job with the event applied, inserts the row of
the event unless there is one, and commits. The calls for one job interleave statement by statement
at the isolation level READ COMMITTED: a statement sees what was committed before it, a call that
waits for the lock reads the job as committed when it gets it, and what a call writes is visible to
others from its commit on.

The look-up is not repeated under the lock. `event_applied_once` shows that an event changes the job
at most once, that there is one row for every key that was applied, and that a call whose key is
applied answers the job, in every run in which no call locks the job after its key was applied by
another call.
-/

set_option autoImplicit false

namespace GameLauncher.Provisioning.EventTransactions

open Foundation List

/-! ### Statements -/

/-- How far a call has come. -/
inductive CallPhase
  /-- The transaction is open, and the key is looked up next. -/
  | begun
  /-- The key was applied before, and the job is read next, without a lock. -/
  | duplicate
  /-- The job is read, and the transaction commits next. -/
  | answered (job : ProvisioningJob)
  /-- The key was not found, and the job is locked next. -/
  | fresh
  /-- The lock is held on the job as it is read. -/
  | locked (job : ProvisioningJob)
  /-- The job is written, and the row of the event is inserted next. -/
  | updated (job : ProvisioningJob) (transition : ProvisioningTransition)
  /-- The row of the event is inserted, if there was none, and the transaction commits next. -/
  | inserted (job : ProvisioningJob) (row : Option EventRow)
  deriving DecidableEq, Repr

def CallPhase.holdsLock : CallPhase → Bool
  | .locked _ | .updated .. | .inserted .. => true
  | _ => false

/-- An open call; `begunAt` counts the versions of the job that were committed when it began. -/
structure OpenCall where
  key : Text
  event : ProvisioningEvent
  begunAt : ℕ
  phase : CallPhase
  deriving DecidableEq, Repr

/-- A committed version: the job, and the keys of the events applied to it. -/
structure Version where
  job : ProvisioningJob
  keys : List Text
  deriving DecidableEq, Repr

/-- A call that has ended, with the number of versions at its end, and whether its key was applied
by then. -/
structure Answer where
  key : Text
  begunAt : ℕ
  endedAt : ℕ
  applied : Bool
  result : Except ProvisioningError ProvisioningJob

/-- What is committed of one job, the open calls and the lock on the row. Of the past, the state
keeps the versions of the job and the keys of its changes, latest first, and the answers. -/
structure EventStore where
  job : ProvisioningJob
  events : List EventRow
  calls : ℕ → Option OpenCall
  lock : Option ℕ
  versions : List Version
  changes : List Text
  answers : List Answer

/-- A statement of some call, or the loss of its connection. -/
inductive Action
  | begin (call : ℕ) (key : Text) (event : ProvisioningEvent)
  | check (call : ℕ)
  | read (call : ℕ)
  | lock (call : ℕ)
  | update (call : ℕ) (now : ℤ)
  | insert (call : ℕ)
  | commit (call : ℕ)
  | rollback (call : ℕ)
  deriving DecidableEq, Repr

namespace EventStore

def start (job : ProvisioningJob) (events : List EventRow) : EventStore where
  job := job
  events := events
  calls := fun _ ↦ none
  lock := none
  versions := [⟨job, events.map EventRow.key⟩]
  changes := []
  answers := []

section

variable (store : EventStore)

def keys : List Text := store.events.map EventRow.key

/-- The call goes on. -/
def advance (call : ℕ) (opened : OpenCall) (phase : CallPhase) : EventStore :=
  { store with calls := Function.update store.calls call (some { opened with phase }) }

/-- The transaction has ended, and with it the lock. -/
def close (call : ℕ) : EventStore :=
  { store with
    calls := Function.update store.calls call none
    lock := if store.lock = some call then none else store.lock }

/-- The call returns. -/
def answer (call : ℕ) (opened : OpenCall)
    (result : Except ProvisioningError ProvisioningJob) : EventStore :=
  { store.close call with
    answers := ⟨opened.key, opened.begunAt, store.versions.length,
      decide (opened.key ∈ store.keys), result⟩ :: store.answers }

/-- The changes of a call become visible. -/
def publish (key : Text) (job : ProvisioningJob) (row : Option EventRow) :
    EventStore :=
  { store with
    job := job
    events := store.events ++ row.toList
    versions := ⟨job, (store.events ++ row.toList).map EventRow.key⟩ :: store.versions
    changes := key :: store.changes }

/-- One statement. A statement that does not come next in its call does nothing, and a call that
waits for the lock stays as it is. -/
def step : Action → EventStore
  | .begin call key event =>
    match store.calls call, StoreKind.database.checkText key "event idempotency key" with
    | none, .ok () =>
      { store with
        calls := Function.update store.calls call
          (some ⟨key, event, store.versions.length, .begun⟩) }
    | _, _ => store
  | .check call =>
    match store.calls call with
    | some opened =>
      if opened.phase = .begun then
        store.advance call opened (if opened.key ∈ store.keys then .duplicate else .fresh)
      else store
    | none => store
  | .read call =>
    match store.calls call with
    | some opened =>
      if opened.phase = .duplicate then store.advance call opened (.answered store.job) else store
    | none => store
  | .lock call =>
    match store.calls call with
    | some opened =>
      if opened.phase = .fresh ∧ store.lock = none then
        { store.advance call opened (.locked store.job) with lock := some call }
      else store
    | none => store
  | .update call now =>
    match store.calls call with
    | some opened =>
      match opened.phase with
      | .locked job =>
        match job.applyEventAt opened.event now with
        | .error failure => store.answer call opened (.error failure)
        | .ok (updated, transition) =>
          if StoreKind.database.maxAttempts < updated.attemptCount then
            store.answer call opened (.error StoreKind.invalidRecord)
          else store.advance call opened (.updated updated transition)
      | _ => store
    | none => store
  | .insert call =>
    match store.calls call with
    | some opened =>
      match opened.phase with
      | .updated job transition =>
        store.advance call opened (.inserted job
          (if opened.key ∈ store.keys then none else some ⟨opened.key, transition⟩))
      | _ => store
    | none => store
  | .commit call =>
    match store.calls call with
    | some opened =>
      match opened.phase with
      | .answered job => store.answer call opened (.ok job)
      | .inserted job row => (store.publish opened.key job row).answer call opened (.ok job)
      | _ => store
    | none => store
  | .rollback call => store.close call

end

end EventStore

/-! ### What the runs are to keep -/

/-- The job is the one of a version with the key that was the latest version at some time between
the two counts. -/
def IsCurrent (versions : List Version) (key : Text) (first last : ℕ) (job : ProvisioningJob) :
    Prop :=
  ∃ newer version older, versions = newer ++ version :: older ∧ first ≤ older.length + 1 ∧
    older.length + 1 ≤ last ∧ key ∈ version.keys ∧ version.job = job

/-- An event is applied once: a key has at most one row, in as many as there are changes of the job
for it, and a call whose key is applied by its end answers the job. -/
structure AppliedOnce (start store : EventStore) : Prop where
  one_row : ∀ key, store.keys.count key ≤ 1
  one_change : ∀ key, store.keys.count key = start.keys.count key + store.changes.count key
  answered : ∀ answer ∈ store.answers, answer.applied = true → ∃ job, answer.result = .ok job ∧
    IsCurrent store.versions answer.key answer.begunAt answer.endedAt job

/-- No call gets the lock after its key was applied. -/
def LocksFresh (store : EventStore) : Action → Prop
  | .lock call => store.lock = none → ∀ opened, store.calls call = some opened →
      opened.phase = .fresh → opened.key ∉ store.keys
  | _ => True

instance (store : EventStore) : (action : Action) → Decidable (LocksFresh store action)
  | .lock call => inferInstanceAs (Decidable (store.lock = none →
      ∀ opened ∈ store.calls call, opened.phase = .fresh → opened.key ∉ store.keys))
  | .begin .. | .check _ | .read _ | .update .. | .insert _ | .commit _ | .rollback _ =>
    isTrue trivial

/-! ### The invariant -/

def CallPhase.Fits (store : EventStore) (opened : OpenCall) : CallPhase → Prop
  | .duplicate => opened.key ∈ store.keys
  | .answered job =>
    IsCurrent store.versions opened.key opened.begunAt store.versions.length job
  | .inserted _ row => ∃ transition, row = some ⟨opened.key, transition⟩
  | _ => True

/-- What is true of an open call: while it holds the lock, its key is not applied. -/
structure OpenCall.Fits (store : EventStore) (call : ℕ) (opened : OpenCall) : Prop where
  begun : opened.begunAt ≤ store.versions.length
  phase : opened.phase.Fits store opened
  locks : opened.phase.holdsLock = true → store.lock = some call ∧ opened.key ∉ store.keys

/-- The invariant of the runs. -/
structure Consistent (start store : EventStore) : Prop extends AppliedOnce start store where
  latest : ∃ older, store.versions = ⟨store.job, store.keys⟩ :: older
  calls : ∀ call opened, store.calls call = some opened → opened.Fits store call

variable {start store after : EventStore}

theorem IsCurrent.mono {versions : List Version} {key : Text} {first last last' : ℕ}
    {job : ProvisioningJob} (h : IsCurrent versions key first last job) (later : List Version)
    (hlast : last ≤ last') :
    IsCurrent (later ++ versions) key first last' job := by
  obtain ⟨newer, version, older, rfl, hfirst, holder, hkey, hjob⟩ := h
  exact ⟨later ++ newer, version, older, (append_assoc _ _ _).symm, hfirst,
    holder.trans hlast, hkey, hjob⟩

theorem Consistent.isCurrent (h : Consistent start store) {key : Text} (hkey : key ∈ store.keys)
    {first : ℕ} (hfirst : first ≤ store.versions.length) :
    IsCurrent store.versions key first store.versions.length store.job := by
  obtain ⟨older, holder⟩ := h.latest
  have hlength : store.versions.length = older.length + 1 := by rw [holder, length_cons]
  exact ⟨[], ⟨store.job, store.keys⟩, older, holder, hlength ▸ hfirst, hlength.ge, hkey, rfl⟩

/-- What is true of a call stays true when its lock stays and versions and keys are added, keys only
while it does not hold the lock. -/
theorem OpenCall.Fits.mono {call : ℕ} {opened : OpenCall} (h : opened.Fits store call)
    (later : List Version) (hversions : after.versions = later ++ store.versions)
    (hkeys : store.keys ⊆ after.keys)
    (hlock : store.lock = some call → after.lock = some call ∧ after.keys = store.keys) :
    opened.Fits after call := by
  have hlength : store.versions.length ≤ after.versions.length := by
    rw [hversions, length_append]
    exact Nat.le_add_left _ _
  constructor
  · exact h.begun.trans hlength
  · have hphase := h.phase
    cases hcase : opened.phase with
    | duplicate =>
      rw [hcase] at hphase
      exact hkeys hphase
    | answered job =>
      rw [hcase] at hphase
      change IsCurrent after.versions _ _ _ job
      rw [hversions]
      exact IsCurrent.mono hphase later (by rw [← hversions]; exact hlength)
    | inserted job row =>
      rw [hcase] at hphase
      exact hphase
    | _ => trivial
  · intro hholds
    obtain ⟨howner, hfresh⟩ := h.locks hholds
    obtain ⟨hafter, hsame⟩ := hlock howner
    exact ⟨hafter, by rw [hsame]; exact hfresh⟩

theorem calls_update {call : ℕ} {next : Option OpenCall} {base : EventStore}
    (hcalls : after.calls = Function.update store.calls call next)
    (hnext : ∀ opened, next = some opened → opened.Fits base call)
    (hothers : ∀ other opened, other ≠ call → store.calls other = some opened →
      opened.Fits base other) :
    ∀ other opened, after.calls other = some opened → opened.Fits base other := by
  intro other opened hopened
  rw [hcalls] at hopened
  by_cases h : other = call
  · subst h
    rw [Function.update_self] at hopened
    exact hnext opened hopened
  · rw [Function.update_of_ne h] at hopened
    exact hothers other opened h hopened

namespace Consistent

variable {call : ℕ} {opened : OpenCall}

/-- A statement that commits nothing and takes no lock. -/
theorem set (h : Consistent start store) (call : ℕ) (made : OpenCall)
    (hfits : made.Fits store call) :
    Consistent start
      { store with calls := Function.update store.calls call (some made) } where
  one_row := h.one_row
  one_change := h.one_change
  answered := h.answered
  latest := h.latest
  calls := by
    have hsame : ∀ {other : ℕ} {opened : OpenCall}, opened.Fits store other → opened.Fits
        { store with calls := Function.update store.calls call (some made) } other :=
      fun {_ _} hopened ↦ hopened.mono [] rfl (fun _ hkey ↦ hkey) fun hlock ↦ ⟨hlock, rfl⟩
    refine calls_update rfl (fun opened hopened ↦ ?_) fun other opened _ hopened ↦
      hsame (h.calls other opened hopened)
    obtain rfl := Option.some.inj hopened
    exact hsame hfits

theorem lock (h : Consistent start store) (hopened : store.calls call = some opened)
    (hfree : store.lock = none) (hfresh : opened.key ∉ store.keys) :
    Consistent start
      { store.advance call opened (.locked store.job) with lock := some call } where
  one_row := h.one_row
  one_change := h.one_change
  answered := h.answered
  latest := h.latest
  calls := by
    refine calls_update rfl (fun made hmade ↦ ?_) fun other made _ hmade ↦ ?_
    · obtain rfl := Option.some.inj hmade
      exact ⟨(h.calls call opened hopened).begun, trivial, fun _ ↦ ⟨rfl, hfresh⟩⟩
    · refine (h.calls other made hmade).mono [] rfl (fun _ hkey ↦ hkey) fun hlock ↦ ?_
      rw [hfree] at hlock
      cases hlock

/-- A call ends without a commit of changes. -/
theorem close (h : Consistent start store) (call : ℕ) : Consistent start (store.close call) where
  one_row := h.one_row
  one_change := h.one_change
  answered := h.answered
  latest := h.latest
  calls := by
    refine calls_update rfl (fun made hmade ↦ by cases hmade) fun other made hne hmade ↦ ?_
    refine (h.calls other made hmade).mono [] rfl (fun _ hkey ↦ hkey) fun hlock ↦ ?_
    have hother : store.lock ≠ some call := by
      rw [hlock]
      exact fun hsame ↦ hne (Option.some.inj hsame)
    exact ⟨(if_neg hother).trans hlock, rfl⟩

theorem answer (h : Consistent start store) (call : ℕ) (opened : OpenCall)
    {result : Except ProvisioningError ProvisioningJob}
    (hresult : opened.key ∈ store.keys → ∃ job, result = .ok job ∧
      IsCurrent store.versions opened.key opened.begunAt store.versions.length job) :
    Consistent start (store.answer call opened result) where
  one_row := h.one_row
  one_change := h.one_change
  answered := by
    intro given hgiven happlied
    rcases mem_cons.mp hgiven with rfl | hold
    · exact hresult (of_decide_eq_true happlied)
    · exact h.answered given hold happlied
  latest := h.latest
  calls := fun other made hmade ↦ ((h.close call).calls other made hmade).mono [] rfl
    (fun _ hkey ↦ hkey) fun hlock ↦ ⟨hlock, rfl⟩

/-- The changes of the call that holds the lock become visible. -/
theorem publish (h : Consistent start store) (hopened : store.calls call = some opened)
    {job : ProvisioningJob} {row : Option EventRow} (hphase : opened.phase = .inserted job row) :
    Consistent start ((store.publish opened.key job row).answer call opened (.ok job)) := by
  have hfits := h.calls call opened hopened
  have hinserted := hfits.phase
  rw [hphase] at hinserted
  obtain ⟨transition, rfl⟩ := hinserted
  obtain ⟨hlock, hfresh⟩ := hfits.locks (by rw [hphase]; rfl)
  obtain ⟨after, hafter⟩ : ∃ after, after =
    (store.publish opened.key job (some ⟨opened.key, transition⟩)).answer call opened (.ok job) :=
    ⟨_, rfl⟩
  have hkeys : after.keys = store.keys ++ [opened.key] := by
    rw [hafter]
    exact map_append
  have hversions : after.versions = ⟨job, after.keys⟩ :: store.versions := by rw [hafter]; rfl
  have hchanges : after.changes = opened.key :: store.changes := by rw [hafter]; rfl
  have hlength : after.versions.length = store.versions.length + 1 := by
    rw [hversions, length_cons]
  have hanswers : ∀ given ∈ after.answers,
      (given.result = .ok job ∧ given.key = opened.key ∧ given.begunAt = opened.begunAt ∧
        given.endedAt = after.versions.length) ∨ given ∈ store.answers := by
    rw [hafter]
    intro given hgiven
    rcases mem_cons.mp hgiven with rfl | hold
    · exact .inl ⟨rfl, rfl, rfl, rfl⟩
    · exact .inr hold
  have hcalls : after.calls = Function.update store.calls call none := by rw [hafter]; rfl
  have hjob : after.job = job := by rw [hafter]; rfl
  rw [← hafter]
  refine ⟨⟨fun key ↦ ?_, fun key ↦ ?_, fun given hgiven happlied ↦ ?_⟩,
    ⟨store.versions, by rw [hversions, hjob]⟩, ?_⟩
  · rw [hkeys, count_append, count_singleton]
    by_cases hkey : opened.key = key
    · rw [if_pos (beq_iff_eq.mpr hkey), ← hkey, count_eq_zero.mpr hfresh]
    · rw [if_neg fun heq ↦ hkey (beq_iff_eq.mp heq)]
      exact h.one_row key
  · rw [hkeys, hchanges, count_append, h.one_change key, count_singleton, count_cons, Nat.add_assoc]
  · rcases hanswers given hgiven with ⟨hresult, hkey, hbegun, hended⟩ | hold
    · refine ⟨job, hresult, [], ⟨job, after.keys⟩, store.versions, hversions, ?_, ?_, ?_, rfl⟩
      · rw [hbegun]
        exact hfits.begun.trans (Nat.le_succ _)
      · rw [hended, hlength]
      · rw [hkey, hkeys]
        exact mem_append_right _ mem_cons_self
    · obtain ⟨answered, hanswered, hcurrent⟩ := h.answered given hold happlied
      refine ⟨answered, hanswered, ?_⟩
      rw [hversions]
      exact hcurrent.mono [_] le_rfl
  · refine calls_update hcalls (fun made hmade ↦ by cases hmade) fun other made hne hmade ↦ ?_
    refine (h.calls other made hmade).mono [_] hversions ?_ fun hother ↦ ?_
    · rw [hkeys]
      exact subset_append_left _ _
    · rw [hlock] at hother
      exact absurd (Option.some.inj hother).symm hne

theorem step (h : Consistent start store) {action : Action} (hfresh : LocksFresh store action) :
    Consistent start (store.step action) := by
  cases action with
  | begin call key event =>
    simp only [EventStore.step]
    split
    · exact h.set call _ ⟨le_rfl, trivial, fun hlock ↦ by cases hlock⟩
    · exact h
  | check call =>
    simp only [EventStore.step]
    split
    · next opened hopened =>
      split_ifs with hphase hkey
      · exact h.set call _ ⟨(h.calls call opened hopened).begun, hkey, fun hlock ↦ by cases hlock⟩
      · exact h.set call _
          ⟨(h.calls call opened hopened).begun, trivial, fun hlock ↦ by cases hlock⟩
      · exact h
    · exact h
  | read call =>
    simp only [EventStore.step]
    split
    · next opened hopened =>
      have hfits := h.calls call opened hopened
      split_ifs with hphase
      · have hkey := hfits.phase
        rw [hphase] at hkey
        exact h.set call _
          ⟨hfits.begun, h.isCurrent hkey hfits.begun, fun hlock ↦ by cases hlock⟩
      · exact h
    · exact h
  | lock call =>
    simp only [EventStore.step]
    split
    · next opened hopened =>
      split_ifs with hphase
      · exact h.lock hopened hphase.2 (hfresh hphase.2 opened hopened hphase.1)
      · exact h
    · exact h
  | update call now =>
    simp only [EventStore.step]
    split
    · next opened hopened =>
      have hfits := h.calls call opened hopened
      split
      · next job hphase =>
        have hlocks := hfits.locks (by rw [hphase]; rfl)
        split
        · exact h.answer call opened fun hkey ↦ absurd hkey hlocks.2
        · split_ifs
          · exact h.answer call opened fun hkey ↦ absurd hkey hlocks.2
          · exact h.set call _ ⟨hfits.begun, trivial, fun _ ↦ hlocks⟩
      · exact h
    · exact h
  | insert call =>
    simp only [EventStore.step]
    split
    · next opened hopened =>
      have hfits := h.calls call opened hopened
      split
      · next job transition hphase =>
        have hlocks := hfits.locks (by rw [hphase]; rfl)
        rw [if_neg hlocks.2]
        exact h.set call _ ⟨hfits.begun, ⟨transition, rfl⟩, fun _ ↦ hlocks⟩
      · exact h
    · exact h
  | commit call =>
    simp only [EventStore.step]
    split
    · next opened hopened =>
      have hfits := h.calls call opened hopened
      split
      · next job hphase =>
        have hcurrent := hfits.phase
        rw [hphase] at hcurrent
        exact h.answer call opened fun _ ↦ ⟨job, rfl, hcurrent⟩
      · next job row hphase => exact h.publish hopened hphase
      · exact h
    · exact h
  | rollback call => exact h.close call

end Consistent

/-! ### Runs -/

theorem consistent_start (job : ProvisioningJob) {events : List EventRow}
    (hkeys : (events.map EventRow.key).Nodup) :
    Consistent (.start job events) (.start job events) where
  one_row := fun key ↦ nodup_iff_count.mp hkeys key
  one_change := fun _ ↦ rfl
  answered := fun _ h ↦ by cases h
  latest := ⟨[], rfl⟩
  calls := fun _ _ h ↦ by cases h

/-- From a stored job with its events, whatever calls for it run concurrently: an event changes the
job at most once, it has exactly one row if it was applied, and a call whose key is applied by its
end answers the job, in every run in which no call gets the lock after its key was applied. -/
theorem event_applied_once (job : ProvisioningJob) (events : List EventRow)
    (hkeys : (events.map EventRow.key).Nodup) (actions : List Action)
    (hpermitted : Permitted EventStore.step LocksFresh (.start job events) actions) :
    AppliedOnce (.start job events) (actions.foldl EventStore.step (.start job events)) :=
  (Reaches.invariant (Consistent (.start job events)) (consistent_start job hkeys)
    (fun _ _ hconsistent hfresh ↦ hconsistent.step hfresh)
    (Reaches.refl.foldl hpermitted)).toAppliedOnce

def waitingJob : ProvisioningJob :=
  { ProvisioningJob.new "job" 0
      ⟨"mega", "pool", 1, 10, "request"⟩ with status := .waitingForProvider }

/-- The event of two callers. -/
def operatorNeeded : ProvisioningEvent := .needsOperator "sign in" "summary"

/-- The statements of a call that applies its event. -/
def application (call : ℕ) : List Action := [.lock call, .update call 5, .insert call, .commit call]

/-- A second call with the key of the first looks it up after the first has committed. -/
def inTurn : List Action :=
  [.begin 0 "needs-operator" operatorNeeded, .begin 1 "needs-operator" operatorNeeded,
    .check 0] ++ application 0 ++ [.check 1, .read 1, .commit 1]

/-- Two calls with one key both look it up before either of them commits. -/
def overlapping (event : ProvisioningEvent) : List Action :=
  [.begin 0 "key" event, .begin 1 "key" event, .check 0, .check 1] ++ application 0 ++ application 1

theorem event_applied_once_inTurn :
    AppliedOnce (.start waitingJob []) (inTurn.foldl EventStore.step (.start waitingJob [])) ∧
      (inTurn.foldl EventStore.step (.start waitingJob [])).changes = ["needs-operator".toList] ∧
      (inTurn.foldl EventStore.step (.start waitingJob [])).answers.length = 2 :=
  ⟨event_applied_once waitingJob [] nodup_nil inTurn (by decide), by decide, by decide⟩

/-- The event of both calls is applied twice, with one row; and where it is not possible twice, the
second call fails although its key is applied. -/
theorem event_applied_twice :
    (¬ ∀ (job : ProvisioningJob) (events : List EventRow), (events.map EventRow.key).Nodup →
      ∀ actions : List Action, AppliedOnce (.start job events)
        (actions.foldl EventStore.step (.start job events))) ∧
    ((overlapping .providerReady).foldl EventStore.step (.start
      { waitingJob with status := .waitingForEmail } [])).answers.map
        (fun answer ↦ (answer.applied, answer.result.toOption.isSome)) =
      [(true, false), (true, true)] := by
  refine ⟨fun h ↦ ?_, by decide⟩
  have honce := (h waitingJob [] nodup_nil (overlapping operatorNeeded)).one_change
    "key"
  have hrows : ((overlapping operatorNeeded).foldl EventStore.step (.start waitingJob [])).keys =
      ["key"] := by decide
  have hchanges : ((overlapping operatorNeeded).foldl EventStore.step
      (.start waitingJob [])).changes = ["key", "key"] := by decide
  rw [hrows, hchanges] at honce
  exact absurd honce (by decide)

end GameLauncher.Provisioning.EventTransactions
