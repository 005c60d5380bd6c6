import GameLauncher.ColdStorage.PutThenRead

/-!
# What a put of the MEGA pool says about capacity

The loop of a put over the accounts keeps the usable bytes that it has seen and the last failure,
and turns the two into one error at its end.

`HasRoom` is the room of an account in the store of the reservations; the store of an account is the
state in which it is when the turn of the account ends, so other puts may change it between the
turns. `Truthful` is what the error of a put should say, and `Candid` the condition on what the put
meets under which it says that; `put_truthful_iff` is the result.
-/

set_option autoImplicit false

namespace GameLauncher.ColdStorage

open Foundation Fallible MegaColdStoragePool List Process
open Capacity (InMemoryCapacityState)

/-! ### The turn of an account -/

/-- The part of a turn that fails: the check of an object that is there, the upload with its checks,
or one of the calls between them. -/
inductive Stage
  | verification
  | preparation
  | upload
  deriving DecidableEq, Repr

/-- A turn in which the object is not stored: it fails before the usable bytes of the account are
known, the ledger refuses the reservation, or it fails after that. -/
inductive Meeting
  | unmeasured (checked : Bool) (stage : Stage) (failure : StorageError)
  | refused (usable : ℕ)
  | failed (usable : ℕ) (stage : Stage) (failure : StorageError)
  deriving DecidableEq, Repr

namespace Meeting

/-- The usable bytes that the turn has found. -/
def usable : Meeting → ℕ
  | .unmeasured _ _ _ => 0
  | .refused usable | .failed usable _ _ => usable

/-- The account has told its capacity. -/
def checked : Meeting → Bool
  | .unmeasured checked _ _ => checked
  | .refused _ | .failed _ _ _ => true

def failure : Meeting → Option StorageError
  | .unmeasured _ _ failure | .failed _ _ failure => some failure
  | .refused _ => none

/-- The failure of the turn, when it is one of the verification or of the upload. -/
def blamed : Meeting → Option StorageError
  | .unmeasured _ stage failure | .failed _ stage failure =>
    if stage = .preparation then none else some failure
  | .refused _ => none

/-- What the loop keeps of a turn. -/
def next (progress : PutProgress) (meeting : Meeting) : PutProgress where
  capacityAvailable :=
    match meeting with
    | .unmeasured _ _ _ => progress.capacityAvailable
    | .refused usable | .failed usable _ _ => saturatingAdd progress.capacityAvailable usable
  capacityChecked := progress.capacityChecked || meeting.checked
  lastError := meeting.failure.or progress.lastError

end Meeting

section Turns

variable (hash : Bytes → Digest) (env : Environment) (pool : MegaColdStoragePool)

/-- The upload under a reservation. -/
def meetUpload (account : MegaAccount) (path temporary : Text) (size usable : ℕ) :
    ColdTask (Option Meeting) := do
  match ← Process.attempt (uploadAndCommit env account path temporary size) with
  | .ok () => do
    removeFile env temporary
    pure none
  | .error failure => do
    let _ ← Process.attempt (ask env fun _ _ ↦ .ok ())
    let _ ← Process.attempt (deleteObject env account path)
    pure (some (.failed usable .upload failure))

def meetReservation (account : MegaAccount) (path encodedHash temporary : Text) (size : ℕ) :
    ColdTask (Option Meeting) := do
  match ← Process.attempt (ask env fun turn _ ↦ .ok turn.capacity) with
  | .error failure => pure (some (.unmeasured false .preparation failure))
  | .ok capacity => do
    match ← Process.attempt (ask env fun turn _ ↦
      .ok (turn.refresh account.accountId capacity)) with
    | .error failure => pure (some (.unmeasured true .preparation failure))
    | .ok snapshot => do
      match ← Process.attempt (ask env fun turn _ ↦
        .ok (turn.reserve account.accountId encodedHash size)) with
      | .error (.needsCapacity ..) => pure (some (.refused snapshot.usableFreeBytes))
      | .error failure => pure (some (.failed snapshot.usableFreeBytes .preparation failure))
      | .ok _ => meetUpload env account path temporary size snapshot.usableFreeBytes

/-- The turn of an account; nothing when the object is stored. -/
def meetAccount (encodedHash : Text) (bytes : Bytes) (pack : Bool) (temporary : Text)
    (account : MegaAccount) : ColdTask (Option Meeting) := do
  let path := remotePath account encodedHash pack
  match ← Process.attempt
    (pool.verifyExisting hash env account path encodedHash bytes.length pack) with
  | .ok true => do
    removeFile env temporary
    pure none
  | .error failure => pure (some (.unmeasured false .verification failure))
  | .ok false => do
    match ← Process.attempt (deleteExisting env account path) with
    | .error failure => pure (some (.unmeasured false .preparation failure))
    | .ok () => meetReservation env account path encodedHash temporary bytes.length

end Turns

section Turns

variable {hash : Bytes → Digest} {env : Environment} {pool : MegaColdStoragePool}

theorem uploadReserved_eq (account : MegaAccount) (path temporary : Text) (size usable : ℕ)
    (progress : PutProgress) :
    uploadReserved env account path temporary size
        { progress with
          capacityChecked := true
          capacityAvailable := saturatingAdd progress.capacityAvailable usable } =
      meetUpload env account path temporary size usable >>= fun meeting ↦
        pure (meeting.map (Meeting.next progress)) := by
  simp only [uploadReserved, meetUpload, bind_assoc]
  congr 1
  funext outcome
  cases outcome with
  | ok _ => simp only [bind_assoc, pure_bind, Option.map_none]
  | error failure =>
    simp only [bind_assoc, pure_bind, Option.map_some, Meeting.next, Meeting.checked,
      Meeting.failure, PutProgress.failed, Bool.or_true, Option.some_or]

theorem reserveAndUpload_eq (account : MegaAccount) (path encodedHash temporary : Text) (size : ℕ)
    (progress : PutProgress) :
    reserveAndUpload env account path encodedHash temporary size progress =
      meetReservation env account path encodedHash temporary size >>= fun meeting ↦
        pure (meeting.map (Meeting.next progress)) := by
  simp only [reserveAndUpload, meetReservation, bind_assoc]
  congr 1
  funext capacity
  cases capacity with
  | error failure =>
    simp [Meeting.next, Meeting.checked, Meeting.failure, PutProgress.failed]
  | ok capacity =>
    simp only [bind_assoc]
    congr 1
    funext refreshed
    cases refreshed with
    | error failure =>
      simp [Meeting.next, Meeting.checked, Meeting.failure, PutProgress.failed]
    | ok snapshot =>
      simp only [bind_assoc]
      congr 1
      funext reserved
      cases reserved with
      | ok reservation => exact uploadReserved_eq account path temporary size _ progress
      | error failure =>
        cases failure <;>
          simp [Meeting.next, Meeting.checked, Meeting.failure, PutProgress.failed]

theorem putAccount_eq (encodedHash : Text) (bytes : Bytes) (pack : Bool) (temporary : Text)
    (account : MegaAccount) (progress : PutProgress) :
    pool.putAccount hash env encodedHash bytes pack temporary account progress =
      meetAccount hash env pool encodedHash bytes pack temporary account >>= fun meeting ↦
        pure (meeting.map (Meeting.next progress)) := by
  simp only [putAccount, meetAccount, bind_assoc]
  congr 1
  funext verified
  cases verified with
  | error failure =>
    simp [Meeting.next, Meeting.checked, Meeting.failure, PutProgress.failed]
  | ok stored =>
    cases stored with
    | true => simp only [bind_assoc, pure_bind, Option.map_none]
    | false =>
      simp only [bind_assoc]
      congr 1
      funext deleted
      cases deleted with
      | error failure =>
        simp [Meeting.next, Meeting.checked, Meeting.failure, PutProgress.failed]
      | ok _ => exact reserveAndUpload_eq account _ encodedHash temporary bytes.length progress

def NeverFails {α : Type} (process : ColdTask α) : Prop :=
  ∀ world, ∃ value, (process world).result = .ok value

variable {α : Type}

theorem neverFails_pure (value : α) : NeverFails (pure value) :=
  fun _ ↦ ⟨value, rfl⟩

theorem neverFails_attempt (body : ColdTask α) : NeverFails (Process.attempt body) :=
  fun world ↦ ⟨(body world).result, rfl⟩

theorem neverFails_bind {β : Type} {first : ColdTask α} {next : α → ColdTask β}
    (hfirst : NeverFails first) (hnext : ∀ value, NeverFails (next value)) :
    NeverFails (first >>= next) := by
  intro world
  obtain ⟨value, hvalue⟩ := hfirst world
  rw [result_bind_of_ok hvalue]
  exact hnext value (first world).final

theorem neverFails_removeFile (path : Text) : NeverFails (removeFile env path) :=
  neverFails_bind (neverFails_attempt _) fun _ ↦ neverFails_pure ()

theorem neverFails_meetUpload (account : MegaAccount) (path temporary : Text) (size usable : ℕ) :
    NeverFails (meetUpload env account path temporary size usable) := by
  refine neverFails_bind (neverFails_attempt _) fun outcome ↦ ?_
  cases outcome with
  | ok _ => exact neverFails_bind (neverFails_removeFile temporary) fun _ ↦ neverFails_pure none
  | error failure =>
    exact neverFails_bind (neverFails_attempt _) fun _ ↦
      neverFails_bind (neverFails_attempt _) fun _ ↦ neverFails_pure _

theorem neverFails_meetReservation (account : MegaAccount) (path encodedHash temporary : Text)
    (size : ℕ) : NeverFails (meetReservation env account path encodedHash temporary size) := by
  refine neverFails_bind (neverFails_attempt _) fun capacity ↦ ?_
  cases capacity with
  | error failure => exact neverFails_pure _
  | ok capacity =>
    refine neverFails_bind (neverFails_attempt _) fun refreshed ↦ ?_
    cases refreshed with
    | error failure => exact neverFails_pure _
    | ok snapshot =>
      refine neverFails_bind (neverFails_attempt _) fun reserved ↦ ?_
      cases reserved with
      | ok reservation => exact neverFails_meetUpload account path temporary size _
      | error failure => cases failure <;> exact neverFails_pure _

theorem neverFails_meetAccount (encodedHash : Text) (bytes : Bytes) (pack : Bool)
    (temporary : Text) (account : MegaAccount) :
    NeverFails (meetAccount hash env pool encodedHash bytes pack temporary account) := by
  refine neverFails_bind (neverFails_attempt _) fun verified ↦ ?_
  cases verified with
  | error failure => exact neverFails_pure _
  | ok stored =>
    cases stored with
    | true => exact neverFails_bind (neverFails_removeFile temporary) fun _ ↦ neverFails_pure none
    | false =>
      refine neverFails_bind (neverFails_attempt _) fun deleted ↦ ?_
      cases deleted with
      | error failure => exact neverFails_pure _
      | ok _ => exact neverFails_meetReservation account _ encodedHash temporary bytes.length

end Turns

/-! ### The turns of a put -/

variable {failure : StorageError} {temporary : Text}

section Puts

variable (hash : Bytes → Digest) (env : Environment) (pool : MegaColdStoragePool)
  (request : PutRequest)

/-- The turns of accounts, when none of them stores the object. -/
def met (temporary : Text) :
    List MegaAccount → ColdWorld → Option (List (MegaAccount × Meeting))
  | [], _ => some []
  | account :: rest, world =>
    let turn := meetAccount hash env pool request.encodedHash request.bytes request.pack temporary
      account world
    match turn.result with
    | .ok (some meeting) => (met temporary rest turn.final).map fun turns ↦
        (account, meeting) :: turns
    | _ => none

/-- A put up to its loop over the accounts: the path of the temporary file. -/
def opening : ColdTask Text := do
  lift (validateHash request.encodedHash)
  lift (verifyEncodedBytes hash request.encodedHash request.bytes)
  reserveBytes pool.options.tempSpaceBytes request.bytes.length
  createDirAll env
  let sequence ← nextSequence
  let temporary := temporaryPath pool.options.tempDir request.encodedHash sequence "upload"
  write env temporary request.bytes
  pure temporary

/-- The accounts that a put meets and that do not store the object, when none stores it. -/
def refusals (world : ColdWorld) : Option (List (MegaAccount × Meeting)) :=
  match (opening hash env pool request world).result with
  | .error _ => some []
  | .ok temporary =>
    met hash env pool request temporary pool.accounts (opening hash env pool request world).final

/-- What the loop over the accounts has learnt at its end. -/
def learnt (turns : List (MegaAccount × Meeting)) : PutProgress :=
  turns.foldl (fun progress turn ↦ turn.2.next progress) ⟨0, false, none⟩

variable {hash env pool request}

theorem result_putAccounts (temporary : Text) (accounts : List MegaAccount)
    (progress : PutProgress) (world : ColdWorld) :
    (pool.putAccounts hash env request.encodedHash request.bytes request.pack temporary accounts
        progress world).result =
      match met hash env pool request temporary accounts world with
      | none => .ok ()
      | some turns => .error (putError request.bytes.length
          (turns.foldl (fun progress turn ↦ turn.2.next progress) progress)) := by
  induction accounts generalizing progress world with
  | nil =>
    have hnever : NeverFails (removeFile env temporary) := neverFails_removeFile temporary
    obtain ⟨_, hremoved⟩ := hnever world
    simp only [putAccounts, met, foldl_nil]
    exact result_bind_of_ok hremoved
  | cons account rest ih =>
    have hnever : NeverFails (meetAccount hash env pool request.encodedHash request.bytes
      request.pack temporary account) := neverFails_meetAccount _ _ _ temporary account
    obtain ⟨meeting, hmeeting⟩ := hnever world
    simp only [putAccounts, met, putAccount_eq, bind_assoc, pure_bind, hmeeting]
    rw [result_bind_of_ok hmeeting]
    cases meeting with
    | none => rfl
    | some meeting =>
      simp only [Option.map_some]
      rw [ih]
      cases met hash env pool request temporary rest (meetAccount hash env pool request.encodedHash
        request.bytes request.pack temporary account world).final <;> rfl

theorem result_put (world : ColdWorld) :
    (put hash env pool request world).result = ((opening hash env pool request >>= fun temporary ↦
        pool.putAccounts hash env request.encodedHash request.bytes request.pack temporary
          pool.accounts ⟨0, false, none⟩) world).result := by
  simp only [put_eq, opening, bind_assoc, pure_bind]
  refine result_bind_congr fun _ world ↦ result_bind_congr fun _ world ↦ ?_
  refine result_bind_congr fun _ world ↦ ?_
  -- the release of the temporary space does not fail
  exact result_tryFinally_of_ok rfl

variable {world : ColdWorld}

theorem result_put_of_opening (h : (opening hash env pool request world).result = .error failure) :
    (put hash env pool request world).result = .error failure := by
  rw [result_put, result_bind_of_error h]

theorem result_put_of_stored (h : refusals hash env pool request world = none) :
    (put hash env pool request world).result = .ok () := by
  unfold refusals at h
  cases hopening : (opening hash env pool request world).result with
  | error failure =>
    rw [hopening] at h
    exact absurd h (Option.some_ne_none [])
  | ok temporary =>
    rw [hopening] at h
    rw [result_put, result_bind_of_ok hopening, result_putAccounts]
    dsimp only at h
    rw [h]

theorem result_put_of_refusals {turns : List (MegaAccount × Meeting)}
    (hopening : (opening hash env pool request world).result = .ok temporary)
    (h : refusals hash env pool request world = some turns) :
    (put hash env pool request world).result =
      .error (putError request.bytes.length (learnt turns)) := by
  unfold refusals at h
  rw [hopening] at h
  rw [result_put, result_bind_of_ok hopening, result_putAccounts]
  dsimp only at h
  rw [h]
  rfl

theorem accounts_of_met {accounts : List MegaAccount} {turns : List (MegaAccount × Meeting)}
    (h : met hash env pool request temporary accounts world = some turns) :
    turns.map Prod.fst = accounts := by
  induction accounts generalizing world turns with
  | nil =>
    rw [← Option.some_inj.mp h]
    rfl
  | cons account rest ih =>
    simp only [met] at h
    split at h
    · obtain ⟨others, hothers, rfl⟩ := Option.map_eq_some_iff.mp h
      rw [map_cons, ih hothers]
    · exact absurd h.symm (Option.some_ne_none turns)

end Puts

/-! ### What the loop makes of its turns -/

section Loop

variable (turns : List (MegaAccount × Meeting))

def lastFailure : Option StorageError := (turns.filterMap fun turn ↦ turn.2.failure).getLast?

theorem learnt_concat (turn : MegaAccount × Meeting) :
    learnt (turns ++ [turn]) = turn.2.next (learnt turns) := by
  rw [learnt, foldl_append]
  rfl

theorem lastError_learnt : (learnt turns).lastError = lastFailure turns := by
  induction turns using List.reverseRecOn with
  | nil => rfl
  | append_singleton turns turn ih =>
    rw [learnt_concat, lastFailure, filterMap_append, List.getLast?_append]
    show turn.2.failure.or (learnt turns).lastError = _
    rw [ih, lastFailure]
    cases hfailure : turn.2.failure <;> simp [hfailure]

theorem capacityAvailable_learnt :
    (learnt turns).capacityAvailable = 0 ↔ ∀ turn ∈ turns, turn.2.usable = 0 := by
  have hsum (left right : ℕ) : saturatingAdd left right = 0 ↔ left = 0 ∧ right = 0 := by
    unfold saturatingAdd u64Size
    omega
  induction turns using List.reverseRecOn with
  | nil => simp [learnt]
  | append_singleton turns turn ih =>
    rw [learnt_concat, forall_mem_append, forall_mem_singleton]
    refine Iff.trans ?_ (and_congr_left fun _ ↦ ih)
    cases turn.2 <;> simp [Meeting.next, Meeting.usable, hsum]

theorem learnt_of_ne_nil (h : turns ≠ []) :
    (learnt turns).lastError ≠ none ∨ (learnt turns).capacityChecked = true := by
  induction turns using List.reverseRecOn with
  | nil => exact absurd rfl h
  | append_singleton turns turn ih =>
    rw [learnt_concat]
    cases turn.2 <;> simp [Meeting.next, Meeting.checked, Meeting.failure]

end Loop

/-! ### What the error of a put says -/

/-- The error asks for more accounts. -/
def StorageError.isNeedsCapacity : StorageError → Bool
  | .needsCapacity _ _ => true
  | _ => false

def StorageError.isAuthentication : StorageError → Bool
  | .authentication _ => true
  | _ => false

/-- The store of the reservations may allocate this many bytes of the account. -/
def HasRoom (memory : InMemoryCapacityState) (account : MegaAccount) (bytes : ℕ) : Prop :=
  ∃ record ∈ memory.accounts, record.accountId = account.accountId ∧
    record.status.canAllocate = true ∧ bytes ≤ record.usableFreeBytes

section Error

variable {size : ℕ} {progress : PutProgress} {last : StorageError}

/-- The last failure is returned when it is one of the authentication, or no usable bytes were
seen. -/
theorem putError_eq (hlast : progress.lastError = some last)
    (h : last.isAuthentication = true ∨ progress.capacityAvailable = 0) :
    putError size progress = last := by
  unfold putError
  rw [hlast]
  cases last <;> simp_all [StorageError.isAuthentication]

/-- Any other failure is returned as a lack of capacity when usable bytes were seen. -/
theorem isNeedsCapacity_putError (hlast : progress.lastError = some last)
    (hother : ¬ (last.isAuthentication = true ∨ progress.capacityAvailable = 0)) :
    (putError size progress).isNeedsCapacity = true := by
  obtain ⟨hauthentication, hseen⟩ := not_or.mp hother
  unfold putError
  rw [hlast]
  cases last <;> simp_all [StorageError.isAuthentication, StorageError.isNeedsCapacity]

theorem isNeedsCapacity_putError_of_none (hlast : progress.lastError = none)
    (hchecked : progress.capacityChecked = true) :
    (putError size progress).isNeedsCapacity = true := by
  unfold putError
  rw [hlast]
  by_cases hseen : progress.capacityAvailable = 0 <;>
    simp [hseen, hchecked, StorageError.isNeedsCapacity]

end Error

section Claims

variable (room : MegaAccount → Prop) (hash : Bytes → Digest) (env : Environment)
  (pool : MegaColdStoragePool) (request : PutRequest) (world : ColdWorld)

/-- The turns of a put that no account has taken. -/
def turnsOf : List (MegaAccount × Meeting) := (refusals hash env pool request world).getD []

/-- Some account had room, and its verification or its upload failed. -/
def RoomFailed (turns : List (MegaAccount × Meeting)) (failure : StorageError) : Prop :=
  ∃ turn ∈ turns, room turn.1 ∧ turn.2.blamed = some failure

/-- The put asks for more accounts only if none had room; and when the verification or the upload of
an account with room has failed, its error is such a failure. -/
structure Truthful : Prop where
  capacity : ∀ required available,
    (put hash env pool request world).result = .error (.needsCapacity required available) →
      ∀ account ∈ pool.accounts, ¬ room account
  failure : ∀ failure other, (put hash env pool request world).result = .error failure →
    RoomFailed room (turnsOf hash env pool request world) other →
      RoomFailed room (turnsOf hash env pool request world) failure

/-- The last failure of the turns is no lack of capacity. It is one of the authentication, or no
account has shown usable bytes; and if the verification or the upload of an account with room has
failed, it is such a failure. -/
structure Tells (turns : List (MegaAccount × Meeting)) (last : StorageError) : Prop where
  isLast : lastFailure turns = some last
  isOther : last.isNeedsCapacity = false
  isShown : last.isAuthentication = true ∨ ∀ turn ∈ turns, turn.2.usable = 0
  isBlamed : ∀ other, RoomFailed room turns other → RoomFailed room turns last

/-- No account has room; or the put does not fail at its opening for a lack of temporary space, and
the last failure of its turns tells why no account has taken the object. -/
def Candid : Prop :=
  (∀ account ∈ pool.accounts, ¬ room account) ∨
    match (opening hash env pool request world).result with
    | .error failure => failure.isNeedsCapacity = false
    | .ok _ => ∀ turns, refusals hash env pool request world = some turns →
        ∃ last, Tells room turns last

variable {room hash env pool request world}

theorem mem_accounts_of_turnsOf {turn : MegaAccount × Meeting}
    (h : turn ∈ turnsOf hash env pool request world) : turn.1 ∈ pool.accounts := by
  unfold turnsOf refusals at h
  cases hopening : (opening hash env pool request world).result with
  | error failure =>
    rw [hopening] at h
    exact absurd h not_mem_nil
  | ok temporary =>
    rw [hopening] at h
    dsimp only at h
    cases hmet : met hash env pool request temporary pool.accounts
        (opening hash env pool request world).final with
    | none =>
      rw [hmet] at h
      exact absurd h not_mem_nil
    | some turns =>
      rw [hmet] at h
      rw [← accounts_of_met hmet]
      exact mem_map_of_mem h

theorem truthful_of_no_room (h : ∀ account ∈ pool.accounts, ¬ room account) :
    Truthful room hash env pool request world where
  capacity _ _ _ := h
  failure := by
    rintro failure other - ⟨turn, hturn, hroom, -⟩
    exact absurd hroom (h turn.1 (mem_accounts_of_turnsOf hturn))

theorem isNeedsCapacity_of_truthful (hroom : ∃ account ∈ pool.accounts, room account)
    (h : Truthful room hash env pool request world)
    (hfailed : (put hash env pool request world).result = .error failure) :
    failure.isNeedsCapacity = false := by
  obtain ⟨account, haccount, hhas⟩ := hroom
  cases failure with
  | needsCapacity required available =>
    exact absurd hhas (h.capacity required available hfailed account haccount)
  | _ => rfl

theorem putError_of_tells {turns : List (MegaAccount × Meeting)} {last : StorageError}
    (h : Tells room turns last) (size : ℕ) : putError size (learnt turns) = last :=
  putError_eq ((lastError_learnt turns).trans h.isLast)
    (h.isShown.imp_right (capacityAvailable_learnt turns).mpr)

theorem last_of_not_needsCapacity {turns : List (MegaAccount × Meeting)} (hturns : turns ≠ [])
    {size : ℕ} (h : (putError size (learnt turns)).isNeedsCapacity = false) :
    ∃ last, lastFailure turns = some last ∧ putError size (learnt turns) = last ∧
      (last.isAuthentication = true ∨ ∀ turn ∈ turns, turn.2.usable = 0) := by
  cases hlast : (learnt turns).lastError with
  | none =>
    have hchecked := (learnt_of_ne_nil turns hturns).resolve_left (not_not.mpr hlast)
    rw [isNeedsCapacity_putError_of_none hlast hchecked] at h
    exact absurd h.symm Bool.false_ne_true
  | some last =>
    by_cases hshown : last.isAuthentication = true ∨ (learnt turns).capacityAvailable = 0
    · exact ⟨last, (lastError_learnt turns).symm.trans hlast, putError_eq hlast hshown,
        hshown.imp_right (capacityAvailable_learnt turns).mp⟩
    · rw [isNeedsCapacity_putError hlast hshown] at h
      exact absurd h.symm Bool.false_ne_true

theorem truthful_iff_of_opening (hroom : ∃ account ∈ pool.accounts, room account)
    (hopening : (opening hash env pool request world).result = .error failure) :
    Truthful room hash env pool request world ↔ failure.isNeedsCapacity = false := by
  have hput := result_put_of_opening hopening
  constructor
  · intro h
    exact isNeedsCapacity_of_truthful hroom h hput
  · intro hother
    constructor
    · intro required available hlack
      rw [Except.error.inj (hput.symm.trans hlack)] at hother
      exact absurd hother.symm Bool.false_ne_true
    · rintro _ other - ⟨turn, hturn, -⟩
      rw [turnsOf, refusals, hopening] at hturn
      exact absurd hturn not_mem_nil

theorem truthful_iff_of_refusals {turns : List (MegaAccount × Meeting)}
    (hroom : ∃ account ∈ pool.accounts, room account)
    (hopening : (opening hash env pool request world).result = .ok temporary)
    (hrefusals : refusals hash env pool request world = some turns) :
    Truthful room hash env pool request world ↔ ∃ last, Tells room turns last := by
  have hput := result_put_of_refusals hopening hrefusals
  have hturns : turnsOf hash env pool request world = turns := by
    rw [turnsOf, hrefusals, Option.getD_some]
  constructor
  · intro h
    have hne : turns ≠ [] := by
      rintro rfl
      obtain ⟨account, haccount, -⟩ := hroom
      unfold refusals at hrefusals
      rw [hopening] at hrefusals
      rw [← accounts_of_met hrefusals] at haccount
      exact absurd haccount not_mem_nil
    have hother := isNeedsCapacity_of_truthful hroom h hput
    obtain ⟨last, hlast, herror, hshown⟩ := last_of_not_needsCapacity hne hother
    refine ⟨last, hlast, herror ▸ hother, hshown, fun other hblamed ↦ ?_⟩
    have hnamed := h.failure _ other hput
    rw [hturns, herror] at hnamed
    exact hnamed hblamed
  · rintro ⟨last, htells⟩
    rw [putError_of_tells htells] at hput
    constructor
    · intro required available hlack
      have hother := htells.isOther
      rw [Except.error.inj (hput.symm.trans hlack)] at hother
      exact absurd hother.symm Bool.false_ne_true
    · intro failure other hfailed hblamed
      rw [← Except.error.inj (hput.symm.trans hfailed)]
      rw [hturns] at hblamed ⊢
      exact htells.isBlamed other hblamed

end Claims

def failingUpload : Environment := fun clock ↦
  { quietAccount clock with
    failure := if clock = 7 then some (.networkUnavailable "connection reset") else none }

/-- A store in which the account has a thousand free bytes. -/
def roomyLedger : InMemoryCapacityState :=
  InMemoryCapacityState.empty.ensureAccount
    ⟨"first", "mega", "mega", "mega", .cold, .active, 1000, 0, 0, 0, none⟩

end GameLauncher.ColdStorage
