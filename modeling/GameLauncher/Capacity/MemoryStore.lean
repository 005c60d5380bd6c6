import GameLauncher.Capacity.Holdings

/-!
# The capacity ledger in memory

`InMemoryCapacityReservationStore` keeps the accounts and the reservations in two maps. Its
operations hold one lock, so each is a step; nothing is rolled back, and an operation that fails
keeps the expiry it began with. Amounts are unsigned 64-bit integers.

The maps are tables; where the source takes the first match of an iteration over a map, the table's
order stands for the order of the iteration.
-/

set_option autoImplicit false

namespace GameLauncher.Capacity

open Foundation Fallible

structure InMemoryReservation where
  reservation : StorageReservation
  state : ReservationState
  deriving DecidableEq, Repr

/-- The identifier under which a reservation is kept. -/
abbrev InMemoryReservation.id (entry : InMemoryReservation) : Text := entry.reservation.reservationId

instance : Holding InMemoryReservation where
  account := fun entry ↦ entry.reservation.accountId
  bytes := fun entry ↦ entry.reservation.bytes
  state := InMemoryReservation.state
  withState := fun entry state ↦ { entry with state := state }
  account_withState := fun _ _ ↦ rfl
  bytes_withState := fun _ _ ↦ rfl
  state_withState := fun _ _ ↦ rfl

structure InMemoryCapacityState where
  accounts : Table StorageAccountSnapshot StorageAccountSnapshot.accountId
  reservations : Table InMemoryReservation InMemoryReservation.id
  nextReservation : ℕ

/-- `StorageAccountSnapshot::usable_free_bytes`. -/
def StorageAccountSnapshot.usableFreeBytes (account : StorageAccountSnapshot) : ℕ :=
  account.capacityBytes - account.usedBytes - account.reservedBytes - account.safetyMarginBytes

/-- `u64::saturating_mul`. -/
def saturatingMul (left right : ℕ) : ℕ := min (left * right) (u64Size - 1)

namespace InMemoryCapacityState

/-- The store of `InMemoryCapacityReservationStore::default`. -/
def empty : InMemoryCapacityState := ⟨.empty, .empty, 0⟩

/-- The identifier of the reservation with a number. -/
def memoryId (number : ℕ) : Text := "memory-" ++ Nat.toDigits 10 number

theorem memoryId_injective {first other : ℕ} (h : memoryId first = memoryId other) :
    first = other := by
  have hdigits := List.append_cancel_left h
  rw [← Nat.ofDigitChars_ten_toDigits (n := first), hdigits, Nat.ofDigitChars_ten_toDigits]

/-- A hold whose time has passed. -/
def isDue (now : ℤ) (entry : InMemoryReservation) : Bool :=
  entry.state == .held && decide (entry.reservation.expiresAt ≤ now)

section

variable (memory : InMemoryCapacityState)

def heldBytes (accountId : Text) : ℤ :=
  Holding.bytesIn memory.reservations .held accountId

/-- `UPDATE` of one account, by its identifier. -/
def updateAccount (accountId : Text)
    (change : StorageAccountSnapshot → StorageAccountSnapshot)
    (hid : ∀ account, (change account).accountId = account.accountId) : InMemoryCapacityState :=
  { memory with
    accounts := memory.accounts.updateWhere (fun account ↦ account.accountId == accountId) change
      hid }

/-- The reservations that a condition selects go to a state. -/
def setState (condition : InMemoryReservation → Bool)
    (state : ReservationState) : InMemoryCapacityState :=
  { memory with
    reservations := memory.reservations.updateWhere condition
      (fun entry ↦ { entry with state := state }) fun _ ↦ rfl }

/-- The second part of `expire_locked`: the accounts of the expired holds add up what they still
hold. A sum that overflows wraps around. -/
def recomputeReserved (expired : List InMemoryReservation) :
    InMemoryCapacityState :=
  { memory with
    accounts := memory.accounts.updateWhere
      (fun account ↦ expired.any fun entry ↦ entry.reservation.accountId == account.accountId)
      (fun account ↦ { account with
        reservedBytes := (memory.heldBytes account.accountId).toNat % u64Size })
      fun _ ↦ rfl }

/-- `expire_locked`: the number of expired holds and the state afterwards. -/
def expireLocked (now : ℤ) : ℕ × InMemoryCapacityState :=
  let expired := memory.reservations.rows.filter (isDue now)
  (expired.length, (memory.setState (isDue now) .expired).recomputeReserved expired)

def ensureAccount (account : StorageAccountSnapshot) :
    InMemoryCapacityState :=
  { memory with accounts := memory.accounts.upsert account }

def setAccountStatus (accountId : Text)
    (status : StorageAccountStatus) : Except StorageError Unit × InMemoryCapacityState :=
  match memory.accounts.find accountId with
  | none => (.error (unknownAccount accountId), memory)
  | some _ =>
    (.ok (), memory.updateAccount accountId (fun account ↦ { account with status := status })
      fun _ ↦ rfl)

end

/-- The status that `refresh_account_capacity` computes. -/
def refreshedStatus (account : StorageAccountSnapshot) : StorageAccountStatus :=
  if account.status = .disabled then .disabled
  else if account.usableFreeBytes = 0 then .full
  else if account.usableFreeBytes ≤ saturatingMul account.safetyMarginBytes 2 then .nearFull
  else .active

def refreshAccountCapacity (memory : InMemoryCapacityState) (accountId : Text)
    (snapshot : CapacitySnapshot) (now : ℤ) :
    Except StorageError StorageAccountSnapshot × InMemoryCapacityState :=
  match memory.accounts.find accountId with
  | none => (.error (unknownAccount accountId), memory)
  | some account =>
    let measured : StorageAccountSnapshot := { account with
      capacityBytes := snapshot.capacityBytes
      usedBytes := snapshot.usedBytes
      lastCapacityCheck := some now }
    let refreshed : StorageAccountSnapshot := { measured with status := refreshedStatus measured }
    (.ok refreshed, { memory with accounts := memory.accounts.upsert refreshed })

def listAccounts (memory : InMemoryCapacityState) (providerId : Text) (now : ℤ) :
    List StorageAccountSnapshot × InMemoryCapacityState :=
  let cleaned := (memory.expireLocked now).2
  ((cleaned.accounts.rows.filter fun account ↦ account.providerId == providerId).insertionSort
    fun first other ↦ first.accountId ≤ other.accountId, cleaned)

def activeReservation (memory : InMemoryCapacityState) (accountId encodedHash : Text) :
    Option InMemoryReservation :=
  memory.reservations.rows.find? fun entry ↦ entry.reservation.accountId == accountId &&
    entry.reservation.encodedHash == encodedHash && entry.state.isActive

/-- The refusals of `reserve`. -/
def checkAvailable (account : StorageAccountSnapshot) (bytes : ℕ) : Except StorageError Unit :=
  if account.status.canAllocate then
    throwIf (account.usableFreeBytes < bytes) (.needsCapacity bytes account.usableFreeBytes)
  else if account.usableFreeBytes < bytes then
    .error (.needsCapacity bytes account.usableFreeBytes)
  else .error (.unavailable account.accountId)

section

variable (memory : InMemoryCapacityState)

def insertHold (reservation : StorageReservation) :
    InMemoryCapacityState :=
  { (memory.updateAccount reservation.accountId
      (fun account ↦ { account with
        reservedBytes := saturatingAdd account.reservedBytes reservation.bytes })
      fun _ ↦ rfl) with
    reservations := memory.reservations.upsert ⟨reservation, .held⟩ }

/-- `reserve`. The number of a reservation is used up before the lifetime is checked. -/
def reserve (accountId encodedHash : Text) (bytes ttl : ℕ)
    (now clock : ℤ) : Except StorageError StorageReservation × InMemoryCapacityState :=
  let cleaned := (memory.expireLocked now).2
  match cleaned.activeReservation accountId encodedHash with
  | some existing => (.ok existing.reservation, cleaned)
  | none =>
    match cleaned.accounts.find accountId with
    | none => (.error (unknownAccount accountId), cleaned)
    | some account =>
      match checkAvailable account bytes with
      | .error refusal => (.error refusal, cleaned)
      | .ok _ =>
        let numbered := { cleaned with
          nextReservation := saturatingAdd cleaned.nextReservation 1 }
        match fromStd ttl with
        | .error refusal => (.error refusal, numbered)
        | .ok lifetime =>
          let reservation : StorageReservation := {
            reservationId := memoryId numbered.nextReservation
            accountId := accountId
            encodedHash := encodedHash
            bytes := bytes
            expiresAt := clock + lifetime }
          (.ok reservation, numbered.insertHold reservation)

/-- A hold that `commit` ends. -/
def commitHold (entry : InMemoryReservation) :
    InMemoryCapacityState :=
  (memory.setState (fun other ↦ other.id == entry.id) .committed).updateAccount
    entry.reservation.accountId
    (fun account ↦ { account with
      reservedBytes := account.reservedBytes - entry.reservation.bytes
      usedBytes := saturatingAdd account.usedBytes entry.reservation.bytes }) fun _ ↦ rfl

/-- A hold that `release` ends. -/
def releaseHold (entry : InMemoryReservation) :
    InMemoryCapacityState :=
  (memory.setState (fun other ↦ other.id == entry.id) .released).updateAccount
    entry.reservation.accountId
    (fun account ↦ { account with
      reservedBytes := account.reservedBytes - entry.reservation.bytes }) fun _ ↦ rfl

/-- The common part of `commit` and `release`: a hold ends, any other reservation is left alone. -/
def endHold (reservationId : Text)
    (finish : InMemoryReservation → InMemoryCapacityState) :
    Except StorageError Unit × InMemoryCapacityState :=
  match memory.reservations.find reservationId with
  | none => (.error (unknownReservation reservationId), memory)
  | some entry => (.ok (), if entry.state = .held then finish entry else memory)

def commit (reservationId : Text) :
    Except StorageError Unit × InMemoryCapacityState :=
  memory.endHold reservationId memory.commitHold

def release (reservationId : Text) :
    Except StorageError Unit × InMemoryCapacityState :=
  memory.endHold reservationId memory.releaseHold

def recoverExpired (now : ℤ) : ℕ × InMemoryCapacityState :=
  memory.expireLocked now

end

/-! ### What the parts of an operation do -/

variable {memory : InMemoryCapacityState} {state : ReservationState}

theorem mem_setState {condition : InMemoryReservation → Bool} {entry : InMemoryReservation} :
    entry ∈ (memory.setState condition state).reservations ↔ ∃ old ∈ memory.reservations,
      entry = if condition old then { old with state := state } else old := by
  rw [setState, Table.mem_updateWhere]

theorem heldBytes_setState {condition : InMemoryReservation → Bool}
    (h : Holding.SelectsHolds memory.reservations condition) (hstate : state ≠ .held)
    (accountId : Text) :
    (memory.setState condition state).heldBytes accountId = memory.heldBytes accountId -
      Holding.selectedBytes memory.reservations condition accountId := by
  refine (h.bytesIn_update state (fun _ ↦ rfl) .held accountId).trans ?_
  rw [if_pos rfl, if_neg (Ne.symm hstate), add_zero]
  rfl

theorem heldBytes_setState_id {entry : InMemoryReservation} (hentry : entry ∈ memory.reservations)
    (hheld : entry.state = .held) (hstate : state ≠ .held) (accountId : Text) :
    (memory.setState (fun other ↦ other.id == entry.id) state).heldBytes accountId =
      memory.heldBytes accountId -
        if entry.reservation.accountId = accountId then (entry.reservation.bytes : ℤ) else 0 := by
  rw [heldBytes_setState (Holding.selectsHolds_key hentry hheld) hstate]
  split_ifs with hid
  · rw [← hid]
    exact congrArg _ (Holding.selectedBytes_key hentry)
  · exact congrArg _ (Holding.selectedBytes_key_of_ne hentry hid)

theorem selectsHolds_isDue (memory : InMemoryCapacityState) (now : ℤ) :
    Holding.SelectsHolds memory.reservations (isDue now) := by
  intro entry _ hdue
  exact beq_iff_eq.mp (Bool.and_eq_true _ _ ▸ hdue).1

theorem checkAvailable_eq_ok {account : StorageAccountSnapshot} {bytes : ℕ} {u : Unit}
    (h : checkAvailable account bytes = .ok u) :
    account.status.canAllocate = true ∧ bytes ≤ account.usableFreeBytes := by
  unfold checkAvailable at h
  split_ifs at h with hstatus
  exact ⟨hstatus, not_lt.mp (throwIf_eq_ok.mp h)⟩

end InMemoryCapacityState

end GameLauncher.Capacity
