import Mathlib.Data.List.Sort
import GameLauncher.Foundation.Table
import GameLauncher.Foundation.Text

/-!
# The capacity ledger in Postgres

Accounts of a cold storage provider have a capacity, and an upload first reserves its bytes. The
tables are `storage_accounts` and `storage_reservations`; each function is one operation of the
server's `CapacityReservationStore`, taken as one transaction: an error rolls everything back. The
columns are signed 64-bit integers, and an arithmetic overflow in SQL is an error. `now` is the time
of the transaction, `clock` the clock of the server process, from which the expiry of a reservation
is computed.

Left out: the tables of pools, providers and health events, which none of these functions reads, and
the partial unique index on active reservations, which never refuses the insertion of `reserve`
because its look-up is made under the lock of the account. Texts are ordered by code points.
-/

set_option autoImplicit false

namespace GameLauncher.Capacity

open Foundation Fallible

/-! ### Accounts and reservations -/

inductive StorageAccountStatus
  | active
  | nearFull
  | full
  | unavailable
  | authFailed
  | disabled
  | needsReauth
  deriving DecidableEq, Repr

/-- `StorageAccountStatus::as_str`. -/
def StorageAccountStatus.asStr : StorageAccountStatus → Text
  | .active => "ACTIVE"
  | .nearFull => "NEAR_FULL"
  | .full => "FULL"
  | .unavailable => "UNAVAILABLE"
  | .authFailed => "AUTH_FAILED"
  | .disabled => "DISABLED"
  | .needsReauth => "NEEDS_REAUTH"

/-- `StorageAccountStatus::can_allocate`. -/
def StorageAccountStatus.canAllocate : StorageAccountStatus → Bool
  | .active | .nearFull => true
  | _ => false

inductive StorageTier
  | hot
  | cold
  | archive
  deriving DecidableEq, Repr

/-- An account as callers see it. -/
structure StorageAccountSnapshot where
  accountId : Text
  providerId : Text
  poolId : Text
  failureDomain : Text
  tier : StorageTier
  status : StorageAccountStatus
  capacityBytes : ℕ
  usedBytes : ℕ
  reservedBytes : ℕ
  safetyMarginBytes : ℕ
  lastCapacityCheck : Option ℤ
  deriving DecidableEq, Repr

/-- The capacity that a provider reports. -/
structure CapacitySnapshot where
  capacityBytes : ℕ
  usedBytes : ℕ
  deriving DecidableEq, Repr

/-- A reservation as callers see it. -/
structure StorageReservation where
  reservationId : Text
  accountId : Text
  encodedHash : Text
  bytes : ℕ
  expiresAt : ℤ
  deriving DecidableEq, Repr

inductive StorageError
  | configuration (message : Text)
  | needsCapacity (requiredBytes availableBytes : ℕ)
  | unavailable (message : Text)
  deriving DecidableEq, Repr

inductive ReservationState
  | held
  | committed
  | released
  | expired
  deriving DecidableEq, Repr

def ReservationState.isActive : ReservationState → Bool
  | .held | .committed => true
  | .released | .expired => false

/-- A row of `storage_accounts`. -/
structure StorageAccount where
  id : Text
  providerId : Text
  poolId : Option Text
  failureDomain : Option Text
  tier : StorageTier
  status : StorageAccountStatus
  capacityBytes : ℤ
  usedBytes : ℤ
  reservedBytes : ℤ
  safetyMarginBytes : ℤ
  lastCapacityCheck : Option ℤ
  deriving DecidableEq, Repr

/-- A row of `storage_reservations`, with its check on the bytes. -/
structure ReservationRow where
  id : ℕ
  accountId : Text
  encodedHash : Text
  bytes : ℕ
  state : ReservationState
  expiresAt : ℤ
  deriving DecidableEq, Repr

/-- The two tables. -/
structure Ledger where
  accounts : Table StorageAccount StorageAccount.id
  reservations : Table ReservationRow ReservationRow.id

/-- No account and no reservation. -/
def Ledger.empty : Ledger := ⟨.empty, .empty⟩

/-- What the ledger depends on: the text form of a UUID, and the chunks that the table `chunks`
has, to which a reservation refers. -/
structure Environment where
  parseUuid : Text → Option ℕ
  uuidText : ℕ → Text
  parse_text : ∀ uuid, parseUuid (uuidText uuid) = some uuid
  hasChunk : Text → Bool

/-! ### Signed 64-bit integers -/

/-- The number of nonnegative values. -/
def i64Limit : ℤ := 2 ^ 63

def u64ToI64 (value : ℕ) : Except StorageError ℤ :=
  if (value : ℤ) < i64Limit then .ok value
  else .error (.configuration "invalid database integer")

/-- `storage_error`, for the error texts of the database. -/
def storageError (message : Text) : StorageError :=
  .unavailable ("database storage operation failed: " ++ message)

/-- The value of an SQL expression of type `bigint`. -/
def bigint (value : ℤ) : Except StorageError ℤ :=
  if -i64Limit ≤ value ∧ value < i64Limit then .ok value
  else .error (storageError "bigint out of range")

/-- `i64::saturating_sub`. -/
def saturatingSub (left right : ℤ) : ℤ := max (-i64Limit) (min (left - right) (i64Limit - 1))

/-- The longest lifetime in seconds that `chrono::Duration::from_std` accepts. -/
def durationLimit : ℕ := (2 ^ 63 - 1) / 1000

/-- `chrono::Duration::from_std`, on a lifetime in microseconds. -/
def fromStd (ttl : ℕ) : Except StorageError ℕ :=
  if ttl / 1000000 ≤ durationLimit then .ok ttl
  else .error (.configuration "Source duration value is out of range for the target type")

/-- The error for an account that does not exist. -/
def unknownAccount (accountId : Text) : StorageError :=
  .configuration ("unknown storage account " ++ accountId)

/-- The error for a reservation that does not exist. -/
def unknownReservation (reservationId : Text) : StorageError :=
  .configuration ("unknown reservation " ++ reservationId)

/-! ### The operations -/

/-- `account_snapshot_from_row`, on the nonnegative columns of an account. -/
def StorageAccount.snapshot (account : StorageAccount) : StorageAccountSnapshot where
  accountId := account.id
  providerId := account.providerId
  poolId := account.poolId.getD account.providerId
  failureDomain := account.failureDomain.getD (account.poolId.getD account.providerId)
  tier := account.tier
  status := account.status
  capacityBytes := account.capacityBytes.toNat
  usedBytes := account.usedBytes.toNat
  reservedBytes := account.reservedBytes.toNat
  safetyMarginBytes := account.safetyMarginBytes.toNat
  lastCapacityCheck := account.lastCapacityCheck

namespace Ledger

/-- `UPDATE storage_accounts … WHERE id`. -/
def updateAccount (ledger : Ledger) (accountId : Text) (change : StorageAccount → StorageAccount)
    (hid : ∀ account, (change account).id = account.id) : Ledger :=
  { ledger with
    accounts := ledger.accounts.updateWhere (fun account ↦ account.id == accountId) change hid }

/-- `UPDATE storage_reservations SET state … WHERE`. -/
def setState (ledger : Ledger) (condition : ReservationRow → Bool) (state : ReservationState) :
    Ledger :=
  { ledger with
    reservations := ledger.reservations.updateWhere condition
      (fun row ↦ { row with state := state }) fun _ ↦ rfl }

/-- Take bytes off what an account has reserved, down to zero. -/
def unreserve (ledger : Ledger) (accountId : Text) (bytes : ℤ) : Ledger :=
  ledger.updateAccount accountId
    (fun account ↦ { account with reservedBytes := max 0 (account.reservedBytes - bytes) })
    fun _ ↦ rfl

/-- `ensure_account`. The pool and the failure domain have defaults; an account that exists keeps its
status, its used bytes and its reserved bytes. -/
def ensureAccount (ledger : Ledger) (account : StorageAccountSnapshot) :
    Except StorageError Ledger := do
  let capacityBytes ← u64ToI64 account.capacityBytes
  let safetyMarginBytes ← u64ToI64 account.safetyMarginBytes
  let poolId := if account.poolId.isEmpty then account.providerId else account.poolId
  let failureDomain :=
    if account.failureDomain.isEmpty then "mega".toList else account.failureDomain
  match ledger.accounts.find account.accountId with
  | some existing =>
    return { ledger with
      accounts := ledger.accounts.upsert { existing with
        providerId := account.providerId
        poolId := some poolId
        failureDomain := some failureDomain
        tier := .cold
        capacityBytes := capacityBytes
        safetyMarginBytes := safetyMarginBytes } }
  | none =>
    return { ledger with
      accounts := ledger.accounts.upsert {
        id := account.accountId
        providerId := account.providerId
        poolId := some poolId
        failureDomain := some failureDomain
        tier := .cold
        status := account.status
        capacityBytes := capacityBytes
        usedBytes := 0
        reservedBytes := 0
        safetyMarginBytes := safetyMarginBytes
        lastCapacityCheck := none } }

def setAccountStatus (ledger : Ledger) (accountId : Text) (status : StorageAccountStatus) :
    Except StorageError Ledger :=
  match ledger.accounts.find accountId with
  | none => .error (storageError
      ("manifest is missing or invalid: unknown storage account " ++ accountId))
  | some _ =>
    .ok (ledger.updateAccount accountId (fun account ↦ { account with status := status })
      fun _ ↦ rfl)

/-- The status that `refresh_account_capacity` computes. -/
def refreshedStatus (account : StorageAccount) (capacityBytes usedBytes : ℤ) :
    Except StorageError StorageAccountStatus :=
  if account.status = .disabled then .ok .disabled
  else do
    let free ← bigint (capacityBytes - usedBytes - account.reservedBytes -
      account.safetyMarginBytes)
    if max 0 free = 0 then return .full
    else do
      let double ← bigint (account.safetyMarginBytes * 2)
      return if max 0 free ≤ double then .nearFull else .active

def refreshAccountCapacity (ledger : Ledger) (accountId : Text) (snapshot : CapacitySnapshot)
    (now : ℤ) : Except StorageError (StorageAccountSnapshot × Ledger) := do
  let capacityBytes ← u64ToI64 snapshot.capacityBytes
  let usedBytes ← u64ToI64 snapshot.usedBytes
  let account ← orThrow (ledger.accounts.find accountId) (unknownAccount accountId)
  let status ← refreshedStatus account capacityBytes usedBytes
  let refreshed : StorageAccount := { account with
    capacityBytes := capacityBytes
    usedBytes := usedBytes
    status := status
    lastCapacityCheck := some now }
  return (refreshed.snapshot, { ledger with accounts := ledger.accounts.upsert refreshed })

def listAccounts (ledger : Ledger) (providerId : Text) : List StorageAccountSnapshot :=
  ((ledger.accounts.rows.filter fun account ↦ account.providerId == providerId).insertionSort
    fun first other ↦ first.id ≤ other.id).map StorageAccount.snapshot

/-- A hold of the account whose time has passed. -/
def isExpiredHold (accountId : Text) (now : ℤ) (row : ReservationRow) : Bool :=
  row.accountId == accountId && row.state == .held && decide (row.expiresAt ≤ now)

/-- The bytes of the holds of an account whose time has passed. -/
def expiredBytes (ledger : Ledger) (accountId : Text) (now : ℤ) : ℤ :=
  ledger.reservations.total fun row ↦ if isExpiredHold accountId now row then row.bytes else 0

/-- The first part of `reserve`: the holds of the account whose time has passed expire. -/
def expireHolds (ledger : Ledger) (accountId : Text) (now : ℤ) : Ledger :=
  if 0 < ledger.expiredBytes accountId now then
    (ledger.setState (isExpiredHold accountId now) .expired).unreserve accountId
      (ledger.expiredBytes accountId now)
  else ledger

/-- The active reservation of a chunk with the least identifier. -/
def activeReservation (ledger : Ledger) (accountId encodedHash : Text) : Option ReservationRow :=
  ((ledger.reservations.rows.filter fun row ↦ row.accountId == accountId &&
    row.encodedHash == encodedHash && row.state.isActive).insertionSort
      fun first other ↦ first.id ≤ other.id).head?

/-- A row as callers see it. -/
def reservationOf (env : Environment) (row : ReservationRow) : StorageReservation where
  reservationId := env.uuidText row.id
  accountId := row.accountId
  encodedHash := row.encodedHash
  bytes := row.bytes
  expiresAt := row.expiresAt

/-- What is free in an account that has reserved the given bytes. -/
def available (account : StorageAccount) (reservedBytes : ℤ) : ℤ :=
  max 0 (saturatingSub (saturatingSub (saturatingSub account.capacityBytes account.usedBytes)
    reservedBytes) account.safetyMarginBytes)

/-- The refusals of `reserve`. -/
def checkAvailable (account : StorageAccount) (bytes : ℕ) (available : ℤ) :
    Except StorageError Unit :=
  if account.status.canAllocate then
    throwIf (available < bytes) (.needsCapacity bytes available.toNat)
  else if available < bytes then .error (.needsCapacity bytes available.toNat)
  else .error (.unavailable ("storage account " ++ account.id ++ " is " ++ account.status.asStr))

/-- `reserve`. The identifier of a new reservation is chosen at random. -/
def reserve (env : Environment) (ledger : Ledger) (accountId encodedHash : Text) (bytes ttl uuid : ℕ)
    (now clock : ℤ) : Except StorageError (StorageReservation × Ledger) := do
  let _ ← u64ToI64 bytes
  let ttl ← fromStd ttl
  let account ← orThrow (ledger.accounts.find accountId) (unknownAccount accountId)
  let expired ← bigint (ledger.expiredBytes accountId now)
  let cleaned := ledger.expireHolds accountId now
  match cleaned.activeReservation accountId encodedHash with
  | some row => return (reservationOf env row, cleaned)
  | none => do
    let reservedBytes :=
      if 0 < expired then max 0 (saturatingSub account.reservedBytes expired)
      else account.reservedBytes
    checkAvailable account bytes (available account reservedBytes)
    throwIf ((cleaned.reservations.find uuid).isSome)
      (storageError "duplicate key value violates unique constraint")
    throwIf (env.hasChunk encodedHash = false)
      (storageError "insert violates foreign key constraint")
    let _ ← bigint ((cleaned.accounts.find accountId).elim 0 StorageAccount.reservedBytes + bytes)
    let row : ReservationRow := {
      id := uuid
      accountId := accountId
      encodedHash := encodedHash
      bytes := bytes
      state := .held
      expiresAt := clock + ttl }
    return (reservationOf env row, { (cleaned.updateAccount accountId
          (fun account ↦ { account with reservedBytes := account.reservedBytes + bytes })
          fun _ ↦ rfl) with
        reservations := cleaned.reservations.upsert row })

def commit (env : Environment) (ledger : Ledger) (reservationId : Text) :
    Except StorageError Ledger := do
  let uuid ← orThrow (env.parseUuid reservationId) (.configuration "invalid UUID")
  let row ← orThrow (ledger.reservations.find uuid) (unknownReservation (env.uuidText uuid))
  if row.state = .held then do
    let _ ← bigint ((ledger.accounts.find row.accountId).elim 0 StorageAccount.usedBytes + row.bytes)
    return (ledger.setState (fun other ↦ other.id == uuid) .committed).updateAccount row.accountId
      (fun account ↦ { account with
        reservedBytes := max 0 (account.reservedBytes - row.bytes)
        usedBytes := account.usedBytes + row.bytes }) fun _ ↦ rfl
  else return ledger

def release (env : Environment) (ledger : Ledger) (reservationId : Text) :
    Except StorageError Ledger := do
  let uuid ← orThrow (env.parseUuid reservationId) (.configuration "invalid UUID")
  let row ← orThrow (ledger.reservations.find uuid) (unknownReservation (env.uuidText uuid))
  if row.state = .held then
    return (ledger.setState (fun other ↦ other.id == uuid) .released).unreserve row.accountId
      row.bytes
  else return ledger

/-- The holds whose time has passed, of all accounts. -/
def expiredHolds (ledger : Ledger) (now : ℤ) : List ReservationRow :=
  ledger.reservations.rows.filter fun row ↦ row.state == .held && decide (row.expiresAt ≤ now)

/-- One round of the loop of `recover_expired`. -/
def expireHold (ledger : Ledger) (row : ReservationRow) : Ledger :=
  (ledger.setState (fun other ↦ other.id == row.id) .expired).unreserve row.accountId row.bytes

def recoverExpired (ledger : Ledger) (now : ℤ) : ℕ × Ledger :=
  ((ledger.expiredHolds now).length, (ledger.expiredHolds now).foldl expireHold ledger)

/-- A hold that `commit` ends. -/
def commitHold (ledger : Ledger) (row : ReservationRow) : Ledger :=
  (ledger.setState (fun other ↦ other.id == row.id) .committed).updateAccount row.accountId
    (fun account ↦ { account with
      reservedBytes := max 0 (account.reservedBytes - row.bytes)
      usedBytes := account.usedBytes + row.bytes }) fun _ ↦ rfl

end Ledger

end GameLauncher.Capacity
