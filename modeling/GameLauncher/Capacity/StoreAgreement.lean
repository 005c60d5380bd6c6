import GameLauncher.Capacity.LedgerRuns
import GameLauncher.Capacity.MemoryStore

/-!
# When the two ledgers agree

The tests run on the ledger in memory and the server on the one in Postgres. Both are given the same
calls, with the same clock readings, and their answers are compared: a reservation corresponds to
the one made by the same call, errors correspond when they are of the same kind, and everything else
must be equal.

The stores differ in when a hold expires: Postgres expires the holds of one account in `reserve`,
and all in `recover_expired`; the store in memory expires all of them in both and in `list_accounts`.
A hold that has expired in memory only is *pending*. They differ also in `ensure_account`, which in
memory replaces all of an account, in the kind of the error of `set_account_status`, and in the
foreign key on chunks. `Allowed` says of each call when it meets none of these differences;
`Mirrors` is the relation that allowed calls keep, and `stores_agree` the result for every run.
-/

set_option autoImplicit false

namespace GameLauncher.Capacity

open Foundation Fallible List InMemoryCapacityState Table Holding

/-! ### Calls and answers -/

/-- How a caller names a reservation: by the call that made it, or by a text of its own. -/
inductive ReservationRef
  | issued (index : ℕ)
  | other (reservationId : Text)

/-- A call to both stores, with the times it reads. -/
inductive StoreCall
  | ensureAccount (account : StorageAccountSnapshot)
  | setAccountStatus (accountId : Text) (status : StorageAccountStatus)
  | refreshAccountCapacity (accountId : Text) (snapshot : CapacitySnapshot) (now : ℤ)
  | listAccounts (providerId : Text) (now : ℤ)
  | reserve (accountId encodedHash : Text) (bytes ttl uuid : ℕ) (now clock : ℤ)
  | commit (reservation : ReservationRef)
  | release (reservation : ReservationRef)
  | recoverExpired (now : ℤ)

inductive Answer
  | done
  | account (snapshot : StorageAccountSnapshot)
  | accounts (snapshots : List StorageAccountSnapshot)
  | reservation (reservation : StorageReservation)
  | count (number : ℕ)
  | failed (failure : StorageError)

inductive StorageErrorKind
  | configuration
  | needsCapacity
  | unavailable
  deriving DecidableEq, Repr

def StorageError.kind : StorageError → StorageErrorKind
  | .configuration _ => .configuration
  | .needsCapacity _ _ => .needsCapacity
  | .unavailable _ => .unavailable

def Answer.ofExcept {α : Type} (answer : α → Answer) : Except StorageError α → Answer
  | .ok result => answer result
  | .error failure => .failed failure

/-- Both stores, and the identifiers that Postgres gave to the reservations, in the order in which
they were made. -/
structure Stores where
  ledger : Ledger
  memory : InMemoryCapacityState
  issued : List ℕ

namespace Stores

/-- Both stores at the start. -/
def empty : Stores := ⟨Ledger.empty, InMemoryCapacityState.empty, []⟩

/-- The identifier of a reservation in Postgres. -/
def ledgerId (env : Environment) (stores : Stores) : ReservationRef → Text
  | .issued index => (stores.issued[index]?).elim [] env.uuidText
  | .other reservationId => reservationId

def memoryId : ReservationRef → Text
  | .issued index => InMemoryCapacityState.memoryId (index + 1)
  | .other reservationId => reservationId

/-- The answer of Postgres, and the ledger afterwards. -/
def onLedger (env : Environment) (stores : Stores) : StoreCall → Answer × Ledger
  | .ensureAccount account =>
    let outcome := stores.ledger.ensureAccount account
    (.ofExcept (fun _ ↦ .done) outcome, stores.ledger.settled id outcome)
  | .setAccountStatus accountId status =>
    let outcome := stores.ledger.setAccountStatus accountId status
    (.ofExcept (fun _ ↦ .done) outcome, stores.ledger.settled id outcome)
  | .refreshAccountCapacity accountId snapshot now =>
    let outcome := stores.ledger.refreshAccountCapacity accountId snapshot now
    (.ofExcept (fun result ↦ .account result.1) outcome, stores.ledger.settled Prod.snd outcome)
  | .listAccounts providerId _ => (.accounts (stores.ledger.listAccounts providerId), stores.ledger)
  | .reserve accountId encodedHash bytes ttl uuid now clock =>
    let outcome := stores.ledger.reserve env accountId encodedHash bytes ttl uuid now clock
    (.ofExcept (fun result ↦ .reservation result.1) outcome, stores.ledger.settled Prod.snd outcome)
  | .commit reservation =>
    let outcome := stores.ledger.commit env (stores.ledgerId env reservation)
    (.ofExcept (fun _ ↦ .done) outcome, stores.ledger.settled id outcome)
  | .release reservation =>
    let outcome := stores.ledger.release env (stores.ledgerId env reservation)
    (.ofExcept (fun _ ↦ .done) outcome, stores.ledger.settled id outcome)
  | .recoverExpired now =>
    (.count (stores.ledger.recoverExpired now).1, (stores.ledger.recoverExpired now).2)

/-- The answer of the store in memory, and its state afterwards. -/
def onMemory (memory : InMemoryCapacityState) : StoreCall → Answer × InMemoryCapacityState
  | .ensureAccount account => (.done, memory.ensureAccount account)
  | .setAccountStatus accountId status =>
    let outcome := memory.setAccountStatus accountId status
    (.ofExcept (fun _ ↦ .done) outcome.1, outcome.2)
  | .refreshAccountCapacity accountId snapshot now =>
    let outcome := memory.refreshAccountCapacity accountId snapshot now
    (.ofExcept .account outcome.1, outcome.2)
  | .listAccounts providerId now =>
    let outcome := memory.listAccounts providerId now
    (.accounts outcome.1, outcome.2)
  | .reserve accountId encodedHash bytes ttl _ now clock =>
    let outcome := memory.reserve accountId encodedHash bytes ttl now clock
    (.ofExcept .reservation outcome.1, outcome.2)
  | .commit reservation =>
    let outcome := memory.commit (memoryId reservation)
    (.ofExcept (fun _ ↦ .done) outcome.1, outcome.2)
  | .release reservation =>
    let outcome := memory.release (memoryId reservation)
    (.ofExcept (fun _ ↦ .done) outcome.1, outcome.2)
  | .recoverExpired now =>
    let outcome := memory.recoverExpired now
    (.count outcome.1, outcome.2)

/-- The identifiers given out after a call: a `reserve` may have added one. -/
def issuedAfter (stores : Stores) (ledger : Ledger) : StoreCall → List ℕ
  | .reserve _ _ _ _ uuid _ _ =>
    if (stores.ledger.reservations.find uuid).isNone ∧ (ledger.reservations.find uuid).isSome then
      stores.issued ++ [uuid]
    else stores.issued
  | _ => stores.issued

def step (env : Environment) (stores : Stores) (call : StoreCall) : Stores where
  ledger := (stores.onLedger env call).2
  memory := (onMemory stores.memory call).2
  issued := stores.issuedAfter (stores.onLedger env call).2 call

/-- Two reservations that the same call made. -/
structure SameReservation (env : Environment) (issued : List ℕ) (first other : StorageReservation) :
    Prop where
  id : ∃ index uuid, issued[index]? = some uuid ∧ first.reservationId = env.uuidText uuid ∧
    other.reservationId = InMemoryCapacityState.memoryId (index + 1)
  account : first.accountId = other.accountId
  hash : first.encodedHash = other.encodedHash
  bytes : first.bytes = other.bytes
  expires : first.expiresAt = other.expiresAt

/-- Answers of Postgres and of the store in memory that correspond. -/
def Corresponds (env : Environment) (issued : List ℕ) : Answer → Answer → Prop
  | .done, .done => True
  | .account first, .account other => first = other
  | .accounts first, .accounts other => first = other
  | .reservation first, .reservation other => SameReservation env issued first other
  | .count first, .count other => first = other
  | .failed first, .failed other => first.kind = other.kind
  | _, _ => False

/-! ### Calls that meet no difference -/

/-- The reservations of both stores, those of one call together. -/
def pairs (stores : Stores) : List (ReservationRow × InMemoryReservation) :=
  stores.ledger.reservations.rows.zip stores.memory.reservations.rows

/-- A hold in Postgres that has expired in memory. -/
def IsPending (pair : ReservationRow × InMemoryReservation) : Prop :=
  pair.1.state = .held ∧ pair.2.state = .expired

instance (pair : ReservationRow × InMemoryReservation) : Decidable (IsPending pair) :=
  inferInstanceAs (Decidable (_ ∧ _))

def amountLimit : ℕ := 2 ^ 62

/-- A snapshot for `ensure_account` that both stores take over in the same way: an account of the
cold tier with a pool and a failure domain, which is unused when it is new and otherwise as the
store in memory has it. -/
structure Registers (memory : InMemoryCapacityState) (account : StorageAccountSnapshot) : Prop where
  capacity_lt : account.capacityBytes < amountLimit
  margin_lt : account.safetyMarginBytes < amountLimit
  cold : account.tier = .cold
  pool : account.poolId ≠ []
  domain : account.failureDomain ≠ []
  new : memory.accounts.find account.accountId = none →
    account.usedBytes = 0 ∧ account.reservedBytes = 0 ∧ account.lastCapacityCheck = none
  known : ∀ old, memory.accounts.find account.accountId = some old →
    account.status = old.status ∧ account.usedBytes = old.usedBytes ∧
      account.reservedBytes = old.reservedBytes ∧
      account.lastCapacityCheck = old.lastCapacityCheck

/-- A reference that means the same in both stores: an issued reservation, or one that neither
knows. -/
def IsShared (env : Environment) (stores : Stores) : ReservationRef → Prop
  | .issued index => index < stores.issued.length
  | .other reservationId =>
    (∀ uuid, env.parseUuid reservationId = some uuid →
      stores.ledger.reservations.find uuid = none) ∧
    stores.memory.reservations.find reservationId = none

/-- The calls for which the stores do not differ. -/
def Allowed (env : Environment) (stores : Stores) : StoreCall → Prop
  | .ensureAccount account => Registers stores.memory account
  | .setAccountStatus accountId _ => (stores.ledger.accounts.find accountId).isSome = true
  | .refreshAccountCapacity accountId snapshot _ =>
    snapshot.capacityBytes < amountLimit ∧ snapshot.usedBytes < amountLimit ∧
      (∀ pair ∈ stores.pairs, pair.1.accountId = accountId → ¬ IsPending pair) ∧
      ∀ account ∈ stores.ledger.accounts, account.id = accountId → account.status ≠ .disabled →
        -i64Limit ≤ snapshot.capacityBytes - snapshot.usedBytes - account.reservedBytes -
          account.safetyMarginBytes
  | .listAccounts providerId now =>
    ∀ account ∈ stores.ledger.accounts, account.providerId = providerId →
      ∀ pair ∈ stores.pairs, pair.1.accountId = account.id → pair.1.state = .held →
        pair.2.state = .held ∧ now < pair.1.expiresAt
  | .reserve accountId encodedHash bytes ttl uuid now _ =>
    0 < bytes ∧ bytes < amountLimit ∧ ttl < amountLimit ∧
      stores.memory.nextReservation < amountLimit ∧ env.hasChunk encodedHash = true ∧
      stores.ledger.reservations.find uuid = none ∧
      ∀ pair ∈ stores.pairs, pair.1.accountId = accountId → IsPending pair → pair.1.expiresAt ≤ now
  | .commit reservation => IsShared env stores reservation ∧
      ∀ pair ∈ stores.pairs, pair.2.id = memoryId reservation → ¬ IsPending pair
  | .release reservation => IsShared env stores reservation
  | .recoverExpired _ => ∀ pair ∈ stores.pairs, ¬ IsPending pair

/-! ### The relation between the stores -/

/-- The states that reservations of one call may have. -/
def statesMatch : ReservationState → ReservationState → Bool
  | .held, .held | .held, .expired | .committed, .committed => true
  | .released, other | .expired, other => !other.isActive
  | _, _ => false

/-- Two reservations that the same call made, in both stores. -/
structure Matches (issued : List ℕ) (pair : ReservationRow × InMemoryReservation) : Prop where
  id : ∃ index, issued[index]? = some pair.1.id ∧
    pair.2.id = InMemoryCapacityState.memoryId (index + 1)
  account : pair.1.accountId = pair.2.reservation.accountId
  hash : pair.1.encodedHash = pair.2.reservation.encodedHash
  bytes : pair.1.bytes = pair.2.reservation.bytes
  positive : 0 < pair.1.bytes
  expires : pair.1.expiresAt = pair.2.reservation.expiresAt
  state : statesMatch pair.1.state pair.2.state = true

/-- An account of Postgres as the store in memory has it: its reserved bytes are the holds there. -/
def mirror (memory : InMemoryCapacityState) (account : StorageAccount) : StorageAccountSnapshot :=
  { account.snapshot with reservedBytes := (memory.heldBytes account.id).toNat }

structure Within (account : StorageAccount) : Prop where
  capacity_lt : account.capacityBytes < amountLimit
  margin_lt : account.safetyMarginBytes < amountLimit
  reserved_lt : account.reservedBytes < amountLimit
  total_lt : account.usedBytes + account.reservedBytes < i64Limit

/-- The stores hold the same accounts and reservations, up to pending holds. -/
structure Mirrors (stores : Stores) : Prop where
  balanced : stores.ledger.Balanced
  within : ∀ account ∈ stores.ledger.accounts, Within account
  accounts : stores.memory.accounts.rows = stores.ledger.accounts.rows.map (mirror stores.memory)
  length_eq : stores.ledger.reservations.rows.length = stores.memory.reservations.rows.length
  matching : ∀ pair ∈ stores.pairs, Matches stores.issued pair
  issued_nodup : stores.issued.Nodup
  numbers : stores.memory.nextReservation = stores.issued.length
  issued_known : ∀ uuid ∈ stores.issued, ∃ row ∈ stores.ledger.reservations, row.id = uuid

/-- A call keeps the relation, and its answers correspond. -/
abbrev Agrees (env : Environment) (stores : Stores) (call : StoreCall) : Prop :=
  (stores.step env call).Mirrors ∧
    Corresponds env (stores.step env call).issued (stores.onLedger env call).1
      (onMemory stores.memory call).1

theorem mirrors_empty : empty.Mirrors where
  balanced := Ledger.balanced_empty
  within := fun _ h ↦ nomatch h
  accounts := rfl
  length_eq := rfl
  matching := fun _ h ↦ nomatch h
  issued_nodup := nodup_nil
  numbers := rfl
  issued_known := fun _ h ↦ nomatch h

namespace Mirrors

variable {stores : Stores}

theorem map_fst (h : stores.Mirrors) :
    stores.pairs.map Prod.fst = stores.ledger.reservations.rows :=
  map_fst_zip h.length_eq.le

theorem map_snd (h : stores.Mirrors) :
    stores.pairs.map Prod.snd = stores.memory.reservations.rows :=
  map_snd_zip h.length_eq.ge

variable {row : ReservationRow}

theorem exists_entry (h : stores.Mirrors) (hrow : row ∈ stores.ledger.reservations) :
    ∃ entry, (row, entry) ∈ stores.pairs := by
  rw [mem_iff, ← h.map_fst] at hrow
  obtain ⟨⟨_, entry⟩, hpair, rfl⟩ := mem_map.mp hrow
  exact ⟨entry, hpair⟩

theorem exists_row (h : stores.Mirrors) {entry : InMemoryReservation}
    (hentry : entry ∈ stores.memory.reservations) : ∃ row, (row, entry) ∈ stores.pairs := by
  rw [mem_iff, ← h.map_snd] at hentry
  obtain ⟨⟨row, _⟩, hpair, rfl⟩ := mem_map.mp hentry
  exact ⟨row, hpair⟩

variable {pair : ReservationRow × InMemoryReservation}

theorem row_mem (hpair : pair ∈ stores.pairs) : pair.1 ∈ stores.ledger.reservations :=
  (of_mem_zip hpair).1

theorem entry_mem (hpair : pair ∈ stores.pairs) : pair.2 ∈ stores.memory.reservations :=
  (of_mem_zip hpair).2

theorem total_fst (h : stores.Mirrors) (quantity : ReservationRow → ℤ) :
    stores.ledger.reservations.total quantity =
      (stores.pairs.map fun pair ↦ quantity pair.1).sum := by
  rw [Table.total, ← h.map_fst, map_map]
  rfl

theorem total_snd (h : stores.Mirrors) (quantity : InMemoryReservation → ℤ) :
    stores.memory.reservations.total quantity =
      (stores.pairs.map fun pair ↦ quantity pair.2).sum := by
  rw [Table.total, ← h.map_snd, map_map]
  rfl

theorem held_of_held (h : stores.Mirrors) (hpair : pair ∈ stores.pairs)
    (hheld : pair.2.state = .held) : pair.1.state = .held := by
  have hstate := (h.matching pair hpair).state
  rw [hheld] at hstate
  cases hrow : pair.1.state <;> rw [hrow] at hstate <;> first | rfl | cases hstate

theorem held_of_not_pending (h : stores.Mirrors) (hpair : pair ∈ stores.pairs)
    (hheld : pair.1.state = .held) (hpending : ¬ IsPending pair) : pair.2.state = .held := by
  have hstate := (h.matching pair hpair).state
  rw [hheld] at hstate
  cases hentry : pair.2.state with
  | held => rfl
  | expired => exact absurd ⟨hheld, hentry⟩ hpending
  | committed => rw [hentry] at hstate; cases hstate
  | released => rw [hentry] at hstate; cases hstate

theorem heldBytes_le (h : stores.Mirrors) (accountId : Text) :
    stores.memory.heldBytes accountId ≤ stores.ledger.heldBytes accountId := by
  refine (h.total_snd _).trans_le ((sum_le_sum fun pair hpair ↦ ?_).trans_eq
    (h.total_fst _).symm)
  have hmatch := h.matching pair hpair
  simp only [Holding.account, Holding.state, Holding.bytes, ← hmatch.account, ← hmatch.bytes]
  by_cases hheld : pair.1.accountId = accountId ∧ pair.2.state = .held
  · rw [if_pos hheld, if_pos ⟨hheld.1, h.held_of_held hpair hheld.2⟩]
  · rw [if_neg hheld]
    exact part_nonneg _ _

variable {accountId : Text}

theorem heldBytes_eq (h : stores.Mirrors)
    (hpending : ∀ pair ∈ stores.pairs, pair.1.accountId = accountId → ¬ IsPending pair) :
    stores.memory.heldBytes accountId = stores.ledger.heldBytes accountId := by
  refine (h.total_snd _).trans (((congrArg List.sum (map_congr_left fun pair hpair ↦ ?_)).trans
    (h.total_fst _).symm))
  have hmatch := h.matching pair hpair
  simp only [Holding.account, Holding.state, Holding.bytes, ← hmatch.account, ← hmatch.bytes]
  refine if_congr (and_congr_right fun haccount ↦ ?_) rfl rfl
  exact ⟨h.held_of_held hpair,
    fun hheld ↦ h.held_of_not_pending hpair hheld (hpending pair hpair haccount)⟩

/-! ### Updates of both stores -/

variable {ledger : Ledger} {memory : InMemoryCapacityState} {account : StorageAccount}
  {snapshot : StorageAccountSnapshot}

theorem update (h : stores.Mirrors) (change : ReservationRow → ReservationState)
    (alter : InMemoryReservation → ReservationState) (hrows : ledger.reservations.rows =
      stores.ledger.reservations.rows.map fun row ↦ { row with state := change row })
    (hentries : memory.reservations.rows =
      stores.memory.reservations.rows.map fun entry ↦ { entry with state := alter entry })
    (hnext : memory.nextReservation = stores.memory.nextReservation)
    (hstates : ∀ pair ∈ stores.pairs, statesMatch (change pair.1) (alter pair.2) = true)
    (hbalanced : ledger.Balanced) (hwithin : ∀ account ∈ ledger.accounts, Within account)
    (haccounts : memory.accounts.rows = ledger.accounts.rows.map (mirror memory)) :
    Mirrors ⟨ledger, memory, stores.issued⟩ where
  balanced := hbalanced
  within := hwithin
  accounts := haccounts
  length_eq := by
    rw [hrows, hentries, length_map, length_map, h.length_eq]
  matching := by
    intro pair hpair
    rw [pairs, hrows, hentries, zip_map] at hpair
    obtain ⟨old, hold, rfl⟩ := mem_map.mp hpair
    have hmatch := h.matching old hold
    exact ⟨hmatch.id, hmatch.account, hmatch.hash, hmatch.bytes, hmatch.positive, hmatch.expires,
      hstates old hold⟩
  issued_nodup := h.issued_nodup
  numbers := hnext.trans h.numbers
  issued_known := by
    intro uuid huuid
    obtain ⟨row, hrow, rfl⟩ := h.issued_known uuid huuid
    refine ⟨{ row with state := change row }, ?_, rfl⟩
    rw [mem_iff, hrows]
    exact mem_map_of_mem (f := fun row ↦ ({ row with state := change row } : ReservationRow))
      hrow

theorem updateAccounts (h : stores.Mirrors)
    (hrows : ledger.reservations = stores.ledger.reservations)
    (hentries : memory.reservations = stores.memory.reservations)
    (hnext : memory.nextReservation = stores.memory.nextReservation) (hbalanced : ledger.Balanced)
    (hwithin : ∀ account ∈ ledger.accounts, Within account)
    (haccounts : memory.accounts.rows = ledger.accounts.rows.map (mirror stores.memory)) :
    Mirrors ⟨ledger, memory, stores.issued⟩ := by
  have hmirror : mirror memory = mirror stores.memory := by
    funext account
    rw [mirror, mirror, heldBytes, heldBytes, hentries]
  refine h.update ReservationRow.state InMemoryReservation.state ?_ ?_ hnext
    (fun pair hpair ↦ (h.matching pair hpair).state) hbalanced hwithin (hmirror ▸ haccounts)
  · rw [hrows]
    exact (map_id' _).symm
  · rw [hentries]
    exact (map_id' _).symm

theorem find_account (h : stores.Mirrors) (accountId : Text) :
    stores.memory.accounts.find accountId =
      (stores.ledger.accounts.find accountId).map (mirror stores.memory) := by
  rw [Table.find, h.accounts, List.find?_map]
  rfl

theorem upsert_rows (h : stores.Mirrors) (hmirror : mirror stores.memory account = snapshot) :
    (stores.memory.accounts.upsert snapshot).rows =
      (stores.ledger.accounts.upsert account).rows.map (mirror stores.memory) := by
  simp only [Table.upsert, map_cons, hmirror, h.accounts, filter_map]
  subst hmirror
  rfl

/-! ### Accounts -/

variable {now : ℤ}

theorem setAccountStatus (h : stores.Mirrors) (env : Environment) {status : StorageAccountStatus}
    (hallowed : Allowed env stores (.setAccountStatus accountId status)) :
    Agrees env stores (.setAccountStatus accountId status) := by
  obtain ⟨account, hfind⟩ := Option.isSome_iff_exists.mp hallowed
  have hledger : stores.ledger.setAccountStatus accountId status = .ok
      (stores.ledger.updateAccount accountId (fun account ↦ { account with status := status })
        fun _ ↦ rfl) := by
    rw [Ledger.setAccountStatus, hfind]
  have hmemory : stores.memory.setAccountStatus accountId status = (.ok (),
      stores.memory.updateAccount accountId (fun account ↦ { account with status := status })
        fun _ ↦ rfl) := by
    rw [InMemoryCapacityState.setAccountStatus, h.find_account, hfind]
    rfl
  simp only [Agrees, step, onLedger, onMemory, hledger, hmemory]
  refine ⟨h.updateAccounts rfl rfl rfl (h.balanced.setAccountStatus hledger)
    (fun account haccount ↦ ?_) ?_, trivial⟩
  · simp only [Ledger.settled, Ledger.updateAccount, id, mem_updateWhere] at haccount
    obtain ⟨old, hold, rfl⟩ := haccount
    have hwithin := h.within old hold
    split_ifs
    · exact ⟨hwithin.capacity_lt, hwithin.margin_lt, hwithin.reserved_lt, hwithin.total_lt⟩
    · exact hwithin
  · simp only [Ledger.settled, Ledger.updateAccount, updateAccount, id,
      Table.updateWhere, h.accounts, map_map]
    refine map_congr_left fun account _ ↦ ?_
    change (if account.id == accountId then _ else _) = mirror stores.memory (if _ then _ else _)
    split_ifs <;> rfl

theorem u64ToI64_of_lt {value : ℕ} (h : value < amountLimit) : u64ToI64 value = .ok value :=
  Ledger.u64ToI64_eq_ok.mpr ⟨by unfold amountLimit at h; unfold i64Limit; omega, rfl⟩

theorem ensured_row (h : stores.Mirrors) {account : StorageAccountSnapshot}
    (hregisters : Registers stores.memory account) :
    ∃ row : StorageAccount, stores.ledger.ensureAccount account =
        .ok { stores.ledger with accounts := stores.ledger.accounts.upsert row } ∧
      mirror stores.memory row = account ∧ Within row := by
  have hpool : account.poolId.isEmpty = false := isEmpty_eq_false_iff.mpr hregisters.pool
  have hdomain : account.failureDomain.isEmpty = false :=
    isEmpty_eq_false_iff.mpr hregisters.domain
  have hcapacity : (account.capacityBytes : ℤ) < amountLimit :=
    Int.ofNat_lt.mpr hregisters.capacity_lt
  have hmargin : (account.safetyMarginBytes : ℤ) < amountLimit :=
    Int.ofNat_lt.mpr hregisters.margin_lt
  simp only [Ledger.ensureAccount, u64ToI64_of_lt hregisters.capacity_lt,
    u64ToI64_of_lt hregisters.margin_lt, hpool, hdomain]
  cases hfind : stores.ledger.accounts.find account.accountId with
  | some existing =>
    obtain ⟨hexisting, hid⟩ := find_eq_some.mp hfind
    have hknown := hregisters.known (mirror stores.memory existing)
      (by rw [h.find_account, hfind]; rfl)
    obtain ⟨hstatus, hused, hreserved, hlast⟩ := hknown
    have hwithin := h.within existing hexisting
    refine ⟨_, rfl, ?_, ⟨hcapacity, hmargin, hwithin.reserved_lt, hwithin.total_lt⟩⟩
    obtain ⟨_, _, _, _, _, _, _, _, _, _, _⟩ := account
    rw [StorageAccountSnapshot.mk.injEq]
    exact ⟨hid, rfl, rfl, rfl, hregisters.cold.symm, hstatus.symm, Int.toNat_natCast _,
      hused.symm, hreserved.symm, Int.toNat_natCast _, hlast.symm⟩
  | none =>
    obtain ⟨hused, hreserved, hlast⟩ := hregisters.new (by rw [h.find_account, hfind]; rfl)
    have hheld : (stores.memory.heldBytes account.accountId).toNat = 0 := by
      have hle := h.heldBytes_le account.accountId
      rw [h.balanced.heldBytes_of_unknown hfind] at hle
      exact Int.toNat_of_nonpos hle
    have hpositive : (0 : ℤ) < amountLimit := by decide
    have hlimit : (0 : ℤ) + 0 < i64Limit := by decide
    refine ⟨_, rfl, ?_, ⟨hcapacity, hmargin, hpositive, hlimit⟩⟩
    obtain ⟨_, _, _, _, _, _, _, _, _, _, _⟩ := account
    rw [StorageAccountSnapshot.mk.injEq]
    exact ⟨rfl, rfl, rfl, rfl, hregisters.cold.symm, rfl, Int.toNat_natCast _, hused.symm,
      hheld.trans hreserved.symm, Int.toNat_natCast _, hlast.symm⟩

theorem upsert_within (h : stores.Mirrors) {row : StorageAccount} (hrow : Within row) :
    ∀ account ∈ stores.ledger.accounts.upsert row, Within account := by
  intro account haccount
  rcases mem_upsert.mp haccount with rfl | ⟨hold, -⟩
  · exact hrow
  · exact h.within account hold

theorem ensureAccount (h : stores.Mirrors) (env : Environment) {account : StorageAccountSnapshot}
    (hallowed : Allowed env stores (.ensureAccount account)) :
    Agrees env stores (.ensureAccount account) := by
  obtain ⟨row, hledger, hmirror, hwithin⟩ := h.ensured_row hallowed
  simp only [Agrees, step, onLedger, onMemory, hledger]
  exact ⟨h.updateAccounts rfl rfl rfl (h.balanced.ensureAccount hledger) (h.upsert_within hwithin)
    (h.upsert_rows hmirror), trivial⟩

theorem mirror_eq_snapshot (h : stores.Mirrors) (haccount : account ∈ stores.ledger.accounts)
    (hpending : ∀ pair ∈ stores.pairs, pair.1.accountId = account.id → ¬ IsPending pair) :
    mirror stores.memory account = account.snapshot := by
  rw [mirror, h.heldBytes_eq hpending, ← (h.balanced.sound account haccount).reserved_eq]
  rfl

theorem refreshedStatus_eq {measured : StorageAccountSnapshot} {capacityBytes usedBytes : ℤ}
    (hstatus : measured.status = account.status)
    (hmargin : (measured.safetyMarginBytes : ℤ) = account.safetyMarginBytes)
    (hmargin_lt : account.safetyMarginBytes < amountLimit)
    (husable : (measured.usableFreeBytes : ℤ) =
      max 0 (capacityBytes - usedBytes - account.reservedBytes - account.safetyMarginBytes))
    (hfree : account.status ≠ .disabled →
      bigint (capacityBytes - usedBytes - account.reservedBytes - account.safetyMarginBytes) =
        .ok (capacityBytes - usedBytes - account.reservedBytes - account.safetyMarginBytes)) :
    Ledger.refreshedStatus account capacityBytes usedBytes = .ok (refreshedStatus measured) := by
  unfold Ledger.refreshedStatus refreshedStatus
  rw [hstatus]
  by_cases hdisabled : account.status = .disabled
  · rw [if_pos hdisabled, if_pos hdisabled]
  · rw [if_neg hdisabled, if_neg hdisabled, hfree hdisabled]
    have hdouble : bigint (account.safetyMarginBytes * 2) =
        .ok (account.safetyMarginBytes * 2) := by
      refine Ledger.bigint_eq_ok.mpr ⟨?_, rfl⟩
      unfold amountLimit at hmargin_lt
      unfold i64Limit
      omega
    have hmul : (saturatingMul measured.safetyMarginBytes 2 : ℤ) =
        account.safetyMarginBytes * 2 := by
      unfold amountLimit at hmargin_lt
      simp only [saturatingMul, u64Size]
      omega
    change (if max 0 _ = 0 then _ else _) = _
    rw [← husable]
    by_cases hfull : (measured.usableFreeBytes : ℤ) = 0
    · rw [if_pos hfull, if_pos (Int.natCast_eq_zero.mp hfull)]
      rfl
    · rw [if_neg hfull, if_neg (fun hzero ↦ hfull (Int.natCast_eq_zero.mpr hzero)), hdouble]
      refine congrArg Except.ok (if_congr ?_ rfl rfl)
      rw [← hmul]
      exact Int.ofNat_le

theorem refreshAccountCapacity (h : stores.Mirrors) (env : Environment)
    {snapshot : CapacitySnapshot}
    (hallowed : Allowed env stores (.refreshAccountCapacity accountId snapshot now)) :
    Agrees env stores (.refreshAccountCapacity accountId snapshot now) := by
  obtain ⟨hcapacity, hused, hpending, hfree⟩ := hallowed
  cases hfind : stores.ledger.accounts.find accountId with
  | none =>
    have hledger : stores.ledger.refreshAccountCapacity accountId snapshot now =
        .error (unknownAccount accountId) := by
      simp only [Ledger.refreshAccountCapacity, u64ToI64_of_lt hcapacity, u64ToI64_of_lt hused,
        hfind]
      rfl
    have hmemory : stores.memory.refreshAccountCapacity accountId snapshot now =
        (.error (unknownAccount accountId), stores.memory) := by
      rw [InMemoryCapacityState.refreshAccountCapacity, h.find_account, hfind]
      rfl
    simp only [Agrees, step, onLedger, onMemory, hledger, hmemory]
    exact ⟨h, rfl⟩
  | some account =>
    obtain ⟨haccount, rfl⟩ := find_eq_some.mp hfind
    have hsound := h.balanced.sound account haccount
    have hwithin := h.within account haccount
    have hmirror := h.mirror_eq_snapshot haccount hpending
    have hreserved : 0 ≤ account.reservedBytes := by
      rw [hsound.reserved_eq]
      exact bytesIn_nonneg _ _ _
    have hreserved_lt := hwithin.reserved_lt
    have hmargin_nonneg := hsound.margin_nonneg
    have hfind' := h.find_account account.id
    rw [hfind, Option.map_some, hmirror] at hfind'
    let measured : StorageAccountSnapshot := { account.snapshot with
      capacityBytes := snapshot.capacityBytes
      usedBytes := snapshot.usedBytes
      lastCapacityCheck := some now }
    let row : StorageAccount := { account with
      capacityBytes := snapshot.capacityBytes
      usedBytes := snapshot.usedBytes
      status := refreshedStatus measured
      lastCapacityCheck := some now }
    have hstatus : Ledger.refreshedStatus account snapshot.capacityBytes snapshot.usedBytes =
        .ok (refreshedStatus measured) := by
      refine refreshedStatus_eq rfl (Int.toNat_of_nonneg hmargin_nonneg) hwithin.margin_lt ?_
        fun hdisabled ↦ Ledger.bigint_eq_ok.mpr ⟨⟨hfree account haccount rfl hdisabled, ?_⟩, rfl⟩
      · simp only [measured, StorageAccountSnapshot.usableFreeBytes, StorageAccount.snapshot]
        omega
      · unfold amountLimit at hcapacity
        unfold i64Limit
        omega
    have hledger : stores.ledger.refreshAccountCapacity account.id snapshot now = .ok (row.snapshot,
          { stores.ledger with accounts := stores.ledger.accounts.upsert row }) := by
      simp only [Ledger.refreshAccountCapacity, u64ToI64_of_lt hcapacity, u64ToI64_of_lt hused,
        hfind]
      change (Ledger.refreshedStatus account snapshot.capacityBytes snapshot.usedBytes >>= _) = _
      rw [hstatus]
      rfl
    have hrow : row.snapshot = { measured with status := refreshedStatus measured } := by
      simp only [row, measured, StorageAccount.snapshot, Int.toNat_natCast]
    have hmemory : stores.memory.refreshAccountCapacity account.id snapshot now = (.ok row.snapshot,
          { stores.memory with accounts := stores.memory.accounts.upsert row.snapshot }) := by
      rw [InMemoryCapacityState.refreshAccountCapacity, hfind', hrow]
    simp only [Agrees, step, onLedger, onMemory, hledger, hmemory]
    refine ⟨h.updateAccounts rfl rfl rfl (h.balanced.refreshAccountCapacity hledger)
      (h.upsert_within ?_) (h.upsert_rows ?_), rfl⟩
    · refine ⟨Int.ofNat_lt.mpr hcapacity, hwithin.margin_lt, hreserved_lt, ?_⟩
      change (snapshot.usedBytes : ℤ) + account.reservedBytes < i64Limit
      unfold amountLimit at hused hreserved_lt
      unfold i64Limit
      omega
    · have hheld := congrArg StorageAccountSnapshot.reservedBytes hmirror
      change ({ row.snapshot with reservedBytes := _ } : StorageAccountSnapshot) = row.snapshot
      rw [show (stores.memory.heldBytes row.id).toNat = row.snapshot.reservedBytes from hheld]

/-! ### Expiry -/

theorem heldBytes_lt (h : stores.Mirrors) (haccount : account ∈ stores.ledger.accounts) :
    stores.memory.heldBytes account.id < amountLimit := by
  have hle := h.heldBytes_le account.id
  rw [← (h.balanced.sound account haccount).reserved_eq] at hle
  exact hle.trans_lt (h.within account haccount).reserved_lt

theorem expireLocked_accounts (h : stores.Mirrors) (now : ℤ) :
    (stores.memory.expireLocked now).2.accounts.rows =
      stores.ledger.accounts.rows.map (mirror (stores.memory.expireLocked now).2) := by
  have hrows : (stores.memory.expireLocked now).2.accounts.rows =
      stores.memory.accounts.rows.map fun account ↦
        if ((stores.memory.reservations.rows.filter (isDue now)).any
            fun entry ↦ entry.reservation.accountId == account.accountId) = true then
          { account with
            reservedBytes := ((stores.memory.setState (isDue now)
              .expired).heldBytes account.accountId).toNat % u64Size }
        else account := rfl
  rw [hrows, h.accounts, map_map]
  refine map_congr_left fun account haccount ↦ ?_
  have hended : ReservationState.expired ≠ .held := nofun
  have hheld := heldBytes_setState (stores.memory.selectsHolds_isDue now)
    hended account.id
  have hselected := selectedBytes_nonneg stores.memory.reservations
    (isDue now) account.id
  change (if _ then _ else mirror stores.memory account) = { account.snapshot with
      reservedBytes := ((stores.memory.setState (isDue now)
        .expired).heldBytes account.id).toNat }
  split_ifs with haffected
  · have hlt := h.heldBytes_lt haccount
    have hmod : ((stores.memory.setState (isDue now)
        .expired).heldBytes account.id).toNat % u64Size =
        ((stores.memory.setState (isDue now)
          .expired).heldBytes account.id).toNat := by
      refine Nat.mod_eq_of_lt ?_
      unfold amountLimit at hlt
      unfold u64Size
      omega
    rw [← hmod]
    rfl
  · have hnone : Holding.selectedBytes stores.memory.reservations
        (isDue now) account.id = 0 := by
      refine selectedBytes_of_none fun entry hentry hdue hid ↦ haffected ?_
      exact any_eq_true.mpr ⟨entry, mem_filter.mpr ⟨hentry, hdue⟩, beq_iff_eq.mpr hid⟩
    rw [hheld, hnone, sub_zero]
    rfl

def withoutReserved (account : StorageAccount) : StorageAccount :=
  { account with reservedBytes := 0 }

theorem map_mirror_eq {first other : List StorageAccount}
    (h : first.map withoutReserved = other.map withoutReserved) (memory : InMemoryCapacityState) :
    first.map (mirror memory) = other.map (mirror memory) := by
  have hmap := congrArg (List.map (mirror memory)) h
  rwa [map_map, map_map] at hmap

theorem expire (h : stores.Mirrors) (now : ℤ) (change : ReservationRow → ReservationState)
    (hrows : ledger.reservations.rows =
      stores.ledger.reservations.rows.map fun row ↦ { row with state := change row })
    (hstates : ∀ pair ∈ stores.pairs, statesMatch (change pair.1)
      (if isDue now pair.2 then .expired else pair.2.state) = true)
    (hbalanced : ledger.Balanced) (hwithin : ∀ account ∈ ledger.accounts, Within account)
    (haccounts : ledger.accounts.rows.map withoutReserved =
      stores.ledger.accounts.rows.map withoutReserved) :
    Mirrors ⟨ledger, (stores.memory.expireLocked now).2, stores.issued⟩ := by
  refine h.update change
    (fun entry ↦ if isDue now entry then .expired else entry.state) hrows ?_
    rfl hstates hbalanced hwithin ?_
  · refine map_congr_left fun entry _ ↦ ?_
    split_ifs <;> rfl
  · rw [map_mirror_eq haccounts]
    exact h.expireLocked_accounts now

theorem statesMatch_expired {issued : List ℕ} (h : Matches issued pair) (now : ℤ) :
    statesMatch pair.1.state
      (if isDue now pair.2 then .expired else pair.2.state) = true := by
  have hstate := h.state
  split_ifs with hdue
  · simp only [isDue, Bool.and_eq_true, beq_iff_eq] at hdue
    rw [hdue.1] at hstate
    cases hrow : pair.1.state <;> rw [hrow] at hstate <;> first | rfl | cases hstate
  · exact hstate

theorem mem_pairs_expired {change : ReservationRow → ReservationState}
    (hrows : ledger.reservations.rows =
      stores.ledger.reservations.rows.map fun row ↦ { row with state := change row })
    (hpair : pair ∈ pairs ⟨ledger, (stores.memory.expireLocked now).2, stores.issued⟩) :
    ∃ old ∈ stores.pairs, pair.1 = { old.1 with state := change old.1 } ∧
      pair.2.state = if isDue now old.2 then .expired else old.2.state := by
  have hentries : (stores.memory.expireLocked now).2.reservations.rows =
      stores.memory.reservations.rows.map fun entry ↦
        if isDue now entry then { entry with state := .expired }
        else entry := rfl
  rw [pairs, hrows, hentries, zip_map] at hpair
  obtain ⟨old, hold, rfl⟩ := mem_map.mp hpair
  refine ⟨old, hold, rfl, ?_⟩
  dsimp only [Prod.map]
  split_ifs <;> rfl

theorem expireMemory (h : stores.Mirrors) (now : ℤ) :
    Mirrors ⟨stores.ledger, (stores.memory.expireLocked now).2, stores.issued⟩ :=
  h.expire now ReservationRow.state (map_id' _).symm
    (fun pair hpair ↦ statesMatch_expired (h.matching pair hpair) now) h.balanced h.within rfl

theorem listAccounts (h : stores.Mirrors) (env : Environment) {providerId : Text}
    (hallowed : Allowed env stores (.listAccounts providerId now)) :
    Agrees env stores (.listAccounts providerId now) := by
  have hmirrors := h.expireMemory now
  refine ⟨hmirrors, ?_⟩
  have hsnapshot : ∀ account ∈ stores.ledger.accounts, account.providerId = providerId →
      mirror (stores.memory.expireLocked now).2 account = account.snapshot := by
    intro account haccount hprovider
    refine hmirrors.mirror_eq_snapshot haccount fun pair hpair hid hpending ↦ ?_
    obtain ⟨old, hold, hrow, hentry⟩ := mem_pairs_expired (map_id' _).symm hpair
    rw [hrow] at hid
    obtain ⟨hheld, hlater⟩ := hallowed account haccount hprovider old hold hid
      ((congrArg ReservationRow.state hrow).symm.trans hpending.1)
    have hdue : isDue now old.2 = false := by
      rw [isDue, ← (h.matching old hold).expires,
        decide_eq_false (not_le.mpr hlater), Bool.and_false]
    rw [hdue, if_neg Bool.false_ne_true, hheld] at hentry
    cases hentry.symm.trans hpending.2
  change stores.ledger.listAccounts providerId = (stores.memory.listAccounts providerId now).1
  simp only [Ledger.listAccounts, InMemoryCapacityState.listAccounts]
  rw [h.expireLocked_accounts now, filter_map, ← map_insertionSort (r :=
    fun first other : StorageAccount ↦ first.id ≤ other.id)]
  · refine map_congr_left fun account haccount ↦ ?_
    rw [mem_insertionSort, mem_filter, beq_iff_eq] at haccount
    exact (hsnapshot account haccount.1 haccount.2).symm
  · exact fun _ _ _ _ ↦ Iff.rfl

theorem within_unreserve (hbalanced : ledger.Balanced)
    (hwithin : ∀ account ∈ ledger.accounts, Within account) {condition : ReservationRow → Bool}
    {state : ReservationState} {bytes : ℤ} (hbytes : 0 ≤ bytes) :
    ∀ account ∈ ((ledger.setState condition state).unreserve accountId bytes).accounts,
      Within account := by
  intro account haccount
  simp only [Ledger.unreserve, Ledger.updateAccount, Ledger.setState, mem_updateWhere]
    at haccount
  obtain ⟨old, hold, rfl⟩ := haccount
  have hold_within := hwithin old hold
  split_ifs
  · have hreserved : 0 ≤ old.reservedBytes := by
      rw [(hbalanced.sound old hold).reserved_eq]
      exact bytesIn_nonneg _ _ _
    have hreserved_lt := hold_within.reserved_lt
    have htotal_lt := hold_within.total_lt
    refine ⟨hold_within.capacity_lt, hold_within.margin_lt, ?_, ?_⟩
    · dsimp only
      omega
    · dsimp only
      omega
  · exact hold_within

theorem withoutReserved_unreserve (ledger : Ledger) (accountId : Text) (bytes : ℤ) :
    (ledger.unreserve accountId bytes).accounts.rows.map withoutReserved =
      ledger.accounts.rows.map withoutReserved := by
  simp only [Ledger.unreserve, Ledger.updateAccount, Table.updateWhere, map_map]
  refine map_congr_left fun account _ ↦ ?_
  dsimp only [Function.comp]
  split_ifs <;> rfl

theorem foldl_expireHold_accounts (rows : List ReservationRow) (ledger : Ledger) :
    (rows.foldl Ledger.expireHold ledger).accounts.rows.map withoutReserved =
      ledger.accounts.rows.map withoutReserved := by
  induction rows generalizing ledger with
  | nil => rfl
  | cons row rest ih => exact (ih _).trans (withoutReserved_unreserve _ _ _)

theorem foldl_expireHold_rows (rows : List ReservationRow) (ledger : Ledger) :
    (rows.foldl Ledger.expireHold ledger).reservations.rows = ledger.reservations.rows.map fun row ↦
        { row with state := if row.id ∈ rows.map ReservationRow.id then .expired else row.state } := by
  induction rows generalizing ledger with
  | nil => exact (map_id' _).symm
  | cons first rest ih =>
    rw [foldl_cons, ih]
    simp only [Ledger.expireHold, Ledger.unreserve, Ledger.updateAccount, Ledger.setState,
      Table.updateWhere, map_map, map_cons, mem_cons]
    refine map_congr_left fun row _ ↦ ?_
    by_cases hid : row.id = first.id
    · simp [hid]
    · simp [hid]

theorem recoverExpired_rows (ledger : Ledger) (now : ℤ) :
    (ledger.recoverExpired now).2.reservations.rows = ledger.reservations.rows.map fun row ↦
      { row with state := if row.state = .held ∧ row.expiresAt ≤ now then .expired
        else row.state } := by
  refine (foldl_expireHold_rows _ _).trans (map_congr_left fun row hrow ↦ ?_)
  have hiff : row.id ∈ (ledger.expiredHolds now).map ReservationRow.id ↔
      row.state = .held ∧ row.expiresAt ≤ now := by
    constructor
    · intro hmem
      obtain ⟨other, hother, hid⟩ := mem_map.mp hmem
      obtain ⟨hother_mem, hdue⟩ := mem_filter.mp hother
      obtain rfl : other = row := eq_of_key_eq hother_mem hrow hid
      simpa using hdue
    · intro hdue
      exact mem_map_of_mem (mem_filter.mpr ⟨hrow, by simpa using hdue⟩)
  simp only [hiff]

theorem recoverExpired (h : stores.Mirrors) (env : Environment)
    (hallowed : Allowed env stores (.recoverExpired now)) :
    Agrees env stores (.recoverExpired now) := by
  have hsame : ∀ pair ∈ stores.pairs, (pair.1.state = .held ∧ pair.1.expiresAt ≤ now) ↔
      isDue now pair.2 = true := by
    intro pair hpair
    rw [isDue, Bool.and_eq_true, beq_iff_eq, decide_eq_true_eq, (h.matching pair hpair).expires]
    refine and_congr_left fun _ ↦ ⟨fun hheld ↦ ?_, h.held_of_held hpair⟩
    exact h.held_of_not_pending hpair hheld (hallowed pair hpair)
  have hkept := Ledger.foldl_expireHold_invariant
    (fun ledger ↦ ledger.Balanced ∧ ∀ account ∈ ledger.accounts, Within account)
    (fun hboth hrow hheld ↦ ⟨hboth.1.expireHold hrow hheld,
      within_unreserve hboth.1 hboth.2 (Int.natCast_nonneg _)⟩) ⟨h.balanced, h.within⟩
    (fun row hrow ↦ Ledger.mem_expiredHolds hrow) (stores.ledger.expiredHolds_nodup now)
  refine ⟨h.expire now _ (recoverExpired_rows stores.ledger now) (fun pair hpair ↦ ?_) hkept.1
    hkept.2 (foldl_expireHold_accounts _ _), ?_⟩
  · by_cases hdue : pair.1.state = .held ∧ pair.1.expiresAt ≤ now
    · rw [if_pos hdue, if_pos ((hsame pair hpair).mp hdue)]
      rfl
    · rw [if_neg hdue, if_neg fun hentry ↦ hdue ((hsame pair hpair).mpr hentry)]
      exact (h.matching pair hpair).state
  · change (stores.ledger.expiredHolds now).length =
      (stores.memory.reservations.rows.filter (isDue now)).length
    rw [Ledger.expiredHolds, ← h.map_fst, ← h.map_snd, filter_map, filter_map,
      length_map, length_map]
    refine congrArg List.length (filter_congr fun pair hpair ↦ ?_)
    rw [Bool.eq_iff_iff]
    refine Iff.trans ?_ (hsame pair hpair)
    simp

/-! ### The end of a hold -/

variable {env : Environment} {reservationId : Text}

theorem id_iff (h : stores.Mirrors) {first other : ReservationRow × InMemoryReservation}
    (hfirst : first ∈ stores.pairs) (hother : other ∈ stores.pairs) :
    first.1.id = other.1.id ↔ first.2.id = other.2.id := by
  obtain ⟨index, hindex, hnumber⟩ := (h.matching first hfirst).id
  obtain ⟨index', hindex', hnumber'⟩ := (h.matching other hother).id
  constructor
  · intro hid
    rw [hid, ← hindex'] at hindex
    have hlt : index' < stores.issued.length := (List.getElem?_eq_some_iff.mp hindex').1
    have hsame := ((List.getElem?_inj hlt h.issued_nodup).mp hindex.symm).symm
    rw [hnumber, hnumber', hsame]
  · intro hid
    have hsame := memoryId_injective (hnumber.symm.trans (hid.trans hnumber'))
    rw [Nat.succ_inj.mp hsame, hindex'] at hindex
    exact (Option.some.inj hindex).symm

theorem exists_pair (h : stores.Mirrors) (env : Environment) {index : ℕ}
    (hindex : index < stores.issued.length) :
    ∃ pair ∈ stores.pairs, env.parseUuid (stores.ledgerId env (.issued index)) = some pair.1.id ∧
      pair.2.id = memoryId (.issued index) := by
  obtain ⟨row, hrow, hid⟩ := h.issued_known _ (getElem_mem hindex)
  obtain ⟨entry, hpair⟩ := h.exists_entry hrow
  refine ⟨(row, entry), hpair, ?_, ?_⟩
  · rw [ledgerId, List.getElem?_eq_getElem hindex, Option.elim_some, env.parse_text, hid]
  · obtain ⟨index', hindex', hnumber⟩ := (h.matching _ hpair).id
    rw [hid, ← List.getElem?_eq_getElem hindex] at hindex'
    rw [hnumber, ← (List.getElem?_inj hindex h.issued_nodup).mp hindex'.symm]
    rfl

theorem unknown_reservation (hshared : IsShared env stores (.other reservationId))
    (finish : ℕ → ReservationRow → Except StorageError Ledger) :
    ∃ failure, (orThrow (env.parseUuid reservationId)
        (StorageError.configuration "invalid UUID") >>= fun uuid ↦
          orThrow (stores.ledger.reservations.find uuid) (unknownReservation (env.uuidText uuid)) >>=
            finish uuid) = .error failure ∧ failure.kind = .configuration := by
  cases hparse : env.parseUuid reservationId with
  | none => exact ⟨_, rfl, rfl⟩
  | some uuid =>
    refine ⟨unknownReservation (env.uuidText uuid), ?_, rfl⟩
    change (orThrow (stores.ledger.reservations.find uuid) _ >>= finish uuid) = _
    rw [hshared.1 uuid hparse]
    rfl

theorem endHold_accounts (h : stores.Mirrors) {entry : InMemoryReservation}
    (hentry : entry ∈ stores.memory.reservations) (hheld : entry.state = .held)
    {state : ReservationState} (hstate : state ≠ .held)
    {alter : StorageAccountSnapshot → StorageAccountSnapshot}
    (halter : ∀ account, (alter account).accountId = account.accountId)
    (change : StorageAccount → StorageAccount)
    (hledger : ledger.accounts.rows = stores.ledger.accounts.rows.map fun account ↦
      if account.id == entry.reservation.accountId then change account else account)
    (hchange : ∀ account ∈ stores.ledger.accounts, account.id = entry.reservation.accountId →
      alter (mirror stores.memory account) = { (change account).snapshot with
          reservedBytes := (stores.memory.heldBytes account.id - entry.reservation.bytes).toNat } ∧
      (change account).id = account.id) :
    ((stores.memory.setState (fun other ↦ other.id == entry.id) state).updateAccount
        entry.reservation.accountId alter halter).accounts.rows =
      ledger.accounts.rows.map (mirror ((stores.memory.setState (fun other ↦ other.id == entry.id)
        state).updateAccount entry.reservation.accountId alter halter)) := by
  have hrows : ((stores.memory.setState (fun other ↦ other.id == entry.id) state).updateAccount
      entry.reservation.accountId alter halter).accounts.rows =
      stores.memory.accounts.rows.map fun account ↦
        if account.accountId == entry.reservation.accountId then alter account else account := rfl
  rw [hrows, h.accounts, hledger, map_map, map_map]
  refine map_congr_left fun account haccount ↦ ?_
  have hbytes := heldBytes_setState_id hentry hheld hstate account.id
  change (if account.id == entry.reservation.accountId then alter (mirror stores.memory account)
    else mirror stores.memory account) = mirror _ (if account.id == entry.reservation.accountId then
      change account else account)
  by_cases hmatch : account.id = entry.reservation.accountId
  · obtain ⟨hafter, hid⟩ := hchange account haccount hmatch
    rw [if_pos hmatch.symm] at hbytes
    rw [if_pos (beq_iff_eq.mpr hmatch), if_pos (beq_iff_eq.mpr hmatch), hafter, mirror, hid,
      ← hbytes]
    rfl
  · rw [if_neg (Ne.symm hmatch), sub_zero] at hbytes
    rw [if_neg fun hbeq ↦ hmatch (beq_iff_eq.mp hbeq),
      if_neg fun hbeq ↦ hmatch (beq_iff_eq.mp hbeq), mirror, mirror, ← hbytes]
    rfl

theorem endPair (h : stores.Mirrors) (hpair : pair ∈ stores.pairs) (state state' : ReservationState)
    (hmatch : statesMatch state state' = true)
    (hrows : ledger.reservations.rows = stores.ledger.reservations.rows.map fun row ↦
      if row.id == pair.1.id then { row with state := state } else row)
    (hentries : memory.reservations.rows = stores.memory.reservations.rows.map fun entry ↦
      if entry.id == pair.2.id then { entry with state := state' } else entry)
    (hnext : memory.nextReservation = stores.memory.nextReservation) (hbalanced : ledger.Balanced)
    (hwithin : ∀ account ∈ ledger.accounts, Within account)
    (haccounts : memory.accounts.rows = ledger.accounts.rows.map (mirror memory)) :
    Mirrors ⟨ledger, memory, stores.issued⟩ := by
  refine h.update (fun row ↦ if row.id == pair.1.id then state else row.state)
    (fun entry ↦ if entry.id == pair.2.id then state' else entry.state) (hrows.trans ?_)
    (hentries.trans ?_) hnext (fun other hother ↦ ?_) hbalanced hwithin haccounts
  · refine map_congr_left fun row _ ↦ ?_
    split_ifs <;> rfl
  · refine map_congr_left fun entry _ ↦ ?_
    split_ifs <;> rfl
  · have hid := h.id_iff hother hpair
    by_cases hsame : other.1.id = pair.1.id
    · rw [if_pos (beq_iff_eq.mpr hsame), if_pos (beq_iff_eq.mpr (hid.mp hsame))]
      exact hmatch
    · rw [if_neg fun hbeq ↦ hsame (beq_iff_eq.mp hbeq),
        if_neg fun hbeq ↦ hsame (hid.mpr (beq_iff_eq.mp hbeq))]
      exact (h.matching other hother).state

theorem bytes_le_heldBytes (hpair : pair ∈ stores.pairs) (hheld : pair.2.state = .held) :
    (pair.2.reservation.bytes : ℤ) ≤ stores.memory.heldBytes pair.2.reservation.accountId := by
  rw [heldBytes, ← hheld]
  exact Holding.bytes_le_bytesIn (entry_mem hpair)

theorem commit_of_mem (h : stores.Mirrors) (hrow : row ∈ stores.ledger.reservations)
    (hparse : env.parseUuid reservationId = some row.id) :
    stores.ledger.commit env reservationId =
      .ok (if row.state = .held then stores.ledger.commitHold row else stores.ledger) := by
  obtain ⟨account, haccount, hid⟩ := h.balanced.account_exists row hrow
  have hfind : stores.ledger.accounts.find row.accountId = some account :=
    find_eq_some.mpr ⟨haccount, hid⟩
  have hrow_find : stores.ledger.reservations.find row.id = some row :=
    find_eq_some.mpr ⟨hrow, rfl⟩
  rw [Ledger.commit, hparse]
  change (orThrow (stores.ledger.reservations.find row.id) _ >>= _) = _
  rw [hrow_find]
  change (if row.state = .held then _ else _) = _
  split_ifs with hheld
  · have hbytes := h.balanced.bytes_le haccount hrow hid.symm hheld
    have hused := (h.balanced.sound account haccount).used_nonneg
    have htotal := (h.within account haccount).total_lt
    have hbigint : bigint (account.usedBytes + row.bytes) =
        .ok (account.usedBytes + row.bytes) := by
      refine Ledger.bigint_eq_ok.mpr ⟨?_, rfl⟩
      omega
    rw [hfind, Option.elim_some, hbigint]
    rfl
  · rfl

theorem commitHold_within (h : stores.Mirrors) (hrow : row ∈ stores.ledger.reservations)
    (hheld : row.state = .held) :
    ∀ account ∈ (stores.ledger.commitHold row).accounts, Within account := by
  intro account haccount
  simp only [Ledger.commitHold, Ledger.updateAccount, Ledger.setState, mem_updateWhere]
    at haccount
  obtain ⟨old, hold, rfl⟩ := haccount
  have hwithin := h.within old hold
  split_ifs with hmatch
  · have hbytes := h.balanced.bytes_le hold hrow (beq_iff_eq.mp hmatch).symm hheld
    have hreserved_lt := hwithin.reserved_lt
    have htotal_lt := hwithin.total_lt
    refine ⟨hwithin.capacity_lt, hwithin.margin_lt, ?_, ?_⟩
    · dsimp only
      omega
    · dsimp only
      omega
  · exact hwithin

theorem commit (h : stores.Mirrors) (env : Environment) {reservation : ReservationRef}
    (hallowed : Allowed env stores (.commit reservation)) :
    Agrees env stores (.commit reservation) := by
  obtain ⟨hshared, hpending⟩ := hallowed
  cases reservation with
  | other reservationId =>
    have hunknown : ∃ failure, stores.ledger.commit env reservationId = .error failure ∧
        failure.kind = .configuration := unknown_reservation hshared _
    obtain ⟨failure, hledger, hkind⟩ := hunknown
    have hmemory : stores.memory.commit reservationId =
        (.error (unknownReservation reservationId), stores.memory) := by
      rw [InMemoryCapacityState.commit, InMemoryCapacityState.endHold, hshared.2]
    simp only [Agrees, step, onLedger, onMemory, ledgerId, memoryId, hledger, hmemory]
    exact ⟨h, hkind⟩
  | issued index =>
    obtain ⟨pair, hpair, hparse, hid⟩ := h.exists_pair env hshared
    have hentry := entry_mem hpair
    have hfind : stores.memory.reservations.find (memoryId (.issued index)) = some pair.2 :=
      find_eq_some.mpr ⟨hentry, hid⟩
    have hledger := h.commit_of_mem (row_mem hpair) hparse
    have hmemory : stores.memory.commit (memoryId (.issued index)) =
        (.ok (), if pair.2.state = .held then stores.memory.commitHold pair.2
          else stores.memory) := by
      rw [InMemoryCapacityState.commit, InMemoryCapacityState.endHold, hfind]
    have hstates : pair.1.state = .held ↔ pair.2.state = .held :=
      ⟨fun hheld ↦ h.held_of_not_pending hpair hheld (hpending pair hpair hid),
        h.held_of_held hpair⟩
    simp only [Agrees, step, onLedger, onMemory, hledger, hmemory, issuedAfter]
    refine ⟨?_, trivial⟩
    by_cases hheld : pair.1.state = .held
    · have hended : ReservationState.committed ≠ .held := nofun
      have hentry_held := hstates.mp hheld
      have hmatching := h.matching pair hpair
      simp only [hheld, hentry_held, if_true]
      refine h.endPair hpair .committed .committed rfl rfl rfl rfl
        (h.balanced.commitHold (row_mem hpair) hheld) (h.commitHold_within (row_mem hpair) hheld)
        (h.endHold_accounts hentry hentry_held hended _
          (fun account ↦ { account with
            reservedBytes := max 0 (account.reservedBytes - pair.1.bytes)
            usedBytes := account.usedBytes + pair.1.bytes }) ?_ fun account haccount hmatch ↦ ?_)
      · rw [← hmatching.account]
        rfl
      · have hle := bytes_le_heldBytes hpair hentry_held
        have hused := (h.balanced.sound account haccount).used_nonneg
        have htotal := (h.within account haccount).total_lt
        have hreserved := h.balanced.bytes_le haccount (row_mem hpair)
          (hmatching.account.trans hmatch.symm) hheld
        refine ⟨?_, rfl⟩
        simp only [mirror, StorageAccount.snapshot, StorageAccountSnapshot.mk.injEq, true_and,
          and_true, saturatingAdd, u64Size, hmatching.bytes]
        unfold i64Limit at htotal
        rw [hmatching.bytes] at hreserved
        omega
    · have hentry_not : ¬ pair.2.state = .held := fun hentry_held ↦ hheld (hstates.mpr hentry_held)
      simp only [hheld, hentry_not, if_false]
      exact h

theorem release_of_mem (hrow : row ∈ stores.ledger.reservations)
    (hparse : env.parseUuid reservationId = some row.id) :
    stores.ledger.release env reservationId =
      .ok (if row.state = .held then stores.ledger.releaseHold row else stores.ledger) := by
  have hrow_find : stores.ledger.reservations.find row.id = some row :=
    find_eq_some.mpr ⟨hrow, rfl⟩
  rw [Ledger.release, hparse]
  change (orThrow (stores.ledger.reservations.find row.id) _ >>= _) = _
  rw [hrow_find]
  change (if row.state = .held then _ else _) = _
  split_ifs <;> rfl

theorem release (h : stores.Mirrors) (env : Environment) {reservation : ReservationRef}
    (hallowed : Allowed env stores (.release reservation)) :
    Agrees env stores (.release reservation) := by
  cases reservation with
  | other reservationId =>
    have hunknown : ∃ failure, stores.ledger.release env reservationId = .error failure ∧
        failure.kind = .configuration := unknown_reservation hallowed _
    obtain ⟨failure, hledger, hkind⟩ := hunknown
    have hmemory : stores.memory.release reservationId =
        (.error (unknownReservation reservationId), stores.memory) := by
      rw [InMemoryCapacityState.release, InMemoryCapacityState.endHold, hallowed.2]
    simp only [Agrees, step, onLedger, onMemory, ledgerId, memoryId, hledger, hmemory]
    exact ⟨h, hkind⟩
  | issued index =>
    obtain ⟨pair, hpair, hparse, hid⟩ := h.exists_pair env hallowed
    have hentry := entry_mem hpair
    have hfind : stores.memory.reservations.find (memoryId (.issued index)) = some pair.2 :=
      find_eq_some.mpr ⟨hentry, hid⟩
    have hledger := release_of_mem (row_mem hpair) hparse
    have hmemory : stores.memory.release (memoryId (.issued index)) =
        (.ok (), if pair.2.state = .held then stores.memory.releaseHold pair.2
          else stores.memory) := by
      rw [InMemoryCapacityState.release, InMemoryCapacityState.endHold, hfind]
    have hended : ReservationState.released ≠ .held := nofun
    simp only [Agrees, step, onLedger, onMemory, hledger, hmemory, issuedAfter]
    refine ⟨?_, trivial⟩
    by_cases hheld : pair.1.state = .held
    · have hmatching := h.matching pair hpair
      have hbalanced := h.balanced.releaseHold (row_mem hpair) hheld
      have hwithin : ∀ account ∈ (stores.ledger.releaseHold pair.1).accounts, Within account :=
        within_unreserve h.balanced h.within (Int.natCast_nonneg _)
      simp only [hheld, if_true]
      by_cases hentry_held : pair.2.state = .held
      · simp only [hentry_held, if_true]
        refine h.endPair hpair .released .released rfl rfl rfl rfl hbalanced hwithin
          (h.endHold_accounts hentry hentry_held hended _
            (fun account ↦ { account with
              reservedBytes := max 0 (account.reservedBytes - pair.1.bytes) }) ?_
            fun account haccount hmatch ↦ ?_)
        · rw [← hmatching.account]
          rfl
        · have hle := bytes_le_heldBytes hpair hentry_held
          refine ⟨?_, rfl⟩
          simp only [mirror, StorageAccount.snapshot, StorageAccountSnapshot.mk.injEq, true_and,
            and_true]
          omega
      · -- The hold is pending: it has expired in memory, which stays as it is.
        have hexpired : pair.2.state = .expired := by
          by_contra hnot
          exact hentry_held (h.held_of_not_pending hpair hheld fun hpending ↦ hnot hpending.2)
        simp only [hentry_held, if_false]
        refine h.endPair hpair .released .expired rfl rfl ?_ rfl hbalanced hwithin ?_
        · refine ((map_congr_left fun entry hmem ↦ ?_).trans (map_id' _)).symm
          split_ifs with hsame
          · rw [eq_of_key_eq hmem hentry (beq_iff_eq.mp hsame), ← hexpired]
          · rfl
        · rw [h.accounts]
          exact (map_mirror_eq (withoutReserved_unreserve _ _ _) _).symm
    · have hentry_not : ¬ pair.2.state = .held := fun hentry_held ↦
        hheld (h.held_of_held hpair hentry_held)
      simp only [hheld, hentry_not, if_false]
      exact h

/-! ### Reservations -/

variable {ttl bytes uuid : ℕ} {clock : ℤ} {encodedHash : Text}

theorem expireHolds_rows (h : stores.Mirrors) (accountId : Text) (now : ℤ) :
    (stores.ledger.expireHolds accountId now).reservations.rows =
      stores.ledger.reservations.rows.map fun row ↦
        { row with state := if Ledger.isExpiredHold accountId now row then .expired
          else row.state } := by
  unfold Ledger.expireHolds
  split_ifs with hpositive
  · refine map_congr_left fun row _ ↦ ?_
    split_ifs <;> rfl
  · refine ((map_congr_left fun row hrow ↦ ?_).trans (map_id' _)).symm
    -- Every hold has bytes, so without expired bytes no hold has expired.
    obtain ⟨entry, hpair⟩ := h.exists_entry hrow
    have hbytes := (h.matching _ hpair).positive
    have hexpired : ¬ Ledger.isExpiredHold accountId now row = true := by
      intro hexpired
      have hpart : (row.bytes : ℤ) = if Ledger.isExpiredHold accountId now row then
          (row.bytes : ℤ) else 0 := (if_pos hexpired).symm
      have hle : (row.bytes : ℤ) ≤ stores.ledger.expiredBytes accountId now := by
        rw [hpart]
        exact le_total hrow fun _ _ ↦ part_nonneg _ _
      dsimp only at hbytes
      omega
    rw [if_neg hexpired]

theorem expireHolds_accounts (accountId : Text) (now : ℤ) :
    (stores.ledger.expireHolds accountId now).accounts.rows.map withoutReserved =
      stores.ledger.accounts.rows.map withoutReserved := by
  unfold Ledger.expireHolds
  split_ifs
  · exact withoutReserved_unreserve _ _ _
  · rfl

theorem expireBoth (h : stores.Mirrors) (accountId : Text) (now : ℤ) :
    Mirrors ⟨stores.ledger.expireHolds accountId now, (stores.memory.expireLocked now).2,
      stores.issued⟩ := by
  refine h.expire now _ (h.expireHolds_rows accountId now) (fun pair hpair ↦ ?_)
    (h.balanced.expireHolds accountId now) ?_ (expireHolds_accounts accountId now)
  · have hmatching := h.matching pair hpair
    split_ifs with hexpired hdue hdue
    · rfl
    · -- The hold ends in Postgres but not now in memory, so it was pending.
      simp only [Ledger.isExpiredHold, Bool.and_eq_true, beq_iff_eq, decide_eq_true_eq] at hexpired
      obtain ⟨⟨-, hheld⟩, htime⟩ := hexpired
      have hentry : pair.2.state = .expired := by
        by_contra hnot
        have hentry_held := h.held_of_not_pending hpair hheld fun hboth ↦ hnot hboth.2
        refine hdue ?_
        rw [isDue, hentry_held, ← hmatching.expires]
        simpa using htime
      rw [hentry]
      rfl
    · simpa only [if_pos hdue] using statesMatch_expired hmatching now
    · exact hmatching.state
  · unfold Ledger.expireHolds
    split_ifs with hpositive
    · exact within_unreserve h.balanced h.within hpositive.le
    · exact h.within

theorem not_pending_of_expireBoth (h : stores.Mirrors)
    (hpending : ∀ pair ∈ stores.pairs, pair.1.accountId = accountId → IsPending pair →
      pair.1.expiresAt ≤ now) :
    ∀ pair ∈ pairs ⟨stores.ledger.expireHolds accountId now, (stores.memory.expireLocked now).2,
      stores.issued⟩, pair.1.accountId = accountId → ¬ IsPending pair := by
  rintro pair hpair haccount ⟨hheld, hentry⟩
  obtain ⟨old, hold, hrow, hentry_eq⟩ := mem_pairs_expired (h.expireHolds_rows accountId now) hpair
  rw [hrow] at haccount hheld
  dsimp only at haccount hheld
  split_ifs at hheld with hexpired
  · have hlater : ¬ old.1.expiresAt ≤ now := by
      intro htime
      refine hexpired ?_
      simp [Ledger.isExpiredHold, haccount, hheld, htime]
    have hnot : ¬ IsPending old := fun hboth ↦ hlater (hpending old hold haccount hboth)
    have hentry_held := h.held_of_not_pending hold hheld hnot
    have hdue : ¬ isDue now old.2 = true := by
      rw [isDue, ← (h.matching old hold).expires, decide_eq_false hlater, Bool.and_false]
      exact Bool.false_ne_true
    rw [if_neg hdue, hentry_held] at hentry_eq
    cases hentry_eq.symm.trans hentry

theorem active_iff (h : stores.Mirrors)
    (hpending : ∀ pair ∈ stores.pairs, pair.1.accountId = accountId → ¬ IsPending pair)
    (hpair : pair ∈ stores.pairs) (haccount : pair.1.accountId = accountId) :
    pair.1.state.isActive = pair.2.state.isActive := by
  have hstates : ∀ first other, statesMatch first other = true →
      ¬ (first = ReservationState.held ∧ other = ReservationState.expired) →
      first.isActive = other.isActive := by
    intro first other
    cases first <;> cases other <;> simp [statesMatch, ReservationState.isActive]
  exact hstates _ _ (h.matching pair hpair).state (hpending pair hpair haccount)

theorem activeReservation (h : stores.Mirrors) (encodedHash : Text)
    (hpending : ∀ pair ∈ stores.pairs, pair.1.accountId = accountId → ¬ IsPending pair) :
    (stores.ledger.activeReservation accountId encodedHash = none ∧
        stores.memory.activeReservation accountId encodedHash = none) ∨
      ∃ pair ∈ stores.pairs, stores.ledger.activeReservation accountId encodedHash = some pair.1 ∧
        stores.memory.activeReservation accountId encodedHash = some pair.2 := by
  have hfound {entry : InMemoryReservation}
      (hentry : stores.memory.activeReservation accountId encodedHash = some entry) :
      ∃ row, (row, entry) ∈ stores.pairs ∧ row.accountId = accountId ∧
        row.encodedHash = encodedHash ∧ row.state.isActive = true := by
    have hcondition := List.find?_some hentry
    rw [Bool.and_eq_true, Bool.and_eq_true, beq_iff_eq, beq_iff_eq] at hcondition
    obtain ⟨row, hpair⟩ := h.exists_row (mem_of_find?_eq_some hentry)
    have hmatching := h.matching _ hpair
    have haccount : row.accountId = accountId := hmatching.account.trans hcondition.1.1
    refine ⟨row, hpair, haccount, hmatching.hash.trans hcondition.1.2, ?_⟩
    exact (h.active_iff hpending hpair haccount).trans hcondition.2
  cases hledger : stores.ledger.activeReservation accountId encodedHash with
  | none =>
    refine .inl ⟨rfl, Option.eq_none_iff_forall_ne_some.mpr fun entry hentry ↦ ?_⟩
    obtain ⟨row, hpair, haccount, hhash, hactive⟩ := hfound hentry
    have hinactive := Ledger.activeReservation_eq_none.mp hledger row (row_mem hpair) haccount hhash
    cases hactive.symm.trans hinactive
  | some row =>
    obtain ⟨hrow, haccount, hhash, hactive⟩ := Ledger.activeReservation_eq_some hledger
    obtain ⟨entry, hpair⟩ := h.exists_entry hrow
    have hmatching := h.matching _ hpair
    refine .inr ⟨(row, entry), hpair, rfl, ?_⟩
    cases hmemory : stores.memory.activeReservation accountId encodedHash with
    | none =>
      refine absurd ?_ (List.find?_eq_none.mp hmemory entry (entry_mem hpair))
      have hentry_active := (h.active_iff hpending hpair haccount).symm.trans hactive
      simp only [Bool.and_eq_true, beq_iff_eq]
      exact ⟨⟨hmatching.account.symm.trans haccount, hmatching.hash.symm.trans hhash⟩,
        hentry_active⟩
    | some other =>
      obtain ⟨row', hpair', haccount', hhash', hactive'⟩ := hfound hmemory
      have hsame := h.balanced.active_unique row' (row_mem hpair') row hrow hactive' hactive
        (haccount'.trans haccount.symm) (hhash'.trans hhash.symm)
      have hid := (h.id_iff hpair' hpair).mp (congrArg ReservationRow.id hsame)
      exact congrArg some (eq_of_key_eq (entry_mem hpair') (entry_mem hpair) hid)

/-- Both stores refuse a reservation, with errors of the same kind, or both accept it. -/
theorem checkAvailable_agree (account : StorageAccount) (bytes : ℕ) {free : ℤ}
    (hstatus : snapshot.status = account.status) (hfree : (snapshot.usableFreeBytes : ℤ) = free) :
    (∃ first other, Ledger.checkAvailable account bytes free = .error first ∧
        checkAvailable snapshot bytes = .error other ∧
        first.kind = other.kind) ∨
      Ledger.checkAvailable account bytes free = .ok () ∧
        checkAvailable snapshot bytes = .ok () := by
  unfold Ledger.checkAvailable checkAvailable
  subst hfree
  rw [hstatus]
  by_cases hshort : (snapshot.usableFreeBytes : ℤ) < bytes
  · have hshort' : snapshot.usableFreeBytes < bytes := Int.ofNat_lt.mp hshort
    rw [throwIf, throwIf, if_pos hshort, if_pos hshort', if_pos hshort, if_pos hshort']
    split_ifs
    · exact .inl ⟨_, _, rfl, rfl, rfl⟩
    · exact .inl ⟨_, _, rfl, rfl, rfl⟩
  · have hshort' : ¬ snapshot.usableFreeBytes < bytes := fun hlt ↦ hshort (Int.ofNat_lt.mpr hlt)
    rw [throwIf, throwIf, if_neg hshort, if_neg hshort', if_neg hshort, if_neg hshort']
    split_ifs
    · exact .inr ⟨rfl, rfl⟩
    · exact .inl ⟨_, _, rfl, rfl, rfl⟩

theorem insertPair (h : stores.Mirrors) (haccount : account ∈ stores.ledger.accounts)
    (hmirror : mirror stores.memory account = account.snapshot) (hid : row.accountId = account.id)
    (hheld : row.state = .held) (hbytes : 0 < row.bytes)
    (hfits : account.usedBytes + (account.reservedBytes + row.bytes) + account.safetyMarginBytes ≤
      account.capacityBytes) (hfresh : stores.ledger.reservations.find row.id = none)
    (hunclaimed : stores.ledger.activeReservation row.accountId row.encodedHash = none)
    {reservation : StorageReservation} (hreservation : reservation.reservationId =
      InMemoryCapacityState.memoryId (stores.issued.length + 1))
    (hsame : reservation.accountId = row.accountId ∧ reservation.encodedHash = row.encodedHash ∧
      reservation.bytes = row.bytes ∧ reservation.expiresAt = row.expiresAt) :
    Mirrors ⟨stores.ledger.insertHold row,
      { stores.memory with nextReservation := stores.memory.nextReservation + 1 }.insertHold
        reservation, stores.issued ++ [row.id]⟩ := by
  obtain ⟨hsame_account, hsame_hash, hsame_bytes, hsame_expires⟩ := hsame
  have hsound := h.balanced.sound account haccount
  have hwithin := h.within account haccount
  have hcapacity_lt := hwithin.capacity_lt
  have hused := hsound.used_nonneg
  have hmargin := hsound.margin_nonneg
  have hreserved : 0 ≤ account.reservedBytes := by
    rw [hsound.reserved_eq]
    exact bytesIn_nonneg _ _ _
  have hfind : stores.ledger.accounts.find row.accountId = some account :=
    find_eq_some.mpr ⟨haccount, hid.symm⟩
  have hfresh_memory : ∀ other ∈ stores.memory.reservations,
      other.id ≠ (⟨reservation, .held⟩ : InMemoryReservation).id := by
    intro other hother heq
    obtain ⟨old, hpair⟩ := h.exists_row hother
    obtain ⟨index, hindex, hnumber⟩ := (h.matching _ hpair).id
    have hlt : index < stores.issued.length := (List.getElem?_eq_some_iff.mp hindex).1
    have hnumbers := memoryId_injective
      (hnumber.symm.trans (heq.trans hreservation))
    omega
  have hrows : (stores.ledger.insertHold row).reservations.rows =
      row :: stores.ledger.reservations.rows :=
    congrArg (row :: ·) (filter_eq_self.mpr fun other hother ↦
      decide_eq_true (find_eq_none.mp hfresh other hother))
  have hentries : ({ stores.memory with
      nextReservation := stores.memory.nextReservation + 1 }.insertHold
        reservation).reservations.rows =
      ⟨reservation, .held⟩ :: stores.memory.reservations.rows :=
    congrArg (fun rest ↦ (⟨reservation, .held⟩ : InMemoryReservation) :: rest)
      (filter_eq_self.mpr fun other hother ↦ decide_eq_true (hfresh_memory other hother))
  have hlast : (stores.issued ++ [row.id])[stores.issued.length]? = some row.id := by simp
  refine ⟨h.balanced.insertHold hheld ⟨account, haccount, hid.symm⟩ hunclaimed hfresh ?_,
    fun after hafter ↦ ?_, ?_, ?_, fun pair hpair ↦ ?_, ?_, ?_, fun uuid huuid ↦ ?_⟩
  · rw [hfind, Option.elim_some]
    unfold amountLimit at hcapacity_lt
    unfold i64Limit
    omega
  · simp only [Ledger.insertHold, Ledger.updateAccount, mem_updateWhere] at hafter
    obtain ⟨old, hold, rfl⟩ := hafter
    split_ifs with hmatch
    · obtain rfl : old = account :=
        eq_of_key_eq hold haccount ((beq_iff_eq.mp hmatch).trans hid)
      refine ⟨hcapacity_lt, hwithin.margin_lt, ?_, ?_⟩
      · dsimp only
        omega
      · unfold amountLimit at hcapacity_lt
        unfold i64Limit
        dsimp only
        omega
    · exact h.within old hold
  · have hmemory : ({ stores.memory with
        nextReservation := stores.memory.nextReservation + 1 }.insertHold
          reservation).accounts.rows =
        stores.memory.accounts.rows.map fun snapshot ↦
          if snapshot.accountId == reservation.accountId then
            { snapshot with
              reservedBytes := saturatingAdd snapshot.reservedBytes reservation.bytes }
          else snapshot := rfl
    have hledger : (stores.ledger.insertHold row).accounts.rows =
        stores.ledger.accounts.rows.map fun old ↦
          if old.id == row.accountId then
            { old with reservedBytes := old.reservedBytes + row.bytes } else old := rfl
    rw [hmemory, h.accounts, hledger, map_map, map_map]
    refine map_congr_left fun old hold ↦ ?_
    have hheldBytes : ({ stores.memory with
        nextReservation := stores.memory.nextReservation + 1 }.insertHold
          reservation).heldBytes old.id =
        (if reservation.accountId = old.id ∧ ReservationState.held = .held then
          (reservation.bytes : ℤ) else 0) + stores.memory.heldBytes old.id :=
      bytesIn_upsert hfresh_memory .held old.id
    change (if old.id == reservation.accountId then _ else mirror stores.memory old) =
      mirror _ (if old.id == row.accountId then _ else old)
    rw [hsame_account]
    by_cases hmatch : old.id = row.accountId
    · obtain rfl : old = account := eq_of_key_eq hold haccount (hmatch.trans hid)
      rw [if_pos (beq_iff_eq.mpr hmatch), if_pos (beq_iff_eq.mpr hmatch), hmirror, mirror]
      have hheld_eq : (stores.memory.heldBytes old.id).toNat = old.reservedBytes.toNat :=
        congrArg StorageAccountSnapshot.reservedBytes hmirror
      have hnonneg : 0 ≤ stores.memory.heldBytes old.id := bytesIn_nonneg _ _ _
      have hsum : saturatingAdd old.snapshot.reservedBytes reservation.bytes =
          (({ stores.memory with nextReservation := stores.memory.nextReservation + 1 }.insertHold
            reservation).heldBytes old.id).toNat := by
        rw [hheldBytes, if_pos ⟨hsame_account.trans hmatch.symm, rfl⟩]
        simp only [StorageAccount.snapshot, saturatingAdd, u64Size, hsame_bytes]
        unfold amountLimit at hcapacity_lt
        omega
      rw [hsum]
      rfl
    · rw [if_neg fun hboth ↦ hmatch ((hsame_account.symm.trans hboth.1).symm), zero_add]
        at hheldBytes
      rw [if_neg fun hbeq ↦ hmatch (beq_iff_eq.mp hbeq),
        if_neg fun hbeq ↦ hmatch (beq_iff_eq.mp hbeq), mirror, mirror, hheldBytes]
  · rw [hrows, hentries, length_cons, length_cons, h.length_eq]
  · rw [pairs, hrows, hentries, zip_cons_cons] at hpair
    rcases mem_cons.mp hpair with rfl | hold
    · exact ⟨⟨_, hlast, hreservation⟩, hsame_account.symm, hsame_hash.symm, hsame_bytes.symm,
        hbytes, hsame_expires.symm, by rw [hheld]; rfl⟩
    · have hmatching := h.matching pair hold
      obtain ⟨index, hindex, hnumber⟩ := hmatching.id
      have hlt : index < stores.issued.length := (List.getElem?_eq_some_iff.mp hindex).1
      exact { hmatching with
        id := ⟨index, (List.getElem?_append_left hlt).trans hindex, hnumber⟩ }
  · refine nodup_append.mpr ⟨h.issued_nodup, nodup_singleton _, ?_⟩
    intro uuid huuid other hother heq
    obtain rfl := mem_singleton.mp hother
    obtain ⟨known, hknown, hknown_id⟩ := h.issued_known uuid huuid
    exact find_eq_none.mp hfresh known hknown (hknown_id.trans heq)
  · change stores.memory.nextReservation + 1 = _
    rw [h.numbers, length_append, length_singleton]
  · rcases mem_append.mp huuid with hold | hnew
    · obtain ⟨known, hknown, hknown_id⟩ := h.issued_known uuid hold
      exact ⟨known, by rw [mem_iff, hrows]; exact mem_cons_of_mem _ hknown, hknown_id⟩
    · exact ⟨row, by rw [mem_iff, hrows]; exact mem_cons_self, (mem_singleton.mp hnew).symm⟩

theorem fromStd_of_lt (h : ttl < amountLimit) : fromStd ttl = .ok ttl := by
  refine Ledger.fromStd_eq_ok.mpr ⟨?_, rfl⟩
  unfold amountLimit at h
  unfold durationLimit
  omega

theorem reserve_ledger (h : stores.Mirrors) (env : Environment)
    (haccount : account ∈ stores.ledger.accounts) (encodedHash : Text) (uuid : ℕ) (now clock : ℤ)
    (hbytes : bytes < amountLimit) (httl : ttl < amountLimit) :
    stores.ledger.reserve env account.id encodedHash bytes ttl uuid now clock =
      match (stores.ledger.expireHolds account.id now).activeReservation account.id encodedHash with
      | some row => .ok (Ledger.reservationOf env row, stores.ledger.expireHolds account.id now)
      | none =>
        Ledger.checkAvailable account bytes (Ledger.available account
          (Ledger.reservedAfterExpiry account (stores.ledger.expiredBytes account.id now))) >>=
        fun _ ↦ throwIf
          (((stores.ledger.expireHolds account.id now).reservations.find uuid).isSome)
          (storageError "duplicate key value violates unique constraint") >>=
        fun _ ↦ throwIf (env.hasChunk encodedHash = false)
          (storageError "insert violates foreign key constraint") >>=
        fun _ ↦ bigint (((stores.ledger.expireHolds account.id now).accounts.find account.id).elim 0
          StorageAccount.reservedBytes + bytes) >>=
        fun _ ↦ .ok (Ledger.reservationOf env
            (Ledger.newHold account.id encodedHash bytes ttl uuid clock),
          (stores.ledger.expireHolds account.id now).insertHold
            (Ledger.newHold account.id encodedHash bytes ttl uuid clock)) := by
  have hfind : stores.ledger.accounts.find account.id = some account :=
    find_eq_some.mpr ⟨haccount, rfl⟩
  have hexpired : bigint (stores.ledger.expiredBytes account.id now) =
      .ok (stores.ledger.expiredBytes account.id now) := by
    have hle := h.balanced.clampsIdle.expiry account haccount now
    have hlt := (h.within account haccount).reserved_lt
    have hnonneg := stores.ledger.expiredBytes_nonneg account.id now
    refine Ledger.bigint_eq_ok.mpr ⟨?_, rfl⟩
    unfold amountLimit at hlt
    unfold i64Limit
    omega
  simp only [Ledger.reserve, u64ToI64_of_lt hbytes, fromStd_of_lt httl, hfind, orThrow, hexpired]
  rfl

theorem reserve_unknown (h : stores.Mirrors) (env : Environment) (encodedHash : Text) (uuid : ℕ)
    (now clock : ℤ) (hbytes : bytes < amountLimit) (httl : ttl < amountLimit)
    (hfind : stores.ledger.accounts.find accountId = none) :
    stores.ledger.reserve env accountId encodedHash bytes ttl uuid now clock =
        .error (unknownAccount accountId) ∧
      stores.memory.reserve accountId encodedHash bytes ttl now clock =
        (.error (unknownAccount accountId), (stores.memory.expireLocked now).2) := by
  have hmirrors := h.expireMemory now
  constructor
  · simp only [Ledger.reserve, u64ToI64_of_lt hbytes, fromStd_of_lt httl, hfind]
    rfl
  · have hactive : (stores.memory.expireLocked now).2.activeReservation accountId encodedHash =
        none := by
      refine Option.eq_none_iff_forall_ne_some.mpr fun entry hentry ↦ ?_
      have hcondition := List.find?_some hentry
      rw [Bool.and_eq_true, Bool.and_eq_true, beq_iff_eq] at hcondition
      obtain ⟨row, hpair⟩ := hmirrors.exists_row (mem_of_find?_eq_some hentry)
      obtain ⟨account, haccount, hid⟩ := h.balanced.account_exists row (row_mem hpair)
      refine find_eq_none.mp hfind account haccount ?_
      exact hid.trans ((hmirrors.matching _ hpair).account.trans hcondition.1.1)
    have hfind' := hmirrors.find_account accountId
    rw [hfind] at hfind'
    simp only [InMemoryCapacityState.reserve, hactive, hfind', Option.map_none]

theorem find_expireHolds (hfresh : stores.ledger.reservations.find uuid = none) (accountId : Text)
    (now : ℤ) : (stores.ledger.expireHolds accountId now).reservations.find uuid = none := by
  refine find_eq_none.mpr fun row hrow hid ↦ ?_
  obtain ⟨old, hold, hold_id⟩ := Ledger.id_mem_of_mem_expireHolds hrow
  exact find_eq_none.mp hfresh old hold (hold_id.trans hid)

theorem issuedAfter_of_none (h : ledger.reservations.find uuid = none) :
    stores.issuedAfter ledger (.reserve accountId encodedHash bytes ttl uuid now clock) =
      stores.issued := by
  rw [issuedAfter, h, if_neg fun hboth ↦ Bool.false_ne_true hboth.2]

theorem issuedAfter_of_some (hfresh : stores.ledger.reservations.find uuid = none)
    (h : ledger.reservations.find uuid = some row) :
    stores.issuedAfter ledger (.reserve accountId encodedHash bytes ttl uuid now clock) =
      stores.issued ++ [uuid] := by
  rw [issuedAfter, hfresh, h, if_pos ⟨rfl, rfl⟩]

theorem usableFreeBytes_eq (h : stores.Mirrors) (haccount : account ∈ stores.ledger.accounts)
    (now : ℤ) : (({ account with reservedBytes := account.reservedBytes -
        stores.ledger.expiredBytes account.id now } : StorageAccount).snapshot.usableFreeBytes : ℤ) =
      Ledger.available account
        (Ledger.reservedAfterExpiry account (stores.ledger.expiredBytes account.id now)) := by
  have hsound := h.balanced.sound account haccount
  have hle := h.balanced.clampsIdle.expiry account haccount now
  have hused := hsound.used_nonneg
  have hmargin := hsound.margin_nonneg
  have hcapacity_lt := (h.within account haccount).capacity_lt
  rw [h.balanced.reservedAfterExpiry_eq haccount]
  simp only [StorageAccountSnapshot.usableFreeBytes, StorageAccount.snapshot, Ledger.available,
    saturatingSub]
  unfold amountLimit at hcapacity_lt
  unfold i64Limit
  omega

theorem step_reserve {outcome : Except StorageError (StorageReservation × Ledger)}
    {outcome' : Except StorageError StorageReservation × InMemoryCapacityState}
    (hledger : stores.ledger.reserve env accountId encodedHash bytes ttl uuid now clock = outcome)
    (hmemory : stores.memory.reserve accountId encodedHash bytes ttl now clock = outcome')
    {issued : List ℕ} (hissued : stores.issuedAfter (stores.ledger.settled Prod.snd outcome)
      (.reserve accountId encodedHash bytes ttl uuid now clock) = issued)
    (hmirrors : Mirrors ⟨stores.ledger.settled Prod.snd outcome, outcome'.2, issued⟩)
    (hanswer : Corresponds env issued (.ofExcept (fun result ↦ .reservation result.1) outcome)
      (.ofExcept .reservation outcome'.1)) :
    Agrees env stores (.reserve accountId encodedHash bytes ttl uuid now clock) := by
  simp only [Agrees, step, onLedger, onMemory, hledger, hmemory, hissued]
  exact ⟨hmirrors, hanswer⟩

theorem reserve_memory (clock : ℤ) {outcome : Except StorageError Unit}
    (hactive : (stores.memory.expireLocked now).2.activeReservation accountId encodedHash = none)
    (hfind : (stores.memory.expireLocked now).2.accounts.find accountId = some snapshot)
    (hcheck : checkAvailable snapshot bytes = outcome)
    (httl : ttl < amountLimit) (hnumbers : stores.memory.nextReservation < amountLimit) :
    stores.memory.reserve accountId encodedHash bytes ttl now clock = match outcome with
      | .error refusal => (.error refusal, (stores.memory.expireLocked now).2)
      | .ok _ =>
        let reservation : StorageReservation := {
          reservationId := InMemoryCapacityState.memoryId (stores.memory.nextReservation + 1)
          accountId := accountId
          encodedHash := encodedHash
          bytes := bytes
          expiresAt := clock + ttl }
        (.ok reservation, { (stores.memory.expireLocked now).2 with
            nextReservation := stores.memory.nextReservation + 1 }.insertHold reservation) := by
  have hnext : (stores.memory.expireLocked now).2.nextReservation = stores.memory.nextReservation :=
    rfl
  have hnumber : saturatingAdd stores.memory.nextReservation 1 =
      stores.memory.nextReservation + 1 := by
    unfold amountLimit at hnumbers
    unfold saturatingAdd u64Size
    omega
  cases outcome with
  | error refusal => simp only [InMemoryCapacityState.reserve, hactive, hfind, hcheck]
  | ok _ =>
    simp only [InMemoryCapacityState.reserve, hactive, hfind, hcheck, fromStd_of_lt httl, hnext,
      hnumber]

theorem reserve_granted (h : stores.Mirrors) (env : Environment)
    (haccount : account ∈ stores.ledger.accounts)
    (hallowed : Allowed env stores (.reserve account.id encodedHash bytes ttl uuid now clock))
    (hactive : (stores.ledger.expireHolds account.id now).activeReservation account.id encodedHash =
      none) (hcheck : Ledger.checkAvailable account bytes (Ledger.available account
      (Ledger.reservedAfterExpiry account (stores.ledger.expiredBytes account.id now))) = .ok ()) :
    stores.ledger.reserve env account.id encodedHash bytes ttl uuid now clock =
        .ok (Ledger.reservationOf env
            (Ledger.newHold account.id encodedHash bytes ttl uuid clock),
          (stores.ledger.expireHolds account.id now).insertHold
            (Ledger.newHold account.id encodedHash bytes ttl uuid clock)) ∧
      Mirrors ⟨(stores.ledger.expireHolds account.id now).insertHold
          (Ledger.newHold account.id encodedHash bytes ttl uuid clock),
        { (stores.memory.expireLocked now).2 with
          nextReservation := stores.memory.nextReservation + 1 }.insertHold {
            reservationId := InMemoryCapacityState.memoryId (stores.memory.nextReservation + 1)
            accountId := account.id
            encodedHash := encodedHash
            bytes := bytes
            expiresAt := clock + ttl },
        stores.issued ++ [uuid]⟩ := by
  obtain ⟨hpositive, hbytes, httl, -, hchunk, hfresh, hpending⟩ := hallowed
  have hclean := h.expireBoth account.id now
  have hmem := h.balanced.mem_expireHolds haccount now
  have hmirror := hclean.mirror_eq_snapshot hmem (h.not_pending_of_expireBoth hpending)
  have hfresh' := find_expireHolds hfresh account.id now
  have hfits := (Ledger.checkAvailable_eq_ok hcheck).2
  have hle := h.balanced.clampsIdle.expiry account haccount now
  rw [h.balanced.reservedAfterExpiry_eq haccount] at hfits
  have hroom := Ledger.room_of_le_available (sub_nonneg.mpr hle)
    (h.balanced.sound account haccount).margin_nonneg (Int.natCast_pos.mpr hpositive) hfits
  have hbigint : bigint (((stores.ledger.expireHolds account.id now).accounts.find account.id).elim 0
      StorageAccount.reservedBytes + bytes) =
      .ok (account.reservedBytes - stores.ledger.expiredBytes account.id now + bytes) := by
    have hused := (h.balanced.sound account haccount).used_nonneg
    have hmargin := (h.balanced.sound account haccount).margin_nonneg
    have hcapacity_lt := (h.within account haccount).capacity_lt
    rw [find_eq_some.mpr ⟨hmem, rfl⟩, Option.elim_some]
    refine Ledger.bigint_eq_ok.mpr ⟨?_, rfl⟩
    unfold amountLimit at hcapacity_lt
    unfold i64Limit
    dsimp only
    omega
  constructor
  · have hledger := h.reserve_ledger env haccount encodedHash uuid now clock hbytes httl
    have hduplicate : throwIf
        (((stores.ledger.expireHolds account.id now).reservations.find uuid).isSome = true)
        (storageError "duplicate key value violates unique constraint") = .ok () :=
      throwIf_eq_ok.mpr (by rw [hfresh']; exact Bool.false_ne_true)
    have hforeign : throwIf (env.hasChunk encodedHash = false)
        (storageError "insert violates foreign key constraint") = .ok () :=
      throwIf_eq_ok.mpr (by rw [hchunk]; exact Bool.false_ne_true.symm)
    rw [hledger, hactive, hcheck, hduplicate, hforeign, hbigint]
    rfl
  · rw [h.numbers]
    have hnumbers : (stores.memory.expireLocked now).2.nextReservation = stores.issued.length :=
      h.numbers
    rw [← hnumbers]
    refine hclean.insertPair hmem hmirror rfl rfl hpositive hroom hfresh' hactive ?_
      ⟨rfl, rfl, rfl, rfl⟩
    rw [hnumbers]

theorem reserve (h : stores.Mirrors) (env : Environment)
    (hallowed : Allowed env stores (.reserve accountId encodedHash bytes ttl uuid now clock)) :
    Agrees env stores (.reserve accountId encodedHash bytes ttl uuid now clock) := by
  have hconditions := hallowed
  obtain ⟨-, hbytes, httl, hnumbers, -, hfresh, hpending⟩ := hconditions
  cases hfind : stores.ledger.accounts.find accountId with
  | none =>
    obtain ⟨hledger, hmemory⟩ := h.reserve_unknown env encodedHash uuid now clock hbytes httl
      hfind
    exact step_reserve hledger hmemory (issuedAfter_of_none hfresh) (h.expireMemory now) rfl
  | some account =>
    obtain ⟨haccount, rfl⟩ := find_eq_some.mp hfind
    have hclean := h.expireBoth account.id now
    have hnone := h.not_pending_of_expireBoth hpending
    have hledger := h.reserve_ledger env haccount encodedHash uuid now clock hbytes httl
    rcases hclean.activeReservation encodedHash hnone with
      ⟨hactive, hactive'⟩ | ⟨pair, hpair, hactive, hactive'⟩
    · have hmem := h.balanced.mem_expireHolds haccount now
      have hmirror := hclean.mirror_eq_snapshot hmem hnone
      have hfind' := hclean.find_account account.id
      rw [find_eq_some.mpr ⟨hmem, rfl⟩, Option.map_some, hmirror] at hfind'
      rcases checkAvailable_agree account bytes rfl (h.usableFreeBytes_eq haccount now) with
        ⟨first, other, hfirst, hother, hkind⟩ | ⟨hfirst, hother⟩
      · have hmemory := reserve_memory clock hactive' hfind' hother httl hnumbers
        rw [hactive, hfirst] at hledger
        exact step_reserve hledger hmemory (issuedAfter_of_none hfresh) (h.expireMemory now) hkind
      · have hmemory := reserve_memory clock hactive' hfind' hother httl hnumbers
        obtain ⟨hledger', hmirrors⟩ := h.reserve_granted env haccount hallowed hactive hfirst
        have hlast : (stores.issued ++ [uuid])[stores.memory.nextReservation]? = some uuid := by
          rw [h.numbers]
          simp
        exact step_reserve hledger' hmemory
          (issuedAfter_of_some hfresh (find_eq_some.mpr ⟨mem_upsert.mpr (.inl rfl), rfl⟩))
          hmirrors ⟨⟨_, uuid, hlast, rfl, rfl⟩, rfl, rfl, rfl, rfl⟩
    · have hmemory : stores.memory.reserve account.id encodedHash bytes ttl now clock =
          (.ok pair.2.reservation, (stores.memory.expireLocked now).2) := by
        simp only [InMemoryCapacityState.reserve, hactive']
      have hmatching := hclean.matching pair hpair
      obtain ⟨index, hindex, hnumber⟩ := hmatching.id
      rw [hactive] at hledger
      exact step_reserve hledger hmemory
        (issuedAfter_of_none (find_expireHolds hfresh account.id now)) hclean
        ⟨⟨index, _, hindex, rfl, hnumber⟩, hmatching.account, hmatching.hash, hmatching.bytes,
          hmatching.expires⟩

end Mirrors

/-! ### Every run -/

theorem mirrors_step (env : Environment) {stores : Stores} (h : stores.Mirrors) {call : StoreCall}
    (hallowed : stores.Allowed env call) :
    Agrees env stores call := by
  cases call with
  | ensureAccount account => exact h.ensureAccount env hallowed
  | setAccountStatus accountId status => exact h.setAccountStatus env hallowed
  | refreshAccountCapacity accountId snapshot now => exact h.refreshAccountCapacity env hallowed
  | listAccounts providerId now => exact h.listAccounts env hallowed
  | reserve accountId encodedHash bytes ttl uuid now clock => exact h.reserve env hallowed
  | commit reservation => exact h.commit env hallowed
  | release reservation => exact h.release env hallowed
  | recoverExpired now => exact h.recoverExpired env hallowed

/-- **The stores agree along every run of allowed calls.** After any calls each of which was allowed
where it was made, the answers of both stores to an allowed call correspond. -/
theorem stores_agree (env : Environment) {stores : Stores}
    (hreached : Reaches (step env) (Allowed env) empty stores) {call : StoreCall}
    (hallowed : stores.Allowed env call) :
    Corresponds env (stores.step env call).issued (stores.onLedger env call).1
      (onMemory stores.memory call).1 := by
  have hmirrors : stores.Mirrors :=
    hreached.invariant Mirrors mirrors_empty fun _ _ h hstep ↦ (mirrors_step env h hstep).1
  exact (mirrors_step env hmirrors hallowed).2

/-- A registration and an upload of 40 bytes. -/
def smallRun : List StoreCall :=
  [.ensureAccount Ledger.smallAccount, .reserve "mega-1" "c0" 40 1000000 1 0 0]

theorem stores_agree_smallRun :
    Corresponds Ledger.smallUuids [1]
      ((smallRun.foldl (step Ledger.smallUuids) empty).onLedger Ledger.smallUuids
        (.commit (.issued 0))).1
      (onMemory (smallRun.foldl (step Ledger.smallUuids) empty).memory (.commit (.issued 0))).1 := by
  have hregisters : Registers empty.memory Ledger.smallAccount := by
    refine ⟨by decide, by decide, rfl, by decide, by decide, fun _ ↦ ⟨rfl, rfl, rfl⟩,
      fun old hold ↦ ?_⟩
    cases hold
  have hpermitted : Permitted (step Ledger.smallUuids) (Allowed Ledger.smallUuids) empty smallRun :=
    ⟨hregisters, ⟨by decide, by decide, by decide, by decide, rfl, rfl, by decide⟩, trivial⟩
  have hcommit : (smallRun.foldl (step Ledger.smallUuids) empty).Allowed Ledger.smallUuids
      (.commit (.issued 0)) := by
    have hissued : (smallRun.foldl (step Ledger.smallUuids) empty).issued = [1] := by
      decide
    refine ⟨?_, by decide⟩
    rw [IsShared, hissued]
    decide
  exact stores_agree Ledger.smallUuids (Reaches.refl.foldl hpermitted) hcommit

/-- The same, and the account is registered once more. -/
def registeredTwice : Stores :=
  (smallRun ++ [StoreCall.ensureAccount Ledger.smallAccount]).foldl (step Ledger.smallUuids) empty

/-- Registering an account once more resets it in memory only, and a status for an account that does
not exist is an error of different kinds. -/
theorem stores_disagree :
    ¬ Corresponds Ledger.smallUuids [1]
        (registeredTwice.onLedger Ledger.smallUuids (.listAccounts "mega" 0)).1
        (onMemory registeredTwice.memory (.listAccounts "mega" 0)).1 ∧
      ¬ Corresponds Ledger.smallUuids []
        (empty.onLedger Ledger.smallUuids (.setAccountStatus "mega-1" .active)).1
        (onMemory empty.memory (.setAccountStatus "mega-1" .active)).1 := by
  constructor
  · change ¬ (registeredTwice.ledger.listAccounts "mega" =
      (registeredTwice.memory.listAccounts "mega" 0).1)
    decide
  · exact fun hkind ↦ nomatch hkind

end Stores

end GameLauncher.Capacity
