import GameLauncher.Capacity.Holdings
import GameLauncher.Foundation.Run

/-!
# The ledger keeps its balance

Every operation adjusts the reserved bytes of an account and the state of a reservation in separate
statements. `Balanced` says that they agree: the reserved bytes are the sum of the holds, no two
active reservations of an account are for the same chunk, and every reservation has its account.
-/

set_option autoImplicit false

namespace GameLauncher.Capacity

open Foundation Fallible List Table Holding

/-! ### Operations and runs -/

/-- An operation of the store with its arguments, the identifier a new reservation would get, and
the times it reads. -/
inductive Operation
  | ensureAccount (account : StorageAccountSnapshot)
  | setAccountStatus (accountId : Text) (status : StorageAccountStatus)
  | refreshAccountCapacity (accountId : Text) (snapshot : CapacitySnapshot) (now : ℤ)
  | listAccounts (providerId : Text) (now : ℤ)
  | reserve (accountId encodedHash : Text) (bytes ttl uuid : ℕ) (now clock : ℤ)
  | commit (reservationId : Text)
  | release (reservationId : Text)
  | recoverExpired (now : ℤ)

namespace Ledger

/-- The ledger after an operation; an operation that fails is rolled back. -/
def settled {α : Type} (ledger : Ledger) (next : α → Ledger) : Except StorageError α → Ledger
  | .ok result => next result
  | .error _ => ledger

def step (env : Environment) (ledger : Ledger) : Operation → Ledger
  | .ensureAccount account => ledger.settled id (ledger.ensureAccount account)
  | .setAccountStatus accountId status =>
    ledger.settled id (ledger.setAccountStatus accountId status)
  | .refreshAccountCapacity accountId snapshot now =>
    ledger.settled Prod.snd (ledger.refreshAccountCapacity accountId snapshot now)
  | .listAccounts _ _ => ledger
  | .reserve accountId encodedHash bytes ttl uuid now clock =>
    ledger.settled Prod.snd (ledger.reserve env accountId encodedHash bytes ttl uuid now clock)
  | .commit reservationId => ledger.settled id (ledger.commit env reservationId)
  | .release reservationId => ledger.settled id (ledger.release env reservationId)
  | .recoverExpired now => (ledger.recoverExpired now).2

/-! ### Sums over holds -/

variable {ledger : Ledger} {row : ReservationRow} {accountId : Text}
  {condition : ReservationRow → Bool} {state : ReservationState}

instance : Holding ReservationRow where
  account := ReservationRow.accountId
  bytes := ReservationRow.bytes
  state := ReservationRow.state
  withState := fun row state ↦ { row with state := state }
  account_withState := fun _ _ ↦ rfl
  bytes_withState := fun _ _ ↦ rfl
  state_withState := fun _ _ ↦ rfl

def heldBytes (ledger : Ledger) (accountId : Text) : ℤ :=
  Holding.bytesIn ledger.reservations .held accountId

def SelectsHoldsOf (ledger : Ledger) (accountId : Text) (condition : ReservationRow → Bool) : Prop :=
  ∀ row ∈ ledger.reservations, condition row = true → row.accountId = accountId ∧ row.state = .held

def selectedBytes (ledger : Ledger) (condition : ReservationRow → Bool) (accountId : Text) : ℤ :=
  Holding.selectedBytes ledger.reservations condition accountId

theorem selectsHoldsOf_isExpiredHold (ledger : Ledger) (accountId : Text) (now : ℤ) :
    ledger.SelectsHoldsOf accountId (isExpiredHold accountId now) := by
  intro row _ hexpired
  simp only [isExpiredHold, Bool.and_eq_true, beq_iff_eq] at hexpired
  exact hexpired.1

theorem selectsHoldsOf_id (hrow : row ∈ ledger.reservations) (hheld : row.state = .held) :
    ledger.SelectsHoldsOf row.accountId (fun other ↦ other.id == row.id) := by
  intro other hother hid
  obtain rfl : other = row := eq_of_key_eq hother hrow (beq_iff_eq.mp hid)
  exact ⟨rfl, hheld⟩

/-- What the first statement of `reserve` adds up. -/
theorem expiredBytes_eq (ledger : Ledger) (accountId : Text) (now : ℤ) :
    ledger.expiredBytes accountId now =
      ledger.selectedBytes (isExpiredHold accountId now) accountId := by
  refine total_congr fun row hrow ↦ ?_
  by_cases hexpired : isExpiredHold accountId now row = true
  · have haccount := (ledger.selectsHoldsOf_isExpiredHold accountId now row hrow hexpired).1
    rw [if_pos hexpired, if_pos ⟨haccount, hexpired⟩]
    rfl
  · rw [if_neg hexpired, if_neg fun hboth ↦ hexpired hboth.2]

theorem expiredBytes_nonneg (ledger : Ledger) (accountId : Text) (now : ℤ) :
    0 ≤ ledger.expiredBytes accountId now := by
  rw [expiredBytes_eq]
  exact selectedBytes_nonneg _ _ _

theorem SelectsHoldsOf.selectsHolds (h : ledger.SelectsHoldsOf accountId condition) :
    Holding.SelectsHolds ledger.reservations condition :=
  fun row hrow hselected ↦ (h row hrow hselected).2

theorem SelectsHoldsOf.heldBytes_setState (h : ledger.SelectsHoldsOf accountId condition)
    (hstate : state ≠ .held) (otherId : Text) :
    (ledger.setState condition state).heldBytes otherId = ledger.heldBytes otherId -
        if accountId = otherId then ledger.selectedBytes condition accountId else 0 := by
  refine (h.selectsHolds.bytesIn_update state (fun _ ↦ rfl) .held otherId).trans ?_
  rw [if_pos rfl, if_neg (Ne.symm hstate), add_zero]
  by_cases haccount : accountId = otherId
  · rw [if_pos haccount, haccount]
    rfl
  · have hnone : ∀ row ∈ ledger.reservations, condition row = true → row.accountId ≠ otherId :=
      fun row hrow hselected hid ↦ haccount ((h row hrow hselected).1.symm.trans hid)
    rw [if_neg haccount, selectedBytes_of_none hnone]
    rfl

/-! ### The invariant -/

variable {account : StorageAccount}

/-- The columns of an account are in range, and what it has reserved are its holds. -/
structure Sound (ledger : Ledger) (account : StorageAccount) : Prop where
  reserved_eq : account.reservedBytes = ledger.heldBytes account.id
  reserved_lt : account.reservedBytes < i64Limit
  capacity_nonneg : 0 ≤ account.capacityBytes
  used_nonneg : 0 ≤ account.usedBytes
  margin_nonneg : 0 ≤ account.safetyMarginBytes

/-- The accounts agree with the reservations. -/
structure Balanced (ledger : Ledger) : Prop where
  sound : ∀ account ∈ ledger.accounts, ledger.Sound account
  active_unique : ∀ first ∈ ledger.reservations, ∀ other ∈ ledger.reservations,
    first.state.isActive = true → other.state.isActive = true →
    first.accountId = other.accountId → first.encodedHash = other.encodedHash → first = other
  account_exists : ∀ row ∈ ledger.reservations, ∃ account ∈ ledger.accounts,
    account.id = row.accountId

theorem balanced_empty : Ledger.empty.Balanced where
  sound := fun _ h ↦ nomatch h
  active_unique := fun _ h ↦ nomatch h
  account_exists := fun _ h ↦ nomatch h

theorem Balanced.selectedBytes_le (h : ledger.Balanced) (haccount : account ∈ ledger.accounts)
    (hselects : ledger.SelectsHoldsOf account.id condition) :
    ledger.selectedBytes condition account.id ≤ account.reservedBytes := by
  rw [(h.sound account haccount).reserved_eq]
  exact hselects.selectsHolds.selectedBytes_le account.id

structure TakesOff (bytes : ℤ) (change : StorageAccount → StorageAccount) : Prop where
  id : ∀ account, (change account).id = account.id
  reserved : ∀ account, (change account).reservedBytes = max 0 (account.reservedBytes - bytes)
  capacity : ∀ account, (change account).capacityBytes = account.capacityBytes
  used : ∀ account, account.usedBytes ≤ (change account).usedBytes
  margin : ∀ account, (change account).safetyMarginBytes = account.safetyMarginBytes

theorem Balanced.settle (h : ledger.Balanced) (hselects : ledger.SelectsHoldsOf accountId condition)
    (hstate : state ≠ .held) {change : StorageAccount → StorageAccount}
    (hchange : TakesOff (ledger.selectedBytes condition accountId) change) :
    ((ledger.setState condition state).updateAccount accountId change hchange.id).Balanced := by
  refine ⟨fun account haccount ↦ ?_, fun first hfirst other hother hactive hactive' hsame hhash ↦ ?_,
    fun row hrow ↦ ?_⟩
  · simp only [updateAccount, setState, mem_updateWhere] at haccount
    obtain ⟨old, hold, rfl⟩ := haccount
    have hsound := h.sound old hold
    have hheld := hselects.heldBytes_setState hstate old.id
    by_cases hmatch : old.id = accountId
    · have hle := hmatch ▸ h.selectedBytes_le hold (hmatch ▸ hselects)
      have hnonneg : 0 ≤ ledger.selectedBytes condition accountId :=
        selectedBytes_nonneg _ _ _
      rw [if_pos (beq_iff_eq.mpr hmatch)]
      have hreserved := (hchange.reserved old).trans (max_eq_right (sub_nonneg.mpr hle))
      refine ⟨?_, ?_, ?_, ?_, ?_⟩
      · rw [if_pos hmatch.symm] at hheld
        rw [hreserved, hchange.id, hsound.reserved_eq]
        exact hheld.symm
      · have hlt := hsound.reserved_lt
        omega
      · exact (hchange.capacity old).symm ▸ hsound.capacity_nonneg
      · exact hsound.used_nonneg.trans (hchange.used old)
      · exact (hchange.margin old).symm ▸ hsound.margin_nonneg
    · rw [if_neg fun hbeq ↦ hmatch (beq_iff_eq.mp hbeq)]
      rw [if_neg (Ne.symm hmatch), sub_zero] at hheld
      exact { hsound with reserved_eq := hsound.reserved_eq.trans hheld.symm }
  · simp only [updateAccount, setState, mem_updateWhere] at hfirst hother
    obtain ⟨first, hfirst, rfl⟩ := hfirst
    obtain ⟨other, hother, rfl⟩ := hother
    have hactive_of (row : ReservationRow) (hrow : row ∈ ledger.reservations)
        (hnew : (if condition row then { row with state := state } else row).state.isActive = true) :
        row.state.isActive = true := by
      by_cases hselected : condition row = true
      · rw [(hselects row hrow hselected).2]
        rfl
      · rwa [if_neg hselected] at hnew
    have hsame' : first.accountId = other.accountId ∧ first.encodedHash = other.encodedHash := by
      split_ifs at hsame hhash <;> exact ⟨hsame, hhash⟩
    rw [h.active_unique first hfirst other hother (hactive_of first hfirst hactive)
      (hactive_of other hother hactive') hsame'.1 hsame'.2]
  · simp only [updateAccount, setState, mem_updateWhere] at hrow ⊢
    obtain ⟨old, hold, rfl⟩ := hrow
    obtain ⟨account, haccount, hmatch⟩ := h.account_exists old hold
    refine ⟨_, ⟨account, haccount, rfl⟩, ?_⟩
    split_ifs <;> simp only [hchange.id, hmatch]

theorem Balanced.withAccounts (h : ledger.Balanced)
    {accounts : Table StorageAccount StorageAccount.id}
    (hsound : ∀ account ∈ accounts, ledger.Sound account)
    (hkept : ∀ account ∈ ledger.accounts, ∃ other ∈ accounts, other.id = account.id) :
    { ledger with accounts := accounts }.Balanced := by
  refine ⟨fun account haccount ↦ ?_, h.active_unique, fun row hrow ↦ ?_⟩
  · have hold := hsound account haccount
    exact ⟨hold.reserved_eq, hold.reserved_lt, hold.capacity_nonneg, hold.used_nonneg,
      hold.margin_nonneg⟩
  · obtain ⟨account, haccount, hid⟩ := h.account_exists row hrow
    obtain ⟨other, hother, hother_id⟩ := hkept account haccount
    exact ⟨other, hother, hother_id.trans hid⟩

theorem Balanced.upsertAccount (h : ledger.Balanced) (hsound : ledger.Sound account) :
    { ledger with accounts := ledger.accounts.upsert account }.Balanced := by
  refine h.withAccounts (fun other hother ↦ ?_) fun other hother ↦ ?_
  · rcases mem_upsert.mp hother with rfl | ⟨hold, -⟩
    · exact hsound
    · exact h.sound other hold
  · by_cases hid : other.id = account.id
    · exact ⟨account, mem_upsert.mpr (.inl rfl), hid.symm⟩
    · exact ⟨other, mem_upsert.mpr (.inr ⟨hother, hid⟩), rfl⟩

theorem Balanced.heldBytes_of_unknown (h : ledger.Balanced)
    (hunknown : ledger.accounts.find accountId = none) : ledger.heldBytes accountId = 0 := by
  refine (total_congr fun row hrow ↦ if_neg ?_).trans total_zero
  rintro ⟨rfl, -⟩
  obtain ⟨account, haccount, hid⟩ := h.account_exists row hrow
  exact find_eq_none.mp hunknown account haccount hid

/-! ### What each operation can do -/

variable {ttl bytes : ℕ} {env : Environment} {next : Ledger} {encodedHash : Text} {now : ℤ}

@[simp] theorem u64ToI64_eq_ok {value : ℕ} {result : ℤ} :
    u64ToI64 value = .ok result ↔ (value : ℤ) < i64Limit ∧ (value : ℤ) = result := by
  unfold u64ToI64
  split_ifs with h <;> simp [h]

@[simp] theorem bigint_eq_ok {value result : ℤ} :
    bigint value = .ok result ↔ (-i64Limit ≤ value ∧ value < i64Limit) ∧ value = result := by
  unfold bigint
  split_ifs with h <;> simp [h]

@[simp] theorem fromStd_eq_ok {result : ℕ} :
    fromStd ttl = .ok result ↔ ttl / 1000000 ≤ durationLimit ∧ ttl = result := by
  unfold fromStd
  split_ifs with h <;> simp [h]

/-- A hold that `release` ends. -/
def releaseHold (ledger : Ledger) (row : ReservationRow) : Ledger :=
  (ledger.setState (fun other ↦ other.id == row.id) .released).unreserve row.accountId row.bytes

def insertHold (ledger : Ledger) (row : ReservationRow) : Ledger :=
  { (ledger.updateAccount row.accountId
      (fun account ↦ { account with reservedBytes := account.reservedBytes + row.bytes })
      fun _ ↦ rfl) with
    reservations := ledger.reservations.upsert row }

theorem commit_eq_ok {reservationId : Text} (h : ledger.commit env reservationId = .ok next) :
    ∃ row ∈ ledger.reservations, env.parseUuid reservationId = some row.id ∧
      next = if row.state = .held then ledger.commitHold row else ledger := by
  simp only [commit, bind_eq_ok, orThrow_eq_ok, find_eq_some] at h
  obtain ⟨uuid, hparse, row, ⟨hrow, rfl⟩, h⟩ := h
  refine ⟨row, hrow, hparse, ?_⟩
  split_ifs at h ⊢
  · obtain ⟨_, -, h⟩ := bind_eq_ok.mp h
    exact (pure_eq_ok.mp h).symm
  · exact (pure_eq_ok.mp h).symm

theorem release_eq_ok {reservationId : Text} (h : ledger.release env reservationId = .ok next) :
    ∃ row ∈ ledger.reservations, env.parseUuid reservationId = some row.id ∧
      next = if row.state = .held then ledger.releaseHold row else ledger := by
  simp only [release, bind_eq_ok, orThrow_eq_ok, find_eq_some] at h
  obtain ⟨uuid, hparse, row, ⟨hrow, rfl⟩, h⟩ := h
  refine ⟨row, hrow, hparse, ?_⟩
  split_ifs at h ⊢
  · exact (pure_eq_ok.mp h).symm
  · exact (pure_eq_ok.mp h).symm

theorem checkAvailable_eq_ok {free : ℤ} {u : Unit} (h : checkAvailable account bytes free = .ok u) :
    account.status.canAllocate = true ∧ (bytes : ℤ) ≤ free := by
  unfold checkAvailable at h
  split_ifs at h with hstatus
  exact ⟨hstatus, not_lt.mp (throwIf_eq_ok.mp h)⟩

theorem activeReservation_eq_some (h : ledger.activeReservation accountId encodedHash = some row) :
    row ∈ ledger.reservations ∧ row.accountId = accountId ∧ row.encodedHash = encodedHash ∧
      row.state.isActive = true := by
  have hmem := mem_of_head? h
  rw [mem_insertionSort, mem_filter, Bool.and_eq_true, Bool.and_eq_true, beq_iff_eq,
    beq_iff_eq] at hmem
  exact ⟨hmem.1, hmem.2.1.1, hmem.2.1.2, hmem.2.2⟩

theorem activeReservation_eq_none :
    ledger.activeReservation accountId encodedHash = none ↔ ∀ row ∈ ledger.reservations,
      row.accountId = accountId → row.encodedHash = encodedHash → row.state.isActive = false := by
  have hnil : ∀ rows : List ReservationRow,
      (rows.insertionSort fun first other ↦ first.id ≤ other.id).head? = none ↔ rows = [] := by
    intro rows
    rw [List.head?_eq_none_iff]
    constructor
    · intro h
      exact List.Perm.eq_nil (h ▸ (perm_insertionSort _ rows).symm)
    · rintro rfl
      rfl
  rw [activeReservation, hnil, filter_eq_nil_iff]
  simp only [Bool.and_eq_true, beq_iff_eq, not_and, Bool.not_eq_true, and_imp]
  rfl

/-- The reservation that `reserve` makes. -/
def newHold (accountId encodedHash : Text) (bytes ttl uuid : ℕ) (clock : ℤ) : ReservationRow where
  id := uuid
  accountId := accountId
  encodedHash := encodedHash
  bytes := bytes
  state := .held
  expiresAt := clock + ttl

/-- What `reserve` takes the reserved bytes of an account to be. -/
def reservedAfterExpiry (account : StorageAccount) (expired : ℤ) : ℤ :=
  if 0 < expired then max 0 (saturatingSub account.reservedBytes expired)
  else account.reservedBytes

/-- What holds when `reserve` makes a new reservation. -/
structure Grants (ledger : Ledger) (account : StorageAccount) (row : ReservationRow) (now : ℤ) :
    Prop where
  unclaimed : (ledger.expireHolds account.id now).activeReservation account.id row.encodedHash = none
  allocates : account.status.canAllocate = true
  fits : (row.bytes : ℤ) ≤
    available account (reservedAfterExpiry account (ledger.expiredBytes account.id now))
  fresh : (ledger.expireHolds account.id now).reservations.find row.id = none
  reserved_lt : ((ledger.expireHolds account.id now).accounts.find account.id).elim 0
    StorageAccount.reservedBytes + (row.bytes : ℤ) < i64Limit

theorem reserve_eq_ok {uuid : ℕ} {clock : ℤ} {reservation : StorageReservation}
    (h : ledger.reserve env accountId encodedHash bytes ttl uuid now clock =
      .ok (reservation, next)) :
    ∃ account ∈ ledger.accounts, account.id = accountId ∧
      ((∃ row, (ledger.expireHolds accountId now).activeReservation accountId encodedHash = some row ∧
          reservation = reservationOf env row ∧ next = ledger.expireHolds accountId now) ∨
        ledger.Grants account (newHold accountId encodedHash bytes ttl uuid clock) now ∧
          reservation = reservationOf env (newHold accountId encodedHash bytes ttl uuid clock) ∧
          next = (ledger.expireHolds accountId now).insertHold
            (newHold accountId encodedHash bytes ttl uuid clock)) := by
  simp only [reserve, bind_eq_ok, u64ToI64_eq_ok, fromStd_eq_ok, orThrow_eq_ok,
    find_eq_some, bigint_eq_ok] at h
  obtain ⟨_, -, _, ⟨-, rfl⟩, account, ⟨haccount, rfl⟩, _, ⟨-, rfl⟩, h⟩ := h
  refine ⟨account, haccount, rfl, ?_⟩
  cases hactive : (ledger.expireHolds account.id now).activeReservation account.id encodedHash with
  | some row =>
    rw [hactive] at h
    obtain ⟨rfl, rfl⟩ := Prod.ext_iff.mp (pure_eq_ok.mp h)
    exact .inl ⟨row, rfl, rfl, rfl⟩
  | none =>
    rw [hactive] at h
    simp only [bind_eq_ok, throwIf_eq_ok, bigint_eq_ok, pure_eq_ok, Option.not_isSome_iff_eq_none]
      at h
    obtain ⟨_, hcheck, _, hfresh, _, -, _, ⟨⟨-, hlt⟩, -⟩, hpair⟩ := h
    obtain ⟨rfl, rfl⟩ := Prod.ext_iff.mp hpair
    obtain ⟨hallocates, hfits⟩ := checkAvailable_eq_ok hcheck
    exact .inr ⟨⟨hactive, hallocates, hfits, hfresh, hlt⟩, rfl, rfl⟩

/-! ### Every operation keeps the balance -/

theorem takesOff_max (bytes : ℤ) :
    TakesOff bytes fun account ↦
      { account with reservedBytes := max 0 (account.reservedBytes - bytes) } where
  id := fun _ ↦ rfl
  reserved := fun _ ↦ rfl
  capacity := fun _ ↦ rfl
  used := fun _ ↦ le_rfl
  margin := fun _ ↦ rfl

section

variable (h : ledger.Balanced) (hrow : row ∈ ledger.reservations) (hheld : row.state = .held)

include h hrow hheld

theorem Balanced.settleHold (hstate : state ≠ .held) {change : StorageAccount → StorageAccount}
    (hchange : TakesOff row.bytes change) :
    ((ledger.setState (fun other ↦ other.id == row.id) state).updateAccount row.accountId change
      hchange.id).Balanced := by
  have hbytes : ledger.selectedBytes (fun other ↦ other.id == row.id) row.accountId = row.bytes :=
    selectedBytes_key hrow
  rw [← hbytes] at hchange
  exact h.settle (selectsHoldsOf_id hrow hheld) hstate hchange

theorem Balanced.expireHold : (ledger.expireHold row).Balanced := by
  have hended : ReservationState.expired ≠ .held := nofun
  exact h.settleHold hrow hheld hended (takesOff_max _)

theorem Balanced.releaseHold : (ledger.releaseHold row).Balanced := by
  have hended : ReservationState.released ≠ .held := nofun
  exact h.settleHold hrow hheld hended (takesOff_max _)

end

theorem takesOff_commit (bytes : ℕ) :
    TakesOff bytes fun account ↦ { account with
      reservedBytes := max 0 (account.reservedBytes - bytes)
      usedBytes := account.usedBytes + bytes } where
  id := fun _ ↦ rfl
  reserved := fun _ ↦ rfl
  capacity := fun _ ↦ rfl
  used := fun _ ↦ Int.le_add_of_nonneg_right (Int.natCast_nonneg _)
  margin := fun _ ↦ rfl

theorem Balanced.commitHold (h : ledger.Balanced) (hrow : row ∈ ledger.reservations)
    (hheld : row.state = .held) : (ledger.commitHold row).Balanced := by
  have hended : ReservationState.committed ≠ .held := nofun
  exact h.settleHold hrow hheld hended (takesOff_commit _)

theorem Balanced.expireHolds (h : ledger.Balanced) (accountId : Text) (now : ℤ) :
    (ledger.expireHolds accountId now).Balanced := by
  unfold Ledger.expireHolds
  have hended : ReservationState.expired ≠ .held := nofun
  split_ifs
  · rw [expiredBytes_eq]
    exact h.settle (ledger.selectsHoldsOf_isExpiredHold accountId now) hended (takesOff_max _)
  · exact h

theorem mem_foldl_expireHold {rows : List ReservationRow} (hrow : row ∈ ledger.reservations)
    (hother : row.id ∉ rows.map ReservationRow.id) :
    row ∈ (rows.foldl expireHold ledger).reservations := by
  induction rows generalizing ledger with
  | nil => exact hrow
  | cons first rest ih =>
    rw [map_cons, mem_cons, not_or] at hother
    refine ih ?_ hother.2
    simp only [expireHold, unreserve, updateAccount, setState, mem_updateWhere]
    exact ⟨row, hrow, (if_neg fun hbeq ↦ hother.1 (beq_iff_eq.mp hbeq)).symm⟩

/-- The loop of `recover_expired` keeps what the end of one hold keeps: the rows that it has not come
to are still held. -/
theorem foldl_expireHold_invariant (invariant : Ledger → Prop)
    (hstep : ∀ {ledger : Ledger} {row : ReservationRow}, invariant ledger →
      row ∈ ledger.reservations → row.state = .held → invariant (ledger.expireHold row))
    (h : invariant ledger) {rows : List ReservationRow}
    (hrows : ∀ row ∈ rows, row ∈ ledger.reservations ∧ row.state = .held)
    (hnodup : (rows.map ReservationRow.id).Nodup) : invariant (rows.foldl expireHold ledger) := by
  induction rows generalizing ledger with
  | nil => exact h
  | cons row rest ih =>
    rw [map_cons, nodup_cons] at hnodup
    obtain ⟨hrow, hheld⟩ := hrows row mem_cons_self
    refine ih (hstep h hrow hheld) (fun other hother ↦ ?_) hnodup.2
    obtain ⟨hold, hother_held⟩ := hrows other (mem_cons_of_mem _ hother)
    have hne : other.id ∉ [row].map ReservationRow.id := by
      rw [map_singleton, mem_singleton]
      exact fun heq ↦ hnodup.1 (heq ▸ mem_map_of_mem hother)
    exact ⟨mem_foldl_expireHold hold hne, hother_held⟩

theorem mem_expiredHolds (h : row ∈ ledger.expiredHolds now) :
    row ∈ ledger.reservations ∧ row.state = .held := by
  obtain ⟨hrow, hcondition⟩ := mem_filter.mp h
  exact ⟨hrow, beq_iff_eq.mp (Bool.and_eq_true _ _ ▸ hcondition).1⟩

theorem expiredHolds_nodup (ledger : Ledger) (now : ℤ) :
    ((ledger.expiredHolds now).map ReservationRow.id).Nodup :=
  ledger.reservations.keys_nodup.sublist (filter_sublist.map _)

theorem Balanced.insertHold (h : ledger.Balanced) (hheld : row.state = .held)
    (hknown : ∃ account ∈ ledger.accounts, account.id = row.accountId)
    (hunclaimed : ledger.activeReservation row.accountId row.encodedHash = none)
    (hfresh : ledger.reservations.find row.id = none)
    (hlt : (ledger.accounts.find row.accountId).elim 0 StorageAccount.reservedBytes +
      (row.bytes : ℤ) < i64Limit) : (ledger.insertHold row).Balanced := by
  have hheldBytes (accountId : Text) : (ledger.insertHold row).heldBytes accountId =
      (if row.accountId = accountId then (row.bytes : ℤ) else 0) + ledger.heldBytes accountId := by
    refine (bytesIn_upsert (find_eq_none.mp hfresh) .held accountId).trans ?_
    simp only [Holding.account, Holding.state, Holding.bytes, hheld, and_true, heldBytes]
  refine ⟨fun account haccount ↦ ?_, fun first hfirst other hother hactive hactive' hsame hhash ↦ ?_,
    fun other hother ↦ ?_⟩
  · simp only [Ledger.insertHold, updateAccount, mem_updateWhere] at haccount
    obtain ⟨old, hold, rfl⟩ := haccount
    have hsound := h.sound old hold
    by_cases hmatch : old.id = row.accountId
    · rw [if_pos (beq_iff_eq.mpr hmatch)]
      rw [find_eq_some.mpr ⟨hold, hmatch⟩, Option.elim_some] at hlt
      refine ⟨?_, hlt, hsound.capacity_nonneg, hsound.used_nonneg, hsound.margin_nonneg⟩
      rw [hheldBytes, if_pos hmatch.symm, ← hsound.reserved_eq]
      exact Int.add_comm _ _
    · rw [if_neg fun hbeq ↦ hmatch (beq_iff_eq.mp hbeq)]
      refine { hsound with reserved_eq := ?_ }
      rw [hheldBytes, if_neg (Ne.symm hmatch), Int.zero_add, hsound.reserved_eq]
  · have hinactive := activeReservation_eq_none.mp hunclaimed
    rcases mem_upsert.mp hfirst with rfl | ⟨hold, -⟩ <;>
      rcases mem_upsert.mp hother with rfl | ⟨hold', -⟩
    · rfl
    · rw [hinactive other hold' hsame.symm hhash.symm] at hactive'
      cases hactive'
    · rw [hinactive first hold hsame hhash] at hactive
      cases hactive
    · exact h.active_unique first hold other hold' hactive hactive' hsame hhash
  · have hexists : ∃ account ∈ ledger.accounts, account.id = other.accountId := by
      rcases mem_upsert.mp hother with rfl | ⟨hold, -⟩
      · exact hknown
      · exact h.account_exists other hold
    obtain ⟨account, haccount, hid⟩ := hexists
    simp only [Ledger.insertHold, updateAccount, mem_updateWhere]
    refine ⟨_, ⟨account, haccount, rfl⟩, ?_⟩
    split_ifs <;> exact hid

theorem Balanced.ensureAccount (h : ledger.Balanced) {account : StorageAccountSnapshot}
    (hensure : ledger.ensureAccount account = .ok next) : next.Balanced := by
  simp only [Ledger.ensureAccount, bind_eq_ok, u64ToI64_eq_ok] at hensure
  obtain ⟨_, ⟨-, rfl⟩, _, ⟨-, rfl⟩, hensure⟩ := hensure
  cases hfind : ledger.accounts.find account.accountId with
  | some existing =>
    rw [hfind] at hensure
    obtain rfl := pure_eq_ok.mp hensure
    have hsound := h.sound existing (find_eq_some.mp hfind).1
    exact h.upsertAccount ⟨hsound.reserved_eq, hsound.reserved_lt, Int.natCast_nonneg _,
      hsound.used_nonneg, Int.natCast_nonneg _⟩
  | none =>
    rw [hfind] at hensure
    obtain rfl := pure_eq_ok.mp hensure
    have hlt : (0 : ℤ) < i64Limit := by decide
    exact h.upsertAccount ⟨(h.heldBytes_of_unknown hfind).symm, hlt, Int.natCast_nonneg _, le_rfl,
      Int.natCast_nonneg _⟩

theorem Balanced.setAccountStatus (h : ledger.Balanced) {status : StorageAccountStatus}
    (hset : ledger.setAccountStatus accountId status = .ok next) : next.Balanced := by
  unfold Ledger.setAccountStatus at hset
  split at hset
  · cases hset
  · obtain rfl := Except.ok.inj hset
    refine h.withAccounts (fun account haccount ↦ ?_) fun account haccount ↦ ?_
    · obtain ⟨old, hold, rfl⟩ := mem_updateWhere.mp haccount
      have hsound := h.sound old hold
      split_ifs
      · exact ⟨hsound.reserved_eq, hsound.reserved_lt, hsound.capacity_nonneg, hsound.used_nonneg,
          hsound.margin_nonneg⟩
      · exact hsound
    · refine ⟨_, mem_updateWhere.mpr ⟨account, haccount, rfl⟩, ?_⟩
      split_ifs <;> rfl

theorem Balanced.refreshAccountCapacity (h : ledger.Balanced) {snapshot : CapacitySnapshot}
    {refreshed : StorageAccountSnapshot}
    (hrefresh : ledger.refreshAccountCapacity accountId snapshot now = .ok (refreshed, next)) :
    next.Balanced := by
  simp only [Ledger.refreshAccountCapacity, bind_eq_ok, u64ToI64_eq_ok, orThrow_eq_ok,
    find_eq_some, pure_eq_ok, Prod.mk.injEq] at hrefresh
  obtain ⟨_, ⟨-, rfl⟩, _, ⟨-, rfl⟩, account, ⟨haccount, -⟩, status, -, -, rfl⟩ := hrefresh
  have hsound := h.sound account haccount
  exact h.upsertAccount ⟨hsound.reserved_eq, hsound.reserved_lt, Int.natCast_nonneg _,
    Int.natCast_nonneg _, hsound.margin_nonneg⟩

theorem expireHolds_keeps (haccount : account ∈ ledger.accounts) (accountId : Text) (now : ℤ) :
    ∃ other ∈ (ledger.expireHolds accountId now).accounts, other.id = account.id ∧
      other.capacityBytes = account.capacityBytes ∧ other.usedBytes = account.usedBytes ∧
      other.safetyMarginBytes = account.safetyMarginBytes := by
  unfold Ledger.expireHolds
  split_ifs
  · simp only [unreserve, updateAccount, setState, mem_updateWhere]
    refine ⟨_, ⟨account, haccount, rfl⟩, ?_⟩
    split_ifs <;> exact ⟨rfl, rfl, rfl, rfl⟩
  · exact ⟨account, haccount, rfl, rfl, rfl, rfl⟩

theorem Balanced.reserve (h : ledger.Balanced) {uuid : ℕ} {clock : ℤ}
    {reservation : StorageReservation}
    (hreserve : ledger.reserve env accountId encodedHash bytes ttl uuid now clock =
      .ok (reservation, next)) : next.Balanced := by
  obtain ⟨account, haccount, rfl, hcase⟩ := reserve_eq_ok hreserve
  have hcleaned := h.expireHolds account.id now
  rcases hcase with ⟨row, -, -, rfl⟩ | ⟨hgrants, -, rfl⟩
  · exact hcleaned
  · obtain ⟨other, hother, hid, -⟩ := expireHolds_keeps haccount account.id now
    exact hcleaned.insertHold rfl ⟨other, hother, hid⟩ hgrants.unclaimed hgrants.fresh
      hgrants.reserved_lt

/-- An operation that fails changes nothing, and one that succeeds keeps the balance. -/
theorem Balanced.settled {α : Type} (h : ledger.Balanced) {next : α → Ledger}
    {outcome : Except StorageError α}
    (hok : ∀ result, outcome = .ok result → (next result).Balanced) :
    (ledger.settled next outcome).Balanced := by
  cases outcome with
  | ok result => exact hok result rfl
  | error _ => exact h

theorem balanced_step (env : Environment) (h : ledger.Balanced) (operation : Operation) :
    (ledger.step env operation).Balanced := by
  cases operation with
  | ensureAccount account =>
    simp only [step]
    exact h.settled fun next hnext ↦ h.ensureAccount hnext
  | setAccountStatus accountId status => exact h.settled fun next hnext ↦ h.setAccountStatus hnext
  | refreshAccountCapacity accountId snapshot now =>
    simp only [step]
    exact h.settled fun ⟨_, _⟩ hnext ↦ h.refreshAccountCapacity hnext
  | listAccounts providerId now => exact h
  | reserve accountId encodedHash bytes ttl uuid now clock =>
    simp only [step]
    exact h.settled fun ⟨_, _⟩ hnext ↦ h.reserve hnext
  | commit reservationId =>
    refine h.settled fun next hnext ↦ ?_
    obtain ⟨row, hrow, -, rfl⟩ := commit_eq_ok hnext
    split_ifs with hheld
    · exact h.commitHold hrow hheld
    · exact h
  | release reservationId =>
    refine h.settled fun next hnext ↦ ?_
    obtain ⟨row, hrow, -, rfl⟩ := release_eq_ok hnext
    split_ifs with hheld
    · exact h.releaseHold hrow hheld
    · exact h
  | recoverExpired now =>
    exact foldl_expireHold_invariant Balanced Balanced.expireHold h (fun row hrow ↦ mem_expiredHolds hrow)
      (ledger.expiredHolds_nodup now)

/-! ### The clamps and the room of an account -/

/-- No clamp to zero changes a value: not in `commit` and `release`, not in the expiry that `reserve`
begins with, and not in any round of `recover_expired`. -/
structure ClampsIdle (ledger : Ledger) : Prop where
  hold : ∀ account ∈ ledger.accounts, ∀ row ∈ ledger.reservations, row.accountId = account.id →
    row.state = .held → (row.bytes : ℤ) ≤ account.reservedBytes
  expiry : ∀ account ∈ ledger.accounts, ∀ now,
    ledger.expiredBytes account.id now ≤ account.reservedBytes
  recovery : ∀ now done row rest, ledger.expiredHolds now = done ++ row :: rest →
    ∀ account ∈ (done.foldl expireHold ledger).accounts, row.accountId = account.id →
      (row.bytes : ℤ) ≤ account.reservedBytes

theorem Balanced.bytes_le (h : ledger.Balanced) (haccount : account ∈ ledger.accounts)
    (hrow : row ∈ ledger.reservations) (hid : row.accountId = account.id)
    (hheld : row.state = .held) : (row.bytes : ℤ) ≤ account.reservedBytes := by
  rw [(h.sound account haccount).reserved_eq, ← hid, heldBytes, ← hheld]
  exact bytes_le_bytesIn hrow

theorem Balanced.clampsIdle (h : ledger.Balanced) : ledger.ClampsIdle where
  hold := fun _ haccount _ hrow hid hheld ↦ h.bytes_le haccount hrow hid hheld
  expiry := by
    intro account haccount now
    rw [expiredBytes_eq]
    exact h.selectedBytes_le haccount (ledger.selectsHoldsOf_isExpiredHold _ now)
  recovery := by
    intro now done row rest hrows account haccount hid
    have hnodup := ledger.expiredHolds_nodup now
    rw [hrows, map_append, map_cons, nodup_append] at hnodup
    obtain ⟨hdone, -, hdisjoint⟩ := hnodup
    have hexpired (other : ReservationRow) (hother : other ∈ done ++ row :: rest) :=
      mem_expiredHolds (hrows ▸ hother)
    have hbalanced := foldl_expireHold_invariant Balanced Balanced.expireHold h
      (fun other hother ↦ hexpired other (mem_append_left _ hother)) hdone
    obtain ⟨hrow, hheld⟩ := hexpired row (mem_append_right _ mem_cons_self)
    have hleft := mem_foldl_expireHold hrow fun hmem ↦ hdisjoint _ hmem _ mem_cons_self rfl
    exact hbalanced.bytes_le haccount hleft hid hheld

theorem room_of_le_available {reservedBytes bytes : ℤ} (hreserved : 0 ≤ reservedBytes)
    (hmargin : 0 ≤ account.safetyMarginBytes) (hbytes : 0 < bytes)
    (hfits : bytes ≤ available account reservedBytes) :
    account.usedBytes + (reservedBytes + bytes) + account.safetyMarginBytes ≤
      account.capacityBytes := by
  simp only [available, saturatingSub, i64Limit] at hfits
  omega

section

variable (h : ledger.Balanced) (haccount : account ∈ ledger.accounts)

include h haccount

theorem Balanced.reservedAfterExpiry_eq (now : ℤ) :
    reservedAfterExpiry account (ledger.expiredBytes account.id now) =
      account.reservedBytes - ledger.expiredBytes account.id now := by
  have hle := h.clampsIdle.expiry account haccount now
  have hlt := (h.sound account haccount).reserved_lt
  have hnonneg := ledger.expiredBytes_nonneg account.id now
  unfold reservedAfterExpiry saturatingSub
  split_ifs <;> omega

theorem Balanced.mem_expireHolds (now : ℤ) :
    { account with reservedBytes := account.reservedBytes - ledger.expiredBytes account.id now } ∈
      (ledger.expireHolds account.id now).accounts := by
  have hle := h.clampsIdle.expiry account haccount now
  have hnonneg := ledger.expiredBytes_nonneg account.id now
  unfold Ledger.expireHolds
  split_ifs with hpositive
  · simp only [unreserve, updateAccount, setState, mem_updateWhere]
    refine ⟨account, haccount, ?_⟩
    rw [if_pos (beq_self_eq_true _), max_eq_right (sub_nonneg.mpr hle)]
  · rw [le_antisymm (not_lt.mp hpositive) hnonneg, sub_zero]
    exact haccount

theorem Balanced.room (hrow : row.accountId = account.id) (hgrants : ledger.Grants account row now)
    (hbytes : 0 < row.bytes) {after : StorageAccount}
    (hafter : after ∈ ((ledger.expireHolds account.id now).insertHold row).accounts)
    (hid : after.id = account.id) :
    after.usedBytes + after.reservedBytes + after.safetyMarginBytes ≤ after.capacityBytes := by
  have hle := h.clampsIdle.expiry account haccount now
  have hfits := hgrants.fits
  rw [h.reservedAfterExpiry_eq haccount] at hfits
  have hroom := room_of_le_available (sub_nonneg.mpr hle) (h.sound account haccount).margin_nonneg
    (Int.natCast_pos.mpr hbytes) hfits
  simp only [Ledger.insertHold, updateAccount, mem_updateWhere] at hafter
  obtain ⟨old, hold, rfl⟩ := hafter
  have hold_id : old.id = account.id := by
    split_ifs at hid <;> exact hid
  rw [eq_of_key_eq hold (h.mem_expireHolds haccount now) hold_id, hrow,
    if_pos (beq_self_eq_true _)]
  exact hroom

end

/-! ### Every run -/

/-- The ledger after a sequence of operations. -/
def run (env : Environment) (operations : List Operation) : Ledger :=
  operations.foldl (step env) Ledger.empty

theorem balanced_run (env : Environment) (operations : List Operation) :
    (run env operations).Balanced :=
  (Reaches.refl.foldl (permitted_of_forall (fun _ _ ↦ trivial) _ operations)).invariant Balanced
    balanced_empty fun _ operation h _ ↦ balanced_step env h operation

theorem id_mem_of_mem_expireHolds (h : row ∈ (ledger.expireHolds accountId now).reservations) :
    ∃ old ∈ ledger.reservations, old.id = row.id := by
  unfold Ledger.expireHolds at h
  split_ifs at h
  · simp only [unreserve, updateAccount, setState, mem_updateWhere] at h
    obtain ⟨old, hold, rfl⟩ := h
    refine ⟨old, hold, ?_⟩
    split_ifs <;> rfl
  · exact ⟨row, h, rfl⟩

/-- **The ledger balances in every run.** Whatever operations are made, with whatever arguments and
at whatever times, the reserved bytes of every account are the bytes of its holds, so that no clamp
to zero ever changes a value; an account has at most one active reservation for a chunk; and a
`reserve` of a positive size that makes a new reservation leaves what is used, what is reserved and
the margin within the capacity. -/
theorem ledger_balanced (env : Environment) (operations : List Operation) :
    let ledger := run env operations
    (∀ account ∈ ledger.accounts, account.reservedBytes = ledger.heldBytes account.id) ∧
      ledger.ClampsIdle ∧
      (∀ first ∈ ledger.reservations, ∀ other ∈ ledger.reservations,
        first.state.isActive = true → other.state.isActive = true →
        first.accountId = other.accountId → first.encodedHash = other.encodedHash →
        first = other) ∧
      ∀ (accountId encodedHash : Text) (bytes ttl uuid : ℕ) (now clock : ℤ)
        (reservation : StorageReservation) (next : Ledger), 0 < bytes →
        ledger.reserve env accountId encodedHash bytes ttl uuid now clock =
          .ok (reservation, next) →
        (∃ row ∈ next.reservations, ∀ old ∈ ledger.reservations, old.id ≠ row.id) →
        ∀ account ∈ next.accounts, account.id = accountId →
          account.usedBytes + account.reservedBytes + account.safetyMarginBytes ≤
            account.capacityBytes := by
  intro ledger
  have hbalanced : ledger.Balanced := balanced_run env operations
  refine ⟨fun account haccount ↦ (hbalanced.sound account haccount).reserved_eq,
    hbalanced.clampsIdle, hbalanced.active_unique, ?_⟩
  intro accountId encodedHash bytes ttl uuid now clock reservation next hbytes hreserve hnew after
    hafter hid
  obtain ⟨account, haccount, rfl, hcase⟩ := reserve_eq_ok hreserve
  rcases hcase with ⟨row, -, -, rfl⟩ | ⟨hgrants, -, rfl⟩
  · obtain ⟨row, hrow, hfresh⟩ := hnew
    obtain ⟨old, hold, hsame⟩ := id_mem_of_mem_expireHolds hrow
    exact absurd hsame (hfresh old hold)
  · exact hbalanced.room haccount rfl hgrants hbytes hafter hid

/-- The identifiers that begin with thirty-one zeros, as texts. -/
def smallUuids : Environment where
  parseUuid := fun text ↦
    if text.take 35 = "00000000-0000-0000-0000-00000000000" then some (text.length - 35)
    else none
  uuidText := fun uuid ↦ "00000000-0000-0000-0000-00000000000" ++ List.replicate uuid '1'
  parse_text := by
    intro uuid
    have htake : ("00000000-0000-0000-0000-00000000000" ++ List.replicate uuid '1').take 35 =
        "00000000-0000-0000-0000-00000000000" := take_left' (by decide)
    have hlength : ("00000000-0000-0000-0000-00000000000" ++
        List.replicate uuid '1').length - 35 = uuid := by
      rw [length_append, length_replicate]
      have h35 : "00000000-0000-0000-0000-00000000000".toList.length = 35 := by decide
      omega
    rw [if_pos htake, hlength]
  hasChunk := fun _ ↦ true

def smallAccount : StorageAccountSnapshot where
  accountId := "mega-1"
  providerId := "mega"
  poolId := "mega"
  failureDomain := "mega"
  tier := .cold
  status := .active
  capacityBytes := 100
  usedBytes := 0
  reservedBytes := 0
  safetyMarginBytes := 10
  lastCapacityCheck := none

/-- A first reservation of 40 bytes in that account. -/
def smallReserve : Except StorageError (StorageReservation × Ledger) :=
  (run smallUuids [.ensureAccount smallAccount]).reserve smallUuids "mega-1"
    "c0" 40 3600000000 1 0 0

theorem ledger_balanced_smallReserve : ∃ reservation next, smallReserve = .ok (reservation, next) ∧
    ∀ account ∈ next.accounts, account.id = "mega-1" →
      account.usedBytes + account.reservedBytes + account.safetyMarginBytes ≤
        account.capacityBytes := by
  have hmade : (match smallReserve with
      | .ok (_, next) => next.reservations.rows.map ReservationRow.id
      | .error _ => []) = [1] := by decide
  cases hreserve : smallReserve with
  | error failure =>
    rw [hreserve] at hmade
    cases hmade
  | ok result =>
    obtain ⟨reservation, next⟩ := result
    rw [hreserve] at hmade
    have hnew : ∃ row ∈ next.reservations,
        ∀ old ∈ (run smallUuids [.ensureAccount smallAccount]).reservations, old.id ≠ row.id := by
      obtain ⟨row, hrow, -⟩ := exists_of_mem_map (hmade.symm ▸ mem_singleton_self 1)
      refine ⟨row, hrow, fun old hold ↦ ?_⟩
      cases hold
    exact ⟨reservation, next, rfl, (ledger_balanced smallUuids [.ensureAccount smallAccount]).2.2.2
      _ _ _ _ _ _ _ _ _ (by decide) hreserve hnew⟩

/-! ### The life of a reservation -/

/-- Every reservation is still there, with its account, its chunk, its bytes and its end, and its
state has changed only if it was held. -/
def KeptBy (ledger later : Ledger) : Prop :=
  ∀ row ∈ ledger.reservations, ∃ kept ∈ later.reservations,
    kept = { row with state := kept.state } ∧ (row.state ≠ .held → kept = row)

theorem KeptBy.refl (ledger : Ledger) : ledger.KeptBy ledger :=
  fun row hrow ↦ ⟨row, hrow, rfl, fun _ ↦ rfl⟩

theorem KeptBy.trans {later : Ledger} (h : ledger.KeptBy next) (hlater : next.KeptBy later) :
    ledger.KeptBy later := by
  intro row hrow
  obtain ⟨kept, hkept, hsame, hended⟩ := h row hrow
  obtain ⟨last, hlast, hlastSame, hlastEnded⟩ := hlater kept hkept
  refine ⟨last, hlast, by rw [hlastSame, hsame], fun hstate ↦ ?_⟩
  obtain rfl := hended hstate
  exact hlastEnded hstate

theorem keptBy_setState (hselects : ledger.SelectsHoldsOf accountId condition) :
    ledger.KeptBy (ledger.setState condition state) := by
  intro row hrow
  refine ⟨_, updated_mem hrow condition (fun row ↦ { row with state := state }) fun _ ↦ rfl, ?_⟩
  split_ifs with hcondition
  · exact ⟨rfl, fun hstate ↦ absurd (hselects row hrow hcondition).2 hstate⟩
  · exact ⟨rfl, fun _ ↦ rfl⟩

theorem keptBy_expireHolds (accountId : Text) (now : ℤ) :
    ledger.KeptBy (ledger.expireHolds accountId now) := by
  unfold expireHolds
  split_ifs
  · exact keptBy_setState (ledger.selectsHoldsOf_isExpiredHold accountId now)
  · exact .refl ledger

theorem keptBy_insertHold (hfresh : ledger.reservations.find row.id = none) :
    ledger.KeptBy (ledger.insertHold row) := by
  intro old hold
  exact ⟨old, mem_upsert.mpr (.inr ⟨hold, find_eq_none.mp hfresh old hold⟩), rfl, fun _ ↦ rfl⟩

theorem KeptBy.settled {α : Type} {next : α → Ledger} {outcome : Except StorageError α}
    (hok : ∀ result, outcome = .ok result → ledger.KeptBy (next result)) :
    ledger.KeptBy (ledger.settled next outcome) := by
  cases outcome with
  | ok result => exact hok result rfl
  | error _ => exact .refl ledger

theorem keptBy_step (env : Environment) (ledger : Ledger) (operation : Operation) :
    ledger.KeptBy (ledger.step env operation) := by
  cases operation with
  | ensureAccount account =>
    simp only [step]
    refine KeptBy.settled fun next hnext ↦ ?_
    obtain ⟨_, -, hnext⟩ := bind_eq_ok.mp hnext
    obtain ⟨_, -, hnext⟩ := bind_eq_ok.mp hnext
    cases hfind : ledger.accounts.find account.accountId with
    | none | some existing =>
      rw [hfind] at hnext
      cases hnext
      exact .refl ledger
  | setAccountStatus accountId status =>
    simp only [step]
    refine KeptBy.settled fun next hnext ↦ ?_
    unfold setAccountStatus at hnext
    split at hnext
    · cases hnext
    · cases hnext
      exact .refl ledger
  | refreshAccountCapacity accountId snapshot now =>
    simp only [step]
    refine KeptBy.settled ?_
    rintro ⟨_, next⟩ hnext
    simp only [refreshAccountCapacity, bind_eq_ok, pure_eq_ok, Prod.mk.injEq] at hnext
    obtain ⟨_, -, _, -, _, -, _, -, -, rfl⟩ := hnext
    exact .refl ledger
  | listAccounts providerId now => exact .refl ledger
  | reserve accountId encodedHash bytes ttl uuid now clock =>
    simp only [step]
    refine KeptBy.settled ?_
    rintro ⟨_, next⟩ hnext
    obtain ⟨account, -, rfl, ⟨_, -, -, rfl⟩ | ⟨hgrants, -, rfl⟩⟩ := reserve_eq_ok hnext
    · exact keptBy_expireHolds account.id now
    · exact (keptBy_expireHolds account.id now).trans (keptBy_insertHold hgrants.fresh)
  | commit reservationId =>
    simp only [step]
    refine KeptBy.settled fun next hnext ↦ ?_
    obtain ⟨row, hrow, -, rfl⟩ := commit_eq_ok hnext
    split_ifs with hheld
    · exact keptBy_setState (selectsHoldsOf_id hrow hheld)
    · exact .refl ledger
  | release reservationId =>
    simp only [step]
    refine KeptBy.settled fun next hnext ↦ ?_
    obtain ⟨row, hrow, -, rfl⟩ := release_eq_ok hnext
    split_ifs with hheld
    · exact keptBy_setState (selectsHoldsOf_id hrow hheld)
    · exact .refl ledger
  | recoverExpired now =>
    exact foldl_expireHold_invariant ledger.KeptBy
      (fun h hrow hheld ↦ h.trans (keptBy_setState (selectsHoldsOf_id hrow hheld)))
      (.refl ledger) (fun row hrow ↦ mem_expiredHolds hrow) (ledger.expiredHolds_nodup now)

/-- Whatever operations follow, a reservation is never lost or changed, and it ends at most once: a
reservation that was committed, released or expired stays so. -/
theorem reservations_end_once (env : Environment) (ledger : Ledger) (operations : List Operation) :
    ledger.KeptBy (operations.foldl (step env) ledger) :=
  (Reaches.refl.foldl (permitted_of_forall (fun _ _ ↦ trivial) _ operations)).invariant
    ledger.KeptBy (.refl ledger) fun _ operation h _ ↦ h.trans (keptBy_step env _ operation)

end Ledger

end GameLauncher.Capacity
