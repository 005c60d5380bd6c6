import GameLauncher.Capacity.LedgerRuns
import GameLauncher.Capacity.MemoryStore

/-!
# What a commit accounts for

Uploads reserve, commit and release, and a sweep expires what took too long. In both stores the used
bytes of an account are at any time those it started with and, once each, the bytes of its committed
reservations; this is `Credited` in Postgres and `Kept` in memory. `commit` reports success in every
state of the reservation, but it leaves a released or an expired one as it is, so that its success
says that the bytes are accounted for exactly when the reservation was held or committed before.
-/

set_option autoImplicit false

namespace GameLauncher.Capacity

open Foundation Fallible List InMemoryCapacityState Ledger Table Holding

/-- A call of an upload or of the sweep, with the times it reads and the identifier that a new
reservation would get in Postgres. -/
inductive ReservationCall
  | reserve (accountId encodedHash : Text) (bytes ttl uuid : ℕ) (now clock : ℤ)
  | commit (reservationId : Text)
  | release (reservationId : Text)
  | recoverExpired (now : ℤ)

/-! ### Postgres -/

variable {state : ReservationState} {calls : List ReservationCall} {reservationId : Text}

namespace Ledger

def ofCall : ReservationCall → Operation
  | .reserve accountId encodedHash bytes ttl uuid now clock =>
    .reserve accountId encodedHash bytes ttl uuid now clock
  | .commit reservationId => .commit reservationId
  | .release reservationId => .release reservationId
  | .recoverExpired now => .recoverExpired now

/-- The ledger after calls, from accounts without reservations. -/
def afterCalls (env : Environment) (accounts : Table StorageAccount StorageAccount.id)
    (calls : List ReservationCall) : Ledger :=
  calls.foldl (fun ledger call ↦ ledger.step env (ofCall call)) ⟨accounts, .empty⟩

def committedBytes (ledger : Ledger) (accountId : Text) : ℤ :=
  Holding.bytesIn ledger.reservations .committed accountId

/-- The used bytes of every account are those it had at the start and those of its committed
reservations. -/
structure Credited (start : Table StorageAccount StorageAccount.id) (ledger : Ledger) : Prop where
  used_eq : ∀ account ∈ ledger.accounts, ∃ old ∈ start, old.id = account.id ∧
    account.usedBytes = old.usedBytes + ledger.committedBytes account.id
  account_exists : ∀ row ∈ ledger.reservations, ∃ account ∈ ledger.accounts,
    account.id = row.accountId

variable {start : Table StorageAccount StorageAccount.id}

theorem credited_start : Credited start ⟨start, .empty⟩ where
  used_eq := fun account haccount ↦ ⟨account, haccount, rfl, (add_zero _).symm⟩
  account_exists := fun _ h ↦ nomatch h

variable {ledger : Ledger}

theorem SelectsHoldsOf.committedBytes_setState {accountId : Text}
    {condition : ReservationRow → Bool} (h : ledger.SelectsHoldsOf accountId condition)
    (state : ReservationState) (otherId : Text) :
    (ledger.setState condition state).committedBytes otherId = ledger.committedBytes otherId +
        if accountId = otherId ∧ state = .committed then ledger.selectedBytes condition accountId
        else 0 := by
  refine (h.selectsHolds.bytesIn_update state (fun _ ↦ rfl) .committed otherId).trans ?_
  rw [if_neg (nofun), sub_zero]
  by_cases haccount : accountId = otherId
  · subst haccount
    by_cases hstate : state = .committed
    · rw [if_pos hstate.symm, if_pos ⟨rfl, hstate⟩]
      rfl
    · rw [if_neg (Ne.symm hstate), if_neg fun hboth ↦ hstate hboth.2]
      rfl
  · have hnone : ∀ row ∈ ledger.reservations, condition row = true → row.accountId ≠ otherId :=
      fun row hrow hselected hid ↦ haccount ((h row hrow hselected).1.symm.trans hid)
    rw [selectedBytes_of_none hnone, ite_self,
      if_neg fun hboth : accountId = otherId ∧ _ ↦ haccount hboth.1]
    rfl

/-- A change of an account that adds bytes to what it uses. -/
structure Adds (bytes : ℤ) (change : StorageAccount → StorageAccount) : Prop where
  id : ∀ account, (change account).id = account.id
  used : ∀ account, (change account).usedBytes = account.usedBytes + bytes

theorem adds_unreserve (bytes : ℤ) :
    Adds 0 fun account ↦
      { account with reservedBytes := max 0 (account.reservedBytes - bytes) } where
  id := fun _ ↦ rfl
  used := fun _ ↦ (add_zero _).symm

theorem adds_commit (bytes : ℕ) :
    Adds bytes fun account ↦ { account with
      reservedBytes := max 0 (account.reservedBytes - bytes)
      usedBytes := account.usedBytes + bytes } where
  id := fun _ ↦ rfl
  used := fun _ ↦ rfl

theorem Credited.settle (h : Credited start ledger) {accountId : Text}
    {condition : ReservationRow → Bool} (hselects : ledger.SelectsHoldsOf accountId condition)
    {bytes : ℤ} {change : StorageAccount → StorageAccount} (hchange : Adds bytes change)
    (hbytes : bytes = if state = .committed then ledger.selectedBytes condition accountId else 0) :
    Credited start
      ((ledger.setState condition state).updateAccount accountId change hchange.id) := by
  refine ⟨fun account haccount ↦ ?_, fun row hrow ↦ ?_⟩
  · simp only [updateAccount, setState, mem_updateWhere] at haccount
    obtain ⟨new, hnew, rfl⟩ := haccount
    obtain ⟨old, hold, hold_id, hold_used⟩ := h.used_eq new hnew
    have hcommitted := hselects.committedBytes_setState state new.id
    by_cases hmatch : new.id = accountId
    · rw [if_pos (beq_iff_eq.mpr hmatch)]
      refine ⟨old, hold, hold_id.trans (hchange.id new).symm, ?_⟩
      change _ = _ + (ledger.setState condition state).committedBytes _
      rw [hchange.used, hchange.id, hcommitted, hold_used, hbytes]
      simp only [hmatch, true_and]
      exact Int.add_assoc _ _ _
    · rw [if_neg fun hbeq ↦ hmatch (beq_iff_eq.mp hbeq)]
      refine ⟨old, hold, hold_id, ?_⟩
      change _ = _ + (ledger.setState condition state).committedBytes _
      rw [hcommitted, if_neg fun hboth ↦ hmatch hboth.1.symm, add_zero, hold_used]
  · simp only [updateAccount, setState, mem_updateWhere] at hrow ⊢
    obtain ⟨old, hold, rfl⟩ := hrow
    obtain ⟨account, haccount, hmatch⟩ := h.account_exists old hold
    refine ⟨_, ⟨account, haccount, rfl⟩, ?_⟩
    split_ifs <;> simp only [hchange.id, hmatch]

variable {row : ReservationRow}

section

variable (h : Credited start ledger) (hrow : row ∈ ledger.reservations) (hheld : row.state = .held)

include h hrow hheld

theorem Credited.commitHold : Credited start (ledger.commitHold row) := by
  have hbytes : ledger.selectedBytes (fun other ↦ other.id == row.id) row.accountId = row.bytes :=
    selectedBytes_key hrow
  exact h.settle (selectsHoldsOf_id hrow hheld) (adds_commit _) hbytes.symm

theorem Credited.releaseHold : Credited start (ledger.releaseHold row) :=
  h.settle (selectsHoldsOf_id hrow hheld) (adds_unreserve _) rfl

theorem Credited.expireHold : Credited start (ledger.expireHold row) :=
  h.settle (selectsHoldsOf_id hrow hheld) (adds_unreserve _) rfl

end

theorem Credited.expireHolds (h : Credited start ledger) (accountId : Text) (now : ℤ) :
    Credited start (ledger.expireHolds accountId now) := by
  unfold Ledger.expireHolds
  split_ifs
  · exact h.settle (ledger.selectsHoldsOf_isExpiredHold accountId now) (adds_unreserve _) rfl
  · exact h

theorem Credited.insertHold (h : Credited start ledger) (hheld : row.state = .held)
    (hknown : ∃ account ∈ ledger.accounts, account.id = row.accountId)
    (hfresh : ledger.reservations.find row.id = none) : Credited start (ledger.insertHold row) := by
  have hcommitted (accountId : Text) :
      (ledger.insertHold row).committedBytes accountId = ledger.committedBytes accountId := by
    refine (bytesIn_upsert (find_eq_none.mp hfresh) .committed accountId).trans ?_
    have hnot : row.state ≠ .committed := fun heq ↦ nomatch hheld.symm.trans heq
    rw [if_neg fun hboth ↦ hnot hboth.2, zero_add]
    rfl
  refine ⟨fun account haccount ↦ ?_, fun other hother ↦ ?_⟩
  · simp only [Ledger.insertHold, updateAccount, mem_updateWhere] at haccount
    obtain ⟨new, hnew, rfl⟩ := haccount
    obtain ⟨old, hold, hold_id, hold_used⟩ := h.used_eq new hnew
    refine ⟨old, hold, ?_, ?_⟩
    · split_ifs <;> exact hold_id
    · rw [hcommitted]
      split_ifs <;> exact hold_used
  · have hexists : ∃ account ∈ ledger.accounts, account.id = other.accountId := by
      rcases mem_upsert.mp hother with rfl | ⟨hold, -⟩
      · exact hknown
      · exact h.account_exists other hold
    obtain ⟨account, haccount, hid⟩ := hexists
    simp only [Ledger.insertHold, updateAccount, mem_updateWhere]
    refine ⟨_, ⟨account, haccount, rfl⟩, ?_⟩
    split_ifs <;> exact hid

theorem credited_step (env : Environment) (h : Credited start ledger) (call : ReservationCall) :
    Credited start (ledger.step env (ofCall call)) := by
  have hsettled {α : Type} {next : α → Ledger} {outcome : Except StorageError α}
      (hok : ∀ result, outcome = .ok result → Credited start (next result)) :
      Credited start (ledger.settled next outcome) := by
    cases outcome with
    | ok result => exact hok result rfl
    | error _ => exact h
  cases call with
  | reserve accountId encodedHash bytes ttl uuid now clock =>
    simp only [ofCall, step]
    refine hsettled ?_
    rintro ⟨reservation, next⟩ hnext
    obtain ⟨account, haccount, rfl, hcase⟩ := reserve_eq_ok hnext
    have hcleaned := h.expireHolds account.id now
    rcases hcase with ⟨row, -, -, rfl⟩ | ⟨hgrants, -, rfl⟩
    · exact hcleaned
    · obtain ⟨other, hother, hid, -⟩ := expireHolds_keeps haccount account.id now
      exact hcleaned.insertHold rfl ⟨other, hother, hid⟩ hgrants.fresh
  | commit reservationId =>
    refine hsettled fun next hnext ↦ ?_
    obtain ⟨row, hrow, -, rfl⟩ := commit_eq_ok hnext
    split_ifs with hheld
    · exact h.commitHold hrow hheld
    · exact h
  | release reservationId =>
    refine hsettled fun next hnext ↦ ?_
    obtain ⟨row, hrow, -, rfl⟩ := release_eq_ok hnext
    split_ifs with hheld
    · exact h.releaseHold hrow hheld
    · exact h
  | recoverExpired now =>
    exact foldl_expireHold_invariant (Credited start) Credited.expireHold h
      (fun row hrow ↦ mem_expiredHolds hrow) (ledger.expiredHolds_nodup now)

theorem credited_afterCalls (env : Environment) (calls : List ReservationCall) :
    Credited start (afterCalls env start calls) :=
  (Reaches.refl.foldl (permitted_of_forall (fun _ _ ↦ trivial) _ calls)).invariant (Credited start)
    credited_start fun _ call h _ ↦ credited_step env h call

/-- The reservation is committed, and its account uses what it used at the start and the bytes of
its committed reservations, this one among them. -/
def Accounts (start : Table StorageAccount StorageAccount.id) (ledger : Ledger) (uuid : ℕ) : Prop :=
  ∃ row ∈ ledger.reservations, row.id = uuid ∧ row.state = .committed ∧
    ∃ account ∈ ledger.accounts, account.id = row.accountId ∧ ∃ old ∈ start, old.id = account.id ∧
        account.usedBytes = old.usedBytes + ledger.committedBytes account.id

theorem state_after_commit {after : ReservationRow} (hrow : row ∈ ledger.reservations)
    (hid : after.id = row.id)
    (hafter : after ∈ (if row.state = .held then ledger.commitHold row else ledger).reservations) :
    after.state = if row.state = .held then .committed else row.state := by
  split_ifs at hafter ⊢ with hheld
  · simp only [commitHold, updateAccount, setState, mem_updateWhere] at hafter
    obtain ⟨old, hold, rfl⟩ := hafter
    have hold_id : old.id = row.id := by
      split_ifs at hid <;> exact hid
    rw [if_pos (beq_iff_eq.mpr hold_id)]
  · rw [eq_of_key_eq hafter hrow hid]

theorem accounts_commit_iff {env : Environment} {next : Ledger}
    (hcommit : (afterCalls env start calls).commit env reservationId = .ok next) :
    ∃ row ∈ (afterCalls env start calls).reservations, env.parseUuid reservationId = some row.id ∧
      (Accounts start next row.id ↔ row.state = .held ∨ row.state = .committed) := by
  obtain ⟨row, hrow, hparse, hnext⟩ := commit_eq_ok hcommit
  have hcredited : Credited start next := by
    have hbefore : Credited start (afterCalls env start calls) := credited_afterCalls env calls
    have hstep := credited_step env hbefore (.commit reservationId)
    simp only [ofCall, step, hcommit] at hstep
    exact hstep
  refine ⟨row, hrow, hparse, ?_, fun hstate ↦ ?_⟩
  · rintro ⟨after, hafter, hid, hstate, -⟩
    have hcommitted := state_after_commit hrow hid (hnext ▸ hafter)
    rw [hstate] at hcommitted
    split_ifs at hcommitted with hheld
    · exact .inl hheld
    · exact .inr hcommitted.symm
  · obtain ⟨after, hafter, hid⟩ : ∃ after ∈ next.reservations, after.id = row.id := by
      rw [hnext]
      split_ifs
      · simp only [commitHold, updateAccount, setState, mem_updateWhere]
        refine ⟨_, ⟨row, hrow, rfl⟩, ?_⟩
        split_ifs <;> rfl
      · exact ⟨row, hrow, rfl⟩
    have hcommitted := state_after_commit hrow hid (hnext ▸ hafter)
    obtain ⟨account, haccount, haccount_id⟩ := hcredited.account_exists after hafter
    refine ⟨after, hafter, hid, ?_, account, haccount, haccount_id,
      hcredited.used_eq account haccount⟩
    rcases hstate with hheld | hdone
    · rw [hcommitted, if_pos hheld]
    · rw [hcommitted, hdone]
      rfl

end Ledger

/-! ### In memory -/

namespace InMemoryCapacityState

def step (memory : InMemoryCapacityState) : ReservationCall → InMemoryCapacityState
  | .reserve accountId encodedHash bytes ttl _ now clock =>
    (memory.reserve accountId encodedHash bytes ttl now clock).2
  | .commit reservationId => (memory.commit reservationId).2
  | .release reservationId => (memory.release reservationId).2
  | .recoverExpired now => (memory.recoverExpired now).2

/-- The store after calls, from accounts without reservations. -/
def afterCalls (accounts : Table StorageAccountSnapshot StorageAccountSnapshot.accountId)
    (calls : List ReservationCall) : InMemoryCapacityState :=
  calls.foldl step ⟨accounts, .empty, 0⟩

def committedBytes (memory : InMemoryCapacityState) (accountId : Text) : ℤ :=
  Holding.bytesIn memory.reservations .committed accountId

/-- The amounts of an account are unsigned 64-bit integers, it has reserved at least its holds, and
it can take them all without an overflow. -/
structure Solvent (memory : InMemoryCapacityState) (account : StorageAccountSnapshot) : Prop where
  capacity_lt : account.capacityBytes < u64Size
  reserved_lt : account.reservedBytes < u64Size
  held_le : memory.heldBytes account.accountId ≤ account.reservedBytes
  room : account.usedBytes + memory.heldBytes account.accountId < u64Size

/-- The used bytes of every account are those it had at the start and those of its committed
reservations, and the numbers of the reservations have been given out. -/
structure Kept (start : Table StorageAccountSnapshot StorageAccountSnapshot.accountId)
    (memory : InMemoryCapacityState) : Prop where
  used_eq : ∀ account ∈ memory.accounts, ∃ old ∈ start, old.accountId = account.accountId ∧
    (account.usedBytes : ℤ) = old.usedBytes + memory.committedBytes account.accountId
  solvent : ∀ account ∈ memory.accounts, memory.Solvent account
  account_exists : ∀ entry ∈ memory.reservations, ∃ account ∈ memory.accounts,
    account.accountId = entry.reservation.accountId
  numbered : ∀ entry ∈ memory.reservations, ∃ number ≤ memory.nextReservation,
    entry.id = memoryId number

/-- What an account may look like after holds of it ended: `selected` are their bytes. -/
structure Settles (memory : InMemoryCapacityState) (state : ReservationState) (selected : ℤ)
    (account after : StorageAccountSnapshot) : Prop where
  id : after.accountId = account.accountId
  capacity : after.capacityBytes = account.capacityBytes
  used : (after.usedBytes : ℤ) = account.usedBytes + if state = .committed then selected else 0
  reserved_lt : after.reservedBytes < u64Size
  held_le : memory.heldBytes account.accountId - selected ≤ after.reservedBytes

variable {start : Table StorageAccountSnapshot StorageAccountSnapshot.accountId}

variable {memory : InMemoryCapacityState}

theorem committedBytes_setState {condition : InMemoryReservation → Bool}
    (h : Holding.SelectsHolds memory.reservations condition) (state : ReservationState)
    (accountId : Text) :
    (memory.setState condition state).committedBytes accountId = memory.committedBytes accountId +
      if state = .committed then Holding.selectedBytes memory.reservations condition accountId
      else 0 := by
  refine (h.bytesIn_update state (fun _ ↦ rfl) .committed accountId).trans ?_
  rw [if_neg (nofun), sub_zero]
  simp only [eq_comm (a := ReservationState.committed)]
  rfl

theorem Kept.settle (h : Kept start memory) {condition : InMemoryReservation → Bool}
    (hselects : Holding.SelectsHolds memory.reservations condition) (hstate : state ≠ .held)
    {affected : StorageAccountSnapshot → Bool}
    {change : StorageAccountSnapshot → StorageAccountSnapshot}
    (hid : ∀ account, (change account).accountId = account.accountId)
    (hsettles : ∀ account ∈ memory.accounts, memory.Settles state
      (Holding.selectedBytes memory.reservations condition account.accountId) account
      (if affected account then change account else account)) :
    Kept start { memory.setState condition state with
      accounts := memory.accounts.updateWhere affected change hid } := by
  refine ⟨fun account haccount ↦ ?_, fun account haccount ↦ ?_, fun entry hentry ↦ ?_,
    fun entry hentry ↦ ?_⟩
  · simp only [mem_updateWhere] at haccount
    obtain ⟨old, hold, rfl⟩ := haccount
    obtain ⟨first, hfirst, hfirst_id, hfirst_used⟩ := h.used_eq old hold
    have hafter := hsettles old hold
    refine ⟨first, hfirst, hfirst_id.trans hafter.id.symm, ?_⟩
    change _ = _ + (memory.setState condition state).committedBytes _
    rw [hafter.used, hafter.id, committedBytes_setState hselects, hfirst_used]
    exact Int.add_assoc _ _ _
  · simp only [mem_updateWhere] at haccount
    obtain ⟨old, hold, rfl⟩ := haccount
    have hafter := hsettles old hold
    have hbefore := h.solvent old hold
    have hheld := heldBytes_setState hselects hstate old.accountId
    have hselected :=
      selectedBytes_nonneg memory.reservations condition old.accountId
    refine ⟨hafter.capacity ▸ hbefore.capacity_lt, hafter.reserved_lt, ?_, ?_⟩
    · change (memory.setState condition state).heldBytes _ ≤ _
      rw [hafter.id, hheld]
      exact hafter.held_le
    · change _ + (memory.setState condition state).heldBytes _ < _
      rw [hafter.id, hheld, hafter.used]
      have hroom := hbefore.room
      split_ifs <;> omega
  · obtain ⟨old, hold, rfl⟩ := mem_setState.mp hentry
    obtain ⟨account, haccount, hmatch⟩ := h.account_exists old hold
    refine ⟨_, updated_mem haccount affected change hid, ?_⟩
    rw [(hsettles account haccount).id, hmatch]
    split_ifs <;> rfl
  · obtain ⟨old, hold, rfl⟩ := mem_setState.mp hentry
    obtain ⟨number, hnumber, hnumbered⟩ := h.numbered old hold
    refine ⟨number, hnumber, ?_⟩
    rw [← hnumbered]
    split_ifs <;> rfl

theorem kept_start (hrange : ∀ account ∈ start, account.capacityBytes < u64Size ∧
    account.usedBytes < u64Size ∧ account.reservedBytes < u64Size) :
    Kept start ⟨start, .empty, 0⟩ where
  used_eq := fun account haccount ↦ ⟨account, haccount, rfl, (add_zero _).symm⟩
  solvent := by
    intro account haccount
    obtain ⟨hcapacity, hused, hreserved⟩ := hrange account haccount
    refine ⟨hcapacity, hreserved, Int.natCast_nonneg _, ?_⟩
    exact (add_zero (account.usedBytes : ℤ)).symm ▸ Int.ofNat_lt.mpr hused
  account_exists := fun _ h ↦ nomatch h
  numbered := fun _ h ↦ nomatch h

theorem Kept.expireLocked (h : Kept start memory) (now : ℤ) :
    Kept start (memory.expireLocked now).2 := by
  have hselects := memory.selectsHolds_isDue now
  have hended : ReservationState.expired ≠ .held := nofun
  refine h.settle hselects hended _ fun account haccount ↦ ?_
  have hsolvent := h.solvent account haccount
  have hselected := selectedBytes_nonneg memory.reservations (isDue now) account.accountId
  split_ifs
  · have hheld := heldBytes_setState hselects hended account.accountId
    have hnonneg : 0 ≤ (memory.setState (isDue now) .expired).heldBytes account.accountId :=
      bytesIn_nonneg _ _ _
    have hroom := hsolvent.room
    have hsize : 0 < u64Size := by decide
    refine ⟨rfl, rfl, (add_zero _).symm, Nat.mod_lt _ hsize, ?_⟩
    rw [← hheld, Nat.mod_eq_of_lt (by omega), Int.toNat_of_nonneg hnonneg]
  · have hheld := hsolvent.held_le
    exact ⟨rfl, rfl, (add_zero _).symm, hsolvent.reserved_lt, by omega⟩

variable {entry : InMemoryReservation}

section

variable (h : Kept start memory) (hentry : entry ∈ memory.reservations)
  (hheld : entry.state = .held)

include h hentry hheld

theorem Kept.settleHold (hstate : state ≠ .held)
    {change : StorageAccountSnapshot → StorageAccountSnapshot}
    (hid : ∀ account, (change account).accountId = account.accountId)
    (hsettles : ∀ account ∈ memory.accounts, account.accountId = entry.reservation.accountId →
      (entry.reservation.bytes : ℤ) ≤ memory.heldBytes account.accountId →
      memory.Settles state entry.reservation.bytes account (change account)) :
    Kept start ((memory.setState (fun other ↦ other.id == entry.id) state).updateAccount
      entry.reservation.accountId change hid) := by
  refine h.settle (selectsHolds_key hentry hheld) hstate _ fun account haccount ↦ ?_
  by_cases hmatch : account.accountId = entry.reservation.accountId
  · have hbytes : (entry.reservation.bytes : ℤ) ≤ memory.heldBytes account.accountId := by
      rw [hmatch, heldBytes, ← hheld]
      exact bytes_le_bytesIn hentry
    have hselected : Holding.selectedBytes memory.reservations (fun other ↦ other.id == entry.id)
        entry.reservation.accountId = entry.reservation.bytes :=
      selectedBytes_key hentry
    rw [if_pos (beq_iff_eq.mpr hmatch), hmatch, hselected]
    exact hsettles account haccount hmatch hbytes
  · have hsolvent := h.solvent account haccount
    have hne : Holding.account entry ≠ account.accountId := Ne.symm hmatch
    rw [if_neg fun hbeq ↦ hmatch (beq_iff_eq.mp hbeq), selectedBytes_key_of_ne hentry hne]
    exact {
      id := rfl
      capacity := rfl
      used := by rw [ite_self, add_zero]
      reserved_lt := hsolvent.reserved_lt
      held_le := by
        rw [sub_zero]
        exact hsolvent.held_le }

theorem Kept.commitHold : Kept start (memory.commitHold entry) := by
  have hended : ReservationState.committed ≠ .held := nofun
  refine h.settleHold hentry hheld hended _ fun account haccount hmatch hbytes ↦ ?_
  have hsolvent := h.solvent account haccount
  have hroom := hsolvent.room
  have hheld_le := hsolvent.held_le
  have hreserved := hsolvent.reserved_lt
  refine ⟨rfl, rfl, ?_, ?_, ?_⟩
  · rw [if_pos rfl]
    simp only [saturatingAdd]
    omega
  · dsimp only
    omega
  · dsimp only
    omega

theorem Kept.releaseHold : Kept start (memory.releaseHold entry) := by
  have hended : ReservationState.released ≠ .held := nofun
  refine h.settleHold hentry hheld hended _ fun account haccount hmatch hbytes ↦ ?_
  have hsolvent := h.solvent account haccount
  have hheld_le := hsolvent.held_le
  have hreserved := hsolvent.reserved_lt
  refine ⟨rfl, rfl, (add_zero _).symm, ?_, ?_⟩
  · dsimp only
    omega
  · dsimp only
    omega

end

theorem Kept.endHold (h : Kept start memory) {finish : InMemoryReservation → InMemoryCapacityState}
    (reservationId : Text)
    (hfinish : ∀ entry ∈ memory.reservations, entry.state = .held → Kept start (finish entry)) :
    Kept start (memory.endHold reservationId finish).2 := by
  unfold InMemoryCapacityState.endHold
  cases hfind : memory.reservations.find reservationId with
  | none => exact h
  | some entry =>
    dsimp only
    split_ifs with hheld
    · exact hfinish entry (find_eq_some.mp hfind).1 hheld
    · exact h

theorem Kept.insertHold (h : Kept start memory) {account : StorageAccountSnapshot}
    (haccount : account ∈ memory.accounts) {reservation : StorageReservation}
    (hid : reservation.accountId = account.accountId)
    (hfits : reservation.bytes ≤ account.usableFreeBytes) {number : ℕ}
    (hnumber : memory.nextReservation < number)
    (hreservation : reservation.reservationId = memoryId number) :
    Kept start ({ memory with nextReservation := number }.insertHold reservation) := by
  have hfresh : ∀ other ∈ memory.reservations,
      other.id ≠ (⟨reservation, .held⟩ : InMemoryReservation).id := by
    intro other hother heq
    obtain ⟨used, hused, hother_id⟩ := h.numbered other hother
    have hsame := memoryId_injective (hother_id.symm.trans (heq.trans hreservation))
    omega
  have hin (wanted : ReservationState) (accountId : Text) := bytesIn_upsert hfresh wanted
    accountId
  refine ⟨fun after hafter ↦ ?_, fun after hafter ↦ ?_, fun entry hentry ↦ ?_,
    fun entry hentry ↦ ?_⟩
  · simp only [InMemoryCapacityState.insertHold, updateAccount, mem_updateWhere] at hafter
    obtain ⟨old, hold, rfl⟩ := hafter
    obtain ⟨first, hfirst, hfirst_id, hfirst_used⟩ := h.used_eq old hold
    refine ⟨first, hfirst, ?_, ?_⟩
    · split_ifs <;> exact hfirst_id
    · have hcommitted := hin .committed old.accountId
      rw [if_neg (fun hboth ↦ by cases hboth.2), zero_add] at hcommitted
      split_ifs <;> exact hfirst_used.trans (congrArg _ hcommitted.symm)
  · simp only [InMemoryCapacityState.insertHold, updateAccount, mem_updateWhere] at hafter
    obtain ⟨old, hold, rfl⟩ := hafter
    have hsolvent := h.solvent old hold
    have hheld := hin .held old.accountId
    by_cases hmatch : old.accountId = reservation.accountId
    · obtain rfl : old = account := eq_of_key_eq hold haccount (hmatch.trans hid)
      rw [if_pos (beq_iff_eq.mpr hmatch)]
      have hcapacity := hsolvent.capacity_lt
      have hheld_le := hsolvent.held_le
      have hroom := hsolvent.room
      unfold StorageAccountSnapshot.usableFreeBytes at hfits
      refine ⟨hcapacity, ?_, ?_, ?_⟩
      · simp only [saturatingAdd]
        omega
      · refine hheld.le.trans ?_
        simp only [saturatingAdd, Holding.bytes]
        unfold heldBytes at hheld_le hroom
        omega
      · refine (congrArg (fun held ↦ (old.usedBytes : ℤ) + held) hheld).trans_lt ?_
        simp only [Holding.bytes]
        unfold heldBytes at hheld_le hroom
        omega
    · rw [if_neg fun hbeq ↦ hmatch (beq_iff_eq.mp hbeq)]
      rw [if_neg fun hboth ↦ hmatch hboth.1.symm, zero_add] at hheld
      exact ⟨hsolvent.capacity_lt, hsolvent.reserved_lt, hheld.le.trans hsolvent.held_le,
        (congrArg (fun held ↦ (old.usedBytes : ℤ) + held) hheld).trans_lt hsolvent.room⟩
  · have hexists : ∃ known ∈ memory.accounts, known.accountId = entry.reservation.accountId := by
      rcases mem_upsert.mp hentry with rfl | ⟨hold, -⟩
      · exact ⟨account, haccount, hid.symm⟩
      · exact h.account_exists entry hold
    obtain ⟨known, hknown, hknown_id⟩ := hexists
    simp only [InMemoryCapacityState.insertHold, updateAccount, mem_updateWhere]
    refine ⟨_, ⟨known, hknown, rfl⟩, ?_⟩
    split_ifs <;> exact hknown_id
  · rcases mem_upsert.mp hentry with rfl | ⟨hold, -⟩
    · exact ⟨number, le_rfl, hreservation⟩
    · obtain ⟨used, hused, hentry_id⟩ := h.numbered entry hold
      exact ⟨used, (hused.trans_lt hnumber).le, hentry_id⟩

theorem Kept.skipNumber (h : Kept start memory) {number : ℕ}
    (hnumber : memory.nextReservation ≤ number) :
    Kept start { memory with nextReservation := number } where
  used_eq := h.used_eq
  solvent := fun account haccount ↦
    have hsolvent := h.solvent account haccount
    ⟨hsolvent.capacity_lt, hsolvent.reserved_lt, hsolvent.held_le, hsolvent.room⟩
  account_exists := h.account_exists
  numbered := fun entry hentry ↦
    let ⟨used, hused, hentry_id⟩ := h.numbered entry hentry
    ⟨used, hused.trans hnumber, hentry_id⟩

theorem Kept.reserve (h : Kept start memory) (hnumbers : memory.nextReservation + 1 < u64Size)
    (accountId encodedHash : Text) (bytes ttl : ℕ) (now clock : ℤ) :
    Kept start (memory.reserve accountId encodedHash bytes ttl now clock).2 ∧
      (memory.reserve accountId encodedHash bytes ttl now clock).2.nextReservation ≤
        memory.nextReservation + 1 := by
  have hcleaned := h.expireLocked now
  have hnext : (memory.expireLocked now).2.nextReservation = memory.nextReservation := rfl
  have hnumber : saturatingAdd memory.nextReservation 1 = memory.nextReservation + 1 := by
    unfold saturatingAdd
    omega
  simp only [InMemoryCapacityState.reserve, hnext, hnumber]
  split
  · exact ⟨hcleaned, Nat.le_succ _⟩
  · split
    · exact ⟨hcleaned, Nat.le_succ _⟩
    · next account hfind =>
      obtain ⟨haccount, rfl⟩ := find_eq_some.mp hfind
      split
      · exact ⟨hcleaned, Nat.le_succ _⟩
      · next hcheck =>
        split
        · exact ⟨hcleaned.skipNumber (Nat.le_succ _), le_rfl⟩
        · exact ⟨hcleaned.insertHold haccount rfl (checkAvailable_eq_ok hcheck).2
            (Nat.lt_succ_self _) rfl, le_rfl⟩

theorem endHold_nextReservation {finish : InMemoryReservation → InMemoryCapacityState}
    (reservationId : Text)
    (hfinish : ∀ entry, (finish entry).nextReservation = memory.nextReservation) :
    (memory.endHold reservationId finish).2.nextReservation = memory.nextReservation := by
  unfold endHold
  split
  · rfl
  · dsimp only
    split_ifs
    · exact hfinish _
    · rfl

/-- Every call keeps the accounts and uses up at most one number. -/
theorem kept_step (h : Kept start memory) (hnumbers : memory.nextReservation + 1 < u64Size)
    (call : ReservationCall) :
    Kept start (memory.step call) ∧
      (memory.step call).nextReservation ≤ memory.nextReservation + 1 := by
  cases call with
  | reserve accountId encodedHash bytes ttl uuid now clock =>
    exact h.reserve hnumbers accountId encodedHash bytes ttl now clock
  | commit reservationId =>
    have hnext : (memory.commit reservationId).2.nextReservation = memory.nextReservation :=
      endHold_nextReservation reservationId fun _ ↦ rfl
    exact ⟨h.endHold reservationId fun entry hentry hheld ↦ h.commitHold hentry hheld,
      hnext.le.trans (Nat.le_succ _)⟩
  | release reservationId =>
    have hnext : (memory.release reservationId).2.nextReservation = memory.nextReservation :=
      endHold_nextReservation reservationId fun _ ↦ rfl
    exact ⟨h.endHold reservationId fun entry hentry hheld ↦ h.releaseHold hentry hheld,
      hnext.le.trans (Nat.le_succ _)⟩
  | recoverExpired now => exact ⟨h.expireLocked now, Nat.le_succ _⟩

theorem kept_foldl (h : Kept start memory)
    (hnumbers : memory.nextReservation + calls.length < u64Size) :
    Kept start (calls.foldl step memory) ∧
      (calls.foldl step memory).nextReservation ≤ memory.nextReservation + calls.length := by
  induction calls generalizing memory with
  | nil => exact ⟨h, le_rfl⟩
  | cons call rest ih =>
    rw [length_cons] at hnumbers
    obtain ⟨hstep, hnext⟩ := kept_step h (by omega) call
    obtain ⟨hrest, hrest_next⟩ := ih hstep (by omega)
    exact ⟨hrest, by rw [length_cons, foldl_cons]; omega⟩

theorem kept_afterCalls (hrange : ∀ account ∈ start, account.capacityBytes < u64Size ∧
    account.usedBytes < u64Size ∧ account.reservedBytes < u64Size) (hcalls : calls.length < u64Size)
    :
    Kept start (afterCalls start calls) ∧ (afterCalls start calls).nextReservation ≤ calls.length := by
  have hnumbers : 0 + calls.length < u64Size := (Nat.zero_add _).trans_lt hcalls
  obtain ⟨hkept, hnext⟩ := kept_foldl (kept_start hrange) hnumbers
  exact ⟨hkept, hnext.trans_eq (Nat.zero_add _)⟩

/-- The reservation is committed, and its account uses what it used at the start and the bytes of
its committed reservations, this one among them. -/
def Accounts (start : Table StorageAccountSnapshot StorageAccountSnapshot.accountId)
    (memory : InMemoryCapacityState) (reservationId : Text) : Prop :=
  ∃ entry ∈ memory.reservations, entry.id = reservationId ∧ entry.state = .committed ∧
    ∃ account ∈ memory.accounts, account.accountId = entry.reservation.accountId ∧
      ∃ old ∈ start, old.accountId = account.accountId ∧
        (account.usedBytes : ℤ) = old.usedBytes + memory.committedBytes account.accountId

theorem find_after_commit (hfind : memory.reservations.find reservationId = some entry) :
    (memory.commit reservationId).2.reservations.find reservationId =
      some (if entry.state = .held then { entry with state := .committed } else entry) := by
  simp only [commit, endHold, hfind]
  split_ifs with hheld
  · simp only [commitHold, updateAccount, setState, find_updateWhere, hfind, Option.map_some,
      beq_self_eq_true, if_true]
  · exact hfind

theorem accounts_commit_iff (h : Kept start memory)
    (hnumbers : memory.nextReservation + 1 < u64Size)
    (hcommit : (memory.commit reservationId).1 = .ok ()) :
    ∃ entry ∈ memory.reservations, entry.id = reservationId ∧
      (Accounts start (memory.commit reservationId).2 reservationId ↔
        entry.state = .held ∨ entry.state = .committed) := by
  have hkept := (kept_step h hnumbers (.commit reservationId)).1
  cases hfind : memory.reservations.find reservationId with
  | none =>
    simp only [commit, endHold, hfind] at hcommit
    cases hcommit
  | some entry =>
    obtain ⟨hentry, hid⟩ := find_eq_some.mp hfind
    have hafter := find_after_commit hfind
    obtain ⟨hafter_mem, hafter_id⟩ := find_eq_some.mp hafter
    refine ⟨entry, hentry, hid, ?_, fun hstate ↦ ?_⟩
    · rintro ⟨found, hfound, hfound_id, hstate, -⟩
      rw [eq_of_key_eq hfound hafter_mem (hfound_id.trans hafter_id.symm)] at hstate
      split_ifs at hstate with hheld
      · exact .inl hheld
      · exact .inr hstate
    · obtain ⟨account, haccount, haccount_id⟩ := hkept.account_exists _ hafter_mem
      refine ⟨_, hafter_mem, hafter_id, ?_, account, haccount, haccount_id,
        hkept.used_eq account haccount⟩
      split_ifs with hheld
      · rfl
      · exact hstate.resolve_left hheld

end InMemoryCapacityState

/-! ### When a successful commit is accounted for -/

/-- **A successful commit accounts for its reservation exactly when it was held or committed.** After
any calls on accounts without reservations, in Postgres and in memory: when `commit` reports success,
the reservation is committed and its bytes are in the used bytes of its account, once, if and only
if it was held or committed before the call. In memory, amounts are unsigned 64-bit integers and the
counter of reservations has not reached its end. -/
theorem commit_accounted_iff (env : Environment)
    (accounts : Table StorageAccount StorageAccount.id)
    (snapshots : Table StorageAccountSnapshot StorageAccountSnapshot.accountId)
    (calls : List ReservationCall) (reservationId : Text) :
    (∀ next, (afterCalls env accounts calls).commit env reservationId = .ok next →
      ∃ row ∈ (afterCalls env accounts calls).reservations,
        env.parseUuid reservationId = some row.id ∧
        (next.Accounts accounts row.id ↔ row.state = .held ∨ row.state = .committed)) ∧
    ((∀ account ∈ snapshots, account.capacityBytes < u64Size ∧ account.usedBytes < u64Size ∧
        account.reservedBytes < u64Size) →
      calls.length + 1 < u64Size →
      ((afterCalls snapshots calls).commit reservationId).1 = .ok () →
      ∃ entry ∈ (afterCalls snapshots calls).reservations, entry.id = reservationId ∧
        (((afterCalls snapshots calls).commit reservationId).2.Accounts
            snapshots reservationId ↔
          entry.state = .held ∨ entry.state = .committed)) := by
  refine ⟨fun next hcommit ↦ accounts_commit_iff hcommit, fun hrange hcalls hcommit ↦ ?_⟩
  obtain ⟨hkept, hnext⟩ := kept_afterCalls hrange (Nat.lt_of_succ_lt hcalls)
  exact accounts_commit_iff hkept
    ((Nat.add_le_add_right hnext 1).trans_lt hcalls) hcommit

/-- The account of 100 bytes, in Postgres. -/
def smallRows : Table StorageAccount StorageAccount.id :=
  (Ledger.run Ledger.smallUuids [.ensureAccount Ledger.smallAccount]).accounts

/-- The account of 100 bytes, in memory. -/
def smallSnapshots : Table StorageAccountSnapshot StorageAccountSnapshot.accountId :=
  Table.empty.upsert Ledger.smallAccount

/-- An upload of 40 bytes that may take one second. -/
def smallUpload : ReservationCall :=
  .reserve "mega-1" "c0" 40 1000000 1 0 0

/-- The identifier of that reservation in Postgres. -/
def smallReservation : Text := Ledger.smallUuids.uuidText 1

theorem commit_accounted_iff_smallUpload :
    (∃ next, (afterCalls smallUuids smallRows [smallUpload]).commit smallUuids
        smallReservation = .ok next ∧ next.Accounts smallRows 1) ∧
      ((afterCalls smallSnapshots [smallUpload]).commit
        (memoryId 1)).2.Accounts smallSnapshots
        (memoryId 1) := by
  have hiff := commit_accounted_iff smallUuids smallRows smallSnapshots [smallUpload]
  constructor
  · have hok : ((afterCalls smallUuids smallRows [smallUpload]).commit
        smallUuids smallReservation).isOk = true := by decide
    have hheld : ∀ row ∈ (afterCalls smallUuids smallRows
        [smallUpload]).reservations.rows, row.id = 1 ∧ row.state = .held := by decide
    cases hcommit : (afterCalls smallUuids smallRows [smallUpload]).commit
        smallUuids smallReservation with
    | error failure =>
      rw [hcommit] at hok
      cases hok
    | ok next =>
      obtain ⟨row, hrow, -, hrow_iff⟩ := (hiff smallReservation).1 next hcommit
      obtain ⟨hid, hstate⟩ := hheld row hrow
      exact ⟨next, rfl, hid ▸ hrow_iff.mpr (.inl hstate)⟩
  · have hrange : ∀ account ∈ smallSnapshots.rows, account.capacityBytes < u64Size ∧
        account.usedBytes < u64Size ∧ account.reservedBytes < u64Size := by decide
    have hok : ((afterCalls smallSnapshots [smallUpload]).commit
        (memoryId 1)).1 = .ok () := by decide
    have hheld : ∀ entry ∈ (afterCalls smallSnapshots
        [smallUpload]).reservations.rows, entry.state = .held := by decide
    obtain ⟨entry, hentry, -, hentry_iff⟩ :=
      (hiff (memoryId 1)).2 hrange (by decide) hok
    exact hentry_iff.mpr (.inl (hheld entry hentry))

/-- An upload that takes two seconds: the sweep expires its reservation before the commit, which
reports success all the same. -/
theorem commit_after_expiry_unaccounted :
    (∃ next, (afterCalls smallUuids smallRows
        [smallUpload, .recoverExpired 2000000]).commit smallUuids smallReservation =
          .ok next ∧ ¬ next.Accounts smallRows 1) ∧
      ((afterCalls smallSnapshots
          [smallUpload, .recoverExpired 2000000]).commit (memoryId 1)).1 =
        .ok () ∧
      ¬ ((afterCalls smallSnapshots
          [smallUpload, .recoverExpired 2000000]).commit
            (memoryId 1)).2.Accounts smallSnapshots
        (memoryId 1) := by
  refine ⟨?_, by decide, ?_⟩
  · have hexpired : (match (afterCalls smallUuids smallRows
        [smallUpload, .recoverExpired 2000000]).commit smallUuids smallReservation with
      | .ok next => next.reservations.rows.map ReservationRow.state
      | .error _ => []) = [.expired] := by decide
    cases hcommit : (afterCalls smallUuids smallRows
        [smallUpload, .recoverExpired 2000000]).commit smallUuids smallReservation with
    | error failure =>
      rw [hcommit] at hexpired
      cases hexpired
    | ok next =>
      simp only [hcommit] at hexpired
      refine ⟨next, rfl, fun ⟨row, hrow, _, hstate, _⟩ ↦ ?_⟩
      have hmem : row.state ∈ next.reservations.rows.map ReservationRow.state :=
        mem_map_of_mem hrow
      rw [hexpired, hstate] at hmem
      cases mem_singleton.mp hmem
  · rintro ⟨entry, hentry, -, hstate, -⟩
    have hexpired : ∀ entry ∈ ((afterCalls smallSnapshots
        [smallUpload, .recoverExpired 2000000]).commit
          (memoryId 1)).2.reservations.rows, entry.state = .expired := by
      decide
    exact nomatch hstate.symm.trans (hexpired entry hentry)

end GameLauncher.Capacity
