import GameLauncher.Foundation.Run
import GameLauncher.Jobs.JobQueue

/-!
# Leases on physical packs

`acquire_pack_lease` is a transaction of three statements: it deletes the leases that have passed,
looks for an active lease of the pack and, if there is none, inserts its own. The transactions of
several callers interleave statement by statement at the isolation level READ COMMITTED: a statement
sees the rows committed before it and the changes of its own transaction, and what a transaction has
written is visible to others from its commit on. Within a transaction `now()` is the time of its
start. The table has the lease identifier as its only key.

`packLease_exclusive` shows that a pack has at most one unexpired lease in every run in which no
transaction passes its look-up for a pack while another one that has passed it for the same pack is
still open.

A `DELETE` that waits for the lock of another one is not modelled: the runs here include those in
which it waits.
-/

set_option autoImplicit false

namespace GameLauncher.Jobs.PackLeases

open Foundation List Table

/-! ### Statements and transactions -/

/-- A row of `pack_leases`. -/
structure PackLease where
  packHash : Text
  leaseId : ℕ
  owner : Text
  expiresAt : ℤ
  deriving DecidableEq, Repr

/-- How far a transaction of `acquire_pack_lease` has come. -/
inductive Phase
  | begun
  | cleaned
  | checked
  | inserted (lease : PackLease)
  deriving DecidableEq, Repr

/-- An open transaction of `acquire_pack_lease`, with the rows it has deleted. -/
structure Transaction where
  id : ℕ
  packHash : Text
  owner : Text
  leaseSeconds : ℤ
  startedAt : ℤ
  deleted : List PackLease
  phase : Phase
  deriving DecidableEq, Repr

/-- The committed rows, the open transactions and the time. -/
structure State where
  rows : Table PackLease PackLease.leaseId
  transactions : Table Transaction Transaction.id
  clock : ℤ

/-- No lease and no transaction. -/
def State.empty : State := ⟨.empty, .empty, 0⟩

/-- A statement of some caller, the end of a transaction, or the passing of time. -/
inductive Action
  | begin (transaction : ℕ) (packHash owner : Text) (leaseSeconds : ℤ)
  | deleteExpired (transaction : ℕ)
  | check (transaction : ℕ)
  | insert (transaction leaseId : ℕ)
  | commit (transaction : ℕ)
  | rollback (transaction : ℕ)
  | release (leaseId : ℕ)
  | expire
  | wait (duration : ℕ)
  deriving DecidableEq, Repr

namespace State

/-- The rows after a transaction's deletions. -/
def withoutDeleted (state : State) (transaction : Transaction) :
    Table PackLease PackLease.leaseId :=
  state.rows.deleteWhere fun row ↦ transaction.deleted.contains row

/-- The transaction has ended. -/
def close (state : State) (transaction : ℕ) : State :=
  { state with transactions := state.transactions.deleteWhere fun other ↦ other.id == transaction }

/-- The transaction goes on. -/
def advance (state : State) (transaction : ℕ) (deleted : List PackLease) (phase : Phase) : State :=
  { state with
    transactions := state.transactions.updateWhere (fun other ↦ other.id == transaction)
      (fun other ↦ { other with deleted := deleted, phase := phase }) fun _ ↦ rfl }

/-- The look-up of `acquire_pack_lease`: an active lease of the pack among the rows it sees. -/
def hasActiveLease (state : State) (transaction : Transaction) : Bool :=
  (state.withoutDeleted transaction).rows.any fun row ↦
    row.packHash == transaction.packHash && decide (transaction.startedAt < row.expiresAt)

/-- The lease that `acquire_pack_lease` inserts. -/
def newLease (transaction : Transaction) (leaseId : ℕ) : PackLease where
  packHash := transaction.packHash
  leaseId := leaseId
  owner := transaction.owner
  expiresAt := transaction.startedAt + max transaction.leaseSeconds 1 * second

/-- One statement. A statement that does not come next in its transaction does nothing; one that
breaks the primary key ends its transaction. -/
def step (state : State) : Action → State
  | .begin id packHash owner leaseSeconds =>
    if (state.transactions.find id).isNone then
      { state with
        transactions := state.transactions.upsert
          ⟨id, packHash, owner, leaseSeconds, state.clock, [], .begun⟩ }
    else state
  | .deleteExpired id =>
    match state.transactions.find id with
    | some transaction =>
      if transaction.phase = .begun then
        state.advance id (state.rows.rows.filter fun row ↦
          row.expiresAt ≤ transaction.startedAt) .cleaned
      else state
    | none => state
  | .check id =>
    match state.transactions.find id with
    | some transaction =>
      if transaction.phase = .cleaned then
        if state.hasActiveLease transaction then
          { state.close id with rows := state.withoutDeleted transaction }
        else state.advance id transaction.deleted .checked
      else state
    | none => state
  | .insert id leaseId =>
    match state.transactions.find id with
    | some transaction =>
      if transaction.phase = .checked then
        if (state.rows.find leaseId).isSome then state.close id
        else state.advance id transaction.deleted (.inserted (newLease transaction leaseId))
      else state
    | none => state
  | .commit id =>
    match state.transactions.find id with
    | some transaction =>
      match transaction.phase with
      | .inserted lease =>
        if (state.rows.find lease.leaseId).isSome then state.close id
        else { state.close id with rows := (state.withoutDeleted transaction).upsert lease }
      | _ => state
    | none => state
  | .rollback id => state.close id
  | .release leaseId =>
    { state with rows := state.rows.deleteWhere fun row ↦ row.leaseId == leaseId }
  | .expire => { state with rows := state.rows.deleteWhere fun row ↦ row.expiresAt ≤ state.clock }
  | .wait duration => { state with clock := state.clock + duration }

end State

/-! ### Exclusion -/

/-- The transaction has found no active lease and has not ended. -/
def Transaction.Passed (transaction : Transaction) : Prop :=
  transaction.phase ≠ .begun ∧ transaction.phase ≠ .cleaned

/-- A look-up that is made while no other transaction for the pack has passed its own. -/
def ChecksApart (state : State) : Action → Prop
  | .check id => ∀ transaction ∈ state.transactions, transaction.id = id →
      ∀ other ∈ state.transactions, other.Passed → other.packHash ≠ transaction.packHash
  | _ => True

/-- At most one unexpired lease for each pack. -/
def OneLease (state : State) : Prop :=
  ∀ first ∈ state.rows, ∀ other ∈ state.rows, first.packHash = other.packHash →
    state.clock < first.expiresAt → state.clock < other.expiresAt → first = other

/-- The invariant: a transaction that has passed its look-up is the only one for its pack, and the
pack has no unexpired lease. -/
structure Exclusive (state : State) : Prop where
  one_lease : OneLease state
  started_le : ∀ transaction ∈ state.transactions, transaction.startedAt ≤ state.clock
  passed_unique : ∀ first ∈ state.transactions, ∀ other ∈ state.transactions, first.Passed →
    other.Passed → first.packHash = other.packHash → first = other
  passed_clear : ∀ transaction ∈ state.transactions, transaction.Passed → ∀ row ∈ state.rows,
    row.packHash = transaction.packHash → row.expiresAt ≤ state.clock
  deleted_expired : ∀ transaction ∈ state.transactions, ∀ row ∈ transaction.deleted,
    row.expiresAt ≤ transaction.startedAt
  inserted_pack : ∀ transaction ∈ state.transactions, ∀ lease,
    transaction.phase = .inserted lease → lease.packHash = transaction.packHash

variable {state next : State}

theorem exclusive_empty : Exclusive .empty where
  one_lease := fun _ h ↦ absurd h not_mem_nil
  started_le := fun _ h ↦ absurd h not_mem_nil
  passed_unique := fun _ h ↦ absurd h not_mem_nil
  passed_clear := fun _ h ↦ absurd h not_mem_nil
  deleted_expired := fun _ h ↦ absurd h not_mem_nil
  inserted_pack := fun _ h ↦ absurd h not_mem_nil

/-- A step that adds no row and lets no transaction pass its look-up keeps the invariant. -/
theorem Exclusive.of_fewer (h : Exclusive state) (hclock : state.clock ≤ next.clock)
    (hrows : ∀ row ∈ next.rows, row ∈ state.rows)
    (htransactions : ∀ after ∈ next.transactions, after.startedAt ≤ next.clock ∧
      (∀ row ∈ after.deleted, row.expiresAt ≤ after.startedAt) ∧
      (∀ lease, after.phase = .inserted lease → lease.packHash = after.packHash) ∧
      (after.Passed → ∃ transaction ∈ state.transactions, transaction.Passed ∧
        transaction.id = after.id ∧ transaction.packHash = after.packHash)) :
    Exclusive next where
  one_lease := fun first hfirst other hother hpack hfirstOpen hotherOpen ↦
    h.one_lease first (hrows first hfirst) other (hrows other hother) hpack
      (hclock.trans_lt hfirstOpen) (hclock.trans_lt hotherOpen)
  started_le := fun transaction htransaction ↦ (htransactions transaction htransaction).1
  passed_unique := by
    intro first hfirst other hother hfirstPassed hotherPassed hpack
    obtain ⟨before, hbefore, hpassed, hid, hsame⟩ :=
      (htransactions first hfirst).2.2.2 hfirstPassed
    obtain ⟨before', hbefore', hpassed', hid', hsame'⟩ :=
      (htransactions other hother).2.2.2 hotherPassed
    have heq := h.passed_unique before hbefore before' hbefore' hpassed hpassed'
      (hsame.trans (hpack.trans hsame'.symm))
    exact eq_of_key_eq hfirst hother (hid.symm.trans ((congrArg Transaction.id heq).trans hid'))
  passed_clear := by
    intro transaction htransaction hpassed row hrow hpack
    obtain ⟨before, hbefore, hbeforePassed, -, hsame⟩ :=
      (htransactions transaction htransaction).2.2.2 hpassed
    exact (h.passed_clear before hbefore hbeforePassed row (hrows row hrow)
      (hpack.trans hsame.symm)).trans hclock
  deleted_expired := fun transaction htransaction ↦ (htransactions transaction htransaction).2.1
  inserted_pack := fun transaction htransaction ↦ (htransactions transaction htransaction).2.2.1

variable {transaction : Transaction}

theorem Exclusive.transaction_kept (h : Exclusive state) (hclock : state.clock ≤ next.clock)
    (htransaction : transaction ∈ state.transactions) :
    transaction.startedAt ≤ next.clock ∧
      (∀ row ∈ transaction.deleted, row.expiresAt ≤ transaction.startedAt) ∧
      (∀ lease, transaction.phase = .inserted lease → lease.packHash = transaction.packHash) ∧
      (transaction.Passed → ∃ before ∈ state.transactions, before.Passed ∧
        before.id = transaction.id ∧ before.packHash = transaction.packHash) :=
  ⟨(h.started_le transaction htransaction).trans hclock,
    h.deleted_expired transaction htransaction, h.inserted_pack transaction htransaction,
    fun hpassed ↦ ⟨transaction, htransaction, hpassed, rfl, rfl⟩⟩

theorem Exclusive.close (h : Exclusive state) (id : ℕ) : Exclusive (state.close id) :=
  h.of_fewer le_rfl (fun _ hrow ↦ hrow) fun _ hafter ↦
    h.transaction_kept le_rfl (mem_deleteWhere.mp hafter).1

theorem Exclusive.of_rows (h : Exclusive state) {rows : Table PackLease PackLease.leaseId}
    (hrows : ∀ row ∈ rows, row ∈ state.rows) : Exclusive { state with rows := rows } :=
  h.of_fewer le_rfl hrows fun _ hafter ↦ h.transaction_kept le_rfl hafter

theorem mem_advance {id : ℕ} {deleted : List PackLease} {phase : Phase} {after : Transaction}
    (h : after ∈ (state.advance id deleted phase).transactions) :
    after ∈ state.transactions ∧ after.id ≠ id ∨ ∃ transaction ∈ state.transactions,
      transaction.id = id ∧ after = { transaction with deleted := deleted, phase := phase } := by
  simp only [State.advance, mem_updateWhere] at h
  obtain ⟨transaction, htransaction, rfl⟩ := h
  by_cases hid : transaction.id = id
  · exact .inr ⟨transaction, htransaction, hid, by rw [if_pos (beq_iff_eq.mpr hid)]⟩
  · rw [if_neg fun hbeq ↦ hid (beq_iff_eq.mp hbeq)]
    exact .inl ⟨htransaction, hid⟩

section

variable (h : Exclusive state) (htransaction : transaction ∈ state.transactions)

include h htransaction

theorem Exclusive.advance {id : ℕ} {deleted : List PackLease} {phase : Phase}
    (hid : transaction.id = id) (hdeleted : ∀ row ∈ deleted, row.expiresAt ≤ transaction.startedAt)
    (hpassed : phase ≠ .begun ∧ phase ≠ .cleaned → transaction.Passed)
    (hpack : ∀ lease, phase = .inserted lease → lease.packHash = transaction.packHash) :
    Exclusive (state.advance id deleted phase) := by
  refine h.of_fewer le_rfl (fun _ hrow ↦ hrow) fun after hafter ↦ ?_
  rcases mem_advance hafter with ⟨hkept, -⟩ | ⟨before, hbefore, hbeforeId, rfl⟩
  · exact h.transaction_kept le_rfl hkept
  · obtain rfl : before = transaction :=
      eq_of_key_eq hbefore htransaction (hbeforeId.trans hid.symm)
    exact ⟨h.started_le before hbefore, hdeleted, hpack,
      fun hafterPassed ↦ ⟨before, hbefore, hpassed hafterPassed, rfl, rfl⟩⟩

theorem Exclusive.pass
    (hactive : state.hasActiveLease transaction = false)
    (hapart : ∀ other ∈ state.transactions, other.Passed → other.packHash ≠ transaction.packHash) :
    Exclusive (state.advance transaction.id transaction.deleted .checked) := by
  have hclear (row : PackLease) (hrow : row ∈ state.rows)
      (hpack : row.packHash = transaction.packHash) : row.expiresAt ≤ state.clock := by
    by_cases hgone : transaction.deleted.contains row = true
    · exact (h.deleted_expired transaction htransaction row (contains_iff_mem.mp hgone)).trans
        (h.started_le transaction htransaction)
    · have hvisible : row ∈ state.withoutDeleted transaction :=
        mem_deleteWhere.mpr ⟨hrow, Bool.eq_false_iff.mpr hgone⟩
      have hnot := any_eq_false.mp hactive row hvisible
      simp only [Bool.and_eq_true, beq_iff_eq, decide_eq_true_eq, not_and, not_lt] at hnot
      exact (hnot hpack).trans (h.started_le transaction htransaction)
  have hself {other : Transaction} (hother : other ∈ state.transactions)
      (hid : other.id = transaction.id) : other = transaction :=
    eq_of_key_eq hother htransaction hid
  refine ⟨h.one_lease, fun after hafter ↦ ?_, fun first hfirst other hother hfirstPassed
    hotherPassed hpack ↦ ?_, fun after hafter hpassed row hrow hpack ↦ ?_,
    fun after hafter ↦ ?_, fun after hafter lease hlease ↦ ?_⟩
  · rcases mem_advance hafter with ⟨hkept, -⟩ | ⟨before, hbefore, -, rfl⟩
    · exact h.started_le after hkept
    · exact h.started_le before hbefore
  · rcases mem_advance hfirst with ⟨hfirstKept, hfirstId⟩ | ⟨before, hbefore, hid, rfl⟩ <;>
      rcases mem_advance hother with ⟨hotherKept, hotherId⟩ | ⟨before', hbefore', hid', rfl⟩
    · exact h.passed_unique first hfirstKept other hotherKept hfirstPassed hotherPassed hpack
    · obtain rfl := hself hbefore' hid'
      exact absurd hpack (hapart first hfirstKept hfirstPassed)
    · obtain rfl := hself hbefore hid
      exact absurd hpack.symm (hapart other hotherKept hotherPassed)
    · rw [hself hbefore hid, hself hbefore' hid']
  · rcases mem_advance hafter with ⟨hkept, -⟩ | ⟨before, hbefore, hid, rfl⟩
    · exact h.passed_clear after hkept hpassed row hrow hpack
    · obtain rfl := hself hbefore hid
      exact hclear row hrow hpack
  · rcases mem_advance hafter with ⟨hkept, -⟩ | ⟨before, hbefore, hid, rfl⟩
    · exact h.deleted_expired after hkept
    · rw [hself hbefore hid]
      exact h.deleted_expired transaction htransaction
  · rcases mem_advance hafter with ⟨hkept, -⟩ | ⟨before, hbefore, -, rfl⟩
    · exact h.inserted_pack after hkept lease hlease
    · cases hlease

theorem Exclusive.commit {lease : PackLease} (hphase : transaction.phase = .inserted lease) :
    Exclusive { state.close transaction.id with
      rows := (state.withoutDeleted transaction).upsert lease } := by
  have hpassed : transaction.Passed := by simp [Transaction.Passed, hphase]
  have hpack := h.inserted_pack transaction htransaction lease hphase
  have hold {row : PackLease} (hrow : row ∈ (state.withoutDeleted transaction).upsert lease) :
      row = lease ∨ row ∈ state.rows := by
    rcases mem_upsert.mp hrow with rfl | ⟨hkept, -⟩
    · exact .inl rfl
    · exact .inr (mem_deleteWhere.mp hkept).1
  have hexpired {row : PackLease} (hrow : row ∈ state.rows)
      (hsame : row.packHash = lease.packHash) : row.expiresAt ≤ state.clock :=
    h.passed_clear transaction htransaction hpassed row hrow (hsame.trans hpack)
  have hopen {after : Transaction} (hafter : after ∈ (state.close transaction.id).transactions) :
      after ∈ state.transactions ∧ after.id ≠ transaction.id := by
    obtain ⟨hmem, hne⟩ := mem_deleteWhere.mp hafter
    exact ⟨hmem, fun hid ↦ by rw [hid, beq_self_eq_true] at hne; cases hne⟩
  refine ⟨fun first hfirst other hother hsame hfirstOpen hotherOpen ↦ ?_,
    fun after hafter ↦ h.started_le after (hopen hafter).1,
    fun first hfirst other hother ↦ h.passed_unique first (hopen hfirst).1 other (hopen hother).1,
    fun after hafter hafterPassed row hrow hsame ↦ ?_,
    fun after hafter ↦ h.deleted_expired after (hopen hafter).1,
    fun after hafter ↦ h.inserted_pack after (hopen hafter).1⟩
  · rcases hold hfirst with rfl | hfirstOld <;> rcases hold hother with rfl | hotherOld
    · rfl
    · exact absurd hotherOpen (not_lt.mpr (hexpired hotherOld hsame.symm))
    · exact absurd hfirstOpen (not_lt.mpr (hexpired hfirstOld hsame))
    · exact h.one_lease first hfirstOld other hotherOld hsame hfirstOpen hotherOpen
  · rcases hold hrow with rfl | hrowOld
    · -- another transaction of the pack cannot have passed its look-up
      have heq := h.passed_unique after (hopen hafter).1 transaction htransaction hafterPassed
        hpassed (hsame.symm.trans hpack)
      exact absurd (congrArg Transaction.id heq) (hopen hafter).2
    · exact h.passed_clear after (hopen hafter).1 hafterPassed row hrowOld hsame

end

/-- Every statement keeps the invariant, if look-ups for one pack are made apart. -/
theorem exclusive_step (h : Exclusive state) {action : Action} (hapart : ChecksApart state action) :
    Exclusive (state.step action) := by
  cases action with
  | begin id packHash owner leaseSeconds =>
    simp only [State.step]
    split_ifs
    · refine h.of_fewer le_rfl (fun _ hrow ↦ hrow) fun after hafter ↦ ?_
      rcases mem_upsert.mp hafter with rfl | ⟨hkept, -⟩
      · exact ⟨le_rfl, fun _ hrow ↦ absurd hrow not_mem_nil, fun _ hlease ↦ (by cases hlease),
          fun hpassed ↦ absurd rfl hpassed.1⟩
      · exact h.transaction_kept le_rfl hkept
    · exact h
  | deleteExpired id =>
    simp only [State.step]
    split
    · next transaction hfind =>
      obtain ⟨hmem, hid⟩ := find_eq_some.mp hfind
      split_ifs
      · refine h.advance hmem hid (fun row hrow ↦ ?_) (fun hpassed ↦ absurd rfl hpassed.2)
          fun _ hlease ↦ (by cases hlease)
        exact of_decide_eq_true (mem_filter.mp hrow).2
      · exact h
    · exact h
  | check id =>
    simp only [State.step]
    split
    · next transaction hfind =>
      obtain ⟨hmem, rfl⟩ := find_eq_some.mp hfind
      split_ifs with hphase hactive
      · exact (h.close transaction.id).of_rows fun row hrow ↦ (mem_deleteWhere.mp hrow).1
      · exact h.pass hmem (Bool.eq_false_iff.mpr hactive) (hapart transaction hmem rfl)
      · exact h
    · exact h
  | insert id leaseId =>
    simp only [State.step]
    split
    · next transaction hfind =>
      obtain ⟨hmem, hid⟩ := find_eq_some.mp hfind
      split_ifs with hphase hused
      · exact h.close id
      · refine h.advance hmem hid (h.deleted_expired transaction hmem)
          (fun _ ↦ by simp [Transaction.Passed, hphase]) fun lease hlease ↦ ?_
        rw [← Phase.inserted.inj hlease]
        rfl
      · exact h
    · exact h
  | commit id =>
    simp only [State.step]
    split
    · next transaction hfind =>
      obtain ⟨hmem, rfl⟩ := find_eq_some.mp hfind
      split
      · next lease hphase =>
        split_ifs
        · exact h.close transaction.id
        · exact h.commit hmem hphase
      · exact h
    · exact h
  | rollback id => exact h.close id
  | release _ | expire => exact h.of_rows fun row hrow ↦ (mem_deleteWhere.mp hrow).1
  | wait duration =>
    have hclock : state.clock ≤ (state.step (.wait duration)).clock :=
      Int.le_add_of_nonneg_right (Int.natCast_nonneg duration)
    exact h.of_fewer hclock (fun _ hrow ↦ hrow) fun _ hafter ↦ h.transaction_kept hclock hafter

/-- In every run in which look-ups for one pack are made apart, a pack has at most one unexpired
lease at every moment. -/
theorem packLease_exclusive (h : Reaches State.step ChecksApart State.empty state) :
    OneLease state :=
  (Reaches.invariant Exclusive exclusive_empty (fun _ _ hstate ↦ exclusive_step hstate) h).one_lease

/-- The statements with which a transaction gets a lease of a pack. -/
def acquire (transaction leaseId : ℕ) : List Action :=
  [.begin transaction "pack" "worker" 3600, .deleteExpired transaction,
    .check transaction, .insert transaction leaseId, .commit transaction]

theorem packLease_exclusive_acquired : OneLease ((acquire 1 1).foldl State.step State.empty) := by
  refine packLease_exclusive (.foldl .refl ⟨trivial, trivial, ?_, trivial, trivial, trivial⟩)
  · intro transaction htransaction _ other hother hpassed
    have hphase : (((State.empty.step (.begin 1 "pack" "worker" 3600)).step
        (.deleteExpired 1)).transactions.rows.all fun other ↦ other.phase == .cleaned) = true := by
      decide
    exact absurd (beq_iff_eq.mp (all_eq_true.mp hphase other hother)) hpassed.2

/-- Two callers, each of which looks for a lease before the other one commits. -/
def overlapping : List Action :=
  [.begin 1 "pack" "first" 3600, .begin 2 "pack" "other" 3600,
    .deleteExpired 1, .deleteExpired 2, .check 1, .check 2, .insert 1 1, .insert 2 2,
    .commit 1, .commit 2]

/-- Both callers hold the lease. -/
theorem packLease_twice :
    ¬ ∀ state, Reaches State.step (fun _ _ ↦ True) State.empty state → OneLease state := by
  intro hall
  have hone := hall _ (.foldl .refl (permitted_of_forall (fun _ _ ↦ trivial) _ overlapping))
  have hfirst : (⟨"pack", 1, "first", 3600 * second⟩ : PackLease) ∈
      (overlapping.foldl State.step State.empty).rows := mem_iff.mpr (by decide)
  have hother : (⟨"pack", 2, "other", 3600 * second⟩ : PackLease) ∈
      (overlapping.foldl State.step State.empty).rows := mem_iff.mpr (by decide)
  have heq := hone _ hfirst _ hother rfl (by decide) (by decide)
  exact absurd (congrArg PackLease.leaseId heq) (by decide)

end GameLauncher.Jobs.PackLeases
