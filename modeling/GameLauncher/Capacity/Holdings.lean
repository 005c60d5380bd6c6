import GameLauncher.Capacity.Ledger

/-!
# Sums of reserved bytes

Both stores keep reservations in a table, each with an account, an amount and a state, and both keep
running totals beside it. `bytesIn` adds up what an account has in one state and `selectedBytes`
what a condition selects of an account; `bytesIn_update` says how the first changes when holds end,
by the second.
-/

set_option autoImplicit false

namespace GameLauncher.Capacity

open Foundation Table

/-- A row that stands for reserved bytes of an account. -/
class Holding (ρ : Type) where
  account : ρ → Text
  bytes : ρ → ℕ
  state : ρ → ReservationState
  withState : ρ → ReservationState → ρ
  account_withState : ∀ row new, account (withState row new) = account row
  bytes_withState : ∀ row new, bytes (withState row new) = bytes row
  state_withState : ∀ row new, state (withState row new) = new

namespace Holding

attribute [simp] account_withState bytes_withState state_withState

variable {ρ κ : Type} [Holding ρ] {key : ρ → κ}

def bytesIn (table : Table ρ key) (wanted : ReservationState) (accountId : Text) : ℤ :=
  table.total fun row ↦ if account row = accountId ∧ state row = wanted then bytes row else 0

def selectedBytes (table : Table ρ key) (condition : ρ → Bool) (accountId : Text) : ℤ :=
  table.total fun row ↦ if account row = accountId ∧ condition row = true then bytes row else 0

def SelectsHolds (table : Table ρ key) (condition : ρ → Bool) : Prop :=
  ∀ row ∈ table, condition row = true → state row = .held

theorem part_nonneg (condition : Prop) [Decidable condition] (amount : ℕ) :
    0 ≤ if condition then (amount : ℤ) else 0 := by
  split_ifs
  · exact Int.natCast_nonneg _
  · exact le_rfl

theorem bytesIn_nonneg (table : Table ρ key) (wanted : ReservationState) (accountId : Text) :
    0 ≤ bytesIn table wanted accountId :=
  total_nonneg fun _ _ ↦ part_nonneg _ _

theorem selectedBytes_nonneg (table : Table ρ key) (condition : ρ → Bool) (accountId : Text) :
    0 ≤ selectedBytes table condition accountId :=
  total_nonneg fun _ _ ↦ part_nonneg _ _

variable {condition : ρ → Bool}

theorem SelectsHolds.selectedBytes_le {table : Table ρ key}
    (h : SelectsHolds table condition) (accountId : Text) :
    selectedBytes table condition accountId ≤ bytesIn table .held accountId := by
  refine total_le_total fun row hrow ↦ ?_
  by_cases hselected : account row = accountId ∧ condition row = true
  · rw [if_pos hselected, if_pos ⟨hselected.1, h row hrow hselected.2⟩]
  · rw [if_neg hselected]
    exact part_nonneg _ _

theorem selectedBytes_of_none {table : Table ρ key} {accountId : Text}
    (h : ∀ row ∈ table, condition row = true → account row ≠ accountId) :
    selectedBytes table condition accountId = 0 := by
  refine (total_congr fun row hrow ↦ if_neg ?_).trans total_zero
  rintro ⟨haccount, hselected⟩
  exact h row hrow hselected haccount

theorem bytes_le_bytesIn {table : Table ρ key} {row : ρ} (hrow : row ∈ table) :
    (bytes row : ℤ) ≤ bytesIn table (state row) (account row) := by
  have hpart : (bytes row : ℤ) =
      if account row = account row ∧ state row = state row then (bytes row : ℤ) else 0 :=
    (if_pos ⟨rfl, rfl⟩).symm
  rw [hpart]
  exact le_total hrow fun _ _ ↦ part_nonneg _ _

section Single

variable [DecidableEq κ] [BEq κ] [LawfulBEq κ] {table : Table ρ key} {row : ρ}

omit [DecidableEq κ] in
theorem selectsHolds_key (hrow : row ∈ table) (hheld : state row = .held) :
    SelectsHolds table fun other ↦ key other == key row := by
  intro other hother hkey
  rwa [eq_of_key_eq hother hrow (beq_iff_eq.mp hkey)]

theorem selectedBytes_key (hrow : row ∈ table) :
    selectedBytes table (fun other ↦ key other == key row) (account row) = bytes row := by
  rw [← total_eq_single hrow (bytes row : ℤ)]
  refine total_congr fun other hother ↦ ?_
  by_cases hkey : key other = key row
  · obtain rfl : other = row := eq_of_key_eq hother hrow hkey
    rw [if_pos ⟨rfl, beq_self_eq_true _⟩, if_pos rfl]
  · rw [if_neg fun hboth ↦ hkey (beq_iff_eq.mp hboth.2), if_neg hkey]

omit [DecidableEq κ] in
theorem selectedBytes_key_of_ne (hrow : row ∈ table) {accountId : Text}
    (hne : account row ≠ accountId) :
    selectedBytes table (fun other ↦ key other == key row) accountId = 0 := by
  refine selectedBytes_of_none fun other hother hkey ↦ ?_
  rwa [eq_of_key_eq hother hrow (beq_iff_eq.mp hkey)]

end Single

theorem bytesIn_upsert [DecidableEq κ] {table : Table ρ key} {row : ρ}
    (hfresh : ∀ other ∈ table, key other ≠ key row) (wanted : ReservationState)
    (accountId : Text) :
    bytesIn (table.upsert row) wanted accountId =
      (if account row = accountId ∧ state row = wanted then (bytes row : ℤ) else 0) +
        bytesIn table wanted accountId :=
  total_upsert_of_fresh hfresh _

theorem SelectsHolds.bytesIn_update {table : Table ρ key}
    (h : SelectsHolds table condition) (new : ReservationState)
    (hkey : ∀ row, key (withState row new) = key row) (wanted : ReservationState)
    (accountId : Text) :
    bytesIn (table.updateWhere condition (fun row ↦ withState row new) hkey) wanted accountId =
      bytesIn table wanted accountId
        - (if wanted = .held then selectedBytes table condition accountId else 0)
        + (if wanted = new then selectedBytes table condition accountId else 0) := by
  have hpart : ∀ row ∈ table,
      (if account (if condition row then withState row new else row) = accountId ∧
          state (if condition row then withState row new else row) = wanted then
        (bytes (if condition row then withState row new else row) : ℤ) else 0) =
      (if account row = accountId ∧ state row = wanted then (bytes row : ℤ) else 0) +
        ((if wanted = new then 1 else 0) - (if wanted = .held then 1 else 0)) *
          (if account row = accountId ∧ condition row = true then (bytes row : ℤ) else 0) := by
    intro row hrow
    by_cases hselected : condition row = true
    · have hheld := h row hrow hselected
      simp only [hselected, if_true, account_withState, state_withState, bytes_withState, hheld,
        and_true, eq_comm (b := wanted)]
      split_ifs <;> simp_all
    · simp [hselected]
  refine (total_updateWhere hpart hkey).trans ?_
  rw [total_mul]
  change bytesIn table wanted accountId + _ * selectedBytes table condition accountId = _
  split_ifs <;> ring

end Holding

end GameLauncher.Capacity
