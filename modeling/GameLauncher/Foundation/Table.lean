import Mathlib.Algebra.BigOperators.Ring.List
import Mathlib.Algebra.Order.BigOperators.Group.List
import Mathlib.Algebra.Order.Group.Int
import Mathlib.Algebra.Ring.Int.Defs
import Mathlib.Data.List.Nodup
import Mathlib.Tactic.Common

/-!
# Tables with a primary key

A table is a list of rows no two of which share their primary key. `deleteWhere` and `updateWhere`
are the `DELETE` and `UPDATE` statements of SQL with a condition on the row, and `upsert` is the
`INSERT` that replaces the row with its key; an update leaves the key alone, so all three keep the
key unique. `find` looks a row up by its key, and `total` adds a quantity over all rows; the lemmas
about it say what each statement adds or takes.
-/

set_option autoImplicit false

namespace GameLauncher.Foundation

open List

/-- Rows with pairwise different primary keys. -/
structure Table (α : Type) {κ : Type} (key : α → κ) where
  rows : List α
  keys_nodup : (rows.map key).Nodup

namespace Table

variable {α κ : Type} {key : α → κ}

instance : Membership α (Table α key) := ⟨fun table row ↦ row ∈ table.rows⟩

variable {row : α} {table : Table α key}

theorem mem_iff : row ∈ table ↔ row ∈ table.rows := Iff.rfl

/-- The table without rows. -/
def empty : Table α key := ⟨[], nodup_nil⟩

theorem eq_of_key_eq {first second : α} (hfirst : first ∈ table) (hsecond : second ∈ table)
    (h : key first = key second) : first = second :=
  inj_on_of_nodup_map table.keys_nodup hfirst hsecond h

/-- `DELETE … WHERE`. -/
def deleteWhere (table : Table α key) (condition : α → Bool) : Table α key where
  rows := table.rows.filter fun row ↦ !condition row
  keys_nodup := table.keys_nodup.sublist (filter_sublist.map key)

variable {condition : α → Bool}

@[simp] theorem mem_deleteWhere :
    row ∈ table.deleteWhere condition ↔ row ∈ table ∧ condition row = false := by
  simp only [mem_iff, deleteWhere, mem_filter, Bool.not_eq_true']

/-- `UPDATE … WHERE`, with a change that leaves the primary key alone. -/
def updateWhere (table : Table α key) (condition : α → Bool) (change : α → α)
    (hkey : ∀ row, key (change row) = key row) : Table α key where
  rows := table.rows.map fun row ↦ if condition row then change row else row
  keys_nodup := by
    have hkeys : (table.rows.map fun row ↦ if condition row then change row else row).map key =
        table.rows.map key := by
      rw [map_map]
      refine map_congr_left fun row _ ↦ ?_
      by_cases h : condition row = true <;> simp [h, hkey]
    rw [hkeys]
    exact table.keys_nodup

variable {change : α → α} {hkey : ∀ row, key (change row) = key row}

theorem mem_updateWhere :
    row ∈ table.updateWhere condition change hkey ↔
      ∃ old ∈ table, row = if condition old then change old else old := by
  simp only [mem_iff, updateWhere, mem_map, eq_comm]

theorem updated_mem (h : row ∈ table) (condition : α → Bool) (change : α → α)
    (hkey : ∀ row, key (change row) = key row) :
    (if condition row then change row else row) ∈ table.updateWhere condition change hkey :=
  mem_updateWhere.mpr ⟨row, h, rfl⟩

/-- `INSERT … ON CONFLICT DO UPDATE`: the row replaces the one with its key. -/
def upsert [DecidableEq κ] (table : Table α key) (row : α) : Table α key where
  rows := row :: table.rows.filter fun other ↦ key other ≠ key row
  keys_nodup := by
    rw [map_cons, nodup_cons]
    refine ⟨fun hmem ↦ ?_, table.keys_nodup.sublist (filter_sublist.map key)⟩
    obtain ⟨other, hother, hkey⟩ := mem_map.mp hmem
    have hne := (mem_filter.mp hother).2
    exact of_decide_eq_true hne hkey

theorem mem_upsert [DecidableEq κ] {other : α} :
    other ∈ table.upsert row ↔ other = row ∨ other ∈ table ∧ key other ≠ key row := by
  simp only [mem_iff, upsert, mem_cons, mem_filter, decide_eq_true_eq]

theorem upsert_upsert [DecidableEq κ] {first second : α} (h : key first = key second) :
    (table.upsert first).upsert second = table.upsert second := by
  simp only [upsert, filter_cons, h, ne_eq, not_true, decide_false, Bool.false_eq_true,
    if_false, filter_filter, Bool.and_self]

def find [DecidableEq κ] (table : Table α key) (wanted : κ) : Option α :=
  table.rows.find? fun row ↦ key row = wanted

@[simp] theorem find_eq_some [DecidableEq κ] {wanted : κ} :
    table.find wanted = some row ↔ row ∈ table ∧ key row = wanted := by
  constructor
  · intro h
    have hkey := List.find?_some h
    exact ⟨mem_of_find?_eq_some h, of_decide_eq_true hkey⟩
  · rintro ⟨hrow, rfl⟩
    have hsome : (table.rows.find? fun other ↦ decide (key other = key row)).isSome = true :=
      List.find?_isSome.mpr ⟨row, hrow, decide_eq_true rfl⟩
    obtain ⟨found, hfound⟩ := Option.isSome_iff_exists.mp hsome
    have hkey := List.find?_some hfound
    rw [find, hfound, eq_of_key_eq (mem_of_find?_eq_some hfound) hrow (of_decide_eq_true hkey)]

theorem find_eq_none [DecidableEq κ] {wanted : κ} :
    table.find wanted = none ↔ ∀ row ∈ table, key row ≠ wanted := by
  simp [find, mem_iff]

theorem find_updateWhere [DecidableEq κ] (wanted : κ) :
    (table.updateWhere condition change hkey).find wanted =
      (table.find wanted).map fun row ↦ if condition row then change row else row := by
  have hsame (row : α) : key (if condition row then change row else row) = key row := by
    split_ifs
    · exact hkey row
    · rfl
  cases hfind : table.find wanted with
  | none =>
    rw [Option.map_none, find_eq_none]
    intro row hrow
    obtain ⟨old, hold, rfl⟩ := mem_updateWhere.mp hrow
    rw [hsame]
    exact find_eq_none.mp hfind old hold
  | some row =>
    obtain ⟨hrow, hwanted⟩ := find_eq_some.mp hfind
    rw [Option.map_some, find_eq_some]
    exact ⟨mem_updateWhere.mpr ⟨row, hrow, rfl⟩, (hsame row).trans hwanted⟩

theorem find_upsert [DecidableEq κ] (wanted : κ) :
    (table.upsert row).find wanted = if key row = wanted then some row else table.find wanted := by
  split_ifs with h
  · rw [find_eq_some]
    exact ⟨mem_upsert.mpr (.inl rfl), h⟩
  · cases hfind : table.find wanted with
    | none =>
      rw [find_eq_none]
      intro other hother
      rcases mem_upsert.mp hother with rfl | ⟨hold, -⟩
      · exact h
      · exact find_eq_none.mp hfind other hold
    | some found =>
      obtain ⟨hfound, hkey⟩ := find_eq_some.mp hfind
      rw [find_eq_some]
      exact ⟨mem_upsert.mpr (.inr ⟨hfound, fun heq ↦ h (heq.symm.trans hkey)⟩), hkey⟩

theorem length_upsert_le [DecidableEq κ] (table : Table α key) (row : α) :
    (table.upsert row).rows.length ≤ table.rows.length + 1 :=
  Nat.succ_le_succ (length_filter_le _ _)

theorem length_upsert_le_of_find [DecidableEq κ] {old : α} (h : table.find (key row) = some old) :
    (table.upsert row).rows.length ≤ table.rows.length := by
  obtain ⟨hold, hkey⟩ := find_eq_some.mp h
  refine Nat.succ_le_of_lt (length_filter_lt_length_iff_exists.mpr ⟨old, hold, ?_⟩)
  simp only [hkey, ne_eq, not_true, decide_false, Bool.false_eq_true, not_false_eq_true]

/-- The number of rows a condition selects. -/
def countWhere (table : Table α key) (condition : α → Bool) : ℕ := table.rows.countP condition

theorem countWhere_updateWhere_le {selects : α → Bool}
    (h : ∀ row ∈ table, condition row = true → selects (change row) = true → selects row = true) :
    (table.updateWhere condition change hkey).countWhere selects ≤ table.countWhere selects := by
  rw [countWhere, updateWhere, countP_map]
  refine countP_mono_left fun row hrow hselected ↦ ?_
  by_cases hcondition : condition row = true
  · exact h row hrow hcondition (by simpa [hcondition] using hselected)
  · simpa [hcondition] using hselected

theorem countWhere_upsert_le [DecidableEq κ] (table : Table α key) (row : α) (selects : α → Bool) :
    (table.upsert row).countWhere selects ≤ table.countWhere selects + 1 := by
  rw [countWhere, upsert, countP_cons]
  refine Nat.add_le_add filter_sublist.countP_le ?_
  split_ifs
  · exact le_rfl
  · exact Nat.zero_le 1

def total (table : Table α key) (quantity : α → ℤ) : ℤ := (table.rows.map quantity).sum

variable {quantity : α → ℤ}

theorem total_nonneg (h : ∀ row ∈ table, 0 ≤ quantity row) : 0 ≤ table.total quantity := by
  refine sum_nonneg fun value hvalue ↦ ?_
  obtain ⟨row, hrow, rfl⟩ := mem_map.mp hvalue
  exact h row hrow

theorem le_total (hrow : row ∈ table) (h : ∀ row ∈ table, 0 ≤ quantity row) :
    quantity row ≤ table.total quantity := by
  refine single_le_sum (fun value hvalue ↦ ?_) _ (mem_map_of_mem hrow)
  obtain ⟨other, hother, rfl⟩ := mem_map.mp hvalue
  exact h other hother

theorem total_le_total {first second : α → ℤ} (h : ∀ row ∈ table, first row ≤ second row) :
    table.total first ≤ table.total second :=
  sum_le_sum h

theorem total_congr {first second : α → ℤ} (h : ∀ row ∈ table, first row = second row) :
    table.total first = table.total second :=
  congrArg List.sum (map_congr_left h)

theorem total_zero : (table.total fun _ ↦ 0) = 0 := by
  simp [total]

theorem total_mul (factor : ℤ) :
    (table.total fun row ↦ factor * quantity row) = factor * table.total quantity :=
  sum_map_mul_left table.rows quantity factor

theorem total_updateWhere {difference : α → ℤ}
    (h : ∀ row ∈ table, quantity (if condition row then change row else row) =
      quantity row + difference row) (hkey : ∀ row, key (change row) = key row) :
    (table.updateWhere condition change hkey).total quantity =
      table.total quantity + table.total difference := by
  have hsum : ∀ rows : List α, (∀ row ∈ rows, row ∈ table) →
      ((rows.map fun row ↦ if condition row then change row else row).map quantity).sum =
        (rows.map quantity).sum + (rows.map difference).sum := by
    intro rows
    induction rows with
    | nil => simp
    | cons row rest ih =>
      intro hrows
      have hrow := h row (hrows row mem_cons_self)
      have hrest := ih fun other hother ↦ hrows other (mem_cons_of_mem _ hother)
      simp only [map_cons, sum_cons, hrow, hrest]
      omega
  exact hsum table.rows fun row hrow ↦ hrow

theorem total_updateWhere_of_eq (h : ∀ row, quantity (change row) = quantity row)
    (hkey : ∀ row, key (change row) = key row) :
    (table.updateWhere condition change hkey).total quantity = table.total quantity := by
  have hzero : ∀ row ∈ table, quantity (if condition row then change row else row) =
      quantity row + (fun _ ↦ 0 : α → ℤ) row := by
    intro row _
    split_ifs
    · rw [h, add_zero]
    · rw [add_zero]
  rw [total_updateWhere hzero, total_zero, add_zero]

theorem total_eq_single [DecidableEq κ] (hrow : row ∈ table) (value : ℤ) :
    (table.total fun other ↦ if key other = key row then value else 0) = value := by
  have hsum : ∀ rows : List α, (rows.map key).Nodup →
      (rows.map fun other ↦ if key other = key row then value else 0).sum =
        if key row ∈ rows.map key then value else 0 := by
    intro rows
    induction rows with
    | nil => simp
    | cons other rest ih =>
      intro hnodup
      rw [map_cons, nodup_cons] at hnodup
      simp only [map_cons, sum_cons, ih hnodup.2, mem_cons]
      by_cases hkey : key other = key row
      · have hrest : key row ∉ rest.map key := hkey ▸ hnodup.1
        simp [hkey, hrest]
      · simp [hkey, Ne.symm hkey]
  rw [total, hsum table.rows table.keys_nodup, if_pos (mem_map_of_mem hrow)]

theorem total_key [DecidableEq κ] (quantity : α → ℤ) (wanted : κ) :
    (table.total fun row ↦ if key row = wanted then quantity row else 0) =
      (table.find wanted).elim 0 quantity := by
  cases hfind : table.find wanted with
  | none =>
    rw [find_eq_none] at hfind
    rw [total_congr fun row hrow ↦ if_neg (hfind row hrow), total_zero]
    rfl
  | some row =>
    obtain ⟨hrow, rfl⟩ := find_eq_some.mp hfind
    refine Eq.trans (total_congr fun other hother ↦ ?_) (total_eq_single hrow (quantity row))
    by_cases hkey : key other = key row
    · rw [if_pos hkey, if_pos hkey, eq_of_key_eq hother hrow hkey]
    · rw [if_neg hkey, if_neg hkey]

theorem sum_find [DecidableEq κ] (quantity : α → ℤ) {keys : List κ} (hkeys : keys.Nodup) :
    (keys.map fun wanted ↦ (table.find wanted).elim 0 quantity).sum =
      table.total fun row ↦ if key row ∈ keys then quantity row else 0 := by
  induction keys with
  | nil => simp [total_zero]
  | cons wanted rest ih =>
    rw [nodup_cons] at hkeys
    have hsplit (row : α) : (if key row ∈ wanted :: rest then quantity row else 0) =
        (if key row = wanted then quantity row else 0) +
          if key row ∈ rest then quantity row else 0 := by
      by_cases hkey : key row = wanted
      · simp [hkey, hkeys.1]
      · simp [hkey]
    rw [map_cons, sum_cons, ih hkeys.2, ← total_key, total, total, total, ← sum_map_add]
    exact congrArg List.sum (map_congr_left fun row _ ↦ (hsplit row).symm)

theorem total_deleteWhere (condition : α → Bool) (quantity : α → ℤ) :
    (table.deleteWhere condition).total quantity =
      table.total quantity - table.total fun row ↦ if condition row then quantity row else 0 := by
  have hsum : ∀ rows : List α, ((rows.filter fun row ↦ !condition row).map quantity).sum =
      (rows.map quantity).sum - (rows.map fun row ↦ if condition row then quantity row else 0).sum
      := by
    intro rows
    induction rows with
    | nil => simp
    | cons row rest ih =>
      by_cases h : condition row = true
      · simp only [filter_cons, h, Bool.not_true, Bool.false_eq_true, if_false, ih,
          map_cons, sum_cons, if_true]
        omega
      · rw [Bool.not_eq_true] at h
        simp only [filter_cons, h, Bool.not_false, if_true, map_cons, sum_cons, ih,
          Bool.false_eq_true, if_false]
        omega
  exact hsum table.rows

theorem find_deleteWhere [DecidableEq κ] (wanted : κ) : (table.deleteWhere condition).find wanted =
      (table.find wanted).filter fun row ↦ !condition row := by
  cases hfind : table.find wanted with
  | none =>
    rw [find_eq_none] at hfind
    rw [Option.filter_none, find_eq_none]
    exact fun row hrow ↦ hfind row (mem_deleteWhere.mp hrow).1
  | some row =>
    obtain ⟨hrow, hkey⟩ := find_eq_some.mp hfind
    rw [Option.filter_some]
    split_ifs with hkept
    · rw [find_eq_some]
      exact ⟨mem_deleteWhere.mpr ⟨hrow, by simpa using hkept⟩, hkey⟩
    · rw [find_eq_none]
      intro other hother heq
      obtain ⟨hmem, hfalse⟩ := mem_deleteWhere.mp hother
      rw [eq_of_key_eq hmem hrow (heq.trans hkey.symm)] at hfalse
      rw [hfalse] at hkept
      exact hkept rfl

theorem find_deleteKey [DecidableEq κ] (removed wanted : κ) :
    (table.deleteWhere fun row ↦ key row = removed).find wanted =
      if wanted = removed then none else table.find wanted := by
  split_ifs with h
  · rw [find_eq_none]
    intro row hrow heq
    exact of_decide_eq_false (mem_deleteWhere.mp hrow).2 (heq.trans h)
  · cases hfind : table.find wanted with
    | none =>
      rw [find_eq_none] at hfind ⊢
      exact fun row hrow ↦ hfind row (mem_deleteWhere.mp hrow).1
    | some row =>
      obtain ⟨hrow, hkey⟩ := find_eq_some.mp hfind
      rw [find_eq_some]
      exact ⟨mem_deleteWhere.mpr ⟨hrow, decide_eq_false (hkey ▸ h)⟩, hkey⟩

theorem total_deleteKey [DecidableEq κ] (removed : κ) (quantity : α → ℤ) :
    (table.deleteWhere fun row ↦ key row = removed).total quantity =
      table.total quantity - (table.find removed).elim 0 quantity := by
  rw [total_deleteWhere, ← total_key]
  simp only [decide_eq_true_eq]

theorem total_upsert [DecidableEq κ] (row : α) (quantity : α → ℤ) :
    (table.upsert row).total quantity =
      quantity row + table.total quantity - (table.find (key row)).elim 0 quantity := by
  have hrows : (table.upsert row).total quantity = quantity row +
      (table.deleteWhere fun other ↦ key other = key row).total quantity := by
    simp only [total, upsert, deleteWhere, map_cons, sum_cons, ne_eq, decide_not]
  rw [hrows, total_deleteKey]
  omega

theorem total_upsert_of_fresh [DecidableEq κ] (h : ∀ other ∈ table, key other ≠ key row)
    (quantity : α → ℤ) :
    (table.upsert row).total quantity = quantity row + table.total quantity := by
  rw [total_upsert, find_eq_none.mpr h, Option.elim_none, sub_zero]

end Table

end GameLauncher.Foundation
