import Mathlib.Data.List.Nodup
import Mathlib.Tactic.Common

/-!
# The first row of an order

`ORDER BY … LIMIT 1`: `firstBy` sorts rows by a total preorder and takes the first one. Rows that
are equal in the order keep the order in which they come, which is the freedom that SQL leaves.
-/

set_option autoImplicit false

namespace GameLauncher.Foundation

open List

variable {α : Type}

def firstBy (le : α → α → Bool) (rows : List α) : Option α := (rows.mergeSort le).head?

variable {rows : List α}

theorem firstBy_eq_none {le : α → α → Bool} : firstBy le rows = none ↔ rows = [] := by
  rw [firstBy, List.head?_eq_none_iff, ← length_eq_zero_iff, length_mergeSort, length_eq_zero_iff]

variable {row : α}

theorem exists_firstBy {le : α → α → Bool} (h : row ∈ rows) :
    ∃ first, firstBy le rows = some first := by
  cases hfirst : firstBy le rows with
  | some first => exact ⟨first, rfl⟩
  | none =>
    rw [firstBy_eq_none.mp hfirst] at h
    cases h

theorem firstBy_of_pairwise {le : α → α → Bool}
    (h : rows.Pairwise fun first second ↦ le first second = true) :
    firstBy le rows = rows.head? := by
  rw [firstBy, mergeSort_of_pairwise h]

section Order

variable {le : α → α → Bool} (htrans : ∀ a b c, le a b = true → le b c = true → le a c = true)
  (htotal : ∀ a b, (le a b || le b a) = true)
include htrans htotal

theorem firstBy_eq_some {first : α} (h : firstBy le rows = some first) :
    first ∈ rows ∧ ∀ row ∈ rows, le first row = true := by
  have hmem : first ∈ rows := mem_mergeSort.mp (mem_of_mem_head? h)
  refine ⟨hmem, fun row hrow ↦ ?_⟩
  obtain ⟨rest, hsplit⟩ : ∃ rest, rows.mergeSort le = first :: rest :=
    ⟨_, eq_cons_of_mem_head? h⟩
  have hsorted := pairwise_mergeSort htrans htotal rows
  have hrowMem : row ∈ rows.mergeSort le := mem_mergeSort.mpr hrow
  rw [hsplit] at hsorted hrowMem
  rcases mem_cons.mp hrowMem with rfl | hrest
  · simpa using htotal row row
  · exact rel_of_pairwise_cons hsorted hrest

theorem firstBy_eq_of_strict (hrow : row ∈ rows)
    (h : ∀ other ∈ rows, other ≠ row → le other row = false) : firstBy le rows = some row := by
  obtain ⟨first, hfirst⟩ : ∃ first, firstBy le rows = some first := exists_firstBy hrow
  obtain ⟨hmem, hle⟩ := firstBy_eq_some htrans htotal hfirst
  by_cases hsame : first = row
  · rw [hfirst, hsame]
  · have hbefore := hle row hrow
    rw [h first hmem hsame] at hbefore
    cases hbefore

theorem firstBy_ne (hnodup : rows.Nodup) {other : α} (hmet : List.Sublist [other, row] rows)
    (hle : le other row = true) : firstBy le rows ≠ some row := by
  intro hfirst
  obtain ⟨rest, hsplit⟩ : ∃ rest, rows.mergeSort le = row :: rest :=
    ⟨_, eq_cons_of_mem_head? hfirst⟩
  have hsub : List.Sublist [other, row] (rows.mergeSort le) :=
    pair_sublist_mergeSort htrans htotal hle hmet
  have hsortedNodup : (rows.mergeSort le).Nodup :=
    (mergeSort_perm rows le).nodup_iff.mpr hnodup
  rw [hsplit] at hsub hsortedNodup
  have hnotMem := (nodup_cons.mp hsortedNodup).1
  cases hsub with
  | cons _ hrest => exact hnotMem (hrest.subset (by simp))
  | cons_cons _ hrest => exact hnotMem (hrest.subset (by simp))

end Order

end GameLauncher.Foundation
