import Mathlib.Data.List.Sort
import Mathlib.Order.Compare
import Mathlib.Tactic.Common

/-!
# Binary search in a sorted list

`binarySearchBy` is the search of Rust's standard library: it keeps a base and a size, halves the
size, and moves the base to the probe unless the probe is greater. `key_of_binarySearchBy` and
`binarySearchBy_of_key` are its documented contract on a list that is strictly increasing in the
searched key: the position found holds the key, and the position that holds the key is found.
-/

set_option autoImplicit false

namespace GameLauncher.Foundation

variable {α κ : Type} [LinearOrder κ]

/-- The halving loop: the last base that is not greater than the key. The fuel bounds the number
of rounds by the size. -/
def searchBase (items : List α) (key : α → κ) (target : κ) : ℕ → ℕ → ℕ → ℕ
  | 0, _, base => base
  | fuel + 1, size, base =>
    if size ≤ 1 then base
    else
      let half := size / 2
      let probe := base + half
      match items[probe]? with
      | none => base
      | some item =>
        searchBase items key target fuel (size - half) (if target < key item then base else probe)

/-- The position of an element with the given key, if the search finds one. -/
def binarySearchBy (items : List α) (key : α → κ) (target : κ) : Option ℕ :=
  if items.isEmpty then none
  else
    let base := searchBase items key target items.length items.length 0
    match items[base]? with
    | none => none
    | some item => if key item = target then some base else none

variable {items : List α} {key : α → κ} {position : ℕ} {target : κ}

theorem searchBase_of_key (hsorted : items.Pairwise fun left right ↦ key left < key right)
    (hposition : position < items.length) (hkey : key items[position] = target) (fuel : ℕ)
    {size base : ℕ} (hfuel : size ≤ fuel + 1) (hsize : 0 < size)
    (hbound : base + size ≤ items.length) (hlow : base ≤ position) (hhigh : position < base + size)
    :
    searchBase items key target fuel size base = position := by
  -- The invariant of the loop: the position searched for stays inside `base .. base + size`.
  induction fuel generalizing size base with
  | zero =>
    rw [searchBase]
    omega
  | succ fuel ih =>
    rw [searchBase]
    split_ifs with hone
    · omega
    · have hprobe : base + size / 2 < items.length := by omega
      simp only [List.getElem?_eq_getElem hprobe]
      by_cases hless : target < key items[base + size / 2]
      · rw [if_pos hless]
        have hbefore : position < base + size / 2 := by
          by_contra hafter
          rcases Nat.eq_or_lt_of_le (not_lt.mp hafter) with heq | hlt
          · subst heq
            exact lt_irrefl _ (hkey ▸ hless)
          · have hincreasing := List.pairwise_iff_getElem.mp hsorted _ _ hprobe hposition hlt
            exact lt_asymm hless (hkey ▸ hincreasing)
        exact ih (by omega) (by omega) (by omega) hlow (by omega)
      · rw [if_neg hless]
        have hafter : base + size / 2 ≤ position := by
          by_contra hbefore
          have hincreasing :=
            List.pairwise_iff_getElem.mp hsorted _ _ hposition hprobe (not_le.mp hbefore)
          exact hless (hkey ▸ hincreasing)
        exact ih (by omega) (by omega) (by omega) hafter (by omega)

theorem key_of_binarySearchBy (h : binarySearchBy items key target = some position) :
    ∃ hposition : position < items.length, key items[position] = target := by
  unfold binarySearchBy at h
  split_ifs at h with hempty
  cases hitem : items[searchBase items key target items.length items.length 0]? with
  | none => simp [hitem] at h
  | some item =>
    simp only [hitem] at h
    split_ifs at h with hkey
    obtain rfl := Option.some.inj h
    obtain ⟨hposition, rfl⟩ := List.getElem?_eq_some_iff.mp hitem
    exact ⟨hposition, hkey⟩

/-- The position that holds the key is found. Assumes: strictly increasing keys. -/
theorem binarySearchBy_of_key (hsorted : items.Pairwise fun left right ↦ key left < key right)
    (hposition : position < items.length) (hkey : key items[position] = target) :
    binarySearchBy items key target = some position := by
  have hempty : items.isEmpty = false := by
    cases items with
    | nil => exact absurd hposition (Nat.not_lt_zero _)
    | cons item rest => rfl
  have hbase : searchBase items key target items.length items.length 0 = position :=
    searchBase_of_key hsorted hposition hkey items.length (by omega) (by omega) (by omega)
      (Nat.zero_le _) (by omega)
  simp [binarySearchBy, hempty, hbase, List.getElem?_eq_getElem hposition, hkey]

end GameLauncher.Foundation
