import Mathlib.Data.Finset.Card
import Mathlib.Data.List.Sort
import Mathlib.Tactic.Common

/-!
# Greedy scans

`fillUntil` takes the items of a list one by one until a goal is reached. `fillUntil_spec` is its
contract: it takes an initial segment of the list, at no shorter one is the goal reached, and it
ends before the list does only if the goal is reached.

`firstsBy` keeps the first item of every key that has not been seen. A scan that passes over items
whose key is taken is a scan of this list.

`insertionSort_eq_of_perm` says that a sorted list does not depend on the order of its input when
the order of the sort is antisymmetric on the items.
-/

set_option autoImplicit false

namespace GameLauncher.Foundation

open List

variable {α σ κ : Type}

/-! ### Filling up to a goal -/

/-- Take the items in order until the goal is reached. -/
def fillUntil (done : σ → Bool) (take : σ → α → σ) : List α → σ → σ
  | [], state => state
  | item :: rest, state =>
    if done state then state else fillUntil done take rest (take state item)

theorem fillUntil_of_done {done : σ → Bool} {take : σ → α → σ} {state : σ} (items : List α)
    (h : done state = true) : fillUntil done take items state = state := by
  cases items with
  | nil => rfl
  | cons item rest => rw [fillUntil, if_pos h]

/-- A scan takes the shortest initial segment that reaches the goal, or everything. -/
theorem fillUntil_spec (done : σ → Bool) (take : σ → α → σ) (items : List α) (state : σ) :
    ∃ count ≤ items.length, fillUntil done take items state = (items.take count).foldl take state ∧
      (∀ earlier < count, done ((items.take earlier).foldl take state) = false) ∧
      (count = items.length ∨ done (fillUntil done take items state) = true) := by
  induction items generalizing state with
  | nil => exact ⟨0, le_refl _, rfl, fun _ h ↦ absurd h (Nat.not_lt_zero _), .inl rfl⟩
  | cons item rest ih =>
    by_cases hdone : done state = true
    · rw [fillUntil_of_done _ hdone]
      exact ⟨0, Nat.zero_le _, rfl, fun _ h ↦ absurd h (Nat.not_lt_zero _), .inr hdone⟩
    · obtain ⟨count, hcount, hresult, hearlier, hend⟩ := ih (take state item)
      rw [fillUntil, if_neg hdone]
      refine ⟨count + 1, Nat.succ_le_succ hcount, hresult, fun earlier hlt ↦ ?_,
        hend.imp_left fun h ↦ by rw [h, length_cons]⟩
      cases earlier with
      | zero => exact Bool.eq_false_iff.mpr hdone
      | succ earlier => exact hearlier earlier (Nat.lt_of_succ_lt_succ hlt)

theorem fillUntil_related {done : σ → Bool} {take : σ → α → σ} {related : σ → σ → Prop}
    (hdone : ∀ first second, related first second → done first = done second)
    (htake : ∀ first second item, related first second →
      related (take first item) (take second item))
    (items : List α) {first second : σ} (h : related first second) :
    related (fillUntil done take items first) (fillUntil done take items second) := by
  induction items generalizing first second with
  | nil => exact h
  | cons item rest ih =>
    rw [fillUntil, fillUntil, hdone first second h]
    by_cases hsecond : done second = true
    · rw [if_pos hsecond, if_pos hsecond]
      exact h
    · rw [if_neg hsecond, if_neg hsecond]
      exact ih (htake first second item h)

/-! ### The first item of every key -/

variable [BEq κ] [LawfulBEq κ]

def firstsBy (key : α → κ) : List κ → List α → List α
  | _, [] => []
  | seen, item :: rest =>
    if key item ∈ seen then firstsBy key seen rest
    else item :: firstsBy key (seen.insert (key item)) rest

variable {item : α} {items : List α} {key : α → κ} {seen : List κ}

theorem mem_firstsBy :
    item ∈ firstsBy key seen items ↔
      key item ∉ seen ∧ items.find? (fun other ↦ key other == key item) = some item := by
  induction items generalizing seen with
  | nil => simp [firstsBy]
  | cons head rest ih =>
    rw [firstsBy]
    by_cases hseen : key head ∈ seen
    · rw [if_pos hseen, ih]
      refine and_congr_right fun hnew ↦ ?_
      have hother : (key head == key item) = false := by
        rw [beq_eq_false_iff_ne]
        exact fun heq ↦ hnew (heq ▸ hseen)
      rw [List.find?_cons, hother]
    · rw [if_neg hseen, mem_cons, ih, mem_insert_iff, not_or]
      by_cases hsame : key head = key item
      · have hbeq : (key head == key item) = true := beq_iff_eq.mpr hsame
        rw [List.find?_cons, hbeq]
        constructor
        · rintro (rfl | ⟨⟨hne, -⟩, -⟩)
          · exact ⟨hseen, rfl⟩
          · exact absurd hsame.symm hne
        · rintro ⟨-, hitem⟩
          exact .inl (Option.some.inj hitem).symm
      · have hbeq : (key head == key item) = false := beq_eq_false_iff_ne.mpr hsame
        rw [List.find?_cons, hbeq]
        constructor
        · rintro (rfl | ⟨⟨-, hnew⟩, hitem⟩)
          · exact absurd rfl hsame
          · exact ⟨hnew, hitem⟩
        · rintro ⟨hnew, hitem⟩
          exact .inr ⟨⟨fun heq ↦ hsame heq.symm, hnew⟩, hitem⟩

theorem mem_of_mem_firstsBy (h : item ∈ firstsBy key seen items) : item ∈ items :=
  mem_of_find?_eq_some (mem_firstsBy.mp h).2

theorem exists_mem_firstsBy (hitem : item ∈ items) (hnew : key item ∉ seen) :
    ∃ first ∈ firstsBy key seen items, key first = key item := by
  have hsome : (items.find? fun other ↦ key other == key item).isSome = true :=
    List.find?_isSome.mpr ⟨item, hitem, beq_self_eq_true _⟩
  obtain ⟨first, hfirst⟩ := Option.isSome_iff_exists.mp hsome
  have hkey : key first = key item := by
    simpa only [beq_iff_eq] using List.find?_some hfirst
  rw [← hkey] at hfirst hnew
  exact ⟨first, mem_firstsBy.mpr ⟨hnew, hfirst⟩, hkey⟩

theorem nodup_map_firstsBy (key : α → κ) (seen : List κ) (items : List α) :
    ((firstsBy key seen items).map key).Nodup := by
  induction items generalizing seen with
  | nil => exact nodup_nil
  | cons head rest ih =>
    rw [firstsBy]
    split_ifs with hseen
    · exact ih seen
    · rw [map_cons, nodup_cons]
      refine ⟨fun hmem ↦ ?_, ih _⟩
      obtain ⟨other, hother, hkey⟩ := mem_map.mp hmem
      apply (mem_firstsBy.mp hother).1
      rw [hkey]
      exact mem_insert_self

theorem firstsBy_congr {first second : List κ} (h : ∀ value, value ∈ first ↔ value ∈ second)
    (items : List α) : firstsBy key first items = firstsBy key second items := by
  induction items generalizing first second with
  | nil => rfl
  | cons head rest ih =>
    rw [firstsBy, firstsBy, ih h]
    have hinsert : firstsBy key (first.insert (key head)) rest =
        firstsBy key (second.insert (key head)) rest := by
      apply ih
      intro value
      rw [mem_insert_iff, mem_insert_iff, h value]
    rw [hinsert]
    exact if_congr (h _) rfl rfl

/-! ### Sorting -/

theorem insertionSort_eq_of_perm {order : α → α → Prop} [DecidableRel order]
    [Std.Total order] [IsTrans α order] {first second : List α} (hperm : first.Perm second)
    (hanti : ∀ left ∈ first, ∀ right ∈ first, order left right → order right left → left = right) :
    first.insertionSort order = second.insertionSort order := by
  have hsame : (first.insertionSort order).Perm (second.insertionSort order) :=
    (perm_insertionSort order first).trans
      (hperm.trans (perm_insertionSort order second).symm)
  have hfirst : (first.insertionSort order).Pairwise order :=
    pairwise_insertionSort order first
  refine List.Perm.eq_of_pairwise ?_ hfirst (pairwise_insertionSort order second) hsame
  intro left right hleft hright hle hge
  rw [mem_insertionSort] at hleft hright
  exact hanti left hleft right (hperm.mem_iff.mpr hright) hle hge

end GameLauncher.Foundation
