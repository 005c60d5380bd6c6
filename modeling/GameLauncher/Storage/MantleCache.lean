import Mathlib.Algebra.BigOperators.Group.List.Basic
import GameLauncher.Foundation.GreedyScan
import GameLauncher.Foundation.Text

/-!
# The eviction plan of the Mantle cache

`evictionPlan` sorts the entries that may go by their last access and their hash, and takes them
until enough bytes are free. `IsEvictionPlan` says what a plan is for: it takes what may go, oldest
first and none left out before another, no more than needed, and enough if there is enough.
-/

set_option autoImplicit false

namespace GameLauncher.Storage

open Foundation List

/-! ### Entries -/

structure MantleCacheEntry where
  packHash : Text
  path : Text
  bytes : ℕ
  lastAccessed : ℤ
  pinned : Bool
  leased : Bool
  verifiedElsewhere : Bool
  deriving DecidableEq, Repr

structure MantleEviction where
  packHash : Text
  path : Text
  bytes : ℕ
  deriving DecidableEq, Repr

namespace MantleCacheEntry

/-- May an entry be evicted? -/
def evictable (entry : MantleCacheEntry) : Bool :=
  !entry.pinned && !entry.leased && entry.verifiedElsewhere

def eviction (entry : MantleCacheEntry) : MantleEviction :=
  ⟨entry.packHash, entry.path, entry.bytes⟩

/-- The order of the sort: by last access, then by hash. -/
def Order (left right : MantleCacheEntry) : Prop :=
  left.lastAccessed < right.lastAccessed ∨
    left.lastAccessed = right.lastAccessed ∧ left.packHash ≤ right.packHash

instance : DecidableRel Order :=
  fun _ _ ↦ inferInstanceAs (Decidable (_ ∨ _ ∧ _))

instance : Std.Total Order where
  total left right := by
    rcases lt_trichotomy left.lastAccessed right.lastAccessed with hlt | heq | hgt
    · exact .inl (.inl hlt)
    · exact (le_total left.packHash right.packHash).imp (fun h ↦ .inr ⟨heq, h⟩)
        fun h ↦ .inr ⟨heq.symm, h⟩
    · exact .inr (.inl hgt)

instance : IsTrans MantleCacheEntry Order where
  trans first second third := by
    rintro (hfirst | ⟨hfirst, hhash⟩) (hsecond | ⟨hsecond, hother⟩)
    · exact .inl (hfirst.trans hsecond)
    · exact .inl (hsecond ▸ hfirst)
    · exact .inl (hfirst ▸ hsecond)
    · exact .inr ⟨hfirst.trans hsecond, hhash.trans hother⟩

theorem Order.antisymm {left right : MantleCacheEntry} (h : Order left right)
    (hback : Order right left) :
    (left.lastAccessed, left.packHash) = (right.lastAccessed, right.packHash) := by
  rcases h with hlt | ⟨heq, hhash⟩
  · rcases hback with hgt | ⟨heq, -⟩
    · exact absurd hgt hlt.asymm
    · exact absurd heq hlt.ne'
  · rcases hback with hgt | ⟨-, hother⟩
    · exact absurd heq hgt.ne'
    · rw [heq, le_antisymm hhash hother]

end MantleCacheEntry

open MantleCacheEntry

/-! ### The plan -/

section

variable (entries : List MantleCacheEntry)

/-- The entries that may go, in the order in which they go. -/
def candidates : List MantleCacheEntry :=
  (entries.filter evictable).insertionSort Order

/-- The loop of `eviction_plan`: the bytes that are still needed and the plan so far. -/
def planUntil (remaining : ℕ) : ℕ × List MantleEviction :=
  fillUntil (fun state : ℕ × List MantleEviction ↦ state.1 == 0)
    (fun state entry ↦ (state.1 - entry.bytes, state.2 ++ [entry.eviction])) entries (remaining, [])

/-- `MantleCache::eviction_plan`. -/
def evictionPlan (bytesNeeded : ℕ) : List MantleEviction :=
  (planUntil (candidates entries) bytesNeeded).2

def bytesOf : ℕ := (entries.map MantleCacheEntry.bytes).sum

end

/-- Entries that a plan may choose when so many bytes are needed. -/
structure IsEvictionPlan (entries : List MantleCacheEntry) (bytesNeeded : ℕ)
    (chosen : List MantleCacheEntry) : Prop where
  /-- Every chosen entry is an entry of its own, neither pinned nor leased, and verified
  elsewhere. -/
  among : chosen.Subperm (entries.filter evictable)
  ordered : chosen.Pairwise Order
  /-- What is strictly older than a chosen entry is chosen. -/
  oldest : ∀ entry ∈ chosen, ∀ older, older.evictable = true → ¬ Order entry older →
    chosen.count older = entries.count older
  minimal : chosen ≠ [] → bytesOf chosen.dropLast < bytesNeeded
  sufficient : bytesNeeded ≤ bytesOf (entries.filter evictable) → bytesNeeded ≤ bytesOf chosen

theorem foldl_plan (entries : List MantleCacheEntry) (remaining : ℕ) (plan : List MantleEviction) :
    entries.foldl (fun (state : ℕ × List MantleEviction) entry ↦
      (state.1 - entry.bytes, state.2 ++ [entry.eviction])) (remaining, plan) =
        (remaining - bytesOf entries, plan ++ entries.map eviction) := by
  induction entries generalizing remaining plan with
  | nil => simp [bytesOf]
  | cons entry rest ih =>
    rw [foldl_cons, ih, map_cons, append_assoc]
    have hbytes : bytesOf (entry :: rest) = entry.bytes + bytesOf rest := by
      rw [bytesOf, map_cons, sum_cons]
      rfl
    rw [hbytes, Nat.sub_sub]
    rfl

theorem bytesOf_perm {first second : List MantleCacheEntry} (h : first.Perm second) :
    bytesOf first = bytesOf second :=
  (h.map MantleCacheEntry.bytes).sum_eq

theorem candidates_perm (entries : List MantleCacheEntry) :
    (candidates entries).Perm (entries.filter evictable) :=
  perm_insertionSort _ _

theorem evictionPlan_eq_take (entries : List MantleCacheEntry) (bytesNeeded : ℕ) :
    ∃ count ≤ (candidates entries).length,
      evictionPlan entries bytesNeeded = ((candidates entries).take count).map eviction ∧
      (∀ earlier < count, bytesOf ((candidates entries).take earlier) < bytesNeeded) ∧
      (count = (candidates entries).length ∨
        bytesNeeded ≤ bytesOf ((candidates entries).take count)) := by
  obtain ⟨count, hcount, hresult, hearlier, hend⟩ := fillUntil_spec
    (fun state : ℕ × List MantleEviction ↦ state.1 == 0)
    (fun state entry ↦ (state.1 - entry.bytes, state.2 ++ [entry.eviction]))
    (candidates entries) (bytesNeeded, [])
  rw [foldl_plan, nil_append] at hresult
  refine ⟨count, hcount, congrArg Prod.snd hresult, fun earlier hlt ↦ ?_,
    hend.imp_right fun hdone ↦ ?_⟩
  · have hopen := hearlier earlier hlt
    rw [foldl_plan, beq_eq_false_iff_ne] at hopen
    dsimp only at hopen
    omega
  · rw [hresult, beq_iff_eq] at hdone
    dsimp only at hdone
    omega

theorem isEvictionPlan_take {entries : List MantleCacheEntry} {bytesNeeded count : ℕ}
    (hcount : count ≤ (candidates entries).length)
    (hearlier : ∀ earlier < count, bytesOf ((candidates entries).take earlier) < bytesNeeded)
    (hend : count = (candidates entries).length ∨
      bytesNeeded ≤ bytesOf ((candidates entries).take count)) :
    IsEvictionPlan entries bytesNeeded ((candidates entries).take count) where
  among := (take_sublist _ _).subperm.trans (candidates_perm entries).subperm
  ordered := (pairwise_insertionSort Order _).sublist (take_sublist _ _)
  oldest := by
    intro entry hentry older holder hnot
    have hsorted : (candidates entries).Pairwise Order := pairwise_insertionSort Order _
    have hsplit := take_append_drop count (candidates entries)
    have hlater : older ∉ (candidates entries).drop count := fun hmem ↦ by
      rw [← hsplit, pairwise_append] at hsorted
      exact hnot (hsorted.2.2 entry hentry older hmem)
    have hall : (candidates entries).count older = entries.count older := by
      rw [(candidates_perm entries).count_eq, count_filter holder]
    rw [← hall]
    calc ((candidates entries).take count).count older
        = ((candidates entries).take count).count older +
            ((candidates entries).drop count).count older := by
          rw [count_eq_zero_of_not_mem hlater, Nat.add_zero]
      _ = (candidates entries).count older := by rw [← count_append, hsplit]
  minimal := by
    intro hne
    have hpositive : 0 < count := by
      rw [Nat.pos_iff_ne_zero]
      rintro rfl
      exact hne take_zero
    have hlast : ((candidates entries).take count).dropLast =
        (candidates entries).take (count - 1) := by
      rw [dropLast_eq_take, length_take, min_eq_left hcount, take_take,
        min_eq_left (Nat.sub_le _ _)]
    rw [hlast]
    exact hearlier _ (Nat.sub_lt hpositive Nat.zero_lt_one)
  sufficient := by
    intro henough
    rcases hend with rfl | hreached
    · rw [take_length, bytesOf_perm (candidates_perm entries)]
      exact henough
    · exact hreached

theorem candidates_eq_of_perm {first second : List MantleCacheEntry} (hperm : first.Perm second)
    (hdistinct : (first.map fun entry ↦ (entry.lastAccessed, entry.packHash)).Nodup) :
    candidates first = candidates second := by
  refine insertionSort_eq_of_perm (hperm.filter evictable) fun left hleft right hright h hback ↦ ?_
  exact inj_on_of_nodup_map hdistinct (mem_of_mem_filter hleft)
    (mem_of_mem_filter hright) (h.antisymm hback)

/-- The plan of the Mantle cache is a plan, and the same for entries in any order. -/
theorem evictionPlan_spec (entries : List MantleCacheEntry) (bytesNeeded : ℕ) :
    (∃ chosen, evictionPlan entries bytesNeeded = chosen.map eviction ∧
      IsEvictionPlan entries bytesNeeded chosen) ∧
    ((entries.map fun entry ↦ (entry.lastAccessed, entry.packHash)).Nodup →
      ∀ other, entries.Perm other →
        evictionPlan other bytesNeeded = evictionPlan entries bytesNeeded) := by
  refine ⟨?_, fun hdistinct other hperm ↦ ?_⟩
  · obtain ⟨count, hcount, hplan, hearlier, hend⟩ := evictionPlan_eq_take entries bytesNeeded
    exact ⟨_, hplan, isEvictionPlan_take hcount hearlier hend⟩
  · rw [evictionPlan, evictionPlan, candidates_eq_of_perm hperm hdistinct]

/-- Two entries in either order: the older one is enough. -/
theorem older_entry_evicted :
    let older : MantleCacheEntry := ⟨"b", "b", 10, -2, false, false, true⟩
    let newer : MantleCacheEntry := ⟨"a", "a", 10, -1, false, false, true⟩
    evictionPlan [older, newer] 10 = [older.eviction] ∧
      evictionPlan [newer, older] 10 = evictionPlan [older, newer] 10 := by
  intro older newer
  have hperm : [older, newer].Perm [newer, older] := List.Perm.swap _ _ _
  exact ⟨by decide, (evictionPlan_spec [older, newer] 10).2 (by decide) _ hperm⟩

end GameLauncher.Storage
