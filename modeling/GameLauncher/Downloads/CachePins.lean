import GameLauncher.Downloads.CacheOperations
import GameLauncher.Downloads.DownloadRuns

/-!
# The pins of the chunk cache

Tasks that share a `ChunkCache`, at the granularity of its lock: a put moves its file and then
indexes it, the eviction loop chooses an entry under the lock and deletes its file and its entry
after that, `ClearAsync` takes its list under the lock and deletes one hash after the other. Any of
these steps may run between those of the other tasks, and any task may stop with an exception.

The pinned hashes are a set, and the release of a lease takes its hash out of the set. Leases of one
hash are the same to the code, so `live` is the list of the hashes of the leases that are not yet
disposed. `Careful` is the condition under which the set is the hashes of the live leases and
nothing that is chosen for deletion becomes pinned; `Guarded` is the invariant, and
`live_pins_protect` the result.
-/

set_option autoImplicit false

namespace GameLauncher.Downloads

open Foundation Packs List

/-! ### Tasks -/

/-- Why `DeleteAsync` is called: the eviction loop, `ClearAsync`, or a read whose file does not
have its hash. -/
inductive Deletion
  | evicts
  | clears
  | discards
  deriving DecidableEq, Repr

/-- What an operation does next, with what it has taken from the cache. -/
inductive CacheTask
  | touches (encodedHash : Text)
  | indexes (encodedHash : Text) (size : ℕ)
  | chooses
  | deletes (victims : List Text) (reason : Deletion)
  | removes (victim : Text) (rest : List Text) (reason : Deletion)
  | ended
  deriving DecidableEq, Repr

namespace CacheTask

/-- What follows a deletion: the next round of the eviction loop, or the rest of the list. -/
def afterDeletion (rest : List Text) : Deletion → CacheTask
  | .evicts => .chooses
  | reason => .deletes rest reason

/-- The next step of a task. -/
def advance (now : ℤ) (cache : ChunkCache) : CacheTask → ChunkCache × CacheTask
  | .touches encodedHash => (cache.touch encodedHash now, .ended)
  | .indexes encodedHash size => (cache.indexEntry encodedHash size now, .chooses)
  | .chooses =>
    match cache.candidate with
    | none => (cache, .ended)
    | some victim => (cache, .deletes [victim] .evicts)
  | .deletes [] _ => (cache, .ended)
  | .deletes (victim :: rest) reason => (cache.deleteFile victim, .removes victim rest reason)
  | .removes victim rest reason => (cache.removeEntry victim, afterDeletion rest reason)
  | .ended => (cache, .ended)

/-- The hashes that a task has yet to evict or to clear. -/
def doomed : CacheTask → List Text
  | .deletes _ .discards | .removes _ _ .discards => []
  | .deletes victims _ => victims
  | .removes victim rest _ => victim :: rest
  | _ => []

/-- The next step of the task deletes a file of this hash that does not have it, or its entry. -/
def Discards (encodedHash : Text) : CacheTask → Prop
  | .deletes (victim :: _) .discards | .removes victim _ .discards => victim = encodedHash
  | _ => False

end CacheTask

/-! ### What a task does to the cache -/

variable {task : CacheTask}

namespace CacheTask

variable {now : ℤ} {cache : ChunkCache} {encodedHash : Text}

theorem advance_pinned (now : ℤ) (cache : ChunkCache) (task : CacheTask) :
    (task.advance now cache).1.pinned = cache.pinned := by
  cases task with
  | chooses =>
    unfold advance
    cases cache.candidate <;> rfl
  | deletes victims reason => cases victims <;> rfl
  | touches | indexes | removes | ended => rfl

theorem mem_doomed_advance (h : encodedHash ∈ (task.advance now cache).2.doomed) :
    encodedHash ∈ task.doomed ∨ encodedHash ∉ cache.pinned := by
  cases task with
  | chooses =>
    unfold advance at h
    cases hcandidate : cache.candidate with
    | none =>
      rw [hcandidate] at h
      exact absurd h not_mem_nil
    | some victim =>
      rw [hcandidate] at h
      obtain ⟨entry, -, -, hfree, -⟩ := ChunkCache.exists_of_candidate hcandidate
      exact .inr (mem_singleton.mp h ▸ hfree)
  | deletes victims reason =>
    cases victims with
    | nil => exact absurd h not_mem_nil
    | cons victim rest => cases reason <;> exact .inl h
  | removes victim rest reason =>
    cases reason with
    | evicts => exact absurd h not_mem_nil
    | clears => exact .inl (mem_cons_of_mem _ h)
    | discards => exact absurd h not_mem_nil
  | touches | indexes | ended => exact absurd h not_mem_nil

theorem entry_advance (hdoomed : encodedHash ∉ task.doomed)
    (hdiscards : ¬ task.Discards encodedHash) (hentry : (cache.entries.find encodedHash).isSome) :
    ((task.advance now cache).1.entries.find encodedHash).isSome := by
  cases task with
  | touches touched => simpa [advance] using hentry
  | indexes indexed size =>
    simp only [advance, ChunkCache.indexEntry_find]
    by_cases heq : indexed = encodedHash
    · simp [heq]
    · simpa [heq] using hentry
  | chooses =>
    unfold advance
    cases cache.candidate <;> exact hentry
  | deletes victims reason => cases victims <;> exact hentry
  | removes victim rest reason =>
    have hne : encodedHash ≠ victim := by
      rintro rfl
      cases reason with
      | evicts | clears => exact hdoomed mem_cons_self
      | discards => exact hdiscards rfl
    simpa [advance, hne] using hentry
  | ended => exact hentry

theorem file_advance (hdoomed : encodedHash ∉ task.doomed) (hdiscards : ¬ task.Discards encodedHash)
    (hfile : (cache.file encodedHash).isSome) :
    ((task.advance now cache).1.file encodedHash).isSome := by
  cases task with
  | deletes victims reason =>
    cases victims with
    | nil => exact hfile
    | cons victim rest =>
      have hne : encodedHash ≠ victim := by
        rintro rfl
        cases reason with
        | evicts | clears => exact hdoomed mem_cons_self
        | discards => exact hdiscards rfl
      simpa [advance, hne] using hfile
  | chooses =>
    unfold advance
    cases cache.candidate <;> exact hfile
  | touches | indexes | removes | ended => exact hfile

end CacheTask

/-! ### The shared cache -/

/-- A cache with the hashes of the leases that are not yet disposed, and the tasks. -/
structure LeasedCache where
  cache : ChunkCache
  live : List Text
  tasks : List CacheTask

/-- A step: the lock section of a pin or of a release, the start of an operation, the next step of a
task, or an exception that stops a task. -/
inductive CacheEvent
  | pin (encodedHash : Text)
  | dispose (encodedHash : Text)
  | put (encodedHash : Text) (content : Bytes)
  | read (encodedHash : Text)
  | clear
  | advance (task : ℕ) (now : ℤ)
  | stop (task : ℕ)
  deriving DecidableEq, Repr

namespace LeasedCache

/-- A cache without leases and without tasks. -/
def start (cache : ChunkCache) : LeasedCache where
  cache := { cache with pinned := [] }
  live := []
  tasks := []

/-- The task that follows what a read finds. -/
def readTask (hash : Bytes → Digest) (encodedHash : Text) : Option Bytes → CacheTask
  | none => .ended
  | some content =>
    if (hash content).hex ≠ encodedHash then .deletes [encodedHash] .discards
    else .touches encodedHash

def step (hash : Bytes → Digest) (state : LeasedCache) : CacheEvent → LeasedCache
  | .pin encodedHash =>
    if isHash encodedHash then
      { state with cache := state.cache.pin encodedHash, live := encodedHash :: state.live }
    else state
  | .dispose encodedHash =>
    if encodedHash ∈ state.live then
      { state with
        cache := state.cache.unpin encodedHash
        live := state.live.erase encodedHash }
    else state
  | .put encodedHash content =>
    if isHash encodedHash ∧ (hash content).hex = encodedHash then
      { state with
        cache := state.cache.moveFile encodedHash content
        tasks := state.tasks ++ [.indexes encodedHash content.length] }
    else state
  | .read encodedHash =>
    if isHash encodedHash then
      { state with
        tasks := state.tasks ++ [readTask hash encodedHash (state.cache.file encodedHash)] }
    else state
  | .clear =>
    { state with tasks := state.tasks ++ [.deletes state.cache.unpinnedHashes .clears] }
  | .advance task now =>
    match state.tasks[task]? with
    | none => state
    | some current =>
      { state with
        cache := (current.advance now state.cache).1
        tasks := state.tasks.set task (current.advance now state.cache).2 }
  | .stop task => { state with tasks := state.tasks.set task .ended }

/-- A step of a read that deletes a file that does not have its hash, or its entry. -/
def Discards (state : LeasedCache) (encodedHash : Text) : CacheEvent → Prop
  | .advance task _ => ∃ current, state.tasks[task]? = some current ∧ current.Discards encodedHash
  | _ => False

/-- The step neither evicts nor clears the entry or the file of a live lease. -/
structure Protects (hash : Bytes → Digest) (state : LeasedCache) (event : CacheEvent) : Prop where
  entry : ∀ encodedHash ∈ state.live, ¬ state.Discards encodedHash event →
    (state.cache.entries.find encodedHash).isSome →
      ((state.step hash event).cache.entries.find encodedHash).isSome
  file : ∀ encodedHash ∈ state.live, ¬ state.Discards encodedHash event →
    (state.cache.file encodedHash).isSome → ((state.step hash event).cache.file encodedHash).isSome

/-- A lease is disposed only as the last of its hash, and no hash is pinned that a task is about to
evict or to clear. -/
def Careful (state : LeasedCache) : CacheEvent → Prop
  | .pin encodedHash => ∀ task ∈ state.tasks, encodedHash ∉ task.doomed
  | .dispose encodedHash => state.live.count encodedHash ≤ 1
  | _ => True

instance (state : LeasedCache) : (event : CacheEvent) → Decidable (state.Careful event)
  | .pin encodedHash =>
    inferInstanceAs (Decidable (∀ task ∈ state.tasks, encodedHash ∉ task.doomed))
  | .dispose encodedHash => inferInstanceAs (Decidable (state.live.count encodedHash ≤ 1))
  | .put _ _ | .read _ | .clear | .advance _ _ | .stop _ => isTrue trivial

/-- The set of pins is the hashes of the live leases, and no task is about to evict or to clear one
of them. -/
structure Guarded (state : LeasedCache) : Prop where
  pinned : ∀ encodedHash, encodedHash ∈ state.cache.pinned ↔ encodedHash ∈ state.live
  spared : ∀ task ∈ state.tasks, ∀ encodedHash ∈ task.doomed, encodedHash ∉ state.live

variable {hash : Bytes → Digest} {state : LeasedCache}

theorem guarded_start (cache : ChunkCache) : (start cache).Guarded where
  pinned _ := Iff.rfl
  spared _ htask := absurd htask not_mem_nil

theorem Guarded.add {cache : ChunkCache} (h : state.Guarded)
    (hpinned : cache.pinned = state.cache.pinned)
    (htask : ∀ encodedHash ∈ task.doomed, encodedHash ∉ state.cache.pinned) :
    Guarded { state with cache, tasks := state.tasks ++ [task] } where
  pinned encodedHash := by
    show encodedHash ∈ cache.pinned ↔ encodedHash ∈ state.live
    rw [hpinned, h.pinned]
  spared other hother encodedHash hdoomed := by
    rcases mem_append.mp hother with hbefore | hnew
    · exact h.spared other hbefore encodedHash hdoomed
    · rw [mem_singleton.mp hnew] at hdoomed
      rw [← h.pinned]
      exact htask encodedHash hdoomed

theorem Guarded.set {cache : ChunkCache} (h : state.Guarded) (index : ℕ)
    (hpinned : cache.pinned = state.cache.pinned)
    (htask : ∀ encodedHash ∈ task.doomed, encodedHash ∉ state.live) :
    Guarded { state with cache, tasks := state.tasks.set index task } where
  pinned encodedHash := by
    show encodedHash ∈ cache.pinned ↔ encodedHash ∈ state.live
    rw [hpinned, h.pinned]
  spared other hother encodedHash hdoomed := by
    rcases mem_or_eq_of_mem_set hother with hbefore | rfl
    · exact h.spared other hbefore encodedHash hdoomed
    · exact htask encodedHash hdoomed

theorem Guarded.step (h : state.Guarded) (event : CacheEvent) (hcareful : state.Careful event) :
    (state.step hash event).Guarded := by
  cases event with
  | pin encodedHash =>
    simp only [LeasedCache.step]
    split_ifs
    · constructor
      · intro other
        show other ∈ encodedHash :: state.cache.pinned ↔ other ∈ encodedHash :: state.live
        rw [mem_cons, mem_cons, h.pinned]
      · intro task htask other hdoomed hlive
        rcases mem_cons.mp hlive with rfl | hlive
        · exact hcareful task htask hdoomed
        · exact h.spared task htask other hdoomed hlive
    · exact h
  | dispose encodedHash =>
    simp only [LeasedCache.step]
    split_ifs with hlive
    · constructor
      · intro other
        show other ∈ state.cache.pinned.filter (· ≠ encodedHash) ↔
          other ∈ state.live.erase encodedHash
        by_cases heq : other = encodedHash
        · -- the disposed lease was the last of its hash
          have hlast : encodedHash ∉ state.live.erase encodedHash := by
            rw [← count_pos_iff, count_erase_self]
            have hone : state.live.count encodedHash ≤ 1 := hcareful
            omega
          simp [heq, hlast]
        · rw [mem_erase_of_ne heq, ← h.pinned]
          simp [heq]
      · intro task htask other hdoomed hleft
        exact h.spared task htask other hdoomed (mem_of_mem_erase hleft)
    · exact h
  | put encodedHash content =>
    simp only [LeasedCache.step]
    split_ifs
    · exact h.add rfl fun _ hdoomed ↦ absurd hdoomed not_mem_nil
    · exact h
  | read encodedHash =>
    simp only [LeasedCache.step]
    split_ifs
    · refine h.add rfl fun other hdoomed ↦ absurd hdoomed ?_
      cases state.cache.file encodedHash with
      | none => exact not_mem_nil
      | some content =>
        simp only [readTask]
        split_ifs <;> exact not_mem_nil
    · exact h
  | clear =>
    refine h.add rfl fun other hdoomed ↦ ?_
    exact of_decide_eq_true (mem_filter.mp hdoomed).2
  | advance task now =>
    simp only [LeasedCache.step]
    cases hcurrent : state.tasks[task]? with
    | none => exact h
    | some current =>
      refine h.set task (current.advance_pinned now state.cache) fun other hdoomed ↦ ?_
      rcases CacheTask.mem_doomed_advance hdoomed with hbefore | hfree
      · exact h.spared current (mem_of_getElem? hcurrent) other hbefore
      · exact fun hlive ↦ hfree ((h.pinned other).mpr hlive)
  | stop task => exact h.set task rfl fun _ hdoomed ↦ absurd hdoomed not_mem_nil

theorem Guarded.protects (h : state.Guarded) (event : CacheEvent) :
    state.Protects hash event := by
  cases event with
  | pin _ | dispose _ | read _ =>
    constructor <;> intro other _ _ hbefore <;> simp only [LeasedCache.step] <;> split_ifs <;>
      exact hbefore
  | put encodedHash content =>
    constructor
    · intro other _ _ hentry
      simp only [LeasedCache.step]
      split_ifs <;> exact hentry
    · intro other _ _ hfile
      simp only [LeasedCache.step]
      split_ifs
      · show ((state.cache.moveFile encodedHash content).file other).isSome
        by_cases heq : encodedHash = other
        · simp [heq]
        · simpa [heq] using hfile
      · exact hfile
  | clear | stop _ => exact ⟨fun _ _ _ hentry ↦ hentry, fun _ _ _ hfile ↦ hfile⟩
  | advance task now =>
    cases hcurrent : state.tasks[task]? with
    | none =>
      have hsame : state.step hash (.advance task now) = state := by
        simp only [LeasedCache.step, hcurrent]
      constructor <;> intro other _ _ hbefore <;> rwa [hsame]
    | some current =>
      have hcache : (state.step hash (.advance task now)).cache =
          (current.advance now state.cache).1 := by
        simp only [LeasedCache.step, hcurrent]
      have hspared (other : Text) (hlive : other ∈ state.live) : other ∉ current.doomed :=
        fun hdoomed ↦ h.spared current (mem_of_getElem? hcurrent) other hdoomed hlive
      constructor
      · intro other hlive hdiscards hentry
        rw [hcache]
        exact CacheTask.entry_advance (hspared other hlive)
          (fun htask ↦ hdiscards ⟨current, hcurrent, htask⟩) hentry
      · intro other hlive hdiscards hfile
        rw [hcache]
        exact CacheTask.file_advance (hspared other hlive)
          (fun htask ↦ hdiscards ⟨current, hcurrent, htask⟩) hfile

end LeasedCache

/-- In every run whose steps are careful, no step evicts or clears the entry or the file of a live
lease. -/
theorem live_pins_protect (hash : Bytes → Digest) (cache : ChunkCache) (state : LeasedCache)
    (hreached : Reaches (LeasedCache.step hash) LeasedCache.Careful (.start cache) state)
    (event : CacheEvent) : state.Protects hash event := by
  have hguarded : state.Guarded := hreached.invariant LeasedCache.Guarded
    (LeasedCache.guarded_start cache) fun _ event hstate hcareful ↦ hstate.step event hcareful
  exact hguarded.protects event

/-! ### Two leases of one hash -/

/-- A chunk is put, and a second chunk leaves no room for both; its put has chosen what gives way
and has deleted the file. -/
def fillsCache : List CacheEvent :=
  [.put firstDigest.hex (frameOf 97), .advance 0 0, .advance 0 0,
    .put secondDigest.hex (frameOf 98), .advance 1 1, .advance 1 2, .advance 1 2]

/-- A cache with room for one chunk, after these pins and releases and the two puts. -/
def leasedFull (leases : List CacheEvent) : LeasedCache :=
  (leases ++ fillsCache).foldl (LeasedCache.step frameHash) (.start (emptyCache 15))

/-- Under one lease, the second chunk gives way. -/
theorem live_pins_protect_leased :
    (leasedFull [.pin firstDigest.hex]).cache.file secondDigest.hex = none ∧
      (leasedFull [.pin firstDigest.hex]).Protects frameHash (.advance 1 2) :=
  ⟨by decide, live_pins_protect frameHash (emptyCache 15) _
    (Reaches.foldl .refl (by decide)) (.advance 1 2)⟩

/-- Of two leases of one hash, the release of one lets the eviction loop take the entry of the
other. -/
theorem overlapping_leases_lose_entry :
    firstDigest.hex ∈
        (leasedFull [.pin firstDigest.hex, .pin firstDigest.hex, .dispose firstDigest.hex]).live ∧
      ¬ (leasedFull [.pin firstDigest.hex, .pin firstDigest.hex,
        .dispose firstDigest.hex]).Protects frameHash (.advance 1 2) := by
  refine ⟨by decide, fun hprotects ↦ ?_⟩
  refine absurd (hprotects.entry firstDigest.hex (by decide) ?_ (by decide))
    (by decide)
  rintro ⟨current, hcurrent, hdiscards⟩
  have hevicts : current = .removes firstDigest.hex [] .evicts :=
    Option.some_inj.mp (hcurrent.symm.trans (by decide))
  rw [hevicts] at hdiscards
  exact hdiscards

end GameLauncher.Downloads
