import GameLauncher.Foundation.Table
import GameLauncher.Packs.PhysicalReader
import Mathlib.Data.List.MinMax

/-!
# The chunk cache of the launcher

`ChunkCache` and `PackCache` of `Launcher.Storage` are the same code over two directories: files
named by the hash of their content, an index of sizes and last accesses with the sum of the sizes,
a set of pinned hashes, and an eviction loop that runs after every put. The running total is a
field of its own, as in the source; that it is the sum of the sizes in the index is carried by the
type.

The parts of an operation that other tasks can observe apart from each other are definitions of
their own (`touch`, `deleteFile`, `removeEntry`, `moveFile`, `indexEntry` and `candidate`), so that
a run of parallel tasks can interleave them; `readAsync`, `putAsync` and `evictIfNeededAsync`
compose them for a caller that runs alone.

The sizes and times of the source are `long` and `DateTime`; the sum of the sizes of files that
exist on one disk does not leave the range of a `long`. Faults of the disk are left out.
-/

set_option autoImplicit false

namespace GameLauncher.Downloads

open Foundation Fallible Packs List Table

/-! ### Exceptions -/

inductive LauncherException
  | httpRequest (message : String)
  | invalidData (message : String)
  | io (message : String)
  | launcherOperation (message : String)
  | keyNotFound (message : String)
  | argument (message : String)
  | argumentOutOfRange
  | overflow
  | json
  | operationCanceled
  deriving DecidableEq, Repr

def LauncherException.ofPack : PackException → LauncherException
  | .invalidData message => .invalidData message
  | .overflow => .overflow
  | .argumentOutOfRange => .argumentOutOfRange
  | .argument => .argument "An item with the same key has already been added."
  | .keyNotFound message => .keyNotFound message

def isHash (value : Text) : Bool :=
  (utf16 value).length = 64 && !(utf16 value).any fun unit ↦ !isHexDigit unit || isUpper unit

@[simp] theorem isHash_iff (value : Text) : isHash value = true ↔ IsHash value := by
  rw [← utf16_hash_iff]
  simp only [isHash, Bool.and_eq_true, decide_eq_true_eq, Bool.not_eq_true']

def validateHash (value : Text) : Except LauncherException Unit :=
  throwIf (isHash value = false) (.argument "Expected a lowercase BLAKE3 hash. (Parameter 'hash')")

/-! ### The cache -/

/-- A file of the cache directory, by its name without the extension. -/
structure CacheFile where
  name : Text
  content : Bytes
  deriving DecidableEq, Repr

structure CacheEntry where
  encodedHash : Text
  size : ℕ
  lastAccess : ℤ
  deriving DecidableEq, Repr

/-- The directory, the index, the pinned hashes and the running total of the sizes. -/
structure ChunkCache where
  maxBytes : ℕ
  files : Table CacheFile CacheFile.name
  entries : Table CacheEntry CacheEntry.encodedHash
  pinned : List Text
  currentBytes : ℤ
  accounted : currentBytes = entries.total fun entry ↦ entry.size

abbrev PackCache := ChunkCache

namespace ChunkCache

theorem accounted_empty :
    (0 : ℤ) = (Table.empty : Table CacheEntry CacheEntry.encodedHash).total fun entry ↦ entry.size :=
  rfl

def file (cache : ChunkCache) (encodedHash : Text) : Option Bytes :=
  (cache.files.find encodedHash).map CacheFile.content

def indexedSize (cache : ChunkCache) (encodedHash : Text) : ℤ :=
  (cache.entries.find encodedHash).elim 0 fun entry ↦ entry.size

/-- The bytes that a read of a hash returns. -/
def verified (hash : Bytes → Digest) (cache : ChunkCache) (encodedHash : Text) : Option Bytes :=
  (cache.file encodedHash).filter fun bytes ↦ (hash bytes).hex = encodedHash

section

variable (cache : ChunkCache) (encodedHash : Text)

/-- `entry with { LastAccess = DateTime.UtcNow }`, under the lock. -/
def touch (now : ℤ) : ChunkCache :=
  { cache with
    entries := cache.entries.updateWhere (fun entry ↦ entry.encodedHash = encodedHash)
      (fun entry ↦ { entry with lastAccess := now }) fun _ ↦ rfl
    accounted := by
      rw [cache.accounted, total_updateWhere_of_eq]
      exact fun _ ↦ rfl }

/-- `File.Delete`. -/
def deleteFile : ChunkCache :=
  { cache with files := cache.files.deleteWhere fun file ↦ file.name = encodedHash }

/-- `_entries.Remove` with the correction of the total, under the lock. -/
def removeEntry : ChunkCache :=
  { cache with
    entries := cache.entries.deleteWhere fun entry ↦ entry.encodedHash = encodedHash
    currentBytes := cache.currentBytes - cache.indexedSize encodedHash
    accounted := by
      rw [total_deleteKey, cache.accounted]
      rfl }

/-- `File.Move` of a complete file to the path of its hash. -/
def moveFile (content : Bytes) : ChunkCache :=
  { cache with files := cache.files.upsert { name := encodedHash, content } }

/-- The new index entry of a file that was put, under the lock. -/
def indexEntry (size : ℕ) (now : ℤ) : ChunkCache :=
  { cache with
    entries := cache.entries.upsert { encodedHash, size, lastAccess := now }
    currentBytes := cache.currentBytes - cache.indexedSize encodedHash + size
    accounted := by
      rw [total_upsert, cache.accounted]
      change _ = (size : ℤ) + _ - cache.indexedSize encodedHash
      omega }

end

/-- The order of the times of access. -/
local instance (priority := 2000) accessOrder : Preorder ℤ := Int.instLinearOrder.toPreorder

/-- The choice of `EvictIfNeededAsync`, under the lock: the least recently used entry that is not
pinned, while the total is above the limit. -/
def candidate (cache : ChunkCache) : Option Text :=
  if cache.currentBytes ≤ cache.maxBytes then none
  else ((cache.entries.rows.filter fun entry ↦ entry.encodedHash ∉ cache.pinned).argmin
    CacheEntry.lastAccess).map CacheEntry.encodedHash

def deleteAsync (cache : ChunkCache) (encodedHash : Text) : ChunkCache :=
  (cache.deleteFile encodedHash).removeEntry encodedHash

/-- The loop of `EvictIfNeededAsync`, for at most the given number of rounds. -/
def evict : ℕ → ChunkCache → ChunkCache
  | 0, cache => cache
  | rounds + 1, cache =>
    match cache.candidate with
    | none => cache
    | some victim => evict rounds (cache.deleteAsync victim)

/-- `EvictIfNeededAsync`: every round removes an entry, so there are no more rounds than entries. -/
def evictIfNeededAsync (cache : ChunkCache) : ChunkCache :=
  evict cache.entries.rows.length cache

/-- `InitializeAsync`: the index of the files whose names are hashes, and an eviction. -/
def initializeAsync (lastAccessTime : Text → ℤ) (cache : ChunkCache) : ChunkCache :=
  let entries : Table CacheEntry CacheEntry.encodedHash :=
    { rows := (cache.files.rows.filter fun file ↦ isHash file.name).map fun file ↦
        { encodedHash := file.name
          size := file.content.length
          lastAccess := lastAccessTime file.name }
      keys_nodup := by
        rw [map_map]
        exact cache.files.keys_nodup.sublist (filter_sublist.map CacheFile.name) }
  evictIfNeededAsync
    { cache with entries, currentBytes := entries.total fun entry ↦ entry.size, accounted := rfl }

/-- `ReadAsync`: a file whose content does not have its hash is deleted. -/
def readAsync (hash : Bytes → Digest) (now : ℤ) (encodedHash : Text) (cache : ChunkCache) :
    Except LauncherException (Option Bytes) × ChunkCache :=
  match validateHash encodedHash, cache.file encodedHash with
  | .error failure, _ => (.error failure, cache)
  | .ok (), none => (.ok none, cache)
  | .ok (), some bytes =>
    if (hash bytes).hex ≠ encodedHash then (.ok none, cache.deleteAsync encodedHash)
    else (.ok (some bytes), cache.touch encodedHash now)

/-- The common code of the two `PutAsync`, which differ in the message for a wrong hash. -/
def put (mismatch : String) (hash : Bytes → Digest) (now : ℤ) (encodedHash : Text) (bytes : Bytes)
    (cache : ChunkCache) : Except LauncherException Unit × ChunkCache :=
  match validateHash encodedHash with
  | .error failure => (.error failure, cache)
  | .ok () =>
    if (hash bytes).hex ≠ encodedHash then (.error (.invalidData mismatch), cache)
    else (.ok (), evictIfNeededAsync
      ((cache.moveFile encodedHash bytes).indexEntry encodedHash bytes.length now))

/-- `ChunkCache.PutAsync`. -/
def putAsync : (Bytes → Digest) → ℤ → Text → Bytes → ChunkCache →
    Except LauncherException Unit × ChunkCache :=
  put "Encoded chunk hash mismatch."

/-! ### What the parts of an operation change -/

section Parts

variable (cache : ChunkCache) (encodedHash other : Text) (content : Bytes) (size : ℕ) (now : ℤ)

@[simp] theorem touch_maxBytes : (cache.touch encodedHash now).maxBytes = cache.maxBytes := rfl
@[simp] theorem deleteFile_maxBytes : (cache.deleteFile encodedHash).maxBytes = cache.maxBytes := rfl
@[simp] theorem removeEntry_maxBytes :
    (cache.removeEntry encodedHash).maxBytes = cache.maxBytes := rfl
@[simp] theorem moveFile_maxBytes :
    (cache.moveFile encodedHash content).maxBytes = cache.maxBytes := rfl
@[simp] theorem indexEntry_maxBytes :
    (cache.indexEntry encodedHash size now).maxBytes = cache.maxBytes := rfl

@[simp] theorem touch_pinned : (cache.touch encodedHash now).pinned = cache.pinned := rfl
@[simp] theorem deleteFile_pinned : (cache.deleteFile encodedHash).pinned = cache.pinned := rfl
@[simp] theorem removeEntry_pinned : (cache.removeEntry encodedHash).pinned = cache.pinned := rfl
@[simp] theorem moveFile_pinned : (cache.moveFile encodedHash content).pinned = cache.pinned := rfl
@[simp] theorem indexEntry_pinned :
    (cache.indexEntry encodedHash size now).pinned = cache.pinned := rfl

@[simp] theorem touch_file : (cache.touch encodedHash now).file other = cache.file other := rfl
@[simp] theorem removeEntry_file : (cache.removeEntry encodedHash).file other = cache.file other := rfl
@[simp] theorem indexEntry_file :
    (cache.indexEntry encodedHash size now).file other = cache.file other := rfl

@[simp] theorem deleteFile_file :
    (cache.deleteFile encodedHash).file other =
      if other = encodedHash then none else cache.file other := by
  change Option.map _ ((cache.files.deleteWhere _).find other) = _
  rw [find_deleteKey]
  split_ifs <;> rfl

@[simp] theorem moveFile_file :
    (cache.moveFile encodedHash content).file other =
      if encodedHash = other then some content else cache.file other := by
  change Option.map _ ((cache.files.upsert _).find other) = _
  rw [find_upsert]
  split_ifs <;> rfl

@[simp] theorem deleteFile_entries : (cache.deleteFile encodedHash).entries = cache.entries := rfl
@[simp] theorem moveFile_entries : (cache.moveFile encodedHash content).entries = cache.entries := rfl

@[simp] theorem touch_find :
    (cache.touch encodedHash now).entries.find other = (cache.entries.find other).map fun entry ↦
      if entry.encodedHash = encodedHash then { entry with lastAccess := now } else entry := by
  rw [touch, find_updateWhere]
  simp only [decide_eq_true_eq]

@[simp] theorem removeEntry_find :
    (cache.removeEntry encodedHash).entries.find other =
      if other = encodedHash then none else cache.entries.find other :=
  find_deleteKey encodedHash other

@[simp] theorem indexEntry_find :
    (cache.indexEntry encodedHash size now).entries.find other =
      if encodedHash = other then some { encodedHash, size, lastAccess := now }
      else cache.entries.find other :=
  find_upsert other

theorem indexedSize_nonneg : 0 ≤ cache.indexedSize encodedHash := by
  unfold indexedSize
  cases cache.entries.find encodedHash with
  | none => exact le_refl 0
  | some entry => exact Int.natCast_nonneg entry.size

end Parts

theorem verified_eq_some {hash : Bytes → Digest} {cache : ChunkCache} {encodedHash : Text}
    {bytes : Bytes} : cache.verified hash encodedHash = some bytes ↔
      cache.file encodedHash = some bytes ∧ (hash bytes).hex = encodedHash := by
  simp only [verified, Option.filter_eq_some_iff, decide_eq_true_eq]

/-! ### Eviction -/

/-- What is evicted is the first of the oldest entries that are not pinned, and the total is above
the limit. -/
theorem candidate_eq_some {cache : ChunkCache} {victim : Text} :
    cache.candidate = some victim ↔ (cache.maxBytes : ℤ) < cache.currentBytes ∧
      ∃ entry, (cache.entries.rows.filter fun entry ↦ entry.encodedHash ∉ cache.pinned).argmin
        CacheEntry.lastAccess = some entry ∧ entry.encodedHash = victim := by
  unfold candidate
  split_ifs with hlimit
  · simp [not_lt.mpr hlimit]
  · rw [Option.map_eq_some_iff]
    simp [not_le.mp hlimit]

theorem candidate_eq_none {cache : ChunkCache} :
    cache.candidate = none ↔ cache.currentBytes ≤ cache.maxBytes ∨
      ∀ entry ∈ cache.entries, entry.encodedHash ∈ cache.pinned := by
  unfold candidate
  split_ifs with hlimit
  · simp [hlimit]
  · rw [Option.map_eq_none_iff, argmin_eq_none, filter_eq_nil_iff]
    simp only [decide_eq_true_eq, not_not, hlimit, false_or]
    exact Iff.rfl

theorem evict_induction (property : ChunkCache → Prop)
    (hdelete : ∀ cache victim, property cache → cache.candidate = some victim →
      property (cache.deleteAsync victim)) (rounds : ℕ) {cache : ChunkCache} (h : property cache) :
    property (evict rounds cache) := by
  induction rounds generalizing cache with
  | zero => exact h
  | succ rounds ih =>
    cases hcandidate : cache.candidate with
    | none => simpa only [evict, hcandidate] using h
    | some victim =>
      simp only [evict, hcandidate]
      exact ih (hdelete cache victim h hcandidate)

theorem candidate_evict (rounds : ℕ) (cache : ChunkCache)
    (hlength : cache.entries.rows.length ≤ rounds) : (evict rounds cache).candidate = none := by
  induction rounds generalizing cache with
  | zero =>
    have hrows : cache.entries.rows = [] := length_eq_zero_iff.mp (Nat.le_zero.mp hlength)
    refine candidate_eq_none.mpr (.inr fun entry hentry ↦ ?_)
    have hnil : entry ∈ [] := hrows ▸ hentry
    exact absurd hnil not_mem_nil
  | succ rounds ih =>
    cases hcandidate : cache.candidate with
    | none => simp only [evict, hcandidate]
    | some victim =>
      simp only [evict, hcandidate]
      refine ih _ ?_
      obtain ⟨-, entry, hargmin, hvictim⟩ := candidate_eq_some.mp hcandidate
      have hentry := (mem_filter.mp (argmin_mem hargmin)).1
      have hshorter : (cache.deleteAsync victim).entries.rows.length <
          cache.entries.rows.length := by
        refine length_filter_lt_length_iff_exists.mpr ⟨entry, hentry, ?_⟩
        simp [hvictim]
      omega

theorem candidate_evictIfNeededAsync (cache : ChunkCache) :
    cache.evictIfNeededAsync.candidate = none :=
  candidate_evict _ cache le_rfl

end ChunkCache

/-- `PackCache.PutAsync`. -/
def PackCache.putAsync : (Bytes → Digest) → ℤ → Text → Bytes → PackCache →
    Except LauncherException Unit × PackCache :=
  ChunkCache.put "Physical pack hash mismatch."

end GameLauncher.Downloads
