import GameLauncher.Downloads.ChunkCache

/-!
# Sequences of operations on the chunk cache

The public operations of `ChunkCache`, one after the other, from a new cache over a directory with
any files. Every operation may be interrupted: an exception may stop it before it changes anything,
`InitializeAsync` and `ClearAsync` in the middle of their lists, and the eviction loop after any
number of rounds. The pack cache has the same operations but `PutFileAsync` and `ClearAsync`.

`StepSound` is what an operation has to keep: the running total, the files of the index, the bytes
that a read returns, the limit after a put, and the order of the evictions. The order is that of the
last uses, which `CacheRun` records beside the cache.

Outside changes to the files of the directory are left out, and so is a source of `PutFileAsync`
that is itself a file of the index: its callers pass partial files.
-/

set_option autoImplicit false

namespace GameLauncher.Downloads

open Foundation Fallible Packs List Table

/-! ### Operations -/

/-- Where an exception stops an operation: before it changes the index, after a number of rounds of
the eviction loop, or nowhere. -/
inductive Interruption
  | before (exception : LauncherException)
  | evicting (rounds : ℕ) (exception : LauncherException)
  | never

/-- The operations, with the times and the content that they find. -/
inductive CacheOperation
  | initialise (lastAccessTime : Text → ℤ) (listed : Text → Bool) (interruption : Interruption)
  | put (mismatch : String) (now : ℤ) (encodedHash : Text) (bytes : Bytes)
      (interruption : Interruption)
  | putFile (now : ℤ) (encodedHash : Text) (source : Option Bytes) (interruption : Interruption)
  | read (now : ℤ) (encodedHash : Text) (failure : Option LauncherException)
  | pin (encodedHash : Text)
  | unpin (encodedHash : Text)
  | clear (failure : Option (LauncherException × (Text → Bool)))

/-- How an operation ends. -/
inductive Reply
  | done
  | bytes (content : Option Bytes)
  | thrown (exception : LauncherException)
  deriving DecidableEq, Repr

namespace ChunkCache

def new (maxBytes : ℕ) (files : Table CacheFile CacheFile.name) : ChunkCache where
  maxBytes := maxBytes
  files := files
  entries := Table.empty
  pinned := []
  currentBytes := 0
  accounted := accounted_empty

/-- The loop of `InitializeAsync` over the files that are listed. -/
def indexFiles (lastAccessTime : Text → ℤ) (listed : Text → Bool) (cache : ChunkCache) :
    ChunkCache :=
  let entries : Table CacheEntry CacheEntry.encodedHash :=
    { rows := (cache.files.rows.filter fun file ↦ listed file.name && isHash file.name).map
        fun file ↦
          { encodedHash := file.name
            size := file.content.length
            lastAccess := lastAccessTime file.name }
      keys_nodup := by
        rw [map_map]
        exact cache.files.keys_nodup.sublist (filter_sublist.map CacheFile.name) }
  { cache with entries, currentBytes := entries.total fun entry ↦ entry.size, accounted := rfl }

def placed (cache : ChunkCache) (encodedHash : Text) (bytes : Bytes) (now : ℤ) : ChunkCache :=
  (cache.moveFile encodedHash bytes).indexEntry encodedHash bytes.length now

/-- The number of rounds that the eviction loop may make. -/
def evictionRounds (cache : ChunkCache) : Interruption → ℕ
  | .evicting rounds _ => rounds
  | _ => cache.entries.rows.length

/-- `EvictIfNeededAsync` with an interruption: the exception comes in place of the next deletion. -/
def evictUntil (interruption : Interruption) (cache : ChunkCache) : Reply × ChunkCache :=
  let left := evict (cache.evictionRounds interruption) cache
  match interruption with
  | .evicting _ exception => (if left.candidate = none then .done else .thrown exception, left)
  | _ => (.done, left)

def pin (cache : ChunkCache) (encodedHash : Text) : ChunkCache :=
  { cache with pinned := encodedHash :: cache.pinned }

/-- The release of a `PinLease`. -/
def unpin (cache : ChunkCache) (encodedHash : Text) : ChunkCache :=
  { cache with pinned := cache.pinned.filter (· ≠ encodedHash) }

/-- The hashes that `ClearAsync` takes from the index. -/
def unpinnedHashes (cache : ChunkCache) : List Text :=
  (cache.entries.rows.map CacheEntry.encodedHash).filter (· ∉ cache.pinned)

/-- The loop of `ClearAsync`. -/
def deleteAll (cache : ChunkCache) (hashes : List Text) : ChunkCache :=
  hashes.foldl deleteAsync cache

/-- The entries that the eviction loop deletes, in its order. -/
def victims : ℕ → ChunkCache → List CacheEntry
  | 0, _ => []
  | rounds + 1, cache =>
    match cache.candidate with
    | none => []
    | some victim => (cache.entries.find victim).toList ++ victims rounds (cache.deleteAsync victim)

end ChunkCache

/-- An operation up to its eviction loop: it has ended, or it evicts next. -/
inductive Prepared
  | ended (reply : Reply) (cache : ChunkCache)
  | evicts (interruption : Interruption) (cache : ChunkCache)

/-- `InitializeAsync`. -/
def prepareInitialise (lastAccessTime : Text → ℤ) (listed : Text → Bool)
    (interruption : Interruption) (cache : ChunkCache) : Prepared :=
  match interruption with
  | .before exception => .ended (.thrown exception) (cache.indexFiles lastAccessTime listed)
  | _ => .evicts interruption (cache.indexFiles lastAccessTime fun _ ↦ true)

/-- The two puts; the bytes of `PutAsync` are always there. -/
def preparePut (hash : Bytes → Digest) (mismatch : String) (now : ℤ) (encodedHash : Text)
    (source : Option Bytes) (interruption : Interruption) (cache : ChunkCache) : Prepared :=
  match validateHash encodedHash, source with
  | .error exception, _ => .ended (.thrown exception) cache
  | .ok (), none => .ended (.thrown (.io "Chunk source file was not found.")) cache
  | .ok (), some bytes =>
    if (hash bytes).hex ≠ encodedHash then .ended (.thrown (.invalidData mismatch)) cache
    else
      match interruption with
      | .before exception => .ended (.thrown exception) cache
      | _ => .evicts interruption (cache.placed encodedHash bytes now)

/-- `ReadAsync`. -/
def prepareRead (hash : Bytes → Digest) (now : ℤ) (encodedHash : Text)
    (failure : Option LauncherException) (cache : ChunkCache) : Prepared :=
  match failure with
  | some exception => .ended (.thrown exception) cache
  | none =>
    match cache.readAsync hash now encodedHash with
    | (.error exception, left) => .ended (.thrown exception) left
    | (.ok content, left) => .ended (.bytes content) left

/-- `Pin`. -/
def preparePin (encodedHash : Text) (cache : ChunkCache) : Prepared :=
  match validateHash encodedHash with
  | .error exception => .ended (.thrown exception) cache
  | .ok () => .ended .done (cache.pin encodedHash)

/-- `ClearAsync`. -/
def prepareClear (failure : Option (LauncherException × (Text → Bool))) (cache : ChunkCache) :
    Prepared :=
  match failure with
  | some (exception, deleted) =>
    .ended (.thrown exception) (cache.deleteAll (cache.unpinnedHashes.filter deleted))
  | none => .ended .done (cache.deleteAll cache.unpinnedHashes)

/-- An operation up to its eviction loop. -/
def prepare (hash : Bytes → Digest) (cache : ChunkCache) : CacheOperation → Prepared
  | .initialise lastAccessTime listed interruption =>
    prepareInitialise lastAccessTime listed interruption cache
  | .put mismatch now encodedHash bytes interruption =>
    preparePut hash mismatch now encodedHash (some bytes) interruption cache
  | .putFile now encodedHash source interruption =>
    preparePut hash "Encoded chunk hash mismatch." now encodedHash source interruption cache
  | .read now encodedHash failure => prepareRead hash now encodedHash failure cache
  | .pin encodedHash => preparePin encodedHash cache
  | .unpin encodedHash => .ended .done (cache.unpin encodedHash)
  | .clear failure => prepareClear failure cache

/-- The cache after an operation up to its eviction loop. -/
def Prepared.cache : Prepared → ChunkCache
  | .ended _ cache | .evicts _ cache => cache

/-- The entries that an operation evicts, in its order. -/
def Prepared.evicted : Prepared → List CacheEntry
  | .ended _ _ => []
  | .evicts interruption cache => cache.victims (cache.evictionRounds interruption)

def perform (hash : Bytes → Digest) (cache : ChunkCache) (operation : CacheOperation) :
    Reply × ChunkCache :=
  match prepare hash cache operation with
  | .ended reply left => (reply, left)
  | .evicts interruption left => left.evictUntil interruption

/-! ### The last uses -/

/-- The operation uses its hash: a put that reaches its eviction loop, or a read that returns
bytes. -/
def Prepared.used : Prepared → Bool
  | .evicts _ _ | .ended (.bytes (some _)) _ => true
  | _ => false

/-- The last uses after an operation: a put and a read use their hash now, and `InitializeAsync`
takes the times of the files. -/
def lastUseAfter (hash : Bytes → Digest) (cache : ChunkCache) (lastUse : Text → ℤ)
    (operation : CacheOperation) : Text → ℤ :=
  match operation with
  | .initialise lastAccessTime _ _ => lastAccessTime
  | .put _ now encodedHash _ _ | .putFile now encodedHash _ _ | .read now encodedHash _ =>
    if (prepare hash cache operation).used then Function.update lastUse encodedHash now
    else lastUse
  | _ => lastUse

structure CacheRun where
  cache : ChunkCache
  lastUse : Text → ℤ

def CacheRun.step (hash : Bytes → Digest) (run : CacheRun) (operation : CacheOperation) :
    CacheRun where
  cache := (perform hash run.cache operation).2
  lastUse := lastUseAfter hash run.cache run.lastUse operation

def CacheRun.over (hash : Bytes → Digest) (maxBytes : ℕ) (files : Table CacheFile CacheFile.name)
    (operations : List CacheOperation) : CacheRun :=
  operations.foldl (CacheRun.step hash) { cache := .new maxBytes files, lastUse := fun _ ↦ 0 }

/-! ### The index, the files and the last uses -/

namespace ChunkCache

/-- The limit is the configured one, and every entry of the index has a file of its size and the
time of its last use. -/
structure InStep (maxBytes : ℕ) (lastUse : Text → ℤ) (cache : ChunkCache) : Prop where
  limit : cache.maxBytes = maxBytes
  files : ∀ entry ∈ cache.entries, ∃ content,
    cache.file entry.encodedHash = some content ∧ content.length = entry.size
  uses : ∀ entry ∈ cache.entries, entry.lastAccess = lastUse entry.encodedHash

variable {maxBytes : ℕ} {cache : ChunkCache} {lastUse : Text → ℤ}

theorem InStep.mono {left : ChunkCache} (h : cache.InStep maxBytes lastUse)
    (hlimit : left.maxBytes = cache.maxBytes)
    (hleft : ∀ entry ∈ left.entries, entry ∈ cache.entries ∧
      left.file entry.encodedHash = cache.file entry.encodedHash) :
    left.InStep maxBytes lastUse where
  limit := hlimit.trans h.limit
  files entry hentry := by
    obtain ⟨hbefore, hfile⟩ := hleft entry hentry
    rw [hfile]
    exact h.files entry hbefore
  uses entry hentry := h.uses entry (hleft entry hentry).1

theorem mem_deleteAsync (cache : ChunkCache) (encodedHash : Text) (entry : CacheEntry) :
    entry ∈ (cache.deleteAsync encodedHash).entries ↔
      entry ∈ cache.entries ∧ entry.encodedHash ≠ encodedHash := by
  show entry ∈ Table.deleteWhere _ _ ↔ _
  simp

section

variable (h : cache.InStep maxBytes lastUse)

include h

theorem InStep.deleteAsync (encodedHash : Text) :
    (cache.deleteAsync encodedHash).InStep maxBytes lastUse := by
  refine h.mono rfl fun entry hentry ↦ ?_
  obtain ⟨hbefore, hne⟩ := (mem_deleteAsync cache encodedHash entry).mp hentry
  refine ⟨hbefore, ?_⟩
  simp [ChunkCache.deleteAsync, hne]

theorem InStep.deleteAll (hashes : List Text) :
    (cache.deleteAll hashes).InStep maxBytes lastUse := by
  induction hashes generalizing cache with
  | nil => exact h
  | cons encodedHash hashes ih => exact ih (h.deleteAsync encodedHash)

theorem InStep.evict (rounds : ℕ) : (ChunkCache.evict rounds cache).InStep maxBytes lastUse :=
  evict_induction (·.InStep maxBytes lastUse)
    (fun _ victim hcache _ ↦ hcache.deleteAsync victim) rounds h

theorem InStep.touch (encodedHash : Text) (now : ℤ) :
    (cache.touch encodedHash now).InStep maxBytes (Function.update lastUse encodedHash now) := by
  have hentry : ∀ entry ∈ (cache.touch encodedHash now).entries, ∃ before ∈ cache.entries,
      entry = if before.encodedHash = encodedHash then { before with lastAccess := now }
        else before := by
    intro entry hentry
    simpa [mem_updateWhere, ChunkCache.touch] using hentry
  refine ⟨h.limit, ?_, ?_⟩
  · intro entry hafter
    obtain ⟨before, hbefore, rfl⟩ := hentry entry hafter
    have hfile := h.files before hbefore
    by_cases heq : before.encodedHash = encodedHash
    · simpa [heq] using hfile
    · simpa [heq] using hfile
  · intro entry hafter
    obtain ⟨before, hbefore, rfl⟩ := hentry entry hafter
    by_cases heq : before.encodedHash = encodedHash
    · simp [heq]
    · simpa [heq] using h.uses before hbefore

theorem InStep.placed (encodedHash : Text) (bytes : Bytes) (now : ℤ) :
    (cache.placed encodedHash bytes now).InStep maxBytes
      (Function.update lastUse encodedHash now) := by
  have hentry : ∀ entry ∈ (cache.placed encodedHash bytes now).entries,
      entry = { encodedHash, size := bytes.length, lastAccess := now } ∨
        entry ∈ cache.entries ∧ entry.encodedHash ≠ encodedHash := by
    intro entry hentry
    exact mem_upsert.mp hentry
  refine ⟨h.limit, ?_, ?_⟩
  · intro entry hafter
    rcases hentry entry hafter with rfl | ⟨hbefore, hne⟩
    · exact ⟨bytes, by simp [ChunkCache.placed], rfl⟩
    · simpa [ChunkCache.placed, Ne.symm hne] using h.files entry hbefore
  · intro entry hafter
    rcases hentry entry hafter with rfl | ⟨hbefore, hne⟩
    · simp
    · simpa [hne] using h.uses entry hbefore

end

theorem inStep_indexFiles (cache : ChunkCache) (lastAccessTime : Text → ℤ) (listed : Text → Bool) :
    (cache.indexFiles lastAccessTime listed).InStep cache.maxBytes lastAccessTime := by
  have hentry : ∀ entry ∈ (cache.indexFiles lastAccessTime listed).entries,
      ∃ file ∈ cache.files, CacheEntry.mk file.name file.content.length
        (lastAccessTime file.name) = entry := by
    intro entry hentry
    obtain ⟨file, hfile, hmade⟩ := mem_map.mp hentry
    exact ⟨file, (mem_filter.mp hfile).1, hmade⟩
  refine ⟨rfl, ?_, ?_⟩
  · intro entry hafter
    obtain ⟨file, hfile, rfl⟩ := hentry entry hafter
    refine ⟨file.content, ?_, rfl⟩
    show (cache.files.find file.name).map CacheFile.content = _
    rw [find_eq_some.mpr ⟨hfile, rfl⟩, Option.map_some]
  · intro entry hafter
    obtain ⟨file, -, rfl⟩ := hentry entry hafter
    rfl

/-! ### The eviction loop -/

/-- What is evicted next is not pinned, and was used before every other entry that is not pinned. -/
theorem exists_of_candidate {victim : Text} (h : cache.candidate = some victim) :
    ∃ entry ∈ cache.entries, entry.encodedHash = victim ∧ victim ∉ cache.pinned ∧
      ∀ other ∈ cache.entries, other.encodedHash ∉ cache.pinned →
        entry.lastAccess ≤ other.lastAccess := by
  obtain ⟨-, entry, hargmin, hvictim⟩ := candidate_eq_some.mp h
  obtain ⟨hmem, holdest, -⟩ := argmin_eq_some_iff.mp hargmin
  obtain ⟨hentry, hfree⟩ := mem_filter.mp hmem
  have hunpinned : victim ∉ cache.pinned := hvictim ▸ of_decide_eq_true hfree
  refine ⟨entry, hentry, hvictim, hunpinned, fun other hother hunpinned ↦ ?_⟩
  exact holdest other (mem_filter.mpr ⟨hother, decide_eq_true hunpinned⟩)

/-- Entries leave a cache in the order of their last uses, and only those that are not pinned. -/
structure EvictsInOrder (lastUse : Text → ℤ) (cache left : ChunkCache)
    (evicted : List CacheEntry) : Prop where
  pinned : left.pinned = cache.pinned
  taken : ∀ entry, entry ∈ cache.entries ↔ entry ∈ left.entries ∨ entry ∈ evicted
  unpinned : ∀ victim ∈ evicted, victim.encodedHash ∉ cache.pinned
  gone : ∀ victim ∈ evicted, victim ∉ left.entries
  ordered : evicted.Pairwise fun first second ↦
    lastUse first.encodedHash ≤ lastUse second.encodedHash
  oldest : ∀ victim ∈ evicted, ∀ entry ∈ left.entries, entry.encodedHash ∉ left.pinned →
    lastUse victim.encodedHash ≤ lastUse entry.encodedHash

theorem EvictsInOrder.refl (lastUse : Text → ℤ) (cache : ChunkCache) :
    EvictsInOrder lastUse cache cache [] where
  pinned := rfl
  taken := by simp
  unpinned := by simp
  gone := by simp
  ordered := .nil
  oldest := by simp

theorem InStep.evictsInOrder (h : cache.InStep maxBytes lastUse) (rounds : ℕ) :
    EvictsInOrder lastUse cache (ChunkCache.evict rounds cache) (cache.victims rounds) := by
  induction rounds generalizing cache with
  | zero => exact .refl lastUse cache
  | succ rounds ih =>
    cases hcandidate : cache.candidate with
    | none =>
      simp only [ChunkCache.evict, victims, hcandidate]
      exact .refl lastUse cache
    | some victim =>
      obtain ⟨entry, hentry, rfl, hfree, hleast⟩ := exists_of_candidate hcandidate
      have hfind : cache.entries.find entry.encodedHash = some entry :=
        find_eq_some.mpr ⟨hentry, rfl⟩
      simp only [ChunkCache.evict, victims, hcandidate, hfind, Option.toList_some, singleton_append]
      have hrest := ih (h.deleteAsync entry.encodedHash)
      have hentries := mem_deleteAsync cache entry.encodedHash
      -- every entry that the later rounds know is another one, and was used later
      have hlater : ∀ other ∈ (cache.deleteAsync entry.encodedHash).entries,
          other.encodedHash ∉ cache.pinned →
            lastUse entry.encodedHash ≤ lastUse other.encodedHash := by
        intro other hother hunpinned
        have hbefore := ((hentries other).mp hother).1
        rw [← h.uses entry hentry, ← h.uses other hbefore]
        exact hleast other hbefore hunpinned
      constructor
      · exact hrest.pinned
      · intro other
        rw [mem_cons, or_left_comm, ← hrest.taken other, hentries]
        by_cases heq : other = entry
        · simp [heq, hentry]
        · refine ⟨fun hother ↦ .inr ⟨hother, fun hsame ↦ heq ?_⟩, fun hor ↦ ?_⟩
          · exact eq_of_key_eq hother hentry hsame
          · exact (hor.resolve_left heq).1
      · intro other hother
        rcases mem_cons.mp hother with rfl | hother
        · exact hfree
        · exact hrest.unpinned other hother
      · intro other hother hleft
        rcases mem_cons.mp hother with rfl | hother
        · exact ((hentries _).mp ((hrest.taken _).mpr (.inl hleft))).2 rfl
        · exact hrest.gone other hother hleft
      · refine pairwise_cons.mpr ⟨fun other hother ↦ ?_, hrest.ordered⟩
        exact hlater other ((hrest.taken other).mpr (.inr hother)) (hrest.unpinned other hother)
      · intro other hother remaining hremaining hunpinned
        rcases mem_cons.mp hother with rfl | hother
        · refine hlater remaining ((hrest.taken remaining).mpr (.inl hremaining)) ?_
          rwa [hrest.pinned] at hunpinned
        · exact hrest.oldest other hother remaining hremaining hunpinned

theorem candidate_evictUntil {interruption : Interruption}
    (h : (cache.evictUntil interruption).1 = .done) :
    (cache.evictUntil interruption).2.candidate = none := by
  cases interruption with
  | before exception => exact candidate_evict _ cache le_rfl
  | never => exact candidate_evict _ cache le_rfl
  | evicting rounds exception =>
    by_contra hleft
    have hthrown : (cache.evictUntil (.evicting rounds exception)).1 = .thrown exception :=
      if_neg hleft
    rw [hthrown] at h
    exact Reply.noConfusion h

theorem evictUntil_cache (cache : ChunkCache) (interruption : Interruption) :
    (cache.evictUntil interruption).2 = evict (cache.evictionRounds interruption) cache := by
  cases interruption <;> rfl

end ChunkCache

/-! ### One operation -/

section Operations

variable {hash : Bytes → Digest} {maxBytes : ℕ} {cache : ChunkCache} {lastUse : Text → ℤ}

open ChunkCache

theorem preparePut_cases (hash : Bytes → Digest) (mismatch : String) (now : ℤ) (encodedHash : Text)
    (source : Option Bytes) (interruption : Interruption) (cache : ChunkCache) :
    (∃ exception, preparePut hash mismatch now encodedHash source interruption cache =
      .ended (.thrown exception) cache) ∨
    ∃ bytes, preparePut hash mismatch now encodedHash source interruption cache =
      .evicts interruption (cache.placed encodedHash bytes now) := by
  unfold preparePut
  cases validateHash encodedHash with
  | error exception => exact .inl ⟨exception, rfl⟩
  | ok _ =>
    cases source with
    | none => exact .inl ⟨_, rfl⟩
    | some bytes =>
      by_cases hhash : (hash bytes).hex = encodedHash
      · simp only [hhash, ne_eq, not_true_eq_false, if_false]
        cases interruption with
        | before exception => exact .inl ⟨exception, rfl⟩
        | evicting rounds exception => exact .inr ⟨bytes, rfl⟩
        | never => exact .inr ⟨bytes, rfl⟩
      · simp only [ne_eq, hhash, not_false_eq_true, if_true]
        exact .inl ⟨_, rfl⟩

/-- A read ends with an exception and without a change, finds nothing and at most deletes its file,
or returns bytes with its hash and records the use. -/
theorem prepareRead_cases (hash : Bytes → Digest) (now : ℤ) (encodedHash : Text)
    (failure : Option LauncherException) (cache : ChunkCache) :
    (∃ exception, prepareRead hash now encodedHash failure cache =
      .ended (.thrown exception) cache) ∨
    prepareRead hash now encodedHash failure cache = .ended (.bytes none) cache ∨
    prepareRead hash now encodedHash failure cache =
      .ended (.bytes none) (cache.deleteAsync encodedHash) ∨
    ∃ content, prepareRead hash now encodedHash failure cache =
      .ended (.bytes (some content)) (cache.touch encodedHash now) ∧
        (hash content).hex = encodedHash := by
  unfold prepareRead readAsync
  cases failure with
  | some exception => exact .inl ⟨exception, rfl⟩
  | none =>
    cases validateHash encodedHash with
    | error exception => exact .inl ⟨exception, rfl⟩
    | ok _ =>
      cases cache.file encodedHash with
      | none => exact .inr (.inl rfl)
      | some bytes =>
        by_cases hhash : (hash bytes).hex = encodedHash
        · refine .inr (.inr (.inr ⟨bytes, ?_, hhash⟩))
          simp [hhash]
        · refine .inr (.inr (.inl ?_))
          simp [hhash]

theorem inStep_preparePut (h : cache.InStep maxBytes lastUse) (mismatch : String) (now : ℤ)
    (encodedHash : Text) (source : Option Bytes) (interruption : Interruption) :
    (preparePut hash mismatch now encodedHash source interruption cache).cache.InStep maxBytes
      (if (preparePut hash mismatch now encodedHash source interruption cache).used then
        Function.update lastUse encodedHash now else lastUse) := by
  rcases preparePut_cases hash mismatch now encodedHash source interruption cache with
    ⟨exception, hended⟩ | ⟨bytes, hevicts⟩
  · rw [hended]
    exact h
  · rw [hevicts]
    exact h.placed encodedHash bytes now

theorem inStep_prepareRead (h : cache.InStep maxBytes lastUse) (now : ℤ) (encodedHash : Text)
    (failure : Option LauncherException) :
    (prepareRead hash now encodedHash failure cache).cache.InStep maxBytes
      (if (prepareRead hash now encodedHash failure cache).used then
        Function.update lastUse encodedHash now else lastUse) := by
  rcases prepareRead_cases hash now encodedHash failure cache with
    ⟨exception, hended⟩ | hnone | hdeleted | ⟨content, hread, -⟩
  · rw [hended]
    exact h
  · rw [hnone]
    exact h
  · rw [hdeleted]
    exact h.deleteAsync encodedHash
  · rw [hread]
    exact h.touch encodedHash now

theorem inStep_prepare (h : cache.InStep maxBytes lastUse) (operation : CacheOperation) :
    (prepare hash cache operation).cache.InStep maxBytes
      (lastUseAfter hash cache lastUse operation) := by
  cases operation with
  | initialise lastAccessTime listed interruption =>
    have hindexed := inStep_indexFiles cache lastAccessTime
    rw [h.limit] at hindexed
    cases interruption with
    | before exception => exact hindexed listed
    | evicting rounds exception => exact hindexed fun _ ↦ true
    | never => exact hindexed fun _ ↦ true
  | put mismatch now encodedHash bytes interruption =>
    exact inStep_preparePut h mismatch now encodedHash (some bytes) interruption
  | putFile now encodedHash source interruption =>
    exact inStep_preparePut h _ now encodedHash source interruption
  | read now encodedHash failure => exact inStep_prepareRead h now encodedHash failure
  | pin encodedHash =>
    show (preparePin encodedHash cache).cache.InStep maxBytes lastUse
    unfold preparePin
    cases validateHash encodedHash with
    | error exception => exact h
    | ok _ => exact h.mono rfl fun entry hentry ↦ ⟨hentry, rfl⟩
  | unpin encodedHash => exact h.mono rfl fun entry hentry ↦ ⟨hentry, rfl⟩
  | clear failure =>
    cases failure with
    | none => exact h.deleteAll cache.unpinnedHashes
    | some failure => exact h.deleteAll (cache.unpinnedHashes.filter failure.2)

/-- The whole operation, as its part up to the eviction loop and the loop. -/
theorem perform_eq (hash : Bytes → Digest) (cache : ChunkCache) (operation : CacheOperation) :
    ∃ rounds, (perform hash cache operation).2 = evict rounds (prepare hash cache operation).cache ∧
      (prepare hash cache operation).evicted =
        (prepare hash cache operation).cache.victims rounds := by
  unfold perform
  cases prepare hash cache operation with
  | ended reply left => exact ⟨0, rfl, rfl⟩
  | evicts interruption left =>
    exact ⟨left.evictionRounds interruption, evictUntil_cache left interruption, rfl⟩

theorem candidate_of_put {mismatch : String} {now : ℤ} {encodedHash : Text}
    {source : Option Bytes} {interruption : Interruption} {operation : CacheOperation}
    (hput : prepare hash cache operation =
      preparePut hash mismatch now encodedHash source interruption cache)
    (hdone : (perform hash cache operation).1 = .done) :
    (perform hash cache operation).2.candidate = none := by
  unfold perform at hdone ⊢
  rw [hput] at hdone ⊢
  rcases preparePut_cases hash mismatch now encodedHash source interruption cache with
    ⟨exception, hended⟩ | ⟨bytes, hevicts⟩
  · rw [hended] at hdone
    exact Reply.noConfusion hdone
  · rw [hevicts] at hdone ⊢
    exact candidate_evictUntil hdone

end Operations

/-! ### Every sequence of operations -/

/-- The operation is `PutAsync` or `PutFileAsync`. -/
def CacheOperation.IsPut : CacheOperation → Prop
  | .put _ _ _ _ _ | .putFile _ _ _ _ => True
  | _ => False

/-- What an operation keeps and does in a cache with this limit. -/
structure StepSound (hash : Bytes → Digest) (maxBytes : ℕ) (run : CacheRun)
    (operation : CacheOperation) : Prop where
  total : (run.step hash operation).cache.currentBytes =
    (run.step hash operation).cache.entries.total fun entry ↦ entry.size
  files : ∀ entry ∈ (run.step hash operation).cache.entries, ∃ content,
    (run.step hash operation).cache.file entry.encodedHash = some content ∧
      content.length = entry.size
  read : ∀ now encodedHash failure content, operation = .read now encodedHash failure →
    (perform hash run.cache operation).1 = .bytes (some content) → (hash content).hex = encodedHash
  room : operation.IsPut → (perform hash run.cache operation).1 = .done →
    (run.step hash operation).cache.currentBytes ≤ maxBytes ∨
      ∀ entry ∈ (run.step hash operation).cache.entries,
        entry.encodedHash ∈ (run.step hash operation).cache.pinned
  order : ChunkCache.EvictsInOrder (run.step hash operation).lastUse
    (prepare hash run.cache operation).cache (run.step hash operation).cache
    (prepare hash run.cache operation).evicted
  ends : ∀ rounds, (prepare hash run.cache operation).cache.entries.rows.length ≤ rounds →
    (ChunkCache.evict rounds (prepare hash run.cache operation).cache).candidate = none

section Runs

variable {hash : Bytes → Digest} {maxBytes : ℕ} {run : CacheRun}

theorem inStep_step (h : run.cache.InStep maxBytes run.lastUse) (operation : CacheOperation) :
    (run.step hash operation).cache.InStep maxBytes (run.step hash operation).lastUse := by
  obtain ⟨rounds, hleft, -⟩ := perform_eq hash run.cache operation
  have hprepared : (prepare hash run.cache operation).cache.InStep maxBytes
      (lastUseAfter hash run.cache run.lastUse operation) := inStep_prepare h operation
  show (perform hash run.cache operation).2.InStep maxBytes _
  rw [hleft]
  exact hprepared.evict rounds

theorem inStep_over (hash : Bytes → Digest) (maxBytes : ℕ) (files : Table CacheFile CacheFile.name)
    (operations : List CacheOperation) :
    (CacheRun.over hash maxBytes files operations).cache.InStep maxBytes
      (CacheRun.over hash maxBytes files operations).lastUse := by
  have hrun (start : CacheRun) (hstart : start.cache.InStep maxBytes start.lastUse) :
      (operations.foldl (CacheRun.step hash) start).cache.InStep maxBytes
        (operations.foldl (CacheRun.step hash) start).lastUse := by
    induction operations generalizing start with
    | nil => exact hstart
    | cons operation operations ih => exact ih _ (inStep_step hstart operation)
  refine hrun _ ⟨rfl, fun entry hentry ↦ ?_, fun entry hentry ↦ ?_⟩
  · exact absurd hentry not_mem_nil
  · exact absurd hentry not_mem_nil

theorem StepSound.of_inStep (h : run.cache.InStep maxBytes run.lastUse)
    (operation : CacheOperation) : StepSound hash maxBytes run operation where
  total := (run.step hash operation).cache.accounted
  files := (inStep_step h operation).files
  read := by
    rintro now encodedHash failure content rfl hbytes
    rcases prepareRead_cases hash now encodedHash failure run.cache with
      ⟨exception, hended⟩ | hnone | hdeleted | ⟨returned, hread, hhash⟩
    · simp [perform, prepare, hended] at hbytes
    · simp [perform, prepare, hnone] at hbytes
    · simp [perform, prepare, hdeleted] at hbytes
    · have hreturned : returned = content := by simpa [perform, prepare, hread] using hbytes
      exact hreturned ▸ hhash
  room hput hdone := by
    have hnone : (run.step hash operation).cache.candidate = none := by
      cases operation with
      | put mismatch now encodedHash bytes interruption => exact candidate_of_put rfl hdone
      | putFile now encodedHash source interruption => exact candidate_of_put rfl hdone
      | initialise | read | pin | unpin | clear => exact hput.elim
    rw [← (inStep_step h operation).limit]
    exact ChunkCache.candidate_eq_none.mp hnone
  order := by
    obtain ⟨rounds, hleft, hevicted⟩ := perform_eq hash run.cache operation
    show ChunkCache.EvictsInOrder _ _ (perform hash run.cache operation).2 _
    rw [hleft, hevicted]
    exact (inStep_prepare h operation).evictsInOrder rounds
  ends rounds := ChunkCache.candidate_evict rounds _

end Runs

/-- Every operation of every sequence of operations on a new cache is sound. -/
theorem cache_stays_sound (hash : Bytes → Digest) (maxBytes : ℕ)
    (files : Table CacheFile CacheFile.name) (operations : List CacheOperation)
    (next : CacheOperation) :
    StepSound hash maxBytes (CacheRun.over hash maxBytes files operations) next :=
  .of_inStep (inStep_over hash maxBytes files operations) next

end GameLauncher.Downloads
