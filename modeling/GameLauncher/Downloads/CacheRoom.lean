import GameLauncher.Downloads.DownloadManager
import GameLauncher.Foundation.LeastRecent

/-!
# Room in the cache for a download

The cache evicts while a download runs, and nothing pins the chunks of the download. `Fitting` is
the condition on the cache at the start under which no chunk of the download is ever evicted: all
its chunks are there already, or all are pinned, or the limit has room for all of them beside the
entries that are not evicted before them.

The entries of other downloads are the items of a `LeastRecent.Setting`, and `victim_of_candidate`
says that what is evicted is the next of them.
-/

set_option autoImplicit false

namespace GameLauncher.Downloads

open Foundation Foundation.LeastRecent Packs Manifests List ChunkCache Table

/-! ### The entries of the download and the others -/

def hashesOf (chunks : List ChunkRef) : List Text := chunks.map ChunkRef.encodedHash

def foreign (chunks : List ChunkRef) (cache : ChunkCache) : List CacheEntry :=
  cache.entries.rows.filter fun entry ↦ entry.encodedHash ∉ hashesOf chunks

def sizeOf (entry : CacheEntry) : ℤ := entry.size

theorem mem_hashesOf {chunks : List ChunkRef} {chunk : ChunkRef} (h : chunk ∈ chunks) :
    chunk.encodedHash ∈ hashesOf chunks :=
  mem_map_of_mem h

section Foreign

variable {chunks : List ChunkRef} {cache : ChunkCache} {encodedHash : Text}

theorem mem_foreign {entry : CacheEntry} : entry ∈ foreign chunks cache ↔
    entry ∈ cache.entries ∧ entry.encodedHash ∉ hashesOf chunks := by
  simp only [foreign, mem_filter, decide_eq_true_eq, mem_iff]

theorem foreign_nodup : (foreign chunks cache).Nodup :=
  (List.Nodup.of_map _ cache.entries.keys_nodup).filter _

theorem foreign_touch (h : encodedHash ∈ hashesOf chunks) (now : ℤ) :
    foreign chunks (cache.touch encodedHash now) = foreign chunks cache := by
  unfold foreign touch Table.updateWhere
  simp only [decide_eq_true_eq]
  rw [filter_map]
  have hsame : ((fun entry : CacheEntry ↦ decide (entry.encodedHash ∉ hashesOf chunks)) ∘
      fun entry ↦ if entry.encodedHash = encodedHash then { entry with lastAccess := now }
        else entry) = fun entry ↦ decide (entry.encodedHash ∉ hashesOf chunks) := by
    funext entry
    by_cases heq : entry.encodedHash = encodedHash <;> simp [heq]
  rw [hsame]
  refine (map_congr_left fun entry hentry ↦ ?_).trans (map_id _)
  have hne : entry.encodedHash ≠ encodedHash := by
    rintro rfl
    exact of_decide_eq_true (mem_filter.mp hentry).2 h
  rw [if_neg hne]
  rfl

theorem foreign_indexEntry (h : encodedHash ∈ hashesOf chunks) (size : ℕ) (now : ℤ) :
    foreign chunks (cache.indexEntry encodedHash size now) = foreign chunks cache := by
  unfold foreign indexEntry Table.upsert
  simp only [filter_cons, h, not_true_eq_false, decide_false, Bool.false_eq_true, if_false,
    filter_filter]
  refine filter_congr fun entry _ ↦ ?_
  by_cases hin : entry.encodedHash ∈ hashesOf chunks
  · simp [hin]
  · have hne : entry.encodedHash ≠ encodedHash := fun heq ↦ hin (heq ▸ h)
    simp [hin, hne]

theorem foreign_removeEntry : foreign chunks (cache.removeEntry encodedHash) =
    (foreign chunks cache).filter fun entry ↦ entry.encodedHash ≠ encodedHash := by
  unfold foreign removeEntry Table.deleteWhere
  simp only [filter_filter]
  refine filter_congr fun entry _ ↦ ?_
  rw [← decide_not, Bool.and_comm]

theorem foreign_removeEntry_of_mem (h : encodedHash ∈ hashesOf chunks) :
    foreign chunks (cache.removeEntry encodedHash) = foreign chunks cache := by
  rw [foreign_removeEntry, filter_eq_self]
  intro entry hentry
  refine decide_eq_true fun heq ↦ ?_
  exact (mem_foreign.mp hentry).2 (heq ▸ h)

theorem currentBytes_eq (hnodup : (hashesOf chunks).Nodup) :
    cache.currentBytes = ((hashesOf chunks).map cache.indexedSize).sum +
      weightOf sizeOf (foreign chunks cache) := by
  have hmine : ((hashesOf chunks).map cache.indexedSize).sum = cache.entries.total fun entry ↦
        if entry.encodedHash ∈ hashesOf chunks then sizeOf entry else 0 := by
    change ((hashesOf chunks).map fun wanted ↦ (cache.entries.find wanted).elim 0 sizeOf).sum = _
    rw [sum_find sizeOf hnodup]
    exact total_congr fun entry _ ↦ by congr
  have hothers : weightOf sizeOf (foreign chunks cache) = cache.entries.total sizeOf -
      cache.entries.total fun entry ↦
        if entry.encodedHash ∈ hashesOf chunks then sizeOf entry else 0 := by
    have hdelete : weightOf sizeOf (foreign chunks cache) = (cache.entries.deleteWhere fun entry ↦
        entry.encodedHash ∈ hashesOf chunks).total sizeOf := by
      unfold weightOf foreign Table.total Table.deleteWhere
      simp only [decide_not]
    rw [hdelete, total_deleteWhere]
    simp only [decide_eq_true_eq]
  have htotal : cache.currentBytes = cache.entries.total sizeOf := cache.accounted
  rw [hmine, hothers, htotal]
  omega

end Foreign

/-! ### The condition on the start -/

section Conditions

variable (hash : Bytes → Digest) (start : ChunkCache) (chunks : List ChunkRef) (began : ℤ)

/-- What the index counts for a chunk when it is there: its entry when the cache has the chunk at
the start, and its encoded size when it has to be put. -/
def demand (chunk : ChunkRef) : ℤ :=
  if (start.verified hash chunk.encodedHash).isSome then start.indexedSize chunk.encodedHash
  else chunk.encodedSize

/-- What the index counts for the whole download. -/
def totalDemand : ℤ := (chunks.map (demand hash start)).sum

/-- The other entries that are not evicted before the entries of the download: those that are
pinned, and those that were not used before the download began. -/
def staying : List CacheEntry :=
  (foreign chunks start).filter fun entry ↦
    entry.encodedHash ∈ start.pinned || decide (began ≤ entry.lastAccess)

/-- The limit has room for the download beside what is not evicted before it. -/
def HasRoom : Prop :=
  totalDemand hash start chunks + weightOf sizeOf (staying start chunks began) ≤ start.maxBytes

instance : Decidable (HasRoom hash start chunks began) :=
  inferInstanceAs (Decidable (_ ≤ (start.maxBytes : ℤ)))

/-- The cache keeps every chunk of a download that begins here: no chunk is indexed without its
file, and either all chunks are there, or all are pinned, or there is room for them. -/
structure Fitting : Prop where
  files : ∀ chunk ∈ chunks, start.file chunk.encodedHash = none →
    start.entries.find chunk.encodedHash = none
  room : (∀ chunk ∈ chunks, (start.verified hash chunk.encodedHash).isSome = true) ∨
    (∀ chunk ∈ chunks, chunk.encodedHash ∈ start.pinned) ∨ HasRoom hash start chunks began

/-- The entries of other chunks as the items of the evictions of the download. -/
def evictions : Setting CacheEntry where
  age := CacheEntry.lastAccess
  items := foreign chunks start
  free := fun entry ↦ entry.encodedHash ∉ start.pinned
  weight := sizeOf
  limit := start.maxBytes
  others := totalDemand hash start chunks
  nodup := foreign_nodup
  weight_nonneg := fun entry ↦ Int.natCast_nonneg entry.size

/-! ### The chunks of the download -/

/-- The chunk is in the cache, as it is at the end: its file has its hash, and its entry, which
counts what it is meant to count, was used by the download. -/
structure Held (cache : ChunkCache) (chunk : ChunkRef) : Prop where
  verified : (cache.verified hash chunk.encodedHash).isSome = true
  indexed : cache.indexedSize chunk.encodedHash = demand hash start chunk
  recent : ∀ entry, cache.entries.find chunk.encodedHash = some entry → began ≤ entry.lastAccess

structure Absent (cache : ChunkCache) (chunk : ChunkRef) : Prop where
  file : cache.file chunk.encodedHash = none
  entry : cache.entries.find chunk.encodedHash = none
  start : start.verified hash chunk.encodedHash = none

/-- The file of a chunk that was not there at the start is in place, its entry is not. -/
structure Placed (cache : ChunkCache) (chunk : ChunkRef) : Prop where
  verified : (cache.verified hash chunk.encodedHash).isSome = true
  entry : cache.entries.find chunk.encodedHash = none
  start : start.verified hash chunk.encodedHash = none

/-- The index counts no more for the chunk than it is meant to, and its entry was used by the
download. -/
structure Tame (cache : ChunkCache) (chunk : ChunkRef) : Prop where
  indexed : cache.indexedSize chunk.encodedHash ≤ demand hash start chunk
  recent : ∀ entry, cache.entries.find chunk.encodedHash = some entry → began ≤ entry.lastAccess

end Conditions

/-- Two caches have the same file and the same entry for a hash. -/
def SameAt (first second : ChunkCache) (encodedHash : Text) : Prop :=
  second.file encodedHash = first.file encodedHash ∧
    second.entries.find encodedHash = first.entries.find encodedHash

theorem SameAt.refl (cache : ChunkCache) (encodedHash : Text) : SameAt cache cache encodedHash :=
  ⟨rfl, rfl⟩

variable {encodedHash : Text}

theorem SameAt.trans {first second third : ChunkCache}
    (h : SameAt first second encodedHash) (h' : SameAt second third encodedHash) :
    SameAt first third encodedHash :=
  ⟨h'.1.trans h.1, h'.2.trans h.2⟩

theorem SameAt.verified {first second : ChunkCache}
    (h : SameAt first second encodedHash) (hash : Bytes → Digest) :
    second.verified hash encodedHash = first.verified hash encodedHash := by
  unfold ChunkCache.verified
  rw [h.1]

theorem SameAt.indexedSize {first second : ChunkCache}
    (h : SameAt first second encodedHash) :
    second.indexedSize encodedHash = first.indexedSize encodedHash := by
  unfold ChunkCache.indexedSize
  rw [h.2]

section Chunks

variable {hash : Bytes → Digest} {start cache other : ChunkCache} {chunks : List ChunkRef}
  {began now : ℤ} {chunk : ChunkRef}

theorem demand_nonneg (hash : Bytes → Digest) (start : ChunkCache) (chunk : ChunkRef) :
    0 ≤ demand hash start chunk := by
  unfold demand
  split_ifs
  · exact start.indexedSize_nonneg _
  · exact Int.natCast_nonneg _

theorem demand_of_verified_eq_none (h : start.verified hash chunk.encodedHash = none) :
    demand hash start chunk = chunk.encodedSize := by
  rw [demand, h]
  rfl

theorem Held.of_sameAt (h : Held hash start began cache chunk)
    (hsame : SameAt cache other chunk.encodedHash) : Held hash start began other chunk where
  verified := hsame.verified hash ▸ h.verified
  indexed := hsame.indexedSize.trans h.indexed
  recent := fun entry hentry ↦ h.recent entry (hsame.2.symm.trans hentry)

theorem Absent.of_sameAt (h : Absent hash start cache chunk)
    (hsame : SameAt cache other chunk.encodedHash) : Absent hash start other chunk where
  file := hsame.1.trans h.file
  entry := hsame.2.trans h.entry
  start := h.start

theorem Placed.of_sameAt (h : Placed hash start cache chunk)
    (hsame : SameAt cache other chunk.encodedHash) : Placed hash start other chunk where
  verified := hsame.verified hash ▸ h.verified
  entry := hsame.2.trans h.entry
  start := h.start

theorem Held.tame (h : Held hash start began cache chunk) : Tame hash start began cache chunk where
  indexed := h.indexed.le
  recent := h.recent

theorem tame_of_find_eq_none (h : cache.entries.find chunk.encodedHash = none) :
    Tame hash start began cache chunk where
  indexed := by
    rw [ChunkCache.indexedSize, h]
    exact demand_nonneg hash start chunk
  recent := fun entry hentry ↦ by rw [h] at hentry; cases hentry

theorem touch_indexedSize (encodedHash : Text) (now : ℤ) :
    (cache.touch encodedHash now).indexedSize encodedHash = cache.indexedSize encodedHash := by
  rw [ChunkCache.indexedSize, ChunkCache.indexedSize, touch_find]
  cases cache.entries.find encodedHash with
  | none => rfl
  | some entry =>
    simp only [Option.map_some, Option.elim_some]
    split_ifs <;> rfl

/-- A readable chunk that counts what it is meant to count is there after a read. -/
theorem held_touch (hverified : (cache.verified hash chunk.encodedHash).isSome = true)
    (hindexed : cache.indexedSize chunk.encodedHash = demand hash start chunk)
    (hnow : began ≤ now) :
    Held hash start began (cache.touch chunk.encodedHash now) chunk where
  verified := hverified
  indexed := (touch_indexedSize _ now).trans hindexed
  recent := by
    intro entry hentry
    rw [touch_find, Option.map_eq_some_iff] at hentry
    obtain ⟨old, hold, rfl⟩ := hentry
    rw [if_pos (find_eq_some.mp hold).2]
    exact hnow

theorem Held.touch (h : Held hash start began cache chunk) (hnow : began ≤ now) :
    Held hash start began (cache.touch chunk.encodedHash now) chunk :=
  held_touch h.verified h.indexed hnow

theorem held_touch_of_sameAt (hsame : SameAt start cache chunk.encodedHash)
    (hverified : (cache.verified hash chunk.encodedHash).isSome = true) (hnow : began ≤ now) :
    Held hash start began (cache.touch chunk.encodedHash now) chunk := by
  refine held_touch hverified ?_ hnow
  rw [demand, if_pos (hsame.verified hash ▸ hverified), hsame.indexedSize]

theorem held_indexEntry (hverified : (cache.verified hash chunk.encodedHash).isSome = true)
    (hstart : start.verified hash chunk.encodedHash = none) (hnow : began ≤ now) :
    Held hash start began (cache.indexEntry chunk.encodedHash chunk.encodedSize now) chunk where
  verified := hverified
  indexed := by
    rw [ChunkCache.indexedSize, indexEntry_find, if_pos rfl, demand_of_verified_eq_none hstart]
    rfl
  recent := by
    intro entry hentry
    rw [indexEntry_find, if_pos rfl] at hentry
    rw [← Option.some.inj hentry]
    exact hnow

end Chunks

/-! ### Operations on other hashes -/

section Elsewhere

variable {cache : ChunkCache} {changed encodedHash : Text}

section

variable (hne : encodedHash ≠ changed)

include hne

theorem sameAt_touch (now : ℤ) : SameAt cache (cache.touch changed now) encodedHash := by
  refine ⟨rfl, ?_⟩
  rw [touch_find]
  cases hfind : cache.entries.find encodedHash with
  | none => rfl
  | some entry =>
    rw [Option.map_some, if_neg]
    rw [(find_eq_some.mp hfind).2]
    exact hne

theorem sameAt_deleteFile : SameAt cache (cache.deleteFile changed) encodedHash :=
  ⟨by rw [deleteFile_file, if_neg hne], rfl⟩

theorem sameAt_removeEntry : SameAt cache (cache.removeEntry changed) encodedHash :=
  ⟨rfl, by rw [removeEntry_find, if_neg hne]⟩

theorem sameAt_moveFile (content : Bytes) :
    SameAt cache (cache.moveFile changed content) encodedHash :=
  ⟨by rw [moveFile_file, if_neg hne.symm], rfl⟩

theorem sameAt_indexEntry (size : ℕ) (now : ℤ) :
    SameAt cache (cache.indexEntry changed size now) encodedHash :=
  ⟨rfl, by rw [indexEntry_find, if_neg hne.symm]⟩

theorem sameAt_deleteAsync : SameAt cache (cache.deleteAsync changed) encodedHash :=
  (sameAt_deleteFile hne).trans (sameAt_removeEntry hne)

end

end Elsewhere

/-! ### What is evicted -/

section Victims

variable (hash : Bytes → Digest) (start : ChunkCache) (chunks : List ChunkRef) (began : ℤ)

/-- What a download has left of the cache it began with: the limit, the pins, and the entries of
other chunks, the oldest of which may have been evicted. -/
structure Remains (cache : ChunkCache) : Prop where
  maxBytes : cache.maxBytes = start.maxBytes
  pinned : cache.pinned = start.pinned
  evicted : (evictions hash start chunks).EvictedInOrder (foreign chunks cache)

/-- The hash of another chunk whose entry is the next to be evicted. -/
def Victim (cache : ChunkCache) (victim : Text) : Prop :=
  ∃ entry ∈ foreign chunks start, entry.encodedHash = victim ∧ victim ∉ start.pinned ∧
    (evictions hash start chunks).Doomed entry ∧
    ∀ other ∈ foreign chunks cache, other.encodedHash ∉ start.pinned →
      ¬ Older CacheEntry.lastAccess (foreign chunks start) other entry

end Victims

section Eviction

variable {hash : Bytes → Digest} {start cache other : ChunkCache} {chunks : List ChunkRef}
  {began : ℤ} {victim : Text}

theorem remains_start : Remains hash start chunks start where
  maxBytes := rfl
  pinned := rfl
  evicted := Setting.evictedInOrder_items

theorem Remains.of_foreign (h : Remains hash start chunks cache)
    (hmaxBytes : other.maxBytes = cache.maxBytes) (hpinned : other.pinned = cache.pinned)
    (hforeign : foreign chunks other = foreign chunks cache) : Remains hash start chunks other where
  maxBytes := hmaxBytes.trans h.maxBytes
  pinned := hpinned.trans h.pinned
  evicted := hforeign ▸ h.evicted

theorem Victim.not_mem (h : Victim hash start chunks cache victim) : victim ∉ hashesOf chunks := by
  obtain ⟨entry, hentry, rfl, -⟩ := h
  exact (mem_foreign.mp hentry).2

theorem Victim.mono (h : Victim hash start chunks cache victim)
    (hsub : foreign chunks other ⊆ foreign chunks cache) :
    Victim hash start chunks other victim := by
  obtain ⟨entry, hentry, hvictim, hfree, hdoomed, hfirst⟩ := h
  exact ⟨entry, hentry, hvictim, hfree, hdoomed, fun item hitem ↦ hfirst item (hsub hitem)⟩

theorem Remains.removeEntry (h : Remains hash start chunks cache)
    (hvictim : Victim hash start chunks cache victim) :
    Remains hash start chunks (cache.removeEntry victim) where
  maxBytes := h.maxBytes
  pinned := h.pinned
  evicted := by
    obtain ⟨entry, hentry, rfl, hfree, hdoomed, hfirst⟩ := hvictim
    rw [foreign_removeEntry]
    refine h.evicted.remove filter_sublist (fun item hitem hne ↦ ?_)
      (decide_eq_true hfree) hdoomed fun item hitem hitemFree ↦
        hfirst item hitem (of_decide_eq_true hitemFree)
    refine mem_filter.mpr ⟨hitem, decide_eq_true fun heq ↦ hne ?_⟩
    have hitemStart := (mem_foreign.mp (h.evicted.sublist.subset hitem)).1
    exact eq_of_key_eq hitemStart (mem_foreign.mp hentry).1 heq

theorem sum_indexedSize_le (htame : ∀ chunk ∈ chunks, Tame hash start began cache chunk) :
    ((hashesOf chunks).map cache.indexedSize).sum ≤ totalDemand hash start chunks := by
  rw [hashesOf, map_map, totalDemand]
  exact sum_le_sum fun chunk hchunk ↦ (htame chunk hchunk).indexed

/-- With room for the download, there is an old entry to evict whenever the total is above the
limit. -/
theorem HasRoom.exists_old (hroom : HasRoom hash start chunks began)
    (hnodup : (hashesOf chunks).Nodup) (hremains : Remains hash start chunks cache)
    (htame : ∀ chunk ∈ chunks, Tame hash start began cache chunk)
    (hlimit : (cache.maxBytes : ℤ) < cache.currentBytes) :
    ∃ entry ∈ foreign chunks cache, entry.encodedHash ∉ start.pinned ∧
      entry.lastAccess < began := by
  by_contra hnone
  have hstay : weightOf sizeOf (foreign chunks cache) ≤
      weightOf sizeOf (staying start chunks began) := by
    refine weightOf_le_of_subset (fun entry ↦ Int.natCast_nonneg entry.size) foreign_nodup ?_
    intro entry hentry
    refine mem_filter.mpr ⟨hremains.evicted.sublist.subset hentry, ?_⟩
    rw [Bool.or_eq_true, decide_eq_true_eq, decide_eq_true_eq]
    by_contra hneither
    rw [not_or, not_le] at hneither
    exact hnone ⟨entry, hentry, hneither⟩
  have hmine := sum_indexedSize_le htame
  have hlimits := hremains.maxBytes
  rw [currentBytes_eq hnodup] at hlimit
  unfold HasRoom at hroom
  omega

/-- In a fitting cache from which some chunk was missing, what is evicted is the next of the
entries of other chunks. -/
theorem victim_of_candidate (hfitting : Fitting hash start chunks began)
    (hnodup : (hashesOf chunks).Nodup)
    (hmissing : ∃ chunk ∈ chunks, start.verified hash chunk.encodedHash = none)
    (hremains : Remains hash start chunks cache)
    (htame : ∀ chunk ∈ chunks, Tame hash start began cache chunk)
    (hcandidate : cache.candidate = some victim) : Victim hash start chunks cache victim := by
  obtain ⟨hlimit, entry, hargmin, rfl⟩ := candidate_eq_some.mp hcandidate
  obtain ⟨hmem, holdest, -⟩ := argmin_eq_some_iff.mp hargmin
  obtain ⟨hentry, hfree⟩ := mem_filter.mp hmem
  rw [hremains.pinned] at hfree
  have hfree := of_decide_eq_true hfree
  -- the entry is not one of the download: that one would be pinned, or younger than an old one
  have hforeign : entry.encodedHash ∉ hashesOf chunks := by
    intro hmine
    obtain ⟨chunk, hchunk, hhash⟩ := mem_map.mp hmine
    rcases hfitting.room with hall | hall | hroom
    · obtain ⟨lacking, hlacking, hnone⟩ := hmissing
      have hsome := hall lacking hlacking
      rw [hnone] at hsome
      exact Bool.noConfusion hsome
    · exact hfree (hhash ▸ hall chunk hchunk)
    · obtain ⟨old, hold, holdFree, hage⟩ := hroom.exists_old hnodup hremains htame hlimit
      have hrecent := (htame chunk hchunk).recent entry (find_eq_some.mpr ⟨hentry, hhash.symm⟩)
      have hle := holdest old (mem_filter.mpr
        ⟨(mem_foreign.mp hold).1, decide_eq_true (hremains.pinned ▸ holdFree)⟩)
      omega
  have hleft : entry ∈ foreign chunks cache := mem_foreign.mpr ⟨hentry, hforeign⟩
  have hfirst : ∀ other ∈ foreign chunks cache, other.encodedHash ∉ start.pinned →
      ¬ Older CacheEntry.lastAccess (foreign chunks start) other entry := by
    intro other hother hotherFree
    have hfilter (item : CacheEntry) (hitem : item ∈ foreign chunks cache)
        (hitemFree : item.encodedHash ∉ start.pinned) : item ∈ (foreign chunks cache).filter
          fun entry ↦ entry.encodedHash ∉ cache.pinned :=
      mem_filter.mpr ⟨hitem, decide_eq_true (hremains.pinned ▸ hitemFree)⟩
    obtain ⟨-, hleast, hindex⟩ := argmin_eq_some_iff.mp hargmin
    refine not_older_of_first (filter_sublist.trans hremains.evicted.sublist) ?_
      foreign_nodup ((List.Nodup.of_map _ cache.entries.keys_nodup).filter _) hleast hindex
      (hfilter entry hleft hfree) (hfilter other hother hotherFree)
    exact List.Sublist.filter _ filter_sublist
  refine ⟨entry, hremains.evicted.sublist.subset hleft, rfl, hfree, ?_, hfirst⟩
  refine Setting.doomed_of_lt hremains.evicted (sum_indexedSize_le htame) ?_
    fun other hother hotherFree ↦ hfirst other hother (of_decide_eq_true hotherFree)
  rw [currentBytes_eq hnodup, hremains.maxBytes] at hlimit
  exact hlimit

end Eviction

/-! ### The cache between two steps -/

section Stock

variable (hash : Bytes → Digest) (start : ChunkCache) (chunks : List ChunkRef) (began : ℤ)

/-- The entry of another chunk has been evicted. -/
def Removed (cache : ChunkCache) (encodedHash : Text) : Prop :=
  ∃ entry ∈ foreign chunks start, entry.encodedHash = encodedHash ∧ entry ∉ foreign chunks cache

/-- No chunk of the download has been put. -/
def NothingPut (cache : ChunkCache) : Prop :=
  ∀ chunk ∈ chunks, start.verified hash chunk.encodedHash = none →
    cache.verified hash chunk.encodedHash = none

/-- The part of the cache that is not of the download, and the total. `deleting` are the hashes
whose file is deleted and whose entry is about to be, and `evicting` says that an eviction loop is
running. -/
structure Stock (deleting : Text → Prop) (evicting : Prop) (cache : ChunkCache) : Prop where
  remains : Remains hash start chunks cache
  files : ∀ encodedHash ∉ hashesOf chunks, cache.file encodedHash = none ∧
        (Removed start chunks cache encodedHash ∨ deleting encodedHash) ∨
      cache.file encodedHash = start.file encodedHash ∧ ¬ Removed start chunks cache encodedHash
  balanced : HasRoom hash start chunks began →
    NothingPut hash start chunks cache ∨ cache.currentBytes ≤ cache.maxBytes ∨ evicting

end Stock

section Operations

variable {hash : Bytes → Digest} {start cache : ChunkCache} {chunks : List ChunkRef} {began : ℤ}
  {deleting : Text → Prop} {evicting : Prop} {chunk : ChunkRef}

theorem stock_start : Stock hash start chunks began (fun _ ↦ False) False start where
  remains := remains_start
  files := fun _ _ ↦ .inr ⟨rfl, fun ⟨_, hentry, _, hnot⟩ ↦ hnot hentry⟩
  balanced := fun _ ↦ .inl fun _ _ h ↦ h

section

variable (h : Stock hash start chunks began deleting evicting cache)

include h

theorem Stock.of_foreign {other : ChunkCache} {evicting' : Prop}
    (hmaxBytes : other.maxBytes = cache.maxBytes) (hpinned : other.pinned = cache.pinned)
    (hforeign : foreign chunks other = foreign chunks cache)
    (hfile : ∀ encodedHash ∉ hashesOf chunks, other.file encodedHash = cache.file encodedHash)
    (hbalanced : HasRoom hash start chunks began →
      NothingPut hash start chunks other ∨ other.currentBytes ≤ other.maxBytes ∨ evicting') :
    Stock hash start chunks began deleting evicting' other where
  remains := h.remains.of_foreign hmaxBytes hpinned hforeign
  files := by
    intro encodedHash hother
    have hremoved : Removed start chunks other encodedHash ↔
        Removed start chunks cache encodedHash := by
      unfold Removed
      rw [hforeign]
    rw [hfile encodedHash hother, hremoved]
    exact h.files encodedHash hother
  balanced := hbalanced

theorem Stock.touch (hchunk : chunk ∈ chunks) (now : ℤ) :
    Stock hash start chunks began deleting evicting (cache.touch chunk.encodedHash now) :=
  h.of_foreign rfl rfl (foreign_touch (mem_hashesOf hchunk) now) (fun _ _ ↦ rfl) h.balanced

theorem Stock.deleteAsync (hchunk : chunk ∈ chunks) :
    Stock hash start chunks began deleting evicting (cache.deleteAsync chunk.encodedHash) := by
  refine h.of_foreign rfl rfl (foreign_removeEntry_of_mem (mem_hashesOf hchunk)) ?_ ?_
  · intro encodedHash hother
    refine (sameAt_deleteAsync fun heq ↦ hother ?_).1
    exact heq ▸ mem_hashesOf hchunk
  · intro hroom
    rcases h.balanced hroom with hnothing | hlimit | hevicting
    · refine .inl fun other hother hstart ↦ ?_
      by_cases heq : other.encodedHash = chunk.encodedHash
      · rw [ChunkCache.verified, ChunkCache.deleteAsync, removeEntry_file,
          deleteFile_file, if_pos heq]
        rfl
      · rw [(sameAt_deleteAsync heq).verified hash]
        exact hnothing other hother hstart
    · have hless : (cache.deleteAsync chunk.encodedHash).currentBytes ≤ cache.currentBytes :=
        sub_le_self _ (indexedSize_nonneg _ _)
      exact .inr (.inl (hless.trans hlimit))
    · exact .inr (.inr hevicting)

theorem Stock.moveFile (hchunk : chunk ∈ chunks) (content : Bytes) :
    Stock hash start chunks began deleting True (cache.moveFile chunk.encodedHash content) := by
  refine h.of_foreign rfl rfl rfl (fun encodedHash hother ↦ ?_) fun _ ↦ .inr (.inr trivial)
  refine (sameAt_moveFile (fun heq ↦ hother ?_) content).1
  exact heq ▸ mem_hashesOf hchunk

theorem Stock.indexEntry (hchunk : chunk ∈ chunks) (size : ℕ) (now : ℤ) :
    Stock hash start chunks began deleting True
      (cache.indexEntry chunk.encodedHash size now) :=
  h.of_foreign rfl rfl (foreign_indexEntry (mem_hashesOf hchunk) size now) (fun _ _ ↦ rfl)
    fun _ ↦ .inr (.inr trivial)

theorem Stock.deleteVictimFile {victim : Text} {deleting' : Text → Prop}
    (hmono : ∀ encodedHash, deleting encodedHash → deleting' encodedHash)
    (hvictim : deleting' victim) :
    Stock hash start chunks began deleting' True (cache.deleteFile victim) where
  remains := h.remains.of_foreign rfl rfl rfl
  files := by
    intro encodedHash hother
    rw [deleteFile_file]
    by_cases heq : encodedHash = victim
    · rw [if_pos heq]
      exact .inl ⟨rfl, .inr (heq ▸ hvictim)⟩
    · rw [if_neg heq]
      exact (h.files encodedHash hother).imp (And.imp_right (Or.imp_right (hmono encodedHash))) id
  balanced := fun _ ↦ .inr (.inr trivial)

theorem Stock.removeVictim {victim : Text} {deleting' : Text → Prop}
    (hvictim : Victim hash start chunks cache victim) (hfile : cache.file victim = none)
    (hmono : ∀ encodedHash, encodedHash ≠ victim → deleting encodedHash → deleting' encodedHash) :
    Stock hash start chunks began deleting' True (cache.removeEntry victim) where
  remains := h.remains.removeEntry hvictim
  files := by
    intro encodedHash hother
    obtain ⟨gone, hgone, hgoneHash, -⟩ := hvictim
    have hleft (entry : CacheEntry) : entry ∈ foreign chunks (cache.removeEntry victim) ↔
        entry ∈ foreign chunks cache ∧ entry.encodedHash ≠ victim := by
      rw [foreign_removeEntry, mem_filter, decide_eq_true_eq]
    by_cases heq : encodedHash = victim
    · refine .inl ⟨heq ▸ hfile, .inl ⟨gone, hgone, hgoneHash.trans heq.symm, fun hin ↦ ?_⟩⟩
      exact ((hleft gone).mp hin).2 hgoneHash
    · have hremoved : Removed start chunks (cache.removeEntry victim) encodedHash ↔
          Removed start chunks cache encodedHash := by
        refine exists_congr fun entry ↦ and_congr_right fun _ ↦ and_congr_right fun hentry ↦ ?_
        rw [hleft, not_and_or, not_not]
        exact or_iff_left fun h ↦ heq (hentry.symm.trans h)
      rw [hremoved, removeEntry_file]
      exact (h.files encodedHash hother).imp
        (And.imp_right (Or.imp_right (hmono encodedHash heq))) id
  balanced := fun _ ↦ .inr (.inr trivial)

theorem Stock.exit {evicting' : Prop} (hnodup : (hashesOf chunks).Nodup)
    (htame : ∀ chunk ∈ chunks, Tame hash start began cache chunk)
    (hcandidate : cache.candidate = none) :
    Stock hash start chunks began deleting evicting' cache := by
  refine h.of_foreign rfl rfl rfl (fun _ _ ↦ rfl) fun hroom ↦ .inr (.inl ?_)
  rcases candidate_eq_none.mp hcandidate with hlimit | hpinned
  · exact hlimit
  · by_contra hlimit
    obtain ⟨old, hold, hfree, -⟩ :=
      hroom.exists_old hnodup h.remains htame (not_le.mp hlimit)
    exact hfree (h.remains.pinned ▸ hpinned old (mem_foreign.mp hold).1)

end

end Operations

end GameLauncher.Downloads
