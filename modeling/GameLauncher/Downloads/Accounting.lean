import GameLauncher.Downloads.DownloadRuns
import Mathlib.Data.Finset.Card

/-!
# The counters of a download

`countedChunks` lists the chunks of the steps that raise `downloadedChunks` or `reusedChunks`, once
for each increment. A step either leaves the counters and the ended tasks as they are (`Idles`), or
it counts the chunk of its task, which ends with it (`Counts`); `Accounted` is what follows in any
order of steps, and `counts_every_chunk_once` is the summary of a download that returns.

The increments are interlocked and the summary is read after all tasks, so the two or three of one
task are one step here. None of the counters wraps: the chunks are an array, and the sum of their
sizes is checked before the tasks start.
-/

set_option autoImplicit false

namespace GameLauncher.Downloads

open Foundation Fallible Manifests List Function

namespace Transfer

def counted (system : Transfer) : ℕ :=
  system.summary.chunksDownloaded + system.summary.chunksReused

/-- The chunks that a run counts, one for each increment, in the order of the steps. -/
def countedChunks (hash : Bytes → Digest) (clock : ℕ → ℤ) : Transfer → List Action → List ChunkRef
  | _, [] => []
  | system, action :: rest =>
    let next := advance hash clock system action
    List.replicate (next.counted - system.counted) action.chunk ++
      countedChunks hash clock next rest

end Transfer

open Transfer

/-! ### One step -/

/-- Nothing is counted and no task ends. -/
structure Idles (system next : Transfer) : Prop where
  summary : next.summary = system.summary
  done_iff : ∀ encodedHash, next.tasks encodedHash = .done ↔ system.tasks encodedHash = .done

structure Counts (chunk : ChunkRef) (system next : Transfer) : Prop where
  running : system.tasks chunk.encodedHash ≠ .done
  counted_eq : next.counted = system.counted + 1
  preparedBytes_eq : next.summary.preparedBytes = system.summary.preparedBytes + chunk.encodedSize
  done_iff : ∀ encodedHash, next.tasks encodedHash = .done ↔
    encodedHash = chunk.encodedHash ∨ system.tasks encodedHash = .done

section Step

variable {hash : Bytes → Digest} {clock : ℕ → ℤ} {system next : Transfer} {action : Action}
  {chunk : ChunkRef} {state : TaskState}

theorem idles_of_update (hbefore : system.tasks chunk.encodedHash ≠ .done)
    (hsummary : next.summary = system.summary) (hstate : state ≠ .done)
    (htasks : next.tasks = Function.update system.tasks chunk.encodedHash state) :
    Idles system next := by
  refine ⟨hsummary, fun encodedHash ↦ ?_⟩
  rw [htasks]
  by_cases heq : encodedHash = chunk.encodedHash
  · rw [heq, update_self]
    exact iff_of_false hstate hbefore
  · rw [update_of_ne heq]

theorem counts_of_update (hbefore : system.tasks chunk.encodedHash ≠ .done)
    (hcounted : next.counted = system.counted + 1)
    (hbytes : next.summary.preparedBytes = system.summary.preparedBytes + chunk.encodedSize)
    (htasks : next.tasks = Function.update system.tasks chunk.encodedHash .done) :
    Counts chunk system next := by
  refine ⟨hbefore, hcounted, hbytes, fun encodedHash ↦ ?_⟩
  rw [htasks]
  by_cases heq : encodedHash = chunk.encodedHash
  · rw [heq, update_self]
    exact iff_of_true rfl (.inl rfl)
  · rw [update_of_ne heq, or_iff_right heq]

theorem counted_reuse : (system.reuse chunk).counted = system.counted + 1 := by
  unfold Transfer.reuse Transfer.counted
  split_ifs
  · exact Nat.add_right_comm _ 1 _
  · exact (Nat.add_assoc _ _ 1).symm

theorem preparedBytes_reuse :
    (system.reuse chunk).summary.preparedBytes =
      system.summary.preparedBytes + chunk.encodedSize := by
  unfold Transfer.reuse
  split_ifs <;> rfl

theorem advance_counts (hash : Bytes → Digest) (clock : ℕ → ℤ) (system : Transfer)
    (action : Action) :
    Idles system (advance hash clock system action) ∨
      Counts action.chunk system (advance hash clock system action) := by
  unfold advance
  by_cases hbefore : system.tasks action.chunk.encodedHash = .done
  · rw [hbefore]
    exact .inl ⟨rfl, fun _ ↦ Iff.rfl⟩
  cases system.tasks action.chunk.encodedHash with
  | done | failed _ => exact .inl ⟨rfl, fun _ ↦ Iff.rfl⟩
  | found =>
    exact .inr (counts_of_update hbefore counted_reuse preparedBytes_reuse rfl)
  | evicting received =>
    unfold advanceFrom
    cases system.cache.candidate with
    | none => exact .inr (counts_of_update hbefore (Nat.add_right_comm _ 1 _) rfl rfl)
    | some victim => exact .inl (idles_of_update hbefore rfl (by simp) rfl)
  | waiting =>
    unfold advanceFrom
    cases validateHash action.chunk.encodedHash with
    | error exception => exact .inl (idles_of_update hbefore rfl (by simp) rfl)
    | ok _ => exact .inl (idles_of_update hbefore rfl (by split_ifs <;> simp) rfl)
  | opened =>
    unfold advanceFrom
    cases system.cache.file action.chunk.encodedHash with
    | none => exact .inl (idles_of_update hbefore rfl (by simp) rfl)
    | some bytes => exact .inl (idles_of_update hbefore rfl (by split_ifs <;> simp) rfl)
  | missing =>
    unfold advanceFrom
    cases system.resolved.find? fun item ↦ item.encodedHash = action.chunk.encodedHash with
    | none => exact .inl (idles_of_update hbefore rfl (by simp) rfl)
    | some location => exact .inl (idles_of_update hbefore rfl (by split_ifs <;> simp) rfl)
  | downloading attempts refreshes =>
    cases attempts with
    | nil =>
      unfold advanceFrom
      cases action.refreshed with
      | error exception => exact .inl (idles_of_update hbefore rfl (by simp) rfl)
      | ok locations => exact .inl (idles_of_update hbefore rfl (by split_ifs <;> simp) rfl)
    | cons attempt attempts =>
      unfold advanceFrom
      cases checkDelivered hash action.chunk action.delivered with
      | error exception => exact .inl (idles_of_update hbefore rfl (by split_ifs <;> simp) rfl)
      | ok delivered => exact .inl (idles_of_update hbefore rfl (by simp) rfl)
  | corrupt | corruptDeleted | moved _ _ | selected _ _ | victimDeleted _ _ =>
    exact .inl (idles_of_update hbefore rfl (by simp) rfl)

end Step

/-! ### A run -/

/-- The chunks that have been counted are those whose tasks have ended, each once. -/
structure Accounted (chunks counted : List ChunkRef) (system : Transfer) : Prop where
  nodup : counted.Nodup
  mem_iff : ∀ chunk, chunk ∈ counted ↔ chunk ∈ chunks ∧ system.tasks chunk.encodedHash = .done
  counted_eq : system.counted = counted.length
  preparedBytes_eq : system.summary.preparedBytes = (counted.map ChunkRef.encodedSize).sum

section Run

variable {hash : Bytes → Digest} {clock : ℕ → ℤ} {chunks counted : List ChunkRef}
  {system next : Transfer} {chunk : ChunkRef}

theorem Accounted.idle (h : Accounted chunks counted system) (hidles : Idles system next) :
    Accounted chunks counted next where
  nodup := h.nodup
  mem_iff other := by rw [hidles.done_iff, h.mem_iff]
  counted_eq := by rw [Transfer.counted, hidles.summary, ← h.counted_eq, Transfer.counted]
  preparedBytes_eq := by rw [hidles.summary, h.preparedBytes_eq]

theorem Accounted.count (h : Accounted chunks counted system)
    (hnodup : (hashesOf chunks).Nodup) (hchunk : chunk ∈ chunks)
    (hcounts : Counts chunk system next) : Accounted chunks (counted ++ [chunk]) next where
  nodup := by
    refine nodup_append.mpr ⟨h.nodup, nodup_singleton chunk, ?_⟩
    rintro other hother _ hlast rfl
    rw [mem_singleton.mp hlast, h.mem_iff] at hother
    exact hcounts.running hother.2
  mem_iff other := by
    rw [mem_append, mem_singleton, h.mem_iff, hcounts.done_iff]
    constructor
    · rintro (⟨hother, hdone⟩ | rfl)
      · exact ⟨hother, .inr hdone⟩
      · exact ⟨hchunk, .inl rfl⟩
    · rintro ⟨hother, hsame | hdone⟩
      · exact .inr (inj_on_of_nodup_map hnodup hother hchunk hsame)
      · exact .inl ⟨hother, hdone⟩
  counted_eq := by rw [hcounts.counted_eq, h.counted_eq, length_append, length_singleton]
  preparedBytes_eq := by
    rw [hcounts.preparedBytes_eq, h.preparedBytes_eq, map_append, sum_append,
      map_singleton, sum_singleton]

theorem Accounted.foldl (hnodup : (hashesOf chunks).Nodup) {actions : List Action}
    (h : Accounted chunks counted system) (hactions : ∀ action ∈ actions, action.chunk ∈ chunks) :
    Accounted chunks (counted ++ countedChunks hash clock system actions)
      (actions.foldl (advance hash clock) system) := by
  induction actions generalizing counted system with
  | nil => rwa [countedChunks, append_nil]
  | cons action rest ih =>
    have hrest : ∀ other ∈ rest, other.chunk ∈ chunks := fun other hother ↦
      hactions other (mem_cons_of_mem action hother)
    rw [countedChunks, foldl_cons, ← append_assoc]
    refine ih ?_ hrest
    rcases advance_counts hash clock system action with hidles | hcounts
    · have hsame : (advance hash clock system action).counted = system.counted := by
        rw [Transfer.counted, hidles.summary, Transfer.counted]
      rw [hsame, Nat.sub_self, replicate_zero, append_nil]
      exact h.idle hidles
    · rw [hcounts.counted_eq, Nat.add_sub_cancel_left]
      exact h.count hnodup (hactions action mem_cons_self) hcounts

theorem Accounted.perm_of_finished (h : Accounted chunks counted system)
    (hnodup : (hashesOf chunks).Nodup) (hfinished : system.Finished chunks) :
    counted.Perm chunks := by
  refine (perm_ext_iff_of_nodup h.nodup hnodup.of_map).mpr fun chunk ↦ ?_
  rw [h.mem_iff]
  exact and_iff_left_of_imp (hfinished chunk)

end Run

/-! ### The summary -/

section Summary

variable {network : Network} {hash : Bytes → Digest} {unicode : Unicode} {packsEnabled : Bool}
  {manifest : Manifest} {cache packCache : ChunkCache} {begun : Transfer}

/-- The encoded hashes of a manifest, with their repetitions. -/
def encodedHashes (manifest : Manifest) : List Text :=
  hashesOf (manifest.files.flatMap FileRecipe.chunks)

theorem mem_hashesOf_uniqueChunks {encodedHash : Text} :
    encodedHash ∈ hashesOf (uniqueChunks manifest) ↔ encodedHash ∈ encodedHashes manifest := by
  constructor
  · intro h
    obtain ⟨chunk, hchunk, rfl⟩ := mem_map.mp h
    exact mem_hashesOf (mem_of_mem_distinctBy hchunk)
  · intro h
    obtain ⟨chunk, hchunk, rfl⟩ := mem_map.mp h
    obtain ⟨other, hother, heq⟩ : ∃ other ∈ uniqueChunks manifest,
        other.encodedHash = chunk.encodedHash := exists_mem_distinctBy hchunk
    rw [← heq]
    exact mem_hashesOf hother

theorem sumEncodedSizes_eq_ok {chunks : List ChunkRef} {total : ℕ}
    (h : sumEncodedSizes chunks = .ok total) : total = (chunks.map ChunkRef.encodedSize).sum := by
  have hloop (chunks : List ChunkRef) (began : ℕ) : chunks.foldlM (fun total chunk ↦
      ManifestValidator.checkedAddLong total chunk.encodedSize) began = some total →
        total = began + (chunks.map ChunkRef.encodedSize).sum := by
    induction chunks generalizing began with
    | nil => exact fun hsum ↦ (Option.some.inj hsum).symm
    | cons chunk rest ih =>
      rw [foldlM_cons, Option.bind_eq_bind, Option.bind_eq_some_iff]
      rintro ⟨middle, hmiddle, hrest⟩
      rw [ih middle hrest, ← (ManifestValidator.checkedAddLong_eq_some.mp hmiddle).2,
        map_cons, sum_cons, Nat.add_assoc]
  rw [hloop chunks 0 (orThrow_eq_ok.mp h), Nat.zero_add]

theorem accounted_start {session : Session} {totals : PackTotals} {resolved : List ResolvedChunk}
    (chunks : List ChunkRef) : Accounted chunks [] (Transfer.start session totals resolved) where
  nodup := nodup_nil
  mem_iff _ := iff_of_false not_mem_nil fun h ↦ nomatch h.2
  counted_eq := rfl
  preparedBytes_eq := rfl

theorem accounted_beginTasks
    (h : Transfer.beginTasks hash network unicode packsEnabled manifest cache packCache =
      .ok begun) : Accounted (uniqueChunks manifest) [] begun ∧
        sumEncodedSizes (uniqueChunks manifest) =
          .ok ((uniqueChunks manifest).map ChunkRef.encodedSize).sum := by
  unfold Transfer.beginTasks at h
  simp only [bind_eq_ok, pure_eq_ok, Prod.exists] at h
  obtain ⟨totals, resolved, hprepared, rfl⟩ := h
  refine ⟨accounted_start (uniqueChunks manifest), ?_⟩
  obtain ⟨_, -, hrest⟩ := Process.result_bind_eq_ok.mp hprepared
  obtain ⟨total, htotal, -⟩ := Process.result_bind_eq_ok.mp hrest
  have hsum : sumEncodedSizes (uniqueChunks manifest) = .ok total := htotal
  rw [hsum, sumEncodedSizes_eq_ok hsum]

end Summary

/-- **A download counts every encoded hash once.** In every order of the steps of its tasks no hash
is counted twice; and when all tasks have ended, the chunks downloaded and the chunks reused are
together as many as the manifest has encoded hashes, and the prepared bytes are the total. -/
theorem counts_every_chunk_once (hash : Bytes → Digest) (network : Network) (unicode : Unicode)
    (packsEnabled : Bool) (manifest : Manifest) (cache : ChunkCache) (packCache : PackCache)
    {begun : Transfer} (hbegin : Transfer.beginTasks hash network unicode packsEnabled manifest
      cache packCache = .ok begun) (actions : List Action)
    (hactions : ∀ action ∈ actions, action.chunk ∈ uniqueChunks manifest) :
    let counted := countedChunks hash network.clock begun actions
    let final := actions.foldl (advance hash network.clock) begun
    (hashesOf counted).Nodup ∧
      final.summary.chunksDownloaded + final.summary.chunksReused = counted.length ∧
      (final.Finished (uniqueChunks manifest) →
        (hashesOf counted).toFinset = (encodedHashes manifest).toFinset ∧
        final.summary.chunksDownloaded + final.summary.chunksReused =
          (encodedHashes manifest).toFinset.card ∧
        final.summary.preparedBytes = ((uniqueChunks manifest).map ChunkRef.encodedSize).sum ∧
        sumEncodedSizes (uniqueChunks manifest) = .ok final.summary.preparedBytes) := by
  intro counted final
  have hnodup := nodup_uniqueChunks manifest
  obtain ⟨hstart, htotal⟩ := accounted_beginTasks hbegin
  have haccounted : Accounted (uniqueChunks manifest) counted final := by
    have hrun := @Accounted.foldl hash network.clock _ _ _ hnodup actions hstart hactions
    rwa [nil_append] at hrun
  have honce : (hashesOf counted).Nodup := by
    refine (nodup_map_iff_inj_on haccounted.nodup).mpr fun first hfirst second hsecond heq ↦ ?_
    exact inj_on_of_nodup_map hnodup ((haccounted.mem_iff first).mp hfirst).1
      ((haccounted.mem_iff second).mp hsecond).1 heq
  refine ⟨honce, haccounted.counted_eq, fun hfinished ↦ ?_⟩
  have hperm := haccounted.perm_of_finished hnodup hfinished
  have hhashes : (hashesOf counted).toFinset = (encodedHashes manifest).toFinset := by
    ext encodedHash
    rw [mem_toFinset, mem_toFinset, ← mem_hashesOf_uniqueChunks, hashesOf, hashesOf,
      (hperm.map ChunkRef.encodedHash).mem_iff]
  have hbytes : final.summary.preparedBytes =
      ((uniqueChunks manifest).map ChunkRef.encodedSize).sum := by
    rw [haccounted.preparedBytes_eq, (hperm.map ChunkRef.encodedSize).sum_eq]
  refine ⟨hhashes, ?_, hbytes, hbytes ▸ htotal⟩
  rw [← hhashes, toFinset_card_of_nodup honce, hashesOf, length_map]
  exact haccounted.counted_eq

/-- A download of two chunks into a cache that has room for both. -/
theorem counts_every_chunk_once_roomy :
    (twoTasksDone 20 0).summary.chunksDownloaded + (twoTasksDone 20 0).summary.chunksReused =
      (encodedHashes twoChunkManifest).toFinset.card := by
  have hactions : ∀ action ∈ fetch firstChunk (frameOf 97) 0 ++ fetch secondChunk (frameOf 98) 0,
      action.chunk ∈ uniqueChunks twoChunkManifest := by decide
  exact ((counts_every_chunk_once frameHash oneSource ManifestValidator.asciiUnicode false
    twoChunkManifest (emptyCache 20) (emptyCache 20) (beginTasks_twoTasks (by decide))
    _ hactions).2.2 (by decide)).2.1

end GameLauncher.Downloads
