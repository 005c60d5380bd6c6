import GameLauncher.Downloads.CacheRoom

/-!
# Runs of the tasks of a download

What holds in every state of the parallel tasks of a download that begins with a fitting cache.
`TaskHolds` says for each state of a task in which condition its chunk is, and `Safe` puts the tasks
and the rest of the cache together.
-/

set_option autoImplicit false

namespace GameLauncher.Downloads

open Foundation Fallible Foundation.LeastRecent Packs Manifests Transfer Function ChunkCache

/-! ### The tasks -/

/-- The task is between the move of its file and the end of its eviction loop. -/
def TaskState.evicts : TaskState → Bool
  | .moved _ _ | .evicting _ | .selected _ _ | .victimDeleted _ _ => true
  | _ => false

section Tasks

variable (hash : Bytes → Digest) (start : ChunkCache) (chunks : List ChunkRef) (began : ℤ)

def TaskHolds (cache : ChunkCache) (chunk : ChunkRef) : TaskState → Prop
  | .waiting | .failed _ => Held hash start began cache chunk ∨ Absent hash start cache chunk
  | .opened | .found | .done => Held hash start began cache chunk
  | .corrupt | .corruptDeleted => False
  | .missing | .downloading _ _ => Absent hash start cache chunk
  | .moved length _ => Placed hash start cache chunk ∧ length = chunk.encodedSize
  | .evicting _ =>
    Held hash start began cache chunk ∧ start.verified hash chunk.encodedHash = none
  | .selected victim _ =>
    Held hash start began cache chunk ∧ start.verified hash chunk.encodedHash = none ∧
      Victim hash start chunks cache victim
  | .victimDeleted victim _ =>
    Held hash start began cache chunk ∧ start.verified hash chunk.encodedHash = none ∧
      Victim hash start chunks cache victim ∧ cache.file victim = none

/-- The hashes whose files are deleted and whose entries are about to be. -/
def Deleting (tasks : Text → TaskState) (encodedHash : Text) : Prop :=
  ∃ chunk ∈ chunks, ∃ received, tasks chunk.encodedHash = .victimDeleted encodedHash received

/-- Some task has not ended its eviction loop. -/
def Evicting (tasks : Text → TaskState) : Prop :=
  ∃ chunk ∈ chunks, (tasks chunk.encodedHash).evicts = true

/-- The invariant of the tasks. -/
structure Safe (system : Transfer) : Prop where
  stock : Stock hash start chunks began (Deleting chunks system.tasks)
    (Evicting chunks system.tasks) system.cache
  tasks : ∀ chunk ∈ chunks,
    TaskHolds hash start chunks began system.cache chunk (system.tasks chunk.encodedHash)

end Tasks

section Steps

variable {hash : Bytes → Digest} {start cache other : ChunkCache} {chunks : List ChunkRef}
  {began : ℤ} {chunk : ChunkRef} {state : TaskState} {tasks : Text → TaskState}

theorem TaskHolds.tame (h : TaskHolds hash start chunks began cache chunk state) :
    Tame hash start began cache chunk := by
  cases state with
  | waiting | failed => exact h.elim Held.tame fun h ↦ tame_of_find_eq_none h.entry
  | opened => exact Held.tame h
  | found => exact Held.tame h
  | done => exact Held.tame h
  | corrupt => exact h.elim
  | corruptDeleted => exact h.elim
  | missing | downloading => exact tame_of_find_eq_none (Absent.entry h)
  | moved => exact tame_of_find_eq_none h.1.entry
  | evicting => exact h.1.tame
  | selected => exact h.1.tame
  | victimDeleted => exact h.1.tame

theorem TaskHolds.of_sameAt (h : TaskHolds hash start chunks began cache chunk state)
    (hsame : SameAt cache other chunk.encodedHash)
    (hforeign : foreign chunks other ⊆ foreign chunks cache)
    (hgone : ∀ encodedHash ∉ hashesOf chunks, cache.file encodedHash = none →
      other.file encodedHash = none) :
    TaskHolds hash start chunks began other chunk state := by
  have heither (h : Held hash start began cache chunk ∨ Absent hash start cache chunk) :
      Held hash start began other chunk ∨ Absent hash start other chunk :=
    h.imp (fun h ↦ h.of_sameAt hsame) fun h ↦ h.of_sameAt hsame
  cases state with
  | waiting => exact heither h
  | failed => exact heither h
  | opened => exact Held.of_sameAt h hsame
  | found => exact Held.of_sameAt h hsame
  | done => exact Held.of_sameAt h hsame
  | corrupt => exact h
  | corruptDeleted => exact h
  | missing => exact Absent.of_sameAt h hsame
  | downloading => exact Absent.of_sameAt h hsame
  | moved => exact ⟨h.1.of_sameAt hsame, h.2⟩
  | evicting => exact ⟨h.1.of_sameAt hsame, h.2⟩
  | selected => exact ⟨h.1.of_sameAt hsame, h.2.1, h.2.2.mono hforeign⟩
  | victimDeleted =>
    exact ⟨h.1.of_sameAt hsame, h.2.1, h.2.2.1.mono hforeign, hgone _ h.2.2.1.not_mem h.2.2.2⟩

theorem Stock.mono {deleting deleting' : Text → Prop} {evicting evicting' : Prop}
    (h : Stock hash start chunks began deleting evicting cache)
    (hdeleting : ∀ encodedHash, deleting encodedHash → deleting' encodedHash)
    (hevicting : evicting → evicting') :
    Stock hash start chunks began deleting' evicting' cache where
  remains := h.remains
  files := fun encodedHash hother ↦
    (h.files encodedHash hother).imp (And.imp_right (Or.imp_right (hdeleting encodedHash))) id
  balanced := fun hroom ↦ (h.balanced hroom).imp_right (Or.imp_right hevicting)

theorem deleting_update (hnot : ∀ victim received,
      tasks chunk.encodedHash ≠ .victimDeleted victim received) (encodedHash : Text)
    (h : Deleting chunks tasks encodedHash) :
    Deleting chunks (Function.update tasks chunk.encodedHash state) encodedHash := by
  obtain ⟨holder, hholder, received, hstate⟩ := h
  refine ⟨holder, hholder, received, ?_⟩
  rw [update_of_ne]
  · exact hstate
  · intro heq
    exact hnot _ _ (heq ▸ hstate)

theorem evicting_update (hnot : (tasks chunk.encodedHash).evicts = false)
    (h : Evicting chunks tasks) :
    Evicting chunks (Function.update tasks chunk.encodedHash state) := by
  obtain ⟨holder, hholder, hstate⟩ := h
  refine ⟨holder, hholder, ?_⟩
  rw [update_of_ne]
  · exact hstate
  · intro heq
    rw [heq, hnot] at hstate
    exact Bool.noConfusion hstate

theorem evicting_of_update (hchunk : chunk ∈ chunks) (h : state.evicts = true) :
    Evicting chunks (Function.update tasks chunk.encodedHash state) :=
  ⟨chunk, hchunk, by rw [update_self]; exact h⟩

variable {system next : Transfer}

section

variable (h : Safe hash start chunks began system) (hnodup : (hashesOf chunks).Nodup)
  (hchunk : chunk ∈ chunks)
  (htasks : next.tasks = Function.update system.tasks chunk.encodedHash state)

include h hnodup hchunk htasks

/-- A step of the task of a chunk keeps the invariant when it keeps the rest of the cache, leaves
the other chunks alone and brings its own chunk into the condition of its new state. -/
theorem Safe.update
    (hstock : Stock hash start chunks began
      (Deleting chunks (Function.update system.tasks chunk.encodedHash state))
      (Evicting chunks (Function.update system.tasks chunk.encodedHash state)) next.cache)
    (hmine : TaskHolds hash start chunks began next.cache chunk state)
    (hsame : ∀ encodedHash ∈ hashesOf chunks, encodedHash ≠ chunk.encodedHash →
      SameAt system.cache next.cache encodedHash)
    (hforeign : foreign chunks next.cache ⊆ foreign chunks system.cache)
    (hgone : ∀ encodedHash ∉ hashesOf chunks, system.cache.file encodedHash = none →
      next.cache.file encodedHash = none) :
    Safe hash start chunks began next where
  stock := htasks ▸ hstock
  tasks := by
    intro other hother
    rw [htasks]
    by_cases heq : other = chunk
    · rw [heq, update_self]
      exact hmine
    · have hne : other.encodedHash ≠ chunk.encodedHash := fun hhash ↦
        heq (List.inj_on_of_nodup_map hnodup hother hchunk hhash)
      rw [update_of_ne hne]
      exact (h.tasks other hother).of_sameAt (hsame _ (mem_hashesOf hother) hne) hforeign hgone

/-- A step that leaves the cache alone and takes no part in an eviction. -/
theorem Safe.setTask (hcache : next.cache = system.cache)
    (hquiet : (system.tasks chunk.encodedHash).evicts = false)
    (hmine : TaskHolds hash start chunks began system.cache chunk state) :
    Safe hash start chunks began next := by
  refine h.update hnodup hchunk htasks ?_ (hcache ▸ hmine) (fun encodedHash _ _ ↦ hcache ▸ .refl _ _)
    (hcache ▸ List.Subset.refl _) fun _ _ hnone ↦ hcache ▸ hnone
  rw [hcache]
  refine h.stock.mono (deleting_update fun victim received hstate ↦ ?_) (evicting_update hquiet)
  rw [hstate] at hquiet
  exact Bool.noConfusion hquiet

end

theorem Held.exists_file (h : Held hash start began cache chunk) :
    ∃ bytes, cache.file chunk.encodedHash = some bytes ∧ (hash bytes).hex = chunk.encodedHash := by
  obtain ⟨bytes, hbytes⟩ := Option.isSome_iff_exists.mp h.verified
  exact ⟨bytes, verified_eq_some.mp hbytes⟩

theorem verified_moveFile {content : Bytes} (hcontent : (hash content).hex = chunk.encodedHash) :
    ((cache.moveFile chunk.encodedHash content).verified hash chunk.encodedHash).isSome = true := by
  have hverified : (cache.moveFile chunk.encodedHash content).verified hash chunk.encodedHash =
      some content := verified_eq_some.mpr ⟨by simp, hcontent⟩
  rw [hverified]
  rfl

variable {received : ℕ}

theorem checkDelivered_eq_ok {delivered : Except LauncherException (Bytes × ℕ)} {content : Bytes} :
    checkDelivered hash chunk delivered = .ok (content, received) ↔
      delivered = .ok (content, received) ∧ content.length = chunk.encodedSize ∧
        (hash content).hex = chunk.encodedHash := by
  unfold checkDelivered
  simp only [bind_eq_ok, throwIf_eq_ok, exists_const, not_not, pure_eq_ok, Prod.exists,
    Prod.mk.injEq]
  constructor
  · rintro ⟨_, _, hdelivered, hlength, hhash, rfl, rfl⟩
    exact ⟨hdelivered, hlength, hhash⟩
  · rintro ⟨hdelivered, hlength, hhash⟩
    exact ⟨content, received, hdelivered, hlength, hhash, rfl, rfl⟩

variable {clock : ℕ → ℤ} {action : Action}

theorem not_deleting_of_eq {state : TaskState} (hstate : tasks chunk.encodedHash = state)
    (hnot : ∀ victim received, state ≠ .victimDeleted victim received) (victim : Text)
    (received : ℕ) : tasks chunk.encodedHash ≠ .victimDeleted victim received :=
  hstate ▸ hnot victim received

section

variable (h : Safe hash start chunks began system) (hnodup : (hashesOf chunks).Nodup)

include h hnodup

theorem Safe.advance_waiting (hchunk : action.chunk ∈ chunks)
    (hstate : system.tasks action.chunk.encodedHash = .waiting) :
    Safe hash start chunks began (advanceFrom hash clock system action .waiting) := by
  have hmine := h.tasks action.chunk hchunk
  rw [hstate] at hmine
  have hquiet : (system.tasks action.chunk.encodedHash).evicts = false := by rw [hstate]; rfl
  cases hvalid : validateHash action.chunk.encodedHash with
  | error exception =>
    simp only [advanceFrom, hvalid]
    exact h.setTask hnodup hchunk rfl rfl hquiet hmine
  | ok _ =>
    simp only [advanceFrom, hvalid]
    refine h.setTask hnodup hchunk rfl rfl hquiet ?_
    rcases hmine with hheld | habsent
    · obtain ⟨bytes, hfile, -⟩ := hheld.exists_file
      rw [hfile]
      exact hheld
    · rw [habsent.file]
      exact habsent

theorem Safe.advance_opened (hchunk : action.chunk ∈ chunks)
    (hstate : system.tasks action.chunk.encodedHash = .opened) :
    Safe hash start chunks began (advanceFrom hash clock system action .opened) := by
  have hmine := h.tasks action.chunk hchunk
  rw [hstate] at hmine
  obtain ⟨bytes, hfile, hhash⟩ := Held.exists_file hmine
  simp only [advanceFrom, hfile, hhash, if_true]
  exact h.setTask hnodup hchunk rfl rfl (by rw [hstate]; rfl) hmine

theorem Safe.advance_found (hclock : ∀ call, began ≤ clock call) (hchunk : action.chunk ∈ chunks)
    (hstate : system.tasks action.chunk.encodedHash = .found) :
    Safe hash start chunks began (advanceFrom hash clock system action .found) := by
  have hmine := h.tasks action.chunk hchunk
  rw [hstate] at hmine
  have hforeign : foreign chunks
      (system.cache.touch action.chunk.encodedHash (clock system.calls)) =
        foreign chunks system.cache := foreign_touch (mem_hashesOf hchunk) _
  refine h.update hnodup hchunk rfl ?_ (Held.touch hmine (hclock _))
    (fun encodedHash _ hne ↦ sameAt_touch hne _) (hforeign ▸ List.Subset.refl _)
    fun _ _ hnone ↦ hnone
  exact (h.stock.touch hchunk _).mono (deleting_update (not_deleting_of_eq hstate nofun))
    (evicting_update (by rw [hstate]; rfl))

theorem Safe.advance_missing (hchunk : action.chunk ∈ chunks)
    (hstate : system.tasks action.chunk.encodedHash = .missing) :
    Safe hash start chunks began (advanceFrom hash clock system action .missing) := by
  have hmine := h.tasks action.chunk hchunk
  rw [hstate] at hmine
  have hquiet : (system.tasks action.chunk.encodedHash).evicts = false := by rw [hstate]; rfl
  cases hfind : system.resolved.find? fun item ↦ item.encodedHash = action.chunk.encodedHash with
  | none =>
    simp only [advanceFrom, hfind]
    refine h.setTask hnodup hchunk rfl rfl hquiet ?_
    exact Or.inr hmine
  | some location =>
    simp only [advanceFrom, hfind]
    refine h.setTask hnodup hchunk rfl rfl hquiet ?_
    split_ifs
    · exact Or.inr hmine
    · exact hmine

theorem Safe.advance_downloading {attempts : List Text} {refreshes : ℕ}
    (hchunk : action.chunk ∈ chunks)
    (hstate : system.tasks action.chunk.encodedHash = .downloading attempts refreshes) :
    Safe hash start chunks began
      (advanceFrom hash clock system action (.downloading attempts refreshes)) := by
  have hmine := h.tasks action.chunk hchunk
  rw [hstate] at hmine
  have hquiet : (system.tasks action.chunk.encodedHash).evicts = false := by rw [hstate]; rfl
  cases attempts with
  | nil =>
    cases hrefreshed : action.refreshed with
    | error exception =>
      simp only [advanceFrom, hrefreshed]
      refine h.setTask hnodup hchunk rfl rfl hquiet ?_
      exact Or.inr hmine
    | ok locations =>
      simp only [advanceFrom, hrefreshed]
      refine h.setTask hnodup hchunk rfl rfl hquiet ?_
      split_ifs
      · exact Or.inr hmine
      · exact hmine
  | cons location attempts =>
    cases hdelivered : checkDelivered hash action.chunk action.delivered with
    | error exception =>
      simp only [advanceFrom, hdelivered]
      refine h.setTask hnodup hchunk rfl rfl hquiet ?_
      split_ifs
      · exact hmine
      · exact Or.inr hmine
    | ok result =>
      obtain ⟨content, received⟩ := result
      obtain ⟨-, hlength, hhash⟩ := checkDelivered_eq_ok.mp hdelivered
      have habsent : Absent hash start system.cache action.chunk := hmine
      simp only [advanceFrom, hdelivered]
      refine h.update hnodup hchunk rfl ?_
        ⟨⟨verified_moveFile hhash, habsent.entry, habsent.start⟩, hlength⟩
        (fun encodedHash _ hne ↦ sameAt_moveFile hne _) (List.Subset.refl _) ?_
      · exact (h.stock.moveFile hchunk content).mono
          (deleting_update (not_deleting_of_eq hstate nofun))
          fun _ ↦ evicting_of_update hchunk rfl
      · intro encodedHash hother hnone
        have hne : action.chunk.encodedHash ≠ encodedHash := by
          rintro rfl
          exact hother (mem_hashesOf hchunk)
        rw [moveFile_file, if_neg hne]
        exact hnone

theorem Safe.advance_moved {length : ℕ} (hclock : ∀ call, began ≤ clock call)
    (hchunk : action.chunk ∈ chunks)
    (hstate : system.tasks action.chunk.encodedHash = .moved length received) :
    Safe hash start chunks began
      (advanceFrom hash clock system action (.moved length received)) := by
  have hmine := h.tasks action.chunk hchunk
  rw [hstate] at hmine
  obtain ⟨hplaced, rfl⟩ := hmine
  have hforeign : foreign chunks (system.cache.indexEntry action.chunk.encodedHash
      action.chunk.encodedSize (clock system.calls)) = foreign chunks system.cache :=
    foreign_indexEntry (mem_hashesOf hchunk) _ _
  refine h.update hnodup hchunk rfl ?_
    ⟨held_indexEntry hplaced.verified hplaced.start (hclock _), hplaced.start⟩
    (fun encodedHash _ hne ↦ sameAt_indexEntry hne _ _) (hforeign ▸ List.Subset.refl _)
    fun _ _ hnone ↦ hnone
  exact (h.stock.indexEntry hchunk _ _).mono (deleting_update (not_deleting_of_eq hstate nofun))
    fun _ ↦ evicting_of_update hchunk rfl

end

theorem Safe.advance_evicting (h : Safe hash start chunks began system)
    (hfitting : Fitting hash start chunks began) (hnodup : (hashesOf chunks).Nodup)
    (hchunk : action.chunk ∈ chunks)
    (hstate : system.tasks action.chunk.encodedHash = .evicting received) :
    Safe hash start chunks began
      (advanceFrom hash clock system action (.evicting received)) := by
  have hmine := h.tasks action.chunk hchunk
  rw [hstate] at hmine
  have htame : ∀ chunk ∈ chunks, Tame hash start began system.cache chunk :=
    fun chunk hin ↦ (h.tasks chunk hin).tame
  have hkeep (state : TaskState) (encodedHash : Text)
      (hdeleting : Deleting chunks system.tasks encodedHash) : Deleting chunks
        (Function.update system.tasks action.chunk.encodedHash state) encodedHash :=
    deleting_update (not_deleting_of_eq hstate nofun) encodedHash hdeleting
  cases hcandidate : system.cache.candidate with
  | none =>
    simp only [advanceFrom, hcandidate]
    refine h.update hnodup hchunk rfl ?_ hmine.1 (fun _ _ _ ↦ .refl _ _) (List.Subset.refl _)
      fun _ _ hnone ↦ hnone
    exact (h.stock.exit hnodup htame hcandidate).mono (hkeep _) id
  | some victim =>
    have hvictim := victim_of_candidate hfitting hnodup ⟨action.chunk, hchunk, hmine.2⟩
      h.stock.remains htame hcandidate
    simp only [advanceFrom, hcandidate]
    refine h.update hnodup hchunk rfl ?_ ⟨hmine.1, hmine.2, hvictim⟩ (fun _ _ _ ↦ .refl _ _)
      (List.Subset.refl _) fun _ _ hnone ↦ hnone
    exact h.stock.mono (hkeep _) fun _ ↦ evicting_of_update hchunk rfl

variable {victim : Text}

theorem Victim.ne_of_mem {encodedHash : Text} (h : Victim hash start chunks cache victim)
    (hin : encodedHash ∈ hashesOf chunks) : encodedHash ≠ victim :=
  fun heq ↦ h.not_mem (heq ▸ hin)

section

variable (h : Safe hash start chunks began system) (hnodup : (hashesOf chunks).Nodup)
  (hchunk : action.chunk ∈ chunks)

include h hnodup hchunk

theorem Safe.advance_selected
    (hstate : system.tasks action.chunk.encodedHash = .selected victim received) :
    Safe hash start chunks began
      (advanceFrom hash clock system action (.selected victim received)) := by
  have hmine := h.tasks action.chunk hchunk
  rw [hstate] at hmine
  obtain ⟨hheld, hstart, hvictim⟩ := hmine
  have hgone : (system.cache.deleteFile victim).file victim = none := by
    rw [deleteFile_file, if_pos rfl]
  refine h.update hnodup hchunk rfl ?_
    ⟨hheld.of_sameAt (sameAt_deleteFile (hvictim.ne_of_mem (mem_hashesOf hchunk))), hstart,
      hvictim.mono (List.Subset.refl _), hgone⟩
    (fun encodedHash hin _ ↦ sameAt_deleteFile (hvictim.ne_of_mem hin)) (List.Subset.refl _) ?_
  · exact (h.stock.deleteVictimFile (deleting_update (not_deleting_of_eq hstate nofun))
      ⟨action.chunk, hchunk, received, update_self ..⟩).mono (fun _ h ↦ h)
      fun _ ↦ evicting_of_update hchunk rfl
  · intro encodedHash _ hnone
    change (system.cache.deleteFile victim).file encodedHash = none
    rw [deleteFile_file, hnone, ite_self]

theorem Safe.advance_victimDeleted
    (hstate : system.tasks action.chunk.encodedHash = .victimDeleted victim received) :
    Safe hash start chunks began
      (advanceFrom hash clock system action (.victimDeleted victim received)) := by
  have hmine := h.tasks action.chunk hchunk
  rw [hstate] at hmine
  obtain ⟨hheld, hstart, hvictim, hfile⟩ := hmine
  refine h.update hnodup hchunk rfl ?_
    ⟨hheld.of_sameAt (sameAt_removeEntry (hvictim.ne_of_mem (mem_hashesOf hchunk))), hstart⟩
    (fun encodedHash hin _ ↦ sameAt_removeEntry (hvictim.ne_of_mem hin)) ?_
    fun _ _ hnone ↦ hnone
  · refine (h.stock.removeVictim hvictim hfile fun encodedHash hne hdeleting ↦ ?_).mono
      (fun _ h ↦ h) fun _ ↦ evicting_of_update hchunk rfl
    obtain ⟨holder, hholder, other, hother⟩ := hdeleting
    refine ⟨holder, hholder, other, ?_⟩
    rw [update_of_ne]
    · exact hother
    · intro heq
      rw [heq, hstate] at hother
      exact hne (TaskState.victimDeleted.inj hother).1.symm
  · change foreign chunks (system.cache.removeEntry victim) ⊆ _
    rw [foreign_removeEntry]
    exact List.filter_sublist.subset

end

theorem Safe.advance (h : Safe hash start chunks began system)
    (hfitting : Fitting hash start chunks began) (hnodup : (hashesOf chunks).Nodup)
    (hclock : ∀ call, began ≤ clock call) (hchunk : action.chunk ∈ chunks) :
    Safe hash start chunks began (system.advance hash clock action) := by
  have hmine := h.tasks action.chunk hchunk
  unfold Transfer.advance
  cases hstate : system.tasks action.chunk.encodedHash with
  | waiting => exact h.advance_waiting hnodup hchunk hstate
  | opened => exact h.advance_opened hnodup hchunk hstate
  | found => exact h.advance_found hnodup hclock hchunk hstate
  | corrupt | corruptDeleted =>
    rw [hstate] at hmine
    exact hmine.elim
  | missing => exact h.advance_missing hnodup hchunk hstate
  | downloading attempts refreshes => exact h.advance_downloading hnodup hchunk hstate
  | moved length received => exact h.advance_moved hnodup hclock hchunk hstate
  | evicting received => exact h.advance_evicting hfitting hnodup hchunk hstate
  | selected victim received => exact h.advance_selected hnodup hchunk hstate
  | victimDeleted victim received => exact h.advance_victimDeleted hnodup hchunk hstate
  | done => exact h
  | failed exception => exact h

end Steps

end GameLauncher.Downloads
