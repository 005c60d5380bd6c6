import GameLauncher.Downloads.DownloadRuns
import GameLauncher.Downloads.ResumedTransfers

/-!
# What a resumed transfer may do

`Resuming` is the invariant of the transfer of one chunk or pack, with what it may still do: the
attempts and the refreshes in reserve, and the requests that are left of the newest attempt. Within
an attempt the length of the partial file is followed from call to call (`Holds`, `Proceeds`); every
attempt spends one of the reserve, however it ends. `resumes_safely` is what follows for a transfer
from its beginning.
-/

set_option autoImplicit false

namespace GameLauncher.Downloads

open Foundation Fallible Packs Manifests List
open Process

/-! ### The invariant -/

variable {file : Option Bytes} {size : ℤ}

/-- What a transfer is for: the hash, the sizes that are expected of it, how many locations it has
at first, how often it tries each, how often it may ask for others, and the state at its start. -/
structure ResumeGoal where
  encodedHash : Text
  sizes : ℤ → Prop
  locations : ℕ
  rounds : ℕ
  refreshes : ℕ
  start : ResumeState

/-- The attempts and the refreshes that a transfer may still make. -/
structure Reserve where
  attempts : ℕ
  refreshes : ℕ

/-- The length of a file, 0 when there is none. -/
def fileLength (file : Option Bytes) : ℕ := (file.getD []).length

/-- What is in the cache was there or has the hash and an expected size. -/
def OnlyVerified (hash : Bytes → Digest) (goal : ResumeGoal) (cache : ChunkCache) : Prop :=
  ∀ other bytes, cache.file other = some bytes → goal.start.cache.file other = some bytes ∨
    other = goal.encodedHash ∧ (hash bytes).hex = goal.encodedHash ∧ goal.sizes bytes.length

/-- The partial file is the one of the start, or not longer than an expected size. -/
def NotBeyond (goal : ResumeGoal) (file : Option Bytes) : Prop :=
  file = goal.start.partialFile ∨
    ∀ content, file = some content → ∃ size, goal.sizes size ∧ (content.length : ℤ) ≤ size

/-- The invariant of a transfer, with what it may still do. -/
structure Resuming (hash : Bytes → Digest) (goal : ResumeGoal) (reserve : Reserve) (spare : ℕ)
    (state : ResumeState) : Prop where
  verified : OnlyVerified hash goal state.cache
  notBeyond : NotBeyond goal state.partialFile
  attempts_le : state.attempts.length + reserve.attempts ≤
    goal.rounds * (goal.locations + state.offered.sum)
  refreshes_le : state.offered.length + reserve.refreshes ≤ goal.refreshes
  short : ∀ urls ∈ state.attempts, urls.length ≤ maxRedirects + 1
  newest_le : (state.attempts.headD []).length + spare ≤ maxRedirects + 1

section Invariant

variable {hash : Bytes → Digest} {goal : ResumeGoal} {reserve : Reserve} {spare : ℕ}
  {state : ResumeState}

section

variable (h : Resuming hash goal reserve spare state)

include h

theorem Resuming.lower {less : Reserve} {fewer : ℕ} (hattempts : less.attempts ≤ reserve.attempts)
    (hrefreshes : less.refreshes ≤ reserve.refreshes) (hspare : fewer ≤ spare) :
    Resuming hash goal less fewer state where
  verified := h.verified
  notBeyond := h.notBeyond
  attempts_le := (Nat.add_le_add_left hattempts _).trans h.attempts_le
  refreshes_le := (Nat.add_le_add_left hrefreshes _).trans h.refreshes_le
  short := h.short
  newest_le := (Nat.add_le_add_left hspare _).trans h.newest_le

theorem Resuming.rest : Resuming hash goal reserve 0 state :=
  h.lower le_rfl le_rfl (Nat.zero_le _)

theorem Resuming.bare : Resuming hash goal ⟨0, 0⟩ 0 state :=
  h.lower (Nat.zero_le _) (Nat.zero_le _) (Nat.zero_le _)

theorem Resuming.tick : Resuming hash goal reserve spare state.tick :=
  ⟨h.verified, h.notBeyond, h.attempts_le, h.refreshes_le, h.short, h.newest_le⟩

end

variable {cache : ChunkCache}

theorem Resuming.store (h : Resuming hash goal reserve spare state)
    (hcache : OnlyVerified hash goal cache) (hfile : NotBeyond goal file) :
    Resuming hash goal reserve spare { state with cache, partialFile := file } :=
  ⟨hcache, hfile, h.attempts_le, h.refreshes_le, h.short, h.newest_le⟩

theorem notBeyond_none : NotBeyond goal none := .inr fun _ h ↦ by cases h

theorem notBeyond_some {content : Bytes} (hsize : goal.sizes size) (h : (content.length : ℤ) ≤ size)
    : NotBeyond goal (some content) :=
  .inr fun _ hcontent ↦ ⟨size, hsize, Option.some.inj hcontent ▸ h⟩

theorem OnlyVerified.of_file {other : ChunkCache} (h : OnlyVerified hash goal cache)
    (hfile : ∀ encodedHash bytes, other.file encodedHash = some bytes →
      cache.file encodedHash = some bytes) : OnlyVerified hash goal other :=
  fun encodedHash bytes hbytes ↦ h encodedHash bytes (hfile encodedHash bytes hbytes)

theorem OnlyVerified.deleteFile (h : OnlyVerified hash goal cache) (victim : Text) :
    OnlyVerified hash goal (cache.deleteFile victim) := by
  refine h.of_file fun encodedHash bytes hbytes ↦ ?_
  rw [ChunkCache.deleteFile_file] at hbytes
  split_ifs at hbytes
  exact hbytes

theorem OnlyVerified.moveFile {cache : ChunkCache} (h : OnlyVerified hash goal cache)
    {content : Bytes} (hhash : (hash content).hex = goal.encodedHash)
    (hsize : goal.sizes content.length) :
    OnlyVerified hash goal (cache.moveFile goal.encodedHash content) := by
  intro other bytes hbytes
  rw [ChunkCache.moveFile_file] at hbytes
  split_ifs at hbytes with hother
  · obtain rfl := Option.some.inj hbytes
    exact .inr ⟨hother.symm, hhash, hsize⟩
  · exact h other bytes hbytes

end Invariant

/-! ### Within an attempt -/

variable {offset : ℕ}

/-- The invariant, and a fact about the partial file. -/
def Holds (hash : Bytes → Digest) (goal : ResumeGoal) (reserve : Reserve) (spare : ℕ)
    (fact : Option Bytes → Prop) (state : ResumeState) : Prop :=
  Resuming hash goal reserve spare state ∧ fact state.partialFile

/-- A task that makes no request keeps the invariant, however it ends. -/
def Proceeds {α : Type} (hash : Bytes → Digest) (goal : ResumeGoal) (reserve : Reserve)
    (spare : ℕ) (before : Option Bytes → Prop) (task : Resume α)
    (after : α → Option Bytes → Prop) : Prop :=
  Ensures (Holds hash goal reserve spare before) task (Resuming hash goal ⟨0, 0⟩ 0)
    (fun value ↦ Holds hash goal reserve spare (after value))
    fun _ ↦ Resuming hash goal reserve spare

section Calls

variable {α β : Type} {hash : Bytes → Digest} {network : Network} {http : Http}
  {goal : ResumeGoal} {reserve : Reserve} {spare : ℕ} {before : Option Bytes → Prop}
  {after : α → Option Bytes → Prop}

theorem Proceeds.mono {task : Resume α} {before' : Option Bytes → Prop}
    {after' : α → Option Bytes → Prop} (h : Proceeds hash goal reserve spare before task after)
    (hbefore : ∀ file, before' file → before file)
    (hafter : ∀ value file, after value file → after' value file) :
    Proceeds hash goal reserve spare before' task after' :=
  Ensures.mono h (fun _ hstate ↦ ⟨hstate.1, hbefore _ hstate.2⟩) (fun _ hstate ↦ hstate)
    (fun value _ hstate ↦ ⟨hstate.1, hafter value _ hstate.2⟩) fun _ _ hstate ↦ hstate

theorem proceeds_pure {value : α} (h : ∀ file, before file → after value file) :
    Proceeds hash goal reserve spare before (pure value : Resume α) after :=
  ensures_pure fun _ hstate ↦ ⟨hstate.1, h _ hstate.2⟩

theorem proceeds_bind {first : Resume β} {next : β → Resume α} (middle : β → Option Bytes → Prop)
    (hfirst : Proceeds hash goal reserve spare before first middle)
    (hnext : ∀ value, Proceeds hash goal reserve spare (middle value) (next value) after) :
    Proceeds hash goal reserve spare before (first >>= next) after :=
  ensures_bind _ hfirst hnext

theorem proceeds_fail {failure : LauncherException} :
    Proceeds hash goal reserve spare before (Process.fail failure : Resume α) after :=
  ensures_query (fun _ _ _ h ↦ by cases h) fun _ _ hstate _ ↦ hstate.1

theorem proceeds_decided {outcome : Except LauncherException α} :
    Proceeds hash goal reserve spare before (decided outcome)
      (fun value file ↦ outcome = .ok value ∧ before file) :=
  ensures_query (fun _ _ hstate hvalue ↦ ⟨hstate.1, hvalue, hstate.2⟩)
    fun _ _ hstate _ ↦ hstate.1

/-- A decision that is passed leaves the rest of a task. -/
theorem proceeds_decided_bind {outcome : Except LauncherException β} {next : β → Resume α}
    (hnext : ∀ value, outcome = .ok value →
      Proceeds hash goal reserve spare before (next value) after) :
    Proceeds hash goal reserve spare before (decided outcome >>= next) after := by
  refine proceeds_bind _ proceeds_decided fun value state hstate ↦ ?_
  exact hnext value hstate.2.1 state ⟨hstate.1, hstate.2.2⟩

theorem proceeds_step {action : ResumeState → Except LauncherException α × ResumeState}
    (hkeeps : ∀ state, Holds hash goal reserve spare before state →
      Resuming hash goal reserve spare (action state).2)
    (hok : ∀ state value, Holds hash goal reserve spare before state →
      (action state).1 = .ok value → after value (action state).2.partialFile) :
    Proceeds hash goal reserve spare before (Process.step action) after :=
  ensures_step (fun state hstate ↦ (hkeeps state hstate).bare)
    (fun state value hstate hvalue ↦ ⟨hkeeps state hstate, hok state value hstate hvalue⟩)
    fun state _ hstate _ ↦ hkeeps state hstate

/-- A call of the file system that keeps the invariant when it does not fail. -/
theorem proceeds_disk {action : ResumeState → Except LauncherException α × ResumeState}
    (hkeeps : ∀ state, Holds hash goal reserve spare before state →
      Resuming hash goal reserve spare (action state).2)
    (hok : ∀ state value, Holds hash goal reserve spare before state →
      (action state).1 = .ok value → after value (action state).2.partialFile) :
    Proceeds hash goal reserve spare before (disk http action) after := by
  refine proceeds_step (fun state hstate ↦ ?_) fun state value hstate hvalue ↦ ?_
  · split
    · exact hstate.1.tick
    · exact hkeeps state.tick ⟨hstate.1.tick, hstate.2⟩
  · split at hvalue
    · cases hvalue
    · exact hok state.tick value ⟨hstate.1.tick, hstate.2⟩ hvalue

theorem proceeds_pass : Proceeds hash goal reserve spare before (pass http) fun _ ↦ before :=
  proceeds_disk (fun _ hstate ↦ hstate.1) fun _ _ hstate _ ↦ hstate.2

theorem proceeds_deletePartial :
    Proceeds hash goal reserve spare before (deletePartial http)
      fun _ file ↦ before file ∨ file = none := by
  refine ensures_tryCatch (fun _ ↦ Holds hash goal reserve spare before) ?_ fun failure ↦ ?_
  · refine ensures_step (fun state hstate ↦ ?_) (fun state value hstate hvalue ↦ ?_)
      fun state failure hstate hfailure ↦ ?_
    · split
      · exact hstate.1.bare.tick
      · exact (hstate.1.tick.store hstate.1.verified notBeyond_none).bare
    · split at hvalue
      · cases hvalue
      · exact ⟨hstate.1.tick.store hstate.1.verified notBeyond_none, .inr rfl⟩
    · split at hfailure
      · exact ⟨hstate.1.tick, hstate.2⟩
      · cases hfailure
  · split
    · exact proceeds_pure fun _ h ↦ .inl h
    · exact proceeds_fail

theorem proceeds_measurePartial :
    Proceeds hash goal reserve spare before (measurePartial http)
      fun length file ↦ length = fileLength file ∧ before file :=
  proceeds_disk (fun _ hstate ↦ hstate.1)
    fun _ _ hstate hvalue ↦ ⟨(Except.ok.inj hvalue).symm, hstate.2⟩

theorem proceeds_readPartial {missing : String} :
    Proceeds hash goal reserve spare before (readPartial http missing)
      fun content file ↦ file = some content ∧ before file := by
  refine proceeds_disk (fun state hstate ↦ ?_) fun state value hstate hvalue ↦ ?_
  · split
    · exact hstate.1
    · exact hstate.1
  · cases hfile : state.partialFile with
    | none =>
      simp only [hfile] at hvalue
      cases hvalue
    | some content =>
      simp only [hfile] at hvalue ⊢
      exact ⟨congrArg some (Except.ok.inj hvalue), hfile ▸ hstate.2⟩

theorem proceeds_openPartial {append : Bool} (hsize : goal.sizes size)
    (hoffset : (offset : ℤ) ≤ size)
    (hbefore : ∀ file, before file → if append then fileLength file = offset else offset = 0) :
    Proceeds hash goal reserve spare before (openPartial http append)
      fun _ file ↦ fileLength file = offset := by
  have hlength (file : Option Bytes) (hfile : before file) :
      (if append then file.getD [] else []).length = offset := by
    have h := hbefore file hfile
    split_ifs at h ⊢
    · exact h
    · exact h.symm
  refine proceeds_disk (fun state hstate ↦ ?_) fun state _ hstate _ ↦ hlength _ hstate.2
  refine hstate.1.store hstate.1.verified (notBeyond_some hsize ?_)
  rw [hlength _ hstate.2]
  exact hoffset

theorem fileLength_appended (state : ResumeState) (bytes : Bytes) :
    fileLength (state.appended bytes).partialFile =
      fileLength state.partialFile + bytes.length := by
  simp [ResumeState.appended, fileLength]

theorem proceeds_writePartial {bytes : Bytes} {length : ℕ} (hsize : goal.sizes size)
    (hfits : ((length + bytes.length : ℕ) : ℤ) ≤ size) :
    Proceeds hash goal reserve spare (fun file ↦ fileLength file = length)
      (writePartial http bytes) fun _ file ↦ fileLength file = length + bytes.length := by
  have happended (state : ResumeState) (part : Bytes) (hpart : part.length ≤ bytes.length)
      (hstate : Holds hash goal reserve spare (fun file ↦ fileLength file = length) state) :
      Resuming hash goal reserve spare (state.tick.appended part) := by
    refine hstate.1.tick.store hstate.1.verified (notBeyond_some hsize ?_)
    have hlength : (state.partialFile.getD []).length = length := hstate.2
    show ((state.partialFile.getD [] ++ part).length : ℤ) ≤ size
    rw [length_append, hlength]
    omega
  refine proceeds_step (fun state hstate ↦ ?_) fun state value hstate hvalue ↦ ?_
  · split
    · exact happended state _ (length_take_le' _ _) hstate
    · exact happended state _ le_rfl hstate
  · split at hvalue
    · cases hvalue
    · show fileLength (state.tick.appended bytes).partialFile = _
      rw [fileLength_appended]
      exact congrArg (· + bytes.length) hstate.2

theorem proceeds_tryLimitWrite {failAfterBytes : Option ℕ} {received requested : ℕ} :
    Proceeds hash goal reserve spare before (tryLimitWrite failAfterBytes received requested)
      fun _ ↦ before := by
  refine proceeds_step (fun state hstate ↦ ?_) fun state value hstate hvalue ↦ ?_
  · split
    · exact hstate.1
    · split_ifs
      · exact hstate.1
      · exact ⟨hstate.1.verified, hstate.1.notBeyond, hstate.1.attempts_le, hstate.1.refreshes_le,
          hstate.1.short, hstate.1.newest_le⟩
  · split
    · exact hstate.2
    · split_ifs
      · exact hstate.2
      · exact hstate.2

theorem proceeds_copyBody {exceeded : LauncherException} {failAfterBytes : Option ℕ}
    {remaining size : ℤ} {offset : ℕ} (hsize : goal.sizes size)
    (hremaining : offset + remaining = size) (failure : Option LauncherException)
    (body : List Bytes) (received : ℕ) :
    Proceeds hash goal reserve spare (fun file ↦ fileLength file = offset + received)
      (copyBody http exceeded failAfterBytes remaining failure received body)
      fun _ _ ↦ True := by
  induction body generalizing received with
  | nil =>
    cases failure with
    | none => exact proceeds_pure fun _ _ ↦ trivial
    | some failure => exact proceeds_fail
  | cons piece rest ih =>
    refine proceeds_decided_bind fun _ hroom ↦ ?_
    have hfits : ((offset + received + piece.length : ℕ) : ℤ) ≤ size := by
      have := throwIf_eq_ok.mp hroom
      push_cast
      omega
    refine proceeds_bind _ proceeds_tryLimitWrite fun limited ↦ ?_
    cases limited with
    | some writable =>
      refine proceeds_bind _ (proceeds_writePartial hsize ?_) fun _ ↦ proceeds_fail
      have := length_take_le' writable piece
      push_cast at hfits ⊢
      omega
    | none =>
      refine proceeds_bind _ (proceeds_writePartial hsize hfits) fun _ ↦ ?_
      refine (ih (received + piece.length)).mono (fun file hfile ↦ ?_) fun _ _ h ↦ h
      rw [hfile, Nat.add_assoc]

theorem proceeds_receiveBody {exceeded : LauncherException} {failAfterBytes : Option ℕ}
    {append : Bool} {remaining size : ℤ} {offset : ℕ} {response : HttpResponse}
    (hsize : goal.sizes size) (hoffset : (offset : ℤ) ≤ size)
    (hremaining : offset + remaining = size)
    (hbefore : ∀ file, before file → if append then fileLength file = offset else offset = 0) :
    Proceeds hash goal reserve spare before
      (receiveBody http exceeded failAfterBytes append remaining response) fun _ _ ↦ True := by
  refine proceeds_bind _ (proceeds_openPartial hsize hoffset hbefore) fun _ ↦ ?_
  refine proceeds_bind _ ((proceeds_copyBody hsize hremaining response.failure response.body
    0).mono (fun _ h ↦ h) fun _ _ h ↦ h) fun _ ↦ ?_
  exact proceeds_bind _ proceeds_pass fun _ ↦ proceeds_pure fun _ h ↦ h

theorem proceeds_evictRounds (rounds : ℕ) :
    Proceeds hash goal reserve spare before (evictRounds http rounds) fun _ ↦ before := by
  induction rounds with
  | zero => exact proceeds_pure fun _ h ↦ h
  | succ rounds ih =>
    refine proceeds_bind (fun _ ↦ before) ?_ fun candidate ↦ ?_
    · exact ensures_query (fun _ _ hstate _ ↦ hstate) fun _ _ _ h ↦ by cases h
    · cases candidate with
      | none => exact proceeds_pure fun _ h ↦ h
      | some victim =>
        refine proceeds_bind (fun _ ↦ before) ?_ fun _ ↦
          proceeds_bind (fun _ ↦ before) ?_ fun _ ↦ ih
        · exact proceeds_disk
            (fun state hstate ↦ hstate.1.store (hstate.1.verified.deleteFile victim)
              hstate.1.notBeyond) fun _ _ hstate _ ↦ hstate.2
        · exact proceeds_step
            (fun state hstate ↦ hstate.1.store hstate.1.verified hstate.1.notBeyond)
            fun _ _ hstate _ ↦ hstate.2

theorem proceeds_indexAndEvict {encodedHash : Text} {size : ℕ} :
    Proceeds hash goal reserve spare before (indexAndEvict network http encodedHash size)
      fun _ ↦ before := by
  refine proceeds_bind (fun _ ↦ before) ?_ fun _ ↦ proceeds_bind (fun _ ↦ before) ?_ fun rounds ↦
    proceeds_evictRounds rounds
  · exact proceeds_step
      (fun state hstate ↦ hstate.1.tick.store hstate.1.verified hstate.1.notBeyond)
      fun _ _ hstate _ ↦ hstate.2
  · exact ensures_query (fun _ _ hstate _ ↦ hstate) fun _ _ _ h ↦ by cases h

theorem proceeds_putFileAsync {size : ℤ} (hsize : goal.sizes size)
    (hbefore : ∀ file, before file → (fileLength file : ℤ) = size) :
    Proceeds hash goal reserve spare before (putFileAsync hash network http goal.encodedHash)
      fun _ _ ↦ True := by
  refine proceeds_bind _ proceeds_readPartial fun content ↦ ?_
  refine proceeds_decided_bind fun _ hhash ↦ ?_
  refine proceeds_bind _ proceeds_pass fun _ ↦ ?_
  refine proceeds_bind (fun _ _ ↦ True) ?_ fun _ ↦ proceeds_indexAndEvict
  refine proceeds_disk (fun state hstate ↦ ?_) fun _ _ _ _ ↦ trivial
  obtain ⟨hstate, hfile, hfact⟩ := hstate
  refine hstate.store (hstate.verified.moveFile (not_not.mp (throwIf_eq_ok.mp hhash)) ?_)
    notBeyond_none
  have hlength := hbefore _ hfact
  rw [hfile] at hlength
  exact hlength.symm ▸ hsize

theorem proceeds_putBytesAsync {bytes : Bytes} (hsize : goal.sizes bytes.length) :
    Proceeds hash goal reserve spare before
      (putBytesAsync hash network http goal.encodedHash bytes)
      fun _ file ↦ (hash bytes).hex = goal.encodedHash ∧ before file := by
  refine proceeds_decided_bind fun _ hhash ↦ ?_
  have hverified : (hash bytes).hex = goal.encodedHash := not_not.mp (throwIf_eq_ok.mp hhash)
  refine proceeds_bind _ proceeds_pass fun _ ↦ ?_
  refine proceeds_bind (fun _ ↦ before) ?_ fun _ ↦ ?_
  · exact proceeds_disk
      (fun state hstate ↦ hstate.1.store (hstate.1.verified.moveFile hverified hsize)
        hstate.1.notBeyond) fun _ _ hstate _ ↦ hstate.2
  · exact proceeds_indexAndEvict.mono (fun _ h ↦ h) fun _ _ h ↦ ⟨hverified, h⟩

theorem proceeds_checkStatus {subject : String} {statusCode : ℕ} :
    Proceeds hash goal reserve spare before (checkStatus http subject statusCode)
      fun _ ↦ before := by
  unfold checkStatus
  split_ifs
  · exact proceeds_bind _ proceeds_deletePartial fun _ ↦ proceeds_fail
  · exact proceeds_fail
  · exact proceeds_bind _ proceeds_pass fun _ ↦ proceeds_fail
  · exact proceeds_fail
  · exact proceeds_decided.mono (fun _ h ↦ h) fun _ _ h ↦ h.2

theorem proceeds_resumeOffset {size : ℤ} :
    Proceeds hash goal reserve spare before (resumeOffset http size)
      fun offset file ↦ 0 < offset → fileLength file = offset ∧ (offset : ℤ) ≤ size := by
  refine proceeds_bind _ proceeds_measurePartial fun offset ↦ ?_
  split_ifs with hbeyond
  · exact proceeds_bind _ proceeds_deletePartial fun _ ↦
      proceeds_pure fun _ _ h ↦ absurd h (lt_irrefl 0)
  · exact proceeds_pure fun _ h _ ↦ ⟨h.1.symm, not_lt.mp hbeyond⟩

/-- A request of the newest attempt. -/
theorem ensures_sendAsync {url : Text} {range : Option ℕ} :
    Ensures (Holds hash goal reserve (spare + 1) before) (sendAsync http url range)
      (Resuming hash goal ⟨0, 0⟩ 0) (fun _ ↦ Holds hash goal reserve spare before)
      fun _ ↦ Resuming hash goal reserve spare := by
  have hsend (state : ResumeState)
      (hstate : Holds hash goal reserve (spare + 1) before state) :
      Resuming hash goal reserve spare (state.tick.requested url) := by
    obtain ⟨h, -⟩ := hstate
    have hnewest := h.newest_le
    refine ⟨h.verified, h.notBeyond, ?_, h.refreshes_le, ?_, ?_⟩
    · show (state.attempts.modifyHead _).length + _ ≤ _
      rw [length_modifyHead]
      exact h.attempts_le
    · show ∀ urls ∈ state.attempts.modifyHead _, _
      cases hattempts : state.attempts with
      | nil => exact fun _ hurls ↦ by cases hurls
      | cons newest earlier =>
        rw [hattempts] at hnewest
        simp only [headD_cons] at hnewest
        intro urls hurls
        rcases mem_cons.mp hurls with rfl | hurls
        · rw [length_cons]
          omega
        · exact h.short urls (hattempts ▸ mem_cons_of_mem newest hurls)
    · show ((state.attempts.modifyHead _).headD []).length + spare ≤ _
      cases hattempts : state.attempts with
      | nil =>
        rw [hattempts] at hnewest
        simp only [headD_nil, modifyHead_nil] at hnewest ⊢
        omega
      | cons newest earlier =>
        rw [hattempts] at hnewest
        simp only [headD_cons, modifyHead_cons, length_cons] at hnewest ⊢
        omega
  exact ensures_step (fun state hstate ↦ (hsend state hstate).bare)
    (fun state _ hstate _ ↦ ⟨hsend state hstate, hstate.2⟩)
    fun state _ hstate _ ↦ hsend state hstate

theorem proceeds_tryCatch {body : Resume α} {handler : LauncherException → Resume α}
    (hbody : Proceeds hash goal reserve spare before body after)
    (hhandler : ∀ failure,
      Proceeds hash goal reserve spare (fun _ ↦ True) (handler failure) after) :
    Proceeds hash goal reserve spare before (Process.tryCatch body handler) after :=
  ensures_tryCatch (fun _ ↦ Holds hash goal reserve spare fun _ ↦ True)
    (Ensures.mono hbody (fun _ h ↦ h) (fun _ h ↦ h) (fun _ _ h ↦ h) fun _ _ h ↦ ⟨h, trivial⟩)
    hhandler

end Calls

/-! ### One attempt -/

/-- A task that may make the requests that are left of an attempt. -/
def Attempts {α : Type} (hash : Bytes → Digest) (goal : ResumeGoal) (reserve : Reserve)
    (spare : ℕ) (before : Option Bytes → Prop) (task : Resume α) (fact : α → Prop) : Prop :=
  Ensures (Holds hash goal reserve spare before) task (Resuming hash goal ⟨0, 0⟩ 0)
    (fun value state ↦ fact value ∧ Resuming hash goal reserve 0 state)
    fun _ ↦ Resuming hash goal reserve 0

section Attempt

variable {α β : Type} {hash : Bytes → Digest} {network : Network} {http : Http}
  {goal : ResumeGoal} {reserve : Reserve} {spare : ℕ} {before : Option Bytes → Prop}
  {fact : α → Prop}

theorem attempts_bind {first : Resume β} {next : β → Resume α}
    {middle : β → Option Bytes → Prop}
    (hfirst : Proceeds hash goal reserve spare before first middle)
    (hnext : ∀ value, Attempts hash goal reserve spare (middle value) (next value) fact) :
    Attempts hash goal reserve spare before (first >>= next) fact :=
  ensures_bind _ (Ensures.mono hfirst (fun _ h ↦ h) (fun _ h ↦ h) (fun _ _ h ↦ h)
    fun _ _ h ↦ h.rest) hnext

theorem attempts_of_proceeds {task : Resume α} {after : α → Option Bytes → Prop}
    (h : Proceeds hash goal reserve spare before task after)
    (hafter : ∀ value file, after value file → fact value) :
    Attempts hash goal reserve spare before task fact :=
  Ensures.mono h (fun _ h ↦ h) (fun _ h ↦ h)
    (fun value _ h ↦ ⟨hafter value _ h.2, h.1.rest⟩) fun _ _ h ↦ h.rest

theorem attempts_decided_bind {outcome : Except LauncherException β} {next : β → Resume α}
    (hnext : ∀ value, outcome = .ok value →
      Attempts hash goal reserve spare before (next value) fact) :
    Attempts hash goal reserve spare before (decided outcome >>= next) fact := by
  refine attempts_bind proceeds_decided fun value state hstate ↦ ?_
  exact hnext value hstate.2.1 state ⟨hstate.1, hstate.2.2⟩

theorem attempts_fail {failure : LauncherException} :
    Attempts hash goal reserve spare before (Process.fail failure : Resume α) fact :=
  attempts_of_proceeds (@proceeds_fail α hash goal reserve spare before (fun _ _ ↦ False) failure)
    fun _ _ h ↦ h.elim

theorem Attempts.mono {task : Resume α} {before' : Option Bytes → Prop}
    (h : Attempts hash goal reserve spare before task fact)
    (hbefore : ∀ file, before' file → before file) :
    Attempts hash goal reserve spare before' task fact :=
  Ensures.mono h (fun _ hstate ↦ ⟨hstate.1, hbefore _ hstate.2⟩) (fun _ h ↦ h) (fun _ _ h ↦ h)
    fun _ _ h ↦ h

theorem attempts_sendAsync_bind {url : Text} {range : Option ℕ} {next : HttpResponse → Resume α}
    (hnext : ∀ response, Attempts hash goal reserve spare before (next response) fact) :
    Attempts hash goal reserve (spare + 1) before (sendAsync http url range >>= next) fact :=
  ensures_bind _ (Ensures.mono ensures_sendAsync (fun _ h ↦ h) (fun _ h ↦ h) (fun _ _ h ↦ h)
    fun _ _ h ↦ h.rest) hnext

/-- What is known of the partial file at an offset. -/
def IsOffset (size : ℤ) (offset : ℕ) (file : Option Bytes) : Prop :=
  0 < offset → fileLength file = offset ∧ (offset : ℤ) ≤ size

theorem isOffset_offsetLeft (h : IsOffset size offset file) (hne : (offset : ℤ) ≠ size) :
    IsOffset size (offsetLeft size offset) file := by
  rw [offsetLeft, if_neg hne]
  exact h

theorem isOffset_of_eq (heq : (offset : ℤ) = size) :
    IsOffset size (offsetLeft size offset) file := by
  rw [offsetLeft, if_pos heq]
  exact fun hpos ↦ absurd hpos (lt_irrefl 0)

theorem IsOffset.fileLength_eq (h : IsOffset size offset file) (hpos : 0 < size)
    (heq : (offset : ℤ) = size) : (fileLength file : ℤ) = size := by
  have hoffset : 0 < offset := by omega
  rw [(h hoffset).1, heq]

variable {chunk : ChunkRef} {pack : ResolvedPack} {source : ResolvedPackSource} {url : Text}

theorem appends_offset {response : HttpResponse}
    (h : appends offset response = true → IsOffset size offset file) (hpos : 0 < size) :
    (if appends offset response = true then
        fileLength file = (if appends offset response = true then offset else 0)
      else (if appends offset response = true then offset else 0) = 0) ∧
      ((if appends offset response = true then offset else 0 : ℕ) : ℤ) ≤ size := by
  by_cases happends : appends offset response = true
  · have hoffset : 0 < offset := by
      unfold appends at happends
      simp only [Bool.and_eq_true, decide_eq_true_eq] at happends
      exact happends.1.1
    simp only [happends, if_true]
    exact h happends hoffset
  · simp only [happends, if_false, Bool.false_eq_true]
    exact ⟨trivial, hpos.le⟩

theorem proceeds_receiveResponse {exceeded : LauncherException} {failAfterBytes : Option ℕ}
    {response : HttpResponse} (hsize : goal.sizes size) (hpos : 0 < size) :
    Proceeds hash goal reserve spare
      (fun file ↦ appends offset response = true → IsOffset size offset file)
      (receiveBody http exceeded failAfterBytes (appends offset response)
        (expectedRemaining size offset response) response) fun _ _ ↦ True := by
  intro state hstate
  refine proceeds_receiveBody hsize (appends_offset hstate.2 hpos).2 ?_
    (fun file hfile ↦ (appends_offset hfile hpos).1) state hstate
  rw [expectedRemaining]
  omega

section

variable (hencoded : goal.encodedHash = chunk.encodedHash) (hsize : goal.sizes chunk.encodedSize)
  (hpos : (0 : ℤ) < chunk.encodedSize)

include hencoded hsize hpos

theorem proceeds_putCompleteChunk {offset : ℕ} :
    Proceeds hash goal reserve spare (IsOffset chunk.encodedSize offset)
      (putCompleteChunk hash network http chunk offset) fun complete file ↦ complete = false →
        IsOffset chunk.encodedSize (offsetLeft chunk.encodedSize offset) file := by
  unfold putCompleteChunk
  rw [← hencoded]
  by_cases heq : (offset : ℤ) = chunk.encodedSize
  · rw [if_pos heq]
    refine proceeds_tryCatch ?_ fun failure ↦ ?_
    · refine proceeds_bind _ (proceeds_putFileAsync hsize fun _ h ↦ h.fileLength_eq hpos heq)
        fun _ ↦ proceeds_pure fun _ _ h ↦ by cases h
    · split
      · exact proceeds_bind _ proceeds_deletePartial fun _ ↦
          proceeds_pure fun _ _ _ ↦ isOffset_of_eq heq
      · exact proceeds_fail
  · rw [if_neg heq]
    refine ensures_tryCatch (fun _ _ ↦ False) ?_ fun _ _ h ↦ h.elim
    exact ensures_pure fun _ h ↦ ⟨h.1, fun _ ↦ isOffset_offsetLeft h.2 heq⟩

theorem proceeds_receiveChunk {offset : ℕ} {response : HttpResponse} :
    Proceeds hash goal reserve spare (IsOffset chunk.encodedSize offset)
      (receiveChunk hash network http chunk offset response) fun _ _ ↦ True := by
  unfold receiveChunk
  rw [← hencoded]
  refine proceeds_bind (fun _ file ↦ appends offset response = true →
    IsOffset chunk.encodedSize offset file) ?_ fun _ ↦ ?_
  · unfold deleteUnlessAppending
    split_ifs with hdelete
    · refine proceeds_deletePartial.mono (fun _ h ↦ h) fun _ _ _ happends ↦ ?_
      exact absurd (hdelete.2.symm.trans happends) Bool.false_ne_true
    · exact proceeds_pure fun _ h _ ↦ h
  refine proceeds_decided_bind fun _ _ ↦ ?_
  refine proceeds_bind _ proceeds_pass fun _ ↦ ?_
  refine proceeds_bind _ (proceeds_receiveResponse hsize hpos) fun received ↦ ?_
  refine proceeds_bind _ proceeds_measurePartial fun length ↦ ?_
  refine proceeds_decided_bind fun _ hlength ↦ ?_
  refine proceeds_bind _ (proceeds_putFileAsync hsize fun file h ↦ ?_) fun _ ↦
    proceeds_pure fun _ h ↦ h
  rw [← h.1]
  exact not_not.mp (throwIf_eq_ok.mp hlength)

theorem attempts_requestChunk {onHtml : HttpResponse → Resume ℕ}
    (honHtml : ∀ response,
      Attempts hash goal reserve spare (fun _ ↦ True) (onHtml response) fun _ ↦ True) :
    Attempts hash goal reserve (spare + 1) (fun _ ↦ True)
      (requestChunk hash network http chunk url onHtml) fun _ ↦ True := by
  refine attempts_decided_bind fun _ _ ↦ ?_
  refine attempts_bind proceeds_resumeOffset fun offset ↦ ?_
  refine attempts_bind (proceeds_putCompleteChunk hencoded hsize hpos) fun complete ↦ ?_
  cases complete with
  | true =>
    exact ensures_pure fun _ h ↦ ⟨trivial, h.1.rest⟩
  | false =>
    refine attempts_sendAsync_bind fun response ↦ ?_
    refine attempts_bind proceeds_checkStatus fun _ ↦ ?_
    split_ifs
    · exact (honHtml response).mono fun _ _ ↦ trivial
    · refine attempts_of_proceeds ((proceeds_receiveChunk hencoded hsize hpos).mono
        (fun _ h ↦ h rfl) fun _ _ h ↦ h) fun _ _ h ↦ h

end

/-- The bytes have the hash and an expected size. -/
def Admitted (hash : Bytes → Digest) (goal : ResumeGoal) (bytes : Bytes) : Prop :=
  (hash bytes).hex = goal.encodedHash ∧ goal.sizes bytes.length

theorem proceeds_readAndPut {missing : String} {size : ℤ} {next : Bytes → Resume α}
    {after : α → Option Bytes → Prop} (hsize : goal.sizes size)
    (hbefore : ∀ file, before file → (fileLength file : ℤ) = size)
    (hnext : ∀ bytes, Admitted hash goal bytes →
      Proceeds hash goal reserve spare (fun _ ↦ True) (next bytes) after) :
    Proceeds hash goal reserve spare before (do
      let bytes ← readPartial http missing
      putBytesAsync hash network http goal.encodedHash bytes
      deletePartial http
      next bytes) after := by
  refine proceeds_bind _ proceeds_readPartial fun bytes state hstate ↦ ?_
  have hlength := hbefore _ hstate.2.2
  rw [hstate.2.1] at hlength
  have hbytes : goal.sizes bytes.length := hlength.symm ▸ hsize
  have hput : Proceeds hash goal reserve spare (fun _ ↦ True) (do
      putBytesAsync hash network http goal.encodedHash bytes
      deletePartial http
      next bytes) after := by
    refine proceeds_bind _ (proceeds_putBytesAsync hbytes) fun _ other hother ↦ ?_
    have hrest : Proceeds hash goal reserve spare (fun _ ↦ True) (do
        deletePartial http
        next bytes) after :=
      proceeds_bind _ (proceeds_deletePartial.mono (fun _ h ↦ h) fun _ _ _ ↦ trivial)
        fun _ ↦ hnext bytes ⟨hother.2.1, hbytes⟩
    exact hrest other ⟨hother.1, trivial⟩
  exact hput state ⟨hstate.1, trivial⟩

section

variable (hencoded : goal.encodedHash = pack.packHash) (hsize : goal.sizes pack.encodedSize)
  (hpos : 0 < pack.encodedSize)

include hencoded hsize hpos

theorem proceeds_putCompletePack {offset : ℕ} :
    Proceeds hash goal reserve spare (IsOffset pack.encodedSize offset)
      (putCompletePack hash network http pack offset) fun complete file ↦
        (∀ existing, complete = some existing → Admitted hash goal existing) ∧
        (complete = none →
          IsOffset pack.encodedSize (offsetLeft pack.encodedSize offset) file) := by
  unfold putCompletePack
  rw [← hencoded]
  by_cases heq : (offset : ℤ) = pack.encodedSize
  · rw [if_pos heq]
    refine proceeds_tryCatch ?_ fun failure ↦ ?_
    · refine proceeds_readAndPut hsize (fun _ h ↦ h.fileLength_eq hpos heq) fun bytes hbytes ↦ ?_
      refine proceeds_pure fun _ _ ↦ ⟨fun existing h ↦ ?_, fun h ↦ (by cases h)⟩
      exact Option.some.inj h ▸ hbytes
    · split
      · exact proceeds_bind _ proceeds_deletePartial fun _ ↦
          proceeds_pure fun _ _ ↦ ⟨fun _ h ↦ (by cases h), fun _ ↦ isOffset_of_eq heq⟩
      · exact proceeds_fail
  · rw [if_neg heq]
    refine ensures_tryCatch (fun _ _ ↦ False) ?_ fun _ _ h ↦ h.elim
    exact ensures_pure fun _ h ↦ ⟨h.1, fun _ h ↦ (by cases h), fun _ ↦ isOffset_offsetLeft h.2 heq⟩

theorem proceeds_receivePack {offset : ℕ} {response : HttpResponse} :
    Proceeds hash goal reserve spare (IsOffset pack.encodedSize offset)
      (receivePack hash network http pack offset response)
      fun result _ ↦ Admitted hash goal result.1 := by
  unfold receivePack
  rw [← hencoded]
  refine proceeds_bind _ proceeds_pass fun _ ↦ ?_
  refine proceeds_decided_bind fun _ _ ↦ ?_
  refine proceeds_bind _ ((proceeds_receiveResponse hsize hpos).mono (fun _ h _ ↦ h)
    fun _ _ h ↦ h) fun received ↦ ?_
  refine proceeds_bind _ proceeds_measurePartial fun length ↦ ?_
  refine proceeds_decided_bind fun _ hlength ↦ ?_
  refine proceeds_readAndPut hsize (fun file h ↦ ?_) fun bytes hbytes ↦
    proceeds_pure fun _ _ ↦ hbytes
  rw [← h.1]
  exact not_not.mp (throwIf_eq_ok.mp hlength)

theorem attempts_requestPack {onHtml : HttpResponse → Resume (Bytes × ℕ)}
    (honHtml : ∀ response, Attempts hash goal reserve spare (fun _ ↦ True) (onHtml response)
      fun result ↦ Admitted hash goal result.1) :
    Attempts hash goal reserve (spare + 1) (fun _ ↦ True)
      (requestPack hash network http pack source onHtml)
      fun result ↦ Admitted hash goal result.1 := by
  refine attempts_decided_bind fun _ _ ↦ ?_
  refine attempts_bind proceeds_resumeOffset fun offset ↦ ?_
  refine attempts_bind (proceeds_putCompletePack hencoded hsize hpos) fun complete ↦ ?_
  cases complete with
  | some existing => exact ensures_pure fun _ h ↦ ⟨h.2.1 existing rfl, h.1.rest⟩
  | none =>
    refine attempts_sendAsync_bind fun response ↦ ?_
    refine attempts_bind proceeds_checkStatus fun _ ↦ ?_
    split_ifs
    · exact attempts_bind proceeds_deletePartial fun _ ↦ attempts_fail
    · exact (honHtml response).mono fun _ _ ↦ trivial
    · exact attempts_of_proceeds ((proceeds_receivePack hencoded hsize hpos).mono
        (fun _ h ↦ h.2 rfl) fun _ _ h ↦ h) fun _ _ h ↦ h

end

theorem attempts_downloadOneUrlAsync (hencoded : goal.encodedHash = chunk.encodedHash)
    (hsize : goal.sizes chunk.encodedSize) (hpos : (0 : ℤ) < chunk.encodedSize)
    (redirects : ℕ) (url : Text) :
    Attempts hash goal reserve (redirects + 1) (fun _ ↦ True)
      (downloadOneUrlAsync hash network http chunk redirects url) fun _ ↦ True := by
  induction redirects generalizing url with
  | zero => exact attempts_requestChunk hencoded hsize hpos fun _ ↦ attempts_fail
  | succ redirects ih =>
    exact attempts_requestChunk hencoded hsize hpos fun _ ↦
      attempts_decided_bind fun redirectUrl _ ↦ ih redirectUrl

theorem attempts_resumePackFromSourceAsync (hencoded : goal.encodedHash = pack.packHash)
    (hsize : goal.sizes pack.encodedSize) (hpos : 0 < pack.encodedSize)
    (redirects : ℕ) (source : ResolvedPackSource) :
    Attempts hash goal reserve (redirects + 1) (fun _ ↦ True)
      (resumePackFromSourceAsync hash network http pack redirects source)
      fun result ↦ Admitted hash goal result.1 := by
  induction redirects generalizing source with
  | zero => exact attempts_requestPack hencoded hsize hpos fun _ ↦ attempts_fail
  | succ redirects ih =>
    exact attempts_requestPack hencoded hsize hpos fun _ ↦
      attempts_decided_bind fun redirectUrl _ ↦ ih { source with url := redirectUrl }

end Attempt

/-! ### Several attempts -/

instance : LE Reserve where
  le less reserve := less.attempts ≤ reserve.attempts ∧ less.refreshes ≤ reserve.refreshes

/-- A task that leaves a reserve, however it ends. -/
def Spends {α : Type} (hash : Bytes → Digest) (goal : ResumeGoal) (reserve less : Reserve)
    (task : Resume α) (fact : α → Prop) : Prop :=
  Ensures (Resuming hash goal reserve 0) task (Resuming hash goal ⟨0, 0⟩ 0)
    (fun value state ↦ fact value ∧ Resuming hash goal less 0 state)
    fun _ ↦ Resuming hash goal less 0

section Retries

variable {α β : Type} {hash : Bytes → Digest} {network : Network} {http : Http}
  {goal : ResumeGoal} {reserve middle less : Reserve} {fact : α → Prop}

theorem Resuming.save {spare : ℕ} {state : ResumeState}
    (h : Resuming hash goal reserve spare state) (hless : less ≤ reserve) :
    Resuming hash goal less 0 state :=
  h.lower hless.1 hless.2 (Nat.zero_le _)

theorem spends_pure {value : α} (hless : less ≤ reserve) (hfact : fact value) :
    Spends hash goal reserve less (pure value : Resume α) fact :=
  ensures_pure fun _ h ↦ ⟨hfact, h.save hless⟩

theorem spends_fail {failure : LauncherException} (hless : less ≤ reserve) :
    Spends hash goal reserve less (Process.fail failure : Resume α) fact :=
  ensures_query (fun _ _ _ h ↦ by cases h) fun _ _ h _ ↦ h.save hless

theorem spends_bind {first : Resume β} {next : β → Resume α} {factFirst : β → Prop}
    (hless : less ≤ middle) (hfirst : Spends hash goal reserve middle first factFirst)
    (hnext : ∀ value, factFirst value → Spends hash goal middle less (next value) fact) :
    Spends hash goal reserve less (first >>= next) fact :=
  ensures_bind (fun value state ↦ factFirst value ∧ Resuming hash goal middle 0 state)
    (Ensures.mono hfirst (fun _ h ↦ h) (fun _ h ↦ h) (fun _ _ h ↦ h) fun _ _ h ↦ h.save hless)
    fun value ↦ ensures_assume (hnext value)

theorem spends_of_proceeds {task : Resume α} {after : α → Option Bytes → Prop}
    (h : Proceeds hash goal reserve 0 (fun _ ↦ True) task after)
    (hafter : ∀ value file, after value file → fact value) :
    Spends hash goal reserve reserve task fact :=
  Ensures.mono h (fun _ h ↦ ⟨h, trivial⟩) (fun _ h ↦ h) (fun value _ h ↦ ⟨hafter value _ h.2, h.1⟩)
    fun _ _ h ↦ h

theorem spends_pass : Spends hash goal reserve reserve (pass http) fun _ ↦ True :=
  spends_of_proceeds proceeds_pass fun _ _ h ↦ h

theorem spends_deletePartial :
    Spends hash goal reserve reserve (deletePartial http) fun _ ↦ True :=
  spends_of_proceeds proceeds_deletePartial fun _ _ _ ↦ trivial

variable {refreshes : ℕ}

theorem ensures_beginAttempt {attempts : ℕ} :
    Ensures (Resuming hash goal ⟨attempts + 1, refreshes⟩ 0) beginAttempt
      (Resuming hash goal ⟨0, 0⟩ 0)
      (fun _ ↦ Holds hash goal ⟨attempts, refreshes⟩ (maxRedirects + 1) fun _ ↦ True)
      fun _ ↦ Resuming hash goal ⟨attempts, refreshes⟩ 0 := by
  have hbegin (state : ResumeState) (h : Resuming hash goal ⟨attempts + 1, refreshes⟩ 0 state) :
      Resuming hash goal ⟨attempts, refreshes⟩ (maxRedirects + 1) state.attempted := by
    refine ⟨h.verified, h.notBeyond, ?_, h.refreshes_le, fun urls hurls ↦ ?_, ?_⟩
    · have hattempts := h.attempts_le
      show (state.attempts.length + 1) + attempts ≤ _
      rw [Nat.add_assoc, Nat.add_comm 1]
      exact hattempts
    · rcases mem_cons.mp hurls with rfl | hurls
      · exact Nat.zero_le _
      · exact h.short urls hurls
    · show 0 + _ ≤ _
      rw [Nat.zero_add]
  exact ensures_step (fun state h ↦ (hbegin state h).bare)
    (fun state _ h _ ↦ ⟨hbegin state h, trivial⟩) fun _ _ _ h ↦ by cases h

theorem spends_attempt {attempts : ℕ} {body : Resume α}
    {handler : LauncherException → Resume (Option α)} (hless : less ≤ ⟨attempts, refreshes⟩)
    (hbody : Attempts hash goal ⟨attempts, refreshes⟩ (maxRedirects + 1) (fun _ ↦ True) body fact)
    (hhandler : ∀ failure, Spends hash goal ⟨attempts, refreshes⟩ less (handler failure)
      fun found ↦ ∀ value, found = some value → fact value) :
    Spends hash goal ⟨attempts + 1, refreshes⟩ less
      (Process.tryCatch (do
        beginAttempt
        let value ← body
        pure (some value)) handler) fun found ↦ ∀ value, found = some value → fact value := by
  refine ensures_tryCatch (fun _ ↦ Resuming hash goal ⟨attempts, refreshes⟩ 0) ?_ hhandler
  refine ensures_bind _ ensures_beginAttempt fun _ ↦ ensures_bind _ hbody fun found ↦ ?_
  refine ensures_pure fun state h ↦ ⟨fun value hvalue ↦ ?_, h.2.save hless⟩
  exact Option.some.inj hvalue ▸ h.1

theorem Spends.mono {task : Resume α} {fact' : α → Prop}
    (h : Spends hash goal reserve less task fact) (hfact : ∀ value, fact value → fact' value) :
    Spends hash goal reserve less task fact' :=
  Ensures.mono h (fun _ h ↦ h) (fun _ h ↦ h) (fun value _ h ↦ ⟨hfact value h.1, h.2⟩)
    fun _ _ h ↦ h

variable {chunk : ChunkRef} {pack : ResolvedPack}

section

variable (hencoded : goal.encodedHash = chunk.encodedHash) (hsize : goal.sizes chunk.encodedSize)
  (hpos : (0 : ℤ) < chunk.encodedSize)

include hencoded hsize hpos

theorem spends_attemptUrls (attempts refreshes : ℕ) (urls : List Text) :
    Spends hash goal ⟨attempts + urls.length, refreshes⟩ ⟨attempts, refreshes⟩
      (attemptUrls hash network http chunk urls) fun _ ↦ True := by
  induction urls with
  | nil => exact spends_pure ⟨Nat.le_add_right _ _, le_rfl⟩ trivial
  | cons url rest ih =>
    have hless : (⟨attempts, refreshes⟩ : Reserve) ≤ ⟨attempts + rest.length, refreshes⟩ :=
      ⟨Nat.le_add_right _ _, le_rfl⟩
    refine (spends_attempt hless (attempts_downloadOneUrlAsync hencoded hsize hpos maxRedirects
      url) fun failure ↦ ?_).mono fun _ _ ↦ trivial
    have hrest := ih.mono fun found _ value (_ : found = some value) ↦ trivial
    split
    · exact hrest
    · exact hrest
    · exact spends_bind hless spends_deletePartial fun _ _ ↦ hrest
    · refine spends_bind hless (spends_of_proceeds (ensures_query (fun _ _ h _ ↦ h)
        fun _ _ _ h ↦ by cases h) fun _ _ h ↦ h) fun cancelled _ ↦ ?_
      split_ifs
      · exact spends_fail hless
      · exact hrest
    · exact spends_fail hless

theorem spends_attemptRounds (refreshes : ℕ) (locations : List Text) (rounds : ℕ) :
    Spends hash goal ⟨rounds * locations.length, refreshes⟩ ⟨0, refreshes⟩
      (attemptRounds hash network http chunk locations rounds) fun _ ↦ True := by
  induction rounds with
  | zero => exact spends_pure ⟨Nat.zero_le _, le_rfl⟩ trivial
  | succ rounds ih =>
    have hless : (⟨0, refreshes⟩ : Reserve) ≤ ⟨rounds * locations.length, refreshes⟩ :=
      ⟨Nat.zero_le _, le_rfl⟩
    rw [Nat.succ_mul]
    refine spends_bind hless (spends_attemptUrls hencoded hsize hpos _ refreshes locations)
      fun found _ ↦ ?_
    cases found with
    | some received => exact spends_pure hless trivial
    | none =>
      split_ifs
      · exact spends_bind hless spends_pass fun _ _ ↦ ih
      · exact ih

end

/-- The locations that the API returns are added to the reserve. -/
theorem Resuming.offers {state : ResumeState} (h : Resuming hash goal ⟨0, refreshes + 1⟩ 0 state)
    (count : ℕ) :
    Resuming hash goal ⟨goal.rounds * count, refreshes⟩ 0 (state.tick.offers count) where
  verified := h.verified
  notBeyond := h.notBeyond
  attempts_le := by
    have hattempts : state.attempts.length ≤
      goal.rounds * (goal.locations + state.offered.sum) := h.attempts_le
    show state.attempts.length + goal.rounds * count ≤
      goal.rounds * (goal.locations + (count :: state.offered).sum)
    rw [sum_cons, Nat.add_left_comm, Nat.mul_add, Nat.add_comm]
    exact Nat.add_le_add_left hattempts _
  refreshes_le := by
    have hrefreshes : state.offered.length + (refreshes + 1) ≤ goal.refreshes := h.refreshes_le
    show (count :: state.offered).length + refreshes ≤ goal.refreshes
    rw [length_cons]
    omega
  short := h.short
  newest_le := h.newest_le

theorem ensures_refreshUrls :
    Ensures (Resuming hash goal ⟨0, refreshes + 1⟩ 0) (refreshUrls network chunk)
      (Resuming hash goal ⟨0, 0⟩ 0)
      (fun locations ↦ Resuming hash goal ⟨goal.rounds * locations.length, refreshes⟩ 0)
      fun _ ↦ Resuming hash goal ⟨0, 0⟩ 0 := by
  refine ensures_step (fun state h ↦ ?_) (fun state locations h hok ↦ ?_)
    fun state failure h herror ↦ ?_
  · split
    · exact h.tick.bare
    · exact (h.offers _).bare
  · split at hok
    · cases hok
    · rw [← Except.ok.inj hok]
      exact h.offers _
  · split at herror
    · exact h.tick.bare
    · cases herror

section

variable (hencoded : goal.encodedHash = chunk.encodedHash) (hsize : goal.sizes chunk.encodedSize)
  (hpos : (0 : ℤ) < chunk.encodedSize) (hrounds : goal.rounds = 4)

include hencoded hsize hpos hrounds

theorem spends_refreshRounds (refreshes : ℕ) (locations : List Text) :
    Spends hash goal ⟨4 * locations.length, refreshes⟩ ⟨0, 0⟩
      (refreshRounds hash network http chunk refreshes locations) fun _ ↦ True := by
  induction refreshes generalizing locations with
  | zero => exact spends_pure ⟨Nat.zero_le _, le_rfl⟩ trivial
  | succ refreshes ih =>
    have hless : (⟨0, 0⟩ : Reserve) ≤ ⟨0, refreshes + 1⟩ := ⟨le_rfl, Nat.zero_le _⟩
    refine spends_bind hless (spends_attemptRounds hencoded hsize hpos _ locations 4)
      fun found _ ↦ ?_
    cases found with
    | some received => exact spends_pure hless trivial
    | none =>
      refine ensures_bind _ ensures_refreshUrls fun fresh ↦ ?_
      rw [hrounds]
      split_ifs
      · exact spends_pure ⟨Nat.zero_le _, Nat.zero_le _⟩ trivial
      · exact ih fresh

theorem spends_downloadChunkWithRetryAsync (urls : List Text) :
    Spends hash goal ⟨4 * urls.length, 2⟩ ⟨0, 0⟩
      (downloadChunkWithRetryAsync hash network http chunk urls) fun _ ↦ True := by
  refine spends_bind ⟨le_rfl, le_rfl⟩
    (spends_refreshRounds hencoded hsize hpos hrounds 2 urls) fun found _ ↦ ?_
  cases found with
  | some received => exact spends_pure ⟨le_rfl, le_rfl⟩ trivial
  | none => exact spends_fail ⟨le_rfl, le_rfl⟩

end

theorem spends_attemptSources (hencoded : goal.encodedHash = pack.packHash)
    (hsize : goal.sizes pack.encodedSize) (hpos : 0 < pack.encodedSize) (refreshes : ℕ)
    (sources : List ResolvedPackSource) :
    Spends hash goal ⟨sources.length, refreshes⟩ ⟨0, refreshes⟩
      (attemptSources hash network http pack sources)
      fun found ↦ ∀ result, found = some result → Admitted hash goal result.1 := by
  induction sources with
  | nil => exact spends_pure ⟨le_rfl, le_rfl⟩ fun _ h ↦ by cases h
  | cons source rest ih =>
    have hless : (⟨0, refreshes⟩ : Reserve) ≤ ⟨rest.length, refreshes⟩ := ⟨Nat.zero_le _, le_rfl⟩
    refine spends_attempt hless (attempts_resumePackFromSourceAsync hencoded hsize hpos
      maxRedirects source) fun failure ↦ ?_
    split
    · exact ih
    · exact ih
    · exact spends_bind hless spends_deletePartial fun _ _ ↦ ih
    · exact spends_fail hless

theorem ensures_rankSources (sources : List ResolvedPackSource) :
    Spends hash goal reserve reserve (rankSources http sources)
      fun ranked ↦ ranked.length = sources.length :=
  ensures_step (fun _ h ↦ h.tick.bare)
    (fun _ _ h hok ↦ ⟨Except.ok.inj hok ▸ length_insertionSort _ _, h.tick⟩)
    fun _ _ _ h ↦ by cases h

/-- A size that is expected of a pack: its own, or that of a pack of the same hash that the API
returns when it is asked again. -/
def IsExpectedSize (network : Network) (pack : ResolvedPack) (size : ℤ) : Prop :=
  size = pack.encodedSize ∨ ∃ call packs, LauncherApiClient.resolvePacksAsync network call
    pack.chunkHashes = .ok packs ∧ ∃ refreshed ∈ packs, refreshed.packHash = pack.packHash ∧
      size = refreshed.encodedSize

theorem encodedSize_pos_of_resolvePacksAsync {call : ℕ} {hashes : List Text}
    {packs : List ResolvedPack}
    (h : LauncherApiClient.resolvePacksAsync network call hashes = .ok packs) :
    ∀ found ∈ packs, 0 < found.encodedSize := by
  unfold LauncherApiClient.resolvePacksAsync at h
  simp only [bind_eq_ok, pure_eq_ok] at h
  obtain ⟨answer, -, _, hchecked, rfl⟩ := h
  intro found hfound
  have hpack := forM_eq_ok.mp hchecked found hfound
  unfold LauncherApiClient.checkPack at hpack
  simp only [bind_eq_ok, throwIf_eq_ok, exists_const, not_or] at hpack
  exact not_le.mp hpack.1.2.1

theorem isExpectedSize_of_refreshedPack {call : ℕ} {found : ResolvedPack}
    (h : refreshedPack network call pack = .ok (some found)) :
    found.packHash = pack.packHash ∧ IsExpectedSize network pack found.encodedSize ∧
      0 < found.encodedSize := by
  unfold refreshedPack at h
  split at h
  · cases h
  · cases h
  · next packs hpacks =>
    have hfind := Except.ok.inj h
    have hhash : found.packHash = pack.packHash := by
      simpa using List.find?_some hfind
    have hmem := mem_of_find?_eq_some hfind
    exact ⟨hhash, .inr ⟨call, packs, hpacks, found, hmem, hhash, rfl⟩,
      encodedSize_pos_of_resolvePacksAsync hpacks found hmem⟩

theorem ensures_refreshSources (hrounds : goal.rounds = 1) :
    Ensures (Resuming hash goal ⟨0, 1⟩ 0) (refreshSources network pack)
      (Resuming hash goal ⟨0, 0⟩ 0)
      (fun refreshed state ↦ Resuming hash goal ⟨0, 0⟩ 0 state ∧
        ∀ found, refreshed = some found → (found.packHash = pack.packHash ∧
          IsExpectedSize network pack found.encodedSize ∧ 0 < found.encodedSize) ∧
            Resuming hash goal ⟨found.sources.length, 0⟩ 0 state)
      fun _ ↦ Resuming hash goal ⟨0, 0⟩ 0 := by
  refine ensures_step (fun state h ↦ ?_) (fun state refreshed h hok ↦ ?_)
    fun state failure h herror ↦ ?_
  · split
    · exact h.tick.bare
    · exact h.tick.bare
    · exact (h.offers _).bare
  · split at hok
    · cases hok
    · rw [← Except.ok.inj hok]
      exact ⟨h.tick.bare, fun _ h ↦ (by cases h)⟩
    · next found hfound =>
      rw [← Except.ok.inj hok]
      refine ⟨(h.offers _).bare, fun other hother ↦ ?_⟩
      obtain rfl := Option.some.inj hother
      have hoffers := h.offers found.sources.length
      rw [hrounds, Nat.one_mul] at hoffers
      exact ⟨isExpectedSize_of_refreshedPack hfound, hoffers⟩
  · split at herror
    · exact h.tick.bare
    · cases herror
    · cases herror

theorem spends_resumePackWithRetryAsync (hencoded : goal.encodedHash = pack.packHash)
    (hsizes : ∀ size, IsExpectedSize network pack size → goal.sizes size)
    (hpos : 0 < pack.encodedSize) (hrounds : goal.rounds = 1) :
    Spends hash goal ⟨pack.sources.length, 1⟩ ⟨0, 0⟩
      (resumePackWithRetryAsync hash network http pack)
      fun result ↦ Admitted hash goal result.1 := by
  have hless : (⟨0, 0⟩ : Reserve) ≤ ⟨0, 1⟩ := ⟨le_rfl, Nat.zero_le _⟩
  refine spends_bind ⟨Nat.zero_le _, Nat.zero_le _⟩ (ensures_rankSources pack.sources)
    fun ranked hranked ↦ ?_
  rw [← hranked]
  refine spends_bind hless (spends_attemptSources hencoded (hsizes _ (.inl rfl)) hpos 1 ranked)
    fun found hfound ↦ ?_
  cases found with
  | some result => exact spends_pure hless (hfound result rfl)
  | none =>
    refine ensures_bind _ (ensures_refreshSources hrounds) fun refreshed ↦ ?_
    cases refreshed with
    | none => exact ensures_query (fun _ _ _ h ↦ by cases h) fun _ _ h _ ↦ h.1
    | some found =>
      intro state hstate
      obtain ⟨⟨hhash, hsize, hfoundPos⟩, hstate⟩ := hstate.2 found rfl
      have hlower : (⟨0, 0⟩ : Reserve) ≤ ⟨found.sources.length, 0⟩ := ⟨Nat.zero_le _, le_rfl⟩
      refine spends_bind hlower (ensures_rankSources found.sources) (fun ranked hranked ↦ ?_) state
        hstate
      rw [← hranked]
      refine spends_bind ⟨le_rfl, le_rfl⟩ (spends_attemptSources (hencoded.trans hhash.symm)
        (hsizes _ hsize) hfoundPos 0 ranked) fun last hlast ↦ ?_
      cases last with
      | some result => exact spends_pure ⟨le_rfl, le_rfl⟩ (hlast result rfl)
      | none => exact spends_fail ⟨le_rfl, le_rfl⟩

end Retries

/-! ### The whole transfer -/

/-- What a transfer does in every run: it puts only verified bytes, leaves the partial file within
an expected size, follows at most `maxRedirects` redirects in each attempt, and makes no more
attempts than it has locations, for each as many as there are rounds. -/
structure ResumesSafely {α : Type} (hash : Bytes → Digest) (goal : ResumeGoal)
    (outcome : Outcome ResumeState LauncherException α) : Prop where
  verified : ∀ reached ∈ outcome.visited, OnlyVerified hash goal reached.cache
  notBeyond : ∀ reached ∈ outcome.visited, NotBeyond goal reached.partialFile
  redirects : ∀ urls ∈ outcome.final.attempts, urls.length ≤ maxRedirects + 1
  attempts : outcome.final.attempts.length ≤
    goal.rounds * (goal.locations + outcome.final.offered.sum)
  refreshes : outcome.final.offered.length ≤ goal.refreshes

/-- The start of a transfer: any cache, any partial file, any trigger and any number of the first
call. -/
def resumeStart (cache : ChunkCache) (partialFile : Option Bytes) (triggered : Bool) (calls : ℕ) :
    ResumeState where
  cache := cache
  partialFile := partialFile
  triggered := triggered
  calls := calls
  offered := []
  attempts := []

def chunkGoal (chunk : ChunkRef) (urls : List Text) (start : ResumeState) : ResumeGoal where
  encodedHash := chunk.encodedHash
  sizes := fun size ↦ size = chunk.encodedSize
  locations := urls.length
  rounds := 4
  refreshes := 2
  start := start

def packGoal (network : Network) (pack : ResolvedPack) (start : ResumeState) : ResumeGoal where
  encodedHash := pack.packHash
  sizes := IsExpectedSize network pack
  locations := pack.sources.length
  rounds := 1
  refreshes := 1
  start := start

section Whole

variable {α : Type} {hash : Bytes → Digest} {goal : ResumeGoal}

theorem resuming_start (hattempts : goal.start.attempts = []) (hoffered : goal.start.offered = []) :
    Resuming hash goal ⟨goal.rounds * goal.locations, goal.refreshes⟩ 0 goal.start where
  verified _ _ h := .inl h
  notBeyond := .inl rfl
  attempts_le := by
    rw [hattempts, hoffered]
    simp
  refreshes_le := by
    rw [hoffered]
    simp
  short := by
    rw [hattempts]
    exact fun _ h ↦ by cases h
  newest_le := by
    rw [hattempts]
    exact Nat.zero_le _

theorem resumesSafely_of_spends {task : Resume α} {fact : α → Prop}
    (hattempts : goal.start.attempts = []) (hoffered : goal.start.offered = [])
    (h : Spends hash goal ⟨goal.rounds * goal.locations, goal.refreshes⟩ ⟨0, 0⟩ task fact) :
    ResumesSafely hash goal (task goal.start) ∧
      ∀ value, (task goal.start).result = .ok value → fact value := by
  obtain ⟨hvisited, hok, herror⟩ := h goal.start (resuming_start hattempts hoffered)
  have hfinal : Resuming hash goal ⟨0, 0⟩ 0 (task goal.start).final := by
    cases hresult : (task goal.start).result with
    | ok value => exact (hok value hresult).2
    | error failure => exact herror failure hresult
  exact ⟨⟨fun reached hreached ↦ (hvisited reached hreached).verified,
    fun reached hreached ↦ (hvisited reached hreached).notBeyond, hfinal.short, hfinal.attempts_le,
    hfinal.refreshes_le⟩, fun value hvalue ↦ (hok value hvalue).1⟩

end Whole

/-- **A resumed transfer admits only verified bytes**, whatever the partial file holds, whatever the
servers answer and wherever the disk fails. A chunk is tried four times at each location, a pack
once at each source, and both at those that the API returns when it is asked again; the bytes of a
pack that are returned are verified as well.

Assumes: the expected size is positive, as the manifest validator and the API client check. -/
theorem resumes_safely (hash : Bytes → Digest) (network : Network) (http : Http)
    (cache : ChunkCache) (partialFile : Option Bytes) (triggered : Bool) (calls : ℕ) :
    let start := resumeStart cache partialFile triggered calls
    (∀ chunk : ChunkRef, 0 < chunk.encodedSize → ∀ urls,
      ResumesSafely hash (chunkGoal chunk urls start)
        (downloadChunkWithRetryAsync hash network http chunk urls start)) ∧
      ∀ pack : ResolvedPack, 0 < pack.encodedSize → ResumesSafely hash (packGoal network pack start)
          (resumePackWithRetryAsync hash network http pack start) ∧
        ∀ bytes received,
          (resumePackWithRetryAsync hash network http pack start).result = .ok (bytes, received) →
            Admitted hash (packGoal network pack start) bytes := by
  intro start
  constructor
  · intro chunk hpos urls
    exact (@resumesSafely_of_spends _ hash (chunkGoal chunk urls start) _ _ rfl rfl
      (spends_downloadChunkWithRetryAsync rfl rfl (Int.natCast_pos.mpr hpos) rfl urls)).1
  · intro pack hpos
    have hspends : Spends hash (packGoal network pack start)
        ⟨1 * pack.sources.length, 1⟩ ⟨0, 0⟩ (resumePackWithRetryAsync hash network http pack)
        fun result ↦ Admitted hash (packGoal network pack start) result.1 := by
      rw [Nat.one_mul]
      exact spends_resumePackWithRetryAsync rfl (fun _ h ↦ h) hpos rfl
    obtain ⟨hsafe, hresult⟩ :=
      @resumesSafely_of_spends _ hash (packGoal network pack start) _ _ rfl rfl hspends
    exact ⟨hsafe, fun bytes received hok ↦ hresult (bytes, received) hok⟩

/-- A server that honours every range and is cut off after four bytes, with the frame of the chunk
with the one byte `a`. -/
def cutServer : Http where
  unicode := ManifestValidator.asciiUnicode
  send := fun _ _ range ↦ .ok
    { statusCode := 206
      mediaType := none
      contentRangeFrom := range
      contentLength := none
      body := [((frameOf 97).drop (range.getD 0)).take 4]
      failure := some (.io "Connection reset.") }
  fault := fun _ ↦ none
  torn := fun _ ↦ 0
  cancelled := fun _ ↦ false
  getString := fun _ ↦ []
  nextUri := fun _ _ ↦ none
  precedes := fun _ _ _ ↦ true
  failAfterBytes := none

/-- A partial file of two bytes is completed in three attempts. -/
theorem resumes_safely_cut :
    let start := resumeStart (emptyCache 20) (some [40, 181]) false 0
    let outcome := downloadChunkWithRetryAsync frameHash oneSource cutServer firstChunk
      ["https://cdn/a"] start
    ResumesSafely frameHash (chunkGoal firstChunk ["https://cdn/a"] start) outcome ∧
      outcome.final.attempts.length = 3 ∧
      outcome.final.cache.file firstChunk.encodedHash = some (frameOf 97) :=
  ⟨(resumes_safely frameHash oneSource cutServer (emptyCache 20) (some [40, 181]) false 0).1
    firstChunk (by decide) _, by decide, by decide⟩

end GameLauncher.Downloads
