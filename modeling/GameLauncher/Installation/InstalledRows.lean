import GameLauncher.Installation.Installer

/-!
# What a transaction does to the table of installed games

Everything in the installer but the save works on the file tree and leaves the table of installed
games alone (`Untouched`). So every state that an install or an update visits has the table of its
start, or that table with the row of the manifest written (`MayWrite`), and when it returns the row
has been written (`savesOnce_installAsync`, `savesOnce_updateAsync`). A recovery does not write the
table (`treeOnly_recoverAsync`).
-/

set_option autoImplicit false

namespace GameLauncher.Installation

open Foundation Fallible Manifests Process

variable {fold : Char → Char} {α β ι : Type} {env : Environment fold}

/-! ### Worlds and their tables -/

/-- The table has not been written. -/
structure Untouched (before after : World fold) : Prop where
  installed : after.installed = before.installed
  savedAt : after.savedAt = before.savedAt
  clock : before.clock ≤ after.clock

/-- The row of a manifest at a root has been written, and nothing else. -/
structure Written (manifest : Manifest) (root : Path) (before after : World fold) : Prop where
  installed : ∃ time, after.installed = before.installed.upsert (installedGame manifest root time)
  savedAt : ∃ saved, after.savedAt = some saved ∧ before.clock < saved ∧ saved ≤ after.clock

/-- What an installation of a manifest can do to the table. -/
def MayWrite (manifest : Manifest) (root : Path) (before after : World fold) : Prop :=
  Untouched before after ∨ Written manifest root before after

section Worlds

variable {manifest : Manifest} {root : Path} {first second third : World fold}

theorem Untouched.refl (world : World fold) : Untouched world world := ⟨rfl, rfl, le_rfl⟩

theorem Untouched.trans (hfirst : Untouched first second) (hsecond : Untouched second third) :
    Untouched first third where
  installed := hsecond.installed.trans hfirst.installed
  savedAt := hsecond.savedAt.trans hfirst.savedAt
  clock := hfirst.clock.trans hsecond.clock

instance : IsPreorder (World fold) Untouched where
  refl := Untouched.refl
  trans := fun _ _ _ ↦ Untouched.trans

theorem untouched_tick (world : World fold) : Untouched world world.tick :=
  ⟨rfl, rfl, Nat.le_succ _⟩

theorem untouched_withTree (world : World fold) (tree : FileTree fold) :
    Untouched world (world.withTree tree) :=
  ⟨rfl, rfl, Nat.le_succ _⟩

theorem Untouched.wellTimed (h : Untouched first second) (hfirst : first.WellTimed) :
    second.WellTimed :=
  fun time htime ↦ (hfirst time (h.savedAt ▸ htime)).trans h.clock

/-- A write to the table after some time, in a world that has not been written since. -/
theorem Untouched.not_saved {saved : ℕ} (h : Untouched first second) (hfirst : first.WellTimed)
    (hsaved : second.savedAt = some saved) : saved ≤ first.clock :=
  hfirst saved (h.savedAt ▸ hsaved)

theorem Written.wellTimed (h : Written manifest root first second) : second.WellTimed := by
  intro time htime
  obtain ⟨saved, hsaved, -, hclock⟩ := h.savedAt
  obtain rfl : saved = time := Option.some.inj (hsaved.symm.trans htime)
  exact hclock

theorem Written.trans_untouched (hfirst : Written manifest root first second)
    (hsecond : Untouched second third) : Written manifest root first third := by
  obtain ⟨time, htime⟩ := hfirst.installed
  obtain ⟨saved, hsaved, hbefore, hafter⟩ := hfirst.savedAt
  exact ⟨⟨time, hsecond.installed.trans htime⟩,
    saved, hsecond.savedAt.trans hsaved, hbefore, hafter.trans hsecond.clock⟩

theorem Untouched.trans_written (hfirst : Untouched first second)
    (hsecond : Written manifest root second third) : Written manifest root first third := by
  obtain ⟨time, htime⟩ := hsecond.installed
  obtain ⟨saved, hsaved, hbefore, hafter⟩ := hsecond.savedAt
  exact ⟨⟨time, by rw [htime, hfirst.installed]⟩,
    saved, hsaved, hfirst.clock.trans_lt hbefore, hafter⟩

theorem Written.clock_le (h : Written manifest root first second) : first.clock ≤ second.clock := by
  obtain ⟨saved, -, hbefore, hafter⟩ := h.savedAt
  exact hbefore.le.trans hafter

theorem Written.trans (hfirst : Written manifest root first second)
    (hsecond : Written manifest root second third) : Written manifest root first third := by
  obtain ⟨earlier, hearlier⟩ := hfirst.installed
  obtain ⟨time, htime⟩ := hsecond.installed
  obtain ⟨saved, hsaved, hbefore, hafter⟩ := hsecond.savedAt
  refine ⟨⟨time, ?_⟩, saved, hsaved, hfirst.clock_le.trans_lt hbefore, hafter⟩
  rw [htime, hearlier]
  exact Table.upsert_upsert rfl

theorem MayWrite.trans (hfirst : MayWrite manifest root first second)
    (hsecond : MayWrite manifest root second third) : MayWrite manifest root first third := by
  rcases hfirst with hfirst | hfirst <;> rcases hsecond with hsecond | hsecond
  · exact .inl (hfirst.trans hsecond)
  · exact .inr (hfirst.trans_written hsecond)
  · exact .inr (hfirst.trans_untouched hsecond)
  · exact .inr (hfirst.trans hsecond)

instance : IsPreorder (World fold) (MayWrite manifest root) where
  refl := fun world ↦ .inl (Untouched.refl world)
  trans := fun _ _ _ ↦ MayWrite.trans

theorem MayWrite.wellTimed (h : MayWrite manifest root first second) (hfirst : first.WellTimed) :
    second.WellTimed := by
  rcases h with huntouched | hwritten
  · exact huntouched.wellTimed hfirst
  · exact hwritten.wellTimed

end Worlds

/-! ### Tasks that leave the table alone -/

abbrev TreeOnly (task : Task fold α) : Prop := Advances Untouched task

theorem treeOnly_operation {action : FileTree fold → Except IoFailure (FileTree fold)} :
    TreeOnly (operation env action) := by
  refine advances_step fun world ↦ ?_
  cases env.fault world.clock with
  | some failure => exact untouched_tick world
  | none =>
    cases action world.tree with
    | ok made => exact untouched_withTree world made
    | error failure => exact untouched_tick world

theorem treeOnly_observe {view : FileTree fold → Except IoFailure α} :
    TreeOnly (observe env view) := by
  refine advances_step fun world ↦ ?_
  cases env.fault world.clock <;> exact untouched_tick world

theorem treeOnly_inspect {view : FileTree fold → α} : TreeOnly (inspect view) :=
  advances_query

theorem treeOnly_throwIfCancellationRequested : TreeOnly (throwIfCancellationRequested env) :=
  advances_query

theorem treeOnly_lift {result : Except Failure α} : TreeOnly (lift result : Task fold α) :=
  advances_query

theorem treeOnly_ignoreIo (failure : Failure) : TreeOnly (ignoreIo failure : Task fold Unit) := by
  cases failure
  case io => exact advances_pure
  all_goals exact advances_fail

/-! ### The parts of a transaction -/

variable {path backupRoot journalPath stageRoot : Path} {file : FileRecipe}
  {journal : TransactionJournal}

theorem treeOnly_resolveUnderRoot {root : Path} {portablePath : Text} :
    TreeOnly (resolveUnderRoot env root portablePath) :=
  advances_bind treeOnly_lift fun _ ↦ advances_bind treeOnly_inspect fun _ ↦
    advances_ite advances_fail advances_pure

theorem treeOnly_hasReparsePoint : TreeOnly (hasReparsePoint env path) :=
  treeOnly_observe

theorem treeOnly_ensureSafeRoot {root : Path} : TreeOnly (ensureSafeRoot env root) :=
  advances_bind treeOnly_operation fun _ ↦ advances_bind treeOnly_hasReparsePoint fun _ ↦
    advances_ite advances_fail advances_pure

theorem treeOnly_verifyFile {expectedSize : ℕ} {expectedHash : Text} :
    TreeOnly (verifyFile env path expectedSize expectedHash) :=
  advances_bind treeOnly_inspect fun _ ↦
    advances_ite (advances_bind treeOnly_observe fun _ ↦ advances_pure) advances_pure

theorem treeOnly_tryDeleteFile : TreeOnly (tryDeleteFile env path) :=
  advances_tryCatch
    (advances_bind treeOnly_inspect fun _ ↦ advances_ite treeOnly_operation advances_pure)
    treeOnly_ignoreIo

theorem treeOnly_tryDeleteDirectory : TreeOnly (tryDeleteDirectory env path) :=
  advances_tryCatch
    (advances_bind treeOnly_inspect fun _ ↦ advances_ite treeOnly_operation advances_pure)
    treeOnly_ignoreIo

theorem treeOnly_readRaw {chunk : ChunkRef} : TreeOnly (readRaw env chunk) :=
  advances_bind advances_query fun _ ↦ advances_bind treeOnly_lift fun _ ↦
    advances_bind treeOnly_lift fun _ ↦ advances_pure

theorem treeOnly_reconstructFile {temporary : Path} :
    TreeOnly (reconstructFile env file temporary) := by
  refine advances_bind treeOnly_operation fun _ ↦ ?_
  refine advances_bind (advances_forEach (fun chunk _ ↦ ?_) _ _) fun _ ↦ ?_
  · exact advances_bind treeOnly_readRaw fun _ ↦ treeOnly_operation
  · exact advances_bind treeOnly_verifyFile fun _ ↦ advances_ite advances_pure advances_fail

theorem treeOnly_writeJournal {cancellable : Bool} :
    TreeOnly (writeJournal env cancellable path journal) := by
  refine advances_tryCatch ?_ fun _ ↦ advances_bind treeOnly_tryDeleteFile fun _ ↦ advances_fail
  have hwrite {content : Bytes} {temporary : Path} : TreeOnly (do
      operation env fun tree ↦ tree.writeFile temporary content
      operation env fun tree ↦ tree.moveFile temporary path) :=
    advances_bind treeOnly_operation fun _ ↦ treeOnly_operation
  exact advances_ite
    (advances_bind treeOnly_throwIfCancellationRequested fun _ ↦ hwrite) hwrite

theorem treeOnly_tryWriteFailedJournal : TreeOnly (tryWriteFailedJournal env path journal) :=
  advances_tryCatch treeOnly_writeJournal treeOnly_ignoreIo

theorem treeOnly_guarded {body : Task fold α} (h : TreeOnly body) :
    TreeOnly (guarded env path journal body) :=
  advances_tryCatch h fun _ ↦ advances_bind treeOnly_tryWriteFailedJournal fun _ ↦ advances_fail

theorem treeOnly_backupExistingFile {root destination : Path} :
    TreeOnly (backupExistingFile env root destination backupRoot) :=
  advances_bind treeOnly_inspect fun _ ↦ advances_ite
    (advances_bind treeOnly_hasReparsePoint fun _ ↦ advances_ite advances_fail
      (advances_bind treeOnly_operation fun _ ↦ treeOnly_operation))
    advances_pure

theorem treeOnly_cleanupTransaction : TreeOnly (cleanupTransaction env journalPath backupRoot) := by
  have hjournal : TreeOnly (do
      let journaled ← inspect fun tree ↦ tree.fileExists journalPath
      if journaled then operation env fun tree ↦ tree.deleteFile journalPath else pure ()) :=
    advances_bind treeOnly_inspect fun _ ↦ advances_ite treeOnly_operation advances_pure
  exact advances_bind treeOnly_inspect fun _ ↦
    advances_ite (advances_bind treeOnly_operation fun _ ↦ hjournal) hjournal

theorem treeOnly_installFile {root : Path} {transactionId : Text} :
    TreeOnly (installFile env root backupRoot transactionId file) := by
  refine advances_bind treeOnly_throwIfCancellationRequested fun _ ↦ ?_
  refine advances_bind treeOnly_resolveUnderRoot fun _ ↦ ?_
  refine advances_bind treeOnly_operation fun _ ↦ ?_
  refine advances_tryFinally ?_ treeOnly_tryDeleteFile
  exact advances_bind treeOnly_reconstructFile fun _ ↦
    advances_bind treeOnly_backupExistingFile fun _ ↦ treeOnly_operation

theorem treeOnly_isUnchanged {previous : List FileRecipe} {existing : Path} :
    TreeOnly (isUnchanged env previous existing file) := by
  unfold isUnchanged
  cases findFile previous file.path with
  | none => exact advances_pure
  | some old => exact advances_ite treeOnly_verifyFile advances_pure

theorem treeOnly_stageFile {previous : List FileRecipe} {root : Path} {transactionId : Text}
    {staging : Staging} :
    TreeOnly (stageFile env previous root stageRoot transactionId file staging) := by
  refine advances_bind treeOnly_throwIfCancellationRequested fun _ ↦ ?_
  refine advances_bind treeOnly_resolveUnderRoot fun _ ↦ ?_
  refine advances_bind treeOnly_operation fun _ ↦ ?_
  refine advances_bind treeOnly_resolveUnderRoot fun _ ↦ ?_
  refine advances_bind treeOnly_isUnchanged fun _ ↦ advances_ite advances_pure ?_
  refine advances_bind (advances_tryFinally ?_ treeOnly_tryDeleteFile) fun _ ↦ advances_pure
  exact advances_bind treeOnly_reconstructFile fun _ ↦ treeOnly_operation

theorem treeOnly_removeFile {root : Path} {old : FileRecipe} :
    TreeOnly (removeFile env root backupRoot old journal) :=
  advances_bind treeOnly_resolveUnderRoot fun _ ↦ advances_bind treeOnly_inspect fun _ ↦
    advances_ite (advances_bind treeOnly_backupExistingFile fun _ ↦ advances_pure)
      advances_pure

theorem treeOnly_placeFile {root : Path} :
    TreeOnly (placeFile env root stageRoot backupRoot file) := by
  refine advances_bind treeOnly_resolveUnderRoot fun _ ↦ ?_
  refine advances_bind treeOnly_resolveUnderRoot fun _ ↦ ?_
  exact advances_bind treeOnly_operation fun _ ↦
    advances_bind treeOnly_backupExistingFile fun _ ↦ treeOnly_operation

theorem treeOnly_createWorkDirectories :
    TreeOnly (createWorkDirectories env stageRoot backupRoot) := by
  refine advances_tryCatch ?_ fun _ ↦ ?_
  · exact advances_bind treeOnly_operation fun _ ↦ treeOnly_operation
  · exact advances_bind treeOnly_tryDeleteDirectory fun _ ↦
      advances_bind treeOnly_tryDeleteDirectory fun _ ↦ advances_fail

theorem treeOnly_startUpdate :
    TreeOnly (startUpdate env stageRoot backupRoot journalPath journal) := by
  refine advances_tryCatch treeOnly_writeJournal fun _ ↦ ?_
  refine advances_bind treeOnly_tryDeleteDirectory fun _ ↦ ?_
  refine advances_bind treeOnly_tryDeleteDirectory fun _ ↦ ?_
  refine advances_bind treeOnly_tryDeleteFile fun _ ↦ ?_
  exact advances_bind treeOnly_tryDeleteFile fun _ ↦ advances_fail

theorem treeOnly_deleteStaging : TreeOnly (deleteStaging env stageRoot) :=
  advances_bind treeOnly_inspect fun _ ↦ advances_ite treeOnly_operation advances_pure

/-! ### Tasks that save the row of a manifest -/

/-- A task that, when it returns, has saved the row of a manifest and nothing else. -/
def SavesRow (manifest : Manifest) (root : Path) (task : Task fold α) : Prop :=
  ∀ world value, (task world).result = .ok value → ∃ time,
    (task world).final.installed = world.installed.upsert (installedGame manifest root time)

/-- A task that writes the row of a manifest or leaves the table alone, and that has written the row
when it returns. -/
structure SavesOnce (manifest : Manifest) (root : Path) (task : Task fold α) : Prop where
  mayWrite : Advances (MayWrite manifest root) task
  written : ∀ world value, (task world).result = .ok value →
    Written manifest root world (task world).final

variable {manifest : Manifest} {root : Path}

theorem SavesOnce.savesRow {task : Task fold α} (h : SavesOnce manifest root task) :
    SavesRow manifest root task :=
  fun world value hresult ↦ (h.written world value hresult).installed

theorem TreeOnly.mayWrite {task : Task fold α} (h : TreeOnly task) :
    Advances (MayWrite manifest root) task :=
  h.mono fun _ _ ↦ .inl

theorem savesOnce_saveInstalledGame :
    SavesOnce manifest root (saveInstalledGame env (installedGame manifest root)) where
  mayWrite := by
    refine advances_step fun world ↦ ?_
    cases env.databaseFault world.clock with
    | true => exact .inl (untouched_tick world)
    | false => exact .inr ⟨⟨world.clock, rfl⟩, _, rfl, Nat.lt_succ_self _, le_rfl⟩
  written := by
    intro world value hresult
    cases hfault : env.databaseFault world.clock with
    | true => simp [saveInstalledGame, Process.step, hfault] at hresult
    | false =>
      simp only [saveInstalledGame, Process.step, hfault, Bool.false_eq_true, if_false]
      exact ⟨⟨world.clock, rfl⟩, _, rfl, Nat.lt_succ_self _, le_rfl⟩

theorem savesOnce_bind {first : Task fold α} {next : α → Task fold β} (hfirst : TreeOnly first)
    (hnext : ∀ value, SavesOnce manifest root (next value)) :
    SavesOnce manifest root (first >>= next) where
  mayWrite := advances_bind hfirst.mayWrite fun value ↦ (hnext value).mayWrite
  written := by
    intro world value hresult
    obtain ⟨middle, hmiddle, hend⟩ := result_bind_eq_ok.mp hresult
    rw [final_bind_of_ok hmiddle]
    exact (hfirst world).2.trans_written ((hnext middle).written _ value hend)

theorem SavesOnce.bind {first : Task fold α} {next : α → Task fold β}
    (hfirst : SavesOnce manifest root first) (hnext : ∀ value, TreeOnly (next value)) :
    SavesOnce manifest root (first >>= next) where
  mayWrite := advances_bind hfirst.mayWrite fun value ↦ (hnext value).mayWrite
  written := by
    intro world value hresult
    obtain ⟨middle, hmiddle, -⟩ := result_bind_eq_ok.mp hresult
    rw [final_bind_of_ok hmiddle]
    exact (hfirst.written world middle hmiddle).trans_untouched (hnext middle _).2

theorem SavesOnce.guarded {body : Task fold α} (h : SavesOnce manifest root body) :
    SavesOnce manifest root (guarded env path journal body) where
  mayWrite := advances_tryCatch h.mayWrite fun _ ↦
    advances_bind treeOnly_tryWriteFailedJournal.mayWrite fun _ ↦ advances_fail
  written := by
    intro world value hresult
    have hbody : (body world).result = .ok value := result_of_tryCatch_fail hresult
    rw [Installation.guarded, final_tryCatch_of_ok hbody]
    exact h.written world value hbody

theorem savesOnce_commitTransaction :
    SavesOnce manifest root
      (commitTransaction env manifest root journalPath backupRoot journal) := by
  refine SavesOnce.bind (SavesOnce.guarded ?_) fun _ ↦ treeOnly_guarded ?_
  · exact savesOnce_bind treeOnly_writeJournal fun _ ↦
      savesOnce_bind treeOnly_throwIfCancellationRequested fun _ ↦ savesOnce_saveInstalledGame
  · exact advances_bind treeOnly_writeJournal fun _ ↦ treeOnly_cleanupTransaction

theorem savesOnce_installAsync (transactionId : Text) :
    SavesOnce manifest root (installAsync env manifest root transactionId) := by
  refine savesOnce_bind treeOnly_lift fun _ ↦ ?_
  refine savesOnce_bind treeOnly_ensureSafeRoot fun _ ↦ ?_
  refine savesOnce_bind treeOnly_lift fun _ ↦ ?_
  refine savesOnce_bind treeOnly_lift fun _ ↦ ?_
  refine savesOnce_bind treeOnly_lift fun _ ↦ ?_
  refine savesOnce_bind treeOnly_writeJournal fun _ ↦ ?_
  refine savesOnce_bind (advances_forEach (fun file journal ↦ ?_) _ _) fun _ ↦
    savesOnce_commitTransaction
  exact advances_bind (treeOnly_guarded treeOnly_installFile) fun _ ↦
    advances_bind (treeOnly_guarded treeOnly_writeJournal) fun _ ↦ advances_pure

theorem savesOnce_updateAsync (previous : Manifest) (transactionId : Text) :
    SavesOnce manifest root (updateAsync env previous manifest root transactionId) := by
  refine savesOnce_bind treeOnly_lift fun _ ↦ ?_
  refine savesOnce_bind treeOnly_lift fun _ ↦ ?_
  refine savesOnce_bind treeOnly_lift fun _ ↦ ?_
  refine savesOnce_bind treeOnly_ensureSafeRoot fun _ ↦ ?_
  refine savesOnce_bind treeOnly_lift fun _ ↦ ?_
  refine savesOnce_bind treeOnly_lift fun _ ↦ ?_
  refine savesOnce_bind treeOnly_lift fun _ ↦ ?_
  refine savesOnce_bind treeOnly_createWorkDirectories fun _ ↦ ?_
  refine savesOnce_bind treeOnly_startUpdate fun _ ↦ ?_
  refine savesOnce_bind (treeOnly_guarded
    (advances_forEach (fun file staging ↦ treeOnly_stageFile) _ _)) fun staging ↦ ?_
  refine savesOnce_bind (advances_forEach (fun old journal ↦ ?_) _ _) fun _ ↦ ?_
  · exact treeOnly_guarded treeOnly_removeFile
  refine savesOnce_bind (advances_forEach (fun file journal ↦ ?_) _ _) fun _ ↦ ?_
  · refine advances_ite advances_pure ?_
    exact advances_bind (treeOnly_guarded treeOnly_placeFile) fun _ ↦
      advances_bind (treeOnly_guarded treeOnly_writeJournal) fun _ ↦ advances_pure
  refine SavesOnce.bind savesOnce_commitTransaction fun _ ↦ ?_
  exact advances_bind (treeOnly_guarded treeOnly_deleteStaging) fun _ ↦ advances_pure

theorem savesRow_updateAsync (previous : Manifest) (transactionId : Text) :
    SavesRow manifest root (updateAsync env previous manifest root transactionId) :=
  (savesOnce_updateAsync previous transactionId).savesRow

/-! ### Recovery -/

variable {stateStore : Bool}

theorem treeOnly_enumerate {directory : Path} {select : Path → Node → Bool} :
    TreeOnly (enumerate env directory select) := by
  refine advances_step fun world ↦ ?_
  cases env.fault world.clock with
  | some failure => exact untouched_tick world
  | none =>
    by_cases hexists : world.tree.directoryExists directory = true
    · simp only [hexists, if_true]
      exact untouched_tick world
    · simp only [hexists, Bool.false_eq_true, if_false]
      exact untouched_tick world

theorem treeOnly_isDatabaseCommitted : TreeOnly (isDatabaseCommitted env root journal) := by
  refine advances_step fun world ↦ ?_
  cases env.databaseFault world.clock <;> exact untouched_tick world

theorem treeOnly_deleteCommitted {portable : Text} :
    TreeOnly (deleteCommitted env root portable) :=
  advances_bind treeOnly_resolveUnderRoot fun _ ↦ advances_bind treeOnly_inspect fun _ ↦
    advances_ite (advances_bind treeOnly_hasReparsePoint fun _ ↦
      advances_ite advances_pure treeOnly_operation) advances_pure

theorem treeOnly_restoreBackup {backup : Path} :
    TreeOnly (restoreBackup env root backupRoot backup) := by
  refine advances_bind treeOnly_hasReparsePoint fun _ ↦ advances_ite advances_fail ?_
  exact advances_bind treeOnly_resolveUnderRoot fun _ ↦
    advances_bind treeOnly_operation fun _ ↦ treeOnly_operation

theorem treeOnly_restoreTransaction : TreeOnly (restoreTransaction env root journal) := by
  refine advances_bind (advances_forEach (fun _ _ ↦ treeOnly_deleteCommitted) _ _) fun _ ↦ ?_
  refine advances_bind treeOnly_inspect fun _ ↦ advances_ite ?_ advances_pure
  exact advances_bind treeOnly_enumerate fun _ ↦
    advances_forEach (fun _ _ ↦ treeOnly_restoreBackup) _ _

theorem treeOnly_readJournal : TreeOnly (readJournal env journalPath) := by
  refine advances_tryCatch (advances_bind treeOnly_observe fun _ ↦ advances_pure) fun failure ↦ ?_
  cases failure
  case io => exact advances_pure
  all_goals exact advances_fail

theorem treeOnly_discard : TreeOnly (do
    let backedUp ← inspect fun tree ↦ tree.directoryExists backupRoot
    if backedUp then operation env fun tree ↦ tree.deleteDirectory backupRoot else pure ()
    operation env fun tree ↦ tree.deleteFile journalPath) :=
  advances_bind treeOnly_inspect fun _ ↦
    advances_ite (advances_bind treeOnly_operation fun _ ↦ treeOnly_operation) treeOnly_operation

theorem treeOnly_settleJournal :
    TreeOnly (settleJournal env stateStore root journalPath journal) := by
  have hsettle (committed : Bool) : TreeOnly (do
      if journal.state ≠ .committed ∧ committed = false then restoreTransaction env root journal
      else pure ()
      let backedUp ← inspect fun tree ↦ tree.directoryExists journal.backupRoot
      if backedUp then operation env fun tree ↦ tree.deleteDirectory journal.backupRoot else pure ()
      operation env fun tree ↦ tree.deleteFile journalPath) :=
    advances_ite (advances_bind treeOnly_restoreTransaction fun _ ↦ treeOnly_discard)
      treeOnly_discard
  exact advances_ite (advances_bind treeOnly_isDatabaseCommitted hsettle) (hsettle false)

theorem treeOnly_recoverJournal : TreeOnly (recoverJournal env stateStore root journalPath) := by
  refine advances_bind treeOnly_throwIfCancellationRequested fun _ ↦
    advances_bind treeOnly_readJournal fun journal ↦ ?_
  cases journal with
  | none => exact advances_pure
  | some journal => exact advances_ite treeOnly_settleJournal advances_pure

/-- A loop that deletes what an enumeration has returned. -/
theorem treeOnly_deletions {action : Path → FileTree fold → Except IoFailure (FileTree fold)}
    {paths : List Path} :
    TreeOnly (forEach (fun path (_ : Unit) ↦ do
      throwIfCancellationRequested env
      operation env (action path)) paths ()) :=
  advances_forEach (fun _ _ ↦ advances_bind treeOnly_throwIfCancellationRequested fun _ ↦
    treeOnly_operation) _ _

theorem treeOnly_removeWorkFiles : TreeOnly (removeWorkFiles env root) := by
  refine advances_bind treeOnly_enumerate fun _ ↦ advances_bind treeOnly_deletions fun _ ↦ ?_
  refine advances_bind treeOnly_enumerate fun _ ↦ advances_bind treeOnly_deletions fun _ ↦ ?_
  exact advances_ite advances_pure
    (advances_bind treeOnly_enumerate fun _ ↦ treeOnly_deletions)

theorem treeOnly_recoverAsync : TreeOnly (recoverAsync env stateStore root) := by
  refine advances_bind treeOnly_inspect fun _ ↦ advances_ite ?_ advances_pure
  refine advances_bind treeOnly_ensureSafeRoot fun _ ↦ advances_bind treeOnly_enumerate fun _ ↦ ?_
  exact advances_bind (advances_forEach (fun _ _ ↦ treeOnly_recoverJournal) _ _) fun _ ↦
    treeOnly_removeWorkFiles

end GameLauncher.Installation
