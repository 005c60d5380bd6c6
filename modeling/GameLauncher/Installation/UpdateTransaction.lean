import GameLauncher.Installation.CommitRuns
import GameLauncher.Installation.UpdateRuns

/-!
# The transaction of an update

The steps of `UpdateAsync` after its checks, as one run: the work directories and the first journal,
staging, removal, placing, the commit and the removal of what is left of the staging directory.
`ensures_updateTransaction` says that every tree up to the write to the table has a layout, and
`Updated` is the tree of an update that returns.
-/

set_option autoImplicit false

namespace GameLauncher.Installation

open Foundation Fallible Manifests Process List FileTree Transaction

variable {fold : Char → Char}

namespace Context

variable {ctx : Context fold} {property : FileTree fold → Prop}

theorem ensures_tryDeleteDirectory {path : Path} (hsafe : ∀ tree, property tree → ctx.safe tree)
    (hkeeps : ∀ tree made, property tree → tree.deleteDirectory path = .ok made → property made) :
    Ensures (ctx.frame property) (tryDeleteDirectory ctx.env path) ctx.always
      (fun _ ↦ ctx.frame property) fun _ _ ↦ False := by
  refine ensures_ignoreIo_operation hsafe (fun _ htree ↦ htree) fun tree made htree _ hmade ↦ ?_
  have hkept := hkeeps tree made htree hmade
  exact ⟨hsafe made hkept, hkept⟩

end Context

namespace TransactionRun

open Context

variable {run : TransactionRun fold} {removed done : List FileRecipe}

/-! ### The start of an update -/

/-- The tree of a transaction that has put nothing in place. -/
def Begun (run : TransactionRun fold) (tree : FileTree fold) : Prop :=
  run.tx.Layout run.files [] [] [] tree

theorem Begun.safe {tree : FileTree fold} (h : run.Begun tree) : run.ctx.safe tree :=
  run.safe_of_layout _ _ _ tree h

theorem changedOnly_deleteStage {tree made : FileTree fold}
    (h : tree.deleteDirectory run.tx.stageRoot = .ok made) :
    ChangedOnly (Below fold run.tx.stageRoot) tree made := by
  intro path hpath
  by_contra hother
  exact hpath ((deleteDirectory_eq_ok h path).trans (if_neg hother))

theorem ensures_tryDeleteStage (hupdate : run.tx.operation = .update) :
    Ensures (run.ctx.frame run.Begun) (tryDeleteDirectory run.ctx.env run.tx.stageRoot)
      run.ctx.always (fun _ ↦ run.ctx.frame run.Begun) fun _ _ ↦ False :=
  ensures_tryDeleteDirectory (fun _ htree ↦ htree.safe) fun _ _ htree hmade ↦
    Transaction.Layout.of_stage_change htree hupdate (changedOnly_deleteStage hmade)

theorem ensures_tryDeleteBackups :
    Ensures (run.ctx.frame run.Begun) (tryDeleteDirectory run.ctx.env run.tx.backupRoot)
      run.ctx.always (fun _ ↦ run.ctx.frame run.Begun) fun _ _ ↦ False :=
  ensures_tryDeleteDirectory (fun _ htree ↦ htree.safe) fun _ _ htree hmade ↦
    Transaction.Layout.of_backup_removal htree (deleteDirectory_eq_ok hmade)

/-- Before the first journal there is a staging directory with nothing in it. -/
theorem keeps_createWorkDirectories (hupdate : run.tx.operation = .update) :
    run.ctx.Keeps run.Begun
      (createWorkDirectories run.ctx.env run.tx.stageRoot run.tx.backupRoot)
      (fun _ ↦ run.Carries [] [] [] (run.Staged fun _ ↦ False)) run.Laid := by
  have hnot := run.not_favourable
  have hlaid : ∀ tree, run.Begun tree → run.Laid tree := fun tree htree ↦ ⟨[], [], [], htree⟩
  refine keeps_tryCatch run.Begun ?_ fun failure _ ↦ ?_
  · refine keeps_bind (fun _ ↦ run.Carries [] [] [] (run.Staged fun _ ↦ False))
      (keeps_operation_of_ok hnot (fun _ htree ↦ htree.safe) (fun _ htree ↦ htree)
        fun tree made htree hmade ↦ ?_) fun _ ↦ keeps_operation_of_ok hnot
          (fun _ htree ↦ htree.safe) (fun _ htree ↦ htree.1) fun tree made htree hmade ↦ ?_
    · have hstage : tree.createDirectory (run.tx.stageRoot ++ []) = .ok made := by
        rwa [append_nil]
      have hkept : run.Begun made :=
        Transaction.Layout.of_stage_change htree hupdate (htree.stage_of_createDirectory hstage)
      exact ⟨hkept.safe, hkept, (createDirectory_eq_ok hmade).2.1,
        fun _ himpossible ↦ himpossible.elim⟩
    · have hbackup : tree.createDirectory (run.tx.backupRoot ++ []) = .ok made := by
        rwa [append_nil]
      have hkept : run.Begun made := by
        refine htree.1.createDirectory_below_backup ?_ hbackup
        rw [append_nil]
        exact run.tx.root_directory
      refine ⟨hkept.safe, hkept, dependsOn_staged tree made htree.2 fun path hpath ↦ ?_⟩
      by_contra hne
      obtain ⟨hextends, -, hchanged⟩ := createDirectory_eq_ok hmade
      have hleading := hchanged path hne
      rw [← append_nil run.tx.backupRoot] at hleading
      exact not_below_backup_of_stage hupdate hpath
        (htree.1.beside_of_changed hextends hleading hne)
  · refine keeps_bind (fun _ ↦ run.Begun) (.of_total (ensures_tryDeleteStage hupdate)) fun _ ↦ ?_
    refine keeps_bind (fun _ ↦ run.Begun) (.of_total ensures_tryDeleteBackups) fun _ ↦ ?_
    exact keeps_fail_of_not hnot hlaid

theorem stable_begun : run.ctx.Stable (JournalFiles fold run.tx.journalPath) run.Begun :=
  ⟨fun _ htree ↦ htree.safe, fun _ _ htree hmade ↦ layout_of_journal htree hmade⟩

theorem keeps_startUpdate (hupdate : run.tx.operation = .update) (journal : TransactionJournal) :
    run.ctx.Keeps (run.Carries [] [] [] (run.Staged fun _ ↦ False))
      (startUpdate run.ctx.env run.tx.stageRoot run.tx.backupRoot run.tx.journalPath journal)
      (fun _ ↦ run.Carries [] [] [] (run.Staged fun _ ↦ False)) run.Laid := by
  have hnot := run.not_favourable
  have hlaid : ∀ tree, run.Begun tree → run.Laid tree := fun tree htree ↦ ⟨[], [], [], htree⟩
  refine keeps_tryCatch run.Begun ((keeps_writeJournal hnot (stable_carries dependsOn_staged)).mono
    (fun _ htree ↦ htree) (fun _ _ htree ↦ htree.1) fun _ htree ↦ htree.1) fun failure _ ↦ ?_
  refine keeps_bind (fun _ ↦ run.Begun) (.of_total (ensures_tryDeleteStage hupdate)) fun _ ↦ ?_
  refine keeps_bind (fun _ ↦ run.Begun) (.of_total ensures_tryDeleteBackups) fun _ ↦ ?_
  refine keeps_bind (fun _ ↦ run.Begun) (.of_total (ensures_tryDeleteFile
    (stable_begun.mono fun _ hpath ↦ .inl hpath))) fun _ ↦ ?_
  refine keeps_bind (fun _ ↦ run.Begun) (.of_total (ensures_tryDeleteFile
    (stable_begun.mono fun _ hpath ↦ .inr hpath))) fun _ ↦ ?_
  exact keeps_fail_of_not hnot hlaid

/-! ### The end of an update -/

/-- The tree of an update that returns: what it has reused and put in place, and none of its own
files and directories. -/
structure Updated (run : TransactionRun fold) (previous : List FileRecipe)
    (removed : List FileRecipe) (tree : FileTree fold) : Prop where
  outside : ∃ (unchangedPaths : List Text) (placed : List (FileRecipe × Bytes))
    (backed : List Path),
    (∀ path ∈ unchangedPaths, ∃ file ∈ run.files, file.path = path ∧ run.Reused previous file) ∧
    run.Progress removed (run.files.filter fun file ↦ file.path ∉ unchangedPaths) placed backed ∧
    run.tx.Outside run.files placed backed tree
  journal : tree.node run.tx.journalPath = none
  backups : Absent run.tx.backupRoot tree
  staging : Absent run.tx.stageRoot tree

theorem dependsOn_staged_of_commit (hupdate : run.tx.operation = .update)
    {pending : FileRecipe → Prop} :
    DependsOn (fun path ↦ Below fold run.tx.stageRoot path ∧ ¬ Below fold run.tx.backupRoot path)
      (run.Staged pending) :=
  dependsOn_staged.mono fun _ hpath ↦ ⟨hpath, not_below_backup_of_stage hupdate hpath⟩

theorem keeps_deleteStaging (hsafe : ∀ tree, run.ctx.safe tree) :
    run.ctx.Keeps (run.Settled removed done (run.Staged fun _ ↦ False))
      (deleteStaging run.ctx.env run.tx.stageRoot)
      (fun _ tree ↦ (∃ placed backed, run.Progress removed done placed backed ∧
          run.tx.Outside run.files placed backed tree) ∧
        tree.node run.tx.journalPath = none ∧ Absent run.tx.backupRoot tree ∧
        Absent run.tx.stageRoot tree) fun _ ↦ True := by
  refine keeps_bind (fun left tree ↦ left = true ∧
    run.Settled removed done (run.Staged fun _ ↦ False) tree)
    (keeps_inspect fun tree htree ↦ ⟨by rw [FileTree.directoryExists, htree.fact.1], htree⟩)
    fun left ↦ keeps_assume fun hleft ↦ ?_
  rw [if_pos hleft]
  refine keeps_operation_of_ok run.not_favourable (fun tree _ ↦ hsafe tree) (fun _ _ ↦ trivial)
    fun tree made htree hmade ↦ ⟨hsafe made, ?_⟩
  have hchanged := changedOnly_deleteStage hmade
  have hgone : ∀ path, tree.node path = none → made.node path = none := by
    intro path hpath
    rw [deleteDirectory_eq_ok hmade path, hpath, ite_self]
  obtain ⟨placed, backed, hprogress, houtside⟩ := htree.outside
  refine ⟨⟨placed, backed, hprogress, outside_of_marked_change houtside
    (hchanged.mono fun path hpath ↦ mentions_of_leading hpath ?_)⟩, hgone _ htree.journal,
    fun path hpath ↦ hgone path (htree.backups path hpath), absent_of_deleteDirectory hmade⟩
  simpa using run.tx.mentions_stage []

/-! ### The whole transaction -/

variable (run) in
theorem ensures_updateTransaction (hupdate : run.tx.operation = .update)
    (hbound : run.WellTimed)
    {previous next : Manifest} (hfiles : run.files = next.files)
    (howned : ∀ old ∈ previous.files, run.owned old) :
    Ensures (run.ctx.frame fun tree ↦ tree = run.tx.start)
      (do
        createWorkDirectories run.ctx.env run.tx.stageRoot run.tx.backupRoot
        let journal := newJournal run.tx.id .update next.gameId previous.buildId next.buildId
          run.tx.backupRoot
        startUpdate run.ctx.env run.tx.stageRoot run.tx.backupRoot run.tx.journalPath journal
        let staging ← guarded run.ctx.env run.tx.journalPath journal
          (forEach (stageFile run.ctx.env previous.files run.tx.root run.tx.stageRoot run.tx.id)
            next.files ⟨[], 0, 0, 0⟩)
        let journal ← forEach (fun old journal ↦
          guarded run.ctx.env run.tx.journalPath journal
            (removeFile run.ctx.env run.tx.root run.tx.backupRoot old journal))
          (removedFiles previous next) journal
        let journal ← forEach (fun file journal ↦
          if file.path ∈ staging.unchangedPaths then return journal
          else do
            guarded run.ctx.env run.tx.journalPath journal
              (placeFile run.ctx.env run.tx.root run.tx.stageRoot run.tx.backupRoot file)
            guarded run.ctx.env run.tx.journalPath (journal.commit file.path)
              (writeJournal run.ctx.env true run.tx.journalPath (journal.commit file.path))
            return journal.commit file.path) next.files journal
        commitTransaction run.ctx.env next run.tx.root run.tx.journalPath run.tx.backupRoot journal
        guarded run.ctx.env run.tx.journalPath { journal with state := .committed }
          (deleteStaging run.ctx.env run.tx.stageRoot)
        return ({
          reusedInstalledBytes := staging.reusedInstalledBytes
          reconstructedBytes := staging.reconstructedBytes
          addedFiles := next.files.countP fun file ↦ (findFile previous.files file.path).isNone
          changedFiles := staging.changedFiles
          removedFiles := (removedFiles previous next).length } : UpdateSummary))
      run.SafeUntilSaved
      (fun summary world ↦ summary.reusedInstalledBytes + summary.reconstructedBytes =
          (next.files.map FileRecipe.size).sum ∧
        run.Updated previous.files (removedFiles previous next) world.tree)
      fun _ _ ↦ True := by
  have hcall {α : Type} {task : Task fold α} {before : FileTree fold → Prop}
      {after : α → FileTree fold → Prop} (h : run.ctx.Keeps before task after run.Laid) :
      Ensures (run.ctx.frame before) task run.SafeUntilSaved (fun value ↦ run.ctx.frame (after value))
        fun _ _ ↦ True :=
    Ensures.mono h (fun _ hworld ↦ hworld) (fun _ ↦ safeUntilSaved_of_always)
      (fun _ _ hworld ↦ hworld) fun _ _ _ ↦ trivial
  have hnot := run.not_favourable
  rw [← hfiles]
  refine ensures_bind _ (hcall ((keeps_createWorkDirectories hupdate).mono (fun tree htree ↦ ?_)
    (fun _ _ htree ↦ htree) fun _ htree ↦ htree)) fun _ ↦ ?_
  · rw [htree]
    exact layout_start
  refine ensures_bind _ (hcall (keeps_startUpdate hupdate _)) fun _ ↦ ?_
  refine ensures_bind _ (hcall (keeps_guarded hnot stable_laid (keeps_stageFiles hupdate)))
    fun staging ↦ ensures_of_state fun staged hstaged ↦ ?_
  have hprogress := hstaged.2.2.2.1
  refine Ensures.mono (?_ : Ensures (run.ctx.frame (run.Carries [] [] [] (run.Staged fun file ↦
    file ∈ run.files ∧ file.path ∉ staging.unchangedPaths))) _ run.SafeUntilSaved _ fun _ _ ↦ True)
    ?_ (fun _ hworld ↦ hworld) (fun _ _ hworld ↦ hworld) fun _ _ _ ↦ trivial
  swap
  · rintro _ rfl
    exact ⟨hstaged.1, hstaged.2.1, hstaged.2.2.1, hstaged.2.2.2.2⟩
  refine ensures_bind _ (hcall (keeps_removeFiles hupdate (fun old hold ↦
    howned old (mem_of_mem_filter hold)) dependsOn_staged _)) fun journal ↦ ?_
  refine ensures_bind _ (hcall (keeps_placeFiles hupdate staging.unchangedPaths journal))
    fun journal ↦ ?_
  refine ensures_bind _ (ensures_commitTransaction hbound (dependsOn_staged_of_commit hupdate)
    next journal) fun _ ↦ ensures_of_state fun settled hsettled ↦ ?_
  obtain ⟨saved, htime, hlate, hframe⟩ := hsettled
  have hlast : (run.recorded saved).ctx.Keeps
      ((run.recorded saved).Settled (removedFiles previous next)
        (run.files.filter fun file ↦ file.path ∉ staging.unchangedPaths)
        ((run.recorded saved).Staged fun _ ↦ False))
      (guarded run.ctx.env run.tx.journalPath { journal with state := .committed }
        (deleteStaging run.ctx.env run.tx.stageRoot)) _ fun _ ↦ True :=
    keeps_guarded (run.recorded saved).not_favourable
      ⟨fun _ _ ↦ trivial, fun _ _ _ _ ↦ trivial⟩ (keeps_deleteStaging fun _ ↦ trivial)
  refine ensures_bind _ (Ensures.mono hlast ?_
    (fun _ ↦ safeUntilSaved_of_recorded hbound htime hlate) (fun _ _ hworld ↦ hworld)
    fun _ _ _ ↦ trivial) fun _ ↦ ensures_pure fun world hworld ↦ ?_
  · rintro _ rfl
    exact hframe
  · obtain ⟨⟨placed, backed, hplaced, houtside⟩, hjournal, hbackups, hstaging⟩ := hworld.2.2.2
    refine ⟨hprogress.bytes, ⟨staging.unchangedPaths, placed, backed, hprogress.reused,
      progress_of_recorded hplaced, houtside⟩, hjournal, hbackups, hstaging⟩

end TransactionRun

end GameLauncher.Installation
