import GameLauncher.Installation.UpdateResult

/-!
# No original is lost before the commit

Every file that an installation or an update finds under its root is at its path or at the same
path in the backup directory, in every state up to and including the one that the write to the table
of installed games leaves, however the run ends. Different files have different backups.
-/

set_option autoImplicit false

namespace GameLauncher.Installation

open Foundation Fallible Manifests Process Context TransactionRun

variable {fold : Char → Char}

/-- An installation, step by step: up to the write to the table no file is lost. -/
theorem ensures_installAsync (env : Environment fold) (manifest : Manifest) (root : Path)
    (id : Text) (world : World fold) (hfresh : Fresh id root manifest.files world.tree) :
    Ensures (fun start ↦ start = world) (installAsync env manifest root id)
      (KeptUntilSaved root (backupRootOf root .install id) world)
      (fun _ _ ↦ True) fun _ _ ↦ True := by
  refine Ensures.mono (?_ : Ensures ((startContext env world root (backupRootOf root .install
    id)).frame fun tree ↦ tree = world.tree) _ _ (fun _ _ ↦ True) _) ?_ (fun _ h ↦ h)
    (fun _ _ h ↦ h) fun _ _ h ↦ h
  swap
  · rintro _ rfl
    exact ⟨rfl, rfl, Nat.le_refl _, rfl⟩
  refine ensures_bind _ ensures_lift_start fun _ ↦ ensures_frame_assume fun hmanifest ↦ ?_
  refine ensures_bind _ ensures_ensureSafeRoot_start fun _ ↦ ?_
  refine ensures_bind _ ensures_lift_start fun _ ↦ ensures_frame_assume fun _ ↦ ?_
  refine ensures_bind _ ensures_lift_start fun _ ↦ ensures_frame_assume fun _ ↦ ?_
  refine ensures_bind _ ensures_lift_start fun _ ↦ ensures_frame_assume fun hroot ↦ ?_
  refine ensures_of_state fun begun hbegun ↦ ?_
  let run : TransactionRun fold := startedRun env .install hfresh hbegun.2.2.2
    (throwIf_eq_ok.mp hroot) (fun _ hfile ↦ hfile)
    (distinct_of_validate (mapError_eq_ok.mp hmanifest))
  have hjournal {path : Path} {journal : TransactionJournal} (hpath : path = run.tx.journalPath) :
      run.ctx.Keeps (fun tree ↦ tree = run.tx.start) (writeJournal env true path journal)
        (fun _ ↦ run.InPlace [] [] fun _ ↦ True) run.Laid := by
    rw [hpath]
    refine (keeps_writeJournal run.not_favourable stable_begun).mono (fun tree htree ↦ ?_)
      (fun _ tree htree ↦ ⟨[], [], [], progress_start, htree.1, trivial⟩)
      fun tree htree ↦ ⟨[], [], [], htree⟩
    rw [htree]
    exact Transaction.layout_start
  have hcall {β : Type} {task : Task fold β} {before : FileTree fold → Prop}
      {after : β → FileTree fold → Prop} (h : run.ctx.Keeps before task after run.Laid) :
      Ensures (run.ctx.frame before) task (KeptUntilSaved root (backupRootOf root .install id) world)
        (fun value ↦ run.ctx.frame (after value)) fun _ _ ↦ True :=
    ensures_of_keeps_start (h.mono (fun _ h ↦ h) (fun _ _ h ↦ h) fun _ _ ↦ trivial)
  refine Ensures.mono (?_ : Ensures (run.ctx.frame fun tree ↦ tree = run.tx.start) _
    (KeptUntilSaved root (backupRootOf root .install id) world) (fun _ _ ↦ True) _) ?_ (fun _ h ↦ h)
    (fun _ _ h ↦ h) fun _ _ h ↦ h
  swap
  · rintro _ rfl
    exact ⟨hbegun.1, hbegun.2.1, hbegun.2.2.1, rfl⟩
  refine ensures_bind _ (hcall (hjournal rfl)) fun _ ↦ ?_
  refine ensures_bind _ (hcall (keeps_installFiles _)) fun journal ↦ ?_
  exact Ensures.mono (ensures_commitTransaction wellTimed_startedRun
    (fun _ _ _ _ ↦ trivial) manifest journal) (fun _ h ↦ h) (fun _ h ↦ h) (fun _ _ _ ↦ trivial)
    fun _ _ h ↦ h

/-- No installation and no update loses a file before it has written the table of installed games,
and different files are backed up at different paths.

Assumes: the last write to the table was not later than the start, and the identifier is new. -/
theorem originals_kept (env : Environment fold) (root : Path) (id : Text) (world : World fold)
    (hclock : world.WellTimed) :
    (∀ manifest : Manifest, Fresh id root manifest.files world.tree →
      ∀ reached ∈ (installAsync env manifest root id world).visited,
        NotYetSaved world.savedAt reached →
          Kept root (backupRootOf root .install id) world.tree reached.tree) ∧
      (∀ previous next : Manifest, Fresh id root (previous.files ++ next.files) world.tree →
        ∀ reached ∈ (updateAsync env previous next root id world).visited,
          NotYetSaved world.savedAt reached →
            Kept root (backupRootOf root .update id) world.tree reached.tree) ∧
      ∀ (operation : Operation) (first second : Path),
        pathKey fold (root ++ first) ≠ pathKey fold (root ++ second) →
          pathKey fold (backupRootOf root operation id ++ first) ≠
            pathKey fold (backupRootOf root operation id ++ second) := by
  refine ⟨fun manifest hfresh reached hreached hunsaved ↦ ?_,
    fun previous next hfresh reached hreached hunsaved ↦ ?_, fun operation first second hne hkey ↦ ?_⟩
  · obtain ⟨hvisited, -, -⟩ := ensures_installAsync env manifest root id world hfresh world rfl
    exact hvisited reached hreached hunsaved hclock
  · obtain ⟨hvisited, -, -⟩ := ensures_updateAsync env previous next root id world hfresh world rfl
    exact hvisited reached hreached hunsaved hclock
  · rw [pathKey_append, pathKey_append, List.append_cancel_left_eq] at hkey
    exact hne (by rw [pathKey_append, pathKey_append, hkey])

/-- The new build over the old one, installed or as an update. -/
theorem originals_kept_oldBuild :
    (∀ reached ∈ (installAsync updateEnvironment newBuild gameRoot updateId oldWorld).visited,
      NotYetSaved oldWorld.savedAt reached →
        Kept gameRoot (backupRootOf gameRoot .install updateId) oldWorld.tree reached.tree) ∧
      ∀ reached ∈ (updateAsync updateEnvironment oldBuild newBuild gameRoot updateId
          oldWorld).visited, NotYetSaved oldWorld.savedAt reached →
        Kept gameRoot (backupRootOf gameRoot .update updateId) oldWorld.tree reached.tree := by
  have hclock : oldWorld.WellTimed := fun _ htime ↦ absurd htime.symm (Option.some_ne_none _)
  have hkept := originals_kept updateEnvironment gameRoot updateId oldWorld hclock
  refine ⟨hkept.1 newBuild ⟨fresh_updateId.tree, fresh_updateId.root, fun file hfile ↦
    fresh_updateId.files file (List.mem_append_right _ hfile)⟩, hkept.2.1 oldBuild newBuild
      fresh_updateId⟩

end GameLauncher.Installation
