import GameLauncher.Installation.TransactionRuns

/-!
# The end of a transaction

Once its files are in place a transaction is recorded, its backups are deleted and its journal is
removed. Up to and including the state that the write to the table leaves, every tree has a layout;
after it nothing of the transaction is needed any more, and `Settled` is what a transaction that
returns leaves.
-/

set_option autoImplicit false

namespace GameLauncher.Installation

open Foundation Fallible Manifests Process FileTree

variable {fold : Char → Char}

/-- The table has not been written since a given time, or it has just been written. -/
def NotYetSaved (savedAt : Option ℕ) (world : World fold) : Prop :=
  world.savedAt = savedAt ∨ world.savedAt = some world.clock

/-- Nothing exists at or below a directory. -/
def Absent (directory : Path) (tree : FileTree fold) : Prop :=
  ∀ path, Below fold directory path → tree.node path = none

variable {tree : FileTree fold}

theorem absent_of_node_eq_none {directory : Path} (h : tree.node directory = none) :
    Absent directory tree := by
  intro path hpath
  by_cases hkey : pathKey fold directory = pathKey fold path
  · rw [← tree.node_congr hkey, h]
  · exact node_eq_none_of_ancestor (by simp [h]) hpath hkey

variable {made : FileTree fold}

theorem absent_of_deleteDirectory {directory : Path} (h : tree.deleteDirectory directory = .ok made)
    : Absent directory made := by
  intro path hpath
  rw [deleteDirectory_eq_ok h path]
  exact if_pos hpath

namespace TransactionRun

open Context

variable {run : TransactionRun fold} {removed done : List FileRecipe}
  {placed : List (FileRecipe × Bytes)} {backed : List Path} {fact : FileTree fold → Prop}

/-- The rest of the transaction, once it is recorded. -/
def recorded (run : TransactionRun fold) (world : World fold) : TransactionRun fold :=
  { run with
    ctx := {
      env := run.ctx.env
      installed := world.installed
      savedAt := world.savedAt
      bound := world.clock
      safe := fun _ ↦ True
      favourable := False
      quiet := False.elim }
    safe_of_layout := fun _ _ _ _ _ ↦ trivial
    not_favourable := fun himpossible ↦ himpossible }

/-- What a transaction leaves: the unmarked paths are those of the layout, and its journal and its
backups are gone. -/
structure Settled (run : TransactionRun fold) (removed done : List FileRecipe)
    (fact : FileTree fold → Prop) (tree : FileTree fold) : Prop where
  outside : ∃ placed backed, run.Progress removed done placed backed ∧
    run.tx.Outside run.files placed backed tree
  fact : fact tree
  journal : tree.node run.tx.journalPath = none
  backups : Absent run.tx.backupRoot tree

theorem outside_of_marked_change (h : run.tx.Outside run.files placed backed tree)
    (hmade : ChangedOnly (Mentions fold run.tx.id) tree made) :
    run.tx.Outside run.files placed backed made := by
  intro path hpath
  rw [hmade.node_eq hpath]
  exact h path hpath

theorem stable_inPlace (hfact : DependsOn (Below fold run.tx.stageRoot) fact) :
    run.ctx.Stable (JournalFiles fold run.tx.journalPath) (run.InPlace removed done fact) := by
  refine ⟨fun tree htree ↦ htree.laid.safe, fun tree made htree hmade ↦ ?_⟩
  obtain ⟨attempted, placed, backed, hprogress, hcarries⟩ := htree
  exact ⟨attempted, placed, backed, hprogress,
    (stable_carries hfact).keeps tree made hcarries hmade⟩

/-! ### Cleaning up -/

theorem InPlace.absent_of_not_exists (h : run.InPlace removed done fact tree)
    (hexists : tree.directoryExists run.tx.backupRoot = false) : Absent run.tx.backupRoot tree := by
  obtain ⟨attempted, placed, backed, -, hlayout, -⟩ := h
  refine absent_of_node_eq_none ?_
  have hnode := hlayout.backups []
  rw [List.append_nil, List.append_nil] at hnode
  rcases hnode with hnone | ⟨-, hdirectory, -⟩
  · rw [hnone, Transaction.backupNode, List.append_nil,
      if_neg (Transaction.not_isBacked_root hlayout)]
  · rw [FileTree.directoryExists, hdirectory] at hexists
    cases hexists

theorem journalPath_not_below_backup : ¬ Below fold run.tx.backupRoot run.tx.journalPath := by
  intro hbelow
  obtain ⟨below, hkey, -⟩ := exists_append_of_leading hbelow
  refine run.tx.not_below_root_of_beside (mentions_singleton (infix_workName _ _ _)) below
    (?_ : pathKey fold run.tx.root <+: pathKey fold (run.tx.backupRoot ++ below))
  rw [hkey]
  exact run.tx.root_prefix_append _

theorem InPlace.of_deleteDirectory (h : run.InPlace removed done fact tree)
    (hfact : DependsOn (fun path ↦ Below fold run.tx.stageRoot path ∧
      ¬ Below fold run.tx.backupRoot path) fact)
    (hmade : tree.deleteDirectory run.tx.backupRoot = .ok made) :
    (∃ placed backed, run.Progress removed done placed backed ∧
      run.tx.Outside run.files placed backed made) ∧ fact made := by
  obtain ⟨attempted, placed, backed, hprogress, hlayout, hheld⟩ := h
  have hnode := deleteDirectory_eq_ok hmade
  refine ⟨⟨placed, backed, hprogress, outside_of_marked_change hlayout.outside fun path hpath ↦ ?_⟩,
    hfact tree made hheld fun path hpath ↦ (hnode path).trans (if_neg hpath.2)⟩
  have hbelow : Below fold run.tx.backupRoot path := by
    by_contra hother
    exact hpath ((hnode path).trans (if_neg hother))
  refine mentions_of_leading hbelow ?_
  simpa using run.tx.mentions_backup []

theorem settled_of_deleteFile (houtside : ∃ placed backed, run.Progress removed done placed backed ∧
      run.tx.Outside run.files placed backed tree) (hheld : fact tree)
    (habsent : Absent run.tx.backupRoot tree) (hfact : DependsOn (Below fold run.tx.stageRoot) fact)
    (hmade : tree.deleteFile run.tx.journalPath = .ok made) :
    run.Settled removed done fact made := by
  obtain ⟨hchanged, hnode⟩ := changedOnly_deleteFile hmade
  obtain ⟨placed, backed, hprogress, hout⟩ := houtside
  refine ⟨⟨placed, backed, hprogress, outside_of_marked_change hout (hchanged.mono fun path hpath ↦
    (mentions_congr hpath).mpr run.tx.mentions_journalPath)⟩, hfact tree made hheld fun path hpath ↦
      hchanged.node_eq fun hkey ↦ not_journalFiles_of_stage hpath (.inl hkey), hnode,
      fun path hpath ↦ ?_⟩
  rw [hchanged.node_eq fun hkey ↦ ?_]
  · exact habsent path hpath
  · refine absurd (?_ : Below fold run.tx.backupRoot run.tx.journalPath) journalPath_not_below_backup
    rw [Below, ← hkey]
    exact hpath

variable (run) in
theorem keeps_cleanupTransaction
    (hfact : DependsOn (fun path ↦ Below fold run.tx.stageRoot path ∧
      ¬ Below fold run.tx.backupRoot path) fact) {content : Bytes}
    (hsafe : ∀ tree, run.ctx.safe tree) :
    run.ctx.Keeps (fun tree ↦ run.InPlace removed done fact tree ∧
        tree.node run.tx.journalPath = some (.file content))
      (cleanupTransaction run.ctx.env run.tx.journalPath run.tx.backupRoot)
      (fun _ ↦ run.Settled removed done fact) fun _ ↦ True := by
  have hnot := run.not_favourable
  have hstage : DependsOn (Below fold run.tx.stageRoot) fact := fun tree made hheld hsame ↦
    hfact tree made hheld fun path hpath ↦ hsame path hpath.1
  -- the second half, on a tree without backups
  have hjournal : run.ctx.Keeps (fun tree ↦ ((∃ placed backed, run.Progress removed done placed
      backed ∧ run.tx.Outside run.files placed backed tree) ∧ fact tree ∧
      Absent run.tx.backupRoot tree) ∧ tree.node run.tx.journalPath = some (.file content))
      (do
        let journaled ← inspect fun tree ↦ tree.fileExists run.tx.journalPath
        if journaled then operation run.ctx.env fun tree ↦ tree.deleteFile run.tx.journalPath
        else pure ())
      (fun _ ↦ run.Settled removed done fact) fun _ ↦ True := by
    refine keeps_bind (fun journaled tree ↦ journaled = true ∧ ((∃ placed backed,
      run.Progress removed done placed backed ∧ run.tx.Outside run.files placed backed tree) ∧
      fact tree ∧ Absent run.tx.backupRoot tree))
      (keeps_inspect fun tree htree ↦ ⟨by rw [FileTree.fileExists, htree.2], htree.1⟩)
      fun journaled ↦ keeps_assume fun hjournaled ↦ ?_
    rw [if_pos hjournaled]
    refine keeps_operation_of_ok hnot (fun tree _ ↦ hsafe tree) (fun _ _ ↦ trivial)
      fun tree made htree hmade ↦ ⟨hsafe made, ?_⟩
    exact settled_of_deleteFile htree.1 htree.2.1 htree.2.2 hstage hmade
  refine keeps_bind (fun backedUp tree ↦ (run.InPlace removed done fact tree ∧
    tree.node run.tx.journalPath = some (.file content)) ∧
      backedUp = tree.directoryExists run.tx.backupRoot)
    (keeps_inspect fun tree htree ↦ ⟨htree, rfl⟩) fun backedUp ↦ ?_
  refine keeps_ite (fun _ ↦ ?_) fun hbackedUp ↦ ?_
  · refine keeps_bind (fun _ tree ↦ ((∃ placed backed, run.Progress removed done placed backed ∧
      run.tx.Outside run.files placed backed tree) ∧ fact tree ∧ Absent run.tx.backupRoot tree) ∧
      tree.node run.tx.journalPath = some (.file content))
      (keeps_operation_of_ok hnot (fun tree _ ↦ hsafe tree) (fun _ _ ↦ trivial)
        fun tree made htree hmade ↦ ⟨hsafe made, ?_⟩) fun _ ↦ hjournal
    obtain ⟨houtside, hheld⟩ := htree.1.1.of_deleteDirectory hfact hmade
    refine ⟨⟨houtside, hheld, absent_of_deleteDirectory hmade⟩, ?_⟩
    rw [deleteDirectory_eq_ok hmade]
    exact (if_neg journalPath_not_below_backup).trans htree.1.2
  · refine hjournal.mono (fun tree htree ↦ ⟨⟨?_, ?_, ?_⟩, htree.1.2⟩) (fun _ _ htree ↦ htree)
      fun _ htree ↦ htree
    · obtain ⟨attempted, placed, backed, hprogress, hlayout, -⟩ := htree.1.1
      exact ⟨placed, backed, hprogress, hlayout.outside⟩
    · obtain ⟨attempted, placed, backed, -, -, hheld⟩ := htree.1.1
      exact hheld
    · exact htree.1.1.absent_of_not_exists (by rw [← htree.2]; simpa using hbackedUp)

/-! ### The commit -/

variable {world : World fold}

/-- What every state satisfies: as long as the table has not been written, or was written by the
step that led to the state, its tree is safe. -/
def SafeUntilSaved (run : TransactionRun fold) (world : World fold) : Prop :=
  NotYetSaved run.ctx.savedAt world → run.ctx.safe world.tree

theorem safeUntilSaved_of_always (h : run.ctx.always world) : run.SafeUntilSaved world :=
  fun _ ↦ h.2.2.2

/-- The last write to the table before the run was not later than its start, or nothing is asked of
the trees. -/
def WellTimed (run : TransactionRun fold) : Prop :=
  (∀ time, run.ctx.savedAt = some time → time ≤ run.ctx.bound) ∨ ∀ tree, run.ctx.safe tree

/-- Nothing is asked of what comes after the write to the table. -/
theorem safeUntilSaved_of_recorded (hbound : run.WellTimed) {saved : World fold}
    (hsaved : saved.savedAt = some saved.clock) (hlate : run.ctx.bound < saved.clock)
    (h : (run.recorded saved).ctx.always world) : run.SafeUntilSaved world := by
  rcases hbound with hbound | hsafe
  swap
  · exact fun _ ↦ hsafe world.tree
  obtain ⟨-, hsame, hlater, -⟩ := h
  have htime : world.savedAt = some saved.clock := hsame.trans hsaved
  rintro (hbefore | hnow)
  · have hle := hbound saved.clock (hbefore.symm.trans htime)
    omega
  · have heq : world.clock = saved.clock := Option.some.inj (hnow.symm.trans htime)
    exact absurd hlater (by rw [heq]; exact Nat.lt_irrefl _)

theorem inPlace_recorded (h : run.InPlace removed done fact tree) :
    (run.recorded world).InPlace removed done fact tree := by
  obtain ⟨attempted, placed, backed, hprogress, hcarries⟩ := h
  exact ⟨attempted, placed, backed, ⟨hprogress.placed_done, hprogress.done_placed,
    hprogress.backed_from, hprogress.removed_gone⟩, hcarries⟩

theorem progress_of_recorded (h : (run.recorded world).Progress removed done placed backed) :
    run.Progress removed done placed backed :=
  ⟨h.placed_done, h.done_placed, h.backed_from, h.removed_gone⟩

theorem ensures_save (hfact : DependsOn (Below fold run.tx.stageRoot) fact)
    {manifest : Manifest} {journal : TransactionJournal} :
    Ensures (run.ctx.frame (run.InPlace removed done fact))
      (guarded run.ctx.env run.tx.journalPath journal (do
        writeJournal run.ctx.env true run.tx.journalPath journal
        throwIfCancellationRequested run.ctx.env
        saveInstalledGame run.ctx.env (installedGame manifest run.tx.root)))
      run.SafeUntilSaved
      (fun _ world ↦ run.InPlace removed done fact world.tree ∧
        world.savedAt = some world.clock ∧ run.ctx.bound < world.clock)
      fun _ _ ↦ True := by
  have hnot := run.not_favourable
  have hlaid : ∀ tree, run.InPlace removed done fact tree → run.Laid tree :=
    fun tree htree ↦ htree.laid
  have hcall {task : Task fold Unit}
      (h : run.ctx.Keeps (run.InPlace removed done fact) task
        (fun _ ↦ run.InPlace removed done fact) run.Laid) :
      Ensures (run.ctx.frame (run.InPlace removed done fact)) task run.SafeUntilSaved
        (fun _ ↦ run.ctx.frame (run.InPlace removed done fact))
        fun _ ↦ run.ctx.frame run.Laid :=
    Ensures.mono h (fun _ hworld ↦ hworld) (fun _ ↦ safeUntilSaved_of_always)
      (fun _ _ hworld ↦ hworld) fun _ _ hworld ↦ hworld.1
  refine ensures_tryCatch (fun _ ↦ run.ctx.frame run.Laid) ?_ fun failure ↦
    Ensures.mono (keeps_journalHandler hnot stable_laid :
      run.ctx.Keeps run.Laid _ (fun _ _ ↦ False) run.Laid) (fun _ hworld ↦ hworld)
      (fun _ ↦ safeUntilSaved_of_always) (fun _ _ hworld ↦ hworld.2.2.2.elim)
      fun _ _ _ ↦ trivial
  refine ensures_bind _ (hcall ((keeps_writeJournal hnot (stable_inPlace hfact)).mono
    (fun _ htree ↦ htree) (fun _ _ htree ↦ htree.1) hlaid)) fun _ ↦ ?_
  refine ensures_bind _ (hcall (keeps_throwIfCancellationRequested hlaid))
    fun _ ↦ ensures_step (fun world hworld ↦ ?_) (fun world value hworld hvalue ↦ ?_)
      fun world failure hworld hfailure ↦ ?_
  · intro _
    cases hfault : run.ctx.env.databaseFault world.clock <;> exact hworld.2.2.2.laid.safe
  · cases hfault : run.ctx.env.databaseFault world.clock with
    | true => simp only [hfault, if_true, reduceCtorEq] at hvalue
    | false => exact ⟨hworld.2.2.2, rfl, Nat.lt_succ_of_le hworld.2.2.1⟩
  · cases hfault : run.ctx.env.databaseFault world.clock with
    | true => exact frame_tick ⟨hworld.1, hworld.2.1, hworld.2.2.1, hlaid _ hworld.2.2.2⟩
    | false => simp only [hfault, Bool.false_eq_true, if_false, reduceCtorEq] at hfailure

/-- A commit that returns leaves a settled tree, and every tree up to the write to the table is
safe. -/
theorem ensures_commitTransaction
    (hbound : run.WellTimed)
    (hfact : DependsOn (fun path ↦ Below fold run.tx.stageRoot path ∧
      ¬ Below fold run.tx.backupRoot path) fact)
    (manifest : Manifest) (journal : TransactionJournal) :
    Ensures (run.ctx.frame (run.InPlace removed done fact))
      (commitTransaction run.ctx.env manifest run.tx.root run.tx.journalPath run.tx.backupRoot
        journal)
      run.SafeUntilSaved
      (fun _ world ↦ ∃ saved : World fold, saved.savedAt = some saved.clock ∧
        run.ctx.bound < saved.clock ∧
        (run.recorded saved).ctx.frame ((run.recorded saved).Settled removed done fact) world)
      fun _ _ ↦ True := by
  have hstage : DependsOn (Below fold run.tx.stageRoot) fact := fun tree made hheld hsame ↦
    hfact tree made hheld fun path hpath ↦ hsame path hpath.1
  refine ensures_bind _ (ensures_save hstage) fun _ ↦ ensures_of_state fun saved hsaved ↦ ?_
  obtain ⟨hinPlace, htime, hlate⟩ := hsaved
  have hnot : ¬ (run.recorded saved).ctx.favourable := (run.recorded saved).not_favourable
  have hclean : (run.recorded saved).ctx.Keeps ((run.recorded saved).InPlace removed done fact)
      (guarded run.ctx.env run.tx.journalPath { journal with state := .committed } (do
        writeJournal run.ctx.env true run.tx.journalPath { journal with state := .committed }
        cleanupTransaction run.ctx.env run.tx.journalPath run.tx.backupRoot))
      (fun _ ↦ (run.recorded saved).Settled removed done fact) fun _ ↦ True := by
    refine keeps_guarded hnot ⟨fun _ _ ↦ trivial, fun _ _ _ _ ↦ trivial⟩ ?_
    have hstable : (run.recorded saved).ctx.Stable (JournalFiles fold run.tx.journalPath)
        ((run.recorded saved).InPlace removed done fact) := stable_inPlace hstage
    exact keeps_bind _ ((keeps_writeJournal hnot hstable).mono (fun _ htree ↦ htree)
      (fun _ _ htree ↦ htree) fun _ _ ↦ trivial) fun _ ↦
        keeps_cleanupTransaction (run.recorded saved) hfact fun _ ↦ trivial
  refine Ensures.mono hclean ?_ (fun _ ↦ safeUntilSaved_of_recorded hbound htime hlate)
    (fun _ world hworld ↦ ⟨saved, htime, hlate, hworld⟩) fun _ _ _ ↦ trivial
  rintro _ rfl
  exact ⟨rfl, rfl, Nat.le_refl _, inPlace_recorded hinPlace⟩

end TransactionRun

end GameLauncher.Installation
