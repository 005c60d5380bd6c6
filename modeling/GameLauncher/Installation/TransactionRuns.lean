import GameLauncher.Installation.InstallerSteps

/-!
# Transactions under way

`TransactionRun` is a stretch of a transaction before it is recorded: every tree that it visits has
a layout. The lemmas say what one round of each loop of `InstallAsync` and `UpdateAsync` does to the
layout: which files it puts in place with which contents, and which originals it backs up.
-/

set_option autoImplicit false

namespace GameLauncher.Installation

open Foundation Fallible Manifests Process List Transaction

variable {fold : Char → Char}

/-- A stretch of a transaction before it is recorded. The files are those of the new build, and the
owned files those of both builds. -/
structure TransactionRun (fold : Char → Char) where
  tx : Transaction fold
  ctx : Context fold
  files : List FileRecipe
  owned : FileRecipe → Prop
  owned_of_mem : ∀ file ∈ files, owned file
  distinct : files.Pairwise fun earlier later ↦
    pathKey fold (names earlier.path) ≠ pathKey fold (names later.path)
  unmarked : ∀ file, owned file → ¬ Mentions fold tx.id (names file.path)
  safe_of_layout : ∀ attempted placed backed tree, tx.Layout files attempted placed backed tree →
    ctx.safe tree
  not_favourable : ¬ ctx.favourable

namespace TransactionRun

open Context

variable (run : TransactionRun fold)

/-- The tree has some layout. -/
def Laid (tree : FileTree fold) : Prop :=
  ∃ attempted placed backed, run.tx.Layout run.files attempted placed backed tree

/-- Marked paths that are not backups. -/
def WorkArea (path : Path) : Prop :=
  Mentions fold run.tx.id path ∧ ¬ Below fold run.tx.backupRoot path

def DependsOn (region : Path → Prop) (fact : FileTree fold → Prop) : Prop :=
  ∀ tree made, fact tree → (∀ path, region path → made.node path = tree.node path) → fact made

/-- The tree has the given layout, and a further fact holds of it. -/
def Carries (attempted : List FileRecipe) (placed : List (FileRecipe × Bytes)) (backed : List Path)
    (fact : FileTree fold → Prop) (tree : FileTree fold) : Prop :=
  run.tx.Layout run.files attempted placed backed tree ∧ fact tree

def LaidAs (attempted : List FileRecipe) (placed : List (FileRecipe × Bytes))
    (tree : FileTree fold) : Prop :=
  ∃ backed, run.tx.Layout run.files attempted placed backed tree

variable {run} {attempted : List FileRecipe} {placed : List (FileRecipe × Bytes)}
  {backed : List Path} {fact : FileTree fold → Prop} {file : FileRecipe}

variable {tree : FileTree fold}

theorem LaidAs.laid (h : run.LaidAs attempted placed tree) : run.Laid tree := by
  obtain ⟨backed, hlayout⟩ := h
  exact ⟨attempted, placed, backed, hlayout⟩

theorem Carries.laidAs (h : run.Carries attempted placed backed fact tree) :
    run.LaidAs attempted placed tree :=
  ⟨backed, h.1⟩

theorem Carries.safe (h : run.Carries attempted placed backed fact tree) : run.ctx.safe tree :=
  run.safe_of_layout attempted placed backed tree h.1

theorem Laid.safe (h : run.Laid tree) : run.ctx.safe tree := by
  obtain ⟨attempted, placed, backed, hlayout⟩ := h
  exact run.safe_of_layout attempted placed backed tree hlayout

/-! ### What the methods leave alone -/

theorem layout_of_journal {made : FileTree fold}
    (h : run.tx.Layout run.files attempted placed backed tree)
    (hmade : ChangedOnly (JournalFiles fold run.tx.journalPath) tree made) :
    run.tx.Layout run.files attempted placed backed made := by
  refine h.of_work_change (fun _ hfile ↦ hfile) fun path hpath ↦ ?_
  rcases hmade path hpath with hjournal | hpart
  · exact .inl hjournal
  · exact .inr (.inl hpart)

theorem stable_laid : run.ctx.Stable (JournalFiles fold run.tx.journalPath) run.Laid where
  safe := fun _ htree ↦ htree.safe
  keeps := by
    rintro tree made ⟨attempted, placed, backed, hlayout⟩ hmade
    exact ⟨attempted, placed, backed, layout_of_journal hlayout hmade⟩

theorem not_journalFiles_of_stage {path : Path} (h : Below fold run.tx.stageRoot path) :
    ¬ JournalFiles fold run.tx.journalPath path := by
  have hroot := not_below_root_of_stage h
  rintro (hkey | hkey)
  · refine hroot ?_
    rw [Below, hkey]
    exact run.tx.root_prefix_append _
  · refine hroot ?_
    rw [Below, hkey]
    change pathKey fold run.tx.root <+: pathKey fold run.tx.journalPart
    rw [run.tx.journalPart_eq]
    exact run.tx.root_prefix_append _

theorem stable_carries (hfact : DependsOn (Below fold run.tx.stageRoot) fact) :
    run.ctx.Stable (JournalFiles fold run.tx.journalPath)
      (run.Carries attempted placed backed fact) where
  safe := fun _ htree ↦ htree.safe
  keeps := by
    intro tree made htree hmade
    refine ⟨layout_of_journal htree.1 hmade, hfact tree made htree.2 fun path hpath ↦ ?_⟩
    exact hmade.node_eq (not_journalFiles_of_stage hpath)

theorem layout_of_temporary {made : FileTree fold} (hfile : file ∈ attempted)
    (h : run.tx.Layout run.files attempted placed backed tree)
    (hmade : ChangedOnly (At fold (run.tx.temporary file)) tree made) :
    run.tx.Layout run.files attempted placed backed made :=
  h.of_work_change (fun _ hother ↦ hother) fun path hpath ↦
    .inr (.inr ⟨file, hfile, hmade path hpath⟩)

/-! ### Backing up -/

/-- What a backup leaves: the destination holds no file, and at most the file that was there has
been backed up. -/
def BackedUp (run : TransactionRun fold) (attempted : List FileRecipe)
    (placed : List (FileRecipe × Bytes)) (backed : List Path) (fact : FileTree fold → Prop)
    (file : FileRecipe) (tree : FileTree fold) : Prop :=
  ∃ after, (after = backed ∨ after = names file.path :: backed) ∧
    run.Carries attempted placed after fact tree ∧
    tree.fileExists (run.tx.destination file) = false

theorem keeps_backupExistingFile (howned : run.owned file)
    (hfact : DependsOn run.WorkArea fact)
    (hplaced : run.tx.placedContent placed (run.tx.destination file) = none) :
    run.ctx.Keeps (run.Carries attempted placed backed fact)
      (backupExistingFile run.ctx.env run.tx.root (run.tx.destination file) run.tx.backupRoot)
      (fun _ ↦ run.BackedUp attempted placed backed fact file) (run.LaidAs attempted placed) := by
  have hunmarked := run.unmarked file howned
  have hnot := run.not_favourable
  refine keeps_bind (fun found tree ↦ run.Carries attempted placed backed fact tree ∧
    found = tree.fileExists (run.tx.destination file))
    (keeps_inspect fun tree htree ↦ ⟨htree, rfl⟩) fun found ↦ ?_
  refine keeps_ite (fun hfound ↦ ?_) fun hfound ↦ keeps_pure fun tree htree ↦ ?_
  · refine keeps_bind _ ((keeps_hasReparsePoint hnot fun tree htree ↦ htree.1.safe).mono
      (fun _ htree ↦ htree) (fun _ _ htree ↦ htree) fun _ htree ↦ htree.1.laidAs) fun linked ↦ ?_
    refine keeps_ite (fun _ ↦ keeps_fail_of_not hnot fun _ htree ↦ htree.1.1.laidAs)
      fun hlinked ↦ ?_
    -- a file that exists and is no link
    have hbackup : run.tx.backupRoot ++ (run.tx.destination file).drop run.tx.root.length =
        run.tx.backupRoot ++ names file.path := by
      rw [Transaction.destination, drop_left]
    rw [hbackup]
    refine keeps_bind (fun _ tree ↦ run.Carries attempted placed backed fact tree ∧
      ∃ content, tree.node (run.tx.destination file) = some (.file content))
      (keeps_operation_of_ok hnot (fun _ htree ↦ htree.1.1.safe) (fun _ htree ↦ htree.1.1.laidAs)
        fun tree made htree hmade ↦ ?_) fun _ ↦ keeps_operation_of_ok hnot
          (fun _ htree ↦ htree.1.safe) (fun _ htree ↦ htree.1.laidAs) fun tree made htree hmade ↦ ?_
    · obtain ⟨⟨⟨hlayout, hheld⟩, hexists⟩, hnode⟩ := htree
      obtain ⟨content, hcontent⟩ : ∃ content,
          tree.node (run.tx.destination file) = some (.file content) := by
        rw [hfound] at hexists
        unfold FileTree.fileExists at hexists
        cases hheldNode : tree.node (run.tx.destination file) with
        | none => simp [hheldNode] at hexists
        | some node =>
          cases node with
          | file content => exact ⟨content, rfl⟩
          | directory => simp [hheldNode] at hexists
          | reparsePoint toDirectory =>
            exact absurd hheldNode (hnode (by simpa using hlinked) toDirectory)
      have hdestination := run.tx.not_mentions_destination hunmarked
      obtain ⟨-, hstart⟩ := hlayout.file_of_not_placed hdestination hplaced hcontent (by simp)
      have hkept := hlayout.createDirectory_backup (names_ne_nil _) hstart hmade
      obtain ⟨hextends, -, hchanged⟩ := FileTree.createDirectory_eq_ok hmade
      refine ⟨run.safe_of_layout _ _ _ _ hkept, ⟨hkept, hfact tree made hheld fun path hpath ↦ ?_⟩,
        content, ?_⟩
      · by_contra hne
        rw [dropLast_append_of_ne_nil (names_ne_nil _)] at hchanged
        exact hpath.2 (hlayout.beside_of_changed hextends (hchanged path hne) hne)
      · rcases hextends (run.tx.destination file) with hsame | ⟨hnone, -⟩
        · rw [hsame, hcontent]
        · rw [hnone] at hcontent
          cases hcontent
    · obtain ⟨⟨hlayout, hheld⟩, content, hcontent⟩ := htree
      obtain ⟨hkept, hnone⟩ := hlayout.moveFile_backup hunmarked hplaced hcontent hmade
      obtain ⟨hchanged, -⟩ := changedOnly_moveFile hmade
      refine ⟨run.safe_of_layout _ _ _ _ hkept, names file.path :: backed, .inr rfl, ⟨hkept,
        hfact tree made hheld fun path hpath ↦ hchanged.node_eq ?_⟩, ?_⟩
      · rintro (hkey | hkey)
        · exact run.tx.not_mentions_destination hunmarked ((mentions_congr hkey).mp hpath.1)
        · refine hpath.2 ?_
          rw [Below, hkey]
          exact below_append _ _
      · rw [FileTree.fileExists, hnone]
  · obtain ⟨hcarries, hexists⟩ := htree
    exact ⟨backed, .inl rfl, hcarries, by rw [← hexists]; simpa using hfound⟩

/-! ### Putting a file in place -/

/-- What the placing of a file leaves: it is in place with the content that its recipe prescribes,
and at most the file that was there has been backed up. -/
def Placed (run : TransactionRun fold) (attempted : List FileRecipe)
    (placed : List (FileRecipe × Bytes)) (backed : List Path) (fact : FileTree fold → Prop)
    (file : FileRecipe) (tree : FileTree fold) : Prop :=
  ∃ content after, Matches run.ctx.env file content ∧
    (after = backed ∨ after = names file.path :: backed) ∧
    run.Carries attempted ((file, content) :: placed) after fact tree

theorem keeps_moveFile_destination {source : Path} {finished : FileTree fold → Prop}
    (howned : run.owned file) (hsource : Mentions fold run.tx.id source)
    (hbackup : ∀ relative, pathKey fold (run.tx.backupRoot ++ relative) ≠ pathKey fold source)
    (hplaced : run.tx.placedContent placed (run.tx.destination file) = none)
    (hfinished : ∀ tree, finished tree → Holds run.ctx.env file source tree)
    (hfact : ∀ tree made, finished tree → ChangedOnly (fun path ↦ At fold source path ∨
      At fold (run.tx.destination file) path) tree made → fact made) :
    run.ctx.Keeps (run.BackedUp attempted placed backed finished file)
      (operation run.ctx.env fun tree ↦ tree.moveFile source (run.tx.destination file))
      (fun _ ↦ run.Placed attempted placed backed fact file) (run.LaidAs attempted placed) := by
  refine keeps_operation_of_ok run.not_favourable ?_ ?_ fun tree made htree hmade ↦ ?_
  · rintro tree ⟨after, -, hcarries, -⟩
    exact hcarries.safe
  · rintro tree ⟨after, -, hcarries, -⟩
    exact hcarries.laidAs
  · obtain ⟨after, hafter, ⟨hlayout, hheld⟩, habsent⟩ := htree
    obtain ⟨content, hcontent, hmatches⟩ := hfinished tree hheld
    have hkept := hlayout.moveFile_destination (run.unmarked file howned) hsource hbackup hcontent
      hplaced habsent hmade
    refine ⟨run.safe_of_layout _ _ _ _ hkept, content, after, hmatches, hafter, hkept, ?_⟩
    exact hfact tree made hheld (changedOnly_moveFile hmade).1

/-! ### A round of an installation -/

/-- The tree has a layout in which a file may be under construction. -/
def LaidWith (run : TransactionRun fold) (file : FileRecipe) (tree : FileTree fold) : Prop :=
  ∃ attempted placed backed, file ∈ attempted ∧ run.tx.Layout run.files attempted placed backed tree

theorem temporary_ne_backup (relative : Path) :
    pathKey fold (run.tx.backupRoot ++ relative) ≠ pathKey fold (run.tx.temporary file) := by
  intro hkey
  refine run.tx.not_below_root_of_beside (mentions_singleton (infix_workName run.tx.operation
    run.tx.id ".backup")) relative ?_
  change pathKey fold run.tx.root <+: pathKey fold (run.tx.backupRoot ++ relative)
  rw [hkey, temporary_eq]
  exact run.tx.root_prefix_append _

theorem keeps_installFile (hfile : file ∈ run.files)
    (hplaced : run.tx.placedContent placed (run.tx.destination file) = none) :
    run.ctx.Keeps (run.tx.Layout run.files attempted placed backed)
      (installFile run.ctx.env run.tx.root run.tx.backupRoot run.tx.id file)
      (fun _ ↦ run.Placed (file :: attempted) placed backed (fun _ ↦ True) file) run.Laid := by
  have hnot := run.not_favourable
  have howned := run.owned_of_mem file hfile
  have hlaid : ∀ tree, run.tx.Layout run.files attempted placed backed tree → run.Laid tree :=
    fun tree htree ↦ ⟨attempted, placed, backed, htree⟩
  refine keeps_bind _ (keeps_throwIfCancellationRequested hlaid) fun _ ↦ ?_
  refine keeps_bind _ ((keeps_resolveUnderRoot hnot).mono (fun _ htree ↦ htree)
    (fun _ _ htree ↦ htree) hlaid) fun destination ↦ keeps_assume fun hdestination ↦ ?_
  obtain rfl : destination = run.tx.destination file := hdestination
  refine keeps_bind (fun _ ↦ run.tx.Layout run.files attempted placed backed)
    (keeps_operation_of_ok hnot (fun tree htree ↦ (hlaid tree htree).safe) hlaid
      fun tree made htree hmade ↦ ?_) fun _ ↦ ?_
  · have hkept := htree.createDirectory_destination hfile (run.unmarked file howned) hmade
    exact ⟨run.safe_of_layout _ _ _ _ hkept, hkept⟩
  change run.ctx.Keeps _ (tryFinally (do
    reconstructFile run.ctx.env file (run.tx.temporary file)
    backupExistingFile run.ctx.env run.tx.root (run.tx.destination file) run.tx.backupRoot
    operation run.ctx.env fun tree ↦
      tree.moveFile (run.tx.temporary file) (run.tx.destination file))
    (tryDeleteFile run.ctx.env (run.tx.temporary file))) _ _
  refine (keeps_tryFinally (fun _ ↦ run.Placed (file :: attempted) placed backed (fun _ ↦ True) file)
    (run.LaidWith file) ?_ (fun _ ↦ ensures_tryDeleteFile ⟨?_, ?_⟩)
    (ensures_tryDeleteFile ⟨?_, ?_⟩)).mono (fun _ htree ↦ htree) (fun _ _ htree ↦ htree) ?_
  · have hdepends : DependsOn run.WorkArea
        (Holds run.ctx.env file (run.tx.temporary file)) := by
      intro tree made hfinished hsame
      rw [Holds, hsame _ ⟨run.tx.mentions_temporary file, ?_⟩]
      · exact hfinished
      · intro hbelow
        obtain ⟨below, hkey, -⟩ := FileTree.exists_append_of_leading hbelow
        exact temporary_ne_backup below hkey
    have hlaidWith : ∀ tree, run.LaidAs (file :: attempted) placed tree → run.LaidWith file tree :=
      fun tree ⟨backed, hlayout⟩ ↦ ⟨_, placed, backed, mem_cons_self, hlayout⟩
    have hstable : run.ctx.Stable (At fold (run.tx.temporary file))
        (run.tx.Layout run.files (file :: attempted) placed backed) :=
      ⟨run.safe_of_layout _ _ _, fun tree made ↦ layout_of_temporary mem_cons_self⟩
    refine keeps_bind _ ((keeps_reconstructFile hnot hstable).mono (fun tree htree ↦ ?_)
      (fun _ _ htree ↦ htree) fun tree htree ↦ hlaidWith tree ⟨backed, htree⟩) fun _ ↦ ?_
    · exact htree.of_work_change (fun _ hmem ↦ mem_cons_of_mem _ hmem)
        fun path hpath ↦ absurd rfl hpath
    refine keeps_bind _ ((keeps_backupExistingFile howned hdepends hplaced).mono
      (fun _ htree ↦ htree) (fun _ _ htree ↦ htree) hlaidWith) fun _ ↦ ?_
    exact (keeps_moveFile_destination howned (run.tx.mentions_temporary file) temporary_ne_backup
      hplaced (fun _ htree ↦ htree) fun _ _ _ _ ↦ trivial).mono (fun _ htree ↦ htree)
        (fun _ _ htree ↦ htree) hlaidWith
  · rintro tree ⟨content, after, -, -, hcarries⟩
    exact hcarries.safe
  · rintro tree made ⟨content, after, hmatches, hafter, hlayout, -⟩ hmade
    exact ⟨content, after, hmatches, hafter,
      layout_of_temporary mem_cons_self hlayout hmade, trivial⟩
  · rintro tree ⟨attempted, placed, backed, -, hlayout⟩
    exact run.safe_of_layout _ _ _ _ hlayout
  · rintro tree made ⟨attempted, placed, backed, hmem, hlayout⟩ hmade
    exact ⟨attempted, placed, backed, hmem, layout_of_temporary hmem hlayout hmade⟩
  · rintro tree ⟨attempted, placed, backed, -, hlayout⟩
    exact ⟨attempted, placed, backed, hlayout⟩

/-! ### Progress -/

/-- How far a transaction is: which files of the old build are removed and which of the new one are
in place. -/
structure Progress (run : TransactionRun fold) (removed done : List FileRecipe)
    (placed : List (FileRecipe × Bytes)) (backed : List Path) : Prop where
  placed_done : ∀ entry ∈ placed, entry.1 ∈ done ∧ Matches run.ctx.env entry.1 entry.2
  done_placed : ∀ file ∈ done, ∃ content, (file, content) ∈ placed
  backed_from : ∀ relative ∈ backed, ∃ file ∈ removed ++ done, relative = names file.path
  removed_gone : ∀ old ∈ removed, run.tx.IsBacked backed (run.tx.destination old) ∨
    run.tx.start.fileExists (run.tx.destination old) = false

/-- The tree of a transaction that is so far. -/
def InPlace (run : TransactionRun fold) (removed done : List FileRecipe)
    (fact : FileTree fold → Prop) (tree : FileTree fold) : Prop :=
  ∃ attempted placed backed, run.Progress removed done placed backed ∧
    run.Carries attempted placed backed fact tree

variable {removed done : List FileRecipe}

theorem progress_start : run.Progress [] [] [] [] where
  placed_done := fun _ hmem ↦ absurd hmem not_mem_nil
  done_placed := fun _ hmem ↦ absurd hmem not_mem_nil
  backed_from := fun _ hmem ↦ absurd hmem not_mem_nil
  removed_gone := fun _ hmem ↦ absurd hmem not_mem_nil

theorem InPlace.laid (h : run.InPlace removed done fact tree) : run.Laid tree := by
  obtain ⟨attempted, placed, backed, -, hlayout, -⟩ := h
  exact ⟨attempted, placed, backed, hlayout⟩

theorem destination_ne {other : FileRecipe}
    (h : pathKey fold (names other.path) ≠ pathKey fold (names file.path)) :
    pathKey fold (run.tx.destination other) ≠ pathKey fold (run.tx.destination file) := by
  intro hkey
  rw [Transaction.destination, Transaction.destination, pathKey_append, pathKey_append,
    append_cancel_left_eq] at hkey
  exact h hkey

/-- Nothing has been put where no finished file belongs. -/
theorem Progress.placedContent_eq_none (h : run.Progress removed done placed backed)
    (hdone : ∀ other ∈ done, pathKey fold (names other.path) ≠ pathKey fold (names file.path)) :
    run.tx.placedContent placed (run.tx.destination file) = none := by
  rw [Transaction.placedContent, Option.map_eq_none_iff, List.find?_eq_none]
  intro entry hentry
  have hne : pathKey fold (run.tx.destination entry.1) ≠ pathKey fold (run.tx.destination file) :=
    destination_ne (hdone entry.1 (h.placed_done entry hentry).1)
  simpa using hne

theorem Progress.place (h : run.Progress removed done placed backed) {content : Bytes}
    {after : List Path} (hmatches : Matches run.ctx.env file content)
    (hafter : after = backed ∨ after = names file.path :: backed) :
    run.Progress removed (done ++ [file]) ((file, content) :: placed) after where
  placed_done := by
    intro entry hentry
    rcases mem_cons.mp hentry with rfl | hentry
    · exact ⟨by simp, hmatches⟩
    · exact ⟨mem_append_left _ (h.placed_done entry hentry).1, (h.placed_done entry hentry).2⟩
  done_placed := by
    intro other hother
    rcases mem_append.mp hother with hother | hother
    · obtain ⟨held, hheld⟩ := h.done_placed other hother
      exact ⟨held, mem_cons_of_mem _ hheld⟩
    · rw [mem_singleton.mp hother]
      exact ⟨content, mem_cons_self⟩
  backed_from := by
    intro relative hrelative
    have hold : relative ∈ backed → ∃ other ∈ removed ++ (done ++ [file]),
        relative = names other.path := by
      intro hmem
      obtain ⟨other, hother, hname⟩ := h.backed_from relative hmem
      refine ⟨other, ?_, hname⟩
      rw [← append_assoc]
      exact mem_append_left _ hother
    rcases hafter with rfl | rfl
    · exact hold hrelative
    · rcases mem_cons.mp hrelative with rfl | hmem
      · exact ⟨file, by simp, rfl⟩
      · exact hold hmem
  removed_gone := by
    intro old hold
    refine (h.removed_gone old hold).imp_left fun hbacked ↦ ?_
    rcases hafter with rfl | rfl
    · exact hbacked
    · exact isBacked_cons.mpr (.inr hbacked)

theorem distinct_of_split {rest : List FileRecipe} (h : run.files = done ++ file :: rest) :
    ∀ other ∈ done, pathKey fold (names other.path) ≠ pathKey fold (names file.path) := by
  intro other hother
  have hdistinct := run.distinct
  rw [h, pairwise_append] at hdistinct
  exact hdistinct.2.2 other hother file mem_cons_self

theorem keeps_installFiles (journal : TransactionJournal) :
    run.ctx.Keeps (run.InPlace [] [] fun _ ↦ True)
      (forEach (fun file journal ↦ do
        guarded run.ctx.env run.tx.journalPath journal
          (installFile run.ctx.env run.tx.root run.tx.backupRoot run.tx.id file)
        guarded run.ctx.env run.tx.journalPath (journal.commit file.path)
          (writeJournal run.ctx.env true run.tx.journalPath (journal.commit file.path))
        return journal.commit file.path) run.files journal)
      (fun _ ↦ run.InPlace [] run.files fun _ ↦ True) run.Laid := by
  have hnot := run.not_favourable
  refine keeps_forEach (fun done _ ↦ run.InPlace [] done fun _ ↦ True) ?_
  intro done file rest journal hsplit
  have hinPlace : run.ctx.Stable (JournalFiles fold run.tx.journalPath)
      (run.InPlace [] (done ++ [file]) fun _ ↦ True) := by
    refine ⟨fun tree htree ↦ htree.laid.safe, fun tree made htree hmade ↦ ?_⟩
    obtain ⟨attempted, placed, backed, hprogress, hlayout, -⟩ := htree
    exact ⟨attempted, placed, backed, hprogress, layout_of_journal hlayout hmade, trivial⟩
  refine keeps_bind (fun _ ↦ run.InPlace [] (done ++ [file]) fun _ ↦ True)
    (keeps_guarded hnot stable_laid ?_) fun _ ↦ ?_
  · refine keeps_of_tree fun tree htree ↦ ?_
    obtain ⟨attempted, placed, backed, hprogress, hlayout, -⟩ := htree
    have hplaced := hprogress.placedContent_eq_none (distinct_of_split hsplit)
    refine (keeps_installFile (by rw [hsplit]; simp) hplaced).mono
      (fun other hother ↦ hother ▸ hlayout) (fun _ other hother ↦ ?_) fun _ hother ↦ hother
    obtain ⟨content, after, hmatches, hafter, hcarries⟩ := hother
    exact ⟨_, _, _, hprogress.place hmatches hafter, hcarries⟩
  · refine keeps_bind (fun _ ↦ run.InPlace [] (done ++ [file]) fun _ ↦ True)
      (keeps_guarded hnot stable_laid ((keeps_writeJournal hnot hinPlace).mono
        (fun _ htree ↦ htree) (fun _ _ htree ↦ htree.1) fun _ htree ↦ htree.laid))
      fun _ ↦ keeps_pure fun _ htree ↦ htree

end TransactionRun

end GameLauncher.Installation
