import Mathlib.Data.List.Pairwise
import GameLauncher.Installation.TransactionRuns

/-!
# Updates under way

An update first stages the files that it cannot reuse, then backs up the files that the new build
does not have, and then puts the staged files in place. `Staged` is what it has in the staging
directory, `Reused` a file of the new build that was installed already. The loops are followed one
by one; where the last one ends, every file of the new build is in place or reused, and every
removed file is backed up or was not there.
-/

set_option autoImplicit false

namespace GameLauncher.Installation

open Foundation Fallible Manifests Process List Transaction

variable {fold : Char → Char}

namespace TransactionRun

open Context

variable {run : TransactionRun fold} {attempted removed done : List FileRecipe}
  {placed : List (FileRecipe × Bytes)} {backed : List Path} {fact : FileTree fold → Prop}
  {file old : FileRecipe} {pending : FileRecipe → Prop} {previous : List FileRecipe}

/-! ### The staging directory -/

variable {other : FileRecipe} {tree : FileTree fold}

def stagedPath (run : TransactionRun fold) (file : FileRecipe) : Path :=
  run.tx.stageRoot ++ names file.path

/-- The staging directory exists and holds the pending files. -/
def Staged (run : TransactionRun fold) (pending : FileRecipe → Prop) (tree : FileTree fold) :
    Prop :=
  tree.node run.tx.stageRoot = some .directory ∧
    ∀ file, pending file → Holds run.ctx.env file (run.stagedPath file) tree

/-- The file of the new build is installed already, as the old build had it. -/
def Reused (run : TransactionRun fold) (previous : List FileRecipe) (file : FileRecipe) : Prop :=
  ∃ old content, findFile previous file.path = some old ∧ old.blake3 = file.blake3 ∧
    run.tx.start.node (run.tx.destination file) = some (.file content) ∧
    content.length = old.size ∧ run.ctx.env.computeHash content = old.blake3

theorem below_stagedPath : Below fold run.tx.stageRoot (run.stagedPath file) :=
  below_append _ _

theorem dependsOn_staged : DependsOn (Below fold run.tx.stageRoot) (run.Staged pending) := by
  rintro tree made ⟨hdirectory, hpending⟩ hsame
  refine ⟨by rw [hsame _ (prefix_refl _), hdirectory], fun file hfile ↦ ?_⟩
  rw [Holds, hsame _ below_stagedPath]
  exact hpending file hfile

theorem workArea_of_stage (hupdate : run.tx.operation = .update) {path : Path}
    (h : Below fold run.tx.stageRoot path) : run.WorkArea path := by
  refine ⟨mentions_of_leading h ?_, not_below_backup_of_stage hupdate h⟩
  simpa using run.tx.mentions_stage []

theorem DependsOn.mono {first second : Path → Prop} (h : DependsOn first fact)
    (hsecond : ∀ path, first path → second path) : DependsOn second fact :=
  fun tree made htree hsame ↦ h tree made htree fun path hpath ↦ hsame path (hsecond path hpath)

theorem stagedPath_ne (h : pathKey fold (names other.path) ≠ pathKey fold (names file.path)) :
    ¬ At fold (run.stagedPath file) (run.stagedPath other) := by
  intro hkey
  rw [At, stagedPath, stagedPath, pathKey_append, pathKey_append, append_cancel_left_eq] at hkey
  exact h hkey

theorem stagedPath_ne_stageRoot : ¬ At fold (run.stagedPath file) run.tx.stageRoot := by
  intro hkey
  have hlength := congrArg List.length hkey
  rw [length_pathKey, length_pathKey, stagedPath, length_append] at hlength
  have := length_pos_of_ne_nil (names_ne_nil file.path)
  omega

/-- The file under construction in the staging directory. -/
def stagedPart (run : TransactionRun fold) (file : FileRecipe) : Path :=
  suffixed (run.stagedPath file) (partSuffix run.tx.id)

theorem stagedPart_eq : run.stagedPart file =
    run.tx.stageRoot ++ suffixed (names file.path) (partSuffix run.tx.id) :=
  suffixed_append (names_ne_nil file.path)

theorem below_stagedPart : Below fold run.tx.stageRoot (run.stagedPart file) := by
  rw [stagedPart_eq]
  exact below_append _ _

theorem stagedPath_ne_stagedPart (hother : run.owned other) :
    ¬ At fold (run.stagedPart file) (run.stagedPath other) := by
  intro hkey
  rw [At, stagedPart_eq, stagedPath, pathKey_append, pathKey_append, append_cancel_left_eq] at hkey
  refine run.unmarked other hother ((mentions_congr hkey).mpr ?_)
  exact mentions_suffixed _ (infix_partSuffix _)

theorem stagedPart_ne_stageRoot : ¬ At fold (run.stagedPart file) run.tx.stageRoot := by
  intro hkey
  have hlength := congrArg List.length hkey
  rw [length_pathKey, length_pathKey, stagedPart_eq, length_append, suffixed,
    length_append, length_singleton] at hlength
  omega

theorem carries_of_stage_change (hupdate : run.tx.operation = .update) {made : FileTree fold}
    (h : run.Carries attempted placed backed (run.Staged pending) tree)
    (hchanged : ChangedOnly (Below fold run.tx.stageRoot) tree made)
    (hdirectory : made.node run.tx.stageRoot = tree.node run.tx.stageRoot)
    (hpending : ∀ other, pending other →
      made.node (run.stagedPath other) = tree.node (run.stagedPath other)) :
    run.Carries attempted placed backed (run.Staged pending) made := by
  refine ⟨h.1.of_stage_change hupdate hchanged, hdirectory.trans h.2.1, fun other hother ↦ ?_⟩
  rw [Holds, hpending other hother]
  exact h.2.2 other hother

/-! ### Staging -/

theorem stable_stagedPart (hupdate : run.tx.operation = .update)
    (howned : ∀ other, pending other → run.owned other) :
    run.ctx.Stable (At fold (run.stagedPart file))
      (run.Carries attempted placed backed (run.Staged pending)) := by
  refine ⟨fun tree htree ↦ htree.safe, fun tree made htree hmade ↦ ?_⟩
  refine carries_of_stage_change hupdate htree (hmade.mono fun path hpath ↦ ?_)
    (hmade.node_eq fun hkey ↦ stagedPart_ne_stageRoot hkey)
    fun other hother ↦ hmade.node_eq (stagedPath_ne_stagedPart (howned other hother))
  rw [Below, hpath]
  exact below_stagedPart

theorem keeps_isUnchanged (howned : run.owned file) :
    run.ctx.Keeps (run.Carries [] [] [] fact)
      (isUnchanged run.ctx.env previous (run.tx.destination file) file)
      (fun unchanged tree ↦ (unchanged = true → run.Reused previous file) ∧
        run.Carries [] [] [] fact tree) run.Laid := by
  unfold isUnchanged
  have hlaid : ∀ tree, run.Carries [] [] [] fact tree → run.Laid tree :=
    fun tree htree ↦ htree.laidAs.laid
  cases hfound : findFile previous file.path with
  | none => exact keeps_pure fun tree htree ↦ ⟨fun hvalid ↦ absurd hvalid Bool.false_ne_true, htree⟩
  | some old =>
    refine keeps_ite (fun hhash ↦ ?_) fun _ ↦
      keeps_pure fun tree htree ↦ ⟨fun hvalid ↦ absurd hvalid Bool.false_ne_true, htree⟩
    refine (keeps_verifyFile run.not_favourable fun _ htree ↦ htree.safe).mono
      (fun _ htree ↦ htree) (fun valid tree htree ↦ ⟨fun hvalid ↦ ?_, htree.1⟩) hlaid
    obtain ⟨⟨hlayout, -⟩, hcontent⟩ := htree
    obtain ⟨content, hnode, hlength, hcomputed⟩ := hcontent hvalid
    have hunmarked := run.tx.not_mentions_destination (run.unmarked file howned)
    obtain ⟨-, hstart⟩ := hlayout.file_of_not_placed hunmarked rfl hnode (by simp)
    exact ⟨old, content, hfound, hhash, hstart, hlength, hcomputed⟩

def StagedFile (run : TransactionRun fold) (previous : List FileRecipe)
    (pending : FileRecipe → Prop) (file : FileRecipe) (staging after : Staging)
    (tree : FileTree fold) : Prop :=
  (after = { staging with
      unchangedPaths := file.path :: staging.unchangedPaths
      reusedInstalledBytes := staging.reusedInstalledBytes + file.size } ∧
    run.Reused previous file ∧ run.Carries [] [] [] (run.Staged pending) tree) ∨
  (after = { staging with
      reconstructedBytes := staging.reconstructedBytes + file.size
      changedFiles := staging.changedFiles + 1 } ∧
    run.Carries [] [] [] (run.Staged fun other ↦ pending other ∨ other = file) tree)

theorem keeps_stageContent (hupdate : run.tx.operation = .update) (howned : run.owned file)
    (hpending : ∀ other, pending other → run.owned other ∧
      pathKey fold (names other.path) ≠ pathKey fold (names file.path)) :
    run.ctx.Keeps (run.Carries [] [] [] (run.Staged pending))
      (tryFinally (do
        reconstructFile run.ctx.env file (run.stagedPart file)
        operation run.ctx.env fun tree ↦ tree.moveFile (run.stagedPart file) (run.stagedPath file))
        (tryDeleteFile run.ctx.env (run.stagedPart file)))
      (fun _ ↦ run.Carries [] [] [] (run.Staged fun other ↦ pending other ∨ other = file))
      run.Laid := by
  have hnot := run.not_favourable
  have hstable : run.ctx.Stable (At fold (run.stagedPart file))
      (run.Carries [] [] [] (run.Staged pending)) :=
    stable_stagedPart hupdate fun other hother ↦ (hpending other hother).1
  have hstableAfter : run.ctx.Stable (At fold (run.stagedPart file))
      (run.Carries [] [] [] (run.Staged fun other ↦ pending other ∨ other = file)) := by
    refine stable_stagedPart hupdate fun other hother ↦ ?_
    rcases hother with hother | rfl
    · exact (hpending other hother).1
    · exact howned
  refine (keeps_tryFinally (fun _ ↦ run.Carries [] [] []
    (run.Staged fun other ↦ pending other ∨ other = file))
    (run.Carries [] [] [] (run.Staged pending)) ?_ (fun _ ↦ ensures_tryDeleteFile hstableAfter)
    (ensures_tryDeleteFile hstable)).mono (fun _ htree ↦ htree) (fun _ _ htree ↦ htree)
    fun _ htree ↦ htree.laidAs.laid
  refine keeps_bind _ (keeps_reconstructFile hnot hstable) fun _ ↦
    keeps_operation_of_ok hnot (fun _ htree ↦ htree.1.safe) (fun _ htree ↦ htree.1)
      fun tree made htree hmade ↦ ?_
  obtain ⟨hcarries, content, hcontent, hmatches⟩ := htree
  obtain ⟨hchanged, hnode⟩ := changedOnly_moveFile hmade
  have hkept : run.Carries [] [] [] (run.Staged pending) made := by
    refine carries_of_stage_change hupdate hcarries (hchanged.mono fun path hpath ↦ ?_)
      (hchanged.node_eq ?_) fun other hother ↦ hchanged.node_eq ?_
    · rcases hpath with hkey | hkey
      · rw [Below, hkey]
        exact below_stagedPart
      · rw [Below, hkey]
        exact below_stagedPath
    · rintro (hkey | hkey)
      · exact stagedPart_ne_stageRoot hkey
      · exact stagedPath_ne_stageRoot hkey
    · rintro (hkey | hkey)
      · exact stagedPath_ne_stagedPart (hpending other hother).1 hkey
      · exact stagedPath_ne (hpending other hother).2 hkey
  refine ⟨hkept.safe, hkept.1, hkept.2.1, fun other hother ↦ ?_⟩
  rcases hother with hother | rfl
  · exact hkept.2.2 other hother
  · exact ⟨content, hnode.trans hcontent, hmatches⟩

theorem keeps_stageFile (hupdate : run.tx.operation = .update) (howned : run.owned file)
    (hpending : ∀ other, pending other → run.owned other ∧
      pathKey fold (names other.path) ≠ pathKey fold (names file.path)) (staging : Staging) :
    run.ctx.Keeps (run.Carries [] [] [] (run.Staged pending))
      (stageFile run.ctx.env previous run.tx.root run.tx.stageRoot run.tx.id file staging)
      (fun after ↦ run.StagedFile previous pending file staging after) run.Laid := by
  have hnot := run.not_favourable
  have hlaid : ∀ tree, run.Carries [] [] [] (run.Staged pending) tree → run.Laid tree :=
    fun tree htree ↦ htree.laidAs.laid
  refine keeps_bind _ (keeps_throwIfCancellationRequested hlaid) fun _ ↦ ?_
  refine keeps_bind _ ((keeps_resolveUnderRoot hnot).mono (fun _ htree ↦ htree)
    (fun _ _ htree ↦ htree) hlaid) fun staged ↦ keeps_assume fun hstaged ↦ ?_
  obtain rfl : staged = run.stagedPath file := hstaged
  refine keeps_bind (fun _ ↦ run.Carries [] [] [] (run.Staged pending))
    (keeps_operation_of_ok hnot (fun _ htree ↦ htree.safe) hlaid fun tree made htree hmade ↦ ?_)
    fun _ ↦ ?_
  · rw [stagedPath, dropLast_append_of_ne_nil (names_ne_nil _)] at hmade
    obtain ⟨hextends, -, -⟩ := FileTree.createDirectory_eq_ok hmade
    have hkept := carries_of_stage_change hupdate htree (htree.1.stage_of_createDirectory hmade)
      ?_ fun other hother ↦ ?_
    · exact ⟨hkept.safe, hkept⟩
    · rcases hextends run.tx.stageRoot with hsame | ⟨hnone, -⟩
      · exact hsame
      · rw [htree.2.1] at hnone
        cases hnone
    · obtain ⟨content, hcontent, -⟩ := htree.2.2 other hother
      rcases hextends (run.stagedPath other) with hsame | ⟨hnone, -⟩
      · exact hsame
      · rw [hcontent] at hnone
        cases hnone
  refine keeps_bind _ ((keeps_resolveUnderRoot hnot).mono (fun _ htree ↦ htree)
    (fun _ _ htree ↦ htree) hlaid) fun existing ↦ keeps_assume fun hexisting ↦ ?_
  obtain rfl : existing = run.tx.destination file := hexisting
  refine keeps_bind _ (keeps_isUnchanged howned) fun unchanged ↦ keeps_assume fun hreused ↦ ?_
  refine keeps_ite (fun hunchanged ↦ keeps_pure fun tree htree ↦ ?_) fun _ ↦ ?_
  · exact .inl ⟨rfl, hreused hunchanged, htree⟩
  · exact keeps_bind _ (keeps_stageContent hupdate howned hpending) fun _ ↦
      keeps_pure fun tree htree ↦ .inr ⟨rfl, htree⟩

theorem Staged.mono {other : FileRecipe → Prop} (h : run.Staged pending tree)
    (hother : ∀ file, other file → pending file) : run.Staged other tree :=
  ⟨h.1, fun file hfile ↦ h.2 file (hother file hfile)⟩

theorem Carries.mono {other : FileTree fold → Prop}
    (h : run.Carries attempted placed backed fact tree) (hother : ∀ tree, fact tree → other tree) :
    run.Carries attempted placed backed other tree :=
  ⟨h.1, hother tree h.2⟩

/-- What the staging of the first files has counted and left alone. -/
structure StagingProgress (run : TransactionRun fold) (previous done : List FileRecipe)
    (staging : Staging) : Prop where
  reused : ∀ path ∈ staging.unchangedPaths, ∃ file ∈ done, file.path = path ∧
    run.Reused previous file
  bytes : staging.reusedInstalledBytes + staging.reconstructedBytes = (done.map FileRecipe.size).sum

theorem StagingProgress.reuse {staging : Staging} (h : run.StagingProgress previous done staging)
    (hfile : run.Reused previous file) :
    run.StagingProgress previous (done ++ [file]) { staging with
      unchangedPaths := file.path :: staging.unchangedPaths
      reusedInstalledBytes := staging.reusedInstalledBytes + file.size } where
  reused := by
    intro path hpath
    rcases mem_cons.mp hpath with rfl | hpath
    · exact ⟨file, by simp, rfl, hfile⟩
    · obtain ⟨other, hother, hname, hreused⟩ := h.reused path hpath
      exact ⟨other, mem_append_left _ hother, hname, hreused⟩
  bytes := by
    have hbytes := h.bytes
    rw [map_append, sum_append, map_singleton, sum_singleton]
    dsimp only
    omega

theorem StagingProgress.reconstruct {staging : Staging}
    (h : run.StagingProgress previous done staging) :
    run.StagingProgress previous (done ++ [file]) { staging with
      reconstructedBytes := staging.reconstructedBytes + file.size
      changedFiles := staging.changedFiles + 1 } where
  reused := by
    intro path hpath
    obtain ⟨other, hother, hname, hreused⟩ := h.reused path hpath
    exact ⟨other, mem_append_left _ hother, hname, hreused⟩
  bytes := by
    have hbytes := h.bytes
    rw [map_append, sum_append, map_singleton, sum_singleton]
    dsimp only
    omega

theorem keeps_stageFiles (hupdate : run.tx.operation = .update) :
    run.ctx.Keeps (run.Carries [] [] [] (run.Staged fun _ ↦ False))
      (forEach (stageFile run.ctx.env previous run.tx.root run.tx.stageRoot run.tx.id) run.files
        ⟨[], 0, 0, 0⟩)
      (fun staging tree ↦ run.StagingProgress previous run.files staging ∧
        run.Carries [] [] [] (run.Staged fun file ↦ file ∈ run.files ∧
          file.path ∉ staging.unchangedPaths) tree) run.Laid := by
  refine (keeps_forEach (fun done staging tree ↦ run.StagingProgress previous done staging ∧
    run.Carries [] [] [] (run.Staged fun file ↦ file ∈ done ∧
      file.path ∉ staging.unchangedPaths) tree) ?_).mono (fun tree htree ↦ ?_)
    (fun _ _ htree ↦ htree) fun _ htree ↦ htree
  · intro done file rest staging hsplit
    refine keeps_assume fun hprogress ↦ ?_
    have hmem : ∀ other ∈ done, other ∈ run.files := by
      intro other hother
      rw [hsplit]
      exact mem_append_left _ hother
    refine (keeps_stageFile hupdate (run.owned_of_mem file (by rw [hsplit]; simp))
      (fun other hother ↦ ⟨run.owned_of_mem other (hmem other hother.1),
        distinct_of_split hsplit other hother.1⟩) staging).mono (fun _ htree ↦ htree)
      (fun after tree htree ↦ ?_) fun _ htree ↦ htree
    rcases htree with ⟨rfl, hreused, hcarries⟩ | ⟨rfl, hcarries⟩
    · refine ⟨hprogress.reuse hreused, hcarries.mono fun tree htree ↦ htree.mono ?_⟩
      rintro other ⟨hother, hchanged⟩
      rw [mem_cons, not_or] at hchanged
      rcases mem_append.mp hother with hdone | hlast
      · exact ⟨hdone, hchanged.2⟩
      · exact absurd (by rw [mem_singleton.mp hlast]) hchanged.1
    · refine ⟨hprogress.reconstruct, hcarries.mono fun tree htree ↦ htree.mono ?_⟩
      rintro other ⟨hother, hchanged⟩
      rcases mem_append.mp hother with hdone | hlast
      · exact .inl ⟨hdone, hchanged⟩
      · exact .inr (mem_singleton.mp hlast)
  · refine ⟨⟨fun _ hpath ↦ absurd hpath not_mem_nil, rfl⟩, htree.mono fun tree hstaged ↦
      hstaged.mono fun other hother ↦ absurd hother.1 not_mem_nil⟩

/-! ### Removing files -/

theorem keeps_removeFile (hupdate : run.tx.operation = .update) (howned : run.owned old)
    (hfact : DependsOn (Below fold run.tx.stageRoot) fact)
    (hplaced : run.tx.placedContent placed (run.tx.destination old) = none)
    (journal : TransactionJournal) :
    run.ctx.Keeps (run.Carries attempted placed backed fact)
      (removeFile run.ctx.env run.tx.root run.tx.backupRoot old journal)
      (fun _ ↦ run.BackedUp attempted placed backed fact old) run.Laid := by
  have hlaid : ∀ tree, run.Carries attempted placed backed fact tree → run.Laid tree :=
    fun tree htree ↦ htree.laidAs.laid
  refine keeps_bind _ ((keeps_resolveUnderRoot run.not_favourable).mono (fun _ htree ↦ htree)
    (fun _ _ htree ↦ htree) hlaid) fun oldPath ↦ keeps_assume fun hpath ↦ ?_
  obtain rfl : oldPath = run.tx.destination old := hpath
  refine keeps_bind (fun found tree ↦ run.Carries attempted placed backed fact tree ∧
    found = tree.fileExists (run.tx.destination old))
    (keeps_inspect fun tree htree ↦ ⟨htree, rfl⟩) fun found ↦ ?_
  refine keeps_ite (fun _ ↦ ?_) fun hfound ↦ keeps_pure fun tree htree ↦ ?_
  · refine keeps_bind _ ((keeps_backupExistingFile howned
      (hfact.mono fun _ hpath ↦ workArea_of_stage hupdate hpath) hplaced).mono
        (fun _ htree ↦ htree.1) (fun _ _ htree ↦ htree) fun _ htree ↦ htree.laid) fun _ ↦
      keeps_pure fun _ htree ↦ htree
  · exact ⟨backed, .inl rfl, htree.1, by rw [← htree.2]; simpa using hfound⟩

theorem Progress.remove (h : run.Progress removed [] placed backed) (howned : run.owned old)
    (hbackedUp : run.BackedUp attempted placed backed fact old tree) :
    run.InPlace (removed ++ [old]) [] fact tree := by
  obtain ⟨after, hafter, hcarries, hexists⟩ := hbackedUp
  have hplaced : run.tx.placedContent placed (run.tx.destination old) = none :=
    h.placedContent_eq_none fun _ hmem ↦ absurd hmem not_mem_nil
  have hkept : ∀ path, run.tx.IsBacked backed path → run.tx.IsBacked after path := by
    intro path hbacked
    rcases hafter with rfl | rfl
    · exact hbacked
    · exact isBacked_cons.mpr (.inr hbacked)
  refine ⟨attempted, placed, after, ⟨h.placed_done, h.done_placed, fun relative hrelative ↦ ?_,
    fun other hother ↦ ?_⟩, hcarries⟩
  · have hold : relative ∈ backed → ∃ file ∈ removed ++ [old] ++ [], relative = names file.path := by
      intro hmem
      obtain ⟨file, hfile, hname⟩ := h.backed_from relative hmem
      rw [append_nil] at hfile
      exact ⟨file, by simp [hfile], hname⟩
    rcases hafter with rfl | rfl
    · exact hold hrelative
    · rcases mem_cons.mp hrelative with rfl | hmem
      · exact ⟨old, by simp, rfl⟩
      · exact hold hmem
  · rcases mem_append.mp hother with hother | hother
    · exact (h.removed_gone other hother).imp_left (hkept _)
    · rw [mem_singleton.mp hother]
      by_cases hbacked : run.tx.IsBacked after (run.tx.destination old)
      · exact .inl hbacked
      · right
        have hexpected : run.tx.expectedNode placed after (run.tx.destination old) =
            run.tx.start.node (run.tx.destination old) := by
          simp only [Transaction.expectedNode, hplaced, if_neg hbacked]
        rcases hcarries.1.outside _ (run.tx.not_mentions_destination (run.unmarked old howned)) with
          hnode | ⟨hnone, -⟩
        · rw [FileTree.fileExists, ← hexpected, ← hnode]
          exact hexists
        · rw [FileTree.fileExists, ← hexpected, hnone]

theorem InPlace.mono {other : FileTree fold → Prop} (h : run.InPlace removed done fact tree)
    (hother : ∀ tree, fact tree → other tree) : run.InPlace removed done other tree := by
  obtain ⟨attempted, placed, backed, hprogress, hcarries⟩ := h
  exact ⟨attempted, placed, backed, hprogress, hcarries.mono hother⟩

/-- The loop that backs up the files that the new build does not have. -/
theorem keeps_removeFiles (hupdate : run.tx.operation = .update) {olds : List FileRecipe}
    (howned : ∀ old ∈ olds, run.owned old) (hfact : DependsOn (Below fold run.tx.stageRoot) fact)
    (journal : TransactionJournal) :
    run.ctx.Keeps (run.Carries [] [] [] fact)
      (forEach (fun old journal ↦ guarded run.ctx.env run.tx.journalPath journal
        (removeFile run.ctx.env run.tx.root run.tx.backupRoot old journal)) olds journal)
      (fun _ ↦ run.InPlace olds [] fact) run.Laid := by
  refine (keeps_forEach (fun removed _ ↦ run.InPlace removed [] fact) ?_).mono
    (fun tree htree ↦ ⟨[], [], [], progress_start, htree⟩) (fun _ _ htree ↦ htree)
    fun _ htree ↦ htree
  intro removed old rest journal hsplit
  have hold := howned old (by rw [hsplit]; simp)
  refine keeps_guarded run.not_favourable stable_laid (keeps_of_tree fun tree htree ↦ ?_)
  obtain ⟨attempted, placed, backed, hprogress, hcarries⟩ := htree
  have hplaced : run.tx.placedContent placed (run.tx.destination old) = none :=
    hprogress.placedContent_eq_none fun _ hmem ↦ absurd hmem not_mem_nil
  exact (keeps_removeFile hupdate hold hfact hplaced journal).mono
    (fun other hother ↦ hother ▸ hcarries) (fun _ other hother ↦ hprogress.remove hold hother)
    fun _ hother ↦ hother

/-! ### Putting staged files in place -/

theorem carries_createDirectory (hfile : file ∈ run.files)
    (hfact : DependsOn (Below fold run.tx.stageRoot) fact) {made : FileTree fold}
    (h : run.Carries attempted placed backed fact tree)
    (hmade : tree.createDirectory (run.tx.destination file).dropLast = .ok made) :
    run.Carries attempted placed backed fact made := by
  have hunmarked := run.unmarked file (run.owned_of_mem file hfile)
  obtain ⟨-, -, hchanged⟩ := FileTree.createDirectory_eq_ok hmade
  have hne : run.tx.destination file ≠ [] := by
    intro hnil
    exact names_ne_nil _ (append_eq_nil_iff.mp hnil).2
  refine ⟨h.1.createDirectory_destination hfile hunmarked hmade,
    hfact tree made h.2 fun path hpath ↦ ?_⟩
  by_contra hchange
  have habove := above_of_leading_dropLast hne (hchanged path hchange)
  refine run.tx.not_mentions_destination hunmarked (mentions_of_leading habove.1
    (mentions_of_leading hpath ?_))
  simpa using run.tx.mentions_stage []

theorem stagedPath_ne_backup (hupdate : run.tx.operation = .update) (relative : Path) :
    pathKey fold (run.tx.backupRoot ++ relative) ≠ pathKey fold (run.stagedPath file) := by
  intro hkey
  refine not_below_backup_of_stage hupdate below_stagedPath (?_ :
    Below fold run.tx.backupRoot (run.stagedPath file))
  rw [Below, ← hkey]
  exact below_append _ _

theorem keeps_placeFile (hupdate : run.tx.operation = .update) (hfile : file ∈ run.files)
    (hpending : pending file) (later : FileRecipe → Prop)
    (hlater : ∀ other, later other → pending other ∧
      pathKey fold (names other.path) ≠ pathKey fold (names file.path))
    (hplaced : run.tx.placedContent placed (run.tx.destination file) = none) :
    run.ctx.Keeps (run.Carries attempted placed backed (run.Staged pending))
      (placeFile run.ctx.env run.tx.root run.tx.stageRoot run.tx.backupRoot file)
      (fun _ ↦ run.Placed attempted placed backed (run.Staged later) file) run.Laid := by
  have hnot := run.not_favourable
  have howned := run.owned_of_mem file hfile
  have hlaid : ∀ tree, run.Carries attempted placed backed (run.Staged pending) tree →
      run.Laid tree := fun tree htree ↦ htree.laidAs.laid
  refine keeps_bind _ ((keeps_resolveUnderRoot hnot).mono (fun _ htree ↦ htree)
    (fun _ _ htree ↦ htree) hlaid) fun destination ↦ keeps_assume fun hdestination ↦ ?_
  obtain rfl : destination = run.tx.destination file := hdestination
  refine keeps_bind _ ((keeps_resolveUnderRoot hnot).mono (fun _ htree ↦ htree)
    (fun _ _ htree ↦ htree) hlaid) fun staged ↦ keeps_assume fun hstaged ↦ ?_
  obtain rfl : staged = run.stagedPath file := hstaged
  refine keeps_bind (fun _ ↦ run.Carries attempted placed backed (run.Staged pending))
    (keeps_operation_of_ok hnot (fun _ htree ↦ htree.safe) hlaid fun tree made htree hmade ↦ ?_)
    fun _ ↦ ?_
  · have hkept := carries_createDirectory hfile dependsOn_staged htree hmade
    exact ⟨hkept.safe, hkept⟩
  refine keeps_bind _ ((keeps_backupExistingFile howned (dependsOn_staged.mono fun _ hpath ↦
    workArea_of_stage hupdate hpath) hplaced).mono (fun _ htree ↦ htree) (fun _ _ htree ↦ htree)
    fun _ htree ↦ htree.laid) fun _ ↦ ?_
  have hmarked : Mentions fold run.tx.id (run.stagedPath file) := run.tx.mentions_stage _
  refine (keeps_moveFile_destination howned hmarked (stagedPath_ne_backup hupdate) hplaced
    (fun tree htree ↦ htree.2 file hpending) fun tree made htree hmade ↦ ?_).mono
    (fun _ htree ↦ htree) (fun _ _ htree ↦ htree) fun _ htree ↦ htree.laid
  -- what is still pending is neither the moved file nor its place
  have hother : ∀ path, Below fold run.tx.stageRoot path → ¬ At fold (run.stagedPath file) path →
      made.node path = tree.node path := by
    intro path hpath hne
    refine hmade.node_eq ?_
    rintro (hkey | hkey)
    · exact hne hkey
    · refine run.tx.not_mentions_destination (run.unmarked file howned)
        ((mentions_congr hkey).mp (mentions_of_leading hpath ?_))
      simpa using run.tx.mentions_stage []
  refine ⟨(hother _ (prefix_refl _) stagedPath_ne_stageRoot).trans htree.1, fun other hwait ↦ ?_⟩
  rw [Holds, hother _ below_stagedPath (stagedPath_ne (hlater other hwait).2)]
  exact htree.2 other (hlater other hwait).1

theorem names_ne_of_mem (hfile : file ∈ run.files) (hother : other ∈ run.files) (hne : other ≠ file)
    : pathKey fold (names other.path) ≠ pathKey fold (names file.path) := by
  have hsymm : Std.Symm fun earlier later : FileRecipe ↦
      pathKey fold (names earlier.path) ≠ pathKey fold (names later.path) :=
    ⟨fun _ _ h heq ↦ h heq.symm⟩
  exact run.distinct.forall hother hfile hne

theorem keeps_placeFiles (hupdate : run.tx.operation = .update) (unchangedPaths : List Text)
    (journal : TransactionJournal) :
    run.ctx.Keeps (run.InPlace removed [] (run.Staged fun file ↦ file ∈ run.files ∧
        file.path ∉ unchangedPaths))
      (forEach (fun file journal ↦
        if file.path ∈ unchangedPaths then return journal
        else do
          guarded run.ctx.env run.tx.journalPath journal
            (placeFile run.ctx.env run.tx.root run.tx.stageRoot run.tx.backupRoot file)
          guarded run.ctx.env run.tx.journalPath (journal.commit file.path)
            (writeJournal run.ctx.env true run.tx.journalPath (journal.commit file.path))
          return journal.commit file.path) run.files journal)
      (fun _ ↦ run.InPlace removed (run.files.filter fun file ↦ file.path ∉ unchangedPaths)
        (run.Staged fun _ ↦ False)) run.Laid := by
  have hnot := run.not_favourable
  have hstable {done : List FileRecipe} {pending : FileRecipe → Prop} :
      run.ctx.Stable (JournalFiles fold run.tx.journalPath)
        (run.InPlace removed done (run.Staged pending)) := by
    refine ⟨fun tree htree ↦ htree.laid.safe, fun tree made htree hmade ↦ ?_⟩
    obtain ⟨attempted, placed, backed, hprogress, hcarries⟩ := htree
    exact ⟨attempted, placed, backed, hprogress,
      (stable_carries dependsOn_staged).keeps tree made hcarries hmade⟩
  refine (keeps_forEach (fun done _ ↦
    run.InPlace removed (done.filter fun file ↦ file.path ∉ unchangedPaths)
      (run.Staged fun file ↦ (file ∈ run.files ∧ file.path ∉ unchangedPaths) ∧ file ∉ done)) ?_).mono
    (fun tree htree ↦ htree.mono fun tree hstaged ↦ hstaged.mono fun file hfile ↦ hfile.1)
    (fun _ tree htree ↦ htree.mono fun tree hstaged ↦ hstaged.mono fun _ hfile ↦ hfile.elim)
    fun _ htree ↦ htree
  intro done file rest journal hsplit
  have hfile : file ∈ run.files := by
    rw [hsplit]
    simp
  refine keeps_ite (fun hunchanged ↦ keeps_pure fun tree htree ↦ ?_) fun hchanged ↦ ?_
  · have hfilter : (done ++ [file]).filter (fun file ↦ file.path ∉ unchangedPaths) =
        done.filter fun file ↦ file.path ∉ unchangedPaths := by
      simp [filter_append, hunchanged]
    rw [hfilter]
    exact htree.mono fun tree hstaged ↦ hstaged.mono fun other hother ↦
      ⟨hother.1, fun hmem ↦ hother.2 (mem_append_left _ hmem)⟩
  have hfilter : (done ++ [file]).filter (fun file ↦ file.path ∉ unchangedPaths) =
      done.filter (fun file ↦ file.path ∉ unchangedPaths) ++ [file] := by
    simp [filter_append, hchanged]
  rw [hfilter]
  have hdistinct := distinct_of_split hsplit
  have hfresh : file ∉ done := fun hmem ↦ hdistinct file hmem rfl
  refine keeps_bind (fun _ ↦ run.InPlace removed
    (done.filter (fun file ↦ file.path ∉ unchangedPaths) ++ [file]) (run.Staged fun other ↦
      (other ∈ run.files ∧ other.path ∉ unchangedPaths) ∧ other ∉ done ++ [file]))
    (keeps_guarded hnot stable_laid (keeps_of_tree fun tree htree ↦ ?_)) fun _ ↦ ?_
  · obtain ⟨attempted, placed, backed, hprogress, hcarries⟩ := htree
    have hplaced : run.tx.placedContent placed (run.tx.destination file) = none :=
      hprogress.placedContent_eq_none fun other hother ↦ hdistinct other (mem_of_mem_filter hother)
    refine (keeps_placeFile hupdate hfile ⟨⟨hfile, hchanged⟩, hfresh⟩ (fun other ↦
      (other ∈ run.files ∧ other.path ∉ unchangedPaths) ∧ other ∉ done ++ [file])
      (fun other hother ↦ ?_) hplaced).mono (fun other hother ↦ hother ▸ hcarries)
      (fun _ other hother ↦ ?_) fun _ hother ↦ hother
    · have hne : other ≠ file := fun heq ↦ hother.2 (by rw [heq]; simp)
      exact ⟨⟨hother.1, fun hmem ↦ hother.2 (mem_append_left _ hmem)⟩,
        names_ne_of_mem hfile hother.1.1 hne⟩
    · obtain ⟨content, after, hmatches, hafter, hplacedCarries⟩ := hother
      exact ⟨_, _, _, hprogress.place hmatches hafter, hplacedCarries⟩
  · refine keeps_bind _ (keeps_guarded hnot stable_laid ((keeps_writeJournal hnot hstable).mono
      (fun _ htree ↦ htree) (fun _ _ htree ↦ htree.1) fun _ htree ↦ htree.laid))
      fun _ ↦ keeps_pure fun _ htree ↦ htree

end TransactionRun

end GameLauncher.Installation
