import GameLauncher.Installation.InstalledRows
import GameLauncher.Installation.QuietMachine
import GameLauncher.Installation.UpdateTransaction
import GameLauncher.Installation.Verification

/-!
# What an update leaves

An update that returns leaves the new build: `VerifyAsync` finds nothing wrong with it, no file is
left where only the old build had one, no other file has changed, the row of the new build is in the
table, nothing of the transaction remains, and the two byte counters of the summary add up to the
size of the build. The paths of the two builds are compared as the volume compares them, and a
directory of the new build may stand where the old build had a file.
-/

set_option autoImplicit false

namespace GameLauncher.Installation

open Foundation Fallible Manifests Process Context TransactionRun List

variable {fold : Char → Char}

/-! ### The run of an update -/

/-- The tree after an update that returned: that of an update run of its manifests. -/
def UpdateEnd (env : Environment fold) (previous next : Manifest) (root : Path) (id : Text)
    (start final : FileTree fold) : Prop :=
  ∃ run : TransactionRun fold, run.ctx.env = env ∧ run.tx.operation = .update ∧ run.tx.id = id ∧
    run.tx.root = root ∧ run.files = next.files ∧ RootMade root start run.tx.start ∧
    (∀ file ∈ previous.files ++ next.files, run.owned file) ∧
    run.Updated previous.files (removedFiles previous next) final

/-- An update, step by step: up to the write to the table no file is lost, and a return leaves the
new build. -/
theorem ensures_updateAsync (env : Environment fold) (previous next : Manifest) (root : Path)
    (id : Text) (world : World fold)
    (hfresh : Fresh id root (previous.files ++ next.files) world.tree) :
    Ensures (fun start ↦ start = world) (updateAsync env previous next root id)
      (KeptUntilSaved root (backupRootOf root .update id) world)
      (fun summary final ↦ ManifestValidator.validate env.unicode previous = .ok () ∧
        ManifestValidator.validate env.unicode next = .ok () ∧
        summary.reusedInstalledBytes + summary.reconstructedBytes =
          (next.files.map FileRecipe.size).sum ∧
        UpdateEnd env previous next root id world.tree final.tree)
      fun _ _ ↦ True := by
  refine Ensures.mono (?_ : Ensures ((startContext env world root (backupRootOf root .update
    id)).frame fun tree ↦ tree = world.tree) _ _ _ _) ?_ (fun _ h ↦ h) (fun _ _ h ↦ h)
    fun _ _ h ↦ h
  swap
  · rintro _ rfl
    exact ⟨rfl, rfl, Nat.le_refl _, rfl⟩
  refine ensures_bind _ ensures_lift_start fun _ ↦ ensures_frame_assume fun hprevious ↦ ?_
  refine ensures_bind _ ensures_lift_start fun _ ↦ ensures_frame_assume fun hnext ↦ ?_
  refine ensures_bind _ ensures_lift_start fun _ ↦ ensures_frame_assume fun _ ↦ ?_
  refine ensures_bind _ ensures_ensureSafeRoot_start fun _ ↦ ?_
  refine ensures_bind _ ensures_lift_start fun _ ↦ ensures_frame_assume fun _ ↦ ?_
  refine ensures_bind _ ensures_lift_start fun _ ↦ ensures_frame_assume fun _ ↦ ?_
  refine ensures_bind _ ensures_lift_start fun _ ↦ ensures_frame_assume fun hroot ↦ ?_
  refine ensures_of_state fun begun hbegun ↦ ?_
  have hmade := hbegun.2.2.2
  have hvalid : ManifestValidator.validate env.unicode next = .ok () := mapError_eq_ok.mp hnext
  let run : TransactionRun fold := startedRun env .update hfresh hmade (throwIf_eq_ok.mp hroot)
    (fun _ hfile ↦ mem_append_right _ hfile) (distinct_of_validate hvalid)
  refine Ensures.mono (ensures_updateTransaction run rfl wellTimed_startedRun rfl
    fun old hold ↦ mem_append_left _ hold) ?_ (fun _ h ↦ h)
    (fun summary final hfinal ↦ ⟨mapError_eq_ok.mp hprevious, hvalid, hfinal.1, run, rfl, rfl, rfl,
      rfl, rfl, hmade, fun _ hfile ↦ hfile, hfinal.2⟩) fun _ _ h ↦ h
  rintro _ rfl
  exact ⟨hbegun.1, hbegun.2.1, hbegun.2.2.1, rfl⟩

/-! ### The tree of an update that returned -/

namespace TransactionRun

variable {run : TransactionRun fold} {removed done : List FileRecipe}
  {placed : List (FileRecipe × Bytes)} {backed : List Path} {tree : FileTree fold} {path : Path}

theorem Progress.expectedNode_eq_start (h : run.Progress removed done placed backed)
    (hpath : ∀ file ∈ removed ++ done, pathKey fold (run.tx.destination file) ≠ pathKey fold path) :
    run.tx.expectedNode placed backed path = run.tx.start.node path := by
  have hplaced : run.tx.placedContent placed path = none := by
    rw [Transaction.placedContent, Option.map_eq_none_iff, List.find?_eq_none]
    intro entry hentry
    simpa using hpath entry.1 (mem_append_right _ (h.placed_done entry hentry).1)
  have hbacked : ¬ run.tx.IsBacked backed path := by
    rintro ⟨relative, hrelative, hkey⟩
    obtain ⟨file, hfile, rfl⟩ := h.backed_from relative hrelative
    exact hpath file hfile hkey
  simp only [Transaction.expectedNode, hplaced, if_neg hbacked]

theorem node_of_expected (h : run.tx.Outside run.files placed backed tree)
    (hpath : ¬ Mentions fold run.tx.id path) {node : Node}
    (hexpected : run.tx.expectedNode placed backed path = some node) : tree.node path = some node := by
  rcases h path hpath with hnode | ⟨hnone, -⟩
  · rw [hnode, hexpected]
  · rw [hexpected] at hnone
    cases hnone

section

variable (h : run.Progress removed done placed backed)
  (houtside : run.tx.Outside run.files placed backed tree)

include h houtside

theorem Progress.holds_of_done (hdone : ∀ file ∈ done, file ∈ run.files) {file : FileRecipe}
    (hfile : file ∈ done) : Holds run.ctx.env file (run.tx.destination file) tree := by
  obtain ⟨held, hheld⟩ := h.done_placed file hfile
  obtain ⟨content, hcontent⟩ : ∃ content,
      run.tx.placedContent placed (run.tx.destination file) = some content := by
    rw [← Option.isSome_iff_exists, Transaction.placedContent, Option.isSome_map, List.find?_isSome]
    exact ⟨(file, held), hheld, by simp⟩
  obtain ⟨entry, hentry, rfl⟩ := Option.map_eq_some_iff.mp hcontent
  have hselected := List.find?_some hentry
  have hkey : pathKey fold (run.tx.destination entry.1) = pathKey fold (run.tx.destination file) :=
    of_decide_eq_true hselected
  obtain ⟨hentryDone, hmatches⟩ := h.placed_done entry (mem_of_find?_eq_some hentry)
  have hsame : entry.1 = file := by
    by_contra hne
    exact destination_ne (names_ne_of_mem (hdone file hfile) (hdone entry.1 hentryDone) hne) hkey
  refine ⟨entry.2, node_of_expected houtside (run.tx.not_mentions_destination
    (run.unmarked file (run.owned_of_mem file (hdone file hfile)))) ?_, hsame ▸ hmatches⟩
  simp only [Transaction.expectedNode, hcontent]

theorem Progress.not_exists_of_removed {old : FileRecipe} (hold : old ∈ removed)
    (howned : run.owned old)
    (hdone : ∀ file ∈ done, pathKey fold (names file.path) ≠ pathKey fold (names old.path)) :
    tree.fileExists (run.tx.destination old) = false := by
  have hplaced := h.placedContent_eq_none hdone
  have hexpected : ∀ node, run.tx.expectedNode placed backed (run.tx.destination old) = some node →
      run.tx.start.fileExists (run.tx.destination old) = false ∧
        run.tx.start.node (run.tx.destination old) = some node := by
    intro node hnode
    simp only [Transaction.expectedNode, hplaced] at hnode
    split_ifs at hnode with hbacked
    exact ⟨(h.removed_gone old hold).resolve_left hbacked, hnode⟩
  rcases houtside _ (run.tx.not_mentions_destination (run.unmarked old howned)) with
    hnode | ⟨-, hdirectory, -⟩
  · cases hcase : run.tx.expectedNode placed backed (run.tx.destination old) with
    | none => rw [FileTree.fileExists, hnode, hcase]
    | some node =>
      obtain ⟨hexists, hstart⟩ := hexpected node hcase
      rw [FileTree.fileExists, hnode, hcase, ← hstart]
      exact hexists
  · rw [FileTree.fileExists, hdirectory]

/-- A reused file is still there, since nothing that the update has removed or put in place is at
its path. -/
theorem Progress.holds_of_reused {previous : List FileRecipe}
    {file : FileRecipe} (hfile : file ∈ run.files)
    (hhash : Function.Injective run.ctx.env.computeHash)
    (hreal : ∃ content, Matches run.ctx.env file content) (hreused : run.Reused previous file)
    (hother : ∀ other ∈ removed ++ done,
      pathKey fold (names other.path) ≠ pathKey fold (names file.path)) :
    Holds run.ctx.env file (run.tx.destination file) tree := by
  obtain ⟨old, content, -, hsame, hstart, -, hcomputed⟩ := hreused
  obtain ⟨real, hlength, hrealHash⟩ := hreal
  have hreal : content = real := hhash (by rw [hcomputed, hsame, hrealHash])
  refine ⟨content, node_of_expected houtside (run.tx.not_mentions_destination
    (run.unmarked file (run.owned_of_mem file hfile))) ?_, hreal ▸ ⟨hlength, hrealHash⟩⟩
  rw [h.expectedNode_eq_start fun other hmem ↦ destination_ne (hother other hmem), hstart]

end

end TransactionRun

/-! ### The result -/

theorem mem_removedFiles {previous next : Manifest} {old : FileRecipe} :
    old ∈ removedFiles previous next ↔
      old ∈ previous.files ∧ ∀ file ∈ next.files, file.path ≠ old.path := by
  simp [removedFiles, findFile, List.find?_eq_none]

theorem eq_of_pathKey {files : List FileRecipe} (hdistinct : files.Pairwise fun earlier later ↦
      pathKey fold (names earlier.path) ≠ pathKey fold (names later.path))
    {first second : FileRecipe} (hfirst : first ∈ files) (hsecond : second ∈ files)
    (hkey : pathKey fold (names first.path) = pathKey fold (names second.path)) :
    first = second := by
  by_contra hne
  have hsymm : Std.Symm fun earlier later : FileRecipe ↦
      pathKey fold (names earlier.path) ≠ pathKey fold (names later.path) :=
    ⟨fun _ _ h heq ↦ h heq.symm⟩
  exact hdistinct.forall hfirst hsecond hne hkey

theorem UpdateEnd.holdsBuild {env : Environment fold} {previous next : Manifest} {root : Path}
    {id : Text} {start final : FileTree fold} (h : UpdateEnd env previous next root id start final)
    (hprevious : ManifestValidator.validate env.unicode previous = .ok ())
    (hnext : ManifestValidator.validate env.unicode next = .ok ())
    (hhash : Function.Injective env.computeHash)
    (hreal : ∀ file ∈ next.files, ∃ content, Matches env file content) :
    HoldsBuild env next root final := by
  obtain ⟨run, rfl, -, rfl, rfl, hfiles, -, -, hupdated⟩ := h
  obtain ⟨unchangedPaths, placed, backed, hreused, hprogress, houtside⟩ := hupdated.outside
  have hdistinctNext : next.files.Pairwise fun earlier later ↦
      pathKey fold (names earlier.path) ≠ pathKey fold (names later.path) :=
    distinct_of_validate hnext
  have hdistinctPrevious : previous.files.Pairwise fun earlier later ↦
      pathKey fold (names earlier.path) ≠ pathKey fold (names later.path) :=
    distinct_of_validate hprevious
  refine ⟨node_of_expected houtside run.tx.not_mentions_root ?_, fun file hfile ↦ ?_⟩
  · rw [hprogress.expectedNode_eq_start fun other _ ↦ run.tx.destination_ne_root other,
      run.tx.root_directory]
  have hrunFile : file ∈ run.files := hfiles ▸ hfile
  by_cases hchanged : file.path ∈ unchangedPaths
  swap
  · exact hprogress.holds_of_done houtside (fun other hother ↦ mem_of_mem_filter hother)
      (mem_filter.mpr ⟨hrunFile, decide_eq_true hchanged⟩)
  obtain ⟨other, hother, hname, hsame⟩ := hreused file.path hchanged
  obtain rfl : other = file := eq_of_pathKey hdistinctNext (hfiles ▸ hother) hfile (by rw [hname])
  refine hprogress.holds_of_reused houtside hrunFile hhash (hreal _ hfile) hsame
    fun removed hremoved hkey ↦ ?_
  rcases mem_append.mp hremoved with hold | hdone
  · obtain ⟨hmem, hgone⟩ := mem_removedFiles.mp hold
    obtain ⟨old, content, hfound, -⟩ := hsame
    have hold : old ∈ previous.files := mem_of_find?_eq_some hfound
    have hpath : old.path = other.path := by simpa using List.find?_some hfound
    obtain rfl : removed = old :=
      eq_of_pathKey hdistinctPrevious hmem hold (by rw [hkey, hpath])
    exact hgone other hfile hpath.symm
  · obtain ⟨hmem, hplaced⟩ := mem_filter.mp hdone
    obtain rfl : removed = other := eq_of_pathKey hdistinctNext (hfiles ▸ hmem) hfile hkey
    exact of_decide_eq_true hplaced hchanged

/-- What an update has to leave: the build is in place, the files that only the old build had are
gone, all others are as they were, the row of the build is written, nothing of the transaction
remains, and the summary counts every byte of the build once. -/
structure UpdateLeaves (env : Environment fold) (previous next : Manifest) (root : Path) (id : Text)
    (start : World fold) (summary : UpdateSummary) (final : World fold) : Prop where
  verified : ∀ checker : Environment fold, checker.unicode = env.unicode →
    checker.computeHash = env.computeHash →
    (∀ invalid, (verifyAsync checker next root final).result = .ok invalid → invalid = []) ∧
      (checker.Quiet → (verifyAsync checker next root final).result = .ok [])
  removed : ∀ old ∈ previous.files,
    (∀ file ∈ next.files, pathKey fold (names file.path) ≠ pathKey fold (names old.path)) →
    final.tree.fileExists (root ++ names old.path) = false
  others : ∀ path, Below fold root path → ¬ Mentions fold id path →
    (∀ file ∈ previous.files ++ next.files,
      pathKey fold (root ++ names file.path) ≠ pathKey fold path) →
    final.tree.node path = start.tree.node path ∨
      start.tree.node path = none ∧ final.tree.node path = some .directory
  recorded : ∃ time, final.installed = start.installed.upsert (installedGame next root time)
  journal : final.tree.node (journalPathOf root .update id) = none
  backups : Absent (backupRootOf root .update id) final.tree
  staging : Absent (stageRootOf root id) final.tree
  bytes : summary.reusedInstalledBytes + summary.reconstructedBytes =
    (next.files.map FileRecipe.size).sum

/-- An update that returns leaves what it has to.

Assumes: the hash is injective, and the sizes and hashes of the new build are those of contents; the
identifier of the transaction is new. -/
theorem updateAsync_leaves (env : Environment fold) (previous next : Manifest) (root : Path)
    (id : Text) (world : World fold) (summary : UpdateSummary)
    (hhash : Function.Injective env.computeHash)
    (hreal : ∀ file ∈ next.files, ∃ content, Matches env file content)
    (hfresh : Fresh id root (previous.files ++ next.files) world.tree)
    (hreturned : (updateAsync env previous next root id world).result = .ok summary) :
    UpdateLeaves env previous next root id world summary
      (updateAsync env previous next root id world).final := by
  obtain ⟨-, hok, -⟩ := ensures_updateAsync env previous next root id world hfresh world rfl
  obtain ⟨hprevious, hnext, hbytes, hend⟩ := hok summary hreturned
  have hbuild := hend.holdsBuild hprevious hnext hhash hreal
  obtain ⟨run, henv, hoperation, rfl, rfl, hfiles, hmade, howned, hupdated⟩ := hend
  obtain ⟨unchangedPaths, placed, backed, -, hprogress, houtside⟩ := hupdated.outside
  have hdone : ∀ file ∈ run.files.filter (fun file ↦ file.path ∉ unchangedPaths),
      file ∈ next.files := fun file hfile ↦ hfiles ▸ mem_of_mem_filter hfile
  refine ⟨fun checker hunicode hsame ↦ ?_, fun old hold hother ↦ ?_, fun path hroot hpath hother ↦ ?_,
    savesRow_updateAsync previous run.tx.id world summary hreturned, ?_, ?_, hupdated.staging, hbytes⟩
  · refine verifyAsync_of_holdsBuild checker (hunicode ▸ hnext) ⟨hbuild.directory,
      fun file hfile ↦ ?_⟩
    obtain ⟨content, hnode, hlength, hhash⟩ := hbuild.files file hfile
    exact ⟨content, hnode, hlength, hsame ▸ hhash⟩
  · refine hprogress.not_exists_of_removed houtside (mem_removedFiles.mpr ⟨hold, fun file hfile
      hpath ↦ hother file hfile (by rw [hpath])⟩) (howned old (mem_append_left _ hold))
      fun file hfile ↦ hother file (hdone file hfile)
  · have hexpected := hprogress.expectedNode_eq_start fun file hfile ↦ hother file (by
      rcases mem_append.mp hfile with hold | hplaced
      · exact mem_append_left _ (mem_removedFiles.mp hold).1
      · exact mem_append_right _ (hdone file hplaced))
    rcases hmade.extend path with hsame | ⟨hnone, hdirectory⟩
    · rcases houtside path hpath with hnode | ⟨hnone, hdirectory, -⟩
      · exact .inl (by rw [hnode, hexpected, hsame])
      · exact .inr ⟨by rw [← hsame, ← hexpected, hnone], hdirectory⟩
    · exact .inr ⟨hnone, node_of_expected houtside hpath (hexpected.trans hdirectory)⟩
  · rw [← hoperation]
    exact hupdated.journal
  · rw [← hoperation]
    exact hupdated.backups

/-! ### An update on a concrete volume -/

/-- A hash of which the empty content has its BLAKE3 hash. -/
def prefixedHash (content : Bytes) : Text :=
  "af1349b9f5f9a1a6a0404dea36dcc9499bcb25c9adc112b7cc9a93cae41f3262" ++ toHex content

theorem prefixedHash_injective : Function.Injective prefixedHash :=
  fun _ _ h ↦ toHex_injective (append_cancel_left h)

/-- An environment in which nothing fails. -/
def updateEnvironment : Environment id :=
  quietEnvironment id ManifestValidator.asciiUnicode asciiUnicode_upper prefixedHash
    (fun _ ↦ none) some

def oldBuild : Manifest :=
  ManifestValidator.emptyFilesManifest ["game.exe", "data"] "game.exe"

/-- The new build, in which the name of an old file is a directory. -/
def newBuild : Manifest :=
  ManifestValidator.emptyFilesManifest ["game.exe", "data/level"] "game.exe"

def gameRoot : Path := ["games"]

def updateId : Text := "0123456789abcdef0123456789abcdef"

def oldWorld : World id where
  tree := .ofEntries [([], .directory), (gameRoot, .directory),
    (gameRoot ++ ["game.exe".toList], .file []), (gameRoot ++ ["data".toList], .file []),
    (gameRoot ++ ["save".toList], .file [7])] (by decide) (by decide)
  installed := .empty
  clock := 0
  savedAt := none

/-- What the update reports. -/
def oldToNew : UpdateSummary :=
  { reusedInstalledBytes := 0, reconstructedBytes := 0, addedFiles := 1, changedFiles := 1
    removedFiles := 1 }

theorem fresh_updateId :
    Fresh updateId gameRoot (oldBuild.files ++ newBuild.files) oldWorld.tree where
  tree := by
    intro path hpath hmentions
    obtain ⟨node, hnode⟩ := Option.ne_none_iff_exists'.mp hpath
    obtain ⟨spelling, hentry, hkey⟩ := FileTree.exists_mem_entries hnode
    have hentries : ∀ entry ∈ oldWorld.tree.entries, ¬ ∃ name ∈ pathKey id entry.1,
        updateId.map id <:+: name := by decide
    exact hentries (spelling, node) hentry ((mentions_congr hkey).mpr hmentions)
  root := show ¬ ∃ name ∈ pathKey id gameRoot, updateId.map id <:+: name by decide
  files := show ∀ file ∈ oldBuild.files ++ newBuild.files, ¬ ∃ name ∈ pathKey id (names file.path),
    updateId.map id <:+: name by decide

theorem updateAsync_leaves_newBuild :
    UpdateLeaves updateEnvironment oldBuild newBuild gameRoot updateId oldWorld oldToNew
      (updateAsync updateEnvironment oldBuild newBuild gameRoot updateId oldWorld).final :=
  updateAsync_leaves updateEnvironment oldBuild newBuild gameRoot updateId oldWorld oldToNew
    prefixedHash_injective (fun file hfile ↦ ⟨[], by revert file; decide⟩) fresh_updateId
    (by decide)

/-- Where the new build has a directory, the path of an old file that is no path of the new build
is not absent after the update. -/
theorem updateAsync_leaves_directory :
    (updateAsync updateEnvironment oldBuild newBuild gameRoot updateId oldWorld).result =
        .ok oldToNew ∧
      Function.Injective updateEnvironment.computeHash ∧
      (∀ file ∈ oldBuild.files ++ newBuild.files, Matches updateEnvironment file []) ∧
      Fresh updateId gameRoot (oldBuild.files ++ newBuild.files) oldWorld.tree ∧
      ∃ old ∈ oldBuild.files, (∀ file ∈ newBuild.files, file.path ≠ old.path) ∧
        (updateAsync updateEnvironment oldBuild newBuild gameRoot updateId oldWorld).final.tree.node
          (gameRoot ++ names old.path) = some .directory :=
  ⟨by decide, prefixedHash_injective, by decide, fresh_updateId, by decide⟩

end GameLauncher.Installation
