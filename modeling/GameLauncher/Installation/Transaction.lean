import GameLauncher.Installation.Installer

/-!
# What a transaction does to a file tree

A transaction marks everything of its own with its identifier: the journal, the files under
construction, the backup directory and the staging directory. No other path mentions a fresh
identifier, so the tree falls into regions that the transaction treats differently.

`Layout` describes a tree in the middle of a transaction. Outside the marked paths, a path holds the
new file if it was put in place, nothing if the old file was backed up, and otherwise what it held
at the start; the only other change is a directory on the way to a new file. Below the backup
directory lie the originals that were backed up.
-/

set_option autoImplicit false

namespace GameLauncher.Installation

open Foundation Fallible Manifests Process List FileTree

variable {fold : Char → Char}

/-! ### Marked paths -/

variable {first second relative upper : Path} {id name : Text}

/-- Some name of the path contains the identifier, up to the case folding of the volume. -/
def Mentions (fold : Char → Char) (id : Text) (path : Path) : Prop :=
  ∃ name ∈ pathKey fold path, id.map fold <:+: name

theorem mentions_congr (h : pathKey fold first = pathKey fold second) :
    Mentions fold id first ↔ Mentions fold id second := by
  rw [Mentions, Mentions, h]

theorem mentions_append :
    Mentions fold id (first ++ second) ↔ Mentions fold id first ∨ Mentions fold id second := by
  simp only [Mentions, pathKey_append, mem_append, or_and_right, exists_or]

theorem mentions_of_leading (h : pathKey fold first <+: pathKey fold second)
    (hfirst : Mentions fold id first) : Mentions fold id second := by
  obtain ⟨name, hname, hid⟩ := hfirst
  exact ⟨name, h.subset hname, hid⟩

theorem mentions_singleton (h : id <:+: name) : Mentions fold id [name] :=
  ⟨name.map fold, by simp [pathKey], h.map fold⟩

theorem infix_workName (operation : Operation) (id suffix : Text) :
    id <:+: workName operation id suffix :=
  ⟨".launcher-" ++ operation.word ++ "-", suffix, rfl⟩

theorem exists_workName_eq (operation : Operation) (id : Text) :
    ∃ head, ∀ suffix, workName operation id suffix = head ++ suffix :=
  ⟨_, fun _ ↦ rfl⟩

theorem mentions_suffixed (path : Path) {suffix : Text} (h : id <:+: suffix) :
    Mentions fold id (suffixed path suffix) :=
  mentions_append.mpr (.inr (mentions_singleton (h.trans (suffix_append _ _).isInfix)))

theorem infix_partSuffix (id : Text) : id <:+: partSuffix id :=
  ⟨".launcher-", ".part", rfl⟩

theorem suffixed_append {root : Path} {suffix : Text} (h : relative ≠ []) :
    suffixed (root ++ relative) suffix = root ++ suffixed relative suffix := by
  induction relative using List.reverseRecOn with
  | nil => exact absurd rfl h
  | append_singleton before name _ =>
    rw [suffixed, suffixed, ← append_assoc]
    simp

theorem names_ne_nil (path : Text) : names path ≠ [] := splitOn_ne_nil _ _

/-- One path lies strictly above another, up to case folding. -/
def Above (fold : Char → Char) (upper lower : Path) : Prop :=
  pathKey fold upper <+: pathKey fold lower ∧ upper.length < lower.length

theorem above_of_leading_dropLast {lower : Path} (hne : lower ≠ [])
    (h : pathKey fold upper <+: pathKey fold lower.dropLast) : Above fold upper lower := by
  refine ⟨h.trans ?_, ?_⟩
  · rw [pathKey_dropLast]
    exact dropLast_prefix _
  · have hlength := h.length_le
    rw [length_pathKey, length_pathKey, length_dropLast] at hlength
    have := length_pos_of_ne_nil hne
    omega

theorem node_of_above {tree : FileTree fold} {lower : Path} (h : Above fold upper lower)
    (hnode : tree.node lower ≠ none) : tree.node upper = some .directory := by
  by_contra hdirectory
  refine hnode (node_eq_none_of_ancestor hdirectory h.1 fun hkey ↦ ?_)
  have hlength := congrArg List.length hkey
  rw [length_pathKey, length_pathKey] at hlength
  exact absurd h.2 (by omega)

/-! ### Paths below a directory -/

variable {path : Path}

/-- A path at or below a directory, up to the case folding of the volume. -/
def Below (fold : Char → Char) (directory path : Path) : Prop :=
  pathKey fold directory <+: pathKey fold path

instance (directory path : Path) : Decidable (Below fold directory path) :=
  inferInstanceAs (Decidable (_ <+: _))

theorem below_append (directory relative : Path) : Below fold directory (directory ++ relative) := by
  rw [Below, pathKey_append]
  exact prefix_append _ _

theorem Below.length_le {directory : Path} (h : Below fold directory path) :
    directory.length ≤ path.length := by
  have hlength := List.IsPrefix.length_le h
  rwa [length_pathKey, length_pathKey] at hlength

theorem Below.trans {directory : Path} (hupper : Below fold upper directory)
    (h : Below fold directory path) : Below fold upper path :=
  List.IsPrefix.trans hupper h

theorem pathKey_eq_of_below (hfirst : Below fold first path) (hsecond : Below fold second path)
    (hlength : first.length = second.length) : pathKey fold first = pathKey fold second :=
  (prefix_of_prefix_length_le hfirst hsecond (by simp [hlength])).eq_of_length (by
    simp [hlength])

theorem length_beside {root : Path} (hroot : root ≠ []) (name : Text) :
    (root.dropLast ++ [name]).length = root.length := by
  have hpos := length_pos_of_ne_nil hroot
  rw [length_append, length_dropLast, length_singleton]
  omega

theorem length_le_beside (root : Path) (name : Text) :
    root.length ≤ (root.dropLast ++ [name]).length := by
  rw [length_append, length_dropLast, length_singleton]
  omega

/-! ### Transactions -/

/-- A transaction: the tree it starts from, with an existing root, and an identifier that the tree
does not mention. -/
structure Transaction (fold : Char → Char) where
  operation : Operation
  id : Text
  root : Path
  start : FileTree fold
  root_ne_nil : root ≠ []
  root_directory : start.node root = some .directory
  fresh : ∀ path, start.node path ≠ none → ¬ Mentions fold id path

namespace Transaction

variable (tx : Transaction fold)

def backupRoot : Path := backupRootOf tx.root tx.operation tx.id

def journalPath : Path := journalPathOf tx.root tx.operation tx.id

/-- The temporary file of the journal. -/
def journalPart : Path := suffixed tx.journalPath ".part"

def stageRoot : Path := stageRootOf tx.root tx.id

/-- Where a file goes. -/
def destination (file : FileRecipe) : Path := tx.root ++ names file.path

/-- Where a file is constructed. -/
def temporary (file : FileRecipe) : Path := suffixed (tx.destination file) (partSuffix tx.id)

variable {tx}

theorem not_mentions_root : ¬ Mentions fold tx.id tx.root :=
  tx.fresh tx.root (by rw [tx.root_directory]; simp)

theorem mentions_beside (suffix : Text) (operation : Operation) (relative : Path) :
    Mentions fold tx.id
      (tx.root.dropLast ++ [workName operation tx.id suffix] ++ relative) :=
  mentions_append.mpr (.inl (mentions_append.mpr (.inr
    (mentions_singleton (infix_workName operation tx.id suffix)))))

theorem mentions_backup (relative : Path) : Mentions fold tx.id (tx.backupRoot ++ relative) :=
  tx.mentions_beside _ _ relative

theorem mentions_stage (relative : Path) : Mentions fold tx.id (tx.stageRoot ++ relative) :=
  tx.mentions_beside _ _ relative

theorem mentions_journalPath : Mentions fold tx.id tx.journalPath :=
  mentions_append.mpr (.inr (mentions_singleton (infix_workName _ _ _)))

theorem journalPart_eq : tx.journalPart =
    tx.root ++ [workName tx.operation tx.id ".json" ++ ".part"] := by
  simp [journalPart, journalPath, journalPathOf, suffixed]

theorem mentions_journalPart : Mentions fold tx.id tx.journalPart := by
  rw [journalPart_eq]
  refine mentions_append.mpr (.inr (mentions_singleton ?_))
  exact (infix_workName _ _ _).trans (prefix_append _ _).isInfix

theorem temporary_eq (file : FileRecipe) :
    tx.temporary file = tx.root ++ suffixed (names file.path) (partSuffix tx.id) :=
  suffixed_append (names_ne_nil _)

theorem mentions_temporary (file : FileRecipe) : Mentions fold tx.id (tx.temporary file) :=
  mentions_suffixed _ (infix_partSuffix _)

theorem root_prefix_append (relative : Path) :
    pathKey fold tx.root <+: pathKey fold (tx.root ++ relative) := by
  rw [pathKey_append]
  exact prefix_append _ _

theorem not_below_root_of_beside (hname : Mentions fold tx.id [name]) (relative : Path) :
    ¬ pathKey fold tx.root <+: pathKey fold (tx.root.dropLast ++ [name] ++ relative) := by
  intro hleading
  have hroot : tx.root.dropLast ++ [tx.root.getLast tx.root_ne_nil] = tx.root :=
    dropLast_append_getLast _
  have hlength : (pathKey fold tx.root.dropLast ++ pathKey fold [name]).length =
      (pathKey fold tx.root).length := by
    rw [← hroot]
    simp
  have hsame : pathKey fold tx.root = pathKey fold tx.root.dropLast ++ pathKey fold [name] := by
    rw [pathKey_append, pathKey_append] at hleading
    exact (prefix_of_prefix_length_le hleading (prefix_append _ _) hlength.ge).eq_of_length
      hlength.symm
  refine tx.not_mentions_root ?_
  rw [← pathKey_append] at hsame
  rw [mentions_congr hsame]
  exact mentions_append.mpr (.inr hname)

end Transaction

/-! ### The layout of a tree in the middle of a transaction -/

/-- The content of a file is the one its recipe prescribes. -/
def Matches (env : Environment fold) (file : FileRecipe) (content : Bytes) : Prop :=
  content.length = file.size ∧ env.computeHash content = file.blake3

instance (env : Environment fold) (file : FileRecipe) (content : Bytes) :
    Decidable (Matches env file content) :=
  inferInstanceAs (Decidable (_ ∧ _))

namespace Transaction

variable (tx : Transaction fold)

/-- The new content of a path, if one was put there. -/
def placedContent (placed : List (FileRecipe × Bytes)) (path : Path) : Option Bytes :=
  (placed.find? fun entry ↦ pathKey fold (tx.destination entry.1) = pathKey fold path).map Prod.snd

/-- The file that was at the path is in the backup directory. -/
def IsBacked (backed : List Path) (path : Path) : Prop :=
  ∃ relative ∈ backed, pathKey fold (tx.root ++ relative) = pathKey fold path

instance (backed : List Path) (path : Path) : Decidable (tx.IsBacked backed path) :=
  inferInstanceAs (Decidable (∃ relative ∈ backed, _))

/-- What an unmarked path holds once some files are in place and some are backed up, apart from
new directories. -/
def expectedNode (placed : List (FileRecipe × Bytes)) (backed : List Path) (path : Path) :
    Option Node :=
  match tx.placedContent placed path with
  | some content => some (.file content)
  | none => if tx.IsBacked backed path then none else tx.start.node path

/-- What a path below the backup directory holds, apart from directories. -/
def backupNode (backed : List Path) (relative : Path) : Option Node :=
  if tx.IsBacked backed (tx.root ++ relative) then tx.start.node (tx.root ++ relative) else none

/-- The unmarked paths of a tree. -/
def Outside (files : List FileRecipe) (placed : List (FileRecipe × Bytes)) (backed : List Path)
    (tree : FileTree fold) : Prop :=
  ∀ path, ¬ Mentions fold tx.id path → tree.node path = tx.expectedNode placed backed path ∨
    tx.expectedNode placed backed path = none ∧ tree.node path = some .directory ∧
      ∃ file ∈ files, Above fold path (tx.destination file)

/-- The paths below the backup directory: the originals, and directories that the root had. -/
def Backups (backed : List Path) (tree : FileTree fold) : Prop :=
  ∀ relative, tree.node (tx.backupRoot ++ relative) = tx.backupNode backed relative ∨
    tx.backupNode backed relative = none ∧ tree.node (tx.backupRoot ++ relative) = some .directory ∧
      tx.start.node (tx.root ++ relative) = some .directory

/-- The marked paths below the root: the journal, its temporary file, and files under
construction. -/
def Work (attempted : List FileRecipe) (tree : FileTree fold) : Prop :=
  ∀ path, Mentions fold tx.id path → pathKey fold tx.root <+: pathKey fold path →
    tree.node path ≠ none → pathKey fold path = pathKey fold tx.journalPath ∨
      pathKey fold path = pathKey fold tx.journalPart ∨
      ∃ file ∈ attempted, pathKey fold path = pathKey fold (tx.temporary file)

/-- A tree in the middle of a transaction. -/
structure Layout (files attempted : List FileRecipe) (placed : List (FileRecipe × Bytes))
    (backed : List Path) (tree : FileTree fold) : Prop where
  outside : tx.Outside files placed backed tree
  backups : tx.Backups backed tree
  work : tx.Work attempted tree
  backed_file : ∀ relative ∈ backed, ∃ content,
    tx.start.node (tx.root ++ relative) = some (.file content)
  placed_backed : ∀ entry ∈ placed, tx.IsBacked backed (tx.destination entry.1) ∨
    ∀ content, tx.start.node (tx.destination entry.1) ≠ some (.file content)

variable {tx} {files attempted : List FileRecipe} {placed : List (FileRecipe × Bytes)}
  {backed : List Path} {tree made : FileTree fold}

theorem isBacked_congr (h : pathKey fold first = pathKey fold second) :
    tx.IsBacked backed first ↔ tx.IsBacked backed second := by
  rw [IsBacked, IsBacked, h]

theorem placedContent_congr (h : pathKey fold first = pathKey fold second) :
    tx.placedContent placed first = tx.placedContent placed second := by
  rw [placedContent, placedContent, h]

theorem expectedNode_congr (h : pathKey fold first = pathKey fold second) :
    tx.expectedNode placed backed first = tx.expectedNode placed backed second := by
  simp only [expectedNode, placedContent_congr h, isBacked_congr h, tx.start.node_congr h]

theorem destination_ne_root (file : FileRecipe) :
    pathKey fold (tx.destination file) ≠ pathKey fold tx.root := by
  intro h
  have hlength := congrArg List.length h
  simp only [destination, length_pathKey, length_append] at hlength
  exact names_ne_nil file.path (length_eq_zero_iff.mp (by omega))

variable {file : FileRecipe}

theorem not_mentions_destination (h : ¬ Mentions fold tx.id (names file.path)) :
    ¬ Mentions fold tx.id (tx.destination file) := by
  intro hmentions
  rcases mentions_append.mp hmentions with hroot | hnames
  · exact tx.not_mentions_root hroot
  · exact h hnames

theorem layout_start : tx.Layout files [] [] [] tx.start where
  outside := fun _ _ ↦ .inl rfl
  backups := by
    intro relative
    left
    have hnode : tx.start.node (tx.backupRoot ++ relative) = none := by
      by_contra hsome
      exact tx.fresh _ hsome (tx.mentions_backup relative)
    rw [hnode]
    simp [backupNode, IsBacked]
  work := fun path hmentions _ hnode ↦ absurd hmentions (tx.fresh path hnode)
  backed_file := fun _ h ↦ absurd h not_mem_nil
  placed_backed := fun _ h ↦ absurd h not_mem_nil

section

variable (h : tx.Layout files attempted placed backed tree)

include h

theorem Layout.of_work_change
    {attempted' : List FileRecipe} (hattempted : ∀ file ∈ attempted, file ∈ attempted')
    (hchanged : ∀ path, made.node path ≠ tree.node path →
      pathKey fold path = pathKey fold tx.journalPath ∨
        pathKey fold path = pathKey fold tx.journalPart ∨
        ∃ file ∈ attempted', pathKey fold path = pathKey fold (tx.temporary file)) :
    tx.Layout files attempted' placed backed made := by
  have hregion (path : Path) (hne : made.node path ≠ tree.node path) :
      Mentions fold tx.id path ∧ pathKey fold tx.root <+: pathKey fold path := by
    rcases hchanged path hne with hkey | hkey | ⟨file, -, hkey⟩
    · rw [mentions_congr hkey, hkey]
      exact ⟨tx.mentions_journalPath, tx.root_prefix_append _⟩
    · rw [mentions_congr hkey, hkey, journalPart_eq]
      exact ⟨tx.journalPart_eq ▸ tx.mentions_journalPart, tx.root_prefix_append _⟩
    · rw [mentions_congr hkey, hkey, temporary_eq]
      exact ⟨tx.temporary_eq file ▸ tx.mentions_temporary file, tx.root_prefix_append _⟩
  refine ⟨fun path hpath ↦ ?_, fun relative ↦ ?_, fun path hmentions hroot hnode ↦ ?_,
    h.backed_file, h.placed_backed⟩
  · have hsame : made.node path = tree.node path := by
      by_contra hne
      exact hpath (hregion path hne).1
    rw [hsame]
    exact h.outside path hpath
  · have hsame : made.node (tx.backupRoot ++ relative) = tree.node (tx.backupRoot ++ relative) := by
      by_contra hne
      exact tx.not_below_root_of_beside (mentions_singleton (infix_workName _ _ _)) relative
        (hregion _ hne).2
    rw [hsame]
    exact h.backups relative
  · by_cases hsame : made.node path = tree.node path
    · rw [hsame] at hnode
      rcases h.work path hmentions hroot hnode with hkey | hkey | ⟨file, hfile, hkey⟩
      · exact .inl hkey
      · exact .inr (.inl hkey)
      · exact .inr (.inr ⟨file, hattempted file hfile, hkey⟩)
    · exact hchanged path hsame

theorem not_isBacked_root : ¬ tx.IsBacked backed tx.root := by
  rintro ⟨relative, hrelative, hkey⟩
  obtain ⟨content, hcontent⟩ := h.backed_file relative hrelative
  rw [tx.start.node_congr hkey, tx.root_directory] at hcontent
  cases hcontent

theorem Layout.root_directory : tree.node tx.root = some .directory := by
  have hplaced : tx.placedContent placed tx.root = none := by
    rw [placedContent, Option.map_eq_none_iff, List.find?_eq_none]
    intro entry _
    simpa using tx.destination_ne_root entry.1
  have hexpected : tx.expectedNode placed backed tx.root = some .directory := by
    simp only [expectedNode, hplaced, if_neg (not_isBacked_root h), tx.root_directory]
  rcases h.outside tx.root tx.not_mentions_root with hnode | ⟨hnone, -⟩
  · rw [hnode, hexpected]
  · rw [hexpected] at hnone
    cases hnone

theorem Layout.beside_of_changed (hextends : FileTree.ExtendsByDirectories tree made)
    (hleading : pathKey fold path <+: pathKey fold (tx.root.dropLast ++ [name] ++ relative))
    (hne : made.node path ≠ tree.node path) :
    pathKey fold (tx.root.dropLast ++ [name]) <+: pathKey fold path := by
  have hbeside : pathKey fold (tx.root.dropLast ++ [name]) <+:
      pathKey fold (tx.root.dropLast ++ [name] ++ relative) := by
    rw [pathKey_append fold (tx.root.dropLast ++ [name])]
    exact prefix_append _ _
  rcases prefix_or_prefix_of_prefix hbeside hleading with hdone | hshort
  · exact hdone
  by_cases hlength : tx.root.dropLast.length < path.length
  · -- a prefix with as many names is the whole path
    have hsame := hshort.eq_of_length_le (by
      rw [length_pathKey, length_pathKey, length_append, length_singleton]
      omega)
    rw [hsame]
  · exfalso
    have habove : Above fold path tx.root := by
      refine above_of_leading_dropLast tx.root_ne_nil ?_
      rw [pathKey_append] at hshort
      refine prefix_of_prefix_length_le hshort (prefix_append _ _) ?_
      rw [length_pathKey, length_pathKey]
      omega
    have hdirectory := node_of_above habove (by rw [h.root_directory]; simp)
    rcases hextends path with hsame | ⟨hnone, -⟩
    · exact hne hsame
    · rw [hdirectory] at hnone
      cases hnone

theorem Layout.createDirectory_destination (hfile : file ∈ files)
    (hunmarked : ¬ Mentions fold tx.id (names file.path))
    (hmade : tree.createDirectory (tx.destination file).dropLast = .ok made) :
    tx.Layout files attempted placed backed made := by
  obtain ⟨hextends, -, hchanged⟩ := createDirectory_eq_ok hmade
  have hne : tx.destination file ≠ [] := by
    intro hnil
    exact names_ne_nil _ (append_eq_nil_iff.mp hnil).2
  have habove (path : Path) (hpath : made.node path ≠ tree.node path) :
      Above fold path (tx.destination file) := above_of_leading_dropLast hne (hchanged path hpath)
  have hmarked (path : Path) (hmentions : Mentions fold tx.id path) :
      made.node path = tree.node path := by
    by_contra hpath
    exact tx.not_mentions_destination hunmarked (mentions_of_leading (habove path hpath).1 hmentions)
  refine ⟨fun path hpath ↦ ?_, fun relative ↦ ?_, fun path hmentions ↦ ?_, h.backed_file,
    h.placed_backed⟩
  · by_cases hsame : made.node path = tree.node path
    · rw [hsame]
      exact h.outside path hpath
    · obtain ⟨hnone, hdirectory⟩ := (hextends path).resolve_left hsame
      rcases h.outside path hpath with hnode | ⟨-, hnode, -⟩
      · rw [hnone] at hnode
        exact .inr ⟨hnode.symm, hdirectory, file, hfile, habove path hsame⟩
      · rw [hnone] at hnode
        cases hnode
  · rw [hmarked _ (tx.mentions_backup relative)]
    exact h.backups relative
  · rw [hmarked path hmentions]
    exact h.work path hmentions

theorem Layout.createDirectory_below_backup
    (hstart : tx.start.node (tx.root ++ relative) = some .directory)
    (hmade : tree.createDirectory (tx.backupRoot ++ relative) = .ok made) :
    tx.Layout files attempted placed backed made := by
  obtain ⟨hextends, -, hchanged⟩ := createDirectory_eq_ok hmade
  have hbelow (path : Path) (hpath : made.node path ≠ tree.node path) :
      pathKey fold tx.backupRoot <+: pathKey fold path :=
    h.beside_of_changed hextends (hchanged path hpath) hpath
  refine ⟨fun path hpath ↦ ?_, fun other ↦ ?_, fun path hmentions hroot ↦ ?_, h.backed_file,
    h.placed_backed⟩
  · have hsame : made.node path = tree.node path := by
      by_contra hchange
      refine hpath (mentions_of_leading (hbelow path hchange) ?_)
      simpa using tx.mentions_backup []
    rw [hsame]
    exact h.outside path hpath
  · by_cases hsame : made.node (tx.backupRoot ++ other) = tree.node (tx.backupRoot ++ other)
    · rw [hsame]
      exact h.backups other
    · obtain ⟨hnone, hdirectory⟩ := (hextends _).resolve_left hsame
      have hleading := hchanged _ hsame
      rw [pathKey_append, pathKey_append, prefix_append_right_inj] at hleading
      have hstartDirectory : tx.start.node (tx.root ++ other) = some .directory := by
        by_cases hkey : pathKey fold (tx.root ++ other) = pathKey fold (tx.root ++ relative)
        · rw [tx.start.node_congr hkey, hstart]
        · by_contra hdirectory
          have hnone := node_eq_none_of_ancestor hdirectory (by
            rw [pathKey_append, pathKey_append, prefix_append_right_inj]
            exact hleading) hkey
          rw [hstart] at hnone
          cases hnone
      rcases h.backups other with hnode | ⟨-, hnode, -⟩
      · rw [hnone] at hnode
        exact .inr ⟨hnode.symm, hdirectory, hstartDirectory⟩
      · rw [hnone] at hnode
        cases hnode
  · have hsame : made.node path = tree.node path := by
      by_contra hchange
      obtain ⟨below, hkey, -⟩ := exists_append_of_leading (hbelow path hchange)
      rw [← hkey] at hroot
      exact tx.not_below_root_of_beside (mentions_singleton (infix_workName _ _ _)) below hroot
    rw [hsame]
    exact h.work path hmentions hroot

end

variable {content : Bytes}

theorem Layout.createDirectory_backup (h : tx.Layout files attempted placed backed tree)
    (hne : relative ≠ []) (hstart : tx.start.node (tx.root ++ relative) = some (.file content))
    (hmade : tree.createDirectory (tx.backupRoot ++ relative).dropLast = .ok made) :
    tx.Layout files attempted placed backed made := by
  rw [dropLast_append_of_ne_nil hne] at hmade
  refine h.createDirectory_below_backup ?_ hmade
  rw [← dropLast_append_of_ne_nil hne]
  refine node_of_above (above_of_leading_dropLast ?_ (prefix_refl _)) (by rw [hstart]; simp)
  simp [hne]

theorem not_below_root_of_stage (h : Below fold tx.stageRoot path) : ¬ Below fold tx.root path := by
  intro hroot
  have hkey := pathKey_eq_of_below hroot h (length_beside tx.root_ne_nil _).symm
  refine tx.not_mentions_root ((mentions_congr hkey).mpr ?_)
  simpa using tx.mentions_stage []

theorem not_below_backup_of_stage (hupdate : tx.operation = .update)
    (h : Below fold tx.stageRoot path) : ¬ Below fold tx.backupRoot path := by
  intro hbackup
  have hbackupLength : tx.backupRoot.length = tx.root.length := length_beside tx.root_ne_nil _
  have hstageLength : tx.stageRoot.length = tx.root.length := length_beside tx.root_ne_nil _
  have hkey := pathKey_eq_of_below hbackup h (hbackupLength.trans hstageLength.symm)
  rw [backupRoot, stageRoot, backupRootOf, stageRootOf, hupdate, pathKey_append, pathKey_append,
    append_cancel_left_eq] at hkey
  have hlength := congrArg List.length (head_eq_of_cons_eq hkey)
  have hsuffix : ".backup".toList.length ≠ ".staging".toList.length := by decide
  obtain ⟨head, hhead⟩ := exists_workName_eq .update tx.id
  rw [length_map, length_map, hhead, hhead, length_append, length_append] at hlength
  exact hsuffix (Nat.add_left_cancel hlength)

theorem Layout.of_stage_change (h : tx.Layout files attempted placed backed tree)
    (hupdate : tx.operation = .update)
    (hchanged : ∀ path, made.node path ≠ tree.node path → Below fold tx.stageRoot path) :
    tx.Layout files attempted placed backed made := by
  have hsame (path : Path) (hpath : ¬ Below fold tx.stageRoot path) :
      made.node path = tree.node path := by
    by_contra hne
    exact hpath (hchanged path hne)
  refine ⟨fun path hpath ↦ ?_, fun relative ↦ ?_, fun path hmentions hroot ↦ ?_, h.backed_file,
    h.placed_backed⟩
  · rw [hsame path fun hstage ↦ hpath (mentions_of_leading hstage ?_)]
    · exact h.outside path hpath
    · simpa using tx.mentions_stage []
  · rw [hsame _ fun hstage ↦ not_below_backup_of_stage hupdate hstage (below_append _ _)]
    exact h.backups relative
  · rw [hsame path fun hstage ↦ not_below_root_of_stage hstage hroot]
    exact h.work path hmentions hroot

theorem Layout.of_backup_removal (h : tx.Layout files attempted placed [] tree)
    (hnode : ∀ path, made.node path =
      if Below fold tx.backupRoot path then none else tree.node path) :
    tx.Layout files attempted placed [] made := by
  refine ⟨fun path hpath ↦ ?_, fun relative ↦ ?_, fun path hmentions hroot ↦ ?_, h.backed_file,
    h.placed_backed⟩
  · have hbackup : ¬ Below fold tx.backupRoot path := by
      intro hbelow
      refine hpath (mentions_of_leading hbelow ?_)
      simpa using tx.mentions_backup []
    rw [hnode, if_neg hbackup]
    exact h.outside path hpath
  · left
    rw [hnode, if_pos (below_append _ _)]
    simp [backupNode, IsBacked]
  · rw [hnode, if_neg]
    · exact h.work path hmentions hroot
    · intro hbackup
      obtain ⟨below, hkey, -⟩ := exists_append_of_leading hbackup
      rw [← hkey] at hroot
      exact tx.not_below_root_of_beside (mentions_singleton (infix_workName _ _ _)) below hroot

theorem Layout.stage_of_createDirectory (h : tx.Layout files attempted placed backed tree)
    (hmade : tree.createDirectory (tx.stageRoot ++ relative) = .ok made) :
    ∀ path, made.node path ≠ tree.node path → Below fold tx.stageRoot path := by
  obtain ⟨hextends, -, hchanged⟩ := createDirectory_eq_ok hmade
  intro path hpath
  exact h.beside_of_changed hextends (hchanged path hpath) hpath

theorem isBacked_cons :
    tx.IsBacked (relative :: backed) path ↔
      pathKey fold (tx.root ++ relative) = pathKey fold path ∨ tx.IsBacked backed path := by
  simp [IsBacked]

theorem placedContent_cons {entry : FileRecipe × Bytes} :
    tx.placedContent (entry :: placed) path =
      if pathKey fold (tx.destination entry.1) = pathKey fold path then some entry.2
      else tx.placedContent placed path := by
  unfold placedContent
  by_cases hkey : pathKey fold (tx.destination entry.1) = pathKey fold path <;> simp [hkey]

section

variable (h : tx.Layout files attempted placed backed tree)

include h

theorem Layout.file_of_not_placed {node : Node} (hunmarked : ¬ Mentions fold tx.id path)
    (hplaced : tx.placedContent placed path = none) (hnode : tree.node path = some node)
    (hfile : node ≠ .directory) : ¬ tx.IsBacked backed path ∧ tx.start.node path = some node := by
  rcases h.outside path hunmarked with hexpected | ⟨-, hdirectory, -⟩
  · rw [hnode] at hexpected
    by_cases hbacked : tx.IsBacked backed path
    · simp only [expectedNode, hplaced, if_pos hbacked, reduceCtorEq] at hexpected
    · simp only [expectedNode, hplaced, if_neg hbacked] at hexpected
      exact ⟨hbacked, hexpected.symm⟩
  · rw [hnode] at hdirectory
    exact absurd (Option.some.inj hdirectory) hfile

theorem Layout.moveFile_backup (hunmarked : ¬ Mentions fold tx.id (names file.path))
    (hplaced : tx.placedContent placed (tx.destination file) = none)
    (hcontent : tree.node (tx.destination file) = some (.file content))
    (hmade : tree.moveFile (tx.destination file) (tx.backupRoot ++ names file.path) = .ok made) :
    tx.Layout files attempted placed (names file.path :: backed) made ∧
      made.node (tx.destination file) = none := by
  obtain ⟨moved, hmoved, -, -, hnodes⟩ := moveFile_eq_ok hmade
  obtain rfl : .file content = moved := Option.some.inj (hcontent.symm.trans hmoved)
  have hdestination := tx.not_mentions_destination hunmarked
  obtain ⟨-, hstart⟩ := h.file_of_not_placed hdestination hplaced hcontent (by simp)
  have hbackupKey (path : Path) (hpath : ¬ Mentions fold tx.id path) :
      ¬ pathKey fold path = pathKey fold (tx.backupRoot ++ names file.path) := fun hkey ↦
    hpath ((mentions_congr hkey).mpr (tx.mentions_backup _))
  refine ⟨⟨fun path hpath ↦ ?_, fun relative ↦ ?_, fun path hmentions hroot hnode ↦ ?_,
    fun relative hrelative ↦ ?_, fun entry hentry ↦ ?_⟩, ?_⟩
  · rw [hnodes path, if_neg (hbackupKey path hpath)]
    by_cases hkey : pathKey fold path = pathKey fold (tx.destination file)
    · left
      have hnow : tx.IsBacked (names file.path :: backed) (tx.destination file) :=
        isBacked_cons.mpr (.inl rfl)
      rw [if_pos hkey, expectedNode_congr hkey]
      simp only [expectedNode, hplaced, if_pos hnow]
    · rw [if_neg hkey]
      have hsame : tx.expectedNode placed (names file.path :: backed) path =
          tx.expectedNode placed backed path := by
        have hbacked : tx.IsBacked (names file.path :: backed) path ↔ tx.IsBacked backed path := by
          rw [isBacked_cons]
          exact or_iff_right fun hother ↦ hkey hother.symm
        simp only [expectedNode, hbacked]
      rw [hsame]
      exact h.outside path hpath
  · rw [hnodes (tx.backupRoot ++ relative)]
    have hsource : ¬ pathKey fold (tx.backupRoot ++ relative) =
        pathKey fold (tx.destination file) := fun hkey ↦
      hdestination ((mentions_congr hkey).mp (tx.mentions_backup _))
    rw [if_neg hsource]
    have hiff : pathKey fold (tx.backupRoot ++ relative) =
        pathKey fold (tx.backupRoot ++ names file.path) ↔
        pathKey fold (tx.destination file) = pathKey fold (tx.root ++ relative) := by
      rw [destination, pathKey_append, pathKey_append, pathKey_append, pathKey_append,
        append_cancel_left_eq, append_cancel_left_eq]
      exact eq_comm
    by_cases hkey : pathKey fold (tx.destination file) = pathKey fold (tx.root ++ relative)
    · left
      rw [if_pos (hiff.mpr hkey), backupNode, if_pos (isBacked_cons.mpr (.inl hkey)),
        ← tx.start.node_congr hkey, hstart]
    · rw [if_neg fun hother ↦ hkey (hiff.mp hother)]
      have hbacked : tx.IsBacked (names file.path :: backed) (tx.root ++ relative) ↔
          tx.IsBacked backed (tx.root ++ relative) := by
        rw [isBacked_cons]
        exact or_iff_right hkey
      have hsame : tx.backupNode (names file.path :: backed) relative =
          tx.backupNode backed relative := by
        simp only [backupNode, hbacked]
      rw [hsame]
      exact h.backups relative
  · rw [hnodes path] at hnode
    have hbackup : ¬ pathKey fold path = pathKey fold (tx.backupRoot ++ names file.path) := by
      intro hkey
      rw [hkey] at hroot
      exact tx.not_below_root_of_beside (mentions_singleton (infix_workName _ _ _)) _ hroot
    have hsource : ¬ pathKey fold path = pathKey fold (tx.destination file) := fun hkey ↦
      hdestination ((mentions_congr hkey).mp hmentions)
    rw [if_neg hbackup, if_neg hsource] at hnode
    exact h.work path hmentions hroot hnode
  · rcases mem_cons.mp hrelative with rfl | hrelative
    · exact ⟨content, hstart⟩
    · exact h.backed_file relative hrelative
  · exact (h.placed_backed entry hentry).imp_left fun hbacked ↦ isBacked_cons.mpr (.inr hbacked)
  · rw [hnodes, if_neg (hbackupKey _ hdestination), if_pos rfl]

theorem Layout.moveFile_destination {source : Path}
    (hunmarked : ¬ Mentions fold tx.id (names file.path)) (hmarked : Mentions fold tx.id source)
    (hbackup : ∀ relative, pathKey fold (tx.backupRoot ++ relative) ≠ pathKey fold source)
    (hcontent : tree.node source = some (.file content))
    (hplaced : tx.placedContent placed (tx.destination file) = none)
    (habsent : tree.fileExists (tx.destination file) = false)
    (hmade : tree.moveFile source (tx.destination file) = .ok made) :
    tx.Layout files attempted ((file, content) :: placed) backed made := by
  obtain ⟨moved, hmoved, -, -, hnodes⟩ := moveFile_eq_ok hmade
  obtain rfl : .file content = moved := Option.some.inj (hcontent.symm.trans hmoved)
  have hdestination := tx.not_mentions_destination hunmarked
  refine ⟨fun path hpath ↦ ?_, fun relative ↦ ?_, fun path hmentions hroot hnode ↦ ?_,
    h.backed_file, fun entry hentry ↦ ?_⟩
  · rw [hnodes path]
    have hsource : ¬ pathKey fold path = pathKey fold source := fun hkey ↦
      hpath ((mentions_congr hkey).mpr hmarked)
    by_cases hkey : pathKey fold path = pathKey fold (tx.destination file)
    · left
      rw [if_pos hkey]
      simp only [expectedNode, placedContent_cons, if_pos hkey.symm]
    · rw [if_neg hkey, if_neg hsource]
      have hsame : tx.expectedNode ((file, content) :: placed) backed path =
          tx.expectedNode placed backed path := by
        simp only [expectedNode, placedContent_cons, if_neg (Ne.symm hkey)]
      rw [hsame]
      exact h.outside path hpath
  · rw [hnodes]
    have hother : ¬ pathKey fold (tx.backupRoot ++ relative) =
        pathKey fold (tx.destination file) := fun hkey ↦
      hdestination ((mentions_congr hkey).mp (tx.mentions_backup _))
    rw [if_neg hother, if_neg (hbackup relative)]
    exact h.backups relative
  · rw [hnodes path] at hnode
    have hother : ¬ pathKey fold path = pathKey fold (tx.destination file) := fun hkey ↦
      hdestination ((mentions_congr hkey).mp hmentions)
    rw [if_neg hother] at hnode
    refine h.work path hmentions hroot fun hnone ↦ hnode ?_
    rw [hnone, ite_self]
  · rcases mem_cons.mp hentry with rfl | hentry
    · by_contra hcase
      rw [not_or, not_forall] at hcase
      obtain ⟨hbacked, original, hstart⟩ := hcase
      rw [not_not] at hstart
      have hexpected : tx.expectedNode placed backed (tx.destination file) =
          some (.file original) := by
        simp only [expectedNode, hplaced, if_neg hbacked, hstart]
      rcases h.outside _ hdestination with hnode | ⟨hnone, -⟩
      · rw [FileTree.fileExists, hnode, hexpected] at habsent
        cases habsent
      · rw [hexpected] at hnone
        cases hnone
    · exact h.placed_backed entry hentry

end

end Transaction

end GameLauncher.Installation
