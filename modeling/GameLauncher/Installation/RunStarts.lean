import Mathlib.Logic.Function.Basic
import GameLauncher.Installation.CommitRuns

/-!
# How a transaction starts

`InstallAsync` and `UpdateAsync` first validate their manifests and make the root. From there on
they are a `TransactionRun`: the root is a directory, the paths of a manifest differ on the volume
because they differ in more than letter case, and nothing mentions the new identifier.
-/

set_option autoImplicit false

namespace GameLauncher.Installation

open Foundation Fallible Manifests Process List

variable {fold : Char → Char}

/-! ### Paths of one manifest -/

theorem mapError_eq_ok {ε ε' α : Type} {change : ε → ε'} {result : Except ε α} {value : α} :
    result.mapError change = .ok value ↔ result = .ok value := by
  cases result <;> simp [Except.mapError]

theorem map_intercalate (change : Char → Char) (separator : Text) (parts : List Text) :
    (separator.intercalate parts).map change =
      (separator.map change).intercalate (parts.map (List.map change)) := by
  induction parts with
  | nil => rfl
  | cons first rest ih =>
    cases rest with
    | nil => simp
    | cons second others =>
      rw [intercalate_cons_cons, map_append, map_append, ih, map_cons,
        map_cons, map_cons, intercalate_cons_cons]

theorem equalsIgnoreCase_of_pathKey (env : Environment fold) {first second : Text}
    (h : pathKey fold (names first) = pathKey fold (names second)) :
    env.unicode.equalsIgnoreCase first second = true := by
  obtain ⟨change, hchange⟩ :=
    (Function.factorsThrough_iff env.unicode.upper).mp fun c d ↦ env.upper_of_fold c d
  have hupper (path : Text) : path.map env.unicode.upper = (['/'].map env.unicode.upper).intercalate
        ((pathKey fold (names path)).map (List.map change)) := by
    have hjoin : ['/'].intercalate (names path) = path := intercalate_splitOn '/'
    rw [pathKey, map_map, map_comp_map, ← hchange, ← map_intercalate, hjoin]
  rw [Unicode.equalsIgnoreCase, beq_iff_eq, Unicode.toUpperInvariant, Unicode.toUpperInvariant,
    hupper first, h, ← hupper second]

theorem distinct_of_validate {env : Environment fold} {manifest : Manifest}
    (h : ManifestValidator.validate env.unicode manifest = .ok ()) :
    manifest.files.Pairwise fun earlier later ↦
      pathKey fold (names earlier.path) ≠ pathKey fold (names later.path) := by
  refine (ManifestValidator.paths_of_validate h).2.imp fun hdistinct hkey ↦ ?_
  rw [equalsIgnoreCase_of_pathKey env hkey.symm] at hdistinct
  cases hdistinct

/-! ### New identifiers -/

/-- Neither the tree nor the root nor a path of the files mentions the identifier. -/
structure Fresh (id : Text) (root : Path) (files : List FileRecipe) (tree : FileTree fold) :
    Prop where
  tree : ∀ path, tree.node path ≠ none → ¬ Mentions fold id path
  root : ¬ Mentions fold id root
  files : ∀ file ∈ files, ¬ Mentions fold id (names file.path)

structure RootMade (root : Path) (tree made : FileTree fold) : Prop where
  extend : FileTree.ExtendsByDirectories tree made
  directory : made.node root = some .directory
  above : ∀ path, made.node path ≠ tree.node path → Below fold path root

theorem Fresh.of_rootMade {id : Text} {root : Path} {files : List FileRecipe}
    {tree made : FileTree fold} (h : Fresh id root files tree) (hmade : RootMade root tree made) :
    ∀ path, made.node path ≠ none → ¬ Mentions fold id path := by
  intro path hpath hmentions
  by_cases hsame : made.node path = tree.node path
  · exact h.tree path (hsame ▸ hpath) hmentions
  · exact h.root (mentions_of_leading (hmade.above path hsame) hmentions)

def transactionOf (operation : Operation) {id : Text} {root : Path} {files : List FileRecipe}
    {tree made : FileTree fold} (hfresh : Fresh id root files tree)
    (hmade : RootMade root tree made) (hroot : root ≠ []) : Transaction fold where
  operation := operation
  id := id
  root := root
  start := made
  root_ne_nil := hroot
  root_directory := hmade.directory
  fresh := hfresh.of_rootMade hmade

namespace Context

variable {ctx : Context fold}

theorem keeps_ensureSafeRoot (hnot : ¬ ctx.favourable) {root : Path} {start : FileTree fold}
    (hsafe : ∀ tree, FileTree.ExtendsByDirectories start tree → ctx.safe tree) :
    ctx.Keeps (fun tree ↦ tree = start) (ensureSafeRoot ctx.env root)
      (fun _ ↦ RootMade root start) (FileTree.ExtendsByDirectories start) := by
  refine keeps_bind (fun _ ↦ RootMade root start) (keeps_operation_of_ok hnot ?_ ?_ ?_) fun _ ↦
    keeps_bind (fun _ ↦ RootMade root start) ((keeps_hasReparsePoint hnot fun tree htree ↦
      hsafe tree htree.extend).mono (fun _ htree ↦ htree) (fun _ _ htree ↦ htree.1)
        fun _ htree ↦ htree.extend) fun linked ↦ keeps_ite
          (fun _ ↦ keeps_fail_of_not hnot fun _ htree ↦ htree.extend)
          fun _ ↦ keeps_pure fun _ htree ↦ htree
  · rintro tree rfl
    exact hsafe tree (.refl tree)
  · rintro tree rfl
    exact .refl tree
  · rintro tree made rfl hmade
    obtain ⟨hextends, hdirectory, habove⟩ := FileTree.createDirectory_eq_ok hmade
    exact ⟨hsafe made hextends, hextends, hdirectory, habove⟩

end Context

/-! ### No file is lost -/

/-- Every file under the root at the start is at its path or at the same path in the backup
directory. -/
def Kept (root backupRoot : Path) (start tree : FileTree fold) : Prop :=
  ∀ relative content, start.node (root ++ relative) = some (.file content) →
    tree.node (root ++ relative) = some (.file content) ∨
      tree.node (backupRoot ++ relative) = some (.file content)

theorem kept_of_extendsByDirectories {root backupRoot : Path} {start tree : FileTree fold}
    (h : FileTree.ExtendsByDirectories start tree) : Kept root backupRoot start tree := by
  intro relative content hcontent
  left
  rcases h (root ++ relative) with hsame | ⟨hnone, -⟩
  · rw [hsame, hcontent]
  · rw [hcontent] at hnone
    cases hnone

theorem Kept.of_start {root backupRoot : Path} {start made tree : FileTree fold}
    (hmade : FileTree.ExtendsByDirectories start made) (h : Kept root backupRoot made tree) :
    Kept root backupRoot start tree := by
  intro relative content hcontent
  refine h relative content ?_
  rcases hmade (root ++ relative) with hsame | ⟨hnone, -⟩
  · rw [hsame, hcontent]
  · rw [hcontent] at hnone
    cases hnone

namespace Transaction

variable {tx : Transaction fold} {files attempted : List FileRecipe}
  {placed : List (FileRecipe × Bytes)} {backed : List Path} {tree : FileTree fold}

theorem Layout.isBacked_of_placed (h : tx.Layout files attempted placed backed tree) {path : Path}
    {content original : Bytes} (hplaced : tx.placedContent placed path = some content)
    (hstart : tx.start.node path = some (.file original)) : tx.IsBacked backed path := by
  obtain ⟨entry, hentry, -⟩ := Option.map_eq_some_iff.mp hplaced
  have hselected := List.find?_some hentry
  have hkey : pathKey fold (tx.destination entry.1) = pathKey fold path :=
    of_decide_eq_true hselected
  rcases h.placed_backed entry (mem_of_find?_eq_some hentry) with hbacked | hother
  · exact (isBacked_congr hkey).mp hbacked
  · rw [← tx.start.node_congr hkey] at hstart
    exact absurd hstart (hother original)

/-- In the middle of a transaction no original is lost. -/
theorem Layout.kept (h : tx.Layout files attempted placed backed tree) :
    Kept tx.root tx.backupRoot tx.start tree := by
  intro relative content hcontent
  by_cases hbacked : tx.IsBacked backed (tx.root ++ relative)
  · right
    rcases h.backups relative with hnode | ⟨hnone, -⟩
    · rw [hnode, backupNode, if_pos hbacked, hcontent]
    · rw [backupNode, if_pos hbacked, hcontent] at hnone
      cases hnone
  · left
    have hunmarked : ¬ Mentions fold tx.id (tx.root ++ relative) :=
      tx.fresh _ (by rw [hcontent]; simp)
    have hplaced : tx.placedContent placed (tx.root ++ relative) = none := by
      by_contra hsome
      obtain ⟨found, hfound⟩ := Option.ne_none_iff_exists'.mp hsome
      exact hbacked (h.isBacked_of_placed hfound hcontent)
    have hexpected : tx.expectedNode placed backed (tx.root ++ relative) =
        some (.file content) := by
      simp only [expectedNode, hplaced, if_neg hbacked, hcontent]
    rcases h.outside _ hunmarked with hnode | ⟨hnone, -⟩
    · rw [hnode, hexpected]
    · rw [hexpected] at hnone
      cases hnone

end Transaction

/-! ### The run that starts in a world -/

/-- As long as the table has not been written, or was written by the step that led to the state, no
original is lost. -/
def KeptUntilSaved (root backupRoot : Path) (world visited : World fold) : Prop :=
  NotYetSaved world.savedAt visited → world.WellTimed → Kept root backupRoot world.tree visited.tree

def startContext (env : Environment fold) (world : World fold) (root backupRoot : Path) :
    Context fold where
  env := env
  installed := world.installed
  savedAt := world.savedAt
  bound := world.clock
  safe := fun tree ↦ world.WellTimed → Kept root backupRoot world.tree tree
  favourable := False
  quiet := False.elim

section Start

open Context

variable {env : Environment fold} {world : World fold} {root backupRoot : Path} {α : Type}
  {before : FileTree fold → Prop}

theorem not_favourable_startContext : ¬ (startContext env world root backupRoot).favourable :=
  fun himpossible ↦ himpossible

theorem ensures_of_keeps_start {task : Task fold α} {after : α → FileTree fold → Prop}
    (h : (startContext env world root backupRoot).Keeps before task after fun _ ↦ True) :
    Ensures ((startContext env world root backupRoot).frame before) task
      (KeptUntilSaved root backupRoot world)
      (fun value ↦ (startContext env world root backupRoot).frame (after value))
      fun _ _ ↦ True :=
  Ensures.mono h (fun _ hworld ↦ hworld) (fun _ hworld _ ↦ hworld.2.2.2) (fun _ _ hworld ↦ hworld)
    fun _ _ _ ↦ trivial

theorem ensures_lift_start {result : Except Failure α} :
    Ensures ((startContext env world root backupRoot).frame before) (lift result)
      (KeptUntilSaved root backupRoot world)
      (fun value ↦ (startContext env world root backupRoot).frame fun tree ↦
        result = .ok value ∧ before tree) fun _ _ ↦ True :=
  ensures_of_keeps_start (keeps_lift_of_ok not_favourable_startContext
    (fun _ _ hvalue htree ↦ ⟨hvalue, htree⟩) fun _ _ ↦ trivial)

theorem ensures_ensureSafeRoot_start :
    Ensures ((startContext env world root backupRoot).frame fun tree ↦ tree = world.tree)
      (ensureSafeRoot env root) (KeptUntilSaved root backupRoot world)
      (fun _ ↦ (startContext env world root backupRoot).frame (RootMade root world.tree))
      fun _ _ ↦ True :=
  ensures_of_keeps_start ((keeps_ensureSafeRoot not_favourable_startContext
    fun _ htree _ ↦ kept_of_extendsByDirectories htree).mono (fun _ htree ↦ htree)
      (fun _ _ htree ↦ htree) fun _ _ ↦ trivial)

def startedRun (env : Environment fold) {world : World fold} {root : Path} {id : Text}
    {files owned : List FileRecipe} {made : FileTree fold} (operation : Operation)
    (hfresh : Fresh id root owned world.tree) (hmade : RootMade root world.tree made)
    (hroot : root ≠ []) (hfiles : ∀ file ∈ files, file ∈ owned)
    (hdistinct : files.Pairwise fun earlier later ↦
      pathKey fold (names earlier.path) ≠ pathKey fold (names later.path)) :
    TransactionRun fold where
  tx := transactionOf operation hfresh hmade hroot
  ctx := startContext env world root (backupRootOf root operation id)
  files := files
  owned := fun file ↦ file ∈ owned
  owned_of_mem := hfiles
  distinct := hdistinct
  unmarked := hfresh.files
  safe_of_layout := fun _ _ _ _ hlayout _ ↦ hlayout.kept.of_start hmade.extend
  not_favourable := not_favourable_startContext

theorem wellTimed_startedRun {id : Text} {files owned : List FileRecipe} {made : FileTree fold}
    {operation : Operation} {hfresh : Fresh id root owned world.tree}
    {hmade : RootMade root world.tree made} {hroot : root ≠ []}
    {hfiles : ∀ file ∈ files, file ∈ owned} {hdistinct : files.Pairwise fun earlier later ↦
      pathKey fold (names earlier.path) ≠ pathKey fold (names later.path)} :
    (startedRun env operation hfresh hmade hroot hfiles hdistinct).WellTimed := by
  by_cases hworld : world.WellTimed
  · exact .inl hworld
  · exact .inr fun _ hwellTimed ↦ absurd hwellTimed hworld

end Start

end GameLauncher.Installation
