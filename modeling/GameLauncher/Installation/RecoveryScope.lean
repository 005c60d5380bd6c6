import GameLauncher.Installation.QuietMachine
import GameLauncher.Installation.Transaction

/-!
# What recovery may touch

Recovery reads journals that anyone may have written, and its last sweep goes through the parent of
the root. `InScope` collects what belongs to the root: everything below it, and the backup and
staging directories of its own transactions. `OnlyOwnWork` says of the tree at the start that no
journal that recovery takes for safe names the backup directory of another transaction, that every
staging directory beside the root is one of its own, and that no directory to be enumerated is a
link. Under it, nothing out of scope changes at any step of any recovery (`recoverAsync_keeps`).

A journal in the root may be replaced during the recovery by a file from a backup directory, and is
then read as the journal it has become; `SafeJournal` is the closure of the journals of the start
under such replacements.
-/

set_option autoImplicit false

namespace GameLauncher.Installation

open Foundation Fallible Manifests Process List FileTree

variable {fold : Char → Char}

/-! ### Scope -/

/-- A name under which the enumeration of a root finds a journal. -/
def ListedJournal (root : Path) (start : FileTree fold) (name : Text) : Prop :=
  ∃ spelling node, (spelling, node) ∈ start.entries ∧ Below fold root spelling ∧
    spelling.drop root.length = [name] ∧ isFileNode node = true ∧ isJournalName fold name = true

/-- The journals that a recovery can find safe: those in the root, and those that a safe journal's
backup directory holds in the place of one. -/
inductive SafeJournal (env : Environment fold) (root : Path) (start : FileTree fold) :
    Text → TransactionJournal → Prop
  | present {name : Text} {content : Bytes} {journal : TransactionJournal}
      (listed : ListedJournal root start name)
      (holds : start.content (root ++ [name]) = some content)
      (decodes : env.decode content = some journal)
      (safe : isSafeJournal env root (root ++ [name]) journal = true) :
      SafeJournal env root start name journal
  | restored {other name : Text} {outer journal : TransactionJournal} {content : Bytes}
      (source : SafeJournal env root start other outer)
      (listed : ListedJournal root start name)
      (holds : start.content (outer.backupRoot ++ [name]) = some content)
      (decodes : env.decode content = some journal)
      (safe : isSafeJournal env root (root ++ [name]) journal = true) :
      SafeJournal env root start name journal

/-- What belongs to a root whose own transactions are given. -/
def InScope (env : Environment fold) (own : Text → Prop) (root : Path) (start : FileTree fold)
    (path : Path) : Prop :=
  Below fold root path ∨
    (∃ name journal, SafeJournal env root start name journal ∧ own journal.transactionId ∧
      Below fold (backupRootOf root journal.operation journal.transactionId) path) ∨
    ∃ id, own id ∧ Below fold (stageRootOf root id) path

/-- The work that recovery finds belongs to the root's own transactions. -/
structure OnlyOwnWork (env : Environment fold) (own : Text → Prop) (root : Path)
    (start : FileTree fold) : Prop where
  stagings : ∀ name node, isStagingName fold name = true →
    start.node (root.dropLast ++ [name]) = some node → isFileNode node = false →
    InScope env own root start (root.dropLast ++ [name])
  backups : ∀ name journal, SafeJournal env root start name journal →
    start.directoryExists journal.backupRoot = true → InScope env own root start journal.backupRoot
  /-- An enumeration goes through links, and the tree does not know where they lead. -/
  unlinked : ∀ path, Below fold root path ∨
    (∃ name journal, SafeJournal env root start name journal ∧
      Below fold journal.backupRoot path) → start.node path ≠ some (.reparsePoint true)

/-- Everything out of scope is as at the start. -/
def Unchanged (env : Environment fold) (own : Text → Prop) (root : Path)
    (start tree : FileTree fold) : Prop :=
  ∀ path, ¬ InScope env own root start path → tree.node path = start.node path

/-! ### Paths in scope -/

variable {journal : TransactionJournal} {name : Text} {own : Text → Prop} {path directory : Path}
  {start : FileTree fold} {root : Path}

theorem SafeJournal.length_backupRoot {env : Environment fold}
    (h : SafeJournal env root start name journal) : journal.backupRoot.length = root.length := by
  have hsafe : isSafeJournal env root (root ++ [name]) journal = true := by
    cases h <;> assumption
  simp only [isSafeJournal, Bool.and_eq_true, Bool.not_eq_true', isEmpty_eq_false_iff] at hsafe
  obtain ⟨⟨⟨-, hroot⟩, hspelled⟩, -⟩ := hsafe
  rw [pathEqualsIgnoreCase, beq_iff_eq] at hspelled
  have hlength := congrArg List.length hspelled
  rw [length_map, length_map, backupRootOf, length_beside hroot] at hlength
  exact hlength

theorem length_of_inScope {env : Environment fold}
    (h : InScope env own root start path) : root.length ≤ path.length := by
  rcases h with hroot | ⟨_, journal, -, -, hbackup⟩ | ⟨id, -, hstage⟩
  · exact hroot.length_le
  · exact (length_le_beside root _).trans hbackup.length_le
  · exact (length_le_beside root _).trans hstage.length_le

theorem InScope.below {env : Environment fold}
    (h : InScope env own root start directory) (hpath : Below fold directory path) :
    InScope env own root start path := by
  rcases h with hroot | ⟨name, journal, hjournal, hown, hbackup⟩ | ⟨id, hown, hstage⟩
  · exact .inl (hroot.trans hpath)
  · exact .inr (.inl ⟨name, journal, hjournal, hown, hbackup.trans hpath⟩)
  · exact .inr (.inr ⟨id, hown, hstage.trans hpath⟩)

theorem inScope_congr {env : Environment fold}
    {first second : Path} (hkey : pathKey fold first = pathKey fold second)
    (h : InScope env own root start first) : InScope env own root start second :=
  h.below (by rw [Below, hkey])

/-! ### What an enumeration lists -/

variable {select : Path → Node → Bool} {tree : FileTree fold} {relative : Path}

/-- What an enumeration returns, before the environment orders it. -/
def entriesBelow (tree : FileTree fold) (directory : Path) (select : Path → Node → Bool) :
    List Path :=
  (tree.enumerate fun path node ↦ decide (pathKey fold directory <+: pathKey fold path) &&
    decide (directory.length < path.length) && select (path.drop directory.length) node).map
      fun path ↦ directory ++ path.drop directory.length

theorem mem_entriesBelow : path ∈ entriesBelow tree directory select ↔
      ∃ spelling node, (spelling, node) ∈ tree.entries ∧ Below fold directory spelling ∧
        directory.length < spelling.length ∧ select (spelling.drop directory.length) node = true ∧
        path = directory ++ spelling.drop directory.length := by
  simp only [entriesBelow, mem_map, mem_enumerate, Bool.and_eq_true, decide_eq_true_eq]
  constructor
  · rintro ⟨spelling, ⟨node, hentry, ⟨hbelow, hlength⟩, hselect⟩, hpath⟩
    exact ⟨spelling, node, hentry, hbelow, hlength, hselect, hpath.symm⟩
  · rintro ⟨spelling, node, hentry, hbelow, hlength, hselect, hpath⟩
    exact ⟨spelling, ⟨node, hentry, ⟨hbelow, hlength⟩, hselect⟩, hpath.symm⟩

theorem node_of_mem_entriesBelow (h : path ∈ entriesBelow tree directory select) :
    ∃ relative node, path = directory ++ relative ∧ relative ≠ [] ∧
      tree.node path = some node ∧ select relative node = true := by
  obtain ⟨spelling, node, hentry, hbelow, hlength, hselect, rfl⟩ := mem_entriesBelow.mp h
  obtain ⟨below, hkey, rfl⟩ := exists_append_of_leading hbelow
  refine ⟨spelling.drop directory.length, node, rfl, ?_, ?_, hselect⟩
  · rw [ne_eq, drop_eq_nil_iff]
    omega
  · rw [tree.node_congr hkey]
    exact node_of_mem_entries hentry

theorem eq_singleton_of_names (hne : relative ≠ [])
    (h : (names (['/'].intercalate relative)).length = 1) :
    relative = [['/'].intercalate relative] := by
  cases relative with
  | nil => exact absurd rfl hne
  | cons first rest =>
    cases rest with
    | nil => simp
    | cons second rest =>
      have hsplit : names (['/'].intercalate (first :: second :: rest)) =
          names first ++ names (['/'].intercalate (second :: rest)) := by
        rw [intercalate_cons_cons, append_assoc]
        exact splitOn_append_cons_self first _
      have hfirst := length_pos_of_ne_nil (names_ne_nil first)
      have hrest := length_pos_of_ne_nil (names_ne_nil (['/'].intercalate (second :: rest)))
      rw [hsplit, length_append] at h
      omega

/-! ### What holds of every tree during a recovery -/

variable {node : Node} {stateStore : Bool} {paths : List Path}

structure Recovery (fold : Char → Char) where
  env : Environment fold
  own : Text → Prop
  root : Path
  start : FileTree fold
  onlyOwn : OnlyOwnWork env own root start
  root_directory : start.node root = some .directory

namespace Recovery

variable (run : Recovery fold)

def Readable (name : Text) (content : Bytes) : Prop :=
  run.start.content (run.root ++ [name]) = some content ∨
    ∃ other outer, SafeJournal run.env run.root run.start other outer ∧
      run.start.content (outer.backupRoot ++ [name]) = some content

/-- A tree during the recovery: out of scope nothing has changed, beside the root nothing is new,
and the files of the root itself are those of the start or come from backups. -/
structure Kept (tree : FileTree fold) : Prop where
  outside : Unchanged run.env run.own run.root run.start tree
  beside : ∀ path, ¬ Below fold run.root path →
    tree.node path = run.start.node path ∨ tree.node path = none
  readable : ∀ name content, tree.content (run.root ++ [name]) = some content →
    run.Readable name content

variable {run}

theorem kept_start : run.Kept run.start where
  outside := fun _ _ ↦ rfl
  beside := fun _ _ ↦ .inl rfl
  readable := fun _ _ hcontent ↦ .inl hcontent

theorem Kept.readable_of_backup (h : run.Kept tree) {other : Text} {outer : TransactionJournal}
    {content : Bytes} (houter : SafeJournal run.env run.root run.start other outer)
    (hcontent : tree.content (outer.backupRoot ++ [name]) = some content) :
    run.Readable name content := by
  by_cases hroot : Below fold run.root outer.backupRoot
  · -- the backup directory is the root itself
    have hkey : pathKey fold run.root = pathKey fold outer.backupRoot :=
      pathKey_eq_of_below hroot (prefix_refl _) houter.length_backupRoot.symm
    refine h.readable name content ?_
    rw [← hcontent]
    refine tree.content_congr ?_
    rw [pathKey_append, pathKey_append, hkey]
  · have houtside : ¬ Below fold run.root (outer.backupRoot ++ [name]) := by
      intro hbelow
      refine hroot ?_
      rw [Below, pathKey_eq_of_below hbelow (below_append _ _) houter.length_backupRoot.symm]
    have hnode := content_eq_some.mp hcontent
    rcases h.beside _ houtside with hsame | hnone
    · exact .inr ⟨other, outer, houter, content_eq_some.mpr (hsame ▸ hnode)⟩
    · rw [hnone] at hnode
      cases hnode

theorem Kept.inScope_of_backup (h : run.Kept tree)
    (hjournal : SafeJournal run.env run.root run.start name journal)
    (hexists : tree.directoryExists journal.backupRoot = true)
    (hpath : Below fold journal.backupRoot path) :
    InScope run.env run.own run.root run.start path := by
  by_cases hroot : Below fold run.root journal.backupRoot
  · exact .inl (hroot.trans hpath)
  · refine (run.onlyOwn.backups name journal hjournal ?_).below hpath
    rcases h.beside _ hroot with hsame | hnone
    · rw [← hexists, directoryExists, directoryExists, hsame]
    · rw [directoryExists, hnone] at hexists
      cases hexists

theorem Kept.inScope_of_staging (h : run.Kept tree) (hname : isStagingName fold name = true)
    (hnode : tree.node (run.root.dropLast ++ [name]) = some node)
    (hdirectory : isFileNode node = false) (hpath : Below fold (run.root.dropLast ++ [name]) path) :
    InScope run.env run.own run.root run.start path := by
  by_cases hroot : Below fold run.root (run.root.dropLast ++ [name])
  · exact .inl (hroot.trans hpath)
  · refine (run.onlyOwn.stagings name node hname ?_ hdirectory).below hpath
    rcases h.beside _ hroot with hsame | hnone
    · rw [← hsame, hnode]
    · rw [hnone] at hnode
      cases hnode

theorem Kept.node_of_above_root (h : run.Kept tree) (hpath : Above fold path run.root) :
    tree.node path = some .directory := by
  rw [h.outside path]
  · exact node_of_above hpath (by rw [run.root_directory]; simp)
  · intro hscope
    exact absurd (length_of_inScope hscope) (by have := hpath.2; omega)

/-! ### The operations of a recovery -/

variable {made : FileTree fold}

theorem Kept.of_removal (h : run.Kept tree) (hmade : ∀ path, made.node path = tree.node path ∨
      made.node path = none ∧ InScope run.env run.own run.root run.start path) :
    run.Kept made where
  outside := by
    intro path hscope
    rcases hmade path with hsame | ⟨-, hin⟩
    · rw [hsame, h.outside path hscope]
    · exact absurd hin hscope
  beside := by
    intro path hroot
    rcases hmade path with hsame | ⟨hnone, -⟩
    · rw [hsame]
      exact h.beside path hroot
    · exact .inr hnone
  readable := by
    intro name content hcontent
    rw [content_eq_some] at hcontent
    rcases hmade (run.root ++ [name]) with hsame | ⟨hnone, -⟩
    · exact h.readable name content (content_eq_some.mpr (hsame ▸ hcontent))
    · rw [hnone] at hcontent
      cases hcontent

theorem Kept.deleteFile (h : run.Kept tree)
    (hpath : InScope run.env run.own run.root run.start path)
    (hmade : tree.deleteFile path = .ok made) : run.Kept made := by
  refine h.of_removal fun other ↦ ?_
  rw [deleteFile_eq_ok hmade other]
  split_ifs with hkey
  · exact .inr ⟨rfl, inScope_congr hkey.symm hpath⟩
  · exact .inl rfl

theorem Kept.deleteDirectory (h : run.Kept tree)
    (hpath : ∀ other, Below fold path other → InScope run.env run.own run.root run.start other)
    (hmade : tree.deleteDirectory path = .ok made) : run.Kept made := by
  refine h.of_removal fun other ↦ ?_
  rw [deleteDirectory_eq_ok hmade other]
  split_ifs with hbelow
  · exact .inr ⟨rfl, hpath other hbelow⟩
  · exact .inl rfl

theorem Kept.createDirectory (h : run.Kept tree)
    (hmade : tree.createDirectory (run.root ++ relative) = .ok made) : run.Kept made := by
  obtain ⟨hextends, -, hother⟩ := createDirectory_eq_ok hmade
  -- what is new lies below the root, since what lies above it exists
  have hbelow : ∀ path, ¬ Below fold run.root path → made.node path = tree.node path := by
    intro path hroot
    by_contra hne
    have hleading := hother path hne
    have habove : Above fold path run.root := by
      rcases prefix_or_prefix_of_prefix hleading (below_append run.root relative) with
        hshort | hlong
      · refine ⟨hshort, ?_⟩
        have hle := hshort.length_le
        rw [length_pathKey, length_pathKey] at hle
        refine lt_of_le_of_ne hle fun hlength ↦ hroot ?_
        rw [Below, hshort.eq_of_length (by simp [hlength])]
      · exact absurd hlong hroot
    rcases hextends path with hsame | ⟨hnone, -⟩
    · exact hne hsame
    · rw [h.node_of_above_root habove] at hnone
      cases hnone
  refine ⟨fun path hscope ↦ ?_, fun path hroot ↦ ?_, fun name content hcontent ↦ ?_⟩
  · rw [hbelow path fun hroot ↦ hscope (.inl hroot)]
    exact h.outside path hscope
  · rw [hbelow path hroot]
    exact h.beside path hroot
  · rw [content_of_extendsByDirectories hextends] at hcontent
    exact h.readable name content hcontent

theorem Kept.moveFile_backup (h : run.Kept tree)
    (hjournal : SafeJournal run.env run.root run.start name journal) (hne : relative ≠ [])
    (hmade : tree.moveFile (journal.backupRoot ++ relative)
      (run.root ++ names (['/'].intercalate relative)) = .ok made) : run.Kept made := by
  obtain ⟨moved, hmoved, -, -, hnode⟩ := moveFile_eq_ok hmade
  have hexists : tree.directoryExists journal.backupRoot = true := by
    rw [directoryExists, node_of_above
      ⟨below_append journal.backupRoot relative, ?_⟩ (by rw [hmoved]; simp)]
    have := length_pos_of_ne_nil hne
    rw [length_append]
    omega
  refine ⟨fun path hscope ↦ ?_, fun path hroot ↦ ?_, fun file content hcontent ↦ ?_⟩
  · rw [hnode path, if_neg, if_neg, h.outside path hscope]
    · intro hkey
      refine hscope (h.inScope_of_backup hjournal hexists ?_)
      rw [Below, hkey]
      exact below_append _ _
    · intro hkey
      refine hscope (.inl ?_)
      rw [Below, hkey]
      exact below_append _ _
  · rw [hnode path, if_neg]
    · split_ifs
      · exact .inr rfl
      · exact h.beside path hroot
    · intro hkey
      refine hroot ?_
      rw [Below, hkey]
      exact below_append _ _
  · rw [content_eq_some, hnode] at hcontent
    split_ifs at hcontent with hdestination hsource
    · -- the moved file has become a file of the root itself
      rw [pathKey_append, pathKey_append, append_cancel_left_eq] at hdestination
      have hlength := congrArg List.length hdestination
      rw [length_pathKey, length_pathKey, length_singleton] at hlength
      have hsingle := eq_singleton_of_names hne hlength.symm
      have hname : names (['/'].intercalate relative) = relative := by
        obtain ⟨only, honly⟩ := length_eq_one_iff.mp hlength.symm
        have hjoin : ['/'].intercalate (names (['/'].intercalate relative)) =
            ['/'].intercalate relative := intercalate_splitOn '/'
        rw [honly] at hjoin ⊢
        rw [hsingle, ← hjoin]
        simp
      refine h.readable_of_backup hjournal ?_
      rw [content_eq_some, ← hcontent, ← hmoved]
      refine tree.node_congr ?_
      rw [pathKey_append, pathKey_append, hdestination, hname]
    · exact h.readable file content (content_eq_some.mpr hcontent)

/-! ### The steps of a recovery -/

variable (run) in
/-- The task keeps to the scope at every step, and a value that it returns has a property. -/
def Confines {α : Type} (task : Task fold α) (returns : α → Prop) : Prop :=
  Ensures (fun world ↦ run.Kept world.tree) task (fun world ↦ run.Kept world.tree)
    (fun value world ↦ run.Kept world.tree ∧ returns value) fun _ world ↦ run.Kept world.tree

variable {α β ι : Type}

variable {returns : α → Prop}

theorem confines_pure {value : α} (h : returns value) : run.Confines (pure value) returns :=
  ensures_pure fun _ hworld ↦ ⟨hworld, h⟩

theorem confines_bind {first : Task fold α} {next : α → Task fold β} {returns : β → Prop}
    (middle : α → Prop) (hfirst : run.Confines first middle)
    (hnext : ∀ value, middle value → run.Confines (next value) returns) :
    run.Confines (first >>= next) returns := by
  refine ensures_bind (fun value world ↦ run.Kept world.tree ∧ middle value) hfirst fun value ↦ ?_
  intro world hworld
  exact hnext value hworld.2 world hworld.1

theorem confines_fail {failure : Failure} : run.Confines (fail failure : Task fold α) returns :=
  ensures_fail fun _ hworld ↦ hworld

theorem confines_lift {result : Except Failure α} (h : ∀ value, result = .ok value → returns value)
    : run.Confines (lift result) returns :=
  ensures_lift (fun value _ hvalue hworld ↦ ⟨hworld, h value hvalue⟩) fun _ _ _ hworld ↦ hworld

theorem confines_inspect {view : FileTree fold → α} :
    run.Confines (inspect view) fun _ ↦ True :=
  ensures_inspect fun _ hworld ↦ ⟨hworld, trivial⟩

theorem confines_observe {view : FileTree fold → Except IoFailure α}
    (h : ∀ tree value, run.Kept tree → view tree = .ok value → returns value) :
    run.Confines (observe run.env view) returns := by
  refine ensures_observe ?_ ?_
  · intro world value hworld hview
    exact ⟨hworld, hworld, h _ value hworld hview⟩
  · intro world failure hworld _
    exact ⟨hworld, hworld⟩

theorem confines_operation {action : FileTree fold → Except IoFailure (FileTree fold)}
    (h : ∀ tree made, run.Kept tree → action tree = .ok made → run.Kept made) :
    run.Confines (operation run.env action) fun _ ↦ True := by
  refine ensures_operation ?_ ?_
  · intro world made hworld haction
    exact ⟨h _ made hworld haction, h _ made hworld haction, trivial⟩
  · intro world failure hworld _
    exact ⟨hworld, hworld⟩

theorem confines_throwIfCancellationRequested :
    run.Confines (throwIfCancellationRequested run.env) fun _ ↦ True :=
  ensures_throwIfCancellationRequested (fun _ hworld ↦ ⟨hworld, trivial⟩) fun _ hworld _ ↦ hworld

theorem confines_ite {condition : Prop} [Decidable condition] {first second : Task fold α}
    (hfirst : condition → run.Confines first returns)
    (hsecond : ¬ condition → run.Confines second returns) :
    run.Confines (if condition then first else second) returns := by
  split_ifs with hcondition
  · exact hfirst hcondition
  · exact hsecond hcondition

theorem confines_forEach {body : ι → Task fold Unit} {items : List ι}
    (hbody : ∀ item ∈ items, run.Confines (body item) fun _ ↦ True) :
    run.Confines (forEach (fun item (_ : Unit) ↦ body item) items ()) fun _ ↦ True := by
  refine Ensures.mono (ensures_forEach (fun _ _ world ↦ run.Kept world.tree ∧ True) ?_)
    (fun _ hworld ↦ ⟨hworld, trivial⟩) (fun _ hworld ↦ hworld) (fun _ _ hworld ↦ hworld)
    fun _ _ hworld ↦ hworld
  intro done item rest _ hitems world hworld
  exact hbody item (by rw [hitems]; simp) world hworld.1

theorem confines_hasReparsePoint : run.Confines (hasReparsePoint run.env path) fun _ ↦ True :=
  confines_observe fun _ _ _ _ ↦ trivial

theorem confines_resolveUnderRoot {root : Path} {portablePath : Text} :
    run.Confines (resolveUnderRoot run.env root portablePath)
      fun path ↦ path = root ++ names portablePath := by
  refine confines_bind (fun _ ↦ True) (confines_lift fun _ _ ↦ trivial) fun _ _ ↦ ?_
  refine confines_bind _ confines_inspect fun escapes _ ↦ ?_
  exact confines_ite (fun _ ↦ confines_fail) fun _ ↦ confines_pure rfl

theorem confines_enumerate :
    run.Confines (enumerate run.env directory select) fun paths ↦ ∀ path ∈ paths,
      ∃ relative node tree, path = directory ++ relative ∧ relative ≠ [] ∧ run.Kept tree ∧
        tree.node path = some node ∧ select relative node = true := by
  refine ensures_step ?_ ?_ ?_
  · intro world hworld
    split
    · exact hworld
    · split_ifs <;> exact hworld
  · intro world paths hworld hresult
    dsimp only at hresult ⊢
    split at hresult
    · cases hresult
    · split_ifs at hresult ⊢ with hexists
      refine ⟨hworld, fun path hpath ↦ ?_⟩
      rw [← Except.ok.inj hresult, (run.env.order_perm _ _).mem_iff] at hpath
      obtain ⟨relative, node, hpath, hne, hnode, hselect⟩ := node_of_mem_entriesBelow hpath
      exact ⟨relative, node, world.tree, hpath, hne, hworld, hnode, hselect⟩
  · intro world failure hworld _
    split
    · exact hworld
    · split_ifs <;> exact hworld

theorem confines_deleteCommitted {portable : Text} :
    run.Confines (deleteCommitted run.env run.root portable) fun _ ↦ True := by
  refine confines_bind _ confines_resolveUnderRoot fun path hpath ↦ ?_
  refine confines_bind _ confines_inspect fun found _ ↦ confines_ite (fun _ ↦ ?_)
    fun _ ↦ confines_pure trivial
  refine confines_bind _ confines_hasReparsePoint fun linked _ ↦ confines_ite
    (fun _ ↦ confines_pure trivial) fun _ ↦ confines_operation fun tree made htree hmade ↦ ?_
  refine htree.deleteFile (.inl ?_) hmade
  rw [hpath]
  exact below_append _ _

theorem confines_restoreBackup (hjournal : SafeJournal run.env run.root run.start name journal)
    (hne : relative ≠ []) :
    run.Confines (restoreBackup run.env run.root journal.backupRoot (journal.backupRoot ++ relative))
      fun _ ↦ True := by
  refine confines_bind _ confines_hasReparsePoint fun linked _ ↦ confines_ite
    (fun _ ↦ confines_fail) fun _ ↦ ?_
  rw [drop_left]
  refine confines_bind _ confines_resolveUnderRoot fun destination hdestination ↦ ?_
  rw [hdestination]
  refine confines_bind (fun _ ↦ True) (confines_operation fun tree made htree hmade ↦ ?_) fun _ _ ↦
    confines_operation fun tree made htree hmade ↦ htree.moveFile_backup hjournal hne hmade
  rw [dropLast_append_of_ne_nil (names_ne_nil _)] at hmade
  exact htree.createDirectory hmade

theorem confines_restoreTransaction (hjournal : SafeJournal run.env run.root run.start name journal)
    :
    run.Confines (restoreTransaction run.env run.root journal) fun _ ↦ True := by
  refine confines_bind (fun _ ↦ True)
    (confines_forEach fun portable _ ↦ confines_deleteCommitted) fun _ _ ↦ ?_
  refine confines_bind _ confines_inspect fun backedUp _ ↦ confines_ite (fun _ ↦ ?_)
    fun _ ↦ confines_pure trivial
  refine confines_bind _ confines_enumerate fun backups hbackups ↦ confines_forEach ?_
  intro backup hbackup
  obtain ⟨relative, node, tree, rfl, hne, -⟩ := hbackups backup hbackup
  exact confines_restoreBackup hjournal hne

theorem confines_isDatabaseCommitted :
    run.Confines (isDatabaseCommitted run.env run.root journal) fun _ ↦ True := by
  refine ensures_step ?_ ?_ ?_
  · intro world hworld
    split_ifs <;> exact hworld
  · intro world value hworld _
    split_ifs <;> exact ⟨hworld, trivial⟩
  · intro world failure hworld _
    split_ifs <;> exact hworld

theorem confines_discard (hjournal : SafeJournal run.env run.root run.start name journal) :
    run.Confines (do
      let backedUp ← inspect fun tree ↦ tree.directoryExists journal.backupRoot
      if backedUp then operation run.env fun tree ↦ tree.deleteDirectory journal.backupRoot
      else pure ()
      operation run.env fun tree ↦ tree.deleteFile (run.root ++ [name])) fun _ ↦ True := by
  have hdelete : run.Confines (operation run.env fun tree ↦ tree.deleteFile (run.root ++ [name]))
      fun _ ↦ True :=
    confines_operation fun tree made htree hmade ↦ htree.deleteFile (.inl (below_append _ _)) hmade
  refine confines_bind _ confines_inspect fun backedUp _ ↦ confines_ite (fun _ ↦ ?_)
    fun _ ↦ hdelete
  refine confines_bind (fun _ ↦ True) (confines_operation fun tree made htree hmade ↦ ?_)
    fun _ _ ↦ hdelete
  refine htree.deleteDirectory (fun other hother ↦ htree.inScope_of_backup hjournal ?_ hother) hmade
  unfold deleteDirectory at hmade
  split_ifs at hmade with hexists
  exact hexists

theorem confines_settleJournal (hjournal : SafeJournal run.env run.root run.start name journal) :
    run.Confines (settleJournal run.env stateStore run.root (run.root ++ [name]) journal)
      fun _ ↦ True := by
  have hsettle (committed : Bool) : run.Confines (do
      if journal.state ≠ .committed ∧ committed = false then
        restoreTransaction run.env run.root journal
      else pure ()
      let backedUp ← inspect fun tree ↦ tree.directoryExists journal.backupRoot
      if backedUp then operation run.env fun tree ↦ tree.deleteDirectory journal.backupRoot
      else pure ()
      operation run.env fun tree ↦ tree.deleteFile (run.root ++ [name])) fun _ ↦ True :=
    confines_ite (fun _ ↦ confines_bind _ (confines_restoreTransaction hjournal)
      fun _ _ ↦ confines_discard hjournal) fun _ ↦ confines_discard hjournal
  exact confines_ite
    (fun _ ↦ confines_bind _ confines_isDatabaseCommitted fun committed _ ↦ hsettle committed)
    fun _ ↦ hsettle false

theorem confines_readJournal :
    run.Confines (readJournal run.env (run.root ++ [name])) fun journal ↦
      ∀ found, journal = some found → ∃ content, run.Readable name content ∧
        run.env.decode content = some found := by
  refine ensures_tryCatch (fun _ world ↦ run.Kept world.tree) ?_ fun failure ↦ ?_
  · refine confines_bind (fun content ↦ run.Readable name content)
      (confines_observe fun tree content htree hview ↦ ?_) fun content hcontent ↦
        confines_pure fun found hfound ↦ ⟨content, hcontent, hfound⟩
    split at hview
    · next held hheld =>
      rw [← Except.ok.inj hview]
      exact htree.readable name held hheld
    · cases hview
  · split
    · exact confines_pure fun found hfound ↦ by cases hfound
    · exact confines_fail

theorem confines_recoverJournal (hlisted : ListedJournal run.root run.start name) :
    run.Confines (recoverJournal run.env stateStore run.root (run.root ++ [name]))
      fun _ ↦ True := by
  refine confines_bind _ confines_throwIfCancellationRequested fun _ _ ↦ ?_
  refine confines_bind _ confines_readJournal fun read hread ↦ ?_
  cases read with
  | none => exact confines_pure trivial
  | some journal =>
    refine confines_ite (fun hsafe ↦ confines_settleJournal ?_) fun _ ↦ confines_pure trivial
    obtain ⟨content, hreadable, hdecode⟩ := hread journal rfl
    rcases hreadable with hstart | ⟨other, outer, houter, hbackup⟩
    · exact .present hlisted hstart hdecode hsafe
    · exact .restored houter hlisted hbackup hdecode hsafe

theorem confines_deleteFiles (h : ∀ path ∈ paths, InScope run.env run.own run.root run.start path) :
    run.Confines (deleteFiles run.env paths) fun _ ↦ True := by
  refine confines_forEach fun path hpath ↦ ?_
  refine confines_bind _ confines_throwIfCancellationRequested fun _ _ ↦ ?_
  exact confines_operation fun tree made htree hmade ↦ htree.deleteFile (h path hpath) hmade

theorem confines_deleteDirectories (h : ∀ path ∈ paths, ∀ other, Below fold path other →
      InScope run.env run.own run.root run.start other) :
    run.Confines (deleteDirectories run.env paths) fun _ ↦ True := by
  refine confines_forEach fun path hpath ↦ ?_
  refine confines_bind _ confines_throwIfCancellationRequested fun _ _ ↦ ?_
  exact confines_operation fun tree made htree hmade ↦ htree.deleteDirectory (h path hpath) hmade

theorem confines_removeWorkFiles :
    run.Confines (removeWorkFiles run.env run.root) fun _ ↦ True := by
  refine confines_bind _ confines_enumerate fun parts hparts ↦ ?_
  refine confines_bind _ (confines_deleteFiles fun path hpath ↦ ?_) fun _ _ ↦ ?_
  · obtain ⟨relative, node, tree, rfl, -⟩ := hparts path hpath
    exact .inl (below_append _ _)
  refine confines_bind _ confines_enumerate fun journalParts hjournalParts ↦ ?_
  refine confines_bind _ (confines_deleteFiles fun path hpath ↦ ?_) fun _ _ ↦ ?_
  · obtain ⟨relative, node, tree, rfl, -⟩ := hjournalParts path hpath
    exact .inl (below_append _ _)
  refine confines_ite (fun _ ↦ confines_pure trivial) fun _ ↦ ?_
  refine confines_bind _ confines_enumerate fun stagings hstagings ↦ confines_deleteDirectories ?_
  intro path hpath other hother
  obtain ⟨relative, node, tree, rfl, -, htree, hnode, hselect⟩ := hstagings path hpath
  simp only [Bool.and_eq_true, Bool.not_eq_true', beq_iff_eq] at hselect
  obtain ⟨⟨hdirectory, hlength⟩, hname⟩ := hselect
  obtain ⟨name, rfl⟩ := length_eq_one_iff.mp hlength
  exact htree.inScope_of_staging hname hnode hdirectory hother

theorem confines_recoverJournals {journals : List Path}
    (h : ∀ path ∈ journals, ∃ name, path = run.root ++ [name] ∧
      ListedJournal run.root run.start name) :
    run.Confines (do
      forEach (fun journalPath (_ : Unit) ↦
        recoverJournal run.env stateStore run.root journalPath) journals ()
      removeWorkFiles run.env run.root) fun _ ↦ True := by
  refine confines_bind _ (confines_forEach fun path hpath ↦ ?_) fun _ _ ↦ confines_removeWorkFiles
  obtain ⟨name, rfl, hlisted⟩ := h path hpath
  exact confines_recoverJournal hlisted

theorem Confines.keeps {task : Task fold Unit} {returns : Unit → Prop}
    (h : run.Confines task returns) {before : World fold → Prop}
    (hbefore : ∀ world, before world → world.tree = run.start) :
    Ensures before task (fun world ↦ Unchanged run.env run.own run.root run.start world.tree)
      (fun _ world ↦ Unchanged run.env run.own run.root run.start world.tree)
      fun _ world ↦ Unchanged run.env run.own run.root run.start world.tree :=
  Ensures.mono h (fun world hworld ↦ hbefore world hworld ▸ kept_start)
    (fun _ hworld ↦ hworld.outside) (fun _ _ hworld ↦ hworld.1.outside)
    fun _ _ hworld ↦ hworld.outside

end Recovery

/-! ### Whole recoveries -/

variable {env : Environment fold} {root : Path} {start : FileTree fold}

theorem ensures_ensureSafeRoot (hexists : start.directoryExists root = true) :
    Ensures (fun world ↦ world.tree = start) (ensureSafeRoot env root)
      (fun world ↦ world.tree = start)
      (fun _ world ↦ world.tree = start ∧ start.node root = some .directory)
      fun _ world ↦ world.tree = start := by
  have hnone : start.node root ≠ none := by
    intro hnone
    rw [directoryExists, hnone] at hexists
    cases hexists
  refine ensures_bind (fun _ world ↦ world.tree = start ∧ start.node root = some .directory) ?_
    fun _ ↦ ?_
  · refine ensures_operation ?_ fun world _ hworld _ ↦ ⟨hworld, hworld⟩
    intro world made hworld hmade
    rw [hworld] at hmade
    obtain ⟨hextends, hdirectory, -⟩ := createDirectory_eq_ok hmade
    have hroot : start.node root = some .directory := by
      rcases hextends root with hsame | ⟨habsent, -⟩
      · rw [← hsame, hdirectory]
      · exact absurd habsent hnone
    rw [createDirectory_of_directory hroot, Except.ok.injEq] at hmade
    exact ⟨hmade.symm, hmade.symm, hroot⟩
  · refine ensures_bind (fun _ world ↦ world.tree = start ∧ start.node root = some .directory)
      (ensures_observe (fun world _ hworld _ ↦ ⟨hworld.1, hworld⟩)
        fun world _ hworld _ ↦ ⟨hworld.1, hworld.1⟩) fun linked ↦ ?_
    split_ifs
    · exact ensures_fail fun world hworld ↦ hworld.1
    · exact ensures_pure fun world hworld ↦ hworld

theorem ensures_enumerateFiles {always : World fold → Prop}
    (halways : ∀ world : World fold, world.tree = start → always world) :
    Ensures (fun world ↦ world.tree = start) (enumerateFiles env root (isJournalName fold)) always
      (fun paths world ↦ world.tree = start ∧ ∀ path ∈ paths, ∃ name, path = root ++ [name] ∧
        ListedJournal root start name)
      fun _ ↦ always := by
  refine ensures_step ?_ ?_ ?_
  · intro world hworld
    split
    · exact halways _ hworld
    · split_ifs <;> exact halways _ hworld
  · intro world paths hworld hresult
    dsimp only at hresult ⊢
    split at hresult
    · cases hresult
    · split_ifs at hresult ⊢ with hexists
      refine ⟨hworld, fun path hpath ↦ ?_⟩
      rw [← Except.ok.inj hresult, (env.order_perm _ _).mem_iff] at hpath
      change path ∈ entriesBelow world.tree root fun relative node ↦
        isFileNode node && relative.length == 1 && isJournalName fold (relative.getLastD []) at hpath
      obtain ⟨spelling, node, hentry, hbelow, -, hselect, hpath⟩ := mem_entriesBelow.mp hpath
      simp only [Bool.and_eq_true, beq_iff_eq] at hselect
      obtain ⟨⟨hfile, hlength⟩, hname⟩ := hselect
      obtain ⟨name, hdrop⟩ := length_eq_one_iff.mp hlength
      rw [hworld] at hentry
      rw [hdrop] at hname hpath
      exact ⟨name, hpath, spelling, node, hentry, hbelow, hdrop, hfile, hname⟩
  · intro world failure hworld _
    split
    · exact halways _ hworld
    · split_ifs <;> exact halways _ hworld

/-- Recovery of a root that finds only the root's own work keeps to its scope, at every step and
however it ends. -/
theorem recoverAsync_keeps (own : Text → Prop) (stateStore : Bool) (world : World fold)
    (honly : OnlyOwnWork env own root world.tree) (reached : World fold)
    (hreached : reached ∈ (recoverAsync env stateStore root world).visited ∨
      reached = (recoverAsync env stateStore root world).final)
    : Unchanged env own root world.tree reached.tree := by
  have hstart : ∀ other : World fold, other.tree = world.tree →
      Unchanged env own root world.tree other.tree := by
    intro other hsame path _
    rw [hsame]
  have hrun : Ensures (fun other ↦ other.tree = world.tree) (recoverAsync env stateStore root)
      (fun other ↦ Unchanged env own root world.tree other.tree)
      (fun _ other ↦ Unchanged env own root world.tree other.tree)
      fun _ other ↦ Unchanged env own root world.tree other.tree := by
    refine ensures_bind (fun found other ↦ found = world.tree.directoryExists root ∧
      other.tree = world.tree) (ensures_inspect fun other hother ↦ ⟨by rw [hother], hother⟩)
      fun found ↦ ensures_assume fun hfound ↦ ?_
    cases found with
    | false => exact ensures_pure fun other hother ↦ hstart other hother
    | true =>
      refine ensures_bind _ (Ensures.mono (ensures_ensureSafeRoot hfound.symm)
        (fun _ hother ↦ hother) hstart (fun _ other hother ↦ And.symm hother)
        fun _ ↦ hstart) fun _ ↦ ensures_assume fun hroot ↦ ?_
      refine ensures_bind _ (Ensures.mono (ensures_enumerateFiles hstart) (fun _ hother ↦ hother)
        (fun _ hother ↦ hother) (fun _ other hother ↦ And.symm hother) fun _ _ hother ↦ hother)
        fun journals ↦ ensures_assume fun hjournals ↦ ?_
      let run : Recovery fold := ⟨env, own, root, world.tree, honly, hroot⟩
      exact (run.confines_recoverJournals hjournals).keeps fun _ hother ↦ hother
  obtain ⟨hvisited, hok, herror⟩ := hrun world rfl
  rcases hreached with hmem | hfinal
  · exact hvisited reached hmem
  · rw [hfinal]
    cases hresult : (recoverAsync env stateStore root world).result with
    | ok value => exact hok value hresult
    | error failure => exact herror failure hresult

/-! ### A recovery that reaches its last sweep -/

/-- The same environment with other faults and cancellations. -/
def Environment.disturbed (env : Environment fold) (fault : ℕ → Option IoFailure)
    (canceled : ℕ → Bool) : Environment fold :=
  { env with fault := fault, canceled := canceled }

/-- A task that always returns. -/
def Completes {α : Type} (before : World fold → Prop) (task : Task fold α)
    (after : α → World fold → Prop) : Prop :=
  Ensures before task (fun _ ↦ True) after fun _ _ ↦ False

section Sweep

variable {α β ι : Type} {before : World fold → Prop}

theorem Completes.mono {task : Task fold α} {after after' : α → World fold → Prop}
    {before' : World fold → Prop} (h : Completes before task after)
    (hbefore : ∀ world, before' world → before world)
    (hafter : ∀ value world, after value world → after' value world) :
    Completes before' task after' :=
  Ensures.mono h hbefore (fun _ hworld ↦ hworld) hafter fun _ _ himpossible ↦ himpossible

theorem completes_forEach {body : ι → Task fold Unit} {items : List ι}
    (invariant : List ι → World fold → Prop)
    (hbody : ∀ done item rest, items = done ++ item :: rest →
      Completes (invariant done) (body item) fun _ ↦ invariant (done ++ [item])) :
    Completes (invariant []) (forEach (fun item (_ : Unit) ↦ body item) items ())
      fun _ ↦ invariant items :=
  ensures_forEach (fun done _ ↦ invariant done) fun done item rest _ ↦ hbody done item rest

theorem completes_operation {action : FileTree fold → Except IoFailure (FileTree fold)}
    {after : Unit → World fold → Prop}
    (h : ∀ world, before world → env.fault world.clock = none ∧
      ∃ made, action world.tree = .ok made ∧ after () (world.withTree made)) :
    Completes before (operation env action) after := by
  refine ensures_operation ?_ ?_
  · intro world made hworld hmade
    obtain ⟨-, other, hother, hafter⟩ := h world hworld
    rw [hmade, Except.ok.injEq] at hother
    exact ⟨trivial, hother ▸ hafter⟩
  · intro world failure hworld hfailure
    obtain ⟨hfault, made, hmade, -⟩ := h world hworld
    rcases hfailure with hraised | hraised
    · rw [hfault] at hraised
      cases hraised
    · rw [hmade] at hraised
      cases hraised

theorem completes_observe {view : FileTree fold → Except IoFailure α}
    {after : α → World fold → Prop}
    (h : ∀ world, before world → env.fault world.clock = none ∧
      ∃ value, view world.tree = .ok value ∧ after value world.tick) :
    Completes before (observe env view) after := by
  refine ensures_observe ?_ ?_
  · intro world value hworld hview
    obtain ⟨-, other, hother, hafter⟩ := h world hworld
    rw [hview, Except.ok.injEq] at hother
    exact ⟨trivial, hother ▸ hafter⟩
  · intro world failure hworld hfailure
    obtain ⟨hfault, value, hvalue, -⟩ := h world hworld
    rcases hfailure with hraised | hraised
    · rw [hfault] at hraised
      cases hraised
    · rw [hvalue] at hraised
      cases hraised

theorem completes_throwIfCancellationRequested (h : ∀ time, env.canceled time = false) :
    Completes before (throwIfCancellationRequested env) fun _ ↦ before := by
  refine ensures_throwIfCancellationRequested (fun _ hworld ↦ hworld) fun world _ hcanceled ↦ ?_
  rw [h] at hcanceled
  cases hcanceled

theorem completes_enumerate {after : List Path → World fold → Prop}
    (h : ∀ world, before world → env.fault world.clock = none ∧
      world.tree.directoryExists directory = true ∧
      ∀ paths, paths.Perm (entriesBelow world.tree directory select) → after paths world.tick) :
    Completes before (enumerate env directory select) after := by
  refine ensures_step (fun _ _ ↦ trivial) ?_ ?_
  · intro world paths hworld hresult
    obtain ⟨hfault, hexists, hafter⟩ := h world hworld
    simp only [hfault, hexists, if_true, Except.ok.injEq] at hresult ⊢
    refine hafter paths ?_
    rw [← hresult]
    exact env.order_perm _ _
  · intro world failure hworld hresult
    obtain ⟨hfault, hexists, -⟩ := h world hworld
    simp only [hfault, hexists, if_true, reduceCtorEq] at hresult

theorem completes_recoverJournal {time : ℕ} {failure : IoFailure}
    (hfault : env.fault time = some failure) (hcanceled : ∀ time, env.canceled time = false) :
    Completes (fun world ↦ world.tree = start ∧ world.clock = time)
      (recoverJournal env stateStore root path)
      fun _ world ↦ world.tree = start ∧ world.clock = time + 1 := by
  refine ensures_bind _ (completes_throwIfCancellationRequested hcanceled) fun _ ↦ ?_
  refine ensures_bind (fun read world ↦ read = none ∧ world.tree = start ∧ world.clock = time + 1)
    ?_ fun read ↦ ensures_assume fun hread ↦ ?_
  · refine ensures_tryCatch (fun raised world ↦ (∃ io, raised = .io io) ∧ world.tree = start ∧
      world.clock = time + 1) ?_ fun raised ↦ ensures_assume fun hraised ↦ ?_
    · refine ensures_bind (fun _ _ ↦ False) (ensures_step (fun _ _ ↦ trivial) ?_ ?_)
        fun _ _ himpossible ↦ himpossible.elim
      · intro world content hworld hresult
        simp only [hworld.2, hfault, reduceCtorEq] at hresult
      · intro world raised hworld hresult
        simp only [hworld.2, hfault, Except.error.injEq] at hresult ⊢
        exact ⟨⟨failure, hresult.symm⟩, hworld.1, by rw [World.tick_clock, hworld.2]⟩
    · obtain ⟨io, rfl⟩ := hraised
      exact ensures_pure fun world hworld ↦ ⟨rfl, hworld⟩
  · rw [hread]
    exact ensures_pure fun world hworld ↦ hworld

def Swept (start tree : FileTree fold) : Prop :=
  ∀ path, tree.node path = start.node path ∨ tree.node path = none ∧
    ∃ node, start.node path = some node ∧ isFileNode node = true

theorem Swept.node_of_not_file (h : Swept start tree) (hfile : isFileNode node = false) :
    tree.node path = some node ↔ start.node path = some node := by
  rcases h path with hsame | ⟨hnone, other, hother, hfileOther⟩
  · rw [hsame]
  · rw [hnone, hother, Option.some.injEq]
    refine ⟨fun himpossible ↦ (Option.some_ne_none _ himpossible.symm).elim, fun heq ↦ ?_⟩
    rw [heq, hfile] at hfileOther
    cases hfileOther

theorem Swept.deleteFile (h : Swept start tree) (hne : path ≠ [])
    (hnode : start.node path = some node) (hfile : isFileNode node = true) :
    ∃ made, tree.deleteFile path = .ok made ∧ Swept start made := by
  have hparent : tree.node path.dropLast = some .directory :=
    (h.node_of_not_file rfl).mpr (start.parent_directory path (by
      rw [show findNode fold start.entries path = some node from hnode]; simp) hne)
  have hdirectory : tree.directoryExists path = false := by
    unfold directoryExists
    rcases h path with hsame | ⟨hnone, -⟩
    · rw [hsame, hnode]
      cases node <;> simp_all [isFileNode]
    · rw [hnone]
  have hmade : ∃ made, tree.deleteFile path = .ok made := by
    by_cases hexists : tree.fileExists path = true
    · exact deleteFile_of_exists hexists
    · refine ⟨tree, ?_⟩
      rw [FileTree.deleteFile, hdirectory, if_neg Bool.false_ne_true, if_neg hexists, if_pos]
      rw [directoryExists, hparent]
  obtain ⟨made, hmade⟩ := hmade
  refine ⟨made, hmade, fun other ↦ ?_⟩
  rw [deleteFile_eq_ok hmade other]
  split_ifs with hkey
  · exact .inr ⟨rfl, node, by rw [start.node_congr hkey, hnode], hfile⟩
  · exact h other

/-- From some time on nothing fails. -/
structure QuietFrom (env : Environment fold) (bound : ℕ) : Prop where
  fault : ∀ time, bound ≤ time → env.fault time = none
  canceled : ∀ time, env.canceled time = false

variable {bound : ℕ}

theorem completes_deleteFiles (hquiet : QuietFrom env bound) (hpaths : ∀ path ∈ paths, path ≠ [] ∧
      ∃ node, start.node path = some node ∧ isFileNode node = true) :
    Completes (fun world ↦ bound ≤ world.clock ∧ Swept start world.tree) (deleteFiles env paths)
      fun _ world ↦ bound ≤ world.clock ∧ Swept start world.tree := by
  refine completes_forEach (fun _ world ↦ bound ≤ world.clock ∧ Swept start world.tree) ?_
  intro done path rest hsplit
  obtain ⟨hne, node, hnode, hfile⟩ := hpaths path (by rw [hsplit]; simp)
  refine ensures_bind _ (completes_throwIfCancellationRequested hquiet.canceled) fun _ ↦ ?_
  refine completes_operation fun world hworld ↦ ⟨hquiet.fault _ hworld.1, ?_⟩
  obtain ⟨made, hmade, hswept⟩ := hworld.2.deleteFile hne hnode hfile
  exact ⟨made, hmade, Nat.le_succ_of_le hworld.1, hswept⟩

theorem Swept.mem_start (h : Swept start tree)
    (hselect : ∀ relative node, select relative node = true → isFileNode node = true)
    (hpath : path ∈ entriesBelow tree directory select) :
    path ≠ [] ∧ ∃ node, start.node path = some node ∧ isFileNode node = true := by
  obtain ⟨relative, node, rfl, hne, hnode, hselected⟩ := node_of_mem_entriesBelow hpath
  refine ⟨by simp [hne], node, ?_, hselect relative node hselected⟩
  rcases h (directory ++ relative) with hsame | ⟨hnone, -⟩
  · rw [← hsame, hnode]
  · rw [hnone] at hnode
    cases hnode

theorem completes_sweepFiles (hquiet : QuietFrom env bound)
    (hdirectory : start.node directory = some .directory)
    (hselect : ∀ relative node, select relative node = true → isFileNode node = true)
    {next : Task fold Unit} {after : Unit → World fold → Prop}
    (hnext : Completes (fun world ↦ bound ≤ world.clock ∧ Swept start world.tree) next after) :
    Completes (fun world ↦ bound ≤ world.clock ∧ Swept start world.tree) (do
      let paths ← enumerate env directory select
      deleteFiles env paths
      next) after := by
  refine ensures_bind (fun paths world ↦ (∀ path ∈ paths, path ≠ [] ∧
    ∃ node, start.node path = some node ∧ isFileNode node = true) ∧
      bound ≤ world.clock ∧ Swept start world.tree) (completes_enumerate ?_) fun paths ↦
        ensures_assume fun hpaths ↦ ensures_bind _ (completes_deleteFiles hquiet hpaths)
          fun _ ↦ hnext
  intro world hworld
  refine ⟨hquiet.fault _ hworld.1, ?_, fun paths hperm ↦ ⟨fun path hpath ↦ ?_,
    Nat.le_succ_of_le hworld.1, hworld.2⟩⟩
  · rw [directoryExists, (hworld.2.node_of_not_file rfl).mpr hdirectory]
  · exact hworld.2.mem_start hselect (hperm.mem_iff.mp hpath)

theorem completes_deleteDirectories (hquiet : QuietFrom env bound) (depth : ℕ)
    (hnodup : (paths.map (pathKey fold)).Nodup)
    (hpaths : ∀ path ∈ paths, path.length = depth ∧ tree.directoryExists path = true) :
    Completes (fun world ↦ bound ≤ world.clock ∧ world.tree = tree) (deleteDirectories env paths)
      fun _ world ↦ ∀ path ∈ paths, world.tree.node path = none := by
  have hloop : Completes (fun world ↦ bound ≤ world.clock ∧ world.tree = tree)
      (deleteDirectories env paths) fun _ world ↦ bound ≤ world.clock ∧
        ∀ path, world.tree.node path =
          if ∃ deleted ∈ paths, Below fold deleted path then none else tree.node path := by
    refine (completes_forEach (fun done world ↦ bound ≤ world.clock ∧ ∀ path, world.tree.node path =
        if ∃ deleted ∈ done, Below fold deleted path then none else tree.node path) ?_).mono
      (fun world hworld ↦ ⟨hworld.1, fun path ↦ by rw [hworld.2, if_neg (by simp)]⟩)
      fun _ _ hworld ↦ hworld
    intro done item rest hsplit
    obtain ⟨hlength, hexists⟩ := hpaths item (by rw [hsplit]; simp)
    have hkept : ¬ ∃ deleted ∈ done, Below fold deleted item := by
      rintro ⟨deleted, hdeleted, hbelow⟩
      have hkey := pathKey_eq_of_below hbelow (prefix_refl _)
        ((hpaths deleted (by rw [hsplit]; simp [hdeleted])).1.trans hlength.symm)
      rw [hsplit, map_append, map_cons, nodup_append] at hnodup
      exact hnodup.2.2 _ (mem_map_of_mem hdeleted) _ mem_cons_self hkey
    refine ensures_bind _ (completes_throwIfCancellationRequested hquiet.canceled) fun _ ↦ ?_
    refine completes_operation fun world hworld ↦ ⟨hquiet.fault _ hworld.1, ?_⟩
    have hnow : world.tree.directoryExists item = true := by
      rw [← hexists, directoryExists, directoryExists, hworld.2 item, if_neg hkept]
    refine ⟨world.tree.removeTree item, by rw [deleteDirectory, if_pos hnow],
      Nat.le_succ_of_le hworld.1, fun path ↦ ?_⟩
    rw [World.withTree_tree, node_removeTree, hworld.2 path]
    simp only [mem_append, mem_singleton, or_and_right, exists_or, exists_eq_left]
    change (if Below fold item path then none else _) = _
    by_cases hbelow : Below fold item path
    · rw [if_pos hbelow, if_pos (.inr hbelow)]
    · rw [if_neg hbelow]
      simp only [hbelow, or_false]
  refine hloop.mono (fun _ hworld ↦ hworld) fun _ world hworld path hpath ↦ ?_
  rw [hworld.2 path, if_pos ⟨path, hpath, prefix_refl _⟩]

theorem nodup_entriesBelow (tree : FileTree fold) (directory : Path)
    (select : Path → Node → Bool) :
    ((entriesBelow tree directory select).map (pathKey fold)).Nodup := by
  have hkeys : (entriesBelow tree directory select).map (pathKey fold) =
      (tree.enumerate fun path node ↦ decide (pathKey fold directory <+: pathKey fold path) &&
        decide (directory.length < path.length) &&
          select (path.drop directory.length) node).map (pathKey fold) := by
    rw [entriesBelow, map_map]
    refine map_congr_left fun path hpath ↦ ?_
    obtain ⟨node, -, hselect⟩ := mem_enumerate.mp hpath
    simp only [Bool.and_eq_true, decide_eq_true_eq] at hselect
    obtain ⟨below, hkey, rfl⟩ := exists_append_of_leading hselect.1.1
    exact hkey
  rw [hkeys]
  exact tree.nodup_enumerate _

theorem matchesBetween_congr {head tail first second : Text}
    (h : first.map fold = second.map fold) :
    matchesBetween fold head tail first = matchesBetween fold head tail second := by
  have hlength := congrArg List.length h
  rw [length_map, length_map] at hlength
  rw [matchesBetween, matchesBetween, h, hlength]

theorem exists_mem_stagings {parent : Path} (hname : isStagingName fold name = true)
    (hnode : tree.node (parent ++ [name]) = some node) (hdirectory : isFileNode node = false) :
    ∃ path ∈ entriesBelow tree parent (fun relative node ↦ !isFileNode node &&
      relative.length == 1 && isStagingName fold (relative.getLastD [])),
        pathKey fold path = pathKey fold (parent ++ [name]) := by
  obtain ⟨spelling, hentry, hkey⟩ := exists_mem_entries hnode
  have hbelow : Below fold parent spelling := by
    rw [Below, hkey]
    exact below_append _ _
  obtain ⟨below, hspelled, hdrop⟩ := exists_append_of_leading hbelow
  have hsame : pathKey fold below = pathKey fold [name] := by
    rw [← hspelled, pathKey_append, pathKey_append] at hkey
    exact append_cancel_left hkey
  have hlength := congrArg List.length hsame
  rw [length_pathKey, length_pathKey, length_singleton] at hlength
  obtain ⟨spelled, rfl⟩ := length_eq_one_iff.mp hlength
  have hfolded : spelled.map fold = name.map fold := by
    simpa [pathKey] using hsame
  refine ⟨parent ++ spelling.drop parent.length, mem_entriesBelow.mpr ⟨spelling, node, hentry,
    hbelow, ?_, ?_, rfl⟩, ?_⟩
  · have hdropped := congrArg List.length hdrop
    rw [length_singleton, length_drop] at hdropped
    omega
  · rw [← hdrop, hdirectory]
    change (true && isStagingName fold spelled) = true
    rw [Bool.true_and, isStagingName, matchesBetween_congr hfolded]
    exact hname
  · rw [← hdrop, hspelled, hkey]

theorem completes_removeWorkFiles (hquiet : QuietFrom env bound) (hne : root ≠ [])
    (hroot : start.node root = some .directory) :
    Completes (fun world ↦ bound ≤ world.clock ∧ world.tree = start) (removeWorkFiles env root)
      fun _ world ↦ ∀ name node, isStagingName fold name = true →
        start.node (root.dropLast ++ [name]) = some node → isFileNode node = false →
          world.tree.node (root.dropLast ++ [name]) = none := by
  have hparent : start.node root.dropLast = some .directory :=
    start.parent_directory root (by
      rw [show findNode fold start.entries root = some .directory from hroot]; simp) hne
  refine (completes_sweepFiles hquiet hroot ?_ (completes_sweepFiles hquiet hroot ?_ ?_)).mono
    (fun world hworld ↦ ⟨hworld.1, fun path ↦ .inl (by rw [hworld.2])⟩) fun _ _ hworld ↦ hworld
  · intro relative node hselect
    exact (Bool.and_eq_true_iff.mp hselect).1
  · intro relative node hselect
    exact (Bool.and_eq_true_iff.mp (Bool.and_eq_true_iff.mp hselect).1).1
  · rw [if_neg hne]
    refine ensures_of_state fun world hworld ↦ ?_
    refine ensures_bind (fun paths other ↦ (paths.Perm (entriesBelow world.tree root.dropLast
      fun relative node ↦ !isFileNode node && relative.length == 1 &&
        isStagingName fold (relative.getLastD []))) ∧
      bound ≤ other.clock ∧ other.tree = world.tree) (completes_enumerate ?_) fun paths ↦
        ensures_assume fun hperm ↦ ?_
    · rintro _ rfl
      refine ⟨hquiet.fault _ hworld.1, ?_, fun paths hperm ↦ ⟨hperm, Nat.le_succ_of_le hworld.1,
        rfl⟩⟩
      rw [directoryExists, (hworld.2.node_of_not_file rfl).mpr hparent]
    · refine (completes_deleteDirectories hquiet (root.dropLast.length + 1) ?_ ?_).mono
        (fun _ hother ↦ hother) fun _ other hother name node hname hnode hdirectory ↦ ?_
      · exact (hperm.map _).nodup_iff.mpr (nodup_entriesBelow _ _ _)
      · intro path hpath
        obtain ⟨relative, node, rfl, -, hnode, hselect⟩ :=
          node_of_mem_entriesBelow (hperm.mem_iff.mp hpath)
        simp only [Bool.and_eq_true, Bool.not_eq_true', beq_iff_eq] at hselect
        refine ⟨by rw [length_append, hselect.1.2], ?_⟩
        rw [directoryExists, hnode]
        cases node <;> simp_all [isFileNode]
      · obtain ⟨path, hpath, hkey⟩ := exists_mem_stagings hname
          ((hworld.2.node_of_not_file hdirectory).mpr hnode) hdirectory
        rw [← other.tree.node_congr hkey]
        exact hother path (hperm.mem_iff.mpr hpath)

theorem completes_ensureSafeRoot (time : ℕ) (hroot : start.node root = some .directory)
    (hfirst : env.fault time = none) (hsecond : env.fault (time + 1) = none) :
    Completes (fun world ↦ world.tree = start ∧ world.clock = time) (ensureSafeRoot env root)
      fun _ world ↦ world.tree = start ∧ world.clock = time + 2 := by
  refine ensures_bind (fun _ world ↦ world.tree = start ∧ world.clock = time + 1)
    (completes_operation ?_) fun _ ↦ ?_
  · rintro world ⟨rfl, rfl⟩
    exact ⟨hfirst, world.tree, createDirectory_of_directory hroot, rfl, rfl⟩
  · refine ensures_bind (fun linked world ↦ linked = false ∧ world.tree = start ∧
      world.clock = time + 2) (completes_observe ?_) fun linked ↦ ensures_assume fun hlinked ↦ ?_
    · rintro world ⟨rfl, hclock⟩
      rw [hclock, hroot]
      exact ⟨hsecond, false, rfl, rfl, rfl, by rw [World.tick_clock, hclock]⟩
    · rw [hlinked]
      exact ensures_pure fun world hworld ↦ hworld

/-- Faults at the given number of times from some time on. -/
def faultsDuring (first count time : ℕ) : Option IoFailure :=
  if first ≤ time ∧ time < first + count then some .ioException else none

/-- Some recovery deletes every staging directory beside the root: one that can read none of the
journals, and with which nothing else is wrong. -/
theorem exists_recoverAsync_sweeps (env : Environment fold) (stateStore : Bool) {world : World fold}
    (hne : root ≠ []) (hroot : world.tree.node root = some .directory) :
    ∃ fault, Completes (fun other ↦ other = world)
      (recoverAsync (env.disturbed fault fun _ ↦ false) stateStore root) fun _ other ↦
        ∀ name node, isStagingName fold name = true →
          world.tree.node (root.dropLast ++ [name]) = some node → isFileNode node = false →
            other.tree.node (root.dropLast ++ [name]) = none := by
  set journals := entriesBelow world.tree root fun relative node ↦
    isFileNode node && relative.length == 1 && isJournalName fold (relative.getLastD [])
    with hjournals
  refine ⟨faultsDuring (world.clock + 3) journals.length, ?_⟩
  set disturbed := env.disturbed (faultsDuring (world.clock + 3) journals.length) fun _ ↦ false
  have hearly (time : ℕ) (htime : time < world.clock + 3) : disturbed.fault time = none :=
    if_neg (by omega)
  have hquiet : QuietFrom disturbed (world.clock + 3 + journals.length) :=
    ⟨fun time htime ↦ if_neg (by omega), fun _ ↦ rfl⟩
  have hexists : world.tree.directoryExists root = true := by
    rw [directoryExists, hroot]
  refine ensures_bind (fun found other ↦ found = true ∧ other = world)
    (ensures_inspect fun other hother ↦ ⟨by rw [hother, hexists], hother⟩)
    fun found ↦ ensures_assume fun hfound ↦ ?_
  rw [hfound]
  refine ensures_bind _ ((completes_ensureSafeRoot world.clock hroot (hearly _ (by omega))
    (hearly _ (by omega))).mono (fun other hother ↦ ⟨by rw [hother], by rw [hother]⟩)
      fun _ _ hother ↦ hother) fun _ ↦ ?_
  refine ensures_bind (fun paths other ↦ paths.length = journals.length ∧
    other.tree = world.tree ∧ other.clock = world.clock + 3) (completes_enumerate ?_)
      fun paths ↦ ensures_assume fun hlength ↦ ?_
  · rintro other ⟨htree, hclock⟩
    rw [hclock, htree]
    exact ⟨hearly _ (by omega), hexists, fun paths hperm ↦ ⟨hperm.length_eq, htree, by
      rw [World.tick_clock, hclock]⟩⟩
  · refine ensures_bind (fun _ other ↦ other.tree = world.tree ∧
      other.clock = world.clock + 3 + paths.length)
      (completes_forEach (fun done other ↦ other.tree = world.tree ∧
        other.clock = world.clock + 3 + done.length) ?_) fun _ ↦ ?_
    · intro done path rest hsplit
      have hfault : disturbed.fault (world.clock + 3 + done.length) = some .ioException := by
        refine if_pos ⟨by omega, ?_⟩
        rw [hsplit, length_append, length_cons] at hlength
        omega
      refine (completes_recoverJournal hfault fun _ ↦ rfl).mono (fun _ hother ↦ hother) ?_
      rintro _ other ⟨htree, hclock⟩
      exact ⟨htree, by rw [hclock, length_append, length_singleton]; omega⟩
    · refine (completes_removeWorkFiles hquiet hne hroot).mono (fun other hother ↦ ?_)
        fun _ _ hother ↦ hother
      exact ⟨by rw [hother.2, hlength], hother.1⟩

end Sweep

/-! ### When recovery keeps to its scope -/

variable {canceled : ℕ → Bool} {fault : ℕ → Option IoFailure}

theorem SafeJournal.disturbed
    (h : SafeJournal (env.disturbed fault canceled) root start name journal) :
    SafeJournal env root start name journal := by
  induction h with
  | present listed holds decodes safe => exact .present listed holds decodes safe
  | restored _ listed holds decodes safe ih => exact .restored ih listed holds decodes safe

theorem SafeJournal.undisturbed (h : SafeJournal env root start name journal) :
    SafeJournal (env.disturbed fault canceled) root start name journal := by
  induction h with
  | present listed holds decodes safe => exact .present listed holds decodes safe
  | restored _ listed holds decodes safe ih => exact .restored ih listed holds decodes safe

theorem inScope_disturbed :
    InScope (env.disturbed fault canceled) own root start path ↔ InScope env own root start path := by
  constructor
  · rintro (hroot | ⟨name, journal, hjournal, hrest⟩ | hstage)
    · exact .inl hroot
    · exact .inr (.inl ⟨name, journal, hjournal.disturbed, hrest⟩)
    · exact .inr (.inr hstage)
  · rintro (hroot | ⟨name, journal, hjournal, hrest⟩ | hstage)
    · exact .inl hroot
    · exact .inr (.inl ⟨name, journal, hjournal.undisturbed, hrest⟩)
    · exact .inr (.inr hstage)

theorem OnlyOwnWork.undisturbed (h : OnlyOwnWork env own root start) :
    OnlyOwnWork (env.disturbed fault canceled) own root start where
  stagings := fun name node hname hnode hdirectory ↦
    inScope_disturbed.mpr (h.stagings name node hname hnode hdirectory)
  backups := fun name journal hjournal hexists ↦
    inScope_disturbed.mpr (h.backups name journal hjournal.disturbed hexists)
  unlinked := by
    rintro path (hroot | ⟨name, journal, hjournal, hbelow⟩)
    · exact h.unlinked path (.inl hroot)
    · exact h.unlinked path (.inr ⟨name, journal, hjournal.disturbed, hbelow⟩)

/-- No recovery changes anything out of scope, whatever fails and whenever it is stopped. -/
def RecoversInScope (env : Environment fold) (own : Text → Prop) (root : Path)
    (world : World fold) : Prop :=
  ∀ fault canceled stateStore reached,
    reached ∈ (recoverAsync (env.disturbed fault canceled) stateStore root world).visited ∨
      reached = (recoverAsync (env.disturbed fault canceled) stateStore root world).final →
    Unchanged env own root world.tree reached.tree

/-- The first of two installations. -/
def firstRoot : Path := ["games", "first"]

/-- The second one, which is being updated. -/
def secondRoot : Path := ["games", "second"]

def secondUpdate : Text := "0123456789abcdef0123456789abcdef"

/-- A file that the update of the second installation has staged. -/
def stagedFile : Path := stageRootOf secondRoot secondUpdate ++ ["game.bin".toList]

/-- An update of the second installation that has staged its file. -/
def updateInProgress : World id where
  tree := .ofEntries [([], .directory), (["games".toList], .directory), (firstRoot, .directory),
    (secondRoot, .directory),
    (journalPathOf secondRoot .update secondUpdate, .file (journalCodec.encode
      (newJournal secondUpdate .update "game-2".toList "build-1".toList "build-2".toList
        (backupRootOf secondRoot .update secondUpdate)))),
    (backupRootOf secondRoot .update secondUpdate, .directory),
    (stageRootOf secondRoot secondUpdate, .directory), (stagedFile, .file [7])]
    (by decide) (by decide)
  installed := .empty
  clock := 0
  savedAt := none

/-- An environment in which nothing fails. -/
def calmEnvironment : Environment id :=
  quietEnvironment id ManifestValidator.asciiUnicode asciiUnicode_upper toHex (fun _ ↦ none)
    some

end GameLauncher.Installation
