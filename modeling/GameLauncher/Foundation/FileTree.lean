import Mathlib.Data.List.Infix
import Mathlib.Data.List.Nodup
import GameLauncher.Foundation.Text

/-!
# File trees

A file tree is a finite set of nodes at absolute paths, on a volume that may compare names up to a
case folding: two spellings with the same `pathKey` name the same node, and every node keeps the
spelling under which it was created. The structure carries two invariants: no two entries have the
same key, and the parent of every entry is a directory. So a file is never on the way to another
file, in any tree that the operations can build.

The operations are those of a file API with an overwriting move.
-/

set_option autoImplicit false

namespace GameLauncher.Foundation

open List

/-- An absolute path: the names from the root of the volume on. -/
abbrev Path := List Text

/-- What a path can hold. A reparse point stands for a link to a file or to a directory. -/
inductive Node
  | file (content : Bytes)
  | directory
  | reparsePoint (toDirectory : Bool)
  deriving DecidableEq, Repr

/-- How a file operation fails. -/
inductive IoFailure
  | ioException
  | unauthorizedAccess
  deriving DecidableEq, Repr

variable {path : Path}

variable {first second : Path}

section Keys

variable (fold : Char → Char)

/-- The identity of a path on a volume with the given case folding. -/
def pathKey (path : Path) : Path := path.map (List.map fold)

@[simp] theorem pathKey_append (first second : Path) :
    pathKey fold (first ++ second) = pathKey fold first ++ pathKey fold second := by
  simp [pathKey]

@[simp] theorem pathKey_nil : pathKey fold [] = [] := rfl

@[simp] theorem pathKey_eq_nil : pathKey fold path = [] ↔ path = [] := by
  simp [pathKey]

theorem pathKey_dropLast (path : Path) :
    pathKey fold path.dropLast = (pathKey fold path).dropLast := by
  simp [pathKey, map_dropLast]

@[simp] theorem length_pathKey (path : Path) : (pathKey fold path).length = path.length := by
  simp [pathKey]

@[simp] theorem pathKey_id (path : Path) : pathKey id path = path := by
  simp [pathKey]

def findNode (entries : List (Path × Node)) (path : Path) : Option Node :=
  (entries.find? fun entry ↦ pathKey fold entry.1 = pathKey fold path).map Prod.snd

theorem findNode_congr {entries : List (Path × Node)} (h : pathKey fold first = pathKey fold second)
    :
    findNode fold entries first = findNode fold entries second := by
  simp [findNode, h]

end Keys

structure FileTree (fold : Char → Char) where
  entries : List (Path × Node)
  keys_nodup : (entries.map fun entry ↦ pathKey fold entry.1).Nodup
  parent_directory : ∀ path, findNode fold entries path ≠ none → path ≠ [] →
    findNode fold entries path.dropLast = some .directory

namespace FileTree

variable {fold : Char → Char}

/-- The tree of a list of entries that names every directory. -/
def ofEntries (entries : List (Path × Node))
    (hkeys : (entries.map fun entry ↦ pathKey fold entry.1).Nodup)
    (hparents : ∀ entry ∈ entries, entry.1 = [] ∨
      findNode fold entries entry.1.dropLast = some .directory) : FileTree fold where
  entries := entries
  keys_nodup := hkeys
  parent_directory := by
    intro path hpath hne
    obtain ⟨node, hnode⟩ := Option.ne_none_iff_exists'.mp hpath
    obtain ⟨found, hfound, -⟩ := Option.map_eq_some_iff.mp hnode
    have hselected := List.find?_some hfound
    have hkey : pathKey fold found.1 = pathKey fold path := of_decide_eq_true hselected
    rcases hparents found (mem_of_find?_eq_some hfound) with hroot | hparent
    · rw [hroot, pathKey_nil] at hkey
      exact absurd ((pathKey_eq_nil fold).mp hkey.symm) hne
    · rw [← hparent]
      refine findNode_congr fold ?_
      rw [pathKey_dropLast, pathKey_dropLast, hkey]

/-- A tree with nothing but its root. -/
def emptyRoot : FileTree id := .ofEntries [([], .directory)] (by decide) (by decide)

/-! ### Looking at a tree -/

variable {tree : FileTree fold}

section

variable (tree : FileTree fold) (path : Path)

def node : Option Node := findNode fold tree.entries path

def content : Option Bytes :=
  match tree.node path with
  | some (.file content) => some content
  | _ => none

/-- Does a file, or a link to one, exist at the path? -/
def fileExists : Bool :=
  match tree.node path with
  | some (.file _) => true
  | some (.reparsePoint toDirectory) => !toDirectory
  | _ => false

/-- Does a directory, or a link to one, exist at the path? -/
def directoryExists : Bool :=
  match tree.node path with
  | some .directory => true
  | some (.reparsePoint toDirectory) => toDirectory
  | _ => false

def isReparsePoint : Bool :=
  match tree.node path with
  | some (.reparsePoint _) => true
  | _ => false

end

/-- The spellings of the existing paths that are selected, by their spelling and node. -/
def enumerate (tree : FileTree fold) (select : Path → Node → Bool) : List Path :=
  (tree.entries.filter fun entry ↦ select entry.1 entry.2).map Prod.fst

theorem node_congr (tree : FileTree fold) (h : pathKey fold first = pathKey fold second) :
    tree.node first = tree.node second :=
  findNode_congr fold h

theorem content_congr (tree : FileTree fold) (h : pathKey fold first = pathKey fold second) :
    tree.content first = tree.content second := by
  rw [content, content, tree.node_congr h]

@[simp] theorem content_eq_some {tree : FileTree fold} {path : Path} {content : Bytes} :
    tree.content path = some content ↔ tree.node path = some (.file content) := by
  unfold FileTree.content
  split <;> simp_all

theorem node_of_mem_entries {node : Node} (h : (path, node) ∈ tree.entries) :
    tree.node path = some node := by
  unfold FileTree.node findNode
  obtain ⟨found, hfound⟩ : ∃ found, tree.entries.find?
      (fun entry ↦ pathKey fold entry.1 = pathKey fold path) = some found := by
    rw [← Option.isSome_iff_exists, List.find?_isSome]
    exact ⟨(path, node), h, by simp⟩
  have hkey := List.find?_some hfound
  have hsame : found = (path, node) :=
    inj_on_of_nodup_map tree.keys_nodup (mem_of_find?_eq_some hfound) h
      (of_decide_eq_true hkey)
  rw [hfound, hsame]
  rfl

theorem exists_mem_entries {node : Node} (h : tree.node path = some node) :
    ∃ spelling, (spelling, node) ∈ tree.entries ∧ pathKey fold spelling = pathKey fold path := by
  obtain ⟨found, hfound, rfl⟩ := Option.map_eq_some_iff.mp h
  have hkey := List.find?_some hfound
  exact ⟨found.1, mem_of_find?_eq_some hfound, of_decide_eq_true hkey⟩

theorem mem_enumerate {select : Path → Node → Bool} :
    path ∈ tree.enumerate select ↔
      ∃ node, (path, node) ∈ tree.entries ∧ select path node = true := by
  simp [enumerate]

theorem nodup_enumerate (tree : FileTree fold) (select : Path → Node → Bool) :
    ((tree.enumerate select).map (pathKey fold)).Nodup := by
  have hsub : ((tree.entries.filter fun entry ↦ select entry.1 entry.2).map
      fun entry ↦ pathKey fold entry.1).Nodup :=
    tree.keys_nodup.sublist (List.Sublist.map _ filter_sublist)
  rw [enumerate, map_map]
  exact hsub

theorem node_eq_none_of_below (h : tree.node path ≠ some .directory) {below : Path}
    (hne : below ≠ []) : tree.node (path ++ below) = none := by
  induction below using List.reverseRecOn with
  | nil => exact absurd rfl hne
  | append_singleton before name ih =>
    by_contra hsome
    have hparent := tree.parent_directory (path ++ (before ++ [name])) hsome (by simp)
    rw [← append_assoc, dropLast_concat] at hparent
    change tree.node (path ++ before) = some .directory at hparent
    by_cases hbefore : before = []
    · rw [hbefore, append_nil] at hparent
      exact h hparent
    · rw [ih hbefore] at hparent
      cases hparent

theorem exists_append_of_leading (h : pathKey fold first <+: pathKey fold second) :
    ∃ below, pathKey fold (first ++ below) = pathKey fold second ∧
      below = second.drop first.length := by
  refine ⟨second.drop first.length, ?_, rfl⟩
  obtain ⟨rest, hrest⟩ := h
  have hlength : (pathKey fold first).length = first.length := length_pathKey fold first
  rw [pathKey_append, ← hrest]
  congr 1
  have hdrop : pathKey fold (second.drop first.length) =
      (pathKey fold second).drop first.length := by
    simp [pathKey, map_drop]
  rw [hdrop, ← hrest, ← hlength, drop_left]

theorem node_eq_none_of_ancestor {other : Path} (h : tree.node path ≠ some .directory)
    (hleading : pathKey fold path <+: pathKey fold other)
    (hne : pathKey fold path ≠ pathKey fold other) : tree.node other = none := by
  obtain ⟨below, hkey, -⟩ := exists_append_of_leading hleading
  rw [← tree.node_congr hkey]
  refine node_eq_none_of_below h fun hnil ↦ hne ?_
  rw [hnil, append_nil] at hkey
  exact hkey

/-! ### Changing a tree -/

theorem findNode_filter (entries : List (Path × Node)) (select : Path → Prop)
    [DecidablePred select] (path : Path) :
    findNode fold (entries.filter fun entry ↦ select (pathKey fold entry.1)) path =
      if select (pathKey fold path) then findNode fold entries path else none := by
  induction entries with
  | nil => simp [findNode]
  | cons entry rest ih =>
    by_cases hkey : pathKey fold entry.1 = pathKey fold path
    · by_cases hselect : select (pathKey fold path)
      · simp [findNode, hkey, hselect]
      · rw [filter_cons_of_neg (by simpa [hkey] using hselect), ih, if_neg hselect, if_neg hselect]
    · have hskip : findNode fold (entry :: rest) path = findNode fold rest path := by
        simp [findNode, hkey]
      rw [hskip, ← ih, filter_cons]
      split_ifs
      · simp [findNode, hkey]
      · rfl

theorem findNode_cons (entry : Path × Node) (entries : List (Path × Node)) (path : Path) :
    findNode fold (entry :: entries) path =
      if pathKey fold path = pathKey fold entry.1 then some entry.2
      else findNode fold entries path := by
  by_cases hkey : pathKey fold entry.1 = pathKey fold path
  · simp [findNode, hkey]
  · have hne : ¬ pathKey fold path = pathKey fold entry.1 := fun h ↦ hkey h.symm
    simp [findNode, hkey, hne]

/-- Remove everything at and below a path. -/
def removeTree (tree : FileTree fold) (path : Path) : FileTree fold where
  entries := tree.entries.filter fun entry ↦ ¬ pathKey fold path <+: pathKey fold entry.1
  keys_nodup := tree.keys_nodup.sublist (List.Sublist.map _ filter_sublist)
  parent_directory := by
    intro other hother hne
    rw [findNode_filter tree.entries fun key ↦ ¬ pathKey fold path <+: key] at hother ⊢
    by_cases hkept : pathKey fold path <+: pathKey fold other
    · rw [if_neg (not_not.mpr hkept)] at hother
      exact absurd rfl hother
    · rw [if_pos hkept] at hother
      rw [if_pos, tree.parent_directory other hother hne]
      intro hleading
      rw [pathKey_dropLast] at hleading
      exact hkept (hleading.trans (List.dropLast_prefix _))

@[simp] theorem node_removeTree (tree : FileTree fold) (path other : Path) :
    (tree.removeTree path).node other =
      if pathKey fold path <+: pathKey fold other then none else tree.node other := by
  unfold FileTree.node removeTree
  rw [findNode_filter tree.entries fun key ↦ ¬ pathKey fold path <+: key]
  split_ifs <;> rfl

theorem node_removeTree_of_ne_directory (h : tree.node path ≠ some .directory) (other : Path) :
    (tree.removeTree path).node other =
      if pathKey fold other = pathKey fold path then none else tree.node other := by
  rw [node_removeTree]
  by_cases hkey : pathKey fold other = pathKey fold path
  · rw [if_pos (by rw [hkey]), if_pos hkey]
  · rw [if_neg hkey]
    split_ifs with hleading
    · exact (node_eq_none_of_ancestor h hleading fun heq ↦ hkey heq.symm).symm
    · rfl

/-- May a file be put at the path? Its directory must exist, and it must be no directory. -/
def Admits (tree : FileTree fold) (path : Path) : Prop :=
  path ≠ [] ∧ tree.node path.dropLast = some .directory ∧ tree.node path ≠ some .directory

instance (tree : FileTree fold) (path : Path) : Decidable (tree.Admits path) :=
  inferInstanceAs (Decidable (_ ∧ _ ∧ _))

/-- Put a node at a path, in the place of what is there. -/
def put (tree : FileTree fold) (path : Path) (node : Node) (h : tree.Admits path) :
    FileTree fold where
  entries := (path, node) :: tree.entries.filter fun entry ↦ pathKey fold entry.1 ≠ pathKey fold path
  keys_nodup := by
    rw [map_cons, nodup_cons]
    refine ⟨fun hmem ↦ ?_, tree.keys_nodup.sublist (List.Sublist.map _ filter_sublist)⟩
    obtain ⟨entry, hentry, hkey⟩ := mem_map.mp hmem
    have hne := (mem_filter.mp hentry).2
    exact of_decide_eq_true hne hkey
  parent_directory := by
    intro other hother hne
    obtain ⟨hpath, hparent, hnode⟩ := h
    change tree.node path ≠ some .directory at hnode
    rw [findNode_cons, findNode_filter tree.entries fun key ↦ key ≠ pathKey fold path] at hother ⊢
    -- the new node is no parent, because what it replaces is no directory
    have hdirectory : tree.node other.dropLast = some .directory := by
      by_cases hkey : pathKey fold other = pathKey fold path
      · have hdrop : pathKey fold other.dropLast = pathKey fold path.dropLast := by
          rw [pathKey_dropLast, pathKey_dropLast, hkey]
        rw [tree.node_congr hdrop]
        exact hparent
      · rw [if_neg hkey, if_pos hkey] at hother
        exact tree.parent_directory other hother hne
    have hkept : pathKey fold other.dropLast ≠ pathKey fold path := by
      intro hkey
      rw [tree.node_congr hkey] at hdirectory
      exact hnode hdirectory
    rw [if_neg hkept, if_pos hkept]
    exact hdirectory

@[simp] theorem node_put (tree : FileTree fold) (path : Path) (node : Node)
    (h : tree.Admits path) (other : Path) :
    (tree.put path node h).node other =
      if pathKey fold other = pathKey fold path then some node else tree.node other := by
  unfold FileTree.node put
  rw [findNode_cons, findNode_filter tree.entries fun key ↦ key ≠ pathKey fold path]
  split_ifs <;> rfl

/-! ### The file operations -/

/-- Make a directory whose parent exists, unless it exists. -/
def ensureDirectory (tree : FileTree fold) (path : Path) : Except IoFailure (FileTree fold) :=
  match tree.node path with
  | some .directory => .ok tree
  | some _ => .error .ioException
  | none =>
    if h : tree.Admits path then .ok (tree.put path .directory h) else .error .ioException

/-- Make the directory `base` and those of the further names, from the top down. -/
def createDirectoryFrom (tree : FileTree fold) (base : Path) :
    List Text → Except IoFailure (FileTree fold)
  | [] => tree.ensureDirectory base
  | name :: rest =>
    match tree.ensureDirectory base with
    | .ok made => made.createDirectoryFrom (base ++ [name]) rest
    | .error failure => .error failure

/-- Make a directory and all missing ones above it. -/
def createDirectory (tree : FileTree fold) (path : Path) : Except IoFailure (FileTree fold) :=
  tree.createDirectoryFrom [] path

def writeFile (tree : FileTree fold) (path : Path) (content : Bytes) :
    Except IoFailure (FileTree fold) :=
  if tree.directoryExists path then .error .unauthorizedAccess
  else if h : tree.Admits path then .ok (tree.put path (.file content) h)
  else .error .ioException

/-- Create an empty file where nothing is. -/
def createNew (tree : FileTree fold) (path : Path) : Except IoFailure (FileTree fold) :=
  match tree.node path with
  | some .directory => .error .unauthorizedAccess
  | some _ => .error .ioException
  | none => tree.writeFile path []

def appendFile (tree : FileTree fold) (path : Path) (bytes : Bytes) :
    Except IoFailure (FileTree fold) :=
  match tree.node path with
  | some (.file content) => tree.writeFile path (content ++ bytes)
  | _ => .error .ioException

/-- Delete a file. A path with no file in an existing directory is left alone. -/
def deleteFile (tree : FileTree fold) (path : Path) : Except IoFailure (FileTree fold) :=
  if tree.directoryExists path then .error .unauthorizedAccess
  else if tree.fileExists path then .ok (tree.removeTree path)
  else if tree.directoryExists path.dropLast then .ok tree
  else .error .ioException

def deleteDirectory (tree : FileTree fold) (path : Path) : Except IoFailure (FileTree fold) :=
  if tree.directoryExists path then .ok (tree.removeTree path) else .error .ioException

/-- Delete a directory that holds nothing. -/
def deleteEmptyDirectory (tree : FileTree fold) (path : Path) :
    Except IoFailure (FileTree fold) :=
  if tree.node path = some .directory ∧ ∀ entry ∈ tree.entries,
      pathKey fold path <+: pathKey fold entry.1 → pathKey fold entry.1 = pathKey fold path then
    .ok (tree.removeTree path)
  else .error .ioException

def moveFile (tree : FileTree fold) (source destination : Path) :
    Except IoFailure (FileTree fold) :=
  match tree.node source with
  | some moved =>
    if tree.fileExists source then
      if tree.directoryExists destination then .error .unauthorizedAccess
      else if h : (tree.removeTree source).Admits destination then
        .ok ((tree.removeTree source).put destination moved h)
      else .error .ioException
    else .error .ioException
  | none => .error .ioException

/-! ### What the operations change -/

variable {made : FileTree fold} {base : Path} {names : List Text} {content : Bytes}

/-- One tree has the nodes of another and, apart from them, only new directories. -/
def ExtendsByDirectories (tree made : FileTree fold) : Prop :=
  ∀ path, made.node path = tree.node path ∨ tree.node path = none ∧ made.node path = some .directory

theorem ExtendsByDirectories.refl (tree : FileTree fold) : ExtendsByDirectories tree tree :=
  fun _ ↦ .inl rfl

theorem ExtendsByDirectories.trans {first second third : FileTree fold}
    (hfirst : ExtendsByDirectories first second) (hsecond : ExtendsByDirectories second third) :
    ExtendsByDirectories first third := by
  intro path
  rcases hfirst path with hsame | ⟨hnone, hdirectory⟩
  · rw [← hsame]
    exact hsecond path
  · rcases hsecond path with hsame | ⟨habsent, -⟩
    · exact .inr ⟨hnone, hsame.trans hdirectory⟩
    · rw [hdirectory] at habsent
      cases habsent

theorem ensureDirectory_eq_ok (h : tree.ensureDirectory path = .ok made) :
    ExtendsByDirectories tree made ∧ made.node path = some .directory ∧
      ∀ other, made.node other ≠ tree.node other → pathKey fold other = pathKey fold path := by
  unfold ensureDirectory at h
  split at h
  · next hnode =>
    obtain rfl := Except.ok.inj h
    exact ⟨.refl tree, hnode, fun other hne ↦ absurd rfl hne⟩
  · cases h
  · next hnode =>
    split_ifs at h with hadmits
    obtain rfl := Except.ok.inj h
    refine ⟨fun other ↦ ?_, by simp, fun other hne ↦ ?_⟩
    · by_cases hkey : pathKey fold other = pathKey fold path
      · right
        simp [hkey, tree.node_congr hkey, hnode]
      · left
        simp [hkey]
    · by_contra hkey
      exact hne (by simp [hkey])

theorem createDirectoryFrom_eq_ok (h : tree.createDirectoryFrom base names = .ok made) :
    ExtendsByDirectories tree made ∧ made.node (base ++ names) = some .directory ∧
      ∀ other, made.node other ≠ tree.node other →
        pathKey fold other <+: pathKey fold (base ++ names) := by
  induction names generalizing tree base with
  | nil =>
    obtain ⟨hextends, hnode, hother⟩ := ensureDirectory_eq_ok h
    rw [append_nil]
    exact ⟨hextends, hnode, fun other hne ↦ by rw [hother other hne]⟩
  | cons name rest ih =>
    rw [createDirectoryFrom] at h
    split at h
    · next middle hmiddle =>
      obtain ⟨hfirst, -, hfirstOther⟩ := ensureDirectory_eq_ok hmiddle
      obtain ⟨hsecond, hnode, hsecondOther⟩ := ih h
      have hpath : base ++ [name] ++ rest = base ++ name :: rest := by simp
      rw [hpath] at hnode hsecondOther
      refine ⟨hfirst.trans hsecond, hnode, fun other hne ↦ ?_⟩
      by_cases hsame : made.node other = middle.node other
      · rw [hfirstOther other (hsame ▸ hne), pathKey_append]
        exact prefix_append _ _
      · exact hsecondOther other hsame
    · cases h

theorem createDirectory_eq_ok (h : tree.createDirectory path = .ok made) :
    ExtendsByDirectories tree made ∧ made.node path = some .directory ∧
      ∀ other, made.node other ≠ tree.node other → pathKey fold other <+: pathKey fold path :=
  createDirectoryFrom_eq_ok h

theorem content_of_extendsByDirectories {tree made : FileTree fold}
    (h : ExtendsByDirectories tree made) (path : Path) : made.content path = tree.content path := by
  unfold content
  rcases h path with hsame | ⟨hnone, hdirectory⟩
  · rw [hsame]
  · rw [hnone, hdirectory]

theorem ensureDirectory_of_clear (h : tree.node path = some .directory ∨
      path ≠ [] ∧ tree.node path = none ∧ tree.node path.dropLast = some .directory) :
    ∃ made, tree.ensureDirectory path = .ok made := by
  rw [ensureDirectory]
  rcases h with hdirectory | ⟨hne, hnone, hparent⟩
  · exact ⟨tree, by rw [hdirectory]⟩
  · have hadmits : tree.Admits path := ⟨hne, hparent, by simp [hnone]⟩
    refine ⟨tree.put path .directory hadmits, ?_⟩
    rw [hnone]
    exact dif_pos hadmits

theorem createDirectoryFrom_of_clear (hbase : tree.node base = some .directory ∨
      base ≠ [] ∧ tree.node base = none ∧ tree.node base.dropLast = some .directory)
    (hclear : ∀ above, above ≠ [] → above <+: names → tree.node (base ++ above) = none ∨
      tree.node (base ++ above) = some .directory) :
    ∃ made, tree.createDirectoryFrom base names = .ok made := by
  induction names generalizing tree base with
  | nil => exact ensureDirectory_of_clear hbase
  | cons name rest ih =>
    obtain ⟨middle, hmiddle⟩ := ensureDirectory_of_clear hbase
    obtain ⟨-, hnode, hother⟩ := ensureDirectory_eq_ok hmiddle
    -- below the base nothing has changed
    have hbelow (above : List Text) (hne : above ≠ []) :
        middle.node (base ++ above) = tree.node (base ++ above) := by
      by_contra hchanged
      have hkey := congrArg List.length (hother _ hchanged)
      rw [length_pathKey, length_pathKey, length_append] at hkey
      exact hne (length_eq_zero_iff.mp (by omega))
    have hassoc (above : List Text) : base ++ [name] ++ above = base ++ name :: above := by simp
    have hnext : middle.node (base ++ [name]) = some .directory ∨ base ++ [name] ≠ [] ∧
        middle.node (base ++ [name]) = none ∧
        middle.node (base ++ [name]).dropLast = some .directory := by
      rw [hbelow [name] (by simp)]
      rcases hclear [name] (by simp) (by simp) with hnone | hdirectory
      · exact .inr ⟨by simp, hnone, by rw [dropLast_concat]; exact hnode⟩
      · exact .inl hdirectory
    have hrest : ∀ above, above ≠ [] → above <+: rest →
        middle.node (base ++ [name] ++ above) = none ∨
          middle.node (base ++ [name] ++ above) = some .directory := by
      intro above hne hleading
      rw [hassoc, hbelow (name :: above) (by simp)]
      exact hclear (name :: above) (by simp) (by simpa using hleading)
    obtain ⟨made, hmade⟩ := ih hnext hrest
    exact ⟨made, by rw [createDirectoryFrom, hmiddle]; exact hmade⟩

theorem createDirectory_of_clear (hroot : tree.node [] = some .directory)
    (hclear : ∀ above, above <+: path → tree.node above = none ∨
      tree.node above = some .directory) : ∃ made, tree.createDirectory path = .ok made :=
  createDirectoryFrom_of_clear (.inl hroot) fun above _ hleading ↦ hclear above hleading

theorem createDirectoryFrom_of_directory (h : tree.node (base ++ names) = some .directory) :
    tree.createDirectoryFrom base names = .ok tree := by
  induction names generalizing base with
  | nil =>
    rw [append_nil] at h
    rw [createDirectoryFrom, ensureDirectory, h]
  | cons name rest ih =>
    have hbase : tree.node base = some .directory := by
      by_contra hne
      rw [node_eq_none_of_below hne (cons_ne_nil name rest)] at h
      cases h
    rw [createDirectoryFrom, ensureDirectory, hbase]
    refine ih ?_
    rw [append_assoc]
    exact h

theorem createDirectory_of_directory (h : tree.node path = some .directory) :
    tree.createDirectory path = .ok tree :=
  createDirectoryFrom_of_directory h

theorem node_ne_directory (h : tree.directoryExists path = false) :
    tree.node path ≠ some .directory := by
  intro hnode
  rw [directoryExists, hnode] at h
  cases h

theorem node_eq_none_of_not_exists (hdirectory : tree.directoryExists path = false)
    (hfile : tree.fileExists path = false) : tree.node path = none := by
  unfold directoryExists at hdirectory
  unfold fileExists at hfile
  cases hnode : tree.node path with
  | none => rfl
  | some node => cases node <;> simp_all

theorem directoryExists_of_fileExists (h : tree.fileExists path = true) :
    tree.directoryExists path = false := by
  unfold fileExists at h
  unfold directoryExists
  cases hnode : tree.node path with
  | none => rfl
  | some node => cases node <;> simp_all

theorem writeFile_eq_ok (h : tree.writeFile path content = .ok made) :
    tree.Admits path ∧ ∀ other, made.node other =
      if pathKey fold other = pathKey fold path then some (.file content) else tree.node other := by
  unfold writeFile at h
  split_ifs at h with hdirectory hadmits
  obtain rfl := Except.ok.inj h
  exact ⟨hadmits, node_put tree path _ hadmits⟩

theorem writeFile_of_admits (hadmits : tree.Admits path)
    (hdirectory : tree.directoryExists path = false) :
    ∃ made, tree.writeFile path content = .ok made := by
  refine ⟨tree.put path (.file content) hadmits, ?_⟩
  rw [writeFile, hdirectory, if_neg Bool.false_ne_true, dif_pos hadmits]

theorem createNew_eq_ok (h : tree.createNew path = .ok made) :
    tree.node path = none ∧ ∀ other, made.node other =
      if pathKey fold other = pathKey fold path then some (.file []) else tree.node other := by
  unfold createNew at h
  split at h
  · cases h
  · cases h
  · next hnone => exact ⟨hnone, (writeFile_eq_ok h).2⟩

theorem createNew_of_absent (hne : path ≠ []) (hparent : tree.node path.dropLast = some .directory)
    (hnone : tree.node path = none) : ∃ made, tree.createNew path = .ok made := by
  rw [createNew, hnone]
  refine writeFile_of_admits ⟨hne, hparent, by simp [hnone]⟩ ?_
  rw [directoryExists, hnone]

theorem appendFile_eq_ok {bytes : Bytes} (h : tree.appendFile path bytes = .ok made) :
    ∃ content, tree.node path = some (.file content) ∧ ∀ other, made.node other =
      if pathKey fold other = pathKey fold path then some (.file (content ++ bytes))
      else tree.node other := by
  unfold appendFile at h
  split at h
  · next content hnode => exact ⟨content, hnode, (writeFile_eq_ok h).2⟩
  · cases h

theorem appendFile_of_file (bytes : Bytes) (hne : path ≠ [])
    (hnode : tree.node path = some (.file content)) :
    ∃ made, tree.appendFile path bytes = .ok made := by
  rw [appendFile, hnode]
  have hparent : tree.node path.dropLast = some .directory :=
    tree.parent_directory path (by rw [show findNode fold tree.entries path = _ from hnode]; simp)
      hne
  refine writeFile_of_admits ⟨hne, hparent, by simp [hnode]⟩ ?_
  rw [directoryExists, hnode]

theorem deleteFile_eq_ok (h : tree.deleteFile path = .ok made) :
    ∀ other, made.node other =
      if pathKey fold other = pathKey fold path then none else tree.node other := by
  intro other
  unfold deleteFile at h
  split_ifs at h with hdirectory hfile hparent
  · obtain rfl := Except.ok.inj h
    exact node_removeTree_of_ne_directory (node_ne_directory (Bool.eq_false_iff.mpr hdirectory)) other
  · obtain rfl := Except.ok.inj h
    split_ifs with hkey
    · rw [tree.node_congr hkey]
      exact node_eq_none_of_not_exists (Bool.eq_false_iff.mpr hdirectory)
        (Bool.eq_false_iff.mpr hfile)
    · rfl

theorem deleteFile_of_exists (h : tree.fileExists path = true) :
    ∃ made, tree.deleteFile path = .ok made := by
  refine ⟨tree.removeTree path, ?_⟩
  rw [deleteFile, directoryExists_of_fileExists h, if_neg Bool.false_ne_true, if_pos h]

theorem deleteDirectory_eq_ok (h : tree.deleteDirectory path = .ok made) :
    ∀ other, made.node other =
      if pathKey fold path <+: pathKey fold other then none else tree.node other := by
  unfold deleteDirectory at h
  split_ifs at h
  obtain rfl := Except.ok.inj h
  exact node_removeTree tree path

theorem deleteEmptyDirectory_eq_ok (h : tree.deleteEmptyDirectory path = .ok made) :
    tree.node path = some .directory ∧ ∀ other, made.node other =
      if pathKey fold other = pathKey fold path then none else tree.node other := by
  unfold deleteEmptyDirectory at h
  split_ifs at h with hempty
  obtain rfl := Except.ok.inj h
  refine ⟨hempty.1, fun other ↦ ?_⟩
  rw [node_removeTree]
  by_cases hleading : pathKey fold path <+: pathKey fold other
  · rw [if_pos hleading]
    split_ifs with hkey
    · rfl
    · cases hnode : tree.node other with
      | none => rfl
      | some node =>
        obtain ⟨spelling, hmem, hsame⟩ := exists_mem_entries hnode
        exact absurd (hsame.symm.trans (hempty.2 _ hmem (by rwa [hsame]))) hkey
  · rw [if_neg hleading, if_neg]
    intro hkey
    exact hleading (by rw [hkey])

theorem moveFile_eq_ok {source destination : Path} (h : tree.moveFile source destination = .ok made)
    :
    ∃ moved, tree.node source = some moved ∧ tree.fileExists source = true ∧
      tree.directoryExists destination = false ∧
      ∀ other, made.node other = if pathKey fold other = pathKey fold destination then some moved
        else if pathKey fold other = pathKey fold source then none else tree.node other := by
  unfold moveFile at h
  split at h
  · next moved hnode =>
    split_ifs at h with hfile hdirectory hadmits
    obtain rfl := Except.ok.inj h
    refine ⟨moved, hnode, hfile, Bool.eq_false_iff.mpr hdirectory, fun other ↦ ?_⟩
    rw [node_put, node_removeTree_of_ne_directory
      (node_ne_directory (directoryExists_of_fileExists hfile))]
  · cases h

theorem moveFile_of_clear {source destination : Path} (hfile : tree.fileExists source = true)
    (hne : destination ≠ []) (hparent : tree.node destination.dropLast = some .directory)
    (hdirectory : tree.directoryExists destination = false) :
    ∃ made, tree.moveFile source destination = .ok made := by
  have hsource := node_ne_directory (directoryExists_of_fileExists hfile)
  have hadmits : (tree.removeTree source).Admits destination := by
    refine ⟨hne, ?_, ?_⟩
    · rw [node_removeTree_of_ne_directory hsource, if_neg, hparent]
      intro hkey
      rw [tree.node_congr hkey] at hparent
      exact hsource hparent
    · rw [node_removeTree_of_ne_directory hsource]
      split_ifs
      · simp
      · exact node_ne_directory hdirectory
  cases hnode : tree.node source with
  | none =>
    rw [fileExists, hnode] at hfile
    cases hfile
  | some moved =>
    refine ⟨(tree.removeTree source).put destination moved hadmits, ?_⟩
    rw [moveFile, hnode]
    simp only [hfile, hdirectory, if_true, Bool.false_eq_true, if_false, dif_pos hadmits]

end FileTree

end GameLauncher.Foundation
