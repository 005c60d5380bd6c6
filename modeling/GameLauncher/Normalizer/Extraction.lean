import GameLauncher.Foundation.FileTree
import GameLauncher.Manifests.Manifest
import Mathlib.Data.List.Pairwise

/-!
# The extraction loop of the normalizer

`extract_zip` and `extract_tar` of the server's `normalizer` crate: the entries of an archive are
written below an extraction root, in the order of the archive.

An archive is the list of its entries as its readers return them. A name is a text, and a path is
taken apart as on the server's platform, where the slash is the only separator. In a ZIP an entry is
a directory when its stored name ends in a slash or a backslash, in a TAR when its header says so.

`extract_eq_ok_iff` says which lists of entries are extracted: those whose names are portable and
pairwise different and that nowhere use a file as a directory.
-/

set_option autoImplicit false

namespace GameLauncher.Normalizer

open Foundation Fallible Manifests List FileTree

/-! ### Archives -/

/-- The two formats whose entries both sides inspect. -/
inductive ArchiveFormat
  | zip
  | tar
  deriving DecidableEq, Repr

/-- The type of an entry, in the header of a TAR or the mode of a ZIP. -/
inductive EntryType
  | regular
  | directory
  | symbolicLink
  | hardLink
  | special
  deriving DecidableEq, Repr

/-- An entry: its stored name, its type, the size it declares and what it holds. -/
structure ArchiveEntry where
  name : Text
  entryType : EntryType
  declaredSize : ℕ
  content : Bytes
  deriving DecidableEq, Repr

/-- Does the reader of the archive say that the entry is a directory? -/
def ArchiveEntry.isDirectory (format : ArchiveFormat) (entry : ArchiveEntry) : Bool :=
  match format with
  | .zip => entry.name.getLast? == some '/' || entry.name.getLast? == some '\\'
  | .tar => entry.entryType == .directory

/-! ### Paths -/

/-- `replace('\\', "/")`. -/
def replaceBackslashes (name : Text) : Text := name.map fun c ↦ if c = '\\' then '/' else c

/-- The nonempty parts of a path, without the current directory. -/
def pathParts (path : Text) : Path :=
  (path.splitOn '/').filter fun part ↦ part ≠ [] ∧ part ≠ ".".toList

inductive Component
  | rootDir
  | curDir
  | parentDir
  | normal (value : Text)
  deriving DecidableEq, Repr

/-- `Path::components`: the current directory is a component at the start of a path only. -/
def components (path : Text) : List Component :=
  (if path.head? = some '/' then [.rootDir]
    else if (path.splitOn '/').head? = some ".".toList then [.curDir] else []) ++
  (pathParts path).map fun part ↦ if part = "..".toList then .parentDir else .normal part

/-- Why the normalizer refuses an archive. -/
inductive NormalizerError
  | tooManyEntries
  | entryCountOverflow
  | duplicateEntry (path : Path)
  | fileLimit (size : ℕ)
  | outputOverflow
  | outputLimit
  | symlinkEntry (name : Text)
  | linkEntry (path : Path)
  | unsupportedType (path : Path)
  | tarFileWithoutPath
  | emptyOrInvalidName
  | absoluteName (name : Text)
  | notPortable (name : Text)
  | escapesRoot (name : Text)
  | noUsablePath
  | io (failure : IoFailure)
  | sizeMismatch (copied expected : ℕ)
  deriving DecidableEq, Repr

def IsPortableFileName (part : Text) : Prop :=
  (∀ c ∈ part, ¬ c.toNat ≤ 0x1f) ∧ part.getLast? ≠ some ' ' ∧ part.getLast? ≠ some '.' ∧
    isReservedWindowsName part = false

instance (part : Text) : Decidable (IsPortableFileName part) :=
  have := List.decidableBAll (fun c : Char ↦ ¬ c.toNat ≤ 0x1f) part
  inferInstanceAs (Decidable (_ ∧ _))

/-- The second byte of a name is a colon. -/
def NamesDrive (name : Text) : Prop := (utf8 name)[1]? = some 58

instance (name : Text) : Decidable (NamesDrive name) := by
  unfold NamesDrive
  infer_instance

/-- One round of the loop of `safe_relative_path`. -/
def pushComponent (normalized : Text) (safe : Path) : Component → Except NormalizerError Path
  | .normal value => do
    throwIf (¬ IsPortableFileName value) (.notPortable normalized)
    return safe ++ [value]
  | .curDir => .ok safe
  | .parentDir | .rootDir => .error (.escapesRoot normalized)

def safeRelativePath (raw : Text) : Except NormalizerError Path := do
  let normalized := replaceBackslashes raw
  throwIf (normalized = [] ∨ '\x00' ∈ normalized) .emptyOrInvalidName
  throwIf (normalized.head? = some '/' ∨ NamesDrive normalized) (.absoluteName normalized)
  let safe ← (components normalized).foldlM (pushComponent normalized) []
  throwIf (safe = []) .noUsablePath
  return safe

/-! ### The loop -/

/-- The limits that the loop reads. -/
structure NormalizationLimits where
  maxEntries : ℕ
  maxFileBytes : ℕ
  maxOutputBytes : ℕ
  maxEntries_lt : maxEntries < u64Size
  maxOutputBytes_lt : maxOutputBytes < u64Size

/-- `ExtractionState`, with the tree that the loop writes to. -/
structure ExtractionState where
  entries : ℕ
  outputBytes : ℕ
  paths : List Path
  tree : FileTree id

variable (limits : NormalizationLimits)

/-- `ExtractionState::entry`. -/
def ExtractionState.entry (state : ExtractionState) (path : Path) :
    Except NormalizerError ExtractionState := do
  let entries ← orThrow (checkedAdd state.entries 1) .entryCountOverflow
  throwIf (entries > limits.maxEntries) .tooManyEntries
  throwIf (path ∈ state.paths) (.duplicateEntry path)
  return { state with entries := entries, paths := path :: state.paths }

/-- `ExtractionState::file_size`. -/
def ExtractionState.fileSize (state : ExtractionState) (size : ℕ) :
    Except NormalizerError ExtractionState := do
  throwIf (size > limits.maxFileBytes) (.fileLimit size)
  let outputBytes ← orThrow (checkedAdd state.outputBytes size) .outputOverflow
  throwIf (outputBytes > limits.maxOutputBytes) .outputLimit
  return { state with outputBytes := outputBytes }

def createDirAll (tree : FileTree id) (path : Path) : Except NormalizerError (FileTree id) :=
  (tree.createDirectory path).mapError .io

def extractReader (content : Bytes) (target : Path) (declaredSize : ℕ) (tree : FileTree id) :
    Except NormalizerError (FileTree id) := do
  let tree ← createDirAll tree target.dropLast
  let tree ← (tree.createNew target).mapError .io
  let copied := content.take (declaredSize + 1)
  let tree ← (tree.appendFile target copied).mapError .io
  throwIf (copied.length ≠ declaredSize) (.sizeMismatch copied.length declaredSize)
  return tree

/-- One round of the loop of `extract_zip`. -/
def extractZipEntry (destination : Path) (state : ExtractionState) (entry : ArchiveEntry) :
    Except NormalizerError ExtractionState := do
  let relative ← safeRelativePath entry.name
  let state ← state.entry limits relative
  throwIf (entry.entryType = .symbolicLink) (.symlinkEntry entry.name)
  let target := destination ++ relative
  if entry.isDirectory .zip then
    let tree ← createDirAll state.tree target
    return { state with tree := tree }
  else
    let state ← state.fileSize limits entry.declaredSize
    let tree ← extractReader entry.content target entry.declaredSize state.tree
    return { state with tree := tree }

/-- The names for which a TAR directory is passed over. -/
def isRootName (name : Text) : Bool :=
  [".".toList, "./".toList, []].contains (replaceBackslashes name)

/-- One round of the loop of `extract_tar`. -/
def extractTarEntry (destination : Path) (state : ExtractionState) (entry : ArchiveEntry) :
    Except NormalizerError ExtractionState := do
  if isRootName entry.name then
    if entry.entryType = .directory then .ok state else .error .tarFileWithoutPath
  else
    let relative ← safeRelativePath entry.name
    let state ← state.entry limits relative
    if entry.entryType = .directory then
      let tree ← createDirAll state.tree (destination ++ relative)
      return { state with tree := tree }
    else
      throwIf (entry.entryType = .symbolicLink ∨ entry.entryType = .hardLink) (.linkEntry relative)
      throwIf (entry.entryType ≠ .regular) (.unsupportedType relative)
      let state ← state.fileSize limits entry.declaredSize
      let tree ← extractReader entry.content (destination ++ relative) entry.declaredSize state.tree
      return { state with tree := tree }

/-- One round of either loop. -/
def extractEntry (format : ArchiveFormat) (destination : Path) (state : ExtractionState)
    (entry : ArchiveEntry) : Except NormalizerError ExtractionState :=
  match format with
  | .zip => extractZipEntry limits destination state entry
  | .tar => extractTarEntry limits destination state entry

/-- `extract_zip` or `extract_tar`, into a tree. -/
def extract (format : ArchiveFormat) (destination : Path) (tree : FileTree id)
    (entries : List ArchiveEntry) : Except NormalizerError ExtractionState :=
  entries.foldlM (extractEntry limits format destination) ⟨0, 0, [], tree⟩

/-! ### Names -/

variable {name : Text} {path : Path}

def entryPath (name : Text) : Path := pathParts (replaceBackslashes name)

/-- A name that the normalizer accepts. -/
structure HasPortableName (name : Text) : Prop where
  no_null : '\x00' ∉ name
  relative : (replaceBackslashes name).head? ≠ some '/'
  no_drive : ¬ NamesDrive (replaceBackslashes name)
  usable : entryPath name ≠ []
  portable : ∀ part ∈ entryPath name, IsPortableFileName part

theorem null_mem_replaceBackslashes : '\x00' ∈ replaceBackslashes name ↔ '\x00' ∈ name := by
  unfold replaceBackslashes
  rw [mem_map]
  constructor
  · rintro ⟨c, hc, hnull⟩
    by_cases hbackslash : c = '\\'
    · rw [if_pos hbackslash] at hnull
      exact absurd hnull (by decide)
    · rw [if_neg hbackslash] at hnull
      exact hnull ▸ hc
  · intro hnull
    exact ⟨'\x00', hnull, by decide⟩

theorem foldlM_pushComponent_eq_ok {normalized : Text} {parts safe : Path} :
    (parts.map fun part ↦ if part = "..".toList then Component.parentDir else .normal part).foldlM
      (pushComponent normalized) safe = .ok path ↔
      (∀ part ∈ parts, IsPortableFileName part) ∧ safe ++ parts = path := by
  induction parts generalizing safe with
  | nil => simp
  | cons part rest ih =>
    rw [map_cons, foldlM_cons, bind_eq_ok]
    by_cases hparent : part = "..".toList
    · rw [if_pos hparent]
      have hrefused : ¬ IsPortableFileName part := fun h ↦ h.2.2.1 (by rw [hparent]; decide)
      simp [pushComponent, hrefused]
    · rw [if_neg hparent]
      simp only [pushComponent, bind_eq_ok, throwIf_eq_ok, pure_eq_ok, not_not, ih, forall_mem_cons]
      constructor
      · rintro ⟨_, ⟨_, hpart, rfl⟩, hrest, hpath⟩
        exact ⟨⟨hpart, hrest⟩, by rw [← hpath, append_assoc]; rfl⟩
      · rintro ⟨⟨hpart, hrest⟩, hpath⟩
        exact ⟨safe ++ [part], ⟨(), hpart, rfl⟩, hrest, by rw [← hpath, append_assoc]; rfl⟩

theorem safeRelativePath_eq_ok :
    safeRelativePath name = .ok path ↔ HasPortableName name ∧ entryPath name = path := by
  have hcomponents (hrelative : (replaceBackslashes name).head? ≠ some '/') :
      (components (replaceBackslashes name)).foldlM (pushComponent (replaceBackslashes name)) [] =
        .ok path ↔ (∀ part ∈ entryPath name, IsPortableFileName part) ∧ entryPath name = path := by
    rw [components, if_neg hrelative, entryPath]
    by_cases hdot : ((replaceBackslashes name).splitOn '/').head? = some ".".toList
    · rw [if_pos hdot]
      exact foldlM_pushComponent_eq_ok
    · rw [if_neg hdot]
      exact foldlM_pushComponent_eq_ok
  unfold safeRelativePath
  simp only [bind_eq_ok, throwIf_eq_ok, pure_eq_ok, not_or, exists_const, null_mem_replaceBackslashes]
  constructor
  · rintro ⟨⟨-, hnull⟩, ⟨hrelative, hdrive⟩, safe, hsafe, husable, rfl⟩
    obtain ⟨hportable, hpath⟩ := (hcomponents hrelative).mp hsafe
    exact ⟨⟨hnull, hrelative, hdrive, hpath ▸ husable, hportable⟩, hpath⟩
  · rintro ⟨h, hpath⟩
    have hne : replaceBackslashes name ≠ [] := by
      intro hnil
      exact h.usable (by rw [entryPath, hnil]; decide)
    exact ⟨⟨hne, h.no_null⟩, ⟨h.relative, h.no_drive⟩, path,
      (hcomponents h.relative).mpr ⟨h.portable, hpath⟩, hpath ▸ h.usable, rfl⟩

/-! ### Directories and files below a destination -/

section Tree

variable {tree made : FileTree id} {destination relative : Path}

@[simp] theorem pathKey_id (path : Path) : pathKey id path = path := by
  simp [pathKey]

theorem node_of_leading {upper lower : Path} (h : upper <+: lower) (hne : upper ≠ lower)
    (hnode : tree.node lower ≠ none) : tree.node upper = some .directory := by
  by_contra hdirectory
  refine hnode (node_eq_none_of_ancestor hdirectory ?_ ?_)
  · simpa using h
  · simpa using hne

theorem node_createDirectory
    (h : tree.createDirectory (destination ++ relative) = .ok made) (other : Path) :
    made.node (destination ++ other) =
      if other <+: relative then some .directory else tree.node (destination ++ other) := by
  obtain ⟨-, hnode, hchanged⟩ := createDirectory_eq_ok h
  split_ifs with hleading
  · by_cases heq : other = relative
    · rw [heq, hnode]
    · exact node_of_leading ((prefix_append_right_inj _).mpr hleading) (by simpa using heq)
        (by rw [hnode]; simp)
  · by_contra hne
    have hpath := hchanged _ hne
    rw [pathKey_id, pathKey_id, prefix_append_right_inj] at hpath
    exact hleading hpath

theorem createDirectory_iff (hroot : tree.node destination = some .directory)
    (hlinks : ∀ path toDirectory,
      tree.node (destination ++ path) ≠ some (.reparsePoint toDirectory)) :
    (∃ made, tree.createDirectory (destination ++ relative) = .ok made) ↔
      ∀ above, above <+: relative → ∀ content, tree.node (destination ++ above) ≠
        some (.file content) := by
  constructor
  · rintro ⟨made, hmade⟩ above habove content hfile
    have hdirectory := node_createDirectory hmade above
    rw [if_pos habove] at hdirectory
    have hcontent := content_of_extendsByDirectories
      (createDirectory_eq_ok hmade).1 (destination ++ above)
    rw [FileTree.content, FileTree.content, hdirectory, hfile] at hcontent
    cases hcontent
  · intro hclear
    have hempty : tree.node [] = some .directory := by
      by_cases hnil : destination = []
      · rwa [hnil] at hroot
      · exact node_of_leading nil_prefix (Ne.symm hnil) (by rw [hroot]; simp)
    refine createDirectory_of_clear hempty fun above habove ↦ ?_
    rcases prefix_or_prefix_of_prefix habove (prefix_append destination relative) with
      hdestination | ⟨below, rfl⟩
    · right
      by_cases heq : above = destination
      · rw [heq, hroot]
      · exact node_of_leading hdestination heq (by rw [hroot]; simp)
    · cases hnode : tree.node (destination ++ below) with
      | none => exact .inl rfl
      | some node =>
        cases node with
        | directory => exact .inr rfl
        | file content =>
          exact absurd hnode (hclear below ((prefix_append_right_inj _).mp habove) content)
        | reparsePoint toDirectory => exact absurd hnode (hlinks _ _)

end Tree

/-! ### Which entries are extracted -/

variable {format : ArchiveFormat} {destination : Path} {state made : ExtractionState}
  {done : List ArchiveEntry} {entry : ArchiveEntry}

/-- A directory entry of a TAR for the root itself, which is passed over. -/
def IsSkipped (format : ArchiveFormat) (entry : ArchiveEntry) : Prop :=
  format = .tar ∧ entry.entryType = .directory ∧ isRootName entry.name = true

instance (format : ArchiveFormat) (entry : ArchiveEntry) : Decidable (IsSkipped format entry) := by
  unfold IsSkipped
  infer_instance

/-- One entry is a file where the other needs a directory. -/
def Conflicts (format : ArchiveFormat) (file other : ArchiveEntry) : Prop :=
  ¬ IsSkipped format file ∧ ¬ IsSkipped format other ∧ file.isDirectory format = false ∧
    entryPath file.name <+: entryPath other.name ∧ entryPath file.name ≠ entryPath other.name

instance (format : ArchiveFormat) (file other : ArchiveEntry) :
    Decidable (Conflicts format file other) := by
  unfold Conflicts
  infer_instance

def IsFileOf (format : ArchiveFormat) (done : List ArchiveEntry) (path : Path) : Prop :=
  ∃ entry ∈ done, ¬ IsSkipped format entry ∧ entry.isDirectory format = false ∧
    entryPath entry.name = path

/-- Some entry is the directory at the path or lies below it. -/
def IsDirectoryOf (format : ArchiveFormat) (done : List ArchiveEntry) (path : Path) : Prop :=
  ∃ entry ∈ done, ¬ IsSkipped format entry ∧ path <+: entryPath entry.name ∧
    (entry.isDirectory format = true ∨ path ≠ entryPath entry.name)

/-- What the loop has left after some of the entries. -/
structure Extracted (format : ArchiveFormat) (destination : Path) (done : List ArchiveEntry)
    (state : ExtractionState) : Prop where
  entries_le : state.entries ≤ done.length
  outputBytes_le : state.outputBytes ≤ (done.map ArchiveEntry.declaredSize).sum
  mem_paths : ∀ path, path ∈ state.paths ↔
    ∃ entry ∈ done, ¬ IsSkipped format entry ∧ entryPath entry.name = path
  portable : ∀ entry ∈ done, ¬ IsSkipped format entry → HasPortableName entry.name
  root : state.tree.node destination = some .directory
  no_link : ∀ path toDirectory,
    state.tree.node (destination ++ path) ≠ some (.reparsePoint toDirectory)
  file_iff : ∀ path, path ≠ [] → ((∃ content, state.tree.node (destination ++ path) =
    some (.file content)) ↔ IsFileOf format done path)
  directory_iff : ∀ path, path ≠ [] → (state.tree.node (destination ++ path) = some .directory ↔
    IsDirectoryOf format done path)

theorem isFileOf_append : IsFileOf format (done ++ [entry]) path ↔
    IsFileOf format done path ∨ ¬ IsSkipped format entry ∧ entry.isDirectory format = false ∧
      entryPath entry.name = path := by
  simp [IsFileOf, or_and_right, exists_or]

theorem isDirectoryOf_append : IsDirectoryOf format (done ++ [entry]) path ↔
    IsDirectoryOf format done path ∨ ¬ IsSkipped format entry ∧ path <+: entryPath entry.name ∧
      (entry.isDirectory format = true ∨ path ≠ entryPath entry.name) := by
  simp [IsDirectoryOf, or_and_right, exists_or]

theorem Extracted.skip (h : Extracted format destination done state)
    (hskipped : IsSkipped format entry) :
    Extracted format destination (done ++ [entry]) state where
  entries_le := by
    rw [length_append]
    exact Nat.le_add_right_of_le h.entries_le
  outputBytes_le := by
    rw [map_append, sum_append]
    exact Nat.le_add_right_of_le h.outputBytes_le
  mem_paths := by
    intro path
    simp [h.mem_paths path, or_and_right, exists_or, hskipped]
  portable := by
    intro other hother hkept
    rcases mem_append.mp hother with hother | hother
    · exact h.portable other hother hkept
    · exact absurd (mem_singleton.mp hother ▸ hskipped) hkept
  root := h.root
  no_link := h.no_link
  file_iff := by
    intro path hne
    rw [h.file_iff path hne, isFileOf_append]
    simp [hskipped]
  directory_iff := by
    intro path hne
    rw [h.directory_iff path hne, isDirectoryOf_append]
    simp [hskipped]

/-- The file system part of one round, for an entry that is not skipped. -/
def place (format : ArchiveFormat) (destination : Path) (entry : ArchiveEntry) (tree : FileTree id) :
    Except NormalizerError (FileTree id) :=
  if entry.isDirectory format then createDirAll tree (destination ++ entryPath entry.name)
  else extractReader entry.content (destination ++ entryPath entry.name) entry.declaredSize tree

theorem leading_dropLast_iff {lower : Path} (hne : lower ≠ []) :
    path <+: lower.dropLast ↔ path <+: lower ∧ path ≠ lower := by
  have hpos := length_pos_of_ne_nil hne
  constructor
  · intro h
    refine ⟨h.trans (List.dropLast_prefix _), fun heq ↦ ?_⟩
    have hlength := h.length_le
    rw [length_dropLast, heq] at hlength
    omega
  · rintro ⟨h, hdiffer⟩
    refine prefix_of_prefix_length_le h (List.dropLast_prefix _) ?_
    have hlength := h.length_le
    have : path.length ≠ lower.length := fun heq ↦ hdiffer (h.eq_of_length heq)
    rw [length_dropLast]
    omega

theorem mapError_eq_ok {result : Except IoFailure (FileTree id)} {tree : FileTree id} :
    result.mapError NormalizerError.io = .ok tree ↔ result = .ok tree := by
  cases result <;> simp [Except.mapError]

theorem extractReader_eq_ok {content : Bytes} {target : Path} {declaredSize : ℕ}
    {tree made : FileTree id} :
    extractReader content target declaredSize tree = .ok made ↔
      ∃ parents created, tree.createDirectory target.dropLast = .ok parents ∧
        parents.createNew target = .ok created ∧
        created.appendFile target (content.take (declaredSize + 1)) = .ok made ∧
        (content.take (declaredSize + 1)).length = declaredSize := by
  unfold extractReader createDirAll
  simp only [bind_eq_ok, mapError_eq_ok, throwIf_eq_ok, pure_eq_ok, not_not, exists_const]
  constructor
  · rintro ⟨parents, hparents, created, hcreated, written, hwritten, hlength, rfl⟩
    exact ⟨parents, created, hparents, hcreated, hwritten, hlength⟩
  · rintro ⟨parents, created, hparents, hcreated, hwritten, hlength⟩
    exact ⟨parents, hparents, created, hcreated, made, hwritten, hlength, rfl⟩

theorem node_place {tree made : FileTree id} (hne : entryPath entry.name ≠ [])
    (h : place format destination entry tree = .ok made) (path : Path) :
    made.node (destination ++ path) =
      if entry.isDirectory format = false ∧ path = entryPath entry.name then
        some (.file (entry.content.take (entry.declaredSize + 1)))
      else if path <+: entryPath entry.name then some .directory
      else tree.node (destination ++ path) := by
  unfold place at h
  by_cases hdirectory : entry.isDirectory format = true
  · rw [if_pos hdirectory] at h
    rw [node_createDirectory (mapError_eq_ok.mp h), hdirectory]
    simp
  · rw [if_neg hdirectory] at h
    obtain ⟨parents, created, hparents, hcreated, hwritten, -⟩ := extractReader_eq_ok.mp h
    rw [dropLast_append_of_ne_nil hne] at hparents
    obtain ⟨-, hcreatedNode⟩ := createNew_eq_ok hcreated
    obtain ⟨content, hcontent, hwrittenNode⟩ := appendFile_eq_ok hwritten
    have hempty : content = [] := by
      rw [hcreatedNode, if_pos rfl] at hcontent
      exact (Node.file.inj (Option.some.inj hcontent)).symm
    rw [hwrittenNode, hcreatedNode, node_createDirectory hparents, hempty]
    simp only [pathKey_id, append_cancel_left_eq, nil_append, leading_dropLast_iff hne]
    simp only [Bool.not_eq_true] at hdirectory
    by_cases heq : path = entryPath entry.name <;> simp [heq, hdirectory]

theorem place_iff {tree : FileTree id} (hroot : tree.node destination = some .directory)
    (hlinks : ∀ path toDirectory,
      tree.node (destination ++ path) ≠ some (.reparsePoint toDirectory))
    (hne : entryPath entry.name ≠ []) (htrue : entry.declaredSize = entry.content.length) :
    (∃ made, place format destination entry tree = .ok made) ↔
      (∀ above, above <+: entryPath entry.name →
        (above ≠ entryPath entry.name ∨ entry.isDirectory format = true) →
        ∀ content, tree.node (destination ++ above) ≠ some (.file content)) ∧
      (entry.isDirectory format = false →
        tree.node (destination ++ entryPath entry.name) = none) := by
  unfold place
  by_cases hdirectory : entry.isDirectory format = true
  · rw [if_pos hdirectory]
    simp only [createDirAll, mapError_eq_ok]
    rw [createDirectory_iff hroot hlinks]
    simp [hdirectory]
  · rw [if_neg hdirectory]
    simp only [Bool.not_eq_true] at hdirectory
    have hparent : (destination ++ entryPath entry.name).dropLast =
        destination ++ (entryPath entry.name).dropLast := dropLast_append_of_ne_nil hne
    have hclear : (∃ made, tree.createDirectory (destination ++ (entryPath entry.name).dropLast) =
        .ok made) ↔ _ := createDirectory_iff hroot hlinks
    simp only [extractReader_eq_ok, hdirectory, Bool.false_eq_true, or_false, forall_const, hparent]
    have hsame {parents : FileTree id}
        (hparents : tree.createDirectory (destination ++ (entryPath entry.name).dropLast) =
          .ok parents) : parents.node (destination ++ entryPath entry.name) =
            tree.node (destination ++ entryPath entry.name) := by
      rw [node_createDirectory hparents, if_neg]
      exact fun hleading ↦ ((leading_dropLast_iff hne).mp hleading).2 rfl
    constructor
    · rintro ⟨made, parents, created, hparents, hcreated, -⟩
      refine ⟨fun above habove hdiffer ↦
        hclear.mp ⟨parents, hparents⟩ above ((leading_dropLast_iff hne).mpr ⟨habove, hdiffer⟩), ?_⟩
      rw [← hsame hparents]
      exact (createNew_eq_ok hcreated).1
    · rintro ⟨hfiles, hnone⟩
      obtain ⟨parents, hparents⟩ := hclear.mpr fun above habove ↦
        hfiles above ((leading_dropLast_iff hne).mp habove).1
          ((leading_dropLast_iff hne).mp habove).2
      have hdir : parents.node (destination ++ entryPath entry.name).dropLast =
          some .directory := by
        rw [hparent, node_createDirectory hparents, if_pos prefix_rfl]
      obtain ⟨created, hcreated⟩ := createNew_of_absent (by simp [hne]) hdir
        ((hsame hparents).trans hnone)
      have hfile := (createNew_eq_ok hcreated).2 (destination ++ entryPath entry.name)
      rw [if_pos rfl] at hfile
      obtain ⟨made, hmade⟩ := appendFile_of_file
        (entry.content.take (entry.declaredSize + 1)) (by simp [hne]) hfile
      exact ⟨made, parents, created, hparents, hcreated, hmade, by simp [htrue]⟩

/-! ### One round -/

variable {limits}

theorem entry_eq_ok (h : state.entries + 1 ≤ limits.maxEntries) :
    state.entry limits path = .ok made ↔ path ∉ state.paths ∧
        { state with entries := state.entries + 1, paths := path :: state.paths } = made := by
  have hlt := limits.maxEntries_lt
  unfold ExtractionState.entry
  simp only [bind_eq_ok, orThrow_eq_ok, checkedAdd_eq_some, throwIf_eq_ok, pure_eq_ok, exists_const]
  constructor
  · rintro ⟨_, ⟨-, rfl⟩, -, hpath, hmade⟩
    exact ⟨hpath, hmade⟩
  · rintro ⟨hpath, hmade⟩
    exact ⟨_, ⟨by omega, rfl⟩, by omega, hpath, hmade⟩

theorem fileSize_eq_ok {size : ℕ} (hsize : size ≤ limits.maxFileBytes)
    (houtput : state.outputBytes + size ≤ limits.maxOutputBytes) :
    state.fileSize limits size = .ok made ↔
      { state with outputBytes := state.outputBytes + size } = made := by
  have hlt := limits.maxOutputBytes_lt
  unfold ExtractionState.fileSize
  simp only [bind_eq_ok, orThrow_eq_ok, checkedAdd_eq_some, throwIf_eq_ok, pure_eq_ok, exists_const]
  constructor
  · rintro ⟨-, _, ⟨-, rfl⟩, -, hmade⟩
    exact hmade
  · intro hmade
    exact ⟨by omega, _, ⟨by omega, rfl⟩, by omega, hmade⟩

theorem writeFile_eq_ok (state : ExtractionState) {content : Bytes} {target : Path} {size : ℕ}
    (hsize : size ≤ limits.maxFileBytes)
    (houtput : state.outputBytes + size ≤ limits.maxOutputBytes) :
    (do
      let state ← state.fileSize limits size
      let tree ← extractReader content target size state.tree
      return { state with tree := tree }) = .ok made ↔
      ∃ tree, extractReader content target size state.tree = .ok tree ∧
        { state with outputBytes := state.outputBytes + size, tree := tree } = made := by
  simp only [bind_eq_ok, fileSize_eq_ok hsize houtput, pure_eq_ok]
  constructor
  · rintro ⟨_, rfl, tree, htree, hmade⟩
    exact ⟨tree, htree, hmade⟩
  · rintro ⟨tree, htree, hmade⟩
    exact ⟨_, rfl, tree, htree, hmade⟩

theorem entryPath_of_isRootName (h : isRootName name = true) : entryPath name = [] := by
  unfold isRootName at h
  rw [contains_iff_mem] at h
  simp only [mem_cons, not_mem_nil, or_false] at h
  rcases h with h | h | h <;> rw [entryPath, h] <;> decide

/-- The state after `ExtractionState::entry` has accepted an entry. -/
def counted (entry : ArchiveEntry) (state : ExtractionState) : ExtractionState :=
  { state with entries := state.entries + 1, paths := entryPath entry.name :: state.paths }

def afterEntry (format : ArchiveFormat) (entry : ArchiveEntry) (state : ExtractionState)
    (tree : FileTree id) : ExtractionState where
  entries := state.entries + 1
  outputBytes :=
    if entry.isDirectory format then state.outputBytes
    else state.outputBytes + entry.declaredSize
  paths := entryPath entry.name :: state.paths
  tree := tree

theorem namedCounted_iff {rest : Path → ExtractionState → Prop} :
    (∃ path, (HasPortableName entry.name ∧ entryPath entry.name = path) ∧
        ∃ next, (path ∉ state.paths ∧
          { state with entries := state.entries + 1, paths := path :: state.paths } = next) ∧
            rest path next) ↔
      HasPortableName entry.name ∧ entryPath entry.name ∉ state.paths ∧
        rest (entryPath entry.name) (counted entry state) := by
  constructor
  · rintro ⟨_, ⟨hname, rfl⟩, _, ⟨hpath, rfl⟩, hrest⟩
    exact ⟨hname, hpath, hrest⟩
  · rintro ⟨hname, hpath, hrest⟩
    exact ⟨_, ⟨hname, rfl⟩, _, ⟨hpath, rfl⟩, hrest⟩

/-- One round within the limits: the entry is skipped, or its name is portable, its path is new and
it can be placed. -/
theorem extractEntry_eq_ok
    (hkind : entry.entryType = .regular ∨ entry.entryType = .directory)
    (hentries : state.entries + 1 ≤ limits.maxEntries)
    (hsize : entry.declaredSize ≤ limits.maxFileBytes)
    (houtput : state.outputBytes + entry.declaredSize ≤ limits.maxOutputBytes) :
    extractEntry limits format destination state entry = .ok made ↔
      IsSkipped format entry ∧ state = made ∨
        ¬ IsSkipped format entry ∧ HasPortableName entry.name ∧ entryPath entry.name ∉ state.paths ∧
          ∃ tree, place format destination entry state.tree = .ok tree ∧
            afterEntry format entry state tree = made := by
  have hnotSymlink : entry.entryType ≠ .symbolicLink := by
    rcases hkind with h | h <;> simp [h]
  have hnotHardLink : entry.entryType ≠ .hardLink := by
    rcases hkind with h | h <;> simp [h]
  cases format with
  | zip =>
    have hkept : ¬ IsSkipped .zip entry := fun h ↦ by cases h.1
    simp only [hkept, not_false_eq_true, false_and, true_and, false_or, extractEntry,
      extractZipEntry, bind_eq_ok, safeRelativePath_eq_ok, entry_eq_ok hentries, throwIf_eq_ok,
      hnotSymlink, exists_const, place, afterEntry]
    by_cases hdirectory : entry.isDirectory .zip = true
    · simp only [hdirectory, if_true, bind_eq_ok, pure_eq_ok]
      exact namedCounted_iff
    · simp only [hdirectory, if_false, Bool.false_eq_true]
      exact namedCounted_iff.trans (and_congr_right fun _ ↦ and_congr_right fun _ ↦
        writeFile_eq_ok (counted entry state) hsize houtput)
  | tar =>
    simp only [extractEntry, extractTarEntry]
    by_cases hroot : isRootName entry.name = true
    · rw [if_pos hroot]
      have hname : ¬ HasPortableName entry.name := fun h ↦ h.usable (entryPath_of_isRootName hroot)
      by_cases hdirectory : entry.entryType = .directory
      · simp [IsSkipped, hroot, hdirectory]
      · simp [IsSkipped, hdirectory, hname]
    · rw [if_neg hroot]
      have hkept : ¬ IsSkipped .tar entry := fun h ↦ hroot h.2.2
      simp only [hkept, not_false_eq_true, false_and, true_and, false_or, bind_eq_ok,
        safeRelativePath_eq_ok, entry_eq_ok hentries, place, afterEntry, ArchiveEntry.isDirectory,
        beq_iff_eq]
      rcases hkind with hregular | hdirectory
      · simp only [hregular, reduceCtorEq, if_false, or_self, ne_eq, not_true_eq_false]
        exact namedCounted_iff.trans (and_congr_right fun _ ↦ and_congr_right fun _ ↦
          writeFile_eq_ok (counted entry state) hsize houtput)
      · simp only [hdirectory, if_true, bind_eq_ok, pure_eq_ok]
        exact namedCounted_iff

section

variable (h : Extracted format destination done state) (hkept : ¬ IsSkipped format entry)
  (hname : HasPortableName entry.name)

include h hkept hname

theorem Extracted.place_iff (htrue : entry.declaredSize = entry.content.length)
    (hnew : entryPath entry.name ∉ state.paths) :
    (∃ tree, place format destination entry state.tree = .ok tree) ↔
      ∀ other ∈ done, ¬ Conflicts format other entry ∧ ¬ Conflicts format entry other := by
  have hdiffer {other : ArchiveEntry} (hother : other ∈ done)
      (hotherKept : ¬ IsSkipped format other) : entryPath other.name ≠ entryPath entry.name :=
    fun heq ↦ hnew ((h.mem_paths _).mpr ⟨other, hother, hotherKept, heq⟩)
  rw [Normalizer.place_iff h.root h.no_link hname.usable htrue]
  constructor
  · rintro ⟨hfiles, habsent⟩ other hother
    constructor
    · rintro ⟨hotherKept, -, hfile, hleading, hne⟩
      have hpath : entryPath other.name ≠ [] := (h.portable other hother hotherKept).usable
      obtain ⟨content, hcontent⟩ := (h.file_iff _ hpath).mpr ⟨other, hother, hotherKept, hfile, rfl⟩
      exact hfiles _ hleading (.inl hne) content hcontent
    · rintro ⟨-, hotherKept, hfile, hleading, hne⟩
      have hdirectory := (h.directory_iff _ hname.usable).mpr
        ⟨other, hother, hotherKept, hleading, .inr hne⟩
      rw [habsent hfile] at hdirectory
      cases hdirectory
  · intro hclear
    refine ⟨fun above habove _ content hcontent ↦ ?_, fun hfile ↦ ?_⟩
    · by_cases hnil : above = []
      · rw [hnil, append_nil, h.root] at hcontent
        cases hcontent
      · obtain ⟨other, hother, hotherKept, hotherFile, rfl⟩ :=
          (h.file_iff above hnil).mp ⟨content, hcontent⟩
        exact (hclear other hother).1
          ⟨hotherKept, hkept, hotherFile, habove, hdiffer hother hotherKept⟩
    · cases hnode : state.tree.node (destination ++ entryPath entry.name) with
      | none => rfl
      | some node =>
        exfalso
        cases node with
        | file content =>
          obtain ⟨other, hother, hotherKept, -, heq⟩ :=
            (h.file_iff _ hname.usable).mp ⟨content, hnode⟩
          exact hdiffer hother hotherKept heq
        | directory =>
          obtain ⟨other, hother, hotherKept, hleading, -⟩ :=
            (h.directory_iff _ hname.usable).mp hnode
          exact (hclear other hother).2
            ⟨hkept, hotherKept, hfile, hleading, (hdiffer hother hotherKept).symm⟩
        | reparsePoint toDirectory => exact h.no_link _ _ hnode

theorem Extracted.place
    (hclear : ∀ other ∈ done, ¬ Conflicts format other entry ∧ ¬ Conflicts format entry other)
    (hnew : entryPath entry.name ∉ state.paths) {tree : FileTree id}
    (hplace : Normalizer.place format destination entry state.tree = .ok tree) :
    Extracted format destination (done ++ [entry]) (afterEntry format entry state tree) where
  entries_le := by
    have := h.entries_le
    rw [length_append]
    exact Nat.succ_le_succ this
  outputBytes_le := by
    have := h.outputBytes_le
    rw [map_append, sum_append, afterEntry]
    cases entry.isDirectory format <;> simp <;> omega
  mem_paths := by
    intro path
    simp only [afterEntry, mem_cons, h.mem_paths path, mem_append, not_mem_nil,
      or_false, or_and_right, exists_or, exists_eq_left]
    rw [or_comm]
    exact or_congr_right ⟨fun heq ↦ ⟨hkept, heq.symm⟩, fun heq ↦ heq.2.symm⟩
  portable := by
    intro other hother hotherKept
    rcases mem_append.mp hother with hother | hother
    · exact h.portable other hother hotherKept
    · exact mem_singleton.mp hother ▸ hname
  root := by
    have hnode := node_place hname.usable hplace []
    rw [append_nil] at hnode
    rw [afterEntry, hnode, if_neg fun heq ↦ hname.usable heq.2.symm, if_pos nil_prefix]
  no_link := by
    intro path toDirectory
    rw [afterEntry, node_place hname.usable hplace]
    split_ifs
    · simp
    · simp
    · exact h.no_link path toDirectory
  file_iff := by
    intro path hne
    rw [afterEntry, node_place hname.usable hplace, isFileOf_append]
    split_ifs with hfile hleading
    · simp [hkept, hfile.1, hfile.2]
    · refine iff_of_false (by simp) ?_
      rintro (⟨other, hother, hotherKept, hotherFile, rfl⟩ | ⟨-, hentryFile, heq⟩)
      · refine (hclear other hother).1 ⟨hotherKept, hkept, hotherFile, hleading, fun heq ↦ ?_⟩
        exact hnew ((h.mem_paths _).mpr ⟨other, hother, hotherKept, heq⟩)
      · exact hfile ⟨hentryFile, heq.symm⟩
    · rw [h.file_iff path hne, or_iff_left]
      rintro ⟨-, -, rfl⟩
      exact hleading prefix_rfl
  directory_iff := by
    intro path hne
    rw [afterEntry, node_place hname.usable hplace, isDirectoryOf_append]
    split_ifs with hfile hleading
    · refine iff_of_false (by simp) ?_
      rintro (⟨other, hother, hotherKept, hbelow, -⟩ | ⟨-, -, hdirectory | hdiffer⟩)
      · rw [hfile.2] at hbelow
        refine (hclear other hother).2 ⟨hkept, hotherKept, hfile.1, hbelow, fun heq ↦ ?_⟩
        exact hnew ((h.mem_paths _).mpr ⟨other, hother, hotherKept, heq.symm⟩)
      · rw [hfile.1] at hdirectory
        cases hdirectory
      · exact hdiffer hfile.2
    · refine iff_of_true rfl (.inr ⟨hkept, hleading, ?_⟩)
      by_cases hdirectory : entry.isDirectory format = true
      · exact .inl hdirectory
      · exact .inr fun heq ↦ hfile ⟨by simpa using hdirectory, heq⟩
    · rw [h.directory_iff path hne, or_iff_left]
      rintro ⟨-, habove, -⟩
      exact hleading habove

end

/-! ### The whole loop -/

/-- Entries within the limits of the loop, of the two plain types, with true sizes. -/
structure Plain (limits : NormalizationLimits) (entries : List ArchiveEntry) : Prop where
  length_le : entries.length ≤ limits.maxEntries
  size_le : ∀ entry ∈ entries, entry.declaredSize ≤ limits.maxFileBytes
  sum_le : (entries.map ArchiveEntry.declaredSize).sum ≤ limits.maxOutputBytes
  kind : ∀ entry ∈ entries, entry.entryType = .regular ∨ entry.entryType = .directory
  declaredSize_eq : ∀ entry ∈ entries, entry.declaredSize = entry.content.length

/-- Two entries with different paths, unless one is skipped. -/
def Differs (format : ArchiveFormat) (first second : ArchiveEntry) : Prop :=
  ¬ IsSkipped format first → ¬ IsSkipped format second →
    entryPath first.name ≠ entryPath second.name

/-- Neither entry is a file where the other needs a directory. -/
def Compatible (format : ArchiveFormat) (first second : ArchiveEntry) : Prop :=
  ¬ Conflicts format first second ∧ ¬ Conflicts format second first

theorem compatible_of_isSkipped {other : ArchiveEntry} (h : IsSkipped format entry) :
    Compatible format other entry :=
  ⟨fun hconflict ↦ hconflict.2.1 h, fun hconflict ↦ hconflict.1 h⟩

theorem Extracted.round_iff (h : Extracted format destination done state)
    (hkind : entry.entryType = .regular ∨ entry.entryType = .directory)
    (hentries : state.entries + 1 ≤ limits.maxEntries)
    (hsize : entry.declaredSize ≤ limits.maxFileBytes)
    (houtput : state.outputBytes + entry.declaredSize ≤ limits.maxOutputBytes)
    (htrue : entry.declaredSize = entry.content.length)
    (hdiffer : ∀ other ∈ done, Differs format other entry) :
    ((∃ made, extractEntry limits format destination state entry = .ok made) ↔
      (¬ IsSkipped format entry → HasPortableName entry.name) ∧
        ∀ other ∈ done, Compatible format other entry) ∧
    ∀ made, extractEntry limits format destination state entry = .ok made →
      Extracted format destination (done ++ [entry]) made := by
  simp only [extractEntry_eq_ok hkind hentries hsize houtput]
  by_cases hskipped : IsSkipped format entry
  · simp only [hskipped, not_true_eq_false, true_and, false_and, or_false, false_imp_iff]
    refine ⟨iff_of_true ⟨state, rfl⟩ fun other _ ↦ compatible_of_isSkipped hskipped, ?_⟩
    rintro _ rfl
    exact h.skip hskipped
  · have hnew : entryPath entry.name ∉ state.paths := by
      intro hmem
      obtain ⟨other, hother, hotherKept, heq⟩ := (h.mem_paths _).mp hmem
      exact hdiffer other hother hotherKept hskipped heq
    simp only [hskipped, not_false_eq_true, true_and, false_and, false_or, forall_const, hnew]
    constructor
    · constructor
      · rintro ⟨_, hname, tree, htree, -⟩
        exact ⟨hname, (h.place_iff hskipped hname htrue hnew).mp ⟨tree, htree⟩⟩
      · rintro ⟨hname, hclear⟩
        obtain ⟨tree, htree⟩ := (h.place_iff hskipped hname htrue hnew).mpr hclear
        exact ⟨_, hname, tree, htree, rfl⟩
    · rintro _ ⟨hname, tree, htree, rfl⟩
      have hclear := (h.place_iff hskipped hname htrue hnew).mp ⟨tree, htree⟩
      exact h.place hskipped hname hclear hnew htree

theorem Extracted.foldlM_iff {rest : List ArchiveEntry}
    (h : Extracted format destination done state) (hplain : Plain limits (done ++ rest))
    (hdiffer : (done ++ rest).Pairwise (Differs format)) :
    (∃ final, rest.foldlM (extractEntry limits format destination) state = .ok final) ↔
      (∀ entry ∈ rest, ¬ IsSkipped format entry → HasPortableName entry.name) ∧
      (∀ entry ∈ rest, ∀ other ∈ done, Compatible format other entry) ∧
      rest.Pairwise (Compatible format) := by
  induction rest generalizing done state with
  | nil => exact iff_of_true ⟨state, rfl⟩ ⟨by simp, by simp, .nil⟩
  | cons entry rest ih =>
    have hsplit : done ++ entry :: rest = done ++ [entry] ++ rest := by simp
    have hmem : entry ∈ done ++ entry :: rest := by simp
    have hentries : state.entries + 1 ≤ limits.maxEntries := by
      have hlength := hplain.length_le
      have := h.entries_le
      rw [length_append, length_cons] at hlength
      omega
    have houtput : state.outputBytes + entry.declaredSize ≤ limits.maxOutputBytes := by
      have hsum := hplain.sum_le
      have := h.outputBytes_le
      rw [map_append, map_cons, sum_append, sum_cons] at hsum
      omega
    have hbefore : ∀ other ∈ done, Differs format other entry := fun other hother ↦
      (pairwise_append.mp hdiffer).2.2 other hother entry mem_cons_self
    obtain ⟨hround, hnext⟩ := h.round_iff (hplain.kind entry hmem) hentries
      (hplain.size_le entry hmem) houtput (hplain.declaredSize_eq entry hmem) hbefore
    rw [hsplit] at hplain hdiffer
    have hrest (made : ExtractionState)
        (hmade : extractEntry limits format destination state entry = .ok made) :=
      ih (hnext made hmade) hplain hdiffer
    have hlater : (∀ later ∈ rest, ∀ other ∈ done ++ [entry], Compatible format other later) ↔
        (∀ later ∈ rest, ∀ other ∈ done, Compatible format other later) ∧
          ∀ later ∈ rest, Compatible format entry later := by
      simp only [mem_append, mem_singleton, or_imp, forall_and, forall_eq]
    simp only [foldlM_cons, bind_eq_ok, forall_mem_cons, pairwise_cons]
    constructor
    · rintro ⟨final, made, hmade, hfinal⟩
      obtain ⟨hname, hcompatible⟩ := hround.mp ⟨made, hmade⟩
      obtain ⟨hnames, hothers, hpairs⟩ := (hrest made hmade).mp ⟨final, hfinal⟩
      obtain ⟨hdone, hentry⟩ := hlater.mp hothers
      exact ⟨⟨hname, hnames⟩, ⟨hcompatible, hdone⟩, hentry, hpairs⟩
    · rintro ⟨⟨hname, hnames⟩, ⟨hcompatible, hdone⟩, hentry, hpairs⟩
      obtain ⟨made, hmade⟩ := hround.mpr ⟨hname, hcompatible⟩
      obtain ⟨final, hfinal⟩ :=
        (hrest made hmade).mpr ⟨hnames, hlater.mpr ⟨hdone, hentry⟩, hpairs⟩
      exact ⟨final, made, hmade, hfinal⟩

structure IsEmptyDirectory (tree : FileTree id) (destination : Path) : Prop where
  directory : tree.node destination = some .directory
  nothing_below : ∀ path, path ≠ [] → tree.node (destination ++ path) = none

theorem extracted_start {tree : FileTree id} (h : IsEmptyDirectory tree destination) :
    Extracted format destination [] ⟨0, 0, [], tree⟩ where
  entries_le := le_rfl
  outputBytes_le := Nat.zero_le _
  mem_paths := by simp
  portable := by simp
  root := h.directory
  no_link := by
    intro path toDirectory
    by_cases hnil : path = []
    · simp [hnil, h.directory]
    · simp [h.nothing_below path hnil]
  file_iff := by
    intro path hne
    simp [h.nothing_below path hne, IsFileOf]
  directory_iff := by
    intro path hne
    simp [h.nothing_below path hne, IsDirectoryOf]

/-- Names that are portable, and files that are nowhere used as directories. -/
def IsExtractable (format : ArchiveFormat) (entries : List ArchiveEntry) : Prop :=
  (∀ entry ∈ entries, ¬ IsSkipped format entry → HasPortableName entry.name) ∧
    ∀ file ∈ entries, ∀ other ∈ entries, ¬ Conflicts format file other

/-- **Plain entries with different paths are extracted into an empty directory exactly when they
are extractable.** -/
theorem extract_eq_ok_iff {tree : FileTree id} {entries : List ArchiveEntry}
    (hempty : IsEmptyDirectory tree destination) (hplain : Plain limits entries)
    (hdiffer : entries.Pairwise (Differs format)) :
    (∃ final, extract limits format destination tree entries = .ok final) ↔
      IsExtractable format entries := by
  rw [extract, (extracted_start hempty).foldlM_iff hplain hdiffer]
  simp only [not_mem_nil, false_imp_iff, implies_true, true_and, IsExtractable]
  refine and_congr_right fun _ ↦ ⟨fun hpairs file hfile other hother ↦ ?_, fun hclear ↦ ?_⟩
  · have : Std.Symm (Compatible format) := ⟨fun _ _ h ↦ ⟨h.2, h.1⟩⟩
    have hself : ∀ entry ∈ entries, Compatible format entry entry := fun entry _ ↦
      ⟨fun h ↦ h.2.2.2.2 rfl, fun h ↦ h.2.2.2.2 rfl⟩
    exact (hpairs.forall_of_forall hself hfile hother).1
  · exact pairwise_of_forall_mem_list fun first hfirst second hsecond ↦
      ⟨hclear first hfirst second hsecond, hclear second hsecond first hfirst⟩

theorem portable_of_extractEntry
    (h : extractEntry limits format destination state entry = .ok made)
    (hkept : ¬ IsSkipped format entry) : HasPortableName entry.name := by
  cases format with
  | zip =>
    simp only [extractEntry, extractZipEntry, bind_eq_ok, safeRelativePath_eq_ok] at h
    obtain ⟨_, ⟨hname, -⟩, -⟩ := h
    exact hname
  | tar =>
    unfold extractEntry extractTarEntry at h
    dsimp only at h
    split_ifs at h with hroot hdirectory hdirectory
    · exact absurd ⟨rfl, hdirectory, hroot⟩ hkept
    all_goals
      simp only [bind_eq_ok, safeRelativePath_eq_ok] at h
      obtain ⟨_, ⟨hname, -⟩, -⟩ := h
      exact hname

theorem portable_of_extract {tree : FileTree id} {entries : List ArchiveEntry}
    (h : extract limits format destination tree entries = .ok made) (hentry : entry ∈ entries)
    (hkept : ¬ IsSkipped format entry) : HasPortableName entry.name := by
  obtain ⟨before, after, hround⟩ := exists_of_foldlM_eq_ok h hentry
  exact portable_of_extractEntry hround hkept

end GameLauncher.Normalizer
