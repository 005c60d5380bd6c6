import GameLauncher.Normalizer.Extraction

/-!
# The scraper's inspection of an archive

`ArtifactValidator._inspect_zip` and `_inspect_tar`, which look at the names and the declared sizes
of the entries before an artifact is handed off, and `_validate_archive_name`, which both call.
Python's readers change names: a ZIP name ends at its first null character, and the slashes at the
end of a TAR directory are dropped.

The normalizer extracts the artifact that was handed off with checks of its own.
`validated_extracted_iff` says exactly when an inspection without errors is followed by an
extraction: the names have to be portable file names without a drive, and no file may be used as a
directory.

The checksums of the entries are taken as right, and case folding is any function.
-/

set_option autoImplicit false

namespace GameLauncher.Scraper

open Foundation Fallible Normalizer List

/-! ### Names -/

/-- The parts of a `PurePosixPath`. -/
def posixParts (path : Text) : Path :=
  (if path.head? = some '/' then ["/".toList] else []) ++ pathParts path

/-- The text of a relative `PurePosixPath`. -/
def posixText (path : Text) : Text :=
  if posixParts path = [] then "." else ['/'].intercalate (posixParts path)

def validateArchiveName (value : Text) : Option Text :=
  let normalized := replaceBackslashes value
  if normalized.head? = some '/' ∨
      ∃ part ∈ posixParts normalized, part ∈ [[], ".".toList, "..".toList] then none
  else if '\x00' ∈ normalized then none
  else some (posixText normalized)

/-- The name of an entry as Python's reader returns it. -/
def memberName (format : ArchiveFormat) (entry : ArchiveEntry) : Text :=
  match format with
  | .zip => entry.name.takeWhile fun c ↦ c ≠ '\x00'
  | .tar =>
    if entry.entryType = .directory then entry.name.rdropWhile fun c ↦ c = '/' else entry.name

/-! ### The inspections -/

/-- The limits that an inspection reads. -/
structure ValidationLimits where
  maxArchiveEntries : ℕ
  maxArchiveBytes : ℕ
  maxArchiveFileBytes : ℕ

def ValidationLimits.default : ValidationLimits where
  maxArchiveEntries := 2000000
  maxArchiveBytes := 4 * 1024 ^ 4
  maxArchiveFileBytes := 512 * 1024 ^ 3

inductive InspectionError
  | tooManyEntries
  | unsafePath (name : Text)
  | duplicatePath (name : Text)
  | memberExceedsLimit (name : Text)
  | expandedSizeExceedsLimit
  | symbolicLink (name : Text)
  | unsupportedEntry (name : Text)
  deriving DecidableEq, Repr

/-- The variables of an inspection. -/
structure Inspection where
  errors : List InspectionError
  names : List Text
  total : ℕ
  entries : ℕ
  deriving DecidableEq, Repr

/-- `errors.append`. -/
def Inspection.report (inspection : Inspection) (error : InspectionError) : Inspection :=
  { inspection with errors := inspection.errors ++ [error] }

variable (casefold : Text → Text) (limits : ValidationLimits)

section

variable (inspection : Inspection)

def Inspection.checkName (filename : Text) : Inspection :=
  match validateArchiveName filename with
  | none => inspection.report (.unsafePath filename)
  | some normalized =>
    if casefold normalized ∈ inspection.names then inspection.report (.duplicatePath filename)
    else { inspection with names := casefold normalized :: inspection.names }

def Inspection.reportIf (condition : Prop) [Decidable condition]
    (error : InspectionError) : Inspection :=
  if condition then inspection.report error else inspection

def Inspection.addSize (size : ℕ) : Inspection :=
  { inspection with total := inspection.total + size }

/-- One round of the loop of `_inspect_zip`, and whether the loop goes on. -/
def inspectZipMember (entry : ArchiveEntry) : Inspection × Bool :=
  let filename := memberName .zip entry
  let inspection := { inspection with entries := inspection.entries + 1 }
  if inspection.entries > limits.maxArchiveEntries then (inspection.report .tooManyEntries, false)
  else
    let inspection := inspection.checkName casefold filename
    let inspection := inspection.reportIf (entry.declaredSize > limits.maxArchiveFileBytes)
      (.memberExceedsLimit filename)
    let inspection := inspection.addSize entry.declaredSize
    if inspection.total > limits.maxArchiveBytes then
      (inspection.report .expandedSizeExceedsLimit, false)
    else
      (inspection.reportIf (entry.entryType = .symbolicLink) (.symbolicLink filename), true)

/-- One round of the loop of `_inspect_tar`, and whether the loop goes on. -/
def inspectTarMember (entry : ArchiveEntry) : Inspection × Bool :=
  let name := memberName .tar entry
  let inspection := { inspection with entries := inspection.entries + 1 }
  if inspection.entries > limits.maxArchiveEntries then (inspection.report .tooManyEntries, false)
  else
    let inspection := inspection.checkName casefold name
    let inspection := inspection.reportIf (entry.entryType = .symbolicLink ∨
      entry.entryType = .hardLink ∨ entry.entryType = .special) (.unsupportedEntry name)
    let inspection := inspection.reportIf (entry.declaredSize > limits.maxArchiveFileBytes)
      (.memberExceedsLimit name)
    let inspection := inspection.addSize entry.declaredSize
    if inspection.total > limits.maxArchiveBytes then
      (inspection.report .expandedSizeExceedsLimit, false)
    else (inspection, true)

end

/-- One round of either loop. -/
def inspectMember (format : ArchiveFormat) (inspection : Inspection) (entry : ArchiveEntry) :
    Inspection × Bool :=
  match format with
  | .zip => inspectZipMember casefold limits inspection entry
  | .tar => inspectTarMember casefold limits inspection entry

/-- The loop, with its breaks. -/
def inspectMembers (format : ArchiveFormat) : Inspection → List ArchiveEntry → Inspection
  | inspection, [] => inspection
  | inspection, entry :: rest =>
    match inspectMember casefold limits format inspection entry with
    | (inspection, true) => inspectMembers format inspection rest
    | (inspection, false) => inspection

/-- `_inspect_zip` or `_inspect_tar`. -/
def inspect (format : ArchiveFormat) (entries : List ArchiveEntry) : Inspection :=
  inspectMembers casefold limits format ⟨[], [], 0, 0⟩ entries

/-! ### What an inspection without errors has seen -/

variable {casefold limits} {format : ArchiveFormat} {entry : ArchiveEntry}
  {inspection next : Inspection}

/-- The name of an entry is accepted, and its folded text is the given one. -/
def AcceptsAs (casefold : Text → Text) (format : ArchiveFormat) (entry : ArchiveEntry)
    (folded : Text) : Prop :=
  ∃ normalized, validateArchiveName (memberName format entry) = some normalized ∧
    casefold normalized = folded

theorem AcceptsAs.unique {first second : Text} (hfirst : AcceptsAs casefold format entry first)
    (hsecond : AcceptsAs casefold format entry second) : first = second := by
  obtain ⟨normalized, hname, rfl⟩ := hfirst
  obtain ⟨other, hother, rfl⟩ := hsecond
  rw [Option.some.inj (hname.symm.trans hother)]

theorem errors_of_reportIf {condition : Prop} [Decidable condition] {error : InspectionError}
    (h : (inspection.reportIf condition error).errors = []) :
    inspection.reportIf condition error = inspection := by
  unfold Inspection.reportIf at h ⊢
  split_ifs at h ⊢ with hcondition
  · simp [Inspection.report] at h
  · rfl

theorem errors_of_checkName {filename : Text}
    (h : (inspection.checkName casefold filename).errors = []) :
    inspection.errors = [] ∧ ∃ normalized, validateArchiveName filename = some normalized ∧
      casefold normalized ∉ inspection.names ∧
      (inspection.checkName casefold filename).names = casefold normalized :: inspection.names := by
  unfold Inspection.checkName at h ⊢
  cases hname : validateArchiveName filename with
  | none => simp [hname, Inspection.report] at h
  | some normalized =>
    simp only [hname] at h ⊢
    split_ifs at h ⊢ with hmem
    · simp [Inspection.report] at h
    · exact ⟨h, normalized, rfl, hmem, rfl⟩

theorem errors_of_report {error : InspectionError} : (inspection.report error).errors ≠ [] := by
  simp [Inspection.report]

theorem errors_of_inspectMember
    (h : (inspectMember casefold limits format inspection entry).1.errors = []) :
    (inspectMember casefold limits format inspection entry).2 = true ∧ inspection.errors = [] ∧
      ∃ folded, AcceptsAs casefold format entry folded ∧ folded ∉ inspection.names ∧
        (inspectMember casefold limits format inspection entry).1.names =
          folded :: inspection.names := by
  cases format with
  | zip =>
    unfold inspectMember inspectZipMember at h ⊢
    dsimp only at h ⊢
    split_ifs at h ⊢ with hmany htotal
    · exact absurd h errors_of_report
    · exact absurd h errors_of_report
    · have hlink := errors_of_reportIf h
      rw [hlink] at h ⊢
      have hsize := errors_of_reportIf (show (Inspection.reportIf _ _ _).errors = [] from h)
      rw [hsize] at h ⊢
      obtain ⟨herrors, normalized, hname, hnew, hnames⟩ := errors_of_checkName h
      exact ⟨rfl, herrors, casefold normalized, ⟨normalized, hname, rfl⟩, hnew, hnames⟩
  | tar =>
    unfold inspectMember inspectTarMember at h ⊢
    dsimp only at h ⊢
    split_ifs at h ⊢ with hmany htotal
    · exact absurd h errors_of_report
    · exact absurd h errors_of_report
    · have hsize := errors_of_reportIf (show (Inspection.reportIf _ _ _).errors = [] from h)
      rw [hsize] at h ⊢
      have hlink := errors_of_reportIf (show (Inspection.reportIf _ _ _).errors = [] from h)
      rw [hlink] at h ⊢
      obtain ⟨herrors, normalized, hname, hnew, hnames⟩ := errors_of_checkName h
      exact ⟨rfl, herrors, casefold normalized, ⟨normalized, hname, rfl⟩, hnew, hnames⟩

theorem errors_of_inspectMembers {entries : List ArchiveEntry}
    (h : (inspectMembers casefold limits format inspection entries).errors = []) :
    inspection.errors = [] ∧ (∀ entry ∈ entries, ∃ folded, AcceptsAs casefold format entry folded ∧
        folded ∉ inspection.names) ∧
      entries.Pairwise fun first second ↦ ∀ folded, AcceptsAs casefold format first folded →
        ¬ AcceptsAs casefold format second folded := by
  induction entries generalizing inspection with
  | nil => exact ⟨h, by simp, .nil⟩
  | cons entry rest ih =>
    rw [inspectMembers] at h
    have hmember : (inspectMember casefold limits format inspection entry).1.errors = [] → _ :=
      errors_of_inspectMember
    cases hround : inspectMember casefold limits format inspection entry with
    | mk next goesOn =>
      rw [hround] at h hmember
      cases goesOn with
      | false => exact absurd (hmember h).1 Bool.false_ne_true
      | true =>
        obtain ⟨hnext, hrest, hpairs⟩ := ih h
        obtain ⟨-, herrors, folded, haccepts, hnew, hnames⟩ := hmember hnext
        rw [hnames] at hrest
        refine ⟨herrors, ?_, pairwise_cons.mpr ⟨?_, hpairs⟩⟩
        · intro other hother
          rcases mem_cons.mp hother with rfl | hother
          · exact ⟨folded, haccepts, hnew⟩
          · obtain ⟨otherFolded, hother, hotherNew⟩ := hrest other hother
            exact ⟨otherFolded, hother, fun hmem ↦ hotherNew (mem_cons_of_mem _ hmem)⟩
        · intro other hother first hfirst hsecond
          obtain ⟨otherFolded, hotherAccepts, hotherNew⟩ := hrest other hother
          have hfirstEq := AcceptsAs.unique hfirst haccepts
          have hotherEq := AcceptsAs.unique hsecond hotherAccepts
          rw [← hotherEq, hfirstEq] at hotherNew
          exact hotherNew mem_cons_self

/-! ### Names that both sides accept -/

theorem pathParts_append_slash (path : Text) : pathParts (path ++ ['/']) = pathParts path := by
  unfold pathParts
  have hsplit : (path ++ ['/']).splitOn '/' = path.splitOn '/' ++ [[]] := by
    rw [splitOn_eq_splitOnP, splitOn_eq_splitOnP]
    exact splitOnP_append_cons path [] rfl
  rw [hsplit]
  simp

theorem entryPath_rdropWhile (name : Text) :
    entryPath (name.rdropWhile fun c ↦ c = '/') = entryPath name := by
  induction name using List.reverseRecOn with
  | nil => rfl
  | append_singleton rest c ih =>
    by_cases hslash : c = '/'
    · have happend : replaceBackslashes (rest ++ ['/']) = replaceBackslashes rest ++ ['/'] :=
        map_append
      rw [rdropWhile_concat_pos _ _ _ (by simpa using hslash), ih, hslash, entryPath,
        entryPath, happend, pathParts_append_slash]
    · rw [rdropWhile_concat_neg _ _ _ (by simpa using hslash)]

theorem entryPath_memberName (h : '\x00' ∉ entry.name) :
    entryPath (memberName format entry) = entryPath entry.name := by
  cases format with
  | zip =>
    rw [memberName, takeWhile_eq_self_iff.mpr]
    intro c hc
    have hne : c ≠ '\x00' := fun heq ↦ h (heq ▸ hc)
    exact decide_eq_true hne
  | tar =>
    rw [memberName]
    split_ifs
    · exact entryPath_rdropWhile entry.name
    · rfl

theorem relative_of_acceptsAs {folded : Text} (h : AcceptsAs casefold format entry folded)
    (hnull : '\x00' ∉ entry.name) (husable : entryPath entry.name ≠ []) :
    (replaceBackslashes entry.name).head? ≠ some '/' := by
  have hinitial : memberName format entry <+: entry.name := by
    cases format with
    | zip => exact takeWhile_prefix _
    | tar =>
      rw [memberName]
      split_ifs
      · exact rdropWhile_prefix _ _
      · exact prefix_rfl
  have hne : memberName format entry ≠ [] := by
    intro hnil
    rw [← entryPath_memberName hnull, hnil] at husable
    exact husable rfl
  obtain ⟨rest, hrest⟩ := hinitial
  obtain ⟨c, others, hname⟩ := exists_cons_of_ne_nil hne
  obtain ⟨normalized, hvalid, -⟩ := h
  intro hslash
  have hhead : (replaceBackslashes (memberName format entry)).head? = some '/' := by
    rw [← hrest, hname] at hslash
    rw [hname]
    exact hslash
  rw [validateArchiveName, if_pos (.inl hhead)] at hvalid
  cases hvalid

theorem acceptsAs_congr {first second : ArchiveEntry} {folded : Text}
    (hpath : entryPath (memberName format first) = entryPath (memberName format second))
    (hfirst : AcceptsAs casefold format first folded) {other : Text}
    (hsecond : AcceptsAs casefold format second other) : other = folded := by
  obtain ⟨normalized, hvalid, rfl⟩ := hfirst
  obtain ⟨otherNormalized, hother, rfl⟩ := hsecond
  have htext {value normalized : Text} (h : validateArchiveName value = some normalized) :
      normalized = if entryPath value = [] then ".".toList
        else ['/'].intercalate (entryPath value) := by
    unfold validateArchiveName at h
    dsimp only at h
    split_ifs at h with hunsafe hnull
    rw [not_or] at hunsafe
    rw [← Option.some.inj h, posixText, posixParts, if_neg hunsafe.1]
    rfl
  rw [htext hvalid, htext hother, hpath]

/-! ### Inspection and extraction -/

/-- The exact condition under which what passes the inspection is extracted: the names are portable
file names without a drive and without a null character, and no file is used as a directory. -/
structure IsPortableArchive (format : ArchiveFormat) (entries : List ArchiveEntry) : Prop where
  no_null : ∀ entry ∈ entries, ¬ IsSkipped format entry → '\x00' ∉ entry.name
  no_drive : ∀ entry ∈ entries, ¬ IsSkipped format entry →
    ¬ NamesDrive (replaceBackslashes entry.name)
  usable : ∀ entry ∈ entries, ¬ IsSkipped format entry → entryPath entry.name ≠ []
  portable : ∀ entry ∈ entries, ¬ IsSkipped format entry → ∀ part ∈ entryPath entry.name,
    IsPortableFileName part
  no_conflict : ∀ file ∈ entries, ∀ other ∈ entries, ¬ Conflicts format file other

/-- Entries that pass the inspection have different paths. -/
theorem differs_of_errors {entries : List ArchiveEntry}
    (h : (inspect casefold limits format entries).errors = [])
    (hnull : ∀ entry ∈ entries, ¬ IsSkipped format entry → '\x00' ∉ entry.name) :
    entries.Pairwise (Differs format) := by
  obtain ⟨-, haccepts, hpairs⟩ := errors_of_inspectMembers h
  refine hpairs.imp_of_mem fun {first second} hfirst hsecond hpair hfirstKept hsecondKept heq ↦ ?_
  obtain ⟨folded, hfolded, -⟩ := haccepts first hfirst
  obtain ⟨other, hother, -⟩ := haccepts second hsecond
  have hpath : entryPath (memberName format first) = entryPath (memberName format second) := by
    rw [entryPath_memberName (hnull first hfirst hfirstKept),
      entryPath_memberName (hnull second hsecond hsecondKept), heq]
  rw [acceptsAs_congr hpath hfolded hother] at hother
  exact hpair folded hfolded hother

/-- **What passes the inspection is extracted exactly when the archive is portable.** -/
theorem validated_extracted_iff (casefold : Text → Text) (validationLimits : ValidationLimits)
    (limits : NormalizationLimits) (format : ArchiveFormat) (destination : Path)
    (tree : FileTree id) (entries : List ArchiveEntry)
    (hempty : IsEmptyDirectory tree destination) (hplain : Plain limits entries) :
    ((inspect casefold validationLimits format entries).errors = [] →
        ∃ final, extract limits format destination tree entries = .ok final) ↔
      ((inspect casefold validationLimits format entries).errors = [] →
        IsPortableArchive format entries) := by
  refine imp_congr_right fun herrors ↦ ?_
  constructor
  · rintro ⟨final, hfinal⟩
    have hname (entry : ArchiveEntry) (hentry : entry ∈ entries)
        (hkept : ¬ IsSkipped format entry) : HasPortableName entry.name :=
      portable_of_extract hfinal hentry hkept
    have hnull (entry : ArchiveEntry) (hentry : entry ∈ entries)
        (hkept : ¬ IsSkipped format entry) := (hname entry hentry hkept).no_null
    obtain ⟨-, hclear⟩ := (extract_eq_ok_iff hempty hplain
      (differs_of_errors herrors hnull)).mp ⟨final, hfinal⟩
    exact ⟨hnull, fun entry hentry hkept ↦ (hname entry hentry hkept).no_drive,
      fun entry hentry hkept ↦ (hname entry hentry hkept).usable,
      fun entry hentry hkept ↦ (hname entry hentry hkept).portable, hclear⟩
  · intro h
    obtain ⟨-, haccepts, -⟩ := errors_of_inspectMembers herrors
    refine (extract_eq_ok_iff hempty hplain (differs_of_errors herrors h.no_null)).mpr
      ⟨fun entry hentry hkept ↦ ?_, h.no_conflict⟩
    obtain ⟨folded, hfolded, -⟩ := haccepts entry hentry
    have hnull := h.no_null entry hentry hkept
    have husable := h.usable entry hentry hkept
    exact ⟨hnull, relative_of_acceptsAs hfolded hnull husable, h.no_drive entry hentry hkept,
      husable, h.portable entry hentry hkept⟩

/-! ### Two archives -/

/-- A regular file that holds nothing. -/
def emptyFile (name : Text) : ArchiveEntry where
  name := name
  entryType := .regular
  declaredSize := 0
  content := []

def defaultLimits : NormalizationLimits where
  maxEntries := 2000000
  maxFileBytes := 512 * 1024 ^ 3
  maxOutputBytes := 4 * 1024 ^ 4
  maxEntries_lt := by decide
  maxOutputBytes_lt := by decide

/-- The directory in which an extraction starts. -/
def emptyRoot : FileTree id := .emptyRoot

theorem isEmptyDirectory_emptyRoot : IsEmptyDirectory emptyRoot [] where
  directory := by decide
  nothing_below := by
    intro path hne
    simp [emptyRoot, FileTree.emptyRoot, FileTree.ofEntries, FileTree.node, findNode, Ne.symm hne]

theorem plain_emptyFiles (names : List Text) (h : names.length ≤ 2000000) :
    Plain defaultLimits (names.map emptyFile) where
  length_le := by simpa [defaultLimits] using h
  size_le := by simp [emptyFile]
  sum_le := by
    have hsizes : (names.map emptyFile).map ArchiveEntry.declaredSize =
        List.replicate names.length 0 := by
      simp [emptyFile, Function.comp_def]
    simp [hsizes]
  kind := by simp [emptyFile]
  declaredSize_eq := by simp [emptyFile]

/-- A ZIP of two files passes the inspection and is portable, and so it is extracted. -/
theorem validated_extracted_iff_twoFiles :
    (inspect (List.map Char.toLower) .default .zip
        (["game.exe".toList, "data/level.bin".toList].map emptyFile)).errors = [] ∧
      (((inspect (List.map Char.toLower) .default .zip
            (["game.exe".toList, "data/level.bin".toList].map emptyFile)).errors = [] →
          ∃ final, extract defaultLimits .zip [] emptyRoot
            (["game.exe".toList, "data/level.bin".toList].map emptyFile) = .ok final) ↔
        ((inspect (List.map Char.toLower) .default .zip
            (["game.exe".toList, "data/level.bin".toList].map emptyFile)).errors = [] →
          IsPortableArchive .zip
            (["game.exe".toList, "data/level.bin".toList].map emptyFile))) :=
  ⟨by decide, validated_extracted_iff _ _ _ _ _ _ _ isEmptyDirectory_emptyRoot
    (plain_emptyFiles _ (by decide))⟩

/-- A file with the name of a device, and a file beside a directory of its name, pass the
inspection and are refused by the normalizer. -/
theorem validated_not_extracted :
    ((inspect (List.map Char.toLower) .default .zip [emptyFile "aux.txt".toList]).errors = [] ∧
      ¬ ∃ final, extract defaultLimits .zip [] emptyRoot [emptyFile "aux.txt".toList] = .ok final) ∧
    (inspect (List.map Char.toLower) .default .tar
      (["data".toList, "data/level.bin".toList].map emptyFile)).errors = [] ∧
    ¬ ∃ final, extract defaultLimits .tar [] emptyRoot
      (["data".toList, "data/level.bin".toList].map emptyFile) = .ok final := by
  have hreserved : (extract defaultLimits .zip [] emptyRoot
      [emptyFile "aux.txt".toList]).toOption.isSome = false := by decide
  have hconflict : (extract defaultLimits .tar [] emptyRoot
      (["data".toList, "data/level.bin".toList].map emptyFile)).toOption.isSome = false := by
    decide
  refine ⟨⟨by decide, ?_⟩, by decide, ?_⟩
  · rintro ⟨final, hfinal⟩
    rw [hfinal] at hreserved
    exact absurd hreserved (by simp [Except.toOption])
  · rintro ⟨final, hfinal⟩
    rw [hfinal] at hconflict
    exact absurd hconflict (by simp [Except.toOption])

end GameLauncher.Scraper
