import GameLauncher.Foundation.Segments
import GameLauncher.Manifests.Manifest

/-!
# The validation of a manifest by the launcher, and where the two validations differ

`ManifestValidator.validate` is the launcher's own check of a manifest, run again before an
installation. It is written independently of the server's: it compares paths ignoring case, refuses
a blank path, tests control characters with a regular expression, adds chunk sizes in signed 64-bit
arithmetic while it reads the chunks, and looks at the launch profile in another order. Its
exceptions carry the launcher's messages.

`validatePortablePath_iff` compares the two path checks: on a path the server accepts, the launcher
refuses exactly the blank ones and those with the noncharacter U+FFFE, on which `string.Normalize`
throws. `validate_iff` is the result: a manifest that the server accepts is accepted by the launcher
exactly when no two of its file paths differ in letter case only and no file path or working
directory is of the two refused kinds.

Left out: the null checks on references, since every value of the server's manifest is present, and
the launch arguments and environment, of which nothing else is checked.
-/

set_option autoImplicit false

namespace GameLauncher.Manifests.ManifestValidator

open Foundation Fallible List

/-! ### The checks of the launcher -/

/-- What the launcher's validation throws: an `InvalidDataException`, or the `ArgumentException`
of `string.Normalize`. -/
inductive ValidationException
  | invalidData (message : Text)
  | argument
  deriving DecidableEq, Repr

/-- C#'s `string.Normalize(NormalizationForm.FormC)`. A text of scalar values has no lone
surrogate, so the only invalid sequence the runtime finds in it is the noncharacter U+FFFE. -/
def normalize (unicode : Unicode) (text : Text) : Except ValidationException Text := do
  throwIf (Char.ofNat 0xFFFE ∈ text) .argument
  return unicode.nfc text

/-- A nonempty text without control characters. -/
def isControlFree (text : Text) : Bool := !text.isEmpty && text.all fun c ↦ 0x1f < c.toNat

/-- The expression `^[^\u0000-\u001f]+$`, whose `$` also matches before a final line feed. -/
def portablePathRegex (text : Text) : Bool :=
  isControlFree text || (text.getLast? == some '\n' && isControlFree text.dropLast)

/-- C#'s `char.IsDigit`, on an ASCII code unit: a digit outside ASCII fails the range test that
follows it. -/
def isDigit (unit : ℕ) : Bool := 48 ≤ unit && unit ≤ 57

/-- A path part whose name up to the first dot is a Windows device. -/
def isReservedWindowsName (unicode : Unicode) (part : Text) : Bool :=
  let stem := unicode.toUpperInvariant ((part.splitOn '.').headD [])
  ["CON".toList, "PRN".toList, "AUX".toList, "NUL".toList].contains stem ||
    ((utf16 stem).length == 4 && ("COM".toList.isPrefixOf stem || "LPT".toList.isPrefixOf stem) &&
      isDigit ((utf16 stem).getD 3 0) &&
      49 ≤ (utf16 stem).getD 3 0 && (utf16 stem).getD 3 0 ≤ 57)

/-- The exception for a path of the wrong shape. -/
def invalidPath (portablePath : Text) : ValidationException :=
  .invalidData ("Invalid manifest path: " ++ portablePath)

def validatePortablePath (unicode : Unicode) (portablePath : Text) :
    Except ValidationException Unit := do
  throwIf (isNullOrWhiteSpace portablePath ∨ '\\' ∈ portablePath ∨
    portablePath.head? = some '/' ∨ "//" <+: portablePath ∨ ':' ∈ portablePath)
    (invalidPath portablePath)
  let parts := portablePath.splitOn '/'
  throwIf (∃ part ∈ parts, part = [] ∨ part = "." ∨ part = "..")
    (invalidPath portablePath)
  throwIf (∃ part ∈ parts, part.getLast? = some ' ' ∨ part.getLast? = some '.' ∨
    isReservedWindowsName unicode part)
    (.invalidData ("Invalid Windows-compatible manifest path: " ++ portablePath))
  let normalized ← normalize unicode portablePath
  throwIf (normalized ≠ portablePath)
    (.invalidData ("Manifest path is not NFC-normalized: " ++ portablePath))
  throwIf (¬ portablePathRegex portablePath) (invalidPath portablePath)

def kindName : HashField → Text
  | .file => "file"
  | .raw => "raw"
  | .encoded => "encoded"

def validateHash (value : Text) (kind : HashField) : Except ValidationException Unit :=
  throwIf (value = [] ∨ (utf16 value).length ≠ 64 ∨
    (utf16 value).any (fun unit ↦ !isHexDigit unit || isUpper unit))
    (.invalidData ("Invalid " ++ kindName kind ++ " BLAKE3 hash."))

/-- The number of nonnegative values of a signed 64-bit integer. -/
def longLimit : ℕ := 2 ^ 63

/-- Addition of nonnegative signed 64-bit integers in a `checked` context. -/
def checkedAddLong (left right : ℕ) : Option ℕ :=
  if left + right < longLimit then some (left + right) else none

/-- One round of the loop over the chunks of a file: the sum of the raw sizes and the chunks by
encoded hash go from round to round. -/
def validateChunk (path : Text) (state : ℕ × List (Text × ChunkRef)) (chunk : ChunkRef) :
    Except ValidationException (ℕ × List (Text × ChunkRef)) := do
  throwIf ((chunk.rawSize : ℤ) ≤ 0 ∨ (chunk.encodedSize : ℤ) ≤ 0)
    (.invalidData ("Impossible chunk size in " ++ path ++ "."))
  let chunkSize ← orThrow (checkedAddLong state.1 chunk.rawSize)
    (.invalidData ("Chunk sizes overflow " ++ path ++ "."))
  validateHash chunk.rawHash .raw
  validateHash chunk.encodedHash .encoded
  throwIf (chunk.objectKey ≠ chunkObjectKey chunk.encodedHash)
    (.invalidData "Chunk object key does not match encoded hash.")
  match state.2.lookup chunk.encodedHash with
  | some existing =>
    throwIf (existing ≠ chunk)
      (.invalidData ("Conflicting duplicate chunk metadata: " ++ chunk.encodedHash))
    return (chunkSize, state.2)
  | none => return (chunkSize, (chunk.encodedHash, chunk) :: state.2)

/-- One round of the loop over the files. -/
def validateFile (unicode : Unicode) (seen : Seen) (file : FileRecipe) :
    Except ValidationException Seen := do
  validatePortablePath unicode file.path
  throwIf (seen.paths.any (unicode.equalsIgnoreCase file.path))
    (.invalidData ("Duplicate manifest path: " ++ file.path))
  throwIf ((file.size : ℤ) < 0) (.invalidData ("Negative file size: " ++ file.path))
  validateHash file.blake3 .file
  let (chunkSize, chunks) ← file.chunks.foldlM (validateChunk file.path)
    (0, seen.chunksByEncodedHash)
  throwIf (file.size ≠ chunkSize)
    (.invalidData ("Chunk sizes do not match " ++ file.path ++ "."))
  return ⟨file.path :: seen.paths, chunks⟩

/-- The checks on the launch profile. -/
def validateLaunch (unicode : Unicode) (manifest : Manifest) : Except ValidationException Unit := do
  validatePortablePath unicode manifest.launch.executable
  if manifest.launch.workingDirectory ≠ "." then
    validatePortablePath unicode manifest.launch.workingDirectory
  throwIf (¬ manifest.files.any fun file ↦
      unicode.equalsIgnoreCase file.path manifest.launch.executable)
    (.invalidData "Launch executable is not owned by manifest.")

/-- `ManifestValidator.Validate`. -/
def validate (unicode : Unicode) (manifest : Manifest) : Except ValidationException Unit := do
  throwIf (manifest.schemaVersion ≠ 1) (.invalidData ("Unsupported manifest schema version "
    ++ (Nat.repr manifest.schemaVersion).toList ++ "."))
  throwIf (isNullOrWhiteSpace manifest.manifestId ∨ isNullOrWhiteSpace manifest.gameId ∨
    isNullOrWhiteSpace manifest.buildId ∨ isNullOrWhiteSpace manifest.displayVersion)
    (.invalidData "Manifest identity fields are required.")
  throwIf (manifest.chunking.algorithm ≠ "fastcdc" ∨ manifest.chunking.formatVersion ≠ 1 ∨
    (manifest.chunking.minimumBytes : ℤ) ≤ 0 ∨
    manifest.chunking.minimumBytes > manifest.chunking.averageBytes ∨
    manifest.chunking.averageBytes > manifest.chunking.maximumBytes)
    (.invalidData "Invalid FastCDC parameters.")
  throwIf (manifest.encoding.id ≠ "zstd-v1-level-3" ∨ manifest.encoding.level ≠ 3)
    (.invalidData "Unsupported chunk encoding.")
  let _ ← manifest.files.foldlM (validateFile unicode) ⟨[], []⟩
  validateLaunch unicode manifest

/-! ### Paths -/

variable {path : Text} {unicode : Unicode}

theorem isReservedWindowsName_iff_server (unicode : Unicode) (part : Text) :
    isReservedWindowsName unicode part = Manifests.isReservedWindowsName part := by
  set stem := unicode.toUpperInvariant ((part.splitOn '.').headD []) with hstem
  have hlauncher : isReservedWindowsName unicode part = true ↔ IsDeviceName stem := by
    rw [isDeviceName_iff utf16Char (fun _ hc ↦ utf16Char_of_ascii hc)
      (fun _ _ hunit hlt ↦ mem_utf16Char_lt hunit hlt) utf16Char_ne_nil]
    unfold isReservedWindowsName isDigit
    rw [← hstem]
    change _ ↔ _ ∨ (utf16 stem).length = 4 ∧ _ ∧ 49 ≤ (utf16 stem).getD 3 0 ∧
      (utf16 stem).getD 3 0 ≤ 57
    simp only [Bool.or_eq_true, Bool.and_eq_true, beq_iff_eq, isPrefixOf_iff_prefix,
      decide_eq_true_eq, contains_iff_mem, and_assoc]
    refine or_congr_right (and_congr_right fun _ ↦ and_congr_right fun _ ↦ ?_)
    omega
  rw [Bool.eq_iff_iff, hlauncher, Manifests.isReservedWindowsName_iff]
  constructor
  · intro h
    have hsame := (unicode.toUpperInvariant_eq_iff (isPlain_of_isDeviceName h)).mp hstem.symm
    exact hsame ▸ h
  · intro h
    have hsame := (unicode.toUpperInvariant_eq_iff (isPlain_of_isDeviceName h)).mpr rfl
    exact (hstem.trans hsame) ▸ h

/-- Why the launcher refuses a path that the server accepts: it is blank, or `Normalize` throws. -/
def IsRefusedPath (path : Text) : Prop := IsBlank path ∨ Char.ofNat 0xFFFE ∈ path

instance (path : Text) : Decidable (IsRefusedPath path) :=
  inferInstanceAs (Decidable (IsBlank path ∨ Char.ofNat 0xFFFE ∈ path))

/-- On the paths the server accepts, the launcher's check fails on the refused ones only. -/
theorem validatePortablePath_iff (h : IsPortablePath unicode path) :
    validatePortablePath unicode path = .ok () ↔ ¬ IsRefusedPath path := by
  have hslashes : ¬ "//" <+: path := by
    rintro ⟨rest, rfl⟩
    exact h.relative rfl
  have hdots : ¬ ∃ part ∈ path.splitOn '/', part = [] ∨ part = "." ∨ part = ".." := by
    rintro ⟨part, hpart, hcase⟩
    have hportable := h.parts part hpart
    rcases hcase with hcase | hcase | hcase
    · exact hportable.ne_nil hcase
    · exact hportable.ne_dot hcase
    · exact hportable.ne_dotdot hcase
  have hwindows : ¬ ∃ part ∈ path.splitOn '/', part.getLast? = some ' ' ∨
      part.getLast? = some '.' ∨ isReservedWindowsName unicode part = true := by
    rintro ⟨part, hpart, hcase⟩
    have hportable := h.parts part hpart
    rw [isReservedWindowsName_iff_server, hportable.not_reserved] at hcase
    rcases hcase with hcase | hcase | hcase
    · exact hportable.no_trailing_space hcase
    · exact hportable.no_trailing_dot hcase
    · exact absurd hcase (by decide)
  have hregex : portablePathRegex path = true := by
    unfold portablePathRegex isControlFree
    simp only [Bool.or_eq_true, Bool.and_eq_true, all_eq_true, decide_eq_true_eq]
    refine .inl ⟨by simpa using h.ne_nil, fun c hc ↦ ?_⟩
    by_cases hslash : c = '/'
    · rw [hslash]
      decide
    · obtain ⟨part, hpart, hc⟩ := exists_mem_splitOn hc hslash
      exact (h.parts part hpart).no_control c hc
  unfold validatePortablePath normalize IsRefusedPath
  simp only [bind_eq_ok, throwIf_eq_ok, pure_eq_ok, exists_const, not_or, not_not]
  rw [isNullOrWhiteSpace_iff]
  constructor
  · rintro ⟨⟨hblank, -⟩, -, -, _, ⟨hvalid, -⟩, -⟩
    exact ⟨hblank, hvalid⟩
  · rintro ⟨hblank, hvalid⟩
    exact ⟨⟨hblank, h.no_backslash, h.relative, hslashes, h.no_colon⟩, hdots, hwindows, _,
      ⟨hvalid, rfl⟩, h.normalized, hregex⟩

/-! ### Chunks -/

@[simp] theorem validateHash_eq_ok {value : Text} {kind : HashField} {u : Unit} :
    validateHash value kind = .ok u ↔ IsHash value := by
  unfold validateHash
  rw [throwIf_eq_ok, not_or, not_or, not_not, Bool.not_eq_true, utf16_hash_iff]
  refine and_iff_right_of_imp fun h hnil ↦ ?_
  rw [hnil] at h
  exact absurd h.1 (by decide)

@[simp] theorem checkedAddLong_eq_some {left right result : ℕ} :
    checkedAddLong left right = some result ↔ left + right < longLimit ∧ left + right = result := by
  unfold checkedAddLong
  split_ifs with h <;> simp [h]

theorem validateChunk_of_server {chunks result : List (Text × ChunkRef)} {chunk : ChunkRef}
    (hserver : Manifests.validateChunk path chunks chunk = .ok result) {total : ℕ}
    (htotal : total + chunk.rawSize < longLimit) :
    validateChunk path (total, chunks) chunk = .ok (total + chunk.rawSize, result) := by
  obtain ⟨hsound, hrecord⟩ := validateChunk_eq_ok.mp hserver
  have hraw := hsound.rawSize_pos
  have hencoded := hsound.encodedSize_pos
  unfold validateChunk
  simp only [bind_eq_ok, throwIf_eq_ok, orThrow_eq_ok, validateHash_eq_ok, checkedAddLong_eq_some,
    exists_const, not_or, not_not, not_le]
  refine ⟨⟨by omega, by omega⟩, _, ⟨htotal, rfl⟩, hsound.rawHash, hsound.encodedHash,
    hsound.objectKey, ?_⟩
  unfold recordChunk at hrecord
  cases hlookup : chunks.lookup chunk.encodedHash with
  | none =>
    rw [hlookup] at hrecord
    rw [← Option.some.inj hrecord]
    rfl
  | some existing =>
    rw [hlookup] at hrecord
    by_cases hsame : existing = chunk
    · simp only [if_pos hsame, Option.some.injEq] at hrecord
      simp only [bind_eq_ok, throwIf_eq_ok, not_not, exists_const, pure_eq_ok]
      exact ⟨hsame, by rw [hrecord]⟩
    · simp only [if_neg hsame, reduceCtorEq] at hrecord

/-- The chunk loops side by side: the launcher ends with the server's chunks and with the sum of
the raw sizes. -/
theorem validateChunks_of_server {items : List ChunkRef} {chunks result : List (Text × ChunkRef)}
    (hserver : items.foldlM (Manifests.validateChunk path) chunks = .ok result) (total : ℕ)
    (htotal : total + (items.map ChunkRef.rawSize).sum < longLimit) :
    items.foldlM (validateChunk path) (total, chunks) =
      .ok (total + (items.map ChunkRef.rawSize).sum, result) := by
  induction items generalizing chunks total with
  | nil =>
    rw [foldlM_nil, pure_eq_ok] at hserver
    rw [hserver]
    rfl
  | cons chunk rest ih =>
    rw [map_cons, sum_cons] at htotal ⊢
    rw [foldlM_cons, bind_eq_ok] at hserver
    obtain ⟨next, hnext, hrest⟩ := hserver
    rw [foldlM_cons, bind_eq_ok]
    refine ⟨_, validateChunk_of_server hnext (by omega), ?_⟩
    rw [ih hrest _ (by omega), Nat.add_assoc]

/-! ### Files -/

variable {seen : Seen}

theorem validateFile_iff {next : Seen} {file : FileRecipe}
    (hserver : Manifests.validateFile unicode seen file = .ok next) (hsize : file.size < longLimit)
    (result : Seen) :
    validateFile unicode seen file = .ok result ↔ ¬ IsRefusedPath file.path ∧
        (∀ path ∈ seen.paths, unicode.equalsIgnoreCase file.path path = false) ∧
        next = result := by
  obtain ⟨⟨hsound, -⟩, -, chunks, hchunks, rfl⟩ := validateFile_eq_ok.mp hserver
  have hloop := validateChunks_of_server hchunks 0 (by rwa [Nat.zero_add, hsound.size])
  rw [Nat.zero_add, hsound.size] at hloop
  unfold validateFile
  simp only [bind_eq_ok, throwIf_eq_ok, validateHash_eq_ok, validatePortablePath_iff hsound.path,
    hloop, Except.ok.injEq, exists_eq_left', exists_const, pure_eq_ok, any_eq_true,
    not_exists, not_and, Bool.not_eq_true, not_not, true_and]
  have hnonnegative : ¬ (file.size : ℤ) < 0 := by omega
  have hblake3 := hsound.blake3
  tauto

theorem validateFiles_iff {files : List FileRecipe} {next : Seen}
    (hserver : files.foldlM (Manifests.validateFile unicode) seen = .ok next)
    (hsizes : ∀ file ∈ files, file.size < longLimit) :
    (∃ result, files.foldlM (validateFile unicode) seen = .ok result) ↔
      (∀ file ∈ files, ¬ IsRefusedPath file.path) ∧
        (∀ file ∈ files, ∀ path ∈ seen.paths, unicode.equalsIgnoreCase file.path path = false) ∧
        files.Pairwise fun earlier later ↦
          unicode.equalsIgnoreCase later.path earlier.path = false := by
  induction files generalizing seen with
  | nil => simp
  | cons file rest ih =>
    rw [foldlM_cons, bind_eq_ok] at hserver
    obtain ⟨middle, hmiddle, hrest⟩ := hserver
    have hpaths : middle.paths = file.path :: seen.paths := by
      obtain ⟨-, -, _, -, rfl⟩ := validateFile_eq_ok.mp hmiddle
      rfl
    have hfile := validateFile_iff hmiddle (hsizes file mem_cons_self)
    have hlater := ih hrest fun other hother ↦ hsizes other (mem_cons_of_mem _ hother)
    simp only [hpaths, mem_cons, forall_eq_or_imp] at hlater
    simp only [foldlM_cons, bind_eq_ok, hfile, mem_cons, forall_eq_or_imp, pairwise_cons]
    constructor
    · rintro ⟨result, _, ⟨hpath, hdistinct, rfl⟩, hresult⟩
      obtain ⟨hpaths, hold, hpairs⟩ := hlater.mp ⟨result, hresult⟩
      exact ⟨⟨hpath, hpaths⟩, ⟨hdistinct, fun other hother ↦ (hold other hother).2⟩,
        fun other hother ↦ (hold other hother).1, hpairs⟩
    · rintro ⟨⟨hpath, hpaths⟩, ⟨hdistinct, hold⟩, hnew, hpairs⟩
      obtain ⟨result, hresult⟩ := hlater.mpr
        ⟨hpaths, fun other hother ↦ ⟨hnew other hother, hold other hother⟩, hpairs⟩
      exact ⟨result, middle, ⟨hpath, hdistinct, rfl⟩, hresult⟩

theorem paths_of_validateFiles {files : List FileRecipe} {result : Seen}
    (h : files.foldlM (validateFile unicode) seen = .ok result) :
    (∀ file ∈ files, validatePortablePath unicode file.path = .ok () ∧
      ∀ path ∈ seen.paths, unicode.equalsIgnoreCase file.path path = false) ∧
      files.Pairwise fun earlier later ↦
        unicode.equalsIgnoreCase later.path earlier.path = false := by
  induction files generalizing seen with
  | nil => exact ⟨fun _ hfile ↦ absurd hfile not_mem_nil, .nil⟩
  | cons file rest ih =>
    rw [foldlM_cons, bind_eq_ok] at h
    obtain ⟨next, hnext, hrest⟩ := h
    unfold validateFile at hnext
    simp only [bind_eq_ok, throwIf_eq_ok, exists_const, any_eq_true, not_exists, not_and,
      Bool.not_eq_true, pure_eq_ok] at hnext
    obtain ⟨_, hportable, hdistinct, -, _, -, _, -, -, rfl⟩ := hnext
    obtain ⟨hpaths, hpairs⟩ := ih hrest
    refine ⟨fun other hother ↦ ?_, pairwise_cons.mpr ⟨fun other hother ↦
      (hpaths other hother).2 file.path mem_cons_self, hpairs⟩⟩
    rcases mem_cons.mp hother with rfl | hother
    · exact ⟨hportable, hdistinct⟩
    · exact ⟨(hpaths other hother).1, fun path hpath ↦
        (hpaths other hother).2 path (mem_cons_of_mem _ hpath)⟩

theorem paths_of_validate {manifest : Manifest} (h : validate unicode manifest = .ok ()) :
    (∀ file ∈ manifest.files, validatePortablePath unicode file.path = .ok ()) ∧
      manifest.files.Pairwise fun earlier later ↦
        unicode.equalsIgnoreCase later.path earlier.path = false := by
  unfold validate at h
  simp only [bind_eq_ok, throwIf_eq_ok, exists_const] at h
  obtain ⟨-, -, -, -, seen, hfiles, -⟩ := h
  obtain ⟨hpaths, hpairs⟩ := paths_of_validateFiles hfiles
  exact ⟨fun file hfile ↦ (hpaths file hfile).1, hpairs⟩

/-! ### The two validations -/

/-- The launch profile of a manifest the server accepts passes the launcher's checks when its
executable and its working directory are not refused paths. -/
theorem validateLaunch_iff {manifest : Manifest}
    (hserver : Manifests.validateLaunch unicode manifest = .ok ()) :
    validateLaunch unicode manifest = .ok () ↔ ¬ IsRefusedPath manifest.launch.executable ∧
        (manifest.launch.workingDirectory ≠ "." →
          ¬ IsRefusedPath manifest.launch.workingDirectory) := by
  obtain ⟨hexecutable, ⟨owner, howner, hpath⟩, hdirectory⟩ := validateLaunch_eq_ok.mp hserver
  have howned : manifest.files.any (fun file ↦
      unicode.equalsIgnoreCase file.path manifest.launch.executable) = true := by
    rw [any_eq_true]
    exact ⟨owner, howner, hpath ▸ unicode.equalsIgnoreCase_self _⟩
  unfold validateLaunch
  rw [bind_eq_ok]
  simp only [howned, validatePortablePath_iff hexecutable, exists_const]
  refine and_congr_right fun _ ↦ ?_
  by_cases hdot : manifest.launch.workingDirectory = "."
  · simp [hdot]
  · have hworking := validatePortablePath_iff (hdirectory hdot)
    rw [if_pos hdot, bind_eq_ok]
    simp only [throwIf_eq_ok, not_true_eq_false, not_false_eq_true, and_true, exists_const,
      hworking, ne_eq, hdot, true_imp_iff]

/-- The paths of a manifest that the launcher installs beside each other: no two differ in letter
case only, and no file path or working directory is blank or makes `Normalize` throw. -/
structure HasLauncherPaths (unicode : Unicode) (manifest : Manifest) : Prop where
  distinct : manifest.files.Pairwise fun earlier later ↦
    unicode.equalsIgnoreCase later.path earlier.path = false
  files : ∀ file ∈ manifest.files, ¬ IsRefusedPath file.path
  workingDirectory : manifest.launch.workingDirectory ≠ "." →
    ¬ IsRefusedPath manifest.launch.workingDirectory

/-- A manifest that the server accepts and whose sizes are signed 64-bit integers is accepted by
the launcher exactly when its paths are launcher paths.

Assumes: the server's validation returns `Ok`; every size is below `2 ^ 63`. -/
theorem validate_iff (unicode : Unicode) (manifest : Manifest)
    (hserver : manifest.validate unicode = .ok ())
    (hsizes : ∀ size ∈ manifest.sizes, size < 2 ^ 63) :
    validate unicode manifest = .ok () ↔ HasLauncherPaths unicode manifest := by
  obtain ⟨hschema, hidentity, ⟨halgorithm, hversion, hminimum, haverage, hmaximum⟩, hencoding,
    ⟨seen, hfiles⟩, hlaunch⟩ := Manifest.validate_eq_ok.mp hserver
  obtain ⟨-, ⟨owner, howner, hpath⟩, -⟩ := validateLaunch_eq_ok.mp hlaunch
  have hloop := validateFiles_iff hfiles fun file hfile ↦ hsizes _ (Manifest.size_mem_sizes hfile)
  simp only [not_mem_nil, false_imp_iff, implies_true, true_and] at hloop
  unfold validate
  simp only [bind_eq_ok, throwIf_eq_ok, exists_const, not_or, not_not, isNullOrWhiteSpace_iff,
    validateLaunch_iff hlaunch]
  constructor
  · rintro ⟨-, -, -, -, result, hresult, -, hworking⟩
    obtain ⟨hpaths, hdistinct⟩ := hloop.mp ⟨result, hresult⟩
    exact ⟨hdistinct, hpaths, hworking⟩
  · intro h
    obtain ⟨result, hresult⟩ := hloop.mpr ⟨h.files, h.distinct⟩
    exact ⟨hschema, hidentity, ⟨halgorithm, hversion, by omega, by omega, by omega⟩, hencoding,
      result, hresult, hpath ▸ h.files owner howner, h.workingDirectory⟩

/-- The tables restricted to ASCII, where every text is normalized. -/
def asciiUnicode : Unicode where
  nfc := id
  upper := Char.toUpper
  upper_of_ascii := fun _ _ ↦ rfl
  upper_of_not_ascii := fun _ hc hupper ↦ absurd (toUpper_of_not_ascii hc ▸ hupper) hc

/-- A build of empty files, started by the file at the given executable path. -/
def emptyFilesManifest (paths : List Text) (executable : Text) : Manifest where
  schemaVersion := 1
  manifestId := "manifest-1"
  gameId := "game-1"
  buildId := "build-1"
  displayVersion := "1.0"
  chunking := ChunkingConfig.standard
  encoding := EncodingConfig.standard
  files := paths.map fun path ↦
    { path := path
      size := 0
      blake3 := "af1349b9f5f9a1a6a0404dea36dcc9499bcb25c9adc112b7cc9a93cae41f3262"
      chunks := [] }
  launch := { executable := executable, workingDirectory := "." }

/-- A build with two files in different directories passes both validations. -/
theorem validate_iff_twoFiles :
    validate asciiUnicode (emptyFilesManifest ["game.exe", "data/game.exe"]
      "game.exe") = .ok () :=
  (validate_iff asciiUnicode _ (by decide) (by decide)).mpr
    ⟨by decide, by decide, by decide⟩

/-- Two file paths that differ in letter case only pass the server's validation and are a
duplicate for the launcher. -/
theorem validate_refuses_case_aliases :
    (emptyFilesManifest ["game.exe", "Game.exe"] "game.exe").validate
        asciiUnicode = .ok () ∧
      (∀ size ∈ (emptyFilesManifest ["game.exe", "Game.exe"]
        "game.exe").sizes, size < 2 ^ 63) ∧
      validate asciiUnicode (emptyFilesManifest ["game.exe", "Game.exe"]
        "game.exe") =
        .error (.invalidData "Duplicate manifest path: Game.exe".toList) := by
  decide

end GameLauncher.Manifests.ManifestValidator
