import GameLauncher.Foundation.Unicode

/-!
# The manifest and its validation by the server

A manifest lists the files of a build, each as a recipe of content-addressed chunks, with the
chunking and encoding parameters and the launch profile. `Manifest.validate` is the check the server
makes before it publishes a build, with its errors in the order the server tests them;
`normalizeManifestPath` is the check of one portable path.

`normalizeManifestPath_eq_ok` describes the accepted paths: every accepted path is returned
unchanged, since the joined parts of a split path are the path.

Left out: the generation time, the launch arguments and the launch environment, which no check of
the server reads.
-/

set_option autoImplicit false

namespace GameLauncher.Manifests

open Foundation Fallible List

/-! ### The record -/

/-- One chunk of a file recipe. -/
structure ChunkRef where
  rawHash : Text
  rawSize : ℕ
  encodedHash : Text
  encodedSize : ℕ
  objectKey : Text
  deriving DecidableEq, Repr

structure FileRecipe where
  path : Text
  size : ℕ
  blake3 : Text
  chunks : List ChunkRef
  deriving DecidableEq, Repr

/-- The content-defined chunking parameters. -/
structure ChunkingConfig where
  algorithm : Text
  formatVersion : ℕ
  minimumBytes : ℕ
  averageBytes : ℕ
  maximumBytes : ℕ
  deriving DecidableEq, Repr

/-- The default chunking parameters: chunks of one to sixteen mebibytes. -/
def ChunkingConfig.standard : ChunkingConfig where
  algorithm := "fastcdc"
  formatVersion := 1
  minimumBytes := 1024 * 1024
  averageBytes := 4 * 1024 * 1024
  maximumBytes := 16 * 1024 * 1024

structure EncodingConfig where
  id : Text
  level : ℤ
  deriving DecidableEq, Repr

/-- The default chunk encoding. -/
def EncodingConfig.standard : EncodingConfig where
  id := "zstd-v1-level-3"
  level := 3

/-- How the launcher starts the installed build. -/
structure LaunchProfile where
  executable : Text
  workingDirectory : Text
  deriving DecidableEq, Repr

structure Manifest where
  schemaVersion : ℕ
  manifestId : Text
  gameId : Text
  buildId : Text
  displayVersion : Text
  chunking : ChunkingConfig
  encoding : EncodingConfig
  files : List FileRecipe
  launch : LaunchProfile
  deriving DecidableEq, Repr

def Manifest.sizes (manifest : Manifest) : List ℕ :=
  [manifest.chunking.minimumBytes, manifest.chunking.averageBytes,
    manifest.chunking.maximumBytes] ++
  manifest.files.flatMap fun file ↦
    file.size :: file.chunks.flatMap fun chunk ↦ [chunk.rawSize, chunk.encodedSize]

variable {manifest : Manifest}

theorem Manifest.size_mem_sizes {file : FileRecipe} (h : file ∈ manifest.files) :
    file.size ∈ manifest.sizes :=
  mem_append_right _ (mem_flatMap.mpr ⟨file, h, mem_cons_self⟩)

def chunkObjectKey (encodedHash : Text) : Text :=
  "chunks/encoded/" ++ encodedHash ++ ".bin"

inductive HashField
  | file
  | raw
  | encoded
  deriving DecidableEq, Repr

/-- What a validation has seen so far: the file paths, and the chunks by encoded hash. -/
structure Seen where
  paths : List Text
  chunksByEncodedHash : List (Text × ChunkRef)

/-! ### The checks of the server -/

/-- The errors of `Manifest::validate`. -/
inductive ManifestValidationError
  | schemaVersion (version : ℕ)
  | chunking (description : Text)
  | encoding
  | identity
  | path (path : Text)
  | duplicatePath (path : Text)
  | hash (field : HashField) (value : Text)
  | fileSize (path : Text)
  | chunkSize (path : Text)
  | conflictingChunk (hash : Text)
  | launchExecutable
  | launchWorkingDirectory
  deriving DecidableEq, Repr

/-- The schema version the server writes and accepts. -/
def manifestSchemaVersion : ℕ := 1

/-- A path part whose name up to the first dot is a Windows device. -/
def isReservedWindowsName (part : Text) : Bool :=
  let stem := toAsciiUppercase ((part.splitOn '.').headD [])
  ["CON".toList, "PRN".toList, "AUX".toList, "NUL".toList].contains stem ||
    ((utf8 stem).length == 4 && ("COM".toList.isPrefixOf stem || "LPT".toList.isPrefixOf stem) &&
      (48 ≤ ((utf8 stem).getD 3 0).toNat && ((utf8 stem).getD 3 0).toNat ≤ 57) &&
      49 ≤ ((utf8 stem).getD 3 0).toNat && ((utf8 stem).getD 3 0).toNat ≤ 57)

def normalizePart (path part : Text) : Except ManifestValidationError Text := do
  throwIf (part = [] ∨ part = "." ∨ part = "..") (.path path)
  throwIf (part.any (fun c ↦ c.toNat ≤ 0x1f) ∨ part.getLast? = some ' ' ∨
    part.getLast? = some '.' ∨ isReservedWindowsName part) (.path path)
  return part

def normalizeManifestPath (unicode : Unicode) (path : Text) :
    Except ManifestValidationError Text := do
  throwIf (path = [] ∨ '\\' ∈ path ∨ path.head? = some '/' ∨ ':' ∈ path) (.path path)
  throwIf (unicode.nfc path ≠ path) (.path path)
  let parts ← (path.splitOn '/').mapM (normalizePart path)
  return ['/'].intercalate parts

def validateHash (field : HashField) (value : Text) : Except ManifestValidationError Unit :=
  throwIf ((utf8 value).length ≠ 64 ∨
    ¬ (utf8 value).all (fun byte ↦ isAsciiHexdigit byte && !isAsciiUppercase byte))
    (.hash field value)

/-- One round of the loop over the chunks of a file. -/
def validateChunk (path : Text) (chunks : List (Text × ChunkRef)) (chunk : ChunkRef) :
    Except ManifestValidationError (List (Text × ChunkRef)) := do
  throwIf (chunk.rawSize = 0 ∨ chunk.encodedSize = 0) (.chunkSize path)
  validateHash .raw chunk.rawHash
  validateHash .encoded chunk.encodedHash
  throwIf (chunk.objectKey ≠ chunkObjectKey chunk.encodedHash) (.path chunk.objectKey)
  match chunks.lookup chunk.encodedHash with
  | some existing =>
    throwIf (existing ≠ chunk) (.conflictingChunk chunk.encodedHash)
    return chunks
  | none => return (chunk.encodedHash, chunk) :: chunks

/-- The sum of the raw sizes of a recipe, absent on overflow. -/
def sumRawSizes (chunks : List ChunkRef) : Option ℕ :=
  chunks.foldlM (fun total chunk ↦ checkedAdd total chunk.rawSize) 0

/-- One round of the loop over the files. -/
def validateFile (unicode : Unicode) (seen : Seen) (file : FileRecipe) :
    Except ManifestValidationError Seen := do
  let normalized ← normalizeManifestPath unicode file.path
  throwIf (normalized ≠ file.path) (.path file.path)
  throwIf (file.path ∈ seen.paths) (.duplicatePath file.path)
  validateHash .file file.blake3
  let chunkSize ← orThrow (sumRawSizes file.chunks) (.fileSize file.path)
  throwIf (chunkSize ≠ file.size) (.fileSize file.path)
  let chunks ← file.chunks.foldlM (validateChunk file.path) seen.chunksByEncodedHash
  return ⟨file.path :: seen.paths, chunks⟩

/-- The checks on the launch profile. -/
def validateLaunch (unicode : Unicode) (manifest : Manifest) :
    Except ManifestValidationError Unit := do
  let executable ← (normalizeManifestPath unicode manifest.launch.executable).mapError
    fun _ ↦ .launchExecutable
  throwIf (executable ≠ manifest.launch.executable) .launchExecutable
  throwIf (¬ manifest.files.any fun file ↦ file.path == executable) .launchExecutable
  if manifest.launch.workingDirectory ≠ "." then
    let workingDirectory ← (normalizeManifestPath unicode manifest.launch.workingDirectory).mapError
      fun _ ↦ .launchWorkingDirectory
    throwIf (workingDirectory ≠ manifest.launch.workingDirectory) .launchWorkingDirectory

/-- The text of an invalid chunking configuration. -/
def ChunkingConfig.describe (config : ChunkingConfig) : Text :=
  config.algorithm ++ ':' :: (Nat.repr config.minimumBytes).toList ++
    ':' :: (Nat.repr config.averageBytes).toList ++ ':' :: (Nat.repr config.maximumBytes).toList

/-- `Manifest::validate`. -/
def Manifest.validate (unicode : Unicode) (manifest : Manifest) :
    Except ManifestValidationError Unit := do
  throwIf (manifest.schemaVersion ≠ manifestSchemaVersion) (.schemaVersion manifest.schemaVersion)
  throwIf (trim manifest.manifestId = [] ∨ trim manifest.gameId = [] ∨
    trim manifest.buildId = [] ∨ trim manifest.displayVersion = []) .identity
  throwIf (manifest.chunking.algorithm ≠ "fastcdc" ∨ manifest.chunking.formatVersion ≠ 1 ∨
    manifest.chunking.minimumBytes = 0 ∨
    manifest.chunking.minimumBytes > manifest.chunking.averageBytes ∨
    manifest.chunking.averageBytes > manifest.chunking.maximumBytes)
    (.chunking manifest.chunking.describe)
  throwIf (manifest.encoding.id ≠ "zstd-v1-level-3" ∨ manifest.encoding.level ≠ 3) .encoding
  let _ ← manifest.files.foldlM (validateFile unicode) ⟨[], []⟩
  validateLaunch unicode manifest

/-! ### What the server accepts -/

variable {path : Text} {unicode : Unicode}

/-- The device names, in upper case. -/
def IsDeviceName (word : Text) : Prop :=
  word ∈ ["CON".toList, "PRN".toList, "AUX".toList, "NUL".toList] ∨
    ∃ digit : Char, 49 ≤ digit.toNat ∧ digit.toNat ≤ 57 ∧
      (word = "COM" ++ [digit] ∨ word = "LPT" ++ [digit])

theorem isPlain_of_isDeviceName {word : Text} (h : IsDeviceName word) : ∀ c ∈ word, IsPlain c := by
  have hfixed (name : Text) (hname : name ∈ ["CON".toList, "PRN".toList, "AUX".toList,
      "NUL".toList, "COM".toList, "LPT".toList]) : ∀ c ∈ name, IsPlain c := by
    simp only [mem_cons, not_mem_nil, or_false] at hname
    rcases hname with rfl | rfl | rfl | rfl | rfl | rfl <;> exact forall_mem_of_all (by decide)
  have hdigit (digit : Char) (hlow : 49 ≤ digit.toNat) (hhigh : digit.toNat ≤ 57) :
      IsPlain digit := by
    refine ⟨lt_of_le_of_lt hhigh (by decide), ?_, ?_⟩ <;>
    · rintro rfl
      exact absurd hhigh (by decide)
  rcases h with h | ⟨digit, hlow, hhigh, rfl | rfl⟩
  · exact hfixed word (mem_append_left ["COM".toList, "LPT".toList] h)
  · intro c hc
    rcases mem_append.mp hc with hc | hc
    · exact hfixed _ (by simp) c hc
    · rw [mem_singleton.mp hc]
      exact hdigit digit hlow hhigh
  · intro c hc
    rcases mem_append.mp hc with hc | hc
    · exact hfixed _ (by simp) c hc
    · rw [mem_singleton.mp hc]
      exact hdigit digit hlow hhigh

section

variable (unitsOf : Char → List ℕ) (hascii : ∀ c, IsAscii c → unitsOf c = [c.toNat])
  (hunit : ∀ c, ∀ unit ∈ unitsOf c, unit < 0x80 → IsAscii c) (hunits : ∀ c, unitsOf c ≠ [])

include unitsOf hascii hunit hunits

/-- Four units that start with a fixed ASCII word of three and end in a nonzero digit spell the
word and the digit, in any encoding that keeps ASCII. -/
theorem encoded_device_iff (word stem : Text) (hword : ∀ c ∈ word, IsAscii c)
    (hlength : word.length = 3) :
    ((stem.flatMap unitsOf).length = 4 ∧ word <+: stem ∧
      49 ≤ (stem.flatMap unitsOf).getD 3 0 ∧ (stem.flatMap unitsOf).getD 3 0 ≤ 57) ↔
      ∃ digit : Char, 49 ≤ digit.toNat ∧ digit.toNat ≤ 57 ∧ stem = word ++ [digit] := by
  have hwordUnits : word.flatMap unitsOf = word.map Char.toNat := by
    rw [map_eq_flatMap]
    exact flatMap_congr fun c hc ↦ hascii c (hword c hc)
  have hwordLength : (word.flatMap unitsOf).length = 3 := by
    rw [hwordUnits, length_map, hlength]
  constructor
  · rintro ⟨htotal, ⟨rest, rfl⟩, hlow, hhigh⟩
    rw [flatMap_append, getD_eq_getElem?_getD,
      List.getElem?_append_right (by omega), hwordLength] at hlow hhigh
    rw [flatMap_append, length_append, hwordLength] at htotal
    cases rest with
    | nil => simp at htotal
    | cons c others =>
      obtain ⟨unit, units, hc⟩ := exists_cons_of_ne_nil (hunits c)
      rw [flatMap_cons, hc] at hlow hhigh htotal
      simp only [cons_append, Nat.sub_self, List.getElem?_cons_zero, Option.getD_some,
        length_cons, length_append] at hlow hhigh htotal
      have hothers : others = [] := by
        by_contra hne
        obtain ⟨d, tail, rfl⟩ := exists_cons_of_ne_nil hne
        have := length_pos_of_ne_nil (hunits d)
        rw [flatMap_cons, length_append] at htotal
        omega
      have hvalue : unit = c.toNat := by
        have h := hascii c (hunit c unit (hc ▸ mem_cons_self) (by omega))
        exact (List.cons.inj (hc.symm.trans h)).1
      exact ⟨c, hvalue ▸ hlow, hvalue ▸ hhigh, by rw [hothers]⟩
  · rintro ⟨digit, hlow, hhigh, rfl⟩
    have hdigit : unitsOf digit = [digit.toNat] := hascii digit (lt_of_le_of_lt hhigh (by decide))
    rw [flatMap_append, getD_eq_getElem?_getD, List.getElem?_append_right (by omega),
      length_append, hwordLength, flatMap_cons, flatMap_nil, hdigit]
    exact ⟨rfl, prefix_append _ _, hlow, hhigh⟩

theorem isDeviceName_iff (stem : Text) :
    IsDeviceName stem ↔ stem ∈ ["CON".toList, "PRN".toList, "AUX".toList, "NUL".toList] ∨
      (stem.flatMap unitsOf).length = 4 ∧ ("COM" <+: stem ∨ "LPT" <+: stem) ∧
        49 ≤ (stem.flatMap unitsOf).getD 3 0 ∧ (stem.flatMap unitsOf).getD 3 0 ≤ 57 := by
  have hcom := encoded_device_iff unitsOf hascii hunit hunits "COM" stem
    (forall_mem_of_all (by decide)) rfl
  have hlpt := encoded_device_iff unitsOf hascii hunit hunits "LPT" stem
    (forall_mem_of_all (by decide)) rfl
  refine or_congr_right ⟨?_, ?_⟩
  · rintro ⟨digit, hlow, hhigh, h | h⟩
    · obtain ⟨hfour, hword, hrange⟩ := hcom.mpr ⟨digit, hlow, hhigh, h⟩
      exact ⟨hfour, .inl hword, hrange⟩
    · obtain ⟨hfour, hword, hrange⟩ := hlpt.mpr ⟨digit, hlow, hhigh, h⟩
      exact ⟨hfour, .inr hword, hrange⟩
  · rintro ⟨hfour, hword | hword, hrange⟩
    · obtain ⟨digit, hlow, hhigh, h⟩ := hcom.mp ⟨hfour, hword, hrange⟩
      exact ⟨digit, hlow, hhigh, .inl h⟩
    · obtain ⟨digit, hlow, hhigh, h⟩ := hlpt.mp ⟨hfour, hword, hrange⟩
      exact ⟨digit, hlow, hhigh, .inr h⟩

end

theorem isReservedWindowsName_iff (part : Text) :
    isReservedWindowsName part = true ↔
      IsDeviceName (toAsciiUppercase ((part.splitOn '.').headD [])) := by
  set stem := toAsciiUppercase ((part.splitOn '.').headD []) with hstem
  have hunits : stem.flatMap (fun c ↦ (utf8Char c).map UInt8.toNat) =
      (utf8 stem).map UInt8.toNat := by
    rw [utf8, map_flatMap]
  have hbyte : ((utf8 stem).map UInt8.toNat).getD 3 0 = ((utf8 stem).getD 3 0).toNat := by
    rw [getD_eq_getElem?_getD, getD_eq_getElem?_getD, List.getElem?_map]
    cases (utf8 stem)[3]? <;> rfl
  rw [isDeviceName_iff (fun c ↦ (utf8Char c).map UInt8.toNat)
      (fun c hc ↦ by
        have hlt : c.toNat < 128 := hc
        rw [utf8Char_of_ascii hc, map_singleton, UInt8.toNat_ofNat', Nat.mod_eq_of_lt (by omega)])
      (fun c unit hunit hlt ↦ by
        obtain ⟨byte, hbyte, rfl⟩ := mem_map.mp hunit
        exact mem_utf8Char_lt hbyte hlt)
      (fun c ↦ by simpa using utf8Char_ne_nil c), hunits, hbyte, length_map]
  unfold isReservedWindowsName
  rw [← hstem]
  simp only [Bool.or_eq_true, Bool.and_eq_true, beq_iff_eq, isPrefixOf_iff_prefix,
    decide_eq_true_eq, contains_iff_mem, and_assoc]
  refine or_congr_right (and_congr_right fun _ ↦ and_congr_right fun _ ↦ ?_)
  omega

/-- A part of a path that can be created on every platform. -/
structure IsPortablePart (part : Text) : Prop where
  ne_nil : part ≠ []
  ne_dot : part ≠ "."
  ne_dotdot : part ≠ ".."
  no_control : ∀ c ∈ part, 0x1f < c.toNat
  no_trailing_space : part.getLast? ≠ some ' '
  no_trailing_dot : part.getLast? ≠ some '.'
  not_reserved : isReservedWindowsName part = false

structure IsPortablePath (unicode : Unicode) (path : Text) : Prop where
  ne_nil : path ≠ []
  no_backslash : '\\' ∉ path
  relative : path.head? ≠ some '/'
  no_colon : ':' ∉ path
  normalized : unicode.nfc path = path
  parts : ∀ part ∈ path.splitOn '/', IsPortablePart part

theorem normalizePart_eq_ok {part result : Text} :
    normalizePart path part = .ok result ↔ IsPortablePart part ∧ part = result := by
  unfold normalizePart
  simp only [bind_eq_ok, throwIf_eq_ok, pure_eq_ok, not_or, any_eq_true, decide_eq_true_eq,
    not_exists, not_and, not_le, exists_const, Bool.not_eq_true]
  constructor
  · rintro ⟨⟨hnil, hdot, hdots⟩, ⟨hcontrol, hspace, hlast, hreserved⟩, rfl⟩
    exact ⟨⟨hnil, hdot, hdots, hcontrol, hspace, hlast, hreserved⟩, rfl⟩
  · rintro ⟨h, rfl⟩
    exact ⟨⟨h.ne_nil, h.ne_dot, h.ne_dotdot⟩,
      ⟨h.no_control, h.no_trailing_space, h.no_trailing_dot, h.not_reserved⟩, rfl⟩

theorem normalizeManifestPath_eq_ok {result : Text} :
    normalizeManifestPath unicode path = .ok result ↔
      IsPortablePath unicode path ∧ path = result := by
  have hparts (parts : List Text) : (path.splitOn '/').mapM (normalizePart path) = .ok parts ↔
      (∀ part ∈ path.splitOn '/', IsPortablePart part) ∧ path.splitOn '/' = parts := by
    simp only [mapM_eq_ok, normalizePart_eq_ok]
    rw [forall₂_and_left, forall₂_eq_eq_eq]
  unfold normalizeManifestPath
  simp only [bind_eq_ok, throwIf_eq_ok, pure_eq_ok, not_or, not_not, exists_const, hparts]
  constructor
  · rintro ⟨⟨hnil, hbackslash, hrelative, hcolon⟩, hnfc, parts, ⟨hportable, rfl⟩, rfl⟩
    exact ⟨⟨hnil, hbackslash, hrelative, hcolon, hnfc, hportable⟩, (intercalate_splitOn '/').symm⟩
  · rintro ⟨h, rfl⟩
    exact ⟨⟨h.ne_nil, h.no_backslash, h.relative, h.no_colon⟩, h.normalized, _, ⟨h.parts, rfl⟩,
      intercalate_splitOn '/'⟩

@[simp] theorem validateHash_eq_ok {field : HashField} {value : Text} {u : Unit} :
    validateHash field value = .ok u ↔ IsHash value := by
  unfold validateHash
  rw [throwIf_eq_ok, not_or, not_not, not_not, utf8_hash_iff]

/-- The facts about a chunk that do not depend on the other chunks. -/
structure IsSoundChunk (chunk : ChunkRef) : Prop where
  rawSize_pos : 0 < chunk.rawSize
  encodedSize_pos : 0 < chunk.encodedSize
  rawHash : IsHash chunk.rawHash
  encodedHash : IsHash chunk.encodedHash
  objectKey : chunk.objectKey = chunkObjectKey chunk.encodedHash

/-- Recording a chunk under its encoded hash: absent when another chunk has that hash. -/
def recordChunk (chunks : List (Text × ChunkRef)) (chunk : ChunkRef) :
    Option (List (Text × ChunkRef)) :=
  match chunks.lookup chunk.encodedHash with
  | some existing => if existing = chunk then some chunks else none
  | none => some ((chunk.encodedHash, chunk) :: chunks)

theorem validateChunk_eq_ok {chunks result : List (Text × ChunkRef)} {chunk : ChunkRef} :
    validateChunk path chunks chunk = .ok result ↔
      IsSoundChunk chunk ∧ recordChunk chunks chunk = some result := by
  have hrecord : (match chunks.lookup chunk.encodedHash with
      | some existing => do
        throwIf (existing ≠ chunk) (.conflictingChunk chunk.encodedHash)
        return chunks
      | none => return (chunk.encodedHash, chunk) :: chunks :
        Except ManifestValidationError (List (Text × ChunkRef))) = .ok result ↔
      recordChunk chunks chunk = some result := by
    unfold recordChunk
    cases chunks.lookup chunk.encodedHash with
    | none => simp
    | some existing =>
      simp only [bind_eq_ok, throwIf_eq_ok, pure_eq_ok, exists_const, not_not]
      by_cases h : existing = chunk <;> simp [h]
  unfold validateChunk
  simp only [bind_eq_ok, throwIf_eq_ok, validateHash_eq_ok, exists_const, not_or, not_not]
  rw [hrecord]
  constructor
  · rintro ⟨⟨hraw, hencoded⟩, hrawHash, hencodedHash, hkey, h⟩
    exact ⟨⟨Nat.pos_of_ne_zero hraw, Nat.pos_of_ne_zero hencoded, hrawHash, hencodedHash, hkey⟩, h⟩
  · rintro ⟨hsound, h⟩
    exact ⟨⟨hsound.rawSize_pos.ne', hsound.encodedSize_pos.ne'⟩, hsound.rawHash,
      hsound.encodedHash, hsound.objectKey, h⟩

theorem sumRawSizes_eq_some {chunks : List ChunkRef} {total : ℕ} :
    sumRawSizes chunks = some total ↔
      (chunks.map ChunkRef.rawSize).sum < u64Size ∧ (chunks.map ChunkRef.rawSize).sum = total := by
  have hzero : 0 < u64Size := by decide
  rw [sumRawSizes, ← foldlM_map, foldlM_checkedAdd hzero, Nat.zero_add]

/-- The facts about a file that do not depend on the other files. -/
structure IsSoundFile (unicode : Unicode) (file : FileRecipe) : Prop where
  path : IsPortablePath unicode file.path
  blake3 : IsHash file.blake3
  size : (file.chunks.map ChunkRef.rawSize).sum = file.size

theorem validateFile_eq_ok {seen result : Seen} {file : FileRecipe} :
    validateFile unicode seen file = .ok result ↔
      (IsSoundFile unicode file ∧ file.size < u64Size) ∧ file.path ∉ seen.paths ∧
        ∃ chunks, file.chunks.foldlM (validateChunk file.path) seen.chunksByEncodedHash =
          .ok chunks ∧ result = ⟨file.path :: seen.paths, chunks⟩ := by
  unfold validateFile
  simp only [bind_eq_ok, throwIf_eq_ok, validateHash_eq_ok, orThrow_eq_ok, pure_eq_ok,
    normalizeManifestPath_eq_ok, sumRawSizes_eq_some, exists_const, not_not]
  constructor
  · rintro ⟨_, ⟨hpath, rfl⟩, -, hnew, hhash, _, ⟨hrange, rfl⟩, hsize, chunks, hchunks, rfl⟩
    exact ⟨⟨⟨hpath, hhash, hsize⟩, hsize ▸ hrange⟩, hnew, chunks, hchunks, rfl⟩
  · rintro ⟨⟨hsound, hrange⟩, hnew, chunks, hchunks, rfl⟩
    exact ⟨_, ⟨hsound.path, rfl⟩, rfl, hnew, hsound.blake3, _, ⟨hsound.size ▸ hrange, rfl⟩,
      hsound.size, chunks, hchunks, rfl⟩

theorem validateLaunch_eq_ok :
    validateLaunch unicode manifest = .ok () ↔ IsPortablePath unicode manifest.launch.executable ∧
      (∃ file ∈ manifest.files, file.path = manifest.launch.executable) ∧
      (manifest.launch.workingDirectory ≠ "." →
        IsPortablePath unicode manifest.launch.workingDirectory) := by
  have hmap {path result : Text} {error : ManifestValidationError} :
      (normalizeManifestPath unicode path).mapError (fun _ ↦ error) = .ok result ↔
        IsPortablePath unicode path ∧ path = result := by
    rw [← normalizeManifestPath_eq_ok]
    cases normalizeManifestPath unicode path <;> simp [Except.mapError]
  have hdirectory : (if manifest.launch.workingDirectory ≠ "." then do
        let workingDirectory ← (normalizeManifestPath unicode
          manifest.launch.workingDirectory).mapError fun _ ↦ .launchWorkingDirectory
        throwIf (workingDirectory ≠ manifest.launch.workingDirectory) .launchWorkingDirectory
      else pure PUnit.unit : Except ManifestValidationError PUnit) = .ok () ↔
      (manifest.launch.workingDirectory ≠ "." →
        IsPortablePath unicode manifest.launch.workingDirectory) := by
    by_cases hdot : manifest.launch.workingDirectory = "."
    · rw [if_neg (not_not.mpr hdot)]
      exact iff_of_true rfl fun hne ↦ absurd hdot hne
    · rw [if_pos hdot, bind_eq_ok]
      simp only [hmap, throwIf_eq_ok, not_not]
      constructor
      · rintro ⟨_, ⟨hportable, -⟩, -⟩ -
        exact hportable
      · exact fun hportable ↦ ⟨_, ⟨hportable hdot, rfl⟩, rfl⟩
  unfold validateLaunch
  simp only [bind_eq_ok, hmap, throwIf_eq_ok, exists_const, not_not, any_eq_true, beq_iff_eq]
  rw [hdirectory]
  constructor
  · rintro ⟨_, ⟨hportable, rfl⟩, -, howned, hworking⟩
    exact ⟨hportable, howned, hworking⟩
  · rintro ⟨hportable, howned, hworking⟩
    exact ⟨_, ⟨hportable, rfl⟩, rfl, howned, hworking⟩

/-- The server's validation, step by step. -/
theorem Manifest.validate_eq_ok :
    manifest.validate unicode = .ok () ↔ manifest.schemaVersion = 1 ∧
      (¬ IsBlank manifest.manifestId ∧ ¬ IsBlank manifest.gameId ∧ ¬ IsBlank manifest.buildId ∧
        ¬ IsBlank manifest.displayVersion) ∧
      (manifest.chunking.algorithm = "fastcdc" ∧ manifest.chunking.formatVersion = 1 ∧
        0 < manifest.chunking.minimumBytes ∧
        manifest.chunking.minimumBytes ≤ manifest.chunking.averageBytes ∧
        manifest.chunking.averageBytes ≤ manifest.chunking.maximumBytes) ∧
      (manifest.encoding.id = "zstd-v1-level-3" ∧ manifest.encoding.level = 3) ∧
      (∃ seen, manifest.files.foldlM (validateFile unicode) ⟨[], []⟩ = .ok seen) ∧
      validateLaunch unicode manifest = .ok () := by
  unfold Manifest.validate
  simp only [bind_eq_ok, throwIf_eq_ok, exists_const, not_or, not_not, trim_eq_nil_iff, not_lt,
    gt_iff_lt, exists_and_right, Nat.pos_iff_ne_zero]
  exact Iff.rfl

end GameLauncher.Manifests
