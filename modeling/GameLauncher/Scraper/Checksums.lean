import GameLauncher.Foundation.Unicode
import GameLauncher.Scraper.Downloader

/-!
# Checksums on release pages

The scraper takes the first checksum that `_CHECKSUM_RE` finds in a text. `_checksum_from_text` hands
on the digest without the name of its algorithm, and both the download and the validation compare it
with the BLAKE3 and the SHA-256 digest of the artifact.
-/

set_option autoImplicit false

namespace GameLauncher.Scraper

open Foundation List

/-! ### What a page says -/

inductive ChecksumName
  | sha256
  | sha
  | blake3
  | md5
  deriving DecidableEq, Repr

/-- How the names are written, in the order of the alternatives of `_CHECKSUM_RE`. -/
def checksumNames : List (Text × ChecksumName) :=
  [("sha-256", .sha256), ("sha256", .sha256), ("sha", .sha), ("blake3", .blake3), ("md5", .md5)]

/-- Does a character match a letter, a digit or a hyphen of the pattern under `re.I`? -/
def matchesIgnoringCase (pattern c : Char) : Bool :=
  c.toLower == pattern || (pattern == 's' && c == 'ſ') || (pattern == 'k' && c.toNat == 0x212a)

/-- What follows a name at the start of a text. -/
def afterName : Text → Text → Option Text
  | [], text => some text
  | _ :: _, [] => none
  | pattern :: rest, c :: text =>
    if matchesIgnoringCase pattern c then afterName rest text else none

/-- `\s` of `re`. -/
def isSpace (c : Char) : Bool := isWhitespace c || (0x1c ≤ c.toNat && c.toNat ≤ 0x1f)

/-- `[0-9a-f]` under `re.I`. -/
def isHexDigit (c : Char) : Bool := "0123456789abcdef".toList.contains c.toLower

/-- The digest after the name of an algorithm. All classes of the pattern are apart, so that it can
match in one way only. -/
def digestAfter (isWord : Char → Bool) (text : Text) : Option Text :=
  match text.dropWhile isSpace with
  | [] => none
  | separator :: rest =>
    let digest := (rest.dropWhile isSpace).takeWhile isHexDigit
    if (separator = ':' ∨ separator = '=') ∧ 32 ≤ digest.length ∧ digest.length ≤ 128 ∧
        ((rest.dropWhile isSpace).dropWhile isHexDigit).head?.any isWord = false then some digest
    else none

/-- `_CHECKSUM_RE.search`, after a character: the name and the digest of the first match. The word
characters of `re` are a parameter. -/
def searchChecksum (isWord : Char → Bool) : Option Char → Text → Option (ChecksumName × Text)
  | _, [] => none
  | previous, c :: rest =>
    let found := if previous.any isWord then none else
      checksumNames.findSome? fun name ↦
        ((afterName name.1 (c :: rest)).bind (digestAfter isWord)).map (name.2, ·)
    found.or (searchChecksum isWord (some c) rest)

variable (library : PythonLibrary) (isWord : Char → Bool)

/-- `_checksum_from_text`. -/
def checksumFromText (value : Text) : Option Text :=
  (searchChecksum isWord none value).map fun found ↦ library.casefold found.2

/-! ### What is checked -/

/-- The check of the checksum in `ArtifactValidator.validate`. -/
def checksumErrors (reportedChecksum : Option Text) (content : Bytes) : List Text :=
  match reportedChecksum with
  | some [] | none => []
  | some value =>
    if checksumMatches library value content then []
    else ["reported checksum does not match artifact"]

/-- The checksum of a text fails neither the download nor the validation of an artifact. -/
def ChecksumPasses (value : Text) (content : Bytes) : Prop :=
  checksumAccepts library (checksumFromText library isWord value) content = true ∧
    checksumErrors library (checksumFromText library isWord value) content = []

/-- The digests of contents under all algorithms that a page may name: 32 digits of MD5, 40 of the
SHA that is named without a length, and 64 of the others. -/
structure Digests (library : PythonLibrary) where
  md5 : Bytes → Text
  sha : Bytes → Text
  md5_length : ∀ content, (md5 content).length = 32
  sha_length : ∀ content, (sha content).length = 40
  sha256_length : ∀ content, (library.sha256 content).length = 64
  blake3_length : ∀ content, (library.blake3 content).length = 64

variable {library} {isWord} (digests : Digests library)

def Digests.of : ChecksumName → Bytes → Text
  | .sha256 => library.sha256
  | .blake3 => library.blake3
  | .sha => digests.sha
  | .md5 => digests.md5

/-- The algorithms that the downloader compares with. -/
def ChecksumName.isCompared : ChecksumName → Bool
  | .sha256 | .blake3 => true
  | .sha | .md5 => false

/-- The other one of the two digests that are compared. -/
def ChecksumName.counterpart : ChecksumName → ChecksumName
  | .sha256 => .blake3
  | _ => .sha256

variable {value digest : Text} {name : ChecksumName} {content : Bytes}

theorem digestAfter_hex {text : Text} (h : digestAfter isWord text = some digest) :
    digest ≠ [] ∧ ∀ c ∈ digest, isHexDigit c = true := by
  unfold digestAfter at h
  split at h
  · cases h
  · dsimp only at h
    split_ifs at h with hmatch
    obtain rfl := Option.some.inj h
    exact ⟨length_pos_iff.mp (by omega), fun c ↦ mem_takeWhile_imp⟩

theorem searchChecksum_hex {previous : Option Char} {text : Text}
    (h : searchChecksum isWord previous text = some (name, digest)) :
    digest ≠ [] ∧ ∀ c ∈ digest, isHexDigit c = true := by
  induction text generalizing previous with
  | nil => cases h
  | cons c rest ih =>
    rw [searchChecksum] at h
    rcases Option.or_eq_some_iff.mp h with hfound | ⟨-, hlater⟩
    · split_ifs at hfound
      obtain ⟨spelling, -, hspelling⟩ := exists_of_findSome?_eq_some hfound
      obtain ⟨found, hbind, hpair⟩ := Option.map_eq_some_iff.mp hspelling
      obtain ⟨after, -, hdigest⟩ := Option.bind_eq_some_iff.mp hbind
      obtain ⟨-, rfl⟩ := Prod.mk.inj hpair
      exact digestAfter_hex hdigest
    · exact ih hlater

theorem lower_hex {text : Text} (h : ∀ c ∈ text, isHexDigit c = true) :
    ∀ c ∈ text.map Char.toLower, isHexDigit c = true ∧ c.toLower = c ∧ c ≠ ':' := by
  have hdigits : ∀ c ∈ "0123456789abcdef".toList,
      isHexDigit c = true ∧ c.toLower = c ∧ c ≠ ':' := forall_mem_of_all (by decide)
  intro c hc
  obtain ⟨old, hold, rfl⟩ := mem_map.mp hc
  exact hdigits _ (contains_iff_mem.mp (h old hold))

theorem checksumPasses_iff
    (hcasefold : ∀ text, (∀ c ∈ text, isHexDigit c = true) →
      library.casefold text = text.map Char.toLower)
    (hstrip : ∀ text, (∀ c ∈ text, isHexDigit c = true) → library.strip text = text)
    (hfound : searchChecksum isWord none value = some (name, digest)) :
    ChecksumPasses library isWord value content ↔ digest.map Char.toLower = library.blake3 content ∨
        digest.map Char.toLower = library.sha256 content := by
  obtain ⟨hne, hhex⟩ := searchChecksum_hex hfound
  have hlower := lower_hex hhex
  set lower := digest.map Char.toLower with hdef
  have hchecksum : checksumFromText library isWord value = some lower := by
    rw [checksumFromText, hfound, Option.map_some, hcasefold digest hhex]
  have hnormal : library.casefold (library.strip lower) = lower := by
    rw [hstrip lower fun c hc ↦ (hlower c hc).1, hcasefold lower fun c hc ↦ (hlower c hc).1]
    exact (map_congr_left fun c hc ↦ (hlower c hc).2.1).trans (map_id' lower)
  have hcolon : ':' ∉ lower := fun hc ↦ (hlower _ hc).2.2 rfl
  have hmatches : checksumMatches library lower content = true ↔
      lower = library.blake3 content ∨ lower = library.sha256 content := by
    rw [checksumMatches, hnormal, if_neg hcolon, contains_iff_mem, mem_cons, mem_singleton]
  rw [← hmatches, ChecksumPasses, hchecksum]
  cases hcase : lower with
  | nil => exact absurd (map_eq_nil_iff.mp hcase) hne
  | cons c rest =>
    simp only [checksumAccepts, checksumErrors]
    cases checksumMatches library (c :: rest) content <;> simp

/-- The checksum of a text serves an artifact: under the named algorithm a correct digest passes,
and the digest of a content with another one fails, when it is a SHA-256 or a BLAKE3 digest. -/
def ChecksumServes (isWord : Char → Bool) (value digest : Text) (name : ChecksumName)
    (content : Bytes) : Prop :=
  (digest.map Char.toLower = digests.of name content → ChecksumPasses library isWord value content) ∧
    (name.isCompared = true → ∀ other, digest.map Char.toLower = digests.of name other →
      digests.of name other ≠ digests.of name content →
        ¬ ChecksumPasses library isWord value content)

/-- The first checksum of a text serves exactly the artifacts for which it is not a correct digest of
an algorithm that is not compared with, nor the digest of another content that is theirs under the
other algorithm. -/
theorem checksumServes_iff
    (hcasefold : ∀ text, (∀ c ∈ text, isHexDigit c = true) →
      library.casefold text = text.map Char.toLower)
    (hstrip : ∀ text, (∀ c ∈ text, isHexDigit c = true) → library.strip text = text)
    (hfound : searchChecksum isWord none value = some (name, digest)) (content : Bytes) :
    ChecksumServes digests isWord value digest name content ↔
      (name.isCompared = false → digest.map Char.toLower ≠ digests.of name content) ∧
        (name.isCompared = true → ∀ other, digest.map Char.toLower = digests.of name other →
          digests.of name other ≠ digests.of name content →
            digests.of name other ≠ digests.of name.counterpart content) := by
  have hpasses : ChecksumPasses library isWord value content ↔ _ :=
    checksumPasses_iff hcasefold hstrip hfound
  set lower := digest.map Char.toLower
  cases hcompared : name.isCompared with
  | true =>
    have hiff : ChecksumPasses library isWord value content ↔
        lower = digests.of name content ∨ lower = digests.of name.counterpart content := by
      rw [hpasses]
      cases name with
      | sha256 => exact or_comm
      | blake3 => exact Iff.rfl
      | sha => cases hcompared
      | md5 => cases hcompared
    rw [ChecksumServes, hcompared, hiff]
    refine ⟨fun h ↦ ⟨(fun h ↦ by cases h), fun _ other hother hne hcross ↦ ?_⟩,
      fun h ↦ ⟨Or.inl, fun _ other hother hne hpass ↦ ?_⟩⟩
    · exact h.2 rfl other hother hne (.inr (hother.trans hcross))
    · rcases hpass with hsame | hcross
      · exact hne (hother.symm.trans hsame)
      · exact h.2 rfl other hother hne (hother.symm.trans hcross)
  | false =>
    have hnever (hsame : lower = digests.of name content) :
        ¬ ChecksumPasses library isWord value content := by
      have hlength : lower.length ≠ 64 := by
        rw [hsame]
        cases name with
        | sha256 => cases hcompared
        | blake3 => cases hcompared
        | sha => exact (digests.sha_length content).trans_ne (by decide)
        | md5 => exact (digests.md5_length content).trans_ne (by decide)
      rw [hpasses]
      rintro (heq | heq)
      · exact hlength (heq ▸ digests.blake3_length content)
      · exact hlength (heq ▸ digests.sha256_length content)
    rw [ChecksumServes, hcompared]
    refine ⟨fun h ↦ ⟨fun _ hsame ↦ hnever hsame (h.1 hsame), (fun h ↦ by cases h)⟩,
      fun h ↦ ⟨fun hsame ↦ absurd hsame (h.1 rfl), (fun h ↦ by cases h)⟩⟩

/-- A library whose digests are those of the content `a`. -/
def letterLibrary : PythonLibrary where
  unquote := id
  casefold := List.map Char.toLower
  strip := id
  urlFilename := id
  blake3 := fun _ ↦ "17762fddd969a453925d65717ac3eea21320b66b54342fde15128d6caf21215f"
  sha256 := fun _ ↦ "ca978112ca1bbdcafac231b39a23dc4da786eff8147c4e72b9807785afee48bb"

def letterDigests : Digests letterLibrary where
  md5 := fun _ ↦ "0cc175b9c0f1b6a831c399e269772661"
  sha := fun _ ↦ "86f7e437faa5a7fce15d1ddcb9eaeaea377667b8"
  md5_length := fun _ ↦ rfl
  sha_length := fun _ ↦ rfl
  sha256_length := fun _ ↦ rfl
  blake3_length := fun _ ↦ rfl

theorem sha256_serves : ChecksumServes letterDigests Char.isAlphanum
    "SHA-256 = CA978112CA1BBDCAFAC231B39A23DC4DA786EFF8147C4E72B9807785AFEE48BB"
    "CA978112CA1BBDCAFAC231B39A23DC4DA786EFF8147C4E72B9807785AFEE48BB" .sha256 [97] :=
  (checksumServes_iff letterDigests (fun _ _ ↦ rfl) (fun _ _ ↦ rfl) (by decide) [97]).mpr
    ⟨(fun h ↦ by cases h), fun _ _ _ hne ↦ absurd rfl hne⟩

/-- The MD5 digest of an artifact rejects it. -/
theorem md5_rejected :
    searchChecksum Char.isAlphanum none "MD5: 0cc175b9c0f1b6a831c399e269772661" =
        some (.md5, letterDigests.md5 [97]) ∧
      ¬ ChecksumPasses letterLibrary Char.isAlphanum
        "MD5: 0cc175b9c0f1b6a831c399e269772661" [97] := by
  refine ⟨by decide, fun h ↦ absurd h.1 (by decide)⟩

end GameLauncher.Scraper
