import GameLauncher.Foundation.PanicFreedom
import GameLauncher.Packs.PhysicalReader

/-!
# Safety of the Rust pack reader

Every offset, length and count that `PackReader::parse` uses comes from the byte string. No byte
string makes it panic, and the index that it accepts is sound: strictly sorted, inside the data
region, without overlaps. On an accepted pack the lookup is complete and a read fails only for a
text that is no hash, for a hash that is not in the index, or for bytes that do not have the hash.
-/

set_option autoImplicit false

namespace GameLauncher.Packs

open Foundation Fallible List

namespace PackReader

/-! ### Panic freedom of the parser -/

variable {bytes : Bytes} {hash : Bytes → Digest}

theorem panicFree_readHash (bytes : Bytes) (offset : ℕ) : PanicFree (readHash bytes offset) := by
  apply panicFree_bind (panicFree_okOr _ _)
  intro stop _
  apply panicFree_bind (panicFree_okOr _ _)
  intro value _
  exact panicFree_pure _

theorem panicFree_validateHash (field : String) (value : Text) :
    PanicFree (validateHash field value) :=
  panicFree_rejectIf _ _

/-- The checks of the header read inside a byte string that is long enough for them. -/
theorem panicFree_parseHeader (bytes : Bytes) : PanicFree (parseHeader bytes) := by
  apply panicFree_bind (panicFree_rejectIf _ _)
  intro _ hsize
  have hlength : headerSize + footerSize ≤ bytes.length := not_lt.mp (rejectIf_eq_ok.mp hsize)
  apply panicFree_bind (panicFree_indexRange (by omega) (le_trans (by decide) hlength))
  repeat' first
    | intro _ _; apply panicFree_bind
    | exact panicFree_rejectIf _ _
    | exact panicFree_okOr _ _
    | exact fun _ _ ↦ panicFree_pure _

/-- The slices of the footer and of the index stay inside the byte string: the index is sliced
only when its end has been compared with the start of the footer. -/
theorem panicFree_parseFooter {header : PackHeader} (hsize : headerSize + footerSize ≤ bytes.length)
    :
    PanicFree (parseFooter hash bytes header) := by
  have hfooter : footerSize = 72 := rfl
  apply panicFree_bind (panicFree_indexRange (by omega) (by omega))
  intro _ _
  apply panicFree_bind (panicFree_rejectIf _ _)
  intro _ _
  apply panicFree_bind (panicFree_okOr _ _)
  intro _ _
  apply panicFree_bind (panicFree_rejectIf _ _)
  intro _ _
  apply panicFree_bind (panicFree_okOr _ _)
  intro _ _
  apply panicFree_bind (panicFree_okOr _ _)
  intro _ _
  apply panicFree_bind (panicFree_okOr _ _)
  intro _ _
  apply panicFree_bind (panicFree_rejectIf _ _)
  intro _ _
  apply panicFree_bind (panicFree_okOr _ _)
  intro indexEnd hindexEnd
  apply panicFree_bind (panicFree_rejectIf _ _)
  intro _ hinside
  rw [okOr_eq_ok, checkedAdd_eq_some] at hindexEnd
  rw [rejectIf_eq_ok] at hinside
  apply panicFree_bind (panicFree_indexRange (by omega) (by omega))
  intro _ _
  apply panicFree_bind (panicFree_indexRange (by omega) (by omega))
  intro _ _
  exact panicFree_rejectIf _ _

theorem panicFree_parseEntry {dataOffset indexOffset position : ℕ} {previousHash : Option Text}
    (hinside : indexOffset + (position + 1) * entrySize ≤ bytes.length) :
    PanicFree (parseEntry bytes dataOffset indexOffset position previousHash) := by
  apply panicFree_bind (panicFree_okOr _ _)
  intro scaled hscaled
  apply panicFree_bind (panicFree_okOr _ _)
  intro start hstart
  apply panicFree_bind (panicFree_okOr _ _)
  intro stop hstop
  rw [okOr_eq_ok, checkedMul_eq_some] at hscaled
  rw [okOr_eq_ok, checkedAdd_eq_some] at hstart hstop
  obtain ⟨-, rfl⟩ := hscaled
  obtain ⟨-, rfl⟩ := hstart
  obtain ⟨-, rfl⟩ := hstop
  have hend : indexOffset + position * entrySize + entrySize ≤ bytes.length := by
    rwa [Nat.add_assoc, ← Nat.succ_mul]
  apply panicFree_bind (panicFree_indexRange (Nat.le_add_right _ _) hend)
  repeat' first
    | intro _ _; apply panicFree_bind
    | exact panicFree_readHash _ _
    | exact panicFree_validateHash _ _
    | exact panicFree_rejectIf _ _
    | exact panicFree_okOr _ _
    | exact fun _ _ ↦ panicFree_pure _

theorem panicFree_parseEntries {dataOffset indexOffset remaining position : ℕ}
    {previousHash : Option Text}
    (hinside : indexOffset + (position + remaining) * entrySize ≤ bytes.length) :
    PanicFree (parseEntries bytes dataOffset indexOffset remaining position previousHash) := by
  induction remaining generalizing position previousHash with
  | zero => exact panicFree_pure _
  | succ remaining ih =>
    have hthis : (position + 1) * entrySize ≤ (position + (remaining + 1)) * entrySize :=
      Nat.mul_le_mul_right _ (by omega)
    apply panicFree_bind (panicFree_parseEntry (by omega))
    intro entry _
    apply panicFree_bind (ih (by rwa [Nat.add_assoc, Nat.add_comm 1]))
    intro rest _
    exact panicFree_pure _

theorem panicFree_checkOverlap (entries : List PackEntry) : PanicFree (checkOverlap entries) := by
  induction entries with
  | nil => exact panicFree_pure _
  | cons first rest ih =>
    cases rest with
    | nil => exact panicFree_pure _
    | cons second rest =>
      apply panicFree_bind (panicFree_okOr _ _)
      intro _ _
      apply panicFree_bind (panicFree_rejectIf _ _)
      intro _ _
      exact ih

/-- What the parser knows once the footer is accepted: the arithmetic on positions of the footer
stays below the size of the byte string, and the announced records fit into it. -/
theorem footer_operands {header : PackHeader} (hheader : parseHeader bytes = .ok header)
    (hfooter : parseFooter hash bytes header = .ok ()) :
    header.indexOffset + header.entryCount * entrySize = bytes.length - footerSize := by
  obtain ⟨hsize, -, -, -, -, hindexLength, hmax, rfl⟩ := parseHeader_eq_ok.mp hheader
  obtain ⟨-, -, -, -, -, -, hend, -⟩ := (parseFooter_eq_ok hsize hmax).mp hfooter
  simp only [headerAt] at hend ⊢
  rw [← hindexLength, hend]

theorem panicFree_parse (hash : Bytes → Digest) (bytes : Bytes) :
    PanicFree (parse hash bytes) := by
  apply panicFree_bind (panicFree_parseHeader bytes)
  intro header hheader
  apply panicFree_bind (panicFree_parseFooter (parseHeader_eq_ok.mp hheader).1)
  intro _ hfooter
  have hindex := footer_operands hheader hfooter
  apply panicFree_bind (panicFree_parseEntries (by rw [Nat.zero_add]; omega))
  intro entries _
  apply panicFree_bind (panicFree_checkOverlap _)
  intro _ _
  exact panicFree_pure _

/-! ### The accepted index -/

variable {encodedHash : Text} {reader : PackReader}

/-- The byte ranges of two index records have no byte in common. -/
def DisjointRanges (left right : PackEntry) : Prop :=
  left.offset + left.encodedLength ≤ right.offset ∨ right.offset + right.encodedLength ≤ left.offset

/-- The scan over neighbours separates all pairs: an end is never beyond the next offset, so it is
never beyond a later one. -/
theorem disjointRanges_of_nonOverlapping {entries : List PackEntry}
    (h : NonOverlapping entries) : entries.Pairwise DisjointRanges := by
  have hsorted : (sortByOffset entries).Pairwise fun left right ↦
      left.offset + left.encodedLength ≤ right.offset := by
    have : IsTrans PackEntry fun left right ↦ left.offset + left.encodedLength ≤ right.offset := by
      refine ⟨fun first second third hfirst hsecond ↦ ?_⟩
      exact hfirst.trans ((Nat.le_add_right _ _).trans hsecond)
    exact isChain_iff_pairwise.mp h
  exact ((perm_insertionSort _ entries).pairwise_iff fun hdisjoint ↦ hdisjoint.symm).mp
    (hsorted.imp fun hle ↦ .inl hle)

theorem isHash_of_mem_entries {entries : List PackEntry} (hpack : WellFormedPack hash bytes entries)
    {entry : PackEntry} (hentry : entry ∈ entries) : IsHash entry.encodedHash := by
  obtain ⟨position, hposition, rfl⟩ := getElem_of_mem hentry
  rw [hpack.entry_eq position hposition]
  have hscaled : (position + 1) * entrySize ≤ entries.length * entrySize :=
    Nat.mul_le_mul_right _ hposition
  have hend := hpack.index_end
  have hrecord : uintAt 8 bytes 32 + position * entrySize + entrySize ≤ bytes.length := by
    rw [Nat.succ_mul] at hscaled
    omega
  apply isHash_toHex
  apply length_slice_of_le
  rw [length_slice_of_le hrecord]
  decide

/-- The lookup on any reader ends with a record, an error for the argument, or no record. -/
theorem panicFree_entry (reader : PackReader) (encodedHash : Text) :
    PanicFree (reader.entry encodedHash) := by
  apply panicFree_bind (panicFree_validateHash _ _)
  intro _ _
  apply panicFree_bind (panicFree_okOr _ _)
  intro position hfound
  rw [okOr_eq_ok] at hfound
  obtain ⟨hposition, -⟩ := key_of_binarySearchBy hfound
  simp only [List.getElem?_eq_getElem hposition]
  exact panicFree_pure _

section

variable (hpack : WellFormedPack hash reader.bytes reader.entries)

include hpack

/-- How the lookup fails: the argument is no hash, or the index does not have it. -/
theorem entry_eq_error {failure : Fault PackError} (h : reader.entry encodedHash = .error failure) :
    ¬ IsHash encodedHash ∧ failure = .error
        (.configuration "encoded hash must be 64 lowercase hexadecimal characters") ∨
      encodedHash ∉ reader.entries.map PackEntry.encodedHash ∧
        failure = .error (.chunkNotFound encodedHash) := by
  rw [PackReader.entry, bind_eq_error] at h
  rcases h with hinvalid | ⟨_, hvalid, h⟩
  · rw [validateHash, rejectIf, throwIf_eq_error, utf8_hash_iff] at hinvalid
    exact .inl ⟨hinvalid.1, hinvalid.2.symm⟩
  · rw [bind_eq_error] at h
    rcases h with hmissing | ⟨position, hfound, h⟩
    · obtain ⟨hnone, rfl⟩ := orThrow_eq_error.mp hmissing
      refine .inr ⟨fun hmem ↦ ?_, rfl⟩
      obtain ⟨entry, hentryMem, hkey⟩ := mem_map.mp hmem
      obtain ⟨position, hposition, rfl⟩ := getElem_of_mem hentryMem
      rw [binarySearchBy_of_key hpack.sorted hposition hkey] at hnone
      cases hnone
    · rw [okOr_eq_ok] at hfound
      obtain ⟨hposition, -⟩ := key_of_binarySearchBy hfound
      simp only [List.getElem?_eq_getElem hposition] at h
      cases h

/-- The lookup finds exactly the hashes of the index. -/
theorem entry_isOk_iff :
    (∃ entry, reader.entry encodedHash = .ok entry) ↔
      encodedHash ∈ reader.entries.map PackEntry.encodedHash := by
  simp only [entry_eq_ok hpack.sorted, mem_map]
  constructor
  · rintro ⟨entry, -, hentry, hkey⟩
    exact ⟨entry, hentry, hkey⟩
  · rintro ⟨entry, hentry, rfl⟩
    exact ⟨entry, isHash_of_mem_entries hpack hentry, hentry, rfl⟩

/-- How a read fails: as the lookup does, or because the bytes of the record do not have its
hash. -/
theorem readEncoded_eq_error {failure : Fault PackError}
    (h : reader.readEncoded hash encodedHash = .error failure) :
    ¬ IsHash encodedHash ∧ failure = .error
        (.configuration "encoded hash must be 64 lowercase hexadecimal characters") ∨
      encodedHash ∉ reader.entries.map PackEntry.encodedHash ∧
        failure = .error (.chunkNotFound encodedHash) ∨
      ∃ entry ∈ reader.entries, entry.encodedHash = encodedHash ∧
        (hash (slice reader.bytes entry.offset entry.encodedLength)).hex ≠ encodedHash ∧
        failure = .error (.chunkHashMismatch encodedHash
          (hash (slice reader.bytes entry.offset entry.encodedLength)).hex) := by
  rw [readEncoded, bind_eq_error] at h
  rcases h with hlookup | ⟨entry, hfound, h⟩
  · exact (entry_eq_error hpack hlookup).imp_right .inl
  · obtain ⟨-, hentry, rfl⟩ := (entry_eq_ok hpack.sorted).mp hfound
    -- The bounds of the record leave no other failure than the comparison of the hashes.
    have hend := (hpack.bounds entry hentry).end_le
    have hindex := uintAt_lt_u64Size reader.bytes 32
    have hindexEnd := hpack.index_end
    have hstop : checkedAdd entry.offset entry.encodedLength =
        some (entry.offset + entry.encodedLength) :=
      checkedAdd_eq_some.mpr ⟨by omega, rfl⟩
    have hrange : getRange reader.bytes entry.offset (entry.offset + entry.encodedLength) =
        some (slice reader.bytes entry.offset entry.encodedLength) := by
      rw [getRange_eq_some, Nat.add_sub_cancel_left]
      exact ⟨⟨Nat.le_add_right _ _, by omega⟩, rfl⟩
    simp only [hstop, hrange, okOr, orThrow, bind_eq_error, rejectIf, throwIf_eq_error,
      reduceCtorEq, false_or, Except.ok.injEq, exists_eq_left'] at h
    rcases h with ⟨hactual, rfl⟩ | ⟨_, -, hpure⟩
    · exact .inr (.inr ⟨entry, hentry, rfl, hactual, rfl⟩)
    · cases hpure

end

/-! ### Soundness of the index -/

/-- The parser panics on no byte string, and its unchecked arithmetic stays inside the byte string.
The index it accepts is strictly sorted, lies in the data region and has disjoint ranges. On an
accepted pack the lookup finds exactly the hashes of the index, and a read neither panics nor is
truncated: it fails for a text that is no hash, for a hash outside the index, or for bytes that do
not have the hash. -/
theorem parse_sound (hash : Bytes → Digest) (bytes : Bytes) :
    parse hash bytes ≠ .error .panic ∧ (∀ header, parseHeader bytes = .ok header →
        headerSize + footerSize ≤ bytes.length ∧ bytes.length < u64Size ∧
          (parseFooter hash bytes header = .ok () →
            header.indexOffset + header.entryCount * entrySize + footerSize = bytes.length)) ∧
      ∀ reader, parse hash bytes = .ok reader →
        (reader.entries.Pairwise fun left right ↦ left.encodedHash < right.encodedHash) ∧
        (∀ entry ∈ reader.entries, headerSize ≤ entry.offset ∧
          entry.offset + entry.encodedLength ≤ reader.indexOffset) ∧
        reader.entries.Pairwise DisjointRanges ∧
        (∀ encodedHash, reader.entry encodedHash ≠ .error .panic ∧
          ((∃ entry, reader.entry encodedHash = .ok entry) ↔
            encodedHash ∈ reader.entries.map PackEntry.encodedHash) ∧
          ∀ entry, reader.entry encodedHash = .ok entry →
            entry ∈ reader.entries ∧ entry.encodedHash = encodedHash) ∧
        ∀ encodedHash failure, reader.readEncoded hash encodedHash = .error failure →
          ¬ IsHash encodedHash ∧ failure = .error
              (.configuration "encoded hash must be 64 lowercase hexadecimal characters") ∨
            encodedHash ∉ reader.entries.map PackEntry.encodedHash ∧
              failure = .error (.chunkNotFound encodedHash) ∨
            ∃ actual ≠ encodedHash, failure = .error (.chunkHashMismatch encodedHash actual) := by
  refine ⟨panicFree_parse hash bytes, ?_, ?_⟩
  · intro header hheader
    obtain ⟨hsize, -, -, -, -, -, hmax, -⟩ := parseHeader_eq_ok.mp hheader
    refine ⟨hsize, lt_of_le_of_lt hmax (by decide), fun hfooter ↦ ?_⟩
    have hindex := footer_operands hheader hfooter
    omega
  · intro reader hparse
    obtain ⟨rfl, hindexOffset, hpack⟩ := parse_eq_ok.mp hparse
    refine ⟨hpack.sorted, ?_, disjointRanges_of_nonOverlapping hpack.nonOverlapping, ?_, ?_⟩
    · intro entry hentry
      rw [hindexOffset]
      exact ⟨(hpack.bounds entry hentry).le_offset, (hpack.bounds entry hentry).end_le⟩
    · intro encodedHash
      refine ⟨panicFree_entry reader encodedHash, entry_isOk_iff hpack, fun entry hfound ↦ ?_⟩
      exact ((entry_eq_ok hpack.sorted).mp hfound).2
    · intro encodedHash failure hread
      rcases readEncoded_eq_error hpack hread with hinvalid | hmissing | hmismatch
      · exact .inl hinvalid
      · exact .inr (.inl hmissing)
      · obtain ⟨entry, -, rfl, hactual, hfailure⟩ := hmismatch
        exact .inr (.inr ⟨_, hactual, hfailure⟩)

/-- The pack of a chunk without bytes is accepted, with a sound index. -/
theorem parse_sound_emptyChunkPack :
    ∃ reader, parse sampleHash emptyChunkPack = .ok reader ∧
      reader.entries.Pairwise DisjointRanges := by
  have hsome : (parse sampleHash emptyChunkPack).toOption.isSome = true := by
    decide +kernel
  obtain ⟨reader, hreader⟩ := Option.isSome_iff_exists.mp hsome
  rw [toOption_eq_some] at hreader
  obtain ⟨-, -, hsound⟩ := parse_sound sampleHash emptyChunkPack
  obtain ⟨-, -, hdisjoint, -⟩ := hsound reader hreader
  exact ⟨reader, hreader, hdisjoint⟩

end PackReader

end GameLauncher.Packs
