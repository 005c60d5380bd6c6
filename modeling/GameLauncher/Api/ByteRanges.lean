import Mathlib.Data.FinEnum
import GameLauncher.Api.Resolution
import GameLauncher.Foundation.Occurrences
import GameLauncher.Foundation.PrefixCode
import GameLauncher.Foundation.Utf8

/-!
# Byte ranges of packs

`parseSingleByteRange` reads the range header of a download and `getPack` serves the range.

The numbers are read by `u64::from_str`, which takes a plus sign before the digits. Apart from
headers with such a number, the accepted headers are those of the grammar (`servesExactly_iff`).
-/

set_option autoImplicit false

namespace GameLauncher.Api

open Foundation Fallible Catalog List

/-! ### The header -/

/-- `ApiResponseError::range_not_satisfiable`. -/
def ApiResponseError.rangeNotSatisfiable : ApiResponseError where
  status := 416
  code := "range_not_satisfiable"
  message := "the requested byte range is not satisfiable"
  retryAfterSeconds := none

/-- A character that the text of a header value may have. -/
def IsVisible (c : Char) : Prop := 32 ≤ c.toNat ∧ c.toNat < 127 ∨ c.toNat = 9

instance (c : Char) : Decidable (IsVisible c) :=
  inferInstanceAs (Decidable (32 ≤ c.toNat ∧ c.toNat < 127 ∨ c.toNat = 9))

/-- `HeaderValue::to_str`. -/
def toStr (value : Bytes) : Option Text :=
  if ∀ byte ∈ value, 32 ≤ byte.toNat ∧ byte.toNat < 127 ∨ byte.toNat = 9 then
    some (value.map fun byte ↦ Char.ofNat byte.toNat)
  else none

/-- `u64::from_str`. -/
def parseU64 : Text → Option ℕ
  | '+' :: digits => (parseDigits digits).filter (· < u64Size)
  | digits => (parseDigits digits).filter (· < u64Size)

def parseSingleByteRange (value : Bytes) (size : ℕ) : Except ApiResponseError (ℕ × ℕ) := do
  let text ← orThrow (toStr value) .rangeNotSatisfiable
  let spec ← orThrow ((text.dropPrefix? "bytes=").filter fun spec ↦ !spec.contains ',')
    .rangeNotSatisfiable
  throwIf (size = 0) .rangeNotSatisfiable
  let (start, stop) ← orThrow (splitOnce '-' spec) .rangeNotSatisfiable
  if start = [] then
    let suffix ← orThrow ((parseU64 stop).filter (0 < ·)) .rangeNotSatisfiable
    return (size - suffix, size - 1)
  let first ← orThrow ((parseU64 start).filter (· < size)) .rangeNotSatisfiable
  let last ← if stop = [] then pure (size - 1) else
    orThrow (((parseU64 stop).filter (first ≤ ·)).map (min · (size - 1))) .rangeNotSatisfiable
  return (first, last)

/-! ### The download -/

/-- The file of a pack. Its length is the `u64` of its metadata. -/
structure PackFile where
  bytes : Bytes
  length_lt : bytes.length < u64Size

inductive PackEntry
  | directory
  | file (pack : PackFile)

/-- The part of `LocalStorage` that serves packs. -/
structure LocalPacks where
  tier : StorageClass
  entry : Text → Option PackEntry

structure PackResponse where
  status : ℕ
  contentLength : ℕ
  contentRange : Option Text
  body : Bytes

/-- `LocalStorage::read_pack_range_stream`: what the stream yields. -/
def PackFile.readRange (pack : PackFile) (offset length : ℕ) : Bytes :=
  (pack.bytes.drop offset).take length

def getPack (localStorage : Option LocalPacks) (packHash : Text) (range : Option Bytes) :
    Fallible ApiResponseError PackResponse := do
  rejectIf (isLowercaseContentHash packHash = false)
    (.badRequest "pack hash must be 64 lowercase hexadecimal characters")
  let storage ← okOr localStorage (.notFound "local pack proxy")
  rejectIf (storage.tier ≠ .hot) (.notFound "hot pack proxy")
  rejectIf (isStorageHash packHash = false) (.notFound "local pack proxy")
  match storage.entry packHash with
  | some (.file pack) =>
    let size := pack.bytes.length
    match range with
    | some header => do
      let (start, stop) ← (parseSingleByteRange header size).mapError .error
      panicIf (stop < start)
      panicIf (u64Size ≤ stop - start + 1)
      let length := stop - start + 1
      return { status := 206
               contentLength := length
               contentRange := some ("bytes " ++ decimal start ++ '-' :: decimal stop ++
                 '/' :: decimal size)
               body := pack.readRange start length }
    | none => return ⟨200, size, none, pack.bytes⟩
  | _ => .error (.error (.notFound "local pack"))

/-! ### Ranges -/

inductive Range
  | closed (first last : ℕ)
  | openEnded (first : ℕ)
  | suffix (length : ℕ)

variable {range : Range}

namespace Range

/-- Can the range be served from so many bytes? -/
def Satisfiable (size : ℕ) : Range → Prop
  | closed first last => first < size ∧ first ≤ last ∧ last < u64Size
  | openEnded first => first < size
  | suffix length => 0 < length ∧ length < u64Size ∧ 0 < size

def Covers (size : ℕ) (range : Range) (position : ℕ) : Prop :=
  match range with
  | closed first last => first ≤ position ∧ position ≤ last ∧ position < size
  | openEnded first => first ≤ position ∧ position < size
  | suffix length => position < size ∧ size ≤ position + length

def bounds (size : ℕ) : Range → ℕ × ℕ
  | closed first last => (first, min last (size - 1))
  | openEnded first => (first, size - 1)
  | suffix length => (size - length, size - 1)

theorem Satisfiable.covers_iff {size : ℕ} (h : range.Satisfiable size) :
    (range.bounds size).1 ≤ (range.bounds size).2 ∧ (range.bounds size).2 < size ∧
      ∀ position, range.Covers size position ↔
        (range.bounds size).1 ≤ position ∧ position ≤ (range.bounds size).2 := by
  cases range with
  | closed _ _ | openEnded _ | suffix _ =>
    unfold Satisfiable at h
    simp only [bounds, Covers]
    refine ⟨?_, ?_, fun position ↦ ?_⟩ <;> omega

end Range

/-- The text of a number, with a plus sign or without one. -/
inductive NumberText : Bool → Text → ℕ → Prop
  | digits {text : Text} {value : ℕ} (h : parseDigits text = some value) :
      NumberText false text value
  | signed {text : Text} {value : ℕ} (h : parseDigits text = some value) :
      NumberText true ('+' :: text) value

/-- The text of a header with a range, and whether a number in it has a sign. The grammar allows no
sign. -/
inductive RangeText : Bool → Text → Range → Prop
  | closed {firstSigned lastSigned : Bool} {start stop : Text} {first last : ℕ}
      (hfirst : NumberText firstSigned start first) (hlast : NumberText lastSigned stop last) :
      RangeText (firstSigned || lastSigned) ("bytes=" ++ (start ++ '-' :: stop))
        (.closed first last)
  | openEnded {signed : Bool} {start : Text} {first : ℕ} (hfirst : NumberText signed start first) :
      RangeText signed ("bytes=" ++ (start ++ '-' :: [])) (.openEnded first)
  | suffix {signed : Bool} {stop : Text} {length : ℕ} (hlength : NumberText signed stop length) :
      RangeText signed ("bytes=".toList ++ ([] ++ '-' :: stop)) (.suffix length)

/-- A header value with a range that can be served. -/
def Requests (signed : Bool) (value : Bytes) (size : ℕ) (range : Range) : Prop :=
  ∃ text, value = utf8 text ∧ RangeText signed text range ∧ range.Satisfiable size

/-! ### The texts of ranges -/

variable {text : Text} {signed : Bool} {value : Bytes}

theorem isDigit_of_parseDigits {value : ℕ} (h : parseDigits text = some value) :
    text ≠ [] ∧ ∀ c ∈ text, c.isDigit = true := by
  unfold parseDigits at h
  split_ifs at h with hdigits
  exact ⟨hdigits.1, all_eq_true.mp hdigits.2⟩

theorem digit_facts {c : Char} (h : c.isDigit = true) :
    IsVisible c ∧ c ≠ '+' ∧ c ≠ '-' ∧ c ≠ ',' := by
  have hcode : c.toNat = c.val.toNat := rfl
  have hzero : '0'.val.toNat = 48 := rfl
  have hnine : '9'.val.toNat = 57 := rfl
  refine ⟨.inl ?_, ?_, ?_, ?_⟩
  · simp only [Char.isDigit, Bool.and_eq_true, decide_eq_true_eq, UInt32.le_iff_toNat_le] at h
    omega
  all_goals
    rintro rfl
    exact absurd h (by decide)

theorem NumberText.facts {value : ℕ} (h : NumberText signed text value) :
    text ≠ [] ∧ (∀ c ∈ text, IsVisible c ∧ c ≠ '-' ∧ c ≠ ',') ∧ (signed = true ↔ '+' ∈ text) := by
  cases h with
  | digits h =>
    obtain ⟨hne, hdigits⟩ := isDigit_of_parseDigits h
    refine ⟨hne, fun c hc ↦ ?_, iff_of_false Bool.false_ne_true fun hplus ↦ ?_⟩
    · exact (digit_facts (hdigits c hc)).imp_right And.right
    · exact (digit_facts (hdigits '+' hplus)).2.1 rfl
  | signed h =>
    obtain ⟨-, hdigits⟩ := isDigit_of_parseDigits h
    refine ⟨cons_ne_nil _ _, fun c hc ↦ ?_, iff_of_true rfl mem_cons_self⟩
    rcases mem_cons.mp hc with rfl | hc
    · exact ⟨.inl (by decide), by decide, by decide⟩
    · exact (digit_facts (hdigits c hc)).imp_right And.right

theorem parseU64_eq_some {value : ℕ} :
    parseU64 text = some value ↔ (∃ signed, NumberText signed text value) ∧ value < u64Size := by
  constructor
  · intro h
    unfold parseU64 at h
    split at h
    · obtain ⟨hdigits, hvalue⟩ := Option.filter_eq_some_iff.mp h
      exact ⟨⟨true, .signed hdigits⟩, of_decide_eq_true hvalue⟩
    · obtain ⟨hdigits, hvalue⟩ := Option.filter_eq_some_iff.mp h
      exact ⟨⟨false, .digits hdigits⟩, of_decide_eq_true hvalue⟩
  · rintro ⟨⟨signed, htext⟩, hvalue⟩
    cases htext with
    | digits h =>
      have hplain : ∀ digits, text ≠ '+' :: digits := by
        rintro digits rfl
        exact (digit_facts ((isDigit_of_parseDigits h).2 '+' mem_cons_self)).2.1 rfl
      rw [parseU64, h, Option.filter_some, if_pos (decide_eq_true hvalue)]
      exact hplain
    | signed h => rw [parseU64, h, Option.filter_some, if_pos (decide_eq_true hvalue)]

theorem RangeText.facts (h : RangeText signed text range) :
    (∀ c ∈ text, IsVisible c) ∧ (signed = true ↔ '+' ∈ text) := by
  have hbytes : ∀ c ∈ "bytes=".toList, IsVisible c ∧ c ≠ '+' := forall_mem_of_all (by decide)
  have hdash : IsVisible '-' := .inl (by decide)
  cases h with
  | @closed firstSigned lastSigned start stop first last hfirst hlast =>
    obtain ⟨-, hfirstVisible, hfirstSign⟩ := hfirst.facts
    obtain ⟨-, hlastVisible, hlastSign⟩ := hlast.facts
    constructor
    · intro c hc
      simp only [mem_append, mem_cons] at hc
      rcases hc with hc | hc | rfl | hc
      · exact (hbytes c hc).1
      · exact (hfirstVisible c hc).1
      · exact hdash
      · exact (hlastVisible c hc).1
    · rw [Bool.or_eq_true, hfirstSign, hlastSign]
      simp
  | @openEnded signed start first hfirst =>
    obtain ⟨-, hfirstVisible, hfirstSign⟩ := hfirst.facts
    constructor
    · intro c hc
      simp only [mem_append, mem_cons, not_mem_nil, or_false] at hc
      rcases hc with hc | hc | rfl
      · exact (hbytes c hc).1
      · exact (hfirstVisible c hc).1
      · exact hdash
    · rw [hfirstSign]
      simp
  | @suffix signed stop length hlength =>
    obtain ⟨-, hlengthVisible, hlengthSign⟩ := hlength.facts
    constructor
    · intro c hc
      simp only [mem_append, mem_cons, not_mem_nil, false_or] at hc
      rcases hc with hc | rfl | hc
      · exact (hbytes c hc).1
      · exact hdash
      · exact (hlengthVisible c hc).1
    · rw [hlengthSign]
      simp

theorem toStr_eq_some : toStr value = some text ↔ value = utf8 text ∧ ∀ c ∈ text, IsVisible c := by
  have hascii {c : Char} (h : IsVisible c) : IsAscii c := by
    unfold IsVisible at h
    unfold IsAscii
    omega
  unfold toStr
  constructor
  · intro h
    split_ifs at h with hall
    obtain rfl := Option.some.inj h
    have hcode : ∀ byte ∈ value, (Char.ofNat byte.toNat).toNat = byte.toNat := by
      intro byte hbyte
      have hrange := hall byte hbyte
      rw [Char.ofNat, dif_pos (.inl (by omega))]
      rfl
    have hvisible : ∀ c ∈ value.map fun byte ↦ Char.ofNat byte.toNat, IsVisible c := by
      intro c hc
      obtain ⟨byte, hbyte, rfl⟩ := mem_map.mp hc
      rw [IsVisible, hcode byte hbyte]
      exact hall byte hbyte
    refine ⟨?_, hvisible⟩
    rw [utf8_of_ascii fun c hc ↦ hascii (hvisible c hc), map_map]
    refine ((map_congr_left fun byte hbyte ↦ ?_).trans (map_id value)).symm
    rw [Function.comp_apply, hcode byte hbyte, UInt8.ofNat_toNat]
    rfl
  · rintro ⟨rfl, hvisible⟩
    have hcode : ∀ c ∈ text, (UInt8.ofNat c.toNat).toNat = c.toNat := fun c hc ↦
      toNat_ofNat_of_lt (lt_trans (hascii (hvisible c hc)) (by decide))
    have hall : ∀ byte ∈ utf8 text, 32 ≤ byte.toNat ∧ byte.toNat < 127 ∨ byte.toNat = 9 := by
      intro byte hbyte
      rw [utf8_of_ascii fun c hc ↦ hascii (hvisible c hc)] at hbyte
      obtain ⟨c, hc, rfl⟩ := mem_map.mp hbyte
      rw [hcode c hc]
      exact hvisible c hc
    rw [if_pos hall, utf8_of_ascii fun c hc ↦ hascii (hvisible c hc), map_map]
    refine congrArg some ((map_congr_left fun c hc ↦ ?_).trans (map_id text))
    rw [Function.comp_apply, hcode c hc, Char.ofNat_toNat]
    rfl

/-! ### What is accepted -/

theorem splitOnce_rangeText (h : RangeText signed text range) :
    ∃ start stop, splitOnce '-' (start ++ '-' :: stop) = some (start, stop) ∧
      text = "bytes=".toList ++ (start ++ '-' :: stop) ∧ ',' ∉ start ++ '-' :: stop ∧
      ((start = [] ∧ ∃ length, NumberText signed stop length ∧ range = .suffix length) ∨
        ∃ first firstSigned, NumberText firstSigned start first ∧
          ((stop = [] ∧ range = .openEnded first) ∨
            ∃ last lastSigned, NumberText lastSigned stop last ∧ range = .closed first last)) := by
  have hcomma {start stop : Text} (hstart : ∀ c ∈ start, c ≠ ',') (hstop : ∀ c ∈ stop, c ≠ ',') :
      ',' ∉ start ++ '-' :: stop := by
    simp only [mem_append, mem_cons, not_or]
    exact ⟨fun hc ↦ hstart ',' hc rfl, by decide, fun hc ↦ hstop ',' hc rfl⟩
  have hnone : ∀ c ∈ ([] : Text), c ≠ ',' := fun _ hc ↦ absurd hc not_mem_nil
  cases h with
  | @closed firstSigned lastSigned start stop first last hfirst hlast =>
    refine ⟨start, stop, splitOnce_append stop fun hc ↦ (hfirst.facts.2.1 _ hc).2.1 rfl, rfl,
      hcomma (fun c hc ↦ (hfirst.facts.2.1 c hc).2.2) fun c hc ↦ (hlast.facts.2.1 c hc).2.2, ?_⟩
    exact .inr ⟨first, firstSigned, hfirst, .inr ⟨last, lastSigned, hlast, rfl⟩⟩
  | @openEnded signed start first hfirst =>
    refine ⟨start, [], splitOnce_append [] fun hc ↦ (hfirst.facts.2.1 _ hc).2.1 rfl, rfl,
      hcomma (fun c hc ↦ (hfirst.facts.2.1 c hc).2.2) hnone, ?_⟩
    exact .inr ⟨first, signed, hfirst, .inl ⟨rfl, rfl⟩⟩
  | @suffix signed stop length hlength =>
    refine ⟨[], stop, splitOnce_append stop not_mem_nil, rfl,
      hcomma hnone fun c hc ↦ (hlength.facts.2.1 c hc).2.2, ?_⟩
    exact .inl ⟨rfl, length, hlength, rfl⟩

theorem parseSingleByteRange_eq_ok {size : ℕ} (hsize : size < u64Size) {bounds : ℕ × ℕ} :
    parseSingleByteRange value size = .ok bounds ↔
      ∃ signed range, Requests signed value size range ∧ range.bounds size = bounds := by
  constructor
  · intro h
    simp only [parseSingleByteRange, bind_eq_ok, orThrow_eq_ok, throwIf_eq_ok] at h
    obtain ⟨text, htext, spec, hspec, -, hpositive, ⟨start, stop⟩, hcut, hbounds⟩ := h
    obtain ⟨hvalue, -⟩ := toStr_eq_some.mp htext
    obtain ⟨hinitial, -⟩ := Option.filter_eq_some_iff.mp hspec
    obtain ⟨front, hsplit, hfront⟩ := List.dropPrefix?_eq_some_iff.mp hinitial
    obtain rfl := eq_of_beq hfront
    subst hsplit
    obtain rfl := eq_append_of_splitOnce hcut
    by_cases hstart : start = []
    · subst hstart
      simp only [if_true, bind_eq_ok, orThrow_eq_ok, pure_eq_ok] at hbounds
      obtain ⟨length, hlength, rfl⟩ := hbounds
      obtain ⟨hnumber, hnonzero⟩ := Option.filter_eq_some_iff.mp hlength
      obtain ⟨⟨signed, hnumber⟩, hlimit⟩ := parseU64_eq_some.mp hnumber
      exact ⟨signed, .suffix length, ⟨_, hvalue, .suffix hnumber,
        of_decide_eq_true hnonzero, hlimit, Nat.pos_of_ne_zero hpositive⟩, rfl⟩
    · simp only [hstart, if_false, bind_eq_ok, orThrow_eq_ok] at hbounds
      obtain ⟨first, hfirst, hlast⟩ := hbounds
      obtain ⟨hnumber, hinside⟩ := Option.filter_eq_some_iff.mp hfirst
      obtain ⟨⟨firstSigned, hnumber⟩, -⟩ := parseU64_eq_some.mp hnumber
      by_cases hstop : stop = []
      · subst hstop
        have hbelow : first < size := of_decide_eq_true hinside
        exact ⟨firstSigned, .openEnded first, ⟨_, hvalue, .openEnded hnumber, hbelow⟩,
          Except.ok.inj hlast⟩
      · simp only [hstop, if_false, bind_eq_ok, orThrow_eq_ok, Option.map_eq_some_iff, pure_eq_ok]
          at hlast
        obtain ⟨last, ⟨written, hwritten, rfl⟩, rfl⟩ := hlast
        obtain ⟨hother, horder⟩ := Option.filter_eq_some_iff.mp hwritten
        obtain ⟨⟨lastSigned, hother⟩, hlimit⟩ := parseU64_eq_some.mp hother
        exact ⟨_, .closed first written, ⟨_, hvalue, .closed hnumber hother,
          of_decide_eq_true hinside, of_decide_eq_true horder, hlimit⟩, rfl⟩
  · rintro ⟨signed, range, ⟨text, rfl, htext, hrange⟩, rfl⟩
    obtain ⟨start, stop, hcut, hsplit, hcomma, hcases⟩ := splitOnce_rangeText htext
    have hread : toStr (utf8 text) = some text := toStr_eq_some.mpr ⟨rfl, htext.facts.1⟩
    have hinitial : (text.dropPrefix? "bytes=".toList).filter (fun spec ↦ !spec.contains ',') =
        some (start ++ '-' :: stop) := by
      rw [hsplit, List.dropPrefix?_append_of_beq _ (beq_self_eq_true _), Option.filter_some,
        if_pos (by simpa using hcomma)]
    have hpositive : ¬ size = 0 := by
      have hbelow := hrange.covers_iff.2.1
      omega
    rw [parseSingleByteRange, hread, orThrow, ok_bind, hinitial, orThrow, ok_bind, throwIf,
      if_neg hpositive, ok_bind, hcut, orThrow, ok_bind]
    dsimp only
    rcases hcases with ⟨rfl, length, hlength, rfl⟩ | ⟨first, firstSigned, hfirst, hstop⟩
    · have hparse : (parseU64 stop).filter (0 < ·) = some length := by
        rw [parseU64_eq_some.mpr ⟨⟨_, hlength⟩, hrange.2.1⟩, Option.filter_some,
          if_pos (decide_eq_true hrange.1)]
      rw [if_pos rfl, hparse]
      rfl
    · have hinside : first < size := by
        rcases hstop with ⟨-, rfl⟩ | ⟨last, lastSigned, -, rfl⟩
        · exact hrange
        · exact hrange.1
      have hparse : (parseU64 start).filter (· < size) = some first := by
        rw [parseU64_eq_some.mpr ⟨⟨_, hfirst⟩, hinside.trans hsize⟩, Option.filter_some,
          if_pos (decide_eq_true hinside)]
      rw [if_neg hfirst.facts.1, hparse, orThrow, ok_bind]
      rcases hstop with ⟨rfl, rfl⟩ | ⟨last, lastSigned, hlast, rfl⟩
      · rfl
      · have hother : ((parseU64 stop).filter (first ≤ ·)).map (min · (size - 1)) =
            some (min last (size - 1)) := by
          rw [parseU64_eq_some.mpr ⟨⟨_, hlast⟩, hrange.2.2⟩, Option.filter_some,
            if_pos (decide_eq_true hrange.2.1), Option.map_some]
        rw [if_neg hlast.facts.1, hother]
        rfl

/-! ### What is served -/

/-- The parser accepts what the grammar allows and nothing else, and the download of a file of that
size yields the positions of the range. -/
structure ServesExactly (value : Bytes) (size : ℕ) : Prop where
  accepts : ∀ range, Requests false value size range →
    ∃ bounds, parseSingleByteRange value size = .ok bounds
  sound : ∀ start stop, parseSingleByteRange value size = .ok (start, stop) →
    start ≤ stop ∧ stop < size ∧ stop - start + 1 < u64Size ∧
      (∃ range, Requests false value size range ∧
        ∀ position, range.Covers size position ↔ start ≤ position ∧ position ≤ stop) ∧
      ∀ (storage : LocalPacks) (packHash : Text) (pack : PackFile),
        isLowercaseContentHash packHash = true → storage.tier = .hot →
        storage.entry packHash = some (.file pack) → pack.bytes.length = size →
        ∃ response, getPack (some storage) packHash (some value) = .ok response ∧
          response.status = 206 ∧ response.contentLength = stop - start + 1 ∧
          response.body.length = stop - start + 1 ∧
          ∀ offset ≤ stop - start, response.body[offset]? = pack.bytes[start + offset]?

theorem getPack_range {storage : LocalPacks} {packHash : Text} {pack : PackFile} {start stop : ℕ}
    (hhash : isLowercaseContentHash packHash = true) (htier : storage.tier = .hot)
    (hentry : storage.entry packHash = some (.file pack))
    (hparse : parseSingleByteRange value pack.bytes.length = .ok (start, stop))
    (horder : start ≤ stop) (hstop : stop < pack.bytes.length) :
    ∃ response, getPack (some storage) packHash (some value) = .ok response ∧
      response.status = 206 ∧ response.contentLength = stop - start + 1 ∧
      response.body.length = stop - start + 1 ∧
      ∀ offset ≤ stop - start, response.body[offset]? = pack.bytes[start + offset]? := by
  have hlimit := pack.length_lt
  have hstorage := isStorageHash_of_isLowercaseContentHash hhash
  refine ⟨⟨206, stop - start + 1, some ("bytes " ++ decimal start ++ '-' :: decimal stop ++
    '/' :: decimal pack.bytes.length), pack.readRange start (stop - start + 1)⟩, ?_, rfl, rfl, ?_,
    fun offset hoffset ↦ ?_⟩
  · rw [getPack, rejectIf, throwIf, if_neg (by simp [hhash]), ok_bind, okOr, orThrow, ok_bind,
      rejectIf, throwIf, if_neg (by simp [htier]), ok_bind, rejectIf, throwIf,
      if_neg (by simp [hstorage]), ok_bind, hentry]
    dsimp only
    rw [hparse]
    simp only [Except.mapError, ok_bind, panicIf, throwIf, if_neg (not_lt.mpr horder),
      if_neg (show ¬ u64Size ≤ stop - start + 1 by omega)]
    rfl
  · simp only [PackFile.readRange, length_take, length_drop]
    omega
  · simp only [PackFile.readRange]
    rw [List.getElem?_take, if_pos (by omega), List.getElem?_drop]

/-- Ranges are parsed by the grammar and served exactly, unless a range that could be served is
written with a plus sign before a number. -/
theorem servesExactly_iff {value : Bytes} {size : ℕ} (hsize : size < u64Size) :
    ServesExactly value size ↔ ¬ ∃ range, Requests true value size range := by
  constructor
  · rintro hexact ⟨range, hrange⟩
    have hparse := (parseSingleByteRange_eq_ok hsize).mpr ⟨true, range, hrange, rfl⟩
    obtain ⟨-, -, -, ⟨other, ⟨text, hvalue, hplain, -⟩, -⟩, -⟩ := hexact.sound _ _ hparse
    obtain ⟨signedText, hsigned, htext, -⟩ := hrange
    have hsame : text = signedText := by
      rw [← fromUtf8Lossy_utf8 text, ← hvalue, hsigned, fromUtf8Lossy_utf8]
    subst hsame
    exact absurd (hplain.facts.2.mpr (htext.facts.2.mp rfl)) Bool.false_ne_true
  · intro hunsigned
    refine ⟨fun range hrange ↦ ⟨_, (parseSingleByteRange_eq_ok hsize).mpr
      ⟨false, range, hrange, rfl⟩⟩, fun start stop hparse ↦ ?_⟩
    obtain ⟨signed, range, hrange, hbounds⟩ := (parseSingleByteRange_eq_ok hsize).mp hparse
    cases signed with
    | true => exact absurd ⟨range, hrange⟩ hunsigned
    | false =>
      obtain ⟨text, hvalue, htext, hsatisfiable⟩ := hrange
      obtain ⟨horder, hstop, hcovers⟩ := hsatisfiable.covers_iff
      rw [hbounds] at horder hstop hcovers
      refine ⟨horder, hstop, by omega, ⟨range, ⟨text, hvalue, htext, hsatisfiable⟩, hcovers⟩, ?_⟩
      rintro storage packHash pack hhash htier hentry rfl
      exact getPack_range hhash htier hentry hparse horder hstop

/-- A suffix without a sign is served exactly. -/
theorem suffix_served_exactly : ServesExactly (utf8 "bytes=-10") 100 := by
  have hplain : ¬ ∃ range, Requests true (utf8 "bytes=-10") 100 range := by
    rintro ⟨range, text, hvalue, htext, -⟩
    have hsame : "bytes=-10" = text := by
      rw [← fromUtf8Lossy_utf8 text, ← hvalue, fromUtf8Lossy_utf8]
    subst hsame
    exact absurd (htext.facts.2.mp rfl) (by decide)
  exact (servesExactly_iff (by decide)).mpr hplain

/-- A header whose first number has a plus sign is accepted. -/
theorem plus_sign_accepted : ¬ ServesExactly (utf8 "bytes=+10-19") 100 := by
  intro hexact
  have hparse : parseSingleByteRange (utf8 "bytes=+10-19") 100 = .ok (10, 19) := by
    decide +kernel
  obtain ⟨-, -, -, ⟨range, ⟨text, hvalue, htext, -⟩, -⟩, -⟩ := hexact.sound _ _ hparse
  have hsame : "bytes=+10-19" = text := by
    rw [← fromUtf8Lossy_utf8 text, ← hvalue, fromUtf8Lossy_utf8]
  subst hsame
  exact absurd (htext.facts.2.mpr (by decide)) Bool.false_ne_true

end GameLauncher.Api
