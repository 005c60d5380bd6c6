import Mathlib.Data.List.MinMax
import Mathlib.Data.List.Nodup
import Mathlib.Data.Prod.Lex
import Mathlib.Data.Rat.Lemmas
import Mathlib.Data.Sum.Order
import GameLauncher.Foundation.Fallible
import GameLauncher.Foundation.Segments
import GameLauncher.Foundation.Text

/-!
# The choice of a release

Without a target, `_select_release` takes the release with the greatest key: the parts of its
version, as numbers where they are digits and as text elsewhere, then its confidence and its id.
The keys are linearly ordered, so that the choice does not depend on the order of the releases.

A part whose characters are digits is read by `int`, which raises for a digit without a decimal
value, such as a superscript, and for more than 4300 digits. `selectsMaximum_iff` says that nothing
else goes wrong.
-/

set_option autoImplicit false

namespace GameLauncher.Scraper.ReleaseChoice

open Foundation Fallible List

/-- What Python's library knows of characters and text. -/
structure PythonText where
  isDigit : Char → Bool
  decimal : Char → Option ℕ
  casefold : Text → Text
  ascii_digit : ∀ c : Char, 48 ≤ c.toNat → c.toNat ≤ 57 →
    isDigit c = true ∧ decimal c = some (c.toNat - 48)

/-- The fields of a release that the choice reads. -/
structure ReleaseCandidate where
  sourceReleaseId : Text
  version : Text
  confidence : ℚ
  deriving DecidableEq, Repr

/-- `ValueError`, the only exception of the choice. -/
inductive ChoiceError
  | valueError
  deriving DecidableEq, Repr

/-! ### Keys -/

/-- The key of a version: nothing for an unknown one, or its parts. -/
abbrev VersionKey := WithBot (List (ℕ ⊕ₗ Text))

def ReleaseKey := VersionKey ×ₗ ℚ ×ₗ Text

def ReleaseKey.of (version : VersionKey) (confidence : ℚ) (sourceReleaseId : Text) : ReleaseKey :=
  toLex (version, toLex (confidence, sourceReleaseId))

instance : LinearOrder ReleaseKey := inferInstanceAs (LinearOrder (VersionKey ×ₗ ℚ ×ₗ Text))

section

variable (python : PythonText)

/-- `int` of a text of digits. -/
def pythonInt (part : Text) : Except ChoiceError ℕ := do
  throwIf (4300 < part.length) .valueError
  let digits ← part.mapM fun c ↦ orThrow (python.decimal c) .valueError
  return digits.foldl (fun value digit ↦ 10 * value + digit) 0

/-- `str.isdigit`. -/
def pythonIsDigit (part : Text) : Bool := !part.isEmpty && part.all python.isDigit

def partKey (part : Text) : Except ChoiceError (ℕ ⊕ₗ Text) :=
  if pythonIsDigit python part then (pythonInt python part).map fun number ↦ toLex (.inl number)
  else .ok (toLex (.inr (python.casefold part)))

def isVersionSeparator (c : Char) : Bool := ".+-".toList.contains c

/-- `lstrip("vV")`. -/
def withoutV (version : Text) : Text := version.dropWhile fun c ↦ c == 'v' || c == 'V'

def versionParts (version : Text) : List Text := (withoutV version).splitOnP isVersionSeparator

def versionKey (version : Text) : Except ChoiceError VersionKey :=
  if version = "unknown" then .ok ⊥
  else ((versionParts version).mapM (partKey python)).map WithBot.some

/-- The key of `max` in `_select_release`. -/
def releaseKey (release : ReleaseCandidate) : Except ChoiceError ReleaseKey := do
  let version ← versionKey python release.version
  return .of version release.confidence release.sourceReleaseId

def selectRelease (releases : List ReleaseCandidate) (targetReleaseId : Option Text) :
    Except ChoiceError (Option ReleaseCandidate) :=
  match targetReleaseId.filter (!·.isEmpty) with
  | some target => .ok (releases.find? fun release ↦
      release.sourceReleaseId == target || release.version == target)
  | none => do
    let keyed ← releases.mapM fun release ↦ do
      let key ← releaseKey python release
      return (key, release)
    let chosen ← orThrow (keyed.argmax Prod.fst) .valueError
    return some chosen.2

end

/-! ### What the choice should be -/

/-- The number that ASCII digits denote. -/
def numberOf (part : Text) : ℕ := part.foldl (fun value c ↦ 10 * value + (c.toNat - 48)) 0

structure Dotted (version : Text) (numbers : List ℕ) : Prop where
  digits : ∀ part ∈ (withoutV version).splitOn '.',
    part ≠ [] ∧ ∀ c ∈ part, 48 ≤ c.toNat ∧ c.toNat ≤ 57
  numbers_eq : numbers = ((withoutV version).splitOn '.').map numberOf

/-- The choice is the maximum of a linear order that has dotted numbers in their order and above
every unknown version, whatever the order of the releases. -/
def SelectsMaximum (python : PythonText) (releases : List ReleaseCandidate) : Prop :=
  ∃ rank : ReleaseCandidate → ReleaseKey, (∃ chosen ∈ releases, (∀ listed, listed.Perm releases →
        selectRelease python listed none = .ok (some chosen)) ∧
      ∀ other ∈ releases, other ≠ chosen → rank other < rank chosen) ∧
    ∀ first ∈ releases, ∀ numbers, Dotted first.version numbers → ∀ second ∈ releases,
      (second.version = "unknown" → rank second < rank first) ∧
      ∀ others, Dotted second.version others → (numbers < others → rank first < rank second)

/-- No part of a version is of digits that `int` does not read. -/
def Readable (python : PythonText) (version : Text) : Prop :=
  version = "unknown" ∨ ∀ part ∈ versionParts version, pythonIsDigit python part = true →
    part.length ≤ 4300 ∧ ∀ c ∈ part, (python.decimal c).isSome = true

variable {python : PythonText} {releases : List ReleaseCandidate}

/-! ### When the key is read -/

theorem mapM_isOk_iff {α β : Type} {items : List α} {f : α → Except ChoiceError β} :
    (∃ results, items.mapM f = .ok results) ↔ ∀ item ∈ items, ∃ result, f item = .ok result := by
  simp only [mapM_eq_ok]
  induction items with
  | nil => simp
  | cons item rest ih =>
    rw [forall_mem_cons, ← ih]
    constructor
    · rintro ⟨_, h⟩
      cases h with
      | cons hitem hrest => exact ⟨⟨_, hitem⟩, _, hrest⟩
    · rintro ⟨⟨result, hitem⟩, results, hrest⟩
      exact ⟨_, .cons hitem hrest⟩

theorem map_isOk_iff {α β : Type} {outcome : Except ChoiceError α} {f : α → β} :
    (∃ result, outcome.map f = .ok result) ↔ ∃ value, outcome = .ok value := by
  cases outcome <;> simp [Except.map]

theorem pythonInt_isOk_iff {part : Text} : (∃ number, pythonInt python part = .ok number) ↔
    part.length ≤ 4300 ∧ ∀ c ∈ part, (python.decimal c).isSome = true := by
  have hdigits := @mapM_isOk_iff _ _ part fun c ↦ orThrow (python.decimal c) .valueError
  simp only [orThrow_eq_ok, ← Option.isSome_iff_exists] at hdigits
  simp only [pythonInt, bind_eq_ok, throwIf_eq_ok, pure_eq_ok, not_lt, exists_const, ← hdigits]
  constructor
  · rintro ⟨number, hlength, digits, hok, -⟩
    exact ⟨hlength, digits, hok⟩
  · rintro ⟨hlength, digits, hok⟩
    exact ⟨_, hlength, digits, hok, rfl⟩

theorem versionKey_isOk_iff {version : Text} :
    (∃ key, versionKey python version = .ok key) ↔ Readable python version := by
  unfold versionKey Readable
  split_ifs with hunknown
  · exact iff_of_true ⟨_, rfl⟩ (.inl hunknown)
  · rw [map_isOk_iff, mapM_isOk_iff, or_iff_right hunknown]
    refine forall₂_congr fun part _ ↦ ?_
    unfold partKey
    split_ifs with hdigit
    · rw [map_isOk_iff, pythonInt_isOk_iff]
      exact ⟨fun h _ ↦ h, fun h ↦ h hdigit⟩
    · exact iff_of_true ⟨_, rfl⟩ fun h ↦ absurd h hdigit

theorem releaseKey_isOk_iff {release : ReleaseCandidate} :
    (∃ key, releaseKey python release = .ok key) ↔ Readable python release.version := by
  rw [← versionKey_isOk_iff]
  simp only [releaseKey, bind_eq_ok, pure_eq_ok]
  constructor
  · rintro ⟨_, key, hkey, -⟩
    exact ⟨key, hkey⟩
  · rintro ⟨key, hkey⟩
    exact ⟨_, key, hkey, rfl⟩

/-! ### The order of dotted numbers -/

variable {version : Text} {numbers : List ℕ}

theorem Dotted.versionParts_eq (h : Dotted version numbers) :
    versionParts version = (withoutV version).splitOn '.' := by
  refine splitOnP_congr fun c hc ↦ ?_
  by_cases hdot : c = '.'
  · subst hdot
    rfl
  · obtain ⟨part, hpart, hmem⟩ := exists_mem_splitOn hc hdot
    have hcode := (h.digits part hpart).2 c hmem
    rw [beq_eq_false_iff_ne.mpr hdot]
    refine Bool.eq_false_iff.mpr fun hother ↦ ?_
    have hplain : ∀ c ∈ ".+-".toList, ¬ (48 ≤ c.toNat ∧ c.toNat ≤ 57) :=
      forall_mem_of_all (by decide)
    exact hplain c (contains_iff_mem.mp hother) hcode

theorem partKey_of_digits {part : Text}
    (h : part ≠ [] ∧ ∀ c ∈ part, 48 ≤ c.toNat ∧ c.toNat ≤ 57)
    (hread : pythonIsDigit python part = true →
      part.length ≤ 4300 ∧ ∀ c ∈ part, (python.decimal c).isSome = true) :
    partKey python part = .ok (toLex (.inl (numberOf part))) := by
  have hdigit : pythonIsDigit python part = true := by
    simp only [pythonIsDigit, Bool.and_eq_true, Bool.not_eq_true', isEmpty_eq_false_iff,
      all_eq_true]
    exact ⟨h.1, fun c hc ↦ (python.ascii_digit c (h.2 c hc).1 (h.2 c hc).2).1⟩
  have hdecimals : part.mapM (fun c ↦ orThrow (python.decimal c) ChoiceError.valueError) =
      .ok (part.map fun c ↦ c.toNat - 48) := by
    rw [mapM_eq_ok, forall₂_map_right_iff, forall₂_same]
    intro c hc
    exact orThrow_eq_ok.mpr (python.ascii_digit c (h.2 c hc).1 (h.2 c hc).2).2
  rw [partKey, if_pos hdigit, pythonInt, throwIf, if_neg (not_lt.mpr (hread hdigit).1), ok_bind,
    hdecimals, ok_bind, foldl_map]
  rfl

theorem Dotted.versionKey_eq (h : Dotted version numbers) (hread : Readable python version) :
    versionKey python version = .ok ((numbers.map (toLex ∘ Sum.inl) : List (ℕ ⊕ₗ Text)) :) := by
  have hknown : version ≠ "unknown" := by
    rintro rfl
    exact absurd ((h.digits "unknown" (by decide)).2 'u' (by decide)) (by decide)
  have hparts : (versionParts version).mapM (partKey python) =
      .ok (numbers.map (toLex ∘ Sum.inl)) := by
    rw [h.numbers_eq, map_map, ← h.versionParts_eq, mapM_eq_ok, forall₂_map_right_iff, forall₂_same]
    intro part hpart
    exact partKey_of_digits (h.digits part (h.versionParts_eq ▸ hpart))
      (hread.resolve_left hknown part hpart)
  rw [versionKey, if_neg hknown, hparts]
  rfl

/-! ### The choice -/

/-- The key, where there is one. -/
def rankOf (python : PythonText) (release : ReleaseCandidate) : ReleaseKey :=
  ((releaseKey python release).toOption).getD (.of ⊥ 0 [])

theorem releaseKey_eq {release : ReleaseCandidate} (h : Readable python release.version) :
    releaseKey python release = .ok (rankOf python release) := by
  obtain ⟨key, hkey⟩ := releaseKey_isOk_iff.mpr h
  rw [rankOf, hkey]
  rfl

theorem rankOf_eq {release : ReleaseCandidate} {key : VersionKey}
    (h : versionKey python release.version = .ok key) :
    rankOf python release = .of key release.confidence release.sourceReleaseId := by
  rw [rankOf, releaseKey, h]
  rfl

theorem rankOf_id {first second : ReleaseCandidate} (hfirst : Readable python first.version)
    (hsecond : Readable python second.version) (h : rankOf python first = rankOf python second) :
    first.sourceReleaseId = second.sourceReleaseId := by
  obtain ⟨key, hkey⟩ := versionKey_isOk_iff.mpr hfirst
  obtain ⟨other, hother⟩ := versionKey_isOk_iff.mpr hsecond
  rw [rankOf_eq hkey, rankOf_eq hother] at h
  exact congrArg (fun key : VersionKey ×ₗ ℚ ×ₗ Text ↦ (ofLex (ofLex key).2).2) h

theorem rankOf_lt {first second : ReleaseCandidate} {key other : VersionKey}
    (hfirst : versionKey python first.version = .ok key)
    (hsecond : versionKey python second.version = .ok other) (h : key < other) :
    rankOf python first < rankOf python second := by
  rw [rankOf_eq hfirst, rankOf_eq hsecond]
  exact Prod.Lex.toLex_lt_toLex.mpr (.inl h)

theorem readable_of_selectRelease {chosen : Option ReleaseCandidate}
    (h : selectRelease python releases none = .ok chosen) :
    ∀ release ∈ releases, Readable python release.version := by
  simp only [selectRelease, Option.filter_none, bind_eq_ok] at h
  obtain ⟨keyed, hkeyed, -⟩ := h
  intro release hrelease
  obtain ⟨entry, hentry⟩ := mapM_isOk_iff.mp ⟨keyed, hkeyed⟩ release hrelease
  obtain ⟨key, hkey, -⟩ := bind_eq_ok.mp hentry
  exact releaseKey_isOk_iff.mp ⟨key, hkey⟩

theorem selectRelease_eq (hread : ∀ release ∈ releases, Readable python release.version)
    (hne : releases ≠ []) : ∃ chosen ∈ releases,
      selectRelease python releases none = .ok (some chosen) ∧
      ∀ other ∈ releases, rankOf python other ≤ rankOf python chosen := by
  have hkeyed : releases.mapM (fun release ↦ do
      let key ← releaseKey python release
      return (key, release)) = .ok (releases.map fun release ↦ (rankOf python release, release)) := by
    rw [mapM_eq_ok, forall₂_map_right_iff, forall₂_same]
    intro release hrelease
    rw [releaseKey_eq (hread release hrelease)]
    rfl
  cases hargmax : (releases.map fun release ↦ (rankOf python release, release)).argmax Prod.fst with
  | none => exact absurd (map_eq_nil_iff.mp (argmax_eq_none.mp hargmax)) hne
  | some entry =>
    obtain ⟨chosen, hchosen, rfl⟩ := mem_map.mp (argmax_mem hargmax)
    refine ⟨chosen, hchosen, ?_, fun other hother ↦ ?_⟩
    · rw [selectRelease, Option.filter_none]
      dsimp only
      rw [hkeyed, ok_bind, hargmax]
      rfl
    · have hmem : (rankOf python other, other) ∈
          releases.map fun release ↦ (rankOf python release, release) :=
        mem_map.mpr ⟨other, hother, rfl⟩
      have hle : (rankOf python other, other).1 ≤ (rankOf python chosen, chosen).1 :=
        le_of_mem_argmax hmem hargmax
      exact hle

/-- **The choice is a maximum exactly when every version can be read.** For releases with distinct
ids: it raises nothing, does not depend on their order, and respects the order of dotted numbers, if
and only if no part of a version is of digits that `int` refuses. -/
theorem selectsMaximum_iff (python : PythonText) (releases : List ReleaseCandidate)
    (hne : releases ≠ []) (hids : (releases.map ReleaseCandidate.sourceReleaseId).Nodup) :
    SelectsMaximum python releases ↔ ∀ release ∈ releases, Readable python release.version := by
  constructor
  · rintro ⟨_, ⟨chosen, -, hchosen, -⟩, -⟩
    exact readable_of_selectRelease (hchosen releases (.refl _))
  intro hread
  obtain ⟨chosen, hchosen, -, hgreatest⟩ := selectRelease_eq hread hne
  have hsame {first second : ReleaseCandidate} (hfirst : first ∈ releases)
      (hsecond : second ∈ releases) (h : rankOf python first = rankOf python second) :
      first = second :=
    inj_on_of_nodup_map hids hfirst hsecond (rankOf_id (hread first hfirst) (hread second hsecond) h)
  refine ⟨rankOf python, ⟨chosen, hchosen, fun listed hlisted ↦ ?_, fun other hother hother_ne ↦ ?_⟩,
    fun first hfirst numbers hnumbers second hsecond ↦ ⟨fun hunknown ↦ ?_, fun others hothers hlt ↦ ?_⟩⟩
  · obtain ⟨found, hfound, hselect, hmax⟩ := selectRelease_eq
      (fun release hrelease ↦ hread release (hlisted.mem_iff.mp hrelease))
      (fun hnil ↦ hne (hnil ▸ hlisted).symm.eq_nil)
    have hmem := hlisted.mem_iff.mp hfound
    rw [hselect, hsame hmem hchosen (le_antisymm (hgreatest found hmem)
      (hmax chosen (hlisted.mem_iff.mpr hchosen)))]
  · exact lt_of_le_of_ne (hgreatest other hother) fun h ↦ hother_ne (hsame hother hchosen h)
  · refine rankOf_lt (by rw [versionKey, if_pos hunknown])
      (hnumbers.versionKey_eq (hread first hfirst)) (WithBot.bot_lt_coe _)
  · refine rankOf_lt (hnumbers.versionKey_eq (hread first hfirst))
      (hothers.versionKey_eq (hread second hsecond)) (WithBot.coe_lt_coe.mpr ?_)
    exact List.map_lt (fun _ _ h ↦ Sum.Lex.inl_strictMono h) hlt

/-- A library that knows ASCII and that the superscript two is a digit. -/
def samplePython : PythonText where
  isDigit c := (48 ≤ c.toNat && c.toNat ≤ 57) || c == '²'
  decimal c := if 48 ≤ c.toNat ∧ c.toNat ≤ 57 then some (c.toNat - 48) else none
  casefold text := text.map Char.toLower
  ascii_digit c hlow hhigh := by simp [hlow, hhigh]

def sampleRelease (id version : String) : ReleaseCandidate := ⟨id.toList, version.toList, 1 / 2⟩

theorem superscript_raises :
    selectRelease samplePython [sampleRelease "r1" "1.²"] none = .error .valueError ∧
      ¬ SelectsMaximum samplePython [sampleRelease "r1" "1.²"] := by
  have hraises : selectRelease samplePython [sampleRelease "r1" "1.²"] none = .error .valueError := by
    decide
  refine ⟨hraises, ?_⟩
  rintro ⟨_, ⟨chosen, -, hchosen, -⟩, -⟩
  have hok := hchosen _ (.refl _)
  rw [hraises] at hok
  cases hok

theorem selectsMaximum_two :
    SelectsMaximum samplePython [sampleRelease "r1" "1.9", sampleRelease "r2" "v1.10"] :=
  (selectsMaximum_iff samplePython _ (by decide) (by decide)).mpr (by
    have hread (version : Text) (h : ∀ part ∈ versionParts version, part.length ≤ 4300 ∧
        part.all (fun c ↦ (samplePython.decimal c).isSome) = true) : Readable samplePython version :=
      .inr fun part hpart _ ↦ ⟨(h part hpart).1, all_eq_true.mp (h part hpart).2⟩
    rw [forall_mem_cons, forall_mem_singleton]
    exact ⟨hread _ (by decide), hread _ (by decide)⟩)

end GameLauncher.Scraper.ReleaseChoice
