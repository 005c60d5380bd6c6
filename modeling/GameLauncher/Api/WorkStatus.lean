import GameLauncher.Foundation.Occurrences
import GameLauncher.Foundation.Unicode

/-!
# The public status of work

`PublicWorkStatusResponse::from` publishes the texts of a status of work. A text is refused when it
holds a slash, a backslash or a marked word, and what is published of it are the first of its
characters that are no control characters. `publishesClean_iff` says when nothing marked comes out:
the words are looked for before the control characters are left out, so that a word with a control
character inside gets through, and in an identifier they are not looked for at all.

Left out: `progress_percent`, a floating-point number.
-/

set_option autoImplicit false

namespace GameLauncher.Api

open Foundation List

/-! ### The response -/

structure WorkStatus where
  id : Text
  kind : Text
  state : Text
  game : Option Text
  version : Option Text
  provider : Option Text
  source : Option Text
  detail : Text
  bytesCompleted : Option ℕ
  bytesTotal : Option ℕ
  rateBytesPerSecond : Option ℕ
  createdAt : ℤ
  updatedAt : ℤ
  deriving DecidableEq, Repr

structure PublicWorkStatusResponse where
  id : Text
  kind : Text
  state : Text
  game : Option Text
  version : Option Text
  provider : Option Text
  source : Option Text
  detail : Text
  bytesCompleted : Option ℕ
  bytesTotal : Option ℕ
  rateBytesPerSecond : Option ℕ
  createdAt : ℤ
  updatedAt : ℤ
  deriving DecidableEq, Repr

/-- `char::is_control`: the general category Cc. -/
def isControl (c : Char) : Bool :=
  c.toNat ≤ 0x1f || (0x7f ≤ c.toNat && c.toNat ≤ 0x9f)

/-- `char::is_ascii_alphanumeric`, or one of the other characters of an identifier. -/
def isWorkIdChar (c : Char) : Bool := c.isAlphanum || "-_.".toList.contains c

def sanitizeWorkId (value : Text) : Text :=
  let sanitized := (value.filter isWorkIdChar).take 80
  if sanitized = [] then "work" else sanitized

/-- The words that `sanitize_public_value` looks for. -/
def markedWords : List Text :=
  ["bearer ", "token", "secret", "password"]

/-- The condition under which `sanitize_public_value` publishes nothing of a value. -/
def isRefused (value : Text) : Bool :=
  value.isEmpty || decide (4096 < (utf8 value).length) || decide ("://" <:+: value) ||
    value.any (fun c ↦ c == '/' || c == '\\') ||
    markedWords.any fun word ↦ decide (word <:+: toAsciiLowercase value)

def sanitizePublicValue (value : Option Text) (maxChars : ℕ) : Option Text := do
  let value ← value
  let value := trim value
  if isRefused value then none
  else
    let sanitized := (value.filter fun c ↦ !isControl c).take maxChars
    if sanitized = [] then none else some sanitized

def sanitizePublicDetail (value state : Text) : Text :=
  (sanitizePublicValue (some value) 160).getD
    (if state = "FAILED" then "Operation failed"
    else "Operation in progress")

/-- `PublicWorkStatusResponse::from`. -/
def PublicWorkStatusResponse.ofStatus (status : WorkStatus) : PublicWorkStatusResponse :=
  let state := (sanitizePublicValue (some status.state) 32).getD "WORKING"
  { id := sanitizeWorkId status.id
    kind := (sanitizePublicValue (some status.kind) 32).getD "WORK"
    state := state
    game := sanitizePublicValue status.game 160
    version := sanitizePublicValue status.version 96
    provider := sanitizePublicValue status.provider 96
    source := sanitizePublicValue status.source 96
    detail := sanitizePublicDetail status.detail state
    bytesCompleted := status.bytesCompleted
    bytesTotal := status.bytesTotal
    rateBytesPerSecond := status.rateBytesPerSecond
    createdAt := status.createdAt
    updatedAt := status.updatedAt }

/-! ### Clean texts -/

/-- A text that may be published. -/
structure IsClean (maxChars : ℕ) (text : Text) : Prop where
  control : ∀ c ∈ text, isControl c = false
  slash : '/' ∉ text
  backslash : '\\' ∉ text
  words : ∀ word ∈ markedWords, ¬ word <:+: toAsciiLowercase text
  length : text.length ≤ maxChars

/-- Every text of the response is one that may be published. -/
structure PublicWorkStatusResponse.IsClean (response : PublicWorkStatusResponse) : Prop where
  id : Api.IsClean 80 response.id
  kind : Api.IsClean 32 response.kind
  state : Api.IsClean 32 response.state
  game : ∀ game, response.game = some game → Api.IsClean 160 game
  version : ∀ version, response.version = some version → Api.IsClean 96 version
  provider : ∀ provider, response.provider = some provider → Api.IsClean 96 provider
  source : ∀ source, response.source = some source → Api.IsClean 96 source
  detail : Api.IsClean 160 response.detail

/-- A part of a text spells a word with its characters that are kept, ahead of a limit. -/
def Spells (kept : Char → Bool) (limit : ℕ) (word text spread : Text) : Prop :=
  ∃ before after, text = before ++ spread ++ after ∧ toAsciiLowercase (spread.filter kept) = word ∧
    (before.filter kept).length + word.length ≤ limit

/-- No part of an identifier spells a marked word with the characters that are kept. -/
def SpellsNoWord (id : Text) : Prop :=
  ∀ word ∈ markedWords, ¬ ∃ spread, Spells isWorkIdChar 80 word id spread

/-- A value is refused, or no part of it with a control character spells a marked word. -/
def HidesNoWord (maxChars : ℕ) (value : Text) : Prop :=
  isRefused (trim value) = false → ∀ word ∈ markedWords,
    ¬ ∃ spread, Spells (fun c ↦ !isControl c) maxChars word (trim value) spread ∧
      ∃ c ∈ spread, isControl c = true

theorem infix_toAsciiLowercase_iff (kept : Char → Bool) (limit : ℕ) (word text : Text) :
    word <:+: toAsciiLowercase ((text.filter kept).take limit) ↔
      ∃ spread, Spells kept limit word text spread := by
  unfold toAsciiLowercase Spells
  rw [infix_map_take_filter_iff]
  constructor
  · rintro ⟨before, spread, after, h⟩
    exact ⟨spread, before, after, h⟩
  · rintro ⟨spread, before, after, h⟩
    exact ⟨before, spread, after, h⟩

theorem isClean_default {text : Text}
    (h : text ∈ ["work".toList, "WORK".toList, "WORKING".toList, "Operation failed".toList,
      "Operation in progress".toList]) {maxChars : ℕ} (hlength : text.length ≤ maxChars) :
    IsClean maxChars text := by
  have hall : ∀ text ∈ ["work".toList, "WORK".toList, "WORKING".toList, "Operation failed".toList,
      "Operation in progress".toList], text.all (fun c ↦ !isControl c) = true ∧ '/' ∉ text ∧
        '\\' ∉ text ∧ ∀ word ∈ markedWords, ¬ word <:+: toAsciiLowercase text := by
    decide
  obtain ⟨hcontrol, hslash, hbackslash, hwords⟩ := hall text h
  have hplain : ∀ c ∈ text, isControl c = false :=
    fun c hc ↦ Bool.not_eq_true' _ ▸ all_eq_true.mp hcontrol c hc
  exact ⟨hplain, hslash, hbackslash, hwords, hlength⟩

theorem isControl_of_isWorkIdChar {c : Char} (h : isWorkIdChar c = true) : isControl c = false := by
  rw [isWorkIdChar, Bool.or_eq_true] at h
  rcases h with hletter | hother
  · have hcode := code_of_isAlphanum hletter
    simp only [isControl, Bool.or_eq_false_iff, Bool.and_eq_false_iff, decide_eq_false_iff_not]
    omega
  · have hall : ∀ c ∈ "-_.".toList, isControl c = false := forall_mem_of_all (by decide)
    exact hall c (contains_iff_mem.mp hother)

theorem sanitizeWorkId_isClean_iff (id : Text) :
    IsClean 80 (sanitizeWorkId id) ↔ SpellsNoWord id := by
  have hwords : SpellsNoWord id ↔ ∀ word ∈ markedWords,
      ¬ word <:+: toAsciiLowercase ((id.filter isWorkIdChar).take 80) := by
    unfold SpellsNoWord
    simp only [infix_toAsciiLowercase_iff]
  rw [hwords]
  unfold sanitizeWorkId
  by_cases hempty : (id.filter isWorkIdChar).take 80 = []
  · rw [if_pos hempty, hempty]
    exact iff_of_true (isClean_default (by decide) (by decide)) (by decide)
  · rw [if_neg hempty]
    refine ⟨IsClean.words, fun h ↦ ?_⟩
    have hkept {c : Char} (hc : c ∈ (id.filter isWorkIdChar).take 80) : isWorkIdChar c = true :=
      (mem_filter.mp (mem_of_mem_take hc)).2
    have hslash : isWorkIdChar '/' = false ∧ isWorkIdChar '\\' = false := by decide
    refine ⟨fun c hc ↦ isControl_of_isWorkIdChar (hkept hc), fun hc ↦ ?_, fun hc ↦ ?_, h,
      length_take_le _ _⟩
    · exact Bool.false_ne_true (hslash.1.symm.trans (hkept hc))
    · exact Bool.false_ne_true (hslash.2.symm.trans (hkept hc))

theorem sanitizePublicValue_isClean_iff (value : Text) (maxChars : ℕ) :
    (∀ published, sanitizePublicValue (some value) maxChars = some published →
      IsClean maxChars published) ↔ HidesNoWord maxChars value := by
  unfold HidesNoWord
  have hvalue : sanitizePublicValue (some value) maxChars = if isRefused (trim value) then none
      else if ((trim value).filter fun c ↦ !isControl c).take maxChars = [] then none
      else some (((trim value).filter fun c ↦ !isControl c).take maxChars) := rfl
  rw [hvalue]
  generalize trim value = text
  cases hrefused : isRefused text with
  | true =>
    rw [if_pos rfl]
    exact iff_of_true (fun _ h ↦ (Option.some_ne_none _ h.symm).elim) fun h ↦ absurd h.symm Bool.false_ne_true
  | false =>
    rw [if_neg Bool.false_ne_true]
    have hchecks := hrefused
    simp only [isRefused, Bool.or_eq_false_iff, any_eq_false, Bool.or_eq_true, beq_iff_eq,
      decide_eq_true_eq, not_or] at hchecks
    obtain ⟨⟨-, hslashes⟩, hwords⟩ := hchecks
    -- A part that spells a word has a control character, since the text itself has no marked word.
    have hspread {word spread : Text} (hword : word ∈ markedWords)
        (hspells : Spells (fun c ↦ !isControl c) maxChars word text spread) :
        ∃ c ∈ spread, isControl c = true := by
      by_contra hnone
      push Not at hnone
      obtain ⟨before, after, rfl, hspelled, -⟩ := hspells
      have hall : spread.filter (fun c ↦ !isControl c) = spread :=
        filter_eq_self.mpr fun c hc ↦ by simpa using hnone c hc
      rw [hall] at hspelled
      refine hwords word hword ?_
      rw [← hspelled, toAsciiLowercase, toAsciiLowercase, map_append, map_append]
      exact ⟨_, _, rfl⟩
    have hiff (word : Text) (hword : word ∈ markedWords) :
        word <:+: toAsciiLowercase ((text.filter fun c ↦ !isControl c).take maxChars) ↔
          ∃ spread, Spells (fun c ↦ !isControl c) maxChars word text spread ∧
            ∃ c ∈ spread, isControl c = true := by
      rw [infix_toAsciiLowercase_iff]
      exact exists_congr fun spread ↦ (and_iff_left_of_imp (hspread hword)).symm
    have hclean : IsClean maxChars ((text.filter fun c ↦ !isControl c).take maxChars) ↔
        ∀ word ∈ markedWords, ¬ ∃ spread, Spells (fun c ↦ !isControl c) maxChars word text spread ∧
          ∃ c ∈ spread, isControl c = true := by
      have hmem {c : Char} (hc : c ∈ (text.filter fun c ↦ !isControl c).take maxChars) :=
        mem_filter.mp (mem_of_mem_take hc)
      constructor
      · exact fun h word hword hspells ↦ h.words word hword ((hiff word hword).mpr hspells)
      · refine fun h ↦ ⟨fun c hc ↦ by simpa using (hmem hc).2, fun hc ↦ ?_, fun hc ↦ ?_,
          fun word hword hpart ↦ h word hword ((hiff word hword).mp hpart),
          length_take_le _ _⟩
        · exact (hslashes '/' (hmem hc).1).1 rfl
        · exact (hslashes '\\' (hmem hc).1).2 rfl
    rw [imp_iff_right rfl, ← hclean]
    by_cases hempty : (text.filter fun c ↦ !isControl c).take maxChars = []
    · rw [if_pos hempty, hempty]
      exact iff_of_true (fun _ h ↦ (Option.some_ne_none _ h.symm).elim)
        ⟨fun c hc ↦ absurd hc not_mem_nil, not_mem_nil, not_mem_nil, by decide, Nat.zero_le _⟩
    · rw [if_neg hempty]
      exact ⟨fun h ↦ h _ rfl, fun h published heq ↦ Option.some_inj.mp heq ▸ h⟩

theorem getD_isClean_iff {fallback : Text} {maxChars : ℕ} (hfallback : IsClean maxChars fallback)
    (value : Text) : IsClean maxChars ((sanitizePublicValue (some value) maxChars).getD fallback) ↔
      HidesNoWord maxChars value := by
  rw [← sanitizePublicValue_isClean_iff]
  cases sanitizePublicValue (some value) maxChars with
  | none => exact iff_of_true hfallback fun _ h ↦ (Option.some_ne_none _ h.symm).elim
  | some published => exact ⟨fun h _ heq ↦ Option.some_inj.mp heq ▸ h, fun h ↦ h published rfl⟩

theorem option_isClean_iff (value : Option Text) (maxChars : ℕ) :
    (∀ published, sanitizePublicValue value maxChars = some published →
      IsClean maxChars published) ↔ ∀ text, value = some text → HidesNoWord maxChars text := by
  cases value with
  | none =>
    refine iff_of_true (fun _ h ↦ ?_) fun _ h ↦ ?_
    · exact (Option.some_ne_none _ h.symm).elim
    · exact (Option.some_ne_none _ h.symm).elim
  | some text =>
    rw [sanitizePublicValue_isClean_iff]
    exact ⟨fun h _ heq ↦ Option.some_inj.mp heq ▸ h, fun h ↦ h text rfl⟩

/-! ### The public status -/

/-- No text of the status gets a marked word through. -/
structure WorkStatus.HidesNoWord (status : WorkStatus) : Prop where
  id : SpellsNoWord status.id
  kind : Api.HidesNoWord 32 status.kind
  state : Api.HidesNoWord 32 status.state
  game : ∀ game, status.game = some game → Api.HidesNoWord 160 game
  version : ∀ version, status.version = some version → Api.HidesNoWord 96 version
  provider : ∀ provider, status.provider = some provider → Api.HidesNoWord 96 provider
  source : ∀ source, status.source = some source → Api.HidesNoWord 96 source
  detail : Api.HidesNoWord 160 status.detail

/-- The texts of a public status are clean exactly when no text of the status gets a marked word
through. -/
theorem publishesClean_iff (status : WorkStatus) :
    (PublicWorkStatusResponse.ofStatus status).IsClean ↔ status.HidesNoWord := by
  have hdetail : IsClean 160 (if (PublicWorkStatusResponse.ofStatus status).state = "FAILED".toList
      then "Operation failed" else "Operation in progress") := by
    split_ifs
    · exact isClean_default (by decide) (by decide)
    · exact isClean_default (by decide) (by decide)
  have hid := sanitizeWorkId_isClean_iff status.id
  have hkind := getD_isClean_iff
    (isClean_default (by decide) (by decide) : IsClean 32 "WORK") status.kind
  have hstate := getD_isClean_iff
    (isClean_default (by decide) (by decide) : IsClean 32 "WORKING") status.state
  have hdetails := getD_isClean_iff hdetail status.detail
  constructor
  · intro h
    exact {
      id := hid.mp h.id
      kind := hkind.mp h.kind
      state := hstate.mp h.state
      game := (option_isClean_iff status.game 160).mp h.game
      version := (option_isClean_iff status.version 96).mp h.version
      provider := (option_isClean_iff status.provider 96).mp h.provider
      source := (option_isClean_iff status.source 96).mp h.source
      detail := hdetails.mp h.detail }
  · intro h
    exact {
      id := hid.mpr h.id
      kind := hkind.mpr h.kind
      state := hstate.mpr h.state
      game := (option_isClean_iff status.game 160).mpr h.game
      version := (option_isClean_iff status.version 96).mpr h.version
      provider := (option_isClean_iff status.provider 96).mpr h.provider
      source := (option_isClean_iff status.source 96).mpr h.source
      detail := hdetails.mpr h.detail }

def sampleStatus (id detail : Text) : WorkStatus where
  id := id
  kind := "SCRAPER"
  state := "DOWNLOADING"
  game := none
  version := none
  provider := none
  source := none
  detail := detail
  bytesCompleted := none
  bytesTotal := none
  rateBytesPerSecond := none
  createdAt := 0
  updatedAt := 0

/-- A control character inside a word lets it through, and an identifier is not searched. -/
theorem split_word_published :
    (¬ (PublicWorkStatusResponse.ofStatus
      (sampleStatus "scrape-1" "to\u0001ken abc")).IsClean ∧
      (PublicWorkStatusResponse.ofStatus
        (sampleStatus "scrape-1" "to\u0001ken abc")).detail = "token abc") ∧
    ¬ (PublicWorkStatusResponse.ofStatus
      (sampleStatus "token-1" "Downloading release")).IsClean := by
  refine ⟨⟨fun h ↦ ?_, by decide⟩, fun h ↦ ?_⟩
  · exact h.detail.words "token" (by decide) (by decide)
  · exact h.id.words "token" (by decide) (by decide)

end GameLauncher.Api
