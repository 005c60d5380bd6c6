import GameLauncher.Foundation.Segments
import GameLauncher.Scraper.Downloader

/-!
# What `safe_filename` returns

`safe_filename` cleans the last component of a value: it replaces what no file name may hold, strips
blanks and dots, and falls back when nothing or the name of a device is left. `baseName` is this name,
and all of it is portable but for the control characters from U+0080 to U+009F. Then the name is cut
to 180 characters before its last dot, without a second look: `shorten_portable_iff` says when the
cut keeps the name portable.
-/

set_option autoImplicit false

namespace GameLauncher.Scraper

open Foundation Normalizer List

variable (library : PythonLibrary)

def IsControl (c : Char) : Prop := c.toNat ≤ 0x1f ∨ 0x7f ≤ c.toNat ∧ c.toNat ≤ 0x9f

/-- The part of a name before its first dot. -/
def firstStem (name : Text) : Text := name.takeWhile fun c ↦ c ≠ '.'

/-- A name that is one component of a path everywhere. -/
structure IsPortable (name : Text) : Prop where
  nonempty : name ≠ []
  length_le : name.length ≤ 180
  characters : ∀ c ∈ name, ¬ IsControl c ∧ c ∉ "/\\<>:\"|?*".toList
  component : name ≠ "." ∧ name ≠ ".."
  ends : ∀ c, name.head? = some c ∨ name.getLast? = some c → c ≠ ' ' ∧ c ≠ '.'
  device : isDeviceStem (library.casefold (firstStem name)) = false

/-- The name that `safe_filename` cuts. -/
def baseName (value : Option Text) : Text :=
  let fallback := "download.bin".toList
  let raw := replaceBackslashes (library.unquote (value.getD []))
  let name := stripDots ((posixName raw).map fun c ↦ if isUnsafeChar c then '_' else c)
  let name := if name ∈ [[], ".".toList, "..".toList] then fallback else name
  if isDeviceStem (library.casefold (firstStem name)) then fallback else name

/-- Does the cut keep a name portable? A long name needs a last part of at most 178 characters, and
must not be cut to the name of a device. -/
structure CutsWell (name : Text) : Prop where
  suffix : 180 < name.length → '.' ∈ name ∧ (nameSuffix name).length ≤ 178
  device : 180 < name.length →
    isDeviceStem (library.casefold (firstStem (name.take (179 - (nameSuffix name).length)))) = false
  characters : ∀ c ∈ if 180 < name.length then
      name.take (179 - (nameSuffix name).length) ++ nameSuffix name else name,
    ¬ (0x80 ≤ c.toNat ∧ c.toNat ≤ 0x9f)

variable {library} {name : Text}

theorem firstStem_append_dot (before after : Text) :
    firstStem (before ++ '.' :: after) = firstStem before := by
  induction before with
  | nil => rfl
  | cons c rest ih =>
    unfold firstStem at ih ⊢
    rw [cons_append, takeWhile_cons, takeWhile_cons, ih]

/-- What holds of the name that is cut. -/
structure IsClean (library : PythonLibrary) (name : Text) : Prop where
  nonempty : name ≠ []
  characters : ∀ c ∈ name, isUnsafeChar c = false ∧ c ≠ '\\'
  ends : ∀ c, name.head? = some c ∨ name.getLast? = some c → c ≠ ' ' ∧ c ≠ '.'
  device : isDeviceStem (library.casefold (firstStem name)) = false

theorem mem_component {raw : Text} {c : Char} (h : c ∈ posixName (replaceBackslashes raw)) :
    c ≠ '\\' := by
  have hraw : c ∈ replaceBackslashes raw := by
    unfold posixName at h
    cases hparts : (pathParts (replaceBackslashes raw)).getLast? with
    | none => simp [List.getLastD_eq_getLast?, hparts] at h
    | some part =>
      rw [List.getLastD_eq_getLast?, hparts] at h
      exact mem_of_mem_splitOn (mem_of_mem_filter (mem_of_getLast? hparts)) h
  obtain ⟨other, -, rfl⟩ := List.mem_map.mp hraw
  split_ifs with hslash
  · decide
  · exact hslash

theorem isClean_baseName (hcasefold : library.casefold "download".toList = "download".toList)
    (value : Option Text) : IsClean library (baseName library value) := by
  have hfallback : IsClean library "download.bin".toList := by
    refine ⟨by decide, forall_mem_of_all (by decide), ?_, ?_⟩
    · rintro c (h | h) <;> obtain rfl := Option.some.inj h <;> decide
    · rw [show firstStem "download.bin".toList = "download".toList by decide, hcasefold]
      decide
  unfold baseName
  dsimp only
  split_ifs with hempty hdevice hdevice
  · exact hfallback
  · exact hfallback
  · exact hfallback
  · refine ⟨fun hnil ↦ hempty (by simp [hnil]), fun c hc ↦ ?_, fun c ↦ stripDots_ends,
      Bool.eq_false_iff.mpr hdevice⟩
    have hmem := (dropWhile_sublist _).subset ((List.rdropWhile_prefix _ _).subset hc)
    obtain ⟨old, hold, rfl⟩ := List.mem_map.mp hmem
    split_ifs with hunsafe
    · decide
    · exact ⟨Bool.eq_false_iff.mpr hunsafe, mem_component hold⟩

theorem IsClean.portable_iff (hclean : IsClean library name) (hlength : name.length ≤ 180) :
    IsPortable library name ↔ ∀ c ∈ name, ¬ (0x80 ≤ c.toNat ∧ c.toNat ≤ 0x9f) := by
  constructor
  · exact fun h c hc hcontrol ↦ (h.characters c hc).1 (.inr ⟨by omega, hcontrol.2⟩)
  · intro h
    refine ⟨hclean.nonempty, hlength, fun c hc ↦ ?_, ⟨?_, ?_⟩, hclean.ends, hclean.device⟩
    · obtain ⟨hsafe, hbackslash⟩ := hclean.characters c hc
      simp only [isUnsafeChar, Bool.or_eq_false_iff, decide_eq_false_iff_not, beq_eq_false_iff_ne,
        contains_eq_mem] at hsafe
      obtain ⟨⟨hlow, hdelete⟩, hlisted⟩ := hsafe
      refine ⟨?_, fun hmem ↦ ?_⟩
      · have hupper := h c hc
        unfold IsControl
        omega
      · simp_all
    · rintro rfl
      exact (hclean.ends '.' (.inl rfl)).2 rfl
    · rintro rfl
      exact (hclean.ends '.' (.inl rfl)).2 rfl

theorem shorten_of_long (hclean : IsClean library name) (hlong : 180 < name.length)
    (hdot : '.' ∈ name) :
    nameStem name ≠ [] ∧ shorten name =
      (nameStem name).take (max 1 (179 - (nameSuffix name).length)) ++ '.' :: nameSuffix name := by
  refine ⟨fun hnil ↦ ?_, ?_⟩
  · have hname := nameStem_append hdot
    rw [hnil, nil_append] at hname
    exact (hclean.ends '.' (.inl (by rw [← hname]; rfl))).2 rfl
  · rw [shorten, if_pos hlong, if_pos hdot, Nat.sub_right_comm]

/-- With a last part of at most 178 characters, 180 characters are left. -/
theorem shorten_of_suffix (hclean : IsClean library name) (hlong : 180 < name.length)
    (hdot : '.' ∈ name) (hsuffix : (nameSuffix name).length ≤ 178) :
    shorten name = name.take (179 - (nameSuffix name).length) ++ '.' :: nameSuffix name ∧
      (shorten name).length = 180 := by
  have hname := nameStem_append hdot
  have hlength := congrArg List.length hname
  rw [length_append, length_cons] at hlength
  have htake : (nameStem name ++ '.' :: nameSuffix name).take (179 - (nameSuffix name).length) =
      (nameStem name).take (179 - (nameSuffix name).length) := take_append_of_le_length (by omega)
  rw [hname] at htake
  have hshort := (shorten_of_long hclean hlong hdot).2
  rw [Nat.max_eq_right (by omega), ← htake] at hshort
  refine ⟨hshort, ?_⟩
  rw [hshort, length_append, length_take, length_cons]
  omega

theorem shorten_portable_iff (hclean : IsClean library name) :
    IsPortable library (shorten name) ↔ CutsWell library name := by
  rcases Nat.lt_or_ge 180 name.length with hlong | hshort
  · constructor
    · intro h
      have hdot : '.' ∈ name := by
        by_contra hdot
        refine h.nonempty ?_
        rw [shorten, if_pos hlong, if_neg hdot]
      have hsuffix : (nameSuffix name).length ≤ 178 := by
        have hlength := h.length_le
        obtain ⟨hstem, hcut⟩ := shorten_of_long hclean hlong hdot
        have hpos := length_pos_of_ne_nil hstem
        rw [hcut, length_append, length_take, length_cons] at hlength
        omega
      have hcut := (shorten_of_suffix hclean hlong hdot hsuffix).1
      rw [hcut] at h
      refine ⟨fun _ ↦ ⟨hdot, hsuffix⟩, fun _ ↦ ?_, ?_⟩
      · rw [← firstStem_append_dot _ (nameSuffix name)]
        exact h.device
      · rw [if_pos hlong]
        intro c hc hcontrol
        refine (h.characters c ?_).1 (.inr ⟨by omega, hcontrol.2⟩)
        rw [List.mem_append, List.mem_cons]
        exact (List.mem_append.mp hc).imp_right .inr
    · intro h
      obtain ⟨hdot, hsuffix⟩ := h.suffix hlong
      have hcharacters := h.characters
      rw [if_pos hlong] at hcharacters
      obtain ⟨hcut, hlength⟩ := shorten_of_suffix hclean hlong hdot hsuffix
      have hshort : IsClean library (shorten name) := by
        refine ⟨length_pos_iff.mp (by omega), fun c hc ↦ ?_, fun c hc ↦ hclean.ends c ?_, ?_⟩
        · rw [hcut, List.mem_append, List.mem_cons] at hc
          rcases hc with hc | rfl | hc
          · exact hclean.characters c (mem_of_mem_take hc)
          · exact ⟨by decide, by decide⟩
          · exact hclean.characters c ((rtakeWhile_suffix _ _).subset hc)
        · refine hc.imp (fun hhead ↦ ?_) fun hlast ↦ ?_
          · rw [hcut, List.head?_append, head?_take, if_neg (by omega)] at hhead
            refine (Option.or_eq_some_iff.mp hhead).resolve_right fun hnone ↦ hclean.nonempty ?_
            exact head?_eq_none_iff.mp hnone.1
          · rw [hcut, getLast?_append_of_ne_nil _ (cons_ne_nil _ _)] at hlast
            rw [← nameStem_append hdot, getLast?_append_of_ne_nil _ (cons_ne_nil _ _)]
            exact hlast
        · rw [hcut, firstStem_append_dot]
          exact h.device hlong
      refine (hshort.portable_iff hlength.le).mpr fun c hc hcontrol ↦ ?_
      rw [hcut, List.mem_append, List.mem_cons] at hc
      rcases hc with hc | rfl | hc
      · exact hcharacters c (mem_append_left _ hc) hcontrol
      · exact absurd hcontrol (by decide)
      · exact hcharacters c (mem_append_right _ hc) hcontrol
  · have hsame : shorten name = name := by rw [shorten, if_neg (by omega)]
    rw [hsame, hclean.portable_iff hshort]
    refine ⟨fun h ↦ ⟨fun hlong ↦ by omega, fun hlong ↦ by omega, ?_⟩, fun h ↦ ?_⟩
    · rwa [if_neg (by omega)]
    · have hcharacters := h.characters
      rwa [if_neg (by omega)] at hcharacters

/-- A library for ASCII names without escapes. -/
def asciiLibrary : PythonLibrary where
  unquote := id
  casefold := List.map Char.toLower
  strip := stripDots
  urlFilename := posixName
  blake3 := fun _ ↦ []
  sha256 := fun _ ↦ []

end GameLauncher.Scraper
