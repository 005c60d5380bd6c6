import GameLauncher.Manifests.ManifestValidator
import GameLauncher.Normalizer.Extraction

/-!
# What the normalizer's paths are worth to the packager

`safe_relative_path` turns the name of an archive entry into the path that the entry is extracted
to. The packager of the same server reads the extracted files back and puts their paths through
`normalize_manifest_path`, which is stricter: it refuses a colon anywhere and a text that is not in
normalization form C.

`IsPackagablePath` is what an extracted path should be: nonempty, relative, of components that name
no drive, a fixed point of `safe_relative_path` and accepted by the packager. The normalizer looks
for a drive in the raw name, before it drops the current directories from it, so the drive of
`./C:/x` comes to the front of the path afterwards. `safeRelativePath_packagable_iff` gives the
names whose path is packagable.
-/

set_option autoImplicit false

namespace GameLauncher.Normalizer

open Foundation Fallible Manifests List

/-- The text of a relative path, as `to_str` gives it. -/
def pathText (path : Path) : Text := ['/'].intercalate path

/-- A component that a relative path may have on every platform. -/
structure IsRelativeComponent (part : Text) : Prop where
  ne_nil : part ≠ []
  ne_dot : part ≠ "."
  ne_dotdot : part ≠ ".."
  no_slash : '/' ∉ part
  no_backslash : '\\' ∉ part
  no_drive : ¬ NamesDrive part

/-- A path that an archive entry can be extracted to and packaged from. -/
structure IsPackagablePath (unicode : Unicode) (path : Path) : Prop where
  ne_nil : path ≠ []
  components : ∀ part ∈ path, IsRelativeComponent part
  relative : (pathText path).head? ≠ some '/'
  stable : safeRelativePath (pathText path) = .ok path
  accepted : normalizeManifestPath unicode (pathText path) = .ok (pathText path)

/-! ### The parts of a name -/

section Parts

variable {name part : Text}

theorem mem_entryPath :
    part ∈ entryPath name ↔ part ∈ (replaceBackslashes name).splitOn '/' ∧ part ≠ [] ∧
      part ≠ "." := by
  rw [entryPath, pathParts, mem_filter, decide_eq_true_eq]

theorem backslash_notMem_replaceBackslashes : '\\' ∉ replaceBackslashes name := by
  intro h
  obtain ⟨c, -, hc⟩ := mem_map.mp h
  by_cases hbackslash : c = '\\'
  · rw [if_pos hbackslash] at hc
    exact absurd hc (by decide)
  · rw [if_neg hbackslash] at hc
    exact hbackslash hc

theorem mem_replaceBackslashes {c : Char} (hslash : c ≠ '/') (hbackslash : c ≠ '\\') :
    c ∈ replaceBackslashes name ↔ c ∈ name := by
  unfold replaceBackslashes
  rw [mem_map]
  constructor
  · rintro ⟨d, hd, hchanged⟩
    by_cases heq : d = '\\'
    · rw [if_pos heq] at hchanged
      exact absurd hchanged.symm hslash
    · rw [if_neg heq] at hchanged
      exact hchanged ▸ hd
  · intro hc
    exact ⟨c, hc, if_neg hbackslash⟩

theorem replaceBackslashes_eq_self {text : Text} (h : '\\' ∉ text) :
    replaceBackslashes text = text := by
  refine (map_congr_left fun c hc ↦ if_neg ?_).trans (map_id' text)
  rintro rfl
  exact h hc

/-- A character that is neither a separator nor a dot is in a part when it is in the name. -/
theorem exists_mem_entryPath {c : Char} (hslash : c ≠ '/') (hbackslash : c ≠ '\\') (hdot : c ≠ '.') :
    (∃ part ∈ entryPath name, c ∈ part) ↔ c ∈ name := by
  rw [← mem_replaceBackslashes hslash hbackslash]
  constructor
  · rintro ⟨part, hpart, hc⟩
    exact mem_of_mem_splitOn (mem_entryPath.mp hpart).1 hc
  · intro hc
    obtain ⟨part, hpart, hc⟩ := exists_mem_splitOn hc hslash
    refine ⟨part, mem_entryPath.mpr ⟨hpart, ne_nil_of_mem hc, ?_⟩, hc⟩
    rintro rfl
    exact hdot (mem_singleton.mp hc)

end Parts

/-! ### The path of a portable name -/

section Portable

variable {name : Text}

theorem HasPortableName.component (h : HasPortableName name) {part : Text}
    (hpart : part ∈ entryPath name) (hdrive : ¬ NamesDrive part) : IsRelativeComponent part where
  ne_nil := (mem_entryPath.mp hpart).2.1
  ne_dot := (mem_entryPath.mp hpart).2.2
  ne_dotdot := by
    rintro rfl
    exact (h.portable _ hpart).2.2.1 (by decide)
  no_slash := separator_notMem_of_mem_splitOn (mem_entryPath.mp hpart).1
  no_backslash := fun hmem ↦
    backslash_notMem_replaceBackslashes (mem_of_mem_splitOn (mem_entryPath.mp hpart).1 hmem)
  no_drive := hdrive

theorem HasPortableName.splitOn_pathText (h : HasPortableName name) :
    (pathText (entryPath name)).splitOn '/' = entryPath name :=
  splitOn_intercalate '/'
    (fun _ hpart ↦ separator_notMem_of_mem_splitOn (mem_entryPath.mp hpart).1) h.usable

theorem HasPortableName.mem_pathText (h : HasPortableName name) {c : Char} (hslash : c ≠ '/') :
    c ∈ pathText (entryPath name) ↔ ∃ part ∈ entryPath name, c ∈ part := by
  constructor
  · intro hc
    exact (mem_of_mem_intercalate hc).resolve_left fun hmem ↦ hslash (mem_singleton.mp hmem)
  · rintro ⟨part, hpart, hc⟩
    rw [← h.splitOn_pathText] at hpart
    exact mem_of_mem_splitOn hpart hc

theorem HasPortableName.colon_mem_pathText (h : HasPortableName name) :
    ':' ∈ pathText (entryPath name) ↔ ':' ∈ name := by
  rw [h.mem_pathText (by decide), exists_mem_entryPath (by decide) (by decide) (by decide)]

theorem HasPortableName.backslash_notMem_pathText (h : HasPortableName name) :
    '\\' ∉ pathText (entryPath name) := by
  rw [h.mem_pathText (by decide)]
  rintro ⟨part, hpart, hmem⟩
  exact backslash_notMem_replaceBackslashes (mem_of_mem_splitOn (mem_entryPath.mp hpart).1 hmem)

theorem HasPortableName.entryPath_pathText (h : HasPortableName name) :
    entryPath (pathText (entryPath name)) = entryPath name := by
  have hsame : replaceBackslashes (pathText (entryPath name)) = pathText (entryPath name) :=
    replaceBackslashes_eq_self h.backslash_notMem_pathText
  rw [entryPath, hsame, pathParts, h.splitOn_pathText, filter_eq_self]
  intro part hpart
  exact decide_eq_true (mem_entryPath.mp hpart).2

theorem HasPortableName.pathText_ne_nil (h : HasPortableName name) :
    pathText (entryPath name) ≠ [] := by
  intro hnil
  have hsplit := h.splitOn_pathText
  rw [hnil, splitOn_nil] at hsplit
  have hmem : [] ∈ entryPath name := hsplit ▸ mem_singleton_self _
  exact (mem_entryPath.mp hmem).2.1 rfl

theorem HasPortableName.relative_pathText (h : HasPortableName name) :
    (pathText (entryPath name)).head? ≠ some '/' := by
  intro hhead
  obtain ⟨rest, hrest⟩ := List.head?_eq_some_iff.mp hhead
  have hsplit := h.splitOn_pathText
  rw [hrest, splitOn_cons_eq_if_modifyHead, if_pos (by decide)] at hsplit
  have hmem : [] ∈ entryPath name := hsplit ▸ mem_cons_self
  exact (mem_entryPath.mp hmem).2.1 rfl

theorem colon_mem_of_namesDrive {text : Text} (h : NamesDrive text) : ':' ∈ text := by
  obtain ⟨c, hc, hbyte⟩ := mem_flatMap.mp (mem_of_getElem? h)
  have hascii : IsAscii c := mem_utf8Char_lt hbyte (by decide)
  rw [utf8Char_of_ascii hascii, mem_singleton] at hbyte
  have hvalue : c.toNat = 58 := by
    have hnat := congrArg UInt8.toNat hbyte
    unfold IsAscii at hascii
    rw [UInt8.toNat_ofNat', Nat.mod_eq_of_lt (by omega)] at hnat
    exact hnat.symm
  have hcolon : c = ':' := Char.toNat_inj.mp hvalue
  exact hcolon ▸ hc

theorem HasPortableName.stable (h : HasPortableName name) (hcolon : ':' ∉ name) :
    safeRelativePath (pathText (entryPath name)) = .ok (entryPath name) := by
  have hsame := replaceBackslashes_eq_self h.backslash_notMem_pathText
  have hnoColon : ':' ∉ pathText (entryPath name) := mt h.colon_mem_pathText.mp hcolon
  refine safeRelativePath_eq_ok.mpr ⟨?_, h.entryPath_pathText⟩
  refine
    { no_null := ?_
      relative := by
        rw [hsame]
        exact h.relative_pathText
      no_drive := by
        rw [hsame]
        exact fun hdrive ↦ hnoColon (colon_mem_of_namesDrive hdrive)
      usable := by
        rw [h.entryPath_pathText]
        exact h.usable
      portable := by
        rw [h.entryPath_pathText]
        exact h.portable }
  rw [h.mem_pathText (by decide), exists_mem_entryPath (by decide) (by decide) (by decide)]
  exact h.no_null

theorem HasPortableName.accepted_iff (h : HasPortableName name) (unicode : Unicode) :
    normalizeManifestPath unicode (pathText (entryPath name)) = .ok (pathText (entryPath name)) ↔
      ':' ∉ name ∧ unicode.nfc (pathText (entryPath name)) = pathText (entryPath name) := by
  rw [normalizeManifestPath_eq_ok, ← h.colon_mem_pathText]
  constructor
  · rintro ⟨hportable, -⟩
    exact ⟨hportable.no_colon, hportable.normalized⟩
  · rintro ⟨hcolon, hnormalized⟩
    refine ⟨⟨h.pathText_ne_nil, h.backslash_notMem_pathText, h.relative_pathText, hcolon,
      hnormalized, fun part hpart ↦ ?_⟩, rfl⟩
    rw [h.splitOn_pathText] at hpart
    obtain ⟨hcontrol, hspace, hdot, hreserved⟩ := h.portable part hpart
    obtain ⟨-, hne, hcurrent⟩ := mem_entryPath.mp hpart
    refine ⟨hne, hcurrent, ?_, fun c hc ↦ not_le.mp (hcontrol c hc), hspace, hdot, hreserved⟩
    rintro rfl
    exact hdot (by decide)

end Portable

/-! ### Packagable paths -/

/-- **The path of an archive entry is packagable exactly when its name has no colon and the path
is in normalization form C**, among the names that the normalizer accepts. -/
theorem safeRelativePath_packagable_iff (unicode : Unicode) (name : Text) (path : Path)
    (h : safeRelativePath name = .ok path) :
    IsPackagablePath unicode path ↔
      ':' ∉ name ∧ unicode.nfc (pathText (entryPath name)) = pathText (entryPath name) := by
  obtain ⟨hname, rfl⟩ := safeRelativePath_eq_ok.mp h
  rw [← hname.accepted_iff unicode]
  constructor
  · exact fun hpath ↦ hpath.accepted
  · intro haccepted
    have hcolon := ((hname.accepted_iff unicode).mp haccepted).1
    have hparts : ¬ ∃ part ∈ entryPath name, ':' ∈ part := by
      rwa [exists_mem_entryPath (by decide) (by decide) (by decide)]
    exact ⟨hname.usable, fun part hpart ↦ hname.component hpart fun hdrive ↦
        hparts ⟨part, hpart, colon_mem_of_namesDrive hdrive⟩,
      hname.relative_pathText, hname.stable hcolon, haccepted⟩

/-- A name with backslashes and a current directory. -/
theorem safeRelativePath_packagable_nested :
    IsPackagablePath ManifestValidator.asciiUnicode ["data", "level.bin"] :=
  (safeRelativePath_packagable_iff _ ".\\data\\level.bin" _ (by decide)).mpr
    ⟨by decide, rfl⟩

/-- The drive behind a current directory comes to the front of the path, which names it then. -/
theorem safeRelativePath_hides_drive :
    safeRelativePath "./C:/x" = .ok ["C:", "x"] ∧
      ¬ IsPackagablePath ManifestValidator.asciiUnicode ["C:", "x"] := by
  refine ⟨by decide, fun hpath ↦ ?_⟩
  exact absurd (hpath.components "C:" mem_cons_self).no_drive (by decide)

/-- The normalizer and the packager refuse the path they were given. -/
example : safeRelativePath "C:/x" = .error (.absoluteName "C:/x") ∧
    normalizeManifestPath ManifestValidator.asciiUnicode "C:/x" = .error (.path "C:/x") := by
  decide

end GameLauncher.Normalizer
