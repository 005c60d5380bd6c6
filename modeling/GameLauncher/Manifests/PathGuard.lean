import GameLauncher.Foundation.FileTree
import GameLauncher.Manifests.ManifestValidator

/-!
# The path guard of the launcher

`PathGuard.ResolveUnderRoot` turns a portable path into a full path below an installation root. It
validates the path, joins it to the full root, lets `Path.GetFullPath` clean the result, compares
the result with the root and looks for reparse points on the way.

`FullPath` is what `Path.GetFullPath` returns: a volume and names that cleaning leaves alone. How a
platform reads the volume off the front of a text is a parameter, with the fact that it reads the
volume of a full path back. `guardsAgree_iff` says for which of the validated paths the launcher's
checks, the server's check and the guard agree.

Left out: short (8.3) names of a volume, which `Path.GetFullPath` expands where they exist.
-/

set_option autoImplicit false

namespace GameLauncher.Manifests.PathGuard

open Foundation Fallible ManifestValidator List

/-! ### Full paths -/

/-- The platforms .NET runs on, as far as paths differ. -/
inductive Platform
  | windows
  | unix
  deriving DecidableEq, Repr

namespace Platform

/-- `Path.DirectorySeparatorChar`. -/
def separator : Platform → Char
  | .windows => '\\'
  | .unix => '/'

/-- Is the character `Path.DirectorySeparatorChar` or `Path.AltDirectorySeparatorChar`? -/
def isSeparator (platform : Platform) (c : Char) : Bool := c == '/' || c == platform.separator

/-- What cleaning makes of a name: Windows removes a single period at its end. -/
def trimName (platform : Platform) (name : Text) : Text :=
  if platform = .windows ∧ name.getLast? = some '.' ∧ name.dropLast.getLast? ≠ some '.' then
    name.dropLast
  else name

/-- What cleaning makes of the end of a path: Windows removes periods and spaces there, unless the
last name is a relative one. -/
def trimLast (platform : Platform) (name : Text) : Text :=
  if platform = .windows ∧ name ≠ "." ∧ name ≠ ".." then
    name.rdropWhile fun c ↦ c = '.' ∨ c = ' '
  else name

theorem isSeparator_separator (platform : Platform) :
    platform.isSeparator platform.separator = true := by
  simp [isSeparator]

end Platform

/-- A name that cleaning leaves alone. -/
structure IsFullName (platform : Platform) (name : Text) : Prop where
  ne_nil : name ≠ []
  ne_dot : name ≠ "."
  ne_dotdot : name ≠ ".."
  no_separator : ∀ c ∈ name, platform.isSeparator c = false
  trimmed : platform.trimName name = name

/-- What the resolution of a path depends on outside the launcher: the platform, the volumes that
it reads off the front of a text, with the text after their separator, the names it keeps for
devices, and the reparse points on its volumes. -/
structure System where
  platform : Platform
  IsVolume : Text → Prop
  openRoot : Text → Text × Text
  isLegacyDevice : Text → Bool
  isReparsePoint : Text → Path → Bool
  isVolume_openRoot : ∀ text, IsVolume (openRoot text).1
  openRoot_append : ∀ volume rest, IsVolume volume →
    openRoot (volume ++ platform.separator :: rest) = (volume, rest)
  volume_trimmed : ∀ volume, IsVolume volume → ∀ c, volume.getLast? = some c →
    platform.isSeparator c = false

/-- A full path: a volume, cleaned names, and whether a separator follows the last of them. -/
structure FullPath (system : System) where
  volume : Text
  names : Path
  trailing : Bool
  isVolume : system.IsVolume volume
  isFullName : ∀ name ∈ names, IsFullName system.platform name

variable {platform : Platform} {segments : Path}

section Resolution

variable {system : System}

def FullPath.text (path : FullPath system) : Text :=
  path.volume ++ system.platform.separator ::
    [system.platform.separator].intercalate path.names ++
    if path.trailing ∧ path.names ≠ [] then [system.platform.separator] else []

def cleanName (platform : Platform) (names : Path) (segment : Text) : Path :=
  if segment = [] ∨ segment = "." then names
  else if segment = ".." then names.dropLast
  else names ++ [platform.trimName segment]

def cleanNames (platform : Platform) (rest : Text) : Path :=
  let segments := rest.splitOnP platform.isSeparator
  (segments.dropLast ++ [platform.trimLast (segments.getLastD [])]).foldl (cleanName platform) []

theorem isFullName_trimName {segment : Text} (hnil : segment ≠ []) (hdot : segment ≠ ".")
    (hdots : segment ≠ "..") (hseparator : ∀ c ∈ segment, platform.isSeparator c = false) :
    IsFullName platform (platform.trimName segment) := by
  by_cases h : platform = .windows ∧ segment.getLast? = some '.' ∧
      segment.dropLast.getLast? ≠ some '.'
  · have htrim : platform.trimName segment = segment.dropLast := if_pos h
    rw [htrim]
    refine ⟨fun hempty ↦ ?_, fun hsame ↦ ?_, fun hsame ↦ ?_, fun c hc ↦ ?_, ?_⟩
    · obtain ⟨before, rfl⟩ := List.getLast?_eq_some_iff.mp h.2.1
      rw [dropLast_concat] at hempty
      exact hdot (by rw [hempty]; rfl)
    · rw [hsame] at h
      exact h.2.2 rfl
    · rw [hsame] at h
      exact h.2.2 rfl
    · exact hseparator c (mem_of_mem_dropLast hc)
    · exact if_neg fun hagain ↦ h.2.2 hagain.2.1
  · have htrim : platform.trimName segment = segment := if_neg h
    rw [htrim]
    exact ⟨hnil, hdot, hdots, hseparator, htrim⟩

theorem isFullName_foldl_cleanName {names : Path}
    (hsegments : ∀ segment ∈ segments, ∀ c ∈ segment, platform.isSeparator c = false)
    (hnames : ∀ name ∈ names, IsFullName platform name) :
    ∀ name ∈ segments.foldl (cleanName platform) names, IsFullName platform name := by
  induction segments generalizing names with
  | nil => exact hnames
  | cons segment rest ih =>
    rw [forall_mem_cons] at hsegments
    refine ih hsegments.2 fun name hname ↦ ?_
    unfold cleanName at hname
    split_ifs at hname with hskip hparent
    · exact hnames name hname
    · exact hnames name (mem_of_mem_dropLast hname)
    · rw [not_or] at hskip
      rcases mem_append.mp hname with hname | hname
      · exact hnames name hname
      · rw [mem_singleton.mp hname]
        exact isFullName_trimName hskip.1 hskip.2 hparent hsegments.1

theorem isFullName_cleanNames (platform : Platform) (rest : Text) :
    ∀ name ∈ cleanNames platform rest, IsFullName platform name := by
  refine isFullName_foldl_cleanName ?_ (by simp)
  have hsegments : ∀ segment ∈ rest.splitOnP platform.isSeparator, ∀ c ∈ segment,
      platform.isSeparator c = false := fun _ h ↦ not_of_mem_splitOnP h
  intro segment hsegment c hc
  rcases mem_append.mp hsegment with hsegment | hsegment
  · exact hsegments segment (mem_of_mem_dropLast hsegment) c hc
  · obtain rfl := mem_singleton.mp hsegment
    have hlast : c ∈ (rest.splitOnP platform.isSeparator).getLastD [] := by
      unfold Platform.trimLast at hc
      split_ifs at hc
      · exact (List.rdropWhile_prefix _ _).subset hc
      · exact hc
    have hne := splitOnP_ne_nil platform.isSeparator rest
    rw [getLastD_eq_getLast?, List.getLast?_eq_some_getLast hne, Option.getD_some] at hlast
    exact hsegments _ (getLast_mem hne) c hlast

/-- `Path.GetFullPath`; absent for a text that names a device. -/
def getFullPath (system : System) (text : Text) : Option (FullPath system) :=
  if system.isLegacyDevice text then none
  else
    some
      { volume := (system.openRoot text).1
        names := cleanNames system.platform (system.openRoot text).2
        trailing := (system.openRoot text).2.getLast?.any system.platform.isSeparator
        isVolume := system.isVolume_openRoot text
        isFullName := isFullName_cleanNames system.platform _ }

/-- `Path.IsPathRooted`. -/
def isPathRooted (platform : Platform) (path : Text) : Bool :=
  path.head?.any platform.isSeparator ||
    (platform == .windows && path.head?.any Char.isAlpha && path[1]? == some ':')

/-- `Path.Combine`. -/
def combine (platform : Platform) (first second : Text) : Text :=
  if first = [] then second
  else if second = [] then first
  else if isPathRooted platform second then second
  else if first.getLast?.any platform.isSeparator || second.head?.any platform.isSeparator then
    first ++ second
  else first ++ platform.separator :: second

/-- `TrimEnd` with both separators. -/
def trimEnd (platform : Platform) (text : Text) : Text := text.rdropWhile platform.isSeparator

/-- What `PathGuard` throws. -/
inductive GuardException
  | validation (exception : ValidationException)
  | invalidData (message : Text)
  | io (message : Text)
  deriving DecidableEq, Repr

/-- The loop of `EnsureNoReparsePointEscape`, from a directory on. -/
def checkReparsePoints (system : System) (volume : Text) : Path → Path → Except GuardException Unit
  | _, [] => .ok ()
  | current, segment :: rest => do
    throwIf (system.isReparsePoint volume (current ++ [segment]))
      (.io ("Reparse point in installation path: " ++ volume ++
        system.platform.separator :: [system.platform.separator].intercalate (current ++ [segment])))
    checkReparsePoints system volume (current ++ [segment]) rest

def ensureNoReparsePointEscape (root candidate : FullPath system) : Except GuardException Unit :=
  checkReparsePoints system root.volume root.names (candidate.names.drop root.names.length)

/-- `Replace('/', Path.DirectorySeparatorChar)`. -/
def replaceSlashes (platform : Platform) (path : Text) : Text :=
  path.map fun c ↦ if c = '/' then platform.separator else c

/-- `ResolveUnderRoot`, for the full path of the root. -/
def resolveUnderRoot (unicode : Unicode) (fullRoot : FullPath system) (portablePath : Text) :
    Except GuardException (FullPath system) := do
  (validatePortablePath unicode portablePath).mapError .validation
  let platform := system.platform
  let combined := combine platform fullRoot.text (replaceSlashes platform portablePath)
  let candidate ← orThrow (getFullPath system combined)
    (.invalidData "Path escapes installation root.")
  let rootWithSeparator := trimEnd platform fullRoot.text ++ [platform.separator]
  throwIf (¬ unicode.toUpperInvariant rootWithSeparator <+: unicode.toUpperInvariant candidate.text)
    (.invalidData "Path escapes installation root.")
  ensureNoReparsePointEscape fullRoot candidate
  return candidate

end Resolution

/-! ### Portable paths -/

variable {part : Text}

structure IsValidatedPart (part : Text) : Prop where
  ne_nil : part ≠ []
  ne_dot : part ≠ "."
  ne_dotdot : part ≠ ".."
  no_slash : '/' ∉ part
  no_backslash : '\\' ∉ part
  no_colon : ':' ∉ part
  no_trailing_space : part.getLast? ≠ some ' '
  no_trailing_dot : part.getLast? ≠ some '.'

theorem isValidatedPart_of_validated {unicode : Unicode} {path : Text}
    (h : validatePortablePath unicode path = .ok ()) (hpart : part ∈ path.splitOn '/') :
    IsValidatedPart part := by
  unfold validatePortablePath at h
  simp only [bind_eq_ok, throwIf_eq_ok, exists_const, not_or, not_exists, not_and] at h
  obtain ⟨⟨-, hbackslash, -, -, hcolon⟩, hrelative, hwindows, -⟩ := h
  obtain ⟨hnil, hdot, hdots⟩ := hrelative part hpart
  obtain ⟨hspace, hlast, -⟩ := hwindows part hpart
  exact
    { ne_nil := hnil
      ne_dot := hdot
      ne_dotdot := hdots
      no_slash := separator_notMem_of_mem_splitOn hpart
      no_backslash := fun hmem ↦ hbackslash (mem_of_mem_splitOn hpart hmem)
      no_colon := fun hmem ↦ hcolon (mem_of_mem_splitOn hpart hmem)
      no_trailing_space := hspace
      no_trailing_dot := hlast }

theorem IsValidatedPart.isFullName (h : IsValidatedPart part) (platform : Platform) :
    IsFullName platform part where
  ne_nil := h.ne_nil
  ne_dot := h.ne_dot
  ne_dotdot := h.ne_dotdot
  no_separator := by
    intro c hc
    have hslash : c ≠ '/' := fun heq ↦ h.no_slash (heq ▸ hc)
    have hbackslash : c ≠ '\\' := fun heq ↦ h.no_backslash (heq ▸ hc)
    cases platform <;> simp [Platform.isSeparator, Platform.separator, hslash, hbackslash]
  trimmed := if_neg fun htrim ↦ h.no_trailing_dot htrim.2.1

theorem IsValidatedPart.trimLast (h : IsValidatedPart part) (platform : Platform) :
    platform.trimLast part = part := by
  unfold Platform.trimLast
  split_ifs with hwindows
  · rw [rdropWhile_eq_self_iff]
    intro hne
    have hlast := List.getLast?_eq_some_getLast hne
    have hspace := h.no_trailing_space
    have hdot := h.no_trailing_dot
    rw [hlast] at hspace hdot
    simp only [ne_eq, Option.some.injEq] at hspace hdot
    simp [hspace, hdot]
  · rfl

/-! ### Joining and cleaning -/

section Joining

variable {system : System} {unicode : Unicode} {path : Text}

theorem foldl_cleanName_of_full {names : Path}
    (h : ∀ segment ∈ segments, IsFullName platform segment) :
    segments.foldl (cleanName platform) names = names ++ segments := by
  induction segments generalizing names with
  | nil => simp
  | cons segment rest ih =>
    rw [forall_mem_cons] at h
    have hkept : cleanName platform names segment = names ++ [segment] := by
      rw [cleanName, if_neg (not_or.mpr ⟨h.1.ne_nil, h.1.ne_dot⟩), if_neg h.1.ne_dotdot,
        h.1.trimmed]
    rw [foldl_cons, hkept, ih h.2, append_assoc, singleton_append]

theorem splitOnP_replaceSlashes (platform : Platform) (h : '\\' ∉ path) :
    (replaceSlashes platform path).splitOnP platform.isSeparator = path.splitOn '/' := by
  have htest : ∀ c ∈ path,
      platform.isSeparator (if c = '/' then platform.separator else c) = (c == '/') := by
    intro c hc
    by_cases hslash : c = '/'
    · rw [if_pos hslash, platform.isSeparator_separator, beq_iff_eq.mpr hslash]
    · have hbackslash : c ≠ '\\' := fun heq ↦ h (heq ▸ hc)
      rw [if_neg hslash]
      cases platform <;> simp [Platform.isSeparator, Platform.separator, hslash, hbackslash]
  rw [replaceSlashes, splitOnP_map, splitOnP_congr htest, ← splitOn_eq_splitOnP]
  refine (map_congr_left fun part hpart ↦ ?_).trans (map_id _)
  refine (map_congr_left fun c hc ↦ if_neg ?_).trans (map_id part)
  rintro rfl
  exact separator_notMem_of_mem_splitOn hpart hc

theorem exists_head_of_validated (h : validatePortablePath unicode path = .ok ()) :
    ∃ c rest, path = c :: rest ∧ c ≠ '/' ∧ c ≠ '\\' ∧ '\\' ∉ path ∧ ':' ∉ path := by
  have hnil : path ≠ [] := by
    rintro rfl
    have hparts := isValidatedPart_of_validated h (mem_singleton_self [])
    exact hparts.ne_nil rfl
  unfold validatePortablePath at h
  simp only [bind_eq_ok, throwIf_eq_ok, exists_const, not_or] at h
  obtain ⟨⟨-, hbackslash, hrelative, -, hcolon⟩, -⟩ := h
  obtain ⟨c, rest, rfl⟩ := exists_cons_of_ne_nil hnil
  exact ⟨c, rest, rfl, fun heq ↦ hrelative (by rw [heq]; rfl),
    fun heq ↦ hbackslash (heq ▸ mem_cons_self), hbackslash, hcolon⟩

theorem FullPath.exists_last_character (root : FullPath system) (h : root.names ≠ []) :
    ∃ before c, [system.platform.separator].intercalate root.names = before ++ [c] ∧
      system.platform.isSeparator c = false := by
  obtain ⟨others, name, hconcat⟩ := (eq_nil_or_concat' root.names).resolve_left h
  have hname : IsFullName system.platform name := root.isFullName name (by simp [hconcat])
  obtain ⟨front, hfront⟩ := suffix_intercalate_concat [system.platform.separator] others name
  obtain ⟨begin, c, hbegin⟩ := (eq_nil_or_concat' name).resolve_left hname.ne_nil
  refine ⟨front ++ begin, c, ?_, hname.no_separator c (by simp [hbegin])⟩
  rw [hconcat, ← hfront, hbegin, append_assoc]

theorem exists_combine (root : FullPath system)
    (h : validatePortablePath unicode path = .ok ()) :
    ∃ rest, combine system.platform root.text (replaceSlashes system.platform path) =
        root.volume ++ system.platform.separator :: rest ∧
      rest.splitOnP system.platform.isSeparator = root.names ++ path.splitOn '/' := by
  set platform := system.platform with hplatform
  set replaced := replaceSlashes platform path with hreplaced
  obtain ⟨c, others, hpath, hslash, hbackslash, hnoBackslash, hnoColon⟩ :=
    exists_head_of_validated h
  have hsplit : replaced.splitOnP platform.isSeparator = path.splitOn '/' :=
    splitOnP_replaceSlashes platform hnoBackslash
  have hcons : replaced = c :: replaceSlashes platform others := by
    rw [hreplaced, hpath, replaceSlashes, map_cons, if_neg hslash]
    rfl
  have hhead : platform.isSeparator c = false := by
    cases platform <;> simp [Platform.isSeparator, Platform.separator, hslash, hbackslash]
  have hrooted : isPathRooted platform replaced = false := by
    have hcolon : replaced[1]? ≠ some ':' := by
      intro hsome
      obtain ⟨d, hd, hchanged⟩ := mem_map.mp (mem_of_getElem? hsome)
      by_cases heq : d = '/'
      · rw [if_pos heq] at hchanged
        cases hplatformCase : platform <;> rw [hplatformCase] at hchanged <;>
          exact absurd hchanged (by decide)
      · rw [if_neg heq] at hchanged
        exact hnoColon (hchanged ▸ hd)
    rw [isPathRooted, beq_eq_false_iff_ne.mpr hcolon, Bool.and_false, Bool.or_false, hcons,
      List.head?_cons, Option.any_some, hhead]
  have htext : root.text ≠ [] := by simp [FullPath.text]
  have hreplacedNe : replaced ≠ [] := by simp [hcons]
  unfold combine
  rw [if_neg htext, if_neg hreplacedNe, hrooted, if_neg (by decide)]
  have hsecond : replaced.head?.any platform.isSeparator = false := by
    rw [hcons, List.head?_cons, Option.any_some, hhead]
  have hseparator := platform.isSeparator_separator
  have hfull : ∀ name ∈ root.names, ∀ d ∈ name, platform.isSeparator d = false :=
    fun name hname ↦ (root.isFullName name hname).no_separator
  rw [hsecond, Bool.or_false]
  by_cases hnames : root.names = []
  · have hroot : root.text = root.volume ++ [platform.separator] := by
      simp [FullPath.text, hnames, hplatform]
    have hlast : root.text.getLast?.any platform.isSeparator = true := by
      rw [hroot, List.getLast?_concat, Option.any_some, hseparator]
    rw [if_pos hlast, hroot, hnames, append_assoc]
    exact ⟨replaced, rfl, hsplit⟩
  by_cases htrailing : root.trailing = true
  · have hroot : root.text = root.volume ++ platform.separator ::
        ([platform.separator].intercalate root.names ++ [platform.separator]) := by
      simp [FullPath.text, hnames, htrailing, hplatform]
    have hlast : root.text.getLast?.any platform.isSeparator = true := by
      rw [hroot, ← cons_append, ← append_assoc, List.getLast?_concat, Option.any_some, hseparator]
    rw [if_pos hlast, hroot]
    refine ⟨[platform.separator].intercalate root.names ++ platform.separator :: replaced, ?_, ?_⟩
    · simp
    · rw [splitOnP_intercalate_append hseparator hnames hfull, hsplit]
  · have hroot : root.text = root.volume ++ platform.separator ::
        [platform.separator].intercalate root.names := by
      simp [FullPath.text, htrailing, hplatform]
    have hlast : root.text.getLast?.any platform.isSeparator = false := by
      obtain ⟨before, d, hjoined, hd⟩ := root.exists_last_character hnames
      rw [hroot, hjoined, ← cons_append, ← append_assoc, List.getLast?_concat, Option.any_some]
      exact hd
    rw [hlast, if_neg (by decide), hroot]
    refine ⟨[platform.separator].intercalate root.names ++ platform.separator :: replaced, ?_, ?_⟩
    · simp
    · rw [splitOnP_intercalate_append hseparator hnames hfull, hsplit]

theorem getFullPath_combine (root : FullPath system)
    (h : validatePortablePath unicode path = .ok ()) {candidate : FullPath system}
    (hcandidate : getFullPath system
      (combine system.platform root.text (replaceSlashes system.platform path)) = some candidate) :
    candidate.volume = root.volume ∧ candidate.names = root.names ++ path.splitOn '/' := by
  obtain ⟨rest, hcombine, hsplit⟩ := exists_combine root h
  have hopen : system.openRoot (root.volume ++ system.platform.separator :: rest) =
      (root.volume, rest) := system.openRoot_append _ _ root.isVolume
  obtain ⟨init, last, hparts⟩ :=
    (eq_nil_or_concat' (path.splitOn '/')).resolve_left (splitOn_ne_nil _ _)
  have hvalidated : ∀ part ∈ path.splitOn '/', IsValidatedPart part := fun _ hpart ↦
    isValidatedPart_of_validated h hpart
  have hlast : IsValidatedPart last := hvalidated last (by simp [hparts])
  have hfull : ∀ name ∈ root.names ++ path.splitOn '/', IsFullName system.platform name := by
    intro name hname
    rcases mem_append.mp hname with hname | hname
    · exact root.isFullName name hname
    · exact (hvalidated name hname).isFullName system.platform
  have hnames : cleanNames system.platform rest = root.names ++ path.splitOn '/' := by
    have hsegments : root.names ++ path.splitOn '/' = root.names ++ init ++ [last] := by
      rw [hparts, append_assoc]
    unfold cleanNames
    dsimp only
    rw [hsplit, hsegments, dropLast_concat, getLastD_concat, hlast.trimLast, ← hsegments,
      foldl_cleanName_of_full hfull, nil_append]
  unfold getFullPath at hcandidate
  rw [hcombine] at hcandidate
  split_ifs at hcandidate
  obtain rfl := Option.some.inj hcandidate
  constructor
  · show (system.openRoot (root.volume ++ system.platform.separator :: rest)).1 = root.volume
    rw [hopen]
  · show cleanNames system.platform
      (system.openRoot (root.volume ++ system.platform.separator :: rest)).2 = _
    rw [hopen, hnames]

end Joining

/-! ### Confinement -/

/-- A full path is strictly below a root, and what leads to it from there has no relative name, no
drive, no stream and no root. -/
structure IsConfined {system : System} (root candidate : FullPath system) (relative : Path) :
    Prop where
  volume : candidate.volume = root.volume
  names : candidate.names = root.names ++ relative
  ne_nil : relative ≠ []
  parts : ∀ name ∈ relative, IsValidatedPart name

/-- Two full paths lead to one file, on a volume with the given case folding. -/
def SameFile {system : System} (fold : Char → Char) (first second : FullPath system) : Prop :=
  first.volume = second.volume ∧ pathKey fold first.names = pathKey fold second.names

/-- A validated path on which all guards agree: the server accepts it unchanged, it has no control
character, it is resolved strictly below every root, and no path that differs from it in more than
letter case is resolved to the same file. -/
structure GuardsAgree (unicode : Unicode) (path : Text) : Prop where
  server : normalizeManifestPath unicode path = .ok path
  no_control : ∀ c ∈ path, 0x1f < c.toNat
  confined : ∀ (system : System) (root candidate : FullPath system),
    resolveUnderRoot unicode root path = .ok candidate →
      IsConfined root candidate (path.splitOn '/')
  separate : ∀ other, validatePortablePath unicode other = .ok () →
    unicode.equalsIgnoreCase path other = false →
    ∀ (system : System) (root first second : FullPath system),
      resolveUnderRoot unicode root path = .ok first →
      resolveUnderRoot unicode root other = .ok second →
      ∀ fold : Char → Char, (∀ c d, fold c = fold d → unicode.upper c = unicode.upper d) →
        ¬ SameFile fold first second

section Guards

variable {system : System} {unicode : Unicode} {path other : Text}
  {root candidate first second : FullPath system}

theorem isConfined_of_resolveUnderRoot (h : resolveUnderRoot unicode root path = .ok candidate) :
    validatePortablePath unicode path = .ok () ∧ IsConfined root candidate (path.splitOn '/') := by
  unfold resolveUnderRoot at h
  simp only [bind_eq_ok, orThrow_eq_ok, throwIf_eq_ok, pure_eq_ok] at h
  obtain ⟨_, hvalidate, found, hfound, -, -, -, -, rfl⟩ := h
  have hvalid : validatePortablePath unicode path = .ok () := by
    cases hresult : validatePortablePath unicode path with
    | ok _ => rfl
    | error exception =>
      rw [hresult] at hvalidate
      cases hvalidate
  obtain ⟨hvolume, hnames⟩ := getFullPath_combine root hvalid hfound
  exact ⟨hvalid, hvolume, hnames, splitOn_ne_nil _ _,
    fun _ hpart ↦ isValidatedPart_of_validated hvalid hpart⟩

theorem not_sameFile_of_resolveUnderRoot (hne : unicode.equalsIgnoreCase path other = false)
    (hfirst : resolveUnderRoot unicode root path = .ok first)
    (hsecond : resolveUnderRoot unicode root other = .ok second) {fold : Char → Char}
    (hfold : ∀ c d, fold c = fold d → unicode.upper c = unicode.upper d) :
    ¬ SameFile fold first second := by
  rintro ⟨-, hkey⟩
  have hfirstNames := (isConfined_of_resolveUnderRoot hfirst).2.names
  have hsecondNames := (isConfined_of_resolveUnderRoot hsecond).2.names
  rw [hfirstNames, hsecondNames, pathKey_append, pathKey_append] at hkey
  have hparts : (path.splitOn '/').map (List.map fold) = (other.splitOn '/').map (List.map fold) :=
    append_cancel_left hkey
  -- the case folding of the volume keeps apart what the comparison keeps apart
  have hupper {left right : Text} (h : left.map fold = right.map fold) :
      left.map unicode.upper = right.map unicode.upper := by
    rw [← forall₂_eq_eq_eq, forall₂_map_left_iff, forall₂_map_right_iff] at h ⊢
    exact h.imp fun c d hsame ↦ hfold c d hsame
  have hupperParts : (path.splitOn '/').map (List.map unicode.upper) =
      (other.splitOn '/').map (List.map unicode.upper) := by
    rw [← forall₂_eq_eq_eq, forall₂_map_left_iff, forall₂_map_right_iff]
      at hparts ⊢
    exact hparts.imp fun left right hsame ↦ hupper hsame
  have hpaths : unicode.toUpperInvariant path = unicode.toUpperInvariant other := by
    have hjoin (text : Text) : ['/'].intercalate (text.splitOn '/') = text :=
      intercalate_splitOn '/'
    rw [Unicode.toUpperInvariant, Unicode.toUpperInvariant, ← hjoin path, ← hjoin other,
      map_intercalate, map_intercalate, hupperParts]
  rw [Unicode.equalsIgnoreCase, hpaths, beq_self_eq_true] at hne
  cases hne

end Guards

theorem isPortablePath_of_validated {unicode : Unicode} {path : Text}
    (h : validatePortablePath unicode path = .ok ()) (hend : path.getLast? ≠ some '\n') :
    IsPortablePath unicode path := by
  obtain ⟨first, rest, hpath, -, -, hbackslash, hcolon⟩ := exists_head_of_validated h
  have hparts : ∀ part ∈ path.splitOn '/', IsValidatedPart part := fun _ hpart ↦
    isValidatedPart_of_validated h hpart
  unfold validatePortablePath ManifestValidator.normalize at h
  simp only [bind_eq_ok, throwIf_eq_ok, pure_eq_ok, exists_const, not_or, not_exists, not_and,
    not_not] at h
  obtain ⟨⟨-, -, hrelative, -, -⟩, -, hwindows, _, ⟨-, rfl⟩, hnormalized, hregex⟩ := h
  have hcontrol : ∀ c ∈ path, 0x1f < c.toNat := by
    unfold portablePathRegex at hregex
    have hlast : (path.getLast? == some '\n') = false := beq_eq_false_iff_ne.mpr hend
    rw [hlast, Bool.false_and, Bool.or_false, isControlFree, Bool.and_eq_true,
      all_eq_true] at hregex
    exact fun c hc ↦ of_decide_eq_true (hregex.2 c hc)
  refine ⟨by rw [hpath]; simp, hbackslash, hrelative, hcolon, hnormalized, fun part hpart ↦ ?_⟩
  have hpartValid := hparts part hpart
  have hreserved := (hwindows part hpart).2.2
  rw [isReservedWindowsName_iff_server, Bool.not_eq_true] at hreserved
  exact
    { ne_nil := hpartValid.ne_nil
      ne_dot := hpartValid.ne_dot
      ne_dotdot := hpartValid.ne_dotdot
      no_control := fun c hc ↦ hcontrol c (mem_of_mem_splitOn hpart hc)
      no_trailing_space := hpartValid.no_trailing_space
      no_trailing_dot := hpartValid.no_trailing_dot
      not_reserved := hreserved }

/-- **The guards agree on a validated path exactly when it does not end in a line feed.**

Assumes: the launcher's validation accepts the path. -/
theorem guardsAgree_iff (unicode : Unicode) (path : Text)
    (h : validatePortablePath unicode path = .ok ()) :
    GuardsAgree unicode path ↔ path.getLast? ≠ some '\n' := by
  constructor
  · intro hagree hend
    exact absurd (hagree.no_control '\n' (mem_of_getLast? hend)) (by decide)
  · intro hend
    have hportable := isPortablePath_of_validated h hend
    refine ⟨normalizeManifestPath_eq_ok.mpr ⟨hportable, rfl⟩, fun c hc ↦ ?_,
      fun _ _ _ hresolve ↦ (isConfined_of_resolveUnderRoot hresolve).2,
      fun _ _ hne _ _ _ _ hfirst hsecond _ hfold ↦
        not_sameFile_of_resolveUnderRoot hne hfirst hsecond hfold⟩
    by_cases hslash : c = '/'
    · rw [hslash]
      decide
    · obtain ⟨part, hpart, hmem⟩ := exists_mem_splitOn hc hslash
      exact (hportable.parts part hpart).no_control c hmem

/-- A path of two parts. -/
theorem guardsAgree_nested : GuardsAgree asciiUnicode "data/game.exe" :=
  (guardsAgree_iff asciiUnicode _ (by decide)).mpr (by decide)

/-- The launcher's expression accepts a final line feed. -/
theorem not_guardsAgree_lineFeed :
    validatePortablePath asciiUnicode "game.exe\n" = .ok () ∧
      ¬ GuardsAgree asciiUnicode "game.exe\n" := by
  refine ⟨by decide, fun hagree ↦ ?_⟩
  exact absurd (hagree.no_control '\n' (by decide)) (by decide)

/-- The server refuses it. -/
example : normalizeManifestPath asciiUnicode "game.exe\n" = .error (.path "game.exe\n") := by
  decide

end GameLauncher.Manifests.PathGuard
