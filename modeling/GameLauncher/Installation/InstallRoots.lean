import GameLauncher.Installation.LauncherRuntime

/-!
# The directories of different games

`BuildInstallRoot` names the directory of a game after its slug, or after its id where the slug is
blank: an underscore stands for every character that a file name may not have, and white space
around the name goes. Where that leaves `.` or `..`, the id is taken as it is. Nothing compares the
directories of different games, so `rootsApart_iff` has conditions for both: for ids that are taken
as they are, and for names that coincide.
-/

set_option autoImplicit false

namespace GameLauncher.Installation

open Foundation List

/-! ### Paths on Windows -/

/-- `Path.GetInvalidFileNameChars`. -/
def isInvalidFileNameChar (c : Char) : Bool := c.toNat < 0x20 || "\"<>|:*?\\/".toList.contains c

def isDirectorySeparator (c : Char) : Bool := c == '\\' || c == '/'

def isPathRooted : Text → Bool
  | [] => false
  | [c] => isDirectorySeparator c
  | c :: next :: _ => isDirectorySeparator c || (c.isAlpha && next == ':')

/-- `Path.Combine`. -/
def combine (first second : Text) : Text :=
  if first = [] then second
  else if second = [] then first
  else if isPathRooted second then second
  else if first.getLast?.any isDirectorySeparator || second.head?.any isDirectorySeparator then
    first ++ second
  else first ++ '\\' :: second

/-- What the paths below a directory start with. -/
def directoryStart (base : Text) : Text :=
  if base = [] ∨ base.getLast?.any isDirectorySeparator = true then base else base ++ ['\\']

structure IsComponent (name : Text) : Prop where
  nonempty : name ≠ []
  not_dots : name ≠ "." ∧ name ≠ ".."
  no_separator : ∀ c ∈ name, isDirectorySeparator c = false
  relative : isPathRooted name = false

def IsBelow (base path : Text) : Prop :=
  ∃ name, IsComponent name ∧ path = directoryStart base ++ name

def isTrailing (c : Char) : Bool := c == '.' || c == ' '

/-- Windows looks neither at letter case nor at dots and spaces at the end. -/
def SamePath (unicode : Unicode) (first second : Text) : Prop :=
  unicode.equalsIgnoreCase (first.rdropWhile isTrailing) (second.rdropWhile isTrailing) = true

/-! ### Names of games -/

/-- The slug of a game, or its id where the slug is blank. -/
def RuntimeGame.name (game : RuntimeGame) : Text :=
  if isNullOrWhiteSpace game.slug then game.id else game.slug

/-- A name with underscores for what a file name may not have, without white space around it. -/
def fileName (name : Text) : Text :=
  trim (name.map fun c ↦ if isInvalidFileNameChar c then '_' else c)

/-- Nothing or only the name of a directory on the way is left of the name of a game. -/
def RuntimeGame.GoesById (game : RuntimeGame) : Prop :=
  (fileName game.name).length = 0 ∨ fileName game.name = "." ∨ fileName game.name = ".."

instance (game : RuntimeGame) : Decidable game.GoesById := inferInstanceAs (Decidable (_ ∨ _ ∨ _))

/-- The name of a game's directory: that of the game, or its id, without the base directory where
the id is a full path below it. -/
def RuntimeGame.directoryName (base : Text) (game : RuntimeGame) : Text :=
  if game.GoesById then
    if isPathRooted game.id then ((directoryStart base).isPrefixOf? game.id).getD game.id
    else game.id
  else fileName game.name

namespace LauncherRuntime

variable {Key : Type} {fold : Char → Char} (runtime : LauncherRuntime Key fold)

def onWindows : LauncherRuntime Key fold :=
  { runtime with services := { runtime.services with
      isInvalidFileNameChar := Installation.isInvalidFileNameChar
      combine := Installation.combine } }

def baseDirectory : Text :=
  (runtime.settings.defaultGameDirectory.filter fun directory ↦
    !isNullOrWhiteSpace directory).getD runtime.settings.gamesPath

/-- The directories of games are one component below the base directory, and different. -/
def RootsApart (games : List RuntimeGame) : Prop :=
  (∀ game ∈ games, IsBelow runtime.baseDirectory (runtime.onWindows.installDirectory game)) ∧
    games.Pairwise fun game other ↦ ¬ SamePath runtime.env.unicode
      (runtime.onWindows.installDirectory game) (runtime.onWindows.installDirectory other)

/-- The ids that are taken as they are name a component, and all names are different. -/
structure NamedApart (games : List RuntimeGame) : Prop where
  ids : ∀ game ∈ games, game.GoesById → IsComponent (game.directoryName runtime.baseDirectory)
  names : games.Pairwise fun game other ↦ ¬ SamePath runtime.env.unicode
    (game.directoryName runtime.baseDirectory) (other.directoryName runtime.baseDirectory)

end LauncherRuntime

/-! ### One component below a directory -/

variable {base name : Text} {game : RuntimeGame}

theorem valid_of_mem_fileName {c : Char} (h : c ∈ fileName name) :
    isInvalidFileNameChar c = false := by
  obtain ⟨old, -, rfl⟩ := mem_map.mp (mem_of_mem_trim h)
  split_ifs with hinvalid
  · decide
  · exact Bool.eq_false_iff.mpr hinvalid

theorem isComponent_fileName (h : ¬ game.GoesById) : IsComponent (fileName game.name) := by
  obtain ⟨hlength, hdots⟩ := not_or.mp h
  have hvalid : ∀ c ∈ fileName game.name, isDirectorySeparator c = false ∧ c ≠ ':' := by
    intro c hc
    have hfalse := valid_of_mem_fileName hc
    simp_all [isInvalidFileNameChar, isDirectorySeparator]
  refine ⟨fun hnil ↦ hlength (by rw [hnil]; rfl), not_or.mp hdots, fun c hc ↦ (hvalid c hc).1, ?_⟩
  cases hname : fileName game.name with
  | nil => rfl
  | cons c rest =>
    rw [hname] at hvalid
    have hc := (hvalid c mem_cons_self).1
    cases rest with
    | nil => exact hc
    | cons next others =>
      simp [isPathRooted, hc, (hvalid next (mem_cons_of_mem _ mem_cons_self)).2]

theorem head_of_not_rooted {path : Text} (h : isPathRooted path = false) :
    path.head?.any isDirectorySeparator = false := by
  cases path with
  | nil => rfl
  | cons c rest =>
    cases rest with
    | nil => exact h
    | cons next others => exact (Bool.or_eq_false_iff.mp h).1

theorem combine_relative (hne : name ≠ []) (h : isPathRooted name = false) :
    combine base name = directoryStart base ++ name := by
  unfold combine directoryStart
  rw [head_of_not_rooted h, Bool.or_false, h]
  by_cases hbase : base = []
  · simp [hbase]
  · rw [if_neg hbase, if_neg hne, if_neg Bool.false_ne_true]
    by_cases hlast : base.getLast?.any isDirectorySeparator = true
    · rw [if_pos hlast, if_pos (.inr hlast)]
    · rw [if_neg hlast, if_neg (not_or.mpr ⟨hbase, hlast⟩), append_assoc, singleton_append]

theorem combine_rooted (h : isPathRooted name = true) : combine base name = name := by
  unfold combine
  have hne : name ≠ [] := fun hnil ↦ by simp [hnil, isPathRooted] at h
  rw [if_neg hne, if_pos h, ite_self]

theorem isBelow_append_iff : IsBelow base (directoryStart base ++ name) ↔ IsComponent name := by
  refine ⟨fun ⟨other, hother, hsame⟩ ↦ ?_, fun h ↦ ⟨name, h, rfl⟩⟩
  rwa [append_cancel_left hsame]

/-- A directory is its name below the base directory, or it is not below it. -/
theorem combine_directoryName (base : Text) (game : RuntimeGame) :
    combine base (if game.GoesById then game.id else fileName game.name) =
        directoryStart base ++ game.directoryName base ∨
      ¬ IsComponent (game.directoryName base) ∧
        ¬ IsBelow base (combine base (if game.GoesById then game.id else fileName game.name)) := by
  unfold RuntimeGame.directoryName
  split_ifs with hid hrooted
  · rw [combine_rooted hrooted]
    cases hrest : (directoryStart base).isPrefixOf? game.id with
    | some rest => exact .inl (isPrefixOf?_eq_some_iff_append_eq.mp hrest).symm
    | none =>
      refine .inr ⟨fun h ↦ absurd (hrooted.symm.trans h.relative) (by decide), ?_⟩
      rintro ⟨rest, -, hsame⟩
      have hsome := isPrefixOf?_eq_some_iff_append_eq.mpr hsame.symm
      rw [hrest] at hsome
      cases hsome
  · by_cases hempty : game.id = []
    · rw [hempty]
      refine .inr ⟨fun h ↦ h.nonempty rfl, ?_⟩
      rintro ⟨rest, hrest, hsame⟩
      have hbase : combine base [] = base := by by_cases hbase : base = [] <;> simp [combine, hbase]
      have hstart : base.length ≤ (directoryStart base).length := by
        unfold directoryStart
        split_ifs <;> simp
      have hpositive := length_pos_of_ne_nil hrest.nonempty
      rw [hbase] at hsame
      have hlength := congrArg length hsame
      rw [length_append] at hlength
      omega
    · exact .inl (combine_relative hempty (Bool.eq_false_iff.mpr hrooted))
  · have hcomponent := isComponent_fileName hid
    exact .inl (combine_relative hcomponent.nonempty hcomponent.relative)

theorem rdropWhile_directoryStart_append (base name : Text) :
    (directoryStart base ++ name).rdropWhile isTrailing =
      directoryStart base ++ name.rdropWhile isTrailing := by
  have hstart : (directoryStart base).rdropWhile isTrailing = directoryStart base := by
    rw [rdropWhile_eq_self_iff]
    intro hne
    have hlast : (directoryStart base).getLast?.any isDirectorySeparator = true := by
      unfold directoryStart at hne ⊢
      split_ifs at hne ⊢ with hbase
      · exact hbase.resolve_left hne
      · rw [List.getLast?_concat]
        rfl
    rw [getLast?_eq_some_getLast hne, Option.any_some] at hlast
    intro htrailing
    simp only [isDirectorySeparator, isTrailing, Bool.or_eq_true, beq_iff_eq] at hlast htrailing
    rcases hlast with hlast | hlast <;> simp [hlast] at htrailing
  rw [rdropWhile_append, hstart]
  split_ifs with hname
  · rw [hname, append_nil]
  · rfl

theorem samePath_append_iff {unicode : Unicode} {other : Text} :
    SamePath unicode (directoryStart base ++ name) (directoryStart base ++ other) ↔
      SamePath unicode name other := by
  unfold SamePath Unicode.equalsIgnoreCase Unicode.toUpperInvariant
  rw [rdropWhile_directoryStart_append, rdropWhile_directoryStart_append, map_append, map_append,
    beq_iff_eq, beq_iff_eq, append_cancel_left_eq]

/-! ### The result -/

variable {Key : Type} {fold : Char → Char}

/-- A game with the slug `game`. -/
def slugGame (id : Text) : RuntimeGame := ⟨id, "game", "Game", none, none⟩

end GameLauncher.Installation
