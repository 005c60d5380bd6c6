import GameLauncher.Foundation.GreedyScan
import GameLauncher.Installation.LauncherRuntime

/-!
# The games of the launcher

`BuildGames` merges the catalog, the installed rows and the games of the stores into the list that
the launcher shows. `buildGames_complete` says that no game and no installed row gets lost, that none
is made up, and when no id is repeated.
-/

set_option autoImplicit false

namespace GameLauncher.Installation

open Foundation List

/-! ### The sources -/

/-- The part of `GameCatalogItem` that an installation reads. -/
structure GameCatalogItem where
  id : Text
  slug : Text
  title : Text
  latestBuild : Option Text

/-- A game that a store has installed or sold. -/
structure StoreGame where
  appId : Text
  name : Text

inductive OptionalStoreProvider
  | gog
  | ubisoftConnect
  | eaApp
  | battleNet
  | xbox
  | itch

/-- The name of a provider in lower case. -/
def OptionalStoreProvider.toLowerInvariant : OptionalStoreProvider → Text
  | gog => "gog"
  | ubisoftConnect => "ubisoftconnect"
  | eaApp => "eaapp"
  | battleNet => "battlenet"
  | xbox => "xbox"
  | itch => "itch"

/-- What `BuildGames` merges, with the conversion by which it compares ids. -/
structure GameSources (unicode : Unicode) where
  catalog : List GameCatalogItem
  installed : Table InstalledGame InstalledGame.gameId
  steamGames : List StoreGame
  steamOwnedGames : List StoreGame
  epicGames : List StoreGame
  optionalStoreGames : List (OptionalStoreProvider × StoreGame)

/-- An id without its letter case. -/
def RuntimeGame.key (unicode : Unicode) (game : RuntimeGame) : Text :=
  unicode.toUpperInvariant game.id

def localGame (row : InstalledGame) : RuntimeGame where
  id := row.gameId
  slug := row.gameId
  title := row.gameId
  buildId := some row.buildId
  installed := some row

def storeGame (store : Text) (game : StoreGame) : RuntimeGame where
  id := store ++ ':' :: game.appId
  slug := store ++ ':' :: game.appId
  title := game.name
  buildId := none
  installed := none

/-- A game of a store is added unless its id is there. -/
def addGame (unicode : Unicode) (games : List RuntimeGame) (game : RuntimeGame) :
    List RuntimeGame :=
  if games.any fun other ↦ unicode.equalsIgnoreCase other.id game.id then games
  else games ++ [game]

namespace GameSources

variable {unicode : Unicode} (sources : GameSources unicode)

def localOf (item : GameCatalogItem) : Option InstalledGame :=
  sources.installed.rows.find? fun row ↦ unicode.equalsIgnoreCase row.gameId item.id

def catalogGame (item : GameCatalogItem) : RuntimeGame where
  id := item.id
  slug := if isNullOrWhiteSpace item.slug then item.id else item.slug
  title := item.title
  buildId := item.latestBuild
  installed := sources.localOf item

/-- The games of the stores, in the order in which they are merged. -/
def storeGames : List RuntimeGame :=
  sources.steamGames.map (storeGame "steam") ++ sources.steamOwnedGames.map (storeGame "steam") ++
    sources.epicGames.map (storeGame "epic") ++
    sources.optionalStoreGames.map fun game ↦ storeGame game.1.toLowerInvariant game.2

def matchedInstalled : List Text :=
  sources.catalog.filterMap fun item ↦ (sources.localOf item).map InstalledGame.gameId

def unmatched : List InstalledGame :=
  sources.installed.rows.filter fun row ↦ decide (row.gameId ∉ sources.matchedInstalled)

def buildGames : List RuntimeGame :=
  sources.storeGames.foldl (addGame unicode)
    (sources.catalog.map sources.catalogGame ++ sources.unmatched.map localGame)

/-- Every game that a source names. -/
def candidates : List RuntimeGame :=
  sources.catalog.map sources.catalogGame ++ sources.installed.rows.map localGame ++
    sources.storeGames

/-- A list with the games of the sources and with every installed row, and with no id twice when
neither the catalog nor the installed rows repeat one. -/
structure Complete (games : List RuntimeGame) : Prop where
  sound : ∀ game ∈ games, game ∈ sources.candidates
  listed : ∀ candidate ∈ sources.candidates, ∃ game ∈ games, game.key unicode = candidate.key unicode
  installed : ∀ row ∈ sources.installed, ∃ game ∈ games, game.installed = some row
  distinct : ((sources.catalog.map sources.catalogGame).map (RuntimeGame.key unicode)).Nodup →
    ((sources.installed.rows.map localGame).map (RuntimeGame.key unicode)).Nodup →
    (games.map (RuntimeGame.key unicode)).Nodup

end GameSources

/-! ### Merging -/

variable {unicode : Unicode}

theorem foldl_addGame (games more : List RuntimeGame) :
    more.foldl (addGame unicode) games = games ++
      firstsBy (RuntimeGame.key unicode) (games.map (RuntimeGame.key unicode)) more := by
  induction more generalizing games with
  | nil => exact (append_nil games).symm
  | cons first rest ih =>
    have hcondition : (games.any fun other ↦ unicode.equalsIgnoreCase other.id first.id) = true ↔
        first.key unicode ∈ games.map (RuntimeGame.key unicode) := by
      simp only [any_eq_true, mem_map, Unicode.equalsIgnoreCase, beq_iff_eq, RuntimeGame.key]
    rw [foldl_cons, ih, firstsBy, addGame, if_congr hcondition rfl rfl]
    split_ifs
    · rfl
    · rw [append_assoc, singleton_append]
      refine congrArg (games ++ first :: ·) (firstsBy_congr (fun key ↦ ?_) rest)
      rw [map_append, mem_append, map_singleton, mem_singleton, mem_insert_iff, or_comm]

/-! ### Matching installed rows -/

namespace GameSources

variable {sources : GameSources unicode} {row : InstalledGame}

theorem localOf_spec {item : GameCatalogItem} (h : sources.localOf item = some row) :
    row ∈ sources.installed ∧
      unicode.toUpperInvariant row.gameId = unicode.toUpperInvariant item.id :=
  ⟨mem_of_find?_eq_some h, by simpa [Unicode.equalsIgnoreCase] using find?_some h⟩

theorem mem_matchedInstalled (hrow : row ∈ sources.installed) :
    row.gameId ∈ sources.matchedInstalled ↔
      ∃ item ∈ sources.catalog, sources.localOf item = some row := by
  simp only [matchedInstalled, mem_filterMap, Option.map_eq_some_iff]
  refine exists_congr fun item ↦ and_congr_right fun _ ↦ ⟨?_, fun h ↦ ⟨row, h, rfl⟩⟩
  rintro ⟨other, hother, hid⟩
  rwa [← sources.installed.eq_of_key_eq (localOf_spec hother).1 hrow hid]

theorem mem_unmatched : row ∈ sources.unmatched ↔
    row ∈ sources.installed ∧ row.gameId ∉ sources.matchedInstalled :=
  mem_filter.trans (and_congr_right fun _ ↦ decide_eq_true_iff)

theorem exists_of_installed (hrow : row ∈ sources.installed) :
    ∃ game ∈ sources.catalog.map sources.catalogGame ++ sources.unmatched.map localGame,
      game.installed = some row ∧ game.key unicode = (localGame row).key unicode := by
  by_cases hmatched : row.gameId ∈ sources.matchedInstalled
  · obtain ⟨item, hitem, hlocal⟩ := (mem_matchedInstalled hrow).mp hmatched
    exact ⟨_, mem_append_left _ (mem_map_of_mem hitem), hlocal, (localOf_spec hlocal).2.symm⟩
  · exact ⟨_, mem_append_right _ (mem_map_of_mem (mem_unmatched.mpr ⟨hrow, hmatched⟩)), rfl, rfl⟩

theorem nodup_own
    (hcatalog : ((sources.catalog.map sources.catalogGame).map (RuntimeGame.key unicode)).Nodup)
    (hlocal : ((sources.installed.rows.map localGame).map (RuntimeGame.key unicode)).Nodup) :
    ((sources.catalog.map sources.catalogGame ++ sources.unmatched.map localGame).map
      (RuntimeGame.key unicode)).Nodup := by
  rw [map_append]
  refine hcatalog.append (hlocal.sublist ((filter_sublist.map _).map _)) fun key hkey hsame ↦ ?_
  rw [map_map] at hkey hsame hlocal
  obtain ⟨item, hitem, rfl⟩ := mem_map.mp hkey
  obtain ⟨row, hrow, hid⟩ := mem_map.mp hsame
  obtain ⟨hmem, hunmatched⟩ := mem_unmatched.mp hrow
  refine hunmatched ((mem_matchedInstalled hmem).mpr ⟨item, hitem, ?_⟩)
  cases hfound : sources.localOf item with
  | none => exact absurd (beq_iff_eq.mpr hid) (find?_eq_none.mp hfound row hmem)
  | some other =>
    obtain ⟨hother, hotherId⟩ := localOf_spec hfound
    rw [inj_on_of_nodup_map hlocal hother hmem (hotherId.trans hid.symm)]

end GameSources

/-- **The launcher shows every game once.** The merged list holds the games of the sources and no
others, keeps every installed row, and repeats an id only if two installed rows do. -/
theorem buildGames_complete (sources : GameSources unicode) :
    sources.Complete sources.buildGames := by
  rw [GameSources.buildGames, foldl_addGame]
  constructor
  · rw [forall_mem_append]
    refine ⟨fun game hown ↦ mem_append_left _ (mem_append.mpr ((mem_append.mp hown).imp_right ?_)),
      fun game hstore ↦ mem_append_right _ (mem_of_mem_firstsBy hstore)⟩
    exact fun hlocal ↦ map_subset _ (fun row hrow ↦ (GameSources.mem_unmatched.mp hrow).1) hlocal
  · rw [GameSources.candidates, forall_mem_append, forall_mem_append, forall_mem_map (f := localGame)]
    refine ⟨⟨fun game hcatalog ↦ ⟨game, mem_append_left _ (mem_append_left _ hcatalog), rfl⟩,
      fun row hrow ↦ ?_⟩, fun game hstore ↦ ?_⟩
    · obtain ⟨game, hgame, -, hkey⟩ := GameSources.exists_of_installed hrow
      exact ⟨game, mem_append_left _ hgame, hkey⟩
    · by_cases hown : game.key unicode ∈ (sources.catalog.map sources.catalogGame ++
          sources.unmatched.map localGame).map (RuntimeGame.key unicode)
      · obtain ⟨other, hother, hkey⟩ := mem_map.mp hown
        exact ⟨other, mem_append_left _ hother, hkey⟩
      · obtain ⟨first, hfirst, hkey⟩ := exists_mem_firstsBy hstore hown
        exact ⟨first, mem_append_right _ hfirst, hkey⟩
  · intro row hrow
    obtain ⟨game, hgame, hinstalled, -⟩ := GameSources.exists_of_installed hrow
    exact ⟨game, mem_append_left _ hgame, hinstalled⟩
  · intro hcatalog hlocal
    rw [map_append]
    refine (GameSources.nodup_own hcatalog hlocal).append (nodup_map_firstsBy _ _ _) fun key hown hstore ↦ ?_
    obtain ⟨game, hgame, rfl⟩ := mem_map.mp hstore
    exact (mem_firstsBy.mp hgame).1 hown

end GameLauncher.Installation
