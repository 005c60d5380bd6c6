import GameLauncher.Catalog.Database
import GameLauncher.Foundation.OrderBy
import GameLauncher.Foundation.PrefixCode

/-!
# The listing of games and their latest builds

`list_published_games` picks the latest build of a game by its time of publication, and
`is_latest_published_build` by the time of publication or else of creation, and then by the id.
Texts are ordered by the collation of the database, and rows that are equal in an order come in the
order of a query plan.

`latest_iff` shows that the two agree under every plan exactly when in every game one published
build was published after all others and, where another has no time of publication, not created
before it.
-/

set_option autoImplicit false

namespace GameLauncher.Catalog

open Foundation List

/-! ### Rows -/

/-- The columns of `games` that are listed. -/
structure GameRow where
  id : Text
  slug : Text
  title : Text
  description : Text
  heroImageUrl : Option Text
  coverImageUrl : Option Text
  deriving DecidableEq, Repr

/-- The columns of `builds` that are listed. -/
structure BuildRow where
  id : Text
  gameId : Text
  displayVersion : Text
  state : Text
  sizeBytes : ℤ
  createdAt : ℤ
  publishedAt : Option ℤ
  deriving DecidableEq, Repr

/-- `state = 'PUBLISHED'`. -/
def BuildRow.isPublished (build : BuildRow) : Bool := build.state == "PUBLISHED"

/-- `COALESCE(published_at, created_at)`. -/
def BuildRow.effectiveAt (build : BuildRow) : ℤ := build.publishedAt.getD build.createdAt

/-- The games and their builds; `game_id` references a game. -/
structure GameTables where
  games : Table GameRow GameRow.id
  builds : Table BuildRow BuildRow.id
  references : ∀ build ∈ builds, ∃ game ∈ games, game.id = build.gameId

/-- A deterministic collation: texts that are equal in it are the same. -/
structure Collation where
  le : Text → Text → Bool
  trans : ∀ a b c, le a b = true → le b c = true → le a c = true
  total : ∀ a b, (le a b || le b a) = true
  antisymm : ∀ a b, le a b = true → le b a = true → a = b

/-- `first < second`. -/
def Collation.lt (collation : Collation) (first second : Text) : Bool := !collation.le second first

structure BuildSummary where
  id : Text
  gameId : Text
  displayVersion : Text
  sizeBytes : ℕ
  publishedAt : Option ℤ
  deriving DecidableEq, Repr

structure GameSummary extends GameRow where
  latestBuild : Option BuildSummary
  deriving DecidableEq, Repr

structure CatalogPage where
  items : List GameSummary
  nextCursor : Option Text
  deriving DecidableEq, Repr

/-! ### The queries -/

/-- `ORDER BY published_at DESC NULLS LAST`. -/
def publishedFirst (first second : BuildRow) : Bool :=
  match first.publishedAt, second.publishedAt with
  | some time, some other => other ≤ time
  | none, some _ => false
  | _, none => true

/-- `ORDER BY g.title, g.id`. -/
def titleFirst (collation : Collation) (first second : GameRow) : Bool :=
  if first.title = second.title then collation.le first.id second.id
  else collation.le first.title second.title

namespace GameTables

variable (tables : GameTables) (collation : Collation)

/-- An order in which a query may come to the builds. -/
def IsPlan (plan : List BuildRow) : Prop := plan.Perm tables.builds.rows

/-- The lateral subquery of `list_published_games`. -/
def latestBuild (plan : List BuildRow) (gameId : Text) : Option BuildRow :=
  firstBy publishedFirst (plan.filter fun build ↦ build.gameId == gameId && build.isPublished)

/-- A row of the result. -/
def summary (plan : List BuildRow) (game : GameRow) : GameSummary :=
  { game with
    latestBuild := (latestBuild plan game.id).map fun build ↦
      { id := build.id
        gameId := game.id
        displayVersion := build.displayVersion
        sizeBytes := (max build.sizeBytes 0).toNat
        publishedAt := build.publishedAt } }

def sortedGames : List GameRow := tables.games.rows.mergeSort (titleFirst collation)

def listPublishedGames (plan : List BuildRow) (limit offset : ℕ) : CatalogPage :=
  let items := (((tables.sortedGames collation).drop offset).take (min limit 100)).map (summary plan)
  { items
    nextCursor := if items.length = min limit 100 then some (decimal (offset + items.length))
      else none }

def getGame (plan : List BuildRow) (id : Text) : Option GameSummary :=
  (tables.listPublishedGames collation plan 100 0).items.find? fun game ↦
    game.id == id || game.slug == id

def ListedAsLatest (plan : List BuildRow) (buildId : Text) : Prop :=
  ∃ limit offset, ∃ item ∈ (tables.listPublishedGames collation plan limit offset).items,
    ∃ build, item.latestBuild = some build ∧ build.id = buildId

/-- `newer` comes after `candidate`: later, or at the same time with a greater id. -/
def precedes (candidate newer : BuildRow) : Bool :=
  candidate.effectiveAt < newer.effectiveAt ||
    (newer.effectiveAt == candidate.effectiveAt && collation.lt candidate.id newer.id)

def isLatestPublishedBuild (buildId : Text) : Bool :=
  tables.builds.rows.any fun candidate ↦ candidate.id == buildId && candidate.isPublished &&
    !tables.builds.rows.any fun newer ↦ newer.gameId == candidate.gameId && newer.isPublished &&
      precedes collation candidate newer

/-! ### Orders -/

end GameTables

theorem publishedFirst_trans (first second third : BuildRow)
    (hfirst : publishedFirst first second = true) (hsecond : publishedFirst second third = true) :
    publishedFirst first third = true := by
  unfold publishedFirst at hfirst hsecond ⊢
  cases hone : first.publishedAt <;> cases htwo : second.publishedAt <;>
    cases hthree : third.publishedAt <;> simp_all
  omega

theorem publishedFirst_total (first second : BuildRow) :
    (publishedFirst first second || publishedFirst second first) = true := by
  unfold publishedFirst
  cases first.publishedAt <;> cases second.publishedAt <;> simp
  omega

theorem publishedFirst_eq_false {first second : BuildRow} :
    publishedFirst first second = false ↔ ∃ time, second.publishedAt = some time ∧
        ∀ other, first.publishedAt = some other → other < time := by
  unfold publishedFirst
  cases hfirst : first.publishedAt <;> cases hsecond : second.publishedAt <;> simp

theorem titleFirst_trans (collation : Collation) (first second third : GameRow)
    (hfirst : titleFirst collation first second = true)
    (hsecond : titleFirst collation second third = true) :
    titleFirst collation first third = true := by
  have hidTrans := collation.trans first.id second.id third.id
  have htitleTrans := collation.trans first.title second.title third.title
  have hanti := collation.antisymm first.title second.title
  unfold titleFirst at hfirst hsecond ⊢
  grind

theorem titleFirst_total (collation : Collation) (first second : GameRow) :
    (titleFirst collation first second || titleFirst collation second first) = true := by
  have hid := collation.total first.id second.id
  have htitle := collation.total first.title second.title
  unfold titleFirst
  by_cases hsame : first.title = second.title
  · rw [if_pos hsame, if_pos hsame.symm]
    exact hid
  · rw [if_neg hsame, if_neg (Ne.symm hsame)]
    exact htitle

namespace Collation

variable (collation : Collation) {first second : Text}

theorem lt_self (text : Text) : collation.lt text text = false := by
  have htotal := collation.total text text
  rw [Bool.or_self] at htotal
  rw [lt, htotal]
  rfl

theorem lt_or_lt (h : first ≠ second) :
    collation.lt first second = true ∨ collation.lt second first = true := by
  unfold lt
  rw [Bool.not_eq_true', Bool.not_eq_true']
  by_contra hneither
  rw [not_or, Bool.not_eq_false, Bool.not_eq_false] at hneither
  exact h (collation.antisymm first second hneither.2 hneither.1)

theorem not_lt_of_lt (h : collation.lt first second = true) : collation.lt second first = false := by
  unfold lt at h ⊢
  have htotal := collation.total first second
  rw [Bool.not_eq_true'] at h
  rw [h, Bool.or_false] at htotal
  rw [htotal]
  rfl

end Collation

/-! ### The listing -/

namespace GameTables

variable {tables : GameTables} {collation : Collation} {plan : List BuildRow} {gameId buildId : Text}
  {build latest other : BuildRow}

theorem mem_sortedGames {game : GameRow} : game ∈ tables.sortedGames collation ↔ game ∈ tables.games :=
  mem_mergeSort

theorem mem_items {limit offset : ℕ} {item : GameSummary}
    (h : item ∈ (tables.listPublishedGames collation plan limit offset).items) :
    ∃ game ∈ tables.games, item = summary plan game := by
  obtain ⟨game, hgame, rfl⟩ := mem_map.mp h
  exact ⟨game, mem_sortedGames.mp (mem_of_mem_drop (mem_of_mem_take hgame)), rfl⟩

theorem exists_page {game : GameRow} (h : game ∈ tables.games) :
    ∃ offset, summary plan game ∈ (tables.listPublishedGames collation plan 100 offset).items := by
  obtain ⟨offset, hoffset, hgame⟩ := mem_iff_getElem.mp (mem_sortedGames.mpr h)
  refine ⟨offset, mem_map.mpr ⟨game, ?_, rfl⟩⟩
  rw [drop_eq_getElem_cons hoffset, hgame]
  exact mem_cons_self

theorem listedAsLatest_iff : tables.ListedAsLatest collation plan buildId ↔
    ∃ game ∈ tables.games, ∃ build, latestBuild plan game.id = some build ∧ build.id = buildId := by
  constructor
  · rintro ⟨limit, offset, item, hitem, listed, hlisted, hid⟩
    obtain ⟨game, hgame, rfl⟩ := mem_items hitem
    obtain ⟨build, hbuild, rfl⟩ := Option.map_eq_some_iff.mp hlisted
    exact ⟨game, hgame, build, hbuild, hid⟩
  · rintro ⟨game, hgame, build, hbuild, hid⟩
    obtain ⟨offset, hitem⟩ : ∃ offset, summary plan game ∈
        (tables.listPublishedGames collation plan 100 offset).items := exists_page hgame
    exact ⟨100, offset, _, hitem, _, Option.map_eq_some_iff.mpr ⟨build, hbuild, rfl⟩, hid⟩

def IsCandidate (tables : GameTables) (gameId : Text) (build : BuildRow) : Prop :=
  build ∈ tables.builds ∧ build.isPublished = true ∧ build.gameId = gameId

theorem mem_candidates (hplan : tables.IsPlan plan) :
    build ∈ plan.filter (fun build ↦ build.gameId == gameId && build.isPublished) ↔
      tables.IsCandidate gameId build := by
  have hmem : build ∈ plan ↔ build ∈ tables.builds := hplan.mem_iff
  rw [mem_filter, hmem, Bool.and_eq_true, beq_iff_eq, IsCandidate, and_comm (b := _ = gameId)]

theorem latestBuild_eq_some (hplan : tables.IsPlan plan)
    (h : latestBuild plan gameId = some build) :
    tables.IsCandidate gameId build ∧
      ∀ other, tables.IsCandidate gameId other → publishedFirst build other = true := by
  obtain ⟨hmem, hfirst⟩ := firstBy_eq_some publishedFirst_trans publishedFirst_total h
  exact ⟨(mem_candidates hplan).mp hmem, fun other hother ↦
    hfirst other ((mem_candidates hplan).mpr hother)⟩

theorem exists_latestBuild (hplan : tables.IsPlan plan) (h : tables.IsCandidate gameId build) :
    ∃ latest, latestBuild plan gameId = some latest :=
  exists_firstBy ((mem_candidates hplan).mpr h)

theorem isPlan_cons_erase (h : other ∈ tables.builds) :
    tables.IsPlan (other :: tables.builds.rows.erase other) :=
  (perm_cons_erase h).symm

theorem latestBuild_ne (hbuild : tables.IsCandidate gameId build)
    (hother : tables.IsCandidate gameId other) (hne : other ≠ build)
    (hle : publishedFirst other build = true) :
    latestBuild (other :: tables.builds.rows.erase other) gameId ≠ some build := by
  refine firstBy_ne publishedFirst_trans publishedFirst_total ?_ ?_ hle
  · have hnodup : tables.builds.rows.Nodup := tables.builds.keys_nodup.of_map _
    exact ((isPlan_cons_erase hother.1).nodup_iff.mpr hnodup).filter _
  · have hkept : (other.gameId == gameId && other.isPublished) = true := by
      rw [hother.2.2, hother.2.1, beq_self_eq_true]
      rfl
    have hrest : build ∈ (tables.builds.rows.erase other).filter
        fun build ↦ build.gameId == gameId && build.isPublished := by
      refine mem_filter.mpr ⟨(mem_erase_of_ne (Ne.symm hne)).mpr hbuild.1, ?_⟩
      rw [hbuild.2.2, hbuild.2.1, beq_self_eq_true]
      rfl
    rw [filter_cons, if_pos hkept]
    exact List.Sublist.cons_cons _ (singleton_sublist.mpr hrest)

/-! ### The latest published build -/

/-- No published build of the game comes after this one. -/
def IsLatest (tables : GameTables) (collation : Collation) (gameId : Text) (build : BuildRow) :
    Prop :=
  tables.IsCandidate gameId build ∧
    ∀ newer, tables.IsCandidate gameId newer → precedes collation build newer = false

theorem isLatestPublishedBuild_eq_true : tables.isLatestPublishedBuild collation buildId = true ↔
    ∃ gameId build, tables.IsLatest collation gameId build ∧ build.id = buildId := by
  unfold isLatestPublishedBuild IsLatest IsCandidate
  simp only [any_eq_true, Bool.and_eq_true, beq_iff_eq, Bool.not_eq_true', any_eq_false,
    not_and, Bool.not_eq_true]
  constructor
  · rintro ⟨candidate, hmem, ⟨hid, hpublished⟩, hnewer⟩
    exact ⟨candidate.gameId, candidate, ⟨⟨hmem, hpublished, rfl⟩, fun newer h ↦
      hnewer newer h.1 ⟨h.2.2, h.2.1⟩⟩, hid⟩
  · rintro ⟨gameId, candidate, ⟨⟨hmem, hpublished, rfl⟩, hnewer⟩, hid⟩
    exact ⟨candidate, hmem, ⟨hid, hpublished⟩, fun newer h hother ↦
      hnewer newer ⟨h, hother.2, hother.1⟩⟩

theorem precedes_eq_false : precedes collation build other = false ↔
    other.effectiveAt ≤ build.effectiveAt ∧
      (other.effectiveAt = build.effectiveAt → collation.lt build.id other.id = false) := by
  unfold precedes
  rw [Bool.or_eq_false_iff, decide_eq_false_iff_not, not_lt, Bool.and_eq_false_iff,
    beq_eq_false_iff_ne, ne_eq, ← imp_iff_not_or]

theorem IsLatest.unique (h : tables.IsLatest collation gameId build)
    (hother : tables.IsLatest collation gameId other) : build = other := by
  obtain ⟨hle, hid⟩ := precedes_eq_false.mp (h.2 other hother.1)
  obtain ⟨hge, hotherId⟩ := precedes_eq_false.mp (hother.2 build h.1)
  have htime := le_antisymm hle hge
  by_contra hne
  have hids : build.id ≠ other.id := fun heq ↦ hne (Table.eq_of_key_eq h.1.1 hother.1.1 heq)
  rcases collation.lt_or_lt hids with hlt | hlt
  · rw [hid htime] at hlt
    cases hlt
  · rw [hotherId htime.symm] at hlt
    cases hlt

/-! ### When the two agree -/

/-- The first build was published after the second one, and not before it was created. -/
def Outlasts (collation : Collation) (build other : BuildRow) : Prop :=
  ∃ time, build.publishedAt = some time ∧ match other.publishedAt with
    | some earlier => earlier < time
    | none => other.createdAt < time ∨
        other.createdAt = time ∧ collation.lt other.id build.id = true

/-- In every game one published build outlasts all others. -/
def Undisputed (tables : GameTables) (collation : Collation) : Prop :=
  ∀ gameId build, tables.IsCandidate gameId build → ∃ latest, tables.IsCandidate gameId latest ∧
      ∀ other, tables.IsCandidate gameId other → other ≠ latest → Outlasts collation latest other

theorem Outlasts.publishedFirst (h : Outlasts collation build other) :
    publishedFirst other build = false := by
  obtain ⟨time, htime, hother⟩ := h
  refine publishedFirst_eq_false.mpr ⟨time, htime, fun earlier hearlier ↦ ?_⟩
  rw [hearlier] at hother
  exact hother

theorem Outlasts.precedes (h : Outlasts collation build other) :
    GameTables.precedes collation build other = false ∧
      GameTables.precedes collation other build = true := by
  obtain ⟨time, htime, hother⟩ := h
  have hbuild : build.effectiveAt = time := by rw [BuildRow.effectiveAt, htime, Option.getD_some]
  have hcases : other.effectiveAt < time ∨
      other.effectiveAt = time ∧ collation.lt other.id build.id = true := by
    cases hpublished : other.publishedAt with
    | some earlier =>
      rw [hpublished] at hother
      rw [BuildRow.effectiveAt, hpublished, Option.getD_some]
      exact .inl hother
    | none =>
      rw [hpublished] at hother
      rw [BuildRow.effectiveAt, hpublished, Option.getD_none]
      exact hother
  constructor
  · rw [precedes_eq_false, hbuild]
    rcases hcases with hlt | ⟨heq, hlt⟩
    · exact ⟨hlt.le, fun h ↦ absurd h hlt.ne⟩
    · exact ⟨heq.le, fun _ ↦ collation.not_lt_of_lt hlt⟩
  · by_contra hfalse
    obtain ⟨hle, hid⟩ := precedes_eq_false.mp (Bool.not_eq_true _ ▸ hfalse)
    rw [hbuild] at hle hid
    rcases hcases with hlt | ⟨heq, hlt⟩
    · exact absurd hle (not_le.mpr hlt)
    · rw [hid heq.symm] at hlt
      cases hlt

theorem latestBuild_of_outlasts (hplan : tables.IsPlan plan)
    (hlatest : tables.IsCandidate gameId latest)
    (h : ∀ other, tables.IsCandidate gameId other → other ≠ latest →
      Outlasts collation latest other) : latestBuild plan gameId = some latest :=
  firstBy_eq_of_strict publishedFirst_trans publishedFirst_total
    ((mem_candidates hplan).mpr hlatest) fun other hother hne ↦
      (h other ((mem_candidates hplan).mp hother) hne).publishedFirst

theorem isLatest_of_outlasts (hlatest : tables.IsCandidate gameId latest)
    (h : ∀ other, tables.IsCandidate gameId other → other ≠ latest →
      Outlasts collation latest other) : tables.IsLatest collation gameId latest := by
  refine ⟨hlatest, fun newer hnewer ↦ ?_⟩
  by_cases hsame : newer = latest
  · rw [hsame, precedes_eq_false]
    exact ⟨le_refl _, fun _ ↦ collation.lt_self latest.id⟩
  · exact (h newer hnewer hsame).precedes.1

theorem outlasts_of_latest (hbuild : tables.IsLatest collation gameId build)
    (hother : tables.IsCandidate gameId other) (hne : other ≠ build)
    (hstrict : publishedFirst other build = false) : Outlasts collation build other := by
  obtain ⟨time, htime, hlt⟩ := publishedFirst_eq_false.mp hstrict
  refine ⟨time, htime, ?_⟩
  cases hpublished : other.publishedAt with
  | some earlier => exact hlt earlier hpublished
  | none =>
    obtain ⟨hle, hid⟩ := precedes_eq_false.mp (hbuild.2 other hother)
    rw [BuildRow.effectiveAt, BuildRow.effectiveAt, hpublished, htime, Option.getD_none,
      Option.getD_some] at hle hid
    rcases hle.lt_or_eq with hearlier | hequal
    · exact .inl hearlier
    · refine .inr ⟨hequal, ?_⟩
      have hids : other.id ≠ build.id := fun heq ↦ hne (Table.eq_of_key_eq hother.1 hbuild.1.1 heq)
      refine (collation.lt_or_lt hids).resolve_right fun hafter ↦ ?_
      rw [hid hequal] at hafter
      cases hafter

end GameTables

open GameTables in
/-- The listing and the look-up of the latest build agree under every plan exactly when in every game
one published build outlasts all others. -/
theorem latest_iff (tables : GameTables) (collation : Collation) :
    (∀ plan, tables.IsPlan plan → ∀ buildId, tables.ListedAsLatest collation plan buildId ↔
        tables.isLatestPublishedBuild collation buildId = true) ↔
      tables.Undisputed collation := by
  constructor
  · intro h gameId build hbuild
    have hpicked (plan : List BuildRow) (hplan : tables.IsPlan plan) :
        ∃ latest, latestBuild plan gameId = some latest ∧
          tables.IsLatest collation gameId latest := by
      obtain ⟨latest, hlatest⟩ := exists_latestBuild hplan hbuild
      obtain ⟨hcandidate, -⟩ := latestBuild_eq_some hplan hlatest
      obtain ⟨game, hgame, hid⟩ := tables.references latest hcandidate.1
      rw [hcandidate.2.2] at hid
      obtain ⟨otherGame, other, hother, hsame⟩ := isLatestPublishedBuild_eq_true.mp
        ((h plan hplan latest.id).mp
          (listedAsLatest_iff.mpr ⟨game, hgame, latest, hid ▸ hlatest, rfl⟩))
      obtain rfl : other = latest := Table.eq_of_key_eq hother.1.1 hcandidate.1 hsame
      have hgames : otherGame = gameId := hother.1.2.2.symm.trans hcandidate.2.2
      exact ⟨other, hlatest, hgames ▸ hother⟩
    obtain ⟨latest, -, hlatest⟩ := hpicked tables.builds.rows (List.Perm.refl _)
    refine ⟨latest, hlatest.1, fun other hother hne ↦ ?_⟩
    refine outlasts_of_latest hlatest hother hne ?_
    by_contra hle
    -- The plan that comes to the other build first picks the same build.
    obtain ⟨picked, hpicks, hpickedLatest⟩ := hpicked _ (isPlan_cons_erase hother.1)
    rw [hpickedLatest.unique hlatest] at hpicks
    exact latestBuild_ne hlatest.1 hother hne (Bool.not_eq_false _ ▸ hle) hpicks
  · intro h plan hplan buildId
    rw [listedAsLatest_iff, isLatestPublishedBuild_eq_true]
    constructor
    · rintro ⟨game, -, build, hbuild, hid⟩
      obtain ⟨latest, hlatest, houtlasts⟩ :=
        h game.id build (latestBuild_eq_some hplan hbuild).1
      rw [latestBuild_of_outlasts hplan hlatest houtlasts, Option.some.injEq] at hbuild
      exact ⟨game.id, latest, isLatest_of_outlasts hlatest houtlasts, hbuild ▸ hid⟩
    · rintro ⟨gameId, build, hbuild, hid⟩
      obtain ⟨latest, hlatest, houtlasts⟩ := h gameId build hbuild.1
      have hsame := hbuild.unique (isLatest_of_outlasts hlatest houtlasts)
      obtain ⟨game, hgame, hgameId⟩ := tables.references latest hlatest.1
      rw [hlatest.2.2] at hgameId
      refine ⟨game, hgame, latest, ?_, hsame ▸ hid⟩
      rw [hgameId]
      exact latestBuild_of_outlasts hplan hlatest houtlasts

/-! ### A game on which they disagree -/

section EqualTimes

def codePointCollation : Collation where
  le first second := decide (first ≤ second)
  trans a b c hab hbc := decide_eq_true ((of_decide_eq_true hab).trans (of_decide_eq_true hbc))
  total a b := by
    rw [Bool.or_eq_true, decide_eq_true_eq, decide_eq_true_eq]
    exact le_total a b
  antisymm a b hab hba := le_antisymm (of_decide_eq_true hab) (of_decide_eq_true hba)

def publishedAtNoon (id : Text) : BuildRow where
  id := id
  gameId := "game"
  displayVersion := "1.0"
  state := "PUBLISHED"
  sizeBytes := 1
  createdAt := 0
  publishedAt := some 12

/-- A game with two builds that were published at the same time. -/
def equalTimes : GameTables where
  games :=
    { rows := [⟨"game", "game", "Game", [], none, none⟩]
      keys_nodup := by decide }
  builds :=
    { rows := [publishedAtNoon "first", publishedAtNoon "second"]
      keys_nodup := by decide }
  references build hbuild := by
    rcases mem_pair.mp hbuild with rfl | rfl <;> exact ⟨_, mem_singleton_self _, rfl⟩

/-- The listing may pick the first build, and the second one is the latest. -/
theorem equal_times_disagree :
    ¬ ∀ plan, equalTimes.IsPlan plan → ∀ buildId,
      equalTimes.ListedAsLatest codePointCollation plan buildId ↔
        equalTimes.isLatestPublishedBuild codePointCollation buildId = true := by
  intro h
  have hordered : [publishedAtNoon "first", publishedAtNoon "second"].Pairwise
      fun first second ↦ publishedFirst first second = true := by
    decide
  have hpicked : GameTables.latestBuild equalTimes.builds.rows "game" =
      some (publishedAtNoon "first") :=
    firstBy_of_pairwise hordered
  have hlisted : equalTimes.ListedAsLatest codePointCollation equalTimes.builds.rows
      "first" :=
    GameTables.listedAsLatest_iff.mpr
      ⟨_, mem_singleton_self _, publishedAtNoon "first", hpicked, rfl⟩
  have hlatest := (h _ (List.Perm.refl _) "first").mp hlisted
  exact absurd hlatest (by decide)

end EqualTimes

end GameLauncher.Catalog
