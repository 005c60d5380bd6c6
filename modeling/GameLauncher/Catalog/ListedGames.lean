import GameLauncher.Catalog.GameListing
import GameLauncher.Manifests.ManifestValidator

/-!
# The games that the launcher lists and the server finds

`GetGamesAsync` reads the pages of `list_games` one after another, and `get_game` looks for a game
by its id or its slug on the first page.

Whatever the plans of the queries, the pages of at most 100000 games hold every game once, in the
order of title and id, and are accepted if no id, title or version is blank
(`getGames_of_presentable`). `listedGamesFound_iff` shows that every listed game is also found by
its id exactly when there are at most 100 games and no id is the slug of a game before it.
-/

set_option autoImplicit false

namespace GameLauncher.Catalog

open Foundation Fallible List

/-! ### The server -/

/-- `u32::from_str`. -/
def parseU32 : Text → Option ℕ
  | '+' :: digits => (parseDigits digits).filter (· < 2 ^ 32)
  | digits => (parseDigits digits).filter (· < 2 ^ 32)

def catalogOffset : Option Text → Except Text ℕ
  | none => .ok 0
  | some cursor =>
    orThrow (parseU32 cursor) "catalog cursor must be a non-negative integer"

/-- `list_games`, over the database. -/
def listGames (tables : GameTables) (collation : Collation) (plan : List BuildRow)
    (limit : Option ℕ) (cursor : Option Text) : Except Text CatalogPage := do
  let offset ← catalogOffset cursor
  pure (tables.listPublishedGames collation plan (max 1 (min (limit.getD 24) 100)) offset)

/-! ### The client -/

/-- The exceptions of `GetGamesAsync`. -/
inductive CatalogFailure
  | httpRequest (message : Text)
  | invalidData (message : Text)
  deriving DecidableEq, Repr

def maxCatalogItems : ℕ := 100000

def maxCatalogPages : ℕ := 1024

def maxCatalogCursorLength : ℕ := 256

/-- What `ValidateCatalogItem` refuses. -/
def isInvalidCatalogItem (unicode : Unicode) (item : GameSummary) : Bool :=
  isNullOrWhiteSpace item.id || isNullOrWhiteSpace item.title || item.latestBuild.any fun build ↦
      isNullOrWhiteSpace build.id || isNullOrWhiteSpace build.gameId ||
        !unicode.equalsIgnoreCase build.gameId item.id ||
        isNullOrWhiteSpace build.displayVersion || decide ((build.sizeBytes : ℤ) < 0)

def validateCatalogItem (unicode : Unicode) (item : GameSummary) : Except CatalogFailure Unit :=
  throwIf (isInvalidCatalogItem unicode item = true)
    (.invalidData "API returned an invalid catalog item.")

/-- The response to a request, which counts the pages that are left. -/
def fetchPage (tables : GameTables) (collation : Collation) (plans : ℕ → List BuildRow)
    (request : ℕ) (cursor : Option Text) : Except CatalogFailure CatalogPage :=
  match listGames tables collation (plans request) (some 100) cursor with
  | .ok response => .ok response
  | .error _ => .error
    (.httpRequest "Response status code does not indicate success: 400 (Bad Request).")

/-- The loop of `GetGamesAsync`, while pages are left. -/
def readPages (unicode : Unicode) (fetch : ℕ → Option Text → Except CatalogFailure CatalogPage) :
    ℕ → List GameSummary → List Text → Option Text → Except CatalogFailure (List GameSummary)
  | 0, _, _, _ =>
    .error (.httpRequest "The catalog exceeded the pagination safety limit.")
  | pages + 1, games, seenCursors, cursor => do
    throwIf (cursor.any (fun text ↦ maxCatalogCursorLength < (utf16 text).length) = true)
      (.invalidData "The catalog returned an oversized pagination cursor.")
    let response ← fetch pages cursor
    throwIf (100 < response.items.length)
      (.invalidData "The catalog returned an oversized page.")
    throwIf (maxCatalogItems - response.items.length < games.length)
      (.invalidData "The catalog exceeded the client safety limit.")
    response.items.forM (validateCatalogItem unicode)
    match response.nextCursor with
    | none => pure (games ++ response.items)
    | some next => do
      throwIf (next ∈ seenCursors)
        (.httpRequest "The catalog returned a repeated pagination cursor.")
      readPages unicode fetch pages (games ++ response.items) (next :: seenCursors) (some next)

def getGames (unicode : Unicode) (tables : GameTables) (collation : Collation)
    (plans : ℕ → List BuildRow) : Except CatalogFailure (List GameSummary) :=
  readPages unicode (fetchPage tables collation plans) maxCatalogPages [] [] none

/-! ### Cursors -/

theorem parseU32_decimal {number : ℕ} (h : number < 2 ^ 32) :
    parseU32 (decimal number) = some number := by
  unfold parseU32
  split
  · rename_i digits hplus
    have hdigit : ('+').isDigit = true :=
      isDigit_of_mem_decimal (hplus ▸ mem_cons_self : '+' ∈ decimal number)
    exact absurd hdigit (by decide)
  · rw [parseDigits_decimal, Option.filter_some_pos]
    exact decide_eq_true h

theorem length_utf16_decimal_le {number : ℕ} (h : number < 2 ^ 32) :
    (utf16 (decimal number)).length ≤ maxCatalogCursorLength := by
  have hascii : ∀ c ∈ decimal number, IsAscii c := by
    intro c hc
    have hdigit := isDigit_of_mem_decimal hc
    unfold Char.isDigit at hdigit
    unfold IsAscii
    grind [UInt32.le_iff_toNat_le, Char.toNat]
  have hlength : (decimal number).length ≤ 10 :=
    length_decimal_le (by decide) (lt_trans h (by decide))
  rw [utf16_of_ascii hascii, length_map, maxCatalogCursorLength]
  omega

/-! ### Items that are accepted -/

namespace GameTables

variable {unicode : Unicode} {tables : GameTables} {collation : Collation}
  {plans : ℕ → List BuildRow} {plan : List BuildRow}

/-- A build of a game that some plan lists: none of the game was published after it. -/
def MayBeListed (tables : GameTables) (gameId : Text) (build : BuildRow) : Prop :=
  tables.IsCandidate gameId build ∧
    ∀ other, tables.IsCandidate gameId other → publishedFirst build other = true

/-- What the client asks of the games and of the builds that may be listed. -/
structure Presentable (tables : GameTables) : Prop where
  ids : ∀ game ∈ tables.games, ¬ IsBlank game.id
  titles : ∀ game ∈ tables.games, ¬ IsBlank game.title
  builds : ∀ gameId build, tables.MayBeListed gameId build →
    ¬ IsBlank build.id ∧ ¬ IsBlank build.displayVersion

theorem isNullOrWhiteSpace_eq_false {text : Text} :
    isNullOrWhiteSpace text = false ↔ ¬ IsBlank text := by
  rw [← Bool.not_eq_true, isNullOrWhiteSpace_iff]

theorem summary_accepted_iff {game : GameRow} :
    isInvalidCatalogItem unicode (summary plan game) = false ↔
      ¬ IsBlank game.id ∧ ¬ IsBlank game.title ∧ ∀ build, latestBuild plan game.id = some build →
        ¬ IsBlank build.id ∧ ¬ IsBlank build.displayVersion := by
  unfold isInvalidCatalogItem summary
  rw [Option.any_map, Bool.or_eq_false_iff, Bool.or_eq_false_iff, isNullOrWhiteSpace_eq_false,
    isNullOrWhiteSpace_eq_false, and_assoc]
  refine and_congr_right fun hid ↦ and_congr_right fun _ ↦ ?_
  cases hlatest : latestBuild plan game.id with
  | none => simp
  | some build =>
    simp [isNullOrWhiteSpace_eq_false, Unicode.equalsIgnoreCase_self, hid]

theorem MayBeListed.exists_plan {gameId : Text} {build : BuildRow}
    (h : tables.MayBeListed gameId build) :
    ∃ plan, tables.IsPlan plan ∧ latestBuild plan gameId = some build := by
  have hplan : tables.IsPlan (build :: tables.builds.rows.erase build) :=
    isPlan_cons_erase h.1.1
  obtain ⟨latest, hlatest⟩ := exists_latestBuild hplan h.1
  refine ⟨_, hplan, ?_⟩
  by_cases hsame : latest = build
  · rw [hlatest, hsame]
  · have hcandidate := (latestBuild_eq_some hplan hlatest).1
    exact absurd hlatest
      (latestBuild_ne hcandidate h.1 (Ne.symm hsame) (h.2 latest hcandidate))

theorem presentable_iff (unicode : Unicode) : tables.Presentable ↔
    ∀ plan, tables.IsPlan plan → ∀ game ∈ tables.games,
      isInvalidCatalogItem unicode (summary plan game) = false := by
  simp only [summary_accepted_iff]
  constructor
  · intro h plan hplan game hgame
    exact ⟨h.ids game hgame, h.titles game hgame, fun build hbuild ↦
      h.builds game.id build (latestBuild_eq_some hplan hbuild)⟩
  · intro h
    have hrows : tables.IsPlan tables.builds.rows := List.Perm.refl _
    refine ⟨fun game hgame ↦ (h _ hrows game hgame).1, fun game hgame ↦
      (h _ hrows game hgame).2.1, fun gameId build hbuild ↦ ?_⟩
    obtain ⟨plan, hplan, hlatest⟩ := hbuild.exists_plan
    obtain ⟨game, hgame, hid⟩ := tables.references build hbuild.1.1
    rw [hbuild.1.2.2] at hid
    exact (h plan hplan game hgame).2.2 build (hid ▸ hlatest)

/-! ### The pages -/

theorem rows_listPublishedGames (tables : GameTables) (collation : Collation)
    (plan : List BuildRow) (limit offset : ℕ) :
    (tables.listPublishedGames collation plan limit offset).items.map GameSummary.toGameRow =
      ((tables.sortedGames collation).drop offset).take (min limit 100) := by
  rw [listPublishedGames, map_map]
  exact map_id _

theorem fetchPage_eq_ok {request : ℕ} {cursor : Option Text} {response : CatalogPage} :
    fetchPage tables collation plans request cursor = .ok response ↔
      ∃ offset, catalogOffset cursor = .ok offset ∧
        tables.listPublishedGames collation (plans request) 100 offset = response := by
  have hlist : listGames tables collation (plans request) (some 100) cursor =
      (catalogOffset cursor).bind fun offset ↦
        .ok (tables.listPublishedGames collation (plans request) 100 offset) := rfl
  unfold fetchPage
  rw [hlist]
  cases catalogOffset cursor <;> simp [Except.bind]

theorem forM_validate_eq_ok {items : List GameSummary} {u : Unit} :
    items.forM (validateCatalogItem unicode) = .ok u ↔
      ∀ item ∈ items, isInvalidCatalogItem unicode item = false := by
  simp only [forM_eq_ok, validateCatalogItem, throwIf_eq_ok, Bool.not_eq_true]

theorem mem_of_readPages {fetch : ℕ → Option Text → Except CatalogFailure CatalogPage}
    {pages : ℕ} {games items : List GameSummary} {seenCursors : List Text} {cursor : Option Text}
    (h : readPages unicode fetch pages games seenCursors cursor = .ok items) {item : GameSummary}
    (hitem : item ∈ items) : item ∈ games ∨ isInvalidCatalogItem unicode item = false ∧
      ∃ request cursor response, fetch request cursor = .ok response ∧ item ∈ response.items := by
  induction pages generalizing games seenCursors cursor with
  | zero => cases h
  | succ pages ih =>
    unfold readPages at h
    simp only [bind_eq_ok, throwIf_eq_ok, forM_validate_eq_ok, exists_const] at h
    obtain ⟨-, response, hresponse, -, -, hvalid, hrest⟩ := h
    have hpage (hmem : item ∈ games ++ response.items) : item ∈ games ∨
        isInvalidCatalogItem unicode item = false ∧ ∃ request cursor response,
          fetch request cursor = .ok response ∧ item ∈ response.items := by
      refine (mem_append.mp hmem).imp_right fun hmem ↦ ?_
      exact ⟨hvalid item hmem, pages, cursor, response, hresponse, hmem⟩
    cases hnext : response.nextCursor with
    | none =>
      rw [hnext] at hrest
      obtain rfl := pure_eq_ok.mp hrest
      exact hpage hitem
    | some next =>
      rw [hnext] at hrest
      simp only [bind_eq_ok, throwIf_eq_ok, exists_const] at hrest
      exact (ih hrest.2).elim hpage .inr

/-- The first games of the order were read, and the cursor counts them. -/
structure HasRead (tables : GameTables) (collation : Collation) (games : List GameSummary)
    (seenCursors : List Text) (cursor : Option Text) : Prop where
  rows : games.map GameSummary.toGameRow = (tables.sortedGames collation).take games.length
  offset : catalogOffset cursor = .ok games.length
  short : ∀ text, cursor = some text → (utf16 text).length ≤ maxCatalogCursorLength
  seen : ∀ text ∈ seenCursors, ∃ number ≤ games.length, text = decimal number

variable {games : List GameSummary} {seenCursors : List Text} {cursor : Option Text}

theorem length_sortedGames :
    (tables.sortedGames collation).length = tables.games.rows.length :=
  length_mergeSort _

theorem HasRead.length_le (h : tables.HasRead collation games seenCursors cursor) :
    games.length ≤ tables.games.rows.length := by
  have hlength := congrArg List.length h.rows
  rw [length_map, length_take, length_sortedGames] at hlength
  omega

theorem length_listPublishedGames (tables : GameTables) (collation : Collation)
    (plan : List BuildRow) (offset : ℕ) :
    (tables.listPublishedGames collation plan 100 offset).items.length =
      min 100 (tables.games.rows.length - offset) := by
  have hlength := congrArg List.length (rows_listPublishedGames tables collation plan 100 offset)
  rw [length_map, length_take, length_drop, length_sortedGames] at hlength
  exact hlength

theorem HasRead.rows_append (h : tables.HasRead collation games seenCursors cursor) :
    (games ++ (tables.listPublishedGames collation plan 100 games.length).items).map
        GameSummary.toGameRow = (tables.sortedGames collation).take (games.length + 100) := by
  rw [map_append, h.rows, rows_listPublishedGames, take_add]
  rfl

theorem HasRead.next (h : tables.HasRead collation games seenCursors cursor)
    (hcount : tables.games.rows.length ≤ maxCatalogItems) {response : CatalogPage}
    (hresponse : tables.listPublishedGames collation plan 100 games.length = response)
    (hfull : response.items.length = 100) :
    response.nextCursor = some (decimal (games.length + 100)) ∧
      decimal (games.length + 100) ∉ seenCursors ∧
      tables.HasRead collation (games ++ response.items)
        (decimal (games.length + 100) :: seenCursors) (some (decimal (games.length + 100))) := by
  have hlength : (games ++ response.items).length = games.length + 100 := by
    rw [length_append, hfull]
  have hitems := length_listPublishedGames tables collation plan games.length
  rw [hresponse, hfull] at hitems
  have hsmall : games.length + 100 < 2 ^ 32 := by
    unfold maxCatalogItems at hcount
    omega
  refine ⟨?_, fun hmem ↦ ?_, ?_, ?_, ?_, ?_⟩
  · have hcursor : response.nextCursor =
        if response.items.length = 100 then some (decimal (games.length + response.items.length))
        else none := by
      rw [← hresponse]
      rfl
    rw [hcursor, if_pos hfull, hfull]
  · obtain ⟨number, hle, heq⟩ := h.seen _ hmem
    have hsame := decimal_injective heq
    omega
  · rw [hlength, ← hresponse]
    exact h.rows_append
  · rw [hlength, catalogOffset, parseU32_decimal hsmall]
    rfl
  · intro text htext
    rw [← Option.some.inj htext]
    exact length_utf16_decimal_le hsmall
  · intro text htext
    rw [hlength]
    rcases mem_cons.mp htext with rfl | hold
    · exact ⟨_, le_refl _, rfl⟩
    · obtain ⟨number, hle, heq⟩ := h.seen text hold
      exact ⟨number, by omega, heq⟩

section

variable (hcount : tables.games.rows.length ≤ maxCatalogItems) (hvalid : tables.Presentable)
  (hplans : ∀ request, tables.IsPlan (plans request))

include hcount hvalid hplans

theorem readPages_of_presentable {pages : ℕ} (h : tables.HasRead collation games seenCursors cursor)
    (hpages : tables.games.rows.length < games.length + 100 * pages) :
    ∃ items, readPages unicode (fetchPage tables collation plans) pages games seenCursors cursor =
      .ok items ∧ items.map GameSummary.toGameRow = tables.sortedGames collation := by
  induction pages generalizing games seenCursors cursor with
  | zero =>
    have hle := h.length_le
    omega
  | succ pages ih =>
    obtain ⟨response, hresponse⟩ : ∃ response,
      tables.listPublishedGames collation (plans pages) 100 games.length = response := ⟨_, rfl⟩
    have hfetch : fetchPage tables collation plans pages cursor = .ok response :=
      fetchPage_eq_ok.mpr ⟨_, h.offset, hresponse⟩
    have hlength := length_listPublishedGames tables collation (plans pages) games.length
    rw [hresponse] at hlength
    have haccepted : ∀ item ∈ response.items, isInvalidCatalogItem unicode item = false := by
      intro item hitem
      obtain ⟨game, hgame, rfl⟩ := mem_items (hresponse ▸ hitem)
      exact (presentable_iff unicode).mp hvalid _ (hplans pages) game hgame
    have hshort :
        ¬ cursor.any (fun text ↦ maxCatalogCursorLength < (utf16 text).length) = true := by
      cases cursor with
      | none => exact Bool.false_ne_true
      | some text =>
        intro hlong
        exact absurd (of_decide_eq_true hlong) (not_lt.mpr (h.short text rfl))
    have hfits : ¬ maxCatalogItems - response.items.length < games.length := by
      have hle := h.length_le
      omega
    simp only [readPages, bind_eq_ok, throwIf_eq_ok, forM_validate_eq_ok, exists_const]
    by_cases hfull : response.items.length = 100
    · obtain ⟨hnext, hunseen, hread⟩ := h.next hcount hresponse hfull
      obtain ⟨items, hitems, hrows⟩ := ih hread (by rw [length_append, hfull]; omega)
      refine ⟨items, ⟨hshort, response, hfetch, by omega, hfits, haccepted, ?_⟩, hrows⟩
      rw [hnext]
      simp only [bind_eq_ok, throwIf_eq_ok, exists_const]
      exact ⟨hunseen, hitems⟩
    · have hnext : response.nextCursor = none := by
        rw [← hresponse] at hfull ⊢
        exact if_neg hfull
      refine ⟨games ++ response.items,
        ⟨hshort, response, hfetch, by omega, hfits, haccepted, ?_⟩, ?_⟩
      · rw [hnext]
        rfl
      · rw [← hresponse, h.rows_append]
        refine take_of_length_le ?_
        rw [length_sortedGames]
        omega

theorem getGames_of_presentable :
    ∃ items, getGames unicode tables collation plans = .ok items ∧
      items.map GameSummary.toGameRow = tables.sortedGames collation := by
  have hstart : tables.HasRead collation [] [] none :=
    ⟨rfl, rfl, fun _ h ↦ (by cases h), fun _ h ↦ (by cases h)⟩
  refine readPages_of_presentable hcount hvalid hplans hstart ?_
  unfold maxCatalogItems at hcount
  unfold maxCatalogPages
  rw [length_nil]
  omega

end

theorem mem_of_getGames {items : List GameSummary}
    (h : getGames unicode tables collation plans = .ok items) {item : GameSummary}
    (hitem : item ∈ items) : isInvalidCatalogItem unicode item = false ∧
      ∃ request, ∃ game ∈ tables.games, item = summary (plans request) game := by
  obtain hnone | ⟨haccepted, request, cursor, response, hfetch, hmem⟩ :=
    mem_of_readPages h hitem
  · cases hnone
  · obtain ⟨offset, -, rfl⟩ := fetchPage_eq_ok.mp hfetch
    obtain ⟨game, hgame, hsame⟩ := mem_items hmem
    exact ⟨haccepted, request, game, hgame, hsame⟩

/-! ### The look-up -/

theorem getGame_eq_some {id : Text} {found : GameSummary} :
    tables.getGame collation plan id = some found ↔
      ∃ game, ((tables.sortedGames collation).take 100).find?
        (fun game ↦ game.id == id || game.slug == id) = some game ∧ summary plan game = found := by
  rw [getGame, listPublishedGames, List.find?_map, Option.map_eq_some_iff]
  rfl

/-- Every game is found by its id: there are at most 100 of them, and no id is the slug of a game
that comes before. -/
structure Findable (tables : GameTables) (collation : Collation) : Prop where
  few : tables.games.rows.length ≤ 100
  unshadowed : ∀ game ∈ tables.games, ∀ other ∈ tables.games, other ≠ game →
    titleFirst collation other game = true → other.slug ≠ game.id

variable {game other : GameRow}

theorem titleFirst_antisymm (hgame : game ∈ tables.games) (hother : other ∈ tables.games)
    (h : titleFirst collation game other = true) (hback : titleFirst collation other game = true) :
    game = other := by
  refine Table.eq_of_key_eq hgame hother ?_
  have htitles := collation.antisymm game.title other.title
  have hids := collation.antisymm game.id other.id
  unfold titleFirst at h hback
  grind

theorem pairwise_sortedGames : (tables.sortedGames collation).Pairwise fun first second ↦
    titleFirst collation first second = true :=
  pairwise_mergeSort (titleFirst_trans collation) (titleFirst_total collation) _

theorem nodup_sortedGames : (tables.sortedGames collation).Nodup :=
  (mergeSort_perm _ _).nodup_iff.mpr (tables.games.keys_nodup.of_map _)

theorem Findable.getGame_id (h : tables.Findable collation) (hgame : game ∈ tables.games) :
    tables.getGame collation plan game.id = some (summary plan game) := by
  have hfirst : (tables.sortedGames collation).take 100 = tables.sortedGames collation :=
    take_of_length_le (length_sortedGames.trans_le h.few)
  have hmem : game ∈ tables.sortedGames collation := mem_sortedGames.mpr hgame
  rw [getGame_eq_some, hfirst]
  obtain ⟨found, hfound⟩ : ∃ found, (tables.sortedGames collation).find?
      (fun other ↦ other.id == game.id || other.slug == game.id) = some found := by
    rw [← Option.isSome_iff_exists, List.find?_isSome]
    exact ⟨game, hmem, by rw [beq_self_eq_true, Bool.true_or]⟩
  obtain ⟨hmatch, earlier, later, hsplit, hnone⟩ := List.find?_eq_some_iff_append.mp hfound
  have hfoundMem : found ∈ tables.games :=
    mem_sortedGames.mp (hsplit ▸ mem_append_right _ mem_cons_self)
  refine ⟨found, hfound, ?_⟩
  by_cases hsame : found = game
  · rw [hsame]
  · -- Another game that is found first has the id as its slug.
    have hslug : found.slug = game.id := by
      rw [Bool.or_eq_true, beq_iff_eq, beq_iff_eq] at hmatch
      exact hmatch.resolve_left fun hid ↦ hsame (Table.eq_of_key_eq hfoundMem hgame hid)
    have hlater : game ∈ later := by
      rw [hsplit, mem_append, mem_cons] at hmem
      rcases hmem with hearlier | heq | hlater
      · have hskipped := hnone game hearlier
        rw [beq_self_eq_true] at hskipped
        cases hskipped
      · exact absurd heq.symm hsame
      · exact hlater
    have hbefore : titleFirst collation found game = true := by
      have hordered : (earlier ++ found :: later).Pairwise fun first second ↦
          titleFirst collation first second = true := hsplit ▸ pairwise_sortedGames
      exact rel_of_pairwise_cons (pairwise_append.mp hordered).2.1 hlater
    exact absurd hslug (h.unshadowed game hgame found hfoundMem hsame hbefore)

theorem findable_of_getGame (h : ∀ game ∈ tables.games, ∃ found,
    tables.getGame collation plan game.id = some found ∧ found.toGameRow = game) :
    tables.Findable collation := by
  have hfind : ∀ game ∈ tables.games, ((tables.sortedGames collation).take 100).find?
      (fun other ↦ other.id == game.id || other.slug == game.id) = some game := by
    intro game hgame
    obtain ⟨_, hfound, hrow⟩ := h game hgame
    obtain ⟨first, hfirst, rfl⟩ := getGame_eq_some.mp hfound
    obtain rfl : first = game := hrow
    exact hfirst
  have hfew : tables.games.rows.length ≤ 100 := by
    by_contra hmany
    have hlength : (tables.sortedGames collation).length = _ := length_sortedGames
    rw [not_le, ← hlength] at hmany
    have hgame := mem_sortedGames.mp (getElem_mem hmany)
    have hpage := mem_of_find?_eq_some (hfind _ hgame)
    have hrest : (tables.sortedGames collation)[100] ∈ (tables.sortedGames collation).drop 100 := by
      rw [drop_eq_getElem_cons hmany]
      exact mem_cons_self
    exact disjoint_take_drop nodup_sortedGames (le_refl 100) hpage hrest
  refine ⟨hfew, fun game hgame other hother hne hbefore hslug ↦ ?_⟩
  have hfirst : (tables.sortedGames collation).take 100 = tables.sortedGames collation :=
    take_of_length_le (length_sortedGames.trans_le hfew)
  have hfound := hfind game hgame
  rw [hfirst] at hfound
  obtain ⟨-, earlier, later, hsplit, hnone⟩ := List.find?_eq_some_iff_append.mp hfound
  have hordered : (earlier ++ game :: later).Pairwise fun first second ↦
      titleFirst collation first second = true := hsplit ▸ pairwise_sortedGames
  have hmem : other ∈ earlier ++ game :: later := hsplit ▸ mem_sortedGames.mpr hother
  rcases mem_append.mp hmem with hearlier | hlater
  · have hskipped := hnone other hearlier
    rw [hslug, beq_self_eq_true, Bool.or_true] at hskipped
    cases hskipped
  · rcases mem_cons.mp hlater with heq | hafter
    · exact hne heq
    · have hback : titleFirst collation game other = true :=
        rel_of_pairwise_cons (pairwise_append.mp hordered).2.1 hafter
      exact hne (titleFirst_antisymm hother hgame hbefore hback)

end GameTables

/-! ### When every listed game is found -/

/-- Under all plans the launcher lists every game once, in the order of title and id, and the server
finds each listed game by its id. -/
def ListedGamesFound (unicode : Unicode) (tables : GameTables) (collation : Collation) : Prop :=
  ∀ plans : ℕ → List BuildRow, (∀ request, tables.IsPlan (plans request)) →
    ∃ items, getGames unicode tables collation plans = .ok items ∧
      (items.map GameSummary.toGameRow).Perm tables.games.rows ∧
      (items.map GameSummary.toGameRow).Pairwise (fun first second ↦
        titleFirst collation first second = true) ∧
      ∀ item ∈ items, ∀ plan, tables.IsPlan plan → ∃ found,
        tables.getGame collation plan item.id = some found ∧ found.toGameRow = item.toGameRow

open GameTables in
theorem presentable_of_listedGamesFound {unicode : Unicode} {tables : GameTables}
    {collation : Collation} (h : ListedGamesFound unicode tables collation) :
    tables.Presentable := by
  refine (presentable_iff unicode).mpr fun plan hplan game hgame ↦ ?_
  obtain ⟨items, hitems, hperm, -, -⟩ := h (fun _ ↦ plan) fun _ ↦ hplan
  obtain ⟨item, hitem, hrow⟩ := mem_map.mp (hperm.mem_iff.mpr hgame)
  obtain ⟨haccepted, -, other, -, rfl⟩ := mem_of_getGames hitems hitem
  obtain rfl : other = game := hrow
  exact haccepted

open GameTables in
theorem findable_of_listedGamesFound {unicode : Unicode} {tables : GameTables}
    {collation : Collation} (h : ListedGamesFound unicode tables collation) :
    tables.Findable collation := by
  have hrows : tables.IsPlan tables.builds.rows := List.Perm.refl _
  obtain ⟨items, -, hperm, -, hfound⟩ := h (fun _ ↦ tables.builds.rows) fun _ ↦ hrows
  have hall : ∀ game ∈ tables.games, ∃ found,
      tables.getGame collation tables.builds.rows game.id = some found ∧
        found.toGameRow = game := by
    intro game hgame
    obtain ⟨item, hitem, rfl⟩ := mem_map.mp (hperm.mem_iff.mpr hgame)
    exact hfound item hitem _ hrows
  exact findable_of_getGame hall

open GameTables in
/-- Listing and look-up agree exactly when the games are presentable, at most 100, and no id is the
slug of a game before it. -/
theorem listedGamesFound_iff (unicode : Unicode) (tables : GameTables) (collation : Collation) :
    ListedGamesFound unicode tables collation ↔ tables.Presentable ∧ tables.Findable collation := by
  constructor
  · intro h
    exact ⟨presentable_of_listedGamesFound h, findable_of_listedGamesFound h⟩
  · rintro ⟨hvalid, hfindable⟩ plans hplans
    have hcount : tables.games.rows.length ≤ maxCatalogItems :=
      hfindable.few.trans (by decide)
    obtain ⟨items, hitems, hrows⟩ : ∃ items, getGames unicode tables collation plans = .ok items ∧
        items.map GameSummary.toGameRow = tables.sortedGames collation :=
      getGames_of_presentable hcount hvalid hplans
    refine ⟨items, hitems, ?_, ?_, fun item hitem plan hplan ↦ ?_⟩
    · rw [hrows]
      exact mergeSort_perm _ _
    · rw [hrows]
      exact pairwise_sortedGames
    · have hgame : item.toGameRow ∈ tables.games :=
        mem_sortedGames.mp (hrows ▸ mem_map_of_mem hitem)
      exact ⟨_, hfindable.getGame_id hgame, rfl⟩

/-! ### A catalog of more than one page -/

def letterGame (position : ℕ) : GameRow where
  id := [Char.ofNat (0x400 + position)]
  slug := [Char.ofNat (0x500 + position)]
  title := [Char.ofNat (0x400 + position)]
  description := []
  heroImageUrl := none
  coverImageUrl := none

/-- A catalog of 101 games without builds. -/
def twoPages : GameTables where
  games :=
    { rows := (List.range 101).map letterGame
      keys_nodup := by decide }
  builds :=
    { rows := []
      keys_nodup := nodup_nil }
  references _ h := (by cases h)

/-- The last game is listed, and is not found by its id. -/
theorem second_page_not_found :
    ¬ ListedGamesFound Manifests.ManifestValidator.asciiUnicode twoPages codePointCollation := by
  intro h
  have hfew := (findable_of_listedGamesFound h).few
  exact absurd hfew (by decide)

end GameLauncher.Catalog
