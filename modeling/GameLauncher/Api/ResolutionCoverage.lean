import GameLauncher.Api.Resolution

/-!
# What resolution covers

`mem_groupHotSources` and `mem_groupColdPacks` say which packs `resolvePacks` finds, with which
chunks. From them `resolvePacks_complete_iff` is the exact condition under which it covers every
requested chunk: the packs of a superseded build are found only through the COLD stream, and a
request for a latest build is refused when any pack in COLD storage, of whatever build, contains a
requested chunk and is not served from HOT storage.
-/

set_option autoImplicit false

namespace GameLauncher.Api

open Foundation Fallible Manifests Placement Catalog List Table

/-! ### The queries -/

variable {encodedHashes : List Text} {row : PackChunk} {encodedHash packHash : Text}
  {order : HashOrder Text}

def HasColdCopy (database : Database) (packHash : Text) : Prop :=
  database.packVerified packHash = true ∧ database.verifiedCopies packHash .cold ≠ []

def ServedHot (state : AppState) (database : Database) (packHash : Text) : Prop :=
  ∃ row ∈ database.hotPackLocations packHash,
    (state.storage.hotProvider ProviderCapabilities.directDownload row.provider).isSome = true

theorem mem_coldPackChunks {database : Database} {condition : Text → Bool} :
    row ∈ coldPackChunks database condition encodedHashes ↔
      database.packContains row.packHash row.encodedHash = true ∧
        row.encodedHash ∈ encodedHashes ∧ HasColdCopy database row.packHash ∧
        condition row.packHash = true := by
  unfold coldPackChunks HasColdCopy
  rw [packContains_iff]
  simp only [mem_insertionSort, mem_filter, Bool.and_eq_true, contains_eq_mem,
    decide_eq_true_eq, Bool.not_eq_true', isEmpty_eq_false_iff, mem_iff, ne_eq,
    and_assoc]

theorem mem_getHotPackSourcesForChunks {database : Database} {source : HotPackSource}
    (h : source ∈ database.getHotPackSourcesForChunks encodedHashes) :
    source.location ∈ database.hotPackLocations source.packHash ∧
      ∀ encodedHash, encodedHash ∈ source.chunkHashes ↔
        encodedHash ∈ encodedHashes ∧ database.packContains source.packHash encodedHash = true := by
  simp only [Database.getHotPackSourcesForChunks, mem_map, mem_insertionSort,
    mem_filter, Bool.and_eq_true, decide_eq_true_eq] at h
  obtain ⟨row, ⟨-, hrow, -⟩, rfl⟩ := h
  refine ⟨hrow, fun encodedHash ↦ ?_⟩
  simp only [mem_insertionSort, mem_map, mem_filter, Bool.and_eq_true, beq_iff_eq,
    contains_eq_mem, decide_eq_true_eq, packContains_iff, mem_iff]
  constructor
  · rintro ⟨entry, ⟨hentry, hpack, hrequested⟩, rfl⟩
    exact ⟨hrequested, hpack ▸ hentry⟩
  · rintro ⟨hrequested, hentry⟩
    exact ⟨_, ⟨hentry, rfl, hrequested⟩, rfl⟩

theorem exists_hotPackSource {database : Database} {row : PackLocation}
    (hrow : row ∈ database.hotPackLocations packHash) (hrequested : encodedHash ∈ encodedHashes)
    (hcontains : database.packContains packHash encodedHash = true) :
    ∃ source ∈ database.getHotPackSourcesForChunks encodedHashes,
      source.packHash = packHash ∧ source.location = row := by
  obtain ⟨-, hmem, rfl, -⟩ := mem_hotPackLocations.mp hrow
  simp only [Database.getHotPackSourcesForChunks, mem_map, mem_insertionSort,
    mem_filter, Bool.and_eq_true, decide_eq_true_eq, any_eq_true]
  exact ⟨_, ⟨row, ⟨hmem, hrow, encodedHash, hrequested, hcontains⟩, rfl⟩, rfl, rfl⟩

theorem hotSources_ne_nil_iff {database : Database} :
    database.getHotPackSourcesForChunks [encodedHash] ≠ [] ↔
      ∃ packHash, database.Resolvable packHash ∧
        database.packContains packHash encodedHash = true := by
  constructor
  · intro h
    obtain ⟨source, hsource⟩ := exists_mem_of_ne_nil _ h
    have hcontains : database.packContains source.packHash encodedHash = true := by
      simp only [Database.getHotPackSourcesForChunks, mem_map, mem_insertionSort,
        mem_filter, Bool.and_eq_true, any_cons, any_nil, Bool.or_false] at hsource
      obtain ⟨row, ⟨-, -, hcontains⟩, rfl⟩ := hsource
      exact hcontains
    exact ⟨_, ⟨_, (mem_getHotPackSourcesForChunks hsource).1⟩, hcontains⟩
  · rintro ⟨packHash, ⟨row, hrow⟩, hcontains⟩
    obtain ⟨source, hsource, -⟩ :=
      exists_hotPackSource hrow mem_cons_self hcontains
    exact ne_nil_of_mem hsource

theorem mem_recordsByChunk {sources : List HotPackSource} {source : HotPackSource} :
    source ∈ recordsByChunk order sources ↔ source ∈ sources ∧ source.chunkHashes ≠ [] := by
  simp only [recordsByChunk, mem_flatMap, HashOrder.mem_arrange, mem_dedup,
    mem_filter, contains_eq_mem, decide_eq_true_eq]
  constructor
  · rintro ⟨encodedHash, -, hsource, hmem⟩
    exact ⟨hsource, ne_nil_of_mem hmem⟩
  · rintro ⟨hsource, hne⟩
    obtain ⟨encodedHash, hmem⟩ := exists_mem_of_ne_nil _ hne
    exact ⟨encodedHash, ⟨source, hsource, hmem⟩, hsource, hmem⟩

theorem mem_rowsByChunk {rows : List PackChunk} : row ∈ rowsByChunk order rows ↔ row ∈ rows := by
  simp only [rowsByChunk, mem_flatMap, HashOrder.mem_arrange, mem_dedup, mem_map,
    mem_filter, beq_iff_eq]
  exact ⟨fun ⟨_, _, hrow, _⟩ ↦ hrow, fun hrow ↦ ⟨_, ⟨row, hrow, rfl⟩, hrow, rfl⟩⟩

/-! ### The packs that are found -/

variable {grouped : Grouped} {record : HotPackSource × ℕ}

/-- The packs found so far include the pack, with the chunk. -/
def Lists (grouped : Grouped) (packHash encodedHash : Text) : Prop :=
  ∃ pack ∈ grouped, pack.packHash = packHash ∧ encodedHash ∈ pack.chunkHashes

theorem addSource_packHash (pack : ResolvedPack) (source : PackSource) :
    (pack.addSource source).packHash = pack.packHash := by
  unfold ResolvedPack.addSource
  split_ifs <;> rfl

theorem addSource_chunkHashes (pack : ResolvedPack) (source : PackSource) :
    (pack.addSource source).chunkHashes = pack.chunkHashes := by
  unfold ResolvedPack.addSource
  split_ifs <;> rfl

theorem addSource_sources_ne_nil (pack : ResolvedPack) (source : PackSource) :
    (pack.addSource source).sources ≠ [] := by
  unfold ResolvedPack.addSource
  split_ifs with hany
  · obtain ⟨found, hfound, -⟩ := any_eq_true.mp hany
    exact ne_nil_of_mem hfound
  · simp

theorem getD_find_packHash {fresh : ResolvedPack} (hfresh : fresh.packHash = packHash) :
    ((grouped.find packHash).getD fresh).packHash = packHash := by
  cases hfind : grouped.find packHash with
  | none => exact hfresh
  | some pack => exact (find_eq_some.mp hfind).2

/-- A HOT record is used: the hash of its pack is well formed, and its provider serves it. -/
def Accepted (state : AppState) (record : HotPackSource) : Prop :=
  isLowercaseContentHash record.packHash = true ∧
    (state.storage.hotProvider ProviderCapabilities.directDownload
      record.location.provider).isSome = true

def hotEntry (database : MetadataDatabase) (requested : List Text) (grouped : Grouped)
    (record : HotPackSource) : ResolvedPack :=
  (grouped.find record.packHash).getD
    { packHash := record.packHash
      encodedSize := (database.packEncodedSize record.packHash).toNat
      chunkHashes := record.chunkHashes.filter requested.contains
      sources := [] }

section HotLoop

variable {state : AppState} {database : MetadataDatabase} {requested : List Text}

theorem groupHotSource_of_accepted (grouped : Grouped) (hurl : record.1.location.directUrl ≠ [])
    (haccepted : Accepted state record.1) :
    ∃ source, groupHotSource state database requested grouped record =
      grouped.upsert ((hotEntry database requested grouped record.1).addSource source) := by
  obtain ⟨hhash, hprovider⟩ := haccepted
  obtain ⟨⟨provider, pool⟩, hfound⟩ := Option.isSome_iff_exists.mp hprovider
  unfold groupHotSource hotEntry
  simp only [hhash, Bool.true_eq_false, if_false, hfound, if_neg hurl]
  cases provider.downloadPackLocation record.2 record.1.packHash with
  | none => exact ⟨_, rfl⟩
  | some location => exact ⟨_, rfl⟩

theorem groupHotSource_of_not_accepted (haccepted : ¬ Accepted state record.1) :
    groupHotSource state database requested grouped record = grouped := by
  unfold groupHotSource
  by_cases hhash : isLowercaseContentHash record.1.packHash = false
  · simp only [hhash, if_true]
  · have hnone : state.storage.hotProvider ProviderCapabilities.directDownload
        record.1.location.provider = none := by
      rw [← Option.not_isSome_iff_eq_none]
      exact fun hsome ↦ haccepted ⟨Bool.not_eq_false _ ▸ hhash, hsome⟩
    simp only [hnone, ite_self]

/-- An entry of the HOT loop: it has a source, and exactly the requested chunks of its pack. -/
structure HotPack (database : MetadataDatabase) (requested : List Text) (pack : ResolvedPack) :
    Prop where
  sources : pack.sources ≠ []
  chunks : ∀ encodedHash, encodedHash ∈ pack.chunkHashes ↔ encodedHash ∈ requested ∧
    database.catalog.packContains pack.packHash encodedHash = true

/-- What the query guarantees of a HOT record. -/
structure HotRecord (database : MetadataDatabase) (requested : List Text)
    (record : HotPackSource) : Prop where
  location : record.location ∈ database.catalog.hotPackLocations record.packHash
  chunks : ∀ encodedHash, encodedHash ∈ record.chunkHashes ↔ encodedHash ∈ requested ∧
    database.catalog.packContains record.packHash encodedHash = true

theorem HotRecord.directUrl_ne_nil {record : HotPackSource}
    (h : HotRecord database requested record) : record.location.directUrl ≠ [] := by
  intro hempty
  have hurl := (mem_hotPackLocations.mp h.location).2.2.2.2.2
  rw [hempty] at hurl
  exact Bool.false_ne_true hurl

theorem hotPack_groupHotSource (hrecord : HotRecord database requested record.1)
    (hgrouped : ∀ pack ∈ grouped, HotPack database requested pack) :
    ∀ pack ∈ groupHotSource state database requested grouped record,
      HotPack database requested pack := by
  by_cases haccepted : Accepted state record.1
  · intro pack hpack
    obtain ⟨source, hstep⟩ :=
      groupHotSource_of_accepted grouped hrecord.directUrl_ne_nil haccepted
    rw [hstep, mem_upsert] at hpack
    rcases hpack with rfl | ⟨hold, -⟩
    · refine ⟨addSource_sources_ne_nil _ _, fun encodedHash ↦ ?_⟩
      rw [addSource_packHash, addSource_chunkHashes]
      unfold hotEntry
      cases hfind : grouped.find record.1.packHash with
      | none =>
        rw [Option.getD_none, mem_filter, hrecord.chunks]
        simp only [contains_eq_mem, decide_eq_true_eq]
        exact ⟨And.left, fun h ↦ ⟨h, h.1⟩⟩
      | some found => exact (hgrouped found (find_eq_some.mp hfind).1).chunks encodedHash
    · exact hgrouped pack hold
  · rw [groupHotSource_of_not_accepted haccepted]
    exact hgrouped

theorem mem_groupHotSource (hurl : record.1.location.directUrl ≠ []) (packHash : Text) :
    (∃ pack ∈ groupHotSource state database requested grouped record, pack.packHash = packHash) ↔
      (∃ pack ∈ grouped, pack.packHash = packHash) ∨
        Accepted state record.1 ∧ record.1.packHash = packHash := by
  by_cases haccepted : Accepted state record.1
  · obtain ⟨source, hstep⟩ : ∃ source, groupHotSource state database requested grouped record =
        grouped.upsert ((hotEntry database requested grouped record.1).addSource source) :=
      groupHotSource_of_accepted grouped hurl haccepted
    have hkey : ((hotEntry database requested grouped record.1).addSource source).packHash =
        record.1.packHash := by
      rw [addSource_packHash]
      exact getD_find_packHash rfl
    rw [hstep]
    simp only [mem_upsert]
    constructor
    · rintro ⟨pack, rfl | ⟨hold, -⟩, rfl⟩
      · exact .inr ⟨haccepted, hkey.symm⟩
      · exact .inl ⟨pack, hold, rfl⟩
    · rintro (⟨pack, hold, rfl⟩ | ⟨-, rfl⟩)
      · by_cases hsame : pack.packHash = record.1.packHash
        · exact ⟨_, .inl rfl, hkey.trans hsame.symm⟩
        · exact ⟨pack, .inr ⟨hold, fun heq ↦ hsame (heq.trans hkey)⟩, rfl⟩
      · exact ⟨_, .inl rfl, hkey⟩
  · rw [groupHotSource_of_not_accepted haccepted]
    simp only [haccepted, false_and, or_false]

end HotLoop

variable {requested : List Text} {buildIsLatest : Bool}

theorem hotRecord_of_mem {database : MetadataDatabase} (h : record ∈ (recordsByChunk order (if buildIsLatest then
      database.catalog.getHotPackSourcesForChunks requested else [])).zipIdx) :
    buildIsLatest = true ∧ HotRecord database requested record.1 := by
  have hmem := (mem_recordsByChunk.mp (fst_mem_of_mem_zipIdx h)).1
  cases buildIsLatest with
  | false => exact absurd hmem not_mem_nil
  | true =>
    have hrecord := mem_getHotPackSourcesForChunks hmem
    exact ⟨rfl, hrecord.1, hrecord.2⟩

variable {orders : PackOrders}

theorem hotPack_of_mem_groupHotSources {state : AppState}
    {database : MetadataDatabase} :
    ∀ pack ∈ groupHotSources state orders database buildIsLatest requested,
      HotPack database requested pack := by
  refine List.foldlRecOn _ _ (motive := fun grouped : Grouped ↦
    ∀ pack ∈ grouped, HotPack database requested pack) ?_ ?_
  · exact fun pack hpack ↦ absurd hpack not_mem_nil
  · exact fun grouped hgrouped record hrecord ↦
      hotPack_groupHotSource (hotRecord_of_mem hrecord).2 hgrouped

theorem mem_groupHotSources {state : AppState} {database : MetadataDatabase} :
    (∃ pack ∈ groupHotSources state orders database buildIsLatest requested,
      pack.packHash = packHash) ↔
      buildIsLatest = true ∧ isLowercaseContentHash packHash = true ∧
        ServedHot state database.catalog packHash ∧
        ∃ encodedHash ∈ requested, database.catalog.packContains packHash encodedHash = true := by
  unfold groupHotSources
  rw [foldl_iff (fun grouped : Grouped ↦ ∃ pack ∈ grouped, pack.packHash = packHash)
    (fun record : HotPackSource × ℕ ↦ Accepted state record.1 ∧ record.1.packHash = packHash)
    fun grouped record hrecord ↦
      mem_groupHotSource (hotRecord_of_mem hrecord).2.directUrl_ne_nil packHash]
  constructor
  · rintro (⟨pack, hpack, -⟩ | ⟨record, hrecord, haccepted, rfl⟩)
    · exact absurd hpack not_mem_nil
    · obtain ⟨hlatest, hhot⟩ := hotRecord_of_mem hrecord
      obtain ⟨encodedHash, hchunk⟩ := exists_mem_of_ne_nil _
        (mem_recordsByChunk.mp (fst_mem_of_mem_zipIdx hrecord)).2
      exact ⟨hlatest, haccepted.1, ⟨_, hhot.location, haccepted.2⟩, encodedHash,
        (hhot.chunks encodedHash).mp hchunk⟩
  · rintro ⟨rfl, hhash, ⟨row, hrow, hprovider⟩, encodedHash, hrequested, hcontains⟩
    obtain ⟨source, hsource, rfl, rfl⟩ := exists_hotPackSource hrow hrequested hcontains
    have hchunks := (mem_getHotPackSourcesForChunks hsource).2 encodedHash
    have hrecord : source ∈ recordsByChunk orders.records
        (database.catalog.getHotPackSourcesForChunks requested) :=
      mem_recordsByChunk.mpr ⟨hsource, ne_nil_of_mem (hchunks.mpr ⟨hrequested, hcontains⟩)⟩
    obtain ⟨round, hround⟩ := mem_iff_getElem?.mp hrecord
    exact .inr ⟨(source, round), mk_mem_zipIdx_iff_getElem?.mpr hround, ⟨hhash, hprovider⟩, rfl⟩

/-! ### The loop over the COLD packs -/

section ColdLoop

variable {state : AppState} {database : MetadataDatabase} {buildId : Text}

def coldEntry (database : MetadataDatabase) (grouped : Grouped) (row : PackChunk) :
    ResolvedPack :=
  (grouped.find row.packHash).getD
    { packHash := row.packHash
      encodedSize := (database.packEncodedSize row.packHash).toNat
      chunkHashes := []
      sources := [] }

theorem groupColdPack_of_valid (state : AppState) (database : MetadataDatabase) (buildId : Text)
    (grouped : Grouped) (hhash : isLowercaseContentHash row.packHash = true) :
    ∃ entry : ResolvedPack, groupColdPack state database buildId grouped row =
        grouped.upsert entry ∧ entry.packHash = row.packHash ∧ entry.sources ≠ [] ∧
      ∀ encodedHash, encodedHash ∈ entry.chunkHashes ↔
        encodedHash ∈ (coldEntry database grouped row).chunkHashes ∨
          encodedHash = row.encodedHash := by
  unfold groupColdPack coldEntry
  simp only [hhash, Bool.true_eq_false, if_false]
  refine ⟨_, rfl, ?_, addSource_sources_ne_nil _ _, fun encodedHash ↦ ?_⟩
  · rw [addSource_packHash]
    split_ifs
    · exact getD_find_packHash rfl
    · exact getD_find_packHash rfl
  · rw [addSource_chunkHashes]
    split_ifs with hlisted
    · exact ⟨.inl, fun h ↦ h.elim id fun heq ↦ heq ▸ hlisted⟩
    · simp only [mem_append, mem_singleton]

theorem groupColdPack_of_not_valid (hhash : isLowercaseContentHash row.packHash = false) :
    groupColdPack state database buildId grouped row = grouped := if_pos hhash

theorem mem_coldEntry :
    encodedHash ∈ (coldEntry database grouped row).chunkHashes ↔
      Lists grouped row.packHash encodedHash := by
  unfold coldEntry Lists
  cases hfind : grouped.find row.packHash with
  | none =>
    have hnone := find_eq_none.mp hfind
    rw [Option.getD_none]
    constructor
    · exact fun h ↦ absurd h not_mem_nil
    · exact fun ⟨pack, hpack, hkey, _⟩ ↦ absurd hkey (hnone pack hpack)
  | some found =>
    obtain ⟨hfound, hkey⟩ := find_eq_some.mp hfind
    rw [Option.getD_some]
    constructor
    · exact fun h ↦ ⟨found, hfound, hkey, h⟩
    · rintro ⟨pack, hpack, hpackKey, h⟩
      rwa [eq_of_key_eq hpack hfound (hpackKey.trans hkey.symm)] at h

theorem lists_groupColdPack (packHash encodedHash : Text) :
    Lists (groupColdPack state database buildId grouped row) packHash encodedHash ↔
      Lists grouped packHash encodedHash ∨ isLowercaseContentHash row.packHash = true ∧
        row = ⟨packHash, encodedHash⟩ := by
  cases hhash : isLowercaseContentHash row.packHash with
  | false =>
    rw [groupColdPack_of_not_valid hhash]
    simp
  | true =>
    obtain ⟨entry, hstep, hkey, -, hchunks⟩ :=
      groupColdPack_of_valid state database buildId grouped hhash
    rw [hstep]
    constructor
    · rintro ⟨pack, hpack, rfl, hchunk⟩
      rcases mem_upsert.mp hpack with rfl | ⟨hold, -⟩
      · rcases (hchunks encodedHash).mp hchunk with hchunk | rfl
        · rw [hkey]
          exact .inl (mem_coldEntry.mp hchunk)
        · exact .inr ⟨rfl, by rw [hkey]⟩
      · exact .inl ⟨pack, hold, rfl, hchunk⟩
    · rintro (hlists | ⟨-, rfl⟩)
      · by_cases hsame : packHash = row.packHash
        · exact ⟨entry, mem_upsert.mpr (.inl rfl), hkey.trans hsame.symm,
            (hchunks encodedHash).mpr (.inl (mem_coldEntry.mpr (hsame ▸ hlists)))⟩
        · obtain ⟨pack, hpack, rfl, hchunk⟩ := hlists
          exact ⟨pack, mem_upsert.mpr (.inr ⟨hpack, fun heq ↦ hsame (heq.trans hkey)⟩), rfl,
            hchunk⟩
      · exact ⟨entry, mem_upsert.mpr (.inl rfl), hkey, (hchunks encodedHash).mpr (.inr rfl)⟩

theorem sources_groupColdPack (hgrouped : ∀ pack ∈ grouped, pack.sources ≠ []) :
    ∀ pack ∈ groupColdPack state database buildId grouped row, pack.sources ≠ [] := by
  intro pack hpack
  cases hhash : isLowercaseContentHash row.packHash with
  | false =>
    rw [groupColdPack_of_not_valid hhash] at hpack
    exact hgrouped pack hpack
  | true =>
    obtain ⟨entry, hstep, -, hsources, -⟩ :=
      groupColdPack_of_valid state database buildId grouped hhash
    rw [hstep, mem_upsert] at hpack
    rcases hpack with rfl | ⟨hold, -⟩
    · exact hsources
    · exact hgrouped pack hold

end ColdLoop

/-! ### The answer -/

/-- A pack that is attached to the build and can be streamed from COLD storage. -/
def StreamedCold (database : Database) (buildId packHash : Text) : Prop :=
  database.hasPack buildId packHash = true ∧ HasColdCopy database packHash

section Answer

variable {state : AppState} {orders : PackOrders} {database : MetadataDatabase} {buildId : Text}
  {buildIsLatest : Bool} {requested : List Text}

theorem sources_groupPacks :
    ∀ pack ∈ groupPacks state orders database buildId buildIsLatest requested,
      pack.sources ≠ [] := by
  have hhot : ∀ pack ∈ groupHotSources state orders database buildIsLatest requested,
      pack.sources ≠ [] := fun pack hpack ↦ (hotPack_of_mem_groupHotSources pack hpack).sources
  unfold groupPacks
  split_ifs
  · exact List.foldlRecOn _ _ (motive := fun grouped : Grouped ↦
      ∀ pack ∈ grouped, pack.sources ≠ []) hhot fun _ hgrouped _ _ ↦ sources_groupColdPack hgrouped
  · exact hhot

theorem lists_groupPacks_of_latest {packHash encodedHash : Text} :
    Lists (groupPacks state orders database buildId true requested) packHash encodedHash ↔
      encodedHash ∈ requested ∧ database.catalog.packContains packHash encodedHash = true ∧
        isLowercaseContentHash packHash = true ∧ ServedHot state database.catalog packHash := by
  simp only [groupPacks, Bool.not_true, Bool.false_and, Bool.false_eq_true, if_false, Lists]
  constructor
  · rintro ⟨pack, hpack, rfl, hchunk⟩
    obtain ⟨hrequested, hcontains⟩ :=
      ((hotPack_of_mem_groupHotSources pack hpack).chunks encodedHash).mp hchunk
    obtain ⟨-, hhash, hserved, -⟩ := mem_groupHotSources.mp ⟨pack, hpack, rfl⟩
    exact ⟨hrequested, hcontains, hhash, hserved⟩
  · rintro ⟨hrequested, hcontains, hhash, hserved⟩
    obtain ⟨pack, hpack, rfl⟩ := mem_groupHotSources.mpr
      ⟨rfl, hhash, hserved, encodedHash, hrequested, hcontains⟩
    exact ⟨pack, hpack, rfl, ((hotPack_of_mem_groupHotSources pack hpack).chunks encodedHash).mpr
        ⟨hrequested, hcontains⟩⟩

theorem lists_groupPacks_of_superseded :
    Lists (groupPacks state orders database buildId false requested) packHash encodedHash ↔
      state.coldStreamConfigured = true ∧ encodedHash ∈ requested ∧
        database.catalog.packContains packHash encodedHash = true ∧
        isLowercaseContentHash packHash = true ∧
        StreamedCold database.catalog buildId packHash := by
  have hnone : ¬ Lists (groupHotSources state orders database false requested) packHash
      encodedHash := by
    rintro ⟨pack, hpack, hkey, -⟩
    exact Bool.false_ne_true (mem_groupHotSources.mp ⟨pack, hpack, hkey⟩).1
  unfold groupPacks StreamedCold
  cases hstream : state.coldStreamConfigured with
  | false =>
    simp only [Bool.not_false, Bool.and_false, Bool.false_eq_true, if_false, hnone, false_and]
  | true =>
    simp only [Bool.not_false, Bool.and_true, if_true, true_and]
    rw [foldl_iff (fun grouped : Grouped ↦ Lists grouped packHash encodedHash)
      (fun row ↦ isLowercaseContentHash row.packHash = true ∧ row = ⟨packHash, encodedHash⟩)
      fun grouped row _ ↦ lists_groupColdPack packHash encodedHash]
    simp only [hnone, false_or, mem_rowsByChunk, getColdPackSourcesForBuildChunks,
      mem_coldPackChunks]
    constructor
    · rintro ⟨_, ⟨hcontains, hrequested, hcold, hattached⟩, hhash, rfl⟩
      exact ⟨hrequested, hcontains, hhash, hattached, hcold⟩
    · rintro ⟨hrequested, hcontains, hhash, hattached, hcold⟩
      exact ⟨_, ⟨hcontains, hrequested, hcold, hattached⟩, hhash, rfl⟩

theorem mem_packResponse (hsources : ∀ pack ∈ grouped, pack.sources ≠ []) :
    (∃ pack ∈ packResponse grouped, encodedHash ∈ pack.chunkHashes ∧ pack.sources ≠ []) ↔
      ∃ packHash, Lists grouped packHash encodedHash := by
  simp only [packResponse, mem_map, mem_insertionSort, mem_filter, Bool.and_eq_true,
    Bool.not_eq_true', isEmpty_eq_false_iff]
  constructor
  · rintro ⟨_, ⟨pack, ⟨hpack, -⟩, rfl⟩, hchunk, -⟩
    exact ⟨pack.packHash, pack, hpack, rfl, (mem_insertionSort _).mp hchunk⟩
  · rintro ⟨_, pack, hpack, rfl, hchunk⟩
    refine ⟨_, ⟨pack, ⟨hpack, ne_nil_of_mem hchunk, hsources pack hpack⟩, rfl⟩,
      (mem_insertionSort _).mpr hchunk, fun hempty ↦ hsources pack hpack ?_⟩
    exact eq_nil_of_length_eq_zero
      ((length_insertionSort _ _).symm.trans (congrArg List.length hempty))

/-- Nothing is restored for a latest build exactly when every COLD pack with a requested chunk was
found. -/
theorem packsToRestore_eq_nil_iff :
    packsToRestore state database buildIsLatest requested grouped = [] ↔
      (buildIsLatest = false ∧ state.coldStreamConfigured = true) ∨
        ∀ packHash, ∀ encodedHash ∈ requested,
          database.catalog.packContains packHash encodedHash = true →
          HasColdCopy database.catalog packHash → isLowercaseContentHash packHash = true →
          ∃ pack ∈ grouped, pack.packHash = packHash := by
  unfold packsToRestore
  by_cases hstream : (!buildIsLatest && state.coldStreamConfigured) = true
  · rw [if_pos hstream]
    rw [Bool.and_eq_true, Bool.not_eq_true'] at hstream
    simp only [hstream, and_self, true_or]
  · rw [if_neg hstream]
    rw [Bool.and_eq_true, Bool.not_eq_true'] at hstream
    simp only [hstream, false_or, eq_nil_iff_forall_not_mem, mem_dedup, mem_filter,
      mem_map, getColdPackHashesForChunks, mem_coldPackChunks, Bool.and_eq_true, not_and,
      Option.isNone_iff_eq_none, find_eq_none, and_true]
    constructor
    · intro h packHash encodedHash hrequested hcontains hcold hhash
      by_contra hnone
      exact h packHash ⟨⟨packHash, encodedHash⟩, ⟨hcontains, hrequested, hcold⟩, rfl⟩ hhash
        fun pack hpack hkey ↦ hnone ⟨pack, hpack, hkey⟩
    · rintro h _ ⟨row, ⟨hcontains, hrequested, hcold⟩, rfl⟩ hhash hnone
      obtain ⟨pack, hpack, hkey⟩ := h _ _ hrequested hcontains hcold hhash
      exact hnone pack hpack hkey

end Answer

variable {buildId : Text}

theorem checkPackRequest_eq_ok {state : AppState} {database : MetadataDatabase} :
    checkPackRequest state buildId encodedHashes = .ok database ↔
      state.packsEnabled = true ∧ validateContentHashes encodedHashes = .ok () ∧
        state.database = some database ∧ database.catalog.isPublished buildId = true ∧
        ∀ encodedHash ∈ encodedHashes,
          encodedHash ∈ referencedChunks (database.manifestJson buildId) := by
  simp only [checkPackRequest, bind_eq_ok, throwIf_eq_ok, orThrow_eq_ok, pure_eq_ok,
    Bool.not_eq_false, MetadataDatabase.getManifest, exists_const, not_exists, not_and, not_not,
    Option.ite_none_right_eq_some, Option.some.injEq]
  constructor
  · rintro ⟨hpacks, _, hvalid, _, hdatabase, _, ⟨hpublished, rfl⟩, hreferenced, rfl⟩
    exact ⟨hpacks, hvalid, hdatabase, hpublished, hreferenced⟩
  · rintro ⟨hpacks, hvalid, hdatabase, hpublished, hreferenced⟩
    exact ⟨hpacks, _, hvalid, _, hdatabase, _, ⟨hpublished, rfl⟩, hreferenced, rfl⟩

theorem enqueueRestores_answer_ne_ok {α : Type} {state : AppState} {targets : List (Bool × Text)}
    {message : Text} {value : α} : (enqueueRestores state targets message).answer ≠ .ok value := by
  unfold enqueueRestores
  cases admitRestoreJobs state targets.length <;> exact nofun

theorem resolvePacks_eq_ok {state : AppState}
    {packs : List ResolvedPack} :
    (resolvePacks state orders buildId encodedHashes).answer = .ok packs ↔
      ∃ database, checkPackRequest state buildId encodedHashes = .ok database ∧
        let buildIsLatest := database.catalog.isLatestPublishedBuild buildId
        let grouped := groupPacks state orders database buildId buildIsLatest encodedHashes
        packsToRestore state database buildIsLatest encodedHashes grouped = [] ∧
          packResponse grouped = packs := by
  unfold resolvePacks
  cases hcheck : checkPackRequest state buildId encodedHashes with
  | error error => simp
  | ok database =>
    simp only [Except.ok.injEq, exists_eq_left']
    split_ifs with hrestore
    · simp only [hrestore, true_and, Except.ok.injEq]
    · simp only [hrestore, false_and, iff_false]
      exact enqueueRestores_answer_ne_ok

theorem resolvePacks_enqueued_of_ok {state : AppState}
    {packs : List ResolvedPack}
    (h : (resolvePacks state orders buildId encodedHashes).answer = .ok packs) :
    (resolvePacks state orders buildId encodedHashes).enqueued = [] := by
  obtain ⟨database, hcheck, hrestore, -⟩ := resolvePacks_eq_ok.mp h
  unfold resolvePacks
  simp only [hcheck, hrestore, if_true]

/-! ### Completeness of the resolution of packs -/

/-- The requested chunks are all listed, with sources, and nothing is restored. -/
def Complete (handled : Handled (List ResolvedPack)) (encodedHashes : List Text) : Prop :=
  ∃ packs, handled.answer = .ok packs ∧ handled.enqueued = [] ∧ ∀ encodedHash ∈ encodedHashes,
      ∃ pack ∈ packs, encodedHash ∈ pack.chunkHashes ∧ pack.sources ≠ []

/-- A verified pack of the build contains the chunk, and has a verified HOT location that has not
expired, with a direct URL, at an enabled HOT provider that serves direct downloads. -/
def HotCovered (state : AppState) (database : Database) (now : ℤ) (buildId encodedHash : Text) :
    Prop :=
  ∃ packHash, database.hasPack buildId packHash = true ∧
    database.packContains packHash encodedHash = true ∧ database.packVerified packHash = true ∧
    ∃ row ∈ database.packLocations, row.packHash = packHash ∧ row.storageClass = .hot ∧
      row.verifiedAt.isSome = true ∧ (∀ time, row.expiresAt = some time → now < time) ∧
      row.directUrl ≠ [] ∧
      (state.storage.hotProvider ProviderCapabilities.directDownload row.provider).isSome = true

/-- What a latest build needs: every requested chunk is in a pack with a well-formed hash that is
served from HOT storage, and so is every pack with a well-formed hash in COLD storage that contains
a requested chunk, of whatever build. -/
structure LatestServable (state : AppState) (database : Database) (encodedHashes : List Text) :
    Prop where
  covered : ∀ encodedHash ∈ encodedHashes, ∃ packHash,
    database.packContains packHash encodedHash = true ∧
      isLowercaseContentHash packHash = true ∧ ServedHot state database packHash
  noneCold : ∀ packHash, ∀ encodedHash ∈ encodedHashes,
    database.packContains packHash encodedHash = true → HasColdCopy database packHash →
      isLowercaseContentHash packHash = true → ServedHot state database packHash

/-- What a superseded build needs: the COLD stream is configured, and every requested chunk is in a
pack of the build with a well-formed hash in COLD storage. -/
structure SupersededServable (state : AppState) (database : Database) (buildId : Text)
    (encodedHashes : List Text) : Prop where
  configured : state.coldStreamConfigured = true
  covered : ∀ encodedHash ∈ encodedHashes, ∃ packHash,
    database.packContains packHash encodedHash = true ∧
      isLowercaseContentHash packHash = true ∧ StreamedCold database buildId packHash

theorem ne_nil_of_validateContentHashes (h : validateContentHashes encodedHashes = .ok ()) :
    encodedHashes ≠ [] := by
  simp only [validateContentHashes, bind_eq_ok, throwIf_eq_ok, not_or] at h
  obtain ⟨_, ⟨hne, -⟩, -⟩ := h
  exact hne

theorem latestServable_iff {state : AppState} {database : MetadataDatabase} :
    packsToRestore state database true requested
          (groupPacks state orders database buildId true requested) = [] ∧
        (∀ encodedHash ∈ requested, ∃ packHash,
          Lists (groupPacks state orders database buildId true requested) packHash encodedHash) ↔
      LatestServable state database.catalog requested := by
  simp only [packsToRestore_eq_nil_iff, lists_groupPacks_of_latest, Bool.true_eq_false, false_and,
    false_or]
  have hfound {packHash : Text} :
      (∃ pack ∈ groupPacks state orders database buildId true requested,
        pack.packHash = packHash) ↔ isLowercaseContentHash packHash = true ∧
          ServedHot state database.catalog packHash ∧ ∃ encodedHash ∈ requested,
            database.catalog.packContains packHash encodedHash = true := by
    simp only [groupPacks, Bool.not_true, Bool.false_and, Bool.false_eq_true, if_false,
      mem_groupHotSources, true_and]
  simp only [hfound]
  constructor
  · rintro ⟨hcold, hcovered⟩
    refine ⟨fun encodedHash hmem ↦ ?_, fun packHash encodedHash hmem hcontains hcopy hhash ↦ ?_⟩
    · obtain ⟨packHash, -, hpack⟩ := hcovered encodedHash hmem
      exact ⟨packHash, hpack⟩
    · exact (hcold packHash encodedHash hmem hcontains hcopy hhash).2.1
  · rintro ⟨hcovered, hcold⟩
    refine ⟨fun packHash encodedHash hmem hcontains hcopy hhash ↦ ?_, fun encodedHash hmem ↦ ?_⟩
    · exact ⟨hhash, hcold packHash encodedHash hmem hcontains hcopy hhash, encodedHash, hmem,
        hcontains⟩
    · obtain ⟨packHash, hpack⟩ := hcovered encodedHash hmem
      exact ⟨packHash, hmem, hpack⟩

theorem supersededServable_iff (orders : PackOrders) {state : AppState}
    {database : MetadataDatabase}
    (hne : requested ≠ []) :
    packsToRestore state database false requested
          (groupPacks state orders database buildId false requested) = [] ∧
        (∀ encodedHash ∈ requested, ∃ packHash,
          Lists (groupPacks state orders database buildId false requested) packHash encodedHash) ↔
      SupersededServable state database.catalog buildId requested := by
  simp only [packsToRestore_eq_nil_iff, lists_groupPacks_of_superseded, true_and]
  constructor
  · rintro ⟨-, hcovered⟩
    obtain ⟨first, hfirst⟩ := exists_mem_of_ne_nil _ hne
    obtain ⟨-, hconfigured, -⟩ := hcovered first hfirst
    refine ⟨hconfigured, fun encodedHash hmem ↦ ?_⟩
    obtain ⟨packHash, -, -, hpack⟩ := hcovered encodedHash hmem
    exact ⟨packHash, hpack⟩
  · rintro ⟨hconfigured, hcovered⟩
    refine ⟨.inl hconfigured, fun encodedHash hmem ↦ ?_⟩
    obtain ⟨packHash, hpack⟩ := hcovered encodedHash hmem
    exact ⟨packHash, hconfigured, hmem, hpack⟩

/-- When the resolution of packs is complete. Assumes: a published build in the database, and a
request for chunks of its manifest. Then every requested chunk is listed with a source, and nothing
is restored, exactly when packs are enabled, the request is well formed, and the build can be
served: a latest build from HOT storage, with no requested chunk in a pack that is in COLD storage
only, and a superseded build through the COLD stream. -/
theorem resolvePacks_complete_iff {state : AppState} {orders : PackOrders}
    {database : MetadataDatabase} {buildId : Text} {encodedHashes : List Text}
    (hdatabase : state.database = some database)
    (hpublished : database.catalog.isPublished buildId = true)
    (hreferenced : ∀ encodedHash ∈ encodedHashes,
      encodedHash ∈ referencedChunks (database.manifestJson buildId)) :
    Complete (resolvePacks state orders buildId encodedHashes) encodedHashes ↔
      state.packsEnabled = true ∧ validateContentHashes encodedHashes = .ok () ∧
        if database.catalog.isLatestPublishedBuild buildId then
          LatestServable state database.catalog encodedHashes
        else SupersededServable state database.catalog buildId encodedHashes := by
  have hcomplete : Complete (resolvePacks state orders buildId encodedHashes) encodedHashes ↔
      (state.packsEnabled = true ∧ validateContentHashes encodedHashes = .ok ()) ∧
        let buildIsLatest := database.catalog.isLatestPublishedBuild buildId
        let grouped := groupPacks state orders database buildId buildIsLatest encodedHashes
        packsToRestore state database buildIsLatest encodedHashes grouped = [] ∧
          ∀ encodedHash ∈ encodedHashes, ∃ packHash, Lists grouped packHash encodedHash := by
    constructor
    · rintro ⟨packs, hanswer, -, hlisted⟩
      obtain ⟨other, hcheck, hrestore, rfl⟩ := resolvePacks_eq_ok.mp hanswer
      obtain ⟨hpacks, hvalid, hother, -⟩ := checkPackRequest_eq_ok.mp hcheck
      obtain rfl : other = database := Option.some.inj (hother.symm.trans hdatabase)
      exact ⟨⟨hpacks, hvalid⟩, hrestore, fun encodedHash hmem ↦
        (mem_packResponse sources_groupPacks).mp (hlisted encodedHash hmem)⟩
    · rintro ⟨⟨hpacks, hvalid⟩, hrestore, hlisted⟩
      have hcheck := checkPackRequest_eq_ok.mpr
        ⟨hpacks, hvalid, hdatabase, hpublished, hreferenced⟩
      have hanswer := resolvePacks_eq_ok.mpr ⟨database, hcheck, hrestore, rfl⟩
      exact ⟨_, hanswer, resolvePacks_enqueued_of_ok hanswer, fun encodedHash hmem ↦
        (mem_packResponse sources_groupPacks).mpr (hlisted encodedHash hmem)⟩
  rw [hcomplete, and_assoc]
  refine and_congr_right fun _ ↦ and_congr_right fun hvalid ↦ ?_
  cases hlatest : database.catalog.isLatestPublishedBuild buildId with
  | true => simpa only [if_true] using latestServable_iff
  | false =>
    simpa only [Bool.false_eq_true, if_false] using
      supersededServable_iff orders (ne_nil_of_validateContentHashes hvalid)

def chunkA : Text := List.replicate 64 'a'

/-- The hash of a pack of the build. -/
def packB : Text := List.replicate 64 'b'

/-- The hash of a pack of another build. -/
def packC : Text := List.replicate 64 'c'

def packLocationAt (packHash : Text) (storageClass : StorageClass) (directUrl : Text) :
    PackLocation :=
  ⟨packHash, "cdn", "pool", "domain", storageClass, packHash, directUrl, 0, some 0, none⟩

/-- A published build with one chunk, in a pack that is in HOT storage. -/
def servedCatalog : Database :=
  { emptyCatalog with
    builds := .upsert .empty ⟨"new", "game", .published, 0, some 0⟩
    buildPacks := .upsert .empty ⟨"new", packB⟩
    physicalPacks := .upsert .empty ⟨packB, true, some 0⟩
    packChunks := .upsert .empty ⟨packB, chunkA⟩
    packLocations := .upsert .empty (packLocationAt packB .hot "https://cdn/b") }

/-- The same, when a pack of another game contains the chunk too and is in COLD storage only. -/
def sharedChunkCatalog : Database :=
  { servedCatalog with
    builds := servedCatalog.builds.upsert ⟨"old", "other", .published, 0, some 0⟩
    buildPacks := servedCatalog.buildPacks.upsert ⟨"old", packC⟩
    physicalPacks := servedCatalog.physicalPacks.upsert ⟨packC, true, some 0⟩
    packChunks := servedCatalog.packChunks.upsert ⟨packC, chunkA⟩
    packLocations := servedCatalog.packLocations.upsert (packLocationAt packC .cold []) }

def oneChunkManifest : Manifest where
  schemaVersion := 1
  manifestId := "manifest"
  gameId := "game"
  buildId := "new"
  displayVersion := "1"
  chunking := .standard
  encoding := .standard
  files := [⟨"game.bin", 1, chunkA, [⟨chunkA, 1, chunkA, 1, []⟩]⟩]
  launch := ⟨"game.bin", []⟩

def databaseOf (catalog : Database) : MetadataDatabase :=
  ⟨catalog, fun _ ↦ oneChunkManifest, fun _ ↦ 0, fun _ ↦ 10⟩

/-- A server with one provider, which serves direct downloads from an enabled HOT pool. -/
def serverWith (catalog : Database) : AppState where
  database := some (databaseOf catalog)
  manifests := fun _ ↦ none
  storage :=
    { providers := [⟨"cdn", "s3", ⟨true, true, true⟩, fun _ _ ↦ none, fun _ _ ↦ none⟩]
      poolForProvider := fun _ ↦ some ⟨"pool", .hot, 0, "domain", true, .ready⟩ }
  mirrors := []
  packsEnabled := true
  publicBaseUrl := "https://api"
  coldStreamWorkerUrl := none
  coldStreamToken := none
  retryAfterSeconds := none
  restoreQueueDepth := 0
  maxRestoreJobsPerRequest := 16
  maxPendingRestoreJobs := 100
  restoreTarget := "hot"

/-- Hash maps that keep the order of insertion. -/
def insertionOrders : PackOrders :=
  ⟨⟨id, fun _ ↦ .refl _⟩, ⟨id, fun _ ↦ .refl _⟩, ⟨id, fun _ ↦ .refl _⟩⟩

theorem resolvePacks_complete_iff_served :
    Complete (resolvePacks (serverWith servedCatalog) insertionOrders "new" [chunkA])
      [chunkA] := by
  have hdatabase : (serverWith servedCatalog).database = some (databaseOf servedCatalog) := rfl
  have hlatest : (databaseOf servedCatalog).catalog.isLatestPublishedBuild "new" = true := by
    decide
  have hserved : ServedHot (serverWith servedCatalog) servedCatalog packB :=
    ⟨packLocationAt packB .hot "https://cdn/b", by decide, by decide⟩
  refine (resolvePacks_complete_iff hdatabase (by decide) (by decide)).mpr
    ⟨rfl, by decide, ?_⟩
  rw [if_pos hlatest]
  constructor
  · rintro _ (_ | ⟨_, ⟨⟩⟩)
    exact ⟨packB, by decide, by decide, hserved⟩
  · rintro packHash _ - - ⟨-, hcold⟩
    refine absurd (filter_eq_nil_iff.mpr fun row hrow ↦ ?_) hcold
    have hsame : row = packLocationAt packB .hot "https://cdn/b" := mem_singleton.mp hrow
    simp [hsame, packLocationAt]

/-- A request for a latest build that HOT storage covers is refused, and a restore is enqueued,
because a pack of another game in COLD storage contains the chunk. -/
theorem covered_request_refused :
    (databaseOf sharedChunkCatalog).catalog.isPublished "new" = true ∧
      chunkA ∈ referencedChunks ((databaseOf sharedChunkCatalog).manifestJson "new") ∧
      HotCovered (serverWith sharedChunkCatalog) sharedChunkCatalog 0 "new" chunkA ∧
      ¬ Complete (resolvePacks (serverWith sharedChunkCatalog) insertionOrders "new"
        [chunkA]) [chunkA] := by
  refine ⟨by decide, by decide, ?_, ?_⟩
  · exact ⟨packB, by decide, by decide, by decide,
      packLocationAt packB .hot "https://cdn/b", mem_iff.mpr (by decide), rfl,
      rfl, rfl, nofun, by decide, by decide⟩
  · rintro ⟨-, -, henqueued, -⟩
    exact cons_ne_nil _ _ henqueued

end GameLauncher.Api
