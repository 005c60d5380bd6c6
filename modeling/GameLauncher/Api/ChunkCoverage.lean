import GameLauncher.Api.ResolutionCoverage

/-!
# Chunks that are left to the packs

`resolveChunks` answers a chunk of a latest build with a URL, or fails. It leaves out the chunks of
a superseded build that lie in packs, because `resolvePacks` is to serve them
(`resolveChunk_of_superseded`). The two handlers look for these packs in different ways.
`resolveChunks_covered_iff` is the exact condition under which no chunk is dropped between them:
without the COLD stream, `resolveChunks` counts on HOT packs, which `resolvePacks` does not look up
for a superseded build; with it, they can differ on packs with a malformed hash only.
-/

set_option autoImplicit false

namespace GameLauncher.Api

open Foundation Fallible Manifests Placement Catalog List

/-! ### The loop over the chunks -/

variable {encodedHashes : List Text}

/-- A loop succeeds exactly when each of its rounds does, and collects what they give. -/
theorem resolveEach_answer_eq_ok {α : Type} {resolve : ℕ → Text → Handled (Option α)} {round : ℕ}
    {results : List α} :
    (resolveEach resolve round encodedHashes).answer = .ok results ↔ ∃ found : List (Option α),
        List.Forall₂ (fun item value ↦ (resolve item.2 item.1).answer = .ok value)
          (encodedHashes.zipIdx round) found ∧ found.flatMap Option.toList = results := by
  induction encodedHashes generalizing round results with
  | nil => simp [resolveEach]
  | cons encodedHash rest ih =>
    rw [resolveEach, zipIdx_cons]
    simp only [forall₂_cons_left_iff]
    cases hfirst : resolve round encodedHash with
    | mk answer enqueued =>
      cases answer with
      | error error => simp
      | ok value =>
        simp only [Except.ok.injEq]
        constructor
        · intro h
          cases hrest : (resolveEach resolve (round + 1) rest).answer with
          | error error =>
            rw [hrest] at h
            cases h
          | ok others =>
            rw [hrest] at h
            obtain ⟨found, hfound, rfl⟩ := ih.mp hrest
            exact ⟨value :: found, ⟨value, found, rfl, hfound, rfl⟩, Except.ok.inj h⟩
        · rintro ⟨_, ⟨_, found, rfl, hfound, rfl⟩, rfl⟩
          rw [ih.mpr ⟨found, hfound, rfl⟩]
          rfl

variable {encodedHash : Text} {order : HashOrder (Bool × Text)}

theorem chunkUnavailable_answer_ne_ok {state : AppState}
    {buildIsLatest : Bool} {found : Option ResolvedChunk} :
    (chunkUnavailable state order buildIsLatest encodedHash).answer ≠ .ok found := by
  unfold chunkUnavailable
  cases state.database with
  | none => exact nofun
  | some database =>
    dsimp only
    split_ifs
    · rintro ⟨⟩
    · exact enqueueRestores_answer_ne_ok

section Rounds

variable {state : AppState} {order : HashOrder (Bool × Text)} {buildId : Text}
  {allowed : List Text} {round : ℕ} {encodedHash : Text} {found : Option ResolvedChunk}

theorem resolveChunk_of_latest
    (h : (resolveChunk state order buildId allowed true round encodedHash).answer = .ok found) :
    ∃ chunk, found = some chunk ∧ chunk.encodedHash = encodedHash ∧ chunk.urls ≠ [] := by
  unfold resolveChunk at h
  simp only [Bool.true_eq_false, false_and, if_false] at h
  split_ifs at h with hallowed hhash hurls
  · exact ⟨_, (Except.ok.inj h).symm, rfl, hurls⟩
  · exact absurd h chunkUnavailable_answer_ne_ok

theorem resolveChunk_of_superseded :
    (resolveChunk state order buildId allowed false round encodedHash).answer = .ok found ↔
      encodedHash ∈ allowed ∧ isStorageHash encodedHash = true ∧
        leftToPacks state buildId encodedHash = true ∧ found = none := by
  unfold resolveChunk
  simp only [Bool.false_eq_true, if_false, ne_eq, not_true_eq_false, true_and]
  split_ifs with hallowed hhash hleft
  · simp [hhash]
  · simp [hallowed, hhash, hleft, eq_comm]
  · exact iff_of_false chunkUnavailable_answer_ne_ok fun h ↦ hleft h.2.2.1
  · simp [hallowed]

end Rounds

theorem isStorageHash_of_validateContentHashes (h : validateContentHashes encodedHashes = .ok ()) (hmem : encodedHash ∈ encodedHashes) :
    isStorageHash encodedHash = true := by
  simp only [validateContentHashes, bind_eq_ok, throwIf_eq_ok, not_exists, not_and,
    Bool.not_eq_false] at h
  obtain ⟨_, -, hhash⟩ := h
  exact isStorageHash_of_isLowercaseContentHash (hhash encodedHash hmem)

/-! ### The two handlers together -/

variable {database : MetadataDatabase}

/-- The chunk is answered with a URL, or the packs that are resolved in the same state cover it. -/
def ChunkCovered (state : AppState) (orders : PackOrders) (buildId : Text)
    (encodedHashes : List Text) (chunks : List ResolvedChunk) (encodedHash : Text) : Prop :=
  (∃ chunk ∈ chunks, chunk.encodedHash = encodedHash ∧ chunk.urls ≠ []) ∨
    ∃ packs, (resolvePacks state orders buildId encodedHashes).answer = .ok packs ∧
      ∃ pack ∈ packs, encodedHash ∈ pack.chunkHashes ∧ pack.sources ≠ []

/-- The chunk lies in packs that `resolve_chunks` counts on: of the build and streamed from COLD
storage when the COLD stream is configured, and in HOT storage otherwise. -/
def CountedOn (state : AppState) (database : Database) (buildId encodedHash : Text) : Prop :=
  if state.coldStreamConfigured then
    ∃ packHash, database.packContains packHash encodedHash = true ∧
      StreamedCold database buildId packHash
  else ∃ packHash, database.Resolvable packHash ∧ database.packContains packHash encodedHash = true

/-- A request for chunks of a superseded build, all of which are left to the packs, although the
packs do not cover one of them: the COLD stream is not configured, or no pack of a well-formed hash
contains the chunk. -/
structure DropsChunks (state : AppState) (database : MetadataDatabase) (buildId : Text)
    (encodedHashes : List Text) : Prop where
  packsEnabled : state.packsEnabled = true
  wellFormed : validateContentHashes encodedHashes = .ok ()
  published : database.catalog.isPublished buildId = true
  referenced : ∀ encodedHash ∈ encodedHashes,
    encodedHash ∈ referencedChunks (database.manifestJson buildId)
  superseded : database.catalog.isLatestPublishedBuild buildId = false
  countedOn : ∀ encodedHash ∈ encodedHashes, CountedOn state database.catalog buildId encodedHash
  uncovered : state.coldStreamConfigured = false ∨ ∃ encodedHash ∈ encodedHashes, ∀ packHash,
    database.catalog.packContains packHash encodedHash = true →
      StreamedCold database.catalog buildId packHash → isLowercaseContentHash packHash = false

variable {buildId : Text}

theorem leftToPacks_iff {state : AppState}
    (hdatabase : state.database = some database) :
    leftToPacks state buildId encodedHash = true ↔
      state.packsEnabled = true ∧ CountedOn state database.catalog buildId encodedHash := by
  unfold leftToPacks CountedOn
  rw [hdatabase, Bool.and_eq_true, Option.any_some]
  refine and_congr_right fun _ ↦ ?_
  split_ifs
  · rw [Bool.not_eq_true', isEmpty_eq_false_iff]
    constructor
    · intro h
      obtain ⟨row, hrow⟩ := exists_mem_of_ne_nil _ h
      obtain ⟨hcontains, hrequested, hcold, hattached⟩ := mem_coldPackChunks.mp hrow
      rw [mem_singleton.mp hrequested] at hcontains
      exact ⟨row.packHash, hcontains, hattached, hcold⟩
    · rintro ⟨packHash, hcontains, hattached, hcold⟩
      have hrow : ⟨packHash, encodedHash⟩ ∈ getColdPackSourcesForBuildChunks database.catalog buildId
          [encodedHash] := mem_coldPackChunks.mpr
        ⟨hcontains, mem_cons_self, hcold, hattached⟩
      exact ne_nil_of_mem hrow
  · rw [Bool.not_eq_true', isEmpty_eq_false_iff]
    exact hotSources_ne_nil_iff

theorem resolveChunks_answer_eq_ok {state : AppState} {chunks : List ResolvedChunk} :
    (resolveChunks state order buildId encodedHashes).answer = .ok chunks ↔
      validateContentHashes encodedHashes = .ok () ∧
        ∃ allowed, allowedChunks state buildId = some allowed ∧
          (resolveEach (resolveChunk state order buildId allowed (isLatestBuild state buildId)) 0
            encodedHashes).answer = .ok chunks := by
  unfold resolveChunks
  cases validateContentHashes encodedHashes with
  | error error => simp
  | ok =>
    cases allowedChunks state buildId with
    | none => simp
    | some allowed => simp

theorem allowedChunks_eq_some {state : AppState} {allowed : List Text}
    (hdatabase : state.database = some database) :
    allowedChunks state buildId = some allowed ↔ database.catalog.isPublished buildId = true ∧
      referencedChunks (database.manifestJson buildId) = allowed := by
  unfold allowedChunks MetadataDatabase.getManifest
  rw [hdatabase]
  by_cases hpublished : database.catalog.isPublished buildId = true
  · simp [hpublished]
  · simp [hpublished]

theorem exists_round_of_mem {α : Type} {resolve : ℕ → Text → Handled (Option α)} {results : List α}
    (h : (resolveEach resolve 0 encodedHashes).answer = .ok results)
    (hmem : encodedHash ∈ encodedHashes) :
    ∃ round found, (resolve round encodedHash).answer = .ok found ∧
      ∀ result, found = some result → result ∈ results := by
  obtain ⟨found, hfound, rfl⟩ := resolveEach_answer_eq_ok.mp h
  obtain ⟨hlength, hget⟩ := forall₂_iff_get.mp hfound
  obtain ⟨index, hindex, rfl⟩ := mem_iff_getElem.mp hmem
  have hleft : index < encodedHashes.zipIdx.length := by simpa using hindex
  have hright : index < found.length := hlength ▸ hleft
  have hanswer := hget index hleft hright
  refine ⟨index, found[index], by simpa using hanswer, fun result heq ↦ ?_⟩
  exact mem_flatMap.mpr ⟨_, getElem_mem hright, by rw [heq]; exact mem_cons_self⟩

theorem resolveEach_of_counted {state : AppState}
    {allowed : List Text} {round : ℕ}
    (hcounted : ∀ encodedHash ∈ encodedHashes, encodedHash ∈ allowed ∧
      isStorageHash encodedHash = true ∧ leftToPacks state buildId encodedHash = true) :
    (resolveEach (resolveChunk state order buildId allowed false) round encodedHashes).answer =
      .ok [] := by
  refine resolveEach_answer_eq_ok.mpr
    ⟨(encodedHashes.zipIdx round).map fun _ ↦ none, ?_, by simp⟩
  rw [forall₂_map_right_iff, forall₂_same]
  intro item hitem
  obtain ⟨hallowed, hhash, hleft⟩ := hcounted item.1 (fst_mem_of_mem_zipIdx hitem)
  exact resolveChunk_of_superseded.mpr ⟨hallowed, hhash, hleft, rfl⟩

theorem streamed_of_resolvePacks {state : AppState} {orders : PackOrders}
    {packs : List ResolvedPack} (hdatabase : state.database = some database)
    (hsuperseded : database.catalog.isLatestPublishedBuild buildId = false)
    (hanswer : (resolvePacks state orders buildId encodedHashes).answer = .ok packs)
    (hcovered : ∃ pack ∈ packs, encodedHash ∈ pack.chunkHashes ∧ pack.sources ≠ []) :
    state.coldStreamConfigured = true ∧ ∃ packHash,
      database.catalog.packContains packHash encodedHash = true ∧
        isLowercaseContentHash packHash = true ∧
        StreamedCold database.catalog buildId packHash := by
  obtain ⟨other, hcheck, -, rfl⟩ := resolvePacks_eq_ok.mp hanswer
  obtain rfl : other = database :=
    Option.some.inj ((checkPackRequest_eq_ok.mp hcheck).2.2.1.symm.trans hdatabase)
  rw [hsuperseded] at hcovered
  obtain ⟨packHash, hlists⟩ := (mem_packResponse sources_groupPacks).mp hcovered
  obtain ⟨hconfigured, -, hpack⟩ := lists_groupPacks_of_superseded.mp hlists
  exact ⟨hconfigured, packHash, hpack⟩

/-- When nothing is dropped between the two handlers: whatever `resolve_chunks` answers, each
requested chunk has a URL in its answer or is covered by the packs that the same request resolves,
exactly when the request is not one that drops chunks. -/
theorem resolveChunks_covered_iff {state : AppState} {order : HashOrder (Bool × Text)}
    {orders : PackOrders} {buildId : Text} {encodedHashes : List Text} :
    (∀ chunks, (resolveChunks state order buildId encodedHashes).answer = .ok chunks →
      ∀ encodedHash ∈ encodedHashes,
        ChunkCovered state orders buildId encodedHashes chunks encodedHash) ↔
      ∀ database, state.database = some database →
        ¬ DropsChunks state database buildId encodedHashes := by
  constructor
  · intro hcovered database hdatabase hdrops
    have hlatest : isLatestBuild state buildId = false := by
      simp [isLatestBuild, hdatabase, hdrops.superseded]
    have hanswer : (resolveChunks state order buildId encodedHashes).answer = .ok [] := by
      refine resolveChunks_answer_eq_ok.mpr ⟨hdrops.wellFormed, _,
        (allowedChunks_eq_some hdatabase).mpr ⟨hdrops.published, rfl⟩, ?_⟩
      rw [hlatest]
      refine resolveEach_of_counted fun encodedHash hmem ↦ ⟨hdrops.referenced encodedHash hmem,
        isStorageHash_of_validateContentHashes hdrops.wellFormed hmem, ?_⟩
      exact (leftToPacks_iff hdatabase).mpr
        ⟨hdrops.packsEnabled, hdrops.countedOn encodedHash hmem⟩
    have hstreamed (encodedHash : Text) (hmem : encodedHash ∈ encodedHashes) :
        state.coldStreamConfigured = true ∧ ∃ packHash,
          database.catalog.packContains packHash encodedHash = true ∧
            isLowercaseContentHash packHash = true ∧
            StreamedCold database.catalog buildId packHash := by
      rcases hcovered [] hanswer encodedHash hmem with ⟨_, hnone, -⟩ | ⟨packs, hpacks, hpack⟩
      · exact absurd hnone not_mem_nil
      · exact streamed_of_resolvePacks hdatabase hdrops.superseded hpacks hpack
    rcases hdrops.uncovered with hoff | ⟨encodedHash, hmem, hmalformed⟩
    · obtain ⟨first, hfirst⟩ :=
        exists_mem_of_ne_nil _ (ne_nil_of_validateContentHashes hdrops.wellFormed)
      rw [(hstreamed first hfirst).1] at hoff
      exact Bool.false_ne_true hoff.symm
    · obtain ⟨-, packHash, hcontains, hhash, hcold⟩ := hstreamed encodedHash hmem
      rw [hmalformed packHash hcontains hcold] at hhash
      exact Bool.false_ne_true hhash
  · intro hdrops chunks hanswer encodedHash hmem
    obtain ⟨hvalid, allowed, hallowed, hrounds⟩ := resolveChunks_answer_eq_ok.mp hanswer
    cases hlatest : isLatestBuild state buildId with
    | true =>
      rw [hlatest] at hrounds
      obtain ⟨round, found, hround, hlisted⟩ := exists_round_of_mem hrounds hmem
      obtain ⟨chunk, rfl, hchunk, hurls⟩ := resolveChunk_of_latest hround
      exact .inl ⟨chunk, hlisted chunk rfl, hchunk, hurls⟩
    | false =>
      obtain ⟨database, hdatabase⟩ : ∃ database, state.database = some database := by
        refine Option.ne_none_iff_exists'.mp fun hnone ↦ ?_
        simp [isLatestBuild, hnone] at hlatest
      have hsuperseded : database.catalog.isLatestPublishedBuild buildId = false := by
        simpa [isLatestBuild, hdatabase] using hlatest
      obtain ⟨hpublished, rfl⟩ := (allowedChunks_eq_some hdatabase).mp hallowed
      rw [hlatest] at hrounds
      have hleft (other : Text) (hother : other ∈ encodedHashes) :
          other ∈ referencedChunks (database.manifestJson buildId) ∧ state.packsEnabled = true ∧
            CountedOn state database.catalog buildId other := by
        obtain ⟨round, found, hround, -⟩ := exists_round_of_mem hrounds hother
        obtain ⟨hreferenced, -, hleft, -⟩ := resolveChunk_of_superseded.mp hround
        exact ⟨hreferenced, (leftToPacks_iff hdatabase).mp hleft⟩
      have hservable : SupersededServable state database.catalog buildId encodedHashes := by
        by_contra hnot
        refine hdrops database hdatabase ⟨(hleft encodedHash hmem).2.1, hvalid, hpublished,
          fun other hother ↦ (hleft other hother).1, hsuperseded,
          fun other hother ↦ (hleft other hother).2.2, ?_⟩
        by_contra huncovered
        push Not at huncovered
        refine hnot ⟨Bool.not_eq_false _ ▸ huncovered.1, fun other hother ↦ ?_⟩
        obtain ⟨packHash, hcontains, hcold, hhash⟩ := huncovered.2 other hother
        exact ⟨packHash, hcontains, Bool.not_eq_false _ ▸ hhash, hcold⟩
      have hcheck := checkPackRequest_eq_ok.mpr ⟨(hleft encodedHash hmem).2.1, hvalid, hdatabase,
        hpublished, fun other hother ↦ (hleft other hother).1⟩
      obtain ⟨hrestore, hlisted⟩ :=
        (supersededServable_iff orders (ne_nil_of_mem hmem)).mpr hservable
      refine .inr ⟨_, resolvePacks_eq_ok.mpr ⟨database, hcheck, ?_, rfl⟩, ?_⟩
      · rw [hsuperseded]
        exact hrestore
      · rw [hsuperseded]
        exact (mem_packResponse sources_groupPacks).mpr (hlisted encodedHash hmem)

/-- A superseded build with one chunk, in a pack that is in HOT storage. -/
def supersededCatalog : Database :=
  { servedCatalog with
    builds := servedCatalog.builds.upsert ⟨"old", "game", .published, -1, some (-1)⟩
    buildPacks := servedCatalog.buildPacks.upsert ⟨"old", packB⟩ }

/-- A chunk of a superseded build is left out by `resolve_chunks`, because it lies in a HOT pack,
and `resolve_packs` finds no pack. -/
theorem superseded_chunk_dropped :
    ¬ ∀ chunks, (resolveChunks (serverWith supersededCatalog) ⟨id, fun _ ↦ .refl _⟩ "old"
        [chunkA]).answer = .ok chunks → ∀ encodedHash ∈ [chunkA],
          ChunkCovered (serverWith supersededCatalog) insertionOrders "old" [chunkA] chunks
            encodedHash := by
  intro hcovered
  have hchunks : (resolveChunks (serverWith supersededCatalog) ⟨id, fun _ ↦ .refl _⟩ "old"
      [chunkA]).answer.toOption = some [] := by decide
  have hpacks : (resolvePacks (serverWith supersededCatalog) insertionOrders "old"
      [chunkA]).answer.toOption = some [] := by decide
  rcases hcovered [] (toOption_eq_some.mp hchunks) chunkA mem_cons_self with
    ⟨_, hnone, -⟩ | ⟨packs, hanswer, _, hnone, -⟩
  · exact not_mem_nil hnone
  · rw [← Option.some.inj (hpacks.symm.trans (toOption_eq_some.mpr hanswer))] at hnone
    exact not_mem_nil hnone

end GameLauncher.Api
