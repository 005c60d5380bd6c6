import GameLauncher.Catalog.PublicationGate

/-!
# Publications that stop with an error

`publish_verified_build` writes into rows that live builds share: it puts the row of its build back
to `READY`, and marks every pack of the package as `UPLOADING` until the pack is verified again. A
run can stop with an error after any of its steps, and nothing undoes what it has written.

A build is live when it is published and all its packs can be resolved from HOT
(`getHotPackSourcesForChunks`). `stopped_keeps_live_iff` is the exact condition under which a run
that stops keeps every live build: its own build was not live, the pack it was uploading belongs to
no live build, and a retirement has not deleted the last HOT copy of a pack of a live build.
-/

set_option autoImplicit false

namespace GameLauncher.Catalog

open Foundation Fallible Manifests Placement List Publication Table

/-! ### Resolution from HOT -/

variable {packHash : Text} {row : PackLocation}

/-- The locations of a pack from which it can be downloaded: HOT, verified, with a direct URL, of a
verified pack. -/
def Database.hotPackLocations (database : Database) (packHash : Text) : List PackLocation :=
  if database.packVerified packHash then database.verifiedCopies packHash .hot else []

/-- A pack that contains requested chunks, at one of its locations. -/
structure HotPackSource where
  packHash : Text
  chunkHashes : List Text
  location : PackLocation
  deriving DecidableEq, Repr

def sourceOrder (first second : PackLocation) : Bool :=
  first.packHash < second.packHash || (first.packHash == second.packHash &&
    (first.priority < second.priority || (first.priority == second.priority &&
      decide ([first.provider, first.directUrl] ≤ [second.provider, second.directUrl]))))

/-- `get_hot_pack_sources_for_chunks`, before the sources are listed by chunk. -/
def Database.getHotPackSourcesForChunks (database : Database) (encodedHashes : List Text) :
    List HotPackSource :=
  ((database.packLocations.rows.filter fun row ↦
    row ∈ database.hotPackLocations row.packHash &&
      encodedHashes.any (database.packContains row.packHash)).insertionSort
        fun first second ↦ sourceOrder first second).map fun row ↦
    { packHash := row.packHash
      chunkHashes := ((database.packChunks.rows.filter fun entry ↦
        entry.packHash == row.packHash && encodedHashes.contains entry.encodedHash).map
          PackChunk.encodedHash).insertionSort (· ≤ ·)
      location := row }

/-- The pack can be resolved from HOT. -/
def Database.Resolvable (database : Database) (packHash : Text) : Prop :=
  ∃ row, row ∈ database.hotPackLocations packHash

theorem mem_hotPackLocations {database : Database} :
    row ∈ database.hotPackLocations packHash ↔ database.packVerified packHash = true ∧
      row ∈ database.packLocations ∧ row.packHash = packHash ∧ row.storageClass = .hot ∧
      row.verifiedAt.isSome = true ∧ row.directUrl.any (· != ' ') = true := by
  unfold Database.hotPackLocations Database.verifiedCopies
  by_cases hverified : database.packVerified packHash = true
  · rw [if_pos hverified, mem_filter]
    simp only [hverified, true_and, Bool.and_eq_true, beq_iff_eq, Bool.or_eq_true, bne_iff_ne,
      ne_eq, mem_iff, and_assoc]
    constructor
    · rintro ⟨hrow, hhash, hclass, htime, hurl⟩
      exact ⟨hrow, hhash, hclass, htime, hurl.resolve_left (· hclass)⟩
    · rintro ⟨hrow, hhash, hclass, htime, hurl⟩
      exact ⟨hrow, hhash, hclass, htime, .inr hurl⟩
  · rw [if_neg hverified]
    simp [hverified]

theorem resolvable_iff_source {database : Database} {encodedHash : Text}
    (h : database.packContains packHash encodedHash = true) :
    database.Resolvable packHash ↔
      ∃ source ∈ database.getHotPackSourcesForChunks [encodedHash], source.packHash = packHash := by
  simp only [Database.getHotPackSourcesForChunks, mem_map, mem_insertionSort,
    mem_filter, Bool.and_eq_true, decide_eq_true_eq, any_cons, any_nil,
    Bool.or_false]
  constructor
  · rintro ⟨row, hrow⟩
    obtain ⟨-, hmem, rfl, -⟩ := mem_hotPackLocations.mp hrow
    exact ⟨_, ⟨row, ⟨hmem, hrow, h⟩, rfl⟩, rfl⟩
  · rintro ⟨source, ⟨row, ⟨-, hrow, -⟩, rfl⟩, rfl⟩
    exact ⟨row, hrow⟩

/-- A published build whose packs can all be resolved. -/
structure Database.Live (database : Database) (buildId : Text) : Prop where
  published : database.isPublished buildId = true
  resolvable : ∀ packHash, database.hasPack buildId packHash = true → database.Resolvable packHash

def KeepsLive (before after : Database) : Prop :=
  ∀ buildId, before.Live buildId → after.Live buildId

/-! ### Stops -/

/-- Where a run stops: after some of the steps up to the publication of the build, or after some of
the steps of the retirement. -/
inductive Stop
  | publishing (performed : ℕ)
  | retiring (performed : ℕ)
  deriving DecidableEq, Repr

/-- The catalog that a stopped run leaves. -/
def Publication.stopped (publication : Publication) (storage : StorageRegistry) (clock : ℕ → ℤ)
    (database : Database) : Stop → Except WorkerError Database
  | .publishing performed => performAll clock 0 (publication.steps.take performed) database
  | .retiring performed => do
    let committed ← performAll clock 0 publication.steps database
    performAll clock publication.steps.length
      ((publication.retirementSteps storage committed).take performed) committed

/-- The state in which a step marks a pack: verified, or uploading. -/
def PublicationStep.mark (packHash : Text) : PublicationStep → Option Bool
  | .upsertPhysicalPack other verified => if other = packHash then some verified else none
  | _ => none

def lastMark (packHash : Text) : List PublicationStep → Option Bool
  | [] => none
  | step :: rest => (lastMark packHash rest).or (step.mark packHash)

/-- The condition under which a stopped run spares the live builds. -/
def Publication.SparesLive (publication : Publication) (storage : StorageRegistry)
    (clock : ℕ → ℤ) (database : Database) : Stop → Prop
  | .publishing performed => ∀ buildId, database.Live buildId →
    (.upsertBuildWithBytes buildId publication.manifest.gameId ∉ publication.steps.take performed) ∧
    ∀ packHash, lastMark packHash (publication.steps.take performed) = some false →
      database.hasPack buildId packHash = false
  | .retiring performed => ∀ committed,
    performAll clock 0 publication.steps database = .ok committed →
    ∀ buildId, database.Live buildId → ∀ packHash, database.hasPack buildId packHash = true →
    ∃ row ∈ committed.hotPackLocations packHash,
      .deletePackLocation row.packHash row.provider row.directUrl ∉
        (publication.retirementSteps storage committed).take performed

/-! ### What a list of steps leaves -/

variable {steps : List PublicationStep} {step : PublicationStep}

theorem lastMark_append {first second : List PublicationStep} :
    lastMark packHash (first ++ second) =
      (lastMark packHash second).or (lastMark packHash first) := by
  induction first with
  | nil => simp [lastMark]
  | cons step rest ih => rw [cons_append, lastMark, lastMark, ih, Option.or_assoc]

theorem lastMark_eq_none (h : ∀ step ∈ steps, step.mark packHash = none) :
    lastMark packHash steps = none := by
  induction steps with
  | nil => rfl
  | cons step rest ih =>
    rw [lastMark, h step mem_cons_self, ih fun other hother ↦ h other (mem_cons_of_mem _ hother)]
    rfl

variable {after : Database}

theorem packVerified_perform {now : ℤ} {database : Database}
    (h : perform now step database = .ok after) (packHash : Text) :
    after.packVerified packHash = (step.mark packHash).getD (database.packVerified packHash) := by
  have htable := (perform_tables h).2.2.2.1
  cases step
  case upsertPhysicalPack other verified =>
    rw [Bool.eq_iff_iff, packVerified_iff, htable]
    by_cases hsame : other = packHash
    · subst hsame
      rw [PublicationStep.mark, if_pos rfl, Option.getD_some]
      constructor
      · rintro ⟨pack, hpack, hhash, hverified, -⟩
        rcases mem_upsert.mp hpack with rfl | ⟨-, hne⟩
        · exact hverified
        · exact absurd hhash hne
      · rintro rfl
        exact ⟨_, mem_upsert.mpr (.inl rfl), rfl, rfl, rfl⟩
    · rw [PublicationStep.mark, if_neg hsame, Option.getD_none, packVerified_iff]
      constructor
      · rintro ⟨pack, hpack, hhash, hrest⟩
        rcases mem_upsert.mp hpack with rfl | ⟨hold, -⟩
        · exact absurd hhash hsame
        · exact ⟨pack, hold, hhash, hrest⟩
      · rintro ⟨pack, hpack, hhash, hrest⟩
        exact ⟨pack, mem_upsert.mpr (.inr ⟨hpack, fun h ↦ hsame (h.symm.trans hhash)⟩), hhash,
          hrest⟩
  all_goals simp only [Database.packVerified, htable, PublicationStep.mark, Option.getD_none]

theorem packVerified_performAll {clock : ℕ → ℤ} {number : ℕ} {database : Database}
    (h : performAll clock number steps database = .ok after) (packHash : Text) :
    after.packVerified packHash =
      (lastMark packHash steps).getD (database.packVerified packHash) := by
  induction steps generalizing number database with
  | nil => rw [← Except.ok.inj h]; rfl
  | cons step rest ih =>
    rw [performAll, bind_eq_ok] at h
    obtain ⟨next, hnext, hrest⟩ := h
    rw [ih hrest, packVerified_perform hnext, lastMark]
    cases lastMark packHash rest <;> rfl

theorem not_resolvable_of_uploading {clock : ℕ → ℤ} {number : ℕ} {database : Database}
    (h : performAll clock number steps database = .ok after)
    (hmark : lastMark packHash steps = some false) : ¬ after.Resolvable packHash := by
  rintro ⟨row, hrow⟩
  have hverified := (mem_hotPackLocations.mp hrow).1
  rw [packVerified_performAll h, hmark, Option.getD_some] at hverified
  exact Bool.noConfusion hverified

def PublicationStep.Locates (packHash : Text) : PublicationStep → Prop
  | .addPackLocation row => row.packHash = packHash
  | .deletePackLocation other _ _ => other = packHash
  | _ => False

theorem mem_packLocations_perform {now : ℤ} {database : Database}
    (h : perform now step database = .ok after) (hstep : ¬ step.Locates row.packHash) :
    row ∈ after.packLocations ↔ row ∈ database.packLocations := by
  have htable := (perform_tables h).2.2.2.2
  cases step
  case addPackLocation other =>
    have hne : row.packHash ≠ other.packHash := fun heq ↦ hstep heq.symm
    simp only [htable, mem_upsert]
    constructor
    · rintro (rfl | ⟨hold, -⟩)
      · exact absurd rfl hne
      · exact hold
    · exact fun hold ↦ .inr ⟨hold, fun hkey ↦ hne (Prod.mk.inj hkey).1⟩
  case deletePackLocation other provider directUrl =>
    have hne : row.packHash ≠ other := fun heq ↦ hstep heq.symm
    simp only [htable, Database.deletePackLocation, mem_deleteWhere]
    simp [hne]
  all_goals rw [htable]

theorem resolvable_of_untouched {clock : ℕ → ℤ} {number : ℕ} {database : Database}
    (h : performAll clock number steps database = .ok after)
    (hmark : lastMark packHash steps = none) (hsteps : ∀ step ∈ steps, ¬ step.Locates packHash) :
    after.Resolvable packHash ↔ database.Resolvable packHash := by
  have hrows (row : PackLocation) (hrow : row.packHash = packHash) :
      row ∈ after.packLocations ↔ row ∈ database.packLocations := by
    subst hrow
    refine performAll_invariant (fun other ↦ row ∈ other.packLocations ↔
      row ∈ database.packLocations) (fun now step hstep before next hbefore hperform ↦ ?_) Iff.rfl h
    exact (mem_packLocations_perform hperform (hsteps step hstep)).trans hbefore
  have hverified := packVerified_performAll h packHash
  rw [hmark, Option.getD_none] at hverified
  refine exists_congr fun row ↦ ?_
  rw [mem_hotPackLocations, mem_hotPackLocations, hverified]
  refine and_congr_right fun _ ↦ ?_
  constructor
  · rintro ⟨hrow, hhash, hrest⟩
    exact ⟨(hrows row hhash).mp hrow, hhash, hrest⟩
  · rintro ⟨hrow, hhash, hrest⟩
    exact ⟨(hrows row hhash).mpr hrow, hhash, hrest⟩

/-! ### The upload of a pack -/

variable {count : ℕ}

section Upload

variable {publication : Publication} {file : PackFile} {clock : ℕ → ℤ} {number : ℕ}
  {database after : Database}

theorem mark_of_mem_uploadSteps (h : step ∈ publication.uploadSteps file) (packHash : Text) :
    step.mark packHash = none := by
  simp only [uploadSteps, actionSteps, mem_append, mem_cons,
    not_mem_nil, or_false, mem_flatMap, mem_map] at h
  rcases h with (rfl | ⟨entry, -, rfl⟩) | rfl | ⟨action, -, rfl | rfl | rfl | rfl | rfl | rfl⟩ <;>
    rfl

theorem not_locates_of_mem_packSteps (h : step ∈ publication.packSteps file)
    (hne : file.packHash ≠ packHash) : ¬ step.Locates packHash := by
  simp only [packSteps, uploadSteps, actionSteps,
    mem_append, mem_cons, not_mem_nil, or_false, mem_flatMap,
    mem_map] at h
  rcases h with ((rfl | rfl) | (rfl | ⟨entry, -, rfl⟩) |
    rfl | ⟨action, -, rfl | rfl | rfl | rfl | rfl | rfl⟩) | rfl
  all_goals first | exact id | exact hne

theorem mem_packLocations_of_actions {actions : List PlacementAction}
    (hproviders : ∀ action ∈ actions, action.providerId ≠ row.provider)
    (h : performAll clock number (actions.flatMap (publication.actionSteps file.packHash)) database =
      .ok after) (hrow : row ∈ database.packLocations) : row ∈ after.packLocations := by
  refine performAll_invariant (fun other ↦ row ∈ other.packLocations)
    (fun now step hstep before next hbefore hperform ↦ ?_) hrow h
  obtain ⟨action, haction, hmem⟩ := mem_flatMap.mp hstep
  have htable := (perform_tables hperform).2.2.2.2
  simp only [actionSteps, mem_cons, not_mem_nil, or_false] at hmem
  rcases hmem with rfl | rfl | rfl | rfl | rfl | rfl
  case inr.inr.inr.inr.inr =>
    simp only at htable
    rw [htable]
    refine mem_upsert.mpr (.inr ⟨hbefore, fun hkey ↦ ?_⟩)
    exact hproviders action haction (Prod.mk.inj (Prod.mk.inj hkey).2).1.symm
  all_goals
    simp only at htable
    rwa [htable]

theorem any_ne_space_of_trim {text : Text} (h : trim text ≠ []) :
    text.any (· != ' ') = true := by
  rw [ne_eq, trim_eq_nil_iff] at h
  by_contra hspaces
  refine h fun c hc ↦ ?_
  simp only [any_eq_true, bne_iff_ne, ne_eq, not_exists, not_and, not_not] at hspaces
  rw [hspaces c hc]
  decide

theorem hot_location_of_actionSteps {action : PlacementAction} (hhot : action.tier = .hot)
    (h : performAll clock number (publication.actionSteps file.packHash action) database =
      .ok after) :
    ∃ row ∈ after.packLocations, row.packHash = file.packHash ∧ row.provider = action.providerId ∧
      row.storageClass = .hot ∧ row.verifiedAt.isSome = true ∧
      row.directUrl.any (· != ' ') = true := by
  simp only [actionSteps, performAll, perform, mapError_eq_ok, bind_eq_ok,
    throwIf_eq_ok, pure_eq_ok, exists_const, Except.ok.injEq, exists_eq_left',
    Database.addPackLocation] at h
  obtain ⟨_, -, _, -, _, ⟨hurl, rfl⟩, rfl⟩ := h
  refine ⟨_, mem_upsert.mpr (.inl rfl), rfl, rfl, hhot, rfl, ?_⟩
  exact any_ne_space_of_trim fun hblank ↦ hurl ⟨hhot, hblank⟩

theorem plan_provider_nodup (publication : Publication) (file : PackFile) :
    ((publication.plan file).actions.map PlacementAction.providerId).Nodup :=
  actions_provider_nodup fun _ hfirst _ hsecond ↦ storageClass_of_placementPools hfirst hsecond

theorem resolvable_of_packSteps
    (h : performAll clock number (publication.packSteps file) database = .ok after) :
    after.Resolvable file.packHash := by
  have hverified : after.packVerified file.packHash = true := by
    rw [packVerified_performAll h, packSteps, lastMark_append]
    simp [lastMark, PublicationStep.mark]
  -- the check of the plan succeeded, so the plan has a HOT upload
  rw [packSteps, performAll_append] at h
  obtain ⟨recorded, hrecorded, hlast⟩ := h
  rw [performAll_append] at hrecorded
  obtain ⟨marked, -, hupload⟩ := hrecorded
  rw [uploadSteps, performAll_append] at hupload
  obtain ⟨indexed, -, hplan⟩ := hupload
  rw [performAll, bind_eq_ok] at hplan
  obtain ⟨planned, hsatisfied, hactions⟩ := hplan
  simp only [perform, bind_eq_ok, throwIf_eq_ok, pure_eq_ok, exists_const,
    Bool.not_eq_false] at hsatisfied
  obtain ⟨action, haction, hhot⟩ := hot_action_of_satisfied
    (one_le_hot_packPolicy publication) hsatisfied.1
  -- the uploads after it go to other providers
  have hnodup := plan_provider_nodup publication file
  obtain ⟨earlier, later, hsplit⟩ := append_of_mem haction
  change (publication.plan file).actions = earlier ++ action :: later at hsplit
  rw [hsplit, flatMap_append, flatMap_cons, performAll_append] at hactions
  obtain ⟨reached, -, hrest⟩ := hactions
  rw [performAll_append] at hrest
  obtain ⟨located, hlocated, hlater⟩ := hrest
  obtain ⟨row, hrow, hhash, hprovider, hclass, htime, hurl⟩ :=
    hot_location_of_actionSteps hhot hlocated
  have hother : ∀ other ∈ later, other.providerId ≠ row.provider := by
    intro other hmem heq
    rw [hsplit, map_append, map_cons, nodup_append] at hnodup
    refine (nodup_cons.mp hnodup.2.1).1 ?_
    rw [← hprovider, ← heq]
    exact mem_map_of_mem hmem
  have hkept : row ∈ recorded.packLocations := mem_packLocations_of_actions hother hlater hrow
  refine ⟨row, mem_hotPackLocations.mpr ⟨hverified, ?_, hhash, hclass, htime, hurl⟩⟩
  rw [performAll, bind_eq_ok] at hlast
  obtain ⟨last, hmark, hend⟩ := hlast
  rw [← Except.ok.inj hend]
  exact (mem_packLocations_perform hmark id).mpr hkept

/-- A pack that can be resolved stays so when a part of the upload of a pack is performed that does
not leave it uploading. -/
theorem resolvable_of_packSteps_take
    (h : performAll clock number ((publication.packSteps file).take count) database = .ok after)
    (hmark : lastMark packHash ((publication.packSteps file).take count) ≠ some false)
    (hbefore : database.Resolvable packHash) : after.Resolvable packHash := by
  by_cases hsame : file.packHash = packHash
  · subst hsame
    -- a part of the upload is nothing, its first call, or leaves the pack uploading
    rcases count with - | - | count
    · rw [take_zero] at h
      exact Except.ok.inj h ▸ hbefore
    · exact (resolvable_of_untouched h rfl (by simp [packSteps,
        PublicationStep.Locates])).mpr hbefore
    · by_cases hall : (publication.packSteps file).length ≤ count + 2
      · rw [take_of_length_le hall] at h
        exact resolvable_of_packSteps h
      · refine absurd ?_ hmark
        have hcount : count ≤ (publication.uploadSteps file).length := by
          simp only [packSteps, length_append, length_cons, length_nil] at hall
          omega
        have htake : (publication.packSteps file).take (count + 2) =
            [.call (.readPackFile file.packHash), .upsertPhysicalPack file.packHash false] ++
              (publication.uploadSteps file).take count := by
          rw [packSteps, append_assoc, take_append,
            take_append_of_le_length (by simpa using hcount)]
          simp
        rw [htake, lastMark_append, lastMark_eq_none fun step hstep ↦
          mark_of_mem_uploadSteps (mem_of_mem_take hstep) _]
        simp [lastMark, PublicationStep.mark]
  · refine (resolvable_of_untouched h (lastMark_eq_none fun step hstep ↦ ?_) fun step hstep ↦
      not_locates_of_mem_packSteps (mem_of_mem_take hstep) hsame).mpr hbefore
    have hmem := mem_of_mem_take hstep
    simp only [packSteps, mem_append, mem_cons, not_mem_nil, or_false] at hmem
    rcases hmem with ((rfl | rfl) | hupload) | rfl
    · rfl
    · exact if_neg hsame
    · exact mark_of_mem_uploadSteps hupload packHash
    · exact if_neg hsame

theorem lastMark_packSteps_ne (packHash : Text) :
    lastMark packHash (publication.packSteps file) ≠ some false := by
  rw [packSteps, lastMark_append, lastMark_append,
    lastMark_eq_none fun step hstep ↦ mark_of_mem_uploadSteps hstep packHash]
  by_cases hsame : file.packHash = packHash
  · simp [lastMark, PublicationStep.mark, hsame]
  · simp [lastMark, PublicationStep.mark, hsame]

theorem lastMark_or_ne {first second : Option Bool} (hfirst : first ≠ some false)
    (hsecond : second ≠ some false) : first.or second ≠ some false := by
  cases first with
  | none => exact hsecond
  | some value => exact hfirst

theorem lastMark_flatMap_packSteps_ne (files : List PackFile) (packHash : Text) :
    lastMark packHash (files.flatMap publication.packSteps) ≠ some false := by
  induction files with
  | nil => simp [lastMark]
  | cons file rest ih =>
    rw [flatMap_cons, lastMark_append]
    exact lastMark_or_ne ih (lastMark_packSteps_ne packHash)

theorem resolvable_of_packs_take {files : List PackFile}
    (h : performAll clock number ((files.flatMap publication.packSteps).take count) database =
      .ok after)
    (hmark : lastMark packHash ((files.flatMap publication.packSteps).take count) ≠ some false)
    (hbefore : database.Resolvable packHash) : after.Resolvable packHash := by
  induction files generalizing number count database with
  | nil =>
    rw [flatMap_nil, take_nil] at h
    exact Except.ok.inj h ▸ hbefore
  | cons file rest ih =>
    rw [flatMap_cons, take_append] at h hmark
    rw [performAll_append] at h
    obtain ⟨middle, hfirst, hsecond⟩ := h
    rw [lastMark_append] at hmark
    by_cases hall : (publication.packSteps file).length ≤ count
    · rw [take_of_length_le hall] at hfirst hmark
      have hfull : (publication.packSteps file).take (publication.packSteps file).length =
          publication.packSteps file := take_length
      have hmiddle : middle.Resolvable packHash := by
        rw [← hfull] at hfirst
        exact resolvable_of_packSteps_take hfirst (hfull.symm ▸ lastMark_packSteps_ne packHash)
          hbefore
      refine ih hsecond (fun hfalse ↦ hmark ?_) hmiddle
      rw [hfalse]
      rfl
    · rw [Nat.sub_eq_zero_of_le (not_le.mp hall).le, take_zero] at hsecond hmark
      rw [← Except.ok.inj hsecond]
      exact resolvable_of_packSteps_take hfirst hmark hbefore

theorem resolvable_of_packs {files : List PackFile}
    (h : performAll clock number (files.flatMap publication.packSteps) database = .ok after)
    (hfile : file ∈ files) : after.Resolvable file.packHash := by
  obtain ⟨earlier, later, rfl⟩ := append_of_mem hfile
  rw [flatMap_append, flatMap_cons, performAll_append] at h
  obtain ⟨reached, -, hrest⟩ := h
  rw [performAll_append] at hrest
  obtain ⟨uploaded, hfirst, hlater⟩ := hrest
  rw [← take_length (l := later.flatMap publication.packSteps)] at hlater
  refine resolvable_of_packs_take hlater ?_ (resolvable_of_packSteps hfirst)
  rw [take_length]
  exact lastMark_flatMap_packSteps_ne later file.packHash

end Upload

/-! ### The whole run -/

section Run

variable {publication : Publication} {clock : ℕ → ℤ} {number : ℕ} {database after : Database}

/-- The steps before the uploads of the packs. -/
def Publication.openingSteps (publication : Publication) : List PublicationStep :=
  publication.configurationSteps ++ publication.buildSteps ++
  (if publication.packCanonical then [] else publication.logicalSteps) ++
  if publication.packsEnabled then [.call .readPacksDirectory] else []

def Publication.uploaded (publication : Publication) : List PackFile :=
  if publication.packsEnabled then publication.packs else []

structure PublicationStep.SparesPacks (step : PublicationStep) : Prop where
  mark : ∀ packHash, step.mark packHash = none
  locates : ∀ packHash, ¬ step.Locates packHash
  attaches : ∀ buildId packHash, step ≠ .attachBuildPack buildId packHash

theorem sparesPacks_of_mem_openingSteps (h : step ∈ publication.openingSteps) :
    step.SparesPacks := by
  have hlogical (hmem : step ∈ publication.logicalSteps) : step.SparesPacks := by
    obtain ⟨record, -, hrecord⟩ := mem_flatMap.mp hmem
    cases record with
    | object row =>
      simp only [mem_cons, not_mem_nil, or_false] at hrecord
      rcases hrecord with rfl | rfl <;> exact ⟨fun _ ↦ rfl, fun _ ↦ id, by rintro _ _ ⟨⟩⟩
    | location row =>
      rw [mem_singleton.mp hrecord]
      exact ⟨fun _ ↦ rfl, fun _ ↦ id, by rintro _ _ ⟨⟩⟩
  simp only [openingSteps, configurationSteps, buildSteps,
    mem_append, mem_cons, not_mem_nil, or_false, mem_flatMap] at h
  rcases h with (((rfl | rfl) | (rfl | rfl | rfl) | ⟨file, -, chunk, -, rfl | rfl⟩) | hrest) | hrest
  case inl.inr =>
    split_ifs at hrest
    · exact absurd hrest not_mem_nil
    · exact hlogical hrest
  case inr =>
    split_ifs at hrest
    · rw [mem_singleton.mp hrest]
      exact ⟨fun _ ↦ rfl, fun _ ↦ id, by rintro _ _ ⟨⟩⟩
    · exact absurd hrest not_mem_nil
  all_goals exact ⟨fun _ ↦ rfl, fun _ ↦ id, by rintro _ _ ⟨⟩⟩

theorem sparesPacks_of_mem_gateSteps (h : step ∈ publication.gateSteps) : step.SparesPacks := by
  unfold gateSteps at h
  split_ifs at h
  · simp only [mem_cons, not_mem_nil, or_false] at h
    rcases h with rfl | rfl <;> exact ⟨fun _ ↦ rfl, fun _ ↦ id, by rintro _ _ ⟨⟩⟩
  · rw [mem_singleton.mp h]
    exact ⟨fun _ ↦ rfl, fun _ ↦ id, by rintro _ _ ⟨⟩⟩

theorem resolvable_of_sparesPacks (h : performAll clock number steps database = .ok after)
    (hsteps : ∀ step ∈ steps, step.SparesPacks) (packHash : Text) :
    lastMark packHash steps = none ∧
      (after.Resolvable packHash ↔ database.Resolvable packHash) := by
  have hmark := lastMark_eq_none fun step hstep ↦ (hsteps step hstep).mark packHash
  exact ⟨hmark,
    resolvable_of_untouched h hmark fun step hstep ↦ (hsteps step hstep).locates packHash⟩

theorem steps_eq (publication : Publication) : publication.steps =
    publication.openingSteps ++ publication.uploaded.flatMap publication.packSteps ++
      publication.gateSteps := by
  unfold steps preparationSteps openingSteps
    uploaded publishPhysicalPacks
  by_cases hpacks : publication.packsEnabled = true
  · simp [hpacks]
  · simp [hpacks]

/-- A pack that can be resolved stays so unless a stopped run leaves it uploading. -/
theorem resolvable_of_steps_take
    (h : performAll clock number (publication.steps.take count) database = .ok after)
    (hmark : lastMark packHash (publication.steps.take count) ≠ some false)
    (hbefore : database.Resolvable packHash) : after.Resolvable packHash := by
  rw [steps_eq, take_append, take_append] at h hmark
  rw [performAll_append] at h
  obtain ⟨uploaded, hearlier, hgate⟩ := h
  rw [performAll_append] at hearlier
  obtain ⟨opened, hopening, hpacks⟩ := hearlier
  obtain ⟨hopeningMark, hopeningKeeps⟩ := resolvable_of_sparesPacks hopening
    (fun step hstep ↦ sparesPacks_of_mem_openingSteps (mem_of_mem_take hstep)) packHash
  obtain ⟨hgateMark, hgateKeeps⟩ := resolvable_of_sparesPacks hgate
    (fun step hstep ↦ sparesPacks_of_mem_gateSteps (mem_of_mem_take hstep)) packHash
  rw [lastMark_append, lastMark_append, hopeningMark, hgateMark, Option.none_or,
    Option.or_none] at hmark
  exact hgateKeeps.mpr (resolvable_of_packs_take hpacks hmark (hopeningKeeps.mpr hbefore))

variable {buildId : Text}

theorem exists_file_of_attachBuildPack (h : .attachBuildPack buildId packHash ∈ publication.steps) :
    buildId = publication.manifest.buildId ∧
      ∃ file ∈ publication.uploaded, file.packHash = packHash := by
  rw [steps_eq, mem_append, mem_append, mem_flatMap] at h
  rcases h with (hopening | ⟨file, hfile, hstep⟩) | hgate
  · exact absurd rfl ((sparesPacks_of_mem_openingSteps hopening).attaches buildId packHash)
  · simp only [packSteps, uploadSteps, actionSteps,
      mem_append, mem_cons, not_mem_nil, or_false, mem_flatMap, mem_map,
      reduceCtorEq, false_or, and_false, exists_false,
      PublicationStep.attachBuildPack.injEq] at hstep
    exact ⟨hstep.1, file, hfile, hstep.2.symm⟩
  · exact absurd rfl ((sparesPacks_of_mem_gateSteps hgate).attaches buildId packHash)

theorem resolvable_of_uploaded
    (h : performAll clock number publication.steps database = .ok after) {file : PackFile}
    (hfile : file ∈ publication.uploaded) : after.Resolvable file.packHash := by
  rw [steps_eq, performAll_append] at h
  obtain ⟨uploaded, hearlier, hgate⟩ := h
  rw [performAll_append] at hearlier
  obtain ⟨opened, -, hpacks⟩ := hearlier
  have hkeeps := resolvable_of_sparesPacks hgate (fun _ ↦ sparesPacks_of_mem_gateSteps) file.packHash
  exact hkeeps.2.mpr (resolvable_of_packs hpacks hfile)

/-! ### Builds and their packs along a run -/

section

variable (h : performAll clock number steps database = .ok after)
  (hpublished : ∀ step ∈ steps, step.published ≠ some buildId)

include h hpublished

theorem isPublished_performAll (hreset : ∀ step ∈ steps, step.reset ≠ some buildId) :
    after.isPublished buildId = database.isPublished buildId := by
  refine performAll_invariant (fun other ↦ other.isPublished buildId = database.isPublished buildId)
    (fun now step hstep before next hbefore hperform ↦ ?_) rfl h
  rw [← hbefore, Bool.eq_iff_iff, isPublished_perform hperform]
  simp [hpublished step hstep, hreset step hstep]

theorem not_isPublished_of_reset (hreset : ∃ step ∈ steps, step.reset = some buildId) :
    after.isPublished buildId = false := by
  obtain ⟨step, hstep, hsome⟩ := hreset
  obtain ⟨earlier, later, rfl⟩ := append_of_mem hstep
  rw [performAll_append] at h
  obtain ⟨reached, -, hrest⟩ := h
  rw [performAll, bind_eq_ok] at hrest
  obtain ⟨next, hnext, hlater⟩ := hrest
  have hnot : next.isPublished buildId = false := by
    refine Bool.eq_false_iff.mpr fun htrue ↦ ?_
    rcases (isPublished_perform hnext buildId).mp htrue with hsteps | ⟨-, hne⟩
    · exact hpublished step hstep hsteps
    · exact hne hsome
  refine Bool.eq_false_iff.mpr fun htrue ↦ ?_
  have hinvariant := performAll_invariant (fun other ↦ other.isPublished buildId = false)
    (fun now other hother before reached hbefore hperform ↦ ?_) hnot hlater
  · rw [hinvariant] at htrue
    exact Bool.noConfusion htrue
  · refine Bool.eq_false_iff.mpr fun hpub ↦ ?_
    rcases (isPublished_perform hperform buildId).mp hpub with hsteps | ⟨hold, -⟩
    · exact hpublished other (mem_append_right _ (mem_cons_of_mem _ hother)) hsteps
    · rw [hbefore] at hold
      exact Bool.noConfusion hold

end

theorem hasPack_performAll (h : performAll clock number steps database = .ok after)
    (buildId packHash : Text) :
    after.hasPack buildId packHash = true ↔ database.hasPack buildId packHash = true ∨
      .attachBuildPack buildId packHash ∈ steps := by
  induction steps generalizing number database with
  | nil => simp [← Except.ok.inj h]
  | cons step rest ih =>
    rw [performAll, bind_eq_ok] at h
    obtain ⟨next, hnext, hrest⟩ := h
    rw [ih hrest, hasPack_perform hnext, mem_cons, or_assoc, eq_comm (a := step)]

theorem published_of_mem_steps_take (hcount : count < publication.steps.length)
    (hstep : step ∈ publication.steps.take count) (buildId : Text) :
    step.published ≠ some buildId := by
  intro hpublished
  obtain ⟨index, hindex⟩ := mem_iff_getElem?.mp hstep
  rw [List.getElem?_take] at hindex
  split_ifs at hindex with hlt
  have hgate := (published_step hindex hpublished).2
  have hlength : publication.steps.length = publication.preparationSteps.length +
      publication.gateSteps.length := length_append
  unfold gateSteps at hlength
  split_ifs at hgate hlength
  · simp only [length_cons, length_nil] at hlength
    omega
  · simp only [length_cons, length_nil] at hlength
    omega

theorem step_of_reset (hstep : step ∈ publication.steps) (hreset : step.reset = some buildId) :
    buildId = publication.manifest.buildId ∧
      step = .upsertBuildWithBytes buildId publication.manifest.gameId := by
  cases step <;> simp only [PublicationStep.reset, reduceCtorEq, Option.some.injEq] at hreset
  subst hreset
  rcases mem_append.mp hstep with hbefore | hgate
  · obtain ⟨hid, hgame⟩ := beforeGate_of_mem_preparationSteps hbefore
    exact ⟨hid, by rw [hgame]⟩
  · unfold gateSteps at hgate
    split_ifs at hgate <;> simp at hgate

theorem upsertBuildWithBytes_mem_of_attached
    (h : .attachBuildPack buildId packHash ∈ publication.steps.take count) :
    .upsertBuildWithBytes publication.manifest.buildId publication.manifest.gameId ∈
      publication.steps.take count := by
  rw [steps_eq, append_assoc, take_append] at h ⊢
  rcases mem_append.mp h with hopening | hrest
  · exact absurd rfl ((sparesPacks_of_mem_openingSteps (mem_of_mem_take hopening)).attaches
      buildId packHash)
  · have hall : publication.openingSteps.length ≤ count := by
      by_contra hless
      rw [Nat.sub_eq_zero_of_le (not_le.mp hless).le, take_zero] at hrest
      exact absurd hrest not_mem_nil
    rw [take_of_length_le hall]
    refine mem_append_left _ ?_
    simp [openingSteps, buildSteps]

theorem stopped_publishing_iff (hcount : count < publication.steps.length)
    (h : performAll clock 0 (publication.steps.take count) database = .ok after)
    (storage : StorageRegistry) :
    KeepsLive database after ↔
      publication.SparesLive storage clock database (.publishing count) := by
  constructor
  · intro hkeeps buildId hlive
    have hafter := hkeeps buildId hlive
    refine ⟨fun hupsert ↦ ?_, fun packHash hmark ↦ ?_⟩
    · have hnot := not_isPublished_of_reset h
        (fun step hstep ↦ published_of_mem_steps_take hcount hstep buildId) ⟨_, hupsert, rfl⟩
      rw [hafter.published] at hnot
      exact Bool.noConfusion hnot
    · refine Bool.eq_false_iff.mpr fun hpack ↦ not_resolvable_of_uploading h hmark ?_
      exact hafter.resolvable packHash ((hasPack_performAll h _ _).mpr (.inl hpack))
  · intro hspares buildId hlive
    obtain ⟨hupsert, hpacks⟩ := hspares buildId hlive
    refine ⟨?_, fun packHash hpack ↦ ?_⟩
    · rw [isPublished_performAll h
        (fun step hstep ↦ published_of_mem_steps_take hcount hstep buildId)
        fun step hstep hreset ↦ hupsert ?_]
      · exact hlive.published
      · exact (step_of_reset (mem_of_mem_take hstep) hreset).2 ▸ hstep
    · rcases (hasPack_performAll h _ _).mp hpack with hold | hattached
      · refine resolvable_of_steps_take h (fun hmark ↦ ?_) (hlive.resolvable packHash hold)
        rw [hpacks packHash hmark] at hold
        exact Bool.noConfusion hold
      · refine absurd (upsertBuildWithBytes_mem_of_attached hattached) ?_
        have hid := (exists_file_of_attachBuildPack (mem_of_mem_take hattached)).1
        exact hid ▸ hupsert

/-! ### Stops in the retirement -/

theorem of_mem_retirementSteps {storage : StorageRegistry} {committed : Database}
    (h : step ∈ publication.retirementSteps storage committed) :
    step.published = none ∧ step.reset = none ∧ (∀ packHash, step.mark packHash = none) ∧
      (∀ buildId packHash, step ≠ .attachBuildPack buildId packHash) ∧
      (∀ row, step ≠ .addPackLocation row) ∧
      ∀ packHash provider directUrl, step = .deletePackLocation packHash provider directUrl →
        committed.hasPack publication.manifest.buildId packHash = false := by
  simp only [retirementSteps, mem_append] at h
  rcases h with hobjects | hpacks
  · split_ifs at hobjects
    · exact absurd hobjects not_mem_nil
    · obtain ⟨object, -, hmem⟩ := mem_flatMap.mp hobjects
      simp only [mem_cons, not_mem_nil, or_false] at hmem
      rcases hmem with rfl | rfl
      · exact ⟨rfl, rfl, fun _ ↦ rfl, nofun, nofun, nofun⟩
      · exact ⟨rfl, rfl, fun _ ↦ rfl, nofun, nofun, nofun⟩
  · obtain ⟨location, hlocation, hmem⟩ := mem_flatMap.mp hpacks
    have hunused := (mem_listHotPackLocationsToRetire.mp (mem_filter.mp hlocation).1).2.2.2
    simp only [mem_cons, not_mem_nil, or_false] at hmem
    rcases hmem with rfl | rfl
    · exact ⟨rfl, rfl, fun _ ↦ rfl, nofun, nofun, nofun⟩
    · refine ⟨rfl, rfl, fun _ ↦ rfl, nofun, nofun, fun packHash provider directUrl heq ↦ ?_⟩
      rw [PublicationStep.deletePackLocation.injEq] at heq
      rw [← heq.1]
      exact hunused

theorem mem_packLocations_performAll (h : performAll clock number steps database = .ok after)
    (hsteps : ∀ step ∈ steps, ∀ row, step ≠ .addPackLocation row) (row : PackLocation) :
    row ∈ after.packLocations ↔ row ∈ database.packLocations ∧
      .deletePackLocation row.packHash row.provider row.directUrl ∉ steps := by
  induction steps generalizing number database with
  | nil => simp [← Except.ok.inj h]
  | cons step rest ih =>
    rw [performAll, bind_eq_ok] at h
    obtain ⟨next, hnext, hrest⟩ := h
    rw [ih hrest fun other hother ↦ hsteps other (mem_cons_of_mem _ hother), mem_cons,
      not_or, ← and_assoc]
    refine and_congr_left fun _ ↦ ?_
    have hadd := hsteps step mem_cons_self
    by_cases hlocates : step.Locates row.packHash
    · cases step <;> first | exact hlocates.elim | skip
      case addPackLocation other => exact absurd rfl (hadd other)
      case deletePackLocation packHash provider directUrl =>
        have htable := (perform_tables hnext).2.2.2.2
        simp only [Database.deletePackLocation] at htable
        rw [htable, mem_deleteWhere]
        refine and_congr_right fun _ ↦ ?_
        simp only [PublicationStep.deletePackLocation.injEq, Bool.and_eq_false_iff,
          beq_eq_false_iff_ne, ne_eq]
        tauto
    · rw [mem_packLocations_perform hnext hlocates]
      refine (and_iff_left fun heq ↦ hlocates ?_).symm
      rw [← heq]
      exact rfl

theorem isPublished_of_gateSteps
    (h : performAll clock number publication.gateSteps database = .ok after) :
    after.isPublished publication.manifest.buildId = true := by
  unfold gateSteps at h
  split_ifs at h
  · simp only [performAll, bind_eq_ok, Except.ok.injEq, exists_eq_right] at h
    obtain ⟨checked, -, hpublish⟩ := h
    exact (isPublished_perform hpublish _).mpr (.inl rfl)
  · simp only [performAll, bind_eq_ok, Except.ok.injEq, exists_eq_right] at h
    exact (isPublished_perform h _).mpr (.inl rfl)

theorem isPublished_of_steps (h : performAll clock number publication.steps database = .ok after)
    (hbefore : database.isPublished buildId = true) : after.isPublished buildId = true := by
  by_cases hown : buildId = publication.manifest.buildId
  · rw [steps, performAll_append] at h
    obtain ⟨prepared, -, hgate⟩ := h
    rw [hown]
    exact isPublished_of_gateSteps hgate
  · refine performAll_invariant (fun other ↦ other.isPublished buildId = true)
      (fun now step hstep before next hpublished hperform ↦ ?_) hbefore h
    exact (isPublished_perform hperform buildId).mpr
      (.inr ⟨hpublished, fun hreset ↦ hown (step_of_reset hstep hreset).1⟩)

theorem stopped_retiring_iff {storage : StorageRegistry} {committed : Database}
    (hcommitted : performAll clock 0 publication.steps database = .ok committed)
    (h : performAll clock number ((publication.retirementSteps storage committed).take count)
      committed = .ok after) :
    KeepsLive database after ↔ publication.SparesLive storage clock database (.retiring count) := by
  have hretired {step : PublicationStep}
      (hstep : step ∈ (publication.retirementSteps storage committed).take count) :=
    of_mem_retirementSteps (mem_of_mem_take hstep)
  have hlocations := mem_packLocations_performAll h fun step hstep ↦ (hretired hstep).2.2.2.2.1
  have hpublished (buildId : Text) : after.isPublished buildId = committed.isPublished buildId :=
    isPublished_performAll h (fun step hstep ↦ by simp [(hretired hstep).1])
      fun step hstep ↦ by simp [(hretired hstep).2.1]
  have hverified (packHash : Text) :
      after.packVerified packHash = committed.packVerified packHash := by
    rw [packVerified_performAll h,
      lastMark_eq_none fun step hstep ↦ (hretired hstep).2.2.1 packHash]
    rfl
  have hpacks (buildId packHash : Text) :
      after.hasPack buildId packHash = true ↔ committed.hasPack buildId packHash = true := by
    rw [hasPack_performAll h, or_iff_left]
    exact fun hmem ↦ (hretired hmem).2.2.2.1 buildId packHash rfl
  have hresolvable (packHash : Text) : after.Resolvable packHash ↔
      ∃ row ∈ committed.hotPackLocations packHash,
        .deletePackLocation row.packHash row.provider row.directUrl ∉
          (publication.retirementSteps storage committed).take count := by
    simp only [Database.Resolvable, mem_hotPackLocations, hverified, hlocations]
    exact exists_congr fun row ↦ by tauto
  constructor
  · intro hkeeps other hother buildId hlive packHash hpack
    obtain rfl : committed = other := Except.ok.inj (hcommitted.symm.trans hother)
    refine (hresolvable packHash).mp ((hkeeps buildId hlive).resolvable packHash ?_)
    exact (hpacks _ _).mpr ((hasPack_performAll hcommitted _ _).mpr (.inl hpack))
  · intro hspares buildId hlive
    refine ⟨?_, fun packHash hpack ↦ ?_⟩
    · rw [hpublished]
      exact isPublished_of_steps hcommitted hlive.published
    · rcases (hasPack_performAll hcommitted _ _).mp ((hpacks _ _).mp hpack) with hold | hattached
      · exact (hresolvable packHash).mpr (hspares committed hcommitted buildId hlive packHash hold)
      · -- the retirement spares the packs of the new build
        obtain ⟨hid, file, hfile, rfl⟩ := exists_file_of_attachBuildPack hattached
        obtain ⟨row, hrow⟩ := resolvable_of_uploaded hcommitted hfile
        refine (hresolvable _).mpr ⟨row, hrow, fun hdeleted ↦ ?_⟩
        have hunused := (hretired hdeleted).2.2.2.2.2 _ _ _ rfl
        rw [(mem_hotPackLocations.mp hrow).2.2.1, ← hid, (hpacks _ _).mp hpack] at hunused
        exact Bool.noConfusion hunused

/-- A run that stops with an error keeps every live build exactly when it has not written the row
of a live build anew, has not left a pack of a live build uploading, and has not retired the last
HOT copy of a pack of a live build. -/
theorem stopped_keeps_live_iff (storage : StorageRegistry) (stop : Stop)
    (hunfinished : ∀ performed, stop = .publishing performed → performed < publication.steps.length)
    (h : publication.stopped storage clock database stop = .ok after) :
    KeepsLive database after ↔ publication.SparesLive storage clock database stop := by
  cases stop with
  | publishing performed => exact stopped_publishing_iff (hunfinished performed rfl) h storage
  | retiring performed =>
    rw [stopped, bind_eq_ok] at h
    obtain ⟨committed, hcommitted, hretired⟩ := h
    exact stopped_retiring_iff hcommitted hretired

end Run

/-! ### Two builds that share a pack -/

/-- The publication of the build `b`. -/
def firstPublication : Publication := mirrorPublication true ["a"] ["a"]

/-- The publication of a build `c` with the same pack. -/
def sharingPublication : Publication :=
  { firstPublication with
    manifest := { firstPublication.manifest with buildId := "c", gameId := "h" } }

def catalogAfter (steps : List PublicationStep) (database : Database) : Database :=
  (performAll (fun _ ↦ 1) 0 steps database).toOption.getD database

theorem performAll_catalogAfter {database : Database}
    (h : (performAll (fun _ ↦ 1) 0 steps database).toOption.isSome = true) :
    performAll (fun _ ↦ 1) 0 steps database = .ok (catalogAfter steps database) := by
  obtain ⟨after, hafter⟩ := Option.isSome_iff_exists.mp h
  rw [catalogAfter, hafter]
  exact toOption_eq_some.mp hafter

/-- The catalog in which the build `b` is published. -/
def liveCatalog : Database := catalogAfter firstPublication.steps emptyCatalog

theorem liveCatalog_live : liveCatalog.Live "b" := by
  have hrun : performAll (fun _ ↦ 1) 0 firstPublication.steps emptyCatalog = .ok liveCatalog :=
    performAll_catalogAfter (by decide)
  refine ⟨by decide, fun packHash hpack ↦ ?_⟩
  rcases (hasPack_performAll hrun _ _).mp hpack with hnone | hattached
  · exact absurd hnone Bool.noConfusion
  · obtain ⟨-, file, hfile, rfl⟩ := exists_file_of_attachBuildPack hattached
    exact resolvable_of_uploaded hrun hfile

/-- A run of the other build that stops after it has marked the shared pack as uploading. -/
theorem stopped_keeps_live_iff_sharing :
    sharingPublication.stopped deletingRegistry (fun _ ↦ 1) liveCatalog (.publishing 10) =
        .ok (catalogAfter (sharingPublication.steps.take 10) liveCatalog) ∧
      (KeepsLive liveCatalog (catalogAfter (sharingPublication.steps.take 10) liveCatalog) ↔
        sharingPublication.SparesLive deletingRegistry (fun _ ↦ 1) liveCatalog
          (.publishing 10)) := by
  have hstopped : sharingPublication.stopped deletingRegistry (fun _ ↦ 1) liveCatalog
      (.publishing 10) = .ok (catalogAfter (sharingPublication.steps.take 10) liveCatalog) :=
    performAll_catalogAfter (by decide)
  have hlength : sharingPublication.steps.length = 22 := by decide
  refine ⟨hstopped, stopped_keeps_live_iff deletingRegistry (.publishing 10) ?_ hstopped⟩
  rintro performed ⟨⟩
  omega

/-- A run that stops takes a live build down: a run of another build after it has marked a shared
pack as uploading, and a new run of the build itself after it has written the row of the build. -/
theorem stopped_takes_down_live :
    liveCatalog.Live "b" ∧
      (sharingPublication.stopped deletingRegistry (fun _ ↦ 1) liveCatalog (.publishing 10) =
          .ok (catalogAfter (sharingPublication.steps.take 10) liveCatalog) ∧
        ¬ (catalogAfter (sharingPublication.steps.take 10) liveCatalog).Live "b") ∧
      firstPublication.stopped deletingRegistry (fun _ ↦ 1) liveCatalog (.publishing 5) =
          .ok (catalogAfter (firstPublication.steps.take 5) liveCatalog) ∧
        ¬ (catalogAfter (firstPublication.steps.take 5) liveCatalog).Live "b" := by
  refine ⟨liveCatalog_live, ⟨performAll_catalogAfter (by decide), fun hlive ↦ ?_⟩,
    performAll_catalogAfter (by decide), fun hlive ↦ ?_⟩
  · obtain ⟨row, hrow⟩ := hlive.resolvable "p" (by decide)
    have hverified : (catalogAfter (sharingPublication.steps.take 10) liveCatalog).packVerified
        "p" = false := by decide
    rw [(mem_hotPackLocations.mp hrow).1] at hverified
    exact Bool.noConfusion hverified
  · have hpublished : (catalogAfter (firstPublication.steps.take 5) liveCatalog).isPublished
        "b" = false := by decide
    rw [hlive.published] at hpublished
    exact Bool.noConfusion hpublished

end GameLauncher.Catalog
