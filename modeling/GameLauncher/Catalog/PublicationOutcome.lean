import GameLauncher.Catalog.FailedPublication
import GameLauncher.Catalog.PublishCommand

/-!
# What a publication reports

`publish_verified_build` returns an error when one of its steps fails, and the build is published by
one of them, after which old HOT copies are retired. A step fails by itself, or because the
environment refuses it, or because it takes effect and its answer is lost.

`reports_iff` shows when the result says whether the build is published with this manifest: the
retirement must not fail after the publication, the answer of the publishing statement must not be
lost, and a run that fails before it writes the row of the build must not find it published with
this manifest already.
-/

set_option autoImplicit false

namespace GameLauncher.Catalog

open Foundation Fallible List Process

/-! ### Runs with faults -/

/-- How the environment makes a step fail. -/
inductive StepFault
  | refused (error : WorkerError)
  | answerLost (error : WorkerError)
  deriving DecidableEq, Repr

/-- What the caller sees. -/
def StepFault.error : StepFault → WorkerError
  | .refused error => error
  | .answerLost error => error

/-- A run of `publish_verified_build` with a database, and the faults of its steps by number. -/
structure PublicationRun (Signature : Type) where
  publication : Publication
  package : VerifiedPackage Signature
  package_manifest : package.manifest = publication.manifest
  storage : StorageRegistry
  clock : ℕ → ℤ
  faults : ℕ → Option StepFault

namespace PublicationRun

variable {Signature : Type} (run : PublicationRun Signature)

def buildId : Text := run.publication.manifest.buildId

/-- One step, with its number. -/
def attempt (step : PublicationStep × ℕ) : Process (BuildStore Signature) WorkerError Unit :=
  Process.step fun store ↦
    match run.faults step.2, perform (run.clock step.2) step.1 store.catalog with
    | some (.refused error), _ => (.error error, store)
    | _, .error error => (.error error, store)
    | some (.answerLost error), .ok catalog =>
      (.error error, PublishCommand.record run.package step.1 catalog store)
    | none, .ok catalog => (.ok (), PublishCommand.record run.package step.1 catalog store)

/-- Steps one after another, the first of which has a number. -/
def attemptAll (number : ℕ) (steps : List PublicationStep) :
    Process (BuildStore Signature) WorkerError Unit :=
  Process.forEach (fun step _ ↦ run.attempt step) (steps.zipIdx number) ()

/-- The queries before a retirement: of the objects, unless the packs are canonical, and of the
pack locations. -/
def listings : ℕ := if run.publication.packCanonical then 1 else 2

/-- The queries of a retirement and the steps that follow from them. -/
def listRetired (store : BuildStore Signature) : Except WorkerError (List PublicationStep) :=
  match (List.range run.listings).findSome? fun index ↦
    run.faults (run.publication.steps.length + index) with
  | some fault => .error fault.error
  | none => .ok (run.publication.retirementSteps run.storage store.catalog)

def retireSupersededHotStorage : Process (BuildStore Signature) WorkerError Unit := do
  let steps ← Process.query run.listRetired
  run.attemptAll (run.publication.steps.length + run.listings) steps

def publishVerifiedBuild : Process (BuildStore Signature) WorkerError Unit := do
  run.attemptAll 0 run.publication.steps
  run.retireSupersededHotStorage

/-! ### The status of the build -/

def status (store : BuildStore Signature) : Bool × Option Bytes :=
  (store.catalog.isPublished run.buildId, store.manifestBytes run.buildId)

def Published (store : BuildStore Signature) : Prop :=
  run.status store = (true, some run.package.manifestBytes)

def SameStatus (before after : BuildStore Signature) : Prop := run.status after = run.status before

instance : IsPreorder (BuildStore Signature) run.SameStatus where
  refl _ := rfl
  trans _ _ _ hfirst hsecond := hsecond.trans hfirst

/-- A step that neither publishes a build nor writes its row anew. -/
def IsNeutral (step : PublicationStep) : Prop := step.published = none ∧ step.reset = none

variable {run} {step : PublicationStep} {steps : List PublicationStep} {number : ℕ}
  {store : BuildStore Signature} {catalog after : Database}

theorem status_record (hneutral : IsNeutral step)
    (h : perform (run.clock number) step store.catalog = .ok catalog) :
    run.status (PublishCommand.record run.package step catalog store) = run.status store := by
  have hpublished : catalog.isPublished run.buildId = store.catalog.isPublished run.buildId := by
    rw [Bool.eq_iff_iff, isPublished_perform h, hneutral.1, hneutral.2]
    simp
  have hreset := hneutral.2
  cases step
  case upsertBuildWithBytes => cases hreset
  all_goals exact Prod.ext hpublished rfl

theorem advances_attempt (hneutral : IsNeutral step) :
    Process.Advances run.SameStatus (run.attempt (step, number)) := by
  refine advances_step fun store ↦ ?_
  cases hfault : run.faults number with
  | none =>
    cases hperform : perform (run.clock number) step store.catalog with
    | error failure => exact rfl
    | ok catalog => exact status_record hneutral hperform
  | some fault =>
    cases fault with
    | refused failure => exact rfl
    | answerLost failure =>
      cases hperform : perform (run.clock number) step store.catalog with
      | error failure => exact rfl
      | ok catalog => exact status_record hneutral hperform

theorem attemptAll_cons {rest : List PublicationStep} :
    run.attemptAll number (step :: rest) =
      run.attempt (step, number) >>= fun _ ↦ run.attemptAll (number + 1) rest :=
  rfl

theorem attemptAll_singleton : run.attemptAll number [step] = run.attempt (step, number) :=
  bind_pure_unit

theorem attemptAll_append {first second : List PublicationStep} :
    run.attemptAll number (first ++ second) = run.attemptAll number first >>= fun _ ↦
      run.attemptAll (number + first.length) second := by
  unfold attemptAll
  rw [zipIdx_append, forEach_append]

theorem advances_attemptAll (h : ∀ step ∈ steps, IsNeutral step) :
    Process.Advances run.SameStatus (run.attemptAll number steps) := by
  induction steps generalizing number with
  | nil => exact advances_pure
  | cons step rest ih =>
    rw [attemptAll_cons]
    refine advances_bind (advances_attempt (h step mem_cons_self)) fun _ ↦ ?_
    exact ih fun other hother ↦ h other (mem_cons_of_mem step hother)

/-! ### Steps that succeed -/

/-- Steps without a fault, each of which succeeds. -/
structure Passes (run : PublicationRun Signature) (number : ℕ) (steps : List PublicationStep)
    (catalog after : Database) : Prop where
  performed : performAll run.clock number steps catalog = .ok after
  unfaulted : ∀ index < steps.length, run.faults (number + index) = none

theorem passes_nil : run.Passes number [] catalog after ↔ catalog = after := by
  constructor
  · intro h
    exact Except.ok.inj h.performed
  · rintro rfl
    exact ⟨rfl, fun _ h ↦ absurd h (Nat.not_lt_zero _)⟩

theorem passes_cons {rest : List PublicationStep} :
    run.Passes number (step :: rest) catalog after ↔ run.faults number = none ∧
      ∃ next, perform (run.clock number) step catalog = .ok next ∧
        run.Passes (number + 1) rest next after := by
  constructor
  · rintro ⟨hperformed, hunfaulted⟩
    rw [performAll, bind_eq_ok] at hperformed
    obtain ⟨next, hnext, hrest⟩ := hperformed
    refine ⟨hunfaulted 0 (Nat.succ_pos _), next, hnext, hrest, fun index hindex ↦ ?_⟩
    have hlater := hunfaulted (index + 1) (Nat.succ_lt_succ hindex)
    rwa [add_assoc, add_comm 1]
  · rintro ⟨hfault, next, hnext, hperformed, hunfaulted⟩
    refine ⟨?_, fun index hindex ↦ ?_⟩
    · rw [performAll, bind_eq_ok]
      exact ⟨next, hnext, hperformed⟩
    · cases index with
      | zero => exact hfault
      | succ index =>
        have hlater := hunfaulted index (Nat.lt_of_succ_lt_succ hindex)
        rwa [add_assoc, add_comm 1] at hlater

theorem passes_append {first second : List PublicationStep} :
    run.Passes number (first ++ second) catalog after ↔ ∃ middle,
      run.Passes number first catalog middle ∧
        run.Passes (number + first.length) second middle after := by
  induction first generalizing number catalog with
  | nil => simp [passes_nil]
  | cons step rest ih =>
    have hnumber : number + (step :: rest).length = number + 1 + rest.length := by
      rw [length_cons]
      omega
    simp only [cons_append, passes_cons, ih, hnumber]
    constructor
    · rintro ⟨hfault, next, hnext, middle, hmiddle, hafter⟩
      exact ⟨middle, ⟨hfault, next, hnext, hmiddle⟩, hafter⟩
    · rintro ⟨middle, ⟨hfault, next, hnext, hmiddle⟩, hafter⟩
      exact ⟨hfault, next, hnext, middle, hmiddle, hafter⟩

theorem attempt_of_ok (hfault : run.faults number = none)
    (h : perform (run.clock number) step store.catalog = .ok catalog) :
    (run.attempt (step, number) store).result = .ok () ∧ (run.attempt (step, number) store).final =
        PublishCommand.record run.package step catalog store := by
  simp only [attempt, Process.step, hfault, h, and_self]

theorem attempt_eq_ok {u : Unit} : (run.attempt (step, number) store).result = .ok u ↔
    run.faults number = none ∧
      ∃ next, perform (run.clock number) step store.catalog = .ok next := by
  cases hfault : run.faults number with
  | none =>
    cases hperform : perform (run.clock number) step store.catalog <;>
      simp [attempt, Process.step, hfault, hperform]
  | some fault =>
    cases fault <;> cases hperform : perform (run.clock number) step store.catalog <;>
      simp [attempt, Process.step, hfault, hperform]

theorem catalog_record :
    (PublishCommand.record run.package step catalog store).catalog = catalog := by
  cases step <;> rfl

theorem attemptAll_of_passes (h : run.Passes number steps store.catalog after) :
    (run.attemptAll number steps store).result = .ok () ∧
      (run.attemptAll number steps store).final.catalog = after := by
  induction steps generalizing number store with
  | nil => exact ⟨rfl, passes_nil.mp h⟩
  | cons step rest ih =>
    obtain ⟨hfault, next, hnext, hrest⟩ := passes_cons.mp h
    obtain ⟨hresult, hfinal⟩ := attempt_of_ok hfault hnext
    rw [attemptAll_cons, result_bind_of_ok hresult, final_bind_of_ok hresult, hfinal]
    exact ih (catalog_record.symm ▸ hrest)

theorem passes_of_attemptAll (h : (run.attemptAll number steps store).result = .ok ()) :
    ∃ after, run.Passes number steps store.catalog after := by
  induction steps generalizing number store with
  | nil => exact ⟨_, passes_nil.mpr rfl⟩
  | cons step rest ih =>
    obtain ⟨_, hstep, hrest⟩ := Process.result_bind_eq_ok.mp h
    obtain ⟨hfault, next, hnext⟩ := attempt_eq_ok.mp hstep
    rw [(attempt_of_ok hfault hnext).2] at hrest
    obtain ⟨last, hlast⟩ := ih hrest
    rw [catalog_record] at hlast
    exact ⟨last, passes_cons.mpr ⟨hfault, next, hnext, hlast⟩⟩

/-- Steps that never fail by themselves pass when the environment lets them. -/
theorem exists_passes
    (h : ∀ step ∈ steps, ∀ now database, ∃ next, perform now step database = .ok next)
    (hunfaulted : ∀ index < steps.length, run.faults (number + index) = none) :
    ∃ after, run.Passes number steps catalog after := by
  induction steps generalizing number catalog with
  | nil => exact ⟨catalog, passes_nil.mpr rfl⟩
  | cons step rest ih =>
    obtain ⟨next, hnext⟩ := h step mem_cons_self (run.clock number) catalog
    obtain ⟨last, hlast⟩ : ∃ last, run.Passes (number + 1) rest next last := by
      refine ih (fun other hother ↦ h other (mem_cons_of_mem step hother))
        fun index hindex ↦ ?_
      rw [add_assoc, add_comm 1]
      exact hunfaulted (index + 1) (Nat.succ_lt_succ hindex)
    exact ⟨last, passes_cons.mpr ⟨hunfaulted 0 (Nat.succ_pos _), next, hnext, hlast⟩⟩

end PublicationRun

/-! ### The parts of a run -/

namespace Publication

variable (publication : Publication)

def stepsBeforeRow : List PublicationStep :=
  publication.configurationSteps ++ [.call .upsertGame, .call .validateManifest]

def rowStep : PublicationStep :=
  .upsertBuildWithBytes publication.manifest.buildId publication.manifest.gameId

/-- The steps between the row of the build and its publication. -/
def stepsAfterRow : List PublicationStep :=
  (publication.manifest.files.flatMap fun file ↦ file.chunks.zipIdx.flatMap fun chunk ↦
    [.call (.addChunk chunk.1.encodedHash),
      .attachBuildChunk publication.manifest.buildId chunk.1.encodedHash chunk.2]) ++
  (if publication.packCanonical then [] else publication.logicalSteps) ++
  (if publication.packsEnabled then publication.publishPhysicalPacks else []) ++
  if publication.packCanonical then [.buildPacksCoverAllChunks publication.manifest.buildId] else []

def publishStep : PublicationStep :=
  if publication.packCanonical then
    .publishBuildWithPackStoragePolicy publication.manifest.buildId
      publication.packPolicy.toStoragePolicy
  else
    .publishBuildWithStoragePolicy publication.manifest.buildId publication.policy.toStoragePolicy

def stepsBeforePublish : List PublicationStep :=
  publication.stepsBeforeRow ++ publication.rowStep :: publication.stepsAfterRow

variable {publication}

theorem steps_split :
    publication.steps = publication.stepsBeforePublish ++ [publication.publishStep] := by
  unfold steps preparationSteps stepsBeforePublish stepsBeforeRow stepsAfterRow buildSteps gateSteps
    rowStep publishStep
  by_cases hcanonical : publication.packCanonical = true
  · simp [hcanonical]
  · simp [hcanonical]

theorem neutral_of_mem_stepsBeforeRow {step : PublicationStep}
    (h : step ∈ publication.stepsBeforeRow) : PublicationRun.IsNeutral step := by
  simp only [stepsBeforeRow, configurationSteps, mem_append, mem_cons, not_mem_nil, or_false] at h
  rcases h with (rfl | rfl) | rfl | rfl
  all_goals exact ⟨rfl, rfl⟩

theorem neutral_of_mem_packSteps {file : PackFile} {step : PublicationStep}
    (h : step ∈ publication.packSteps file) : PublicationRun.IsNeutral step := by
  simp only [packSteps, uploadSteps, actionSteps, mem_append, mem_cons,
    not_mem_nil, or_false, mem_flatMap, mem_map] at h
  rcases h with ((rfl | rfl) | (rfl | ⟨entry, -, rfl⟩) |
    rfl | ⟨action, -, rfl | rfl | rfl | rfl | rfl | rfl⟩) | rfl
  all_goals exact ⟨rfl, rfl⟩

theorem neutral_of_mem_logicalSteps {step : PublicationStep}
    (h : step ∈ publication.logicalSteps) : PublicationRun.IsNeutral step := by
  obtain ⟨record, -, hrecord⟩ := mem_flatMap.mp h
  cases record with
  | object row =>
    simp only [mem_cons, not_mem_nil, or_false] at hrecord
    rcases hrecord with rfl | rfl
    all_goals exact ⟨rfl, rfl⟩
  | location row =>
    rw [mem_singleton.mp hrecord]
    exact ⟨rfl, rfl⟩

theorem neutral_of_mem_stepsAfterRow {step : PublicationStep}
    (h : step ∈ publication.stepsAfterRow) : PublicationRun.IsNeutral step := by
  simp only [stepsAfterRow, mem_append, mem_flatMap] at h
  rcases h with ((⟨file, -, chunk, -, hchunk⟩ | hlogical) | hpacks) | hcheck
  · simp only [mem_cons, not_mem_nil, or_false] at hchunk
    rcases hchunk with rfl | rfl
    all_goals exact ⟨rfl, rfl⟩
  · split_ifs at hlogical
    · cases hlogical
    · exact neutral_of_mem_logicalSteps hlogical
  · split_ifs at hpacks
    · rcases mem_cons.mp hpacks with rfl | hfiles
      · exact ⟨rfl, rfl⟩
      · obtain ⟨file, -, hstep⟩ := mem_flatMap.mp hfiles
        exact neutral_of_mem_packSteps hstep
    · cases hpacks
  · split_ifs at hcheck
    · rw [mem_singleton.mp hcheck]
      exact ⟨rfl, rfl⟩
    · cases hcheck

end Publication

namespace PublicationRun

variable {Signature : Type} {run : PublicationRun Signature} {store : BuildStore Signature}
  {number : ℕ}

/-! ### Truthful reports -/

variable {failure : WorkerError}

/-- A process succeeds exactly when it leaves the build published with this manifest. -/
def IsTruthful (run : PublicationRun Signature)
    (process : Process (BuildStore Signature) WorkerError Unit) (store : BuildStore Signature) :
    Prop :=
  (process store).result = .ok () ↔ run.Published (process store).final

section Sequence

variable {first : Process (BuildStore Signature) WorkerError Unit}
  {next : Unit → Process (BuildStore Signature) WorkerError Unit}

theorem isTruthful_bind_of_ok (h : (first store).result = .ok ()) :
    run.IsTruthful (first >>= next) store ↔ run.IsTruthful (next ()) (first store).final := by
  unfold IsTruthful
  rw [result_bind_of_ok h, final_bind_of_ok h]

theorem isTruthful_bind_of_error (h : (first store).result = .error failure) :
    run.IsTruthful (first >>= next) store ↔ ¬ run.Published (first store).final := by
  unfold IsTruthful
  rw [result_bind_of_error h, final_bind_of_error h]
  exact iff_false_left nofun

end Sequence

theorem published_of_sameStatus {before after : BuildStore Signature}
    (h : run.SameStatus before after) : run.Published after ↔ run.Published before := by
  unfold Published
  rw [h]

/-! ### The retirement -/

variable {committed : Database} {steps : List PublicationStep}

/-- No query and no step of the retirement takes a fault. -/
def RetiresAll (run : PublicationRun Signature) (committed : Database) : Prop :=
  ∀ index < run.listings + (run.publication.retirementSteps run.storage committed).length,
    run.faults (run.publication.steps.length + index) = none

theorem retirementSteps_succeed {step : PublicationStep}
    (h : step ∈ run.publication.retirementSteps run.storage committed) (now : ℤ)
    (database : Database) : ∃ next, perform now step database = .ok next := by
  simp only [Publication.retirementSteps, mem_append] at h
  rcases h with hobjects | hpacks
  · split_ifs at hobjects
    · cases hobjects
    · obtain ⟨object, -, hmem⟩ := mem_flatMap.mp hobjects
      simp only [mem_cons, not_mem_nil, or_false] at hmem
      rcases hmem with rfl | rfl <;> exact ⟨_, rfl⟩
  · obtain ⟨location, -, hmem⟩ := mem_flatMap.mp hpacks
    simp only [mem_cons, not_mem_nil, or_false] at hmem
    rcases hmem with rfl | rfl <;> exact ⟨_, rfl⟩

theorem listRetired_eq_ok :
    run.listRetired store = .ok steps ↔
      (∀ index < run.listings, run.faults (run.publication.steps.length + index) = none) ∧
        run.publication.retirementSteps run.storage store.catalog = steps := by
  unfold listRetired
  split
  · next fault hfault =>
    refine iff_of_false nofun ?_
    rintro ⟨hnone, -⟩
    obtain ⟨index, hindex, hsome⟩ := exists_of_findSome?_eq_some hfault
    rw [hnone index (mem_range.mp hindex)] at hsome
    cases hsome
  · next hnone =>
    rw [List.findSome?_eq_none_iff] at hnone
    rw [Except.ok.injEq, iff_and_self]
    exact fun _ index hindex ↦ hnone index (mem_range.mpr hindex)

theorem sameStatus_retire : run.SameStatus store (run.retireSupersededHotStorage store).final := by
  unfold retireSupersededHotStorage
  cases hlist : run.listRetired store with
  | error failure =>
    rw [query_bind_of_error hlist]
    rfl
  | ok steps =>
    rw [query_bind_of_ok hlist]
    refine (advances_attemptAll fun step hstep ↦ ?_).preserves (fun _ _ h ↦ h) store
    obtain ⟨hpublished, hreset, -⟩ :=
      of_mem_retirementSteps ((listRetired_eq_ok.mp hlist).2 ▸ hstep)
    exact ⟨hpublished, hreset⟩

theorem retire_eq_ok :
    (run.retireSupersededHotStorage store).result = .ok () ↔ run.RetiresAll store.catalog := by
  unfold retireSupersededHotStorage RetiresAll
  constructor
  · intro h index hindex
    obtain ⟨steps, hlist, hsteps⟩ := Process.result_bind_eq_ok.mp h
    obtain ⟨hqueries, rfl⟩ := listRetired_eq_ok.mp hlist
    obtain ⟨last, hlast⟩ := passes_of_attemptAll hsteps
    by_cases hquery : index < run.listings
    · exact hqueries index hquery
    · have hstep := hlast.unfaulted (index - run.listings) (by omega)
      rwa [add_assoc, Nat.add_sub_cancel' (not_lt.mp hquery)] at hstep
  · intro h
    have hlist : run.listRetired store =
        .ok (run.publication.retirementSteps run.storage store.catalog) :=
      listRetired_eq_ok.mpr ⟨fun index hindex ↦ h index (by omega), rfl⟩
    rw [query_bind_of_ok hlist]
    obtain ⟨last, hlast⟩ : ∃ last, run.Passes (run.publication.steps.length + run.listings)
        (run.publication.retirementSteps run.storage store.catalog) store.catalog last := by
      refine exists_passes (fun step hstep ↦ retirementSteps_succeed hstep) fun index hindex ↦ ?_
      rw [add_assoc]
      exact h _ (by omega)
    exact (attemptAll_of_passes hlast).1

/-! ### The publication -/

variable {catalog : Database}

/-- The row of the build is written, and the build is not published. -/
def Written (run : PublicationRun Signature) (store : BuildStore Signature) : Prop :=
  run.status store = (false, some run.package.manifestBytes)

theorem Written.not_published (h : run.Written store) : ¬ run.Published store := by
  unfold Published
  rw [h]
  rintro ⟨⟩

theorem published_record (hwritten : run.Written store)
    (h : perform (run.clock number) run.publication.publishStep store.catalog = .ok committed) :
    run.Published
      (PublishCommand.record run.package run.publication.publishStep committed store) := by
  have hbytes := congrArg Prod.snd hwritten
  have hpublished : committed.isPublished run.buildId = true := by
    refine (isPublished_perform h run.buildId).mpr (.inl ?_)
    unfold Publication.publishStep
    split_ifs <;> rfl
  unfold Publication.publishStep
  split_ifs
  · exact Prod.ext hpublished hbytes
  · exact Prod.ext hpublished hbytes

/-- How a step ends that fails by itself or is refused. -/
theorem attempt_of_error {step : PublicationStep}
    (h : perform (run.clock number) step store.catalog = .error failure) :
    ∃ other, (run.attempt (step, number) store).result = .error other ∧
      (run.attempt (step, number) store).final = store := by
  cases hfault : run.faults number with
  | none => exact ⟨failure, by simp [attempt, Process.step, hfault, h]⟩
  | some fault =>
    cases fault with
    | refused error => exact ⟨error, by simp [attempt, Process.step, hfault]⟩
    | answerLost error => exact ⟨failure, by simp [attempt, Process.step, hfault, h]⟩

@[inherit_doc attempt_of_error]
theorem attempt_of_refused {step : PublicationStep} {error : WorkerError}
    (h : run.faults number = some (.refused error)) :
    (run.attempt (step, number) store).result = .error error ∧
      (run.attempt (step, number) store).final = store := by
  simp [attempt, Process.step, h]

theorem attempt_of_answerLost {step : PublicationStep} {error : WorkerError}
    (hfault : run.faults number = some (.answerLost error))
    (h : perform (run.clock number) step store.catalog = .ok catalog) :
    (run.attempt (step, number) store).result = .error error ∧
      (run.attempt (step, number) store).final =
        PublishCommand.record run.package step catalog store := by
  simp [attempt, Process.step, hfault, h]

theorem isTruthful_retire (h : run.Published store) :
    run.IsTruthful run.retireSupersededHotStorage store ↔ run.RetiresAll store.catalog := by
  unfold IsTruthful
  rw [published_of_sameStatus sameStatus_retire, retire_eq_ok]
  exact iff_true_right h

theorem isTruthful_publish (hwritten : run.Written store) :
    run.IsTruthful (run.attempt (run.publication.publishStep, number) >>= fun _ ↦
        run.retireSupersededHotStorage) store ↔
      ∀ committed,
        perform (run.clock number) run.publication.publishStep store.catalog = .ok committed →
          (∀ error, run.faults number ≠ some (.answerLost error)) ∧
            (run.faults number = none → run.RetiresAll committed) := by
  cases hperform : perform (run.clock number) run.publication.publishStep store.catalog with
  | error failure =>
    obtain ⟨other, hresult, hfinal⟩ := attempt_of_error hperform
    rw [isTruthful_bind_of_error hresult, hfinal]
    exact iff_of_true hwritten.not_published fun _ h ↦ (by cases h)
  | ok committed =>
    have hpublished := published_record hwritten hperform
    simp only [Except.ok.injEq, forall_eq']
    cases hfault : run.faults number with
    | none =>
      obtain ⟨hresult, hfinal⟩ := attempt_of_ok hfault hperform
      rw [isTruthful_bind_of_ok hresult, hfinal, isTruthful_retire hpublished, catalog_record]
      simp
    | some fault =>
      cases fault with
      | refused error =>
        rw [isTruthful_bind_of_error (attempt_of_refused hfault).1, (attempt_of_refused hfault).2]
        exact iff_of_true hwritten.not_published ⟨nofun, nofun⟩
      | answerLost error =>
        obtain ⟨hresult, hfinal⟩ := attempt_of_answerLost hfault hperform
        rw [isTruthful_bind_of_error hresult, hfinal]
        refine iff_of_false (not_not_intro hpublished) fun h ↦ ?_
        exact h.1 error rfl

/-! ### Up to the publication -/

/-- The row of the build may be written: the steps before pass, and the statement is not refused. -/
def ReachesRow (run : PublicationRun Signature) (catalog : Database) : Prop :=
  (∃ opened, run.Passes 0 run.publication.stepsBeforeRow catalog opened) ∧
    ∀ error, run.faults run.publication.stepsBeforeRow.length ≠ some (.refused error)

/-- The catalog once the row of the build is written. -/
def withRow (run : PublicationRun Signature) (number : ℕ) (catalog : Database) : Database :=
  catalog.upsertBuildWithBytes (run.clock number) run.publication.manifest.buildId
    run.publication.manifest.gameId .ready

theorem perform_rowStep :
    perform (run.clock number) run.publication.rowStep catalog = .ok (run.withRow number catalog) :=
  rfl

theorem written_record :
    run.Written (PublishCommand.record run.package run.publication.rowStep
      (run.withRow number catalog) store) := by
  refine Prod.ext (Bool.eq_false_iff.mpr fun hpublished ↦ ?_) (Function.update_self _ _ _)
  exact (isPublished_upsertBuildWithBytes.mp hpublished).2 rfl

theorem sameStatus_attemptAll (h : ∀ step ∈ steps, IsNeutral step) :
    run.SameStatus store (run.attemptAll number steps store).final :=
  (advances_attemptAll h).preserves (fun _ _ hsame ↦ hsame) store

theorem Written.attemptAll (h : run.Written store) :
    run.Written (run.attemptAll number run.publication.stepsAfterRow store).final := by
  unfold Written
  rw [sameStatus_attemptAll fun step hstep ↦ Publication.neutral_of_mem_stepsAfterRow hstep]
  exact h

theorem stopped_before_row {after : BuildStore Signature} (hsame : run.SameStatus store after)
    (h : ¬ run.ReachesRow store.catalog) :
    ¬ run.Published after ↔ (run.Published store → run.ReachesRow store.catalog) := by
  rw [published_of_sameStatus hsame]
  exact ⟨fun hnot hpublished ↦ absurd hpublished hnot, fun himp hpublished ↦ h (himp hpublished)⟩

/-- A preparation that succeeds has written the row. One that fails leaves the build published
exactly when it was published before and the row is not reached. -/
theorem attemptAll_stepsBeforePublish :
    ((run.attemptAll 0 run.publication.stepsBeforePublish store).result = .ok () →
        run.Written (run.attemptAll 0 run.publication.stepsBeforePublish store).final) ∧
      ∀ failure,
        (run.attemptAll 0 run.publication.stepsBeforePublish store).result = .error failure →
          (¬ run.Published (run.attemptAll 0 run.publication.stepsBeforePublish store).final ↔
            (run.Published store → run.ReachesRow store.catalog)) := by
  rw [Publication.stepsBeforePublish, attemptAll_append, attemptAll_cons, Nat.zero_add]
  have hopening : run.SameStatus store
      (run.attemptAll 0 run.publication.stepsBeforeRow store).final :=
    sameStatus_attemptAll fun step hstep ↦ Publication.neutral_of_mem_stepsBeforeRow hstep
  cases hopened : (run.attemptAll 0 run.publication.stepsBeforeRow store).result with
  | error failure =>
    rw [result_bind_of_error hopened, final_bind_of_error hopened]
    refine ⟨nofun, fun _ _ ↦ stopped_before_row hopening ?_⟩
    rintro ⟨⟨opened, hpasses⟩, -⟩
    rw [(attemptAll_of_passes hpasses).1] at hopened
    cases hopened
  | ok u =>
    rw [result_bind_of_ok hopened, final_bind_of_ok hopened]
    cases hfault : run.faults run.publication.stepsBeforeRow.length with
    | some fault =>
      cases fault with
      | refused error =>
        obtain ⟨hresult, hfinal⟩ := attempt_of_refused hfault
        rw [result_bind_of_error hresult, final_bind_of_error hresult, hfinal]
        exact ⟨nofun, fun _ _ ↦ stopped_before_row hopening fun hreaches ↦ hreaches.2 error hfault⟩
      | answerLost error =>
        obtain ⟨hresult, hfinal⟩ := attempt_of_answerLost hfault perform_rowStep
        rw [result_bind_of_error hresult, final_bind_of_error hresult, hfinal]
        refine ⟨nofun, fun _ _ ↦ iff_of_true written_record.not_published fun _ ↦ ?_⟩
        exact ⟨passes_of_attemptAll hopened, by rw [hfault]; exact nofun⟩
    | none =>
      obtain ⟨hresult, hfinal⟩ := attempt_of_ok hfault perform_rowStep
      rw [result_bind_of_ok hresult, final_bind_of_ok hresult, hfinal]
      refine ⟨fun _ ↦ written_record.attemptAll, fun _ _ ↦
        iff_of_true written_record.attemptAll.not_published fun _ ↦ ?_⟩
      exact ⟨passes_of_attemptAll hopened, by rw [hfault]; exact nofun⟩

/-! ### The whole run -/

/-- What a truthful report takes: a run that finds the build published with this manifest reaches
its row, the publishing statement does not lose its answer, and the retirement does not fail. -/
structure ReportsCommit (run : PublicationRun Signature) (store : BuildStore Signature) : Prop where
  republished : run.Published store → run.ReachesRow store.catalog
  answered : ∀ prepared committed,
    run.Passes 0 run.publication.stepsBeforePublish store.catalog prepared →
      perform (run.clock run.publication.stepsBeforePublish.length) run.publication.publishStep
          prepared = .ok committed →
        ∀ error, run.faults run.publication.stepsBeforePublish.length ≠ some (.answerLost error)
  retired : ∀ committed, run.Passes 0 run.publication.steps store.catalog committed →
    run.RetiresAll committed

theorem Passes.unique {after other : Database} (h : run.Passes number steps catalog after)
    (hother : run.Passes number steps catalog other) : after = other :=
  Except.ok.inj (h.performed.symm.trans hother.performed)

theorem Passes.reachesRow {prepared : Database}
    (h : run.Passes 0 run.publication.stepsBeforePublish catalog prepared) :
    run.ReachesRow catalog := by
  obtain ⟨opened, hopened, hrest⟩ := passes_append.mp h
  obtain ⟨hfault, -⟩ := passes_cons.mp hrest
  refine ⟨⟨opened, hopened⟩, fun error hrefused ↦ ?_⟩
  rw [Nat.zero_add, hrefused] at hfault
  cases hfault

theorem passes_steps :
    run.Passes 0 run.publication.steps catalog committed ↔
      ∃ prepared, run.Passes 0 run.publication.stepsBeforePublish catalog prepared ∧
        run.faults run.publication.stepsBeforePublish.length = none ∧
        perform (run.clock run.publication.stepsBeforePublish.length) run.publication.publishStep
          prepared = .ok committed := by
  rw [Publication.steps_split, passes_append, Nat.zero_add]
  simp only [passes_cons, passes_nil, exists_eq_right]

theorem publishVerifiedBuild_eq : run.publishVerifiedBuild =
    run.attemptAll 0 run.publication.stepsBeforePublish >>= fun _ ↦
      run.attempt (run.publication.publishStep, run.publication.stepsBeforePublish.length) >>=
        fun _ ↦ run.retireSupersededHotStorage := by
  unfold publishVerifiedBuild
  rw [Publication.steps_split, attemptAll_append, bind_assoc, Nat.zero_add, attemptAll_singleton]

theorem isTruthful_of_passes {prepared : Database}
    (h : run.Passes 0 run.publication.stepsBeforePublish store.catalog prepared) :
    run.IsTruthful run.publishVerifiedBuild store ↔
      ∀ committed, perform (run.clock run.publication.stepsBeforePublish.length)
          run.publication.publishStep prepared = .ok committed →
        (∀ error, run.faults run.publication.stepsBeforePublish.length ≠ some (.answerLost error)) ∧
        (run.faults run.publication.stepsBeforePublish.length = none →
          run.RetiresAll committed) := by
  obtain ⟨hresult, hcatalog⟩ := attemptAll_of_passes h
  rw [publishVerifiedBuild_eq, isTruthful_bind_of_ok hresult,
    isTruthful_publish (attemptAll_stepsBeforePublish.1 hresult), hcatalog]

theorem isTruthful_of_error
    (h : (run.attemptAll 0 run.publication.stepsBeforePublish store).result = .error failure) :
    run.IsTruthful run.publishVerifiedBuild store ↔
      (run.Published store → run.ReachesRow store.catalog) := by
  rw [publishVerifiedBuild_eq, isTruthful_bind_of_error h]
  exact attemptAll_stepsBeforePublish.2 failure h

end PublicationRun

open PublicationRun in
/-- The result says whether the build is published with this manifest exactly when a run that finds
it published reaches its row, the publishing statement does not lose its answer, and nothing in the
retirement fails. -/
theorem reports_iff {Signature : Type} (run : PublicationRun Signature)
    (store : BuildStore Signature) :
    run.IsTruthful run.publishVerifiedBuild store ↔ run.ReportsCommit store := by
  cases hresult : (run.attemptAll 0 run.publication.stepsBeforePublish store).result with
  | error failure =>
    have hnever {prepared : Database}
        (h : run.Passes 0 run.publication.stepsBeforePublish store.catalog prepared) : False := by
      rw [(attemptAll_of_passes h).1] at hresult
      cases hresult
    rw [isTruthful_of_error hresult]
    constructor
    · intro h
      refine ⟨h, fun _ _ hpasses ↦ (hnever hpasses).elim, fun _ hpasses ↦ ?_⟩
      obtain ⟨prepared, hbefore, -⟩ := passes_steps.mp hpasses
      exact (hnever hbefore).elim
    · intro h
      exact h.republished
  | ok u =>
    obtain ⟨prepared, hpasses⟩ := passes_of_attemptAll hresult
    rw [isTruthful_of_passes hpasses]
    constructor
    · intro h
      refine ⟨fun _ ↦ hpasses.reachesRow, fun other committed hother hperform ↦ ?_,
        fun committed hall ↦ ?_⟩
      · obtain rfl := hpasses.unique hother
        exact (h committed hperform).1
      · obtain ⟨other, hother, hfault, hperform⟩ := passes_steps.mp hall
        obtain rfl := hpasses.unique hother
        exact (h committed hperform).2 hfault
    · intro h committed hperform
      refine ⟨h.answered prepared committed hpasses hperform, fun hfault ↦ ?_⟩
      exact h.retired committed (passes_steps.mpr ⟨prepared, hpasses, hfault, hperform⟩)

/-! ### An old copy that cannot be deleted -/

/-- The publication of a build `c` of the same game as the build `b`, with a pack of its own. -/
def nextPublication : Publication :=
  { firstPublication with
    manifest := { firstPublication.manifest with buildId := "c" }
    packs := [⟨"q", 1, ["a"]⟩] }

/-- A run whose provider does not delete the pack of the build `b`. -/
def failedRetirement : PublicationRun Unit where
  publication := nextPublication
  package := ⟨nextPublication.manifest, [], [], ()⟩
  package_manifest := rfl
  storage := deletingRegistry
  clock _ := 1
  faults number :=
    if number = nextPublication.steps.length + 1 then
      some (.refused (.context "could not retire old HOT pack p from mirror"))
    else none

/-- The database in which the build `b` is published. -/
def liveStore : BuildStore Unit := ⟨liveCatalog, fun _ ↦ none, fun _ ↦ none⟩

/-- The build is published, and the run reports that an old copy could not be deleted. -/
theorem failed_retirement_misreported :
    ¬ failedRetirement.IsTruthful failedRetirement.publishVerifiedBuild liveStore := by
  intro h
  have hpasses : failedRetirement.Passes 0 nextPublication.steps liveCatalog
      (catalogAfter nextPublication.steps liveCatalog) := by
    refine ⟨performAll_catalogAfter (by decide), fun index hindex ↦ if_neg ?_⟩
    omega
  obtain ⟨prepared, hprepared, hfault, hperform⟩ := PublicationRun.passes_steps.mp hpasses
  have hretires := ((PublicationRun.isTruthful_of_passes hprepared).mp h _ hperform).2 hfault
  have hrefused : failedRetirement.faults (nextPublication.steps.length + 1) = none :=
    hretires 1 (by decide)
  exact absurd hrefused (by decide)

end GameLauncher.Catalog
