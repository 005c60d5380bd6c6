import GameLauncher.Catalog.PublicationGate
import GameLauncher.Catalog.PublishCommand

/-!
# What the publish command leaves in the catalog

`ensures_cleanupAfterPublish` says which files named like the manifest or the signature of a package
the cleanup removes: those in the package and in the source, and the package is gone when it
succeeds. So the copies to the catalog, which come after it, find nothing to copy:
`catalogMatches_iff` is the exact condition under which the catalog has the published files in the
end.
-/

set_option autoImplicit false

namespace GameLauncher.Catalog

open Foundation Fallible Foundation.Process Manifests PublishCommand List FileTree Function

/-! ### Files that are left alone -/

variable {made tree : FileTree id} {path destination source : Path} {name : Text}

/-- The file has the name of the manifest or of the signature of a package. -/
def IsCatalogName (path : Path) : Prop :=
  path.getLast? = some manifestName ∨ path.getLast? = some signatureName

/-- The manifests and signatures are as before, and no directory is gone. -/
structure Undisturbed (before after : FileTree id) : Prop where
  files : ∀ path, IsCatalogName path → after.content path = before.content path
  directories : ∀ path, before.node path = some .directory → after.node path = some .directory

theorem Undisturbed.refl (tree : FileTree id) : Undisturbed tree tree :=
  ⟨fun _ _ ↦ rfl, fun _ h ↦ h⟩

theorem Undisturbed.trans {first second third : FileTree id} (hfirst : Undisturbed first second)
    (hsecond : Undisturbed second third) : Undisturbed first third :=
  ⟨fun path hname ↦ (hsecond.files path hname).trans (hfirst.files path hname),
    fun path h ↦ hsecond.directories path (hfirst.directories path h)⟩

theorem undisturbed_of_node {node : Option Node} (hname : ¬ IsCatalogName path)
    (hpath : tree.node path ≠ some .directory)
    (h : ∀ other, made.node other = if pathKey id other = pathKey id path then node
      else tree.node other) : Undisturbed tree made := by
  constructor
  · intro other hother
    have hne : ¬ pathKey id other = pathKey id path := by
      rw [pathKey_id, pathKey_id]
      rintro rfl
      exact hname hother
    rw [content, h other, if_neg hne, content]
  · intro other hdirectory
    have hne : ¬ pathKey id other = pathKey id path := by
      rw [pathKey_id, pathKey_id]
      rintro rfl
      exact hpath hdirectory
    rw [h other, if_neg hne, hdirectory]

theorem undisturbed_writeFile {content : Bytes} (hname : ¬ IsCatalogName path)
    (h : tree.writeFile path content = .ok made) : Undisturbed tree made := by
  obtain ⟨hadmits, hnode⟩ := writeFile_eq_ok h
  exact undisturbed_of_node hname hadmits.2.2 hnode

theorem undisturbed_deleteFile (hname : ¬ IsCatalogName path) (h : tree.deleteFile path = .ok made)
    :
    Undisturbed tree made := by
  have hdirectory : tree.directoryExists path = false := by
    unfold deleteFile at h
    split_ifs at h with hexists
    · exact Bool.eq_false_iff.mpr hexists
    · exact Bool.eq_false_iff.mpr hexists
  exact undisturbed_of_node hname (node_ne_directory hdirectory)
    (deleteFile_eq_ok h)

theorem undisturbed_moveFile (hsource : ¬ IsCatalogName source)
    (hdestination : ¬ IsCatalogName destination) (h : tree.moveFile source destination = .ok made) :
    Undisturbed tree made := by
  obtain ⟨moved, -, hfile, hdirectory, hnode⟩ := moveFile_eq_ok h
  simp only [pathKey_id] at hnode
  constructor
  · intro other hother
    have hfirst : other ≠ destination := fun heq ↦ hdestination (heq ▸ hother)
    have hsecond : other ≠ source := fun heq ↦ hsource (heq ▸ hother)
    rw [content, hnode other, if_neg hfirst, if_neg hsecond, content]
  · intro other hother
    have hfirst : other ≠ destination := by
      rintro rfl
      exact node_ne_directory hdirectory hother
    have hsecond : other ≠ source := by
      rintro rfl
      exact node_ne_directory (directoryExists_of_fileExists hfile) hother
    rw [hnode other, if_neg hfirst, if_neg hsecond, hother]

theorem undisturbed_createDirectory (h : tree.createDirectory path = .ok made) :
    Undisturbed tree made := by
  obtain ⟨hextends, -, -⟩ := createDirectory_eq_ok h
  refine ⟨fun other _ ↦ content_of_extendsByDirectories hextends other, fun other hother ↦ ?_⟩
  rcases hextends other with hsame | ⟨hnone, -⟩
  · rw [hsame, hother]
  · rw [hother] at hnone
    cases hnone

theorem not_isCatalogName {base : Path} (h : ¬ "json" <:+ name) :
    ¬ IsCatalogName (base ++ [name]) := by
  have hjson : "json" <:+ manifestName ∧ "json" <:+ signatureName := by decide
  rintro (heq | heq)
  · rw [List.getLast?_concat] at heq
    exact h (Option.some.inj heq ▸ hjson.1)
  · rw [List.getLast?_concat] at heq
    exact h (Option.some.inj heq ▸ hjson.2)

theorem not_suffix_of_suffix {first second : Text} (hlength : first.length = second.length)
    (hne : first ≠ second) (h : first <:+ name) : ¬ second <:+ name := by
  intro hother
  exact hne ((suffix_of_suffix_length_le h hother hlength.le).eq_of_length hlength)

/-! ### The rules of the file operations -/

variable {action : FileTree id → Except IoFailure (FileTree id)} {context : Text}

section Rules

variable {Signature : Type} {before always : CommandState Signature → Prop}
  {fails : CommandError → CommandState Signature → Prop}
  {property : CommandState Signature → Prop}

theorem ensures_change {after : Unit → CommandState Signature → Prop}
    (hok : ∀ state made, before state → action state.tree = .ok made →
      after () { state with tree := made })
    (herror : ∀ state failure, before state → action state.tree = .error failure →
      fails (.io context) state) :
    Ensures before (change action context) (fun _ ↦ True) after fails := by
  refine ensures_step (fun _ _ ↦ trivial) ?_ ?_
  · intro state value hstate hvalue
    cases haction : action state.tree with
    | ok made => exact hok state made hstate haction
    | error failure => simp only [haction, reduceCtorEq] at hvalue
  · intro state failure hstate hfailure
    cases haction : action state.tree with
    | ok made => simp only [haction, reduceCtorEq] at hfailure
    | error raised =>
      simp only [haction, Except.error.injEq] at hfailure ⊢
      rw [← hfailure]
      exact herror state raised hstate haction

theorem keeps_change (h : ∀ state made, property state → action state.tree = .ok made →
      property { state with tree := made }) :
    Keeps property (fun _ ↦ True) (change action context) fun _ ↦ True :=
  ensures_change (fun state made hstate hmade ↦ ⟨trivial, h state made hstate hmade⟩)
    fun _ _ hstate _ ↦ ⟨trivial, hstate⟩

theorem ensures_look {α : Type} {view : FileTree id → Except CommandError α}
    {after : α → CommandState Signature → Prop}
    (hok : ∀ state value, before state → view state.tree = .ok value → after value state)
    (herror : ∀ state failure, before state → view state.tree = .error failure →
      fails failure state) :
    Ensures before (look view) always after fails :=
  ensures_query hok herror

theorem keeps_look {α : Type} {view : FileTree id → Except CommandError α} {fact : α → Prop}
    (h : ∀ tree value, view tree = .ok value → fact value) :
    Keeps property (fun _ ↦ True) (look view) fact :=
  keeps_query (fun state value _ hvalue ↦ h state.tree value hvalue) fun _ _ _ _ ↦ trivial

end Rules

/-! ### The command up to the publication -/

section Publish

variable {Signature : Type} {command : PublishCommand Signature} {start : CommandState Signature}

/-- The files of a state are as at the start, and the database is. -/
def Unchanged (start state : CommandState Signature) : Prop :=
  Undisturbed start.tree state.tree ∧ state.database = start.database

theorem keeps_unchanged (h : ∀ tree made, action tree = .ok made → Undisturbed tree made) :
    Keeps (Unchanged start) (fun _ ↦ True) (change action context) fun _ ↦ True :=
  keeps_change fun state made hstate hmade ↦ ⟨hstate.1.trans (h state.tree made hmade), hstate.2⟩

theorem keeps_atomicCopy (hname : ¬ IsCatalogName destination) :
    Keeps (Unchanged start) (fun _ ↦ True) (atomicCopy source destination) fun _ ↦ True := by
  have hending : "part" <:+ fileStem (destination.getLastD []) ++ '.' :: "part" :=
    (suffix_cons '.' _).trans (suffix_append _ _)
  have hpart : ¬ IsCatalogName (withExtension destination "part") :=
    not_isCatalogName (not_suffix_of_suffix (by decide) (by decide) hending)
  refine keeps_bind (fun _ ↦ True) (keeps_look fun _ _ _ ↦ trivial) fun bytes _ ↦ ?_
  refine keeps_bind (fun _ ↦ True) (keeps_unchanged fun tree made ↦ undisturbed_writeFile hpart)
    fun _ _ ↦ ?_
  exact keeps_unchanged fun tree made ↦ undisturbed_moveFile hpart hname

theorem keeps_copyVerifiedObject (destination entry : Path) :
    Keeps (Unchanged start) (fun _ ↦ True) (command.copyVerifiedObject destination entry)
      fun _ ↦ True := by
  refine keeps_bind (fun _ ↦ ".bin" <:+ entry.getLastD []) (keeps_look ?_)
    fun _ hname ↦ ?_
  · intro tree bytes hbytes
    simp only [checkObject, bind_eq_ok, throwIf_eq_ok, not_not] at hbytes
    obtain ⟨_, hsuffix, -⟩ := hbytes
    exact hsuffix
  · refine keeps_bind (fun _ ↦ True) (keeps_look fun _ _ _ ↦ trivial) fun present _ ↦ ?_
    split_ifs
    · exact keeps_look fun _ _ _ ↦ trivial
    · refine keeps_atomicCopy (not_isCatalogName fun hjson ↦ ?_)
      have hbin : "bin" <:+ entry.getLastD [] := List.IsSuffix.trans (by decide) hname
      have hson : "son" <:+ entry.getLastD [] := List.IsSuffix.trans (by decide) hjson
      exact not_suffix_of_suffix (by decide) (by decide) hbin hson

theorem keeps_copyVerifiedObjects (source destination : Path) :
    Keeps (Unchanged start) (fun _ ↦ True) (command.copyVerifiedObjects source destination)
      fun _ ↦ True := by
  refine keeps_bind (fun _ ↦ True) (keeps_look fun _ _ _ ↦ trivial) fun _ _ ↦ ?_
  refine keeps_bind (fun _ ↦ True) (keeps_look fun _ _ _ ↦ trivial) fun entries _ ↦ ?_
  exact keeps_forEach trivial fun entry _ _ _ ↦ keeps_copyVerifiedObject destination entry

/-- The database, when there is one, holds what was read from the package. -/
def Stored (package : VerifiedPackage Signature) (state : CommandState Signature) : Prop :=
  ∀ store, state.database = some store →
    store.manifestBytes package.manifest.buildId = some package.manifestBytes ∧
      store.signatureJson package.manifest.buildId = some package.signature

/-- What holds while a publication performs its steps. -/
structure Publishing (package : VerifiedPackage Signature) (start : CommandState Signature)
    (done : List (PublicationStep × ℕ)) (state : CommandState Signature) : Prop where
  undisturbed : Undisturbed start.tree state.tree
  database : state.database.isSome = start.database.isSome
  stored : (∃ step ∈ done, ∃ gameId,
    step.1 = .upsertBuildWithBytes package.manifest.buildId gameId) → Stored package state

variable {package : VerifiedPackage Signature}

theorem stored_record {step : PublicationStep} {catalog : Database} {store : BuildStore Signature}
    (h : (∀ gameId, step ≠ .upsertBuildWithBytes package.manifest.buildId gameId) →
      store.manifestBytes package.manifest.buildId = some package.manifestBytes ∧
        store.signatureJson package.manifest.buildId = some package.signature) :
    (record package step catalog store).manifestBytes package.manifest.buildId =
        some package.manifestBytes ∧
      (record package step catalog store).signatureJson package.manifest.buildId =
        some package.signature := by
  unfold record
  split
  · next buildId gameId =>
    by_cases hsame : buildId = package.manifest.buildId
    · rw [hsame]
      exact ⟨update_self .., update_self ..⟩
    · have hother := h fun _ heq ↦ hsame (PublicationStep.upsertBuildWithBytes.inj heq).1
      dsimp only
      rw [update_of_ne (Ne.symm hsame), update_of_ne (Ne.symm hsame)]
      exact hother
  · next hnone => exact h fun gameId ↦ hnone _ gameId

theorem ensures_performStep {step : PublicationStep × ℕ}
    {before after : CommandState Signature → Prop}
    (hnone : ∀ state, before state → state.database = none → after state)
    (hsome : ∀ state store catalog, before state → state.database = some store →
      after { state with database := some (record package step.1 catalog store) }) :
    Ensures before (command.performStep package step) (fun _ ↦ True) (fun _ ↦ after)
      fun _ _ ↦ True := by
  refine ensures_step (fun _ _ ↦ trivial) ?_ fun _ _ _ _ ↦ trivial
  intro state value hstate hvalue
  cases hdatabase : state.database with
  | none =>
    have hsame : after state := hnone state hstate hdatabase
    dsimp only
    split
    · exact hsame
    · exact hsame
  | some store =>
    simp only [hdatabase] at hvalue ⊢
    cases hperform : perform (command.clock step.2) step.1 store.catalog with
    | error error => simp only [hperform, reduceCtorEq] at hvalue
    | ok catalog => exact hsome state store catalog hstate hdatabase

theorem ensures_publishing {step : PublicationStep × ℕ} {done : List (PublicationStep × ℕ)} :
    Ensures (Publishing package start done) (command.performStep package step) (fun _ ↦ True)
      (fun _ ↦ Publishing package start (done ++ [step])) fun _ _ ↦ True := by
  refine ensures_performStep ?_ ?_
  · intro state hstate hdatabase
    exact ⟨hstate.undisturbed, hstate.database, fun _ store hstore ↦
      by cases hdatabase.symm.trans hstore⟩
  · intro state store catalog hstate hdatabase
    refine ⟨hstate.undisturbed, ?_, ?_⟩
    · rw [← hstate.database, hdatabase]
      rfl
    · rintro ⟨written, hwritten, gameId, heq⟩ _ ⟨⟩
      refine stored_record fun hother ↦ ?_
      rcases mem_append.mp hwritten with hdone | hlast
      · exact hstate.stored ⟨written, hdone, gameId, heq⟩ store hdatabase
      · rw [mem_singleton.mp hlast] at heq
        exact absurd heq (hother gameId)

theorem ensures_publishVerifiedBuild :
    Ensures (Unchanged start) (command.publishVerifiedBuild package) (fun _ ↦ True)
      (fun _ state ↦ Undisturbed start.tree state.tree ∧ Stored package state)
      fun _ _ ↦ True := by
  refine ensures_bind (fun steps state ↦ Unchanged start state ∧
      steps = command.publicationSteps package state)
    (ensures_query (fun state steps hstate hsteps ↦ ⟨hstate, (Except.ok.inj hsteps).symm⟩)
      fun _ _ _ _ ↦ trivial) fun steps ↦ ?_
  -- the row of the build is among the steps when there is a database
  have hupsert (state : CommandState Signature) (hsome : state.database.isSome = true) :
      ∃ step ∈ command.publicationSteps package state, ∃ gameId,
        step = .upsertBuildWithBytes package.manifest.buildId gameId := by
    refine ⟨.upsertBuildWithBytes package.manifest.buildId package.manifest.gameId, ?_, _, rfl⟩
    rw [publicationSteps, if_pos hsome]
    simp [Publication.steps, Publication.preparationSteps, Publication.buildSteps,
      command.publication_manifest]
  refine ensures_bind (fun _ state ↦ Undisturbed start.tree state.tree ∧ Stored package state)
    ?_ fun _ ↦ ?_
  · refine ensures_of_state fun state hstate ↦ ?_
    obtain ⟨hunchanged, rfl⟩ := hstate
    refine (ensures_forEach (fun done _ ↦ Publishing package start done)
      fun done item rest _ _ ↦ ensures_publishing).mono ?_ (fun _ _ ↦ trivial) ?_
      fun _ _ _ ↦ trivial
    · rintro _ rfl
      refine ⟨hunchanged.1, by rw [hunchanged.2], ?_⟩
      rintro ⟨_, hnone, -⟩
      cases hnone
    · intro _ final hfinal
      refine ⟨hfinal.undisturbed, fun store hstore ↦ ?_⟩
      have hsome : state.database.isSome = true := by
        rw [hunchanged.2, ← hfinal.database, hstore]
        rfl
      obtain ⟨step, hstep, gameId, heq⟩ := hupsert state hsome
      obtain ⟨number, hnumber⟩ := mem_iff_getElem?.mp hstep
      exact hfinal.stored ⟨(step, number), mk_mem_zipIdx_iff_getElem?.mpr hnumber, gameId, heq⟩
        store hstore
  · -- the retirement does not write the row again, or writes the same
    refine ensures_bind (fun _ state ↦ Undisturbed start.tree state.tree ∧ Stored package state)
      (ensures_query (fun _ _ hstate _ ↦ hstate) fun _ _ _ _ ↦ trivial) fun retirement ↦ ?_
    refine ensures_forEach (fun _ _ state ↦ Undisturbed start.tree state.tree ∧
      Stored package state) fun done step rest _ _ ↦ ensures_performStep ?_ ?_
    · exact fun state hstate _ ↦ hstate
    · rintro state store catalog ⟨hundisturbed, hstored⟩ hdatabase
      refine ⟨hundisturbed, ?_⟩
      rintro _ ⟨⟩
      exact stored_record fun _ ↦ hstored store hdatabase

theorem readPackage_eq_ok (h : command.readPackage tree = .ok package) :
    tree.content (command.package ++ [manifestName]) = some package.manifestBytes ∧
      tree.content (command.package ++ [signatureName]) = some package.signatureBytes := by
  simp only [readPackage, bind_eq_ok, orThrow_eq_ok, pure_eq_ok] at h
  obtain ⟨manifestBytes, hmanifest, _, -, signatureBytes, hsignature, _, -, _, -, rfl⟩ := h
  exact ⟨hmanifest, hsignature⟩

/-- The command up to the publication leaves the files of the package and of the catalog alone,
makes the directory of the catalog, and stores what it has read. -/
theorem ensures_publishPhase :
    Ensures (fun state ↦ state = start) command.publishPhase (fun _ ↦ True)
      (fun package state ↦ command.readPackage start.tree = .ok package ∧
        Undisturbed start.tree state.tree ∧
        state.tree.node (command.destination package.manifest.buildId) = some .directory ∧
        Stored package state) fun _ _ ↦ True := by
  refine ensures_bind (fun package state ↦ command.readPackage start.tree = .ok package ∧
      Unchanged start state) (ensures_look ?_ fun _ _ _ _ ↦ trivial) fun package ↦ ?_
  · rintro state package rfl hpackage
    exact ⟨hpackage, .refl _, rfl⟩
  refine ensures_assume fun hpackage ↦ ?_
  refine ensures_bind (fun _ state ↦ Unchanged start state ∧
      state.tree.node (command.destination package.manifest.buildId) = some .directory)
    (ensures_change ?_ fun _ _ _ _ ↦ trivial) fun _ ↦ ?_
  · intro state made hstate hmade
    exact ⟨⟨hstate.1.trans (undisturbed_createDirectory hmade), hstate.2⟩,
      (createDirectory_eq_ok hmade).2.1⟩
  refine ensures_of_state fun made hmade ↦ ?_
  have hstart : ∀ state, state = made → Unchanged made state := by
    rintro _ rfl
    exact ⟨.refl _, rfl⟩
  refine ensures_bind (fun _ ↦ Unchanged made)
    ((keeps_unchanged fun tree after ↦ undisturbed_createDirectory).ensures.mono hstart
      (fun _ h ↦ h) (fun _ _ h ↦ h) fun _ _ _ ↦ trivial) fun _ ↦ ?_
  refine ensures_bind (fun _ ↦ Unchanged made)
    ((keeps_copyVerifiedObjects _ _).ensures.mono (fun _ h ↦ h) (fun _ h ↦ h) (fun _ _ h ↦ h)
      fun _ _ _ ↦ trivial) fun _ ↦ ?_
  refine ensures_bind (fun _ state ↦ Undisturbed made.tree state.tree ∧ Stored package state)
    ensures_publishVerifiedBuild fun _ ↦ ?_
  refine ensures_pure fun state hstate ↦ ⟨hpackage, hmade.1.1.trans hstate.1, ?_, hstate.2⟩
  exact hstate.1.directories _ hmade.2

end Publish

/-! ### The cleanup -/

variable {manifest : Manifest}

section Cleanup

variable {Signature : Type} {command : PublishCommand Signature} {start : CommandState Signature}

/-- The files named like a manifest or a signature are as expected. -/
def Holds (expected : Path → Option Bytes) (state : CommandState Signature) : Prop :=
  ∀ path, IsCatalogName path → state.tree.content path = expected path

variable {expected : Path → Option Bytes}

theorem keeps_holds (h : ∀ tree made, action tree = .ok made → ∀ path, IsCatalogName path →
      made.content path = tree.content path) :
    Keeps (Holds expected : CommandState Signature → Prop) (fun _ ↦ True) (change action context)
      fun _ ↦ True :=
  keeps_change fun state made hstate hmade path hname ↦
    (h state.tree made hmade path hname).trans (hstate path hname)

theorem content_deleteEmptyDirectory (h : tree.deleteEmptyDirectory path = .ok made) (other : Path)
    :
    made.content other = tree.content other := by
  obtain ⟨hdirectory, hnode⟩ := deleteEmptyDirectory_eq_ok h
  simp only [pathKey_id] at hnode
  rw [content, hnode other, content]
  by_cases hsame : other = path
  · rw [if_pos hsame, hsame, hdirectory]
  · rw [if_neg hsame]

theorem content_eq_none_of_below {other : Path} (hnode : tree.node path ≠ some .directory)
    (hfile : tree.content path = none) (h : path <+: other) : tree.content other = none := by
  obtain ⟨below, rfl⟩ := h
  by_cases hbelow : below = []
  · rw [hbelow, append_nil, hfile]
  · rw [content, node_eq_none_of_below hnode hbelow]

theorem keeps_removeGeneratedHandoff (source : Path) :
    Keeps (Holds expected : CommandState Signature → Prop) (fun _ ↦ True)
      (removeGeneratedHandoff source) fun _ ↦ True := by
  have hname : ¬ IsCatalogName (source.dropLast ++ ["handoff.json".toList]) := by
    rintro (heq | heq)
    · rw [List.getLast?_concat] at heq
      exact absurd heq (by decide)
    · rw [List.getLast?_concat] at heq
      exact absurd heq (by decide)
  refine keeps_bind (fun _ ↦ True) (keeps_look fun _ _ _ ↦ trivial) fun node _ ↦ ?_
  split
  · exact keeps_pure trivial
  · exact keeps_holds fun tree made hmade ↦ (undisturbed_deleteFile hname hmade).files
  · exact keeps_fail trivial

theorem keeps_removeEmptyParentDirs (depth : ℕ) (current : Path) :
    Keeps (Holds expected) (fun _ ↦ True) (command.removeEmptyParentDirs depth current)
      fun _ ↦ True := by
  induction depth generalizing current with
  | zero => exact keeps_pure trivial
  | succ depth ih =>
    refine keeps_bind (fun _ ↦ True) (keeps_look fun _ _ _ ↦ trivial) fun stop _ ↦ ?_
    split_ifs
    · exact keeps_pure trivial
    · refine keeps_bind (fun _ ↦ True) (keeps_holds fun tree made hmade path _ ↦
        content_deleteEmptyDirectory hmade path) fun _ _ ↦ ih current.dropLast

/-- The files that are expected once everything at and below a path is removed. -/
def without (removed : Path → Prop) [DecidablePred removed] (expected : Path → Option Bytes)
    (path : Path) : Option Bytes := if removed path then none else expected path

/-- What lies at a path and is no link can be removed, with all below it and nothing else. -/
theorem exists_removed {node : Node} (hnode : tree.node source = some node)
    (hlink : ∀ toDirectory, ¬ node = .reparsePoint toDirectory) :
    ∃ made, (if decide (node = .directory) = true then (·.deleteDirectory source)
        else (·.deleteFile source) : FileTree id → Except IoFailure (FileTree id)) tree = .ok made ∧
      ∀ path, made.node path = if source <+: path then none else tree.node path := by
  cases node with
  | directory =>
    have hexists : tree.directoryExists source = true := by rw [directoryExists, hnode]
    have hdelete : tree.deleteDirectory source = .ok (tree.removeTree source) := by
      simp [deleteDirectory, hexists]
    refine ⟨_, hdelete, fun path ↦ ?_⟩
    have hremoved := deleteDirectory_eq_ok hdelete path
    simp only [pathKey_id] at hremoved
    exact hremoved
  | file content =>
    obtain ⟨made, hmade⟩ := deleteFile_of_exists (show tree.fileExists source = true by
      rw [fileExists, hnode])
    refine ⟨made, hmade, fun path ↦ ?_⟩
    have hremoved := deleteFile_eq_ok hmade path
    simp only [pathKey_id] at hremoved
    rw [hremoved]
    by_cases hsame : path = source
    · rw [if_pos hsame, if_pos (hsame ▸ prefix_rfl)]
    · rw [if_neg hsame]
      split_ifs with hbelow
      · obtain ⟨below, rfl⟩ := hbelow
        exact node_eq_none_of_below (by rw [hnode]; rintro ⟨⟩)
          fun hnil ↦ hsame (by rw [hnil, append_nil])
      · rfl
  | reparsePoint toDirectory => exact absurd rfl (hlink toDirectory)

theorem ensures_removeStagingPath (hroot : command.storageRoot <+: source) :
    Ensures (Holds expected) (command.removeStagingPath source) (fun _ ↦ True)
      (fun _ ↦ Holds (without (fun path ↦ source ≠ command.storageRoot ∧ source <+: path) expected))
      fun _ ↦ Holds (without (fun path ↦ source ≠ command.storageRoot ∧ source <+: path)
        expected) := by
  refine ensures_of_state fun state hstate ↦ ?_
  -- what holds when the path is no directory and no file
  have habsent (hnode : state.tree.node source ≠ some .directory)
      (hfile : state.tree.content source = none) :
      Holds (without (fun path ↦ source ≠ command.storageRoot ∧ source <+: path) expected)
        state := by
    intro path hname
    unfold without
    split_ifs with hremoved
    · exact content_eq_none_of_below hnode hfile hremoved.2
    · exact hstate path hname
  refine ensures_bind (fun found final ↦ command.checkRemoval source state.tree = .ok found ∧
    final = state) (ensures_look ?_ ?_) fun found ↦ ensures_assume fun hfound ↦ ?_
  · rintro _ found rfl hfound
    exact ⟨hfound, rfl⟩
  · rintro final failure rfl hfailure
    unfold checkRemoval at hfailure
    split at hfailure
    · cases hfailure
    · next hnode => exact habsent (by rw [hnode]; rintro ⟨⟩) (by rw [content, hnode])
    · rw [bind_eq_error] at hfailure
      rcases hfailure with hfailure | ⟨_, -, hfailure⟩
      · have houtside := (throwIf_eq_error.mp hfailure).1
        have hsame : source = command.storageRoot := houtside.resolve_right (not_not.mpr hroot)
        intro path hname
        rw [without, if_neg fun hremoved ↦ hremoved.1 hsame]
        exact hstate path hname
      · cases hfailure
  unfold checkRemoval at hfound
  split at hfound
  · next hnode =>
    obtain rfl := Except.ok.inj hfound
    refine ensures_pure ?_
    rintro _ rfl
    exact habsent (by rw [hnode]; rintro ⟨⟩) (by rw [content, hnode])
  · cases hfound
  · next node hlink hnode =>
    rw [bind_eq_ok] at hfound
    obtain ⟨_, hinside, hfound⟩ := hfound
    obtain rfl := Except.ok.inj hfound
    rw [throwIf_eq_ok, not_or] at hinside
    obtain ⟨removed, hremoved, hnodes⟩ := exists_removed hnode hlink
    refine ensures_bind (fun _ ↦ Holds (without (fun path ↦
      source ≠ command.storageRoot ∧ source <+: path) expected)) (ensures_change ?_ ?_)
      fun _ ↦ ensures_pure fun _ h ↦ h
    · rintro state made rfl hmade path hname
      obtain rfl : removed = made := Except.ok.inj (hremoved.symm.trans hmade)
      simp only [without, ne_eq, hinside.1, not_false_eq_true, true_and, ← hstate path hname, content,
        hnodes]
      split_ifs <;> rfl
    · rintro state failure rfl hfailure
      cases hremoved.symm.trans hfailure

/-- The cleanup removes the path: it lies in the package, or in the source of the marker. -/
def InStaging (command : PublishCommand Signature) (source : Option Path) (path : Path) : Prop :=
  command.package <+: path ∨ ∃ found ∈ source, found ≠ command.storageRoot ∧ found <+: path

instance (source : Option Path) (path : Path) : Decidable (InStaging command source path) :=
  match source with
  | none => decidable_of_iff (command.package <+: path) (by simp [InStaging])
  | some found => decidable_of_iff (command.package <+: path ∨
      found ≠ command.storageRoot ∧ found <+: path) (by simp [InStaging])

theorem ensures_removeStaging {source : Option Path}
    (hpackage : start.tree.node command.package = some .directory)
    (hroot : ∀ found ∈ source, command.storageRoot <+: found) :
    Ensures (fun state ↦ state = start) (command.removeStaging source) (fun _ ↦ True)
      (fun _ ↦ Holds (without (InStaging command source) start.tree.content))
      fun _ ↦ Holds (without (InStaging command source) start.tree.content) := by
  have hexists : start.tree.directoryExists command.package = true := by
    rw [FileTree.directoryExists, hpackage]
  refine ensures_bind (fun _ ↦ Holds (without (command.package <+: ·) start.tree.content))
    (ensures_change ?_ ?_) fun _ ↦ ?_
  · rintro start made rfl hmade path -
    have hremoved := deleteDirectory_eq_ok hmade path
    simp only [pathKey_id] at hremoved
    rw [content, hremoved, without]
    split_ifs
    · rfl
    · rfl
  · rintro start failure rfl hfailure
    simp [deleteDirectory, hexists] at hfailure
  cases source with
  | none =>
    refine ensures_pure fun state hstate path hname ↦ ?_
    rw [hstate path hname]
    simp [without, InStaging]
  | some found =>
    have hboth (state : CommandState Signature) (hstate : Holds (without (fun path ↦
        found ≠ command.storageRoot ∧ found <+: path)
        (without (command.package <+: ·) start.tree.content)) state) :
        Holds (without (InStaging command (some found)) start.tree.content) state := by
      intro path hname
      rw [hstate path hname]
      by_cases hinside : command.package <+: path
      · simp [without, InStaging, hinside]
      · simp [without, InStaging, hinside]
    refine Ensures.mono ?_ (fun _ h ↦ h) (fun _ h ↦ h) (fun _ ↦ hboth) fun _ ↦ hboth
    refine ensures_bind (fun _ ↦ Holds _) (ensures_removeStagingPath (hroot found rfl))
      fun removed ↦ ?_
    split_ifs
    · exact ensures_bind (fun _ ↦ Holds _) (keeps_removeGeneratedHandoff found).ensures
        fun _ ↦ (keeps_removeEmptyParentDirs _ _).ensures
    · exact ensures_pure fun _ h ↦ h

theorem root_prefix_of_checkStaging {source : Option Path}
    (h : command.checkStaging tree = .ok source) :
    ∀ found ∈ source, command.storageRoot <+: found := by
  simp only [checkStaging, bind_eq_ok, throwIf_eq_ok, pure_eq_ok] at h
  obtain ⟨_, -, _, -, _, -, marked, hmarked, _, -, rfl⟩ := h
  unfold readSourceMarker at hmarked
  dsimp only at hmarked
  split at hmarked
  · rw [← Except.ok.inj hmarked]
    rintro _ ⟨⟩
  · simp only [validateStagingPath, bind_eq_ok, throwIf_eq_ok, pure_eq_ok, not_not] at hmarked
    obtain ⟨path, -, _, ⟨_, -, _, -, hroot⟩, rfl⟩ := hmarked
    rintro _ ⟨⟩
    exact hroot
  · cases hmarked

theorem keeps_removeStagingObject (object : Text × Text) :
    Keeps (Unchanged start) (fun _ ↦ True) (command.removeStagingObject object)
      fun _ ↦ True := by
  have hending : "bin".toList <:+ object.2 ++ ".bin".toList :=
    List.IsSuffix.trans (by decide) (suffix_append _ _)
  have hname : ¬ IsCatalogName (command.stagingObject object.2) := by
    refine not_isCatalogName fun hjson ↦ ?_
    have hson : "son".toList <:+ object.2 ++ ".bin".toList :=
      List.IsSuffix.trans (by decide) hjson
    exact not_suffix_of_suffix (by decide) (by decide) hending hson
  refine keeps_bind (fun _ ↦ True) (keeps_look fun _ _ _ ↦ trivial) fun present _ ↦ ?_
  split_ifs
  · exact keeps_unchanged fun tree made hmade ↦ undisturbed_deleteFile hname hmade
  · exact keeps_pure trivial

/-- What precedes the removal of the package leaves the files of packages and catalogs alone. -/
theorem ensures_prepareCleanup :
    Ensures (fun state ↦ state = start) (command.prepareCleanup manifest) (fun _ ↦ True)
      (fun source state ↦ (∀ found ∈ source, command.storageRoot <+: found) ∧
        Unchanged start state) fun _ ↦ Unchanged start := by
  refine ensures_bind (fun source state ↦ (∀ found ∈ source, command.storageRoot <+: found) ∧
    Unchanged start state) (ensures_look ?_ ?_) fun source ↦ ensures_assume fun hroot ↦ ?_
  · rintro state source rfl hsource
    exact ⟨root_prefix_of_checkStaging hsource, .refl _, rfl⟩
  · rintro state _ rfl _
    exact ⟨.refl _, rfl⟩
  refine ensures_bind (fun _ ↦ Unchanged start) (Keeps.ensures (keeps_forEach trivial
    fun object _ _ _ ↦ keeps_removeStagingObject object)) fun _ ↦ ?_
  exact ensures_pure fun state hstate ↦ ⟨hroot, hstate⟩

/-- The cleanup gets as far as removing the package, and a path is in what it removes. -/
def CleanupRemoves (command : PublishCommand Signature) (manifest : Manifest)
    (state : CommandState Signature) (path : Path) : Prop :=
  ∃ source, (command.prepareCleanup manifest state).result = .ok source ∧
    InStaging command source path

/-- The files of packages and catalogs are as before, but for those that the cleanup removes. -/
def CleanedUp (command : PublishCommand Signature) (manifest : Manifest)
    (before after : CommandState Signature) : Prop :=
  ∀ path, IsCatalogName path →
    (CleanupRemoves command manifest before path → after.tree.content path = none) ∧
      (¬ CleanupRemoves command manifest before path →
        after.tree.content path = before.tree.content path)

/-- The cleanup removes exactly these files, and when it succeeds the package is gone. -/
theorem ensures_cleanupAfterPublish (hpackage : start.tree.node command.package = some .directory) :
    Ensures (fun state ↦ state = start) (command.cleanupAfterPublish manifest) (fun _ ↦ True)
      (fun _ state ↦ CleanedUp command manifest start state ∧
        ∀ path, IsCatalogName path → command.package <+: path → state.tree.content path = none)
      fun _ state ↦ CleanedUp command manifest start state := by
  refine ensures_bind _ (ensures_prepareCleanup.with_result.mono (fun _ h ↦ h) (fun _ h ↦ h)
    (fun _ _ h ↦ h) ?_) fun source ↦ ?_
  · rintro failure state ⟨hfailure, hstate⟩ path hname
    refine ⟨?_, fun _ ↦ hstate.1.files path hname⟩
    rintro ⟨source, hsource, -⟩
    rw [hfailure] at hsource
    cases hsource
  refine ensures_of_state fun prepared hprepared ↦ ?_
  obtain ⟨hresult, hroot, hstate⟩ := hprepared
  have hremoved (state : CommandState Signature)
      (h : Holds (without (InStaging command source) prepared.tree.content) state) :
      CleanedUp command manifest start state := by
    intro path hname
    rw [h path hname, without, hstate.1.files path hname]
    constructor
    · rintro ⟨other, hother, hin⟩
      rw [hresult] at hother
      rw [Except.ok.inj hother, if_pos hin]
    · intro hnot
      rw [if_neg fun hin ↦ hnot ⟨source, hresult, hin⟩]
  refine (ensures_removeStaging (hstate.1.directories _ hpackage) hroot).mono (fun _ h ↦ h)
    (fun _ h ↦ h) (fun _ state h ↦ ⟨hremoved state h, fun path hname hin ↦ ?_⟩)
    fun _ state h ↦ hremoved state h
  rw [h path hname, without, if_pos (.inl hin)]

end Cleanup

/-! ### The catalog in the end -/

section Final

variable {Signature : Type} {command : PublishCommand Signature}
  {start published : CommandState Signature} {package : VerifiedPackage Signature}

structure CatalogMatches (command : PublishCommand Signature) (package : VerifiedPackage Signature)
    (tree : FileTree id) : Prop where
  manifest : tree.content (command.destination package.manifest.buildId ++ [manifestName]) =
    some package.manifestBytes
  signature : tree.content (command.destination package.manifest.buildId ++ [signatureName]) =
    some package.signatureBytes

/-- A copy can be put at the path: nothing is there, or a file. -/
def IsFree (tree : FileTree id) (path : Path) : Prop :=
  tree.node path = none ∨ ∃ content, tree.node path = some (.file content)

instance (tree : FileTree id) (path : Path) : Decidable (IsFree tree path) :=
  decidable_of_iff (tree.node path = none ∨ (tree.content path).isSome = true) <| by
    simp [IsFree, Option.isSome_iff_exists]

/-- No directory and no link is in the way of the copies to the catalog. -/
def Unobstructed (tree : FileTree id) (destination : Path) : Prop :=
  ∀ name ∈ [manifestName, signatureName, "manifest.part", "manifest.sig.part"],
    IsFree tree (destination ++ [name])

instance (tree : FileTree id) (destination : Path) : Decidable (Unobstructed tree destination) :=
  inferInstanceAs (Decidable (∀ name ∈ _, _))

theorem IsFree.directoryExists (h : IsFree tree path) : tree.directoryExists path = false := by
  unfold FileTree.directoryExists
  rcases h with hnone | ⟨content, hfile⟩
  · rw [hnone]
  · rw [hfile]

theorem withExtension_concat (directory : Path) (name extension : Text) :
    withExtension (directory ++ [name]) extension =
      directory ++ [fileStem name ++ '.' :: extension] := by
  unfold withExtension
  rw [dropLast_concat, getLastD_concat]

theorem ensures_atomicCopy {directory : Path} {part : Text} {bytes : Bytes}
    (hsource : start.tree.content source = some bytes)
    (hdirectory : start.tree.node directory = some .directory)
    (hpart : fileStem name ++ ".part" = part) (hne : part ≠ name)
    (hfree : IsFree start.tree (directory ++ [name]))
    (hpartFree : IsFree start.tree (directory ++ [part])) :
    Ensures (fun state ↦ state = start) (atomicCopy source (directory ++ [name])) (fun _ ↦ True)
      (fun _ state ↦ ∀ other, state.tree.node other =
        if other = directory ++ [name] then some (.file bytes)
        else if other = directory ++ [part] then none else start.tree.node other)
      fun _ _ ↦ False := by
  have hpartPath : withExtension (directory ++ [name]) "part" = directory ++ [part] := by
    rw [withExtension_concat, ← hpart]
    rfl
  have hpaths : directory ++ [name] ≠ directory ++ [part] := fun heq ↦ by
    simp only [append_cancel_left_eq, List.cons.injEq, and_true] at heq
    exact hne heq.symm
  unfold atomicCopy
  rw [hpartPath]
  refine ensures_bind (fun content state ↦ content = bytes ∧ state = start) (ensures_look ?_ ?_)
    fun content ↦ ensures_assume ?_
  · rintro state content rfl hcontent
    rw [orThrow_eq_ok, hsource] at hcontent
    exact ⟨(Option.some.inj hcontent).symm, rfl⟩
  · rintro state failure rfl hfailure
    rw [orThrow_eq_error, hsource] at hfailure
    cases hfailure.1
  rintro rfl
  refine ensures_bind (fun _ state ↦ ∀ other, state.tree.node other =
      if other = directory ++ [part] then some (.file content) else start.tree.node other)
    (ensures_change ?_ ?_) fun _ ↦ ensures_change ?_ ?_
  · rintro state made rfl hmade other
    have hnode := (writeFile_eq_ok hmade).2 other
    simpa only [pathKey_id] using hnode
  · rintro state failure rfl hfailure
    have hadmits : state.tree.Admits (directory ++ [part]) :=
      ⟨by simp, by rwa [dropLast_concat], node_ne_directory hpartFree.directoryExists⟩
    obtain ⟨made, hmade⟩ : ∃ made, state.tree.writeFile (directory ++ [part]) content = .ok made :=
      writeFile_of_admits hadmits hpartFree.directoryExists
    rw [hmade] at hfailure
    cases hfailure
  · intro state made hstate hmade other
    obtain ⟨moved, hmoved, -, -, hnode⟩ := moveFile_eq_ok hmade
    simp only [pathKey_id] at hnode
    rw [hstate, if_pos rfl] at hmoved
    rw [hnode, ← Option.some.inj hmoved, hstate]
    split_ifs
    · rfl
    · rfl
    · rfl
  · intro state failure hstate hfailure
    have hfile : state.tree.fileExists (directory ++ [part]) = true := by
      rw [fileExists, hstate, if_pos rfl]
    have hparent : state.tree.node (directory ++ [name]).dropLast = some .directory := by
      rw [dropLast_concat, hstate, if_neg (by simp), hdirectory]
    have hexists : state.tree.directoryExists (directory ++ [name]) = false := by
      rw [FileTree.directoryExists, hstate, if_neg hpaths]
      exact hfree.directoryExists
    obtain ⟨made, hmade⟩ := moveFile_of_clear hfile (by simp) hparent hexists
    rw [hmade] at hfailure
    cases hfailure

theorem ensures_atomicCopy_of_missing {property : CommandState Signature → Prop}
    (hmissing : ∀ state, property state → state.tree.content source = none) :
    Ensures property (atomicCopy source destination) (fun _ ↦ True) (fun _ _ ↦ False)
      fun _ ↦ property := by
  refine ensures_bind (fun _ _ ↦ False) (ensures_look ?_ fun _ _ h _ ↦ h) fun _ ↦ ?_
  · intro state bytes hstate hbytes
    rw [orThrow_eq_ok, hmissing state hstate] at hbytes
    cases hbytes
  · exact fun _ h ↦ h.elim

theorem ne_of_name_ne {first second : Path} {other : Text} (h : name ≠ other) :
    first ++ [name] ≠ second ++ [other] := by
  intro heq
  have hlast := congrArg List.getLast? heq
  rw [List.getLast?_concat, List.getLast?_concat] at hlast
  exact h (Option.some.inj hlast)

/-- The copies succeed when the package is there and nothing is in the way. -/
theorem ensures_copyToCatalog
    (hmanifest : start.tree.content (command.package ++ [manifestName]) =
      some package.manifestBytes)
    (hsignature : start.tree.content (command.package ++ [signatureName]) =
      some package.signatureBytes)
    (hdirectory : start.tree.node (command.destination package.manifest.buildId) = some .directory)
    (hfree : Unobstructed start.tree (command.destination package.manifest.buildId)) :
    Ensures (fun state ↦ state = start) (command.copyToCatalog package.manifest) (fun _ ↦ True)
      (fun _ state ↦ CatalogMatches command package state.tree) fun _ _ ↦ False := by
  have hmanifestPart : fileStem manifestName ++ ".part" = "manifest.part" := by decide
  have hsignaturePart : fileStem signatureName ++ ".part" = "manifest.sig.part" := by
    decide
  refine ensures_bind _ (ensures_atomicCopy hmanifest hdirectory hmanifestPart (by decide)
    (hfree _ (by simp)) (hfree _ (by simp))) fun _ ↦ ?_
  refine ensures_of_state fun state hstate ↦ ?_
  -- the first copy touches nothing of the second
  have hother (directory : Path) (name : Text) (hname : name ≠ manifestName)
      (hpart : name ≠ "manifest.part") :
      state.tree.node (directory ++ [name]) = start.tree.node (directory ++ [name]) := by
    rw [hstate, if_neg (ne_of_name_ne hname), if_neg (ne_of_name_ne hpart)]
  have hsource : state.tree.content (command.package ++ [signatureName]) =
      some package.signatureBytes := by
    rw [content, hother _ _ (by decide) (by decide)]
    exact hsignature
  have hmade : state.tree.node (command.destination package.manifest.buildId) =
      some .directory := by
    rw [hstate, if_neg (by simp), if_neg (by simp), hdirectory]
  have hstill (name : Text) (hmem : name ∈ [signatureName, "manifest.sig.part"])
      (hname : name ≠ manifestName) (hpart : name ≠ "manifest.part") :
      IsFree state.tree (command.destination package.manifest.buildId ++ [name]) := by
    unfold IsFree
    rw [hother _ _ hname hpart]
    refine hfree name ?_
    rcases mem_pair.mp hmem with rfl | rfl
    · simp
    · simp
  refine (ensures_atomicCopy hsource hmade hsignaturePart (by decide)
    (hstill _ (by simp) (by decide) (by decide))
    (hstill _ (by simp) (by decide) (by decide))).mono (fun _ h ↦ h)
    (fun _ h ↦ h) (fun _ final hfinal ↦ ?_) fun _ _ h ↦ h
  constructor
  · rw [content_eq_some, hfinal, if_neg (ne_of_name_ne (by decide)),
      if_neg (ne_of_name_ne (by decide)), hstate, if_pos rfl]
  · rw [content_eq_some, hfinal, if_pos rfl]

/-- After a cleanup the copies to the catalog change nothing, because the package is gone or the
cleanup has failed. -/
theorem ensures_cleanup_copy (hpackage : start.tree.node command.package = some .directory) :
    Ensures (fun state ↦ state = start)
      (command.cleanupAfterPublish manifest >>= fun _ ↦ command.copyToCatalog manifest)
      (fun _ ↦ True) (fun _ ↦ CleanedUp command manifest start)
      fun _ ↦ CleanedUp command manifest start := by
  refine ensures_bind _ (ensures_cleanupAfterPublish hpackage) fun _ ↦ ?_
  refine ensures_bind (fun _ _ ↦ False) ((ensures_atomicCopy_of_missing fun state hstate ↦
    hstate.2 _ (.inl List.getLast?_concat) (prefix_append _ _)).mono (fun _ h ↦ h)
    (fun _ h ↦ h) (fun _ _ h ↦ h) fun _ _ h ↦ h.1) fun _ ↦ ?_
  exact fun _ h ↦ h.elim

theorem catalogMatches_of_cleanedUp {final : CommandState Signature}
    (h : CleanedUp command package.manifest published final) :
    CatalogMatches command package final.tree ↔ CatalogMatches command package published.tree ∧
      ∀ name ∈ [manifestName, signatureName], ¬ CleanupRemoves command package.manifest published
          (command.destination package.manifest.buildId ++ [name]) := by
  have hmanifest := h (command.destination package.manifest.buildId ++ [manifestName])
    (.inl List.getLast?_concat)
  have hsignature := h (command.destination package.manifest.buildId ++ [signatureName])
    (.inr List.getLast?_concat)
  rw [forall_mem_cons, forall_mem_singleton]
  constructor
  · rintro ⟨hfirst, hsecond⟩
    have hkeptFirst : ¬ CleanupRemoves command package.manifest published
        (command.destination package.manifest.buildId ++ [manifestName]) := by
      intro hremoved
      rw [hmanifest.1 hremoved] at hfirst
      cases hfirst
    have hkeptSecond : ¬ CleanupRemoves command package.manifest published
        (command.destination package.manifest.buildId ++ [signatureName]) := by
      intro hremoved
      rw [hsignature.1 hremoved] at hsecond
      cases hsecond
    rw [hmanifest.2 hkeptFirst] at hfirst
    rw [hsignature.2 hkeptSecond] at hsecond
    exact ⟨⟨hfirst, hsecond⟩, hkeptFirst, hkeptSecond⟩
  · rintro ⟨⟨hfirst, hsecond⟩, hkeptFirst, hkeptSecond⟩
    rw [← hmanifest.2 hkeptFirst] at hfirst
    rw [← hsignature.2 hkeptSecond] at hsecond
    exact ⟨hfirst, hsecond⟩

/-- What the command leaves in the catalog. Assumes: the publication has succeeded in the state
`published`, where no directory and no link is in the way of the copies. Then the database, when
there is one, holds what was read from the package, and the catalog holds the same in the end
exactly when the cleanup is not configured, or the catalog held it before and the cleanup does not
remove it. -/
theorem catalogMatches_iff (hpackage : (command.publishPhase start).result = .ok package)
    (hpublished : published = (command.publishPhase start).final)
    (hfree : Unobstructed published.tree (command.destination package.manifest.buildId)) :
    Stored package published ∧ (CatalogMatches command package (command.run start).final.tree ↔
        command.cleanupEnabled = false ∨ CatalogMatches command package published.tree ∧
            ∀ name ∈ [manifestName, signatureName],
              ¬ CleanupRemoves command package.manifest published
                (command.destination package.manifest.buildId ++ [name])) := by
  have hphases : Ensures (fun state ↦ state = start) command.publishPhase _ _ _ :=
    ensures_publishPhase
  obtain ⟨-, hphase, -⟩ := hphases start rfl
  obtain ⟨hread, hundisturbed, hdirectory, hstored⟩ := hphase package hpackage
  rw [← hpublished] at hundisturbed hdirectory hstored
  obtain ⟨hmanifest, hsignature⟩ := readPackage_eq_ok hread
  rw [← hundisturbed.files _ (.inl List.getLast?_concat)] at hmanifest
  rw [← hundisturbed.files _ (.inr List.getLast?_concat)] at hsignature
  refine ⟨hstored, ?_⟩
  have hrun : (command.run start).final = (command.finishPhase package published).final := by
    rw [hpublished]
    exact final_bind_of_ok hpackage
  rw [hrun]
  unfold finishPhase
  cases hcleanup : command.cleanupEnabled with
  | false =>
    simp only [Bool.false_eq_true, if_false, true_or, iff_true]
    obtain ⟨-, hok, herror⟩ :=
      ensures_copyToCatalog hmanifest hsignature hdirectory hfree published rfl
    cases hresult : (command.copyToCatalog package.manifest published).result with
    | ok value => exact hok value hresult
    | error failure => exact (herror failure hresult).elim
  | true =>
    simp only [if_true, Bool.true_eq_false, false_or]
    -- however the cleanup ends, the copies change nothing
    have hparent : published.tree.node command.package = some .directory := by
      have hne : published.tree.node (command.package ++ [manifestName]) ≠ none := by
        rw [content_eq_some.mp hmanifest]
        exact Option.some_ne_none _
      have hdrop := published.tree.parent_directory _ hne (by simp)
      rwa [dropLast_concat] at hdrop
    obtain ⟨-, hok, herror⟩ := ensures_cleanup_copy hparent published rfl
    refine catalogMatches_of_cleanedUp ?_
    cases hresult : (command.cleanupAfterPublish package.manifest >>= fun _ ↦
        command.copyToCatalog package.manifest) published |>.result with
    | ok value => exact hok value hresult
    | error failure => exact herror failure hresult

end Final

/-! ### A package with one empty file -/

/-- The manifest of a build that consists of one empty file. -/
def demoManifest : Manifest where
  schemaVersion := 1
  manifestId := "m1"
  gameId := "demo"
  buildId := "demo-1"
  displayVersion := "1.0"
  chunking := .standard
  encoding := .standard
  files := [⟨"demo.exe", 0, "af1349b9f5f9a1a6a0404dea36dcc9499bcb25c9adc112b7cc9a93cae41f3262", []⟩]
  launch := ⟨"demo.exe", "."⟩

def demoManifestText : Text :=
  ("\x7b\"schema_version\":1,\"manifest_id\":\"m1\",\"game_id\":\"demo\",\"build_id\":\"" ++
    "demo-1\",\"display_version\":\"1.0\",\"generated_at\":\"2026-01-01T00:00:00Z\",\"chu" ++
    "nking\":\x7b\"algorithm\":\"fastcdc\",\"format_version\":1,\"minimum_bytes\":1048576" ++
    ",\"average_bytes\":4194304,\"maximum_bytes\":16777216\x7d,\"encoding\":\x7b\"id\":\"" ++
    "zstd-v1-level-3\",\"level\":3\x7d,\"files\":[\x7b\"path\":\"demo.exe\",\"size\":0,\"" ++
    "blake3\":\"af1349b9f5f9a1a6a0404dea36dcc9499bcb25c9adc112b7cc9a93cae41f3262\",\"chun" ++
    "ks\":[]\x7d],\"launch\":\x7b\"executable\":\"demo.exe\",\"working_directory\":\".\"" ++
    "\x7d\x7d").toList

def demoSignatureText : Text :=
  ("\x7b\"schema_version\":1,\"algorithm\":\"rsa-sha256-pkcs1-v1_5\",\"key_id\":\"local" ++
    "\",\"manifest_blake3\":\"7e80d19de175fce560b51f17539f1a7dc51174ef084755fce89a266f3e9" ++
    "83656\",\"signature_base64\":\"sP7xLlEJ+EPrLTt4AkHA8qUjgzl45EFk35MXZy+Ssp0CPzknfBAb0" ++
    "c/5bx9Spfe0LjXTj2sv30UblIn2cpm0Ww==\",\"public_key_base64\":\"MFwwDQYJKoZIhvcNAQEBBQ" ++
    "ADSwAwSAJBANcQn8vAAOxEKwVMRSl8x13zjG9NC18SNW3NB/tgIYYpIZw7/dRgqXdiIvT999oEq06V344+e/" ++
    "gBeI5WvBlLvJECAwEAAQ==\"\x7d").toList

/-- The command for the package in `/data/pkg`, with the storage root `/data` and the catalog
`/catalog`. -/
def demoCommand (cleanupEnabled : Bool) : PublishCommand Text where
  package := ["data", "pkg"]
  destination buildId := ["catalog", buildId]
  storageRoot := ["data"]
  objectDirectory := ["data", "chunks", "encoded"]
  cleanupEnabled := cleanupEnabled
  publication manifest := { mirrorPublication false [] [] with manifest, packsEnabled := false }
  publication_manifest _ := rfl
  storage := ⟨[]⟩
  clock number := number
  validateJson _ := some demoManifest
  parseSignature _ := some demoSignatureText
  verifyBytes _ _ := true
  markerPath text := [text]
  decodeUtf8 _ := none
  hash _ := .zero
  walk := id
  walk_perm _ := .refl _

/-- The package as it was built. -/
def demoTree : FileTree id :=
  .ofEntries
    [([], .directory), (["catalog"], .directory), (["data"], .directory),
      (["data", "pkg"], .directory),
      (["data", "pkg", manifestName], .file (utf8 demoManifestText)),
      (["data", "pkg", signatureName], .file (utf8 demoSignatureText)),
      (["data", "pkg", "chunks"], .directory),
      (["data", "pkg", "chunks", "encoded"], .directory)]
    (by decide) (by decide)

/-- The package, and an empty database. -/
def demoStart : CommandState Text := ⟨demoTree, some ⟨emptyCatalog, fun _ ↦ none, fun _ ↦ none⟩⟩

/-- What the command reads from the package. -/
def demoPackage : VerifiedPackage Text :=
  ⟨demoManifest, utf8 demoManifestText, utf8 demoSignatureText, demoSignatureText⟩

theorem demo_published (cleanupEnabled : Bool) :
    ((demoCommand cleanupEnabled).publishPhase demoStart).result = .ok demoPackage := by
  have hsome : ((demoCommand cleanupEnabled).publishPhase demoStart).result.toOption.isSome := by
    cases cleanupEnabled <;> decide
  have hread : (demoCommand cleanupEnabled).readPackage demoStart.tree = .ok demoPackage := rfl
  obtain ⟨package, hpackage⟩ := Option.isSome_iff_exists.mp hsome
  rw [toOption_eq_some] at hpackage
  have hphase : Ensures (fun state ↦ state = demoStart) (demoCommand cleanupEnabled).publishPhase
    _ _ _ := ensures_publishPhase
  obtain ⟨hsame, -⟩ := (hphase _ rfl).2.1 package hpackage
  rw [hread] at hsame
  rw [hpackage, hsame]

theorem demo_unobstructed (cleanupEnabled : Bool) :
    Unobstructed ((demoCommand cleanupEnabled).publishPhase demoStart).final.tree
      ((demoCommand cleanupEnabled).destination demoManifest.buildId) := by
  cases cleanupEnabled <;> decide

theorem catalogMatches_iff_demo :
    CatalogMatches (demoCommand false) demoPackage ((demoCommand false).run demoStart).final.tree :=
  (catalogMatches_iff (demo_published false) rfl (demo_unobstructed false)).2.mpr (.inl rfl)

/-- With the cleanup configured the build is published, and the catalog has no manifest. -/
theorem published_without_catalog :
    ((demoCommand true).publishPhase demoStart).result = .ok demoPackage ∧
      Unobstructed ((demoCommand true).publishPhase demoStart).final.tree
        ((demoCommand true).destination demoManifest.buildId) ∧
      ¬ CatalogMatches (demoCommand true) demoPackage
        ((demoCommand true).run demoStart).final.tree := by
  refine ⟨demo_published true, demo_unobstructed true, fun hmatches ↦ ?_⟩
  have hnone : ((demoCommand true).run demoStart).final.tree.content
      ((demoCommand true).destination demoPackage.manifest.buildId ++ [manifestName]) = none := by
    decide
  rw [hmatches.manifest] at hnone
  cases hnone

end GameLauncher.Catalog
