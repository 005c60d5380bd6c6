import GameLauncher.Catalog.CatalogCopy

/-!
# What the cleanup of the staging files deletes

`cleanup_after_publish` checks the package and the recorded source, then checks and deletes the
staging objects one after another, and then deletes the package, the source, the handoff beside it
and the directories that have become empty.

`cleansUp_iff` shows when it deletes nothing but these, all below the storage root, and has deleted
nothing when one of its validations fails: no object that is checked after a deletion may be
refused, the source may not be the storage root, the handoff must be a file, and the directory of
the objects must be below the root.
-/

set_option autoImplicit false

namespace GameLauncher.Catalog

open Foundation Fallible Foundation.Process Manifests PublishCommand List FileTree

namespace PublishCommand

variable {Signature : Type} (command : PublishCommand Signature)

/-! ### What may be deleted -/

def handoff (source : Path) : Path := source.dropLast ++ ["handoff.json".toList]

def IsBelowRoot (path : Path) : Prop := command.storageRoot <+: path ∧ path ≠ command.storageRoot

/-- A staging object that the checks of the cleanup accept. -/
def Passes (tree : FileTree id) (object : Text × Text) : Prop :=
  ∃ present, command.checkStagingObject object tree = .ok present

instance (tree : FileTree id) : DecidablePred (command.Passes tree) := fun object ↦
  match h : command.checkStagingObject object tree with
  | .ok present => .isTrue ⟨present, h⟩
  | .error failure => .isFalse fun ⟨present, hpresent⟩ ↦ by rw [hpresent] at h; cases h

/-- The paths of the objects up to the first one that is refused. -/
def acceptedObjects (objects : List (Text × Text)) (tree : FileTree id) : List Path :=
  (objects.takeWhile fun object ↦ command.Passes tree object).map fun object ↦
    command.stagingObject object.2

/-- The objects that are deleted: those of them that are there. -/
def removedObjects (objects : List (Text × Text)) (tree : FileTree id) : List Path :=
  (command.acceptedObjects objects tree).filter fun path ↦ (tree.node path).isSome

/-- What the cleanup may delete: the package, the recorded source and the handoff beside it,
verified staging objects, and directories that are empty in the end. -/
def MayDelete (manifest : Manifest) (start final : FileTree id) (path : Path) : Prop :=
  command.package <+: path ∨
  (∃ source, command.checkStaging start = .ok (some source) ∧
    (source <+: path ∨ path = handoff source)) ∨
  (∃ object ∈ stagingObjects manifest, path = command.stagingObject object.2 ∧
    ∃ bytes, start.node path = some (.file bytes) ∧ (command.hash bytes).hex = object.2) ∨
  start.node path = some .directory ∧ ∀ below, below ≠ [] → final.node (path ++ below) = none

/-- The cleanup deletes nothing else, and nothing at or outside the storage root. -/
def Confined (manifest : Manifest) (start final : FileTree id) : Prop :=
  ∀ path, final.node path ≠ start.node path →
    final.node path = none ∧ command.IsBelowRoot path ∧ command.MayDelete manifest start final path

/-- The cleanup is confined, and deletes nothing when a validation fails. -/
def CleansUp (manifest : Manifest) (start : CommandState Signature) : Prop :=
  command.Confined manifest start.tree (command.cleanupAfterPublish manifest start).final.tree ∧
    ∀ message, (command.cleanupAfterPublish manifest start).result = .error (.bail message) →
      ∀ path, (command.cleanupAfterPublish manifest start).final.tree.node path =
        start.tree.node path

/-- A handoff that the cleanup refuses to delete. -/
def HandoffRefused (tree : FileTree id) (source : Path) : Prop :=
  handoff source ≠ source ∧ handoff source ≠ command.package ∧
    ∃ node, tree.node (handoff source) = some node ∧ ∀ bytes, node ≠ .file bytes

/-- A cleanup that passes its first checks is safe: the objects that it deletes are below the root,
none is refused after a deletion, and neither the source nor its handoff is refused once the package
is gone. -/
structure SafeAfterChecks (manifest : Manifest) (tree : FileTree id) (source : Option Path) :
    Prop where
  below : command.removedObjects (stagingObjects manifest) tree ≠ [] →
    command.storageRoot <+: command.objectDirectory
  accepted : command.removedObjects (stagingObjects manifest) tree ≠ [] →
    ∀ object ∈ stagingObjects manifest, command.Passes tree object
  removable : (∀ object ∈ stagingObjects manifest, command.Passes tree object) →
    tree.node command.package = some .directory →
      ∀ found ∈ source, found ∉ command.removedObjects (stagingObjects manifest) tree →
        found ≠ command.storageRoot ∧ ¬ command.HandoffRefused tree found

/-! ### The first checks -/

/-- What the first checks establish. -/
structure Checked (tree : FileTree id) (source : Option Path) : Prop where
  package_below : command.IsBelowRoot command.package
  package_link : tree.isReparsePoint command.package = false
  source_inside : ∀ found ∈ source, command.storageRoot <+: found
  source_present : ∀ found ∈ source, tree.node found ≠ none
  source_link : ∀ found ∈ source, tree.isReparsePoint found = false
  source_outside : ∀ found ∈ source, ¬ command.package <+: found

variable {command} {tree : FileTree id}

variable {path : Path}

theorem validateStagingPath_eq_ok {label : Text} {u : Unit} :
    command.validateStagingPath path label tree = .ok u ↔
      tree.node path ≠ none ∧ tree.isReparsePoint path = false ∧ command.storageRoot <+: path := by
  simp [validateStagingPath]

theorem checked_of_checkStaging {source : Option Path}
    (h : command.checkStaging tree = .ok source) : command.Checked tree source := by
  simp only [checkStaging, bind_eq_ok, throwIf_eq_ok, pure_eq_ok, validateStagingPath_eq_ok] at h
  obtain ⟨_, -, _, ⟨-, hlink, hroot⟩, _, hne, marked, hmarked, _, houtside, rfl⟩ := h
  have hsource : ∀ found ∈ marked, tree.node found ≠ none ∧ tree.isReparsePoint found = false ∧
      command.storageRoot <+: found := by
    unfold readSourceMarker at hmarked
    dsimp only at hmarked
    split at hmarked
    · rw [← Except.ok.inj hmarked]
      rintro _ ⟨⟩
    · simp only [bind_eq_ok, pure_eq_ok, validateStagingPath_eq_ok] at hmarked
      obtain ⟨path, -, _, hvalid, rfl⟩ := hmarked
      rintro _ ⟨⟩
      exact hvalid
    · cases hmarked
  refine ⟨⟨hroot, hne⟩, hlink, fun found hfound ↦ (hsource found hfound).2.2,
    fun found hfound ↦ (hsource found hfound).1, fun found hfound ↦ (hsource found hfound).2.1,
    fun found hfound hinside ↦ houtside ?_⟩
  exact (Option.any_eq_true _ _).mpr ⟨found, hfound, isPrefixOf_iff_prefix.mpr hinside⟩

/-! ### The staging objects -/

variable {object : Text × Text} {objects : List (Text × Text)}

/-- A tree in which some paths have been removed. -/
def Without (start final : FileTree id) (removed : Path → Prop) [DecidablePred removed] : Prop :=
  ∀ path, final.node path = if removed path then none else start.node path

theorem stagingObject_injective : Function.Injective command.stagingObject := by
  intro first second h
  have hnames := append_cancel_left h
  exact append_cancel_right (singleton_inj.mp hnames)

theorem checkStagingObject_eq_ok {present : Bool} :
    command.checkStagingObject object tree = .ok present ↔
      object.1 = expectedKey object.2 ∧ isLowerHexHash object.2 = true ∧
        (tree.node (command.stagingObject object.2) = none ∧ present = false ∨
          ∃ bytes, tree.node (command.stagingObject object.2) = some (.file bytes) ∧
            (command.hash bytes).hex = object.2 ∧ present = true) := by
  simp only [checkStagingObject, bind_eq_ok, throwIf_eq_ok, exists_const, not_not,
    Bool.not_eq_false]
  refine and_congr_right fun _ ↦ and_congr_right fun _ ↦ ?_
  split
  · next hnode =>
    simp only [hnode, pure_eq_ok, true_and, reduceCtorEq, false_and, exists_false, or_false]
    exact eq_comm
  · next bytes hnode =>
    simp only [hnode, bind_eq_ok, throwIf_eq_ok, exists_const, not_not, pure_eq_ok, reduceCtorEq,
      false_and, false_or, Option.some.injEq, Node.file.injEq, exists_eq_left']
    exact and_congr_right fun _ ↦ eq_comm
  · next node hother hnode =>
    refine iff_of_false (by rintro ⟨⟩) ?_
    rintro (⟨hnone, -⟩ | ⟨bytes, hfile, -⟩)
    · cases hnode.symm.trans hnone
    · exact hother bytes (Option.some.inj (hnode.symm.trans hfile))

theorem passes_iff : command.Passes tree object ↔
    object.1 = expectedKey object.2 ∧ isLowerHexHash object.2 = true ∧
      (tree.node (command.stagingObject object.2) = none ∨
        ∃ bytes, tree.node (command.stagingObject object.2) = some (.file bytes) ∧
          (command.hash bytes).hex = object.2) := by
  simp only [Passes, checkStagingObject_eq_ok]
  constructor
  · rintro ⟨present, hkey, hhex, ⟨hnone, -⟩ | ⟨bytes, hnode, hhash, -⟩⟩
    · exact ⟨hkey, hhex, .inl hnone⟩
    · exact ⟨hkey, hhex, .inr ⟨bytes, hnode, hhash⟩⟩
  · rintro ⟨hkey, hhex, hnone | ⟨bytes, hnode, hhash⟩⟩
    · exact ⟨false, hkey, hhex, .inl ⟨hnone, rfl⟩⟩
    · exact ⟨true, hkey, hhex, .inr ⟨bytes, hnode, hhash, rfl⟩⟩

theorem checkStagingObject_eq_error {failure : CommandError}
    (h : command.checkStagingObject object tree = .error failure) :
    (∃ message, failure = .bail message) ∧ ¬ command.Passes tree object := by
  refine ⟨?_, fun ⟨present, hpresent⟩ ↦ by rw [hpresent] at h; cases h⟩
  simp only [checkStagingObject, bind_eq_error, throwIf_eq_error, throwIf_eq_ok] at h
  rcases h with ⟨-, rfl⟩ | ⟨_, -, ⟨-, rfl⟩ | ⟨_, -, h⟩⟩
  · exact ⟨_, rfl⟩
  · exact ⟨_, rfl⟩
  · split at h
    · cases h
    · rw [bind_eq_error, throwIf_eq_error] at h
      rcases h with ⟨-, rfl⟩ | ⟨_, -, h⟩
      · exact ⟨_, rfl⟩
      · cases h
    · rw [← Except.error.inj h]
      exact ⟨_, rfl⟩

theorem passes_congr {first : FileTree id} {other : Text × Text}
    (hpasses : command.Passes tree object)
    (hremoved : Without tree first (· = command.stagingObject object.2)) :
    command.Passes first other ↔ command.Passes tree other := by
  rw [passes_iff, passes_iff, hremoved]
  refine and_congr_right fun _ ↦ and_congr_right fun _ ↦ ?_
  by_cases hsame : command.stagingObject other.2 = command.stagingObject object.2
  · have hhash : other.2 = object.2 := stagingObject_injective hsame
    rw [if_pos hsame, hhash]
    exact iff_of_true (.inl rfl) (passes_iff.mp hpasses).2.2
  · rw [if_neg hsame]

theorem ensures_removeStagingObject {start : CommandState Signature} :
    Ensures (fun state ↦ state = start) (command.removeStagingObject object) (fun _ ↦ True)
      (fun _ state ↦ command.Passes start.tree object ∧
        Without start.tree state.tree (· = command.stagingObject object.2))
      fun failure state ↦ ((∃ message, failure = .bail message) ∧
        ¬ command.Passes start.tree object) ∧ state = start := by
  refine ensures_bind (fun present state ↦
    command.checkStagingObject object start.tree = .ok present ∧ state = start)
    (ensures_look ?_ ?_) fun present ↦ ensures_assume fun hpresent ↦ ?_
  · rintro _ present rfl hpresent
    exact ⟨hpresent, rfl⟩
  · rintro _ failure rfl hfailure
    exact ⟨checkStagingObject_eq_error hfailure, rfl⟩
  obtain ⟨-, -, ⟨hnone, rfl⟩ | ⟨bytes, hnode, -, rfl⟩⟩ := checkStagingObject_eq_ok.mp hpresent
  · refine ensures_pure ?_
    rintro _ rfl
    refine ⟨⟨false, hpresent⟩, fun path ↦ ?_⟩
    split_ifs with hsame
    · rw [hsame, hnone]
    · rfl
  · rw [if_pos rfl]
    refine ensures_change ?_ ?_
    · rintro _ made rfl hmade
      refine ⟨⟨true, hpresent⟩, fun path ↦ ?_⟩
      have hremoved := deleteFile_eq_ok hmade path
      simp only [pathKey_id] at hremoved
      exact hremoved
    · intro state failure hstate hfailure
      rw [hstate] at hfailure
      have hexists : start.tree.fileExists (command.stagingObject object.2) = true := by
        rw [fileExists, hnode]
      obtain ⟨made, hmade⟩ := deleteFile_of_exists hexists
      rw [hmade] at hfailure
      cases hfailure

theorem acceptedObjects_cons_of_pass {rest : List (Text × Text)} (h : command.Passes tree object) :
    command.acceptedObjects (object :: rest) tree =
      command.stagingObject object.2 :: command.acceptedObjects rest tree := by
  simp only [acceptedObjects, takeWhile_cons, h, decide_true, if_true, map_cons]

theorem acceptedObjects_cons_of_not_pass {rest : List (Text × Text)}
    (h : ¬ command.Passes tree object) : command.acceptedObjects (object :: rest) tree = [] := by
  simp only [acceptedObjects, takeWhile_cons, h, decide_false, Bool.false_eq_true, if_false,
    map_nil]

theorem ensures_removeStagingObjects {start : CommandState Signature} :
    Ensures (fun state ↦ state = start)
      (forEach (fun object _ ↦ command.removeStagingObject object) objects ()) (fun _ ↦ True)
      (fun _ state ↦ (∀ object ∈ objects, command.Passes start.tree object) ∧
        Without start.tree state.tree (· ∈ command.acceptedObjects objects start.tree))
      fun failure state ↦ ((∃ message, failure = .bail message) ∧
        ¬ ∀ object ∈ objects, command.Passes start.tree object) ∧
        Without start.tree state.tree (· ∈ command.acceptedObjects objects start.tree) := by
  induction objects generalizing start with
  | nil =>
    refine ensures_pure ?_
    rintro _ rfl
    exact ⟨nofun, fun path ↦ (if_neg not_mem_nil).symm⟩
  | cons object rest ih =>
    refine ensures_bind _ (ensures_removeStagingObject.mono (fun _ h ↦ h) (fun _ h ↦ h)
      (fun _ _ h ↦ h) ?_) fun _ ↦ ensures_of_state fun state hstate ↦ ?_
    · rintro failure _ ⟨⟨hmessage, hrefused⟩, rfl⟩
      refine ⟨⟨hmessage, fun hall ↦ hrefused (hall object mem_cons_self)⟩, fun path ↦ ?_⟩
      rw [acceptedObjects_cons_of_not_pass hrefused, if_neg not_mem_nil]
    · obtain ⟨hpasses, hremoved⟩ := hstate
      have hsame : command.acceptedObjects rest state.tree =
          command.acceptedObjects rest start.tree := by
        unfold acceptedObjects
        simp only [passes_congr hpasses hremoved]
      have hwithout (final : FileTree id)
          (h : Without state.tree final (· ∈ command.acceptedObjects rest state.tree)) :
          Without start.tree final (· ∈ command.acceptedObjects (object :: rest) start.tree) := by
        intro path
        rw [h path, hremoved path, hsame, acceptedObjects_cons_of_pass hpasses]
        simp only [mem_cons]
        split_ifs <;> tauto
      have hall : (∀ other ∈ rest, command.Passes state.tree other) ↔
          ∀ other ∈ object :: rest, command.Passes start.tree other := by
        simp only [passes_congr hpasses hremoved, forall_mem_cons, hpasses, true_and]
      refine ih.mono (fun _ h ↦ h) (fun _ h ↦ h) ?_ ?_
      · rintro _ final ⟨hrest, hfinal⟩
        exact ⟨hall.mp hrest, hwithout final.tree hfinal⟩
      · rintro failure final ⟨⟨hmessage, hrest⟩, hfinal⟩
        exact ⟨⟨hmessage, fun h ↦ hrest (hall.mpr h)⟩, hwithout final.tree hfinal⟩

/-! ### What the removal of the source deletes -/

def MayDeleteFrom (base : FileTree id) (source : Path) (final : FileTree id) (path : Path) :
    Prop :=
  source <+: path ∨ path = handoff source ∨
    base.node path = some .directory ∧ ∀ below, below ≠ [] → final.node (path ++ below) = none

/-- A tree from which only such paths have been deleted, below the storage root. -/
def DeletedFrom (command : PublishCommand Signature) (base : FileTree id) (source : Path)
    (final : FileTree id) : Prop :=
  ∀ path, final.node path = base.node path ∨
    final.node path = none ∧ command.IsBelowRoot path ∧ MayDeleteFrom base source final path

section Source

variable {base made : FileTree id} {source : Path}

theorem DeletedFrom.of_delete (h : command.DeletedFrom base source tree)
    {removed : Path → Prop} [DecidablePred removed] (hmade : Without tree made removed)
    (hallowed : ∀ path, removed path → tree.node path = base.node path → tree.node path ≠ none →
      command.IsBelowRoot path ∧ MayDeleteFrom base source made path) :
    command.DeletedFrom base source made := by
  intro path
  have hkept {other : Path} (hnone : tree.node other = none) : made.node other = none := by
    rw [hmade other, hnone, ite_self]
  rcases h path with hsame | ⟨hnone, hbelow, hmay⟩
  · by_cases hremoved : removed path
    · by_cases hpresent : tree.node path = none
      · exact .inl (by rw [hkept hpresent, ← hsame, hpresent])
      · have hmadeNone : made.node path = none := by rw [hmade path, if_pos hremoved]
        exact .inr ⟨hmadeNone, hallowed path hremoved hsame hpresent⟩
    · exact .inl (by rw [hmade path, if_neg hremoved, hsame])
  · refine .inr ⟨hkept hnone, hbelow, hmay.imp_right (Or.imp_right ?_)⟩
    rintro ⟨hdirectory, hempty⟩
    exact ⟨hdirectory, fun below hne ↦ hkept (hempty below hne)⟩

/-- The state of the tree of a process. -/
abbrev Leaves (property : FileTree id → Prop) (state : CommandState Signature) : Prop :=
  property state.tree

theorem isBelowRoot_of_below (hroot : command.storageRoot <+: source)
    (hne : source ≠ command.storageRoot) (h : source <+: path) : command.IsBelowRoot path := by
  refine ⟨hroot.trans h, fun hsame ↦ hne ?_⟩
  rw [hsame] at h
  exact h.eq_of_length_le hroot.length_le

theorem dropLast_of_below (hroot : command.storageRoot <+: path) (hne : path ≠ command.storageRoot)
    : command.storageRoot <+: path.dropLast := by
  obtain ⟨rest, rfl⟩ := hroot
  have hrest : rest ≠ [] := fun hnil ↦ hne (by rw [hnil, append_nil])
  rw [dropLast_append_of_ne_nil hrest]
  exact prefix_append _ _

theorem isBelowRoot_handoff (hroot : command.storageRoot <+: source)
    (hne : source ≠ command.storageRoot) : command.IsBelowRoot (handoff source) := by
  have hparent := dropLast_of_below hroot hne
  refine ⟨hparent.trans (prefix_append _ _), fun hsame ↦ ?_⟩
  have hlength := hparent.length_le
  rw [← hsame, handoff, length_append] at hlength
  simp at hlength

/-- A file or a directory that is no link can be deleted, with all below it. -/
theorem ensures_removeStagingPath_exact {start : CommandState Signature}
    (hroot : command.storageRoot <+: source) (hlink : start.tree.isReparsePoint source = false) :
    Ensures (fun state ↦ state = start) (command.removeStagingPath source) (fun _ ↦ True)
      (fun removed state ↦ if removed then source ≠ command.storageRoot ∧
          start.tree.node source ≠ none ∧ Without start.tree state.tree (source <+: ·)
        else start.tree.node source = none ∧ state = start)
      fun failure state ↦ ((∃ message, failure = .bail message) ∧
        source = command.storageRoot ∧ start.tree.node source ≠ none) ∧ state = start := by
  refine ensures_bind (fun found state ↦ command.checkRemoval source start.tree = .ok found ∧
    state = start) (ensures_look ?_ ?_) fun found ↦ ensures_assume fun hfound ↦ ?_
  · rintro _ found rfl hfound
    exact ⟨hfound, rfl⟩
  · rintro state failure rfl hfailure
    unfold checkRemoval at hfailure
    split at hfailure
    · cases hfailure
    · next hnode =>
      rw [isReparsePoint, hnode] at hlink
      cases hlink
    · next node hnolink hnode =>
      simp only [bind_eq_error, throwIf_eq_error] at hfailure
      rcases hfailure with ⟨houtside, rfl⟩ | ⟨_, -, hfailure⟩
      · refine ⟨⟨⟨_, rfl⟩, houtside.resolve_right (not_not_intro hroot), ?_⟩, rfl⟩
        rw [hnode]
        exact Option.some_ne_none _
      · cases hfailure
  unfold checkRemoval at hfound
  split at hfound
  · next hnode =>
    obtain rfl := Except.ok.inj hfound
    refine ensures_pure ?_
    rintro _ rfl
    exact ⟨hnode, rfl⟩
  · cases hfound
  · next node hnolink hnode =>
    simp only [bind_eq_ok, throwIf_eq_ok, exists_const, pure_eq_ok, not_or] at hfound
    obtain ⟨⟨hne, -⟩, rfl⟩ := hfound
    have hpresent : start.tree.node source ≠ none := by
      rw [hnode]
      exact Option.some_ne_none _
    obtain ⟨made, hmade, hnodes⟩ := exists_removed hnode hnolink
    refine ensures_bind (fun _ state ↦ Without start.tree state.tree (source <+: ·))
      (ensures_change ?_ ?_) fun _ ↦ ensures_pure fun _ h ↦ ⟨hne, hpresent, h⟩
    · rintro state other rfl hother
      obtain rfl : made = other := Except.ok.inj (hmade.symm.trans hother)
      exact hnodes
    · rintro state failure rfl hfailure
      cases hmade.symm.trans hfailure

def InvalidHandoff (tree : FileTree id) (source : Path) : Prop :=
  handoff source ≠ source ∧
    ∃ node, tree.node (handoff source) = some node ∧ ∀ bytes, node ≠ .file bytes

theorem ensures_removeGeneratedHandoff {start : CommandState Signature} :
    Ensures (fun state ↦ state = start) (removeGeneratedHandoff source) (fun _ ↦ True)
      (fun _ state ↦ ¬ InvalidHandoff start.tree source ∧
        (state = start ∨ Without start.tree state.tree (· = handoff source)))
      fun failure state ↦ ((∃ message, failure = .bail message) ∧
        InvalidHandoff start.tree source) ∧ state = start := by
  refine ensures_bind (fun node state ↦ start.tree.node (handoff source) = node ∧ state = start)
    (ensures_look ?_ ?_) fun node ↦ ensures_assume fun hnode ↦ ?_
  · rintro _ node rfl hnode
    exact ⟨Except.ok.inj hnode, rfl⟩
  · rintro _ failure rfl hfailure
    cases hfailure
  rw [show source.dropLast ++ ["handoff.json".toList] = handoff source from rfl]
  by_cases hsame : handoff source = source
  · rw [if_pos hsame]
    exact ensures_pure fun state hstate ↦ ⟨fun hinvalid ↦ hinvalid.1 hsame, .inl hstate⟩
  rw [if_neg hsame]
  split
  · refine ensures_pure fun state hstate ↦ ⟨?_, .inl hstate⟩
    rintro ⟨-, other, hother, -⟩
    rw [hnode] at hother
    cases hother
  · next bytes =>
    have hvalid : ¬ InvalidHandoff start.tree source := by
      rintro ⟨-, other, hother, hnofile⟩
      rw [hnode] at hother
      exact hnofile bytes (Option.some.inj hother).symm
    refine ensures_change ?_ ?_
    · rintro state made rfl hmade
      refine ⟨hvalid, .inr fun path ↦ ?_⟩
      have hremoved := deleteFile_eq_ok hmade path
      simp only [pathKey_id] at hremoved
      exact hremoved
    · intro state failure hstate hfailure
      exfalso
      have hexists : start.tree.fileExists (handoff source) = true := by
        rw [fileExists, hnode]
      obtain ⟨made, hmade⟩ := deleteFile_of_exists hexists
      rw [hstate, hmade] at hfailure
      cases hfailure
  · next other hnofile =>
    refine ensures_query (fun _ _ _ hvalue ↦ (by cases hvalue)) ?_
    rintro state failure rfl hfailure
    refine ⟨⟨⟨_, (Except.error.inj hfailure).symm⟩, hsame, _, hnode, fun bytes hbytes ↦ ?_⟩, rfl⟩
    exact hnofile bytes hbytes

theorem ensures_removeEmptyParentDirs {depth : ℕ} {current : Path}
    (hroot : command.storageRoot <+: current) :
    Ensures (Leaves (command.DeletedFrom base source))
      (command.removeEmptyParentDirs depth current) (fun _ ↦ True)
      (fun _ ↦ Leaves (command.DeletedFrom base source))
      fun failure state ↦ (∀ message, failure ≠ .bail message) ∧
        command.DeletedFrom base source state.tree := by
  induction depth generalizing current with
  | zero => exact ensures_pure fun _ h ↦ h
  | succ depth ih =>
    refine ensures_bind (fun stop state ↦ command.DeletedFrom base source state.tree ∧
      (stop = false → current ≠ command.storageRoot ∧
        state.tree.node current = some .directory)) (ensures_look ?_ ?_) fun stop ↦ ?_
    · intro state stop hstate hstop
      refine ⟨hstate, fun hgo ↦ ?_⟩
      simp only [checkParent, bind_eq_ok, throwIf_eq_ok, exists_const] at hstop
      obtain ⟨-, hstop⟩ := hstop
      split_ifs at hstop with hsame
      · rw [← Except.ok.inj hstop] at hgo
        cases hgo
      · simp only [bind_eq_ok, throwIf_eq_ok, exists_const, not_not] at hstop
        exact ⟨hsame, hstop.2.1⟩
    · intro state failure hstate hfailure
      refine ⟨fun message hmessage ↦ ?_, hstate⟩
      subst hmessage
      simp only [checkParent, bind_eq_error, throwIf_eq_error, throwIf_eq_ok, reduceCtorEq,
        and_false, false_or, exists_const] at hfailure
      split_ifs at hfailure
      · cases hfailure.2
      · have hrest := hfailure.2
        simp only [bind_eq_error, throwIf_eq_error, hroot, not_true_eq_false, false_and,
          reduceCtorEq, and_false, false_or] at hrest
        obtain ⟨-, -, -, -, hpure⟩ := hrest
        cases hpure
    split_ifs with hstop
    · exact ensures_pure fun _ h ↦ h.1
    · refine ensures_of_state fun state hstate ↦ ?_
      obtain ⟨hdeleted, hgo⟩ := hstate
      obtain ⟨hne, hdirectory⟩ := hgo (Bool.eq_false_iff.mpr hstop)
      refine ensures_bind (fun _ ↦ Leaves (command.DeletedFrom base source)) (ensures_change ?_ ?_)
        fun _ ↦ ih (dropLast_of_below hroot hne)
      · rintro _ made rfl hmade
        obtain ⟨-, hremoved⟩ := deleteEmptyDirectory_eq_ok hmade
        simp only [pathKey_id] at hremoved
        refine hdeleted.of_delete hremoved ?_
        rintro path rfl hbase -
        have hgone : made.node path ≠ some .directory := by
          rw [hremoved, if_pos rfl]
          rintro ⟨⟩
        exact ⟨⟨hroot, hne⟩, .inr (.inr ⟨hbase ▸ hdirectory, fun below hbelow ↦
          node_eq_none_of_below hgone hbelow⟩)⟩
      · rintro _ failure rfl -
        exact ⟨fun _ ↦ by rintro ⟨⟩, hdeleted⟩

/-- The removal of the source, or of its handoff, is refused. -/
def SourceRefused (command : PublishCommand Signature) (tree : FileTree id) (source : Path) :
    Prop :=
  tree.node source ≠ none ∧ (source = command.storageRoot ∨ InvalidHandoff tree source)

theorem handoff_eq_of_below (hroot : command.storageRoot <+: source)
    (hne : source ≠ command.storageRoot) (h : source <+: handoff source) :
    handoff source = source := by
  have hnonempty : source ≠ [] := by
    rintro rfl
    exact hne (List.prefix_nil.mp hroot).symm
  refine (h.eq_of_length_le ?_).symm
  rw [handoff, length_append, length_dropLast, length_singleton]
  have hpos := length_pos_iff.mpr hnonempty
  omega

theorem invalidHandoff_congr {first second : FileTree id}
    (h : first.node (handoff source) = second.node (handoff source)) :
    InvalidHandoff first source ↔ InvalidHandoff second source := by
  unfold InvalidHandoff
  rw [h]

theorem ensures_removeSource {start : CommandState Signature}
    (hroot : command.storageRoot <+: source) (hlink : start.tree.isReparsePoint source = false) :
    Ensures (fun state ↦ state = start) (command.removeSource source) (fun _ ↦ True)
      (fun _ state ↦ ¬ command.SourceRefused start.tree source ∧
        command.DeletedFrom start.tree source state.tree)
      fun failure state ↦
        ((∃ message, failure = .bail message) ↔ command.SourceRefused start.tree source) ∧
          command.DeletedFrom start.tree source state.tree := by
  have hself : command.DeletedFrom start.tree source start.tree := fun _ ↦ .inl rfl
  refine ensures_bind _ ((ensures_removeStagingPath_exact hroot hlink).mono (fun _ h ↦ h)
    (fun _ h ↦ h) (fun _ _ h ↦ h) ?_) fun removed ↦ ?_
  · rintro failure _ ⟨⟨hmessage, hsame, hpresent⟩, rfl⟩
    exact ⟨iff_of_true hmessage ⟨hpresent, .inl hsame⟩, hself⟩
  split_ifs with hremoved
  · refine ensures_of_state fun state hstate ↦ ?_
    obtain ⟨hne, hpresent, hwithout⟩ := hstate
    have hdeleted : command.DeletedFrom start.tree source state.tree :=
      hself.of_delete hwithout fun path hpath _ _ ↦
        ⟨isBelowRoot_of_below hroot hne hpath, .inl hpath⟩
    have hrefused : command.SourceRefused start.tree source ↔ InvalidHandoff state.tree source := by
      unfold SourceRefused
      rw [and_iff_right hpresent, or_iff_right hne]
      by_cases hsame : handoff source = source
      · exact iff_of_false (fun h ↦ h.1 hsame) fun h ↦ h.1 hsame
      · refine invalidHandoff_congr ?_
        rw [hwithout, if_neg fun h ↦ hsame (handoff_eq_of_below hroot hne h)]
    refine ensures_bind (fun _ final ↦ ¬ command.SourceRefused start.tree source ∧
      command.DeletedFrom start.tree source final.tree)
      (ensures_removeGeneratedHandoff.mono (fun _ h ↦ h) (fun _ h ↦ h) ?_ ?_) fun _ ↦
        ensures_assume fun haccepted ↦ (ensures_removeEmptyParentDirs
          (dropLast_of_below hroot hne)).mono (fun _ h ↦ h) (fun _ h ↦ h)
            (fun _ _ h ↦ ⟨haccepted, h⟩) ?_
    · rintro _ final ⟨hvalid, hfinal⟩
      refine ⟨fun h ↦ hvalid (hrefused.mp h), ?_⟩
      rcases hfinal with rfl | hfinal
      · exact hdeleted
      · refine hdeleted.of_delete hfinal ?_
        rintro path rfl - -
        exact ⟨isBelowRoot_handoff hroot hne, .inr (.inl rfl)⟩
    · rintro failure _ ⟨⟨hmessage, hinvalid⟩, rfl⟩
      exact ⟨iff_of_true hmessage (hrefused.mpr hinvalid), hdeleted⟩
    · rintro failure final ⟨hnobail, hfinal⟩
      exact ⟨iff_of_false (fun ⟨message, hmessage⟩ ↦ hnobail message hmessage) haccepted, hfinal⟩
  · refine ensures_pure fun state hstate ↦ ?_
    obtain ⟨habsent, rfl⟩ := hstate
    exact ⟨fun h ↦ h.1 habsent, hself⟩

end Source

/-! ### What the removal of package and source deletes -/

variable {found : Path}

section Staging

variable {start : CommandState Signature} {source : Option Path}

/-- The removal of the package and of the source is refused once the package is gone. -/
def RemovalRefused (command : PublishCommand Signature) (tree : FileTree id)
    (source : Option Path) : Prop :=
  tree.node command.package = some .directory ∧ ∃ found ∈ source, tree.node found ≠ none ∧
    (found = command.storageRoot ∨ command.HandoffRefused tree found)

/-- A tree from which only the package, the source and what goes with it have been deleted. -/
def StagingDeleted (command : PublishCommand Signature) (base : FileTree id)
    (source : Option Path) (final : FileTree id) : Prop :=
  ∀ path, final.node path = base.node path ∨ final.node path = none ∧ command.IsBelowRoot path ∧
      (command.package <+: path ∨ ∃ found ∈ source, MayDeleteFrom base found final path)

theorem package_prefix_handoff (houtside : ¬ command.package <+: found) :
    command.package <+: handoff found ↔ handoff found = command.package := by
  constructor
  · intro h
    rcases prefix_concat_iff.mp h with hsame | hparent
    · exact hsame.symm
    · exact absurd (hparent.trans (List.dropLast_prefix found)) houtside
  · rintro h
    rw [h]

theorem sourceRefused_iff {without : FileTree id} (houtside : ¬ command.package <+: found)
    (hremoved : Without tree without (command.package <+: ·)) :
    command.SourceRefused without found ↔ tree.node found ≠ none ∧
      (found = command.storageRoot ∨ command.HandoffRefused tree found) := by
  unfold SourceRefused InvalidHandoff HandoffRefused
  rw [hremoved, if_neg houtside, hremoved]
  refine and_congr_right fun _ ↦ or_congr_right (and_congr_right fun _ ↦ ?_)
  by_cases hsame : handoff found = command.package
  · rw [if_pos ((package_prefix_handoff houtside).mpr hsame)]
    refine iff_of_false ?_ fun h ↦ h.1 hsame
    rintro ⟨node, hnode, -⟩
    cases hnode
  · rw [if_neg fun h ↦ hsame ((package_prefix_handoff houtside).mp h), and_iff_right hsame]

theorem ensures_removeStaging_exact (hpackage : command.IsBelowRoot command.package)
    (hlink : start.tree.isReparsePoint command.package = false)
    (hsource : ∀ found ∈ source, command.storageRoot <+: found ∧
      start.tree.isReparsePoint found = false ∧ ¬ command.package <+: found) :
    Ensures (fun state ↦ state = start) (command.removeStaging source) (fun _ ↦ True)
      (fun _ state ↦ (¬ command.RemovalRefused start.tree source ∧
        command.StagingDeleted start.tree source state.tree) ∧
          state.tree.node command.package = none)
      fun failure state ↦
        (((∃ message, failure = .bail message) ↔ command.RemovalRefused start.tree source) ∧
          command.StagingDeleted start.tree source state.tree) ∧
            (command.RemovalRefused start.tree source →
              state.tree.node command.package = none) := by
  refine ensures_bind (fun _ state ↦ start.tree.node command.package = some .directory ∧
    Without start.tree state.tree (command.package <+: ·)) (ensures_change ?_ ?_) fun _ ↦
      ensures_assume fun hdirectory ↦ ensures_of_state fun state hwithout ↦ ?_
  · rintro state made rfl hmade
    refine ⟨?_, fun path ↦ ?_⟩
    · unfold deleteDirectory directoryExists at hmade
      unfold isReparsePoint at hlink
      split at hmade <;> simp_all
    · have hremoved := deleteDirectory_eq_ok hmade path
      simp only [pathKey_id] at hremoved
      exact hremoved
  · intro state failure hstate hfailure
    have hnot : ¬ command.RemovalRefused start.tree source := by
      rintro ⟨hdirectory, -⟩
      have hexists : start.tree.directoryExists command.package = true := by
        rw [directoryExists, hdirectory]
      rw [hstate] at hfailure
      simp [deleteDirectory, hexists] at hfailure
    refine ⟨⟨iff_of_false ?_ hnot, ?_⟩, fun h ↦ absurd h hnot⟩
    · rintro ⟨message, hmessage⟩
      cases hmessage
    · rw [hstate]
      exact fun _ ↦ .inl rfl
  have hgone : state.tree.node command.package = none := by
    rw [hwithout, if_pos prefix_rfl]
  have hstaging {final : FileTree id} {found : Path} (hfound : found ∈ source)
      (h : command.DeletedFrom state.tree found final) :
      command.StagingDeleted start.tree source final ∧ final.node command.package = none := by
    constructor
    · intro path
      by_cases hinside : command.package <+: path
      · refine .inr ⟨?_, isBelowRoot_of_below hpackage.1 hpackage.2 hinside, .inl hinside⟩
        rcases h path with hsame | ⟨hnone, -⟩
        · rw [hsame, hwithout, if_pos hinside]
        · exact hnone
      · have hkept : state.tree.node path = start.tree.node path := by
          rw [hwithout, if_neg hinside]
        unfold DeletedFrom MayDeleteFrom at h
        have hpath := h path
        rw [hkept] at hpath
        exact hpath.imp_right fun hmay ↦ ⟨hmay.1, hmay.2.1, .inr ⟨found, hfound, hmay.2.2⟩⟩
    · rcases h command.package with hsame | ⟨hnone, -⟩
      · rw [hsame, hgone]
      · exact hnone
  cases source with
  | none =>
    refine ensures_pure ?_
    rintro _ rfl
    refine ⟨⟨fun hrefused ↦ ?_, fun path ↦ ?_⟩, hgone⟩
    · obtain ⟨-, found, hfound, -⟩ := hrefused
      cases hfound
    · by_cases hinside : command.package <+: path
      · exact .inr ⟨by rw [hwithout, if_pos hinside],
          isBelowRoot_of_below hpackage.1 hpackage.2 hinside, .inl hinside⟩
      · exact .inl (by rw [hwithout, if_neg hinside])
  | some found =>
    obtain ⟨hroot, hfoundLink, houtside⟩ := hsource found rfl
    have hstateLink : state.tree.isReparsePoint found = false := by
      unfold isReparsePoint at hfoundLink ⊢
      rwa [hwithout, if_neg houtside]
    have hrefused : command.SourceRefused state.tree found ↔
        command.RemovalRefused start.tree (some found) := by
      rw [sourceRefused_iff houtside hwithout, RemovalRefused, and_iff_right hdirectory]
      simp
    refine (ensures_removeSource hroot hstateLink).mono (fun _ h ↦ h) (fun _ h ↦ h) ?_ ?_
    · rintro _ final ⟨haccepted, hdeleted⟩
      obtain ⟨hstagingDeleted, hnone⟩ := hstaging rfl hdeleted
      exact ⟨⟨fun h ↦ haccepted (hrefused.mpr h), hstagingDeleted⟩, hnone⟩
    · rintro failure final ⟨hmessage, hdeleted⟩
      obtain ⟨hstagingDeleted, hnone⟩ := hstaging rfl hdeleted
      exact ⟨⟨hmessage.trans hrefused, hstagingDeleted⟩, fun _ ↦ hnone⟩

end Staging

/-! ### The cleanup -/

section Cleanup

variable {manifest : Manifest} {start : CommandState Signature} {source : Option Path}

theorem mem_acceptedObjects (h : path ∈ command.acceptedObjects objects tree) :
    ∃ object ∈ objects, path = command.stagingObject object.2 ∧ command.Passes tree object := by
  obtain ⟨object, hobject, rfl⟩ := mem_map.mp h
  have hpasses : decide (command.Passes tree object) = true :=
    mem_takeWhile_imp (p := fun object ↦ decide (command.Passes tree object)) hobject
  exact ⟨object, (List.takeWhile_prefix _).subset hobject, rfl, of_decide_eq_true hpasses⟩

theorem mem_removedObjects :
    path ∈ command.removedObjects objects tree ↔
      path ∈ command.acceptedObjects objects tree ∧ tree.node path ≠ none := by
  rw [removedObjects, mem_filter, Option.isSome_iff_ne_none]

theorem verified_of_mem_removedObjects (h : path ∈ command.removedObjects objects tree) :
    ∃ object ∈ objects, path = command.stagingObject object.2 ∧
      ∃ bytes, tree.node path = some (.file bytes) ∧ (command.hash bytes).hex = object.2 := by
  obtain ⟨haccepted, hpresent⟩ := mem_removedObjects.mp h
  obtain ⟨object, hobject, rfl, hpasses⟩ := mem_acceptedObjects haccepted
  exact ⟨object, hobject, rfl, (passes_iff.mp hpasses).2.2.resolve_left hpresent⟩

variable {final : FileTree id}

theorem without_accepted_iff :
    Without tree final (· ∈ command.acceptedObjects objects tree) ↔
      Without tree final (· ∈ command.removedObjects objects tree) := by
  refine forall_congr' fun path ↦ ?_
  by_cases hpresent : tree.node path = none
  · rw [hpresent, ite_self, ite_self]
  · simp only [mem_removedObjects, and_iff_left hpresent]

variable {middle : FileTree id}

theorem isReparsePoint_of_without {removed : Path → Prop} [DecidablePred removed]
    (hwithout : Without tree middle removed) (h : tree.isReparsePoint path = false) :
    middle.isReparsePoint path = false := by
  unfold isReparsePoint at h ⊢
  rw [hwithout path]
  split_ifs
  · rfl
  · exact h

theorem handoff_not_removed : handoff found ∉ command.removedObjects objects tree := by
  intro hremoved
  obtain ⟨object, -, hpath, -⟩ := verified_of_mem_removedObjects hremoved
  have hnames := (append_inj' hpath rfl).2
  have hsuffix : ".bin".toList <:+ "handoff.json".toList := by
    rw [singleton_inj.mp hnames]
    exact suffix_append _ _
  exact absurd hsuffix (by decide)

theorem removalRefused_iff (hchecked : command.Checked tree source)
    (hmiddle : Without tree middle (· ∈ command.removedObjects (stagingObjects manifest) tree)) :
    command.RemovalRefused middle source ↔ tree.node command.package = some .directory ∧
      ∃ found ∈ source, found ∉ command.removedObjects (stagingObjects manifest) tree ∧
        (found = command.storageRoot ∨ command.HandoffRefused tree found) := by
  have hpackage : middle.node command.package = some .directory ↔
      tree.node command.package = some .directory := by
    rw [hmiddle]
    split_ifs with hremoved
    · refine iff_of_false nofun fun hdirectory ↦ ?_
      obtain ⟨_, -, -, bytes, hfile, -⟩ := verified_of_mem_removedObjects hremoved
      rw [hdirectory] at hfile
      cases hfile
    · exact Iff.rfl
  unfold RemovalRefused
  rw [hpackage]
  refine and_congr_right fun _ ↦ exists_congr fun found ↦ and_congr_right fun hfound ↦ ?_
  have hhandoff : command.HandoffRefused middle found ↔ command.HandoffRefused tree found := by
    unfold HandoffRefused
    rw [hmiddle, if_neg handoff_not_removed]
  rw [hhandoff, hmiddle]
  refine and_congr_left fun _ ↦ ?_
  split_ifs with hremoved
  · exact iff_of_false (fun h ↦ h rfl) fun h ↦ h hremoved
  · exact iff_of_true (hchecked.source_present found hfound) hremoved

/-- What a cleanup leaves that passes its first checks. -/
structure Leftover (command : PublishCommand Signature) (manifest : Manifest)
    (start : FileTree id) (source : Option Path) (middle final : FileTree id) : Prop where
  removed : Without start middle (· ∈ command.removedObjects (stagingObjects manifest) start)
  deleted : command.StagingDeleted middle source final
  refused : (¬ ∀ object ∈ stagingObjects manifest, command.Passes start object) → final = middle
  gone : (∀ object ∈ stagingObjects manifest, command.Passes start object) →
    command.RemovalRefused middle source → final.node command.package = none

/-- A validation fails after the first checks. -/
def ValidationFails (command : PublishCommand Signature) (manifest : Manifest)
    (start : FileTree id) (source : Option Path) (middle : FileTree id) : Prop :=
  (¬ ∀ object ∈ stagingObjects manifest, command.Passes start object) ∨
    command.RemovalRefused middle source

theorem ensures_cleanupAfterPublish_exact (h : command.checkStaging start.tree = .ok source) :
    Ensures (fun state ↦ state = start) (command.cleanupAfterPublish manifest) (fun _ ↦ True)
      (fun _ state ↦ ∃ middle, command.Leftover manifest start.tree source middle state.tree ∧
        ¬ command.ValidationFails manifest start.tree source middle)
      fun failure state ↦
        ∃ middle, command.Leftover manifest start.tree source middle state.tree ∧
          ((∃ message, failure = .bail message) ↔
            command.ValidationFails manifest start.tree source middle) := by
  have hchecked := checked_of_checkStaging h
  refine ensures_bind (fun other state ↦ other = source ∧
    (∀ object ∈ stagingObjects manifest, command.Passes start.tree object) ∧
    Without start.tree state.tree
      (· ∈ command.acceptedObjects (stagingObjects manifest) start.tree))
    ?_ fun other ↦ ensures_assume fun hother ↦ ensures_assume fun hall ↦
      ensures_of_state fun state hstate ↦ ?_
  · refine ensures_bind (fun other state ↦ other = source ∧ state = start) (ensures_look ?_ ?_)
      fun other ↦ ensures_assume fun hother ↦ ?_
    · rintro _ other rfl hcheck
      exact ⟨Except.ok.inj (hcheck.symm.trans h), rfl⟩
    · rintro _ failure rfl hfailure
      rw [h] at hfailure
      cases hfailure
    · refine ensures_bind _ (ensures_removeStagingObjects.mono (fun _ h ↦ h) (fun _ h ↦ h)
        (fun _ _ h ↦ h) ?_) fun _ ↦ ensures_pure fun state hstate ↦ ⟨hother, hstate⟩
      rintro failure state ⟨⟨hmessage, hrefused⟩, hwithout⟩
      refine ⟨state.tree, ⟨without_accepted_iff.mp hwithout, fun _ ↦ .inl rfl, fun _ ↦ rfl,
        fun hall ↦ absurd hall hrefused⟩, iff_of_true hmessage (.inl hrefused)⟩
  · subst hother
    have hmiddle := without_accepted_iff.mp hstate
    have hfails : command.ValidationFails manifest start.tree other state.tree ↔
        command.RemovalRefused state.tree other :=
      or_iff_right (not_not_intro hall)
    refine (ensures_removeStaging_exact hchecked.package_below
      (isReparsePoint_of_without hmiddle hchecked.package_link) fun found hfound ↦
        ⟨hchecked.source_inside found hfound,
          isReparsePoint_of_without hmiddle (hchecked.source_link found hfound),
          hchecked.source_outside found hfound⟩).mono (fun _ h ↦ h) (fun _ h ↦ h) ?_ ?_
    · rintro _ final ⟨⟨haccepted, hdeleted⟩, hgone⟩
      exact ⟨state.tree, ⟨hmiddle, hdeleted, fun hnot ↦ absurd hall hnot, fun _ _ ↦ hgone⟩,
        fun hfail ↦ haccepted (hfails.mp hfail)⟩
    · rintro failure final ⟨⟨hmessage, hdeleted⟩, hgone⟩
      exact ⟨state.tree, ⟨hmiddle, hdeleted, fun hnot ↦ absurd hall hnot, fun _ ↦ hgone⟩,
        hmessage.trans hfails.symm⟩

/-- The cleanup of a tree that passes the first checks is confined when the objects that it removes
lie below the root. -/
theorem confined_iff (h : command.checkStaging start.tree = .ok source)
    (hleft : command.Leftover manifest start.tree source middle final) :
    command.Confined manifest start.tree final ↔
      (command.removedObjects (stagingObjects manifest) start.tree ≠ [] →
        command.storageRoot <+: command.objectDirectory) := by
  constructor
  · intro hconfined hremoved
    obtain ⟨path, hpath⟩ := exists_mem_of_ne_nil _ hremoved
    obtain ⟨object, -, rfl, bytes, hfile, -⟩ := verified_of_mem_removedObjects hpath
    have hmiddle : middle.node (command.stagingObject object.2) = none := by
      rw [hleft.removed, if_pos hpath]
    have hfinal : final.node (command.stagingObject object.2) = none := by
      rcases hleft.deleted (command.stagingObject object.2) with hsame | ⟨hnone, -⟩
      · rw [hsame, hmiddle]
      · exact hnone
    obtain ⟨-, ⟨hbelow, hne⟩, -⟩ := hconfined (command.stagingObject object.2)
      (by rw [hfinal, hfile]; exact nofun)
    rcases prefix_concat_iff.mp hbelow with hsame | hparent
    · exact absurd hsame.symm hne
    · exact hparent
  · intro hbelow path hchanged
    have hmiddle := hleft.removed path
    by_cases hpath : path ∈ command.removedObjects (stagingObjects manifest) start.tree
    · rw [if_pos hpath] at hmiddle
      have hfinal : final.node path = none := by
        rcases hleft.deleted path with hsame | ⟨hnone, -⟩
        · rw [hsame, hmiddle]
        · exact hnone
      have hroot := hbelow (ne_nil_of_mem hpath)
      obtain ⟨object, hobject, rfl, hverified⟩ := verified_of_mem_removedObjects hpath
      refine ⟨hfinal, ⟨hroot.trans (prefix_append _ _), fun hsame ↦ ?_⟩,
        .inr (.inr (.inl ⟨object, hobject, rfl, hverified⟩))⟩
      have hlength := hroot.length_le
      rw [← hsame, stagingObject, length_append, length_singleton] at hlength
      omega
    · rw [if_neg hpath] at hmiddle
      rcases hleft.deleted path with hsame | ⟨hnone, hinside, hmay⟩
      · exact absurd (hsame.trans hmiddle) hchanged
      · refine ⟨hnone, hinside, ?_⟩
        rcases hmay with hpackage | ⟨found, hfound, hsource | hhandoff | hempty⟩
        · exact .inl hpackage
        · rw [Option.mem_def.mp hfound] at h
          exact .inr (.inl ⟨found, h, .inl hsource⟩)
        · rw [Option.mem_def.mp hfound] at h
          exact .inr (.inl ⟨found, h, .inr hhandoff⟩)
        · rw [hmiddle] at hempty
          exact .inr (.inr (.inr hempty))

/-- When a validation fails, nothing has been deleted exactly when it is the check of an object and
no object has been removed before. -/
theorem untouched_iff (hleft : command.Leftover manifest start.tree source middle final)
    (hchecked : command.Checked start.tree source)
    (hfails : command.ValidationFails manifest start.tree source middle) :
    (∀ path, final.node path = start.tree.node path) ↔
      command.removedObjects (stagingObjects manifest) start.tree = [] ∧
        ¬ ∀ object ∈ stagingObjects manifest, command.Passes start.tree object := by
  by_cases hall : ∀ object ∈ stagingObjects manifest, command.Passes start.tree object
  · refine iff_of_false (fun hsame ↦ ?_) fun hnot ↦ hnot.2 hall
    have hrefused := hfails.resolve_left (not_not_intro hall)
    have hgone := hleft.gone hall hrefused
    rw [hsame, ((removalRefused_iff hchecked hleft.removed).mp hrefused).1] at hgone
    cases hgone
  · rw [hleft.refused hall, and_iff_left hall]
    constructor
    · intro hsame
      refine eq_nil_iff_forall_not_mem.mpr fun path hpath ↦ ?_
      have hremoved := hleft.removed path
      rw [if_pos hpath, hsame] at hremoved
      exact (mem_removedObjects.mp hpath).2 hremoved
    · intro hnone path
      rw [hleft.removed, hnone, if_neg not_mem_nil]

theorem cleansUp_of_checked (h : command.checkStaging start.tree = .ok source) :
    command.CleansUp manifest start ↔ command.SafeAfterChecks manifest start.tree source := by
  have hchecked := checked_of_checkStaging h
  obtain ⟨middle, hleft, hmessage⟩ : ∃ middle, command.Leftover manifest start.tree source middle
      (command.cleanupAfterPublish manifest start).final.tree ∧
      ((∃ message, (command.cleanupAfterPublish manifest start).result = .error (.bail message)) ↔
        command.ValidationFails manifest start.tree source middle) := by
    have hcleanup : Ensures (fun state ↦ state = start) (command.cleanupAfterPublish manifest)
      _ _ _ := ensures_cleanupAfterPublish_exact h
    obtain ⟨-, hok, herror⟩ := hcleanup start rfl
    cases hresult : (command.cleanupAfterPublish manifest start).result with
    | ok u =>
      obtain ⟨middle, hleft, hnot⟩ := hok u hresult
      exact ⟨middle, hleft, iff_of_false (fun ⟨_, hbail⟩ ↦ by cases hbail) hnot⟩
    | error failure =>
      obtain ⟨middle, hleft, hmessage⟩ := herror failure hresult
      refine ⟨middle, hleft, ?_⟩
      rw [← hmessage]
      simp only [Except.error.injEq]
  unfold CleansUp
  rw [confined_iff h hleft]
  have hatomic : (∀ message,
      (command.cleanupAfterPublish manifest start).result = .error (.bail message) →
        ∀ path, (command.cleanupAfterPublish manifest start).final.tree.node path =
          start.tree.node path) ↔
      (command.ValidationFails manifest start.tree source middle →
        command.removedObjects (stagingObjects manifest) start.tree = [] ∧
          ¬ ∀ object ∈ stagingObjects manifest, command.Passes start.tree object) := by
    constructor
    · intro hatomic hfails
      obtain ⟨message, hbail⟩ := hmessage.mpr hfails
      exact (untouched_iff hleft hchecked hfails).mp (hatomic message hbail)
    · intro hfails message hbail
      have hfailed := hmessage.mp ⟨message, hbail⟩
      exact (untouched_iff hleft hchecked hfailed).mpr (hfails hfailed)
  rw [hatomic]
  have hrefused := removalRefused_iff hchecked hleft.removed
  constructor
  · rintro ⟨hbelow, hfails⟩
    refine ⟨hbelow, fun hremoved ↦ ?_, fun hall hdirectory found hfound hkept ↦ ?_⟩
    · by_contra hall
      exact hremoved (hfails (.inl hall)).1
    · by_contra hsafe
      rw [not_and_or, not_not, not_not] at hsafe
      exact (hfails (.inr (hrefused.mpr ⟨hdirectory, found, hfound, hkept, hsafe⟩))).2 hall
  · intro hsafe
    refine ⟨hsafe.below, fun hfails ↦ ?_⟩
    have hall : ¬ ∀ object ∈ stagingObjects manifest, command.Passes start.tree object := by
      intro hall
      obtain ⟨hdirectory, found, hfound, hkept, hbad⟩ :=
        hrefused.mp (hfails.resolve_left (not_not_intro hall))
      obtain ⟨hroot, hhandoff⟩ := hsafe.removable hall hdirectory found hfound hkept
      exact hbad.elim hroot hhandoff
    refine ⟨?_, hall⟩
    by_contra hremoved
    exact hall (hsafe.accepted hremoved)

end Cleanup

end PublishCommand

open PublishCommand in
/-- The cleanup deletes only the package, the source, the handoff, verified objects and emptied
directories, all below the storage root, and nothing when a validation fails, exactly when it fails
its first checks or is safe after them. -/
theorem cleansUp_iff {Signature : Type} (command : PublishCommand Signature) (manifest : Manifest)
    (start : CommandState Signature) :
    command.CleansUp manifest start ↔ ∀ source, command.checkStaging start.tree = .ok source →
        command.SafeAfterChecks manifest start.tree source := by
  cases hcheck : command.checkStaging start.tree with
  | ok source =>
    rw [cleansUp_of_checked hcheck]
    simp only [Except.ok.injEq, forall_eq']
  | error failure =>
    refine iff_of_true ?_ fun _ h ↦ (by cases h)
    have hfinal : (command.cleanupAfterPublish manifest start).final = start := by
      have hlook : (look command.checkStaging start).result = .error failure := hcheck
      unfold cleanupAfterPublish prepareCleanup
      rw [bind_assoc, final_bind_of_error hlook]
      rfl
    constructor
    · intro path hchanged
      rw [hfinal] at hchanged
      exact absurd rfl hchanged
    · intro _ _ path
      rw [hfinal]

/-! ### An object that is corrupt -/

/-- The hash in hexadecimal of a content whose hash repeats a byte. -/
def repeatedHash (digit : Char) : Text := List.replicate 64 digit

def storedChunk (encodedHash : Text) : ChunkRef :=
  ⟨encodedHash, 1, encodedHash, 1, expectedKey encodedHash⟩

def twoChunks : Manifest :=
  { demoManifest with
    files := [⟨"demo.exe", 2, [],
      [storedChunk (repeatedHash '0'), storedChunk (repeatedHash '1')]⟩] }

/-- The command, with a hash that repeats the first byte. -/
def hashingCommand : PublishCommand Text :=
  { demoCommand true with
    hash := fun bytes ↦ ⟨List.replicate 32 (bytes.headD 0), length_replicate⟩ }

/-- The storage root with both objects, the second one with the content of the first. -/
def corruptTree : FileTree id :=
  .ofEntries
    [([], .directory), (["data"], .directory), (["data", "pkg"], .directory),
      (["data", "chunks"], .directory),
      (["data", "chunks", "encoded"], .directory),
      (hashingCommand.stagingObject (repeatedHash '0'), .file [0]),
      (hashingCommand.stagingObject (repeatedHash '1'), .file [0])]
    (by decide) (by decide)

/-- The first object is deleted before the second one is found to be corrupt. -/
theorem corrupt_object_after_deletion :
    ¬ hashingCommand.CleansUp twoChunks ⟨corruptTree, none⟩ := by
  intro hclean
  have hcheck : hashingCommand.checkStaging (⟨corruptTree, none⟩ : CommandState Text).tree =
      .ok none := by
    rfl
  have hsafe := (cleansUp_of_checked hcheck).mp hclean
  have hpasses := hsafe.accepted (by decide)
    (expectedKey (repeatedHash '1'), repeatedHash '1') (by decide)
  exact absurd hpasses (by decide)

end GameLauncher.Catalog
