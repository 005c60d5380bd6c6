import GameLauncher.Foundation.Process
import GameLauncher.Normalizer.Extraction

/-!
# The limits of the extraction

`normalize_input` from the extraction root on, with the loops of `extract_zip`, `extract_tar` and
`extract_seven_zip` as processes: the tree changes step by step, a reader returns its data in pieces
and may fail after any of them, and an item of an archive may be unreadable. The log holds every
directory, file and write that is attempted, with the number of bytes of a write.

`Within` is the invariant of the loops. It bounds the bytes and the items and keeps every call below
the extraction root, for every archive and also when a round fails; `ensures_normalizeArchive` adds
that a failure leaves the tree as it was.

A reader is bounded by `declared_size.saturating_add(1)`; no reader returns the 2^64 bytes for which
that differs from the sum. The removal of the extraction root does not fail, and neither do single
calls of the file system that the tree does not refuse.
-/

set_option autoImplicit false

namespace GameLauncher.Normalizer

open Foundation Fallible List Process FileTree

/-! ### Archives -/

/-- The formats whose loops write through `extract_reader`. -/
inductive BoundedFormat
  | zip
  | tar
  | sevenZip
  deriving DecidableEq, Repr

/-- An item that its archive can read: what its header says, and the pieces that its reader returns
before it ends or fails. -/
structure ArchiveItem where
  name : Text
  entryType : EntryType
  declaredSize : ℕ
  isAntiItem : Bool
  pieces : List Bytes
  failure : Option IoFailure
  deriving DecidableEq, Repr

def ArchiveItem.content (item : ArchiveItem) : Bytes := item.pieces.flatten

/-- An item that is neither a file nor a directory. -/
def ArchiveItem.IsLinkOrSpecial (item : ArchiveItem) : Prop :=
  item.entryType ≠ .regular ∧ item.entryType ≠ .directory

instance (item : ArchiveItem) : Decidable item.IsLinkOrSpecial :=
  inferInstanceAs (Decidable (_ ∧ _))

/-- What is in the place of an item: the item, or why it cannot be read. -/
abbrev ArchiveRead := Except NormalizerError ArchiveItem

/-! ### What is done to the disk -/

/-- A call that changes the disk: directories on the way to something, the directory of an item, the
file of an item, or a write to it. -/
inductive Effect
  | makesParents (path : Path)
  | makesDirectory (path : Path)
  | createsFile (path : Path)
  | writes (path : Path) (bytes : ℕ)
  deriving DecidableEq, Repr

namespace Effect

/-- Where the call acts. -/
def path : Effect → Path
  | .makesParents path | .makesDirectory path | .createsFile path | .writes path _ => path

/-- The path of the item that the call makes. -/
def output : Effect → Option Path
  | .makesDirectory path | .createsFile path => some path
  | _ => none

/-- The number of bytes that the call writes. -/
def bytes : Effect → ℕ
  | .writes _ bytes => bytes
  | _ => 0

end Effect

/-- The state of an extraction, with what it has done to the disk. -/
structure ExtractionRun where
  state : ExtractionState
  log : List Effect

namespace ExtractionRun

/-- A run with another tree and one more call. -/
def acted (run : ExtractionRun) (effect : Effect) (tree : FileTree id) : ExtractionRun where
  state := { run.state with tree := tree }
  log := run.log ++ [effect]

/-- The paths of the items that were made. -/
def outputs (run : ExtractionRun) : List Path := run.log.filterMap Effect.output

/-- The number of bytes that were written. -/
def written (run : ExtractionRun) : ℕ := (run.log.map Effect.bytes).sum

end ExtractionRun

abbrev ExtractionTask := Process ExtractionRun NormalizerError

/-- What a change of the counters and of the paths does. -/
def recount (change : ExtractionState → Except NormalizerError ExtractionState)
    (run : ExtractionRun) : Except NormalizerError Unit × ExtractionRun :=
  match change run.state with
  | .ok state => (.ok (), { run with state := state })
  | .error failure => (.error failure, run)

/-- A change of the counters and of the paths. -/
def account (change : ExtractionState → Except NormalizerError ExtractionState) :
    ExtractionTask Unit :=
  Process.step (recount change)

/-- What a call to change the disk does; one that fails is logged as well. -/
def perform (effect : Effect) (change : FileTree id → Except NormalizerError (FileTree id))
    (run : ExtractionRun) : Except NormalizerError Unit × ExtractionRun :=
  match change run.state.tree with
  | .ok tree => (.ok (), run.acted effect tree)
  | .error failure => (.error failure, run.acted effect run.state.tree)

theorem perform_of_ok {effect : Effect}
    {change : FileTree id → Except NormalizerError (FileTree id)} {run : ExtractionRun}
    {tree : FileTree id} (h : change run.state.tree = .ok tree) :
    perform effect change run = (.ok (), run.acted effect tree) := by
  rw [perform, h]

theorem perform_of_error {effect : Effect}
    {change : FileTree id → Except NormalizerError (FileTree id)} {run : ExtractionRun}
    {failure : NormalizerError} (h : change run.state.tree = .error failure) :
    perform effect change run = (.error failure, run.acted effect run.state.tree) := by
  rw [perform, h]

/-- A call that changes the disk. -/
def act (effect : Effect) (change : FileTree id → Except NormalizerError (FileTree id)) :
    ExtractionTask Unit :=
  Process.step (perform effect change)

/-- A value or an error that does not depend on the disk. -/
def judge {α : Type} (outcome : Except NormalizerError α) : ExtractionTask α :=
  Process.query fun _ ↦ outcome

/-! ### The loops -/

section Loops

variable (limits : NormalizationLimits) (destination : Path)

/-- `io::copy` of a reader that ends after `room` bytes: the number of bytes copied. -/
def copyPieces (target : Path) (failure : Option IoFailure) : ℕ → List Bytes → ExtractionTask ℕ
  | 0, _ => pure 0
  | _ + 1, [] =>
    match failure with
    | none => pure 0
    | some failure => Process.fail (.io failure)
  | room + 1, piece :: rest => do
    let chunk := piece.take (room + 1)
    act (.writes target chunk.length) fun tree ↦ (tree.appendFile target chunk).mapError .io
    let copied ← copyPieces target failure (room + 1 - chunk.length) rest
    return chunk.length + copied

/-- `extract_reader`. -/
def extractItemReader (item : ArchiveItem) (target : Path) : ExtractionTask Unit := do
  act (.makesParents target.dropLast) (createDirAll · target.dropLast)
  act (.createsFile target) fun tree ↦ (tree.createNew target).mapError .io
  let copied ← copyPieces target item.failure (item.declaredSize + 1) item.pieces
  judge (throwIf (copied ≠ item.declaredSize) (.sizeMismatch copied item.declaredSize))

def makeDirectory (target : Path) : ExtractionTask Unit :=
  act (.makesDirectory target) (createDirAll · target)

def makeFile (item : ArchiveItem) (target : Path) : ExtractionTask Unit := do
  account fun state ↦ state.fileSize limits item.declaredSize
  extractItemReader item target

/-- One round of `extract_zip`. -/
def zipRound (item : ArchiveItem) : ExtractionTask Unit := do
  let relative ← judge (safeRelativePath item.name)
  account fun state ↦ state.entry limits relative
  judge (throwIf (item.entryType = .symbolicLink) (.symlinkEntry item.name))
  let target := destination ++ relative
  if item.name.getLast? = some '/' ∨ item.name.getLast? = some '\\' then makeDirectory target
  else makeFile limits item target

/-- One round of `extract_tar`. -/
def tarRound (item : ArchiveItem) : ExtractionTask Unit := do
  if isRootName item.name then
    judge (throwIf (item.entryType ≠ .directory) .tarFileWithoutPath)
  else do
    let relative ← judge (safeRelativePath item.name)
    account fun state ↦ state.entry limits relative
    if item.entryType = .directory then makeDirectory (destination ++ relative)
    else do
      judge (throwIf (item.entryType = .symbolicLink ∨ item.entryType = .hardLink)
        (.linkEntry relative))
      judge (throwIf (item.entryType ≠ .regular) (.unsupportedType relative))
      makeFile limits item (destination ++ relative)

/-- One round of `extract_seven_zip`. -/
def sevenZipRound (item : ArchiveItem) : ExtractionTask Unit := do
  let relative ← judge (safeRelativePath item.name)
  account fun state ↦ state.entry limits relative
  judge (throwIf (item.isAntiItem = true) (.io .ioException))
  let target := destination ++ relative
  if item.entryType = .directory then makeDirectory target
  else makeFile limits item target

def extractRound (format : BoundedFormat) (read : ArchiveRead) : ExtractionTask Unit := do
  let item ← judge read
  match format with
  | .zip => zipRound limits destination item
  | .tar => tarRound limits destination item
  | .sevenZip => sevenZipRound limits destination item

/-- The loop of `extract_zip`, `extract_tar` or `extract_seven_zip`. -/
def extractArchive (format : BoundedFormat) (reads : List ArchiveRead) : ExtractionTask Unit :=
  Process.forEach (fun read _ ↦ extractRound limits destination format read) reads ()

def createDir (tree : FileTree id) (path : Path) : Except NormalizerError (FileTree id) :=
  match tree.node path with
  | none => (tree.ensureDirectory path).mapError .io
  | some _ => .error (.io .ioException)

/-- `remove_dir_all`. -/
def removeRoot (root : Path) : ExtractionTask Unit :=
  Process.step fun run ↦
    (.ok (), { run with state := { run.state with tree := run.state.tree.removeTree root } })

/-- `normalize_input` from the extraction root on; `listing` is the result of the last look at the
extraction root. -/
def normalizeArchive (format : BoundedFormat) (reads : List ArchiveRead)
    (listing : Except NormalizerError Unit) : ExtractionTask Unit := do
  act (.makesParents destination) (createDir · destination)
  Process.tryCatch
    (do
      extractArchive limits destination format reads
      judge listing)
    fun failure ↦ do
      removeRoot destination
      Process.fail failure

end Loops

/-! ### The tree outside the extraction root -/

/-- The extraction root is a directory still, and the rest of the tree is as it was. -/
structure Spares (root : Path) (tree made : FileTree id) : Prop where
  directory : made.node root = some .directory
  outside : ∀ path, ¬ root <+: path → made.node path = tree.node path

section Spares

variable {root target : Path} {tree made : FileTree id} {bytes : Bytes}

theorem Spares.refl (h : tree.node root = some .directory) : Spares root tree tree :=
  ⟨h, fun _ _ ↦ rfl⟩

theorem Spares.trans {last : FileTree id} (hfirst : Spares root tree made)
    (hsecond : Spares root made last) : Spares root tree last where
  directory := hsecond.directory
  outside path hpath := (hsecond.outside path hpath).trans (hfirst.outside path hpath)

section

variable (hroot : tree.node root = some .directory) (htarget : root <+: target)

include hroot htarget

theorem spares_of_node {node : Node} (hnode : tree.node target ≠ some .directory)
    (hmade : ∀ other, made.node other = if pathKey id other = pathKey id target then some node
      else tree.node other) : Spares root tree made := by
  have hne : root ≠ target := by
    rintro rfl
    exact hnode hroot
  constructor
  · rw [hmade, pathKey_id, pathKey_id, if_neg hne, hroot]
  · intro path hpath
    rw [hmade, pathKey_id, pathKey_id, if_neg]
    rintro rfl
    exact hpath htarget

theorem spares_createDirAll (h : createDirAll tree target = .ok made) : Spares root tree made := by
  obtain ⟨hextends, hnode, hchanged⟩ := createDirectory_eq_ok (mapError_eq_ok.mp h)
  have hkept (path : Path) (hpath : tree.node path = some .directory) :
      made.node path = tree.node path := by
    rcases hextends path with hsame | ⟨hnone, -⟩
    · exact hsame
    · rw [hpath] at hnone
      exact absurd hnone (Option.some_ne_none _)
  refine ⟨(hkept root hroot).trans hroot, fun path hpath ↦ ?_⟩
  by_contra hne
  -- what changes outside the root is on the way to the root, where directories are already
  have hleading := hchanged path hne
  rw [pathKey_id, pathKey_id] at hleading
  have habove : path <+: root :=
    (List.prefix_or_prefix_of_prefix hleading htarget).resolve_right hpath
  have hdiffer : path ≠ root := by
    rintro rfl
    exact hpath prefix_rfl
  refine hne (hkept path (node_of_leading habove hdiffer ?_))
  rw [hroot]
  exact Option.some_ne_none _

theorem spares_createNew (h : (tree.createNew target).mapError NormalizerError.io = .ok made) :
    Spares root tree made := by
  obtain ⟨hnone, hnode⟩ := createNew_eq_ok (mapError_eq_ok.mp h)
  refine spares_of_node hroot htarget ?_ hnode
  rw [hnone]
  exact (Option.some_ne_none _).symm

theorem spares_appendFile
    (h : (tree.appendFile target bytes).mapError NormalizerError.io = .ok made) :
    Spares root tree made := by
  obtain ⟨content, hfile, hnode⟩ := appendFile_eq_ok (mapError_eq_ok.mp h)
  refine spares_of_node hroot htarget ?_ hnode
  rw [hfile]
  exact fun heq ↦ Node.noConfusion (Option.some_inj.mp heq)

end

end Spares

/-! ### The invariant of the loops -/

/-- An extraction within its limits: it is about to make the items at the pending paths, and may
still write the bytes of `room`. -/
structure Within (limits : NormalizationLimits) (root : Path) (before : FileTree id)
    (pending : List Path) (room : ℕ) (run : ExtractionRun) : Prop where
  entries_le : run.state.entries ≤ limits.maxEntries
  output_le : run.state.outputBytes ≤ limits.maxOutputBytes
  length_le : (pending ++ run.outputs).length ≤ run.state.entries
  written_le : run.written + room ≤ run.state.outputBytes + 1
  nodup : (pending ++ run.outputs).Nodup
  recorded : ∀ path ∈ pending ++ run.outputs, ∃ relative ∈ run.state.paths, path = root ++ relative
  inside : ∀ effect ∈ run.log, root <+: effect.path
  spared : Spares root before run.state.tree

section Invariant

variable {limits : NormalizationLimits} {root target relative : Path} {before : FileTree id}
  {pending : List Path} {room : ℕ} {run : ExtractionRun}

theorem Within.idle (h : Within limits root before pending room run) :
    Within limits root before [] 0 run where
  entries_le := h.entries_le
  output_le := h.output_le
  length_le := by
    have := h.length_le
    rw [length_append] at this
    rw [nil_append]
    omega
  written_le := by
    have := h.written_le
    omega
  nodup := (nodup_append.mp h.nodup).2.1
  recorded path hpath := h.recorded path (mem_append_right pending hpath)
  inside := h.inside
  spared := h.spared

theorem Within.acted {effect : Effect} {tree : FileTree id}
    (h : Within limits root before (effect.output.toList ++ pending) (effect.bytes + room) run)
    (hinside : root <+: effect.path) (hspares : Spares root run.state.tree tree) :
    Within limits root before pending room (run.acted effect tree) := by
  have houtputs : (run.acted effect tree).outputs = run.outputs ++ effect.output.toList := by
    simp only [ExtractionRun.outputs, ExtractionRun.acted, filterMap_append]
    cases hout : effect.output <;> simp [hout]
  have hwritten : (run.acted effect tree).written = run.written + effect.bytes := by
    simp [ExtractionRun.written, ExtractionRun.acted]
  have hperm : (pending ++ (run.acted effect tree).outputs).Perm
      (effect.output.toList ++ pending ++ run.outputs) := by
    rw [houtputs, ← append_assoc, append_assoc effect.output.toList]
    exact perm_append_comm
  exact {
    entries_le := h.entries_le
    output_le := h.output_le
    length_le := hperm.length_eq ▸ h.length_le
    written_le := by
      have := h.written_le
      rw [hwritten]
      show _ ≤ run.state.outputBytes + 1
      omega
    nodup := hperm.nodup_iff.mpr h.nodup
    recorded := fun path hpath ↦ h.recorded path (hperm.mem_iff.mp hpath)
    inside := by
      intro other hother
      rcases mem_append.mp hother with hbefore | hnew
      · exact h.inside other hbefore
      · exact mem_singleton.mp hnew ▸ hinside
    spared := h.spared.trans hspares }

theorem ensures_act {effect : Effect}
    {change : FileTree id → Except NormalizerError (FileTree id)} (hinside : root <+: effect.path)
    (hspares : ∀ tree made, tree.node root = some .directory → change tree = .ok made →
      Spares root tree made) :
    Process.Ensures
      (Within limits root before (effect.output.toList ++ pending) (effect.bytes + room))
      (act effect change) (Within limits root before [] 0)
      (fun _ ↦ Within limits root before pending room)
      fun _ ↦ Within limits root before [] 0 := by
  have hstep (run : ExtractionRun)
      (h : Within limits root before (effect.output.toList ++ pending) (effect.bytes + room) run) :
      Within limits root before pending room (perform effect change run).2 := by
    cases hchange : change run.state.tree with
    | ok tree =>
      rw [perform_of_ok hchange]
      exact h.acted hinside (hspares _ _ h.spared.directory hchange)
    | error failure =>
      rw [perform_of_error hchange]
      exact h.acted hinside (.refl h.spared.directory)
  exact ensures_step (fun run h ↦ (hstep run h).idle) (fun run _ h _ ↦ hstep run h)
    fun run _ h _ ↦ (hstep run h).idle

theorem ensures_judge {α : Type} {outcome : Except NormalizerError α} :
    Process.Ensures (Within limits root before pending room) (judge outcome)
      (Within limits root before [] 0)
      (fun value run ↦ outcome = .ok value ∧ Within limits root before pending room run)
      fun _ ↦ Within limits root before [] 0 :=
  ensures_query (fun _ _ h hvalue ↦ ⟨hvalue, h⟩) fun _ _ h _ ↦ h.idle

theorem ensures_account {change : ExtractionState → Except NormalizerError ExtractionState}
    {pending' : List Path} {room' : ℕ}
    (hchange : ∀ run state, Within limits root before pending room run →
      change run.state = .ok state →
      Within limits root before pending' room' { run with state := state }) :
    Process.Ensures (Within limits root before pending room) (account change)
      (Within limits root before [] 0) (fun _ ↦ Within limits root before pending' room')
      fun _ ↦ Within limits root before [] 0 := by
  have hkept (run : ExtractionRun) (h : Within limits root before pending room run) :
      Within limits root before [] 0 (recount change run).2 := by
    unfold recount
    cases hstate : change run.state with
    | ok state => exact (hchange run state h hstate).idle
    | error failure => exact h.idle
  refine ensures_step hkept (fun run value h hok ↦ ?_) fun run _ h _ ↦ hkept run h
  unfold recount at hok ⊢
  cases hstate : change run.state with
  | ok state => exact hchange run state h hstate
  | error failure =>
    rw [hstate] at hok
    exact absurd hok (by simp)

theorem entry_accepts {state made : ExtractionState} :
    state.entry limits relative = .ok made ↔ state.entries + 1 ≤ limits.maxEntries ∧
      relative ∉ state.paths ∧
        { state with entries := state.entries + 1, paths := relative :: state.paths } = made := by
  by_cases hentries : state.entries + 1 ≤ limits.maxEntries
  · rw [entry_eq_ok hentries, and_iff_right hentries]
  · refine iff_of_false (fun h ↦ hentries ?_) fun h ↦ hentries h.1
    simp only [ExtractionState.entry, bind_eq_ok, orThrow_eq_ok, checkedAdd_eq_some,
      throwIf_eq_ok] at h
    obtain ⟨_, ⟨-, rfl⟩, -, hlimit, -⟩ := h
    exact not_lt.mp hlimit

theorem fileSize_accepts {state made : ExtractionState} {size : ℕ} :
    state.fileSize limits size = .ok made ↔ size ≤ limits.maxFileBytes ∧
      state.outputBytes + size ≤ limits.maxOutputBytes ∧
        { state with outputBytes := state.outputBytes + size } = made := by
  by_cases h : size ≤ limits.maxFileBytes ∧ state.outputBytes + size ≤ limits.maxOutputBytes
  · rw [fileSize_eq_ok h.1 h.2, and_iff_right h.1, and_iff_right h.2]
  · refine iff_of_false (fun hok ↦ h ?_) fun hok ↦ h ⟨hok.1, hok.2.1⟩
    simp only [ExtractionState.fileSize, bind_eq_ok, orThrow_eq_ok, checkedAdd_eq_some,
      throwIf_eq_ok] at hok
    obtain ⟨_, hsize, _, ⟨-, rfl⟩, -, houtput, -⟩ := hok
    exact ⟨not_lt.mp hsize, not_lt.mp houtput⟩

theorem ensures_entry :
    Process.Ensures (Within limits root before [] 1)
      (account fun state ↦ state.entry limits relative) (Within limits root before [] 0)
      (fun _ ↦ Within limits root before [root ++ relative] 1)
      fun _ ↦ Within limits root before [] 0 := by
  refine ensures_account fun run state h hstate ↦ ?_
  obtain ⟨hentries, hnew, rfl⟩ := entry_accepts.mp hstate
  exact {
    entries_le := hentries
    output_le := h.output_le
    length_le := Nat.succ_le_succ h.length_le
    written_le := h.written_le
    nodup := by
      refine nodup_cons.mpr ⟨fun hmem ↦ ?_, h.nodup⟩
      obtain ⟨other, hother, heq⟩ := h.recorded _ hmem
      exact hnew (append_cancel_left heq ▸ hother)
    recorded := by
      intro path hpath
      rcases mem_cons.mp hpath with rfl | hpath
      · exact ⟨relative, mem_cons_self, rfl⟩
      · obtain ⟨other, hother, heq⟩ := h.recorded path hpath
        exact ⟨other, mem_cons_of_mem relative hother, heq⟩
    inside := h.inside
    spared := h.spared }

theorem ensures_fileSize {size : ℕ} :
    Process.Ensures (Within limits root before pending 1)
      (account fun state ↦ state.fileSize limits size) (Within limits root before [] 0)
      (fun _ ↦ Within limits root before pending (size + 1))
      fun _ ↦ Within limits root before [] 0 := by
  refine ensures_account fun run state h hstate ↦ ?_
  obtain ⟨-, houtput, rfl⟩ := fileSize_accepts.mp hstate
  exact {
    entries_le := h.entries_le
    output_le := houtput
    length_le := h.length_le
    written_le := by
      have := h.written_le
      show run.written + (size + 1) ≤ run.state.outputBytes + size + 1
      omega
    nodup := h.nodup
    recorded := h.recorded
    inside := h.inside
    spared := h.spared }

theorem ensures_copyPieces (htarget : root <+: target) (failure : Option IoFailure)
    (pieces : List Bytes) :
    Process.Ensures (Within limits root before [] room) (copyPieces target failure room pieces)
      (Within limits root before [] 0)
      (fun copied run ↦ Within limits root before [] (room - copied) run)
      fun _ ↦ Within limits root before [] 0 := by
  induction pieces generalizing room with
  | nil =>
    cases room with
    | zero => exact ensures_pure fun run h ↦ h
    | succ room =>
      cases failure with
      | none => exact ensures_pure fun run h ↦ h
      | some failure =>
        exact ensures_query (fun _ _ _ hvalue ↦ absurd hvalue (by simp))
          fun _ _ h _ ↦ h.idle
  | cons piece rest ih =>
    cases room with
    | zero => exact ensures_pure fun run h ↦ h
    | succ room =>
      have hroom : room + 1 = (piece.take (room + 1)).length +
          (room + 1 - (piece.take (room + 1)).length) :=
        (Nat.add_sub_of_le (length_take_le (room + 1) piece)).symm
      refine ensures_bind (fun _ ↦ Within limits root before []
        (room + 1 - (piece.take (room + 1)).length)) ?_ fun _ ↦ ?_
      · have hact := @ensures_act limits root before [] (room + 1 - (piece.take (room + 1)).length)
          (.writes target (piece.take (room + 1)).length)
          (fun tree ↦ (tree.appendFile target (piece.take (room + 1))).mapError .io) htarget
          fun tree made hroot hmade ↦ spares_appendFile hroot htarget hmade
        refine hact.mono (fun run h ↦ ?_) (fun _ h ↦ h) (fun _ _ h ↦ h) fun _ _ h ↦ h
        show Within limits root before [] ((piece.take (room + 1)).length + _) run
        rwa [← hroom]
      · refine ensures_bind _ ih fun copied ↦ ?_
        refine ensures_pure fun run h ↦ ?_
        rwa [← Nat.sub_sub]

theorem ensures_makeFile (hne : relative ≠ []) (item : ArchiveItem) :
    Process.Ensures (Within limits root before [root ++ relative] 1)
      (makeFile limits item (root ++ relative)) (Within limits root before [] 0)
      (fun _ ↦ Within limits root before [] 1) fun _ ↦ Within limits root before [] 0 := by
  have htarget : root <+: root ++ relative := prefix_append root relative
  have hparent : root <+: (root ++ relative).dropLast := by
    rw [dropLast_append_of_ne_nil hne]
    exact prefix_append root _
  refine ensures_bind _ ensures_fileSize fun _ ↦ ?_
  refine ensures_bind (fun _ ↦ Within limits root before [root ++ relative]
    (item.declaredSize + 1)) ?_ fun _ ↦ ?_
  · have hact := @ensures_act limits root before [root ++ relative] (item.declaredSize + 1)
      (.makesParents (root ++ relative).dropLast) (createDirAll · (root ++ relative).dropLast)
      hparent fun tree made hroot hmade ↦ spares_createDirAll hroot hparent hmade
    refine hact.mono (fun run h ↦ ?_) (fun _ h ↦ h) (fun _ _ h ↦ h) fun _ _ h ↦ h
    show Within limits root before _ (0 + (item.declaredSize + 1)) run
    rwa [Nat.zero_add]
  refine ensures_bind (fun _ ↦ Within limits root before [] (item.declaredSize + 1)) ?_
    fun _ ↦ ?_
  · have hact := @ensures_act limits root before [] (item.declaredSize + 1)
      (.createsFile (root ++ relative))
      (fun tree ↦ (tree.createNew (root ++ relative)).mapError .io) htarget
      fun tree made hroot hmade ↦ spares_createNew hroot htarget hmade
    refine hact.mono (fun run h ↦ ?_) (fun _ h ↦ h) (fun _ _ h ↦ h) fun _ _ h ↦ h
    show Within limits root before _ (0 + (item.declaredSize + 1)) run
    rwa [Nat.zero_add]
  refine ensures_bind _ (ensures_copyPieces htarget item.failure item.pieces)
    fun copied ↦ ?_
  refine ensures_judge.mono (fun _ h ↦ h) (fun _ h ↦ h) (fun _ run h ↦ ?_) fun _ _ h ↦ h
  obtain ⟨hsize, hwithin⟩ := h
  rw [not_not.mp (throwIf_eq_ok.mp hsize), Nat.add_sub_cancel_left] at hwithin
  exact hwithin

theorem ensures_makeDirectory :
    Process.Ensures (Within limits root before [root ++ relative] 1)
      (makeDirectory (root ++ relative)) (Within limits root before [] 0)
      (fun _ ↦ Within limits root before [] 1) fun _ ↦ Within limits root before [] 0 := by
  have htarget : root <+: root ++ relative := prefix_append root relative
  exact @ensures_act limits root before [] 1 (.makesDirectory (root ++ relative))
    (createDirAll · (root ++ relative)) htarget
    fun tree made hroot hmade ↦ spares_createDirAll hroot htarget hmade

/-- A decision that is passed leaves the rest of a round. -/
theorem ensures_judge_bind {α β : Type} {outcome : Except NormalizerError α}
    {next : α → ExtractionTask β} {after : β → ExtractionRun → Prop}
    (hnext : ∀ value, outcome = .ok value →
      Process.Ensures (Within limits root before pending room) (next value)
        (Within limits root before [] 0) after fun _ ↦ Within limits root before [] 0) :
    Process.Ensures (Within limits root before pending room) (judge outcome >>= next)
      (Within limits root before [] 0) after fun _ ↦ Within limits root before [] 0 :=
  ensures_bind _ ensures_judge fun value ↦ ensures_assume (hnext value)

theorem path_ne_nil_of_safe {name : Text} (h : safeRelativePath name = .ok relative) :
    relative ≠ [] := by
  obtain ⟨hname, rfl⟩ := safeRelativePath_eq_ok.mp h
  exact hname.usable

theorem ensures_extractRound (format : BoundedFormat) (read : ArchiveRead) :
    Process.Ensures (Within limits root before [] 1) (extractRound limits root format read)
      (Within limits root before [] 0) (fun _ ↦ Within limits root before [] 1)
      fun _ ↦ Within limits root before [] 0 := by
  refine ensures_judge_bind fun item _ ↦ ?_
  cases format with
  | zip | sevenZip =>
    refine ensures_judge_bind fun relative hsafe ↦ ?_
    refine ensures_bind _ ensures_entry fun _ ↦ ?_
    refine ensures_judge_bind fun _ _ ↦ ?_
    dsimp only
    split_ifs
    · exact ensures_makeDirectory
    · exact ensures_makeFile (path_ne_nil_of_safe hsafe) item
  | tar =>
    dsimp only [tarRound]
    by_cases hrootName : isRootName item.name = true
    · rw [if_pos hrootName]
      exact ensures_judge.mono (fun _ h ↦ h) (fun _ h ↦ h) (fun _ _ h ↦ h.2) fun _ _ h ↦ h
    · rw [if_neg hrootName]
      refine ensures_judge_bind fun relative hsafe ↦ ?_
      refine ensures_bind _ ensures_entry fun _ ↦ ?_
      by_cases hdirectory : item.entryType = .directory
      · rw [if_pos hdirectory]
        exact ensures_makeDirectory
      · rw [if_neg hdirectory]
        refine ensures_judge_bind fun _ _ ↦ ensures_judge_bind fun _ _ ↦ ?_
        exact ensures_makeFile (path_ne_nil_of_safe hsafe) item

theorem ensures_extractArchive (format : BoundedFormat) (reads : List ArchiveRead) :
    Process.Ensures (Within limits root before [] 1) (extractArchive limits root format reads)
      (Within limits root before [] 0) (fun _ ↦ Within limits root before [] 1)
      fun _ ↦ Within limits root before [] 0 :=
  ensures_forEach (fun _ _ ↦ Within limits root before [] 1)
    fun _ read _ _ _ ↦ ensures_extractRound format read

end Invariant

/-! ### The extraction root -/

def notBegun (tree : FileTree id) : ExtractionRun where
  state := ⟨0, 0, [], tree⟩
  log := []

/-- The log is within the limits: the bytes, the number of items, one item at a path, and no call
outside the extraction root. -/
structure Logged (limits : NormalizationLimits) (root : Path) (run : ExtractionRun) : Prop where
  written_le : run.written ≤ limits.maxOutputBytes + 1
  outputs_le : run.outputs.length ≤ limits.maxEntries
  nodup : run.outputs.Nodup
  inside : ∀ effect ∈ run.log, root <+: effect.path

section Root

variable {limits : NormalizationLimits} {root : Path} {tree before : FileTree id}

theorem Within.logged {run : ExtractionRun} (h : Within limits root before [] 0 run) :
    Logged limits root run where
  written_le := h.written_le.trans (Nat.succ_le_succ h.output_le)
  outputs_le := h.length_le.trans h.entries_le
  nodup := h.nodup
  inside := h.inside

/-- A directory that was made was not there, and nothing else has changed. -/
theorem createDir_eq_ok {made : FileTree id} (h : createDir tree root = .ok made) :
    tree.node root = none ∧ Spares root tree made := by
  unfold createDir at h
  cases hnode : tree.node root with
  | some node =>
    rw [hnode] at h
    exact absurd h (by simp)
  | none =>
    rw [hnode] at h
    obtain ⟨-, hmade, hchanged⟩ := ensureDirectory_eq_ok (mapError_eq_ok.mp h)
    refine ⟨rfl, hmade, fun path hpath ↦ ?_⟩
    by_contra hne
    have heq := hchanged path hne
    rw [pathKey_id, pathKey_id] at heq
    exact hpath (heq ▸ prefix_rfl)

theorem within_rooted {made : FileTree id} (h : createDir tree root = .ok made) :
    Within limits root tree [] 1 ((notBegun tree).acted (.makesParents root) made) where
  entries_le := Nat.zero_le _
  output_le := Nat.zero_le _
  length_le := le_rfl
  written_le := le_rfl
  nodup := nodup_nil
  recorded _ hpath := absurd hpath not_mem_nil
  inside effect heffect := by
    rw [mem_singleton.mp heffect]
    exact prefix_rfl
  spared := (createDir_eq_ok h).2

/-- After the removal of the root nothing of the extraction is left. -/
theorem node_removeTree_of_spares {made : FileTree id} (hnone : tree.node root = none)
    (h : Spares root tree made) (path : Path) :
    (made.removeTree root).node path = tree.node path := by
  rw [node_removeTree, pathKey_id, pathKey_id]
  split_ifs with hbelow
  · obtain ⟨below, rfl⟩ := hbelow
    by_cases hnil : below = []
    · rw [hnil, append_nil, hnone]
    · have hdirectory : tree.node root ≠ some .directory := by
        rw [hnone]
        exact (Option.some_ne_none _).symm
      exact (node_eq_none_of_below hdirectory hnil).symm
  · exact h.outside path hbelow

/-- A normalization stays within its limits, and one that fails leaves the tree as it was. -/
theorem ensures_normalizeArchive (format : BoundedFormat) (reads : List ArchiveRead)
    (listing : Except NormalizerError Unit) :
    Process.Ensures (fun run ↦ run = notBegun tree)
      (normalizeArchive limits root format reads listing) (fun _ ↦ True)
      (fun _ run ↦ Logged limits root run ∧
        ∀ path, ¬ root <+: path → run.state.tree.node path = tree.node path)
      fun _ run ↦ Logged limits root run ∧ ∀ path, run.state.tree.node path = tree.node path := by
  refine ensures_bind (fun _ run ↦ tree.node root = none ∧
    Within limits root tree [] 1 run) ?_ fun _ ↦ ensures_assume fun hnone ↦ ?_
  · refine ensures_step (fun _ _ ↦ trivial) ?_ ?_
    · rintro _ value rfl hok
      cases hroot : createDir tree root with
      | error failure =>
        rw [perform_of_error hroot] at hok
        exact absurd hok (by simp)
      | ok made =>
        rw [perform_of_ok hroot]
        exact ⟨(createDir_eq_ok hroot).1, within_rooted hroot⟩
    · rintro _ failure rfl herror
      cases hroot : createDir tree root with
      | error failure =>
        rw [perform_of_error hroot]
        refine ⟨⟨Nat.zero_le _, Nat.zero_le _, nodup_nil, fun effect heffect ↦ ?_⟩, fun _ ↦ rfl⟩
        rw [mem_singleton.mp heffect]
        exact prefix_rfl
      | ok made =>
        rw [perform_of_ok hroot] at herror
        exact absurd herror (by simp)
  · refine ensures_tryCatch (fun _ run ↦ Within limits root tree [] 0 run) ?_
      fun failure ↦ ?_
    · have hloop := @ensures_extractArchive limits root tree format reads
      refine ensures_bind (fun _ ↦ Within limits root tree [] 1)
        (hloop.mono (fun _ h ↦ h) (fun _ _ ↦ trivial) (fun _ _ h ↦ h) fun _ _ h ↦ h) fun _ ↦ ?_
      refine ensures_query (fun run _ h _ ↦ ?_) fun run _ h _ ↦ h.idle
      exact ⟨h.idle.logged, h.spared.outside⟩
    · refine ensures_bind (fun _ run ↦ Logged limits root run ∧
        ∀ path, run.state.tree.node path = tree.node path) ?_ fun _ ↦
          ensures_query (fun _ _ _ hvalue ↦ absurd hvalue (by simp)) fun _ _ h _ ↦ h
      refine ensures_step (fun _ _ ↦ trivial) (fun run _ h _ ↦ ?_)
        fun _ _ _ herror ↦ absurd herror (by simp)
      have hlogged := h.logged
      exact ⟨⟨hlogged.written_le, hlogged.outputs_le, hlogged.nodup, hlogged.inside⟩,
        node_removeTree_of_spares hnone h.spared⟩

end Root

end GameLauncher.Normalizer
