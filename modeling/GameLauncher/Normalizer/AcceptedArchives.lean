import GameLauncher.Normalizer.ExtractionLimits

/-!
# The archives that are extracted

`Lands` is a task that ends in a given state of the extraction, whatever its log. A round of the ZIP
and of the 7z loop lands where the extraction loop of plain entries places the entry of the same
data, so the invariant `Extracted` of that loop serves here as well. `accepted_iff` says from the
items alone which ZIP and 7z archives are extracted. A TAR lands only when all its items are files
and directories.

`extracts_safely_iff` is the result: links and special files are rejected in every TAR, and in a ZIP
or a 7z archive only when the archive is refused for another reason.
-/

set_option autoImplicit false

namespace GameLauncher.Normalizer

open Foundation Fallible List ArchiveItem Process FileTree
open Process (Ends)

/-! ### Where a task lands -/

variable {final : ExtractionRun}

/-- The task ends with this value in this state of the extraction. -/
def Lands {α : Type} (task : ExtractionTask α) (run : ExtractionRun) (value : α)
    (state : ExtractionState) : Prop :=
  ∃ final, Ends task run value final ∧ final.state = state

section Lands

variable {α β : Type} {run : ExtractionRun} {state : ExtractionState}

theorem lands_bind {first : ExtractionTask α} {next : α → ExtractionTask β} {value : β} :
    Lands (first >>= next) run value state ↔
      ∃ found middle, Ends first run found middle ∧ Lands (next found) middle value state := by
  simp only [Lands, ends_bind]
  constructor
  · rintro ⟨final, ⟨found, middle, hfirst, hnext⟩, hstate⟩
    exact ⟨found, middle, hfirst, final, hnext, hstate⟩
  · rintro ⟨found, middle, hfirst, final, hnext, hstate⟩
    exact ⟨final, ⟨found, middle, hfirst, hnext⟩, hstate⟩

theorem ends_act {effect : Effect} {change : FileTree id → Except NormalizerError (FileTree id)}
    {value : Unit} : Ends (act effect change) run value final ↔
      ∃ tree, change run.state.tree = .ok tree ∧ run.acted effect tree = final := by
  rw [act, ends_step]
  cases hchange : change run.state.tree with
  | ok tree => simp [perform_of_ok hchange]
  | error failure => simp [perform_of_error hchange]

theorem ends_account {change : ExtractionState → Except NormalizerError ExtractionState}
    {value : Unit} : Ends (account change) run value final ↔
      ∃ state, change run.state = .ok state ∧ { run with state := state } = final := by
  rw [account, ends_step, recount]
  cases change run.state <;> simp

theorem ends_judge {outcome : Except NormalizerError α} {value : α} :
    Ends (judge outcome) run value final ↔ outcome = .ok value ∧ run = final :=
  ends_query

theorem lands_judge_bind {outcome : Except NormalizerError α} {next : α → ExtractionTask β}
    {value : β} : Lands (judge outcome >>= next) run value state ↔
      ∃ found, outcome = .ok found ∧ Lands (next found) run value state := by
  simp only [lands_bind, ends_judge]
  exact exists_congr fun found ↦ ⟨fun ⟨_, ⟨hfound, hrun⟩, hnext⟩ ↦ ⟨hfound, hrun ▸ hnext⟩,
    fun ⟨hfound, hnext⟩ ↦ ⟨run, ⟨hfound, rfl⟩, hnext⟩⟩

end Lands

/-! ### The copy of a reader -/

variable {made : FileTree id}

/-- The file at the path is the newest entry of the tree. -/
def Opened (tree : FileTree id) (target : Path) (content : Bytes) (rest : List (Path × Node)) :
    Prop :=
  tree.entries = (target, .file content) :: rest

section Copy

variable {tree other : FileTree id} {target : Path} {content bytes : Bytes}
  {rest : List (Path × Node)}

theorem Opened.unique (h : Opened tree target content rest)
    (hother : Opened other target content rest) : tree = other := by
  cases tree
  cases other
  simp only [Opened] at h hother
  simp only [FileTree.mk.injEq]
  exact h.trans hother.symm

theorem Opened.node_eq (h : Opened tree target content rest) :
    tree.node target = some (.file content) := by
  unfold FileTree.node
  rw [h, findNode_cons, if_pos rfl]

theorem opened_writeFile (h : tree.writeFile target bytes = .ok made) :
    Opened made target bytes
      (tree.entries.filter fun entry ↦ pathKey id entry.1 ≠ pathKey id target) := by
  unfold FileTree.writeFile at h
  split_ifs at h
  rw [← Except.ok.inj h]
  rfl

theorem opened_createNew (h : tree.createNew target = .ok made) :
    ∃ rest, Opened made target [] rest := by
  unfold FileTree.createNew at h
  split at h
  · cases h
  · cases h
  · exact ⟨_, opened_writeFile h⟩

theorem Opened.append (h : Opened tree target content rest) (hne : target ≠ []) (bytes : Bytes) :
    ∃ made, tree.appendFile target bytes = .ok made ∧
      Opened made target (content ++ bytes) rest := by
  obtain ⟨made, hmade⟩ := appendFile_of_file bytes hne h.node_eq
  refine ⟨made, hmade, ?_⟩
  rw [FileTree.appendFile, h.node_eq] at hmade
  have hopened := opened_writeFile hmade
  have hnew : ∀ entry ∈ rest, pathKey id entry.1 ≠ pathKey id target := by
    have hnodup := tree.keys_nodup
    rw [h, map_cons, nodup_cons] at hnodup
    intro entry hentry hkey
    exact hnodup.1 (mem_map.mpr ⟨entry, hentry, hkey⟩)
  have hrest : tree.entries.filter (fun entry ↦ pathKey id entry.1 ≠ pathKey id target) = rest := by
    rw [h, filter_cons_of_neg (by simp), filter_eq_self]
    exact fun entry hentry ↦ decide_eq_true (hnew entry hentry)
  rw [hrest] at hopened
  exact hopened

theorem lands_pure_of_opened {run : ExtractionRun} {state : ExtractionState} {copied : ℕ}
    (h : Opened run.state.tree target content rest) :
    Lands (pure 0) run copied state ↔ copied = 0 ∧ ∃ tree, Opened tree target content rest ∧
      { run.state with tree := tree } = state := by
  simp only [Lands, ends_pure]
  constructor
  · rintro ⟨_, ⟨rfl, rfl⟩, rfl⟩
    exact ⟨rfl, run.state.tree, h, rfl⟩
  · rintro ⟨rfl, tree, htree, rfl⟩
    exact ⟨run, ⟨rfl, rfl⟩, by rw [htree.unique h]⟩

/-- A copy ends when its reader ends or has filled the room, and appends what fits. -/
theorem lands_copyPieces {run : ExtractionRun} {state : ExtractionState}
    (h : Opened run.state.tree target content rest) (hne : target ≠ [])
    (failure : Option IoFailure) (pieces : List Bytes) (room copied : ℕ) :
    Lands (copyPieces target failure room pieces) run copied state ↔
      (failure = none ∨ room ≤ pieces.flatten.length) ∧ copied = (pieces.flatten.take room).length ∧
        ∃ tree, Opened tree target (content ++ pieces.flatten.take room) rest ∧
          { run.state with tree := tree } = state := by
  induction pieces generalizing run content room copied with
  | nil =>
    cases room with
    | zero =>
      rw [copyPieces, lands_pure_of_opened h]
      simp
    | succ room =>
      cases failure with
      | none =>
        simp only [copyPieces]
        rw [lands_pure_of_opened h]
        simp
      | some failure => simp [copyPieces, Lands, ends_fail]
  | cons piece later ih =>
    cases room with
    | zero =>
      rw [copyPieces, lands_pure_of_opened h]
      simp
    | succ room =>
      set chunk := piece.take (room + 1) with hchunk
      obtain ⟨made, hmade, hopened⟩ := h.append hne chunk
      have hflat : (piece :: later).flatten.take (room + 1) = chunk ++
          later.flatten.take (room + 1 - chunk.length) := by
        rw [flatten_cons, take_append, length_take]
        congr 2
        omega
      have hroom : room + 1 ≤ (piece :: later).flatten.length ↔
          room + 1 - chunk.length ≤ later.flatten.length := by
        rw [flatten_cons, length_append, length_take]
        omega
      have hrest (copied : ℕ) := @ih (content ++ chunk)
        (run.acted (.writes target chunk.length) made) hopened (room + 1 - chunk.length) copied
      have hstep : Lands (copyPieces target failure (room + 1) (piece :: later)) run copied state ↔
          ∃ more, Lands (copyPieces target failure (room + 1 - chunk.length) later)
            (run.acted (.writes target chunk.length) made) more state ∧
              chunk.length + more = copied := by
        rw [copyPieces, lands_bind]
        constructor
        · rintro ⟨_, _, hact, hlands⟩
          obtain ⟨_, happended, rfl⟩ := ends_act.mp hact
          obtain ⟨more, middle, hmore, final, hpure, hstate⟩ := lands_bind.mp hlands
          obtain ⟨hsum, rfl⟩ := ends_pure.mp hpure
          rw [Except.ok.inj (hmade.symm.trans (mapError_eq_ok.mp happended))]
          exact ⟨more, ⟨middle, hmore, hstate⟩, hsum⟩
        · rintro ⟨more, ⟨final, hmore, hstate⟩, hsum⟩
          refine ⟨(), _, ends_act.mpr ⟨made, mapError_eq_ok.mpr hmade, rfl⟩, ?_⟩
          exact lands_bind.mpr
            ⟨more, final, hmore, final, ends_pure.mpr ⟨hsum, rfl⟩, hstate⟩
      rw [hstep, hflat, hroom, length_append]
      simp only [hrest, append_assoc]
      constructor
      · rintro ⟨more, ⟨hends, rfl, hstate⟩, rfl⟩
        exact ⟨hends, rfl, hstate⟩
      · rintro ⟨hends, rfl, hstate⟩
        exact ⟨_, ⟨hends, rfl, hstate⟩, rfl⟩

end Copy

/-! ### Plain entries -/

/-- An item is a directory by its name in a ZIP, and by its header elsewhere. -/
def ArchiveItem.isDirectory (format : BoundedFormat) (item : ArchiveItem) : Bool :=
  match format with
  | .zip => item.name.getLast? == some '/' || item.name.getLast? == some '\\'
  | _ => item.entryType == .directory

/-- The format whose plain entries are directories by the same rule. -/
def plainFormat : BoundedFormat → ArchiveFormat
  | .zip => .zip
  | _ => .tar

def ArchiveItem.plain (format : BoundedFormat) (item : ArchiveItem) : ArchiveEntry :=
  if item.isDirectory format then ⟨item.name, .directory, 0, []⟩
  else ⟨item.name, .regular, item.declaredSize, item.content⟩

/-- The one kind of item that the loop looks for. -/
def ArchiveItem.IsRefused (format : BoundedFormat) (item : ArchiveItem) : Prop :=
  match format with
  | .zip => item.entryType = .symbolicLink
  | .sevenZip => item.isAntiItem = true
  | .tar => item.IsLinkOrSpecial

instance (format : BoundedFormat) (item : ArchiveItem) : Decidable (item.IsRefused format) := by
  cases format <;> unfold ArchiveItem.IsRefused <;> infer_instance

section Plain

variable {format : BoundedFormat} {item : ArchiveItem}

@[simp] theorem name_plain : (item.plain format).name = item.name := by
  unfold plain
  split_ifs <;> rfl

@[simp] theorem isDirectory_plain :
    (item.plain format).isDirectory (plainFormat format) = item.isDirectory format := by
  cases format with
  | zip =>
    show (((item.plain .zip).name.getLast? == some '/' ||
      (item.plain .zip).name.getLast? == some '\\') : Bool) = _
    rw [name_plain]
    rfl
  | tar | sevenZip =>
    unfold plain
    split_ifs with hdirectory
    · rw [hdirectory]
      rfl
    · rw [Bool.not_eq_true] at hdirectory
      rw [hdirectory]
      rfl

end Plain

/-! ### One round -/

section Round

variable {limits : NormalizationLimits} {run : ExtractionRun} {state : ExtractionState}
  {item : ArchiveItem} {target destination : Path}

theorem lands_extractItemReader (hne : target ≠ []) :
    Lands (extractItemReader item target) run () state ↔ item.failure = none ∧
      ∃ tree, extractReader item.content target item.declaredSize run.state.tree = .ok tree ∧
        { run.state with tree := tree } = state := by
  simp only [extractItemReader, lands_bind, extractReader_eq_ok]
  constructor
  · rintro ⟨_, _, hfirst, _, _, hsecond, copied, middle, hcopied, final, hjudge, hstate⟩
    obtain ⟨parents, hparents, rfl⟩ := ends_act.mp hfirst
    obtain ⟨created, hcreated, rfl⟩ := ends_act.mp hsecond
    obtain ⟨hsize, rfl⟩ := ends_judge.mp hjudge
    obtain ⟨rest, hopened⟩ := opened_createNew (mapError_eq_ok.mp hcreated)
    obtain ⟨hends, hlength, tree, htree, hfinal⟩ :=
      (lands_copyPieces hopened hne item.failure item.pieces _ copied).mp ⟨middle, hcopied, hstate⟩
    have htrue : (item.content.take (item.declaredSize + 1)).length = item.declaredSize :=
      hlength.symm.trans (not_not.mp (throwIf_eq_ok.mp hsize))
    obtain ⟨made, hmade, hopenedMade⟩ :=
      hopened.append hne (item.content.take (item.declaredSize + 1))
    refine ⟨hends.resolve_right ?_, tree, ⟨parents, created, mapError_eq_ok.mp hparents,
      mapError_eq_ok.mp hcreated, hopenedMade.unique htree ▸ hmade, htrue⟩, hfinal⟩
    rw [length_take] at htrue
    show ¬ item.declaredSize + 1 ≤ item.content.length
    omega
  · rintro ⟨hends, tree, ⟨parents, created, hparents, hcreated, happended, htrue⟩, hstate⟩
    obtain ⟨rest, hopened⟩ := opened_createNew hcreated
    obtain ⟨made, hmade, hopenedMade⟩ :=
      hopened.append hne (item.content.take (item.declaredSize + 1))
    have hsame : made = tree := Except.ok.inj (hmade.symm.trans happended)
    have hcopy : Lands (copyPieces target item.failure (item.declaredSize + 1) item.pieces)
        ((run.acted (.makesParents target.dropLast) parents).acted (.createsFile target) created)
        item.declaredSize state :=
      (lands_copyPieces hopened hne item.failure item.pieces _ _).mpr
        ⟨.inl hends, htrue.symm, tree, hsame ▸ hopenedMade, hstate⟩
    obtain ⟨middle, hcopied, hmiddle⟩ := hcopy
    exact ⟨(), _, ends_act.mpr ⟨parents, mapError_eq_ok.mpr hparents, rfl⟩, (), _,
      ends_act.mpr ⟨created, mapError_eq_ok.mpr hcreated, rfl⟩, _, middle, hcopied, middle,
      ends_judge.mpr ⟨throwIf_eq_ok.mpr (not_not.mpr rfl), rfl⟩, hmiddle⟩

theorem lands_makeFile (hne : target ≠ []) :
    Lands (makeFile limits item target) run () state ↔ (item.declaredSize ≤ limits.maxFileBytes ∧
        run.state.outputBytes + item.declaredSize ≤ limits.maxOutputBytes ∧ item.failure = none) ∧
      ∃ tree, extractReader item.content target item.declaredSize run.state.tree = .ok tree ∧
        { run.state with
          outputBytes := run.state.outputBytes + item.declaredSize
          tree := tree } = state := by
  simp only [makeFile, lands_bind, lands_extractItemReader hne]
  constructor
  · rintro ⟨_, _, haccount, hends, tree, htree, hstate⟩
    obtain ⟨counted, hcounted, rfl⟩ := ends_account.mp haccount
    obtain ⟨hsize, houtput, rfl⟩ := fileSize_accepts.mp hcounted
    exact ⟨⟨hsize, houtput, hends⟩, tree, htree, hstate⟩
  · rintro ⟨⟨hsize, houtput, hends⟩, tree, htree, hstate⟩
    exact ⟨(), _, ends_account.mpr ⟨_, fileSize_accepts.mpr ⟨hsize, houtput, rfl⟩, rfl⟩, hends,
      tree, htree, hstate⟩

theorem lands_makeDirectory :
    Lands (makeDirectory target) run () state ↔
      ∃ tree, createDirAll run.state.tree target = .ok tree ∧
        { run.state with tree := tree } = state := by
  constructor
  · rintro ⟨final, hact, hstate⟩
    obtain ⟨tree, htree, rfl⟩ := ends_act.mp hact
    exact ⟨tree, htree, hstate⟩
  · rintro ⟨tree, htree, hstate⟩
    exact ⟨_, ends_act.mpr ⟨tree, htree, rfl⟩, hstate⟩

/-- A round of the ZIP and of the 7z loop: the name, the counters, the kind that is refused, and the
directory or the file. -/
theorem lands_round {name : Text} {refused directory : Prop} [Decidable refused]
    [Decidable directory] {failure : NormalizerError} :
    Lands (do
        let relative ← judge (safeRelativePath name)
        account fun state ↦ state.entry limits relative
        judge (throwIf refused failure)
        let target := destination ++ relative
        if directory then makeDirectory target else makeFile limits item target) run () state ↔
      ¬ refused ∧ HasPortableName name ∧ run.state.entries + 1 ≤ limits.maxEntries ∧
        entryPath name ∉ run.state.paths ∧
        Lands (if directory then makeDirectory (destination ++ entryPath name)
          else makeFile limits item (destination ++ entryPath name))
          { run with state :=
            { run.state with
              entries := run.state.entries + 1
              paths := entryPath name :: run.state.paths } } () state := by
  simp only [lands_judge_bind, safeRelativePath_eq_ok]
  constructor
  · rintro ⟨_, ⟨hname, rfl⟩, hlands⟩
    obtain ⟨_, _, haccount, hlands⟩ := lands_bind.mp hlands
    obtain ⟨counted, hcounted, rfl⟩ := ends_account.mp haccount
    obtain ⟨hentries, hnew, rfl⟩ := entry_accepts.mp hcounted
    obtain ⟨_, hkind, hlands⟩ := lands_judge_bind.mp hlands
    exact ⟨throwIf_eq_ok.mp hkind, hname, hentries, hnew, hlands⟩
  · rintro ⟨hkind, hname, hentries, hnew, hlands⟩
    refine ⟨_, ⟨hname, rfl⟩, lands_bind.mpr ⟨(), _, ends_account.mpr
      ⟨_, entry_accepts.mpr ⟨hentries, hnew, rfl⟩, rfl⟩, ?_⟩⟩
    exact lands_judge_bind.mpr ⟨(), throwIf_eq_ok.mpr hkind, hlands⟩

theorem lands_extractRound {format : BoundedFormat} (hformat : format ≠ .tar) :
    Lands (extractRound limits destination format (.ok item)) run () state ↔
      ¬ item.IsRefused format ∧ HasPortableName item.name ∧
        run.state.entries + 1 ≤ limits.maxEntries ∧ entryPath item.name ∉ run.state.paths ∧
        (item.isDirectory format = false → item.declaredSize ≤ limits.maxFileBytes ∧
          run.state.outputBytes + item.declaredSize ≤ limits.maxOutputBytes ∧ item.failure = none) ∧
        ∃ tree, place (plainFormat format) destination (item.plain format) run.state.tree =
            .ok tree ∧
          afterEntry (plainFormat format) (item.plain format) run.state tree = state := by
  have hshape : Lands (extractRound limits destination format (.ok item)) run () state ↔
      ¬ item.IsRefused format ∧ HasPortableName item.name ∧
        run.state.entries + 1 ≤ limits.maxEntries ∧ entryPath item.name ∉ run.state.paths ∧
        Lands (if item.isDirectory format then makeDirectory (destination ++ entryPath item.name)
          else makeFile limits item (destination ++ entryPath item.name))
          { run with state :=
            { run.state with
              entries := run.state.entries + 1
              paths := entryPath item.name :: run.state.paths } } () state := by
    cases format with
    | tar => exact absurd rfl hformat
    | zip =>
      rw [extractRound, lands_judge_bind]
      simp only [Except.ok.injEq, exists_eq_left', zipRound, lands_round, ArchiveItem.IsRefused,
        isDirectory, Bool.or_eq_true, beq_iff_eq]
    | sevenZip =>
      rw [extractRound, lands_judge_bind]
      simp only [Except.ok.injEq, exists_eq_left', sevenZipRound, lands_round,
        ArchiveItem.IsRefused, isDirectory, beq_iff_eq]
  rw [hshape]
  refine and_congr_right fun _ ↦ and_congr_right fun hname ↦ and_congr_right fun _ ↦
    and_congr_right fun _ ↦ ?_
  have hne : destination ++ entryPath item.name ≠ [] := by
    simp [hname.usable]
  unfold place afterEntry
  simp only [name_plain, isDirectory_plain]
  by_cases hdirectory : item.isDirectory format = true
  · simp only [hdirectory, if_true, Bool.true_eq_false, false_imp_iff, true_and,
      lands_makeDirectory]
  · simp only [hdirectory, if_false, Bool.false_eq_true, lands_makeFile hne, plain]
    simp only [forall_const]

end Round

/-! ### The whole loop -/

/-- The number of bytes that an item counts against the limit of the output. -/
def ArchiveItem.size (format : BoundedFormat) (item : ArchiveItem) : ℕ :=
  (item.plain format).declaredSize

/-- The name is portable and the kind is not refused; a file is within its limit, and its reader
returns what its header declares. -/
structure IsSound (limits : NormalizationLimits) (format : BoundedFormat) (item : ArchiveItem) :
    Prop where
  name : HasPortableName item.name
  kind : ¬ item.IsRefused format
  limit : item.isDirectory format = false → item.declaredSize ≤ limits.maxFileBytes
  reads : item.isDirectory format = false → item.failure = none
  data : item.isDirectory format = false → item.content.length = item.declaredSize

/-- Two items have different paths, and neither is a file on the way to the other. -/
structure IsBeside (format : BoundedFormat) (first second : ArchiveItem) : Prop where
  path_ne : entryPath first.name ≠ entryPath second.name
  first_clear : first.isDirectory format = false → ¬ entryPath first.name <+: entryPath second.name
  second_clear : second.isDirectory format = false →
    ¬ entryPath second.name <+: entryPath first.name

/-- The items of a ZIP or 7z archive that is extracted. -/
structure Accepted (limits : NormalizationLimits) (format : BoundedFormat)
    (archive : List ArchiveItem) : Prop where
  length_le : archive.length ≤ limits.maxEntries
  size_le : (archive.map (ArchiveItem.size format)).sum ≤ limits.maxOutputBytes
  sound : ∀ item ∈ archive, IsSound limits format item
  apart : archive.Pairwise (IsBeside format)

/-- What the loop has left after the items that it has extracted. -/
structure Progress (format : BoundedFormat) (destination : Path) (done : List ArchiveItem)
    (state : ExtractionState) : Prop where
  extracted : Extracted (plainFormat format) destination (done.map (ArchiveItem.plain format)) state
  entries_eq : state.entries = done.length
  outputBytes_eq : state.outputBytes = (done.map (ArchiveItem.size format)).sum
  portable : ∀ item ∈ done, HasPortableName item.name

section Loop

variable {limits : NormalizationLimits} {format : BoundedFormat} {destination : Path}
  {done : List ArchiveItem} {item other : ArchiveItem} {run : ExtractionRun}
  {state : ExtractionState}

theorem not_isSkipped (h : HasPortableName item.name) :
    ¬ IsSkipped (plainFormat format) (item.plain format) := by
  rintro ⟨-, -, hroot⟩
  rw [name_plain] at hroot
  exact h.usable (entryPath_of_isRootName hroot)

theorem conflicts_plain (hitem : HasPortableName item.name) (hother : HasPortableName other.name) :
    Conflicts (plainFormat format) (item.plain format) (other.plain format) ↔
      item.isDirectory format = false ∧ entryPath item.name <+: entryPath other.name ∧
        entryPath item.name ≠ entryPath other.name := by
  unfold Conflicts
  rw [and_iff_right (not_isSkipped hitem), and_iff_right (not_isSkipped hother), isDirectory_plain,
    name_plain, name_plain]

theorem isBeside_iff (hitem : HasPortableName item.name) (hother : HasPortableName other.name) :
    IsBeside format other item ↔ entryPath other.name ≠ entryPath item.name ∧
      ¬ Conflicts (plainFormat format) (other.plain format) (item.plain format) ∧
        ¬ Conflicts (plainFormat format) (item.plain format) (other.plain format) := by
  rw [conflicts_plain hitem hother, conflicts_plain hother hitem]
  constructor
  · intro h
    exact ⟨h.path_ne, fun hconflict ↦ h.first_clear hconflict.1 hconflict.2.1,
      fun hconflict ↦ h.second_clear hconflict.1 hconflict.2.1⟩
  · rintro ⟨hne, hfirst, hsecond⟩
    exact ⟨hne, fun hfile hleading ↦ hfirst ⟨hfile, hleading, hne⟩,
      fun hfile hleading ↦ hsecond ⟨hfile, hleading, Ne.symm hne⟩⟩

theorem declaredSize_plain_eq :
    (item.plain format).declaredSize = (item.plain format).content.length ↔
    (item.isDirectory format = false → item.content.length = item.declaredSize) := by
  unfold plain
  by_cases hdirectory : item.isDirectory format = true
  · simp [hdirectory]
  · rw [if_neg hdirectory]
    simp only [Bool.not_eq_true] at hdirectory
    simp [hdirectory, eq_comm]

theorem declaredSize_of_place {tree : FileTree id}
    (h : place (plainFormat format) destination (item.plain format) tree = .ok made) :
    (item.plain format).declaredSize = (item.plain format).content.length := by
  rw [declaredSize_plain_eq]
  intro hfile
  unfold place at h
  rw [isDirectory_plain, hfile, if_neg Bool.false_ne_true] at h
  obtain ⟨_, _, -, -, -, hlength⟩ := extractReader_eq_ok.mp h
  have hplain : item.plain format = ⟨item.name, .regular, item.declaredSize, item.content⟩ := by
    rw [plain, hfile, if_neg Bool.false_ne_true]
  rw [hplain, length_take] at hlength
  dsimp only at hlength
  omega

theorem Progress.path_notMem (h : Progress format destination done state) :
    entryPath item.name ∉ state.paths ↔
      ∀ other ∈ done, entryPath other.name ≠ entryPath item.name := by
  rw [h.extracted.mem_paths]
  constructor
  · intro hnone other hother heq
    exact hnone ⟨_, mem_map_of_mem hother, not_isSkipped (h.portable other hother),
      name_plain.symm ▸ heq⟩
  · rintro hne ⟨_, hplain, -, heq⟩
    obtain ⟨other, hother, rfl⟩ := mem_map.mp hplain
    rw [name_plain] at heq
    exact hne other hother heq

theorem Progress.place_iff (h : Progress format destination done state)
    (hname : HasPortableName item.name)
    (htrue : (item.plain format).declaredSize = (item.plain format).content.length) :
    (entryPath item.name ∉ state.paths ∧ ∃ tree,
      place (plainFormat format) destination (item.plain format) state.tree = .ok tree) ↔
        ∀ other ∈ done, IsBeside format other item := by
  have hplainName : HasPortableName (item.plain format).name := by
    rw [name_plain]
    exact hname
  have hclear (hnew : entryPath item.name ∉ state.paths) :=
    h.extracted.place_iff (not_isSkipped hname) hplainName htrue (name_plain.symm ▸ hnew)
  constructor
  · rintro ⟨hnew, hplace⟩ other hother
    rw [isBeside_iff hname (h.portable other hother)]
    exact ⟨h.path_notMem.mp hnew other hother, (hclear hnew).mp hplace _ (mem_map_of_mem hother)⟩
  · intro hbeside
    have hnew : entryPath item.name ∉ state.paths :=
      h.path_notMem.mpr fun other hother ↦ (hbeside other hother).path_ne
    refine ⟨hnew, (hclear hnew).mpr fun plain hplain ↦ ?_⟩
    obtain ⟨other, hother, rfl⟩ := mem_map.mp hplain
    exact ((isBeside_iff hname (h.portable other hother)).mp (hbeside other hother)).2

theorem size_of_directory (h : item.isDirectory format = true) : item.size format = 0 := by
  rw [size, plain, if_pos h]

theorem size_of_file (h : item.isDirectory format = false) :
    item.size format = item.declaredSize := by
  rw [size, plain, h, if_neg Bool.false_ne_true]

theorem accepted_append_singleton (h : Accepted limits format done) :
    Accepted limits format (done ++ [item]) ↔
      IsSound limits format item ∧ done.length + 1 ≤ limits.maxEntries ∧
        (done.map (size format)).sum + item.size format ≤ limits.maxOutputBytes ∧
          ∀ other ∈ done, IsBeside format other item := by
  constructor
  · intro hmore
    refine ⟨hmore.sound item (by simp), ?_, ?_, fun other hother ↦ ?_⟩
    · simpa using hmore.length_le
    · simpa using hmore.size_le
    · exact (pairwise_append.mp hmore.apart).2.2 other hother item (by simp)
  · rintro ⟨hsound, hlength, hsize, hbeside⟩
    refine ⟨by simpa using hlength, by simpa using hsize, fun other hother ↦ ?_, ?_⟩
    · rcases mem_append.mp hother with hother | hother
      · exact h.sound other hother
      · rwa [mem_singleton.mp hother]
    · refine pairwise_append.mpr ⟨h.apart, pairwise_singleton _ _, ?_⟩
      intro other hother last hlast
      rw [mem_singleton.mp hlast]
      exact hbeside other hother

theorem accepted_nil : Accepted limits format [] where
  length_le := Nat.zero_le _
  size_le := Nat.zero_le _
  sound _ hitem := absurd hitem not_mem_nil
  apart := .nil

theorem Accepted.of_append {later : List ArchiveItem}
    (h : Accepted limits format (done ++ later)) : Accepted limits format done where
  length_le := by
    have := h.length_le
    rw [length_append] at this
    omega
  size_le := by
    have := h.size_le
    rw [map_append, sum_append] at this
    omega
  sound other hother := h.sound other (mem_append_left later hother)
  apart := (pairwise_append.mp h.apart).1

section

variable (hformat : format ≠ .tar) (h : Progress format destination done run.state)

include hformat h

theorem Progress.round_iff (hdone : Accepted limits format done) :
    (∃ state, Lands (extractRound limits destination format (.ok item)) run () state) ↔
      Accepted limits format (done ++ [item]) := by
  simp only [lands_extractRound hformat]
  rw [accepted_append_singleton hdone, h.entries_eq, h.outputBytes_eq]
  constructor
  · rintro ⟨state, hkind, hname, hentries, hnew, hfile, tree, htree, -⟩
    have htrue := declaredSize_of_place htree
    refine ⟨⟨hname, hkind, fun hregular ↦ (hfile hregular).1, fun hregular ↦ (hfile hregular).2.2,
      declaredSize_plain_eq.mp htrue⟩, hentries, ?_, ?_⟩
    · by_cases hdirectory : item.isDirectory format = true
      · rw [size_of_directory hdirectory]
        exact hdone.size_le
      · rw [Bool.not_eq_true] at hdirectory
        rw [size_of_file hdirectory]
        exact (hfile hdirectory).2.1
    · exact (h.place_iff hname htrue).mp ⟨hnew, tree, htree⟩
  · rintro ⟨hsound, hentries, hsize, hbeside⟩
    obtain ⟨hnew, tree, htree⟩ :=
      (h.place_iff hsound.name (declaredSize_plain_eq.mpr hsound.data)).mpr hbeside
    refine ⟨_, hsound.kind, hsound.name, hentries, hnew, fun hregular ↦ ?_, tree, htree, rfl⟩
    rw [size_of_file hregular] at hsize
    exact ⟨hsound.limit hregular, hsize, hsound.reads hregular⟩

theorem Progress.step
    (hlands : Lands (extractRound limits destination format (.ok item)) run () state) :
    Progress format destination (done ++ [item]) state := by
  obtain ⟨-, hname, -, hnew, -, tree, htree, rfl⟩ := (lands_extractRound hformat).mp hlands
  have hbeside := (h.place_iff hname (declaredSize_of_place htree)).mp ⟨hnew, tree, htree⟩
  have hplainName : HasPortableName (item.plain format).name := by
    rw [name_plain]
    exact hname
  refine ⟨?_, ?_, ?_, fun other hother ↦ ?_⟩
  · rw [map_append]
    refine h.extracted.place (not_isSkipped hname) hplainName (fun plain hplain ↦ ?_)
      (name_plain.symm ▸ hnew) htree
    obtain ⟨other, hother, rfl⟩ := mem_map.mp hplain
    exact ((isBeside_iff hname (h.portable other hother)).mp (hbeside other hother)).2
  · show run.state.entries + 1 = _
    rw [h.entries_eq, length_append]
    rfl
  · rw [map_append, sum_append, ← h.outputBytes_eq, afterEntry, isDirectory_plain]
    by_cases hdirectory : item.isDirectory format = true
    · simp [hdirectory, size_of_directory hdirectory]
    · rw [Bool.not_eq_true] at hdirectory
      simp [hdirectory, size]
  · rcases mem_append.mp hother with hother | hother
    · exact h.portable other hother
    · rwa [mem_singleton.mp hother]

theorem Progress.lands_iff (hdone : Accepted limits format done) {reads : List ArchiveRead} :
    (∃ state, Lands (extractArchive limits destination format reads) run () state) ↔
      ∃ archive, reads = archive.map .ok ∧ Accepted limits format (done ++ archive) := by
  induction reads generalizing done run with
  | nil =>
    refine iff_of_true ⟨run.state, run, ⟨rfl, rfl⟩, rfl⟩ ⟨[], rfl, ?_⟩
    rwa [append_nil]
  | cons read rest ih =>
    have hsplit : (∃ state, Lands (extractArchive limits destination format (read :: rest))
        run () state) ↔ ∃ middle, Ends (extractRound limits destination format read) run () middle ∧
          ∃ state, Lands (extractArchive limits destination format rest) middle () state := by
      constructor
      · rintro ⟨state, hlands⟩
        obtain ⟨_, middle, hround, hrest⟩ := lands_bind.mp hlands
        exact ⟨middle, hround, state, hrest⟩
      · rintro ⟨middle, hround, state, hrest⟩
        exact ⟨state, lands_bind.mpr ⟨(), middle, hround, hrest⟩⟩
    rw [hsplit]
    cases read with
    | error failure =>
      refine iff_of_false ?_ ?_
      · rintro ⟨middle, hround, -⟩
        obtain ⟨_, _, hread, -⟩ := ends_bind.mp hround
        exact absurd (ends_judge.mp hread).1 (by simp)
      · rintro ⟨_ | ⟨item, archive⟩, heq, -⟩ <;> simp at heq
    | ok item =>
      constructor
      · rintro ⟨middle, hround, hrest⟩
        have hlands : Lands (extractRound limits destination format (.ok item)) run ()
          middle.state := ⟨middle, hround, rfl⟩
        have hmore := (h.round_iff hformat hdone).mp ⟨_, hlands⟩
        obtain ⟨archive, rfl, haccepted⟩ := (ih (h.step hformat hlands) hmore).mp hrest
        refine ⟨item :: archive, rfl, ?_⟩
        rwa [append_cons]
      · rintro ⟨_ | ⟨first, archive⟩, heq, haccepted⟩
        · simp at heq
        · obtain ⟨hfirst, rfl⟩ := List.cons.inj heq
          obtain rfl := Except.ok.inj hfirst
          rw [append_cons] at haccepted
          obtain ⟨state, middle, hround, rfl⟩ :=
            (h.round_iff hformat hdone).mpr haccepted.of_append
          exact ⟨middle, hround, (ih (h.step hformat ⟨middle, hround, rfl⟩)
            haccepted.of_append).mpr ⟨archive, rfl, haccepted⟩⟩

end

end Loop

/-! ### The whole extraction -/

/-- A ZIP or 7z archive that is extracted: its root can be made and listed, and its items can be
read and are accepted. -/
structure IsExtracted (limits : NormalizationLimits) (root : Path) (tree : FileTree id)
    (format : BoundedFormat) (reads : List ArchiveRead) (listing : Except NormalizerError Unit) :
    Prop where
  makeable : ∃ made, createDir tree root = .ok made
  listed : listing = .ok ()
  accepted : ∃ archive, reads = archive.map .ok ∧ Accepted limits format archive

/-- What an extraction should do: it writes at most one byte more than the limit of the output and
makes at most as many items as the limit of the entries, at different paths and inside its root; it
extracts no link and no special file, and when it fails the tree is as before. -/
structure ExtractsSafely (limits : NormalizationLimits) (root : Path) (tree : FileTree id)
    (outcome : Outcome ExtractionRun NormalizerError Unit) (reads : List ArchiveRead) :
    Prop where
  logged : Logged limits root outcome.final
  outside : ∀ path, ¬ root <+: path → outcome.final.state.tree.node path = tree.node path
  rejects : outcome.result = .ok () → ∀ item, .ok item ∈ reads → ¬ item.IsLinkOrSpecial
  restored : ∀ failure, outcome.result = .error failure →
    ∀ path, outcome.final.state.tree.node path = tree.node path

section Whole

variable {limits : NormalizationLimits} {root : Path} {tree : FileTree id} {format : BoundedFormat}
  {reads : List ArchiveRead} {listing : Except NormalizerError Unit}

theorem isEmptyDirectory_createDir (h : createDir tree root = .ok made) :
    IsEmptyDirectory made root := by
  obtain ⟨hnone, hspares⟩ := createDir_eq_ok h
  refine ⟨hspares.directory, fun path hne ↦ ?_⟩
  rw [createDir, hnone] at h
  obtain ⟨-, -, hchanged⟩ := ensureDirectory_eq_ok (mapError_eq_ok.mp h)
  have hdirectory : tree.node root ≠ some .directory := by
    rw [hnone]
    exact (Option.some_ne_none _).symm
  rw [← node_eq_none_of_below hdirectory hne]
  by_contra hdiffer
  have hkey := hchanged _ hdiffer
  rw [pathKey_id, pathKey_id] at hkey
  exact hne (append_right_eq_self.mp hkey)

theorem normalizeArchive_eq_ok {run : ExtractionRun} :
    (normalizeArchive limits root format reads listing run).result = .ok () ↔
      listing = .ok () ∧ ∃ made, createDir run.state.tree root = .ok made ∧
        ∃ state, Lands (extractArchive limits root format reads)
          (run.acted (.makesParents root) made) () state := by
  constructor
  · intro h
    obtain ⟨_, hact, htry⟩ := result_bind_eq_ok.mp h
    obtain ⟨made, hmade, hfinal⟩ := ends_act.mp ⟨hact, rfl⟩
    obtain ⟨_, hloop, hlisting⟩ :=
      result_bind_eq_ok.mp (result_of_tryCatch_fail htry)
    refine ⟨hlisting, made, hmade, _, _, ⟨?_, rfl⟩, rfl⟩
    rw [hfinal]
    exact hloop
  · rintro ⟨rfl, made, hmade, _, middle, hloop, -⟩
    have hact : Ends (act (.makesParents root) (createDir · root)) run ()
      (run.acted (.makesParents root) made) := ends_act.mpr ⟨made, hmade, rfl⟩
    have hbody : Ends (extractArchive limits root format reads >>= fun _ ↦ judge (.ok ()))
        (run.acted (.makesParents root) made) () middle :=
      ends_bind.mpr ⟨(), middle, hloop, ends_judge.mpr ⟨rfl, rfl⟩⟩
    refine result_bind_eq_ok.mpr ⟨(), hact.1, ?_⟩
    rw [hact.2]
    exact result_tryCatch_of_ok hbody.1

theorem accepted_iff (hformat : format ≠ .tar) :
    (normalizeArchive limits root format reads listing (notBegun tree)).result = .ok () ↔
      IsExtracted limits root tree format reads listing := by
  rw [normalizeArchive_eq_ok]
  have hloop (made : FileTree id) (hmade : createDir tree root = .ok made) :
      (∃ state, Lands (extractArchive limits root format reads)
        ((notBegun tree).acted (.makesParents root) made) () state) ↔
          ∃ archive, reads = archive.map .ok ∧ Accepted limits format archive := by
    have hstart : Progress format root []
        ((notBegun tree).acted (.makesParents root) made).state :=
      ⟨extracted_start (isEmptyDirectory_createDir hmade), rfl, rfl,
        fun _ hitem ↦ absurd hitem not_mem_nil⟩
    exact hstart.lands_iff hformat accepted_nil
  constructor
  · rintro ⟨hlisting, made, hmade, hlands⟩
    exact ⟨⟨made, hmade⟩, hlisting, (hloop made hmade).mp hlands⟩
  · rintro ⟨⟨made, hmade⟩, hlisting, haccepted⟩
    exact ⟨hlisting, made, hmade, (hloop made hmade).mpr haccepted⟩

theorem plain_of_tarRound {item : ArchiveItem} {run : ExtractionRun}
    (h : Ends (extractRound limits root .tar (.ok item)) run () final) :
    ¬ item.IsLinkOrSpecial := by
  rintro ⟨hregular, hdirectory⟩
  obtain ⟨_, _, hread, hround⟩ := ends_bind.mp h
  obtain ⟨hitem, rfl⟩ := ends_judge.mp hread
  obtain rfl := Except.ok.inj hitem
  dsimp only [tarRound] at hround
  split_ifs at hround
  · exact throwIf_eq_ok.mp (ends_judge.mp hround).1 hdirectory
  · obtain ⟨_, _, -, hround⟩ := ends_bind.mp hround
    obtain ⟨_, _, -, hround⟩ := ends_bind.mp hround
    obtain ⟨_, _, -, hround⟩ := ends_bind.mp hround
    obtain ⟨_, _, hkind, -⟩ := ends_bind.mp hround
    exact throwIf_eq_ok.mp (ends_judge.mp hkind).1 hregular

theorem plain_of_tar {run : ExtractionRun}
    (h : Ends (extractArchive limits root .tar reads) run () final) :
    ∀ item, .ok item ∈ reads → ¬ item.IsLinkOrSpecial := by
  induction reads generalizing run with
  | nil => exact fun _ hitem ↦ absurd hitem not_mem_nil
  | cons read rest ih =>
    obtain ⟨_, middle, hround, hrest⟩ := ends_bind.mp h
    intro item hitem
    rcases mem_cons.mp hitem with rfl | hitem
    · exact plain_of_tarRound hround
    · exact ih hrest item hitem

/-- **An extraction is safe in every respect but one for every archive. Links and special files are
rejected in every TAR, and in a ZIP or a 7z archive only when there are none or the archive is
refused for another reason.** -/
theorem extracts_safely_iff (limits : NormalizationLimits) (root : Path) (tree : FileTree id)
    (format : BoundedFormat) (reads : List ArchiveRead) (listing : Except NormalizerError Unit) :
    ExtractsSafely limits root tree
        (normalizeArchive limits root format reads listing (notBegun tree)) reads ↔
      format = .tar ∨ (∀ item, .ok item ∈ reads → ¬ item.IsLinkOrSpecial) ∨
        ¬ IsExtracted limits root tree format reads listing := by
  obtain ⟨-, hok, herror⟩ :=
    @ensures_normalizeArchive limits root tree format reads listing (notBegun tree) rfl
  constructor
  · intro h
    by_cases htar : format = .tar
    · exact .inl htar
    · by_cases hextracted : IsExtracted limits root tree format reads listing
      · exact .inr (.inl (h.rejects ((accepted_iff htar).mpr hextracted)))
      · exact .inr (.inr hextracted)
  · intro hcondition
    set outcome := normalizeArchive limits root format reads listing (notBegun tree)
    refine ⟨?_, ?_, fun hresult ↦ ?_, fun failure hfailure ↦ (herror failure hfailure).2⟩
    · cases hresult : outcome.result with
      | ok value => exact (hok value hresult).1
      | error failure => exact (herror failure hresult).1
    · cases hresult : outcome.result with
      | ok value => exact (hok value hresult).2
      | error failure => exact fun path _ ↦ (herror failure hresult).2 path
    · by_cases htar : format = .tar
      · subst htar
        obtain ⟨-, _, -, _, _, hloop, -⟩ := normalizeArchive_eq_ok.mp hresult
        exact plain_of_tar hloop
      · refine (hcondition.resolve_left htar).resolve_right fun hrefused ↦ ?_
        exact hrefused ((accepted_iff htar).mp hresult)

end Whole

/-- A 7z archive with one symbolic link, and a ZIP archive with one named pipe: both are extracted,
the link as a file that holds its target. -/
theorem links_and_pipes_are_extracted :
    let limits : NormalizationLimits := ⟨1, 1, 1, by decide, by decide⟩
    let link : ArchiveItem := ⟨['a'], .symbolicLink, 1, false, [[98]], none⟩
    let pipe : ArchiveItem := ⟨['a'], .special, 0, false, [], none⟩
    let tree : FileTree id := .ofEntries [([], .directory)] (by decide) (by decide)
    ¬ ExtractsSafely limits [['r']] tree (normalizeArchive limits [['r']] .sevenZip [.ok link]
        (.ok ()) (notBegun tree)) [.ok link] ∧
      ¬ ExtractsSafely limits [['r']] tree (normalizeArchive limits [['r']] .zip [.ok pipe]
        (.ok ()) (notBegun tree)) [.ok pipe] := by
  intro limits link pipe tree
  constructor
  · intro h
    exact h.rejects (by decide) link mem_cons_self (by decide)
  · intro h
    exact h.rejects (by decide) pipe mem_cons_self (by decide)

end GameLauncher.Normalizer
