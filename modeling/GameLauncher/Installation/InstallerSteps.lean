import GameLauncher.Installation.Context
import GameLauncher.Installation.Transaction

/-!
# Triples of the installer's methods

Each method of the installer changes the tree only in a small region: the two files of a journal,
the file under construction, the file that is deleted. `ChangedOnly` says so of two trees, and a
property is `Context.Stable` in a region when changes there do not affect it. The triples below are
stated for any stable property, so that they are used with whatever a transaction has to carry
along.
-/

set_option autoImplicit false

namespace GameLauncher.Installation

open Foundation Fallible Manifests Process FileTree

variable {fold : Char → Char}

/-! ### Changes in a region -/

variable {made tree : FileTree fold} {path : Path}

/-- Two trees hold the same outside a region. -/
def ChangedOnly (region : Path → Prop) (tree made : FileTree fold) : Prop :=
  ∀ path, made.node path ≠ tree.node path → region path

/-- The path itself, up to the case folding of the volume. -/
def At (fold : Char → Char) (target path : Path) : Prop := pathKey fold path = pathKey fold target

/-- The path holds a file with a content that a recipe prescribes. -/
def Holds (env : Environment fold) (file : FileRecipe) (path : Path) (tree : FileTree fold) :
    Prop :=
  ∃ content, tree.node path = some (.file content) ∧ Matches env file content

theorem ChangedOnly.mono {first second : Path → Prop} (h : ChangedOnly first tree made)
    (hsecond : ∀ path, first path → second path) : ChangedOnly second tree made :=
  fun path hpath ↦ hsecond path (h path hpath)

theorem ChangedOnly.node_eq {region : Path → Prop} (h : ChangedOnly region tree made)
    (hpath : ¬ region path) : made.node path = tree.node path := by
  by_contra hne
  exact hpath (h path hne)

theorem changedOnly_of_nodes {target : Path} {node : Option Node} (h : ∀ other, made.node other =
      if pathKey fold other = pathKey fold target then node else tree.node other) :
    ChangedOnly (At fold target) tree made := by
  intro path hpath
  by_contra hkey
  exact hpath ((h path).trans (if_neg hkey))

theorem changedOnly_writeFile {content : Bytes} (h : tree.writeFile path content = .ok made) :
    ChangedOnly (At fold path) tree made ∧ made.node path = some (.file content) := by
  obtain ⟨-, hnode⟩ := writeFile_eq_ok h
  exact ⟨changedOnly_of_nodes hnode, by rw [hnode, if_pos rfl]⟩

theorem changedOnly_createNew (h : tree.createNew path = .ok made) :
    ChangedOnly (At fold path) tree made ∧ made.node path = some (.file []) := by
  obtain ⟨-, hnode⟩ := createNew_eq_ok h
  exact ⟨changedOnly_of_nodes hnode, by rw [hnode, if_pos rfl]⟩

theorem changedOnly_appendFile {content bytes : Bytes}
    (hcontent : tree.node path = some (.file content)) (h : tree.appendFile path bytes = .ok made) :
    ChangedOnly (At fold path) tree made ∧ made.node path = some (.file (content ++ bytes)) := by
  obtain ⟨held, hheld, hnode⟩ := appendFile_eq_ok h
  rw [hcontent, Option.some.injEq, Node.file.injEq] at hheld
  refine ⟨changedOnly_of_nodes hnode, ?_⟩
  rw [hnode, if_pos rfl, hheld]

theorem changedOnly_deleteFile (h : tree.deleteFile path = .ok made) :
    ChangedOnly (At fold path) tree made ∧ made.node path = none := by
  have hnode := deleteFile_eq_ok h
  exact ⟨changedOnly_of_nodes hnode, by rw [hnode, if_pos rfl]⟩

theorem changedOnly_moveFile {source destination : Path}
    (h : tree.moveFile source destination = .ok made) :
    ChangedOnly (fun path ↦ At fold source path ∨ At fold destination path) tree made ∧
      made.node destination = tree.node source := by
  obtain ⟨moved, hmoved, -, -, hnode⟩ := moveFile_eq_ok h
  refine ⟨fun path hpath ↦ ?_, by rw [hnode, if_pos rfl, hmoved]⟩
  by_contra hkey
  rw [not_or] at hkey
  exact hpath ((hnode path).trans ((if_neg hkey.2).trans (if_neg hkey.1)))

namespace Context

variable {ctx : Context fold} {property before failed : FileTree fold → Prop}
  {region : Path → Prop} {α β ι : Type}

/-- Changes in the region keep the property, which implies what every visited tree satisfies. -/
structure Stable (ctx : Context fold) (region : Path → Prop) (property : FileTree fold → Prop) :
    Prop where
  safe : ∀ tree, property tree → ctx.safe tree
  keeps : ∀ tree made, property tree → ChangedOnly region tree made → property made

theorem Stable.mono {other : Path → Prop} (h : ctx.Stable region property)
    (hother : ∀ path, other path → region path) : ctx.Stable other property :=
  ⟨h.safe, fun tree made htree hmade ↦ h.keeps tree made htree (hmade.mono hother)⟩

/-! ### Steps -/

variable {after : α → FileTree fold → Prop}

section

variable (hnot : ¬ ctx.favourable) (hsafe : ∀ tree, before tree → ctx.safe tree)
  (hfailed : ∀ tree, before tree → failed tree)

include hnot hsafe hfailed

theorem keeps_operation_of_ok {action : FileTree fold → Except IoFailure (FileTree fold)}
    {after : Unit → FileTree fold → Prop}
    (hok : ∀ tree made, before tree → action tree = .ok made → ctx.safe made ∧ after () made) :
    ctx.Keeps before (operation ctx.env action) after failed :=
  keeps_operation hsafe hfailed hok fun _ _ hfavourable ↦ absurd hfavourable hnot

theorem keeps_observe_of_ok {view : FileTree fold → Except IoFailure α}
    (hok : ∀ tree value, before tree → view tree = .ok value → after value tree) :
    ctx.Keeps before (observe ctx.env view) after failed :=
  keeps_observe hsafe hfailed hok fun _ _ hfavourable ↦ absurd hfavourable hnot

end

theorem keeps_fail_of_not (hnot : ¬ ctx.favourable) {failure : Failure}
    (hfailed : ∀ tree, before tree → failed tree) : ctx.Keeps before (fail failure) after failed :=
  keeps_fail hfailed fun _ _ ↦ hnot

theorem keeps_lift_of_ok (hnot : ¬ ctx.favourable) {result : Except Failure α}
    (hok : ∀ value tree, result = .ok value → before tree → after value tree)
    (hfailed : ∀ tree, before tree → failed tree) : ctx.Keeps before (lift result) after failed :=
  keeps_lift hok hfailed fun hfavourable ↦ absurd hfavourable hnot

theorem keeps_ite {condition : Prop} [Decidable condition] {first second : Task fold α}
    (hfirst : condition → ctx.Keeps before first after failed)
    (hsecond : ¬ condition → ctx.Keeps before second after failed) :
    ctx.Keeps before (if condition then first else second) after failed := by
  split_ifs with hcondition
  · exact hfirst hcondition
  · exact hsecond hcondition

theorem Keeps.of_total {task : Task fold α}
    (h : Ensures (ctx.frame before) task ctx.always (fun value ↦ ctx.frame (after value))
      fun _ _ ↦ False) : ctx.Keeps before task after failed :=
  Ensures.mono h (fun _ hworld ↦ hworld) (fun _ hworld ↦ hworld) (fun _ _ hworld ↦ hworld)
    fun _ _ himpossible ↦ himpossible.elim

theorem ensures_tryDeleteFile (h : ctx.Stable (At fold path) property) :
    Ensures (ctx.frame property) (tryDeleteFile ctx.env path) ctx.always
      (fun _ ↦ ctx.frame property) fun _ _ ↦ False := by
  refine ensures_ignoreIo_operation h.safe (fun _ htree ↦ htree) fun tree made htree _ hmade ↦ ?_
  have hkept := h.keeps tree made htree (changedOnly_deleteFile hmade).1
  exact ⟨h.safe made hkept, hkept⟩

/-! ### Journals -/

variable {journal : TransactionJournal}

def JournalFiles (fold : Char → Char) (journalPath path : Path) : Prop :=
  At fold journalPath path ∨ At fold (suffixed journalPath ".part") path

section

variable (hnot : ¬ ctx.favourable)

include hnot

theorem keeps_writeJournal {cancellable : Bool} (h : ctx.Stable (JournalFiles fold path) property) :
    ctx.Keeps property (writeJournal ctx.env cancellable path journal)
      (fun _ tree ↦ property tree ∧ tree.node path = some (.file (ctx.env.encode journal)))
      property := by
  have hwrite : ctx.Keeps property (do
      operation ctx.env fun tree ↦ tree.writeFile (suffixed path ".part") (ctx.env.encode journal)
      operation ctx.env fun tree ↦ tree.moveFile (suffixed path ".part") path)
      (fun _ tree ↦ property tree ∧ tree.node path = some (.file (ctx.env.encode journal)))
      property := by
    refine keeps_bind (fun _ tree ↦ property tree ∧
      tree.node (suffixed path ".part") = some (.file (ctx.env.encode journal)))
      (keeps_operation_of_ok hnot h.safe (fun _ htree ↦ htree) fun tree made htree hmade ↦ ?_)
      fun _ ↦ keeps_operation_of_ok hnot (fun tree htree ↦ h.safe tree htree.1)
        (fun _ htree ↦ htree.1) fun tree made htree hmade ↦ ?_
    · obtain ⟨hchanged, hnode⟩ := changedOnly_writeFile hmade
      have hkept := h.keeps tree made htree (hchanged.mono fun _ hpath ↦ .inr hpath)
      exact ⟨h.safe made hkept, hkept, hnode⟩
    · obtain ⟨hchanged, hnode⟩ := changedOnly_moveFile hmade
      have hkept := h.keeps tree made htree.1 (hchanged.mono fun _ hpath ↦ hpath.symm)
      exact ⟨h.safe made hkept, hkept, by rw [hnode, htree.2]⟩
  refine keeps_tryCatch property ?_ fun failure _ ↦ ?_
  · cases cancellable with
    | true =>
      exact keeps_bind _ (keeps_throwIfCancellationRequested fun _ htree ↦ htree) fun _ ↦ hwrite
    | false => exact hwrite
  · have hdelete := ensures_tryDeleteFile
      (h.mono fun _ hpath ↦ .inr hpath : ctx.Stable (At fold (suffixed path ".part")) _)
    exact keeps_bind (fun _ ↦ property) (.of_total hdelete) fun _ ↦
      keeps_fail_of_not hnot fun _ htree ↦ htree

theorem keeps_journalHandler {failure : Failure} (h : ctx.Stable (JournalFiles fold path) failed) :
    ctx.Keeps failed (do
      tryWriteFailedJournal ctx.env path journal
      fail failure) after failed := by
  refine keeps_bind (fun _ ↦ failed) (keeps_tryCatch failed ?_ fun raised _ ↦ ?_) fun _ ↦
    keeps_fail_of_not hnot fun _ htree ↦ htree
  · exact (keeps_writeJournal hnot h).mono (fun _ htree ↦ htree) (fun _ _ htree ↦ htree.1)
      fun _ htree ↦ htree
  · unfold ignoreIo
    split
    · exact keeps_pure fun _ htree ↦ htree
    · exact keeps_fail_of_not hnot fun _ htree ↦ htree

theorem keeps_guarded {body : Task fold α} (h : ctx.Stable (JournalFiles fold path) failed)
    (hbody : ctx.Keeps before body after failed) :
    ctx.Keeps before (guarded ctx.env path journal body) after failed :=
  keeps_tryCatch failed hbody fun _ _ ↦ keeps_journalHandler hnot h

/-! ### Files -/

theorem keeps_resolveUnderRoot {root : Path} {portablePath : Text} :
    ctx.Keeps before (resolveUnderRoot ctx.env root portablePath)
      (fun path tree ↦ path = root ++ names portablePath ∧ before tree) before := by
  refine keeps_bind (fun _ ↦ before) (keeps_lift_of_ok hnot (fun _ _ _ htree ↦ htree)
    fun _ htree ↦ htree) fun _ ↦ ?_
  refine keeps_bind (fun _ ↦ before) (keeps_inspect fun _ htree ↦ htree) fun escapes ↦ ?_
  exact keeps_ite (fun _ ↦ keeps_fail_of_not hnot fun _ htree ↦ htree)
    fun _ ↦ keeps_pure fun _ htree ↦ ⟨rfl, htree⟩

theorem keeps_hasReparsePoint (hsafe : ∀ tree, before tree → ctx.safe tree) :
    ctx.Keeps before (hasReparsePoint ctx.env path) (fun linked tree ↦ before tree ∧
      (linked = false → ∀ toDirectory, tree.node path ≠ some (.reparsePoint toDirectory)))
      before := by
  refine keeps_observe_of_ok hnot hsafe (fun _ htree ↦ htree) fun tree linked htree hview ↦
    ⟨htree, fun hlinked toDirectory hnode ↦ ?_⟩
  rw [hnode, hlinked] at hview
  cases hview

theorem keeps_verifyFile {size : ℕ} {hash : Text} (hsafe : ∀ tree, before tree → ctx.safe tree) :
    ctx.Keeps before (verifyFile ctx.env path size hash) (fun valid tree ↦ before tree ∧
      (valid = true → ∃ content, tree.node path = some (.file content) ∧ content.length = size ∧
        ctx.env.computeHash content = hash)) before := by
  refine keeps_bind (fun candidate tree ↦ before tree ∧
    (candidate = true → ∃ content, tree.node path = some (.file content) ∧ content.length = size))
    (keeps_inspect fun tree htree ↦ ⟨htree, fun hcandidate ↦ ?_⟩) fun candidate ↦ ?_
  · rw [Option.any_eq_true] at hcandidate
    obtain ⟨content, hcontent, hlength⟩ := hcandidate
    exact ⟨content, content_eq_some.mp hcontent, beq_iff_eq.mp hlength⟩
  cases candidate with
  | false => exact keeps_pure fun tree htree ↦ ⟨htree.1, fun hvalid ↦ by cases hvalid⟩
  | true =>
    refine keeps_bind (fun content tree ↦ before tree ∧ tree.node path = some (.file content) ∧
      content.length = size) (keeps_observe_of_ok hnot (fun tree htree ↦ hsafe tree htree.1)
        (fun _ htree ↦ htree.1) fun tree content htree hview ↦ ?_) fun content ↦ keeps_pure ?_
    · obtain ⟨hbefore, hcandidate⟩ := htree
      obtain ⟨held, hheld, hlength⟩ := hcandidate rfl
      rw [content_eq_some.mpr hheld, Except.ok.injEq] at hview
      exact ⟨hbefore, hview ▸ hheld, hview ▸ hlength⟩
    · intro tree htree
      exact ⟨htree.1, fun hvalid ↦ ⟨content, htree.2.1, htree.2.2, beq_iff_eq.mp hvalid⟩⟩

theorem keeps_readRaw {chunk : ChunkRef} :
    ctx.Keeps before (readRaw ctx.env chunk) (fun _ ↦ before) before := by
  have hcache : ctx.Keeps before (Process.query fun world : World fold ↦
      orThrow (ctx.env.readCache world.clock chunk.encodedHash) (.io .ioException))
      (fun _ ↦ before) before :=
    ensures_query (fun _ _ hworld _ ↦ hworld) fun _ _ hworld _ ↦ ⟨hworld, hnot⟩
  refine keeps_bind _ hcache fun encoded ↦ ?_
  refine keeps_bind _ (keeps_lift_of_ok hnot (fun _ _ _ htree ↦ htree) fun _ htree ↦ htree)
    fun raw ↦ ?_
  exact keeps_bind _ (keeps_lift_of_ok hnot (fun _ _ _ htree ↦ htree) fun _ htree ↦ htree)
    fun _ ↦ keeps_pure fun _ htree ↦ htree

theorem keeps_reconstructFile {file : FileRecipe} {temporary : Path}
    (h : ctx.Stable (At fold temporary) property) :
    ctx.Keeps property (reconstructFile ctx.env file temporary)
      (fun _ tree ↦ property tree ∧ Holds ctx.env file temporary tree) property := by
  have hsafe : ∀ tree, (property tree ∧ ∃ content, tree.node temporary = some (.file content)) →
      ctx.safe tree := fun tree htree ↦ h.safe tree htree.1
  refine keeps_bind (fun _ tree ↦ property tree ∧
    ∃ content, tree.node temporary = some (.file content))
    (keeps_operation_of_ok hnot h.safe (fun _ htree ↦ htree) fun tree made htree hmade ↦ ?_)
    fun _ ↦ ?_
  · obtain ⟨hchanged, hnode⟩ := changedOnly_createNew hmade
    have hkept := h.keeps tree made htree hchanged
    exact ⟨h.safe made hkept, hkept, [], hnode⟩
  refine keeps_bind (fun _ tree ↦ property tree ∧
    ∃ content, tree.node temporary = some (.file content)) (keeps_forEach
      (fun _ _ tree ↦ property tree ∧ ∃ content, tree.node temporary = some (.file content)) ?_)
    fun _ ↦ ?_
  · intro done chunk rest _ _
    refine keeps_bind _ ((keeps_readRaw hnot).mono (fun _ htree ↦ htree) (fun _ _ htree ↦ htree)
      fun _ htree ↦ htree.1) fun raw ↦ ?_
    refine keeps_operation_of_ok hnot hsafe (fun _ htree ↦ htree.1) fun tree made htree hmade ↦ ?_
    obtain ⟨hbefore, content, hcontent⟩ := htree
    obtain ⟨hchanged, hnode⟩ := changedOnly_appendFile hcontent hmade
    have hkept := h.keeps tree made hbefore hchanged
    exact ⟨h.safe made hkept, hkept, content ++ raw, hnode⟩
  · refine keeps_bind _ ((keeps_verifyFile hnot h.safe).mono (fun _ htree ↦ htree.1)
      (fun _ _ htree ↦ htree) fun _ htree ↦ htree) fun valid ↦ ?_
    refine keeps_ite (fun hvalid ↦ keeps_pure fun tree htree ↦ ?_)
      fun _ ↦ keeps_fail_of_not hnot fun _ htree ↦ htree.1
    obtain ⟨hbefore, hcontent⟩ := htree
    obtain ⟨content, hnode, hlength, hhash⟩ := hcontent hvalid
    exact ⟨hbefore, content, hnode, hlength, hhash⟩

end

end Context

end GameLauncher.Installation
