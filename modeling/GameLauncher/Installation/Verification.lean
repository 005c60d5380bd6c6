import GameLauncher.Installation.RunStarts

/-!
# Verification of an installed build

`HoldsBuild` is a tree that has every file of a manifest under a root. `VerifyAsync` finds nothing
wrong with such a tree, and it returns unless an operation fails or the caller cancels.
-/

set_option autoImplicit false

namespace GameLauncher.Installation

open Foundation Fallible Manifests Process Context List FileTree

variable {fold : Char → Char}

/-- A build is in place: the root is a directory, and every file has a content that its recipe
prescribes. -/
structure HoldsBuild (env : Environment fold) (manifest : Manifest) (root : Path)
    (tree : FileTree fold) : Prop where
  directory : tree.node root = some .directory
  files : ∀ file ∈ manifest.files, Holds env file (root ++ names file.path) tree

theorem hasDirectoryLink_of_file {tree : FileTree fold} {root relative : Path} {content : Bytes}
    (h : tree.node (root ++ relative) = some (.file content)) :
    hasDirectoryLink tree root relative = false := by
  rw [hasDirectoryLink, any_eq_false]
  intro above habove hlink
  rw [Bool.and_eq_true, decide_eq_true_eq] at hlink
  obtain ⟨below, rfl⟩ := (mem_inits _ _).mp habove
  by_cases hbelow : below = []
  · rw [hbelow, append_nil] at h
    rw [h] at hlink
    cases hlink.2
  · rw [← append_assoc, node_eq_none_of_below (by rw [hlink.2]; simp) hbelow] at h
    cases h

variable {ctx : Context fold} {tree : FileTree fold}

theorem keeps_verifyFile_of_holds {file : FileRecipe} {path : Path} (hsafe : ctx.safe tree)
    (h : Holds ctx.env file path tree) :
    ctx.Keeps (fun other ↦ other = tree) (verifyFile ctx.env path file.size file.blake3)
      (fun valid other ↦ valid = true ∧ other = tree) fun _ ↦ True := by
  obtain ⟨content, hnode, hlength, hhash⟩ := h
  have hcontent : tree.content path = some content := content_eq_some.mpr hnode
  refine keeps_bind (fun candidate other ↦ candidate = true ∧ other = tree) (keeps_inspect ?_)
    fun candidate ↦ keeps_assume fun hcandidate ↦ ?_
  · rintro _ rfl
    exact ⟨by simp [hcontent, hlength], rfl⟩
  rw [if_pos hcandidate]
  refine keeps_bind (fun found other ↦ found = content ∧ other = tree)
    (keeps_observe (fun other hother ↦ hother ▸ hsafe) (fun _ _ ↦ trivial) ?_ ?_) fun found ↦
      keeps_assume fun hfound ↦ keeps_pure fun other hother ↦ ⟨?_, hother⟩
  · rintro _ found rfl hfound
    rw [hcontent, Except.ok.injEq] at hfound
    exact ⟨hfound.symm, rfl⟩
  · rintro _ rfl -
    exact ⟨content, by rw [hcontent]⟩
  · rw [hfound, hhash, beq_self_eq_true]

theorem keeps_ensureSafeRoot_of_directory {root : Path} (hsafe : ctx.safe tree)
    (h : tree.node root = some .directory) :
    ctx.Keeps (fun other ↦ other = tree) (ensureSafeRoot ctx.env root) (fun _ other ↦ other = tree)
      fun _ ↦ True := by
  refine keeps_bind (fun _ other ↦ other = tree) (keeps_operation (fun other hother ↦ hother ▸ hsafe)
    (fun _ _ ↦ trivial) ?_ ?_) fun _ ↦ keeps_bind (fun linked other ↦ linked = false ∧ other = tree)
      (keeps_observe (fun other hother ↦ hother ▸ hsafe) (fun _ _ ↦ trivial) ?_ ?_) fun linked ↦
        keeps_assume fun hlinked ↦ ?_
  · rintro other made rfl hmade
    rw [createDirectory_of_directory h, Except.ok.injEq] at hmade
    rw [← hmade]
    exact ⟨hsafe, rfl⟩
  · rintro other rfl -
    exact ⟨other, createDirectory_of_directory h⟩
  · rintro other linked rfl hlinked
    rw [h, Except.ok.injEq] at hlinked
    exact ⟨hlinked.symm, rfl⟩
  · rintro other rfl -
    exact ⟨false, by rw [h]⟩
  · rw [hlinked]
    exact keeps_pure fun _ hother ↦ hother

/-- The verification of a build that is in place finds nothing, and it fails only when an
operation does. -/
theorem keeps_verifyAsync {manifest : Manifest} {root : Path} (hsafe : ctx.safe tree)
    (hvalid : ManifestValidator.validate ctx.env.unicode manifest = .ok ())
    (h : HoldsBuild ctx.env manifest root tree) :
    ctx.Keeps (fun other ↦ other = tree) (verifyAsync ctx.env manifest root)
      (fun invalid other ↦ invalid = [] ∧ other = tree) fun _ ↦ True := by
  have hlift {result : Except Failure Unit} (hresult : result = .ok ()) :
      ctx.Keeps (fun other ↦ other = tree) (lift result) (fun _ other ↦ other = tree)
        fun _ ↦ True :=
    keeps_lift (fun _ _ _ hother ↦ hother) (fun _ _ ↦ trivial) fun _ ↦ ⟨(), hresult⟩
  refine keeps_bind _ (hlift (mapError_eq_ok.mpr hvalid)) fun _ ↦ ?_
  refine keeps_bind _ (keeps_ensureSafeRoot_of_directory hsafe h.directory) fun _ ↦
    (keeps_forEach (fun _ invalid other ↦ invalid = [] ∧ other = tree) ?_).mono
      (fun _ hother ↦ ⟨rfl, hother⟩) (fun _ _ hother ↦ hother) fun _ hother ↦ hother
  intro done file rest invalid hsplit
  have hfile : file ∈ manifest.files := by
    rw [hsplit]
    simp
  have hportable := (ManifestValidator.paths_of_validate hvalid).1 file hfile
  obtain ⟨content, hnode, -⟩ := h.files file hfile
  refine keeps_assume fun hinvalid ↦ ?_
  refine keeps_bind _ (keeps_throwIfCancellationRequested fun _ _ ↦ trivial) fun _ ↦ ?_
  refine keeps_bind (fun path other ↦ path = root ++ names file.path ∧ other = tree) ?_
    fun path ↦ keeps_assume fun hpath ↦ ?_
  · refine keeps_bind _ (hlift (mapError_eq_ok.mpr hportable)) fun _ ↦ ?_
    refine keeps_bind (fun escapes other ↦ escapes = false ∧ other = tree) (keeps_inspect ?_)
      fun escapes ↦ keeps_assume fun hescapes ↦ ?_
    · rintro _ rfl
      exact ⟨hasDirectoryLink_of_file hnode, rfl⟩
    · rw [hescapes]
      exact keeps_pure fun _ hother ↦ ⟨rfl, hother⟩
  · rw [hpath]
    refine keeps_bind _ (keeps_verifyFile_of_holds hsafe (h.files file hfile)) fun valid ↦
      keeps_assume fun hinPlace ↦ keeps_pure fun _ hother ↦ ⟨?_, hother⟩
    rw [if_pos hinPlace, hinvalid]

/-- Whatever fails while a build that is in place is verified, nothing wrong is found, and without
faults the verification returns. -/
theorem verifyAsync_of_holdsBuild (env : Environment fold) {manifest : Manifest} {root : Path}
    {world : World fold} (hvalid : ManifestValidator.validate env.unicode manifest = .ok ())
    (h : HoldsBuild env manifest root world.tree) :
    (∀ invalid, (verifyAsync env manifest root world).result = .ok invalid → invalid = []) ∧
      (env.Quiet → (verifyAsync env manifest root world).result = .ok []) := by
  let ctx : Context fold := {
    env := env
    installed := world.installed
    savedAt := world.savedAt
    bound := world.clock
    safe := fun _ ↦ True
    favourable := env.Quiet
    quiet := id }
  have hkeeps : ctx.Keeps (fun other ↦ other = world.tree) (verifyAsync env manifest root)
      (fun invalid other ↦ invalid = [] ∧ other = world.tree) fun _ ↦ True :=
    keeps_verifyAsync trivial hvalid h
  obtain ⟨-, hok, herror⟩ := hkeeps world ⟨rfl, rfl, Nat.le_refl _, rfl⟩
  refine ⟨fun invalid hinvalid ↦ (hok invalid hinvalid).2.2.2.1, fun hquiet ↦ ?_⟩
  cases hresult : (verifyAsync env manifest root world).result with
  | ok invalid => rw [(hok invalid hresult).2.2.2.1]
  | error failure => exact absurd hquiet (herror failure hresult).2

end GameLauncher.Installation
