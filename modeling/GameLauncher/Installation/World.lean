import GameLauncher.Foundation.FileTree
import GameLauncher.Foundation.Process
import GameLauncher.Foundation.Table
import GameLauncher.Manifests.ManifestValidator

/-!
# The machine an installer runs on

The world of the installer is a file tree, the table of installed games and a clock that counts the
operations. The environment decides what the installer cannot: which operations fail, when the
caller cancels, what the chunk cache and the decompressor return, in which order a directory is
enumerated, and how a journal is written as text. A failed operation leaves the tree as it was.

Every file operation is one step, so that a crash falls between two of them; `ensures_operation`
and `ensures_observe` are its rules. Reading whether a path exists is no step, since it changes
nothing and cannot fail.

Names compare up to the case folding of the volume, and folding does not merge characters with
different upper case. Links above the installation root are taken as resolved, and a file name is
any text.
-/

set_option autoImplicit false

namespace GameLauncher.Installation

open Foundation Manifests

/-! ### Journals and installed games -/

/-- The two transactions. -/
inductive Operation
  | install
  | update
  deriving DecidableEq, Repr

/-- The word for an operation in a journal and in the names of its files. -/
def Operation.word : Operation → Text
  | .install => "install"
  | .update => "update"

inductive JournalState
  | started
  | filesystemCommitted
  | recoverableFailure
  | committed
  deriving DecidableEq, Repr

/-- The journal of a transaction. A member that JSON can leave null and that recovery reads is an
option. -/
structure TransactionJournal where
  transactionId : Text
  operation : Operation
  gameId : Text
  oldBuildId : Option Text
  newBuildId : Option Text
  state : JournalState
  backupRoot : Path
  committedPaths : List Text
  removedPaths : List Text
  deriving DecidableEq, Repr

/-- A row of the table of installed games. -/
structure InstalledGame where
  gameId : Text
  buildId : Text
  displayVersion : Text
  installRoot : Path
  manifest : Manifest
  installedAt : ℕ
  deriving DecidableEq, Repr

/-! ### The world and its environment -/

/-- What the installer acts on. The clock counts operations, and `savedAt` is the time right after
the last write to the table. -/
structure World (fold : Char → Char) where
  tree : FileTree fold
  installed : Table InstalledGame InstalledGame.gameId
  clock : ℕ
  savedAt : Option ℕ

/-- What an installer method throws. -/
inductive Failure
  | validation (exception : ManifestValidator.ValidationException)
  | argumentNull
  | io (failure : IoFailure)
  | database
  | canceled
  | decompression
  deriving DecidableEq, Repr

/-- What the installer depends on. A journal text that is no JSON of a safe journal's shape decodes
to nothing. -/
structure Environment (fold : Char → Char) where
  unicode : Unicode
  upper_of_fold : ∀ c d, fold c = fold d → unicode.upper c = unicode.upper d
  fault : ℕ → Option IoFailure
  databaseFault : ℕ → Bool
  canceled : ℕ → Bool
  readCache : ℕ → Text → Option Bytes
  decompress : Bytes → Option Bytes
  computeHash : Bytes → Text
  availableSpace : Option (Path → ℤ)
  encode : TransactionJournal → Bytes
  decode : Bytes → Option TransactionJournal
  decode_encode : ∀ journal, decode (encode journal) = some journal
  order : ℕ → List Path → List Path
  order_perm : ∀ time paths, (order time paths).Perm paths

/-- A method of the installer. -/
abbrev Task (fold : Char → Char) (α : Type) := Process (World fold) Failure α

variable {fold : Char → Char}

/-- The last write to the table was not later than now. -/
def World.WellTimed (world : World fold) : Prop :=
  ∀ time, world.savedAt = some time → time ≤ world.clock

/-- The world after an operation that changes nothing. -/
def World.tick (world : World fold) : World fold := { world with clock := world.clock + 1 }

def World.withTree (world : World fold) (tree : FileTree fold) : World fold :=
  { world.tick with tree := tree }

@[simp] theorem World.tick_clock (world : World fold) : world.tick.clock = world.clock + 1 := rfl
@[simp] theorem World.withTree_tree (world : World fold) (tree : FileTree fold) :
    (world.withTree tree).tree = tree := rfl

/-! ### The operations -/

/-- A step on the tree, which fails when the environment or the file API says so. -/
def operation (env : Environment fold) (action : FileTree fold → Except IoFailure (FileTree fold)) :
    Task fold Unit :=
  Process.step fun world ↦
    match env.fault world.clock with
    | some failure => (.error (.io failure), world.tick)
    | none =>
      match action world.tree with
      | .ok made => (.ok (), world.withTree made)
      | .error failure => (.error (.io failure), world.tick)

def observe {α : Type} (env : Environment fold) (view : FileTree fold → Except IoFailure α) :
    Task fold α :=
  Process.step fun world ↦
    match env.fault world.clock with
    | some failure => (.error (.io failure), world.tick)
    | none => ((view world.tree).mapError .io, world.tick)

/-- A look at the tree that cannot fail. -/
def inspect {α : Type} (view : FileTree fold → α) : Task fold α :=
  Process.query fun world ↦ .ok (view world.tree)

/-- `CancellationToken.ThrowIfCancellationRequested`. -/
def throwIfCancellationRequested (env : Environment fold) : Task fold Unit :=
  Process.query fun world ↦ if env.canceled world.clock then .error .canceled else .ok ()

/-- The result of a computation on values. -/
def lift {α : Type} (result : Except Failure α) : Task fold α := Process.query fun _ ↦ result

/-- `SaveInstalledGameAsync`, one transaction of the local database. -/
def saveInstalledGame (env : Environment fold) (game : ℕ → InstalledGame) : Task fold Unit :=
  Process.step fun world ↦
    if env.databaseFault world.clock then (.error .database, world.tick)
    else (.ok (), { world.tick with
      installed := world.installed.upsert (game world.clock)
      savedAt := some (world.clock + 1) })

/-! ### The rules of the operations -/

section Rules

open Process

variable {env : Environment fold} {before always : World fold → Prop}
  {fails : Failure → World fold → Prop}

theorem ensures_operation {action : FileTree fold → Except IoFailure (FileTree fold)}
    {after : Unit → World fold → Prop}
    (hok : ∀ world made, before world → action world.tree = .ok made →
      always (world.withTree made) ∧ after () (world.withTree made))
    (herror : ∀ world failure, before world →
      env.fault world.clock = some failure ∨ action world.tree = .error failure →
      always world.tick ∧ fails (.io failure) world.tick) :
    Ensures before (operation env action) always after fails := by
  refine ensures_step_of_cases fun world hworld ↦ ?_
  cases hfault : env.fault world.clock with
  | some failure =>
    obtain ⟨halways, hfails⟩ := herror world failure hworld (.inl hfault)
    exact ⟨halways, .inr ⟨_, rfl, hfails⟩⟩
  | none =>
    cases haction : action world.tree with
    | ok made =>
      obtain ⟨halways, hafter⟩ := hok world made hworld haction
      exact ⟨halways, .inl ⟨_, rfl, hafter⟩⟩
    | error failure =>
      obtain ⟨halways, hfails⟩ := herror world failure hworld (.inr haction)
      exact ⟨halways, .inr ⟨_, rfl, hfails⟩⟩

variable {α : Type} {after : α → World fold → Prop}

theorem ensures_observe {view : FileTree fold → Except IoFailure α}
    (hok : ∀ world value, before world → view world.tree = .ok value →
      always world.tick ∧ after value world.tick) (herror : ∀ world failure, before world →
      env.fault world.clock = some failure ∨ view world.tree = .error failure →
      always world.tick ∧ fails (.io failure) world.tick) :
    Ensures before (observe env view) always after fails := by
  refine ensures_step_of_cases fun world hworld ↦ ?_
  cases hfault : env.fault world.clock with
  | some failure =>
    obtain ⟨halways, hfails⟩ := herror world failure hworld (.inl hfault)
    exact ⟨halways, .inr ⟨_, rfl, hfails⟩⟩
  | none =>
    cases hview : view world.tree with
    | ok value =>
      obtain ⟨halways, hafter⟩ := hok world value hworld hview
      exact ⟨halways, .inl ⟨_, rfl, hafter⟩⟩
    | error failure =>
      obtain ⟨halways, hfails⟩ := herror world failure hworld (.inr hview)
      exact ⟨halways, .inr ⟨_, rfl, hfails⟩⟩

theorem ensures_inspect {view : FileTree fold → α}
    (h : ∀ world, before world → after (view world.tree) world) :
    Ensures before (inspect view) always after fails := by
  refine ensures_query ?_ ?_
  · rintro world value hworld ⟨⟩
    exact h world hworld
  · rintro world failure hworld ⟨⟩

theorem ensures_throwIfCancellationRequested {after : Unit → World fold → Prop}
    (hok : ∀ world, before world → after () world)
    (herror : ∀ world, before world → env.canceled world.clock = true → fails .canceled world) :
    Ensures before (throwIfCancellationRequested env) always after fails := by
  refine ensures_query ?_ ?_
  · intro world value hworld _
    exact hok world hworld
  · intro world failure hworld hresult
    by_cases hcanceled : env.canceled world.clock = true
    · rw [if_pos hcanceled, Except.error.injEq] at hresult
      rw [← hresult]
      exact herror world hworld hcanceled
    · rw [if_neg hcanceled] at hresult
      cases hresult

theorem ensures_lift {result : Except Failure α}
    (hok : ∀ value world, result = .ok value → before world → after value world)
    (herror : ∀ failure world, result = .error failure → before world → fails failure world) :
    Ensures before (lift result : Task fold α) always after fails := by
  refine ensures_query ?_ ?_
  · intro world value hworld hvalue
    exact hok value world hvalue hworld
  · intro world failure hworld hfailure
    exact herror failure world hfailure hworld

theorem ensures_fail {failure : Failure} (h : ∀ world, before world → fails failure world) :
    Ensures before (fail failure : Task fold α) always after fails := by
  refine ensures_query ?_ ?_
  · rintro world value hworld ⟨⟩
  · rintro world raised hworld ⟨⟩
    exact h world hworld

end Rules

end GameLauncher.Installation
