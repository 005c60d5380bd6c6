import GameLauncher.Installation.Installer

/-!
# Triples about the tree alone

Between two writes to the table of installed games only the tree and the clock change. A `Context`
fixes the rest: the table, the time of its last write, a property of trees that every visited state
must have, and a proposition under which nothing fails. `Context.Keeps before task after failed` is
then a triple about trees: from a tree in `before` every visited tree is safe, a normal end is in
`after`, and a failure is in `failed` and excludes the favourable case. So one proof gives both what
survives every fault and that the task succeeds when there is none.
-/

set_option autoImplicit false

namespace GameLauncher.Installation

open Foundation Fallible Manifests Process

variable {fold : Char → Char}

/-- No operation fails and nobody cancels. -/
def Environment.Quiet (env : Environment fold) : Prop :=
  ∀ time, env.fault time = none ∧ env.canceled time = false ∧ env.databaseFault time = false

/-- A stretch of a run in which the table of installed games is not written. -/
structure Context (fold : Char → Char) where
  env : Environment fold
  installed : Table InstalledGame InstalledGame.gameId
  savedAt : Option ℕ
  bound : ℕ
  safe : FileTree fold → Prop
  favourable : Prop
  quiet : favourable → env.Quiet

namespace Context

variable (ctx : Context fold) {α β ι : Type}

/-- A world of this stretch whose tree has a property. -/
def frame (property : FileTree fold → Prop) (world : World fold) : Prop :=
  world.installed = ctx.installed ∧ world.savedAt = ctx.savedAt ∧ ctx.bound ≤ world.clock ∧
    property world.tree

/-- What every visited world satisfies. -/
def always (world : World fold) : Prop :=
  world.installed = ctx.installed ∧ world.savedAt = ctx.savedAt ∧ ctx.bound < world.clock ∧
    ctx.safe world.tree

/-- The triple about trees. -/
def Keeps (before : FileTree fold → Prop) (task : Task fold α) (after : α → FileTree fold → Prop)
    (failed : FileTree fold → Prop) : Prop :=
  Ensures (ctx.frame before) task ctx.always (fun value ↦ ctx.frame (after value))
    fun _ world ↦ ctx.frame failed world ∧ ¬ ctx.favourable

variable {ctx} {before failed : FileTree fold → Prop}

theorem frame_tick {property : FileTree fold → Prop} {world : World fold}
    (h : ctx.frame property world) : ctx.frame property world.tick :=
  ⟨h.1, h.2.1, Nat.le_succ_of_le h.2.2.1, h.2.2.2⟩

theorem always_tick {property : FileTree fold → Prop} {world : World fold}
    (h : ctx.frame property world) (hsafe : ctx.safe world.tree) : ctx.always world.tick :=
  ⟨h.1, h.2.1, Nat.lt_succ_of_le h.2.2.1, hsafe⟩

variable {after : α → FileTree fold → Prop}

theorem keeps_pure {value : α} (h : ∀ tree, before tree → after value tree) :
    ctx.Keeps before (pure value) after failed :=
  ensures_pure fun _ hworld ↦ ⟨hworld.1, hworld.2.1, hworld.2.2.1, h _ hworld.2.2.2⟩

theorem keeps_bind {first : Task fold α} {next : α → Task fold β} {after : β → FileTree fold → Prop}
    (middle : α → FileTree fold → Prop) (hfirst : ctx.Keeps before first middle failed)
    (hnext : ∀ value, ctx.Keeps (middle value) (next value) after failed) :
    ctx.Keeps before (first >>= next) after failed :=
  ensures_bind (fun value ↦ ctx.frame (middle value)) hfirst hnext

variable {task : Task fold α}

theorem Keeps.mono {before' failed' : FileTree fold → Prop} {after' : α → FileTree fold → Prop}
    (h : ctx.Keeps before task after failed) (hbefore : ∀ tree, before' tree → before tree)
    (hafter : ∀ value tree, after value tree → after' value tree)
    (hfailed : ∀ tree, failed tree → failed' tree) : ctx.Keeps before' task after' failed' :=
  Ensures.mono h (fun _ hworld ↦ ⟨hworld.1, hworld.2.1, hworld.2.2.1, hbefore _ hworld.2.2.2⟩)
    (fun _ hworld ↦ hworld)
    (fun value _ hworld ↦ ⟨hworld.1, hworld.2.1, hworld.2.2.1, hafter value _ hworld.2.2.2⟩)
    fun _ _ hworld ↦ ⟨⟨hworld.1.1, hworld.1.2.1, hworld.1.2.2.1, hfailed _ hworld.1.2.2.2⟩,
      hworld.2⟩

theorem ensures_frame_assume {always : World fold → Prop} {after : α → World fold → Prop}
    {fails : Failure → World fold → Prop} {fact : Prop}
    (h : fact → Ensures (ctx.frame before) task always after fails) :
    Ensures (ctx.frame fun tree ↦ fact ∧ before tree) task always after fails := by
  intro world hworld
  obtain ⟨hinstalled, hsaved, hbound, hfact, hbefore⟩ := hworld
  exact h hfact world ⟨hinstalled, hsaved, hbound, hbefore⟩

theorem keeps_assume {fact : Prop} (h : fact → ctx.Keeps before task after failed) :
    ctx.Keeps (fun tree ↦ fact ∧ before tree) task after failed :=
  ensures_frame_assume h

theorem keeps_of_tree
    (h : ∀ tree, before tree → ctx.Keeps (fun other ↦ other = tree) task after failed) :
    ctx.Keeps before task after failed := by
  intro world hworld
  exact h world.tree hworld.2.2.2 world ⟨hworld.1, hworld.2.1, hworld.2.2.1, rfl⟩

theorem keeps_operation {action : FileTree fold → Except IoFailure (FileTree fold)}
    {after : Unit → FileTree fold → Prop}
    (hsafe : ∀ tree, before tree → ctx.safe tree) (hfailed : ∀ tree, before tree → failed tree)
    (hok : ∀ tree made, before tree → action tree = .ok made → ctx.safe made ∧ after () made)
    (hpossible : ∀ tree, before tree → ctx.favourable → ∃ made, action tree = .ok made) :
    ctx.Keeps before (operation ctx.env action) after failed := by
  refine ensures_operation ?_ ?_
  · intro world made hworld haction
    obtain ⟨hmadeSafe, hmade⟩ := hok _ made hworld.2.2.2 haction
    exact ⟨⟨hworld.1, hworld.2.1, Nat.lt_succ_of_le hworld.2.2.1, hmadeSafe⟩,
      hworld.1, hworld.2.1, Nat.le_succ_of_le hworld.2.2.1, hmade⟩
  · intro world failure hworld hfailure
    refine ⟨always_tick hworld (hsafe _ hworld.2.2.2),
      frame_tick ⟨hworld.1, hworld.2.1, hworld.2.2.1, hfailed _ hworld.2.2.2⟩, fun hfavourable ↦ ?_⟩
    rcases hfailure with hfault | haction
    · rw [(ctx.quiet hfavourable world.clock).1] at hfault
      cases hfault
    · obtain ⟨made, hmade⟩ := hpossible _ hworld.2.2.2 hfavourable
      cases hmade.symm.trans haction

theorem keeps_observe {view : FileTree fold → Except IoFailure α}
    (hsafe : ∀ tree, before tree → ctx.safe tree) (hfailed : ∀ tree, before tree → failed tree)
    (hok : ∀ tree value, before tree → view tree = .ok value → after value tree)
    (hpossible : ∀ tree, before tree → ctx.favourable → ∃ value, view tree = .ok value) :
    ctx.Keeps before (observe ctx.env view) after failed := by
  refine ensures_observe ?_ ?_
  · intro world value hworld hview
    exact ⟨always_tick hworld (hsafe _ hworld.2.2.2),
      frame_tick ⟨hworld.1, hworld.2.1, hworld.2.2.1, hok _ value hworld.2.2.2 hview⟩⟩
  · intro world failure hworld hfailure
    refine ⟨always_tick hworld (hsafe _ hworld.2.2.2),
      frame_tick ⟨hworld.1, hworld.2.1, hworld.2.2.1, hfailed _ hworld.2.2.2⟩, fun hfavourable ↦ ?_⟩
    rcases hfailure with hfault | hview
    · rw [(ctx.quiet hfavourable world.clock).1] at hfault
      cases hfault
    · obtain ⟨value, hvalue⟩ := hpossible _ hworld.2.2.2 hfavourable
      cases hvalue.symm.trans hview

theorem keeps_inspect {view : FileTree fold → α} (h : ∀ tree, before tree → after (view tree) tree)
    :
    ctx.Keeps before (inspect view) after failed :=
  ensures_inspect fun _ hworld ↦ ⟨hworld.1, hworld.2.1, hworld.2.2.1, h _ hworld.2.2.2⟩

theorem keeps_lift {result : Except Failure α}
    (hok : ∀ value tree, result = .ok value → before tree → after value tree)
    (hfailed : ∀ tree, before tree → failed tree)
    (hpossible : ctx.favourable → ∃ value, result = .ok value) :
    ctx.Keeps before (lift result) after failed := by
  refine ensures_lift ?_ ?_
  · intro value world hvalue hworld
    exact ⟨hworld.1, hworld.2.1, hworld.2.2.1, hok value _ hvalue hworld.2.2.2⟩
  · intro failure world hfailure hworld
    refine ⟨⟨hworld.1, hworld.2.1, hworld.2.2.1, hfailed _ hworld.2.2.2⟩, fun hfavourable ↦ ?_⟩
    obtain ⟨value, hvalue⟩ := hpossible hfavourable
    cases hvalue.symm.trans hfailure

theorem keeps_throwIfCancellationRequested (hfailed : ∀ tree, before tree → failed tree) :
    ctx.Keeps before (throwIfCancellationRequested ctx.env) (fun _ ↦ before) failed := by
  refine ensures_throwIfCancellationRequested (fun world hworld ↦ hworld) ?_
  intro world hworld hcanceled
  refine ⟨⟨hworld.1, hworld.2.1, hworld.2.2.1, hfailed _ hworld.2.2.2⟩, fun hfavourable ↦ ?_⟩
  rw [(ctx.quiet hfavourable world.clock).2.1] at hcanceled
  cases hcanceled

theorem keeps_fail {failure : Failure} (hfailed : ∀ tree, before tree → failed tree)
    (hfavourable : ∀ tree, before tree → ¬ ctx.favourable) :
    ctx.Keeps before (fail failure) after failed :=
  ensures_fail fun _ hworld ↦ ⟨⟨hworld.1, hworld.2.1, hworld.2.2.1, hfailed _ hworld.2.2.2⟩,
    hfavourable _ hworld.2.2.2⟩

theorem keeps_tryCatch {body : Task fold α} {handler : Failure → Task fold α}
    (middle : FileTree fold → Prop) (hbody : ctx.Keeps before body after middle)
    (hhandler : ∀ failure, ¬ ctx.favourable → ctx.Keeps middle (handler failure) after failed) :
    ctx.Keeps before (tryCatch body handler) after failed := by
  refine ensures_tryCatch _ hbody fun failure ↦ ?_
  intro world hworld
  exact hhandler failure hworld.2 world hworld.1

theorem keeps_tryFinally {body : Task fold α} {cleanup : Task fold Unit}
    (middle : α → FileTree fold → Prop) (middleFailed : FileTree fold → Prop)
    (hbody : ctx.Keeps before body middle middleFailed)
    (hcleanup : ∀ value, Ensures (ctx.frame (middle value)) cleanup ctx.always
      (fun _ ↦ ctx.frame (after value)) fun _ _ ↦ False)
    (hcleanupFailed : Ensures (ctx.frame middleFailed) cleanup ctx.always
      (fun _ ↦ ctx.frame failed) fun _ _ ↦ False) :
    ctx.Keeps before (tryFinally body cleanup) after failed := by
  refine ensures_tryFinally _ _ hbody hcleanup fun failure ↦ ?_
  intro world hworld
  obtain ⟨hvisited, hok, herror⟩ := hcleanupFailed world hworld.1
  exact ⟨hvisited, fun value hvalue ↦ ⟨hok value hvalue, hworld.2⟩, herror⟩

theorem keeps_forEach {body : ι → β → Task fold β} {items : List ι} {accumulator : β}
    (invariant : List ι → β → FileTree fold → Prop)
    (hbody : ∀ done item rest accumulator, items = done ++ item :: rest →
      ctx.Keeps (invariant done accumulator) (body item accumulator) (invariant (done ++ [item]))
        failed) :
    ctx.Keeps (invariant [] accumulator) (forEach body items accumulator) (invariant items)
      failed :=
  ensures_forEach (fun done accumulator ↦ ctx.frame (invariant done accumulator)) hbody

theorem ensures_ignoreIo_operation {action : FileTree fold → Except IoFailure (FileTree fold)}
    {test : FileTree fold → Bool} {after : FileTree fold → Prop}
    (hsafe : ∀ tree, before tree → ctx.safe tree) (hskipped : ∀ tree, before tree → after tree)
    (hok : ∀ tree made, before tree → test tree = true → action tree = .ok made →
      ctx.safe made ∧ after made) :
    Ensures (ctx.frame before)
      (tryCatch (do
        let found ← inspect test
        if found then operation ctx.env action else return ()) ignoreIo)
      ctx.always (fun _ ↦ ctx.frame after) fun _ _ ↦ False := by
  refine ensures_tryCatch (fun failure world ↦ (∃ raised, failure = .io raised) ∧
    ctx.frame after world) ?_ ?_
  · refine ensures_bind (fun found world ↦ ctx.frame before world ∧ found = test world.tree)
      (ensures_inspect fun world hworld ↦ ⟨hworld, rfl⟩) fun found ↦ ?_
    cases found with
    | false =>
      refine ensures_pure fun world hworld ↦ ?_
      obtain ⟨⟨hinstalled, hsaved, hbound, htree⟩, -⟩ := hworld
      exact ⟨hinstalled, hsaved, hbound, hskipped _ htree⟩
    | true =>
      refine ensures_operation ?_ ?_
      · rintro world made ⟨hworld, htest⟩ haction
        obtain ⟨hmadeSafe, hmade⟩ := hok _ made hworld.2.2.2 htest.symm haction
        exact ⟨⟨hworld.1, hworld.2.1, Nat.lt_succ_of_le hworld.2.2.1, hmadeSafe⟩,
          hworld.1, hworld.2.1, Nat.le_succ_of_le hworld.2.2.1, hmade⟩
      · rintro world failure ⟨hworld, -⟩ -
        exact ⟨always_tick hworld (hsafe _ hworld.2.2.2), ⟨failure, rfl⟩,
          frame_tick ⟨hworld.1, hworld.2.1, hworld.2.2.1, hskipped _ hworld.2.2.2⟩⟩
  · intro failure world hworld
    obtain ⟨⟨raised, rfl⟩, hframe⟩ := hworld
    have hpure : Ensures (ctx.frame after) (pure () : Task fold Unit) ctx.always
        (fun _ ↦ ctx.frame after) fun _ _ ↦ False := ensures_pure fun _ h ↦ h
    exact hpure world hframe

end Context

end GameLauncher.Installation
