import GameLauncher.Foundation.Run
import GameLauncher.Scraper.Acquisition

/-!
# Handoffs over runs

The directories of the output root over any sequence of calls of `acquire` and of
`_cleanup_stale_incomplete_artifacts`. `handoffs_hold` is the promise of a handoff: the artifact
that it names exists and has the recorded size and digest. A call breaks it when it refuses a
download that has replaced the artifact of an older handoff, or when the artifact has a name that
the handoff itself needs; the cleaner breaks it when it takes an artifact for a partial file.
-/

set_option autoImplicit false

namespace GameLauncher.Scraper

open Foundation List Table

variable (service : ScraperService)

/-! ### The cleaner -/

/-- Does a path match `*.part`? -/
def isPartial (path : OutputPath) : Bool := ".part".toList.isSuffixOf (path.getLastD [])

/-- A directory without a handoff in which every file is older than a time. -/
def isStale (tree : OutputTree) (cutoff : ℤ) (root : OutputPath) : Bool :=
  tree.find (root ++ [handoffName]) = none &&
    tree.rows.all fun file ↦ !root.isPrefixOf file.path || (file.modified : ℤ) < cutoff

/-- `_cleanup_stale_incomplete_artifacts`: first the old partial files, then the directories at the
second level that are stale. -/
def cleanupStaleIncompleteArtifacts (tree : OutputTree) (cutoff : ℤ) : OutputTree :=
  let tree := tree.deleteWhere fun file ↦ isPartial file.path && (file.modified : ℤ) < cutoff
  tree.deleteWhere fun file ↦ 2 < file.path.length && isStale tree cutoff (file.path.take 2)

/-! ### Runs -/

inductive ScraperAction
  | acquire (request : AcquireRequest)
  | cleanup (cutoff : ℤ)

def scraperStep (tree : OutputTree) : ScraperAction → OutputTree
  | .acquire request => (acquire service request (.start tree)).2.tree
  | .cleanup cutoff => cleanupStaleIncompleteArtifacts tree cutoff

def HandoffIn (tree : OutputTree) (directory : OutputPath) (handoff : Handoff) : Prop :=
  ∃ file, tree.find (directory ++ [handoffName]) = some file ∧
    service.format.decode file.content = some handoff

/-- The artifact of a handoff exists and is as recorded. -/
def ArtifactHolds (tree : OutputTree) (handoff : Handoff) : Prop :=
  ∃ artifact, tree.find handoff.path = some artifact ∧
    artifact.content.length = handoff.actualSize ∧
      service.library.blake3 artifact.content = handoff.blake3

/-- No handoff dangles. -/
def HandoffsHold (tree : OutputTree) : Prop :=
  ∀ directory file, tree.find (directory ++ [handoffName]) = some file →
    ∃ handoff, service.format.decode file.content = some handoff ∧
      ArtifactHolds service tree handoff

/-- The steps that leave the older handoffs right. A successful call needs an artifact whose name is
not one of the two names of the handoff. Any other call must not have refused a download under the
name of an artifact that has been handed off. The cleaner must not find such an artifact under a
name of the form `*.part` and older than its limit. -/
def Harmless (tree : OutputTree) : ScraperAction → Prop
  | .acquire request =>
    match acquire service request (.start tree) with
    | (.returned _ (some artifact), _) =>
      artifact.path.getLast? ≠ some handoffName ∧ artifact.path.getLast? ≠ some temporaryHandoffName
    | (_, after) => ∀ directory handoff release, HandoffIn service tree directory handoff →
      request.release = some release → ∀ name ∈ after.refused,
        handoff.path ≠ destination service request.sourceName release ++ [name]
  | .cleanup cutoff => ∀ directory handoff artifact, HandoffIn service tree directory handoff →
      tree.find handoff.path = some artifact →
        ¬ (isPartial artifact.path = true ∧ (artifact.modified : ℤ) < cutoff)

variable {service}

/-! ### What a call leaves alone -/

/-- What a call without an artifact can change in a directory: the partial files, and the files
whose names it has refused, which are gone. -/
structure KeepsArtifacts (directory : OutputPath) (before after : Session) : Prop where
  kept : ∀ path, after.tree.find path = before.tree.find path ∨ ∃ name, path = directory ++ [name] ∧
      (name.head? = some '.' ∨ name ∈ after.refused ∧ after.tree.find path = none)
  refused : ∀ name ∈ before.refused, name ∈ after.refused

theorem KeepsArtifacts.refl (directory : OutputPath) (session : Session) :
    KeepsArtifacts directory session session where
  kept := fun _ ↦ .inl rfl
  refused := fun _ hname ↦ hname

variable {before : Session} {after : Session}

theorem KeepsArtifacts.trans {directory : OutputPath} {middle : Session}
    (hfirst : KeepsArtifacts directory before middle)
    (hsecond : KeepsArtifacts directory middle after) : KeepsArtifacts directory before after where
  kept := by
    intro path
    rcases hsecond.kept path with hsame | hchanged
    · rcases hfirst.kept path with hbefore | ⟨name, hpath, hname⟩
      · exact .inl (hsame.trans hbefore)
      · refine .inr ⟨name, hpath, hname.imp id fun hrefused ↦ ?_⟩
        exact ⟨hsecond.refused name hrefused.1, hsame.trans hrefused.2⟩
    · exact .inr hchanged
  refused := fun name hname ↦ hsecond.refused name (hfirst.refused name hname)

theorem KeepsArtifacts.outside {directory path : OutputPath}
    (h : KeepsArtifacts directory before after) (hpath : ∀ name, path ≠ directory ++ [name]) :
    after.tree.find path = before.tree.find path := by
  rcases h.kept path with hsame | ⟨name, hname, -⟩
  · exact hsame
  · exact absurd hname (hpath name)

theorem FetchEffect.keeps {directory : OutputPath} {filename : Text}
    {failure : DownloadFailure}
    (h : FetchEffect service directory filename before after (.error failure)) :
    KeepsArtifacts directory before after where
  kept := by
    intro path
    by_cases hpart : path = directory ++ [partName filename]
    · exact .inr ⟨_, hpart, .inl (partName_head filename)⟩
    by_cases hfinal : path = directory ++ [filename]
    · rcases h.failed failure rfl with hsame | ⟨hrefused, hgone⟩
      · exact .inl (hfinal ▸ hsame)
      · exact .inr ⟨_, hfinal, .inr ⟨hrefused, hfinal ▸ hgone⟩⟩
    · exact .inl (h.others path hpart hfinal)
  refused := h.refused

theorem FetchEffect.keeps_refused {directory : OutputPath} {filename : Text} {result : DownloadResult}
    (h : FetchEffect service directory filename before after (.ok result)) :
    KeepsArtifacts directory before {
      tree := after.tree.unlink result.path
      log := after.log
      refused := after.refused ++ [filename] } where
  kept := by
    intro path
    by_cases hpart : path = directory ++ [partName filename]
    · exact .inr ⟨_, hpart, .inl (partName_head filename)⟩
    by_cases hfinal : path = directory ++ [filename]
    · refine .inr ⟨_, hfinal, .inr ⟨mem_append_right _ mem_cons_self, ?_⟩⟩
      rw [OutputTree.find_unlink, (h.completed result rfl).2.1, if_pos hfinal]
    · refine .inl ?_
      rw [OutputTree.find_unlink, (h.completed result rfl).2.1, if_neg hfinal]
      exact h.others path hpart hfinal
  refused := fun name hname ↦ mem_append_left _ (h.refused name hname)

/-- What a call does: without an artifact it keeps the artifacts, and with one it keeps everything
outside its directory. -/
structure CallEffect (directory : OutputPath) (before after : Session) (outcome : AcquireOutcome) :
    Prop where
  kept : (∀ status artifact, outcome ≠ .returned status (some artifact)) →
    KeepsArtifacts directory before after
  outside : ∀ path, (∀ name, path ≠ directory ++ [name]) →
    after.tree.find path = before.tree.find path

theorem KeepsArtifacts.callEffect {directory : OutputPath}
    {outcome : AcquireOutcome} (h : KeepsArtifacts directory before after) :
    CallEffect directory before after outcome where
  kept := fun _ ↦ h
  outside := fun _ hpath ↦ h.outside hpath

theorem CallEffect.after_kept {directory : OutputPath} {middle : Session}
    {outcome : AcquireOutcome} (hkept : KeepsArtifacts directory before middle)
    (h : CallEffect directory middle after outcome) :
    CallEffect directory before after outcome where
  kept := fun houtcome ↦ hkept.trans (h.kept houtcome)
  outside := fun path hpath ↦ (h.outside path hpath).trans (hkept.outside hpath)

theorem acquireFrom_effect (directory : OutputPath) (release : ReleaseCandidate)
    (browserSession : Bool) (time : ℕ) (candidates : List (DownloadCandidate × Transport))
    (lastStatus : ScrapeStatus) (session : Session) :
    CallEffect directory session
      (acquireFrom service directory release browserSession time candidates lastStatus session).2
      (acquireFrom service directory release browserSession time candidates lastStatus
        session).1 := by
  induction candidates generalizing lastStatus session with
  | nil => exact (KeepsArtifacts.refl directory session).callEffect
  | cons pair rest ih =>
    obtain ⟨candidate, transport⟩ := pair
    rw [acquireFrom]
    split_ifs with hskip
    · exact ih _ _
    have heffect := @fetch_effect service directory release browserSession candidate transport
      session
    generalize fetch service directory release browserSession candidate transport session = fetched
      at heffect ⊢
    obtain ⟨outcome, fetched⟩ := fetched
    rcases outcome with (error | _ | _) | result
    · dsimp only
      split_ifs
      · exact heffect.keeps.callEffect
      · exact heffect.keeps.callEffect
      · exact .after_kept heffect.keeps (ih _ _)
    · exact .after_kept heffect.keeps (ih _ _)
    · exact heffect.keeps.callEffect
    · dsimp only
      split_ifs
      · exact {
          kept := fun houtcome ↦ absurd rfl (houtcome _ _)
          outside := fun path hpath ↦ by
            rw [find_writeHandoff, if_neg (hpath _), if_neg (hpath _)]
            exact heffect.others path (hpath _) (hpath _) }
      · exact .after_kept heffect.keeps_refused (ih _ _)

theorem acquire_effect {request : AcquireRequest} {release : ReleaseCandidate}
    (hrelease : request.release = some release) (session : Session) :
    CallEffect (destination service request.sourceName release) session
      (acquire service request session).2 (acquire service request session).1 := by
  unfold acquire
  rw [hrelease]
  dsimp only
  split_ifs
  · exact (KeepsArtifacts.refl _ session).callEffect
  · exact (KeepsArtifacts.refl _ session).callEffect
  · exact acquireFrom_effect _ _ _ _ _ _ _

theorem acquire_of_none {request : AcquireRequest} (hrelease : request.release = none)
    (session : Session) : (acquire service request session).2 = session := by
  unfold acquire
  rw [hrelease]
  split_ifs <;> rfl

/-! ### The invariant -/

/-- A handoff in its directory: its artifact is a file beside it, under a name that is not that of a
partial file of a download. -/
structure Stands (service : ScraperService) (tree : OutputTree) (directory : OutputPath)
    (handoff : Handoff) : Prop where
  beside : ∃ name, handoff.path = directory ++ [name] ∧ name.head? ≠ some '.'
  holds : ArtifactHolds service tree handoff

def HandoffsStand (service : ScraperService) (tree : OutputTree) : Prop :=
  ∀ directory file, tree.find (directory ++ [handoffName]) = some file →
    ∃ handoff, service.format.decode file.content = some handoff ∧
      Stands service tree directory handoff

theorem HandoffsStand.hold {tree : OutputTree} (h : HandoffsStand service tree) :
    HandoffsHold service tree := by
  intro directory file hfile
  obtain ⟨handoff, hdecode, hstands⟩ := h directory file hfile
  exact ⟨handoff, hdecode, hstands.holds⟩

theorem Stands.of_find {before after : OutputTree} {directory : OutputPath} {handoff : Handoff}
    (h : Stands service before directory handoff)
    (hsame : after.find handoff.path = before.find handoff.path) :
    Stands service after directory handoff where
  beside := h.beside
  holds := by
    obtain ⟨artifact, hfind, hrecorded⟩ := h.holds
    exact ⟨artifact, hsame.trans hfind, hrecorded⟩

theorem stands_outside {directory other : OutputPath} (hother : other ≠ directory)
    {before after : OutputTree} (h : HandoffsStand service before)
    (houtside : ∀ path, (∀ name, path ≠ directory ++ [name]) → after.find path = before.find path)
    {file : StoredFile} (hfile : after.find (other ++ [handoffName]) = some file) :
    ∃ handoff, service.format.decode file.content = some handoff ∧
      Stands service after other handoff := by
  have hchild (name part : Text) : other ++ [name] ≠ directory ++ [part] := fun heq ↦
    hother (append_inj_left' heq rfl)
  rw [houtside _ (hchild handoffName)] at hfile
  obtain ⟨handoff, hdecode, hstands⟩ := h other file hfile
  obtain ⟨name, hpath, hname⟩ := hstands.beside
  exact ⟨handoff, hdecode, hstands.of_find (houtside _ (hpath ▸ hchild name))⟩

theorem handoffsStand_of_keeps {directory : OutputPath}
    (h : HandoffsStand service before.tree) (hkeeps : KeepsArtifacts directory before after)
    (hrefused : ∀ other handoff, HandoffIn service before.tree other handoff →
      ∀ name ∈ after.refused, handoff.path ≠ directory ++ [name]) :
    HandoffsStand service after.tree := by
  intro other file hfile
  have hbefore : before.tree.find (other ++ [handoffName]) = some file := by
    rcases hkeeps.kept (other ++ [handoffName]) with hsame | ⟨name, hpath, hdot | ⟨-, hgone⟩⟩
    · exact hsame ▸ hfile
    · have hname : handoffName = name := singleton_inj.mp (append_inj_right' hpath rfl)
      rw [← hname] at hdot
      exact absurd hdot (by decide)
    · rw [hgone] at hfile
      cases hfile
  obtain ⟨handoff, hdecode, hstands⟩ := h other file hbefore
  refine ⟨handoff, hdecode, hstands.of_find ?_⟩
  obtain ⟨name, hpath, hname⟩ := hstands.beside
  rcases hkeeps.kept handoff.path with hsame | ⟨part, hchild, hdot | ⟨hpart, -⟩⟩
  · exact hsame
  · have hequal : name = part :=
      singleton_inj.mp (append_inj_right' (hpath.symm.trans hchild) rfl)
    exact absurd (hequal ▸ hdot) hname
  · exact absurd hchild (hrefused other handoff ⟨file, hbefore, hdecode⟩ part hpart)

theorem HandedOff.stands {directory : OutputPath} {release : ReleaseCandidate}
    {candidate : DownloadCandidate} {artifact : Handoff} {before after : OutputTree}
    (h : HandedOff service directory release candidate artifact before after)
    (hhandoff : artifact.path.getLast? ≠ some handoffName)
    (htemporary : artifact.path.getLast? ≠ some temporaryHandoffName) {file : StoredFile}
    (hfile : after.find (directory ++ [handoffName]) = some file) :
    ∃ handoff, service.format.decode file.content = some handoff ∧
      Stands service after directory handoff := by
  obtain ⟨hpath, content, time, hcontent, hsize, hblake3, rfl⟩ := h
  rw [hpath, List.getLast?_concat] at hhandoff htemporary
  have hnames : handoffName ≠ temporaryHandoffName := by decide
  rw [find_writeHandoff, if_neg (by simpa using hnames), if_pos rfl] at hfile
  cases hfile
  refine ⟨artifact, service.format.decode_encode _ _ _, ⟨_, hpath, fetchedName_head _⟩, ?_⟩
  obtain ⟨stored, hstored, rfl⟩ := Option.map_eq_some_iff.mp hcontent
  refine ⟨stored, ?_, hsize.symm, hblake3.symm⟩
  rw [find_writeHandoff, if_neg, if_neg, hstored]
  · rw [hpath]
    simpa using hhandoff
  · rw [hpath]
    simpa using htemporary

theorem handoffsStand_acquire {tree : OutputTree} {request : AcquireRequest}
    (h : HandoffsStand service tree) (hharmless : Harmless service tree (.acquire request)) :
    HandoffsStand service (scraperStep service tree (.acquire request)) := by
  change HandoffsStand service (acquire service request (.start tree)).2.tree
  cases hrelease : request.release with
  | none =>
    rw [acquire_of_none hrelease]
    exact h
  | some release =>
    have heffect := @acquire_effect service request release hrelease (.start tree)
    rw [Harmless] at hharmless
    cases hacquire : acquire service request (.start tree) with
    | mk outcome after =>
    rw [hacquire] at hharmless heffect
    rcases outcome with ⟨status, _ | artifact⟩ | _
    · exact handoffsStand_of_keeps h (heffect.kept fun _ _ heq ↦ by cases heq)
        fun other handoff hin name hname ↦ hharmless other handoff release hin hrelease name hname
    · obtain ⟨chosen, hchosen, hfrom⟩ := acquire_success hacquire
      obtain rfl : release = chosen := Option.some_inj.mp (hrelease.symm.trans hchosen)
      obtain ⟨candidate, transport, -, middle, fetched, result, -, -, hhanded, -⟩ :=
        acquireFrom_success hfrom
      intro other file hfile
      by_cases hother : other = destination service request.sourceName release
      · subst hother
        exact hhanded.stands hharmless.1 hharmless.2 hfile
      · exact stands_outside hother h heffect.outside hfile
    · exact handoffsStand_of_keeps h (heffect.kept fun _ _ heq ↦ by cases heq)
        fun other handoff hin name hname ↦ hharmless other handoff release hin hrelease name hname

theorem find_of_cleanup {tree : OutputTree} {cutoff : ℤ} {path : OutputPath} {file : StoredFile}
    (h : (cleanupStaleIncompleteArtifacts tree cutoff).find path = some file) :
    tree.find path = some file := by
  rw [cleanupStaleIncompleteArtifacts, find_eq_some] at h
  obtain ⟨hmem, hpath⟩ := h
  have hfirst := (mem_deleteWhere.mp hmem).1
  exact find_eq_some.mpr ⟨(mem_deleteWhere.mp hfirst).1, hpath⟩

theorem find_cleanup_beside {tree : OutputTree} {cutoff : ℤ} {directory : OutputPath} {name : Text}
    {file artifact : StoredFile}
    (hhandoff : (cleanupStaleIncompleteArtifacts tree cutoff).find (directory ++ [handoffName]) =
      some file)
    (hartifact : tree.find (directory ++ [name]) = some artifact)
    (hkept : ¬ (isPartial artifact.path = true ∧ (artifact.modified : ℤ) < cutoff)) :
    (cleanupStaleIncompleteArtifacts tree cutoff).find (directory ++ [name]) = some artifact := by
  rw [cleanupStaleIncompleteArtifacts, find_eq_some, mem_deleteWhere] at hhandoff
  obtain ⟨⟨-, hfresh⟩, hfile⟩ := hhandoff
  obtain ⟨hmem, hpath⟩ := find_eq_some.mp hartifact
  rw [cleanupStaleIncompleteArtifacts, find_eq_some, mem_deleteWhere,
    mem_deleteWhere]
  refine ⟨⟨⟨hmem, by simpa using hkept⟩, ?_⟩, hpath⟩
  -- The handoff and the artifact are in the same directory of the second level.
  by_cases hdeep : 2 < artifact.path.length
  · have htake (part : Text) : (directory ++ [part]).take 2 = directory.take 2 := by
      have hlength : 2 ≤ directory.length := by
        rw [hpath, length_append, length_singleton] at hdeep
        omega
      exact take_append_of_le_length hlength
    have hlong : 2 < file.path.length := by
      rw [hfile, length_append, length_singleton]
      rwa [hpath, length_append, length_singleton] at hdeep
    rw [decide_eq_true hlong, Bool.true_and, hfile, htake] at hfresh
    rw [hpath, htake, hfresh, Bool.and_false]
  · rw [decide_eq_false hdeep, Bool.false_and]

theorem handoffsStand_cleanup {tree : OutputTree} {cutoff : ℤ} (h : HandoffsStand service tree)
    (hharmless : Harmless service tree (.cleanup cutoff)) :
    HandoffsStand service (scraperStep service tree (.cleanup cutoff)) := by
  intro directory file hfile
  have hbefore := find_of_cleanup hfile
  obtain ⟨handoff, hdecode, hstands⟩ := h directory file hbefore
  obtain ⟨artifact, hartifact, hrecorded⟩ := hstands.holds
  have hkept := hharmless directory handoff artifact ⟨file, hbefore, hdecode⟩ hartifact
  obtain ⟨name, hpath, -⟩ := hstands.beside
  refine ⟨handoff, hdecode, hstands.beside, artifact, ?_, hrecorded⟩
  rw [hpath] at hartifact ⊢
  exact find_cleanup_beside hfile hartifact hkept

/-- The server of `plainCandidate` answers with a page. -/
def pageRequest : AcquireRequest :=
  plainRequest (plainCandidate "a" none) { cutServer [] fun _ ↦ 0 with
    respond := fun _ _ ↦ .answered {
      status := 200
      contentRange := none
      contentLength := some 1
      contentType := "text/html"
      chunks := [[60]]
      ending := .finished
      arrived := 0 } }

/-- A download whose file name ends like that of a partial file. -/
def partRequest : AcquireRequest :=
  plainRequest { plainCandidate "a" none with filename := some "game.part" }
    (cutServer (plainContents "a") fun _ ↦ 3)

theorem not_handoffsHold_of_gone {tree : OutputTree} {directory : OutputPath} {file : StoredFile}
    {handoff : Handoff} (hfile : tree.find (directory ++ [handoffName]) = some file)
    (hdecode : service.format.decode file.content = some handoff)
    (hgone : tree.find handoff.path = none) : ¬ HandoffsHold service tree := by
  intro hhold
  obtain ⟨found, hfound, artifact, hartifact, -⟩ := hhold directory file hfile
  rw [hdecode, Option.some_inj] at hfound
  rw [← hfound, hgone] at hartifact
  cases hartifact

end GameLauncher.Scraper
