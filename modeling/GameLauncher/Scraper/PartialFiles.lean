import GameLauncher.Scraper.Acquisition

/-!
# Downloads that find a partial file

A server that holds a fixed content answers a request without a range with all of it, a range that
starts within it with the rest, and a range that starts behind it with 416. `download_completes_iff`
says from which partial files a download of such a content completes. A partial file that already
holds all of it, as a crash between the last write and the rename leaves it, is not one of them: the
range that is asked for is empty, the 416 is not retryable, and the file stays as it is.
-/

set_option autoImplicit false

namespace GameLauncher.Scraper

open Foundation List OutputTree

/-! ### The server -/

/-- What a server replies to an attempt, by the start of the range that it asks for. -/
abbrev Server := ℕ → Option ℕ → Answer

/-- `_open_with_redirects`, for a reply that is no redirect. The opener raises an `HTTPError` for
every status that is not a success. -/
def openWithRedirects (reply : Answer) : Response :=
  if 200 ≤ reply.status ∧ reply.status < 300 then .answered reply
  else .failed (.error {
    retryable := reply.status == 429 || decide (500 ≤ reply.status)
    status := some reply.status })

/-- A transport to a server, with room for the download and an address that is allowed. -/
def Server.transport (server : Server) : Transport where
  reservation := none
  urlAllowed _ := true
  respond attempt offset :=
    openWithRedirects (server attempt (if offset = 0 then none else some offset))
  saveDownload := .error .browser

structure Carries (reply : Answer) (body : Bytes) : Prop where
  nonempty : ∀ chunk ∈ reply.chunks, chunk ≠ []
  flatten : reply.chunks.flatten = body
  ending : reply.ending = .finished
  contentLength : ∀ length, reply.contentLength = some length → length = body.length

/-- The server holds the content and answers every request correctly. -/
structure Holds (server : Server) (content : Bytes) : Prop where
  whole : ∀ attempt, (server attempt none).status = 200 ∧ Carries (server attempt none) content
  satisfiable : ∀ attempt offset, offset < content.length →
    (server attempt (some offset)).status = 206 ∧
      Carries (server attempt (some offset)) (content.drop offset) ∧
      ∃ total, (server attempt (some offset)).contentRange = some (offset, total) ∧
        ∀ size ∈ total, size = content.length
  unsatisfiable : ∀ attempt offset, content.length ≤ offset →
    (server attempt (some offset)).status = 416

variable {library : PythonLibrary}

/-- A content that the downloader may download, with what it was told of it. -/
structure WithinLimits (library : PythonLibrary) (settings : DownloaderSettings)
    (expectedSize : Option ℤ) (expectedChecksum : Option Text) (content : Bytes) : Prop where
  attempts : 1 ≤ settings.maxAttempts
  nonempty : content ≠ []
  size : content.length ≤ settings.maxArtifactBytes
  expectedSize : ∀ size, expectedSize = some size → size = content.length
  checksum : checksumAccepts library expectedChecksum content = true

/-- The download succeeds, and its file is the content. -/
def Completes (library : PythonLibrary) (settings : DownloaderSettings) (directory : OutputPath)
    (candidate : DownloadCandidate) (server : Server) (expectedSize : Option ℤ)
    (expectedChecksum : Option Text) (session : Session) (content : Bytes) : Prop :=
  ∃ result after, download library settings directory candidate server.transport expectedSize
    expectedChecksum session = (.ok result, after) ∧ after.tree.content result.path = some content

/-- What the partial file of a candidate holds. -/
def partialContent (library : PythonLibrary) (directory : OutputPath)
    (candidate : DownloadCandidate) (tree : OutputTree) : Bytes :=
  (tree.content (directory ++ [partName (candidateName library candidate)])).getD []

/-! ### One answer -/

section Answers

variable {settings : DownloaderSettings} {expectedSize : Option ℕ} {expectedChecksum : Option Text}
  {content : Bytes}

theorem receive_carried {status : ℕ} {base : Bytes} {chunks : List Bytes}
    (hnonempty : ∀ chunk ∈ chunks, chunk ≠ [])
    (hsize : (base ++ chunks.flatten).length ≤ settings.maxArtifactBytes)
    (hexpected : ∀ size, expectedSize = some size → (base ++ chunks.flatten).length ≤ size) :
    receive settings expectedSize status .finished base chunks =
      (base ++ chunks.flatten, .ok ()) := by
  induction chunks generalizing base with
  | nil =>
    rw [receive, flatten_nil, append_nil]
  | cons chunk rest ih =>
    rw [flatten_cons, ← append_assoc] at hsize hexpected ⊢
    have hlength : base.length + chunk.length ≤ (base ++ chunk ++ rest.flatten).length := by
      rw [length_append, length_append]
      exact Nat.le_add_right _ _
    have hfits : ¬ (base.length + chunk.length > settings.maxArtifactBytes ∨
        (expectedSize.any fun size ↦ base.length + chunk.length > size) = true) := by
      rw [not_or, not_lt]
      refine ⟨hlength.trans hsize, ?_⟩
      cases expectedSize with
      | none => exact Bool.false_ne_true
      | some size => simpa using hlength.trans (hexpected size rfl)
    rw [receive, if_neg (hnonempty chunk mem_cons_self)]
    dsimp only
    rw [if_neg hfits]
    exact ih (fun other hother ↦ hnonempty other (mem_cons_of_mem _ hother)) hsize hexpected

theorem downloadWithResponse_complete (directory : OutputPath) (tree : OutputTree)
    {filename : Text} (hname : partName filename ≠ filename) {found : Bytes} {answer : Answer}
    (hstatus : answer.status = 200 ∨ answer.status = 206) {body : Bytes}
    (hcarries : Carries answer body)
    (hcontent : (if appends found answer then found else []) ++ body = content)
    (hnonempty : content ≠ []) (hsize : content.length ≤ settings.maxArtifactBytes)
    (hexpected : ∀ size, expectedSize = some size → size = content.length)
    (hchecksum : checksumAccepts library expectedChecksum content = true) :
    (filename = [] → ∃ after, downloadWithResponse library settings directory filename expectedSize
      expectedChecksum found answer tree = (.error .escaped, after)) ∧
    (filename ≠ [] → ∃ result after, downloadWithResponse library settings directory filename
      expectedSize expectedChecksum found answer tree = (.ok result, after) ∧
        after.content result.path = some content) := by
  have hretry : ¬ (answer.status = 429 ∨ 500 ≤ answer.status ∧ answer.status ≤ 599) := by omega
  have hsuccess : ¬ (answer.status < 200 ∨ 300 ≤ answer.status) := by omega
  unfold downloadWithResponse
  dsimp only
  rw [if_neg hretry, if_neg hsuccess]
  generalize (if appends found answer then found else []) = base at hcontent ⊢
  have hlength : body.length + base.length = content.length := by
    rw [← hcontent, length_append, Nat.add_comm]
  have hadvertised : ¬ (answer.contentLength.any fun (length : ℤ) ↦
      length + base.length > settings.maxArtifactBytes ∨
        expectedSize.any fun (size : ℕ) ↦ length + base.length > (size : ℤ)) = true := by
    simp only [Option.any_eq_true, decide_eq_true_eq, not_exists, not_and, not_or, not_lt]
    intro length hsome
    rw [hcarries.contentLength length hsome]
    exact ⟨by omega, fun size hsize ↦ by rw [hexpected size hsize]; omega⟩
  have hreceive : receive settings expectedSize answer.status answer.ending base answer.chunks =
      (content, .ok ()) := by
    have hall : base ++ answer.chunks.flatten = content := by rw [hcarries.flatten, hcontent]
    rw [hcarries.ending, ← hall]
    refine receive_carried hcarries.nonempty ?_ fun size h ↦ ?_
    · rw [hall]
      exact hsize
    · rw [hall]
      exact (hexpected size h).ge
  have hmismatch : ¬ (expectedSize.any fun size ↦ content.length ≠ size) = true := by
    simp only [Option.any_eq_true, decide_eq_true_eq, not_exists, not_and, not_not]
    exact fun size h ↦ (hexpected size h).symm
  rw [if_neg hadvertised, hreceive]
  dsimp only
  rw [if_neg hnonempty, if_neg hmismatch, if_neg (Bool.eq_false_iff.not_left.mpr hchecksum)]
  constructor
  · intro hempty
    rw [if_pos hempty]
    exact ⟨_, rfl⟩
  · intro hnamed
    rw [if_neg hnamed]
    refine ⟨_, _, rfl, ?_⟩
    have hpart : ((tree.write (directory ++ [partName filename]) content answer.arrived).unlink
        (directory ++ [filename])).find (directory ++ [partName filename]) =
          some ⟨directory ++ [partName filename], content, answer.arrived⟩ := by
      rw [find_unlink, if_neg (by simpa using hname), find_write, if_pos rfl]
    dsimp only
    rw [OutputTree.content, find_replace hpart, if_pos rfl]
    rfl

end Answers

/-! ### Downloads -/

section Downloads

variable {settings : DownloaderSettings} {directory : OutputPath} {candidate : DownloadCandidate}
  {server : Server} {expectedSize : Option ℤ} {expectedChecksum : Option Text} {session : Session}
  {content : Bytes}

theorem resumedPart_of_initial (hlimits : WithinLimits library settings expectedSize expectedChecksum
      content)
    (hpart : partialContent library directory candidate session.tree <+: content) :
    resumedPart settings (expectedSize.map Int.toNat)
      (directory ++ [partName (candidateName library candidate)]) session.tree =
        (partialContent library directory candidate session.tree, session.tree) := by
  have hlength := hpart.length_le
  have hkept : ¬ ((partialContent library directory candidate session.tree).length >
      settings.maxArtifactBytes ∨ ((expectedSize.map Int.toNat).any fun size ↦
        (partialContent library directory candidate session.tree).length > size) = true) := by
    rw [not_or, not_lt, Option.any_eq_true]
    refine ⟨hlength.trans hlimits.size, ?_⟩
    rintro ⟨size, hsize, hlarge⟩
    obtain ⟨reported, hreported, rfl⟩ := Option.map_eq_some_iff.mp hsize
    have heq := hlimits.expectedSize reported hreported
    have hgt := of_decide_eq_true hlarge
    omega
  unfold resumedPart
  dsimp only
  exact if_neg hkept

theorem download_of_once {result : Except DownloadFailure DownloadResult} {after : Session}
    (hlimits : WithinLimits library settings expectedSize expectedChecksum content)
    (honce : downloadOnce library settings directory candidate server.transport
      (expectedSize.map Int.toNat) expectedChecksum 1 session = (result, after))
    (hfinal : ∀ error, result = .error (.error error) → error.retryable = false) :
    download library settings directory candidate server.transport expectedSize expectedChecksum
      session = (result, after) := by
  have hattempts := hlimits.attempts
  have hsize := hlimits.size
  have hpositive := length_pos_iff.mpr hlimits.nonempty
  have hbounds : ¬ (expectedSize.any fun (size : ℤ) ↦
      ¬ (0 < size ∧ size ≤ (settings.maxArtifactBytes : ℤ))) = true := by
    simp only [Option.any_eq_true, decide_eq_true_eq, not_exists, not_and]
    intro size hreported
    rw [hlimits.expectedSize size hreported]
    omega
  obtain ⟨remaining, hremaining⟩ : ∃ remaining, settings.maxAttempts = remaining + 1 :=
    ⟨settings.maxAttempts - 1, by omega⟩
  unfold download
  rw [if_neg (by omega), if_neg hbounds, hremaining]
  change downloadAttempts library settings directory candidate server.transport
    (expectedSize.map Int.toNat) expectedChecksum (remaining + 1) 1 session = _
  rw [downloadAttempts, honce]
  rcases result with (error | _ | _) | result
  · dsimp only
    rw [if_pos (.inl (hfinal error rfl))]
  · rfl
  · rfl
  · rfl

section

variable (hserver : Holds server content)
  (hlimits : WithinLimits library settings expectedSize expectedChecksum content)

include hserver hlimits

theorem downloadOnce_of_whole
    (hpart : partialContent library directory candidate session.tree = content) :
    ∃ after, downloadOnce library settings directory candidate server.transport
      (expectedSize.map Int.toNat) expectedChecksum 1 session =
        (.error (.error { retryable := false, status := some 416 }), after) := by
  have hinitial : partialContent library directory candidate session.tree <+: content := by
    rw [hpart]
  have hresumed := resumedPart_of_initial hlimits hinitial
  have hnonzero : content.length ≠ 0 := fun h ↦ hlimits.nonempty (length_eq_zero_iff.mp h)
  have hrespond : server.transport.respond 1 content.length =
      .failed (.error { retryable := false, status := some 416 }) := by
    unfold Server.transport openWithRedirects
    dsimp only
    rw [if_neg hnonzero, hserver.unsatisfiable 1 _ le_rfl]
    rfl
  unfold downloadOnce
  rw [if_neg (show ¬ server.transport.urlAllowed 1 = false from Bool.false_ne_true.symm)]
  dsimp only
  rw [hresumed, hpart]
  dsimp only
  rw [hrespond]
  exact ⟨_, rfl⟩

/-- Any other partial file is completed by the answer to the first attempt. -/
theorem downloadOnce_of_rest
    (hpart : partialContent library directory candidate session.tree <+: content)
    (hrest : partialContent library directory candidate session.tree ≠ content) :
    (candidateName library candidate = [] → ∃ after, downloadOnce library settings directory
      candidate server.transport (expectedSize.map Int.toNat) expectedChecksum 1 session =
        (.error .escaped, after)) ∧
    (candidateName library candidate ≠ [] → ∃ result after, downloadOnce library settings directory
      candidate server.transport (expectedSize.map Int.toNat) expectedChecksum 1 session =
        (.ok result, after) ∧ after.tree.content result.path = some content) := by
  have hname : partName (candidateName library candidate) ≠ candidateName library candidate :=
    partName_ne_safeFilename library _ _
  have hresumed := resumedPart_of_initial hlimits hpart
  generalize hfound : partialContent library directory candidate session.tree = found at *
  have hshort : found.length < content.length :=
    hpart.length_le.lt_of_ne fun h ↦ hrest (hpart.eq_of_length h)
  have hexpected (size : ℕ) (hsize : expectedSize.map Int.toNat = some size) :
      size = content.length := by
    obtain ⟨reported, hreported, rfl⟩ := Option.map_eq_some_iff.mp hsize
    rw [hlimits.expectedSize reported hreported, Int.toNat_natCast]
  -- Without a partial file the whole content comes, and with one the rest of it.
  obtain ⟨answer, body, hrespond, hstatus, hcarries, hcontent⟩ : ∃ answer body,
      server.transport.respond 1 found.length = .answered answer ∧
      (answer.status = 200 ∨ answer.status = 206) ∧ Carries answer body ∧
      (if appends found answer then found else []) ++ body = content := by
    unfold Server.transport openWithRedirects
    dsimp only
    by_cases hempty : found.length = 0
    · obtain ⟨hstatus, hcarries⟩ := hserver.whole 1
      refine ⟨_, _, ?_, .inl hstatus, hcarries, ?_⟩
      · rw [if_pos hempty, if_pos (by omega)]
      · rw [length_eq_zero_iff.mp hempty, ite_self, nil_append]
    · obtain ⟨hstatus, hcarries, total, hrange, -⟩ := hserver.satisfiable 1 _ hshort
      refine ⟨_, _, ?_, .inr hstatus, hcarries, ?_⟩
      · rw [if_neg hempty, if_pos (by omega)]
      · have happends : appends found (server 1 (some found.length)) = true := by
          rw [appends, hstatus, hrange]
          simpa using hempty
        rw [if_pos happends]
        exact (prefix_append_drop hpart).symm
  unfold downloadOnce
  rw [if_neg (show ¬ server.transport.urlAllowed 1 = false from Bool.false_ne_true.symm)]
  dsimp only
  rw [hresumed]
  dsimp only
  rw [hrespond]
  dsimp only
  obtain ⟨hempty, hnamed⟩ := downloadWithResponse_complete directory session.tree hname hstatus
    hcarries hcontent hlimits.nonempty hlimits.size hexpected hlimits.checksum
  constructor
  · intro h
    obtain ⟨after, hafter⟩ := hempty h
    rw [hafter]
    exact ⟨_, rfl⟩
  · intro h
    obtain ⟨result, after, hafter, hfile⟩ := hnamed h
    rw [hafter]
    exact ⟨_, _, rfl, hfile⟩

end

/-- From a partial file of the content, the download completes unless the file holds all of it, or
no name is left for the final file. -/
theorem download_completes_iff (hserver : Holds server content)
    (hlimits : WithinLimits library settings expectedSize expectedChecksum content)
    (hpart : partialContent library directory candidate session.tree <+: content) :
    Completes library settings directory candidate server expectedSize expectedChecksum session
        content ↔
      partialContent library directory candidate session.tree ≠ content ∧
        candidateName library candidate ≠ [] := by
  by_cases hwhole : partialContent library directory candidate session.tree = content
  · obtain ⟨after, hafter⟩ := downloadOnce_of_whole hserver hlimits hwhole
    have hdownload := download_of_once hlimits hafter fun error h ↦ by cases h; rfl
    refine iff_of_false ?_ fun h ↦ h.1 hwhole
    rintro ⟨result, later, hresult, -⟩
    cases hdownload.symm.trans hresult
  · obtain ⟨hempty, hnamed⟩ := downloadOnce_of_rest hserver hlimits hpart hwhole
    by_cases hname : candidateName library candidate = []
    · obtain ⟨after, hafter⟩ := hempty hname
      have hdownload := download_of_once hlimits hafter fun error h ↦ by cases h
      refine iff_of_false ?_ fun h ↦ h.2 hname
      rintro ⟨result, later, hresult, -⟩
      cases hdownload.symm.trans hresult
    · obtain ⟨result, after, hafter, hfile⟩ := hnamed hname
      have hdownload := download_of_once hlimits hafter fun error h ↦ by cases h
      exact iff_of_true ⟨result, after, hdownload, hfile⟩ ⟨hwhole, hname⟩

end Downloads

def simpleServer (content : Bytes) : Server := fun _ start ↦
  let offset := start.getD 0
  { status := if start = none then 200 else if offset < content.length then 206 else 416
    contentRange := start.map fun offset ↦ (offset, some content.length)
    contentLength := some (content.drop offset).length
    contentType := []
    chunks := if offset < content.length then [content.drop offset] else []
    ending := .finished
    arrived := 0 }

theorem simpleServer_holds {content : Bytes} (hnonempty : content ≠ []) :
    Holds (simpleServer content) content := by
  have hcarries (attempt : ℕ) (start : Option ℕ) (hstart : start.getD 0 < content.length) :
      Carries (simpleServer content attempt start) (content.drop (start.getD 0)) := by
    unfold simpleServer
    refine ⟨fun chunk hchunk ↦ ?_, ?_, rfl, fun length h ↦ (Option.some_inj.mp h).symm⟩
    · dsimp only at hchunk
      rw [if_pos hstart, mem_singleton] at hchunk
      rw [hchunk, ne_eq, drop_eq_nil_iff, not_le]
      exact hstart
    · dsimp only
      rw [if_pos hstart, flatten_singleton]
  refine ⟨fun attempt ↦ ⟨rfl, hcarries attempt none (length_pos_iff.mpr hnonempty)⟩,
    fun attempt offset hoffset ↦ ⟨?_, hcarries attempt (some offset) hoffset, some content.length,
      rfl, fun size h ↦ (Option.some_inj.mp h).symm⟩, fun attempt offset hoffset ↦ ?_⟩
  · exact if_pos hoffset
  · exact if_neg hoffset.not_gt

/-- The files after a download of `game.bin` was interrupted. -/
def interruptedSession (kept : Bytes) : Session where
  tree := OutputTree.write .empty [partName "game.bin"] kept 0
  log := []
  refused := []

/-- A download completes from the first byte of three. -/
theorem first_byte_completes :
    Completes plainService.library plainService.downloader [] (plainCandidate "a" none)
      (simpleServer [1, 2, 3]) (some 3) none (interruptedSession [1]) [1, 2, 3] :=
  (download_completes_iff (simpleServer_holds (by decide))
    ⟨by decide, by decide, by decide, fun size h ↦ (Option.some_inj.mp h).symm, rfl⟩
    (by decide)).mpr (by decide)

/-- No number of attempts completes the download from all three bytes. -/
theorem whole_file_blocks :
    Holds (simpleServer [1, 2, 3]) [1, 2, 3] ∧
    partialContent plainService.library [] (plainCandidate "a" none)
      (interruptedSession [1, 2, 3]).tree = [1, 2, 3] ∧
    ∀ attempts, 1 ≤ attempts →
      WithinLimits plainService.library ⟨100, attempts⟩ none none [1, 2, 3] ∧
      ¬ Completes plainService.library ⟨100, attempts⟩ [] (plainCandidate "a" none)
        (simpleServer [1, 2, 3]) none none (interruptedSession [1, 2, 3]) [1, 2, 3] := by
  have hserver : Holds (simpleServer [1, 2, 3]) [1, 2, 3] := simpleServer_holds (by decide)
  have hpart : partialContent plainService.library [] (plainCandidate "a" none)
      (interruptedSession [1, 2, 3]).tree = [1, 2, 3] := by decide
  refine ⟨hserver, hpart, fun attempts hattempts ↦ ?_⟩
  have hlimits : WithinLimits plainService.library ⟨100, attempts⟩ none none [1, 2, 3] := {
    attempts := hattempts
    nonempty := by decide
    size := show 3 ≤ 100 by decide
    expectedSize := fun size h ↦ (Option.some_ne_none _ h.symm).elim
    checksum := rfl }
  refine ⟨hlimits, ?_⟩
  obtain ⟨after, hafter⟩ := downloadOnce_of_whole hserver hlimits hpart
  have hdownload := download_of_once hlimits hafter fun error h ↦ by cases h; rfl
  rintro ⟨result, later, hresult, -⟩
  cases hdownload.symm.trans hresult

end GameLauncher.Scraper
