import GameLauncher.Foundation.Table
import GameLauncher.Normalizer.Extraction

/-!
# The scraper's downloader

`HttpDownloader.download` of the scraper, and the files below its output root. A download is written
to a partial file whose name comes from the file name of the candidate, is resumed from it by a
range request, and moves to its final name when its size and its checksum are as expected, where
these are known.

What the servers answer is the parameter of each candidate, a function of the attempt and of the
offset that is asked for. `Session.log` records the attempts with the partial file that each has
found and the answer that it got; only statements read it.

The operations on the files of the output root succeed. The scratch budget, the redirects, the
progress callback and a rate limit that raise are answers as well.
-/

set_option autoImplicit false

namespace GameLauncher.Scraper

open Foundation Normalizer List

/-! ### Files -/

abbrev OutputPath := List Text

/-- A file with the time of its last change. -/
structure StoredFile where
  path : OutputPath
  content : Bytes
  modified : ℕ
  deriving DecidableEq, Repr

/-- The files below the output root. -/
abbrev OutputTree := Table StoredFile StoredFile.path

variable {path : OutputPath}

namespace OutputTree

variable (tree : OutputTree)

/-- What a file holds. -/
def content (path : OutputPath) : Option Bytes := (tree.find path).map StoredFile.content

def write (path : OutputPath) (content : Bytes) (time : ℕ) : OutputTree :=
  tree.upsert { path := path, content := content, modified := time }

def unlink (path : OutputPath) : OutputTree := tree.deleteWhere fun file ↦ file.path = path

/-- `source.replace(destination)`. -/
def replace (source destination : OutputPath) : OutputTree :=
  match tree.find source with
  | some file => (unlink tree source).upsert { file with path := destination }
  | none => tree

variable {tree}

theorem find_write {content : Bytes} {time : ℕ} (wanted : OutputPath) :
    (write tree path content time).find wanted =
      if path = wanted then some ⟨path, content, time⟩ else tree.find wanted := by
  rw [write, Table.find_upsert]

theorem find_unlink (wanted : OutputPath) :
    (unlink tree path).find wanted = if wanted = path then none else tree.find wanted := by
  rw [unlink, Table.find_deleteKey]

theorem find_replace {source destination : OutputPath} {file : StoredFile}
    (h : tree.find source = some file) (wanted : OutputPath) :
    (replace tree source destination).find wanted =
      if destination = wanted then some { file with path := destination }
      else if wanted = source then none else tree.find wanted := by
  rw [replace, h]
  change ((unlink tree source).upsert { file with path := destination }).find wanted = _
  rw [Table.find_upsert, find_unlink]

end OutputTree

/-! ### Names -/

/-- What the scraper takes from Python's library and from its hash functions. -/
structure PythonLibrary where
  unquote : Text → Text
  casefold : Text → Text
  strip : Text → Text
  urlFilename : Text → Text
  blake3 : Bytes → Text
  sha256 : Bytes → Text

variable (library : PythonLibrary)

/-- `strip(" .")`. -/
def stripDots (name : Text) : Text :=
  (name.dropWhile fun c ↦ c = ' ' ∨ c = '.').rdropWhile fun c ↦ c = ' ' ∨ c = '.'

/-- The name of a `PurePosixPath`. -/
def posixName (path : Text) : Text := (pathParts path).getLastD []

/-- The characters that a file name must not contain. -/
def isUnsafeChar (c : Char) : Bool :=
  c.toNat ≤ 0x1f || c.toNat == 0x7f || "<>:\"/|?*".toList.contains c

/-- The name of a Windows device. -/
def isDeviceStem (stem : Text) : Bool :=
  ["con".toList, "prn".toList, "aux".toList, "nul".toList].contains stem ||
    (stem.length == 4 && ["com".toList, "lpt".toList].contains (stem.take 3) &&
      "123456789".toList.contains (stem.getD 3 ' '))

/-- The part of a name after its last dot. -/
def nameSuffix (name : Text) : Text := name.rtakeWhile fun c ↦ c ≠ '.'

/-- The part of a name before its last dot, where it has one. -/
def nameStem (name : Text) : Text := (name.rdropWhile fun c ↦ c ≠ '.').dropLast

/-- The cut of `safe_filename` to 180 characters, at the last dot. Nothing is left of a long name
without a dot. -/
def shorten (name : Text) : Text :=
  if name.length > 180 then
    if '.' ∈ name then
      (nameStem name).take (max 1 (180 - (nameSuffix name).length - 1)) ++ '.' :: nameSuffix name
    else []
  else name

def safeFilename (value : Option Text) : Text :=
  let fallback := "download.bin".toList
  let raw := replaceBackslashes (library.unquote (value.getD []))
  let name := stripDots ((posixName raw).map fun c ↦ if isUnsafeChar c then '_' else c)
  let name := if name ∈ [[], ".".toList, "..".toList] then fallback else name
  let name := if isDeviceStem (library.casefold (name.takeWhile fun c ↦ c ≠ '.')) then fallback
    else name
  shorten name

/-- The name of the partial file of a file. -/
def partName (filename : Text) : Text := '.' :: filename ++ ".part"

theorem stripDots_ends {name : Text} {c : Char}
    (h : (stripDots name).head? = some c ∨ (stripDots name).getLast? = some c) :
    c ≠ ' ' ∧ c ≠ '.' := by
  rw [← not_or]
  intro hstripped
  rcases h with h | h
  · obtain ⟨rest, hrest⟩ := rdropWhile_prefix (fun c ↦ decide (c = ' ' ∨ c = '.'))
      (name.dropWhile fun c ↦ decide (c = ' ' ∨ c = '.'))
    have hhead : (name.dropWhile fun c ↦ decide (c = ' ' ∨ c = '.')).head? = some c := by
      rw [← hrest, List.head?_append]
      exact congrArg (Option.or · _) h
    have hfalse := List.head?_dropWhile_not (fun c ↦ decide (c = ' ' ∨ c = '.')) name
    rw [hhead] at hfalse
    simp [hstripped] at hfalse
  · have hne : stripDots name ≠ [] := fun hnil ↦ by simp [hnil] at h
    have hlast := (getLast_eq_iff_getLast?_eq_some hne).mpr h
    have hfalse : ¬ decide ((stripDots name).getLast hne = ' ' ∨
        (stripDots name).getLast hne = '.') = true := rdropWhile_last_not _ _ hne
    rw [hlast, decide_eq_true_eq] at hfalse
    exact hfalse hstripped

theorem nameStem_append {name : Text} (hdot : '.' ∈ name) :
    nameStem name ++ '.' :: nameSuffix name = name := by
  have hne : (name.rdropWhile fun c ↦ decide (c ≠ '.')) ≠ [] := fun hnil ↦ by
    simpa using rdropWhile_eq_nil_iff.mp hnil '.' hdot
  have hlast : (name.rdropWhile fun c ↦ decide (c ≠ '.')).getLast hne = '.' := by
    simpa using rdropWhile_last_not (fun c ↦ decide (c ≠ '.')) name hne
  have hstem := dropLast_append_getLast hne
  rw [hlast, ← nameStem] at hstem
  rw [← singleton_append, ← append_assoc, hstem]
  exact rdropWhile_append_rtakeWhile

theorem shorten_head {name : Text} (h : name.head? ≠ some '.') :
    (shorten name).head? ≠ some '.' := by
  unfold shorten
  split_ifs with hlong hdot
  · have hname := nameStem_append hdot
    cases hstem : nameStem name with
    | nil => exact absurd (by rw [← hname, hstem]; rfl) h
    | cons c rest =>
      obtain ⟨count, hcount⟩ : ∃ count, max 1 (180 - (nameSuffix name).length - 1) = count + 1 :=
        ⟨max 1 (180 - (nameSuffix name).length - 1) - 1, by omega⟩
      rw [← hname, hstem] at h
      rw [hcount]
      simpa using h
  · simp
  · exact h

theorem safeFilename_head (value : Option Text) :
    (safeFilename library value).head? ≠ some '.' := by
  unfold safeFilename
  refine shorten_head ?_
  split_ifs
  · decide
  · decide
  · decide
  · exact fun hhead ↦ (stripDots_ends (.inl hhead)).2 rfl

theorem partName_head (filename : Text) : (partName filename).head? = some '.' := rfl

/-- A partial file is not the final file of any download. -/
theorem partName_ne_safeFilename (filename : Text) (value : Option Text) :
    partName filename ≠ safeFilename library value := by
  intro heq
  exact safeFilename_head library value (heq ▸ partName_head filename)

/-! ### Candidates and answers -/

/-- A download that a release offers. -/
structure DownloadCandidate where
  url : Text
  label : Text
  filename : Option Text
  reportedSize : Option ℤ
  reportedChecksum : Option Text
  requiresBrowser : Bool
  browserTargetId : Option Text
  deriving DecidableEq, Repr

/-- `DownloadError`, with what is read of it. -/
structure DownloadError where
  retryable : Bool
  status : Option ℕ
  deriving DecidableEq, Repr

/-- How a download fails: with a `DownloadError`, with a `BrowserError`, or with an exception that
`acquire` does not catch. -/
inductive DownloadFailure
  | error (error : DownloadError)
  | browser
  | escaped
  deriving DecidableEq, Repr

/-- How a body ends: with an empty read or with an exception. -/
inductive Ending
  | finished
  | raised (failure : DownloadFailure)
  deriving DecidableEq, Repr

/-- An answer with a body: what the downloader reads of its headers, and the chunks that its reads
return. -/
structure Answer where
  status : ℕ
  contentRange : Option (ℕ × Option ℕ)
  contentLength : Option ℤ
  contentType : Text
  chunks : List Bytes
  ending : Ending
  arrived : ℕ
  deriving DecidableEq, Repr

/-- What a request leads to. -/
inductive Response
  | failed (failure : DownloadFailure)
  | answered (answer : Answer)
  deriving DecidableEq, Repr

/-- What is outside the downloader, for one candidate. A request is numbered by its attempt and asks
for the content from an offset on. -/
structure Transport where
  reservation : Option DownloadError
  urlAllowed : ℕ → Bool
  respond : ℕ → ℕ → Response
  saveDownload : Except DownloadFailure (Bytes × ℕ)

inductive AttemptSource
  | http (found : Bytes) (response : Response)
  | browser (saved : Bytes)
  deriving DecidableEq, Repr

structure Attempt where
  candidate : DownloadCandidate
  source : AttemptSource
  deriving DecidableEq, Repr

/-- The files, the attempts so far and the names of the downloads that were refused after they were
complete. -/
structure Session where
  tree : OutputTree
  log : List Attempt
  refused : List Text

structure DownloaderSettings where
  maxArtifactBytes : ℕ
  maxAttempts : ℕ

structure DownloadResult where
  path : OutputPath
  status : ℕ
  contentType : Text
  actualSize : ℕ
  blake3 : Text
  sha256 : Text
  deriving DecidableEq, Repr

/-! ### One attempt -/

def candidateName (candidate : DownloadCandidate) : Text :=
  safeFilename library (match candidate.filename with
    | some [] | none => some (library.urlFilename candidate.url)
    | some name => some name)

def checksumMatches (value : Text) (content : Bytes) : Bool :=
  let normalized := library.casefold (library.strip value)
  let digests := [library.blake3 content, library.sha256 content]
  if ':' ∈ normalized then
    let algorithm := normalized.takeWhile fun c ↦ c ≠ ':'
    let digest := (normalized.dropWhile fun c ↦ c ≠ ':').drop 1
    if algorithm ∈ ["sha256".toList, "sha-256".toList] then digest == library.sha256 content
    else if algorithm = "blake3" then digest == library.blake3 content
    else digests.contains digest
  else digests.contains normalized

/-- The check of an expected checksum, where there is one. -/
def checksumAccepts (expectedChecksum : Option Text) (content : Bytes) : Bool :=
  match expectedChecksum with
  | some [] | none => true
  | some value => checksumMatches library value content

/-- The loop over the chunks: what the partial file holds after it, and how it ends. -/
def receive (settings : DownloaderSettings) (expectedSize : Option ℕ) (status : ℕ)
    (ending : Ending) : Bytes → List Bytes → Bytes × Except DownloadFailure Unit
  | kept, [] =>
    match ending with
    | .finished => (kept, .ok ())
    | .raised failure => (kept, .error failure)
  | kept, chunk :: rest =>
    if chunk = [] then (kept, .ok ())
    else
      let written := kept.length + chunk.length
      if written > settings.maxArtifactBytes ∨ expectedSize.any (fun size ↦ written > size) then
        (kept, .error (.error { retryable := false, status := some status }))
      else receive settings expectedSize status ending (kept ++ chunk) rest

/-- Is the answer appended to the partial file? -/
def appends (found : Bytes) (answer : Answer) : Bool :=
  found.length ≠ 0 && answer.status == 206 &&
    answer.contentRange.any fun range ↦ range.1 == found.length

/-- `_download_with_response`, once the request is answered. -/
def downloadWithResponse (settings : DownloaderSettings) (directory : OutputPath) (filename : Text)
    (expectedSize : Option ℕ) (expectedChecksum : Option Text) (found : Bytes) (answer : Answer)
    (tree : OutputTree) : Except DownloadFailure DownloadResult × OutputTree :=
  let fails (retryable : Bool) : Except DownloadFailure DownloadResult :=
    .error (.error { retryable := retryable, status := some answer.status })
  if answer.status = 429 ∨ (500 ≤ answer.status ∧ answer.status ≤ 599) then (fails true, tree)
  else if answer.status < 200 ∨ 300 ≤ answer.status then (fails false, tree)
  else
    let base := if appends found answer then found else []
    if answer.contentLength.any (fun (length : ℤ) ↦
        length + base.length > settings.maxArtifactBytes ∨
          expectedSize.any fun (size : ℕ) ↦ length + base.length > (size : ℤ)) then
      (fails false, tree)
    else
      let part := directory ++ [partName filename]
      let (kept, outcome) :=
        receive settings expectedSize answer.status answer.ending base answer.chunks
      let tree := tree.write part kept answer.arrived
      match outcome with
      | .error failure => (.error failure, tree)
      | .ok () =>
        if kept = [] then (fails false, tree)
        else if expectedSize.any fun size ↦ kept.length ≠ size then (fails true, tree)
        else if checksumAccepts library expectedChecksum kept = false then
          (fails false, tree.unlink part)
        else if filename = [] then (.error .escaped, tree)
        else
          let final := directory ++ [filename]
          (.ok {
            path := final
            status := answer.status
            contentType := answer.contentType
            actualSize := kept.length
            blake3 := library.blake3 kept
            sha256 := library.sha256 kept }, (tree.unlink final).replace part final)

/-- The partial file that an attempt resumes. One that is too large is deleted. -/
def resumedPart (settings : DownloaderSettings) (expectedSize : Option ℕ) (part : OutputPath)
    (tree : OutputTree) : Bytes × OutputTree :=
  let stored := (tree.content part).getD []
  if stored.length > settings.maxArtifactBytes ∨
      expectedSize.any fun size ↦ stored.length > size then ([], tree.unlink part)
  else (stored, tree)

def downloadOnce (settings : DownloaderSettings) (directory : OutputPath)
    (candidate : DownloadCandidate) (transport : Transport) (expectedSize : Option ℕ)
    (expectedChecksum : Option Text) (attempt : ℕ) (session : Session) :
    Except DownloadFailure DownloadResult × Session :=
  if transport.urlAllowed attempt = false then (.error .escaped, session)
  else
    let filename := candidateName library candidate
    let (found, tree) := resumedPart settings expectedSize (directory ++ [partName filename])
      session.tree
    let response := transport.respond attempt found.length
    let log := session.log ++ [{ candidate := candidate, source := .http found response }]
    match response with
    | .failed failure => (.error failure, { session with tree := tree, log := log })
    | .answered answer =>
      let (result, tree) := downloadWithResponse library settings directory filename expectedSize
        expectedChecksum found answer tree
      (result, { session with tree := tree, log := log })

/-! ### Retries -/

def downloadAttempts (settings : DownloaderSettings) (directory : OutputPath)
    (candidate : DownloadCandidate) (transport : Transport) (expectedSize : Option ℕ)
    (expectedChecksum : Option Text) : ℕ → ℕ → Session →
    Except DownloadFailure DownloadResult × Session
  | 0, _, session => (.error .escaped, session)
  | remaining + 1, attempt, session =>
    match downloadOnce library settings directory candidate transport expectedSize
        expectedChecksum attempt session with
    | (.error (.error error), session) =>
      if error.retryable = false ∨ remaining = 0 then (.error (.error error), session)
      else downloadAttempts settings directory candidate transport expectedSize expectedChecksum
        remaining (attempt + 1) session
    | (result, session) => (result, session)

/-- `HttpDownloader.download`. -/
def download (settings : DownloaderSettings) (directory : OutputPath)
    (candidate : DownloadCandidate) (transport : Transport) (expectedSize : Option ℤ)
    (expectedChecksum : Option Text) (session : Session) :
    Except DownloadFailure DownloadResult × Session :=
  if settings.maxAttempts < 1 then (.error .escaped, session)
  else if expectedSize.any fun (size : ℤ) ↦
      ¬ (0 < size ∧ size ≤ (settings.maxArtifactBytes : ℤ)) then
    (.error (.error { retryable := false, status := none }), session)
  else
    match transport.reservation with
    | some error => (.error (.error error), session)
    | none =>
      downloadAttempts library settings directory candidate transport (expectedSize.map Int.toNat)
        expectedChecksum settings.maxAttempts 1 session

/-! ### What a download does -/

variable {library}

/-- What the reads of a body return before the first empty one. -/
def Answer.received (answer : Answer) : Bytes :=
  (answer.chunks.takeWhile fun chunk ↦ chunk ≠ []).flatten

variable {expectedSize : Option ℕ} {settings : DownloaderSettings}

theorem receive_eq_ok {status : ℕ} {ending : Ending} {base kept : Bytes} {chunks : List Bytes}
    (h : receive settings expectedSize status ending base chunks = (kept, .ok ())) :
    kept = base ++ (chunks.takeWhile fun chunk ↦ chunk ≠ []).flatten := by
  induction chunks generalizing base with
  | nil =>
    cases ending with
    | finished => simpa [receive] using (congrArg Prod.fst h).symm
    | raised failure => simp [receive] at h
  | cons chunk rest ih =>
    rw [receive] at h
    dsimp only at h
    split_ifs at h with hempty hbound
    · simpa [hempty] using (congrArg Prod.fst h).symm
    · cases congrArg Prod.snd h
    · rw [ih h, takeWhile_cons_of_pos (by simpa using hempty), flatten_cons, append_assoc]

/-- What an attempt leaves in the partial file that it completes. -/
def assembled (found : Bytes) (answer : Answer) : Bytes :=
  (if appends found answer then found else []) ++ answer.received

/-- What a download does to the files of its directory. Its final file is another one only when the
download succeeds, and then it is as the result says. -/
structure DownloadEffect (library : PythonLibrary) (directory : OutputPath) (filename : Text)
    (before after : OutputTree) (outcome : Except DownloadFailure DownloadResult) : Prop where
  others : ∀ path, path ≠ directory ++ [partName filename] → path ≠ directory ++ [filename] →
    after.find path = before.find path
  failed : ∀ failure, outcome = .error failure →
    after.find (directory ++ [filename]) = before.find (directory ++ [filename])
  completed : ∀ result, outcome = .ok result →
    filename ≠ [] ∧ result.path = directory ++ [filename] ∧
      ∃ file, after.find result.path = some file ∧ result.actualSize = file.content.length ∧
        result.blake3 = library.blake3 file.content

variable {after before : OutputTree} {directory : OutputPath} {filename : Text}

theorem DownloadEffect.of_part {failure : DownloadFailure} (hname : partName filename ≠ filename)
    (h : ∀ path, path ≠ directory ++ [partName filename] → after.find path = before.find path) :
    DownloadEffect library directory filename before after (.error failure) where
  others := fun path hpart _ ↦ h path hpart
  failed := fun _ _ ↦ h _ fun heq ↦ hname (by simpa using heq.symm)
  completed := fun result hresult ↦ by cases hresult

theorem DownloadEffect.after_part {middle : OutputTree}
    {outcome : Except DownloadFailure DownloadResult} (hname : partName filename ≠ filename)
    (h : ∀ path, path ≠ directory ++ [partName filename] → middle.find path = before.find path)
    (heffect : DownloadEffect library directory filename middle after outcome) :
    DownloadEffect library directory filename before after outcome where
  others := fun path hpart hfinal ↦ (heffect.others path hpart hfinal).trans (h path hpart)
  failed := fun failure hfailure ↦ (heffect.failed failure hfailure).trans
    (h _ fun heq ↦ hname (by simpa using heq.symm))
  completed := heffect.completed

theorem downloadWithResponse_effect (hname : partName filename ≠ filename) (expectedSize : Option ℕ)
    (expectedChecksum : Option Text) (found : Bytes) (answer : Answer) (tree : OutputTree) :
    DownloadEffect library directory filename tree
      (downloadWithResponse library settings directory filename expectedSize expectedChecksum found
        answer tree).2
      (downloadWithResponse library settings directory filename expectedSize expectedChecksum found
        answer tree).1 := by
  have hwrite (kept : Bytes) (path : OutputPath) (hpath : path ≠ directory ++ [partName filename]) :
      (tree.write (directory ++ [partName filename]) kept answer.arrived).find path =
        tree.find path := by
    rw [OutputTree.find_write, if_neg fun heq ↦ hpath heq.symm]
  unfold downloadWithResponse
  dsimp only
  split
  · exact .of_part hname fun path _ ↦ rfl
  split
  · exact .of_part hname fun path _ ↦ rfl
  generalize (if appends found answer then found else []) = base
  split
  · exact .of_part hname fun path _ ↦ rfl
  generalize receive settings expectedSize answer.status answer.ending base answer.chunks = received
  obtain ⟨kept, outcome⟩ := received
  cases outcome with
  | error failure => exact .of_part hname (hwrite kept)
  | ok _ =>
    dsimp only
    split
    · exact .of_part hname (hwrite kept)
    split
    · exact .of_part hname (hwrite kept)
    split
    · refine .of_part hname fun path hpath ↦ ?_
      rw [OutputTree.find_unlink, if_neg hpath, hwrite kept path hpath]
    split
    · exact .of_part hname (hwrite kept)
    · rename_i hfilename
      have hpart : ((tree.write (directory ++ [partName filename]) kept answer.arrived).unlink
          (directory ++ [filename])).find (directory ++ [partName filename]) =
            some ⟨directory ++ [partName filename], kept, answer.arrived⟩ := by
        rw [OutputTree.find_unlink, if_neg (by simpa using hname), OutputTree.find_write,
          if_pos rfl]
      exact {
        others := fun path hpath hfinal ↦ by
          rw [OutputTree.find_replace hpart, if_neg fun heq ↦ hfinal heq.symm, if_neg hpath,
            OutputTree.find_unlink, if_neg hfinal, hwrite kept path hpath]
        failed := fun failure hfailure ↦ by cases hfailure
        completed := fun result hresult ↦ by
          cases hresult
          have hfinal := (OutputTree.find_replace hpart (directory ++ [filename])).trans
            (if_pos rfl)
          exact ⟨hfilename, rfl, _, hfinal, rfl, rfl⟩ }

variable {expectedChecksum : Option Text} {result : DownloadResult}

theorem downloadWithResponse_eq_ok {found : Bytes} {answer : Answer} {tree : OutputTree}
    (hname : partName filename ≠ filename)
    (h : downloadWithResponse library settings directory filename expectedSize expectedChecksum
      found answer tree = (.ok result, after)) :
    (200 ≤ answer.status ∧ answer.status < 300) ∧
      after.content result.path = some (assembled found answer) := by
  unfold downloadWithResponse at h
  dsimp only at h
  rw [assembled]
  generalize (if appends found answer then found else []) = base at h ⊢
  split at h
  · cases congrArg Prod.fst h
  split at h
  · cases congrArg Prod.fst h
  rename_i hstatus
  split at h
  · cases congrArg Prod.fst h
  cases hreceive : receive settings expectedSize answer.status answer.ending base answer.chunks with
  | mk kept outcome =>
  rw [hreceive] at h
  cases outcome with
  | error failure => cases congrArg Prod.fst h
  | ok _ =>
    dsimp only at h
    split at h
    · cases congrArg Prod.fst h
    split at h
    · cases congrArg Prod.fst h
    split at h
    · cases congrArg Prod.fst h
    split at h
    · cases congrArg Prod.fst h
    · have hpart : ((tree.write (directory ++ [partName filename]) kept answer.arrived).unlink
          (directory ++ [filename])).find (directory ++ [partName filename]) =
            some ⟨directory ++ [partName filename], kept, answer.arrived⟩ := by
        rw [OutputTree.find_unlink, if_neg (by simpa using hname), OutputTree.find_write,
          if_pos rfl]
      cases h
      refine ⟨by omega, ?_⟩
      rw [OutputTree.content, OutputTree.find_replace hpart, if_pos rfl]
      exact congrArg some (receive_eq_ok hreceive)

theorem find_resumedPart (settings : DownloaderSettings) (expectedSize : Option ℕ)
    {part : OutputPath} (hpath : path ≠ part) (tree : OutputTree) :
    (resumedPart settings expectedSize part tree).2.find path = tree.find path := by
  rw [resumedPart]
  split_ifs
  · rw [OutputTree.find_unlink, if_neg hpath]
  · rfl

theorem downloadOnce_effect (settings : DownloaderSettings) (directory : OutputPath)
    (candidate : DownloadCandidate) (transport : Transport) (expectedSize : Option ℕ)
    (expectedChecksum : Option Text) (attempt : ℕ) (session : Session) :
    DownloadEffect library directory (candidateName library candidate) session.tree
      (downloadOnce library settings directory candidate transport expectedSize expectedChecksum
        attempt session).2.tree
      (downloadOnce library settings directory candidate transport expectedSize expectedChecksum
        attempt session).1 := by
  have hname : partName (candidateName library candidate) ≠ candidateName library candidate :=
    partName_ne_safeFilename library _ _
  unfold downloadOnce
  split
  · exact .of_part hname fun path _ ↦ rfl
  dsimp only
  have hresumed (path : OutputPath)
      (hpath : path ≠ directory ++ [partName (candidateName library candidate)]) :=
    find_resumedPart settings expectedSize hpath session.tree
  generalize resumedPart settings expectedSize
    (directory ++ [partName (candidateName library candidate)]) session.tree = resumed at hresumed ⊢
  obtain ⟨found, tree⟩ := resumed
  dsimp only at hresumed ⊢
  cases transport.respond attempt found.length with
  | failed failure => exact .of_part hname hresumed
  | answered answer =>
    exact .after_part hname hresumed (downloadWithResponse_effect hname _ _ _ _ _)

/-- The last attempt is of a candidate, it got an answer, and the file at a path is what it
assembled. -/
structure CompletedBy (candidate : DownloadCandidate) (transport : Transport) (session : Session)
    (path : OutputPath) (found : Bytes) (answer : Answer) : Prop where
  answered : ∃ attempt, transport.respond attempt found.length = .answered answer
  status : 200 ≤ answer.status ∧ answer.status < 300
  recorded : session.log.getLast? =
    some { candidate := candidate, source := .http found (.answered answer) }
  content : session.tree.content path = some (assembled found answer)

variable {candidate : DownloadCandidate} {session : Session} {transport : Transport}

theorem downloadOnce_eq_ok {attempt : ℕ} {after : Session}
    (h : downloadOnce library settings directory candidate transport expectedSize expectedChecksum
      attempt session = (.ok result, after)) :
    ∃ found answer, CompletedBy candidate transport after result.path found answer := by
  have hname : partName (candidateName library candidate) ≠ candidateName library candidate :=
    partName_ne_safeFilename library _ _
  unfold downloadOnce at h
  split at h
  · cases congrArg Prod.fst h
  dsimp only at h
  generalize resumedPart settings expectedSize
    (directory ++ [partName (candidateName library candidate)]) session.tree = resumed at h
  obtain ⟨found, tree⟩ := resumed
  dsimp only at h
  cases hrespond : transport.respond attempt found.length with
  | failed failure =>
    rw [hrespond] at h
    cases congrArg Prod.fst h
  | answered answer =>
    rw [hrespond] at h
    cases hdownload : downloadWithResponse library settings directory
        (candidateName library candidate) expectedSize expectedChecksum found answer tree with
    | mk outcome files =>
    simp only [hdownload, Prod.mk.injEq] at h
    obtain ⟨rfl, rfl⟩ := h
    obtain ⟨hstatus, hcontent⟩ := downloadWithResponse_eq_ok hname hdownload
    exact ⟨found, answer, ⟨attempt, hrespond⟩, hstatus, List.getLast?_concat, hcontent⟩

theorem DownloadEffect.trans_failed {middle : OutputTree} {failure : DownloadFailure}
    {outcome : Except DownloadFailure DownloadResult}
    (hfirst : DownloadEffect library directory filename before middle (.error failure))
    (hsecond : DownloadEffect library directory filename middle after outcome) :
    DownloadEffect library directory filename before after outcome where
  others := fun path hpart hfinal ↦
    (hsecond.others path hpart hfinal).trans (hfirst.others path hpart hfinal)
  failed := fun other hother ↦ (hsecond.failed other hother).trans (hfirst.failed failure rfl)
  completed := hsecond.completed

theorem downloadAttempts_effect (settings : DownloaderSettings) (directory : OutputPath)
    (candidate : DownloadCandidate) (transport : Transport) (expectedSize : Option ℕ)
    (expectedChecksum : Option Text) (remaining attempt : ℕ) (session : Session) :
    DownloadEffect library directory (candidateName library candidate) session.tree
      (downloadAttempts library settings directory candidate transport expectedSize
        expectedChecksum remaining attempt session).2.tree
      (downloadAttempts library settings directory candidate transport expectedSize
        expectedChecksum remaining attempt session).1 := by
  have hname : partName (candidateName library candidate) ≠ candidateName library candidate :=
    partName_ne_safeFilename library _ _
  induction remaining generalizing attempt session with
  | zero => exact .of_part hname fun path _ ↦ rfl
  | succ remaining ih =>
    have honce := @downloadOnce_effect library settings directory candidate transport
      expectedSize expectedChecksum attempt session
    rw [downloadAttempts]
    generalize downloadOnce library settings directory candidate transport expectedSize
      expectedChecksum attempt session = once at honce ⊢
    obtain ⟨outcome, middle⟩ := once
    rcases outcome with (error | _ | _) | result
    · dsimp only
      split_ifs
      · exact honce
      · exact honce.trans_failed (ih (attempt + 1) middle)
    · exact honce
    · exact honce
    · exact honce

theorem downloadAttempts_eq_ok {remaining attempt : ℕ} {after : Session}
    (h : downloadAttempts library settings directory candidate transport expectedSize
      expectedChecksum remaining attempt session = (.ok result, after)) :
    ∃ found answer, CompletedBy candidate transport after result.path found answer := by
  induction remaining generalizing attempt session with
  | zero => cases congrArg Prod.fst h
  | succ remaining ih =>
    rw [downloadAttempts] at h
    cases honce : downloadOnce library settings directory candidate transport expectedSize
        expectedChecksum attempt session with
    | mk outcome middle =>
    rw [honce] at h
    rcases outcome with (error | _ | _) | found
    · dsimp only at h
      split_ifs at h
      · cases congrArg Prod.fst h
      · exact ih h
    · cases congrArg Prod.fst h
    · cases congrArg Prod.fst h
    · cases h
      exact downloadOnce_eq_ok honce

/-- A download changes at most its partial file and, when it succeeds, its final file. -/
theorem download_effect (settings : DownloaderSettings) (directory : OutputPath)
    (candidate : DownloadCandidate) (transport : Transport) (expectedSize : Option ℤ)
    (expectedChecksum : Option Text) (session : Session) :
    DownloadEffect library directory (candidateName library candidate) session.tree
      (download library settings directory candidate transport expectedSize expectedChecksum
        session).2.tree
      (download library settings directory candidate transport expectedSize expectedChecksum
        session).1 := by
  have hname : partName (candidateName library candidate) ≠ candidateName library candidate :=
    partName_ne_safeFilename library _ _
  unfold download
  split_ifs
  · exact .of_part hname fun path _ ↦ rfl
  · exact .of_part hname fun path _ ↦ rfl
  · cases transport.reservation with
    | some error => exact .of_part hname fun path _ ↦ rfl
    | none => exact downloadAttempts_effect _ _ _ _ _ _ _ _ _

theorem download_eq_ok {expectedSize : Option ℤ} {after : Session}
    (h : download library settings directory candidate transport expectedSize expectedChecksum
      session = (.ok result, after)) :
    ∃ found answer, CompletedBy candidate transport after result.path found answer := by
  unfold download at h
  split_ifs at h
  · cases congrArg Prod.fst h
  · cases congrArg Prod.fst h
  · cases hreservation : transport.reservation with
    | some error =>
      rw [hreservation] at h
      cases congrArg Prod.fst h
    | none =>
      rw [hreservation] at h
      exact downloadAttempts_eq_ok h

section

variable (settings : DownloaderSettings) (directory : OutputPath) (candidate : DownloadCandidate)
  (transport : Transport)

theorem downloadOnce_refused (expectedSize : Option ℕ) (expectedChecksum : Option Text)
    (attempt : ℕ) (session : Session) :
    (downloadOnce library settings directory candidate transport expectedSize expectedChecksum
      attempt session).2.refused = session.refused := by
  unfold downloadOnce
  split
  · rfl
  · dsimp only
    split <;> rfl

theorem downloadAttempts_refused (expectedSize : Option ℕ) (expectedChecksum : Option Text)
    (remaining attempt : ℕ) (session : Session) :
    (downloadAttempts library settings directory candidate transport expectedSize
      expectedChecksum remaining attempt session).2.refused = session.refused := by
  induction remaining generalizing attempt session with
  | zero => rfl
  | succ remaining ih =>
    have honce := @downloadOnce_refused library settings directory candidate transport
      expectedSize expectedChecksum attempt session
    rw [downloadAttempts]
    generalize downloadOnce library settings directory candidate transport expectedSize
      expectedChecksum attempt session = once at honce ⊢
    obtain ⟨outcome, middle⟩ := once
    rcases outcome with (error | _ | _) | result
    · dsimp only
      split_ifs
      · exact honce
      · exact (ih (attempt + 1) middle).trans honce
    · exact honce
    · exact honce
    · exact honce

theorem download_refused (expectedSize : Option ℤ) (expectedChecksum : Option Text)
    (session : Session) :
    (download library settings directory candidate transport expectedSize expectedChecksum
      session).2.refused = session.refused := by
  unfold download
  split_ifs
  · rfl
  · rfl
  · cases transport.reservation with
    | some error => rfl
    | none => exact downloadAttempts_refused _ _ _ _ _ _ _ _ _

end

end GameLauncher.Scraper
