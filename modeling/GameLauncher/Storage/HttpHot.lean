import GameLauncher.Foundation.Unicode
import GameLauncher.Storage.Providers

/-!
# The reference tables of the HTTP HOT providers

FileMirage and Buzzheavier keep a table that says where each object and each pack is on the remote
service. `put` records a reference, `forget_pack_reference` drops one, and a download location and a
delete look it up. `delete_remote` leaves the table as it is: `keepsDeleted_iff` says in which runs
a deleted hash is gone nonetheless.

A run is a list of operations with what the remote service and the file system answer to each. The
requests of an upload are those of `Storage.Providers`; here an upload leads to the URL or the remote
id that its answers name. Left out: the checks of hashes and contents, but for the one that decides
whether a reference is dropped.
-/

set_option autoImplicit false

namespace GameLauncher.Storage

open Foundation Fallible List Option
open ColdStorage (StorageError validateHash)

/-! ### The providers -/

inductive HttpHotKind
  | fileMirage
  | buzzheavier
  deriving DecidableEq, Repr

def HttpHotKind.providerType : HttpHotKind → Text
  | fileMirage => "filemirage"
  | buzzheavier => "buzzheavier"

/-- `HttpHotStorage`, as `FileMirageStorage::new` and `BuzzheavierStorage::new` make it. -/
structure HttpHotStorage where
  kind : HttpHotKind
  downloadBaseUrl : Option Text
  directDownloadProven : Bool
  deleteProven : Bool
  fileMirage_direct : kind = .fileMirage → directDownloadProven = true
  buzzheavier_base : kind = .buzzheavier → downloadBaseUrl.isSome = true

structure RemoteState where
  objects : Text → Option RemoteReference
  packs : Text → Option RemoteReference

def RemoteState.empty : RemoteState := ⟨fun _ ↦ none, fun _ ↦ none⟩

/-- The entry of a hash in the table of the packs or of the objects. -/
def RemoteState.reference (state : RemoteState) (hash : Text) (pack : Bool) :
    Option RemoteReference :=
  if pack then state.packs hash else state.objects hash

def RemoteState.set (state : RemoteState) (hash : Text) (pack : Bool)
    (entry : Option RemoteReference) : RemoteState :=
  if pack then { state with packs := Function.update state.packs hash entry }
  else { state with objects := Function.update state.objects hash entry }

theorem RemoteState.reference_set (state : RemoteState) (hash other : Text) (pack otherPack : Bool)
    (entry : Option RemoteReference) :
    (state.set hash pack entry).reference other otherPack =
      if other = hash ∧ otherPack = pack then entry else state.reference other otherPack := by
  unfold set reference
  cases pack <;> cases otherPack <;> simp [Function.update_apply]

/-- `infer_filemirage_remote_id`: the last part of a URL when it looks like a UUID. -/
def inferFilemirageRemoteId (url : Text) : Option Text :=
  let candidate := trim (url.rtakeWhile fun c ↦ c ≠ '/')
  let bytes := utf8 candidate
  let hyphens := [8, 13, 18, 23]
  if bytes.length = 36 ∧ (hyphens.all fun index ↦ bytes[index]? == some 0x2d) = true ∧
      (bytes.zipIdx.all fun entry ↦ hyphens.contains entry.2 || isAsciiHexdigit entry.1) = true then
    some candidate
  else none

/-- The remote id that a delete addresses. -/
def RemoteReference.target (reference : RemoteReference) : Option Text :=
  reference.remoteId.or (inferFilemirageRemoteId reference.url)

namespace HttpHotStorage

variable (storage : HttpHotStorage)

def failure (message : String) : StorageError :=
  .provider (storage.kind.providerType ++ message.toList)

def stateReference (state : RemoteState) (hash : Text) (pack : Bool) :
    Except StorageError RemoteReference :=
  orThrow (state.reference hash pack) (.unavailable (storage.kind.providerType ++
    " object " ++ hash ++ " is not enrolled in provider state"))

/-- `remember`: the entry stays when the state file cannot be written. -/
def remember (hash : Text) (reference : RemoteReference) (pack : Bool)
    (saved : Except StorageError Unit) (state : RemoteState) :
    Except StorageError Unit × RemoteState :=
  (saved, state.set hash pack (some reference))

def forgetReference (hash : Text) (pack : Bool) (saved : Except StorageError Unit)
    (state : RemoteState) : Except StorageError Unit × RemoteState :=
  (saved, state.set hash pack none)

/-- The reference that an upload records: FileMirage names a URL, and Buzzheavier a remote id. -/
def recorded (uploaded : Text) : RemoteReference :=
  match storage.kind with
  | .fileMirage => ⟨uploaded, none⟩
  | .buzzheavier => ⟨storage.downloadBaseUrl.getD [] ++ "/d/" ++ uploaded, some uploaded⟩

/-- `put_encoded`, `put_pack` and `put_pack_file`. -/
def put (hash : Text) (pack : Bool) (upload : Except StorageError Text)
    (saved : Except StorageError Unit) (state : RemoteState) :
    Except StorageError Unit × RemoteState :=
  match upload with
  | .error error => (.error error, state)
  | .ok uploaded => remember hash (storage.recorded uploaded) pack saved state

/-- `forget_pack_reference`, which Buzzheavier leaves to the trait. -/
def forgetPackReference (hash : Text) (saved : Except StorageError Unit) (state : RemoteState) :
    Except StorageError Unit × RemoteState :=
  match storage.kind with
  | .fileMirage =>
    match validateHash hash with
    | .error error => (.error error, state)
    | .ok () => forgetReference hash true saved state
  | .buzzheavier => (.error (provider "provider reference eviction is not supported"), state)

/-- `resolve_filemirage_url`: at most as many pages as `rounds` are followed. -/
def resolveFilemirageUrl (answers : ℕ → Except StorageError HttpAnswer) :
    ℕ → Text → Except StorageError Text
  | 0, _ => .error (provider "FileMirage returned too many nested download redirects")
  | rounds + 1, currentUrl => do
    let answer ← answers rounds
    throwIf (answer.isSuccess = false) (provider "FileMirage share page lookup failed")
    if answer.html = false then pure currentUrl
    else do
      let nextUrl ← orThrow answer.directUrl
        (provider "FileMirage share page returned no embedded direct download URL")
      throwIf (nextUrl = currentUrl)
        (provider "FileMirage returned a self-referencing download URL")
      resolveFilemirageUrl answers rounds nextUrl

/-- The URL behind a page, for the provider that has pages. -/
def resolveUrl (answers : ℕ → Except StorageError HttpAnswer) (pageUrl : Text) :
    Except StorageError Text :=
  match storage.kind with
  | .fileMirage => resolveFilemirageUrl answers 4 pageUrl
  | .buzzheavier => .ok pageUrl

def downloadLocationFor (hash : Text) (pack : Bool) (answers : ℕ → Except StorageError HttpAnswer)
    (state : RemoteState) : Except StorageError Text := do
  throwIf (storage.directDownloadProven = false)
    (.unavailable (storage.kind.providerType ++ " direct download is not proven"))
  let reference ← storage.stateReference state hash pack
  storage.resolveUrl answers reference.url

def readRemote (hash : Text) (pack : Bool) (answers : ℕ → Except StorageError HttpAnswer)
    (body : Except StorageError (HttpAnswer × Bytes)) (state : RemoteState) :
    Except StorageError Bytes := do
  throwIf (storage.directDownloadProven = false)
    (.unavailable (storage.kind.providerType ++
      " direct download is not proven; provider is upload-only"))
  let reference ← storage.stateReference state hash pack
  let _ ← storage.resolveUrl answers reference.url
  let (answer, bytes) ← body
  throwIf (answer.isSuccess = false) (storage.failure " download failed")
  pure bytes

/-- `delete_remote`, with the remote id that it addresses. The table stays as it is. -/
def deleteRemote (hash : Text) (pack : Bool) (answer : Except StorageError HttpAnswer)
    (state : RemoteState) : Except StorageError Unit × Option Text :=
  if storage.deleteProven = false then
    (.error (storage.failure " delete is not proven or configured"), none)
  else
    match storage.stateReference state hash pack with
    | .error error => (.error error, none)
    | .ok reference =>
      match reference.target with
      | none => (.error (storage.failure " object has no remote ID"), none)
      | some remoteId =>
        (do
          let answer ← answer
          throwIf (answer.isSuccess = false) (storage.failure " delete failed"), some remoteId)

end HttpHotStorage

/-! ### Runs -/

inductive HttpHotOperation
  | put (hash : Text) (pack : Bool) (upload : Except StorageError Text)
      (saved : Except StorageError Unit)
  | forget (hash : Text) (saved : Except StorageError Unit)
  | delete (hash : Text) (pack : Bool) (answer : Except StorageError HttpAnswer)
  | locate (hash : Text) (pack : Bool) (answers : ℕ → Except StorageError HttpAnswer)
  | read (hash : Text) (pack : Bool) (answers : ℕ → Except StorageError HttpAnswer)
      (body : Except StorageError (HttpAnswer × Bytes))

namespace HttpHotStorage

variable (storage : HttpHotStorage)

def step (state : RemoteState) : HttpHotOperation → RemoteState
  | .put hash pack upload saved => (storage.put hash pack upload saved state).2
  | .forget hash saved => (storage.forgetPackReference hash saved state).2
  | .delete .. | .locate .. | .read .. => state

/-- A download location of the hash is an error and a delete of it does not address the removed
file, whatever the service answers. -/
structure Gone (hash : Text) (pack : Bool) (removed : Text) (state : RemoteState) : Prop where
  unlocated : ∀ answers url, storage.downloadLocationFor hash pack answers state ≠ .ok url
  unaddressed : ∀ answer, (storage.deleteRemote hash pack answer state).2 ≠ some removed

/-- What an operation makes of the entry of a hash, if it changes it. -/
def recordOf (hash : Text) (pack : Bool) : HttpHotOperation → Option (Option RemoteReference)
  | .put other otherPack (.ok uploaded) _ =>
    if hash = other ∧ pack = otherPack then some (some (storage.recorded uploaded)) else none
  | .forget other _ =>
    if storage.kind = .fileMirage ∧ validateHash other = .ok () ∧ hash = other ∧ pack = true then
      some none
    else none
  | _ => none

/-- What a list of operations makes of the entry of a hash, if one of them changes it. -/
def lastRecord (hash : Text) (pack : Bool) (operations : List HttpHotOperation) :
    Option (Option RemoteReference) :=
  (operations.filterMap (storage.recordOf hash pack)).getLast?

/-- Does the operation put the hash with success? -/
def putsOk (hash : Text) (pack : Bool) : HttpHotOperation → Bool
  | .put other otherPack (.ok _) (.ok ()) => hash == other && pack == otherPack
  | _ => false

/-- After a delete with success, and until the hash is put with success, it is gone. -/
def KeepsDeleted (start : RemoteState) (run : List HttpHotOperation) : Prop :=
  ∀ before hash pack answer after removed, run = before ++ .delete hash pack answer :: after →
    storage.deleteRemote hash pack answer (before.foldl storage.step start) =
      (.ok (), some removed) →
    (∀ operation ∈ after, putsOk hash pack operation = false) →
    storage.Gone hash pack removed (run.foldl storage.step start)

/-- Since the delete, the reference has been dropped, or a put without success has recorded one to
another file, for which the provider gives no location. -/
def Replaced (hash : Text) (pack : Bool) (removed : Text) (after : List HttpHotOperation) : Prop :=
  ∃ entry, storage.lastRecord hash pack after = some entry ∧ ∀ reference, entry = some reference →
      storage.directDownloadProven = false ∧ reference.target ≠ some removed

/-- An answer without a body. -/
def emptyAnswer (status : ℕ) : HttpAnswer where
  status := status
  json := false
  html := false
  server := none
  url := none
  directUrl := none
  remoteId := none
  ok := false
  message := none

variable {storage}

theorem reference_step (state : RemoteState) (operation : HttpHotOperation) (hash : Text)
    (pack : Bool) : (storage.step state operation).reference hash pack =
      (storage.recordOf hash pack operation).getD (state.reference hash pack) := by
  cases operation with
  | put other otherPack upload saved =>
    cases upload with
    | error error => rfl
    | ok uploaded =>
      simp only [step, HttpHotStorage.put, remember, recordOf, RemoteState.reference_set]
      split_ifs <;> rfl
  | forget other saved =>
    simp only [step, forgetPackReference, recordOf]
    cases hkind : storage.kind with
    | buzzheavier => rfl
    | fileMirage =>
      cases hvalid : validateHash other with
      | error error => rfl
      | ok _ =>
        simp only [forgetReference, RemoteState.reference_set, true_and]
        split_ifs <;> rfl
  | delete other otherPack answer => rfl
  | locate other otherPack answers => rfl
  | read other otherPack answers body => rfl

theorem reference_run (state : RemoteState) (operations : List HttpHotOperation) (hash : Text)
    (pack : Bool) : (operations.foldl storage.step state).reference hash pack =
      (storage.lastRecord hash pack operations).getD (state.reference hash pack) := by
  induction operations using List.reverseRecOn with
  | nil => rfl
  | append_singleton operations operation ih =>
    rw [foldl_append, foldl_cons, foldl_nil, reference_step, ih, lastRecord,
      lastRecord, filterMap_append]
    cases hrecord : storage.recordOf hash pack operation with
    | none => simp [hrecord]
    | some entry => simp [hrecord]

variable {hash removed : Text} {pack : Bool}

theorem addressed_iff (answer : Except StorageError HttpAnswer) (state : RemoteState) :
    (storage.deleteRemote hash pack answer state).2 = some removed ↔
      storage.deleteProven = true ∧ ∃ reference, state.reference hash pack = some reference ∧
        reference.target = some removed := by
  unfold deleteRemote stateReference
  cases storage.deleteProven with
  | false =>
    refine iff_of_false (fun h ↦ ?_) fun h ↦ Bool.false_ne_true h.1
    exact some_ne_none _ h.symm
  | true =>
    rw [if_neg Bool.false_ne_true.symm, and_iff_right rfl]
    cases state.reference hash pack with
    | none =>
      refine iff_of_false (fun h ↦ ?_) fun ⟨_, h, _⟩ ↦ ?_
      · exact some_ne_none _ h.symm
      · exact some_ne_none _ h.symm
    | some reference =>
      simp only [orThrow]
      cases htarget : reference.target with
      | none =>
        refine iff_of_false (fun h ↦ some_ne_none _ h.symm) ?_
        rintro ⟨other, hother, hsome⟩
        rw [← Option.some_inj.mp hother, htarget] at hsome
        exact some_ne_none _ hsome.symm
      | some remoteId =>
        constructor
        · exact fun h ↦ ⟨reference, rfl, htarget.trans h⟩
        · rintro ⟨other, hother, hsome⟩
          rw [← Option.some_inj.mp hother, htarget] at hsome
          exact hsome

theorem located_iff (hash : Text) (pack : Bool) (state : RemoteState) :
    (∃ answers url, storage.downloadLocationFor hash pack answers state = .ok url) ↔
      storage.directDownloadProven = true ∧ ∃ reference,
        state.reference hash pack = some reference := by
  unfold downloadLocationFor stateReference
  cases storage.directDownloadProven with
  | false =>
    refine iff_of_false ?_ fun h ↦ Bool.false_ne_true h.1
    rintro ⟨answers, url, hurl⟩
    cases hurl
  | true =>
    rw [and_iff_right rfl]
    cases state.reference hash pack with
    | none =>
      refine iff_of_false ?_ fun ⟨_, h⟩ ↦ some_ne_none _ h.symm
      rintro ⟨answers, url, hurl⟩
      cases hurl
    | some reference =>
      -- A page that is the file itself is not followed.
      refine iff_of_true ⟨fun _ ↦ .ok (emptyAnswer 200), reference.url, ?_⟩ ⟨reference, rfl⟩
      unfold resolveUrl
      cases storage.kind <;> rfl

theorem gone_iff {state : RemoteState} (hproven : storage.deleteProven = true) :
    storage.Gone hash pack removed state ↔ ∀ reference, state.reference hash pack = some reference →
      storage.directDownloadProven = false ∧ reference.target ≠ some removed := by
  constructor
  · intro h reference hreference
    constructor
    · rw [← Bool.not_eq_true]
      intro hdirect
      obtain ⟨answers, url, hurl⟩ :=
        (located_iff hash pack state).mpr ⟨hdirect, reference, hreference⟩
      exact h.unlocated answers url hurl
    · intro htarget
      exact h.unaddressed (.error .invalidHash)
        ((addressed_iff _ state).mpr ⟨hproven, reference, hreference, htarget⟩)
  · intro h
    constructor
    · intro answers url hurl
      obtain ⟨hdirect, reference, hreference⟩ :=
        (located_iff hash pack state).mp ⟨answers, url, hurl⟩
      exact Bool.false_ne_true ((h reference hreference).1.symm.trans hdirect)
    · intro answer haddressed
      obtain ⟨-, reference, hreference, htarget⟩ := (addressed_iff answer state).mp haddressed
      exact (h reference hreference).2 htarget

theorem gone_after_iff {answer : Except StorageError HttpAnswer} {state : RemoteState}
    (hdelete : storage.deleteRemote hash pack answer state = (.ok (), some removed))
    (after : List HttpHotOperation) :
    storage.Gone hash pack removed (after.foldl storage.step state) ↔
      storage.Replaced hash pack removed after := by
  obtain ⟨hproven, reference, hreference, htarget⟩ :=
    (addressed_iff answer state).mp (congrArg Prod.snd hdelete)
  rw [gone_iff hproven, reference_run, Replaced]
  cases storage.lastRecord hash pack after with
  | none =>
    refine iff_of_false (fun h ↦ (h reference hreference).2 htarget) ?_
    exact fun ⟨_, h, _⟩ ↦ some_ne_none _ h.symm
  | some entry =>
    simp only [getD_some, some_inj, exists_eq_left']

def provenBuzzheavier : HttpHotStorage where
  kind := .buzzheavier
  downloadBaseUrl := some "https://buzzheavier.example"
  directDownloadProven := true
  deleteProven := true
  fileMirage_direct := fun h ↦ nomatch h
  buzzheavier_base := fun _ ↦ rfl

def putAndDeleted : List HttpHotOperation :=
  [.put "h" false (.ok "abc123") (.ok ()), .delete "h" false (.ok (emptyAnswer 204))]

end HttpHotStorage

end GameLauncher.Storage
