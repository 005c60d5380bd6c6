import GameLauncher.ColdStorage.PutThenRead
import GameLauncher.Storage.Providers

/-!
# What an upload of a pack has checked

`put_pack` of every provider checks the bytes against the hash before it does anything with them.
`put_pack_file` does so where it is the one of the trait, which reads the file and puts its bytes;
the four providers that send the file as a stream never look at its digest, and take any content
under any hash.
-/

set_option autoImplicit false

namespace GameLauncher.Storage

open Foundation Fallible Process S3CompatibleStorage
open ColdStorage (StorageError MegaColdStoragePool ColdWorld validateHash verifyPackBytes frame
  frameDigest hashOfFrame quietAccount emptyWorld)

variable {hash : Bytes → Digest} {env : Surroundings}

/-! ### Bytes -/

theorem hex_eq_of_verify {packHash : Text} {bytes : Bytes} {world : ProviderWorld} {u : Unit}
    (h : (lift (verifyPackBytes hash packHash bytes) world).result = .ok u) :
    (hash bytes).hex = packHash :=
  of_not_not (throwIf_eq_ok.mp h)

theorem putPack_hex {provider : StorageProvider} {packHash : Text} {bytes : Bytes}
    {world : ProviderWorld}
    (h : (provider.putPack hash env packHash bytes world).result = .ok ()) :
    (hash bytes).hex = packHash := by
  cases provider with
  | telegram storage =>
    obtain ⟨_, hverify, _⟩ := result_bind_eq_ok.mp h
    exact hex_eq_of_verify hverify
  | localStorage _ | s3 _ | fileMirage _ | buzzheavier _ =>
    obtain ⟨_, _, h⟩ := result_bind_eq_ok.mp h
    obtain ⟨_, hverify, _⟩ := result_bind_eq_ok.mp h
    exact hex_eq_of_verify hverify
  | mega pool =>
    change (pool.putPack hash env.cold packHash bytes world.cold).result = .ok () at h
    obtain ⟨_, _, h⟩ := result_bind_eq_ok.mp h
    obtain ⟨_, hverify, _⟩ := result_bind_eq_ok.mp h
    exact of_not_not (throwIf_eq_ok.mp hverify)

/-! ### Files -/

/-- Is `put_pack_file` the one of the trait? -/
def StorageProvider.readsFiles : StorageProvider → Bool
  | .localStorage _ | .mega _ => true
  | .s3 _ | .telegram _ | .fileMirage _ | .buzzheavier _ => false

/-- The other checks of `put_pack_file`: the form of the hash and the limit on the size. -/
def StorageProvider.Takes (provider : StorageProvider) (packHash : Text) (content : Bytes) : Prop :=
  validateHash packHash = .ok () ∧ match provider with
    | .s3 _ => content.length ≤ i64Max
    | .telegram storage => content.length ≤ storage.maxUploadBytes
    | .fileMirage _ => content.length < u64Size
    | .localStorage _ | .buzzheavier _ | .mega _ => True

theorem ask_eq_ok {α : Type} {answer : HttpAnswer → ProviderWorld → Except StorageError α}
    {world : ProviderWorld} {value : α} (h : (ask env answer world).result = .ok value) :
    ∃ found later, answer found later = .ok value := by
  unfold ask call step at h
  dsimp only at h
  split at h
  · cases h
  · exact ⟨_, _, h⟩

theorem fileSize_eq_ok {content : Bytes} {world : ProviderWorld} {size : ℕ}
    (h : (fileSize env content world).result = .ok size) : size = content.length := by
  obtain ⟨_, _, h⟩ := ask_eq_ok h
  exact (Except.ok.inj h).symm

theorem readFile_eq_ok {content bytes : Bytes} {world : ProviderWorld}
    (h : (readFile env content world).result = .ok bytes) : bytes = content := by
  obtain ⟨_, _, h⟩ := ask_eq_ok h
  exact (Except.ok.inj h).symm

theorem putPackFile_hex_of_readsFiles {provider : StorageProvider} (hreads : provider.readsFiles)
    {packHash : Text} {content : Bytes} {world : ProviderWorld}
    (h : (provider.putPackFile hash env packHash content world).result = .ok ()) :
    (hash content).hex = packHash := by
  cases provider with
  | localStorage storage =>
    obtain ⟨bytes, hread, hput⟩ := result_bind_eq_ok.mp h
    rw [← readFile_eq_ok hread]
    exact @putPack_hex hash env (.localStorage storage) packHash bytes _ hput
  | mega pool =>
    obtain ⟨bytes, hread, hput⟩ := result_bind_eq_ok.mp h
    rw [← readFile_eq_ok hread]
    exact @putPack_hex hash env (.mega pool) packHash bytes _ hput
  | s3 storage => cases hreads
  | telegram storage => cases hreads
  | fileMirage storage => cases hreads
  | buzzheavier storage => cases hreads

theorem takes_of_putPackFile {provider : StorageProvider} (hreads : provider.readsFiles = false)
    {packHash : Text} {content : Bytes} {world : ProviderWorld}
    (h : (provider.putPackFile hash env packHash content world).result = .ok ()) :
    provider.Takes packHash content := by
  cases provider with
  | localStorage storage => cases hreads
  | mega pool => cases hreads
  | s3 storage =>
    obtain ⟨_, hhash, h⟩ := result_bind_eq_ok.mp h
    obtain ⟨size, hsize, h⟩ := result_bind_eq_ok.mp h
    obtain ⟨_, hlimit, _⟩ := result_bind_eq_ok.mp h
    have hle := not_lt.mp (throwIf_eq_ok.mp hlimit)
    rw [fileSize_eq_ok hsize] at hle
    exact ⟨hhash, hle⟩
  | telegram storage =>
    obtain ⟨size, hsize, h⟩ := result_bind_eq_ok.mp h
    obtain ⟨_, _, h⟩ := result_bind_eq_ok.mp h
    obtain ⟨_, hlimit, h⟩ := result_bind_eq_ok.mp h
    obtain ⟨_, hhash, _⟩ := result_bind_eq_ok.mp h
    have hle := not_lt.mp (throwIf_eq_ok.mp hlimit)
    rw [fileSize_eq_ok hsize] at hle
    exact ⟨hhash, hle⟩
  | fileMirage storage =>
    obtain ⟨_, hhash, h⟩ := result_bind_eq_ok.mp h
    obtain ⟨_, _, h⟩ := result_bind_eq_ok.mp h
    obtain ⟨size, hsize, h⟩ := result_bind_eq_ok.mp h
    obtain ⟨_, hlimit, _⟩ := result_bind_eq_ok.mp h
    have hlt := not_le.mp (throwIf_eq_ok.mp hlimit)
    rw [fileSize_eq_ok hsize] at hlt
    exact ⟨hhash, hlt⟩
  | buzzheavier storage =>
    obtain ⟨_, hhash, _⟩ := result_bind_eq_ok.mp h
    exact ⟨hhash, trivial⟩

/-! ### Servers that oblige -/

def obligingAnswer : HttpAnswer where
  status := 200
  json := true
  html := false
  server := some []
  url := some []
  directUrl := none
  remoteId := some []
  ok := true
  message := some ⟨0, some ⟨[], []⟩⟩

/-- No call fails. -/
def obliging : Surroundings where
  failure := fun _ ↦ none
  answer := fun _ ↦ obligingAnswer
  cold := quietAccount

/-- Nothing is stored yet. -/
def freshWorld : ProviderWorld where
  files := fun _ ↦ none
  bucket := fun _ ↦ none
  telegram := none
  telegramFile := fun _ ↦ none
  nextChat := 0
  references := fun _ ↦ none
  referencesFile := fun _ ↦ none
  sent := []
  cold := emptyWorld
  clock := 0

theorem lift_throwIf_bind {α : Type} {condition : Prop} [Decidable condition]
    (hcondition : ¬ condition) (failure : StorageError) (next : Unit → ProviderTask α)
    (world : ProviderWorld) :
    ((lift (throwIf condition failure) >>= next) world).result = (next () world).result :=
  result_bind_of_ok (throwIf_eq_ok.mpr hcondition)

theorem uploadChunks_obliging (chunk : Bytes) (rest : List Bytes) (remoteUrl : Option Text)
    (world : ProviderWorld) :
    (FileMirageStorage.uploadChunks obliging (chunk :: rest) remoteUrl world).result =
      .ok (some []) := by
  induction rest generalizing chunk remoteUrl world with
  | nil => rfl
  | cons next rest ih =>
    have hsuccess : ¬ (obliging.answer world.clock).isSuccess = false := by
      change ¬ obligingAnswer.isSuccess = false
      decide
    rw [FileMirageStorage.uploadChunks, result_bind_of_ok rfl, lift_throwIf_bind hsuccess]
    exact ih next _ _

theorem headRemote_obliging {key : Text} {object : S3Object} {world : ProviderWorld}
    (h : world.bucket key = some object) :
    (headRemote obliging key world).result = .ok ⟨some object.bytes.length, object.blake3⟩ := by
  rw [headRemote, result_bind_of_ok rfl]
  change orThrow ((world.bucket key).map _) _ = _
  rw [h]
  rfl

theorem putFileStreaming_obliging {packHash key : Text} {content : Bytes}
    (hlimit : content.length ≤ i64Max) (world : ProviderWorld) :
    (putFileStreaming obliging packHash key content content.length
        world).result = .ok () ∧
      (putFileStreaming obliging packHash key content content.length
        world).final.bucket key = some ⟨content, some packHash⟩ := by
  have hbound (later : ProviderWorld) : (lift (throwIf (i64Max < content.length)
      (.configuration "S3 object size exceeds i64")) later).result = .ok () :=
    throwIf_eq_ok.mpr (not_lt.mpr hlimit)
  constructor
  · rw [putFileStreaming, result_bind_of_ok rfl, result_bind_of_ok (hbound _)]
    rfl
  · rw [putFileStreaming, final_bind_of_ok rfl, final_bind_of_ok (hbound _)]
    exact Function.update_self key _ _

theorem putPackFile_obliging {provider : StorageProvider} (hreads : provider.readsFiles = false)
    {packHash : Text} {content : Bytes} (h : provider.Takes packHash content) :
    (provider.putPackFile hash obliging packHash content freshWorld).result = .ok () := by
  obtain ⟨hhash, hlimit⟩ := h
  have hvalid (world : ProviderWorld) : (lift (validateHash packHash) world).result = .ok () :=
    hhash
  cases provider with
  | localStorage storage => cases hreads
  | mega pool => cases hreads
  | s3 storage =>
    change (putPackFile obliging packHash content freshWorld).result = .ok ()
    rw [putPackFile, result_bind_of_ok (hvalid _), result_bind_of_ok rfl,
      lift_throwIf_bind (not_lt.mpr hlimit), result_bind_of_ok rfl]
    have hstored (world : ProviderWorld) := @putFileStreaming_obliging packHash
      (packKey packHash) content hlimit world
    change ((putFileStreaming obliging packHash
      (packKey packHash) content content.length >>= _) _).result = .ok ()
    rw [result_bind_of_ok (hstored _).1, result_bind_of_ok (headRemote_obliging (hstored _).2)]
    exact throwIf_eq_ok.mpr (by simp)
  | telegram storage =>
    change (storage.putPackFile obliging packHash content freshWorld).result = .ok ()
    rw [TelegramColdStorageProvider.putPackFile, result_bind_of_ok rfl,
      TelegramColdStorageProvider.uploadFile, TelegramColdStorageProvider.uploadBody,
      result_bind_of_ok rfl, lift_throwIf_bind (not_lt.mpr hlimit), result_bind_of_ok (hvalid _)]
    rfl
  | fileMirage storage =>
    change (storage.putPackFile obliging packHash content freshWorld).result = .ok ()
    have hserver : ∃ server, ∀ world : ProviderWorld,
        (storage.filemirageServer obliging world).result = .ok server := by
      unfold FileMirageStorage.filemirageServer
      cases storage.uploadServerUrl with
      | some server => exact ⟨server, fun _ ↦ rfl⟩
      | none => exact ⟨[], fun _ ↦ rfl⟩
    have hchunks : ∃ chunk rest, (if content.length = 0 then [[]]
        else chunks storage.uploadChunkBytes content.length content) = chunk :: rest := by
      cases content with
      | nil => exact ⟨[], [], rfl⟩
      | cons byte rest => exact ⟨_, _, rfl⟩
    obtain ⟨server, hserver⟩ := hserver
    obtain ⟨chunk, rest, hchunks⟩ := hchunks
    rw [FileMirageStorage.putPackFile, result_bind_of_ok (hvalid _),
      FileMirageStorage.uploadFilemirageFile, result_bind_of_ok (hserver _), result_bind_of_ok rfl,
      lift_throwIf_bind (not_le.mpr hlimit), result_bind_of_ok rfl, hchunks,
      result_bind_of_ok (uploadChunks_obliging chunk rest none _)]
    rfl
  | buzzheavier storage =>
    change (storage.putPackFile obliging packHash content freshWorld).result = .ok ()
    rw [BuzzheavierStorage.putPackFile, result_bind_of_ok (hvalid _)]
    rfl

/-! ### Streams and bytes -/

/-- `put_pack` succeeds only on bytes that have the hash. `put_pack_file` succeeds only on files
that have the hash, whatever the servers do, exactly when it is the one of the trait, the file has
the hash, or it refuses the form of the hash or the size. -/
theorem putPackFile_hex_iff (hash : Bytes → Digest) (provider : StorageProvider) (packHash : Text)
    (content : Bytes) :
    (∀ env world, (provider.putPack hash env packHash content world).result = .ok () →
        (hash content).hex = packHash) ∧
      ((∀ env world, (provider.putPackFile hash env packHash content world).result = .ok () →
          (hash content).hex = packHash) ↔
        provider.readsFiles = true ∨ (hash content).hex = packHash ∨
          ¬ provider.Takes packHash content) := by
  refine ⟨fun env world h ↦ putPack_hex h, ?_⟩
  constructor
  · intro h
    by_cases hreads : provider.readsFiles = true
    · exact .inl hreads
    by_cases htakes : provider.Takes packHash content
    · have hput := @putPackFile_obliging hash provider (eq_false_of_ne_true hreads) packHash content
        htakes
      exact .inr (.inl (h obliging freshWorld hput))
    · exact .inr (.inr htakes)
  · intro h env world hput
    by_cases hreads : provider.readsFiles = true
    · exact putPackFile_hex_of_readsFiles hreads hput
    rcases h with hreads' | hhex | htakes
    · exact absurd hreads' hreads
    · exact hhex
    · exact absurd (takes_of_putPackFile (eq_false_of_ne_true hreads) hput) htakes

/-- The hash of the failing uploads. -/
def zeroHash : Text := List.replicate 64 '0'

/-- The bucket, the bot and the two hosts. -/
def streamingProviders : List StorageProvider :=
  [.s3 ⟨8388608, 8388608, by decide⟩, .telegram ⟨[1], 52428800, by decide⟩,
    .fileMirage ⟨none, 103809024, by decide⟩, .buzzheavier ⟨"https://buzzheavier.com"⟩]

/-- A file whose hash is another one is taken by the four providers that send streams. The bucket
then holds it under the wrong hash. -/
theorem putPackFile_takes_wrong_bytes :
    (hashOfFrame frame).hex ≠ zeroHash ∧ (∀ provider ∈ streamingProviders,
        (provider.putPack hashOfFrame obliging zeroHash frame freshWorld).result ≠ .ok () ∧
          (provider.putPackFile hashOfFrame obliging zeroHash frame freshWorld).result = .ok ()) ∧
      (putPackFile obliging zeroHash frame freshWorld).final.bucket
        (packKey zeroHash) = some ⟨frame, some zeroHash⟩ := by
  have hhex : (hashOfFrame frame).hex ≠ zeroHash := by decide
  have hhash : validateHash zeroHash = .ok () := throwIf_eq_ok.mpr (by decide)
  refine ⟨hhex, fun provider hprovider ↦ ⟨fun h ↦ hhex (putPack_hex h), ?_⟩, by decide⟩
  simp only [streamingProviders, List.mem_cons, List.not_mem_nil, or_false] at hprovider
  rcases hprovider with rfl | rfl | rfl | rfl
  · exact putPackFile_obliging rfl ⟨hhash, by decide⟩
  · exact putPackFile_obliging rfl ⟨hhash, by decide⟩
  · exact putPackFile_obliging rfl ⟨hhash, by decide⟩
  · exact putPackFile_obliging rfl ⟨hhash, trivial⟩

end GameLauncher.Storage
