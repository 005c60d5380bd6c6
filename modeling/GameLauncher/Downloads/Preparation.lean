import GameLauncher.Downloads.TaskRuns

/-!
# The part of a download that runs alone

What `DownloadAsync` does before it starts its tasks leaves every chunk of a download that begins
with a fitting cache either held or absent. `Read` is that condition, `Begun` the one before the
first read of every chunk. The pack path keeps `Read` however it ends, whatever the API answers and
whatever bytes are served, and ends with an exception in `raises` when every exception that comes
from outside is in `raises` (`Tolerated`).
-/

set_option autoImplicit false

namespace GameLauncher.Downloads

open Foundation Fallible Packs Manifests List ChunkCache
open Process

/-! ### Steps beside the chunk cache -/

variable {encodedHash : Text} {bytes : Bytes} {exception : LauncherException} {α : Type}
  {pack : ResolvedPack}

def At (property : ChunkCache → List Text → Prop) (session : Session) : Prop :=
  property session.cache session.packPreparedChunks

/-- A pack of some answer of the API. -/
def Answered (network : Network) (pack : ResolvedPack) : Prop :=
  ∃ call encodedHashes packs, network.packAnswer call encodedHashes = .ok packs ∧ pack ∈ packs

/-- Every exception that can come from outside is in `raises`: those of the answers of the API and
of the transfers, and those of a pack that is damaged or that lacks a chunk it is said to hold. -/
structure Tolerated (hash : Bytes → Digest) (network : Network) (chunks : List ChunkRef)
    (raises : LauncherException → Prop) : Prop where
  invalidData : ∀ message, raises (.invalidData message)
  httpRequest : ∀ message, raises (.httpRequest message)
  packAnswer : ∀ call encodedHashes exception,
    network.packAnswer call encodedHashes = .error exception → raises exception
  packContent : ∀ call pack source exception,
    network.packContent call pack source = .error exception → raises exception
  parse : ∀ bytes packHash exception,
    PhysicalPackReader.parse hash bytes (some packHash) = .error exception →
      raises (.ofPack exception)
  readEncoded : ∀ pack, Answered network pack → ∀ bytes reader,
    PhysicalPackReader.parse hash bytes (some pack.packHash) = .ok reader →
      ∀ encodedHash ∈ pack.chunkHashes, encodedHash ∈ hashesOf chunks → ∀ exception,
        reader.readEncoded hash encodedHash = .error exception → raises (.ofPack exception)

@[simp] theorem validateHash_eq_ok {value : Text} {u : Unit} :
    validateHash value = .ok u ↔ IsHash value := by
  rw [validateHash, throwIf_eq_ok, Bool.not_eq_false, isHash_iff]

variable {cache : ChunkCache}

theorem readAsync_of_none {hash : Bytes → Digest} {now : ℤ}
    (hvalid : IsHash encodedHash) (hfile : cache.file encodedHash = none) :
    cache.readAsync hash now encodedHash = (.ok none, cache) := by
  have hok : validateHash encodedHash = .ok () := validateHash_eq_ok.mpr hvalid
  simp only [ChunkCache.readAsync, hok, hfile]

theorem readAsync_of_some {hash : Bytes → Digest} {now : ℤ}
    (hvalid : IsHash encodedHash) (hfile : cache.file encodedHash = some bytes) :
    cache.readAsync hash now encodedHash =
      if (hash bytes).hex = encodedHash then (.ok (some bytes), cache.touch encodedHash now)
      else (.ok none, cache.deleteAsync encodedHash) := by
  have hok : validateHash encodedHash = .ok () := validateHash_eq_ok.mpr hvalid
  simp only [ChunkCache.readAsync, hok, hfile, ne_eq, ite_not]

theorem not_isHash_of_readAsync {hash : Bytes → Digest} {now : ℤ}
    (h : (cache.readAsync hash now encodedHash).1 = .error exception) : ¬ IsHash encodedHash := by
  intro hvalid
  cases hfile : cache.file encodedHash with
  | none =>
    rw [readAsync_of_none hvalid hfile] at h
    cases h
  | some bytes =>
    rw [readAsync_of_some hvalid hfile] at h
    split_ifs at h

theorem put_of_isHash {mismatch : String} {hash : Bytes → Digest} {now : ℤ}
    (hvalid : IsHash encodedHash) :
    cache.put mismatch hash now encodedHash bytes =
      if (hash bytes).hex = encodedHash then (.ok (), ((cache.moveFile encodedHash bytes).indexEntry
        encodedHash bytes.length now).evictIfNeededAsync)
      else (.error (.invalidData mismatch), cache) := by
  have hok : validateHash encodedHash = .ok () := validateHash_eq_ok.mpr hvalid
  simp only [ChunkCache.put, hok, ne_eq, ite_not]

section Aside

variable {hash : Bytes → Digest} {network : Network} {chunks : List ChunkRef}
  {raises : LauncherException → Prop} {property : ChunkCache → List Text → Prop}

theorem keeps_ask {answer : ℕ → Except LauncherException α} {fact : α → Prop}
    (hok : ∀ call value, answer call = .ok value → fact value)
    (herror : ∀ call exception, answer call = .error exception → raises exception) :
    Keeps (At property) raises (ask answer) fact :=
  keeps_step (fun _ h ↦ h) (fun _ value _ h ↦ hok _ value h) fun _ exception _ h ↦ herror _ exception h

theorem keeps_raise {outcome : Except LauncherException α} {fact : α → Prop}
    (hok : ∀ value, outcome = .ok value → fact value)
    (herror : ∀ exception, outcome = .error exception → raises exception) :
    Keeps (At property) raises (raise outcome) fact :=
  keeps_query (fun _ value _ h ↦ hok value h) fun _ exception _ h ↦ herror exception h

theorem keeps_readPack {packHash : Text} (hvalid : IsHash packHash) :
    Keeps (At property) raises (readPack hash network packHash) fun _ ↦ True :=
  keeps_step (fun _ h ↦ h) (fun _ _ _ _ ↦ trivial)
    fun _ _ _ h ↦ absurd hvalid (not_isHash_of_readAsync h)

theorem keeps_putPack {packHash : Text} (hvalid : IsHash packHash)
    (hinvalid : ∀ message, raises (.invalidData message)) :
    Keeps (At property) raises (putPack hash network packHash bytes) fun _ ↦ True := by
  refine keeps_step (fun _ h ↦ h) (fun _ _ _ _ ↦ trivial) fun _ exception _ h ↦ ?_
  unfold PackCache.putAsync at h
  rw [put_of_isHash hvalid] at h
  split_ifs at h
  exact Except.error.inj h ▸ hinvalid _

theorem raises_of_throwIf {condition : Prop} [Decidable condition] {message : String}
    (hinvalid : ∀ message, raises (.invalidData message))
    (h : throwIf condition (.invalidData message) = .error exception) : raises exception :=
  (throwIf_eq_error.mp h).2 ▸ hinvalid message

theorem resolvePacksAsync_eq_ok {call : ℕ} {encodedHashes : List Text} {packs : List ResolvedPack}
    (h : LauncherApiClient.resolvePacksAsync network call encodedHashes = .ok packs) :
    ∀ pack ∈ packs, IsHash pack.packHash ∧ Answered network pack := by
  unfold LauncherApiClient.resolvePacksAsync at h
  simp only [bind_eq_ok, pure_eq_ok] at h
  obtain ⟨answer, hanswer, _, hchecked, rfl⟩ := h
  intro pack hpack
  have hpackChecked := forM_eq_ok.mp hchecked pack hpack
  unfold LauncherApiClient.checkPack at hpackChecked
  simp only [bind_eq_ok, throwIf_eq_ok, exists_const, not_or, Bool.not_eq_false, isHash_iff]
    at hpackChecked
  exact ⟨hpackChecked.1.1, call, encodedHashes, answer, hanswer, hpack⟩

theorem raises_of_resolvePacksAsync (htolerated : Tolerated hash network chunks raises) {call : ℕ}
    {encodedHashes : List Text}
    (h : LauncherApiClient.resolvePacksAsync network call encodedHashes = .error exception) :
    raises exception := by
  unfold LauncherApiClient.resolvePacksAsync at h
  rw [bind_eq_error] at h
  rcases h with h | ⟨packs, -, h⟩
  · exact htolerated.packAnswer _ _ _ h
  · rw [bind_eq_error] at h
    rcases h with h | ⟨_, -, h⟩
    · obtain ⟨pack, -, hpack⟩ := exists_of_forM_eq_error h
      unfold LauncherApiClient.checkPack at hpack
      rw [bind_eq_error] at hpack
      rcases hpack with hpack | ⟨_, -, hpack⟩
      · exact raises_of_throwIf htolerated.invalidData hpack
      · exact raises_of_throwIf htolerated.invalidData hpack
    · cases h

variable (htolerated : Tolerated hash network chunks raises)

include htolerated

theorem keeps_downloadPackFromSourceAsync {pack : ResolvedPack} {source : ResolvedPackSource}
    (hvalid : IsHash pack.packHash) :
    Keeps (At property) raises (downloadPackFromSourceAsync hash network pack source)
      fun _ ↦ True := by
  refine keeps_bind (fun _ ↦ True) (keeps_ask (fun _ _ _ ↦ trivial)
    fun call exception h ↦ htolerated.packContent call pack source exception h) fun result _ ↦ ?_
  refine keeps_bind (fun _ ↦ True) (keeps_raise (fun _ _ ↦ trivial)
    fun exception h ↦ raises_of_throwIf htolerated.invalidData h) fun _ _ ↦ ?_
  refine keeps_bind _ (keeps_putPack hvalid htolerated.invalidData) fun _ _ ↦ ?_
  exact keeps_pure trivial

/-- Whatever the sources serve, the loop over them goes on or ends with an exception of theirs. -/
theorem keeps_downloadFromSources (hvalid : IsHash pack.packHash)
    (sources : List ResolvedPackSource) :
    Keeps (At property) raises (downloadFromSources hash network pack sources) fun _ ↦ True := by
  induction sources with
  | nil => exact keeps_pure trivial
  | cons source rest ih =>
    refine keeps_tryCatch raises (keeps_bind _ (keeps_downloadPackFromSourceAsync htolerated hvalid)
      fun _ _ ↦ keeps_pure trivial) fun exception hexception ↦ ?_
    by_cases hends : exception.endsSource = true
    · rw [if_pos hends]
      exact ih
    · rw [if_neg hends]
      exact keeps_fail hexception

theorem keeps_refreshPack :
    Keeps (At property) raises (refreshPack network pack) fun refreshed ↦
      ∀ found ∈ refreshed, IsHash found.packHash := by
  refine keeps_tryCatch raises ?_ fun exception hexception ↦ ?_
  · refine keeps_bind (fun packs ↦ ∀ found ∈ packs, IsHash found.packHash)
      (keeps_ask (fun call packs h found hfound ↦ ?_) fun call exception h ↦ ?_)
      fun packs hpacks ↦ ?_
    · exact (resolvePacksAsync_eq_ok h found hfound).1
    · exact raises_of_resolvePacksAsync htolerated h
    · exact keeps_pure fun found hfound ↦ hpacks found (mem_of_find?_eq_some hfound)
  · cases exception with
    | httpRequest => exact keeps_pure fun found hfound ↦ by cases hfound
    | _ => exact keeps_fail hexception

theorem keeps_downloadPackWithRetryAsync (hvalid : IsHash pack.packHash) :
    Keeps (At property) raises (downloadPackWithRetryAsync hash network pack) fun _ ↦ True := by
  have hrank {sources : List ResolvedPackSource} : Keeps (At property) raises
      (ask fun call ↦ .ok (network.rank call sources)) fun _ ↦ True :=
    keeps_ask (fun _ _ _ ↦ trivial) fun _ _ h ↦ by cases h
  refine keeps_bind _ hrank fun sources _ ↦ ?_
  refine keeps_bind _ (keeps_downloadFromSources htolerated hvalid sources) fun result _ ↦ ?_
  cases result with
  | some result => exact keeps_pure trivial
  | none =>
    refine keeps_bind _ (keeps_refreshPack htolerated) fun refreshed hrefreshed ↦ ?_
    cases refreshed with
    | none => exact keeps_fail (htolerated.httpRequest _)
    | some refreshed =>
      refine keeps_bind _ hrank fun sources _ ↦ ?_
      refine keeps_bind _ (keeps_downloadFromSources htolerated (hrefreshed refreshed rfl) sources)
        fun result _ ↦ ?_
      cases result with
      | some result => exact keeps_pure trivial
      | none => exact keeps_fail (htolerated.httpRequest _)

end Aside

/-! ### Operations of one caller on the chunk cache -/

section Alone

variable {hash : Bytes → Digest} {start cache : ChunkCache} {chunks : List ChunkRef} {began now : ℤ}
  {chunk : ChunkRef}

theorem Tame.of_sameAt {other : ChunkCache} (h : Tame hash start began cache chunk)
    (hsame : SameAt cache other chunk.encodedHash) : Tame hash start began other chunk where
  indexed := hsame.indexedSize.trans_le h.indexed
  recent := fun entry hentry ↦ h.recent entry (hsame.2.symm.trans hentry)

theorem Stock.evictIfNeededAsync
    (h : Stock hash start chunks began (fun _ ↦ False) True cache)
    (hfitting : Fitting hash start chunks began) (hnodup : (hashesOf chunks).Nodup)
    (hmissing : ∃ chunk ∈ chunks, start.verified hash chunk.encodedHash = none)
    (htame : ∀ chunk ∈ chunks, Tame hash start began cache chunk) :
    Stock hash start chunks began (fun _ ↦ False) False cache.evictIfNeededAsync ∧
      ∀ encodedHash ∈ hashesOf chunks, SameAt cache cache.evictIfNeededAsync encodedHash := by
  have hloop : Stock hash start chunks began (fun _ ↦ False) True cache.evictIfNeededAsync ∧
      ∀ encodedHash ∈ hashesOf chunks, SameAt cache cache.evictIfNeededAsync encodedHash := by
    refine evict_induction (fun other ↦
      Stock hash start chunks began (fun _ ↦ False) True other ∧
        ∀ encodedHash ∈ hashesOf chunks, SameAt cache other encodedHash) ?_ _
      ⟨h, fun encodedHash _ ↦ .refl cache encodedHash⟩
    intro other victim hother hcandidate
    have hvictim := victim_of_candidate hfitting hnodup hmissing hother.1.remains
      (fun chunk hchunk ↦ (htame chunk hchunk).of_sameAt (hother.2 _ (mem_hashesOf hchunk)))
      hcandidate
    have hdeleted : Stock hash start chunks began (fun encodedHash ↦ encodedHash = victim) True
        (other.deleteFile victim) :=
      hother.1.deleteVictimFile (fun _ h ↦ h.elim) rfl
    have hgone : (other.deleteFile victim).file victim = none := by
      rw [deleteFile_file, if_pos rfl]
    exact ⟨hdeleted.removeVictim (hvictim.mono (List.Subset.refl _)) hgone
        fun encodedHash hne heq ↦ hne heq,
      fun encodedHash hin ↦ (hother.2 encodedHash hin).trans
        (sameAt_deleteAsync (hvictim.ne_of_mem hin))⟩
  refine ⟨hloop.1.exit hnodup (fun chunk hchunk ↦ ?_)
    (candidate_evictIfNeededAsync cache), hloop.2⟩
  exact (htame chunk hchunk).of_sameAt (hloop.2 _ (mem_hashesOf hchunk))

section

variable (h : Stock hash start chunks began (fun _ ↦ False) False cache)
  (hfitting : Fitting hash start chunks began)

include h hfitting

theorem Stock.put (hnodup : (hashesOf chunks).Nodup)
    (hchunk : chunk ∈ chunks) (hmissing : start.verified hash chunk.encodedHash = none)
    (htame : ∀ chunk ∈ chunks, Tame hash start began cache chunk) (hnow : began ≤ now)
    (hlength : bytes.length = chunk.encodedSize) (hbytes : (hash bytes).hex = chunk.encodedHash)
    {next : ChunkCache}
    (hnext : next = ((cache.moveFile chunk.encodedHash bytes).indexEntry chunk.encodedHash
      bytes.length now).evictIfNeededAsync) :
    Stock hash start chunks began (fun _ ↦ False) False next ∧ Held hash start began next chunk ∧
      ∀ encodedHash ∈ hashesOf chunks, encodedHash ≠ chunk.encodedHash →
        SameAt cache next encodedHash := by
  have hput : Held hash start began ((cache.moveFile chunk.encodedHash bytes).indexEntry
      chunk.encodedHash bytes.length now) chunk :=
    hlength ▸ held_indexEntry (verified_moveFile hbytes) hmissing hnow
  have hothers (encodedHash : Text) (hne : encodedHash ≠ chunk.encodedHash) :
      SameAt cache ((cache.moveFile chunk.encodedHash bytes).indexEntry chunk.encodedHash
        bytes.length now) encodedHash :=
    (sameAt_moveFile hne bytes).trans (sameAt_indexEntry hne bytes.length now)
  obtain ⟨hstock, hsame⟩ := ((h.moveFile hchunk bytes).indexEntry hchunk bytes.length
    now).evictIfNeededAsync hfitting hnodup ⟨chunk, hchunk, hmissing⟩ fun other hother ↦ by
      by_cases heq : other.encodedHash = chunk.encodedHash
      · rw [inj_on_of_nodup_map hnodup hother hchunk heq]
        exact hput.tame
      · exact (htame other hother).of_sameAt (hothers _ heq)
  rw [hnext]
  exact ⟨hstock, hput.of_sameAt (hsame _ (mem_hashesOf hchunk)),
    fun encodedHash hin hne ↦ (hothers encodedHash hne).trans (hsame encodedHash hin)⟩

theorem Stock.readAsync (hchunk : chunk ∈ chunks)
    (hvalid : IsHash chunk.encodedHash) (hnow : began ≤ now)
    (hcondition : Held hash start began cache chunk ∨ Absent hash start cache chunk ∨
      SameAt start cache chunk.encodedHash) :
    Stock hash start chunks began (fun _ ↦ False) False
        (cache.readAsync hash now chunk.encodedHash).2 ∧
      (∀ encodedHash, encodedHash ≠ chunk.encodedHash →
        SameAt cache (cache.readAsync hash now chunk.encodedHash).2 encodedHash) ∧
      ((cache.readAsync hash now chunk.encodedHash).1 = .ok none ∧
          Absent hash start (cache.readAsync hash now chunk.encodedHash).2 chunk ∨
        ∃ bytes, (cache.readAsync hash now chunk.encodedHash).1 = .ok (some bytes) ∧
          Held hash start began (cache.readAsync hash now chunk.encodedHash).2 chunk) := by
  cases hfile : cache.file chunk.encodedHash with
  | none =>
    rw [readAsync_of_none hvalid hfile]
    refine ⟨h, fun encodedHash _ ↦ .refl cache encodedHash, .inl ⟨rfl, ?_⟩⟩
    rcases hcondition with hheld | habsent | hsame
    · obtain ⟨bytes, hbytes, -⟩ := hheld.exists_file
      cases hfile.symm.trans hbytes
    · exact habsent
    · have hstartFile := hsame.1.symm.trans hfile
      refine ⟨hfile, hsame.2.trans (hfitting.files chunk hchunk hstartFile), ?_⟩
      rw [ChunkCache.verified, hstartFile]
      rfl
  | some bytes =>
    rw [readAsync_of_some hvalid hfile]
    by_cases hbytes : (hash bytes).hex = chunk.encodedHash
    · rw [if_pos hbytes]
      have hverified : cache.verified hash chunk.encodedHash = some bytes :=
        verified_eq_some.mpr ⟨hfile, hbytes⟩
      refine ⟨h.touch hchunk now, fun encodedHash hne ↦ sameAt_touch hne now, .inr ⟨bytes, rfl, ?_⟩⟩
      rcases hcondition with hheld | habsent | hsame
      · exact hheld.touch hnow
      · cases habsent.file.symm.trans hfile
      · exact held_touch_of_sameAt hsame (hverified ▸ rfl) hnow
    · rw [if_neg hbytes]
      have hverified : cache.verified hash chunk.encodedHash = none := by
        rw [ChunkCache.verified, hfile, Option.filter_some, if_neg]
        simpa using hbytes
      refine ⟨h.deleteAsync hchunk, fun encodedHash hne ↦ sameAt_deleteAsync hne,
        .inl ⟨rfl, ?_, ?_, ?_⟩⟩
      · simp [ChunkCache.deleteAsync]
      · simp [ChunkCache.deleteAsync]
      · rcases hcondition with hheld | habsent | hsame
        · have hsome := hheld.verified
          rw [hverified] at hsome
          exact Bool.noConfusion hsome
        · cases habsent.file.symm.trans hfile
        · exact (hsame.verified hash).symm.trans hverified

end

end Alone

/-! ### The chunks of a manifest -/

variable {κ : Type}

theorem mem_of_mem_distinctBy [DecidableEq κ] {key : α → κ} {items : List α} {item : α}
    (h : item ∈ distinctBy key items) : item ∈ items := by
  induction items with
  | nil => exact h
  | cons first rest ih =>
    rw [distinctBy, mem_cons] at h
    rcases h with rfl | h
    · exact mem_cons_self
    · exact mem_cons_of_mem first (ih (mem_filter.mp h).1)

theorem nodup_map_distinctBy [DecidableEq κ] (key : α → κ) (items : List α) :
    ((distinctBy key items).map key).Nodup := by
  induction items with
  | nil => exact nodup_nil
  | cons first rest ih =>
    rw [distinctBy, map_cons, nodup_cons]
    refine ⟨fun hmem ↦ ?_, ih.sublist (filter_sublist.map key)⟩
    obtain ⟨other, hother, hkey⟩ := mem_map.mp hmem
    exact of_decide_eq_true (mem_filter.mp hother).2 hkey

theorem exists_mem_distinctBy [DecidableEq κ] {key : α → κ} {items : List α} {item : α}
    (h : item ∈ items) : ∃ other ∈ distinctBy key items, key other = key item := by
  induction items with
  | nil => exact absurd h not_mem_nil
  | cons first rest ih =>
    rw [distinctBy]
    by_cases hkey : key item = key first
    · exact ⟨first, mem_cons_self, hkey.symm⟩
    · have hrest := (mem_cons.mp h).resolve_left fun heq ↦ hkey (heq ▸ rfl)
      obtain ⟨other, hother, hotherKey⟩ := ih hrest
      refine ⟨other, mem_cons_of_mem _ (mem_filter.mpr ⟨hother, ?_⟩), hotherKey⟩
      exact decide_eq_true fun heq ↦ hkey (hotherKey.symm.trans heq)

theorem nodup_uniqueChunks (manifest : Manifest) : (hashesOf (uniqueChunks manifest)).Nodup :=
  nodup_map_distinctBy ChunkRef.encodedHash _

theorem isHash_of_validate {unicode : Unicode} {manifest : Manifest}
    (h : ManifestValidator.validate unicode manifest = .ok ()) :
    ∀ chunk ∈ uniqueChunks manifest, IsHash chunk.encodedHash := by
  intro chunk hchunk
  obtain ⟨file, hfile, hchunkFile⟩ := mem_flatMap.mp (mem_of_mem_distinctBy hchunk)
  unfold ManifestValidator.validate at h
  simp only [bind_eq_ok, throwIf_eq_ok] at h
  obtain ⟨-, -, -, -, -, -, -, -, seen, hfiles, -⟩ := h
  obtain ⟨before, after, hfileOk⟩ := exists_of_foldlM_eq_ok hfiles hfile
  unfold ManifestValidator.validateFile at hfileOk
  simp only [bind_eq_ok] at hfileOk
  obtain ⟨-, -, -, -, -, -, -, -, result, hchunks, -⟩ := hfileOk
  obtain ⟨earlier, later, hchunkOk⟩ := exists_of_foldlM_eq_ok hchunks hchunkFile
  unfold ManifestValidator.validateChunk ManifestValidator.validateHash at hchunkOk
  simp only [bind_eq_ok, throwIf_eq_ok] at hchunkOk
  obtain ⟨-, -, -, -, -, -, -, hencoded, -⟩ := hchunkOk
  rw [← utf16_hash_iff]
  simp only [not_or, Bool.not_eq_true] at hencoded
  exact ⟨not_not.mp hencoded.2.1, hencoded.2.2⟩

/-! ### The pack path -/

section PackPath

variable (hash : Bytes → Digest) (start : ChunkCache) (chunks : List ChunkRef) (began : ℤ)

/-- The chunk is held, or absent and not marked as prepared. -/
def Settled (cache : ChunkCache) (prepared : List Text) (chunk : ChunkRef) : Prop :=
  Held hash start began cache chunk ∨ Absent hash start cache chunk ∧ chunk.encodedHash ∉ prepared

/-- Every chunk is settled, but for some that nothing has touched since the start. -/
structure Reading (unread : List ChunkRef) (cache : ChunkCache) (prepared : List Text) : Prop where
  stock : Stock hash start chunks began (fun _ ↦ False) False cache
  chunks : ∀ chunk ∈ chunks, Settled hash start began cache prepared chunk ∨
    chunk ∈ unread ∧ SameAt start cache chunk.encodedHash ∧ chunk.encodedHash ∉ prepared

/-- Every chunk is held, but for some that are still to be read and those that are to be resolved. -/
def Covering (unread : List ChunkRef) (unresolved : List Text) (cache : ChunkCache) : Prop :=
  ∀ chunk ∈ chunks, Held hash start began cache chunk ∨ chunk ∈ unread ∨
    chunk.encodedHash ∈ unresolved

/-- Chunks of the download that were not there at the start. -/
def Lacking (lacking : List ChunkRef) : Prop :=
  ∀ chunk ∈ lacking, chunk ∈ chunks ∧ start.verified hash chunk.encodedHash = none

end PackPath

section Sequential

variable {hash : Bytes → Digest} {network : Network} {start cache : ChunkCache}
  {chunks lacking : List ChunkRef} {began : ℤ} {raises : LauncherException → Prop}
  {prepared : List Text} {chunk : ChunkRef}

theorem Settled.tame (h : Settled hash start began cache prepared chunk) :
    Tame hash start began cache chunk :=
  h.elim Held.tame fun h ↦ tame_of_find_eq_none h.1.entry

theorem Settled.of_sameAt {other : ChunkCache} (h : Settled hash start began cache prepared chunk)
    (hsame : SameAt cache other chunk.encodedHash) :
    Settled hash start began other prepared chunk :=
  h.imp (fun h ↦ h.of_sameAt hsame) (And.imp_left fun h ↦ h.of_sameAt hsame)

theorem Reading.settled (h : Reading hash start chunks began [] cache prepared) :
    ∀ chunk ∈ chunks, Settled hash start began cache prepared chunk :=
  fun chunk hchunk ↦ (h.chunks chunk hchunk).resolve_right fun h ↦ not_mem_nil h.1

theorem Reading.mono {unread unread' : List ChunkRef}
    (h : Reading hash start chunks began unread cache prepared) (hsub : unread ⊆ unread') :
    Reading hash start chunks began unread' cache prepared where
  stock := h.stock
  chunks := fun chunk hchunk ↦ (h.chunks chunk hchunk).imp_right (And.imp_left (@hsub chunk))

variable (hfitting : Fitting hash start chunks began) (hnodup : (hashesOf chunks).Nodup)
  (hvalid : ∀ chunk ∈ chunks, IsHash chunk.encodedHash)
  (hclock : ∀ call, began ≤ network.clock call)

include hfitting hnodup hvalid hclock

theorem keeps_putPreparedChunk (hinvalid : ∀ message, raises (.invalidData message))
    (hlacking : Lacking hash start chunks lacking) (hchunk : chunk ∈ lacking) {encoded : Bytes}
    (hlength : encoded.length = chunk.encodedSize) :
    Keeps (At (Reading hash start chunks began [])) raises
      (putPreparedChunk hash network chunk.encodedHash encoded) fun _ ↦ True := by
  obtain ⟨hmem, hmissing⟩ := hlacking chunk hchunk
  refine ensures_bind (fun _ session ↦ At (Reading hash start chunks began []) session ∧
    Held hash start began session.cache chunk) (ensures_step (fun _ _ ↦ trivial) ?_ ?_)
    fun _ ↦ ensures_step (fun _ _ ↦ trivial) ?_ fun _ _ _ h ↦ by cases h
  · intro session _ hreading hok
    have hbytes : (hash encoded).hex = chunk.encodedHash := by
      unfold ChunkCache.putAsync at hok
      rw [put_of_isHash (hvalid chunk hmem)] at hok
      split_ifs at hok with h
      exact h
    have hnext : (session.cache.putAsync hash (network.clock session.calls) chunk.encodedHash
        encoded).2 = ((session.cache.moveFile chunk.encodedHash encoded).indexEntry
          chunk.encodedHash encoded.length (network.clock session.calls)).evictIfNeededAsync := by
      unfold ChunkCache.putAsync
      rw [put_of_isHash (hvalid chunk hmem), if_pos hbytes]
    obtain ⟨hstock, hheld, hsame⟩ := hreading.stock.put hfitting hnodup hmem hmissing
      (fun other hother ↦ (hreading.settled other hother).tame) (hclock _) hlength hbytes hnext
    refine ⟨⟨hstock, fun other hother ↦ .inl ?_⟩, hheld⟩
    by_cases heq : other.encodedHash = chunk.encodedHash
    · exact .inl (inj_on_of_nodup_map hnodup hother hmem heq ▸ hheld)
    · exact (hreading.settled other hother).of_sameAt (hsame _ (mem_hashesOf hother) heq)
  · intro session exception hreading herror
    have hput : session.cache.putAsync hash (network.clock session.calls) chunk.encodedHash encoded =
        if (hash encoded).hex = chunk.encodedHash then _ else _ :=
      put_of_isHash (hvalid chunk hmem)
    rw [hput] at herror
    split_ifs at herror with hbytes
    refine ⟨Except.error.inj herror ▸ hinvalid _, ?_⟩
    rw [hput, if_neg hbytes]
    exact hreading
  · rintro session _ ⟨hreading, hheld⟩ -
    refine ⟨trivial, hreading.stock, fun other hother ↦ .inl ?_⟩
    refine (hreading.settled other hother).imp_right fun habsent ↦ ⟨habsent.1, fun hin ↦ ?_⟩
    rcases mem_append.mp hin with hin | hin
    · exact habsent.2 hin
    · obtain ⟨bytes, hbytes, -⟩ := hheld.exists_file
      rw [← mem_singleton.mp hin] at hbytes
      cases habsent.1.file.symm.trans hbytes

variable (htolerated : Tolerated hash network chunks raises)
  (hlacking : Lacking hash start chunks lacking)

include htolerated hlacking

variable {totals : PackTotals}

theorem keeps_extractChunk {reader : PhysicalPackReader}
    (hread : ∀ exception, reader.readEncoded hash encodedHash = .error exception →
      raises (.ofPack exception)) (hrequested : totals.requested ⊆ hashesOf lacking)
    (hin : encodedHash ∈ hashesOf lacking) :
    Keeps (At (Reading hash start chunks began [])) raises
      (extractChunk hash network lacking reader encodedHash totals)
      fun totals ↦ totals.requested ⊆ hashesOf lacking := by
  refine keeps_bind (fun _ ↦ True) (keeps_query (fun _ _ _ _ ↦ trivial) fun _ _ _ h ↦ by cases h)
    fun preparedChunks _ ↦ ?_
  split_ifs with hprepared
  · exact keeps_pure hrequested
  · refine keeps_bind (fun _ ↦ True) (keeps_raise (fun _ _ ↦ trivial) fun exception h ↦ ?_)
      fun encoded _ ↦ ?_
    · cases hencoded : reader.readEncoded hash encodedHash with
      | ok bytes =>
        rw [hencoded] at h
        cases h
      | error failure =>
        rw [hencoded] at h
        exact Except.error.inj h ▸ hread failure hencoded
    refine keeps_bind (fun found ↦ found ∈ lacking ∧ found.encodedHash = encodedHash)
      (keeps_raise (fun found h ↦ ?_) fun exception h ↦ ?_) fun found hfound ↦ ?_
    · rw [orThrow_eq_ok] at h
      have hfoundHash := List.find?_some h
      exact ⟨mem_of_find?_eq_some h, of_decide_eq_true hfoundHash⟩
    · obtain ⟨item, hitem, hhash⟩ := mem_map.mp hin
      have hnone := (orThrow_eq_error.mp h).1
      rw [List.find?_eq_none] at hnone
      exact absurd (decide_eq_true hhash) (hnone item hitem)
    by_cases hlength : encoded.length = found.encodedSize
    · refine keeps_bind (fun _ ↦ True) (keeps_raise (fun _ _ ↦ trivial)
        fun exception h ↦ raises_of_throwIf htolerated.invalidData h) fun _ _ ↦ ?_
      refine keeps_bind (fun _ ↦ True) (keeps_putPreparedChunk hfitting hnodup hvalid hclock
        htolerated.invalidData hlacking hfound.1 hlength) fun _ _ ↦ ?_
      exact keeps_pure (List.Subset.trans filter_sublist.subset hrequested)
    · refine keeps_bind (fun _ ↦ False) (keeps_raise (fun _ h ↦ ?_)
        fun exception h ↦ raises_of_throwIf htolerated.invalidData h) fun _ h ↦ h.elim
      exact absurd (throwIf_eq_ok.mp h) (not_not.mpr hlength)

variable {allowSparseRelay : Bool}

theorem keeps_downloadPack (hpack : IsHash pack.packHash ∧ Answered network pack)
    (hrequested : totals.requested ⊆ hashesOf lacking) :
    Keeps (At (Reading hash start chunks began [])) raises
      (downloadPack hash network lacking allowSparseRelay pack totals)
      fun totals ↦ totals.requested ⊆ hashesOf lacking := by
  unfold downloadPack
  dsimp only
  split_ifs with hskip
  · exact keeps_pure hrequested
  · refine keeps_bind (fun _ ↦ True) (keeps_raise (fun _ _ ↦ trivial) fun exception h ↦ ?_)
      fun coveredLogicalBytes _ ↦ ?_
    · exact (orThrow_eq_error.mp h).2 ▸ htolerated.invalidData _
    split_ifs with hsparse
    · exact keeps_pure hrequested
    · refine keeps_bind (fun _ ↦ True) (keeps_bind (fun _ ↦ True) (keeps_readPack hpack.1)
        fun cached _ ↦ ?_) fun result _ ↦ ?_
      · cases cached with
        | some bytes => exact keeps_pure trivial
        | none => exact keeps_downloadPackWithRetryAsync htolerated hpack.1
      refine keeps_bind (fun reader ↦ PhysicalPackReader.parse hash result.1
        (some pack.packHash) = .ok reader) (keeps_raise (fun reader h ↦ ?_) fun exception h ↦ ?_)
        fun reader hreader ↦ ?_
      · cases hparse : PhysicalPackReader.parse hash result.1 (some pack.packHash) with
        | ok parsed =>
          rw [hparse] at h
          exact congrArg Except.ok (Except.ok.inj h)
        | error failure =>
          rw [hparse] at h
          cases h
      · cases hparse : PhysicalPackReader.parse hash result.1 (some pack.packHash) with
        | ok parsed =>
          rw [hparse] at h
          cases h
        | error failure =>
          rw [hparse] at h
          exact Except.error.inj h ▸ htolerated.parse _ _ _ hparse
      refine keeps_forEach hrequested fun encodedHash hcovered accumulator haccumulator ↦ ?_
      obtain ⟨hassigned, hrequestedHash⟩ := mem_filter.mp hcovered
      have hin := hrequested (of_decide_eq_true hrequestedHash)
      refine keeps_extractChunk hfitting hnodup hvalid hclock htolerated hlacking
        (htolerated.readEncoded pack hpack.2 result.1 reader hreader encodedHash hassigned ?_)
        haccumulator hin
      obtain ⟨item, hitem, hhash⟩ := mem_map.mp hin
      exact hhash ▸ mem_hashesOf (hlacking item hitem).1

theorem keeps_downloadEach {packs : List ResolvedPack}
    (hpacks : ∀ pack ∈ packs, IsHash pack.packHash ∧ Answered network pack)
    (hrequested : totals.requested ⊆ hashesOf lacking) :
    Keeps (At (Reading hash start chunks began [])) raises
      (downloadEach hash network lacking allowSparseRelay packs totals) fun _ ↦ True := by
  induction packs generalizing totals with
  | nil => exact keeps_pure trivial
  | cons pack rest ih =>
    refine keeps_bind _ (keeps_downloadPack hfitting hnodup hvalid hclock htolerated hlacking
      (hpacks pack mem_cons_self) hrequested) fun next hnext ↦ ?_
    split_ifs
    · exact keeps_pure trivial
    · exact ih (fun other hother ↦ hpacks other (mem_cons_of_mem pack hother)) hnext

theorem keeps_downloadPacksAsync :
    Keeps (At (Reading hash start chunks began [])) raises
      (downloadPacksAsync hash network lacking allowSparseRelay) fun _ ↦ True := by
  unfold downloadPacksAsync
  dsimp only
  split_ifs with hnone
  · exact keeps_pure trivial
  · refine keeps_bind (fun packs ↦ ∀ found ∈ packs, ∀ pack ∈ found,
        IsHash pack.packHash ∧ Answered network pack)
      (keeps_tryCatch raises (keeps_bind (fun packs ↦ ∀ pack ∈ packs,
          IsHash pack.packHash ∧ Answered network pack) (keeps_ask ?_ ?_) fun packs hpacks ↦
        keeps_pure ?_) fun exception hexception ↦ ?_) fun packs hpacks ↦ ?_
    · exact fun call packs h ↦ resolvePacksAsync_eq_ok h
    · exact fun call exception h ↦ raises_of_resolvePacksAsync htolerated h
    · rintro found ⟨⟩
      exact hpacks
    · cases exception with
      | httpRequest => exact keeps_pure fun found hfound ↦ by cases hfound
      | _ => exact keeps_fail hexception
    · cases packs with
      | none => exact keeps_pure trivial
      | some packs =>
        refine keeps_downloadEach hfitting hnodup hvalid hclock htolerated hlacking
          (fun pack hpack ↦ ?_) fun encodedHash hin ↦ ?_
        · exact hpacks packs rfl pack ((mem_insertionSort _).mp hpack)
        · exact mem_of_mem_distinctBy hin

end Sequential

/-! ### The first part as a whole -/

section Reads

variable {hash : Bytes → Digest} {start cache next : ChunkCache} {chunks rest : List ChunkRef}
  {began : ℤ} {chunk : ChunkRef} {prepared unresolved unresolved' : List Text}

theorem Reading.settle (h : Reading hash start chunks began (chunk :: rest) cache prepared)
    (hnodup : (hashesOf chunks).Nodup) (hchunk : chunk ∈ chunks)
    (hstock : Stock hash start chunks began (fun _ ↦ False) False next)
    (hothers : ∀ encodedHash, encodedHash ≠ chunk.encodedHash → SameAt cache next encodedHash)
    (hmine : Settled hash start began next prepared chunk) :
    Reading hash start chunks began rest next prepared := by
  refine ⟨hstock, fun other hother ↦ ?_⟩
  by_cases heq : other = chunk
  · exact .inl (heq.symm ▸ hmine)
  · have hne : other.encodedHash ≠ chunk.encodedHash := fun hhash ↦
      heq (inj_on_of_nodup_map hnodup hother hchunk hhash)
    rcases h.chunks other hother with h | ⟨hunread, hsame, hprepared⟩
    · exact .inl (h.of_sameAt (hothers _ hne))
    · exact .inr ⟨(mem_cons.mp hunread).resolve_left heq, hsame.trans (hothers _ hne), hprepared⟩

theorem Covering.settle (h : Covering hash start chunks began (chunk :: rest) unresolved cache)
    (hnodup : (hashesOf chunks).Nodup) (hchunk : chunk ∈ chunks)
    (hothers : ∀ encodedHash, encodedHash ≠ chunk.encodedHash → SameAt cache next encodedHash)
    (hsub : unresolved ⊆ unresolved')
    (hmine : Held hash start began next chunk ∨ chunk.encodedHash ∈ unresolved') :
    Covering hash start chunks began rest unresolved' next := by
  intro other hother
  by_cases heq : other = chunk
  · exact heq.symm ▸ hmine.imp_right .inr
  · have hne : other.encodedHash ≠ chunk.encodedHash := fun hhash ↦
      heq (inj_on_of_nodup_map hnodup hother hchunk hhash)
    refine (h other hother).imp (fun h ↦ h.of_sameAt (hothers _ hne)) ?_
    exact Or.imp (fun h ↦ (mem_cons.mp h).resolve_left heq) fun h ↦ hsub h

end Reads

section Whole

variable {hash : Bytes → Digest} {network : Network} {start : ChunkCache} {chunks : List ChunkRef}
  {began : ℤ} {raises : LauncherException → Prop}
  (hfitting : Fitting hash start chunks began) (hnodup : (hashesOf chunks).Nodup)
  (hvalid : ∀ chunk ∈ chunks, IsHash chunk.encodedHash)
  (hclock : ∀ call, began ≤ network.clock call)

include hfitting hnodup hvalid hclock

theorem ensures_readChunk {chunk : ChunkRef} {rest : List ChunkRef} {unresolved : List Text}
    (hchunk : chunk ∈ chunks) :
    Ensures (fun session ↦ At (Reading hash start chunks began (chunk :: rest)) session ∧
        Covering hash start chunks began (chunk :: rest) unresolved session.cache)
      (readChunk hash network chunk.encodedHash) (fun _ ↦ True)
      (fun found session ↦ At (Reading hash start chunks began rest) session ∧
        (found = none → start.verified hash chunk.encodedHash = none) ∧
        Covering hash start chunks began rest
          (if found = none then unresolved ++ [chunk.encodedHash] else unresolved) session.cache)
      fun _ _ ↦ False := by
  refine ensures_step (fun _ _ ↦ trivial) ?_ ?_
  · rintro session found ⟨hreading, hcovering⟩ hfound
    have hcondition : Held hash start began session.cache chunk ∨
        Absent hash start session.cache chunk ∨ SameAt start session.cache chunk.encodedHash :=
      (hreading.chunks chunk hchunk).elim (fun h ↦ h.imp_right fun h ↦ .inl h.1)
        fun h ↦ .inr (.inr h.2.1)
    obtain ⟨hstock, hothers, hcase⟩ := hreading.stock.readAsync hfitting hchunk
      (hvalid chunk hchunk) (hclock session.calls) hcondition
    rcases hcase with ⟨hnone, habsent⟩ | ⟨bytes, hsome, hheld⟩
    · obtain rfl : none = found := Except.ok.inj (hnone.symm.trans hfound)
      have hprepared : chunk.encodedHash ∉ session.packPreparedChunks := by
        rcases hreading.chunks chunk hchunk with (hheld | habsentBefore) | hunread
        · intro _
          -- a held chunk is read, so this read would not have returned null
          obtain ⟨bytes, hfile, hbytes⟩ := hheld.exists_file
          rw [readAsync_of_some (hvalid chunk hchunk) hfile, if_pos hbytes] at hnone
          cases hnone
        · exact habsentBefore.2
        · exact hunread.2.2
      refine ⟨hreading.settle hnodup hchunk hstock hothers (.inr ⟨habsent, hprepared⟩),
        fun _ ↦ habsent.start, ?_⟩
      rw [if_pos rfl]
      refine hcovering.settle hnodup hchunk hothers (subset_append_left _ _) (.inr ?_)
      exact mem_append_right _ mem_cons_self
    · obtain rfl : some bytes = found := Except.ok.inj (hsome.symm.trans hfound)
      have hne : ¬ some bytes = none := Option.some_ne_none bytes
      refine ⟨hreading.settle hnodup hchunk hstock hothers (.inl hheld), fun h ↦ absurd h hne, ?_⟩
      rw [if_neg hne]
      exact hcovering.settle hnodup hchunk hothers (List.Subset.refl _) (.inl hheld)
  · rintro session exception - hexception
    exact not_isHash_of_readAsync hexception (hvalid chunk hchunk)

theorem ensures_uncachedChunks :
    Ensures (At (Reading hash start chunks began chunks)) (uncachedChunks hash network chunks)
      (fun _ ↦ True)
      (fun uncached session ↦ Lacking hash start chunks uncached ∧
        At (Reading hash start chunks began []) session) fun _ _ ↦ False := by
  refine Ensures.mono (ensures_forEach_left (fun rest uncached session ↦
    Lacking hash start chunks uncached ∧ At (Reading hash start chunks began rest) session)
      fun chunk hchunk rest uncached ↦ ensures_assume fun hlacking ↦ ?_)
        (fun _ h ↦ ⟨fun other hother ↦ absurd hother not_mem_nil, h⟩) (fun _ h ↦ h)
          (fun _ _ h ↦ h) fun _ _ h ↦ h
  refine ensures_bind _ (Ensures.mono (ensures_readChunk hfitting hnodup hvalid hclock hchunk)
    (fun session h ↦ ⟨h, fun other hother ↦ .inr (.inr (mem_hashesOf hother))⟩)
      (fun _ h ↦ h) (fun _ _ h ↦ h) fun _ _ h ↦ h) fun found ↦ ?_
  cases found with
  | none =>
    refine ensures_pure fun session h ↦ ⟨fun other hother ↦ ?_, h.1⟩
    rcases mem_append.mp hother with hother | hother
    · exact hlacking other hother
    · rw [mem_singleton.mp hother]
      exact ⟨hchunk, h.2.1 rfl⟩
  | some _ => exact ensures_pure fun session h ↦ ⟨hlacking, h.1⟩

theorem ensures_accelerate (htolerated : Tolerated hash network chunks raises) :
    Ensures (At (Reading hash start chunks began chunks)) (accelerate hash network chunks)
      (fun _ ↦ True) (fun _ ↦ At (Reading hash start chunks began chunks))
      fun exception _ ↦ raises exception ∧ exception.endsPacks = false := by
  have hphase : Ensures (At (Reading hash start chunks began chunks))
      (packPhase hash network chunks) (fun _ ↦ True)
      (fun _ ↦ At (Reading hash start chunks began []))
      fun exception session ↦ raises exception ∧ At (Reading hash start chunks began []) session := by
    refine ensures_bind (fun _ ↦ At (Reading hash start chunks began chunks)) ?_ fun _ ↦
      ensures_bind _ (Ensures.mono (ensures_uncachedChunks hfitting hnodup hvalid hclock)
        (fun _ h ↦ h) (fun _ h ↦ h) (fun _ _ h ↦ h) fun _ _ h ↦ h.elim) fun uncached ↦
          ensures_assume fun hlacking ↦ ?_
    · exact ensures_step (fun _ _ ↦ trivial) (fun _ _ h _ ↦ h) fun _ _ _ h ↦ by cases h
    · exact Ensures.mono (keeps_downloadPacksAsync hfitting hnodup hvalid hclock htolerated
        hlacking) (fun _ h ↦ h) (fun _ h ↦ h) (fun _ _ h ↦ h.2) fun _ _ h ↦ h
  refine ensures_tryCatch _ (Ensures.mono hphase (fun _ h ↦ h) (fun _ h ↦ h)
    (fun _ _ h ↦ h.mono (nil_subset chunks)) fun _ _ h ↦ h) fun exception ↦
      ensures_assume fun hraises ↦ ?_
  cases hends : exception.endsPacks with
  | true => exact ensures_pure fun session h ↦ h.mono (nil_subset chunks)
  | false =>
    refine ensures_query (fun _ _ _ h ↦ by cases h) fun session failure _ h ↦ ?_
    rw [← Except.error.inj h]
    exact ⟨hraises, hends⟩

theorem ensures_unresolvedChunks :
    Ensures (At (Reading hash start chunks began chunks)) (unresolvedChunks hash network chunks)
      (fun _ ↦ True)
      (fun unresolved session ↦ At (Reading hash start chunks began []) session ∧
        Covering hash start chunks began [] unresolved session.cache) fun _ _ ↦ False := by
  refine Ensures.mono (ensures_forEach_left (fun rest unresolved session ↦
    At (Reading hash start chunks began rest) session ∧
      Covering hash start chunks began rest unresolved session.cache)
        fun chunk hchunk rest unresolved ↦ ?_)
          (fun _ h ↦ ⟨h, fun chunk hchunk ↦ .inr (.inl hchunk)⟩) (fun _ h ↦ h) (fun _ _ h ↦ h)
            fun _ _ h ↦ h
  refine ensures_bind (fun prepared session ↦ prepared = session.packPreparedChunks ∧
    At (Reading hash start chunks began (chunk :: rest)) session ∧
      Covering hash start chunks began (chunk :: rest) unresolved session.cache)
        (ensures_query (fun session _ h hview ↦ ⟨(Except.ok.inj hview).symm, h⟩)
          fun _ _ _ h ↦ by cases h) fun prepared ↦ ?_
  by_cases hprepared : chunk.encodedHash ∈ prepared
  · rw [if_pos hprepared]
    refine ensures_pure ?_
    rintro session ⟨heq, hreading, hcovering⟩
    have hheld : Held hash start began session.cache chunk := by
      rw [heq] at hprepared
      rcases hreading.chunks chunk hchunk with (hheld | habsent) | hunread
      · exact hheld
      · exact absurd hprepared habsent.2
      · exact absurd hprepared hunread.2.2
    exact ⟨hreading.settle hnodup hchunk hreading.stock (fun _ _ ↦ .refl _ _) (.inl hheld),
      hcovering.settle hnodup hchunk (fun _ _ ↦ .refl _ _) (List.Subset.refl _) (.inl hheld)⟩
  · rw [if_neg hprepared]
    refine ensures_bind _ (Ensures.mono (ensures_readChunk hfitting hnodup hvalid hclock hchunk)
      (fun session h ↦ h.2) (fun _ h ↦ h) (fun _ _ h ↦ h) fun _ _ h ↦ h) fun found ↦ ?_
    cases found with
    | none | some _ => exact ensures_pure fun session h ↦ ⟨h.1, h.2.2⟩

end Whole

end GameLauncher.Downloads
