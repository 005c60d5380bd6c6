import Mathlib.Data.Prod.Lex
import GameLauncher.Storage.Providers

/-!
# Orphaned multipart uploads

`put_encoded` and `put_pack` may leave an incomplete multipart upload behind.
`cleanup_orphaned_multipart_uploads` walks the pages of the uploads under the prefix of the objects
and aborts those that are old enough. `cleanupReachesAll_iff` says for which uploads it does what
its name says: those of packs lie under another prefix.

The listing of S3 is not part of the code: `Bucket.list` is a service whose pages partition the
uploads under a prefix in the order of their keys. Times are in nanoseconds.
-/

set_option autoImplicit false

namespace GameLauncher.Storage

open Foundation Fallible List
open ColdStorage (StorageError validateHash)

namespace S3CompatibleStorage

/-! ### The keys of the uploads -/

def objectPrefix : Text := "chunks/encoded/"

def objectKey (encodedHash : Text) : Text := objectPrefix ++ encodedHash ++ ".bin"

theorem objectPrefix_isPrefix_objectKey (hash : Text) : objectPrefix <+: objectKey hash := by
  rw [objectKey, append_assoc]
  exact prefix_append _ _

theorem not_objectPrefix_isPrefix_packKey (hash : Text) : ¬ objectPrefix <+: packKey hash := by
  rintro ⟨rest, hrest⟩
  have hhead : some 'c' = some 'p' := congrArg List.head? hrest
  exact absurd hhead (by decide)

inductive PutCall
  | encoded
  | pack
  | packFile
  deriving DecidableEq, Repr

/-- A call with a hash and so many bytes. -/
structure Put where
  call : PutCall
  hash : Text
  size : ℕ

/-- The key of the multipart upload that a call starts if it comes to upload; `put_pack_file`
uploads in one request. -/
def Put.multipartKey (storage : S3CompatibleStorage) (put : Put) : Option Text :=
  match validateHash put.hash, put.call with
  | .error _, _ => none
  | .ok (), .encoded =>
    if storage.multipartThresholdBytes ≤ put.size then some (objectKey put.hash) else none
  | .ok (), .pack =>
    if storage.multipartThresholdBytes ≤ put.size then some (packKey put.hash) else none
  | .ok (), .packFile => none

theorem Put.multipartKey_cases {storage : S3CompatibleStorage} {put : Put} {key : Text}
    (h : put.multipartKey storage = some key) :
    key = objectKey put.hash ∨ key = packKey put.hash := by
  unfold multipartKey at h
  split at h
  · exact absurd h (by simp)
  · split_ifs at h
    exact .inl (Option.some.inj h).symm
  · split_ifs at h
    exact .inr (Option.some.inj h).symm
  · exact absurd h (by simp)

/-! ### Uploads -/

section Cleanup

variable {UploadId : Type}

structure MultipartUpload (UploadId : Type) where
  key : Text
  uploadId : UploadId
  initiated : ℤ

/-- An upload of a page, as S3 describes it. -/
structure ListedUpload (UploadId : Type) where
  key : Option Text
  uploadId : Option UploadId
  initiated : Option ℤ

/-- The answer to `list_multipart_uploads`. -/
structure ListResponse (UploadId : Type) where
  uploads : List (ListedUpload UploadId)
  nextKeyMarker : Option Text
  nextUploadIdMarker : Option UploadId
  isTruncated : Option Bool

def seconds (time : ℤ) : ℤ := time / 10 ^ 9

theorem seconds_le_seconds {first second : ℤ} (h : first ≤ second) :
    seconds first ≤ seconds second :=
  Int.ediv_le_ediv (by norm_num) h

/-- The key and the identity of a listed upload if it is to be aborted. -/
def ListedUpload.overdue (cutoff : ℤ) (upload : ListedUpload UploadId) :
    Option (Text × UploadId) := do
  let initiated ← upload.initiated
  if seconds cutoff < seconds initiated then none
  else do
    let key ← upload.key
    let uploadId ← upload.uploadId
    pure (key, uploadId)

variable {upload : MultipartUpload UploadId}

namespace MultipartUpload

/-- The place of an upload in the listing. -/
def position (upload : MultipartUpload UploadId) : Text ×ₗ UploadId :=
  toLex (upload.key, upload.uploadId)

def listed (upload : MultipartUpload UploadId) : ListedUpload UploadId :=
  ⟨some upload.key, some upload.uploadId, some upload.initiated⟩

theorem position_eq_iff {key : Text} {uploadId : UploadId} :
    upload.position = toLex (key, uploadId) ↔ upload.key = key ∧ upload.uploadId = uploadId := by
  rw [position, toLex.injective.eq_iff, Prod.mk.injEq]

theorem overdue_listed {cutoff : ℤ} {target : Text × UploadId} :
    upload.listed.overdue cutoff = some target ↔
      seconds upload.initiated ≤ seconds cutoff ∧ upload.position = toLex target := by
  obtain ⟨key, uploadId⟩ := target
  rw [position_eq_iff]
  by_cases hyoung : seconds cutoff < seconds upload.initiated
  · simp [listed, ListedUpload.overdue, hyoung]
  · simp [listed, ListedUpload.overdue, hyoung, not_lt.1 hyoung]

end MultipartUpload

/-! ### The bucket -/

variable [LinearOrder UploadId]

/-- The incomplete uploads of a bucket, in the order in which they are listed. -/
structure Bucket (UploadId : Type) [LinearOrder UploadId] where
  uploads : List (MultipartUpload UploadId)
  sorted : uploads.Pairwise fun left right ↦ left.position < right.position

/-- Does an upload come after the markers of a request? -/
def MultipartUpload.follows (upload : MultipartUpload UploadId) :
    Option Text → Option UploadId → Bool
  | none, _ => true
  | some key, none => key < upload.key
  | some key, some uploadId => toLex (key, uploadId) < upload.position

variable {keyMarker : Option Text} {uploadIdMarker : Option UploadId}
  {after bucket : Bucket UploadId}

namespace Bucket

/-- The uploads under the prefix of the objects that come after the markers. -/
def pending (bucket : Bucket UploadId) (keyMarker : Option Text)
    (uploadIdMarker : Option UploadId) : List (MultipartUpload UploadId) :=
  bucket.uploads.filter fun upload ↦
    objectPrefix.isPrefixOf upload.key && upload.follows keyMarker uploadIdMarker

/-- A page of at most so many uploads. -/
def list (bucket : Bucket UploadId) (keyMarker : Option Text) (uploadIdMarker : Option UploadId)
    (maxUploads : ℕ) : ListResponse UploadId :=
  let pending := bucket.pending keyMarker uploadIdMarker
  let page := pending.take maxUploads
  let truncated := decide (maxUploads < pending.length)
  { uploads := page.map MultipartUpload.listed
    nextKeyMarker := if truncated then page.getLast?.map MultipartUpload.key else none
    nextUploadIdMarker := if truncated then page.getLast?.map MultipartUpload.uploadId else none
    isTruncated := some truncated }

/-- The end of an upload. -/
def abort (bucket : Bucket UploadId) (key : Text) (uploadId : UploadId) : Bucket UploadId where
  uploads := bucket.uploads.filter fun upload ↦ upload.position ≠ toLex (key, uploadId)
  sorted := bucket.sorted.filter _

theorem eq_of_position (bucket : Bucket UploadId) {first second : MultipartUpload UploadId}
    (hfirst : first ∈ bucket.uploads) (hsecond : second ∈ bucket.uploads)
    (h : first.position = second.position) : first = second := by
  have hnodup : (bucket.uploads.map MultipartUpload.position).Nodup :=
    pairwise_map.2 (bucket.sorted.imp ne_of_lt)
  exact inj_on_of_nodup_map hnodup hfirst hsecond h

theorem follows_trans {last : MultipartUpload UploadId}
    (hlast : last.follows keyMarker uploadIdMarker = true) (h : last.position < upload.position) :
    upload.follows keyMarker uploadIdMarker = true := by
  match keyMarker, uploadIdMarker with
  | none, _ => rfl
  | some key, none =>
    have hkey : last.key ≤ upload.key := (Prod.Lex.le_iff'.1 h.le).1
    exact decide_eq_true ((of_decide_eq_true hlast).trans_le hkey)
  | some key, some uploadId => exact decide_eq_true ((of_decide_eq_true hlast).trans h)

/-- The uploads after a truncated page are those that are pending at its markers, whatever the page
has lost meanwhile. -/
theorem pending_next {limit : ℕ} {last : MultipartUpload UploadId}
    {kept : MultipartUpload UploadId → Bool} (hafter : after.uploads = bucket.uploads.filter kept)
    (hkept : ∀ upload ∈ bucket.uploads,
      upload ∉ (bucket.pending keyMarker uploadIdMarker).take limit → kept upload = true)
    (hlast : ((bucket.pending keyMarker uploadIdMarker).take limit).getLast? = some last) :
    after.pending (some last.key) (some last.uploadId) =
      (bucket.pending keyMarker uploadIdMarker).drop limit := by
  set pending := bucket.pending keyMarker uploadIdMarker with hpending
  obtain ⟨earlier, hpage⟩ := List.getLast?_eq_some_iff.1 hlast
  have hsorted : (pending.take limit ++ pending.drop limit).Pairwise
      fun left right ↦ left.position < right.position := by
    rw [take_append_drop]
    exact bucket.sorted.filter _
  obtain ⟨hpageSorted, -, hacross⟩ := pairwise_append.1 hsorted
  have hlastPage : last ∈ pending.take limit := mem_of_getLast? hlast
  have hlastFollows : last.follows keyMarker uploadIdMarker = true := by
    have h := (mem_filter.1 (mem_of_mem_take hlastPage)).2
    exact (Bool.and_eq_true _ _ ▸ h).2
  -- Of the pending uploads, those that come after the last of the page.
  have hfilter : after.pending (some last.key) (some last.uploadId) =
      pending.filter fun upload ↦ kept upload && decide (last.position < upload.position) := by
    rw [Bucket.pending, hafter, hpending, Bucket.pending, filter_filter, filter_filter]
    refine filter_congr fun upload _ ↦ ?_
    rw [Bool.eq_iff_iff]
    simp only [Bool.and_eq_true, decide_eq_true_eq]
    constructor
    · rintro ⟨⟨hunder, hlater⟩, hkeeps⟩
      have hlater := of_decide_eq_true hlater
      exact ⟨⟨hkeeps, hlater⟩, hunder, follows_trans hlastFollows hlater⟩
    · rintro ⟨⟨hkeeps, hlater⟩, hunder, -⟩
      exact ⟨⟨hunder, decide_eq_true hlater⟩, hkeeps⟩
  have hnone : (pending.take limit).filter (fun upload ↦
      kept upload && decide (last.position < upload.position)) = [] := by
    refine filter_eq_nil_iff.2 fun upload hupload ↦ ?_
    have hle : upload.position ≤ last.position := by
      rw [hpage] at hupload hpageSorted
      rcases mem_append.1 hupload with hearlier | hself
      · exact ((pairwise_append.1 hpageSorted).2.2 upload hearlier last (by simp)).le
      · rw [mem_singleton.1 hself]
    simp [hle.not_gt]
  have hall : (pending.drop limit).filter (fun upload ↦
      kept upload && decide (last.position < upload.position)) = pending.drop limit := by
    refine filter_eq_self.2 fun upload hupload ↦ ?_
    have hlater := hacross last hlastPage upload hupload
    have hother : upload ∉ pending.take limit :=
      fun hpaged ↦ lt_irrefl _ (hacross upload hpaged upload hupload)
    have hmem : upload ∈ bucket.uploads :=
      (mem_filter.1 (mem_of_mem_drop hupload)).1
    simp [hkept upload hmem hother, hlater]
  rw [hfilter]
  conv_lhs => rw [← take_append_drop limit pending]
  rw [filter_append, hnone, hall, nil_append]

end Bucket

/-! ### The clean-up -/

/-- What a clean-up meets, page by page. -/
structure Environment where
  slot : Except StorageError Unit
  clock : ℕ → ℤ
  /-- S3 lists at least one upload on a page that it truncates. -/
  maxUploads : ℕ → ℕ
  maxUploads_pos : ∀ page, 0 < maxUploads page
  listing : ℕ → Except StorageError Unit
  aborting : ℕ → Text → Except StorageError Unit

variable (env : Environment) (maxAge : ℕ)

/-- A duration that chrono cannot hold: its milliseconds do not fit in an `i64`. -/
def TooLong (duration : ℕ) : Prop := i64Max * 10 ^ 6 < duration

instance (duration : ℕ) : Decidable (TooLong duration) :=
  inferInstanceAs (Decidable (_ < _))

/-- The loop over the uploads of a page: how many were aborted, or the failure that ended it. -/
def abortUploads (aborting : Text → Except StorageError Unit) :
    List (Text × UploadId) → Bucket UploadId → Except StorageError ℕ × Bucket UploadId
  | [], bucket => (.ok 0, bucket)
  | (key, uploadId) :: rest, bucket =>
    match aborting key with
    | .error failure => (.error failure, bucket)
    | .ok () =>
      match abortUploads aborting rest (bucket.abort key uploadId) with
      | (.error failure, bucket) => (.error failure, bucket)
      | (.ok cleaned, bucket) => (.ok (cleaned + 1), bucket)

def cleanupMultipartPage (page : ℕ) (keyMarker : Option Text) (uploadIdMarker : Option UploadId)
    (bucket : Bucket UploadId) :
    Except StorageError (ℕ × Option Text × Option UploadId × Bool) × Bucket UploadId :=
  match env.listing page with
  | .error failure => (.error failure, bucket)
  | .ok () =>
    let response := bucket.list keyMarker uploadIdMarker (env.maxUploads page)
    if TooLong maxAge then
      (.error (.configuration
        "Source duration value is out of range for the target type"), bucket)
    else
      let cutoff := env.clock page - maxAge
      let uploads := response.uploads.filterMap (ListedUpload.overdue cutoff)
      match abortUploads (env.aborting page) uploads bucket with
      | (.error failure, bucket) => (.error failure, bucket)
      | (.ok cleaned, bucket) => (.ok (cleaned, response.nextKeyMarker,
          response.nextUploadIdMarker, response.isTruncated.getD false), bucket)

/-- The loop of `cleanup_orphaned_multipart_uploads`; nothing when it takes more pages than there is
fuel. -/
def cleanupFrom : ℕ → ℕ → Option Text → Option UploadId → ℕ → Bucket UploadId →
    Option (Except StorageError ℕ × Bucket UploadId)
  | 0, _, _, _, _, _ => none
  | fuel + 1, page, keyMarker, uploadIdMarker, cleaned, bucket =>
    match cleanupMultipartPage env maxAge page keyMarker uploadIdMarker bucket with
    | (.error failure, bucket) => some (.error failure, bucket)
    | (.ok (pageCleaned, nextKey, nextUpload, truncated), bucket) =>
      if truncated = false then some (.ok (cleaned + pageCleaned), bucket)
      else if nextKey.isNone && nextUpload.isNone then some (.ok (cleaned + pageCleaned), bucket)
      else cleanupFrom fuel (page + 1) nextKey nextUpload (cleaned + pageCleaned) bucket

def cleanupOrphanedMultipartUploads (fuel : ℕ) (bucket : Bucket UploadId) :
    Option (Except StorageError ℕ × Bucket UploadId) :=
  match env.slot with
  | .error failure => some (.error failure, bucket)
  | .ok () => cleanupFrom env maxAge fuel 0 none none 0 bucket

/-! ### A page -/

variable {cleaned page : ℕ} {nextKey : Option Text} {nextUpload : Option UploadId}

theorem abortUploads_ok {aborting : Text → Except StorageError Unit}
    {targets : List (Text × UploadId)}
    (h : abortUploads aborting targets bucket = (.ok cleaned, after)) :
    after.uploads = bucket.uploads.filter fun upload ↦ upload.position ∉ targets.map toLex := by
  induction targets generalizing bucket cleaned with
  | nil =>
    obtain ⟨-, rfl⟩ := Prod.mk.inj h
    simp
  | cons target rest ih =>
    obtain ⟨key, uploadId⟩ := target
    rw [abortUploads] at h
    split at h
    · exact absurd (Prod.mk.inj h).1 (by simp)
    · split at h
      · exact absurd (Prod.mk.inj h).1 (by simp)
      · rename_i hrest
        obtain ⟨-, rfl⟩ := Prod.mk.inj h
        rw [ih hrest, Bucket.abort, filter_filter]
        refine filter_congr fun upload _ ↦ ?_
        rw [map_cons, Bool.eq_iff_iff]
        simp only [Bool.and_eq_true, decide_eq_true_eq, mem_cons, not_or]
        exact and_comm

theorem abortUploads_succeeds {aborting : Text → Except StorageError Unit}
    (haborting : ∀ key, aborting key = .ok ()) (targets : List (Text × UploadId))
    (bucket : Bucket UploadId) :
    ∃ cleaned after, abortUploads aborting targets bucket = (.ok cleaned, after) := by
  induction targets generalizing bucket with
  | nil => exact ⟨0, bucket, rfl⟩
  | cons target rest ih =>
    obtain ⟨cleaned, after, hrest⟩ := ih (bucket.abort target.1 target.2)
    exact ⟨cleaned + 1, after, by rw [abortUploads, haborting, hrest]⟩

/-- Is an upload old enough for the clean-up when it comes to a page? -/
def Overdue (page : ℕ) (upload : MultipartUpload UploadId) : Prop :=
  seconds upload.initiated ≤ seconds (env.clock page - maxAge)

theorem cleanupMultipartPage_ok {truncated : Bool}
    (h : cleanupMultipartPage env maxAge page keyMarker uploadIdMarker bucket =
      (.ok (cleaned, nextKey, nextUpload, truncated), after)) :
    let response := bucket.list keyMarker uploadIdMarker (env.maxUploads page)
    nextKey = response.nextKeyMarker ∧ nextUpload = response.nextUploadIdMarker ∧
    response.isTruncated = some truncated ∧
    after.uploads = bucket.uploads.filter fun upload ↦ upload.position ∉
      (response.uploads.filterMap (ListedUpload.overdue (env.clock page - maxAge))).map toLex := by
  unfold cleanupMultipartPage at h
  split at h
  · exact absurd (Prod.mk.inj h).1 (by simp)
  · split_ifs at h
    · exact absurd (Prod.mk.inj h).1 (by simp)
    · simp only at h
      split at h
      · exact absurd (Prod.mk.inj h).1 (by simp)
      · rename_i haborted
        obtain ⟨hvalue, rfl⟩ := Prod.mk.inj h
        simp only [Except.ok.injEq, Prod.mk.injEq] at hvalue
        obtain ⟨-, hkey, hid, htruncated⟩ := hvalue
        exact ⟨hkey.symm, hid.symm, congrArg some htruncated, abortUploads_ok haborted⟩

theorem mem_after_page {truncated : Bool}
    (h : cleanupMultipartPage env maxAge page keyMarker uploadIdMarker bucket =
      (.ok (cleaned, nextKey, nextUpload, truncated), after)) (hupload : upload ∈ bucket.uploads) :
    upload ∈ after.uploads ↔
      ¬ (upload ∈ (bucket.pending keyMarker uploadIdMarker).take (env.maxUploads page) ∧
        Overdue env maxAge page upload) := by
  obtain ⟨-, -, -, hafter⟩ := cleanupMultipartPage_ok env maxAge h
  rw [hafter, mem_filter, and_iff_right hupload, decide_eq_true_iff, not_iff_not]
  constructor
  · intro haborted
    obtain ⟨target, htarget, hposition⟩ := mem_map.1 haborted
    obtain ⟨entry, hentry, hoverdue⟩ := mem_filterMap.1 htarget
    obtain ⟨other, hother, rfl⟩ := mem_map.1 hentry
    obtain ⟨hold, hplace⟩ := MultipartUpload.overdue_listed.1 hoverdue
    have hmem : other ∈ bucket.uploads := (mem_filter.1 (mem_of_mem_take hother)).1
    obtain rfl := bucket.eq_of_position hmem hupload (hplace.trans hposition)
    exact ⟨hother, hold⟩
  · rintro ⟨hpage, hold⟩
    refine mem_map.2 ⟨(upload.key, upload.uploadId), ?_, rfl⟩
    exact mem_filterMap.2 ⟨upload.listed, mem_map.2 ⟨upload, hpage, rfl⟩,
      MultipartUpload.overdue_listed.2 ⟨hold, rfl⟩⟩

theorem cleanupMultipartPage_succeeds (hlong : ¬ TooLong maxAge)
    (hlisting : env.listing page = .ok ()) (haborting : ∀ key, env.aborting page key = .ok ())
    (keyMarker : Option Text) (uploadIdMarker : Option UploadId) (bucket : Bucket UploadId) :
    ∃ answer, (cleanupMultipartPage env maxAge page keyMarker uploadIdMarker bucket).1 =
      .ok answer := by
  obtain ⟨cleaned, after, haborted⟩ := abortUploads_succeeds haborting
    ((bucket.list keyMarker uploadIdMarker (env.maxUploads page)).uploads.filterMap
      (ListedUpload.overdue (env.clock page - maxAge))) bucket
  rw [cleanupMultipartPage, hlisting]
  simp only [if_neg hlong, haborted]
  exact ⟨_, rfl⟩

/-! ### The walk over the pages -/

/-- What a clean-up that returns has done to a bucket: it has judged the uploads that were pending,
each at some page, and left the others. -/
structure Judged (pending : List (MultipartUpload UploadId)) (bucket after : Bucket UploadId) :
    Prop where
  subset : after.uploads ⊆ bucket.uploads
  judged : ∀ upload ∈ pending, ∃ page, upload ∈ after.uploads ↔ ¬ Overdue env maxAge page upload
  left : ∀ upload ∈ bucket.uploads, upload ∉ pending → upload ∈ after.uploads

theorem not_tooLong_of_page {answer : ℕ × Option Text × Option UploadId × Bool}
    (h : cleanupMultipartPage env maxAge page keyMarker uploadIdMarker bucket =
      (.ok answer, after)) : ¬ TooLong maxAge := by
  intro hlong
  unfold cleanupMultipartPage at h
  split at h
  · exact absurd (Prod.mk.inj h).1 (by simp)
  · rw [if_pos hlong] at h
    exact absurd (Prod.mk.inj h).1 (by simp)

theorem judged_of_page (h : cleanupMultipartPage env maxAge page keyMarker uploadIdMarker bucket =
      (.ok (cleaned, nextKey, nextUpload, false), after)) :
    Judged env maxAge (bucket.pending keyMarker uploadIdMarker) bucket after := by
  obtain ⟨-, -, htruncated, hafter⟩ := cleanupMultipartPage_ok env maxAge h
  have hshort : (bucket.pending keyMarker uploadIdMarker).length ≤ env.maxUploads page :=
    not_lt.1 (of_decide_eq_false (Option.some.inj htruncated))
  have hmem {upload : MultipartUpload UploadId} (hupload : upload ∈ bucket.uploads) :=
    mem_after_page env maxAge h hupload
  rw [take_of_length_le hshort] at hmem
  refine ⟨fun upload hupload ↦ ?_, fun upload hpending ↦ ⟨page, ?_⟩, fun upload hupload hother ↦ ?_⟩
  · rw [hafter] at hupload
    exact (mem_filter.1 hupload).1
  · rw [hmem (mem_filter.1 hpending).1, not_and, imp_iff_right hpending]
  · exact (hmem hupload).2 fun hjudged ↦ hother hjudged.1

theorem Judged.after_page {limit : ℕ} {pending : List (MultipartUpload UploadId)}
    {middle : Bucket UploadId} (hpending : pending ⊆ bucket.uploads) (hdistinct : pending.Nodup)
    (hsubset : middle.uploads ⊆ bucket.uploads) (hmiddle : ∀ upload ∈ bucket.uploads,
      upload ∈ middle.uploads ↔ ¬ (upload ∈ pending.take limit ∧ Overdue env maxAge page upload))
    (hrest : Judged env maxAge (pending.drop limit) middle after) :
    Judged env maxAge pending bucket after := by
  have hdisjoint : List.Disjoint (pending.take limit) (pending.drop limit) :=
    disjoint_take_drop hdistinct le_rfl
  refine ⟨fun _ h ↦ hsubset (hrest.subset h), fun upload hupload ↦ ?_,
    fun upload hupload hother ↦ ?_⟩
  · have hparts : upload ∈ pending.take limit ++ pending.drop limit := by
      rwa [take_append_drop]
    rcases mem_append.1 hparts with hpage | hlater
    · refine ⟨page, fun hafter hold ↦ ?_, fun hyoung ↦ ?_⟩
      · exact (hmiddle upload (hpending hupload)).1 (hrest.subset hafter) ⟨hpage, hold⟩
      · exact hrest.left upload ((hmiddle upload (hpending hupload)).2 fun h ↦ hyoung h.2)
          (hdisjoint hpage)
    · exact hrest.judged upload hlater
  · refine hrest.left upload ((hmiddle upload hupload).2 fun h ↦ ?_) fun h ↦ ?_
    · exact hother (mem_of_mem_take h.1)
    · exact hother (mem_of_mem_drop h)

theorem next_page (h : cleanupMultipartPage env maxAge page keyMarker uploadIdMarker bucket =
      (.ok (cleaned, nextKey, nextUpload, true), after)) :
    nextKey.isNone = false ∧
    (after.pending nextKey nextUpload).length < (bucket.pending keyMarker uploadIdMarker).length ∧
    ∀ final, Judged env maxAge (after.pending nextKey nextUpload) after final →
      Judged env maxAge (bucket.pending keyMarker uploadIdMarker) bucket final := by
  obtain ⟨hkey, hid, htruncated, hafter⟩ := cleanupMultipartPage_ok env maxAge h
  set pending := bucket.pending keyMarker uploadIdMarker with hpending
  have hmiddle : ∀ upload ∈ bucket.uploads, upload ∈ after.uploads ↔
      ¬ (upload ∈ pending.take (env.maxUploads page) ∧ Overdue env maxAge page upload) :=
    fun upload hupload ↦ mem_after_page env maxAge h hupload
  have hpos := env.maxUploads_pos page
  have hlong : env.maxUploads page < pending.length :=
    of_decide_eq_true (Option.some.inj htruncated)
  have hne : pending.take (env.maxUploads page) ≠ [] := by
    rw [Ne, take_eq_nil_iff, not_or]
    exact ⟨hpos.ne', ne_nil_of_length_pos (hpos.trans hlong)⟩
  -- The markers of the answer are those of the last upload of the page.
  have hlast := List.getLast?_eq_some_getLast hne
  set last := (pending.take (env.maxUploads page)).getLast hne
  have hnextKey : nextKey = some last.key := by
    rw [hkey, Bucket.list]
    simp only [← hpending, decide_eq_true hlong, if_true, hlast, Option.map_some]
  have hnextUpload : nextUpload = some last.uploadId := by
    rw [hid, Bucket.list]
    simp only [← hpending, decide_eq_true hlong, if_true, hlast, Option.map_some]
  have hrest : after.pending nextKey nextUpload = pending.drop (env.maxUploads page) := by
    rw [hnextKey, hnextUpload]
    refine Bucket.pending_next hafter (fun upload hupload hother ↦ ?_) hlast
    have hkept := (hmiddle upload hupload).2 fun h ↦ hother h.1
    rw [hafter] at hkept
    exact (mem_filter.1 hkept).2
  have hdistinct : pending.Nodup :=
    (bucket.sorted.filter _).imp fun h heq ↦ absurd (congrArg MultipartUpload.position heq) h.ne
  refine ⟨by rw [hnextKey]; rfl, ?_, fun final hfinal ↦ ?_⟩
  · rw [hrest, length_drop]
    omega
  · exact Judged.after_page env maxAge filter_sublist.subset hdistinct
      (hafter ▸ filter_sublist.subset) hmiddle (hrest ▸ hfinal)

/-- The loop ends within as many pages as uploads are pending, and one; where no request fails it
succeeds. -/
theorem cleanupFrom_ends (fuel page : ℕ) (keyMarker : Option Text)
    (uploadIdMarker : Option UploadId) (cleaned : ℕ) (bucket : Bucket UploadId)
    (hfuel : (bucket.pending keyMarker uploadIdMarker).length < fuel) :
    ∃ answer after, cleanupFrom env maxAge fuel page keyMarker uploadIdMarker cleaned bucket =
        some (answer, after) ∧
      (¬ TooLong maxAge → (∀ page, env.listing page = .ok ()) →
        (∀ page key, env.aborting page key = .ok ()) → ∃ cleaned, answer = .ok cleaned) := by
  induction fuel generalizing page keyMarker uploadIdMarker cleaned bucket with
  | zero => exact absurd hfuel (Nat.not_lt_zero _)
  | succ fuel ih =>
    match hpage : cleanupMultipartPage env maxAge page keyMarker uploadIdMarker bucket with
    | (.error failure, after) =>
      refine ⟨.error failure, after, by rw [cleanupFrom, hpage], fun hlong hlisting haborting ↦ ?_⟩
      obtain ⟨answer, hanswer⟩ := cleanupMultipartPage_succeeds env maxAge hlong (hlisting page)
        (haborting page) keyMarker uploadIdMarker bucket
      rw [hpage] at hanswer
      exact absurd hanswer (by simp)
    | (.ok (pageCleaned, nextKey, nextUpload, false), after) =>
      exact ⟨.ok (cleaned + pageCleaned), after, by rw [cleanupFrom, hpage]; rfl,
        fun _ _ _ ↦ ⟨_, rfl⟩⟩
    | (.ok (pageCleaned, nextKey, nextUpload, true), after) =>
      obtain ⟨hmarker, hfewer, -⟩ := next_page env maxAge hpage
      obtain ⟨answer, final, hrun, hok⟩ := ih (page + 1) nextKey nextUpload
        (cleaned + pageCleaned) after (by omega)
      refine ⟨answer, final, ?_, hok⟩
      rw [cleanupFrom, hpage]
      simpa [hmarker] using hrun

theorem cleanupFrom_judges {fuel total : ℕ}
    (h : cleanupFrom env maxAge fuel page keyMarker uploadIdMarker cleaned bucket =
      some (.ok total, after)) :
    ¬ TooLong maxAge ∧
      Judged env maxAge (bucket.pending keyMarker uploadIdMarker) bucket after := by
  induction fuel generalizing page keyMarker uploadIdMarker cleaned bucket with
  | zero => exact absurd h (by simp [cleanupFrom])
  | succ fuel ih =>
    rw [cleanupFrom] at h
    match hpage : cleanupMultipartPage env maxAge page keyMarker uploadIdMarker bucket with
    | (.error failure, middle) =>
      rw [hpage] at h
      exact absurd (Prod.mk.inj (Option.some.inj h)).1 (by simp)
    | (.ok (pageCleaned, nextKey, nextUpload, false), middle) =>
      rw [hpage] at h
      obtain ⟨-, rfl⟩ := Prod.mk.inj (Option.some.inj h)
      exact ⟨not_tooLong_of_page env maxAge hpage, judged_of_page env maxAge hpage⟩
    | (.ok (pageCleaned, nextKey, nextUpload, true), middle) =>
      obtain ⟨hmarker, -, hjudged⟩ := next_page env maxAge hpage
      rw [hpage] at h
      obtain ⟨hlong, hrest⟩ := ih (by simpa [hmarker] using h)
      exact ⟨hlong, hjudged after hrest⟩

/-! ### What the clean-up reaches -/

/-- Every upload was started by a call. -/
def LeftByPuts (storage : S3CompatibleStorage) (bucket : Bucket UploadId) : Prop :=
  ∀ upload ∈ bucket.uploads, ∃ put : Put, put.multipartKey storage = some upload.key

/-- A clean-up between two times ends, and if it succeeds it has aborted the uploads that were too
old when it began and none that is young enough when it ends. -/
def CleanupReachesAll (start finish : ℤ) (bucket : Bucket UploadId) : Prop :=
  ∀ env : Environment, (∀ page, start ≤ env.clock page ∧ env.clock page ≤ finish) →
    (∃ fuel, (cleanupOrphanedMultipartUploads env maxAge fuel bucket).isSome = true) ∧
    ∀ fuel cleaned after,
      cleanupOrphanedMultipartUploads env maxAge fuel bucket = some (.ok cleaned, after) →
        (∀ upload ∈ bucket.uploads, upload.initiated + maxAge < start → upload ∉ after.uploads) ∧
        ∀ upload ∈ bucket.uploads, finish < upload.initiated + maxAge → upload ∈ after.uploads

theorem Bucket.mem_pending_none :
    upload ∈ bucket.pending none none ↔ upload ∈ bucket.uploads ∧ objectPrefix <+: upload.key := by
  rw [pending, mem_filter, MultipartUpload.follows, Bool.and_true, isPrefixOf_iff_prefix]

theorem LeftByPuts.mem_pending_iff {storage : S3CompatibleStorage}
    (hleft : LeftByPuts storage bucket) (hupload : upload ∈ bucket.uploads) :
    upload ∈ bucket.pending none none ↔ ∀ hash, upload.key ≠ packKey hash := by
  rw [Bucket.mem_pending_none, and_iff_right hupload]
  constructor
  · rintro hunder hash hkey
    exact not_objectPrefix_isPrefix_packKey hash (hkey ▸ hunder)
  · intro hother
    obtain ⟨put, hput⟩ := hleft upload hupload
    rcases Put.multipartKey_cases hput with hkey | hkey
    · exact hkey ▸ objectPrefix_isPrefix_objectKey put.hash
    · exact absurd hkey (hother put.hash)

/-- Requests that all succeed, at one time. -/
def Environment.calm (time : ℤ) : Environment where
  slot := .ok ()
  clock := fun _ ↦ time
  maxUploads := fun _ ↦ 1000
  maxUploads_pos := fun _ ↦ by norm_num
  listing := fun _ ↦ .ok ()
  aborting := fun _ _ ↦ .ok ()

/-- Where no request fails the clean-up succeeds. -/
theorem cleanup_calm (hlong : ¬ TooLong maxAge) (time : ℤ) (bucket : Bucket UploadId) :
    ∃ fuel cleaned after, cleanupOrphanedMultipartUploads (.calm time) maxAge fuel bucket =
      some (.ok cleaned, after) := by
  obtain ⟨answer, after, hrun, hok⟩ := cleanupFrom_ends (.calm time) maxAge _ 0 none none 0 bucket
    (Nat.lt_succ_self _)
  obtain ⟨cleaned, rfl⟩ := hok hlong (fun _ ↦ rfl) fun _ _ ↦ rfl
  exact ⟨(bucket.pending none none).length + 1, cleaned, after, hrun⟩

theorem cleanup_ends (bucket : Bucket UploadId) :
    ∃ fuel, (cleanupOrphanedMultipartUploads env maxAge fuel bucket).isSome = true := by
  obtain ⟨answer, after, hrun, -⟩ := cleanupFrom_ends env maxAge _ 0 none none 0 bucket
    (Nat.lt_succ_self _)
  refine ⟨(bucket.pending none none).length + 1, ?_⟩
  rw [cleanupOrphanedMultipartUploads]
  split
  · rfl
  · rw [hrun]
    rfl

theorem cleanup_judges {fuel : ℕ}
    (h : cleanupOrphanedMultipartUploads env maxAge fuel bucket = some (.ok cleaned, after)) :
    ¬ TooLong maxAge ∧ Judged env maxAge (bucket.pending none none) bucket after := by
  rw [cleanupOrphanedMultipartUploads] at h
  split at h
  · exact absurd (Prod.mk.inj (Option.some.inj h)).1 (by simp)
  · exact cleanupFrom_judges env maxAge h

/-- The clean-up does what its name says if and only if no upload of a pack is too old, and the age
of no younger upload of an object is within its last second. -/
theorem cleanupReachesAll_iff {storage : S3CompatibleStorage} {start finish : ℤ}
    {bucket : Bucket UploadId} (hleft : LeftByPuts storage bucket) (htimes : start ≤ finish) :
    CleanupReachesAll maxAge start finish bucket ↔ TooLong maxAge ∨
      (∀ upload ∈ bucket.uploads, upload.initiated + maxAge < start →
        ∀ hash, upload.key ≠ packKey hash) ∧
      ∀ upload ∈ bucket.uploads, finish < upload.initiated + maxAge →
        (∀ hash, upload.key ≠ packKey hash) →
          seconds (finish - maxAge) < seconds upload.initiated := by
  constructor
  · intro hreaches
    by_cases hlong : TooLong maxAge
    · exact .inl hlong
    refine .inr ⟨fun upload hupload hold hash hkey ↦ ?_, fun upload hupload hyoung hobject ↦ ?_⟩
    · -- A pack is not pending, so it stays.
      obtain ⟨fuel, cleaned, after, hrun⟩ := cleanup_calm maxAge hlong start bucket
      have hgone := ((hreaches (.calm start) fun _ ↦ ⟨le_rfl, htimes⟩).2 fuel cleaned after hrun).1
        upload hupload hold
      have hother : upload ∉ bucket.pending none none :=
        fun hpending ↦ (hleft.mem_pending_iff hupload).1 hpending hash hkey
      exact hgone ((cleanup_judges _ maxAge hrun).2.left upload hupload hother)
    · obtain ⟨fuel, cleaned, after, hrun⟩ := cleanup_calm maxAge hlong finish bucket
      have hstays := ((hreaches (.calm finish) fun _ ↦ ⟨htimes, le_rfl⟩).2 fuel cleaned after
        hrun).2 upload hupload hyoung
      obtain ⟨page, hjudged⟩ := (cleanup_judges _ maxAge hrun).2.judged upload
        ((hleft.mem_pending_iff hupload).2 hobject)
      exact not_le.1 (hjudged.1 hstays)
  · intro hcondition env hclock
    refine ⟨cleanup_ends env maxAge bucket, fun fuel cleaned after hrun ↦ ?_⟩
    obtain ⟨hshort, hjudged⟩ := cleanup_judges env maxAge hrun
    obtain ⟨hpacks, hobjects⟩ := hcondition.resolve_left hshort
    refine ⟨fun upload hupload hold ↦ ?_, fun upload hupload hyoung ↦ ?_⟩
    · have hpending := (hleft.mem_pending_iff hupload).2 (hpacks upload hupload hold)
      obtain ⟨page, hpage⟩ := hjudged.judged upload hpending
      have hbefore : upload.initiated ≤ env.clock page - maxAge := by
        have := (hclock page).1
        omega
      exact fun hstays ↦ hpage.1 hstays (seconds_le_seconds hbefore)
    · by_cases hobject : ∀ hash, upload.key ≠ packKey hash
      · obtain ⟨page, hpage⟩ := hjudged.judged upload ((hleft.mem_pending_iff hupload).2 hobject)
        have hclose : seconds (env.clock page - maxAge) ≤ seconds (finish - maxAge) :=
          seconds_le_seconds (sub_le_sub_right (hclock page).2 _)
        exact hpage.2 (not_le.2 (hclose.trans_lt (hobjects upload hupload hyoung hobject)))
      · exact hjudged.left upload hupload fun hpending ↦
          hobject ((hleft.mem_pending_iff hupload).1 hpending)

end Cleanup

/-- A bucket with one upload, started at time zero. -/
def Bucket.single (key : Text) : Bucket ℕ where
  uploads := [⟨key, 0, 0⟩]
  sorted := pairwise_singleton _ _

/-- With the default age of a day, an upload of a pack is still there after two days. -/
theorem old_pack_upload_stays :
    LeftByPuts ⟨67108864, 16777216, by decide⟩ (.single (packKey (List.replicate 64 'a'))) ∧
      ¬ CleanupReachesAll (86400 * 10 ^ 9) (172800 * 10 ^ 9) (172800 * 10 ^ 9)
        (.single (packKey (List.replicate 64 'a'))) := by
  constructor
  · intro upload hupload
    rw [mem_singleton.1 hupload]
    exact ⟨⟨.pack, List.replicate 64 'a', 67108864⟩, by decide⟩
  · intro hreaches
    have hgone := ((hreaches (.calm _) fun _ ↦ ⟨le_rfl, le_rfl⟩).2 1 0
      (.single (packKey (List.replicate 64 'a'))) rfl).1 _ (mem_singleton_self _) (by decide)
    exact hgone (mem_singleton_self _)

/-- An upload of an object is gone after two days. -/
theorem old_object_upload_goes :
    CleanupReachesAll (86400 * 10 ^ 9) (172800 * 10 ^ 9) (172800 * 10 ^ 9)
      (.single (objectKey (List.replicate 64 'a'))) := by
  have hleft : LeftByPuts ⟨67108864, 16777216, by decide⟩
      (.single (objectKey (List.replicate 64 'a'))) := by
    intro upload hupload
    rw [mem_singleton.1 hupload]
    exact ⟨⟨.encoded, List.replicate 64 'a', 67108864⟩, by decide⟩
  refine (cleanupReachesAll_iff (86400 * 10 ^ 9) hleft le_rfl).2
    (.inr ⟨fun upload hupload _ hash hkey ↦ ?_, fun upload hupload hyoung ↦ ?_⟩)
  · rw [mem_singleton.1 hupload] at hkey
    exact not_objectPrefix_isPrefix_packKey hash (hkey ▸ objectPrefix_isPrefix_objectKey _)
  · rw [mem_singleton.1 hupload] at hyoung
    exact absurd hyoung (by decide)

end S3CompatibleStorage

end GameLauncher.Storage
