import Mathlib.Algebra.BigOperators.Group.Finset.Basic
import Mathlib.Algebra.Order.Ring.Int
import GameLauncher.Foundation.Run

/-!
# The scratch budget of parallel downloads

Downloads on several threads share one `ScratchBudget`. `HttpDownloader.download` holds a
reservation for as long as it runs: of the expected size where that is known, and otherwise of what
is in the partial file, resized as the download goes on. A step is one call of the budget, which it
makes under its lock, or what a download does between two calls. The fields of a reservation are
read by its own download alone, so a call and the assignment after it are one step.

What the servers answer, where an exception is raised and whether it is retried are arbitrary. Every
download has its own partial file, which may have any length before it starts.
-/

set_option autoImplicit false

namespace GameLauncher.Scraper

open Foundation Finset

structure ScratchBudget where
  maxBytes : ℕ
  used : ℕ
  deriving DecidableEq, Repr

namespace ScratchBudget

/-- `_reserve`; nothing when it raises. -/
def reserve (budget : ScratchBudget) (amount : ℕ) : Option ScratchBudget :=
  if budget.maxBytes < budget.used + amount then none
  else some { budget with used := budget.used + amount }

/-- `_release`, which stops at zero. -/
def release (budget : ScratchBudget) (amount : ℕ) : ScratchBudget :=
  { budget with used := budget.used - amount }

/-! ### Downloads -/

/-- Where a download is, with the offset it asks for or the bytes it counts as written. -/
inductive Phase
  | waiting
  | attempt
  | asked (offset : ℕ)
  | answered (offset : ℕ) (append : Bool)
  | opening (offset : ℕ) (append : Bool)
  | writing (written : ℕ)
  | granted (written bytes : ℕ)
  | ending
  | ended
  deriving DecidableEq, Repr

/-- What happens to a download: a response, which may continue at the offset, its length, the next
bytes of its body, their write, which may fail after some of them, the end of the body, after which
the partial file may be moved or deleted, or an exception. -/
inductive Answer
  | response (continues : Bool)
  | length (contentLength : Option ℤ)
  | chunk (bytes : ℕ)
  | wrote (failedAfter : Option ℕ)
  | finished (removed : Bool)
  | raised
  deriving DecidableEq, Repr

structure Download where
  expectedSize : Option ℕ
  phase : Phase
  amount : ℕ
  partLength : ℕ
  deriving DecidableEq, Repr

namespace Download

variable (maxArtifactBytes : ℕ) (budget : ScratchBudget) (retry : Bool) (download : Download)

/-- Is a size above the limit or the expected size? -/
def exceeds (size : ℤ) : Bool :=
  decide (maxArtifactBytes < size) || download.expectedSize.any fun expected ↦ expected < size

/-- After an exception: the next attempt, or the `finally`. -/
def failed : Download := { download with phase := if retry then .attempt else .ending }

/-- `resize`, which is called when the size is not known. -/
def resize (amount : ℕ) (phase : Phase) : ScratchBudget × Download :=
  if download.expectedSize.isSome then (budget, { download with phase })
  else if download.amount < amount then
    match budget.reserve (amount - download.amount) with
    | none => (budget, download.failed retry)
    | some budget => (budget, { download with amount, phase })
  else (budget.release (download.amount - amount), { download with amount, phase })

/-- `grow`, which is called when the size is not known. -/
def grow (amount : ℕ) (phase : Phase) : ScratchBudget × Download :=
  if download.amount < amount then download.resize budget retry amount phase
  else (budget, { download with phase })

/-- The next step of `download`. -/
def next : Phase → Answer → ScratchBudget × Download
  | .ended, _ => (budget, download)
  | .ending, _ => (budget.release download.amount, { download with amount := 0, phase := .ended })
  | .waiting, _ =>
    match budget.reserve (download.expectedSize.getD 0) with
    | none => (budget, { download with phase := .ended })
    | some budget =>
      (budget, { download with amount := download.expectedSize.getD 0, phase := .attempt })
  | _, .raised => (budget, download.failed retry)
  | .attempt, _ =>
    let offset := if download.exceeds maxArtifactBytes download.partLength then 0
      else download.partLength
    { download with partLength := offset }.resize budget retry offset (.asked offset)
  | .asked offset, .response continues =>
    if offset ≠ 0 ∧ continues = false then download.resize budget retry 0 (.answered 0 false)
    else (budget, { download with phase := .answered offset (decide (offset ≠ 0)) })
  | .answered offset append, .length none =>
    (budget, { download with phase := .opening offset append })
  | .answered offset append, .length (some contentLength) =>
    if download.exceeds maxArtifactBytes (contentLength + offset) then
      (budget, download.failed retry)
    else download.grow budget retry (contentLength + offset).toNat (.opening offset append)
  | .opening offset append, _ => (budget, { download with
      partLength := if append then download.partLength else 0
      phase := .writing offset })
  | .writing written, .chunk bytes =>
    if download.exceeds maxArtifactBytes ↑(written + bytes) then (budget, download.failed retry)
    else download.grow budget retry (written + bytes) (.granted written bytes)
  | .writing _, .finished removed => (budget, { download with
      partLength := if removed then 0 else download.partLength }.failed retry)
  | .granted written bytes, .wrote none => (budget, { download with
      partLength := download.partLength + bytes
      phase := .writing (written + bytes) })
  | .granted _ bytes, .wrote (some failedAfter) => (budget, { download with
      partLength := download.partLength + min failedAfter bytes }.failed retry)
  | _, _ => (budget, download.failed retry)

end Download

/-! ### The system -/

variable {ι : Type} [DecidableEq ι] [Fintype ι]

structure System (ι : Type) where
  budget : ScratchBudget
  downloads : ι → Download

/-- A new budget, and downloads with the sizes that they expect and the lengths of their partial
files. -/
def System.start (maxBytes : ℕ) (requests : ι → Option ℕ × ℕ) : System ι where
  budget := ⟨maxBytes, 0⟩
  downloads := fun i ↦ ⟨(requests i).1, .waiting, 0, (requests i).2⟩

def System.step (maxArtifactBytes : ℕ) (system : System ι) (action : ι × Answer × Bool) :
    System ι :=
  let download := system.downloads action.1
  let after := download.next maxArtifactBytes system.budget action.2.2 download.phase action.2.1
  ⟨after.1, Function.update system.downloads action.1 after.2⟩

/-- The budget is the sum of the reservations and within its bound, a download that has ended has
none, and a step that makes a partial file longer leaves it within the reservation. -/
structure System.Accounted (maxArtifactBytes maxBytes : ℕ) (system : System ι) : Prop where
  used : system.budget.used = ∑ i, (system.downloads i).amount
  bounded : system.budget.used ≤ maxBytes
  ended : ∀ i, (system.downloads i).phase = .ended → (system.downloads i).amount = 0
  covered : ∀ i answer retry,
    let after := (system.step maxArtifactBytes (i, answer, retry)).downloads i
    (system.downloads i).partLength < after.partLength → after.partLength ≤ after.amount

/-! ### One step -/

namespace Download

variable {bound rest before amount : ℕ} {budget : ScratchBudget} {phase : Phase} {retry : Bool}
  {download : Download}

/-- The reservation is of the expected size, where that is known. -/
def Sized (download : Download) : Prop := ∀ size ∈ download.expectedSize, download.amount = size

/-- The reservation and the partial file in each phase. -/
def Fits (download : Download) : Prop :=
  match download.phase with
  | .waiting | .ended => download.amount = 0
  | .attempt | .ending => download.Sized
  | .asked offset =>
    download.Sized ∧ download.partLength = offset ∧ offset ≤ download.amount
  | .answered offset append | .opening offset append => download.Sized ∧
    (if append then download.partLength else 0) = offset ∧ offset ≤ download.amount
  | .writing written =>
    download.Sized ∧ download.partLength = written ∧ written ≤ download.amount
  | .granted written bytes =>
    download.Sized ∧ download.partLength = written ∧ written + bytes ≤ download.amount

/-- What a step keeps, where the reservations of the other downloads are `rest`. -/
structure Kept (bound rest before : ℕ) (result : ScratchBudget × Download) : Prop where
  max : result.1.maxBytes = bound
  used : result.1.used = result.2.amount + rest
  bounded : result.1.used ≤ bound
  fits : result.2.Fits
  covered : before < result.2.partLength → result.2.partLength ≤ result.2.amount

theorem kept_failed {length : ℕ} (h : Kept bound rest before (budget, download))
    (hsized : download.Sized) (hcovered : before < length → length ≤ download.amount) :
    Kept bound rest before (budget, { download with partLength := length }.failed retry) := by
  refine ⟨h.max, h.used, h.bounded, ?_, hcovered⟩
  cases retry <;> exact hsized

theorem le_of_resized {held : ℕ} (hheld : download.expectedSize = none → held = amount)
    (hsized : { download with amount := held }.Sized)
    (hsize : ∀ size ∈ download.expectedSize, amount ≤ size) : amount ≤ held := by
  cases hknown : download.expectedSize with
  | none => exact (hheld hknown).ge
  | some size => exact (hsize size hknown).trans_eq (hsized size hknown).symm

theorem kept_resize (h : Kept bound rest before (budget, download)) (hsized : download.Sized)
    (hshorter : download.partLength ≤ before)
    (hfits : ∀ held, (download.expectedSize = none → held = amount) →
      { download with amount := held }.Sized → { download with amount := held, phase }.Fits) :
    Kept bound rest before (download.resize budget retry amount phase) := by
  have hused : budget.used = download.amount + rest := h.used
  have hbounded : budget.used ≤ bound := h.bounded
  have hmax : budget.maxBytes = bound := h.max
  unfold resize
  split_ifs with hknown hmore
  · exact ⟨hmax, hused, hbounded, hfits _ (fun hnone ↦ by simp [hnone] at hknown) hsized,
      h.covered⟩
  all_goals
    have hnone : download.expectedSize = none := by simpa using hknown
    have hnext := hfits amount (fun _ ↦ rfl) (by simp [Sized, hnone])
  · unfold reserve
    split_ifs with hfull
    · exact kept_failed h hsized h.covered
    · exact ⟨hmax, by simp only; omega, by simp only; omega, hnext,
        fun hlonger ↦ absurd hlonger hshorter.not_gt⟩
  · exact ⟨hmax, by simp only [release]; omega, by simp only [release]; omega, hnext,
      fun hlonger ↦ absurd hlonger hshorter.not_gt⟩

theorem kept_grow (h : Kept bound rest before (budget, download)) (hsized : download.Sized)
    (hshorter : download.partLength ≤ before)
    (hsize : ∀ size ∈ download.expectedSize, amount ≤ size)
    (hfits : ∀ held, amount ≤ held → download.amount ≤ held →
      { download with amount := held }.Sized → { download with amount := held, phase }.Fits) :
    Kept bound rest before (download.grow budget retry amount phase) := by
  unfold grow
  split_ifs with hmore
  · refine kept_resize h hsized hshorter fun held hheld hsame ↦ ?_
    have hle := le_of_resized hheld hsame hsize
    exact hfits held hle (hmore.le.trans hle) hsame
  · exact ⟨h.max, h.used, h.bounded, hfits _ (not_lt.mp hmore) le_rfl hsized, h.covered⟩

variable {maxArtifactBytes : ℕ}

theorem le_of_not_exceeds {length : ℤ} (h : ¬ download.exceeds maxArtifactBytes length = true) :
    ∀ size ∈ download.expectedSize, length.toNat ≤ size := by
  intro size hsize
  simp only [exceeds, Option.mem_def.mp hsize] at h
  exact Int.toNat_le.mpr (by simpa using (not_or.mp (Bool.or_eq_true_iff.not.mp h)).2)

/-- Every step of a download keeps what it has, in any phase and with any answer. -/
theorem kept_next (answer : Answer)
    (h : Kept bound rest download.partLength (budget, download)) :
    Kept bound rest download.partLength
      (download.next maxArtifactBytes budget retry download.phase answer) := by
  have hfits : download.Fits := h.fits
  have hused : budget.used = download.amount + rest := h.used
  have hbounded : budget.used ≤ bound := h.bounded
  have hmax : budget.maxBytes = bound := h.max
  obtain ⟨expectedSize, phase, held, length⟩ := download
  simp only at hused
  have hsame {size : ℕ} : length < length → length ≤ size :=
    fun hlonger ↦ absurd hlonger (lt_irrefl _)
  have hraised (hsized : Sized ⟨expectedSize, phase, held, length⟩) :
      Kept bound rest length (budget, failed retry ⟨expectedSize, phase, held, length⟩) :=
    kept_failed h hsized hsame
  cases phase with
  | waiting =>
    simp only [Fits] at hfits
    simp only [next, reserve]
    split_ifs with hfull
    · exact ⟨hmax, hused, hbounded, hfits, hsame⟩
    · refine ⟨hmax, by simp only; omega, by simp only; omega, fun size hsize ↦ ?_, hsame⟩
      cases hsize
      rfl
  | ended => exact h
  | ending =>
    simp only [next, release]
    exact ⟨hmax, by simp only; omega, by simp only; omega, rfl, hsame⟩
  | attempt =>
    have hsized : Sized ⟨expectedSize, .attempt, held, length⟩ := hfits
    cases answer with
    | raised => exact hraised hsized
    | _ =>
      simp only [next]
      -- a partial file that is too long is deleted before the reservation is resized to it
      split_ifs with hexceeds
      · exact kept_resize ⟨hmax, hused, hbounded, hsized, fun hlonger ↦ absurd hlonger (by simp)⟩
          hsized (Nat.zero_le _) fun held' _ hsized' ↦ ⟨hsized', rfl, Nat.zero_le _⟩
      · exact kept_resize h hsized le_rfl fun held' hheld hsized' ↦
          ⟨hsized', rfl, le_of_resized hheld hsized' (le_of_not_exceeds hexceeds)⟩
  | asked offset =>
    obtain ⟨hsized, hlength, hheld⟩ := hfits
    cases answer with
    | response continues =>
      simp only [next]
      split_ifs with hrestart
      · exact kept_resize h hsized le_rfl fun held' _ hsized' ↦ ⟨hsized', rfl, Nat.zero_le _⟩
      · refine ⟨hmax, hused, hbounded, ⟨hsized, ?_, hheld⟩, hsame⟩
        by_cases hzero : offset = 0
        · simp [hzero]
        · simpa [hzero] using hlength
    | _ => exact hraised hsized
  | answered offset append =>
    obtain ⟨hsized, hoffset, hheld⟩ := hfits
    cases answer with
    | length contentLength =>
      cases contentLength with
      | none => exact ⟨hmax, hused, hbounded, ⟨hsized, hoffset, hheld⟩, hsame⟩
      | some contentLength =>
        simp only [next]
        split_ifs with hexceeds
        · exact hraised hsized
        · exact kept_grow h hsized le_rfl (le_of_not_exceeds hexceeds)
            fun held' _ hmore hsized' ↦ ⟨hsized', hoffset, hheld.trans hmore⟩
    | _ => exact hraised hsized
  | opening offset append =>
    obtain ⟨hsized, hoffset, hheld⟩ := hfits
    cases answer with
    | raised => exact hraised hsized
    | _ => exact ⟨hmax, hused, hbounded, ⟨hsized, hoffset, hheld⟩, fun _ ↦ hoffset.trans_le hheld⟩
  | writing written =>
    obtain ⟨hsized, hlength, hheld⟩ := hfits
    cases answer with
    | chunk bytes =>
      simp only [next]
      split_ifs with hexceeds
      · exact hraised hsized
      · exact kept_grow h hsized le_rfl (le_of_not_exceeds hexceeds)
          fun held' hmore _ hsized' ↦ ⟨hsized', hlength, hmore⟩
    | finished removed =>
      refine kept_failed h hsized ?_
      cases removed
      · exact hsame
      · exact fun _ ↦ Nat.zero_le _
    | _ => exact hraised hsized
  | granted written bytes =>
    obtain ⟨hsized, hlength, hheld⟩ := hfits
    cases answer with
    | wrote failedAfter =>
      cases failedAfter with
      | none =>
        have hwritten : length + bytes = written + bytes := congrArg (· + bytes) hlength
        exact ⟨hmax, hused, hbounded, ⟨hsized, hwritten, hheld⟩, fun _ ↦ hwritten.trans_le hheld⟩
      | some failedAfter =>
        refine kept_failed h hsized fun _ ↦ ?_
        simp only at hlength hheld ⊢
        omega
    | _ => exact hraised hsized

end Download

/-! ### Runs -/

namespace System

variable {maxBytes : ℕ} {system : System ι}

/-- What every step keeps. -/
structure Shared (maxBytes : ℕ) (system : System ι) : Prop where
  max : system.budget.maxBytes = maxBytes
  used : system.budget.used = ∑ i, (system.downloads i).amount
  bounded : system.budget.used ≤ maxBytes
  fits : ∀ i, (system.downloads i).Fits

/-- A step of a download beside the reservations of the others. -/
theorem Shared.kept (h : system.Shared maxBytes) (maxArtifactBytes : ℕ) (i : ι) (answer : Answer)
    (retry : Bool) :
    Download.Kept maxBytes (∑ j ∈ univ.erase i, (system.downloads j).amount)
      (system.downloads i).partLength ((system.downloads i).next maxArtifactBytes system.budget
        retry (system.downloads i).phase answer) :=
  Download.kept_next answer ⟨h.max, h.used.trans (add_sum_erase _ _ (mem_univ i)).symm,
    h.bounded, h.fits i, fun hlonger ↦ absurd hlonger (lt_irrefl _)⟩

theorem Shared.step (h : system.Shared maxBytes) (maxArtifactBytes : ℕ)
    (action : ι × Answer × Bool) : (system.step maxArtifactBytes action).Shared maxBytes := by
  obtain ⟨i, answer, retry⟩ := action
  have hkept := h.kept maxArtifactBytes i answer retry
  refine ⟨hkept.max, ?_, hkept.bounded, fun j ↦ ?_⟩
  · rw [← add_sum_erase _ _ (mem_univ i)]
    simp only [System.step, Function.update_self]
    rw [hkept.used]
    congr 1
    refine sum_congr rfl fun j hj ↦ ?_
    rw [Function.update_of_ne (ne_of_mem_erase hj)]
  · by_cases hj : j = i
    · subst hj
      simpa only [System.step, Function.update_self] using hkept.fits
    · simpa only [System.step, Function.update_of_ne hj] using h.fits j

/-- However the downloads interleave, and whatever they meet, the budget is the sum of their
reservations and is never exceeded, and what they write is reserved. -/
theorem scratch_accounted (maxArtifactBytes maxBytes : ℕ) (requests : ι → Option ℕ × ℕ)
    (actions : List (ι × Answer × Bool)) :
    (actions.foldl (System.step maxArtifactBytes) (start maxBytes requests)).Accounted
      maxArtifactBytes maxBytes := by
  have hstart : (start maxBytes requests).Shared maxBytes :=
    ⟨rfl, by simp [start], Nat.zero_le _, fun _ ↦ rfl⟩
  have hshared := (Reaches.refl.foldl (permitted_of_forall (fun _ _ ↦ trivial) _ actions)).invariant
    (Shared maxBytes) hstart fun _ action h _ ↦ h.step maxArtifactBytes action
  refine ⟨hshared.used, hshared.bounded, fun i hended ↦ ?_, fun i answer retry ↦ ?_⟩
  · simpa only [Download.Fits, hended] using hshared.fits i
  · simpa only [System.step, Function.update_self] using (hshared.kept _ i answer retry).covered

end System

end ScratchBudget

end GameLauncher.Scraper
