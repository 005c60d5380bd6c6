import Mathlib.Algebra.Ring.Nat
import Mathlib.Data.List.Forall2
import Mathlib.Tactic.Common

/-!
# Fallible computations with panics kept apart from errors

A C# method ends with a value or an exception, which is `Except` over its exceptions. A Rust
function that returns `Result` has three ways to end: a value, an error of its own error type, or a
panic raised by an index, a slice or a debug-mode arithmetic check. `Fallible` keeps all three, so
that absence of panics is a statement about a definition and not an artefact of it.

`throwIf` is the early failure and `orThrow` the conversion of an absent value into a failure;
`rejectIf`, `panicIf` and `okOr` are their instances for Rust. The checked and saturating operations
are those of unsigned 64-bit integers, on natural numbers.
-/

set_option autoImplicit false

namespace GameLauncher.Foundation

open List

/-- How a fallible function fails: with an error of its own, or by a panic. -/
inductive Fault (ε : Type)
  | panic
  | error (reason : ε)
  deriving DecidableEq, Repr

/-- The outcome of a fallible function with errors in `ε`. -/
abbrev Fallible (ε α : Type) := Except (Fault ε) α

namespace Fallible

variable {ε α β : Type}

/-- Fail when the condition holds. -/
def throwIf (condition : Prop) [Decidable condition] (failure : ε) : Except ε Unit :=
  if condition then .error failure else .ok ()

def orThrow (value : Option α) (failure : ε) : Except ε α :=
  match value with
  | some found => .ok found
  | none => .error failure

/-- Return early with an error when the condition holds. -/
def rejectIf (condition : Prop) [Decidable condition] (reason : ε) : Fallible ε Unit :=
  throwIf condition (.error reason)

/-- Panic when the condition holds: a failed debug assertion. -/
def panicIf (condition : Prop) [Decidable condition] : Fallible ε Unit :=
  throwIf condition .panic

def okOr (value : Option α) (reason : ε) : Fallible ε α := orThrow value (.error reason)

variable {result : α}

@[simp] theorem pure_eq_ok {value : α} :
    (pure value : Except ε α) = .ok result ↔ value = result := by
  simp [pure, Except.pure]

theorem ok_bind (value : α) (next : α → Except ε β) : (.ok value >>= next) = next value := rfl

/-- A sequence succeeds exactly when its first part does and the rest succeeds on its value. -/
@[simp] theorem bind_eq_ok {first : Except ε α} {next : α → Except ε β} {result : β} :
    (first >>= next) = .ok result ↔ ∃ value, first = .ok value ∧ next value = .ok result := by
  cases first <;> simp [bind, Except.bind]

variable {condition : Prop} {failure : ε} {u : Unit}

@[simp] theorem throwIf_eq_ok [Decidable condition] :
    throwIf condition failure = .ok u ↔ ¬ condition := by
  unfold throwIf
  split_ifs with h <;> simp [h]

variable {value : Option α}

@[simp] theorem orThrow_eq_ok : orThrow value failure = .ok result ↔ value = some result := by
  cases value <;> simp [orThrow]

@[simp] theorem rejectIf_eq_ok [Decidable condition] {reason : ε} :
    rejectIf condition reason = .ok u ↔ ¬ condition :=
  throwIf_eq_ok

@[simp] theorem panicIf_eq_ok [Decidable condition] :
    (panicIf condition : Fallible ε Unit) = .ok u ↔ ¬ condition :=
  throwIf_eq_ok

@[simp] theorem okOr_eq_ok {reason : ε} : okOr value reason = .ok result ↔ value = some result :=
  orThrow_eq_ok

@[simp] theorem toOption_eq_some {outcome : Except ε α} {value : α} :
    outcome.toOption = some value ↔ outcome = .ok value := by
  cases outcome <;> simp [Except.toOption]

variable {items : List α}

theorem mapM_eq_ok {f : α → Except ε β} {results : List β} :
    items.mapM f = .ok results ↔ List.Forall₂ (fun item result ↦ f item = .ok result) items
      results := by
  induction items generalizing results with
  | nil =>
    rw [mapM_nil, pure_eq_ok, forall₂_nil_left_iff]
    exact eq_comm
  | cons item rest ih =>
    simp only [mapM_cons, bind_eq_ok, pure_eq_ok, forall₂_cons_left_iff, ih]
    constructor
    · rintro ⟨value, hvalue, values, hvalues, rfl⟩
      exact ⟨value, values, hvalue, hvalues, rfl⟩
    · rintro ⟨value, values, hvalue, hvalues, rfl⟩
      exact ⟨value, hvalue, values, hvalues, rfl⟩

theorem bind_eq_error {first : Except ε α} {next : α → Except ε β} :
    (first >>= next) = .error failure ↔
      first = .error failure ∨ ∃ value, first = .ok value ∧ next value = .error failure := by
  cases first <;> simp [bind, Except.bind]

theorem throwIf_eq_error [Decidable condition] {other : ε} :
    throwIf condition failure = .error other ↔ condition ∧ failure = other := by
  unfold throwIf
  split_ifs with h <;> simp [h]

theorem orThrow_eq_error {other : ε} :
    orThrow value failure = .error other ↔ value = none ∧ failure = other := by
  cases value <;> simp [orThrow]

theorem forM_eq_ok {check : α → Except ε Unit} :
    items.forM check = .ok u ↔ ∀ item ∈ items, check item = .ok u := by
  induction items with
  | nil => exact ⟨fun _ ↦ by simp, fun _ ↦ rfl⟩
  | cons item rest ih =>
    change (check item >>= fun _ ↦ rest.forM check) = .ok u ↔ _
    rw [bind_eq_ok, forall_mem_cons]
    simp only [ih]
    exact ⟨fun ⟨_, hitem, hrest⟩ ↦ ⟨hitem, hrest⟩, fun ⟨hitem, hrest⟩ ↦ ⟨u, hitem, hrest⟩⟩

theorem exists_of_forM_eq_error {check : α → Except ε Unit} (h : items.forM check = .error failure)
    : ∃ item ∈ items, check item = .error failure := by
  induction items with
  | nil => cases h
  | cons item rest ih =>
    change (check item >>= fun _ ↦ rest.forM check) = .error failure at h
    rw [bind_eq_error] at h
    rcases h with h | ⟨_, -, h⟩
    · exact ⟨item, mem_cons_self, h⟩
    · obtain ⟨other, hother, hfailure⟩ := ih h
      exact ⟨other, mem_cons_of_mem item hother, hfailure⟩

theorem exists_of_foldlM_eq_ok {body : β → α → Except ε β} {start result : β}
    (h : items.foldlM body start = .ok result) {item : α} (hitem : item ∈ items) :
    ∃ before after, body before item = .ok after := by
  induction items generalizing start with
  | nil => exact absurd hitem not_mem_nil
  | cons first rest ih =>
    rw [foldlM_cons, bind_eq_ok] at h
    obtain ⟨next, hfirst, hrest⟩ := h
    rcases mem_cons.mp hitem with rfl | hitem
    · exact ⟨start, next, hfirst⟩
    · exact ih hrest hitem

/-- A loop that accepts an item exactly when the items done and it are acceptable together accepts
exactly the acceptable lists. The state of the loop represents the items done. -/
theorem foldlM_accepts {body : β → α → Except ε β} {represents : List α → β → Prop}
    {acceptable : List α → Prop}
    (hinitial : ∀ {done rest}, acceptable (done ++ rest) → acceptable done)
    (hround : ∀ {done state}, represents done state → acceptable done → ∀ item,
      ((∃ next, body state item = .ok next) ↔ acceptable (done ++ [item])) ∧
        ∀ next, body state item = .ok next → represents (done ++ [item]) next)
    {done : List α} {state : β} (hstate : represents done state) (hdone : acceptable done)
    (rest : List α) :
    ((∃ result, rest.foldlM body state = .ok result) ↔ acceptable (done ++ rest)) ∧
      ∀ result, rest.foldlM body state = .ok result → represents (done ++ rest) result := by
  induction rest generalizing done state with
  | nil =>
    rw [append_nil]
    refine ⟨iff_of_true ⟨state, rfl⟩ hdone, fun result hresult ↦ ?_⟩
    rwa [← pure_eq_ok.mp hresult]
  | cons item rest ih =>
    obtain ⟨haccepts, hnext⟩ := hround hstate hdone item
    have hsplit : done ++ item :: rest = done ++ [item] ++ rest := by simp
    simp only [foldlM_cons, bind_eq_ok]
    rw [hsplit]
    constructor
    · constructor
      · rintro ⟨result, next, hitem, hrest⟩
        exact (ih (hnext next hitem) (haccepts.mp ⟨next, hitem⟩)).1.mp ⟨result, hrest⟩
      · intro hall
        have hitemDone := hinitial hall
        obtain ⟨next, hitem⟩ := haccepts.mpr hitemDone
        obtain ⟨result, hrest⟩ := (ih (hnext next hitem) hitemDone).1.mpr hall
        exact ⟨result, next, hitem, hrest⟩
    · rintro result ⟨next, hitem, hrest⟩
      exact (ih (hnext next hitem) (haccepts.mp ⟨next, hitem⟩)).2 result hrest

end Fallible

/-! ### Unsigned 64-bit arithmetic -/

/-- The number of values of an unsigned 64-bit integer. -/
def u64Size : ℕ := 2 ^ 64

/-- Addition that is absent on overflow. -/
def checkedAdd (left right : ℕ) : Option ℕ :=
  if left + right < u64Size then some (left + right) else none

/-- Multiplication that is absent on overflow. -/
def checkedMul (left right : ℕ) : Option ℕ :=
  if left * right < u64Size then some (left * right) else none

/-- Addition that stays at the largest value on overflow. -/
def saturatingAdd (left right : ℕ) : ℕ := min (left + right) (u64Size - 1)

@[simp] theorem checkedAdd_eq_some {left right result : ℕ} :
    checkedAdd left right = some result ↔ left + right < u64Size ∧ left + right = result := by
  unfold checkedAdd
  split_ifs with h <;> simp [h]

@[simp] theorem checkedMul_eq_some {left right result : ℕ} :
    checkedMul left right = some result ↔ left * right < u64Size ∧ left * right = result := by
  unfold checkedMul
  split_ifs with h <;> simp [h]

theorem foldlM_checkedAdd {sizes : List ℕ} {start total : ℕ} (hstart : start < u64Size) :
    sizes.foldlM checkedAdd start = some total ↔
      start + sizes.sum < u64Size ∧ start + sizes.sum = total := by
  induction sizes generalizing start with
  | nil => simp [hstart]
  | cons size rest ih =>
    simp only [foldlM_cons, Option.bind_eq_bind, Option.bind_eq_some_iff, checkedAdd_eq_some,
      sum_cons]
    constructor
    · rintro ⟨next, ⟨hnext, rfl⟩, hrest⟩
      rw [ih hnext] at hrest
      omega
    · rintro ⟨hsum, rfl⟩
      have hnext : start + size < u64Size := by omega
      refine ⟨start + size, ⟨hnext, rfl⟩, (ih hnext).mpr ?_⟩
      omega

end GameLauncher.Foundation
