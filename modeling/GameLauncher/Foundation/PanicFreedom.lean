import GameLauncher.Foundation.Bytes

/-!
# Panic freedom

`PanicFree` says that a fallible computation ends with a value or an error of its own. It holds of
the checks and of absent values turned into errors, of a slice whose bounds are inside the byte
string, and of a sequence whose first part is panic free and whose rest is panic free on the value
of the first: the rest may rely on every check made before it.
-/

set_option autoImplicit false

namespace GameLauncher.Foundation

/-- The computation does not panic. -/
def Fallible.PanicFree {ε α : Type} (outcome : Fallible ε α) : Prop := outcome ≠ .error .panic

namespace Fallible

variable {ε α β : Type}

theorem panicFree_pure (value : α) : PanicFree (pure value : Fallible ε α) :=
  fun h ↦ nomatch h

theorem panicFree_okOr (value : Option α) (reason : ε) : PanicFree (okOr value reason) := by
  intro h
  exact absurd (orThrow_eq_error.mp h).2 (by simp)

theorem panicFree_rejectIf (condition : Prop) [Decidable condition] (reason : ε) :
    PanicFree (rejectIf condition reason) := by
  intro h
  exact absurd (throwIf_eq_error.mp h).2 (by simp)

theorem panicFree_bind {first : Fallible ε α} {next : α → Fallible ε β} (hfirst : PanicFree first)
    (hnext : ∀ value, first = .ok value → PanicFree (next value)) : PanicFree (first >>= next) := by
  intro h
  rcases bind_eq_error.mp h with h | ⟨value, hvalue, h⟩
  · exact hfirst h
  · exact hnext value hvalue h

theorem panicFree_indexRange {bytes : Bytes} {start stop : ℕ} (hstart : start ≤ stop)
    (hstop : stop ≤ bytes.length) : PanicFree (indexRange bytes start stop : Fallible ε Bytes) := by
  have hok : (indexRange bytes start stop : Fallible ε Bytes) =
      .ok (slice bytes start (stop - start)) := indexRange_eq_ok.mpr ⟨⟨hstart, hstop⟩, rfl⟩
  intro h
  rw [hok] at h
  cases h

end Fallible

end GameLauncher.Foundation
