import Mathlib.Tactic.Common
import Mathlib.Data.List.Basic

/-!
# Processes that can be stopped between their steps

A process transforms a state in atomic steps and ends with a value or a failure. Its outcome keeps
every state that it visits, in order, so that what a crash can leave behind is a statement about the
list of visited states.

`Ensures before process always after fails` is a triple with a crash condition: from a state that
satisfies `before`, every visited state satisfies `always`, a normal end satisfies `after` and a
failure satisfies `fails`. `Advances relation process` relates every state of a run to its start.
-/

set_option autoImplicit false

namespace GameLauncher.Foundation

open List

/-- What a run leaves: the states after each of its steps, its result and its last state. -/
structure Outcome (σ ε α : Type) where
  visited : List σ
  result : Except ε α
  final : σ

/-- Where a run is when it is stopped after so many of its steps, or else where it ends. -/
def Outcome.reached {σ ε α : Type} (outcome : Outcome σ ε α) (start : σ) : Option ℕ → σ
  | none => outcome.final
  | some steps =>
    if steps < outcome.visited.length then (start :: outcome.visited).getD steps outcome.final
    else outcome.final

/-- A run that is stopped before its first step has done nothing. -/
theorem Outcome.reached_zero {σ ε α : Type} {outcome : Outcome σ ε α} {start : σ}
    (h : outcome.visited ≠ []) : outcome.reached start (some 0) = start := by
  simp only [reached, length_pos_iff.mpr h, if_true, getD_cons_zero]

theorem Outcome.reached_of_lt {σ ε α : Type} {outcome : Outcome σ ε α} {start : σ} {steps : ℕ}
    (h : steps + 1 < outcome.visited.length) :
    outcome.visited[steps]? = some (outcome.reached start (some (steps + 1))) := by
  have hsteps : steps < outcome.visited.length := Nat.lt_of_succ_lt h
  rw [List.getElem?_eq_getElem hsteps, reached, if_pos h, getD_cons_succ,
    getD_eq_getElem?_getD, List.getElem?_eq_getElem hsteps, Option.getD_some]

theorem Outcome.reached_of_le {σ ε α : Type} {outcome : Outcome σ ε α} {start : σ} {steps : ℕ}
    (h : outcome.visited.length ≤ steps) : outcome.reached start (some steps) = outcome.final := by
  simp only [reached, Nat.not_lt.mpr h, if_false]

theorem Outcome.reached_cases {σ ε α : Type} (outcome : Outcome σ ε α) (start : σ)
    (stop : Option ℕ) : outcome.reached start stop = start ∨
      outcome.reached start stop ∈ outcome.visited ∨
        outcome.reached start stop = outcome.final := by
  cases stop with
  | none => exact .inr (.inr rfl)
  | some steps =>
    by_cases hsteps : steps < outcome.visited.length
    · cases steps with
      | zero => exact .inl (reached_zero (length_pos_iff.mp hsteps))
      | succ steps => exact .inr (.inl (mem_of_getElem? (reached_of_lt hsteps)))
    · exact .inr (.inr (reached_of_le (Nat.le_of_not_lt hsteps)))

/-- A run that is not stopped before its first step is in a visited state, or where it ends. -/
theorem Outcome.reached_of_ne_zero {σ ε α : Type} {outcome : Outcome σ ε α} {start : σ}
    {stop : Option ℕ} (h : stop ≠ some 0) : outcome.reached start stop ∈ outcome.visited ∨
      outcome.reached start stop = outcome.final := by
  match stop with
  | none => exact .inr rfl
  | some 0 => exact absurd rfl h
  | some (steps + 1) =>
    by_cases hsteps : steps + 1 < outcome.visited.length
    · exact .inl (mem_of_getElem? (reached_of_lt hsteps))
    · exact .inr (reached_of_le (Nat.le_of_not_lt hsteps))

/-- A computation in atomic steps on a state, with failures. -/
def Process (σ ε α : Type) : Type := σ → Outcome σ ε α

namespace Process

variable {σ ε α β ι : Type}

/-- End with a value, without a step. -/
protected def pure (value : α) : Process σ ε α := fun state ↦
  { visited := [], result := .ok value, final := state }

/-- Run a process and then, unless it fails, the next one on its value. -/
protected def bind (first : Process σ ε α) (next : α → Process σ ε β) : Process σ ε β :=
  fun state ↦
    match (first state).result with
    | .ok value =>
      { visited := (first state).visited ++ (next value (first state).final).visited
        result := (next value (first state).final).result
        final := (next value (first state).final).final }
    | .error failure =>
      { visited := (first state).visited, result := .error failure, final := (first state).final }

instance : Monad (Process σ ε) where
  pure := Process.pure
  bind := Process.bind

def step (action : σ → Except ε α × σ) : Process σ ε α := fun state ↦
  { visited := [(action state).2], result := (action state).1, final := (action state).2 }

/-- Look at the state, without a step. -/
def query (view : σ → Except ε α) : Process σ ε α := fun state ↦
  { visited := [], result := view state, final := state }

/-- Fail, without a step. -/
def fail (failure : ε) : Process σ ε α := query fun _ ↦ .error failure

def tryCatch (body : Process σ ε α) (handler : ε → Process σ ε α) : Process σ ε α := fun state ↦
  match (body state).result with
  | .ok value => { visited := (body state).visited, result := .ok value, final := (body state).final }
  | .error failure =>
    { visited := (body state).visited ++ (handler failure (body state).final).visited
      result := (handler failure (body state).final).result
      final := (handler failure (body state).final).final }

/-- A process whose failure is a value. -/
def attempt (body : Process σ ε α) : Process σ ε (Except ε α) := fun state ↦
  { visited := (body state).visited, result := .ok (body state).result, final := (body state).final }

/-- Run a cleanup after a body, however the body ends. A failure of the cleanup replaces the
result of the body. -/
def tryFinally (body : Process σ ε α) (cleanup : Process σ ε Unit) : Process σ ε α := fun state ↦
  { visited := (body state).visited ++ (cleanup (body state).final).visited
    result := (cleanup (body state).final).result >>= fun _ ↦ (body state).result
    final := (cleanup (body state).final).final }

/-- The loop over a list, with an accumulator. -/
def forEach (body : ι → β → Process σ ε β) : List ι → β → Process σ ε β
  | [], accumulator => pure accumulator
  | item :: rest, accumulator => do
    let accumulator ← body item accumulator
    forEach body rest accumulator

def onPart {τ : Type} (part : τ → σ) (put : σ → τ → τ) (process : Process σ ε α) :
    Process τ ε α := fun state ↦
  { visited := (process (part state)).visited.map (put · state)
    result := (process (part state)).result
    final := put (process (part state)).final state }

/-! ### Sequences -/

variable {failure : ε}

theorem id_map' (process : Process σ ε α) : id <$> process = process := by
  funext state
  change Process.bind process Process.pure state = process state
  unfold Process.bind Process.pure
  split
  · next value hvalue => rw [append_nil, ← hvalue]
  · next failure hfailure => rw [← hfailure]

theorem pure_bind' (value : α) (next : α → Process σ ε β) : pure value >>= next = next value := rfl

theorem bind_assoc' {γ : Type} (first : Process σ ε α) (next : α → Process σ ε β)
    (last : β → Process σ ε γ) :
    first >>= next >>= last = first >>= fun value ↦ next value >>= last := by
  funext state
  change Process.bind (Process.bind first next) last state =
    Process.bind first (fun value ↦ Process.bind (next value) last) state
  cases hfirst : (first state).result with
  | error failure => simp only [Process.bind, hfirst]
  | ok value =>
    cases hnext : (next value (first state).final).result with
    | error failure => simp only [Process.bind, hfirst, hnext]
    | ok value => simp only [Process.bind, hfirst, hnext, append_assoc]

instance : LawfulMonad (Process σ ε) := LawfulMonad.mk' _ id_map' pure_bind' bind_assoc'

section Sequence

variable {first : Process σ ε α} {next : α → Process σ ε β} {state : σ}

theorem final_bind_of_ok {value : α} (h : (first state).result = .ok value) :
    ((first >>= next) state).final = (next value (first state).final).final := by
  change (Process.bind first next state).final = _
  rw [Process.bind, h]

theorem result_bind_of_ok {value : α} (h : (first state).result = .ok value) :
    ((first >>= next) state).result = (next value (first state).final).result := by
  change (Process.bind first next state).result = _
  rw [Process.bind, h]

theorem final_bind_of_error (h : (first state).result = .error failure) :
    ((first >>= next) state).final = (first state).final := by
  change (Process.bind first next state).final = _
  rw [Process.bind, h]

theorem result_bind_of_error (h : (first state).result = .error failure) :
    ((first >>= next) state).result = .error failure := by
  change (Process.bind first next state).result = _
  rw [Process.bind, h]

theorem result_bind_eq_ok {returned : β} : ((first >>= next) state).result = .ok returned ↔
    ∃ value, (first state).result = .ok value ∧
      (next value (first state).final).result = .ok returned := by
  cases hfirst : (first state).result with
  | ok value => simp [result_bind_of_ok hfirst]
  | error failure => simp [result_bind_of_error hfirst]

theorem result_bind_congr {other : α → Process σ ε β}
    (h : ∀ value state, (next value state).result = (other value state).result) :
    ((first >>= next) state).result = ((first >>= other) state).result := by
  cases hfirst : (first state).result with
  | ok value => rw [result_bind_of_ok hfirst, result_bind_of_ok hfirst, h]
  | error failure => rw [result_bind_of_error hfirst, result_bind_of_error hfirst]

theorem query_bind_of_ok {view : σ → Except ε α} {value : α} (h : view state = .ok value) :
    (query view >>= next) state = next value state := by
  change Process.bind (query view) next state = _
  simp only [Process.bind, query, h, nil_append]

theorem query_bind_of_error {view : σ → Except ε α} (h : view state = .error failure) :
    (query view >>= next) state = ⟨[], .error failure, state⟩ := by
  change Process.bind (query view) next state = _
  simp only [Process.bind, query, h]

/-- Two processes with one outcome go on in the same way. -/
theorem bind_congr {other : Process σ ε α} (h : first state = other state) :
    (first >>= next) state = (other >>= next) state := by
  change Process.bind first next state = Process.bind other next state
  simp only [Process.bind, h]

/-- A process without a step. -/
def Silent (process : Process σ ε α) : Prop :=
  ∀ state, (process state).visited = [] ∧ (process state).final = state

theorem silent_query {view : σ → Except ε α} : Silent (query view) := fun _ ↦ ⟨rfl, rfl⟩

theorem silent_pure {value : α} : Silent (pure value : Process σ ε α) := fun _ ↦ ⟨rfl, rfl⟩

theorem Silent.bind_of_ok (h : Silent first) {value : α} (hvalue : (first state).result = .ok value) :
    (first >>= next) state = next value state := by
  obtain ⟨hvisited, hfinal⟩ := h state
  change Process.bind first next state = _
  simp only [Process.bind, hvalue, hvisited, hfinal, nil_append]

theorem Silent.bind_of_error (h : Silent first) (hfailure : (first state).result = .error failure) :
    (first >>= next) state = ⟨[], .error failure, state⟩ := by
  obtain ⟨hvisited, hfinal⟩ := h state
  change Process.bind first next state = _
  simp only [Process.bind, hfailure, hvisited, hfinal]

theorem silent_bind (hfirst : Silent first) (hnext : ∀ value, Silent (next value)) :
    Silent (first >>= next) := by
  intro state
  cases hresult : (first state).result with
  | ok value =>
    rw [hfirst.bind_of_ok hresult]
    exact hnext value state
  | error failure =>
    rw [hfirst.bind_of_error hresult]
    exact ⟨rfl, rfl⟩

theorem silent_onPart {τ : Type} {part : τ → σ} {put : σ → τ → τ} (hfirst : Silent first)
    (hput : ∀ state, put (part state) state = state) : Silent (onPart part put first) := by
  intro state
  obtain ⟨hvisited, hfinal⟩ := hfirst (part state)
  refine ⟨map_eq_nil_iff.mpr hvisited, ?_⟩
  change put (first (part state)).final state = state
  rw [hfinal, hput]

theorem visited_prefix_bind : (first state).visited <+: ((first >>= next) state).visited := by
  change _ <+: (Process.bind first next state).visited
  unfold Process.bind
  cases (first state).result with
  | ok value => exact prefix_append ..
  | error failure => exact prefix_refl _

theorem bind_of_error {visited : List σ} {final : σ}
    (h : first state = ⟨visited, .error failure, final⟩) :
    (first >>= next) state = ⟨visited, .error failure, final⟩ := by
  change Process.bind first next state = _
  simp only [Process.bind, h]

theorem final_bind_pure {value : α → β} :
    ((first >>= fun found ↦ pure (value found)) state).final = (first state).final := by
  cases hfirst : (first state).result with
  | ok found => exact final_bind_of_ok hfirst
  | error failure => exact final_bind_of_error hfirst

end Sequence

variable {body : Process σ ε α} {handler : ε → Process σ ε α}

theorem result_tryCatch_of_ok {state : σ} {value : α} (h : (body state).result = .ok value) :
    (tryCatch body handler state).result = .ok value := by
  rw [tryCatch, h]

theorem final_tryCatch_of_ok {state : σ} {value : α} (h : (body state).result = .ok value) :
    (tryCatch body handler state).final = (body state).final := by
  rw [tryCatch, h]

theorem result_tryCatch_of_error {state : σ} (h : (body state).result = .error failure) :
    (tryCatch body handler state).result = (handler failure (body state).final).result := by
  rw [tryCatch, h]

theorem final_tryCatch_of_error {state : σ} (h : (body state).result = .error failure) :
    (tryCatch body handler state).final = (handler failure (body state).final).final := by
  rw [tryCatch, h]

variable {cleanup : Process σ ε Unit}

theorem result_tryFinally_of_ok {state : σ} (h : (cleanup (body state).final).result = .ok ()) :
    (tryFinally body cleanup state).result = (body state).result := by
  rw [tryFinally, h]
  rfl

theorem result_of_tryCatch_fail {cleanup : ε → Process σ ε β} {state : σ} {value : α}
    (h : (tryCatch body (fun failure ↦ cleanup failure >>= fun _ ↦ fail failure) state).result =
      .ok value) : (body state).result = .ok value := by
  cases hbody : (body state).result with
  | ok returned => exact (result_tryCatch_of_ok hbody).symm.trans h
  | error failure =>
    rw [result_tryCatch_of_error hbody] at h
    obtain ⟨_, _, hraised⟩ := result_bind_eq_ok.mp h
    cases hraised

/-! ### Ends -/

variable {action : σ → Except ε α × σ}

/-- A process ends with this value in this state. -/
def Ends (process : Process σ ε α) (start : σ) (value : α) (final : σ) : Prop :=
  (process start).result = .ok value ∧ (process start).final = final

section Ends

variable {start final : σ} {value : α}

theorem ends_pure {given : α} : Ends (pure given : Process σ ε α) start value final ↔
    given = value ∧ start = final :=
  and_congr_left fun _ ↦ ⟨Except.ok.inj, congrArg Except.ok⟩

theorem ends_bind {first : Process σ ε β} {next : β → Process σ ε α} :
    Ends (first >>= next) start value final ↔
      ∃ found middle, Ends first start found middle ∧ Ends (next found) middle value final := by
  constructor
  · rintro ⟨hresult, hfinal⟩
    obtain ⟨found, hfound, hnext⟩ := result_bind_eq_ok.mp hresult
    exact ⟨found, _, ⟨hfound, rfl⟩, hnext, (final_bind_of_ok hfound).symm.trans hfinal⟩
  · rintro ⟨found, middle, ⟨hfound, rfl⟩, hnext, hfinal⟩
    exact ⟨result_bind_eq_ok.mpr ⟨found, hfound, hnext⟩, (final_bind_of_ok hfound).trans hfinal⟩

theorem ends_step : Ends (step action) start value final ↔ action start = (.ok value, final) := by
  rw [Prod.ext_iff]
  rfl

theorem ends_query {view : σ → Except ε α} :
    Ends (query view) start value final ↔ view start = .ok value ∧ start = final := Iff.rfl

theorem ends_fail : ¬ Ends (fail failure) start value final :=
  fun h ↦ nomatch h.1

end Ends

/-! ### Triples -/

/-- From a state in `before`, every visited state is in `always`, a value ends in `after` and a
failure in `fails`. -/
def Ensures (before : σ → Prop) (process : Process σ ε α) (always : σ → Prop)
    (after : α → σ → Prop) (fails : ε → σ → Prop) : Prop :=
  ∀ state, before state → (∀ reached ∈ (process state).visited, always reached) ∧
    (∀ value, (process state).result = .ok value → after value (process state).final) ∧
    ∀ failure, (process state).result = .error failure → fails failure (process state).final

variable {before : σ → Prop} {always : σ → Prop} {fails : ε → σ → Prop}

variable {after : α → σ → Prop} {process : Process σ ε α}

theorem Ensures.mono {before' always' : σ → Prop} {after' : α → σ → Prop} {fails' : ε → σ → Prop}
    (h : Ensures before process always after fails)
    (hbefore : ∀ state, before' state → before state)
    (halways : ∀ state, always state → always' state)
    (hafter : ∀ value state, after value state → after' value state)
    (hfails : ∀ failure state, fails failure state → fails' failure state) :
    Ensures before' process always' after' fails' := by
  intro state hstate
  obtain ⟨hvisited, hok, herror⟩ := h state (hbefore state hstate)
  exact ⟨fun reached hreached ↦ halways reached (hvisited reached hreached),
    fun value hvalue ↦ hafter value _ (hok value hvalue),
    fun failure hfailure ↦ hfails failure _ (herror failure hfailure)⟩

theorem ensures_assume {fact : Prop} (h : fact → Ensures before process always after fails) :
    Ensures (fun state ↦ fact ∧ before state) process always after fails :=
  fun state hstate ↦ h hstate.1 state hstate.2

theorem ensures_of_state
    (h : ∀ state, before state → Ensures (fun other ↦ other = state) process always after fails) :
    Ensures before process always after fails :=
  fun state hstate ↦ h state hstate state rfl

theorem Ensures.with_result {state : σ}
    (h : Ensures (fun other ↦ other = state) process always after fails) :
    Ensures (fun other ↦ other = state) process always
      (fun value final ↦ (process state).result = .ok value ∧ after value final)
      fun failure final ↦ (process state).result = .error failure ∧ fails failure final := by
  rintro _ rfl
  obtain ⟨hvisited, hok, herror⟩ := h _ rfl
  exact ⟨hvisited, fun value hvalue ↦ ⟨hvalue, hok value hvalue⟩,
    fun failure hfailure ↦ ⟨hfailure, herror failure hfailure⟩⟩

theorem ensures_pure {value : α} (h : ∀ state, before state → after value state) :
    Ensures before (pure value : Process σ ε α) always after fails := by
  intro state hstate
  refine ⟨fun reached hreached ↦ absurd hreached not_mem_nil, ?_, ?_⟩
  · rintro _ ⟨⟩
    exact h state hstate
  · rintro _ ⟨⟩

theorem ensures_bind {first : Process σ ε α} {next : α → Process σ ε β} {after : β → σ → Prop}
    (middle : α → σ → Prop) (hfirst : Ensures before first always middle fails)
    (hnext : ∀ value, Ensures (middle value) (next value) always after fails) :
    Ensures before (first >>= next) always after fails := by
  intro state hstate
  obtain ⟨hvisited, hok, herror⟩ := hfirst state hstate
  change (∀ reached ∈ (Process.bind first next state).visited, always reached) ∧
    (∀ value, (Process.bind first next state).result = .ok value →
      after value (Process.bind first next state).final) ∧
    ∀ failure, (Process.bind first next state).result = .error failure →
      fails failure (Process.bind first next state).final
  unfold Process.bind
  cases hresult : (first state).result with
  | error failure =>
    refine ⟨hvisited, ?_, ?_⟩
    · rintro _ ⟨⟩
    · rintro _ ⟨⟩
      exact herror failure hresult
  | ok value =>
    obtain ⟨hvisitedNext, hokNext, herrorNext⟩ := hnext value _ (hok value hresult)
    refine ⟨fun reached hreached ↦ ?_, hokNext, herrorNext⟩
    rcases mem_append.mp hreached with hleft | hright
    · exact hvisited reached hleft
    · exact hvisitedNext reached hright

theorem ensures_step (halways : ∀ state, before state → always (action state).2)
    (hok : ∀ state value, before state → (action state).1 = .ok value →
      after value (action state).2)
    (herror : ∀ state failure, before state → (action state).1 = .error failure →
      fails failure (action state).2) : Ensures before (step action) always after fails := by
  intro state hstate
  refine ⟨fun reached hreached ↦ ?_, fun value ↦ hok state value hstate,
    fun failure ↦ herror state failure hstate⟩
  rw [mem_singleton.mp hreached]
  exact halways state hstate

theorem ensures_step_of_cases (h : ∀ state, before state → always (action state).2 ∧
    ((∃ value, (action state).1 = .ok value ∧ after value (action state).2) ∨
      ∃ failure, (action state).1 = .error failure ∧ fails failure (action state).2)) :
    Ensures before (step action) always after fails := by
  refine ensures_step (fun state hstate ↦ (h state hstate).1) (fun state value hstate hvalue ↦ ?_)
    fun state failure hstate hfailure ↦ ?_
  · rcases (h state hstate).2 with ⟨other, hother, hafter⟩ | ⟨failure, hfailure, -⟩
    · obtain rfl : other = value := Except.ok.inj (hother.symm.trans hvalue)
      exact hafter
    · cases hfailure.symm.trans hvalue
  · rcases (h state hstate).2 with ⟨value, hvalue, -⟩ | ⟨other, hother, hfails⟩
    · cases hvalue.symm.trans hfailure
    · obtain rfl : other = failure := Except.error.inj (hother.symm.trans hfailure)
      exact hfails

theorem ensures_step_keeps {kept : σ → Prop} (h : ∀ state, before state → kept (action state).2) :
    Ensures before (step action) kept (fun _ ↦ kept) fun _ ↦ kept :=
  ensures_step h (fun state _ hstate _ ↦ h state hstate) fun state _ hstate _ ↦ h state hstate

theorem ensures_query {view : σ → Except ε α}
    (hok : ∀ state value, before state → view state = .ok value → after value state)
    (herror : ∀ state failure, before state → view state = .error failure → fails failure state) :
    Ensures before (query view) always after fails := by
  intro state hstate
  exact ⟨fun reached hreached ↦ absurd hreached not_mem_nil,
    fun value ↦ hok state value hstate, fun failure ↦ herror state failure hstate⟩

theorem ensures_attempt {afterFails : ε → σ → Prop}
    (h : Ensures before body always after afterFails) :
    Ensures before (attempt body) always
      (fun result state ↦ (∀ value, result = .ok value → after value state) ∧
        ∀ failure, result = .error failure → afterFails failure state) fails := by
  intro state hstate
  obtain ⟨hvisited, hok, herror⟩ := h state hstate
  refine ⟨hvisited, fun result hresult ↦ ?_, fun failure hfailure ↦ ?_⟩
  · obtain rfl : (body state).result = result := Except.ok.inj hresult
    exact ⟨hok, herror⟩
  · cases hfailure

theorem ensures_tryCatch (middle : ε → σ → Prop) (hbody : Ensures before body always after middle)
    (hhandler : ∀ failure, Ensures (middle failure) (handler failure) always after fails) :
    Ensures before (tryCatch body handler) always after fails := by
  intro state hstate
  obtain ⟨hvisited, hok, herror⟩ := hbody state hstate
  unfold tryCatch
  cases hresult : (body state).result with
  | ok value =>
    refine ⟨hvisited, ?_, ?_⟩
    · rintro _ ⟨⟩
      exact hok value hresult
    · rintro _ ⟨⟩
  | error failure =>
    obtain ⟨hvisitedHandler, hokHandler, herrorHandler⟩ :=
      hhandler failure _ (herror failure hresult)
    refine ⟨fun reached hreached ↦ ?_, hokHandler, herrorHandler⟩
    rcases mem_append.mp hreached with hleft | hright
    · exact hvisited reached hleft
    · exact hvisitedHandler reached hright

theorem ensures_tryFinally (middle : α → σ → Prop) (middleFails : ε → σ → Prop)
    (hbody : Ensures before body always middle middleFails)
    (hcleanup : ∀ value, Ensures (middle value) cleanup always (fun _ ↦ after value)
      fun _ _ ↦ False) (hcleanupFails : ∀ failure, Ensures (middleFails failure) cleanup always
      (fun _ ↦ fails failure) fun _ _ ↦ False) :
    Ensures before (tryFinally body cleanup) always after fails := by
  intro state hstate
  obtain ⟨hvisited, hok, herror⟩ := hbody state hstate
  have hends {held last : σ → Prop}
      (h : Ensures held cleanup always (fun _ ↦ last) fun _ _ ↦ False)
      (hheld : held (body state).final) :
      (∀ reached ∈ (tryFinally body cleanup state).visited, always reached) ∧
        (tryFinally body cleanup state).result = (body state).result ∧
        last (tryFinally body cleanup state).final := by
    obtain ⟨hvisitedCleanup, hokCleanup, herrorCleanup⟩ := h _ hheld
    have hleft : ∀ reached ∈ (tryFinally body cleanup state).visited, always reached :=
      fun reached hreached ↦ (mem_append.mp hreached).elim (hvisited reached)
        (hvisitedCleanup reached)
    cases hend : (cleanup (body state).final).result with
    | ok ended => exact ⟨hleft, result_tryFinally_of_ok hend, hokCleanup ended hend⟩
    | error failure => exact (herrorCleanup failure hend).elim
  cases hresult : (body state).result with
  | ok value =>
    obtain ⟨hleft, hsame, hlast⟩ := hends (hcleanup value) (hok value hresult)
    rw [hresult] at hsame
    refine ⟨hleft, fun returned hreturned ↦ ?_, fun failure hfailure ↦ ?_⟩
    · obtain rfl : value = returned := Except.ok.inj (hsame.symm.trans hreturned)
      exact hlast
    · cases hsame.symm.trans hfailure
  | error failure =>
    obtain ⟨hleft, hsame, hlast⟩ := hends (hcleanupFails failure) (herror failure hresult)
    rw [hresult] at hsame
    refine ⟨hleft, fun returned hreturned ↦ ?_, fun other hother ↦ ?_⟩
    · cases hsame.symm.trans hreturned
    · obtain rfl : failure = other := Except.error.inj (hsame.symm.trans hother)
      exact hlast

variable {accumulator : β}

theorem ensures_forEach {body : ι → β → Process σ ε β} {items : List ι}
    (invariant : List ι → β → σ → Prop)
    (hbody : ∀ done item rest accumulator, items = done ++ item :: rest →
      Ensures (invariant done accumulator) (body item accumulator) always
        (invariant (done ++ [item])) fails) :
    Ensures (invariant [] accumulator) (forEach body items accumulator) always (invariant items)
      fails := by
  have hloop : ∀ (rest done : List ι) (accumulator : β), items = done ++ rest →
      Ensures (invariant done accumulator) (forEach body rest accumulator) always
        (invariant items) fails := by
    intro rest
    induction rest with
    | nil =>
      intro done accumulator hitems
      rw [append_nil] at hitems
      subst hitems
      exact ensures_pure fun state hstate ↦ hstate
    | cons item rest ih =>
      intro done accumulator hitems
      refine ensures_bind _ (hbody done item rest accumulator hitems) fun next ↦ ?_
      refine ih (done ++ [item]) next ?_
      rw [hitems, append_assoc]
      rfl
  exact hloop items [] accumulator rfl

theorem ensures_forEach_left {body : ι → β → Process σ ε β} {items : List ι}
    (invariant : List ι → β → σ → Prop)
    (hbody : ∀ item ∈ items, ∀ rest accumulator,
      Ensures (invariant (item :: rest) accumulator) (body item accumulator) always
        (invariant rest) fails) :
    Ensures (invariant items accumulator) (forEach body items accumulator) always (invariant [])
      fails := by
  induction items generalizing accumulator with
  | nil => exact ensures_pure fun state hstate ↦ hstate
  | cons item rest ih =>
    exact ensures_bind _ (hbody item mem_cons_self rest accumulator) fun next ↦
      ih fun other hother ↦ hbody other (mem_cons_of_mem _ hother)

/-! ### Properties that a process keeps -/

/-- A property of the state is kept however the process ends; the value has `fact` and the failure
is in `raises`. -/
def Keeps (property : σ → Prop) (raises : ε → Prop) (process : Process σ ε α)
    (fact : α → Prop) : Prop :=
  Ensures property process (fun _ ↦ True) (fun value state ↦ fact value ∧ property state)
    fun failure state ↦ raises failure ∧ property state

variable {property : σ → Prop} {raises : ε → Prop} {fact : α → Prop}

theorem Keeps.ensures (h : Keeps property raises process fact) :
    Ensures property process (fun _ ↦ True) (fun _ ↦ property) fun _ ↦ property :=
  Ensures.mono h (fun _ hstate ↦ hstate) (fun _ h ↦ h) (fun _ _ hvalue ↦ hvalue.2)
    fun _ _ hfailure ↦ hfailure.2

theorem keeps_pure {value : α} (h : fact value) :
    Keeps property raises (pure value : Process σ ε α) fact :=
  ensures_pure fun _ hstate ↦ ⟨h, hstate⟩

theorem keeps_bind {first : Process σ ε α} {next : α → Process σ ε β} {factNext : β → Prop}
    (fact : α → Prop) (hfirst : Keeps property raises first fact)
    (hnext : ∀ value, fact value → Keeps property raises (next value) factNext) :
    Keeps property raises (first >>= next) factNext :=
  ensures_bind _ hfirst fun value ↦ ensures_assume (hnext value)

theorem keeps_step (hstep : ∀ state, property state → property (action state).2)
    (hok : ∀ state value, property state → (action state).1 = .ok value → fact value)
    (herror : ∀ state failure, property state → (action state).1 = .error failure →
      raises failure) : Keeps property raises (step action) fact :=
  ensures_step (fun _ _ ↦ trivial)
    (fun state value hstate hvalue ↦ ⟨hok state value hstate hvalue, hstep state hstate⟩)
    fun state failure hstate hfailure ↦ ⟨herror state failure hstate hfailure, hstep state hstate⟩

theorem keeps_query {view : σ → Except ε α}
    (hok : ∀ state value, property state → view state = .ok value → fact value)
    (herror : ∀ state failure, property state → view state = .error failure → raises failure) :
    Keeps property raises (query view) fact :=
  ensures_query (fun state value hstate hvalue ↦ ⟨hok state value hstate hvalue, hstate⟩)
    fun state failure hstate hfailure ↦ ⟨herror state failure hstate hfailure, hstate⟩

theorem keeps_fail (h : raises failure) :
    Keeps property raises (fail failure : Process σ ε α) fact :=
  keeps_query (fun _ _ _ hvalue ↦ nomatch hvalue) fun _ _ _ hfailure ↦ Except.error.inj hfailure ▸ h

theorem keeps_tryCatch (raisesBody : ε → Prop) (hbody : Keeps property raisesBody body fact)
    (hhandler : ∀ failure, raisesBody failure → Keeps property raises (handler failure) fact) :
    Keeps property raises (tryCatch body handler) fact :=
  ensures_tryCatch _ hbody fun failure ↦ ensures_assume (hhandler failure)

theorem keeps_forEach {body : ι → β → Process σ ε β} {items : List ι} {fact : β → Prop}
    (hstart : fact accumulator) (hbody : ∀ item ∈ items, ∀ accumulator, fact accumulator →
      Keeps property raises (body item accumulator) fact) :
    Keeps property raises (forEach body items accumulator) fact := by
  induction items generalizing accumulator with
  | nil => exact keeps_pure hstart
  | cons item rest ih =>
    refine keeps_bind fact (hbody item mem_cons_self accumulator hstart) fun next hnext ↦ ?_
    exact ih hnext fun other hother ↦ hbody other (mem_cons_of_mem item hother)

theorem forEach_append {body : ι → β → Process σ ε β} {first second : List ι} :
    forEach body (first ++ second) accumulator =
      forEach body first accumulator >>= forEach body second := by
  induction first generalizing accumulator with
  | nil => rfl
  | cons item rest ih =>
    change (body item accumulator >>= forEach body (rest ++ second)) =
      (body item accumulator >>= forEach body rest) >>= forEach body second
    rw [bind_assoc']
    exact congrArg _ (funext fun _ ↦ ih)

/-! ### Parts of the state that a process leaves alone -/

section Preserves

variable {ρ : Type} {view : σ → ρ}

/-- A part of the state that is the same at the end, however the process ends. -/
def Preserves (view : σ → ρ) (process : Process σ ε α) : Prop :=
  ∀ state, view (process state).final = view state

end Preserves

/-! ### Relations along a run -/

section Advances

variable {relation : σ → σ → Prop}

/-- Every state that is visited, and the last one, is related to the state in which the process
starts. For a preorder, the rules below build this up step by step. -/
def Advances (relation : σ → σ → Prop) (process : Process σ ε α) : Prop :=
  ∀ state, (∀ reached ∈ (process state).visited, relation state reached) ∧
    relation state (process state).final

theorem Advances.preserves {ρ : Type} {view : σ → ρ} (h : Advances relation process)
    (hview : ∀ before after, relation before after → view after = view before) :
    Preserves view process :=
  fun state ↦ hview state _ (h state).2

theorem Advances.mono {other : σ → σ → Prop} (h : Advances relation process)
    (hother : ∀ before after, relation before after → other before after) :
    Advances other process :=
  fun state ↦ ⟨fun reached hreached ↦ hother state reached ((h state).1 reached hreached),
    hother state _ (h state).2⟩

/-- A run that is stopped is related to its start as well. -/
theorem Advances.reached [Std.Refl relation] (h : Advances relation process) (state : σ)
    (stop : Option ℕ) : relation state ((process state).reached state stop) := by
  obtain ⟨hvisited, hfinal⟩ := h state
  rcases (process state).reached_cases state stop with hreached | hreached | hreached
  · rw [hreached]
    exact Std.Refl.refl _
  · exact hvisited _ hreached
  · rw [hreached]
    exact hfinal

theorem advances_step (h : ∀ state, relation state (action state).2) :
    Advances relation (step action) := by
  refine fun state ↦ ⟨fun reached hreached ↦ ?_, h state⟩
  rw [mem_singleton.mp hreached]
  exact h state

theorem advances_onPart {τ : Type} {part : τ → σ} {put : σ → τ → τ} {other : τ → τ → Prop}
    (h : Advances relation process)
    (hput : ∀ state reached, relation (part state) reached → other state (put reached state)) :
    Advances other (onPart part put process) := by
  refine fun state ↦ ⟨fun reached hreached ↦ ?_, hput state _ (h (part state)).2⟩
  obtain ⟨inner, hinner, rfl⟩ := mem_map.mp hreached
  exact hput state inner ((h (part state)).1 inner hinner)

theorem advances_ite {condition : Prop} [Decidable condition] {first second : Process σ ε α}
    (hfirst : Advances relation first) (hsecond : Advances relation second) :
    Advances relation (if condition then first else second) := by
  split
  · exact hfirst
  · exact hsecond

variable [IsPreorder σ relation]

theorem advances_query {answer : σ → Except ε α} : Advances relation (query answer) :=
  fun state ↦ ⟨fun _ hreached ↦ absurd hreached not_mem_nil, refl_of relation state⟩

theorem advances_pure {value : α} : Advances relation (pure value : Process σ ε α) :=
  fun state ↦ ⟨fun _ hreached ↦ absurd hreached not_mem_nil, refl_of relation state⟩

theorem advances_fail : Advances relation (fail failure : Process σ ε α) :=
  advances_query

theorem advances_bind {first : Process σ ε α} {next : α → Process σ ε β}
    (hfirst : Advances relation first) (hnext : ∀ value, Advances relation (next value)) :
    Advances relation (first >>= next) := by
  intro state
  obtain ⟨hvisited, hfinal⟩ := hfirst state
  change (∀ reached ∈ (Process.bind first next state).visited, relation state reached) ∧
    relation state (Process.bind first next state).final
  unfold Process.bind
  cases (first state).result with
  | error failure => exact ⟨hvisited, hfinal⟩
  | ok value =>
    obtain ⟨hvisitedNext, hfinalNext⟩ := hnext value (first state).final
    refine ⟨fun reached hreached ↦ ?_, trans_of relation hfinal hfinalNext⟩
    rcases mem_append.mp hreached with hleft | hright
    · exact hvisited reached hleft
    · exact trans_of relation hfinal (hvisitedNext reached hright)

theorem advances_tryCatch (hbody : Advances relation body)
    (hhandler : ∀ failure, Advances relation (handler failure)) :
    Advances relation (tryCatch body handler) := by
  intro state
  obtain ⟨hvisited, hfinal⟩ := hbody state
  unfold tryCatch
  cases (body state).result with
  | ok value => exact ⟨hvisited, hfinal⟩
  | error failure =>
    obtain ⟨hvisitedHandler, hfinalHandler⟩ := hhandler failure (body state).final
    refine ⟨fun reached hreached ↦ ?_, trans_of relation hfinal hfinalHandler⟩
    rcases mem_append.mp hreached with hleft | hright
    · exact hvisited reached hleft
    · exact trans_of relation hfinal (hvisitedHandler reached hright)

theorem advances_tryFinally (hbody : Advances relation body) (hcleanup : Advances relation cleanup)
    :
    Advances relation (tryFinally body cleanup) := by
  intro state
  obtain ⟨hvisited, hfinal⟩ := hbody state
  obtain ⟨hvisitedCleanup, hfinalCleanup⟩ := hcleanup (body state).final
  refine ⟨fun reached hreached ↦ ?_, trans_of relation hfinal hfinalCleanup⟩
  rcases mem_append.mp hreached with hleft | hright
  · exact hvisited reached hleft
  · exact trans_of relation hfinal (hvisitedCleanup reached hright)

theorem advances_forEach {body : ι → β → Process σ ε β}
    (hbody : ∀ item accumulator, Advances relation (body item accumulator)) (items : List ι)
    (accumulator : β) : Advances relation (forEach body items accumulator) := by
  induction items generalizing accumulator with
  | nil => exact advances_pure
  | cons item rest ih => exact advances_bind (hbody item accumulator) ih

end Advances

end Process

end GameLauncher.Foundation
