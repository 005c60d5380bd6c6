import GameLauncher.Foundation.Process

/-!
# Programs of operations, and threads that run them

A program performs operations one after the other; what it does next depends on the responses, and an
operation that fails ends it. Unlike a process, a program can be stopped before each operation, so
several programs can run interleaved on one state: a `Pool` is a state with the programs of its
threads, and `Pool.run` lets one thread perform its next operation. `toProcess` is the process of a
program that runs alone.

A `Discipline` says which operations a program performs, which responses it may count on, and which
operation a response obliges it to perform next. `Meets` is the rule for programs that keep a
discipline, and `Pool.meets_run` shows that threads keep it while they run.
-/

set_option autoImplicit false

namespace GameLauncher.Foundation

/-- A program over operations, each of which has its type of responses. -/
inductive Program (ι : Type) (ρ : ι → Type) (ε α : Type) : Type
  | done (result : Except ε α)
  | call (operation : ι) (next : ρ operation → Program ι ρ ε α)

namespace Program

variable {ι : Type} {ρ : ι → Type} {ε α β σ : Type}

/-- Run a program and then, unless it fails, the next one on its value. -/
protected def bind : Program ι ρ ε α → (α → Program ι ρ ε β) → Program ι ρ ε β
  | done (.ok value), rest => rest value
  | done (.error failure), _ => done (.error failure)
  | call operation next, rest => call operation fun response ↦ (next response).bind rest

instance : Monad (Program ι ρ ε) where
  pure := fun value ↦ done (.ok value)
  bind := Program.bind

def perform (operation : ι) : Program ι ρ ε (ρ operation) :=
  call operation fun response ↦ done (.ok response)

/-- A program goes on after an operation; one that fails ends it. -/
def resume {operation : ι} (next : ρ operation → Program ι ρ ε α) :
    Except ε (ρ operation) → Program ι ρ ε α
  | .ok response => next response
  | .error failure => done (.error failure)

/-- The operation that a program performs next. -/
def head? : Program ι ρ ε α → Option ι
  | done _ => none
  | call operation _ => some operation

/-- The program has ended. -/
def isDone : Program ι ρ ε α → Bool
  | done _ => true
  | call .. => false

/-- The process of a program that runs alone. -/
def toProcess (interpret : (operation : ι) → Process σ ε (ρ operation)) :
    Program ι ρ ε α → Process σ ε α
  | done (.ok value) => pure value
  | done (.error failure) => Process.fail failure
  | call operation next => interpret operation >>= fun response ↦ (next response).toProcess interpret

section Alone

variable (interpret : (operation : ι) → Process σ ε (ρ operation))

@[simp] theorem toProcess_pure (value : α) :
    (pure value : Program ι ρ ε α).toProcess interpret = pure value := rfl

@[simp] theorem toProcess_done (result : Except ε α) :
    (done result : Program ι ρ ε α).toProcess interpret = Process.query fun _ ↦ result := by
  cases result <;> rfl

@[simp] theorem toProcess_perform (operation : ι) :
    (perform operation : Program ι ρ ε (ρ operation)).toProcess interpret = interpret operation :=
  bind_pure _

@[simp] theorem toProcess_bind (program : Program ι ρ ε α) (rest : α → Program ι ρ ε β) :
    (program >>= rest).toProcess interpret =
      program.toProcess interpret >>= fun value ↦ (rest value).toProcess interpret := by
  induction program with
  | done result =>
    cases result with
    | ok value => rfl
    | error failure => rfl
  | call operation next ih =>
    change (interpret operation >>= fun response ↦
      ((next response).bind rest).toProcess interpret) = (interpret operation >>=
        fun response ↦ (next response).toProcess interpret) >>= _
    rw [bind_assoc]
    exact congrArg (interpret operation >>= ·) (funext ih)

end Alone

end Program

/-! ### Disciplines -/

/-- Which operations are performed, which responses are counted on, and what the next operation after
a response has to be, if it obliges to anything. -/
structure Discipline (ι : Type) (ρ : ι → Type) where
  permitted : ι → Prop
  answers : (operation : ι) → ρ operation → Prop
  obliges : (operation : ι) → ρ operation → Option (ι → Prop)

namespace Program

variable {ι : Type} {ρ : ι → Type} {ε α β σ : Type} {discipline : Discipline ι ρ}

def Pays (due : Option (ι → Prop)) (program : Program ι ρ ε α) : Prop :=
  ∀ owed, due = some owed → ∃ operation next, program = call operation next ∧ owed operation

theorem pays_none (program : Program ι ρ ε α) : program.Pays none := fun _ h ↦ by cases h

/-- The program keeps the discipline, and its value has the property. -/
def Meets (discipline : Discipline ι ρ) (post : α → Prop) : Program ι ρ ε α → Prop
  | done (.ok value) => post value
  | done (.error _) => True
  | call operation next => discipline.permitted operation ∧
      ∀ response, discipline.answers operation response →
        (next response).Pays (discipline.obliges operation response) ∧
          (next response).Meets discipline post

theorem meets_done {post : α → Prop} {result : Except ε α}
    (h : ∀ value, result = .ok value → post value) :
    (done result : Program ι ρ ε α).Meets discipline post := by
  cases result with
  | ok value => exact h value rfl
  | error failure => trivial

theorem meets_perform {operation : ι} (hpermitted : discipline.permitted operation)
    (hfree : ∀ response, discipline.obliges operation response = none) :
    (perform operation : Program ι ρ ε (ρ operation)).Meets discipline
      (discipline.answers operation) := by
  refine ⟨hpermitted, fun response hanswer ↦ ⟨?_, hanswer⟩⟩
  rw [hfree]
  exact pays_none _

theorem Pays.bind {due : Option (ι → Prop)} {program : Program ι ρ ε α}
    (h : program.Pays due) (rest : α → Program ι ρ ε β) : (program.bind rest).Pays due := by
  intro owed howed
  obtain ⟨operation, next, rfl, hoperation⟩ := h owed howed
  exact ⟨operation, fun response ↦ (next response).bind rest, rfl, hoperation⟩

theorem Meets.bind {program : Program ι ρ ε α} {rest : α → Program ι ρ ε β} {between : α → Prop}
    {post : β → Prop} (h : program.Meets discipline between)
    (hrest : ∀ value, between value → (rest value).Meets discipline post) :
    (program >>= rest).Meets discipline post := by
  induction program with
  | done result =>
    cases result with
    | ok value => exact hrest value h
    | error failure => trivial
  | call operation next ih =>
    exact ⟨h.1, fun response hanswer ↦
      ⟨(h.2 response hanswer).1.bind rest, ih response (h.2 response hanswer).2⟩⟩

end Program

/-! ### Threads -/

/-- A state and the programs of the threads that share it. -/
structure Pool (σ ι : Type) (ρ : ι → Type) (ε α : Type) where
  shared : σ
  threads : List (Program ι ρ ε α)

namespace Pool

variable {ι : Type} {ρ : ι → Type} {ε α σ : Type} {discipline : Discipline ι ρ}

def run (perform : (operation : ι) → σ → Except ε (ρ operation) × σ) (pool : Pool σ ι ρ ε α)
    (thread : ℕ) : Pool σ ι ρ ε α :=
  match pool.threads[thread]? with
  | some (.call operation next) =>
    { shared := (perform operation pool.shared).2
      threads := pool.threads.set thread (Program.resume next (perform operation pool.shared).1) }
  | _ => pool

/-- A new thread. -/
def spawn (pool : Pool σ ι ρ ε α) (program : Program ι ρ ε α) : Pool σ ι ρ ε α :=
  { pool with threads := pool.threads ++ [program] }

/-- All threads have ended. -/
def isIdle (pool : Pool σ ι ρ ε α) : Bool := pool.threads.all Program.isDone

/-- All threads keep the discipline. -/
def Meets (discipline : Discipline ι ρ) (pool : Pool σ ι ρ ε α) : Prop :=
  ∀ program ∈ pool.threads, program.Meets discipline fun _ ↦ True

variable {perform : (operation : ι) → σ → Except ε (ρ operation) × σ} {pool : Pool σ ι ρ ε α}

theorem run_of_call {thread : ℕ} {operation : ι} {next : ρ operation → Program ι ρ ε α}
    (h : pool.threads[thread]? = some (.call operation next)) :
    pool.run perform thread = ⟨(perform operation pool.shared).2,
        pool.threads.set thread (Program.resume next (perform operation pool.shared).1)⟩ := by
  rw [run, h]

theorem meets_run {thread : ℕ} (h : pool.Meets discipline)
    (hanswers : ∀ operation response, discipline.permitted operation →
      (perform operation pool.shared).1 = .ok response → discipline.answers operation response) :
    (pool.run perform thread).Meets discipline := by
  intro program hprogram
  unfold run at hprogram
  split at hprogram
  · next operation next hthread =>
    have hmeets := h _ (List.mem_of_getElem? hthread)
    rcases List.mem_or_eq_of_mem_set hprogram with hold | rfl
    · exact h program hold
    · cases hresponse : (perform operation pool.shared).1 with
      | ok response => exact (hmeets.2 response (hanswers operation response hmeets.1 hresponse)).2
      | error failure => trivial
  · exact h program hprogram

theorem meets_spawn {program : Program ι ρ ε α} (h : pool.Meets discipline)
    (hprogram : program.Meets discipline fun _ ↦ True) :
    (pool.spawn program).Meets discipline := by
  intro other hother
  rcases List.mem_append.mp hother with hold | hnew
  · exact h other hold
  · rw [List.mem_singleton.mp hnew]
    exact hprogram

end Pool

end GameLauncher.Foundation
