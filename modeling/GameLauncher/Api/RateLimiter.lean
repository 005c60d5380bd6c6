import GameLauncher.Foundation.Table
import GameLauncher.Foundation.Text
import Mathlib.Data.List.Induction

/-!
# The rate limiter of the API

Every client has a window that begins with a request of it and lasts for the duration of the
limiter. `retryAfterSeconds` drops the windows of all clients that are over, admits a request into
the window of its client while that has room, and turns away new clients while too many are tracked.
The times are nanoseconds, read under the lock, so that they never decrease.

`admitted_within_le` follows: two windows at most reach into an interval of that length.
`answers_eq` is the independence: while not too many clients are live, a client gets the answers
that it would get alone.

Left out: the reset after a panic that held the lock, since nothing under the lock panics.
-/

set_option autoImplicit false

namespace GameLauncher.Api

open Foundation List Option Table

/-! ### The limiter -/

/-- The `RateWindow` of a client. -/
structure RateWindow where
  clientKey : Text
  started : ℕ
  requests : ℕ
  deriving DecidableEq, Repr

abbrev RateWindows := Table RateWindow RateWindow.clientKey

def nanosPerSecond : ℕ := 10 ^ 9

structure RequestRateLimiter where
  limit : ℕ
  duration : ℕ
  limit_pos : 1 ≤ limit
  duration_ge : nanosPerSecond ≤ duration

namespace RequestRateLimiter

/-- `RequestRateLimiter::with_proxy_headers`, without the choice of the client key. -/
def withProxyHeaders (limit duration : ℕ) : RequestRateLimiter where
  limit := max limit 1
  duration := max duration nanosPerSecond
  limit_pos := le_max_right _ _
  duration_ge := le_max_right _ _

variable (limiter : RequestRateLimiter)

def live (windows : RateWindows) (now : ℕ) : RateWindows :=
  windows.deleteWhere fun window ↦ !decide (now - window.started < limiter.duration)

end RequestRateLimiter

def maxTrackedClients : ℕ := 10000

namespace RequestRateLimiter

variable (limiter : RequestRateLimiter)

def retryAfterSeconds (windows : RateWindows) (clientKey : Text) (now : ℕ) :
    RateWindows × Option ℕ :=
  let windows := limiter.live windows now
  if maxTrackedClients ≤ windows.rows.length ∧ (windows.find clientKey).isNone = true then
    (windows, some (max (limiter.duration / nanosPerSecond) 1))
  else
    let window := (windows.find clientKey).getD ⟨clientKey, now, 0⟩
    if window.requests < limiter.limit then
      (windows.upsert { window with requests := window.requests + 1 }, none)
    else (windows.upsert window,
      some (max ((limiter.duration - (now - window.started)) / nanosPerSecond) 1))

end RequestRateLimiter

/-! ### Runs -/

/-- A request that was answered, with the start of its client's window. -/
structure Answered where
  clientKey : Text
  time : ℕ
  answer : Option ℕ
  window : Option ℕ
  deriving DecidableEq, Repr

/-- A request of the client was admitted. -/
def Answered.Admits (client : Text) (answered : Answered) : Prop :=
  answered.clientKey = client ∧ answered.answer = none

instance (client : Text) : DecidablePred (Answered.Admits client) :=
  fun answered ↦ inferInstanceAs (Decidable (answered.clientKey = client ∧ answered.answer = none))

namespace RequestRateLimiter

variable (limiter : RequestRateLimiter)

def serve (state : RateWindows × List Answered) (request : Text × ℕ) :
    RateWindows × List Answered :=
  let result := limiter.retryAfterSeconds state.1 request.1 request.2
  (result.1, state.2 ++
    [⟨request.1, request.2, result.2, (result.1.find request.1).map RateWindow.started⟩])

/-- The run over a list of requests. -/
def serveAll (requests : List (Text × ℕ)) : RateWindows × List Answered :=
  requests.foldl limiter.serve (.empty, [])

theorem serveAll_concat (requests : List (Text × ℕ)) (request : Text × ℕ) :
    limiter.serveAll (requests ++ [request]) = limiter.serve (limiter.serveAll requests) request :=
  foldl_concat _ _ _ _

end RequestRateLimiter

/-- The requests of a client that were admitted into the window with a start. -/
def admittedInto (log : List Answered) (client : Text) (start : ℕ) : ℕ :=
  log.countP fun answered ↦ decide (answered.Admits client ∧ answered.window = some start)

/-- The requests of a client that were admitted in an interval of times. -/
def admittedWithin (log : List Answered) (client : Text) (first last : ℕ) : ℕ :=
  log.countP fun answered ↦ decide (answered.Admits client ∧ first ≤ answered.time ∧
    answered.time ≤ last)

/-! ### One request -/

variable {limiter : RequestRateLimiter} {windows : RateWindows} {client : Text}

theorem find_live (now : ℕ) : (limiter.live windows now).find client =
    (windows.find client).filter fun window ↦ decide (now - window.started < limiter.duration) := by
  rw [RequestRateLimiter.live, find_deleteWhere]
  simp only [Bool.not_not]

/-- How a request is answered: it is turned away, admitted into the client's window or a new one, or
refused because the window is full. -/
theorem retryAfterSeconds_cases (limiter : RequestRateLimiter) (windows : RateWindows)
    (client : Text) (now : ℕ) :
    (maxTrackedClients ≤ (limiter.live windows now).rows.length ∧
      (limiter.live windows now).find client = none ∧
      ∃ seconds, 1 ≤ seconds ∧ limiter.retryAfterSeconds windows client now =
        (limiter.live windows now, some seconds)) ∨
    (∃ window, ((limiter.live windows now).find client = some window ∨
        (limiter.live windows now).find client = none ∧ window = ⟨client, now, 0⟩ ∧
          (limiter.live windows now).rows.length < maxTrackedClients) ∧
      window.requests < limiter.limit ∧ limiter.retryAfterSeconds windows client now =
        ((limiter.live windows now).upsert { window with requests := window.requests + 1 }, none)) ∨
    ∃ window, (limiter.live windows now).find client = some window ∧
      ∃ seconds, 1 ≤ seconds ∧ limiter.retryAfterSeconds windows client now =
        ((limiter.live windows now).upsert window, some seconds) := by
  unfold RequestRateLimiter.retryAfterSeconds
  generalize limiter.live windows now = kept
  dsimp only
  cases hfind : kept.find client with
  | none =>
    by_cases hfull : maxTrackedClients ≤ kept.rows.length
    · rw [if_pos ⟨hfull, rfl⟩]
      exact .inl ⟨hfull, rfl, _, le_max_right _ _, rfl⟩
    · have hroom : (⟨client, now, 0⟩ : RateWindow).requests < limiter.limit := limiter.limit_pos
      rw [if_neg fun h ↦ hfull h.1, getD_none, if_pos hroom]
      exact .inr (.inl ⟨_, .inr ⟨rfl, rfl, not_le.mp hfull⟩, hroom, rfl⟩)
  | some window =>
    rw [if_neg fun h ↦ Bool.false_ne_true h.2, getD_some]
    by_cases hroom : window.requests < limiter.limit
    · rw [if_pos hroom]
      exact .inr (.inl ⟨window, .inl rfl, hroom, rfl⟩)
    · rw [if_neg hroom]
      exact .inr (.inr ⟨window, rfl, _, le_max_right _ _, rfl⟩)

theorem clientKey_of_window {window : RateWindow} {now : ℕ} {room : Prop}
    (h : windows.find client = some window ∨
      windows.find client = none ∧ window = ⟨client, now, 0⟩ ∧ room) :
    window.clientKey = client := by
  rcases h with hfound | ⟨-, rfl, -⟩
  · exact (find_eq_some.mp hfound).2
  · rfl

/-! ### The windows of a client -/

/-- A request of the client was admitted into a window with the start. -/
def IsStart (log : List Answered) (client : Text) (start : ℕ) : Prop :=
  ∃ answered ∈ log, answered.Admits client ∧ answered.window = some start

theorem isStart_concat {log : List Answered} {answered : Answered} {start : ℕ} :
    IsStart (log ++ [answered]) client start ↔
      IsStart log client start ∨ answered.Admits client ∧ answered.window = some start := by
  unfold IsStart
  simp only [mem_append, mem_singleton, or_and_right, exists_or, exists_eq_left]

/-- What holds of a client at a time of a run. -/
structure Sound (limiter : RequestRateLimiter) (client : Text) (windows : RateWindows)
    (log : List Answered) (time : ℕ) : Prop where
  started : ∀ answered ∈ log, answered.Admits client → ∃ start, answered.window = some start ∧
    start ≤ answered.time ∧ answered.time < start + limiter.duration
  bounded : ∀ start, admittedInto log client start ≤ limiter.limit
  apart : ∀ first second, IsStart log client first → IsStart log client second →
    first = second ∨ first + limiter.duration ≤ second ∨ second + limiter.duration ≤ first
  current : ∀ window, windows.find client = some window → window.started ≤ time ∧
    window.requests = admittedInto log client window.started ∧
    ∀ start, IsStart log client start →
      start = window.started ∨ start + limiter.duration ≤ window.started
  past : windows.find client = none →
    ∀ start, IsStart log client start → start + limiter.duration ≤ time

namespace Sound

variable {log : List Answered} {time now : ℕ}

theorem initial (limiter : RequestRateLimiter) (client : Text) (time : ℕ) :
    Sound limiter client .empty [] time where
  started _ h := absurd h not_mem_nil
  bounded _ := Nat.zero_le _
  apart _ _ h := absurd h fun ⟨_, h, _⟩ ↦ not_mem_nil h
  current _ h := absurd (find_eq_some.mp h).1 not_mem_nil
  past _ _ h := absurd h fun ⟨_, h, _⟩ ↦ not_mem_nil h

theorem expire (h : Sound limiter client windows log time) (hnow : time ≤ now) :
    Sound limiter client (limiter.live windows now) log now where
  started := h.started
  bounded := h.bounded
  apart := h.apart
  current window hwindow := by
    rw [find_live, filter_eq_some_iff] at hwindow
    obtain ⟨hstarted, hrest⟩ := h.current window hwindow.1
    exact ⟨hstarted.trans hnow, hrest⟩
  past hnone start hstart := by
    rw [find_live] at hnone
    cases hfind : windows.find client with
    | none => exact (h.past hfind start hstart).trans hnow
    | some window =>
      rw [hfind, filter_eq_none_iff] at hnone
      have hover := hnone window rfl
      rw [decide_eq_true_eq] at hover
      have hduration := limiter.duration_ge
      have hsecond : 0 < nanosPerSecond := by decide
      rcases (h.current window hfind).2.2 start hstart with rfl | hbefore <;> omega

theorem idle (h : Sound limiter client windows log time) {changed : RateWindows}
    {answered : Answered} (hfind : changed.find client = windows.find client)
    (hadmits : ¬ answered.Admits client) :
    Sound limiter client changed (log ++ [answered]) time := by
  have hstart (start : ℕ) :
      IsStart (log ++ [answered]) client start ↔ IsStart log client start := by
    rw [isStart_concat]
    exact or_iff_left fun h ↦ hadmits h.1
  have hcount (start : ℕ) :
      admittedInto (log ++ [answered]) client start = admittedInto log client start := by
    unfold admittedInto
    rw [countP_append, countP_singleton, if_neg fun h ↦ hadmits (of_decide_eq_true h).1]
    rfl
  refine ⟨fun other hother ↦ ?_, ?_, ?_, ?_, ?_⟩
  · rcases mem_append.mp hother with hold | hnew
    · exact h.started other hold
    · rw [mem_singleton.mp hnew]
      exact fun h ↦ absurd h hadmits
  · simpa only [hcount] using h.bounded
  · simpa only [hstart] using h.apart
  · simpa only [hstart, hcount, hfind] using h.current
  · simpa only [hstart, hfind] using h.past

theorem admitRequest (h : Sound limiter client windows log now) {window : RateWindow}
    (hkey : window.clientKey = client) (hstarted : window.started ≤ now)
    (hlive : now < window.started + limiter.duration)
    (hcount : window.requests = admittedInto log client window.started)
    (hothers : ∀ start, IsStart log client start →
      start = window.started ∨ start + limiter.duration ≤ window.started)
    (hroom : window.requests < limiter.limit) :
    Sound limiter client (windows.upsert { window with requests := window.requests + 1 })
      (log ++ [⟨client, now, none, some window.started⟩]) now := by
  have hstart (start : ℕ) :
      IsStart (log ++ [⟨client, now, none, some window.started⟩]) client start ↔
        IsStart log client start ∨ start = window.started := by
    rw [isStart_concat, and_iff_right ⟨rfl, rfl⟩, some_inj]
    exact or_congr_right eq_comm
  have hinto (start : ℕ) :
      admittedInto (log ++ [⟨client, now, none, some window.started⟩]) client start =
        admittedInto log client start + if start = window.started then 1 else 0 := by
    unfold admittedInto
    rw [countP_append, countP_singleton]
    simp only [Answered.Admits, and_self, true_and, some_inj, decide_eq_true_eq]
    simp only [eq_comm]
  have hfind : (windows.upsert { window with requests := window.requests + 1 }).find client =
      some { window with requests := window.requests + 1 } := by
    rw [find_upsert, if_pos hkey]
  refine ⟨fun other hother ↦ ?_, fun start ↦ ?_, fun first second ↦ ?_, ?_, ?_⟩
  · rcases mem_append.mp hother with hold | hnew
    · exact h.started other hold
    · rw [mem_singleton.mp hnew]
      exact fun _ ↦ ⟨_, rfl, hstarted, hlive⟩
  · rw [hinto]
    split_ifs with heq
    · rw [heq, ← hcount]
      exact hroom
    · exact h.bounded start
  · rw [hstart, hstart]
    rintro (hfirst | rfl) (hsecond | rfl)
    · exact h.apart first second hfirst hsecond
    · exact (hothers first hfirst).imp_right .inl
    · exact (hothers second hsecond).imp Eq.symm .inr
    · exact .inl rfl
  · rw [hfind]
    rintro _ ⟨⟩
    refine ⟨hstarted, ?_, fun start ↦ ?_⟩
    · rw [hinto, if_pos rfl, ← hcount]
    · rw [hstart]
      exact fun h ↦ h.elim (hothers start) .inl
  · intro hnone
    rw [hfind] at hnone
    exact absurd hnone (some_ne_none _)

theorem window (h : Sound limiter client (limiter.live windows now) log now) {window : RateWindow}
    (hwindow : (limiter.live windows now).find client = some window ∨
      (limiter.live windows now).find client = none ∧ window = ⟨client, now, 0⟩) :
    window.clientKey = client ∧ window.started ≤ now ∧ now < window.started + limiter.duration ∧
      window.requests = admittedInto log client window.started ∧
      ∀ start, IsStart log client start →
        start = window.started ∨ start + limiter.duration ≤ window.started := by
  have hduration := limiter.duration_ge
  have hsecond : 0 < nanosPerSecond := by decide
  rcases hwindow with hfound | ⟨hnone, rfl⟩
  · obtain ⟨hstarted, hcount, hothers⟩ := h.current window hfound
    have hkey := (find_eq_some.mp hfound).2
    rw [find_live, filter_eq_some_iff, decide_eq_true_eq] at hfound
    exact ⟨hkey, hstarted, by omega, hcount, hothers⟩
  · refine ⟨rfl, le_rfl, Nat.lt_add_of_pos_right (hsecond.trans_le hduration), (countP_eq_zero.mpr fun answered hanswered hinto ↦ ?_).symm,
      fun start hstart ↦ .inr (h.past hnone start hstart)⟩
    have hpast := h.past hnone now ⟨answered, hanswered, of_decide_eq_true hinto⟩
    omega

theorem serve {state : RateWindows × List Answered}
    (h : Sound limiter client state.1 state.2 time) {request : Text × ℕ} (hnow : time ≤ request.2) :
    Sound limiter client (limiter.serve state request).1 (limiter.serve state request).2
      request.2 := by
  have hlive := h.expire hnow
  unfold RequestRateLimiter.serve
  rcases retryAfterSeconds_cases limiter state.1 request.1 request.2 with
    ⟨-, -, seconds, -, hresult⟩ | ⟨window, hwindow, hroom, hresult⟩ |
    ⟨window, hwindow, seconds, -, hresult⟩
  · rw [hresult]
    exact hlive.idle rfl fun h ↦ some_ne_none _ h.2
  · rw [hresult]
    by_cases hclient : request.1 = client
    · rw [hclient] at hwindow ⊢
      obtain ⟨hkey, hstarted, hover, hcount, hothers⟩ :=
        hlive.window (hwindow.imp_right fun h ↦ ⟨h.1, h.2.1⟩)
      dsimp only
      rw [find_upsert, if_pos hkey]
      exact hlive.admitRequest hkey hstarted hover hcount hothers hroom
    · have hkey := clientKey_of_window hwindow
      refine hlive.idle ?_ fun h ↦ hclient h.1
      rw [find_upsert, if_neg fun h ↦ hclient (hkey.symm.trans h)]
  · rw [hresult]
    refine hlive.idle ?_ fun h ↦ some_ne_none _ h.2
    rw [find_upsert]
    split_ifs with hclient
    · rw [← hclient, (find_eq_some.mp hwindow).2, hwindow]
    · rfl

end Sound

/-! ### Whole runs -/

/-- The requests come in the order of their times. -/
def InOrder (requests : List (Text × ℕ)) : Prop := requests.Pairwise fun a b ↦ a.2 ≤ b.2

instance (requests : List (Text × ℕ)) : Decidable (InOrder requests) :=
  inferInstanceAs (Decidable (requests.Pairwise fun a b ↦ a.2 ≤ b.2))

theorem inOrder_concat {requests : List (Text × ℕ)} {request : Text × ℕ} :
    InOrder (requests ++ [request]) ↔
      InOrder requests ∧ ∀ earlier ∈ requests, earlier.2 ≤ request.2 := by
  simp only [InOrder, pairwise_append, pairwise_singleton, mem_singleton, forall_eq, true_and]

theorem sound_serveAll (limiter : RequestRateLimiter) (client : Text)
    (requests : List (Text × ℕ)) : InOrder requests →
    ∀ time, (∀ request ∈ requests, request.2 ≤ time) → ∃ last ≤ time,
      Sound limiter client (limiter.serveAll requests).1 (limiter.serveAll requests).2 last := by
  induction requests using List.reverseRecOn with
  | nil => exact fun _ time _ ↦ ⟨time, le_rfl, .initial limiter client time⟩
  | append_singleton requests request ih =>
    intro horder time htime
    obtain ⟨hearlier, hlast⟩ := inOrder_concat.mp horder
    obtain ⟨last, hle, hsound⟩ := ih hearlier request.2 hlast
    rw [limiter.serveAll_concat]
    exact ⟨request.2, htime request mem_concat_self, hsound.serve hle⟩

namespace Sound

variable {log : List Answered} {time : ℕ}

/-- The requests that were admitted into windows which start less than a duration apart are no more
than the limit. -/
theorem countP_le (h : Sound limiter client windows log time) (selects : Answered → Bool)
    (hadmits : ∀ answered ∈ log, selects answered = true → answered.Admits client)
    (hnear : ∀ first ∈ log, ∀ second ∈ log, selects first = true → selects second = true →
      ∀ start other, first.window = some start → second.window = some other →
        other < start + limiter.duration) :
    log.countP selects ≤ limiter.limit := by
  by_cases hany : ∃ answered ∈ log, selects answered = true
  · obtain ⟨first, hfirst, hselected⟩ := hany
    obtain ⟨start, hstart, -⟩ := h.started first hfirst (hadmits first hfirst hselected)
    refine (countP_mono_left fun second hsecond hother ↦ ?_).trans (h.bounded start)
    obtain ⟨other, hwindow, -⟩ := h.started second hsecond (hadmits second hsecond hother)
    have hforth := hnear first hfirst second hsecond hselected hother start other hstart hwindow
    have hback := hnear second hsecond first hfirst hother hselected other start hwindow hstart
    have hsame := h.apart start other ⟨first, hfirst, hadmits first hfirst hselected, hstart⟩
      ⟨second, hsecond, hadmits second hsecond hother, hwindow⟩
    have hstarts : other = start := by omega
    exact decide_eq_true ⟨hadmits second hsecond hother, hstarts ▸ hwindow⟩
  · push Not at hany
    rw [countP_eq_zero.mpr hany]
    exact Nat.zero_le _

/-- Two windows at most reach into an interval: one that started before it, and one within. -/
theorem admittedWithin_le (h : Sound limiter client windows log time) (first : ℕ) :
    admittedWithin log client first (first + limiter.duration) ≤ 2 * limiter.limit := by
  let selects : Answered → Bool := fun answered ↦
    decide (answered.Admits client ∧ first ≤ answered.time ∧
      answered.time ≤ first + limiter.duration)
  let early : Answered → Bool := fun answered ↦ answered.window.all fun start ↦ start ≤ first
  have hsplit : log.countP selects = (log.filter early).countP selects +
      (log.filter fun answered ↦ !early answered).countP selects :=
    countP_eq_countP_filter_add log selects early
  rw [countP_filter, countP_filter] at hsplit
  -- A window that reaches into the interval starts less than a duration before it, or within it.
  have hreach {answered : Answered} (hmem : answered ∈ log) (hselects : selects answered = true)
      {start : ℕ} (hstart : answered.window = some start) :
      first < start + limiter.duration ∧ start ≤ first + limiter.duration := by
    obtain ⟨hadmits, hfrom, hto⟩ := of_decide_eq_true hselects
    obtain ⟨other, hwindow, hafter, hbefore⟩ := h.started answered hmem hadmits
    obtain rfl := Option.some_inj.mp (hstart.symm.trans hwindow)
    omega
  have hbefore := h.countP_le (fun answered ↦ selects answered && early answered)
    (fun answered _ hboth ↦ (of_decide_eq_true (Bool.and_eq_true_iff.mp hboth).1).1)
    fun a ha b hb hboth hother start other hstart hwindow ↦ by
      obtain ⟨hselects, -⟩ := Bool.and_eq_true_iff.mp hboth
      obtain ⟨-, hearly⟩ := Bool.and_eq_true_iff.mp hother
      have hle : other ≤ first := by simpa [early, hwindow] using hearly
      exact hle.trans_lt (hreach ha hselects hstart).1
  have hwithin := h.countP_le (fun answered ↦ selects answered && !early answered)
    (fun answered _ hboth ↦ (of_decide_eq_true (Bool.and_eq_true_iff.mp hboth).1).1)
    fun a ha b hb hboth hother start other hstart hwindow ↦ by
      obtain ⟨-, hlate⟩ := Bool.and_eq_true_iff.mp hboth
      obtain ⟨hselects, -⟩ := Bool.and_eq_true_iff.mp hother
      have hlt : first < start := by simpa [early, hstart] using hlate
      have hle := (hreach hb hselects hwindow).2
      omega
  calc admittedWithin log client first (first + limiter.duration)
      = log.countP selects := rfl
    _ ≤ 2 * limiter.limit := by omega

end Sound

/-- No request makes the limiter track more clients than it may, and every refusal is answered with
a second at least. -/
theorem retryAfterSeconds_bounds (limiter : RequestRateLimiter) {windows : RateWindows}
    (hrows : windows.rows.length ≤ maxTrackedClients) (client : Text) (now : ℕ) :
    (limiter.retryAfterSeconds windows client now).1.rows.length ≤ maxTrackedClients ∧
      ∀ seconds, (limiter.retryAfterSeconds windows client now).2 = some seconds → 1 ≤ seconds := by
  have hlive : (limiter.live windows now).rows.length ≤ maxTrackedClients :=
    (length_filter_le _ _).trans hrows
  rcases retryAfterSeconds_cases limiter windows client now with
    ⟨-, -, wait, hwait, hresult⟩ | ⟨window, hwindow, -, hresult⟩ |
    ⟨window, hwindow, wait, hwait, hresult⟩
  · rw [hresult]
    exact ⟨hlive, fun seconds h ↦ Option.some_inj.mp h ▸ hwait⟩
  · rw [hresult]
    refine ⟨?_, fun seconds h ↦ absurd h.symm (some_ne_none _)⟩
    rcases hwindow with hfound | ⟨-, -, hroom⟩
    · have hkey := (find_eq_some.mp hfound).2
      exact (length_upsert_le_of_find (hkey.symm ▸ hfound)).trans hlive
    · exact (length_upsert_le _ _).trans hroom
  · rw [hresult]
    have hkey := (find_eq_some.mp hwindow).2
    exact ⟨(length_upsert_le_of_find (hkey.symm ▸ hwindow)).trans hlive,
      fun seconds h ↦ Option.some_inj.mp h ▸ hwait⟩

theorem serveAll_bounds (limiter : RequestRateLimiter) (requests : List (Text × ℕ)) :
    (limiter.serveAll requests).1.rows.length ≤ maxTrackedClients ∧
      ∀ answered ∈ (limiter.serveAll requests).2, ∀ seconds,
        answered.answer = some seconds → 1 ≤ seconds := by
  induction requests using List.reverseRecOn with
  | nil => exact ⟨Nat.zero_le _, fun _ h ↦ absurd h not_mem_nil⟩
  | append_singleton requests request ih =>
    rw [limiter.serveAll_concat]
    obtain ⟨hrows, hseconds⟩ := retryAfterSeconds_bounds limiter ih.1 request.1 request.2
    refine ⟨hrows, fun answered hanswered ↦ ?_⟩
    rcases mem_append.mp hanswered with hold | hnew
    · exact ih.2 answered hold
    · rw [mem_singleton.mp hnew]
      exact hseconds

/-! ### Independence -/

/-- Two tables hold the same window of a client, unless it is over. -/
def Agree (limiter : RequestRateLimiter) (client : Text) (first second : RateWindows) (time : ℕ) :
    Prop :=
  ∀ now, time ≤ now → (limiter.live first now).find client = (limiter.live second now).find client

theorem agree_live (limiter : RequestRateLimiter) (client : Text) (windows : RateWindows)
    (time : ℕ) : Agree limiter client (limiter.live windows time) windows time := by
  intro now hnow
  rw [find_live, find_live, find_live, Option.filter_filter]
  congr 1
  funext window
  rw [Bool.and_eq_right_iff_imp, decide_eq_true_eq, decide_eq_true_eq]
  omega

theorem agree_of_find {first second : RateWindows} (h : first.find client = second.find client)
    (time : ℕ) : Agree limiter client first second time := by
  intro now _
  rw [find_live, find_live, h]

theorem retryAfterSeconds_congr {first second : RateWindows} {now : ℕ}
    (hfind : (limiter.live first now).find client = (limiter.live second now).find client)
    (hfirst : (limiter.live first now).find client = none →
      (limiter.live first now).rows.length < maxTrackedClients)
    (hsecond : (limiter.live second now).find client = none →
      (limiter.live second now).rows.length < maxTrackedClients) :
    (limiter.retryAfterSeconds first client now).2 =
        (limiter.retryAfterSeconds second client now).2 ∧
      (limiter.retryAfterSeconds first client now).1.find client =
        (limiter.retryAfterSeconds second client now).1.find client := by
  unfold RequestRateLimiter.retryAfterSeconds
  generalize limiter.live first now = one at *
  generalize limiter.live second now = two at *
  have hone : ¬ (maxTrackedClients ≤ one.rows.length ∧ (one.find client).isNone = true) :=
    fun h ↦ (hfirst (Option.isNone_iff_eq_none.mp h.2)).not_ge h.1
  have htwo : ¬ (maxTrackedClients ≤ two.rows.length ∧ (two.find client).isNone = true) :=
    fun h ↦ (hsecond (Option.isNone_iff_eq_none.mp h.2)).not_ge h.1
  rw [if_neg hone, if_neg htwo, ← hfind]
  generalize (one.find client).getD ⟨client, now, 0⟩ = window
  by_cases hroom : window.requests < limiter.limit
  · rw [if_pos hroom, if_pos hroom]
    exact ⟨rfl, by rw [find_upsert, find_upsert, hfind]⟩
  · rw [if_neg hroom, if_neg hroom]
    exact ⟨rfl, by rw [find_upsert, find_upsert, hfind]⟩

theorem agree_serve_other (limiter : RequestRateLimiter) (windows : RateWindows)
    {request : Text × ℕ} (hclient : request.1 ≠ client) :
    Agree limiter client (limiter.retryAfterSeconds windows request.1 request.2).1 windows
      request.2 := by
  have hother {window : RateWindow} (hkey : window.clientKey = request.1) :
      ((limiter.live windows request.2).upsert window).find client =
        (limiter.live windows request.2).find client := by
    rw [find_upsert, if_neg fun h ↦ hclient (hkey.symm.trans h)]
  intro now hnow
  rw [← agree_live limiter client windows request.2 now hnow]
  refine agree_of_find ?_ request.2 now hnow
  rcases retryAfterSeconds_cases limiter windows request.1 request.2 with
    ⟨-, -, _, -, hresult⟩ | ⟨window, hwindow, -, hresult⟩ | ⟨window, hwindow, _, -, hresult⟩
  · rw [hresult]
  · rw [hresult]
    have hkey := clientKey_of_window hwindow
    exact hother hkey
  · rw [hresult]
    exact hother (find_eq_some.mp hwindow).2

def requestsOf (requests : List (Text × ℕ)) (client : Text) : List (Text × ℕ) :=
  requests.filter fun request ↦ request.1 = client

def answersTo (log : List Answered) (client : Text) : List (Option ℕ) :=
  (log.filter fun answered ↦ answered.clientKey = client).map Answered.answer

/-- Fewer clients than may be tracked are live whenever the client makes a request. -/
def FewLive (limiter : RequestRateLimiter) (client : Text) (requests : List (Text × ℕ)) : Prop :=
  ∀ before now after, requests = before ++ (client, now) :: after →
    (limiter.live (limiter.serveAll before).1 now).rows.length < maxTrackedClients

theorem clientKey_of_mem_alone {requests : List (Text × ℕ)}
    (hrequests : ∀ request ∈ requests, request.1 = client) {window : RateWindow} :
    window ∈ (limiter.serveAll requests).1 → window.clientKey = client := by
  induction requests using List.reverseRecOn generalizing window with
  | nil => exact fun h ↦ absurd h not_mem_nil
  | append_singleton requests request ih =>
    have hold {row : RateWindow}
        (h : row ∈ limiter.live (limiter.serveAll requests).1 request.2) :
        row.clientKey = client :=
      ih (fun other hother ↦ hrequests other (mem_append_left _ hother))
        (mem_deleteWhere.mp h).1
    have hclient := hrequests request mem_concat_self
    rw [limiter.serveAll_concat, RequestRateLimiter.serve]
    intro hwindow
    rcases retryAfterSeconds_cases limiter (limiter.serveAll requests).1 request.1 request.2 with
      ⟨-, -, _, -, hresult⟩ | ⟨row, hrow, -, hresult⟩ | ⟨row, hrow, _, -, hresult⟩
    · rw [hresult] at hwindow
      exact hold hwindow
    · rw [hresult] at hwindow
      rcases mem_upsert.mp hwindow with rfl | ⟨hkept, -⟩
      · exact (clientKey_of_window hrow).trans hclient
      · exact hold hkept
    · rw [hresult] at hwindow
      rcases mem_upsert.mp hwindow with rfl | ⟨hkept, -⟩
      · exact (find_eq_some.mp hrow).2.trans hclient
      · exact hold hkept

theorem answers_eq (limiter : RequestRateLimiter) (client : Text) (requests : List (Text × ℕ)) :
    InOrder requests → FewLive limiter client requests →
    answersTo (limiter.serveAll requests).2 client =
        answersTo (limiter.serveAll (requestsOf requests client)).2 client ∧
      ∀ time, (∀ request ∈ requests, request.2 ≤ time) →
        Agree limiter client (limiter.serveAll requests).1
          (limiter.serveAll (requestsOf requests client)).1 time := by
  induction requests using List.reverseRecOn with
  | nil => exact fun _ _ ↦ ⟨rfl, fun time _ ↦ agree_of_find rfl time⟩
  | append_singleton requests request ih =>
    intro horder hfew
    obtain ⟨hearlier, hlast⟩ := inOrder_concat.mp horder
    have hbefore : FewLive limiter client requests := fun before now after h ↦
      hfew before now (after ++ [request]) (by rw [h, append_assoc, cons_append])
    obtain ⟨hanswers, hagree⟩ := ih hearlier hbefore
    have hwindow := hagree request.2 hlast
    by_cases hclient : request.1 = client
    · have hsplit : requestsOf (requests ++ [request]) client =
          requestsOf requests client ++ [request] := by
        rw [requestsOf, filter_append, filter_singleton, decide_eq_true hclient]
        rfl
      have hroom := hfew requests request.2 [] (by rw [← hclient])
      have halone : (limiter.live (limiter.serveAll (requestsOf requests client)).1
          request.2).find client = none →
          (limiter.live (limiter.serveAll (requestsOf requests client)).1 request.2).rows.length <
            maxTrackedClients := by
        intro hnone
        -- Whoever is tracked alone is the client, which is not.
        have hrows : (limiter.live (limiter.serveAll (requestsOf requests client)).1
            request.2).rows = [] :=
          eq_nil_iff_forall_not_mem.mpr fun window hmem ↦
            find_eq_none.mp hnone window hmem
              (clientKey_of_mem_alone (fun other hother ↦
                of_decide_eq_true (mem_filter.mp hother).2) (mem_deleteWhere.mp hmem).1)
        rw [hrows]
        decide
      obtain ⟨hanswer, hfind⟩ := retryAfterSeconds_congr (hwindow request.2 le_rfl)
        (fun _ ↦ hroom) halone
      rw [hsplit, limiter.serveAll_concat, limiter.serveAll_concat]
      unfold RequestRateLimiter.serve
      rw [hclient]
      refine ⟨?_, fun time _ ↦ agree_of_find hfind time⟩
      unfold answersTo at hanswers ⊢
      rw [filter_append, filter_append, map_append, map_append, hanswers]
      simp [hanswer]
    · have hsplit : requestsOf (requests ++ [request]) client = requestsOf requests client := by
        rw [requestsOf, filter_append, filter_singleton, decide_eq_false hclient]
        exact append_nil _
      rw [hsplit, limiter.serveAll_concat]
      refine ⟨?_, fun time htime now hnow ↦ ?_⟩
      · rw [← hanswers, answersTo, RequestRateLimiter.serve, filter_append,
          filter_singleton, decide_eq_false hclient]
        exact congrArg (List.map Answered.answer) (append_nil _)
      · have hlater := (htime request mem_concat_self).trans hnow
        exact (agree_serve_other limiter _ hclient now hlater).trans (hwindow now hlater)

/-! ### The limiter -/

/-- Over every run, the limiter admits at most its limit into a window of a client and twice its
limit in an interval of its duration, tracks no more clients than it may, refuses with a second at
least, and while not too many clients are live answers each client as if it were alone. -/
theorem serveAll_spec (limiter : RequestRateLimiter) (requests : List (Text × ℕ))
    (horder : InOrder requests) :
    (∀ client start, admittedInto (limiter.serveAll requests).2 client start ≤ limiter.limit) ∧
    (∀ client first, admittedWithin (limiter.serveAll requests).2 client first
      (first + limiter.duration) ≤ 2 * limiter.limit) ∧
    (limiter.serveAll requests).1.rows.length ≤ maxTrackedClients ∧
    (∀ answered ∈ (limiter.serveAll requests).2, ∀ seconds,
      answered.answer = some seconds → 1 ≤ seconds) ∧
    ∀ client, FewLive limiter client requests → answersTo (limiter.serveAll requests).2 client =
        answersTo (limiter.serveAll (requestsOf requests client)).2 client := by
  have hsound (client : Text) : ∃ last, Sound limiter client (limiter.serveAll requests).1
      (limiter.serveAll requests).2 last := by
    obtain ⟨last, -, h⟩ := sound_serveAll limiter client requests horder
      (requests.map Prod.snd).sum
      fun request hrequest ↦ le_sum_of_mem (mem_map_of_mem hrequest)
    exact ⟨last, h⟩
  obtain ⟨hrows, hseconds⟩ := serveAll_bounds limiter requests
  refine ⟨fun client start ↦ ?_, fun client first ↦ ?_, hrows, hseconds,
    fun client hfew ↦ (answers_eq limiter client requests horder hfew).1⟩
  · obtain ⟨last, h⟩ := hsound client
    exact h.bounded start
  · obtain ⟨last, h⟩ := hsound client
    exact h.admittedWithin_le first

/-- A second request in a window of one is refused, whoever comes between. -/
theorem second_request_refused :
    answersTo ((RequestRateLimiter.withProxyHeaders 1 60000000000).serveAll
      [("a", 0), ("b", 5), ("a", 10)]).2 "a" = [none, some 59] ∧
    admittedInto ((RequestRateLimiter.withProxyHeaders 1 60000000000).serveAll
      [("a", 0), ("b", 5), ("a", 10)]).2 "a" 0 ≤ 1 :=
  ⟨by decide, (serveAll_spec (.withProxyHeaders 1 60000000000)
    [("a", 0), ("b", 5), ("a", 10)] (by decide)).1 "a" 0⟩

/-! ### Coming back -/

/-- The window of a client that was refused is over a second after the time that it was told. -/
theorem find_live_of_refused {now seconds later : ℕ}
    (hstarted : ∀ window, windows.find client = some window → window.started ≤ now)
    (hrefused : (limiter.retryAfterSeconds windows client now).2 = some seconds)
    (hlater : now + (seconds + 1) * nanosPerSecond ≤ later) :
    (limiter.live (limiter.retryAfterSeconds windows client now).1 later).find client = none := by
  rcases retryAfterSeconds_cases limiter windows client now with
    ⟨-, hnone, _, -, hresult⟩ | ⟨_, -, -, hresult⟩ | ⟨window, hfind, -⟩
  · rw [hresult, find_live, hnone, filter_none]
  · cases hrefused.symm.trans (congrArg Prod.snd hresult)
  · have hkey := (find_eq_some.mp hfind).2
    have hle := hstarted window (find_eq_some.mpr
      ⟨(mem_deleteWhere.mp (find_eq_some.mp hfind).1).1, hkey⟩)
    simp only [RequestRateLimiter.retryAfterSeconds, hfind, isNone_some, Bool.false_eq_true,
      and_false, if_false, getD_some] at hrefused ⊢
    split_ifs at hrefused ⊢
    have hseconds := (le_max_left _ _).trans_eq (Option.some.inj hrefused)
    have hlt : limiter.duration - (now - window.started) < (seconds + 1) * nanosPerSecond :=
      (Nat.div_lt_iff_lt_mul (by decide)).mp (Nat.lt_succ_of_le hseconds)
    rw [find_live, find_upsert, if_pos hkey, filter_some, if_neg]
    rw [decide_eq_true_eq]
    omega

/-- A refused client that comes back a second later than it was told is admitted, whatever requests
of other clients come between, unless too many clients are tracked then. -/
theorem admitted_after_retry (limiter : RequestRateLimiter) (client : Text)
    (requests others : List (Text × ℕ)) (now seconds later : ℕ)
    (horder : InOrder (requests ++ [(client, now)]))
    (hrefused : (limiter.retryAfterSeconds (limiter.serveAll requests).1 client now).2 =
      some seconds)
    (hlater : now + (seconds + 1) * nanosPerSecond ≤ later)
    (hothers : ∀ request ∈ others, request.1 ≠ client ∧ request.2 ≤ later)
    (hfew : (limiter.live (limiter.serveAll (requests ++ (client, now) :: others)).1
      later).rows.length < maxTrackedClients) :
    (limiter.retryAfterSeconds (limiter.serveAll (requests ++ (client, now) :: others)).1 client
      later).2 = none := by
  obtain ⟨hearlier, hnow⟩ := inOrder_concat.mp horder
  obtain ⟨last, hlast, hsound⟩ := sound_serveAll limiter client requests hearlier now hnow
  have hkept (state : RateWindows × List Answered) :
      (limiter.live (others.foldl limiter.serve state).1 later).find client =
        (limiter.live state.1 later).find client := by
    clear hfew
    induction others generalizing state with
    | nil => rfl
    | cons request rest ih =>
      rw [forall_mem_cons] at hothers
      rw [foldl_cons, ih hothers.2]
      exact agree_serve_other limiter state.1 hothers.1.1 later hothers.1.2
  have hnone : (limiter.live (limiter.serveAll (requests ++ (client, now) :: others)).1
      later).find client = none := by
    rw [RequestRateLimiter.serveAll, foldl_append, foldl_cons, hkept]
    exact find_live_of_refused (fun window h ↦ (hsound.current window h).1.trans hlast) hrefused
      hlater
  rcases retryAfterSeconds_cases limiter
      (limiter.serveAll (requests ++ (client, now) :: others)).1 client later with
    ⟨hmany, -⟩ | ⟨_, -, -, hresult⟩ | ⟨_, hsome, -⟩
  · exact absurd hfew hmany.not_gt
  · rw [hresult]
  · cases hnone.symm.trans hsome

theorem admitted_after_retry_minute :
    ((RequestRateLimiter.withProxyHeaders 1 60000000000).retryAfterSeconds
      ((RequestRateLimiter.withProxyHeaders 1 60000000000).serveAll
        [("a", 0), ("a", 10), ("b", 20)]).1 "a" 60000000010).2 = none :=
  admitted_after_retry _ "a" [("a", 0)] [("b", 20)] 10 59 60000000010 (by decide) (by decide)
    (by decide) (by decide) (by decide)

end GameLauncher.Api
