import EosUpdater.UpdateServer.Server

/-!
# The idle timeout of the update server

`eos-update-server.c`: a timeout is set up when the server starts. When it is dispatched, either the
server has been idle for longer than the given number of seconds and quits, or the timeout is set up
again; requests leave it alone. How precise the timeouts of GLib are is of no account here: one that
is set up can be dispatched at any time.

The number of microseconds is an `int`, which overflows from 2148 seconds on. Up to there the server
never quits early, and not during a request unless it has lost count of its requests
(`neverEarly_iff`).
-/

namespace Eus

open Machine

/-! ### The timeout -/

/-- `TimeoutData`, with whether `g_main_loop_quit` was called. -/
structure TimeoutData where
  timeoutSeconds : Int32
  /-- `timeout_id` is the one of a source. -/
  isSet : Bool
  quit : Bool
deriving DecidableEq, Repr

/-- The right-hand side of the comparison in `no_requests_timeout`, an `int`. -/
def timeoutUsecs (seconds : Int32) : Int32 := 1000 * 1000 * seconds

/-- The left-hand side of the comparison in `no_requests_timeout`. -/
def sinceLastRequest (server : EusServer) (monotonicNow : Int64) : Int64 :=
  monotonicNow - server.lastRequestTime

/-- `no_requests_timeout`. -/
def noRequestsTimeout (server : EusServer) (seconds : Int32) (monotonicNow : Int64) : Bool :=
  -- both sides are computed in their own type before they are compared
  if server.pendingRequests > 0 then false
  else sinceLastRequest server monotonicNow > (timeoutUsecs seconds).toInt64

namespace TimeoutData

/-- `timeout_data_setup_timeout`. -/
def setupTimeout (data : TimeoutData) : TimeoutData :=
  { data with isSet := data.timeoutSeconds > 0 }

/-- `timeout_data_init`, without a quit file. -/
def init (timeoutSeconds : Int32) : TimeoutData := setupTimeout ⟨timeoutSeconds, false, false⟩

/-- `timeout_cb`. -/
def timeoutCb (data : TimeoutData) (server : EusServer) (monotonicNow : Int64) : TimeoutData :=
  if !noRequestsTimeout server data.timeoutSeconds monotonicNow then data.setupTimeout
  else { data with quit := true, isSet := false }

end TimeoutData

/-! ### The main loop -/

variable {μ : Type} [DecidableEq μ]

/-- The server and its timeout, and the last reading of the monotonic clock. -/
structure MainLoop (μ : Type) where
  requests : ServerState μ
  timeout : TimeoutData
  monotonicTime : Int64

/-- What the main loop dispatches: a signal of libsoup, or the timeout. -/
inductive MainEvent (μ : Type)
  | request (emission : Emission μ)
  | timeout (monotonicNow : Int64)

namespace MainLoop

/-- A server that has been started, with no request so far. -/
def Started (seconds : Int32) (s : MainLoop μ) : Prop :=
  s.requests.Initial ∧ s.timeout = .init seconds ∧ 0 ≤ s.monotonicTime

/-- The main loop dispatches an event. The clock does not go back. -/
def step (s : MainLoop μ) : MainEvent μ → Option (MainLoop μ)
  | .request emission => do
      guard (s.monotonicTime ≤ emission.monotonicTime)
      let requests ← s.requests.step emission
      return { s with requests, monotonicTime := emission.monotonicTime }
  | .timeout monotonicNow => do
      guard (s.monotonicTime ≤ monotonicNow ∧ s.timeout.isSet = true)
      let server ← s.requests.server
      return { s with
        timeout := s.timeout.timeoutCb server monotonicNow
        monotonicTime := monotonicNow }

/-! ### Early and in time -/

/-- When a request has started or ended. -/
def requestTime (τ : Transition (MainLoop μ) (MainEvent μ)) : Option Int64 :=
  match τ.event with
  | .request emission => some emission.monotonicTime
  | .timeout _ => none

/-- No part of the comparison overflows. -/
structure NoOverflow (server : EusServer) (seconds : Int32) (monotonicNow : Int64) : Prop where
  usecs : (timeoutUsecs seconds).toInt = 1000 * 1000 * seconds.toInt
  since : (sinceLastRequest server monotonicNow).toInt =
    monotonicNow.toInt - server.lastRequestTime.toInt

/-- The timeout makes the loop quit. -/
def Quits (τ : Transition (MainLoop μ) (MainEvent μ)) (monotonicNow : Int64) : Prop :=
  τ.event = .timeout monotonicNow ∧ τ.before.timeout.quit = false ∧ τ.after.timeout.quit = true

/-- The comparison does not overflow, and if the timeout makes the loop quit, more than the given
number of seconds have passed since the last request has started or ended. -/
structure InTime (seconds : Int32) (past : History (MainLoop μ) (MainEvent μ))
    (τ : Transition (MainLoop μ) (MainEvent μ)) : Prop where
  noOverflow : ∀ monotonicNow server, τ.event = .timeout monotonicNow →
    τ.before.requests.server = some server → NoOverflow server seconds monotonicNow
  late : ∀ monotonicNow, Quits τ monotonicNow → ∀ time, latest requestTime past = some time →
    time.toInt + 1000 * 1000 * seconds.toInt < monotonicNow.toInt

/-- If the timeout makes the loop quit, no request is pending. -/
def QuitsIdle (τ : Transition (MainLoop μ) (MainEvent μ)) : Prop :=
  ∀ monotonicNow, Quits τ monotonicNow → τ.before.requests.pending = ∅

/-- A request that is aborted was read before. -/
def ReadBeforeAborted (τ : Transition (MainLoop μ) (MainEvent μ)) : Prop :=
  ∀ emission, τ.event = .request emission → emission.signal = .requestAborted →
    emission.message ∈ τ.before.requests.pending

/-- In every run the timeout is in time at every moment, and the server does not quit during a
request if all requests that were aborted had been read. -/
def NeverEarly (μ : Type) [DecidableEq μ] (seconds : Int32) : Prop :=
  ∀ (history : History (MainLoop μ) (MainEvent μ)) (s : MainLoop μ),
    Run (Started seconds) step history s →
    ∀ recent τ past, history = recent ++ τ :: past →
      InTime seconds past τ ∧ ((∀ τ' ∈ past, ReadBeforeAborted τ') → QuitsIdle τ)

end MainLoop

/-! ### The comparison -/

section Comparison

variable {server : EusServer} {seconds : Int32} {monotonicNow : Int64}

/-- Up to 2147 seconds the `int` does not overflow. -/
theorem toInt_timeoutUsecs (hpos : 0 < seconds) (hle : seconds.toInt ≤ 2147) :
    (timeoutUsecs seconds).toInt = 1000 * 1000 * seconds.toInt := by
  have hpos' : 0 < seconds.toInt := Int32.lt_iff_toInt_lt.1 hpos
  have hfactor : (1000 * 1000 : Int32).toInt = 1000 * 1000 := by decide
  -- 2147 million is the last multiple of a million that an `int` holds
  rw [timeoutUsecs, Int32.toInt_mul, hfactor]
  exact Int.bmod_eq_of_le (by omega) (by omega)

/-- From 2148 seconds on it is too small. -/
theorem toInt_timeoutUsecs_lt (hlt : 2147 < seconds.toInt) :
    (timeoutUsecs seconds).toInt < 1000 * 1000 * seconds.toInt := by
  -- whatever the product wraps to, it is less than 2 ^ 31
  have hbound := (timeoutUsecs seconds).toInt_lt
  omega

/-- Between readings of a clock that does not go back, the difference does not overflow. -/
theorem toInt_sinceLastRequest (hnonneg : 0 ≤ server.lastRequestTime)
    (hle : server.lastRequestTime ≤ monotonicNow) :
    (sinceLastRequest server monotonicNow).toInt =
      monotonicNow.toInt - server.lastRequestTime.toInt :=
  Int64.toInt_sub_of_le _ _ hnonneg hle

/-- When the server has been idle for long enough. -/
theorem noRequestsTimeout_iff : noRequestsTimeout server seconds monotonicNow = true ↔
    server.pendingRequests = 0 ∧
      (timeoutUsecs seconds).toInt < (sinceLastRequest server monotonicNow).toInt := by
  have hpos : server.pendingRequests > 0 ↔ server.pendingRequests ≠ 0 := by
    rw [gt_iff_lt, UInt32.lt_iff_toNat_lt, ne_eq, ← UInt32.toNat_inj]
    exact Nat.pos_iff_ne_zero
  rw [noRequestsTimeout]
  by_cases hpending : server.pendingRequests = 0
  · simp [hpending, Int64.lt_iff_toInt_lt]
  · simp [hpos, hpending]

end Comparison

namespace TimeoutData

variable (data : TimeoutData) (server : EusServer) (monotonicNow : Int64)

@[simp] theorem timeoutSeconds_timeoutCb :
    (data.timeoutCb server monotonicNow).timeoutSeconds = data.timeoutSeconds := by
  rw [timeoutCb]
  split <;> rfl

/-- The callback makes the loop quit only if the server has been idle. -/
theorem quit_timeoutCb (hbefore : data.quit = false)
    (hafter : (data.timeoutCb server monotonicNow).quit = true) :
    noRequestsTimeout server data.timeoutSeconds monotonicNow = true := by
  rw [timeoutCb] at hafter
  split at hafter
  -- setting the timeout up again does not make the loop quit
  · rw [setupTimeout, hbefore] at hafter
    cases hafter
  · next h => simpa using h

end TimeoutData

namespace MainLoop

variable {seconds : Int32} {history past : History (MainLoop μ) (MainEvent μ)}
variable {s t : MainLoop μ} {emission : Emission μ} {monotonicNow : Int64}
variable {τ : Transition (MainLoop μ) (MainEvent μ)}

/-! ### What an event does -/

/-- What a request does to the server. -/
theorem request_cases (h : s.step (.request emission) = some t) :
    s.monotonicTime ≤ emission.monotonicTime ∧ ∃ requests,
      s.requests.step emission = some requests ∧
      t = { s with requests, monotonicTime := emission.monotonicTime } := by
  simp only [step, Option.bind_eq_bind, Option.bind_eq_some_iff, Option.guard_eq_some',
    exists_const] at h
  obtain ⟨hle, requests, hrequests, heq⟩ := h
  exact ⟨hle, requests, hrequests, (Option.some_inj.1 heq).symm⟩

/-- What the timeout does to the server. -/
theorem timeout_cases (h : s.step (.timeout monotonicNow) = some t) :
    s.monotonicTime ≤ monotonicNow ∧ ∃ server, s.requests.server = some server ∧
      t = { s with
        timeout := s.timeout.timeoutCb server monotonicNow
        monotonicTime := monotonicNow } := by
  simp only [step, Option.bind_eq_bind, Option.bind_eq_some_iff, Option.guard_eq_some',
    exists_const] at h
  obtain ⟨⟨hle, -⟩, server, hserver, heq⟩ := h
  exact ⟨hle, server, hserver, (Option.some_inj.1 heq).symm⟩

/-! ### The server between the events -/

/-- The handlers of the signals note the time. -/
theorem lastRequestTime_handle {server server' : EusServer} {monotonicTime : Int64}
    {signal : Signal} (h : signal.handle server monotonicTime = some server') :
    server'.lastRequestTime = monotonicTime := by
  have hupdate : ∀ increment, updatePendingRequests server increment monotonicTime = some server' →
      server'.lastRequestTime = monotonicTime := by
    intro increment hupdate
    rw [updatePendingRequests, Option.ite_none_right_eq_some] at hupdate
    rw [← Option.some_inj.1 hupdate.2]
  cases signal with
  | requestRead => exact hupdate true h
  | requestFinished => exact hupdate false h
  | requestAborted => exact hupdate false h

/-- A signal keeps the count exact, unless a request is aborted that was not read. A request that
is one too many makes the assertion fail. -/
theorem exact_request {requests requests' : ServerState μ} {server' : EusServer}
    (hexact : requests.Exact) (hstep : requests.step emission = some requests')
    (hserver' : requests'.server = some server')
    (hread : emission.signal = .requestAborted → emission.message ∈ requests.pending) :
    requests'.Exact := by
  refine (ServerState.exact_step_iff hexact hstep).2 ⟨hread, fun hsignal => ?_⟩
  obtain ⟨server, hserver, hcount⟩ := hexact
  obtain ⟨server₁, stage, hserver₁, -, rfl⟩ := ServerState.step_cases hstep
  obtain rfl := Option.some_inj.1 (hserver₁.symm.trans hserver)
  have hincrement : updatePendingRequests server₁ true emission.monotonicTime = some server' := by
    rw [← hserver', hsignal]
    rfl
  show requests.pending.encard < (2 ^ 32 - 1 : ℕ)
  rw [hcount]
  exact_mod_cast (exists_increment_iff server₁ emission.monotonicTime).1 ⟨server', hincrement⟩

/-- What holds between the events, as long as no assertion has failed: the server has noted when the
last request has started or ended. -/
structure Consistent (seconds : Int32) (history : History (MainLoop μ) (MainEvent μ))
    (s : MainLoop μ) : Prop where
  timeoutSeconds : s.timeout.timeoutSeconds = seconds
  monotonicTime : 0 ≤ s.monotonicTime
  nonneg : ∀ server, s.requests.server = some server → 0 ≤ server.lastRequestTime
  noted : ∀ server, s.requests.server = some server → server.lastRequestTime ≤ s.monotonicTime
  isLatest : ∀ server, s.requests.server = some server →
    ∀ time, latest requestTime history = some time → server.lastRequestTime = time

omit [DecidableEq μ] in
/-- At the start the timeout is consistent. -/
theorem Started.consistent (h : Started seconds s) : Consistent seconds [] s := by
  obtain ⟨hrequests, htimeout, hnonneg⟩ := h
  have hinit : ∀ server, s.requests.server = some server → server.lastRequestTime = 0 := by
    intro server hserver
    rw [← Option.some_inj.1 (hrequests.1.symm.trans hserver)]
    rfl
  refine ⟨by rw [htimeout]; rfl, hnonneg, fun server hserver => ?_, fun server hserver => ?_,
    fun _ _ _ hnone => by cases hnone⟩
  · rw [hinit server hserver]
    exact Int64.le_refl 0
  · rw [hinit server hserver]
    exact hnonneg

/-- **One event.** -/
theorem Consistent.step (h : Consistent seconds history s) {event : MainEvent μ}
    (hstep : s.step event = some t) : Consistent seconds (⟨s, event, t⟩ :: history) t := by
  cases event with
  | request emission =>
      obtain ⟨hle, requests, hrequests, rfl⟩ := request_cases hstep
      have hnonneg := Int64.le_trans h.monotonicTime hle
      obtain ⟨server, stage, hserver, -, heq⟩ := ServerState.step_cases hrequests
      -- the handler notes the time of the signal, which is the latest reading of the clock
      have htime : ∀ server', requests.server = some server' →
          server'.lastRequestTime = emission.monotonicTime := by
        intro server' hserver'
        rw [heq] at hserver'
        exact lastRequestTime_handle hserver'
      refine ⟨h.timeoutSeconds, hnonneg, fun server' hserver' => ?_, fun server' hserver' => ?_,
        fun server' hserver' time htime' => ?_⟩
      · rw [htime server' hserver']
        exact hnonneg
      · rw [htime server' hserver']
        exact Int64.le_refl _
      · rw [latest_cons_of_some (b := emission.monotonicTime) rfl] at htime'
        rw [htime server' hserver', Option.some_inj.1 htime']
  | timeout monotonicNow =>
      obtain ⟨hle, server, hserver, rfl⟩ := timeout_cases hstep
      refine ⟨?_, Int64.le_trans h.monotonicTime hle, h.nonneg, fun server' hserver' => ?_,
        fun server' hserver' time htime => ?_⟩
      · rw [TimeoutData.timeoutSeconds_timeoutCb]
        exact h.timeoutSeconds
      · exact Int64.le_trans (h.noted server' hserver') hle
      -- the timeout is no request
      · rw [latest_cons_of_none rfl] at htime
        exact h.isLatest server' hserver' time htime

/-- **Runs.** -/
theorem consistent_of_run (hrun : Run (Started seconds) step history s) :
    Consistent seconds history s := by
  induction hrun with
  | start hstarted => exact hstarted.consistent
  | next _ hstep ih => exact ih.step hstep

/-- In a run in which all requests that were aborted had been read, the count is exact, unless an
assertion has failed. -/
theorem exact_of_run (hrun : Run (Started seconds) step history s)
    (hread : ∀ τ ∈ history, ReadBeforeAborted τ) {server : EusServer}
    (hserver : s.requests.server = some server) : s.requests.Exact := by
  induction hrun generalizing server with
  | start hstarted => exact hstarted.1.exact
  | @next history s t event hrun hstep ih =>
      rw [List.forall_mem_cons] at hread
      cases event with
      | request emission =>
          obtain ⟨-, requests, hrequests, rfl⟩ := request_cases hstep
          obtain ⟨server₁, -, hserver₁, -, -⟩ := ServerState.step_cases hrequests
          exact exact_request (ih hread.2 hserver₁) hrequests hserver (hread.1 emission rfl)
      | timeout monotonicNow =>
          obtain ⟨-, server₁, hserver₁, rfl⟩ := timeout_cases hstep
          exact ih hread.2 hserver₁

/-! ### The timeout in time -/

/-- When the timeout makes the loop quit, the server has counted no request and waited for long
enough. -/
theorem Consistent.idle (h : Consistent seconds past τ.before)
    (hstep : τ.before.step τ.event = some τ.after) (hquits : Quits τ monotonicNow) :
    ∃ server, τ.before.requests.server = some server ∧ server.pendingRequests = 0 ∧
      (timeoutUsecs seconds).toInt < (sinceLastRequest server monotonicNow).toInt := by
  obtain ⟨hevent, hbefore, hafter⟩ := hquits
  rw [hevent] at hstep
  obtain ⟨-, server, hserver, heq⟩ := timeout_cases hstep
  rw [heq] at hafter
  have hidle := TimeoutData.quit_timeoutCb _ _ _ hbefore hafter
  rw [h.timeoutSeconds] at hidle
  exact ⟨server, hserver, noRequestsTimeout_iff.1 hidle⟩

/-- The callback, between consistent states. -/
theorem Consistent.inTime (h : Consistent seconds past τ.before)
    (hstep : τ.before.step τ.event = some τ.after) (hpos : 0 < seconds)
    (hle : seconds.toInt ≤ 2147) : InTime seconds past τ := by
  have hnoOverflow : ∀ monotonicNow server, τ.event = .timeout monotonicNow →
      τ.before.requests.server = some server → NoOverflow server seconds monotonicNow := by
    intro monotonicNow server hevent hserver
    rw [hevent] at hstep
    have hclock := (timeout_cases hstep).1
    exact ⟨toInt_timeoutUsecs hpos hle, toInt_sinceLastRequest (h.nonneg server hserver)
      (Int64.le_trans (h.noted server hserver) hclock)⟩
  refine ⟨hnoOverflow, fun monotonicNow hquits time htime => ?_⟩
  obtain ⟨server, hserver, -, hlt⟩ := h.idle hstep hquits
  -- nothing overflows, so the comparison is the one of the numbers
  have hexact := hnoOverflow monotonicNow server hquits.1 hserver
  rw [hexact.usecs, hexact.since, h.isLatest server hserver time htime] at hlt
  omega

/-- A count that is exact is zero only if no request is pending. -/
theorem Consistent.quitsIdle (h : Consistent seconds past τ.before)
    (hstep : τ.before.step τ.event = some τ.after)
    (hexact : ∀ server, τ.before.requests.server = some server → τ.before.requests.Exact) :
    QuitsIdle τ := by
  intro monotonicNow hquits
  obtain ⟨server, hserver, hzero, -⟩ := h.idle hstep hquits
  obtain ⟨server', hserver', hcount⟩ := hexact server hserver
  rw [← Option.some_inj.1 (hserver.symm.trans hserver'), hzero] at hcount
  exact Set.encard_eq_zero.1 hcount

/-- A server that has just been started. -/
def started (μ : Type) (seconds : Int32) : MainLoop μ :=
  ⟨⟨some .init, fun _ => .new⟩, .init seconds, 0⟩

omit [DecidableEq μ] in
theorem started_started (seconds : Int32) : Started seconds (started μ seconds) :=
  ⟨⟨rfl, fun _ => rfl⟩, rfl, Int64.le_refl 0⟩

/-- **The idle timeout.** In every run the server does not quit early, not during a request unless
it has lost count of the requests, and the comparison does not overflow, exactly if the timeout is
at most 2147 seconds. -/
theorem neverEarly_iff (seconds : Int32) (hpos : 0 < seconds) :
    NeverEarly μ seconds ↔ seconds.toInt ≤ 2147 := by
  constructor
  · intro hnever
    by_contra hlong
    have hset : (TimeoutData.init seconds).isSet = true := decide_eq_true hpos
    -- the first time that the timeout is dispatched
    have hstep : (started μ seconds).step (.timeout 0) = some
        { started μ seconds with
          timeout := (TimeoutData.init seconds).timeoutCb .init 0, monotonicTime := 0 } := by
      simp [step, started, hset]
    -- the product is already wrong then
    have hinTime := (hnever _ _ (.next (.start (started_started seconds)) hstep) [] _ [] rfl).1
    have husecs := (hinTime.noOverflow 0 .init rfl rfl).usecs
    have hlt := toInt_timeoutUsecs_lt (not_le.1 hlong)
    omega
  · rintro hle history s hrun recent τ past rfl
    obtain ⟨hpast, hstep⟩ := hrun.transition
    have hconsistent := consistent_of_run hpast
    exact ⟨hconsistent.inTime hstep hpos hle, fun hread =>
      hconsistent.quitsIdle hstep fun _ hserver => exact_of_run hpast hread hserver⟩

/-- The timeout that is used unless another one is given. -/
theorem neverEarly_default : NeverEarly ℕ 200 := (neverEarly_iff 200 (by decide)).2 (by decide)

/-- A request that is over 2147 seconds after the server has been started with a timeout of 2148
seconds. The timeout is dispatched two seconds later. -/
def longTimeout : List (MainEvent ℕ) :=
  [.request ⟨0, .requestRead, 2146000000⟩, .request ⟨0, .requestFinished, 2147000000⟩,
    .timeout 2149000000]

/-- One client that has a request, and another one that disconnects before its request could be
read. -/
def lostRequest : List (MainEvent ℕ) :=
  [.request ⟨0, .requestRead, 1000000⟩, .request ⟨1, .requestAborted, 2000000⟩,
    .timeout 203000000]

/-- The server quits two seconds after a request, and it quits during a request. -/
theorem quits_early :
    (exec step [] (started ℕ 2148) longTimeout).map (·.2.timeout.quit) = some true ∧
      (exec step [] (started ℕ 200) lostRequest).map
        (fun run => (run.2.timeout.quit, run.2.requests.stage 0)) = some (true, .read) ∧
      ¬ ∀ seconds : Int32, 0 < seconds → ∀ history (s : MainLoop ℕ),
        Run (Started seconds) step history s →
          ∀ recent τ past, history = recent ++ τ :: past →
            InTime seconds past τ ∧ QuitsIdle τ := by
  refine ⟨by decide +kernel, by decide +kernel, fun hall => ?_⟩
  -- what the transitions of the first run look like, the most recent one first
  have hseen : (exec step [] (started ℕ 2148) longTimeout).map (fun run => run.1.map fun τ =>
      (requestTime τ, τ.before.timeout.quit, τ.after.timeout.quit, τ.after.monotonicTime)) =
      some [(none, false, true, 2149000000), (some 2147000000, false, false, 2147000000),
        (some 2146000000, false, false, 2146000000)] := by
    decide +kernel
  obtain ⟨⟨history, s⟩, hexec, hhistory⟩ := Option.map_eq_some_iff.1 hseen
  have hrun := Run.of_exec (.start (started_started 2148)) hexec
  obtain ⟨τ, past, rfl, hτ, hpast⟩ := List.map_eq_cons_iff.1 hhistory
  obtain ⟨τ', past', rfl, hτ', -⟩ := List.map_eq_cons_iff.1 hpast
  obtain ⟨hnone, hbefore, hafter, hclock⟩ : requestTime τ = none ∧ τ.before.timeout.quit = false ∧
    τ.after.timeout.quit = true ∧ τ.after.monotonicTime = 2149000000 := by simpa using hτ
  have hlast : latest requestTime (τ' :: past') = some 2147000000 :=
    latest_cons_of_some (congrArg Prod.fst hτ')
  have hstep := (show Run (Started 2148) step ([] ++ τ :: τ' :: past') s from hrun).transition.2
  cases hevent : τ.event with
  | request emission => simp [requestTime, hevent] at hnone
  | timeout monotonicNow =>
      rw [hevent] at hstep
      obtain ⟨-, server, -, heq⟩ := timeout_cases hstep
      rw [heq] at hclock
      have hinTime := (hall 2148 (by decide) _ _ hrun [] τ _ rfl).1
      have hlt := hinTime.late monotonicNow ⟨hevent, hbefore, hafter⟩ _ hlast
      rw [show monotonicNow = 2149000000 from hclock] at hlt
      exact absurd hlt (by decide)

end MainLoop

end Eus
