import EosUpdater.Machine.Run
import Mathlib.Data.Set.Card

/-!
# The pending requests of the update server

`server.c` of the update server: how the signals of libsoup count the requests that are pending.

A request begins with its message. It is read, and then it is finished or aborted; if it cannot be
read, it is only aborted. `EusServer` counts up when a request has been read and down when it has
been finished or aborted, so a request that is aborted without having been read is subtracted
without having been added. Otherwise the counter is exact (`pendingRequests_exact_iff`).
-/

namespace Eus

open Machine

/-! ### The server -/

/-- What the signal handlers of an `EusServer` change. -/
structure EusServer where
  pendingRequests : UInt32
  lastRequestTime : Int64
deriving DecidableEq, Repr

/-- `eus_server_init`. -/
def EusServer.init : EusServer := ⟨0, 0⟩

/-- `G_MAXUINT`. -/
def maxUint : UInt32 := 0xffffffff

/-- `update_pending_requests`. There is nothing left if its assertion fails. -/
def updatePendingRequests (server : EusServer) (increment : Bool) (monotonicTime : Int64) :
    Option EusServer :=
  -- the assertion is on the counter before the change
  if if increment then server.pendingRequests < maxUint else server.pendingRequests > 0 then
    some {
      pendingRequests :=
        if increment then server.pendingRequests + 1 else server.pendingRequests - 1
      lastRequestTime := monotonicTime }
  else none

/-- The signals of `SoupServer` for a message that an `EusServer` is connected to. -/
inductive Signal
  | requestRead
  | requestFinished
  | requestAborted
deriving DecidableEq, Repr

/-- `request_read_cb`, `request_finished_cb` and `request_aborted_cb`. -/
def Signal.handle (server : EusServer) (monotonicTime : Int64) : Signal → Option EusServer
  | .requestRead => updatePendingRequests server true monotonicTime
  | .requestFinished => updatePendingRequests server false monotonicTime
  | .requestAborted => updatePendingRequests server false monotonicTime

/-- A request more is counted. -/
theorem updatePendingRequests_increment {server server' : EusServer} {monotonicTime : Int64}
    (h : updatePendingRequests server true monotonicTime = some server') :
    server'.pendingRequests.toNat = server.pendingRequests.toNat + 1 := by
  simp only [updatePendingRequests, if_true, Option.ite_none_right_eq_some] at h
  obtain ⟨hlt, heq⟩ := h
  have hnat : server.pendingRequests.toNat < 2 ^ 32 - 1 := UInt32.lt_iff_toNat_lt.1 hlt
  rw [← Option.some_inj.1 heq, UInt32.toNat_add]
  exact Nat.mod_eq_of_lt (by simpa using by omega)

/-- A request less is counted. -/
theorem updatePendingRequests_decrement {server server' : EusServer} {monotonicTime : Int64}
    (h : updatePendingRequests server false monotonicTime = some server') :
    server'.pendingRequests.toNat + 1 = server.pendingRequests.toNat := by
  simp only [updatePendingRequests, Bool.false_eq_true, if_false,
    Option.ite_none_right_eq_some] at h
  obtain ⟨hpos, heq⟩ := h
  have hnat : 0 < server.pendingRequests.toNat := UInt32.lt_iff_toNat_lt.1 hpos
  rw [← Option.some_inj.1 heq, UInt32.toNat_sub_of_le]
  · simpa using by omega
  · exact UInt32.le_iff_toNat_le.2 (by simpa using Nat.succ_le_of_lt hnat)

/-- A request can be added exactly if the count does not wrap around. -/
theorem exists_increment_iff (server : EusServer) (monotonicTime : Int64) :
    (∃ server', updatePendingRequests server true monotonicTime = some server') ↔
      server.pendingRequests.toNat < 2 ^ 32 - 1 := by
  simp [updatePendingRequests, UInt32.lt_iff_toNat_lt, maxUint]

/-- A request can be taken off exactly if there is one. -/
theorem exists_decrement_iff (server : EusServer) (monotonicTime : Int64) :
    (∃ server', updatePendingRequests server false monotonicTime = some server') ↔
      0 < server.pendingRequests.toNat := by
  simp [updatePendingRequests, UInt32.lt_iff_toNat_lt]

/-! ### Requests -/

/-- How far a request is. -/
inductive Stage
  | new
  | read
  | ended
deriving DecidableEq, Repr

/-- The signals in the order in which libsoup documents them for a message. -/
def Stage.next : Stage → Signal → Option Stage
  | .new, .requestRead => some .read
  | .new, .requestAborted => some .ended
  | .read, .requestFinished => some .ended
  | .read, .requestAborted => some .ended
  | _, _ => none

variable {μ : Type} [DecidableEq μ]

/-- A server, unless an assertion has failed, and how far the request of each message is. -/
structure ServerState (μ : Type) where
  server : Option EusServer
  stage : μ → Stage

/-- A signal that is emitted, and the clock when it is handled. -/
structure Emission (μ : Type) where
  message : μ
  signal : Signal
  monotonicTime : Int64

namespace ServerState

/-- A new server, before the first request. -/
def Initial (s : ServerState μ) : Prop := s.server = some .init ∧ ∀ message, s.stage message = .new

/-- Libsoup emits a signal. -/
def step (s : ServerState μ) (emission : Emission μ) : Option (ServerState μ) := do
  let server ← s.server
  let stage ← (s.stage emission.message).next emission.signal
  return ⟨emission.signal.handle server emission.monotonicTime,
    Function.update s.stage emission.message stage⟩

/-- The requests that were read and are neither finished nor aborted. -/
def pending (s : ServerState μ) : Set μ := {message | s.stage message = .read}

/-- No assertion has failed, and the counter is the number of requests that are pending. -/
def Exact (s : ServerState μ) : Prop :=
  ∃ server, s.server = some server ∧ s.pending.encard = server.pendingRequests.toNat

variable {s t : ServerState μ} {emission : Emission μ}

/-- What a signal does. -/
theorem step_cases (h : s.step emission = some t) :
    ∃ server stage, s.server = some server ∧
      (s.stage emission.message).next emission.signal = some stage ∧
      t = ⟨emission.signal.handle server emission.monotonicTime,
        Function.update s.stage emission.message stage⟩ := by
  simp only [step, Option.bind_eq_bind, Option.bind_eq_some_iff] at h
  obtain ⟨server, hserver, stage, hstage, heq⟩ := h
  exact ⟨server, stage, hserver, hstage, (Option.some_inj.1 heq).symm⟩

/-- A message that has been read is pending. -/
theorem pending_read {server : Option EusServer} {message : μ} :
    pending ⟨server, Function.update s.stage message .read⟩ = insert message s.pending := by
  ext other
  by_cases heq : other = message <;> simp [pending, heq]

/-- A message that has ended is not pending. -/
theorem pending_ended {server : Option EusServer} {message : μ} :
    pending ⟨server, Function.update s.stage message .ended⟩ = s.pending \ {message} := by
  ext other
  by_cases heq : other = message <;> simp [pending, heq]

/-- A request is counted when it is read, unless the counter is at its end. -/
theorem exact_read_iff {server : EusServer} {message : μ} {monotonicTime : Int64}
    (hcount : s.pending.encard = server.pendingRequests.toNat) (hnew : message ∉ s.pending) :
    Exact ⟨updatePendingRequests server true monotonicTime,
        Function.update s.stage message .read⟩ ↔ s.pending.encard < (2 ^ 32 - 1 : ℕ) := by
  rw [hcount, Nat.cast_lt, ← exists_increment_iff server monotonicTime]
  constructor
  · rintro ⟨server', hserver', -⟩
    exact ⟨server', hserver'⟩
  · rintro ⟨server', hserver'⟩
    refine ⟨server', hserver', ?_⟩
    rw [pending_read, Set.encard_insert_of_notMem hnew, hcount,
      updatePendingRequests_increment hserver', Nat.cast_add, Nat.cast_one]

/-- A request that was read is subtracted when it is over. -/
theorem exact_ended {server : EusServer} {message : μ} {monotonicTime : Int64}
    (hcount : s.pending.encard = server.pendingRequests.toNat) (hread : message ∈ s.pending) :
    Exact ⟨updatePendingRequests server false monotonicTime,
        Function.update s.stage message .ended⟩ := by
  have hpos : (0 : ℕ∞) < server.pendingRequests.toNat :=
    hcount ▸ Set.encard_pos.2 ⟨message, hread⟩
  -- the counter is positive since this request is pending
  obtain ⟨server', hserver'⟩ :=
    (exists_decrement_iff server monotonicTime).2 (by exact_mod_cast hpos)
  refine ⟨server', hserver', ?_⟩
  have hsucc := Set.encard_sdiff_singleton_add_one hread
  rw [hcount, ← updatePendingRequests_decrement hserver', Nat.cast_add, Nat.cast_one] at hsucc
  rw [pending_ended]
  exact ENat.add_left_injective_of_ne_top ENat.one_ne_top hsucc

/-- A request that was not read is subtracted nevertheless when it is aborted. -/
theorem not_exact_aborted {server : EusServer} {message : μ} {monotonicTime : Int64}
    (hcount : s.pending.encard = server.pendingRequests.toNat) (hnew : message ∉ s.pending) :
    ¬ Exact ⟨updatePendingRequests server false monotonicTime,
        Function.update s.stage message .ended⟩ := by
  rintro ⟨server', hserver', hcount'⟩
  -- the pending requests stay the same, but the counter goes down
  rw [pending_ended, Set.sdiff_singleton_eq_self hnew, hcount, Nat.cast_inj] at hcount'
  have hsucc := updatePendingRequests_decrement hserver'
  omega

/-- The request is pending when it is aborted, and the counter is not at its end when a request is
read. -/
def Counted (τ : Transition (ServerState μ) (Emission μ)) : Prop :=
  (τ.event.signal = .requestAborted → τ.event.message ∈ τ.before.pending) ∧
    (τ.event.signal = .requestRead → τ.before.pending.encard < (2 ^ 32 - 1 : ℕ))

/-- From a state in which the counter is exact, a signal keeps it exact exactly if it is
`Counted`. -/
theorem exact_step_iff (hexact : s.Exact) (h : s.step emission = some t) :
    t.Exact ↔ Counted ⟨s, emission, t⟩ := by
  obtain ⟨server, hserver, hcount⟩ := hexact
  obtain ⟨server', stage, hserver', hstage, rfl⟩ := step_cases h
  obtain rfl := Option.some_inj.1 (hserver'.symm.trans hserver)
  obtain ⟨message, signal, monotonicTime⟩ := emission
  -- the stage of the request decides which signals libsoup can emit, and what they do
  cases hbefore : s.stage message with
  | new =>
      have hnew : message ∉ s.pending := by simp [pending, hbefore]
      cases signal with
      | requestRead =>
          obtain rfl : Stage.read = stage := by simpa [hbefore, Stage.next] using hstage
          simp only [Signal.handle, exact_read_iff hcount hnew, Counted, reduceCtorEq,
            false_implies, true_and, forall_const]
      | requestFinished => simp [hbefore, Stage.next] at hstage
      | requestAborted =>
          obtain rfl : Stage.ended = stage := by simpa [hbefore, Stage.next] using hstage
          simp only [Signal.handle, not_exact_aborted hcount hnew, Counted, hnew, forall_const,
            false_and]
  | read =>
      have hread : message ∈ s.pending := hbefore
      cases signal with
      | requestRead => simp [hbefore, Stage.next] at hstage
      | requestFinished =>
          obtain rfl : Stage.ended = stage := by simpa [hbefore, Stage.next] using hstage
          simp only [Signal.handle, exact_ended hcount hread, Counted, reduceCtorEq,
            false_implies, and_self]
      | requestAborted =>
          obtain rfl : Stage.ended = stage := by simpa [hbefore, Stage.next] using hstage
          simp only [Signal.handle, exact_ended hcount hread, Counted, hread, reduceCtorEq,
            false_implies, implies_true, and_self]
  | ended => cases signal <;> simp [hbefore, Stage.next] at hstage

omit [DecidableEq μ] in
/-- At the start the count is exact. -/
theorem Initial.exact (h : s.Initial) : s.Exact :=
  ⟨.init, h.1, by simp [pending, h.2, EusServer.init]⟩

end ServerState

/-- **When the counter is exact.** In a run from a new server, the counter is the number of pending
requests after every signal, and no assertion fails, exactly if every request that is aborted was
read before, and a request is read only while fewer than `G_MAXUINT` are pending. -/
theorem pendingRequests_exact_iff {history : History (ServerState μ) (Emission μ)}
    {s : ServerState μ} (hrun : Run ServerState.Initial ServerState.step history s) :
    (∀ τ ∈ history, τ.after.Exact) ↔ ∀ τ ∈ history, ServerState.Counted τ := by
  refine hrun.forall_after_iff (fun _ => ServerState.Initial.exact) fun τ hτ hexact => ?_
  obtain ⟨-, -, -, hstep⟩ := hrun.of_mem hτ
  exact ServerState.exact_step_iff hexact hstep

/-! ### A client that disconnects -/

/-- A new server, and messages with numbers. -/
def newServer : ServerState ℕ := ⟨some .init, fun _ => .new⟩

theorem initial_newServer : newServer.Initial := ⟨rfl, fun _ => rfl⟩

/-- A client that disconnects before its request could be read makes the assertion fail, or, while
there is another request, the server forgets that one. -/
theorem aborted_unread :
    (exec ServerState.step [] newServer [⟨0, .requestAborted, 7⟩]).map (·.2.server) = some none ∧
      (exec ServerState.step [] newServer
        [⟨0, .requestRead, 7⟩, ⟨1, .requestAborted, 8⟩]).map
          (fun r => (r.2.server, r.2.stage 0)) = some (some ⟨0, 8⟩, .read) ∧
      ¬ ∀ history (s : ServerState ℕ), Run ServerState.Initial ServerState.step history s →
        ∀ τ ∈ history, τ.after.Exact := by
  refine ⟨rfl, rfl, fun hall => ?_⟩
  have hrun : Run ServerState.Initial ServerState.step
      [⟨newServer, ⟨0, .requestAborted, 7⟩, ⟨none, Function.update newServer.stage 0 .ended⟩⟩] _ :=
    .next (.start initial_newServer) rfl
  obtain ⟨server, hserver, -⟩ := hall _ _ hrun _ (List.mem_singleton_self _)
  cases hserver

/-- The server after it has read the request of the first message. -/
def servingServer : ServerState ℕ := ⟨some ⟨1, 7⟩, Function.update newServer.stage 0 .read⟩

/-- The server reads a request, which is aborted while it is being served. -/
def abortedHistory : History (ServerState ℕ) (Emission ℕ) :=
  [⟨servingServer, ⟨0, .requestAborted, 8⟩,
      ⟨some ⟨0, 8⟩, Function.update servingServer.stage 0 .ended⟩⟩,
    ⟨newServer, ⟨0, .requestRead, 7⟩, servingServer⟩]

theorem abortedHistory_exact : abortedHistory.Forall fun τ => τ.after.Exact := by
  have hnone : newServer.pending = ∅ := by
    ext message
    simp [ServerState.pending, newServer]
  refine List.forall_iff_forall_mem.2 <|
    (pendingRequests_exact_iff (.next (.next (.start initial_newServer) rfl) rfl)).2 ?_
  simp only [List.forall_mem_cons, ServerState.Counted, reduceCtorEq, false_implies, true_and,
    and_true, List.not_mem_nil, implies_true, forall_const]
  refine ⟨rfl, ?_⟩
  rw [hnone, Set.encard_empty]
  exact_mod_cast Nat.succ_pos _

end Eus
