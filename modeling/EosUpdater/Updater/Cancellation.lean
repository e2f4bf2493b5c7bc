import EosUpdater.Updater.Exclusion

/-!
# Cancelling

`Cancel` cancels the cancellable of the daemon and replaces it at once, while the worker in flight
keeps the old one. The cancellable that the daemon has is therefore never cancelled
(`CancellableIntact`), and a worker holds it unless its own has been cancelled. So every `Cancel`
that is accepted reaches the worker in flight, whatever it returns and however late, and none
reaches a worker that is started afterwards (`cancel_hits_one_operation`).
-/

namespace Updater

open Euu Machine

variable {ρ : Type} {daemon daemon' : Daemon ρ} {event : Event ρ} {task : Task}
  {history past between : History (Daemon ρ) (Event ρ)} {τ : Transition (Daemon ρ) (Event ρ)}

/-- A method is called in this step, and accepted. -/
def Accepts (τ : Transition (Daemon ρ) (Event ρ)) (method : Method) : Prop :=
  τ.event = .call method ∧ τ.after.answers = .ok () :: τ.before.answers

/-- A worker returns in this step. -/
def FinishesWorker (τ : Transition (Daemon ρ) (Event ρ)) : Prop :=
  ∃ worker outcome, τ.event = .finished worker outcome

/-- Whatever the worker in flight returns, its callback reports that it was cancelled. -/
def Daemon.EndsCancelled (daemon : Daemon ρ) : Prop :=
  ∀ worker outcome daemon', daemon.step (.finished worker outcome) = some daemon' →
    daemon'.updater.state = .error ∧
      daemon'.updater.errorName = some "com.endlessm.Updater.Error.Cancelled"

/-! ### The cancellable of the daemon -/

/-- The cancellable of the daemon has not been cancelled, and a worker in flight holds it unless its
own has been cancelled. -/
structure Daemon.CancellableIntact (daemon : Daemon ρ) : Prop where
  not_cancelled : daemon.data.cancellable ∉ daemon.cancellables.cancelled
  made : daemon.data.cancellable < daemon.cancellables.made
  cancelled_made : ∀ cancellable ∈ daemon.cancellables.cancelled,
    cancellable < daemon.cancellables.made
  held : ∀ task ∈ daemon.workers, task.cancellable ∈ daemon.cancellables.cancelled ∨
    task.cancellable = daemon.data.cancellable

namespace Daemon

/-- As the cancellable has not been cancelled, there is nothing to reset. -/
theorem CancellableIntact.resetCancellable (h : daemon.CancellableIntact) :
    daemon.resetCancellable = daemon := if_neg h.not_cancelled

/-- Cancel replaces the cancellable by a new one. -/
theorem cancel_data (daemon : Daemon ρ) :
    daemon.cancelCancellable.resetCancellable.complete.data.cancellable =
      daemon.cancellables.made := by
  simp [resetCancellable, cancelCancellable, complete]

/-- Cancel cancels the old cancellable and no other. -/
theorem cancel_cancellables (daemon : Daemon ρ) :
    daemon.cancelCancellable.resetCancellable.complete.cancellables =
      { made := daemon.cancellables.made + 1
        cancelled := daemon.data.cancellable :: daemon.cancellables.cancelled } := by
  simp [resetCancellable, cancelCancellable, complete]

/-- What does not touch the cancellables, and leaves workers at most, leaves them intact. -/
theorem CancellableIntact.of_eq (h : daemon.CancellableIntact)
    (hdata : daemon'.data.cancellable = daemon.data.cancellable)
    (hcancellables : daemon'.cancellables = daemon.cancellables)
    (hworkers : ∀ task ∈ daemon'.workers, task ∈ daemon.workers) :
    daemon'.CancellableIntact where
  not_cancelled := by rw [hdata, hcancellables]; exact h.not_cancelled
  made := by rw [hdata, hcancellables]; exact h.made
  cancelled_made := by rw [hcancellables]; exact h.cancelled_made
  held task htask := by rw [hdata, hcancellables]; exact h.held task (hworkers task htask)

/-- `Cancel` reaches every worker in flight, and makes a new cancellable. -/
theorem CancellableIntact.cancel (h : daemon.CancellableIntact) :
    daemon.cancelCancellable.resetCancellable.complete.CancellableIntact where
  not_cancelled := by
    rw [cancel_data, cancel_cancellables]
    intro hmem
    -- the new cancellable has a number of its own
    rcases List.mem_cons.1 hmem with heq | hcancelled
    · exact absurd h.made (by rw [heq]; exact lt_irrefl _)
    · exact absurd (h.cancelled_made _ hcancelled) (lt_irrefl _)
  made := by
    rw [cancel_data, cancel_cancellables]
    exact Nat.lt_succ_self _
  cancelled_made := by
    rw [cancel_cancellables]
    intro cancellable hmem
    rcases List.mem_cons.1 hmem with rfl | hcancelled
    · exact Nat.lt_succ_of_lt h.made
    · exact Nat.lt_succ_of_lt (h.cancelled_made _ hcancelled)
  held := by
    rw [cancel_cancellables]
    intro task htask
    rw [daemon.agrees_cancel.workers] at htask
    -- a worker holds one that was cancelled earlier, or the one that is cancelled now
    exact Or.inl ((h.held task htask).elim (List.mem_cons_of_mem _)
      fun heq => heq ▸ List.mem_cons_self)

/-- A worker that is started holds the cancellable of the daemon. -/
theorem CancellableIntact.startWorker (h : daemon.CancellableIntact) (work : Work) :
    (daemon.startWorker work).CancellableIntact ∧
      (daemon.startWorker work).cancellables = daemon.cancellables ∧
      (daemon.startWorker work).workers = daemon.workers ++ [⟨daemon.data.cancellable, work⟩] := by
  -- the cancellable has not been cancelled, so the worker gets the daemon's own
  have hstarted : daemon.startWorker work = complete { daemon with
      updater := daemon.updater.clearError work.kind.state
      workers := daemon.workers ++ [⟨daemon.data.cancellable, work⟩] } := by
    unfold Daemon.startWorker
    rw [h.resetCancellable]
  rw [hstarted]
  refine ⟨⟨h.not_cancelled, h.made, h.cancelled_made, fun task htask => ?_⟩, rfl, rfl⟩
  rcases List.mem_append.1 htask with hbefore | hnew
  · exact h.held task hbefore
  · exact Or.inr (congrArg Task.cancellable (List.mem_singleton.1 hnew))

/-- The callback of a poll leaves the cancellables alone. -/
theorem metadataFetchFinished_cancellables (daemon : Daemon ρ) (task : Task)
    (result : Except GError (Option (EosUpdateInfo ρ))) (objects : CommitObjects) :
    (daemon.metadataFetchFinished task result objects).data.cancellable =
        daemon.data.cancellable ∧
      (daemon.metadataFetchFinished task result objects).cancellables = daemon.cancellables := by
  unfold metadataFetchFinished
  cases daemon.propagate task result with
  | error e => exact ⟨rfl, rfl⟩
  | ok found =>
      cases found with
      | none => exact ⟨rfl, rfl⟩
      | some info =>
          dsimp only
          generalize (daemon.updater.offerUpdate info).offerSizes objects = sized
          obtain ⟨updater, error⟩ := sized
          cases error <;> exact ⟨rfl, rfl⟩

/-- **The step.** -/
theorem CancellableIntact.step (h : daemon.CancellableIntact) (hexclusive : daemon.Exclusive)
    (hstep : daemon.step event = some daemon') : daemon'.CancellableIntact := by
  cases event with
  | call method =>
      obtain rfl := Option.some_inj.1 hstep
      rcases daemon.call_inversion method with ⟨e, heq⟩ | ⟨-, -, heq⟩ | ⟨-, work, -, -, heq⟩
      · rw [heq]
        exact h.of_eq rfl rfl fun _ => id
      · rw [heq]
        exact h.cancel
      · rw [heq]
        exact (h.startWorker work).1
  | finished worker outcome =>
      obtain ⟨task, -, -, -, ⟨result, objects, -, -, rfl⟩ | ⟨data, result, -, -, rfl⟩ |
        ⟨data, result, -, -, rfl⟩⟩ := hexclusive.finished_inversion hstep
      · obtain ⟨hdata, hcancellables⟩ :=
          metadataFetchFinished_cancellables { daemon with workers := [] } task result objects
        refine h.of_eq hdata hcancellables fun task htask => ?_
        rw [(metadataFetchFinished_cases _ _ _ _).1] at htask
        exact absurd htask List.not_mem_nil
      -- these callbacks change the object alone
      · unfold contentFetchFinished
        split <;> exact h.of_eq rfl rfl fun _ htask => absurd htask List.not_mem_nil
      · unfold applyFinished
        split <;> exact h.of_eq rfl rfl fun _ htask => absurd htask List.not_mem_nil
  | progress bytes =>
      obtain rfl := Option.some_inj.1 hstep
      unfold updateProgress
      split <;> exact h.of_eq rfl rfl fun _ => id
  | deploy worker =>
      simp only [Daemon.step] at hstep
      split at hstep
      · obtain rfl := Option.some_inj.1 hstep
        exact h.of_eq rfl rfl fun _ => id
      · cases hstep

end Daemon

/-- **Runs.** -/
theorem cancellableIntact_of_run (hrun : Run Daemon.Started Daemon.step history daemon) :
    daemon.CancellableIntact := by
  -- the start has made one cancellable, and cancelled none
  induction hrun with
  | start h =>
      obtain ⟨bootedChecksum, installed, rfl⟩ := h
      exact ⟨List.not_mem_nil, Nat.zero_lt_one, fun _ hmem => absurd hmem List.not_mem_nil,
        fun _ hmem => absurd hmem List.not_mem_nil⟩
  | next hrun hstep ih => exact ih.step (consistent_of_run hrun).exclusive hstep

/-! ### The worker in flight -/

/-- While a worker is in flight and does not return, it stays the only one, what has been cancelled
stays cancelled, and only a `Cancel` that is accepted cancels anything. -/
theorem inFlight_of_step (hexclusive : daemon.Exclusive) (hworkers : daemon.workers = [task])
    (hstep : daemon.step event = some daemon')
    (hfinishes : ¬ FinishesWorker ⟨daemon, event, daemon'⟩) :
    daemon'.workers = [task] ∧
      daemon.cancellables.cancelled ⊆ daemon'.cancellables.cancelled ∧
      (¬ Accepts ⟨daemon, event, daemon'⟩ .cancel →
        daemon'.cancellables.cancelled = daemon.cancellables.cancelled) := by
  cases event with
  | call method =>
      obtain rfl := Option.some_inj.1 hstep
      rcases daemon.call_inversion method with ⟨e, heq⟩ | ⟨rfl, -, heq⟩ | ⟨-, work, hstate, -, -⟩
      · rw [heq]
        exact ⟨hworkers, List.Subset.refl _, fun _ => rfl⟩
      · refine ⟨?_, ?_, fun hrefused => absurd ⟨rfl, ?_⟩ hrefused⟩
        · rw [heq, daemon.agrees_cancel.workers]
          exact hworkers
        · rw [heq, Daemon.cancel_cancellables]
          exact List.subset_cons_self _ _
        · rw [heq]
          exact congrArg (List.cons _) daemon.cancelCancellable.resetCancellable_answers
      -- the state is that of the worker, and in such a state no worker is started
      · have hfirst : daemon.workers[0]? = some task := by
          rw [hworkers]
          rfl
        obtain ⟨-, -, hbusy⟩ := hexclusive.eq_singleton hfirst
        rw [hbusy] at hstate
        exact absurd hstate (WorkerKind.state_notMem_startsIn _ _)
  -- the only event that ends the worker is excluded
  | finished worker outcome => exact absurd ⟨worker, outcome, rfl⟩ hfinishes
  | progress bytes =>
      obtain rfl := Option.some_inj.1 hstep
      unfold Daemon.updateProgress
      split <;> exact ⟨hworkers, List.Subset.refl _, fun _ => rfl⟩
  | deploy worker =>
      simp only [Daemon.step] at hstep
      split at hstep
      · obtain rfl := Option.some_inj.1 hstep
        exact ⟨hworkers, List.Subset.refl _, fun _ => rfl⟩
      · cases hstep

/-- The same from a moment of a run on, until the worker returns. -/
theorem inFlight_of_run (hrun : Run Daemon.Started Daemon.step (between ++ τ :: past) daemon)
    (hworkers : τ.after.workers = [task]) (hfinishes : ∀ τ' ∈ between, ¬ FinishesWorker τ') :
    daemon.workers = [task] ∧
      τ.after.cancellables.cancelled ⊆ daemon.cancellables.cancelled ∧
      ((∀ τ' ∈ between, ¬ Accepts τ' .cancel) →
        daemon.cancellables.cancelled = τ.after.cancellables.cancelled) := by
  -- by induction on the steps since then, the most recent one first
  induction between generalizing daemon with
  | nil =>
      cases hrun
      exact ⟨hworkers, List.Subset.refl _, fun _ => rfl⟩
  | cons τ' between ih =>
      cases hrun with
      | next hrun hstep =>
          obtain ⟨hbefore, hsubset, heq⟩ :=
            ih hrun fun τ' hτ' => hfinishes τ' (List.mem_cons_of_mem _ hτ')
          obtain ⟨hafter, hsubset', heq'⟩ := inFlight_of_step (consistent_of_run hrun).exclusive
            hbefore hstep (hfinishes _ List.mem_cons_self)
          refine ⟨hafter, List.Subset.trans hsubset hsubset', fun hrefused => ?_⟩
          rw [heq' (hrefused _ List.mem_cons_self),
            heq fun τ' hτ' => hrefused τ' (List.mem_cons_of_mem _ hτ')]

/-- What a cancelled worker returns is replaced by the error. -/
theorem Daemon.propagate_of_cancelled {α : Type} {result : Except GError α}
    (h : task.cancellable ∈ daemon.cancellables.cancelled) :
    daemon.propagate task result = .error ⟨.ioCancelled, "Operation was cancelled"⟩ := if_pos h

/-- Once the cancellable of the worker in flight has been cancelled, the worker ends so. -/
theorem Daemon.Exclusive.endsCancelled (h : daemon.Exclusive) (hworkers : daemon.workers = [task])
    (hcancelled : task.cancellable ∈ daemon.cancellables.cancelled) : daemon.EndsCancelled := by
  intro worker outcome daemon' hstep
  obtain ⟨task', htask, -, -, hcases⟩ := h.finished_inversion hstep
  -- the worker that returns is the one in flight
  obtain rfl : task = task' := List.singleton_injective (hworkers.symm.trans htask)
  have hpropagate {α : Type} (result : Except GError α) :
      { daemon with workers := [] }.propagate task result =
        .error ⟨.ioCancelled, "Operation was cancelled"⟩ := propagate_of_cancelled hcancelled
  rcases hcases with ⟨result, objects, -, -, rfl⟩ | ⟨data, result, -, -, rfl⟩ |
    ⟨data, result, -, -, rfl⟩
  · rw [metadataFetchFinished, hpropagate]
    exact ⟨rfl, rfl⟩
  · rw [contentFetchFinished, hpropagate]
    exact ⟨rfl, rfl⟩
  · rw [applyFinished, hpropagate]
    exact ⟨rfl, rfl⟩

/-- A `Cancel` that is accepted cancels the worker in flight. -/
theorem Daemon.Exclusive.cancelled_of_accepts (h : daemon.Exclusive)
    (hintact : daemon.CancellableIntact) (hstep : daemon.step event = some daemon')
    (haccepts : Accepts ⟨daemon, event, daemon'⟩ .cancel) :
    ∃ task, daemon.workers = [task] ∧ daemon'.workers = [task] ∧
      task.cancellable ∈ daemon'.cancellables.cancelled := by
  obtain ⟨rfl, hanswers⟩ := haccepts
  obtain rfl := Option.some_inj.1 hstep
  rcases daemon.call_inversion .cancel with ⟨e, heq⟩ | ⟨-, hstate, heq⟩ | ⟨hne, -⟩
  · rw [heq] at hanswers
    cases (List.cons.inj hanswers).1
  -- `Cancel` is accepted only in a state with a worker
  · rcases h with ⟨-, hidle⟩ | ⟨task, hworkers, -⟩
    · simp only [List.mem_cons, List.not_mem_nil, or_false] at hstate
      rcases hstate with hstate | hstate | hstate
      · exact absurd hstate (hidle .poll)
      · exact absurd hstate (hidle .fetch)
      · exact absurd hstate (hidle .apply)
    · refine ⟨task, hworkers, ?_, ?_⟩
      · rw [heq, daemon.agrees_cancel.workers]
        exact hworkers
      · rw [heq, cancel_cancellables]
        exact (hintact.held task (by simp [hworkers])).elim (List.mem_cons_of_mem _)
          fun hheld => hheld ▸ List.mem_cons_self
  · exact absurd rfl hne

/-- Any other method that is accepted starts a worker that has not been cancelled. -/
theorem Daemon.Exclusive.started_of_accepts (h : daemon.Exclusive)
    (hintact : daemon.CancellableIntact) {method : Method} (hmethod : method ≠ .cancel)
    (hstep : daemon.step event = some daemon')
    (haccepts : Accepts ⟨daemon, event, daemon'⟩ method) :
    ∃ task, daemon'.workers = [task] ∧
      task.cancellable ∉ daemon'.cancellables.cancelled := by
  obtain ⟨rfl, hanswers⟩ := haccepts
  obtain rfl := Option.some_inj.1 hstep
  rcases daemon.call_inversion method with ⟨e, heq⟩ | ⟨hcancel, -⟩ | ⟨-, work, hstate, -, heq⟩
  · rw [heq] at hanswers
    cases (List.cons.inj hanswers).1
  · exact absurd hcancel hmethod
  · obtain ⟨-, hcancellables, hworkers⟩ := hintact.startWorker work
    refine ⟨⟨daemon.data.cancellable, work⟩, ?_, ?_⟩
    -- it is accepted only in a state without a worker
    · rw [heq, hworkers, h.idle fun kind hbusy =>
        WorkerKind.state_notMem_startsIn kind work.kind (hbusy ▸ hstate)]
      rfl
    · rw [heq, hcancellables]
      exact hintact.not_cancelled

/-- **Cancel.** After every run: if `Cancel` was accepted and no worker has returned since, the
worker that was in flight then still is, and it ends in `Error` with the cancelled error, whatever
it returns. And if another method was accepted and neither has a worker returned nor a `Cancel` been
accepted since, the worker that it started is in flight, its cancellable has not been cancelled, and
its callback sees what it returns. -/
theorem cancel_hits_one_operation (hrun : Run Daemon.Started Daemon.step history daemon) :
    (∀ between τ past, history = between ++ τ :: past → Accepts τ .cancel →
      (∀ τ' ∈ between, ¬ FinishesWorker τ') →
      ∃ task, τ.before.workers = [task] ∧ daemon.workers = [task] ∧
        task.cancellable ∈ daemon.cancellables.cancelled ∧ daemon.EndsCancelled) ∧
      ∀ between τ past method, history = between ++ τ :: past → Accepts τ method →
        method ≠ .cancel → (∀ τ' ∈ between, ¬ FinishesWorker τ' ∧ ¬ Accepts τ' .cancel) →
        ∃ task, daemon.workers = [task] ∧
          task.cancellable ∉ daemon.cancellables.cancelled ∧
          ∀ (α : Type) (result : Except GError α), daemon.propagate task result = result := by
  have hexclusive := (consistent_of_run hrun).exclusive
  constructor
  · rintro between τ past rfl haccepts hfinishes
    obtain ⟨hbefore, hstep⟩ := hrun.transition
    obtain ⟨task, hworkers, hafter, hcancelled⟩ :=
      (consistent_of_run hbefore).exclusive.cancelled_of_accepts
        (cancellableIntact_of_run hbefore) hstep haccepts
    -- what was cancelled then still is, and the worker still holds it
    obtain ⟨hflight, hsubset, -⟩ := inFlight_of_run hrun hafter hfinishes
    exact ⟨task, hworkers, hflight, hsubset hcancelled,
      hexclusive.endsCancelled hflight (hsubset hcancelled)⟩
  · rintro between τ past method rfl haccepts hmethod hbetween
    obtain ⟨hbefore, hstep⟩ := hrun.transition
    obtain ⟨task, hafter, hcancelled⟩ :=
      (consistent_of_run hbefore).exclusive.started_of_accepts
        (cancellableIntact_of_run hbefore) hmethod hstep haccepts
    obtain ⟨hflight, -, heq⟩ := inFlight_of_run hrun hafter fun τ' hτ' => (hbetween τ' hτ').1
    -- without another `Cancel` nothing has been cancelled since
    rw [← heq fun τ' hτ' => (hbetween τ' hτ').2] at hcancelled
    exact ⟨task, hflight, hcancelled, fun _ _ => if_neg hcancelled⟩

/-- A poll that is cancelled twice and returns an update nevertheless, and another poll. -/
def cancelledPoll : List (Event Unit) :=
  [.call .poll, .call .cancel, .call .cancel,
    .finished 0 (.metadata (.ok none) ⟨.ok (), .ok []⟩), .call .poll]

/-- In this run the first poll ends in `Error`, and the second one is not cancelled. -/
theorem cancelledPoll_hits_one :
    ∃ history daemon,
      exec Daemon.step [] (Daemon.onBusAcquired (.ok "booted") true) cancelledPoll =
        some (history, daemon) ∧
      daemon.updater.stateChanged = [.polling, .error, .ready, .polling] ∧
      (∀ between τ past, history = between ++ τ :: past → Accepts τ .cancel →
        (∀ τ' ∈ between, ¬ FinishesWorker τ') →
        ∃ task, τ.before.workers = [task] ∧ daemon.workers = [task] ∧
          task.cancellable ∈ daemon.cancellables.cancelled ∧ daemon.EndsCancelled) ∧
        ∀ between τ past method, history = between ++ τ :: past → Accepts τ method →
          method ≠ .cancel → (∀ τ' ∈ between, ¬ FinishesWorker τ' ∧ ¬ Accepts τ' .cancel) →
          ∃ task, daemon.workers = [task] ∧
            task.cancellable ∉ daemon.cancellables.cancelled ∧
            ∀ (α : Type) (result : Except GError α), daemon.propagate task result = result := by
  have hchanged : (exec Daemon.step [] (Daemon.onBusAcquired (.ok "booted") true)
      cancelledPoll).map (fun run => run.2.updater.stateChanged) =
        some [.polling, .error, .ready, .polling] := by decide +kernel
  obtain ⟨⟨history, daemon⟩, hexec, hdaemon⟩ := Option.map_eq_some_iff.1 hchanged
  exact ⟨history, daemon, hexec, hdaemon,
    cancel_hits_one_operation (Run.of_exec (.start ⟨_, _, rfl⟩) hexec)⟩

end Updater
