import EosUpdater.Ctl.Update

/-!
# The exit status of an update

On an installed system, while no other client calls the daemon and no worker is in flight when it
begins, the exit status of `eos-updater-ctl update` is that of the daemon: it is 1 only if this is
in the state `Error`, and 0 only if the update has been applied, or if the last poll has announced
`Ready` (`exitStatus`). The latter is not to say that there is no update: a poll that fails
announces `Ready` before the error, and the command may have looked at the state in between.

Unless the command is quiet, the copy of `State` that it looks at is that of the last signal it has
heard, as the announcements of the properties add nothing to the signals (`Leads`).
-/

namespace Ctl

open Euu Machine Updater

variable {ρ : Type}

/-- From a state the messages lead to another one, and the announcements among them repeat the
signals. -/
inductive Leads : EosUpdaterState → List Message → EosUpdaterState → Prop
  | nil (state : EosUpdaterState) : Leads state [] state
  | stateChanged {cached state last : EosUpdaterState} {messages : List Message}
      (h : Leads state messages last) : Leads cached (.stateChanged state :: messages) last
  | propertiesChanged {cached last : EosUpdaterState} {messages : List Message}
      (h : Leads cached messages last) : Leads cached (.propertiesChanged cached :: messages) last

/-- A change of the property leads to the state it carries. -/
theorem Leads.append_propertiesChanged {cached last : EosUpdaterState} {messages : List Message}
    (h : Leads cached messages last) :
    Leads cached (messages ++ [.propertiesChanged last]) last := by
  induction h with
  | nil state => exact .propertiesChanged (.nil state)
  | stateChanged _ ih => exact .stateChanged ih
  | propertiesChanged _ ih => exact .propertiesChanged ih

/-- Signals lead to the last state they carry. -/
theorem Leads.append_signals {cached last : EosUpdaterState} {messages : List Message}
    (h : Leads cached messages last) (states : List EosUpdaterState) :
    Leads cached (messages ++ states.map .stateChanged) (states.getLastD last) := by
  induction h with
  | nil state =>
      induction states generalizing state with
      | nil => exact .nil state
      | cons first states ih =>
          rw [List.getLastD_cons]
          exact .stateChanged (ih first)
  | stateChanged _ ih => exact .stateChanged ih
  | propertiesChanged _ ih => exact .propertiesChanged ih

/-- Without a signal the state is the one that was heard last. -/
theorem Leads.eq_of_signals_eq_nil {cached last : EosUpdaterState} {messages : List Message}
    (h : Leads cached messages last) (hnone : signals messages = []) : cached = last := by
  induction h with
  | nil state => rfl
  | stateChanged => cases hnone
  | propertiesChanged _ ih => exact ih hnone

/-- What a command still has to hear, behind the signal of its own state: nothing while the worker
is in flight, then the state in which this has ended, or two if a poll has failed. -/
inductive Rest (updater : EosUpdater) (command : Command) : List EosUpdaterState → Prop
  | works (hstate : updater.state = command.inProgressState) : Rest updater command []
  | ends (state : EosUpdaterState) (hstate : updater.state = state)
      (hends : state ∈ command.kind.endsIn) : Rest updater command [state]
  | fails (state : EosUpdaterState) (hcommand : command = .poll)
      (hmem : state ∈ [EosUpdaterState.updateAvailable, .ready]) (herror : updater.state = .error)
      (hsent : ∃ earlier, updater.stateChanged = .error :: state :: earlier) :
      Rest updater command [state, .error]

/-- What a command has not heard at the end of its loop: nothing, or that the poll has failed. -/
inductive Over (updater : EosUpdater) (command : Command) (cachedState : EosUpdaterState) :
    List EosUpdaterState → Prop
  | ends (hstate : updater.state = cachedState) (hends : cachedState ∈ command.kind.endsIn) :
      Over updater command cachedState []
  | fails (hcommand : command = .poll)
      (hmem : cachedState ∈ [EosUpdaterState.updateAvailable, .ready])
      (herror : updater.state = .error)
      (hsent : ∃ earlier, updater.stateChanged = .error :: cachedState :: earlier) :
      Over updater command cachedState [.error]

/-- Once a command is over, the updater is at rest. -/
theorem Over.notMem_busy {updater : EosUpdater} {command : Command}
    {cachedState : EosUpdaterState} {rest : List EosUpdaterState}
    (h : Over updater command cachedState rest) : updater.state ∉ busy := by
  cases h with
  | ends hstate hends => exact hstate ▸ command.kind.notMem_busy_of_endsIn hends
  | fails _ _ herror =>
      rw [herror]
      decide

/-- Whether a command is over depends only on the state and on the states announced. -/
theorem Over.congr {before after : EosUpdater} {command : Command}
    {cachedState : EosUpdaterState} {rest : List EosUpdaterState}
    (h : Over before command cachedState rest) (hstate : after.state = before.state)
    (hchanged : after.stateChanged = before.stateChanged) :
    Over after command cachedState rest := by
  cases h with
  | ends hends => exact .ends (hstate.trans hends) ‹_›
  | fails hcommand hmem herror hsent =>
      exact .fails hcommand hmem (hstate.trans herror) (hchanged ▸ hsent)

/-- While no worker is in flight, and no call is made, the daemon sends nothing. -/
theorem sends_of_idle {before after : EosUpdater} {event : Updater.Event ρ}
    (h : Sends before event after) (hidle : before.state ∉ busy)
    (hevent : ∀ method, event ≠ .call method) :
    after.state = before.state ∧ after.stateChanged = before.stateChanged := by
  cases h with
  | nothing hshown hchanged => exact ⟨congrArg Shown.state hshown, hchanged⟩
  | starts => exact absurd rfl (hevent _)
  | ends kind hstate => exact absurd (hstate ▸ kind.state_mem_busy) hidle
  | fails hstate => exact absurd (hstate ▸ WorkerKind.poll.state_mem_busy) hidle

/-- What the daemon sends while a command waits belongs to the rest. -/
theorem Rest.append {before after : EosUpdater} {command : Command} {rest : List EosUpdaterState}
    (h : Rest before command rest) {event : Updater.Event ρ} (hsends : Sends before event after)
    (hevent : ∀ method, event ≠ .call method) :
    ∃ states, before.Announced after states ∧ Rest after command (rest ++ states.reverse) := by
  -- what has ended stays as it is, as there are no other calls
  have hsame (hidle : before.state ∉ busy) : before.Announced after [] :=
    have hkept := sends_of_idle hsends hidle hevent
    ⟨hkept.2, hkept.1⟩
  cases h with
  | works hstate =>
      -- the worker that is in flight is that of the command
      have hkind (kind : WorkerKind) (h : before.state = kind.state) : kind = command.kind :=
        WorkerKind.state_injective (h.symm.trans hstate)
      cases hsends with
      | nothing hshown hchanged =>
          have hkept : after.state = before.state := congrArg Shown.state hshown
          exact ⟨[], ⟨hchanged, hkept⟩, .works (hkept.trans hstate)⟩
      | starts => exact absurd rfl (hevent _)
      | ends kind hkindState state hends herror hannounced =>
          exact ⟨_, hannounced, .ends state hannounced.2 (hkind kind hkindState ▸ hends)⟩
      | fails hpolling state hends hannounced =>
          -- of the three workers only that of a poll fails after its end was announced
          have hpoll : command = .poll := by
            have := hkind .poll hpolling
            cases command with
            | poll => rfl
            | fetch | apply => cases this
          exact ⟨_, hannounced, .fails state hpoll hends hannounced.2 ⟨_, hannounced.1⟩⟩
  | ends state hstate hends =>
      have hnone := hsame (hstate ▸ command.kind.notMem_busy_of_endsIn hends)
      exact ⟨[], hnone, .ends state (hnone.2.trans hstate) hends⟩
  | fails state hcommand hmem herror hsent =>
      have hnone := hsame (by rw [herror]; decide)
      refine ⟨[], hnone, .fails state hcommand hmem (hnone.2.trans herror) ?_⟩
      rw [hnone.1]
      exact hsent

namespace Update

variable {options : Options} {s t : Update ρ} {history : History (Update ρ) (UpdateEvent ρ)}

/-- One event, if no other client makes a call. -/
def stepAlone (options : Options) (s : Update ρ) (event : UpdateEvent ρ) : Option (Update ρ) :=
  if foreign event then none else s.step options event

/-- The update has been applied, or the daemon has announced that there is none, even if it has
announced an error since. -/
def Succeeded (updater : EosUpdater) : Prop :=
  updater.state = .updateApplied ∨ updater.state = .ready ∨
    updater.state = .error ∧ ∃ earlier, updater.stateChanged = .error :: .ready :: earlier

/-- The signal of the state of a command is the next one to hear, with the rest behind it. -/
def Begins (s : Update ρ) (command : Command) : Prop :=
  ∃ rest, signals s.messages = command.inProgressState :: rest ∧
    Rest s.skeleton.daemon.updater command rest

/-- What a command that waits has still to hear, by `seen_in_progress_state` and
`seen_next_state`. -/
def Waits (s : Update ρ) (command : Command) : Bool → Bool → Prop
  | false, false => s.Begins command
  | true, false => Rest s.skeleton.daemon.updater command (signals s.messages)
  | true, true => Over s.skeleton.daemon.updater command s.cachedState (signals s.messages)
  | false, true => False

/-- What holds in each phase of a command that is the only client. -/
def Proceeds (s : Update ρ) : Prop :=
  let updater := s.skeleton.daemon.updater
  match s.phase with
  | .starting => s.calls = [] ∧ s.replies = [] ∧ signals s.messages = [] ∧ updater.state ∉ busy
  | .calling command =>
      (s.calls = [command] ∧ s.replies = [] ∧
          ((updater.state ∈ command.kind.startsIn ∧ signals s.messages = []) ∨
            updater.state ∉ command.kind.startsIn ∧ updater.state = .error)) ∨
        (s.calls = [] ∧ s.replies = [.ok ()] ∧ s.Begins command) ∨
        s.calls = [] ∧ (∃ e, s.replies = [.error e]) ∧ updater.state = .error
  | .waiting command seenInProgressState seenNextState _ =>
      s.calls = [] ∧ s.replies = [] ∧ s.Waits command seenInProgressState seenNextState
  | .exited status =>
      s.calls = [] ∧ ((status = 0 ∧ Succeeded updater) ∨ status = 1 ∧ updater.state = .error)

/-- An updater that has succeeded is at rest. -/
theorem Succeeded.notMem_busy {updater : EosUpdater} (h : Succeeded updater) :
    updater.state ∉ busy := by
  rcases h with h | h | ⟨h, -⟩ <;> rw [h] <;> decide

/-- Whether the updater has succeeded depends only on the state and on the states announced. -/
theorem Succeeded.congr {before after : EosUpdater} (h : Succeeded before)
    (hstate : after.state = before.state) (hchanged : after.stateChanged = before.stateChanged) :
    Succeeded after := by
  unfold Succeeded at h ⊢
  rwa [hstate, hchanged]

section Sent

variable {skeleton : Skeleton ρ} {command : Command} {event : Updater.Event ρ}

/-- While no worker is in flight the daemon stays as it is, and sends nothing. -/
theorem sent_of_idle (hsends : Sends s.skeleton.daemon.updater event skeleton.daemon.updater)
    (hevent : ∀ method, event ≠ .call method) (hidle : s.skeleton.daemon.updater.state ∉ busy) :
    skeleton.daemon.updater.state = s.skeleton.daemon.updater.state ∧
      skeleton.daemon.updater.stateChanged = s.skeleton.daemon.updater.stateChanged ∧
      signals (s.sent skeleton).messages = signals s.messages := by
  obtain ⟨hstate, hchanged⟩ := sends_of_idle hsends hidle hevent
  have hnone : s.skeleton.daemon.updater.Announced skeleton.daemon.updater [] :=
    ⟨hchanged, hstate⟩
  exact ⟨hstate, hchanged, by simpa using signals_sent hnone⟩

/-- What the daemon sends is heard behind the rest. -/
theorem rest_sent {rest : List EosUpdaterState} (h : Rest s.skeleton.daemon.updater command rest)
    (hsends : Sends s.skeleton.daemon.updater event skeleton.daemon.updater)
    (hevent : ∀ method, event ≠ .call method) :
    ∃ states, signals (s.sent skeleton).messages = signals s.messages ++ states ∧
      Rest skeleton.daemon.updater command (rest ++ states) := by
  obtain ⟨states, hannounced, hrest⟩ := h.append hsends hevent
  exact ⟨_, signals_sent hannounced, hrest⟩

/-- The signal that a command waits for stays the next one. -/
theorem Begins.sent (h : s.Begins command)
    (hsends : Sends s.skeleton.daemon.updater event skeleton.daemon.updater)
    (hevent : ∀ method, event ≠ .call method) : (s.sent skeleton).Begins command := by
  obtain ⟨rest, hsignals, hrest⟩ := h
  obtain ⟨states, hsent, hrest⟩ := rest_sent hrest hsends hevent
  exact ⟨_, by rw [hsent, hsignals]; rfl, hrest⟩

/-- A command goes on waiting for what its flags say. -/
theorem Waits.sent {seenIn seenNext : Bool} (h : s.Waits command seenIn seenNext)
    (hsends : Sends s.skeleton.daemon.updater event skeleton.daemon.updater)
    (hevent : ∀ method, event ≠ .call method) :
    (s.sent skeleton).Waits command seenIn seenNext := by
  cases seenIn with
  | false =>
      cases seenNext with
      | false => exact Begins.sent h hsends hevent
      | true => exact h
  | true =>
      cases seenNext with
      | false =>
          obtain ⟨states, hsent, hrest⟩ := rest_sent h hsends hevent
          show Rest skeleton.daemon.updater command (signals (s.sent skeleton).messages)
          rw [hsent]
          exact hrest
      | true =>
          obtain ⟨hstate, hchanged, hsent⟩ := sent_of_idle hsends hevent (Over.notMem_busy h)
          show Over skeleton.daemon.updater command s.cachedState
            (signals (s.sent skeleton).messages)
          rw [hsent]
          exact Over.congr h hstate hchanged

end Sent

/-- An event of the daemon leaves the command in its phase. -/
theorem Proceeds.daemon (h : s.Proceeds) (hreached : s.skeleton.Reached) {event : Updater.Event ρ}
    (hforeign : foreign (.daemon event) = false)
    (hstep : s.step options (.daemon event) = some t) : t.Proceeds := by
  obtain ⟨skeleton, hskeleton, rfl⟩ := Option.map_eq_some_iff.1 hstep
  obtain ⟨-, hdaemon, -⟩ := Skeleton.step_inversion hskeleton
  have hsends := sends_of_step hreached.exclusive hdaemon
  have hevent (method : Method) : event ≠ .call method := by
    rintro rfl
    cases hforeign
  -- nobody else calls, so the daemon does nothing while it has no worker
  have hidle := sent_of_idle (s := s) hsends hevent
  unfold Proceeds at h ⊢
  have hphase : (s.sent skeleton).phase = s.phase := rfl
  have hupdater : (s.sent skeleton).skeleton.daemon.updater = skeleton.daemon.updater := rfl
  rw [hphase, hupdater]
  cases hcase : s.phase with
  | starting =>
      rw [hcase] at h
      obtain ⟨hcalls, hreplies, hnone, hbusy⟩ := h
      obtain ⟨hstate, -, hsent⟩ := hidle hbusy
      exact ⟨hcalls, hreplies, hsent.trans hnone, hstate ▸ hbusy⟩
  | calling command =>
      rw [hcase] at h
      rcases h with ⟨hcalls, hreplies, hstarts⟩ | ⟨hcalls, hreplies, hbegins⟩ |
        ⟨hcalls, hreplies, herror⟩
      · refine .inl ⟨hcalls, hreplies, ?_⟩
        -- before the call arrives the daemon is idle, or in the error that the command is to find
        have hbusy : s.skeleton.daemon.updater.state ∉ busy := by
          rcases hstarts with ⟨hstate, -⟩ | ⟨-, hstate⟩
          · exact command.kind.notMem_busy_of_startsIn hstate
          · rw [hstate]
            decide
        obtain ⟨hstate, -, hsent⟩ := hidle hbusy
        rw [hstate, hsent]
        exact hstarts
      · exact .inr (.inl ⟨hcalls, hreplies, hbegins.sent hsends hevent⟩)
      · exact .inr (.inr ⟨hcalls, hreplies, (hidle (by rw [herror]; decide)).1.trans herror⟩)
  | waiting command seenIn seenNext dispatched =>
      rw [hcase] at h
      obtain ⟨hcalls, hreplies, hwaits⟩ := h
      exact ⟨hcalls, hreplies, Waits.sent hwaits hsends hevent⟩
  | exited status =>
      rw [hcase] at h
      refine ⟨h.1, h.2.imp ?_ ?_⟩
      · rintro ⟨hstatus, hsucceeded⟩
        obtain ⟨hstate, hchanged, -⟩ := hidle hsucceeded.notMem_busy
        exact ⟨hstatus, hsucceeded.congr hstate hchanged⟩
      · rintro ⟨hstatus, herror⟩
        exact ⟨hstatus, (hidle (by rw [herror]; decide)).1.trans herror⟩

/-- The answer to the call is behind the signal of the state in which the worker is then. -/
theorem Proceeds.receiveCall (h : s.Proceeds) (hinstalled : s.skeleton.daemon.installed = true)
    (hstep : s.step options .receiveCall = some t) : t.Proceeds := by
  obtain ⟨command, calls, hcalls, htcalls, hphase, -, -, -, hmessages, hanswer⟩ :=
    receiveCall_inversion hstep
  unfold Proceeds at h ⊢
  rw [hphase]
  cases hcase : s.phase with
  | calling current =>
      rw [hcase] at h
      rcases h with ⟨hone, hnone, hstarts⟩ | ⟨hnone, -⟩ | ⟨hnone, -⟩
      · rw [hone] at hcalls
        obtain ⟨rfl, rfl⟩ := List.cons.inj hcalls
        rcases hanswer with ⟨e, hrefused, hreplies, hupdater⟩ | ⟨hstate, hreplies, hannounced⟩
        · -- refused, so that the state does not allow the call
          have hwrong := hrefused.resolve_left (by rw [hinstalled]; decide)
          have herror := (hstarts.resolve_left fun h => hwrong h.1).2
          refine .inr (.inr ⟨htcalls, ⟨e, by rw [hreplies, hnone]; rfl⟩, ?_⟩)
          rw [hupdater]
          exact herror
        · have hquiet := (hstarts.resolve_right fun h => h.1 hstate).2
          refine .inr (.inl ⟨htcalls, by rw [hreplies, hnone]; rfl, [], ?_, .works hannounced.2⟩)
          rw [hmessages, signals_sent hannounced, hquiet]
          rfl
      · rw [hnone] at hcalls
        cases hcalls
      · rw [hnone] at hcalls
        cases hcalls
  | starting | waiting | exited =>
      rw [hcase] at h
      rw [h.1] at hcalls
      cases hcalls

/-- With the signal that a command hears its flags say again what is still to come. -/
theorem Waits.heard {command : Command} {seenIn seenNext : Bool} {state : EosUpdaterState}
    {messages : List Message} (h : s.Waits command seenIn seenNext)
    (hmessages : s.messages = .stateChanged state :: messages) (phase : Phase) :
    Waits { s with messages, phase, cachedState := state } command
      (seen command seenIn seenNext state).1 (seen command seenIn seenNext state).2 := by
  have hsignals : signals s.messages = state :: signals messages := by
    rw [hmessages]
    rfl
  cases seenIn with
  | false =>
      cases seenNext with
      | true => exact h.elim
      | false =>
          -- this is the signal of the state of the command
          obtain ⟨rest, hhead, hrest⟩ := h
          obtain ⟨rfl, rfl⟩ := List.cons.inj (hsignals.symm.trans hhead)
          rw [seen, if_pos rfl]
          exact hrest
  | true =>
      unfold Waits at h ⊢
      rw [hsignals] at h
      generalize signals messages = rest at h ⊢
      cases seenNext with
      | false =>
          -- and this one is that of the state in which the worker has ended
          have hother (hends : state ∉ busy) : state ≠ command.inProgressState := by
            rintro rfl
            exact hends command.kind.state_mem_busy
          cases h with
          | ends _ hstate hends =>
              rw [seen, if_neg (hother (command.kind.notMem_busy_of_endsIn hends))]
              exact .ends hstate hends
          | fails _ hcommand hmem herror hsent =>
              have hends : ∀ state ∈ [EosUpdaterState.updateAvailable, .ready],
                  state ∉ busy := by decide
              rw [seen, if_neg (hother (hends state hmem))]
              exact .fails hcommand hmem herror hsent
      | true =>
          cases h with
          | fails hcommand hmem herror hsent =>
              subst hcommand
              exact .ends herror (show EosUpdaterState.error ∈ WorkerKind.poll.endsIn by decide)

/-- The command has dispatched a message. -/
theorem Proceeds.dispatch (h : s.Proceeds) (hquiet : options.quiet = false)
    (hleads : Leads s.cachedState s.messages s.skeleton.shown.state)
    (hstep : s.step options .dispatch = some t) :
    t.Proceeds ∧ Leads t.cachedState t.messages t.skeleton.shown.state := by
  obtain ⟨command, seenIn, seenNext, dispatched, state, messages, hphase,
    ⟨hmessages, rfl⟩ | ⟨hmessages, rfl⟩⟩ := dispatch_inversion hstep
  · rw [hquiet]
    unfold Proceeds at h ⊢
    rw [hphase] at h
    obtain ⟨hcalls, hreplies, hwaits⟩ := h
    rw [hmessages] at hleads
    obtain _ | hrest := hleads
    exact ⟨⟨hcalls, hreplies, Waits.heard hwaits hmessages _⟩, hrest⟩
  · have hsignals : signals s.messages = signals messages := by
      rw [hmessages]
      rfl
    rw [hmessages] at hleads
    -- the announcement repeats what was heard
    obtain _ | _ | hrest := hleads
    refine ⟨?_, hrest⟩
    unfold Proceeds Waits Begins at h ⊢
    rw [hphase, hsignals] at h
    exact h

/-- The end of one of the commands. -/
theorem proceeds_afterCommand {command : Command} {sent : List EosUpdaterState}
    (hover : Over s.skeleton.daemon.updater command s.cachedState sent)
    (hsent : signals s.messages = sent) (hcalls : s.calls = []) (hreplies : s.replies = []) :
    (s.enter (afterCommand command s.cachedState)).Proceeds := by
  have hexit {status : ℕ} (hphase : afterCommand command s.cachedState = .exited status)
      (h : (status = 0 ∧ Succeeded s.skeleton.daemon.updater) ∨
        status = 1 ∧ s.skeleton.daemon.updater.state = .error) :
      (s.enter (afterCommand command s.cachedState)).Proceeds := by
    rw [hphase]
    exact ⟨hcalls, h⟩
  have hnext {next : Command} (hphase : afterCommand command s.cachedState = .calling next)
      (h : (s.skeleton.daemon.updater.state ∈ next.kind.startsIn ∧ sent = []) ∨
        s.skeleton.daemon.updater.state ∉ next.kind.startsIn ∧
          s.skeleton.daemon.updater.state = .error) :
      (s.enter (afterCommand command s.cachedState)).Proceeds := by
    rw [hphase]
    refine .inl ⟨?_, hreplies, ?_⟩
    · show s.calls ++ [next] = [next]
      rw [hcalls, List.nil_append]
    · show (_ ∧ signals s.messages = []) ∨ _
      rw [hsent]
      exact h
  cases hover with
  | ends hstate hends =>
      by_cases herror : s.cachedState = .error
      · exact hexit (if_pos herror) (.inr ⟨rfl, hstate.trans herror⟩)
      · cases command with
        | poll =>
            have hcases : s.cachedState = .ready ∨ s.cachedState = .updateAvailable := by
              simpa [Command.kind, WorkerKind.endsIn, herror] using hends
            rcases hcases with hready | havailable
            · exact hexit (by simp [afterCommand, hready])
                (.inl ⟨rfl, .inr (.inl (hstate.trans hready))⟩)
            · have hphase : afterCommand .poll s.cachedState = .calling .fetch := by
                simp [afterCommand, havailable]
              refine hnext hphase (.inl ⟨?_, rfl⟩)
              rw [hstate, havailable]
              decide
        | fetch =>
            have hready : s.cachedState = .updateReady := by
              simpa [Command.kind, WorkerKind.endsIn, herror] using hends
            refine hnext (if_neg herror) (.inl ⟨?_, rfl⟩)
            rw [hstate, hready]
            decide
        | apply =>
            have happlied : s.cachedState = .updateApplied := by
              simpa [Command.kind, WorkerKind.endsIn, herror] using hends
            exact hexit (if_neg herror) (.inl ⟨rfl, .inl (hstate.trans happlied)⟩)
  | fails hcommand hmem herror hfailed =>
      subst hcommand
      simp only [List.mem_cons, List.not_mem_nil, or_false] at hmem
      rcases hmem with havailable | hready
      · -- the call of the fetch will be refused
        have hphase : afterCommand .poll s.cachedState = .calling .fetch := by
          simp [afterCommand, havailable]
        refine hnext hphase (.inr ⟨?_, herror⟩)
        rw [herror]
        decide
      · rw [hready] at hfailed
        exact hexit (by simp [afterCommand, hready]) (.inl ⟨rfl, .inr (.inr ⟨herror, hfailed⟩)⟩)

/-- What holds at the end of every run of a command that is the only client. -/
structure Sound (s : Update ρ) : Prop where
  reached : s.skeleton.Reached
  installed : s.skeleton.daemon.installed = true
  leads : Leads s.cachedState s.messages s.skeleton.shown.state
  proceeds : s.Proceeds

/-- What the daemon sends leads the cached state to the announced one. -/
theorem Leads.sent {skeleton : Skeleton ρ} {event : Updater.Event ρ}
    (h : Leads s.cachedState s.messages s.skeleton.shown.state)
    (hsends : Sends s.skeleton.daemon.updater event skeleton.daemon.updater) :
    Leads s.cachedState (s.sent skeleton).messages skeleton.shown.state := by
  obtain ⟨states, hannounced⟩ := hsends.announced
  have hlast : states.reverse.getLastD s.skeleton.shown.state = skeleton.shown.state := by
    have hlast : ([].getLastD s.skeleton.shown.state) = s.skeleton.daemon.updater.state := rfl
    exact getLastD_announced hannounced hlast
  rw [Update.sent, signalsSince_of_announced hannounced, ← hlast]
  exact h.append_signals states.reverse

/-- Soundness is kept when the daemon acts. -/
theorem Sound.daemon (h : s.Sound) {event : Updater.Event ρ}
    (hforeign : foreign (.daemon event) = false)
    (hstep : s.step options (.daemon event) = some t) : t.Sound := by
  have hreached := reached_step h.reached hstep
  have hproceeds := h.proceeds.daemon h.reached hforeign hstep
  obtain ⟨skeleton, hskeleton, rfl⟩ := Option.map_eq_some_iff.1 hstep
  obtain ⟨-, hdaemon, -⟩ := Skeleton.step_inversion hskeleton
  exact ⟨hreached, (Daemon.installed_of_step hdaemon).trans h.installed,
    Leads.sent h.leads (sends_of_step h.reached.exclusive hdaemon), hproceeds⟩

/-- Soundness is kept when the daemon announces a property. -/
theorem Sound.emitChanged (h : s.Sound) (hstep : s.step options .emitChanged = some t) :
    t.Sound := by
  obtain ⟨-, rfl⟩ := emitChanged_inversion hstep
  refine ⟨h.reached, h.installed, h.leads.append_propertiesChanged, ?_⟩
  have hproceeds := h.proceeds
  unfold Proceeds Waits Begins at hproceeds ⊢
  simp only [signals_append, signals_propertiesChanged, List.append_nil]
  exact hproceeds

/-- Soundness is kept when a call arrives at the daemon. -/
theorem Sound.receiveCall (h : s.Sound) (hstep : s.step options .receiveCall = some t) :
    t.Sound := by
  have hreached := reached_step h.reached hstep
  have hproceeds := h.proceeds.receiveCall h.installed hstep
  obtain ⟨_, _, -, -, -, hcached, -, hskeleton, hmessages, -⟩ := receiveCall_inversion hstep
  obtain ⟨-, hdaemon, -⟩ := Skeleton.step_inversion hskeleton
  refine ⟨hreached, (Daemon.installed_of_step hdaemon).trans h.installed, ?_, hproceeds⟩
  rw [hcached, hmessages]
  exact Leads.sent h.leads (sends_of_step h.reached.exclusive hdaemon)

/-- Soundness is kept when a message arrives at the tool. -/
theorem Sound.dispatch (h : s.Sound) (hquiet : options.quiet = false)
    (hstep : s.step options .dispatch = some t) : t.Sound := by
  obtain ⟨hproceeds, hleads⟩ := h.proceeds.dispatch hquiet h.leads hstep
  have hinstalled : t.skeleton.daemon.installed = true := by
    obtain ⟨_, _, _, _, _, _, -, ⟨-, rfl⟩ | ⟨-, rfl⟩⟩ := dispatch_inversion hstep
    · exact h.installed
    · exact h.installed
  exact ⟨reached_step h.reached hstep, hinstalled, hleads, hproceeds⟩

/-- Soundness is kept when the tool calls a method. -/
theorem Sound.start (h : s.Sound) (hstep : s.step options .start = some t) : t.Sound := by
  obtain ⟨hphase, rfl⟩ := start_inversion hstep
  have hproceeds := h.proceeds
  unfold Proceeds at hproceeds
  rw [hphase] at hproceeds
  obtain ⟨hcalls, hreplies, hnone, hidle⟩ := hproceeds
  have hcached : s.cachedState = s.skeleton.shown.state := h.leads.eq_of_signals_eq_nil hnone
  by_cases happlied : s.cachedState = .updateApplied
  · rw [if_pos happlied]
    exact ⟨h.reached, h.installed, h.leads, hcalls,
      .inl ⟨rfl, .inl (hcached.symm.trans happlied)⟩⟩
  · rw [if_neg happlied]
    -- a poll starts in every state without a worker, but for this one
    have hstarts : ∀ state : EosUpdaterState, state ∉ busy → state ≠ .none →
        state ≠ .updateApplied → state ∈ WorkerKind.poll.startsIn := by
      intro state
      cases state <;> decide
    refine ⟨h.reached, h.installed, h.leads, .inl ⟨?_, hreplies, .inl ⟨?_, hnone⟩⟩⟩
    · show s.calls ++ [.poll] = [.poll]
      rw [hcalls, List.nil_append]
    · exact hstarts _ hidle h.reached.state_ne_none fun h => happlied (hcached.trans h)

/-- Soundness is kept when a reply arrives at the tool. -/
theorem Sound.receiveReply (h : s.Sound) (hstep : s.step options .receiveReply = some t) :
    t.Sound := by
  obtain ⟨command, replies, hphase, hcases⟩ := receiveReply_inversion hstep
  have hproceeds := h.proceeds
  unfold Proceeds at hproceeds
  rw [hphase] at hproceeds
  rcases hcases with ⟨hreplies, rfl⟩ | ⟨e, hreplies, rfl⟩
  · rw [hreplies] at hproceeds
    rcases hproceeds with ⟨-, hnone, -⟩ | ⟨hcalls, hok, hbegins⟩ | ⟨-, ⟨e, hrefused⟩, -⟩
    · cases hnone
    · exact ⟨h.reached, h.installed, h.leads, hcalls, (List.cons.inj hok).2, hbegins⟩
    · cases hrefused
  · rw [hreplies] at hproceeds
    rcases hproceeds with ⟨-, hnone, -⟩ | ⟨-, hok, -⟩ | ⟨hcalls, -, herror⟩
    · cases hnone
    · cases hok
    · exact ⟨h.reached, h.installed, h.leads, hcalls, .inr ⟨rfl, herror⟩⟩

/-- Soundness is kept when the tool leaves an iteration of its loop. -/
theorem Sound.endIteration (h : s.Sound) (hstep : s.step options .endIteration = some t) :
    t.Sound := by
  obtain ⟨command, seenIn, seenNext, hphase, hcases⟩ := endIteration_inversion hstep
  have hproceeds := h.proceeds
  unfold Proceeds at hproceeds
  rw [hphase] at hproceeds
  obtain ⟨hcalls, hreplies, hwaits⟩ := hproceeds
  rcases hcases with ⟨rfl, rfl, rfl⟩ | ⟨-, rfl⟩
  · have hkept (phase : Phase) :
        (s.enter phase).messages = s.messages ∧
          (s.enter phase).cachedState = s.cachedState := by
      cases phase <;> exact ⟨rfl, rfl⟩
    refine ⟨?_, ?_, ?_, proceeds_afterCommand hwaits rfl hcalls hreplies⟩
    · rw [enter_skeleton]
      exact h.reached
    · rw [enter_skeleton]
      exact h.installed
    · rw [enter_skeleton, (hkept _).1, (hkept _).2]
      exact h.leads
  · exact ⟨h.reached, h.installed, h.leads, hcalls, hreplies, hwaits⟩

/-- **One step** of a command that is the only client. -/
theorem Sound.step (h : s.Sound) (hquiet : options.quiet = false) {event : UpdateEvent ρ}
    (hstep : s.stepAlone options event = some t) : t.Sound := by
  obtain ⟨hforeign, hstep⟩ := Option.ite_none_left_eq_some.1 hstep
  rw [Bool.not_eq_true] at hforeign
  cases event with
  | daemon event => exact h.daemon hforeign hstep
  | emitChanged => exact h.emitChanged hstep
  | receiveCall => exact h.receiveCall hstep
  | dispatch => exact h.dispatch hquiet hstep
  | start => exact h.start hstep
  | receiveReply => exact h.receiveReply hstep
  | endIteration => exact h.endIteration hstep

/-- The command begins on an installed system, while no worker is in flight. -/
def InitialAlone (s : Update ρ) : Prop :=
  s.Initial ∧ s.skeleton.daemon.installed = true ∧ s.skeleton.daemon.workers = []

/-- A run of the tool alone starts soundly. -/
theorem InitialAlone.sound (h : s.InitialAlone) : s.Sound where
  reached := h.1.reached
  installed := h.2.1
  leads := by
    rw [h.1.messages, h.1.cachedState]
    exact .nil _
  proceeds := by
    unfold Proceeds
    rw [h.1.phase]
    refine ⟨h.1.calls, h.1.replies, by rw [h.1.messages]; rfl, fun hbusy => ?_⟩
    obtain ⟨kind, hkind⟩ := exists_kind_of_mem_busy hbusy
    obtain ⟨task, htask, -⟩ := (h.1.reached.exclusive.state_iff kind).1 hkind
    rw [h.2.2] at htask
    cases htask

/-- Every state that the tool alone reaches is sound. -/
theorem sound_of_run (hquiet : options.quiet = false)
    (hrun : Run InitialAlone (stepAlone options) history s) : s.Sound := by
  induction hrun with
  | start h => exact h.sound
  | next _ hstep ih => exact ih.step hquiet hstep

/-- **The exit status.** An update that is not quiet and the only client of the daemon, on an
installed system and with no worker in flight at first, exits with 1 only if the daemon has come to
an error. It exits with 0 only if the update has been applied, or if a poll has announced `Ready`,
also one that has announced an error behind it. No worker is in flight then. -/
theorem exitStatus (hquiet : options.quiet = false)
    (hrun : Run InitialAlone (stepAlone options) history s) {status : ℕ}
    (hexited : s.phase = .exited status) :
    s.skeleton.daemon.workers = [] ∧
      ((status = 0 ∧ Succeeded s.skeleton.daemon.updater) ∨
        status = 1 ∧ s.skeleton.daemon.updater.state = .error) := by
  have hsound := sound_of_run hquiet hrun
  have hproceeds := hsound.proceeds
  unfold Proceeds at hproceeds
  rw [hexited] at hproceeds
  have hidle : s.skeleton.daemon.updater.state ∉ busy := by
    rcases hproceeds.2 with ⟨-, hsucceeded⟩ | ⟨-, herror⟩
    · exact hsucceeded.notMem_busy
    · rw [herror]
      decide
  refine ⟨hsound.reached.exclusive.idle fun kind hkind => ?_, hproceeds.2⟩
  exact hidle (hkind ▸ kind.state_mem_busy)

/-- The command looks at the state between the two signals of a poll that fails. -/
def failedPoll : List (UpdateEvent Unit) :=
  [.start, .receiveCall, .receiveReply, .dispatch, .endIteration, .emitChanged,
    .daemon (.finished 0 (.metadata (.error ⟨.ioFailed, "Could not resolve host"⟩)
      ⟨.ok (), .ok []⟩)), .dispatch, .dispatch, .endIteration]

/-- After a poll that fails the daemon is in its error state, and the tool exits with status 0. -/
theorem failedPoll_exitStatus :
    ∃ history s, exec (stepAlone ⟨false, false, 0⟩) [] begun failedPoll = some (history, s) ∧
      s.phase = .exited 0 ∧ s.skeleton.daemon.updater.state = .error ∧
      s.skeleton.daemon.workers = [] ∧
        ((0 = 0 ∧ Succeeded s.skeleton.daemon.updater) ∨
          0 = 1 ∧ s.skeleton.daemon.updater.state = .error) := by
  have hfinal : (exec (stepAlone ⟨false, false, 0⟩) [] begun failedPoll).map
      (fun run => (run.2.phase, run.2.skeleton.daemon.updater.state)) =
        some (.exited 0, .error) := by decide +kernel
  obtain ⟨⟨history, s⟩, hexec, hpair⟩ := Option.map_eq_some_iff.1 hfinal
  obtain ⟨hphase, hstate⟩ := Prod.mk.inj hpair
  exact ⟨history, s, hexec, hphase, hstate,
    exitStatus rfl (Run.of_exec (.start ⟨begun_initial, rfl, rfl⟩) hexec) hphase⟩

end Update

end Ctl
