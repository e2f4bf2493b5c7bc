import EosUpdater.Installer.Perform

/-!
# Runs over a list of actions

`Performed installation mode flags s l s'` says that every action of `l` succeeds in turn and leads
from `s` to `s'`. A run of `applyFlatpakRefActions` that succeeds has performed the whole list
(`apply_ok`), and one that fails has performed the part in front of some action that failed
(`apply_error`). In both cases the counter takes in the serials of the part performed
(`progressOf`), which for each file is the serial of its last action there
(`lookup_recorded`).
-/

namespace Eufi

open Euu

variable {σ : Type}

/-- One action, as the loop treats it in the given mode. -/
def stepAction (installation : FlatpakInstallation σ) (mode : ApplyMode) (flags : InstallerFlags)
    (s : σ) (action : FlatpakRemoteRefAction) : Except Failure Unit × σ :=
  if mode = .perform then performAction installation s action flags else (.ok (), s)

/-- In perform mode the loop performs the action. -/
theorem stepAction_perform (installation : FlatpakInstallation σ) (flags : InstallerFlags) (s : σ)
    (action : FlatpakRemoteRefAction) :
    stepAction installation .perform flags s action =
      performAction installation s action flags := if_pos rfl

/-- The actions of a list are expected by the assertion on dependencies. -/
def Expected (flags : InstallerFlags) (actions : List FlatpakRemoteRefAction) : Prop :=
  ∀ a ∈ actions, a.isDependency = true → flags.alsoPull = true

/-- Every action of a list succeeds in turn. -/
inductive Performed (installation : FlatpakInstallation σ) (mode : ApplyMode)
    (flags : InstallerFlags) : σ → List FlatpakRemoteRefAction → σ → Prop
  | nil (s : σ) : Performed installation mode flags s [] s
  | cons {s s₁ s₂ : σ} {a : FlatpakRemoteRefAction} {l : List FlatpakRemoteRefAction}
      (hstep : stepAction installation mode flags s a = (.ok (), s₁))
      (hrest : Performed installation mode flags s₁ l s₂) :
      Performed installation mode flags s (a :: l) s₂

/-- The progresses after a list of actions, starting from those collected before. -/
def collectProgresses (newProgresses : Progresses) (actions : List FlatpakRemoteRefAction) :
    Progresses :=
  actions.foldl (fun t a => t.replace a.source a.serial) newProgresses

/-- The progresses that a list of actions stands for. -/
def progressOf (actions : List FlatpakRemoteRefAction) : Progresses :=
  collectProgresses GHashTable.empty actions

/-- The last action of a file in a list. -/
def lastOfFile (actions : List FlatpakRemoteRefAction) (name : String) :
    Option FlatpakRemoteRefAction :=
  (actions.filter fun a => decide (a.source = name)).getLast?

theorem mem_of_lastOfFile {actions : List FlatpakRemoteRefAction} {name : String}
    {a : FlatpakRemoteRefAction} (h : lastOfFile actions name = some a) :
    a ∈ actions ∧ a.source = name := by
  obtain ⟨ha, hsource⟩ := List.mem_filter.1 (List.mem_of_getLast? h)
  exact ⟨ha, of_decide_eq_true hsource⟩

/-- Without a last action there is none of that file. -/
theorem source_ne_of_lastOfFile {actions : List FlatpakRemoteRefAction} {name : String}
    (h : lastOfFile actions name = none) : ∀ a ∈ actions, a.source ≠ name := by
  intro a ha hsource
  have hmem : a ∈ actions.filter fun b => decide (b.source = name) :=
    List.mem_filter.2 ⟨ha, decide_eq_true hsource⟩
  rw [List.getLast?_eq_none_iff.1 h] at hmem
  cases hmem

private theorem lookup_collectProgresses (actions : List FlatpakRemoteRefAction)
    (newProgresses : Progresses) (name : String) :
    (collectProgresses newProgresses actions).lookup name =
      ((lastOfFile actions name).map FlatpakRemoteRefAction.serial).or
        (newProgresses.lookup name) := by
  -- a progress is replaced by each later action of its file, so the table collected before varies
  induction actions generalizing newProgresses with
  | nil => rfl
  | cons a l ih =>
      rw [collectProgresses, List.foldl_cons, ← collectProgresses, ih, GHashTable.lookup_replace,
        lastOfFile, lastOfFile]
      by_cases ha : a.source = name
      · rw [List.filter_cons_of_pos (by simpa using ha), List.getLast?_cons, if_pos ha]
        cases (l.filter fun a => decide (a.source = name)).getLast? <;> rfl
      · rw [List.filter_cons_of_neg (by simpa using ha), if_neg ha]

/-- The progress recorded for a file is the serial of its last action, or what it was before. -/
theorem lookup_recorded (progresses : Progresses) (actions : List FlatpakRemoteRefAction)
    (name : String) :
    (progresses.setAll (progressOf actions)).lookup name =
      ((lastOfFile actions name).map FlatpakRemoteRefAction.serial).or
        (progresses.lookup name) := by
  rw [GHashTable.lookup_setAll, progressOf, lookup_collectProgresses, GHashTable.lookup_empty,
    Option.or_none]

/-- Recording actions beyond the progress of their files never decreases it. -/
theorem progress_le_recorded {progresses : Progresses} {actions : List FlatpakRemoteRefAction}
    (hnew : ∀ a ∈ actions, ∀ progress, progresses.lookup a.source = some progress →
      progress < a.serial) {name : String} {progress : Int32}
    (hprogress : progresses.lookup name = some progress) :
    ∃ progress', (progresses.setAll (progressOf actions)).lookup name = some progress' ∧
      progress ≤ progress' := by
  rw [lookup_recorded, hprogress]
  cases hlast : lastOfFile actions name with
  | none => exact ⟨progress, rfl, Int32.le_refl _⟩
  | some a =>
      obtain ⟨ha, rfl⟩ := mem_of_lastOfFile hlast
      exact ⟨a.serial, rfl, Int32.le_of_lt (hnew a ha progress hprogress)⟩

variable {installation : FlatpakInstallation σ} {io : CounterIO} {mode : ApplyMode}
variable {flags : InstallerFlags} {s s₁ s₂ : σ} {counterFile : Option Progresses}
variable {actions done rest : List FlatpakRemoteRefAction} {a : FlatpakRemoteRefAction}

/-! ### The loop -/

/-- Once part of a list is performed, the loop goes on with the rest. -/
theorem applyLoop_append (hperformed : Performed installation mode flags s done s₁)
    (hexpected : Expected flags done) (rest : List FlatpakRemoteRefAction)
    (newProgresses : Progresses) :
    applyLoop installation mode flags (done ++ rest) s newProgresses =
      applyLoop installation mode flags rest s₁ (collectProgresses newProgresses done) := by
  induction hperformed generalizing newProgresses with
  | nil s => rfl
  | @cons s s₁ s₂ a l hstep _ ih =>
      -- the assertion on dependencies holds
      have ha : (a.isDependency && !flags.alsoPull) = false := by
        cases hdep : a.isDependency with
        | false => rfl
        | true => rw [hexpected a List.mem_cons_self hdep]; rfl
      rw [stepAction] at hstep
      rw [List.cons_append, applyLoop, ha, if_neg Bool.false_ne_true, hstep]
      exact ih (fun b hb => hexpected b (List.mem_cons_of_mem _ hb)) _

/-- How the loop ends: at the end of the list, or at an action that fails. -/
theorem applyLoop_cases (installation : FlatpakInstallation σ) (mode : ApplyMode)
    (flags : InstallerFlags) (s : σ) (actions : List FlatpakRemoteRefAction)
    (newProgresses : Progresses) :
    (∃ s', Performed installation mode flags s actions s' ∧
      applyLoop installation mode flags actions s newProgresses =
        .done s' (collectProgresses newProgresses actions)) ∨
    (∃ done a rest s₁ s₂ e, actions = done ++ a :: rest ∧
      Performed installation mode flags s done s₁ ∧
      stepAction installation mode flags s₁ a = (.error (.error e), s₂) ∧
      applyLoop installation mode flags actions s newProgresses =
        .failed e s₂ (collectProgresses newProgresses done)) ∨
    (∃ s', applyLoop installation mode flags actions s newProgresses = .aborted s') := by
  induction actions generalizing s newProgresses with
  | nil => exact Or.inl ⟨s, .nil s, rfl⟩
  | cons a l ih =>
      rw [applyLoop, ← stepAction]
      split
      -- the assertion on dependencies fails
      · exact Or.inr (Or.inr ⟨s, rfl⟩)
      cases hstep : stepAction installation mode flags s a with
      | mk result s' =>
          cases result with
          | error failure =>
              cases failure with
              | error e => exact Or.inr (Or.inl ⟨[], a, l, s, s', e, rfl, .nil s, hstep, rfl⟩)
              | aborted => exact Or.inr (Or.inr ⟨s', rfl⟩)
          | ok =>
              -- the action succeeds; the rest of the list decides how the loop ends
              rcases ih s' (newProgresses.replace a.source a.serial) with
                ⟨s'', hperformed, hloop⟩ | ⟨done, b, rest, s₁, s₂, e, rfl, hperformed, hb, hloop⟩ |
                ⟨s'', hloop⟩
              · exact Or.inl ⟨s'', .cons hstep hperformed, hloop⟩
              · exact Or.inr (Or.inl ⟨a :: done, b, rest, s₁, s₂, e, rfl, .cons hstep hperformed,
                  hb, hloop⟩)
              · exact Or.inr (Or.inr ⟨s'', hloop⟩)

/-! ### The run -/

/-- A run that succeeds has performed every action and recorded their serials. -/
theorem apply_ok
    (h : (applyFlatpakRefActions installation .reliable s counterFile actions mode flags).result =
      .ok ()) :
    ∃ s', Performed installation mode flags s actions s' ∧
      applyFlatpakRefActions installation .reliable s counterFile actions mode flags =
        ⟨.ok (), s', some ((counterFile.getD GHashTable.empty).setAll (progressOf actions))⟩ := by
  rcases applyLoop_cases installation mode flags s actions GHashTable.empty with
    ⟨s', hperformed, hloop⟩ | ⟨done, a, rest, s₁, s₂, e, -, -, -, hloop⟩ | ⟨s', hloop⟩
  · refine ⟨s', hperformed, ?_⟩
    rw [applyFlatpakRefActions, hloop]
    rfl
  · rw [applyFlatpakRefActions, hloop] at h
    cases h
  · rw [applyFlatpakRefActions, hloop] at h
    cases h

/-- Conversely, if every action can be performed, the run succeeds. -/
theorem apply_of_performed (hperformed : Performed installation mode flags s actions s₁)
    (hexpected : Expected flags actions) :
    applyFlatpakRefActions installation .reliable s counterFile actions mode flags =
      ⟨.ok (), s₁, some ((counterFile.getD GHashTable.empty).setAll (progressOf actions))⟩ := by
  have hloop := applyLoop_append hperformed hexpected [] GHashTable.empty
  rw [List.append_nil] at hloop
  rw [applyFlatpakRefActions, hloop]
  rfl

/-- A run that fails has performed the actions in front of the one that failed, and recorded
their serials only. -/
theorem apply_error {e : GError}
    (h : (applyFlatpakRefActions installation .reliable s counterFile actions mode flags).result =
      .error (.error e)) :
    ∃ done a rest s₁ s₂, actions = done ++ a :: rest ∧
      Performed installation mode flags s done s₁ ∧
      stepAction installation mode flags s₁ a = (.error (.error e), s₂) ∧
      applyFlatpakRefActions installation .reliable s counterFile actions mode flags =
        ⟨.error (.error e), s₂,
          some ((counterFile.getD GHashTable.empty).setAll (progressOf done))⟩ := by
  rcases applyLoop_cases installation mode flags s actions GHashTable.empty with
    ⟨s', -, hloop⟩ | ⟨done, a, rest, s₁, s₂, e', hsplit, hperformed, hstep, hloop⟩ | ⟨s', hloop⟩
  · rw [applyFlatpakRefActions, hloop] at h
    simp only [updateCounter_reliable] at h
    cases h
  · rw [applyFlatpakRefActions, hloop] at h ⊢
    cases h
    exact ⟨done, a, rest, s₁, s₂, hsplit, hperformed, hstep, rfl⟩
  · rw [applyFlatpakRefActions, hloop] at h
    cases h

/-- Conversely, a run that reaches an action which fails ends there. -/
theorem apply_of_failure {e : GError} (counterFile : Option Progresses)
    (hperformed : Performed installation mode flags s done s₁)
    (hexpected : Expected flags (done ++ a :: rest))
    (hstep : stepAction installation mode flags s₁ a = (.error (.error e), s₂)) :
    applyFlatpakRefActions installation .reliable s counterFile (done ++ a :: rest) mode flags =
      ⟨.error (.error e), s₂,
        some ((counterFile.getD GHashTable.empty).setAll (progressOf done))⟩ := by
  have ha : (a.isDependency && !flags.alsoPull) = false := by
    cases hdep : a.isDependency with
    | false => rfl
    | true => rw [hexpected a (by simp) hdep]; rfl
  have hloop := applyLoop_append hperformed
    (fun b hb => hexpected b (List.mem_append_left _ hb)) (a :: rest) GHashTable.empty
  rw [applyLoop, ← stepAction, ha, if_neg Bool.false_ne_true, hstep] at hloop
  rw [applyFlatpakRefActions, hloop]
  rfl

/-- However a run ends, the counter has taken in part of the list from its front, or nothing. -/
theorem apply_counterFile (installation : FlatpakInstallation σ) (s : σ)
    (counterFile : Option Progresses) (actions : List FlatpakRemoteRefAction) (mode : ApplyMode)
    (flags : InstallerFlags) :
    (∃ done rest, actions = done ++ rest ∧
      (applyFlatpakRefActions installation .reliable s counterFile actions mode flags).counterFile =
        some ((counterFile.getD GHashTable.empty).setAll (progressOf done))) ∨
    (applyFlatpakRefActions installation .reliable s counterFile actions mode flags).counterFile =
      counterFile := by
  rw [applyFlatpakRefActions]
  rcases applyLoop_cases installation mode flags s actions GHashTable.empty with
    ⟨s', -, hloop⟩ | ⟨done, a, rest, s₁, s₂, e, hsplit, -, -, hloop⟩ | ⟨s', hloop⟩
  · rw [hloop]
    exact Or.inl ⟨actions, [], by simp, rfl⟩
  · rw [hloop]
    exact Or.inl ⟨done, a :: rest, hsplit, rfl⟩
  · rw [hloop]
    exact Or.inr rfl

/-! ### The installed refs -/

/-- The state of a ref after a list of actions with at most one per ref. -/
def refsAfter (refs : FlatpakRef → RefState) (actions : List FlatpakRemoteRefAction) :
    FlatpakRef → RefState :=
  actions.foldl (fun r a => setRef r (refKey a) (RefState.after a.type (r (refKey a)))) refs

variable {refs : σ → FlatpakRef → RefState}

/-- A list of actions that are performed changes the installed refs by their types. -/
theorem refs_of_performed (htracks : TracksRefs installation refs)
    (h : Performed installation .perform flags s actions s₁) :
    refs s₁ = refsAfter (refs s) actions := by
  induction h with
  | nil s => rfl
  | cons hstep _ ih =>
      rw [stepAction_perform] at hstep
      rw [ih, performAction_ok htracks hstep]
      rfl

theorem refsAfter_append (refs : FlatpakRef → RefState) (l l' : List FlatpakRemoteRefAction) :
    refsAfter refs (l ++ l') = refsAfter (refsAfter refs l) l' :=
  List.foldl_append

/-- A ref that no action is about keeps its state. -/
theorem refsAfter_of_ne {refs : FlatpakRef → RefState} {ref : FlatpakRef}
    {l : List FlatpakRemoteRefAction} (h : ∀ a ∈ l, refKey a ≠ ref) :
    refsAfter refs l ref = refs ref := by
  induction l generalizing refs with
  | nil => rfl
  | cons a l ih =>
      rw [refsAfter, List.foldl_cons, ← refsAfter,
        ih fun b hb => h b (List.mem_cons_of_mem _ hb), setRef,
        if_neg (h a List.mem_cons_self).symm]

/-- A ref that one action is about has the state after it. -/
theorem refsAfter_of_mem {refs : FlatpakRef → RefState} {l : List FlatpakRemoteRefAction}
    (hdistinct : l.Pairwise fun a b => refKey a ≠ refKey b) (ha : a ∈ l) :
    refsAfter refs l (refKey a) = RefState.after a.type (refs (refKey a)) := by
  induction l generalizing refs with
  | nil => cases ha
  | cons b l ih =>
      rw [List.pairwise_cons] at hdistinct
      rw [refsAfter, List.foldl_cons, ← refsAfter]
      rcases List.mem_cons.1 ha with rfl | ha
      -- no later action is about the ref
      · rw [refsAfter_of_ne fun c hc => (hdistinct.1 c hc).symm, setRef, if_pos rfl]
      · rw [ih hdistinct.2 ha, setRef, if_neg (hdistinct.1 a ha).symm]

end Eufi
