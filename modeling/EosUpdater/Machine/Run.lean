import Mathlib.Data.List.Basic
import Mathlib.Tactic.Common

/-!
# Runs of a machine

A machine has initial states and a step function, which returns nothing for an event that cannot
happen in a state. `Run` collects the runs from the initial states, with the history of the
transitions that were made. What holds of an initial state with no history, and is preserved by
every step, holds at the end of every run (`Run.invariant`); and as every transition of a run is the
last one of a shorter run (`Run.transition`), what is known about runs is known at each moment of a
run.

`latest observe` is what the most recent transition showed that an observer `observe` looks for.
-/

namespace Machine

variable {σ ε β : Type*} {initial : σ → Prop} {step : σ → ε → Option σ}

/-- One step of a run: the state it leaves, the event that is processed and the state it enters. -/
structure Transition (σ ε : Type*) where
  before : σ
  event : ε
  after : σ

/-- The transitions of a run so far, the most recent one first. -/
abbrev History (σ ε : Type*) := List (Transition σ ε)

variable {history past recent : History σ ε} {s : σ}

/-- `Run initial step history s`: a run from an initial state to `s`, with its history. -/
inductive Run (initial : σ → Prop) (step : σ → ε → Option σ) : History σ ε → σ → Prop
  | start {s : σ} (hinitial : initial s) : Run initial step [] s
  | next {history : History σ ε} {s t : σ} {event : ε} (hrun : Run initial step history s)
      (hstep : step s event = some t) : Run initial step (⟨s, event, t⟩ :: history) t

/-- What the initial states have and every step preserves, holds at the end of every run. -/
theorem Run.invariant {inv : History σ ε → σ → Prop} (hrun : Run initial step history s)
    (hinitial : ∀ s, initial s → inv [] s)
    (hpreserved : ∀ history s event t, inv history s → step s event = some t →
      inv (⟨s, event, t⟩ :: history) t) : inv history s := by
  induction hrun with
  | start hs => exact hinitial _ hs
  | next _ hstep ih => exact hpreserved _ _ _ _ ih hstep

/-- A run from fewer initial states is a run. -/
theorem Run.mono {initial' : σ → Prop} (hrun : Run initial step history s)
    (hinitial : ∀ s, initial s → initial' s) : Run initial' step history s := by
  induction hrun with
  | start hs => exact .start (hinitial _ hs)
  | next _ hstep ih => exact .next ih hstep

/-- What happened before any moment of a run is a run. -/
theorem Run.of_append (hrun : Run initial step (recent ++ past) s) :
    ∃ t, Run initial step past t := by
  -- the history has the most recent transition first, so undo the steps from its head
  induction recent generalizing s with
  | nil => exact ⟨s, hrun⟩
  | cons _ _ ih =>
      cases hrun with
      | next hrun _ => exact ih hrun

/-- Every transition of a run is a step from the end of a run. -/
theorem Run.transition {τ : Transition σ ε}
    (hrun : Run initial step (recent ++ τ :: past) s) :
    Run initial step past τ.before ∧ step τ.before τ.event = some τ.after := by
  obtain ⟨t, hpast⟩ := hrun.of_append
  cases hpast with
  | next hbefore hstep => exact ⟨hbefore, hstep⟩

/-- Every transition of a run is a step from the end of a run that is part of it. -/
theorem Run.of_mem {τ : Transition σ ε} (hrun : Run initial step history s) (h : τ ∈ history) :
    ∃ past, past ⊆ history ∧ Run initial step past τ.before ∧
      step τ.before τ.event = some τ.after := by
  obtain ⟨recent, past, rfl⟩ := List.append_of_mem h
  exact ⟨past, fun _ hmem => List.mem_append_right _ (List.mem_cons_of_mem _ hmem),
    hrun.transition⟩

/-- Where the initial states are good, and each transition of a run that leaves a good state leads
to a good one exactly under a condition, all the states of the run are good exactly if all its
transitions meet the condition. -/
theorem Run.forall_after_iff {good : σ → Prop} {condition : Transition σ ε → Prop}
    (hrun : Run initial step history s) (hinitial : ∀ s, initial s → good s)
    (hstep : ∀ τ ∈ history, good τ.before → (good τ.after ↔ condition τ)) :
    (∀ τ ∈ history, good τ.after) ↔ ∀ τ ∈ history, condition τ := by
  -- along the run, what is good so far makes the last state good
  suffices h : ((∀ τ ∈ history, good τ.after) ↔ ∀ τ ∈ history, condition τ) ∧
      ((∀ τ ∈ history, good τ.after) → good s) from h.1
  induction hrun with
  | start hs => exact ⟨by simp, fun _ => hinitial _ hs⟩
  | next _ _ ih =>
      rw [List.forall_mem_cons] at hstep
      obtain ⟨hiff, hlast⟩ := ih hstep.2
      simp only [List.forall_mem_cons]
      refine ⟨?_, fun h => h.1⟩
      constructor
      · rintro ⟨hafter, hgood⟩
        exact ⟨(hstep.1 (hlast hgood)).1 hafter, hiff.1 hgood⟩
      · rintro ⟨hcondition, hconditions⟩
        have hgood := hiff.2 hconditions
        exact ⟨(hstep.1 (hlast hgood)).2 hcondition, hgood⟩

/-! ### Observing a run -/

/-- What `observe` sees in the most recent transition in which it sees anything. -/
def latest (observe : Transition σ ε → Option β) (history : History σ ε) : Option β :=
  history.findSome? observe

variable {observe : Transition σ ε → Option β} {τ : Transition σ ε}

theorem latest_cons_of_some {b : β} (h : observe τ = some b) :
    latest observe (τ :: history) = some b := by
  simp [latest, List.findSome?, h]

theorem latest_cons_of_none (h : observe τ = none) :
    latest observe (τ :: history) = latest observe history := by
  simp [latest, List.findSome?, h]

/-! ### Executing a run -/

/-- Process events one after the other, recording the transitions. -/
def exec (step : σ → ε → Option σ) : History σ ε → σ → List ε → Option (History σ ε × σ)
  | history, s, [] => some (history, s)
  | history, s, event :: events =>
      match step s event with
      | none => none
      | some t => exec step (⟨s, event, t⟩ :: history) t events

/-- What is executed from the end of a run is a run. -/
theorem Run.of_exec {events : List ε} {history' : History σ ε} {s' : σ}
    (hrun : Run initial step history s)
    (hexec : exec step history s events = some (history', s')) :
    Run initial step history' s' := by
  induction events generalizing history s with
  | nil =>
      obtain ⟨rfl, rfl⟩ := Prod.mk.inj (Option.some.inj hexec)
      exact hrun
  | cons event events ih =>
      rw [exec] at hexec
      cases hstep : step s event with
      | none => simp [hstep] at hexec
      | some t =>
          rw [hstep] at hexec
          exact ih (hrun.next hstep) hexec

/-- What is executed are the events. -/
theorem event_mem_of_exec {events : List ε} {history' : History σ ε} {s' : σ}
    (hexec : exec step history s events = some (history', s')) :
    ∀ τ ∈ history', τ ∈ history ∨ τ.event ∈ events := by
  induction events generalizing history s with
  | nil =>
      obtain ⟨rfl, -⟩ := Prod.mk.inj (Option.some.inj hexec)
      exact fun _ => .inl
  | cons event events ih =>
      rw [exec] at hexec
      cases hstep : step s event with
      | none => simp [hstep] at hexec
      | some t =>
          rw [hstep] at hexec
          intro τ hτ
          rcases ih hexec τ hτ with hmem | hmem
          · rcases List.mem_cons.1 hmem with rfl | hmem
            · exact .inr List.mem_cons_self
            · exact .inl hmem
          · exact .inr (List.mem_cons_of_mem _ hmem)

end Machine
