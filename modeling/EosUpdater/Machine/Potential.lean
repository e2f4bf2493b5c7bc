import EosUpdater.Machine.Run

/-!
# Potentials

A state has a potential, which the events of a machine spend and which some of them bring in. If no
step takes more than it is given, then what a whole run has spent was there at its start or was
brought in since (`Run.spent_le`): where only events from outside bring anything in, the others
cannot go on for ever without them.
-/

namespace Machine

variable {σ ε : Type*} {initial : σ → Prop} {step : σ → ε → Option σ}
  {history : History σ ε} {s : σ}

/-- The sum of a cost of the events of a run. -/
def History.total (cost : ε → ℕ) : History σ ε → ℕ
  | [] => 0
  | τ :: history => cost τ.event + total cost history

@[simp] theorem History.total_nil (cost : ε → ℕ) :
    History.total cost ([] : History σ ε) = 0 := rfl

@[simp] theorem History.total_cons (cost : ε → ℕ) (τ : Transition σ ε) (history : History σ ε) :
    History.total cost (τ :: history) = cost τ.event + history.total cost := rfl

/-- Where some of the events cost the same and the others nothing, the total says how many of them
there were. -/
theorem History.total_ite (p : ε → Bool) (price : ℕ) (history : History σ ε) :
    history.total (fun event => if p event then price else 0) =
      price * (history.filter fun τ => p τ.event).length := by
  induction history with
  | nil => rfl
  | cons τ history ih =>
      rw [History.total_cons, ih, List.filter_cons]
      split
      · rw [List.length_cons, Nat.mul_succ, Nat.add_comm]
      · rw [Nat.zero_add]

/-- **Runs.** What a run has spent, and the potential it has left, was there at its start or was
brought in. -/
theorem Run.spent_le {potential : σ → ℕ} {spends brings : ε → ℕ} {bound : ℕ}
    (hrun : Run initial step history s) (hinitial : ∀ s, initial s → potential s ≤ bound)
    (hstep : ∀ {past s event t}, Run initial step past s → step s event = some t →
      potential t + spends event ≤ potential s + brings event) :
    potential s + history.total spends ≤ bound + history.total brings := by
  induction hrun with
  | start hs => simpa using hinitial _ hs
  | next hrun hnext ih =>
      have hpaid := hstep hrun hnext
      simp only [History.total_cons]
      omega

end Machine
