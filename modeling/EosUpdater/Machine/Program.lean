import Mathlib.Data.Fintype.Card
import Mathlib.Logic.Relation
import Mathlib.Order.WellFounded
import Mathlib.Tactic.Common

/-!
# Programs with a state, errors and loops

A `Program σ ε α` reads and writes a state `σ`, and returns a value or throws an error, unless it
does not come to an end. `Ends program s result t` says that it ends so, and is computed from what
the parts of the program do (`ends_bind_ok` and its siblings).

`loop` repeats a step until this has a result, with a bound on how often; a loop that does not come
to an end has no result under any bound. Where the steps follow a relation that has at most one
successor (`Follows`), the loop comes to an end exactly if the chain of
successors does, and on finitely many elements this is the case exactly if the chain does not run
into a cycle (`exists_end_iff_no_cycle`).
-/

namespace Machine

/-! ### Chains -/

section Chain

open Relation

variable {α : Type*} {R : α → α → Prop} {a b c : α}

/-- On a cycle of a relation with at most one successor, everything that can be reached is on the
cycle. -/
theorem transGen_self_of_reachable (hR : Relator.RightUnique R) (hcycle : TransGen R b b)
    (h : ReflTransGen R b c) : TransGen R c c := by
  induction h with
  | refl => exact hcycle
  | tail _ hstep ih =>
      -- the cycle leaves through the only successor
      obtain ⟨d, hd, hback⟩ := TransGen.head'_iff.1 ih
      obtain rfl := hR hd hstep
      exact TransGen.tail' hback hstep

/-- Where only finitely many elements can be reached, the chain of successors comes to an end
exactly if it does not run into a cycle. -/
theorem exists_end_iff_no_cycle (hR : Relator.RightUnique R)
    (hfinite : Set.Finite {b | ReflTransGen R a b}) :
    (∃ b, ReflTransGen R a b ∧ ∀ c, ¬ R b c) ↔ ¬ ∃ b, ReflTransGen R a b ∧ TransGen R b b := by
  constructor
  · rintro ⟨b, hb, hend⟩ ⟨c, hc, hcycle⟩
    have hbcycle : TransGen R b b := by
      rcases ReflTransGen.total_of_right_unique hR hb hc with hbc | hcb
      · rcases ReflTransGen.cases_head hbc with rfl | ⟨d, hd, -⟩
        · exact hcycle
        · exact absurd hd (hend d)
      · exact transGen_self_of_reachable hR hcycle hcb
    obtain ⟨d, hd, -⟩ := TransGen.head'_iff.1 hbcycle
    exact hend d hd
  · intro hcycle
    -- without a cycle, "reachable in some steps" is a strict order on finitely many elements
    have : Finite {b | ReflTransGen R a b} := hfinite
    let after (x y : {b | ReflTransGen R a b}) : Prop := TransGen R y.1 x.1
    have : IsTrans _ after := ⟨fun _ _ _ hxy hyz => hyz.trans hxy⟩
    have : Std.Irrefl after := ⟨fun x hx => hcycle ⟨x.1, x.2, hx⟩⟩
    obtain ⟨⟨b, hb⟩, -, hlast⟩ :=
      (Finite.wellFounded_of_trans_of_irrefl after).has_min Set.univ ⟨⟨a, .refl⟩, trivial⟩
    exact ⟨b, hb, fun c hc => hlast ⟨c, hb.tail hc⟩ trivial (.single hc)⟩

end Chain

/-! ### Programs -/

/-- A sequence of two computations that can fail has a result if both do. -/
@[simp] theorem except_bind_ok {ε α β : Type*} {x : Except ε α} {f : α → Except ε β} {b : β} :
    (x.bind f) = .ok b ↔ ∃ a, x = .ok a ∧ f a = .ok b := by
  cases x <;> simp [Except.bind]

/-- A result has a value exactly if it is that value. -/
@[simp] theorem except_toOption_eq_some {ε α : Type*} {x : Except ε α} {a : α} :
    x.toOption = some a ↔ x = .ok a := by
  cases x <;> simp [Except.toOption]

/-- A program over the states `σ` that returns a value or throws an error, or does not end. -/
abbrev Program (σ ε α : Type) := ExceptT ε (StateT σ Option) α

namespace Program

variable {σ ε α β γ : Type} {s t : σ} {e : ε}

/-- From a state, the program ends with a result and in a state. -/
def Ends (program : Program σ ε α) (s : σ) (result : Except ε α) (t : σ) : Prop :=
  program.run.run s = some (result, t)

/-- Read the state. -/
def query (f : σ → Except ε α) : Program σ ε α := ExceptT.mk fun s => some (f s, s)

/-- Read and write the state. -/
def perform (f : σ → Except ε α × σ) : Program σ ε α := ExceptT.mk fun s => some (f s)

/-- Wait for a value, perhaps forever. -/
def await (a : Option α) : Program σ ε α := ExceptT.mk fun s => a.map fun a => (.ok a, s)

/-- Run a program, and go on whether or not it throws an error. -/
def ignoreError (program : Program σ ε α) : Program σ ε Unit :=
  ExceptT.mk do
    let _ ← program.run
    return .ok ()

/-- Repeat a step until it has a result, at most as often as the bound says. -/
def loop (step : β → Program σ ε (β ⊕ γ)) : ℕ → β → Program σ ε γ
  | 0, _ => ExceptT.mk fun _ => none
  | bound + 1, b => do
      match ← step b with
      | .inl b' => loop step bound b'
      | .inr result => return result

@[simp] theorem ends_pure {a : α} {result : Except ε α} :
    (pure a : Program σ ε α).Ends s result t ↔ result = .ok a ∧ t = s := by
  simp [Ends, eq_comm]

@[simp] theorem ends_throw {result : Except ε α} :
    (throw e : Program σ ε α).Ends s result t ↔ result = .error e ∧ t = s := by
  simp [Ends, eq_comm]

@[simp] theorem ends_query {f : σ → Except ε α} {result : Except ε α} :
    (query f).Ends s result t ↔ result = f s ∧ t = s := by
  show some (f s, s) = some (result, t) ↔ _
  simp [eq_comm]

@[simp] theorem ends_perform {f : σ → Except ε α × σ} {result : Except ε α} :
    (perform f).Ends s result t ↔ f s = (result, t) := by
  show some (f s) = some (result, t) ↔ _
  simp

/-- A wait ends only with an answer. -/
@[simp] theorem ends_await {a : Option α} {result : Except ε α} :
    (await a : Program σ ε α).Ends s result t ↔ ∃ b, a = some b ∧ result = .ok b ∧ t = s := by
  show (a.map fun a => ((.ok a : Except ε α), s)) = some (result, t) ↔ _
  simp [eq_comm]

/-- A program whose error is ignored ends where it does, with success. -/
@[simp] theorem ends_ignoreError {program : Program σ ε α} {result : Except ε Unit} :
    (ignoreError program).Ends s result t ↔
      (∃ ended, program.Ends s ended t) ∧ result = .ok () := by
  simp only [Ends, ignoreError, ExceptT.run_mk, StateT.run_bind]
  cases h : program.run.run s with
  | none => simp
  | some ended =>
      obtain ⟨ended, s'⟩ := ended
      simp [and_comm, eq_comm]

/-- A sequence of two programs ends with a value if both do. -/
@[simp] theorem ends_bind_ok {program : Program σ ε α} {f : α → Program σ ε β} {b : β} :
    (program >>= f).Ends s (.ok b) t ↔
      ∃ a s', program.Ends s (.ok a) s' ∧ (f a).Ends s' (.ok b) t := by
  simp only [Ends, ExceptT.run_bind, StateT.run_bind]
  cases h : program.run.run s with
  | none => simp
  | some ended =>
      obtain ⟨result, s'⟩ := ended
      cases result <;> simp

@[simp] theorem ends_map_ok {program : Program σ ε α} {f : α → β} {b : β} :
    (f <$> program).Ends s (.ok b) t ↔ ∃ a, program.Ends s (.ok a) t ∧ f a = b := by
  rw [map_eq_pure_bind, ends_bind_ok]
  simp [eq_comm]

/-- A sequence of two programs ends with an error if one of them does. -/
@[simp] theorem ends_bind_error {program : Program σ ε α} {f : α → Program σ ε β} :
    (program >>= f).Ends s (.error e) t ↔
      program.Ends s (.error e) t ∨
        ∃ a s', program.Ends s (.ok a) s' ∧ (f a).Ends s' (.error e) t := by
  simp only [Ends, ExceptT.run_bind, StateT.run_bind]
  cases h : program.run.run s with
  | none => simp
  | some ended =>
      obtain ⟨result, s'⟩ := ended
      cases result <;> simp

/-- How a sequence of two programs ends. -/
theorem ends_bind {program : Program σ ε α} {f : α → Program σ ε β} {result : Except ε β} :
    (program >>= f).Ends s result t ↔
      (∃ e, program.Ends s (.error e) t ∧ result = .error e) ∨
        ∃ a s', program.Ends s (.ok a) s' ∧ (f a).Ends s' result t := by
  cases result with
  | ok b => simp
  | error e => simp

/-- Once the first of two programs has ended with a value, the second one goes on. -/
theorem ends_bind_of_ok {program : Program σ ε α} {f : α → Program σ ε β} {a : α} {s' : σ}
    {result : Except ε β} (h : program.Ends s (.ok a) s') :
    (program >>= f).Ends s result t ↔ (f a).Ends s' result t := by
  have hrun : program.run.run s = some (.ok a, s') := h
  simp only [Ends, ExceptT.run_bind, StateT.run_bind, hrun]
  rfl

/-- A program ends in one way only. -/
theorem Ends.unique {program : Program σ ε α} {result result' : Except ε α} {t' : σ}
    (h : program.Ends s result t) (h' : program.Ends s result' t') : result = result' ∧ t = t' :=
  Prod.mk.inj (Option.some_inj.1 (h.symm.trans h'))

/-! ### Frames -/

section Frame

variable {R : σ → σ → Prop}

/-- Whichever way a program ends, its states are related. -/
def Keeps (R : σ → σ → Prop) (program : Program σ ε α) : Prop :=
  ∀ s result t, program.Ends s result t → R s t

theorem keeps_pure [Std.Refl R] (a : α) : Keeps R (pure a : Program σ ε α) := by
  intro s result t h
  obtain ⟨-, rfl⟩ := ends_pure.1 h
  exact Std.Refl.refl t

theorem keeps_throw [Std.Refl R] (e : ε) : Keeps R (throw e : Program σ ε α) := by
  intro s result t h
  obtain ⟨-, rfl⟩ := ends_throw.1 h
  exact Std.Refl.refl t

theorem keeps_query [Std.Refl R] (f : σ → Except ε α) : Keeps R (query f) := by
  intro s result t h
  obtain ⟨-, rfl⟩ := ends_query.1 h
  exact Std.Refl.refl t

theorem keeps_perform {f : σ → Except ε α × σ} (h : ∀ s, R s (f s).2) : Keeps R (perform f) := by
  intro s result t hend
  have hkeeps := h s
  rwa [ends_perform.1 hend] at hkeeps

/-- A sequence keeps a transitive relation if its parts do. -/
theorem Keeps.bind [IsTrans σ R] {program : Program σ ε α} {f : α → Program σ ε β}
    (h : Keeps R program) (hf : ∀ a, Keeps R (f a)) : Keeps R (program >>= f) := by
  intro s result t hend
  rcases ends_bind.1 hend with ⟨e, hend, -⟩ | ⟨a, s', hprogram, hend⟩
  · exact h s _ t hend
  · exact IsTrans.trans s s' t (h s _ s' hprogram) (hf a s' _ t hend)

/-- What follows a query is only reached with what it has returned. -/
theorem keeps_query_bind [Std.Refl R] {f : σ → Except ε α} {g : α → Program σ ε β}
    (h : ∀ s a, f s = .ok a → Keeps R (g a)) : Keeps R (query f >>= g) := by
  intro s result t hend
  rcases ends_bind.1 hend with ⟨e, hquery, -⟩ | ⟨a, s', hquery, hrest⟩
  · exact keeps_query f s _ t hquery
  · obtain ⟨hread, rfl⟩ := ends_query.1 hquery
    exact h s' a hread.symm s' result t hrest

end Frame

/-! ### Programs that always end -/

section EndsWithin

variable {R : σ → σ → Prop}

/-- From every state the program ends, and its states are related. -/
def EndsWithin (R : σ → σ → Prop) (program : Program σ ε α) : Prop :=
  ∀ s, ∃ result t, program.Ends s result t ∧ R s t

theorem endsWithin_pure [Std.Refl R] (a : α) : EndsWithin R (pure a : Program σ ε α) :=
  fun s => ⟨_, s, ends_pure.2 ⟨rfl, rfl⟩, Std.Refl.refl s⟩

theorem endsWithin_throw [Std.Refl R] (e : ε) : EndsWithin R (throw e : Program σ ε α) :=
  fun s => ⟨_, s, ends_throw.2 ⟨rfl, rfl⟩, Std.Refl.refl s⟩

theorem endsWithin_query [Std.Refl R] (f : σ → Except ε α) : EndsWithin R (query f) :=
  fun s => ⟨_, s, ends_query.2 ⟨rfl, rfl⟩, Std.Refl.refl s⟩

theorem endsWithin_perform {f : σ → Except ε α × σ} (h : ∀ s, R s (f s).2) :
    EndsWithin R (perform f) :=
  fun s => ⟨(f s).1, (f s).2, ends_perform.2 rfl, h s⟩

/-- A sequence ends within a transitive relation if its parts do. -/
theorem EndsWithin.bind [IsTrans σ R] {program : Program σ ε α} {f : α → Program σ ε β}
    (h : EndsWithin R program) (hf : ∀ a, EndsWithin R (f a)) : EndsWithin R (program >>= f) := by
  intro s
  obtain ⟨result, t, hend, hst⟩ := h s
  cases result with
  | error e => exact ⟨_, t, ends_bind_error.2 (Or.inl hend), hst⟩
  | ok a =>
      obtain ⟨result, u, hrest, htu⟩ := hf a t
      exact ⟨result, u, (ends_bind_of_ok hend).2 hrest, IsTrans.trans s t u hst htu⟩

/-- A program whose error is ignored succeeds. -/
theorem EndsWithin.ignoreError {program : Program σ ε α} (h : EndsWithin R program) (s : σ) :
    ∃ t, (ignoreError program).Ends s (.ok ()) t ∧ R s t := by
  obtain ⟨result, t, hend, hst⟩ := h s
  exact ⟨t, ends_ignoreError.2 ⟨⟨result, hend⟩, rfl⟩, hst⟩

end EndsWithin

/-! ### Loops -/

section Loop

variable {ι : Type*} {R : ι → ι → Prop} {step : β → Program σ ε (β ⊕ γ)} {bound : ℕ} {b : β} {c : γ}

/-- A loop whose body goes on ends as the rest of it. -/
theorem ends_loop_of_inl {b' : β} {s' : σ} {result : Except ε γ}
    (h : (step b).Ends s (.ok (.inl b')) s') :
    (loop step (bound + 1) b).Ends s result t ↔ (loop step bound b').Ends s' result t :=
  ends_bind_of_ok h

/-- A loop whose body is done ends with its result. -/
theorem ends_loop_of_inr {s' : σ} {result : Except ε γ} (h : (step b).Ends s (.ok (.inr c)) s') :
    (loop step (bound + 1) b).Ends s result t ↔ result = .ok c ∧ t = s' :=
  (ends_bind_of_ok h).trans ends_pure

/-- What holds when the loop starts, and is preserved by every step that has no result, leads to
what holds of the result. -/
theorem of_loop_ends {inv : β → σ → Prop} {post : γ → σ → Prop}
    (hcontinue : ∀ b s b' t, inv b s → (step b).Ends s (.ok (.inl b')) t → inv b' t)
    (hresult : ∀ b s c t, inv b s → (step b).Ends s (.ok (.inr c)) t → post c t)
    (hinv : inv b s) (h : (loop step bound b).Ends s (.ok c) t) : post c t := by
  induction bound generalizing b s with
  | zero => cases h
  | succ bound ih =>
      obtain ⟨b' | c', s', hstep, -⟩ := ends_bind_ok.1 h
      · exact ih (hcontinue b s b' s' hinv hstep) ((ends_loop_of_inl hstep).1 h)
      · obtain ⟨hc, rfl⟩ := (ends_loop_of_inr hstep).1 h
        cases hc
        exact hresult b s c t hinv hstep

/-- A step follows a relation: from what stands for an element, it goes on with what stands for a
successor, or it has a result for an element without successors. -/
def Follows (step : β → Program σ ε (β ⊕ γ)) (R : ι → ι → Prop) (rel : ι → β → σ → Prop)
    (post : ι → γ → σ → Prop) : Prop :=
  ∀ i b s, rel i b s →
    (∃ j b' t, R i j ∧ (step b).Ends s (.ok (.inl b')) t ∧ rel j b' t) ∨
      (∀ j, ¬ R i j) ∧ ∃ c t, (step b).Ends s (.ok (.inr c)) t ∧ post i c t

variable {rel : ι → β → σ → Prop} {post : ι → γ → σ → Prop} {i j : ι}

/-- If the chain of successors comes to an end, so does the loop. -/
theorem Follows.loop_ends (h : Follows step R rel post) (hR : Relator.RightUnique R)
    (hchain : Relation.ReflTransGen R i j) (hend : ∀ k, ¬ R j k) (hrel : rel i b s) :
    ∃ bound c t, (loop step bound b).Ends s (.ok c) t ∧ post j c t := by
  induction hchain using Relation.ReflTransGen.head_induction_on generalizing b s with
  | refl =>
      rcases h _ b s hrel with ⟨k, -, -, hk, -⟩ | ⟨-, c, t, hstep, hpost⟩
      · exact absurd hk (hend k)
      · exact ⟨1, c, t, (ends_loop_of_inr hstep).2 ⟨rfl, rfl⟩, hpost⟩
  | head hij _ ih =>
      rcases h _ b s hrel with ⟨k, b', s', hk, hstep, hrel'⟩ | ⟨hnone, -⟩
      · obtain rfl := hR hk hij
        obtain ⟨bound, c, t, hloop, hpost⟩ := ih hrel'
        exact ⟨bound + 1, c, t, (ends_loop_of_inl hstep).2 hloop, hpost⟩
      · exact absurd hij (hnone _)

/-- If the loop comes to an end, so does the chain of successors, and the result is the one for its
last element. -/
theorem Follows.of_loop_ends (h : Follows step R rel post) (hrel : rel i b s)
    {result : Except ε γ} (hloop : (loop step bound b).Ends s result t) :
    ∃ j c, Relation.ReflTransGen R i j ∧ (∀ k, ¬ R j k) ∧ result = .ok c ∧ post j c t := by
  induction bound generalizing i b s with
  | zero => cases hloop
  | succ bound ih =>
      rcases h i b s hrel with ⟨k, b', s', hk, hstep, hrel'⟩ | ⟨hnone, c, s', hstep, hpost⟩
      · obtain ⟨j, c, hchain, hend, hresult, hpost⟩ := ih hrel' ((ends_loop_of_inl hstep).1 hloop)
        exact ⟨j, c, hchain.head hk, hend, hresult, hpost⟩
      · obtain ⟨hresult, rfl⟩ := (ends_loop_of_inr hstep).1 hloop
        exact ⟨i, c, .refl, hnone, hresult, hpost⟩

end Loop

end Program

end Machine
