import Mathlib.Data.Prod.Lex
import Mathlib.Data.List.Nodup
import Mathlib.Data.List.Induction
import EosUpdater.GLib.Sort
import Mathlib.Tactic.Common

/-!
# Overwriting by key

A list of writes is read from the left, each write addressed to the slot of its `key`. A `strong`
write replaces whatever its slot holds; a weak one replaces only nothing or another weak write.

* `winner l k` is what slot `k` holds at the end;
* `survivors l` are the writes that are still in their slot at the end, in list order.

If each slot's writes ascend by some `rank`, the winner of a slot is the write of greatest
`priority`, strong above weak and then by rank (`winner_eq_some_iff`). So the outcome depends on
the set of writes only, and a subset that contains the winner has the same winner.

Where a write gives way to what has a lower rank (`prefer`), the slot ends up with the same write
whatever their order, as long as no two have the same rank (`foldl_prefer_perm`).
-/

namespace Overwrite

variable {α κ : Type} (key : α → κ) (strong : α → Bool)

/-- What a slot holds after one write. -/
def supersede (existing : Option α) (a : α) : Option α :=
  match existing with
  | none => some a
  | some e => if strong a || !strong e then some a else some e

variable {strong} in
/-- A strong write is held, whatever was there. -/
theorem supersede_of_strong {a : α} (h : strong a = true) (existing : Option α) :
    supersede strong existing a = some a := by
  cases existing with
  | none => rfl
  | some e => simp [supersede, h]

/-- What slot `k` holds after all writes of `l`. -/
def winner [DecidableEq κ] (l : List α) (k : κ) : Option α :=
  (l.filter fun a => decide (key a = k)).foldl (supersede strong) none

/-- The writes of `l` that are in their slot at the end, in list order. Equal writes are told
apart by their position. -/
def survivors [DecidableEq κ] (l : List α) : List α :=
  (l.zipIdx.filter fun p => decide
    ((winner (fun q : α × ℕ => key q.1) (fun q => strong q.1) l.zipIdx (key p.1)).map Prod.snd =
      some p.2)).map Prod.fst

/-- Strong writes above weak ones, then by rank. -/
def priority {β : Type} (rank : α → β) (a : α) : Bool ×ₗ β := toLex (strong a, rank a)

section Split

variable {key strong} [DecidableEq κ] {l : List α} {k : κ} {x y z : α}

/-- The last write decides, together with what its slot held before. -/
theorem winner_concat (l : List α) (a : α) (k : κ) :
    winner key strong (l ++ [a]) k =
      if key a = k then supersede strong (winner key strong l k) a else winner key strong l k := by
  by_cases hk : key a = k
  · simp [winner, List.filter_append, hk]
  · simp [winner, List.filter_append, hk]

variable (key strong) in
/-- Every slot that is written to has a winner. -/
theorem exists_winner {b : α} (hb : b ∈ l) : ∃ x, winner key strong l (key b) = some x := by
  induction l using List.reverseRecOn with
  | nil => cases hb
  | append_singleton l a ih =>
      rw [winner_concat]
      by_cases hk : key a = key b
      · -- the last write goes to the slot, which holds it or what it held before
        rw [if_pos hk]
        cases winner key strong l (key b) with
        | none => exact ⟨a, rfl⟩
        | some e =>
            simp only [supersede]
            split
            · exact ⟨a, rfl⟩
            · exact ⟨e, rfl⟩
      · rw [if_neg hk]
        rcases List.mem_append.1 hb with hb | hb
        · exact ih hb
        · rw [List.mem_singleton.1 hb] at hk
          exact absurd rfl hk

/-- **Where the winner stands.** No strong write to its slot comes after it, no weak one either
unless the winner is strong, and a weak winner has no strong write in front of it. -/
theorem winner_split (h : winner key strong l k = some x) :
    ∃ l₁ l₂, l = l₁ ++ x :: l₂ ∧ key x = k ∧
      (∀ y ∈ l₂, key y = k → strong y = false ∧ strong x = true) ∧
      (strong x = false → ∀ y ∈ l₁, key y = k → strong y = false) := by
  induction l using List.reverseRecOn generalizing x with
  | nil => cases h
  | append_singleton l a ih =>
      rw [winner_concat] at h
      by_cases hk : key a = k
      · rw [if_pos hk] at h
        cases hw : winner key strong l k with
        | none =>
            rw [hw] at h
            obtain rfl : a = x := Option.some_inj.1 h
            refine ⟨l, [], rfl, hk, by simp, fun _ y hy hyk => ?_⟩
            -- an empty slot has not been written to
            obtain ⟨w, hw'⟩ := exists_winner key strong hy
            rw [hyk, hw] at hw'
            cases hw'
        | some e =>
            obtain ⟨l₁, l₂, rfl, hek, hafter, hbefore⟩ := ih hw
            simp only [hw, supersede] at h
            cases htake : strong a || !strong e with
            | true =>
                -- `a` has replaced `e`; if `a` is weak, so was `e`, and so was all before that
                rw [htake, if_pos rfl] at h
                obtain rfl : a = x := Option.some_inj.1 h
                refine ⟨l₁ ++ e :: l₂, [], rfl, hk, by simp, fun hweak y hy hyk => ?_⟩
                have hestrong : strong e = false := by simpa [hweak] using htake
                rcases List.mem_append.1 hy with hy | hy
                · exact hbefore hestrong y hy hyk
                rcases List.mem_cons.1 hy with rfl | hy
                · exact hestrong
                · exact (hafter y hy hyk).1
            | false =>
                -- the strong `e` stays, and `a` is a weak write after it
                rw [htake, if_neg Bool.false_ne_true] at h
                obtain rfl : e = x := Option.some_inj.1 h
                rw [Bool.or_eq_false_iff, Bool.not_eq_false'] at htake
                refine ⟨l₁, l₂ ++ [a], by simp, hek, fun y hy hyk => ?_, hbefore⟩
                rcases List.mem_append.1 hy with hy | hy
                · exact hafter y hy hyk
                · rw [List.mem_singleton.1 hy]
                  exact htake
      · -- the last write goes to another slot
        rw [if_neg hk] at h
        obtain ⟨l₁, l₂, rfl, hxk, hafter, hbefore⟩ := ih h
        refine ⟨l₁, l₂ ++ [a], by simp, hxk, fun y hy hyk => ?_, hbefore⟩
        rcases List.mem_append.1 hy with hy | hy
        · exact hafter y hy hyk
        · rw [List.mem_singleton.1 hy] at hyk
          exact absurd hyk hk

theorem mem_of_winner (h : winner key strong l k = some x) : x ∈ l := by
  obtain ⟨l₁, l₂, rfl, -⟩ := winner_split h
  exact List.mem_append_right _ List.mem_cons_self

/-- The winner of a key has that key. -/
theorem key_of_winner (h : winner key strong l k = some x) : key x = k := by
  obtain ⟨-, -, -, hkey, -⟩ := winner_split h
  exact hkey

/-- Any other strong write to the slot comes before the winner, which is strong then. -/
theorem before_winner (h : winner key strong l k = some x) (hy : y ∈ l) (hkey : key y = k)
    (hstrong : strong y = true) (hne : y ≠ x) : GLib.Before l y x ∧ strong x = true := by
  obtain ⟨l₁, l₂, rfl, -, hafter, hbefore⟩ := winner_split h
  rcases List.mem_append.1 hy with hy | hy
  · refine ⟨GLib.Before.of_mem_append hy List.mem_cons_self, ?_⟩
    by_contra hx
    rw [Bool.not_eq_true] at hx
    rw [hbefore hx y hy hkey] at hstrong
    cases hstrong
  · rw [(hafter y ((List.mem_cons.1 hy).resolve_left hne) hkey).1] at hstrong
    cases hstrong

/-- If the winner is weak, its slot has no strong write. -/
theorem weak_of_winner (h : winner key strong l k = some x) (hx : strong x = false) (hy : y ∈ l)
    (hkey : key y = k) : strong y = false := by
  by_contra hy'
  rw [Bool.not_eq_false] at hy'
  have hne : y ≠ x := fun heq => by rw [heq, hx] at hy'; cases hy'
  rw [(before_winner h hy hkey hy' hne).2] at hx
  cases hx

/-- If the winner is not behind `y`, then all that is behind `y` in its slot is weak, and the winner
strong. This includes `y` being the winner, if that occurs once. -/
theorem weak_behind (h : winner key strong l k = some x) (hy : ¬ GLib.Before l y x)
    (hbefore : GLib.Before l y z) (hkey : key z = k) : strong z = false ∧ strong x = true := by
  obtain ⟨l₁, l₂, rfl, -, hafter, -⟩ := winner_split h
  have hy₁ : y ∉ l₁ := fun hmem => hy (GLib.Before.of_mem_append hmem List.mem_cons_self)
  rcases hbefore.append_cases with hb | hb | ⟨hmem, -⟩
  · exact absurd hb.mem_left hy₁
  · rcases List.cons_sublist_cons'.1 hb with hb | ⟨-, hz⟩
    · exact hafter z (GLib.Before.mem_right hb) hkey
    · exact hafter z (List.singleton_sublist.1 hz) hkey
  · exact absurd hmem hy₁

/-- A slot that is written to by two lists in turn: the winner of the second supersedes that of the
first. -/
private theorem foldl_supersede (strong : α → Bool) (l : List α) (e : Option α) :
    l.foldl (supersede strong) e =
      (l.foldl (supersede strong) none).elim e (supersede strong e) := by
  induction l using List.reverseRecOn with
  | nil => rfl
  | append_singleton l a ih =>
      rw [List.foldl_concat, List.foldl_concat, ih]
      cases l.foldl (supersede strong) none with
      | none => rfl
      | some x =>
          cases e with
          | none => simp only [supersede, Option.elim_some]; split <;> rfl
          | some y =>
              -- superseding is associative, by the table of strengths
              cases hy : strong y <;> cases hx : strong x <;> cases ha : strong a <;>
                simp [supersede, hy, hx, ha]

theorem winner_append (l l' : List α) (k : κ) :
    winner key strong (l ++ l') k =
      (winner key strong l' k).elim (winner key strong l k)
        (supersede strong (winner key strong l k)) := by
  rw [winner, List.filter_append, List.foldl_append, foldl_supersede]
  rfl

/-- Lists may be replaced, within a concatenation, by lists with the same winners. -/
theorem winner_flatMap_congr {ι : Type} {f g : ι → List α} {is : List ι}
    (h : ∀ i ∈ is, winner key strong (f i) k = winner key strong (g i) k) :
    winner key strong (is.flatMap f) k = winner key strong (is.flatMap g) k := by
  induction is with
  | nil => rfl
  | cons i is ih =>
      rw [List.flatMap_cons, List.flatMap_cons, winner_append, winner_append,
        h i List.mem_cons_self, ih fun j hj => h j (List.mem_cons_of_mem _ hj)]

variable (strong) in
/-- If no slot is written to twice, what is written to a slot wins it. -/
theorem filter_eq_toList_winner (hdistinct : l.Pairwise fun a b => key a ≠ key b) (k : κ) :
    l.filter (fun a => decide (key a = k)) = (winner key strong l k).toList := by
  have hslot := hdistinct.filter fun a => decide (key a = k)
  have hkey : ∀ a ∈ l.filter (fun a => decide (key a = k)), key a = k := fun a ha => by
    simpa using (List.mem_filter.1 ha).2
  rw [winner]
  generalize l.filter (fun a => decide (key a = k)) = slot at hslot hkey
  match slot with
  | [] => rfl
  | [a] => rfl
  | a :: b :: rest =>
      -- two writes to the slot would differ in their keys
      have hne := (List.pairwise_cons.1 hslot).1 b List.mem_cons_self
      rw [hkey a (by simp), hkey b (by simp)] at hne
      exact absurd rfl hne

/-- With distinct keys, every element wins its own. -/
theorem winner_eq_some_iff_mem (hdistinct : l.Pairwise fun a b => key a ≠ key b) :
    winner key strong l k = some x ↔ x ∈ l ∧ key x = k := by
  rw [← Option.mem_toList, ← filter_eq_toList_winner strong hdistinct]
  simp

/-- **Only the winner counts.** Let every write do something to a state, such that a strong write
does not look at the state, a weak one after a strong one does nothing, and a weak one undoes
nothing that a weak one before it would not. Then all writes to a slot do what its winner does. -/
theorem foldl_eq_winner {σ : Type} (act : α → σ → σ)
    (hstrong : ∀ a s s', strong a = true → act a s = act a s')
    (habsorbed : ∀ a b s, strong a = true → strong b = false → act b (act a s) = act a s)
    (hrepeated : ∀ a b s, strong a = false → strong b = false → act b (act a s) = act b s)
    (l : List α) (k : κ) (s : σ) :
    (l.filter fun a => decide (key a = k)).foldl (fun s a => act a s) s =
      (winner key strong l k).elim s fun x => act x s := by
  rw [winner]
  generalize l.filter (fun a => decide (key a = k)) = slot
  induction slot using List.reverseRecOn with
  | nil => rfl
  | append_singleton slot a ih =>
      rw [List.foldl_concat, List.foldl_concat, ih]
      cases slot.foldl (supersede strong) none with
      | none => rfl
      | some x =>
          simp only [supersede, Option.elim_some]
          cases ha : strong a with
          | true => exact hstrong a _ _ ha
          | false =>
              cases hx : strong x with
              | true => exact habsorbed x a s hx ha
              | false => exact hrepeated x a s hx ha

end Split

section Rank

variable {key strong} {β : Type} [LinearOrder β] {rank : α → β}

/-- Of two writes to one slot, the later takes over exactly if it has the greater priority. -/
theorem priority_le_iff_of_lt {e a : α} (h : rank e < rank a) :
    priority strong rank e ≤ priority strong rank a ↔ (strong a || !strong e) = true := by
  simp only [priority, Prod.Lex.toLex_le_toLex]
  cases strong e <;> cases strong a <;> simp [h.le]

/-- Conversely the earlier write stays if the later one has the smaller priority. -/
theorem priority_le_of_not_supersede {e a : α} (h : rank e < rank a)
    (hnot : (strong a || !strong e) = false) : priority strong rank a ≤ priority strong rank e := by
  rcases le_total (priority strong rank a) (priority strong rank e) with hle | hle
  · exact hle
  · rw [priority_le_iff_of_lt h, hnot] at hle
    cases hle

/-- Writing a rank-ascending list to one slot leaves the write of greatest priority in it. -/
private theorem foldl_supersede_spec (strong : α → Bool) (l : List α) (e : α)
    (hrank : (e :: l).Pairwise fun a b => rank a < rank b) :
    ∃ x ∈ e :: l, l.foldl (supersede strong) (some e) = some x ∧
      ∀ b ∈ e :: l, priority strong rank b ≤ priority strong rank x := by
  -- over the writes, for whatever the slot holds; `e` is the greatest of those before
  induction l generalizing e with
  | nil => exact ⟨e, by simp, rfl, by simp⟩
  | cons a l ih =>
      rw [List.pairwise_cons] at hrank
      have hea : rank e < rank a := hrank.1 a List.mem_cons_self
      simp only [List.foldl_cons, supersede]
      cases hs : strong a || !strong e with
      | true =>
          obtain ⟨x, hx, hfold, hmax⟩ := ih a hrank.2
          refine ⟨x, List.mem_cons_of_mem _ hx, by simpa using hfold, fun b hb => ?_⟩
          rcases List.mem_cons.1 hb with rfl | hb
          · exact ((priority_le_iff_of_lt hea).2 hs).trans (hmax a List.mem_cons_self)
          · exact hmax b hb
      | false =>
          have hel : (e :: l).Pairwise fun a b => rank a < rank b :=
            List.pairwise_cons.2 ⟨fun b hb => hrank.1 b (List.mem_cons_of_mem _ hb),
              (List.pairwise_cons.1 hrank.2).2⟩
          obtain ⟨x, hx, hfold, hmax⟩ := ih e hel
          refine ⟨x, ?_, by simpa using hfold, fun b hb => ?_⟩
          · rcases List.mem_cons.1 hx with rfl | hx
            · exact List.mem_cons_self
            · exact List.mem_cons_of_mem _ (List.mem_cons_of_mem _ hx)
          · rcases List.mem_cons.1 hb with rfl | hb
            · exact hmax _ List.mem_cons_self
            rcases List.mem_cons.1 hb with rfl | hb
            · exact (priority_le_of_not_supersede hea hs).trans (hmax e List.mem_cons_self)
            · exact hmax b (List.mem_cons_of_mem _ hb)

/-- No strong write has a smaller priority than a weak one. -/
theorem strong_of_priority_le {e a : α} (hle : priority strong rank e ≤ priority strong rank a)
    (he : strong e = true) : strong a = true := by
  cases ha : strong a with
  | true => rfl
  | false =>
      rw [priority, priority, Prod.Lex.toLex_le_toLex, he, ha] at hle
      exact absurd hle (by simp)

variable [DecidableEq κ] {l : List α} {k : κ}

/-- The writes to slot `k`, in rank order. -/
private theorem pairwise_filter (hrank : l.Pairwise fun a b => key a = key b → rank a < rank b) :
    (l.filter fun a => decide (key a = k)).Pairwise fun a b => rank a < rank b := by
  rw [List.pairwise_filter]
  refine hrank.imp fun h ha hb => h ?_
  rw [decide_eq_true_eq] at ha hb
  exact ha.trans hb.symm

/-- **The winner of a slot is its write of greatest priority.** -/
theorem winner_eq_some_iff (hrank : l.Pairwise fun a b => key a = key b → rank a < rank b)
    {x : α} : winner key strong l k = some x ↔
      x ∈ l ∧ key x = k ∧ ∀ b ∈ l, key b = k → priority strong rank b ≤ priority strong rank x := by
  have hmem : ∀ a, a ∈ l.filter (fun a => decide (key a = k)) ↔ a ∈ l ∧ key a = k := by simp
  have hfilter := pairwise_filter (k := k) hrank
  rw [winner]
  generalize l.filter (fun a => decide (key a = k)) = slot at hmem hfilter
  have hiff : slot.foldl (supersede strong) none = some x ↔
      x ∈ slot ∧ ∀ b ∈ slot, priority strong rank b ≤ priority strong rank x := by
    cases slot with
    | nil => simp
    | cons e rest =>
        obtain ⟨w, hw, hfold, hmax⟩ := foldl_supersede_spec strong rest e hfilter
        rw [List.foldl_cons, supersede, hfold, Option.some_inj]
        constructor
        · rintro rfl
          exact ⟨hw, hmax⟩
        · rintro ⟨hx, hxmax⟩
          have heq : priority strong rank w = priority strong rank x :=
            le_antisymm (hxmax w hw) (hmax x hx)
          have hrankeq : rank w = rank x := congrArg (fun p => (ofLex p).2) heq
          -- ranks ascend strictly, so there is only one write of this rank
          by_contra hne
          rcases GLib.Before.total hw hx hne with h | h
          · exact (GLib.pairwise_iff_before.1 hfilter _ _ h).ne hrankeq
          · exact (GLib.pairwise_iff_before.1 hfilter _ _ h).ne' hrankeq
  rw [hiff]
  constructor
  · rintro ⟨hx, hmax⟩
    exact ⟨((hmem x).1 hx).1, ((hmem x).1 hx).2, fun b hb hbk => hmax b ((hmem b).2 ⟨hb, hbk⟩)⟩
  · rintro ⟨hx, hxk, hmax⟩
    exact ⟨(hmem x).2 ⟨hx, hxk⟩, fun b hb => hmax b ((hmem b).1 hb).1 ((hmem b).1 hb).2⟩

end Rank

section Survivors

variable {key strong} [DecidableEq κ]

variable (key strong) in
/-- Renaming the writes renames the winner. -/
theorem winner_map {γ : Type} (f : γ → α) (l : List γ) (k : κ) :
    winner key strong (l.map f) k = (winner (key ∘ f) (strong ∘ f) l k).map f := by
  rw [winner, winner, List.filter_map]
  simp only [Function.comp_def]
  generalize l.filter (fun a => decide (key (f a) = k)) = slot
  -- the fold commutes with `f` from any content of the slot, not only from an empty one
  suffices h : ∀ e : Option γ, (slot.map f).foldl (supersede strong) (e.map f) =
      (slot.foldl (supersede fun c => strong (f c)) e).map f from h none
  induction slot with
  | nil => exact fun e => rfl
  | cons c slot ih =>
      intro e
      rw [List.map_cons, List.foldl_cons, List.foldl_cons, ← ih]
      congr 1
      cases e with
      | none => rfl
      | some e => simp only [supersede, Option.map_some]; split <;> rfl

/-- Positions ascend along a list. -/
theorem pairwise_zipIdx (l : List α) (n : ℕ) :
    (l.zipIdx n).Pairwise fun p q => p.2 < q.2 := by
  have hrange : ((l.zipIdx n).map Prod.snd).Pairwise (· < ·) := by
    rw [List.zipIdx_map_snd]
    exact List.pairwise_lt_range'
  exact List.pairwise_map.1 hrange

/-- The winners of the positioned list are the winners of the list. -/
private theorem winner_zipIdx (l : List α) (k : κ) :
    (winner (fun q : α × ℕ => key q.1) (fun q => strong q.1) l.zipIdx k).map Prod.fst =
      winner key strong l k := by
  have h := winner_map key strong Prod.fst l.zipIdx k
  rw [List.zipIdx_map_fst] at h
  exact h.symm

omit [DecidableEq κ] in
/-- The positions in a list are a rank among the elements of one key. -/
private theorem rank_zipIdx (l : List α) :
    l.zipIdx.Pairwise fun p q : α × ℕ => key p.1 = key q.1 → p.2 < q.2 :=
  (pairwise_zipIdx l 0).imp (S := fun p q : α × ℕ => key p.1 = key q.1 → p.2 < q.2) fun h _ => h

variable (key strong)

theorem survivors_sublist (l : List α) : (survivors key strong l).Sublist l := by
  have h := (List.filter_sublist (l := l.zipIdx) (p := fun p : α × ℕ => decide
    ((winner (fun q : α × ℕ => key q.1) (fun q => strong q.1) l.zipIdx (key p.1)).map Prod.snd =
      some p.2))).map Prod.fst
  rwa [List.zipIdx_map_fst] at h

variable {key strong}

/-- A positioned write survives exactly if it is the winner of its slot. -/
private theorem winner_snd_iff (l : List α) {p : α × ℕ} (hp : p ∈ l.zipIdx) :
    (winner (fun q : α × ℕ => key q.1) (fun q => strong q.1) l.zipIdx (key p.1)).map Prod.snd =
        some p.2 ↔
      winner (fun q : α × ℕ => key q.1) (fun q => strong q.1) l.zipIdx (key p.1) = some p := by
  constructor
  · intro h
    obtain ⟨q, hq, hsnd⟩ := Option.map_eq_some_iff.1 h
    have hqmem : q ∈ l.zipIdx :=
      ((winner_eq_some_iff (rank_zipIdx l)).1 hq).1
    -- two different writes have different positions
    have hqp : q = p := by
      by_contra hne
      rcases GLib.Before.total hqmem hp hne with h' | h'
      · exact (GLib.pairwise_iff_before.1 (pairwise_zipIdx l 0) _ _ h').ne hsnd
      · exact (GLib.pairwise_iff_before.1 (pairwise_zipIdx l 0) _ _ h').ne' hsnd
    rw [hq, hqp]
  · intro h
    rw [h, Option.map_some]

/-- A write survives exactly if it is the winner of its slot. -/
theorem mem_survivors {l : List α} {x : α} :
    x ∈ survivors key strong l ↔ winner key strong l (key x) = some x := by
  simp only [survivors, List.mem_map, List.mem_filter, decide_eq_true_eq]
  constructor
  · rintro ⟨p, ⟨hp, hsnd⟩, rfl⟩
    rw [← winner_zipIdx, (winner_snd_iff l hp).1 hsnd, Option.map_some]
  · intro h
    rw [← winner_zipIdx] at h
    obtain ⟨p, hp, hfst⟩ := Option.map_eq_some_iff.1 h
    subst hfst
    have hmem : p ∈ l.zipIdx := ((winner_eq_some_iff (rank_zipIdx l)).1 hp).1
    exact ⟨p, ⟨hmem, (winner_snd_iff l hmem).2 hp⟩, rfl⟩

/-- Each slot has at most one surviving write. -/
theorem pairwise_survivors (l : List α) :
    (survivors key strong l).Pairwise fun a b => key a ≠ key b := by
  rw [survivors, List.pairwise_map, List.pairwise_filter]
  refine (pairwise_zipIdx l 0).imp_of_mem fun {p q} hp hq hlt hpw hqw hkey => ?_
  rw [decide_eq_true_eq] at hpw hqw
  have hpq : some p = some q := by
    rw [← (winner_snd_iff l hp).1 hpw, ← (winner_snd_iff l hq).1 hqw, hkey]
  rw [Option.some_inj.1 hpq] at hlt
  exact lt_irrefl _ hlt

/-- In a list without duplicates the survivors are the writes that win their slot. -/
theorem survivors_eq_filter {l : List α} (hnodup : l.Nodup) {p : α → Bool}
    (hp : ∀ x ∈ l, p x = true ↔ winner key strong l (key x) = some x) :
    survivors key strong l = l.filter p := by
  have hsub := survivors_sublist key strong l
  have hself : (survivors key strong l).filter p = survivors key strong l :=
    List.filter_eq_self.2 fun x hx => (hp x (hsub.subset hx)).2 (mem_survivors.1 hx)
  have hsub' : (survivors key strong l).Sublist (l.filter p) := hself ▸ hsub.filter p
  refine hsub'.eq_of_length_le (List.subperm_of_subset (hnodup.filter p) fun x hx => ?_).length_le
  rw [List.mem_filter] at hx
  exact mem_survivors.2 ((hp x hx.1).1 hx.2)

end Survivors

/-! ### By rank -/

section Prefer

variable {β γ : Type} [LinearOrder β] (rank : α → β)

/-- What a slot holds after a write, if there is one, that gives way to what has a lower rank. -/
def prefer (existing incoming : Option α) : Option α :=
  match incoming with
  | none => existing
  | some a => if existing.any fun e => decide (rank e < rank a) then existing else some a

variable {rank}

/-- Of two writes of different ranks, either may come first. -/
theorem prefer_right_comm {x y : Option α} (h : ∀ a ∈ x, ∀ b ∈ y, rank a ≠ rank b)
    (existing : Option α) :
    prefer rank (prefer rank existing x) y = prefer rank (prefer rank existing y) x := by
  rcases x with _ | a
  · rfl
  rcases y with _ | b
  · rfl
  have hne : rank a ≠ rank b := h a rfl b rfl
  rcases existing with _ | e
  · rcases lt_or_gt_of_ne hne with hab | hab
    · simp [prefer, hab, hab.not_gt]
    · simp [prefer, hab, hab.not_gt]
  -- the one of the lower rank is held, unless there was one of a lower rank still
  · by_cases hea : rank e < rank a <;> by_cases heb : rank e < rank b <;>
      rcases lt_or_gt_of_ne hne with hab | hab <;>
      simp [prefer, hea, heb, hab, hab.not_gt]
    · exact absurd (hea.trans hab) heb
    · exact absurd (heb.trans hab) hea

/-- Writes of pairwise different ranks leave a slot the same in any order. -/
theorem foldl_prefer_perm {offer : γ → Option α} {l l' : List γ} (hperm : l.Perm l')
    (h : ∀ x ∈ l, ∀ y ∈ l, x ≠ y → ∀ a ∈ offer x, ∀ b ∈ offer y, rank a ≠ rank b)
    (existing : Option α) :
    l.foldl (fun slot x => prefer rank slot (offer x)) existing =
      l'.foldl (fun slot x => prefer rank slot (offer x)) existing := by
  refine hperm.foldl_eq' (fun x hx y hy slot => ?_) existing
  by_cases hxy : x = y
  · rw [hxy]
  · exact prefer_right_comm (h x hx y hy hxy) slot

end Prefer

end Overwrite
