import Mathlib.Data.List.Perm.Basic
import Mathlib.Data.List.Nodup
import Mathlib.Data.List.Pairwise
import Mathlib.Order.Lattice
import Mathlib.Tactic.Common

/-!
# Merge sort with an arbitrary comparison

`msort le` is the merge sort behind `g_ptr_array_sort` and `g_list_sort`: split in the middle,
sort the halves, and merge them, taking the head of the left half whenever `le` allows it. It is
defined for every `le : α → α → Bool`, transitive or not, and the results say what each property
of `le` buys:

* `msort_perm`: nothing is lost or duplicated, whatever `le` is;
* `msort_eq_self`: a list in which `le` holds of every ordered pair is left alone;
* `before_msort`: `y` stays behind whatever is in front of it if `le` allows all of that in front
  of `y`; no other element matters, and `le` need not be transitive;
* `pairwise_msort_iff`: the result ascends by a relation that is transitive on the elements exactly
  if the pairs that are compared (`comparisons`) are decided by it;
* `pairwise_msort`: if `le` follows a linear key, the result ascends by that key;
* `before_msort_of_key`: where `le` is the order of a key, the sort is stable.

`Before l x y` says that `x` occurs somewhere in front of `y` in `l`.
-/

namespace GLib

variable {α : Type}

/-! ### Positions in a list -/

/-- `x` occurs in front of `y` in `l`. -/
def Before (l : List α) (x y : α) : Prop := [x, y].Sublist l

/-- Being in front is being a sublist of two. -/
instance [DecidableEq α] (l : List α) (x y : α) : Decidable (Before l x y) :=
  inferInstanceAs (Decidable ([x, y].Sublist l))

namespace Before

variable {l l' l₁ l₂ : List α} {x y z : α}

theorem mem_left (h : Before l x y) : x ∈ l := List.Sublist.subset h (by simp)

theorem mem_right (h : Before l x y) : y ∈ l := List.Sublist.subset h (by simp)

theorem mono (h : Before l x y) (hsub : l.Sublist l') : Before l' x y := List.Sublist.trans h hsub

/-- What is in front in a part is so in the whole. -/
theorem append_right (h : Before l₂ x y) : Before (l₁ ++ l₂) x y :=
  h.mono (List.sublist_append_right _ _)

theorem of_mem_append (hx : x ∈ l₁) (hy : y ∈ l₂) : Before (l₁ ++ l₂) x y :=
  (List.singleton_sublist.2 hx).append (List.singleton_sublist.2 hy)

/-- The head is in front of the tail. -/
theorem of_mem_tail (hy : y ∈ l) : Before (x :: l) x y :=
  (List.singleton_sublist.2 hy).cons_cons x

/-- What is in front in the tail is so in the list. -/
theorem cons (h : Before l x y) : Before (z :: l) x y := h.mono (List.sublist_cons_self _ _)

/-- An occurrence of `x` in front of one of `y` splits the list at that `y`. -/
theorem exists_split (h : Before l x y) : ∃ l₁ l₂, l = l₁ ++ y :: l₂ ∧ x ∈ l₁ := by
  induction l with
  | nil => cases h
  | cons a rest ih =>
      rcases List.cons_sublist_cons'.1 h with hrest | ⟨rfl, hy⟩
      · obtain ⟨l₁, l₂, rfl, hx⟩ := ih hrest
        exact ⟨a :: l₁, l₂, rfl, List.mem_cons_of_mem _ hx⟩
      · obtain ⟨l₁, l₂, rfl⟩ := List.append_of_mem (List.singleton_sublist.1 hy)
        exact ⟨x :: l₁, l₂, rfl, List.mem_cons_self⟩

/-- Where a pair of a concatenation can lie. -/
theorem append_cases (h : Before (l₁ ++ l₂) x y) :
    Before l₁ x y ∨ Before l₂ x y ∨ (x ∈ l₁ ∧ y ∈ l₂) := by
  induction l₁ with
  | nil => exact Or.inr (Or.inl h)
  | cons a rest ih =>
      rcases List.cons_sublist_cons'.1 h with hrest | ⟨rfl, hy⟩
      · rcases ih hrest with h' | h' | ⟨hx, hy⟩
        · exact Or.inl h'.cons
        · exact Or.inr (Or.inl h')
        · exact Or.inr (Or.inr ⟨List.mem_cons_of_mem _ hx, hy⟩)
      · rcases List.mem_append.1 (List.singleton_sublist.1 hy) with hy | hy
        · exact Or.inl (of_mem_tail hy)
        · exact Or.inr (Or.inr ⟨List.mem_cons_self, hy⟩)

/-- In a list without duplicates, two elements cannot precede each other. -/
theorem asymm (h : Before l x y) (hnodup : l.Nodup) : ¬ Before l y x := by
  intro h'
  obtain ⟨l₁, l₂, rfl, hx⟩ := h.exists_split
  rw [List.nodup_append] at hnodup
  obtain ⟨-, hcons, hdisj⟩ := hnodup
  -- wherever `y` comes before `x`, one of them occurs a second time
  rcases h'.append_cases with h' | h' | ⟨hy, -⟩
  · exact hdisj y h'.mem_left y List.mem_cons_self rfl
  · exact hdisj x hx x h'.mem_right rfl
  · exact hdisj y hy y List.mem_cons_self rfl

/-- Without repetition, nothing is in front of itself. -/
theorem ne (h : Before l x y) (hnodup : l.Nodup) : x ≠ y := by
  rintro rfl
  exact h.asymm hnodup h

/-- Of two different elements of a list, one precedes the other. -/
theorem total (hx : x ∈ l) (hy : y ∈ l) (hne : x ≠ y) : Before l x y ∨ Before l y x := by
  obtain ⟨l₁, l₂, rfl⟩ := List.append_of_mem hx
  rcases List.mem_append.1 hy with hy | hy
  · exact Or.inr (of_mem_append hy List.mem_cons_self)
  · have hy₂ : y ∈ l₂ := (List.mem_cons.1 hy).resolve_left (Ne.symm hne)
    exact Or.inl (append_right (of_mem_tail hy₂))

/-- What precedes an element that occurs once. -/
theorem before_split_iff (hy₁ : y ∉ l₁) (hy₂ : y ∉ l₂) : Before (l₁ ++ y :: l₂) x y ↔ x ∈ l₁ := by
  refine ⟨fun h => ?_, fun h => of_mem_append h List.mem_cons_self⟩
  rcases h.append_cases with h | h | ⟨h, -⟩
  · exact absurd h.mem_right hy₁
  · rcases List.cons_sublist_cons'.1 h with h | ⟨-, h⟩
    · exact absurd (mem_right h) hy₂
    · exact absurd (List.singleton_sublist.1 h) hy₂
  · exact h

/-- What an element that occurs once precedes. -/
theorem split_before_iff (hy₁ : y ∉ l₁) (hy₂ : y ∉ l₂) : Before (l₁ ++ y :: l₂) y x ↔ x ∈ l₂ := by
  refine ⟨fun h => ?_, fun h => append_right (of_mem_tail h)⟩
  rcases h.append_cases with h | h | ⟨h, -⟩
  · exact absurd h.mem_left hy₁
  · rcases List.cons_sublist_cons'.1 h with h | ⟨-, h⟩
    · exact absurd (mem_left h) hy₂
    · exact List.singleton_sublist.1 h
  · exact absurd h hy₁

/-- Precedence is transitive through an element that occurs once. -/
theorem trans (h : Before l x y) (h' : Before l y z) (hy : ¬ Before l y y) : Before l x z := by
  obtain ⟨l₁, l₂, rfl, hx⟩ := h.exists_split
  have hy₁ : y ∉ l₁ := fun hmem => hy (of_mem_append hmem List.mem_cons_self)
  have hy₂ : y ∉ l₂ := fun hmem => hy (append_right (of_mem_tail hmem))
  rw [split_before_iff hy₁ hy₂] at h'
  exact of_mem_append hx (List.mem_cons_of_mem _ h')

end Before

/-- A relation holds pairwise exactly when it holds of every pair in list order. -/
theorem pairwise_iff_before {R : α → α → Prop} {l : List α} :
    l.Pairwise R ↔ ∀ x y, Before l x y → R x y :=
  List.pairwise_iff_forall_sublist.trans ⟨fun h _ _ hxy => h hxy, fun h _ _ hxy => h _ _ hxy⟩

/-! ### The sort -/

/-- Merge the run `x :: xs` with a second run, given the merge of `xs` with any run. -/
def mergeHead (le : α → α → Bool) (x : α) (mergeTail : List α → List α) : List α → List α
  | [] => x :: mergeTail []
  | y :: ys =>
      if le x y then x :: mergeTail (y :: ys)
      else y :: mergeHead le x mergeTail ys

/-- Merge two runs; on a tie the left run goes first. -/
def merge (le : α → α → Bool) : List α → List α → List α
  | [], ys => ys
  | x :: xs, ys => mergeHead le x (merge le xs) ys

/-- Merge sort by repeated halving, to a recursion depth of at most `fuel`. -/
def msortWithin (le : α → α → Bool) : ℕ → List α → List α
  | 0, l => l
  | fuel + 1, l =>
      if l.length ≤ 1 then l
      else merge le (msortWithin le fuel (l.take (l.length / 2)))
        (msortWithin le fuel (l.drop (l.length / 2)))

/-- Merge sort. The recursion depth is bounded by the length, since both halves are shorter. -/
def msort (le : α → α → Bool) (l : List α) : List α := msortWithin le l.length l

variable {le : α → α → Bool}

@[simp]
theorem merge_nil (xs : List α) : merge le xs [] = xs := by
  induction xs with
  | nil => rfl
  | cons x xs ih => simp [merge, mergeHead, ih]

theorem merge_cons_cons (x y : α) (xs ys : List α) :
    merge le (x :: xs) (y :: ys) =
      if le x y then x :: merge le xs (y :: ys) else y :: merge le (x :: xs) ys := rfl

variable (le) in
/-- Induction over the steps of a merge. -/
theorem merge_induction {motive : List α → List α → Prop}
    (nil_left : ∀ ys, motive [] ys) (nil_right : ∀ xs, motive xs [])
    (take_left : ∀ x xs y ys, le x y = true → motive xs (y :: ys) → motive (x :: xs) (y :: ys))
    (take_right : ∀ x xs y ys, le x y = false → motive (x :: xs) ys → motive (x :: xs) (y :: ys))
    (xs ys : List α) : motive xs ys := by
  induction xs generalizing ys with
  | nil => exact nil_left ys
  | cons x xs ihx =>
      induction ys with
      | nil => exact nil_right _
      | cons y ys ihy =>
          cases hle : le x y with
          | true => exact take_left x xs y ys hle (ihx _)
          | false => exact take_right x xs y ys hle ihy

theorem merge_perm (xs ys : List α) : (merge le xs ys).Perm (xs ++ ys) := by
  induction xs, ys using merge_induction le with
  | nil_left ys => exact List.Perm.refl _
  | nil_right xs => simp
  | take_left x xs y ys hle ih =>
      rw [merge_cons_cons, if_pos hle]
      exact ih.cons x
  | take_right x xs y ys hle ih =>
      rw [merge_cons_cons, if_neg (by simp [hle])]
      have hmiddle : (x :: xs ++ y :: ys).Perm (y :: (x :: xs ++ ys)) := List.perm_middle
      exact (ih.cons y).trans hmiddle.symm

theorem msortWithin_perm (fuel : ℕ) (l : List α) : (msortWithin le fuel l).Perm l := by
  induction fuel generalizing l with
  | zero => exact List.Perm.refl _
  | succ fuel ih =>
      rw [msortWithin]
      split
      · exact List.Perm.refl _
      · have h := (ih (l.take (l.length / 2))).append (ih (l.drop (l.length / 2)))
        rw [List.take_append_drop] at h
        exact (merge_perm _ _).trans h

/-- Sorting only reorders. -/
theorem msort_perm (l : List α) : (msort le l).Perm l := msortWithin_perm _ l

@[simp]
theorem mem_msort {l : List α} {x : α} : x ∈ msort le l ↔ x ∈ l := (msort_perm l).mem_iff

/-- Both runs keep their order in a merge. -/
theorem sublist_merge (xs ys : List α) :
    xs.Sublist (merge le xs ys) ∧ ys.Sublist (merge le xs ys) := by
  induction xs, ys using merge_induction le with
  | nil_left ys => exact ⟨List.nil_sublist _, List.Sublist.refl _⟩
  | nil_right xs => simp
  | take_left x xs y ys hle ih =>
      rw [merge_cons_cons, if_pos hle]
      exact ⟨ih.1.cons_cons x, ih.2.cons x⟩
  | take_right x xs y ys hle ih =>
      rw [merge_cons_cons, if_neg (by simp [hle])]
      exact ⟨ih.1.cons y, ih.2.cons_cons y⟩

/-- A merge keeps the order of its first list. -/
theorem Before.merge_left {xs ys : List α} {x y : α} (h : Before xs x y) :
    Before (merge le xs ys) x y := h.mono (sublist_merge xs ys).1

/-- A merge keeps the order of its second list. -/
theorem Before.merge_right {xs ys : List α} {x y : α} (h : Before ys x y) :
    Before (merge le xs ys) x y := h.mono (sublist_merge xs ys).2

/-- An element of the left run stays in front of one of the right run if `le` lets it, and lets
everything that its own run has in front of it. -/
theorem before_merge {xs₁ xs₂ ys : List α} {x y : α} (hbefore : ∀ z ∈ xs₁, le z y = true)
    (hxy : le x y = true) (hy : y ∈ ys) : Before (merge le (xs₁ ++ x :: xs₂) ys) x y := by
  generalize hxs : xs₁ ++ x :: xs₂ = xs
  induction xs, ys using merge_induction le generalizing xs₁ with
  | nil_left ys => simp at hxs
  | nil_right xs => cases hy
  | take_left a as b bs hle ih =>
      rw [merge_cons_cons, if_pos hle]
      cases xs₁ with
      | nil =>
          -- `x` is taken, and `y` comes somewhere behind
          obtain ⟨rfl, -⟩ := List.cons.inj hxs
          have hmem : y ∈ merge le as (b :: bs) :=
            (merge_perm as (b :: bs)).mem_iff.2 (List.mem_append_right _ hy)
          exact Before.of_mem_tail hmem
      | cons c xs₁ =>
          obtain ⟨-, htail⟩ := List.cons.inj hxs
          exact (ih (fun z hz => hbefore z (List.mem_cons_of_mem _ hz)) hy htail).cons
  | take_right a as b bs hle ih =>
      rw [merge_cons_cons, if_neg (by simp [hle])]
      -- `a` may go in front of `y`, so `b`, which it may not pass, is not `y`
      have hay : le a y = true := by
        cases xs₁ with
        | nil => rw [← (List.cons.inj hxs).1]; exact hxy
        | cons c xs₁ => rw [← (List.cons.inj hxs).1]; exact hbefore c List.mem_cons_self
      have hne : y ≠ b := by
        rintro rfl
        rw [hle] at hay
        cases hay
      exact (ih hbefore ((List.mem_cons.1 hy).resolve_left hne) hxs).cons

/-- If `le` holds of every element of `xs` with every element of `ys`, merging appends. -/
theorem merge_eq_append {xs ys : List α} (h : ∀ x ∈ xs, ∀ y ∈ ys, le x y = true) :
    merge le xs ys = xs ++ ys := by
  induction xs with
  | nil => rfl
  | cons x xs ih =>
      cases ys with
      | nil => simp
      | cons y ys =>
          have hxy : le x y = true := h x List.mem_cons_self y List.mem_cons_self
          rw [merge_cons_cons, if_pos hxy, ih fun z hz => h z (List.mem_cons_of_mem _ hz)]
          rfl

/-- A relation on all pairs holds in both halves and between them. -/
private theorem pairwise_take_drop {R : α → α → Prop} {l : List α} (h : l.Pairwise R) (n : ℕ) :
    (l.take n).Pairwise R ∧ (l.drop n).Pairwise R ∧
      ∀ x ∈ l.take n, ∀ y ∈ l.drop n, R x y := by
  rw [← List.take_append_drop n l] at h
  exact List.pairwise_append.1 h

/-- A list in which `le` holds of every ordered pair is not touched. -/
theorem msort_eq_self {l : List α} (h : l.Pairwise fun x y => le x y = true) :
    msort le l = l := by
  suffices hfuel : ∀ fuel, msortWithin le fuel l = l from hfuel _
  intro fuel
  induction fuel generalizing l with
  | zero => rfl
  | succ fuel ih =>
      rw [msortWithin]
      split
      · rfl
      · obtain ⟨htake, hdrop, hcross⟩ := pairwise_take_drop h (l.length / 2)
        rw [ih htake, ih hdrop, merge_eq_append hcross, List.take_append_drop]

/-- The bounded merge sort leaves `x` in front of `y` if nothing in front of `y` may be moved behind
it. -/
private theorem before_msortWithin (fuel : ℕ) {l : List α} {x y : α} (h : Before l x y)
    (hle : ∀ z, Before l z y → le z y = true) : Before (msortWithin le fuel l) x y := by
  suffices hfuel : ∀ l₁ l₂, x ∈ l₁ → (∀ z ∈ l₁, le z y = true) →
      Before (msortWithin le fuel (l₁ ++ y :: l₂)) x y by
    obtain ⟨l₁, l₂, rfl, hx⟩ := h.exists_split
    exact hfuel l₁ l₂ hx fun z hz => hle z (Before.of_mem_append hz List.mem_cons_self)
  induction fuel with
  | zero => exact fun l₁ l₂ hx _ => Before.of_mem_append hx List.mem_cons_self
  | succ fuel ih =>
      intro l₁ l₂ hx hz
      rw [msortWithin]
      split
      · exact Before.of_mem_append hx List.mem_cons_self
      generalize (l₁ ++ y :: l₂).length / 2 = n
      rcases Nat.lt_or_ge l₁.length n with hn | hn
      · -- `y` is in the left half, and so is everything in front of it
        have htake : (l₁ ++ y :: l₂).take n = l₁ ++ y :: l₂.take (n - l₁.length - 1) := by
          obtain ⟨k, rfl⟩ : ∃ k, n = l₁.length + (k + 1) := ⟨n - l₁.length - 1, by omega⟩
          simp [List.take_append, List.take_of_length_le]
        rw [htake]
        exact (ih l₁ _ hx hz).merge_left
      · -- `y` is in the right half; `x` may be in either
        have htake : (l₁ ++ y :: l₂).take n = l₁.take n := List.take_append_of_le_length hn
        have hdrop : (l₁ ++ y :: l₂).drop n = l₁.drop n ++ y :: l₂ :=
          List.drop_append_of_le_length hn
        rw [htake, hdrop]
        have hx' : x ∈ l₁.take n ++ l₁.drop n := by rwa [List.take_append_drop]
        rcases List.mem_append.1 hx' with hx | hx
        · have hmem : x ∈ msortWithin le fuel (l₁.take n) := (msortWithin_perm _ _).mem_iff.2 hx
          obtain ⟨xs₁, xs₂, hxs⟩ := List.append_of_mem hmem
          have hall : ∀ z ∈ xs₁ ++ x :: xs₂, le z y = true := fun z hz' =>
            hz z (List.mem_of_mem_take ((msortWithin_perm _ _).mem_iff.1 (hxs ▸ hz')))
          rw [hxs]
          refine before_merge (fun z hz' => hall z (List.mem_append_left _ hz'))
            (hall x (by simp)) ?_
          exact (msortWithin_perm _ _).mem_iff.2 (by simp)
        · exact (ih _ l₂ hx fun z hz' => hz z (List.mem_of_mem_drop hz')).merge_right

/-- `y` stays behind everything that is in front of it, provided `le` lets all of that go in
front of `y`. Nothing is asked of `le` elsewhere. -/
theorem before_msort {l : List α} {x y : α} (h : Before l x y)
    (hle : ∀ z, Before l z y → le z y = true) : Before (msort le l) x y :=
  before_msortWithin _ h hle

/-- `y` stays behind `x` if `le` lets `x`, and whatever is in front of `x`, go in front of `y`, and
the elements between `x` and `y` that must not go in front of `y` never move forward. -/
theorem before_msort_of_guard {l : List α} {x y : α} (hnodup : l.Nodup) (h : Before l x y)
    (hxy : le x y = true) (hfront : ∀ z, Before l z x → le z y = true)
    (hstay : ∀ z, Before l x z → Before l z y → le z y = false →
      ∀ v, Before l v z → le v z = true) : Before (msort le l) x y := by
  suffices hfuel : ∀ fuel l, l.Nodup → Before l x y → (∀ z, Before l z x → le z y = true) →
      (∀ z, Before l x z → Before l z y → le z y = false → ∀ v, Before l v z → le v z = true) →
        Before (msortWithin le fuel l) x y from hfuel _ l hnodup h hfront hstay
  clear hnodup h hfront hstay l
  intro fuel
  induction fuel with
  | zero => exact fun l _ h _ _ => h
  | succ fuel ih =>
      intro l hnodup h hfront hstay
      rw [msortWithin]
      split
      · exact h
      have htake := List.take_sublist (l.length / 2) l
      have hdrop := List.drop_sublist (l.length / 2) l
      have hsplit := h
      rw [← List.take_append_drop (l.length / 2) l] at hsplit
      -- the halves have the hypotheses of the whole; only a pair that they separate needs them all
      rcases hsplit.append_cases with h' | h' | ⟨hx, hy⟩
      · exact (ih _ (hnodup.sublist htake) h' (fun z hz => hfront z (hz.mono htake))
          fun z hz hzy hle v hv => hstay z (hz.mono htake) (hzy.mono htake) hle v
            (hv.mono htake)).merge_left
      · exact (ih _ (hnodup.sublist hdrop) h' (fun z hz => hfront z (hz.mono hdrop))
          fun z hz hzy hle v hv => hstay z (hz.mono hdrop) (hzy.mono hdrop) hle v
            (hv.mono hdrop)).merge_right
      · have hsorted : (msortWithin le fuel (l.take (l.length / 2))).Perm (l.take (l.length / 2)) :=
          msortWithin_perm fuel _
        obtain ⟨xs₁, xs₂, hxs⟩ := List.append_of_mem (hsorted.mem_iff.2 hx)
        rw [hxs]
        refine before_merge (fun z hz => ?_) hxy ((msortWithin_perm _ _).mem_iff.2 hy)
        -- suppose that the left half has put a `z` in front of `x` that may not pass `y`
        by_contra hle
        rw [Bool.not_eq_true] at hle
        have hzmem : z ∈ l.take (l.length / 2) :=
          hsorted.mem_iff.1 (hxs ▸ List.mem_append_left _ hz)
        have hne : z ≠ x := fun heq => by rw [heq, hxy] at hle; cases hle
        rcases Before.total hzmem hx hne with hzx | hxz
        · rw [hfront z (hzx.mono htake)] at hle
          cases hle
        · -- `z` was behind `x`, and has not come to its front
          have hzy : Before l z y := by
            rw [← List.take_append_drop (l.length / 2) l]
            exact Before.of_mem_append hzmem hy
          have hkeep := before_msortWithin fuel hxz fun v hv =>
            hstay z (hxz.mono htake) hzy hle v (hv.mono htake)
          have hnodup' := hsorted.nodup_iff.2 (hnodup.sublist htake)
          rw [hxs] at hkeep hnodup'
          exact (Before.of_mem_append hz List.mem_cons_self).asymm hnodup' hkeep

/-! ### The pairs that are compared -/

/-- The pairs that `mergeHead` passes to `le`, given those of the merges of `xs`. -/
def mergeHeadComparisons (le : α → α → Bool) (x : α)
    (tailComparisons : List α → List (α × α)) : List α → List (α × α)
  | [] => []
  | y :: ys =>
      (x, y) :: if le x y then tailComparisons (y :: ys)
        else mergeHeadComparisons le x tailComparisons ys

/-- The pairs that `merge` passes to `le`. -/
def mergeComparisons (le : α → α → Bool) : List α → List α → List (α × α)
  | [], _ => []
  | x :: xs, ys => mergeHeadComparisons le x (mergeComparisons le xs) ys

/-- The pairs that `msortWithin` passes to `le`. -/
def msortComparisonsWithin (le : α → α → Bool) : ℕ → List α → List (α × α)
  | 0, _ => []
  | fuel + 1, l =>
      if l.length ≤ 1 then []
      else
        msortComparisonsWithin le fuel (l.take (l.length / 2)) ++
          msortComparisonsWithin le fuel (l.drop (l.length / 2)) ++
            mergeComparisons le (msortWithin le fuel (l.take (l.length / 2)))
              (msortWithin le fuel (l.drop (l.length / 2)))

/-- The pairs that the merge sort of a list compares. -/
def comparisons (le : α → α → Bool) (l : List α) : List (α × α) :=
  msortComparisonsWithin le l.length l

@[simp]
theorem mergeComparisons_nil (xs : List α) : mergeComparisons le xs [] = [] := by
  cases xs <;> rfl

theorem mergeComparisons_cons_cons (x y : α) (xs ys : List α) :
    mergeComparisons le (x :: xs) (y :: ys) =
      (x, y) :: if le x y then mergeComparisons le xs (y :: ys)
        else mergeComparisons le (x :: xs) ys := rfl

/-- What is compared in a merge is of the one run and of the other. -/
theorem mem_of_mem_mergeComparisons {xs ys : List α} {p : α × α}
    (hp : p ∈ mergeComparisons le xs ys) : p.1 ∈ xs ∧ p.2 ∈ ys := by
  induction xs, ys using merge_induction le with
  | nil_left ys => cases hp
  | nil_right xs => simp at hp
  | take_left x xs y ys hle ih =>
      rw [mergeComparisons_cons_cons, if_pos hle] at hp
      rcases List.mem_cons.1 hp with rfl | hp
      · exact ⟨List.mem_cons_self, List.mem_cons_self⟩
      · exact (ih hp).imp_left (List.mem_cons_of_mem x)
  | take_right x xs y ys hle ih =>
      rw [mergeComparisons_cons_cons, if_neg (by simp [hle])] at hp
      rcases List.mem_cons.1 hp with rfl | hp
      · exact ⟨List.mem_cons_self, List.mem_cons_self⟩
      · exact (ih hp).imp_right (List.mem_cons_of_mem y)

private theorem mem_of_mem_msortComparisonsWithin (fuel : ℕ) {l : List α} {p : α × α}
    (hp : p ∈ msortComparisonsWithin le fuel l) : p.1 ∈ l ∧ p.2 ∈ l := by
  induction fuel generalizing l with
  | zero => cases hp
  | succ fuel ih =>
      rw [msortComparisonsWithin] at hp
      split at hp
      · cases hp
      · rcases List.mem_append.1 hp with hp | hp
        · rcases List.mem_append.1 hp with hp | hp
          · exact (ih hp).imp List.mem_of_mem_take List.mem_of_mem_take
          · exact (ih hp).imp List.mem_of_mem_drop List.mem_of_mem_drop
        · refine (mem_of_mem_mergeComparisons hp).imp (fun h => ?_) fun h => ?_
          · exact List.mem_of_mem_take ((msortWithin_perm _ _).mem_iff.1 h)
          · exact List.mem_of_mem_drop ((msortWithin_perm _ _).mem_iff.1 h)

theorem mem_of_mem_comparisons {l : List α} {p : α × α} (hp : p ∈ comparisons le l) :
    p.1 ∈ l ∧ p.2 ∈ l := mem_of_mem_msortComparisonsWithin _ hp

/-! ### Sorting by a relation -/

/-- What `le` decides about a pair holds of `R`. -/
def Decides (le : α → α → Bool) (R : α → α → Prop) (x y : α) : Prop :=
  (le x y = true → R x y) ∧ (le x y = false → R y x)

/-- `R` is transitive on the elements of `l`. -/
def TransOn (R : α → α → Prop) (l : List α) : Prop :=
  ∀ x ∈ l, ∀ y ∈ l, ∀ z ∈ l, R x y → R y z → R x z

section Relation

variable {R : α → α → Prop} {l l' : List α}

theorem TransOn.mono (h : TransOn R l) (hsub : l' ⊆ l) : TransOn R l' :=
  fun x hx y hy z hz => h x (hsub hx) y (hsub hy) z (hsub hz)

/-- Merging two runs that ascend by `R` gives a run that ascends by it exactly if each comparison in
the merge is decided by `R`. -/
private theorem pairwise_merge_iff {xs ys : List α} (htrans : TransOn R (xs ++ ys))
    (hxs : xs.Pairwise R) (hys : ys.Pairwise R) :
    (merge le xs ys).Pairwise R ↔ ∀ p ∈ mergeComparisons le xs ys, Decides le R p.1 p.2 := by
  induction xs, ys using merge_induction le with
  | nil_left ys => simpa [merge, mergeComparisons] using hys
  | nil_right xs => simpa using hxs
  | take_left x xs y ys hxy ih =>
      have hx : x ∈ x :: xs ++ y :: ys := by simp
      have hy : y ∈ x :: xs ++ y :: ys := by simp
      have hys' := List.pairwise_cons.1 hys
      rw [List.pairwise_cons] at hxs
      rw [merge_cons_cons, mergeComparisons_cons_cons, if_pos hxy, if_pos hxy, List.pairwise_cons,
        List.forall_mem_cons, ih (htrans.mono (List.subset_cons_self _ _)) hxs.2 hys]
      refine and_congr_left fun _ => ⟨fun h => ⟨fun _ => h y ?_, by simp [hxy]⟩, fun h z hz => ?_⟩
      · exact (merge_perm _ _).mem_iff.2 (by simp)
      -- `z` is of either run, and `x` comes before the heads of both
      have hR := h.1 hxy
      rcases List.mem_append.1 ((merge_perm _ _).mem_iff.1 hz) with hz | hz
      · exact hxs.1 z hz
      · rcases List.mem_cons.1 hz with rfl | hz
        · exact hR
        · exact htrans x hx y hy z (by simp [hz]) hR (hys'.1 z hz)
  | take_right x xs y ys hxy ih =>
      have hx : x ∈ x :: xs ++ y :: ys := by simp
      have hy : y ∈ x :: xs ++ y :: ys := by simp
      have hsub : x :: xs ++ ys ⊆ x :: xs ++ y :: ys := fun z hz =>
        List.mem_append.2 ((List.mem_append.1 hz).imp_right (List.mem_cons_of_mem y))
      have hxs' := List.pairwise_cons.1 hxs
      rw [List.pairwise_cons] at hys
      have hnot : ¬ le x y = true := by simp [hxy]
      rw [merge_cons_cons, mergeComparisons_cons_cons, if_neg hnot, if_neg hnot,
        List.pairwise_cons, List.forall_mem_cons, ih (htrans.mono hsub) hxs hys.2]
      refine and_congr_left fun _ => ⟨fun h => ⟨by simp [hxy], fun _ => h x ?_⟩, fun h z hz => ?_⟩
      · exact (merge_perm _ _).mem_iff.2 (by simp)
      have hR := h.2 hxy
      rcases List.mem_append.1 ((merge_perm _ _).mem_iff.1 hz) with hz | hz
      · rcases List.mem_cons.1 hz with rfl | hz
        · exact hR
        · exact htrans y hy x hx z (by simp [hz]) hR (hxs'.1 z hz)
      · exact hys.1 z hz

/-- The sorted list satisfies a transitive relation exactly if each comparison decides by it. -/
private theorem pairwise_msortWithin_iff (fuel : ℕ) (hfuel : l.length ≤ fuel)
    (htrans : TransOn R l) :
    (msortWithin le fuel l).Pairwise R ↔
      ∀ p ∈ msortComparisonsWithin le fuel l, Decides le R p.1 p.2 := by
  induction fuel generalizing l with
  | zero =>
      rw [List.length_eq_zero_iff.1 (Nat.le_zero.1 hfuel)]
      simp [msortWithin, msortComparisonsWithin]
  | succ fuel ih =>
      rw [msortWithin, msortComparisonsWithin]
      split
      -- without enough fuel the halves would be left as they are
      · next hlen =>
          match l, hlen with
          | [], _ => simp
          | [a], _ => simp
      · next hlen =>
          have htake : (l.take (l.length / 2)).length ≤ fuel := by rw [List.length_take]; omega
          have hdrop : (l.drop (l.length / 2)).length ≤ fuel := by rw [List.length_drop]; omega
          have hleft := ih htake (htrans.mono (List.take_subset _ l))
          have hright := ih hdrop (htrans.mono (List.drop_subset _ l))
          have hruns : TransOn R (msortWithin le fuel (l.take (l.length / 2)) ++
              msortWithin le fuel (l.drop (l.length / 2))) := htrans.mono fun z hz => by
            rw [List.mem_append, (msortWithin_perm _ _).mem_iff,
              (msortWithin_perm _ _).mem_iff] at hz
            exact hz.elim List.mem_of_mem_take List.mem_of_mem_drop
          rw [List.forall_mem_append, List.forall_mem_append, ← hleft, ← hright]
          constructor
          · intro h
            have hxs := h.sublist (sublist_merge _ _).1
            have hys := h.sublist (sublist_merge _ _).2
            exact ⟨⟨hxs, hys⟩, (pairwise_merge_iff hruns hxs hys).1 h⟩
          · rintro ⟨⟨hxs, hys⟩, h⟩
            exact (pairwise_merge_iff hruns hxs hys).2 h

/-- **What decides over the order.** The sorted list ascends by a transitive relation exactly if
each comparison of the sort is decided by it: a pair that one comparison puts into the wrong order
is never put right by others. -/
theorem pairwise_msort_iff (htrans : TransOn R l) :
    (msort le l).Pairwise R ↔ ∀ p ∈ comparisons le l, Decides le R p.1 p.2 :=
  pairwise_msortWithin_iff _ (Nat.le_refl _) htrans

/-- On the elements of `l`, whatever `le` decides holds of `R`, and `R` is transitive. -/
structure Follows (le : α → α → Bool) (R : α → α → Prop) (l : List α) : Prop where
  decides : ∀ x ∈ l, ∀ y ∈ l, Decides le R x y
  trans : TransOn R l

theorem Follows.mono (h : Follows le R l) (hsub : l' ⊆ l) : Follows le R l' where
  decides := fun x hx y hy => h.decides x (hsub hx) y (hsub hy)
  trans := h.trans.mono hsub

/-- A list that is sorted by a comparison which follows a relation satisfies the relation. -/
private theorem Follows.pairwise_msortWithin (fuel : ℕ) (hfuel : l.length ≤ fuel)
    (h : Follows le R l) : (msortWithin le fuel l).Pairwise R :=
  (pairwise_msortWithin_iff fuel hfuel h.trans).2 fun p hp =>
    h.decides p.1 (mem_of_mem_msortComparisonsWithin _ hp).1 p.2
      (mem_of_mem_msortComparisonsWithin _ hp).2

/-- If `le` follows `R`, the sorted list ascends by it. -/
theorem Follows.pairwise_msort (h : Follows le R l) : (msort le l).Pairwise R :=
  h.pairwise_msortWithin _ (Nat.le_refl _)

end Relation

/-! ### Sorting by a key -/

section Key

variable {β : Type} [LinearOrder β] {key : α → β}

/-- A comparison of keys follows the order of the keys. -/
private theorem follows_key {l : List α} (hle : ∀ x ∈ l, ∀ y ∈ l,
    (le x y = true → key x ≤ key y) ∧ (le x y = false → key y ≤ key x)) :
    Follows le (fun a b => key a ≤ key b) l where
  decides := hle
  trans := fun _ _ _ _ _ _ => le_trans

variable (key) in
/-- If `le` never contradicts a linear key, the sorted list ascends by that key. -/
theorem pairwise_msort {l : List α} (hle : ∀ x ∈ l, ∀ y ∈ l,
    (le x y = true → key x ≤ key y) ∧ (le x y = false → key y ≤ key x)) :
    (msort le l).Pairwise fun a b => key a ≤ key b :=
  (follows_key hle).pairwise_msort

/-- Sorting does not depend on the order before it, if elements that are not the same differ in the
order. -/
theorem msort_eq_of_perm [LinearOrder α] {l l' : List α}
    (hle : ∀ x y : α, le x y = true ↔ x ≤ y) (hperm : l.Perm l') : msort le l = msort le l' := by
  have hsorted : ∀ l : List α, (msort le l).Pairwise (· ≤ ·) := fun l =>
    pairwise_msort id fun x _ y _ => ⟨(hle x y).1, fun hnot =>
      le_of_not_ge fun hxy => by rw [(hle x y).2 hxy] at hnot; cases hnot⟩
  exact ((msort_perm l).trans (hperm.trans (msort_perm l').symm)).eq_of_pairwise
    (fun _ _ _ _ => le_antisymm) (hsorted l) (hsorted l')

variable (key) in
/-- Sorting by a key is stable: a pair that the key allows keeps its order, if `le` never
contradicts the key and lets `y` be preceded by all that the key lets precede it. -/
theorem before_msort_of_key {l : List α} {x y : α} (hle : ∀ a ∈ l, ∀ b ∈ l,
      (le a b = true → key a ≤ key b) ∧ (le a b = false → key b ≤ key a))
    (hy : ∀ z ∈ l, key z ≤ key y → le z y = true) (h : Before l x y) (hxy : key x ≤ key y) :
    Before (msort le l) x y := by
  suffices hfuel : ∀ fuel l, l.length ≤ fuel → (∀ a ∈ l, ∀ b ∈ l,
        (le a b = true → key a ≤ key b) ∧ (le a b = false → key b ≤ key a)) →
      (∀ z ∈ l, key z ≤ key y → le z y = true) → Before l x y →
        Before (msortWithin le fuel l) x y from hfuel _ l (Nat.le_refl _) hle hy h
  clear hle hy h l
  intro fuel
  induction fuel with
  | zero => exact fun l _ _ _ h => h
  | succ fuel ih =>
      intro l hlen hle hy h
      rw [msortWithin]
      split
      · exact h
      -- both halves are shorter, and the hypotheses on `le` hold of their elements
      have htake : (l.take (l.length / 2)).length ≤ fuel := by rw [List.length_take]; omega
      have hdrop : (l.drop (l.length / 2)).length ≤ fuel := by rw [List.length_drop]; omega
      have hsubt := List.take_subset (l.length / 2) l
      have hsubd := List.drop_subset (l.length / 2) l
      rw [← List.take_append_drop (l.length / 2) l] at h
      rcases h.append_cases with h | h | ⟨hx, hymem⟩
      · exact (ih _ htake (fun a ha b hb => hle a (hsubt ha) b (hsubt hb))
          (fun z hz => hy z (hsubt hz)) h).merge_left
      · exact (ih _ hdrop (fun a ha b hb => hle a (hsubd ha) b (hsubd hb))
          (fun z hz => hy z (hsubd hz)) h).merge_right
      · -- the left run ascends, so all that it has in front of `x` may go in front of `y` too
        have hmem : x ∈ msortWithin le fuel (l.take (l.length / 2)) :=
          (msortWithin_perm _ _).mem_iff.2 hx
        obtain ⟨xs₁, xs₂, hxs⟩ := List.append_of_mem hmem
        have hfollows := follows_key fun a ha b hb => hle a (hsubt ha) b (hsubt hb)
        have hasc : (msortWithin le fuel (l.take (l.length / 2))).Pairwise
            fun a b => key a ≤ key b :=
          hfollows.pairwise_msortWithin fuel htake
        rw [hxs] at hasc ⊢
        refine before_merge (fun z hz => ?_) (hy x (hsubt hx) hxy)
          ((msortWithin_perm _ _).mem_iff.2 hymem)
        have hz' : z ∈ l.take (l.length / 2) :=
          (msortWithin_perm _ _).mem_iff.1 (hxs ▸ List.mem_append_left _ hz)
        have hzx : key z ≤ key x := (List.pairwise_append.1 hasc).2.2 z hz x List.mem_cons_self
        exact hy z (hsubt hz') (hzx.trans hxy)

end Key

end GLib
