import Mathlib.Algebra.Order.BigOperators.Group.List

/-!
# Saturated sums

Addition that stops at a bound, in an ordered monoid without negative elements: what is added up
with it is the sum or the bound, whichever is less (`Saturated.sum_eq`), so that neither the order
of the summands nor where the sum first passes the bound is of account. For machine words the test
that keeps the sum from wrapping comes before the addition (`toNat_checkedAdd`).
-/

namespace Saturated

section Sums

variable {α : Type*} [AddCommMonoid α] [LinearOrder α]

/-- The sum, or the bound if the sum is above it. -/
def add (bound a b : α) : α := min (a + b) bound

/-- The saturated sum of a list. -/
def sum (bound : α) (l : List α) : α := l.foldl (add bound) 0

theorem sum_concat (bound : α) (l : List α) (a : α) :
    sum bound (l ++ [a]) = add bound (sum bound l) a := by
  rw [sum, List.foldl_concat, sum]

variable [CanonicallyOrderedAdd α]

/-- What is above the bound before an addition is above it afterwards. -/
theorem add_min (bound a b : α) : add bound (min a bound) b = min (a + b) bound := by
  rw [add]
  rcases le_total a bound with hle | hle
  · rw [min_eq_left hle]
  -- the sum was at the bound before, and nothing that is added takes it below
  · rw [min_eq_right hle, min_eq_right (hle.trans le_self_add), min_eq_right le_self_add]

/-- Adding with saturation at each step saturates the sum. -/
theorem foldl_add (bound a : α) (l : List α) :
    l.foldl (add bound) (min a bound) = min (a + l.sum) bound := by
  induction l generalizing a with
  | nil => simp
  | cons b l ih =>
    rw [List.foldl_cons, add_min, ih, List.sum_cons, add_assoc]

/-- **A saturated sum** is the sum or the bound. -/
theorem sum_eq (bound : α) (l : List α) : sum bound l = min l.sum bound := by
  -- the sum begins at zero, which is no more than any bound
  have hfold := foldl_add bound 0 l
  rwa [min_eq_left (zero_le), zero_add] at hfold

end Sums

/-! ### Machine words -/

/-- Addition of 64-bit words that saturates, with the test on the sum. -/
def checkedAdd (a b : UInt64) : UInt64 :=
  if a.toNat + b.toNat < 2 ^ 64 then a + b else 0xffffffffffffffff

theorem toNat_max : (0xffffffffffffffff : UInt64).toNat = 2 ^ 64 - 1 := by decide

@[simp] theorem toNat_checkedAdd (a b : UInt64) :
    (checkedAdd a b).toNat = add (2 ^ 64 - 1) a.toNat b.toNat := by
  rw [checkedAdd, add]
  split
  · rw [UInt64.toNat_add, Nat.mod_eq_of_lt ‹_›]
    omega
  · rw [toNat_max]
    omega

end Saturated
