import Mathlib.Algebra.Order.Group.Unbundled.Abs
import Mathlib.Algebra.Order.Group.Abs
import Mathlib.Algebra.BigOperators.Group.List.Basic
import Mathlib.Tactic.Abel

/-!
# Sums of rounded numbers

A rounding is *within* `ε` when it moves no number by more than `ε`.  Rounding every entry
of a list before adding them up moves the sum by at most `ε` an entry (`sum_map_error`), so
two sums that agree before rounding stay close after it; and where no entry moves, neither
does the sum.
-/

set_option autoImplicit false

namespace Rounding

variable {α : Type} [AddCommGroup α] [LinearOrder α] [IsOrderedAddMonoid α]

/-- The rounding moves no number by more than `ε`. -/
def Within (ε : α) (round : α → α) : Prop := ∀ x, |round x - x| ≤ ε

variable {ε : α} {round : α → α}

/-- **Rounding the entries of a list** moves their sum by at most `ε` an entry. -/
theorem sum_map_error (h : Within ε round) (xs : List α) :
    |(xs.map round).sum - xs.sum| ≤ xs.length • ε := by
  induction xs with
  | nil => simp
  | cons x xs ih =>
    have hsplit : ((x :: xs).map round).sum - (x :: xs).sum =
        (round x - x) + ((xs.map round).sum - xs.sum) := by
      rw [List.map_cons, List.sum_cons, List.sum_cons]
      abel
    calc |((x :: xs).map round).sum - (x :: xs).sum|
        ≤ |round x - x| + |(xs.map round).sum - xs.sum| := by
          rw [hsplit]
          exact abs_add_le _ _
      _ ≤ ε + xs.length • ε := add_le_add (h x) ih
      _ = (x :: xs).length • ε := by
          rw [List.length_cons, succ_nsmul, add_comm]

omit [LinearOrder α] [IsOrderedAddMonoid α] in
/-- A list whose entries are not moved keeps its sum. -/
theorem sum_map_exact {xs : List α} (h : ∀ x ∈ xs, round x = x) :
    (xs.map round).sum = xs.sum := by
  rw [List.map_congr_left h, List.map_id']

/-- **Rounding the parts of a balance** and rounding the balance: what is rounded before
differs from what is rounded after by at most `ε` for each number rounded. -/
theorem balance_error (h : Within ε round) (xs ys : List α) :
    |round (xs.sum - ys.sum) - ((xs.map round).sum - (ys.map round).sum)| ≤
      (xs.length + ys.length + 1) • ε := by
  have hsplit : round (xs.sum - ys.sum) - ((xs.map round).sum - (ys.map round).sum) =
      (round (xs.sum - ys.sum) - (xs.sum - ys.sum)) +
        (((ys.map round).sum - ys.sum) - ((xs.map round).sum - xs.sum)) := by
    abel
  calc |round (xs.sum - ys.sum) - ((xs.map round).sum - (ys.map round).sum)|
      ≤ |round (xs.sum - ys.sum) - (xs.sum - ys.sum)| +
          |((ys.map round).sum - ys.sum) - ((xs.map round).sum - xs.sum)| := by
        rw [hsplit]
        exact abs_add_le _ _
    _ ≤ ε + (ys.length • ε + xs.length • ε) :=
        add_le_add (h _) ((abs_sub _ _).trans
          (add_le_add (sum_map_error h ys) (sum_map_error h xs)))
    _ = (xs.length + ys.length + 1) • ε := by
        rw [add_nsmul, add_nsmul, one_nsmul]
        abel

end Rounding
