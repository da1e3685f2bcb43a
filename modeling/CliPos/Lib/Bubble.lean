import Mathlib.Algebra.BigOperators.Fin
import Mathlib.Data.List.Count
import Mathlib.Data.List.Perm.Basic
import Mathlib.Tactic.Ring

/-!
# Sorting by adjacent swaps

A list, and a test whether one entry belongs behind another.  `inverted` counts the pairs of
positions whose entries stand the wrong way round.  Swapping two neighbours of such a pair
lowers it by exactly one (`inverted_swap`): of the test nothing is needed but that it does not
hold both ways for these two, so it need not be an order.
-/

set_option autoImplicit false

namespace Bubble

variable {α : Type} (after : α → α → Bool)

/-- The pairs of positions whose entries stand the wrong way round. -/
def pairs (v : List α) : Finset (Fin v.length × Fin v.length) :=
  Finset.univ.filter fun p => p.1 < p.2 ∧ after (v.get p.1) (v.get p.2) = true

/-- The number of these pairs. -/
def inverted (v : List α) : ℕ := (pairs after v).card

/-- The inversions as a sum over all pairs of places. -/
theorem inverted_eq_sum (v : List α) : inverted after v =
    ∑ i : Fin v.length, ∑ j : Fin v.length,
      if i < j ∧ after (v.get i) (v.get j) = true then 1 else 0 := by
  rw [inverted, pairs, Finset.card_filter, Fintype.sum_prod_type]

/-- A count as a sum over the places. -/
theorem countP_eq_sum (p : α → Bool) (v : List α) :
    v.countP p = ∑ j : Fin v.length, if p (v.get j) = true then 1 else 0 := by
  induction v with
  | nil => rfl
  | cons x v ih =>
    rw [List.countP_cons, ih, add_comm]
    exact (Fin.sum_univ_succ fun j : Fin (v.length + 1) =>
      if p ((x :: v).get j) = true then 1 else 0).symm

/-- An empty list has no inversion. -/
@[simp] theorem inverted_nil : inverted after [] = 0 := rfl

/-- The pairs of the first entry, and those of the others. -/
theorem inverted_cons (x : α) (v : List α) :
    inverted after (x :: v) = v.countP (after x) + inverted after v := by
  have hfirst : ∀ j : Fin v.length, (0 : Fin (v.length + 1)) < j.succ := fun j => j.succ_pos
  rw [inverted_eq_sum, inverted_eq_sum, countP_eq_sum]
  refine (Fin.sum_univ_succ _).trans ?_
  congr 1
  · refine (Fin.sum_univ_succ _).trans ?_
    simp [hfirst]
  · refine Finset.sum_congr rfl fun i _ => (Fin.sum_univ_succ _).trans ?_
    simp

variable {after}

/-- **A swap of two neighbours** lowers the number of pairs by exactly one. -/
theorem inverted_swap {x y : α} (hxy : after x y = true) (hyx : after y x = false)
    (front rest : List α) :
    inverted after (front ++ x :: y :: rest) = inverted after (front ++ y :: x :: rest) + 1 := by
  induction front with
  | nil =>
    simp only [List.nil_append, inverted_cons, List.countP_cons, hxy, hyx]
    simp
    omega
  | cons z front ih =>
    have hcount : (front ++ x :: y :: rest).countP (after z) =
        (front ++ y :: x :: rest).countP (after z) :=
      ((List.Perm.swap y x rest).append_left front).countP_eq _
    rw [List.cons_append, List.cons_append, inverted_cons, inverted_cons, ih, hcount, add_assoc]

/-- No list has more of them than pairs of positions. -/
theorem inverted_le (v : List α) : inverted after v ≤ v.length * (v.length - 1) / 2 := by
  rw [Nat.le_div_iff_mul_le Nat.zero_lt_two]
  induction v with
  | nil => simp
  | cons x v ih =>
    have hcount : v.countP (after x) ≤ v.length := List.countP_le_length
    rw [inverted_cons, List.length_cons, Nat.add_sub_cancel]
    cases hlength : v.length with
    | zero =>
      rw [hlength] at ih hcount
      omega
    | succ n =>
      rw [hlength, Nat.add_sub_cancel] at ih
      rw [hlength] at hcount
      calc (v.countP (after x) + inverted after v) * 2
          = 2 * v.countP (after x) + inverted after v * 2 := by ring
        _ ≤ 2 * (n + 1) + (n + 1) * n := Nat.add_le_add (Nat.mul_le_mul_left 2 hcount) ih
        _ = (n + 1 + 1) * (n + 1) := by ring

/-- Two neighbours of a list. -/
theorem exists_neighbours {v : List α} {i : ℕ} {x y : α} (hx : v[i]? = some x)
    (hy : v[i + 1]? = some y) : ∃ front rest, v = front ++ x :: y :: rest ∧
      (v.set i y).set (i + 1) x = front ++ y :: x :: rest := by
  obtain ⟨hi, rfl⟩ := List.getElem?_eq_some_iff.1 hx
  obtain ⟨hj, rfl⟩ := List.getElem?_eq_some_iff.1 hy
  have hlength : (v.take i).length = i := List.length_take_of_le hi.le
  have hsplit : v = v.take i ++ v[i] :: v[i + 1] :: v.drop (i + 2) := by
    rw [List.getElem_cons_drop, List.getElem_cons_drop, List.take_append_drop]
  refine ⟨v.take i, v.drop (i + 2), hsplit, ?_⟩
  generalize v[i] = x at hsplit ⊢
  generalize v[i + 1] = y at hsplit ⊢
  generalize v.drop (i + 2) = rest at hsplit ⊢
  generalize v.take i = front at hlength hsplit ⊢
  subst hlength
  rw [hsplit]
  simp

end Bubble
