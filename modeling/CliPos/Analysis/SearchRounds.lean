import CliPos.Model.Sorting
import CliPos.Analysis.Search

/-!
# The search ends

`binary_search` halves its interval whatever its comparison answers, so it ends after as many
rounds as the length of the list has binary digits, and on the way no `int` overflows
(`search_ends`).
-/

set_option autoImplicit false

namespace CliPos

open Decimal

variable {v : List Str} {searchWord : Str} {start stop mid : ℤ}

/-- The middle of an interval inside a list, in `int` arithmetic. -/
theorem toInt_middle (hsize : (v.length : ℤ) < 2 ^ 31) (h0 : 0 ≤ start) (hle : start ≤ stop)
    (h1 : stop < v.length) :
    toInt (start + (toInt (stop - start)).tdiv 2) = start + (stop - start) / 2 := by
  have hwidth : toInt (stop - start) = stop - start := toInt_of_lt (by omega) (by omega)
  rw [hwidth, Int.tdiv_eq_ediv_of_nonneg (by omega)]
  exact toInt_of_lt (by omega) (by omega)

/-- **The rounds of the search.**  The induction is on the rounds that are left: each of them
at least halves the interval, so an interval of less than `2 ^ rounds` entries needs no
more. -/
theorem searchRounds_eq (hsize : (v.length : ℤ) < 2 ^ 31) {rounds : ℕ} (h0 : 0 ≤ start)
    (h1 : stop < v.length) (hrounds : stop - start + 1 < 2 ^ rounds) :
    searchRounds v searchWord rounds start stop mid =
      some (binarySearchLoop v searchWord start stop mid) := by
  induction rounds generalizing start stop mid with
  | zero =>
    have hgt : ¬start ≤ stop := by
      rw [pow_zero] at hrounds
      omega
    rw [searchRounds, if_neg hgt, binarySearchLoop, dif_neg hgt]
  | succ rounds ih =>
    rw [searchRounds, binarySearchLoop]
    by_cases hle : start ≤ stop
    · rw [if_pos hle, dif_pos hle, toInt_middle hsize h0 hle h1]
      rw [pow_succ] at hrounds
      have hright : toInt (start + (stop - start) / 2 + 1) = start + (stop - start) / 2 + 1 :=
        toInt_of_lt (by omega) (by omega)
      have hleft : toInt (start + (stop - start) / 2 - 1) = start + (stop - start) / 2 - 1 :=
        toInt_of_lt (by omega) (by omega)
      dsimp only
      rw [hright, hleft]
      cases elementAt v (start + (stop - start) / 2) with
      | none => rfl
      | some name =>
        dsimp only
        split_ifs with hfound hafter
        · rfl
        · exact ih (by omega) h1 (by omega)
        · exact ih h0 (by omega) (by omega)
    · rw [if_neg hle, dif_neg hle]

/-- **The search ends** on every list with an entry, sorted or not, and for every word: after
at most as many rounds as the length has binary digits it returns an index of the list, and
it has read the list inside its range only, since a read outside it would be the result. -/
theorem search_ends (v : List Str) (searchWord : Str) (uninit : ℤ) (hv : v ≠ [])
    (hsize : v.length < 2 ^ 31) :
    ∃ i, 0 ≤ i ∧ i < (v.length : ℤ) ∧ binarySearch v searchWord uninit = .ok i ∧
      ∀ rounds, v.length < 2 ^ rounds → searchInts rounds v searchWord uninit = some (.ok i) := by
  obtain ⟨i, hi, h0, h1⟩ := binarySearch_range hv searchWord uninit
  refine ⟨i, h0, h1, hi, fun rounds hrounds => ?_⟩
  have hpos : 0 < v.length := List.length_pos_of_ne_nil hv
  have hsize' : (v.length : ℤ) < 2 ^ 31 := by exact_mod_cast hsize
  have hrounds' : (v.length : ℤ) < 2 ^ rounds := by exact_mod_cast hrounds
  have hend : toInt (sizeMinusOne v.length) = (v.length : ℤ) - 1 := by
    rw [sizeMinusOne, toSizeT_of_nonneg (by omega)]
    exact toInt_of_lt (by omega) (by omega)
  rw [searchInts, hend, searchRounds_eq hsize' le_rfl (by omega) (by omega)]
  exact congrArg some hi

/-- Three names that are not sorted. -/
theorem search_ends_unsorted : ∃ i, 0 ≤ i ∧ i < (3 : ℤ) ∧
    searchInts 2 [label "milk", label "bread", label "apple"] (label "bread") 0 =
      some (.ok i) := by
  obtain ⟨i, h0, h1, -, hints⟩ := search_ends [label "milk", label "bread", label "apple"]
    (label "bread") 0 (List.cons_ne_nil _ _) (by decide)
  exact ⟨i, h0, h1, hints 2 (by decide)⟩

end CliPos
