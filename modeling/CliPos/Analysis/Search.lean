import CliPos.Model.BinarySearch

/-!
# The search
-/

set_option autoImplicit false

namespace CliPos

open Decimal

/-- **The loop of `binary_search`** reads inside the list, and returns a probe when it
makes one. -/
theorem binarySearchLoop_range (v : List Str) (searchWord : Str) (start stop mid : ℤ)
    (h0 : 0 ≤ start) (h1 : stop < v.length)
    (hmid : start ≤ stop ∨ 0 ≤ mid ∧ mid < v.length) :
    ∃ i, binarySearchLoop v searchWord start stop mid = .ok i ∧ 0 ≤ i ∧ i < v.length := by
  induction start, stop, mid using binarySearchLoop.induct v searchWord with
  | case1 start stop mid hle m hnone =>
    have hm : 0 ≤ m ∧ m < v.length := by omega
    have := (elementAt_isSome_iff v m).2 hm
    rw [hnone] at this
    cases this
  | case2 start stop mid hle m hsome =>
    have hm : 0 ≤ m ∧ m < v.length := by omega
    refine ⟨m, ?_, hm⟩
    rw [binarySearchLoop, dif_pos hle]
    simp only [m] at hsome ⊢
    simp [hsome]
  | case3 start stop mid hle m name hsome hne hcmp ih =>
    have hm : 0 ≤ m ∧ m < v.length := by omega
    rw [binarySearchLoop, dif_pos hle]
    simp only [m] at hsome ih ⊢
    simp only [hsome, hne, hcmp, if_false, if_true]
    exact ih (by omega) h1 (.inr hm)
  | case4 start stop mid hle m name hsome hne hcmp ih =>
    have hm : 0 ≤ m ∧ m < v.length := by omega
    rw [binarySearchLoop, dif_pos hle]
    simp only [m] at hsome ih ⊢
    simp only [hsome, hne, hcmp, if_false]
    exact ih h0 (by omega) (.inr hm)
  | case5 start stop mid hgt =>
    rw [binarySearchLoop, dif_neg hgt]
    exact ⟨mid, rfl, hmid.resolve_left hgt⟩

/-- The search of a list that is not empty returns an index of it. -/
theorem binarySearch_range {v : List Str} (hv : v ≠ []) (searchWord : Str) (uninit : ℤ) :
    ∃ i, binarySearch v searchWord uninit = .ok i ∧ 0 ≤ i ∧ i < v.length := by
  have hpos := List.length_pos_of_ne_nil hv
  exact binarySearchLoop_range v searchWord 0 (v.length - 1) uninit le_rfl (by omega)
    (.inl (by omega))

/-- On the empty list the search returns what its variable happens to hold. -/
theorem binarySearch_nil (searchWord : Str) (uninit : ℤ) :
    binarySearch [] searchWord uninit = .ok uninit := by
  rw [binarySearch, binarySearchLoop, dif_neg (by simp)]

/-- The search reads nothing outside the list. -/
theorem binarySearch_ne_error (v : List Str) (searchWord : Str) (uninit : ℤ) (e : Halt) :
    binarySearch v searchWord uninit ≠ .error e := by
  by_cases hv : v = []
  · simp [hv, binarySearch_nil]
  · obtain ⟨i, hi, -⟩ := binarySearch_range hv searchWord uninit
    simp [hi]

end CliPos
