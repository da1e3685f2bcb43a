import Mathlib.Order.Lattice
import Mathlib.Data.Int.Notation

/-!
# Bisection with a comparison of one's own

A sorted sequence is searched for `x` by halving an interval of indices.  The search does
not compare by the order of the sequence but asks a test `after` whether `x` comes after
the entry it probes, so it is right only where the test agrees with the order.

`path` lists the entries that a bisection by the order itself probes before it meets `x`.
`search_finds_iff` is the exact condition: the search finds `x` if and only if the test
agrees with the order on the path.
-/

set_option autoImplicit false

namespace Bisect

variable {α : Type} [LinearOrder α] (entry : ℤ → Option α)

/-- Halve the interval until `x` is probed; the result is the last probe. -/
def search (after : α → Bool) (x : α) (start stop last : ℤ) : Option ℤ :=
  if _h : start ≤ stop then
    let mid := start + (stop - start) / 2
    match entry mid with
    | none => none
    | some y =>
      if y = x then some mid
      else if after y then search after x (mid + 1) stop mid
      else search after x start (mid - 1) mid
  else some last
termination_by (stop - start + 1).toNat
decreasing_by all_goals omega

/-- The entries that a bisection by the order probes before it meets `x`. -/
def path (x : α) (start stop : ℤ) : List α :=
  if _h : start ≤ stop then
    let mid := start + (stop - start) / 2
    match entry mid with
    | none => []
    | some y =>
      if y = x then []
      else if y < x then y :: path x (mid + 1) stop
      else y :: path x start (mid - 1)
  else []
termination_by (stop - start + 1).toNat
decreasing_by all_goals omega

/-- Entries at larger indices are not smaller. -/
def Sorted : Prop := ∀ i j a b, i ≤ j → entry i = some a → entry j = some b → a ≤ b

variable {entry} {x : α}

/-- Where `x` is neither in the interval nor at the last probe, it is not found. -/
theorem search_misses (after : α → Bool) (start stop last : ℤ)
    (hout : ∀ k, start ≤ k → k ≤ stop → entry k ≠ some x) (hlast : entry last ≠ some x) :
    ∀ i, search entry after x start stop last = some i → entry i ≠ some x := by
  induction start, stop, last using search.induct entry after x with
  | case1 start stop last hle mid hnone =>
    intro i hi
    rw [search, dif_pos hle] at hi
    simp only [mid] at hnone
    simp [hnone] at hi
  | case2 start stop last hle mid hsome =>
    exact absurd hsome (hout mid (by omega) (by omega))
  | case3 start stop last hle mid y hsome hne hafter ih =>
    intro i hi
    have hmid : entry mid ≠ some x := hout mid (by omega) (by omega)
    rw [search, dif_pos hle] at hi
    simp only [mid] at hsome hmid ih hi
    simp only [hsome, hne, hafter, if_false, if_true] at hi
    exact ih (fun k h1 h2 => hout k (by omega) h2) hmid i hi
  | case4 start stop last hle mid y hsome hne hafter ih =>
    intro i hi
    have hmid : entry mid ≠ some x := hout mid (by omega) (by omega)
    rw [search, dif_pos hle] at hi
    simp only [mid] at hsome hmid ih hi
    simp only [hsome, hne, hafter, if_false] at hi
    exact ih (fun k h1 h2 => hout k h1 (by omega)) hmid i hi
  | case5 start stop last hgt =>
    intro i hi
    rw [search, dif_neg hgt] at hi
    cases hi
    exact hlast

/-- The path goes on in the half where the sought entry can be. -/
theorem path_probe {start stop : ℤ} (hle : start ≤ stop) {y : α}
    (hsome : entry (start + (stop - start) / 2) = some y) (hne : y ≠ x) :
    path entry x start stop =
      if y < x then y :: path entry x (start + (stop - start) / 2 + 1) stop
      else y :: path entry x start (start + (stop - start) / 2 - 1) := by
  rw [path, dif_pos hle]
  simp only [hsome, hne, if_false]

/-- **The search finds `x`** exactly when its test agrees with the order on the path. -/
theorem search_finds_iff (after : α → Bool) (hsorted : Sorted entry) (start stop last : ℤ)
    (hin : ∀ k, entry k = some x → start ≤ k ∧ k ≤ stop) (hx : ∃ k, entry k = some x)
    (hdef : ∀ k, start ≤ k → k ≤ stop → ∃ y, entry k = some y) :
    (∃ i, search entry after x start stop last = some i ∧ entry i = some x) ↔
      ∀ y ∈ path entry x start stop, (after y = true ↔ y < x) := by
  induction start, stop, last using search.induct entry after x with
  | case1 start stop last hle mid hnone =>
    obtain ⟨y, hy⟩ := hdef mid (by omega) (by omega)
    rw [hnone] at hy
    cases hy
  | case2 start stop last hle mid hsome =>
    have hsearch : search entry after x start stop last = some mid := by
      rw [search, dif_pos hle]
      simp only [mid] at hsome ⊢
      simp [hsome]
    have hpath : path entry x start stop = [] := by
      rw [path, dif_pos hle]
      simp only [mid] at hsome
      simp [hsome]
    rw [hsearch, hpath]
    simp [hsome]
  | case3 start stop last hle mid y hsome hne hafter ih =>
    -- the search goes right
    have hsearch : search entry after x start stop last =
        search entry after x (mid + 1) stop mid := by
      rw [search, dif_pos hle]
      simp only [mid] at hsome ⊢
      simp only [hsome, hne, hafter, if_false, if_true]
    rw [hsearch, path_probe hle hsome hne]
    by_cases hlt : y < x
    · have hright : ∀ k, entry k = some x → mid + 1 ≤ k ∧ k ≤ stop := by
        intro k hk
        have hkstop := (hin k hk).2
        have hnot : ¬k ≤ mid := fun hkm => absurd (hsorted k mid x y hkm hk hsome) (not_le.2 hlt)
        omega
      rw [if_pos hlt, List.forall_mem_cons, ih hright fun k h1 h2 => hdef k (by omega) h2]
      simp [hafter, hlt, mid]
    · have hgt : x < y := lt_of_le_of_ne (not_lt.1 hlt) (Ne.symm hne)
      have hout : ∀ k, mid + 1 ≤ k → k ≤ stop → entry k ≠ some x := by
        intro k hk _ hkx
        exact absurd (hsorted mid k y x (by omega) hsome hkx) (not_le.2 hgt)
      have hmid : entry mid ≠ some x := by
        rw [hsome]
        simpa using hne
      have hmiss := search_misses after (mid + 1) stop mid hout hmid
      constructor
      · rintro ⟨i, hi, hix⟩
        exact absurd hix (hmiss i hi)
      · intro hall
        rw [if_neg hlt] at hall
        exact absurd ((hall y List.mem_cons_self).1 hafter) hlt
  | case4 start stop last hle mid y hsome hne hafter ih =>
    -- the search goes left
    have hsearch : search entry after x start stop last =
        search entry after x start (mid - 1) mid := by
      rw [search, dif_pos hle]
      simp only [mid] at hsome ⊢
      simp only [hsome, hne, hafter, if_false]
      simp
    rw [hsearch, path_probe hle hsome hne]
    by_cases hlt : y < x
    · have hout : ∀ k, start ≤ k → k ≤ mid - 1 → entry k ≠ some x := by
        intro k _ hk hkx
        exact absurd (hsorted k mid x y (by omega) hkx hsome) (not_le.2 hlt)
      have hmid : entry mid ≠ some x := by
        rw [hsome]
        simpa using hne
      have hmiss := search_misses after start (mid - 1) mid hout hmid
      constructor
      · rintro ⟨i, hi, hix⟩
        exact absurd hix (hmiss i hi)
      · intro hall
        rw [if_pos hlt] at hall
        exact absurd ((hall y List.mem_cons_self).2 hlt) hafter
    · have hgt : x < y := lt_of_le_of_ne (not_lt.1 hlt) (Ne.symm hne)
      have hleft : ∀ k, entry k = some x → start ≤ k ∧ k ≤ mid - 1 := by
        intro k hk
        have hkstart := (hin k hk).1
        have hnot : ¬mid ≤ k := fun hkm => absurd (hsorted mid k y x hkm hsome hk) (not_le.2 hgt)
        omega
      rw [if_neg hlt, List.forall_mem_cons, ih hleft fun k h1 h2 => hdef k h1 (by omega)]
      simp [hafter, hlt, mid]
  | case5 start stop last hgt =>
    obtain ⟨k, hk⟩ := hx
    have := hin k hk
    omega

end Bisect
