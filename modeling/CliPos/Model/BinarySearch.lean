import CliPos.Model.Definitions

/-!
# Searching a list of names

`binary_search.cpp`: `compare_string` and `binary_search`.
-/

set_option autoImplicit false

namespace CliPos

open Decimal

/-- `compare_string`: whether the first text comes after the second at the first place
where they differ.  The loop ends with the shorter text, and `char` is signed. -/
def compareString : Str → Str → Bool
  | a :: s1, b :: s2 =>
    if signedChar a > signedChar b then true
    else if signedChar a < signedChar b then false
    else compareString s1 s2
  | _, _ => false

/-- The loop of `binary_search`.  It returns the last probe. -/
def binarySearchLoop (v : List Str) (searchWord : Str) (start stop mid : ℤ) :
    Except Halt ℤ :=
  if _h : start ≤ stop then
    let mid := start + (stop - start) / 2
    match elementAt v mid with
    | none => .error (.undefined .searchMid)
    | some name =>
      if name = searchWord then .ok mid
      else if compareString searchWord name then
        binarySearchLoop v searchWord (mid + 1) stop mid
      else binarySearchLoop v searchWord start (mid - 1) mid
  else .ok mid
termination_by (stop - start + 1).toNat
decreasing_by all_goals omega

/-- `binary_search`; `uninit` is what the variable `mid` happens to hold before the
loop. -/
def binarySearch (v : List Str) (searchWord : Str) (uninit : ℤ) : Except Halt ℤ :=
  binarySearchLoop v searchWord 0 ((v.length : ℤ) - 1) uninit

end CliPos
