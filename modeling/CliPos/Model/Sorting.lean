import CliPos.Model.BinarySearch
import CliPos.Model.Drawing

/-!
# The loops of `binary_search.cpp`

`compare_string` and `binary_search` once more with the arithmetic of their `int`s, and
`bubble_sort`, whose outer loop runs until a flag is set.  The loops run for so many rounds, and
those that may need more say when these are used up.
-/

set_option autoImplicit false

namespace CliPos

open Decimal

/-! ## `compare_string` -/

/-- The loop of `compare_string`, with the number of rounds left. -/
def compareRounds : ℕ → Str → Str → Bool
  | rounds + 1, a :: s1, b :: s2 =>
    if signedChar a > signedChar b then true
    else if signedChar a < signedChar b then false
    else compareRounds rounds s1 s2
  | _, _, _ => false

/-- `max_size`: the length of the shorter text, converted to an `int`. -/
def maxSize (s1 s2 : Str) : ℤ :=
  toInt (if s1.length < s2.length then s1.length else s2.length)

/-- `compare_string` up to `max_size`. -/
def compareInts (s1 s2 : Str) : Bool := compareRounds (maxSize s1 s2).toNat s1 s2

/-! ## `bubble_sort` -/

/-- One round of the inner loop of `bubble_sort`, on the list and the flag `sorted`.  There
is no result when `v[i]` or `v[i + 1]` is read outside the vector. -/
def bubbleRound (i : ℕ) (s : List Str × Bool) : Option (List Str × Bool) := do
  let a ← s.1[i]?
  let b ← s.1[i + 1]?
  if compareString a b then return ((s.1.set i b).set (i + 1) a, false) else return s

/-- The inner loop, from the index `i` on, with the number of rounds left. -/
def bubbleLoop : (rounds i : ℕ) → List Str × Bool → Option (List Str × Bool)
  | 0, _, s => some s
  | rounds + 1, i, s => do
    let s ← bubbleRound i s
    bubbleLoop rounds (i + 1) s

/-- The inner loop, up to `v.size() - 1`. -/
def bubblePass (s : List Str × Bool) : Option (List Str × Bool) :=
  bubbleLoop (sizeMinusOne s.1.length).toNat 0 s

/-- Why `bubble_sort` has not returned. -/
inductive Unsorted where
  /-- The passes allowed are used up. -/
  | passes
  /-- `v[i]` or `v[i + 1]` was read outside the vector. -/
  | undefined
  deriving DecidableEq, Repr

/-- The outer loop `while (!sorted)`, for so many passes at most. -/
def bubbleWhile : ℕ → List Str × Bool → Except Unsorted (List Str)
  | passes, s =>
    if s.2 then .ok s.1
    else
      match passes with
      | 0 => .error .passes
      | passes + 1 =>
        match bubblePass s with
        | none => .error .undefined
        | some s => bubbleWhile passes s

/-- `bubble_sort`, for so many passes at most. -/
def bubbleSort (passes : ℕ) (v : List Str) : Except Unsorted (List Str) :=
  bubbleWhile passes (v, false)

/-! ## `binary_search` -/

/-- The loop of `binary_search` in `int` arithmetic, for so many rounds at most. -/
def searchRounds (v : List Str) (searchWord : Str) :
    (rounds : ℕ) → (start stop mid : ℤ) → Option (Except Halt ℤ)
  | rounds, start, stop, mid =>
    if start ≤ stop then
      match rounds with
      | 0 => none
      | rounds + 1 =>
        let mid := toInt (start + (toInt (stop - start)).tdiv 2)
        match elementAt v mid with
        | none => some (.error (.undefined .searchMid))
        | some name =>
          if name = searchWord then some (.ok mid)
          else if compareString searchWord name then
            searchRounds v searchWord rounds (toInt (mid + 1)) stop mid
          else searchRounds v searchWord rounds start (toInt (mid - 1)) mid
    else some (.ok mid)

/-- `binary_search` in `int` arithmetic: `end` is converted from a `size_t`. -/
def searchInts (rounds : ℕ) (v : List Str) (searchWord : Str) (uninit : ℤ) :
    Option (Except Halt ℤ) :=
  searchRounds v searchWord rounds 0 (toInt (sizeMinusOne v.length)) uninit

end CliPos
