import CliPos.Model.Numerals
import CliPos.Lib.Halting

/-!
# Reading text from the keyboard

`input_string.cpp`: the line editor `get_string` and the filter `remove_non_nr`.
What they draw on the screen is left out.
-/

set_option autoImplicit false

namespace CliPos

open Decimal

/-! ## `get_string` -/

/-- The text after a backspace or delete key. -/
def afterBackspace (key : Key) (s : Str) : Str :=
  if key = keyBackspace ∨ key = keyDelete then s.dropLast else s

/-- The text after a key that may be printable: `s.length() < max_length` compares a
`size_t` with a `short int`, so a negative limit is no limit. -/
def afterPrintable (maxLength : ℤ) (key : Key) (s : Str) : Str :=
  if isprint (charOfKey key) ∧ (s.length : ℤ) < toSizeT maxLength then
    s ++ [charOfKey key]
  else s

/-- The edit loop of `get_string`.  A `max_length` of 0 becomes -1. -/
def editLoop (maxLength : ℤ) : List Key → Str → EStateM.Result Halt (List Key) (Option Str)
  | [], _ => .error .waiting []
  | key :: keys, s =>
    let maxLength := if maxLength ≠ 0 then maxLength else -1
    let s := afterBackspace key s
    if key = keyEnter then .ok (some s) keys
    else if key = keyEsc then .ok none keys
    else editLoop maxLength keys (afterPrintable maxLength key s)

/-- `get_string`, with the placeholder `s` and the limit `max_length`. -/
def getString (s : Str) (maxLength : ℤ) : Input (Option Str) := fun keys =>
  if s ≠ [] then
    match keys with
    | [] => .error .waiting []
    | key :: keys =>
      -- the placeholder is wiped; the first key is kept when it is printable
      if key ≠ keyEnter then
        editLoop maxLength keys (if isprint (charOfKey key) then [charOfKey key] else [])
      else .ok (some s) keys
  else editLoop maxLength keys s

/-! ## `remove_non_nr` -/

/-- The characters `remove_non_nr` keeps: digits and dots. -/
def isNr (b : Byte) : Bool := isDigit b || b == dot

/-- The loop of `remove_non_nr`, at index `i` of its input.  `i` is a `short int`: once
it has wrapped, the comparison with the length reads it as a huge `size_t` and the loop
ends. -/
def removeNonNrLoop : Str → ℤ → Str
  | [], _ => []
  | b :: rest, i =>
    if i < 0 then []
    else (if isNr b then [b] else []) ++ removeNonNrLoop rest (toShort (i + 1))

/-- `remove_non_nr`. -/
def removeNonNr (input : Str) : Str :=
  let output := removeNonNrLoop input 0
  if output = [] then [48] else output

end CliPos
