import CliPos.Lib.Terminal
import CliPos.Model.Drawing
import CliPos.Model.InputString

/-!
# The line editor on the screen

`get_string` of `Model.InputString` once more, with what it draws.  Colours and attributes
are left out.
-/

set_option autoImplicit false

namespace CliPos

open Decimal

section

variable {σ : Type} (term : Terminal σ)

/-- The computations that read keys and draw. -/
abbrev Drawn (σ : Type) := EStateM Halt (List Key × σ)

/-- The top of the edit loop: a mark behind a limited field, and the cursor behind the text.
`origin` is the place of `initial_y` and `initial_x`. -/
def drawMark (origin : Place) (maxLength : ℤ) (length : ℕ) (t : σ) : σ :=
  if maxLength ≠ 0 then
    let t := term.move (origin.1, origin.2 + maxLength) t
    let t := term.print [space] t
    term.move (origin.1, origin.2 + length) t
  else t

/-- What a backspace or delete key draws: the cell before the cursor is blanked. -/
def drawBackspace (key : Key) (s : Str) (t : σ) : σ :=
  if (key = keyBackspace ∨ key = keyDelete) ∧ s ≠ [] then
    let place := term.cursor t
    term.move (place.1, place.2 - 1) (term.mvaddch (place.1, place.2 - 1) space t)
  else t

/-- What a key that may be printable draws; `place` is where the cursor was when the key
came. -/
def drawPrintable (showText : Bool) (maxLength : ℤ) (place : Place) (key : Key) (s : Str)
    (t : σ) : σ :=
  if isprint (charOfKey key) ∧ (s.length : ℤ) < toSizeT maxLength ∧ showText then
    term.move (place.1, place.2 + 1) (term.addch (charOfKey key) t)
  else t

/-- The edit loop of `get_string`. -/
def drawnEditLoop (showText : Bool) (origin : Place) (maxLength : ℤ) :
    List Key → Str → σ → EStateM.Result Halt (List Key × σ) (Option Str)
  | [], s, t => .error .waiting ([], drawMark term origin maxLength s.length t)
  | key :: keys, s, t =>
    let t := drawMark term origin maxLength s.length t
    let maxLength := if maxLength ≠ 0 then maxLength else -1
    let place := term.cursor t
    let t := drawBackspace term key s t
    let s := afterBackspace key s
    if key = keyEnter then .ok (some s) (keys, t)
    else if key = keyEsc then .ok none (keys, t)
    else drawnEditLoop showText origin maxLength keys (afterPrintable maxLength key s)
      (drawPrintable term showText maxLength place key s t)

/-- `get_string`. -/
def drawnGetString (showText : Bool) (s : Str) (maxLength : ℤ) : Drawn σ (Option Str) := fun st =>
  let origin := term.cursor st.2
  let t := term.print s st.2
  if s ≠ [] then
    match st.1 with
    | [] => .error .waiting ([], t)
    | key :: keys =>
      if key ≠ keyEnter then
        let t := term.move origin t
        let t := term.print (List.replicate s.length space) t
        let t := term.move origin t
        let first := if isprint (charOfKey key) then [charOfKey key] else []
        drawnEditLoop term showText origin maxLength keys first
          (if showText then term.print first t else t)
      else .ok (some s) (keys, t)
  else drawnEditLoop term showText origin maxLength st.1 s t

end

end CliPos
