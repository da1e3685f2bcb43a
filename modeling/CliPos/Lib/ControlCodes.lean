import Mathlib.Data.List.Basic

/-!
# Texts with control sequences

A stream over an alphabet with an escape symbol.  The symbol behind the escape is the code of
a command; `arity` says whether the command stands alone or takes the next symbol as its
operand, and knows no other codes.  Everything else is text.

A sequence that lost its operand takes one of what follows: `parse_operand` reads whatever
symbol comes next as the operand, so the command and the text are both changed.
-/

set_option autoImplicit false

namespace ControlCodes

variable {α : Type} [DecidableEq α]

/-- A symbol of text, a command alone, or a command with its operand. -/
inductive Item (α : Type) where
  | text (a : α)
  | plain (code : α)
  | operand (code a : α)
  deriving DecidableEq

/-- What a command code takes. -/
inductive Arity where
  | none
  | one
  deriving DecidableEq

/-- Read a stream. -/
def parse (esc : α) (arity : α → Option Arity) : List α → Option (List (Item α))
  | [] => some []
  | [a] => if a = esc then none else some [.text a]
  | a :: code :: rest =>
    if a ≠ esc then (parse esc arity (code :: rest)).map (.text a :: ·)
    else if arity code = some .none then (parse esc arity rest).map (.plain code :: ·)
    else if arity code = some .one then
      match rest with
      | [] => none
      | b :: rest => (parse esc arity rest).map (.operand code b :: ·)
    else none

/-- The text of a stream. -/
def texts (items : List (Item α)) : List α :=
  items.filterMap fun
    | .text a => some a
    | _ => none

/-- The commands of a stream, in order. -/
def controls (items : List (Item α)) : List (Item α) :=
  items.filter fun
    | .text _ => false
    | _ => true

section

variable {esc : α} {arity : α → Option Arity}

/-- Nothing is parsed as nothing. -/
@[simp] theorem parse_nil : parse esc arity [] = some [] := rfl

/-- A symbol that starts no command is text. -/
theorem parse_cons {a : α} (ha : a ≠ esc) (rest : List α) :
    parse esc arity (a :: rest) = (parse esc arity rest).map (.text a :: ·) := by
  cases rest with
  | nil => simp [parse, ha]
  | cons code rest => cases rest <;> simp [parse, ha]

/-- **Text** is read as it is. -/
theorem parse_text {s : List α} (hs : esc ∉ s) (rest : List α) :
    parse esc arity (s ++ rest) = (parse esc arity rest).map (s.map .text ++ ·) := by
  induction s with
  | nil => simp
  | cons a s ih =>
    rw [List.mem_cons, not_or] at hs
    rw [List.cons_append, parse_cons (Ne.symm hs.1), ih hs.2, Option.map_map]
    rfl

/-- **A command alone.** -/
theorem parse_plain {code : α} (h : arity code = some .none) (rest : List α) :
    parse esc arity (esc :: code :: rest) = (parse esc arity rest).map (.plain code :: ·) := by
  cases rest <;> simp [parse, h]

/-- **A command with an operand** takes the symbol behind its code, whatever it is. -/
theorem parse_operand {code : α} (h : arity code = some .one) (a : α) (rest : List α) :
    parse esc arity (esc :: code :: a :: rest) =
      (parse esc arity rest).map (.operand code a :: ·) := by
  simp [parse, h]

end

/-! ## Text and commands of a stream -/

section

omit [DecidableEq α]

variable {s : List α} {items : List (Item α)} {code a : α}

/-- The text of a text and what follows. -/
@[simp] theorem texts_text : texts (s.map .text ++ items) = s ++ texts items := by
  simp [texts, List.filterMap_append, List.filterMap_map]

/-- A command is no text. -/
@[simp] theorem texts_plain : texts (.plain code :: items) = texts items := rfl

/-- Neither is one with an operand. -/
@[simp] theorem texts_operand : texts (.operand code a :: items) = texts items := rfl

/-- A text is no command. -/
@[simp] theorem controls_text : controls (s.map .text ++ items) = controls items := by
  simp [controls, List.filter_append, List.filter_map]

/-- A command is one. -/
@[simp] theorem controls_plain :
    controls (.plain code :: items) = .plain code :: controls items := rfl

/-- So is one with its operand. -/
@[simp] theorem controls_operand :
    controls (.operand code a :: items) = .operand code a :: controls items := rfl

end

end ControlCodes
