import CliPos.Lib.Decimal
import Mathlib.Logic.Function.Basic

/-!
# A terminal

A grid of cells with a cursor, by the operations a program draws with and what is promised of
them: `move` puts the cursor somewhere on the grid, or does nothing, and `addch` writes a
printable character under the cursor and steps to the right.  What happens behind the end of
a line is left open.

`print` writes a text; `cell_print` and `cursor_print` are the rules for it.
-/

set_option autoImplicit false

open Decimal

/-- A place on the grid: line and column. -/
abbrev Place := ℤ × ℤ

/-- The characters that take one cell. -/
def Printable (b : Byte) : Prop := 32 ≤ b.val ∧ b.val ≤ 126

/-- Whether a byte is printable can be tested. -/
instance decidablePrintable (b : Byte) : Decidable (Printable b) := by
  unfold Printable; infer_instance

/-- A terminal whose states are `σ`. -/
structure Terminal (σ : Type) where
  rows : ℤ
  cols : ℤ
  cursor : σ → Place
  cell : σ → Place → Byte
  move : Place → σ → σ
  addch : Byte → σ → σ
  cursor_inside : ∀ s, 0 ≤ (cursor s).1 ∧ (cursor s).1 < rows ∧
    0 ≤ (cursor s).2 ∧ (cursor s).2 < cols
  cursor_move : ∀ p s, 0 ≤ p.1 → p.1 < rows → 0 ≤ p.2 → p.2 < cols → cursor (move p s) = p
  move_outside : ∀ p s, ¬(0 ≤ p.1 ∧ p.1 < rows ∧ 0 ≤ p.2 ∧ p.2 < cols) → move p s = s
  cell_move : ∀ p s, cell (move p s) = cell s
  cell_addch : ∀ b s, Printable b →
    cell (addch b s) = Function.update (cell s) (cursor s) b
  cursor_addch : ∀ b s, Printable b → (cursor s).2 + 1 < cols →
    cursor (addch b s) = ((cursor s).1, (cursor s).2 + 1)

namespace Terminal

variable {σ : Type} (term : Terminal σ)

/-- The place is on the grid. -/
def Inside (p : Place) : Prop := 0 ≤ p.1 ∧ p.1 < term.rows ∧ 0 ≤ p.2 ∧ p.2 < term.cols

/-- Whether a place is on the terminal can be tested. -/
instance (p : Place) : Decidable (term.Inside p) := by
  unfold Inside; infer_instance

/-- Move and write: nothing is written when the cursor cannot be moved. -/
def mvaddch (p : Place) (b : Byte) (s : σ) : σ :=
  if term.Inside p then term.addch b (term.move p s) else s

/-- Write a text from the cursor on. -/
def print (text : Str) (s : σ) : σ := text.foldl (fun s b => term.addch b s) s

/-- Printing nothing. -/
@[simp] theorem print_nil (s : σ) : term.print [] s = s := rfl

/-- Printing the first character, and then the others. -/
@[simp] theorem print_cons (b : Byte) (text : Str) (s : σ) :
    term.print (b :: text) s = term.print text (term.addch b s) := rfl

/-- The cells of a text that starts at a place. -/
def Covers (p : Place) (length : ℕ) (q : Place) : Prop :=
  q.1 = p.1 ∧ p.2 ≤ q.2 ∧ q.2 < p.2 + length

variable {term} {s : σ} {text : Str} {p : Place}

/-- The cursor goes where it is sent, on the terminal. -/
theorem cursor_move_inside (h : term.Inside p) : term.cursor (term.move p s) = p :=
  term.cursor_move p s h.1 h.2.1 h.2.2.1 h.2.2.2

/-- **The cursor behind a text** that fits the line. -/
theorem cursor_print (htext : ∀ b ∈ text, Printable b)
    (hfit : (term.cursor s).2 + text.length < term.cols) :
    term.cursor (term.print text s) = ((term.cursor s).1, (term.cursor s).2 + text.length) := by
  induction text generalizing s with
  | nil => simp
  | cons b text ih =>
    have hb := htext b (by simp)
    rw [List.length_cons] at hfit
    push_cast at hfit
    have hstep := term.cursor_addch b s hb (by omega)
    rw [print_cons, ih (fun c hc => htext c (by simp [hc])) (by rw [hstep]; dsimp only; omega),
      hstep, List.length_cons]
    push_cast
    ext
    · rfl
    · show _ + 1 + _ = _ + (_ + 1)
      ring

/-- **Printing leaves the other cells.** -/
theorem cell_print_of_not_covers (htext : ∀ b ∈ text, Printable b)
    (hfit : (term.cursor s).2 + text.length < term.cols) {q : Place}
    (hq : ¬Covers (term.cursor s) text.length q) :
    term.cell (term.print text s) q = term.cell s q := by
  induction text generalizing s with
  | nil => rfl
  | cons b text ih =>
    have hb := htext b (by simp)
    rw [List.length_cons] at hfit hq
    push_cast at hfit
    have hstep := term.cursor_addch b s hb (by omega)
    have hother : ¬Covers (term.cursor (term.addch b s)) text.length q := by
      rw [hstep]
      rintro ⟨h1, h2, h3⟩
      dsimp only at h2 h3
      exact hq ⟨h1, by omega, by push_cast; omega⟩
    have hne : q ≠ term.cursor s := by
      rintro rfl
      exact hq ⟨rfl, le_refl _, by push_cast; omega⟩
    rw [print_cons, ih (fun c hc => htext c (by simp [hc])) (by rw [hstep]; dsimp only; omega)
      hother, term.cell_addch b s hb, Function.update_of_ne hne]

/-- **Printing writes the text.** -/
theorem cell_print (htext : ∀ b ∈ text, Printable b)
    (hfit : (term.cursor s).2 + text.length < term.cols) {i : ℕ} (hi : i < text.length) :
    term.cell (term.print text s) ((term.cursor s).1, (term.cursor s).2 + i) = text[i] := by
  induction text generalizing s i with
  | nil => cases hi
  | cons b text ih =>
    have hb := htext b (by simp)
    have hrest : ∀ c ∈ text, Printable c := fun c hc => htext c (by simp [hc])
    rw [List.length_cons] at hfit
    push_cast at hfit
    have hstep := term.cursor_addch b s hb (by omega)
    have hfit' : (term.cursor (term.addch b s)).2 + text.length < term.cols := by
      rw [hstep]
      dsimp only
      omega
    rw [print_cons]
    cases i with
    | zero =>
      -- the rest of the text goes behind the first character
      have hother : ¬Covers (term.cursor (term.addch b s)) text.length
          ((term.cursor s).1, (term.cursor s).2 + (0 : ℕ)) := by
        rw [hstep]
        rintro ⟨-, h2, -⟩
        dsimp only at h2
        push_cast at h2
        omega
      rw [cell_print_of_not_covers hrest hfit' hother, term.cell_addch b s hb]
      simp
    | succ i =>
      have hrec := ih hrest hfit' (by simpa using hi)
      rw [hstep] at hrec
      rw [List.getElem_cons_succ, ← hrec]
      congr 1
      ext
      · rfl
      · show _ + ((i + 1 : ℕ) : ℤ) = _ + 1 + _
        push_cast
        ring

end Terminal

/-! ## A grid of cells -/

/-- The cells of a terminal, all of them blank or written, with the cursor on one of them. -/
structure Grid (rows cols : ℤ) where
  cells : Place → Byte
  cursor : Place
  inside : 0 ≤ cursor.1 ∧ cursor.1 < rows ∧ 0 ≤ cursor.2 ∧ cursor.2 < cols

namespace Grid

variable {rows cols : ℤ}

/-- Move the cursor to a place of the grid; any other place is refused. -/
def move (p : Place) (g : Grid rows cols) : Grid rows cols :=
  if h : 0 ≤ p.1 ∧ p.1 < rows ∧ 0 ≤ p.2 ∧ p.2 < cols then ⟨g.cells, p, h⟩ else g

/-- Write under the cursor; at the end of a line the cursor goes to the start of the same
line. -/
def addch (b : Byte) (g : Grid rows cols) : Grid rows cols :=
  move (g.cursor.1, if g.cursor.2 + 1 < cols then g.cursor.2 + 1 else 0)
    { g with cells := Function.update g.cells g.cursor b }

/-- It leaves the cells. -/
theorem cells_move (p : Place) (g : Grid rows cols) : (g.move p).cells = g.cells := by
  unfold move
  split_ifs <;> rfl

/-- It takes the cursor to a place of the grid. -/
theorem cursor_move {p : Place} (g : Grid rows cols)
    (h : 0 ≤ p.1 ∧ p.1 < rows ∧ 0 ≤ p.2 ∧ p.2 < cols) : (g.move p).cursor = p := by
  rw [move, dif_pos h]

/-- A grid is a terminal. -/
def terminal (rows cols : ℤ) : Terminal (Grid rows cols) where
  rows := rows
  cols := cols
  cursor := cursor
  cell := cells
  move := move
  addch := addch
  cursor_inside g := g.inside
  cursor_move p g h1 h2 h3 h4 := cursor_move g ⟨h1, h2, h3, h4⟩
  move_outside p g h := dif_neg h
  cell_move := cells_move
  cell_addch b g _ := by rw [addch, cells_move]
  cursor_addch b g _ hfit := by
    obtain ⟨h1, h2, h3, -⟩ := g.inside
    rw [addch, if_pos hfit, cursor_move]
    exact ⟨h1, h2, by dsimp only; omega, hfit⟩

end Grid
