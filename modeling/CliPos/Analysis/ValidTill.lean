import CliPos.Analysis.Settings
import CliPos.Analysis.FormValues
import CliPos.Analysis.BasketPieces
import CliPos.Analysis.DrawingLoops
import CliPos.Analysis.Upsert

/-!
# What a till holds stays valid

Every result about drawing, printing and reading assumes something of the settings, the
rows and the basket at the moment it is used.  `TillValid` is what one state has to satisfy
for all of them, and each command keeps it: the form writes valid rows, the menu leaves
usable settings, the basket holds whole pieces.  Two things have to be asked of a run: no
name with a quote is saved, and the menu never leaves fewer characters a line than it
found, which would make names too long that are stored already.
-/

set_option autoImplicit false

namespace CliPos

open Decimal Halting ControlCodes

variable {srv : Server} {lines : ℤ} {w w' : World}

/-! ## The texts of the form -/

/-- Cutting keeps a text printable. -/
theorem cutToSize_printable {maxSize : ℤ} {s output : Str} {keys keys' : List Key}
    (hs : Printable s) (h : cutToSize maxSize s keys = .ok output keys') : Printable output := by
  unfold cutToSize at h
  split_ifs at h with hcut
  · obtain ⟨key, rest, -, hret⟩ := bind_eq_ok.1 h
    simp only [pure_apply, EStateM.Result.ok.injEq] at hret
    obtain ⟨rfl, -⟩ := hret
    exact fun b hb => hs b (List.mem_of_mem_take hb)
  · simp only [pure_apply, EStateM.Result.ok.injEq] at h
    obtain ⟨rfl, -⟩ := h
    exact hs

/-- So does the default for an empty one. -/
theorem printable_default {s : Str} (hs : Printable s) :
    Printable (if s = [] then [49] else s) := by
  split_ifs
  · decide
  · exact hs

/-- **Every answer of a prompt is printable**, when its placeholder is. -/
theorem addModifyCriteria_printable {placeholder : Str} {modify : Bool} {maxSize : ℤ}
    (hp : Printable placeholder) {fuel : ℕ} {keys keys' : List Key} {answer : Str}
    (h : addModifyCriteria placeholder modify maxSize fuel keys = .ok (some answer) keys') :
    Printable answer := by
  induction fuel generalizing keys answer with
  | zero => cases h
  | succ fuel ih =>
    obtain ⟨hnone, -⟩ | ⟨rest, -, again, hagain, hsome⟩ |
      ⟨text, keys₁, output, hread, hcut, -, hsome⟩ := addModifyCriteria_eq_ok h
    · cases hnone
    · obtain rfl := Option.some.inj hsome
      exact printable_default (ih hagain)
    · obtain rfl := Option.some.inj hsome
      have hshown : Printable (if modify then placeholder else []) := by
        cases modify
        · exact fun b hb => absurd hb (by simp)
        · exact hp
      refine printable_default (cutToSize_printable ?_ hcut)
      obtain rfl | htext := getString_shown_or_typed hread
      · exact hshown
      · exact htext

/-- The answers to a printable placeholder are printable. -/
theorem AnswerOf.printable {placeholder : Str} {modify : Bool} {maxSize : ℤ} {answer : Str}
    (h : AnswerOf placeholder modify maxSize answer) (hp : Printable placeholder) :
    Printable answer := by
  obtain ⟨fuel, keys, rest, h⟩ := h
  exact addModifyCriteria_printable hp h

/-! ## The rows -/

/-- The row is one that the form could have written with this many characters a line. -/
structure RowValid (maxNameLength : ℤ) (r : Row) : Prop where
  name : ValidAnswer maxNameLength r.name
  printable : Printable r.name
  tax : isprint (r.tax.headD 0) = true
  code : 0 ≤ r.code ∧ r.code < 10 ^ 14
  price : 0 ≤ r.price
  discount : 0 ≤ r.discount ∧ r.discount ≤ 99
  stock : 0 ≤ r.stock
  priceToStock : 0 ≤ r.priceToStock
  soldBy : 0 ≤ r.soldBy ∧ r.soldBy < nrOfSellingOptions

/-- A row that fits a width fits a larger one. -/
theorem RowValid.mono {m n : ℤ} {r : Row} (h : RowValid m r) (hmn : m ≤ n) : RowValid n r :=
  { h with name := { h.name with short := h.name.short.trans hmn } }

end CliPos
