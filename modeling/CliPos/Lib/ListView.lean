import Mathlib.Tactic.SplitIfs
import Mathlib.Data.Int.Notation

/-!
# Scrolling views of a list

A list of `size` entries is shown `height` at a time, from the entry `start` on, with the
cursor on a row of the view.  A list that fits the view is shown to its end, whatever
`start` is; a longer one is shown `height` entries at a time.  `InWindow` says that the
view shows existing entries only and `OnRow` that the cursor is on one of the rows shown;
the lemmas say which moves keep them.  A `Settled` view is as full as the list allows.
-/

set_option autoImplicit false

namespace ListView

variable {size height start row : ℤ}

/-- The end of the view. -/
def stop (size height start : ℤ) : ℤ := if size ≤ height then size else height + start

/-- The last start of a view inside the list. -/
def lastStart (size height : ℤ) : ℤ := if size ≤ height then size else size - height

/-- The view is inside the list. -/
def InWindow (size height start : ℤ) : Prop := 0 ≤ start ∧ start ≤ lastStart size height

/-- The view shows an entry in this row. -/
def RowShown (size height start row : ℤ) : Prop :=
  if size ≤ height then start + row < size else row < height

/-- The cursor is on a row of the view, unless the list is empty. -/
def OnRow (size height start row : ℤ) : Prop :=
  0 ≤ row ∧ (size = 0 ∨ RowShown size height start row)

/-- A window can be tested. -/
instance : Decidable (InWindow size height start) := by unfold InWindow; infer_instance

/-- So can a row of it. -/
instance : Decidable (RowShown size height start row) := by unfold RowShown; infer_instance

/-- So can the place of the cursor. -/
instance : Decidable (OnRow size height start row) := by unfold OnRow; infer_instance

/-! ## What the predicates say -/

/-- **A view is inside the list** exactly when its ends are in order. -/
theorem inWindow_iff (hheight : 0 ≤ height) :
    InWindow size height start ↔
      0 ≤ start ∧ start ≤ stop size height start ∧ stop size height start ≤ size := by
  unfold InWindow lastStart stop
  split_ifs <;> omega

/-- **The cursor is on a row** exactly when it is before the end of the view. -/
theorem onRow_iff :
    OnRow size height start row ↔
      0 ≤ row ∧ (size = 0 ∨ start + row < stop size height start) := by
  unfold OnRow RowShown stop
  split_ifs <;> omega

/-- The last place to start at is not negative. -/
theorem lastStart_nonneg (hsize : 0 ≤ size) : 0 ≤ lastStart size height := by
  unfold lastStart
  split_ifs <;> omega

/-- The view at the top of the list. -/
theorem inWindow_zero (hsize : 0 ≤ size) : InWindow size height 0 :=
  ⟨Int.le_refl 0, lastStart_nonneg hsize⟩

/-- The first row of a list is always a place for the cursor. -/
theorem onRow_zero (hsize : 0 ≤ size) (hheight : 0 < height) : OnRow size height 0 0 := by
  unfold OnRow RowShown
  split_ifs <;> omega

/-! ## Moves -/

/-- The window can be moved one row up. -/
theorem InWindow.pred (h : InWindow size height start) (hstart : start ≠ 0) :
    InWindow size height (start - 1) := by
  unfold InWindow at *
  omega

/-- It can be moved one row down before its end. -/
theorem InWindow.succ (h : InWindow size height start) (hstop : stop size height start ≠ size) :
    InWindow size height (start + 1) := by
  unfold InWindow lastStart stop at *
  split_ifs at * <;> omega

/-- One more entry: a list that just fitted the view is now shown in part. -/
theorem InWindow.grow (h : InWindow size height start) (hfit : ¬(size = height ∧ 1 < start)) :
    InWindow (size + 1) height start := by
  unfold InWindow lastStart at *
  split_ifs at * <;> omega

/-- The cursor stays on a row when the window moves up. -/
theorem OnRow.pred (h : OnRow size height start row) : OnRow size height (start - 1) row := by
  unfold OnRow RowShown at *
  split_ifs at * <;> omega

/-- So it does when the window moves down. -/
theorem OnRow.succ (h : OnRow size height start row) (hstop : stop size height start ≠ size) :
    OnRow size height (start + 1) row := by
  unfold OnRow RowShown stop at *
  split_ifs at * <;> omega

/-- The cursor on the row above, where there is one. -/
theorem OnRow.rowPred (h : OnRow size height start row) (hrow : row ≠ 0) :
    OnRow size height start (row - 1) := by
  unfold OnRow RowShown at *
  split_ifs at * <;> omega

/-- Scrolling up under a cursor that stays on its entry. -/
theorem OnRow.follow_pred (h : OnRow size height start 0) (hheight : 1 < height) :
    OnRow size height (start - 1) (0 + 1) := by
  unfold OnRow RowShown at *
  split_ifs at * <;> omega

/-- A list that loses entries keeps the cursor on its row, when it is emptied, still fills
the view, or has an entry under the cursor. -/
theorem OnRow.shrink (h : OnRow size height start row) {size' : ℤ} (hle : 0 ≤ size' ∧ size' ≤ size)
    (hrow : size' = 0 ∨ height < size' ∨ start + row < size') :
    OnRow size' height start row := by
  unfold OnRow RowShown at *
  split_ifs at * <;> omega

/-- A list that grows keeps the cursor on its row. -/
theorem OnRow.grow (h : OnRow size height start row) (hstart : 0 ≤ start) (hsize : 0 < size)
    {size' : ℤ} (hgrow : size ≤ size') : OnRow size' height start row := by
  unfold OnRow RowShown at *
  split_ifs at * <;> omega

/-! ## Settled views -/

/-- A view as full as the list allows, with the cursor on one of its rows, or at the top of
an empty list. -/
structure Settled (size height start row : ℤ) : Prop where
  start_nonneg : 0 ≤ start
  full : start + min size height ≤ size
  row_nonneg : 0 ≤ row
  row_lt : row < min size height ∨ size = 0 ∧ row = 0

namespace Settled

/-- The top of a list. -/
theorem zero (hsize : 0 ≤ size) (hheight : 0 < height) : Settled size height 0 0 :=
  ⟨Int.le_refl 0, by omega, Int.le_refl 0, by omega⟩

/-- A settled view shows all the entries it can. -/
theorem stop_eq (h : Settled size height start row) :
    stop size height start = start + min size height := by
  have hstart := h.start_nonneg
  have hfull := h.full
  unfold stop
  split_ifs <;> omega

/-- There are entries above the view: then it is full. -/
theorem height_le (h : Settled size height start row) (hstart : start ≠ 0) :
    1 ≤ start ∧ height ≤ size := by
  have hnonneg := h.start_nonneg
  have hfull := h.full
  omega

/-- A settled view stays settled when its window moves up. -/
theorem pred (h : Settled size height start row) (hstart : start ≠ 0) :
    Settled size height (start - 1) row := by
  obtain ⟨hone, -⟩ := h.height_le hstart
  have hfull := h.full
  exact ⟨by omega, by omega, h.row_nonneg, h.row_lt⟩

/-- So it does when the window moves down. -/
theorem succ (h : Settled size height start row) (hstop : start + min size height ≠ size) :
    Settled size height (start + 1) row := by
  have hnonneg := h.start_nonneg
  have hfull := h.full
  exact ⟨by omega, by omega, h.row_nonneg, h.row_lt⟩

/-- The cursor on another row of the view. -/
theorem toRow (h : Settled size height start row) {row' : ℤ} (h0 : 0 ≤ row')
    (hrow : row' < min size height) : Settled size height start row' :=
  ⟨h.start_nonneg, h.full, h0, .inl hrow⟩

end Settled

end ListView
