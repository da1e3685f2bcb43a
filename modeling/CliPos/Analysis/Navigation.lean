import CliPos.Analysis.Cursor
import CliPos.Analysis.OneCommand

/-!
# Navigation

The keys up, down, `w` and `s`, pressed in any order from the top of a list.  The window
stays as full as the list allows and the cursor stays on one of its rows
(`navigation_settled`).  A cursor key moves the highlight by one product, except for a
cursor that is parked on an edge row with more products beyond it: there the window
scrolls, the cursor is moved back, and the highlight stays where it was
(`cursor_moves_one_iff`).  Only `w` and `s` park the cursor (`arrows_never_park`).
-/

set_option autoImplicit false

namespace CliPos

open Halting ListView

variable {srv : Server} {lines : ℤ} {w₀ w w' v : World}

/-- The keys up, down, `w` and `s`. -/
def navigation : List Command := [.up, .down, .scrollUp, .scrollDown]

/-- Iterations that run no other command reach `w'`. -/
abbrev Navigates (srv : Server) (lines : ℤ) : World → World → Prop :=
  RunsWhere srv lines fun c _ => c ∈ navigation

/-- The window is as full as the list allows and the cursor is on one of its rows. -/
def ViewSettled (lines : ℤ) (w : World) : Prop :=
  Settled (currentListSize w) (height lines w) w.start w.selection

/-! ## One step -/

/-- The row above the cursor's, where there is one. -/
def rowAbove (w : World) : ℤ := if w.selection ≠ 0 then w.selection - 1 else w.selection

/-- What the key up changes: the window moves where the cursor is at its start, else the cursor. -/
theorem upCommand_view (w : World) :
    if w.start ≠ 0 ∧ rowAbove w = 0 then
      (upCommand w).start = w.start - 1 ∧ (upCommand w).selection = rowAbove w + 1
    else (upCommand w).start = w.start ∧ (upCommand w).selection = rowAbove w := by
  unfold upCommand rowAbove
  by_cases h1 : w.selection ≠ 0
  · simp only [if_pos h1]
    split_ifs <;> exact ⟨rfl, rfl⟩
  · simp only [if_neg h1]
    split_ifs <;> exact ⟨rfl, rfl⟩

/-- The four keys keep the tab and the size of the list. -/
theorem navigation_movesCursor {c : Command} (hc : c ∈ navigation)
    (h : c.body srv lines v = .ok () w') :
    w'.currentTab = v.currentTab ∧ currentListSize w' = currentListSize v := by
  simp only [navigation, List.mem_cons, List.not_mem_nil, or_false] at hc
  obtain rfl | rfl | rfl | rfl := hc <;>
    simp only [Command.body, modify_apply, EStateM.Result.ok.injEq, true_and] at h <;>
    subst h
  · unfold upCommand
    dsimp only
    split_ifs <;> exact ⟨rfl, rfl⟩
  · exact ⟨(downCommand_view v).1, (downCommand_view v).2.1⟩
  · unfold scrollUpCommand
    split_ifs <;> exact ⟨rfl, rfl⟩
  · unfold scrollDownCommand
    split_ifs <;> exact ⟨rfl, rfl⟩

/-- In a settled view the window's end and the last row of the list. -/
theorem ViewSettled.ends (hf : Fresh srv lines v) (hv : ViewSettled lines v)
    (hheight : 0 ≤ height lines v) :
    v.stop = v.start + min (currentListSize v) (height lines v) ∧
      (v.list.length : ℤ) = min (currentListSize v) (height lines v) := by
  have hsize := currentListSize_nonneg (w := v)
  have hstop : v.stop = v.start + min (currentListSize v) (height lines v) := by
    rw [hf.stop_eq, visibleEnd_eq, hv.stop_eq]
  have hlen := hf.list_length
  omega

/-- The cursor goes up one row, or stays on the second row while the window scrolls. -/
theorem ViewSettled.up (hheight : 2 ≤ height lines v) (hv : ViewSettled lines v) :
    Settled (currentListSize v) (height lines v) (upCommand v).start (upCommand v).selection := by
  have hrow := hv.row_nonneg
  have hlt := hv.row_lt
  have hup := upCommand_view v
  unfold rowAbove at hup
  split_ifs at hup with hsel hscroll hscroll
  · obtain ⟨hone, hfull⟩ := hv.height_le hscroll.1
    rw [hup.1, hup.2, hscroll.2]
    exact (hv.pred hscroll.1).toRow (by decide) (by omega)
  · rw [hup.1, hup.2]
    exact hv.toRow (by omega) (by omega)
  · obtain ⟨hone, hfull⟩ := hv.height_le hscroll.1
    rw [hup.1, hup.2, hscroll.2]
    exact (hv.pred hscroll.1).toRow (by decide) (by omega)
  · rw [hup.1, hup.2]
    exact hv

/-- The row below the cursor's in a settled view. -/
theorem rowBelow_eq (hheight : 0 < height lines v) (hf : Fresh srv lines v)
    (hv : ViewSettled lines v) (hn : currentListSize v ≠ 0) :
    sizeMinusOne v.list.length = min (currentListSize v) (height lines v) - 1 ∧
    rowBelow v =
      if v.selection < min (currentListSize v) (height lines v) - 1 then v.selection + 1
      else v.selection := by
  obtain ⟨hstop, hlen⟩ := hv.ends hf hheight.le
  have hsize := currentListSize_nonneg (w := v)
  have hlast : sizeMinusOne v.list.length = min (currentListSize v) (height lines v) - 1 := by
    rw [← hlen]
    exact toSizeT_of_nonneg (by omega)
  refine ⟨hlast, ?_⟩
  have hfull := hv.full
  have hindex : v.selection < min (currentListSize v) (height lines v) - 1 →
      v.indexedSelection < currentListSize v := by
    rw [hf.indexed_eq]
    omega
  rw [rowBelow, toSizeT_of_nonneg hv.row_nonneg, hlast]
  exact if_congr (and_iff_left_of_imp hindex) rfl rfl

/-- The cursor goes down one row, or stays on the last row but one while the window
scrolls. -/
theorem ViewSettled.down (hheight : 2 ≤ height lines v) (hf : Fresh srv lines v)
    (hv : ViewSettled lines v) :
    Settled (currentListSize v) (height lines v) (downCommand v).start
      (downCommand v).selection := by
  obtain ⟨hstop, hlen⟩ := hv.ends hf (by omega)
  have hsize := currentListSize_nonneg (w := v)
  have hfull := hv.full
  have hrow := hv.row_nonneg
  have hstart := hv.start_nonneg
  obtain ⟨-, -, hdown⟩ := downCommand_view v
  by_cases hn : currentListSize v = 0
  · -- the list is empty: `list.size() - 1` wraps around and nothing moves the window
    have hend : v.stop = currentListSize v := by omega
    have hindex : ¬v.indexedSelection < currentListSize v := by
      rw [hf.indexed_eq]
      omega
    have hbelow : rowBelow v = v.selection := if_neg fun h => hindex h.2
    rw [if_neg fun h => h.1 hend, hbelow] at hdown
    rw [hdown.1, hdown.2]
    exact hv
  · obtain ⟨hlast, hbelow⟩ := rowBelow_eq (by omega) hf hv hn
    have hlt : v.selection < min (currentListSize v) (height lines v) :=
      hv.row_lt.resolve_right fun h => hn h.1
    have hpos : 0 ≤ rowBelow v := by
      rw [hbelow]
      split_ifs <;> omega
    have hle : rowBelow v < min (currentListSize v) (height lines v) := by
      rw [hbelow]
      split_ifs <;> omega
    rw [toSizeT_of_nonneg hpos, hlast] at hdown
    split_ifs at hdown with hscroll
    · obtain ⟨hend, hedge⟩ := hscroll
      rw [hdown.1, hdown.2]
      exact (hv.succ (by omega)).toRow (by omega) (by omega)
    · rw [hdown.1, hdown.2]
      exact hv.toRow hpos hle

/-- **Each of the four keys leaves the view settled.** -/
theorem navigation_step {c : Command} (hheight : 2 ≤ height lines v) (hf : Fresh srv lines v)
    (hv : ViewSettled lines v) (hc : c ∈ navigation) (h : c.body srv lines v = .ok () w') :
    ViewSettled lines w' := by
  obtain ⟨htab, hsize⟩ := navigation_movesCursor hc h
  rw [ViewSettled, height_congr htab, hsize]
  simp only [navigation, List.mem_cons, List.not_mem_nil, or_false] at hc
  obtain rfl | rfl | rfl | rfl := hc <;>
    simp only [Command.body, modify_apply, EStateM.Result.ok.injEq, true_and] at h <;>
    subst h
  · exact hv.up hheight
  · exact hv.down hheight hf
  · unfold scrollUpCommand
    split_ifs with hs
    · exact hv.pred hs
    · exact hv
  · unfold scrollDownCommand
    split_ifs with hs
    · have hstop := (hv.ends hf (by omega)).1
      exact hv.succ (by rwa [← hstop])
    · exact hv

/-! ## Runs -/

/-- The tab and the size of the list are those of `w₀`, and the view is settled. -/
structure SettledFrom (lines : ℤ) (w₀ w : World) : Prop where
  tab : w.currentTab = w₀.currentTab
  size : currentListSize w = currentListSize w₀
  view : ViewSettled lines w

/-- The four keys keep the view settled. -/
theorem SettledFrom.step {c : Command} (hheight : 2 ≤ height lines w₀) (hf : Fresh srv lines v)
    (hv : SettledFrom lines w₀ v) (hc : c ∈ navigation) (h : c.body srv lines v = .ok () w') :
    SettledFrom lines w₀ w' := by
  obtain ⟨htab, hsize⟩ := navigation_movesCursor hc h
  have hheight' : 2 ≤ height lines v := by rwa [height_congr hv.tab]
  exact ⟨htab.trans hv.tab, hsize.trans hv.size, navigation_step hheight' hf hv.view hc h⟩

/-- So does a redraw. -/
theorem SettledFrom.redraw (hw : SettledFrom lines w₀ w) (h : redraw srv lines w = .ok () v) :
    SettledFrom lines w₀ v := by
  obtain ⟨key, keys, total, -, -, -, rfl⟩ := redraw_eq_ok h
  exact ⟨hw.tab, hw.size, hw.view⟩

/-- A run of the four keys from the top of a list leaves the view settled. -/
theorem settledFrom_of_navigates (hstart : w₀.start = 0) (hselection : w₀.selection = 0)
    (hheight : 2 ≤ height lines w₀) (hrun : Navigates srv lines w₀ w) :
    SettledFrom lines w₀ w := by
  have hzero : ViewSettled lines w₀ := by
    rw [ViewSettled, hstart, hselection]
    exact Settled.zero currentListSize_nonneg (by omega)
  refine Runs.inv hrun ⟨rfl, rfl, hzero⟩ fun t t' ht hok hit => ?_
  obtain ⟨u, v, hr, hchain⟩ := bind_eq_ok.1 hit
  refine Chain.run_inv (ht.redraw hr) (fun c s s' hmem hs hbody => ?_) hchain
  have hmem' : (c, s) ∈ iterationTrace srv lines t := by rwa [iterationTrace, hr]
  have hc : c ∈ navigation := hok _ hmem'
  have hscan : c ≠ .scan := by
    rintro rfl
    exact absurd hc (by decide)
  exact hs.step hheight (fresh_of_mem_trace hmem' hscan) hc hbody

/-- The ends of the window and the cursor's row, of a list of `size` entries shown `height`
at a time. -/
structure ValidView (size height start stop selection : ℤ) : Prop where
  start_nonneg : 0 ≤ start
  stop_eq : stop = start + min size height
  stop_le : stop ≤ size
  selection_shown : size ≠ 0 → 0 ≤ selection ∧ selection < stop - start
  empty : size = 0 → start = 0 ∧ stop = 0 ∧ selection = 0

/-- A settled window shows the rest of the list, or as much as there is room for. -/
theorem ViewSettled.end_eq (hw : ViewSettled lines w) :
    visibleEnd lines w = w.start + min (currentListSize w) (height lines w) := by
  rw [visibleEnd_eq, hw.stop_eq]

/-- A settled view is valid for the list. -/
theorem ViewSettled.validView (hheight : 0 ≤ height lines w) (hw : ViewSettled lines w) :
    ValidView (currentListSize w) (height lines w) w.start (visibleEnd lines w) w.selection := by
  have hstop := hw.end_eq
  obtain ⟨hstart, hfull, hrow, hlt⟩ := hw
  exact ⟨hstart, hstop, by omega, fun hn => by omega, fun hn => by omega⟩

/-- **Navigation keeps the window and the cursor valid.**  From `start = 0` and
`selection = 0`, in every state that the keys up, down, `w` and `s` reach, with the end
that the next redraw sets: the window is as long as the list and the screen allow, and the
cursor is on one of its rows. -/
theorem navigation_settled (srv : Server) (lines : ℤ) (w₀ w : World) (hstart : w₀.start = 0)
    (hselection : w₀.selection = 0) (hheight : 2 ≤ maxProductsNr lines w₀.currentTab)
    (hrun : Navigates srv lines w₀ w) :
    ValidView (currentListSize w₀) (maxProductsNr lines w₀.currentTab)
      w.start (visibleEnd lines w) w.selection ∧
    ∀ v, redraw srv lines w = .ok () v →
      ValidView (currentListSize w₀) (maxProductsNr lines w₀.currentTab)
        v.start v.stop v.selection := by
  have hw := settledFrom_of_navigates hstart hselection hheight hrun
  have hvalid : ∀ t, SettledFrom lines w₀ t → ValidView (currentListSize w₀)
      (maxProductsNr lines w₀.currentTab) t.start (visibleEnd lines t) t.selection := by
    intro t ht
    have hnonneg : 0 ≤ height lines t := by
      rw [height_congr ht.tab]
      exact le_trans (by decide) hheight
    have hview := ht.view.validView hnonneg
    rwa [ht.size, height, ht.tab] at hview
  refine ⟨hvalid w hw, fun v hr => ?_⟩
  rw [(fresh_of_redraw hr).stop_eq]
  exact hvalid v (hw.redraw hr)

/-- Five products, of which three are shown: `s`, then down, which scrolls once more. -/
theorem navigation_settled_scrolled : ∃ w, w.start = 2 ∧
    ValidView 5 3 w.start (visibleEnd 11 w) w.selection := by
  have hrun : (tryIterations strictServer 11 (fun c _ => c ∈ navigation) 3
      (boot fiveProducts [charKey 's', keyDown, keyDown] ⟨[], []⟩ [])).any
        fun w => w.start = 2 := by
    decide +kernel
  obtain ⟨w, hw, hcheck⟩ := (Option.any_eq_true _ _).1 hrun
  exact ⟨w, of_decide_eq_true hcheck, (navigation_settled strictServer 11
    (boot fiveProducts [charKey 's', keyDown, keyDown] ⟨[], []⟩ []) w rfl rfl (by decide)
    (runsWhere_of_tryIterations (fun c v h => of_decide_eq_true h) hw)).1⟩

/-! ## One press of a cursor key -/

/-- An iteration that runs the command `c` and no other. -/
def Presses (srv : Server) (lines : ℤ) (c : Command) (w w' : World) : Prop :=
  (∃ v, iterationTrace srv lines w = [(c, v)]) ∧ iteration srv lines w = .ok () w'

/-- An iteration that ran one command is a press of its key. -/
theorem presses_of_trace {c : Command} {u : Unit}
    (htrace : (iterationTrace srv lines w).map Prod.fst = [c])
    (hit : valueOf (iteration srv lines w) = some (u, w')) : Presses srv lines c w w' := by
  obtain ⟨⟨d, v⟩, hv, hd⟩ := List.map_eq_singleton_iff.1 htrace
  obtain rfl : d = c := hd
  exact ⟨⟨v, hv⟩, valueOf_eq_some.1 hit⟩

/-- A press is a redraw, and the command. -/
theorem Presses.body {c : Command} (h : Presses srv lines c w w') :
    ∃ v, redraw srv lines w = .ok () v ∧ c.body srv lines v = .ok () w' := by
  obtain ⟨⟨v, htrace⟩, hit⟩ := h
  obtain ⟨hr, -, -, -⟩ := iterationTrace_eq_cons htrace
  obtain ⟨u, s, hr', hchain⟩ := bind_eq_ok.1 hit
  obtain rfl : v = s := by
    rw [hr] at hr'
    cases hr'
    rfl
  rw [iterationTrace, hr] at htrace
  exact ⟨v, hr, Chain.run_of_trace_singleton htrace hchain⟩

/-- The index of the highlighted entry. -/
def highlighted (w : World) : ℤ := w.start + w.selection

/-- The cursor is on the first row of a window that does not start at the first entry. -/
def ParkedAtTop (w : World) : Prop := w.selection = 0 ∧ w.start ≠ 0

/-- The cursor is on the last row of a window that does not end at the last entry. -/
def ParkedAtEnd (lines : ℤ) (w : World) : Prop :=
  highlighted w + 1 = visibleEnd lines w ∧ visibleEnd lines w ≠ currentListSize w

/-- A parked cursor at the top can be tested for. -/
instance (w : World) : Decidable (ParkedAtTop w) := by unfold ParkedAtTop; infer_instance

/-- So can one at the end. -/
instance (lines : ℤ) (w : World) : Decidable (ParkedAtEnd lines w) := by
  unfold ParkedAtEnd; infer_instance

/-- Where a press of up leaves the highlight: a parked cursor stays on its entry. -/
theorem ViewSettled.highlighted_up (hv : ViewSettled lines v) :
    highlighted (upCommand v) =
      if ParkedAtTop v then highlighted v else max (highlighted v - 1) 0 := by
  have hrow := hv.row_nonneg
  have hstart := hv.start_nonneg
  have hup := upCommand_view v
  unfold rowAbove at hup
  unfold highlighted
  by_cases hsel : v.selection = 0
  · rw [if_neg (not_not.2 hsel)] at hup
    by_cases hs : v.start = 0
    · rw [if_neg fun h => h.1 hs] at hup
      rw [hup.1, hup.2, if_neg fun h : ParkedAtTop v => h.2 hs]
      omega
    · rw [if_pos ⟨hs, hsel⟩] at hup
      rw [hup.1, hup.2, if_pos (show ParkedAtTop v from ⟨hsel, hs⟩)]
      omega
  · rw [if_pos hsel] at hup
    rw [if_neg fun h : ParkedAtTop v => hsel h.1]
    split_ifs at hup with hscroll <;> rw [hup.1, hup.2] <;> omega

/-- Where a press of down leaves the highlight. -/
theorem ViewSettled.highlighted_down (hheight : 2 ≤ height lines v) (hf : Fresh srv lines v)
    (hv : ViewSettled lines v) (hn : 1 ≤ currentListSize v) :
    highlighted (downCommand v) =
      if ParkedAtEnd lines v then highlighted v
      else min (highlighted v + 1) (currentListSize v - 1) := by
  obtain ⟨hstop, -⟩ := hv.ends hf (by omega)
  obtain ⟨hlast, hbelow⟩ := rowBelow_eq (by omega) hf hv (by omega)
  obtain ⟨-, -, hdown⟩ := downCommand_view v
  have hlt : v.selection < min (currentListSize v) (height lines v) :=
    hv.row_lt.resolve_right fun h => by omega
  have hrow := hv.row_nonneg
  have hfull := hv.full
  have hpos : 0 ≤ rowBelow v := by
    rw [hbelow]
    split_ifs <;> omega
  rw [toSizeT_of_nonneg hpos, hlast, hbelow] at hdown
  have hparked : ParkedAtEnd lines v ↔
      v.start + v.selection + 1 = v.stop ∧ v.stop ≠ currentListSize v := by
    rw [ParkedAtEnd, highlighted, hf.stop_eq]
  unfold highlighted
  by_cases hmid : v.selection < min (currentListSize v) (height lines v) - 1
  · -- the cursor goes down one row, or the window scrolls under it
    rw [if_pos hmid] at hdown
    rw [if_neg fun h => by have := hparked.1 h; omega]
    split_ifs at hdown with hscroll <;> rw [hdown.1, hdown.2] <;> omega
  · rw [if_neg hmid] at hdown
    by_cases hend : v.stop = currentListSize v
    · rw [if_neg fun h => h.1 hend] at hdown
      rw [hdown.1, hdown.2, if_neg fun h => (hparked.1 h).2 hend]
      omega
    · -- the window scrolls and takes the cursor back
      rw [if_pos ⟨hend, by omega⟩] at hdown
      rw [hdown.1, hdown.2, if_pos (hparked.2 ⟨by omega, hend⟩)]
      omega

/-- `s` parks the cursor on the first row, and up does not move the highlight. -/
theorem parked_cursor_stays : ∃ w w',
    Navigates strictServer 11
      (boot fiveProducts [charKey 's', keyUp, charKey 'q'] ⟨[], []⟩ []) w ∧
    maxProductsNr 11 .products = 3 ∧ Presses strictServer 11 .up w w' ∧
    highlighted w = 1 ∧ highlighted w' ≠ max (highlighted w - 1) 0 := by
  have hrun : (tryIterations strictServer 11 (fun c _ => c ∈ navigation) 1
      (boot fiveProducts [charKey 's', keyUp, charKey 'q'] ⟨[], []⟩ [])).any fun w =>
        (valueOf (iteration strictServer 11 w)).any fun r =>
          (iterationTrace strictServer 11 w).map Prod.fst = [.up] ∧ highlighted w = 1 ∧
            highlighted r.2 = 1 := by
    decide +kernel
  obtain ⟨w, hw, hcheck⟩ := (Option.any_eq_true _ _).1 hrun
  obtain ⟨⟨u, w'⟩, hit, hcheck⟩ := (Option.any_eq_true _ _).1 hcheck
  obtain ⟨htrace, hbefore, hafter⟩ := of_decide_eq_true hcheck
  have hsame : highlighted w' = 1 := hafter
  refine ⟨w, w', runsWhere_of_tryIterations (fun c v h => of_decide_eq_true h) hw, by decide,
    presses_of_trace htrace hit, hbefore, ?_⟩
  rw [hbefore, hsame]
  decide

/-- **A cursor key moves the highlight by exactly one product**, if and only if the cursor
is not parked: on the last row with more products below for down, on the first row with
more products above for up. -/
theorem cursor_moves_one_iff (srv : Server) (lines : ℤ) (w₀ w w' : World)
    (hstart : w₀.start = 0) (hselection : w₀.selection = 0) (hn : 1 ≤ currentListSize w₀)
    (hheight : 3 ≤ maxProductsNr lines w₀.currentTab) (hrun : Navigates srv lines w₀ w) :
    (Presses srv lines .down w w' →
      (highlighted w' = min (highlighted w + 1) (currentListSize w₀ - 1) ↔
        ¬ParkedAtEnd lines w)) ∧
    (Presses srv lines .up w w' →
      (highlighted w' = max (highlighted w - 1) 0 ↔ ¬ParkedAtTop w)) := by
  have hheight₀ : 2 ≤ height lines w₀ := le_trans (by decide) hheight
  have hw := settledFrom_of_navigates hstart hselection hheight₀ hrun
  constructor
  · intro hpress
    obtain ⟨v, hr, hbody⟩ := hpress.body
    have hv := hw.redraw hr
    have hf := fresh_of_redraw hr
    have hheight' : 2 ≤ height lines v := by rwa [height_congr hv.tab]
    obtain rfl : downCommand v = w' := by
      simpa only [Command.body, modify_apply, EStateM.Result.ok.injEq, true_and] using hbody
    have hdown := hv.view.highlighted_down hheight' hf (by rwa [hv.size])
    have hend : visibleEnd lines v ≤ currentListSize v :=
      (hv.view.validView (by omega)).stop_le
    obtain ⟨key, keys, total, -, -, -, rfl⟩ := redraw_eq_ok hr
    rw [hdown, ← hw.size]
    change (if ParkedAtEnd lines w then highlighted w
      else min (highlighted w + 1) (currentListSize w - 1)) = _ ↔ _
    change visibleEnd lines w ≤ currentListSize w at hend
    split_ifs with hparked
    · have hlt : highlighted w + 1 < currentListSize w := by
        have := hparked.1
        have := hparked.2
        omega
      simp only [hparked, not_true, iff_false]
      omega
    · simp [hparked]
  · intro hpress
    obtain ⟨v, hr, hbody⟩ := hpress.body
    have hv := hw.redraw hr
    obtain rfl : upCommand v = w' := by
      simpa only [Command.body, modify_apply, EStateM.Result.ok.injEq, true_and] using hbody
    have hup := hv.view.highlighted_up
    have hnonneg := hv.view.start_nonneg
    obtain ⟨key, keys, total, -, -, -, rfl⟩ := redraw_eq_ok hr
    rw [hup]
    change (if ParkedAtTop w then highlighted w else max (highlighted w - 1) 0) = _ ↔ _
    change 0 ≤ w.start at hnonneg
    split_ifs with hparked
    · have hpos : 1 ≤ highlighted w := by
        have := hparked.1
        have := hparked.2
        unfold highlighted
        omega
      simp only [hparked, not_true, iff_false]
      omega
    · simp [hparked]

/-- Five products, of which three are shown: after one step down, `s` scrolls the window and
`w` scrolls it back, and down moves the highlight from the second to the third. -/
theorem cursor_moves_one_scrolled : ∃ w w',
    Navigates strictServer 11
      (boot fiveProducts [keyDown, charKey 's', charKey 'w', keyDown] ⟨[], []⟩ []) w ∧
    highlighted w = 1 ∧ Presses strictServer 11 .down w w' ∧ highlighted w' = 2 := by
  have hrun : (tryIterations strictServer 11 (fun c _ => c ∈ navigation) 3
      (boot fiveProducts [keyDown, charKey 's', charKey 'w', keyDown] ⟨[], []⟩ [])).any fun w =>
        (valueOf (iteration strictServer 11 w)).any fun _ =>
          (iterationTrace strictServer 11 w).map Prod.fst = [.down] ∧ highlighted w = 1 ∧
            ¬ParkedAtEnd 11 w := by
    decide +kernel
  obtain ⟨w, hw, hcheck⟩ := (Option.any_eq_true _ _).1 hrun
  obtain ⟨⟨u, w'⟩, hit, hcheck⟩ := (Option.any_eq_true _ _).1 hcheck
  obtain ⟨htrace, hbefore, hparked⟩ := of_decide_eq_true hcheck
  have hrun' : Navigates strictServer 11 _ w :=
    runsWhere_of_tryIterations (fun c v h => of_decide_eq_true h) hw
  have hpress := presses_of_trace htrace hit
  have hmoves := ((cursor_moves_one_iff strictServer 11 _ w w' rfl rfl (by decide) (by decide)
    hrun').1 hpress).2 hparked
  refine ⟨w, w', hrun', hbefore, hpress, ?_⟩
  rw [hmoves, hbefore]
  decide

/-! ## Without `w` and `s` -/

/-- The cursor is on neither edge row with more products beyond. -/
def Unparked (lines : ℤ) (w : World) : Prop := ¬ParkedAtTop w ∧ ¬ParkedAtEnd lines w

/-- In a settled view the edge rows are the first one and the one before the view's end. -/
theorem ViewSettled.unparked_iff (hw : ViewSettled lines w) :
    Unparked lines w ↔ (w.start ≠ 0 → w.selection ≠ 0) ∧
      (w.start + min (currentListSize w) (height lines w) ≠ currentListSize w →
        w.selection + 1 ≠ min (currentListSize w) (height lines w)) := by
  unfold Unparked ParkedAtTop ParkedAtEnd highlighted
  rw [hw.end_eq]
  omega

/-- In a view of three rows or more, up and down do not park the cursor: where they scroll
they leave it one row away from the edge. -/
theorem unparked_step {c : Command} (hheight : 3 ≤ height lines v) (hf : Fresh srv lines v)
    (hv : ViewSettled lines v) (hn : 1 ≤ currentListSize v) (hun : Unparked lines v)
    (hc : c = .up ∨ c = .down) (h : c.body srv lines v = .ok () w') : Unparked lines w' := by
  have hnav : c ∈ navigation := by rcases hc with rfl | rfl <;> decide
  have hw' := navigation_step (by omega) hf hv hnav h
  obtain ⟨htab, hsize⟩ := navigation_movesCursor hnav h
  obtain ⟨htop, hend⟩ := hv.unparked_iff.1 hun
  have hstart := hv.start_nonneg
  have hfull := hv.full
  have hrow := hv.row_nonneg
  have hlt := hv.row_lt
  rw [hw'.unparked_iff, height_congr htab, hsize]
  rcases hc with rfl | rfl <;>
    simp only [Command.body, modify_apply, EStateM.Result.ok.injEq, true_and] at h <;>
    subst h
  · have hup := upCommand_view v
    unfold rowAbove at hup
    split_ifs at hup with hsel hscroll hscroll <;> rw [hup.1, hup.2] <;> omega
  · obtain ⟨hstop, -⟩ := hv.ends hf (by omega)
    obtain ⟨hlast, hbelow⟩ := rowBelow_eq (by omega) hf hv (by omega)
    obtain ⟨-, -, hdown⟩ := downCommand_view v
    have hpos : 0 ≤ rowBelow v := by
      rw [hbelow]
      split_ifs <;> omega
    rw [toSizeT_of_nonneg hpos, hlast, hbelow] at hdown
    split_ifs at hdown with hmid hscroll hscroll <;> rw [hdown.1, hdown.2] <;> omega

/-- **Only `w` and `s` park the cursor.**  In a view of three rows or more, in every state
that the keys up and down reach from the top of the list, the cursor is not parked. -/
theorem arrows_never_park (srv : Server) (lines : ℤ) (w₀ w : World) (hstart : w₀.start = 0)
    (hselection : w₀.selection = 0) (hn : 1 ≤ currentListSize w₀)
    (hheight : 3 ≤ maxProductsNr lines w₀.currentTab)
    (hrun : RunsWhere srv lines (fun c _ => c = .up ∨ c = .down) w₀ w) : Unparked lines w := by
  have hheight₀ : 2 ≤ height lines w₀ := le_trans (by decide) hheight
  have hzero : SettledFrom lines w₀ w₀ :=
    @settledFrom_of_navigates srv lines w₀ w₀ hstart hselection hheight₀ .refl
  have hun₀ : Unparked lines w₀ := by
    rw [hzero.view.unparked_iff, hstart, hselection]
    change 3 ≤ height lines w₀ at hheight
    omega
  let P : World → Prop := fun t => SettledFrom lines w₀ t ∧ Unparked lines t
  have hinv : P w := by
    refine Runs.inv hrun ⟨hzero, hun₀⟩ fun t t' ht hok hit => ?_
    obtain ⟨u, v, hr, hchain⟩ := bind_eq_ok.1 hit
    have hv : SettledFrom lines w₀ v ∧ Unparked lines v := by
      refine ⟨ht.1.redraw hr, ?_⟩
      obtain ⟨key, keys, total, -, -, -, rfl⟩ := redraw_eq_ok hr
      exact ht.2
    refine Chain.run_inv hv (fun c s s' hmem hs hbody => ?_) hchain
    have hmem' : (c, s) ∈ iterationTrace srv lines t := by rwa [iterationTrace, hr]
    have hc : c = .up ∨ c = .down := hok _ hmem'
    have hf : Fresh srv lines s :=
      fresh_of_mem_trace hmem' (by rcases hc with rfl | rfl <;> decide)
    have hnav : c ∈ navigation := by rcases hc with rfl | rfl <;> decide
    have hheight' : 3 ≤ height lines s := by rwa [height_congr hs.1.tab]
    exact ⟨hs.1.step hheight₀ hf hnav hbody,
      unparked_step hheight' hf hs.1.view (by rwa [hs.1.size]) hs.2 hc hbody⟩
  exact hinv.2

end CliPos
