import CliPos.Analysis.LineEditor
import CliPos.Model.Echo

/-!
# What a prompt shows

Drawing changes nothing about the text that `get_string` returns (`drawnGetString_erase`).
Whenever it waits for a key, the screen shows the text of the editor with the cursor behind
it, and every other cell is as it was before the call or has been blanked, in the field of
the prompt only; without a limit that field starts one cell before the prompt, because the
limit -1 that stands for none is taken for a place to draw a mark (`prompt_shows_text`).
-/

set_option autoImplicit false

namespace CliPos

open Decimal Halting Terminal

variable {σ : Type} {term : Terminal σ} {t t₀ t' : σ} {origin : Place} {left maxLength : ℤ}
  {bound length c : ℕ} {visible s : Str} {showText : Bool} {key : Key} {keys : List Key}

/-! ## The text does not depend on the drawing -/

/-- A result without the screen. -/
def withoutScreen {α : Type} :
    EStateM.Result Halt (List Key × σ) α → EStateM.Result Halt (List Key) α
  | .ok a st => .ok a st.1
  | .error e st => .error e st.1

/-- Without the screen the editor that draws is the one that does not. -/
theorem drawnEditLoop_erase (term : Terminal σ) (showText : Bool) (origin : Place)
    (maxLength : ℤ) (keys : List Key) (s : Str) (t : σ) :
    withoutScreen (drawnEditLoop term showText origin maxLength keys s t) =
      editLoop maxLength keys s := by
  induction keys generalizing maxLength s t with
  | nil => rfl
  | cons key keys ih =>
    simp only [drawnEditLoop, editLoop]
    by_cases henter : key = keyEnter
    · simp only [if_pos henter]
      rfl
    · by_cases hesc : key = keyEsc
      · simp only [if_neg henter, if_pos hesc]
        rfl
      · simp only [if_neg henter, if_neg hesc]
        exact ih _ _ _

/-- **Drawing is for the screen only.** -/
theorem drawnGetString_erase (term : Terminal σ) (showText : Bool) (s : Str) (maxLength : ℤ)
    (keys : List Key) (t : σ) :
    withoutScreen (drawnGetString term showText s maxLength (keys, t)) =
      getString s maxLength keys := by
  unfold drawnGetString getString
  by_cases hs : s = []
  · simp only [hs, ne_eq, not_true_eq_false, if_false]
    exact drawnEditLoop_erase term showText _ maxLength keys [] _
  · simp only [ne_eq, hs, not_false_eq_true, if_true]
    cases keys with
    | nil => rfl
    | cons key keys =>
      by_cases hkey : key = keyEnter
      · simp only [hkey, not_true_eq_false, if_false]
        rfl
      · simp only [hkey, not_false_eq_true, if_true]
        exact drawnEditLoop_erase term showText _ maxLength keys _ _

/-! ## The cells -/

/-- The part of the screen that a prompt may blank: its line, from `left` to `bound` cells
behind its start. -/
def InField (origin : Place) (left : ℤ) (bound : ℕ) (p : Place) : Prop :=
  p.1 = origin.1 ∧ left ≤ p.2 ∧ p.2 ≤ origin.2 + bound

/-- The cells show a text, and are otherwise as they were or blanked. -/
structure Cells (origin : Place) (left : ℤ) (bound : ℕ) (f₀ : Place → Byte) (visible : Str)
    (f : Place → Byte) : Prop where
  text : ∀ i (h : i < visible.length), f (origin.1, origin.2 + i) = visible[i]
  rest : ∀ p, ¬Covers origin visible.length p →
    f p = f₀ p ∨ InField origin left bound p ∧ f p = space

section

variable {f₀ f : Place → Byte} {q : Place} {b : Byte}

/-- Blanking a cell of the field beside the text. -/
theorem Cells.blank (h : Cells origin left bound f₀ visible f) (hq : InField origin left bound q)
    (hbeside : ¬Covers origin visible.length q) :
    Cells origin left bound f₀ visible (Function.update f q space) := by
  constructor
  · intro i hi
    have hne : ((origin.1, origin.2 + i) : Place) ≠ q := by
      rintro rfl
      exact hbeside ⟨rfl, by dsimp only; omega, by dsimp only; omega⟩
    rw [Function.update_of_ne hne, h.text i hi]
  · intro p hp
    by_cases hpq : p = q
    · subst hpq
      exact .inr ⟨hq, Function.update_self _ _ _⟩
    · rw [Function.update_of_ne hpq]
      exact h.rest p hp

/-- Blanking the last character. -/
theorem Cells.dropLast (h : Cells origin left bound f₀ visible f) (hne : visible ≠ [])
    (hq : InField origin left bound (origin.1, origin.2 + visible.length - 1)) :
    Cells origin left bound f₀ visible.dropLast
      (Function.update f (origin.1, origin.2 + visible.length - 1) space) := by
  have hpos : 0 < visible.length := List.length_pos_iff.2 hne
  constructor
  · intro i hi
    rw [List.length_dropLast] at hi
    have hother : ((origin.1, origin.2 + i) : Place) ≠
        (origin.1, origin.2 + visible.length - 1) := by
      intro heq
      have := (Prod.mk.inj heq).2
      omega
    rw [Function.update_of_ne hother, h.text i (by omega), List.getElem_dropLast]
  · intro p hp
    by_cases hpq : p = (origin.1, origin.2 + visible.length - 1)
    · subst hpq
      exact .inr ⟨hq, Function.update_self _ _ _⟩
    · rw [Function.update_of_ne hpq]
      refine h.rest p fun hcovers => hp ?_
      obtain ⟨h1, h2, h3⟩ := hcovers
      have hlast : p.2 ≠ origin.2 + visible.length - 1 := fun h4 => hpq (Prod.ext h1 h4)
      rw [List.length_dropLast]
      exact ⟨h1, h2, by omega⟩

/-- Writing a character behind the text. -/
theorem Cells.concat (h : Cells origin left bound f₀ visible f) (b : Byte) :
    Cells origin left bound f₀ (visible ++ [b])
      (Function.update f (origin.1, origin.2 + visible.length) b) := by
  constructor
  · intro i hi
    by_cases hlast : i = visible.length
    · subst hlast
      simp
    · rw [List.length_append, List.length_singleton] at hi
      have hother : ((origin.1, origin.2 + i) : Place) ≠
          (origin.1, origin.2 + visible.length) := by
        intro heq
        have := (Prod.mk.inj heq).2
        omega
      rw [Function.update_of_ne hother, h.text i (by omega),
        List.getElem_append_left (by omega)]
  · intro p hp
    rw [List.length_append, List.length_singleton] at hp
    have hother : p ≠ (origin.1, origin.2 + visible.length) := by
      rintro rfl
      exact hp ⟨rfl, by dsimp only; omega, by dsimp only; push_cast; omega⟩
    rw [Function.update_of_ne hother]
    refine h.rest p fun hcovers => hp ?_
    obtain ⟨h1, h2, h3⟩ := hcovers
    exact ⟨h1, h2, by push_cast; omega⟩

end

/-! ## One key -/

/-- What the screen shows when the program waits for a key. -/
structure Shown (term : Terminal σ) (origin : Place) (left : ℤ) (bound : ℕ) (t₀ : σ)
    (visible : Str) (length : ℕ) (t : σ) : Prop where
  cursor : term.cursor t = (origin.1, origin.2 + length)
  cells : Cells origin left bound (term.cell t₀) visible (term.cell t)

/-- The screen between a key and the next: the cursor is `c` cells behind the start of the
prompt. -/
structure Between (term : Terminal σ) (origin : Place) (left maxLength : ℤ) (bound : ℕ) (t₀ : σ)
    (visible : Str) (length c : ℕ) (t : σ) : Prop where
  cursor : term.cursor t = (origin.1, origin.2 + c)
  cells : Cells origin left bound (term.cell t₀) visible (term.cell t)
  beside : visible.length ≤ c
  inField : c ≤ bound
  fits : length ≤ bound
  unlimited : maxLength = 0 → c = length
  limited : 0 < maxLength → visible.length ≤ maxLength

/-- What is known of a prompt: it starts on the grid, its field fits the line, and the mark
of a limited field is in it. -/
structure FieldFits (term : Terminal σ) (origin : Place) (left maxLength : ℤ) (bound : ℕ) :
    Prop where
  line : 0 ≤ origin.1 ∧ origin.1 < term.rows
  start : 0 ≤ origin.2
  stop : origin.2 + bound < term.cols
  leftmost : left ≤ origin.2
  /-- Without a limit the cell before the prompt is in its field. -/
  unlimited : maxLength ≤ 0 → left ≤ origin.2 - 1
  range : -1 ≤ maxLength ∧ maxLength ≤ bound

/-- A blank is printable. -/
theorem printable_space : Printable space := by decide

/-- The columns of the field are on the terminal. -/
theorem FieldFits.inside (h : FieldFits term origin left maxLength bound) {x : ℤ}
    (h0 : 0 ≤ x) (hx : x ≤ origin.2 + bound) : term.Inside (origin.1, x) := by
  have hstop := h.stop
  exact ⟨h.line.1, h.line.2, h0, by dsimp only; omega⟩

/-- **The top of the loop** puts the cursor behind the text, and blanks a cell at most. -/
theorem shown_drawMark (hfits : FieldFits term origin left maxLength bound)
    (h : Between term origin left maxLength bound t₀ visible length c t) :
    Shown term origin left bound t₀ visible length (drawMark term origin maxLength length t) := by
  have hlength := h.fits
  have hbeside := h.beside
  have hfield := h.inField
  have hleft := hfits.leftmost
  have hstart := hfits.start
  have hrange := hfits.range
  unfold drawMark
  by_cases hlimit : maxLength = 0
  · rw [if_neg (not_not.2 hlimit)]
    exact ⟨h.unlimited hlimit ▸ h.cursor, h.cells⟩
  · rw [if_pos hlimit]
    dsimp only
    have hback : term.Inside (origin.1, origin.2 + length) :=
      hfits.inside (by omega) (by omega)
    refine ⟨cursor_move_inside hback, ?_⟩
    rw [term.cell_move, Terminal.print_cons, Terminal.print_nil,
      term.cell_addch _ _ printable_space, term.cell_move]
    by_cases hmark : term.Inside (origin.1, origin.2 + maxLength)
    · rw [cursor_move_inside hmark]
      have hmin : left ≤ origin.2 + maxLength := by
        rcases lt_or_ge 0 maxLength with hpos | hneg
        · omega
        · have := hfits.unlimited hneg
          omega
      refine h.cells.blank ⟨rfl, hmin, by dsimp only; omega⟩ ?_
      rintro ⟨-, h2, h3⟩
      dsimp only at h2 h3
      rcases lt_or_ge 0 maxLength with hpos | hneg
      · have := h.limited hpos
        omega
      · omega
    · -- the mark of the limit -1 is off the grid, and the cursor stays
      rw [term.move_outside _ _ hmark, h.cursor]
      refine h.cells.blank ⟨rfl, by dsimp only; omega, by dsimp only; omega⟩ ?_
      rintro ⟨-, -, h3⟩
      dsimp only at h3
      omega

/-- What the screen shows of the text of the editor. -/
def echoed (showText : Bool) (s : Str) : Str := if showText then s else []

/-- What is shown is no longer than the text. -/
theorem echoed_length_le (showText : Bool) (s : Str) : (echoed showText s).length ≤ s.length := by
  unfold echoed
  split_ifs <;> simp

/-- **A backspace** takes the last character off the screen, too. -/
theorem shown_drawBackspace (hfits : FieldFits term origin left maxLength bound)
    (hs : s.length ≤ bound)
    (h : Shown term origin left bound t₀ (echoed showText s) s.length t) :
    Shown term origin left bound t₀ (echoed showText (afterBackspace key s))
      (afterBackspace key s).length (drawBackspace term key s t) := by
  have hleft := hfits.leftmost
  have hstart := hfits.start
  unfold drawBackspace afterBackspace
  by_cases hkey : key = keyBackspace ∨ key = keyDelete
  · by_cases hne : s = []
    · subst hne
      rw [if_pos hkey, if_neg (by simp)]
      exact h
    · have hpos : 0 < s.length := List.length_pos_iff.2 hne
      have hplace : term.Inside (origin.1, origin.2 + s.length - 1) :=
        hfits.inside (by omega) (by omega)
      rw [if_pos hkey, if_pos ⟨hkey, hne⟩, h.cursor]
      dsimp only
      constructor
      · rw [cursor_move_inside hplace, List.length_dropLast]
        ext
        · rfl
        · dsimp only
          omega
      · have hq : InField origin left bound (origin.1, origin.2 + s.length - 1) :=
          ⟨rfl, by dsimp only; omega, by dsimp only; omega⟩
        rw [term.cell_move, mvaddch, if_pos hplace, term.cell_addch _ _ printable_space,
          term.cell_move, cursor_move_inside hplace]
        have hcells := h.cells
        cases showText with
        | true => exact hcells.dropLast hne hq
        | false =>
          refine hcells.blank hq ?_
          have hnone : (echoed false s).length = 0 := rfl
          rintro ⟨-, h2, h3⟩
          rw [hnone] at h3
          dsimp only at h2 h3
          omega
  · rw [if_neg hkey, if_neg fun h => hkey h.1]
    exact h

/-- A printable character that fits is appended. -/
theorem afterPrintable_of {maxLength : ℤ} {key : Key} {s : Str}
    (h : isprint (charOfKey key) = true ∧ (s.length : ℤ) < toSizeT maxLength) :
    afterPrintable maxLength key s = s ++ [charOfKey key] := if_pos h

/-- **A printable key** is written behind the text, unless the text is hidden. -/
theorem between_drawPrintable (hfits : FieldFits term origin left maxLength bound)
    (hneg : maxLength ≠ 0) (hroom : (afterPrintable maxLength key s).length ≤ bound)
    (hlimited : 0 < maxLength → (s.length : ℤ) ≤ maxLength)
    (h : Shown term origin left bound t₀ (echoed showText s) s.length t) :
    Between term origin left maxLength bound t₀ (echoed showText (afterPrintable maxLength key s))
      (afterPrintable maxLength key s).length
      (if showText then (afterPrintable maxLength key s).length else s.length)
      (drawPrintable term showText maxLength (origin.1, origin.2 + s.length) key s t) := by
  have hstart := hfits.start
  have hvisible := echoed_length_le showText s
  by_cases hprint : isprint (charOfKey key) = true ∧ (s.length : ℤ) < toSizeT maxLength
  · have hprintable : Printable (charOfKey key) := by
      simpa [isprint, Printable] using hprint.1
    have hafter := afterPrintable_of hprint
    rw [hafter, List.length_append, List.length_singleton] at hroom
    have hlimit : 0 < maxLength → ((s ++ [charOfKey key]).length : ℤ) ≤ maxLength := by
      intro hpos
      have hlt := hprint.2
      rw [toSizeT_of_nonneg hpos.le] at hlt
      rw [List.length_append, List.length_singleton]
      push_cast
      omega
    rw [hafter]
    cases showText with
    | false =>
      have hdraw : drawPrintable term false maxLength (origin.1, origin.2 + s.length) key s t =
          t := by simp [drawPrintable]
      rw [hdraw]
      exact
        { cursor := h.cursor
          cells := h.cells
          beside := by simp [echoed]
          inField := by simp; omega
          fits := by simpa using hroom
          unlimited := fun h0 => absurd h0 hneg
          limited := fun hpos => by simp [echoed]; omega }
    | true =>
      have hplace : term.Inside (origin.1, origin.2 + s.length + 1) :=
        hfits.inside (by omega) (by omega)
      have hdraw : drawPrintable term true maxLength (origin.1, origin.2 + s.length) key s t =
          term.move (origin.1, origin.2 + s.length + 1) (term.addch (charOfKey key) t) := by
        rw [drawPrintable, if_pos ⟨hprint.1, hprint.2, rfl⟩]
      rw [hdraw]
      exact
        { cursor := by
            rw [cursor_move_inside hplace]
            simp [add_assoc]
          cells := by
            have hcells := h.cells.concat (charOfKey key)
            rw [term.cell_move, term.cell_addch _ _ hprintable, h.cursor]
            exact hcells
          beside := by simp [echoed]
          inField := by simpa using hroom
          fits := by simpa using hroom
          unlimited := fun h0 => absurd h0 hneg
          limited := fun hpos => by simpa [echoed] using hlimit hpos }
  · have hafter : afterPrintable maxLength key s = s := if_neg hprint
    have hdraw : drawPrintable term showText maxLength (origin.1, origin.2 + s.length) key s t =
        t := if_neg fun hall => hprint ⟨hall.1, hall.2.1⟩
    rw [hafter] at hroom ⊢
    rw [hdraw, ite_self]
    exact
      { cursor := h.cursor
        cells := h.cells
        beside := hvisible
        inField := hroom
        fits := hroom
        unlimited := fun h0 => absurd h0 hneg
        limited := fun hpos => by have := hlimited hpos; omega }

/-! ## The loop -/

/-- Backspace does not make the text longer. -/
theorem length_afterBackspace_le (key : Key) (s : Str) :
    (afterBackspace key s).length ≤ s.length := by
  unfold afterBackspace
  split_ifs <;> simp

/-- The text keeps to its limit. -/
theorem afterPrintable_length_le {maxLength : ℤ} (hpos : 0 < maxLength) (key : Key) {s : Str}
    (h : (s.length : ℤ) ≤ maxLength) :
    ((afterPrintable maxLength key s).length : ℤ) ≤ maxLength := by
  unfold afterPrintable
  split_ifs with hprint
  · have hlt := hprint.2
    rw [toSizeT_of_nonneg hpos.le] at hlt
    rw [List.length_append, List.length_singleton]
    push_cast
    omega
  · exact h

/-- **The edit loop waits with its text shown.** -/
theorem drawnEditLoop_waits (henter : keyEnter ∉ keys) (hesc : keyEsc ∉ keys)
    (hfits : FieldFits term origin left maxLength bound)
    (hbound : ∀ pre, pre <+: keys → (pre.foldl (takeKey maxLength) s).length ≤ bound)
    (hlimited : 0 < maxLength → (s.length : ℤ) ≤ maxLength)
    (h : Between term origin left maxLength bound t₀ (echoed showText s) s.length c t) :
    ∃ t', drawnEditLoop term showText origin maxLength keys s t = .error .waiting ([], t') ∧
      Shown term origin left bound t₀ (echoed showText (keys.foldl (takeKey maxLength) s))
        (keys.foldl (takeKey maxLength) s).length t' := by
  induction keys generalizing maxLength s t c with
  | nil => exact ⟨_, rfl, shown_drawMark hfits h⟩
  | cons key keys ih =>
    simp only [List.mem_cons, not_or] at henter hesc
    -- a limit of 0 becomes -1 after the first round
    let limit := if maxLength ≠ 0 then maxLength else -1
    have hlimit : takeKey limit = takeKey maxLength := by
      funext s key
      unfold takeKey limit
      split_ifs <;> rfl
    have hne : limit ≠ 0 := by
      unfold limit
      split_ifs <;> omega
    have hpos : 0 < limit → 0 < maxLength ∧ limit = maxLength := by
      unfold limit
      split_ifs <;> omega
    have hfits' : FieldFits term origin left limit bound := by
      refine ⟨hfits.line, hfits.start, hfits.stop, hfits.leftmost, fun hle => ?_, ?_⟩
      · refine hfits.unlimited ?_
        unfold limit at hle
        split_ifs at hle <;> omega
      · have hrange := hfits.range
        unfold limit
        split_ifs <;> omega
    have hmarked := shown_drawMark hfits h
    have hback := @shown_drawBackspace _ _ _ _ _ _ _ _ s showText key hfits h.fits hmarked
    have hbackLength := length_afterBackspace_le key s
    have hlimited' : 0 < limit → ((afterBackspace key s).length : ℤ) ≤ limit := by
      intro hpos'
      obtain ⟨hmax, heq⟩ := hpos hpos'
      have := hlimited hmax
      rw [heq]
      omega
    have hone : afterPrintable limit key (afterBackspace key s) = takeKey maxLength s key := rfl
    have hroom : (afterPrintable limit key (afterBackspace key s)).length ≤ bound := by
      rw [hone]
      exact hbound [key] ⟨keys, rfl⟩
    -- a backspace is not printable, so it matters to one of the two places only
    have hplace : ∀ t : σ, drawPrintable term showText limit (origin.1, origin.2 + s.length) key
        (afterBackspace key s) t =
          drawPrintable term showText limit (origin.1, origin.2 + (afterBackspace key s).length)
            key (afterBackspace key s) t := by
      intro t
      by_cases hkey : key = keyBackspace ∨ key = keyDelete
      · have hno : isprint (charOfKey key) = false := by
          rcases hkey with rfl | rfl <;> decide
        simp [drawPrintable, hno]
      · rw [afterBackspace, if_neg hkey]
    have hnext := between_drawPrintable hfits' hne hroom hlimited' hback
    obtain ⟨t', hwaits, hshown⟩ := ih henter.2 hesc.2 hfits' (fun pre hpre => by
      have hpre' : key :: pre <+: key :: keys := List.prefix_cons_inj key |>.2 hpre
      rw [hlimit]
      exact hbound (key :: pre) hpre') (fun hpos' =>
        afterPrintable_length_le hpos' key (hlimited' hpos')) hnext
    rw [hlimit] at hshown
    refine ⟨t', ?_, hshown⟩
    rw [drawnEditLoop]
    simp only [if_neg (Ne.symm henter.1), if_neg (Ne.symm hesc.1), hmarked.cursor]
    rw [← hplace] at hwaits
    exact hwaits

/-! ## The prompt -/

/-- What a prompt shows while it waits: its text with the cursor behind it; every other cell
as it was, or blanked. -/
structure Prompts (term : Terminal σ) (t₀ : σ) (maxLength : ℤ) (bound : ℕ) (showText : Bool)
    (text : Str) (t : σ) : Prop where
  /-- The cursor is behind the text, shown or not. -/
  cursor : term.cursor t = ((term.cursor t₀).1, (term.cursor t₀).2 + text.length)
  /-- The text is on the screen, unless it is hidden. -/
  shown : showText = true → ∀ i (h : i < text.length),
    term.cell t ((term.cursor t₀).1, (term.cursor t₀).2 + i) = text[i]
  /-- Every other cell is as it was, or a blank of the field. -/
  rest : ∀ p, (showText = true → ¬Covers (term.cursor t₀) text.length p) →
    term.cell t p = term.cell t₀ p ∨ (p.1 = (term.cursor t₀).1 ∧
      (if maxLength = 0 then (term.cursor t₀).2 - 1 else (term.cursor t₀).2) ≤ p.2 ∧
      p.2 ≤ (term.cursor t₀).2 + bound ∧ term.cell t p = space)

/-- The cell where the field of a prompt starts. -/
def fieldStart (origin : Place) (maxLength : ℤ) : ℤ :=
  if maxLength = 0 then origin.2 - 1 else origin.2

/-- A text that is shown prompts as the property says. -/
theorem Shown.prompts {text : Str}
    (h : Shown term (term.cursor t₀) (fieldStart (term.cursor t₀) maxLength) bound t₀
      (echoed showText text) text.length t) :
    Prompts term t₀ maxLength bound showText text t := by
  constructor
  · exact h.cursor
  · rintro rfl i hi
    exact h.cells.text i hi
  · intro p hp
    have hbeside : ¬Covers (term.cursor t₀) (echoed showText text).length p := by
      cases showText with
      | true => exact hp rfl
      | false =>
        have hnone : (echoed false text).length = 0 := rfl
        rintro ⟨-, h2, h3⟩
        rw [hnone] at h3
        omega
    rcases h.cells.rest p hbeside with hsame | ⟨⟨h1, h2, h3⟩, hspace⟩
    · exact .inl hsame
    · exact .inr ⟨h1, h2, h3, hspace⟩

/-- Text that fits the rest of the line leaves the field on the terminal. -/
theorem fieldFits_prompt (h0 : 0 ≤ maxLength) (hlimit : maxLength ≤ bound)
    (hfit : (term.cursor t₀).2 + bound < term.cols) :
    FieldFits term (term.cursor t₀) (fieldStart (term.cursor t₀) maxLength) maxLength bound := by
  obtain ⟨hrow, hrow', hcol, -⟩ := term.cursor_inside t₀
  have hstart : fieldStart (term.cursor t₀) maxLength ≤ (term.cursor t₀).2 ∧
      (maxLength ≤ 0 → fieldStart (term.cursor t₀) maxLength ≤ (term.cursor t₀).2 - 1) := by
    unfold fieldStart
    split_ifs <;> omega
  exact ⟨⟨hrow, hrow'⟩, hcol, hfit, hstart.1, hstart.2, by omega, hlimit⟩

/-- A field that nothing was drawn in shows the empty text. -/
theorem cells_start (origin : Place) (left : ℤ) (bound : ℕ) (f : Place → Byte) :
    Cells origin left bound f [] f := ⟨by simp, fun _ _ => .inl rfl⟩

/-- The placeholder, as it is first shown. -/
theorem shown_placeholder (left : ℤ) (hs : ∀ b ∈ s, Printable b)
    (hfit : (term.cursor t₀).2 + s.length < term.cols) :
    Shown term (term.cursor t₀) left bound t₀ s s.length (term.print s t₀) :=
  ⟨cursor_print hs hfit, fun _ hi => cell_print hs hfit hi,
    fun _ hp => .inl (cell_print_of_not_covers hs hfit hp)⟩

/-- **The placeholder is wiped** by the first key. -/
theorem cells_wiped (hfits : FieldFits term (term.cursor t₀) left maxLength bound)
    (hs : ∀ b ∈ s, Printable b) (hbound : s.length ≤ bound) :
    Cells (term.cursor t₀) left bound (term.cell t₀) []
      (term.cell (term.print (List.replicate s.length space)
        (term.move (term.cursor t₀) (term.print s t₀)))) := by
  have hstop := hfits.stop
  have hleft := hfits.leftmost
  have horigin : term.Inside (term.cursor t₀) := term.cursor_inside t₀
  have hmove := @cursor_move_inside _ _ (term.print s t₀) _ horigin
  have hblank : ∀ b ∈ List.replicate s.length space, Printable b := by
    intro b hb
    rw [(List.mem_replicate.1 hb).2]
    exact printable_space
  have hfit : (term.cursor (term.move (term.cursor t₀) (term.print s t₀))).2 +
      (List.replicate s.length space).length < term.cols := by
    rw [hmove, List.length_replicate]
    omega
  refine ⟨by simp, fun p _ => ?_⟩
  by_cases hp : Covers (term.cursor t₀) s.length p
  · obtain ⟨h1, h2, h3⟩ := hp
    -- the cell had a character of the placeholder
    obtain ⟨i, hi⟩ := Int.eq_ofNat_of_zero_le (sub_nonneg.2 h2)
    have hlt : i < (List.replicate s.length space).length := by
      rw [List.length_replicate]
      omega
    have hcell := cell_print hblank hfit hlt
    have hplace : p = ((term.cursor t₀).1, (term.cursor t₀).2 + i) := by
      ext
      · exact h1
      · dsimp only
        omega
    rw [hmove, ← hplace, List.getElem_replicate] at hcell
    exact .inr ⟨⟨h1, by omega, by omega⟩, hcell⟩
  · have hbeside : ¬Covers (term.cursor (term.move (term.cursor t₀) (term.print s t₀)))
        (List.replicate s.length space).length p := by
      rwa [hmove, List.length_replicate]
    left
    rw [cell_print_of_not_covers hblank hfit hbeside, term.cell_move,
      cell_print_of_not_covers hs (by omega) hp]

/-- The first key of a text is the text, when it can be printed. -/
theorem takeKey_nil (h0 : 0 ≤ maxLength) (key : Key) :
    takeKey maxLength [] key = if isprint (charOfKey key) then [charOfKey key] else [] := by
  have hback : afterBackspace key [] = [] := by simp [afterBackspace]
  have hroom : (0 : ℤ) < toSizeT (if maxLength ≠ 0 then maxLength else -1) := by
    unfold toSizeT
    split_ifs <;> omega
  simp only [takeKey, hback, afterPrintable, List.length_nil, Nat.cast_zero, hroom, and_true,
    List.nil_append]

/-- **A prompt shows the text of its editor,** where placeholder, limit and text fit the rest of
the line.  However many keys were typed, none of them Enter and none ESC once the text starts,
the program waits; the screen then shows the placeholder or the text of the editor with the
cursor behind it, and no other cell has changed but to a blank in the field: from the start of
the prompt, or one cell before it when there is no limit, to the longest text or the mark.  A
hidden prompt shows nothing of its text.  And what is returned in the end is what is returned
without a screen. -/
theorem prompt_shows_text (term : Terminal σ) (t₀ : σ) (showText : Bool) (s : Str)
    (maxLength : ℤ) (bound : ℕ) (keys : List Key) (h0 : 0 ≤ maxLength)
    (hshow : showText = true ∨ s = []) (hs : ∀ b ∈ s, Printable b)
    (henter : keyEnter ∉ keys) (hesc : keyEsc ∉ if s = [] then keys else keys.tail)
    (hplaceholder : s.length ≤ bound) (hlimit : maxLength ≤ bound)
    (hbound : ∀ pre, pre <+: keys → (editText maxLength pre).length ≤ bound)
    (hfit : (term.cursor t₀).2 + bound < term.cols) :
    (∃ t, drawnGetString term showText s maxLength (keys, t₀) = .error .waiting ([], t) ∧
      Prompts term t₀ maxLength bound showText (if keys = [] then s else editText maxLength keys)
        t) ∧
    ∀ keys t, withoutScreen (drawnGetString term showText s maxLength (keys, t)) =
      getString s maxLength keys := by
  refine ⟨?_, drawnGetString_erase term showText s maxLength⟩
  have hfits := fieldFits_prompt h0 hlimit hfit
  have horigin : term.Inside (term.cursor t₀) := term.cursor_inside t₀
  by_cases hempty : s = []
  · subst hempty
    rw [if_pos rfl] at hesc
    have hbetween : Between term (term.cursor t₀) (fieldStart (term.cursor t₀) maxLength)
        maxLength bound t₀ (echoed showText []) 0 0 t₀ :=
      { cursor := by simp
        cells := by
          cases showText
          · exact cells_start _ _ _ _
          · exact cells_start _ _ _ _
        beside := by simp [echoed]
        inField := Nat.zero_le _
        fits := Nat.zero_le _
        unlimited := fun _ => rfl
        limited := fun hpos => by simp [echoed]; omega }
    obtain ⟨t, hwaits, hshown⟩ :=
      drawnEditLoop_waits henter hesc hfits hbound (fun hpos => by simp; omega) hbetween
    have htext : (if keys = [] then [] else editText maxLength keys) =
        keys.foldl (takeKey maxLength) [] := by
      split_ifs with hkeys
      · rw [hkeys]
        rfl
      · rfl
    rw [htext]
    exact ⟨t, by simpa [drawnGetString] using hwaits, hshown.prompts⟩
  · obtain rfl := hshow.resolve_right hempty
    rw [if_neg hempty] at hesc
    cases keys with
    | nil =>
      have hshown := @shown_placeholder _ term t₀ bound s
        (fieldStart (term.cursor t₀) maxLength) hs (by omega)
      exact ⟨term.print s t₀, by simp [drawnGetString, hempty], hshown.prompts⟩
    | cons key keys =>
      simp only [List.mem_cons, not_or] at henter
      have hfirst := takeKey_nil h0 key
      have hlength : (takeKey maxLength [] key).length ≤ bound := hbound [key] ⟨keys, rfl⟩
      have hwiped := cells_wiped hfits hs hplaceholder
      have hcursor := @cursor_move_inside _ _ (term.print (List.replicate s.length space)
        (term.move (term.cursor t₀) (term.print s t₀))) _ horigin
      have hone : ((if isprint (charOfKey key) then [charOfKey key] else []).length : ℤ) ≤ 1 := by
        split_ifs <;> simp
      have hbetween : Between term (term.cursor t₀) (fieldStart (term.cursor t₀) maxLength)
          maxLength bound t₀ (echoed true (takeKey maxLength [] key))
          (takeKey maxLength [] key).length (takeKey maxLength [] key).length
          (term.print (takeKey maxLength [] key) (term.move (term.cursor t₀)
            (term.print (List.replicate s.length space)
              (term.move (term.cursor t₀) (term.print s t₀))))) := by
        rw [hfirst] at hlength ⊢
        refine
          { cursor := ?_
            cells := ?_
            beside := le_refl _
            inField := hlength
            fits := hlength
            unlimited := fun _ => rfl
            limited := fun hpos => by simp only [echoed, if_true]; omega }
        · split_ifs with hprint
          · have hprintable : Printable (charOfKey key) := by
              simpa [isprint, Printable] using hprint
            have hstop := hfits.stop
            rw [Terminal.print_cons, Terminal.print_nil,
              term.cursor_addch _ _ hprintable (by rw [hcursor]; simp [hprint] at hlength; omega),
              hcursor]
            simp
          · simp [hcursor]
        · split_ifs with hprint
          · have hprintable : Printable (charOfKey key) := by
              simpa [isprint, Printable] using hprint
            have hconcat := hwiped.concat (charOfKey key)
            rw [Terminal.print_cons, Terminal.print_nil, term.cell_addch _ _ hprintable,
              term.cell_move, hcursor]
            simpa [echoed] using hconcat
          · rw [Terminal.print_nil, term.cell_move]
            exact hwiped
      obtain ⟨t, hwaits, hshown⟩ := drawnEditLoop_waits henter.2 hesc hfits
        (fun pre hpre => hbound (key :: pre) (List.prefix_cons_inj key |>.2 hpre))
        (fun hpos => by rw [hfirst]; omega) hbetween
      refine ⟨t, ?_, ?_⟩
      · rw [hfirst] at hwaits
        simpa [drawnGetString, hempty, Ne.symm henter.1] using hwaits
      · rw [if_neg (List.cons_ne_nil _ _)]
        exact hshown.prompts

/-- A prompt in the middle of a blank line, with a limit of three characters. -/
theorem prompt_shows_text_letters :
    let start : Grid 24 80 := ⟨fun _ => space, (22, 7), by decide⟩
    ∃ t, drawnGetString (Grid.terminal 24 80) true (label "bread") 3
        ([charKey 'a', charKey 'b', keyBackspace], start) = .error .waiting ([], t) ∧
      Prompts (Grid.terminal 24 80) start 3 5 true (label "a") t := by
  intro start
  have hinits : ∀ pre ∈ [charKey 'a', charKey 'b', keyBackspace].inits,
      (editText 3 pre).length ≤ 5 := by
    decide
  have hfit : ((Grid.terminal 24 80).cursor start).2 + (5 : ℕ) < (Grid.terminal 24 80).cols := by
    show (7 : ℤ) + 5 < 80
    norm_num
  exact (prompt_shows_text (Grid.terminal 24 80) start true (label "bread") 3 5
    [charKey 'a', charKey 'b', keyBackspace] (by decide) (.inl rfl) (by decide +kernel)
    (by decide) (by decide +kernel) (by decide +kernel) (by decide)
    (fun pre hpre => hinits pre ((List.mem_inits _ _).2 hpre)) hfit).1

end CliPos
