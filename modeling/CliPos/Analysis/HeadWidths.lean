import CliPos.Analysis.RowWidths
import Mathlib.Data.Rat.Floor

/-!
# The widths of the title and of the names of the columns

Both are centred: half of the room left over goes before the text and half behind it, and an
odd character is made up for by a correction.  The corrections do not cover every pair of an
even and an odd length: the title is as wide as the table exactly when its length is even, and
the line with the names of the columns exactly when the column of names is not printed or has
an even size (`head_aligned_iff`).
-/

set_option autoImplicit false

namespace CliPos

open Decimal

variable {name tab : Str} {contentSize width maxNameLength : ℤ} {f : Printed}

/-! ## A name of a column -/

/-- The name as it is printed: in a column of even size a blank makes its length even. -/
def printedLabel (name : Str) (contentSize : ℤ) : Str :=
  if name.length % 2 = 1 ∧ contentSize.tmod 2 ≠ 1 then name ++ [space] else name

/-- The blanks on each side of it. -/
def sectionPadding (name : Str) (contentSize : ℤ) : ℤ :=
  (contentSize - (printedLabel name contentSize).length) / 2

/-- The section is a pipe and exactly `content_size` characters. -/
def SectionFits (name : Str) (contentSize : ℤ) : Prop :=
  ∃ text, drawn (printTableHeadSection name contentSize) = pipe :: text ∧
    (text.length : ℤ) = contentSize

/-- A label holds a NUL exactly when its name does. -/
theorem nul_mem_printedLabel : nul ∈ printedLabel name contentSize ↔ nul ∈ name := by
  have hspace : nul ≠ space := by decide
  unfold printedLabel
  split_ifs
  · rw [List.mem_append, List.mem_singleton, or_iff_left hspace]
  · rfl

/-- A width that is not negative is even when its C remainder is not 1. -/
theorem tmod_two_ne_one (h : 0 ≤ contentSize) :
    contentSize.tmod 2 ≠ 1 ↔ contentSize % 2 = 0 := by
  rw [Int.tmod_eq_emod_of_nonneg h]
  omega

/-- The blank has room, and leaves an odd room only behind a name of even length in a column
of odd size. -/
theorem printedLabel_length (h : (name.length : ℤ) ≤ contentSize) :
    ((printedLabel name contentSize).length : ℤ) ≤ contentSize ∧
      ((contentSize - (printedLabel name contentSize).length) % 2 = 0 ↔
        (name.length % 2 = 0 → contentSize % 2 = 0)) := by
  unfold printedLabel
  split_ifs with hblank
  · rw [tmod_two_ne_one (by omega)] at hblank
    rw [List.length_append, List.length_singleton]
    omega
  · rw [tmod_two_ne_one (by omega)] at hblank
    omega

/-- A section whose name fits: the line, and the label between equal paddings. -/
theorem printTableHeadSection_eq (hfits : (name.length : ℤ) ≤ contentSize)
    (hint : contentSize < 2 ^ 31) :
    printTableHeadSection name contentSize =
      [.text [pipe], .loop space (sectionPadding name contentSize),
        .text (printedLabel name contentSize), .loop space (sectionPadding name contentSize)] := by
  have hle := (printedLabel_length hfits).1
  have hpadding : toInt (toSizeT (contentSize - (printedLabel name contentSize).length) / 2) =
      sectionPadding name contentSize := by
    rw [toSizeT_of_le hle]
    exact toInt_of_lt (by omega) (by omega)
  rw [← hpadding]
  rfl

/-- What such a section prints. -/
theorem drawn_section (hfits : (name.length : ℤ) ≤ contentSize) (hint : contentSize < 2 ^ 31) :
    drawn (printTableHeadSection name contentSize) = pipe ::
      (List.replicate (sectionPadding name contentSize).toNat space ++
        (cString (printedLabel name contentSize) ++
          List.replicate (sectionPadding name contentSize).toNat space)) := by
  have hpipe : cString [pipe] = [pipe] := by decide
  rw [printTableHeadSection_eq hfits hint]
  simp only [drawn_text, drawn_loop, drawn_nil, hpipe, List.append_nil, List.singleton_append]

/-- **The length of a section**: what is left over is halved twice. -/
theorem length_drawn_section (hfits : (name.length : ℤ) ≤ contentSize)
    (hint : contentSize < 2 ^ 31) :
    ((drawn (printTableHeadSection name contentSize)).length : ℤ) =
      1 + 2 * ((contentSize - (printedLabel name contentSize).length) / 2) +
        (cString (printedLabel name contentSize)).length := by
  have hle := (printedLabel_length hfits).1
  rw [drawn_section hfits hint, sectionPadding]
  simp only [List.length_cons, List.length_append, List.length_replicate]
  omega

/-- **A section fits** exactly when its name holds no NUL, and is not one of even length in a
column of odd size. -/
theorem sectionFits_iff (hfits : (name.length : ℤ) ≤ contentSize) (hint : contentSize < 2 ^ 31) :
    SectionFits name contentSize ↔
      nul ∉ name ∧ (name.length % 2 = 0 → contentSize % 2 = 0) := by
  obtain ⟨hle, hparity⟩ := printedLabel_length hfits
  have hcut := length_cString_le (printedLabel name contentSize)
  have hlength : SectionFits name contentSize ↔
      ((drawn (printTableHeadSection name contentSize)).length : ℤ) = contentSize + 1 := by
    constructor
    · rintro ⟨text, heq, hlen⟩
      rw [heq, List.length_cons]
      omega
    · intro hlen
      rw [drawn_section hfits hint, List.length_cons] at hlen
      exact ⟨_, drawn_section hfits hint, by omega⟩
  rw [hlength, length_drawn_section hfits hint, ← hparity, ← @nul_mem_printedLabel _ contentSize,
    ← length_cString_eq_iff]
  omega

/-! ## The two lines -/

/-- The line with a title, whatever the title is. -/
def titleLine (width : ℤ) (tab : Str) : List Piece :=
  let padding := truncate ((width : ℚ) / 2 - (tab.length : ℚ) / 2)
  [.loop minus padding, .text tab, .loop minus padding] ++
    (if width.tmod 2 ≠ 0 then [.text [minus]] else []) ++ [.text [newline]]

/-- The title of a tab is the line with its name. -/
theorem title_eq_titleLine (width : ℤ) (t : Tab) : title width t = titleLine width (tabName t) :=
  rfl

/-- The title and the names of the columns are lines as wide as the table. -/
structure HeadAligned (maxNameLength : ℤ) (f : Printed) (tab : Str) : Prop where
  title : IsLine (tableWidth maxNameLength f) (drawn (titleLine (tableWidth maxNameLength f) tab))
  head : IsLine (tableWidth maxNameLength f) (drawn (tableHead maxNameLength f))

/-- The title has an even length and no NUL; or an odd length in a table of odd width, and its
last character, which is one too many, is a NUL. -/
def TitleFits (width : ℤ) (tab : Str) : Prop :=
  (tab.length % 2 = 0 ∧ nul ∉ tab) ∨
    (tab.length % 2 = 1 ∧ width % 2 = 1 ∧ (cString tab).length + 1 = tab.length)

/-- Half of what the title leaves over. -/
theorem truncate_padding (h : (tab.length : ℤ) ≤ width) :
    truncate ((width : ℚ) / 2 - (tab.length : ℚ) / 2) = (width - tab.length) / 2 := by
  have hle : (tab.length : ℚ) ≤ width := by exact_mod_cast h
  have hhalf : (width : ℚ) / 2 - (tab.length : ℚ) / 2 =
      ((width - tab.length : ℤ) : ℚ) / (2 : ℕ) := by
    push_cast
    ring
  rw [truncate, if_neg (by linarith), hhalf, Rat.floor_intCast_div_natCast]
  rfl

/-- **The length of the title**, with its newline. -/
theorem length_drawn_titleLine (h : (tab.length : ℤ) ≤ width) :
    ((drawn (titleLine width tab)).length : ℤ) =
      2 * ((width - tab.length) / 2) + (cString tab).length + width % 2 + 1 := by
  have hminus : cString [minus] = [minus] := by decide
  have hnewline : cString [newline] = [newline] := by decide
  rw [titleLine, truncate_padding h, Int.tmod_eq_emod_of_nonneg (by omega)]
  simp only [drawn_append, drawn_text, drawn_loop, drawn_nil, hnewline, List.length_append,
    List.length_replicate, List.length_singleton, List.length_nil]
  split_ifs with hodd
  · simp only [drawn_text, drawn_nil, hminus, List.length_append, List.length_singleton,
      List.length_nil]
    omega
  · simp only [drawn_nil, List.length_nil]
    omega

/-- A title ends with a newline. -/
theorem getLast?_titleLine : (drawn (titleLine width tab)).getLast? = some newline := by
  have hnewline : cString [newline] = [newline] := by decide
  simp only [titleLine, drawn_append, drawn_text, drawn_nil, hnewline, List.getLast?_append,
    List.append_nil, List.getLast?_singleton, Option.some_or]

/-- **The title fits** the table. -/
theorem title_isLine_iff (h : (tab.length : ℤ) ≤ width) :
    IsLine width (drawn (titleLine width tab)) ↔ TitleFits width tab := by
  have hcut := length_cString_le tab
  rw [isLine_iff getLast?_titleLine, length_drawn_titleLine h, TitleFits, ← length_cString_eq_iff]
  omega

/-- **The length of the names of the columns**, with their pipe and newline: the column of
names is one short when its size is odd. -/
theorem length_drawn_tableHead (hint : maxNameLength < 2 ^ 31)
    (hname : f.name = true → 4 ≤ maxNameLength) :
    ((drawn (tableHead maxNameLength f)).length : ℤ) =
      tableSum maxNameLength f + 1 - if f.name then maxNameLength % 2 else 0 := by
  have hnames : ((drawn (printedIf f.name
      (printTableHeadSection (label "NAME") maxNameLength))).length : ℤ) =
        (printedIf f.name [maxNameLength + 1]).sum - if f.name then maxNameLength % 2 else 0 := by
    have hlabel : (label "NAME").length = 4 := by decide
    cases hshown : f.name with
    | false => rfl
    | true =>
      have hsize := hname hshown
      have hprinted : printedLabel (label "NAME") maxNameLength = label "NAME" :=
        if_neg fun hodd => absurd hodd.1 (by decide)
      have hcut : (cString (label "NAME")).length = 4 := by decide
      have hlength := @length_drawn_section (label "NAME") maxNameLength (by omega) hint
      rw [hprinted, hlabel, hcut] at hlength
      simp only [printedIf, if_true, List.sum_singleton, hlength]
      omega
  have hother : ∀ {shown : Bool} {name : Str} {size : ℤ}, (name.length : ℤ) ≤ size →
      size < 2 ^ 31 → nul ∉ name ∧ (name.length % 2 = 0 → size % 2 = 0) →
        ((drawn (printedIf shown (printTableHeadSection name size))).length : ℤ) =
          (printedIf shown [size + 1]).sum := by
    intro shown name size hfits hsize hfree
    obtain ⟨text, heq, hlen⟩ := (sectionFits_iff hfits hsize).2 hfree
    refine length_drawn_printedIf fun _ => ?_
    rw [heq, List.length_cons]
    omega
  have hclose : (drawn [.text [pipe, newline]]).length = 2 := by decide
  simp only [tableHead, tableSum, List.flatten_cons, List.flatten_nil, drawn_append,
    List.length_append, List.sum_append, Nat.cast_add, hnames, hclose]
  repeat rw [hother (by decide) (by decide) (by decide)]
  simp only [drawn_nil, List.length_nil, List.sum_nil, List.sum_singleton]
  omega

/-- So does a head. -/
theorem getLast?_tableHead : (drawn (tableHead maxNameLength f)).getLast? = some newline := by
  have hclose : cString [pipe, newline] = [pipe] ++ [newline] := by decide
  simp only [tableHead, List.flatten_cons, List.flatten_nil, drawn_append, drawn_text, drawn_nil,
    hclose, List.getLast?_append, List.append_nil, List.getLast?_singleton, Option.some_or]

/-- The names of the columns of the products tab, with the size that names have at first. -/
theorem products_head_short : ¬∀ (maxNameLength : ℤ) (f : Printed) (tab : Str),
    (f.name = true → 4 ≤ maxNameLength) → maxNameLength < 2 ^ 31 →
      (tab.length : ℤ) ≤ tableWidth maxNameLength f → HeadAligned maxNameLength f tab := by
  intro hall
  have hhead := (hall 31 (printedIn .products) (tabName .products) (by decide) (by decide)
    (by decide)).head
  rw [isLine_iff getLast?_tableHead] at hhead
  exact absurd hhead (by decide)

/-- **The title and the names of the columns line up with the table** exactly when the title
has an even length, and the column of names, when it is printed, an even size; and a section
is a pipe and `content_size` characters exactly when its name is not one of even length in a
column of odd size. -/
theorem head_aligned_iff (maxNameLength : ℤ) (hint : maxNameLength < 2 ^ 31) (f : Printed)
    (hname : f.name = true → 4 ≤ maxNameLength) (tab : Str)
    (htab : (tab.length : ℤ) ≤ tableWidth maxNameLength f) :
    (HeadAligned maxNameLength f tab ↔
      TitleFits (tableWidth maxNameLength f) tab ∧ (f.name = true → maxNameLength % 2 = 0)) ∧
    ∀ (name : Str) (contentSize : ℤ), (name.length : ℤ) ≤ contentSize → contentSize < 2 ^ 31 →
      (SectionFits name contentSize ↔
        nul ∉ name ∧ (name.length % 2 = 0 → contentSize % 2 = 0)) := by
  refine ⟨?_, fun _ _ => sectionFits_iff⟩
  obtain ⟨h0, hlt⟩ := @tableSum_bounds maxNameLength f hint fun hshown => by
    have := hname hshown
    omega
  have hwidth : tableWidth maxNameLength f = tableSum maxNameLength f := by
    by_cases hover : tableSum maxNameLength f < 2 ^ 31
    · rw [tableWidth_eq, toInt_of_lt (by omega) hover]
    · rw [tableWidth_eq, toInt_of_le (by omega) hlt] at htab
      omega
  have hhead : IsLine (tableWidth maxNameLength f) (drawn (tableHead maxNameLength f)) ↔
      (f.name = true → maxNameLength % 2 = 0) := by
    rw [isLine_iff getLast?_tableHead, length_drawn_tableHead hint hname, hwidth]
    cases f.name with
    | false => simp
    | true =>
      simp only [if_true, true_imp_iff]
      omega
  rw [← title_isLine_iff htab, ← hhead]
  exact ⟨fun h => ⟨h.title, h.head⟩, fun h => ⟨h.1, h.2⟩⟩

/-- A column of 32 characters for the names of the products. -/
theorem head_aligned_products : HeadAligned 32 (printedIn .products) (tabName .products) ∧
    SectionFits (label "UPC") 13 := by
  obtain ⟨hlines, hsections⟩ := head_aligned_iff 32 (by decide) (printedIn .products) (by decide)
    (tabName .products) (by decide)
  exact ⟨hlines.2 ⟨.inl (by decide), by decide⟩,
    (hsections (label "UPC") 13 (by decide) (by decide)).2 (by decide)⟩

end CliPos
