import CliPos.Model.ReceiptText
import CliPos.Lib.ControlCodes
import CliPos.Analysis.Readback
import CliPos.Analysis.ReceiptTotal

/-!
# The printer's stream

The sequence that should set the text to the left is written as a C string that ends in its
own NUL operand, so the operand is lost and the printer takes the byte that follows: the
first dash of the first rule.  Everything else in the stream is read as it was meant
(`receipt_stream`), so on no receipt is the stream the one that was meant.
-/

set_option autoImplicit false

namespace CliPos

open Decimal Halting ControlCodes

/-- `ESC @` stands alone, `ESC a` and `ESC !` take an operand. -/
def escArity (code : Byte) : Option Arity :=
  if code = 64 then some .none else if code = 97 ∨ code = 33 then some .one else none

/-- A text of printable characters. -/
def Printable (s : Str) : Prop := ∀ b ∈ s, isprint b = true

/-- Whether a text is printable can be tested, character by character. -/
instance (s : Str) : Decidable (Printable s) := List.decidableBAll (fun b => isprint b = true) s

/-- The texts of the receipt, between its commands: the shop data, the rules with the items,
the total, and the newlines at the end. -/
def receiptBody (s : Settings) (r : Receipt) : Str :=
  ruleLine s.maxNameLength ++ itemsText s.maxNameLength r.lines

/-- The stream that was meant: the receipt's texts, with the commands to start, centre,
start, go left, print wide and start. -/
def StreamMeant (shop : ShopData) (s : Settings) (r : Receipt) (stream : Str) : Prop :=
  ∃ items, parse esc escArity stream = some items ∧
    controls items = [.plain 64, .operand 97 1, .plain 64, .operand 97 0, .operand 33 32,
      .plain 64] ∧
    texts items = headerText shop ++ (receiptBody s r ++ (totalText r.total ++
      appendNr s.nrOfNewlines [newline]))

/-! ## Texts without ESC -/

/-- No byte of the text starts a command. -/
abbrev NoEsc (s : Str) : Prop := Avoids [esc] s

/-- A printable text has no ESC. -/
theorem Printable.noEsc {s : Str} (h : Printable s) : NoEsc s := by
  intro b hb hmem
  obtain rfl := List.mem_singleton.1 hb
  exact absurd (h esc hmem) (by decide)

/-- Neither has a text repeated. -/
theorem noEsc_appendNr {str : Str} (h : NoEsc str) (i : ℤ) : NoEsc (appendNr i str) := by
  refine avoids_flatten.2 fun s hs => ?_
  rwa [List.eq_of_mem_replicate hs]

/-- Neither has a number. -/
theorem noEsc_fixedText (k : ℕ) (x : ℚ) : NoEsc (fixedText k x) := avoids_fixedText (by decide) k x

/-- Neither has the header of a shop whose texts are printable. -/
theorem noEsc_headerText {shop : ShopData} (hname : Printable shop.name)
    (haddres : Printable shop.addres) (hcode : Printable shop.code) : NoEsc (headerText shop) := by
  refine avoids_flatten.2 ?_
  simp only [List.forall_mem_cons, hname.noEsc, haddres.noEsc, hcode.noEsc, true_and]
  decide

/-- Neither has a rule. -/
theorem noEsc_ruleLine (maxNameLength : ℤ) : NoEsc (ruleLine maxNameLength) :=
  (noEsc_appendNr (by decide) _).append (by decide)

/-- Neither has the total. -/
theorem noEsc_totalText (total : ℚ) : NoEsc (totalText total) := by
  refine avoids_flatten.2 ?_
  simp only [List.forall_mem_cons, noEsc_fixedText, true_and]
  decide

/-- Neither has an item whose name and tax letter are printable. -/
theorem noEsc_itemText {l : ReceiptLine} (hname : Printable l.product.name)
    (htax : isprint l.product.taxChar = true) (maxNameLength : ℤ) :
    NoEsc (itemText maxNameLength l) := by
  have hspaces : ∀ i, NoEsc (appendNr i [space]) := noEsc_appendNr (by decide)
  have hunit : NoEsc (soldByName l.product.soldBy) := by cases l.product.soldBy <;> decide
  have htaxes : Printable [l.product.taxChar] := by simpa [Printable] using htax
  have hdetail : NoEsc (itemDetail l) := by
    refine avoids_flatten.2 ?_
    simp only [List.forall_mem_cons, noEsc_fixedText, hunit, true_and]
    decide
  refine avoids_flatten.2 ?_
  simp only [List.forall_mem_cons, hname.noEsc, hspaces, hdetail, htaxes.noEsc, true_and]
  decide

/-- Neither has a discount line. -/
theorem noEsc_discountText (l : ReceiptLine) : NoEsc (discountText l) := by
  have hdiscount : NoEsc (intText l.product.discount) := avoids_intText (by decide) _
  unfold discountText
  split
  · decide
  · refine avoids_flatten.2 ?_
    simp only [List.forall_mem_cons, noEsc_fixedText, hdiscount, true_and]
    decide

/-- Neither have the items. -/
theorem noEsc_itemsText {lines : List ReceiptLine} (maxNameLength : ℤ)
    (h : ∀ l ∈ lines, Printable l.product.name ∧ isprint l.product.taxChar = true) :
    NoEsc (itemsText maxNameLength lines) := by
  rw [itemsText, List.flatMap_def]
  refine avoids_flatten.2 fun text htext => ?_
  obtain ⟨l, hl, rfl⟩ := List.mem_map.1 htext
  exact (noEsc_itemText (h l hl).1 (h l hl).2 maxNameLength).append
    ((noEsc_discountText l).append (noEsc_ruleLine maxNameLength))

/-! ## The stream -/

/-- The NUL operand is not part of the string that is appended. -/
theorem initLeft_eq : initLeft = [esc, 64, esc, 97] := by decide

/-- What follows starts with a dash or, without dashes, with a newline. -/
theorem exists_receiptBody (s : Settings) (r : Receipt) :
    ∃ b body, receiptBody s r = b :: body ∧ (b = minus ∨ b = newline) := by
  unfold receiptBody ruleLine appendNr
  cases (toInt (s.maxNameLength + 1)).toNat with
  | zero => exact ⟨newline, _, rfl, .inr rfl⟩
  | succ n => exact ⟨minus, _, rfl, .inl rfl⟩

/-- **The stream of any texts without ESC**: the first byte behind `ESC a` is its operand. -/
theorem parse_stream {header body total newlines : Str} {b : Byte} (hheader : NoEsc header)
    (hbody : NoEsc body) (htotal : NoEsc total) (hnewlines : NoEsc newlines) :
    parse esc escArity (initPrinter ++ (centred ++ (header ++ (initLeft ++ (b :: body ++
        (wideText ++ (total ++ (initPrinter ++ newlines)))))))) =
      some (.plain 64 :: .operand 97 1 :: (header.map .text ++ .plain 64 :: .operand 97 b ::
        (body.map .text ++ .operand 33 32 :: (total.map .text ++ .plain 64 ::
          (newlines.map .text ++ []))))) := by
  have hinit : escArity 64 = some .none := by decide
  have hjustify : escArity 97 = some .one := by decide
  have hwide : escArity 33 = some .one := by decide
  have hend : parse esc escArity (newlines ++ []) =
      (parse esc escArity []).map (newlines.map .text ++ ·) :=
    parse_text (hnewlines esc (by simp)) []
  rw [List.append_nil] at hend
  have hinitPrinter : initPrinter = [esc, 64] := by decide
  have hcentred : centred = [esc, 97, 1] := by decide
  have hwideText : wideText = [esc, 33, 32] := by decide
  simp only [initLeft_eq, hinitPrinter, hcentred, hwideText, List.cons_append, List.nil_append,
    parse_plain hinit, parse_operand hjustify, parse_operand hwide,
    parse_text (hheader esc (by simp)), parse_text (hbody esc (by simp)),
    parse_text (htotal esc (by simp)), hend, parse_nil, Option.map_some]

/-- The items of a receipt are printed from rows of the table. -/
theorem product_of_mem_receiptLines {basket : List BasketProduct} {t : Table}
    {lines : List ReceiptLine} (h : receiptLines basket t = .ok lines) {l : ReceiptLine}
    (hl : l ∈ lines) : ∃ r ∈ t, l.product = productOf r := by
  induction basket generalizing lines with
  | nil =>
    obtain rfl := Except.ok.inj h
    cases hl
  | cons b basket ih =>
    obtain ⟨p, hp, h⟩ := except_bind_eq_ok.1 h
    obtain ⟨rest, hrest, h⟩ := except_bind_eq_ok.1 h
    obtain rfl := Except.ok.inj h
    rcases List.mem_cons.1 hl with rfl | hl
    · obtain ⟨r, hr, -, rfl⟩ := getProductData_eq_ok hp
      exact ⟨r, hr, rfl⟩
    · exact ih hrest hl

/-- **The stream of a receipt without ESC in its texts.** -/
theorem parse_receiptData {shop : ShopData} {s : Settings} {r : Receipt}
    (hheader : NoEsc (headerText shop))
    (hitems : NoEsc (itemsText s.maxNameLength r.lines)) :
    ∃ items b body, receiptBody s r = b :: body ∧ (b = minus ∨ b = newline) ∧
      parse esc escArity (receiptData shop s r) = some items ∧
      controls items = [.plain 64, .operand 97 1, .plain 64, .operand 97 b, .operand 33 32,
        .plain 64] ∧
      texts items = headerText shop ++ (body ++ (totalText r.total ++
        appendNr s.nrOfNewlines [newline])) := by
  obtain ⟨b, body, hbody, hb⟩ := exists_receiptBody s r
  have hnoEsc : NoEsc (b :: body) := hbody ▸ (noEsc_ruleLine s.maxNameLength).append hitems
  have hbodyTail : NoEsc body := fun c hc hmem => hnoEsc c hc (List.mem_cons_of_mem _ hmem)
  have hdata : receiptData shop s r = initPrinter ++ (centred ++ (headerText shop ++ (initLeft ++
      (b :: body ++ (wideText ++ (totalText r.total ++ (initPrinter ++
        appendNr s.nrOfNewlines [newline]))))))) := by
    rw [← hbody]
    simp only [receiptData, receiptBody, List.flatten_cons, List.flatten_nil, List.append_assoc,
      List.append_nil]
  have hnewline : NoEsc [newline] := by decide
  have hparse := parse_stream (b := b) hheader hbodyTail (noEsc_totalText r.total)
    (noEsc_appendNr hnewline s.nrOfNewlines)
  rw [← hdata] at hparse
  refine ⟨_, b, body, hbody, hb, hparse, ?_, ?_⟩
  · simp only [controls_plain, controls_operand, controls_text]
    rfl
  · simp only [texts_plain, texts_operand, texts_text]
    simp [texts]

/-- A loaf at 2.00: the stream starts, centres, starts, and justifies by a dash. -/
theorem left_justify_lost : ∃ items,
    parse esc escArity (receiptData shopData defaultSettings ⟨[⟨productOf bread, 1⟩], 1.8⟩) =
        some items ∧
      controls items = [.plain 64, .operand 97 1, .plain 64, .operand 97 minus, .operand 33 32,
        .plain 64] ∧
      ¬StreamMeant shopData defaultSettings ⟨[⟨productOf bread, 1⟩], 1.8⟩
        (receiptData shopData defaultSettings ⟨[⟨productOf bread, 1⟩], 1.8⟩) := by
  obtain ⟨items, b, body, hbody, -, hparse, hcontrols, -⟩ :=
    @parse_receiptData shopData defaultSettings ⟨[⟨productOf bread, 1⟩], 1.8⟩
      (by decide +kernel) (by decide +kernel)
  have hhead : (receiptBody defaultSettings ⟨[⟨productOf bread, 1⟩], 1.8⟩).head? = some minus := by
    decide +kernel
  rw [hbody] at hhead
  obtain rfl := Option.some.inj hhead
  refine ⟨items, hparse, hcontrols, ?_⟩
  rintro ⟨items', hparse', hmeant, -⟩
  obtain rfl := Option.some.inj (hparse.symm.trans hparse')
  rw [hcontrols] at hmeant
  cases hmeant

/-- **The stream of a receipt** is read with the first byte of the first rule as the operand
of the lost left justification, and with everything else as it was meant; so on no receipt
of printable texts is it the stream that was meant. -/
theorem receipt_stream (shop : ShopData) (s : Settings) (basket : List BasketProduct) (t : Table)
    (lines : List ReceiptLine) (total : ℚ) (hname : Printable shop.name)
    (haddres : Printable shop.addres) (hcode : Printable shop.code)
    (htable : ∀ r ∈ t, Printable r.name ∧ isprint (r.tax.headD 0) = true)
    (hlines : receiptLines basket t = .ok lines) :
    (∃ items b body, receiptBody s ⟨lines, total⟩ = b :: body ∧ (b = minus ∨ b = newline) ∧
      parse esc escArity (receiptData shop s ⟨lines, total⟩) = some items ∧
      controls items = [.plain 64, .operand 97 1, .plain 64, .operand 97 b, .operand 33 32,
        .plain 64] ∧
      texts items = headerText shop ++ (body ++ (totalText total ++
        appendNr s.nrOfNewlines [newline]))) ∧
    ¬StreamMeant shop s ⟨lines, total⟩ (receiptData shop s ⟨lines, total⟩) := by
  have hitems : NoEsc (itemsText s.maxNameLength lines) := by
    refine noEsc_itemsText s.maxNameLength fun l hl => ?_
    obtain ⟨r, hr, hproduct⟩ := product_of_mem_receiptLines hlines hl
    rw [hproduct]
    obtain ⟨hprintable, htax⟩ := htable r hr
    exact ⟨hprintable, by rwa [taxChar_productOf]⟩
  have hheader := noEsc_headerText hname haddres hcode
  have hread := parse_receiptData (r := ⟨lines, total⟩) hheader hitems
  refine ⟨hread, ?_⟩
  obtain ⟨items, b, body, -, hb, hparse, hcontrols, -⟩ := hread
  rintro ⟨items', hparse', hmeant, -⟩
  obtain rfl := Option.some.inj (hparse.symm.trans hparse')
  rw [hcontrols] at hmeant
  rcases hb with rfl | rfl <;> cases hmeant

/-- The stream of a receipt with one loaf is not the one that was meant. -/
theorem receipt_stream_bread :
    ¬StreamMeant shopData defaultSettings ⟨[⟨productOf bread, 1⟩], 1.8⟩
      (receiptData shopData defaultSettings ⟨[⟨productOf bread, 1⟩], 1.8⟩) := by
  have htable : ∀ r ∈ [bread], Printable r.name ∧ isprint (r.tax.headD 0) = true := by decide
  exact (receipt_stream shopData defaultSettings [⟨1, 1⟩] [bread] [⟨productOf bread, 1⟩] 1.8
    (by decide) (by decide) (by decide) htable rfl).2

end CliPos
