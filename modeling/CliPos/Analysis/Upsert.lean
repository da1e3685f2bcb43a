import CliPos.Analysis.StoredText
import CliPos.Analysis.FormValues
import CliPos.Analysis.Store
import CliPos.Model.Statements
import CliPos.Lib.Keyed

/-!
# `update_stock` puts a row

The `UPDATE` and the `INSERT` name the columns in their own order, and `get_product_data`
reads them by position; all three agree on one row (`assign_update`, `assign_insert`,
`readProduct_rowOf`).  So on a table with distinct codes `update_stock` is `Keyed.put`, and
distinct codes are kept by everything the program does to the table.
-/

set_option autoImplicit false

namespace CliPos

open Decimal Halting Keyed

/-- No code has two rows. -/
abbrev DistinctCodes (t : Table) : Prop := Distinct Row.code t

/-! ## The statements -/

/-- The columns and values of the `UPDATE` are the ones in its text. -/
theorem updateStatement_render (p : Product) :
    updateStatement p = List.flatten [label "UPDATE products SET ",
      List.intercalate (label ", ") ((updateAssignments p).map fun a =>
        a.1.text ++ (label " = " ++ a.2.literal)),
      label " WHERE code = ", intText p.code, label ";"] := by
  have hname : label "name = " = label "name" ++ label " = " := rfl
  have hcode : label "code = " = label "code" ++ label " = " := rfl
  have hprice : label "price = " = label "price" ++ label " = " := rfl
  have hdiscount : label "discount = " = label "discount" ++ label " = " := rfl
  have htax : label "tax = " = label "tax" ++ label " = " := rfl
  have hstock : label "stock = " = label "stock" ++ label " = " := rfl
  have hpriceToStock : label "price_to_stock = " = label "price_to_stock" ++ label " = " := rfl
  have hsoldBy : label "sold_by = " = label "sold_by" ++ label " = " := rfl
  simp only [updateStatement, updateAssignments, List.map_cons, List.map_nil, Column.text,
    Value.literal, List.intercalate, List.intersperse, hname, hcode, hprice, hdiscount, htax,
    hstock, hpriceToStock, hsoldBy, List.flatten_cons, List.flatten_nil, List.append_assoc,
    List.append_nil]

/-- The columns and values of the `INSERT` are the ones in its text. -/
theorem insertStatement_render (p : Product) :
    insertStatement p = List.flatten [label "INSERT INTO products", label "(",
      List.intercalate (label ", ") (insertColumns.map Column.text), label ") VALUES (",
      List.intercalate (label ", ") ((insertValues p).map Value.literal), label ");"] := by
  have hcolumns :
      label "(name, code, price, discount, tax, stock, price_to_stock, sold_by) VALUES (" =
        List.flatten [label "(", List.intercalate (label ", ") (insertColumns.map Column.text),
          label ") VALUES ("] := by
    decide +kernel
  simp only [insertStatement, hcolumns, insertValues, List.map_cons, List.map_nil, Value.literal,
    List.intercalate, List.intersperse, List.flatten_cons, List.flatten_nil, List.append_assoc,
    List.append_nil]

/-- **The `UPDATE` writes the row of the product**, over whatever the row was. -/
theorem assign_update (r : Row) (p : Product) : r.assign (updateAssignments p) = rowOf p := rfl

/-- **The `INSERT` writes the row of the product**, whatever the defaults are. -/
theorem assign_insert (r : Row) (p : Product) :
    r.assign (insertColumns.zip (insertValues p)) = rowOf p := rfl

/-! ## Reading back -/

/-- The numbers that `as<short int>` accepts. -/
def IsShort (z : ℤ) : Prop := -32768 ≤ z ∧ z ≤ 32767

/-- **The fields read by position** are the product that the row describes. -/
theorem readProduct_eq {r : Row} (hdiscount : IsShort r.discount) (hsoldBy : IsShort r.soldBy) :
    readProduct r = some (productOf r) := by
  have hshort : ∀ {z : ℤ}, IsShort z → Value.asShort (.integer z) = some z := fun h => if_pos h
  simp only [readProduct, Row.field, columns, Row.value, List.getElem?_cons_zero,
    List.getElem?_cons_succ, Option.map_some, Value.asString, Value.asLong, Value.asDouble,
    hshort hdiscount, hshort hsoldBy, Option.bind_eq_bind, Option.bind_some]
  rfl

/-- A discount that does not fit is not read. -/
theorem readProduct_eq_none {r : Row} (hdiscount : ¬IsShort r.discount) : readProduct r = none := by
  have hshort : Value.asShort (.integer r.discount) = none := if_neg hdiscount
  simp only [readProduct, Row.field, columns, Row.value, List.getElem?_cons_zero,
    List.getElem?_cons_succ, Option.map_some, Value.asString, Value.asLong, Value.asDouble,
    hshort, Option.bind_eq_bind, Option.bind_some, Option.bind_none]

/-- A measurement fits its column. -/
theorem isShort_toInt (m : Mesurments) : IsShort m.toInt := by
  cases m <;> exact ⟨by decide, by decide⟩

/-- What is read from the row that a product was written to. -/
theorem readProduct_rowOf {p : Product} (hdiscount : IsShort p.discount) :
    readProduct (rowOf p) = some (productOf (rowOf p)) :=
  readProduct_eq hdiscount (isShort_toInt p.soldBy)

/-- **The form saves discounts below a hundred**: its prompt takes two characters. -/
theorem formSaves_isShort {maxNameLength code : ℤ} {modify : Bool} {t : Table} {keys : List Key}
    {p : Product} (h : FormSaves maxNameLength code modify t keys p) : IsShort p.discount := by
  obtain ⟨h0, h99⟩ := (formSaves_validNumbers h).discount
  exact ⟨by omega, by omega⟩

/-- The numbers that a `char` holds. -/
def IsChar (z : ℤ) : Prop := -128 ≤ z ∧ z ≤ 127

/-- A character is a number of the type. -/
theorem isChar_signedChar (b : Byte) : IsChar (signedChar b) :=
  (signedChar_charOfKey_iff _).1 (congrArg signedChar (charOfKey_signedChar b))

/-- The tax of the answers is the first character of its text. -/
theorem toProduct_tax {a : Answers} {p q : Product} (h : a.toProduct q = .ok p) :
    p.tax = signedChar (a.tax.headD 0) := by
  unfold Answers.toProduct at h
  obtain ⟨code, -, h⟩ := except_bind_eq_ok.1 h
  obtain ⟨price, -, h⟩ := except_bind_eq_ok.1 h
  obtain ⟨discount, -, h⟩ := except_bind_eq_ok.1 h
  obtain ⟨stock, -, h⟩ := except_bind_eq_ok.1 h
  obtain ⟨priceToStock, -, h⟩ := except_bind_eq_ok.1 h
  obtain rfl := Except.ok.inj h
  rfl

/-- **The form saves a character as tax.** -/
theorem formSaves_isChar {maxNameLength code : ℤ} {modify : Bool} {t : Table} {keys : List Key}
    {p : Product} (h : FormSaves maxNameLength code modify t keys p) : IsChar p.tax := by
  obtain ⟨q, answers, rest, -, -, hproduct⟩ := h
  rw [toProduct_tax hproduct]
  exact isChar_signedChar _

/-! ## The table -/

section

variable {srv : Server} {p : Product} {t t' : Table}

/-- The rows of a code are counted. -/
theorem codeCount_eq (code : ℤ) (t : Table) :
    codeCount code t = (rowsUnder Row.code code t).length :=
  List.countP_eq_length_filter

/-- An `erase` keeps the rows of the other codes. -/
theorem erase_eq_others (code : ℤ) (t : Table) : erase code t = others Row.code code t := rfl

/-- **Distinct codes** are what `product_exists` can count. -/
theorem distinctCodes_iff :
    DistinctCodes t ↔ ∀ code, ∃ found, productExists code t = .ok found := by
  refine distinct_iff.trans (forall_congr' fun code => ?_)
  rw [← codeCount_eq]
  unfold productExists
  split_ifs with h0 h1
  · exact iff_of_true (by omega) ⟨_, rfl⟩
  · exact iff_of_true (by omega) ⟨_, rfl⟩
  · refine iff_of_false (by omega) ?_
    rintro ⟨_, ⟨⟩⟩

/-- Rows are written where `product_exists` finds one, and added where it finds none. -/
theorem exists_code_iff {code : ℤ} :
    (∃ r ∈ t, r.code = code) ↔ codeCount code t ≠ 0 := by
  rw [ne_eq, codeCount_eq_zero]
  push Not
  rfl

/-- **`update_stock` puts the row of the product.** -/
theorem updateStock_eq_put (hquote : quote ∉ p.name) (h : updateStock srv p t = .ok t') :
    t' = put Row.code (rowOf p) t := by
  obtain ⟨hexists, rfl⟩ | ⟨hexists, rfl⟩ := updateStock_eq_ok hquote h
  · have hrow : ∃ r ∈ t, r.code = (rowOf p).code := exists_row_of_productExists hexists
    rw [put, if_pos hrow]
    rfl
  · have hnone : ¬∃ r ∈ t, r.code = (rowOf p).code := fun hrow =>
      exists_code_iff.1 hrow (codeCount_eq_zero_of_productExists hexists)
    rw [put, if_neg hnone]
    rfl

/-- On distinct codes a product without quotes and NUL bytes is saved. -/
theorem updateStock_ok (srv : Server) (hdistinct : DistinctCodes t)
    (h : StoredAsData (updateStatement p) p.name p.taxChar) (hname : 0 ∉ p.name)
    (htax : p.taxChar ≠ 0) :
    ∃ t', updateStock srv p t = .ok t' := by
  obtain ⟨found, hfound⟩ := distinctCodes_iff.1 hdistinct p.code
  rw [updateStock_of_storedAsData h hname htax, hfound]
  exact ⟨_, rfl⟩

/-- The product that is read back, where its numbers are stored as they are. -/
def readBack (p : Product) : Product :=
  { p with
    priceAfterDiscount := p.price - p.price / 100 * p.discount
    profit := p.price - p.priceToStock }

/-- A product of six decimals whose tax is a `char` is read back, but for what is computed. -/
theorem productOf_rowOf (hprice : sixDecimals p.price = p.price)
    (hstock : sixDecimals p.stock = p.stock)
    (hpriceToStock : sixDecimals p.priceToStock = p.priceToStock) (htax : IsChar p.tax) :
    productOf (rowOf p) = readBack p := by
  have hkept : signedChar p.taxChar = p.tax := (signedChar_charOfKey_iff p.tax).2 htax
  simp only [productOf, rowOf, readBack, hprice, hstock, hpriceToStock, toMesurments_toInt,
    List.headD_cons, hkept]

/-- **The row put is the one read** under its code. -/
theorem readProductData_put (hdistinct : DistinctCodes t) (p : Product) :
    readProductData p.code (put Row.code (rowOf p) t) = readProduct (rowOf p) := by
  have hfind : (put Row.code (rowOf p) t).find? (fun r => r.code = p.code) = some (rowOf p) := by
    rw [← List.head?_filter]
    have h := hdistinct.rowsUnder_put (rowOf p)
    exact congrArg List.head? h
  rw [readProductData, hfind]
  rfl

end

/-! ## Runs -/

/-- Everything a command does to the table keeps its codes distinct, when it saves no name
with a quote. -/
theorem distinctCodes_step {srv : Server} {lines : ℤ} {c : Command} {w w' : World}
    (h : DistinctCodes w.table) (hquote : NoQuote srv c w) (hstep : StoreStep srv lines c w w') :
    DistinctCodes w'.table := by
  cases hstep with
  | quiet basket table history => rwa [table]
  | erased code command tab selected basket table history =>
    rw [table, erase_eq_others]
    exact h.others code
  | removed code basket' command tab selected taken basket table history => rwa [table]
  | saved p saves basket table history =>
    rw [updateStock_eq_put (hquote p saves) table]
    exact h.put (rowOf p)
  | added p flag adds row basket table history => rwa [table]
  | checkedOut command basket table history => rwa [table]

/-- **Codes stay distinct** over every run that saves no name with a quote. -/
theorem distinctCodes_run {srv : Server} {lines : ℤ} {w₀ w : World}
    (h : DistinctCodes w₀.table) (hrun : RunsWhere srv lines (NoQuote srv) w₀ w) :
    DistinctCodes w.table := by
  refine Runs.inv (P := fun w => DistinctCodes w.table) hrun h fun t t' ht hok hit => ?_
  exact iteration_store (P := fun w => DistinctCodes w.table) (fun _ _ _ ht _ hv => ht ▸ hv)
    (fun _ _ _ hmem hv hstep => distinctCodes_step hv (hok _ hmem) hstep) ht hit

/-- They are distinct at every command of the next iteration, too. -/
theorem distinctCodes_trace {srv : Server} {lines : ℤ} {w v : World} {c : Command}
    (h : DistinctCodes w.table)
    (hquote : ∀ e ∈ iterationTrace srv lines w, NoQuote srv e.1 e.2)
    (hmem : (c, v) ∈ iterationTrace srv lines w) : DistinctCodes v.table :=
  trace_store (P := fun w => DistinctCodes w.table) (fun _ _ _ ht _ hv => ht ▸ hv)
    (fun _ _ _ hmem hv hstep => distinctCodes_step hv (hquote _ hmem) hstep) h hmem

/-! ## The upsert -/

/-- A number with at most six decimals. -/
def HasSixPlaces (x : ℚ) : Prop := ∃ n : ℤ, x = n / 10 ^ 6

/-- The product was put into the table: its codes are distinct, the rows of other codes are
what they were, there is a row more exactly when the code is new, its row is the one both
statements describe, and it is read back with all its fields. -/
structure Upserted (p : Product) (t t' : Table) : Prop where
  distinct : DistinctCodes t'
  others : others Row.code p.code t' = others Row.code p.code t
  count : t'.length = t.length + if ∃ r ∈ t, r.code = p.code then 0 else 1
  row : rowsUnder Row.code p.code t' = [rowOf p]
  read : readProductData p.code t' = some (readBack p)

/-- A discount that a short does not hold is stored, and not read back; a tax that a
character does not hold is read back as another, 44 for 300. -/
theorem wide_fields_unread :
    (¬∀ (t t' : Table) (p : Product), DistinctCodes t → quote ∉ p.name → p.taxChar ≠ quote →
      HasSixPlaces p.price → HasSixPlaces p.stock → HasSixPlaces p.priceToStock →
      IsChar p.tax → updateStock strictServer p t = .ok t' → Upserted p t t') ∧
    ¬∀ (t t' : Table) (p : Product), DistinctCodes t → quote ∉ p.name → p.taxChar ≠ quote →
      HasSixPlaces p.price → HasSixPlaces p.stock → HasSixPlaces p.priceToStock →
      IsShort p.discount → updateStock strictServer p t = .ok t' → Upserted p t t' := by
  constructor
  · intro h
    let p : Product := ⟨label "bread", 1, 2, 40000, 0, 65, 5, 1, 1, .piece⟩
    have hread := (h [] [rowOf p] p (by decide) (by decide) (by decide) ⟨2000000, by norm_num [p]⟩
      ⟨5000000, by norm_num [p]⟩ ⟨1000000, by norm_num [p]⟩ (by unfold IsChar; decide) rfl).read
    have hnone : readProductData p.code [rowOf p] = none :=
      readProduct_eq_none (r := rowOf p) (by unfold IsShort; decide)
    rw [hnone] at hread
    cases hread
  · intro h
    let p : Product := ⟨label "bread", 1, 2, 10, 0, 300, 5, 1, 1, .piece⟩
    have hread := (h [] [rowOf p] p (by decide) (by decide) (by decide) ⟨2000000, by norm_num [p]⟩
      ⟨5000000, by norm_num [p]⟩ ⟨1000000, by norm_num [p]⟩ (by unfold IsShort; decide) rfl).read
    have htax := congrArg (Option.map Product.tax) hread
    have hfound : (readProductData p.code [rowOf p]).map Product.tax = some 44 := by
      decide +kernel
    rw [hfound] at htax
    exact absurd htax (by decide)

/-- **`update_stock` is an upsert**, on every table with distinct codes, for every product
without a quote in its name whose decimals fit, whose discount is a short and whose tax is a
character, as those of every product of the form are; both its statements write the same
row, and it fails only for a quote or a NUL byte.  So in every run that saves no name with a
quote, `product_exists` finds one row of a code or none. -/
theorem update_stock_upserts (srv : Server) :
    (∀ (t t' : Table) (p : Product), DistinctCodes t → quote ∉ p.name →
      HasSixPlaces p.price → HasSixPlaces p.stock → HasSixPlaces p.priceToStock →
      IsShort p.discount → IsChar p.tax → updateStock srv p t = .ok t' → Upserted p t t') ∧
    (∀ (r r' : Row) (p : Product),
      r.assign (updateAssignments p) = r'.assign (insertColumns.zip (insertValues p))) ∧
    (∀ (t : Table) (p : Product), DistinctCodes t → quote ∉ p.name → p.taxChar ≠ quote →
      0 ∉ p.name → p.taxChar ≠ 0 → ∃ t', updateStock srv p t = .ok t') ∧
    (∀ (maxNameLength code : ℤ) (modify : Bool) (t : Table) (keys : List Key) (p : Product),
      FormSaves maxNameLength code modify t keys p → IsShort p.discount ∧ IsChar p.tax) ∧
    ∀ (lines : ℤ) (w₀ w : World), DistinctCodes w₀.table →
      RunsWhere srv lines (NoQuote srv) w₀ w →
      (∀ e ∈ iterationTrace srv lines w, NoQuote srv e.1 e.2) →
      ∀ v, (v = w ∨ ∃ c, (c, v) ∈ iterationTrace srv lines w) →
        ∀ code, ∃ found, productExists code v.table = .ok found := by
  refine ⟨?_, ?_, ?_, fun _ _ _ _ _ _ h => ⟨formSaves_isShort h, formSaves_isChar h⟩, ?_⟩
  · rintro t t' p hdistinct hquote ⟨n, hprice⟩ ⟨m, hstock⟩ ⟨k, hpriceToStock⟩ hdiscount htax h
    obtain rfl := updateStock_eq_put hquote h
    have hproduct := productOf_rowOf (sixDecimals_exact hprice) (sixDecimals_exact hstock)
      (sixDecimals_exact hpriceToStock) htax
    exact
      { distinct := hdistinct.put (rowOf p)
        others := others_put (rowOf p) t
        count := length_put (rowOf p) t
        row := hdistinct.rowsUnder_put (rowOf p)
        read := by rw [readProductData_put hdistinct, readProduct_rowOf hdiscount, hproduct] }
  · intro r r' p
    rw [assign_update, assign_insert]
  · intro t p hdistinct hname htax hnul htaxNul
    exact updateStock_ok srv hdistinct ((storedAsData_updateStatement p).2 ⟨hname, htax⟩) hnul
      htaxNul
  · intro lines w₀ w h hrun hquote v hv
    have hreached := distinctCodes_run h hrun
    rcases hv with rfl | ⟨c, hmem⟩
    · exact distinctCodes_iff.1 hreached
    · exact distinctCodes_iff.1 (distinctCodes_trace hreached hquote hmem)

/-- The bread is saved at a new price into a table that has it. -/
theorem update_stock_upserts_bread :
    Upserted ⟨label "bread", 1, 2.5, 10, 0, 65, 5, 1, 1, .piece⟩ [bread, milk]
      [{ bread with price := 2.5 }, milk] ∧
    ∀ code, ∃ found, productExists code [bread, milk] = .ok found := by
  obtain ⟨hput, -, -, -, hruns⟩ := update_stock_upserts strictServer
  constructor
  · exact hput [bread, milk] _ _ (by decide) (by decide) ⟨2500000, by norm_num⟩
      ⟨5000000, by norm_num⟩ ⟨1000000, by norm_num⟩ (by unfold IsShort; decide)
      (by unfold IsChar; decide) (by decide +kernel)
  · have hwaits : iterationTrace strictServer 11 (boot [bread, milk] [] ⟨[], []⟩ []) = [] := by
      decide +kernel
    refine hruns 11 _ (boot [bread, milk] [] ⟨[], []⟩ []) (by decide) .refl ?_ _ (.inl rfl)
    rw [hwaits]
    simp

end CliPos
