import CliPos.Model.Numerals
import Mathlib.Data.List.Sort
import Mathlib.Data.List.Lex

/-!
# The products table

`database_functions.cpp` over a table that one client reads and writes: a list of rows,
in the order the server finds them.  Every column is assumed non-null and in the range of
the type `get_product_data` reads it as.
-/

set_option autoImplicit false

namespace CliPos

open Decimal

/-- A row of the products table. -/
structure Row where
  name : Str
  code : ℤ
  price : ℚ
  discount : ℤ
  tax : Str
  stock : ℚ
  priceToStock : ℚ
  soldBy : ℤ
  deriving DecidableEq

/-- The products table. -/
abbrev Table := List Row

/-- What the program leaves to the database server: the order it gives rows of equal
names in `ORDER BY name ASC`, and what it makes of a statement whose name literal holds a
quote, so that its text is not the statement the program meant: the table it leaves, or
nothing when it rejects the text (`update` says which of the two statements of
`update_stock` it was). -/
structure Server where
  orderByName : Table → Table
  orderByName_perm : ∀ t, (orderByName t).Perm t
  orderByName_sorted : ∀ t, (orderByName t).Pairwise fun r r' => r.name ≤ r'.name
  quoted : (update : Bool) → Product → Table → Option Table

/-- `stock_size`. -/
def stockSize (t : Table) : ℤ := t.length

/-- The product a row describes, as `get_product_data` reads it. -/
def productOf (r : Row) : Product where
  name := r.name
  code := r.code
  price := r.price
  discount := r.discount
  priceAfterDiscount := r.price - r.price / 100 * r.discount
  tax := signedChar (r.tax.headD 0)
  stock := r.stock
  profit := r.price - r.priceToStock
  priceToStock := r.priceToStock
  soldBy := toMesurments r.soldBy

/-- The tax of a product that was read is the first character of its column. -/
theorem taxChar_productOf (r : Row) : (productOf r).taxChar = r.tax.headD 0 :=
  charOfKey_signedChar _

/-- `get_product_data`: the first row found under the code. -/
def getProductData (code : ℤ) (t : Table) : Except Exception Product :=
  match t.find? fun r => r.code = code with
  | none => .error .missingRow
  | some r => .ok (productOf r)

/-- The number of rows under a code. -/
def codeCount (code : ℤ) (t : Table) : ℕ := t.countP fun r => r.code = code

/-- `product_exists`: libpqxx converts the counts 0 and 1 to `bool`, and no other. -/
def productExists (code : ℤ) (t : Table) : Except Exception Bool :=
  if codeCount code t = 0 then .ok false
  else if codeCount code t = 1 then .ok true
  else .error .badCount

/-- The row that the statements of `update_stock` describe. -/
def rowOf (p : Product) : Row where
  name := p.name
  code := p.code
  price := sixDecimals p.price
  discount := p.discount
  tax := [p.taxChar]
  stock := sixDecimals p.stock
  priceToStock := sixDecimals p.priceToStock
  soldBy := p.soldBy.toInt

/-- `UPDATE ... WHERE code = p.code`. -/
def updateRows (p : Product) (t : Table) : Table :=
  t.map fun r => if r.code = p.code then rowOf p else r

/-- `INSERT`. -/
def insertRow (p : Product) (t : Table) : Table := t ++ [rowOf p]

/-- `update_stock`.  A tax literal that holds a quote is never closed, and a text ends at
a NUL byte: the server rejects both. -/
def updateStock (srv : Server) (p : Product) (t : Table) : Except Exception Table := do
  let update ← productExists p.code t
  if quote ∈ p.name then
    match srv.quoted update p t with
    | none => .error .sqlError
    | some t' => .ok t'
  else if 0 ∈ p.name ∨ p.taxChar = 0 ∨ p.taxChar = quote then .error .sqlError
  else if update then .ok (updateRows p t)
  else .ok (insertRow p t)

/-- `code_list`. -/
def codeList (srv : Server) (t : Table) : List ℤ := (srv.orderByName t).map Row.code

/-- `name_list`. -/
def nameList (srv : Server) (t : Table) : List Str := (srv.orderByName t).map Row.name

/-- `erase`. -/
def erase (code : ℤ) (t : Table) : Table := t.filter fun r => r.code ≠ code

/-- A server that keeps rows of equal names in the table's order and rejects statements
with a quote in them. -/
def strictServer : Server where
  orderByName t := t.insertionSort fun r r' => r.name ≤ r'.name
  orderByName_perm t := List.perm_insertionSort _ t
  orderByName_sorted t :=
    haveI : Std.Total (fun r r' : Row => r.name ≤ r'.name) := ⟨fun r r' => le_total r.name r'.name⟩
    haveI : IsTrans Row (fun r r' => r.name ≤ r'.name) := ⟨fun _ _ _ h h' => le_trans h h'⟩
    List.pairwise_insertionSort _ t
  quoted _ _ _ := none

/-! ## The table's operations -/

section

variable {srv : Server} {t : Table}

/-- There is a code for every row. -/
@[simp] theorem codeList_length : (codeList srv t).length = t.length := by
  simp [codeList, (srv.orderByName_perm t).length_eq]

/-- There is a name for every row. -/
@[simp] theorem nameList_length : (nameList srv t).length = t.length := by
  simp [nameList, (srv.orderByName_perm t).length_eq]

/-- The codes listed are those of the rows. -/
theorem mem_codeList {code : ℤ} : code ∈ codeList srv t ↔ ∃ r ∈ t, r.code = code := by
  simp [codeList, (srv.orderByName_perm t).mem_iff]

/-- The names are listed in their order. -/
theorem nameList_sorted : (nameList srv t).Pairwise (· ≤ ·) := by
  rw [nameList, List.pairwise_map]
  exact srv.orderByName_sorted t

/-- `get_product_data` fails exactly on the codes without a row. -/
theorem getProductData_eq_error {code : ℤ} {e : Exception} :
    getProductData code t = .error e ↔ e = .missingRow ∧ ∀ r ∈ t, r.code ≠ code := by
  unfold getProductData
  cases h : t.find? (fun r => r.code = code) with
  | none =>
    have hnone := List.find?_eq_none.1 h
    simp only [decide_eq_true_eq] at hnone
    constructor
    · rintro ⟨⟩
      exact ⟨rfl, hnone⟩
    · rintro ⟨rfl, -⟩
      rfl
  | some r =>
    have hr := List.find?_some h
    simp only [decide_eq_true_eq] at hr
    simp only [reduceCtorEq, false_iff, not_and]
    exact fun _ hall => hall r (List.mem_of_find?_eq_some h) hr

/-- A product that was read stands in a row of its code. -/
theorem getProductData_eq_ok {code : ℤ} {p : Product} (h : getProductData code t = .ok p) :
    ∃ r ∈ t, r.code = code ∧ p = productOf r := by
  unfold getProductData at h
  cases hf : t.find? (fun r => r.code = code) with
  | none => simp [hf] at h
  | some r =>
    simp only [hf, Except.ok.injEq] at h
    have hr := List.find?_some hf
    simp only [decide_eq_true_eq] at hr
    exact ⟨r, List.mem_of_find?_eq_some hf, hr, h.symm⟩

/-- It has the code that was asked for. -/
theorem getProductData_code {code : ℤ} {p : Product} (h : getProductData code t = .ok p) :
    p.code = code := by
  obtain ⟨r, -, hr, rfl⟩ := getProductData_eq_ok h
  exact hr

/-- A code that has a row is read. -/
theorem exists_getProductData {code : ℤ} (h : ∃ r ∈ t, r.code = code) :
    ∃ p, getProductData code t = .ok p := by
  cases hp : getProductData code t with
  | ok p => exact ⟨p, rfl⟩
  | error e =>
    obtain ⟨r, hr, hc⟩ := h
    exact absurd hc ((getProductData_eq_error.1 hp).2 r hr)

/-- A code is counted 0 times when no row has it. -/
theorem codeCount_eq_zero {code : ℤ} : codeCount code t = 0 ↔ ∀ r ∈ t, r.code ≠ code := by
  simp [codeCount]

/-- A code that `product_exists` finds has a row. -/
theorem exists_row_of_productExists {code : ℤ} (h : productExists code t = .ok true) :
    ∃ r ∈ t, r.code = code := by
  unfold productExists at h
  split_ifs at h with h0 h1
  · cases h
  · by_contra hnone
    exact h0 (codeCount_eq_zero.2 fun r hr hc => hnone ⟨r, hr, hc⟩)

/-- `product_exists` says yes of a code with one row only. -/
theorem codeCount_eq_one {code : ℤ} (h : productExists code t = .ok true) :
    codeCount code t = 1 := by
  unfold productExists at h
  split_ifs at h with h0 h1
  · cases h
  · exact h1

/-- It says no of a code without a row. -/
theorem codeCount_eq_zero_of_productExists {code : ℤ} (h : productExists code t = .ok false) :
    codeCount code t = 0 := by
  unfold productExists at h
  split_ifs at h with h0
  · exact h0
  · cases h

/-- An UPDATE leaves the number of rows. -/
@[simp] theorem updateRows_length {p : Product} : (updateRows p t).length = t.length := by
  simp [updateRows]

/-- An INSERT adds one. -/
@[simp] theorem insertRow_length {p : Product} : (insertRow p t).length = t.length + 1 := by
  simp [insertRow]

end

end CliPos
