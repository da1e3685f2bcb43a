import CliPos.Model.TwoForms
import CliPos.Analysis.Accept

/-!
# Editing a product

A user changes some fields of a product and accepts what the other prompts show (`Edit`).
The form then writes all of the row back, as it was when the form was opened, with the
changes in it (`filledForm_eq`).
-/

set_option autoImplicit false

namespace CliPos

open Decimal Halting

/-! ## Edits -/

/-- The columns that a user changes, with their new values. -/
structure Edit where
  name : Option Str
  price : Option ℚ
  discount : Option ℤ
  tax : Option Str
  stock : Option ℚ
  priceToStock : Option ℚ
  soldBy : Option ℤ

namespace Edit

/-- The row with the changes in it; the code stays. -/
def apply (e : Edit) (r : Row) : Row where
  name := e.name.getD r.name
  code := r.code
  price := e.price.getD r.price
  discount := e.discount.getD r.discount
  tax := e.tax.getD r.tax
  stock := e.stock.getD r.stock
  priceToStock := e.priceToStock.getD r.priceToStock
  soldBy := e.soldBy.getD r.soldBy

/-- The row has the value of every change. -/
structure Holds (e : Edit) (r : Row) : Prop where
  name : ∀ x ∈ e.name, r.name = x
  price : ∀ x ∈ e.price, r.price = x
  discount : ∀ x ∈ e.discount, r.discount = x
  tax : ∀ x ∈ e.tax, r.tax = x
  stock : ∀ x ∈ e.stock, r.stock = x
  priceToStock : ∀ x ∈ e.priceToStock, r.priceToStock = x
  soldBy : ∀ x ∈ e.soldBy, r.soldBy = x

/-- No column is changed by both. -/
structure Disjoint (e e' : Edit) : Prop where
  name : e.name = none ∨ e'.name = none
  price : e.price = none ∨ e'.price = none
  discount : e.discount = none ∨ e'.discount = none
  tax : e.tax = none ∨ e'.tax = none
  stock : e.stock = none ∨ e'.stock = none
  priceToStock : e.priceToStock = none ∨ e'.priceToStock = none
  soldBy : e.soldBy = none ∨ e'.soldBy = none

variable {e e' : Edit} {r : Row}

/-- To be disjoint goes both ways. -/
theorem Disjoint.symm (h : e.Disjoint e') : e'.Disjoint e :=
  ⟨h.name.symm, h.price.symm, h.discount.symm, h.tax.symm, h.stock.symm, h.priceToStock.symm,
    h.soldBy.symm⟩

/-- A change makes the value it is a change to. -/
theorem getD_of_mem {α : Type} {change : Option α} {old : α} :
    ∀ x ∈ change, change.getD old = x := by
  rintro x ⟨⟩
  rfl

/-- A change of another column is not seen in this one. -/
theorem getD_iff {α : Type} {change other : Option α} {old : α}
    (h : change = none ∨ other = none) :
    (∀ x ∈ change, other.getD old = x) ↔ ∀ x ∈ change, old = x := by
  rcases h with rfl | rfl
  · simp
  · rfl

/-- **A row with the changes in it** has their values. -/
theorem holds_apply (e : Edit) (r : Row) : e.Holds (e.apply r) :=
  ⟨getD_of_mem, getD_of_mem, getD_of_mem, getD_of_mem, getD_of_mem, getD_of_mem, getD_of_mem⟩

/-- **Changes of other columns** make no difference. -/
theorem holds_apply_iff (h : e.Disjoint e') : e.Holds (e'.apply r) ↔ e.Holds r := by
  constructor
  · intro hh
    exact ⟨(getD_iff h.name).1 hh.name, (getD_iff h.price).1 hh.price,
      (getD_iff h.discount).1 hh.discount, (getD_iff h.tax).1 hh.tax,
      (getD_iff h.stock).1 hh.stock, (getD_iff h.priceToStock).1 hh.priceToStock,
      (getD_iff h.soldBy).1 hh.soldBy⟩
  · intro hh
    exact ⟨(getD_iff h.name).2 hh.name, (getD_iff h.price).2 hh.price,
      (getD_iff h.discount).2 hh.discount, (getD_iff h.tax).2 hh.tax,
      (getD_iff h.stock).2 hh.stock, (getD_iff h.priceToStock).2 hh.priceToStock,
      (getD_iff h.soldBy).2 hh.soldBy⟩

end Edit

/-! ## Typing an edit -/

/-- How a prompt is answered: as it is shown, or with a text that reads as the new value. -/
def Answered {τ α : Type} (reads : τ → Except Exception α) (change : Option α)
    (shown answer : τ) : Prop :=
  match change with
  | none => answer = shown
  | some x => reads answer = .ok x

/-- An answer is tried by reading it. -/
instance {τ α : Type} [DecidableEq τ] [DecidableEq α] (reads : τ → Except Exception α)
    (change : Option α) (shown answer : τ) : Decidable (Answered reads change shown answer) :=
  match change with
  | none => inferInstanceAs (Decidable (answer = shown))
  | some x => inferInstanceAs (Decidable (reads answer = .ok x))

/-- An answer reads as the value changed to, or as the old one. -/
theorem Answered.reads {τ α : Type} {reads : τ → Except Exception α} {change : Option α}
    {shown answer : τ} {old : α} (h : Answered reads change shown answer)
    (hshown : reads shown = .ok old) : reads answer = .ok (change.getD old) := by
  cases change with
  | none =>
    obtain rfl : answer = shown := h
    exact hshown
  | some x => exact h

/-- The decimal that a column holds for a text. -/
def columnDecimal (text : Str) : Except Exception ℚ := (stod (removeNonNr text)).map sixDecimals

/-- The discount that its column holds for a text. -/
def columnDiscount (text : Str) : Except Exception ℤ := (stod (removeNonNr text)).map truncate

/-- The answers of a form that is shown the product `p`, when the user changes what the edit
says and accepts the rest. -/
structure Edit.Enters (maxNameLength : ℤ) (e : Edit) (p : Product) (a : Answers) : Prop where
  name : Answered .ok e.name (accepted maxNameLength p.name) a.name
  code : a.code = accepted (maxCodeLength + 1) (intText p.code)
  price : Answered columnDecimal e.price (accepted maxPriceLength (doubleText p.price)) a.price
  discount : Answered columnDiscount e.discount (accepted 2 (intText p.discount)) a.discount
  tax : Answered (fun s => .ok [s.headD 0]) e.tax (accepted 3 [p.taxChar]) a.tax
  stock : Answered columnDecimal e.stock
    (accepted maxProductQuanityLength (doubleText p.stock)) a.stock
  priceToStock : Answered columnDecimal e.priceToStock
    (accepted maxPriceLength (doubleText p.priceToStock)) a.priceToStock
  soldBy : Answered (fun selection => .ok (toMesurments selection).toInt) e.soldBy
    p.soldBy.toInt a.selection

/-- The answers of a form are tried one by one. -/
instance (maxNameLength : ℤ) (e : Edit) (p : Product) (a : Answers) :
    Decidable (e.Enters maxNameLength p a) :=
  decidable_of_iff
    (Answered .ok e.name (accepted maxNameLength p.name) a.name ∧
      a.code = accepted (maxCodeLength + 1) (intText p.code) ∧
      Answered columnDecimal e.price (accepted maxPriceLength (doubleText p.price)) a.price ∧
      Answered columnDiscount e.discount (accepted 2 (intText p.discount)) a.discount ∧
      Answered (fun s => .ok [s.headD 0]) e.tax (accepted 3 [p.taxChar]) a.tax ∧
      Answered columnDecimal e.stock
        (accepted maxProductQuanityLength (doubleText p.stock)) a.stock ∧
      Answered columnDecimal e.priceToStock
        (accepted maxPriceLength (doubleText p.priceToStock)) a.priceToStock ∧
      Answered (fun selection => .ok (toMesurments selection).toInt) e.soldBy
        p.soldBy.toInt a.selection)
    ⟨fun ⟨h1, h2, h3, h4, h5, h6, h7, h8⟩ => ⟨h1, h2, h3, h4, h5, h6, h7, h8⟩,
      fun ⟨h1, h2, h3, h4, h5, h6, h7, h8⟩ => ⟨h1, h2, h3, h4, h5, h6, h7, h8⟩⟩

/-- A form opened on the row is filled in with the edit, and every value accepted is short
enough to come back unchanged. -/
structure Edits (maxNameLength : ℤ) (keys : Product → List Key) (e : Edit) (r : Row) : Prop where
  fits : RowFits maxNameLength r
  filled : ∃ a rest,
    formAnswers maxNameLength true (productOf r) (keys (productOf r)) = .ok (some a) rest ∧
      e.Enters maxNameLength (productOf r) a

/-- A result that was mapped came from a result. -/
theorem except_map_eq_ok {ε α β : Type} {f : α → β} {x : Except ε α} {b : β} :
    x.map f = .ok b ↔ ∃ a, x = .ok a ∧ f a = b := by
  cases x <;> simp [Except.map]

/-! ## The row that the form writes -/

section

variable {x : ℚ} {text : Str}

/-- A price that fits its prompt is accepted as it is. -/
theorem columnDecimal_price (h : FitsDecimal 6 x) :
    columnDecimal (accepted maxPriceLength (doubleText x)) = .ok x := by
  rw [columnDecimal, stod_accepted_price, Except.map, sixDecimals_cutDecimal,
    (cutDecimal_eq_iff (by norm_num) (by norm_num) _).2 h]

/-- So is a stock. -/
theorem columnDecimal_stock (h : FitsDecimal 8 x) :
    columnDecimal (accepted maxProductQuanityLength (doubleText x)) = .ok x := by
  rw [columnDecimal, stod_accepted_stock, Except.map, sixDecimals_cutDecimal,
    (cutDecimal_eq_iff (by norm_num) (by norm_num) _).2 h]

/-- So is a discount. -/
theorem columnDiscount_accepted {discount : ℤ} (h : FitsInteger 2 discount) :
    columnDiscount (accepted 2 (intText discount)) = .ok discount := by
  rw [columnDiscount, stod_accepted_discount, Except.map, truncate_intCast,
    (cutInteger_eq_iff (by norm_num) _).2 h]

/-- A text that its column takes converts. -/
theorem stod_of_columnDecimal (h : columnDecimal text = .ok x) :
    ∃ y, stod (removeNonNr text) = .ok y ∧ sixDecimals y = x :=
  except_map_eq_ok.1 h

end

/-- **The form writes the row it was opened on**, with the changes in it. -/
theorem filledForm_eq {maxNameLength : ℤ} {keys : Product → List Key} {e : Edit} {r : Row}
    (h : Edits maxNameLength keys e r) :
    ∃ p, filledForm maxNameLength keys (productOf r) = some p ∧ rowOf p = e.apply r := by
  obtain ⟨hfits, a, rest, hform, henters⟩ := h
  have hname : a.name = e.name.getD r.name := by
    have hshown := accepted_eq_iff.2 hfits.name
    exact Except.ok.inj (henters.name.reads (congrArg Except.ok hshown))
  have hcode : stol (removeNonNr a.code) = .ok r.code := by
    rw [henters.code]
    exact (stol_accepted_code _).trans
      (congrArg Except.ok ((cutInteger_eq_iff (by norm_num) _).2 hfits.code))
  have htax : [a.tax.headD 0] = e.tax.getD r.tax := by
    have hshown : [(accepted 3 [(productOf r).taxChar]).headD 0] = r.tax :=
      (congrArg (fun b => [b]) (taxChar_productOf r)).trans
        ((singleton_headD_iff r.tax).2 hfits.tax)
    exact Except.ok.inj (henters.tax.reads (congrArg Except.ok hshown))
  have hsoldBy : (toMesurments a.selection).toInt = e.soldBy.getD r.soldBy := by
    have hshown : (toMesurments (productOf r).soldBy.toInt).toInt = r.soldBy := by
      rw [toMesurments_toInt]
      exact (toInt_toMesurments_iff _).2 hfits.soldBy
    exact Except.ok.inj (henters.soldBy.reads (congrArg Except.ok hshown))
  obtain ⟨price, eprice, hprice⟩ :=
    stod_of_columnDecimal (henters.price.reads (columnDecimal_price hfits.price))
  obtain ⟨discount, ediscount, hdiscount⟩ := except_map_eq_ok.1
    (henters.discount.reads (columnDiscount_accepted hfits.discount))
  obtain ⟨stock, estock, hstock⟩ :=
    stod_of_columnDecimal (henters.stock.reads (columnDecimal_stock hfits.stock))
  obtain ⟨priceToStock, epriceToStock, hpriceToStock⟩ :=
    stod_of_columnDecimal (henters.priceToStock.reads (columnDecimal_price hfits.priceToStock))
  refine ⟨{ productOf r with
    name := a.name, code := r.code, price, discount := truncate discount,
    tax := signedChar (a.tax.headD 0), stock, priceToStock, profit := price - priceToStock,
    soldBy := toMesurments a.selection }, ?_, ?_⟩
  · simp only [filledForm, hform, Answers.toProduct, hcode, eprice, ediscount, estock,
      epriceToStock, bind, Except.bind]
    rfl
  · simp only [rowOf, Edit.apply, Product.taxChar, charOfKey_signedChar, hprice, hdiscount, hstock,
      hpriceToStock, hname, htax, hsoldBy]
    rfl

/-! ## Trying out edits -/

/-- The keys, typed on the row, give answers that enter the edit. -/
def fillsIn (maxNameLength : ℤ) (keys : List Key) (e : Edit) (r : Row) : Bool :=
  (valueOf (formAnswers maxNameLength true (productOf r) keys)).any fun out =>
    out.1.any fun a => decide (e.Enters maxNameLength (productOf r) a)

/-- Keys that fill in the edit when they are tried do edit the row. -/
theorem edits_of_fillsIn {maxNameLength : ℤ} {e : Edit} {keys : Product → List Key} {r : Row}
    (hfits : RowFits maxNameLength r)
    (h : fillsIn maxNameLength (keys (productOf r)) e r = true) :
    Edits maxNameLength keys e r := by
  obtain ⟨⟨answered, rest⟩, hform, hany⟩ := (Option.any_eq_true _ _).1 h
  obtain ⟨a, rfl, henters⟩ := (Option.any_eq_true _ _).1 hany
  exact ⟨hfits, a, rest, valueOf_eq_some.1 hform, of_decide_eq_true henters⟩

end CliPos
