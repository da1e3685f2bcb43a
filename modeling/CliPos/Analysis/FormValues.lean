import CliPos.Analysis.FormTexts
import CliPos.Analysis.ReceiptTotal

/-!
# The values that the form writes

No function checks the values of a product.  Their bounds come out of the lengths of the
prompts, the filter that leaves digits and dots, and the parsers that read a numeral's
beginning (`ValidNumbers`); so does the order of a product's two prices
(`form_writes_valid`).
-/

set_option autoImplicit false

namespace CliPos

open Decimal Halting

variable {text : Str} {p q : Product} {a : Answers}

/-! ## What a short text converts to -/

/-- **An integer read** from `k` characters is below `10 ^ k`. -/
theorem stol_bounds {n : ℤ} {k : ℕ} (hk : 1 ≤ k) (hlen : text.length ≤ k)
    (h : stol (removeNonNr text) = .ok n) : 0 ≤ n ∧ n < 10 ^ k := by
  have hfiltered : (removeNonNr text).length ≤ k := by
    have hkept := length_keptChars_le text
    rw [removeNonNr_eq]
    split_ifs
    · exact hk
    · omega
  have hdigits : value (leadingDigits (removeNonNr text)) < 10 ^ k :=
    (value_lt fun _ => isDigit_of_mem_leadingDigits).trans_le
      (Nat.pow_le_pow_right (by norm_num) ((leadingDigits_length_le _).trans hfiltered))
  unfold stol parseInteger at h
  split_ifs at h
  obtain rfl := Except.ok.inj h
  exact ⟨by omega, by exact_mod_cast hdigits⟩

/-- **A decimal read** from `k` characters is below `10 ^ k`. -/
theorem stod_bounds {x : ℚ} {k : ℕ} (hlen : text.length ≤ k)
    (h : stod (removeNonNr text) = .ok x) : 0 ≤ x ∧ x < 10 ^ k := by
  obtain rfl := parseFloat_eq_ok h
  have hdigits : (leadingDigits (keptChars text)).length ≤ k :=
    (leadingDigits_length_le _).trans ((length_keptChars_le _).trans hlen)
  exact ⟨decimalValue_nonneg _,
    (decimalValue_lt _).trans_le (pow_le_pow_right₀ (by norm_num) hdigits)⟩

/-- The selection starts at a selling unit and stays among them. -/
theorem soldByLoop_range {keys rest : List Key} {selection out : ℤ}
    (h0 : 0 ≤ selection ∧ selection < nrOfSellingOptions)
    (h : soldByLoop keys selection = .ok (some out) rest) : 0 ≤ out ∧ out < nrOfSellingOptions := by
  induction keys generalizing selection with
  | nil => cases h
  | cons key keys ih =>
    have hoptions : nrOfSellingOptions = 3 := rfl
    simp only [soldByLoop] at h
    split_ifs at h with hup hsel hdown hlast henter
    · exact ih (by omega) h
    · exact ih (by omega) h
    · exact ih (by omega) h
    · exact ih (by omega) h
    · simp only [EStateM.Result.ok.injEq, Option.some.injEq] at h
      omega
    · simp at h
    · exact ih h0 h

/-! ## The product saved -/

/-- The numbers of a product are in the ranges that its columns leave room for. -/
structure ValidNumbers (p : Product) : Prop where
  code : 0 ≤ p.code ∧ p.code < 10 ^ 14
  price : 0 ≤ p.price ∧ p.price < 10 ^ 6
  discount : 0 ≤ p.discount ∧ p.discount ≤ 99
  stock : 0 ≤ p.stock ∧ p.stock < 10 ^ 8
  priceToStock : 0 ≤ p.priceToStock ∧ p.priceToStock < 10 ^ 6

/-- A percentage below 100 is at most 99 when it is cut. -/
theorem truncate_bounds {x : ℚ} (h : 0 ≤ x ∧ x < 10 ^ 2) : 0 ≤ truncate x ∧ truncate x ≤ 99 := by
  have hlt : x < (100 : ℤ) := by
    norm_num at h ⊢
    exact h.2
  have hfloor := Int.floor_lt.2 hlt
  have hfloor_nonneg := Int.floor_nonneg.2 h.1
  rw [truncate, if_neg (not_lt.2 h.1)]
  omega

/-- **The answers of the form convert to valid numbers.** -/
theorem validNumbers_of_toProduct
    (hlen : a.code.length ≤ 14 ∧ a.price.length ≤ 6 ∧ a.discount.length ≤ 2 ∧
      a.stock.length ≤ 8 ∧ a.priceToStock.length ≤ 6)
    (h : a.toProduct q = .ok p) :
    ValidNumbers p ∧ p.name = a.name ∧ p.soldBy = toMesurments a.selection := by
  obtain ⟨hcode, hprice, hdiscount, hstock, hpriceToStock⟩ := hlen
  unfold Answers.toProduct at h
  obtain ⟨code, ecode, h⟩ := except_bind_eq_ok.1 h
  obtain ⟨price, eprice, h⟩ := except_bind_eq_ok.1 h
  obtain ⟨discount, ediscount, h⟩ := except_bind_eq_ok.1 h
  obtain ⟨stock, estock, h⟩ := except_bind_eq_ok.1 h
  obtain ⟨priceToStock, epriceToStock, h⟩ := except_bind_eq_ok.1 h
  obtain rfl := Except.ok.inj h
  refine ⟨?_, rfl, rfl⟩
  exact
    { code := stol_bounds (by norm_num) hcode ecode
      price := stod_bounds hprice eprice
      discount := truncate_bounds (stod_bounds hdiscount ediscount)
      stock := stod_bounds hstock estock
      priceToStock := stod_bounds hpriceToStock epriceToStock }

/-- **The form saves valid numbers.** -/
theorem formSaves_validNumbers {maxNameLength code : ℤ} {modify : Bool} {t : Table}
    {keys : List Key} (h : FormSaves maxNameLength code modify t keys p) : ValidNumbers p := by
  obtain ⟨q, answers, keys', -, hform, hproduct⟩ := h
  exact (validNumbers_of_toProduct (answersRead_of_formAnswers hform).lengths hproduct).1

/-- What the product saved must be: its name is valid, its numbers are in their ranges, and
its selling unit is one of the enumeration. -/
structure ValidProduct (maxNameLength selection : ℤ) (p : Product) : Prop where
  name : ValidAnswer maxNameLength p.name
  numbers : ValidNumbers p
  soldBy : p.soldBy.toInt = selection

/-! ## The rows written -/

/-- The row was written by the form. -/
def WrittenByForm (r : Row) : Prop :=
  ∃ maxNameLength code modify t keys p, 0 < maxNameLength ∧
    FormSaves maxNameLength code modify t keys p ∧ r = rowOf p

/-- Six decimals of a number that is not negative are not negative. -/
theorem sixDecimals_nonneg {x : ℚ} (h : 0 ≤ x) : 0 ≤ sixDecimals x := by
  rw [sixDecimals, if_neg (not_lt.2 h)]
  positivity

/-- **A discount of at most 99 percent** leaves a price between nothing and the price. -/
theorem priceAfterDiscount_bounds {r : Row} (hprice : 0 ≤ r.price)
    (hdiscount : 0 ≤ r.discount ∧ r.discount ≤ 99) :
    0 ≤ (productOf r).priceAfterDiscount ∧
      (productOf r).priceAfterDiscount ≤ (productOf r).price := by
  have h0 : (0 : ℚ) ≤ r.discount := by exact_mod_cast hdiscount.1
  have h99 : (r.discount : ℚ) ≤ 99 := by exact_mod_cast hdiscount.2
  have hcut : 0 ≤ r.price / 100 * r.discount := by positivity
  have hrest : r.price / 100 * r.discount ≤ r.price / 100 * 99 := by gcongr
  simp only [productOf]
  constructor <;> linarith

/-- A product that the form wrote costs between nothing and its price. -/
theorem WrittenByForm.bounds {r : Row} (h : WrittenByForm r) :
    0 ≤ (productOf r).priceAfterDiscount ∧
      (productOf r).priceAfterDiscount ≤ (productOf r).price := by
  obtain ⟨maxNameLength, code, modify, t, keys, p, -, hsaves, rfl⟩ := h
  have hvalid := formSaves_validNumbers hsaves
  exact priceAfterDiscount_bounds (sixDecimals_nonneg hvalid.price.1) hvalid.discount

/-- A total grows with every product of the basket. -/
theorem basketTotal_nonneg {basket : List BasketProduct} {t : Table} {x total : ℚ}
    (ht : ∀ r ∈ t, 0 ≤ (productOf r).priceAfterDiscount) (hbasket : ∀ b ∈ basket, 0 < b.quantity)
    (hx : 0 ≤ x) (h : basketTotal basket t x = .ok total) : 0 ≤ total := by
  induction basket generalizing x with
  | nil =>
    obtain rfl := Except.ok.inj h
    exact hx
  | cons b basket ih =>
    rw [basketTotal] at h
    obtain ⟨product, hproduct, h⟩ := except_bind_eq_ok.1 h
    obtain ⟨r, hr, -, rfl⟩ := getProductData_eq_ok hproduct
    have hprice := ht r hr
    have hquantity := (hbasket b (by simp)).le
    refine ih (fun c hc => hbasket c (by simp [hc])) ?_ h
    positivity

/-- **Everything the form writes is valid**, whatever is typed and whatever row it starts
from; so over rows it wrote no discounted price is negative or above the price, and no
basket of positive quantities has a negative total. -/
theorem form_writes_valid :
    (∀ (maxNameLength code : ℤ) (modify : Bool) (t : Table) (q : Product) (keys rest : List Key)
      (answers : Answers) (p : Product), 0 < maxNameLength → getProductData code t = .ok q →
      formAnswers maxNameLength modify q keys = .ok (some answers) rest →
      answers.toProduct q = .ok p → ValidProduct maxNameLength answers.selection p) ∧
    ∀ t : Table, (∀ r ∈ t, WrittenByForm r) →
      (∀ code p, getProductData code t = .ok p →
        0 ≤ p.priceAfterDiscount ∧ p.priceAfterDiscount ≤ p.price) ∧
      ∀ basket : List BasketProduct, (∀ b ∈ basket, 0 < b.quantity) →
        (∀ b ∈ basket, ∃ r ∈ t, r.code = b.code) →
          ∃ total, basketTotal basket t 0 = .ok total ∧ 0 ≤ total := by
  constructor
  · intro maxNameLength code modify t q keys rest answers p hpos hq hform hproduct
    have hread := answersRead_of_formAnswers hform
    obtain ⟨hnumbers, hname, hsoldBy⟩ := validNumbers_of_toProduct hread.lengths hproduct
    refine ⟨hname ▸ hread.name.valid hpos, hnumbers, ?_⟩
    obtain ⟨keys, rest, hselection⟩ := hread.selection
    have hstart : 0 ≤ q.soldBy.toInt ∧ q.soldBy.toInt < nrOfSellingOptions := by
      cases q.soldBy <;> decide
    have hrange := soldByLoop_range hstart hselection
    have hoptions : nrOfSellingOptions = 3 := rfl
    rw [hsoldBy, toInt_toMesurments_iff]
    omega
  · intro t ht
    refine ⟨fun code p hp => ?_, fun basket hbasket hrows => ?_⟩
    · obtain ⟨r, hr, -, rfl⟩ := getProductData_eq_ok hp
      exact (ht r hr).bounds
    · obtain ⟨items, -, htotal⟩ := basketTotal_eq_balance hrows 0
      exact ⟨_, htotal, basketTotal_nonneg (fun r hr => (ht r hr).bounds.1) hbasket le_rfl htotal⟩

/-- Every answer of the bread's form accepted as it is shown, and one piece of what it
wrote in the basket. -/
theorem form_writes_valid_bread : ∃ answers p rest total,
    formAnswers 31 true (productOf bread) (List.replicate 10 keyEnter) = .ok (some answers) rest ∧
      answers.toProduct (productOf bread) = .ok p ∧ ValidProduct 31 answers.selection p ∧
      basketTotal [⟨1, 1⟩] [rowOf p] 0 = .ok total ∧ 0 ≤ total := by
  have hrun : (valueOf (formAnswers 31 true (productOf bread)
      (List.replicate 10 keyEnter))).any fun r =>
        r.1.any fun answers => (answers.toProduct (productOf bread)).toOption.any
          fun p => p.code = 1 := by
    decide +kernel
  obtain ⟨⟨answered, rest⟩, hform, hcheck⟩ := (Option.any_eq_true _ _).1 hrun
  obtain ⟨answers, rfl, hsaved⟩ := (Option.any_eq_true _ _).1 hcheck
  obtain ⟨p, hp, hcode⟩ := (Option.any_eq_true _ _).1 hsaved
  have hform := valueOf_eq_some.1 hform
  have hproduct : answers.toProduct (productOf bread) = .ok p := by
    cases hanswer : answers.toProduct (productOf bread) with
    | error e => rw [hanswer] at hp; cases hp
    | ok q => rw [hanswer] at hp; exact congrArg _ (Option.some.inj hp)
  have hq : getProductData 1 [bread] = .ok (productOf bread) := rfl
  have hwritten : ∀ r ∈ [rowOf p], WrittenByForm r := by
    intro r hr
    obtain rfl := List.mem_singleton.1 hr
    exact ⟨31, 1, true, [bread], _, p, by decide, ⟨_, answers, rest, hq, hform, hproduct⟩, rfl⟩
  obtain ⟨total, htotal, hpos⟩ := (form_writes_valid.2 [rowOf p] hwritten).2 [⟨1, 1⟩] (by simp)
    (by simpa [rowOf] using of_decide_eq_true hcode)
  exact ⟨answers, p, rest, total, hform, hproduct,
    form_writes_valid.1 31 1 true [bread] _ _ _ _ p (by decide) hq hform hproduct, htotal, hpos⟩

end CliPos
