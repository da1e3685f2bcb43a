import CliPos.Model.Statements

/-!
# The tax rates that are read

`get_tax_rates` runs its loop to a bound it computes from the size of the result object, which
is the same for every table.  It reads as many rows as that bound, whether the table has them
or not: of fewer rows it throws, of more it drops the last (`get_tax_rates_iff`).
-/

set_option autoImplicit false

namespace CliPos

open Decimal FirstInsert

variable {res rates : List TaxRate} {rounds i : ℕ} {map map' : TaxRates} {r : TaxRate}

/-- The rate is one of a `short int`. -/
def TaxRate.Fits (r : TaxRate) : Prop := -32768 ≤ r.rate ∧ r.rate ≤ 32767

/-- The key of a row: the first `char` of its text. -/
def TaxRate.char (r : TaxRate) : Byte := r.taxChar.headD 0

/-- What is inserted of a row. -/
def TaxRate.entry (r : TaxRate) : Byte × ℤ := (r.char, r.rate)

/-- The map has exactly one entry a row, with the rate of that row. -/
structure Loaded (rates : List TaxRate) (map : TaxRates) : Prop where
  keys : map.keys.Perm (rates.map TaxRate.char)
  rate : ∀ r ∈ rates, map.lookup r.char = some r.rate

/-- `get_tax_rates` reads rows that exist only, and returns the whole table. -/
def LoadsTaxRates (order : TaxOrder) (sizeofRes : ℕ) (rates : List TaxRate) : Prop :=
  ∃ map, getTaxRates order sizeofRes rates = some map ∧ Loaded rates map

/-! ## The loop -/

/-- A rate is read where there is a row that fits its types. -/
theorem readTaxRate_eq_some {e : Byte × ℤ} :
    readTaxRate res i = some e ↔ ∃ r, res[i]? = some r ∧ r.Fits ∧ e = r.entry := by
  unfold readTaxRate
  cases res[i]? with
  | none => simp
  | some r =>
    simp only [Option.bind_eq_bind, Option.bind_some, TaxRate.field, Value.asString,
      Value.asShort, Option.some.injEq, exists_eq_left']
    by_cases hfits : -32768 ≤ r.rate ∧ r.rate ≤ 32767
    · simp [hfits, TaxRate.Fits, TaxRate.entry, TaxRate.char, eq_comm]
    · simp [hfits, TaxRate.Fits]

/-- **The loop inserts** as many rows as it has rounds, and has no result when there are
fewer, or when one of their rates does not fit. -/
theorem taxRatesLoop_eq_some : taxRatesLoop res rounds i map = some map' ↔
    rounds ≤ (res.drop i).length ∧ (∀ r ∈ (res.drop i).take rounds, r.Fits) ∧
      map' = insertAll map (((res.drop i).take rounds).map TaxRate.entry) := by
  induction rounds generalizing i map with
  | zero => simp [taxRatesLoop, eq_comm]
  | succ rounds ih =>
    simp only [taxRatesLoop, Option.bind_eq_bind, Option.bind_eq_some_iff, readTaxRate_eq_some, ih]
    cases hi : res[i]? with
    | none =>
      have hle : res.length ≤ i := List.getElem?_eq_none_iff.1 hi
      simp [List.drop_of_length_le hle]
    | some r =>
      obtain ⟨hlt, hr⟩ := List.getElem?_eq_some_iff.1 hi
      have hdrop : res.drop i = r :: res.drop (i + 1) := by
        rw [List.drop_eq_getElem_cons hlt, hr]
      rw [hdrop, List.take_succ_cons, List.map_cons, List.length_cons, insertAll_cons]
      constructor
      · rintro ⟨-, ⟨r', hr', hfits, rfl⟩, hle, hall, rfl⟩
        obtain rfl := Option.some.inj hr'
        exact ⟨Nat.succ_le_succ hle, List.forall_mem_cons.2 ⟨hfits, hall⟩, rfl⟩
      · rintro ⟨hle, hall, rfl⟩
        rw [List.forall_mem_cons] at hall
        exact ⟨r.entry, ⟨r, rfl, hall.1, rfl⟩, Nat.le_of_succ_le_succ hle, hall.2, rfl⟩

/-! ## The map -/

/-- The entries have the letters of the rows. -/
theorem map_fst_entry : (rates.map TaxRate.entry).map Prod.fst = rates.map TaxRate.char := by
  rw [List.map_map]
  rfl

/-- Rows whose first bytes differ are all in the map. -/
theorem loaded_insertAll (hnodup : (rates.map TaxRate.char).Nodup) :
    Loaded rates (insertAll ∅ (rates.map TaxRate.entry)) := by
  have hdistinct : ((rates.map TaxRate.entry).map Prod.fst).Nodup := by rwa [map_fst_entry]
  have hnew : ∀ e ∈ rates.map TaxRate.entry, e.1 ∉ (∅ : TaxRates) :=
    fun e _ => AList.notMem_empty e.1
  refine ⟨?_, fun r hr => lookup_insertAll hdistinct hnew (List.mem_map_of_mem hr)⟩
  have hkeys := keys_insertAll hdistinct hnew
  rwa [map_fst_entry] at hkeys

/-- The order of the rows does not matter. -/
theorem Loaded.perm {rates' : List TaxRate} (hperm : rates.Perm rates') (h : Loaded rates map) :
    Loaded rates' map :=
  ⟨h.keys.trans (hperm.map _), fun r hr => h.rate r (hperm.mem_iff.2 hr)⟩

/-- The table of one rate. -/
theorem one_rate_not_loaded : ¬∀ (order : TaxOrder) (rates : List TaxRate),
    (rates.map TaxRate.taxChar).Nodup → (∀ r ∈ rates, r.taxChar.length = 1) →
      LoadsTaxRates order sizeofResult rates := by
  intro hall
  have order : TaxOrder := ⟨id, fun _ => .refl _⟩
  obtain ⟨map, hmap, -⟩ := hall order [⟨label "A", 20⟩] (by decide) (by decide)
  have hlong := (taxRatesLoop_eq_some.1 hmap).1
  rw [List.drop_zero, (order.perm _).length_eq] at hlong
  exact absurd hlong (by decide)

/-- **`get_tax_rates` returns the whole table** exactly when the table has as many rows as the
bound of its loop, their rates fit a `short int` and the first bytes of their texts differ. -/
theorem get_tax_rates_iff (order : TaxOrder) (sizeofRes : ℕ) (rates : List TaxRate) :
    LoadsTaxRates order sizeofRes rates ↔
      (rates.length : ℤ) = taxRatesBound sizeofRes ∧ (∀ r ∈ rates, r.Fits) ∧
        (rates.map TaxRate.char).Nodup := by
  have hperm := order.perm rates
  have hbound : 0 ≤ taxRatesBound sizeofRes := by
    unfold taxRatesBound toSizeT
    split_ifs <;> omega
  constructor
  · rintro ⟨map, hmap, hloaded⟩
    obtain ⟨hle, hfits, rfl⟩ := taxRatesLoop_eq_some.1 hmap
    rw [List.drop_zero] at hle hfits hloaded
    -- every row is a key, and there are no more keys than rounds
    have hcount := hloaded.keys.length_eq
    have hkeys := @length_keys_insertAll_le _ _ _ (∅ : TaxRates)
      (((order.orderByTaxChar rates).take (taxRatesBound sizeofRes).toNat).map TaxRate.entry)
    rw [hcount, List.length_map, List.length_map, List.length_take, AList.keys_empty,
      List.length_nil, Nat.zero_add] at hkeys
    rw [hperm.length_eq] at hle hkeys
    have hlength : rates.length = (taxRatesBound sizeofRes).toNat := by omega
    rw [List.take_of_length_le (by rw [hperm.length_eq, hlength])] at hfits
    refine ⟨by omega, fun r hr => hfits r (hperm.mem_iff.2 hr), ?_⟩
    exact hloaded.keys.nodup_iff.1 (AList.keys_nodup _)
  · rintro ⟨hlength, hfits, hnodup⟩
    have hrounds : (order.orderByTaxChar rates).length = (taxRatesBound sizeofRes).toNat := by
      rw [hperm.length_eq]
      omega
    have htake : ((order.orderByTaxChar rates).drop 0).take (taxRatesBound sizeofRes).toNat =
        order.orderByTaxChar rates := by
      rw [List.drop_zero, List.take_of_length_le hrounds.le]
    have ordered : Loaded (order.orderByTaxChar rates)
        (insertAll ∅ ((order.orderByTaxChar rates).map TaxRate.entry)) :=
      loaded_insertAll ((hperm.map _).nodup_iff.2 hnodup)
    refine ⟨_, taxRatesLoop_eq_some.2 ⟨?_, ?_, rfl⟩, ?_⟩
    · rw [List.drop_zero, hrounds]
    · rw [htake]
      exact fun r hr => hfits r (hperm.mem_iff.1 hr)
    · rw [htake]
      exact ordered.perm hperm

/-- On the target the bound is six. -/
example : taxRatesBound sizeofResult = 6 := by decide

end CliPos
