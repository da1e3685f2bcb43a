import CliPos.Analysis.Readback
import CliPos.Analysis.Prompts
import CliPos.Analysis.Redraw

/-!
# Accepting a product as it stands

The form to modify a product, with Enter pressed at every prompt.  A prompt then returns
its placeholder, cut to the prompt's size (`accepted`), so the row written is `savedRow`:
the row read with every field printed, cut and read back.  `accept_keeps_table_iff` says
when that leaves the table alone.
-/

set_option autoImplicit false

namespace CliPos

open Decimal Halting

/-! ## One prompt -/

/-- The text that a prompt returns when its placeholder is accepted. -/
def accepted (maxSize : ℤ) (placeholder : Str) : Str :=
  let text :=
    if toSizeT maxSize < placeholder.length then placeholder.take maxSize.toNat else placeholder
  if text = [] then [49] else text

/-- Enter at once returns the text as it was. -/
theorem getString_enter (s : Str) (maxLength : ℤ) (keys : List Key) :
    getString s maxLength (keyEnter :: keys) = .ok (some s) keys := by
  by_cases hs : s = []
  · subst hs
    rfl
  · simp [getString, hs]

/-- A text that is too long is cut to its size, for one key; a text that fits is left alone. -/
theorem cutToSize_enter (maxSize : ℤ) (s : Str) (n : ℕ) :
    ∃ m, n ≤ m ∧ cutToSize maxSize s (List.replicate (n + 1) keyEnter) =
      .ok (if toSizeT maxSize < s.length then s.take maxSize.toNat else s)
        (List.replicate m keyEnter) := by
  unfold cutToSize
  by_cases h : toSizeT maxSize < s.length
  · exact ⟨n, le_rfl, by rw [if_pos h, if_pos h]; rfl⟩
  · exact ⟨n + 1, by omega, by rw [if_neg h, if_neg h]; rfl⟩

/-- A placeholder without a comma is accepted, cut to its size. -/
theorem addModifyCriteria_enter {placeholder : Str} (hcomma : comma ∉ placeholder)
    (maxSize : ℤ) (fuel n : ℕ) :
    ∃ m, n ≤ m ∧ addModifyCriteria placeholder true maxSize (fuel + 1)
        (List.replicate (n + 2) keyEnter) =
      .ok (some (accepted maxSize placeholder)) (List.replicate m keyEnter) := by
  obtain ⟨m, hm, hcut⟩ := cutToSize_enter maxSize placeholder n
  refine ⟨m, hm, ?_⟩
  have hno : comma ∉ if toSizeT maxSize < placeholder.length
      then placeholder.take maxSize.toNat else placeholder := by
    split_ifs
    · exact fun h => hcomma (List.mem_of_mem_take h)
    · exact hcomma
  rw [addModifyCriteria, bind_apply, List.replicate_succ]
  simp only [if_true, getString_enter, bind_apply, hcut, if_neg hno]
  rfl

/-- With Enter pressed at least `n` times, `x` ends in a result that satisfies `R`. -/
def OnEnters {α : Type} (n : ℕ) (R : EStateM.Result Halt (List Key) α → Prop) (x : Input α) :
    Prop :=
  ∀ m, n ≤ m → R (x (List.replicate m keyEnter))

/-- **A prompt accepted** returns its placeholder, cut, after at most two keys. -/
theorem onEnters_ask {α : Type} {placeholder : Str} (hcomma : comma ∉ placeholder)
    {maxSize : ℤ} {next : Str → Input (Option α)} {n : ℕ}
    {R : EStateM.Result Halt (List Key) (Option α) → Prop}
    (h : OnEnters n R (next (accepted maxSize placeholder))) :
    OnEnters (n + 2) R (ask placeholder true maxSize next) := by
  intro m hm
  obtain ⟨k, rfl⟩ := Nat.exists_eq_add_of_le' hm
  obtain ⟨m', hm', heq⟩ := addModifyCriteria_enter hcomma maxSize (k + n + 2) (k + n)
  rw [ask_apply, List.length_replicate, ← Nat.add_assoc k n 2, heq]
  exact h m' (by omega)

/-- A placeholder with a comma is asked for as long as there are keys. -/
theorem addModifyCriteria_comma {placeholder : Str} {maxSize : ℤ} (hcomma : comma ∈ placeholder)
    (hsize : ¬toSizeT maxSize < placeholder.length) (fuel n : ℕ) :
    ∃ keys, addModifyCriteria placeholder true maxSize fuel (List.replicate n keyEnter) =
      .error .waiting keys := by
  induction fuel generalizing n with
  | zero => exact ⟨_, rfl⟩
  | succ fuel ih =>
    have hne : placeholder ≠ [] := List.ne_nil_of_mem hcomma
    rw [addModifyCriteria, bind_apply]
    cases n with
    | zero => exact ⟨[], by simp [getString, hne]⟩
    | succ n =>
      rw [List.replicate_succ]
      simp only [if_true, getString_enter, bind_apply, cutToSize, if_neg hsize, pure_apply,
        if_pos hcomma]
      cases n with
      | zero => exact ⟨[], rfl⟩
      | succ n =>
        obtain ⟨keys, h⟩ := ih n
        refine ⟨keys, ?_⟩
        rw [List.replicate_succ]
        simp only [getch, h]

/-! ## The whole form -/

/-- The answers of the form when every placeholder is accepted. -/
def acceptedAnswers (maxNameLength : ℤ) (p : Product) : Answers where
  name := accepted maxNameLength p.name
  code := accepted (maxCodeLength + 1) (intText p.code)
  price := accepted maxPriceLength (doubleText p.price)
  discount := accepted 2 (intText p.discount)
  tax := accepted 3 [p.taxChar]
  stock := accepted maxProductQuanityLength (doubleText p.stock)
  priceToStock := accepted maxPriceLength (doubleText p.priceToStock)
  selection := p.soldBy.toInt

/-- **The form accepted** returns the placeholders, cut. -/
theorem formAnswers_enter (maxNameLength : ℤ) {p : Product} (hname : comma ∉ p.name)
    (htax : p.taxChar ≠ comma) :
    OnEnters 15 (fun r => ∃ keys, r = .ok (some (acceptedAnswers maxNameLength p)) keys)
      (formAnswers maxNameLength true p) := by
  have htaxes : comma ∉ [p.taxChar] := by simpa using htax.symm
  unfold formAnswers
  refine onEnters_ask hname ?_
  refine onEnters_ask (notMem_intText (by decide) (by decide) p.code) ?_
  refine onEnters_ask (notMem_doubleText (by decide) (by decide) p.price) ?_
  refine onEnters_ask (notMem_intText (by decide) (by decide) p.discount) ?_
  refine onEnters_ask htaxes ?_
  refine onEnters_ask (notMem_doubleText (by decide) (by decide) p.stock) ?_
  refine onEnters_ask (notMem_doubleText (by decide) (by decide) p.priceToStock) ?_
  intro m hm
  obtain ⟨k, rfl⟩ := Nat.exists_eq_add_of_le' hm
  refine ⟨List.replicate k keyEnter, ?_⟩
  rw [List.replicate_succ]
  simp only [bind, EStateM.bind, soldByLoop_enter]
  rfl

/-- **A comma as tax** is asked for again without end. -/
theorem formAnswers_comma (maxNameLength : ℤ) {p : Product} (hname : comma ∉ p.name)
    (htax : p.taxChar = comma) :
    OnEnters 8 (fun r => ∃ keys, r = .error .waiting keys)
      (formAnswers maxNameLength true p) := by
  unfold formAnswers
  refine onEnters_ask hname ?_
  refine onEnters_ask (notMem_intText (by decide) (by decide) p.code) ?_
  refine onEnters_ask (notMem_doubleText (by decide) (by decide) p.price) ?_
  refine onEnters_ask (notMem_intText (by decide) (by decide) p.discount) ?_
  intro m _
  have hmem : comma ∈ [p.taxChar] := by simp [htax]
  have hsize : ¬toSizeT 3 < ([p.taxChar].length : ℤ) := by simp [toSizeT]
  obtain ⟨keys, h⟩ := addModifyCriteria_comma hmem hsize
    ((List.replicate m keyEnter).length + 1) m
  exact ⟨keys, by rw [ask_apply, h]⟩

/-! ## The row written -/

/-- The row that the form writes for a row accepted as it stands. -/
def savedRow (maxNameLength : ℤ) (r : Row) : Row where
  name := accepted maxNameLength r.name
  code := cutInteger 14 r.code
  price := cutDecimal 6 r.price
  discount := cutInteger 2 r.discount
  tax := [r.tax.headD 0]
  stock := cutDecimal 8 r.stock
  priceToStock := cutDecimal 6 r.priceToStock
  soldBy := (toMesurments r.soldBy).toInt

/-- Accepting cuts to a positive size. -/
theorem accepted_of_pos {maxSize : ℤ} (hpos : 0 < maxSize) {s : Str} (hs : s ≠ []) :
    accepted maxSize s = s.take maxSize.toNat := by
  have hsize : toSizeT maxSize = maxSize := by rw [toSizeT, if_neg (by omega)]
  have hcut : (if toSizeT maxSize < s.length then s.take maxSize.toNat else s) =
      s.take maxSize.toNat := by
    split_ifs with h
    · rfl
    · rw [List.take_of_length_le (by omega)]
  have hne : s.take maxSize.toNat ≠ [] := by
    intro h
    rcases List.take_eq_nil_iff.1 h with h | h
    · omega
    · exact hs h
  rw [accepted, hcut, if_neg hne]

/-- A printed number is not empty. -/
theorem doubleText_ne_nil (x : ℚ) : doubleText x ≠ [] := by
  rw [doubleText_eq]
  split_ifs <;> simp [microsText]

/-- An integer is cut to itself. -/
theorem truncate_intCast (z : ℤ) : truncate (z : ℚ) = z := by
  simp [truncate]

/-- What the program reads from an accepted code. -/
theorem stol_accepted_code (code : ℤ) :
    stol (removeNonNr (accepted (maxCodeLength + 1) (intText code))) =
      .ok (cutInteger 14 code) := by
  rw [accepted_of_pos (by decide) (intText_ne_nil _)]
  exact stol_intText (by decide) (by decide) _

/-- What `stod` reads of an accepted discount: its first two characters. -/
theorem stod_accepted_discount (discount : ℤ) :
    stod (removeNonNr (accepted 2 (intText discount))) = .ok (cutInteger 2 discount) := by
  rw [accepted_of_pos (by decide) (intText_ne_nil _)]
  exact stod_intText (by decide) (by decide) _

/-- What `stod` reads of an accepted price: six digits before the point. -/
theorem stod_accepted_price (price : ℚ) :
    stod (removeNonNr (accepted maxPriceLength (doubleText price))) = .ok (cutDecimal 6 price) := by
  rw [accepted_of_pos (by decide) (doubleText_ne_nil _)]
  exact stod_doubleText (by decide) (by decide) _

/-- What `stod` reads of an accepted stock: eight digits before the point. -/
theorem stod_accepted_stock (stock : ℚ) :
    stod (removeNonNr (accepted maxProductQuanityLength (doubleText stock))) =
      .ok (cutDecimal 8 stock) := by
  rw [accepted_of_pos (by decide) (doubleText_ne_nil _)]
  exact stod_doubleText (by decide) (by decide) _

/-- **The accepted answers describe the row cut.** -/
theorem toProduct_acceptedAnswers (maxNameLength : ℤ) (r : Row) :
    ∃ p, (acceptedAnswers maxNameLength (productOf r)).toProduct (productOf r) = .ok p ∧
      rowOf p = savedRow maxNameLength r := by
  have htax : (accepted 3 [(productOf r).taxChar]).headD 0 = r.tax.headD 0 :=
    taxChar_productOf r
  refine ⟨{ productOf r with
    name := accepted maxNameLength r.name, code := cutInteger 14 r.code,
    price := cutDecimal 6 r.price, discount := cutInteger 2 r.discount,
    stock := cutDecimal 8 r.stock, priceToStock := cutDecimal 6 r.priceToStock,
    profit := cutDecimal 6 r.price - cutDecimal 6 r.priceToStock }, ?_, ?_⟩
  · simp only [Answers.toProduct, acceptedAnswers, htax]
    simp only [productOf, stol_accepted_code,
      stod_accepted_discount, stod_accepted_price, stod_accepted_stock, bind, Except.bind,
      truncate_intCast, toMesurments_toInt]
    rfl
  · simp [rowOf, savedRow, productOf, Product.taxChar, sixDecimals_cutDecimal]

/-! ## The table -/

/-- A code counted once has one row. -/
theorem eq_of_codeCount_eq_one {code : ℤ} {t : Table} (h : codeCount code t = 1) {r r' : Row}
    (hr : r ∈ t) (hr' : r' ∈ t) (hc : r.code = code) (hc' : r'.code = code) : r = r' := by
  rw [codeCount, List.countP_eq_length_filter, List.length_eq_one_iff] at h
  obtain ⟨q, hq⟩ := h
  have hmem : ∀ x ∈ t, x.code = code → x = q := by
    intro x hx hxc
    have : x ∈ t.filter fun r => r.code = code := List.mem_filter.2 ⟨hx, by simpa using hxc⟩
    rw [hq] at this
    exact List.mem_singleton.1 this
  rw [hmem r hr hc, hmem r' hr' hc']

/-- **A product saved leaves the table alone** when its row is the one row under its
code. -/
theorem updateStock_eq_self (srv : Server) (t : Table) {p : Product} (hquote : quote ∉ p.name) :
    updateStock srv p t = .ok t ↔
      (0 ∉ p.name ∧ p.taxChar ≠ 0 ∧ p.taxChar ≠ quote) ∧ codeCount p.code t = 1 ∧ rowOf p ∈ t := by
  constructor
  · intro h
    unfold updateStock at h
    obtain ⟨update, hexists, h⟩ := except_bind_eq_ok.1 h
    rw [if_neg hquote] at h
    split_ifs at h with hlit hup
    · subst hup
      have hcount := codeCount_eq_one hexists
      obtain ⟨r, hr, hc⟩ := exists_row_of_productExists hexists
      have heq : updateRows p t = t := Except.ok.inj h
      refine ⟨by tauto, hcount, ?_⟩
      have hmem : (if r.code = p.code then rowOf p else r) ∈ updateRows p t :=
        List.mem_map.2 ⟨r, hr, rfl⟩
      rwa [if_pos hc, heq] at hmem
    · have hlen : (insertRow p t).length = t.length := by rw [Except.ok.inj h]
      rw [insertRow_length] at hlen
      omega
  · rintro ⟨⟨hname, htax, htax'⟩, hcount, hmem⟩
    have hexists : productExists p.code t = .ok true := by
      rw [productExists, if_neg (by omega), if_pos hcount]
    have hself : updateRows p t = t := by
      have hid : ∀ r ∈ t, (if r.code = p.code then rowOf p else r) = r := by
        intro r hr
        split_ifs with hc
        · exact eq_of_codeCount_eq_one hcount hmem hr rfl hc
        · rfl
      rw [updateRows, List.map_congr_left hid, List.map_id']
    simp [updateStock, hexists, bind, Except.bind, hquote, hname, htax, htax', hself]

/-- Accepting brings in no character but the `1` of an empty text. -/
theorem notMem_accepted {b : Byte} {maxSize : ℤ} {s : Str} (hb : b ≠ 49) (h : b ∉ s) :
    b ∉ accepted maxSize s := by
  unfold accepted
  simp only
  split_ifs
  · simpa using hb
  · exact fun hmem => h (List.mem_of_mem_take hmem)
  · simpa using hb
  · exact h

/-- The form, run on a code with Enter pressed `n` times, leaves the table as it was. -/
def EntersKeep (srv : Server) (maxNameLength : ℤ) (n : ℕ) (code : ℤ) (t : Table) : Prop :=
  ∃ keys,
    addModifyProduct srv maxNameLength code true t (List.replicate n keyEnter) = .ok t keys

/-- Enter at every prompt keeps the table exactly when no character is refused, the code counts
once, and the row saved stands there already. -/
theorem entersKeep_iff {srv : Server} {maxNameLength : ℤ} {n : ℕ} {t : Table} {r : Row}
    (hrow : t.find? (fun q => q.code = r.code) = some r) (hcomma : comma ∉ r.name)
    (hquote : quote ∉ r.name) (hn : 15 ≤ n) :
    EntersKeep srv maxNameLength n r.code t ↔
      (productOf r).taxChar ∉ [0, comma, quote] ∧ 0 ∉ accepted maxNameLength r.name ∧
      codeCount (savedRow maxNameLength r).code t = 1 ∧ savedRow maxNameLength r ∈ t := by
  have hproduct : getProductData r.code t = .ok (productOf r) := by
    rw [getProductData, hrow]
  have hform : addModifyProduct srv maxNameLength r.code true t (List.replicate n keyEnter) =
      match formAnswers maxNameLength true (productOf r) (List.replicate n keyEnter) with
      | .ok none keys => .ok t keys
      | .ok (some answers) keys => (do
          let p ← orThrow (answers.toProduct (productOf r))
          orThrow (updateStock srv p t) : Input Table) keys
      | .error e keys => .error e keys := by
    rw [addModifyProduct, bind_apply, hproduct]
    simp only [orThrow, pure_apply, bind_apply]
    cases formAnswers maxNameLength true (productOf r) (List.replicate n keyEnter) with
    | error e keys => rfl
    | ok answers keys => cases answers <;> rfl
  unfold EntersKeep
  rw [hform]
  by_cases htax : (productOf r).taxChar = comma
  · obtain ⟨keys, h⟩ := formAnswers_comma maxNameLength (p := productOf r) hcomma htax n (by omega)
    rw [h]
    simp [htax]
  · obtain ⟨keys, h⟩ := formAnswers_enter maxNameLength (p := productOf r) hcomma htax n hn
    obtain ⟨p, hp, hsaved⟩ := toProduct_acceptedAnswers maxNameLength r
    have hname : p.name = accepted maxNameLength r.name := congrArg Row.name hsaved
    have htaxes : [p.taxChar] = [(productOf r).taxChar] :=
      (congrArg Row.tax hsaved).trans (congrArg (fun b => [b]) (taxChar_productOf r).symm)
    have hcode : p.code = (savedRow maxNameLength r).code := congrArg Row.code hsaved
    have hquote' : quote ∉ p.name := hname ▸ notMem_accepted (by decide) hquote
    have hself := updateStock_eq_self srv t hquote'
    rw [List.cons.injEq] at htaxes
    rw [hname, htaxes.1, hcode, hsaved] at hself
    have hkeep : (∃ keys', (do
        let p ← orThrow ((acceptedAnswers maxNameLength (productOf r)).toProduct (productOf r))
        orThrow (updateStock srv p t) : Input Table) keys = .ok t keys') ↔
        updateStock srv p t = .ok t := by
      simp only [bind_eq_ok, orThrow_eq_ok, hp]
      constructor
      · rintro ⟨_, q, _, ⟨hq, -⟩, hup, -⟩
        obtain rfl := Except.ok.inj hq
        exact hup
      · intro hup
        exact ⟨keys, p, keys, ⟨rfl, rfl⟩, hup, rfl⟩
    rw [h]
    simp only
    rw [hkeep, hself]
    constructor
    · rintro ⟨⟨hnul, h0, hq⟩, hcount, hmem⟩
      exact ⟨by simp [h0, htax, hq], hnul, hcount, hmem⟩
    · rintro ⟨hbyte, hnul, hcount, hmem⟩
      simp only [List.mem_cons, List.not_mem_nil, or_false, not_or] at hbyte
      exact ⟨⟨hnul, hbyte.1, hbyte.2.2⟩, hcount, hmem⟩

/-! ## The rows that come back -/

/-- The names that come back unchanged; the name "1" also does when all of it is cut. -/
def NameFits (maxNameLength : ℤ) (name : Str) : Prop :=
  name ≠ [] ∧ ((name.length : ℤ) ≤ toSizeT maxNameLength ∨ name = [49] ∧ maxNameLength ≤ 0)

/-- A text is accepted unchanged exactly when it fits. -/
theorem accepted_eq_iff {maxSize : ℤ} {s : Str} : accepted maxSize s = s ↔ NameFits maxSize s := by
  unfold accepted NameFits
  by_cases hs : s = []
  · simp [hs]
  by_cases hcut : toSizeT maxSize < s.length
  · have hlong : ¬((s.length : ℤ) ≤ toSizeT maxSize) := not_le.2 hcut
    simp only [if_pos hcut, ne_eq, hs, not_false_eq_true, true_and, hlong, false_or]
    by_cases hnil : s.take maxSize.toNat = []
    · have hzero : maxSize ≤ 0 := by
        rcases List.take_eq_nil_iff.1 hnil with h | h
        · omega
        · exact absurd h hs
      rw [if_pos hnil]
      constructor
      · intro h
        exact ⟨h.symm, hzero⟩
      · rintro ⟨h, -⟩
        exact h.symm
    · have hpos : 0 < maxSize := by
        by_contra hle
        have hzero : maxSize.toNat = 0 := by omega
        exact hnil (by rw [hzero, List.take_zero])
      have hsize : toSizeT maxSize = maxSize := by rw [toSizeT, if_neg (by omega)]
      rw [if_neg hnil]
      constructor
      · intro h
        have hlen := congrArg List.length h
        rw [List.length_take] at hlen
        omega
      · rintro ⟨-, h⟩
        omega
  · have hshort : (s.length : ℤ) ≤ toSizeT maxSize := not_lt.1 hcut
    simp [hcut, hs, hshort]

/-- The rows whose every field comes back unchanged. -/
structure RowFits (maxNameLength : ℤ) (r : Row) : Prop where
  name : NameFits maxNameLength r.name
  code : FitsInteger 14 r.code
  price : FitsDecimal 6 r.price
  discount : FitsInteger 2 r.discount
  tax : r.tax.length = 1
  stock : FitsDecimal 8 r.stock
  priceToStock : FitsDecimal 6 r.priceToStock
  soldBy : r.soldBy = 0 ∨ r.soldBy = 1 ∨ r.soldBy = 2

/-- The first character of a text is all of it when there is just one. -/
theorem singleton_headD_iff (s : Str) : [s.headD 0] = s ↔ s.length = 1 := by
  rcases s with _ | ⟨b, _ | ⟨c, s⟩⟩ <;> simp

/-- **A row comes back unchanged** exactly when every field fits its prompt. -/
theorem savedRow_eq_iff {maxNameLength : ℤ} {r : Row} :
    savedRow maxNameLength r = r ↔ RowFits maxNameLength r := by
  constructor
  · intro h
    exact ⟨accepted_eq_iff.1 (congrArg Row.name h),
      (cutInteger_eq_iff (by norm_num) _).1 (congrArg Row.code h),
      (cutDecimal_eq_iff (by norm_num) (by norm_num) _).1 (congrArg Row.price h),
      (cutInteger_eq_iff (by norm_num) _).1 (congrArg Row.discount h),
      (singleton_headD_iff _).1 (congrArg Row.tax h),
      (cutDecimal_eq_iff (by norm_num) (by norm_num) _).1 (congrArg Row.stock h),
      (cutDecimal_eq_iff (by norm_num) (by norm_num) _).1 (congrArg Row.priceToStock h),
      (toInt_toMesurments_iff _).1 (congrArg Row.soldBy h)⟩
  · intro h
    rw [savedRow, accepted_eq_iff.2 h.name, (cutInteger_eq_iff (by norm_num) _).2 h.code,
      (cutDecimal_eq_iff (by norm_num) (by norm_num) _).2 h.price,
      (cutInteger_eq_iff (by norm_num) _).2 h.discount, (singleton_headD_iff _).2 h.tax,
      (cutDecimal_eq_iff (by norm_num) (by norm_num) _).2 h.stock,
      (cutDecimal_eq_iff (by norm_num) (by norm_num) _).2 h.priceToStock,
      (toInt_toMesurments_iff _).2 h.soldBy]

/-- A bread at 1234.56. -/
def dearBread : Row := { bread with price := 1234.56 }

/-- Accepting the bread at 1234.56 makes it 1234.5. -/
theorem accept_cuts_price :
    comma ∉ dearBread.name ∧ quote ∉ dearBread.name ∧ dearBread.price * 10 ^ 6 = 1234560000 ∧
      ∀ n, 15 ≤ n → ¬EntersKeep strictServer 31 n dearBread.code [dearBread] := by
  refine ⟨by decide, by decide, by norm_num [dearBread], fun n hn h => ?_⟩
  have hkept := (entersKeep_iff (by rfl) (by decide) (by decide) hn).1 h
  have hsaved : savedRow 31 dearBread = dearBread := List.mem_singleton.1 hkept.2.2.2
  obtain ⟨-, -, k, hk⟩ := (savedRow_eq_iff.1 hsaved).price
  have hfloor : ⌊dearBread.price⌋₊ = 1234 := by
    rw [Nat.floor_eq_iff (by norm_num [dearBread])]
    norm_num [dearBread]
  have hlog : Nat.log 10 1234 = 3 := Nat.log_eq_of_pow_le_of_lt_pow (by norm_num) (by norm_num)
  have hwidth : width 1234 = 4 := by rw [width, hlog]
  rw [hfloor, hwidth] at hk
  have hnum : (123456 : ℚ) = (10 * k : ℕ) := by
    push_cast
    rw [← hk]
    norm_num [dearBread]
  have hnat : 123456 = 10 * k := by exact_mod_cast hnum
  omega

/-- **Accepting a product leaves the table alone** if and only if its texts can be written
at all, and its fields fit their prompts and its code is no other product's; or they do
not fit, but the table already holds the row that comes back, as the one under its code. -/
theorem accept_keeps_table_iff (srv : Server) (maxNameLength : ℤ) (t : Table) (r : Row) (n : ℕ)
    (hrow : t.find? (fun q => q.code = r.code) = some r) (hcomma : comma ∉ r.name)
    (hquote : quote ∉ r.name) (hn : 15 ≤ n) :
    EntersKeep srv maxNameLength n r.code t ↔
      ((productOf r).taxChar ∉ [0, comma, quote] ∧ 0 ∉ accepted maxNameLength r.name) ∧
      (RowFits maxNameLength r ∧ codeCount r.code t = 1 ∨
        ¬RowFits maxNameLength r ∧ codeCount (savedRow maxNameLength r).code t = 1 ∧
          savedRow maxNameLength r ∈ t) := by
  have hmem : r ∈ t := List.mem_of_find?_eq_some hrow
  rw [entersKeep_iff hrow hcomma hquote hn, and_assoc]
  by_cases hfits : RowFits maxNameLength r
  · rw [savedRow_eq_iff.2 hfits]
    simp [hfits, hmem]
  · simp [hfits]

/-- The bread fits its prompts. -/
theorem rowFits_bread : RowFits 31 bread where
  name := ⟨by decide, .inl (by decide)⟩
  code := ⟨by decide, by decide⟩
  price := fitsDecimal_natCast (n := 2) (by norm_num)
  discount := ⟨by decide, by decide⟩
  tax := rfl
  stock := fitsDecimal_natCast (n := 5) (by norm_num)
  priceToStock := fitsDecimal_natCast (n := 1) (by norm_num)
  soldBy := .inl rfl

/-- Accepting the bread. -/
theorem accept_keeps_bread : EntersKeep strictServer 31 15 1 [bread, milk] :=
  (accept_keeps_table_iff strictServer 31 [bread, milk] bread 15 rfl (by decide)
    (by decide) le_rfl).2 ⟨⟨by decide, by decide⟩, .inl ⟨rowFits_bread, by decide⟩⟩

end CliPos
