import Mathlib

/-!
# A point of sale

A shop that knows products by their codes, a cart, and the bills that were made out.
`Step` is everything that can happen: a product comes in or goes, a piece is taken or
returned, the bill of the cart is printed, or printed and paid.  A bill lists every code of
the cart once, with what it is and how many pieces there are, and its total is the sum of
the prices of the pieces.

Nothing leaves the cart on the quiet: every piece taken was returned, is on a bill that was
paid, or is in the cart (`Run.ledger`).
-/

set_option autoImplicit false

namespace PointOfSale

/-- A line for each code, with its product and the number of pieces, and the total. -/
structure Bill (κ ρ V : Type) where
  items : Multiset (κ × Option ρ × ℕ)
  total : V

/-- The products known, the pieces in the cart, and the bills in the order of printing. -/
structure Shop (κ ρ V : Type) where
  catalogue : κ → Option ρ
  cart : Multiset κ
  bills : List (Bill κ ρ V)

/-- What can happen. -/
inductive Event (κ ρ V : Type) where
  /-- A product is known from now on under a code, in the place of what was known there. -/
  | stocked (c : κ) (p : ρ)
  /-- Nothing is known under a code any more. -/
  | dropped (c : κ)
  /-- A piece goes into the cart. -/
  | taken (c : κ)
  /-- A piece goes out of the cart. -/
  | returned (c : κ)
  /-- The bill of the cart is printed. -/
  | printed (b : Bill κ ρ V)
  /-- The bill of the cart is printed and paid. -/
  | sold (b : Bill κ ρ V)

section

variable {κ ρ V : Type} [DecidableEq κ] [AddCommMonoid V] {price : ρ → V} {ok : κ → ρ → Prop}
  {s s' s'' : Shop κ ρ V} {e : Event κ ρ V} {es es' : List (Event κ ρ V)}

/-- The bill of the cart. -/
def Shop.bill (price : ρ → V) (s : Shop κ ρ V) : Bill κ ρ V where
  items := s.cart.dedup.map fun c => (c, s.catalogue c, s.cart.count c)
  total := (s.cart.map fun c => ((s.catalogue c).map price).getD 0).sum

/-- There is something in the cart, and all of it is known. -/
def Shop.Billable (s : Shop κ ρ V) : Prop := s.cart ≠ 0 ∧ ∀ c ∈ s.cart, (s.catalogue c).isSome

/-- One event; `ok` says which products may come in. -/
inductive Step (price : ρ → V) (ok : κ → ρ → Prop) (s : Shop κ ρ V) :
    Event κ ρ V → Shop κ ρ V → Prop
  | stocked (c : κ) (p : ρ) (h : ok c p) :
      Step price ok s (.stocked c p) { s with catalogue := Function.update s.catalogue c (some p) }
  | dropped (c : κ) :
      Step price ok s (.dropped c) { s with catalogue := Function.update s.catalogue c none }
  | taken (c : κ) (h : (s.catalogue c).isSome) :
      Step price ok s (.taken c) { s with cart := c ::ₘ s.cart }
  | returned (c : κ) (h : c ∈ s.cart) :
      Step price ok s (.returned c) { s with cart := s.cart.erase c }
  | printed (h : s.Billable) :
      Step price ok s (.printed (s.bill price)) { s with bills := s.bills ++ [s.bill price] }
  | sold (h : s.Billable) :
      Step price ok s (.sold (s.bill price))
        { s with cart := 0, bills := s.bills ++ [s.bill price] }

/-- Events one after another. -/
inductive Run (price : ρ → V) (ok : κ → ρ → Prop) :
    Shop κ ρ V → List (Event κ ρ V) → Shop κ ρ V → Prop
  | nil (s : Shop κ ρ V) : Run price ok s [] s
  | cons {s s' s'' : Shop κ ρ V} {e : Event κ ρ V} {es : List (Event κ ρ V)}
      (step : Step price ok s e s') (rest : Run price ok s' es s'') : Run price ok s (e :: es) s''

/-- One event is a run. -/
theorem Run.single (h : Step price ok s e s') : Run price ok s [e] s' := .cons h (.nil s')

/-- One run goes on with another. -/
theorem Run.append (h : Run price ok s es s') (h' : Run price ok s' es' s'') :
    Run price ok s (es ++ es') s'' := by
  induction h with
  | nil s => exact h'
  | cons step rest ih => exact .cons step (ih h')

/-- The bill of a cart can be printed any number of times. -/
theorem Run.printed (h : s.Billable) (n : ℕ) :
    Run price ok s (List.replicate n (.printed (s.bill price)))
      { s with bills := s.bills ++ List.replicate n (s.bill price) } := by
  induction n with
  | zero => simpa using Run.nil s
  | succ n ih =>
    have hlast : Step price ok { s with bills := s.bills ++ List.replicate n (s.bill price) }
        (.printed (s.bill price))
        { s with bills := s.bills ++ List.replicate n (s.bill price) ++ [s.bill price] } :=
      .printed h
    rw [List.replicate_succ', List.replicate_succ', ← List.append_assoc]
    exact ih.append (.single hlast)

/-- It can be printed any number of times before it is paid. -/
theorem Run.paid (h : s.Billable) (n : ℕ) :
    Run price ok s (List.replicate n (.printed (s.bill price)) ++ [.sold (s.bill price)])
      { s with cart := 0, bills := s.bills ++ List.replicate (n + 1) (s.bill price) } := by
  have hlast : Step price ok { s with bills := s.bills ++ List.replicate n (s.bill price) }
      (.sold (s.bill price))
      { s with cart := 0, bills := s.bills ++ List.replicate n (s.bill price) ++ [s.bill price] } :=
    .sold h
  rw [List.replicate_succ', ← List.append_assoc]
  exact (Run.printed h n).append (.single hlast)

/-! ## What a list of events says -/

/-- The codes of which a piece was taken. -/
def takenCodes (es : List (Event κ ρ V)) : List κ :=
  es.filterMap fun e => match e with | .taken c => some c | _ => none

/-- The codes of which a piece was returned. -/
def returnedCodes (es : List (Event κ ρ V)) : List κ :=
  es.filterMap fun e => match e with | .returned c => some c | _ => none

/-- The bills that were printed. -/
def billsOf (es : List (Event κ ρ V)) : List (Bill κ ρ V) :=
  es.filterMap fun e => match e with | .printed b | .sold b => some b | _ => none

/-- The bills that were paid. -/
def salesOf (es : List (Event κ ρ V)) : List (Bill κ ρ V) :=
  es.filterMap fun e => match e with | .sold b => some b | _ => none

omit [DecidableEq κ] [AddCommMonoid V] in
/-- What was paid was printed. -/
theorem salesOf_sublist (es : List (Event κ ρ V)) : (salesOf es).Sublist (billsOf es) := by
  induction es with
  | nil => exact .slnil
  | cons e es ih =>
    cases e with
    | stocked | dropped | taken | returned => exact ih
    | printed b => exact ih.cons b
    | sold b => exact ih.cons_cons b

/-- The pieces of a code on a bill. -/
def Bill.pieces (c : κ) (b : Bill κ ρ V) : ℕ :=
  ((b.items.filter fun i => i.1 = c).map fun i => i.2.2).sum

/-- **The bill of a cart** has every piece of it. -/
@[simp] theorem pieces_bill (c : κ) : (s.bill price).pieces c = s.cart.count c := by
  have hlines : (s.cart.dedup.filter fun d => d = c) =
      Multiset.replicate (if c ∈ s.cart then 1 else 0) c := by
    rw [Multiset.filter_eq', Multiset.count_dedup]
  unfold Bill.pieces Shop.bill
  rw [Multiset.filter_map, Multiset.map_map]
  simp only [Function.comp_def, hlines, Multiset.map_replicate, Multiset.sum_replicate]
  split_ifs with hc
  · rw [one_nsmul]
  · rw [zero_nsmul, Multiset.count_eq_zero_of_notMem hc]

/-! ## Over a run -/

/-- **The bills of a shop** are the ones printed, in order. -/
theorem Run.bills_eq (h : Run price ok s es s') : s'.bills = s.bills ++ billsOf es := by
  induction h with
  | nil s => exact (List.append_nil _).symm
  | cons step rest ih =>
    rw [ih]
    cases step with
    | stocked | dropped | taken | returned => rfl
    | printed hb => exact List.append_assoc _ _ _
    | sold hb => exact List.append_assoc _ _ _

/-- **The ledger**: every piece taken was returned, is on a bill that was paid, or is in
the cart. -/
theorem Run.ledger (h : Run price ok s es s') (c : κ) :
    s.cart.count c + (takenCodes es).count c =
      (returnedCodes es).count c + ((salesOf es).map (Bill.pieces c)).sum + s'.cart.count c := by
  induction h with
  | nil s => simp [takenCodes, returnedCodes, salesOf]
  | @cons s s₁ s₂ e es step rest ih =>
    cases step with
    | stocked | dropped | printed => exact ih
    | taken d hd =>
      have hcart : (d ::ₘ s.cart).count c = s.cart.count c + if d = c then 1 else 0 := by
        simp only [Multiset.count_cons, eq_comm]
      have htaken : (takenCodes (.taken d :: es)).count c =
          (takenCodes es).count c + if d = c then 1 else 0 := by
        simp [takenCodes, List.count_cons]
      calc s.cart.count c + (takenCodes (.taken d :: es)).count c
          = (d ::ₘ s.cart).count c + (takenCodes es).count c := by rw [htaken, hcart]; omega
        _ = _ := ih
    | returned d hd =>
      have hcart : s.cart.count c = (s.cart.erase d).count c + if d = c then 1 else 0 := by
        conv_lhs => rw [← Multiset.cons_erase hd]
        simp only [Multiset.count_cons, eq_comm]
      have hreturned : (returnedCodes (.returned d :: es)).count c =
          (returnedCodes es).count c + if d = c then 1 else 0 := by
        simp [returnedCodes, List.count_cons]
      calc s.cart.count c + (takenCodes es).count c
          = ((s.cart.erase d).count c + (takenCodes es).count c) + if d = c then 1 else 0 := by
            rw [hcart]; omega
        _ = ((returnedCodes es).count c + ((salesOf es).map (Bill.pieces c)).sum +
              s₂.cart.count c) + if d = c then 1 else 0 := by rw [← ih]
        _ = (returnedCodes (.returned d :: es)).count c +
              ((salesOf es).map (Bill.pieces c)).sum + s₂.cart.count c := by
            rw [hreturned]; omega
    | sold hb =>
      have hsales : ((salesOf (.sold (s.bill price) :: es)).map (Bill.pieces c)).sum =
          s.cart.count c + ((salesOf es).map (Bill.pieces c)).sum := by
        simp [salesOf]
      have hpaid : (takenCodes es).count c = (returnedCodes es).count c +
          ((salesOf es).map (Bill.pieces c)).sum + s₂.cart.count c := by
        rw [← ih, Multiset.count_zero, Nat.zero_add]
      change s.cart.count c + (takenCodes es).count c = (returnedCodes es).count c + _ + _
      rw [hsales, hpaid]
      omega

/-- **What is known stays valid**, when only valid products come in. -/
theorem Run.catalogue_valid {Q : κ → ρ → Prop} (h : Run price ok s es s')
    (hok : ∀ c p, ok c p → Q c p) (hs : ∀ c p, s.catalogue c = some p → Q c p) :
    ∀ c p, s'.catalogue c = some p → Q c p := by
  induction h with
  | nil s => exact hs
  | @cons s s₁ s₂ e es step rest ih =>
    refine ih fun c p hp => ?_
    cases step with
    | stocked d q hq =>
      change Function.update s.catalogue d (some q) c = some p at hp
      by_cases hc : c = d
      · subst hc
        rw [Function.update_self, Option.some.injEq] at hp
        exact hp ▸ hok c q hq
      · rw [Function.update_of_ne hc] at hp
        exact hs c p hp
    | dropped d =>
      change Function.update s.catalogue d none c = some p at hp
      by_cases hc : c = d
      · subst hc
        simp at hp
      · rw [Function.update_of_ne hc] at hp
        exact hs c p hp
    | taken | returned | printed | sold => exact hs c p hp

end

end PointOfSale
