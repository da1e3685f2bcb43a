import CliPos.Analysis.Upsert
import CliPos.Analysis.Accept

/-!
# A code changed in the form

`update_stock` is told the new code only: it writes over the row of that code, or adds one,
and never touches the row that was edited.  So a product keeps its place in the table only
when its code is left as it was (`code_moves_iff`).
-/

set_option autoImplicit false

namespace CliPos

open Decimal Halting Keyed

/-- The row under `code` became the row of `p`: as many rows as before, the rows of other
codes as they were, the row of `p` among them, and none left under a code that `p` gave
up. -/
structure Moved (code : ℤ) (p : Product) (t t' : Table) : Prop where
  count : t'.length = t.length
  others : ∀ r ∈ t, r.code ≠ code → r ∈ t'
  stored : rowOf p ∈ t'
  gone : p.code ≠ code → ∀ r ∈ t', r.code ≠ code

/-- A form that ended with a product to save, and returned, saved it. -/
theorem updateStock_of_formSaves {srv : Server} {maxNameLength code : ℤ} {modify : Bool}
    {t t' : Table} {keys keys' : List Key} {p : Product}
    (hform : FormSaves maxNameLength code modify t keys p)
    (h : addModifyProduct srv maxNameLength code modify t keys = .ok t' keys') :
    updateStock srv p t = .ok t' := by
  obtain ⟨q, answers, rest, hq, hanswers, hp⟩ := hform
  simp only [addModifyProduct, bind_eq_ok, orThrow_eq_ok] at h
  obtain ⟨q', _, ⟨hq', rfl⟩, answers', rest', hanswers', h⟩ := h
  obtain rfl := Except.ok.inj (hq.symm.trans hq')
  obtain ⟨rfl, rfl⟩ := (EStateM.Result.ok.injEq ..).mp (hanswers.symm.trans hanswers')
  simp only [bind_eq_ok, orThrow_eq_ok] at h
  obtain ⟨p', _, ⟨hp', rfl⟩, hup, -⟩ := h
  obtain rfl := Except.ok.inj (hp.symm.trans hp')
  exact hup

/-- **A row put under its own code is moved.** -/
theorem moved_put {t : Table} {p : Product} (hrow : ∃ r ∈ t, r.code = p.code) :
    Moved p.code p t (put Row.code (rowOf p) t) where
  count := by
    have hcount : ∃ r ∈ t, r.code = (rowOf p).code := hrow
    rw [length_put, if_pos hcount, Nat.add_zero]
  others _ hr hne := mem_put_of_ne hr hne
  stored := mem_put_self _ _
  gone hne := absurd rfl hne

/-- **A row put under another code is not**: the old row is still there. -/
theorem not_moved_put {t : Table} {p : Product} {r : Row} (hr : r ∈ t)
    (hne : p.code ≠ r.code) : ¬Moved r.code p t (put Row.code (rowOf p) t) :=
  fun h => h.gone hne r (mem_put_of_ne hr hne.symm) rfl

/-- The product that the form ends with, when it does. -/
def savedProduct (maxNameLength code : ℤ) (modify : Bool) (t : Table) (keys : List Key) :
    Option Product :=
  match getProductData code t with
  | .error _ => none
  | .ok q =>
    match formAnswers maxNameLength modify q keys with
    | .ok (some answers) _ => (answers.toProduct q).toOption
    | _ => none

/-- What is computed to be saved is saved. -/
theorem formSaves_of_savedProduct {maxNameLength code : ℤ} {modify : Bool} {t : Table}
    {keys : List Key} {p : Product} (h : savedProduct maxNameLength code modify t keys = some p) :
    FormSaves maxNameLength code modify t keys p := by
  unfold savedProduct at h
  cases hq : getProductData code t with
  | error e => simp [hq] at h
  | ok q =>
    cases ha : formAnswers maxNameLength modify q keys with
    | error e rest => simp [hq, ha] at h
    | ok answers rest =>
      cases answers with
      | none => simp [hq, ha] at h
      | some answers =>
        simp only [hq, ha] at h
        refine ⟨q, answers, rest, hq, ha, ?_⟩
        cases hp : answers.toProduct q with
        | error e => simp [hp, Except.toOption] at h
        | ok p' =>
          rw [hp] at h
          obtain rfl := Option.some.inj h
          rfl

/-- The bread under the code 7. -/
def breadSeven : Product := { productOf bread with code := 7 }

/-- The bread's code is changed to one that is free: its old row stays. -/
theorem changed_code_keeps_row :
    let keys := keyEnter :: charKey '7' :: List.replicate 9 keyEnter
    DistinctCodes [bread, milk] ∧ FormSaves 31 1 true [bread, milk] keys breadSeven ∧
      addModifyProduct strictServer 31 1 true [bread, milk] keys =
        .ok [bread, milk, rowOf breadSeven] [] ∧
      ¬Moved 1 breadSeven [bread, milk] [bread, milk, rowOf breadSeven] := by
  refine ⟨by decide, ?_, ?_, fun h => ?_⟩
  · exact formSaves_of_savedProduct (by decide +kernel)
  · exact valueOf_eq_some.1 (by decide +kernel)
  · exact absurd h.count (by decide)

/-- **A modified product is moved** to the code entered exactly when that is the code it
has; for a name that holds a quote the table afterwards is what the server made of the text
it was sent. -/
theorem code_moves_iff (srv : Server) (maxNameLength code : ℤ) (t t' : Table)
    (keys keys' : List Key) (p : Product)
    (hform : FormSaves maxNameLength code true t keys p)
    (h : addModifyProduct srv maxNameLength code true t keys = .ok t' keys') :
    (quote ∉ p.name → (Moved code p t t' ↔ p.code = code)) ∧
      (quote ∈ p.name → ∃ update, productExists p.code t = .ok update ∧
        srv.quoted update p t = some t') := by
  have hup := updateStock_of_formSaves hform h
  obtain ⟨q, answers, rest, hq, -, -⟩ := hform
  obtain ⟨r, hr, rfl, -⟩ := getProductData_eq_ok hq
  constructor
  · intro hquote
    obtain rfl := updateStock_eq_put hquote hup
    constructor
    · intro hmoved
      by_contra hne
      exact not_moved_put hr hne hmoved
    · intro hcode
      rw [← hcode]
      exact moved_put ⟨r, hr, hcode.symm⟩
  · intro hquote
    unfold updateStock at hup
    obtain ⟨update, hexists, hup⟩ := except_bind_eq_ok.1 hup
    rw [if_pos hquote] at hup
    cases hanswer : srv.quoted update p t with
    | none => simp [hanswer] at hup
    | some u =>
      simp only [hanswer, Except.ok.injEq] at hup
      exact ⟨update, hexists, hanswer.trans (congrArg some hup)⟩

/-- The bread, accepted under its own code, is moved. -/
theorem code_moves_bread : Moved 1 (productOf bread) [bread, milk] [bread, milk] := by
  have hform : FormSaves 31 1 true [bread, milk] (List.replicate 10 keyEnter) (productOf bread) :=
    formSaves_of_savedProduct (by decide +kernel)
  have hreturns : addModifyProduct strictServer 31 1 true [bread, milk]
      (List.replicate 10 keyEnter) = .ok [bread, milk] [] :=
    valueOf_eq_some.1 (by decide +kernel)
  have h := code_moves_iff strictServer 31 1 _ _ _ _ _ hform hreturns
  exact (h.1 (by decide)).2 rfl

end CliPos
