import Mathlib.Data.List.Nodup

/-!
# Rows under keys

A table as a list of rows, each under a key.  `put` writes a row in the place of the rows
under its key, or behind the others when there is none.  It keeps the keys distinct, leaves
the rows under other keys alone, and is read back under its key.
-/

set_option autoImplicit false

namespace Keyed

variable {α κ : Type} [DecidableEq κ] {key : α → κ} {a b : α} {k : κ} {rows : List α}

/-- No key has two rows. -/
def Distinct (key : α → κ) (rows : List α) : Prop := (rows.map key).Nodup

/-- Whether the keys are distinct can be tested. -/
instance : Decidable (Distinct key rows) := by
  unfold Distinct
  infer_instance

/-- The rows under a key. -/
def rowsUnder (key : α → κ) (k : κ) (rows : List α) : List α := rows.filter fun b => key b = k

/-- The rows under the other keys. -/
def others (key : α → κ) (k : κ) (rows : List α) : List α := rows.filter fun b => key b ≠ k

/-- Write `a` over the rows under its key. -/
def update (key : α → κ) (a : α) (rows : List α) : List α :=
  rows.map fun b => if key b = key a then a else b

/-- Write `a` over the rows under its key, or behind the others when there is none. -/
def put (key : α → κ) (a : α) (rows : List α) : List α :=
  if ∃ b ∈ rows, key b = key a then update key a rows else rows ++ [a]

/-! ## One key -/

omit [DecidableEq κ] in
/-- Rows with one key are one row. -/
theorem Distinct.eq (h : Distinct key rows) (ha : a ∈ rows) (hb : b ∈ rows)
    (hkey : key a = key b) : a = b :=
  List.inj_on_of_nodup_map h ha hb hkey

omit [DecidableEq κ] in
/-- Rows with distinct keys are distinct. -/
theorem Distinct.nodup (h : Distinct key rows) : rows.Nodup := List.Nodup.of_map _ h

/-- No row is under a key that no row has. -/
theorem rowsUnder_eq_nil : rowsUnder key k rows = [] ↔ ∀ b ∈ rows, key b ≠ k := by
  simp [rowsUnder, List.filter_eq_nil_iff]

/-- Under a key of a table with distinct keys there is its row and no other. -/
theorem Distinct.rowsUnder_eq (h : Distinct key rows) (ha : a ∈ rows) :
    rowsUnder key (key a) rows = [a] := by
  have hmem : ∀ b, b ∈ rowsUnder key (key a) rows ↔ b = a := by
    intro b
    simp only [rowsUnder, List.mem_filter, decide_eq_true_eq]
    constructor
    · rintro ⟨hb, hkey⟩
      exact h.eq hb ha hkey
    · rintro rfl
      exact ⟨ha, rfl⟩
  have hnodup : (rowsUnder key (key a) rows).Nodup := h.nodup.filter _
  exact List.perm_singleton.1 ((List.perm_ext_iff_of_nodup hnodup (List.nodup_singleton a)).2
    fun b => (hmem b).trans List.mem_singleton.symm)

/-- **A table has distinct keys** exactly when no key has more than one row. -/
theorem distinct_iff : Distinct key rows ↔ ∀ k, (rowsUnder key k rows).length ≤ 1 := by
  constructor
  · intro h k
    rcases Classical.em (∃ a ∈ rows, key a = k) with ⟨a, ha, rfl⟩ | hnone
    · exact Nat.le_of_eq (congrArg List.length (h.rowsUnder_eq ha))
    · have hnil : rowsUnder key k rows = [] :=
        rowsUnder_eq_nil.2 fun b hb hkey => hnone ⟨b, hb, hkey⟩
      rw [hnil]
      exact Nat.zero_le 1
  · intro h
    refine List.nodup_iff_count_le_one.2 fun k => ?_
    have hcount : (rows.map key).count k = (rowsUnder key k rows).length := by
      rw [List.count, List.countP_map, List.countP_eq_length_filter]
      rfl
    rw [hcount]
    exact h k

/-- The other rows have distinct keys, too. -/
theorem Distinct.others (h : Distinct key rows) (k : κ) : Distinct key (others key k rows) :=
  (List.filter_sublist.map key).nodup h

/-! ## Writing a row -/

/-- An update leaves the keys. -/
@[simp] theorem map_update : (update key a rows).map key = rows.map key := by
  rw [update, List.map_map]
  refine List.map_congr_left fun b _ => ?_
  rw [Function.comp_apply]
  split_ifs with h
  · exact h.symm
  · rfl

/-- It leaves the number of rows. -/
@[simp] theorem length_update : (update key a rows).length = rows.length := List.length_map _

/-- **Writing a row keeps the keys distinct.** -/
theorem Distinct.put (h : Distinct key rows) (a : α) : Distinct key (put key a rows) := by
  unfold Keyed.put
  split_ifs with hkey
  · rwa [Distinct, map_update]
  · rw [Distinct, List.map_append, List.map_singleton]
    refine List.Nodup.append h (List.nodup_singleton _) (List.disjoint_singleton.2 ?_)
    rw [List.mem_map]
    exact hkey

/-- **Writing a row leaves the rows under other keys alone.** -/
theorem others_put (a : α) (rows : List α) :
    others key (key a) (put key a rows) = others key (key a) rows := by
  have hupdate : others key (key a) (update key a rows) = others key (key a) rows := by
    induction rows with
    | nil => rfl
    | cons b rows ih =>
      simp only [others, update, List.map_cons, List.filter_cons] at ih ⊢
      by_cases h : key b = key a
      · simp only [h, if_true, ne_eq, not_true_eq_false, decide_false, Bool.false_eq_true, if_false]
        exact ih
      · simp only [h, if_false, ne_eq, not_false_eq_true, decide_true, if_true, ih]
  unfold put
  split_ifs with hkey
  · exact hupdate
  · simp [others]

/-- **Writing a row adds one row** under a new key and none under an old one. -/
theorem length_put (a : α) (rows : List α) :
    (put key a rows).length = rows.length + if ∃ b ∈ rows, key b = key a then 0 else 1 := by
  unfold put
  split_ifs with hkey
  · simp
  · simp

/-- A row that was put is there. -/
theorem mem_put_self (a : α) (rows : List α) : a ∈ put key a rows := by
  unfold put
  split_ifs with hkey
  · obtain ⟨b, hb, hba⟩ := hkey
    exact List.mem_map.2 ⟨b, hb, if_pos hba⟩
  · exact List.mem_append_right _ (List.mem_singleton_self a)

/-- A row of another key stays. -/
theorem mem_put_of_ne (hb : b ∈ rows) (hne : key b ≠ key a) : b ∈ put key a rows := by
  have hothers : b ∈ others key (key a) (put key a rows) := by
    rw [others_put, others, List.mem_filter]
    exact ⟨hb, decide_eq_true hne⟩
  exact List.mem_of_mem_filter hothers

/-- **The row written is the one under its key.** -/
theorem Distinct.rowsUnder_put (h : Distinct key rows) (a : α) :
    rowsUnder key (key a) (Keyed.put key a rows) = [a] :=
  (h.put a).rowsUnder_eq (mem_put_self a rows)

end Keyed
