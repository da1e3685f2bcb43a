import Mathlib.Data.List.AList
import Mathlib.Data.List.Nodup

/-!
# Maps that keep their first value

Inserting a key that a map holds already changes nothing.  A list of pairs inserted into the
empty map gives one entry for each of them when their keys are distinct (`keys_insertAll`,
`lookup_insertAll`), and never more entries than pairs (`length_keys_insertAll_le`).
-/

set_option autoImplicit false

namespace FirstInsert

variable {α β : Type} [DecidableEq α] {m : AList fun _ : α => β} {a c : α} {b : β}
  {entries : List (α × β)}

/-- Insert a key with its value, unless the key is there. -/
def insertNew (m : AList fun _ : α => β) (a : α) (b : β) : AList fun _ : α => β :=
  if a ∈ m then m else m.insert a b

/-- Insert one pair after the other. -/
def insertAll (m : AList fun _ : α => β) (entries : List (α × β)) : AList fun _ : α => β :=
  entries.foldl (fun m e => insertNew m e.1 e.2) m

/-- Inserting nothing. -/
@[simp] theorem insertAll_nil : insertAll m [] = m := rfl

/-- Inserting the first entry, and then the others. -/
@[simp] theorem insertAll_cons (e : α × β) :
    insertAll m (e :: entries) = insertAll (insertNew m e.1 e.2) entries := rfl

/-! ## One pair -/

/-- A new key is added to the keys. -/
theorem keys_insertNew_of_notMem (h : a ∉ m) : (insertNew m a b).keys = a :: m.keys := by
  rw [insertNew, if_neg h, AList.keys_insert, List.erase_of_not_mem h]

/-- An insertion adds one key at most. -/
theorem length_keys_insertNew_le : (insertNew m a b).keys.length ≤ m.keys.length + 1 := by
  by_cases h : a ∈ m
  · rw [insertNew, if_pos h]
    exact Nat.le_succ _
  · rw [keys_insertNew_of_notMem h, List.length_cons]

/-- A new key has its value. -/
theorem lookup_insertNew_of_notMem (h : a ∉ m) : (insertNew m a b).lookup a = some b := by
  rw [insertNew, if_neg h, AList.lookup_insert]

/-- The other keys keep theirs. -/
theorem lookup_insertNew_of_ne (h : c ≠ a) : (insertNew m a b).lookup c = m.lookup c := by
  unfold insertNew
  split_ifs
  · rfl
  · rw [AList.lookup_insert_ne h]

/-! ## All pairs -/

/-- There are no more new keys than entries. -/
theorem length_keys_insertAll_le :
    (insertAll m entries).keys.length ≤ m.keys.length + entries.length := by
  induction entries generalizing m with
  | nil => exact le_rfl
  | cons e entries ih =>
    have hone : (insertNew m e.1 e.2).keys.length ≤ m.keys.length + 1 := length_keys_insertNew_le
    rw [insertAll_cons, List.length_cons]
    exact le_trans ih (by omega)

/-- A key that is in none of the pairs keeps its value. -/
theorem lookup_insertAll_of_notMem (h : c ∉ entries.map Prod.fst) :
    (insertAll m entries).lookup c = m.lookup c := by
  induction entries generalizing m with
  | nil => rfl
  | cons e entries ih =>
    rw [List.map_cons, List.mem_cons, not_or] at h
    rw [insertAll_cons, ih h.2, lookup_insertNew_of_ne h.1]

/-- **One key a pair,** when the keys are distinct and new. -/
theorem keys_insertAll (hnodup : (entries.map Prod.fst).Nodup)
    (hnew : ∀ e ∈ entries, e.1 ∉ m) :
    (insertAll m entries).keys.Perm (m.keys ++ entries.map Prod.fst) := by
  induction entries generalizing m with
  | nil => rw [List.map_nil, List.append_nil, insertAll_nil]
  | cons e entries ih =>
    rw [List.map_cons, List.nodup_cons] at hnodup
    have he : e.1 ∉ m := hnew e List.mem_cons_self
    have hrest : ∀ e' ∈ entries, e'.1 ∉ insertNew m e.1 e.2 := by
      intro e' he' hmem
      rw [AList.mem_keys, keys_insertNew_of_notMem he, List.mem_cons] at hmem
      rcases hmem with hsame | hold
      · exact hnodup.1 (hsame ▸ List.mem_map_of_mem he')
      · exact hnew e' (List.mem_cons_of_mem _ he') hold
    have hperm := ih hnodup.2 hrest
    rw [keys_insertNew_of_notMem he, List.cons_append] at hperm
    exact hperm.trans List.perm_middle.symm

/-- **Every pair is found,** when the keys are distinct and new. -/
theorem lookup_insertAll (hnodup : (entries.map Prod.fst).Nodup)
    (hnew : ∀ e ∈ entries, e.1 ∉ m) {e : α × β} (he : e ∈ entries) :
    (insertAll m entries).lookup e.1 = some e.2 := by
  obtain ⟨before, behind, rfl⟩ := List.append_of_mem he
  rw [List.map_append, List.map_cons, List.nodup_append, List.nodup_cons] at hnodup
  obtain ⟨-, ⟨hbehind, -⟩, hbefore⟩ := hnodup
  have hfresh : e.1 ∉ before.map Prod.fst := fun h => hbefore _ h _ List.mem_cons_self rfl
  have hkept : e.1 ∉ insertAll m before := by
    rw [← AList.lookup_eq_none, lookup_insertAll_of_notMem hfresh, AList.lookup_eq_none]
    exact hnew e he
  have hsplit : insertAll m (before ++ e :: behind) =
      insertAll (insertNew (insertAll m before) e.1 e.2) behind := List.foldl_append
  rw [hsplit, lookup_insertAll_of_notMem hbehind, lookup_insertNew_of_notMem hkept]

end FirstInsert
