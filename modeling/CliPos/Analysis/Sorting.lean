import CliPos.Model.Sorting
import CliPos.Lib.Bubble
import Mathlib.Data.List.Lex

/-!
# Sorting names

The inner loop of `bubble_sort` swaps neighbours of which the first comes after the second,
and each swap lowers the number of pairs that stand the wrong way round by one
(`swaps_settle`).  So passes without a swap are reached soon; but no pass sets the flag that
the outer loop waits for, and `bubble_sort` returns on no list (`bubble_sort_never_sorts`).
-/

set_option autoImplicit false

namespace CliPos

open Decimal Bubble

variable {v w : List Str} {i rounds : ℕ} {sorted : Bool} {s s' : List Str × Bool}

/-! ## The comparison -/

/-- `compare_string` does not hold both ways. -/
theorem compareString_asymm {s1 s2 : Str} (h : compareString s1 s2 = true) :
    compareString s2 s1 = false := by
  induction s1 generalizing s2 with
  | nil => cases h
  | cons a s1 ih =>
    cases s2 with
    | nil => cases h
    | cons b s2 =>
      rw [compareString] at h ⊢
      split_ifs at h ⊢ with hgt hlt hlt'
      · omega
      · rfl
      · exact ih h

/-! ## A round -/

/-- What a round did: it left the list and the flag alone, or it swapped two neighbours and
reset the flag. -/
inductive Round (i : ℕ) (s : List Str × Bool) : List Str × Bool → Prop
  | still : Round i s s
  | swapped {a b : Str} (ha : s.1[i]? = some a) (hb : s.1[i + 1]? = some b)
      (hafter : compareString a b = true) : Round i s ((s.1.set i b).set (i + 1) a, false)

/-- A round reads inside the list. -/
theorem exists_bubbleRound (h : i + 1 < s.1.length) :
    ∃ s', bubbleRound i s = some s' ∧ Round i s s' := by
  have ha : s.1[i]? = some s.1[i] := List.getElem?_eq_getElem (by omega)
  have hb : s.1[i + 1]? = some s.1[i + 1] := List.getElem?_eq_getElem h
  simp only [bubbleRound, ha, hb, Option.bind_eq_bind, Option.bind_some]
  split_ifs with hafter
  · exact ⟨_, rfl, .swapped ha hb hafter⟩
  · exact ⟨_, rfl, .still⟩

/-- **A swap** keeps the entries, and lowers the number of pairs by exactly one. -/
theorem swap_lowers {a b : Str} (ha : v[i]? = some a) (hb : v[i + 1]? = some b)
    (hafter : compareString a b = true) :
    ((v.set i b).set (i + 1) a).Perm v ∧
      inverted compareString ((v.set i b).set (i + 1) a) + 1 = inverted compareString v := by
  obtain ⟨front, rest, hv, hswap⟩ := exists_neighbours ha hb
  rw [hswap, hv]
  constructor
  · exact (List.Perm.swap a b rest).append_left front
  · exact (inverted_swap hafter (compareString_asymm hafter) front rest).symm

/-! ## A pass -/

/-- What rounds did: nothing, or they reset the flag and lowered the number of pairs. -/
structure Passed (s s' : List Str × Bool) : Prop where
  perm : s'.1.Perm s.1
  lower : s' = s ∨ s'.2 = false ∧
    inverted compareString s'.1 < inverted compareString s.1

/-- Passing over nothing. -/
theorem Passed.refl (s : List Str × Bool) : Passed s s := ⟨.refl _, .inl rfl⟩

/-- Passing over one part, and over the next. -/
theorem Passed.trans {s'' : List Str × Bool} (h : Passed s s') (h' : Passed s' s'') :
    Passed s s'' := by
  refine ⟨h'.perm.trans h.perm, ?_⟩
  rcases h'.lower with rfl | ⟨hflag, hlt⟩
  · exact h.lower
  · refine .inr ⟨hflag, ?_⟩
    rcases h.lower with rfl | ⟨-, hlt'⟩
    · exact hlt
    · exact hlt.trans hlt'

/-- A round passes over one pair. -/
theorem Round.passed (h : Round i s s') : Passed s s' := by
  cases h with
  | still => exact .refl s
  | swapped ha hb hafter =>
    obtain ⟨hperm, hlower⟩ := swap_lowers ha hb hafter
    exact ⟨hperm, .inr ⟨rfl, Nat.lt_of_succ_le hlower.le⟩⟩

/-- A loop inside the list ends, and has passed over its pairs. -/
theorem exists_bubbleLoop (h : i + rounds < s.1.length) :
    ∃ s', bubbleLoop rounds i s = some s' ∧ Passed s s' := by
  induction rounds generalizing i s with
  | zero => exact ⟨s, rfl, .refl s⟩
  | succ rounds ih =>
    obtain ⟨t, hround, hdid⟩ := @exists_bubbleRound i s (by omega)
    have hlength : t.1.length = s.1.length := hdid.passed.perm.length_eq
    obtain ⟨s', hloop, hrest⟩ := @ih (i + 1) t (by omega)
    refine ⟨s', ?_, hdid.passed.trans hrest⟩
    rw [bubbleLoop, hround]
    exact hloop

/-- The rounds of a pass over a list with an entry. -/
theorem sizeMinusOne_of_pos {size : ℕ} (h : 0 < size) : (sizeMinusOne size).toNat = size - 1 := by
  rw [sizeMinusOne, toSizeT_of_nonneg (by omega)]
  omega

/-- **A pass** over a list with an entry reads inside it. -/
theorem exists_bubblePass (h : s.1 ≠ []) : ∃ s', bubblePass s = some s' ∧ Passed s s' := by
  have hpos : 0 < s.1.length := List.length_pos_of_ne_nil h
  rw [bubblePass, sizeMinusOne_of_pos hpos]
  exact exists_bubbleLoop (by omega)

/-! ## Passes without a swap -/

/-- The list after so many passes. -/
def bubblePasses : ℕ → List Str → Option (List Str)
  | 0, v => some v
  | passes + 1, v => do
    let (v, _) ← bubblePass (v, true)
    bubblePasses passes v

/-- A pass over the list makes no swap: it leaves the flag set. -/
def SwapFree (v : List Str) : Prop := ∃ w, bubblePass (v, true) = some (w, true)

/-- A pass makes no swap, or lowers the number of pairs. -/
theorem swapFree_or_lower (hv : v ≠ []) : SwapFree v ∨ ∃ w sorted,
    bubblePass (v, true) = some (w, sorted) ∧ w.Perm v ∧
      inverted compareString w < inverted compareString v := by
  obtain ⟨⟨w, sorted⟩, hpass, hperm, hlower⟩ := @exists_bubblePass (v, true) hv
  rcases hlower with hstill | ⟨-, hlt⟩
  · rw [hstill] at hpass
    exact .inl ⟨v, hpass⟩
  · exact .inr ⟨w, sorted, hpass, hperm, hlt⟩

/-- **Passes settle** a list after at most as many of them as it has pairs that stand the
wrong way round. -/
theorem exists_settled {n : ℕ} (hv : v ≠ []) (hn : inverted compareString v ≤ n) :
    ∃ k ≤ n, ∃ w, bubblePasses k v = some w ∧ w.Perm v ∧ SwapFree w := by
  induction n generalizing v with
  | zero =>
    rcases swapFree_or_lower hv with hfree | ⟨u, sorted, -, -, hlt⟩
    · exact ⟨0, le_rfl, v, rfl, .refl v, hfree⟩
    · exact absurd (hlt.trans_le hn) (Nat.not_lt_zero _)
  | succ n ih =>
    rcases swapFree_or_lower hv with hfree | ⟨u, sorted, hpass, hperm, hlt⟩
    · exact ⟨0, Nat.zero_le _, v, rfl, .refl v, hfree⟩
    · have hne : u ≠ [] := fun hnil => hv (hnil ▸ hperm).symm.eq_nil
      have hlower : inverted compareString u ≤ n := Nat.lt_succ_iff.1 (hlt.trans_le hn)
      obtain ⟨k, hk, w, hpasses, hperm', hfree⟩ := ih hne hlower
      refine ⟨k + 1, Nat.succ_le_succ hk, w, ?_, hperm'.trans hperm, hfree⟩
      rw [bubblePasses, hpass]
      exact hpasses

/-- Once the flag is reset, it stays so. -/
theorem Passed.flag (h : Passed s s') (hflag : s.2 = false) : s'.2 = false := by
  rcases h.lower with rfl | ⟨hreset, -⟩
  · exact hflag
  · exact hreset

/-- Rounds that leave the flag set met no neighbours that stand the wrong way round. -/
theorem bubbleLoop_settled (h : i + rounds < v.length)
    (hloop : bubbleLoop rounds i (v, true) = some (w, true)) {j : ℕ} (hj : i ≤ j)
    (hj' : j < i + rounds) {a b : Str} (ha : v[j]? = some a) (hb : v[j + 1]? = some b) :
    compareString a b = false := by
  induction rounds generalizing i with
  | zero => omega
  | succ rounds ih =>
    obtain ⟨t, hround, hdid⟩ := @exists_bubbleRound i (v, true) (by dsimp only; omega)
    rw [bubbleLoop, hround] at hloop
    cases hdid with
    | still =>
      rcases Nat.eq_or_lt_of_le hj with rfl | hlt
      · by_contra hafter
        have hfalse : bubbleRound i (v, true) = some ((v.set i b).set (i + 1) a, false) := by
          simp [bubbleRound, ha, hb, hafter]
        have hflags := (Prod.mk.inj (Option.some.inj (hround.symm.trans hfalse))).2
        cases hflags
      · exact ih (by omega) hloop hlt (by omega)
    | swapped ha' hb' hafter =>
      obtain ⟨s', hrest, hpassed⟩ := @exists_bubbleLoop (i + 1) rounds
        ((v.set i _).set (i + 1) _, false) (by simpa using by omega)
      have hflag := hpassed.flag rfl
      obtain rfl := Option.some.inj (hrest.symm.trans hloop)
      cases hflag

/-- A list that a pass leaves alone has no neighbours that stand the wrong way round. -/
theorem SwapFree.neighbours (h : SwapFree v) {j : ℕ} {a b : Str} (ha : v[j]? = some a)
    (hb : v[j + 1]? = some b) : compareString a b = false := by
  obtain ⟨w, hpass⟩ := h
  obtain ⟨hj, -⟩ := List.getElem?_eq_some_iff.1 hb
  rw [bubblePass, sizeMinusOne_of_pos (by dsimp only; omega)] at hpass
  exact bubbleLoop_settled (by dsimp only; omega) hpass (Nat.zero_le j) (by dsimp only; omega)
    ha hb

/-- **Every swap counts.**  A swap of the inner loop, in whatever list it is made, keeps the
entries and lowers the number of pairs that stand the wrong way round by exactly one; so from
every list with an entry, passes reach one on which a pass makes no swap. -/
theorem swaps_settle (v : List Str) (hv : v ≠ []) :
    (∀ (u : List Str) (sorted : Bool) (i : ℕ) (a b : Str), u[i]? = some a →
      u[i + 1]? = some b → compareString a b = true → ∃ u',
        bubbleRound i (u, sorted) = some (u', false) ∧ u'.Perm u ∧
          inverted compareString u' + 1 = inverted compareString u) ∧
    ∃ k ≤ v.length * (v.length - 1) / 2 + 1, ∃ w, bubblePasses k v = some w ∧ w.Perm v ∧
      SwapFree w := by
  constructor
  · intro u sorted i a b ha hb hafter
    refine ⟨(u.set i b).set (i + 1) a, ?_, swap_lowers ha hb hafter⟩
    simp [bubbleRound, ha, hb, hafter]
  · obtain ⟨k, hk, hreached⟩ := exists_settled hv (inverted_le v)
    exact ⟨k, hk.trans (Nat.le_succ _), hreached⟩

/-- Three names. -/
theorem swaps_settle_three : ∃ k ≤ 4, ∃ w,
    bubblePasses k [label "milk", label "bread", label "apple"] = some w ∧ SwapFree w := by
  obtain ⟨-, k, hk, w, hpasses, -, hfree⟩ :=
    swaps_settle [label "milk", label "bread", label "apple"] (List.cons_ne_nil _ _)
  exact ⟨k, hk, w, hpasses, hfree⟩

/-! ## The outer loop -/

/-- `bubble_sort` does what it is for: it returns the entries of the list, none of them behind
a smaller one. -/
def Sorts (v : List Str) : Prop :=
  ∃ passes out, bubbleSort passes v = .ok out ∧ out.Perm v ∧ out.Pairwise fun a b => ¬b < a

/-- The flag is never set: every number of passes is used up. -/
theorem bubbleWhile_unsorted (hv : v ≠ []) (passes : ℕ) :
    bubbleWhile passes (v, false) = .error .passes := by
  induction passes generalizing v with
  | zero => rfl
  | succ passes ih =>
    obtain ⟨⟨w, sorted⟩, hpass, hpassed⟩ := @exists_bubblePass (v, false) hv
    obtain rfl : sorted = false := hpassed.flag rfl
    have hne : w ≠ [] := fun hnil => hv (hnil ▸ hpassed.perm).symm.eq_nil
    rw [bubbleWhile, if_neg Bool.false_ne_true, hpass]
    exact ih hne

/-- A list of one name is not returned. -/
theorem one_name_not_sorted : ¬Sorts [label "milk"] := by
  rintro ⟨passes, out, hsort, -⟩
  rw [bubbleSort, bubbleWhile_unsorted (List.cons_ne_nil _ _)] at hsort
  cases hsort

/-- **`bubble_sort` sorts no list**: the passes over a list with an entry go on for ever, and
the first pass over the empty list reads outside it. -/
theorem bubble_sort_never_sorts (v : List Str) :
    ¬Sorts v ∧ (v ≠ [] → ∀ passes, bubbleSort passes v = .error .passes) ∧
      (v = [] → ∀ passes, bubbleSort (passes + 1) v = .error .undefined) := by
  have hgoes : v ≠ [] → ∀ passes, bubbleSort passes v = .error .passes :=
    fun hv passes => bubbleWhile_unsorted hv passes
  have hreads : v = [] → ∀ passes, bubbleSort (passes + 1) v = .error .undefined := by
    rintro rfl passes
    rfl
  refine ⟨?_, hgoes, hreads⟩
  rintro ⟨passes, out, hsort, -⟩
  by_cases hv : v = []
  · cases passes with
    | zero =>
      rw [hv] at hsort
      cases hsort
    | succ passes =>
      rw [hreads hv] at hsort
      cases hsort
  · rw [hgoes hv] at hsort
    cases hsort

end CliPos
