import CliPos.Analysis.Search
import CliPos.Analysis.Store
import CliPos.Lib.Bisect
import CliPos.Model.Sorting

/-!
# What the search finds

`binary_search` is a bisection of the name list whose test is `compare_string`.  The test
differs from the order of the list on two kinds of pairs (`Misleads`): a name that the
search word continues, since the comparison ends with the shorter text, and a name that
first differs from the word in bytes of which one is above 127, since `char` is signed.
`search_correct_iff` shows that these are all: the search finds a word of the list exactly
when no name that it has to probe is of either kind; and `compare_string_orders_iff` says of
which two texts the comparison is the order of bytes.
-/

set_option autoImplicit false

namespace CliPos

open Decimal

/-! ## The comparison -/

/-- The comparison of `searchWord` with `name` goes against the order of the list. -/
def Misleads : (searchWord name : Str) → Prop
  | a :: s1, b :: s2 => if a = b then Misleads s1 s2 else ¬(a.val < 128 ↔ b.val < 128)
  | _ :: _, [] => True
  | [], _ => False

/-- Two bytes on the same side of 128 compare as chars as they do as numbers. -/
theorem signedChar_lt_iff {a b : Byte} (h : a.val < 128 ↔ b.val < 128) :
    signedChar a < signedChar b ↔ a < b := by
  unfold signedChar
  rw [Fin.lt_def]
  split_ifs <;> omega

/-- On different sides they compare the other way round. -/
theorem signedChar_lt_of_not_iff {a b : Byte} (h : ¬(a.val < 128 ↔ b.val < 128)) :
    signedChar a < signedChar b ↔ b < a := by
  have ha := a.isLt
  have hb := b.isLt
  unfold signedChar
  rw [Fin.lt_def]
  split_ifs <;> omega

/-- Different bytes are different chars. -/
theorem signedChar_injective : Function.Injective signedChar := by
  intro a b h
  apply Fin.ext
  have ha := a.isLt
  have hb := b.isLt
  unfold signedChar at h
  split_ifs at h <;> omega

/-- Two texts that differ in their first characters compare as these do. -/
theorem compareString_of_ne {a b : Byte} (hab : a ≠ b) (s1 s2 : Str) :
    compareString (a :: s1) (b :: s2) = true ↔ signedChar b < signedChar a := by
  have hne : signedChar a ≠ signedChar b := fun h => hab (signedChar_injective h)
  rw [compareString]
  by_cases hlt : signedChar b < signedChar a
  · rw [if_pos hlt]
    simp [hlt]
  · have hgt : signedChar a < signedChar b := by omega
    rw [if_neg hlt, if_pos hgt]
    simp [hlt]

/-- **`compare_string` agrees with the order** except where it misleads. -/
theorem compareString_iff (searchWord name : Str) :
    (compareString searchWord name = true ↔ name < searchWord) ↔ ¬Misleads searchWord name := by
  induction searchWord generalizing name with
  | nil => cases name <;> simp [compareString, Misleads]
  | cons a s1 ih =>
    cases name with
    | nil => simp [compareString, Misleads]
    | cons b s2 =>
      by_cases hab : a = b
      · subst hab
        have h := ih s2
        simpa [compareString, Misleads] using h
      · have hba : ¬(b = a) := Ne.symm hab
        rw [compareString_of_ne hab, Misleads, if_neg hab, List.cons_lt_cons_iff]
        simp only [hba, false_and, or_false]
        by_cases h : a.val < 128 ↔ b.val < 128
        · have hlt := signedChar_lt_iff h.symm
          simp [h, hlt]
        · have hlt := signedChar_lt_of_not_iff (mt Iff.symm h)
          have hcases : a < b ∨ b < a := lt_or_gt_of_ne hab
          have hasymm : ¬(a < b ∧ b < a) := fun hc => lt_asymm hc.1 hc.2
          rw [hlt]
          tauto

/-! ## The order of two texts -/

/-- A comparison orders two texts: it says whether the first comes after the second, and of
it, its converse and equality exactly one holds. -/
structure Orders (compare : Str → Str → Bool) (s1 s2 : Str) : Prop where
  after : compare s1 s2 = true ↔ s2 < s1
  one : (compare s1 s2 = true ∧ compare s2 s1 = false ∧ s1 ≠ s2) ∨
    (compare s1 s2 = false ∧ compare s2 s1 = true ∧ s1 ≠ s2) ∨
    (compare s1 s2 = false ∧ compare s2 s1 = false ∧ s1 = s2)

/-- Two texts are equal, or both have a byte at an index below the number of rounds where they
differ: at first in bytes that are both below 128, or both not. -/
def Comparable : (rounds : ℕ) → Str → Str → Prop
  | rounds + 1, a :: s1, b :: s2 =>
    if a = b then Comparable rounds s1 s2 else (a.val < 128 ↔ b.val < 128)
  | _, s1, s2 => s1 = s2

/-- The number of rounds does not depend on the order of the texts. -/
theorem maxSize_comm (s1 s2 : Str) : maxSize s1 s2 = maxSize s2 s1 := by
  unfold maxSize
  congr 1
  split_ifs <;> omega

/-- Both ways round the loop has the same bound. -/
theorem orders_compareInts_iff (s1 s2 : Str) :
    Orders compareInts s1 s2 ↔ Orders (compareRounds (maxSize s1 s2).toNat) s1 s2 := by
  have hback : compareInts s2 s1 = compareRounds (maxSize s1 s2).toNat s2 s1 := by
    rw [compareInts, maxSize_comm]
  constructor
  · rintro ⟨hafter, hone⟩
    rw [hback] at hone
    exact ⟨hafter, hone⟩
  · rintro ⟨hafter, hone⟩
    rw [← hback] at hone
    exact ⟨hafter, hone⟩

/-- Rounds enough for the shorter text are as good as any. -/
theorem compareRounds_eq {rounds : ℕ} {s1 s2 : Str} (h : min s1.length s2.length ≤ rounds) :
    compareRounds rounds s1 s2 = compareString s1 s2 := by
  induction s1 generalizing rounds s2 with
  | nil => cases rounds <;> rfl
  | cons a s1 ih =>
    cases s2 with
    | nil => cases rounds <;> rfl
    | cons b s2 =>
      cases rounds with
      | zero => simp at h
      | succ rounds =>
        rw [List.length_cons, List.length_cons] at h
        rw [compareRounds, compareString, ih (by omega)]

/-- **The `int` is wide enough** for all texts of less than 2^31 bytes. -/
theorem compareInts_eq {s1 s2 : Str} (h : min s1.length s2.length < 2 ^ 31) :
    compareInts s1 s2 = compareString s1 s2 := by
  have hsize : maxSize s1 s2 = (min s1.length s2.length : ℕ) := by
    unfold maxSize
    rw [toInt_of_lt] <;> split_ifs <;> omega
  rw [compareInts, hsize, Int.toNat_natCast]
  exact compareRounds_eq le_rfl

/-- The same, for any number of rounds. -/
theorem compareRounds_of_ne {a b : Byte} (hab : a ≠ b) (rounds : ℕ) (s1 s2 : Str) :
    compareRounds (rounds + 1) (a :: s1) (b :: s2) = compareString (a :: s1) (b :: s2) := by
  have hne : signedChar a ≠ signedChar b := fun h => hab (signedChar_injective h)
  rw [compareRounds, compareString]
  split_ifs with hgt hlt
  · rfl
  · rfl
  · omega

/-- A common first character leaves a round less to the rest. -/
theorem orders_cons_iff (rounds : ℕ) (a : Byte) (s1 s2 : Str) :
    Orders (compareRounds (rounds + 1)) (a :: s1) (a :: s2) ↔
      Orders (compareRounds rounds) s1 s2 := by
  have hcompare : ∀ s s', compareRounds (rounds + 1) (a :: s) (a :: s') =
      compareRounds rounds s s' := fun s s' => by
    rw [compareRounds, if_neg (lt_irrefl _), if_neg (lt_irrefl _)]
  constructor
  · rintro ⟨hafter, hone⟩
    refine ⟨?_, ?_⟩
    · simpa [hcompare] using hafter
    · simpa [hcompare] using hone
  · rintro ⟨hafter, hone⟩
    refine ⟨?_, ?_⟩
    · simpa [hcompare] using hafter
    · simpa [hcompare] using hone

/-- Where the loop finds no difference, only equal texts are ordered. -/
theorem orders_iff_eq {rounds : ℕ} {s1 s2 : Str}
    (hleft : compareRounds rounds s1 s2 = false) (hright : compareRounds rounds s2 s1 = false) :
    Orders (compareRounds rounds) s1 s2 ↔ s1 = s2 := by
  constructor
  · intro h
    rcases h.one with ⟨htrue, -⟩ | ⟨-, htrue, -⟩ | ⟨-, -, heq⟩
    · rw [hleft] at htrue
      cases htrue
    · rw [hright] at htrue
      cases htrue
    · exact heq
  · rintro rfl
    exact ⟨by simp [hleft], .inr (.inr ⟨hleft, hleft, rfl⟩)⟩

/-- At bytes that differ the comparison decides. -/
theorem orders_iff_of_ne {a b : Byte} (hab : a ≠ b) (rounds : ℕ) (s1 s2 : Str) :
    Orders (compareRounds (rounds + 1)) (a :: s1) (b :: s2) ↔ (a.val < 128 ↔ b.val < 128) := by
  have hne : a :: s1 ≠ b :: s2 := fun h => hab (List.cons.inj h).1
  have hsigned : signedChar a ≠ signedChar b := fun h => hab (signedChar_injective h)
  have hleft := compareRounds_of_ne hab rounds s1 s2
  have hright := compareRounds_of_ne (Ne.symm hab) rounds s2 s1
  have hafter := compareString_iff (a :: s1) (b :: s2)
  rw [Misleads, if_neg hab, not_not, ← hleft] at hafter
  rw [← hafter]
  refine ⟨Orders.after, fun h => ⟨h, ?_⟩⟩
  rw [hleft, hright, ← Bool.not_eq_true, ← Bool.not_eq_true, compareString_of_ne hab,
    compareString_of_ne (Ne.symm hab)]
  rcases lt_or_gt_of_ne hsigned with hlt | hgt
  · exact .inr (.inl ⟨not_lt.2 hlt.le, hlt, hne⟩)
  · exact .inl ⟨hgt, not_lt.2 hgt.le, hne⟩

/-- So many rounds order two texts exactly when these are comparable within them. -/
theorem orders_compareRounds_iff (rounds : ℕ) (s1 s2 : Str) :
    Orders (compareRounds rounds) s1 s2 ↔ Comparable rounds s1 s2 := by
  induction rounds generalizing s1 s2 with
  | zero => exact orders_iff_eq rfl rfl
  | succ rounds ih =>
    cases s1 with
    | nil => cases s2 <;> exact orders_iff_eq rfl rfl
    | cons a s1 =>
      cases s2 with
      | nil => exact orders_iff_eq rfl rfl
      | cons b s2 =>
        by_cases hab : a = b
        · subst hab
          rw [orders_cons_iff, ih, Comparable, if_pos rfl]
        · rw [orders_iff_of_ne hab, Comparable, if_neg hab]

/-- A text that another one continues is not told from it. -/
theorem prefix_not_ordered : ¬Orders compareInts (label "ab") (label "a") := fun h =>
  absurd (h.after.2 (by decide)) (by decide)

/-- **`compare_string` is the order of bytes** for two texts exactly when they are equal or
differ before its loop ends, and the bytes there are on one side of 128. -/
theorem compare_string_orders_iff (s1 s2 : Str) :
    Orders compareInts s1 s2 ↔ Comparable (maxSize s1 s2).toNat s1 s2 := by
  rw [orders_compareInts_iff, orders_compareRounds_iff]

/-! ## The search is a bisection -/

/-- Reading a sorted list by index is sorted. -/
theorem elementAt_sorted {v : List Str} (h : v.Pairwise (· ≤ ·)) :
    Bisect.Sorted (elementAt v) := by
  intro i j a b hij hi hj
  unfold elementAt at hi hj
  split_ifs at hi hj with h0 h1
  · obtain ⟨hilt, rfl⟩ := List.getElem?_eq_some_iff.1 hi
    obtain ⟨hjlt, rfl⟩ := List.getElem?_eq_some_iff.1 hj
    rcases Nat.lt_or_ge i.toNat j.toNat with hlt | hge
    · exact List.pairwise_iff_getElem.1 h i.toNat j.toNat hilt hjlt hlt
    · have heq : i.toNat = j.toNat := by omega
      simp only [heq, le_refl]

/-- The loop is the bisection of the list that it reads. -/
theorem binarySearchLoop_eq_ok {v : List Str} {searchWord : Str} {start stop mid i : ℤ} :
    binarySearchLoop v searchWord start stop mid = .ok i ↔
      Bisect.search (elementAt v) (compareString searchWord) searchWord start stop mid =
        some i := by
  induction start, stop, mid using binarySearchLoop.induct v searchWord with
  | case1 start stop mid hle m hnone =>
    rw [binarySearchLoop, dif_pos hle, Bisect.search, dif_pos hle]
    simp only [m] at hnone
    simp [hnone]
  | case2 start stop mid hle m hsome =>
    rw [binarySearchLoop, dif_pos hle, Bisect.search, dif_pos hle]
    simp only [m] at hsome
    simp [hsome]
  | case3 start stop mid hle m name hsome hne hcmp ih =>
    rw [binarySearchLoop, dif_pos hle, Bisect.search, dif_pos hle]
    simp only [m] at hsome ih
    simp only [hsome, hne, hcmp, if_false, if_true]
    exact ih
  | case4 start stop mid hle m name hsome hne hcmp ih =>
    rw [binarySearchLoop, dif_pos hle, Bisect.search, dif_pos hle]
    simp only [m] at hsome ih
    simp only [hsome, hne, hcmp, if_false]
    exact ih
  | case5 start stop mid hgt =>
    rw [binarySearchLoop, dif_neg hgt, Bisect.search, dif_neg hgt]
    simp

/-- The names that a bisection of the list probes before it meets the word. -/
def probes (v : List Str) (searchWord : Str) : List Str :=
  Bisect.path (elementAt v) searchWord 0 ((v.length : ℤ) - 1)

/-- **`binary_search` finds a word of the list** exactly when no name it has to probe
misleads it. -/
theorem binarySearch_finds_iff {v : List Str} {searchWord : Str} (hsorted : v.Pairwise (· ≤ ·))
    (hmem : searchWord ∈ v) (uninit : ℤ) :
    (∃ i, binarySearch v searchWord uninit = .ok i ∧ elementAt v i = some searchWord) ↔
      ∀ name ∈ probes v searchWord, ¬Misleads searchWord name := by
  have hin : ∀ k : ℤ, elementAt v k = some searchWord → 0 ≤ k ∧ k ≤ (v.length : ℤ) - 1 := by
    intro k hk
    have := (elementAt_isSome_iff v k).1 (by rw [hk]; rfl)
    omega
  have hx : ∃ k : ℤ, elementAt v k = some searchWord := by
    obtain ⟨k, hk, hkv⟩ := List.getElem_of_mem hmem
    refine ⟨(k : ℤ), ?_⟩
    rw [elementAt, if_pos (by omega), Int.toNat_natCast, List.getElem?_eq_getElem hk, hkv]
  have hdef : ∀ k : ℤ, 0 ≤ k → k ≤ (v.length : ℤ) - 1 → ∃ y, elementAt v k = some y := by
    intro k h0 h1
    exact Option.isSome_iff_exists.1 ((elementAt_isSome_iff v k).2 ⟨h0, by omega⟩)
  have hiff := Bisect.search_finds_iff (compareString searchWord) (elementAt_sorted hsorted)
    0 ((v.length : ℤ) - 1) uninit hin hx hdef
  simp only [compareString_iff] at hiff
  simp only [binarySearch, binarySearchLoop_eq_ok]
  exact hiff

/-! ## The search command -/

variable {srv : Server} {lines : ℤ} {w : World}

/-- The search shows the code of a product with the name searched. -/
def FindsProduct (srv : Server) (searchWord : Str) (w : World) : Prop :=
  ∃ code w', searchCode srv searchWord w = .ok code w' ∧
    ∃ r ∈ w.table, r.name = searchWord ∧ r.code = code

/-- Reading a mapped list maps what is read. -/
theorem elementAt_map {α β : Type} (f : α → β) (xs : List α) (i : ℤ) :
    elementAt (xs.map f) i = (elementAt xs i).map f := by
  unfold elementAt
  split_ifs <;> simp

/-- The code shown is the code of the row whose name the search returned. -/
theorem searchCode_row (hfresh : Fresh srv lines w) (hne : w.table ≠ []) (searchWord : Str) :
    ∃ i r w', binarySearch (nameList srv w.table) searchWord (w.uninit.headD 0) = .ok i ∧
      r ∈ w.table ∧ elementAt (nameList srv w.table) i = some r.name ∧
      searchCode srv searchWord w = .ok r.code w' := by
  have hnames : nameList srv w.table ≠ [] := by
    intro hnil
    have hlen := @nameList_length srv w.table
    rw [hnil] at hlen
    exact hne (List.length_eq_zero_iff.1 hlen.symm)
  obtain ⟨i, hi, h0, hlt⟩ := binarySearch_range hnames searchWord (w.uninit.headD 0)
  have hlen : (nameList srv w.table).length = (srv.orderByName w.table).length := by
    simp [nameList]
  have hsome : (elementAt (srv.orderByName w.table) i).isSome :=
    (elementAt_isSome_iff _ i).2 ⟨h0, by omega⟩
  obtain ⟨r, hr⟩ := Option.isSome_iff_exists.1 hsome
  have hmem : r ∈ w.table := (srv.orderByName_perm w.table).mem_iff.1 (elementAt_eq_some hr)
  have hname : elementAt (nameList srv w.table) i = some r.name := by
    rw [nameList, elementAt_map, hr]
    rfl
  have hcode : elementAt w.productCodes i = some r.code := by
    rw [hfresh.codes_eq, codeList, elementAt_map, hr]
    rfl
  exact ⟨i, r, _, hi, hmem, hname, searchCode_eq_ok.2 ⟨i, hi, hcode, rfl⟩⟩

/-- **The search command shows a product with the name searched**, when no name it has to
probe misleads it; where no two products have the same code, only then. -/
theorem findsProduct_iff (hfresh : Fresh srv lines w) {searchWord : Str}
    (hmem : ∃ r ∈ w.table, r.name = searchWord) :
    ((∀ name ∈ probes (nameList srv w.table) searchWord, ¬Misleads searchWord name) →
      FindsProduct srv searchWord w) ∧
    ((w.table.map Row.code).Nodup → FindsProduct srv searchWord w →
      ∀ name ∈ probes (nameList srv w.table) searchWord, ¬Misleads searchWord name) := by
  have hne : w.table ≠ [] := by
    obtain ⟨r, hr, -⟩ := hmem
    exact List.ne_nil_of_mem hr
  have hword : searchWord ∈ nameList srv w.table := by
    obtain ⟨r, hr, hname⟩ := hmem
    exact List.mem_map.2 ⟨r, (srv.orderByName_perm w.table).mem_iff.2 hr, hname⟩
  have hiff := binarySearch_finds_iff nameList_sorted hword (w.uninit.headD 0)
  obtain ⟨i, r, w', hi, hr, hname, hcode⟩ := searchCode_row hfresh hne searchWord
  constructor
  · intro hprobes
    obtain ⟨j, hj, hjname⟩ := hiff.2 hprobes
    obtain rfl : i = j := Except.ok.inj (hi.symm.trans hj)
    have hrname : r.name = searchWord := Option.some.inj (hname.symm.trans hjname)
    exact ⟨r.code, w', hcode, r, hr, hrname, rfl⟩
  · rintro hnodup ⟨code, v', hcode', r', hr', hname', hrcode'⟩
    apply hiff.1
    rw [hcode] at hcode'
    obtain ⟨rfl, -⟩ := EStateM.Result.ok.inj hcode'
    have hrr : r' = r := List.inj_on_of_nodup_map hnodup hr' hr hrcode'
    exact ⟨i, hi, by rw [hname, ← hrr, hname']⟩

/-- "ab" is in the list, and the search ends at "a", which it continues. -/
theorem binarySearch_misses : ¬∀ (v : List Str) (searchWord : Str) (uninit : ℤ),
    v.Pairwise (· ≤ ·) → searchWord ∈ v →
      ∃ i, binarySearch v searchWord uninit = .ok i ∧ elementAt v i = some searchWord := by
  intro hall
  obtain ⟨i, hi, hfound⟩ := hall [label "a", label "ab"] (label "ab") 0 (by decide) (by decide)
  have hmiss : binarySearch [label "a", label "ab"] (label "ab") 0 = .ok 0 := by
    have hmid : elementAt [label "a", label "ab"] 0 = some (label "a") := by decide
    have hcmp : compareString (label "ab") (label "a") = false := by decide
    have hne : ¬(label "a" = label "ab") := by decide
    rw [binarySearch, binarySearchLoop, dif_pos (by simp)]
    simp only [List.length_cons, List.length_nil]
    norm_num
    rw [hmid]
    simp only [hne, hcmp, if_false, Bool.false_eq_true]
    rw [binarySearchLoop, dif_neg (by omega)]
  rw [hmiss] at hi
  cases hi
  revert hfound
  decide

/-- **The search finds what is there**, in a sorted list and in the search command, if and
only if no name that it has to probe misleads it. -/
theorem search_correct_iff (srv : Server) (lines : ℤ) (w : World) (searchWord : Str) :
    (∀ (v : List Str) (uninit : ℤ), v.Pairwise (· ≤ ·) → searchWord ∈ v →
      ((∃ i, binarySearch v searchWord uninit = .ok i ∧ elementAt v i = some searchWord) ↔
        ∀ name ∈ probes v searchWord, ¬Misleads searchWord name)) ∧
    ∀ (v : World) (keys : List Key), (Command.search, v) ∈ iterationTrace srv lines w →
      getString [] 0 v.keys = .ok (some searchWord) keys →
      (∃ r ∈ v.table, r.name = searchWord) →
      ((∀ name ∈ probes (nameList srv v.table) searchWord, ¬Misleads searchWord name) →
        FindsProduct srv searchWord { v with keys }) ∧
      ((v.table.map Row.code).Nodup → FindsProduct srv searchWord { v with keys } →
        ∀ name ∈ probes (nameList srv v.table) searchWord, ¬Misleads searchWord name) := by
  constructor
  · intro v uninit hsorted hmem
    exact binarySearch_finds_iff hsorted hmem uninit
  · intro v keys htrace _ hmem
    have hfresh : Fresh srv lines v := fresh_of_mem_trace htrace (by simp)
    exact findsProduct_iff (hfresh.congr v.key v.settings keys v.printer v.uninit) hmem

/-- No name that the search for the milk reads misleads it. -/
theorem probes_milk : ∀ name ∈ probes [label "bread", label "milk"] (label "milk"),
    ¬Misleads (label "milk") name := by
  have hbread : elementAt [label "bread", label "milk"] (0 + (1 - 0) / 2) =
      some (label "bread") := by decide
  have hmilk : elementAt [label "bread", label "milk"] (1 + (1 - 1) / 2) =
      some (label "milk") := by decide
  have hpath : probes [label "bread", label "milk"] (label "milk") = [label "bread"] := by
    show Bisect.path _ _ 0 1 = _
    rw [Bisect.path_probe (by decide) hbread (by decide), if_pos (by decide)]
    show _ :: Bisect.path _ _ 1 1 = _
    rw [Bisect.path, dif_pos (by decide)]
    simp only [hmilk, if_true]
  rw [hpath]
  intro name hname
  obtain rfl := List.mem_singleton.1 hname
  show ¬Misleads (109 :: label "ilk") (98 :: label "read")
  rw [Misleads, if_neg (by decide)]
  decide

/-- The milk is searched in a table of bread and milk. -/
theorem search_correct_milk :
    (∃ i, binarySearch [label "bread", label "milk"] (label "milk") 0 = .ok i ∧
      elementAt [label "bread", label "milk"] i = some (label "milk")) ∧
    ∃ v keys, (Command.search, v) ∈ iterationTrace strictServer 11 (boot [bread, milk]
        (charKey '/' :: (label "milk").map (fun b => (b.val : ℤ)) ++ [keyEnter]) ⟨[], []⟩ []) ∧
      FindsProduct strictServer (label "milk") { v with keys } := by
  have hcorrect := search_correct_iff strictServer 11 (boot [bread, milk]
    (charKey '/' :: (label "milk").map (fun b => (b.val : ℤ)) ++ [keyEnter]) ⟨[], []⟩ [])
    (label "milk")
  constructor
  · exact (hcorrect.1 _ 0 (by decide) (by decide)).2 probes_milk
  · have htrace : (iterationTrace strictServer 11 (boot [bread, milk]
        (charKey '/' :: (label "milk").map (fun b => (b.val : ℤ)) ++ [keyEnter])
        ⟨[], []⟩ [])).any fun e => e.1 = .search ∧ e.2.table = [bread, milk] ∧
          e.2.keys = (label "milk").map (fun b => (b.val : ℤ)) ++ [keyEnter] := by
      decide +kernel
    obtain ⟨⟨c, v⟩, hmem, hv⟩ := List.any_eq_true.1 htrace
    obtain ⟨rfl, htable, hkeys⟩ := of_decide_eq_true hv
    simp only at htable hkeys
    have hget : getString [] 0 v.keys = .ok (some (label "milk")) [] := by
      rw [hkeys]
      rfl
    have hfinds := hcorrect.2 v [] hmem hget (by rw [htable]; exact ⟨milk, by decide, rfl⟩)
    have hnames : nameList strictServer v.table = [label "bread", label "milk"] := by
      rw [htable]
      decide
    rw [hnames] at hfinds
    exact ⟨v, [], hmem, hfinds.1 probes_milk⟩

end CliPos
