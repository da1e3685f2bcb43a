import CliPos.Model.SharedRedraw
import CliPos.Model.LoggedLoop
import CliPos.Analysis.Redraw

/-!
# What the statements of a redraw see

The list functions ask for the size of the table again at every round of their loops, and so
does the redraw in its loop over the codes.  For each part of the redraw: where it finds all
that it relies on, from the tables that its statements see, and what is left for the
statements after it.  `survives_sharedRedraw_iff` puts the parts together.
-/

set_option autoImplicit false

namespace CliPos

open Halting Halting.Logged

variable {α β : Type} {srv : Server} {lines : ℤ} {w w' : World} {T : Snapshots} {s : Shared}

/-! ## Snapshots -/

/-- What the statements after the next `k` will see. -/
def later (T : Snapshots) (k : ℕ) : Snapshots := fun n => T (n + k)

/-- The statements after the first `k` read the tables after the first `k`. -/
@[simp] theorem later_apply (T : Snapshots) (k n : ℕ) : later T k n = T (n + k) := rfl

/-- Going on and going on again. -/
@[simp] theorem later_later (T : Snapshots) (j k : ℕ) :
    later (later T j) k = later T (j + k) := by
  funext n
  rw [later_apply, later_apply, later_apply]
  congr 1
  omega

/-- A row number is below `stock_size` when there is such a row. -/
@[simp] theorem natCast_lt_stockSize {i : ℕ} {t : Table} : (i : ℤ) < stockSize t ↔ i < t.length :=
  Nat.cast_lt

/-! ## What the redraw relies on -/

/-- What the redraw relies on is there: the row, the entry or the product that it goes on
to use, and an entry for each row. -/
def RedrawEvent.Fine : RedrawEvent → Prop
  | .row i rows => i < rows
  | .list entries rows => entries = rows
  | .entry i size => 0 ≤ i ∧ i < size
  | .product code t => ∃ r ∈ t, r.code = code

/-- Every event of a redraw can be tested by itself. -/
instance (e : RedrawEvent) : Decidable e.Fine := by
  cases e <;> unfold RedrawEvent.Fine <;> infer_instance

/-- All that the computation relies on is there. -/
abbrev Survives (x : SharedMain α) (s : Shared) : Prop := AllLogged RedrawEvent.Fine x s

/-- A sequence survives when its first half does, and its second half wherever that returned. -/
theorem survives_bind {x : SharedMain α} {f : α → SharedMain β} : Survives (x >>= f) s ↔
    Survives x s ∧ ∀ a t, erased x s = .ok a t → Survives (f a) t :=
  allLogged_bind

/-- After a first half that returned, the second half decides. -/
theorem survives_bind_of_ok {x : SharedMain α} {f : α → SharedMain β} {a : α} {t : Shared}
    (h : erased x s = .ok a t) : Survives (x >>= f) s ↔ Survives x s ∧ Survives (f a) t :=
  allLogged_bind_of_ok h

/-- Returning a value survives. -/
theorem survives_pure {a : α} : Survives (pure a) s := allLogged_pure

/-- A statement reads the first table, and the rest the later ones. -/
theorem survives_statement_bind {f : Table → SharedMain α} :
    Survives (statement >>= f) ⟨w, T⟩ ↔ Survives (f (T 0)) ⟨w, later T 1⟩ := by
  rw [survives_bind_of_ok (rfl : erased statement ⟨w, T⟩ = .ok (T 0) ⟨w, later T 1⟩)]
  exact and_iff_right fun _ h => absurd h List.not_mem_nil

/-- The same for what it returns. -/
theorem erased_statement_bind (f : Table → SharedMain α) :
    erased (statement >>= f) ⟨w, T⟩ = erased (f (T 0)) ⟨w, later T 1⟩ :=
  rfl

/-- `stock_size` counts the rows of the first table. -/
theorem survives_stockSize_bind {f : ℤ → SharedMain α} :
    Survives (sharedStockSize >>= f) ⟨w, T⟩ ↔
      Survives (f (stockSize (T 0))) ⟨w, later T 1⟩ := by
  rw [survives_bind_of_ok
    (rfl : erased sharedStockSize ⟨w, T⟩ = .ok (stockSize (T 0)) ⟨w, later T 1⟩)]
  exact and_iff_right fun _ h => absurd h List.not_mem_nil

/-- The same for what it returns. -/
theorem erased_stockSize_bind (f : ℤ → SharedMain α) :
    erased (sharedStockSize >>= f) ⟨w, T⟩ = erased (f (stockSize (T 0))) ⟨w, later T 1⟩ :=
  rfl

/-- An event changes nothing. -/
theorem erased_emit_bind (e : RedrawEvent) (f : Unit → SharedMain α) :
    erased (emit e >>= f) s = erased (f ()) s :=
  rfl

/-- An event has to be fine. -/
theorem survives_emit_bind {e : RedrawEvent} {f : Unit → SharedMain α} :
    Survives (emit e >>= f) s ↔ e.Fine ∧ Survives (f ()) s := by
  rw [survives_bind_of_ok (rfl : erased (emit e) s = .ok () s), Survives, allLogged_emit]

/-- Looking at the state survives. -/
theorem survives_get_bind {f : Shared → SharedMain α} :
    Survives (get >>= f) s ↔ Survives (f s) s := by
  rw [survives_bind_of_ok (rfl : erased get s = .ok s s)]
  exact and_iff_right allLogged_get

/-- What reads no table survives. -/
theorem survives_inWorld (m : Main α) : Survives (inWorld m) s := by
  intro e h
  unfold inWorld at h
  split at h <;> exact absurd h List.not_mem_nil

/-- It does what it does in the state. -/
theorem erased_inWorld {m : Main α} {a : α} (h : m w = .ok a w') :
    erased (inWorld m) ⟨w, T⟩ = .ok a ⟨w', T⟩ := by
  simp only [erased, inWorld, h]

/-- After it the rest decides, in the state it left. -/
theorem survives_inWorld_bind {m : Main α} {f : α → SharedMain β} {a : α} (h : m w = .ok a w') :
    Survives (inWorld m >>= f) ⟨w, T⟩ ↔ Survives (f a) ⟨w', T⟩ := by
  rw [survives_bind_of_ok (erased_inWorld h)]
  exact and_iff_right (survives_inWorld m)

/-! ## `code_list` and `name_list` -/

/-- The loop over a column of `n` rows, from the row `i` on, gets to its end: each size
asked for is larger than the row's number, and the last one is not. -/
def ColumnKept (i n : ℕ) (T : Snapshots) : Prop :=
  (∀ j < n, i + j < (T j).length) ∧ (T n).length ≤ i + n

/-- A column of one row more: the row is there at the first statement, and the rest later. -/
theorem columnKept_succ {i n : ℕ} :
    ColumnKept i (n + 1) T ↔ i < (T 0).length ∧ ColumnKept (i + 1) n (later T 1) := by
  unfold ColumnKept
  rw [Nat.forall_lt_succ_left, and_assoc]
  simp only [later_apply, Nat.add_zero, Nat.add_assoc, Nat.add_comm 1]

/-- A column ends where the table does. -/
theorem columnKept_zero {i : ℕ} : ColumnKept i 0 T ↔ (T 0).length ≤ i :=
  and_iff_right fun _ hj => absurd hj (Nat.not_lt_zero _)

/-- A round of the loop. -/
theorem erased_columnLoop_cons {rows i : ℕ} {x : α} {column : List α} :
    erased (columnLoop rows i (x :: column)) ⟨w, T⟩ =
      if i < (T 0).length then
        (erased (columnLoop rows (i + 1) column) >>= fun rest => pure (x :: rest))
          ⟨w, later T 1⟩
      else .ok [] ⟨w, later T 1⟩ := by
  rw [columnLoop, erased_stockSize_bind]
  simp only [natCast_lt_stockSize]
  split_ifs
  · rw [erased_emit_bind, erased_bind]
    rfl
  · rfl

/-- A loop over a column that is kept reads all of it. -/
theorem columnLoop_kept {rows i : ℕ} {column : List α} (h : ColumnKept i column.length T) :
    erased (columnLoop rows i column) ⟨w, T⟩ =
      .ok column ⟨w, later T (column.length + 1)⟩ := by
  induction column generalizing i T with
  | nil =>
    rw [columnLoop, erased_stockSize_bind, if_neg]
    · rfl
    · rw [natCast_lt_stockSize]
      exact not_lt.2 (columnKept_zero.1 h)
  | cons x column ih =>
    obtain ⟨hi, hrest⟩ := columnKept_succ.1 h
    rw [erased_columnLoop_cons, if_pos hi, bind_apply, ih hrest, later_later, List.length_cons,
      Nat.add_comm 1]
    rfl

/-- **A column is read as it was fetched** exactly when the sizes keep the loop going for as
long as there are rows. -/
theorem columnLoop_iff {rows i : ℕ} {column : List α} (hrows : i + column.length = rows) :
    (Survives (columnLoop rows i column) ⟨w, T⟩ ∧ ∀ list s',
      erased (columnLoop rows i column) ⟨w, T⟩ = .ok list s' → list.length = column.length) ↔
      ColumnKept i column.length T := by
  induction column generalizing i T with
  | nil =>
    obtain rfl : i = rows := hrows
    rw [List.length_nil, columnKept_zero, columnLoop, survives_stockSize_bind,
      erased_stockSize_bind]
    simp only [natCast_lt_stockSize]
    split_ifs with hi
    · rw [survives_emit_bind]
      exact iff_of_false (fun h => lt_irrefl i h.1.1) (not_le.2 hi)
    · refine iff_of_true ⟨survives_pure, fun list s' hlist => ?_⟩ (not_lt.1 hi)
      cases hlist
      rfl
  | cons x column ih =>
    have hlength : i + 1 + column.length = rows := by
      rw [← hrows, List.length_cons]
      omega
    rw [List.length_cons, columnKept_succ, ← ih hlength, columnLoop, survives_stockSize_bind,
      ← columnLoop, erased_columnLoop_cons]
    simp only [natCast_lt_stockSize]
    split_ifs with hi
    · rw [survives_emit_bind, survives_bind, bind_apply]
      have hrow : (RedrawEvent.row i rows).Fine := by
        show i < rows
        omega
      simp only [hrow, hi, true_and, survives_pure, implies_true, and_true]
      refine and_congr_right fun _ => ?_
      cases erased (columnLoop rows (i + 1) column) ⟨w, later T 1⟩ with
      | ok rest s' =>
        constructor
        · intro h list s'' hlist
          cases hlist
          exact Nat.succ_injective (h _ _ rfl)
        · intro h list s'' hlist
          cases hlist
          exact congrArg Nat.succ (h _ _ rfl)
      | error e s' => exact iff_of_true (fun _ _ h => by cases h) fun _ _ h => by cases h
    · refine iff_of_false (fun h => ?_) fun h => hi h.1
      cases h.2 [] _ rfl

/-- The list that the next statement fetches is returned as it is. -/
def ListKept (T : Snapshots) : Prop := ColumnKept 0 (T 0).length (later T 1)

section

variable {column : Row → α}

/-- Ordering the rows loses none. -/
theorem orderedColumn_length (t : Table) :
    ((srv.orderByName t).map column).length = t.length := by
  rw [List.length_map, (srv.orderByName_perm t).length_eq]

/-- A list whose rows are kept is read whole. -/
theorem sharedList_kept (h : ListKept T) :
    erased (sharedList srv column) ⟨w, T⟩ =
      .ok ((srv.orderByName (T 0)).map column) ⟨w, later T ((T 0).length + 2)⟩ := by
  have hlength : ((srv.orderByName (T 0)).map column).length = _ := orderedColumn_length (T 0)
  have hloop := @columnLoop_kept _ w (later T 1) (T 0).length 0
    ((srv.orderByName (T 0)).map column) (by rw [hlength]; exact h)
  rw [hlength, later_later, Nat.add_comm 1] at hloop
  rw [sharedList, erased_statement_bind]
  dsimp only
  rw [hlength, erased_bind, bind_apply, hloop]
  rfl

/-- **A list function** reads no row behind the last it fetched, and returns an entry for
each, exactly when no size that it asks for is out of step. -/
theorem survives_sharedList_iff : Survives (sharedList srv column) ⟨w, T⟩ ↔ ListKept T := by
  have hlength : ((srv.orderByName (T 0)).map column).length = _ := orderedColumn_length (T 0)
  have hloop := @columnLoop_iff _ w (later T 1) (T 0).length 0
    ((srv.orderByName (T 0)).map column) (by rw [hlength, Nat.zero_add])
  rw [hlength] at hloop
  rw [ListKept, ← hloop, sharedList, survives_statement_bind]
  dsimp only
  rw [hlength, survives_bind]
  refine and_congr_right fun _ => forall_congr' fun list => forall_congr' fun s' => ?_
  refine imp_congr_right fun _ => ?_
  rw [survives_emit_bind]
  exact and_iff_left survives_pure

end

/-! ## `calculate_visible_product_list` -/

/-- The program with the table that a statement sees. -/
def World.seeing (w : World) (t : Table) : World := { w with table := t }

/-- `visible_product_list.end`, from the sizes that the next statements see. -/
def stopSeen (lines : ℤ) (w : World) (T : Snapshots) : ℤ :=
  if maxProductsNr lines w.currentTab ≥ currentListSize (w.seeing (T 0)) then
    currentListSize (w.seeing (T (currentListSizeStatements w.currentTab)))
  else maxProductsNr lines w.currentTab + w.start

/-- The statements that ask for the sizes. -/
def stopStatements (lines : ℤ) (w : World) (T : Snapshots) : ℕ :=
  (if maxProductsNr lines w.currentTab ≥ currentListSize (w.seeing (T 0)) then 2 else 1) *
    currentListSizeStatements w.currentTab

/-- The size of the list is that of the first table. -/
theorem erased_sharedListSize : erased sharedListSize ⟨w, T⟩ =
    .ok (currentListSize (w.seeing (T 0)))
      ⟨w, later T (currentListSizeStatements w.currentTab)⟩ := by
  unfold sharedListSize currentListSize currentListSizeStatements
  rw [erased_bind, bind_apply, erased_get, get_apply]
  dsimp only [World.seeing]
  cases w.currentTab <;> rfl

/-- Reading the size survives. -/
theorem survives_sharedListSize : Survives sharedListSize ⟨w, T⟩ := by
  unfold sharedListSize
  rw [survives_get_bind]
  cases w.currentTab
  · exact fun _ h => absurd h List.not_mem_nil
  · exact survives_pure
  · exact fun _ h => absurd h List.not_mem_nil

/-- The end of the window is computed from the sizes seen. -/
theorem erased_sharedVisibleEnd : erased (sharedVisibleEnd lines) ⟨w, T⟩ =
    .ok (stopSeen lines w T) ⟨w, later T (stopStatements lines w T)⟩ := by
  unfold sharedVisibleEnd stopSeen stopStatements
  rw [erased_bind, bind_apply, erased_get, get_apply]
  simp only [erased_bind, bind_apply, erased_sharedListSize]
  split_ifs with hfits
  · rw [erased_sharedListSize, later_later, Nat.two_mul, later_apply, Nat.zero_add]
  · rw [Nat.one_mul]
    rfl

/-- Computing it survives. -/
theorem survives_sharedVisibleEnd : Survives (sharedVisibleEnd lines) ⟨w, T⟩ := by
  unfold sharedVisibleEnd
  rw [survives_get_bind, survives_bind_of_ok erased_sharedListSize]
  refine ⟨survives_sharedListSize, ?_⟩
  split_ifs
  · exact survives_sharedListSize
  · exact survives_pure

/-- A sequence that reads no table, half by half. -/
theorem erased_inWorld_bind {m : Main α} {f : α → Main β} :
    erased (inWorld (m >>= f)) = erased (inWorld m) >>= fun a => erased (inWorld (f a)) := by
  funext s
  rw [bind_apply]
  simp only [erased, inWorld, bind_apply]
  cases m s.world <;> rfl

/-- The loop, without what it relies on, is the one of the single client. -/
theorem erased_sharedSlice (site : Site) (xs : List ℤ) (i : ℤ) (n : ℕ) :
    erased (sharedSlice site xs i n) = erased (inWorld (readSlice site xs i n)) := by
  induction n generalizing i with
  | zero => rfl
  | succ n ih =>
    rw [sharedSlice, readSlice, erased_inWorld_bind, erased_bind, erased_emit, pure_bind,
      erased_bind]
    refine bind_congr fun x => ?_
    rw [erased_inWorld_bind, erased_bind, ih]
    rfl

/-- **A slice** is read where it is in the list. -/
theorem survives_sharedSlice_iff (site : Site) (xs : List ℤ) (i : ℤ) (n : ℕ) :
    Survives (sharedSlice site xs i n) ⟨w, T⟩ ↔ n = 0 ∨ 0 ≤ i ∧ i + n ≤ xs.length := by
  induction n generalizing i with
  | zero => exact iff_of_true survives_pure (.inl rfl)
  | succ n ih =>
    rw [sharedSlice, survives_emit_bind]
    constructor
    · rintro ⟨hi, hrest⟩
      obtain ⟨x, hx⟩ := Option.isSome_iff_exists.1 ((elementAt_isSome_iff xs i).2 hi)
      rw [survives_inWorld_bind (readAt_eq_ok.2 ⟨hx, rfl⟩), survives_bind, ih] at hrest
      have hi' : 0 ≤ i ∧ i < xs.length := hi
      have hn := hrest.1
      omega
    · intro h
      have hi : 0 ≤ i ∧ i < xs.length := by omega
      obtain ⟨x, hx⟩ := Option.isSome_iff_exists.1 ((elementAt_isSome_iff xs i).2 hi)
      refine ⟨hi, ?_⟩
      rw [survives_inWorld_bind (readAt_eq_ok.2 ⟨hx, rfl⟩), survives_bind, ih]
      exact ⟨by omega, fun _ _ _ => survives_pure⟩

/-- The loop over the list of the current tab. -/
theorem sharedTabSlice_eq (srv : Server) (w : World) (t : Table) : ∃ site,
    sharedTabSlice (codeList srv t) w =
      sharedSlice site (currentCodes srv (w.seeing t)) w.start (w.stop - w.start).toNat := by
  unfold sharedTabSlice currentCodes
  cases htab : w.currentTab <;> simp only [World.seeing, htab] <;> exact ⟨_, rfl⟩

/-- The window is inside the list that the loop reads. -/
theorem sliceInRange_iff : SliceInRange w w.start w.stop ↔ (w.stop - w.start).toNat = 0 ∨
    0 ≤ w.start ∧ w.start + (w.stop - w.start).toNat ≤ (currentCodes srv w).length := by
  rw [SliceInRange, currentCodes_length]
  omega

section

variable (srv)

/-- **The window** is read where the list of codes is kept and has its entries. -/
theorem survives_sharedWindow_iff : Survives (sharedWindow srv) ⟨w, T⟩ ↔
    ListKept T ∧ SliceInRange (w.seeing (T 0)) w.start w.stop := by
  rw [sharedWindow, sharedCodeList]
  by_cases hcodes : ListKept T
  · obtain ⟨site, htab⟩ := sharedTabSlice_eq srv w (T 0)
    rw [survives_bind_of_ok (sharedList_kept hcodes), survives_sharedList_iff,
      and_iff_right hcodes, survives_inWorld_bind (get_apply _), and_iff_right hcodes,
      ← codeList, htab, survives_sharedSlice_iff]
    exact (@sliceInRange_iff srv (w.seeing (T 0))).symm
  · rw [survives_bind]
    exact iff_of_false (fun h => hcodes (survives_sharedList_iff.1 h.1)) fun h => hcodes h.1

/-- The codes of a window inside a list that is kept. -/
theorem sharedWindow_kept (hcodes : ListKept T)
    (hslice : SliceInRange (w.seeing (T 0)) w.start w.stop) :
    erased (sharedWindow srv) ⟨w, T⟩ =
      .ok (visibleSlice srv (w.seeing (T 0)) w.start w.stop)
        ⟨w, later T ((T 0).length + 2)⟩ := by
  obtain ⟨site, htab⟩ := sharedTabSlice_eq srv w (T 0)
  have hread : readSlice site (currentCodes srv (w.seeing (T 0))) w.start
      (w.stop - w.start).toNat w = .ok (visibleSlice srv (w.seeing (T 0)) w.start w.stop) w := by
    rw [readSlice_eq]
    exact if_pos ((@sliceInRange_iff srv (w.seeing (T 0))).1 hslice)
  rw [sharedWindow, sharedCodeList, erased_bind, bind_apply, sharedList_kept hcodes]
  simp only [erased_bind]
  rw [bind_apply, erased_inWorld (get_apply _)]
  dsimp only
  rw [← codeList, htab, erased_sharedSlice, erased_inWorld hread]

end

/-- What the statements of `code_list` see, once the sizes have been asked for. -/
def codesSeen (lines : ℤ) (w : World) (T : Snapshots) : Snapshots :=
  later T (stopStatements lines w T)

/-- The list of codes is returned as it was fetched, and has the entries that the window
takes from it. -/
structure VisibleKept (lines : ℤ) (w : World) (T : Snapshots) : Prop where
  codes : ListKept (codesSeen lines w T)
  slice : SliceInRange (w.seeing (codesSeen lines w T 0)) w.start (stopSeen lines w T)

/-- The codes that are shown. -/
def shownCodes (srv : Server) (lines : ℤ) (w : World) (T : Snapshots) : List ℤ :=
  visibleSlice srv (w.seeing (codesSeen lines w T 0)) w.start (stopSeen lines w T)

/-- What the statements after `calculate_visible_product_list` see. -/
def afterVisible (lines : ℤ) (w : World) (T : Snapshots) : Snapshots :=
  later (codesSeen lines w T) ((codesSeen lines w T 0).length + 2)

/-- **`calculate_visible_product_list`** survives where the list of codes is kept and has
the entries of the window. -/
theorem survives_sharedVisibleList_iff :
    Survives (sharedVisibleList srv lines) ⟨w, T⟩ ↔ VisibleKept lines w T := by
  rw [sharedVisibleList, survives_bind_of_ok erased_sharedVisibleEnd,
    and_iff_right survives_sharedVisibleEnd, survives_inWorld_bind (modify_apply _ _),
    survives_sharedWindow_iff]
  exact ⟨fun h => ⟨h.1, h.2⟩, fun h => ⟨h.codes, h.slice⟩⟩

/-- The visible list that a kept list gives. -/
theorem sharedVisibleList_kept (h : VisibleKept lines w T) :
    erased (sharedVisibleList srv lines) ⟨w, T⟩ = .ok (shownCodes srv lines w T)
      ⟨{ w with stop := stopSeen lines w T }, afterVisible lines w T⟩ := by
  rw [sharedVisibleList, erased_bind, bind_apply, erased_sharedVisibleEnd]
  simp only [erased_bind]
  rw [bind_apply, erased_inWorld (modify_apply _ _)]
  exact sharedWindow_kept srv h.codes h.slice

/-! ## Reading products -/

/-- The code has a row in the table. -/
def HasRow (code : ℤ) (t : Table) : Prop := ∃ r ∈ t, r.code = code

/-- The table can be searched for the code. -/
instance (code : ℤ) (t : Table) : Decidable (HasRow code t) :=
  inferInstanceAs (Decidable (∃ r ∈ t, r.code = code))

/-- **`get_product_data`** survives where the code has a row, and the next step is then taken
with its product. -/
theorem survives_sharedProductData_bind {code : ℤ} {f : Product → SharedMain α} :
    Survives (sharedProductData code >>= f) ⟨w, T⟩ ↔
      ∃ p, getProductData code (T 0) = .ok p ∧ Survives (f p) ⟨w, later T 1⟩ := by
  have hread : Survives (sharedProductData code) ⟨w, T⟩ ↔ HasRow code (T 0) := by
    rw [sharedProductData, survives_statement_bind, survives_emit_bind]
    exact and_iff_left (survives_inWorld _)
  have hresult : erased (sharedProductData code) ⟨w, T⟩ =
      erased (inWorld (orThrow (getProductData code (T 0)))) ⟨w, later T 1⟩ := by
    rw [sharedProductData, erased_statement_bind, erased_emit_bind]
  constructor
  · intro h
    rw [survives_bind] at h
    obtain ⟨p, hp⟩ := exists_getProductData (hread.1 h.1)
    refine ⟨p, hp, h.2 p _ ?_⟩
    rw [hresult, erased_inWorld (orThrow_eq_ok.2 ⟨hp, rfl⟩)]
  · rintro ⟨p, hp, h⟩
    obtain ⟨r, hr, hc, -⟩ := getProductData_eq_ok hp
    rw [survives_bind_of_ok (hresult.trans (erased_inWorld (orThrow_eq_ok.2 ⟨hp, rfl⟩)))]
    exact ⟨hread.2 ⟨r, hr, hc⟩, h⟩

/-- Where what follows survives with one product as with another, only the row counts. -/
theorem survives_sharedProductData_bind_iff {code : ℤ} {f : Product → SharedMain α} {P : Prop}
    (hf : ∀ p, Survives (f p) ⟨w, later T 1⟩ ↔ P) :
    Survives (sharedProductData code >>= f) ⟨w, T⟩ ↔ HasRow code (T 0) ∧ P := by
  rw [survives_sharedProductData_bind]
  constructor
  · rintro ⟨p, hp, hrest⟩
    obtain ⟨r, hr, hc, -⟩ := getProductData_eq_ok hp
    exact ⟨⟨r, hr, hc⟩, (hf p).1 hrest⟩
  · rintro ⟨hrow, hrest⟩
    obtain ⟨p, hp⟩ := exists_getProductData hrow
    exact ⟨p, hp, (hf p).2 hrest⟩

/-- A product whose row is there is read. -/
theorem erased_sharedProductData {code : ℤ} {p : Product} (h : getProductData code (T 0) = .ok p) :
    erased (sharedProductData code) ⟨w, T⟩ = .ok p ⟨w, later T 1⟩ := by
  rw [sharedProductData, erased_statement_bind, erased_emit_bind,
    erased_inWorld (orThrow_eq_ok.2 ⟨h, rfl⟩)]

/-- Each of the codes has a row when the statement for it is executed. -/
def RowsSeen (codes : List ℤ) (T : Snapshots) : Prop :=
  ∀ j code, codes[j]? = some code → HasRow code (T j)

/-- The first row has to be there at the first statement, the others later. -/
theorem rowsSeen_cons {code : ℤ} {codes : List ℤ} :
    RowsSeen (code :: codes) T ↔ HasRow code (T 0) ∧ RowsSeen codes (later T 1) := by
  constructor
  · intro h
    exact ⟨h 0 code rfl, fun j c hj => h (j + 1) c hj⟩
  · rintro ⟨h0, hrest⟩ (_ | j) c hj
    · rw [← Option.some.inj hj]
      exact h0
    · exact hrest j c hj

/-- No rows are always seen. -/
theorem rowsSeen_nil : RowsSeen [] T := fun _ _ h => by cases h

/-- **`draw_product_list`** survives where every code shown still has its row. -/
theorem survives_sharedDraw_iff {codes : List ℤ} :
    Survives (sharedDraw codes) ⟨w, T⟩ ↔ RowsSeen codes T := by
  induction codes generalizing T with
  | nil => exact iff_of_true survives_pure rowsSeen_nil
  | cons code codes ih =>
    rw [sharedDraw, rowsSeen_cons]
    exact survives_sharedProductData_bind_iff fun _ => ih

/-- **The total** is added up where every product of the basket still has its row. -/
theorem survives_sharedTotal_iff {basket : List BasketProduct} {x : ℚ} :
    Survives (sharedTotal basket x) ⟨w, T⟩ ↔ RowsSeen (basket.map BasketProduct.code) T := by
  induction basket generalizing T x with
  | nil => exact iff_of_true survives_pure rowsSeen_nil
  | cons b basket ih =>
    rw [sharedTotal, List.map_cons, rowsSeen_cons]
    exact survives_sharedProductData_bind_iff fun _ => ih

/-- A total over rows that are seen is computed. -/
theorem sharedTotal_kept {basket : List BasketProduct} {x : ℚ}
    (h : RowsSeen (basket.map BasketProduct.code) T) :
    ∃ total, erased (sharedTotal basket x) ⟨w, T⟩ =
      .ok total ⟨w, later T basket.length⟩ := by
  induction basket generalizing T x with
  | nil => exact ⟨x, rfl⟩
  | cons b basket ih =>
    obtain ⟨hrow, hrest⟩ := rowsSeen_cons.1 h
    obtain ⟨p, hp⟩ := exists_getProductData hrow
    obtain ⟨total, htotal⟩ := @ih (later T 1) (x + p.priceAfterDiscount * b.quantity) hrest
    refine ⟨total, ?_⟩
    rw [sharedTotal, erased_bind, bind_apply, erased_sharedProductData hp]
    dsimp only
    rw [htotal, later_later, List.length_cons, Nat.add_comm 1]

/-! ## The loop over `product_codes` -/

/-- Each round that is entered, from the entry `i` on, finds a row for its code, and none is
entered behind the last code. -/
def ProductsKept : ℕ → List ℤ → Snapshots → Prop
  | i, [], T => (T 0).length ≤ i
  | i, code :: codes, T =>
    i < (T 0).length → HasRow code (T 1) ∧ ProductsKept (i + 1) codes (later T 2)

/-- What the statements after the loop see. -/
def afterProducts : ℕ → List ℤ → Snapshots → Snapshots
  | _, [], T => later T 1
  | i, _ :: codes, T =>
    if i < (T 0).length then afterProducts (i + 1) codes (later T 2) else later T 1

/-- **The loop over `product_codes`** survives where the sizes do not lead it behind the
last code, and the codes still have their rows. -/
theorem survives_sharedProducts_iff {size i : ℕ} {codes : List ℤ}
    (hsize : i + codes.length = size) :
    Survives (sharedProducts size i codes) ⟨w, T⟩ ↔ ProductsKept i codes T := by
  induction codes generalizing i T with
  | nil =>
    obtain rfl : i = size := hsize
    rw [sharedProducts, survives_stockSize_bind, ProductsKept]
    simp only [natCast_lt_stockSize]
    split_ifs with hi
    · rw [survives_emit_bind]
      refine iff_of_false (fun h => ?_) (not_le.2 hi)
      have hentry : (0 : ℤ) ≤ i ∧ (i : ℤ) < i := h.1
      omega
    · exact iff_of_true survives_pure (not_lt.1 hi)
  | cons code codes ih =>
    have hlength : i + 1 + codes.length = size := by
      rw [← hsize, List.length_cons]
      omega
    rw [sharedProducts, survives_stockSize_bind, ProductsKept]
    simp only [natCast_lt_stockSize]
    split_ifs with hi
    · have hentry : (RedrawEvent.entry i size).Fine := by
        show (0 : ℤ) ≤ i ∧ (i : ℤ) < size
        omega
      rw [survives_emit_bind, and_iff_right hentry,
        survives_sharedProductData_bind_iff fun _ => ih hlength, later_apply, later_later]
      exact ⟨fun h _ => h, fun h => h hi⟩
    · exact iff_of_true survives_pure fun h => absurd h hi

/-- A loop over products that are kept reads all of them. -/
theorem sharedProducts_kept {size i : ℕ} {codes : List ℤ} (h : ProductsKept i codes T) :
    erased (sharedProducts size i codes) ⟨w, T⟩ = .ok () ⟨w, afterProducts i codes T⟩ := by
  induction codes generalizing i T with
  | nil =>
    have hend : (T 0).length ≤ i := h
    rw [sharedProducts, erased_stockSize_bind, if_neg]
    · rfl
    · rw [natCast_lt_stockSize]
      exact not_lt.2 hend
  | cons code codes ih =>
    rw [sharedProducts, erased_stockSize_bind, afterProducts]
    simp only [natCast_lt_stockSize]
    split_ifs with hi
    · obtain ⟨hrow, hrest⟩ := h hi
      obtain ⟨p, hp⟩ := exists_getProductData hrow
      rw [erased_emit_bind, erased_bind, bind_apply, erased_sharedProductData hp]
      exact ih hrest
    · rfl

/-! ## The redraw -/

/-- What the statements of `calculate_visible_product_list` see. -/
def afterCodes (T : Snapshots) : Snapshots := later T ((T 0).length + 2)

/-- What the statements for the basket's products see. -/
def basketSeen (srv : Server) (lines : ℤ) (w : World) (T : Snapshots) : Snapshots :=
  afterProducts 0 (codeList srv (T 0)) (afterVisible lines w (afterCodes T))

/-- Nothing that the redraw relies on changes under it: both lists of codes are returned as
they were fetched, the window is inside the second, the codes of the first have their rows
when the loop comes to them, and so have the products of the basket and the codes shown. -/
structure Undisturbed (srv : Server) (lines : ℤ) (w : World) (T : Snapshots) : Prop where
  codes : ListKept T
  visible : VisibleKept lines w (afterCodes T)
  products : ProductsKept 0 (codeList srv (T 0)) (afterVisible lines w (afterCodes T))
  basket : RowsSeen (w.basket.map BasketProduct.code) (basketSeen srv lines w T)
  shown : RowsSeen (shownCodes srv lines w (afterCodes T))
    (later (basketSeen srv lines w T) w.basket.length)

/-- The redraw, once both lists are there. -/
theorem survives_sharedReads_iff {codes list : List ℤ} :
    Survives (sharedReads codes list) ⟨w, T⟩ ↔ ProductsKept 0 codes T ∧
      RowsSeen (w.basket.map BasketProduct.code) (afterProducts 0 codes T) ∧
      RowsSeen list (later (afterProducts 0 codes T) w.basket.length) := by
  have hproducts := @survives_sharedProducts_iff w T codes.length 0 codes (Nat.zero_add _)
  rw [sharedReads]
  by_cases hkept : ProductsKept 0 codes T
  · rw [survives_bind_of_ok (sharedProducts_kept hkept), hproducts,
      survives_inWorld_bind (get_apply _)]
    refine and_congr_right fun _ => ?_
    by_cases hbasket : RowsSeen (w.basket.map BasketProduct.code) (afterProducts 0 codes T)
    · obtain ⟨total, htotal⟩ := @sharedTotal_kept w _ w.basket 0 hbasket
      rw [survives_bind_of_ok htotal, survives_sharedTotal_iff,
        survives_inWorld_bind (modify_apply _ _), survives_sharedDraw_iff]
    · rw [survives_bind, survives_sharedTotal_iff]
      exact iff_of_false (fun h => hbasket h.1) fun h => hbasket h.1
  · rw [survives_bind, hproducts]
    exact iff_of_false (fun h => hkept h.1) fun h => hkept h.1

/-- **A redraw survives** exactly where nothing that it relies on changes under it. -/
theorem survives_sharedRedraw_iff :
    Survives (sharedRedraw srv lines) ⟨w, T⟩ ↔ Undisturbed srv lines w T := by
  rw [sharedRedraw, survives_inWorld_bind (modify_apply _ _), sharedCodeList]
  by_cases hcodes : ListKept T
  swap
  · rw [survives_bind, survives_sharedList_iff]
    exact iff_of_false (fun h => hcodes h.1) fun h => hcodes h.codes
  rw [survives_bind_of_ok (sharedList_kept hcodes),
    and_iff_right (survives_sharedList_iff.2 hcodes), survives_inWorld_bind (modify_apply _ _)]
  show Survives (sharedVisibleList srv lines >>= _)
    ⟨{ w with list := [], productCodes := codeList srv (T 0) }, afterCodes T⟩ ↔ _
  by_cases hvisible : VisibleKept lines w (afterCodes T)
  swap
  · rw [survives_bind, survives_sharedVisibleList_iff]
    exact iff_of_false (fun h => hvisible ⟨h.1.codes, h.1.slice⟩) fun h => hvisible h.visible
  have hvisible' : VisibleKept lines
      { w with list := [], productCodes := codeList srv (T 0) } (afterCodes T) :=
    ⟨hvisible.codes, hvisible.slice⟩
  have hlist := @sharedVisibleList_kept srv lines _ _ hvisible'
  rw [survives_bind_of_ok hlist, and_iff_right (survives_sharedVisibleList_iff.2 hvisible'),
    survives_inWorld_bind (modify_apply _ _), survives_bind, survives_sharedReads_iff]
  constructor
  · rintro ⟨⟨hproducts, hbasket, hshown⟩, -⟩
    exact ⟨hcodes, hvisible, hproducts, hbasket, hshown⟩
  · intro h
    refine ⟨⟨h.products, h.basket, h.shown⟩, fun _ _ _ => ?_⟩
    rw [survives_bind]
    exact ⟨survives_inWorld _, fun _ _ _ => survives_inWorld _⟩

end CliPos
