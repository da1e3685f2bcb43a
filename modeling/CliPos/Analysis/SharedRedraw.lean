import CliPos.Analysis.Snapshots

/-!
# A redraw and the other clients

Alone at the database, the redraw of `Model.SharedRedraw` is the one of the main loop
(`alone_sharedRedraw`), and nothing changes under it.  With others, the products of the
basket keep their rows, but a product inserted or deleted at the wrong moment ends the
program (`redraw_survives_iff`).
-/

set_option autoImplicit false

namespace CliPos

open Halting Halting.Logged

variable {α β : Type} {srv : Server} {lines : ℤ} {w w' : World} {T : Snapshots}

/-! ## Nobody else at the database -/

/-- The result of a computation of the single client. -/
def besides (T : Snapshots) : EStateM.Result Halt World α → EStateM.Result Halt Shared α
  | .ok a w => .ok a ⟨w, T⟩
  | .error e w => .error e ⟨w, T⟩

/-- Where every statement sees the table of the world, `x` is the computation `y` of the
single client. -/
def Alone (x : SharedMain α) (y : Main α) (w : World) : Prop :=
  erased x ⟨w, fun _ => w.table⟩ = besides (fun _ => w.table) (y w)

/-- What reads no table runs alone as it is. -/
theorem alone_inWorld (m : Main α) : Alone (inWorld m) m w := by
  unfold Alone erased inWorld
  cases m w <;> rfl

/-- **A sequence** is the one of the single client when its halves are. -/
theorem Alone.bind {x : SharedMain α} {y : Main α} {f : α → SharedMain β} {g : α → Main β}
    (hx : Alone x y w) (hf : ∀ a w', y w = .ok a w' → w'.table = w.table ∧ Alone (f a) (g a) w') :
    Alone (x >>= f) (y >>= g) w := by
  unfold Alone at hx hf ⊢
  rw [erased_bind, bind_apply, bind_apply, hx]
  cases hy : y w with
  | error e w' => rfl
  | ok a w' =>
    obtain ⟨htable, hnext⟩ := hf a w' hy
    rw [htable] at hnext
    exact hnext

/-- It is enough to agree on the state there is. -/
theorem Alone.congr {x : SharedMain α} {y y' : Main α} (h : y w = y' w) (hx : Alone x y' w) :
    Alone x y w := by
  unfold Alone at hx ⊢
  rw [h, hx]

/-- A table that does not change keeps the list. -/
theorem listKept_const (t : Table) : ListKept fun _ => t :=
  ⟨fun j hj => by simpa using hj, by simp⟩

/-- Alone, `code_list` reads the codes of the table. -/
theorem alone_sharedCodeList :
    Alone (sharedCodeList srv) (do let w ← get; return codeList srv w.table) w :=
  sharedList_kept (listKept_const w.table)

/-- The last loop of `calculate_visible_product_list` of the single client. -/
def aloneTabSlice (codes : List ℤ) (w : World) : Main (List ℤ) :=
  let rounds := (w.stop - w.start).toNat
  match w.currentTab with
  | .products | .stock => readSlice .codes codes w.start rounds
  | .basket => readSlice .visibleBasket (w.basket.map BasketProduct.code) w.start rounds

/-- Alone, the slice of a tab is that of its codes. -/
theorem alone_sharedTabSlice (codes : List ℤ) (w : World) :
    Alone (sharedTabSlice codes w) (aloneTabSlice codes w) w := by
  unfold Alone sharedTabSlice aloneTabSlice
  cases w.currentTab <;> simp only [erased_sharedSlice] <;> exact alone_inWorld _

/-- Alone, the visible list is computed as before. -/
theorem alone_sharedVisibleList :
    Alone (sharedVisibleList srv lines) (calculateVisibleProductList srv lines) w := by
  have hend : Alone (sharedVisibleEnd lines) (do let w ← get; return visibleEnd lines w) w :=
    erased_sharedVisibleEnd
  have hsplit : calculateVisibleProductList srv lines = (do
      let stop ← (do let w ← get; return visibleEnd lines w : Main ℤ)
      modify fun w => { w with stop }
      let codes ← (do let w ← get; return codeList srv w.table : Main (List ℤ))
      let w ← get
      aloneTabSlice codes w : Main (List ℤ)) := rfl
  rw [hsplit]
  refine hend.bind fun stop v hv => ?_
  cases hv
  refine ⟨rfl, (alone_inWorld _).bind fun _ v hv => ?_⟩
  cases hv
  refine ⟨rfl, alone_sharedCodeList.bind fun codes v hv => ?_⟩
  cases hv
  refine ⟨rfl, (alone_inWorld _).bind fun u v hv => ?_⟩
  cases hv
  exact ⟨rfl, alone_sharedTabSlice _ _⟩

/-- Alone, `get_product_data` reads the table. -/
theorem alone_sharedProductData (code : ℤ) : Alone (sharedProductData code)
    (do let w ← get; orThrow (getProductData code w.table)) w :=
  alone_inWorld _

/-- Two values that may be missing are looked up one after the other. -/
theorem orThrow_except_bind {x : Except Exception α} {f : α → Except Exception β} :
    (orThrow (x >>= f) : Main β) = orThrow x >>= fun a => orThrow (f a) := by
  cases x <;> rfl

/-- Reading the products of a list reads the first one first. -/
theorem readProducts_cons_apply (code : ℤ) (codes : List ℤ) :
    (do let w ← get; orThrow (readProducts (code :: codes) w.table) : Main Unit) w =
      (do
        let _ ← (do let w ← get; orThrow (getProductData code w.table) : Main Product)
        let w ← get
        orThrow (readProducts codes w.table) : Main Unit) w := by
  show orThrow (getProductData code w.table >>= fun _ => readProducts codes w.table) w = _
  rw [orThrow_except_bind]
  refine bind_congr_apply fun p v hv => ?_
  obtain ⟨-, rfl⟩ := orThrow_eq_ok.1 hv
  rfl

/-- Alone, drawing a list reads its products. -/
theorem alone_sharedDraw (codes : List ℤ) : Alone (sharedDraw codes)
    (do let w ← get; orThrow (readProducts codes w.table)) w := by
  induction codes with
  | nil => rfl
  | cons code codes ih =>
    refine Alone.congr (readProducts_cons_apply code codes) ?_
    refine (alone_sharedProductData code).bind fun p v hv => ?_
    obtain ⟨-, rfl⟩ := orThrow_eq_ok.1 hv
    exact ⟨rfl, ih⟩

/-- Alone, the total is computed as before. -/
theorem alone_sharedTotal (basket : List BasketProduct) (x : ℚ) : Alone (sharedTotal basket x)
    (do let w ← get; orThrow (basketTotal basket w.table x)) w := by
  induction basket generalizing x with
  | nil => rfl
  | cons b basket ih =>
    have hsplit : (orThrow (basketTotal (b :: basket) w.table x) : Main ℚ) w =
        (do
          let p ← (do let w ← get; orThrow (getProductData b.code w.table) : Main Product)
          let w ← get
          orThrow (basketTotal basket w.table (x + p.priceAfterDiscount * b.quantity)) :
            Main ℚ) w := by
      rw [basketTotal, orThrow_except_bind]
      refine bind_congr_apply fun p v hv => ?_
      obtain ⟨-, rfl⟩ := orThrow_eq_ok.1 hv
      rfl
    refine Alone.congr hsplit ((alone_sharedProductData b.code).bind fun p v hv => ?_)
    obtain ⟨-, rfl⟩ := orThrow_eq_ok.1 hv
    exact ⟨rfl, ih _⟩

/-- The loop over `product_codes` asks for the size once more than there are codes. -/
theorem alone_sharedProducts {size i : ℕ} {codes : List ℤ}
    (hsize : i + codes.length = w.table.length) : Alone (sharedProducts size i codes)
      (do let w ← get; orThrow (readProducts codes w.table)) w := by
  induction codes generalizing i with
  | nil =>
    have hend : ¬(i : ℤ) < stockSize w.table := by
      rw [natCast_lt_stockSize, ← hsize, List.length_nil]
      omega
    unfold Alone
    rw [sharedProducts, erased_stockSize_bind, if_neg hend]
    rfl
  | cons code codes ih =>
    have hi : (i : ℤ) < stockSize w.table := by
      rw [natCast_lt_stockSize, ← hsize, List.length_cons]
      omega
    have hround : erased (sharedProducts size i (code :: codes)) ⟨w, fun _ => w.table⟩ =
        erased (do
          let _ ← sharedProductData code
          sharedProducts size (i + 1) codes) ⟨w, fun _ => w.table⟩ := by
      rw [sharedProducts, erased_stockSize_bind, if_pos hi, erased_emit_bind]
      rfl
    refine Alone.congr (readProducts_cons_apply code codes) (hround.trans ?_)
    refine (alone_sharedProductData code).bind fun p v hv => ?_
    obtain ⟨-, rfl⟩ := orThrow_eq_ok.1 hv
    exact ⟨rfl, ih (by rw [← hsize, List.length_cons]; omega)⟩

/-- The reads of the redraw of the single client, once both lists are there. -/
def aloneReads (codes list : List ℤ) : Main Unit := do
  (do let w ← get; orThrow (readProducts codes w.table) : Main Unit)
  let w ← get
  let total ← (do let w' ← get; orThrow (basketTotal w.basket w'.table 0) : Main ℚ)
  modify fun w => { w with total }
  (do let w ← get; orThrow (readProducts list w.table) : Main Unit)

/-- Alone, the reads of a redraw are those of the table. -/
theorem alone_sharedReads {codes list : List ℤ} (hsize : codes.length = w.table.length) :
    Alone (sharedReads codes list) (aloneReads codes list) w := by
  have hproducts : Alone (sharedProducts codes.length 0 codes) _ w :=
    alone_sharedProducts ((Nat.zero_add codes.length).trans hsize)
  refine hproducts.bind fun _ v hv => ?_
  obtain ⟨-, rfl⟩ := orThrow_eq_ok.1 hv
  refine ⟨rfl, (alone_inWorld _).bind fun u v hv => ?_⟩
  cases hv
  refine ⟨rfl, (alone_sharedTotal _ 0).bind fun total v hv => ?_⟩
  obtain ⟨-, rfl⟩ := orThrow_eq_ok.1 hv
  refine ⟨rfl, (alone_inWorld _).bind fun _ v hv => ?_⟩
  cases hv
  exact ⟨rfl, alone_sharedDraw list⟩

/-- What those reads are: the products, the total, and the list shown. -/
theorem aloneReads_apply (codes list : List ℤ) (f : Unit → Main α) (w : World) :
    (aloneReads codes list >>= f) w =
      (do
        orThrow (readProducts codes w.table)
        let total ← orThrow (basketTotal w.basket w.table 0)
        modify fun w => { w with total }
        orThrow (readProducts list w.table)
        f () : Main α) w := by
  simp only [aloneReads, bind_assoc]
  show (orThrow (readProducts codes w.table) >>= _) w =
    (orThrow (readProducts codes w.table) >>= _) w
  refine bind_congr_apply fun _ v hv => ?_
  obtain ⟨-, rfl⟩ := orThrow_eq_ok.1 hv
  show (orThrow (basketTotal v.basket v.table 0) >>= _) v =
    (orThrow (basketTotal v.basket v.table 0) >>= _) v
  refine bind_congr_apply fun total v hv => ?_
  obtain ⟨-, rfl⟩ := orThrow_eq_ok.1 hv
  rfl

/-- They leave the table. -/
theorem aloneReads_table {codes list : List ℤ} {u : Unit}
    (h : aloneReads codes list w = .ok u w') : w'.table = w.table := by
  have hpure := aloneReads_apply codes list pure w
  rw [bind_pure] at hpure
  rw [hpure] at h
  simp only [bind_eq_ok, orThrow_eq_ok, modify_apply, EStateM.Result.ok.injEq, pure_apply] at h
  obtain ⟨_, _, ⟨-, rfl⟩, _, _, ⟨-, rfl⟩, _, _, ⟨-, rfl⟩, _, _, ⟨-, rfl⟩, -, rfl⟩ := h
  rfl

/-- **Without other clients** the redraw is the one of the main loop. -/
theorem alone_sharedRedraw : Alone (sharedRedraw srv lines) (redraw srv lines) w := by
  have hsplit : redraw srv lines w = (do
      modify fun w => { w with list := [] }
      let codes ← (do let w ← get; return codeList srv w.table : Main (List ℤ))
      modify fun w => { w with productCodes := codes }
      let list ← calculateVisibleProductList srv lines
      modify fun w => { w with list, indexedSelection := w.start + w.selection }
      aloneReads codes list
      let key ← withKeys getch
      modify fun w => { w with key } : Main Unit) w := by
    show (calculateVisibleProductList srv lines >>= _)
        { w with list := [], productCodes := codeList srv w.table } =
      (calculateVisibleProductList srv lines >>= _)
        { w with list := [], productCodes := codeList srv w.table }
    refine bind_congr_apply fun list v hv => ?_
    have hcodes : v.productCodes = codeList srv w.table := by
      rw [calculateVisibleProductList_eq] at hv
      split_ifs at hv
      cases hv
      rfl
    show (orThrow (readProducts v.productCodes v.table) >>= _)
        { v with list, indexedSelection := v.start + v.selection } =
      (aloneReads (codeList srv w.table) list >>= _)
        { v with list, indexedSelection := v.start + v.selection }
    rw [aloneReads_apply, hcodes]
  refine Alone.congr hsplit ((alone_inWorld _).bind fun _ v hv => ?_)
  cases hv
  refine ⟨rfl, alone_sharedCodeList.bind fun codes v hv => ?_⟩
  cases hv
  refine ⟨rfl, (alone_inWorld _).bind fun _ v hv => ?_⟩
  cases hv
  refine ⟨rfl, alone_sharedVisibleList.bind fun list v hv => ?_⟩
  rw [calculateVisibleProductList_eq] at hv
  split_ifs at hv
  cases hv
  refine ⟨rfl, (alone_inWorld _).bind fun _ v hv => ?_⟩
  cases hv
  refine ⟨rfl, Alone.bind (alone_sharedReads ?_) fun _ v hv => ⟨aloneReads_table hv, ?_⟩⟩
  · exact codeList_length
  refine (alone_inWorld _).bind fun key v hv => ⟨?_, alone_inWorld _⟩
  obtain ⟨keys, -, rfl⟩ := withKeys_eq_ok.1 hv
  rfl

/-- In a table that does not change all rows are seen when they are there. -/
theorem rowsSeen_const {codes : List ℤ} {t : Table} :
    RowsSeen codes (fun _ => t) ↔ ∀ code ∈ codes, HasRow code t := by
  constructor
  · intro h code hmem
    obtain ⟨j, hj⟩ := List.mem_iff_getElem?.1 hmem
    exact h j code hj
  · intro h j code hj
    exact h code (List.mem_of_getElem? hj)

/-- All products are kept there when their codes have rows. -/
theorem productsKept_const {i : ℕ} {codes : List ℤ} {t : Table}
    (hsize : i + codes.length = t.length) (hrows : ∀ code ∈ codes, HasRow code t) :
    ProductsKept i codes fun _ => t := by
  induction codes generalizing i with
  | nil =>
    show t.length ≤ i
    rw [← hsize, List.length_nil]
    omega
  | cons code codes ih =>
    intro _
    refine ⟨hrows code (by simp), ih ?_ fun c hc => hrows c (by simp [hc])⟩
    rw [← hsize, List.length_cons]
    omega

/-- Nothing changes after the products were read. -/
theorem afterProducts_const (i : ℕ) (codes : List ℤ) (t : Table) :
    afterProducts i codes (fun _ => t) = fun _ => t := by
  induction codes generalizing i with
  | nil => rfl
  | cons code codes ih =>
    rw [afterProducts]
    split_ifs
    · exact ih (i + 1)
    · rfl

/-- **Nothing changes under a redraw** that is alone at the database: it survives exactly
where the window is inside its list and the products of the basket have rows. -/
theorem undisturbed_alone : Undisturbed srv lines w (fun _ => w.table) ↔
    SliceInRange w w.start (visibleEnd lines w) ∧ BasketRows w := by
  have hbasket : basketSeen srv lines w (fun _ => w.table) = fun _ => w.table :=
    afterProducts_const 0 (codeList srv w.table) w.table
  constructor
  · intro h
    refine ⟨h.visible.slice, fun b hb => ?_⟩
    have hrows := h.basket
    rw [hbasket, rowsSeen_const] at hrows
    exact hrows b.code (List.mem_map_of_mem hb)
  · rintro ⟨hslice, hrows⟩
    refine ⟨listKept_const _, ⟨listKept_const _, hslice⟩, ?_, ?_, ?_⟩
    · exact productsKept_const ((Nat.zero_add _).trans codeList_length) fun code hcode =>
        mem_codeList.1 hcode
    · rw [hbasket, rowsSeen_const]
      intro code hcode
      obtain ⟨b, hb, rfl⟩ := List.mem_map.1 hcode
      exact hrows b hb
    · rw [hbasket]
      refine rowsSeen_const.2 fun code hcode => ?_
      exact exists_row_of_mem_currentCodes hrows
        (List.mem_of_mem_drop (List.mem_of_mem_take hcode))

/-! ## The other client -/

/-- What the other client commits. -/
inductive Change where
  | insert (r : Row)
  | delete (code : ℤ)

/-- The table after a change. -/
def Change.apply (t : Table) : Change → Table
  | insert r => t ++ [r]
  | delete code => erase code t

/-- No product of the basket is deleted. -/
def Change.Spares (basket : List BasketProduct) : Change → Prop
  | insert _ => True
  | delete code => ∀ b ∈ basket, b.code ≠ code

/-- The other client got from one table to the other by inserts, and deletes of products
that are not in the basket. -/
def Commits (basket : List BasketProduct) (t t' : Table) : Prop :=
  ∃ changes : List Change, (∀ c ∈ changes, c.Spares basket) ∧
    t' = changes.foldl Change.apply t

/-- The other client commits between the statements, whenever it likes. -/
structure Interleaved (basket : List BasketProduct) (t : Table) (T : Snapshots) : Prop where
  first : Commits basket t (T 0)
  next : ∀ k, Commits basket (T k) (T (k + 1))

section

variable {basket : List BasketProduct} {b : BasketProduct} {t t' : Table}

/-- A change that spares the basket leaves the rows of its products. -/
theorem Change.hasRow {c : Change} (hspares : c.Spares basket) (hb : b ∈ basket)
    (h : HasRow b.code t) : HasRow b.code (c.apply t) := by
  obtain ⟨r, hr, hcode⟩ := h
  cases c with
  | insert r' => exact ⟨r, List.mem_append_left _ hr, hcode⟩
  | delete code =>
    refine ⟨r, List.mem_filter.2 ⟨hr, ?_⟩, hcode⟩
    have hne : b.code ≠ code := hspares b hb
    simpa [hcode] using hne

/-- So does any number of them. -/
theorem Commits.hasRow (hb : b ∈ basket) (h : Commits basket t t') (hrow : HasRow b.code t) :
    HasRow b.code t' := by
  obtain ⟨changes, hspares, rfl⟩ := h
  induction changes generalizing t with
  | nil => exact hrow
  | cons c changes ih =>
    exact ih (Change.hasRow (hspares c (by simp)) hb hrow) fun d hd => hspares d (by simp [hd])

/-- **The products of the basket keep their rows**, for every statement. -/
theorem Interleaved.hasRow (h : Interleaved basket t T) (hb : b ∈ basket)
    (hrow : HasRow b.code t) (k : ℕ) : HasRow b.code (T k) := by
  induction k with
  | zero => exact h.first.hasRow hb hrow
  | succ k ih => exact (h.next k).hasRow hb ih

end

/-- The milk is inserted between the `SELECT` of `code_list` and its first size. -/
def milkInserted : Snapshots := fun k => if k = 0 then [bread] else [bread, milk]

/-- The bread is deleted after the lists of a redraw, before its product is read. -/
def breadDeleted : Snapshots := fun k => if k < 9 then [bread] else []

/-- A product inserted while a list is read leads the loop behind the rows fetched, and a
product deleted while the screen is drawn has no row left when it is read. -/
theorem redraw_disturbed :
    Interleaved [] [bread] milkInserted ∧
      (∀ w, ¬Survives (sharedCodeList strictServer) ⟨w, milkInserted⟩) ∧
      Interleaved [] [bread] breadDeleted ∧
      ¬Survives (sharedRedraw strictServer 11)
        ⟨boot [bread] [] ⟨[], []⟩ [], breadDeleted⟩ := by
  have hnone : ∀ t : Table, Commits [] t t := fun t => ⟨[], by simp, rfl⟩
  refine ⟨⟨hnone _, fun k => ?_⟩, fun w h => ?_, ⟨hnone _, fun k => ?_⟩, ?_⟩
  · by_cases hk : k = 0
    · subst hk
      exact ⟨[.insert milk], by simp [Change.Spares], rfl⟩
    · have hk' : k + 1 ≠ 0 := k.succ_ne_zero
      simp only [milkInserted, if_neg hk, if_neg hk']
      exact hnone _
  · have hlast : [bread, milk].length ≤ 0 + [bread].length := (survives_sharedList_iff.1 h).2
    exact absurd hlast (by decide)
  · by_cases hk : k + 1 < 9
    · simp only [breadDeleted, if_pos hk, if_pos (Nat.lt_of_succ_lt hk)]
      exact hnone _
    · by_cases hk' : k < 9
      · simp only [breadDeleted, if_neg hk, if_pos hk']
        exact ⟨[.delete 1], by simp [Change.Spares], by decide⟩
      · simp only [breadDeleted, if_neg hk, if_neg hk']
        exact hnone _
  · unfold Survives AllLogged
    decide +kernel

/-- **A redraw survives other clients** exactly where they do not disturb it: `code_list` and
`name_list` where each size they ask for is in step with the rows fetched, and the redraw
where, besides, its window is inside the list and every code has a row when its product is
read.  The products of the basket always keep theirs. -/
theorem redraw_survives_iff (srv : Server) (lines : ℤ) :
    (∀ w T, (Survives (sharedCodeList srv) ⟨w, T⟩ ↔ ListKept T) ∧
      (Survives (sharedNameList srv) ⟨w, T⟩ ↔ ListKept T)) ∧
    (∀ w T, Survives (sharedRedraw srv lines) ⟨w, T⟩ ↔ Undisturbed srv lines w T) ∧
    ∀ w T, Interleaved w.basket w.table T → BasketRows w →
      ∀ b ∈ w.basket, ∀ k, HasRow b.code (T k) := by
  refine ⟨fun w T => ⟨?_, ?_⟩, fun w T => survives_sharedRedraw_iff, ?_⟩
  · exact survives_sharedList_iff
  · exact survives_sharedList_iff
  · intro w T h hrows b hb
    exact h.hasRow hb (hrows b hb)

/-- The milk is inserted when the loop over `product_codes` is done, before the products of
the basket and those on the screen are read. -/
theorem redraw_survives_milk :
    let w : World := { boot [bread] [] ⟨[], []⟩ [] with basket := [⟨1, 1⟩] }
    let T : Snapshots := fun k => if k < 11 then [bread] else [bread, milk]
    Interleaved w.basket w.table T ∧ Undisturbed strictServer 11 w T ∧
      ∀ k, HasRow 1 (T k) := by
  intro w T
  have h := redraw_survives_iff strictServer 11
  have hrows : BasketRows w := by
    intro b hb
    obtain rfl := List.mem_singleton.1 hb
    exact ⟨bread, List.mem_singleton_self _, rfl⟩
  have hnone : ∀ t, Commits w.basket t t := fun t => ⟨[], by simp, rfl⟩
  have hcommits : Interleaved w.basket w.table T := by
    refine ⟨hnone _, fun k => ?_⟩
    by_cases hk : k + 1 < 11
    · simp only [T, if_pos hk, if_pos (Nat.lt_of_succ_lt hk)]
      exact hnone _
    · by_cases hk' : k < 11
      · simp only [T, if_neg hk, if_pos hk']
        exact ⟨[.insert milk], by simp [Change.Spares], rfl⟩
      · simp only [T, if_neg hk, if_neg hk']
        exact hnone _
  refine ⟨hcommits, (h.2.1 w T).1 ?_, h.2.2 w T hcommits hrows ⟨1, 1⟩ (List.mem_singleton_self _)⟩
  unfold Survives AllLogged
  decide +kernel

end CliPos
