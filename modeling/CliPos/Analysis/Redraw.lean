import CliPos.Analysis.Commands
import Mathlib.Data.List.Infix

/-!
# What a redraw establishes

A redraw computes the visible slice of the current list, the index of the highlighted
product and the total of the basket, and it reads every product of the basket.  `Fresh`
collects these facts.  `fresh_of_mem_trace` is what the results about single commands rest
on: every command but the scan starts from a state in which they still hold, because a
command that spoils them leaves a key that no later command answers to.
-/

set_option autoImplicit false

namespace CliPos

open Halting

variable {srv : Server} {lines : ℤ} {w w' : World}

/-! ## Reading a slice -/

/-- Reading a slice succeeds when it is empty or inside the vector. -/
theorem readSlice_eq (site : Site) (xs : List ℤ) (i : ℤ) (n : ℕ) (w : World) :
    readSlice site xs i n w =
      if n = 0 ∨ 0 ≤ i ∧ i + n ≤ xs.length then .ok ((xs.drop i.toNat).take n) w
      else .error (.undefined site) w := by
  induction n generalizing i with
  | zero => simp [readSlice]
  | succ n ih =>
    rw [readSlice, bind_apply]
    by_cases hi : 0 ≤ i ∧ i < xs.length
    · have hlt : i.toNat < xs.length := by omega
      have hread : readAt site xs i w = .ok (xs[i.toNat]) w := by
        rw [readAt_eq_ok]
        exact ⟨by rw [elementAt, if_pos hi.1, List.getElem?_eq_getElem hlt], rfl⟩
      have hdrop : xs.drop i.toNat = xs[i.toNat] :: xs.drop (i + 1).toNat := by
        rw [List.drop_eq_getElem_cons hlt]
        congr 2
        omega
      rw [hread]
      simp only [bind_apply, ih]
      have hiff : (n + 1 = 0 ∨ 0 ≤ i ∧ i + (n + 1 : ℕ) ≤ xs.length) ↔
          (n = 0 ∨ 0 ≤ i + 1 ∧ i + 1 + n ≤ xs.length) := by
        rw [or_iff_right (Nat.succ_ne_zero n)]
        push_cast
        omega
      by_cases hn : n = 0 ∨ 0 ≤ i + 1 ∧ i + 1 + n ≤ xs.length
      · rw [if_pos hn, if_pos (hiff.2 hn), hdrop, List.take_succ_cons]
        rfl
      · rw [if_neg hn, if_neg (mt hiff.1 hn)]
    · have hread : readAt site xs i w = .error (.undefined site) w := by
        unfold readAt
        cases h : elementAt xs i with
        | none => rfl
        | some a =>
          have := (elementAt_isSome_iff xs i).1 (by rw [h]; rfl)
          exact absurd this hi
      have hout : ¬(n + 1 = 0 ∨ 0 ≤ i ∧ i + (n + 1 : ℕ) ≤ xs.length) := by
        rw [or_iff_right (Nat.succ_ne_zero n)]
        push_cast
        omega
      rw [hread, if_neg hout]

/-- The codes of the list the current tab shows. -/
def currentCodes (srv : Server) (w : World) : List ℤ :=
  match w.currentTab with
  | .basket => w.basket.map BasketProduct.code
  | .products | .stock => codeList srv w.table

/-- There are as many codes as the list has rows. -/
@[simp] theorem currentCodes_length : ((currentCodes srv w).length : ℤ) = currentListSize w := by
  unfold currentCodes currentListSize
  cases w.currentTab <;> simp [stockSize]

/-- The size of the list is not negative. -/
theorem currentListSize_nonneg : 0 ≤ currentListSize w := by
  rw [← @currentCodes_length strictServer]
  omega

/-- The slice of the current list between two indices. -/
def visibleSlice (srv : Server) (w : World) (start stop : ℤ) : List ℤ :=
  ((currentCodes srv w).drop start.toNat).take (stop - start).toNat

/-- The loop of `calculate_visible_product_list` reads existing entries only. -/
def SliceInRange (w : World) (start stop : ℤ) : Prop :=
  stop ≤ start ∨ 0 ≤ start ∧ stop ≤ currentListSize w

/-- Whether a slice is in range can be tested. -/
instance (w : World) (start stop : ℤ) : Decidable (SliceInRange w start stop) := by
  unfold SliceInRange; infer_instance

/-- **`calculate_visible_product_list`** returns the slice when it is inside the list, and
is undefined otherwise. -/
theorem calculateVisibleProductList_eq (srv : Server) (lines : ℤ) (w : World) :
    calculateVisibleProductList srv lines w =
      if SliceInRange w w.start (visibleEnd lines w) then
        .ok (visibleSlice srv w w.start (visibleEnd lines w))
          { w with stop := visibleEnd lines w }
      else .error (.undefined (if w.currentTab = .basket then .visibleBasket else .codes))
        { w with stop := visibleEnd lines w } := by
  have hlen := @currentCodes_length srv w
  unfold calculateVisibleProductList
  simp only [bind_apply, modify_apply, get_apply]
  unfold SliceInRange visibleSlice
  cases ht : w.currentTab with
  | basket =>
    simp only [currentCodes, ht] at hlen ⊢
    rw [readSlice_eq]
    refine if_congr ?_ rfl rfl
    omega
  | products | stock =>
    simp only [currentCodes, ht] at hlen ⊢
    rw [readSlice_eq]
    refine if_congr ?_ rfl (by simp)
    omega

/-! ## The facts -/

/-- Every code in the basket has a row in the products table. -/
def BasketRows (w : World) : Prop := ∀ b ∈ w.basket, ∃ r ∈ w.table, r.code = b.code

/-- The codes shown have rows when those of the basket do. -/
theorem exists_row_of_mem_currentCodes (h : BasketRows w) {code : ℤ}
    (hmem : code ∈ currentCodes srv w) : ∃ r ∈ w.table, r.code = code := by
  unfold currentCodes at hmem
  cases ht : w.currentTab with
  | basket =>
    simp only [ht, List.mem_map] at hmem
    obtain ⟨b, hb, rfl⟩ := hmem
    exact h b hb
  | products | stock =>
    simp only [ht] at hmem
    exact mem_codeList.1 hmem

/-- A total that was computed found a row for every entry. -/
theorem basketTotal_isOk {basket : List BasketProduct} {t : Table} {x total : ℚ}
    (h : basketTotal basket t x = .ok total) : ∀ b ∈ basket, ∃ r ∈ t, r.code = b.code := by
  induction basket generalizing x with
  | nil => simp
  | cons b basket ih =>
    rw [basketTotal] at h
    cases hp : getProductData b.code t with
    | error e => simp [hp, bind, Except.bind] at h
    | ok p =>
      simp only [hp, bind, Except.bind] at h
      obtain ⟨r, hr, hc, -⟩ := getProductData_eq_ok hp
      simp only [List.mem_cons, forall_eq_or_imp]
      exact ⟨⟨r, hr, hc⟩, ih h⟩

/-- What holds at the end of a redraw and is still true when a command starts. -/
structure Fresh (srv : Server) (lines : ℤ) (w : World) : Prop where
  stop_eq : w.stop = visibleEnd lines w
  list_eq : w.list = visibleSlice srv w w.start w.stop
  inRange : SliceInRange w w.start w.stop
  codes_eq : w.productCodes = codeList srv w.table
  indexed_eq : w.indexedSelection = w.start + w.selection
  total_eq : basketTotal w.basket w.table 0 = .ok w.total

namespace Fresh

/-- In a redrawn state every entry of the basket has a row. -/
theorem basketRows (h : Fresh srv lines w) : BasketRows w := basketTotal_isOk h.total_eq

/-- The list shown is as long as its window. -/
theorem list_length (h : Fresh srv lines w) :
    (w.list.length : ℤ) = max 0 (w.stop - w.start) := by
  have hlen := @currentCodes_length srv w
  rw [h.list_eq, visibleSlice, List.length_take, List.length_drop]
  rcases h.inRange with hr | ⟨h0, hr⟩ <;> omega

/-- The codes in the list have rows in the table. -/
theorem exists_row_of_mem_list (h : Fresh srv lines w) {code : ℤ} (hmem : code ∈ w.list) :
    ∃ r ∈ w.table, r.code = code := by
  rw [h.list_eq] at hmem
  exact exists_row_of_mem_currentCodes h.basketRows
    (List.mem_of_mem_drop (List.mem_of_mem_take hmem))

/-- Only the keys, the key read, the settings and the like have changed. -/
theorem congr (h : Fresh srv lines w) (key : Key) (settings : Settings) (keys : List Key)
    (printer : Printer) (uninit : List ℤ) :
    Fresh srv lines { w with key, settings, keys, printer, uninit } :=
  ⟨h.stop_eq, h.list_eq, h.inRange, h.codes_eq, h.indexed_eq, h.total_eq⟩

end Fresh

/-- **A redraw** sets the window's end, the list, the codes, the index and the total, and
reads a key; it changes nothing else. -/
theorem redraw_eq_ok (h : redraw srv lines w = .ok () w') :
    ∃ key keys total, w.keys = key :: keys ∧ basketTotal w.basket w.table 0 = .ok total ∧
      SliceInRange w w.start (visibleEnd lines w) ∧
      w' = { w with
        key, keys, total, stop := visibleEnd lines w
        list := visibleSlice srv w w.start (visibleEnd lines w)
        productCodes := codeList srv w.table
        indexedSelection := w.start + w.selection } := by
  simp only [redraw, bind_eq_ok, modify_apply, get_apply, orThrow_eq_ok, withKeys_eq_ok,
    EStateM.Result.ok.injEq, true_and] at h
  obtain ⟨_, _, rfl, list, v, hlist, _, _, rfl, _, _, ⟨rfl, rfl⟩, -, _, ⟨-, rfl⟩, total, _,
    ⟨htotal, rfl⟩, _, _, rfl, -, _, ⟨-, rfl⟩, key, _, ⟨keys, hkey, rfl⟩, rfl⟩ := h
  rw [calculateVisibleProductList_eq] at hlist
  have hend : visibleEnd lines { w with list := [], productCodes := codeList srv w.table } =
      visibleEnd lines w := rfl
  have hrange : SliceInRange { w with list := [], productCodes := codeList srv w.table }
      w.start (visibleEnd lines w) ↔ SliceInRange w w.start (visibleEnd lines w) := Iff.rfl
  simp only [hend, hrange] at hlist
  split at hlist
  · rename_i hr
    simp only [EStateM.Result.ok.injEq] at hlist
    obtain ⟨rfl, rfl⟩ := hlist
    exact ⟨key, keys, total, getch_eq_ok.1 hkey, htotal, hr, rfl⟩
  · cases hlist

/-- A redraw leaves a redrawn state. -/
theorem fresh_of_redraw (h : redraw srv lines w = .ok () w') : Fresh srv lines w' := by
  obtain ⟨key, keys, total, -, htotal, hr, rfl⟩ := redraw_eq_ok h
  exact ⟨rfl, rfl, hr, rfl, rfl, htotal⟩

/-- A product for the examples. -/
def bread : Row where
  name := label "bread"
  code := 1
  price := 2
  discount := 10
  tax := [65]
  stock := 5
  priceToStock := 1
  soldBy := 0

/-- A second product for the examples. -/
def milk : Row := { bread with name := label "milk", code := 2, discount := 0 }

/-! ## The key along the chain -/

/-- The commands after a command `c` of the chain: none after the scan, none that answers
to a key of `c`, and after the search none that answers to `m` or Enter. -/
theorem commands_after : ∀ cs ∈ commands.tails, ∀ c ∈ cs.head?,
    (c = .scan → cs.tail = []) ∧ (∀ d ∈ cs.tail, ∀ key ∈ c.keys, key ∉ d.keys) ∧
      (c = .search → ∀ d ∈ cs.tail, charKey 'm' ∉ d.keys ∧ keyEnter ∉ d.keys) := by
  decide

/-- A command other than the scan is skipped for a key that is not its own. -/
theorem Command.guard_eq_false {c : Command} (hc : c ≠ .scan) :
    c.guard w = false ↔ w.key ∉ c.keys := by
  cases c <;> first | exact absurd rfl hc | simp [Command.guard]

/-- Only `q` and the search read a new key. -/
theorem body_key {c : Command} (hq : c ≠ .quit) (hs : c ≠ .search)
    (h : c.body srv lines w = .ok () w') : w'.key = w.key := by
  cases c with
  | quit => exact absurd rfl hq
  | search => exact absurd rfl hs
  | menu =>
    obtain ⟨settings, keys, rfl⟩ := menuCommand_eq_ok h
    rfl
  | remove =>
    obtain ⟨-, rfl⟩ | ⟨-, code, -, ⟨-, rfl⟩ | ⟨-, basket, -, rfl⟩⟩ := removeCommand_eq_ok h
    · rfl
    · exact removeAdjust_key lines w
    · exact removeAdjust_key lines w
  | addProduct =>
    obtain ⟨-, rfl⟩ | ⟨-, code, table, keys, -, -, rfl⟩ := addCommand_eq_ok h <;> rfl
  | modifyProduct =>
    obtain ⟨-, keys, rfl⟩ | ⟨-, code, table, keys, -, -, rfl⟩ := modifyCommand_eq_ok h <;> rfl
  | enter =>
    obtain ⟨-, rfl⟩ | ⟨-, code, p, -, -, rfl⟩ := enterCommand_eq_ok h
    · rfl
    · exact (movesCursor_showBasket _).key
  | testReceipt =>
    obtain ⟨key, keys, printed, keys', printer, -, -, rfl⟩ := testReceiptCommand_eq_ok h
    rfl
  | checkout =>
    obtain ⟨key, keys, printed, keys', printer, -, -, rfl⟩ := checkoutCommand_eq_ok h
    cases printed <;> rfl
  | scan =>
    obtain ⟨text, keys, code, -, -, ⟨-, rfl⟩ | ⟨-, -, keys', rfl⟩ | ⟨-, -, p, -, rfl⟩⟩ :=
      scanCommand_eq_ok h <;>
      exact (movesCursor_clampCursor _).key
  | nextTab | stockTab | scrollUp | scrollDown | up | down =>
    exact (body_movesCursor (by decide) h).key

/-- A search leaves the facts of the redraw alone, or a key that only earlier commands
answer to. -/
theorem searchCommand_fresh (hf : Fresh srv lines w) (h : searchCommand srv w = .ok () w') :
    Fresh srv lines w' ∨ w'.key = charKey 'm' ∨ w'.key = keyEnter := by
  obtain ⟨keys, -, rfl⟩ | ⟨word, key, keys, index, code, -, -, -, h⟩ := searchCommand_eq_ok h
  · exact .inl (hf.congr w.key w.settings keys w.printer w.uninit)
  · obtain ⟨rfl, table, keys', -, rfl⟩ | ⟨rfl, p, -, rfl⟩ | ⟨-, -, rfl⟩ := searchAnswer_eq_ok h
    · exact .inr (.inl rfl)
    · exact .inr (.inr (movesCursor_showBasket _).key)
    · exact .inl (hf.congr key w.settings keys w.printer w.uninit.tail)

/-- **Every command but the scan starts from a state in which the facts of the redraw
hold.**  The induction is along the chain: as long as no command has spoilt them they
hold, and afterwards no command but the scan answers to the key. -/
theorem fresh_of_mem_trace {c : Command} {v : World}
    (hmem : (c, v) ∈ iterationTrace srv lines w) (hc : c ≠ .scan) : Fresh srv lines v := by
  unfold iterationTrace at hmem
  cases hr : redraw srv lines w with
  | error e s => simp [hr] at hmem
  | ok u w₁ =>
    simp only [hr] at hmem
    let P : List Command → World → Prop := fun cs v =>
      cs <:+ commands ∧ (Fresh srv lines v ∨ ∀ c ∈ cs, c ≠ .scan → c.guard v = false)
    have hskip : ∀ c cs s, P (c :: cs) s → c.guard s = false → P cs s := by
      rintro c cs s ⟨hsuf, hP⟩ -
      refine ⟨(List.suffix_cons c cs).trans hsuf, hP.imp id fun hno d hd => hno d ?_⟩
      exact List.mem_cons_of_mem c hd
    have hrun : ∀ c cs s s', P (c :: cs) s → c.guard s = true →
        c.body srv lines s = .ok () s' → P cs s' := by
      rintro c cs s s' ⟨hsuf, hP⟩ hg hb
      refine ⟨(List.suffix_cons c cs).trans hsuf, ?_⟩
      obtain ⟨hlast, hdis, hsearch⟩ :=
        commands_after (c :: cs) ((List.mem_tails _ _).2 hsuf) c rfl
      by_cases hscan : c = .scan
      · rw [show cs = [] from hlast hscan]
        exact .inr (by simp)
      have hfresh : Fresh srv lines s := by
        refine hP.resolve_right fun hno => ?_
        rw [hno c (by simp) hscan] at hg
        cases hg
      have hkeys : s.key ∈ c.keys := by
        cases c <;> first | exact absurd rfl hscan | exact of_decide_eq_true hg
      by_cases hquit : c = .quit
      · subst hquit
        obtain ⟨-, key, keys, -, -, -, rfl⟩ := quitCommand_eq_ok hb
        exact .inl (hfresh.congr key s.settings keys s.printer s.uninit)
      by_cases hsrch : c = .search
      · subst hsrch
        refine (searchCommand_fresh hfresh hb).imp id fun hkey d hd hdscan => ?_
        rw [Command.guard_eq_false hdscan]
        rcases hkey with hkey | hkey <;> rw [hkey]
        · exact (hsearch rfl d hd).1
        · exact (hsearch rfl d hd).2
      · refine .inr fun d hd hdscan => ?_
        rw [Command.guard_eq_false hdscan, body_key hquit hsrch hb]
        exact hdis d hd s.key hkeys
    obtain ⟨cs', ⟨-, hP⟩, hg⟩ := Chain.inv_of_mem_trace (P := P) hskip hrun
      ⟨List.suffix_refl _, .inl (fresh_of_redraw hr)⟩ hmem
    rcases hP with hP | hP
    · exact hP
    · have := hP c (by simp) hc
      rw [hg] at this
      cases this

end CliPos
