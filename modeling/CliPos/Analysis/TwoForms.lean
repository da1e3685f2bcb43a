import CliPos.Lib.LostUpdate
import CliPos.Analysis.Edits
import CliPos.Analysis.Interleavings

/-!
# Two users that edit one product

Two tills with a form open on one product are two clients that read and overwrite one value,
its row (`forms_refine`): the form writes back what it showed, with the user's changes.  So
the changes of both are in the row at the end exactly when the later one to commit was shown
the other's, or these changed nothing (`both_edits_kept_iff`).
-/

set_option autoImplicit false

namespace CliPos

open Decimal Halting Protocol

variable {srv : Server} {maxNameLength code : ℤ} {keys : Till → Product → List Key}
  {edits : Till → Edit} {t : Table} {r : Row} {s s' : Forms} {e : FormEvent}
  {es : List FormEvent} {c : Till}

/-! ## Two forms on one row -/

/-- The steps of `update_stock` with a form filled in are those of the two tills. -/
theorem run_saves {old p : Product} (hshown : s.shown c = some old)
    (hp : filledForm maxNameLength (keys c) old = some p) (actions : List Event)
    (hactions : ∀ a ∈ actions, a.till = c) :
    run (takeFormStep srv maxNameLength code keys) s
        (actions.map fun a => ⟨a.till, .save a.action⟩) =
      (run (takeStep srv fun _ => p) s.shop actions).map fun shop => { s with shop } := by
  induction actions generalizing s with
  | nil => rfl
  | cons a actions ih =>
    obtain ⟨d, a⟩ := a
    obtain rfl : d = c := hactions _ List.mem_cons_self
    have hstep : takeFormStep srv maxNameLength code keys s ⟨d, .save a⟩ =
        (takeStep srv (fun _ => p) s.shop ⟨d, a⟩).map fun shop => { s with shop } := by
      simp only [takeFormStep, hshown, hp, Option.bind_some]
    rw [List.map_cons, run_cons, run_cons, hstep]
    cases takeStep srv (fun _ => p) s.shop ⟨d, a⟩ with
    | none => rfl
    | some shop =>
      exact @ih { s with shop } hshown fun b hb => hactions b (List.mem_cons_of_mem _ hb)

/-- **A form that nobody interrupts** is `add_modify_product` of the single client. -/
theorem run_formTransaction {old p : Product} (hshown : s.shown c = none)
    (hphase : s.shop.phase c = .start) (hother : (s.shop.phase c.other).held = [])
    (hold : getProductData code s.shop.table = .ok old)
    (hp : filledForm maxNameLength (keys c) old = some p) :
    (run (takeFormStep srv maxNameLength code keys) s (formTransaction c)).map
        (fun s => s.shop.table) =
      (valueOf (addModifyProduct srv maxNameLength code true s.shop.table (keys c old))).map
        Prod.fst := by
  have hread : takeFormStep srv maxNameLength code keys s ⟨c, .read⟩ = some (s.display c old) := by
    simp only [takeFormStep, hshown, hold]
    rfl
  have hsaves : run (takeFormStep srv maxNameLength code keys) (s.display c old)
      ((transaction c).map fun e => ⟨e.till, .save e.action⟩) = _ :=
    run_saves (Function.update_self ..) hp (transaction c) (by simp [transaction])
  have hform : (valueOf (addModifyProduct srv maxNameLength code true s.shop.table
      (keys c old))).map Prod.fst = (updateStock srv p s.shop.table).toOption := by
    unfold filledForm at hp
    split at hp
    case h_1 answers rest hanswers =>
      have hproduct : answers.toProduct old = .ok p := by
        cases hproduct : answers.toProduct old with
        | error e => rw [hproduct] at hp; cases hp
        | ok q =>
          rw [hproduct] at hp
          exact congrArg Except.ok (Option.some.inj hp)
      rw [addModifyProduct, bind_apply, hold]
      simp only [orThrow, pure_apply, bind_apply, hanswers, hproduct]
      cases updateStock srv p s.shop.table <;> rfl
    case h_2 => cases hp
  have hrun : (run (takeStep srv fun _ => p) (s.display c old).shop (transaction c)).map
      Shop.table = _ := run_transaction hphase hother
  rw [formTransaction, run_cons, hread, Option.bind_some, hsaves, Option.map_map, hform]
  exact hrun

/-- What the two users are about to do is settled, and sendable: they fill in the form with
their edits, whether or not the other was faster, and no name has a quote in it. -/
structure BothEdit (maxNameLength : ℤ) (keys : Till → Product → List Key) (edits : Till → Edit)
    (r : Row) : Prop where
  fills : ∀ c, Edits maxNameLength (keys c) (edits c) r ∧
    Edits maxNameLength (keys c) (edits c) ((edits c.other).apply r)
  name : quote ∉ r.name
  names : ∀ c, ∀ name ∈ (edits c).name, quote ∉ name

/-- An edit that brings in no quote leaves none. -/
theorem Edit.notMem_name {e : Edit} (h : quote ∉ r.name) (he : ∀ name ∈ e.name, quote ∉ name) :
    quote ∉ (e.apply r).name := by
  cases hname : e.name with
  | none => simpa [Edit.apply, hname] using h
  | some name => simpa [Edit.apply, hname] using he name hname

/-- **The product that a client saves**, from a row that it can be shown. -/
theorem BothEdit.filled (h : BothEdit maxNameLength keys edits r) {w : Row}
    (hw : w = r ∨ w = (edits c.other).apply r) :
    ∃ p, filledForm maxNameLength (keys c) (productOf w) = some p ∧
      rowOf p = (edits c).apply w ∧ p.code = r.code ∧ quote ∉ p.name := by
  have hedits : Edits maxNameLength (keys c) (edits c) w := by
    rcases hw with rfl | rfl
    · exact (h.fills c).1
    · exact (h.fills c).2
  obtain ⟨p, hp, hrow⟩ := filledForm_eq hedits
  have hname : p.name = ((edits c).apply w).name := congrArg Row.name hrow
  have hcode : p.code = w.code := congrArg Row.code hrow
  refine ⟨p, hp, hrow, ?_, ?_⟩
  · rcases hw with rfl | rfl
    · exact hcode
    · exact hcode
  · rw [hname]
    refine Edit.notMem_name ?_ (h.names c)
    rcases hw with rfl | rfl
    · exact h.name
    · exact Edit.notMem_name h.name (h.names c.other)

/-! ## The shared row -/

/-- The step of a client that reads or overwrites the row. -/
def sharedEvent : FormEvent → Option (LostUpdate.Event Till)
  | ⟨c, .read⟩ => some ⟨c, .read⟩
  | ⟨c, .save .commit⟩ => some ⟨c, .commit⟩
  | _ => none

/-- A client that was shown the product is somewhere on its way to the commit. -/
def UnderWay (code : ℤ) (t : Table) : Phase → Prop
  | .start => True
  | .looked found => found = true
  | .updated rows => rows = rowsWith code t
  | _ => False

/-- A client with the form is a client of the shared row. -/
def ClientRefines (code : ℤ) (t : Table) (s : Forms) (c : Till) : LostUpdate.Phase Row → Prop
  | .idle => s.shown c = none ∧ s.shop.phase c = .start
  | .read w => s.shown c = some (productOf w) ∧ UnderWay code t (s.shop.phase c)
  | .done => s.shown c ≠ none ∧ s.shop.phase c = .committed

/-- The shared value is the row under the code, and no code has moved. -/
structure Refines (code : ℤ) (t : Table) (s : Forms) (u : LostUpdate.State Till Row) : Prop where
  row : s.shop.table.find? (fun q => q.code = code) = some u.value
  codes : s.shop.table.map Row.code = t.map Row.code
  client : ∀ c, ClientRefines code t s c (u.phase c)

/-- The rows with a code are found by the codes alone. -/
theorem rowsWith_congr {t t' : Table} (h : t.map Row.code = t'.map Row.code) :
    rowsWith code t = rowsWith code t' := by
  have hlength : t.length = t'.length := by simpa using congrArg List.length h
  have hcode : ∀ i, t[i]?.map Row.code = t'[i]?.map Row.code := fun i => by
    rw [← List.getElem?_map, h, List.getElem?_map]
  simp only [rowsWith, hlength, hcode]

/-- The row written is the one found under its code. -/
theorem find_updateRows {p : Product} {q : Row}
    (h : t.find? (fun q => q.code = p.code) = some q) :
    (updateRows p t).find? (fun q => q.code = p.code) = some (rowOf p) := by
  have hcode : ((fun q : Row => decide (q.code = p.code)) ∘
      fun q => if q.code = p.code then rowOf p else q) = fun q => decide (q.code = p.code) := by
    funext q
    by_cases hq : q.code = p.code
    · simp [hq, rowOf]
    · simp [hq]
  have hfound := List.find?_some h
  simp only [decide_eq_true_eq] at hfound
  rw [updateRows, List.find?_map, hcode, h, Option.map_some, if_pos hfound]

/-- **A form opened** is a reading of the row. -/
theorem Refines.read {u : LostUpdate.State Till Row} (h : Refines code t s u)
    (hidle : u.phase c = .idle) :
    Refines code t (s.display c (productOf u.value)) (u.enter c (.read u.value)) where
  row := h.row
  codes := h.codes
  client d := by
    rcases c.eq_or_eq_other d with rfl | rfl
    · have hclient := h.client d
      rw [hidle] at hclient
      rw [LostUpdate.enter_phase_self]
      refine ⟨Function.update_self .., ?_⟩
      show UnderWay code t (s.shop.phase d)
      rw [hclient.2]
      trivial
    · have hshown : (s.display c (productOf u.value)).shown c.other = s.shown c.other :=
        Function.update_of_ne c.other_ne ..
      have hclient := h.client c.other
      rw [LostUpdate.enter_phase_of_ne _ _ c.other_ne]
      unfold ClientRefines at hclient ⊢
      rw [hshown]
      exact hclient

/-- A client that goes on changes nothing of the row. -/
theorem Refines.goOn {u : LostUpdate.State Till Row} {w : Row} {phase : Phase}
    (h : Refines code t s u) (hread : u.phase c = .read w) (hphase : UnderWay code t phase) :
    Refines code t { s with shop := s.shop.enter c phase } u where
  row := h.row
  codes := h.codes
  client d := by
    rcases c.eq_or_eq_other d with rfl | rfl
    · have hclient := h.client d
      rw [hread] at hclient ⊢
      refine ⟨hclient.1, ?_⟩
      simpa only [enter_phase_self] using hphase
    · have hclient := h.client c.other
      unfold ClientRefines at hclient ⊢
      simpa only [enter_phase_other] using hclient

/-- **A commit** overwrites the row with the client's own. -/
theorem Refines.commit {u : LostUpdate.State Till Row} {p : Product} {w : Row}
    (h : Refines p.code t s u) (hread : u.phase c = .read w) :
    Refines p.code t
      { s with shop := { s.shop.enter c .committed with
        table := writeRows p (rowsWith p.code t) s.shop.table } }
      { u.enter c .done with value := rowOf p } where
  row := by
    show (writeRows p (rowsWith p.code t) s.shop.table).find? (fun q => q.code = p.code) = _
    rw [← rowsWith_congr h.codes, writeRows_rowsWith]
    exact find_updateRows h.row
  codes := by
    show (writeRows p (rowsWith p.code t) s.shop.table).map Row.code = _
    rw [← rowsWith_congr h.codes, map_code_writeRows fun i => mem_rowsWith.1, h.codes]
  client d := by
    rcases c.eq_or_eq_other d with rfl | rfl
    · have hclient := h.client d
      rw [hread] at hclient
      have hdone : ({ u.enter d .done with value := rowOf p } :
          LostUpdate.State Till Row).phase d = .done := LostUpdate.enter_phase_self ..
      rw [hdone]
      refine ⟨?_, enter_phase_self ..⟩
      show s.shown d ≠ none
      rw [hclient.1]
      simp
    · have hclient := h.client c.other
      have hkept : ({ u.enter c .done with value := rowOf p } :
          LostUpdate.State Till Row).phase c.other = u.phase c.other :=
        LostUpdate.enter_phase_of_ne _ _ c.other_ne
      rw [hkept]
      unfold ClientRefines at hclient ⊢
      simpa only [enter_phase_other] using hclient

/-- The row is there, so `product_exists` finds it. -/
theorem found_eq_true {found : Bool} {q : Row} (hrow : t.find? (fun q => q.code = code) = some q)
    (h : productExists code t = .ok found) : found = true := by
  by_contra hfound
  have hnone := codeCount_eq_zero.1 ((found_eq_false h).1 (eq_false_of_ne_true hfound))
  have hq := List.find?_some hrow
  simp only [decide_eq_true_eq] at hq
  exact hnone q (List.mem_of_find?_eq_some hrow) hq

/-- **A step of `update_stock`** goes on or commits. -/
theorem Refines.save {u : LostUpdate.State Till Row} {p : Product} {w : Row} {a : Action}
    {shop : Shop} (h : Refines p.code t s u) (hread : u.phase c = .read w)
    (hstep : PlainStep (fun _ => p) s.shop ⟨c, a⟩ shop) :
    (a ≠ .commit ∧ Refines p.code t { s with shop } u) ∨
      (a = .commit ∧
        Refines p.code t { s with shop } { u.enter c .done with value := rowOf p }) := by
  have hclient := h.client c
  rw [hread] at hclient
  have hway := hclient.2
  cases hstep with
  | look _ found hphase hlookup =>
    exact .inl ⟨by simp, h.goOn hread (found_eq_true h.row hlookup)⟩
  | update _ hphase =>
    exact .inl ⟨by simp, h.goOn hread (rowsWith_congr h.codes)⟩
  | insert _ hphase =>
    rw [hphase] at hway
    cases hway
  | commit _ t' happly =>
    refine .inr ⟨rfl, ?_⟩
    cases hphase : s.shop.phase c with
    | updated rows =>
      rw [hphase] at hway happly
      obtain rfl : rows = rowsWith p.code t := hway
      obtain rfl := Option.some.inj happly
      exact h.commit hread
    | looked found => rw [hphase] at happly; cases happly
    | start => rw [hphase] at happly; cases happly
    | inserted => rw [hphase] at hway; cases hway
    | sent t'' => rw [hphase] at hway; cases hway
    | committed => rw [hphase] at hway; cases hway

/-- There is no third till. -/
theorem Till.eq_or_eq_of_ne (c d x : Till) (h : c ≠ d) : x = c ∨ x = d := by
  rcases c.eq_or_eq_other d with rfl | rfl
  · exact absurd rfl h
  · exact c.eq_or_eq_other x

/-- What a client was shown. -/
theorem seen_cases {u : LostUpdate.State Till Row} {us : List (LostUpdate.Event Till)} {w : Row}
    (hrun : run (LostUpdate.step fun c => (edits c).apply) (.opened r) us = some u)
    (hread : u.phase c = .read w) : w = r ∨ w = (edits c.other).apply r := by
  have hinvariant := LostUpdate.invariant_run Till.eq_or_eq_of_ne hrun
  have hseen := hinvariant.seen c.other c w c.other_ne hread
  rw [hseen, LostUpdate.seenBy]
  split_ifs
  · exact .inr rfl
  · exact .inl rfl

/-- A client whose transaction is over has no step left. -/
theorem takeStep_committed {product : Till → Product} {shop : Shop} {a : Action}
    (h : shop.phase c = .committed) : takeStep srv product shop ⟨c, a⟩ = none := by
  cases a <;> simp [takeStep, h, Phase.apply]

/-- **Every step** of a client with a form is one of the shared row, or none. -/
theorem Refines.step {u : LostUpdate.State Till Row} {us : List (LostUpdate.Event Till)}
    (h : Refines r.code t s u) (hboth : BothEdit maxNameLength keys edits r)
    (hrun : run (LostUpdate.step fun c => (edits c).apply) (.opened r) us = some u)
    (hstep : takeFormStep srv maxNameLength r.code keys s e = some s') :
    ∃ u', run (LostUpdate.step fun c => (edits c).apply) u (sharedEvent e).toList = some u' ∧
      Refines r.code t s' u' := by
  obtain ⟨c, action⟩ := e
  have hclient := h.client c
  cases action with
  | read =>
    cases hphase : u.phase c with
    | idle =>
      rw [hphase] at hclient
      simp only [takeFormStep, hclient.1, getProductData, h.row, Except.toOption, Option.map_some,
        Option.some.injEq] at hstep
      refine ⟨u.enter c (.read u.value), ?_, hstep ▸ h.read hphase⟩
      simp [sharedEvent, run_cons, LostUpdate.step, hphase]
    | read w =>
      rw [hphase] at hclient
      simp [takeFormStep, hclient.1] at hstep
    | done =>
      rw [hphase] at hclient
      obtain ⟨q, hq⟩ := Option.ne_none_iff_exists'.1 hclient.1
      simp [takeFormStep, hq] at hstep
  | save a =>
    cases hphase : u.phase c with
    | idle =>
      rw [hphase] at hclient
      simp [takeFormStep, hclient.1] at hstep
    | read w =>
      rw [hphase] at hclient
      obtain ⟨p, hp, hrow, hcode, hquote⟩ := hboth.filled (c := c) (seen_cases hrun hphase)
      simp only [takeFormStep, hclient.1, hp, Option.bind_some, Option.map_eq_some_iff] at hstep
      obtain ⟨shop, hshop, rfl⟩ := hstep
      rw [← hcode] at h ⊢
      rcases h.save hphase (plainStep_of_takeStep (fun _ => hquote) hshop) with
        ⟨ha, hnext⟩ | ⟨rfl, hnext⟩
      · refine ⟨u, ?_, hnext⟩
        cases a with
        | lookup => rfl
        | write => rfl
        | commit => exact absurd rfl ha
      · rw [hrow] at hnext
        refine ⟨_, ?_, hnext⟩
        simp [sharedEvent, run_cons, LostUpdate.step, hphase]
    | done =>
      rw [hphase] at hclient
      obtain ⟨q, hq⟩ := Option.ne_none_iff_exists'.1 hclient.1
      simp [takeFormStep, hq, takeStep_committed hclient.2] at hstep

/-- **Two tills with a form open** are two clients that read and overwrite one row. -/
theorem forms_refine (hrow : t.find? (fun q => q.code = r.code) = some r)
    (hboth : BothEdit maxNameLength keys edits r)
    (hrun : run (takeFormStep srv maxNameLength r.code keys) (.opened t) es = some s) :
    ∃ u, run (LostUpdate.step fun c => (edits c).apply) (.opened r) (es.filterMap sharedEvent) =
        some u ∧ Refines r.code t s u :=
  run_refines hrun ⟨hrow, rfl, fun _ => ⟨rfl, rfl⟩⟩ fun _ _ _ _ _ hu h hstep =>
    h.step hboth hu hstep

/-! ## After both commits -/

/-- Only opening a form reads. -/
theorem sharedEvent_eq_read {e : FormEvent} :
    sharedEvent e = some ⟨c, .read⟩ ↔ e = ⟨c, .read⟩ := by
  obtain ⟨d, _ | _ | _ | _⟩ := e <;> simp [sharedEvent]

/-- Only a commit overwrites. -/
theorem sharedEvent_eq_commit {e : FormEvent} :
    sharedEvent e = some ⟨c, .commit⟩ ↔ e = ⟨c, .save .commit⟩ := by
  obtain ⟨d, _ | _ | _ | _⟩ := e <;> simp [sharedEvent]

/-- **Both edits are in the row** when the client that commits last was shown the row with
the other's, or that one changed nothing. -/
theorem holds_last_iff (hrow : t.find? (fun q => q.code = r.code) = some r)
    (hdisjoint : (edits .first).Disjoint (edits .second))
    (hboth : BothEdit maxNameLength keys edits r)
    (hrun : run (takeFormStep srv maxNameLength r.code keys) (.opened t) es = some s)
    (hlast : Before ⟨c, .save .commit⟩ ⟨c.other, .save .commit⟩ es) :
    (∃ w, s.shop.table.find? (fun q => q.code = r.code) = some w ∧ ∀ d, (edits d).Holds w) ↔
      Before ⟨c, .save .commit⟩ ⟨c.other, .read⟩ es ∨ (edits c).Holds r := by
  obtain ⟨u, hu, hrefines⟩ := forms_refine hrow hboth hrun
  have hother : ∀ c d w, c ≠ d → ((edits c).Holds ((edits d).apply w) ↔ (edits c).Holds w) := by
    rintro (_ | _) (_ | _) w hne
    · exact absurd rfl hne
    · exact Edit.holds_apply_iff hdisjoint
    · exact Edit.holds_apply_iff hdisjoint.symm
    · exact absurd rfl hne
  rw [← before_filterMap (fun _ => sharedEvent_eq_commit) fun _ => sharedEvent_eq_commit] at hlast
  rw [← before_filterMap (fun _ => sharedEvent_eq_commit) fun _ => sharedEvent_eq_read,
    ← LostUpdate.kept_iff Till.eq_or_eq_of_ne (fun c w => (edits c).holds_apply w) hother hu
      c.other_ne.symm hlast]
  simp only [hrefines.row, Option.some.injEq, exists_eq_left']

/-- Every commit of a run is one of its events. -/
theorem commit_mem (hrow : t.find? (fun q => q.code = r.code) = some r)
    (hboth : BothEdit maxNameLength keys edits r)
    (hrun : run (takeFormStep srv maxNameLength r.code keys) (.opened t) es = some s)
    (hphase : s.shop.phase c = .committed) : ⟨c, .save .commit⟩ ∈ es := by
  obtain ⟨u, hu, hrefines⟩ := forms_refine hrow hboth hrun
  have hinvariant := LostUpdate.invariant_run Till.eq_or_eq_of_ne hu
  have hclient := hrefines.client c
  have hmem : (⟨c, .commit⟩ : LostUpdate.Event Till) ∈ es.filterMap sharedEvent := by
    refine (hinvariant.done c).1 ?_
    cases hu : u.phase c with
    | idle =>
      rw [hu] at hclient
      have hstart := hclient.2
      rw [hphase] at hstart
      cases hstart
    | read w =>
      rw [hu] at hclient
      have hway := hclient.2
      rw [hphase] at hway
      cases hway
    | done => rfl
  obtain ⟨e, he, hshared⟩ := List.mem_filterMap.1 hmem
  rwa [← sharedEvent_eq_commit.1 hshared]

/-- One user changes the price of the bread to 3, the other its stock to 7. -/
def breadEdits : Till → Edit
  | .first => ⟨none, some 3, none, none, none, none, none⟩
  | .second => ⟨none, none, none, none, some 7, none, none⟩

/-- What they type: Enter everywhere, twice where the text shown is cut, and the digit. -/
def breadKeys (c : Till) (_ : Product) : List Key :=
  match c with
  | .first => [keyEnter, keyEnter, charKey '3'] ++ List.replicate 7 keyEnter
  | .second => List.replicate 6 keyEnter ++ charKey '7' :: List.replicate 4 keyEnter

/-- The keys fill in the two edits of the bread. -/
theorem breadEdits_filled : BothEdit 31 breadKeys breadEdits bread := by
  have hprice : RowFits 31 { bread with price := 3 } :=
    { name := rowFits_bread.name, code := rowFits_bread.code,
      price := fitsDecimal_natCast (n := 3) (by norm_num), discount := rowFits_bread.discount,
      tax := rowFits_bread.tax, stock := rowFits_bread.stock,
      priceToStock := rowFits_bread.priceToStock, soldBy := rowFits_bread.soldBy }
  have hstock : RowFits 31 { bread with stock := 7 } :=
    { name := rowFits_bread.name, code := rowFits_bread.code, price := rowFits_bread.price,
      discount := rowFits_bread.discount, tax := rowFits_bread.tax,
      stock := fitsDecimal_natCast (n := 7) (by norm_num),
      priceToStock := rowFits_bread.priceToStock, soldBy := rowFits_bread.soldBy }
  refine ⟨?_, by decide, ?_⟩
  · rintro (_ | _)
    · exact ⟨edits_of_fillsIn rowFits_bread (by decide +kernel),
        edits_of_fillsIn hstock (by decide +kernel)⟩
    · exact ⟨edits_of_fillsIn rowFits_bread (by decide +kernel),
        edits_of_fillsIn hprice (by decide +kernel)⟩
  · rintro (_ | _) <;> simp [breadEdits]

/-- Both open the bread before one of them has committed: the new price is lost. -/
theorem price_change_lost :
    BothEdit 31 breadKeys breadEdits bread ∧
      (breadEdits .first).Disjoint (breadEdits .second) ∧
      ∃ s, run (takeFormStep strictServer 31 1 breadKeys) (.opened [bread, milk])
          (⟨.second, .read⟩ :: formTransaction .first ++ (formTransaction .second).tail) =
            some s ∧
        (∀ c, s.shop.phase c = .committed) ∧
        s.shop.table.find? (fun q => q.code = 1) = some { bread with stock := 7 } ∧
        ¬(breadEdits .first).Holds { bread with stock := 7 } := by
  have hend : (run (takeFormStep strictServer 31 1 breadKeys) (.opened [bread, milk])
      (⟨.second, .read⟩ :: formTransaction .first ++ (formTransaction .second).tail)).map
        (fun s => (s.shop.table, s.shop.phase .first, s.shop.phase .second)) =
          some ([{ bread with stock := 7 }, milk], .committed, .committed) := by
    decide +kernel
  obtain ⟨s, hrun, hs⟩ := Option.map_eq_some_iff.1 hend
  simp only [Prod.mk.injEq] at hs
  obtain ⟨htable, hfirst, hsecond⟩ := hs
  refine ⟨breadEdits_filled, ?_, s, hrun, ?_, ?_, fun h => ?_⟩
  · exact ⟨.inl rfl, .inr rfl, .inl rfl, .inl rfl, .inl rfl, .inl rfl, .inl rfl⟩
  · rintro (_ | _)
    · exact hfirst
    · exact hsecond
  · rw [htable]
    rfl
  · have hprice : (2 : ℚ) = 3 := h.price 3 rfl
    norm_num at hprice

/-- **No update is lost** between two tills that change disjoint fields of a product, if and
only if the client that commits last was shown what the other had committed, or that one
only typed what the row already had: for every interleaving of two forms that commit. -/
theorem both_edits_kept_iff (srv : Server) (maxNameLength : ℤ)
    (keys : Till → Product → List Key) (edits : Till → Edit) (t : Table) (r : Row)
    (es : List FormEvent) (s : Forms) (hrow : t.find? (fun q => q.code = r.code) = some r)
    (hdisjoint : (edits .first).Disjoint (edits .second))
    (hboth : BothEdit maxNameLength keys edits r)
    (hrun : run (takeFormStep srv maxNameLength r.code keys) (.opened t) es = some s)
    (hcommitted : ∀ c, s.shop.phase c = .committed) :
    (∃ w, s.shop.table.find? (fun q => q.code = r.code) = some w ∧ ∀ c, (edits c).Holds w) ↔
      ∀ c, Before ⟨c, .save .commit⟩ ⟨c.other, .save .commit⟩ es →
        Before ⟨c, .save .commit⟩ ⟨c.other, .read⟩ es ∨ (edits c).Holds r := by
  constructor
  · intro h c hlast
    exact (holds_last_iff hrow hdisjoint hboth hrun hlast).1 h
  · intro h
    have hmem := fun c => commit_mem (c := c) hrow hboth hrun (hcommitted c)
    rcases before_or_before (hmem .first) (hmem .second) (by simp) with hlast | hlast
    · exact (holds_last_iff (c := .first) hrow hdisjoint hboth hrun hlast).2 (h .first hlast)
    · exact (holds_last_iff (c := .second) hrow hdisjoint hboth hrun hlast).2 (h .second hlast)

/-- The second till opens the bread after the first has committed. -/
theorem both_edits_kept_bread :
    ∃ s, run (takeFormStep strictServer 31 1 breadKeys) (.opened [bread, milk])
        (formTransaction .first ++ formTransaction .second) = some s ∧
      ∃ w, s.shop.table.find? (fun q => q.code = 1) = some w ∧ ∀ c, (breadEdits c).Holds w := by
  have hend : (run (takeFormStep strictServer 31 1 breadKeys) (.opened [bread, milk])
      (formTransaction .first ++ formTransaction .second)).map
        (fun s => (s.shop.phase .first, s.shop.phase .second)) =
          some (.committed, .committed) := by
    decide +kernel
  obtain ⟨s, hrun, hs⟩ := Option.map_eq_some_iff.1 hend
  simp only [Prod.mk.injEq] at hs
  refine ⟨s, hrun, (both_edits_kept_iff strictServer 31 breadKeys breadEdits [bread, milk] bread
    _ s rfl ⟨.inl rfl, .inr rfl, .inl rfl, .inl rfl, .inl rfl, .inl rfl, .inl rfl⟩
    breadEdits_filled hrun ?_).2 ?_⟩
  · rintro (_ | _)
    · exact hs.1
    · exact hs.2
  · rintro (_ | _) hlast
    · exact .inl (by decide)
    · exact absurd hlast (by decide)

end CliPos
