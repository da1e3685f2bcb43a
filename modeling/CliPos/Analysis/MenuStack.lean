import CliPos.Lib.Feeding
import CliPos.Analysis.MenuTexts

/-!
# Menus as a stack

`run_menu` calls itself for a submenu, and hands the exit flag of the nested call on to its
caller.  `openMenu` is `run_menu` with a record of the calls that have not returned, and
`stackStep` says what a key does to a stack of menus: in a tree of submenus, exits and
switches the open calls are that stack, key by key (`run_menu_refines_stack`).
-/

set_option autoImplicit false

namespace CliPos

open Decimal Halting Feeding

variable {σ : Type}

/-! ## The open calls -/

/-- The calls of `run_menu` that have not returned, the innermost first: each with its menu
and the item highlighted. -/
abbrev OpenMenus (σ : Type) := List (Menu σ × ℤ)

/-- The computations of a menu that halt with the calls open there. -/
abbrev OpenM (σ : Type) := EStateM (Halt × OpenMenus σ) (σ × List Key)

/-- `selection_list`, which halts with the item highlighted. -/
def highlightList (optionsSize : ℤ) :
    List Key → ℤ → EStateM.Result (Halt × ℤ) (List Key) (Option ℤ)
  | [], selection => .error (.waiting, selection) []
  | key :: keys, selection =>
    if key = keyUp ∨ key = charKey 'k' then
      highlightList optionsSize keys (if selection ≠ 0 then selection - 1 else selection)
    else if key = keyDown ∨ key = charKey 'j' then
      highlightList optionsSize keys
        (if selection ≠ optionsSize - 1 then selection + 1 else selection)
    else if key = keyEnter then .ok (some selection) keys
    else if key = keyEsc then .ok none keys
    else highlightList optionsSize keys selection

/-- The innermost call halts in `selection_list`. -/
def selectItem (menu : Menu σ) (selection : ℤ) : OpenM σ (Option ℤ) := fun s =>
  match highlightList menu.options.length s.2 selection with
  | .ok output keys => .ok output (s.1, keys)
  | .error (h, highlight) keys => .error (h, [(menu, highlight)]) (s.1, keys)

/-- The innermost call halts in an item's action. -/
def within {α : Type} (call : Menu σ × ℤ) (action : MenuM σ α) : OpenM σ α :=
  EStateM.adaptExcept (fun h => (h, [call])) action

/-- A nested call halts. -/
def under {α : Type} (call : Menu σ × ℤ) (nested : OpenM σ α) : OpenM σ α :=
  EStateM.adaptExcept (fun e => (e.1, e.2 ++ [call])) nested

/-- `run_menu`, which halts with the open calls. -/
def openMenu : ℕ → Menu σ → List Str → ℤ → OpenM σ Bool
  | 0, menu, _, selection => throw (.waiting, [(menu, selection)])
  | fuel + 1, menu, menuLabels, selection => do
    match ← selectItem menu selection with
    | none => return false
    | some output =>
      match elementAt menu.options output with
      | none => throw (.undefined .menuOption, [(menu, output)])
      | some (name, .submenu m) =>
        let exit ← under (menu, output) (openMenu fuel m (menuLabels ++ [name]) 0)
        if exit then return true
        else openMenu fuel menu (menuLabels ++ [name]).dropLast output
      | some (_, .exitItem) => return true
      | some (_, item) =>
        within (menu, output) item.action
        openMenu fuel menu menuLabels output

/-- A computation without its record of the open calls. -/
def forget {α : Type} (x : OpenM σ α) : MenuM σ α := EStateM.adaptExcept Prod.fst x

/-- The choice is the highlight's run, without the highlight it ended at. -/
theorem selectionList_eq (optionsSize : ℤ) (keys : List Key) (selection : ℤ) :
    selectionList optionsSize keys selection =
      match highlightList optionsSize keys selection with
      | .ok output keys => .ok output keys
      | .error e keys => .error e.1 keys := by
  induction keys generalizing selection with
  | nil => rfl
  | cons key keys ih =>
    rw [selectionList, highlightList]
    by_cases hup : key = keyUp ∨ key = charKey 'k'
    · rw [if_pos hup, if_pos hup]
      exact ih _
    by_cases hdown : key = keyDown ∨ key = charKey 'j'
    · rw [if_neg hup, if_neg hup, if_pos hdown, if_pos hdown]
      exact ih _
    rw [if_neg hup, if_neg hup, if_neg hdown, if_neg hdown]
    by_cases henter : key = keyEnter
    · rw [if_pos henter, if_pos henter]
    by_cases hesc : key = keyEsc
    · rw [if_neg henter, if_neg henter, if_pos hesc, if_pos hesc]
    · rw [if_neg henter, if_neg henter, if_neg hesc, if_neg hesc]
      exact ih _

/-- Without the highlight the choice is `selection_list`. -/
theorem forget_selectItem (menu : Menu σ) (selection : ℤ) :
    forget (selectItem menu selection) =
      readKeys fun keys => selectionList menu.options.length keys selection := by
  funext s
  unfold readKeys
  dsimp only
  rw [forget, adaptExcept_apply, selectItem, selectionList_eq]
  cases highlightList menu.options.length s.2 selection <;> rfl

/-- **The record changes nothing**: without it `openMenu` is `run_menu`. -/
theorem forget_openMenu (fuel : ℕ) (menu : Menu σ) (menuLabels : List Str) (selection : ℤ) :
    forget (openMenu fuel menu menuLabels selection) = runMenu fuel menu menuLabels selection := by
  induction fuel generalizing menu menuLabels selection with
  | zero => rfl
  | succ fuel ih =>
    have hunder : ∀ (call : Menu σ × ℤ) m labels, forget (under call (openMenu fuel m labels 0)) =
        runMenu fuel m labels 0 := by
      intro call m labels
      rw [← ih m labels 0, forget, under, adaptExcept_adaptExcept, forget]
    have hwithin : ∀ (call : Menu σ × ℤ) (action : MenuM σ Unit),
        forget (within call action) = action := by
      intro call action
      rw [forget, within, adaptExcept_adaptExcept]
      exact adaptExcept_id action
    have hagain : ∀ output labels, forget (openMenu fuel menu labels output) =
        runMenu fuel menu labels output := fun output labels => ih menu labels output
    rw [openMenu, runMenu, forget, adaptExcept_bind]
    congr 1
    · exact forget_selectItem menu selection
    · funext output
      cases output with
      | none => rfl
      | some output =>
        dsimp only
        cases elementAt menu.options output with
        | none => rfl
        | some o =>
          obtain ⟨name, item⟩ := o
          cases item with
          | submenu m =>
            dsimp only
            rw [adaptExcept_bind]
            congr 1
            · exact hunder _ _ _
            · funext exit
              cases exit with
              | true => rfl
              | false => exact hagain _ _
          | exitItem => rfl
          | _ =>
            dsimp only
            rw [adaptExcept_bind]
            exact congrArg₂ Bind.bind (hwithin _ _) (funext fun _ => hagain _ _)

/-! ## The stack -/

/-- What a key does to a stack of menus, the top first; it ends with `true` when an exit item
is chosen and with `false` when the last menu is left. -/
def stackStep (key : Key) : OpenMenus σ → OpenMenus σ ⊕ Bool
  | [] => .inr false
  | (menu, highlight) :: below =>
    if key = keyUp ∨ key = charKey 'k' then .inl ((menu, max (highlight - 1) 0) :: below)
    else if key = keyDown ∨ key = charKey 'j' then
      .inl ((menu, min (highlight + 1) (menu.options.length - 1)) :: below)
    else if key = keyEnter then
      match elementAt menu.options highlight with
      | some (_, .submenu m) => .inl ((m, 0) :: (menu, highlight) :: below)
      | some (_, .exitItem) => .inr true
      | _ => .inl ((menu, highlight) :: below)
    else if key = keyEsc then if below = [] then .inr false else .inl below
    else .inl ((menu, highlight) :: below)

/-- An item that only navigates. -/
def MenuItemData.Navigates : MenuItemData σ → Prop
  | .submenu _ | .boolItem _ _ | .exitItem => True
  | _ => False

/-- A tree of menus that are not empty, of submenus, switches and exits. -/
inductive Plain : Menu σ → Prop where
  | mk {options : List (Str × MenuItemData σ)} (nonempty : options ≠ [])
      (items : ∀ o ∈ options, o.2.Navigates)
      (submenus : ∀ name m, (name, MenuItemData.submenu m) ∈ options → Plain m) :
      Plain (.mk options)

/-- A plain menu has an item. -/
theorem Plain.size_pos {menu : Menu σ} (h : Plain menu) : (0 : ℤ) < menu.options.length := by
  obtain ⟨hne, -, -⟩ := h
  exact Int.natCast_pos.2 (List.length_pos_of_ne_nil hne)

/-- The items of a plain menu lead to menus or out of it. -/
theorem Plain.navigates {menu : Menu σ} (h : Plain menu) {o : Str × MenuItemData σ}
    (hmem : o ∈ menu.options) : o.2.Navigates := by
  obtain ⟨-, hitems, -⟩ := h
  exact hitems o hmem

/-- The submenus of a plain menu are plain. -/
theorem Plain.submenu {menu m : Menu σ} (h : Plain menu) {name : Str}
    (hmem : (name, MenuItemData.submenu m) ∈ menu.options) : Plain m := by
  obtain ⟨-, -, hsub⟩ := h
  exact hsub name m hmem

/-- What is left of a stack when its top is popped by ESC. -/
def leave (below : OpenMenus σ) (keys : List Key) : Outcome Key (OpenMenus σ) Bool :=
  if below = [] then .finished false keys else feed stackStep keys below

section

variable {menu : Menu σ} {below : OpenMenus σ} {selection : ℤ} {keys rest : List Key}

/-- ESC takes the menu off the stack. -/
theorem stackStep_esc : stackStep keyEsc ((menu, selection) :: below) =
    if below = [] then .inr false else .inl below := by
  have hup : ¬(keyEsc = keyUp ∨ keyEsc = charKey 'k') := by decide
  have hdown : ¬(keyEsc = keyDown ∨ keyEsc = charKey 'j') := by decide
  have henter : keyEsc ≠ keyEnter := by decide
  rw [stackStep, if_neg hup, if_neg hdown, if_neg henter, if_pos rfl]

/-- ESC leaves the menu at the top. -/
theorem feed_esc : feed stackStep (keyEsc :: keys) ((menu, selection) :: below) =
    leave below keys := by
  have hstep : stackStep keyEsc ((menu, selection) :: below) = _ := stackStep_esc
  unfold leave
  split_ifs at hstep ⊢ with hbelow
  · exact feed_of_inr hstep
  · exact feed_of_inl hstep

/-- Enter on a submenu puts it on the stack; on an exit item it ends the session. -/
theorem stackStep_enter : stackStep keyEnter ((menu, selection) :: below) =
    match elementAt menu.options selection with
    | some (_, .submenu m) => .inl ((m, 0) :: (menu, selection) :: below)
    | some (_, .exitItem) => .inr true
    | _ => .inl ((menu, selection) :: below) := by
  have hup : ¬(keyEnter = keyUp ∨ keyEnter = charKey 'k') := by decide
  have hdown : ¬(keyEnter = keyDown ∨ keyEnter = charKey 'j') := by decide
  rw [stackStep, if_neg hup, if_neg hdown, if_pos rfl]

/-- What the stack makes of the keys that `selection_list` reads. -/
def SelectionFed (menu : Menu σ) (below : OpenMenus σ) (selection : ℤ) (keys : List Key) :
    EStateM.Result (Halt × ℤ) (List Key) (Option ℤ) → Prop
  | .ok (some output) rest => (0 ≤ output ∧ output < menu.options.length) ∧
      rest.length < keys.length ∧ feed stackStep keys ((menu, selection) :: below) =
        feed stackStep (keyEnter :: rest) ((menu, output) :: below)
  | .ok none rest => rest.length < keys.length ∧
      feed stackStep keys ((menu, selection) :: below) = leave below rest
  | .error e rest => e.1 = .waiting ∧ rest = [] ∧
      feed stackStep keys ((menu, selection) :: below) = .running ((menu, e.2) :: below)

/-- A key that `selection_list` reads on after. -/
theorem SelectionFed.cons {key : Key} {selection' : ℤ}
    {r : EStateM.Result (Halt × ℤ) (List Key) (Option ℤ)}
    (hstep : stackStep key ((menu, selection) :: below) = .inl ((menu, selection') :: below))
    (h : SelectionFed menu below selection' keys r) :
    SelectionFed menu below selection (key :: keys) r := by
  have hfeed : feed stackStep (key :: keys) ((menu, selection) :: below) =
      feed stackStep keys ((menu, selection') :: below) := feed_of_inl hstep
  match r with
  | .ok (some output) rest =>
    exact ⟨h.1, h.2.1.trans (Nat.lt_succ_self _), hfeed.trans h.2.2⟩
  | .ok none rest => exact ⟨h.1.trans (Nat.lt_succ_self _), hfeed.trans h.2⟩
  | .error e rest => exact ⟨h.1, h.2.1, hfeed.trans h.2.2⟩

/-- A choice feeds its keys to the stack. -/
theorem selectionFed (h0 : 0 ≤ selection) (h1 : selection < menu.options.length) :
    SelectionFed menu below selection keys
      (highlightList menu.options.length keys selection) := by
  induction keys generalizing selection with
  | nil => exact ⟨rfl, rfl, rfl⟩
  | cons key keys ih =>
    rw [highlightList]
    by_cases hup : key = keyUp ∨ key = charKey 'k'
    · rw [if_pos hup]
      have hmax : max (selection - 1) 0 = if selection ≠ 0 then selection - 1 else selection := by
        split_ifs <;> omega
      have hstep : stackStep key ((menu, selection) :: below) =
          .inl ((menu, if selection ≠ 0 then selection - 1 else selection) :: below) := by
        rw [stackStep, if_pos hup, hmax]
      refine SelectionFed.cons hstep (ih ?_ ?_) <;> split_ifs <;> omega
    by_cases hdown : key = keyDown ∨ key = charKey 'j'
    · rw [if_neg hup, if_pos hdown]
      have hmin : min (selection + 1) ((menu.options.length : ℤ) - 1) =
          if selection ≠ (menu.options.length : ℤ) - 1 then selection + 1 else selection := by
        split_ifs <;> omega
      have hstep : stackStep key ((menu, selection) :: below) =
          .inl ((menu, if selection ≠ (menu.options.length : ℤ) - 1 then selection + 1
            else selection) :: below) := by
        rw [stackStep, if_neg hup, if_pos hdown, hmin]
      refine SelectionFed.cons hstep (ih ?_ ?_) <;> split_ifs <;> omega
    rw [if_neg hup, if_neg hdown]
    by_cases henter : key = keyEnter
    · rw [if_pos henter, henter]
      exact ⟨⟨h0, h1⟩, Nat.lt_succ_self _, rfl⟩
    by_cases hesc : key = keyEsc
    · rw [if_neg henter, if_pos hesc, hesc]
      exact ⟨Nat.lt_succ_self _, feed_esc⟩
    · rw [if_neg henter, if_neg hesc]
      refine SelectionFed.cons ?_ (ih h0 h1)
      rw [stackStep, if_neg hup, if_neg hdown, if_neg henter, if_neg hesc]

end

/-! ## The simulation -/

/-- A call of `run_menu` did with its keys what they do to the stack it stands on. -/
def StackFed (stack below : OpenMenus σ) (keys : List Key) :
    EStateM.Result (Halt × OpenMenus σ) (σ × List Key) Bool → Prop
  | .ok true s => s.2.length ≤ keys.length ∧ feed stackStep keys stack = .finished true s.2
  | .ok false s => s.2.length ≤ keys.length ∧ feed stackStep keys stack = leave below s.2
  | .error e s => e.1 = .waiting ∧ s.2 = [] ∧ feed stackStep keys stack = .running (e.2 ++ below)

/-- Keys that were read before a call. -/
theorem StackFed.before {stack stack' below : OpenMenus σ} {keys keys' : List Key}
    {r : EStateM.Result (Halt × OpenMenus σ) (σ × List Key) Bool}
    (hlen : keys'.length ≤ keys.length)
    (hfeed : feed stackStep keys stack = feed stackStep keys' stack')
    (h : StackFed stack' below keys' r) : StackFed stack below keys r := by
  match r with
  | .ok true s => exact ⟨h.1.trans hlen, hfeed.trans h.2⟩
  | .ok false s => exact ⟨h.1.trans hlen, hfeed.trans h.2⟩
  | .error e s => exact ⟨h.1, h.2.1, hfeed.trans h.2.2⟩

/-- **Every call of `run_menu` works on the top of the stack.**  The induction is on the
fuel; the nested call of a submenu works on the stack with its caller's menu below it. -/
theorem openMenu_stackFed {fuel : ℕ} {menu : Menu σ} (hplain : Plain menu) (menuLabels : List Str)
    {selection : ℤ} (h0 : 0 ≤ selection) (h1 : selection < menu.options.length) (s : σ × List Key)
    (hfuel : s.2.length < fuel) (below : OpenMenus σ) :
    StackFed ((menu, selection) :: below) below s.2
      (openMenu fuel menu menuLabels selection s) := by
  induction fuel generalizing menu menuLabels selection s below with
  | zero => exact absurd hfuel (Nat.not_lt_zero _)
  | succ fuel ih =>
    have hfed : SelectionFed menu below selection s.2
        (highlightList menu.options.length s.2 selection) := selectionFed h0 h1
    rw [openMenu, bind_apply, selectItem]
    match hsel : highlightList menu.options.length s.2 selection with
    | .error e rest =>
      rw [hsel] at hfed
      exact ⟨hfed.1, hfed.2.1, hfed.2.2⟩
    | .ok none rest =>
      rw [hsel] at hfed
      exact ⟨hfed.1.le, hfed.2⟩
    | .ok (some output) rest =>
      rw [hsel] at hfed
      obtain ⟨⟨hlow, hhigh⟩, hlen, hfeed⟩ := hfed
      have hagain : ∀ labels (t : σ × List Key), t.2.length < fuel →
          StackFed ((menu, output) :: below) below t.2 (openMenu fuel menu labels output t) :=
        fun labels t ht => ih hplain labels hlow hhigh t ht below
      obtain ⟨o, ho⟩ : ∃ o, elementAt menu.options output = some o :=
        Option.isSome_iff_exists.1 ((elementAt_isSome_iff _ _).2 ⟨hlow, hhigh⟩)
      have hmem := elementAt_eq_some ho
      have hnavigates := hplain.navigates hmem
      have henter : stackStep keyEnter ((menu, output) :: below) = _ := stackStep_enter
      obtain ⟨name, item⟩ := o
      dsimp only
      rw [ho] at henter ⊢
      have hrest : rest.length < fuel := by omega
      cases item with
      | submenu m =>
        have hm := hplain.submenu hmem
        have hnested := ih hm (menuLabels ++ [name]) le_rfl hm.size_pos (s.1, rest) hrest
          ((menu, output) :: below)
        have hpush := hfeed.trans (feed_of_inl henter)
        refine StackFed.before hlen.le hpush ?_
        dsimp only
        rw [bind_apply, under, adaptExcept_apply]
        match hrun : openMenu fuel m (menuLabels ++ [name]) 0 (s.1, rest) with
        | .ok true t =>
          rw [hrun] at hnested
          exact hnested
        | .ok false t =>
          -- the submenu was left with ESC
          rw [hrun] at hnested
          have hpop : feed stackStep rest ((m, 0) :: (menu, output) :: below) =
              feed stackStep t.2 ((menu, output) :: below) :=
            hnested.2.trans (if_neg (List.cons_ne_nil _ _))
          exact StackFed.before hnested.1 hpop (hagain _ t (lt_of_le_of_lt hnested.1 hrest))
        | .error e t =>
          rw [hrun] at hnested
          refine ⟨hnested.1, hnested.2.1, ?_⟩
          rw [hnested.2.2, List.append_assoc]
          rfl
      | exitItem => exact ⟨hlen.le, hfeed.trans (feed_of_inr henter)⟩
      | boolItem get put =>
        have hpush := hfeed.trans (feed_of_inl henter)
        refine StackFed.before hlen.le hpush ?_
        exact hagain _ _ hrest
      | _ => exact hnavigates.elim

/-! ## The root -/

/-- A key moves the highlight of the top menu, opens a submenu on it, or leaves it. -/
theorem stackStep_inl {key : Key} {menu : Menu σ} {highlight : ℤ} {below stack : OpenMenus σ}
    (h : stackStep key ((menu, highlight) :: below) = .inl stack) :
    (∃ highlight', stack = (menu, highlight') :: below) ∨
      (∃ m, stack = (m, 0) :: (menu, highlight) :: below) ∨ below ≠ [] ∧ stack = below := by
  rw [stackStep] at h
  split_ifs at h with hup hdown henter hesc hbelow
  · exact .inl ⟨_, (Sum.inl.inj h).symm⟩
  · exact .inl ⟨_, (Sum.inl.inj h).symm⟩
  · split at h
    · exact .inr (.inl ⟨_, (Sum.inl.inj h).symm⟩)
    · cases h
    · exact .inl ⟨_, (Sum.inl.inj h).symm⟩
  · exact .inr (.inr ⟨hbelow, (Sum.inl.inj h).symm⟩)
  · exact .inl ⟨_, (Sum.inl.inj h).symm⟩

/-- The stack is left by Enter on an exit item, or by ESC in its last menu. -/
theorem stackStep_inr {key : Key} {menu : Menu σ} {highlight : ℤ} {below : OpenMenus σ}
    {exit : Bool} (h : stackStep key ((menu, highlight) :: below) = .inr exit) :
    (exit = true ∧ key = keyEnter ∧
        ∃ name, elementAt menu.options highlight = some (name, .exitItem)) ∨
      exit = false ∧ key = keyEsc ∧ below = [] := by
  rw [stackStep] at h
  split_ifs at h with hup hdown henter hesc hbelow
  · split at h
    · cases h
    · rename_i name hitem
      exact .inl ⟨(Sum.inr.inj h).symm, henter, name, hitem⟩
    · cases h
  · exact .inr ⟨(Sum.inr.inj h).symm, hesc, hbelow⟩

/-- The bottom of a stack that began with one menu is that menu. -/
theorem bottom_of_feed {root : Menu σ} {keys : List Key} {stack : OpenMenus σ}
    (h : feed stackStep keys [(root, 0)] = .running stack) :
    ∃ above highlight, stack = above ++ [(root, highlight)] := by
  let P : OpenMenus σ → Prop := fun stack => ∃ above highlight, stack = above ++ [(root, highlight)]
  have hstep : ∀ key stack stack', P stack → stackStep key stack = .inl stack' → P stack' := by
    rintro key _ stack' ⟨above, highlight, rfl⟩ hkey
    cases above with
    | nil =>
      obtain ⟨highlight', rfl⟩ | ⟨m, rfl⟩ | ⟨hne, -⟩ := stackStep_inl hkey
      · exact ⟨[], highlight', rfl⟩
      · exact ⟨[(m, 0)], highlight, rfl⟩
      · exact absurd rfl hne
    | cons top above =>
      obtain ⟨highlight', rfl⟩ | ⟨m, rfl⟩ | ⟨-, rfl⟩ := stackStep_inl hkey
      · exact ⟨(top.1, highlight') :: above, highlight, rfl⟩
      · exact ⟨(m, 0) :: top :: above, highlight, rfl⟩
      · exact ⟨above, highlight, rfl⟩
  have hstart : P [(root, 0)] := ⟨[], 0, rfl⟩
  have hend : P stack := feed_inv hstart hstep h
  exact hend

/-- An exit item is chosen: Enter on it, wherever it is. -/
def ChoosesExit (root : Menu σ) (keys rest : List Key) : Prop :=
  ∃ used menu highlight below name, keys = used ++ keyEnter :: rest ∧
    feed stackStep used [(root, 0)] = .running ((menu, highlight) :: below) ∧
    elementAt menu.options highlight = some (name, .exitItem)

/-- ESC is pressed at the root. -/
def LeavesRoot (root : Menu σ) (keys rest : List Key) : Prop :=
  ∃ used highlight, keys = used ++ keyEsc :: rest ∧
    feed stackStep used [(root, 0)] = .running [(root, highlight)]

/-- An exit item is chosen exactly when the stack ends with one. -/
theorem choosesExit_iff {root : Menu σ} {keys rest : List Key} :
    ChoosesExit root keys rest ↔ feed stackStep keys [(root, 0)] = .finished true rest := by
  rw [feed_eq_finished_iff]
  constructor
  · rintro ⟨used, menu, highlight, below, name, hkeys, hrun, hitem⟩
    refine ⟨used, keyEnter, _, hkeys, hrun, ?_⟩
    rw [stackStep_enter, hitem]
  · rintro ⟨used, key, stack, hkeys, hrun, hlast⟩
    cases stack with
    | nil => cases hlast
    | cons top below =>
      obtain ⟨-, rfl, name, hitem⟩ | ⟨hexit, -, -⟩ := stackStep_inr hlast
      · exact ⟨used, top.1, top.2, below, name, hkeys, hrun, hitem⟩
      · cases hexit

/-- The root menu is left exactly when the stack runs empty. -/
theorem leavesRoot_iff {root : Menu σ} {keys rest : List Key} :
    LeavesRoot root keys rest ↔ feed stackStep keys [(root, 0)] = .finished false rest := by
  rw [feed_eq_finished_iff]
  constructor
  · rintro ⟨used, highlight, hkeys, hrun⟩
    refine ⟨used, keyEsc, _, hkeys, hrun, ?_⟩
    rw [stackStep_esc, if_pos rfl]
  · rintro ⟨used, key, stack, hkeys, hrun, hlast⟩
    obtain ⟨above, highlight, rfl⟩ := bottom_of_feed hrun
    cases above with
    | nil =>
      obtain ⟨hexit, -, -⟩ | ⟨-, rfl, -⟩ := stackStep_inr hlast
      · cases hexit
      · exact ⟨used, highlight, hkeys, hrun⟩
    | cons top above =>
      obtain ⟨hexit, -, -⟩ | ⟨-, -, hbelow⟩ := stackStep_inr hlast
      · cases hexit
      · exact absurd hbelow (by simp)

/-- **`run_menu` is the stack machine.**  In every tree of menus that are not empty, of
submenus, switches and exits, after any keys: where it waits, the open calls with the items
they highlight are the stack; it returns `true` exactly when an exit item is chosen and
`false` exactly when ESC is pressed at the root, and leaves the other keys alone. -/
theorem run_menu_refines_stack (root : Menu σ) (hplain : Plain root) (menuLabels : List Str)
    (s : σ) (keys : List Key) :
    forget (openMenu (keys.length + 1) root menuLabels 0) =
      runMenu (keys.length + 1) root menuLabels 0 ∧
    (∀ stack, (∃ s', openMenu (keys.length + 1) root menuLabels 0 (s, keys) =
        .error (.waiting, stack) (s', [])) ↔
      feed stackStep keys [(root, 0)] = .running stack) ∧
    (∀ rest, (∃ s', runMenu (keys.length + 1) root menuLabels 0 (s, keys) = .ok true (s', rest)) ↔
      ChoosesExit root keys rest) ∧
    ∀ rest, (∃ s', runMenu (keys.length + 1) root menuLabels 0 (s, keys) = .ok false (s', rest)) ↔
      LeavesRoot root keys rest := by
  have hforget := forget_openMenu (keys.length + 1) root menuLabels 0
  have hfed := openMenu_stackFed hplain menuLabels le_rfl hplain.size_pos (s, keys)
    (Nat.lt_succ_self _) []
  have hrun := congrFun hforget (s, keys)
  rw [forget, adaptExcept_apply] at hrun
  refine ⟨hforget, ?_⟩
  simp only [choosesExit_iff, leavesRoot_iff, ← hrun]
  match hopen : openMenu (keys.length + 1) root menuLabels 0 (s, keys) with
  | .ok exit t =>
    have hfinished : feed stackStep keys [(root, 0)] = .finished exit t.2 := by
      rw [hopen] at hfed
      cases exit with
      | true => exact hfed.2
      | false => exact hfed.2.trans (if_pos rfl)
    obtain ⟨s', rest'⟩ := t
    rw [hfinished]
    simp
  | .error e t =>
    rw [hopen] at hfed
    obtain ⟨hwaits, hrest, hrunning⟩ := hfed
    obtain ⟨halt, stack⟩ := e
    obtain ⟨s', rest'⟩ := t
    obtain rfl : halt = .waiting := hwaits
    obtain rfl : rest' = [] := hrest
    rw [hrunning, List.append_nil]
    simp

/-- A menu with a submenu, which has a switch and an exit: down, Enter, down, Enter. -/
theorem run_menu_refines_stack_exit :
    let menu : Menu Bool := .mk [(label "switch", .boolItem id fun b _ => b),
      (label "exit", .exitItem)]
    let root : Menu Bool := .mk [(label "settings", .submenu menu)]
    let keys := [keyEnter, keyDown, keyEnter, keyEsc]
    ChoosesExit root keys [keyEsc] ∧
      ∃ s', runMenu 5 root [] 0 (false, keys) = .ok true (s', [keyEsc]) := by
  intro menu root keys
  have hmenu : Plain menu := by
    refine Plain.mk (by simp) ?_ ?_
    · simp [MenuItemData.Navigates]
    · simp
  have hroot : Plain root := by
    refine Plain.mk (by simp) ?_ ?_
    · simp [MenuItemData.Navigates]
    · intro name m hmem
      obtain ⟨rfl, hm⟩ := Prod.mk.inj (List.mem_singleton.1 hmem)
      obtain rfl := MenuItemData.submenu.inj hm
      exact hmenu
  have hreturns : ∃ s', runMenu 5 root [] 0 (false, keys) = .ok true (s', [keyEsc]) := ⟨false, rfl⟩
  exact ⟨((run_menu_refines_stack root hroot [] false keys).2.2.1 [keyEsc]).1 hreturns, hreturns⟩

end CliPos
