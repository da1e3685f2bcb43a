import CliPos.Analysis.Store

/-!
# One key, one command

The loop body is a chain of independent `if`s on one global `key`, and on the barcode
prefix, which the settings choose.  A key runs at most one command as long as the key that
stands after the first command belongs to no later one.  Two commands replace the key: `q`
by the answer to its question, and `/` by the key pressed after the search.
-/

set_option autoImplicit false

namespace CliPos

open Decimal Halting

variable {srv : Server} {lines : ℤ} {w w' : World}

/-! ## The key after a command -/

/-- The key that stands after a command, as it is typed: the answer to the question of `q`,
the key after the search of `/`, and the key pressed otherwise. -/
def keyLeft (c : Command) (w : World) : Option Key :=
  match c with
  | .quit => w.keys.head?
  | .search =>
    match getString [] 0 w.keys with
    | .ok (some _) keys => keys.head?
    | _ => some w.key
  | _ => some w.key

/-- What follows the search leaves the key that answered it. -/
theorem searchAnswer_key {code : ℤ} {key : Key} (h : searchAnswer srv code key w = .ok () w') :
    w'.key = w.key := by
  obtain ⟨-, table, keys, -, rfl⟩ | ⟨-, p, -, rfl⟩ | ⟨-, -, rfl⟩ := searchAnswer_eq_ok h
  · rfl
  · exact (movesCursor_showBasket _).key
  · rfl

/-- A command leaves the key it read last. -/
theorem body_keyLeft {c : Command} (h : c.body srv lines w = .ok () w') :
    keyLeft c w = some w'.key := by
  by_cases hq : c = .quit
  · subst hq
    obtain ⟨-, key, keys, hkeys, -, -, rfl⟩ := quitCommand_eq_ok h
    simp [keyLeft, hkeys]
  by_cases hs : c = .search
  · subst hs
    obtain ⟨keys, hnone, rfl⟩ | ⟨word, key, keys, index, code, hword, -, -, h⟩ :=
      searchCommand_eq_ok h
    · simp [keyLeft, hnone]
    · simp [keyLeft, hword, searchAnswer_key h, afterSearch]
  · rw [body_key hq hs h]
    cases c <;> first | rfl | contradiction

/-! ## The barcode prefix during an iteration -/

/-- Only the menus change the settings. -/
theorem body_settings {c : Command} (hc : c ≠ .menu) (h : c.body srv lines w = .ok () w') :
    w'.settings = w.settings := by
  cases c with
  | menu => exact absurd rfl hc
  | quit =>
    obtain ⟨-, key, keys, -, -, -, rfl⟩ := quitCommand_eq_ok h
    rfl
  | remove =>
    obtain ⟨-, rfl⟩ | ⟨-, code, -, ⟨-, rfl⟩ | ⟨-, basket, -, rfl⟩⟩ := removeCommand_eq_ok h
    · rfl
    · exact removeAdjust_settings lines w
    · exact removeAdjust_settings lines w
  | addProduct =>
    obtain ⟨-, rfl⟩ | ⟨-, code, table, keys, -, -, rfl⟩ := addCommand_eq_ok h <;> rfl
  | modifyProduct =>
    obtain ⟨-, keys, rfl⟩ | ⟨-, code, table, keys, -, -, rfl⟩ := modifyCommand_eq_ok h <;> rfl
  | enter =>
    obtain ⟨-, rfl⟩ | ⟨-, code, p, -, -, rfl⟩ := enterCommand_eq_ok h
    · rfl
    · exact (movesCursor_showBasket _).settings
  | search =>
    obtain ⟨keys, -, rfl⟩ | ⟨word, key, keys, index, code, -, -, -, h⟩ := searchCommand_eq_ok h
    · rfl
    · obtain ⟨-, table, keys, -, rfl⟩ | ⟨-, p, -, rfl⟩ | ⟨-, -, rfl⟩ := searchAnswer_eq_ok h
      · rfl
      · exact (movesCursor_showBasket _).settings
      · rfl
  | testReceipt =>
    obtain ⟨key, keys, printed, keys', printer, -, -, rfl⟩ := testReceiptCommand_eq_ok h
    rfl
  | checkout =>
    obtain ⟨key, keys, printed, keys', printer, -, -, rfl⟩ := checkoutCommand_eq_ok h
    cases printed <;> rfl
  | scan =>
    obtain ⟨text, keys, code, -, -, ⟨-, rfl⟩ | ⟨-, -, keys', rfl⟩ | ⟨-, -, p, -, rfl⟩⟩ :=
      scanCommand_eq_ok h <;> exact (movesCursor_clampCursor _).settings
  | nextTab | stockTab | scrollUp | scrollDown | up | down =>
    exact (body_movesCursor (by decide) h).settings

/-! ## One command -/

/-- The commands after a command in the chain. -/
def Command.later (c : Command) : List Command := (commands.dropWhile fun d => d ≠ c).tail

/-- The command's `if` is taken on a key, under a barcode prefix. -/
def Command.Claims (c : Command) (barcodePrefix key : Key) : Prop :=
  (c = .scan ∧ key = barcodePrefix) ∨ key ∈ c.keys

/-- Whether a command claims a key can be tested. -/
instance (c : Command) (barcodePrefix key : Key) : Decidable (c.Claims barcodePrefix key) := by
  unfold Command.Claims; infer_instance

/-- A command runs when it claims the key. -/
theorem Command.guard_iff {c : Command} :
    c.guard w = true ↔ c.Claims w.settings.barcodePrefix w.key := by
  cases c <;> simp [Command.guard, Command.Claims, Command.keys]

/-- What is left of the chain behind a command are the later commands. -/
theorem later_of_suffix {c : Command} {cs : List Command} (h : c :: cs <:+ commands) :
    cs = c.later := by
  have htails : ∀ ds ∈ commands.tails, ∀ d ∈ ds.head?, ds.tail = d.later := by decide
  exact htails (c :: cs) ((List.mem_tails _ _).2 h) c rfl

/-- The first command of the iteration ends the program, or no later command claims the
key that stands after it. -/
def KeyIsUsedUp (srv : Server) (lines : ℤ) (w : World) : Prop :=
  ∀ c v, (iterationTrace srv lines w).head? = some (c, v) →
    (∃ v', c.body srv lines v = .ok () v') →
      ∀ key ∈ keyLeft c v, ∀ d ∈ c.later, ¬d.Claims v.settings.barcodePrefix key

/-- What the user sees of a sale and the cursor. -/
def SameView (w w' : World) : Prop :=
  w'.basket = w.basket ∧ w'.table = w.table ∧ w'.currentTab = w.currentTab ∧
    w'.start = w.start ∧ w'.stop = w.stop ∧ w'.selection = w.selection

/-- The barcode prefix of the first command's state. -/
theorem redraw_settings (h : redraw srv lines w = .ok () w') : w'.settings = w.settings := by
  obtain ⟨key, keys, total, -, -, -, rfl⟩ := redraw_eq_ok h
  rfl

/-- An iteration that runs a command runs its redraw first. -/
theorem iterationTrace_eq_cons {c : Command} {v : World} {rest : List (Command × World)}
    (h : iterationTrace srv lines w = (c, v) :: rest) :
    redraw srv lines w = .ok () v ∧ c.guard v = true ∧ c :: c.later <:+ commands ∧
      rest = match c.body srv lines v with
        | .ok () v' => Chain.trace Command.guard (Command.body srv lines) c.later v'
        | .error _ _ => [] := by
  unfold iterationTrace at h
  cases hr : redraw srv lines w with
  | error e s => simp [hr] at h
  | ok u s =>
    simp only [hr] at h
    obtain ⟨rfl, hguard, ds, hsuf, hrest⟩ := Chain.trace_eq_cons h
    obtain rfl := later_of_suffix hsuf
    refine ⟨rfl, hguard, hsuf, ?_⟩
    rw [hrest]
    cases c.body srv lines v <;> rfl

/-- After ESC a storable prefix claims nothing, whatever it was before. -/
theorem claims_congr {c : Command} {v v' : World} (hguard : c.guard v = true)
    (hv : StorablePrefix v.settings.barcodePrefix) (h : c.body srv lines v = .ok () v')
    (d : Command) : d.Claims v.settings.barcodePrefix v'.key ↔ d.guard v' = true := by
  rw [Command.guard_iff]
  by_cases hc : c = .menu
  · subst hc
    have hkey : v'.key = keyEsc := by
      rw [body_key (by simp) (by simp) h]
      simpa [Command.guard, Command.keys] using hguard
    have hv' : StorablePrefix v'.settings.barcodePrefix := by
      change menuCommand v = .ok () v' at h
      unfold menuCommand at h
      cases hm : startMainMenu (v.settings, v.keys) with
      | error e s => simp [hm] at h
      | ok u s =>
        simp only [hm, EStateM.Result.ok.injEq, true_and] at h
        subst h
        exact startMainMenu_storable hv hm
    have hne : ∀ k, StorablePrefix k → keyEsc ≠ k := by
      intro k hk
      change (27 : ℤ) ≠ k
      unfold StorablePrefix at hk
      omega
    simp [Command.Claims, hkey, hne _ hv, hne _ hv']
  · rw [body_settings hc h]

/-- The bread is in the basket and the products tab is shown; the question of `q` is
answered with `R`. -/
theorem answer_runs_command : ∃ w, Reachable strictServer 11 w ∧
    StorablePrefix w.settings.barcodePrefix ∧
    (iterationTrace strictServer 11 w).map Prod.fst = [.quit, .remove] := by
  have hrun : (tryIterations strictServer 11 (fun _ _ => true) 2
      (boot [bread] [keyEnter, keyTab, charKey 'q', charKey 'R'] ⟨[], []⟩ [])).any fun w =>
        StorablePrefix w.settings.barcodePrefix ∧
          (iterationTrace strictServer 11 w).map Prod.fst = [.quit, .remove] := by
    decide +kernel
  obtain ⟨w, hw, hcheck⟩ := (Option.any_eq_true _ _).1 hrun
  obtain ⟨hp, htrace⟩ := of_decide_eq_true hcheck
  exact ⟨w, ⟨_, _, _, _, runsWhere_of_tryIterations (fun _ _ _ => trivial) hw⟩, hp, htrace⟩

/-- **One key runs one command**, if and only if the first command ends the program or
leaves a key that no later command claims; and where it does, answering the question of
`q` changes nothing of the sale, the tab, the window and the cursor. -/
theorem one_command_iff (srv : Server) (lines : ℤ) (w : World)
    (hstorable : StorablePrefix w.settings.barcodePrefix) :
    ((iterationTrace srv lines w).length ≤ 1 ↔ KeyIsUsedUp srv lines w) ∧
    (KeyIsUsedUp srv lines w → ∀ v w', (iterationTrace srv lines w).head? = some (.quit, v) →
      iteration srv lines w = .ok () w' → SameView v w') := by
  have hiff : (iterationTrace srv lines w).length ≤ 1 ↔ KeyIsUsedUp srv lines w := by
    unfold KeyIsUsedUp
    cases htrace : iterationTrace srv lines w with
    | nil => simp
    | cons e rest =>
      obtain ⟨c, v⟩ := e
      obtain ⟨hr, hguard, -, hrest⟩ := iterationTrace_eq_cons htrace
      have hstored : StorablePrefix v.settings.barcodePrefix := by
        rwa [redraw_settings hr]
      have hlen : ((c, v) :: rest).length ≤ 1 ↔ rest = [] := by
        simp [List.length_eq_zero_iff]
      rw [hlen]
      simp only [List.head?_cons, Option.some.injEq, Prod.mk.injEq]
      cases hb : c.body srv lines v with
      | error x s =>
        rw [hb] at hrest
        refine iff_of_true hrest ?_
        rintro _ _ ⟨rfl, rfl⟩ ⟨v', hv'⟩
        rw [hb] at hv'
        cases hv'
      | ok u v' =>
        rw [hb] at hrest
        simp only at hrest
        rw [hrest, Chain.trace_eq_nil]
        constructor
        · rintro hno _ _ ⟨rfl, rfl⟩ - key hkey d hd hclaims
          rw [body_keyLeft hb] at hkey
          obtain rfl := Option.some.inj hkey
          rw [claims_congr hguard hstored hb, hno d hd] at hclaims
          cases hclaims
        · intro hno d hd
          have := hno c v ⟨rfl, rfl⟩ ⟨v', hb⟩ v'.key (body_keyLeft hb) d hd
          rwa [claims_congr hguard hstored hb, Bool.not_eq_true] at this
  refine ⟨hiff, fun hused v w' hhead hit => ?_⟩
  obtain ⟨rest, htrace⟩ := List.head?_eq_some_iff.1 hhead
  have hrest : rest = [] := by
    have := hiff.2 hused
    rw [htrace, List.length_cons] at this
    exact List.eq_nil_of_length_eq_zero (by omega)
  obtain ⟨u, s, hr, hchain⟩ := bind_eq_ok.1 hit
  have hone : Chain.trace Command.guard (Command.body srv lines) commands s = [(.quit, v)] := by
    rw [hrest, iterationTrace, hr] at htrace
    exact htrace
  have hquit : Command.body srv lines .quit v = .ok () w' :=
    Chain.run_of_trace_singleton hone hchain
  obtain ⟨-, key, keys, -, -, -, rfl⟩ := quitCommand_eq_ok hquit
  exact ⟨rfl, rfl, rfl, rfl, rfl, rfl⟩

/-- `q` answered with `n`, with the bread in the basket. -/
theorem one_command_quit :
    let w : World :=
      { boot [bread] [charKey 'q', charKey 'n'] ⟨[], []⟩ [] with basket := [⟨1, 1⟩] }
    KeyIsUsedUp strictServer 11 w ∧ ∃ v w', iterationTrace strictServer 11 w = [(.quit, v)] ∧
      iteration strictServer 11 w = .ok () w' ∧ SameView v w' := by
  intro w
  have hrun : (iterationTrace strictServer 11 w).map Prod.fst = [.quit] ∧
      (valueOf (iteration strictServer 11 w)).isSome := by
    decide +kernel
  obtain ⟨hquit, hreturns⟩ := hrun
  obtain ⟨⟨c, v⟩, htrace, rfl⟩ := List.map_eq_singleton_iff.1 hquit
  obtain ⟨⟨_, w'⟩, hit⟩ := Option.isSome_iff_exists.1 hreturns
  have hone := one_command_iff strictServer 11 w (by decide)
  have hused : KeyIsUsedUp strictServer 11 w := hone.1.1 (by rw [htrace]; exact le_rfl)
  refine ⟨hused, v, w', htrace, valueOf_eq_some.1 hit, ?_⟩
  exact hone.2 hused v w' (by rw [htrace]; rfl) (valueOf_eq_some.1 hit)

end CliPos
