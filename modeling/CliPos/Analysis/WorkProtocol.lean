import CliPos.Model.LoggedLoop
import CliPos.Analysis.Redraw

/-!
# The transactions of the main loop

Without its log the loop of `Model.LoggedLoop` is the one of `Model.MainLoop`
(`erased_loggedIteration`), and every block of it follows the protocol of transactions
(`follows_loggedIteration`).  So whatever is typed, every log obeys the rules
(`works_obey`).
-/

set_option autoImplicit false

namespace CliPos

open Halting Halting.Logged Works Protocol

variable {srv : Server} {lines : ℤ} {work : Work} {cl : List Work}

/-! ## Without the log -/

/-- Statements are all log. -/
@[simp] theorem erased_statements (n : ℕ) : erased (statements work n) = pure () :=
  erased_emitTimes n _

/-- Keys are read half by half. -/
theorem withKeys_bind {α β : Type} (m : Input α) (f : α → Input β) :
    withKeys (m >>= f) = withKeys m >>= fun a => withKeys (f a) := by
  funext w
  rw [bind_apply]
  simp only [withKeys, bind_apply]
  cases m w.keys <;> rfl

/-- A value that may be missing reads no keys. -/
theorem withKeys_orThrow {α : Type} (x : Except Exception α) :
    withKeys (orThrow x) = orThrow x := by
  funext w
  cases x <;> rfl

/-- Without its log, `update_stock` is the update of the table. -/
theorem erased_loggedUpdateStock (p : Product) :
    erased (loggedUpdateStock srv work p) = (do
      let w ← get
      let table ← orThrow (updateStock srv p w.table)
      modify fun w => { w with table }) := by
  simp only [loggedUpdateStock, erased_bind, erased_get, erased_statements, erased_lift, pure_bind]
  refine bind_congr fun w => ?_
  cases hexists : productExists p.code w.table with
  | error e =>
    have hup : updateStock srv p w.table = .error e := by
      simp only [updateStock, hexists, bind, Except.bind]
    rw [hup]
    rfl
  | ok found =>
    cases updateStock srv p w.table <;> rfl

/-- **The form** with its transaction is the form. -/
theorem erased_loggedForm (code : ℤ) (modifying : Bool) :
    erased (loggedForm srv work code modifying) = runForm srv code modifying := by
  funext w
  simp only [loggedForm, runForm, addModifyProduct, withKeys_bind, withKeys_orThrow, erased_bind,
    erased_get, erased_statements, erased_lift, pure_bind, bind_assoc]
  refine bind_congr_apply fun _ w' hget => ?_
  obtain ⟨rfl, rfl⟩ := (EStateM.Result.ok.injEq ..).mp hget
  refine bind_congr_apply fun p w' hp => ?_
  obtain ⟨-, rfl⟩ := orThrow_eq_ok.1 hp
  refine bind_congr_apply fun answers w' hanswers => ?_
  obtain ⟨keys, -, rfl⟩ := withKeys_eq_ok.1 hanswers
  cases answers with
  | none => rfl
  | some answers =>
    simp only [withKeys_bind, withKeys_orThrow, erased_bind, erased_lift, erased_emit,
      erased_loggedUpdateStock, bind_assoc]
    refine bind_congr_apply fun p w' hp => ?_
    obtain ⟨-, rfl⟩ := orThrow_eq_ok.1 hp
    rfl

/-- **Every command** without its log is the command. -/
theorem erased_loggedBody (c : Command) :
    erased (Command.loggedBody srv lines c) = c.body srv lines := by
  cases c with
  | quit => rfl
  | menu => rfl
  | stockTab => rfl
  | scrollUp => rfl
  | up => rfl
  | nextTab =>
    simp [Command.loggedBody, Command.body, loggedNextTab]
  | scrollDown => simp [Command.loggedBody, Command.body, loggedScrollDown]
  | down => simp [Command.loggedBody, Command.body, loggedDown]
  | remove =>
    have hadjust : ∀ w, erased (loggedRemoveAdjust w) = pure () := by
      intro w
      simp [loggedRemoveAdjust]
    simp only [Command.loggedBody, Command.body, loggedRemove, removeCommand, erased_withWork,
      erased_bind, erased_get, erased_statements, pure_bind, erased_ite, erased_emit, hadjust,
      erased_modify, erased_pure]
    refine bind_congr fun w => ?_
    split_ifs
    · refine bind_congr fun _ => bind_congr fun w => ?_
      cases w.currentTab with
      | products => simp
      | stock => simp
      | basket =>
        simp only [erased_bind, erased_lift]
        refine bind_congr fun code => ?_
        cases removeFromBasket code w.basket <;> rfl
    · rfl
  | addProduct =>
    simp only [Command.loggedBody, Command.body, loggedAdd, addCommand, erased_bind, erased_get]
    refine bind_congr fun w => ?_
    cases w.currentTab <;> simp [erased_loggedForm]
  | modifyProduct =>
    simp [Command.loggedBody, Command.body, loggedModify, modifyCommand, erased_loggedForm]
  | enter =>
    simp only [Command.loggedBody, Command.body, loggedEnter, enterCommand, erased_bind, erased_get]
    refine bind_congr fun w => ?_
    cases w.currentTab <;> simp
  | search =>
    simp only [Command.loggedBody, Command.body, loggedSearch, searchCommand, erased_withWork,
      erased_bind, erased_lift]
    refine bind_congr fun answer => ?_
    cases answer with
    | none => rfl
    | some searchWord =>
      have hanswer : ∀ code key,
          erased (loggedSearchAnswer srv code key) = searchAnswer srv code key := by
        intro code key
        simp [loggedSearchAnswer, searchAnswer, erased_loggedForm]
      funext v
      simp only [erased_bind, erased_get, erased_statements, erased_lift, erased_modify, pure_bind,
        hanswer]
      -- the name list is read from the state that the search starts from
      rw [bind_apply, get_apply]
  | testReceipt =>
    simp [Command.loggedBody, Command.body, loggedTestReceipt, testReceiptCommand, loggedPrint]
  | checkout =>
    simp [Command.loggedBody, Command.body, loggedCheckout, checkoutCommand, loggedPrint]
  | scan =>
    have hproduct : ∀ code, erased (loggedScanProduct code) = scanProduct code := by
      intro code
      simp only [loggedScanProduct, scanProduct, erased_bind, erased_get]
      refine bind_congr fun w => ?_
      cases w.currentTab <;> simp [loggedLookup]
    simp [Command.loggedBody, Command.body, loggedScan, scanCommand, hproduct]

/-- Without its log, the redraw is the redraw. -/
theorem erased_loggedRedraw : erased (loggedRedraw srv lines) = redraw srv lines := by
  funext w
  simp only [loggedRedraw, redraw, erased_bind, erased_get, erased_statements, erased_lift,
    erased_modify, erased_emit, pure_bind]
  rfl

/-- **The loop without its log** is the loop. -/
theorem erased_loggedIteration : erased (loggedIteration srv lines) = iteration srv lines := by
  have hbody : (fun c => erased (Command.loggedBody srv lines c)) = Command.body srv lines :=
    funext erased_loggedBody
  rw [loggedIteration, erased_withWork, erased_bind, erased_loggedRedraw, erased_chain, hbody]
  rfl

/-! ## Following the protocol -/

/-- Statements leave an open transaction open. -/
theorem follows_statements (n : ℕ) :
    Follows (Opened work cl) (Opened work cl) (statements work n) :=
  follows_execs n

/-- What logs nothing may halt while a transaction is open. -/
theorem follows_opened {α : Type} (m : Main α) :
    Follows (Opened work cl) (Opened work cl) (liftM m : LoggedMain α) :=
  .lift m fun _ => clean_of_opened

/-- What has no log leaves the transactions alone. -/
theorem follows_idle {α : Type} (m : Main α) :
    Follows (Idle cl) (Idle cl) (liftM m : LoggedMain α) :=
  .lift m fun _ => clean_of_idle

/-- `update_stock` halts before it has changed something, or leaves a change. -/
theorem follows_loggedUpdateStock (p : Product) :
    Follows (Opened work cl) (Changed work cl) (loggedUpdateStock srv work p) := by
  apply Follows.get.bind
  intro w
  apply (follows_statements 1).bind
  intro _
  apply (follows_opened _).bind
  intro _
  cases updateStock srv p w.table with
  | error e =>
    apply (follows_statements 1).bind
    intro _
    exact .throw _ fun _ => clean_of_opened
  | ok table =>
    apply follows_change.bind
    intro _
    exact follows_modify _ _

/-- **The form** changes nothing, or commits. -/
theorem follows_loggedForm (hfresh : work ∉ cl) (code : ℤ) (modifying : Bool) :
    Follows (Opened work cl) (Closable work cl) (loggedForm srv work code modifying) := by
  apply Follows.get.bind
  intro w
  apply (follows_statements 1).bind
  intro _
  apply (follows_opened _).bind
  intro p
  apply (follows_opened _).bind
  intro answers
  cases answers with
  | none => exact Follows.left_open (.pure ())
  | some answers =>
    apply (follows_opened _).bind
    intro p
    apply (follows_loggedUpdateStock p).bind
    intro _
    exact (follows_commit_changed hfresh).left_committed

/-- The removal: `txRemove` is committed before another is constructed, and `tx2` is
destroyed before `tx3` is. -/
theorem follows_loggedRemove : Follows (Idle [.tx]) (Idle [.tx]) (loggedRemove lines) := by
  have hadjust : ∀ w, Follows (Idle [.txRemove, .tx]) (Idle [.txRemove, .tx])
      (loggedRemoveAdjust w) := by
    intro w
    apply Logged.Follows.ite
    · intro _
      apply follows_withWork (by decide)
      exact (follows_statements _).left_open
    · intro _
      exact .pure ()
  have htable : ∀ w : World, Follows (Idle [.txRemove, .tx]) (Idle [.txRemove, .tx])
      (withWork .tx3 do
        let code ← readAt .listSelection w.list w.selection
        emit (.change .tx3)
        modify fun w => { w with table := erase code w.table }
        emit (.commit .tx3) : LoggedMain Unit) := by
    intro w
    apply follows_withWork (by decide)
    apply (follows_opened _).bind
    intro code
    apply follows_change.bind
    intro _
    apply (follows_modify _ _).bind
    intro _
    exact (follows_commit_changed (by decide)).left_committed
  apply follows_withWork (by decide)
  apply Follows.get.bind
  intro w
  apply (follows_statements _).bind
  intro _
  apply Logged.Follows.ite
  · intro _
    apply Follows.left_committed
    apply (follows_commit_opened (by decide)).bind
    intro _
    apply (hadjust w).bind
    intro _
    apply (follows_modify _ _).bind
    intro _
    apply Follows.get.bind
    intro w
    cases w.currentTab with
    | products => exact htable w
    | stock => exact htable w
    | basket =>
      apply (follows_idle _).bind
      intro code
      cases removeFromBasket code w.basket with
      | none => exact follows_idle _
      | some basket => exact follows_modify _ _
  · intro _
    exact Follows.left_open (.pure ())

/-- A command that asks for the size of the list, changes the program's state and
commits. -/
theorem follows_sized (n : World → ℕ) (f : World → World) (hfresh : work ∉ cl) :
    Follows (Idle cl) (Idle cl) (withWork work do
      let w ← get
      statements work (n w)
      modify f
      emit (.commit work) : LoggedMain Unit) := by
  apply follows_withWork hfresh
  apply Follows.get.bind
  intro w
  apply (follows_statements (n w)).bind
  intro _
  apply (follows_modify _ _).bind
  intro _
  exact (follows_commit_opened hfresh).left_committed

/-- `a` begins and ends with no transaction open. -/
theorem follows_loggedAdd : Follows (Idle [.tx]) (Idle [.tx]) (loggedAdd srv) := by
  have hform : ∀ w : World, Follows (Idle [.tx]) (Idle [.tx]) (withWork .tx4 do
      statements .tx4 1
      let code ← readAt .listSelection w.list w.selection
      loggedForm srv .tx4 code false
      emit (.commit .tx4) : LoggedMain Unit) := by
    intro w
    apply follows_withWork (by decide)
    apply (follows_statements 1).bind
    intro _
    apply (follows_opened _).bind
    intro code
    apply (follows_loggedForm (by decide) code false).bind
    intro _
    exact (follows_commit (by decide)).left_committed
  apply Follows.get.bind
  intro w
  cases w.currentTab with
  | products => exact hform w
  | stock => exact hform w
  | basket => exact .pure ()

/-- So does `m`. -/
theorem follows_loggedModify : Follows (Idle [.tx]) (Idle [.tx]) (loggedModify srv) := by
  apply follows_withWork (by decide)
  apply Follows.get.bind
  intro w
  apply (follows_statements _).bind
  intro _
  apply Logged.Follows.ite
  · intro _
    apply (follows_opened _).bind
    intro code
    apply (follows_loggedForm (by decide) code true).bind
    intro _
    exact (follows_commit (by decide)).left_committed
  · intro _
    apply (follows_opened _).bind
    intro _
    exact (follows_commit_opened (by decide)).left_committed

/-- So does Enter. -/
theorem follows_loggedEnter : Follows (Idle [.tx]) (Idle [.tx]) loggedEnter := by
  apply Follows.get.bind
  intro w
  cases w.currentTab with
  | products =>
    apply follows_withWork (by decide)
    apply (follows_opened _).bind
    intro code
    apply (follows_statements 1).bind
    intro _
    apply (follows_opened _).bind
    intro product
    apply (follows_opened _).bind
    intro _
    apply (follows_commit_opened (by decide)).bind
    intro _
    exact (follows_modify _ _).left_committed
  | basket => exact .pure ()
  | stock => exact .pure ()

/-- What answers a search commits in the form only. -/
theorem follows_loggedSearchAnswer (code : ℤ) (key : Key) :
    Follows (Opened .txSearch [.tx]) (Closable .txSearch [.tx])
      (loggedSearchAnswer srv code key) := by
  apply Logged.Follows.ite
  · intro _
    exact follows_loggedForm (by decide) code true
  · intro _
    apply Logged.Follows.ite
    · intro _
      apply Follows.get.bind
      intro w
      apply (follows_statements 1).bind
      intro _
      apply (follows_opened _).bind
      intro product
      apply (follows_opened _).bind
      intro _
      exact (follows_modify _ _).left_open
    · intro _
      exact Follows.left_open (.pure ())

/-- So does the search. -/
theorem follows_loggedSearch : Follows (Idle [.tx]) (Idle [.tx]) (loggedSearch srv) := by
  apply follows_withWork (by decide)
  apply (follows_opened _).bind
  intro answer
  cases answer with
  | none => exact Follows.left_open (.pure ())
  | some searchWord =>
    apply Follows.get.bind
    intro w
    apply (follows_statements _).bind
    intro _
    apply (follows_opened _).bind
    intro code
    apply Follows.get.bind
    intro w
    apply (follows_statements _).bind
    intro _
    apply (follows_opened _).bind
    intro _
    apply (follows_opened _).bind
    intro key
    apply (follows_modify _ _).bind
    intro _
    exact follows_loggedSearchAnswer code key

/-- Printing keeps the transaction that it was given. -/
theorem follows_loggedPrint :
    Follows (Opened work cl) (Opened work cl) (loggedPrint work) := by
  apply Follows.get.bind
  intro w
  apply (follows_statements _).bind
  intro _
  exact follows_opened _

/-- `t` begins and ends with no transaction open. -/
theorem follows_loggedTestReceipt : Follows (Idle [.tx]) (Idle [.tx]) loggedTestReceipt := by
  apply follows_withWork (by decide)
  apply (follows_opened _).bind
  intro _
  apply follows_loggedPrint.bind
  intro _
  exact Follows.left_open (.pure ())

/-- So does `T`. -/
theorem follows_loggedCheckout : Follows (Idle [.tx]) (Idle [.tx]) loggedCheckout := by
  apply follows_withWork (by decide)
  apply (follows_opened _).bind
  intro _
  apply follows_loggedPrint.bind
  intro printed
  apply Follows.left_open
  exact .ite (fun _ => follows_modify _ _) fun _ => .pure ()

/-- Looking a scan up keeps its transaction. -/
theorem follows_loggedLookup (code : ℤ) (w : World) :
    Follows (Opened .txScanner cl) (Opened .txScanner cl) (loggedLookup code w) := by
  apply (follows_statements 1).bind
  intro _
  apply (follows_opened _).bind
  intro found
  apply Logged.Follows.ite
  · intro _
    apply (follows_statements 1).bind
    intro _
    apply (follows_opened _).bind
    intro product
    apply (follows_opened _).bind
    intro _
    exact follows_modify _ _
  · intro _
    apply (follows_opened _).bind
    intro _
    exact .pure ()

/-- A scan begins and ends with no transaction open. -/
theorem follows_loggedScan : Follows (Idle [.tx]) (Idle [.tx]) loggedScan := by
  have hproduct : ∀ code, Follows (Opened .txScanner [.tx]) (Opened .txScanner [.tx])
      (loggedScanProduct code) := by
    intro code
    apply Follows.get.bind
    intro w
    cases w.currentTab with
    | products => exact follows_loggedLookup code w
    | basket => exact follows_loggedLookup code w
    | stock => exact .pure ()
  apply (follows_idle _).bind
  intro code
  apply follows_withWork (by decide)
  apply (hproduct code).bind
  intro _
  apply Follows.get.bind
  intro w
  apply (follows_statements _).bind
  intro _
  apply (follows_modify _ _).bind
  intro _
  exact (follows_commit_opened (by decide)).left_committed

/-- **Every command** comes back to where it started: only the redraw's transaction is
there, and it is closed. -/
theorem follows_loggedBody (c : Command) :
    Follows (Idle [.tx]) (Idle [.tx]) (Command.loggedBody srv lines c) := by
  cases c with
  | quit => exact follows_idle _
  | menu => exact follows_idle _
  | remove => exact follows_loggedRemove
  | addProduct => exact follows_loggedAdd
  | nextTab => exact follows_sized _ _ (by decide)
  | stockTab => exact follows_idle _
  | modifyProduct => exact follows_loggedModify
  | scrollUp => exact follows_idle _
  | scrollDown => exact follows_sized _ _ (by decide)
  | enter => exact follows_loggedEnter
  | search => exact follows_loggedSearch
  | testReceipt => exact follows_loggedTestReceipt
  | checkout => exact follows_loggedCheckout
  | up => exact follows_idle _
  | down => exact follows_sized _ _ (by decide)
  | scan => exact follows_loggedScan

/-- The redraw reads with its own transaction and commits it before it waits for a key. -/
theorem follows_loggedRedraw :
    Follows (Opened .tx []) (Idle [.tx]) (loggedRedraw srv lines) := by
  apply Follows.get.bind
  intro w
  apply (follows_statements _).bind
  intro _
  apply (follows_modify _ _).bind
  intro _
  apply Follows.get.bind
  intro w
  apply (follows_statements _).bind
  intro _
  apply (follows_opened _).bind
  intro list
  apply (follows_modify _ _).bind
  intro _
  apply Follows.get.bind
  intro w
  apply (follows_statements _).bind
  intro _
  apply (follows_opened _).bind
  intro _
  apply (follows_statements _).bind
  intro _
  apply (follows_opened _).bind
  intro total
  apply (follows_modify _ _).bind
  intro _
  apply (follows_statements _).bind
  intro _
  apply (follows_opened _).bind
  intro _
  apply (follows_commit_opened (by decide)).bind
  intro _
  apply (follows_idle _).bind
  intro key
  exact follows_modify _ _

/-- **Every iteration** comes back to a connection without transactions. -/
theorem follows_loggedIteration : Follows (Idle []) (Idle []) (loggedIteration srv lines) := by
  apply follows_withWork (by decide)
  apply follows_loggedRedraw.bind
  intro _
  exact Follows.left_committed (.chain fun c _ => follows_loggedBody c)

/-! ## Every run -/

/-- **The transactions of every run obey the rules**: none is constructed while another is
open, no statement is executed on a committed one, and every statement that changes the
table is followed by a commit before its transaction is destroyed.  The runs with a log are
the runs of the main loop, and the log goes on into the iteration after them, whether this
returns or halts. -/
theorem works_obey (srv : Server) (lines : ℤ) (table : Table) (keys : List Key)
    (printer : Printer) (uninit : List ℤ) (w : World) :
    erased (loggedIteration srv lines) = iteration srv lines ∧
      (RunsWhere srv lines (fun _ _ => True) (boot table keys printer uninit) w ↔
        ∃ log, Logged.Runs (loggedIteration srv lines) (boot table keys printer uninit, [])
          (w, log)) ∧
      ∀ log, Logged.Runs (loggedIteration srv lines) (boot table keys printer uninit, [])
        (w, log) → Obeys (log ++ (loggedIteration srv lines w).2) := by
  refine ⟨erased_loggedIteration, ?_, fun log hrun => ?_⟩
  · rw [RunsWhere, ← erased_loggedIteration]
    exact runs_erased (fun _ _ _ => trivial) []
  · have hfresh : run step Connection.fresh ([] : List (WorkEvent Work)) = some .fresh := rfl
    obtain ⟨c, hlog, hc⟩ := follows_loggedIteration.runs hrun rfl hfresh
    obtain ⟨c', hnext, hend⟩ := follows_loggedIteration w c hc
    refine obeys_of_run (run_append_eq_some.2 ⟨c, hlog, hnext⟩) ?_
    cases hreturns : (loggedIteration srv lines w).1 with
    | ok _ w' =>
      rw [hreturns] at hend
      exact clean_of_idle hend
    | error e w' =>
      rw [hreturns] at hend
      exact hend

/-- The bread is removed: `tx3` changes the table in the first iteration. -/
theorem works_obey_removal :
    ∃ w log, Logged.Runs (loggedIteration strictServer 11)
        (boot [bread, milk] [charKey 'R'] ⟨[], []⟩ [], []) (w, log) ∧
      .change .tx3 ∈ log ∧ w.table = [milk] ∧
      Obeys (log ++ (loggedIteration strictServer 11 w).2) := by
  have hreturns : (valueOf (loggedIteration strictServer 11
      (boot [bread, milk] [charKey 'R'] ⟨[], []⟩ [])).1).map (fun r => r.2.table) =
        some [milk] := by
    decide +kernel
  obtain ⟨⟨u, w⟩, hvalue, htable⟩ := Option.map_eq_some_iff.1 hreturns
  have hlog : Logged.Runs (loggedIteration strictServer 11)
      (boot [bread, milk] [charKey 'R'] ⟨[], []⟩ [], [])
      (w, (loggedIteration strictServer 11 (boot [bread, milk] [charKey 'R'] ⟨[], []⟩ [])).2) :=
    .single ⟨_, Prod.ext (valueOf_eq_some.1 hvalue) rfl, rfl⟩
  exact ⟨w, _, hlog, by decide +kernel, htable,
    (works_obey strictServer 11 _ _ _ _ w).2.2 _ hlog⟩

end CliPos
