import CliPos.Model.TwoTills
import CliPos.Analysis.Upsert

/-!
# Two tills that save one code

`update_stock` decides between `UPDATE` and `INSERT` by a lookup of its own, and nothing
keeps another transaction from committing between the two.  Which client adds a row is
settled by what its lookup could see (`Adds`), and the table has two rows of a code exactly
when both do (`two_tills_iff`).  They never wait for each other for good
(`exists_takeStep`).
-/

set_option autoImplicit false

namespace CliPos

open Protocol

variable {srv : Server} {product : Till → Product} {t t' : Table} {s s' : Shop} {e : Event}
  {es : List Event} {c d : Till}

/-! ## The clients -/

/-- The other till's other till is the till. -/
@[simp] theorem Till.other_other (c : Till) : c.other.other = c := by cases c <;> rfl

/-- The tills are two. -/
theorem Till.other_ne (c : Till) : c.other ≠ c := by cases c <;> decide

/-- There is no third till. -/
theorem Till.eq_or_eq_other (c d : Till) : d = c ∨ d = c.other := by
  cases c <;> cases d <;> decide

/-- Entering a phase leaves the table. -/
@[simp] theorem enter_table (c : Till) (phase : Phase) : (s.enter c phase).table = s.table := rfl

/-- The till is in the phase it entered. -/
@[simp] theorem enter_phase_self (c : Till) (phase : Phase) :
    (s.enter c phase).phase c = phase :=
  Function.update_self ..

/-- The other till stays in its phase. -/
@[simp] theorem enter_phase_other (c : Till) (phase : Phase) :
    (s.enter c phase).phase c.other = s.phase c.other :=
  Function.update_of_ne c.other_ne ..

/-! ## The rows written -/

/-- The rows with a code are those whose code it is. -/
theorem mem_rowsWith {code : ℤ} {i : ℕ} :
    i ∈ rowsWith code t ↔ t[i]?.map Row.code = some code := by
  simp only [rowsWith, List.mem_filter, List.mem_range, decide_eq_true_eq, and_iff_right_iff_imp]
  intro h
  obtain ⟨r, hr, -⟩ := Option.map_eq_some_iff.1 h
  exact (List.getElem?_eq_some_iff.1 hr).1

/-- Rows written over rows of the same code leave every code in its place. -/
theorem map_code_writeRows {p : Product} {rows : List ℕ}
    (h : ∀ i ∈ rows, t[i]?.map Row.code = some p.code) :
    (writeRows p rows t).map Row.code = t.map Row.code := by
  refine List.ext_getElem? fun i => ?_
  simp only [writeRows, List.getElem?_map, List.getElem?_mapIdx]
  cases hr : t[i]? with
  | none => rfl
  | some r =>
    simp only [Option.map_some, Option.some.injEq]
    split_ifs with hi
    · have hcode := h i hi
      rw [hr] at hcode
      exact (Option.some.inj hcode).symm
    · rfl

/-- The `UPDATE`, when the table is still the one it saw. -/
theorem writeRows_rowsWith (p : Product) (t : Table) :
    writeRows p (rowsWith p.code t) t = updateRows p t := by
  refine List.ext_getElem? fun i => ?_
  simp only [writeRows, updateRows, List.getElem?_map, List.getElem?_mapIdx, mem_rowsWith]
  cases hr : t[i]? with
  | none => rfl
  | some r => simp only [Option.map_some, Option.some.injEq]

/-- The rows of a code are counted among the codes. -/
theorem codeCount_eq_count (code : ℤ) (t : Table) :
    codeCount code t = (t.map Row.code).count code := by
  rw [codeCount, List.count, List.countP_map]
  rfl

/-- An inserted row counts for its code. -/
theorem codeCount_insertRow (code : ℤ) (p : Product) (t : Table) :
    codeCount code (insertRow p t) = codeCount code t + if p.code = code then 1 else 0 := by
  simp only [codeCount, insertRow, List.countP_append, List.countP_singleton, decide_eq_true_eq]
  rfl

/-! ## A transaction by itself -/

/-- Without rows that another transaction holds, the statement is sent at once. -/
theorem sendStatement_nil (srv : Server) (p : Product) (found : Bool) (t : Table) :
    ((sendStatement srv p found t []).bind (Phase.apply p t)) =
      if quote ∈ p.name then srv.quoted found p t
      else if 0 ∈ p.name ∨ p.taxChar = 0 ∨ p.taxChar = quote then none
      else if found then some (updateRows p t) else some (insertRow p t) := by
  unfold sendStatement
  simp only [List.not_mem_nil, and_false, exists_false, if_false]
  split_ifs
  · cases srv.quoted found p t <;> rfl
  · rfl
  · exact congrArg some (writeRows_rowsWith p t)
  · rfl

/-- A commit applies what the till holds. -/
theorem takeStep_commit : takeStep srv product s ⟨c, .commit⟩ =
    ((s.phase c).apply (product c) s.table).map fun t =>
      { s.enter c .committed with table := t } := by
  unfold takeStep
  cases s.phase c <;> rfl

/-- **A transaction that nobody interrupts** is `update_stock` of the single client. -/
theorem run_transaction (hphase : s.phase c = .start) (hother : (s.phase c.other).held = []) :
    (run (takeStep srv product) s (transaction c)).map Shop.table =
      (updateStock srv (product c) s.table).toOption := by
  cases hexists : productExists (product c).code s.table with
  | error e =>
    simp [transaction, run_cons, takeStep, hphase, updateStock, hexists, Except.toOption, bind,
      Except.bind]
  | ok found =>
    have hrun : (run (takeStep srv product) s (transaction c)).map Shop.table =
        (sendStatement srv (product c) found s.table []).bind
          (Phase.apply (product c) s.table) := by
      have hlookup : takeStep srv product s ⟨c, .lookup⟩ = some (s.enter c (.looked found)) := by
        simp only [takeStep, hphase, hexists]
      have hwrite : takeStep srv product (s.enter c (.looked found)) ⟨c, .write⟩ =
          (sendStatement srv (product c) found s.table []).map
            ((s.enter c (.looked found)).enter c) := by
        simp only [takeStep, enter_phase_self, enter_phase_other, enter_table, hother]
      simp only [transaction, run_cons, run_nil, hlookup, hwrite, Option.bind_some,
        takeStep_commit]
      cases sendStatement srv (product c) found s.table [] with
      | none => rfl
      | some phase =>
        simp only [Option.map_some, Option.bind_some, enter_phase_self, enter_table]
        cases phase.apply (product c) s.table <;> rfl
    rw [hrun, sendStatement_nil]
    unfold updateStock
    simp only [hexists, bind, Except.bind]
    split_ifs <;> first | rfl | (cases srv.quoted found (product c) s.table <;> rfl)

/-! ## One step -/

/-- What the steps of a run do, when no name holds a quote. -/
inductive PlainStep (product : Till → Product) (s : Shop) : Event → Shop → Prop
  | look (c : Till) (found : Bool) (phase : s.phase c = .start)
      (lookup : productExists (product c).code s.table = .ok found) :
      PlainStep product s ⟨c, .lookup⟩ (s.enter c (.looked found))
  | update (c : Till) (phase : s.phase c = .looked true) :
      PlainStep product s ⟨c, .write⟩
        (s.enter c (.updated (rowsWith (product c).code s.table)))
  | insert (c : Till) (phase : s.phase c = .looked false) :
      PlainStep product s ⟨c, .write⟩ (s.enter c .inserted)
  | commit (c : Till) (t : Table) (apply : (s.phase c).apply (product c) s.table = some t) :
      PlainStep product s ⟨c, .commit⟩ { s.enter c .committed with table := t }

/-- **Every step** is one of these. -/
theorem plainStep_of_takeStep (hquote : ∀ c, quote ∉ (product c).name)
    (h : takeStep srv product s e = some s') : PlainStep product s e s' := by
  obtain ⟨c, action⟩ := e
  cases action with
  | lookup =>
    cases hphase : s.phase c <;> simp only [takeStep, hphase] at h
    case start =>
      cases hlookup : productExists (product c).code s.table with
      | error e => simp [hlookup] at h
      | ok found =>
        simp only [hlookup, Option.some.injEq] at h
        exact h ▸ .look c found hphase hlookup
    all_goals cases h
  | write =>
    cases hphase : s.phase c <;> simp only [takeStep, hphase] at h
    case looked found =>
      obtain ⟨phase, hsend, rfl⟩ := Option.map_eq_some_iff.1 h
      simp only [sendStatement, if_neg (hquote c)] at hsend
      split_ifs at hsend with hrejected hfound hwaits
      · obtain rfl := Option.some.inj hsend
        subst hfound
        exact .update c hphase
      · obtain rfl := Option.some.inj hsend
        exact .insert c (by rw [hphase, eq_false_of_ne_true hfound])
    all_goals cases h
  | commit =>
    rw [takeStep_commit] at h
    obtain ⟨t, happly, rfl⟩ := Option.map_eq_some_iff.1 h
    exact .commit c t happly

/-! ## What a client could see -/

/-- No row of the code was committed when the client looked it up: the table had none, and
the other client did not commit one before. -/
def Adds (product : Till → Product) (t : Table) (es : List Event) (c : Till) : Prop :=
  codeCount (product c).code t = 0 ∧
    ¬((product c.other).code = (product c).code ∧ Before ⟨c.other, .commit⟩ ⟨c, .lookup⟩ es)

/-- Whether a till adds a row is seen in the run. -/
instance : Decidable (Adds product t es c) := by
  unfold Adds
  infer_instance

/-- Only the lookup of the client settles whether it adds a row. -/
theorem adds_concat (h : e ≠ ⟨c, .lookup⟩) :
    Adds product t (es ++ [e]) c ↔ Adds product t es c := by
  have hbefore : Before ⟨c.other, .commit⟩ ⟨c, .lookup⟩ (es ++ [e]) ↔
      Before ⟨c.other, .commit⟩ ⟨c, .lookup⟩ es := by
    rw [before_concat, or_iff_left]
    exact fun hnew => h hnew.2.symm
  rw [Adds, hbefore]
  rfl

/-! ## The invariant -/

/-- What a client in a phase has settled, when `adds` says whether it adds a row. -/
def Settled (adds : Prop) (code : ℤ) (t : Table) : Phase → Prop
  | .start => True
  | .looked found => found = false ↔ adds
  | .updated rows => ¬adds ∧ ∀ i ∈ rows, t[i]?.map Row.code = some code
  | .inserted => adds
  | .sent _ => False
  | .committed => True

/-- Every row of the first table has the code it has in the second. -/
def CodesKept (t t' : Table) : Prop :=
  ∀ (i : ℕ) (code : ℤ), t[i]?.map Row.code = some code → t'[i]?.map Row.code = some code

/-- A commit that keeps the codes keeps what a till has settled. -/
theorem Settled.mono {adds adds' : Prop} {code : ℤ} {phase : Phase}
    (h : Settled adds code t phase) (hadds : adds' ↔ adds) (hcodes : CodesKept t t') :
    Settled adds' code t' phase := by
  cases phase with
  | start => trivial
  | looked found => exact h.trans hadds.symm
  | updated rows =>
    exact ⟨fun hadds' => h.1 (hadds.1 hadds'), fun i hi => hcodes i code (h.2 i hi)⟩
  | inserted => exact hadds.2 h
  | sent t => exact h
  | committed => trivial

/-- **A commit** leaves the codes in their places, and adds a row of its own code when the
client adds one. -/
theorem Settled.apply {p : Product} {adds : Prop} [Decidable adds] {phase : Phase}
    (h : Settled adds p.code t phase) (happly : phase.apply p t = some t') :
    CodesKept t t' ∧
      ∀ code, codeCount code t' = codeCount code t + if p.code = code ∧ adds then 1 else 0 := by
  cases phase with
  | start => cases happly
  | looked found => cases happly
  | updated rows =>
    obtain rfl := Option.some.inj happly
    have hcodes := map_code_writeRows h.2
    constructor
    · intro i code hcode
      rwa [← List.getElem?_map, hcodes, List.getElem?_map]
    · intro code
      rw [codeCount_eq_count, codeCount_eq_count, hcodes, if_neg fun hadds => h.1 hadds.2,
        Nat.add_zero]
  | inserted =>
    obtain rfl := Option.some.inj happly
    constructor
    · intro i code hcode
      obtain ⟨r, hr, rfl⟩ := Option.map_eq_some_iff.1 hcode
      rw [insertRow, List.getElem?_append_left (List.getElem?_eq_some_iff.1 hr).1, hr]
      rfl
    · intro code
      have hadds : p.code = code ∧ adds ↔ p.code = code := and_iff_left h
      simp only [codeCount_insertRow, hadds]
  | sent t => exact h.elim
  | committed => cases happly

/-- The rows of a code that a client has added to the table. -/
def added (product : Till → Product) (t : Table) (es : List Event) (s : Shop) (code : ℤ)
    (c : Till) : ℕ :=
  if s.phase c = .committed ∧ (product c).code = code ∧ Adds product t es c then 1 else 0

/-- What holds after every list of steps from the table `t`. -/
structure Invariant (product : Till → Product) (t : Table) (es : List Event) (s : Shop) :
    Prop where
  started : ∀ c, ⟨c, .lookup⟩ ∈ es ↔ s.phase c ≠ .start
  finished : ∀ c, ⟨c, .commit⟩ ∈ es ↔ s.phase c = .committed
  settled : ∀ c, Settled (Adds product t es c) (product c).code s.table (s.phase c)
  count : ∀ code c, codeCount code s.table =
    codeCount code t + added product t es s code c + added product t es s code c.other

/-- The invariant holds when both tills have opened. -/
theorem invariant_opened : Invariant product t [] (.opened t) where
  started c := by simp [Shop.opened]
  finished c := by simp [Shop.opened]
  settled _ := trivial
  count code c := by simp [Shop.opened, added]

/-- A client that has not committed has added no row yet. -/
theorem added_of_ne {code : ℤ} (h : s.phase c ≠ .committed) : added product t es s code c = 0 :=
  if_neg fun hadded => h hadded.1

/-- What the other client has added is not changed by a step that is not its own. -/
theorem added_congr {code : ℤ} (hphase : s'.phase c = s.phase c) (he : e ≠ ⟨c, .lookup⟩) :
    added product t (es ++ [e]) s' code c = added product t es s code c := by
  simp only [added, hphase, adds_concat he]

/-- **What a lookup finds** settles whether the client adds a row. -/
theorem Invariant.look (h : Invariant product t es s) (hphase : s.phase c = .start) :
    codeCount (product c).code s.table = 0 ↔ Adds product t (es ++ [⟨c, .lookup⟩]) c := by
  have hlookup : ⟨c, .lookup⟩ ∉ es := fun hmem => (h.started c).1 hmem hphase
  have hcommit : ⟨c, .commit⟩ ∉ es := by
    intro hmem
    have hcommitted := (h.finished c).1 hmem
    rw [hphase] at hcommitted
    cases hcommitted
  have hbefore : Before ⟨c.other, .commit⟩ ⟨c, .lookup⟩ (es ++ [⟨c, .lookup⟩]) ↔
      s.phase c.other = .committed := by
    rw [before_concat, or_iff_right fun hb => hlookup hb.mem_right, ← h.finished c.other]
    exact and_iff_left rfl
  have hother : codeCount (product c.other).code t = 0 → Adds product t es c.other := by
    refine fun hnone => ⟨hnone, fun hb => hcommit ?_⟩
    rw [Till.other_other] at hb
    exact hb.2.mem_left
  have hcount := h.count (product c).code c
  rw [added_of_ne (by rw [hphase]; rintro ⟨⟩), Nat.add_zero] at hcount
  rw [Adds, hbefore, hcount, Nat.add_eq_zero_iff, added]
  refine and_congr_right fun hnone => ?_
  rw [ite_eq_right_iff]
  constructor
  · rintro hadded ⟨hcode, hcommitted⟩
    exact absurd (hadded ⟨hcommitted, hcode, hother (hcode ▸ hnone)⟩) (by decide)
  · rintro hnot ⟨hcommitted, hcode, -⟩
    exact absurd ⟨hcode, hcommitted⟩ hnot

/-- A step of one client is not the other's. -/
theorem event_ne_other (c : Till) (a b : Action) : (⟨c, a⟩ : Event) ≠ ⟨c.other, b⟩ :=
  fun h => c.other_ne (congrArg Event.till h).symm

/-- **A step into a new phase keeps the invariant**, when the phase is settled and the table
has a row more where the client added one. -/
theorem Invariant.enter {a : Action} (h : Invariant product t es s)
    (hother : s'.phase c.other = s.phase c.other) (hstart : s'.phase c ≠ .start)
    (hlooked : a = .lookup ∨ s.phase c ≠ .start) (hopen : s.phase c ≠ .committed)
    (hcommit : a = .commit ↔ s'.phase c = .committed)
    (hsettled : Settled (Adds product t (es ++ [⟨c, a⟩]) c) (product c).code s'.table (s'.phase c))
    (hcodes : CodesKept s.table s'.table)
    (hcount : ∀ code, codeCount code s'.table =
      codeCount code s.table + added product t (es ++ [⟨c, a⟩]) s' code c) :
    Invariant product t (es ++ [⟨c, a⟩]) s' := by
  have hmem : ∀ {b : Action}, (⟨c, b⟩ : Event) ∈ es ++ [⟨c, a⟩] ↔ ⟨c, b⟩ ∈ es ∨ a = b := by
    intro b
    simp only [List.mem_append, List.mem_singleton, Event.mk.injEq, true_and, eq_comm]
  have hmem_other : ∀ {b : Action},
      (⟨c.other, b⟩ : Event) ∈ es ++ [⟨c, a⟩] ↔ ⟨c.other, b⟩ ∈ es := by
    intro b
    rw [List.mem_append, List.mem_singleton, or_iff_left (event_ne_other c a b).symm]
  have htotal : ∀ code, codeCount code s'.table = codeCount code t +
      added product t (es ++ [⟨c, a⟩]) s' code c +
      added product t (es ++ [⟨c, a⟩]) s' code c.other := by
    intro code
    have hkept : added product t (es ++ [⟨c, a⟩]) s' code c.other =
        added product t es s code c.other :=
      added_congr hother (event_ne_other c a .lookup)
    have hbefore := h.count code c
    rw [added_of_ne hopen] at hbefore
    rw [hcount code, hkept, hbefore]
    omega
  refine ⟨fun d => ?_, fun d => ?_, fun d => ?_, fun code d => ?_⟩
  · rcases c.eq_or_eq_other d with rfl | rfl
    · exact iff_of_true (hmem.2 (hlooked.symm.imp_left (h.started d).2)) hstart
    · rw [hmem_other, hother]
      exact h.started c.other
  · rcases c.eq_or_eq_other d with rfl | rfl
    · rw [hmem, h.finished d, or_iff_right hopen, hcommit]
    · rw [hmem_other, hother]
      exact h.finished c.other
  · rcases c.eq_or_eq_other d with rfl | rfl
    · exact hsettled
    · rw [hother]
      exact (h.settled c.other).mono (adds_concat (event_ne_other c a .lookup)) hcodes
  · rcases c.eq_or_eq_other d with rfl | rfl
    · exact htotal code
    · rw [Till.other_other, htotal code]
      omega

/-- A client adds what it found missing. -/
theorem found_eq_false {found : Bool} {code : ℤ} (h : productExists code t = .ok found) :
    found = false ↔ codeCount code t = 0 := by
  cases found with
  | false => exact iff_of_true rfl (codeCount_eq_zero_of_productExists h)
  | true => simp [codeCount_eq_one h]

/-- **Every step keeps the invariant.** -/
theorem Invariant.step (h : Invariant product t es s) (hstep : PlainStep product s e s') :
    Invariant product t (es ++ [e]) s' := by
  -- a step that only changes the client's phase adds nothing to the table
  have hquiet : ∀ {c a phase}, phase ≠ .committed → ∀ code, codeCount code s.table =
      codeCount code s.table + added product t (es ++ [⟨c, a⟩]) (s.enter c phase) code c := by
    intro c a phase hphase code
    rw [added_of_ne (by rwa [enter_phase_self]), Nat.add_zero]
  cases hstep with
  | look c found hphase hlookup =>
    refine h.enter (enter_phase_other c _) ?_ (.inl rfl) (by simp [hphase]) ?_ ?_
      (fun _ _ => id) (hquiet (by simp))
    · simp
    · simp
    · rw [enter_phase_self]
      exact (found_eq_false hlookup).trans (h.look hphase)
  | update c hphase =>
    have hsettled := h.settled c
    rw [hphase] at hsettled
    have hadds : ¬Adds product t (es ++ [⟨c, .write⟩]) c := by
      rw [adds_concat (by simp)]
      exact fun hadds => by simpa using hsettled.2 hadds
    refine h.enter (enter_phase_other c _) ?_ (.inr (by simp [hphase])) (by simp [hphase]) ?_ ?_
      (fun _ _ => id) (hquiet (by simp))
    · simp
    · simp
    · rw [enter_phase_self]
      exact ⟨hadds, fun i => mem_rowsWith.1⟩
  | insert c hphase =>
    have hsettled := h.settled c
    rw [hphase] at hsettled
    refine h.enter (enter_phase_other c _) ?_ (.inr (by simp [hphase])) (by simp [hphase]) ?_ ?_
      (fun _ _ => id) (hquiet (by simp))
    · simp
    · simp
    · rw [enter_phase_self]
      exact (adds_concat (by simp)).2 (hsettled.1 rfl)
  | commit c t' happly =>
    have hwritten : s.phase c ≠ .start ∧ s.phase c ≠ .committed := by
      constructor <;>
      · intro hphase
        rw [hphase] at happly
        cases happly
    have hphase : ({ s.enter c .committed with table := t' } : Shop).phase c = .committed :=
      enter_phase_self c .committed
    have hadds : Adds product t (es ++ [⟨c, .commit⟩]) c ↔ Adds product t es c :=
      adds_concat (by simp)
    obtain ⟨hcodes, hcount⟩ := (h.settled c).apply happly
    refine h.enter (enter_phase_other c _) ?_ (.inr hwritten.1) hwritten.2 ?_ ?_ hcodes
      fun code => ?_
    · simp
    · simp
    · rw [hphase]
      trivial
    · simp only [hcount, added, enter_phase_self, hadds, true_and]

/-- **Every run keeps the invariant.** -/
theorem invariant_run (hquote : ∀ c, quote ∉ (product c).name)
    (hrun : run (takeStep srv product) (.opened t) es = some s) : Invariant product t es s :=
  run_inv hrun invariant_opened fun _ _ _ _ _ h hstep =>
    h.step (plainStep_of_takeStep hquote hstep)

/-! ## Going on -/

/-- A client that has not committed still finds at most one row of its code. -/
theorem exists_lookup (hdistinct : DistinctCodes t) (h : Invariant product t es s)
    (hopen : s.phase c ≠ .committed) :
    ∃ found, productExists (product c).code s.table = .ok found := by
  have hcount := h.count (product c).code c
  have hle := Keyed.distinct_iff.1 hdistinct (product c).code
  rw [← codeCount_eq] at hle
  rw [added_of_ne hopen, Nat.add_zero, added] at hcount
  have hone : codeCount (product c).code s.table ≤ 1 := by
    split_ifs at hcount with hadded
    · have hnone := hadded.2.2.1
      rw [hadded.2.1] at hnone
      omega
    · omega
  unfold productExists
  split_ifs with h0 h1
  · exact ⟨_, rfl⟩
  · exact ⟨_, rfl⟩
  · omega

/-- **There is no deadlock**: until both have committed, one of the clients can go on. -/
theorem exists_takeStep (hdistinct : DistinctCodes t)
    (hquote : ∀ c, quote ∉ (product c).name)
    (haccepted : ∀ c, ¬(0 ∈ (product c).name ∨ (product c).taxChar = 0 ∨
      (product c).taxChar = quote))
    (h : Invariant product t es s) (hopen : s.phase c ≠ .committed) :
    ∃ e s', takeStep srv product s e = some s' := by
  have hcommit : ∀ {d t'}, (s.phase d).apply (product d) s.table = some t' →
      ∃ e s', takeStep srv product s e = some s' := by
    intro d t' happly
    refine ⟨⟨d, .commit⟩, { s.enter d .committed with table := t' }, ?_⟩
    rw [takeStep_commit, happly]
    rfl
  cases hphase : s.phase c with
  | start =>
    obtain ⟨found, hfound⟩ := exists_lookup hdistinct h hopen
    exact ⟨⟨c, .lookup⟩, s.enter c (.looked found), by simp only [takeStep, hphase, hfound]⟩
  | looked found =>
    cases hsend : sendStatement srv (product c) found s.table (s.phase c.other).held with
    | some phase =>
      refine ⟨⟨c, .write⟩, s.enter c phase, ?_⟩
      simp only [takeStep, hphase, hsend, Option.map_some]
    | none =>
      -- it waits for a row that the other client holds, so that one can commit
      simp only [sendStatement, if_neg (hquote c), if_neg (haccepted c)] at hsend
      split_ifs at hsend with hfound hwaits
      obtain ⟨i, -, hheld⟩ := hwaits
      cases hother : s.phase c.other with
      | updated rows => exact hcommit (d := c.other) (by rw [hother]; rfl)
      | _ =>
        rw [hother] at hheld
        cases hheld
  | updated rows => exact hcommit (d := c) (by rw [hphase]; rfl)
  | inserted => exact hcommit (d := c) (by rw [hphase]; rfl)
  | sent t' => exact hcommit (d := c) (by rw [hphase]; rfl)
  | committed => exact absurd hphase hopen

/-! ## After both commits -/

/-- **The rows of a code** after both commits: the ones it had, and one for each client that
found none. -/
theorem codeCount_committed (h : Invariant product t es s)
    (hcommitted : ∀ c, s.phase c = .committed) (code : ℤ) (c : Till) :
    codeCount code s.table = codeCount code t +
      (if (product c).code = code ∧ Adds product t es c then 1 else 0) +
      (if (product c.other).code = code ∧ Adds product t es c.other then 1 else 0) := by
  simp only [h.count code c, added, hcommitted, true_and]

/-- One code is saved by both, it was new, and each looked it up before the other's
commit. -/
def Raced (product : Till → Product) (t : Table) (es : List Event) : Prop :=
  (product .first).code = (product .second).code ∧ codeCount (product .first).code t = 0 ∧
    ¬Before ⟨.second, .commit⟩ ⟨.first, .lookup⟩ es ∧
    ¬Before ⟨.first, .commit⟩ ⟨.second, .lookup⟩ es

/-- The tills raced when they add the same code. -/
theorem raced_iff : Raced product t es ↔
    (product .first).code = (product .second).code ∧ Adds product t es .first ∧
      Adds product t es .second := by
  constructor
  · rintro ⟨hcode, hnone, hfirst, hsecond⟩
    exact ⟨hcode, ⟨hnone, fun h => hfirst h.2⟩, ⟨hcode ▸ hnone, fun h => hsecond h.2⟩⟩
  · rintro ⟨hcode, hfirst, hsecond⟩
    exact ⟨hcode, hfirst.1, fun h => hfirst.2 ⟨hcode.symm, h⟩, fun h => hsecond.2 ⟨hcode, h⟩⟩

/-- **Two rows of a code** are there exactly after such a race. -/
theorem distinctCodes_committed (hdistinct : DistinctCodes t) (h : Invariant product t es s)
    (hcommitted : ∀ c, s.phase c = .committed) :
    DistinctCodes s.table ↔ ¬Raced product t es := by
  have hcount : ∀ code (t : Table), (Keyed.rowsUnder Row.code code t).length = codeCount code t :=
    fun code t => (codeCount_eq code t).symm
  rw [DistinctCodes, Keyed.distinct_iff] at hdistinct ⊢
  simp only [hcount] at hdistinct ⊢
  rw [raced_iff]
  constructor
  · rintro hone ⟨hcode, hfirst, hsecond⟩
    have htwo := codeCount_committed h hcommitted (product .first).code .first
    rw [if_pos ⟨rfl, hfirst⟩, if_pos ⟨hcode.symm, hsecond⟩] at htwo
    have hle := hone (product .first).code
    omega
  · intro hraced code
    have htotal := codeCount_committed h hcommitted code .first
    have hle := hdistinct code
    split_ifs at htotal with hfirst hsecond hsecond
    · exact absurd ⟨hfirst.1.trans hsecond.1.symm, hfirst.2, hsecond.2⟩ hraced
    · have hnone := hfirst.2.1
      rw [hfirst.1] at hnone
      omega
    · have hnone := hsecond.2.1
      rw [hsecond.1] at hnone
      omega
    · omega

/-! ## The race -/

/-- Both look the bread up before one of them has committed it. -/
def bothLookFirst : List Event :=
  [⟨.first, .lookup⟩, ⟨.second, .lookup⟩, ⟨.first, .write⟩, ⟨.second, .write⟩,
    ⟨.first, .commit⟩, ⟨.second, .commit⟩]

/-- Two tills save the bread into a table without it: it gets two rows, and
`product_exists` fails from then on. -/
theorem bread_created_twice :
    ∃ s, run (takeStep strictServer fun _ => productOf bread) (.opened [milk]) bothLookFirst =
        some s ∧
      DistinctCodes [milk] ∧ (∀ c, s.phase c = .committed) ∧ ¬DistinctCodes s.table ∧
      productExists bread.code s.table = .error .badCount := by
  have hend : (run (takeStep strictServer fun _ => productOf bread) (.opened [milk])
      bothLookFirst).map (fun s => (s.table, s.phase .first, s.phase .second)) =
        some ([milk, bread, bread], .committed, .committed) := by
    decide +kernel
  obtain ⟨s, hrun, hs⟩ := Option.map_eq_some_iff.1 hend
  simp only [Prod.mk.injEq] at hs
  obtain ⟨htable, hfirst, hsecond⟩ := hs
  refine ⟨s, hrun, by decide, ?_, ?_, ?_⟩
  · rintro (_ | _)
    · exact hfirst
    · exact hsecond
  · rw [htable]
    decide
  · rw [htable]
    decide

/-- **No code is created twice**, and `product_exists` keeps working, exactly when the two
tills do not race for a new code: for every table with distinct codes and every
interleaving of two transactions that commit, of products without a quote in their names. -/
theorem two_tills_iff (srv : Server) (product : Till → Product) (t : Table) (es : List Event)
    (s : Shop) (hdistinct : DistinctCodes t) (hquote : ∀ c, quote ∉ (product c).name)
    (hrun : run (takeStep srv product) (.opened t) es = some s)
    (hcommitted : ∀ c, s.phase c = .committed) :
    (DistinctCodes s.table ∧ ∀ code, ∃ found, productExists code s.table = .ok found) ↔
      ¬Raced product t es := by
  have h := invariant_run hquote hrun
  rw [← distinctCodes_iff, and_self_iff]
  exact distinctCodes_committed hdistinct h hcommitted

/-- The second till looks the bread up after the first has committed it. -/
theorem two_tills_bread :
    ∃ s, run (takeStep strictServer fun _ => productOf bread) (.opened [milk])
        (transaction .first ++ transaction .second) = some s ∧
      DistinctCodes s.table ∧ ∀ code, ∃ found, productExists code s.table = .ok found := by
  have hend : (run (takeStep strictServer fun _ => productOf bread) (.opened [milk])
      (transaction .first ++ transaction .second)).map
        (fun s => (s.phase .first, s.phase .second)) = some (.committed, .committed) := by
    decide +kernel
  obtain ⟨s, hrun, hs⟩ := Option.map_eq_some_iff.1 hend
  simp only [Prod.mk.injEq] at hs
  refine ⟨s, hrun, (two_tills_iff strictServer _ [milk] _ s (by decide) (fun _ => by decide) hrun
    ?_).2 ?_⟩
  · rintro (_ | _)
    · exact hs.1
    · exact hs.2
  · rintro ⟨-, -, -, hraced⟩
    exact hraced (by decide)

end CliPos
