import CliPos.Lib.Logging

/-!
# Transactions on one connection

A transaction is an object: constructing it opens it, a commit closes it, and destroying it
while it is open undoes what it did.  Nothing is executed on a closed one, a second commit
has no effect, and a connection has one open transaction at a time.  `step` is that
protocol; a log that it allows, and that leaves nothing uncommitted, obeys the rules of
`Obeys`.  `withWork` is a block that has a transaction in scope, and comes back to where it
started when the block leaves nothing uncommitted.
-/

set_option autoImplicit false

namespace Works

open Protocol Halting Halting.Logged

variable {ω : Type} {v w : ω}

/-- What happens to a transaction. -/
inductive WorkEvent (ω : Type) where
  | construct (w : ω)
  /-- A statement that reads, or fails. -/
  | exec (w : ω)
  /-- A statement that changes the database. -/
  | change (w : ω)
  | commit (w : ω)
  | destroy (w : ω)
  deriving DecidableEq, Repr

/-! ## The rules -/

/-- The transaction was constructed, and neither committed nor destroyed since. -/
def OpenIn (w : ω) (log : List (WorkEvent ω)) : Prop :=
  ∃ l l', log = l ++ .construct w :: l' ∧ .commit w ∉ l' ∧ .destroy w ∉ l'

/-- The transaction is committed before it is destroyed. -/
def CommittedIn (w : ω) (log : List (WorkEvent ω)) : Prop :=
  ∃ l l', log = l ++ .commit w :: l' ∧ .destroy w ∉ l

/-- The rules: none is constructed while another is open, statements are executed on open
ones, and every change is committed. -/
structure Obeys (log : List (WorkEvent ω)) : Prop where
  one_open : ∀ l w l', log = l ++ .construct w :: l' → ∀ v, ¬OpenIn v l
  exec_open : ∀ l w l', log = l ++ .exec w :: l' ∨ log = l ++ .change w :: l' → OpenIn w l
  change_committed : ∀ l w l', log = l ++ .change w :: l' → CommittedIn w l'

/-! ## The protocol -/

/-- A connection: the open transaction, with whether it changed something, and the closed
ones that are not destroyed yet. -/
structure Connection (ω : Type) where
  current : Option (ω × Bool)
  closed : List ω
  deriving DecidableEq

namespace Connection

/-- A new connection. -/
def fresh : Connection ω := ⟨none, []⟩

/-- The open transaction. -/
def work (c : Connection ω) : Option ω := c.current.map Prod.fst

/-- There is no work open. -/
@[simp] theorem work_none (l : List ω) : (⟨none, l⟩ : Connection ω).work = none := rfl

/-- The work that is open. -/
@[simp] theorem work_some (w : ω) (b : Bool) (l : List ω) :
    (⟨some (w, b), l⟩ : Connection ω).work = some w := rfl

/-- Which one is open does not depend on the closed ones. -/
@[simp] theorem work_current (c : Connection ω) (l : List ω) :
    (⟨c.current, l⟩ : Connection ω).work = c.work := rfl

/-- The connection holds no change that is not committed. -/
def Clean (c : Connection ω) : Prop := ∀ w, c.current ≠ some (w, true)

end Connection

/-- The protocol. -/
def step [DecidableEq ω] (c : Connection ω) : WorkEvent ω → Option (Connection ω)
  | .construct w =>
    if c.current = none ∧ w ∉ c.closed then some { c with current := some (w, false) } else none
  | .exec w => if c.work = some w then some c else none
  | .change w => if c.work = some w then some { c with current := some (w, true) } else none
  | .commit w =>
    if w ∈ c.closed then some c
    else if c.work = some w then some ⟨none, w :: c.closed⟩
    else none
  | .destroy w =>
    if w ∈ c.closed then some { c with closed := c.closed.erase w }
    else if c.current = some (w, false) then some { c with current := none }
    else none

/-! ## The protocol keeps the rules -/

/-- At the start no work is open. -/
theorem not_openIn_nil : ¬OpenIn w [] := by
  rintro ⟨l, l', h, -⟩
  cases l <;> cases h

/-- With one event more, a transaction is open when the event constructs it, or when it was
open and the event does not close it. -/
theorem openIn_concat {log : List (WorkEvent ω)} {e : WorkEvent ω} :
    OpenIn w (log ++ [e]) ↔ e = .construct w ∨ OpenIn w log ∧ e ≠ .commit w ∧ e ≠ .destroy w := by
  constructor
  · rintro ⟨l, l', hlog, hcommit, hdestroy⟩
    rcases concat_eq_split.1 hlog with ⟨-, he, -⟩ | ⟨l'', rfl, hsplit⟩
    · exact .inl he.symm
    · simp only [List.mem_append, List.mem_singleton, not_or] at hcommit hdestroy
      exact .inr ⟨⟨l, l'', hsplit, hcommit.1, hdestroy.1⟩, fun h => hcommit.2 h.symm,
        fun h => hdestroy.2 h.symm⟩
  · rintro (rfl | ⟨⟨l, l', rfl, hcommit, hdestroy⟩, hc, hd⟩)
    · exact ⟨log, [], rfl, by simp, by simp⟩
    · refine ⟨l, l' ++ [e], by simp, ?_, ?_⟩
      · simpa using ⟨hcommit, hc.symm⟩
      · simpa using ⟨hdestroy, hd.symm⟩

/-- What was committed stays committed. -/
theorem CommittedIn.concat {log : List (WorkEvent ω)} (h : CommittedIn w log) (e : WorkEvent ω) :
    CommittedIn w (log ++ [e]) := by
  obtain ⟨l, l', rfl, hl⟩ := h
  exact ⟨l, l' ++ [e], by simp, hl⟩

variable {c c' : Connection ω} {log : List (WorkEvent ω)} {e : WorkEvent ω}

/-- What holds of a connection after the events of a log. -/
structure Tracks (log : List (WorkEvent ω)) (c : Connection ω) : Prop where
  not_closed : ∀ w, c.work = some w → w ∉ c.closed
  work : ∀ w, c.work = some w ↔ OpenIn w log
  changed : ∀ l w l', log = l ++ .change w :: l' →
    CommittedIn w l' ∨ c.current = some (w, true) ∧ .destroy w ∉ l'

/-- A fresh connection tracks an empty log. -/
theorem tracks_fresh : Tracks [] (Connection.fresh : Connection ω) where
  not_closed _ h := by cases h
  work w := iff_of_false (by rintro ⟨⟩) not_openIn_nil
  changed l w l' h := by cases l <;> cases h

/-- What an event has to do with the open transaction and with its changes. -/
theorem Tracks.concat (h : Tracks log c) (hclosed : ∀ w, c'.work = some w → w ∉ c'.closed)
    (hwork : ∀ w, c'.work = some w ↔
      e = .construct w ∨ c.work = some w ∧ e ≠ .commit w ∧ e ≠ .destroy w)
    (hnew : ∀ w, e = .change w → c'.current = some (w, true))
    (hkept : ∀ w, c.current = some (w, true) →
      e = .commit w ∨ c'.current = some (w, true) ∧ e ≠ .destroy w) :
    Tracks (log ++ [e]) c' where
  not_closed := hclosed
  work w := by rw [hwork, openIn_concat, h.work]
  changed l w l' hlog := by
    rcases concat_eq_split.1 hlog with ⟨-, he, rfl⟩ | ⟨l'', rfl, hsplit⟩
    · exact .inr ⟨hnew w he.symm, List.not_mem_nil⟩
    · rcases h.changed l w l'' hsplit with hcommitted | ⟨hcurrent, hdestroy⟩
      · exact .inl (hcommitted.concat e)
      · rcases hkept w hcurrent with rfl | ⟨hcurrent', he⟩
        · exact .inl ⟨l'', [], rfl, hdestroy⟩
        · refine .inr ⟨hcurrent', ?_⟩
          simpa using ⟨hdestroy, he.symm⟩

section

variable [DecidableEq ω]

/-- **Every event keeps it.** -/
theorem Tracks.step (h : Tracks log c) (hstep : step c e = some c') : Tracks (log ++ [e]) c' := by
  have hcurrent : ∀ {w b}, c.current = some (w, b) → c.work = some w := by
    intro w b hcurrent
    rw [Connection.work, hcurrent]
    rfl
  have hne : ∀ {w}, w ∈ c.closed → ∀ v, c.work = some v → w ≠ v := by
    rintro w hclosed v hv rfl
    exact h.not_closed w hv hclosed
  cases e with
  | construct w =>
    simp only [Works.step] at hstep
    split_ifs at hstep with hfresh
    obtain rfl := Option.some.inj hstep
    have hnone : c.work = none := by rw [Connection.work, hfresh.1]; rfl
    refine h.concat (fun v hv => ?_) (fun v => ?_) (by simp) fun v hv => ?_
    · obtain rfl := Option.some.inj hv
      exact hfresh.2
    · simp [hnone]
    · rw [hfresh.1] at hv
      cases hv
  | exec w =>
    simp only [Works.step] at hstep
    split_ifs at hstep with hopen
    obtain rfl := Option.some.inj hstep
    exact h.concat h.not_closed (fun v => by simp) (by simp) fun v hv => .inr ⟨hv, by simp⟩
  | change w =>
    simp only [Works.step] at hstep
    split_ifs at hstep with hopen
    obtain rfl := Option.some.inj hstep
    refine h.concat (fun v hv => ?_) (fun v => ?_) (by simp) fun v hv => ?_
    · exact h.not_closed v (hopen.trans hv)
    · simp [hopen]
    · obtain rfl := Option.some.inj (hopen.symm.trans (hcurrent hv))
      exact .inr ⟨rfl, by simp⟩
  | commit w =>
    simp only [Works.step] at hstep
    split_ifs at hstep with hclosed hopen
    · -- it was committed before
      obtain rfl := Option.some.inj hstep
      refine h.concat h.not_closed (fun v => ?_) (by simp) fun v hv => .inr ⟨hv, by simp⟩
      simpa using hne hclosed v
    · obtain rfl := Option.some.inj hstep
      refine h.concat (fun v hv => by cases hv) (fun v => ?_) (by simp) fun v hv => .inl ?_
      · simp [hopen]
      · rw [Option.some.inj (hopen.symm.trans (hcurrent hv))]
  | destroy w =>
    simp only [Works.step] at hstep
    split_ifs at hstep with hclosed hopen
    · obtain rfl := Option.some.inj hstep
      refine h.concat (fun v hv hmem => ?_) (fun v => ?_) (by simp) fun v hv => .inr ⟨hv, ?_⟩
      · exact h.not_closed v hv (List.mem_of_mem_erase hmem)
      · simpa using hne hclosed v
      · simpa using hne hclosed v (hcurrent hv)
    · -- it was open, and changed nothing
      obtain rfl := Option.some.inj hstep
      refine h.concat (fun v hv => by cases hv) (fun v => ?_) (by simp) fun v hv => ?_
      · simp [hcurrent hopen]
      · rw [hopen] at hv
        cases hv

/-- **A log that the protocol allows** obeys the rules, when it leaves nothing
uncommitted. -/
theorem obeys_of_run (hrun : run Works.step .fresh log = some c) (hclean : c.Clean) :
    Obeys log := by
  have htracks : ∀ {l : List (WorkEvent ω)} {c : Connection ω},
      run Works.step .fresh l = some c → Tracks l c := by
    intro l c hrun
    exact run_inv hrun tracks_fresh fun _ _ _ _ _ h hstep => h.step hstep
  have hbefore : ∀ l e l', log = l ++ e :: l' →
      ∃ c c', Tracks l c ∧ Works.step c e = some c' := by
    rintro l e l' rfl
    obtain ⟨c, hl, hrest⟩ := run_append_eq_some.1 hrun
    rw [run_cons] at hrest
    obtain ⟨c', hstep, -⟩ := Option.bind_eq_some_iff.1 hrest
    exact ⟨c, c', htracks hl, hstep⟩
  refine ⟨fun l w l' hlog v hv => ?_, fun l w l' hlog => ?_, fun l w l' hlog => ?_⟩
  · obtain ⟨c, c', ht, hstep⟩ := hbefore l _ l' hlog
    simp only [Works.step] at hstep
    split_ifs at hstep with hfresh
    have hwork := (ht.work v).2 hv
    rw [Connection.work, hfresh.1] at hwork
    cases hwork
  · rcases hlog with hlog | hlog <;>
    · obtain ⟨c, c', ht, hstep⟩ := hbefore l _ l' hlog
      simp only [Works.step] at hstep
      split_ifs at hstep with hopen
      exact (ht.work w).1 hopen
  · rcases (htracks hrun).changed l w l' hlog with hcommitted | ⟨hcurrent, -⟩
    · exact hcommitted
    · exact absurd hcurrent (hclean w)

end

/-! ## A transaction in scope -/

section

variable {ε σ α : Type} {cl : List ω}

/-- A block with a transaction: constructed at its start and destroyed at its end. -/
def withWork (w : ω) (body : Logged ε σ (WorkEvent ω) α) : Logged ε σ (WorkEvent ω) α := do
  emit (.construct w)
  let a ← body
  emit (.destroy w)
  return a

/-- No transaction is open. -/
def Idle (cl : List ω) (c : Connection ω) : Prop := c = ⟨none, cl⟩

/-- The transaction is open and has changed nothing. -/
def Opened (w : ω) (cl : List ω) (c : Connection ω) : Prop := c = ⟨some (w, false), cl⟩

/-- The transaction is open and has changed something. -/
def Changed (w : ω) (cl : List ω) (c : Connection ω) : Prop := c = ⟨some (w, true), cl⟩

/-- The transaction has changed nothing, or is committed. -/
def Closable (w : ω) (cl : List ω) (c : Connection ω) : Prop := Opened w cl c ∨ Idle (w :: cl) c

/-- Without an open work the connection is clean. -/
theorem clean_of_idle {c : Connection ω} (h : Idle cl c) : c.Clean := by
  rintro w hw
  rw [h] at hw
  cases hw

/-- So it is when the open work changed nothing yet. -/
theorem clean_of_opened {c : Connection ω} (h : Opened w cl c) : c.Clean := by
  rintro v hv
  rw [h] at hv
  cases hv

/-- Without the log, a block with a work is the block. -/
@[simp] theorem erased_withWork (w : ω) (body : Logged ε σ (WorkEvent ω) α) :
    erased (withWork w body) = erased body := by
  simp [withWork]

variable [DecidableEq ω]

/-- A part of a computation that follows the protocol of transactions. -/
abbrev Follows (pre post : Connection ω → Prop)
    (x : Logged ε σ (WorkEvent ω) α) : Prop :=
  Logged.Follows Works.step Connection.Clean pre post x

/-- Changing the state moves no work. -/
theorem follows_modify (pre : Connection ω → Prop) (f : σ → σ) :
    Follows pre pre (modify f : Logged ε σ (WorkEvent ω) PUnit) :=
  .modify f

/-- Statements leave a work open. -/
theorem follows_execs (n : ℕ) : Follows (Opened w cl) (Opened w cl)
    (emitTimes n (.exec w) : Logged ε σ (WorkEvent ω) Unit) := by
  refine .emitTimes ?_ n
  rintro c rfl
  simp [step]

/-- A change makes the work one that changed something. -/
theorem follows_change : Follows (Opened w cl) (Changed w cl)
    (emit (.change w) : Logged ε σ (WorkEvent ω) Unit) := by
  refine .emit ?_
  rintro c rfl
  exact ⟨_, by simp [step], rfl⟩

/-- Committing the changes ends the work. -/
theorem follows_commit_changed (hfresh : w ∉ cl) : Follows (Changed w cl) (Idle (w :: cl))
    (emit (.commit w) : Logged ε σ (WorkEvent ω) Unit) := by
  refine .emit ?_
  rintro c rfl
  exact ⟨_, by simp [step, hfresh], rfl⟩

/-- A block may end with its transaction open, when nothing was changed. -/
theorem Follows.left_open {x : Logged ε σ (WorkEvent ω) α} {pre : Connection ω → Prop}
    (hx : Follows pre (Opened w cl) x) : Follows pre (Closable w cl) x :=
  hx.mono fun _ => .inl

/-- A block may end with its transaction committed. -/
theorem Follows.left_committed {x : Logged ε σ (WorkEvent ω) α} {pre : Connection ω → Prop}
    (hx : Follows pre (Idle (w :: cl)) x) : Follows pre (Closable w cl) x :=
  hx.mono fun _ => .inr

/-- A commit closes the transaction, if it is not closed already. -/
theorem follows_commit (hfresh : w ∉ cl) : Follows (Closable w cl) (Idle (w :: cl))
    (emit (.commit w) : Logged ε σ (WorkEvent ω) Unit) := by
  refine .emit ?_
  rintro c (rfl | rfl)
  · exact ⟨_, by simp [step, hfresh], rfl⟩
  · exact ⟨_, by simp [step], rfl⟩

/-- So does committing nothing. -/
theorem follows_commit_opened (hfresh : w ∉ cl) : Follows (Opened w cl) (Idle (w :: cl))
    (emit (.commit w) : Logged ε σ (WorkEvent ω) Unit) :=
  (follows_commit hfresh).of_imp fun _ => .inl

/-- **A block with a transaction** comes back to where it started. -/
theorem follows_withWork {body : Logged ε σ (WorkEvent ω) α} (hfresh : w ∉ cl)
    (hbody : Follows (Opened w cl) (Closable w cl) body) :
    Follows (Idle cl) (Idle cl) (withWork w body) := by
  have hconstruct : Follows (Idle cl) (Opened w cl)
      (emit (.construct w) : Logged ε σ (WorkEvent ω) Unit) := by
    refine .emit ?_
    rintro c rfl
    exact ⟨_, by simp [step, hfresh], rfl⟩
  have hdestroy : Follows (Closable w cl) (Idle cl)
      (emit (.destroy w) : Logged ε σ (WorkEvent ω) Unit) := by
    refine .emit ?_
    rintro c (rfl | rfl)
    · exact ⟨⟨none, cl⟩, by simp [step, hfresh], rfl⟩
    · exact ⟨⟨none, cl⟩, by simp [step], rfl⟩
  exact hconstruct.bind fun _ => hbody.bind fun a => hdestroy.bind fun _ => .pure a

end

end Works
