import CliPos.Lib.Halting
import CliPos.Lib.Protocol

/-!
# Computations with a log

A `Logged` computation may halt, and says which events happened up to where it returned or
halted.  `erased` forgets the events, and turns each way to build such a computation into
the same one without a log.  `Follows` is the other half: from a state of a protocol the
events are allowed one after the other, with a rule for each way to build one.
-/

set_option autoImplicit false

namespace Halting

open Protocol

/-- A computation that may halt, with the events it logs. -/
def Logged (ε σ η α : Type) : Type := σ → EStateM.Result ε σ α × List η

namespace Logged

variable {ε σ η α β κ : Type}

/-- Computations with a log are run one after another. -/
instance : Monad (Logged ε σ η) where
  pure a s := (.ok a s, [])
  bind x f s :=
    match x s with
    | (.ok a t, l) => ((f a t).1, l ++ (f a t).2)
    | (.error e t, l) => (.error e t, l)

/-- A computation that logs nothing. -/
instance : MonadLift (EStateM ε σ) (Logged ε σ η) where
  monadLift m s := (m s, [])

/-- Log an event. -/
def emit (e : η) : Logged ε σ η Unit := fun s => (.ok () s, [e])

/-- Log one event some times. -/
def emitTimes (n : ℕ) (e : η) : Logged ε σ η Unit := fun s => (.ok () s, List.replicate n e)

/-- A chain of commands, each run when its guard holds of the state it meets. -/
def chain (guard : κ → σ → Bool) (body : κ → Logged ε σ η Unit) : List κ → Logged ε σ η Unit
  | [] => pure ()
  | c :: cs => do
    if guard c (← get) then
      body c
      chain guard body cs
    else chain guard body cs

/-- Repeating a computation, with the log so far. -/
def Runs (x : Logged ε σ η Unit) : σ × List η → σ × List η → Prop :=
  Relation.ReflTransGen fun p q => ∃ new, x p.1 = (.ok () q.1, new) ∧ q.2 = p.2 ++ new

/-! ## Without the log -/

/-- The computation without its log. -/
def erased (x : Logged ε σ η α) : EStateM ε σ α := fun s => (x s).1

/-- A value has no log. -/
@[simp] theorem erased_pure (a : α) : erased (pure a : Logged ε σ η α) = pure a := rfl

/-- An event is all log. -/
@[simp] theorem erased_emit (e : η) : erased (emit e : Logged ε σ η Unit) = pure () := rfl

/-- So are several. -/
@[simp] theorem erased_emitTimes (n : ℕ) (e : η) :
    erased (emitTimes n e : Logged ε σ η Unit) = pure () := rfl

/-- A computation without a log is itself. -/
@[simp] theorem erased_lift (m : EStateM ε σ α) : erased (liftM m : Logged ε σ η α) = m := rfl

/-- So is looking at the state. -/
@[simp] theorem erased_get : erased (get : Logged ε σ η σ) = get := rfl

/-- So is changing it. -/
@[simp] theorem erased_modify (f : σ → σ) :
    erased (modify f : Logged ε σ η PUnit) = modify f := rfl

/-- The log of a sequence is that of its halves. -/
@[simp] theorem erased_bind (x : Logged ε σ η α) (f : α → Logged ε σ η β) :
    erased (x >>= f) = erased x >>= fun a => erased (f a) := by
  funext s
  rw [bind_apply]
  simp only [erased, bind]
  rcases x s with ⟨⟨a, t⟩ | ⟨e, t⟩, l⟩ <;> rfl

/-- The log of a branch is that of the branch taken. -/
@[simp] theorem erased_ite (p : Prop) [Decidable p] (x y : Logged ε σ η α) :
    erased (if p then x else y) = if p then erased x else erased y :=
  apply_ite ..

/-- **A chain without its log** is the chain of its commands without theirs. -/
theorem erased_chain (guard : κ → σ → Bool) (body : κ → Logged ε σ η Unit) (cs : List κ) :
    erased (chain guard body cs) = Chain.run guard (fun c => erased (body c)) cs := by
  induction cs with
  | nil => rfl
  | cons c cs ih =>
    funext s
    simp only [chain, erased_bind, erased_get, erased_ite, ih]
    rw [bind_apply, get_apply]
    simp only [Chain.run]
    split_ifs
    · rw [bind_apply]
      cases (body c).erased s <;> rfl
    · rfl

/-- **A run without its log** is a run, and every run has a log. -/
theorem runs_erased {ok : σ → Prop} {x : Logged ε σ η Unit} {s s' : σ} (hok : ∀ s, ok s)
    (l : List η) : Halting.Runs ok (erased x) s s' ↔ ∃ l', Runs x (s, l) (s', l') := by
  constructor
  · intro h
    induction h with
    | refl => exact ⟨l, .refl⟩
    | @tail t u _ hround ih =>
      obtain ⟨l', hl'⟩ := ih
      refine ⟨l' ++ (x t).2, hl'.tail ⟨(x t).2, ?_, rfl⟩⟩
      exact Prod.ext hround.2 rfl
  · rintro ⟨l', h⟩
    have hrun : ∀ p q, Runs x p q → Halting.Runs ok (erased x) p.1 q.1 := by
      intro p q h
      induction h with
      | refl => exact .refl
      | tail _ hround ih =>
        obtain ⟨new, hx, -⟩ := hround
        exact ih.tail ⟨hok _, congrArg Prod.fst hx⟩
    exact hrun _ _ h

/-! ## What is logged -/

/-- Every event that `x` logs from a state is one of `ok`. -/
def AllLogged (ok : η → Prop) (x : Logged ε σ η α) (s : σ) : Prop := ∀ e ∈ (x s).2, ok e

section

variable {ok : η → Prop} {x : Logged ε σ η α} {f : α → Logged ε σ η β} {s t : σ} {a : α}

/-- **A sequence logs** what its first half logs, and the second where the first returned. -/
theorem allLogged_bind : AllLogged ok (x >>= f) s ↔
    AllLogged ok x s ∧ ∀ a t, erased x s = .ok a t → AllLogged ok (f a) t := by
  unfold AllLogged erased
  simp only [bind]
  rcases x s with ⟨⟨a, t⟩ | ⟨e, t⟩, l⟩
  · simp only [List.forall_mem_append, EStateM.Result.ok.injEq, and_imp, forall_apply_eq_imp_iff,
      forall_eq']
  · simp

/-- After a first half that returned, both halves have to log as asked. -/
theorem allLogged_bind_of_ok (h : erased x s = .ok a t) :
    AllLogged ok (x >>= f) s ↔ AllLogged ok x s ∧ AllLogged ok (f a) t := by
  rw [allLogged_bind]
  refine and_congr_right fun _ => ⟨fun hf => hf a t h, fun hf b u hb => ?_⟩
  rw [h] at hb
  cases hb
  exact hf

/-- A value logs nothing. -/
@[simp] theorem allLogged_pure : AllLogged ok (pure a : Logged ε σ η α) s := by
  simp [AllLogged, pure]

/-- An event has to be as asked. -/
@[simp] theorem allLogged_emit {e : η} :
    AllLogged ok (emit e : Logged ε σ η Unit) s ↔ ok e := by
  simp [AllLogged, emit]

/-- A computation without a log logs nothing. -/
@[simp] theorem allLogged_lift {m : EStateM ε σ α} :
    AllLogged ok (liftM m : Logged ε σ η α) s :=
  fun _ h => absurd h List.not_mem_nil

/-- What follows a computation that logs nothing. -/
theorem allLogged_lift_bind {m : EStateM ε σ α} (h : m s = .ok a t) :
    AllLogged ok (liftM m >>= f) s ↔ AllLogged ok (f a) t := by
  have hlift : erased (liftM m : Logged ε σ η α) s = .ok a t := h
  rw [allLogged_bind_of_ok hlift, and_iff_right allLogged_lift]

/-- Neither does looking at the state. -/
@[simp] theorem allLogged_get : AllLogged ok (get : Logged ε σ η σ) s :=
  fun _ h => absurd h List.not_mem_nil

end

/-! ## Following a protocol -/

/-- From every state of `pre` the protocol allows the events that `x` logs, and they lead to
a state of `post`, or to one of `halted` when `x` halts. -/
def Follows (step : κ → η → Option κ) (halted pre post : κ → Prop) (x : Logged ε σ η α) : Prop :=
  ∀ s c, pre c → ∃ c', run step c (x s).2 = some c' ∧
    match (x s).1 with
    | .ok _ _ => post c'
    | .error _ _ => halted c'

namespace Follows

variable {step : κ → η → Option κ} {halted P Q R : κ → Prop} {x y : Logged ε σ η α}
  {f : α → Logged ε σ η β}

/-- A value moves no protocol. -/
protected theorem pure (a : α) : Follows step halted P P (pure a : Logged ε σ η α) :=
  fun _ c hc => ⟨c, rfl, hc⟩

/-- Neither does looking at the state. -/
protected theorem get : Follows step halted P P (get : Logged ε σ η σ) :=
  fun _ c hc => ⟨c, rfl, hc⟩

/-- Neither does changing it. -/
protected theorem modify (f : σ → σ) :
    Follows step halted P P (modify f : Logged ε σ η PUnit) :=
  fun _ c hc => ⟨c, rfl, hc⟩

/-- A computation that logs nothing may halt where the protocol is in a state of
`halted`. -/
protected theorem lift (m : EStateM ε σ α) (h : ∀ c, P c → halted c) :
    Follows step halted P P (liftM m : Logged ε σ η α) := by
  intro s c hc
  refine ⟨c, rfl, ?_⟩
  cases hm : m s with
  | ok a t => simpa [liftM, monadLift, MonadLift.monadLift, hm] using hc
  | error e t => simpa [liftM, monadLift, MonadLift.monadLift, hm] using h c hc

/-- What halts leads nowhere else. -/
protected theorem throw (e : ε) (h : ∀ c, P c → halted c) :
    Follows step halted P Q (liftM (throw e : EStateM ε σ α) : Logged ε σ η α) :=
  fun _ c hc => ⟨c, rfl, h c hc⟩

/-- An event makes the step of its protocol. -/
protected theorem emit {e : η} (h : ∀ c, P c → ∃ c', step c e = some c' ∧ Q c') :
    Follows step halted P Q (emit e : Logged ε σ η Unit) := by
  intro s c hc
  obtain ⟨c', hstep, hc'⟩ := h c hc
  exact ⟨c', by simp [Logged.emit, run_cons, hstep], hc'⟩

/-- An event that changes nothing can be repeated. -/
protected theorem emitTimes {e : η} (h : ∀ c, P c → step c e = some c) (n : ℕ) :
    Follows step halted P P (emitTimes n e : Logged ε σ η Unit) := by
  intro s c hc
  refine ⟨c, ?_, hc⟩
  induction n with
  | zero => rfl
  | succ n ih =>
    simp only [Logged.emitTimes, List.replicate_succ, run_cons, h c hc, Option.bind_some] at ih ⊢
    exact ih

/-- **A sequence follows the protocol** when its halves do. -/
protected theorem bind (hx : Follows step halted P Q x) (hf : ∀ a, Follows step halted Q R (f a)) :
    Follows step halted P R (x >>= f) := by
  intro s c hc
  obtain ⟨c', hrun, hpost⟩ := hx s c hc
  simp only [bind]
  rcases hxs : x s with ⟨⟨a, t⟩ | ⟨e, t⟩, l⟩
  · simp only [hxs] at hrun hpost
    obtain ⟨c'', hrun', hpost'⟩ := hf a t c' hpost
    exact ⟨c'', run_append_eq_some.2 ⟨c', hrun, hrun'⟩, hpost'⟩
  · simp only [hxs] at hrun hpost
    exact ⟨c', hrun, hpost⟩

/-- What holds afterwards may be weakened. -/
theorem mono (hx : Follows step halted P Q x) (hpost : ∀ c, Q c → R c) :
    Follows step halted P R x := by
  intro s c hc
  obtain ⟨c', hrun, hend⟩ := hx s c hc
  refine ⟨c', hrun, ?_⟩
  cases hxs : (x s).1 with
  | ok a t => exact hpost c' (by simpa [hxs] using hend)
  | error e t => simpa [hxs] using hend

/-- What is asked for may be strengthened. -/
theorem of_imp (hx : Follows step halted Q R x) (hpre : ∀ c, P c → Q c) :
    Follows step halted P R x :=
  fun s c hc => hx s c (hpre c hc)

/-- A branch follows the protocol when both do. -/
protected theorem ite {p : Prop} [Decidable p] (hx : p → Follows step halted P Q x)
    (hy : ¬p → Follows step halted P Q y) : Follows step halted P Q (if p then x else y) := by
  split_ifs with h
  · exact hx h
  · exact hy h

/-- **A chain follows the protocol** when each of its commands comes back to where it
started. -/
protected theorem chain {ι : Type} {guard : ι → σ → Bool} {body : ι → Logged ε σ η Unit}
    {cs : List ι} (h : ∀ c ∈ cs, Follows step halted P P (body c)) :
    Follows step halted P P (chain guard body cs) := by
  induction cs with
  | nil => exact .pure ()
  | cons c cs ih =>
    have hrest := ih fun d hd => h d (by simp [hd])
    exact Follows.get.bind fun s =>
      .ite (fun _ => (h c (by simp)).bind fun _ => hrest) fun _ => hrest

/-- **A run follows the protocol** when each of its rounds comes back to where it
started. -/
theorem runs {x : Logged ε σ η Unit} (h : Follows step halted P P x) {p q : σ × List η} {c₀ c : κ}
    (hrun : Runs x p q) (hc : P c) (hlog : run step c₀ p.2 = some c) :
    ∃ c', run step c₀ q.2 = some c' ∧ P c' := by
  induction hrun with
  | refl => exact ⟨c, hlog, hc⟩
  | tail _ hround ih =>
    obtain ⟨c', hlog', hc'⟩ := ih
    obtain ⟨new, hx, hq⟩ := hround
    obtain ⟨c'', hnew, hend⟩ := h _ c' hc'
    rw [hx] at hnew hend
    exact ⟨c'', hq ▸ run_append_eq_some.2 ⟨c', hlog', hnew⟩, hend⟩

end Follows

end Logged

end Halting
