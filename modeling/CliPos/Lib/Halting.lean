import Mathlib.Logic.Relation
import Mathlib.Data.Nat.Notation

/-!
# Computations that may halt

A computation is an `EStateM ε σ α`: from a state it either returns a value and a
new state, or halts for good with a reason in `ε`.  Nothing catches a halt, so two
facts about sequencing carry every proof about such programs: what a sequence that
returned did (`bind_eq_ok`), and where a sequence that halted stopped
(`bind_eq_error`).  `OnlyHalts` bounds the reasons a computation can halt for, with a rule
for each way to build one.

On top of it the module has the two loops an event-driven program is made of.

* A **guarded chain** is a list of commands, each run when its guard holds of the
  state it meets: `if (g₁) b₁; if (g₂) b₂; …`, where a body may change what a later
  guard sees.  `Chain.trace` lists the commands that ran, each with the state it
  started from; `Chain.run_inv`, `Chain.steps_of_run` and `Chain.exists_of_run_error` read a
  chain's result off its trace.
* A **loop** repeats a step until it halts.  `Runs ok step` relates a state to every
  state the loop reaches through rounds that started from a state satisfying `ok`;
  `Runs.inv` is its induction rule.  `Trail` also keeps what the rounds left in their traces.
-/

set_option autoImplicit false

namespace Halting

variable {ε σ α β : Type}

/-! ## Sequencing -/

/-- A value is returned in the state there is. -/
@[simp] theorem pure_apply (a : α) (s : σ) :
    (pure a : EStateM ε σ α) s = .ok a s := rfl

/-- Looking at the state returns it. -/
@[simp] theorem get_apply (s : σ) : (get : EStateM ε σ σ) s = .ok s s := rfl

/-- Changing the state returns nothing else. -/
@[simp] theorem modify_apply (f : σ → σ) (s : σ) :
    (modify f : EStateM ε σ PUnit) s = .ok ⟨⟩ (f s) := rfl

/-- Throwing halts in the state there is. -/
@[simp] theorem throw_apply (e : ε) (s : σ) :
    (throw e : EStateM ε σ α) s = .error e s := rfl

/-- A sequence runs its second half where the first returned. -/
theorem bind_apply (x : EStateM ε σ α) (f : α → EStateM ε σ β) (s : σ) :
    (x >>= f) s = match x s with
      | .ok a s' => f a s'
      | .error e s' => .error e s' := rfl

/-- **A sequence that returned** ran its first half to a value and a state, and its
second half from there. -/
theorem bind_eq_ok {x : EStateM ε σ α} {f : α → EStateM ε σ β} {s s' : σ} {b : β} :
    (x >>= f) s = .ok b s' ↔ ∃ a t, x s = .ok a t ∧ f a t = .ok b s' := by
  rw [bind_apply]
  cases h : x s with
  | error e t => simp
  | ok a t =>
    constructor
    · exact fun hf => ⟨a, t, rfl, hf⟩
    · rintro ⟨_, _, ⟨rfl, rfl⟩, hf⟩
      exact hf

/-- Two sequences with the same first half agree where their second halves do. -/
theorem bind_congr_apply {x : EStateM ε σ α} {f g : α → EStateM ε σ β} {s : σ}
    (h : ∀ a t, x s = .ok a t → f a t = g a t) : (x >>= f) s = (x >>= g) s := by
  rw [bind_apply, bind_apply]
  cases hx : x s with
  | error e t => rfl
  | ok a t => exact h a t hx

/-- **A sequence that halted** stopped in its first half, or in its second half after
the first returned. -/
theorem bind_eq_error {x : EStateM ε σ α} {f : α → EStateM ε σ β} {s s' : σ} {e : ε} :
    (x >>= f) s = .error e s' ↔
      x s = .error e s' ∨ ∃ a t, x s = .ok a t ∧ f a t = .error e s' := by
  rw [bind_apply]
  cases h : x s with
  | error d t => simp
  | ok a t =>
    constructor
    · exact fun hf => .inr ⟨a, t, rfl, hf⟩
    · rintro (h' | ⟨_, _, ⟨rfl, rfl⟩, hf⟩)
      · cases h'
      · exact hf

/-! ## Why a computation can halt -/

/-- From any state, `x` halts only for reasons in `P`. -/
def OnlyHalts (P : ε → Prop) (x : EStateM ε σ α) : Prop := ∀ s e s', x s = .error e s' → P e

variable {P Q : ε → Prop}

/-- Returning a value does not halt. -/
theorem onlyHalts_pure (a : α) : OnlyHalts P (pure a : EStateM ε σ α) := by
  rintro s e s' ⟨⟩

/-- Neither does looking at the state. -/
theorem onlyHalts_get : OnlyHalts P (get : EStateM ε σ σ) := by
  rintro s e s' ⟨⟩

/-- Neither does changing it. -/
theorem onlyHalts_modify (f : σ → σ) : OnlyHalts P (modify f : EStateM ε σ PUnit) := by
  rintro s e s' ⟨⟩

/-- Throwing halts for its reason. -/
theorem onlyHalts_throw {e : ε} (h : P e) : OnlyHalts P (throw e : EStateM ε σ α) := by
  rintro s e s' ⟨⟩
  exact h

/-- **A sequence halts only for the reasons of its halves.** -/
theorem onlyHalts_bind {x : EStateM ε σ α} {f : α → EStateM ε σ β} (hx : OnlyHalts P x)
    (hf : ∀ a, OnlyHalts P (f a)) : OnlyHalts P (x >>= f) := by
  intro s e s' h
  rcases bind_eq_error.1 h with h | ⟨a, t, -, h⟩
  · exact hx s e s' h
  · exact hf a t e s' h

/-- Fewer reasons are also among more. -/
theorem OnlyHalts.mono {x : EStateM ε σ α} (hx : OnlyHalts P x) (h : ∀ e, P e → Q e) :
    OnlyHalts Q x :=
  fun s e s' hs => h e (hx s e s' hs)

/-- From the state `s`, `x` halts for a reason in `P`. -/
def HaltsFor (P : ε → Prop) (x : EStateM ε σ α) (s : σ) : Prop :=
  ∃ e s', x s = .error e s' ∧ P e

/-- What returned did not halt. -/
theorem not_haltsFor_of_ok {x : EStateM ε σ α} {a : α} {s s' : σ} (h : x s = .ok a s') :
    ¬HaltsFor P x s := by
  rintro ⟨e, t, ht, -⟩
  rw [h] at ht
  cases ht

/-- Returning a value halts for no reason. -/
@[simp] theorem haltsFor_pure (a : α) (s : σ) :
    ¬HaltsFor P (pure a : EStateM ε σ α) s := not_haltsFor_of_ok rfl

/-- Neither does looking at the state. -/
@[simp] theorem haltsFor_get (s : σ) : ¬HaltsFor P (get : EStateM ε σ σ) s :=
  not_haltsFor_of_ok rfl

/-- Neither does changing it. -/
@[simp] theorem haltsFor_modify (f : σ → σ) (s : σ) :
    ¬HaltsFor P (modify f : EStateM ε σ PUnit) s := not_haltsFor_of_ok rfl

/-- Throwing halts for the reason thrown. -/
@[simp] theorem haltsFor_throw (e : ε) (s : σ) :
    HaltsFor P (throw e : EStateM ε σ α) s ↔ P e := by
  constructor
  · rintro ⟨_, _, ⟨⟩, he⟩
    exact he
  · intro he
    exact ⟨e, s, rfl, he⟩

/-- **A sequence halts** for a reason in its first half, or in its second half after the
first returned. -/
theorem haltsFor_bind {x : EStateM ε σ α} {f : α → EStateM ε σ β} {s : σ} :
    HaltsFor P (x >>= f) s ↔ HaltsFor P x s ∨ ∃ a t, x s = .ok a t ∧ HaltsFor P (f a) t := by
  constructor
  · rintro ⟨e, s', h, he⟩
    rcases bind_eq_error.1 h with h | ⟨a, t, ha, h⟩
    · exact .inl ⟨e, s', h, he⟩
    · exact .inr ⟨a, t, ha, e, s', h, he⟩
  · rintro (⟨e, s', h, he⟩ | ⟨a, t, ha, e, s', h, he⟩)
    · exact ⟨e, s', bind_eq_error.2 (.inl h), he⟩
    · exact ⟨e, s', bind_eq_error.2 (.inr ⟨a, t, ha, h⟩), he⟩

/-- A sequence whose first half returns halts where its second half does. -/
theorem haltsFor_bind_of_ok {x : EStateM ε σ α} {f : α → EStateM ε σ β} {s t : σ} {a : α}
    (h : x s = .ok a t) : HaltsFor P (x >>= f) s ↔ HaltsFor P (f a) t := by
  rw [haltsFor_bind, or_iff_right (not_haltsFor_of_ok h), h]
  constructor
  · rintro ⟨_, _, ⟨⟩, hf⟩
    exact hf
  · intro hf
    exact ⟨a, t, rfl, hf⟩

/-- A computation that only halts for other reasons does not halt for these. -/
theorem OnlyHalts.not_haltsFor {x : EStateM ε σ α} (hx : OnlyHalts P x)
    (h : ∀ e, P e → ¬Q e) (s : σ) : ¬HaltsFor Q x s := by
  rintro ⟨e, s', hs, he⟩
  exact h e (hx s e s' hs) he

/-- Two values that may be missing were both there. -/
theorem except_bind_eq_ok {x : Except ε α} {f : α → Except ε β} {b : β} :
    (x >>= f) = .ok b ↔ ∃ a, x = .ok a ∧ f a = .ok b := by
  cases x with
  | error e => simp [bind, Except.bind]
  | ok a => simp [bind, Except.bind]

/-- A reason that neither half fails for is none for the sequence. -/
theorem except_bind_ne_error {x : Except ε α} {f : α → Except ε β} {e : ε}
    (hx : x ≠ .error e) (hf : ∀ a, f a ≠ .error e) : (x >>= f) ≠ .error e := by
  cases x with
  | error d =>
    intro h
    exact hx (by cases h; rfl)
  | ok a => exact hf a

/-! ## Guarded chains -/

namespace Chain

variable {κ : Type} (guard : κ → σ → Bool) (body : κ → EStateM ε σ Unit)

/-- Run a chain: each command in turn, when its guard holds of the state it meets. -/
def run : List κ → EStateM ε σ Unit
  | [], s => .ok () s
  | c :: cs, s =>
    if guard c s then
      match body c s with
      | .ok () s' => run cs s'
      | .error e s' => .error e s'
    else run cs s

/-- The commands a chain runs, each with the state it starts from. -/
def trace : List κ → σ → List (κ × σ)
  | [], _ => []
  | c :: cs, s =>
    if guard c s then
      (c, s) :: match body c s with
        | .ok () s' => trace cs s'
        | .error _ _ => []
    else trace cs s

variable {guard body}

/-- **Invariants inside a chain.**  A property of the commands still to come and the
state they meet, kept when a command is skipped and when it runs, holds at every
command that runs. -/
theorem inv_of_mem_trace {P : List κ → σ → Prop}
    (hskip : ∀ c cs s, P (c :: cs) s → guard c s = false → P cs s)
    (hrun : ∀ c cs s s', P (c :: cs) s → guard c s = true →
      body c s = .ok () s' → P cs s')
    {cs : List κ} {s : σ} (h : P cs s) {c : κ} {v : σ}
    (hmem : (c, v) ∈ trace guard body cs s) :
    ∃ cs', P (c :: cs') v ∧ guard c v = true := by
  induction cs generalizing s with
  | nil => simp [trace] at hmem
  | cons d ds ih =>
    simp only [trace] at hmem
    cases hg : guard d s with
    | false =>
      simp only [hg, Bool.false_eq_true, if_false] at hmem
      exact ih (hskip d ds s h hg) hmem
    | true =>
      simp only [hg, if_true, List.mem_cons, Prod.mk.injEq] at hmem
      rcases hmem with ⟨rfl, rfl⟩ | hmem
      · exact ⟨ds, h, hg⟩
      · cases hb : body d s with
        | error e s' => simp [hb] at hmem
        | ok u s' =>
          simp only [hb] at hmem
          exact ih (hrun d ds s s' h hg hb) hmem

/-- The state a chain returns satisfies every property of the state it met that each
command it ran kept. -/
theorem run_inv {P : σ → Prop} {cs : List κ} {s s' : σ} (h : P s)
    (hstep : ∀ c v v', (c, v) ∈ trace guard body cs s → P v →
      body c v = .ok () v' → P v')
    (hrun : run guard body cs s = .ok () s') : P s' := by
  induction cs generalizing s with
  | nil =>
    simp only [run, EStateM.Result.ok.injEq, true_and] at hrun
    exact hrun ▸ h
  | cons c cs ih =>
    simp only [run] at hrun
    cases hg : guard c s with
    | false =>
      simp only [hg, Bool.false_eq_true, if_false] at hrun
      refine ih h (fun d v v' hmem => hstep d v v' ?_) hrun
      simpa [trace, hg] using hmem
    | true =>
      simp only [hg, if_true] at hrun
      cases hb : body c s with
      | error e t => simp [hb] at hrun
      | ok u t =>
        simp only [hb] at hrun
        have ht : P t := hstep c s t (by simp [trace, hg]) h hb
        refine ih ht (fun d v v' hmem => hstep d v v' ?_) hrun
        simp [trace, hg, hb, hmem]

/-- The same, at every command that ran. -/
theorem trace_inv {P : σ → Prop} {cs : List κ} {s : σ} (h : P s)
    (hstep : ∀ c v v', (c, v) ∈ trace guard body cs s → P v →
      body c v = .ok () v' → P v')
    {c : κ} {v : σ} (hmem : (c, v) ∈ trace guard body cs s) : P v := by
  induction cs generalizing s with
  | nil => simp [trace] at hmem
  | cons d ds ih =>
    cases hg : guard d s with
    | false =>
      have heq : trace guard body (d :: ds) s = trace guard body ds s := by
        simp [trace, hg]
      rw [heq] at hmem hstep
      exact ih h hstep hmem
    | true =>
      simp only [trace, hg, if_true, List.mem_cons, Prod.mk.injEq] at hmem
      rcases hmem with ⟨rfl, rfl⟩ | hmem
      · exact h
      · cases hb : body d s with
        | error e t => simp [hb] at hmem
        | ok u t =>
          simp only [hb] at hmem
          have ht : P t := hstep d s t (by simp [trace, hg]) h hb
          refine ih ht (fun c v v' hv => hstep c v v' ?_) hmem
          simp [trace, hg, hb, hv]

/-- A chain runs nothing exactly when no guard holds of the state it meets. -/
theorem trace_eq_nil {cs : List κ} {s : σ} :
    trace guard body cs s = [] ↔ ∀ c ∈ cs, guard c s = false := by
  induction cs with
  | nil => simp [trace]
  | cons c cs ih =>
    cases hg : guard c s with
    | false => simp [trace, hg, ih]
    | true => simp [trace, hg]

/-- **The first command of a chain** starts from the state the chain met; the rest of the
chain goes on from where it returned. -/
theorem trace_eq_cons {cs : List κ} {s v : σ} {c : κ} {rest : List (κ × σ)}
    (h : trace guard body cs s = (c, v) :: rest) :
    v = s ∧ guard c s = true ∧ ∃ ds, c :: ds <:+ cs ∧
      rest = match body c s with
        | .ok () s' => trace guard body ds s'
        | .error _ _ => [] := by
  induction cs with
  | nil => cases h
  | cons d ds ih =>
    cases hg : guard d s with
    | false =>
      simp only [trace, hg, Bool.false_eq_true, if_false] at h
      obtain ⟨hv, hc, es, hsuf, hrest⟩ := ih h
      exact ⟨hv, hc, es, hsuf.trans (List.suffix_cons d ds), hrest⟩
    | true =>
      simp only [trace, hg, if_true, List.cons.injEq, Prod.mk.injEq] at h
      obtain ⟨⟨rfl, rfl⟩, hrest⟩ := h
      exact ⟨rfl, hg, ds, List.suffix_refl _, hrest.symm⟩

/-- A chain that runs nothing leaves the state. -/
theorem run_of_trace_nil {cs : List κ} {s : σ} (h : trace guard body cs s = []) :
    run guard body cs s = .ok () s := by
  induction cs with
  | nil => rfl
  | cons c cs ih =>
    have hno := trace_eq_nil.1 h
    rw [run, hno c (by simp)]
    exact ih (trace_eq_nil.2 fun d hd => hno d (by simp [hd]))

/-- A chain that runs one command does what the command does. -/
theorem run_of_trace_singleton {cs : List κ} {s s' v : σ} {c : κ}
    (h : trace guard body cs s = [(c, v)]) (hrun : run guard body cs s = .ok () s') :
    body c v = .ok () s' := by
  induction cs with
  | nil => cases h
  | cons d ds ih =>
    cases hg : guard d s with
    | false =>
      simp only [trace, run, hg, Bool.false_eq_true, if_false] at h hrun
      exact ih h hrun
    | true =>
      simp only [trace, run, hg, if_true, List.cons.injEq, Prod.mk.injEq] at h hrun
      obtain ⟨⟨rfl, rfl⟩, hrest⟩ := h
      cases hb : body d s with
      | error e t => simp [hb] at hrun
      | ok u t =>
        simp only [hb] at hrest hrun
        rw [run_of_trace_nil hrest] at hrun
        exact hrun

/-- `Steps body s es s'`: the commands of `es` return one after another, each from the state it
is listed with, and lead from `s` to `s'`. -/
inductive Steps (body : κ → EStateM ε σ Unit) : σ → List (κ × σ) → σ → Prop
  | nil (s : σ) : Steps body s [] s
  | cons {c : κ} {s t s' : σ} {es : List (κ × σ)} (hbody : body c s = .ok () t)
      (rest : Steps body t es s') : Steps body s ((c, s) :: es) s'

/-- **A chain that returned** made the steps of its trace. -/
theorem steps_of_run {cs : List κ} {s s' : σ} (hrun : run guard body cs s = .ok () s') :
    Steps body s (trace guard body cs s) s' := by
  induction cs generalizing s with
  | nil =>
    cases hrun
    exact .nil s'
  | cons c cs ih =>
    simp only [run, trace] at hrun ⊢
    cases hg : guard c s with
    | false =>
      simp only [hg, Bool.false_eq_true, if_false] at hrun ⊢
      exact ih hrun
    | true =>
      simp only [hg, if_true] at hrun ⊢
      cases hb : body c s with
      | error e t => simp [hb] at hrun
      | ok u t =>
        simp only [hb] at hrun ⊢
        exact .cons hb (ih hrun)

/-- A chain halts only where one of the commands it ran halts. -/
theorem exists_of_run_error {cs : List κ} {s s' : σ} {e : ε}
    (hrun : run guard body cs s = .error e s') :
    ∃ c v, (c, v) ∈ trace guard body cs s ∧ body c v = .error e s' := by
  induction cs generalizing s with
  | nil => simp [run] at hrun
  | cons c cs ih =>
    simp only [run] at hrun
    cases hg : guard c s with
    | false =>
      simp only [hg, Bool.false_eq_true, if_false] at hrun
      simpa [trace, hg] using ih hrun
    | true =>
      simp only [hg, if_true] at hrun
      cases hb : body c s with
      | error e t =>
        simp only [hb] at hrun
        exact ⟨c, s, by simp [trace, hg], by rw [hb, hrun]⟩
      | ok u t =>
        simp only [hb] at hrun
        obtain ⟨d, v, hmem, hd⟩ := ih hrun
        exact ⟨d, v, by simp [trace, hg, hb, hmem], hd⟩

/-- Where a command that ran halts, the chain halts. -/
theorem run_error_of_mem_trace {cs : List κ} {s v v' : σ} {c : κ} {e : ε}
    (hmem : (c, v) ∈ trace guard body cs s) (hbody : body c v = .error e v') :
    run guard body cs s = .error e v' := by
  induction cs generalizing s with
  | nil => simp [trace] at hmem
  | cons d ds ih =>
    cases hg : guard d s with
    | false =>
      simp only [trace, run, hg, Bool.false_eq_true, if_false] at hmem ⊢
      exact ih hmem
    | true =>
      simp only [trace, run, hg, if_true, List.mem_cons, Prod.mk.injEq] at hmem ⊢
      rcases hmem with ⟨rfl, rfl⟩ | hmem
      · rw [hbody]
      · cases hb : body d s with
        | error x t => simp [hb] at hmem
        | ok u t =>
          simp only [hb] at hmem ⊢
          exact ih hmem

end Chain

/-! ## Other reasons to halt -/

section

variable {ε' ε'' : Type} {f : ε → ε'}

/-- Renaming the reasons changes nothing else. -/
theorem adaptExcept_apply (x : EStateM ε σ α) (s : σ) :
    EStateM.adaptExcept f x s = match x s with
      | .ok a t => .ok a t
      | .error e t => .error (f e) t := by
  rw [EStateM.adaptExcept]
  cases x s <;> rfl

/-- **Renaming the reasons to halt** of a sequence renames those of its halves. -/
theorem adaptExcept_bind (x : EStateM ε σ α) (g : α → EStateM ε σ β) :
    EStateM.adaptExcept f (x >>= g) =
      EStateM.adaptExcept f x >>= fun a => EStateM.adaptExcept f (g a) := by
  funext s
  rw [adaptExcept_apply, bind_apply, bind_apply, adaptExcept_apply]
  cases x s with
  | ok a t => exact (adaptExcept_apply (g a) t).symm
  | error e t => rfl

/-- A value has no reason to rename. -/
@[simp] theorem adaptExcept_pure (a : α) :
    EStateM.adaptExcept f (pure a : EStateM ε σ α) = pure a := rfl

/-- Renaming a reason that is thrown. -/
@[simp] theorem adaptExcept_throw (e : ε) :
    EStateM.adaptExcept f (throw e : EStateM ε σ α) = throw (f e) := rfl

/-- Renaming twice. -/
theorem adaptExcept_adaptExcept {g : ε' → ε''} (x : EStateM ε σ α) :
    EStateM.adaptExcept g (EStateM.adaptExcept f x) = EStateM.adaptExcept (fun e => g (f e)) x := by
  funext s
  rw [adaptExcept_apply, adaptExcept_apply, adaptExcept_apply]
  cases x s <;> rfl

/-- Renaming every reason to itself. -/
theorem adaptExcept_id (x : EStateM ε σ α) : EStateM.adaptExcept (fun e => e) x = x := by
  funext s
  rw [adaptExcept_apply]
  cases x s <;> rfl

end

/-! ## Loops -/

/-- `Runs ok step s s'`: repeating `step` from `s` reaches `s'` through rounds that
returned, each from a state satisfying `ok`. -/
def Runs (ok : σ → Prop) (step : EStateM ε σ Unit) : σ → σ → Prop :=
  Relation.ReflTransGen fun s s' => ok s ∧ step s = .ok () s'

namespace Runs

variable {ok : σ → Prop} {step : EStateM ε σ Unit}

/-- **The loop rule.**  What holds at the start and is kept by every round holds in
every state the loop reaches. -/
theorem inv {P : σ → Prop} {s s' : σ} (hrun : Runs ok step s s') (h : P s)
    (hstep : ∀ t t', P t → ok t → step t = .ok () t' → P t') : P s' := by
  induction hrun with
  | refl => exact h
  | tail _ hlast ih => exact hstep _ _ ih hlast.1 hlast.2

/-- One round. -/
theorem single {s s' : σ} (hok : ok s) (h : step s = .ok () s') : Runs ok step s s' :=
  Relation.ReflTransGen.single ⟨hok, h⟩

/-- A run whose rounds satisfy a stronger condition satisfies the weaker one. -/
theorem mono {ok' : σ → Prop} {s s' : σ} (himp : ∀ t, ok t → ok' t)
    (hrun : Runs ok step s s') : Runs ok' step s s' :=
  Relation.ReflTransGen.mono (fun _ _ h => ⟨himp _ h.1, h.2⟩) _ _ hrun

end Runs

/-- `Trail trace step s ts s'`: repeating `step` from `s` reaches `s'`, and `ts` is what the
traces of the rounds list, in order. -/
inductive Trail {τ : Type} (trace : σ → List τ) (step : EStateM ε σ Unit) : σ → List τ → σ → Prop
  | nil (s : σ) : Trail trace step s [] s
  | cons {s t s' : σ} {ts : List τ} (hstep : step s = .ok () t) (rest : Trail trace step t ts s') :
      Trail trace step s (trace s ++ ts) s'

/-- **A loop leaves a trail**, on which all is as its rounds asked for. -/
theorem Runs.exists_trail {τ : Type} {trace : σ → List τ} {step : EStateM ε σ Unit}
    {ok : τ → Prop} {s s' : σ} (hrun : Runs (fun t => ∀ e ∈ trace t, ok e) step s s') :
    ∃ ts, Trail trace step s ts s' ∧ ∀ e ∈ ts, ok e := by
  induction hrun using Relation.ReflTransGen.head_induction_on with
  | refl => exact ⟨[], .nil s', by simp⟩
  | head hround _ ih =>
    obtain ⟨hok, hstep⟩ := hround
    obtain ⟨ts, htrail, hts⟩ := ih
    exact ⟨_, .cons hstep htrail, fun e he => (List.mem_append.1 he).elim (hok e) (hts e)⟩

/-- Why a computation halted, if it did. -/
def haltOf : EStateM.Result ε σ α → Option ε
  | .ok _ _ => none
  | .error e _ => some e

/-- The reason is there exactly when the computation halted for it. -/
theorem haltOf_eq_some {r : EStateM.Result ε σ α} {e : ε} :
    haltOf r = some e ↔ ∃ s, r = .error e s := by
  cases r <;> simp [haltOf]

/-- What a computation returned, with the state it left. -/
def valueOf : EStateM.Result ε σ α → Option (α × σ)
  | .ok a s => some (a, s)
  | .error _ _ => none

/-- The value is there exactly when the computation returned it. -/
theorem valueOf_eq_some {r : EStateM.Result ε σ α} {a : α} {s : σ} :
    valueOf r = some (a, s) ↔ r = .ok a s := by
  cases r <;> simp [valueOf]

/-- Repeat a step `n` times, each time from a state that passes a test. -/
def tryRuns (test : σ → Bool) (step : EStateM ε σ Unit) : ℕ → σ → Option σ
  | 0, s => some s
  | n + 1, s =>
    if test s then
      match step s with
      | .ok _ s' => tryRuns test step n s'
      | .error _ _ => none
    else none

/-- Repeat a step `n` times, and list what the traces of the rounds do. -/
def collect {τ : Type} (trace : σ → List τ) (step : EStateM ε σ Unit) :
    ℕ → σ → Option (List τ × σ)
  | 0, s => some ([], s)
  | n + 1, s =>
    match step s with
    | .ok _ t => (collect trace step n t).map fun r => (trace s ++ r.1, r.2)
    | .error _ _ => none

/-- What is collected is a trail. -/
theorem trail_of_collect {τ : Type} {trace : σ → List τ} {step : EStateM ε σ Unit} {n : ℕ}
    {s s' : σ} {ts : List τ} (h : collect trace step n s = some (ts, s')) :
    Trail trace step s ts s' := by
  induction n generalizing s ts with
  | zero =>
    cases h
    exact .nil s'
  | succ n ih =>
    rw [collect] at h
    cases hs : step s with
    | error e t => simp [hs] at h
    | ok u t =>
      simp only [hs, Option.map_eq_some_iff, Prod.mk.injEq, Prod.exists] at h
      obtain ⟨ts', _, hrest, rfl, rfl⟩ := h
      exact .cons hs (ih hrest)

/-- A run that is tried out is a run. -/
theorem runs_of_tryRuns {test : σ → Bool} {step : EStateM ε σ Unit} {n : ℕ} {s s' : σ}
    (h : tryRuns test step n s = some s') : Runs (fun t => test t = true) step s s' := by
  induction n generalizing s with
  | zero =>
    cases h
    exact Relation.ReflTransGen.refl
  | succ n ih =>
    rw [tryRuns] at h
    cases htest : test s with
    | false => simp [htest] at h
    | true =>
      rw [if_pos htest] at h
      cases hs : step s with
      | error e t => simp [hs] at h
      | ok u t =>
        simp only [hs] at h
        exact Relation.ReflTransGen.head ⟨htest, hs⟩ (ih h)

end Halting
