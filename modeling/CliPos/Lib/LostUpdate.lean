import CliPos.Lib.Protocol

/-!
# Lost updates

A shared value that each of two clients reads once, and overwrites once with an edit of what
it read.  Who read before the other's commit settles the value that both leave
(`value_last`), so an edit is lost exactly when the client that commits last had not seen
it, and it was not in the value from the start (`kept_iff`).
-/

set_option autoImplicit false

namespace LostUpdate

open Protocol

/-- The steps of a client. -/
inductive Op where
  | read
  | commit
  deriving DecidableEq

/-- A step of one of the clients. -/
structure Event (κ : Type) where
  client : κ
  op : Op
  deriving DecidableEq

/-- How far a client is. -/
inductive Phase (V : Type) where
  | idle
  /-- The client read this value. -/
  | read (seen : V)
  | done

/-- The shared value and the clients. -/
structure State (κ V : Type) where
  value : V
  phase : κ → Phase V

variable {κ V : Type} [DecidableEq κ] {edit : κ → V → V} {v : V} {s s' : State κ V}
  {e : Event κ} {es : List (Event κ)} {c d : κ}

/-- Nobody has read the value yet. -/
def State.opened (v : V) : State κ V where
  value := v
  phase _ := .idle

/-- A client is in another phase. -/
def State.enter (s : State κ V) (c : κ) (phase : Phase V) : State κ V :=
  { s with phase := Function.update s.phase c phase }

/-- One step of a client: its commit overwrites the value with an edit of what it read. -/
def step (edit : κ → V → V) (s : State κ V) (e : Event κ) : Option (State κ V) :=
  match s.phase e.client, e.op with
  | .idle, .read => some (s.enter e.client (.read s.value))
  | .read seen, .commit => some { s.enter e.client .done with value := edit e.client seen }
  | _, _ => none

/-- Entering a phase leaves the value. -/
@[simp] theorem enter_value (s : State κ V) (c : κ) (phase : Phase V) :
    (s.enter c phase).value = s.value :=
  rfl

/-- The client is in the phase it entered. -/
@[simp] theorem enter_phase_self (s : State κ V) (c : κ) (phase : Phase V) :
    (s.enter c phase).phase c = phase :=
  Function.update_self ..

/-- The others stay in theirs. -/
theorem enter_phase_of_ne (s : State κ V) (phase : Phase V) (h : d ≠ c) :
    (s.enter c phase).phase d = s.phase d :=
  Function.update_of_ne h ..

/-! ## One step -/

/-- What the steps do. -/
inductive Step (edit : κ → V → V) (s : State κ V) : Event κ → State κ V → Prop
  | read (c : κ) (phase : s.phase c = .idle) :
      Step edit s ⟨c, .read⟩ (s.enter c (.read s.value))
  | commit (c : κ) (seen : V) (phase : s.phase c = .read seen) :
      Step edit s ⟨c, .commit⟩ { s.enter c .done with value := edit c seen }

/-- **Every step** is one of these. -/
theorem step_cases (h : step edit s e = some s') : Step edit s e s' := by
  obtain ⟨c, op⟩ := e
  cases hphase : s.phase c <;> cases op <;> simp only [step, hphase] at h
  case idle.read => exact Option.some.inj h ▸ .read c hphase
  case read.commit seen => exact Option.some.inj h ▸ .commit c seen hphase
  all_goals cases h

/-! ## What a client saw -/

/-- The value that the client `d` read, when `c` is the other: with the edit of `c` in it if
that had been committed. -/
def seenBy (edit : κ → V → V) (v : V) (es : List (Event κ)) (c d : κ) : V :=
  if Before ⟨c, .commit⟩ ⟨d, .read⟩ es then edit c v else v

/-- Only its own reading settles what a client saw. -/
theorem seenBy_concat (h : e ≠ ⟨d, .read⟩) :
    seenBy edit v (es ++ [e]) c d = seenBy edit v es c d := by
  have hbefore : Before ⟨c, .commit⟩ ⟨d, .read⟩ (es ++ [e]) ↔
      Before ⟨c, .commit⟩ ⟨d, .read⟩ es := by
    rw [before_concat, or_iff_left]
    exact fun hnew => h hnew.2.symm
  simp only [seenBy, hbefore]

/-- A client that reads before anything else sees the value from the start. -/
theorem seenBy_of_notMem (h : ⟨c, .commit⟩ ∉ es) : seenBy edit v es c d = v :=
  if_neg fun hbefore => h hbefore.mem_left

/-! ## The invariant -/

/-- The phases are the steps taken; a client that read has seen what its place among the
events says; and the value is the edit of the client that committed last. -/
structure Invariant (edit : κ → V → V) (v : V) (es : List (Event κ)) (s : State κ V) :
    Prop where
  idle : ∀ c, s.phase c = .idle ↔ ⟨c, .read⟩ ∉ es
  done : ∀ c, s.phase c = .done ↔ ⟨c, .commit⟩ ∈ es
  seen : ∀ c d seen, c ≠ d → s.phase d = .read seen → seen = seenBy edit v es c d
  start : (∀ c, ⟨c, .commit⟩ ∉ es) → s.value = v
  last : ∀ c d, c ≠ d → ⟨d, .commit⟩ ∈ es →
    (⟨c, .commit⟩ ∈ es → Before ⟨c, .commit⟩ ⟨d, .commit⟩ es) →
      s.value = edit d (seenBy edit v es c d)

/-- The invariant holds at the start. -/
theorem invariant_opened : Invariant edit v [] (.opened v) where
  idle c := iff_of_true rfl List.not_mem_nil
  done c := iff_of_false (by rintro ⟨⟩) List.not_mem_nil
  seen c d seen _ h := by cases h
  start _ := rfl
  last c d _ h := absurd h List.not_mem_nil

/-- A client that is not done has not committed. -/
theorem Invariant.notMem_commit (h : Invariant edit v es s) (hphase : s.phase c ≠ .done) :
    ⟨c, .commit⟩ ∉ es :=
  fun hmem => hphase ((h.done c).2 hmem)

/-- **What an idle client is about to read.** -/
theorem Invariant.value_of_idle (h : Invariant edit v es s) (htwo : ∀ x, x = c ∨ x = d)
    (hne : c ≠ d) (hphase : s.phase d = .idle) :
    s.value = if ⟨c, .commit⟩ ∈ es then edit c v else v := by
  have hd : ⟨d, .commit⟩ ∉ es := h.notMem_commit (by simp [hphase])
  split_ifs with hc
  · rw [h.last d c hne.symm hc fun hmem => absurd hmem hd, seenBy_of_notMem hd]
  · refine h.start fun x => ?_
    rcases htwo x with rfl | rfl
    · exact hc
    · exact hd

/-- **A reading keeps the invariant.** -/
theorem Invariant.read (htwo : ∀ x y z : κ, x ≠ y → z = x ∨ z = y)
    (h : Invariant edit v es s) (hphase : s.phase c = .idle) :
    Invariant edit v (es ++ [⟨c, .read⟩]) (s.enter c (.read s.value)) := by
  have hcommit : ∀ x, (⟨x, .commit⟩ : Event κ) ∈ es ++ [⟨c, .read⟩] ↔ ⟨x, .commit⟩ ∈ es := by
    simp
  have hopen : (⟨c, .commit⟩ : Event κ) ∉ es := h.notMem_commit (by simp [hphase])
  refine ⟨fun x => ?_, fun x => ?_, fun x y seen hne hy => ?_, fun hnone => ?_,
    fun x y hne hmem hlast => ?_⟩
  · by_cases hx : x = c
    · subst hx
      simp
    · simp [enter_phase_of_ne _ _ hx, h.idle x, hx]
  · rw [hcommit, ← h.done x]
    by_cases hx : x = c
    · subst hx
      simp [hphase]
    · rw [enter_phase_of_ne _ _ hx]
  · by_cases hyc : y = c
    · -- what it reads now is the value that the other has committed, if it has
      subst hyc
      rw [enter_phase_self, Phase.read.injEq] at hy
      have hnew : (⟨y, .read⟩ : Event κ) ∉ es := (h.idle y).1 hphase
      have hbefore : Before ⟨x, .commit⟩ ⟨y, .read⟩ (es ++ [⟨y, .read⟩]) ↔
          ⟨x, .commit⟩ ∈ es := by
        rw [before_concat, or_iff_right fun hb => hnew hb.mem_right]
        exact and_iff_left rfl
      rw [← hy, h.value_of_idle (fun z => htwo x y z hne) hne hphase]
      simp only [seenBy, hbefore]
    · rw [enter_phase_of_ne _ _ hyc] at hy
      rw [seenBy_concat fun heq => hyc (congrArg Event.client heq).symm]
      exact h.seen x y seen hne hy
  · exact h.start fun x hmem => hnone x ((hcommit x).2 hmem)
  · rw [hcommit] at hmem hlast
    have hyc : y ≠ c := fun hyc => hopen (hyc ▸ hmem)
    rw [seenBy_concat fun heq => hyc (congrArg Event.client heq).symm]
    refine h.last x y hne hmem fun hx => ?_
    exact (before_concat.1 (hlast hx)).resolve_right (by simp)

/-- **A commit keeps the invariant.** -/
theorem Invariant.commit (htwo : ∀ x y z : κ, x ≠ y → z = x ∨ z = y)
    (h : Invariant edit v es s) {seen : V} (hphase : s.phase c = .read seen) :
    Invariant edit v (es ++ [⟨c, .commit⟩]) { s.enter c .done with value := edit c seen } := by
  have hread : ∀ x, (⟨x, .read⟩ : Event κ) ∈ es ++ [⟨c, .commit⟩] ↔ ⟨x, .read⟩ ∈ es := by
    simp
  have hopen : (⟨c, .commit⟩ : Event κ) ∉ es := h.notMem_commit (by simp [hphase])
  have hseen : ∀ x y, seenBy edit v (es ++ [⟨c, .commit⟩]) x y = seenBy edit v es x y :=
    fun x y => seenBy_concat (by simp)
  refine ⟨fun x => ?_, fun x => ?_, fun x y seen' hne hy => ?_, fun hnone => ?_,
    fun x y hne hmem hlast => ?_⟩
  · rw [hread, ← h.idle x]
    by_cases hx : x = c
    · subst hx
      simp [hphase]
    · simp only [enter_phase_of_ne _ _ hx]
  · by_cases hx : x = c
    · subst hx
      simp
    · simp [enter_phase_of_ne _ _ hx, h.done x, hx]
  · rw [hseen]
    by_cases hyc : y = c
    · subst hyc
      simp at hy
    · simp only [enter_phase_of_ne _ _ hyc] at hy
      exact h.seen x y seen' hne hy
  · exact absurd (hnone c) (by simp)
  · rw [hseen]
    by_cases hyc : y = c
    · subst hyc
      exact congrArg (edit y) (h.seen x y seen hne hphase)
    · -- the one that just committed is not the earlier of the two
      have hxc : x = c := (htwo x y c hne).elim Eq.symm fun hcy => absurd hcy.symm hyc
      subst hxc
      have hbefore := hlast (by simp)
      rw [before_concat, or_iff_left (by simp [hyc])] at hbefore
      exact absurd hbefore.mem_left hopen

/-- **Every step keeps the invariant.** -/
theorem Invariant.step (htwo : ∀ x y z : κ, x ≠ y → z = x ∨ z = y)
    (h : Invariant edit v es s) (hstep : Step edit s e s') :
    Invariant edit v (es ++ [e]) s' := by
  cases hstep with
  | read c hphase => exact h.read htwo hphase
  | commit c seen hphase => exact h.commit htwo hphase

/-- **Every run keeps the invariant.** -/
theorem invariant_run (htwo : ∀ x y z : κ, x ≠ y → z = x ∨ z = y)
    (hrun : run (step edit) (.opened v) es = some s) : Invariant edit v es s :=
  run_inv hrun invariant_opened fun _ _ _ _ _ h hstep => h.step htwo (step_cases hstep)

/-! ## After both commits -/

variable {holds : κ → V → Prop}

/-- **The value that two clients leave** is the edit of the later one, of what it saw. -/
theorem value_last (htwo : ∀ x y z : κ, x ≠ y → z = x ∨ z = y)
    (hrun : run (step edit) (.opened v) es = some s) (hne : c ≠ d)
    (hlast : Before ⟨c, .commit⟩ ⟨d, .commit⟩ es) :
    s.value = edit d (seenBy edit v es c d) :=
  (invariant_run htwo hrun).last c d hne hlast.mem_right fun _ => hlast

/-- **An edit is kept** when the client that commits last saw it, or the value had it from
the start; provided that neither edit touches what the other one settles. -/
theorem kept_iff (htwo : ∀ x y z : κ, x ≠ y → z = x ∨ z = y)
    (hself : ∀ c v, holds c (edit c v))
    (hother : ∀ c d v, c ≠ d → (holds c (edit d v) ↔ holds c v))
    (hrun : run (step edit) (.opened v) es = some s) (hne : c ≠ d)
    (hlast : Before ⟨c, .commit⟩ ⟨d, .commit⟩ es) :
    (∀ x, holds x s.value) ↔ Before ⟨c, .commit⟩ ⟨d, .read⟩ es ∨ holds c v := by
  have hboth : (∀ x, holds x s.value) ↔ holds c (seenBy edit v es c d) := by
    rw [value_last htwo hrun hne hlast]
    constructor
    · intro h
      exact (hother c d _ hne).1 (h c)
    · intro h x
      rcases htwo c d x hne with rfl | rfl
      · exact (hother x d _ hne).2 h
      · exact hself x _
  rw [hboth, seenBy]
  split_ifs with hsaw
  · exact iff_of_true (hself c v) (.inl hsaw)
  · exact (or_iff_right hsaw).symm

end LostUpdate
