/-!
# Machines fed with symbols

A machine takes the symbols of a list one by one until it finishes, and leaves the rest of
the list alone.  `feed_inv` is the invariant rule for the states it runs through, and
`feed_eq_finished_iff` splits the list where it finished.
-/

set_option autoImplicit false

namespace Feeding

variable {κ S R : Type} {step : κ → S → S ⊕ R}

/-- What became of a machine: it is running, or it finished with `r` before `rest`. -/
inductive Outcome (κ S R : Type) where
  | running (s : S)
  | finished (r : R) (rest : List κ)

/-- Feed a machine with symbols. -/
def feed (step : κ → S → S ⊕ R) : List κ → S → Outcome κ S R
  | [], s => .running s
  | a :: as, s =>
    match step a s with
    | .inl s' => feed step as s'
    | .inr r => .finished r as

/-- Without symbols the machine stays where it is. -/
@[simp] theorem feed_nil (s : S) : feed step [] s = .running s := rfl

/-- A symbol that leads to a state goes on from there. -/
theorem feed_of_inl {a : κ} {as : List κ} {s s' : S} (h : step a s = .inl s') :
    feed step (a :: as) s = feed step as s' := by
  rw [feed, h]

/-- A symbol that ends the machine leaves the rest. -/
theorem feed_of_inr {a : κ} {as : List κ} {s : S} {r : R} (h : step a s = .inr r) :
    feed step (a :: as) s = .finished r as := by
  rw [feed, h]

/-- **The invariant rule.**  What holds at the start and is kept by every step holds as long
as the machine runs. -/
theorem feed_inv {P : S → Prop} {as : List κ} {s t : S} (h : P s)
    (hstep : ∀ a s s', P s → step a s = .inl s' → P s') (hrun : feed step as s = .running t) :
    P t := by
  induction as generalizing s with
  | nil =>
    cases hrun
    exact h
  | cons a as ih =>
    cases hs : step a s with
    | inl s' =>
      rw [feed_of_inl hs] at hrun
      exact ih (hstep a s s' h hs) hrun
    | inr r =>
      rw [feed_of_inr hs] at hrun
      cases hrun

/-- **A machine finishes** at the symbol that makes it finish. -/
theorem feed_eq_finished_iff {as rest : List κ} {s : S} {r : R} :
    feed step as s = .finished r rest ↔
      ∃ used a t, as = used ++ a :: rest ∧ feed step used s = .running t ∧ step a t = .inr r := by
  induction as generalizing s with
  | nil =>
    constructor
    · intro h
      cases h
    · rintro ⟨used, a, t, has, -, -⟩
      exact absurd has (by simp)
  | cons a as ih =>
    cases hs : step a s with
    | inl s' =>
      rw [feed_of_inl hs, ih]
      constructor
      · rintro ⟨used, b, t, rfl, hrun, hlast⟩
        exact ⟨a :: used, b, t, rfl, by rw [feed_of_inl hs, hrun], hlast⟩
      · rintro ⟨used, b, t, has, hrun, hlast⟩
        cases used with
        | nil =>
          obtain ⟨rfl, rfl⟩ := List.cons.inj has
          cases hrun
          rw [hs] at hlast
          cases hlast
        | cons c used =>
          obtain ⟨rfl, rfl⟩ := List.cons.inj has
          rw [feed_of_inl hs] at hrun
          exact ⟨used, b, t, rfl, hrun, hlast⟩
    | inr r' =>
      rw [feed_of_inr hs]
      constructor
      · rintro ⟨⟩
        exact ⟨[], a, s, rfl, rfl, hs⟩
      · rintro ⟨used, b, t, has, hrun, hlast⟩
        cases used with
        | nil =>
          obtain ⟨rfl, rfl⟩ := List.cons.inj has
          cases hrun
          rw [hs] at hlast
          cases hlast
          rfl
        | cons c used =>
          obtain ⟨rfl, rfl⟩ := List.cons.inj has
          rw [feed_of_inr hs] at hrun
          cases hrun

end Feeding
