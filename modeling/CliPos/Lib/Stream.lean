import CliPos.Lib.Halting

/-!
# Computations that read a stream

A computation over a list of symbols *streams* when it returns after reading some first
symbols, and what it does then depends on these alone.  So more symbols behind the input
change nothing (`Streams.append`), and a computation that stopped inside an input reads
past it when it is given more (`Streams.past`).
-/

set_option autoImplicit false

namespace Halting

variable {ε κ α β : Type} {m : EStateM ε (List κ) α}

/-- The computation reads these symbols, returns `a` and leaves the rest alone. -/
def Consumes (m : EStateM ε (List κ) α) (used : List κ) (a : α) : Prop :=
  ∀ more, m (used ++ more) = .ok a more

/-- Wherever the computation returns, it has consumed what it read. -/
def Streams (m : EStateM ε (List κ) α) : Prop :=
  ∀ keys a rest, m keys = .ok a rest → ∃ used, keys = used ++ rest ∧ Consumes m used a

/-- The computation reads at least one symbol. -/
def ReadsSome (m : EStateM ε (List κ) α) : Prop :=
  ∀ keys a rest, m keys = .ok a rest → rest.length < keys.length

namespace Streams

/-- Reading makes the input no longer. -/
theorem length_le (h : Streams m) {keys rest : List κ} {a : α} (hok : m keys = .ok a rest) :
    rest.length ≤ keys.length := by
  obtain ⟨used, rfl, -⟩ := h keys a rest hok
  simp

/-- **More symbols behind the input change nothing.** -/
theorem append (h : Streams m) {keys rest : List κ} {a : α} (hok : m keys = .ok a rest)
    (more : List κ) : m (keys ++ more) = .ok a (rest ++ more) := by
  obtain ⟨used, rfl, hused⟩ := h keys a rest hok
  rw [List.append_assoc]
  exact hused (rest ++ more)

/-- **A computation that did not return inside an input** reads past it. -/
theorem past (h : Streams m) {keys more rest : List κ} {a : α}
    (hno : ∀ a rest, m keys ≠ .ok a rest) (hok : m (keys ++ more) = .ok a rest) :
    rest.length < more.length := by
  obtain ⟨used, hsplit, hused⟩ := h _ a rest hok
  refine Nat.lt_of_not_le fun hle => ?_
  have hlen : used.length ≤ keys.length := by
    have h := congrArg List.length hsplit
    rw [List.length_append, List.length_append] at h
    omega
  obtain ⟨left, rfl⟩ := List.prefix_of_prefix_length_le (hsplit ▸ List.prefix_append used rest)
    (List.prefix_append keys more) hlen
  exact hno a left (hused left)

/-- A value reads nothing. -/
protected theorem pure (a : α) : Streams (pure a : EStateM ε (List κ) α) := by
  rintro keys _ _ ⟨⟩
  exact ⟨[], rfl, fun _ => rfl⟩

/-- What halts returns nothing that was read. -/
protected theorem throw (e : ε) : Streams (throw e : EStateM ε (List κ) α) := by
  rintro _ _ _ ⟨⟩

/-- **A sequence streams** when its halves do. -/
protected theorem bind {f : α → EStateM ε (List κ) β} (hm : Streams m) (hf : ∀ a, Streams (f a)) :
    Streams (m >>= f) := by
  intro keys b rest h
  obtain ⟨a, middle, hfirst, hsecond⟩ := bind_eq_ok.1 h
  obtain ⟨used, rfl, hused⟩ := hm keys a middle hfirst
  obtain ⟨used', rfl, hused'⟩ := hf a middle b rest hsecond
  refine ⟨used ++ used', (List.append_assoc ..).symm, fun more => ?_⟩
  rw [List.append_assoc]
  exact bind_eq_ok.2 ⟨a, used' ++ more, hused _, hused' more⟩

end Streams

/-- A sequence reads something when its first half does. -/
theorem ReadsSome.bind {f : α → EStateM ε (List κ) β} (hm : ReadsSome m) (hf : ∀ a, Streams (f a)) :
    ReadsSome (m >>= f) := by
  intro keys b rest h
  obtain ⟨a, middle, hfirst, hsecond⟩ := bind_eq_ok.1 h
  have h1 := hm keys a middle hfirst
  have h2 := (hf a).length_le hsecond
  omega

end Halting
