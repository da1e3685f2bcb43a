import Mathlib.Data.List.Induction

/-!
# Protocols

A protocol says which events a state allows and where they lead: a partial step function.
`run` follows a list of events for as long as each is allowed, and `run_inv` is the
induction over the events so far, one event at a time at their end.  `Before` is the order
of two events in such a list.
-/

set_option autoImplicit false

namespace Protocol

variable {σ ε : Type} {step : σ → ε → Option σ} {s s' : σ} {e : ε} {es es' : List ε}

/-- The state after the events, when each of them was allowed. -/
def run (step : σ → ε → Option σ) (s : σ) (es : List ε) : Option σ := es.foldlM step s

/-- Without events the protocol stays where it is. -/
@[simp] theorem run_nil : run step s [] = some s := rfl

/-- The first event, and then the others. -/
theorem run_cons : run step s (e :: es) = (step s e).bind fun t => run step t es :=
  List.foldlM_cons

/-- Events that follow others start where these led. -/
theorem run_append : run step s (es ++ es') = (run step s es).bind fun t => run step t es' :=
  List.foldlM_append

/-- A run of two parts goes through a state between them. -/
theorem run_append_eq_some : run step s (es ++ es') = some s' ↔
    ∃ t, run step s es = some t ∧ run step t es' = some s' := by
  rw [run_append, Option.bind_eq_some_iff]

/-- **One event more** is allowed in the state that the others led to. -/
theorem run_concat_eq_some : run step s (es ++ [e]) = some s' ↔
    ∃ t, run step s es = some t ∧ step t e = some s' := by
  rw [run_append_eq_some]
  simp only [run_cons, run_nil, Option.bind_fun_some]

/-- **What every event keeps** holds after all of them. -/
theorem run_inv {P : List ε → σ → Prop} (hrun : run step s es = some s') (hstart : P [] s)
    (hstep : ∀ es e t t', run step s es = some t → P es t → step t e = some t' →
      P (es ++ [e]) t') :
    P es s' := by
  induction es using List.reverseRecOn generalizing s' with
  | nil =>
    obtain rfl := Option.some.inj hrun
    exact hstart
  | append_singleton es e ih =>
    obtain ⟨t, ht, he⟩ := run_concat_eq_some.1 hrun
    exact hstep es e t s' ht (ih ht) he

/-- **A protocol refines another** when each of its events is one of the other's, or none of
them, from every state that the other can be in.  `f` says which. -/
theorem run_refines {σ' ε' : Type} {step' : σ' → ε' → Option σ'} {f : ε → Option ε'}
    {R : σ → σ' → Prop} {u : σ'} (hrun : run step s es = some s') (hstart : R s u)
    (hstep : ∀ (es : List ε) e t t' v, run step' u (es.filterMap f) = some v → R t v →
      step t e = some t' → ∃ v', run step' v (f e).toList = some v' ∧ R t' v') :
    ∃ u', run step' u (es.filterMap f) = some u' ∧ R s' u' := by
  refine run_inv (P := fun (es : List ε) t => ∃ v, run step' u (es.filterMap f) = some v ∧ R t v)
    hrun ⟨u, rfl, hstart⟩ ?_
  rintro es e t t' - ⟨v, hv, hR⟩ he
  obtain ⟨v', hv', hR'⟩ := hstep es e t t' v hv hR he
  refine ⟨v', ?_, hR'⟩
  rw [List.filterMap_append, run_append_eq_some]
  refine ⟨v, hv, ?_⟩
  rw [← hv']
  congr 1

/-! ## The order of events -/

variable {x y : ε} {l l' : List ε}

/-- **A place in a list with one event more** is its end, or a place in the list without
it. -/
theorem concat_eq_split : es ++ [e] = l ++ x :: l' ↔
    (l = es ∧ x = e ∧ l' = []) ∨ ∃ l'', l' = l'' ++ [e] ∧ es = l ++ x :: l'' := by
  constructor
  · intro h
    rcases List.eq_nil_or_concat l' with rfl | ⟨l'', d, rfl⟩
    · obtain ⟨rfl, hx⟩ := List.append_inj' h rfl
      exact .inl ⟨rfl, (List.singleton_inj.1 hx).symm, rfl⟩
    · rw [List.concat_eq_append, ← List.cons_append, ← List.append_assoc] at h
      obtain ⟨hes, hd⟩ := List.append_inj' h rfl
      obtain rfl := List.singleton_inj.1 hd
      exact .inr ⟨l'', List.concat_eq_append, hes⟩
  · rintro (⟨rfl, rfl, rfl⟩ | ⟨l'', rfl, rfl⟩)
    · rfl
    · simp

/-- `x` happened, and `y` after it. -/
def Before (x y : ε) (es : List ε) : Prop := [x, y].Sublist es

/-- The events can be searched. -/
instance [DecidableEq ε] : Decidable (Before x y es) :=
  inferInstanceAs (Decidable ([x, y].Sublist es))

/-- What comes before is among the events. -/
theorem Before.mem_left (h : Before x y es) : x ∈ es := h.subset (by simp)

/-- So is what comes behind. -/
theorem Before.mem_right (h : Before x y es) : y ∈ es := h.subset (by simp)

/-- **With one event more**, it may be the later of the two. -/
theorem before_concat : Before x y (es ++ [e]) ↔ Before x y es ∨ x ∈ es ∧ y = e := by
  unfold Before
  constructor
  · intro h
    obtain ⟨l, l', hsplit, hl, hl'⟩ := List.sublist_append_iff.1 h
    rcases List.sublist_cons_iff.1 hl' with hnil | ⟨r, rfl, hnil⟩
    · rw [List.sublist_nil.1 hnil, List.append_nil] at hsplit
      exact .inl (hsplit ▸ hl)
    · rw [List.sublist_nil.1 hnil] at hsplit
      have hends : [x] ++ [y] = l ++ [e] := hsplit
      obtain ⟨rfl, hye⟩ := List.append_inj' hends rfl
      obtain rfl := List.singleton_inj.1 hye
      exact .inr ⟨List.singleton_sublist.1 hl, rfl⟩
  · rintro (h | ⟨hx, rfl⟩)
    · exact h.trans (List.sublist_append_left es [e])
    · exact (List.singleton_sublist.2 hx).append (.refl [y])

/-- One of two events of a list is the earlier. -/
theorem before_or_before (hx : x ∈ es) (hy : y ∈ es) (hne : x ≠ y) :
    Before x y es ∨ Before y x es := by
  induction es using List.reverseRecOn with
  | nil => cases hx
  | append_singleton es e ih =>
    simp only [before_concat]
    rcases List.mem_append.1 hx with hx | hx <;> rcases List.mem_append.1 hy with hy | hy
    · exact (ih hx hy).imp .inl .inl
    · exact .inl (.inr ⟨hx, List.mem_singleton.1 hy⟩)
    · exact .inr (.inr ⟨hy, List.mem_singleton.1 hx⟩)
    · exact absurd ((List.mem_singleton.1 hx).trans (List.mem_singleton.1 hy).symm) hne

/-- **Events that are renamed**, or left out, keep their order. -/
theorem before_filterMap {ε' : Type} {f : ε → Option ε'} {x' y' : ε'}
    (hx : ∀ e, f e = some x' ↔ e = x) (hy : ∀ e, f e = some y' ↔ e = y) :
    Before x' y' (es.filterMap f) ↔ Before x y es := by
  have hmem : ∀ es : List ε, x' ∈ es.filterMap f ↔ x ∈ es := by
    intro es
    simp only [List.mem_filterMap, hx, exists_eq_right]
  induction es using List.reverseRecOn with
  | nil => exact iff_of_false (fun h => List.not_mem_nil h.mem_left) fun h =>
      List.not_mem_nil h.mem_left
  | append_singleton es e ih =>
    have hes : Before x' y' (es.filterMap f) ↔ Before x y es := ih
    rw [List.filterMap_append, before_concat, ← hes, ← hmem]
    cases hf : f e with
    | none =>
      have hne : y ≠ e := fun h => by rw [(hy e).2 h.symm] at hf; cases hf
      rw [List.filterMap_cons_none hf, List.filterMap_nil, List.append_nil,
        or_iff_left fun h => hne h.2]
    | some e' =>
      have heq : y' = e' ↔ y = e := by
        rw [@eq_comm _ y e, ← hy e, hf, Option.some.injEq, eq_comm]
      rw [List.filterMap_cons_some hf, List.filterMap_nil, before_concat, heq]

end Protocol
