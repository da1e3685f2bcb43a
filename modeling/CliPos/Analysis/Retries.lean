import CliPos.Analysis.Cancelling

/-!
# A prompt that asks again

`add_modify_criteria` asks again after a text with a comma, by calling itself.  Whatever
happens, an answer it returns is valid, but it hands a cancel on only when it came in the
first attempt: a later one is read with `value()`, which throws (`prompt_returns_iff`).
-/

set_option autoImplicit false

namespace CliPos

open Decimal Halting

variable {placeholder : Str} {modify : Bool} {maxSize : ℤ} {keys rest : List Key}

/-- One of the attempts of the prompt is cancelled; `rest` are the keys behind the ESC. -/
inductive CancelsPrompt (placeholder : Str) (modify : Bool) (maxSize : ℤ) :
    List Key → List Key → Prop
  | first {keys rest : List Key}
      (cancelled : getString (if modify then placeholder else []) (toShort maxSize) keys =
        .ok none rest) : CancelsPrompt placeholder modify maxSize keys rest
  | later {keys keys' rest : List Key} (refused : Refused placeholder modify maxSize keys keys')
      (cancelled : CancelsPrompt placeholder modify maxSize keys' rest) :
      CancelsPrompt placeholder modify maxSize keys rest

/-- **What a prompt must do**: it returns nothing when it was cancelled, in any of its
attempts, and a valid answer otherwise; it does not return only while it waits for keys. -/
structure PromptReturns (placeholder : Str) (modify : Bool) (maxSize : ℤ) (keys : List Key) :
    Prop where
  answer : ∀ text rest, prompt placeholder modify maxSize keys = .ok (some text) rest →
    ValidAnswer maxSize text
  nothing : ∀ rest, prompt placeholder modify maxSize keys = .ok none rest →
    CancelsPrompt placeholder modify maxSize keys rest
  cancelled : ∀ rest, CancelsPrompt placeholder modify maxSize keys rest →
    prompt placeholder modify maxSize keys = .ok none rest
  waits : ∀ e rest, prompt placeholder modify maxSize keys = .error e rest → e = .waiting

/-- A retry is cancelled exactly when a text is refused and an attempt after it is
cancelled. -/
theorem cancelsRetry_iff : CancelsRetry placeholder modify maxSize keys ↔
    ∃ keys' rest, Refused placeholder modify maxSize keys keys' ∧
      CancelsPrompt placeholder modify maxSize keys' rest := by
  constructor
  · intro h
    induction h with
    | cancelled refused cancelled => exact ⟨_, _, refused, .first cancelled⟩
    | again refused _ ih =>
      obtain ⟨keys', rest, hrefused, hcancelled⟩ := ih
      exact ⟨_, rest, refused, .later hrefused hcancelled⟩
  · rintro ⟨keys', rest, hrefused, hcancelled⟩
    induction hcancelled generalizing keys with
    | first cancelled => exact .cancelled hrefused cancelled
    | later refused _ ih => exact .again hrefused (ih refused)

/-- **A prompt throws** exactly when a retry is cancelled. -/
theorem prompt_throws_iff :
    (∃ rest, prompt placeholder modify maxSize keys = .error (.thrown .badOptionalAccess) rest) ↔
      CancelsRetry placeholder modify maxSize keys := by
  rw [← haltsFor_addModifyCriteria (Nat.lt_succ_self keys.length)]
  constructor
  · rintro ⟨rest, h⟩
    exact ⟨_, rest, h, trivial⟩
  · rintro ⟨e, rest, h, he⟩
    obtain rfl | rfl := addModifyCriteria_halts _ _ _ _ _ _ _ h
    · exact he.elim
    · exact ⟨rest, h⟩

/-- A text with a comma, and ESC at the prompt that comes after it. -/
theorem comma_then_esc_throws :
    let keys := [charKey 'a', charKey ',', keyEnter, keyEnter, keyEsc]
    CancelsPrompt [] false 31 keys [] ∧
      prompt [] false 31 keys = .error (.thrown .badOptionalAccess) [] := by
  have hrefused : Refused [] false 31
      [charKey 'a', charKey ',', keyEnter, keyEnter, keyEsc] [keyEsc] :=
    ⟨[97, 44], [keyEnter, keyEsc], [97, 44], keyEnter, rfl, rfl, by decide⟩
  exact ⟨.later hrefused (.first rfl), rfl⟩

/-- **A prompt does what it must** exactly when no attempt after a text with a comma is
cancelled. -/
theorem prompt_returns_iff (placeholder : Str) (modify : Bool) (maxSize : ℤ) (keys : List Key)
    (hpos : 0 < maxSize) :
    PromptReturns placeholder modify maxSize keys ↔
      ¬∃ keys' rest, Refused placeholder modify maxSize keys keys' ∧
        CancelsPrompt placeholder modify maxSize keys' rest := by
  rw [← cancelsRetry_iff]
  constructor
  · intro h hretry
    obtain ⟨rest, hthrows⟩ := prompt_throws_iff.2 hretry
    cases h.waits _ _ hthrows
  · intro hno
    constructor
    · exact fun text rest h => addModifyCriteria_valid hpos h
    · exact fun rest h => .first (prompt_eq_none.1 h)
    · intro rest h
      cases h with
      | first cancelled => exact prompt_eq_none.2 cancelled
      | later refused cancelled =>
        exact absurd (cancelsRetry_iff.2 ⟨_, _, refused, cancelled⟩) hno
    · intro e rest h
      obtain rfl | rfl := addModifyCriteria_halts _ _ _ _ _ _ _ h
      · rfl
      · exact absurd (prompt_throws_iff.1 ⟨rest, h⟩) hno

/-- A text with a comma, and one without it at the prompt that comes after it. -/
theorem prompt_returns_retry : PromptReturns [] false 31
    [charKey 'a', charKey ',', keyEnter, keyEnter, charKey 'b', keyEnter] := by
  refine (prompt_returns_iff [] false 31 _ (by decide)).2 fun hretry => ?_
  rw [← cancelsRetry_iff] at hretry
  obtain ⟨rest, h⟩ := prompt_throws_iff.2 hretry
  have hanswer : prompt [] false 31
      [charKey 'a', charKey ',', keyEnter, keyEnter, charKey 'b', keyEnter] =
        .ok (some [98]) [] := rfl
  rw [hanswer] at h
  cases h

end CliPos
