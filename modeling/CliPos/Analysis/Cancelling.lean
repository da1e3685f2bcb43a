import CliPos.Analysis.FormTexts
import CliPos.Analysis.Redraw
import CliPos.Lib.Stream

/-!
# Cancelling with ESC

`get_string` reads its first key apart when it shows a placeholder, and there ESC only wipes
the placeholder.  In the form ESC is ignored there, where a text that was cut or refused
waits for a key, and it ends the program where a refused text is asked for again; at every
other key of a prompt it ends the form (`cancel_iff`).
-/

set_option autoImplicit false

namespace CliPos

open Decimal Halting

/-- ESC comes before the first Enter. -/
def EscFirst (keys : List Key) : Prop := keyEsc ∈ keys.takeWhile (· ≠ keyEnter)

/-- The keys can be searched for ESC. -/
instance (keys : List Key) : Decidable (EscFirst keys) := by
  unfold EscFirst
  infer_instance

/-- ESC comes first when it is the first key, or comes first behind a key that is not Enter. -/
theorem escFirst_cons {key : Key} {keys : List Key} :
    EscFirst (key :: keys) ↔ key = keyEsc ∨ key ≠ keyEnter ∧ EscFirst keys := by
  have hne : keyEsc ≠ keyEnter := by decide
  unfold EscFirst
  rw [List.takeWhile_cons]
  by_cases hkey : key = keyEnter
  · simp [hkey, hne.symm]
  · simp [hkey, eq_comm]

/-! ## The edit loop -/

section

variable {maxLength : ℤ} {keys pre : List Key} {s : Str}

/-- Enter ends the editor with its text. -/
theorem editLoop_enter (maxLength : ℤ) (keys : List Key) (s : Str) :
    editLoop maxLength (keyEnter :: keys) s = .ok (some (afterBackspace keyEnter s)) keys := rfl

/-- ESC ends the editor with nothing. -/
theorem editLoop_esc (maxLength : ℤ) (keys : List Key) (s : Str) :
    editLoop maxLength (keyEsc :: keys) s = .ok none keys := rfl

/-- Every other key is taken into the text. -/
theorem editLoop_other {key : Key} (henter : key ≠ keyEnter) (hesc : key ≠ keyEsc)
    (maxLength : ℤ) (s : Str) : ∃ maxLength' s', ∀ keys,
      editLoop maxLength (key :: keys) s = editLoop maxLength' keys s' :=
  ⟨_, _, fun keys => by simp only [editLoop, if_neg henter, if_neg hesc]; rfl⟩

/-- The editor consumes what it reads: the keys behind change nothing. -/
theorem streams_editLoop (maxLength : ℤ) (s : Str) :
    Streams fun keys => editLoop maxLength keys s := by
  intro keys
  induction keys generalizing maxLength s with
  | nil => rintro _ _ ⟨⟩
  | cons key keys ih =>
    intro answer rest h
    simp only at h
    by_cases henter : key = keyEnter
    · subst henter
      rw [editLoop_enter] at h
      cases h
      exact ⟨[keyEnter], rfl, fun more => rfl⟩
    by_cases hesc : key = keyEsc
    · subst hesc
      rw [editLoop_esc] at h
      cases h
      exact ⟨[keyEsc], rfl, fun more => rfl⟩
    obtain ⟨maxLength', s', hstep⟩ := editLoop_other henter hesc maxLength s
    rw [hstep] at h
    obtain ⟨used, rfl, hused⟩ := ih _ _ _ _ h
    exact ⟨key :: used, rfl, fun more => (hstep _).trans (hused more)⟩

/-- **The edit loop is cancelled** exactly when ESC comes before the first Enter. -/
theorem editLoop_eq_none :
    (∃ rest, editLoop maxLength keys s = .ok none rest) ↔ EscFirst keys := by
  induction keys generalizing maxLength s with
  | nil => exact iff_of_false (by rintro ⟨_, ⟨⟩⟩) (by decide)
  | cons key keys ih =>
    rw [escFirst_cons]
    by_cases henter : key = keyEnter
    · subst henter
      have hne : keyEnter ≠ keyEsc := by decide
      refine iff_of_false ?_ (by simp [hne])
      rintro ⟨_, ⟨⟩⟩
    by_cases hesc : key = keyEsc
    · subst hesc
      exact iff_of_true ⟨keys, rfl⟩ (.inl rfl)
    obtain ⟨maxLength', s', hstep⟩ := editLoop_other henter hesc maxLength s
    simp only [hstep, ih, henter, hesc, false_or, ne_eq, not_false_eq_true, true_and]

/-- An edit loop that waits has met neither Enter nor ESC, and the next ESC cancels it. -/
theorem editLoop_waits {e : Halt} {rest : List Key} (h : editLoop maxLength pre s = .error e rest)
    (post : List Key) :
    keyEnter ∉ pre ∧ editLoop maxLength (pre ++ keyEsc :: post) s = .ok none post := by
  induction pre generalizing maxLength s with
  | nil => exact ⟨List.not_mem_nil, rfl⟩
  | cons key pre ih =>
    by_cases henter : key = keyEnter
    · subst henter
      cases h
    by_cases hesc : key = keyEsc
    · subst hesc
      cases h
    obtain ⟨maxLength', s', hstep⟩ := editLoop_other henter hesc maxLength s
    rw [hstep] at h
    obtain ⟨hpre, hcancel⟩ := ih h
    refine ⟨?_, (hstep _).trans hcancel⟩
    rw [List.mem_cons, not_or]
    exact ⟨Ne.symm henter, hpre⟩

/-- A text is returned at an Enter. -/
theorem enter_mem_of_editLoop {text : Str} {rest : List Key}
    (h : editLoop maxLength keys s = .ok (some text) rest) : keyEnter ∈ keys := by
  induction keys generalizing maxLength s with
  | nil => cases h
  | cons key keys ih =>
    by_cases henter : key = keyEnter
    · exact henter ▸ List.mem_cons_self
    by_cases hesc : key = keyEsc
    · subst hesc
      cases h
    obtain ⟨maxLength', s', hstep⟩ := editLoop_other henter hesc maxLength s
    rw [hstep] at h
    exact List.mem_cons_of_mem _ (ih h)

/-! ## `get_string` -/

/-- The first key over a placeholder. -/
theorem getString_cons (hs : s ≠ []) {key : Key} (henter : key ≠ keyEnter) (maxLength : ℤ) :
    ∃ s', ∀ keys, getString s maxLength (key :: keys) = editLoop maxLength keys s' :=
  ⟨_, fun keys => by simp only [getString, if_pos hs, if_pos henter]; rfl⟩

/-- So does `get_string`. -/
theorem streams_getString (s : Str) (maxLength : ℤ) : Streams (getString s maxLength) := by
  by_cases hs : s = []
  · subst hs
    exact streams_editLoop maxLength []
  intro keys answer rest h
  cases keys with
  | nil => simp [getString, hs] at h
  | cons key keys =>
    by_cases henter : key = keyEnter
    · subst henter
      simp only [getString, if_pos hs, ne_eq, not_true_eq_false, if_false] at h
      cases h
      exact ⟨[keyEnter], rfl, fun more => by simp [getString, hs]⟩
    · obtain ⟨s', hstep⟩ := getString_cons hs henter maxLength
      rw [hstep] at h
      obtain ⟨used, rfl, hused⟩ := streams_editLoop maxLength s' _ _ _ h
      exact ⟨key :: used, rfl, fun more => (hstep _).trans (hused more)⟩

/-- **`get_string` is cancelled** by an ESC before the first Enter, which over a placeholder
is not the first key. -/
theorem getString_eq_none :
    (∃ rest, getString s maxLength keys = .ok none rest) ↔
      if s = [] then EscFirst keys else keys.head? ≠ some keyEnter ∧ EscFirst keys.tail := by
  by_cases hs : s = []
  · subst hs
    rw [if_pos rfl]
    exact editLoop_eq_none
  rw [if_neg hs]
  cases keys with
  | nil =>
    have hno : ¬EscFirst [] := by decide
    simp [getString, hs, hno]
  | cons key keys =>
    by_cases henter : key = keyEnter
    · subst henter
      simp [getString, hs]
    · obtain ⟨s', hstep⟩ := getString_cons hs henter maxLength
      simp only [hstep, editLoop_eq_none, List.head?_cons, List.tail_cons, ne_eq,
        Option.some.injEq, henter, not_false_eq_true, true_and]

/-- Where `get_string` waits, ESC cancels it unless it is the first key over a
placeholder. -/
theorem getString_waits {e : Halt} {rest : List Key}
    (h : getString s maxLength pre = .error e rest) (post : List Key) :
    keyEnter ∉ pre ∧
      (getString s maxLength (pre ++ keyEsc :: post) = .ok none post ↔ s = [] ∨ pre ≠ []) := by
  by_cases hs : s = []
  · subst hs
    obtain ⟨hpre, hcancel⟩ := editLoop_waits h post
    exact ⟨hpre, iff_of_true hcancel (.inl rfl)⟩
  cases pre with
  | nil =>
    refine ⟨List.not_mem_nil, iff_of_false (fun hcancel => ?_) (by simp [hs])⟩
    have henter : keyEsc ≠ keyEnter := by decide
    obtain ⟨s', hstep⟩ := getString_cons hs henter maxLength
    rw [List.nil_append, hstep] at hcancel
    have hlt := editLoop_length hcancel
    omega
  | cons key pre =>
    by_cases henter : key = keyEnter
    · subst henter
      simp [getString, hs] at h
    · obtain ⟨s', hstep⟩ := getString_cons hs henter maxLength
      rw [hstep] at h
      obtain ⟨hpre, hcancel⟩ := editLoop_waits h post
      refine ⟨?_, iff_of_true ((hstep _).trans hcancel) (.inr (List.cons_ne_nil _ _))⟩
      rw [List.mem_cons, not_or]
      exact ⟨Ne.symm henter, hpre⟩

/-- A text that was returned was ended by Enter. -/
theorem enter_mem_of_getString {text : Str} {rest : List Key}
    (h : getString s maxLength keys = .ok (some text) rest) : keyEnter ∈ keys := by
  by_cases hs : s = []
  · subst hs
    exact enter_mem_of_editLoop h
  cases keys with
  | nil => simp [getString, hs] at h
  | cons key keys =>
    by_cases henter : key = keyEnter
    · exact henter ▸ List.mem_cons_self
    · obtain ⟨s', hstep⟩ := getString_cons hs henter maxLength
      rw [hstep] at h
      exact List.mem_cons_of_mem _ (enter_mem_of_editLoop h)

end

/-! ## One prompt -/

/-- So does `getch`. -/
theorem streams_getch : Streams getch := by
  intro keys key rest h
  obtain rfl := getch_eq_ok.1 h
  exact ⟨[key], rfl, fun more => rfl⟩

/-- So does the question for a shorter text. -/
theorem streams_cutToSize (maxSize : ℤ) (s : Str) : Streams (cutToSize maxSize s) := by
  unfold cutToSize
  split_ifs
  · exact streams_getch.bind fun _ => .pure _
  · exact .pure _

/-- So does `add_modify_criteria`. -/
theorem streams_addModifyCriteria (placeholder : Str) (modify : Bool) (maxSize : ℤ) (fuel : ℕ) :
    Streams (addModifyCriteria placeholder modify maxSize fuel) := by
  induction fuel generalizing placeholder with
  | zero => exact .throw _
  | succ fuel ih =>
    rw [addModifyCriteria]
    refine (streams_getString _ _).bind fun text => ?_
    cases text with
    | none => exact .pure _
    | some text =>
      refine (streams_cutToSize _ _).bind fun output => ?_
      by_cases hcomma : comma ∈ output
      · simp only [if_pos hcomma]
        refine streams_getch.bind fun _ => (ih _).bind fun again => ?_
        cases again with
        | none => exact .throw _
        | some again => exact .pure _
      · simp only [if_neg hcomma]
        exact .pure _

section

variable {placeholder : Str} {modify : Bool} {maxSize : ℤ} {keys pre post rest : List Key}

/-- Fuel above the number of keys makes no difference. -/
theorem addModifyCriteria_fuel {n n' : ℕ} (hn : keys.length < n) (hn' : keys.length < n') :
    addModifyCriteria placeholder modify maxSize n keys =
      addModifyCriteria placeholder modify maxSize n' keys := by
  induction n generalizing n' placeholder keys with
  | zero => omega
  | succ n ih =>
    obtain ⟨n', rfl⟩ : ∃ k, n' = k + 1 := ⟨n' - 1, by omega⟩
    rw [addModifyCriteria, addModifyCriteria]
    refine bind_congr_apply fun text keys₁ hread => ?_
    cases text with
    | none => rfl
    | some text =>
      refine bind_congr_apply fun output keys₂ hcut => ?_
      by_cases hcomma : comma ∈ output
      · rw [if_pos hcomma, if_pos hcomma]
        refine bind_congr_apply fun key rest hkey => ?_
        have hlen := getString_length hread
        have hlen' := (cutToSize_eq_ok hcut).1
        obtain rfl := getch_eq_ok.1 hkey
        rw [List.length_cons] at hlen'
        have hfuel : rest.length < n ∧ rest.length < n' := by omega
        rw [bind_apply, bind_apply, ih hfuel.1 hfuel.2]
      · rw [if_neg hcomma, if_neg hcomma]

/-- A prompt of the form, with the fuel that `ask` gives it. -/
def prompt (placeholder : Str) (modify : Bool) (maxSize : ℤ) : Input (Option Str) :=
  fun keys => addModifyCriteria placeholder modify maxSize (keys.length + 1) keys

/-- So does a prompt of the form. -/
theorem streams_prompt (placeholder : Str) (modify : Bool) (maxSize : ℤ) :
    Streams (prompt placeholder modify maxSize) := by
  intro keys answer rest h
  -- all runs are compared at one fuel
  have hfuel : ∀ more, ∀ keys' : List Key, keys'.length ≤ keys.length + more →
      addModifyCriteria placeholder modify maxSize (keys.length + more + 1) keys' =
        prompt placeholder modify maxSize keys' :=
    fun more keys' hle => addModifyCriteria_fuel (by omega) (Nat.lt_succ_self _)
  have h0 := h
  rw [← hfuel 0 keys le_rfl] at h0
  obtain ⟨used, rfl, -⟩ := streams_addModifyCriteria _ _ _ _ _ _ _ h0
  refine ⟨used, rfl, fun more => ?_⟩
  have hmore := h
  rw [← hfuel more.length (used ++ rest) (by omega)] at hmore
  obtain ⟨used', hsplit, hused⟩ := streams_addModifyCriteria _ _ _ _ _ _ _ hmore
  obtain rfl := List.append_cancel_right hsplit
  rw [← hfuel more.length (used ++ more) (by simp)]
  exact hused more

/-- A prompt reads a key at least, and an Enter before it answers. -/
theorem readsSome_prompt (placeholder : Str) (modify : Bool) (maxSize : ℤ) :
    ReadsSome (prompt placeholder modify maxSize) := by
  intro keys answer rest h
  have hrest : ∀ n keys answer,
      addModifyCriteria placeholder modify maxSize n keys = .ok answer rest →
      rest.length < keys.length := by
    intro n
    induction n with
    | zero => rintro _ _ ⟨⟩
    | succ n ih =>
      intro keys answer h
      obtain ⟨-, hread⟩ | ⟨middle, hrefused, again, hagain, -⟩ |
        ⟨text, keys₁, output, hread, hcut, -, -⟩ := addModifyCriteria_eq_ok h
      · exact getString_length hread
      · have h1 := hrefused.length
        have h2 := ih _ _ hagain
        omega
      · have h1 := getString_length hread
        have h2 := (cutToSize_eq_ok hcut).1
        omega
  exact hrest _ _ _ h

/-- An answer was ended by Enter. -/
theorem enter_mem_of_prompt {answer : Str}
    (h : prompt placeholder modify maxSize keys = .ok (some answer) rest) : keyEnter ∈ keys := by
  obtain ⟨hnone, -⟩ | ⟨_, ⟨_, _, _, _, hread, -⟩, -⟩ | ⟨_, _, _, hread, -⟩ :=
    addModifyCriteria_eq_ok h
  · cases hnone
  · exact enter_mem_of_getString hread
  · exact enter_mem_of_getString hread

/-- A prompt is cancelled when its first text is. -/
theorem prompt_eq_none :
    prompt placeholder modify maxSize keys = .ok none rest ↔
      getString (if modify then placeholder else []) (toShort maxSize) keys = .ok none rest := by
  constructor
  · intro h
    obtain ⟨-, hread⟩ | ⟨_, -, _, -, hsome⟩ | ⟨_, _, _, -, -, -, hsome⟩ :=
      addModifyCriteria_eq_ok h
    · exact hread
    · cases hsome
    · cases hsome
  · intro h
    rw [prompt, addModifyCriteria, bind_apply, h]
    rfl

/-- **Where a prompt waits**, ESC cancels it while its first text is edited. -/
theorem prompt_waits {e : Halt} {left : List Key}
    (h : prompt placeholder modify maxSize pre = .error e left) :
    prompt placeholder modify maxSize (pre ++ keyEsc :: post) = .ok none post ↔
      keyEnter ∉ pre ∧ ((if modify then placeholder else []) = [] ∨ pre ≠ []) := by
  rw [prompt_eq_none]
  cases hread : getString (if modify then placeholder else []) (toShort maxSize) pre with
  | error d rest =>
    obtain ⟨hpre, hcancel⟩ := getString_waits hread post
    rw [hcancel]
    exact (and_iff_right hpre).symm
  | ok answer rest =>
    cases answer with
    | none =>
      have hnone := prompt_eq_none.2 hread
      rw [h] at hnone
      cases hnone
    | some text =>
      have hmore := (streams_getString _ _).append hread (keyEsc :: post)
      refine iff_of_false (fun hnone => ?_) fun hpre => hpre.1 (enter_mem_of_getString hread)
      rw [hmore] at hnone
      cases hnone

end

/-! ## The selling unit -/

/-- A key that is neither Enter nor ESC only changes the selection. -/
theorem soldByLoop_other {key : Key} (henter : key ≠ keyEnter) (hesc : key ≠ keyEsc)
    (selection : ℤ) :
    ∃ selection', ∀ keys, soldByLoop (key :: keys) selection = soldByLoop keys selection' := by
  by_cases hup : key = keyUp ∨ key = charKey 'k'
  · exact ⟨_, fun keys => by rw [soldByLoop, if_pos hup]⟩
  by_cases hdown : key = keyDown ∨ key = charKey 'j'
  · exact ⟨_, fun keys => by rw [soldByLoop, if_neg hup, if_pos hdown]⟩
  · exact ⟨_, fun keys => by rw [soldByLoop, if_neg hup, if_neg hdown, if_neg henter, if_neg hesc]⟩

/-- ESC ends the choice with nothing. -/
theorem soldByLoop_esc (keys : List Key) (selection : ℤ) :
    soldByLoop (keyEsc :: keys) selection = .ok none keys := rfl

/-- The choice consumes what it reads. -/
theorem streams_soldByLoop (selection : ℤ) : Streams fun keys => soldByLoop keys selection := by
  intro keys
  induction keys generalizing selection with
  | nil => rintro _ _ ⟨⟩
  | cons key keys ih =>
    intro answer rest h
    simp only at h
    by_cases henter : key = keyEnter
    · subst henter
      rw [soldByLoop_enter] at h
      cases h
      exact ⟨[keyEnter], rfl, fun more => rfl⟩
    by_cases hesc : key = keyEsc
    · subst hesc
      rw [soldByLoop_esc] at h
      cases h
      exact ⟨[keyEsc], rfl, fun more => rfl⟩
    obtain ⟨selection', hstep⟩ := soldByLoop_other henter hesc selection
    rw [hstep] at h
    obtain ⟨used, rfl, hused⟩ := ih _ _ _ h
    exact ⟨key :: used, rfl, fun more => (hstep _).trans (hused more)⟩

/-- The choice reads a key at least. -/
theorem readsSome_soldByLoop (selection : ℤ) :
    ReadsSome fun keys => soldByLoop keys selection := by
  intro keys answer rest h
  obtain ⟨used, rfl, hused⟩ := streams_soldByLoop selection _ _ _ h
  cases used with
  | nil => cases hused []
  | cons key used =>
    rw [List.length_append, List.length_cons]
    omega

/-- Where the selection waits, ESC cancels it. -/
theorem soldByLoop_waits {pre rest : List Key} {selection : ℤ} {e : Halt}
    (h : soldByLoop pre selection = .error e rest) (post : List Key) :
    soldByLoop (pre ++ keyEsc :: post) selection = .ok none post := by
  induction pre generalizing selection with
  | nil => rfl
  | cons key pre ih =>
    by_cases henter : key = keyEnter
    · subst henter
      cases h
    by_cases hesc : key = keyEsc
    · subst hesc
      cases h
    obtain ⟨selection', hstep⟩ := soldByLoop_other henter hesc selection
    rw [hstep] at h
    exact (hstep _).trans (ih h)

/-! ## The form -/

/-- Where the form waits after these keys, its first text is being edited: the prompt reached
has read no Enter, and it shows no placeholder or has read a key.  Behind the last prompt the
form waits in the selection. -/
def CancelsAt (modify : Bool) : List (Str × ℤ) → List Key → Prop
  | [], _ => True
  | (placeholder, maxSize) :: prompts, pre =>
    keyEnter ∉ pre ∧ ((if modify then placeholder else []) = [] ∨ pre ≠ []) ∨
      ∃ answer rest,
        addModifyCriteria placeholder modify maxSize (pre.length + 1) pre =
          .ok (some answer) rest ∧ CancelsAt modify prompts rest

/-- What is shown of a part of the form, from its last prompt to its first. -/
structure CancelSpec {α : Type} (modify : Bool) (prompts : List (Str × ℤ))
    (m : Input (Option α)) : Prop where
  streams : Streams m
  readsSome : ReadsSome m
  cancel : ∀ pre post left answer, m pre = .error .waiting left →
    (m (pre ++ keyEsc :: post) = .ok answer post ↔ answer = none ∧ CancelsAt modify prompts pre)

/-- The choice is the form's last prompt, and ESC cancels it. -/
theorem cancelSpec_soldByLoop {α : Type} (modify : Bool) (selection : ℤ) (f : ℤ → α) :
    CancelSpec modify [] (do
      match ← fun keys => soldByLoop keys selection with
      | none => return none
      | some selection => return some (f selection) : Input (Option α)) where
  streams := (streams_soldByLoop selection).bind fun answer => by
    cases answer <;> exact .pure _
  readsSome := (readsSome_soldByLoop selection).bind fun answer => by
    cases answer <;> exact .pure _
  cancel pre post left answer h := by
    rcases bind_eq_error.1 h with h | ⟨chosen, rest, -, h⟩
    · constructor
      · intro hcancel
        obtain ⟨chosen, middle, hloop, hrest⟩ := bind_eq_ok.1 hcancel
        obtain ⟨rfl, rfl⟩ :=
          (EStateM.Result.ok.injEq ..).mp (hloop.symm.trans (soldByLoop_waits h post))
        cases hrest
        exact ⟨rfl, trivial⟩
      · rintro ⟨rfl, -⟩
        exact bind_eq_ok.2 ⟨none, post, soldByLoop_waits h post, rfl⟩
    · cases chosen <;> cases h

/-- **One more prompt.** -/
theorem cancelSpec_ask {α : Type} {modify : Bool} {prompts : List (Str × ℤ)}
    {next : Str → Input (Option α)} (hnext : ∀ answer, CancelSpec modify prompts (next answer))
    (placeholder : Str) (maxSize : ℤ) :
    CancelSpec modify ((placeholder, maxSize) :: prompts)
      (ask placeholder modify maxSize next) where
  streams := (streams_prompt placeholder modify maxSize).bind fun answer => by
    cases answer with
    | none => exact .pure _
    | some answer => exact (hnext answer).streams
  readsSome := (readsSome_prompt placeholder modify maxSize).bind fun answer => by
    cases answer with
    | none => exact .pure _
    | some answer => exact (hnext answer).streams
  cancel pre post left answer h := by
    have hstreams := streams_prompt placeholder modify maxSize
    rw [CancelsAt]
    rcases bind_eq_error.1 h with h | ⟨read, rest, hread, h⟩
    · -- the prompt itself waits
      have hlater : ¬∃ answer rest,
          addModifyCriteria placeholder modify maxSize (pre.length + 1) pre =
            .ok (some answer) rest ∧ CancelsAt modify prompts rest := by
        rintro ⟨_, _, hok, -⟩
        exact absurd (h.symm.trans hok) (by simp)
      rw [or_iff_left hlater, ← prompt_waits h]
      constructor
      · intro hcancel
        obtain ⟨read, middle, hprompt, hrest⟩ := bind_eq_ok.1 hcancel
        cases read with
        | none =>
          cases hrest
          exact ⟨rfl, hprompt⟩
        | some text =>
          -- ESC was read as some other key: then a later prompt has read past it
          have hno : ∀ a rest, prompt placeholder modify maxSize pre ≠ .ok a rest :=
            fun a rest hok => absurd (h.symm.trans hok) (by simp)
          have h1 := hstreams.past hno hprompt
          have h2 := (hnext text).readsSome _ _ _ hrest
          rw [List.length_cons] at h1
          omega
      · rintro ⟨rfl, hprompt⟩
        exact bind_eq_ok.2 ⟨none, post, hprompt, rfl⟩
    · cases read with
      | none => cases h
      | some text =>
        have hmore := hstreams.append hread (keyEsc :: post)
        have hhere : ¬(keyEnter ∉ pre ∧
            ((if modify then placeholder else []) = [] ∨ pre ≠ [])) :=
          fun hpre => hpre.1 (enter_mem_of_prompt hread)
        have hstep : ask placeholder modify maxSize next (pre ++ keyEsc :: post) =
            next text (rest ++ keyEsc :: post) := by
          have hprompt : addModifyCriteria placeholder modify maxSize
              ((pre ++ keyEsc :: post).length + 1) (pre ++ keyEsc :: post) =
                .ok (some text) (rest ++ keyEsc :: post) := hmore
          rw [ask_apply, hprompt]
        rw [or_iff_right hhere, hstep, (hnext text).cancel rest post left answer h]
        refine and_congr_right fun _ => ?_
        constructor
        · intro hcancel
          exact ⟨text, rest, hread, hcancel⟩
        · rintro ⟨text', rest', hread', hcancel⟩
          obtain ⟨⟨⟩, rfl⟩ := (EStateM.Result.ok.injEq ..).mp (hread.symm.trans hread')
          exact hcancel

/-- **The answers of the form.** -/
theorem cancelSpec_formAnswers (maxNameLength : ℤ) (modify : Bool) (p : Product) :
    CancelSpec modify (formPrompts maxNameLength p) (formAnswers maxNameLength modify p) := by
  unfold formAnswers formPrompts
  iterate 7 refine cancelSpec_ask (fun _ => ?_) _ _
  exact cancelSpec_soldByLoop modify _ _

/-- ESC over the placeholder of the bread's name, Enter after it, and the other placeholders
accepted: the bread is saved under the name `1`. -/
theorem esc_renames_bread :
    let keys := keyEsc :: List.replicate 10 keyEnter
    EscFirst keys ∧ getString bread.name 31 keys = .ok (some []) (List.replicate 9 keyEnter) ∧
      addModifyProduct strictServer 31 1 true [bread, milk] keys =
        .ok [{ bread with name := [49] }, milk] [] :=
  ⟨by decide, rfl, valueOf_eq_some.1 (by decide +kernel)⟩

/-- **Where ESC cancels.**  `get_string` returns nothing exactly when ESC comes before the
first Enter, unless the placeholder is not empty, the first key is ESC and no other ESC comes
before the first Enter.  Where the form waits for a key, ESC ends it, with the table as it
was, exactly when the first text of the prompt reached is being edited. -/
theorem cancel_iff (s : Str) (maxLength : ℤ) (keys : List Key) (srv : Server)
    (maxNameLength code : ℤ) (modify : Bool) (t : Table) (p : Product)
    (pre post left : List Key) (hrow : getProductData code t = .ok p)
    (hwaits : formAnswers maxNameLength modify p pre = .error .waiting left) :
    (((∃ rest, getString s maxLength keys = .ok none rest) ↔ EscFirst keys) ↔
      s = [] ∨ keys.head? ≠ some keyEsc ∨ EscFirst keys.tail) ∧
    (addModifyProduct srv maxNameLength code modify t (pre ++ keyEsc :: post) = .ok t post ↔
      CancelsAt modify (formPrompts maxNameLength p) pre) := by
  constructor
  · rw [getString_eq_none]
    by_cases hs : s = []
    · simp [hs]
    rw [if_neg hs, or_iff_right hs]
    cases keys with
    | nil => simp [EscFirst]
    | cons key keys =>
      have hne : keyEsc ≠ keyEnter := by decide
      simp only [escFirst_cons, List.head?_cons, List.tail_cons, ne_eq, Option.some.injEq]
      by_cases hesc : key = keyEsc
      · simp [hesc, hne]
      · simp [hesc]
  · have hcancel := fun answer =>
      (cancelSpec_formAnswers maxNameLength modify p).cancel pre post left answer hwaits
    constructor
    · intro h
      simp only [addModifyProduct, bind_eq_ok, orThrow_eq_ok] at h
      obtain ⟨q, _, ⟨hq, rfl⟩, answers, rest, hanswers, h⟩ := h
      obtain rfl := Except.ok.inj (hrow.symm.trans hq)
      cases answers with
      | none =>
        cases h
        exact ((hcancel none).1 hanswers).2
      | some answers =>
        simp only [bind_eq_ok, orThrow_eq_ok] at h
        obtain ⟨_, _, ⟨-, rfl⟩, -, rfl⟩ := h
        cases ((hcancel _).1 hanswers).1
    · intro h
      have hanswers := (hcancel none).2 ⟨rfl, h⟩
      rw [addModifyProduct]
      exact bind_eq_ok.2 ⟨p, _, orThrow_eq_ok.2 ⟨hrow, rfl⟩,
        bind_eq_ok.2 ⟨none, post, hanswers, rfl⟩⟩

/-- ESC behind a digit of the code leaves the form, and the bread alone. -/
theorem cancel_bread :
    addModifyProduct strictServer 31 1 true [bread, milk] [keyEnter, charKey '7', keyEsc] =
      .ok [bread, milk] [] := by
  have hwaits : haltOf (formAnswers 31 true (productOf bread) [keyEnter, charKey '7']) =
      some .waiting := by
    decide +kernel
  obtain ⟨left, hwaits⟩ := haltOf_eq_some.1 hwaits
  have hname : addModifyCriteria bread.name true 31 3 [keyEnter, charKey '7'] =
      .ok (some bread.name) [charKey '7'] := rfl
  refine (cancel_iff [] 31 [] strictServer 31 1 true [bread, milk] (productOf bread)
    [keyEnter, charKey '7'] [] left rfl hwaits).2.2 (.inr ⟨_, _, hname, .inl ⟨?_, .inr ?_⟩⟩)
  · decide
  · decide

end CliPos
