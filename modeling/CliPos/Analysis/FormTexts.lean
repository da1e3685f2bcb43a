import CliPos.Analysis.NumberTexts

/-!
# The texts of the product form

The form ends the program in two ways: a prompt refuses a text with a comma and is
cancelled when it asks again (`CancelsRetry`), and an answer does not convert
(`AnswersConvert`).  `haltsFor_addModifyProduct` shows that there is no third.
-/

set_option autoImplicit false

namespace CliPos

open Decimal Halting

/-! ## Reading keys -/

/-- What only waits for keys does not halt for a text. -/
theorem not_haltsFor_of_waiting {σ α : Type} {m : EStateM Halt σ α}
    (h : OnlyWaits m) (s : σ) : ¬HaltsFor Halt.OfInput m s :=
  h.not_haltsFor (by rintro e rfl; exact id) s

/-- An editor that returned took a key. -/
theorem editLoop_length {maxLength : ℤ} {keys keys' : List Key} {s : Str} {r : Option Str}
    (h : editLoop maxLength keys s = .ok r keys') : keys'.length < keys.length := by
  induction keys generalizing maxLength s with
  | nil => cases h
  | cons key keys ih =>
    rw [List.length_cons]
    simp only [editLoop] at h
    split_ifs at h
    · simp only [EStateM.Result.ok.injEq] at h
      rw [h.2]
      omega
    · simp only [EStateM.Result.ok.injEq] at h
      rw [h.2]
      omega
    · have := ih h
      omega
    · have := ih h
      omega

/-- A text read takes at least a key. -/
theorem getString_length {maxLength : ℤ} {keys keys' : List Key} {s : Str} {r : Option Str}
    (h : getString s maxLength keys = .ok r keys') : keys'.length < keys.length := by
  unfold getString at h
  by_cases hs : s ≠ []
  · rw [if_pos hs] at h
    cases keys with
    | nil => cases h
    | cons key keys =>
      rw [List.length_cons]
      by_cases hkey : key ≠ keyEnter
      · simp only [if_pos hkey] at h
        have := editLoop_length h
        omega
      · simp only [if_neg hkey, EStateM.Result.ok.injEq] at h
        rw [h.2]
        omega
  · rw [if_neg hs] at h
    exact editLoop_length h

/-- A text that was cut has its size, and no keys came back. -/
theorem cutToSize_eq_ok {maxSize : ℤ} {s output : Str} {keys keys' : List Key}
    (h : cutToSize maxSize s keys = .ok output keys') :
    keys'.length ≤ keys.length ∧ (0 ≤ maxSize → (output.length : ℤ) ≤ maxSize) := by
  unfold cutToSize at h
  split_ifs at h with hcut
  · obtain ⟨key, rest, hkey, hret⟩ := bind_eq_ok.1 h
    obtain rfl := getch_eq_ok.1 hkey
    simp only [pure_apply, EStateM.Result.ok.injEq] at hret
    obtain ⟨rfl, rfl⟩ := hret
    rw [List.length_cons, List.length_take]
    omega
  · simp only [pure_apply, EStateM.Result.ok.injEq] at h
    obtain ⟨rfl, rfl⟩ := h
    refine ⟨le_rfl, fun h0 => ?_⟩
    rw [toSizeT, if_neg (by omega)] at hcut
    omega

/-! ## One prompt of the form -/

/-- The prompt reads a text with a comma and refuses it; `rest` are the keys left for the
prompt that follows. -/
def Refused (placeholder : Str) (modify : Bool) (maxSize : ℤ) (keys rest : List Key) : Prop :=
  ∃ text keys' output key,
    getString (if modify then placeholder else []) (toShort maxSize) keys = .ok (some text) keys' ∧
    cutToSize maxSize text keys' = .ok output (key :: rest) ∧ comma ∈ output

/-- The prompt refuses a text, and is cancelled when it asks again. -/
inductive CancelsRetry (placeholder : Str) (modify : Bool) (maxSize : ℤ) : List Key → Prop
  | cancelled {keys rest rest' : List Key} (refused : Refused placeholder modify maxSize keys rest)
      (cancelled : getString (if modify then placeholder else []) (toShort maxSize) rest =
        .ok none rest') : CancelsRetry placeholder modify maxSize keys
  | again {keys rest : List Key} (refused : Refused placeholder modify maxSize keys rest)
      (again : CancelsRetry placeholder modify maxSize rest) :
      CancelsRetry placeholder modify maxSize keys

/-- Only a modification looks at the placeholder. -/
theorem addModifyCriteria_placeholder (placeholder : Str) (modify : Bool) (maxSize : ℤ)
    (fuel : ℕ) :
    addModifyCriteria (if modify then placeholder else []) modify maxSize fuel =
      addModifyCriteria placeholder modify maxSize fuel := by
  cases modify <;> cases fuel <;> rfl

/-- A prompt that reads a text without a comma returns it. -/
theorem addModifyCriteria_eq_ok {placeholder : Str} {modify : Bool} {maxSize : ℤ} {fuel : ℕ}
    {keys keys' : List Key} {answer : Option Str}
    (h : addModifyCriteria placeholder modify maxSize (fuel + 1) keys = .ok answer keys') :
    (answer = none ∧
      getString (if modify then placeholder else []) (toShort maxSize) keys = .ok none keys') ∨
    (∃ rest, Refused placeholder modify maxSize keys rest ∧ ∃ again,
      addModifyCriteria placeholder modify maxSize fuel rest = .ok (some again) keys' ∧
      answer = some (if again = [] then [49] else again)) ∨
    (∃ text keys₁ output,
      getString (if modify then placeholder else []) (toShort maxSize) keys =
        .ok (some text) keys₁ ∧ cutToSize maxSize text keys₁ = .ok output keys' ∧
      comma ∉ output ∧ answer = some (if output = [] then [49] else output)) := by
  rw [addModifyCriteria] at h
  obtain ⟨text, keys₁, hread, h⟩ := bind_eq_ok.1 h
  cases text with
  | none =>
    simp only [pure_apply, EStateM.Result.ok.injEq] at h
    obtain ⟨rfl, rfl⟩ := h
    exact .inl ⟨rfl, hread⟩
  | some text =>
    obtain ⟨output, keys₂, hcut, h⟩ := bind_eq_ok.1 h
    by_cases hcomma : comma ∈ output
    · rw [if_pos hcomma] at h
      obtain ⟨key, rest, hkey, h⟩ := bind_eq_ok.1 h
      obtain ⟨again, keys₃, hagain, h⟩ := bind_eq_ok.1 h
      rw [addModifyCriteria_placeholder] at hagain
      obtain rfl := getch_eq_ok.1 hkey
      cases again with
      | none => cases h
      | some again =>
        simp only [pure_apply, EStateM.Result.ok.injEq] at h
        obtain ⟨rfl, rfl⟩ := h
        have hrefused : Refused placeholder modify maxSize keys rest :=
          ⟨text, keys₁, output, key, hread, hcut, hcomma⟩
        exact .inr (.inl ⟨rest, hrefused, again, hagain, rfl⟩)
    · rw [if_neg hcomma] at h
      simp only [pure_apply, EStateM.Result.ok.injEq] at h
      obtain ⟨rfl, rfl⟩ := h
      exact .inr (.inr ⟨text, keys₁, output, hread, hcut, hcomma, rfl⟩)

/-- A refused text cost two keys at least. -/
theorem Refused.length {placeholder : Str} {modify : Bool} {maxSize : ℤ} {keys rest : List Key}
    (h : Refused placeholder modify maxSize keys rest) : rest.length + 2 ≤ keys.length := by
  obtain ⟨text, keys', output, key, hread, hcut, -⟩ := h
  have h1 := getString_length hread
  have h2 := (cutToSize_eq_ok hcut).1
  rw [List.length_cons] at h2
  omega

/-- A prompt halts where it refuses a text and what follows halts or is cancelled. -/
theorem haltsFor_addModifyCriteria_succ {placeholder : Str} {modify : Bool} {maxSize : ℤ}
    {fuel : ℕ} {keys : List Key} :
    HaltsFor Halt.OfInput (addModifyCriteria placeholder modify maxSize (fuel + 1)) keys ↔
      ∃ rest, Refused placeholder modify maxSize keys rest ∧
        (HaltsFor Halt.OfInput (addModifyCriteria placeholder modify maxSize fuel) rest ∨
          ∃ rest', addModifyCriteria placeholder modify maxSize fuel rest = .ok none rest') := by
  rw [addModifyCriteria, haltsFor_bind, or_iff_right (not_haltsFor_of_waiting
    (onlyWaits_getString _ _) _)]
  constructor
  · rintro ⟨text, keys₁, hread, h⟩
    cases text with
    | none => exact absurd h (haltsFor_pure _ _)
    | some text =>
      rw [haltsFor_bind, or_iff_right (not_haltsFor_of_waiting (onlyWaits_cutToSize _ _) _)] at h
      obtain ⟨output, keys₂, hcut, h⟩ := h
      by_cases hcomma : comma ∈ output
      · rw [if_pos hcomma, haltsFor_bind,
          or_iff_right (not_haltsFor_of_waiting onlyWaits_getch _)] at h
        obtain ⟨key, rest, hkey, h⟩ := h
        rw [haltsFor_bind, addModifyCriteria_placeholder] at h
        obtain rfl := getch_eq_ok.1 hkey
        refine ⟨rest, ⟨text, keys₁, output, key, hread, hcut, hcomma⟩, h.imp_right ?_⟩
        rintro ⟨again, rest', hagain, h⟩
        cases again with
        | none => exact ⟨rest', hagain⟩
        | some again => exact absurd h (haltsFor_pure _ _)
      · rw [if_neg hcomma] at h
        exact absurd h (haltsFor_pure _ _)
  · rintro ⟨rest, ⟨text, keys₁, output, key, hread, hcut, hcomma⟩, h⟩
    refine ⟨some text, keys₁, hread, haltsFor_bind.2 (.inr ⟨output, key :: rest, hcut, ?_⟩)⟩
    rw [if_pos hcomma]
    refine haltsFor_bind.2 (.inr ⟨key, rest, rfl, haltsFor_bind.2 ?_⟩)
    rw [addModifyCriteria_placeholder]
    refine h.imp_right ?_
    rintro ⟨rest', hnone⟩
    exact ⟨none, rest', hnone, (haltsFor_throw _ _).2 trivial⟩

/-- **A prompt of the form ends the program** exactly when it refuses a text and is
cancelled when it asks again. -/
theorem haltsFor_addModifyCriteria {placeholder : Str} {modify : Bool} {maxSize : ℤ} {fuel : ℕ}
    {keys : List Key} (hfuel : keys.length < fuel) :
    HaltsFor Halt.OfInput (addModifyCriteria placeholder modify maxSize fuel) keys ↔
      CancelsRetry placeholder modify maxSize keys := by
  induction fuel generalizing keys with
  | zero => omega
  | succ fuel ih =>
    rw [haltsFor_addModifyCriteria_succ]
    constructor
    · rintro ⟨rest, hrefused, h⟩
      have hlen := hrefused.length
      rcases h with h | ⟨rest', h⟩
      · exact .again hrefused ((ih (by omega)).1 h)
      · obtain ⟨n, rfl⟩ : ∃ n, fuel = n + 1 := ⟨fuel - 1, by omega⟩
        obtain ⟨-, hread⟩ | ⟨_, _, _, _, hsome⟩ | ⟨_, _, _, _, _, _, hsome⟩ :=
          addModifyCriteria_eq_ok h
        · exact .cancelled hrefused hread
        · cases hsome
        · cases hsome
    · intro h
      cases h with
      | @cancelled _ rest rest' hrefused hread =>
        have hlen := hrefused.length
        obtain ⟨n, rfl⟩ : ∃ n, fuel = n + 1 := ⟨fuel - 1, by omega⟩
        refine ⟨rest, hrefused, .inr ⟨rest', ?_⟩⟩
        rw [addModifyCriteria, bind_apply, hread]
        rfl
      | @again _ rest hrefused hagain =>
        have hlen := hrefused.length
        exact ⟨rest, hrefused, .inl ((ih (by omega)).2 hagain)⟩

/-- What an answer of the form must be: not empty, without a comma, and no longer than its
prompt allows. -/
structure ValidAnswer (maxSize : ℤ) (answer : Str) : Prop where
  nonempty : answer ≠ []
  noComma : comma ∉ answer
  short : (answer.length : ℤ) ≤ maxSize

/-- An empty text becomes `1`. -/
theorem validAnswer_default {maxSize : ℤ} (hpos : 0 < maxSize) {s : Str} (hcomma : comma ∉ s)
    (hshort : (s.length : ℤ) ≤ maxSize) : ValidAnswer maxSize (if s = [] then [49] else s) := by
  split_ifs with hs
  · exact ⟨by simp, by decide, by simp; omega⟩
  · exact ⟨hs, hcomma, hshort⟩

/-- **Every answer of a prompt is valid.** -/
theorem addModifyCriteria_valid {placeholder : Str} {modify : Bool} {maxSize : ℤ}
    (hpos : 0 < maxSize) {fuel : ℕ} {keys keys' : List Key} {answer : Str}
    (h : addModifyCriteria placeholder modify maxSize fuel keys = .ok (some answer) keys') :
    ValidAnswer maxSize answer := by
  induction fuel generalizing keys answer with
  | zero => cases h
  | succ fuel ih =>
    obtain ⟨hnone, -⟩ | ⟨rest, -, again, hagain, hsome⟩ |
      ⟨text, keys₁, output, -, hcut, hcomma, hsome⟩ := addModifyCriteria_eq_ok h
    · cases hnone
    · obtain rfl := Option.some.inj hsome
      have hvalid := ih hagain
      exact validAnswer_default hpos hvalid.noComma hvalid.short
    · obtain rfl := Option.some.inj hsome
      exact validAnswer_default hpos hcomma ((cutToSize_eq_ok hcut).2 hpos.le)

/-! ## The form -/

/-- The prompts of the form: their placeholders and sizes. -/
def formPrompts (maxNameLength : ℤ) (p : Product) : List (Str × ℤ) :=
  [(p.name, maxNameLength), (intText p.code, maxCodeLength + 1),
    (doubleText p.price, maxPriceLength), (intText p.discount, 2), ([p.taxChar], 3),
    (doubleText p.stock, maxProductQuanityLength), (doubleText p.priceToStock, maxPriceLength)]

/-- One of the prompts is reached and refuses a text, and is cancelled when it asks
again. -/
def RetryCancelled (modify : Bool) : List (Str × ℤ) → List Key → Prop
  | [], _ => False
  | (placeholder, maxSize) :: prompts, keys =>
    CancelsRetry placeholder modify maxSize keys ∨
      ∃ answer rest,
        addModifyCriteria placeholder modify maxSize (keys.length + 1) keys =
          .ok (some answer) rest ∧ RetryCancelled modify prompts rest

/-- A prompt halts for a text where it is left after a refused one, or where what follows it
halts. -/
theorem haltsFor_ask {α : Type} {placeholder : Str} {modify : Bool} {maxSize : ℤ}
    {next : Str → Input (Option α)} {prompts : List (Str × ℤ)}
    (h : ∀ answer rest, HaltsFor Halt.OfInput (next answer) rest ↔
      RetryCancelled modify prompts rest) (keys : List Key) :
    HaltsFor Halt.OfInput (ask placeholder modify maxSize next) keys ↔
      RetryCancelled modify ((placeholder, maxSize) :: prompts) keys := by
  have hfuel : keys.length < keys.length + 1 := Nat.lt_succ_self _
  rw [RetryCancelled, ← haltsFor_addModifyCriteria hfuel]
  unfold HaltsFor at h ⊢
  rw [ask_apply]
  cases addModifyCriteria placeholder modify maxSize (keys.length + 1) keys with
  | error e keys' => simp
  | ok answer keys' =>
    cases answer with
    | none => simp
    | some answer =>
      constructor
      · intro hnext
        exact .inr ⟨answer, keys', rfl, (h answer keys').1 hnext⟩
      · rintro (⟨_, _, ⟨⟩, _⟩ | ⟨_, _, ⟨⟩, hrest⟩)
        exact (h answer keys').2 hrest

/-- A prompt that went on had an answer. -/
theorem ask_eq_ok {α : Type} {placeholder : Str} {modify : Bool} {maxSize : ℤ}
    {next : Str → Input (Option α)} {keys keys' : List Key} {a : α}
    (h : ask placeholder modify maxSize next keys = .ok (some a) keys') :
    ∃ answer rest, addModifyCriteria placeholder modify maxSize (keys.length + 1) keys =
      .ok (some answer) rest ∧ next answer rest = .ok (some a) keys' := by
  rw [ask_apply] at h
  cases hc : addModifyCriteria placeholder modify maxSize (keys.length + 1) keys with
  | error e rest => simp [hc] at h
  | ok answer rest =>
    cases answer with
    | none => simp [hc] at h
    | some answer => exact ⟨answer, rest, rfl, by simpa [hc] using h⟩

/-- **Reading the answers ends the program** exactly when a prompt is cancelled on its
retry. -/
theorem haltsFor_formAnswers {maxNameLength : ℤ} {modify : Bool} {p : Product}
    {keys : List Key} :
    HaltsFor Halt.OfInput (formAnswers maxNameLength modify p) keys ↔
      RetryCancelled modify (formPrompts maxNameLength p) keys := by
  unfold formAnswers formPrompts
  iterate 6 refine haltsFor_ask (fun _ _ => ?_) _
  refine haltsFor_ask (fun priceToStock rest => ?_) _
  refine iff_of_false ?_ id
  refine not_haltsFor_of_waiting (onlyHalts_bind (onlyWaits_soldByLoop _) fun selection => ?_) _
  cases selection <;> exact onlyHalts_pure _

/-- The texts of the form that are converted are accepted. -/
def AnswersConvert (a : Answers) : Prop :=
  (keptChars a.code).head? ≠ some dot ∧ PointFollowed (keptChars a.price) ∧
    PointFollowed (keptChars a.discount) ∧ PointFollowed (keptChars a.stock) ∧
    PointFollowed (keptChars a.priceToStock)

/-- The text is an answer of a prompt. -/
def AnswerOf (placeholder : Str) (modify : Bool) (maxSize : ℤ) (answer : Str) : Prop :=
  ∃ fuel keys rest, addModifyCriteria placeholder modify maxSize fuel keys = .ok (some answer) rest

/-- Every answer of a prompt of positive size is valid. -/
theorem AnswerOf.valid {placeholder : Str} {modify : Bool} {maxSize : ℤ} {answer : Str}
    (h : AnswerOf placeholder modify maxSize answer) (hpos : 0 < maxSize) :
    ValidAnswer maxSize answer := by
  obtain ⟨fuel, keys, rest, h⟩ := h
  exact addModifyCriteria_valid hpos h

/-- Where the answers of the form come from. -/
structure AnswersRead (maxNameLength : ℤ) (modify : Bool) (p : Product) (a : Answers) : Prop where
  name : AnswerOf p.name modify maxNameLength a.name
  code : AnswerOf (intText p.code) modify (maxCodeLength + 1) a.code
  price : AnswerOf (doubleText p.price) modify maxPriceLength a.price
  discount : AnswerOf (intText p.discount) modify 2 a.discount
  tax : AnswerOf [p.taxChar] modify 3 a.tax
  stock : AnswerOf (doubleText p.stock) modify maxProductQuanityLength a.stock
  priceToStock : AnswerOf (doubleText p.priceToStock) modify maxPriceLength a.priceToStock
  selection : ∃ keys rest, soldByLoop keys p.soldBy.toInt = .ok (some a.selection) rest

/-- **A form filled in** has an answer of every prompt. -/
theorem answersRead_of_formAnswers {maxNameLength : ℤ} {modify : Bool} {p : Product}
    {keys keys' : List Key} {a : Answers}
    (h : formAnswers maxNameLength modify p keys = .ok (some a) keys') :
    AnswersRead maxNameLength modify p a := by
  unfold formAnswers at h
  obtain ⟨name, rest, hname, h⟩ := ask_eq_ok h
  obtain ⟨code, rest, hcode, h⟩ := ask_eq_ok h
  obtain ⟨price, rest, hprice, h⟩ := ask_eq_ok h
  obtain ⟨discount, rest, hdiscount, h⟩ := ask_eq_ok h
  obtain ⟨tax, rest, htax, h⟩ := ask_eq_ok h
  obtain ⟨stock, rest, hstock, h⟩ := ask_eq_ok h
  obtain ⟨priceToStock, rest, hpriceToStock, h⟩ := ask_eq_ok h
  obtain ⟨selection, rest, hselection, h⟩ := bind_eq_ok.1 h
  cases selection with
  | none => simp at h
  | some selection =>
    simp only [pure_apply, EStateM.Result.ok.injEq, Option.some.injEq] at h
    obtain ⟨rfl, -⟩ := h
    exact
      { name := ⟨_, _, _, hname⟩
        code := ⟨_, _, _, hcode⟩
        price := ⟨_, _, _, hprice⟩
        discount := ⟨_, _, _, hdiscount⟩
        tax := ⟨_, _, _, htax⟩
        stock := ⟨_, _, _, hstock⟩
        priceToStock := ⟨_, _, _, hpriceToStock⟩
        selection := ⟨_, _, hselection⟩ }

/-- The texts that are converted are no longer than their prompts allow. -/
theorem AnswersRead.lengths {maxNameLength : ℤ} {modify : Bool} {p : Product} {a : Answers}
    (h : AnswersRead maxNameLength modify p a) :
    a.code.length ≤ 14 ∧ a.price.length ≤ 6 ∧ a.discount.length ≤ 2 ∧ a.stock.length ≤ 8 ∧
      a.priceToStock.length ≤ 6 := by
  have h1 := (h.code.valid (by decide)).short
  have h2 := (h.price.valid (by decide)).short
  have h3 := (h.discount.valid (by decide)).short
  have h4 := (h.stock.valid (by decide)).short
  have h5 := (h.priceToStock.valid (by decide)).short
  simp only [maxCodeLength, maxPriceLength, maxProductQuanityLength] at h1 h2 h3 h4 h5
  omega

/-- They have at most fourteen characters. -/
theorem formAnswers_short {maxNameLength : ℤ} {modify : Bool} {p : Product}
    {keys keys' : List Key} {a : Answers}
    (h : formAnswers maxNameLength modify p keys = .ok (some a) keys') :
    a.code.length ≤ 14 ∧ a.price.length ≤ 14 ∧ a.discount.length ≤ 14 ∧ a.stock.length ≤ 14 ∧
      a.priceToStock.length ≤ 14 := by
  have hlengths := (answersRead_of_formAnswers h).lengths
  omega

/-- **The answers convert** exactly when their texts are accepted. -/
theorem toProduct_cases {a : Answers} (old : Product)
    (hshort : a.code.length ≤ 14 ∧ a.price.length ≤ 14 ∧ a.discount.length ≤ 14 ∧
      a.stock.length ≤ 14 ∧ a.priceToStock.length ≤ 14) :
    (AnswersConvert a ∧ ∃ p, a.toProduct old = .ok p) ∨
    (¬AnswersConvert a ∧ ∃ d, a.toProduct old = .error d ∧ (Halt.thrown d).OfInput) := by
  obtain ⟨s1, s2, s3, s4, s5⟩ := hshort
  unfold AnswersConvert Answers.toProduct
  rw [← integerText_of_short s1, ← floatText_of_short s2, ← floatText_of_short s3,
    ← floatText_of_short s4, ← floatText_of_short s5]
  obtain ⟨h1, code, e1⟩ | ⟨h1, d, e1, hd⟩ := parseInteger_cases (2 ^ 63 - 1) a.code
  case inr => exact .inr ⟨fun h => h1 h.1, d, by rw [stol, e1]; rfl, hd⟩
  obtain ⟨h2, price, e2⟩ | ⟨h2, d, e2, hd⟩ := parseFloat_cases binary64 a.price
  case inr => exact .inr ⟨fun h => h2 h.2.1, d, by rw [stol, stod, e1, e2]; rfl, hd⟩
  obtain ⟨h3, discount, e3⟩ | ⟨h3, d, e3, hd⟩ := parseFloat_cases binary64 a.discount
  case inr =>
    exact .inr ⟨fun h => h3 h.2.2.1, d, by simp only [stol, stod, e1, e2, e3]; rfl, hd⟩
  obtain ⟨h4, stock, e4⟩ | ⟨h4, d, e4, hd⟩ := parseFloat_cases binary64 a.stock
  case inr =>
    exact .inr ⟨fun h => h4 h.2.2.2.1, d, by simp only [stol, stod, e1, e2, e3, e4]; rfl, hd⟩
  obtain ⟨h5, priceToStock, e5⟩ | ⟨h5, d, e5, hd⟩ := parseFloat_cases binary64 a.priceToStock
  case inr =>
    exact .inr ⟨fun h => h5 h.2.2.2.2, d, by simp only [stol, stod, e1, e2, e3, e4, e5]; rfl, hd⟩
  exact .inl ⟨⟨h1, h2, h3, h4, h5⟩, _, by simp only [stol, stod, e1, e2, e3, e4, e5]; rfl⟩

/-! ## What does not depend on the texts -/

/-- A value that may be missing halts where it is. -/
@[simp] theorem haltsFor_orThrow {σ α : Type} {x : Except Exception α} {s : σ} :
    HaltsFor Halt.OfInput (orThrow x) s ↔ ∃ d, x = .error d ∧ (Halt.thrown d).OfInput := by
  unfold HaltsFor
  simp only [orThrow_eq_error]
  constructor
  · rintro ⟨_, _, ⟨d, hd, rfl, rfl⟩, he⟩
    exact ⟨d, hd, he⟩
  · rintro ⟨d, hd, he⟩
    exact ⟨_, _, ⟨d, hd, rfl, rfl⟩, he⟩

/-- `get_product_data` halts for no text typed. -/
theorem not_haltsFor_getProductData {σ : Type} (code : ℤ) (t : Table) (s : σ) :
    ¬HaltsFor Halt.OfInput (orThrow (getProductData code t)) s := by
  rw [haltsFor_orThrow]
  rintro ⟨d, hd, he⟩
  rw [(getProductData_eq_error.1 hd).1] at he
  exact he

/-- Neither does `product_exists`. -/
theorem not_haltsFor_productExists {σ : Type} (code : ℤ) (t : Table) (s : σ) :
    ¬HaltsFor Halt.OfInput (orThrow (productExists code t)) s := by
  rw [haltsFor_orThrow]
  rintro ⟨d, hd, he⟩
  unfold productExists at hd
  split_ifs at hd
  cases hd
  exact he

/-- Neither does `update_stock`. -/
theorem not_haltsFor_updateStock {σ : Type} (srv : Server) (p : Product) (t : Table) (s : σ) :
    ¬HaltsFor Halt.OfInput (orThrow (updateStock srv p t)) s := by
  rw [haltsFor_orThrow]
  rintro ⟨d, hd, he⟩
  unfold updateStock at hd
  cases hexists : productExists p.code t with
  | error x =>
    rw [hexists] at hd
    cases hd
    exact not_haltsFor_productExists p.code t s (haltsFor_orThrow.2 ⟨_, hexists, he⟩)
  | ok update =>
    rw [hexists] at hd
    by_cases hquote : quote ∈ p.name
    · cases hq : srv.quoted update p t with
      | none =>
        simp only [bind, Except.bind, if_pos hquote, hq, Except.error.injEq] at hd
        subst hd
        exact he
      | some t' => simp [bind, Except.bind, hquote, hq] at hd
    · simp only [bind, Except.bind, if_neg hquote] at hd
      split_ifs at hd
      cases hd
      exact he

/-! ## Saving the form -/

/-- The form, run on a code with these keys: no prompt is cancelled on its retry, and the
texts converted are accepted. -/
def FormConverts (maxNameLength code : ℤ) (modify : Bool) (t : Table) (keys : List Key) : Prop :=
  ∀ q, getProductData code t = .ok q →
    ¬RetryCancelled modify (formPrompts maxNameLength q) keys ∧
    ∀ a rest, formAnswers maxNameLength modify q keys = .ok (some a) rest → AnswersConvert a

/-- **The form ends the program** exactly when its texts do not convert. -/
theorem haltsFor_addModifyProduct {srv : Server} {maxNameLength code : ℤ} {modify : Bool}
    {t : Table} {keys : List Key} :
    HaltsFor Halt.OfInput (addModifyProduct srv maxNameLength code modify t) keys ↔
      ¬FormConverts maxNameLength code modify t keys := by
  rw [addModifyProduct, haltsFor_bind, or_iff_right (not_haltsFor_getProductData _ _ _)]
  constructor
  · rintro ⟨q, keys₁, hq, h⟩ hconv
    obtain ⟨hget, rfl⟩ := orThrow_eq_ok.1 hq
    obtain ⟨hretry, hanswers⟩ := hconv q hget
    rw [haltsFor_bind, haltsFor_formAnswers, or_iff_right hretry] at h
    obtain ⟨answers, rest, hform, h⟩ := h
    cases answers with
    | none => exact haltsFor_pure _ _ h
    | some a =>
      obtain ⟨-, p, hp⟩ | ⟨hno, -⟩ := toProduct_cases q (formAnswers_short hform)
      · simp only [haltsFor_bind, haltsFor_orThrow, hp, orThrow_eq_ok, reduceCtorEq, false_and,
          exists_false, false_or] at h
        obtain ⟨p', rest', -, h⟩ := h
        exact not_haltsFor_updateStock srv p' t rest' (haltsFor_orThrow.2 h)
      · exact hno (hanswers a rest hform)
  · intro hno
    unfold FormConverts at hno
    push Not at hno
    obtain ⟨q, hq, hno⟩ := hno
    refine ⟨q, keys, orThrow_eq_ok.2 ⟨hq, rfl⟩, haltsFor_bind.2 ?_⟩
    by_cases hretry : RetryCancelled modify (formPrompts maxNameLength q) keys
    · exact .inl (haltsFor_formAnswers.2 hretry)
    · obtain ⟨a, rest, hform, hreject⟩ := hno hretry
      obtain ⟨hyes, -⟩ | ⟨-, d, hd, he⟩ := toProduct_cases q (formAnswers_short hform)
      · exact absurd hyes hreject
      · exact .inr ⟨some a, rest, hform, haltsFor_bind.2 (.inl (haltsFor_orThrow.2 ⟨d, hd, he⟩))⟩

end CliPos
