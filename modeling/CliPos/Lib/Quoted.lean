import Mathlib.Data.List.Basic

/-!
# Texts with quoted literals

A text over an alphabet with a quote symbol: what stands between two quotes is a literal,
and a doubled quote inside one stands for the quote itself.  `lex` reads a text into plain
symbols and literals, in one pass; it fails when a literal is left open.

A literal spliced into a text as it is comes back from `lex` when it holds no quote
(`lex_literal`).  With a quote in it no text behind it can save it: `lex` either fails or
reads another literal there (`lex_splice_ne`).
-/

set_option autoImplicit false

namespace Quoted

variable {α : Type} [DecidableEq α] {quote : α}

/-- A plain symbol, or a literal by the text it stands for. -/
inductive Token (α : Type) where
  | plain (a : α)
  | literal (text : List α)
  deriving DecidableEq

/-- Where a lexer is: outside the literals, inside one that stands for `text` so far, or
behind a quote inside one, which ends it unless it is doubled. -/
inductive State (α : Type) where
  | outside
  | inside (text : List α)
  | afterQuote (text : List α)

/-- Read a text from a state. -/
def lex (quote : α) : State α → List α → Option (List (Token α))
  | .outside, [] => some []
  | .inside _, [] => none
  | .afterQuote text, [] => some [.literal text]
  | .outside, a :: rest =>
    if a = quote then lex quote (.inside []) rest else (lex quote .outside rest).map (.plain a :: ·)
  | .inside text, a :: rest =>
    if a = quote then lex quote (.afterQuote text) rest
    else lex quote (.inside (text ++ [a])) rest
  | .afterQuote text, a :: rest =>
    if a = quote then lex quote (.inside (text ++ [quote])) rest
    else (lex quote .outside rest).map (.literal text :: .plain a :: ·)

/-- The literals of a text, in order. -/
def literals (tokens : List (Token α)) : List (List α) :=
  tokens.filterMap fun
    | .plain _ => none
    | .literal text => some text

/-- The plain symbols of a text, in order. -/
def plains (tokens : List (Token α)) : List α :=
  tokens.filterMap fun
    | .plain a => some a
    | .literal _ => none

omit [DecidableEq α] in
/-- Symbols outside quotes are no literals. -/
@[simp] theorem literals_plain (s : List α) (tokens : List (Token α)) :
    literals (s.map .plain ++ tokens) = literals tokens := by
  simp [literals, List.filterMap_append, List.filterMap_map]

omit [DecidableEq α] in
/-- A literal is one. -/
@[simp] theorem literals_literal (text : List α) (tokens : List (Token α)) :
    literals (.literal text :: tokens) = text :: literals tokens := by
  simp [literals]

omit [DecidableEq α] in
/-- Symbols outside quotes are plain. -/
@[simp] theorem plains_plain (s : List α) (tokens : List (Token α)) :
    plains (s.map .plain ++ tokens) = s ++ plains tokens := by
  simp [plains, List.filterMap_append, List.filterMap_map]

omit [DecidableEq α] in
/-- A literal is not. -/
@[simp] theorem plains_literal (text : List α) (tokens : List (Token α)) :
    plains (.literal text :: tokens) = plains tokens := by
  simp [plains]

/-- A text with its quotes doubled. -/
def escape (quote : α) (s : List α) : List α :=
  s.flatMap fun a => if a = quote then [quote, quote] else [a]

/-! ## Texts without quotes -/

/-- A text without quotes is read as it is. -/
theorem lex_plain {s : List α} (hs : quote ∉ s) (rest : List α) :
    lex quote .outside (s ++ rest) = (lex quote .outside rest).map (s.map .plain ++ ·) := by
  induction s with
  | nil => simp
  | cons a s ih =>
    rw [List.mem_cons, not_or] at hs
    rw [List.cons_append, lex, if_neg (Ne.symm hs.1), ih hs.2, Option.map_map]
    rfl

/-- Inside a literal every symbol but the quote belongs to it. -/
theorem lex_inside {s : List α} (hs : quote ∉ s) (text rest : List α) :
    lex quote (.inside text) (s ++ rest) = lex quote (.inside (text ++ s)) rest := by
  induction s generalizing text with
  | nil => simp
  | cons a s ih =>
    rw [List.mem_cons, not_or] at hs
    rw [List.cons_append, lex, if_neg (Ne.symm hs.1), ih hs.2, List.append_assoc,
      List.singleton_append]

/-- **A literal without quotes comes back**, when what follows does not start with a
quote. -/
theorem lex_literal {s : List α} (hs : quote ∉ s) {a : α} (ha : a ≠ quote) (rest : List α) :
    lex quote .outside (quote :: (s ++ quote :: a :: rest)) =
      (lex quote .outside (a :: rest)).map (.literal s :: ·) := by
  rw [lex, if_pos rfl, lex_inside hs]
  simp only [lex, if_true, if_neg ha, List.nil_append, Option.map_map]
  rfl

/-- Without quotes a text is read to its end. -/
theorem lex_plain_eq {s : List α} (hs : quote ∉ s) :
    lex quote .outside s = some (s.map .plain ++ []) := by
  have h := lex_plain hs []
  rwa [List.append_nil] at h

/-- A literal that is not closed is no text. -/
theorem lex_inside_eq_none {s : List α} (hs : quote ∉ s) (text : List α) :
    lex quote (.inside text) s = none := by
  have h := lex_inside hs text []
  rwa [List.append_nil] at h

/-- **What a literal was read from**: its text with the quotes doubled, a quote, and then
no quote. -/
theorem lex_inside_eq_some {text s : List α} {tokens : List (Token α)}
    (h : lex quote (.inside text) s = some tokens) :
    ∃ u rest, s = escape quote u ++ quote :: rest ∧ rest.head? ≠ some quote ∧
      (literals tokens).head? = some (text ++ u) := by
  -- a quote takes two symbols, so the induction is on the length
  induction hn : s.length using Nat.strongRecOn generalizing text s with
  | _ n ih =>
    cases s with
    | nil => cases h
    | cons a s =>
      rw [lex] at h
      by_cases ha : a = quote
      · subst ha
        rw [if_pos rfl] at h
        cases s with
        | nil =>
          obtain rfl := Option.some.inj h
          exact ⟨[], [], rfl, by simp, by simp [literals]⟩
        | cons b s =>
          rw [lex] at h
          by_cases hb : b = a
          · subst hb
            rw [if_pos rfl] at h
            have hlt : s.length < n := by
              rw [← hn, List.length_cons, List.length_cons]
              omega
            obtain ⟨u, rest, hs, hrest, hlit⟩ := ih s.length hlt h rfl
            refine ⟨b :: u, rest, ?_, hrest, by simpa using hlit⟩
            rw [hs]
            simp [escape]
          · rw [if_neg hb] at h
            obtain ⟨rest, -, rfl⟩ := Option.map_eq_some_iff.1 h
            exact ⟨[], b :: s, rfl, by simpa using hb, by simp [literals]⟩
      · rw [if_neg ha] at h
        obtain ⟨u, rest, hs, hrest, hlit⟩ := ih s.length (by simp [← hn]) h rfl
        refine ⟨a :: u, rest, ?_, hrest, by simpa using hlit⟩
        rw [hs]
        simp [escape, ha]

/-- A text read with more quotes than it has. -/
theorem append_ne_replicate_escape {a : α} (ha : a ≠ quote) (s rest rest' : List α) (k : ℕ) :
    s ++ quote :: a :: rest ≠
      List.replicate (k + 1) quote ++ (escape quote s ++ quote :: rest') := by
  induction s generalizing k with
  | nil =>
    intro h
    cases k with
    | zero => simp [escape, ha] at h
    | succ k => simp [escape, List.replicate_succ, ha] at h
  | cons b s ih =>
    intro h
    rw [List.replicate_succ, List.cons_append, List.cons_append] at h
    obtain ⟨rfl, h⟩ := List.cons.inj h
    refine ih (k + 1) (h.trans ?_)
    simp [escape, List.replicate_succ']

/-- **A literal with a quote in it never comes back**: spliced into a text as it is, with a
plain symbol behind it, it is left open or read as another literal. -/
theorem lex_splice_ne {s : List α} (hs : quote ∈ s) {a : α} (ha : a ≠ quote) {rest : List α}
    {tokens : List (Token α)}
    (h : lex quote (.inside []) (s ++ quote :: a :: rest) = some tokens) :
    (literals tokens).head? ≠ some s := by
  obtain ⟨u, rest', hsplit, -, hlit⟩ := lex_inside_eq_some h
  rw [hlit, List.nil_append]
  rintro ⟨⟩
  clear h hlit
  induction s with
  | nil => cases hs
  | cons b s ih =>
    by_cases hb : b = quote
    · subst hb
      refine append_ne_replicate_escape ha s rest rest' 0 ?_
      have htail : s ++ b :: a :: rest = b :: (escape b s ++ b :: rest') := by
        simpa [escape] using hsplit
      rw [htail]
      rfl
    · have hmem : quote ∈ s := (List.mem_cons.1 hs).resolve_left (Ne.symm hb)
      exact ih hmem (by simpa [escape, hb] using hsplit)

end Quoted
