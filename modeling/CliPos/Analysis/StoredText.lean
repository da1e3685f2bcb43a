import CliPos.Model.SqlText
import CliPos.Lib.Quoted
import CliPos.Analysis.Prompts
import CliPos.Analysis.Readback

/-!
# Texts inside statements

`update_stock` splices the name and the tax into its statements without doubling their
quotes, and the form only asks that a name holds no comma.  Both statements have the shape
`spliced`; their literals are the name and the tax exactly when neither holds a quote
(`stored_text_iff`).
-/

set_option autoImplicit false

namespace CliPos

open Decimal Quoted

/-- The byte that ends a statement. -/
def semicolon : Byte := 59

/-- The text is one statement, and its literals are the name and the tax. -/
def StoredAsData (text name : Str) (tax : Byte) : Prop :=
  ∃ tokens, lex quote .outside text = some tokens ∧ literals tokens = [name, [tax]] ∧
    ∃ body, plains tokens = body ++ [semicolon] ∧ semicolon ∉ body

/-- A statement with two literals: what stands before, between and behind them. -/
def spliced (before name between : Str) (tax : Byte) (behind : Str) : Str :=
  before ++ quote :: (name ++ quote :: (between ++ quote :: tax :: quote :: behind))

section

variable {before name between behind : Str} {tax : Byte}

/-- **Without quotes** the literals of a statement are the texts put into it. -/
theorem lex_spliced (hbefore : quote ∉ before) (hname : quote ∉ name)
    (hbetween : quote ∉ comma :: between) (htax : tax ≠ quote)
    (hbehind : quote ∉ comma :: behind) :
    lex quote .outside (spliced before name (comma :: between) tax (comma :: behind)) =
      some (before.map .plain ++ .literal name :: ((comma :: between).map .plain ++
        .literal [tax] :: ((comma :: behind).map .plain ++ []))) := by
  have hcomma : comma ≠ quote := by decide
  have hsecond := lex_literal (s := [tax]) (by simpa using Ne.symm htax) hcomma behind
  rw [lex_plain_eq hbehind] at hsecond
  have hrest := lex_plain hbetween (quote :: tax :: quote :: comma :: behind)
  have hfirst := lex_literal hname hcomma (between ++ quote :: tax :: quote :: comma :: behind)
  rw [List.singleton_append] at hsecond
  rw [hsecond, List.cons_append] at hrest
  rw [hrest] at hfirst
  rw [spliced, lex_plain hbefore, List.cons_append, hfirst]
  rfl

/-- **A quote in the name** changes the literal read there. -/
theorem not_stored_of_name (hbefore : quote ∉ before) (hname : quote ∈ name) :
    ¬StoredAsData (spliced before name (comma :: between) tax (comma :: behind)) name tax := by
  rintro ⟨tokens, hlex, hliterals, -⟩
  rw [spliced, lex_plain hbefore, lex, if_pos rfl] at hlex
  obtain ⟨rest, hrest, rfl⟩ := Option.map_eq_some_iff.1 hlex
  rw [literals_plain] at hliterals
  refine lex_splice_ne hname (by decide) hrest ?_
  rw [hliterals, List.head?_cons]

/-- **A quote as tax** leaves its literal open. -/
theorem not_stored_of_tax (hbefore : quote ∉ before) (hname : quote ∉ name)
    (hbetween : quote ∉ comma :: between) (hbehind : quote ∉ comma :: behind) :
    ¬StoredAsData (spliced before name (comma :: between) quote (comma :: behind)) name
      quote := by
  rintro ⟨tokens, hlex, -⟩
  have hopen : lex quote .outside (quote :: quote :: quote :: comma :: behind) = none := by
    simp only [lex, if_true]
    exact lex_inside_eq_none hbehind _
  have hrest := lex_plain hbetween (quote :: quote :: quote :: comma :: behind)
  have hfirst := lex_literal hname (a := comma) (by decide)
    (between ++ quote :: quote :: quote :: comma :: behind)
  rw [hopen, List.cons_append] at hrest
  rw [hrest] at hfirst
  rw [spliced, lex_plain hbefore, List.cons_append, hfirst] at hlex
  cases hlex

/-- **A statement stores its texts as data** exactly when they hold no quote. -/
theorem storedAsData_spliced_iff (hbefore : quote ∉ before)
    (hbetween : quote ∉ comma :: between) (hbehind : quote ∉ comma :: behind) {body : Str}
    (hend : before ++ (comma :: between ++ comma :: behind) = body ++ [semicolon])
    (hone : semicolon ∉ body) :
    StoredAsData (spliced before name (comma :: between) tax (comma :: behind)) name tax ↔
      quote ∉ name ∧ tax ≠ quote := by
  constructor
  · intro h
    have hname : quote ∉ name := fun hname => not_stored_of_name hbefore hname h
    refine ⟨hname, ?_⟩
    rintro rfl
    exact not_stored_of_tax hbefore hname hbetween hbehind h
  · rintro ⟨hname, htax⟩
    refine ⟨_, lex_spliced hbefore hname hbetween htax hbehind, ?_, body, ?_, hone⟩
    · simp only [literals_plain, literals_literal]
      rfl
    · simp only [plains_plain, plains_literal]
      rw [← hend]
      simp [plains]

end

/-! ## The statements of `update_stock` -/

/-- What the `UPDATE` has between its literals, after the comma. -/
def updateBetween (p : Product) : Str := List.flatten
  [label " ", label "code = ", intText p.code, label ", ", label "price = ", doubleText p.price,
    label ", ", label "discount = ", intText p.discount, label ", ", label "tax = "]

/-- What the `UPDATE` has behind them, after the comma and up to the semicolon. -/
def updateBehind (p : Product) : Str := List.flatten
  [label " ", label "stock = ", doubleText p.stock, label ", ", label "price_to_stock = ",
    doubleText p.priceToStock, label ", ", label "sold_by = ", intText p.soldBy.toInt,
    label " WHERE code = ", intText p.code]

/-- What the `INSERT` has before its literals. -/
def insertBefore : Str := List.flatten
  [label "INSERT INTO products",
    label "(name, code, price, discount, tax, stock, price_to_stock, sold_by) VALUES ("]

/-- What the `INSERT` has between its literals, after the comma. -/
def insertBetween (p : Product) : Str := List.flatten
  [label " ", intText p.code, label ", ", doubleText p.price, label ", ", intText p.discount,
    label ", "]

/-- What the `INSERT` has behind them, after the comma and up to the semicolon. -/
def insertBehind (p : Product) : Str := List.flatten
  [label " ", doubleText p.stock, label ", ", doubleText p.priceToStock, label ", ",
    intText p.soldBy.toInt, label ")"]

/-- An UPDATE is the name and the tax letter, spliced into a text. -/
theorem updateStatement_eq (p : Product) :
    updateStatement p = spliced (label "UPDATE products SET " ++ label "name = ") p.name
      (comma :: updateBetween p) p.taxChar (comma :: (updateBehind p ++ [semicolon])) := by
  have hcomma : label ", " = comma :: label " " := rfl
  have hend : label ";" = [semicolon] := rfl
  simp only [updateStatement, spliced, updateBetween, updateBehind, inQuotes, hcomma, hend,
    List.flatten_cons, List.flatten_nil, List.append_assoc, List.cons_append, List.append_nil,
    List.nil_append]

/-- So is an INSERT. -/
theorem insertStatement_eq (p : Product) :
    insertStatement p = spliced insertBefore p.name (comma :: insertBetween p) p.taxChar
      (comma :: (insertBehind p ++ [semicolon])) := by
  have hcomma : label ", " = comma :: label " " := rfl
  have hend : label ");" = label ")" ++ [semicolon] := rfl
  simp only [insertStatement, spliced, insertBefore, insertBetween, insertBehind, inQuotes, hcomma,
    hend, List.flatten_cons, List.flatten_nil, List.append_assoc, List.cons_append,
    List.append_nil, List.nil_append]

/-! ## What stands around the literals -/

/-- A text with neither a quote nor a semicolon. -/
abbrev PlainText (s : Str) : Prop := Avoids [quote, semicolon] s

/-- A printed integer is plain. -/
theorem plainText_intText (z : ℤ) : PlainText (intText z) := avoids_intText (by decide) z

/-- So is a printed double. -/
theorem plainText_doubleText (x : ℚ) : PlainText (doubleText x) := avoids_fixedText (by decide) 6 x

/-- So is what stands between the name and the tax letter of an UPDATE. -/
theorem plainText_updateBetween (p : Product) : PlainText (updateBetween p) := by
  refine avoids_flatten.2 ?_
  simp only [List.forall_mem_cons, plainText_intText, plainText_doubleText, true_and]
  decide

/-- So is what stands behind them. -/
theorem plainText_updateBehind (p : Product) : PlainText (updateBehind p) := by
  refine avoids_flatten.2 ?_
  simp only [List.forall_mem_cons, plainText_intText, plainText_doubleText, true_and]
  decide

/-- So is what an INSERT starts with. -/
theorem plainText_insertBefore : PlainText insertBefore := by
  refine avoids_flatten.2 ?_
  decide +kernel

/-- So is what stands between its name and its tax letter. -/
theorem plainText_insertBetween (p : Product) : PlainText (insertBetween p) := by
  refine avoids_flatten.2 ?_
  simp only [List.forall_mem_cons, plainText_intText, plainText_doubleText, true_and]
  decide

/-- So is what stands behind them. -/
theorem plainText_insertBehind (p : Product) : PlainText (insertBehind p) := by
  refine avoids_flatten.2 ?_
  simp only [List.forall_mem_cons, plainText_intText, plainText_doubleText, true_and]
  decide

/-- **A statement with plain text around its literals** stores their texts exactly when they
hold no quote. -/
theorem storedAsData_iff {before between behind name : Str} {tax : Byte}
    (hbefore : PlainText before) (hbetween : PlainText between) (hbehind : PlainText behind) :
    StoredAsData (spliced before name (comma :: between) tax (comma :: (behind ++ [semicolon])))
      name tax ↔ quote ∉ name ∧ tax ≠ quote := by
  have hcomma : comma ∉ [quote, semicolon] := by decide
  have hend : PlainText (before ++ (comma :: between ++ comma :: behind)) :=
    hbefore.append ((hbetween.cons hcomma).append (hbehind.cons hcomma))
  have hbehind_quote : quote ∉ comma :: (behind ++ [semicolon]) := by
    have hsemicolon : quote ∉ [semicolon] := by decide
    rw [← List.cons_append, List.mem_append, not_or]
    exact ⟨hbehind.cons hcomma quote (by simp), hsemicolon⟩
  refine storedAsData_spliced_iff (hbefore quote (by simp))
    (hbetween.cons hcomma quote (by simp)) hbehind_quote ?_ (hend semicolon (by simp))
  simp only [List.append_assoc, List.cons_append]

/-- An UPDATE stores its texts as data exactly when they have no quote. -/
theorem storedAsData_updateStatement (p : Product) :
    StoredAsData (updateStatement p) p.name p.taxChar ↔ quote ∉ p.name ∧ p.taxChar ≠ quote := by
  have hbefore : PlainText (label "UPDATE products SET " ++ label "name = ") := by decide
  rw [updateStatement_eq]
  exact storedAsData_iff hbefore (plainText_updateBetween p) (plainText_updateBehind p)

/-- So does an INSERT. -/
theorem storedAsData_insertStatement (p : Product) :
    StoredAsData (insertStatement p) p.name p.taxChar ↔ quote ∉ p.name ∧ p.taxChar ≠ quote := by
  rw [insertStatement_eq]
  exact storedAsData_iff plainText_insertBefore (plainText_insertBetween p)
    (plainText_insertBehind p)

/-- A product whose statements store its texts is written as the row it describes, unless
one of them holds the byte that ends a text. -/
theorem updateStock_of_storedAsData {srv : Server} {p : Product} {t : Table}
    (h : StoredAsData (updateStatement p) p.name p.taxChar) (hname : 0 ∉ p.name)
    (htax : p.taxChar ≠ 0) :
    updateStock srv p t = (productExists p.code t).map fun update =>
      if update then updateRows p t else insertRow p t := by
  obtain ⟨hquote, htaxQuote⟩ := (storedAsData_updateStatement p).1 h
  unfold updateStock
  cases productExists p.code t with
  | error e => rfl
  | ok update =>
    simp only [bind, Except.bind, if_neg hquote, hname, htax, htaxQuote, or_self, if_false]
    cases update <;> rfl

/-- **Stored text is data** in both statements of `update_stock` exactly when neither the
name nor the tax holds a quote. -/
theorem stored_text_iff (p : Product) :
    (StoredAsData (updateStatement p) p.name p.taxChar ↔ quote ∉ p.name ∧ p.taxChar ≠ quote) ∧
      (StoredAsData (insertStatement p) p.name p.taxChar ↔ quote ∉ p.name ∧ p.taxChar ≠ quote) :=
  ⟨storedAsData_updateStatement p, storedAsData_insertStatement p⟩

/-- A name with a quote, typed at the prompt, is not stored as it was typed. -/
theorem quoted_name_not_stored :
    ¬∀ p : Product,
      (∃ placeholder modify maxSize fuel keys keys',
        addModifyCriteria placeholder modify maxSize fuel keys = .ok (some p.name) keys') →
      isprint p.taxChar = true →
      StoredAsData (updateStatement p) p.name p.taxChar ∧
        StoredAsData (insertStatement p) p.name p.taxChar := by
  intro h
  let name : Str := label "O" ++ quote :: label "Neil"
  let p : Product := ⟨name, 1, 2, 0, 2, 65, 5, 1, 1, .piece⟩
  have hprompt : addModifyCriteria [] false 22 20
      [charKey 'O', 39, charKey 'N', charKey 'e', charKey 'i', charKey 'l', keyEnter] =
        .ok (some p.name) [] := rfl
  have hstored := (h p ⟨_, _, _, _, _, _, hprompt⟩ (by decide)).1
  exact absurd ((storedAsData_updateStatement p).1 hstored).1 (by decide)

end CliPos
