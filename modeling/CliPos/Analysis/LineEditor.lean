import CliPos.Analysis.Cancelling

/-!
# What the line editor stores

`get_string` tests `isprint(static_cast<char>(key))`, the low byte of the key code.  The
codes of the special keys start at 256, and some of them have the low byte of a printable
character: Delete is 330 and types a `J`.  The text stored is the text typed exactly as long
as none of these is pressed where the text still has room (`typed_text_iff`).
-/

set_option autoImplicit false

namespace CliPos

open Decimal Halting

variable {s text : Str} {maxLength : ℤ} {key : Key} {keys used rest : List Key}

/-! ## The text typed -/

/-- A text that one more character fits.  With a `max_length` of 0 there is no limit but
that of a `size_t`. -/
def HasRoom (maxLength : ℤ) (s : Str) : Prop :=
  (s.length : ℤ) < if maxLength = 0 then 2 ^ 64 - 1 else maxLength

/-- Room is seen in the length. -/
instance (maxLength : ℤ) (s : Str) : Decidable (HasRoom maxLength s) := by
  unfold HasRoom
  infer_instance

/-- What a key is meant to do: a backspace drops the last character, a printable character is
appended, and no other key changes the text. -/
def typeKey (maxLength : ℤ) (s : Str) (key : Key) : Str :=
  if key = keyBackspace ∨ key = keyDelete then s.dropLast
  else if 32 ≤ key ∧ key ≤ 126 ∧ HasRoom maxLength s then s ++ [charOfKey key]
  else s

/-- The text that the keys type. -/
def typedText (maxLength : ℤ) (keys : List Key) : Str := keys.foldl (typeKey maxLength) []

/-- A further key is typed behind the text. -/
@[simp] theorem typedText_concat (keys : List Key) (key : Key) :
    typedText maxLength (keys ++ [key]) = typeKey maxLength (typedText maxLength keys) key := by
  simp [typedText]

/-- A special key types nothing. -/
theorem typeKey_special (h : 256 ≤ key) (hback : key ≠ keyBackspace) :
    typeKey maxLength s key = s := by
  have hdelete : key ≠ keyDelete := by
    rintro rfl
    exact absurd h (by decide)
  have hprint : ¬(32 ≤ key ∧ key ≤ 126 ∧ HasRoom maxLength s) :=
    fun hprint => absurd (h.trans hprint.2.1) (by decide)
  rw [typeKey, if_neg (not_or.2 ⟨hback, hdelete⟩), if_neg hprint]

/-- **A text typed** is never longer than the limit. -/
theorem typedText_length (hpos : 0 < maxLength) (keys : List Key) :
    ((typedText maxLength keys).length : ℤ) ≤ maxLength := by
  induction keys using List.reverseRecOn with
  | nil => simp [typedText, hpos.le]
  | append_singleton keys key ih =>
    rw [typedText_concat]
    generalize typedText maxLength keys = s at ih ⊢
    unfold typeKey
    split_ifs with hback hprint
    · rw [List.length_dropLast]
      omega
    · have hroom := hprint.2.2
      rw [HasRoom, if_neg hpos.ne'] at hroom
      rw [List.length_append, List.length_singleton]
      omega
    · exact ih

/-! ## The text of the editor -/

/-- What a key does to the text of the edit loop. -/
def takeKey (maxLength : ℤ) (s : Str) (key : Key) : Str :=
  afterPrintable (if maxLength ≠ 0 then maxLength else -1) key (afterBackspace key s)

/-- The text of the editor after some keys. -/
def editText (maxLength : ℤ) (keys : List Key) : Str := keys.foldl (takeKey maxLength) []

/-- A further key is taken behind the text. -/
@[simp] theorem editText_concat (keys : List Key) (key : Key) :
    editText maxLength (keys ++ [key]) = takeKey maxLength (editText maxLength keys) key := by
  simp [editText]

/-- **Up to Enter** the edit loop takes one key after the other. -/
theorem editLoop_typed (henter : keyEnter ∉ used) (hesc : keyEsc ∉ used) (rest : List Key) :
    editLoop maxLength (used ++ keyEnter :: rest) s =
      .ok (some (used.foldl (takeKey maxLength) s)) rest := by
  induction used generalizing maxLength s with
  | nil => exact editLoop_enter maxLength rest s
  | cons key used ih =>
    simp only [List.mem_cons, not_or] at henter hesc
    have hlimit : takeKey (if maxLength ≠ 0 then maxLength else -1) = takeKey maxLength := by
      funext s key
      unfold takeKey
      split_ifs <;> rfl
    simp only [List.cons_append, editLoop, if_neg (Ne.symm henter.1), if_neg (Ne.symm hesc.1)]
    rw [ih henter.2 hesc.2, hlimit]
    rfl

/-- A placeholder is accepted by Enter at once; otherwise the text starts out empty. -/
theorem getString_typed (h0 : 0 ≤ maxLength) (henter : keyEnter ∉ used)
    (hesc : keyEsc ∉ if s = [] then used else used.tail) (rest : List Key) :
    getString s maxLength (used ++ keyEnter :: rest) =
      .ok (some (if used = [] then s else editText maxLength used)) rest := by
  by_cases hs : s = []
  · subst hs
    rw [if_pos rfl] at hesc
    have htext : (if used = [] then [] else editText maxLength used) = editText maxLength used := by
      split_ifs with hused
      · rw [hused]
        rfl
      · rfl
    rw [htext]
    exact editLoop_typed henter hesc rest
  · rw [if_neg hs] at hesc
    cases used with
    | nil => simp [getString, hs]
    | cons key used =>
      simp only [List.mem_cons, not_or] at henter
      have hfirst : (if isprint (charOfKey key) then [charOfKey key] else []) =
          takeKey maxLength [] key := by
        have hback : afterBackspace key [] = [] := by simp [afterBackspace]
        have hroom : (0 : ℤ) < toSizeT (if maxLength ≠ 0 then maxLength else -1) := by
          unfold toSizeT
          split_ifs <;> omega
        simp only [takeKey, hback, afterPrintable, List.length_nil, Nat.cast_zero, hroom, and_true,
          List.nil_append]
      have henter' : key ≠ keyEnter := Ne.symm henter.1
      simp only [List.cons_append, getString, if_pos hs, if_pos henter', hfirst]
      rw [editLoop_typed henter.2 hesc]
      rfl

/-- **A text returned** was read up to the first Enter. -/
theorem getString_returned (h0 : 0 ≤ maxLength)
    (h : getString s maxLength keys = .ok (some text) rest) :
    ∃ used, keys = used ++ keyEnter :: rest ∧ keyEnter ∉ used ∧
      (keyEsc ∉ if s = [] then used else used.tail) ∧
      text = if used = [] then s else editText maxLength used := by
  obtain ⟨used, rest', rfl, henter⟩ := List.eq_append_cons_of_mem (enter_mem_of_getString h)
  have hesc : keyEsc ∉ if s = [] then used else used.tail := by
    intro hesc
    have hnothing : ∃ rest, getString s maxLength (used ++ keyEnter :: rest') = .ok none rest := by
      rw [getString_eq_none]
      have hfirst : ∀ {ks : List Key}, keyEnter ∉ ks → keyEsc ∈ ks →
          EscFirst (ks ++ keyEnter :: rest') := by
        intro ks hno hmem
        rw [EscFirst, List.takeWhile_append_of_pos]
        · exact List.mem_append_left _ hmem
        · intro key hkey
          rw [decide_eq_true_eq]
          rintro rfl
          exact hno hkey
      by_cases hs : s = []
      · rw [if_pos hs] at hesc ⊢
        exact hfirst henter hesc
      · rw [if_neg hs] at hesc ⊢
        cases used with
        | nil => cases hesc
        | cons key used =>
          simp only [List.mem_cons, not_or] at henter
          simp only [List.cons_append, List.head?_cons, List.tail_cons, ne_eq,
            Option.some.injEq] at hesc ⊢
          exact ⟨Ne.symm henter.1, hfirst henter.2 hesc⟩
    obtain ⟨rest, hnothing⟩ := hnothing
    rw [h] at hnothing
    cases hnothing
  have hread := getString_typed h0 henter hesc rest'
  rw [h] at hread
  simp only [EStateM.Result.ok.injEq, Option.some.injEq] at hread
  obtain ⟨rfl, rfl⟩ := hread
  exact ⟨used, rfl, henter, hesc, rfl⟩

/-! ## Special keys -/

/-- The keys that are typed for the printable character in their low byte: codes from 256 on
whose low byte is printable. -/
def TypesLowByte (key : Key) : Prop := 256 ≤ key ∧ isprint (charOfKey key) = true

/-- The low byte of a key can be tested. -/
instance (key : Key) : Decidable (TypesLowByte key) := by
  unfold TypesLowByte
  infer_instance

/-- Such a key is not backspace. -/
theorem TypesLowByte.ne_backspace (h : TypesLowByte key) : key ≠ keyBackspace := by
  rintro rfl
  exact absurd h (by decide)

/-- The low byte of a key prints when the key is a character, or when its low byte is one. -/
theorem isprint_charOfKey {key : ℤ} (hkey : -1 ≤ key) :
    isprint (charOfKey key) = true ↔ TypesLowByte key ∨ 32 ≤ key ∧ key ≤ 126 := by
  have hbyte : (charOfKey key).val = (key % 256).toNat := by
    have hlt : (key % 256).toNat < 256 := by omega
    simp [charOfKey, Fin.ofNat, Nat.mod_eq_of_lt hlt]
  have hprint : isprint (charOfKey key) = true ↔ 32 ≤ key % 256 ∧ key % 256 ≤ 126 := by
    simp only [isprint, Bool.and_eq_true, decide_eq_true_eq, hbyte]
    omega
  rw [TypesLowByte, hprint]
  change _ ↔ ((256 : ℤ) ≤ key ∧ 32 ≤ key % 256 ∧ key % 256 ≤ 126) ∨ 32 ≤ key ∧ key ≤ 126
  omega

/-- With the limit that `get_string` sets, a printable key is taken where there is room. -/
theorem afterPrintable_eq (h0 : 0 ≤ maxLength) (key : Key) (s : Str) :
    afterPrintable (if maxLength ≠ 0 then maxLength else -1) key s =
      if isprint (charOfKey key) = true ∧ HasRoom maxLength s then s ++ [charOfKey key] else s := by
  have hlimit : toSizeT (if maxLength ≠ 0 then maxLength else -1) =
      if maxLength = 0 then 2 ^ 64 - 1 else maxLength := by
    unfold toSizeT
    split_ifs <;> omega
  exact if_congr (and_congr_right fun _ => by rw [HasRoom, hlimit]) rfl rfl

/-- **A key is taken as it is meant**, unless it is a special key that types its low byte. -/
theorem takeKey_eq (h0 : 0 ≤ maxLength) (hkey : -1 ≤ key) (s : Str) :
    takeKey maxLength s key =
      if TypesLowByte key ∧ HasRoom maxLength s then s ++ [charOfKey key]
      else typeKey maxLength s key := by
  rw [takeKey, afterPrintable_eq h0]
  by_cases hback : key = keyBackspace ∨ key = keyDelete
  · have hno : isprint (charOfKey key) = false ∧ ¬TypesLowByte key := by
      rcases hback with rfl | rfl <;> decide
    rw [typeKey, if_pos hback, afterBackspace, if_pos hback, hno.1, if_neg (by simp),
      if_neg fun h => hno.2 h.1]
  · simp only [typeKey, if_neg hback, afterBackspace, isprint_charOfKey hkey]
    by_cases hlow : TypesLowByte key
    · have hhigh : ¬(32 ≤ key ∧ key ≤ 126 ∧ HasRoom maxLength s) :=
        fun hprint => absurd (hlow.1.trans hprint.2.1) (by decide)
      simp [hlow, hhigh]
    · simp [hlow, and_assoc]

/-- **As long as no key is mistaken** the text of the editor is the text typed. -/
theorem editText_eq_typedText (h0 : 0 ≤ maxLength) (hkeys : ∀ key ∈ used, -1 ≤ key)
    (h : ∀ pre key, pre ++ [key] <+: used → TypesLowByte key →
      ¬HasRoom maxLength (typedText maxLength pre)) :
    editText maxLength used = typedText maxLength used := by
  induction used using List.reverseRecOn with
  | nil => rfl
  | append_singleton used key ih =>
    have hused : used <+: used ++ [key] := List.prefix_append _ _
    have hold : editText maxLength used = typedText maxLength used :=
      ih (fun k hk => hkeys k (List.mem_append_left _ hk))
        fun pre k hpre => h pre k (hpre.trans hused)
    have hkey : -1 ≤ key := hkeys key (by simp)
    have hno : ¬(TypesLowByte key ∧ HasRoom maxLength (typedText maxLength used)) :=
      fun hlow => h used key (List.prefix_refl _) hlow.1 hlow.2
    rw [editText_concat, hold, takeKey_eq h0 hkey, if_neg hno, typedText_concat]

/-! ## The text stored -/

/-- The text that Enter would return behind some keys. -/
def textAt (s : Str) (maxLength : ℤ) (keys : List Key) : Option Str :=
  match getString s maxLength (keys ++ [keyEnter]) with
  | .ok text _ => text
  | .error _ _ => none

/-- **What the editor must store** when `used` are the keys before Enter: the placeholder, or
the text typed; a special key leaves the text as it was, and the text fits the limit.  The
text typed is empty as long as the placeholder is shown. -/
structure StoresTyped (s : Str) (maxLength : ℤ) (used : List Key) (text : Str) : Prop where
  typed : text = if used = [] then s else typedText maxLength used
  special : ∀ pre key, pre ++ [key] <+: used → 256 ≤ key → key ≠ keyBackspace →
    textAt s maxLength (pre ++ [key]) = if pre = [] then some [] else textAt s maxLength pre
  fits : 0 < maxLength → used ≠ [] → (text.length : ℤ) ≤ maxLength

/-- On the way to Enter the editor holds the placeholder, or the text of the keys so far. -/
theorem textAt_typed {pre : List Key} (h0 : 0 ≤ maxLength) (henter : keyEnter ∉ used)
    (hesc : keyEsc ∉ if s = [] then used else used.tail) (hpre : pre <+: used) :
    textAt s maxLength pre = some (if pre = [] then s else editText maxLength pre) := by
  obtain ⟨more, rfl⟩ := hpre
  have henter' : keyEnter ∉ pre := fun hmem => henter (List.mem_append_left _ hmem)
  have hesc' : keyEsc ∉ if s = [] then pre else pre.tail := by
    intro hmem
    refine hesc ?_
    cases pre with
    | nil => split_ifs at hmem <;> cases hmem
    | cons key pre =>
      split_ifs at hmem ⊢
      · exact List.mem_append_left _ hmem
      · exact List.mem_append_left _ hmem
  rw [textAt, getString_typed h0 henter' hesc' []]

/-- A text stored as it must be was the text typed after every key: a special key changed
neither of the two. -/
theorem StoresTyped.editText_eq {pre : List Key} (hstores : StoresTyped s maxLength used text)
    (h0 : 0 ≤ maxLength) (hkeys : ∀ key ∈ used, -1 ≤ key)
    (htext : ∀ pre, pre <+: used →
      textAt s maxLength pre = some (if pre = [] then s else editText maxLength pre))
    (hpre : pre <+: used) : editText maxLength pre = typedText maxLength pre := by
  induction pre using List.reverseRecOn with
  | nil => rfl
  | append_singleton pre key ih =>
    have hprefix : pre <+: used := (List.prefix_append pre [key]).trans hpre
    have hold : editText maxLength pre = typedText maxLength pre := ih hprefix
    by_cases hspecial : 256 ≤ key ∧ key ≠ keyBackspace
    · have hsame := hstores.special pre key hpre hspecial.1 hspecial.2
      rw [htext _ hpre, if_neg (by simp)] at hsame
      have hedit : editText maxLength (pre ++ [key]) = editText maxLength pre := by
        split_ifs at hsame with hnil
        · rw [Option.some.inj hsame, hnil]
          rfl
        · rw [htext _ hprefix, if_neg hnil] at hsame
          exact Option.some.inj hsame
      rw [hedit, hold, typedText_concat, typeKey_special hspecial.1 hspecial.2]
    · have hno : ¬(TypesLowByte key ∧ HasRoom maxLength (typedText maxLength pre)) :=
        fun hlow => hspecial ⟨hlow.1.1, hlow.1.ne_backspace⟩
      have hkey : -1 ≤ key := hkeys key (hpre.subset (by simp))
      rw [editText_concat, hold, takeKey_eq h0 hkey, if_neg hno, typedText_concat]

/-- Delete (`KEY_DC`, 330) types a `J`. -/
theorem delete_types_letter :
    getString [] 0 [330, keyEnter] = .ok (some (label "J")) [] ∧
      ¬StoresTyped [] 0 [330] (label "J") :=
  ⟨rfl, fun h => absurd h.typed (by decide)⟩

/-- **The text stored is the text typed** exactly when no special key whose low byte is
printable was pressed where the text had room. -/
theorem typed_text_iff (s : Str) (maxLength : ℤ) (keys : List Key) (text : Str) (rest : List Key)
    (h0 : 0 ≤ maxLength) (hkeys : ∀ key ∈ keys, -1 ≤ key)
    (h : getString s maxLength keys = .ok (some text) rest) :
    ∃ used, keys = used ++ keyEnter :: rest ∧ keyEnter ∉ used ∧
      (StoresTyped s maxLength used text ↔
        ∀ pre key, pre ++ [key] <+: used → TypesLowByte key →
          ¬HasRoom maxLength (typedText maxLength pre)) := by
  obtain ⟨used, rfl, henter, hesc, rfl⟩ := getString_returned h0 h
  refine ⟨used, rfl, henter, ?_⟩
  have hused : ∀ key ∈ used, -1 ≤ key := fun key hkey => hkeys key (List.mem_append_left _ hkey)
  have htext : ∀ pre, pre <+: used →
      textAt s maxLength pre = some (if pre = [] then s else editText maxLength pre) :=
    fun pre hpre => textAt_typed h0 henter hesc hpre
  constructor
  · intro hstores pre key hpre hlow hroom
    have hall : ∀ pre, pre <+: used → editText maxLength pre = typedText maxLength pre :=
      fun pre => hstores.editText_eq h0 hused htext
    have hedit := hall _ hpre
    have hkey := hused key (hpre.subset (by simp))
    rw [editText_concat, hall pre ((List.prefix_append pre [key]).trans hpre),
      takeKey_eq h0 hkey, if_pos ⟨hlow, hroom⟩, typedText_concat,
      typeKey_special hlow.1 hlow.ne_backspace] at hedit
    simp at hedit
  · intro hno
    have hall : ∀ pre, pre <+: used → editText maxLength pre = typedText maxLength pre :=
      fun pre hpre => editText_eq_typedText h0 (fun key hkey => hused key (hpre.subset hkey))
        fun pre' key hpre' => hno pre' key (hpre'.trans hpre)
    have hused' := hall used (List.prefix_refl used)
    constructor
    · rw [hused']
    · intro pre key hpre hspecial hback
      have hprefix : pre <+: used := (List.prefix_append pre [key]).trans hpre
      rw [htext _ hpre, if_neg (by simp), hall _ hpre, typedText_concat,
        typeKey_special hspecial hback]
      split_ifs with hnil
      · rw [hnil]
        rfl
      · rw [htext _ hprefix, if_neg hnil, hall _ hprefix]
    · intro hpos hne
      rw [if_neg hne, hused']
      exact typedText_length hpos used

/-- Letters, a special key and a backspace behind a placeholder. -/
theorem typed_text_letters :
    StoresTyped (label "bread") 22 [charKey 'a', keyDown, charKey 'b', keyBackspace]
      (label "a") := by
  have hread : getString (label "bread") 22
      [charKey 'a', keyDown, charKey 'b', keyBackspace, keyEnter] = .ok (some (label "a")) [] := rfl
  obtain ⟨used, hkeys, henter, hiff⟩ :=
    typed_text_iff (label "bread") 22 _ (label "a") [] (by decide) (by decide) hread
  have hused : used = [charKey 'a', keyDown, charKey 'b', keyBackspace] :=
    (List.append_cancel_right hkeys).symm
  subst hused
  refine hiff.2 fun pre key hpre hlow => ?_
  have hnone : ∀ key ∈ [charKey 'a', keyDown, charKey 'b', keyBackspace], ¬TypesLowByte key := by
    decide
  exact absurd hlow (hnone key (hpre.subset (by simp)))

end CliPos
