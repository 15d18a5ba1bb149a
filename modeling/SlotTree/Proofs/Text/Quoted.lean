import SlotTree.Text.Quoted

/-!
# Quoted texts read back

What is written between quotes is read back as the text that was written.  Of all spellings that are
read, only two are written: a character below U+0020 without a short escape is written as a unit,
and every other character is read as a character.

## Main definitions

* `Text.piece` — what a written character is read as.

## Main results

* `Text.unquote_escape` — a character is read back.
* `Text.unquote_flatMap_escape`, `Text.text?_map_piece` — and so is a text.
-/

namespace SlotTree.Text

/-- What a written character is read as. -/
def piece (c : Char) : Piece :=
  if c ∈ ['\x08', '\t', '\n', '\x0c', '\r'] then .char c
  else if c.toNat < 0x20 then .unit c.toNat
  else .char c

theorem hexValue?_hexDigit : ∀ n < 16, hexValue? (hexDigit n) = some n := by decide

/-- A character below U+0020, spelled by its number. -/
theorem unitValue?_hexDigit {n : Nat} (h : n < 0x20) :
    unitValue? '0' '0' (hexDigit (n / 16)) (hexDigit (n % 16)) = some n := by
  have hhigh : hexValue? (hexDigit (n / 16)) = some (n / 16) := hexValue?_hexDigit _ (by omega)
  have hlow : hexValue? (hexDigit (n % 16)) = some (n % 16) := hexValue?_hexDigit _ (by omega)
  have hzero : hexValue? '0' = some 0 := by decide
  rw [unitValue?, hhigh, hlow, hzero]
  simp only [Option.bind_eq_bind, Option.bind_some, Option.pure_def, Option.some.injEq]
  omega

/-- What is written as a short escape is read back. -/
theorem unquote_shortEscape {e c : Char} (hunit : e ≠ 'u') (h : shortEscape? e = some c)
    (rest : List Char) :
    unquote ('\\' :: e :: rest) = (unquote rest).map fun r => (.char c :: r.1, r.2) := by
  rw [unquote, h]
  · cases unquote rest <;> rfl
  · exact fun _ _ _ _ _ heq => absurd heq hunit

/-- What is written as a unit is read back. -/
theorem unquote_unit {n : Nat} (h : n < 0x20) (rest : List Char) :
    unquote ('\\' :: 'u' :: '0' :: '0' :: hexDigit (n / 16) :: hexDigit (n % 16) :: rest) =
      (unquote rest).map fun r => (.unit n :: r.1, r.2) := by
  rw [unquote, unitValue?_hexDigit h]
  cases unquote rest <;> rfl

/-- What is written as itself is read back. -/
theorem unquote_cons {c : Char} (hquote : c ≠ '"') (hescape : c ≠ '\\') (hlow : ¬ c.toNat < 0x20)
    (rest : List Char) :
    unquote (c :: rest) = (unquote rest).map fun r => (.char c :: r.1, r.2) := by
  rw [unquote, if_neg hlow]
  · cases unquote rest <;> rfl
  · exact hquote
  · exact fun _ _ _ _ _ heq => absurd heq hescape
  · exact fun _ _ heq => absurd heq hescape

/-- A written character is read back, and what follows it is left. -/
theorem unquote_escape (c : Char) (rest : List Char) :
    unquote (escape c ++ rest) = (unquote rest).map fun r => (piece c :: r.1, r.2) := by
  unfold escape
  split
  case h_8 hquote hescape h₁ h₂ h₃ h₄ h₅ =>
    have hshort : c ∉ ['\x08', '\t', '\n', '\x0c', '\r'] := by simp_all
    rw [piece, if_neg hshort]
    by_cases hlow : c.toNat < 0x20
    · rw [if_pos hlow, if_pos hlow]
      exact unquote_unit hlow rest
    · rw [if_neg hlow, if_neg hlow]
      exact unquote_cons hquote hescape hlow rest
  all_goals exact unquote_shortEscape (by decide) rfl rest

/-- A written text is read back up to the closing quote. -/
theorem unquote_flatMap_escape (cs rest : List Char) :
    unquote (cs.flatMap escape ++ '"' :: rest) = some (cs.map piece, rest) := by
  induction cs with
  | nil => rw [List.flatMap_nil, List.nil_append, unquote, List.map_nil]
  | cons c cs ih =>
    rw [List.flatMap_cons, List.append_assoc, unquote_escape, ih, Option.map_some, List.map_cons]

/-- What is read of a written text spells the text. -/
theorem text?_map_piece (cs : List Char) : Piece.text? (cs.map piece) = some cs := by
  induction cs with
  | nil => rfl
  | cons c cs ih =>
    have hchar : Piece.text? (.char c :: cs.map piece) = some (c :: cs) := by
      rw [Piece.text?, ih, Option.map_some]
    rw [List.map_cons, piece]
    split
    · exact hchar
    · split
      · next hlow =>
        -- a unit below U+0020 is half of no surrogate pair
        have hhigh : isHighSurrogate c.toNat = false := by simp [isHighSurrogate]; omega
        have hhalf : isLowSurrogate c.toNat = false := by simp [isLowSurrogate]; omega
        unfold Piece.text?
        simp [hhigh, hhalf, ih]
      · exact hchar

end SlotTree.Text
