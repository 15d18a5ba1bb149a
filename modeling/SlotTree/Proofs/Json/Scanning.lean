import SlotTree.Json.Pretty
import SlotTree.Proofs.Json.Numerals
import SlotTree.Proofs.Text.Quoted

/-!
# Tokens read back

The text of a value is scanned into the tokens that the value is written with, if its numbers are
read back.  Blanks between the tokens make no difference, so that the indented text of the value is
scanned into the same tokens.  Only a number may go on with what follows it; behind a number there
is always a mark, a blank, or the end of the text.

## Main definitions

* `Token.Spells` — a text that spells some tokens, with blanks between them.
* `Json.numbers` — the numbers of a value, at any depth.
* `Json.FloatsReadBack` — whether those that are no integers are read back.

## Main results

* `Token.scanOne_write` — one token is read back.
* `Json.scan_compact`, `Json.scan_pretty` — and so are those of a value.
-/

namespace SlotTree

namespace Token

/-! ### One token -/

/-- A token that is read back. -/
def Legible : Token → Prop
  | .number (some n) => n.ReadsBack
  | .number none | .string none | .broken => False
  | _ => True

/-- Whether a token is a number. -/
def isNumber : Token → Bool
  | .number _ => true
  | _ => false

theorem ne_of_numeralHead {c d : Char} (h : c = '-' ∨ (digitValue? c).isSome = true)
    (hminus : d ≠ '-') (hdigit : digitValue? d = none) : c ≠ d := by
  rintro rfl
  rcases h with h | h
  · exact hminus h
  · rw [hdigit] at h
    cases h

/-- A numeral is no mark, no word and no quoted text. -/
theorem scanOne_eq_scanNumber {c : Char} (h : c = '-' ∨ (digitValue? c).isSome = true)
    (cs : List Char) : scanOne (c :: cs) = scanNumber (c :: cs) := by
  unfold scanOne
  split
  case h_11 => rfl
  all_goals
    next heq => exact absurd (List.cons.inj heq).1 (ne_of_numeralHead h (by decide) (by decide))

theorem isBlank_of_numeralHead {c : Char} (h : c = '-' ∨ (digitValue? c).isSome = true) :
    isBlank c = false := by
  have hspace : c ≠ ' ' := ne_of_numeralHead h (by decide) (by decide)
  have htab : c ≠ '\t' := ne_of_numeralHead h (by decide) (by decide)
  have hline : c ≠ '\n' := ne_of_numeralHead h (by decide) (by decide)
  have hreturn : c ≠ '\r' := ne_of_numeralHead h (by decide) (by decide)
  simp [isBlank, hspace, htab, hline, hreturn]

theorem scanOne_number {n : Number} (h : n.ReadsBack) {rest : List Char}
    (hrest : Numeral.Ends rest) :
    scanOne (n.write ++ rest) = some (.number (some n), rest) := by
  obtain ⟨t, hscan, hvalue⟩ := h
  obtain ⟨c, hc, hhead⟩ := Numeral.head_of_scan hscan
  obtain ⟨cs, hcs⟩ : ∃ cs, n.write = c :: cs := List.head?_eq_some_iff.mp hc
  rw [hcs, List.cons_append, scanOne_eq_scanNumber hhead, ← List.cons_append, ← hcs, scanNumber,
    Numeral.scan_append hrest hscan]
  simp only [Option.bind_eq_bind, Option.bind_some, hvalue]
  rfl

theorem scanOne_string (s : String) (rest : List Char) :
    scanOne (Text.quote s.toList ++ rest) = some (.string (some s), rest) := by
  have hread := Text.unquote_flatMap_escape s.toList rest
  rw [Text.quote, List.cons_append, List.append_assoc, List.singleton_append]
  rw [scanOne, scanString, hread]
  simp only [Option.bind_eq_bind, Option.bind_some, Text.text?_map_piece, Option.map_some,
    String.ofList_toList]
  rfl

/-- A token is read back, unless it goes on with what follows. -/
theorem scanOne_write {t : Token} (h : t.Legible) {rest : List Char}
    (hrest : t.isNumber = true → Numeral.Ends rest) :
    scanOne (t.write ++ rest) = some (t, rest) := by
  cases t with
  | number n =>
    cases n with
    | none => cases h
    | some n => exact scanOne_number h (hrest rfl)
  | string s =>
    cases s with
    | none => cases h
    | some s => exact scanOne_string s rest
  | bool b => cases b <;> rfl
  | broken => cases h
  | openArray | closeArray | openObject | closeObject | comma | colon | null => rfl

/-- No token begins with a blank. -/
theorem head_write {t : Token} (h : t.Legible) :
    ∃ c cs, t.write = c :: cs ∧ isBlank c = false := by
  cases t with
  | number n =>
    cases n with
    | none => cases h
    | some n =>
      obtain ⟨t, hscan, -⟩ := h
      obtain ⟨c, hc, hhead⟩ := Numeral.head_of_scan hscan
      obtain ⟨cs, hcs⟩ : ∃ cs, n.write = c :: cs := List.head?_eq_some_iff.mp hc
      exact ⟨c, cs, hcs, isBlank_of_numeralHead hhead⟩
  | string s =>
    cases s with
    | none => cases h
    | some s => exact ⟨_, _, rfl, by decide⟩
  | bool b => cases b <;> exact ⟨_, _, rfl, by decide⟩
  | broken => cases h
  | openArray | closeArray | openObject | closeObject | comma | colon | null =>
    exact ⟨_, _, rfl, by decide⟩

/-! ### Many tokens -/

/-- A text that spells some tokens, with blanks between them. -/
inductive Spells : List Char → List Token → Prop where
  /-- The empty text spells no token. -/
  | nil : Spells [] []
  /-- A blank in front makes no difference. -/
  | blank {c : Char} {cs : List Char} {ts : List Token} (hc : isBlank c = true)
      (h : Spells cs ts) : Spells (c :: cs) ts
  /-- A token in front; what follows a number does not go on with it. -/
  | token {t : Token} {cs : List Char} {ts : List Token} (ht : t.Legible)
      (hends : t.isNumber = true → Numeral.Ends cs) (h : Spells cs ts) :
      Spells (t.write ++ cs) (t :: ts)

namespace Spells

variable {cs : List Char} {ts : List Token}

theorem scanUpTo_eq (h : Spells cs ts) : ∀ n, cs.length ≤ n → scanUpTo n cs = ts := by
  induction h with
  | nil =>
    intro n _
    cases n <;> rfl
  | blank hc h ih =>
    intro n hn
    rw [List.length_cons] at hn
    obtain ⟨m, rfl⟩ : ∃ m, n = m + 1 := ⟨n - 1, by omega⟩
    rw [scanUpTo, List.dropWhile_cons_of_pos hc, ← ih (m + 1) (by omega), scanUpTo]
  | token ht hends h ih =>
    intro n hn
    have hone := scanOne_write ht hends
    obtain ⟨c, cs, hcs, hblank⟩ := head_write ht
    rw [hcs, List.cons_append] at hone hn ⊢
    rw [List.length_cons, List.length_append] at hn
    obtain ⟨m, rfl⟩ : ∃ m, n = m + 1 := ⟨n - 1, by omega⟩
    rw [scanUpTo, List.dropWhile_cons_of_neg (by rw [hblank]; decide)]
    simp only [hone]
    rw [ih m (by omega)]

/-- A text is scanned into the tokens that it spells. -/
theorem scan_eq (h : Spells cs ts) : scan (String.ofList cs) = ts := by
  rw [scan, String.toList_ofList]
  exact h.scanUpTo_eq cs.length (Nat.le_refl _)

/-- A mark, a word or a quoted text in front. -/
theorem cons (t : Token) (ht : t.Legible) (hnumber : t.isNumber = false) (h : Spells cs ts) :
    Spells (t.write ++ cs) (t :: ts) :=
  .token ht (fun heq => by rw [hnumber] at heq; cases heq) h

theorem newLine (depth : Nat) (h : Spells cs ts) : Spells (Json.newLine depth ++ cs) ts := by
  refine .blank (by decide) ?_
  induction 2 * depth with
  | zero => exact h
  | succ n ih => exact .blank (by decide) ih

end Spells

end Token

/-! ### Values -/

namespace Json

open Token

mutual

/-- The numbers of a value, at any depth. -/
def numbers : Json → List Number
  | .number n => [n]
  | .array items => itemNumbers items
  | .object fields => fieldNumbers fields
  | .null | .bool _ | .string _ => []

/-- The numbers of the items of a list. -/
def itemNumbers : List Json → List Number
  | [] => []
  | v :: rest => numbers v ++ itemNumbers rest

/-- The numbers of the fields of an object. -/
def fieldNumbers : List (String × Json) → List Number
  | [] => []
  | (_, v) :: rest => numbers v ++ fieldNumbers rest

end

/-- Every binary64 number of a value is read back; its integers are in any case. -/
def FloatsReadBack (v : Json) : Prop :=
  ∀ x finite, .float x finite ∈ v.numbers → (Number.float x finite).ReadsBack

theorem FloatsReadBack.readsBack {v : Json} (h : v.FloatsReadBack) :
    ∀ n ∈ v.numbers, n.ReadsBack := by
  intro n hn
  cases n with
  | integer n fits => exact Number.readsBack_integer fits
  | float x finite => exact h x finite hn

/-! ### Texts without blanks -/

mutual

theorem spells_tokens : ∀ v : Json, (∀ n ∈ v.numbers, n.ReadsBack) →
    ∀ {cs : List Char} {ts : List Token}, Numeral.Ends cs → Spells cs ts →
      Spells (v.tokens.flatMap write ++ cs) (v.tokens ++ ts)
  | .null, _, _, _, _, h => by simpa [tokens] using h.cons .null trivial rfl
  | .bool b, _, _, _, _, h => by simpa [tokens] using h.cons (.bool b) trivial rfl
  | .string s, _, _, _, _, h => by simpa [tokens] using h.cons (.string (some s)) trivial rfl
  | .number n, hn, _, _, hends, h => by
    have hlegible : (Token.number (some n)).Legible := hn n (by simp [numbers])
    simpa [tokens] using Spells.token hlegible (fun _ => hends) h
  | .array items, hn, cs, ts, _, h => by
    have hitems := spells_itemTokens items (by rwa [numbers] at hn)
      (Numeral.ends_cons (by decide) cs) (h.cons .closeArray trivial rfl)
    simpa [tokens, write] using hitems.cons .openArray trivial rfl
  | .object fields, hn, cs, ts, _, h => by
    have hfields := spells_fieldTokens fields (by rwa [numbers] at hn)
      (Numeral.ends_cons (by decide) cs) (h.cons .closeObject trivial rfl)
    simpa [tokens, write] using hfields.cons .openObject trivial rfl

theorem spells_itemTokens : ∀ items : List Json, (∀ n ∈ itemNumbers items, n.ReadsBack) →
    ∀ {cs : List Char} {ts : List Token}, Numeral.Ends cs → Spells cs ts →
      Spells ((itemTokens items).flatMap write ++ cs) (itemTokens items ++ ts)
  | [], _, _, _, _, h => h
  | [v], hn, _, _, hends, h => by
    rw [itemTokens]
    exact spells_tokens v (by simpa [itemNumbers] using hn) hends h
  | v :: w :: rest, hn, cs, ts, hends, h => by
    rw [itemNumbers, List.forall_mem_append] at hn
    have hrest := spells_itemTokens (w :: rest) hn.2 hends h
    have hv := spells_tokens v hn.1 (Numeral.ends_cons (by decide) _)
      (hrest.cons .comma trivial rfl)
    simpa [itemTokens, write] using hv

theorem spells_fieldTokens : ∀ fields : List (String × Json),
    (∀ n ∈ fieldNumbers fields, n.ReadsBack) → ∀ {cs : List Char} {ts : List Token},
      Numeral.Ends cs → Spells cs ts →
        Spells ((fieldTokens fields).flatMap write ++ cs) (fieldTokens fields ++ ts)
  | [], _, _, _, _, h => h
  | [(k, v)], hn, _, _, hends, h => by
    have hv := spells_tokens v (by simpa [fieldNumbers] using hn) hends h
    simpa [fieldTokens, write] using
      (hv.cons .colon trivial rfl).cons (.string (some k)) trivial rfl
  | (k, v) :: f :: rest, hn, cs, ts, hends, h => by
    rw [fieldNumbers, List.forall_mem_append] at hn
    have hrest := spells_fieldTokens (f :: rest) hn.2 hends h
    have hv := spells_tokens v hn.1 (Numeral.ends_cons (by decide) _)
      (hrest.cons .comma trivial rfl)
    simpa [fieldTokens, write] using
      (hv.cons .colon trivial rfl).cons (.string (some k)) trivial rfl

end

/-- The text of a value is scanned into the tokens of the value. -/
theorem scan_compact {v : Json} (h : ∀ n ∈ v.numbers, n.ReadsBack) :
    Token.scan v.compact = v.tokens := by
  simpa [compact] using (spells_tokens v h Numeral.ends_nil .nil).scan_eq

/-! ### Indented texts -/

/-- A numeral does not go on with a new line. -/
theorem ends_newLine (depth : Nat) (cs : List Char) : Numeral.Ends (newLine depth ++ cs) :=
  Numeral.ends_cons (by decide) _

/-- The name of a field in front of its value. -/
theorem spells_name (k : String) {cs : List Char} {ts : List Token} (h : Spells cs ts) :
    Spells (Text.quote k.toList ++ ':' :: ' ' :: cs) (.string (some k) :: .colon :: ts) := by
  have hblank : Spells (' ' :: cs) ts := .blank (by decide) h
  exact (hblank.cons .colon trivial rfl).cons (.string (some k)) trivial rfl

mutual

theorem spells_prettyAt : ∀ (v : Json) (depth : Nat), (∀ n ∈ v.numbers, n.ReadsBack) →
    ∀ {cs : List Char} {ts : List Token}, Numeral.Ends cs → Spells cs ts →
      Spells (v.prettyAt depth ++ cs) (v.tokens ++ ts)
  | .null, _, _, _, _, _, h => by simpa [tokens, prettyAt] using h.cons .null trivial rfl
  | .bool b, _, _, _, _, _, h => by simpa [tokens, prettyAt] using h.cons (.bool b) trivial rfl
  | .string s, _, _, _, _, _, h => by
    simpa [tokens, prettyAt] using h.cons (.string (some s)) trivial rfl
  | .number n, _, hn, _, _, hends, h => by
    have hlegible : (Token.number (some n)).Legible := hn n (by simp [numbers])
    simpa [tokens, prettyAt] using Spells.token hlegible (fun _ => hends) h
  | .array [], _, _, _, _, _, h => by
    simpa [tokens, itemTokens, prettyAt, write] using
      (h.cons .closeArray trivial rfl).cons .openArray trivial rfl
  | .array (v :: items), depth, hn, cs, ts, _, h => by
    have hitems := spells_prettyItems (v :: items) (depth + 1) (by rwa [numbers] at hn)
      (ends_newLine depth _) ((h.cons .closeArray trivial rfl).newLine depth)
    simpa [tokens, prettyAt, write] using hitems.cons .openArray trivial rfl
  | .object [], _, _, _, _, _, h => by
    simpa [tokens, fieldTokens, prettyAt, write] using
      (h.cons .closeObject trivial rfl).cons .openObject trivial rfl
  | .object (f :: fields), depth, hn, cs, ts, _, h => by
    have hfields := spells_prettyFields (f :: fields) (depth + 1) (by rwa [numbers] at hn)
      (ends_newLine depth _) ((h.cons .closeObject trivial rfl).newLine depth)
    simpa [tokens, prettyAt, write] using hfields.cons .openObject trivial rfl

theorem spells_prettyItems : ∀ (items : List Json) (depth : Nat),
    (∀ n ∈ itemNumbers items, n.ReadsBack) → ∀ {cs : List Char} {ts : List Token},
      Numeral.Ends cs → Spells cs ts →
        Spells (prettyItems depth items ++ cs) (itemTokens items ++ ts)
  | [], _, _, _, _, _, h => h
  | [v], depth, hn, _, _, hends, h => by
    have hv := spells_prettyAt v depth (by simpa [itemNumbers] using hn) hends h
    simpa [itemTokens, prettyItems] using hv.newLine depth
  | v :: w :: rest, depth, hn, cs, ts, hends, h => by
    rw [itemNumbers, List.forall_mem_append] at hn
    have hrest := spells_prettyItems (w :: rest) depth hn.2 hends h
    have hv := spells_prettyAt v depth hn.1 (Numeral.ends_cons (by decide) _)
      (hrest.cons .comma trivial rfl)
    simpa [itemTokens, prettyItems, write] using hv.newLine depth

theorem spells_prettyFields : ∀ (fields : List (String × Json)) (depth : Nat),
    (∀ n ∈ fieldNumbers fields, n.ReadsBack) → ∀ {cs : List Char} {ts : List Token},
      Numeral.Ends cs → Spells cs ts →
        Spells (prettyFields depth fields ++ cs) (fieldTokens fields ++ ts)
  | [], _, _, _, _, _, h => h
  | [(k, v)], depth, hn, _, _, hends, h => by
    have hv := spells_prettyAt v depth (by simpa [fieldNumbers] using hn) hends h
    simpa [fieldTokens, prettyFields, write] using (spells_name k hv).newLine depth
  | (k, v) :: f :: rest, depth, hn, cs, ts, hends, h => by
    rw [fieldNumbers, List.forall_mem_append] at hn
    have hrest := spells_prettyFields (f :: rest) depth hn.2 hends h
    have hv := spells_prettyAt v depth hn.1 (Numeral.ends_cons (by decide) _)
      (hrest.cons .comma trivial rfl)
    simpa [fieldTokens, prettyFields, write] using (spells_name k hv).newLine depth

end

/-- The indented text of a value is scanned into the tokens of the value. -/
theorem scan_pretty {v : Json} (h : ∀ n ∈ v.numbers, n.ReadsBack) :
    Token.scan v.pretty = v.tokens := by
  simpa [pretty] using (spells_prettyAt v 0 h Numeral.ends_nil .nil).scan_eq

end Json

end SlotTree
