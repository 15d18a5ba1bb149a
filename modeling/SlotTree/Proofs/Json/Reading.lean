import SlotTree.Json.Reading
import SlotTree.Proofs.Json.Scanning

/-!
# Values read back

The text of a value whose numbers are read back has a complete reading, which spells the value and
nothing else; this holds of its indented text too.  From this reading the value is taken back, if it
does not nest too deep.

## Main definitions

* `Json.reading` — the reading that spells a value.
* `Json.levels` — how many lists and objects stand inside one another.

## Main results

* `Reading.take_tokens` — the tokens of a value are read as the value, whatever follows them.
* `Reading.ofText_eq` — so is its text.
* `Reading.json?_reading` — the value of its reading.
-/

namespace SlotTree

namespace Json

mutual

/-- The reading that spells a value. -/
def reading : Json → Reading
  | .null => .null
  | .bool b => .bool b
  | .number n => .number (some n)
  | .string s => .string (some s)
  | .array items => .array (itemReadings items) true
  | .object fields => .object (fieldReadings fields) true

/-- The readings that spell the items of a list. -/
def itemReadings : List Json → List Reading
  | [] => []
  | v :: rest => reading v :: itemReadings rest

/-- The names, and the readings that spell the values, of the fields of an object. -/
def fieldReadings : List (String × Json) → List (Option String × Reading)
  | [] => []
  | (k, v) :: rest => (some k, reading v) :: fieldReadings rest

end

mutual

/-- How many lists and objects stand inside one another. -/
def levels : Json → Nat
  | .null | .bool _ | .number _ | .string _ => 0
  | .array items => itemLevels items + 1
  | .object fields => fieldLevels fields + 1

/-- How many lists and objects stand inside one another among the items of a list. -/
def itemLevels : List Json → Nat
  | [] => 0
  | v :: rest => max (levels v) (itemLevels rest)

/-- How many lists and objects stand inside one another among the fields of an object. -/
def fieldLevels : List (String × Json) → Nat
  | [] => 0
  | (_, v) :: rest => max (levels v) (fieldLevels rest)

end

@[simp]
theorem isComplete_reading (v : Json) : v.reading.isComplete = true := by
  cases v <;> rfl

end Json

namespace Reading

open Json

/-! ### The tree of the tokens of a value -/

theorem following_reading (v : Json) (ts : List Token) : following (v.reading, ts) = ts :=
  if_pos v.isComplete_reading

/-- The tokens of a value do not begin with the end of a list. -/
theorem tokens_ne_closeArray (v : Json) (ts rest : List Token) :
    v.tokens ++ ts ≠ .closeArray :: rest := by
  cases v <;> simp [tokens]

theorem take_openArray (n : Nat) {ts : List Token} (h : ∀ rest, ts ≠ .closeArray :: rest) :
    take (n + 1) (.openArray :: ts) =
      (.array (takeItems n ts).1 (takeItems n ts).2.1, (takeItems n ts).2.2) := by
  rw [take]
  exact h

theorem take_openObject (n : Nat) {ts : List Token} (h : ∀ rest, ts ≠ .closeObject :: rest) :
    take (n + 1) (.openObject :: ts) =
      (.object (takeFields n ts).1 (takeFields n ts).2.1, (takeFields n ts).2.2) := by
  rw [take]
  exact h

mutual

/-- The tokens of a value are read as the value, whatever follows them. -/
theorem take_tokens : ∀ (v : Json) {n : Nat}, 2 * v.tokens.length ≤ n → ∀ rest : List Token,
    take n (v.tokens ++ rest) = (v.reading, rest)
  | v, 0, h, _ => by
    cases v <;> simp [tokens] at h
  | .null, n + 1, _, _ | .bool _, n + 1, _, _ | .number _, n + 1, _, _ | .string _, n + 1, _, _ =>
    rfl
  | .array [], n + 1, _, _ | .object [], n + 1, _, _ => rfl
  | .array (v :: items), n + 1, h, rest => by
    rw [tokens, List.length_cons, List.length_append] at h
    have hitems := takeItems_tokens v items (n := n) (by omega) rest
    have hopen : ∀ rest', itemTokens (v :: items) ++ .closeArray :: rest ≠
        .closeArray :: rest' := by
      intro rest'
      cases items with
      | nil => exact tokens_ne_closeArray v _ rest'
      | cons w items =>
        rw [itemTokens, List.append_assoc]
        · exact tokens_ne_closeArray v _ rest'
        · nofun
    rw [tokens, List.cons_append, List.append_assoc, List.singleton_append, take_openArray n hopen,
      hitems, reading]
  | .object (f :: fields), n + 1, h, rest => by
    rw [tokens, List.length_cons, List.length_append] at h
    have hfields := takeFields_tokens f fields (n := n) (by omega) rest
    have hopen : ∀ rest', fieldTokens (f :: fields) ++ .closeObject :: rest ≠
        .closeObject :: rest' := by
      intro rest'
      cases fields <;> simp [fieldTokens]
    rw [tokens, List.cons_append, List.append_assoc, List.singleton_append,
      take_openObject n hopen, hfields, reading]

theorem takeItems_tokens : ∀ (v : Json) (items : List Json) {n : Nat},
    2 * (itemTokens (v :: items)).length + 1 ≤ n → ∀ rest : List Token,
      takeItems n (itemTokens (v :: items) ++ .closeArray :: rest) =
        (itemReadings (v :: items), true, rest)
  | v, [], n + 1, h, rest => by
    rw [itemTokens] at h ⊢
    rw [takeItems, take_tokens v (by omega)]
    simp only [following_reading]
    rfl
  | v, w :: items, n + 1, h, rest => by
    have htokens : itemTokens (v :: w :: items) = v.tokens ++ .comma :: itemTokens (w :: items) :=
      rfl
    rw [htokens, List.length_append, List.length_cons] at h
    have hrest := takeItems_tokens w items (n := n) (by omega) rest
    rw [htokens, List.append_assoc, takeItems, take_tokens v (by omega)]
    simp only [following_reading, List.cons_append, hrest]
    rfl

theorem takeFields_tokens : ∀ (f : String × Json) (fields : List (String × Json)) {n : Nat},
    2 * (fieldTokens (f :: fields)).length + 1 ≤ n → ∀ rest : List Token,
      takeFields n (fieldTokens (f :: fields) ++ .closeObject :: rest) =
        (fieldReadings (f :: fields), true, rest)
  | (k, v), [], n + 1, h, rest => by
    rw [fieldTokens, List.length_cons, List.length_cons] at h
    rw [fieldTokens, List.cons_append, List.cons_append, takeFields, take_tokens v (by omega)]
    simp only [following_reading]
    rfl
  | (k, v), g :: fields, n + 1, h, rest => by
    have htokens : fieldTokens ((k, v) :: g :: fields) =
        .string (some k) :: .colon :: (v.tokens ++ .comma :: fieldTokens (g :: fields)) := rfl
    rw [htokens, List.length_cons, List.length_cons, List.length_append, List.length_cons] at h
    have hrest := takeFields_tokens g fields (n := n) (by omega) rest
    rw [htokens, List.cons_append, List.cons_append, List.append_assoc, takeFields,
      take_tokens v (by omega)]
    simp only [following_reading, List.cons_append, hrest]
    rfl

end

/-- A text with the tokens of a value is read as the value, and nothing follows it. -/
theorem ofText_of_scan {v : Json} {text : String} (h : Token.scan text = v.tokens) :
    ofText text = (v.reading, true) := by
  have htake : take (2 * v.tokens.length + 2) v.tokens = (v.reading, []) := by
    simpa using take_tokens v (n := 2 * v.tokens.length + 2) (by omega) []
  rw [ofText, h]
  simp only [htake, isComplete_reading, List.isEmpty_nil, Bool.and_self]

/-- So is the text of the value, be it indented or not. -/
theorem ofText_eq {v : Json} (h : ∀ n ∈ v.numbers, n.ReadsBack) {text : String}
    (htext : text ∈ [v.compact, v.pretty]) : ofText text = (v.reading, true) := by
  rw [List.mem_cons, List.mem_singleton] at htext
  rcases htext with rfl | rfl
  · exact ofText_of_scan (scan_compact h)
  · exact ofText_of_scan (scan_pretty h)

/-! ### The value of a reading -/

mutual

/-- A value that does not nest too deep is taken back from its reading. -/
theorem json?_reading : ∀ (v : Json) {levels : Nat}, v.levels ≤ levels →
    json? levels v.reading = some v
  | .null, _, _ | .bool _, _, _ | .number _, _, _ | .string _, _, _ => by
    simp [reading, json?]
  | .array items, n, h => by
    rw [Json.levels] at h
    rw [reading, json?, itemValues?_itemReadings items (by omega), if_pos (by simp; omega)]
    rfl
  | .object fields, n, h => by
    rw [Json.levels] at h
    rw [reading, json?, fieldValues?_fieldReadings fields (by omega), if_pos (by simp; omega)]
    rfl

theorem itemValues?_itemReadings : ∀ (items : List Json) {levels : Nat},
    itemLevels items ≤ levels → itemValues? levels (itemReadings items) = some items
  | [], _, _ => rfl
  | v :: rest, n, h => by
    rw [itemLevels, Nat.max_le] at h
    rw [itemReadings, itemValues?, json?_reading v h.1, itemValues?_itemReadings rest h.2]

theorem fieldValues?_fieldReadings : ∀ (fields : List (String × Json)) {levels : Nat},
    fieldLevels fields ≤ levels → fieldValues? levels (fieldReadings fields) = some fields
  | [], _, _ => rfl
  | (k, v) :: rest, n, h => by
    rw [fieldLevels, Nat.max_le] at h
    simp only [fieldReadings, fieldValues?, json?_reading v h.1,
      fieldValues?_fieldReadings rest h.2]

end

end Reading

end SlotTree
