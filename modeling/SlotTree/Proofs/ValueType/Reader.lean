import Mathlib.Data.List.Basic
import SlotTree.Proofs.Maps
import SlotTree.Proofs.Text.Separated
import SlotTree.Proofs.ValueType.Flattening
import SlotTree.Schema.Node
import SlotTree.ValueType.Display

/-!
# Types read back from their texts

The text of a type says what the type is, up to flattening.  This is shown by reading it back.

A function has no closing mark: its result goes on as far as the text does, so a function that
stands before another variant of a union would take that variant in.  Types without such a union
are settled.

## Main definitions

* `ValueType.Legible`, `ValueType.Settled` — the types whose texts can be read back.
* `ValueType.readType` — read a type from the front of a text.

## Main results

* `ValueType.readType_text` — what is read from the text of a type is the type, flattened.
* `ValueType.variants_eq_of_display` — types with the same text have the same variants.
-/

namespace SlotTree.ValueType

/-! ### Types that can be read -/

/-- The types that stand directly inside a type. -/
def parts : ValueType → List ValueType
  | .array t => [t]
  | .tuple ts => ts
  | .object ps => ps.map Prod.snd
  | .union ts => ts
  | .function ts t => t :: ts
  | _ => []

theorem length_lt_sizeOf {α : Type} [SizeOf α] (xs : List α) : xs.length < sizeOf xs := by
  induction xs with
  | nil => exact Nat.one_pos
  | cons x rest ih =>
    rw [List.length_cons, List.cons.sizeOf_spec]
    omega

theorem sizeOf_lt_of_mem_parts {s t : ValueType} (h : s ∈ t.parts) : sizeOf s < sizeOf t := by
  cases t with
  | array t =>
    obtain rfl := List.mem_singleton.mp h
    rw [array.sizeOf_spec]
    omega
  | tuple ts => exact sizeOf_lt_tuple h
  | object ps =>
    obtain ⟨p, hp, rfl⟩ := List.mem_map.mp h
    exact sizeOf_lt_object hp
  | union ts => exact sizeOf_lt_union h
  | function ts t =>
    rw [function.sizeOf_spec]
    rcases List.mem_cons.mp h with rfl | h
    · omega
    · have := List.sizeOf_lt_of_mem h
      omega
  | _ => cases h

/-- Something is true of a type and of all types inside it, at any depth. -/
inductive Throughout (p : ValueType → Prop) : ValueType → Prop where
  /-- It is true of the type itself and throughout its parts. -/
  | intro {t : ValueType} : p t → (∀ s ∈ t.parts, Throughout p s) → Throughout p t

theorem Throughout.here {p : ValueType → Prop} {t : ValueType} (h : Throughout p t) : p t := by
  cases h with
  | intro ht _ => exact ht

theorem Throughout.part {p : ValueType → Prop} {s t : ValueType} (h : Throughout p t)
    (hs : s ∈ t.parts) : Throughout p s := by
  cases h with
  | intro _ hparts => exact hparts s hs

theorem throughout_iff {p : ValueType → Prop} {t : ValueType} :
    Throughout p t ↔ p t ∧ t.parts.Forall (Throughout p) := by
  rw [List.forall_iff_forall_mem]
  exact ⟨fun h => ⟨h.here, fun _ => h.part⟩, fun h => .intro h.1 h.2⟩

/-- The words that are types. -/
def words : List (String × ValueType) :=
  [("any", .any), ("string", .string), ("number", .number), ("boolean", .boolean), ("null", .null),
    ("undefined", .undefined), ("void", .void)]

/-- An identifier that is not the word for a type. -/
structure IsName (name : String) : Prop where
  /-- It is an identifier. -/
  identifier : Declaration.isIdentifier name = true
  /-- It is none of the words. -/
  ordinary : List.lookup name words = none

/-- The names in a type are names, and a union has a variant. -/
def Spelled : ValueType → Prop
  | .union ts => ts ≠ []
  | .object ps => ∀ p ∈ ps, IsName p.1
  | .entity name => IsName name
  | _ => True

/-- Every name in a type is a name, and every union in it has a variant. -/
def Legible (t : ValueType) : Prop := Throughout Spelled t

/-- Whether a type is a function. -/
def isFunction : ValueType → Bool
  | .function _ _ => true
  | _ => false

/-- Nowhere in a type is a function followed by another variant of the same union. -/
def Settled (t : ValueType) : Prop :=
  Throughout (fun t => ∀ v ∈ (variants t).dropLast, v.isFunction = false) t

/-! ### The texts -/

/-- The characters of the text of a type. -/
def text (t : ValueType) : List Char := t.display.toList

/-- The characters of the text of a property. -/
def propertyText (p : String × ValueType) : List Char := p.1.toList ++ ([':', ' '] ++ p.2.text)

theorem toList_displayJoined (separator : String) : ∀ ts : List ValueType,
    (displayJoined separator ts).toList = separator.toList.intercalate (ts.map text)
  | [] => by rw [displayJoined, List.map_nil, List.intercalate_nil, String.toList_empty]
  | [t] => by rw [displayJoined, List.map_singleton, List.intercalate_singleton, text]
  | t :: u :: rest => by
    rw [displayJoined, String.toList_append, String.toList_append,
      toList_displayJoined separator (u :: rest), List.map_cons (a := t), List.map_cons (a := u),
      List.intercalate_cons_cons]
    · rfl
    · exact List.cons_ne_nil u rest

theorem toList_displayProperties : ∀ ps : List (String × ValueType),
    (displayProperties ps).toList = [';', ' '].intercalate (ps.map propertyText)
  | [] => by rw [displayProperties, List.map_nil, List.intercalate_nil, String.toList_empty]
  | [(name, t)] => by
    rw [displayProperties, List.map_singleton, List.intercalate_singleton, propertyText, text,
      String.toList_append, String.toList_append, List.append_assoc]
    rfl
  | (name, t) :: q :: rest => by
    rw [displayProperties, String.toList_append, toList_displayProperties (q :: rest),
      List.map_cons (a := (name, t)), List.map_cons (a := q), List.intercalate_cons_cons]
    · simp [propertyText, text]
    · exact List.cons_ne_nil q rest

theorem text_tuple (ts : List ValueType) :
    (tuple ts).text = '[' :: ([',', ' '].intercalate (ts.map text) ++ [']']) := by
  rw [text, display, String.toList_append, String.toList_append, toList_displayJoined]
  rfl

theorem text_function (ts : List ValueType) (t : ValueType) :
    (function ts t).text =
      '(' :: ([',', ' '].intercalate (ts.map text) ++
        ([')'] ++ ([' ', '=', '>', ' '] ++ t.text))) := by
  rw [text, display, String.toList_append, String.toList_append, String.toList_append,
    toList_displayJoined, text]
  simp

theorem text_object (ps : List (String × ValueType)) :
    (object ps).text =
      '{' :: ' ' :: ([';', ' '].intercalate (ps.map propertyText) ++ [' ', '}']) := by
  rw [text, display, String.toList_append, String.toList_append, toList_displayProperties]
  rfl

theorem text_union (ts : List ValueType) :
    (union ts).text = [' ', '|', ' '].intercalate (ts.map text) := by
  rw [text, display, toList_displayJoined]
  rfl

theorem text_array_of_isLoose {t : ValueType} (h : t.isLoose = true) :
    (array t).text = '(' :: (t.text ++ [')', '[', ']']) := by
  rw [text, display, if_pos h, String.toList_append, String.toList_append, text]
  rfl

theorem text_array_of_not_isLoose {t : ValueType} (h : ¬t.isLoose = true) :
    (array t).text = t.text ++ ['[', ']'] := by
  rw [text, display, if_neg h, String.toList_append, text]
  rfl

/-! ### The members of a union -/

mutual

/-- The types that a type is the union of, unions inside unions taken apart. -/
def members : ValueType → List ValueType
  | .union ts => membersList ts
  | t => [t]

/-- The members of some types, one after the other. -/
def membersList : List ValueType → List ValueType
  | [] => []
  | t :: rest => members t ++ membersList rest

end

theorem members_union (ts : List ValueType) : members (.union ts) = ts.flatMap members := by
  rw [members]
  induction ts with
  | nil => rfl
  | cons t rest ih => rw [membersList, ih, List.flatMap_cons]

theorem members_of_not_union {t : ValueType} (h : ¬∃ ts, t = .union ts) : members t = [t] := by
  rw [members]
  exact fun ts ht => h ⟨ts, ht⟩

/-- What is true of a union when it is true of its variants, and of all other types, is true. -/
theorem union_induction {motive : ValueType → Prop}
    (union : ∀ ts, (∀ t ∈ ts, motive t) → motive (.union ts))
    (other : ∀ t, (¬∃ ts, t = .union ts) → motive t) (t : ValueType) : motive t := by
  by_cases h : ∃ ts, t = .union ts
  · obtain ⟨ts, rfl⟩ := h
    exact union ts fun t ht => union_induction union other t
  · exact other t h
termination_by sizeOf t
decreasing_by
  subst_vars
  exact sizeOf_lt_union ht

theorem flatMap_variants_members (t : ValueType) : (members t).flatMap variants = variants t := by
  induction t using union_induction with
  | union ts ih =>
    rw [members_union, List.flatMap_assoc, variants, variantsList_eq]
    exact List.flatMap_congr ih
  | other t ht => rw [members_of_not_union ht, List.flatMap_singleton]

/-- The only variant of a type that is no union. -/
def variant (t : ValueType) : ValueType := (variants t).headD .any

theorem variants_eq_singleton {t : ValueType} (h : ¬∃ ts, t = .union ts) :
    variants t = [variant t] := by
  obtain ⟨v, hv⟩ := exists_variants_eq h
  rw [variant, hv, List.headD_cons]

theorem map_variant_members (t : ValueType) : (members t).map variant = variants t := by
  have hunion : ∀ m ∈ members t, ¬∃ ts, m = .union ts := by
    induction t using union_induction with
    | union ts ih =>
      intro m hm
      rw [members_union, List.mem_flatMap] at hm
      obtain ⟨t, ht, hm⟩ := hm
      exact ih t ht m hm
    | other t ht =>
      intro m hm
      rw [members_of_not_union ht, List.mem_singleton] at hm
      exact hm ▸ ht
  rw [← flatMap_variants_members, List.map_eq_flatMap]
  exact List.flatMap_congr fun m hm => (variants_eq_singleton (hunion m hm)).symm

/-- A member is no union, and what is true throughout a type is true throughout its members. -/
theorem of_mem_members {p : ValueType → Prop} {m t : ValueType} (hm : m ∈ members t)
    (h : Throughout p t) : (¬∃ ts, m = .union ts) ∧ Throughout p m ∧ sizeOf m ≤ sizeOf t := by
  induction t using union_induction with
  | union ts ih =>
    rw [members_union, List.mem_flatMap] at hm
    obtain ⟨t, ht, hm⟩ := hm
    obtain ⟨hunion, hp, hle⟩ := ih t ht hm (h.part ht)
    exact ⟨hunion, hp, Nat.le_of_lt (Nat.lt_of_le_of_lt hle (sizeOf_lt_union ht))⟩
  | other t ht =>
    rw [members_of_not_union ht, List.mem_singleton] at hm
    subst hm
    exact ⟨ht, h, Nat.le_refl _⟩

theorem members_ne_nil {t : ValueType} (h : t.Legible) : members t ≠ [] := by
  induction t using union_induction with
  | union ts ih =>
    obtain ⟨t, ht⟩ := List.exists_mem_of_ne_nil ts h.here
    obtain ⟨m, hm⟩ := List.exists_mem_of_ne_nil _ (ih t ht (h.part ht))
    rw [members_union]
    exact List.ne_nil_of_mem (List.mem_flatMap.mpr ⟨t, ht, hm⟩)
  | other t ht =>
    rw [members_of_not_union ht]
    exact List.cons_ne_nil t []

theorem sizeOf_pos (t : ValueType) : 0 < sizeOf t := by
  cases t <;> simp [Nat.pos_iff_ne_zero]

theorem length_flatMap_le {α : Type} {f : ValueType → List α} {ts : List ValueType}
    (h : ∀ t ∈ ts, (f t).length ≤ sizeOf t) : (ts.flatMap f).length ≤ sizeOf ts := by
  induction ts with
  | nil => exact Nat.zero_le _
  | cons t rest ih =>
    rw [List.forall_mem_cons] at h
    have := ih h.2
    rw [List.flatMap_cons, List.length_append, List.cons.sizeOf_spec]
    omega

theorem length_members_le (t : ValueType) : (members t).length ≤ sizeOf t := by
  induction t using union_induction with
  | union ts ih =>
    have := length_flatMap_le ih
    rw [members_union, union.sizeOf_spec]
    omega
  | other t ht =>
    rw [members_of_not_union ht]
    exact sizeOf_pos t

/-- The text of a type is that of its members, with a bar between two. -/
theorem text_eq {t : ValueType} (h : t.Legible) :
    t.text = [' ', '|', ' '].intercalate ((members t).map text) := by
  induction t using union_induction with
  | union ts ih =>
    have hne : ∀ t ∈ ts, (members t).map text ≠ [] := fun t ht heq =>
      members_ne_nil (h.part ht) (List.map_eq_nil_iff.mp heq)
    rw [text_union, members_union, List.map_flatMap, ← TextReader.intercalate_flatMap hne]
    exact congrArg _ (List.map_congr_left fun t ht => ih t ht (h.part ht))
  | other t ht => rw [members_of_not_union ht, List.map_singleton, List.intercalate_singleton]

/-! ### The reader -/

/-- The type of a word: one of those that are types, or the name of a type. -/
def ofWord (word : String) : ValueType := (List.lookup word words).getD (.entity word)

/-- The lists of a type that the brackets behind it stand for. -/
def readBrackets (t : ValueType) : List Char → ValueType × List Char
  | '[' :: ']' :: s => readBrackets (.array (.union [t])) s
  | s => (t, s)

/-- Read a type that is no union, where its parts are read by another reader.  The items of a list
are counted down. -/
def readMember (part : TextReader ValueType) (n : Nat) : TextReader ValueType
  | '(' :: s => do
    let (ts, s) ← TextReader.enclosed part [',', ' '] [')'] n s
    match s.dropPrefix? [' ', '=', '>', ' '] with
    | some s => do
      let (t, s) ← part s
      return (.function ts t, s)
    | none =>
      match ts, s with
      | [t], '[' :: ']' :: s => return readBrackets (.array t) s
      | _, _ => none
  | '[' :: s => do
    let (ts, s) ← TextReader.enclosed part [',', ' '] [']'] n s
    return readBrackets (.tuple ts) s
  | '{' :: ' ' :: s => do
    let (ps, s) ← TextReader.enclosed (readProperty part) [';', ' '] [' ', '}'] n s
    return readBrackets (.object ps) s
  | s =>
    match s.takeWhile Declaration.isNamePart with
    | [] => none
    | word => some (readBrackets (ofWord (String.ofList word)) (s.dropWhile Declaration.isNamePart))
where
  /-- Read a property. -/
  readProperty (part : TextReader ValueType) : TextReader (String × ValueType) := fun s => do
    let name := String.ofList (s.takeWhile Declaration.isNamePart)
    let s ← (s.dropWhile Declaration.isNamePart).dropPrefix? [':', ' ']
    let (t, s) ← part s
    return ((name, t), s)

/-- Read a type, types inside one another at most so many levels deep, as the union of its
members. -/
def readType : Nat → TextReader ValueType
  | 0 => fun _ => none
  | n + 1 => fun s => do
    let (ts, s) ← TextReader.separated (readMember (readType n) n) [' ', '|', ' '] (n + 1) s
    return (.union ts, s)

/-! ### What may follow a type -/

/-- What follows does not go on with a word. -/
def Ends (rest : List Char) : Prop := ∀ c ∈ rest.head?, Declaration.isNamePart c = false

/-- What follows goes on neither with a word, nor with brackets, nor with a variant. -/
structure Stops (rest : List Char) : Prop where
  /-- No word goes on. -/
  ends : Ends rest
  /-- No brackets follow. -/
  brackets : ∀ c ∈ rest.head?, c ≠ '['
  /-- No further variant follows. -/
  bar : rest.dropPrefix? [' ', '|', ' '] = none

theorem stops_nil : Stops [] := ⟨nofun, nofun, rfl⟩

theorem stops_cons {c : Char} {s : List Char} (hname : Declaration.isNamePart c = false)
    (hbracket : c ≠ '[') (hbar : (c :: s).dropPrefix? [' ', '|', ' '] = none) : Stops (c :: s) where
  ends := by
    rintro _ ⟨⟩
    exact hname
  brackets := by
    rintro _ ⟨⟩
    exact hbracket
  bar := hbar

theorem ends_bar (s : List Char) : Ends ([' ', '|', ' '] ++ s) := by
  rintro _ ⟨⟩
  decide

theorem readBrackets_of_ne {t : ValueType} {s : List Char} (h : ∀ c ∈ s.head?, c ≠ '[') :
    readBrackets t s = (t, s) := by
  rw [readBrackets]
  rintro s rfl
  exact h '[' rfl rfl

/-! ### Words -/

theorem all_isNamePart {name : String} (h : Declaration.isIdentifier name = true) :
    ∀ c ∈ name.toList, Declaration.isNamePart c = true := by
  rw [Declaration.isIdentifier] at h
  split at h
  · cases h
  · next c rest heq =>
    rw [Bool.and_eq_true, List.all_eq_true] at h
    rw [heq, List.forall_mem_cons]
    refine ⟨?_, h.2⟩
    have hstart := h.1
    rw [Declaration.isNameStart, Bool.or_eq_true] at hstart
    rw [Declaration.isNamePart, Bool.or_eq_true, Char.isAlphanum, Bool.or_eq_true]
    exact hstart.imp_left .inl

/-- A word is taken as a whole from the front of a text. -/
theorem takeWhile_word {name : String} (h : Declaration.isIdentifier name = true)
    {rest : List Char} (hrest : Ends rest) :
    (name.toList ++ rest).takeWhile Declaration.isNamePart = name.toList ∧
      (name.toList ++ rest).dropWhile Declaration.isNamePart = rest := by
  rw [List.takeWhile_append_of_pos (all_isNamePart h),
    List.dropWhile_append_of_pos (all_isNamePart h)]
  cases rest with
  | nil => exact ⟨List.append_nil _, rfl⟩
  | cons c rest =>
    have hc : ¬Declaration.isNamePart c = true := Bool.eq_false_iff.mp (hrest c rfl)
    rw [List.takeWhile_cons_of_neg hc, List.dropWhile_cons_of_neg hc, List.append_nil]
    exact ⟨rfl, rfl⟩

theorem readMember_word {part : TextReader ValueType} {n : Nat} (word : String)
    (h : Declaration.isIdentifier word = true) {rest : List Char} (hrest : Ends rest) :
    readMember part n (word.toList ++ rest) = some (readBrackets (ofWord word) rest) := by
  obtain ⟨htake, hdrop⟩ := takeWhile_word h hrest
  obtain ⟨c, cs, hchars⟩ : ∃ c cs, word.toList = c :: cs := by
    rw [Declaration.isIdentifier] at h
    split at h
    · cases h
    · exact ⟨_, _, ‹_›⟩
  have hc := all_isNamePart h c (hchars ▸ List.mem_cons_self)
  have hword : String.ofList (c :: cs) = word := by rw [← hchars, String.ofList_toList]
  rw [hchars, List.cons_append] at htake hdrop ⊢
  rw [readMember, htake, hdrop]
  · simp only [hword]
  -- the marks are no parts of words
  · rintro _ heq
    exact absurd ((List.cons.inj heq).1 ▸ hc) (by decide)
  · rintro _ heq
    exact absurd ((List.cons.inj heq).1 ▸ hc) (by decide)
  · rintro _ heq
    exact absurd ((List.cons.inj heq).1 ▸ hc) (by decide)

/-! ### Parts -/

/-- A type is read from the front of a text. -/
def Reads (part : TextReader ValueType) (t : ValueType) : Prop :=
  ∀ rest, Stops rest → part (t.text ++ rest) = some (t.flatten, rest)

/-- The reader of parts reads nothing from a closing mark. -/
def Closes (part : TextReader ValueType) : Prop :=
  ∀ c s, c = ')' ∨ c = ']' → part (c :: s) = none

theorem readType_closes (n : Nat) : Closes (readType n) := by
  intro c s hc
  cases n with
  | zero => rfl
  | succ n => rcases hc with rfl | rfl <;> rfl

variable {part : TextReader ValueType} {n : Nat} {rest : List Char}

theorem enclosed_types (hclosed : Closes part) {ts : List ValueType} (hn : ts.length ≤ n)
    (h : ∀ t ∈ ts, Reads part t) {c : Char} (hc : c = ')' ∨ c = ']') :
    TextReader.enclosed part [',', ' '] [c] n
      ([',', ' '].intercalate (ts.map text) ++ ([c] ++ rest)) = some (flattenList ts, rest) := by
  rw [flattenList_eq]
  refine TextReader.enclosed_intercalate hn (fun t ht s => h t ht _ ?_) (fun t ht s => h t ht _ ?_)
    (fun s => ?_) fun s => hclosed c s hc
  · exact stops_cons (by decide) (by decide) rfl
  · rcases hc with rfl | rfl <;> exact stops_cons (by decide) (by decide) rfl
  · rcases hc with rfl | rfl <;> rfl

theorem readProperty_text {p : String × ValueType} (hname : IsName p.1) (h : Reads part p.2)
    (hrest : Stops rest) :
    readMember.readProperty part (propertyText p ++ rest) = some ((p.1, p.2.flatten), rest) := by
  have hcolon : Ends ([':', ' '] ++ (p.2.text ++ rest)) := by
    rintro _ ⟨⟩
    decide
  obtain ⟨htake, hdrop⟩ := takeWhile_word hname.identifier hcolon
  rw [propertyText, List.append_assoc, List.append_assoc, readMember.readProperty, htake, hdrop,
    TextReader.dropPrefix?_append_self, String.ofList_toList]
  simp only [Option.bind_eq_bind, Option.bind_some, h rest hrest]
  rfl

theorem enclosed_properties {ps : List (String × ValueType)} (hn : ps.length ≤ n)
    (hnames : ∀ p ∈ ps, IsName p.1) (h : ∀ p ∈ ps, Reads part p.2) :
    TextReader.enclosed (readMember.readProperty part) [';', ' '] [' ', '}'] n
      ([';', ' '].intercalate (ps.map propertyText) ++ ([' ', '}'] ++ rest)) =
        some (flattenProperties ps, rest) := by
  rw [flattenProperties_eq]
  refine TextReader.enclosed_intercalate hn
    (fun p hp s => readProperty_text (hnames p hp) (h p hp) ?_)
    (fun p hp s => readProperty_text (hnames p hp) (h p hp) ?_) (fun s => rfl) fun s => rfl
  · exact stops_cons (by decide) (by decide) rfl
  · exact stops_cons (by decide) (by decide) rfl

/-! ### Reading back -/

/-- A type that is neither a union nor a function has an end that can be seen: it is read whatever
follows, with the brackets that follow. -/
theorem readMember_closed (hclosed : Closes part)
    (hread : ∀ s, sizeOf s ≤ n → s.Legible → s.Settled → Reads part s) :
    ∀ {t : ValueType} {rest : List Char}, (¬∃ ts, t = .union ts) → t.isFunction = false →
      t.Legible → t.Settled → sizeOf t ≤ n + 1 → Ends rest →
      readMember part n (t.text ++ rest) = some (readBrackets (variant t) rest)
  | t, rest, hunion, hfunction, hlegible, hsettled, hn, hrest => by
    have hparts : ∀ s ∈ t.parts, Reads part s := fun s hs =>
      hread s (Nat.le_of_lt_succ (Nat.lt_of_lt_of_le (sizeOf_lt_of_mem_parts hs) hn))
        (hlegible.part hs) (hsettled.part hs)
    cases t with
    | union ts => exact absurd ⟨ts, rfl⟩ hunion
    | function ts t => cases hfunction
    | any => exact readMember_word "any" (by decide) hrest
    | string => exact readMember_word "string" (by decide) hrest
    | number => exact readMember_word "number" (by decide) hrest
    | boolean => exact readMember_word "boolean" (by decide) hrest
    | null => exact readMember_word "null" (by decide) hrest
    | undefined => exact readMember_word "undefined" (by decide) hrest
    | void => exact readMember_word "void" (by decide) hrest
    | entity name =>
      have hname : IsName name := hlegible.here
      have hword : ofWord name = .entity name := by rw [ofWord, hname.ordinary, Option.getD_none]
      refine (readMember_word name hname.identifier hrest).trans ?_
      rw [hword]
      rfl
    | tuple ts =>
      have hlen : ts.length ≤ n := by
        have := length_lt_sizeOf ts
        rw [tuple.sizeOf_spec] at hn
        omega
      rw [text_tuple, List.cons_append, List.append_assoc, readMember,
        enclosed_types hclosed hlen hparts (.inr rfl)]
      rfl
    | object ps =>
      have hlen : ps.length ≤ n := by
        have := length_lt_sizeOf ps
        rw [object.sizeOf_spec] at hn
        omega
      rw [text_object, List.cons_append, List.cons_append, List.append_assoc, readMember,
        enclosed_properties hlen hlegible.here fun p hp => hparts p.2 (List.mem_map_of_mem hp)]
      rfl
    | array t =>
      have hlt : sizeOf t < sizeOf (array t) := sizeOf_lt_of_mem_parts List.mem_cons_self
      by_cases hloose : t.isLoose = true
      · -- the parentheses are those of the element
        have hlen : [t].length ≤ n := by
          have := sizeOf_pos t
          rw [List.length_singleton]
          omega
        have helement : TextReader.enclosed part [',', ' '] [')'] n
            (t.text ++ ([')'] ++ '[' :: ']' :: rest)) = some ([t.flatten], '[' :: ']' :: rest) := by
          have hsingle : t.text = List.intercalate [',', ' '] [t.text] :=
            List.intercalate_singleton.symm
          rw [hsingle]
          exact enclosed_types hclosed hlen hparts (.inl rfl)
        rw [text_array_of_isLoose hloose, List.cons_append, List.append_assoc, readMember]
        exact congrArg (Option.bind · _) helement
      · -- the brackets are read behind the element
        have hunion : ¬∃ ts, t = .union ts := by
          rintro ⟨ts, rfl⟩
          exact hloose rfl
        have hfunction : t.isFunction = false := by
          cases t <;> first | rfl | exact absurd rfl hloose
        have hends : Ends ('[' :: ']' :: rest) := by
          rintro _ ⟨⟩
          decide
        have helement := readMember_closed hclosed hread hunion hfunction
          (hlegible.part List.mem_cons_self) (hsettled.part List.mem_cons_self)
          (Nat.le_of_lt (Nat.lt_of_lt_of_le hlt hn)) hends
        have hvariant : variant (.array t) = .array (.union [variant t]) := by
          rw [← variants_eq_singleton hunion]
          rfl
        rw [text_array_of_not_isLoose hloose, List.append_assoc, hvariant]
        exact helement
termination_by t => sizeOf t

/-- The result of a function goes on as far as its text does. -/
theorem readMember_function (hclosed : Closes part) {ts : List ValueType} {t : ValueType}
    (hn : ts.length ≤ n) (hts : ∀ s ∈ ts, Reads part s) (ht : Reads part t) (hrest : Stops rest) :
    readMember part n ((function ts t).text ++ rest) = some (variant (.function ts t), rest) := by
  rw [text_function, List.cons_append, List.append_assoc, List.append_assoc, List.append_assoc,
    readMember, enclosed_types hclosed hn hts (.inl rfl)]
  simp only [Option.bind_eq_bind, Option.bind_some, TextReader.dropPrefix?_append_self,
    ht rest hrest]
  rfl

/-- A type that is no union is read where nothing goes on behind it. -/
theorem readMember_text (hclosed : Closes part)
    (hread : ∀ s, sizeOf s ≤ n → s.Legible → s.Settled → Reads part s) {t : ValueType}
    (hunion : ¬∃ ts, t = .union ts) (hlegible : t.Legible) (hsettled : t.Settled)
    (hn : sizeOf t ≤ n + 1) (hrest : Stops rest) :
    readMember part n (t.text ++ rest) = some (variant t, rest) := by
  cases hfunction : t.isFunction with
  | false =>
    rw [readMember_closed hclosed hread hunion hfunction hlegible hsettled hn hrest.ends,
      readBrackets_of_ne hrest.brackets]
  | true =>
    cases t with
    | function ts t =>
      have hparts : ∀ s ∈ (function ts t).parts, Reads part s := fun s hs =>
        hread s (Nat.le_of_lt_succ (Nat.lt_of_lt_of_le (sizeOf_lt_of_mem_parts hs) hn))
          (hlegible.part hs) (hsettled.part hs)
      rw [parts, List.forall_mem_cons] at hparts
      have hlen := length_lt_sizeOf ts
      rw [function.sizeOf_spec] at hn
      exact readMember_function hclosed (by omega) hparts.2 hparts.1 hrest
    | _ => cases hfunction

theorem isFunction_variant {t : ValueType} (hunion : ¬∃ ts, t = .union ts)
    (h : (variant t).isFunction = false) : t.isFunction = false := by
  cases t with
  | function ts t => cases h
  | _ => rfl

/-- What is read from the front of the text of a type is the type, flattened.  By induction on the
levels: the members are read one by one, and each but the last is closed. -/
theorem readType_text (n : Nat) : ∀ t : ValueType, sizeOf t ≤ n → t.Legible → t.Settled →
    Reads (readType n) t := by
  induction n with
  | zero => exact fun t hn => absurd (sizeOf_pos t) (Nat.not_lt.mpr hn)
  | succ n ih =>
    intro t hn hlegible hsettled rest hrest
    have hclosed := readType_closes n
    -- of the members only the last may be a function
    have hinner : ∀ m ∈ (members t).dropLast, ∀ s,
        readMember (readType n) n (m.text ++ ([' ', '|', ' '] ++ s)) =
          some (variant m, [' ', '|', ' '] ++ s) := by
      intro m hm s
      have hmem := List.dropLast_subset _ hm
      obtain ⟨hunion, hl, hle⟩ := of_mem_members hmem hlegible
      obtain ⟨-, hs, -⟩ := of_mem_members hmem hsettled
      have hfunction : (variant m).isFunction = false := by
        refine hsettled.here _ ?_
        rw [← map_variant_members, ← List.map_dropLast]
        exact List.mem_map_of_mem hm
      rw [readMember_closed hclosed ih hunion (isFunction_variant hunion hfunction) hl hs
        (Nat.le_trans hle hn) (ends_bar s), readBrackets_of_ne (by rintro _ ⟨⟩; decide)]
    have hlast : ∀ m ∈ (members t).getLast?,
        readMember (readType n) n (m.text ++ rest) = some (variant m, rest) := by
      intro m hm
      have hmem := List.mem_of_mem_getLast? hm
      obtain ⟨hunion, hl, hle⟩ := of_mem_members hmem hlegible
      obtain ⟨-, hs, -⟩ := of_mem_members hmem hsettled
      exact readMember_text hclosed ih hunion hl hs (Nat.le_trans hle hn) hrest
    have hmembers := TextReader.separated_intercalate hrest.bar (members_ne_nil hlegible)
      (Nat.le_trans (length_members_le t) hn) hinner hlast
    rw [map_variant_members, ← text_eq hlegible] at hmembers
    exact congrArg (Option.bind · _) hmembers

/-! ### Types with the same text -/

/-- Legible and settled types with the same text have the same variants. -/
theorem variants_eq_of_display {s t : ValueType} (hs : s.Legible) (hs' : s.Settled)
    (ht : t.Legible) (ht' : t.Settled) (h : s.display = t.display) : variants s = variants t := by
  have hsource := readType_text (sizeOf s + sizeOf t) s (Nat.le_add_right _ _) hs hs' [] stops_nil
  have htarget := readType_text (sizeOf s + sizeOf t) t (Nat.le_add_left _ _) ht ht' [] stops_nil
  rw [text, h, ← text, htarget, Option.some.injEq, Prod.mk.injEq, flatten_inj] at hsource
  exact hsource.1.symm

end SlotTree.ValueType
