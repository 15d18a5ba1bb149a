import SlotTree.Json.Decoder
import SlotTree.Proofs.Json.Reading
import SlotTree.Proofs.Maps
import SlotTree.Proofs.Outcomes

/-!
# What decoders make of values

A decoder walks a reading; the reading of a value is complete, and its names are all known.  What a
decoder makes of the reading of a value is therefore said by one lemma for each way to build a
decoder, and what it makes of the text of the value follows from this.

## Main definitions

* `Decoder.Reads` — what a decoder makes of a value that does not nest too deep.
* `Decoder.Takes` — what a record's fields make of named values.

## Main results

* `Decoder.reads_map`, `Decoder.reads_record` — maps and records.
* `Decoder.Reads.run` — what a decoder makes of the text of a value.
-/

namespace SlotTree

variable {ε α β σ : Type}

namespace Decoder

open Json

/-- What a decoder makes of a value, as long as the value may nest so deep. -/
def Reads (d : Decoder ε α) (v : Json) (a : α) : Prop :=
  ∀ levels, v.levels ≤ levels → levels ≤ Reading.maxLevels → d levels v.reading = .ok a

theorem reads_ofJson? {f : Json → Option α} {v : Json} {a : α}
    (h : v.levels ≤ Reading.maxLevels → f v = some a) : (ofJson? f : Decoder ε α).Reads v a := by
  intro levels hlevels hmax
  rw [ofJson?, Reading.json?_reading v hlevels]
  simp only [h (Nat.le_trans hlevels hmax)]

theorem reads_string (s : String) : (string : Decoder ε String).Reads (.string s) s :=
  fun _ _ _ => rfl

namespace Reads

variable {d : Decoder ε α} {v : Json} {a : α}

/-- A value that is not null is decoded as before if null is decoded too. -/
theorem optional (h : d.Reads v a) (hv : v ≠ .null) : d.optional.Reads v (some a) := by
  intro levels hlevels hmax
  have hmap : (d levels v.reading).map some = .ok (some a) := by rw [h levels hlevels hmax]; rfl
  cases v with
  | null => exact absurd rfl hv
  | bool _ | number _ | string _ | array _ | object _ => exact hmap

theorem andThen (h : d.Reads v a) {f : α → Except ε β} {b : β} (hf : f a = .ok b) :
    (d.andThen f).Reads v b := by
  intro levels hlevels hmax
  rw [Decoder.andThen, h levels hlevels hmax]
  simp only [hf]

/-- The text of a value is decoded as the value is, be it indented or not. -/
theorem run (h : d.Reads v a) (hnumbers : ∀ n ∈ v.numbers, n.ReadsBack)
    (hlevels : v.levels ≤ Reading.maxLevels) {text : String}
    (htext : text ∈ [v.compact, v.pretty]) : d.run text = .ok a := by
  rw [Decoder.run, Reading.ofText_eq hnumbers htext, runReading, h _ hlevels (Nat.le_refl _)]
  rfl

end Reads

/-! ### Maps -/

theorem entries_fieldReadings {d : Decoder ε α} {encode : α → Json} {levels : Nat}
    {es : List (String × α)} (h : ∀ e ∈ es, d levels (encode e.2).reading = .ok e.2)
    (m : OrderedMap α) :
    entries d levels m (fieldReadings (es.map fun e => (e.1, encode e.2))) =
      .ok (es.foldl (fun m e => m.insert e.1 e.2) m) := by
  induction es generalizing m with
  | nil => rfl
  | cons e es ih =>
    rw [List.forall_mem_cons] at h
    rw [List.map_cons, fieldReadings, entries, h.1, Outcome.ok_bind, ih h.2, List.foldl_cons]

theorem levels_le_fieldLevels {k : String} {v : Json} :
    ∀ {fields : List (String × Json)}, (k, v) ∈ fields → v.levels ≤ fieldLevels fields
  | (_, w) :: rest, h => by
    rw [fieldLevels]
    rcases List.mem_cons.mp h with heq | h
    · cases heq
      exact Nat.le_max_left _ _
    · exact Nat.le_trans (levels_le_fieldLevels h) (Nat.le_max_right _ _)

/-- A map comes back with its entries in order. -/
theorem reads_map {d : Decoder ε α} {encode : α → Json} {m : OrderedMap α}
    (h : ∀ e ∈ m.entries, d.Reads (encode e.2) e.2) :
    (map d).Reads (.object (m.entries.map fun e => (e.1, encode e.2))) m := by
  intro levels hlevels hmax
  rw [Json.levels] at hlevels
  obtain ⟨levels, rfl⟩ : ∃ n, levels = n + 1 := ⟨levels - 1, by omega⟩
  have hentries : ∀ e ∈ m.entries, d levels (encode e.2).reading = .ok e.2 := by
    intro e he
    have hmem : (e.1, encode e.2) ∈ m.entries.map fun e => (e.1, encode e.2) :=
      List.mem_map.mpr ⟨e, he, rfl⟩
    have hle := levels_le_fieldLevels hmem
    exact h e he levels (Nat.le_trans hle (Nat.le_of_succ_le_succ hlevels)) (Nat.le_of_succ_le hmax)
  rw [reading, map, entries_fieldReadings hentries, Outcome.ok_bind, if_pos rfl]
  exact congrArg Except.ok m.ofList_entries

/-! ### Records -/

/-- What the fields of a record make of named values, one after the other: what is known of the
record before, and what is known after. -/
inductive Takes (fields : List (Field ε σ)) : σ → List (String × Json) → σ → Prop where
  /-- Nothing more is known. -/
  | nil {s : σ} : Takes fields s [] s
  /-- The field with the name takes the value. -/
  | cons {s s' s'' : σ} {f : Field ε σ} {v : Json} {rest : List (String × Json)}
      (hfind : fields.find? (fun g => g.name = f.name) = some f)
      (htake : ∀ levels, v.levels ≤ levels → levels ≤ Reading.maxLevels →
        f.take levels v.reading s = .ok s')
      (h : Takes fields s' rest s'') : Takes fields s ((f.name, v) :: rest) s''

/-- A field that is not given yet takes what its decoder makes of the value. -/
theorem Reads.field {d : Decoder ε α} {v : Json} {a : α} (h : d.Reads v a) {name : String}
    {get : σ → Option α} {set : α → σ → σ} {s : σ} (hget : get s = none) :
    ∀ levels, v.levels ≤ levels → levels ≤ Reading.maxLevels →
      (Decoder.field name get set d).take levels v.reading s = .ok (set a s) := by
  intro levels hlevels hmax
  simp only [Decoder.field, hget, h levels hlevels hmax]
  rfl

theorem Takes.takeNamed {fields : List (Field ε σ)} {s s' : σ} {vs : List (String × Json)}
    (h : Takes fields s vs s') {levels : Nat} (hlevels : fieldLevels vs ≤ levels)
    (hmax : levels ≤ Reading.maxLevels) :
    takeNamed fields levels s (fieldReadings vs) = .ok s' := by
  induction h with
  | nil => rfl
  | cons hfind htake _ ih =>
    rw [fieldLevels, Nat.max_le] at hlevels
    simp only [fieldReadings, Decoder.takeNamed, hfind, htake levels hlevels.1 hmax,
      Outcome.ok_bind]
    exact ih hlevels.2

/-- A record comes back from the values of its fields. -/
theorem reads_record {fields : List (Field ε σ)} {start s : σ} {vs : List (String × Json)}
    (h : Takes fields start vs s) {finish : σ → Option α} {a : α} (hfinish : finish s = some a) :
    (record fields start finish).Reads (.object vs) a := by
  intro levels hlevels hmax
  rw [Json.levels] at hlevels
  obtain ⟨levels, rfl⟩ : ∃ n, levels = n + 1 := ⟨levels - 1, by omega⟩
  have htaken := h.takeNamed (Nat.le_of_succ_le_succ hlevels) (Nat.le_of_succ_le hmax)
  rw [reading, record]
  simp only [htaken, Outcome.ok_bind, hfinish]
  rfl

end Decoder

end SlotTree
