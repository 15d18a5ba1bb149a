import SlotTree.Json.Number

/-!
# Numerals read back

Whether a number is read back as the number that was written.  Integers always are: their digits fit
the significand, and nothing is rounded.  A binary64 number is, or is not, depending on how its
shortest digits are rounded when they are read; `Number.ReadsBack` says so for a single number.

Where a numeral stands in front of a mark, reading it stops at the mark.

## Main definitions

* `Number.ReadsBack` — the text of a number is a numeral that means the number.
* `Numeral.Ends` — what a numeral does not go on with.

## Main results

* `Number.readsBack_integer` — integers are read back.
* `Numeral.scan_append` — a numeral with something behind it.
-/

namespace SlotTree

/-! ### Numerals with something behind them -/

namespace Numeral

/-- What follows does not go on with a numeral. -/
def Ends (rest : List Char) : Prop :=
  ∀ c ∈ rest.head?, digitValue? c = none ∧ c ≠ '.' ∧ c ≠ 'e' ∧ c ≠ 'E'

variable {cs r rest : List Char}

theorem ends_nil : Ends [] := nofun

theorem ends_cons {c : Char} (hc : digitValue? c = none ∧ c ≠ '.' ∧ c ≠ 'e' ∧ c ≠ 'E')
    (cs : List Char) : Ends (c :: cs) := by
  rintro _ ⟨⟩
  exact hc

theorem takeDigits_of_ends (hrest : Ends rest) : takeDigits rest = ([], rest) := by
  cases rest with
  | nil => rfl
  | cons c rest => rw [takeDigits, (hrest c rfl).1]

theorem takeDigits_append (hrest : Ends rest) (cs : List Char) :
    takeDigits (cs ++ rest) = ((takeDigits cs).1, (takeDigits cs).2 ++ rest) := by
  induction cs with
  | nil => exact takeDigits_of_ends hrest
  | cons c cs ih =>
    rw [List.cons_append, takeDigits, takeDigits]
    cases digitValue? c with
    | some d => simp only [ih]
    | none => rfl

theorem scanWhole_append (hrest : Ends rest) {ds : List Nat} (h : scanWhole cs = some (ds, r)) :
    scanWhole (cs ++ rest) = some (ds, r ++ rest) := by
  rw [scanWhole, takeDigits_append hrest]
  rw [scanWhole] at h
  split at h
  · cases h
  · cases h
  · next heq _ _ =>
    cases h
    simp_all

theorem scanFraction_of_ne {c : Char} (hc : c ≠ '.') (cs : List Char) :
    scanFraction (c :: cs) = some (none, c :: cs) := by
  rw [scanFraction]
  exact fun _ heq => hc (List.cons.inj heq).1

theorem scanFraction_append (hrest : Ends rest) {ds : Option (List Nat)}
    (h : scanFraction cs = some (ds, r)) : scanFraction (cs ++ rest) = some (ds, r ++ rest) := by
  cases cs with
  | nil =>
    cases h
    cases rest with
    | nil => rfl
    | cons c rest => exact scanFraction_of_ne (hrest c rfl).2.1 rest
  | cons c cs =>
    by_cases hc : c = '.'
    · subst hc
      rw [List.cons_append, scanFraction, takeDigits_append hrest]
      rw [scanFraction] at h
      split at h
      · cases h
      · cases h
        simp_all
    · rw [scanFraction_of_ne hc] at h
      cases h
      exact scanFraction_of_ne hc (cs ++ rest)

theorem scanExponentDigits_append (hrest : Ends rest) {negative : Bool}
    {e : Option (Bool × List Nat)} (h : scanExponentDigits negative cs = some (e, r)) :
    scanExponentDigits negative (cs ++ rest) = some (e, r ++ rest) := by
  rw [scanExponentDigits, takeDigits_append hrest]
  rw [scanExponentDigits] at h
  split at h
  · cases h
  · next ds after hne heq =>
    cases h
    simp_all

theorem scanExponent_of_ne {c : Char} (he : c ≠ 'e') (hE : c ≠ 'E') (cs : List Char) :
    scanExponent (c :: cs) = some (none, c :: cs) := by
  unfold scanExponent
  split <;> simp_all

/-- An exponent without a sign. -/
theorem scanExponent_unsigned {mark c : Char} (hmark : mark = 'e' ∨ mark = 'E') (hplus : c ≠ '+')
    (hminus : c ≠ '-') (cs : List Char) :
    scanExponent (mark :: c :: cs) = scanExponentDigits false (c :: cs) := by
  unfold scanExponent
  rcases hmark with rfl | rfl <;> split <;> simp_all

theorem scanExponent_append (hrest : Ends rest) {e : Option (Bool × List Nat)}
    (h : scanExponent cs = some (e, r)) : scanExponent (cs ++ rest) = some (e, r ++ rest) := by
  -- without a sign there is a digit at least
  have hunsigned : ∀ {mark : Char} {cs : List Char}, mark = 'e' ∨ mark = 'E' →
      (∀ cs', cs = '+' :: cs' → False) → (∀ cs', cs = '-' :: cs' → False) →
      scanExponentDigits false cs = some (e, r) →
        scanExponent (mark :: cs ++ rest) = some (e, r ++ rest) := by
    intro mark cs hmark hplus hminus h
    cases cs with
    | nil => cases h
    | cons c cs =>
      refine (scanExponent_unsigned hmark (fun hc => hplus cs (hc ▸ rfl))
        (fun hc => hminus cs (hc ▸ rfl)) (cs ++ rest)).trans ?_
      exact scanExponentDigits_append hrest h
  unfold scanExponent at h
  split at h
  case h_5 hplus hminus => exact hunsigned (.inl rfl) hplus hminus h
  case h_6 hplus hminus => exact hunsigned (.inr rfl) hplus hminus h
  case h_7 he hE =>
    cases h
    cases cs with
    | nil =>
      cases rest with
      | nil => rfl
      | cons c rest =>
        obtain ⟨-, -, he, hE⟩ := hrest c rfl
        exact scanExponent_of_ne he hE rest
    | cons c cs =>
      exact scanExponent_of_ne (fun hc => he cs (hc ▸ rfl)) (fun hc => hE cs (hc ▸ rfl))
        (cs ++ rest)
  all_goals exact scanExponentDigits_append hrest h

/-- The numeral at the start of a text whose sign is already taken. -/
def scanUnsigned (negative : Bool) (cs : List Char) : Option (Numeral × List Char) := do
  let (whole, cs) ← scanWhole cs
  let (fraction, cs) ← scanFraction cs
  let (exponent, cs) ← scanExponent cs
  return (⟨negative, whole, fraction, exponent⟩, cs)

theorem scan_minus (cs : List Char) : scan ('-' :: cs) = scanUnsigned true cs := rfl

theorem scan_of_ne {c : Char} (hc : c ≠ '-') (cs : List Char) :
    scan (c :: cs) = scanUnsigned false (c :: cs) := by
  rw [scan]
  · rfl
  · exact fun _ heq => hc (List.cons.inj heq).1

theorem scanUnsigned_append (hrest : Ends rest) {negative : Bool} {t : Numeral}
    (h : scanUnsigned negative cs = some (t, r)) :
    scanUnsigned negative (cs ++ rest) = some (t, r ++ rest) := by
  simp only [scanUnsigned, Option.bind_eq_bind, Option.bind_eq_some_iff] at h
  obtain ⟨⟨whole, r₁⟩, hwhole, ⟨fraction, r₂⟩, hfraction, ⟨exponent, r₃⟩, hexponent, h⟩ := h
  cases h
  rw [scanUnsigned, scanWhole_append hrest hwhole]
  simp only [Option.bind_eq_bind, Option.bind_some]
  rw [scanFraction_append hrest hfraction, Option.bind_some, scanExponent_append hrest hexponent]
  rfl

/-- A numeral is read as far as it goes, whatever does not go on with it. -/
theorem scan_append (hrest : Ends rest) {t : Numeral} (h : scan cs = some (t, r)) :
    scan (cs ++ rest) = some (t, r ++ rest) := by
  cases cs with
  | nil => cases h
  | cons c cs =>
    by_cases hc : c = '-'
    · subst hc
      exact scanUnsigned_append hrest h
    · rw [scan_of_ne hc] at h
      rw [List.cons_append, scan_of_ne hc]
      exact scanUnsigned_append hrest h

/-- A numeral begins with a sign or a digit. -/
theorem head_of_scan {t : Numeral} (h : scan cs = some (t, r)) :
    ∃ c ∈ cs.head?, c = '-' ∨ (digitValue? c).isSome := by
  cases cs with
  | nil => cases h
  | cons c cs =>
    refine ⟨c, rfl, ?_⟩
    by_cases hc : c = '-'
    · exact .inl hc
    · right
      rw [scan_of_ne hc, scanUnsigned, scanWhole, takeDigits] at h
      cases hd : digitValue? c with
      | some d => rfl
      | none =>
        rw [hd] at h
        cases h

end Numeral

/-! ### Digits -/

/-- A decimal digit as a number. -/
def digitOf (c : Char) : Nat := c.toNat - '0'.toNat

theorem digitValue?_of_isDigit {c : Char} (h : c.isDigit = true) :
    digitValue? c = some (digitOf c) := by
  rw [Char.isDigit, Bool.and_eq_true, decide_eq_true_eq, decide_eq_true_eq] at h
  exact if_pos h

theorem eq_zero_of_digitOf {c : Char} (h : c.isDigit = true) (hc : digitOf c = 0) : c = '0' := by
  rw [Char.isDigit, Bool.and_eq_true, decide_eq_true_eq, decide_eq_true_eq] at h
  have hle : '0'.toNat ≤ c.toNat := UInt32.le_iff_toNat_le.mp h.1
  rw [digitOf] at hc
  exact Char.toNat_inj.mp (by omega)

theorem takeDigits_of_isDigit {cs : List Char} (h : ∀ c ∈ cs, c.isDigit = true) :
    takeDigits cs = (cs.map digitOf, []) := by
  induction cs with
  | nil => rfl
  | cons c cs ih =>
    rw [List.forall_mem_cons] at h
    rw [takeDigits, digitValue?_of_isDigit h.1, ih h.2]
    rfl

theorem isDigit_of_mem_naturalText {n : Nat} {c : Char} (h : c ∈ naturalText n) :
    c.isDigit = true :=
  Nat.isDigit_of_mem_toDigits (by decide) (by decide) h

/-- The first of several digits is not zero. -/
theorem head_naturalText (n : Nat) :
    ∀ c ∈ (naturalText n).head?, c = '0' → naturalText n = ['0'] := by
  induction n using Nat.strongRecOn with
  | _ n ih =>
    intro c hc hzero
    subst hzero
    by_cases hn : n < 10
    · rw [naturalText, Nat.toDigits_of_lt_base hn] at hc ⊢
      rw [List.head?_cons, Option.mem_def, Option.some.injEq] at hc
      rw [hc]
    · have hsplit : naturalText n = naturalText (n / 10) ++ [(n % 10).digitChar] :=
        Nat.toDigits_of_base_le (by decide) (Nat.le_of_not_lt hn)
      obtain ⟨d, ds, hds⟩ := List.exists_cons_of_ne_nil
        (show naturalText (n / 10) ≠ [] from Nat.toDigits_ne_nil)
      rw [hsplit, hds, List.cons_append, List.head?_cons, ← List.head?_cons, ← hds] at hc
      -- then all digits but the last are one zero, so that the number has one digit
      have hrest := ih (n / 10) (by omega) _ hc rfl
      have hzero : n / 10 = 0 := by
        rw [← Nat.ofDigitChars_ten_toDigits (n := n / 10)]
        show Nat.ofDigitChars 10 (naturalText (n / 10)) 0 = 0
        rw [hrest]
        rfl
      omega

theorem digitsValue_naturalText (n : Nat) :
    Numeral.digitsValue ((naturalText n).map digitOf) = n := by
  have hstep : (fun n c => n * 10 + digitOf c) = fun n c => 10 * n + (c.toNat - '0'.toNat) := by
    funext n c
    rw [Nat.mul_comm]
    rfl
  rw [Numeral.digitsValue, List.foldl_map, hstep]
  exact Nat.ofDigitChars_ten_toDigits

/-! ### Integers -/

namespace Numeral

theorem le_foldl_digits (ds : List Nat) : ∀ n, n ≤ ds.foldl (fun n d => n * 10 + d) n := by
  induction ds with
  | nil => exact Nat.le_refl
  | cons d ds ih => exact fun n => Nat.le_trans (by omega) (ih (n * 10 + d))

/-- Digits of a number that fits the significand are all taken. -/
theorem absorb_eq {ds : List Nat} : ∀ {n : Nat},
    ds.foldl (fun n d => n * 10 + d) n < UInt64.size →
      absorb n ds = (ds.foldl (fun n d => n * 10 + d) n, []) := by
  induction ds with
  | nil => exact fun _ => rfl
  | cons d ds ih =>
    intro n h
    rw [List.foldl_cons] at h ⊢
    rw [absorb, if_pos (Nat.lt_of_le_of_lt (le_foldl_digits ds _) h), ih h]

/-- The numeral of a natural number, with or without a minus sign in front. -/
def ofNatural (negative : Bool) (n : Nat) : Numeral :=
  ⟨negative, (naturalText n).map digitOf, none, none⟩

theorem scanWhole_naturalText (n : Nat) :
    scanWhole (naturalText n) = some ((naturalText n).map digitOf, []) := by
  rw [scanWhole, takeDigits_of_isDigit fun _ => isDigit_of_mem_naturalText]
  split
  · next heq =>
    exact absurd (List.map_eq_nil_iff.mp (Prod.mk.inj heq).1) Nat.toDigits_ne_nil
  · next d ds _ heq =>
    -- of several digits the first would be zero
    obtain ⟨c, cs, hcs, hc, hrest⟩ := List.map_eq_cons_iff.mp (Prod.mk.inj heq).1
    have hdigit : c.isDigit = true := isDigit_of_mem_naturalText (hcs ▸ List.mem_cons_self)
    have hone := head_naturalText n c (by rw [hcs]; rfl) (eq_zero_of_digitOf hdigit hc)
    rw [hcs] at hone
    rw [(List.cons.inj hone).2] at hrest
    cases hrest
  · next heq =>
    cases heq
    rfl

theorem scanUnsigned_naturalText (negative : Bool) (n : Nat) :
    scanUnsigned negative (naturalText n) = some (ofNatural negative n, []) := by
  rw [scanUnsigned, scanWhole_naturalText]
  rfl

theorem scan_naturalText (n : Nat) :
    scan (naturalText n) = some (ofNatural false n, []) := by
  obtain ⟨c, cs, hcs⟩ := List.exists_cons_of_ne_nil
    (show naturalText n ≠ [] from Nat.toDigits_ne_nil)
  have hc : c ≠ '-' := by
    rintro rfl
    have hdigit : '-'.isDigit = true :=
      isDigit_of_mem_naturalText (n := n) (hcs ▸ List.mem_cons_self)
    exact absurd hdigit (by decide)
  rw [hcs, scan_of_ne hc, ← hcs]
  exact scanUnsigned_naturalText false n

theorem absorb_naturalText {n : Nat} (h : n < UInt64.size) :
    absorb 0 ((naturalText n).map digitOf) = (n, []) := by
  have hvalue : List.foldl (fun n d => n * 10 + d) 0 ((naturalText n).map digitOf) = n :=
    digitsValue_naturalText n
  rw [absorb_eq (by rw [hvalue]; exact h), hvalue]

end Numeral

/-- The text of a number is a numeral that means the number. -/
def Number.ReadsBack (n : Number) : Prop :=
  ∃ t, Numeral.scan n.write = some (t, []) ∧ t.value? = some n

namespace Number

theorem ofInt?_eq_some {n : Int} (fits : -0x8000000000000000 ≤ n ∧ n < 0x10000000000000000) :
    ofInt? n = some (.integer n fits) := dif_pos fits

/-- Integers are read back. -/
theorem readsBack_integer {n : Int}
    (fits : -0x8000000000000000 ≤ n ∧ n < 0x10000000000000000) :
    (Number.integer n fits).ReadsBack := by
  have hsize : n.natAbs < UInt64.size := by
    simp only [UInt64.size]
    omega
  rw [ReadsBack, write, integerText]
  by_cases hn : n < 0
  · have hne : n.natAbs ≠ 0 := by omega
    have hneg : -(n.natAbs : Int) = n := by omega
    refine ⟨Numeral.ofNatural true n.natAbs, ?_, ?_⟩
    · rw [if_pos hn, Numeral.scan_minus]
      exact Numeral.scanUnsigned_naturalText true n.natAbs
    · rw [Numeral.value?, Numeral.ofNatural, Numeral.absorb_naturalText hsize]
      simp only [if_neg hne, hneg, ofInt?_eq_some fits, if_true]
  · have hnat : (n.natAbs : Int) = n := by omega
    refine ⟨Numeral.ofNatural false n.natAbs, ?_, ?_⟩
    · rw [if_neg hn]
      exact Numeral.scan_naturalText n.natAbs
    · rw [Numeral.value?, Numeral.ofNatural, Numeral.absorb_naturalText hsize]
      simp only [hnat, ofInt?_eq_some fits, Bool.false_eq_true, if_false]

end Number

end SlotTree
