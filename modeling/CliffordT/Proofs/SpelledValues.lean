import Mathlib
import CliffordT.Command.Flag

/-!
# What a value that was set says

A value of a parameter's own kind says what it is, a double says its integer part, and an integer says the double next to
it.  A text says what it spells: an integer in decimal digits, a double in decimal digits with a fraction and an exponent,
a duration as numbers with units, a truth value as one of twelve words (`Setting.Says`).  Converting a value gives what it
says (`Setting.Says.convert_eq`).
-/

namespace CliffordT

/-! ### Digits -/

namespace Decimal

private theorem le_ofDigitChars (ds : List Char) (n : Nat) : n ≤ Nat.ofDigitChars 10 ds n := by
  rw [Nat.ofDigitChars_eq_ofDigitChars_zero]
  have hpow := Nat.mul_le_mul_right n (Nat.one_le_pow ds.length 10 (by omega))
  omega

private theorem le_and_le_of_isDigit {c : Char} (h : c.isDigit = true) : '0' ≤ c ∧ c ≤ '9' := by
  have hval : 48 ≤ c.val ∧ c.val ≤ 57 := by simpa [Char.isDigit] using h
  exact hval

private theorem toNat_of_isDigit {c : Char} (h : c.isDigit = true) : 48 ≤ c.toNat ∧ c.toNat ≤ 57 := by
  obtain ⟨hlow, hhigh⟩ := le_and_le_of_isDigit h
  exact ⟨UInt32.le_iff_toNat_le.1 hlow, UInt32.le_iff_toNat_le.1 hhigh⟩

private theorem digitValue?_of_isDigit {c : Char} (h : c.isDigit = true) : digitValue? c = some (c.toNat - 48) := by
  rw [digitValue?, if_pos (le_and_le_of_isDigit h)]

/-- Digits have their value, as long as it fits. -/
private theorem digitsValue_of_isDigit {ds : List Char} (hds : ∀ c ∈ ds, c.isDigit = true)
    (h : Nat.ofDigitChars 10 ds 0 < 0x10000000000000000) : digitsValue 10 ds = .ok (Nat.ofDigitChars 10 ds 0) := by
  unfold digitsValue
  generalize (0 : Nat) = n at h ⊢
  induction ds generalizing n with
  | nil => rfl
  | cons c ds ih =>
    rw [Nat.ofDigitChars_cons] at h ⊢
    have hc := hds c List.mem_cons_self
    have hdigit := toNat_of_isDigit hc
    have hle := le_ofDigitChars ds (10 * n + (c.toNat - '0'.toNat))
    have hzero : '0'.toNat = 48 := rfl
    rw [hzero] at h hle ⊢
    rw [List.foldlM_cons, digitValue?_of_isDigit hc]
    dsimp only
    rw [if_neg (by omega), if_pos (by omega)]
    have hcomm : n * 10 + (c.toNat - 48) = 10 * n + (c.toNat - 48) := by omega
    rw [hcomm]
    exact ih (fun c hc => hds c (List.mem_cons_of_mem _ hc)) _ h

/-! ### Integers -/

/-- The integers of 64 bits. -/
def Fits64 (n : Int) : Prop := -0x8000000000000000 ≤ n ∧ n < 0x8000000000000000

instance decidableFits64 (n : Int) : Decidable (Fits64 n) :=
  inferInstanceAs (Decidable (-0x8000000000000000 ≤ n ∧ n < 0x8000000000000000))

private theorem ne_of_isDigit {c d : Char} (h : c.isDigit = true) (hd : d.isDigit = false) : c ≠ d := by
  rintro rfl
  rw [h] at hd
  cases hd

private theorem head?_toDigits_ne {n : Nat} (h : 0 < n) : (Nat.toDigits 10 n).head? ≠ some '0' := by
  induction n using Nat.strongRecOn with
  | ind n ih =>
    rw [Nat.toDigits_eq_if (by omega)]
    split
    · simpa [Nat.digitChar_eq_zero] using Nat.pos_iff_ne_zero.1 h
    · have hhead := ih (n / 10) (by omega) (by omega)
      cases hdigits : Nat.toDigits 10 (n / 10) with
      | nil => exact absurd hdigits Nat.toDigits_ne_nil
      | cons c cs =>
        rw [hdigits] at hhead
        exact hhead

private theorem splitBase_toDigits (n : Nat) : splitBase (Nat.toDigits 10 n) = (10, Nat.toDigits 10 n) := by
  unfold splitBase
  split
  · rename_i c rest h
    cases n with
    | zero => simp at h
    | succ n => exact absurd (by rw [h]; rfl) (head?_toDigits_ne (Nat.succ_pos n))
  · rfl

private theorem isDigit_of_mem_toDigits {n : Nat} {c : Char} (h : c ∈ Nat.toDigits 10 n) : c.isDigit = true :=
  Nat.isDigit_of_mem_toDigits (by omega) (by omega) h

private theorem readUnsigned_toDigits {n : Nat} (h : n < 0x10000000000000000) :
    readUnsigned (Nat.toDigits 10 n) = .ok n := by
  have hfilter : (Nat.toDigits 10 n).filter (· ≠ '_') = Nat.toDigits 10 n := by
    rw [List.filter_eq_self]
    intro c hc
    simpa using ne_of_isDigit (isDigit_of_mem_toDigits hc) rfl
  have hvalue := digitsValue_of_isDigit fun c (hc : c ∈ Nat.toDigits 10 n) => isDigit_of_mem_toDigits hc
  rw [Nat.ofDigitChars_ten_toDigits] at hvalue
  unfold readUnsigned
  rw [if_neg (by simp), splitBase_toDigits]
  simp only [hfilter, hvalue h]
  rw [if_neg]
  simp [Nat.underscore_not_in_toDigits]

private theorem splitSign_of_isDigit {cs : List Char} (h : ∀ c ∈ cs.head?, c.isDigit = true ∨ c = '.') :
    splitSign cs = (false, cs) := by
  unfold splitSign
  split
  · exact absurd (h '-' rfl) (by decide)
  · exact absurd (h '+' rfl) (by decide)
  · rfl

/-- An integer is read from its decimal digits. -/
private theorem readInt_toString {n : Int} (h : Fits64 n) : readInt (toString n) = .ok n := by
  obtain ⟨hlow, hhigh⟩ := h
  cases n with
  | ofNat m =>
    have hm : m < 0x8000000000000000 := Int.ofNat_lt.1 hhigh
    have htext : (toString (Int.ofNat m)).toList = Nat.toDigits 10 m := by
      rw [show toString (Int.ofNat m) = toString m from rfl, Nat.toString_eq_ofList_toDigits, String.toList_ofList]
    have hsign : splitSign (Nat.toDigits 10 m) = (false, Nat.toDigits 10 m) :=
      splitSign_of_isDigit fun c hc => Or.inl (isDigit_of_mem_toDigits (List.mem_of_mem_head? hc))
    unfold readInt
    rw [htext, hsign]
    dsimp only
    rw [readUnsigned_toDigits (by omega)]
    exact if_pos hm
  | negSucc m =>
    have hm : m + 1 ≤ 0x8000000000000000 := by omega
    have htext : (toString (Int.negSucc m)).toList = '-' :: Nat.toDigits 10 (m + 1) := by
      rw [show toString (Int.negSucc m) = "-" ++ toString (m + 1) from rfl, Nat.toString_eq_ofList_toDigits]
      simp
    unfold readInt
    rw [htext, splitSign]
    dsimp only
    rw [readUnsigned_toDigits (by omega)]
    exact if_pos hm

/-! ### Doubles -/

/-- A double in decimal digits, with digits behind a point and an exponent if there are any. -/
structure Spelling where
  whole : List Char
  fraction : List Char
  exponent : Option Int

namespace Spelling

/-- The characters of a spelling. -/
def text (s : Spelling) : List Char :=
  s.whole ++ (if s.fraction.isEmpty then [] else '.' :: s.fraction) ++
    (match s.exponent with | none => [] | some x => 'e' :: (toString x).toList)

/-- The number that all digits make. -/
def digits (s : Spelling) : Nat := Nat.ofDigitChars 10 (s.whole ++ s.fraction) 0

/-- The power of ten that the last digit counts. -/
def power (s : Spelling) : Int := s.exponent.getD 0 - s.fraction.length

/-- The double nearest to what is spelled. -/
def value (s : Spelling) : Float :=
  if 0 ≤ s.power then Float.ofScientific s.digits false s.power.toNat
  else Float.ofScientific s.digits true (-s.power).toNat

/-- There are digits, but not too many, and the number is positive and not too large. -/
structure Usual (s : Spelling) : Prop where
  whole : s.whole ≠ []
  isDigit : ∀ c ∈ s.whole ++ s.fraction, c.isDigit = true
  length : (s.whole ++ s.fraction).length ≤ 20
  exponent : ∀ x ∈ s.exponent, -300 ≤ x ∧ x ≤ 300
  pos : 0 < s.digits
  finite : s.value.isInf = false

end Spelling

private theorem readMantissa_isDigit {ds : List Char} (hds : ∀ c ∈ ds, c.isDigit = true) (m : Mantissa)
    (cs : List Char) :
    readMantissa 10 m (ds ++ cs) = readMantissa 10
      { m with
        value := Nat.ofDigitChars 10 ds m.value
        count := m.count + ds.length
        places := if m.pointSeen then m.places + ds.length else m.places } cs := by
  induction ds generalizing m with
  | nil => cases m with | mk value count places pointSeen => cases pointSeen <;> rfl
  | cons c ds ih =>
    have hc := hds c List.mem_cons_self
    have hdigit := toNat_of_isDigit hc
    rw [List.cons_append, readMantissa, if_neg (ne_of_isDigit hc rfl), if_neg (ne_of_isDigit hc rfl),
      digitValue?_of_isDigit hc]
    dsimp only
    rw [if_pos (by omega), ih fun c hc => hds c (List.mem_cons_of_mem _ hc)]
    have hzero : '0'.toNat = 48 := rfl
    have hcomm : m.value * 10 + (c.toNat - 48) = 10 * m.value + (c.toNat - '0'.toNat) := by omega
    congr 1
    simp only [Nat.ofDigitChars_cons, hcomm, List.length_cons, Mantissa.mk.injEq, true_and, and_true]
    refine ⟨by omega, ?_⟩
    split <;> omega

private theorem foldl_cut {ds : List Char} (hds : ∀ c ∈ ds, c.isDigit = true) {n : Nat}
    (h : Nat.ofDigitChars 10 ds n < 10000) :
    ds.foldl (fun n c => if n < 10000 then n * 10 + (c.toNat - 48) else n) n = Nat.ofDigitChars 10 ds n := by
  induction ds generalizing n with
  | nil => rfl
  | cons c ds ih =>
    have hle := le_ofDigitChars (c :: ds) n
    have hzero : '0'.toNat = 48 := rfl
    have hcomm : n * 10 + (c.toNat - 48) = 10 * n + (c.toNat - '0'.toNat) := by omega
    rw [List.foldl_cons, if_pos (by omega), hcomm, Nat.ofDigitChars_cons]
    rw [Nat.ofDigitChars_cons] at h
    exact ih (fun c hc => hds c (List.mem_cons_of_mem _ hc)) h

private theorem readExponent?_toString {x : Int} (h : -300 ≤ x ∧ x ≤ 300) :
    readExponent? (toString x).toList = some x := by
  have hdigits (m : Nat) (hm : m ≤ 300) (negative : Bool) (cs : List Char)
      (hcs : splitSign cs = (negative, Nat.toDigits 10 m)) :
      readExponent? cs = some (if negative then -(m : Int) else m) := by
    have hall : ∀ c ∈ Nat.toDigits 10 m, c.isDigit = true := fun c hc => isDigit_of_mem_toDigits hc
    have hfold := foldl_cut (n := 0) hall
    rw [Nat.ofDigitChars_ten_toDigits] at hfold
    have hfilter : (Nat.toDigits 10 m).filter (· ≠ '_') = Nat.toDigits 10 m := by
      rw [List.filter_eq_self]
      intro c hc
      simpa using ne_of_isDigit (hall c hc) rfl
    unfold readExponent?
    rw [hcs]
    dsimp only
    rw [hfilter, hfold (by omega)]
    cases hd : Nat.toDigits 10 m with
    | nil => exact absurd hd Nat.toDigits_ne_nil
    | cons c ds =>
      rw [hd] at hall
      have hshape : (c.isDigit && (c :: ds).all fun c => c.isDigit || c = '_') = true := by
        rw [hall c List.mem_cons_self, Bool.true_and, List.all_eq_true]
        intro d hd
        rw [hall d hd, Bool.true_or]
      exact if_pos hshape
  cases x with
  | ofNat m =>
    refine hdigits m (Int.ofNat_le.1 h.2) false _ ?_
    rw [show toString (Int.ofNat m) = toString m from rfl, Nat.toString_eq_ofList_toDigits, String.toList_ofList]
    exact splitSign_of_isDigit fun c hc => Or.inl (isDigit_of_mem_toDigits (List.mem_of_mem_head? hc))
  | negSucc m =>
    refine hdigits (m + 1) (by omega) true _ ?_
    rw [show toString (Int.negSucc m) = "-" ++ toString (m + 1) from rfl, Nat.toString_eq_ofList_toDigits]
    simp [splitSign]

namespace Spelling

variable {s : Spelling}

/-- What stands behind the digits. -/
private def tail (s : Spelling) : List Char :=
  match s.exponent with
  | none => []
  | some x => 'e' :: (toString x).toList

private theorem readMantissa_text (h : s.Usual) :
    readMantissa 10 ⟨0, 0, 0, false⟩ s.text =
      (⟨s.digits, s.whole.length + s.fraction.length, s.fraction.length, !s.fraction.isEmpty⟩, s.tail) := by
  have hwhole : ∀ c ∈ s.whole, c.isDigit = true := fun c hc => h.isDigit c (List.mem_append_left _ hc)
  have hfraction : ∀ c ∈ s.fraction, c.isDigit = true := fun c hc => h.isDigit c (List.mem_append_right _ hc)
  have hstop (m : Mantissa) : readMantissa 10 m s.tail = (m, s.tail) := by
    unfold tail
    cases s.exponent with
    | none => rfl
    | some x => rfl
  have htext : s.text = s.whole ++ ((if s.fraction.isEmpty then [] else '.' :: s.fraction) ++ s.tail) := by
    rw [text, List.append_assoc, tail]
  rw [htext, readMantissa_isDigit hwhole]
  cases hf : s.fraction with
  | nil =>
    rw [digits, hf]
    simpa using hstop _
  | cons c cs =>
    have hpoint : (if s.fraction.isEmpty then [] else '.' :: s.fraction) = '.' :: s.fraction := if_neg (by simp [hf])
    rw [← hf, hpoint, List.cons_append, readMantissa, if_neg (by decide), if_pos rfl, if_neg (by simp),
      readMantissa_isDigit hfraction, hstop]
    simp [digits, Nat.ofDigitChars_append, hf]

private theorem ofDigitChars_lt {ds : List Char} (hds : ∀ c ∈ ds, c.isDigit = true) (n : Nat) :
    Nat.ofDigitChars 10 ds n < 10 ^ ds.length * (n + 1) := by
  induction ds generalizing n with
  | nil => simp
  | cons c ds ih =>
    have hdigit := toNat_of_isDigit (hds c List.mem_cons_self)
    have hzero : '0'.toNat = 48 := rfl
    rw [Nat.ofDigitChars_cons, List.length_cons, Nat.pow_succ, Nat.mul_assoc]
    refine Nat.lt_of_lt_of_le (ih (fun c hc => hds c (List.mem_cons_of_mem _ hc)) _) (Nat.mul_le_mul_left _ ?_)
    omega

private theorem ofDecimal_digits (h : s.Usual) : ofDecimal s.digits s.power = s.value := by
  have hlt : s.digits < 2 ^ 67 := by
    have hdigits := ofDigitChars_lt h.isDigit 0
    have hpow := Nat.pow_le_pow_right (n := 10) (by omega) h.length
    have hbound : 10 ^ 20 < 2 ^ 67 := by decide
    rw [digits]
    omega
  have hlog : s.digits.log2 < 67 := (Nat.log2_lt (by have := h.pos; omega)).2 hlt
  have hpower : -320 ≤ s.power ∧ s.power ≤ 300 := by
    have hlength := h.length
    rw [List.length_append] at hlength
    unfold power
    cases hx : s.exponent with
    | none => simp; omega
    | some x =>
      have := h.exponent x hx
      simp; omega
  unfold ofDecimal value
  rw [if_neg (by have := h.pos; omega)]
  dsimp only
  rw [if_neg (by omega), if_neg (by omega)]

private theorem mem_text {c : Char} (h : s.Usual) (hc : c ∈ s.text) :
    c.isDigit = true ∨ c = '.' ∨ c = 'e' ∨ c = '-' := by
  have hint {x : Int} (hc : c ∈ (toString x).toList) : c.isDigit = true ∨ c = '-' := by
    cases x with
    | ofNat m =>
      rw [show toString (Int.ofNat m) = toString m from rfl, Nat.toString_eq_ofList_toDigits, String.toList_ofList] at hc
      exact Or.inl (isDigit_of_mem_toDigits hc)
    | negSucc m =>
      rw [show toString (Int.negSucc m) = "-" ++ toString (m + 1) from rfl, Nat.toString_eq_ofList_toDigits] at hc
      have hmem : c = '-' ∨ c ∈ Nat.toDigits 10 (m + 1) := by simpa using hc
      exact hmem.symm.imp_left isDigit_of_mem_toDigits
  have hdigit {c : Char} (hc : c ∈ s.whole ∨ c ∈ s.fraction) : c.isDigit = true := h.isDigit c (by simpa using hc)
  rw [text, List.mem_append, List.mem_append] at hc
  rcases hc with (hc | hc) | hc
  · exact Or.inl (hdigit (Or.inl hc))
  · split at hc
    · cases hc
    · rcases List.mem_cons.1 hc with rfl | hc
      · exact Or.inr (Or.inl rfl)
      · exact Or.inl (hdigit (Or.inr hc))
  · split at hc
    · cases hc
    · rcases List.mem_cons.1 hc with rfl | hc
      · exact Or.inr (Or.inr (Or.inl rfl))
      · rcases hint hc with hc | rfl
        · exact Or.inl hc
        · exact Or.inr (Or.inr (Or.inr rfl))

private theorem not_mem_text {c : Char} (h : s.Usual) (hdigit : c.isDigit = false) (hc : c ∉ ['.', 'e', '-']) :
    c ∉ s.text := by
  intro hmem
  rcases mem_text h hmem with hc' | rfl | rfl | rfl
  · rw [hc'] at hdigit
    cases hdigit
  all_goals exact hc (by simp)

/-- Letters that could start another spelling do not occur. -/
private theorem lowerLetter_ne {c d : Char} (h : s.Usual) (hc : c ∈ s.text) (hd : d ∈ ['x', 'i', 'n']) :
    lowerLetter c ≠ d := by
  have hlower : lowerLetter c = c := by
    rcases mem_text h hc with hc | rfl | rfl | rfl
    · have hdigit := toNat_of_isDigit hc
      unfold lowerLetter Char.toLower
      rw [dif_neg]
      rintro ⟨hlow, -⟩
      have hlow : 65 ≤ c.toNat := UInt32.le_iff_toNat_le.1 hlow
      omega
    all_goals rfl
  rw [hlower]
  rintro rfl
  simp only [List.mem_cons, List.not_mem_nil, or_false] at hd
  rcases hd with rfl | rfl | rfl
  all_goals exact not_mem_text h rfl (by decide) hc

private theorem splitHex_text (h : s.Usual) : splitHex s.text = (10, s.text) := by
  unfold splitHex
  split
  · rename_i c rest htext
    have hc : lowerLetter c ≠ 'x' := lowerLetter_ne h (by simp [htext]) (by simp)
    rw [if_neg fun hx => hc hx.1, htext]
  · rfl

private theorem exponentOf?_tail (h : s.Usual) : exponentOf? 10 s.tail = some (s.exponent.getD 0) := by
  unfold tail
  cases hx : s.exponent with
  | none => rfl
  | some x => exact readExponent?_toString (h.exponent x hx)

private theorem readMagnitude_text (h : s.Usual) : readMagnitude s.text = .ok s.value := by
  have hunderscore : (s.text.contains '_' && !underscoresFit s.text) = false := by
    rw [Bool.and_eq_false_iff]
    exact Or.inl (by simpa using not_mem_text h rfl (by decide))
  have hcount : s.whole.length + s.fraction.length ≠ 0 := by
    have := List.length_pos_iff.2 h.whole
    omega
  have hvalue : ofDecimal s.digits (s.exponent.getD 0 - s.fraction.length) = s.value := ofDecimal_digits h
  unfold readMagnitude
  rw [hunderscore, splitHex_text h]
  dsimp only
  rw [readMantissa_text h]
  dsimp only
  rw [exponentOf?_tail h, if_neg (by simp), if_neg hcount]
  simp [hvalue, h.finite]

/-- A double is read from its decimal spelling. -/
private theorem readFloat_text (h : s.Usual) : readFloat (String.ofList s.text) = .ok s.value := by
  obtain ⟨c, cs, htext, hc⟩ : ∃ c cs, s.text = c :: cs ∧ c.isDigit = true := by
    cases hwhole : s.whole with
    | nil => exact absurd hwhole h.whole
    | cons c cs =>
      refine ⟨c, _, by rw [text, hwhole]; rfl, h.isDigit c ?_⟩
      simp [hwhole]
  have hsign : splitSign s.text = (false, s.text) := by
    refine splitSign_of_isDigit fun d hd => Or.inl ?_
    rw [htext] at hd
    cases hd
    exact hc
  have hword (d : Char) (ds : List Char) (hd : d ∈ ['x', 'i', 'n']) :
      String.ofList (s.text.map lowerLetter) ≠ String.ofList (d :: ds) := by
    rw [htext, List.map_cons, ne_eq, String.ofList_inj, List.cons.injEq]
    exact fun hsame => lowerLetter_ne h (by simp [htext]) hd hsame.1
  unfold readFloat
  simp only [String.toList_ofList, hsign]
  rw [if_neg, if_neg, readMagnitude_text h]
  · rfl
  · exact hword 'n' ['a', 'n'] (by simp)
  · rintro (hsame | hsame)
    · exact hword 'i' ['n', 'f'] (by simp) hsame
    · exact hword 'i' ['n', 'f', 'i', 'n', 'i', 't', 'y'] (by simp) hsame

end Spelling

end Decimal

/-! ### Durations -/

namespace Duration

open CliffordT.Decimal

/-- The units with their nanoseconds. -/
def units : List (String × Nat) :=
  [("ns", 1), ("us", 1000), ("µs", 1000), ("ms", 1000000), ("s", 1000000000), ("m", 60000000000), ("h", 3600000000000)]

/-- A number and its unit. -/
abbrev Term := Nat × String × Nat

/-- The characters of numbers with units. -/
def termsText (terms : List Term) : List Char := terms.flatMap fun (n, unit, _) => Nat.toDigits 10 n ++ unit.toList

/-- The sum of numbers with units. -/
def total (terms : List Term) : Nat := (terms.map fun (n, _, nanoseconds) => n * nanoseconds).sum

private theorem units_fit : ∀ u ∈ units, unit? u.1 = some u.2 ∧ 0 < u.2 ∧ u.1.isEmpty = false ∧
    (u.1.toList.all fun c => !(c = '.' || c.isDigit)) = true := by
  decide +kernel

private theorem foldl_digits (ds : List Char) (n : Nat) :
    ds.foldl (fun n c => n * 10 + (c.toNat - 48)) n = Nat.ofDigitChars 10 ds n := by
  rw [Nat.ofDigitChars_eq_foldl]
  congr 1
  funext m c
  have hzero : '0'.toNat = 48 := rfl
  omega

private theorem takeWhile_append_of_all {p : Char → Bool} {xs : List Char} (hxs : xs.all p = true) (ys : List Char)
    (hys : ∀ c ∈ ys.head?, p c = false) : (xs ++ ys).takeWhile p = xs ∧ (xs ++ ys).dropWhile p = ys := by
  rw [List.takeWhile_append_of_pos (List.all_eq_true.1 hxs), List.dropWhile_append_of_pos (List.all_eq_true.1 hxs)]
  cases ys with
  | nil => simp
  | cons c ys => simp [hys c rfl]

/-- What follows a unit starts with a digit, if anything does. -/
private theorem head?_termsText {terms : List Term} {c : Char} (h : c ∈ (termsText terms).head?) :
    c.isDigit = true := by
  cases terms with
  | nil => cases h
  | cons term terms =>
    obtain ⟨n, unit, k⟩ := term
    cases hd : Nat.toDigits 10 n with
    | nil => exact absurd hd Nat.toDigits_ne_nil
    | cons d ds =>
      have hc : d = c := by simpa [termsText, hd] using h
      subst hc
      exact Nat.isDigit_of_mem_toDigits (b := 10) (n := n) (by omega) (by omega) (by simp [hd])

private theorem readTerm_cons (whole : String) {n : Nat} {unit : String} {k : Nat} (hunit : (unit, k) ∈ units)
    (terms : List Term) (h : n * k < 0x8000000000000000) :
    readTerm whole (termsText ((n, unit, k) :: terms)) = .ok (n * k, termsText terms) := by
  obtain ⟨hknown, hpos, hne, hletters⟩ := units_fit (unit, k) hunit
  dsimp only at hknown hpos hne hletters
  have htext : termsText ((n, unit, k) :: terms) = Nat.toDigits 10 n ++ (unit.toList ++ termsText terms) := by
    simp [termsText]
  have hdigits : (Nat.toDigits 10 n).all Char.isDigit = true :=
    List.all_eq_true.2 fun c hc => Nat.isDigit_of_mem_toDigits (by omega) (by omega) hc
  obtain ⟨d, ds, hunitText⟩ : ∃ d ds, unit.toList = d :: ds := by
    cases hlist : unit.toList with
    | nil =>
      rw [String.toList_eq_nil_iff.1 hlist] at hne
      cases hne
    | cons d ds => exact ⟨d, ds, rfl⟩
  have hfirst : d ≠ '.' ∧ d.isDigit = false := by
    have hd := List.all_eq_true.1 hletters d (by simp [hunitText])
    simpa using hd
  obtain ⟨htake, hdrop⟩ := takeWhile_append_of_all hdigits (unit.toList ++ termsText terms) (by
    intro c hc
    rw [hunitText] at hc
    cases hc
    exact hfirst.2)
  obtain ⟨htakeUnit, hdropUnit⟩ := takeWhile_append_of_all hletters (termsText terms) (by
    intro c hc
    simp [head?_termsText hc])
  have hpoint : splitPoint (unit.toList ++ termsText terms) = ([], unit.toList ++ termsText terms) := by
    rw [hunitText, List.cons_append]
    unfold splitPoint
    split
    · rename_i heq
      exact absurd (List.cons.inj heq).1 hfirst.1
    · rfl
  have hsum : Nat.ofDigitChars 10 (Nat.toDigits 10 n) 0 = n := Nat.ofDigitChars_ten_toDigits
  have hn : n ≤ 0x8000000000000000 / k := (Nat.le_div_iff_mul_le hpos).2 (by omega)
  have hbound : n ≤ 0x8000000000000000 := Nat.le_trans hn (Nat.div_le_self _ _)
  rw [htext]
  unfold readTerm
  simp only [htake, hdrop, hpoint, foldl_digits, hsum, htakeUnit, hdropUnit, String.ofList_toList, hne, hknown]
  have hnone : (readFraction []).1 = 0 := rfl
  rw [if_pos hnone, Nat.add_zero, if_neg, if_neg (by simp), if_neg (by omega)]
  rintro (⟨hempty, -⟩ | hlarge)
  · exact Nat.toDigits_ne_nil (List.isEmpty_iff.1 hempty)
  · omega

private theorem readTerms_termsText (whole : String) {terms : List Term} (hunits : ∀ t ∈ terms, t.2 ∈ units)
    {fuel sum : Nat} (hfuel : (termsText terms).length ≤ fuel) (h : sum + total terms < 0x8000000000000000) :
    readTerms whole fuel sum (termsText terms) = .ok (sum + total terms) := by
  induction terms generalizing fuel sum with
  | nil => rw [termsText, List.flatMap_nil, readTerms]; rfl
  | cons term terms ih =>
    obtain ⟨n, unit, k⟩ := term
    obtain ⟨hunit, hunits⟩ := List.forall_mem_cons.1 hunits
    have htotal : total ((n, unit, k) :: terms) = n * k + total terms := by simp [total]
    rw [htotal] at h ⊢
    have hlength : (termsText terms).length + 1 ≤ (termsText ((n, unit, k) :: terms)).length := by
      have hpos := Nat.length_toDigits_pos (b := 10) (n := n)
      simp only [termsText, List.flatMap_cons, List.length_append]
      omega
    obtain ⟨c, cs, hcs⟩ := List.exists_cons_of_length_pos (by omega : 0 < (termsText ((n, unit, k) :: terms)).length)
    cases fuel with
    | zero => omega
    | succ fuel =>
      have hread := readTerm_cons whole (n := n) hunit terms (by omega)
      rw [hcs] at hread ⊢
      have hmod : (sum + n * k) % 0x10000000000000000 = sum + n * k := Nat.mod_eq_of_lt (by omega)
      rw [readTerms, hread]
      · simp only [bind, Except.bind]
        rw [hmod, if_neg (by omega), ih hunits (by omega) (by omega), Nat.add_assoc]
      · simp

/-- A duration is read from numbers with units. -/
private theorem read_termsText {terms : List Term} (hne : terms ≠ []) (hunits : ∀ t ∈ terms, t.2 ∈ units)
    (h : total terms < 0x8000000000000000) : Duration.read (String.ofList (termsText terms)) = .ok ⟨total terms⟩ := by
  have hsign : splitSign (termsText terms) = (false, termsText terms) :=
    splitSign_of_isDigit fun c hc => Or.inl (head?_termsText hc)
  obtain ⟨c, hc, hletter⟩ : ∃ c ∈ termsText terms, c.isDigit = false := by
    obtain ⟨⟨n, unit⟩, terms, rfl⟩ := List.exists_cons_of_ne_nil hne
    obtain ⟨-, -, hnotEmpty, hletters⟩ := units_fit unit (hunits _ List.mem_cons_self)
    cases hunit : unit.1.toList with
    | nil =>
      rw [String.toList_eq_nil_iff.1 hunit] at hnotEmpty
      cases hnotEmpty
    | cons d ds =>
      have hd : d ≠ '.' ∧ d.isDigit = false := by simpa using List.all_eq_true.1 hletters d (by simp [hunit])
      exact ⟨d, by simp [termsText, hunit], hd.2⟩
  have hzero : termsText terms ≠ ['0'] := by
    intro hsame
    rw [hsame, List.mem_singleton] at hc
    rw [hc] at hletter
    cases hletter
  have hread : readTerms (String.ofList (termsText terms)) _ 0 (termsText terms) = .ok (0 + total terms) :=
    readTerms_termsText _ hunits (Nat.le_refl _) (by omega)
  rw [Nat.zero_add] at hread
  have hnil : termsText terms ≠ [] := List.ne_nil_of_mem hc
  unfold Duration.read
  simp only [String.toList_ofList, hsign, hzero, if_false, hread, bind, Except.bind, List.isEmpty_iff, hnil]
  exact if_pos h

end Duration

/-! ### Whole numbers -/

namespace Numeric

/-- An integer that a finite double is up to its fraction, which is cut off towards zero. -/
structure IntegerPart (x : Float) (n : Int) : Prop where
  finite : x.isFinite = true
  sign : if (Parts.ofFloat x).negative then n ≤ 0 else 0 ≤ n
  le : n.natAbs * 2 ^ (-(Parts.ofFloat x).exponent).toNat ≤
    (Parts.ofFloat x).mantissa * 2 ^ (Parts.ofFloat x).exponent.toNat
  lt : (Parts.ofFloat x).mantissa * 2 ^ (Parts.ofFloat x).exponent.toNat <
    (n.natAbs + 1) * 2 ^ (-(Parts.ofFloat x).exponent).toNat

private theorem IntegerPart.truncate_eq {x : Float} {n : Int} (h : IntegerPart x n) : truncate x = n := by
  obtain ⟨-, hsign, hle, hlt⟩ := h
  unfold truncate
  generalize Parts.ofFloat x = d at hsign hle hlt ⊢
  have hmagnitude : (if 0 ≤ d.exponent then d.mantissa <<< d.exponent.toNat
      else d.mantissa >>> (-d.exponent).toNat) = n.natAbs := by
    split
    · have hnone : (-d.exponent).toNat = 0 := by omega
      rw [hnone, Nat.pow_zero] at hle hlt
      rw [Nat.shiftLeft_eq]
      omega
    · have hnone : d.exponent.toNat = 0 := by omega
      rw [hnone, Nat.pow_zero, Nat.mul_one] at hle hlt
      rw [Nat.shiftRight_eq_div_pow]
      exact Nat.div_eq_of_lt_le hle hlt
  dsimp only
  rw [hmagnitude]
  split at hsign
  · rw [if_pos ‹_›]
    omega
  · rw [if_neg ‹_›]
    omega

end Numeric

/-! ### What a value says -/

/-- The values of a kind. -/
abbrev Command.FlagKind.Value : Command.FlagKind → Type
  | .int => Int
  | .float => Float
  | .text => RawText
  | .duration => Duration
  | .switch => Bool

/-- A value as it was set, converted to a kind. -/
def Command.FlagKind.convert (key : String) (v : Setting) :
    (kind : Command.FlagKind) → Setting.Conversion kind.Value
  | .int => v.toInt key
  | .float => v.toFloat key
  | .text => v.toText key
  | .duration => v.toDuration key
  | .switch => v.toBool key

namespace Setting

open CliffordT.Decimal CliffordT.Numeric

/-- The words for a truth value. -/
def truthWords : Bool → List String
  | true => ["1", "t", "T", "TRUE", "true", "True"]
  | false => ["0", "f", "F", "FALSE", "false", "False"]

/-- What a value says for a parameter of a kind: what it is, or what it spells. -/
def Says (v : Setting) : (kind : Command.FlagKind) → kind.Value → Prop
  | .int, n => Fits64 n ∧ (v = .int n ∨ (∃ x, v = .float x ∧ IntegerPart x n) ∨ ∃ t, v = .text t ∧ t.text = toString n)
  | .float, x => v = .float x ∨ (∃ n, v = .int n ∧ Float.ofInt n = x) ∨ ∃ (t : RawText) (s : Spelling), v = .text t ∧
      t.text = String.ofList s.text ∧ s.Usual ∧ s.value = x
  | .text, t => v = .text t
  | .duration, d => Fits64 d.nanoseconds ∧ (v = .int d.nanoseconds ∨
      ∃ t terms, v = .text t ∧ t.text = String.ofList (Duration.termsText terms) ∧ terms ≠ [] ∧
        (∀ term ∈ terms, term.2 ∈ Duration.units) ∧ Duration.total terms = d.nanoseconds)
  | .switch, b => v = .bool b ∨ ∃ t, v = .text t ∧ t.text ∈ truthWords b

private theorem wrap_of_fits {n : Int} (h : Fits64 n) : wrap n = n := by
  obtain ⟨hlow, hhigh⟩ := h
  unfold wrap Int.bmod
  dsimp only
  split <;> omega

private theorem text_of_isEmpty {t : RawText} (h : t.isEmpty = true) : t.text = "" := by
  obtain ⟨bytes⟩ := t
  rw [show bytes = [] from List.isEmpty_iff.1 h]
  rfl

private theorem readBool_of_mem {s : String} {b : Bool} (h : s ∈ truthWords b) : readBool s = .ok b := by
  cases b
  all_goals
    simp only [truthWords, List.mem_cons, List.not_mem_nil, or_false] at h
    rcases h with rfl | rfl | rfl | rfl | rfl | rfl <;> rfl

private theorem toIntOf_of_says {v : Setting} {n : Int} (h : v.Says .int n) (wanted key : String) :
    v.toIntOf wanted key = .ok n := by
  obtain ⟨hfits, rfl | ⟨x, rfl, hx⟩ | ⟨t, rfl, ht⟩⟩ := h
  · rw [toIntOf, wrap_of_fits hfits]
  · rw [toIntOf, truncate64, hx.truncate_eq, if_neg (by simp [hx.finite])]
    exact congrArg _ (if_pos hfits)
  · have hread := readInt_toString hfits
    rw [← ht] at hread
    rw [toIntOf, hread, if_neg]
    intro hempty
    rw [text_of_isEmpty hempty] at hread
    cases hread

/-- Converting a value gives what it says. -/
theorem Says.convert_eq {v : Setting} {kind : Command.FlagKind} {x : kind.Value} (h : v.Says kind x) (key : String) :
    kind.convert key v = .ok x := by
  cases kind with
  | int => exact toIntOf_of_says h "int" key
  | float =>
    rcases h with rfl | ⟨n, rfl, rfl⟩ | ⟨t, s, rfl, ht, hs, rfl⟩
    · rfl
    · rfl
    · have hread := Spelling.readFloat_text hs
      rw [← ht] at hread
      show toFloat key (.text t) = _
      rw [toFloat, hread, if_neg]
      intro hempty
      rw [text_of_isEmpty hempty] at hread
      cases hread
  | text =>
    subst h
    rfl
  | duration =>
    obtain ⟨hfits, rfl | ⟨t, terms, rfl, ht, hne, hunits, htotal⟩⟩ := h
    · show (toIntOf "time.Duration" key (.int x.nanoseconds)).map _ = _
      rw [toIntOf, wrap_of_fits hfits]
      rfl
    · have hread := Duration.read_termsText hne hunits (by have := hfits.2; omega)
      rw [← ht] at hread
      show toDuration key (.text t) = _
      rw [toDuration, hread]
      exact congrArg _ (congrArg Duration.mk htotal)
  | switch =>
    rcases h with rfl | ⟨t, rfl, ht⟩
    · rfl
    · show toBool key (.text t) = _
      rw [toBool, readBool_of_mem ht]

end Setting

end CliffordT
