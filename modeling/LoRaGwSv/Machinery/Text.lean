import Mathlib.Algebra.Field.Rat
import Mathlib.Data.Nat.Digits.Lemmas
import Mathlib.Data.Rat.Floor
import Mathlib.Tactic.FieldSimp

/-!
# Machinery/Text — numbers written by `snprintf` and read by `strtod`

Text is a list of bytes.  `decimal` is what `%u` prints, `fixed` what `%.nf` prints of a number
that has at most `n` digits after the point, `fixedFloat` what it prints of a float.  `strtod` reads
them back if what follows cannot belong to a number (`strtod_fixed`), and such a reading does not
depend on what comes later (`strtod_append`).
-/

namespace Text

/-- The bytes of a literal. -/
def ascii (s : String) : List UInt8 := s.toList.map fun c => c.val.toUInt8

/-- The string that begins here in memory. -/
def cString (s : List UInt8) : List UInt8 := s.takeWhile (· ≠ 0)

/-- `isspace` in the C locale. -/
def isSpace (c : UInt8) : Bool := c = 32 || 9 ≤ c && c ≤ 13

/-- A decimal digit. -/
def isDigit (c : UInt8) : Bool := 48 ≤ c && c ≤ 57

/-- Digits, signs, the point, and the letters of exponents and of hexadecimal numbers. -/
def isNumeric (c : UInt8) : Bool :=
  isDigit c || c = 43 || c = 45 || c = 46 || c = 69 || c = 101 || c = 88 || c = 120

/-- Here something begins that does not continue a number. -/
def Ends (s : List UInt8) : Prop := ∃ c t, s = c :: t ∧ isNumeric c = false

variable {s t r : List UInt8} {c : UInt8} {n k : ℕ} {v : ℚ}

/-! ## Printing -/

/-- The character of a digit. -/
def digitChar (d : ℕ) : UInt8 := UInt8.ofNat (48 + d)

/-- The digits of a number, from the highest. -/
def digits (n : ℕ) : List UInt8 := (Nat.digits 10 n).reverse.map digitChar

/-- `%u`. -/
def decimal (n : ℕ) : List UInt8 := if n = 0 then [48] else digits n

/-- A field of width `w`, filled with `c` from the left. -/
def padLeft (w : ℕ) (c : UInt8) (s : List UInt8) : List UInt8 :=
  List.replicate (w - s.length) c ++ s

/-- The fraction `n / 10 ^ k`. -/
def fraction (k n : ℕ) : List UInt8 := if k = 0 then [] else 46 :: padLeft k 48 (digits n)

/-- `%.kf` of `n / 10 ^ k`. -/
def fixed (k n : ℕ) : List UInt8 := decimal (n / 10 ^ k) ++ fraction k (n % 10 ^ k)

/-- A finite float: its sign and its magnitude. -/
structure Float where
  negative : Bool
  magnitude : ℚ
deriving DecidableEq

/-- The number, with its sign. -/
def Float.value (x : Float) : ℚ := if x.negative then -x.magnitude else x.magnitude

/-- To the nearest integer, and to the even one of two. -/
def roundHalfEven (q : ℚ) : ℕ :=
  let low := ⌊q⌋₊
  let rest := q - low
  if rest < 1 / 2 then low
  else if 1 / 2 < rest then low + 1
  else low + low % 2

/-- A sign is printed for negative numbers only. -/
def sign (negative : Bool) : List UInt8 := if negative then [45] else []

/-- `%.kf`. -/
def fixedFloat (k : ℕ) (x : Float) : List UInt8 :=
  sign x.negative ++ fixed k (roundHalfEven (x.magnitude * 10 ^ k))

/-! ## Reading -/

/-- The number some digits stand for. -/
def digitsValue (s : List UInt8) : ℕ := Nat.ofDigits 10 (s.reverse.map fun c => c.toNat - 48)

/-- An optional sign. -/
def readSign : List UInt8 → Bool × List UInt8
  | [] => (false, [])
  | c :: s => if c = 45 then (true, s) else if c = 43 then (false, s) else (false, c :: s)

/-- An optional point with digits, which stand before it or after it. -/
def readFraction (whole : List UInt8) : List UInt8 → List UInt8 × List UInt8
  | [] => ([], [])
  | c :: s =>
    if c = 46 ∧ whole ++ s.takeWhile isDigit ≠ [] then (s.takeWhile isDigit, s.dropWhile isDigit)
    else ([], c :: s)

/-- An optional exponent. -/
def readExponent : List UInt8 → ℤ × List UInt8
  | [] => (0, [])
  | c :: s =>
    let power := (readSign s).2.takeWhile isDigit
    if (c = 69 ∨ c = 101) ∧ power ≠ [] then
      (if (readSign s).1 then -(digitsValue power : ℤ) else digitsValue power,
        (readSign s).2.dropWhile isDigit)
    else (0, c :: s)

/-- `strtod` of decimal numbers, from where no white space stands. -/
def strtod (s : List UInt8) : ℚ × List UInt8 :=
  let whole := (readSign s).2.takeWhile isDigit
  let frac := readFraction whole ((readSign s).2.dropWhile isDigit)
  let power := readExponent frac.2
  if whole ++ frac.1 = [] then (0, s)
  else
    let value := digitsValue (whole ++ frac.1) * (10 : ℚ) ^ (power.1 - frac.1.length)
    (if (readSign s).1 then -value else value, power.2)

/-- `%whd` of `sscanf`. -/
def scanShort (w : ℕ) (s : List UInt8) : Option (ℤ × List UInt8) :=
  let t := s.dropWhile isSpace
  let (negative, u) := readSign t
  let room := w - (t.length - u.length)
  let ds := (u.take room).takeWhile isDigit
  if ds = [] then none
  else some (if negative then -(digitsValue ds : ℤ) else digitsValue ds, u.drop ds.length)

/-! ## A reading does not depend on what comes later

A number ends at the first character that no number has, so what follows that one may be anything.
-/

theorem Ends.ne_nil (h : Ends s) : s ≠ [] := by
  obtain ⟨c, t, rfl, -⟩ := h
  exact List.cons_ne_nil c t

theorem Ends.append (h : Ends s) (q : List UInt8) : Ends (s ++ q) := by
  obtain ⟨c, t, rfl, hc⟩ := h
  exact ⟨c, t ++ q, rfl, hc⟩

/-- At the end of a text a number may still go on. -/
theorem not_ends_nil : ¬Ends [] := fun h => h.ne_nil rfl

/-- A run of characters that has ended has ended. -/
theorem span_append {p : UInt8 → Bool} (h : s.dropWhile p ≠ []) (q : List UInt8) :
    (s ++ q).takeWhile p = s.takeWhile p ∧ (s ++ q).dropWhile p = s.dropWhile p ++ q := by
  have hlen : (s.takeWhile p).length ≠ s.length := fun hlen => h (by
    have := congrArg List.length (List.takeWhile_append_dropWhile (p := p) (l := s))
    rw [List.length_append] at this
    exact List.length_eq_zero_iff.mp (by omega))
  rw [List.takeWhile_append, if_neg hlen, List.dropWhile_append,
    if_neg (by simpa [List.isEmpty_iff] using h)]
  exact ⟨rfl, rfl⟩

theorem readSign_append (h : s ≠ []) (q : List UInt8) :
    readSign (s ++ q) = ((readSign s).1, (readSign s).2 ++ q) := by
  cases s with
  | nil => exact absurd rfl h
  | cons c s =>
    rw [List.cons_append, readSign, readSign]
    split
    · rfl
    · split <;> rfl

theorem readFraction_append {whole : List UInt8} (h : (readFraction whole s).2 ≠ [])
    (hne : whole ++ (readFraction whole s).1 ≠ []) (q : List UInt8) :
    readFraction whole (s ++ q) =
      ((readFraction whole s).1, (readFraction whole s).2 ++ q) := by
  cases s with
  | nil => exact absurd rfl h
  | cons c s =>
    rw [List.cons_append]
    by_cases hc : c = 46
    · by_cases hds : whole ++ s.takeWhile isDigit = []
      · simp only [readFraction, hc, hds, ne_eq, not_true_eq_false, and_false, if_false,
          List.append_nil] at hne
        exact absurd (List.append_eq_nil_iff.mp hds).1 hne
      · simp only [readFraction, hc, true_and, if_pos hds] at h ⊢
        obtain ⟨htake, hdrop⟩ := span_append h q
        rw [htake, hdrop, if_pos hds]
    · simp only [readFraction, hc, false_and, if_false, List.cons_append]

theorem readExponent_append (h : Ends (readExponent s).2) (q : List UInt8) :
    readExponent (s ++ q) = ((readExponent s).1, (readExponent s).2 ++ q) := by
  cases s with
  | nil => exact absurd h not_ends_nil
  | cons c s =>
    rw [List.cons_append]
    by_cases hc : (c = 69 ∨ c = 101) ∧ (readSign s).2.takeWhile isDigit ≠ []
    · simp only [readExponent, if_pos hc] at h ⊢
      have hs : s ≠ [] := by
        rintro rfl
        exact hc.2 rfl
      obtain ⟨htake, hdrop⟩ := span_append h.ne_nil q
      rw [readSign_append hs, htake, hdrop, if_pos hc]
    · simp only [readExponent, if_neg hc] at h ⊢
      obtain ⟨_, _, ⟨⟩, hnum⟩ := h
      have he : ¬(c = 69 ∨ c = 101) := by
        rintro (rfl | rfl) <;> exact absurd hnum (by decide)
      simp only [he, false_and, if_false, List.cons_append]

/-- A text that does not begin like a number is read as 0, and nothing of it is taken. -/
theorem Ends.strtod (h : Ends s) : strtod s = (0, s) := by
  obtain ⟨c, t, rfl, hc⟩ := h
  simp only [isNumeric, Bool.or_eq_false_iff, decide_eq_false_iff_not] at hc
  obtain ⟨⟨⟨⟨⟨⟨⟨hdigit, hplus⟩, hminus⟩, hpoint⟩, -⟩, -⟩, -⟩, -⟩ := hc
  simp [Text.strtod, readSign, readFraction, hdigit, hplus, hminus, hpoint]

/-- **What `strtod` has read does not depend on what comes later**, unless that continues the
number. -/
theorem strtod_append (h : Ends (strtod s).2) (q : List UInt8) :
    strtod (s ++ q) = ((strtod s).1, (strtod s).2 ++ q) := by
  by_cases hconv : (readSign s).2.takeWhile isDigit ++
      (readFraction ((readSign s).2.takeWhile isDigit) ((readSign s).2.dropWhile isDigit)).1 = []
  · have hs : Text.strtod s = (0, s) := by rw [Text.strtod, if_pos hconv]
    rw [hs] at h ⊢
    exact (h.append q).strtod
  · simp only [Text.strtod, if_neg hconv] at h ⊢
    have hfrac : (readFraction ((readSign s).2.takeWhile isDigit)
        ((readSign s).2.dropWhile isDigit)).2 ≠ [] := by
      intro hnil
      rw [hnil] at h
      exact not_ends_nil h
    have hdrop : (readSign s).2.dropWhile isDigit ≠ [] := by
      intro hnil
      rw [hnil] at hfrac
      exact hfrac rfl
    have hs : s ≠ [] := by
      rintro rfl
      exact hdrop rfl
    obtain ⟨htake', hdrop'⟩ := span_append hdrop q
    rw [readSign_append hs]
    simp only [htake', hdrop', readFraction_append hfrac hconv q, readExponent_append h q,
      if_neg hconv]

/-! ## What is printed is read back -/

theorem isDigit_digitChar : ∀ d < 10, isDigit (digitChar d) = true := by decide

theorem isDigit_digits (h : c ∈ digits n) : isDigit c = true := by
  obtain ⟨d, hd, rfl⟩ := List.mem_map.mp h
  exact isDigit_digitChar d (Nat.digits_lt_base (by decide) (List.mem_reverse.mp hd))

theorem isDigit_decimal (h : c ∈ decimal n) : isDigit c = true := by
  rw [decimal] at h
  split at h
  · rw [List.mem_singleton.mp h]
    decide
  · exact isDigit_digits h

theorem decimal_ne_nil : decimal n ≠ [] := by
  rw [decimal]
  split
  · exact List.cons_ne_nil _ _
  · simpa [digits, Nat.digits_eq_nil_iff_eq_zero]

/-- Digits that are filled up with zeros are digits. -/
theorem isDigit_padLeft (hs : ∀ c ∈ s, isDigit c = true) (h : c ∈ padLeft k 48 s) :
    isDigit c = true := by
  obtain h | h := List.mem_append.mp h
  · rw [List.eq_of_mem_replicate h]
    decide
  · exact hs c h

/-- The value of digits in front is shifted by those behind. -/
theorem digitsValue_append (s t : List UInt8) :
    digitsValue (s ++ t) = digitsValue s * 10 ^ t.length + digitsValue t := by
  rw [digitsValue, List.reverse_append, List.map_append, Nat.ofDigits_append, List.length_map,
    List.length_reverse, ← digitsValue, ← digitsValue, Nat.mul_comm, Nat.add_comm]

/-- **The digits of a number have its value.** -/
theorem digitsValue_digits (n : ℕ) : digitsValue (digits n) = n := by
  have hback : ((Nat.digits 10 n).map digitChar).map (fun c => c.toNat - 48) = Nat.digits 10 n := by
    rw [List.map_map]
    refine (List.map_congr_left fun d hd => ?_).trans (List.map_id _)
    have hlt : d < 10 := Nat.digits_lt_base (by decide) hd
    have hchar : ∀ d < 10, (digitChar d).toNat - 48 = d := by decide
    exact hchar d hlt
  rw [digitsValue, digits, ← List.map_reverse, List.reverse_reverse, hback, Nat.ofDigits_digits]

theorem digitsValue_decimal (n : ℕ) : digitsValue (decimal n) = n := by
  rw [decimal]
  split
  · subst n
    rfl
  · exact digitsValue_digits n

theorem digitsValue_replicate (k : ℕ) : digitsValue (List.replicate k 48) = 0 := by
  rw [digitsValue, List.reverse_replicate, List.map_replicate]
  exact Nat.ofDigits_replicate_zero

theorem digitsValue_padLeft (k : ℕ) (s : List UInt8) :
    digitsValue (padLeft k 48 s) = digitsValue s := by
  rw [padLeft, digitsValue_append, digitsValue_replicate, Nat.zero_mul, Nat.zero_add]

/-- A number below a power of ten has no more digits than that. -/
theorem length_digits_le (h : n < 10 ^ k) : (digits n).length ≤ k := by
  rw [digits, List.length_map, List.length_reverse]
  exact (Nat.digits_length_le_iff (by decide) n).mpr h

theorem length_decimal_le (hk : 0 < k) (h : n < 10 ^ k) : (decimal n).length ≤ k := by
  rw [decimal]
  split
  · exact hk
  · exact length_digits_le h

theorem length_padLeft (h : s.length ≤ k) : (padLeft k c s).length = k := by
  rw [padLeft, List.length_append, List.length_replicate]
  omega

/-- A number other than zero does not begin with a zero. -/
theorem head?_decimal (h : n ≠ 0) : (decimal n).head? ≠ some 48 := by
  rw [decimal, if_neg h, digits, List.head?_map, List.head?_reverse,
    List.getLast?_eq_getLast_of_ne_nil (Nat.digits_ne_nil_iff_ne_zero.mpr h), Option.map_some]
  have hlast := Nat.getLast_digit_ne_zero 10 h
  have hlt : (Nat.digits 10 n).getLast (Nat.digits_ne_nil_iff_ne_zero.mpr h) < 10 :=
    Nat.digits_lt_base (by decide) (List.getLast_mem _)
  have hchar : ∀ d < 10, digitChar d = 48 → d = 0 := by decide
  exact fun heq => hlast (hchar _ hlt (Option.some.inj heq))

/-- Digits are taken as long as they last. -/
theorem span_digits (hs : ∀ c ∈ s, isDigit c = true) (ht : ∀ c ∈ t.head?, isDigit c = false) :
    (s ++ t).takeWhile isDigit = s ∧ (s ++ t).dropWhile isDigit = t := by
  rw [List.takeWhile_append_of_pos hs, List.dropWhile_append_of_pos hs]
  cases t with
  | nil => simp
  | cons c t => simp [ht c rfl]

/-- Such a text does not go on with a digit. -/
theorem Ends.head? (h : Ends s) : ∀ c ∈ s.head?, isDigit c = false := by
  obtain ⟨c, t, rfl, hc⟩ := h
  rintro _ ⟨⟩
  simp only [isNumeric, Bool.or_eq_false_iff] at hc
  exact hc.1.1.1.1.1.1.1

/-- Such a text does not go on with an exponent. -/
theorem Ends.readExponent (h : Ends s) : readExponent s = (0, s) := by
  obtain ⟨c, t, rfl, hc⟩ := h
  have he : ¬(c = 69 ∨ c = 101) := by
    rintro (rfl | rfl) <;> exact absurd hc (by decide)
  simp only [Text.readExponent, he, false_and, if_false]

theorem readSign_sign (negative : Bool) (h : ∀ c ∈ s.head?, isDigit c = true) :
    readSign (sign negative ++ s) = (negative, s) := by
  cases negative with
  | true => rfl
  | false =>
    cases s with
    | nil => rfl
    | cons c s =>
      have hc := h c rfl
      have hplus : c ≠ 43 := by
        rintro rfl
        exact absurd hc (by decide)
      have hminus : c ≠ 45 := by
        rintro rfl
        exact absurd hc (by decide)
      simp [sign, readSign, hplus, hminus]

/-- A fraction has its places and the point, unless there are none. -/
theorem length_fraction (h : n < 10 ^ k) : (fraction k n).length = if k = 0 then 0 else k + 1 := by
  rw [fraction]
  split
  · rfl
  · rw [List.length_cons, length_padLeft (length_digits_le h)]

/-- **The number `%.kf` has printed is read back**, with its sign. -/
theorem strtod_fixed (negative : Bool) (k n : ℕ) (h : Ends r) :
    strtod (sign negative ++ (fixed k n ++ r)) =
      (if negative then -((n : ℚ) / 10 ^ k) else n / 10 ^ k, r) := by
  have hwhole : ∀ c ∈ decimal (n / 10 ^ k), isDigit c = true := fun _ hc => isDigit_decimal hc
  have hsign : readSign (sign negative ++ (fixed k n ++ r)) = (negative, fixed k n ++ r) := by
    refine readSign_sign negative fun c hc => ?_
    rw [fixed, List.append_assoc, List.head?_append_of_ne_nil _ decimal_ne_nil] at hc
    exact hwhole c (List.mem_of_mem_head? hc)
  have hfrac : ∀ c ∈ padLeft k 48 (digits (n % 10 ^ k)), isDigit c = true := fun _ hc =>
    isDigit_padLeft (fun _ => isDigit_digits) hc
  have hlt : n % 10 ^ k < 10 ^ k := Nat.mod_lt _ (by positivity)
  have hpow : (10 : ℚ) ^ k ≠ 0 := by positivity
  by_cases hk : k = 0
  · subst hk
    obtain ⟨htake, hdrop⟩ := span_digits hwhole h.head?
    have hread : readFraction (decimal (n / 10 ^ 0)) r = ([], r) := by
      obtain ⟨c, t, rfl, hc⟩ := h
      have hpoint : c ≠ 46 := by
        rintro rfl
        exact absurd hc (by decide)
      simp [readFraction, hpoint]
    simp only [fixed, fraction, if_true, List.append_nil] at hsign ⊢
    rw [strtod, hsign]
    simp only [htake, hdrop, hread, h.readExponent, List.append_nil, decimal_ne_nil, if_false,
      digitsValue_decimal]
    simp
  · have hpoint : ∀ c ∈ (fraction k (n % 10 ^ k) ++ r).head?, isDigit c = false := by
      rw [fraction, if_neg hk]
      rintro _ ⟨⟩
      decide
    obtain ⟨htake, hdrop⟩ := span_digits hwhole hpoint
    obtain ⟨htake', hdrop'⟩ := span_digits hfrac h.head?
    have hread : readFraction (decimal (n / 10 ^ k)) (fraction k (n % 10 ^ k) ++ r) =
        (padLeft k 48 (digits (n % 10 ^ k)), r) := by
      rw [fraction, if_neg hk, List.cons_append, readFraction, htake', hdrop', if_pos]
      exact ⟨rfl, fun hnil => decimal_ne_nil (List.append_eq_nil_iff.mp hnil).1⟩
    have hvalue : digitsValue (decimal (n / 10 ^ k) ++ padLeft k 48 (digits (n % 10 ^ k))) = n := by
      rw [digitsValue_append, digitsValue_decimal, digitsValue_padLeft, digitsValue_digits,
        length_padLeft (length_digits_le hlt), Nat.div_add_mod' n]
    rw [strtod, hsign]
    simp only [fixed, List.append_assoc, htake, hdrop, hread, h.readExponent, hvalue,
      length_padLeft (length_digits_le hlt), List.append_eq_nil_iff, decimal_ne_nil, false_and,
      if_false, zero_sub, zpow_neg, zpow_natCast, div_eq_mul_inv]

end Text
