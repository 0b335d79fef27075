import LoRaGwSv.Shared.Parson

/-!
# Shared/JsonText — what the reader makes of texts that are put together

A text `Denotes` a value if the reader takes it for that value in front of anything that does not
continue a number.  Numbers, strings and literals do, as `snprintf` prints them, and so do the
objects and arrays made of such texts (`Denotes.object`, `Denotes.array`).  A text that is an object
is read whatever comes behind it (`jsonParse_object`), and no shorter part of it is
(`jsonParse_prefix`).
-/

namespace LoRaGwSv

open Text

variable {α β : Type} {s t r q : List UInt8} {c : UInt8} {i j : Bool} {v : Json} {left n : ℕ}

/-! ## Texts without comments

A text is gone through with one bit of state, whether a string is open. -/

/-- Whether a string is open behind a text that has no comment, no escape and no NUL. -/
def quoting : Bool → List UInt8 → Option Bool
  | inString, [] => some inString
  | inString, c :: s =>
    if c = 0 ∨ c = 92 ∨ c = 47 ∧ !inString then none
    else quoting (if c = 34 then !inString else inString) s

/-- A text is gone through from front to back. -/
theorem quoting_append (i : Bool) (s t : List UInt8) :
    quoting i (s ++ t) = (quoting i s).bind fun j => quoting j t := by
  induction s generalizing i with
  | nil => rfl
  | cons c s ih =>
    rw [List.cons_append, quoting, quoting]
    split
    · rfl
    · exact ih _

/-- What comes behind is gone through in the state that the front has left. -/
theorem quoting_append_of_eq (h : quoting i s = some j) (t : List UInt8) :
    quoting i (s ++ t) = quoting j t := by
  rw [quoting_append, h, Option.bind_some]

/-- The front of a text without comments is one. -/
theorem quoting_prefix (h : quoting i (s ++ t) = some j) : ∃ k, quoting i s = some k := by
  rw [quoting_append] at h
  obtain ⟨k, hk, -⟩ := Option.bind_eq_some_iff.mp h
  exact ⟨k, hk⟩

/-- Digits and blanks leave it as it is whether a string is open. -/
theorem quoting_digits (h : ∀ c ∈ s, isNumeric c = true ∨ c = 32) (i : Bool) :
    quoting i s = some i := by
  induction s with
  | nil => rfl
  | cons c s ih =>
    have hc : c ≠ 0 ∧ c ≠ 92 ∧ c ≠ 47 ∧ c ≠ 34 := by
      refine ⟨?_, ?_, ?_, ?_⟩ <;> rintro rfl <;>
        exact absurd (h _ List.mem_cons_self) (by decide)
    rw [quoting, if_neg (by simp [hc]), if_neg hc.2.2.2]
    exact ih fun c hc => h c (List.mem_cons_of_mem _ hc)

theorem quoting_space (h : isSpace c = true) (i : Bool) : quoting i [c] = some i := by
  have hc : c ≠ 0 ∧ c ≠ 92 ∧ c ≠ 47 ∧ c ≠ 34 := by
    refine ⟨?_, ?_, ?_, ?_⟩ <;> rintro rfl <;> exact absurd h (by decide)
  simp [quoting, hc]

/-- A text without comments has no NUL in it. -/
theorem cString_append (h : quoting i s = some j) (t : List UInt8) :
    cString (s ++ t) = s ++ cString t := by
  induction s generalizing i with
  | nil => rfl
  | cons c s ih =>
    rw [quoting] at h
    split at h
    · cases h
    · rename_i hc
      have hne : c ≠ 0 := fun h0 => hc (Or.inl h0)
      rw [List.cons_append, cString, List.takeWhile_cons_of_pos (by simpa using hne)]
      exact congrArg (List.cons c) (ih h)

/-- Where no comment starts every character is kept. -/
theorem removeComments_append {d : UInt8} (stop : List UInt8) (h : quoting i s = some j)
    (t : List UInt8) : removeComments [47, d] stop 0 i false (s ++ t) =
      s ++ removeComments [47, d] stop 0 j false t := by
  induction s generalizing i with
  | nil =>
    cases h
    rfl
  | cons c s ih =>
    rw [quoting] at h
    split at h
    · cases h
    · rename_i hc
      have hesc : c ≠ 92 := fun h92 => hc (Or.inr (Or.inl h92))
      rw [List.cons_append, removeComments, if_neg (by simp [hesc])]
      by_cases hquote : c = 34
      · rw [if_pos hquote] at h
        rw [if_pos (by simp [hquote]), ih h]
        rfl
      · rw [if_neg hquote] at h
        have hstart : ¬((!i) = true ∧ [47, d].isPrefixOf (c :: (s ++ t))) := by
          rintro ⟨hi, hbegins⟩
          simp only [List.isPrefixOf, Bool.and_eq_true, beq_iff_eq] at hbegins
          exact hc (Or.inr (Or.inr ⟨hbegins.1.symm, hi⟩))
        rw [if_neg (by simp [hquote]), if_neg hstart, ih h]
        rfl

/-- **A text without comments stays as it is**, whatever comes behind it. -/
theorem withoutComments_append (h : quoting false s = some j) (t : List UInt8) :
    withoutComments (s ++ t) = s ++ removeComments (ascii "//") (ascii "\n") 0 j false
      (removeComments (ascii "/*") (ascii "*/") 0 j false (cString t)) := by
  have hblock := removeComments_append (d := 42) (ascii "*/") h (cString t)
  have hline := removeComments_append (d := 47) (ascii "\n") h
    (removeComments (ascii "/*") (ascii "*/") 0 j false (cString t))
  rw [withoutComments, cString_append h]
  exact (congrArg _ hblock).trans hline

/-- **A text without comments is kept as it is.** -/
theorem withoutComments_eq (h : quoting false s = some j) : withoutComments s = s := by
  simpa [cString, removeComments] using withoutComments_append h []

/-! ## Values

`Denotes` is about a text in front of any other, so texts can be put together. -/

/-- In front of anything that does not continue a number, the reader takes the text for the
value. -/
structure Denotes (left : ℕ) (t : List UInt8) (v : Json) : Prop where
  reads : ∀ r, Ends r → parseValue left (t ++ r) = some (v, r)
  quoting : quoting false t = some false
  printable : ∀ c ∈ t, 32 ≤ c

/-- The characters of a number can be printed. -/
theorem le_of_isNumeric (h : isNumeric c = true) : 32 ≤ c := by
  simp only [isNumeric, isDigit] at h
  grind

theorem isNumeric_of_isDigit (h : isDigit c = true) : isNumeric c = true := by
  simp [isNumeric, h]

/-- The characters of a decimal are those of a number, and none makes it a hexadecimal one. -/
theorem isNumeric_fixed (negative : Bool) {k : ℕ} (h : c ∈ sign negative ++ fixed k n) :
    isNumeric c = true ∧ c ≠ 88 ∧ c ≠ 120 := by
  have hdigit : isDigit c = true → isNumeric c = true ∧ c ≠ 88 ∧ c ≠ 120 := fun hc => by
    refine ⟨isNumeric_of_isDigit hc, ?_, ?_⟩ <;> rintro rfl <;> exact absurd hc (by decide)
  rw [fixed, List.mem_append, List.mem_append] at h
  obtain h | h | h := h
  · cases negative
    · cases h
    · rw [List.mem_singleton.mp h]
      decide
  · exact hdigit (isDigit_decimal h)
  · rw [fraction] at h
    split at h
    · cases h
    · obtain rfl | h := List.mem_cons.mp h
      · decide
      · exact hdigit (isDigit_padLeft (fun _ => isDigit_digits) h)

/-- A number is printed from a digit on, without a needless zero in front. -/
theorem fixed_cons (k n : ℕ) : ∃ c t, fixed k n = c :: t ∧ isDigit c = true ∧
    (c = 48 → t = [] ∨ ∃ u, t = 46 :: u) := by
  rw [fixed]
  obtain ⟨c, ds, hds⟩ := List.exists_cons_of_ne_nil (decimal_ne_nil (n := n / 10 ^ k))
  rw [hds, List.cons_append]
  refine ⟨c, _, rfl, isDigit_decimal (n := n / 10 ^ k) (hds ▸ List.mem_cons_self), ?_⟩
  rintro rfl
  by_cases hn : n / 10 ^ k = 0
  · rw [hn, show decimal 0 = [48] from rfl] at hds
    cases hds
    rw [List.nil_append, fraction]
    split
    · exact Or.inl rfl
    · exact Or.inr ⟨_, rfl⟩
  · exact absurd (congrArg List.head? hds) (head?_decimal hn)

/-- A decimal passes the test of its form. -/
theorem isDecimal_fixed (negative : Bool) (k n : ℕ) :
    isDecimal (sign negative ++ fixed k n) = true := by
  have hall : (sign negative ++ fixed k n).all (fun c => c ≠ 88 ∧ c ≠ 120) = true := by
    rw [List.all_eq_true]
    intro c hc
    simpa using (isNumeric_fixed negative hc).2
  rw [isDecimal, hall]
  obtain ⟨c, t, heq, hc, hzero⟩ := fixed_cons k n
  have hminus : c ≠ 45 := by
    rintro rfl
    exact absurd hc (by decide)
  rw [heq]
  by_cases h48 : c = 48
  · obtain rfl | ⟨u, rfl⟩ := hzero h48
    · cases negative <;> simp [sign]
    · cases negative <;> simp [sign, hminus]
  · cases negative <;> simp [sign, hminus, h48]

/-- A sign or a digit makes the value a number. -/
theorem parseValue_number (h : c = 45 ∨ isDigit c = true) (s : List UInt8) :
    parseValue (left + 1) (c :: s) = parseNumberValue (c :: s) := by
  have hne : isSpace c = false ∧ c ≠ 123 ∧ c ≠ 91 ∧ c ≠ 34 ∧ ¬(c = 102 ∨ c = 116) := by
    obtain rfl | h := h
    · decide
    · simp only [isDigit, isSpace, Bool.and_eq_true, decide_eq_true_eq] at h ⊢
      grind
  obtain ⟨hspace, hobject, harray, hstring, hboolean⟩ := hne
  rw [parseValue, skipWhitespaces, List.dropWhile_cons_of_neg (by rw [hspace]; decide)]
  simp only [if_neg hobject, if_neg harray, if_neg hstring, if_neg hboolean, if_pos h]

/-- **A decimal is read as the number it is**, with its sign and all of its places. -/
theorem parseNumberValue_fixed (negative : Bool) (k n : ℕ) (h : Ends r) :
    parseNumberValue (sign negative ++ (fixed k n ++ r)) =
      some (.number (if negative then -((n : ℚ) / 10 ^ k) else n / 10 ^ k), r) := by
  have hread := strtod_fixed negative k n h
  have hends : Ends (strtod (sign negative ++ (fixed k n ++ r))).2 := by rwa [hread]
  have hhex := not_isHexadecimal hends []
  rw [List.append_nil] at hhex
  have htake : (sign negative ++ (fixed k n ++ r)).take
      ((sign negative ++ (fixed k n ++ r)).length - r.length) = sign negative ++ fixed k n := by
    rw [← List.append_assoc, List.length_append, Nat.add_sub_cancel, List.take_left]
  rw [parseNumberValue, hhex, hread]
  dsimp only
  rw [htake, if_pos (isDecimal_fixed negative k n)]
  rfl

/-- **A printed number denotes what has been printed.** -/
theorem Denotes.number (negative : Bool) (k n : ℕ) : Denotes (left + 1) (sign negative ++ fixed k n)
    (.number (if negative then -((n : ℚ) / 10 ^ k) else n / 10 ^ k)) where
  reads r hr := by
    rw [List.append_assoc, ← parseNumberValue_fixed negative k n hr]
    obtain ⟨c, t, heq, hc, -⟩ := fixed_cons k n
    cases negative with
    | false =>
      rw [heq]
      exact parseValue_number (Or.inr hc) _
    | true => exact parseValue_number (Or.inl rfl) _
  quoting := quoting_digits (fun _ hc => Or.inl (isNumeric_fixed negative hc).1) false
  printable _ hc := le_of_isNumeric (isNumeric_fixed negative hc).1

theorem Denotes.decimal (n : ℕ) : Denotes (left + 1) (decimal n) (.number n) := by
  have hnumber : Denotes (left + 1) (sign false ++ fixed 0 n) _ := .number false 0 n
  simpa [sign, fixed, fraction] using hnumber

/-- A blank in front of a value is passed over. -/
theorem parseValue_space (s : List UInt8) : parseValue left (32 :: s) = parseValue left s := by
  cases left <;> rfl

theorem Denotes.padLeft (h : Denotes left t v) (w : ℕ) : Denotes left (padLeft w 32 t) v where
  reads r hr := by
    rw [Text.padLeft, List.append_assoc, ← h.reads r hr]
    induction w - t.length with
    | zero => rfl
    | succ n ih => rw [List.replicate_succ, List.cons_append, parseValue_space, ih]
  quoting := by
    rw [Text.padLeft, quoting_append_of_eq (quoting_digits (fun c hc => ?_) false), h.quoting]
    exact Or.inr (List.eq_of_mem_replicate hc)
  printable c hc := by
    obtain hc | hc := List.mem_append.mp hc
    · rw [List.eq_of_mem_replicate hc]
      decide
    · exact h.printable c hc

/-! ## Literals and strings

Strings that are written have no characters that must be escaped. -/

/-- Characters that stand for themselves in a string. -/
def Plain (s : List UInt8) : Prop := ∀ c ∈ s, 32 ≤ c ∧ c ≠ 34 ∧ c ≠ 92

instance (s : List UInt8) : Decidable (Plain s) :=
  List.decidableBAll (fun c => 32 ≤ c ∧ c ≠ 34 ∧ c ≠ 92) s

/-- Each of the two words denotes its truth value. -/
theorem Denotes.boolean (b : Bool) :
    Denotes (left + 1) (ascii (if b then "true" else "false")) (.boolean b) where
  reads r _ := by cases b <;> rfl
  quoting := by cases b <;> rfl
  printable c hc := by
    have hplain : Plain (ascii (if b then "true" else "false")) := by cases b <;> decide
    exact (hplain c hc).1

theorem Plain.of_cons (h : Plain (c :: s)) : Plain s := fun c hc => h c (List.mem_cons_of_mem _ hc)

/-- A plain string does not end before its quote. -/
theorem Plain.quoting (h : Plain s) : quoting true s = some true := by
  induction s with
  | nil => rfl
  | cons c s ih =>
    obtain ⟨hc, hquote, hesc⟩ := h c List.mem_cons_self
    have hnul : c ≠ 0 := by
      rintro rfl
      exact absurd hc (by decide)
    rw [LoRaGwSv.quoting, if_neg (by simp [hnul, hesc]), if_neg hquote]
    exact ih h.of_cons

theorem Plain.skipQuotes (h : Plain s) (r : List UInt8) :
    skipQuotes (s ++ 34 :: r) = some (s, r) := by
  induction s with
  | nil => cases r <;> rfl
  | cons c s ih =>
    obtain ⟨-, hquote, hesc⟩ := h c List.mem_cons_self
    obtain ⟨d, t, heq⟩ : ∃ d t, s ++ 34 :: r = d :: t := by cases s <;> exact ⟨_, _, rfl⟩
    rw [List.cons_append, heq, LoRaGwSv.skipQuotes, if_neg hquote, if_neg hesc, ← heq,
      ih h.of_cons]
    rfl

/-- Nothing in it is escaped, so it is taken as it is. -/
theorem Plain.processString (h : Plain s) (hn : s.length ≤ n) : processString n s = some s := by
  induction s generalizing n with
  | nil => cases n <;> rfl
  | cons c s ih =>
    obtain ⟨n, rfl⟩ : ∃ m, n = m + 1 := ⟨n - 1, by rw [List.length_cons] at hn; omega⟩
    obtain ⟨hc, -, hesc⟩ := h c List.mem_cons_self
    rw [LoRaGwSv.processString.eq_def]
    dsimp only
    rw [if_neg hesc, if_neg (by simpa using hc), ih h.of_cons (Nat.le_of_succ_le_succ hn)]
    rfl

/-- **A plain string in quotes is read as it is.** -/
theorem Plain.getQuotedString (h : Plain s) (hr : r ≠ []) :
    getQuotedString (34 :: (s ++ 34 :: r)) = some (s, r) := by
  have hnul : cString s = s := by
    simpa [cString] using cString_append h.quoting []
  simp [LoRaGwSv.getQuotedString, h.skipQuotes, hr, h.processString le_rfl, hnul]

/-- A string in quotes. -/
def quoted (s : List UInt8) : List UInt8 := 34 :: (s ++ [34])

/-- Behind the closing quote no string is open. -/
theorem quoting_quoted (h : Plain s) : quoting false (quoted s) = some false := by
  change quoting true (s ++ [34]) = some false
  rw [quoting_append_of_eq h.quoting]
  rfl

/-- A plain string in quotes has no control characters. -/
theorem printable_quoted (h : Plain s) : ∀ c ∈ quoted s, 32 ≤ c := by
  intro c hc
  rw [quoted, List.mem_cons, List.mem_append, List.mem_singleton] at hc
  obtain rfl | hc | rfl := hc
  · decide
  · exact (h c hc).1
  · decide

/-- A plain string in quotes denotes the string. -/
theorem Denotes.string (h : Plain s) : Denotes (left + 1) (quoted s) (.string s) where
  reads r hr := by
    have hread : parseValue (left + 1) (34 :: (s ++ 34 :: r)) =
        parseStringValue (34 :: (s ++ 34 :: r)) := rfl
    rw [quoted, List.cons_append, List.append_assoc, List.singleton_append, hread,
      parseStringValue, h.getQuotedString hr.ne_nil]
    rfl
  quoting := quoting_quoted h
  printable := printable_quoted h

/-! ## Objects and arrays

The loop of the reader is followed item by item: what it has read so far are the first items, and
what is left are the texts of the others. -/

/-- The texts of several items, each behind a comma. -/
def moreText (write : β → List UInt8) (ys : List β) : List UInt8 :=
  ys.flatMap fun y => 44 :: write y

variable {item : α → Reader α} {close : UInt8} {write : β → List UInt8} {done : List β → α}
  {xs ys zs : List β} {y : β}

/-- The loop reads the items of `zs`: from what it has read of some of them it comes to the next
one, whose text does not begin with white space. -/
structure ReadsItems (item : α → Reader α) (write : β → List UInt8) (done : List β → α)
    (zs : List β) : Prop where
  item_eq : ∀ {xs y ys r}, zs = xs ++ y :: ys → Ends r →
    item (done xs) (write y ++ r) = some (done (xs ++ [y]), r)
  head : ∀ y ∈ zs, ∃ c t, write y = c :: t ∧ isSpace c = false

/-- What is not white space is not skipped. -/
theorem skipWhitespaces_cons (h : isSpace c = false) (s : List UInt8) :
    skipWhitespaces (c :: s) = c :: s := by
  rw [skipWhitespaces, List.dropWhile_cons_of_neg (by rw [h]; decide)]

/-- **The loop reads the items it is given**, and is then behind the last of them. -/
theorem ReadsItems.itemsLoop (h : ReadsItems item write done zs) (hzs : zs = xs ++ y :: ys)
    (close : UInt8) (n : ℕ) (hr : Ends r) :
    itemsLoop item close (n + ys.length + 1) (done xs) (write y ++ (moreText write ys ++ r)) =
      afterItem (LoRaGwSv.itemsLoop item close n) close (done zs) r := by
  induction ys generalizing xs y with
  | nil =>
    obtain ⟨c, t, heq, -⟩ := h.head y (by simp [hzs])
    rw [hzs, heq, List.cons_append, List.length_nil, Nat.add_zero, LoRaGwSv.itemsLoop,
      ← List.cons_append, ← heq]
    have hitem := h.item_eq hzs hr
    change (item (done xs) (write y ++ r)).bind _ = _
    rw [hitem]
    rfl
  | cons y' ys ih =>
    obtain ⟨c, t, heq, -⟩ := h.head y (by simp [hzs])
    obtain ⟨c', t', heq', hc'⟩ := h.head y' (by simp [hzs])
    have hends : Ends (moreText write (y' :: ys) ++ r) := ⟨44, _, rfl, rfl⟩
    have hstep := h.item_eq hzs hends
    have hzs' : zs = (xs ++ [y]) ++ y' :: ys := by simp [hzs]
    have hrest := ih hzs'
    rw [heq, List.cons_append, List.length_cons, LoRaGwSv.itemsLoop, ← List.cons_append, ← heq,
      hstep, ← hrest]
    change LoRaGwSv.itemsLoop item close (n + ys.length + 1) (done (xs ++ [y]))
      (skipWhitespaces ((write y' ++ moreText write ys) ++ r)) = _
    rw [List.append_assoc, heq', List.cons_append, skipWhitespaces_cons hc']

/-- **The items are read from behind the opening bracket**, and what follows decides how it goes
on. -/
theorem ReadsItems.parseItems {item : List α → Reader (List α)} {done : List β → List α}
    (h : ReadsItems item write done (y :: ys)) (hdone : done [] = [])
    (hclose : ∀ c t, write y = c :: t → c ≠ close) (hr : Ends r) :
    ∃ n, parseItems item close (write y ++ (moreText write ys ++ r)) =
      afterItem (LoRaGwSv.itemsLoop item close n) close (done (y :: ys)) r := by
  obtain ⟨c, t, heq, hc⟩ := h.head y List.mem_cons_self
  have hrounds : ys.length ≤ (t ++ (moreText write ys ++ r)).length := by
    have hmore : ys.length ≤ (moreText write ys).length := by
      rw [moreText, List.length_flatMap]
      exact (List.length_le_sum_of_one_le _ (by simp)).trans' (by simp)
    rw [List.length_append, List.length_append]
    omega
  obtain ⟨n, hn⟩ := Nat.exists_eq_add_of_le' hrounds
  refine ⟨n, ?_⟩
  have hloop := h.itemsLoop (List.nil_append _).symm close n hr
  rw [LoRaGwSv.parseItems, heq, List.cons_append, skipWhitespaces_cons hc]
  dsimp only
  rw [if_neg (hclose c t heq), hn, ← List.cons_append, ← heq, ← hdone, hloop]

/-- The closing bracket ends the loop with what has been read. -/
theorem afterItem_close {more : α → Reader α} {acc : α} (hspace : isSpace close = false)
    (hcomma : close ≠ 44) (r : List UInt8) :
    afterItem more close acc (close :: r) = some (acc, r) := by
  rw [afterItem, skipWhitespaces_cons hspace]
  dsimp only
  rw [if_neg hcomma, if_pos rfl]

/-- A member of an object: its name, and a text that denotes its value. -/
structure Field where
  name : List UInt8
  text : List UInt8
  value : Json

/-- A field as it is written: its name in quotes, a colon, and the value. -/
def Field.toText (f : Field) : List UInt8 := quoted f.name ++ 58 :: f.text

/-- A field as a member of an object. -/
def Field.member (f : Field) : List UInt8 × Json := (f.name, f.value)

/-- Fields an object can be made of. -/
structure Fields (left : ℕ) (fs : List Field) : Prop where
  plain : ∀ f ∈ fs, Plain f.name
  denotes : ∀ f ∈ fs, Denotes left f.text f.value
  nodup : (fs.map Field.name).Nodup
  length_le : fs.length ≤ objectMaxCapacity

/-- One field with a plain name makes an object. -/
theorem Fields.singleton {f : Field} (hname : Plain f.name) (h : Denotes left f.text f.value) :
    Fields left [f] where
  plain := by simpa using hname
  denotes := by simpa using h
  nodup := List.nodup_singleton _
  length_le := by
    change 1 ≤ objectMaxCapacity
    decide

/-- A name that no field has is not found. -/
theorem objectGetValue_member {xs : List Field} {name : List UInt8}
    (h : name ∉ xs.map Field.name) : objectGetValue (xs.map Field.member) name = none := by
  rw [objectGetValue, Option.map_eq_none_iff, List.find?_eq_none]
  rintro _ hmem hname
  obtain ⟨f, hf, rfl⟩ := List.mem_map.mp hmem
  exact h (List.mem_map.mpr ⟨f, hf, of_decide_eq_true hname⟩)

/-- A field with a new name is added at the end. -/
theorem objectAdd_member {xs : List Field} {f : Field} (h : f.name ∉ xs.map Field.name)
    (hlen : xs.length < objectMaxCapacity) :
    objectAdd (xs.map Field.member) f.name f.value = some ((xs ++ [f]).map Field.member) := by
  rw [objectAdd, List.length_map, if_neg hlen.ne, objectGetValue_member h, if_neg (by decide),
    List.map_append]
  rfl

/-- A member is read if its value is, unless there is one of its name. -/
theorem parseMember_quoted {value : Reader Json} {members : List (List UInt8 × Json)}
    {name : List UInt8} (h : Plain name) (s : List UInt8) :
    parseMember value members (quoted name ++ 58 :: s) = (value s).bind fun (v, s) =>
      (objectAdd members name v).map fun members => (members, s) := by
  rw [parseMember, quoted, List.cons_append, List.append_assoc, List.singleton_append,
    h.getQuotedString (List.cons_ne_nil _ _)]
  cases hvalue : value s with
  | none => simp [skipWhitespaces_cons (show isSpace 58 = false from rfl), hvalue]
  | some r =>
    obtain ⟨v, r⟩ := r
    cases hadd : objectAdd members name v <;>
      simp [skipWhitespaces_cons (show isSpace 58 = false from rfl), hvalue, hadd]

/-- The first fields of an object make one of their own. -/
theorem Fields.left_of_append {xs ys : List Field} (h : Fields left (xs ++ ys)) :
    Fields left xs where
  plain f hf := h.plain f (List.mem_append_left ys hf)
  denotes f hf := h.denotes f (List.mem_append_left ys hf)
  nodup := (List.nodup_append.mp (List.map_append ▸ h.nodup)).1
  length_le := le_trans (by simp) h.length_le

theorem Fields.not_mem {xs ys : List Field} {f : Field} (h : Fields left (xs ++ f :: ys)) :
    f.name ∉ xs.map Field.name := by
  have := h.nodup
  rw [List.map_append, List.map_cons] at this
  exact fun hmem => List.disjoint_of_nodup_append this hmem List.mem_cons_self

theorem Fields.length_lt {xs ys : List Field} {f : Field} (h : Fields left (xs ++ f :: ys)) :
    xs.length < objectMaxCapacity := by
  have := h.length_le
  rw [List.length_append, List.length_cons] at this
  omega

/-- The loop over the members reads the fields as they are written. -/
theorem Fields.readsItems {fs : List Field} (h : Fields left fs) :
    ReadsItems (parseMember (parseValue left)) Field.toText (List.map Field.member) fs where
  item_eq := by
    rintro xs f ys r rfl hr
    rw [Field.toText, List.append_assoc, List.cons_append,
      parseMember_quoted (h.plain f (by simp)), (h.denotes f (by simp)).reads r hr,
      Option.bind_some]
    dsimp only
    rw [objectAdd_member h.not_mem h.length_lt]
    rfl
  head f _ := ⟨34, _, rfl, rfl⟩

/-- The members are read, and what follows decides how it goes on. -/
theorem Fields.parseItems {f : Field} {fs : List Field} (h : Fields left (f :: fs)) (hr : Ends r) :
    ∃ n, parseItems (parseMember (parseValue left)) 125
        (f.toText ++ (moreText Field.toText fs ++ r)) =
      afterItem (LoRaGwSv.itemsLoop (parseMember (parseValue left)) 125 n) 125
        ((f :: fs).map Field.member) r := by
  refine h.readsItems.parseItems rfl ?_ hr
  rintro c t ⟨⟩
  decide

/-- **An object is read with its members**, whatever comes behind it. -/
theorem reads_object {f : Field} {fs : List Field} (h : Fields left (f :: fs)) (r : List UInt8) :
    parseValue (left + 1) (123 :: (f.toText ++ (moreText Field.toText fs ++ 125 :: r))) =
      some (.object ((f :: fs).map Field.member), r) := by
  obtain ⟨n, hn⟩ := h.parseItems (r := 125 :: r) ⟨125, r, rfl, rfl⟩
  change parseObjectValue (parseValue left) _ = _
  rw [parseObjectValue, hn, afterItem_close rfl (by decide)]
  rfl

/-- An object is not read if the value of its first member is not. -/
theorem parseValue_first_none {name : List UInt8} (h : Plain name)
    (hvalue : parseValue left s = none) :
    parseValue (left + 1) (123 :: (quoted name ++ 58 :: s)) = none := by
  change parseObjectValue (parseValue left) _ = none
  rw [parseObjectValue, Option.map_eq_none_iff]
  change (parseMember (parseValue left) [] (quoted name ++ 58 :: s)).bind _ = none
  rw [parseMember_quoted h, hvalue]
  rfl

/-- The text of an object. -/
def objectText (f : Field) (fs : List Field) : List UInt8 :=
  123 :: (f.toText ++ (moreText Field.toText fs ++ [125]))

theorem quoting_toText {f : Field} (hname : Plain f.name) (h : quoting false f.text = some false) :
    quoting false f.toText = some false := by
  rw [Field.toText, quoting_append_of_eq (quoting_quoted hname)]
  exact h

theorem Fields.quoting_toText {fs : List Field} (h : Fields left fs) {f : Field} (hf : f ∈ fs) :
    quoting false f.toText = some false :=
  LoRaGwSv.quoting_toText (h.plain f hf) (h.denotes f hf).quoting

/-- The fields of an object have no control characters. -/
theorem Fields.printable_toText {fs : List Field} (h : Fields left fs) {f : Field} (hf : f ∈ fs) :
    ∀ c ∈ f.toText, 32 ≤ c := by
  intro c hc
  rw [Field.toText, List.mem_append, List.mem_cons] at hc
  obtain hc | rfl | hc := hc
  · exact printable_quoted (h.plain f hf) c hc
  · decide
  · exact (h.denotes f hf).printable c hc

/-- Texts that follow a first one, each behind a comma, have none, either. -/
theorem printable_moreText {ys : List β} (h : ∀ y ∈ ys, ∀ c ∈ write y, 32 ≤ c) :
    ∀ c ∈ moreText write ys, 32 ≤ c := by
  intro c hc
  obtain ⟨y, hy, hc⟩ := List.mem_flatMap.mp hc
  obtain rfl | hc := List.mem_cons.mp hc
  · decide
  · exact h y hy c hc

theorem printable_bracketed {u : List UInt8} {o e : UInt8} (ho : 32 ≤ o) (he : 32 ≤ e)
    (hs : ∀ c ∈ s, 32 ≤ c) (hu : ∀ c ∈ u, 32 ≤ c) : ∀ c ∈ o :: (s ++ (u ++ [e])), 32 ≤ c := by
  intro c hc
  rw [List.mem_cons, List.mem_append, List.mem_append, List.mem_singleton] at hc
  obtain rfl | hc | hc | rfl := hc
  · exact ho
  · exact hs c hc
  · exact hu c hc
  · exact he

/-- Behind texts that leave no string open none is. -/
theorem quoting_moreText {ys : List β} (h : ∀ y ∈ ys, quoting false (write y) = some false) :
    quoting false (moreText write ys) = some false := by
  induction ys with
  | nil => rfl
  | cons y ys ih =>
    change quoting false (write y ++ moreText write ys) = _
    rw [quoting_append_of_eq (h y List.mem_cons_self)]
    exact ih fun y hy => h y (List.mem_cons_of_mem _ hy)

theorem quoting_objectText {f : Field} {fs : List Field}
    (h : ∀ g ∈ f :: fs, quoting false g.toText = some false) :
    quoting false (objectText f fs) = some false := by
  change quoting false (f.toText ++ (moreText Field.toText fs ++ [125])) = _
  rw [quoting_append_of_eq (h f List.mem_cons_self), quoting_append_of_eq
    (quoting_moreText fun g hg => h g (List.mem_cons_of_mem _ hg))]
  rfl

/-- **An object denotes its members.** -/
theorem Denotes.object {f : Field} {fs : List Field} (h : Fields left (f :: fs)) :
    Denotes (left + 1) (objectText f fs) (.object ((f :: fs).map Field.member)) where
  reads r _ := by
    rw [← reads_object h r, objectText, List.cons_append, List.append_assoc, List.append_assoc]
    rfl
  quoting := quoting_objectText fun _ hg => h.quoting_toText hg
  printable := printable_bracketed (by decide) (by decide) (h.printable_toText List.mem_cons_self)
    (printable_moreText fun _ hf => h.printable_toText (List.mem_cons_of_mem _ hf))

/-- Objects an array can be made of: their texts and their values. -/
structure Items (left : ℕ) (ys : List (List UInt8 × Json)) : Prop where
  denotes : ∀ y ∈ ys, Denotes left y.1 y.2
  head : ∀ y ∈ ys, ∃ t, y.1 = 123 :: t
  length_le : ys.length ≤ arrayMaxCapacity

/-- The loop over the items reads them as they are written. -/
theorem Items.readsItems {ys : List (List UInt8 × Json)} (h : Items left ys) :
    ReadsItems (parseItem (parseValue left)) Prod.fst (List.map Prod.snd) ys where
  item_eq := by
    rintro xs y zs r rfl hr
    have hlen : xs.length < arrayMaxCapacity := by
      have := h.length_le
      rw [List.length_append, List.length_cons] at this
      omega
    have hread := (h.denotes y (by simp)).reads r hr
    simp [parseItem, hread, arrayAdd, hlen.ne]
  head y hy := by
    obtain ⟨t, heq⟩ := h.head y hy
    exact ⟨123, t, heq, rfl⟩

/-- The items are read, and what follows decides how it goes on. -/
theorem Items.parseItems {y : List UInt8 × Json} {ys : List (List UInt8 × Json)}
    (h : Items left (y :: ys)) (hr : Ends r) :
    ∃ n, parseItems (parseItem (parseValue left)) 93 (y.1 ++ (moreText Prod.fst ys ++ r)) =
      afterItem (LoRaGwSv.itemsLoop (parseItem (parseValue left)) 93 n) 93
        ((y :: ys).map Prod.snd) r := by
  refine h.readsItems.parseItems rfl (fun c t heq => ?_) hr
  obtain ⟨t', heq'⟩ := h.head y List.mem_cons_self
  cases heq.symm.trans heq'
  decide

/-- The text of an array. -/
def arrayText (y : List UInt8) (ys : List (List UInt8)) : List UInt8 :=
  91 :: (y ++ (moreText id ys ++ [93]))

theorem quoting_arrayText {y : List UInt8} {ys : List (List UInt8)}
    (h : ∀ t ∈ y :: ys, quoting false t = some false) :
    quoting false (arrayText y ys) = some false := by
  have hmore : quoting false (moreText id ys) = some false :=
    quoting_moreText fun t ht => h t (List.mem_cons_of_mem _ ht)
  change quoting false (y ++ (moreText id ys ++ [93])) = _
  rw [quoting_append_of_eq (h y List.mem_cons_self), quoting_append_of_eq hmore]
  rfl

/-- **An array denotes its items.** -/
theorem Denotes.array {y : List UInt8 × Json} {ys : List (List UInt8 × Json)}
    (h : Items left (y :: ys)) : Denotes (left + 1) (arrayText y.1 (ys.map Prod.fst))
      (.array ((y :: ys).map Prod.snd)) where
  reads r _ := by
    have hmore : moreText id (ys.map Prod.fst) = moreText Prod.fst ys := by
      rw [moreText, List.flatMap_map]
      rfl
    rw [arrayText, hmore, List.cons_append, List.append_assoc, List.append_assoc]
    obtain ⟨n, hn⟩ := h.parseItems (r := 93 :: r) ⟨93, r, rfl, rfl⟩
    change parseArrayValue (parseValue left) (y.1 ++ (moreText Prod.fst ys ++ 93 :: r)) = _
    rw [parseArrayValue, hn, afterItem_close rfl (by decide)]
    rfl
  quoting := by
    refine quoting_arrayText fun t ht => ?_
    rw [← List.map_cons] at ht
    obtain ⟨y', hy', rfl⟩ := List.mem_map.mp ht
    exact (h.denotes y' hy').quoting
  printable := by
    refine printable_bracketed (by decide) (by decide) (h.denotes y List.mem_cons_self).printable
      (printable_moreText fun t ht => ?_)
    obtain ⟨y', hy', rfl⟩ := List.mem_map.mp ht
    exact (h.denotes y' (List.mem_cons_of_mem _ hy')).printable

/-- An array with an item that cannot be read cannot be read. -/
theorem itemsLoop_none (hs : parseValue left s = none) (close : UInt8) (n : ℕ)
    (items : List Json) : itemsLoop (parseItem (parseValue left)) close n items s = none := by
  cases n with
  | zero => rfl
  | succ n =>
    cases s with
    | nil => rfl
    | cons c s =>
      rw [itemsLoop, parseItem, hs]
      rfl

/-- **An array is not read if one of its items is not**, and those in front of it are objects. -/
theorem parseValue_array_none {zs : List (List UInt8 × Json)} (h : Items left zs) {y : List UInt8}
    {ys rest : List (List UInt8)} (heq : y :: ys = zs.map Prod.fst ++ (123 :: t) :: rest)
    (hnone : ∀ r, parseValue left (123 :: t ++ r) = none) (q : List UInt8) :
    parseValue (left + 1) (arrayText y ys ++ q) = none := by
  rw [arrayText, List.cons_append, List.append_assoc, List.append_assoc]
  change parseArrayValue (parseValue left) (y ++ (moreText id ys ++ ([93] ++ q))) = none
  rw [parseArrayValue, Option.map_eq_none_iff]
  cases zs with
  | nil =>
    cases heq
    exact itemsLoop_none (hnone _) 93 _ []
  | cons z zs =>
    rw [List.map_cons, List.cons_append] at heq
    obtain ⟨rfl, rfl⟩ := List.cons.inj heq
    have hmore : moreText id (zs.map Prod.fst ++ (123 :: t) :: rest) ++ ([93] ++ q) =
        moreText Prod.fst zs ++ 44 :: (123 :: t ++ (moreText id rest ++ ([93] ++ q))) := by
      simp [moreText, List.flatMap_map]
    obtain ⟨n, hn⟩ := h.parseItems (r := 44 :: (123 :: t ++ (moreText id rest ++ ([93] ++ q))))
      ⟨44, _, rfl, rfl⟩
    rw [hmore, hn]
    exact itemsLoop_none (hnone _) 93 n _

/-! ## Whole texts

A text is read as a whole if it is an object or an array. -/

/-- What is read of a text without comments is its first value, an object or an array. -/
theorem jsonParse_eq_some (h : quoting false s = some i) :
    jsonParseStringWithComments s = some v ↔ ∃ c t r, skipWhitespaces s = c :: t ∧
      (c = 123 ∨ c = 91) ∧ parseValue (maxNesting + 1) (c :: t) = some (v, r) := by
  rw [jsonParseStringWithComments, withoutComments_eq h]
  cases skipWhitespaces s with
  | nil => simp
  | cons c t =>
    dsimp only
    constructor
    · intro hread
      split at hread
      · rename_i hc
        obtain ⟨⟨w, r⟩, hread', rfl⟩ := Option.map_eq_some_iff.mp hread
        exact ⟨c, t, r, rfl, hc, hread'⟩
      · cases hread
    · rintro ⟨c', t', r, heq, hc, hread⟩
      cases heq
      rw [if_pos hc, hread]
      rfl

/-- A text that begins like an object and is none is refused. -/
theorem jsonParse_eq_none (h : withoutComments s = t) (ht : t.head? = some 123)
    (hread : parseValue (maxNesting + 1) t = none) : jsonParseStringWithComments s = none := by
  obtain ⟨t', rfl⟩ : ∃ t', t = 123 :: t' := ⟨t.tail, List.eq_cons_of_mem_head? ht⟩
  rw [jsonParseStringWithComments, h, skipWhitespaces_cons rfl]
  dsimp only
  rw [if_pos (Or.inl rfl), hread]
  rfl

/-- What ends with its bracket is read whatever comes behind. -/
theorem parseValue_bracket (hc : c = 123 ∨ c = 91)
    (h : parseValue (left + 1) (c :: s) = some (v, r)) (q : List UInt8) :
    parseValue (left + 1) (c :: s ++ q) = some (v, r ++ q) := by
  obtain rfl | rfl := hc
  · exact parseObjectValue_append (steady_parseValue left) h q
  · exact parseArrayValue_append (steady_parseValue left) h q

/-- **What is read of a text without comments is read of any longer text.** -/
theorem jsonParse_append (hs : quoting false s = some i)
    (h : jsonParseStringWithComments s = some v) (q : List UInt8) :
    jsonParseStringWithComments (s ++ q) = some v := by
  obtain ⟨c, t, r, hskip, hc, hread⟩ := (jsonParse_eq_some hs).mp h
  rw [jsonParseStringWithComments, withoutComments_append hs,
    skipWhitespaces_append (by rw [hskip]; exact List.cons_ne_nil c t), hskip, List.cons_append]
  dsimp only
  rw [if_pos hc, ← List.cons_append, parseValue_bracket hc hread]
  rfl

variable {f : Field} {fs : List Field}

/-- The text of an object is read to its end. -/
theorem parseValue_objectText (h : Fields left (f :: fs)) :
    parseValue (left + 1) (objectText f fs) = some (.object ((f :: fs).map Field.member), []) :=
  reads_object h []

/-- **An object that has been written is read back**, member by member. -/
theorem jsonParse_objectText (h : Fields maxNesting (f :: fs)) :
    jsonParseStringWithComments (objectText f fs) =
      some (.object ((f :: fs).map Field.member)) :=
  (jsonParse_eq_some (Denotes.object h).quoting).mpr
    ⟨123, _, [], rfl, Or.inl rfl, parseValue_objectText h⟩

/-- **An object is read**, whatever comes behind it. -/
theorem jsonParse_object (h : Fields maxNesting (f :: fs)) (q : List UInt8) :
    jsonParseStringWithComments (objectText f fs ++ q) =
      some (.object ((f :: fs).map Field.member)) :=
  jsonParse_append (Denotes.object h).quoting (jsonParse_objectText h) q

/-- **An object that is cut off is not read.** -/
theorem jsonParse_prefix (h : Fields maxNesting (f :: fs)) (heq : objectText f fs = s ++ q)
    (hq : q ≠ []) : jsonParseStringWithComments s = none := by
  obtain ⟨k, hk⟩ := quoting_prefix (heq ▸ (Denotes.object h).quoting)
  by_contra hsome
  obtain ⟨v, hv⟩ := Option.ne_none_iff_exists'.mp hsome
  obtain ⟨c, t, r, hskip, hc, hread⟩ := (jsonParse_eq_some hk).mp hv
  have hs : s = c :: t := by
    cases s with
    | nil => cases hskip
    | cons d s =>
      obtain rfl : d = 123 := (List.cons.inj heq).1.symm
      rwa [skipWhitespaces_cons rfl] at hskip
  have hwhole := parseValue_bracket hc hread q
  rw [← hs, ← heq, parseValue_objectText h] at hwhole
  have hnil : r ++ q = [] := (congrArg Prod.snd (Option.some.inj hwhole)).symm
  exact hq (List.append_eq_nil_iff.mp hnil).2

end LoRaGwSv
