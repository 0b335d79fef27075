import LoRaGwSv.Machinery.Text

/-!
# Shared/Parson — the JSON reader of gateway and server (`parson.c`)

A text is read up to its first NUL, after comments have been blanked out.  `parseValue` counts the
levels that are left of `MAX_NESTING`; the members of an object and the items of an array are read
by one loop (`itemsLoop`), which moves on with each of them, so that the length of the text bounds
its rounds.  Numbers are kept exact, and `-inf` and `-nan` are not read as numbers.
-/

namespace LoRaGwSv

open Text

/-- `JSON_Value`. -/
inductive Json
  | null
  | boolean (b : Bool)
  | number (n : ℚ)
  | string (s : List UInt8)
  | array (items : List Json)
  | object (members : List (List UInt8 × Json))

/-- Read something off the front of a text. -/
abbrev Reader (α : Type) : Type := List UInt8 → Option (α × List UInt8)

/-- `ARRAY_MAX_CAPACITY`. -/
def arrayMaxCapacity : ℕ := 122880

/-- `OBJECT_MAX_CAPACITY`. -/
def objectMaxCapacity : ℕ := 960

/-- `MAX_NESTING`. -/
def maxNesting : ℕ := 19

/-- `SKIP_WHITESPACES`. -/
def skipWhitespaces (s : List UInt8) : List UInt8 := s.dropWhile isSpace

/-! ## Comments

Comments are overwritten with blanks before the text is read.  A string is kept as it is, also if it
has the signs of a comment in it. -/

/-- How much of `s` is before the first `token`, if there is one (`strstr`). -/
def strstr (token : List UInt8) : List UInt8 → Option ℕ
  | [] => if token = [] then some 0 else none
  | c :: s => if token.isPrefixOf (c :: s) then some 0 else (strstr token s).map (· + 1)

/-- `remove_comments`: `blank` characters of a comment are still to be overwritten. -/
def removeComments (start stop : List UInt8) : ℕ → Bool → Bool → List UInt8 → List UInt8
  | _, _, _, [] => []
  | blank + 1, inString, _, _ :: s => 32 :: removeComments start stop blank inString false s
  | 0, inString, escaped, c :: s =>
    if c = 92 ∧ !escaped then c :: removeComments start stop 0 inString true s
    else if c = 34 ∧ !escaped then c :: removeComments start stop 0 (!inString) false s
    else if !inString ∧ start.isPrefixOf (c :: s) then
      match strstr stop ((c :: s).drop start.length) with
      | none => List.replicate start.length 32 ++ (c :: s).drop start.length
      | some n =>
        32 :: removeComments start stop (start.length + n + stop.length - 1) inString false s
    else c :: removeComments start stop 0 inString false s

/-! ## Strings -/

/-- The value of a hexadecimal digit, in either case. -/
def hexValue (c : UInt8) : Option ℕ :=
  if isDigit c then some (c.toNat - 48)
  else if 65 ≤ c ∧ c ≤ 70 then some (c.toNat - 55)
  else if 97 ≤ c ∧ c ≤ 102 then some (c.toNat - 87)
  else none

/-- `is_utf16_hex`, and the number `%4x` reads there. -/
def utf16Hex : List UInt8 → Option ℕ
  | a :: b :: c :: d :: _ => do
    return ((← hexValue a) * 16 + (← hexValue b)) * 256 + (← hexValue c) * 16 + (← hexValue d)
  | _ => none

/-- `parse_utf_16`, from behind the `u`: the bytes of the character and how much it takes. -/
def parseUtf16 (s : List UInt8) : Option (List UInt8 × ℕ) := do
  let cp ← utf16Hex s
  if cp < 0x80 then return ([UInt8.ofNat cp], 4)
  else if cp < 0x800 then
    return ([UInt8.ofNat (cp / 64 + 0xC0), UInt8.ofNat (cp % 64 + 0x80)], 4)
  else if cp < 0xD800 ∨ 0xDFFF < cp then
    return ([UInt8.ofNat (cp / 4096 + 0xE0), UInt8.ofNat (cp / 64 % 64 + 0x80),
      UInt8.ofNat (cp % 64 + 0x80)], 4)
  else if cp ≤ 0xDBFF then
    if ¬[92, 117].isPrefixOf (s.drop 4) then none
    else
      let trail ← utf16Hex (s.drop 6)
      if trail < 0xDC00 ∨ 0xDFFF < trail then none
      else
        let cp := (cp - 0xD800) * 1024 + (trail - 0xDC00) + 0x10000
        return ([UInt8.ofNat (cp / 262144 + 0xF0), UInt8.ofNat (cp / 4096 % 64 + 0x80),
          UInt8.ofNat (cp / 64 % 64 + 0x80), UInt8.ofNat (cp % 64 + 0x80)], 10)
  else none

/-- The character an escape sequence stands for. -/
def escapeChar (c : UInt8) : Option UInt8 :=
  if c = 34 ∨ c = 92 ∨ c = 47 then some c
  else if c = 98 then some 8
  else if c = 102 then some 12
  else if c = 110 then some 10
  else if c = 114 then some 13
  else if c = 116 then some 9
  else none

/-- `process_string`, on what is between the quotes. -/
def processString : ℕ → List UInt8 → Option (List UInt8)
  | _, [] => some []
  | 0, _ :: _ => none
  | n + 1, c :: s =>
    if c = 92 then
      match s with
      | [] => none
      | d :: s =>
        if d = 117 then do
          let (bytes, len) ← parseUtf16 s
          return bytes ++ (← processString n (s.drop len))
        else do return (← escapeChar d) :: (← processString n s)
    else if c < 32 then none
    else do return c :: (← processString n s)

/-- What is before the closing quote, and what is behind it (`skip_quotes`). -/
def skipQuotes : Reader (List UInt8)
  | [] => none
  | [c] => if c = 34 then some ([], []) else none
  | c :: d :: s =>
    if c = 34 then some ([], d :: s)
    else if c = 92 then (skipQuotes s).map fun (content, rest) => (c :: d :: content, rest)
    else (skipQuotes (d :: s)).map fun (content, rest) => (c :: content, rest)

/-- The first character is taken for the opening quote. -/
def getQuotedString : Reader (List UInt8)
  | [] => none
  | _ :: s => do
    let (content, rest) ← skipQuotes s
    if rest = [] then none
    else return (cString (← processString content.length content), rest)

/-! ## Numbers and literals

A number is what `strtod` reads, unless it is refused for its form. -/

/-- `is_decimal`. -/
def isDecimal (s : List UInt8) : Bool :=
  ¬(1 < s.length ∧ s[0]? = some 48 ∧ s[1]? ≠ some 46) ∧
    ¬(2 < s.length ∧ s.take 2 = [45, 48] ∧ s[2]? ≠ some 46) ∧
    s.all fun c => c ≠ 88 ∧ c ≠ 120

/-- Here `strtod` reads a hexadecimal number, which `is_decimal` refuses. -/
def isHexadecimal (s : List UInt8) : Bool :=
  match (readSign s).2 with
  | c :: x :: d :: s =>
    c = 48 ∧ (x = 88 ∨ x = 120) ∧
      ((hexValue d).isSome ∨ d = 46 ∧ s.head?.any fun c => (hexValue c).isSome)
  | _ => false

/-- `parse_number_value`. -/
def parseNumberValue : Reader Json := fun s =>
  if isHexadecimal s then none
  else
    let (number, stop) := strtod s
    if isDecimal (s.take (s.length - stop.length)) then some (.number number, stop) else none

/-- A word that stands for a value. -/
def literal (token : List UInt8) (v : Json) : Reader Json := fun s =>
  if token.isPrefixOf s then some (v, s.drop token.length) else none

/-- `parse_boolean_value`. -/
def parseBooleanValue : Reader Json := fun s =>
  (literal (ascii "true") (.boolean true) s).or (literal (ascii "false") (.boolean false) s)

/-- `parse_null_value`. -/
def parseNullValue : Reader Json := literal (ascii "null") .null

/-- `parse_string_value`. -/
def parseStringValue : Reader Json := fun s =>
  (getQuotedString s).map fun (content, rest) => (.string content, rest)

/-! ## Objects and arrays

Values nest, so the functions for objects and arrays call the one for values with one level less to
go. -/

/-- What comes after an item: another one, or the end. -/
def afterItem {α : Type} (more : α → Reader α) (close : UInt8) (acc : α) : Reader α := fun s =>
  match skipWhitespaces s with
  | [] => none
  | c :: s =>
    if c = 44 then more acc (skipWhitespaces s)
    else if c = close then some (acc, s)
    else none

/-- The loop of `parse_object_value` and `parse_array_value`, in at most so many rounds. -/
def itemsLoop {α : Type} (item : α → Reader α) (close : UInt8) : ℕ → α → Reader α
  | 0, _, _ => none
  | _ + 1, _, [] => none
  | n + 1, acc, c :: s =>
    (item acc (c :: s)).bind fun (acc, s) => afterItem (itemsLoop item close n) close acc s

/-- `json_object_get_value`. -/
def objectGetValue (members : List (List UInt8 × Json)) (name : List UInt8) : Option Json :=
  (members.find? (·.1 = name)).map Prod.snd

/-- `json_object_add`: a name that an object has already is refused. -/
def objectAdd (members : List (List UInt8 × Json)) (name : List UInt8) (v : Json) :
    Option (List (List UInt8 × Json)) :=
  if members.length = objectMaxCapacity then none
  else if (objectGetValue members name).isSome then none
  else some (members ++ [(name, v)])

/-- `json_array_add`. -/
def arrayAdd (items : List Json) (v : Json) : Option (List Json) :=
  if items.length = arrayMaxCapacity then none else some (items ++ [v])

/-- A round of the loop of `parse_object_value`: a name, a colon and a value. -/
def parseMember (value : Reader Json) (members : List (List UInt8 × Json)) :
    Reader (List (List UInt8 × Json)) := fun s => do
  let (name, s) ← getQuotedString s
  match skipWhitespaces s with
  | [] => none
  | c :: s =>
    if c ≠ 58 then none
    else
      let (v, s) ← value s
      return (← objectAdd members name v, s)

/-- A round of the loop of `parse_array_value`. -/
def parseItem (value : Reader Json) (items : List Json) : Reader (List Json) := fun s => do
  let (v, s) ← value s
  return (← arrayAdd items v, s)

/-- What is between the brackets, from behind the opening one. -/
def parseItems {α : Type} (item : List α → Reader (List α)) (close : UInt8) : Reader (List α) :=
  fun s =>
    match skipWhitespaces s with
    | [] => none
    | c :: s => if c = close then some ([], s) else itemsLoop item close (s.length + 1) [] (c :: s)

/-- `parse_object_value`. -/
def parseObjectValue (value : Reader Json) : Reader Json := fun s =>
  (parseItems (parseMember value) 125 s).map fun (members, rest) => (.object members, rest)

/-- `parse_array_value`. -/
def parseArrayValue (value : Reader Json) : Reader Json := fun s =>
  (parseItems (parseItem value) 93 s).map fun (items, rest) => (.array items, rest)

/-- `parse_value`, by the first character behind white space, with the levels that are left. -/
def parseValue : ℕ → Reader Json
  | 0, _ => none
  | left + 1, s =>
    match skipWhitespaces s with
    | [] => none
    | c :: s =>
      if c = 123 then parseObjectValue (parseValue left) s
      else if c = 91 then parseArrayValue (parseValue left) s
      else if c = 34 then parseStringValue (c :: s)
      else if c = 102 ∨ c = 116 then parseBooleanValue (c :: s)
      else if c = 45 ∨ isDigit c then parseNumberValue (c :: s)
      else if c = 110 then parseNullValue (c :: s)
      else none

/-- The text with its comments blanked out. -/
def withoutComments (s : List UInt8) : List UInt8 :=
  removeComments (ascii "//") (ascii "\n") 0 false false
    (removeComments (ascii "/*") (ascii "*/") 0 false false (cString s))

/-- `json_parse_string_with_comments`: the text has to be an object or an array, and what comes
behind that is not looked at. -/
def jsonParseStringWithComments (s : List UInt8) : Option Json :=
  match skipWhitespaces (withoutComments s) with
  | [] => none
  | c :: rest =>
    if c = 123 ∨ c = 91 then (parseValue (maxNesting + 1) (c :: rest)).map Prod.fst else none

/-! ## Access -/

/-- `json_value_get_object`. -/
def valueGetObject : Json → Option (List (List UInt8 × Json))
  | .object members => some members
  | _ => none

/-- `json_value_get_array`. -/
def valueGetArray : Json → Option (List Json)
  | .array items => some items
  | _ => none

/-- `json_value_get_string`. -/
def valueGetString : Json → Option (List UInt8)
  | .string s => some s
  | _ => none

/-- What is not a number counts as 0. -/
def valueGetNumber : Json → ℚ
  | .number n => n
  | _ => 0

/-- -1 tells that the value is not a boolean. -/
def valueGetBoolean : Json → ℤ
  | .boolean b => if b then 1 else 0
  | _ => -1

/-! ## Conversions -/

/-- The conversion of a number to an integer. -/
def truncate (q : ℚ) : ℤ := q.num.tdiv q.den

/-- A number as a byte, modulo 256. -/
def toUInt8 (q : ℚ) : UInt8 := UInt8.ofNat (truncate q % 256).toNat

/-- A number as a word of 16 bits. -/
def toUInt16 (q : ℚ) : UInt16 := UInt16.ofNat (truncate q % 65536).toNat

/-- A natural number is its own integer part. -/
theorem truncate_natCast (n : ℕ) : truncate n = n := by
  simp [truncate]

/-- The number of a byte gives the byte back. -/
theorem toUInt8_toNat (x : UInt8) : toUInt8 (x.toNat : ℚ) = x := by
  have hx := x.toNat_lt
  rw [toUInt8, truncate_natCast, show ((x.toNat : ℤ) % 256).toNat = x.toNat by omega,
    UInt8.ofNat_toNat]

theorem toUInt16_toNat (x : UInt16) : toUInt16 (x.toNat : ℚ) = x := by
  have hx := x.toNat_lt
  rw [toUInt16, truncate_natCast, show ((x.toNat : ℤ) % 65536).toNat = x.toNat by omega,
    UInt16.ofNat_toNat]

/-! ## A reading does not depend on what comes later

What the reader looks at behind a value is the character that ends it, so a value that has been read
in front of one text is read in front of another. -/

/-- What has been read does not depend on what comes later, if something is left that does not
continue a number. -/
def Steady {α : Type} (f : Reader α) : Prop :=
  ∀ ⦃s v r⦄, f s = some (v, r) → Ends r → ∀ q, f (s ++ q) = some (v, r ++ q)

variable {α : Type} {s r : List UInt8} {c : UInt8} {n m left : ℕ}

/-- White space ends where it ended, if anything is behind it. -/
theorem skipWhitespaces_append (h : skipWhitespaces s ≠ []) (q : List UInt8) :
    skipWhitespaces (s ++ q) = skipWhitespaces s ++ q :=
  (span_append h q).2

theorem skipQuotes_append {content : List UInt8} (h : skipQuotes s = some (content, r))
    (q : List UInt8) : skipQuotes (s ++ q) = some (content, r ++ q) := by
  fun_induction skipQuotes s generalizing content r with
  | case1 => cases h
  | case2 =>
    cases h
    cases q <;> rfl
  | case3 => cases h
  | case4 d s =>
    cases h
    rfl
  | case5 d s hc ih =>
    obtain ⟨⟨content', r'⟩, hrec, heq⟩ := Option.map_eq_some_iff.mp h
    cases heq
    rw [List.cons_append, List.cons_append, skipQuotes, if_neg (by decide), if_pos rfl, ih hrec]
    rfl
  | case6 c d s hc hc' ih =>
    obtain ⟨⟨content', r'⟩, hrec, heq⟩ := Option.map_eq_some_iff.mp h
    cases heq
    rw [List.cons_append, List.cons_append, skipQuotes, if_neg hc, if_neg hc', ← List.cons_append,
      ih hrec]
    rfl

theorem getQuotedString_append {v : List UInt8} (h : getQuotedString s = some (v, r))
    (q : List UInt8) : getQuotedString (s ++ q) = some (v, r ++ q) := by
  cases s with
  | nil => cases h
  | cons c s =>
    rw [getQuotedString] at h
    obtain ⟨⟨content, rest⟩, hskip, h⟩ := Option.bind_eq_some_iff.mp h
    dsimp only at h
    split at h
    · cases h
    · rename_i hne
      obtain ⟨bytes, hbytes, heq⟩ := Option.bind_eq_some_iff.mp h
      cases heq
      rw [List.cons_append, getQuotedString, skipQuotes_append hskip]
      simp [hne, hbytes]

theorem steady_parseStringValue : Steady parseStringValue := by
  intro s v r h _ q
  obtain ⟨⟨content, rest⟩, hread, heq⟩ := Option.map_eq_some_iff.mp h
  cases heq
  rw [parseStringValue, getQuotedString_append hread]
  rfl

/-- A literal that has been read stands at the front of the text. -/
theorem literal_eq_some {token : List UInt8} {v w : Json} (h : literal token v s = some (w, r)) :
    s = token ++ r ∧ w = v := by
  rw [literal] at h
  split at h
  · rename_i hbegins
    cases h
    obtain ⟨t, rfl⟩ := List.isPrefixOf_iff_prefix.mp hbegins
    rw [List.drop_left]
    exact ⟨rfl, rfl⟩
  · cases h

theorem parseBooleanValue_false (s : List UInt8) :
    parseBooleanValue (ascii "false" ++ s) = some (.boolean false, s) := rfl

theorem parseBooleanValue_true (s : List UInt8) :
    parseBooleanValue (ascii "true" ++ s) = some (.boolean true, s) := rfl

theorem parseNullValue_null (s : List UInt8) :
    parseNullValue (ascii "null" ++ s) = some (.null, s) := rfl

theorem steady_parseNullValue : Steady parseNullValue := by
  intro s v r h _ q
  obtain ⟨rfl, rfl⟩ := literal_eq_some h
  rw [List.append_assoc, parseNullValue_null]

theorem steady_parseBooleanValue : Steady parseBooleanValue := by
  intro s v r h _ q
  obtain h | ⟨-, h⟩ := Option.or_eq_some_iff.mp h
  · obtain ⟨rfl, rfl⟩ := literal_eq_some h
    rw [List.append_assoc, parseBooleanValue_true]
  · obtain ⟨rfl, rfl⟩ := literal_eq_some h
    rw [List.append_assoc, parseBooleanValue_false]

/-! ### Numbers -/

/-- `strtod` reads no hexadecimal digits here: it stops at the `x`. -/
theorem strtod_hexadecimal {x : UInt8} (h : (readSign s).2 = 48 :: x :: r)
    (hx : x = 88 ∨ x = 120) : (strtod s).2 = x :: r := by
  have hnot : isDigit x = false ∧ x ≠ 46 ∧ ¬(x = 69 ∨ x = 101) := by
    obtain rfl | rfl := hx <;> decide
  have htake : (readSign s).2.takeWhile isDigit = [48] := by
    rw [h]
    simp [hnot.1, show isDigit 48 = true from rfl]
  have hdrop : (readSign s).2.dropWhile isDigit = x :: r := by
    rw [h]
    simp [hnot.1, show isDigit 48 = true from rfl]
  simp [strtod, htake, hdrop, readFraction, readExponent, hnot]

/-- No hexadecimal number begins where a decimal one has been read. -/
theorem not_isHexadecimal (h : Ends (strtod s).2) (q : List UInt8) :
    isHexadecimal (s ++ q) = false := by
  rw [isHexadecimal]
  split
  · rename_i c x d t hread
    by_contra hhex
    simp only [Bool.not_eq_false, Bool.decide_and, Bool.and_eq_true, decide_eq_true_eq] at hhex
    obtain ⟨rfl, hx, -⟩ := hhex
    have hrest := strtod_hexadecimal hread hx
    rw [strtod_append h] at hrest
    obtain ⟨_, _, heq, hnum⟩ := h.append q
    cases hrest.symm.trans heq
    obtain rfl | rfl := hx <;> exact absurd hnum (by decide)
  · rfl

theorem steady_parseNumberValue : Steady parseNumberValue := by
  intro s v r h hr q
  rw [parseNumberValue] at h
  split at h
  · cases h
  · split at h
    rename_i number stop heq
    split at h
    · rename_i hdec
      cases h
      have hends : Ends (strtod s).2 := by rwa [heq]
      have hlen : (s ++ q).length - (r ++ q).length = s.length - r.length := by
        rw [List.length_append, List.length_append]
        omega
      rw [parseNumberValue, if_neg (by rw [not_isHexadecimal hends]; decide), strtod_append hends,
        heq]
      dsimp only
      rw [hlen, List.take_append_of_le_length (by omega), if_pos hdec]
    · cases h

/-! ### Objects and arrays -/

/-- An item that has one more or the end behind it is ended by a character that no number has. -/
theorem afterItem_ends {more : α → Reader α} {close : UInt8} {acc : α} {v : α}
    (hclose : isNumeric close = false) (h : afterItem more close acc s = some (v, r)) : Ends s := by
  cases s with
  | nil => cases h
  | cons c s =>
    refine ⟨c, s, rfl, ?_⟩
    by_cases hc : isSpace c = true
    · rw [isSpace, Bool.or_eq_true, decide_eq_true_eq, Bool.and_eq_true, decide_eq_true_eq,
        decide_eq_true_eq] at hc
      simp only [isNumeric, isDigit]
      grind
    · rw [afterItem, skipWhitespaces, List.dropWhile_cons_of_neg hc] at h
      dsimp only at h
      split at h
      · subst c
        rfl
      · split at h
        · subst c
          exact hclose
        · cases h

/-- What comes after an item is read steadily if the rest of the loop is. -/
theorem afterItem_append {more more' : α → Reader α} {close : UInt8} {acc : α} {v : α}
    (hmore : ∀ {acc s v r}, more acc s = some (v, r) → ∀ q, more' acc (s ++ q) = some (v, r ++ q))
    (hnil : ∀ acc, more acc [] = none)
    (h : afterItem more close acc s = some (v, r)) (q : List UInt8) :
    afterItem more' close acc (s ++ q) = some (v, r ++ q) := by
  rw [afterItem] at h ⊢
  cases hs : skipWhitespaces s with
  | nil =>
    rw [hs] at h
    cases h
  | cons c t =>
    rw [hs] at h
    rw [skipWhitespaces_append (by rw [hs]; exact List.cons_ne_nil c t), hs, List.cons_append]
    dsimp only at h ⊢
    split at h
    · rename_i hc
      have ht : skipWhitespaces t ≠ [] := fun ht => by
        rw [ht, hnil] at h
        cases h
      rw [if_pos hc, skipWhitespaces_append ht]
      exact hmore h q
    · rename_i hc
      split at h
      · rename_i hc'
        cases h
        rw [if_neg hc, if_pos hc']
      · cases h

/-- At the end of the text there is no item. -/
theorem itemsLoop_nil {item : α → Reader α} {close : UInt8} (acc : α) :
    itemsLoop item close n acc [] = none := by
  cases n <;> rfl

/-- **What the loop has read does not depend on what comes later**, nor on the rounds it may still
take. -/
theorem itemsLoop_append {item : α → Reader α} {close : UInt8} {acc v : α}
    (hitem : ∀ acc, Steady (item acc)) (hclose : isNumeric close = false)
    (h : itemsLoop item close n acc s = some (v, r)) (hnm : n ≤ m) (q : List UInt8) :
    itemsLoop item close m acc (s ++ q) = some (v, r ++ q) := by
  induction n generalizing m acc s v r q with
  | zero => cases h
  | succ n ih =>
    obtain ⟨m, rfl⟩ : ∃ m', m = m' + 1 := ⟨m - 1, by omega⟩
    cases s with
    | nil => cases h
    | cons c s =>
      rw [itemsLoop] at h
      obtain ⟨⟨acc', s'⟩, hread, hafter⟩ := Option.bind_eq_some_iff.mp h
      rw [List.cons_append, itemsLoop, ← List.cons_append,
        hitem acc hread (afterItem_ends hclose hafter) q]
      exact afterItem_append (fun h q => ih h (Nat.le_of_succ_le_succ hnm) q)
        (fun _ => itemsLoop_nil _) hafter q

/-- **The items of a bracket are read steadily if each item is**, by induction over the rounds of
the loop. -/
theorem parseItems_append {item : List α → Reader (List α)} {close : UInt8} {v : List α}
    (hitem : ∀ acc, Steady (item acc)) (hclose : isNumeric close = false)
    (h : parseItems item close s = some (v, r)) (q : List UInt8) :
    parseItems item close (s ++ q) = some (v, r ++ q) := by
  rw [parseItems] at h ⊢
  cases hs : skipWhitespaces s with
  | nil =>
    rw [hs] at h
    cases h
  | cons c t =>
    rw [hs] at h
    rw [skipWhitespaces_append (by rw [hs]; exact List.cons_ne_nil c t), hs, List.cons_append]
    dsimp only at h ⊢
    split at h
    · rename_i hc
      cases h
      rw [if_pos hc]
    · rename_i hc
      rw [if_neg hc, ← List.cons_append]
      exact itemsLoop_append hitem hclose h (by simp) q

/-- A member is read steadily if its value is. -/
theorem steady_parseMember {value : Reader Json} (hvalue : Steady value)
    (members : List (List UInt8 × Json)) : Steady (parseMember value members) := by
  intro s v r h hr q
  rw [parseMember] at h ⊢
  obtain ⟨⟨name, s'⟩, hname, h⟩ := Option.bind_eq_some_iff.mp h
  dsimp only at h
  cases hs : skipWhitespaces s' with
  | nil =>
    rw [hs] at h
    cases h
  | cons c t =>
    rw [hs] at h
    dsimp only at h
    split at h
    · cases h
    · rename_i hc
      obtain ⟨⟨w, t'⟩, hread, h⟩ := Option.bind_eq_some_iff.mp h
      obtain ⟨members', hadd, heq⟩ := Option.bind_eq_some_iff.mp h
      cases heq
      simp [getQuotedString_append hname,
        skipWhitespaces_append
          (show skipWhitespaces s' ≠ [] by rw [hs]; exact List.cons_ne_nil c t),
        hs, hc, hvalue hread hr q, hadd]

theorem steady_parseItem {value : Reader Json} (hvalue : Steady value) (items : List Json) :
    Steady (parseItem value items) := by
  intro s v r h hr q
  rw [parseItem] at h ⊢
  obtain ⟨⟨w, t'⟩, hread, h⟩ := Option.bind_eq_some_iff.mp h
  obtain ⟨items', hadd, heq⟩ := Option.bind_eq_some_iff.mp h
  cases heq
  simp [hvalue hread hr q, hadd]

/-- An object ends at its brace, so it does not even matter what comes directly behind it. -/
theorem parseObjectValue_append {value : Reader Json} (hvalue : Steady value) {v : Json}
    (h : parseObjectValue value s = some (v, r)) (q : List UInt8) :
    parseObjectValue value (s ++ q) = some (v, r ++ q) := by
  obtain ⟨⟨members, rest⟩, hread, heq⟩ := Option.map_eq_some_iff.mp h
  cases heq
  rw [parseObjectValue, parseItems_append (steady_parseMember hvalue) (by decide) hread]
  rfl

theorem parseArrayValue_append {value : Reader Json} (hvalue : Steady value) {v : Json}
    (h : parseArrayValue value s = some (v, r)) (q : List UInt8) :
    parseArrayValue value (s ++ q) = some (v, r ++ q) := by
  obtain ⟨⟨items, rest⟩, hread, heq⟩ := Option.map_eq_some_iff.mp h
  cases heq
  rw [parseArrayValue, parseItems_append (steady_parseItem hvalue) (by decide) hread]
  rfl

/-- **What has been read of a value does not depend on what comes later.** -/
theorem steady_parseValue (left : ℕ) : Steady (parseValue left) := by
  induction left with
  | zero =>
    intro s v r h
    cases h
  | succ left ih =>
    intro s v r h hr q
    rw [parseValue] at h ⊢
    cases hs : skipWhitespaces s with
    | nil =>
      rw [hs] at h
      cases h
    | cons c t =>
      rw [hs] at h
      rw [skipWhitespaces_append (by rw [hs]; exact List.cons_ne_nil c t), hs, List.cons_append]
      dsimp only at h ⊢
      split_ifs at h ⊢
      · exact parseObjectValue_append ih h q
      · exact parseArrayValue_append ih h q
      · exact steady_parseStringValue h hr q
      · exact steady_parseBooleanValue h hr q
      · exact steady_parseNumberValue h hr q
      · exact steady_parseNullValue h hr q

end LoRaGwSv
