import Mathlib.Data.Nat.Notation
import Mathlib.Tactic.NormNum
import LoRaGwSv.Machinery.Text

/-!
# Shared/Base64 — bytes as text and back (`base64.c`)

Three bytes are four characters; of the last block there may be one byte or two, and padding makes
up for the rest.  The bits that are put together with `|` are disjoint, so they are added here.
`none` as the outer result says that the process has ended, which a character that is not of the
alphabet makes it do.
-/

namespace LoRaGwSv

/-- `code_to_char`. -/
def codeToChar (x : ℕ) : UInt8 :=
  if x ≤ 25 then UInt8.ofNat (65 + x)
  else if x ≤ 51 then UInt8.ofNat (97 + (x - 26))
  else if x ≤ 61 then UInt8.ofNat (48 + (x - 52))
  else if x = 62 then 43
  else 47

/-- `char_to_code`; a character that is not of the alphabet ends the process. -/
def charToCode (x : UInt8) : Option ℕ :=
  if 65 ≤ x ∧ x ≤ 90 then some (x.toNat - 65)
  else if 97 ≤ x ∧ x ≤ 122 then some (x.toNat - 97 + 26)
  else if 48 ≤ x ∧ x ≤ 57 then some (x.toNat - 48 + 52)
  else if x = 43 then some 62
  else if x = 47 then some 63
  else none

/-- The characters of a block of 24 bits, as many as it has. -/
def blockChars (b n : ℕ) : List UInt8 :=
  [codeToChar (b / 262144 % 64), codeToChar (b / 4096 % 64), codeToChar (b / 64 % 64),
    codeToChar (b % 64)].take n

/-- The blocks of `bin_to_b64_nopad`. -/
def encode : List UInt8 → List UInt8
  | [] => []
  | [x] => blockChars (x.toNat * 65536) 2
  | [x, y] => blockChars (x.toNat * 65536 + y.toNat * 256) 3
  | x :: y :: z :: input =>
    blockChars (x.toNat * 65536 + y.toNat * 256 + z.toNat) 4 ++ encode input

/-- `bin_to_b64_nopad`. -/
def binToB64Nopad (input : List UInt8) (maxLen : ℕ) : Option (List UInt8) :=
  if input = [] then some []
  else if maxLen < (encode input).length + 1 then none
  else some (encode input)

/-- `bin_to_b64`: the last block is filled up with one or two signs of padding. -/
def binToB64 (input : List UInt8) (maxLen : ℕ) : Option (List UInt8) :=
  (binToB64Nopad input maxLen).bind fun out =>
    match out.length % 4 with
    | 0 => some out
    | 2 => if out.length + 2 + 1 ≤ maxLen then some (out ++ [61, 61]) else none
    | 3 => if out.length + 1 + 1 ≤ maxLen then some (out ++ [61]) else none
    | _ => none

/-- The bytes of a block of 24 bits, as many as it has. -/
def blockBytes (b n : ℕ) : List UInt8 :=
  [UInt8.ofNat (b / 65536 % 256), UInt8.ofNat (b / 256 % 256), UInt8.ofNat (b % 256)].take n

/-- The blocks of `b64_to_bin_nopad`. -/
def decode : List UInt8 → Option (List UInt8)
  | [] => some []
  | [_] => some []
  | [p, q] => do
    return blockBytes ((← charToCode p) * 262144 + (← charToCode q) * 4096) 1
  | [p, q, r] => do
    return blockBytes
      ((← charToCode p) * 262144 + (← charToCode q) * 4096 + (← charToCode r) * 64) 2
  | p :: q :: r :: s :: input => do
    let block := (← charToCode p) * 262144 + (← charToCode q) * 4096 + (← charToCode r) * 64 +
      (← charToCode s)
    return blockBytes block 3 ++ (← decode input)

/-- `b64_to_bin_nopad`. -/
def b64ToBinNopad (input : List UInt8) (maxLen : ℕ) : Option (Option (List UInt8)) :=
  if input.length % 4 = 1 then some none
  else if maxLen < 3 * (input.length / 4) + (input.length % 4 - 1) then some none
  else (decode input).map some

/-- `b64_to_bin`: one or two signs of padding at the end are taken away. -/
def b64ToBin (input : List UInt8) (maxLen : ℕ) : Option (Option (List UInt8)) :=
  if input.length % 4 = 0 ∧ 4 ≤ input.length then
    if input[input.length - 2]? = some 61 then b64ToBinNopad (input.take (input.length - 2)) maxLen
    else if input[input.length - 1]? = some 61 then
      b64ToBinNopad (input.take (input.length - 1)) maxLen
    else b64ToBinNopad input maxLen
  else b64ToBinNopad input maxLen

/-! ## The round trip

The blocks are taken one by one; the last one may be short. -/

variable {s : List UInt8} {c : UInt8} {n : ℕ}

/-- The alphabet has each character once. -/
theorem charToCode_codeToChar : ∀ x < 64, charToCode (codeToChar x) = some x := by decide

theorem charToCode_sextet (b : ℕ) : charToCode (codeToChar (b % 64)) = some (b % 64) :=
  charToCode_codeToChar _ (Nat.mod_lt b (by decide))

/-- The number of a byte gives the byte back. -/
theorem ofNat_mod (x : UInt8) {b : ℕ} (h : b = x.toNat) : UInt8.ofNat b = x := by
  rw [h, UInt8.ofNat_toNat]

/-- **What has been encoded is decoded again.** -/
theorem decode_encode (s : List UInt8) : decode (encode s) = some s := by
  fun_induction encode s with
  | case1 => rfl
  | case2 x =>
    have hx := x.toNat_lt
    simp only [blockChars, List.take_succ_cons, List.take_zero, decode, charToCode_sextet,
      Option.pure_def, Option.bind_eq_bind, Option.bind_some, blockBytes]
    rw [ofNat_mod x (by omega)]
  | case3 x y =>
    have hx := x.toNat_lt
    have hy := y.toNat_lt
    simp only [blockChars, List.take_succ_cons, List.take_zero, decode, charToCode_sextet,
      Option.pure_def, Option.bind_eq_bind, Option.bind_some, blockBytes]
    rw [ofNat_mod x (by omega), ofNat_mod y (by omega)]
  | case4 x y z s ih =>
    have hx := x.toNat_lt
    have hy := y.toNat_lt
    have hz := z.toNat_lt
    simp only [blockChars, List.take_succ_cons, List.take_zero, List.cons_append, List.nil_append,
      decode, charToCode_sextet, Option.pure_def, Option.bind_eq_bind, Option.bind_some, ih,
      blockBytes]
    rw [ofNat_mod x (by omega), ofNat_mod y (by omega), ofNat_mod z (by omega)]

/-- The characters of a block are of the alphabet. -/
theorem charToCode_of_mem {b : ℕ} (h : c ∈ blockChars b n) : (charToCode c).isSome := by
  have h := List.mem_of_mem_take h
  simp only [List.mem_cons, List.not_mem_nil, or_false] at h
  obtain rfl | rfl | rfl | rfl := h <;> rw [charToCode_sextet] <;> rfl

/-- Only characters of the alphabet are put out. -/
theorem charToCode_of_mem_encode (h : c ∈ encode s) : (charToCode c).isSome := by
  fun_induction encode s with
  | case1 => cases h
  | case2 x => exact charToCode_of_mem h
  | case3 x y => exact charToCode_of_mem h
  | case4 x y z s ih => exact (List.mem_append.mp h).elim charToCode_of_mem ih

/-- A byte takes four thirds of a character, rounded up. -/
theorem length_encode (s : List UInt8) : (encode s).length = (4 * s.length + 2) / 3 := by
  fun_induction encode s with
  | case1 => rfl
  | case2 x => simp [blockChars]
  | case3 x y => simp [blockChars]
  | case4 x y z s ih =>
    simp only [blockChars, List.take_succ_cons, List.take_zero, List.cons_append, List.nil_append,
      List.length_cons, ih]
    omega

/-- No character of a block is a sign of padding. -/
theorem ne_pad_of_mem_encode (h : c ∈ encode s) : c ≠ 61 := by
  rintro rfl
  exact absurd (charToCode_of_mem_encode h) (by decide)

/-- The padding that makes up for the rest of the last block. -/
def padding (n : ℕ) : List UInt8 := List.replicate ((3 - n % 3) % 3) 61

/-- The whole text. -/
def base64 (s : List UInt8) : List UInt8 := encode s ++ padding s.length

/-- With the padding the length is a multiple of four. -/
theorem length_base64 (s : List UInt8) : (base64 s).length = 4 * ((s.length + 2) / 3) := by
  rw [base64, List.length_append, length_encode, padding, List.length_replicate]
  omega

/-- The text is printable, and has neither quotes nor escapes. -/
theorem printable_base64 (h : c ∈ base64 s) : 32 ≤ c ∧ c ≠ 34 ∧ c ≠ 92 := by
  obtain h | h := List.mem_append.mp h
  · have hcode := charToCode_of_mem_encode h
    by_contra hc
    have hnone : charToCode c = none := by
      simp only [charToCode]
      grind
    rw [hnone] at hcode
    cases hcode
  · rw [List.eq_of_mem_replicate h]
    decide

/-- If there is room the text is that of the standard. -/
theorem binToB64_eq {maxLen : ℕ} (h : 4 * ((s.length + 2) / 3) < maxLen) :
    binToB64 s maxLen = some (base64 s) := by
  have hlen := length_encode s
  rw [binToB64, binToB64Nopad, base64]
  by_cases hs : s = []
  · subst hs
    rfl
  · rw [if_neg hs, if_neg (by omega), Option.bind_some, padding]
    have hcases : s.length % 3 = 0 ∨ s.length % 3 = 1 ∨ s.length % 3 = 2 := by omega
    obtain hmod | hmod | hmod := hcases
    · rw [show (encode s).length % 4 = 0 by omega, hmod]
      simp
    · rw [show (encode s).length % 4 = 2 by omega, hmod]
      exact if_pos (by omega)
    · rw [show (encode s).length % 4 = 3 by omega, hmod]
      exact if_pos (by omega)

/-- **Without padding the bytes are read back.** -/
theorem b64ToBinNopad_encode {maxLen : ℕ} (h : s.length ≤ maxLen) :
    b64ToBinNopad (encode s) maxLen = some (some s) := by
  have hlen := length_encode s
  rw [b64ToBinNopad, if_neg (by omega), if_neg (by omega), decode_encode]
  rfl

/-- **Padded text is decoded to the bytes it comes from.** -/
theorem b64ToBin_encode {maxLen : ℕ} (h : s.length ≤ maxLen) :
    b64ToBin (base64 s) maxLen = some (some s) := by
  have hlen := length_encode s
  have hread := b64ToBinNopad_encode h
  rw [b64ToBin, base64]
  by_cases hs : s = []
  · subst hs
    exact hread
  have hpos : 0 < s.length := List.length_pos_iff.mpr hs
  have hlast : ∀ k < (encode s).length, (encode s)[k]? ≠ some 61 := fun k _ heq =>
    ne_pad_of_mem_encode (List.mem_of_getElem? heq) rfl
  have hcases : s.length % 3 = 0 ∨ s.length % 3 = 1 ∨ s.length % 3 = 2 := by omega
  obtain hmod | hmod | hmod := hcases
  · rw [padding, hmod]
    simp only [Nat.sub_zero, Nat.mod_self, List.replicate_zero, List.append_nil]
    rw [if_pos (by omega), if_neg (hlast _ (by omega)), if_neg (hlast _ (by omega)), hread]
  · have hpad : padding s.length = [61, 61] := by rw [padding, hmod]; rfl
    have hlen' : (encode s ++ [61, 61]).length = (encode s).length + 2 := by simp
    rw [hpad, if_pos (by omega), hlen', Nat.add_sub_cancel,
      if_pos (by rw [List.getElem?_append_right le_rfl]; simp), List.take_left, hread]
  · have hpad : padding s.length = [61] := by rw [padding, hmod]; rfl
    have hlen' : (encode s ++ [61]).length = (encode s).length + 1 := by simp
    rw [hpad, if_pos (by omega), hlen',
      show (encode s).length + 1 - 2 = (encode s).length - 1 by omega, Nat.add_sub_cancel,
      if_neg (by
        rw [List.getElem?_append_left (by omega)]
        exact hlast _ (by omega)),
      if_pos (by rw [List.getElem?_append_right le_rfl]; simp), List.take_left, hread]

/-! ## How many bytes there are -/

/-- A block has as many bytes as it is asked for. -/
theorem length_blockBytes (b : ℕ) {n : ℕ} (hn : n ≤ 3) : (blockBytes b n).length = n := by
  simp only [blockBytes, List.length_take, List.length_cons, List.length_nil]
  omega

/-- How many bytes there are is told by the number of characters. -/
theorem length_decode {out : List UInt8} (h : decode s = some out) :
    out.length = 3 * (s.length / 4) + (s.length % 4 - 1) := by
  fun_induction decode s generalizing out with
  | case1 => simp [← Option.some.inj h]
  | case2 => simp [← Option.some.inj h]
  | case3 p q =>
    obtain ⟨x, -, h⟩ := Option.bind_eq_some_iff.mp h
    obtain ⟨y, -, h⟩ := Option.bind_eq_some_iff.mp h
    rw [← Option.some.inj h, length_blockBytes _ (by decide)]
    simp
  | case4 p q r =>
    obtain ⟨x, -, h⟩ := Option.bind_eq_some_iff.mp h
    obtain ⟨y, -, h⟩ := Option.bind_eq_some_iff.mp h
    obtain ⟨z, -, h⟩ := Option.bind_eq_some_iff.mp h
    rw [← Option.some.inj h, length_blockBytes _ (by decide)]
    simp
  | case5 p q r t input ih =>
    obtain ⟨x, -, h⟩ := Option.bind_eq_some_iff.mp h
    obtain ⟨y, -, h⟩ := Option.bind_eq_some_iff.mp h
    obtain ⟨z, -, h⟩ := Option.bind_eq_some_iff.mp h
    obtain ⟨w, -, h⟩ := Option.bind_eq_some_iff.mp h
    obtain ⟨rest, hrest, h⟩ := Option.bind_eq_some_iff.mp h
    rw [← Option.some.inj h, List.length_append, length_blockBytes _ (by decide), ih hrest]
    simp only [List.length_cons]
    omega

/-- **Nothing is written past the buffer.** -/
theorem length_b64ToBin_le {data : List UInt8} {maxLen : ℕ}
    (h : b64ToBin s maxLen = some (some data)) : data.length ≤ maxLen := by
  have hnopad : ∀ input, b64ToBinNopad input maxLen = some (some data) → data.length ≤ maxLen := by
    intro input h
    rw [b64ToBinNopad] at h
    split at h
    case isTrue => exact absurd (Option.some.inj h) (by simp)
    case isFalse =>
      split at h
      case isTrue => exact absurd (Option.some.inj h) (by simp)
      case isFalse hfits =>
        obtain ⟨out, hout, heq⟩ := Option.map_eq_some_iff.mp h
        have hlen := length_decode hout
        rw [Option.some.inj heq] at hlen
        omega
  rw [b64ToBin] at h
  split_ifs at h
  all_goals exact hnopad _ h

end LoRaGwSv
