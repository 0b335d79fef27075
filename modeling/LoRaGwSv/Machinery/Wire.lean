import Mathlib.Data.List.GetD
import Mathlib.Data.Vector.Basic
import Mathlib.Tactic.Ring

/-!
# Machinery/Wire — bytes written at a cursor, and read back

A `Writer` fills a buffer at a cursor of eight bits.  `Holds` says which bytes it has written since
it started, the cursor not having wrapped; writing appends to them as long as there are fewer than
256 (`Holds.put`).  A `Parser` takes a value off the front of a list of bytes; `many_flatMap` reads
a list of encoded values back.  `byteAt` reads a buffer at a position, whatever has been copied into
it (`byteAt_copy`), and `le32At` a word out of a message (`le32At_flatMap`).  Bit fields are packed
from the lowest bit up (`pack`, `field`).
-/

namespace Wire

variable {α β : Type*} {n : ℕ}

/-! ## Writing

`Holds` says all that is to be known of a writer: the bytes so far, with a cursor that has not
wrapped. -/

/-- Copy bytes into a buffer from position `i` on. -/
def copy (v : Vector UInt8 n) : ℕ → List UInt8 → Vector UInt8 n
  | _, [] => v
  | i, b :: bs => copy (v.setIfInBounds i b) (i + 1) bs

/-- A buffer, and the cursor the next byte is written at. -/
structure Writer (n : ℕ) where
  buffer : Vector UInt8 n
  len : UInt8
deriving DecidableEq, Repr

/-- Bytes are written at once, at the end of those before. -/
def Writer.put (w : Writer n) (bs : List UInt8) : Writer n where
  buffer := copy w.buffer w.len.toNat bs
  len := w.len + UInt8.ofNat bs.length

/-- Write byte after byte, the cursor wrapping in between where it does. -/
def Writer.putEach (w : Writer n) (bs : List UInt8) : Writer n :=
  bs.foldl (fun w b => w.put [b]) w

/-- The writer has written `bs` and nothing else, and its cursor has not wrapped. -/
structure Writer.Holds (w : Writer n) (bs : List UInt8) : Prop where
  len_eq : w.len.toNat = bs.length
  bytes_eq : w.buffer.toList.take bs.length = bs

/-- Bytes that are copied stand behind those in front of them. -/
theorem take_copy (v : Vector UInt8 n) {i : ℕ} {bs : List UInt8} (h : i + bs.length ≤ n) :
    (copy v i bs).toList.take (i + bs.length) = v.toList.take i ++ bs := by
  induction bs generalizing v i with
  | nil => rw [copy, List.length_nil, Nat.add_zero, List.append_nil]
  | cons b bs ih =>
    rw [List.length_cons] at h ⊢
    have hset : (v.setIfInBounds i b).toList = v.toList.set i b := by
      simp [Vector.toList, Vector.setIfInBounds]
    have hi : i < v.toList.length := by
      rw [Vector.length_toList]
      omega
    rw [copy, show i + (bs.length + 1) = i + 1 + bs.length by ring, ih _ (by omega), hset,
      List.set_eq_take_append_cons_drop, if_pos hi, List.take_append,
      List.length_take_of_le hi.le, List.take_of_length_le (by simp)]
    simp

theorem Writer.holds_nil (v : Vector UInt8 n) : Writer.Holds ⟨v, 0⟩ [] := ⟨rfl, rfl⟩

/-- **Writing appends**, as long as the cursor does not wrap. -/
theorem Writer.Holds.put {w : Writer n} {bs : List UInt8} (h : w.Holds bs) (hn : 256 ≤ n)
    (xs : List UInt8) (hlen : bs.length + xs.length < 256) : (w.put xs).Holds (bs ++ xs) where
  len_eq := by
    rw [Writer.put, UInt8.toNat_add, UInt8.toNat_ofNat', h.len_eq, List.length_append]
    omega
  bytes_eq := by
    rw [Writer.put, h.len_eq, List.length_append, take_copy _ (by omega), h.bytes_eq]

/-- **What is put byte by byte is held behind what was**, as long as the length does not wrap. -/
theorem Writer.Holds.putEach {w : Writer n} {bs : List UInt8} (h : w.Holds bs) (hn : 256 ≤ n)
    (xs : List UInt8) (hlen : bs.length + xs.length < 256) :
    (w.putEach xs).Holds (bs ++ xs) := by
  induction xs generalizing w bs with
  | nil => rwa [List.append_nil]
  | cons x xs ih =>
    rw [List.length_cons] at hlen
    have hput := h.put hn [x] (by rw [List.length_singleton]; omega)
    have hrest := ih hput (by rw [List.length_append, List.length_singleton]; omega)
    rwa [List.append_assoc] at hrest

/-- A byte that has been written is overwritten. -/
theorem Writer.Holds.set {w : Writer n} {bs : List UInt8} (h : w.Holds bs) (i : ℕ) (b : UInt8) :
    Writer.Holds { w with buffer := w.buffer.setIfInBounds i b } (bs.set i b) where
  len_eq := h.len_eq.trans (List.length_set ..).symm
  bytes_eq := by
    have hset : (w.buffer.setIfInBounds i b).toList = w.buffer.toList.set i b := by
      simp [Vector.toList, Vector.setIfInBounds]
    rw [hset, List.length_set, List.take_set, h.bytes_eq]

/-! ## Reading

A parser is a partial function that returns the rest of the bytes; parsers of repeated parts follow
a count. -/

/-- Take a value off the front. -/
abbrev Parser (α : Type*) := List UInt8 → Option (α × List UInt8)

/-- Take one byte. -/
def byte : Parser UInt8
  | [] => none
  | b :: rest => some (b, rest)

/-- A 16-bit value, low byte first. -/
def le16 (x : UInt16) : List UInt8 := [UInt8.ofNat (x.toNat % 256), UInt8.ofNat (x.toNat / 256)]

/-- Take a word of two bytes, the low one first. -/
def readLe16 : Parser UInt16
  | lo :: hi :: rest => some (UInt16.ofNat (lo.toNat + 256 * hi.toNat), rest)
  | _ => none

/-- Take so many of one kind, one after the other. -/
def many (p : Parser α) : ℕ → Parser (List α)
  | 0, bs => some ([], bs)
  | k + 1, bs =>
    (p bs).bind fun (x, bs) => (many p k bs).map fun (xs, bs) => (x :: xs, bs)

@[simp] theorem length_le16 (x : UInt16) : (le16 x).length = 2 := rfl

@[simp] theorem byte_cons (b : UInt8) (rest : List UInt8) : byte (b :: rest) = some (b, rest) := rfl

/-- **A word that was written is read back.** -/
@[simp] theorem readLe16_le16 (x : UInt16) (rest : List UInt8) :
    readLe16 (le16 x ++ rest) = some (x, rest) := by
  have hlt := x.toNat_lt
  have hval : x.toNat % 256 + 256 * (x.toNat / 256) = x.toNat := by omega
  simp only [le16, List.cons_append, List.nil_append, readLe16, UInt8.toNat_ofNat']
  rw [Nat.mod_mod, Nat.mod_eq_of_lt (show x.toNat / 256 < 2 ^ 8 by omega), hval,
    UInt16.ofNat_toNat]

/-- **A list of encoded values is read back**, one after the other. -/
theorem many_flatMap {p : Parser α} {enc : β → List UInt8} {dec : β → α} {xs : List β}
    (h : ∀ x ∈ xs, ∀ rest, p (enc x ++ rest) = some (dec x, rest)) (rest : List UInt8) :
    many p xs.length (xs.flatMap enc ++ rest) = some (xs.map dec, rest) := by
  induction xs with
  | nil => rfl
  | cons x xs ih =>
    rw [List.length_cons, many, List.flatMap_cons, List.append_assoc, h x List.mem_cons_self,
      Option.bind_some]
    simp only [ih fun y hy => h y (List.mem_cons_of_mem x hy)]
    rfl

theorem many_byte (bs rest : List UInt8) : many byte bs.length (bs ++ rest) = some (bs, rest) := by
  induction bs with
  | nil => rfl
  | cons b bs ih =>
    rw [List.length_cons, many, List.cons_append, byte_cons, Option.bind_some]
    simp only [ih]
    rfl

/-! ## Reading at a position

Here bytes are read where a cursor stands in a fixed buffer, as handlers do that do not parse from
the front. -/

/-- The byte at position `i`. -/
def byteAt (v : Vector UInt8 n) (i : ℕ) : UInt8 := v.toList.getD i 0

/-- The 16-bit value at position `i`, low byte first. -/
def le16At (v : Vector UInt8 n) (i : ℕ) : UInt16 :=
  UInt16.ofNat ((byteAt v i).toNat + 256 * (byteAt v (i + 1)).toNat)

/-- A word depends on its two bytes only. -/
theorem le16At_congr {v v' : Vector UInt8 n} {i : ℕ} (h : byteAt v i = byteAt v' i)
    (h' : byteAt v (i + 1) = byteAt v' (i + 1)) : le16At v i = le16At v' i := by
  rw [le16At, le16At, h, h']

/-- Writing one byte changes that byte and no other. -/
theorem byteAt_setIfInBounds (v : Vector UInt8 n) {i : ℕ} (hi : i < n) (b : UInt8) (j : ℕ) :
    byteAt (v.setIfInBounds i b) j = if j = i then b else byteAt v j := by
  have hset : (v.setIfInBounds i b).toList = v.toList.set i b := by
    simp [Vector.toList, Vector.setIfInBounds]
  have hlen : i < v.toList.length := by rwa [Vector.length_toList]
  rw [byteAt, byteAt, hset, List.getD_eq_getElem?_getD, List.getD_eq_getElem?_getD,
    List.getElem?_set]
  by_cases h : j = i
  · subst h
    rw [if_pos rfl, if_pos hlen, if_pos rfl, Option.getD_some]
  · rw [if_neg (Ne.symm h), if_neg h]

/-- **Copying replaces the bytes of its range**, and no others. -/
theorem byteAt_copy (v : Vector UInt8 n) {i : ℕ} {bs : List UInt8} (h : i + bs.length ≤ n) (j : ℕ) :
    byteAt (copy v i bs) j
      = if i ≤ j ∧ j < i + bs.length then bs.getD (j - i) 0 else byteAt v j := by
  induction bs generalizing v i with
  | nil => rw [copy, if_neg (by rw [List.length_nil]; omega)]
  | cons b bs ih =>
    rw [List.length_cons] at h ⊢
    rw [copy, ih _ (by omega), byteAt_setIfInBounds v (by omega)]
    by_cases hj : j = i
    · subst hj
      rw [if_neg (by omega), if_pos rfl, if_pos (by omega), Nat.sub_self, List.getD_cons_zero]
    · by_cases hin : i + 1 ≤ j ∧ j < i + 1 + bs.length
      · rw [if_pos hin, if_pos (by omega), show j - i = j - (i + 1) + 1 by omega,
          List.getD_cons_succ]
      · rw [if_neg hin, if_neg hj, if_neg (by omega)]

theorem drop_take_congr {v v' : Vector UInt8 n} {i k : ℕ} (hfit : i + k ≤ n)
    (h : ∀ j < k, byteAt v' (i + j) = byteAt v (i + j)) :
    (v'.toList.drop i).take k = (v.toList.drop i).take k := by
  refine List.ext_getElem (by simp) fun j hj hj' => ?_
  have hjk : j < k := by
    rw [List.length_take] at hj
    omega
  have := h j hjk
  rw [byteAt, byteAt, List.getD_eq_getElem _ _ (by rw [Vector.length_toList]; omega),
    List.getD_eq_getElem _ _ (by rw [Vector.length_toList]; omega)] at this
  rw [List.getElem_take, List.getElem_take, List.getElem_drop, List.getElem_drop, this]

/-! ## Words -/

/-- Words with the same bytes are the same. -/
theorem le16_injective : Function.Injective le16 := by
  intro x y hxy
  have hread : readLe16 (le16 x ++ []) = readLe16 (le16 y ++ []) := by rw [hxy]
  rw [readLe16_le16, readLe16_le16] at hread
  exact (Prod.mk.inj (Option.some.inj hread)).1

/-- The 32-bit value at position `i`, low byte first. -/
def le32At (buff : List UInt8) (i : ℕ) : UInt32 :=
  UInt32.ofNat ((buff.getD i 0).toNat + 2 ^ 8 * (buff.getD (i + 1) 0).toNat
    + 2 ^ 16 * (buff.getD (i + 2) 0).toNat + 2 ^ 24 * (buff.getD (i + 3) 0).toNat)

/-- A 32-bit value, low byte first. -/
def le32 (x : UInt32) : List UInt8 :=
  [UInt8.ofNat x.toNat, UInt8.ofNat (x.toNat / 2 ^ 8), UInt8.ofNat (x.toNat / 2 ^ 16),
    UInt8.ofNat (x.toNat / 2 ^ 24)]

/-- A word of four bytes is read back where it was written. -/
theorem le32At_append {pre : List UInt8} {i : ℕ} (hi : pre.length = i) (x : UInt32)
    (post : List UInt8) : le32At (pre ++ (le32 x ++ post)) i = x := by
  have hget : ∀ k, (pre ++ (le32 x ++ post)).getD (i + k) 0 = (le32 x ++ post).getD k 0 := by
    intro k
    rw [List.getD_append_right _ _ _ _ (by omega), hi, Nat.add_sub_cancel_left]
  have hget0 := hget 0
  have hx := x.toNat_lt
  rw [Nat.add_zero] at hget0
  rw [le32At, hget0, hget, hget, hget]
  refine UInt32.toNat_inj.mp ?_
  simp only [le32, List.cons_append, List.getD_cons_zero, List.getD_cons_succ, UInt8.toNat_ofNat',
    UInt32.toNat_ofNat']
  omega

theorem le32_injective : Function.Injective le32 := by
  intro x y hxy
  have hread : ∀ z, le32At ([] ++ (le32 z ++ [])) 0 = z := fun z => le32At_append rfl z []
  rw [← hread x, hxy, hread y]

/-- Words are read back from behind a header. -/
theorem le32At_flatMap {words : List UInt32} {pre : List UInt8} {i k : ℕ} (hi : pre.length = i)
    (hk : k < words.length) : le32At (pre ++ words.flatMap le32) (i + 4 * k) = words[k] := by
  induction words generalizing pre i k with
  | nil => exact absurd hk (Nat.not_lt_zero k)
  | cons x words ih =>
    rw [List.flatMap_cons]
    cases k with
    | zero => exact le32At_append hi x _
    | succ k =>
      rw [← List.append_assoc, show i + 4 * (k + 1) = i + 4 + 4 * k by omega,
        ih (by rw [List.length_append, hi]; rfl) (Nat.lt_of_succ_lt_succ hk),
        List.getElem_cons_succ]

/-! ## Bit fields

The fields of a struct are packed from the lowest bit up. -/

/-- Values packed into fields of the given widths, from the lowest bit up. -/
def pack : List (ℕ × ℕ) → ℕ
  | [] => 0
  | (v, w) :: fs => v % 2 ^ w + 2 ^ w * pack fs

/-- The field of width `w` at bit `pos`. -/
def field (x pos w : ℕ) : ℕ := x / 2 ^ pos % 2 ^ w

/-- Fields that are packed take no more bits than their widths. -/
theorem pack_lt (fs : List (ℕ × ℕ)) : pack fs < 2 ^ (fs.map Prod.snd).sum := by
  induction fs with
  | nil => exact Nat.one_pos
  | cons f fs ih =>
    obtain ⟨v, w⟩ := f
    rw [pack, List.map_cons, List.sum_cons, pow_add]
    have hv := Nat.mod_lt v (Nat.two_pow_pos w)
    calc v % 2 ^ w + 2 ^ w * pack fs < 2 ^ w * (pack fs + 1) := by
          rw [Nat.mul_add_one]
          omega
      _ ≤ 2 ^ w * 2 ^ (fs.map Prod.snd).sum := Nat.mul_le_mul_left _ ih

/-- The first field is found at the low end. -/
theorem field_pack_head (v w : ℕ) (fs : List (ℕ × ℕ)) (h : v < 2 ^ w) :
    field (pack ((v, w) :: fs)) 0 w = v := by
  rw [field, pack, pow_zero, Nat.div_one, Nat.add_mul_mod_self_left, Nat.mod_mod,
    Nat.mod_eq_of_lt h]

/-- The other fields are found behind the first. -/
theorem field_pack_tail (v w pos w' : ℕ) (fs : List (ℕ × ℕ)) :
    field (pack ((v, w) :: fs)) (w + pos) w' = field (pack fs) pos w' := by
  rw [field, field, pack, pow_add, ← Nat.div_div_eq_div_mul,
    Nat.add_mul_div_left _ _ (Nat.two_pow_pos w),
    Nat.div_eq_of_lt (Nat.mod_lt v (Nat.two_pow_pos w)), Nat.zero_add]

end Wire
