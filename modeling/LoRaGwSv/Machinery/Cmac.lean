import Mathlib.Data.List.GetD
import Mathlib.Data.List.Perm.Subperm
import Mathlib.Data.Nat.Digits.Lemmas
import Mathlib.Tactic.Ring

/-!
# Machinery/Cmac — the message authentication code of RFC 4493

A block cipher under a fixed key is any map `e` of blocks of 16 bytes.  `cmac e M` is the code of
the message `M`: the subkeys are the image of the zero block doubled once and twice (`double`), a
last block that is not full is padded, and the blocks are chained through `e`.  Read big-endian, a
block is a number (`beNat`), and doubling it shifts its bytes.

The code covers what it is given: **a message of several blocks and a single block other than its
first are told apart by some `e`** (`exists_cmac_ne`).
-/

namespace Cmac

variable {bs M p : List UInt8} {i : ℕ}

/-! ## Bytes as a number -/

/-- The number the bytes write, the high byte first. -/
def beNat (bs : List UInt8) : ℕ := Nat.ofDigits 256 (bs.reverse.map UInt8.toNat)

/-- The low `len` bytes of a number, the high byte first. -/
def beBytes : ℕ → ℕ → List UInt8
  | 0, _ => []
  | len + 1, n => UInt8.ofNat (n / 256 ^ len) :: beBytes len n

@[simp] theorem beNat_nil : beNat [] = 0 := rfl

theorem beNat_cons (b : UInt8) (bs : List UInt8) :
    beNat (b :: bs) = b.toNat * 256 ^ bs.length + beNat bs := by
  rw [beNat, List.reverse_cons, List.map_append, Nat.ofDigits_append, List.map_singleton,
    Nat.ofDigits_singleton, List.length_map, List.length_reverse, beNat]
  ring

/-- Bytes stay below the power of 256 that their number tells. -/
theorem beNat_lt (bs : List UInt8) : beNat bs < 256 ^ bs.length := by
  have h := @Nat.ofDigits_lt_base_pow_length 256 (bs.reverse.map UInt8.toNat) (by decide)
    (by simpa using fun b _ => b.toNat_lt)
  rwa [List.length_map, List.length_reverse] at h

/-- **The bytes of a number are the bytes that wrote it**, whatever was carried out of them. -/
theorem beBytes_beNat (bs : List UInt8) (carry : ℕ) :
    beBytes bs.length (beNat bs + carry * 256 ^ bs.length) = bs := by
  induction bs generalizing carry with
  | nil => rfl
  | cons b bs ih =>
    have hsplit : beNat (b :: bs) + carry * 256 ^ (bs.length + 1)
        = beNat bs + (b.toNat + carry * 256) * 256 ^ bs.length := by
      rw [beNat_cons]
      ring
    rw [List.length_cons, hsplit, beBytes, ih, Nat.add_mul_div_right _ _ (by positivity),
      Nat.div_eq_of_lt (beNat_lt bs), Nat.zero_add]
    congr 1
    refine UInt8.toNat_inj.mp ?_
    have hb := b.toNat_lt
    rw [UInt8.toNat_ofNat']
    omega

/-! ## Blocks -/

/-- `const_Zero`. -/
def zero : List UInt8 := List.replicate 16 0

/-- `const_Rb`. -/
def rb : List UInt8 := List.replicate 15 0 ++ [0x87]

/-- Byte by byte. -/
def xor (a b : List UInt8) : List UInt8 := List.zipWith (· ^^^ ·) a b

/-- The most significant bit. -/
def msb (bs : List UInt8) : Prop := 2 ^ (8 * bs.length - 1) ≤ beNat bs

instance decidableMsb (bs : List UInt8) : Decidable (msb bs) := inferInstanceAs (Decidable (_ ≤ _))

/-- Shift by one bit; the highest is lost. -/
def shiftLeft (bs : List UInt8) : List UInt8 := beBytes bs.length (2 * beNat bs)

/-- The doubling of RFC 4493, in the field of 128 bits. -/
def double (bs : List UInt8) : List UInt8 := if msb bs then xor (shiftLeft bs) rb else shiftLeft bs

/-- The block of a message at index `i`, cut off at the end of the message. -/
def block (M : List UInt8) (i : ℕ) : List UInt8 := (M.drop (16 * i)).take 16

/-- A one bit, and zeros. -/
def padding (bs : List UInt8) : List UInt8 := bs ++ 0x80 :: List.replicate (15 - bs.length) 0

/-! ## The code

The blocks are chained through the cipher.  Only the last one is treated in another way, by whether
it is complete. -/

/-- `n`: the empty message is one block too. -/
def blockCount (len : ℕ) : ℕ := if len = 0 then 1 else (len + 15) / 16

/-- `flag`: the last block is complete. -/
def Complete (len : ℕ) : Prop := len ≠ 0 ∧ len % 16 = 0

instance decidableComplete (len : ℕ) : Decidable (Complete len) :=
  inferInstanceAs (Decidable (_ ∧ _))

/-- The key for a last block that is complete. -/
def keyOne (e : List UInt8 → List UInt8) : List UInt8 := double (e zero)

/-- The key for one that is not. -/
def keyTwo (e : List UInt8 → List UInt8) : List UInt8 := double (keyOne e)

/-- The last block with its key, padded if it is not complete. -/
def lastBlock (e : List UInt8 → List UInt8) (M : List UInt8) : List UInt8 :=
  if Complete M.length then xor (block M (blockCount M.length - 1)) (keyOne e)
  else xor (padding (block M (blockCount M.length - 1))) (keyTwo e)

/-- `X`, after the first `i` blocks. -/
def chain (e : List UInt8 → List UInt8) (M : List UInt8) : ℕ → List UInt8
  | 0 => zero
  | i + 1 => e (xor (chain e M i) (block M i))

/-- `T`. -/
def cmac (e : List UInt8 → List UInt8) (M : List UInt8) : List UInt8 :=
  e (xor (lastBlock e M) (chain e M (blockCount M.length - 1)))

/-! ## Exclusive or -/

theorem length_xor {a b : List UInt8} (ha : a.length = 16) (hb : b.length = 16) :
    (xor a b).length = 16 := by
  rw [xor, List.length_zipWith, ha, hb, Nat.min_self]

theorem xor_comm (a b : List UInt8) : xor a b = xor b a :=
  List.zipWith_comm_of_comm (fun x y => UInt8.xor_comm x y)

theorem xor_zero {a : List UInt8} (ha : a.length = 16) : xor a zero = a := by
  refine List.ext_getElem (by rw [length_xor ha rfl, ha]) fun j hj hj' => ?_
  simp only [xor, zero, List.getElem_zipWith, List.getElem_replicate, UInt8.xor_zero]

/-- Two blocks cancel only if they agree: each is what the other leaves of their sum. -/
theorem xor_eq_iff {a b c : List UInt8} (ha : a.length = 16) (hb : b.length = 16)
    (hc : c.length = 16) : xor a b = c ↔ b = xor a c := by
  constructor
  · rintro rfl
    refine List.ext_getElem (by rw [length_xor ha (length_xor ha hb), hb]) fun j hj hj' => ?_
    simp only [xor, List.getElem_zipWith, ← UInt8.xor_assoc, UInt8.xor_self, UInt8.zero_xor]
  · rintro rfl
    refine List.ext_getElem (by rw [length_xor ha (length_xor ha hc), hc]) fun j hj hj' => ?_
    simp only [xor, List.getElem_zipWith, ← UInt8.xor_assoc, UInt8.xor_self, UInt8.zero_xor]

theorem double_zero : double zero = zero := by decide

/-- The subkeys of the examples in RFC 4493. -/
example :
    double [0x7d, 0xf7, 0x6b, 0x0c, 0x1a, 0xb8, 0x99, 0xb3, 0x3e, 0x42, 0xf0, 0x47, 0xb9, 0x1b,
      0x54, 0x6f] = [0xfb, 0xee, 0xd6, 0x18, 0x35, 0x71, 0x33, 0x66, 0x7c, 0x85, 0xe0, 0x8f, 0x72,
      0x36, 0xa8, 0xde] ∧
    double [0xfb, 0xee, 0xd6, 0x18, 0x35, 0x71, 0x33, 0x66, 0x7c, 0x85, 0xe0, 0x8f, 0x72, 0x36,
      0xa8, 0xde] = [0xf7, 0xdd, 0xac, 0x30, 0x6a, 0xe2, 0x66, 0xcc, 0xf9, 0x0b, 0xc1, 0x1e, 0xe4,
      0x6d, 0x51, 0x3b] := by decide

/-! ## The last block -/

/-- A block that is complete has 16 bytes. -/
theorem length_block (h : 16 * (i + 1) ≤ M.length) : (block M i).length = 16 := by
  rw [block, List.length_take, List.length_drop]
  omega

theorem length_padding (h : bs.length < 16) : (padding bs).length = 16 := by
  rw [padding, List.length_append, List.length_cons, List.length_replicate]
  omega

/-- The bytes of a block are those of the message from there on. -/
theorem getD_block (M : List UInt8) (i : ℕ) {k : ℕ} (hk : k < 16) :
    (block M i).getD k 0 = M.getD (16 * i + k) 0 := by
  rw [block, List.getD_eq_getElem?_getD, List.getElem?_take_of_lt hk, List.getElem?_drop,
    ← List.getD_eq_getElem?_getD]

/-- A padded block: its bytes, the one bit, and zeros. -/
theorem getD_padding (bs : List UInt8) {k : ℕ} (hk : k < 16) :
    (padding bs).getD k 0
      = if k < bs.length then bs.getD k 0 else if k = bs.length then 0x80 else 0 := by
  rw [padding]
  split_ifs with hlt heq
  · exact List.getD_append _ _ _ _ hlt
  · rw [List.getD_append_right _ _ _ _ heq.ge, heq, Nat.sub_self, List.getD_cons_zero]
  · have hbehind : k - bs.length = k - bs.length - 1 + 1 := by omega
    rw [List.getD_append_right _ _ _ _ (not_lt.mp hlt), hbehind, List.getD_cons_succ,
      List.getD_eq_getElem _ _ (by rw [List.length_replicate]; omega), List.getElem_replicate]

/-- `M_n`, padded where it is not complete. -/
def padded (M : List UInt8) : List UInt8 :=
  if Complete M.length then block M (blockCount M.length - 1)
  else padding (block M (blockCount M.length - 1))

/-- The last block has 16 bytes in any case. -/
theorem length_padded (M : List UInt8) : (padded M).length = 16 := by
  rw [padded, blockCount]
  split_ifs with hcomplete hempty
  · exact absurd hempty hcomplete.1
  · obtain ⟨hne, hmod⟩ := hcomplete
    exact length_block (by omega)
  all_goals
    refine length_padding ?_
    rw [block, List.length_take, List.length_drop]
    rw [Complete] at hcomplete
    omega

/-- An `e` that keeps the zero block has zero subkeys. -/
theorem lastBlock_of_zero {e : List UInt8 → List UInt8} (he : e zero = zero) (M : List UInt8) :
    lastBlock e M = padded M := by
  have hone : keyOne e = zero := by rw [keyOne, he, double_zero]
  have htwo : keyTwo e = zero := by rw [keyTwo, hone, double_zero]
  have hlen := length_padded M
  rw [lastBlock, hone, htwo, padded]
  rw [padded] at hlen
  split_ifs at hlen ⊢ with hcomplete
  · exact xor_zero hlen
  · exact xor_zero hlen

/-- The code of less than a block, under an `e` that keeps the zero block. -/
theorem cmac_of_short {e : List UInt8 → List UInt8} (he : e zero = zero) (hM : M.length < 16) :
    cmac e M = e (padding M) := by
  have hcount : blockCount M.length - 1 = 0 := by
    rw [blockCount]
    split_ifs <;> omega
  have hincomplete : ¬Complete M.length := fun h => h.1 (by have := h.2; omega)
  have hblock : block M 0 = M := List.take_of_length_le hM.le
  rw [cmac, lastBlock_of_zero he, padded, if_neg hincomplete, hcount, chain, hblock,
    xor_zero (length_padding hM)]

/-! ## What the code covers

To see that two messages have different codes a cipher may be chosen.  One that has a fixed answer
for a block that does not come up otherwise tells them apart. -/

/-- There are more bytes than a short list has. -/
theorem exists_byte_notMem {l : List UInt8} (h : l.length < 256) : ∃ b, b ∉ l := by
  by_contra hall
  push Not at hall
  have hnodup : ((List.range 256).map UInt8.ofNat).Nodup := by
    refine List.Nodup.map_on (fun x hx y hy hxy => ?_) List.nodup_range
    have := UInt8.toNat_inj.mpr hxy
    rw [List.mem_range] at hx hy
    rw [UInt8.toNat_ofNat', UInt8.toNat_ofNat'] at this
    omega
  have hle := (hnodup.subperm fun b _ => hall b).length_le
  rw [List.length_map, List.length_range] at hle
  omega

/-- The cipher that answers the block `p` with `z`, and all others but the zero block with `c`. -/
def probe (p z c : List UInt8) (b : List UInt8) : List UInt8 :=
  if b = zero then zero else if b = p then z else c

/-- A block that begins with a byte that no block of the message begins with is none of them. -/
theorem block_ne {b : UInt8} {rest : List UInt8} (hshort : M.length ≤ 16 * 250) (hb : b ≠ 0)
    (h : ∀ j < 250, M.getD (16 * j) 0 ≠ b) (i : ℕ) : block M i ≠ b :: rest := by
  intro heq
  have hget := getD_block M i (show 0 < 16 by decide)
  rw [heq, List.getD_cons_zero, Nat.add_zero] at hget
  rcases Nat.lt_or_ge i 250 with hi | hi
  · exact h i hi hget.symm
  · rw [List.getD_eq_default _ _ (by omega)] at hget
    exact hb hget

/-- The probe leaves the zero block alone. -/
theorem probe_zero (p z c : List UInt8) : probe p z c zero = zero := if_pos rfl

/-- **The chain under a probe goes between its two answers**, if it neither starts at `p` nor meets
an answer as a block. -/
theorem chain_probe {z c : List UInt8} (hz : z.length = 16) (hc : c.length = 16)
    (h0 : block M 0 ≠ zero) (hp : block M 0 ≠ p) (hlen : 16 * (i + 1) ≤ M.length)
    (havoid : ∀ j, block M j ≠ z ∧ block M j ≠ c) :
    chain (probe p z c) M (i + 1) = z ∨ chain (probe p z c) M (i + 1) = c := by
  induction i with
  | zero =>
    right
    rw [chain, chain, xor_comm, xor_zero (length_block hlen), probe, if_neg h0, if_neg hp]
  | succ i ih =>
    have hmet := havoid (i + 1)
    have hblock := length_block hlen
    have hX : (chain (probe p z c) M (i + 1)).length = 16
        ∧ block M (i + 1) ≠ chain (probe p z c) M (i + 1) := by
      rcases ih (by omega) with hX | hX
      · rw [hX]
        exact ⟨hz, hmet.1⟩
      · rw [hX]
        exact ⟨hc, hmet.2⟩
    have hne : xor (chain (probe p z c) M (i + 1)) (block M (i + 1)) ≠ zero := by
      rw [Ne, xor_eq_iff hX.1 hblock rfl, xor_zero hX.1]
      exact hX.2
    rw [chain, probe, if_neg hne]
    split_ifs
    · exact Or.inl rfl
    · exact Or.inr rfl

/-- So the code of the message is not the answer to `p`. -/
theorem cmac_probe {z c : List UInt8} (hM : 16 < M.length) (hp : p.length = 16)
    (hz : z.length = 16) (hc : c.length = 16) (h0 : block M 0 ≠ zero) (hne : block M 0 ≠ p)
    (havoid : ∀ j, block M j ≠ z ∧ block M j ≠ c)
    (hlast : xor (padded M) p ≠ z ∧ xor (padded M) p ≠ c) :
    cmac (probe p z c) M = zero ∨ cmac (probe p z c) M = c := by
  have hcount : blockCount M.length = (M.length + 15) / 16 := if_neg (by omega)
  have hX := @chain_probe M p (blockCount M.length - 2) z c hz hc h0 hne (by omega) havoid
  rw [show blockCount M.length - 2 + 1 = blockCount M.length - 1 by omega] at hX
  have hY : xor (padded M) (chain (probe p z c) M (blockCount M.length - 1)) ≠ p := by
    rcases hX with hX | hX
    · rw [hX, Ne, xor_eq_iff (length_padded M) hz hp]
      exact hlast.1.symm
    · rw [hX, Ne, xor_eq_iff (length_padded M) hc hp]
      exact hlast.2.symm
  rw [cmac, lastBlock_of_zero (probe_zero p z c), probe, if_neg hY]
  split_ifs
  · exact Or.inl rfl
  · exact Or.inr rfl

/-- Two first bytes that are new to a short message and to the block `q`. -/
theorem exists_new_heads (hshort : M.length ≤ 16 * 250) (q : List UInt8) :
    ∃ z0 c0 : UInt8, z0 ≠ 0 ∧ c0 ≠ z0 ∧
      ∀ b ∈ [z0, c0], ∀ rest, q ≠ b :: rest ∧ ∀ j, block M j ≠ b :: rest := by
  let heads := 0 :: q.getD 0 0 :: (List.range 250).map fun j => M.getD (16 * j) 0
  have hheads : heads.length = 252 := by
    simp only [heads, List.length_cons, List.length_map, List.length_range]
  have hnew : ∀ b, b ∉ heads → ∀ rest, q ≠ b :: rest ∧ ∀ j, block M j ≠ b :: rest := by
    intro b hb rest
    rw [List.mem_cons, List.mem_cons, not_or, not_or] at hb
    obtain ⟨hb0, hbq, hbM⟩ := hb
    refine ⟨fun heq => hbq (by rw [heq, List.getD_cons_zero]), block_ne hshort hb0 ?_⟩
    exact fun j hj heq => hbM (List.mem_map.mpr ⟨j, List.mem_range.mpr hj, heq⟩)
  obtain ⟨z0, hz0⟩ := exists_byte_notMem (show heads.length < 256 by omega)
  obtain ⟨c0, hc0⟩ := exists_byte_notMem (show (z0 :: heads).length < 256 by
    rw [List.length_cons]
    omega)
  rw [List.mem_cons, not_or] at hc0
  refine ⟨z0, c0, fun h => hz0 (h ▸ List.mem_cons_self), hc0.1, ?_⟩
  rw [List.forall_mem_cons, List.forall_mem_singleton]
  exact ⟨hnew z0 hz0, hnew c0 hc0.2⟩

/-- **A message of several blocks is told apart** by some `e` from each block that is not its
first. -/
theorem exists_cmac_ne (hM : 16 < M.length) (hshort : M.length ≤ 16 * 250) (hp : p.length = 16)
    (hp0 : p ≠ zero) (h0 : block M 0 ≠ zero) (hne : block M 0 ≠ p) :
    ∃ e : List UInt8 → List UInt8, (∀ b, (e b).length = 16) ∧ e zero = zero ∧
      (e p).take 4 ≠ (cmac e M).take 4 := by
  obtain ⟨z0, c0, hz00, hc0, hnew⟩ := exists_new_heads hshort (xor (padded M) p)
  rw [List.forall_mem_cons, List.forall_mem_singleton] at hnew
  let z := z0 :: List.replicate 15 0
  let c := c0 :: List.replicate 15 0
  have hz : z.length = 16 := by simp only [z, List.length_cons, List.length_replicate]
  have hc : c.length = 16 := by simp only [c, List.length_cons, List.length_replicate]
  refine ⟨probe p z c, fun b => ?_, probe_zero p z c, ?_⟩
  · rw [probe]
    split_ifs
    exacts [rfl, hz, hc]
  · intro heq
    rw [show probe p z c p = z by rw [probe, if_neg hp0, if_pos rfl]] at heq
    rcases cmac_probe hM hp hz hc h0 hne (fun j => ⟨(hnew.1 _).2 j, (hnew.2 _).2 j⟩)
      ⟨(hnew.1 _).1, (hnew.2 _).1⟩ with hT | hT
    · rw [hT] at heq
      exact hz00 (List.cons.inj heq).1
    · rw [hT] at heq
      exact hc0 (List.cons.inj heq).1.symm

end Cmac
