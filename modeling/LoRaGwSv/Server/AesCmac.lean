import Mathlib.Data.Nat.Bitwise
import LoRaGwSv.Machinery.Cmac

/-!
# Server/AesCmac — the message authentication code (`aes_cmac.c`)

`AES128_CMAC` works on a byte array and a size of eight bits, in loops over the bytes of a block.
**It computes the first four bytes of the code of RFC 4493** of as much of the array as the size
says (`aes128Cmac_eq`): the loop from the right that carries a bit from byte to byte doubles a block
(`nextKey_eq`), and the last block is filled up as it is masked (`macLast_eq`).
-/

namespace LoRaGwSv

/-- `AESEncryptBlock`: a function of key and block that yields a block. -/
structure BlockCipher where
  aesEncryptBlock : List UInt8 → List UInt8 → List UInt8
  length_aesEncryptBlock (key block : List UInt8) : (aesEncryptBlock key block).length = 16

/-- `const_Rb`. -/
def constRb : List UInt8 := [0, 0, 0, 0, 0, 0, 0, 0, 0, 0, 0, 0, 0, 0, 0, 0x87]

/-- The loops `for ( loopCnt = 15; loopCnt >= 0; loopCnt-- )`: the bytes shifted, and the `overflow`
out of the first. -/
def shiftLoop : List UInt8 → List UInt8 × UInt8
  | [] => ([], 0)
  | b :: bs =>
    let (shifted, overflow) := shiftLoop bs
    ((b <<< 1 ||| overflow) :: shifted, if b &&& 0x80 ≠ 0 then 1 else 0)

/-- The loops `for(loopCnt = 0; loopCnt < 16; loopCnt++)` that combine two arrays. -/
def xor16 (a b : List UInt8) : List UInt8 :=
  (List.range 16).map fun loopCnt => a.getD loopCnt 0 ^^^ b.getD loopCnt 0

/-- Either half of `SubkeyGeneration`. -/
def nextKey (L : List UInt8) : List UInt8 :=
  if L.getD 0 0 &&& 0x80 = 0 then (shiftLoop L).1 else xor16 (shiftLoop L).1 constRb

/-- `SubkeyGeneration`: the two keys from the cipher of zeros. -/
def subkeyGeneration (aes : BlockCipher) (key : List UInt8) : List UInt8 × List UInt8 :=
  let L := aes.aesEncryptBlock key (List.replicate 16 0)
  let keyOne := nextKey L
  (keyOne, nextKey keyOne)

/-- Steps 2 and 3: `nBlock` and `completeFlag`. -/
def macBlocks (size : UInt8) : UInt8 × UInt8 :=
  let nBlock := UInt8.ofNat ((size.toNat + 15) / 16)
  if nBlock = 0 then (1, 0)
  else (nBlock, if size % 16 = 0 then 1 else 0)

/-- Step 4. -/
def macLast (msg : List UInt8) (nBlock remainingSize completeFlag : UInt8)
    (keyOne keyTwo : List UInt8) : List UInt8 :=
  if completeFlag = 1 then xor16 (msg.drop (16 * (nBlock.toNat - 1))) keyOne
  else
    (List.range 16).map fun loopCnt =>
      (if loopCnt < remainingSize.toNat then msg.getD (16 * (nBlock.toNat - 1) + loopCnt) 0
        else if loopCnt = remainingSize.toNat then 0x80
        else 0) ^^^ keyTwo.getD loopCnt 0

/-- Steps 5 and 6, up to block `blockCnt`. -/
def macLoop (aes : BlockCipher) (key msg : List UInt8) : ℕ → List UInt8
  | 0 => List.replicate 16 0
  | blockCnt + 1 =>
    aes.aesEncryptBlock key (xor16 (msg.drop (16 * blockCnt)) (macLoop aes key msg blockCnt))

/-- `AES128_CMAC`: four bytes of the code. -/
def aes128Cmac (aes : BlockCipher) (key msg : List UInt8) (size : UInt8) : List UInt8 :=
  let (keyOne, keyTwo) := subkeyGeneration aes key
  let (nBlock, completeFlag) := macBlocks size
  let mLast := macLast msg nBlock (size % 16) completeFlag keyOne keyTwo
  let X := macLoop aes key msg (nBlock.toNat - 1)
  (aes.aesEncryptBlock key (xor16 mLast X)).take 4

variable {aes : BlockCipher} {key msg L : List UInt8} {size : UInt8}

/-! ## The loops over a block

A block is the number that its bytes write, so shifting it by one bit is doubling. -/

/-- The loop over 16 bytes combines two blocks. -/
theorem xor16_eq {a b : List UInt8} (ha : a.length = 16) (hb : b.length = 16) :
    xor16 a b = Cmac.xor a b := by
  refine List.ext_getElem (by rw [Cmac.length_xor ha hb]; rfl) fun j hj hj' => ?_
  have hj16 : j < 16 := hj
  simp only [xor16, Cmac.xor, List.getElem_map, List.getElem_range, List.getElem_zipWith]
  rw [List.getD_eq_getElem _ _ (ha ▸ hj16), List.getD_eq_getElem _ _ (hb ▸ hj16)]

theorem xor16_congr {a a' : List UInt8} (h : ∀ j < 16, a.getD j 0 = a'.getD j 0)
    (b : List UInt8) : xor16 a b = xor16 a' b := by
  refine List.map_congr_left fun j hj => ?_
  rw [h j (List.mem_range.mp hj)]

/-- A byte is shifted and takes the overflow of the one behind it in. -/
theorem toNat_shift_or (b : UInt8) {overflow : UInt8} (h : overflow.toNat < 2) :
    (b <<< 1 ||| overflow).toNat = 2 * (b.toNat % 128) + overflow.toNat := by
  have hshift : (b <<< 1).toNat = 2 ^ 1 * (b.toNat % 128) := by
    rw [UInt8.toNat_shiftLeft, Nat.shiftLeft_eq, show (1 : UInt8).toNat % 8 = 1 from rfl]
    omega
  rw [UInt8.toNat_or, hshift, ← Nat.two_pow_add_eq_or_of_lt (by simpa using h), Nat.pow_one]

theorem and_msb_eq_zero_iff (b : UInt8) : b &&& 0x80 = 0 ↔ b.toNat < 128 := by
  have hb := b.toNat_lt
  rw [← UInt8.toNat_inj, UInt8.toNat_and, show (0x80 : UInt8).toNat = 2 ^ 7 from rfl,
    Nat.and_two_pow, Nat.testBit_eq_decide_div_mod_eq, show (0 : UInt8).toNat = 0 from rfl,
    Nat.mul_eq_zero, or_iff_left (by decide), Bool.toNat_eq_zero, decide_eq_false_iff_not]
  omega

/-- **The loop doubles the number the block writes**, and carries out what does not fit. -/
theorem beNat_shiftLoop (bs : List UInt8) :
    (shiftLoop bs).1.length = bs.length ∧ (shiftLoop bs).2.toNat < 2 ∧
      Cmac.beNat (shiftLoop bs).1 + (shiftLoop bs).2.toNat * 256 ^ bs.length
        = 2 * Cmac.beNat bs := by
  induction bs with
  | nil => exact ⟨rfl, by decide, rfl⟩
  | cons b bs ih =>
    obtain ⟨hlen, hlt, hnum⟩ := ih
    have hout : (shiftLoop (b :: bs)).2.toNat = b.toNat / 128 := by
      have hb := b.toNat_lt
      rw [shiftLoop]
      split_ifs with hmsb
      · rw [Ne, and_msb_eq_zero_iff] at hmsb
        rw [show (1 : UInt8).toNat = 1 from rfl]
        omega
      · rw [not_not, and_msb_eq_zero_iff] at hmsb
        rw [show (0 : UInt8).toNat = 0 from rfl]
        omega
    have hhead : Cmac.beNat (shiftLoop (b :: bs)).1
        = (2 * (b.toNat % 128) + (shiftLoop bs).2.toNat) * 256 ^ bs.length
          + Cmac.beNat (shiftLoop bs).1 := by
      rw [shiftLoop, Cmac.beNat_cons, toNat_shift_or b hlt, hlen]
    refine ⟨congrArg (· + 1) hlen, by rw [hout]; have := b.toNat_lt; omega, ?_⟩
    rw [hhead, hout, Cmac.beNat_cons, List.length_cons]
    calc _ = 2 * (128 * (b.toNat / 128) + b.toNat % 128) * 256 ^ bs.length
          + (Cmac.beNat (shiftLoop bs).1 + (shiftLoop bs).2.toNat * 256 ^ bs.length) := by ring
      _ = 2 * (b.toNat * 256 ^ bs.length + Cmac.beNat bs) := by
        rw [hnum, Nat.div_add_mod]
        ring

/-- The loop shifts a number of 16 bytes by one bit. -/
theorem shiftLoop_eq (bs : List UInt8) : (shiftLoop bs).1 = Cmac.shiftLeft bs := by
  obtain ⟨hlen, -, hnum⟩ := beNat_shiftLoop bs
  rw [Cmac.shiftLeft, ← hnum, ← hlen, Cmac.beBytes_beNat]

theorem msb_iff (hL : L.length = 16) : Cmac.msb L ↔ ¬L.getD 0 0 &&& 0x80 = 0 := by
  obtain _ | ⟨b, bs⟩ := L
  · exact absurd hL (by decide)
  · have hlt := Cmac.beNat_lt bs
    have hbs : bs.length = 15 := Nat.succ.inj hL
    rw [Cmac.msb, List.getD_cons_zero, and_msb_eq_zero_iff, hL, Cmac.beNat_cons, hbs]
    rw [hbs] at hlt
    norm_num at hlt ⊢
    omega

/-- **Each half of the key generation doubles a block.** -/
theorem nextKey_eq (hL : L.length = 16) : nextKey L = Cmac.double L := by
  have hlen : (Cmac.shiftLeft L).length = 16 := by
    rw [← shiftLoop_eq, (beNat_shiftLoop L).1, hL]
  rw [nextKey, Cmac.double, shiftLoop_eq, xor16_eq hlen rfl]
  by_cases hmsb : L.getD 0 0 &&& 0x80 = 0
  · rw [if_pos hmsb, if_neg (by rwa [msb_iff hL, not_not])]
  · rw [if_neg hmsb, if_pos ((msb_iff hL).mpr hmsb)]
    rfl

theorem length_nextKey (hL : L.length = 16) : (nextKey L).length = 16 := by
  rw [nextKey]
  split_ifs
  · rw [(beNat_shiftLoop L).1, hL]
  · rfl

/-- `SubkeyGeneration` yields the subkeys. -/
theorem subkeyGeneration_eq (aes : BlockCipher) (key : List UInt8) :
    subkeyGeneration aes key
      = (Cmac.keyOne (aes.aesEncryptBlock key), Cmac.keyTwo (aes.aesEncryptBlock key)) := by
  have hL := aes.length_aesEncryptBlock key (List.replicate 16 0)
  have hone : nextKey (aes.aesEncryptBlock key (List.replicate 16 0))
      = Cmac.keyOne (aes.aesEncryptBlock key) := nextKey_eq hL
  rw [subkeyGeneration, nextKey_eq (length_nextKey hL), hone]
  rfl

/-! ## The message in blocks

The size of the message is cut to eight bits, and what lies behind it in the array is not read. -/

/-- A block of the message lies within the bytes that count. -/
theorem block_take {i s : ℕ} (h : 16 * (i + 1) ≤ s) :
    Cmac.block (msg.take s) i = Cmac.block msg i := by
  rw [Cmac.block, List.drop_take, List.take_take, Nat.min_eq_left (by omega), Cmac.block]

theorem getD_take {i s : ℕ} (h : i < s) : (msg.take s).getD i 0 = msg.getD i 0 := by
  rw [List.getD_eq_getElem?_getD, List.getElem?_take_of_lt h, ← List.getD_eq_getElem?_getD]

/-- A block of the message goes into the chain. -/
theorem xor16_drop {i : ℕ} {X : List UInt8} (h : 16 * (i + 1) ≤ msg.length) (hX : X.length = 16) :
    xor16 (msg.drop (16 * i)) X = Cmac.xor (Cmac.block msg i) X := by
  rw [← xor16_eq (Cmac.length_block h) hX]
  refine xor16_congr (fun j hj => ?_) X
  rw [Cmac.getD_block msg i hj, List.getD_eq_getElem?_getD, List.getElem?_drop,
    ← List.getD_eq_getElem?_getD]

theorem length_macLoop (aes : BlockCipher) (key msg : List UInt8) (k : ℕ) :
    (macLoop aes key msg k).length = 16 := by
  cases k with
  | zero => rfl
  | succ k => exact aes.length_aesEncryptBlock key _

/-- **The loop chains the complete blocks.** -/
theorem macLoop_eq {k s : ℕ} (hs : s ≤ msg.length) (h : 16 * k ≤ s) :
    macLoop aes key msg k = Cmac.chain (aes.aesEncryptBlock key) (msg.take s) k := by
  induction k with
  | zero => rfl
  | succ k ih =>
    rw [macLoop, xor16_drop (by omega) (length_macLoop aes key msg k), ih (by omega), Cmac.chain,
      block_take h, Cmac.xor_comm]

/-- **The last block is masked, or filled up and masked.** -/
theorem macLast_eq {s : ℕ} {nBlock remainingSize completeFlag : UInt8} {keyOne keyTwo : List UInt8}
    (hs : s ≤ msg.length) (hn : nBlock.toNat = Cmac.blockCount s)
    (hrem : remainingSize.toNat = s % 16) (hflag : completeFlag = 1 ↔ Cmac.Complete s)
    (hone : keyOne.length = 16) (htwo : keyTwo.length = 16) :
    macLast msg nBlock remainingSize completeFlag keyOne keyTwo
      = if Cmac.Complete s then Cmac.xor (Cmac.block (msg.take s) (Cmac.blockCount s - 1)) keyOne
        else Cmac.xor (Cmac.padding (Cmac.block (msg.take s) (Cmac.blockCount s - 1))) keyTwo := by
  rw [macLast, hn]
  by_cases hcomplete : Cmac.Complete s
  · obtain ⟨hne, hmod⟩ := hcomplete
    have hcount : Cmac.blockCount s = (s + 15) / 16 := if_neg hne
    rw [if_pos (hflag.mpr ⟨hne, hmod⟩), if_pos ⟨hne, hmod⟩, xor16_drop (by omega) hone,
      block_take (by omega)]
  · have hlen : (Cmac.block (msg.take s) (Cmac.blockCount s - 1)).length = s % 16 := by
      rw [Cmac.block, List.length_take, List.length_drop, List.length_take, Cmac.blockCount]
      rw [Cmac.Complete] at hcomplete
      split_ifs <;> omega
    rw [if_neg (mt hflag.mp hcomplete), if_neg hcomplete,
      ← xor16_eq (Cmac.length_padding (by omega)) htwo]
    refine List.map_congr_left fun j hj => ?_
    have hj16 := List.mem_range.mp hj
    rw [Cmac.getD_padding _ hj16, hlen, hrem]
    by_cases hlt : j < s % 16
    · have hin : 16 * (Cmac.blockCount s - 1) + j < s := by
        rw [Cmac.blockCount]
        split_ifs <;> omega
      rw [if_pos hlt, if_pos hlt, Cmac.getD_block _ _ hj16, getD_take hin]
    · rw [if_neg hlt, if_neg hlt]

theorem length_macLast (msg : List UInt8) (nBlock remainingSize completeFlag : UInt8)
    (keyOne keyTwo : List UInt8) :
    (macLast msg nBlock remainingSize completeFlag keyOne keyTwo).length = 16 := by
  rw [macLast]
  split_ifs
  · rfl
  · rw [List.length_map, List.length_range]

/-- **How many blocks there are, and whether the last one is complete**, as the standard has it. -/
theorem macBlocks_eq (size : UInt8) :
    (macBlocks size).1.toNat = Cmac.blockCount size.toNat ∧
      ((macBlocks size).2 = 1 ↔ Cmac.Complete size.toNat) := by
  have hlt := size.toNat_lt
  have hblocks : (UInt8.ofNat ((size.toNat + 15) / 16)).toNat = (size.toNat + 15) / 16 := by
    rw [UInt8.toNat_ofNat']
    omega
  have hrem : size % 16 = 0 ↔ size.toNat % 16 = 0 := by
    rw [← UInt8.toNat_inj, UInt8.toNat_mod]
    rfl
  rw [macBlocks, Cmac.blockCount, Cmac.Complete]
  by_cases h0 : size.toNat = 0
  · rw [if_pos (UInt8.toNat_inj.mp (by rw [hblocks, h0]; rfl)), if_pos h0]
    exact ⟨rfl, iff_of_false (by decide) fun h => h.1 h0⟩
  · have hne : UInt8.ofNat ((size.toNat + 15) / 16) ≠ 0 := fun h => by
      have := congrArg UInt8.toNat h
      rw [hblocks, show (0 : UInt8).toNat = 0 from rfl] at this
      omega
    rw [if_neg hne, if_neg h0, and_iff_right h0, ← hrem]
    refine ⟨hblocks, ?_⟩
    by_cases hmod : size % 16 = 0
    · exact iff_of_true (if_pos hmod) hmod
    · exact iff_of_false (by rw [if_neg hmod]; exact UInt8.zero_ne_one) hmod

/-- **`AES128_CMAC` is the code of RFC 4493**, of as many bytes as the size says. -/
theorem aes128Cmac_eq (aes : BlockCipher) (key : List UInt8) (hsize : size.toNat ≤ msg.length) :
    aes128Cmac aes key msg size
      = (Cmac.cmac (aes.aesEncryptBlock key) (msg.take size.toNat)).take 4 := by
  obtain ⟨hn, hflag⟩ := macBlocks_eq size
  have hrem : (size % 16).toNat = size.toNat % 16 := UInt8.toNat_mod size 16
  have hL := aes.length_aesEncryptBlock key (List.replicate 16 0)
  have hkeys := subkeyGeneration_eq aes key
  have hone : (Cmac.keyOne (aes.aesEncryptBlock key)).length = 16 := by
    rw [← (Prod.mk.inj hkeys).1]
    exact length_nextKey hL
  have htwo : (Cmac.keyTwo (aes.aesEncryptBlock key)).length = 16 := by
    rw [← (Prod.mk.inj hkeys).2]
    exact length_nextKey (length_nextKey hL)
  have hlast : macLast msg (macBlocks size).1 (size % 16) (macBlocks size).2
      (Cmac.keyOne (aes.aesEncryptBlock key)) (Cmac.keyTwo (aes.aesEncryptBlock key))
      = Cmac.lastBlock (aes.aesEncryptBlock key) (msg.take size.toNat) := by
    rw [macLast_eq hsize hn hrem hflag hone htwo, Cmac.lastBlock, List.length_take_of_le hsize]
  have hloop : macLoop aes key msg ((macBlocks size).1.toNat - 1)
      = Cmac.chain (aes.aesEncryptBlock key) (msg.take size.toNat)
        (Cmac.blockCount size.toNat - 1) := by
    rw [hn]
    exact macLoop_eq hsize (by rw [Cmac.blockCount]; split_ifs <;> omega)
  rw [aes128Cmac, hkeys, Cmac.cmac, List.length_take_of_le hsize, ← hlast, ← hloop,
    ← xor16_eq (length_macLast ..) (length_macLoop ..)]

end LoRaGwSv
