import LoRaGwSv.Machinery.Rijndael
import LoRaGwSv.Server.AesCmac

/-!
# Server/Aes — the block cipher (`aes.c`)

`aes.c` ciphers in place: a block is the array `state` of four columns of four bytes, and each step
writes over it.  **Byte for byte the block it leaves is the one of FIPS 197** (`cipher_refines`):
each step of the code is the step of the standard on the field elements the bytes name, the tables
`sbox` and `rsbox` are the substitution and its inverse, and the words `KeyExpansion` writes are
those of the key schedule, whatever stood in `RoundKey` before.  The functions on arrays write that
block (`aesEncryptBlock_refines`), and `AES128_CMAC` over them is the code of RFC 4493
(`aes128Cmac_refines`).

`InvCipher` refines the inverse permutation (`invCipher_refines`), so **each undoes the other for
every key and block** (`invCipher_aesCipher`, `aesCipher_invCipher`), and so do the functions on
arrays (`aesEcb_opened`).
-/

namespace LoRaGwSv

open BinaryField Rijndael

/-! ## The tables -/

set_option maxRecDepth 2000 in
def sbox : Vector UInt8 256 := #v[
  0x63, 0x7c, 0x77, 0x7b, 0xf2, 0x6b, 0x6f, 0xc5, 0x30, 0x01, 0x67, 0x2b, 0xfe, 0xd7, 0xab, 0x76,
  0xca, 0x82, 0xc9, 0x7d, 0xfa, 0x59, 0x47, 0xf0, 0xad, 0xd4, 0xa2, 0xaf, 0x9c, 0xa4, 0x72, 0xc0,
  0xb7, 0xfd, 0x93, 0x26, 0x36, 0x3f, 0xf7, 0xcc, 0x34, 0xa5, 0xe5, 0xf1, 0x71, 0xd8, 0x31, 0x15,
  0x04, 0xc7, 0x23, 0xc3, 0x18, 0x96, 0x05, 0x9a, 0x07, 0x12, 0x80, 0xe2, 0xeb, 0x27, 0xb2, 0x75,
  0x09, 0x83, 0x2c, 0x1a, 0x1b, 0x6e, 0x5a, 0xa0, 0x52, 0x3b, 0xd6, 0xb3, 0x29, 0xe3, 0x2f, 0x84,
  0x53, 0xd1, 0x00, 0xed, 0x20, 0xfc, 0xb1, 0x5b, 0x6a, 0xcb, 0xbe, 0x39, 0x4a, 0x4c, 0x58, 0xcf,
  0xd0, 0xef, 0xaa, 0xfb, 0x43, 0x4d, 0x33, 0x85, 0x45, 0xf9, 0x02, 0x7f, 0x50, 0x3c, 0x9f, 0xa8,
  0x51, 0xa3, 0x40, 0x8f, 0x92, 0x9d, 0x38, 0xf5, 0xbc, 0xb6, 0xda, 0x21, 0x10, 0xff, 0xf3, 0xd2,
  0xcd, 0x0c, 0x13, 0xec, 0x5f, 0x97, 0x44, 0x17, 0xc4, 0xa7, 0x7e, 0x3d, 0x64, 0x5d, 0x19, 0x73,
  0x60, 0x81, 0x4f, 0xdc, 0x22, 0x2a, 0x90, 0x88, 0x46, 0xee, 0xb8, 0x14, 0xde, 0x5e, 0x0b, 0xdb,
  0xe0, 0x32, 0x3a, 0x0a, 0x49, 0x06, 0x24, 0x5c, 0xc2, 0xd3, 0xac, 0x62, 0x91, 0x95, 0xe4, 0x79,
  0xe7, 0xc8, 0x37, 0x6d, 0x8d, 0xd5, 0x4e, 0xa9, 0x6c, 0x56, 0xf4, 0xea, 0x65, 0x7a, 0xae, 0x08,
  0xba, 0x78, 0x25, 0x2e, 0x1c, 0xa6, 0xb4, 0xc6, 0xe8, 0xdd, 0x74, 0x1f, 0x4b, 0xbd, 0x8b, 0x8a,
  0x70, 0x3e, 0xb5, 0x66, 0x48, 0x03, 0xf6, 0x0e, 0x61, 0x35, 0x57, 0xb9, 0x86, 0xc1, 0x1d, 0x9e,
  0xe1, 0xf8, 0x98, 0x11, 0x69, 0xd9, 0x8e, 0x94, 0x9b, 0x1e, 0x87, 0xe9, 0xce, 0x55, 0x28, 0xdf,
  0x8c, 0xa1, 0x89, 0x0d, 0xbf, 0xe6, 0x42, 0x68, 0x41, 0x99, 0x2d, 0x0f, 0xb0, 0x54, 0xbb, 0x16]

set_option maxRecDepth 2000 in
def rsbox : Vector UInt8 256 := #v[
  0x52, 0x09, 0x6a, 0xd5, 0x30, 0x36, 0xa5, 0x38, 0xbf, 0x40, 0xa3, 0x9e, 0x81, 0xf3, 0xd7, 0xfb,
  0x7c, 0xe3, 0x39, 0x82, 0x9b, 0x2f, 0xff, 0x87, 0x34, 0x8e, 0x43, 0x44, 0xc4, 0xde, 0xe9, 0xcb,
  0x54, 0x7b, 0x94, 0x32, 0xa6, 0xc2, 0x23, 0x3d, 0xee, 0x4c, 0x95, 0x0b, 0x42, 0xfa, 0xc3, 0x4e,
  0x08, 0x2e, 0xa1, 0x66, 0x28, 0xd9, 0x24, 0xb2, 0x76, 0x5b, 0xa2, 0x49, 0x6d, 0x8b, 0xd1, 0x25,
  0x72, 0xf8, 0xf6, 0x64, 0x86, 0x68, 0x98, 0x16, 0xd4, 0xa4, 0x5c, 0xcc, 0x5d, 0x65, 0xb6, 0x92,
  0x6c, 0x70, 0x48, 0x50, 0xfd, 0xed, 0xb9, 0xda, 0x5e, 0x15, 0x46, 0x57, 0xa7, 0x8d, 0x9d, 0x84,
  0x90, 0xd8, 0xab, 0x00, 0x8c, 0xbc, 0xd3, 0x0a, 0xf7, 0xe4, 0x58, 0x05, 0xb8, 0xb3, 0x45, 0x06,
  0xd0, 0x2c, 0x1e, 0x8f, 0xca, 0x3f, 0x0f, 0x02, 0xc1, 0xaf, 0xbd, 0x03, 0x01, 0x13, 0x8a, 0x6b,
  0x3a, 0x91, 0x11, 0x41, 0x4f, 0x67, 0xdc, 0xea, 0x97, 0xf2, 0xcf, 0xce, 0xf0, 0xb4, 0xe6, 0x73,
  0x96, 0xac, 0x74, 0x22, 0xe7, 0xad, 0x35, 0x85, 0xe2, 0xf9, 0x37, 0xe8, 0x1c, 0x75, 0xdf, 0x6e,
  0x47, 0xf1, 0x1a, 0x71, 0x1d, 0x29, 0xc5, 0x89, 0x6f, 0xb7, 0x62, 0x0e, 0xaa, 0x18, 0xbe, 0x1b,
  0xfc, 0x56, 0x3e, 0x4b, 0xc6, 0xd2, 0x79, 0x20, 0x9a, 0xdb, 0xc0, 0xfe, 0x78, 0xcd, 0x5a, 0xf4,
  0x1f, 0xdd, 0xa8, 0x33, 0x88, 0x07, 0xc7, 0x31, 0xb1, 0x12, 0x10, 0x59, 0x27, 0x80, 0xec, 0x5f,
  0x60, 0x51, 0x7f, 0xa9, 0x19, 0xb5, 0x4a, 0x0d, 0x2d, 0xe5, 0x7a, 0x9f, 0x93, 0xc9, 0x9c, 0xef,
  0xa0, 0xe0, 0x3b, 0x4d, 0xae, 0x2a, 0xf5, 0xb0, 0xc8, 0xeb, 0xbb, 0x3c, 0x83, 0x53, 0x99, 0x61,
  0x17, 0x2b, 0x04, 0x7e, 0xba, 0x77, 0xd6, 0x26, 0xe1, 0x69, 0x14, 0x63, 0x55, 0x21, 0x0c, 0x7d]

/-- `Rcon`. -/
def rconTable : Vector UInt8 11 := #v[
  0x8d, 0x01, 0x02, 0x04, 0x08, 0x10, 0x20, 0x40, 0x80, 0x1b, 0x36]

/-- `getSBoxValue`. -/
def getSBoxValue (num : UInt8) : UInt8 := sbox.get ⟨num.toNat, num.toNat_lt⟩

/-- `getSBoxInvert`. -/
def getSBoxInvert (num : UInt8) : UInt8 := rsbox.get ⟨num.toNat, num.toNat_lt⟩

/-! ## The block and the steps on it -/

/-- `state[i]`: four bytes in a row in memory, a column of the block. -/
abbrev Column : Type := Vector UInt8 4

/-- `state_t`. -/
abbrev AesState : Type := Vector Column 4

/-- `RoundKey`: its bytes `4 * w` to `4 * w + 3` are the word `w`. -/
abbrev RoundKeys : Type := Vector Column 44

/-- `(*state)[i][j]`. -/
def AesState.byte (state : AesState) (i j : Fin 4) : UInt8 := (state.get i).get j

/-- `(*state)[i][j] = v`. -/
def AesState.put (state : AesState) (i j : Fin 4) (v : UInt8) : AesState :=
  state.set i ((state.get i).set j v)

/-- The loops over `i` and `j` that assign each byte of the block from itself. -/
def eachByte (f : Fin 4 → Fin 4 → UInt8 → UInt8) (state : AesState) : AesState :=
  (List.finRange 4).foldl (fun state i =>
    (List.finRange 4).foldl (fun state j => state.put i j (f i j (state.byte i j))) state) state

/-- The loops over `i` that assign each column from itself. -/
def eachColumn (f : Column → Column) (state : AesState) : AesState :=
  (List.finRange 4).foldl (fun state (i : Fin 4) => state.set i (f (state.get i))) state

/-- `AddRoundKey`: the words of a round are those of its four columns. -/
def addRoundKey (roundKey : RoundKeys) (round : Fin 11) : AesState → AesState :=
  eachByte fun i j b => b ^^^ (roundKey.get ⟨round * 4 + i, by omega⟩).get j

/-- `SubBytes`; the order in which it goes through the bytes does not matter. -/
def subBytes : AesState → AesState := eachByte fun _ _ b => getSBoxValue b

/-- `InvSubBytes`. -/
def invSubBytes : AesState → AesState := eachByte fun _ _ b => getSBoxInvert b

/-- `ShiftRows`, byte by byte through a temporary one. -/
def shiftRows (state : AesState) : AesState :=
  -- the first row, by one
  let temp := state.byte 0 1
  let state := state.put 0 1 (state.byte 1 1)
  let state := state.put 1 1 (state.byte 2 1)
  let state := state.put 2 1 (state.byte 3 1)
  let state := state.put 3 1 temp
  -- the second, by two
  let temp := state.byte 0 2
  let state := state.put 0 2 (state.byte 2 2)
  let state := state.put 2 2 temp
  let temp := state.byte 1 2
  let state := state.put 1 2 (state.byte 3 2)
  let state := state.put 3 2 temp
  -- the third, by three
  let temp := state.byte 0 3
  let state := state.put 0 3 (state.byte 3 3)
  let state := state.put 3 3 (state.byte 2 3)
  let state := state.put 2 3 (state.byte 1 3)
  state.put 1 3 temp

/-- `InvShiftRows`. -/
def invShiftRows (state : AesState) : AesState :=
  let temp := state.byte 3 1
  let state := state.put 3 1 (state.byte 2 1)
  let state := state.put 2 1 (state.byte 1 1)
  let state := state.put 1 1 (state.byte 0 1)
  let state := state.put 0 1 temp
  let temp := state.byte 0 2
  let state := state.put 0 2 (state.byte 2 2)
  let state := state.put 2 2 temp
  let temp := state.byte 1 2
  let state := state.put 1 2 (state.byte 3 2)
  let state := state.put 3 2 temp
  let temp := state.byte 0 3
  let state := state.put 0 3 (state.byte 1 3)
  let state := state.put 1 3 (state.byte 2 3)
  let state := state.put 2 3 (state.byte 3 3)
  state.put 3 3 temp

/-- `y >> k & 1`. -/
def bitOf (y k : UInt8) : UInt8 := y >>> k &&& 1

/-- `xtime`. -/
def timesX (x : UInt8) : UInt8 := x <<< 1 ^^^ bitOf x 7 * 0x1b

/-- A round of the loop of `MixColumns`. -/
def mixColumn (column : Column) : Column :=
  let t := column.get 0
  let tmp := column.get 0 ^^^ column.get 1 ^^^ column.get 2 ^^^ column.get 3
  let tm := timesX (column.get 0 ^^^ column.get 1)
  let column := column.set 0 (column.get 0 ^^^ (tm ^^^ tmp))
  let tm := timesX (column.get 1 ^^^ column.get 2)
  let column := column.set 1 (column.get 1 ^^^ (tm ^^^ tmp))
  let tm := timesX (column.get 2 ^^^ column.get 3)
  let column := column.set 2 (column.get 2 ^^^ (tm ^^^ tmp))
  let tm := timesX (column.get 3 ^^^ t)
  column.set 3 (column.get 3 ^^^ (tm ^^^ tmp))

/-- `MixColumns`. -/
def mixColumns : AesState → AesState := eachColumn mixColumn

/-- `Multiply`. -/
def multiply (x y : UInt8) : UInt8 :=
  bitOf y 0 * x ^^^
  bitOf y 1 * timesX x ^^^
  bitOf y 2 * timesX (timesX x) ^^^
  bitOf y 3 * timesX (timesX (timesX x)) ^^^
  bitOf y 4 * timesX (timesX (timesX (timesX x)))

/-- A round of the loop of `InvMixColumns`. -/
def invMixColumn (column : Column) : Column :=
  let a := column.get 0
  let b := column.get 1
  let c := column.get 2
  let d := column.get 3
  #v[multiply a 0x0e ^^^ multiply b 0x0b ^^^ multiply c 0x0d ^^^ multiply d 0x09,
    multiply a 0x09 ^^^ multiply b 0x0e ^^^ multiply c 0x0b ^^^ multiply d 0x0d,
    multiply a 0x0d ^^^ multiply b 0x09 ^^^ multiply c 0x0e ^^^ multiply d 0x0b,
    multiply a 0x0b ^^^ multiply b 0x0d ^^^ multiply c 0x09 ^^^ multiply d 0x0e]

/-- `InvMixColumns`. -/
def invMixColumns : AesState → AesState := eachColumn invMixColumn

/-! ## The key schedule and the ciphers -/

/-- The second loop of `KeyExpansion`, for one `i`. -/
def expandWord (roundKey : RoundKeys) (i : Fin 44) : RoundKeys :=
  let tempa := roundKey.get ⟨i - 1, by omega⟩
  let tempa :=
    if i.val % 4 = 0 then
      -- `RotWord`, `SubWord`
      let k := tempa.get 0
      let tempa : Column := #v[tempa.get 1, tempa.get 2, tempa.get 3, k]
      let tempa : Column := #v[getSBoxValue (tempa.get 0), getSBoxValue (tempa.get 1),
        getSBoxValue (tempa.get 2), getSBoxValue (tempa.get 3)]
      tempa.set 0 (tempa.get 0 ^^^ rconTable.get ⟨i / 4, by omega⟩)
    else tempa
  let w := roundKey.get ⟨i - 4, by omega⟩
  roundKey.set i #v[w.get 0 ^^^ tempa.get 0, w.get 1 ^^^ tempa.get 1, w.get 2 ^^^ tempa.get 2,
    w.get 3 ^^^ tempa.get 3]

/-- The `i` from 4 on, `n` of them. -/
def expandLoop (roundKey : RoundKeys) : (n : ℕ) → n ≤ 40 → RoundKeys
  | 0, _ => roundKey
  | n + 1, h => expandWord (expandLoop roundKey n (by omega)) ⟨n + 4, by omega⟩

/-- The first loop of `KeyExpansion`. -/
def copyKey (key : List UInt8) (roundKey : RoundKeys) : RoundKeys :=
  (List.finRange 4).foldl (fun roundKey i =>
    roundKey.set (Fin.castLE (by decide : 4 ≤ 44) i)
      #v[key.getD (i * 4 + 0) 0, key.getD (i * 4 + 1) 0, key.getD (i * 4 + 2) 0,
        key.getD (i * 4 + 3) 0]) roundKey

/-- `KeyExpansion`: the first four words are the key, the others are made one by one. -/
def keyExpansion (key : List UInt8) (roundKey : RoundKeys) : RoundKeys :=
  expandLoop (copyKey key roundKey) 40 le_rfl

/-- The first key and the rounds from 1 on, `n` of them. -/
def roundLoop (roundKey : RoundKeys) : (n : ℕ) → n ≤ 9 → AesState → AesState
  | 0, _, state => addRoundKey roundKey 0 state
  | n + 1, h, state =>
    addRoundKey roundKey ⟨n + 1, by omega⟩
      (mixColumns (shiftRows (subBytes (roundLoop roundKey n (by omega) state))))

/-- `Cipher`. -/
def aesCipher (roundKey : RoundKeys) (state : AesState) : AesState :=
  addRoundKey roundKey 10 (shiftRows (subBytes (roundLoop roundKey 9 le_rfl state)))

/-- The rounds from `n` down to 1. -/
def invRoundLoop (roundKey : RoundKeys) : (n : ℕ) → n ≤ 9 → AesState → AesState
  | 0, _, state => state
  | n + 1, h, state =>
    invRoundLoop roundKey n (by omega)
      (invMixColumns (addRoundKey roundKey ⟨n + 1, by omega⟩ (invSubBytes (invShiftRows state))))

/-- `InvCipher`. -/
def invCipher (roundKey : RoundKeys) (state : AesState) : AesState :=
  let state := addRoundKey roundKey 10 state
  let state := invRoundLoop roundKey 9 le_rfl state
  addRoundKey roundKey 0 (invSubBytes (invShiftRows state))

/-! ## The functions on arrays -/

/-- The block in an array of bytes. -/
def AesState.load (bytes : List UInt8) : AesState :=
  Vector.ofFn fun i => Vector.ofFn fun j => bytes.getD (4 * i + j) 0

/-- The block as it is copied out, column by column. -/
def AesState.store (state : AesState) : List UInt8 :=
  List.ofFn fun k : Fin 16 => state.byte ⟨k / 4, by omega⟩ ⟨k % 4, by omega⟩

/-- `memcpy(output, input, length)`, and the first 16 bytes of `output` ciphered. -/
def ecbWith (f : AesState → AesState) (input output : List UInt8) (length : ℕ) : List UInt8 :=
  let output := input.take length ++ output.drop length
  (f (AesState.load output)).store ++ output.drop 16

/-- `AES_ECB_encrypt`, with what it leaves in `RoundKey`. -/
def aesEcbEncrypt (input key output : List UInt8) (length : ℕ) (roundKey : RoundKeys) :
    List UInt8 × RoundKeys :=
  let roundKey := keyExpansion key roundKey
  (ecbWith (aesCipher roundKey) input output length, roundKey)

/-- `AES_ECB_decrypt`. -/
def aesEcbDecrypt (input key output : List UInt8) (length : ℕ) (roundKey : RoundKeys) :
    List UInt8 × RoundKeys :=
  let roundKey := keyExpansion key roundKey
  (ecbWith (invCipher roundKey) input output length, roundKey)

/-- `AESEncryptBlock`: without a key the last one stays in use. -/
def aesEncryptBlock (input output : List UInt8) (key : Option (List UInt8))
    (roundKey : RoundKeys) : List UInt8 × RoundKeys :=
  let roundKey := match key with
    | some key => keyExpansion key roundKey
    | none => roundKey
  (ecbWith (aesCipher roundKey) input output 16, roundKey)

/-! ## The tables are the substitution

Both tables are checked entry by entry, against the inverse in the field and the affine map. -/

/-- Every entry of a table meets `P` with its index. -/
def Tabulates (table : Vector UInt8 256) (P : BitVec 8 → BitVec 8 → Prop) [DecidableRel P] : Bool :=
  table.toList.zipIdx.all fun p => P (BitVec.ofNat 8 p.2) p.1.toBitVec

/-- What is tabulated is what is looked up. -/
theorem Tabulates.get {table : Vector UInt8 256} {P : BitVec 8 → BitVec 8 → Prop} [DecidableRel P]
    (h : Tabulates table P) (num : UInt8) :
    P num.toBitVec (table.get ⟨num.toNat, num.toNat_lt⟩).toBitVec := by
  have hentry : (table.get ⟨num.toNat, num.toNat_lt⟩, num.toNat) ∈ table.toList.zipIdx := by
    rw [List.mk_mem_zipIdx_iff_getElem?, Vector.getElem?_toList]
    exact Vector.getElem?_eq_getElem num.toNat_lt
  have hP := of_decide_eq_true (List.all_eq_true.mp h _ hentry)
  have hnum : BitVec.ofNat 8 num.toNat = num.toBitVec := BitVec.ofNat_toNat ..
  rwa [hnum] at hP

/-- **Each entry of `sbox` is the inverse under the affine map**, checked entry by entry. -/
theorem tabulates_sbox :
    Tabulates sbox fun x y => x = 0 ∧ y = 0x63 ∨ mul low x (invAffineWord y) = 1 := by
  decide +kernel

theorem tabulates_rsbox :
    Tabulates rsbox fun x y => invAffineWord x = 0 ∧ y = 0 ∨ mul low y (invAffineWord x) = 1 := by
  decide +kernel

/-- The inverse of a word, which both tables are checked against. -/
theorem inv_eval_eq {x y : BitVec 8} (h : x = 0 ∧ y = 0 ∨ mul low x y = 1) :
    (eval α x)⁻¹ = eval α y := by
  obtain ⟨rfl, rfl⟩ | hmul := h
  · rw [eval_zero, inv_zero]
  · exact inv_eq_of_mul_eq_one_right (by
      rw [← eval_mul (root_pow low), hmul, eval_one (by decide)])

/-- The substitution is told by the inverse before the affine map. -/
theorem sBox_eval {x y : BitVec 8} (h : (eval α x)⁻¹ = eval α (invAffineWord y)) :
    sBox (eval α x) = eval α y := by
  have hword : (wordEquiv (by decide) low).symm (eval α x)⁻¹ = invAffineWord y := by
    rw [h, Equiv.symm_apply_eq]
    rfl
  have hsBox : sBox (eval α x)
      = eval α (affineWord ((wordEquiv (by decide) low).symm (eval α x)⁻¹)) := rfl
  rw [hsBox, hword, affineWord_invAffineWord]

/-- **The table is the substitution**: before the affine map it holds the inverse in the field. -/
theorem byteEquiv_getSBoxValue (num : UInt8) :
    byteEquiv (getSBoxValue num) = sBox (byteEquiv num) := by
  refine (sBox_eval (inv_eval_eq ?_)).symm
  obtain ⟨hx, hy⟩ | hmul := Tabulates.get tabulates_sbox num
  · exact Or.inl ⟨hx, (congrArg invAffineWord hy).trans (by decide)⟩
  · exact Or.inr hmul

/-- Looking up in `rsbox` is the inverse substitution. -/
theorem byteEquiv_getSBoxInvert (num : UInt8) :
    byteEquiv (getSBoxInvert num) = sBox.symm (byteEquiv num) := by
  refine (Equiv.eq_symm_apply _).mpr (sBox_eval (inv_eval_eq ?_))
  obtain ⟨hx, hy⟩ | hmul := Tabulates.get tabulates_rsbox num
  · exact Or.inl ⟨hy, hx⟩
  · exact Or.inr hmul

/-! ## Multiplication

A byte is a polynomial over the field of two elements, and `xtime` is the product with its
indeterminate.  `Multiply` adds up the multiples that the bits of the factor ask for. -/

/-- A bit is taken out by shifting and masking. -/
theorem bitOf_eq : ∀ y : BitVec 8, ∀ k : Fin 8,
    bitOf ⟨y⟩ (UInt8.ofNat k) = if y.getLsbD k then 1 else 0 := by
  decide +kernel

/-- Times a bit is either the byte or zero. -/
theorem byteEquiv_bitOf_mul (y z : UInt8) (k : Fin 8) :
    byteEquiv (bitOf y (UInt8.ofNat k) * z) = if y.toBitVec.getLsbD k then byteEquiv z else 0 := by
  rw [bitOf_eq y.toBitVec k]
  split_ifs
  · rw [UInt8.one_mul]
  · rw [UInt8.zero_mul, byteEquiv_zero]

/-- `xtime` of the code is that of the words. -/
theorem toBitVec_timesX : ∀ x : BitVec 8, (timesX ⟨x⟩).toBitVec = xtime low x := by
  decide +kernel

@[simp] theorem byteEquiv_timesX (x : UInt8) : byteEquiv (timesX x) = α * byteEquiv x := by
  rw [byteEquiv_apply, toBitVec_timesX, eval_xtime (root_pow low), byteEquiv_apply]

/-- **`Multiply` multiplies**, by a factor of five bits. -/
theorem byteEquiv_multiply (x : UInt8) {y : UInt8} (hy : y < 32) :
    byteEquiv (multiply x y) = byteEquiv y * byteEquiv x := by
  have hhigh : ∀ y : BitVec 8, UInt8.ofBitVec y < 32 →
      y.getLsbD 5 = false ∧ y.getLsbD 6 = false ∧ y.getLsbD 7 = false := by
    decide +kernel
  obtain ⟨h5, h6, h7⟩ := hhigh y.toBitVec hy
  have hbits : byteEquiv y = ∑ i ∈ Finset.range 5, if y.toBitVec.getLsbD i then α ^ i else 0 := by
    rw [byteEquiv_apply, eval]
    simp only [Finset.sum_range_succ _ 7, Finset.sum_range_succ _ 6, Finset.sum_range_succ _ 5, h5,
      h6, h7, Bool.false_eq_true, if_false, add_zero]
  have hterm : ∀ (k : Fin 8) (z : UInt8), byteEquiv z = α ^ (k : ℕ) * byteEquiv x →
      byteEquiv (bitOf y (UInt8.ofNat k) * z)
        = (if y.toBitVec.getLsbD k then α ^ (k : ℕ) else 0) * byteEquiv x := by
    intro k z hz
    rw [byteEquiv_bitOf_mul, ite_mul, zero_mul, hz]
  rw [multiply, byteEquiv_xor, byteEquiv_xor, byteEquiv_xor, byteEquiv_xor, hbits, Finset.sum_mul,
    Finset.sum_range_succ, Finset.sum_range_succ, Finset.sum_range_succ, Finset.sum_range_succ,
    Finset.sum_range_one]
  refine congrArg₂ (· + ·) (congrArg₂ (· + ·) (congrArg₂ (· + ·)
    (congrArg₂ (· + ·) ?_ ?_) ?_) ?_) ?_
  · exact hterm 0 x (by simp)
  · exact hterm 1 (timesX x) (by simp)
  · exact hterm 2 (timesX (timesX x)) (by simp; ring)
  · exact hterm 3 (timesX (timesX (timesX x))) (by simp; ring)
  · exact hterm 4 (timesX (timesX (timesX (timesX x)))) (by simp; ring)

/-! ## Each step is the step of the standard

A loop over the cells that reads only what it has not written yet comes to a function of the whole
block.  `block` takes that function to the one of the standard. -/

/-- A cell that is written, and the others. -/
theorem get_set {α : Type} {n : ℕ} (v : Vector α n) (i j : Fin n) (x : α) :
    (v.set i x i.isLt).get j = if i = j then x else v.get j := by
  change (v.set i x)[(j : ℕ)] = _
  rw [Vector.getElem_set]
  simp only [Fin.val_inj]
  rfl

/-- Writing one byte of the block leaves the others. -/
theorem AesState.byte_put (state : AesState) (i j i' j' : Fin 4) (v : UInt8) :
    (state.put i j v).byte i' j' = if i = i' ∧ j = j' then v else state.byte i' j' := by
  rw [AesState.byte, AesState.put, AesState.byte, get_set]
  by_cases hi : i = i'
  · subst hi
    rw [if_pos rfl, get_set]
    simp only [true_and]
  · rw [if_neg hi, if_neg (fun h => hi h.1)]

theorem AesState.ext {s t : AesState} (h : ∀ i j, s.byte i j = t.byte i j) : s = t :=
  Vector.ext fun i hi => Vector.ext fun j hj => h ⟨i, hi⟩ ⟨j, hj⟩

theorem byte_row (f : Fin 4 → UInt8 → UInt8) (i i' j' : Fin 4) {js : List (Fin 4)}
    (hjs : js.Nodup) (state : AesState) :
    (js.foldl (fun state j => state.put i j (f j (state.byte i j))) state).byte i' j'
      = if i = i' ∧ j' ∈ js then f j' (state.byte i' j') else state.byte i' j' := by
  induction js generalizing state with
  | nil => simp
  | cons j js ih =>
    obtain ⟨hj, hjs⟩ := List.nodup_cons.mp hjs
    rw [List.foldl_cons, ih hjs, AesState.byte_put]
    by_cases hi : i = i'
    · subst hi
      by_cases hjj : j = j'
      · subst hjj
        simp [hj]
      · simp [hjj, Ne.symm hjj]
    · simp [hi]

/-- By induction over the rows that have been gone through: the bytes there are new, and the others
old. -/
theorem byte_rows (f : Fin 4 → Fin 4 → UInt8 → UInt8) (i' j' : Fin 4) {is : List (Fin 4)}
    (his : is.Nodup) (state : AesState) :
    (is.foldl (fun state i => (List.finRange 4).foldl
        (fun state j => state.put i j (f i j (state.byte i j))) state) state).byte i' j'
      = if i' ∈ is then f i' j' (state.byte i' j') else state.byte i' j' := by
  induction is generalizing state with
  | nil => simp
  | cons i is ih =>
    obtain ⟨hi, his⟩ := List.nodup_cons.mp his
    rw [List.foldl_cons, ih his, byte_row (f i) i i' j' (List.nodup_finRange 4)]
    by_cases hii : i = i'
    · subst hii
      simp [hi]
    · simp [hii, Ne.symm hii]

@[simp] theorem byte_eachByte (f : Fin 4 → Fin 4 → UInt8 → UInt8) (state : AesState)
    (i j : Fin 4) : (eachByte f state).byte i j = f i j (state.byte i j) := by
  rw [eachByte, byte_rows f i j (List.nodup_finRange 4), if_pos (List.mem_finRange i)]

/-- By induction over the columns that have been gone through. -/
theorem get_columns (f : Column → Column) (i' : Fin 4) {is : List (Fin 4)} (his : is.Nodup)
    (state : AesState) :
    (is.foldl (fun state (i : Fin 4) => state.set i (f (state.get i))) state).get i'
      = if i' ∈ is then f (state.get i') else state.get i' := by
  induction is generalizing state with
  | nil => simp
  | cons i is ih =>
    obtain ⟨hi, his⟩ := List.nodup_cons.mp his
    rw [List.foldl_cons, ih his]
    by_cases hii : i = i'
    · subst hii
      simp [hi, get_set]
    · simp [hii, Ne.symm hii, get_set]

@[simp] theorem get_eachColumn (f : Column → Column) (state : AesState) (i : Fin 4) :
    (eachColumn f state).get i = f (state.get i) := by
  rw [eachColumn, get_columns f i (List.nodup_finRange 4), if_pos (List.mem_finRange i)]

/-- The block of the standard that `state` holds. -/
noncomputable def AesState.block (state : AesState) : State :=
  Matrix.of fun r c => byteEquiv (state.byte c r)

/-- A block is told by the field elements that its bytes name. -/
theorem AesState.block_injective : Function.Injective AesState.block := by
  intro s t hst
  refine AesState.ext fun i j => ?_
  exact byteEquiv.injective (congrFun (congrFun hst j) i)

/-- **`SubBytes` is that of the standard.** -/
theorem block_subBytes (state : AesState) :
    (subBytes state).block = Rijndael.subBytes state.block := by
  ext r c
  exact (congrArg byteEquiv (byte_eachByte ..)).trans (byteEquiv_getSBoxValue _)

theorem block_invSubBytes (state : AesState) :
    (invSubBytes state).block = Rijndael.subBytes.symm state.block := by
  ext r c
  exact (congrArg byteEquiv (byte_eachByte ..)).trans (byteEquiv_getSBoxInvert _)

/-- **`ShiftRows` is that of the standard.** -/
theorem block_shiftRows (state : AesState) :
    (shiftRows state).block = Rijndael.shiftRows state.block := by
  ext r c
  refine congrArg byteEquiv ?_
  fin_cases r <;> fin_cases c <;> simp [shiftRows, AesState.byte_put]

theorem block_invShiftRows (state : AesState) :
    (invShiftRows state).block = Rijndael.shiftRows.symm state.block := by
  ext r c
  refine congrArg byteEquiv ?_
  fin_cases r <;> fin_cases c <;> simp [invShiftRows, AesState.byte_put] <;> rfl

/-- The column of the standard that four bytes are. -/
noncomputable def columnWord (column : Column) : Word := fun r => byteEquiv (column.get r)

/-- A column of the block, as field elements. -/
theorem columnWord_get (state : AesState) (r c : Fin 4) :
    columnWord (state.get c) r = state.block r c := rfl

theorem exists_column (column : Column) : ∃ a b c d, column = #v[a, b, c, d] := by
  refine ⟨column.get 0, column.get 1, column.get 2, column.get 3, Vector.ext fun i hi => ?_⟩
  interval_cases i <;> rfl

@[simp] theorem columnWord_mk (a b c d : UInt8) :
    columnWord #v[a, b, c, d] = ![byteEquiv a, byteEquiv b, byteEquiv c, byteEquiv d] := by
  ext r
  fin_cases r <;> rfl

/-- Each byte is changed by the double of two and by the sum of all, itself included. -/
theorem mixColumn_mk (a b c d : UInt8) :
    mixColumn #v[a, b, c, d]
      = #v[a ^^^ (timesX (a ^^^ b) ^^^ (a ^^^ b ^^^ c ^^^ d)),
          b ^^^ (timesX (b ^^^ c) ^^^ (a ^^^ b ^^^ c ^^^ d)),
          c ^^^ (timesX (c ^^^ d) ^^^ (a ^^^ b ^^^ c ^^^ d)),
          d ^^^ (timesX (d ^^^ a) ^^^ (a ^^^ b ^^^ c ^^^ d))] := rfl

theorem vec_eq {a b c d a' b' c' d' : GF} (ha : a = a') (hb : b = b') (hc : c = c')
    (hd : d = d') : ![a, b, c, d] = ![a', b', c', d'] := by
  rw [ha, hb, hc, hd]

/-- A round of the loop is the product with the matrix. -/
theorem columnWord_mixColumn (column : Column) :
    columnWord (mixColumn column) = mixMatrix.mulVec (columnWord column) := by
  obtain ⟨a, b, c, d, rfl⟩ := exists_column column
  rw [mixColumn_mk, columnWord_mk, columnWord_mk, mixMatrix, circulant_mulVec]
  simp only [byteEquiv_xor, byteEquiv_timesX]
  refine vec_eq ?_ ?_ ?_ ?_
  · change _ = α * byteEquiv a + (α + 1) * byteEquiv b + 1 * byteEquiv c + 1 * byteEquiv d
    linear_combination byteEquiv a * two_eq_zero
  · change _ = 1 * byteEquiv a + α * byteEquiv b + (α + 1) * byteEquiv c + 1 * byteEquiv d
    linear_combination byteEquiv b * two_eq_zero
  · change _ = 1 * byteEquiv a + 1 * byteEquiv b + α * byteEquiv c + (α + 1) * byteEquiv d
    linear_combination byteEquiv c * two_eq_zero
  · change _ = (α + 1) * byteEquiv a + 1 * byteEquiv b + 1 * byteEquiv c + α * byteEquiv d
    linear_combination byteEquiv d * two_eq_zero

/-- The bytes of the inverse matrix, as the sums of powers that they are in the field. -/
theorem byteEquiv_invMix :
    byteEquiv 0x0e = α ^ 3 + α ^ 2 + α ∧ byteEquiv 0x09 = α ^ 3 + 1
      ∧ byteEquiv 0x0d = α ^ 3 + α ^ 2 + 1 ∧ byteEquiv 0x0b = α ^ 3 + α + 1 := by
  have hbits : ∀ b : UInt8, byteEquiv b
      = ∑ i ∈ Finset.range 8, if b.toBitVec.getLsbD i then α ^ i else 0 := fun b => rfl
  simp only [hbits, Finset.sum_range_succ, Finset.range_zero, Finset.sum_empty]
  refine ⟨?_, ?_, ?_, ?_⟩
  · simp
    ring
  · simp
    ring
  · simp
    ring
  · simp
    ring

/-- Of the inverse, with the inverse matrix. -/
theorem columnWord_invMixColumn (column : Column) :
    columnWord (invMixColumn column) = invMixMatrix.mulVec (columnWord column) := by
  obtain ⟨a, b, c, d, rfl⟩ := exists_column column
  obtain ⟨he, h9, hd, hb⟩ := byteEquiv_invMix
  have hlt : (0x0e : UInt8) < 32 ∧ (0x09 : UInt8) < 32 ∧ (0x0d : UInt8) < 32 ∧
      (0x0b : UInt8) < 32 :=
    by decide
  obtain ⟨hlte, hlt9, hltd, hltb⟩ := hlt
  rw [invMixColumn, columnWord_mk, columnWord_mk, invMixMatrix, circulant_mulVec]
  simp only [byteEquiv_xor, byteEquiv_multiply _ hlte, byteEquiv_multiply _ hlt9,
    byteEquiv_multiply _ hltd, byteEquiv_multiply _ hltb, he, h9, hd, hb]
  exact vec_eq rfl rfl rfl rfl

/-- What multiplies each column multiplies the block. -/
theorem block_eachColumn {f : Column → Column} {M : State}
    (hf : ∀ column, columnWord (f column) = M.mulVec (columnWord column)) (state : AesState) :
    (eachColumn f state).block = M * state.block := by
  ext r c
  calc (eachColumn f state).block r c
      = columnWord (f (state.get c)) r := by
        rw [← columnWord_get, get_eachColumn]
    _ = (M * state.block) r c := by
        rw [hf, Matrix.mul_apply, Matrix.mulVec, dotProduct]
        rfl

/-- **`MixColumns` is that of the standard.** -/
theorem block_mixColumns (state : AesState) :
    (mixColumns state).block = Rijndael.mixColumns state.block :=
  block_eachColumn columnWord_mixColumn state

theorem block_invMixColumns (state : AesState) :
    (invMixColumns state).block = Rijndael.mixColumns.symm state.block :=
  block_eachColumn columnWord_invMixColumn state

/-- The round keys of the standard that `RoundKey` holds. -/
noncomputable def keyBlock (roundKey : RoundKeys) (round : ℕ) : State :=
  Matrix.of fun r c => if h : round * 4 + c.val < 44 then columnWord (roundKey.get ⟨_, h⟩) r else 0

/-- **`AddRoundKey` is that of the standard.** -/
theorem block_addRoundKey (roundKey : RoundKeys) (round : Fin 11) (state : AesState) :
    (addRoundKey roundKey round state).block
      = Rijndael.addRoundKey (keyBlock roundKey round) state.block := by
  ext r c
  have hindex : round.val * 4 + c.val < 44 := by omega
  calc (addRoundKey roundKey round state).block r c
      = byteEquiv (state.byte c r ^^^ (roundKey.get ⟨round * 4 + c, hindex⟩).get r) :=
        congrArg byteEquiv (byte_eachByte ..)
    _ = state.block r c + keyBlock roundKey round r c := by
        rw [byteEquiv_xor, keyBlock, Matrix.of_apply, dif_pos hindex]
        rfl

theorem block_addRoundKey_symm (roundKey : RoundKeys) (round : Fin 11) (state : AesState) :
    (addRoundKey roundKey round state).block
      = (Rijndael.addRoundKey (keyBlock roundKey round)).symm state.block := by
  rw [block_addRoundKey, addRoundKey_symm]

/-! ## The ciphers -/

/-- By induction over the rounds: the loop runs those of the standard. -/
theorem block_roundLoop (roundKey : RoundKeys) {n : ℕ} (hn : n ≤ 9) (state : AesState) :
    (roundLoop roundKey n hn state).block = rounds (keyBlock roundKey) n state.block := by
  induction n with
  | zero => exact block_addRoundKey roundKey 0 state
  | succ n ih =>
    rw [roundLoop, block_addRoundKey, block_mixColumns, block_shiftRows, block_subBytes,
      ih (by omega), rounds_succ_apply]

/-- **`Cipher` is the cipher of the standard** under the round keys in `RoundKey`. -/
theorem block_aesCipher (roundKey : RoundKeys) (state : AesState) :
    (aesCipher roundKey state).block = cipher (keyBlock roundKey) 9 state.block := by
  have hlast : ((10 : Fin 11) : ℕ) = 9 + 1 := rfl
  rw [aesCipher, block_addRoundKey, block_shiftRows, block_subBytes, block_roundLoop, cipher_apply,
    hlast]

/-- The loop undoes the rounds, but for the steps that stand after it. -/
theorem block_invRoundLoop (roundKey : RoundKeys) {n : ℕ} (hn : n ≤ 9) (state : AesState) :
    (addRoundKey roundKey 0 (invSubBytes (invShiftRows (invRoundLoop roundKey n hn state)))).block
      = (rounds (keyBlock roundKey) n).symm
          (Rijndael.subBytes.symm (Rijndael.shiftRows.symm state.block)) := by
  induction n generalizing state with
  | zero =>
    rw [block_addRoundKey_symm, block_invSubBytes, block_invShiftRows]
    rfl
  | succ n ih =>
    rw [invRoundLoop, ih, block_invMixColumns, block_addRoundKey_symm, block_invSubBytes,
      block_invShiftRows, rounds_succ_symm_apply]

/-- `InvCipher` undoes the rounds from the last to the first. -/
theorem block_invCipher (roundKey : RoundKeys) (state : AesState) :
    (invCipher roundKey state).block = (cipher (keyBlock roundKey) 9).symm state.block := by
  have hlast : ((10 : Fin 11) : ℕ) = 9 + 1 := rfl
  rw [invCipher, block_invRoundLoop, block_addRoundKey_symm, cipher_symm_apply, hlast]

/-- **`InvCipher` undoes `Cipher`**, whatever `RoundKey` holds. -/
theorem invCipher_aesCipher (roundKey : RoundKeys) (state : AesState) :
    invCipher roundKey (aesCipher roundKey state) = state := by
  apply AesState.block_injective
  rw [block_invCipher, block_aesCipher, Equiv.symm_apply_apply]

theorem aesCipher_invCipher (roundKey : RoundKeys) (state : AesState) :
    aesCipher roundKey (invCipher roundKey state) = state := by
  apply AesState.block_injective
  rw [block_aesCipher, block_invCipher, Equiv.apply_symm_apply]

/-! ## The key schedule

The words are written one by one, each from two that are there already. -/

/-- The key of the standard: word `i` is the bytes `4 * i` to `4 * i + 3`. -/
noncomputable def keyWords (key : List UInt8) : Fin 4 → Word := fun i r =>
  byteEquiv (key.getD (4 * i + r) 0)

/-- The round constants are the powers of the word 2. -/
theorem rconTable_eq : ∀ j : Fin 10,
    (rconTable.get j.succ).toBitVec = pow low 2 j := by
  decide +kernel

theorem byteEquiv_rconTable {j : ℕ} (hj : 1 ≤ j) (hlt : j < 11) :
    byteEquiv (rconTable.get ⟨j, hlt⟩) = α ^ (j - 1) := by
  obtain ⟨j, rfl⟩ : ∃ i, j = i + 1 := ⟨j - 1, by omega⟩
  have htwo : eval α (2 : BitVec 8) = α := by
    simp [eval, Finset.sum_range_succ]
  have htable := rconTable_eq ⟨j, by omega⟩
  rw [byteEquiv_apply]
  exact (congrArg (eval α) htable).trans (by
    rw [eval_pow (root_pow low) (by decide), htwo, Nat.add_sub_cancel])

/-- `RotWord`, `SubWord` and the constant, on the bytes of a word. -/
theorem columnWord_core (a b c d : UInt8) {j : ℕ} (hj : 1 ≤ j) (hlt : j < 11) :
    columnWord #v[getSBoxValue b ^^^ rconTable.get ⟨j, hlt⟩, getSBoxValue c, getSBoxValue d,
        getSBoxValue a]
      = subWord (rotWord (columnWord #v[a, b, c, d])) + rcon j := by
  ext r
  fin_cases r
  · change byteEquiv (getSBoxValue b ^^^ rconTable.get ⟨j, hlt⟩)
      = sBox (byteEquiv b) + α ^ (j - 1)
    rw [byteEquiv_xor, byteEquiv_getSBoxValue, byteEquiv_rconTable hj]
  · exact (byteEquiv_getSBoxValue c).trans (add_zero _).symm
  · exact (byteEquiv_getSBoxValue d).trans (add_zero _).symm
  · exact (byteEquiv_getSBoxValue a).trans (add_zero _).symm

theorem columnWord_xor (v w : Column) :
    columnWord #v[v.get 0 ^^^ w.get 0, v.get 1 ^^^ w.get 1, v.get 2 ^^^ w.get 2,
        v.get 3 ^^^ w.get 3] = columnWord v + columnWord w := by
  ext r
  fin_cases r <;> exact byteEquiv_xor _ _

theorem columnWord_expandWord (roundKey : RoundKeys) {i : Fin 44} (hi : 4 ≤ i.val) :
    columnWord ((expandWord roundKey i).get i)
      = columnWord (roundKey.get ⟨i - 4, by omega⟩)
        + if i.val % 4 = 0 then
            subWord (rotWord (columnWord (roundKey.get ⟨i - 1, by omega⟩))) + rcon (i / 4)
          else columnWord (roundKey.get ⟨i - 1, by omega⟩) := by
  rw [expandWord, get_set, if_pos rfl, columnWord_xor]
  congr 1
  split_ifs with hmod
  · obtain ⟨a, b, c, d, habcd⟩ := exists_column (roundKey.get ⟨i - 1, by omega⟩)
    rw [habcd, ← columnWord_core a b c d (by omega) (by omega)]
    rfl
  · rfl

theorem get_expandWord_ne (roundKey : RoundKeys) {i j : Fin 44} (hij : i ≠ j) :
    (expandWord roundKey i).get j = roundKey.get j := by
  rw [expandWord, get_set, if_neg hij]

/-- The first words are those of the key. -/
theorem columnWord_copyKey (key : List UInt8) (roundKey : RoundKeys) (i : Fin 4) :
    columnWord ((copyKey key roundKey).get (Fin.castLE (by decide) i)) = keyWords key i := by
  have hget : (copyKey key roundKey).get (Fin.castLE (by decide) i)
      = #v[key.getD (i * 4 + 0) 0, key.getD (i * 4 + 1) 0, key.getD (i * 4 + 2) 0,
        key.getD (i * 4 + 3) 0] := by
    rw [copyKey, show List.finRange 4 = [0, 1, 2, 3] from rfl]
    simp only [List.foldl_cons, List.foldl_nil, get_set]
    fin_cases i <;> rfl
  rw [hget]
  ext r
  rw [keyWords, Nat.mul_comm 4]
  fin_cases r <;> rfl

/-- The words below `n + 4` are those of the schedule: each comes from two before it. -/
theorem columnWord_expandLoop {roundKey : RoundKeys} {key : Fin 4 → Word}
    (hkey : ∀ i : Fin 4, columnWord (roundKey.get (Fin.castLE (by decide) i)) = key i) {n : ℕ}
    (hn : n ≤ 40) (w : Fin 44) (hw : w.val < n + 4) :
    columnWord ((expandLoop roundKey n hn).get w) = word key w := by
  induction n generalizing w with
  | zero =>
    rw [word_of_lt key hw]
    exact hkey ⟨w, hw⟩
  | succ n ih =>
    by_cases hlast : w.val = n + 4
    · have hwn : w = ⟨n + 4, by omega⟩ := Fin.ext hlast
      have hback : ∀ k (hk : k < n + 4),
          columnWord ((expandLoop roundKey n (by omega)).get ⟨k, by omega⟩) = word key k :=
        fun k hk => ih (by omega) ⟨k, by omega⟩ hk
      rw [hwn, expandLoop, columnWord_expandWord _ (Nat.le_add_left 4 n), hback _ (by simp),
        hback _ (by simp)]
      exact (word_of_le key (Nat.le_add_left 4 n)).symm
    · rw [expandLoop, get_expandWord_ne _ (by
        intro h
        exact hlast (congrArg Fin.val h).symm), ih (by omega) w (by omega)]

/-- **`KeyExpansion` writes the words of the key schedule**, whatever stood there. -/
theorem columnWord_keyExpansion (key : List UInt8) (roundKey : RoundKeys) (w : Fin 44) :
    columnWord ((keyExpansion key roundKey).get w) = word (keyWords key) w :=
  columnWord_expandLoop (columnWord_copyKey key roundKey) le_rfl w w.isLt

theorem keyBlock_keyExpansion (key : List UInt8) (roundKey : RoundKeys) (round : Fin 11) :
    keyBlock (keyExpansion key roundKey) round = Rijndael.roundKey (keyWords key) round := by
  ext r c
  have hindex : round.val * 4 + c.val < 44 := by omega
  rw [keyBlock, Matrix.of_apply, dif_pos hindex, columnWord_keyExpansion]
  rfl

/-- **`KeyExpansion` and `Cipher` are the cipher of FIPS 197** under that key, whatever `RoundKey`
held before. -/
theorem cipher_refines (key : List UInt8) (roundKey : RoundKeys) (state : AesState) :
    (aesCipher (keyExpansion key roundKey) state).block = aes128 (keyWords key) state.block := by
  rw [block_aesCipher, aes128, cipher_congr fun i hi =>
    keyBlock_keyExpansion key roundKey ⟨i, by omega⟩]

/-- The inverse cipher with an expanded key is the inverse of the standard. -/
theorem invCipher_refines (key : List UInt8) (roundKey : RoundKeys) (state : AesState) :
    (invCipher (keyExpansion key roundKey) state).block
      = (aes128 (keyWords key)).symm state.block := by
  rw [block_invCipher, aes128, cipher_congr fun i hi =>
    keyBlock_keyExpansion key roundKey ⟨i, by omega⟩]

/-- What stood in `RoundKey` before does not reach the block. -/
theorem aesCipher_keyExpansion (key : List UInt8) (roundKey roundKey' : RoundKeys)
    (state : AesState) :
    aesCipher (keyExpansion key roundKey) state = aesCipher (keyExpansion key roundKey') state := by
  apply AesState.block_injective
  rw [cipher_refines, cipher_refines]

/-! ## The functions on arrays -/

@[simp] theorem AesState.length_store (state : AesState) : state.store.length = 16 :=
  List.length_ofFn

/-- The bytes of a block, as they come in. -/
theorem AesState.byte_load (bytes : List UInt8) (i j : Fin 4) :
    (AesState.load bytes).byte i j = bytes.getD (4 * i + j) 0 := by
  change ((AesState.load bytes)[i.val])[j.val] = _
  simp only [AesState.load, Vector.getElem_ofFn]

/-- A block written to an array is read from it again. -/
theorem AesState.load_store (state : AesState) (rest : List UInt8) :
    AesState.load (state.store ++ rest) = state := by
  refine AesState.ext fun i j => ?_
  have hlt : 4 * i.val + j.val < state.store.length := by
    rw [AesState.length_store]
    omega
  have hrow : (4 * i.val + j.val) / 4 = i := by omega
  have hcol : (4 * i.val + j.val) % 4 = j := by omega
  rw [AesState.byte_load, List.getD_eq_getElem?_getD, List.getElem?_append_left hlt,
    List.getElem?_eq_getElem hlt, Option.getD_some]
  simp only [AesState.store, List.getElem_ofFn, hrow, hcol]

theorem AesState.store_load {bytes : List UInt8} (hlen : 16 ≤ bytes.length) :
    (AesState.load bytes).store = bytes.take 16 := by
  refine List.ext_getElem (by simp [hlen]) fun k hk _ => ?_
  have hk16 : k < 16 := by rwa [AesState.length_store] at hk
  have hsplit : 4 * (k / 4) + k % 4 = k := Nat.div_add_mod k 4
  simp only [AesState.store, List.getElem_ofFn, AesState.byte_load, hsplit, List.getElem_take]
  rw [List.getD_eq_getElem _ _ (by omega)]

theorem AesState.load_take_append {input : List UInt8} {length : ℕ} (rest : List UInt8)
    (hlen : 16 ≤ length) (hin : length ≤ input.length) :
    AesState.load (input.take length ++ rest) = AesState.load input := by
  refine AesState.ext fun i j => ?_
  have hk : 4 * i.val + j.val < length := by omega
  rw [AesState.byte_load, AesState.byte_load, List.getD_eq_getElem?_getD,
    List.getD_eq_getElem?_getD, List.getElem?_append_left (by rw [List.length_take]; omega),
    List.getElem?_take_of_lt hk]

/-- What is ciphered is the first block of what is copied; the rest is copied as it is. -/
theorem ecbWith_eq (f : AesState → AesState) {input : List UInt8} (output : List UInt8) {length : ℕ}
    (hlen : 16 ≤ length) (hin : length ≤ input.length) :
    ecbWith f input output length
      = (f (AesState.load input)).store ++ ((input.take length).drop 16 ++ output.drop length) := by
  rw [ecbWith, AesState.load_take_append _ hlen hin,
    List.drop_append_of_le_length (by rw [List.length_take]; omega)]

/-- **One function undoes the other on the whole array**, the bytes after the first block included,
if it holds a block. -/
theorem ecbWith_ecbWith {f g : AesState → AesState} (hgf : ∀ state, g (f state) = state)
    {input : List UInt8} (output output' : List UInt8) {length : ℕ} (hlen : 16 ≤ length)
    (hin : length ≤ input.length) :
    (ecbWith g (ecbWith f input output length) output' length).take length
      = input.take length := by
  obtain ⟨tail, hdef⟩ : ∃ tail, tail = (input.take length).drop 16 := ⟨_, rfl⟩
  have htail : tail.length = length - 16 := by
    rw [hdef, List.length_drop, List.length_take, Nat.min_eq_left hin]
  have hcut : ∀ (bytes rest : List UInt8), bytes.length = 16 →
      (bytes ++ (tail ++ rest)).take length = bytes ++ tail := by
    intro bytes rest hbytes
    rw [← List.append_assoc]
    exact List.take_left' (by rw [List.length_append, htail, hbytes]; omega)
  have hwhole : input.take 16 ++ tail = input.take length := by
    have htake : (input.take length).take 16 = input.take 16 := by
      rw [List.take_take, Nat.min_eq_left hlen]
    rw [← htake, hdef, List.take_append_drop]
  have hcipher := ecbWith_eq f output hlen hin
  rw [← hdef] at hcipher
  have hfirst : length ≤ (ecbWith f input output length).length := by
    rw [hcipher, List.length_append, List.length_append, AesState.length_store, htail]
    omega
  rw [ecbWith_eq g output' hlen hfirst, hcipher, AesState.load_store, hgf,
    hcut _ _ (AesState.length_store _), List.drop_left' (AesState.length_store _),
    AesState.store_load (le_trans hlen hin), hcut _ _ (by rw [List.length_take]; omega), hwhole]

/-- `AESEncryptBlock`, as the block cipher that the code and the key stream are computed with. -/
def aesBlockCipher : BlockCipher where
  aesEncryptBlock key block :=
    (aesCipher (keyExpansion key (Vector.replicate 44 (Vector.replicate 4 0)))
      (AesState.load block)).store
  length_aesEncryptBlock _ _ := AesState.length_store _

/-- The block that `AESEncryptBlock` writes is a function of the key and the block alone. -/
theorem aesEncryptBlock_eq {input output : List UInt8} (key : List UInt8) (roundKey : RoundKeys)
    (hin : input.length = 16) (hout : output.length = 16) :
    (aesEncryptBlock input output (some key) roundKey).1
      = aesBlockCipher.aesEncryptBlock key input := by
  have hrest : (input.take 16).drop 16 ++ output.drop 16 = [] := by
    rw [List.take_of_length_le hin.le, List.drop_of_length_le hin.le,
      List.drop_of_length_le hout.le, List.append_nil]
  rw [aesEncryptBlock, ecbWith_eq _ output le_rfl hin.ge, hrest, List.append_nil]
  exact congrArg AesState.store (aesCipher_keyExpansion ..)

/-- Without a key the last one stays in use. -/
theorem aesEncryptBlock_none (input output input' output' key : List UInt8) (roundKey : RoundKeys) :
    (aesEncryptBlock input' output' none (aesEncryptBlock input output (some key) roundKey).2).1
      = (aesEncryptBlock input' output' (some key) roundKey).1 := rfl

/-! ## The standard on bytes

To read blocks of the standard as bytes and back, the elements of the field are named by the bytes
they are. -/

/-- The block that 16 bytes are, column by column. -/
noncomputable def blockOf (bytes : List UInt8) : State :=
  Matrix.of fun r c => byteEquiv (bytes.getD (4 * c + r) 0)

/-- The bytes that a block of the standard stands for. -/
noncomputable def bytesOf (block : State) : List UInt8 :=
  List.ofFn fun k : Fin 16 => byteEquiv.symm (block ⟨k % 4, by omega⟩ ⟨k / 4, by omega⟩)

/-- AES-128 on bytes, as the standard has it. -/
noncomputable def aes128Bytes (key block : List UInt8) : List UInt8 :=
  bytesOf (aes128 (keyWords key) (blockOf block))

/-- Loading is taking the elements that the bytes name. -/
theorem AesState.block_load (bytes : List UInt8) :
    (AesState.load bytes).block = blockOf bytes := by
  ext r c
  exact congrArg byteEquiv (AesState.byte_load bytes c r)

theorem AesState.bytesOf_block (state : AesState) : bytesOf state.block = state.store := by
  refine congrArg List.ofFn (funext fun k => ?_)
  exact byteEquiv.symm_apply_apply _

/-- The cipher of the code, from bytes to bytes. -/
theorem store_aesCipher (key bytes : List UInt8) (roundKey : RoundKeys) :
    (aesCipher (keyExpansion key roundKey) (AesState.load bytes)).store
      = aes128Bytes key bytes := by
  rw [aes128Bytes, ← AesState.block_load, ← cipher_refines key roundKey, AesState.bytesOf_block]

/-- **`AESEncryptBlock` writes the block of the standard**, and so does a later call without a key,
whatever was ciphered in between under that key. -/
theorem aesEncryptBlock_refines (key : List UInt8) (roundKey : RoundKeys)
    (input output input' output' : List UInt8) (hin : input.length = 16)
    (hout : output.length = 16) (hin' : input'.length = 16) (hout' : output'.length = 16) :
    let first := aesEncryptBlock input output (some key) roundKey
    first.1 = aes128Bytes key input ∧
      (aesEncryptBlock input' output' none first.2).1 = aes128Bytes key input' := by
  refine ⟨?_, ?_⟩
  · rw [aesEncryptBlock_eq key roundKey hin hout]
    exact store_aesCipher ..
  · rw [aesEncryptBlock_none, aesEncryptBlock_eq key roundKey hin' hout']
    exact store_aesCipher ..

/-- Two calls, the second without a key. -/
theorem aesEncryptBlock_refines_zero :
    let zeros : List UInt8 := List.replicate 16 0
    let first := aesEncryptBlock zeros zeros (some zeros)
      (Vector.replicate 44 (Vector.replicate 4 0))
    (aesEncryptBlock first.1 zeros none first.2).1
      = aes128Bytes zeros (aes128Bytes zeros zeros) := by
  intro zeros first
  have hlen : first.1.length = 16 := AesState.length_store _
  have h := aesEncryptBlock_refines zeros (Vector.replicate 44 (Vector.replicate 4 0)) zeros zeros
    first.1 zeros (List.length_replicate ..) (List.length_replicate ..) hlen
    (List.length_replicate ..)
  rw [← h.1]
  exact h.2

/-- **`AES_ECB_encrypt` writes the block of the standard and copies the rest, and `AES_ECB_decrypt`
gives all of it back**, whatever stood in `RoundKey` and in either array. -/
theorem aesEcb_opened (key : List UInt8) (roundKey roundKey' : RoundKeys)
    (input output output' : List UInt8) {length : ℕ} (hlen : 16 ≤ length)
    (hin : length ≤ input.length) :
    let cipher := (aesEcbEncrypt input key output length roundKey).1
    cipher = aes128Bytes key input ++ ((input.take length).drop 16 ++ output.drop length) ∧
      (aesEcbDecrypt cipher key output' length roundKey').1.take length = input.take length := by
  intro cipher
  have hundo : ∀ state, invCipher (keyExpansion key roundKey')
      (aesCipher (keyExpansion key roundKey) state) = state := fun state => by
    rw [aesCipher_keyExpansion key roundKey roundKey', invCipher_aesCipher]
  refine ⟨?_, ecbWith_ecbWith hundo output output' hlen hin⟩
  rw [← store_aesCipher key input roundKey]
  exact ecbWith_eq _ output hlen hin

/-- Twenty bytes: a block, and four that are copied. -/
theorem aesEcb_opened_twenty :
    let input : List UInt8 := List.replicate 20 7
    let key : List UInt8 := List.replicate 16 1
    let output : List UInt8 := List.replicate 20 0
    let start : RoundKeys := Vector.replicate 44 (Vector.replicate 4 0)
    (aesEcbDecrypt (aesEcbEncrypt input key output 20 start).1 key output 20 start).1.take 20
      = input := by
  intro input key output start
  exact (aesEcb_opened key start start input output output (by decide) (by decide)).2

/-- **`AES128_CMAC` with the cipher of `aes.c` is the code of RFC 4493 over the AES of the
standard.** -/
theorem aes128Cmac_refines (key msg : List UInt8) (size : UInt8) (hsize : size.toNat ≤ msg.length) :
    aes128Cmac aesBlockCipher key msg size
      = (Cmac.cmac (aes128Bytes key) (msg.take size.toNat)).take 4 := by
  have hcipher : aesBlockCipher.aesEncryptBlock key = aes128Bytes key :=
    funext fun bytes => store_aesCipher key bytes _
  rw [aes128Cmac_eq aesBlockCipher key hsize, hcipher]

/-- Three bytes, in a block that is padded. -/
theorem aes128Cmac_refines_three :
    aes128Cmac aesBlockCipher (List.replicate 16 1) [1, 2, 3] 3
      = (Cmac.cmac (aes128Bytes (List.replicate 16 1)) [1, 2, 3]).take 4 :=
  aes128Cmac_refines (List.replicate 16 1) [1, 2, 3] 3 (by decide)

end LoRaGwSv
