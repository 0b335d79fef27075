import LoRaGwSv.Machinery.Wire
import LoRaGwSv.Server.AesCmac

/-!
# Server/Crypto — the integrity code and the cipher of a frame (`crypto.c`)

`GenerateMIC` puts a block `B0` before the frame and has `AES128_CMAC` compute the code of both.
The size goes there in eight bits, the 16 bytes of `B0` counted in: **the code covers the frame
exactly if the frame is shorter than 240 bytes** (`generateMIC_covers_iff`); from there on it is the
code of the beginning of `B0` and does not depend on the frame at all
(`generateMIC_congr_of_long`).

`EncryptPayload` combines the payload with one enciphered counter block for each 16 bytes.  **Done
twice it gives the payload back** (`decryptPayload_encryptPayload`): up to 255 bytes its eight-bit
offset and counter do not wrap, so that each byte is written once and the counter blocks differ.
-/

namespace LoRaGwSv

open Wire

/-- What of a `LoRaFrameHeader_t` goes into a block. -/
structure LoRaFrameHeader where
  address : UInt32
  frameCounter : UInt16
deriving DecidableEq, Repr

/-- The block both functions fill in, with its first and its last byte. -/
def frameBlock (first direction : UInt8) (fHeader : LoRaFrameHeader) (last : UInt8) : List UInt8 :=
  [first, 0x00, 0x00, 0x00, 0x00, direction] ++ le32 fHeader.address ++ le16 fHeader.frameCounter
    ++ [0x00, 0x00, 0x00, last]

/-- `bBlocki[0]` to `bBlocki[15]`. -/
def bBlock (direction : UInt8) (fHeader : LoRaFrameHeader) (size : UInt16) : List UInt8 :=
  frameBlock 0x49 direction fHeader size.toUInt8

/-- `GenerateMIC`; `stack` is what stands behind the message in `bBlocki`. -/
def generateMIC (aes : BlockCipher) (stack msg : List UInt8) (size : UInt16) (direction : UInt8)
    (fHeader : LoRaFrameHeader) (nwkSKey : List UInt8) : List UInt8 :=
  let bBlocki := bBlock direction fHeader size ++ (msg.take size.toNat ++ stack)
  aes128Cmac aes nwkSKey bBlocki (size + 16).toUInt8

variable {aes : BlockCipher} {stack msg src dest nwkSKey appSKey : List UInt8} {direction : UInt8}
  {fHeader : LoRaFrameHeader}

/-! ## The integrity code

Of a frame that is too long only the beginning of `B0` gets into the code, so a cipher is found that
tells it from the right one.  For all others the code is that of the right bytes. -/

/-- **The code of a frame covers all of it**: it is the first four bytes of the code of `B0` and the
frame, whatever the cipher. -/
def MicCovers (stack msg : List UInt8) (direction : UInt8) (fHeader : LoRaFrameHeader)
    (nwkSKey : List UInt8) : Prop :=
  ∀ aes : BlockCipher,
    generateMIC aes stack msg (UInt16.ofNat msg.length) direction fHeader nwkSKey
      = (Cmac.cmac (aes.aesEncryptBlock nwkSKey)
          (bBlock direction fHeader (UInt16.ofNat msg.length) ++ msg)).take 4

@[simp] theorem length_frameBlock (first direction : UInt8) (fHeader : LoRaFrameHeader)
    (last : UInt8) : (frameBlock first direction fHeader last).length = 16 := rfl

/-- As much of `bBlocki` enters the code as the size says after its cut to eight bits. -/
theorem generateMIC_eq (hlen : msg.length ≤ 255) :
    generateMIC aes stack msg (UInt16.ofNat msg.length) direction fHeader nwkSKey
      = (Cmac.cmac (aes.aesEncryptBlock nwkSKey)
          ((bBlock direction fHeader (UInt16.ofNat msg.length) ++ msg).take
            ((msg.length + 16) % 256))).take 4 := by
  have hsize : (UInt16.ofNat msg.length).toNat = msg.length := by
    rw [UInt16.toNat_ofNat']
    omega
  have hcut : (UInt16.ofNat msg.length + 16).toUInt8.toNat = (msg.length + 16) % 256 := by
    rw [UInt16.toNat_toUInt8, UInt16.toNat_add, hsize, show (16 : UInt16).toNat = 16 from rfl]
    omega
  have hfits : (bBlock direction fHeader (UInt16.ofNat msg.length) ++ msg).length
      = msg.length + 16 := by
    rw [List.length_append, bBlock, length_frameBlock, Nat.add_comm]
  rw [generateMIC, hsize, List.take_length, ← List.append_assoc, aes128Cmac_eq, hcut,
    List.take_append_of_le_length (by rw [hfits]; exact Nat.mod_le _ _)]
  rw [hcut, List.length_append, hfits]
  exact le_trans (Nat.mod_le _ _) (Nat.le_add_right _ _)

theorem block_bBlock (size : UInt16) (msg : List UInt8) :
    Cmac.block (bBlock direction fHeader size ++ msg) 0 = bBlock direction fHeader size :=
  List.take_left' (length_frameBlock ..)

/-- The block that the code of a long frame comes from is not the first of the right message. -/
theorem bBlock_ne_padding {size : UInt16} {k : ℕ} (hsize : 240 ≤ size.toUInt8.toNat)
    (hk : k < 16) :
    bBlock direction fHeader size ≠ Cmac.padding ((bBlock direction fHeader size).take k) := by
  intro heq
  have hlen : ((bBlock direction fHeader size).take k).length = k := by
    rw [List.length_take, bBlock, length_frameBlock, Nat.min_eq_left hk.le]
  have hlast : size.toUInt8
      = (Cmac.padding ((bBlock direction fHeader size).take k)).getD 15 0 :=
    congrArg (List.getD · 15 0) heq
  rw [Cmac.getD_padding _ (by decide), hlen, if_neg (by omega)] at hlast
  rw [hlast] at hsize
  split_ifs at hsize
  · exact absurd hsize (by decide)
  · exact absurd hsize (by decide)

theorem padding_ne_zero {bs : List UInt8} (hbs : bs.length < 16) : Cmac.padding bs ≠ Cmac.zero := by
  intro heq
  have hmark := congrArg (List.getD · bs.length 0) heq
  simp only [Cmac.getD_padding _ hbs, if_neg (lt_irrefl _), if_true] at hmark
  rw [Cmac.zero, List.getD_replicate _ hbs] at hmark
  exact absurd hmark (by decide)

/-- **From 240 bytes on, some cipher tells the code from the right one.** -/
theorem exists_generateMIC_ne (stack : List UInt8) (direction : UInt8) (fHeader : LoRaFrameHeader)
    (nwkSKey : List UInt8) (hlong : 240 ≤ msg.length) (hlen : msg.length ≤ 255) :
    ¬MicCovers stack msg direction fHeader nwkSKey := by
  let B := bBlock direction fHeader (UInt16.ofNat msg.length)
  let k := (msg.length + 16) % 256
  have hk : k < 16 := by simp only [k]; omega
  have hB : B.length = 16 := length_frameBlock ..
  have htake : (B.take k).length < 16 := by
    rw [List.length_take]
    omega
  have hsize : 240 ≤ (UInt16.ofNat msg.length).toUInt8.toNat := by
    rw [UInt16.toNat_toUInt8, UInt16.toNat_ofNat']
    omega
  have hfirst : Cmac.block (B ++ msg) 0 = B := block_bBlock _ msg
  obtain ⟨e, he, hzero, hne⟩ := @Cmac.exists_cmac_ne (B ++ msg) (Cmac.padding (B.take k))
    (by rw [List.length_append]; omega) (by rw [List.length_append]; omega)
    (Cmac.length_padding htake) (padding_ne_zero htake)
    (by rw [hfirst]; exact fun h => absurd (List.cons.inj h).1 (by decide))
    (by rw [hfirst]; exact bBlock_ne_padding hsize hk)
  intro hcovers
  have hmic := hcovers ⟨fun _ block => e block, fun _ block => he block⟩
  rw [generateMIC_eq hlen, List.take_append_of_le_length (by rw [hB]; exact hk.le),
    Cmac.cmac_of_short hzero htake] at hmic
  exact hne hmic

/-- All frames of one such length have the same code. -/
theorem generateMIC_congr_of_long {msg' : List UInt8} (hlong : 240 ≤ msg.length)
    (hlen : msg.length ≤ 255) (hsame : msg'.length = msg.length) :
    generateMIC aes stack msg' (UInt16.ofNat msg'.length) direction fHeader nwkSKey
      = generateMIC aes stack msg (UInt16.ofNat msg.length) direction fHeader nwkSKey := by
  have hk : ∀ size, (msg.length + 16) % 256 ≤ (bBlock direction fHeader size).length := by
    intro size
    rw [bBlock, length_frameBlock]
    omega
  rw [generateMIC_eq (hsame ▸ hlen), generateMIC_eq hlen, hsame,
    List.take_append_of_le_length (hk _), List.take_append_of_le_length (hk _)]

/-- **The integrity code covers the whole frame exactly if that is shorter than 240 bytes.** -/
theorem generateMIC_covers_iff (stack msg : List UInt8) (direction : UInt8)
    (fHeader : LoRaFrameHeader) (nwkSKey : List UInt8) (hlen : msg.length ≤ 255) :
    MicCovers stack msg direction fHeader nwkSKey ↔ msg.length < 240 := by
  constructor
  · exact fun hcovers => not_le.mp fun hlong =>
      exists_generateMIC_ne stack direction fHeader nwkSKey hlong hlen hcovers
  · intro hshort aes
    have hwhole : (bBlock direction fHeader (UInt16.ofNat msg.length) ++ msg).take
        ((msg.length + 16) % 256) = bBlock direction fHeader (UInt16.ofNat msg.length) ++ msg := by
      refine List.take_of_length_le ?_
      rw [List.length_append, bBlock, length_frameBlock]
      omega
    rw [generateMIC_eq hlen, hwhole]

/-- A frame of three bytes is covered. -/
theorem generateMIC_covers_iff_three : MicCovers [] [1, 2, 3] 1 ⟨7, 9⟩ (List.replicate 16 0) :=
  (generateMIC_covers_iff [] [1, 2, 3] 1 ⟨7, 9⟩ (List.replicate 16 0) (by decide)).mpr (by decide)

/-- The cipher that leaves its block as it is. -/
def plainCipher : BlockCipher where
  aesEncryptBlock _ block := xor16 block []
  length_aesEncryptBlock _ _ := rfl

/-- One of 240 bytes is not. -/
theorem not_covers_long : ¬MicCovers [] (List.replicate 240 0) 1 ⟨7, 9⟩ (List.replicate 16 0) := by
  intro hcovers
  exact absurd (hcovers plainCipher) (by decide +kernel)

/-! ## The cipher

The loop keeps an offset and a counter of eight bits each.  The invariant is at the block
boundaries: so many blocks are done, and each byte of them has been written once. -/

/-- Where `EncryptPayload` is: what is left of its parameters, its output, and in which order it has
written positions of it and enciphered blocks. -/
structure EncryptState where
  size : UInt16
  len : UInt8
  blockCnt : UInt8
  dest : List UInt8
  written : List ℕ
  aBlocks : List (List UInt8)
deriving DecidableEq, Repr

/-- `aBlocki`. -/
def aBlock (direction : UInt8) (fHeader : LoRaFrameHeader) (blockCnt : UInt8) : List UInt8 :=
  frameBlock 0x01 direction fHeader blockCnt

/-- `dest[len + loopCnt] = src[len + loopCnt] ^ sBlocki[loopCnt]`. -/
def encryptByte (src sBlocki : List UInt8) (s : EncryptState) (loopCnt : ℕ) : EncryptState :=
  let i := s.len.toNat + loopCnt
  { s with
    dest := s.dest.set i (src.getD i 0 ^^^ sBlocki.getD loopCnt 0)
    written := s.written ++ [i] }

/-- `aBlocki[15] = blockCnt++`, and the block goes to `AESEncryptBlock`. -/
def nextBlock (direction : UInt8) (fHeader : LoRaFrameHeader) (s : EncryptState) : EncryptState :=
  { s with
    blockCnt := s.blockCnt + 1
    aBlocks := s.aBlocks ++ [aBlock direction fHeader s.blockCnt] }

/-- One enciphered block, and the first `count` bytes of it. -/
def encryptBlock (aes : BlockCipher) (key src : List UInt8) (direction : UInt8)
    (fHeader : LoRaFrameHeader) (s : EncryptState) (count : ℕ) : EncryptState :=
  let sBlocki := aes.aesEncryptBlock key (aBlock direction fHeader s.blockCnt)
  (List.range count).foldl (encryptByte src sBlocki) (nextBlock direction fHeader s)

/-- `size -= 16; len +=16;`. -/
def updateParameters (s : EncryptState) : EncryptState :=
  { s with size := s.size - 16, len := s.len + 16 }

/-- `while(size >= 16)`; each turn takes 16 off, so `size` turns are enough. -/
def encryptLoop (aes : BlockCipher) (key src : List UInt8) (direction : UInt8)
    (fHeader : LoRaFrameHeader) : ℕ → EncryptState → EncryptState
  | 0, s => s
  | fuel + 1, s =>
    if 16 ≤ s.size.toNat then
      encryptLoop aes key src direction fHeader fuel
        (updateParameters (encryptBlock aes key src direction fHeader s 16))
    else s

/-- `EncryptPayload`: a block for every 16 bytes, and one for what is left. -/
def encryptPayload (aes : BlockCipher) (dest src : List UInt8) (size : UInt16) (direction : UInt8)
    (fHeader : LoRaFrameHeader) (port : UInt8) (nwkSKey appSKey : List UInt8) : EncryptState :=
  let key := if port = 0 then nwkSKey else appSKey
  let s := encryptLoop aes key src direction fHeader size.toNat ⟨size, 0, 1, dest, [], []⟩
  if 0 < s.size.toNat then encryptBlock aes key src direction fHeader s s.size.toNat else s

/-- `DecryptPayload` is the same call. -/
def decryptPayload (aes : BlockCipher) (dest src : List UInt8) (size : UInt16) (direction : UInt8)
    (fHeader : LoRaFrameHeader) (port : UInt8) (nwkSKey appSKey : List UInt8) : EncryptState :=
  encryptPayload aes dest src size direction fHeader port nwkSKey appSKey

/-- The byte of the key stream at a position: its block is counted from 1. -/
def keyByte (aes : BlockCipher) (key : List UInt8) (direction : UInt8) (fHeader : LoRaFrameHeader)
    (i : ℕ) : UInt8 :=
  (aes.aesEncryptBlock key (aBlock direction fHeader (UInt8.ofNat (i / 16 + 1)))).getD (i % 16) 0

/-- The first `i` bytes of `src` are combined with the key stream, each once, and nothing else is
written. -/
structure Enciphered (keyStream : ℕ → UInt8) (src dest : List UInt8) (s : EncryptState) (i : ℕ) :
    Prop where
  length_eq : s.dest.length = dest.length
  getD_eq : ∀ j, s.dest.getD j 0
    = if j < i then src.getD j 0 ^^^ keyStream j else dest.getD j 0
  written_eq : s.written = List.range i

/-- The loop is at a block boundary, behind `m` blocks of the `n` bytes. -/
structure AtBlock (aes : BlockCipher) (key src dest : List UInt8) (direction : UInt8)
    (fHeader : LoRaFrameHeader) (n : ℕ) (s : EncryptState) (m : ℕ) : Prop where
  enciphered : Enciphered (keyByte aes key direction fHeader) src dest s (16 * m)
  len_eq : s.len.toNat = 16 * m
  blockCnt_eq : s.blockCnt = UInt8.ofNat (m + 1)
  size_eq : s.size.toNat + 16 * m = n
  aBlocks_eq : s.aBlocks
    = (List.range m).map fun k => aBlock direction fHeader (UInt8.ofNat (k + 1))

variable {keyStream : ℕ → UInt8} {key sBlocki : List UInt8} {s : EncryptState} {i n m count : ℕ}

/-- One byte more is combined with its byte of the key stream. -/
theorem Enciphered.byte {loopCnt : ℕ} (h : Enciphered keyStream src dest s i)
    (hi : s.len.toNat + loopCnt = i) (hfits : i < dest.length)
    (hkey : sBlocki.getD loopCnt 0 = keyStream i) :
    Enciphered keyStream src dest (encryptByte src sBlocki s loopCnt) (i + 1) where
  length_eq := (List.length_set ..).trans h.length_eq
  getD_eq j := by
    rw [encryptByte, hi, hkey]
    by_cases hj : j = i
    · subst hj
      rw [if_pos (Nat.lt_succ_self j), List.getD_eq_getElem?_getD,
        List.getElem?_set_self (h.length_eq ▸ hfits), Option.getD_some]
    · rw [List.getD_eq_getElem?_getD, List.getElem?_set_ne (Ne.symm hj),
        ← List.getD_eq_getElem?_getD, h.getD_eq j]
      exact if_congr (by omega) rfl rfl
  written_eq := by rw [encryptByte, hi, h.written_eq, List.range_succ]

/-- The loop over the bytes of a block keeps the counters. -/
theorem encryptBytes_frame (src sBlocki : List UInt8) (s : EncryptState) (count : ℕ) :
    let s' := (List.range count).foldl (encryptByte src sBlocki) s
    s'.size = s.size ∧ s'.len = s.len ∧ s'.blockCnt = s.blockCnt ∧ s'.aBlocks = s.aBlocks := by
  induction count with
  | zero => exact ⟨rfl, rfl, rfl, rfl⟩
  | succ count ih =>
    rw [List.range_succ, List.foldl_append]
    exact ih

theorem Enciphered.bytes (h : Enciphered keyStream src dest s (16 * m))
    (hlen : s.len.toNat = 16 * m) (hfits : 16 * m + count ≤ dest.length)
    (hkey : ∀ k < count, sBlocki.getD k 0 = keyStream (16 * m + k)) :
    Enciphered keyStream src dest ((List.range count).foldl (encryptByte src sBlocki) s)
      (16 * m + count) := by
  induction count with
  | zero => exact h
  | succ count ih =>
    rw [List.range_succ, List.foldl_append]
    have hlen' := (encryptBytes_frame src sBlocki s count).2.1
    refine (ih (by omega) fun k hk => hkey k (Nat.lt_succ_of_lt hk)).byte ?_ hfits
      (hkey count (Nat.lt_succ_self count))
    rw [hlen', hlen]

/-- **A block is combined with the key stream at its place.** -/
theorem AtBlock.block (h : AtBlock aes key src dest direction fHeader n s m)
    (hcount : count ≤ 16) (hfits : 16 * m + count ≤ dest.length) :
    let s' := encryptBlock aes key src direction fHeader s count
    Enciphered (keyByte aes key direction fHeader) src dest s' (16 * m + count) ∧
      s'.size = s.size ∧ s'.len = s.len ∧ s'.blockCnt = UInt8.ofNat (m + 2) ∧ s'.aBlocks
        = (List.range (m + 1)).map fun k => aBlock direction fHeader (UInt8.ofNat (k + 1)) := by
  intro s'
  obtain ⟨hsize, hlen, hcnt, hblocks⟩ := encryptBytes_frame src
    (aes.aesEncryptBlock key (aBlock direction fHeader s.blockCnt))
    (nextBlock direction fHeader s) count
  have hin : Enciphered (keyByte aes key direction fHeader) src dest
      (nextBlock direction fHeader s) (16 * m) :=
    ⟨h.enciphered.length_eq, h.enciphered.getD_eq, h.enciphered.written_eq⟩
  refine ⟨hin.bytes h.len_eq hfits fun k hk => ?_, hsize, hlen, hcnt.trans ?_, hblocks.trans ?_⟩
  · rw [keyByte, h.blockCnt_eq, show (16 * m + k) / 16 = m by omega,
      show (16 * m + k) % 16 = k by omega]
  · rw [nextBlock, h.blockCnt_eq, UInt8.ofNat_add (m + 1) 1]
    rfl
  · rw [nextBlock, h.aBlocks_eq, h.blockCnt_eq, List.range_succ, List.map_append]
    rfl

/-- A whole block moves the offset and the counter on, which do not wrap. -/
theorem AtBlock.next (h : AtBlock aes key src dest direction fHeader n s m) (hn : n ≤ 255)
    (hfull : 16 ≤ s.size.toNat) (hfits : n ≤ dest.length) :
    AtBlock aes key src dest direction fHeader n
      (updateParameters (encryptBlock aes key src direction fHeader s 16)) (m + 1) := by
  have hsize := h.size_eq
  obtain ⟨henc, hsize', hlen', hcnt', hblocks'⟩ := h.block (le_refl 16) (by omega)
  generalize encryptBlock aes key src direction fHeader s 16 = s' at *
  refine ⟨⟨henc.length_eq, henc.getD_eq, henc.written_eq⟩, ?_, hcnt', ?_, hblocks'⟩
  · rw [updateParameters, hlen', UInt8.toNat_add, h.len_eq, show (16 : UInt8).toNat = 16 from rfl]
    omega
  · rw [updateParameters, hsize', UInt16.toNat_sub_of_le _ _ hfull,
      show (16 : UInt16).toNat = 16 from rfl]
    omega

/-- **The loop ends at the last block boundary.** -/
theorem AtBlock.encryptLoop {fuel : ℕ} (h : AtBlock aes key src dest direction fHeader n s m)
    (hn : n ≤ 255) (hfits : n ≤ dest.length) (hfuel : s.size.toNat ≤ fuel) :
    AtBlock aes key src dest direction fHeader n (encryptLoop aes key src direction fHeader fuel s)
      (n / 16) := by
  induction fuel generalizing s m with
  | zero =>
    have hm : n / 16 = m := by
      have := h.size_eq
      omega
    rw [LoRaGwSv.encryptLoop, hm]
    exact h
  | succ fuel ih =>
    rw [LoRaGwSv.encryptLoop]
    split_ifs with hfull
    · refine ih (h.next hn hfull hfits) ?_
      have hsize := (h.next hn hfull hfits).size_eq
      have := h.size_eq
      omega
    · have hm : n / 16 = m := by
        have := h.size_eq
        omega
      rw [hm]
      exact h

/-- **The output is the input combined with the key stream**, and the blocks enciphered for it are
counted from 1. -/
theorem encryptPayload_enciphered (aes : BlockCipher) {size : UInt16} (direction : UInt8)
    (fHeader : LoRaFrameHeader) (port : UInt8) (nwkSKey appSKey : List UInt8)
    (hn : size.toNat ≤ 255) (hfits : size.toNat ≤ dest.length) :
    let s := encryptPayload aes dest src size direction fHeader port nwkSKey appSKey
    Enciphered (keyByte aes (if port = 0 then nwkSKey else appSKey) direction fHeader) src dest s
        size.toNat ∧ s.aBlocks = (List.range ((size.toNat + 15) / 16)).map fun k =>
          aBlock direction fHeader (UInt8.ofNat (k + 1)) := by
  intro s
  have hstart : AtBlock aes (if port = 0 then nwkSKey else appSKey) src dest direction fHeader
      size.toNat ⟨size, 0, 1, dest, [], []⟩ 0 :=
    ⟨⟨rfl, fun _ => rfl, rfl⟩, rfl, rfl, rfl, rfl⟩
  have hend := hstart.encryptLoop hn hfits (le_refl size.toNat)
  simp only [s, encryptPayload]
  generalize (if port = 0 then nwkSKey else appSKey) = key at *
  generalize encryptLoop aes key src direction fHeader size.toNat _ = s' at *
  have hsize := hend.size_eq
  by_cases hrest : 0 < s'.size.toNat
  · obtain ⟨henc, -, -, -, hblocks⟩ := hend.block (show s'.size.toNat ≤ 16 by omega) (by omega)
    rw [Nat.add_comm, hsize] at henc
    rw [if_pos hrest, hblocks, show (size.toNat + 15) / 16 = size.toNat / 16 + 1 by omega]
    exact ⟨henc, rfl⟩
  · have hwhole : 16 * (size.toNat / 16) = size.toNat := by omega
    have henc := hend.enciphered
    rw [hwhole] at henc
    rw [if_neg hrest, hend.aBlocks_eq, show (size.toNat + 15) / 16 = size.toNat / 16 by omega]
    exact ⟨henc, rfl⟩

/-! ## Deciphering

Enciphering is the exclusive or with a key stream that depends on the header alone, so doing it
twice undoes it. -/

theorem Enciphered.count_written (h : Enciphered keyStream src dest s n) (hi : i < n) :
    s.written.count i = 1 := by
  rw [h.written_eq]
  exact List.count_eq_one_of_mem List.nodup_range (List.mem_range.mpr hi)

/-- Combining with the key stream a second time gives the bytes back. -/
theorem Enciphered.take_eq {dest' : List UInt8} {s' : EncryptState}
    (h : Enciphered keyStream src dest s src.length) (hfits : src.length ≤ dest'.length)
    (h' : Enciphered keyStream s.dest dest' s' src.length) : s'.dest.take src.length = src := by
  have hlen : (s'.dest.take src.length).length = src.length := by
    rw [List.length_take, h'.length_eq, Nat.min_eq_left hfits]
  refine List.ext_getElem hlen fun j hj hj' => ?_
  rw [← List.getD_eq_getElem _ 0 hj, getD_take hj', h'.getD_eq, if_pos hj', h.getD_eq, if_pos hj',
    UInt8.xor_assoc, UInt8.xor_self, UInt8.xor_zero, List.getD_eq_getElem _ _ hj']

/-- The counter is the last byte of its block. -/
theorem aBlocks_nodup (direction : UInt8) (fHeader : LoRaFrameHeader) {k : ℕ} (hk : k < 256) :
    ((List.range k).map fun j => aBlock direction fHeader (UInt8.ofNat (j + 1))).Nodup := by
  refine List.Nodup.map_on (fun x hx y hy hxy => ?_) List.nodup_range
  have hlast : UInt8.ofNat (x + 1) = UInt8.ofNat (y + 1) := congrArg (List.getD · 15 0) hxy
  have hnum := congrArg UInt8.toNat hlast
  rw [List.mem_range] at hx hy
  rw [UInt8.toNat_ofNat', UInt8.toNat_ofNat'] at hnum
  omega

/-- **Deciphering undoes enciphering**; either way each byte is written once, and no two blocks of a
payload are combined with the same counter block. -/
theorem decryptPayload_encryptPayload (aes : BlockCipher) (dest dest' payload : List UInt8)
    (direction : UInt8) (fHeader : LoRaFrameHeader) (port : UInt8) (nwkSKey appSKey : List UInt8)
    (hlen : payload.length ≤ 255) (hdest : payload.length ≤ dest.length)
    (hdest' : payload.length ≤ dest'.length) :
    let size := UInt16.ofNat payload.length
    let cipher := encryptPayload aes dest payload size direction fHeader port nwkSKey appSKey
    let plain := decryptPayload aes dest' cipher.dest size direction fHeader port nwkSKey appSKey
    plain.dest.take payload.length = payload ∧
      (∀ i < payload.length, cipher.written.count i = 1 ∧ plain.written.count i = 1) ∧
      cipher.aBlocks.Nodup ∧ plain.aBlocks = cipher.aBlocks := by
  intro size cipher plain
  have hsize : size.toNat = payload.length := by
    simp only [size, UInt16.toNat_ofNat']
    omega
  obtain ⟨henc, hblocks⟩ := @encryptPayload_enciphered payload dest aes size direction fHeader port
    nwkSKey appSKey (hsize ▸ hlen) (hsize ▸ hdest)
  obtain ⟨hdec, hblocks'⟩ := @encryptPayload_enciphered cipher.dest dest' aes size direction fHeader
    port nwkSKey appSKey (hsize ▸ hlen) (hsize ▸ hdest')
  rw [hsize] at henc hdec
  refine ⟨henc.take_eq hdest' hdec, fun i hi => ⟨henc.count_written hi, hdec.count_written hi⟩, ?_,
    hblocks'.trans hblocks.symm⟩
  rw [hblocks]
  exact aBlocks_nodup direction fHeader (by omega)

/-- Twenty bytes, in two blocks. -/
theorem decryptPayload_encryptPayload_twenty :
    let payload := List.replicate 20 5
    let cipher := encryptPayload plainCipher (List.replicate 32 0) payload 20 1 ⟨7, 9⟩ 2 [] []
    let plain := decryptPayload plainCipher (List.replicate 20 0) cipher.dest 20 1 ⟨7, 9⟩ 2 [] []
    plain.dest.take 20 = payload ∧
      (∀ i < 20, cipher.written.count i = 1 ∧ plain.written.count i = 1) ∧
      cipher.aBlocks.Nodup ∧ plain.aBlocks = cipher.aBlocks :=
  decryptPayload_encryptPayload plainCipher (List.replicate 32 0) (List.replicate 20 0)
    (List.replicate 20 5) 1 ⟨7, 9⟩ 2 [] [] (by decide) (by decide) (by decide)

end LoRaGwSv
