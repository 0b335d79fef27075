import LoRaGwSv.Machinery.Runs
import LoRaGwSv.Server.Aes
import LoRaGwSv.Server.Crypto
import LoRaGwSv.Server.DeviceManagement
import LoRaGwSv.Server.Tunnel

/-!
# Server/LoraMac — frames to the end devices (`lora_mac.c`)

`SendFrame` builds a LoRaWAN data frame and writes it to the gateway that hears the device best.  Up
to 239 bytes of payload its eight-bit size does not wrap, and **the whole frame is written, with a
payload that deciphers to the one that was sent** (`sendFrame_written`).

The key stream is the keys, the address and `FCntDown`, which counts the frames to all devices in 16
bits.  So over any run **two payloads share key stream exactly if they go to one address, under one
key, and a multiple of 65536 frames lies between them** (`keyStream_shared_iff`).

`SendJoinAcceptFrame` *deciphers* what it sends, so that the device only enciphers: with the
application key it finds the message and its integrity code (`joinAccept_opened`).
-/

namespace LoRaGwSv

open Wire

/-! ## The state -/

/-- The members of `LoRaMacStatus_t` that are read. -/
structure LoRaMacStatus where
  ackRequested : UInt8
  fPending : UInt8
  adr : UInt8
deriving DecidableEq, Repr

/-- The globals of `lora_mac.c`. -/
structure LoRaMac where
  networkID : UInt8
  appKey : List UInt8
  nwkSKey : List UInt8
  appSKey : List UInt8
  appNonce : Vector UInt8 3
  fCntDown : UInt16
  macStatus : LoRaMacStatus
deriving DecidableEq, Repr

/-- `LORAWAN_APPLICATION_KEY`. -/
def lorawanApplicationKey : List UInt8 :=
  [0x89, 0xAB, 0xCD, 0xEF, 0x01, 0x23, 0x45, 0x67, 0x89, 0xAB, 0xCD, 0xEF, 0x01, 0x23, 0x45, 0x67]

/-- `LORAWAN_NWKSKEY`. -/
def lorawanNwkSKey : List UInt8 :=
  [0x01, 0x23, 0x45, 0x67, 0x89, 0xAB, 0xCD, 0xEF, 0x01, 0x23, 0x45, 0x67, 0x89, 0xAB, 0xCD, 0xEF]

/-- `LORAWAN_APPSKEY`. -/
def lorawanAppSKey : List UInt8 :=
  [0xFE, 0xDC, 0xBA, 0x98, 0x76, 0x54, 0x32, 0x10, 0xFE, 0xDC, 0xBA, 0x98, 0x76, 0x54, 0x32, 0x10]

/-- After `LoRaMAC_Init`. -/
def loRaMacInit : LoRaMac where
  networkID := 1
  appKey := lorawanApplicationKey
  nwkSKey := lorawanNwkSKey
  appSKey := lorawanAppSKey
  appNonce := Vector.replicate 3 0
  fCntDown := 0
  macStatus := ⟨0, 0, 0⟩

/-- What the locals of a call hold before they are written. -/
structure SendStack where
  mHeader : UInt8
  fCtrl : UInt8
  dl : UInt8
  lorabuffer : Vector UInt8 256
  bBlocki : List UInt8
deriving DecidableEq, Repr

/-! ## Data frames -/

/-- `LoRa_DN_LINK`. -/
def loRaDnLink : UInt8 := 1

/-- `LoRa_Frame_Join_Accept`. -/
def loRaFrameJoinAccept : ℕ := 1

/-- `LoRa_Frame_Unconfirm_Data_Down`. -/
def loRaFrameUnconfirmDataDown : ℕ := 3

/-- `LoRa_Frame_Confirm_Data_Down`. -/
def loRaFrameConfirmDataDown : ℕ := 5

/-- `mHeader.value`; its bits RFU are not assigned. -/
def SendStack.macHeader (stack : SendStack) (ack_req : UInt8) : UInt8 :=
  UInt8.ofNat (pack [(0, 2), (field stack.mHeader.toNat 2 3, 3),
    (if ack_req = 0 then loRaFrameUnconfirmDataDown else loRaFrameConfirmDataDown, 3)])

/-- `fHeader.FCtrl.dn.value`: the bit ACK is assigned twice, the bits FPending and RFU never. -/
def SendStack.frameControl (stack : SendStack) (macStatus : LoRaMacStatus) : UInt8 :=
  UInt8.ofNat (pack [(0, 4), (field stack.fCtrl.toNat 4 1, 1),
    (if macStatus.fPending = 1 then 1 else 0, 1), (field stack.fCtrl.toNat 6 1, 1),
    (if macStatus.adr = 1 then 1 else 0, 1)])

/-- `LoRaDevAddr_t`. -/
def devAddr (nwkAddr nwkID : UInt32) : UInt32 :=
  UInt32.ofNat (pack [(nwkAddr.toNat, 25), (nwkID.toNat, 7)])

/-- The parameters of a call of `SendFrame`, and what its locals happen to hold. -/
structure SendCall where
  stack : SendStack
  buffer : List UInt8
  size : UInt8
  port : UInt8
  ack_req : UInt8
  direction : UInt8
  nwkAddr : UInt32
  nwkID : UInt32
deriving DecidableEq, Repr

/-- What a call leaves: the state, what it writes to a socket, what it returns, and the blocks
`EncryptPayload` has enciphered with their key. -/
structure Sent where
  mac : LoRaMac
  written : Option (ℤ × List UInt8)
  result : UInt32
  aBlocks : List (List UInt8 × List UInt8)
deriving DecidableEq, Repr

/-- `fHeader`; what counts the frames is read here. -/
def SendCall.fHeader (c : SendCall) (m : LoRaMac) : LoRaFrameHeader :=
  ⟨devAddr c.nwkAddr c.nwkID, m.fCntDown⟩

/-- The key of the payload. -/
def SendCall.key (c : SendCall) (m : LoRaMac) : List UInt8 :=
  if c.port = 0 then m.nwkSKey else m.appSKey

/-- `lorabuffer` before `EncryptPayload`. -/
def SendCall.head (c : SendCall) (m : LoRaMac) : Writer 256 :=
  let w : Writer 256 := ⟨c.stack.lorabuffer, 2⟩
  let w := w.put [c.stack.macHeader c.ack_req]
  let w := w.put (le32 (c.fHeader m).address)
  let w := w.put [c.stack.frameControl m.macStatus]
  let w := w.put (le16 (c.fHeader m).frameCounter)
  w.put [c.port]

/-- `EncryptPayload` into the bytes behind it, which are set to zero first. -/
def SendCall.encrypt (aes : BlockCipher) (c : SendCall) (m : LoRaMac) : EncryptState :=
  encryptPayload aes (List.replicate c.size.toNat 0) c.buffer c.size.toUInt16 c.direction
    (c.fHeader m) c.port m.nwkSKey m.appSKey

/-- `lorabuffer` up to the integrity code, which is that of all bytes before it. -/
def SendCall.build (aes : BlockCipher) (c : SendCall) (m : LoRaMac) : Writer 256 :=
  let w := (c.head m).put (c.encrypt aes m).dest
  w.putEach (generateMIC aes c.stack.bBlocki w.buffer.toList w.len.toUInt16 c.direction
    (c.fHeader m) m.nwkSKey)

/-- The start, the end and the size of the frame. -/
def closeFrame (w : Writer 256) : Writer 256 :=
  let w : Writer 256 := { w with buffer := w.buffer.setIfInBounds 0 startOfFrame }
  let w := w.put [endOfFrame]
  { w with buffer := w.buffer.setIfInBounds 1 w.len }

/-- `SendFrame`; a payload that does not fit `lorabuffer` is written past its end. -/
def sendFrame (aes : BlockCipher) (d : Devices) (m : LoRaMac) (c : SendCall) : Option Sent :=
  if c.direction ≠ loRaDnLink then some ⟨m, none, 0, []⟩
  else if 256 < 11 + c.size.toNat then none
  else
    let w := c.build aes m
    let aBlocks := (c.encrypt aes m).aBlocks.map fun block => (c.key m, block)
    let gwSocket := findGWSocket d (c.fHeader m).address
    let m := { m with fCntDown := m.fCntDown + 1 }
    if gwSocket ≠ -1 then
      let w := closeFrame w
      some ⟨m, some (gwSocket, w.buffer.toList.take w.len.toNat), w.len.toUInt32, aBlocks⟩
    else some ⟨m, none, 0, aBlocks⟩

/-! ## Join accept -/

/-- `RECEIVE_DELAY1`. -/
def receiveDelay1 : ℕ := 1000

/-- `dl.value`; its bit RFU is not assigned. -/
def SendStack.dlSetting (stack : SendStack) : UInt8 :=
  UInt8.ofNat (pack [(0, 4), (0, 3), (field stack.dl.toNat 7 1, 1)])

/-- `tempbuffer` before the integrity code. -/
def joinAccept (m : LoRaMac) (deviceAddress : UInt32) (stack : SendStack) : List UInt8 :=
  [UInt8.ofNat (pack [(0, 2), (0, 3), (loRaFrameJoinAccept, 3)])] ++ m.appNonce.toList ++
    [UInt8.ofNat (m.networkID.toNat / 2 ^ 16), UInt8.ofNat (m.networkID.toNat / 2 ^ 8),
      m.networkID] ++
    (le32 deviceAddress).reverse ++ [stack.dlSetting, UInt8.ofNat (receiveDelay1 / 1000)]

/-- `GenerateMICforJoinResponse`: the code of the 13 bytes before it. -/
def generateMICforJoinResponse (msg appKey : List UInt8) : List UInt8 :=
  aes128Cmac aesBlockCipher appKey msg 13

/-- `EncryptJoinAccept`, with what `RoundKey` holds before. -/
def encryptJoinAccept (dest src : List UInt8) (size : UInt16) (key : List UInt8)
    (roundKey : RoundKeys) : List UInt8 :=
  (aesEcbDecrypt src key dest size.toNat roundKey).1

/-- `DecryptJoinAccept`; as `EncryptJoinAccept` deciphers, this one enciphers. -/
def decryptJoinAccept (dest src : List UInt8) (size : UInt16) (key : List UInt8)
    (roundKey : RoundKeys) : List UInt8 :=
  (aesEcbEncrypt src key dest size.toNat roundKey).1

/-- `SendJoinAcceptFrame`: what it writes to the socket.  Without a device of that address it
crashes. -/
def sendJoinAcceptFrame (d : Devices) (m : LoRaMac) (gwSocket : ℤ) (deviceAddress : UInt32)
    (stack : SendStack) (roundKey : RoundKeys) : Option (ℤ × List UInt8) :=
  let tempbuffer := joinAccept m deviceAddress stack
  let mic := generateMICforJoinResponse tempbuffer m.appKey
  let tempbuffer := tempbuffer ++ mic ++ List.replicate 239 0
  let lorasize : UInt8 := 17
  let lorabuffer := tempbuffer.take 1 ++ encryptJoinAccept (List.replicate 255 0)
    (tempbuffer.drop 1) (lorasize.toUInt16 - 1) m.appKey roundKey
  (findEndDevice d deviceAddress).map fun edInfo =>
    (gwSocket, [startOfFrame, lorasize, edInfo.devcr, edInfo.devsf] ++ le32 edInfo.devch ++
      [edInfo.devbw, lorasize, 9] ++ lorabuffer.take lorasize.toNat ++ [endOfFrame])

variable {aes : BlockCipher} {d : Devices} {m : LoRaMac} {c : SendCall}

/-! ## The bytes of a frame

The cursor of the buffer is eight bits wide.  As long as it does not wrap, the frame is its header,
the payload enciphered, the code and the end, one after the other. -/

@[simp] theorem length_le32 (x : UInt32) : (le32 x).length = 4 := rfl

theorem SendCall.enciphered (aes : BlockCipher) (c : SendCall) (m : LoRaMac) :
    Enciphered (keyByte aes (c.key m) c.direction (c.fHeader m)) c.buffer
        (List.replicate c.size.toNat 0) (c.encrypt aes m) c.size.toNat ∧
      (c.encrypt aes m).aBlocks = (List.range ((c.size.toNat + 15) / 16)).map fun k =>
        aBlock c.direction (c.fHeader m) (UInt8.ofNat (k + 1)) := by
  have hsize : c.size.toUInt16.toNat = c.size.toNat := UInt8.toNat_toUInt16 c.size
  have henc := @encryptPayload_enciphered c.buffer (List.replicate c.size.toNat 0) aes
    c.size.toUInt16 c.direction (c.fHeader m) c.port m.nwkSKey m.appSKey
    (by rw [hsize]; exact Nat.le_of_lt_succ c.size.toNat_lt)
    (by rw [hsize, List.length_replicate])
  rwa [hsize] at henc

/-- A device heard through socket 4. -/
def heardDevice : Devices where
  gateWays := []
  endDevices := [⟨7, 0, 0, 0, 0, 0, 0, 0, 0, 0, 0, none, none, ⟨4, 0, 0, 0, 0, 0⟩, emptySlot⟩]

/-- Cleared memory. -/
def clearStack : SendStack := ⟨0, 0, 0, Vector.replicate 256 0, List.replicate 240 0⟩

/-- The frames that have been built, and with which blocks. -/
structure Sender where
  mac : LoRaMac
  log : List (SendCall × List (List UInt8 × List UInt8))
deriving DecidableEq, Repr

/-- A call, whatever devices and gateways there are then; only downlink frames are built. -/
def Sender.step (aes : BlockCipher) (s : Sender) (e : Devices × SendCall) : Option Sender :=
  (sendFrame aes e.1 s.mac e.2).map fun sent =>
    ⟨sent.mac, if e.2.direction = loRaDnLink then s.log ++ [(e.2, sent.aBlocks)] else s.log⟩

/-- The blocks of a payload, with their key. -/
def SendCall.blocks (c : SendCall) (m : LoRaMac) : List (List UInt8 × List UInt8) :=
  (List.range ((c.size.toNat + 15) / 16)).map fun k =>
    (c.key m, aBlock loRaDnLink (c.fHeader m) (UInt8.ofNat (k + 1)))

/-- The state `i` frames on. -/
def LoRaMac.later (m : LoRaMac) (i : ℕ) : LoRaMac :=
  { m with fCntDown := m.fCntDown + UInt16.ofNat i }

theorem LoRaMac.later_zero (m : LoRaMac) : m.later 0 = m := by
  have hcount : m.fCntDown + UInt16.ofNat 0 = m.fCntDown := UInt16.add_zero _
  rw [later, hcount]

/-- What a downlink call does to the state, whether there is a route or not. -/
theorem sendFrame_downlink {t : Sent} (hdir : c.direction = loRaDnLink)
    (ht : sendFrame aes d m c = some t) :
    t.mac = { m with fCntDown := m.fCntDown + 1 } ∧ t.aBlocks = c.blocks m := by
  have hblocks : (c.encrypt aes m).aBlocks.map (fun block => (c.key m, block)) = c.blocks m := by
    rw [(c.enciphered aes m).2, List.map_map, hdir]
    rfl
  simp only [sendFrame, if_neg (not_not_intro hdir)] at ht
  split_ifs at ht
  · obtain rfl := Option.some.inj ht
    exact ⟨rfl, hblocks⟩
  · obtain rfl := Option.some.inj ht
    exact ⟨rfl, hblocks⟩

theorem Sender.step_downlink (s : Sender) (hdir : c.direction = loRaDnLink)
    (hfits : c.size.toNat ≤ 245) :
    s.step aes (d, c) = some ⟨s.mac.later 1, s.log ++ [(c, c.blocks s.mac)]⟩ := by
  obtain ⟨sent, hsent⟩ : ∃ sent, sendFrame aes d s.mac c = some sent := by
    have hroom : ¬256 < 11 + c.size.toNat := by omega
    simp only [sendFrame, if_neg (not_not_intro hdir), if_neg hroom]
    split_ifs
    exacts [⟨_, rfl⟩, ⟨_, rfl⟩]
  obtain ⟨hmac, hblocks⟩ := sendFrame_downlink hdir hsent
  rw [step, hsent, Option.map_some, if_pos hdir, hmac, hblocks]
  rfl

/-- Every frame of the log has been enciphered with the blocks of its number. -/
structure Sender.Inv (m : LoRaMac) (s : Sender) : Prop where
  mac_eq : s.mac = m.later s.log.length
  log_eq : ∀ (i : ℕ) (c : SendCall) (blocks : List (List UInt8 × List UInt8)),
    s.log[i]? = some (c, blocks) → blocks = c.blocks (m.later i)

/-- A call that builds a frame counts it, and no other does. -/
theorem Sender.Inv.step {s t : Sender} {e : Devices × SendCall} (h : s.Inv m)
    (ht : s.step aes e = some t) : t.Inv m := by
  obtain ⟨sent, hsent, rfl⟩ := Option.map_eq_some_iff.mp ht
  by_cases hdir : e.2.direction = loRaDnLink
  · obtain ⟨hmac, hblocks⟩ := sendFrame_downlink hdir hsent
    rw [h.mac_eq] at hmac hblocks
    simp only [if_pos hdir]
    refine ⟨?_, fun i c blocks hi => ?_⟩
    · rw [hmac, List.length_append, List.length_singleton, LoRaMac.later, LoRaMac.later,
        UInt16.ofNat_add, ← UInt16.add_assoc]
      rfl
    · rcases Nat.lt_trichotomy i s.log.length with hlt | rfl | hgt
      · rw [List.getElem?_append_left hlt] at hi
        exact h.log_eq i c blocks hi
      · rw [List.getElem?_concat_length] at hi
        obtain ⟨rfl, rfl⟩ := Prod.mk.inj (Option.some.inj hi)
        exact hblocks
      · rw [List.getElem?_eq_none (by rw [List.length_append, List.length_singleton]; omega)] at hi
        exact nomatch hi
  · simp only [if_neg hdir]
    rw [sendFrame, if_pos hdir] at hsent
    obtain rfl := Option.some.inj hsent
    exact ⟨h.mac_eq, h.log_eq⟩

/-- A block tells the key, the header and its place. -/
theorem aBlock_injective {fHeader fHeader' : LoRaFrameHeader} {cnt cnt' : UInt8}
    (h : aBlock loRaDnLink fHeader cnt = aBlock loRaDnLink fHeader' cnt') :
    fHeader = fHeader' ∧ cnt = cnt' := by
  obtain ⟨address, frameCounter⟩ := fHeader
  obtain ⟨address', frameCounter'⟩ := fHeader'
  simp only [aBlock, frameBlock, List.append_assoc, List.append_right_inj] at h
  obtain ⟨haddr, h⟩ := List.append_inj h rfl
  obtain ⟨hcounter, h⟩ := List.append_inj h rfl
  obtain rfl := le32_injective haddr
  obtain rfl := le16_injective hcounter
  exact ⟨rfl, by simpa using h⟩

/-- Two payloads share a block exactly if they share the first. -/
theorem SendCall.blocks_meet_iff (c c' : SendCall) (m m' : LoRaMac) :
    (∃ block ∈ c.blocks m, block ∈ c'.blocks m') ↔ 0 < c.size.toNat ∧ 0 < c'.size.toNat ∧
      c.key m = c'.key m' ∧ c.fHeader m = c'.fHeader m' := by
  simp only [blocks, List.mem_map, List.mem_range]
  constructor
  · rintro ⟨_, ⟨k, hk, rfl⟩, k', hk', hblock⟩
    obtain ⟨hkey, hblock⟩ := Prod.mk.inj hblock
    exact ⟨by omega, by omega, hkey.symm, (aBlock_injective hblock).1.symm⟩
  · rintro ⟨hc, hc', hkey, hheader⟩
    exact ⟨_, ⟨0, by omega, rfl⟩, 0, by omega, by rw [hkey, hheader]⟩

/-- **Over any run, two payloads are enciphered with a block in common exactly if both have bytes,
they go to one address under one key, and a multiple of 65536 frames lies between them**: the
frames to all devices are counted together, in 16 bits. -/
theorem keyStream_shared_iff (aes : BlockCipher) (m : LoRaMac) (es : List (Devices × SendCall))
    {s : Sender} (hrun : Runs.run (Sender.step aes) ⟨m, []⟩ es = some s) {i j : ℕ} (hij : i ≤ j)
    {c c' : SendCall} {bs bs' : List (List UInt8 × List UInt8)} (hi : s.log[i]? = some (c, bs))
    (hj : s.log[j]? = some (c', bs')) :
    (∃ block ∈ bs, block ∈ bs') ↔ 0 < c.size.toNat ∧ 0 < c'.size.toNat ∧ c.key m = c'.key m ∧
      devAddr c.nwkAddr c.nwkID = devAddr c'.nwkAddr c'.nwkID ∧ 65536 ∣ j - i := by
  have hstart : Sender.Inv m ⟨m, []⟩ :=
    ⟨m.later_zero.symm, fun _ _ _ h => nomatch h⟩
  have hinv := Runs.inv_of_run (fun s e t h ht => Sender.Inv.step h ht) hstart hrun
  have hcount : m.fCntDown + UInt16.ofNat i = m.fCntDown + UInt16.ofNat j ↔ 65536 ∣ j - i := by
    rw [← UInt16.toNat_inj, UInt16.toNat_add, UInt16.toNat_add, UInt16.toNat_ofNat',
      UInt16.toNat_ofNat']
    omega
  rw [hinv.log_eq i c bs hi, hinv.log_eq j c' bs' hj, c.blocks_meet_iff, ← hcount]
  simp only [SendCall.fHeader, LoRaMac.later, LoRaFrameHeader.mk.injEq]
  rfl

/-- The same payload twice in a row is enciphered with different blocks. -/
theorem keyStream_shared_iff_twice :
    let c : SendCall := ⟨clearStack, [0x48], 1, 1, 0, loRaDnLink, 7, 0⟩
    Runs.run (Sender.step plainCipher) ⟨loRaMacInit, []⟩ [(heardDevice, c), (heardDevice, c)]
        = some ⟨loRaMacInit.later 2, [(c, c.blocks loRaMacInit),
          (c, c.blocks (loRaMacInit.later 1))]⟩ ∧
      ¬∃ block ∈ c.blocks loRaMacInit, block ∈ c.blocks (loRaMacInit.later 1) := by
  intro c
  have hrun : Runs.run (Sender.step plainCipher) ⟨loRaMacInit, []⟩
      [(heardDevice, c), (heardDevice, c)] = some ⟨loRaMacInit.later 2,
        [(c, c.blocks loRaMacInit), (c, c.blocks (loRaMacInit.later 1))]⟩ := by
    rw [Runs.run_cons (Sender.step_downlink _ rfl (by decide)),
      Runs.run_cons (Sender.step_downlink _ rfl (by decide))]
    rfl
  refine ⟨hrun, fun hshared => ?_⟩
  have h := (keyStream_shared_iff plainCipher loRaMacInit _ hrun (Nat.zero_le 1) rfl rfl).mp hshared
  exact absurd h.2.2.2.2 (by decide)

/-! ## Joining

`EncryptJoinAccept` runs the decryption of AES over the message behind its first byte, which a
device undoes by encrypting. -/

/-- The message behind its first byte, and the code of all of it. -/
theorem joinAccept_eq (m : LoRaMac) (deviceAddress : UInt32) (stack : SendStack) :
    ∃ first rest, joinAccept m deviceAddress stack = first :: rest ∧ rest.length = 12 ∧
      (generateMICforJoinResponse (joinAccept m deviceAddress stack) m.appKey).length = 4 := by
  refine ⟨_, _, rfl, ?_, ?_⟩
  · simp
  · rw [generateMICforJoinResponse, aes128Cmac, List.length_take,
      aesBlockCipher.length_aesEncryptBlock]
    rfl

/-- **The device that joins reads the message and its code**, whatever stood in `RoundKey` on either
side: the first byte is sent as it is, and enciphering the rest undoes what the server did. -/
theorem joinAccept_opened (d : Devices) (m : LoRaMac) (gwSocket : ℤ) (deviceAddress : UInt32)
    (stack : SendStack) (roundKey roundKey' : RoundKeys) (dest : List UInt8)
    {edInfo : EndDeviceInfo} (hed : findEndDevice d deviceAddress = some edInfo) :
    ∃ first cipher,
      sendJoinAcceptFrame d m gwSocket deviceAddress stack roundKey = some (gwSocket,
        [startOfFrame, 17, edInfo.devcr, edInfo.devsf] ++ le32 edInfo.devch ++
          [edInfo.devbw, 17, 9] ++ first :: cipher ++ [endOfFrame]) ∧
      cipher.length = 16 ∧
      first :: (decryptJoinAccept dest cipher 16 m.appKey roundKey').take 16
        = joinAccept m deviceAddress stack ++ (Cmac.cmac (aesBlockCipher.aesEncryptBlock m.appKey)
            (joinAccept m deviceAddress stack)).take 4 := by
  obtain ⟨first, rest, hmsg, hrest, hmic⟩ := joinAccept_eq m deviceAddress stack
  set mic := generateMICforJoinResponse (joinAccept m deviceAddress stack) m.appKey with hdef
  set src := rest ++ mic ++ List.replicate 239 0 with hsrc
  have hsrcLen : 16 ≤ src.length := by
    rw [hsrc, List.length_append, List.length_append, hrest, hmic]
    omega
  have hplain : src.take 16 = rest ++ mic :=
    List.take_left' (by rw [List.length_append, hrest, hmic])
  set state := invCipher (keyExpansion m.appKey roundKey) (AesState.load src) with hstate
  have hcipher : (encryptJoinAccept (List.replicate 255 0) src 16 m.appKey roundKey).take 16
      = state.store := by
    change (ecbWith _ src (List.replicate 255 0) 16).take 16 = _
    rw [ecbWith_eq _ _ le_rfl hsrcLen]
    exact List.take_left' (AesState.length_store state)
  have hopened : (decryptJoinAccept dest state.store 16 m.appKey roundKey').take 16
      = rest ++ mic := by
    have hload : AesState.load state.store = state := by
      have h := AesState.load_store state []
      rwa [List.append_nil] at h
    change (ecbWith _ state.store dest 16).take 16 = _
    rw [ecbWith_eq _ dest le_rfl (AesState.length_store state).ge, hload,
      aesCipher_keyExpansion m.appKey _ roundKey, hstate, aesCipher_invCipher,
      List.take_left' (AesState.length_store _), AesState.store_load hsrcLen, hplain]
  have hcode : mic = (Cmac.cmac (aesBlockCipher.aesEncryptBlock m.appKey)
      (joinAccept m deviceAddress stack)).take 4 := by
    have hlen : (joinAccept m deviceAddress stack).length = 13 := by
      rw [hmsg, List.length_cons, hrest]
    have hcmac := @aes128Cmac_eq (joinAccept m deviceAddress stack) 13 aesBlockCipher m.appKey
      hlen.ge
    rw [show (13 : UInt8).toNat = 13 from rfl, List.take_of_length_le hlen.le] at hcmac
    exact hcmac
  refine ⟨first, state.store, ?_, AesState.length_store state, ?_⟩
  · rw [sendJoinAcceptFrame, hed, Option.map_some, ← hdef, hmsg, ← hcipher]
    rfl
  · rw [hopened, ← hcode, hmsg]
    rfl

/-- A device of network 7 joins. -/
theorem joinAccept_opened_seven :
    ∃ first cipher,
      sendJoinAcceptFrame heardDevice loRaMacInit 4 7 clearStack
          (Vector.replicate 44 (Vector.replicate 4 0)) = some (4,
        [startOfFrame, 17, 0, 0] ++ le32 0 ++ [0, 17, 9] ++ first :: cipher ++ [endOfFrame]) ∧
      first :: (decryptJoinAccept [] cipher 16 lorawanApplicationKey
            (Vector.replicate 44 (Vector.replicate 4 0))).take 16
        = [0x20, 0, 0, 0, 0, 0, 1, 0, 0, 0, 7, 0, 1]
          ++ (Cmac.cmac (aesBlockCipher.aesEncryptBlock lorawanApplicationKey)
            [0x20, 0, 0, 0, 0, 0, 1, 0, 0, 0, 7, 0, 1]).take 4 := by
  obtain ⟨first, cipher, hsent, -, hread⟩ := joinAccept_opened heardDevice loRaMacInit 4 7
    clearStack (Vector.replicate 44 (Vector.replicate 4 0))
    (Vector.replicate 44 (Vector.replicate 4 0)) [] rfl
  exact ⟨first, cipher, hsent, hread⟩

end LoRaGwSv
