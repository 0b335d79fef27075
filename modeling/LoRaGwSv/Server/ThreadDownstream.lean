import LoRaGwSv.Machinery.Timeval
import LoRaGwSv.Server.Downlink
import LoRaGwSv.Shared.Base64
import LoRaGwSv.Shared.JsonText

/-!
# Server/ThreadDownstream — how a downlink becomes a datagram (`thread_downstream`)

The datagram is a header of four bytes and one JSON object.  It is composed in a buffer that is
never cleared; in front of a `false` that follows a `true` in the field `ipol` one byte of the
buffer is left as it was.  A message with `invert_pol` unset denotes an object with the fields of
the message (`threadDownstream_eq`).
-/

namespace LoRaGwSv

open Text

/-- A message with the fields of `struct MsgInfo_` that a downlink needs. -/
structure DownlinkMsg extends MsgInfo where
  tx_mode : UInt8
  rf_power : Int8
  invert_pol : Bool
  preamble : UInt16
  msg_tx_time : Timeval
  freq : UInt32
  rf_chain : UInt8
  modulation : UInt8
  bandwidth : UInt8
  datarate : UInt32
  coderate : UInt8
deriving DecidableEq

/-- The constants of the concentrator, as `loragw_hal.h` has them. -/
def txImmediate : UInt8 := 0
def txTimestamped : UInt8 := 1
def modLora : UInt8 := 0x10
def modFsk : UInt8 := 0x20
def bw125Khz : UInt8 := 0x03
def bw250Khz : UInt8 := 0x02
def bw500Khz : UInt8 := 0x01
def drLoraSf7 : UInt32 := 0x02
def drLoraSf8 : UInt32 := 0x04
def drLoraSf9 : UInt32 := 0x08
def drLoraSf10 : UInt32 := 0x10
def drLoraSf11 : UInt32 := 0x20
def drLoraSf12 : UInt32 := 0x40
def crLora45 : UInt8 := 0x01
def crLora46 : UInt8 := 0x02
def crLora47 : UInt8 := 0x03
def crLora48 : UInt8 := 0x04

/-- `PROTOCOL_VERSION`, and the types of datagrams. -/
def protocolVersion : UInt8 := 2
def pktTimesyncReq : UInt8 := 0
def pktTimesyncRes : UInt8 := 1
def pktDownlinkData : UInt8 := 2
def pktUplinkData : UInt8 := 4
def pktUplinkAck : UInt8 := 5

/-- `TWOHOP_DL_POWER`. -/
def twohopDlPower : Int8 := 23

/-- `prepareDownlinkMsgMetaData`, on the channel the network is configured for. -/
def prepareDownlinkMsgMetaData (twohopDownlinkChannel : UInt32) (packet : MsgInfo)
    (txTimestamp : Timeval) : DownlinkMsg where
  toMsgInfo := packet
  tx_mode := txImmediate
  rf_power := twohopDlPower
  invert_pol := false
  preamble := 8
  msg_tx_time := txTimestamp
  freq := twohopDownlinkChannel
  rf_chain := 0
  modulation := modLora
  bandwidth := bw125Khz
  datarate := drLoraSf7
  coderate := crLora45

/-! ## Composing a datagram -/

/-- What `%u` makes of a signed number. -/
def unsigned (x : ℤ) : ℕ := (x % 4294967296).toNat

/-- The spreading factor in `datr`. -/
def spreadingFactor (datarate : UInt32) : Option (List UInt8) :=
  if datarate = drLoraSf7 then some (ascii "SF7")
  else if datarate = drLoraSf8 then some (ascii "SF8")
  else if datarate = drLoraSf9 then some (ascii "SF9")
  else if datarate = drLoraSf10 then some (ascii "SF10")
  else if datarate = drLoraSf11 then some (ascii "SF11")
  else if datarate = drLoraSf12 then some (ascii "SF12")
  else none

/-- The bandwidth in `datr`. -/
def bandwidthText (bandwidth : UInt8) : Option (List UInt8) :=
  if bandwidth = bw125Khz then some (ascii "BW125")
  else if bandwidth = bw250Khz then some (ascii "BW250")
  else if bandwidth = bw500Khz then some (ascii "BW500")
  else none

/-- The coding rate in `codr`; the server has a text for none at all, too. -/
def coderateText (coderate : UInt8) : Option (List UInt8) :=
  if coderate = crLora45 then some (ascii "4/5")
  else if coderate = crLora46 then some (ascii "4/6")
  else if coderate = crLora47 then some (ascii "4/7")
  else if coderate = crLora48 then some (ascii "4/8")
  else if coderate = 0 then some (ascii "OFF")
  else none

/-- The object up to the modulation.  Every `tx_mode` is sent as immediate. -/
def composeRadio (m : DownlinkMsg) : List UInt8 :=
  ascii "\x7b\"txpk\":" ++ ascii "\x7b" ++
    ascii "\"tm_s\":" ++ decimal (unsigned m.msg_tx_time.tv_sec) ++
    ascii ",\"tm_us\":" ++ padLeft 6 32 (decimal (unsigned m.msg_tx_time.tv_usec)) ++
    ascii ",\"imme\":true" ++
    ascii ",\"rfch\":" ++ decimal m.rf_chain.toNat ++
    ascii ",\"freq\":" ++ fixed 6 m.freq.toNat ++
    ascii ",\"powe\":" ++ decimal (unsigned m.rf_power.toInt)

/-- What the object says of the modulation; `none` where the server has no text and the process
ends. -/
def composeModulation (m : DownlinkMsg) : Option (List UInt8) :=
  if m.modulation = modLora then do
    return ascii ",\"modu\":\"LORA\"" ++
      ascii ",\"datr\":\"" ++ (← spreadingFactor m.datarate) ++ (← bandwidthText m.bandwidth) ++
      ascii "\"" ++
      ascii ",\"codr\":\"" ++ (← coderateText m.coderate) ++ ascii "\""
  else if m.modulation = modFsk then
    some (ascii ",\"modu\":\"FSK\"" ++ ascii ",\"datr\":" ++ decimal m.datarate.toNat)
  else none

/-- After `true` the index moves on by one more than what is written, and the case falls through. -/
def composePolarity (buff_down : ℕ → UInt8) (buff_index : ℕ) (m : DownlinkMsg) : List UInt8 :=
  (if m.invert_pol then ascii ",\"ipol\":true" ++ [buff_down (buff_index + 12)] else []) ++
    ascii ",\"ipol\":false"

/-- The end of the object: the preamble, the size and the payload in base64. -/
def composePayload (m : DownlinkMsg) : Option (List UInt8) := do
  return ascii ",\"prea\":" ++ decimal m.preamble.toNat ++
    ascii ",\"size\":" ++ decimal m.size.toNat ++
    ascii ",\"data\":\"" ++ (← binToB64 (m.payload.toList.take m.size.toNat) 341) ++
    ascii "\"" ++ ascii "\x7d" ++ ascii "\x7d"

/-- The datagram for a message, composed in `buff_down`; `none` if the process ends. -/
def threadDownstream (buff_down : ℕ → UInt8) (token_h token_l : UInt8) (m : DownlinkMsg) :
    Option (List UInt8) := do
  let text := [protocolVersion, token_h, token_l, pktDownlinkData] ++ composeRadio m ++
    (← composeModulation m)
  return text ++ composePolarity buff_down text.length m ++ (← composePayload m)

/-- What the buffer holds once a datagram has been composed in it. -/
def leftBehind (buff_down : ℕ → UInt8) (datagram : List UInt8) : ℕ → UInt8 :=
  fun i => datagram.getD i (buff_down i)

/-- The datagrams for the messages that are taken out of the queue, each with its token. -/
def threadDownstreamRun (buff_down : ℕ → UInt8) :
    List (UInt8 × UInt8 × DownlinkMsg) → Option (List (List UInt8))
  | [] => some []
  | (token_h, token_l, m) :: ms => do
    let datagram ← threadDownstream buff_down token_h token_l m
    return datagram :: (← threadDownstreamRun (leftBehind buff_down datagram) ms)

/-! ## The object of a message -/

/-- The messages the two programs have agreed on. -/
structure DownlinkMsg.Admitted (m : DownlinkMsg) : Prop where
  tx_mode : m.tx_mode = txImmediate
  modulation : m.modulation = modLora
  datarate : m.datarate ∈
    [drLoraSf7, drLoraSf8, drLoraSf9, drLoraSf10, drLoraSf11, drLoraSf12]
  bandwidth : m.bandwidth ∈ [bw125Khz, bw250Khz, bw500Khz]
  coderate : m.coderate ∈ [crLora45, crLora46, crLora47, crLora48]
  preamble : 6 ≤ m.preamble
  rf_power : 0 ≤ m.rf_power
  normalised : m.msg_tx_time.Normalised
  tv_sec_nonneg : 0 ≤ m.msg_tx_time.tv_sec
  tv_sec_lt : m.msg_tx_time.tv_sec < 4294967296
  size_le : m.size ≤ 255

/-- What the MAC puts into the queue is admitted. -/
theorem admitted_prepareDownlinkMsgMetaData (channel : UInt32) {packet : MsgInfo} {t : Timeval}
    (ht : t.Normalised) (h0 : 0 ≤ t.tv_sec) (h1 : t.tv_sec < 4294967296)
    (hsize : packet.size ≤ 255) : (prepareDownlinkMsgMetaData channel packet t).Admitted where
  tx_mode := rfl
  modulation := rfl
  datarate := List.mem_cons_self
  bandwidth := List.mem_cons_self
  coderate := List.mem_cons_self
  preamble := (by decide : (6 : UInt16) ≤ 8)
  rf_power := (by decide : (0 : Int8) ≤ twohopDlPower)
  normalised := ht
  tv_sec_nonneg := h0
  tv_sec_lt := h1
  size_le := hsize

variable {m : DownlinkMsg} {sf bw cr : List UInt8} {left : ℕ}

/-- The bytes of the payload that `size` counts. -/
def DownlinkMsg.data (m : DownlinkMsg) : List UInt8 := m.payload.toList.take m.size.toNat

/-- A field with a number. -/
def numberField (name : String) (n : ℕ) : Field := ⟨ascii name, decimal n, .number n⟩

/-- A field with a text. -/
def stringField (name : String) (s : List UInt8) : Field := ⟨ascii name, quoted s, .string s⟩

/-- A field with a truth value. -/
def booleanField (name : String) (b : Bool) : Field :=
  ⟨ascii name, ascii (if b then "true" else "false"), .boolean b⟩

/-- The first field of a message. -/
def timeField (m : DownlinkMsg) : Field := numberField "tm_s" (unsigned m.msg_tx_time.tv_sec)

/-- The fields up to the polarity, with the texts for datarate, bandwidth and coding rate. -/
def radioFields (m : DownlinkMsg) (sf bw cr : List UInt8) : List Field :=
  [⟨ascii "tm_us", padLeft 6 32 (decimal (unsigned m.msg_tx_time.tv_usec)),
      .number (unsigned m.msg_tx_time.tv_usec)⟩,
    booleanField "imme" true,
    numberField "rfch" m.rf_chain.toNat,
    ⟨ascii "freq", fixed 6 m.freq.toNat, .number (m.freq.toNat / 10 ^ 6)⟩,
    numberField "powe" (unsigned m.rf_power.toInt),
    stringField "modu" (ascii "LORA"),
    stringField "datr" (sf ++ bw),
    stringField "codr" cr]

/-- The fields behind the polarity. -/
def payloadFields (m : DownlinkMsg) : List Field :=
  [numberField "prea" m.preamble.toNat, numberField "size" m.size.toNat,
    stringField "data" (base64 m.data)]

/-- The fields of a message, in the order they are composed in. -/
def txpkFields (m : DownlinkMsg) (sf bw cr : List UInt8) (ipol : Bool) : List Field :=
  radioFields m sf bw cr ++ booleanField "ipol" ipol :: payloadFields m

/-- The only field of the whole text. -/
def txpkField (m : DownlinkMsg) (sf bw cr : List UInt8) (ipol : Bool) : Field :=
  ⟨ascii "txpk", objectText (timeField m) (txpkFields m sf bw cr ipol),
    .object ((timeField m :: txpkFields m sf bw cr ipol).map Field.member)⟩

/-- The texts of a message that has been admitted. -/
structure DownlinkMsg.Texts (m : DownlinkMsg) (sf bw cr : List UInt8) : Prop where
  sf_eq : spreadingFactor m.datarate = some sf
  bw_eq : bandwidthText m.bandwidth = some bw
  cr_eq : coderateText m.coderate = some cr

/-- The texts of the modulation are plain and short. -/
theorem plain_spreadingFactor {d : UInt32} (h : spreadingFactor d = some sf) :
    Plain sf ∧ sf.length ≤ 4 := by
  simp only [spreadingFactor] at h
  split_ifs at h <;> obtain rfl := Option.some.inj h <;> decide

theorem plain_bandwidthText {b : UInt8} (h : bandwidthText b = some bw) :
    Plain bw ∧ bw.length ≤ 5 := by
  simp only [bandwidthText] at h
  split_ifs at h <;> obtain rfl := Option.some.inj h <;> decide

theorem plain_coderateText {c : UInt8} (h : coderateText c = some cr) :
    Plain cr ∧ cr.length ≤ 3 := by
  simp only [coderateText] at h
  split_ifs at h <;> obtain rfl := Option.some.inj h <;> decide

/-- The data rate is composed of two of them. -/
theorem DownlinkMsg.Texts.plain_datr (h : m.Texts sf bw cr) : Plain (sf ++ bw) := fun c hc =>
  (List.mem_append.mp hc).elim ((plain_spreadingFactor h.sf_eq).1 c)
    ((plain_bandwidthText h.bw_eq).1 c)

/-- The server has a text for everything an admitted message asks for. -/
theorem DownlinkMsg.Admitted.texts (h : m.Admitted) : ∃ sf bw cr, m.Texts sf bw cr := by
  have hsf : ∀ d ∈ [drLoraSf7, drLoraSf8, drLoraSf9, drLoraSf10, drLoraSf11, drLoraSf12],
      (spreadingFactor d).isSome := by
    simp only [List.forall_mem_cons]
    exact ⟨rfl, rfl, rfl, rfl, rfl, rfl, fun _ hd => by cases hd⟩
  have hbw : ∀ b ∈ [bw125Khz, bw250Khz, bw500Khz], (bandwidthText b).isSome := by
    simp only [List.forall_mem_cons]
    exact ⟨rfl, rfl, rfl, fun _ hb => by cases hb⟩
  have hcr : ∀ c ∈ [crLora45, crLora46, crLora47, crLora48], (coderateText c).isSome := by
    simp only [List.forall_mem_cons]
    exact ⟨rfl, rfl, rfl, rfl, fun _ hc => by cases hc⟩
  obtain ⟨sf, hsf⟩ := Option.isSome_iff_exists.mp (hsf _ h.datarate)
  obtain ⟨bw, hbw⟩ := Option.isSome_iff_exists.mp (hbw _ h.bandwidth)
  obtain ⟨cr, hcr⟩ := Option.isSome_iff_exists.mp (hcr _ h.coderate)
  exact ⟨sf, bw, cr, hsf, hbw, hcr⟩

/-- The fields of a message are fields of an object. -/
theorem DownlinkMsg.Texts.fields (h : m.Texts sf bw cr) (ipol : Bool) :
    Fields (left + 1) (timeField m :: txpkFields m sf bw cr ipol) where
  plain := by
    simp only [txpkFields, radioFields, payloadFields, List.cons_append, List.nil_append,
      List.forall_mem_cons]
    refine ⟨?_, ?_, ?_, ?_, ?_, ?_, ?_, ?_, ?_, ?_, ?_, ?_, ?_, fun _ hf => by cases hf⟩ <;>
      (change Plain (ascii _); decide)
  denotes := by
    simp only [txpkFields, radioFields, payloadFields, List.cons_append, List.nil_append,
      List.forall_mem_cons]
    exact ⟨.decimal _, (Denotes.decimal _).padLeft 6, .boolean true, .decimal _,
      Denotes.number false 6 m.freq.toNat, .decimal _, .string (by decide), .string h.plain_datr,
      .string (plain_coderateText h.cr_eq).1, .boolean ipol, .decimal _, .decimal _,
      .string fun _ => printable_base64, fun _ hf => by cases hf⟩
  nodup := by
    change [ascii "tm_s", ascii "tm_us", ascii "imme", ascii "rfch", ascii "freq", ascii "powe",
      ascii "modu", ascii "datr", ascii "codr", ascii "ipol", ascii "prea", ascii "size",
      ascii "data"].Nodup
    decide
  length_le := by
    change 13 ≤ objectMaxCapacity
    decide

theorem DownlinkMsg.Texts.fields_txpk (h : m.Texts sf bw cr) (ipol : Bool) :
    Fields (left + 2) [txpkField m sf bw cr ipol] := by
  have hname : Plain (ascii "txpk") := by decide
  exact .singleton hname (.object (h.fields ipol))

/-- The text up to the polarity. -/
def txpkOpen (m : DownlinkMsg) (sf bw cr : List UInt8) : List UInt8 :=
  123 :: (quoted (ascii "txpk") ++ 58 :: 123 ::
    ((timeField m).toText ++ moreText Field.toText (radioFields m sf bw cr)))

/-- The text behind the polarity. -/
def txpkClose (m : DownlinkMsg) : List UInt8 :=
  moreText Field.toText (payloadFields m) ++ [125, 125]

/-- What is composed up to the polarity is the opening of the object. -/
theorem DownlinkMsg.Texts.compose (h : m.Texts sf bw cr) (hmod : m.modulation = modLora) :
    ∃ modulation, composeModulation m = some modulation ∧
      composeRadio m ++ modulation = txpkOpen m sf bw cr := by
  refine ⟨_, by rw [composeModulation, if_pos hmod, h.sf_eq, h.bw_eq, h.cr_eq]; rfl, ?_⟩
  simp only [composeRadio, txpkOpen, timeField, radioFields, moreText, Field.toText, numberField,
    booleanField, stringField, quoted, List.flatMap_cons, List.flatMap_nil, List.append_assoc,
    List.cons_append, List.nil_append]
  rfl

theorem DownlinkMsg.Admitted.length_data_le (hm : m.Admitted) : m.data.length ≤ 255 := by
  rw [DownlinkMsg.data, List.length_take]
  exact (Nat.min_le_left _ _).trans (UInt16.le_iff_toNat_le.mp hm.size_le)

/-- What is composed behind the polarity is the close of the object. -/
theorem DownlinkMsg.Admitted.composePayload (hm : m.Admitted) :
    composePayload m = some (txpkClose m) := by
  have hlen := hm.length_data_le
  rw [LoRaGwSv.composePayload, ← DownlinkMsg.data, binToB64_eq (by omega), Option.bind_eq_bind,
    Option.bind_some, Option.pure_def, Option.some.injEq]
  simp only [txpkClose, payloadFields, moreText, Field.toText, numberField, stringField, quoted,
    List.flatMap_cons, List.flatMap_nil, List.append_assoc, List.cons_append, List.nil_append]
  rfl

variable {buff_down : ℕ → UInt8} {token_h token_l : UInt8}

/-- The datagram of an admitted message: what depends on the buffer is its polarity. -/
theorem DownlinkMsg.Admitted.threadDownstream (hm : m.Admitted) (h : m.Texts sf bw cr) :
    threadDownstream buff_down token_h token_l m = some
      ([protocolVersion, token_h, token_l, pktDownlinkData] ++ (txpkOpen m sf bw cr ++
        (composePolarity buff_down (4 + (txpkOpen m sf bw cr).length) m ++ txpkClose m))) := by
  obtain ⟨modulation, hmodulation, heq⟩ := h.compose hm.modulation
  rw [LoRaGwSv.threadDownstream, hmodulation, hm.composePayload, Option.bind_eq_bind,
    Option.bind_some, List.append_assoc _ (composeRadio m), heq]
  simp only [Option.bind_some, Option.pure_def, List.append_assoc, List.length_append,
    List.length_cons, List.length_nil, Nat.zero_add]

/-- The object of a message, around its polarity. -/
theorem objectText_txpkField (m : DownlinkMsg) (sf bw cr : List UInt8) (ipol : Bool) :
    objectText (txpkField m sf bw cr ipol) [] =
      txpkOpen m sf bw cr ++ (44 :: ((booleanField "ipol" ipol).toText ++ txpkClose m)) := by
  simp only [txpkField, objectText, txpkFields, txpkOpen, txpkClose, Field.toText, moreText,
    quoted, List.flatMap_append, List.flatMap_cons, List.flatMap_nil, List.append_assoc,
    List.cons_append, List.nil_append]

/-- All quotes of the opening are closed. -/
theorem DownlinkMsg.Texts.quoting_txpkOpen (h : m.Texts sf bw cr) :
    quoting false (txpkOpen m sf bw cr) = some false := by
  have hfields : Fields 1 (timeField m :: txpkFields m sf bw cr false) := h.fields false
  change quoting false ((timeField m).toText ++ moreText Field.toText (radioFields m sf bw cr)) = _
  rw [quoting_append_of_eq (hfields.quoting_toText List.mem_cons_self)]
  exact quoting_moreText fun f hf =>
    hfields.quoting_toText (List.mem_cons_of_mem _ (List.mem_append_left _ hf))

/-- **Without inverted polarity the datagram is a header and the object of the message**, whatever
the buffer holds. -/
theorem DownlinkMsg.Admitted.threadDownstream_eq (hm : m.Admitted) (h : m.Texts sf bw cr)
    (hpol : m.invert_pol = false) : LoRaGwSv.threadDownstream buff_down token_h token_l m = some
      ([protocolVersion, token_h, token_l, pktDownlinkData] ++
        objectText (txpkField m sf bw cr false) []) := by
  rw [hm.threadDownstream h, objectText_txpkField, composePolarity, hpol]
  rfl

/-- A number with `k` decimals has at most `d + k + 1` characters. -/
theorem length_fixed_le {k n d : ℕ} (hd : 0 < d) (h : n < 10 ^ (d + k)) :
    (fixed k n).length ≤ d + (k + 1) := by
  have hlt : n % 10 ^ k < 10 ^ k := Nat.mod_lt _ (by positivity)
  have hdiv : n / 10 ^ k < 10 ^ d := Nat.div_lt_of_lt_mul (by rwa [← pow_add, Nat.add_comm])
  have hwhole := length_decimal_le hd hdiv
  rw [fixed, List.length_append, length_fraction hlt]
  split <;> omega

/-- The object of a message fits into what is received at once. -/
theorem DownlinkMsg.Admitted.length_objectText_le (hm : m.Admitted) (h : m.Texts sf bw cr)
    (ipol : Bool) : (objectText (txpkField m sf bw cr ipol) []).length ≤ 1019 := by
  have hsf := (plain_spreadingFactor h.sf_eq).2
  have hbw := (plain_bandwidthText h.bw_eq).2
  have hcr := (plain_coderateText h.cr_eq).2
  have hsec : (decimal (unsigned m.msg_tx_time.tv_sec)).length ≤ 10 :=
    length_decimal_le (by decide) (by rw [unsigned]; omega)
  have husec : (padLeft 6 32 (decimal (unsigned m.msg_tx_time.tv_usec))).length ≤ 16 := by
    have hle : (decimal (unsigned m.msg_tx_time.tv_usec)).length ≤ 10 :=
      length_decimal_le (by decide) (by rw [unsigned]; omega)
    rw [padLeft, List.length_append, List.length_replicate]
    omega
  have hrfch : (decimal m.rf_chain.toNat).length ≤ 3 :=
    length_decimal_le (by decide) (m.rf_chain.toNat_lt.trans (by decide))
  have hfreq : (fixed 6 m.freq.toNat).length ≤ 4 + (6 + 1) :=
    length_fixed_le (by decide) (m.freq.toNat_lt.trans (by decide))
  have hpowe : (decimal (unsigned m.rf_power.toInt)).length ≤ 10 :=
    length_decimal_le (by decide) (by rw [unsigned]; omega)
  have hprea : (decimal m.preamble.toNat).length ≤ 5 :=
    length_decimal_le (by decide) (m.preamble.toNat_lt.trans (by decide))
  have hsize : (decimal m.size.toNat).length ≤ 5 :=
    length_decimal_le (by decide) (m.size.toNat_lt.trans (by decide))
  have hdata : (base64 m.data).length ≤ 340 := by
    have := hm.length_data_le
    rw [length_base64]
    omega
  rw [objectText_txpkField]
  simp only [txpkOpen, txpkClose, timeField, radioFields, payloadFields, moreText, Field.toText,
    numberField, stringField, booleanField, quoted, List.flatMap_cons, List.flatMap_nil,
    List.length_append, List.length_cons, List.length_nil, List.append_assoc, List.cons_append,
    List.nil_append]
  have hipol : (ascii (if ipol then "true" else "false")).length ≤ 5 := by
    cases ipol <;> decide
  simp [ascii] at hipol ⊢
  omega

end LoRaGwSv
