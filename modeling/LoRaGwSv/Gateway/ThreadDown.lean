import LoRaGwSv.Gateway.Jitqueue
import LoRaGwSv.Server.ThreadDownstream

/-!
# Gateway/ThreadDown — how a datagram becomes a packet to send (`thread_down`)

Each result of `recv` is taken for a datagram: a header of four bytes and a JSON object, behind
which anything may follow.  The packet is modelled up to the check of its power, with which the work
for the JIT queue begins.  Numbers are cut off at the point, and wrap.
-/

namespace LoRaGwSv

open Text

/-- Why nothing comes of a datagram. -/
inductive DownError
  | invalidPacket
  | unknownType
  | notDownlink
  | invalidJson
  | missing (field : String)
  | format (field : String)
  | modulation
  /-- The process ends. -/
  | exit
deriving DecidableEq, Repr

/-- The frequency for a number of megahertz, which is computed in floating point, and the gain of
the antenna. -/
structure DownConfig where
  freqHz : ℚ → UInt32
  antenna_gain : Int8

/-- `MIN_LORA_PREAMB`. -/
def minLoraPreamb : ℤ := 6

/-- `STD_LORA_PREAMB`. -/
def stdLoraPreamb : UInt16 := 8

/-- A field that is missing ends the parse. -/
def orAbort {α : Type} (o : Option α) (e : DownError) : Except DownError α :=
  match o with
  | none => .error e
  | some a => .ok a

/-- `sscanf` with `SF%2hdBW%3hd`. -/
def scanDatr (str : List UInt8) : Option (ℤ × ℤ) := do
  let (x0, str) ← scanShort 2 (← str.dropPrefix? (ascii "SF"))
  let (x1, _) ← scanShort 3 (← str.dropPrefix? (ascii "BW"))
  return (x0, x1)

/-- The data rate of a spreading factor. -/
def datarateOf (x0 : ℤ) : Option UInt32 :=
  if x0 = 7 then some drLoraSf7
  else if x0 = 8 then some drLoraSf8
  else if x0 = 9 then some drLoraSf9
  else if x0 = 10 then some drLoraSf10
  else if x0 = 11 then some drLoraSf11
  else if x0 = 12 then some drLoraSf12
  else none

/-- The bandwidth, in kilohertz. -/
def bandwidthOf (x1 : ℤ) : Option UInt8 :=
  if x1 = 125 then some bw125Khz
  else if x1 = 250 then some bw250Khz
  else if x1 = 500 then some bw500Khz
  else none

/-- The code rate; anything else is refused. -/
def coderateOf (str : List UInt8) : Option UInt8 :=
  if str = ascii "4/5" then some crLora45
  else if str = ascii "4/6" then some crLora46
  else if str = ascii "2/3" then some crLora46
  else if str = ascii "4/7" then some crLora47
  else if str = ascii "4/8" then some crLora48
  else if str = ascii "1/2" then some crLora48
  else none

/-- A preamble that is too short is made longer, and one that is missing is the standard one. -/
def preambleOf : Option Json → UInt16
  | none => stdLoraPreamb
  | some val =>
    let i := truncate (valueGetNumber val)
    if i ≥ minLoraPreamb then UInt16.ofNat (i % 65536).toNat else 6

/-- The payload, where a text that cannot be decoded leaves zeros; `none` if the process ends. -/
def payloadOf (str : List UInt8) : Option (Vector UInt8 256) :=
  (b64ToBin str 256).map fun bytes => Wire.copy (Vector.replicate 256 0) 0 (bytes.getD [])

/-- The fields of a LoRa packet that depend on the modulation. -/
def parseLora (txpk_obj : List (List UInt8 × Json)) (txpkt : LgwPktTx) :
    Except DownError LgwPktTx := do
  let datr ←
    orAbort ((objectGetValue txpk_obj (ascii "datr")).bind valueGetString) (.missing "datr")
  let (x0, x1) ← orAbort (scanDatr datr) (.format "datr")
  let datarate ← orAbort (datarateOf x0) (.format "datr")
  let bandwidth ← orAbort (bandwidthOf x1) (.format "datr")
  let codr ←
    orAbort ((objectGetValue txpk_obj (ascii "codr")).bind valueGetString) (.missing "codr")
  let coderate ← orAbort (coderateOf codr) (.format "codr")
  return { txpkt with
    modulation := modLora
    datarate := datarate
    bandwidth := bandwidth
    coderate := coderate
    invert_pol := (objectGetValue txpk_obj (ascii "ipol")).any (valueGetBoolean · ≠ 0)
    preamble := preambleOf (objectGetValue txpk_obj (ascii "prea")) }

/-- What is sent with FSK is not implemented. -/
def parseModulation (txpk_obj : List (List UInt8 × Json)) (modu : List UInt8) (txpkt : LgwPktTx) :
    Except DownError LgwPktTx :=
  if modu = ascii "LORA" then parseLora txpk_obj txpkt else .error .modulation

/-- The time to send a packet at, and the packet. -/
def parseTxpk (cfg : DownConfig) (text : List UInt8) : Except DownError (Timeval × LgwPktTx) := do
  let root_val ← orAbort (jsonParseStringWithComments text) .invalidJson
  let txpk_obj ← orAbort (do
    valueGetObject (← objectGetValue (← valueGetObject root_val) (ascii "txpk"))) (.missing "txpk")
  let tm_s ← orAbort (objectGetValue txpk_obj (ascii "tm_s")) (.missing "tm_s")
  let tm_us ← orAbort (objectGetValue txpk_obj (ascii "tm_us")) (.missing "tm_us")
  let sent_immediate := (objectGetValue txpk_obj (ascii "imme")).any (valueGetBoolean · = 1)
  let freq ← orAbort (objectGetValue txpk_obj (ascii "freq")) (.missing "freq")
  let rfch ← orAbort (objectGetValue txpk_obj (ascii "rfch")) (.missing "rfch")
  let rf_power := match objectGetValue txpk_obj (ascii "powe") with
    | none => 0
    | some val => Int8.ofInt (truncate (valueGetNumber val)) - cfg.antenna_gain
  let modu ←
    orAbort ((objectGetValue txpk_obj (ascii "modu")).bind valueGetString) (.missing "modu")
  let txpkt := { zeroPkt with
    freq_hz := cfg.freqHz (valueGetNumber freq)
    rf_chain := toUInt8 (valueGetNumber rfch)
    rf_power := rf_power }
  let txpkt ← parseModulation txpk_obj modu txpkt
  let size ← orAbort (objectGetValue txpk_obj (ascii "size")) (.missing "size")
  let data ←
    orAbort ((objectGetValue txpk_obj (ascii "data")).bind valueGetString) (.missing "data")
  let payload ← orAbort (payloadOf data) .exit
  return (⟨truncate (valueGetNumber tm_s) % 4294967296,
      truncate (valueGetNumber tm_us) % 4294967296⟩,
    { txpkt with
      size := toUInt16 (valueGetNumber size)
      payload := payload
      tx_mode := if sent_immediate then txImmediate else txTimestamped })

/-- What comes of a result of `recv`. -/
def threadDown (cfg : DownConfig) (buff_down : List UInt8) :
    Except DownError (Timeval × LgwPktTx) :=
  if buff_down.length < 12 ∨ buff_down[0]? ≠ some protocolVersion then .error .invalidPacket
  else if buff_down[3]? = some pktDownlinkData then parseTxpk cfg (buff_down.drop 4)
  else if buff_down[3]? = some pktUplinkAck ∨ buff_down[3]? = some pktTimesyncRes then
    .error .notDownlink
  else .error .unknownType

/-! ## What has been composed is parsed -/

variable {cfg : DownConfig} {m : DownlinkMsg} {sf bw cr : List UInt8} {text : List UInt8}

theorem orAbort_some {α : Type} (a : α) (e : DownError) : orAbort (some a) e = .ok a := rfl

theorem ok_bind {α β : Type} (a : α) (f : α → Except DownError β) :
    (Except.ok a >>= f) = f a := rfl

/-- **A data rate that is written is read back**, with its bandwidth. -/
theorem scanDatr_texts {d : UInt32} {b : UInt8} (hsf : spreadingFactor d = some sf)
    (hbw : bandwidthText b = some bw) : ∃ x0 x1, scanDatr (sf ++ bw) = some (x0, x1) ∧
      datarateOf x0 = some d ∧ bandwidthOf x1 = some b := by
  simp only [spreadingFactor] at hsf
  simp only [bandwidthText] at hbw
  split_ifs at hsf with h h h h h h <;> obtain rfl := Option.some.inj hsf <;> subst h <;>
    split_ifs at hbw with h h h <;> obtain rfl := Option.some.inj hbw <;> subst h <;>
    exact ⟨_, _, rfl, rfl, rfl⟩

theorem coderateOf_text {c : UInt8} (hc : c ≠ 0) (hcr : coderateText c = some cr) :
    coderateOf cr = some c := by
  simp only [coderateText] at hcr
  split_ifs at hcr with h h h h <;> obtain rfl := Option.some.inj hcr <;> subst h <;> rfl

theorem preambleOf_number {p : UInt16} (hp : 6 ≤ p) :
    preambleOf (some (.number p.toNat)) = p := by
  have hle : 6 ≤ p.toNat := UInt16.le_iff_toNat_le.mp hp
  have hlt := p.toNat_lt
  simp only [preambleOf, valueGetNumber, truncate_natCast, minLoraPreamb]
  rw [if_pos (by omega), show ((p.toNat : ℤ) % 65536).toNat = p.toNat by omega, UInt16.ofNat_toNat]

theorem truncate_unsigned {x : ℤ} (h0 : 0 ≤ x) (h : x < 4294967296) :
    truncate (unsigned x : ℚ) = x := by
  rw [truncate_natCast, unsigned, Int.emod_eq_of_lt h0 h, Int.toNat_of_nonneg h0]

theorem payloadOf_base64 (hlen : m.data.length ≤ 255) :
    payloadOf (base64 m.data) = some (Wire.copy (Vector.replicate 256 0) 0 m.data) := by
  rw [payloadOf, b64ToBin_encode (by omega)]
  rfl

/-- The packet a message is meant to become. -/
def DownlinkMsg.packet (cfg : DownConfig) (m : DownlinkMsg) : LgwPktTx :=
  { zeroPkt with
    freq_hz := cfg.freqHz (m.freq.toNat / 10 ^ 6)
    tx_mode := m.tx_mode
    rf_chain := m.rf_chain
    rf_power := m.rf_power - cfg.antenna_gain
    modulation := m.modulation
    bandwidth := m.bandwidth
    datarate := m.datarate
    coderate := m.coderate
    invert_pol := m.invert_pol
    preamble := m.preamble
    size := m.size
    payload := Wire.copy (Vector.replicate 256 0) 0 m.data }

/-- The fields of the LoRa modulation, in a packet that has the others. -/
theorem DownlinkMsg.Admitted.parseLora (hm : m.Admitted) (h : m.Texts sf bw cr) (pkt : LgwPktTx) :
    parseLora ((timeField m :: txpkFields m sf bw cr m.invert_pol).map Field.member) pkt =
      .ok { pkt with
        modulation := modLora
        datarate := m.datarate
        bandwidth := m.bandwidth
        coderate := m.coderate
        invert_pol := m.invert_pol
        preamble := m.preamble } := by
  set members := (timeField m :: txpkFields m sf bw cr m.invert_pol).map Field.member
  obtain ⟨x0, x1, hscan, hx0, hx1⟩ := scanDatr_texts h.sf_eq h.bw_eq
  have hcr : coderateOf cr = some m.coderate := coderateOf_text (fun h0 => by
    have := hm.coderate
    rw [h0] at this
    exact absurd this (by decide)) h.cr_eq
  have hdatr : objectGetValue members (ascii "datr") = some (.string (sf ++ bw)) := rfl
  have hcodr : objectGetValue members (ascii "codr") = some (.string cr) := rfl
  have hipol : objectGetValue members (ascii "ipol") = some (.boolean m.invert_pol) := rfl
  have hprea : objectGetValue members (ascii "prea") = some (.number m.preamble.toNat) := rfl
  simp only [LoRaGwSv.parseLora, hdatr, hcodr, hipol, hprea, Option.bind_some, valueGetString,
    hscan, hx0, hx1, hcr, orAbort_some, ok_bind, preambleOf_number hm.preamble, valueGetBoolean]
  cases m.invert_pol <;> rfl

/-- **The object of a message is parsed to the packet of the message**, whatever comes behind it. -/
theorem DownlinkMsg.Admitted.parseTxpk (hm : m.Admitted) (h : m.Texts sf bw cr) (cfg : DownConfig)
    (q : List UInt8) :
    parseTxpk cfg (objectText (txpkField m sf bw cr m.invert_pol) [] ++ q) =
      .ok (m.msg_tx_time, m.packet cfg) := by
  have hpow : Int8.ofInt (truncate (unsigned m.rf_power.toInt : ℚ)) = m.rf_power := by
    have hnonneg : 0 ≤ m.rf_power.toInt := Int8.le_iff_toInt_le.mp hm.rf_power
    have hlt := m.rf_power.toInt_lt
    rw [truncate_unsigned hnonneg (by omega), Int8.ofInt_toInt]
  have hsec : truncate (unsigned m.msg_tx_time.tv_sec : ℚ) % 4294967296 = m.msg_tx_time.tv_sec := by
    rw [truncate_unsigned hm.tv_sec_nonneg hm.tv_sec_lt,
      Int.emod_eq_of_lt hm.tv_sec_nonneg hm.tv_sec_lt]
  have husec : truncate (unsigned m.msg_tx_time.tv_usec : ℚ) % 4294967296 =
      m.msg_tx_time.tv_usec := by
    have hlt : m.msg_tx_time.tv_usec < 4294967296 := hm.normalised.lt.trans (by decide)
    rw [truncate_unsigned hm.normalised.nonneg hlt, Int.emod_eq_of_lt hm.normalised.nonneg hlt]
  rw [LoRaGwSv.parseTxpk, jsonParse_object (h.fields_txpk _) q]
  have hlora := hm.parseLora h
  set members := (timeField m :: txpkFields m sf bw cr m.invert_pol).map Field.member
  have hroot : objectGetValue ([txpkField m sf bw cr m.invert_pol].map Field.member)
      (ascii "txpk") = some (.object members) := rfl
  have htm_s : objectGetValue members (ascii "tm_s") =
      some (.number (unsigned m.msg_tx_time.tv_sec)) := rfl
  have htm_us : objectGetValue members (ascii "tm_us") =
      some (.number (unsigned m.msg_tx_time.tv_usec)) := rfl
  have himme : objectGetValue members (ascii "imme") = some (.boolean true) := rfl
  have hrfch : objectGetValue members (ascii "rfch") = some (.number m.rf_chain.toNat) := rfl
  have hfreq : objectGetValue members (ascii "freq") =
      some (.number (m.freq.toNat / 10 ^ 6)) := rfl
  have hpowe : objectGetValue members (ascii "powe") =
      some (.number (unsigned m.rf_power.toInt)) := rfl
  have hmodu : objectGetValue members (ascii "modu") = some (.string (ascii "LORA")) := rfl
  have hsize : objectGetValue members (ascii "size") = some (.number m.size.toNat) := rfl
  have hdata : objectGetValue members (ascii "data") = some (.string (base64 m.data)) := rfl
  simp only [orAbort_some, ok_bind, valueGetObject, Option.bind_eq_bind, Option.bind_some, hroot,
    htm_s, htm_us, himme, hrfch, hfreq, hpowe, hmodu, hsize, hdata, valueGetNumber, valueGetString,
    parseModulation, if_true, hpow, hsec, husec, toUInt8_toNat, toUInt16_toNat, hlora,
    payloadOf_base64 hm.length_data_le, DownlinkMsg.packet, hm.tx_mode, hm.modulation]
  rfl

end LoRaGwSv
