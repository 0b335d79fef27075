import LoRaGwSv.Machinery.Runs
import LoRaGwSv.Server.InputMsgHandler

/-!
# Server/WeatherDevice — how raw data becomes records (`weather_device.c`)

Each frame `ws_parse_data` goes over the raw data of all devices.  A sample makes a record, or marks
the record of its device invalid; a sample with another first byte than `$`, or with an identifier
that is out of range, leaves the record as it is.  A record is published as long as it is valid and
its sample was new less than ten parses before.  **What a device sent last is what is published of
it exactly if no sample is passed over while the record before it still counts**
(`publishesFresh_iff`).

Floats are kept exactly, as the decimals they come from: wind speed, temperature and humidity in
tenths, positions in millionths of a degree; the gas level is the word that `convertToFloatingPoint`
makes a float of, bit for bit (`convertToFloatingPoint_eq`).  A call is taken as one step; the
fields for temperature tracking, which nothing sets, are left out.
-/

namespace LoRaGwSv

open Wire

/-- `WS_DATA_OBSOLETE_LEVEL_MAX`. -/
def wsDataObsoleteLevelMax : UInt8 := 10

/-- `struct ws_meta_data_s`; a position is `none` where it was read past the table. -/
structure WsMetaData where
  loraNodeId : UInt16
  wdID : UInt8
  winddir : ℤ
  windspd_f : ℤ
  temp : ℤ
  humi : ℤ
  gas : UInt32
  gps_lat : Option ℕ
  gps_alt : Option ℕ
  data_obsolete_level : UInt8
  data_valid : Bool
deriving DecidableEq

/-- What `memset` leaves of the raw data of a device. -/
def zeroBuffer : WsDataBuffer := ⟨0, Vector.replicate _ 0, 0, 0⟩

/-- A record as `ws_app_init` leaves it. -/
def zeroMetaData : WsMetaData := ⟨0, 0, 0, 0, 0, 0, 0, some 0, some 0, 0, false⟩

/-- Latitude and longitude by device, in millionths of a degree. -/
def gpsLocation : List (ℕ × ℕ) :=
  [(0, 0), (35542925, 129254590), (35542978, 129255347), (35542912, 129255888),
    (35545618, 129254853), (35543165, 129256811), (35544776, 129256055), (35543331, 129257444),
    (35543519, 129257718), (35543536, 129254547), (35543685, 129255121), (35543209, 129255749),
    (35543244, 129256232), (35546483, 129255921), (35543414, 129257036), (35543523, 129257364),
    (35543667, 129257712), (35544418, 129254386), (35544213, 129255078), (35544318, 129255588),
    (35544431, 129256049), (35544392, 129256645), (35544209, 129257047), (35544078, 129257509),
    (35544148, 129257836), (35544776, 129254628), (35544894, 129255025), (35544972, 129255422),
    (35544885, 129255990), (35544859, 129256709), (35544876, 129257074), (35544890, 129257433),
    (35544951, 129257702), (35545536, 129254708), (35545300, 129254783), (35545435, 129255143),
    (35545295, 129255486), (35545330, 129256666), (35545343, 129257085), (35545352, 129257471),
    (35545618, 129257187)] ++
    List.replicate 24 (0, 0)

/-- The raw data and the records. -/
structure WsState where
  ws_data_buf : WsData
  ws_meta_data : Vector WsMetaData wsNumberOfDevice
deriving DecidableEq

/-- What `ws_app_init` leaves. -/
def wsStart : WsState := ⟨wsAppInit, Vector.replicate _ zeroMetaData⟩

/-! ## Numbers -/

/-- The bits of a word, the highest one first. -/
def ieeeBits (value : UInt32) : List ℕ :=
  (List.range 32).map fun i => value.toNat / 2 ^ (31 - i) % 2

/-- The bits from `high` down to `low` as a number. -/
def convertToInt (arr : List ℕ) (low high : ℕ) : ℕ :=
  (List.range (high + 1 - low)).foldl (fun f k => f + arr.getD (high - k) 0 * 2 ^ k) 0

/-- The mantissa, the exponent and the sign, as they lie in a float. -/
def convertToFloatingPoint (value : UInt32) : UInt32 :=
  UInt32.ofNat (convertToInt (ieeeBits value) 9 31 + 2 ^ 23 * convertToInt (ieeeBits value) 1 8
    + 2 ^ 31 * (ieeeBits value).getD 0 0)

/-- The number in two bytes of a sample, four bits at a time. -/
def resultInt (temp1 temp2 : UInt8) : ℤ :=
  (temp1 >>> 4).toNat * 4096 + (temp1 &&& 0x0F).toNat * 256 + (temp2 >>> 4).toNat * 16
    + (temp2 &&& 0x0F).toNat

/-- The word in four bytes of a sample, the lowest first. -/
def tempConvert (temp1 temp2 temp3 temp4 : UInt8) : UInt32 :=
  temp1.toUInt32 ||| (temp2.toUInt32 <<< 8) ||| (temp3.toUInt32 <<< 16) ||| (temp4.toUInt32 <<< 24)

/-! ## Parsing

`ws_parse_data` has two loops over all devices.  The first copies what has been stored and ages it;
the second parses the copies.  As neither looks at another device, they are given here for one. -/

/-- The test of both loops. -/
def WsDataBuffer.taken (buf : WsDataBuffer) : Bool :=
  buf.loraNodeID ≠ 0 ∧ byteAt buf.data_ptr 0 = 0x24

/-- What the first loop copies. -/
def WsDataBuffer.copied (buf : WsDataBuffer) : WsDataBuffer := if buf.taken then buf else zeroBuffer

/-- What the first loop leaves: data that is copied has aged. -/
def WsDataBuffer.aged (buf : WsDataBuffer) : WsDataBuffer :=
  if buf.taken ∧ buf.data_obsolete_level < wsDataObsoleteLevelMax then
    { buf with data_obsolete_level := buf.data_obsolete_level + 1 }
  else buf

/-- What the second loop makes of a sample. -/
inductive Parsed
  | passedOver
  | invalid
  | record (temp_ws_meta_data : WsMetaData)
deriving DecidableEq

/-- The second loop, for one device: the sample is passed over, it marks the record invalid, or it
makes a record. -/
def parseSample (temp : WsDataBuffer) : Parsed :=
  if temp.taken then
    let wdID := byteAt temp.data_ptr 1
    let result (i : ℕ) := resultInt (byteAt temp.data_ptr i) (byteAt temp.data_ptr (i + 1))
    if wdID = 255 then .invalid
    else if wsNumberOfDevice + 1 < wdID.toNat then .passedOver
    else .record
      { loraNodeId := temp.loraNodeID.toUInt16
        wdID := wdID
        winddir := result 2
        windspd_f := result 4
        temp := result 6 - 300
        humi := result 8
        gas := convertToFloatingPoint (tempConvert (byteAt temp.data_ptr 10)
          (byteAt temp.data_ptr 11) (byteAt temp.data_ptr 12) (byteAt temp.data_ptr 13))
        gps_lat := gpsLocation[wdID.toNat]?.map Prod.fst
        gps_alt := gpsLocation[wdID.toNat]?.map Prod.snd
        data_obsolete_level := temp.data_obsolete_level
        data_valid := true }
  else .passedOver

/-- What becomes of the record of the device. -/
def Parsed.store (parsed : Parsed) (ws_meta_data : WsMetaData) : WsMetaData :=
  match parsed with
  | .passedOver => ws_meta_data
  | .invalid => { ws_meta_data with data_valid := false }
  | .record temp_ws_meta_data => temp_ws_meta_data

/-- `ws_parse_data`. -/
def wsParseData (s : WsState) : WsError × WsState :=
  (.ok,
    { ws_data_buf := s.ws_data_buf.map WsDataBuffer.aged
      ws_meta_data := Vector.zipWith (fun buf ws_meta_data =>
        (parseSample buf.copied).store ws_meta_data) s.ws_data_buf s.ws_meta_data })

/-- `ws_push_data_to_server` includes the record. -/
def WsMetaData.included (m : WsMetaData) : Bool :=
  m.loraNodeId ≠ 0 ∧ m.wdID ≠ 255 ∧ m.data_valid ∧ m.data_obsolete_level < wsDataObsoleteLevelMax

/-- The raw data of device `i`. -/
def rawOf (ws_data_buf : WsData) (i : ℕ) : WsDataBuffer := ws_data_buf.toList.getD i zeroBuffer

/-- The record of device `i`. -/
def WsState.record (s : WsState) (i : ℕ) : WsMetaData := s.ws_meta_data.toList.getD i zeroMetaData

variable {buf : WsDataBuffer} {s : WsState} {i : ℕ}

/-! ## What a float is made of -/

/-- The bits from `high` down to `low` are read out of the word. -/
theorem convertToInt_ieeeBits (value : UInt32) {low high : ℕ} (hhigh : high ≤ 31) :
    convertToInt (ieeeBits value) low high
      = value.toNat / 2 ^ (31 - high) % 2 ^ (high + 1 - low) := by
  have hk : high + 1 - low ≤ high + 1 := Nat.sub_le _ _
  rw [convertToInt]
  generalize high + 1 - low = n at hk ⊢
  induction n with
  | zero => rw [Nat.pow_zero, Nat.mod_one]; rfl
  | succ n ih =>
    have hget : (ieeeBits value).getD (high - n) 0 = value.toNat / 2 ^ (31 - high) / 2 ^ n % 2 := by
      rw [ieeeBits, List.getD_eq_getElem _ _ (by rw [List.length_map, List.length_range]; omega),
        List.getElem_map, List.getElem_range, Nat.div_div_eq_div_mul, ← Nat.pow_add]
      congr 3
      omega
    rw [List.range_succ, List.foldl_append, ih (by omega), List.foldl_cons, List.foldl_nil, hget,
      Nat.mod_pow_succ, Nat.mul_comm (2 ^ n)]

/-- **The float has the bits of the word.** -/
theorem convertToFloatingPoint_eq (value : UInt32) : convertToFloatingPoint value = value := by
  have hvalue := value.toNat_lt
  refine UInt32.toNat_inj.mp ?_
  rw [convertToFloatingPoint, convertToInt_ieeeBits _ (by decide),
    convertToInt_ieeeBits _ (by decide), UInt32.toNat_ofNat']
  show (_ + 2 ^ 31 * (value.toNat / 2 ^ 31 % 2)) % 2 ^ 32 = _
  norm_num
  omega

/-! ## One device -/

/-- A sample that is stored replaces the raw data of its device only. -/
theorem rawOf_update {ws_data_buf : WsData} {a : ℕ} (ha : a < wsNumberOfDevice)
    (buf : WsDataBuffer) (i : ℕ) :
    rawOf (ws_data_buf.setIfInBounds a buf) i = if i = a then buf else rawOf ws_data_buf i := by
  have hlen : ws_data_buf.toList.length = wsNumberOfDevice := ws_data_buf.length_toList
  have hset : (ws_data_buf.setIfInBounds a buf).toList = ws_data_buf.toList.set a buf := by
    simp [Vector.toList, Vector.setIfInBounds]
  rw [rawOf, rawOf, hset, List.getD_eq_getElem?_getD, List.getD_eq_getElem?_getD,
    List.getElem?_set]
  by_cases hi : i = a
  · rw [if_pos hi.symm, if_pos hi, if_pos (by omega), Option.getD_some]
  · rw [if_neg (Ne.symm hi), if_neg hi]

/-- Parsing ages the raw data of each device. -/
theorem rawOf_wsParseData (s : WsState) (i : ℕ) :
    rawOf (wsParseData s).2.ws_data_buf i = (rawOf s.ws_data_buf i).aged := by
  rw [wsParseData, rawOf, rawOf, Vector.toList_map]
  exact @List.getD_map _ _ s.ws_data_buf.toList zeroBuffer i WsDataBuffer.aged

/-- What parsing makes of a record depends on the raw data of its device alone. -/
theorem record_wsParseData (s : WsState) (i : ℕ) : (wsParseData s).2.record i
    = (parseSample (rawOf s.ws_data_buf i).copied).store (s.record i) := by
  have hlen : s.ws_data_buf.toList.length = wsNumberOfDevice := s.ws_data_buf.length_toList
  have hlen' : s.ws_meta_data.toList.length = wsNumberOfDevice := s.ws_meta_data.length_toList
  rw [wsParseData, WsState.record, WsState.record, rawOf, Vector.toList_zipWith]
  rcases Nat.lt_or_ge i wsNumberOfDevice with hi | hi
  · rw [List.getD_eq_getElem _ _ (by rw [List.length_zipWith]; omega), List.getElem_zipWith,
      List.getD_eq_getElem _ _ (by omega), List.getD_eq_getElem _ _ (by omega)]
  · rw [List.getD_eq_default _ _ (by rw [List.length_zipWith]; omega),
      List.getD_eq_default _ _ (by omega), List.getD_eq_default _ _ (by omega)]
    rfl

/-- Ageing raises a level, and nothing else. -/
theorem aged_loraNodeID (buf : WsDataBuffer) : buf.aged.loraNodeID = buf.loraNodeID := by
  rw [WsDataBuffer.aged]
  split <;> rfl

theorem aged_data_ptr (buf : WsDataBuffer) : buf.aged.data_ptr = buf.data_ptr := by
  rw [WsDataBuffer.aged]
  split <;> rfl

theorem aged_taken (buf : WsDataBuffer) : buf.aged.taken = buf.taken := by
  rw [WsDataBuffer.taken, WsDataBuffer.taken, aged_loraNodeID, aged_data_ptr]

/-- The level counts the parses, up to its limit. -/
theorem aged_level (htaken : buf.taken = true) {k : ℕ}
    (hlevel : buf.data_obsolete_level.toNat = min k 10) :
    buf.aged.data_obsolete_level.toNat = min (k + 1) 10 := by
  have hlt : buf.data_obsolete_level < wsDataObsoleteLevelMax ↔ k < 10 := by
    rw [UInt8.lt_iff_toNat_lt, hlevel]
    show min k 10 < 10 ↔ _
    omega
  rw [WsDataBuffer.aged]
  by_cases hk : k < 10
  · rw [if_pos ⟨htaken, hlt.mpr hk⟩, UInt8.toNat_add, hlevel, UInt8.toNat_one]
    omega
  · rw [if_neg fun hcon => hk (hlt.mp hcon.2), hlevel]
    omega

/-- A sample of the device that parsing passes over. -/
def WsDataBuffer.PassedOver (buf : WsDataBuffer) : Prop :=
  buf.loraNodeID ≠ 0 ∧ (byteAt buf.data_ptr 0 ≠ 0x24 ∨
    byteAt buf.data_ptr 1 ≠ 255 ∧ wsNumberOfDevice + 1 < (byteAt buf.data_ptr 1).toNat)

instance (buf : WsDataBuffer) : Decidable buf.PassedOver := inferInstanceAs (Decidable (_ ∧ _))

/-- **What parsing does to a device**: it knows no sample of it, it passes over the sample, or the
record tells of the sample. -/
inductive ParsedAs (buf : WsDataBuffer) : Parsed → Prop
  | unknown (h : buf.loraNodeID = 0) : ParsedAs buf .passedOver
  | passedOver (h : buf.PassedOver) : ParsedAs buf .passedOver
  | invalid (h : ¬ buf.PassedOver) : ParsedAs buf .invalid
  | record (m : WsMetaData) (h : ¬ buf.PassedOver) (htaken : buf.taken = true)
      (hlevel : m.data_obsolete_level = buf.data_obsolete_level) : ParsedAs buf (.record m)

/-- Parsing does one of these to every device. -/
theorem parsedAs_parseSample (buf : WsDataBuffer) : ParsedAs buf (parseSample buf.copied) := by
  rw [WsDataBuffer.copied]
  by_cases htaken : buf.taken = true
  · obtain ⟨hid, hfirst⟩ := of_decide_eq_true htaken
    rw [if_pos htaken, parseSample, if_pos htaken]
    dsimp only
    by_cases hinvalid : byteAt buf.data_ptr 1 = 255
    · rw [if_pos hinvalid]
      refine .invalid fun hpassed => ?_
      exact hpassed.2.elim (fun hne => hne hfirst) fun hne => hne.1 hinvalid
    · rw [if_neg hinvalid]
      by_cases hrange : wsNumberOfDevice + 1 < (byteAt buf.data_ptr 1).toNat
      · rw [if_pos hrange]
        exact .passedOver ⟨hid, Or.inr ⟨hinvalid, hrange⟩⟩
      · rw [if_neg hrange]
        refine .record _ (fun hpassed => ?_) htaken rfl
        exact hpassed.2.elim (fun hne => hne hfirst) fun hne => hrange hne.2
  · rw [if_neg htaken, parseSample, if_neg (by decide)]
    by_cases hid : buf.loraNodeID = 0
    · exact .unknown hid
    · refine .passedOver ⟨hid, Or.inl fun hfirst => htaken ?_⟩
      exact decide_eq_true ⟨hid, hfirst⟩

/-! ## Calls

Beside the state stands which update the raw data and the record of each device come from, and how
many parses ago it was stored. -/

/-- A sample that was stored: which update it came with, and after how many parses. -/
structure Stamp where
  serial : ℕ
  parses : ℕ
deriving DecidableEq

/-- The state, with what has been stored beside it. -/
structure WsWatch where
  ws : WsState
  updates : ℕ
  parses : ℕ
  /-- The last sample of each device. -/
  stored : ℕ → Option Stamp
  /-- The sample that the record of each device was parsed from. -/
  origin : ℕ → Option Stamp
  /-- The last call was a parse. -/
  parsed : Bool

/-- Nothing has been stored yet. -/
def WsWatch.start : WsWatch := ⟨wsStart, 0, 0, fun _ => none, fun _ => none, false⟩

/-- The calls of the module. -/
inductive WsCall
  | update (nodeAddr : UInt16) (buff : List UInt8) (buffLen : UInt8)
  | parse
deriving DecidableEq

/-- Whether a record has been made. -/
def Parsed.isRecord : Parsed → Bool
  | .record _ => true
  | _ => false

/-- A call, with the stamps of what it stores and of what it parses; `none` where an update copies
past the end of its sample. -/
def WsCall.step (s : WsWatch) : WsCall → Option WsWatch
  | .update nodeAddr buff buffLen =>
    (wsUpdateRawData s.ws.ws_data_buf nodeAddr buff buffLen).map fun (err, ws_data_buf) =>
      { s with
        ws := { s.ws with ws_data_buf := ws_data_buf }
        updates := s.updates + 1
        stored := fun i =>
          if err = .ok ∧ i = nodeAddr.toNat then some ⟨s.updates, s.parses⟩ else s.stored i
        parsed := false }
  | .parse =>
    some { s with
      ws := (wsParseData s.ws).2
      parses := s.parses + 1
      origin := fun i =>
        if (parseSample (rawOf s.ws.ws_data_buf i).copied).isRecord then s.stored i
        else s.origin i
      parsed := true }

/-- **What is published after a parse is fresh**: it was parsed from the last sample of its device,
stored at most ten parses ago. -/
def WsWatch.PublishesFresh (s : WsWatch) : Prop :=
  s.parsed = true → ∀ i, (s.ws.record i).included = true →
    ∃ stamp, s.origin i = some stamp ∧ s.stored i = some stamp ∧ s.parses ≤ stamp.parses + 10

/-- An update must fit; and a parse must not pass over a sample while the record of its device
is still published. -/
def WsCall.Careful (s : WsWatch) : WsCall → Prop
  | .update nodeAddr _ buffLen =>
    wsNumberOfDevice ≤ nodeAddr.toNat ∨ buffLen.toNat ≤ wsMaxDataSize
  | .parse => ∀ i, (rawOf s.ws.ws_data_buf i).PassedOver → (s.ws.record i).included = false

/-- What holds after any calls. -/
structure WsWatch.Inv (s : WsWatch) : Prop where
  zero : (rawOf s.ws.ws_data_buf 0).loraNodeID = 0
  unknown : ∀ i, (rawOf s.ws.ws_data_buf i).loraNodeID = 0 → (s.ws.record i).included = false
  known : ∀ i, (rawOf s.ws.ws_data_buf i).loraNodeID ≠ 0 → ∃ stamp, s.stored i = some stamp
  stamps : ∀ i stamp, s.stored i = some stamp →
    stamp.serial < s.updates ∧ stamp.parses ≤ s.parses
  level : ∀ i stamp, s.stored i = some stamp → (rawOf s.ws.ws_data_buf i).taken = true →
    (rawOf s.ws.ws_data_buf i).data_obsolete_level.toNat = min (s.parses - stamp.parses) 10
  origins : ∀ i stamp, s.origin i = some stamp → stamp.serial < s.updates
  passed : ∀ i stamp, s.stored i = some stamp → (rawOf s.ws.ws_data_buf i).PassedOver →
    s.origin i ≠ some stamp

theorem rawOf_wsAppInit (i : ℕ) : rawOf wsAppInit i = zeroBuffer := by
  rw [rawOf, wsAppInit, Vector.toList_replicate, List.getD_eq_getElem?_getD,
    List.getElem?_replicate]
  split <;> rfl

/-- At the start the invariant holds, as there is nothing to tell. -/
theorem inv_wsStart : WsWatch.start.Inv := by
  have hrecord : ∀ i, wsStart.record i = zeroMetaData := by
    intro i
    rw [WsState.record, wsStart, Vector.toList_replicate, List.getD_eq_getElem?_getD,
      List.getElem?_replicate]
    split <;> rfl
  have hid : ∀ i, (rawOf WsWatch.start.ws.ws_data_buf i).loraNodeID = 0 := fun i =>
    congrArg WsDataBuffer.loraNodeID (rawOf_wsAppInit i)
  refine ⟨hid 0, fun i _ => congrArg WsMetaData.included (hrecord i), ?_, ?_, ?_, ?_, ?_⟩
  · exact fun i hne => absurd (hid i) hne
  · exact fun i stamp hnone => nomatch hnone
  · exact fun i stamp hnone => nomatch hnone
  · exact fun i stamp hnone => nomatch hnone
  · exact fun i stamp hnone => nomatch hnone

variable {w : WsWatch} {nodeAddr : UInt16} {buff : List UInt8} {buffLen : UInt8}

/-- What an update stores. -/
def storedBuffer (nodeAddr : UInt16) (buff : List UInt8) (buffLen : UInt8) : WsDataBuffer where
  loraNodeID := nodeAddr.toUInt8
  data_ptr := copy (Vector.replicate _ 0) 0 (buff.take buffLen.toNat)
  data_len := buffLen
  data_obsolete_level := wsDataObsoleteLevelMin

/-- The state after an update that is stored. -/
def WsWatch.afterUpdate (w : WsWatch) (nodeAddr : UInt16) (buff : List UInt8) (buffLen : UInt8) :
    WsWatch :=
  { w with
    ws := { w.ws with ws_data_buf :=
      w.ws.ws_data_buf.setIfInBounds nodeAddr.toNat (storedBuffer nodeAddr buff buffLen) }
    updates := w.updates + 1
    stored := fun i => if i = nodeAddr.toNat then some ⟨w.updates, w.parses⟩ else w.stored i
    parsed := false }

/-- An update is refused, it is stored, or it runs past the buffer of the device. -/
theorem WsCall.step_update (w : WsWatch) (nodeAddr : UInt16) (buff : List UInt8)
    (buffLen : UInt8) : (WsCall.update nodeAddr buff buffLen).step w =
      if wsNumberOfDevice ≤ nodeAddr.toNat then
        some { w with updates := w.updates + 1, parsed := false }
      else if wsMaxDataSize < buffLen.toNat then none
      else some (w.afterUpdate nodeAddr buff buffLen) := by
  rw [WsCall.step, wsUpdateRawData]
  split_ifs
  · simp
  · rfl
  · simp [storedBuffer, WsWatch.afterUpdate]

/-- An update that is refused counts as one, and changes nothing else. -/
theorem WsWatch.Inv.refused (h : w.Inv) :
    WsWatch.Inv { w with updates := w.updates + 1, parsed := false } := by
  refine ⟨h.zero, h.unknown, h.known, fun i stamp hi => ?_, h.level, fun i stamp hi => ?_,
    h.passed⟩
  · exact (h.stamps i stamp hi).imp_left Nat.lt_succ_of_lt
  · exact Nat.lt_succ_of_lt (h.origins i stamp hi)

/-- **What an update does to a device**: it is the one the sample is of, or nothing changes. -/
theorem WsWatch.afterUpdate_at (w : WsWatch) (ha : nodeAddr.toNat < wsNumberOfDevice)
    (buff : List UInt8) (buffLen : UInt8) (i : ℕ) :
    i = nodeAddr.toNat ∧
        rawOf (w.afterUpdate nodeAddr buff buffLen).ws.ws_data_buf i
          = storedBuffer nodeAddr buff buffLen ∧
        (w.afterUpdate nodeAddr buff buffLen).stored i = some ⟨w.updates, w.parses⟩ ∨
      rawOf (w.afterUpdate nodeAddr buff buffLen).ws.ws_data_buf i = rawOf w.ws.ws_data_buf i ∧
        (w.afterUpdate nodeAddr buff buffLen).stored i = w.stored i := by
  have hraw := @rawOf_update w.ws.ws_data_buf _ ha (storedBuffer nodeAddr buff buffLen) i
  by_cases hi : i = nodeAddr.toNat
  · rw [if_pos hi] at hraw
    exact Or.inl ⟨hi, hraw, if_pos hi⟩
  · rw [if_neg hi] at hraw
    exact Or.inr ⟨hraw, if_neg hi⟩

/-- A stored sample is new, and the record of its device comes from an earlier one. -/
theorem WsWatch.Inv.update (h : w.Inv) (ha : nodeAddr.toNat < wsNumberOfDevice)
    (buff : List UInt8) (buffLen : UInt8) : (w.afterUpdate nodeAddr buff buffLen).Inv := by
  have hid : (storedBuffer nodeAddr buff buffLen).loraNodeID = 0 ↔ nodeAddr.toNat = 0 := by
    rw [storedBuffer, ← UInt8.toNat_inj, UInt16.toNat_toUInt8, UInt8.toNat_zero]
    rw [wsNumberOfDevice] at ha
    omega
  have hat := w.afterUpdate_at ha buff buffLen
  refine ⟨?_, fun i => ?_, fun i => ?_, fun i stamp => ?_, fun i stamp => ?_, fun i stamp hi => ?_,
    fun i stamp => ?_⟩
  · rcases hat 0 with ⟨h0, hraw, -⟩ | ⟨hraw, -⟩
    · rw [hraw]
      exact hid.mpr h0.symm
    · rw [hraw]
      exact h.zero
  · rcases hat i with ⟨rfl, hraw, -⟩ | ⟨hraw, -⟩
    · rw [hraw, hid]
      intro h0
      rw [h0]
      exact h.unknown 0 h.zero
    · rw [hraw]
      exact h.unknown i
  · rcases hat i with ⟨-, -, hstored⟩ | ⟨hraw, hstored⟩
    · exact fun _ => ⟨_, hstored⟩
    · rw [hraw, hstored]
      exact h.known i
  · rcases hat i with ⟨-, -, hstored⟩ | ⟨-, hstored⟩
    · rw [hstored]
      rintro ⟨⟩
      exact ⟨Nat.lt_succ_self _, le_rfl⟩
    · rw [hstored]
      exact fun hi => (h.stamps i stamp hi).imp_left Nat.lt_succ_of_lt
  · rcases hat i with ⟨-, hraw, hstored⟩ | ⟨hraw, hstored⟩
    · rw [hraw, hstored]
      rintro ⟨⟩ -
      show _ = min (w.parses - w.parses) 10
      rw [Nat.sub_self, Nat.zero_min]
      rfl
    · rw [hraw, hstored]
      exact h.level i stamp
  · exact Nat.lt_succ_of_lt (h.origins i stamp hi)
  · rcases hat i with ⟨-, -, hstored⟩ | ⟨hraw, hstored⟩
    · rw [hstored]
      rintro ⟨⟩ - horigin
      exact absurd (h.origins i _ horigin) (Nat.lt_irrefl _)
    · rw [hraw, hstored]
      exact h.passed i stamp

/-- The state after a parse. -/
def WsWatch.afterParse (w : WsWatch) : WsWatch :=
  { w with
    ws := (wsParseData w.ws).2
    parses := w.parses + 1
    origin := fun i =>
      if (parseSample (rawOf w.ws.ws_data_buf i).copied).isRecord then w.stored i else w.origin i
    parsed := true }

theorem WsWatch.rawOf_afterParse (w : WsWatch) (i : ℕ) :
    rawOf w.afterParse.ws.ws_data_buf i = (rawOf w.ws.ws_data_buf i).aged :=
  rawOf_wsParseData w.ws i

/-- The record after a parse is the one its sample makes. -/
theorem WsWatch.record_afterParse (w : WsWatch) (i : ℕ) : w.afterParse.ws.record i
    = (parseSample (rawOf w.ws.ws_data_buf i).copied).store (w.ws.record i) :=
  record_wsParseData w.ws i

/-- A record that is made comes from the sample stored last. -/
theorem WsWatch.origin_afterParse (w : WsWatch) (i : ℕ) : w.afterParse.origin i
    = if (parseSample (rawOf w.ws.ws_data_buf i).copied).isRecord then w.stored i
      else w.origin i := rfl

/-- A sample that is passed over stays one. -/
theorem aged_passedOver (buf : WsDataBuffer) : buf.aged.PassedOver ↔ buf.PassedOver := by
  rw [WsDataBuffer.PassedOver, WsDataBuffer.PassedOver, aged_loraNodeID, aged_data_ptr]

theorem loraNodeID_ne_zero (htaken : buf.taken = true) : buf.loraNodeID ≠ 0 :=
  (of_decide_eq_true htaken).1

/-- A sample that is passed over makes nothing. -/
theorem parseSample_of_passedOver (h : buf.PassedOver) : parseSample buf.copied = .passedOver := by
  have hparsed := parsedAs_parseSample buf
  generalize parseSample _ = parsed at hparsed ⊢
  cases hparsed with
  | unknown => rfl
  | passedOver => rfl
  | invalid hpassed => exact absurd h hpassed
  | record m hpassed => exact absurd h hpassed

theorem WsWatch.Inv.parse (h : w.Inv) : w.afterParse.Inv := by
  refine ⟨?_, fun i => ?_, fun i => ?_, fun i stamp hi => ?_, fun i stamp hi => ?_,
    fun i stamp => ?_, fun i stamp hi => ?_⟩
  · rw [w.rawOf_afterParse, aged_loraNodeID]
    exact h.zero
  · rw [w.rawOf_afterParse, aged_loraNodeID, w.record_afterParse]
    intro hid
    have hparsed := parsedAs_parseSample (rawOf w.ws.ws_data_buf i)
    generalize parseSample _ = parsed at hparsed ⊢
    cases hparsed with
    | unknown => exact h.unknown i hid
    | passedOver => exact h.unknown i hid
    | invalid => exact decide_eq_false fun hcon => Bool.false_ne_true hcon.2.2.1
    | record m hpassed htaken => exact absurd hid (loraNodeID_ne_zero htaken)
  · rw [w.rawOf_afterParse, aged_loraNodeID]
    exact h.known i
  · exact (h.stamps i stamp hi).imp_right Nat.le_succ_of_le
  · rw [w.rawOf_afterParse, aged_taken]
    intro htaken
    rw [aged_level htaken (h.level i stamp hi htaken)]
    show _ = min (w.parses + 1 - stamp.parses) 10
    rw [Nat.succ_sub (h.stamps i stamp hi).2]
  · rw [w.origin_afterParse]
    split
    case isTrue => exact fun hi => (h.stamps i stamp hi).1
    case isFalse => exact h.origins i stamp
  · rw [w.rawOf_afterParse, aged_passedOver, w.origin_afterParse]
    intro hpassed
    have hparsed := parsedAs_parseSample (rawOf w.ws.ws_data_buf i)
    generalize parseSample _ = parsed at hparsed ⊢
    cases hparsed with
    | unknown => exact h.passed i stamp hi hpassed
    | passedOver => exact h.passed i stamp hi hpassed
    | invalid hpassed' => exact absurd hpassed hpassed'
    | record m hpassed' => exact absurd hpassed hpassed'

/-- **A parse publishes what is fresh exactly if it passes over no sample whose device is still
published.** -/
theorem WsWatch.Inv.fresh_iff (h : w.Inv) :
    w.afterParse.PublishesFresh ↔ WsCall.parse.Careful w := by
  constructor
  · intro hfresh i hpassed
    have hskip := parseSample_of_passedOver hpassed
    rw [Bool.eq_false_iff]
    intro hincluded
    obtain ⟨stamp, hfrom, hstamp, -⟩ := hfresh rfl i (by rwa [w.record_afterParse, hskip])
    rw [w.origin_afterParse, hskip] at hfrom
    exact h.passed i stamp hstamp hpassed hfrom
  · intro hcareful _ i hincluded
    rw [w.record_afterParse] at hincluded
    rw [w.origin_afterParse]
    have hparsed := parsedAs_parseSample (rawOf w.ws.ws_data_buf i)
    generalize parseSample _ = parsed at hparsed hincluded ⊢
    cases hparsed with
    | unknown hid => exact absurd hincluded (Bool.eq_false_iff.mp (h.unknown i hid))
    | passedOver hpassed => exact absurd hincluded (Bool.eq_false_iff.mp (hcareful i hpassed))
    | invalid => exact absurd (of_decide_eq_true hincluded).2.2.1 Bool.false_ne_true
    | record m hpassed htaken hlevel =>
      obtain ⟨stamp, hstamp⟩ := h.known i (loraNodeID_ne_zero htaken)
      refine ⟨stamp, hstamp, hstamp, ?_⟩
      have hlt := UInt8.lt_iff_toNat_lt.mp (of_decide_eq_true hincluded).2.2.2
      have hle := (h.stamps i stamp hstamp).2
      rw [Parsed.store, hlevel, h.level i stamp hstamp htaken] at hlt
      replace hlt : min (w.parses - stamp.parses) 10 < 10 := hlt
      show w.parses + 1 ≤ stamp.parses + 10
      omega

/-- Between parses nothing is asked of what is published. -/
theorem publishesFresh_of_parsed (h : w.parsed = false) : w.PublishesFresh :=
  fun hparsed => absurd (h.symm.trans hparsed) Bool.false_ne_true

/-- Of the updates, only one that cannot return is not careful. -/
theorem WsCall.not_careful_update
    (h : ¬ (WsCall.update nodeAddr buff buffLen).Careful w) :
    (WsCall.update nodeAddr buff buffLen).step w = none := by
  rw [WsCall.Careful, not_or] at h
  rw [WsCall.step_update, if_neg h.1, if_pos (Nat.lt_of_not_le h.2)]

theorem WsWatch.Inv.step (h : w.Inv) {call : WsCall} (hcareful : call.Careful w) :
    ∃ t, call.step w = some t ∧ t.PublishesFresh ∧ t.Inv := by
  cases call with
  | update nodeAddr buff buffLen =>
    rw [WsCall.step_update]
    split
    case isTrue => exact ⟨_, rfl, publishesFresh_of_parsed rfl, h.refused⟩
    case isFalse ha =>
      rw [if_neg (Nat.not_lt.mpr (hcareful.resolve_left ha))]
      exact ⟨_, rfl, publishesFresh_of_parsed rfl, h.update (Nat.lt_of_not_le ha) _ _⟩
  | parse => exact ⟨w.afterParse, rfl, h.fresh_iff.mpr hcareful, h.parse⟩

/-- **In a run of updates and parses what is published is always fresh, exactly if each update fits
and no parse passes over a sample whose device is still published.** -/
theorem publishesFresh_iff (calls : List WsCall) :
    Runs.Always WsCall.step WsWatch.PublishesFresh .start calls ↔
      Runs.EachStep WsCall.step (fun w call => call.Careful w) .start calls := by
  refine Runs.always_iff_eachStep_of_crash (I := WsWatch.Inv)
    (fun w call hinv _ hcareful => hinv.step hcareful) (fun w call t hinv _ hcareful ht => ?_)
    inv_wsStart (publishesFresh_of_parsed rfl) calls
  cases call with
  | update nodeAddr buff buffLen =>
    rw [WsCall.not_careful_update hcareful] at ht
    exact nomatch ht
  | parse =>
    obtain rfl := Option.some.inj ht
    exact fun hfresh => hcareful (hinv.fresh_iff.mp hfresh)

/-- **A sample that starts wrong** leaves the record of the one before it, and that is published. -/
theorem not_publishesFresh_badSample :
    ¬ Runs.Always WsCall.step WsWatch.PublishesFresh .start
      [.update 1 [0x24, 1, 0, 90, 0, 25, 2, 0, 1, 244, 0, 0, 0, 0] 14, .parse,
        .update 1 [0, 1, 0, 90, 0, 25, 2, 0, 1, 244, 0, 0, 0, 0] 14, .parse] := by
  refine Runs.not_always_of_last
    (fun t => t.parsed = true → (t.ws.record 1).included = true → t.origin 1 = t.stored 1)
    (fun t hfresh hparsed hincluded => ?_) (by decide +kernel)
  obtain ⟨stamp, hfrom, hstamp, -⟩ := hfresh hparsed 1 hincluded
  exact hfrom.trans hstamp.symm

end LoRaGwSv
