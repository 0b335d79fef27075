import LoRaGwSv.Gateway.ThreadUp
import LoRaGwSv.Server.UpstreamDataHandle

/-!
# Server/UplinkHop — which batches of packets get from the gateway to the server

A batch whose packets have been received with LoRa comes through if the datagram is read at once
(`UplinkBatch.arrives`).  One with a packet received with FSK is no JSON (`rxpkArray_fsk`), and
neither is one that is cut off (`rxpkArray_long`): of these nothing is enqueued at all.
-/

namespace LoRaGwSv

open Text

variable {p y : LgwPktRx} {ps ys : List LgwPktRx} {left n : ℕ}

/-- The queue of the server once the gateway has fetched a batch. -/
def uplinkHop (net_mac : Vector UInt8 8) (token_h token_l : UInt8) (sock : ℤ) (proposed : ℕ → ℕ)
    (queue : PktQueue UplinkMsg) (rxpkt : List LgwPktRx) : Option (PktQueue UplinkMsg) :=
  match threadUp net_mac token_h token_l rxpkt with
  | none => some queue
  | some datagram => threadInputstream sock proposed queue datagram

/-- The message carries the packet. -/
structure LgwPktRx.CarriedBy (p : LgwPktRx) (m : UplinkMsg) : Prop where
  size : m.size = p.size
  payload : m.payload.toList.take p.size.toNat = p.payload.toList.take p.size.toNat

/-! ## Packets received with LoRa

The text of such a packet is an object, and the server finds in it what the gateway put there: the
size, the bytes, and the two levels as decimals. -/

/-- The message a packet becomes, after one that has been enqueued before it. -/
def LgwPktRx.toUplinkMsg (p : LgwPktRx) (sock : ℤ) (ulMsg : UplinkMsg) : UplinkMsg where
  size := p.size
  payload := Wire.copy ulMsg.payload 0 p.data
  rssi := valueGetNumber (floatField "rssi" 0 p.rssi).value
  snr := valueGetNumber (floatField "lsnr" 1 p.snr).value
  sock := sock

/-- The server reads out of the text of a packet the packet itself. -/
theorem LgwPktRx.Fetched.parseRxpk (h : p.Fetched) (sock : ℤ) (ulMsg : UplinkMsg) :
    parseRxpk sock ulMsg (rxpkValue p) = some (p.toUplinkMsg sock ulMsg, true) := by
  have hlen := h.length_data
  have hdata : b64ToBin (base64 p.data) 256 = some (some p.data) := by
    have hsize : p.size.toNat ≤ 255 := UInt16.le_iff_toNat_le.mp h.size_le
    exact b64ToBin_encode (by omega)
  set members := (datrField p :: levelFields p).map Field.member with hmembers
  have hvalue : valueGetObject (rxpkValue p) = some members := rfl
  have hrssi : objectGetValue members (ascii "rssi") =
      some (floatField "rssi" 0 p.rssi).value := rfl
  have hlsnr : objectGetValue members (ascii "lsnr") =
      some (floatField "lsnr" 1 p.snr).value := rfl
  have hsize : objectGetValue members (ascii "size") = some (.number p.size.toNat) := rfl
  have hstr : objectGetValue members (ascii "data") = some (.string (base64 p.data)) := rfl
  simp only [LoRaGwSv.parseRxpk, hvalue, hrssi, hlsnr, hsize, hstr, hdata, Option.bind_eq_bind,
    Option.bind_some, valueGetString, Option.map_some, Option.getD_some]
  rw [show toUInt16 (valueGetNumber (.number p.size.toNat)) = p.size from toUInt16_toNat p.size,
    if_pos (congrArg some hlen)]
  rfl

/-- **A packet received with LoRa is enqueued with its bytes.** -/
theorem LgwPktRx.Fetched.enqueues (h : p.Fetched) : Enqueues (rxpkValue p) p.data := by
  intro sock ulMsg
  have hlen := h.length_data
  have hfits : 0 + p.data.length ≤ 256 := by
    have hsize : p.size.toNat ≤ 255 := UInt16.le_iff_toNat_le.mp h.size_le
    omega
  have htake := Wire.take_copy ulMsg.payload hfits
  rw [Nat.zero_add, List.take_zero, List.nil_append] at htake
  exact ⟨p.toUplinkMsg sock ulMsg, h.parseRxpk sock ulMsg, ⟨hlen.symm, htake⟩⟩

/-- The packets received with LoRa are elements of an array. -/
theorem items_rxpk (hys : ∀ p ∈ ys, p.Fetched ∧ p.modulation = modLora)
    (hlen : ys.length ≤ nbPktMax) :
    Items (left + 2) (ys.map fun p => (rxpkText p, rxpkValue p)) where
  denotes := by
    rw [List.forall_mem_map]
    exact fun p hp => (hys p hp).1.denotes (hys p hp).2
  head := by
    rw [List.forall_mem_map]
    exact fun p _ => ⟨_, rfl⟩
  length_le := by
    rw [List.length_map]
    exact hlen.trans (by decide)

theorem plain_rxpk : Plain (ascii "rxpk") := by decide

/-- The array of them is a field of an object. -/
theorem fields_rxpkField (hys : ∀ p ∈ y :: ys, p.Fetched ∧ p.modulation = modLora)
    (hlen : (y :: ys).length ≤ nbPktMax) : Fields (left + 3) [rxpkField y ys] := by
  have hitems : Items (left + 2) ((y :: ys).map fun p => (rxpkText p, rxpkValue p)) :=
    items_rxpk hys hlen
  have harray := Denotes.array hitems
  refine .singleton plain_rxpk ?_
  simpa [rxpkField, Function.comp_def] using harray

theorem rxpkArray_lora (hys : ∀ p ∈ y :: ys, p.Fetched ∧ p.modulation = modLora)
    (hlen : (y :: ys).length ≤ nbPktMax) :
    rxpkArray (objectText (rxpkField y ys) []) = some ((y :: ys).map rxpkValue) := by
  rw [rxpkArray, jsonParse_objectText (fields_rxpkField hys hlen)]
  rfl

/-- **A text that is cut off is not read.** -/
theorem rxpkArray_long (hys : ∀ p ∈ y :: ys, p.Fetched ∧ p.modulation = modLora)
    (hlen : (y :: ys).length ≤ nbPktMax) (hlong : n < (objectText (rxpkField y ys) []).length) :
    rxpkArray ((objectText (rxpkField y ys) []).take n) = none := by
  have hcut := jsonParse_prefix (fields_rxpkField hys hlen) (List.take_append_drop n _).symm
    (List.ne_nil_of_length_pos (by rw [List.length_drop]; omega))
  rw [rxpkArray, hcut]
  rfl

/-! ## Packets received with FSK

The text of such a packet starts with a comma where its fields begin, so no array with it in is
read. -/

/-- **The text of a packet received with FSK is no JSON**, whatever comes behind it. -/
theorem LgwPktRx.Fetched.parseValue_fsk (h : p.Fetched) (hfsk : p.modulation = modFsk)
    (r : List UInt8) : parseValue left (rxpkText p ++ r) = none := by
  rw [(h.composeRxpk_fsk hfsk).2]
  cases left with
  | zero => rfl
  | succ left => rfl

/-- All quotes of the text are closed, of whatever packets it is. -/
theorem quoting_rxpkField (hys : ∀ p ∈ y :: ys, p.Fetched) :
    quoting false (objectText (rxpkField y ys) []) = some false := by
  refine quoting_objectText fun f hf => ?_
  rw [List.mem_singleton.mp hf]
  refine quoting_toText plain_rxpk (quoting_arrayText fun t ht => ?_)
  rw [← List.map_cons] at ht
  obtain ⟨p, hp, rfl⟩ := List.mem_map.mp ht
  exact (hys p hp).quoting_rxpkText

/-- With a packet received with FSK the text is no JSON. -/
theorem jsonParse_fsk (hys : ∀ p ∈ y :: ys, p.Fetched) (hlen : (y :: ys).length ≤ nbPktMax)
    (hp : p ∈ y :: ys) (hfsk : p.modulation = modFsk) :
    jsonParseStringWithComments (objectText (rxpkField y ys) []) = none := by
  -- the packets in front of the first one that has been received with FSK are objects
  obtain ⟨z, hz⟩ : ∃ z, (y :: ys).find? (fun p => p.modulation = modFsk) = some z :=
    Option.isSome_iff_exists.mp (List.find?_isSome.mpr ⟨p, hp, by simpa using hfsk⟩)
  obtain ⟨hzfsk, front, rest, heq, hfront⟩ := List.find?_eq_some_iff_append.mp hz
  have hzs : ∀ p ∈ front, p.Fetched ∧ p.modulation = modLora := by
    intro p hp
    have hfetched := hys p (heq ▸ List.mem_append_left _ hp)
    obtain hfsk | ⟨hlora, -⟩ := hfetched.radio
    · exact absurd hfsk (by simpa using hfront p hp)
    · exact ⟨hfetched, hlora⟩
  have hzfetched := hys z (heq ▸ List.mem_append_right _ List.mem_cons_self)
  have hfrontlen : front.length ≤ nbPktMax := by
    rw [heq, List.length_append] at hlen
    omega
  have htexts : rxpkText y :: ys.map rxpkText =
      (front.map fun p => (rxpkText p, rxpkValue p)).map Prod.fst ++
        rxpkText z :: rest.map rxpkText := by
    rw [← List.map_cons, heq, List.map_append, List.map_map]
    rfl
  have hitems : Items 18 (front.map fun p => (rxpkText p, rxpkValue p)) :=
    items_rxpk hzs hfrontlen
  have harray := parseValue_array_none hitems htexts
    (hzfetched.parseValue_fsk (by simpa using hzfsk))
  have hobject : objectText (rxpkField y ys) [] = 123 :: (quoted (ascii "rxpk") ++
      58 :: (arrayText (rxpkText y) (ys.map rxpkText) ++ [125])) := by
    rw [objectText, Field.toText, List.append_assoc]
    rfl
  refine jsonParse_eq_none (withoutComments_eq (quoting_rxpkField hys)) rfl ?_
  rw [hobject]
  exact parseValue_first_none plain_rxpk (harray [125])

/-- **Of a batch with a packet received with FSK nothing is read**, wherever it is cut off. -/
theorem rxpkArray_fsk (hys : ∀ p ∈ y :: ys, p.Fetched) (hlen : (y :: ys).length ≤ nbPktMax)
    (hp : p ∈ y :: ys) (hfsk : p.modulation = modFsk) (n : ℕ) :
    rxpkArray ((objectText (rxpkField y ys) []).take n) = none := by
  have hwhole := jsonParse_fsk hys hlen hp hfsk
  have happend := List.take_append_drop n (objectText (rxpkField y ys) [])
  have hcut : jsonParseStringWithComments ((objectText (rxpkField y ys) []).take n) = none := by
    by_contra hsome
    obtain ⟨v, hv⟩ := Option.ne_none_iff_exists'.mp hsome
    obtain ⟨k, hk⟩ := quoting_prefix (happend.symm ▸ quoting_rxpkField hys)
    rw [← happend, jsonParse_append hk hv] at hwhole
    cases hwhole
  rw [rxpkArray, hcut]
  rfl

/-! ## The batches that come through -/

variable {net_mac : Vector UInt8 8} {token_h token_l : UInt8} {sock : ℤ} {proposed : ℕ → ℕ}
  {queue : PktQueue UplinkMsg}

/-- For each packet whose CRC is right one message is enqueued, in order, and there is none else. -/
def Arrives (net_mac : Vector UInt8 8) (token_h token_l : UInt8) (sock : ℤ) (proposed : ℕ → ℕ)
    (queue : PktQueue UplinkMsg) (rxpkt : List LgwPktRx) : Prop :=
  ∃ queue' cells, uplinkHop net_mac token_h token_l sock proposed queue rxpkt = some queue' ∧
    queue'.Holds cells ∧
      List.Forall₂ LgwPktRx.CarriedBy (rxpkt.filter LgwPktRx.ok) (cells.map Prod.snd)

/-- A datagram is handled by what its text has in the first 499 characters. -/
theorem threadInputstream_uplink (s : List UInt8) : threadInputstream sock proposed queue
    ([protocolVersion, token_h, token_l, pktUplinkData] ++ net_mac.toList ++ s) =
      enqueueRxpk sock proposed queue (rxpkArray (s.take 499)) := by
  set header := [protocolVersion, token_h, token_l, pktUplinkData] ++ net_mac.toList with hheader
  have hlen : header.length = 12 := by
    rw [hheader, List.length_append, Vector.length_toList]
    rfl
  have hbuff : (header ++ s).take 511 = header ++ s.take 499 := by
    rw [List.take_append, List.take_of_length_le (by omega), hlen]
  have htype : (header ++ s.take 499)[3]? = some pktUplinkData := rfl
  have hvalid : ¬((header ++ s.take 499).length < 12 ∨
      (header ++ s.take 499)[0]? ≠ some protocolVersion ∨
        (header ++ s.take 499)[3]? ≠ some pktTimesyncReq ∧
          (header ++ s.take 499)[3]? ≠ some pktUplinkData) := by
    rintro (hshort | hversion | ⟨-, hother⟩)
    · rw [List.length_append] at hshort
      omega
    · exact hversion rfl
    · exact hother htype
  have htimesync : (header ++ s.take 499)[3]? ≠ some pktTimesyncReq := by
    rw [htype]
    decide
  rw [threadInputstream, hbuff, upstreamDataHandle, if_neg hvalid, if_neg htimesync,
    List.drop_left' hlen]

/-- A batch that has been fetched, of which the packets `y :: ys` have a right CRC. -/
structure UplinkBatch (ps : List LgwPktRx) (y : LgwPktRx) (ys : List LgwPktRx) : Prop where
  fetched : ∀ p ∈ ps, p.Fetched
  length_le : ps.length ≤ nbPktMax
  ok : ps.filter LgwPktRx.ok = y :: ys

/-- All packets of a batch have been fetched. -/
theorem UplinkBatch.fetched_ok (h : UplinkBatch ps y ys) : ∀ p ∈ y :: ys, p.Fetched :=
  fun p hp => h.fetched p (List.mem_of_mem_filter (h.ok ▸ hp))

theorem UplinkBatch.length_ok (h : UplinkBatch ps y ys) : (y :: ys).length ≤ nbPktMax := by
  rw [← h.ok]
  exact (List.length_filter_le _ _).trans h.length_le

/-- What the server makes of a batch depends on what it reads of the text. -/
theorem UplinkBatch.uplinkHop (h : UplinkBatch ps y ys) :
    uplinkHop net_mac token_h token_l sock proposed queue ps =
      enqueueRxpk sock proposed queue
        (rxpkArray ((objectText (rxpkField y ys) []).take 499)) := by
  rw [LoRaGwSv.uplinkHop, threadUp_eq h.fetched h.ok]
  exact threadInputstream_uplink _

/-- A batch does not come through if no array is read. -/
theorem UplinkBatch.not_arrives (h : UplinkBatch ps y ys) (hqueue : queue.Holds [])
    (hnone : rxpkArray ((objectText (rxpkField y ys) []).take 499) = none) :
    ¬Arrives net_mac token_h token_l sock proposed queue ps := by
  rintro ⟨queue', cells, hqueue', hholds, hall⟩
  rw [h.uplinkHop, hnone] at hqueue'
  obtain rfl := Option.some.inj hqueue'
  have hlen := hall.length_eq
  rw [h.ok, List.length_map, List.length_cons, ← hholds.size_eq, hqueue.size_eq] at hlen
  cases hlen

/-- **A batch received with LoRa comes through if its datagram is read at once.** -/
theorem UplinkBatch.arrives (h : UplinkBatch ps y ys) (hqueue : queue.Holds [])
    (hlora : ∀ p ∈ y :: ys, p.modulation = modLora)
    (hsize : 22 + ((y :: ys).map rxpkSize).sum ≤ 511) :
    Arrives net_mac token_h token_l sock proposed queue ps := by
  have hys : ∀ p ∈ y :: ys, p.Fetched ∧ p.modulation = modLora := fun p hp =>
    ⟨h.fetched_ok p hp, hlora p hp⟩
  have htext := length_objectText_rxpk hys
  have henqueues :
      List.Forall₂ Enqueues ((y :: ys).map rxpkValue) ((y :: ys).map LgwPktRx.data) := by
    rw [List.forall₂_map_left_iff, List.forall₂_map_right_iff, List.forall₂_same]
    exact fun p hp => (hys p hp).1.enqueues
  have hroom : 0 + ((y :: ys).map LgwPktRx.data).length ≤ pktQueueMax := by
    rw [List.length_map, Nat.zero_add]
    exact h.length_ok.trans (by decide)
  obtain ⟨queue', cells, hloop, hholds, hall⟩ := upstreamLoop_eq henqueues hqueue hroom sock
    proposed 0 zeroUplinkMsg
  refine ⟨queue', cells, ?_, by simpa using hholds, ?_⟩
  · rw [h.uplinkHop, List.take_of_length_le (by omega), rxpkArray_lora hys h.length_ok]
    exact hloop
  · rw [List.forall₂_map_left_iff] at hall
    rw [h.ok]
    refine ((List.forall₂_and_left _ _).mpr ⟨hys, hall⟩).imp ?_
    rintro p m ⟨⟨hp, -⟩, hmsize, hpayload⟩
    rw [hp.length_data] at hmsize hpayload
    exact ⟨UInt16.toNat_inj.mp hmsize, hpayload⟩

/-- What comes through has been received with LoRa, and its datagram has been read at once. -/
theorem UplinkBatch.of_arrives (h : UplinkBatch ps y ys) (hqueue : queue.Holds [])
    (harrives : Arrives net_mac token_h token_l sock proposed queue ps) :
    (∀ p ∈ y :: ys, p.modulation = modLora) ∧ 22 + ((y :: ys).map rxpkSize).sum ≤ 511 := by
  have hys : ∀ p ∈ y :: ys, p.Fetched ∧ p.modulation = modLora := by
    intro p hp
    refine ⟨h.fetched_ok p hp, ?_⟩
    obtain hfsk | ⟨hlora, -⟩ := (h.fetched_ok p hp).radio
    · have hnone := rxpkArray_fsk h.fetched_ok h.length_ok hp hfsk 499
      exact absurd harrives (h.not_arrives hqueue hnone)
    · exact hlora
  refine ⟨fun p hp => (hys p hp).2, ?_⟩
  have htext := length_objectText_rxpk hys
  by_contra hlong
  have hnone := rxpkArray_long hys h.length_ok (n := 499) (by omega)
  exact absurd harrives (h.not_arrives hqueue hnone)

/-- **A batch comes through exactly if all packets whose CRC is right have been received with LoRa
and their datagram has at most 511 bytes.** -/
theorem uplinkHop_iff (hps : ∀ p ∈ ps, p.Fetched) (hlen : ps.length ≤ nbPktMax)
    (hqueue : queue.Holds []) (net_mac : Vector UInt8 8) (token_h token_l : UInt8) (sock : ℤ)
    (proposed : ℕ → ℕ) : Arrives net_mac token_h token_l sock proposed queue ps ↔
      (∀ p ∈ ps, p.ok → p.modulation = modLora) ∧
        22 + ((ps.filter LgwPktRx.ok).map rxpkSize).sum ≤ 511 := by
  have hall : (∀ p ∈ ps, p.ok → p.modulation = modLora) ↔
      ∀ p ∈ ps.filter LgwPktRx.ok, p.modulation = modLora := by
    simp only [List.mem_filter, and_imp]
  rw [hall]
  cases hok : ps.filter LgwPktRx.ok with
  | nil =>
    refine iff_of_true ⟨queue, [], ?_, hqueue, hok ▸ .nil⟩ ⟨by simp, by decide⟩
    rw [uplinkHop, threadUp_eq_none hps hok]
  | cons y ys =>
    have hbatch : UplinkBatch ps y ys := ⟨hps, hlen, hok⟩
    exact ⟨hbatch.of_arrives hqueue, fun ⟨hlora, hsize⟩ => hbatch.arrives hqueue hlora hsize⟩

/-- A packet of three bytes, received at -57 dBm. -/
def receivedLora : LgwPktRx where
  status := statCrcOk
  modulation := modLora
  bandwidth := bw125Khz
  datarate := drLoraSf7
  rssi := ⟨true, 57⟩
  snr := ⟨false, 37 / 4⟩
  size := 3
  payload := Wire.copy (Vector.replicate 256 0) 0 [1, 2, 3]

/-- The same bytes, received with FSK at 50 kbit/s. -/
def receivedFsk : LgwPktRx := { receivedLora with modulation := modFsk, datarate := 50000 }

/-- A gateway can fetch the packet above. -/
theorem fetched_receivedLora : receivedLora.Fetched where
  size_le := by decide
  radio := Or.inr ⟨rfl, by decide, by decide⟩

theorem fetched_receivedFsk : receivedFsk.Fetched where
  size_le := by decide
  radio := Or.inl rfl

/-- The same bytes, received with an error. -/
def receivedBad : LgwPktRx := { receivedLora with status := 0x11, modulation := modFsk }

/-- Another packet, of four bytes. -/
def receivedFour : LgwPktRx :=
  { receivedLora with size := 4, payload := Wire.copy (Vector.replicate 256 0) 0 [4, 5, 6, 7] }

/-- A packet that is skipped between two that come through. -/
theorem uplinkHop_iff_receivedLora : Arrives (Vector.replicate 8 0) 7 9 4 (fun i => i)
    (pktQueueInit Heap.empty) [receivedLora, receivedBad, receivedFour] := by
  have hfetched : ∀ p ∈ [receivedLora, receivedBad, receivedFour], p.Fetched := by
    simp only [List.forall_mem_cons]
    exact ⟨fetched_receivedLora, ⟨by decide, Or.inl rfl⟩, ⟨by decide, fetched_receivedLora.radio⟩,
      by simp⟩
  exact (uplinkHop_iff hfetched (by decide) (holds_pktQueueInit Heap.empty)
    (Vector.replicate 8 0) 7 9 4 fun i => i).mpr ⟨by decide, by decide +kernel⟩

/-- Received with FSK the same packet does not come through. -/
theorem not_arrives_receivedFsk : receivedFsk.Fetched ∧ receivedFsk.ok ∧
    ¬Arrives (Vector.replicate 8 0) 7 9 4 (fun i => i) (pktQueueInit Heap.empty) [receivedFsk] := by
  have hbatch : UplinkBatch [receivedFsk] receivedFsk [] :=
    ⟨by simp [fetched_receivedFsk], by decide, rfl⟩
  have hnone := rxpkArray_fsk hbatch.fetched_ok hbatch.length_ok List.mem_cons_self rfl 499
  exact ⟨fetched_receivedFsk, rfl, hbatch.not_arrives (holds_pktQueueInit Heap.empty) hnone⟩

end LoRaGwSv
