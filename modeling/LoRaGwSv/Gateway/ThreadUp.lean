import LoRaGwSv.Server.ThreadDownstream

/-!
# Gateway/ThreadUp — how a batch of packets becomes a datagram (`thread_up`)

The datagram is a header of twelve bytes and one JSON object with an array of packets
(`threadUp_eq`).  Packets whose CRC is not right are left out, and one that cannot be written is
taken back.  What is fetched has finite levels.  The text of a packet received with LoRa denotes an
object (`LgwPktRx.Fetched.denotes`); that of one received with FSK begins with a comma.
-/

namespace LoRaGwSv

open Text

/-- A packet that has been received (`struct lgw_pkt_rx_s`), as far as it is sent on. -/
structure LgwPktRx where
  status : UInt8
  modulation : UInt8
  bandwidth : UInt8
  datarate : UInt32
  rssi : Text.Float
  snr : Text.Float
  size : UInt16
  payload : Vector UInt8 256
deriving DecidableEq

/-- `STAT_CRC_OK`. -/
def statCrcOk : UInt8 := 0x10

/-- `NB_PKT_MAX`. -/
def nbPktMax : ℕ := 8

/-- The fields that depend on the modulation. -/
def composeRxModulation (p : LgwPktRx) : Option (List UInt8) :=
  if p.modulation = modLora then do
    return ascii "\"datr\":\"" ++ (← spreadingFactor p.datarate) ++ (← bandwidthText p.bandwidth) ++
      ascii "\"" ++ ascii ",\"lsnr\":" ++ fixedFloat 1 p.snr
  else if p.modulation = modFsk then
    some (ascii ",\"modu\":\"FSK\"" ++ ascii ",\"datr\":" ++ decimal p.datarate.toNat)
  else none

/-- What is written of a packet behind its brace; `none` if it is taken back. -/
def composeRxpk (p : LgwPktRx) : Option (List UInt8) := do
  return (← composeRxModulation p) ++
    ascii ",\"rssi\":" ++ fixedFloat 0 p.rssi ++ ascii ",\"size\":" ++ decimal p.size.toNat ++
    ascii ",\"data\":\"" ++ (← binToB64 (p.payload.toList.take p.size.toNat) 341) ++
    ascii "\"" ++ ascii "\x7d"

/-- One round of the loop: the text so far, and `pkt_in_dgram`. -/
def threadUpStep (st : List UInt8 × ℕ) (p : LgwPktRx) : List UInt8 × ℕ :=
  if p.status ≠ statCrcOk then st
  else
    match composeRxpk p with
    | none => st
    | some text =>
      (st.1 ++ (if st.2 = 0 then ascii "\x7b" else ascii ",\x7b") ++ text, st.2 + 1)

/-- The datagram for what has been fetched; `none` if all packets have been filtered out. -/
def threadUp (net_mac : Vector UInt8 8) (token_h token_l : UInt8) (rxpkt : List LgwPktRx) :
    Option (List UInt8) :=
  let st := rxpkt.foldl threadUpStep ([], 0)
  if st.2 = 0 then none
  else some ([protocolVersion, token_h, token_l, pktUplinkData] ++ net_mac.toList ++
    ascii "\x7b\"rxpk\":[" ++ st.1 ++ ascii "]" ++ ascii "\x7d")

/-! ## The text of a batch

A comma is written before each packet but the first; a packet with a wrong CRC is passed over before
it is counted. -/

/-- The packets that `lgw_receive` fetches. -/
structure LgwPktRx.Fetched (p : LgwPktRx) : Prop where
  size_le : p.size ≤ 255
  radio : p.modulation = modFsk ∨ p.modulation = modLora ∧
    p.datarate ∈ [drLoraSf7, drLoraSf8, drLoraSf9, drLoraSf10, drLoraSf11, drLoraSf12] ∧
    p.bandwidth ∈ [bw125Khz, bw250Khz, bw500Khz]

variable {p : LgwPktRx} {ps : List LgwPktRx} {sf bw : List UInt8} {left n : ℕ}

/-- The bytes that have been received. -/
def LgwPktRx.data (p : LgwPktRx) : List UInt8 := p.payload.toList.take p.size.toNat

/-- A packet is written if its CRC is right. -/
def LgwPktRx.ok (p : LgwPktRx) : Bool := p.status = statCrcOk

/-- The text of a packet with its brace. -/
def rxpkText (p : LgwPktRx) : List UInt8 := 123 :: (composeRxpk p).getD []

/-- **The loop writes the packets whose CRC is right**, each behind a comma. -/
theorem foldl_threadUpStep {text : List UInt8} (hps : ∀ p ∈ ps, (composeRxpk p).isSome)
    (hn : n ≠ 0) : ps.foldl threadUpStep (text, n) =
      (text ++ moreText rxpkText (ps.filter LgwPktRx.ok), n + (ps.filter LgwPktRx.ok).length) := by
  induction ps generalizing text n with
  | nil => simp [moreText]
  | cons p ps ih =>
    have hrest : ∀ p ∈ ps, (composeRxpk p).isSome := fun p hp => hps p (List.mem_cons_of_mem _ hp)
    rw [List.foldl_cons, threadUpStep]
    by_cases hok : p.status = statCrcOk
    · obtain ⟨t, ht⟩ := Option.isSome_iff_exists.mp (hps p List.mem_cons_self)
      rw [if_neg (not_not_intro hok), ht]
      dsimp only
      rw [if_neg hn, ih hrest n.succ_ne_zero, List.filter_cons_of_pos (by simp [LgwPktRx.ok, hok])]
      have hmore : moreText rxpkText (p :: ps.filter LgwPktRx.ok) =
          44 :: 123 :: t ++ moreText rxpkText (ps.filter LgwPktRx.ok) := by
        rw [moreText, List.flatMap_cons, rxpkText, ht]
        rfl
      rw [hmore, List.length_cons, Prod.mk.injEq, List.append_assoc, List.append_assoc]
      exact ⟨rfl, by omega⟩
    · rw [if_pos hok, ih hrest hn, List.filter_cons_of_neg (by simp [LgwPktRx.ok, hok])]

/-- **The packets whose CRC is right are written, with commas in between.** -/
theorem foldl_threadUpStep_nil (hps : ∀ p ∈ ps, (composeRxpk p).isSome) :
    ps.foldl threadUpStep ([], 0) = match ps.filter LgwPktRx.ok with
      | [] => ([], 0)
      | y :: ys => (rxpkText y ++ moreText rxpkText ys, ys.length + 1) := by
  induction ps with
  | nil => rfl
  | cons p ps ih =>
    have hrest : ∀ p ∈ ps, (composeRxpk p).isSome := fun p hp => hps p (List.mem_cons_of_mem _ hp)
    rw [List.foldl_cons, threadUpStep]
    by_cases hok : p.status = statCrcOk
    · obtain ⟨t, ht⟩ := Option.isSome_iff_exists.mp (hps p List.mem_cons_self)
      rw [if_neg (not_not_intro hok), ht]
      dsimp only
      rw [if_pos rfl, foldl_threadUpStep hrest (Nat.succ_ne_zero 0),
        List.filter_cons_of_pos (by simp [LgwPktRx.ok, hok])]
      dsimp only
      rw [rxpkText, ht, Prod.mk.injEq]
      exact ⟨rfl, Nat.add_comm _ _⟩
    · rw [if_pos hok, ih hrest, List.filter_cons_of_neg (by simp [LgwPktRx.ok, hok])]

/-! ## The text of a packet -/

/-- The text of the field `datr`. -/
def datrText (p : LgwPktRx) : List UInt8 :=
  (spreadingFactor p.datarate).getD [] ++ (bandwidthText p.bandwidth).getD []

/-- A field with a float, and the number that is printed. -/
def floatField (name : String) (k : ℕ) (x : Text.Float) : Field :=
  ⟨ascii name, fixedFloat k x, .number (if x.negative then
    -((roundHalfEven (x.magnitude * 10 ^ k) : ℚ) / 10 ^ k)
  else roundHalfEven (x.magnitude * 10 ^ k) / 10 ^ k)⟩

/-- The field of the data rate. -/
def datrField (p : LgwPktRx) : Field := stringField "datr" (datrText p)

/-- The fields behind the datarate. -/
def levelFields (p : LgwPktRx) : List Field :=
  [floatField "lsnr" 1 p.snr, floatField "rssi" 0 p.rssi, numberField "size" p.size.toNat,
    stringField "data" (base64 p.data)]

/-- The fields of a packet received with FSK, behind its modulation. -/
def fskFields (p : LgwPktRx) : List Field :=
  [numberField "datr" p.datarate.toNat, floatField "rssi" 0 p.rssi, numberField "size" p.size.toNat,
    stringField "data" (base64 p.data)]

/-- What the text of a packet received with LoRa denotes. -/
def rxpkValue (p : LgwPktRx) : Json := .object ((datrField p :: levelFields p).map Field.member)

/-- The number of characters that a packet received with LoRa takes up. -/
def rxpkSize (p : LgwPktRx) : ℕ :=
  53 + (if p.datarate ∈ [drLoraSf10, drLoraSf11, drLoraSf12] then 2 else 1) +
    (fixedFloat 1 p.snr).length + (fixedFloat 0 p.rssi).length + (decimal p.size.toNat).length +
    4 * ((p.size.toNat + 2) / 3)

/-- A packet has as many bytes as it says. -/
theorem LgwPktRx.Fetched.length_data (h : p.Fetched) : p.data.length = p.size.toNat := by
  have hsize : p.size.toNat ≤ 255 := UInt16.le_iff_toNat_le.mp h.size_le
  rw [LgwPktRx.data, List.length_take, Vector.length_toList]
  omega

/-- There is room for the text of its bytes. -/
theorem LgwPktRx.Fetched.binToB64 (h : p.Fetched) :
    binToB64 (p.payload.toList.take p.size.toNat) 341 = some (base64 p.data) := by
  have hsize : p.size.toNat ≤ 255 := UInt16.le_iff_toNat_le.mp h.size_le
  have hlen := h.length_data
  exact binToB64_eq (s := p.data) (by omega)

/-- The texts for datarate and bandwidth, and their lengths. -/
theorem LgwPktRx.Fetched.texts (h : p.Fetched) (hlora : p.modulation = modLora) :
    ∃ sf bw, spreadingFactor p.datarate = some sf ∧ bandwidthText p.bandwidth = some bw ∧
      bw.length = 5 ∧
      sf.length = 2 + if p.datarate ∈ [drLoraSf10, drLoraSf11, drLoraSf12] then 2 else 1 := by
  have hsf : ∀ d ∈ [drLoraSf7, drLoraSf8, drLoraSf9, drLoraSf10, drLoraSf11, drLoraSf12],
      ∃ sf, spreadingFactor d = some sf ∧
        sf.length = 2 + if d ∈ [drLoraSf10, drLoraSf11, drLoraSf12] then 2 else 1 := by
    simp only [List.forall_mem_cons]
    exact ⟨⟨_, rfl, rfl⟩, ⟨_, rfl, rfl⟩, ⟨_, rfl, rfl⟩, ⟨_, rfl, rfl⟩, ⟨_, rfl, rfl⟩, ⟨_, rfl, rfl⟩,
      fun _ hd => by cases hd⟩
  have hbw : ∀ b ∈ [bw125Khz, bw250Khz, bw500Khz],
      ∃ bw, bandwidthText b = some bw ∧ bw.length = 5 := by
    simp only [List.forall_mem_cons]
    exact ⟨⟨_, rfl, rfl⟩, ⟨_, rfl, rfl⟩, ⟨_, rfl, rfl⟩, fun _ hb => by cases hb⟩
  obtain hfsk | ⟨-, hdatarate, hbandwidth⟩ := h.radio
  · exact absurd (hlora.symm.trans hfsk) (by decide)
  · obtain ⟨sf, hsf, hsflen⟩ := hsf _ hdatarate
    obtain ⟨bw, hbw, hbwlen⟩ := hbw _ hbandwidth
    exact ⟨sf, bw, hsf, hbw, hbwlen, hsflen⟩

/-- **A packet received with LoRa is written as an object.** -/
theorem LgwPktRx.Fetched.composeRxpk_lora (h : p.Fetched) (hlora : p.modulation = modLora) :
    (composeRxpk p).isSome ∧ rxpkText p = objectText (datrField p) (levelFields p) := by
  obtain ⟨sf, bw, hsf, hbw, -⟩ := h.texts hlora
  have hcompose : composeRxpk p = some ((datrField p).toText ++
      (moreText Field.toText (levelFields p) ++ [125])) := by
    rw [composeRxpk, composeRxModulation, if_pos hlora, hsf, hbw, h.binToB64]
    simp only [Option.bind_eq_bind, Option.bind_some, Option.pure_def, Option.some.injEq, datrField,
      datrText, levelFields, hsf, hbw, Option.getD_some, moreText, Field.toText, floatField,
      numberField, stringField, quoted, List.flatMap_cons, List.flatMap_nil, List.append_assoc,
      List.cons_append, List.nil_append]
    rfl
  rw [rxpkText, hcompose]
  exact ⟨rfl, rfl⟩

/-- **A packet received with FSK is written with a comma in front.** -/
theorem LgwPktRx.Fetched.composeRxpk_fsk (h : p.Fetched) (hfsk : p.modulation = modFsk) :
    (composeRxpk p).isSome ∧ rxpkText p = (123 :: 44 :: quoted (ascii "modu") ++
      58 :: quoted (ascii "FSK")) ++ (moreText Field.toText (fskFields p) ++ [125]) := by
  have hcompose : composeRxpk p = some ((44 :: quoted (ascii "modu") ++
      58 :: quoted (ascii "FSK")) ++ (moreText Field.toText (fskFields p) ++ [125])) := by
    rw [composeRxpk, composeRxModulation, if_neg (by rw [hfsk]; decide), if_pos hfsk, h.binToB64]
    simp only [Option.bind_eq_bind, Option.bind_some, Option.pure_def, Option.some.injEq, fskFields,
      moreText, Field.toText, floatField, numberField, stringField, quoted, List.flatMap_cons,
      List.flatMap_nil, List.append_assoc, List.cons_append, List.nil_append]
    rfl
  rw [rxpkText, hcompose]
  exact ⟨rfl, rfl⟩

theorem LgwPktRx.Fetched.isSome_composeRxpk (h : p.Fetched) : (composeRxpk p).isSome := by
  obtain hfsk | ⟨hlora, -⟩ := h.radio
  · exact (h.composeRxpk_fsk hfsk).1
  · exact (h.composeRxpk_lora hlora).1

/-- The text of a data rate has nothing to escape. -/
theorem plain_datrText (p : LgwPktRx) : Plain (datrText p) := by
  have hplain {o : Option (List UInt8)} (h : ∀ s, o = some s → Plain s) : Plain (o.getD []) := by
    cases o with
    | none => exact fun _ hc => absurd hc List.not_mem_nil
    | some s => exact h s rfl
  intro c hc
  obtain hc | hc := List.mem_append.mp hc
  · exact hplain (fun _ hsf => (plain_spreadingFactor hsf).1) c hc
  · exact hplain (fun _ hbw => (plain_bandwidthText hbw).1) c hc

/-- A float that is printed is read back. -/
theorem denotes_floatField (name : String) (k : ℕ) (x : Text.Float) :
    Denotes (left + 1) (floatField name k x).text (floatField name k x).value :=
  .number x.negative k _

/-- The fields of a LoRa packet are those of an object. -/
theorem fields_rxpk (p : LgwPktRx) : Fields (left + 1) (datrField p :: levelFields p) where
  plain := by
    simp only [levelFields, List.forall_mem_cons]
    refine ⟨?_, ?_, ?_, ?_, ?_, fun _ hf => by cases hf⟩ <;> (change Plain (ascii _); decide)
  denotes := by
    simp only [levelFields, List.forall_mem_cons]
    exact ⟨.string (plain_datrText p), denotes_floatField _ _ _, denotes_floatField _ _ _,
      .decimal _, .string fun _ => printable_base64, fun _ hf => by cases hf⟩
  nodup := by
    change [ascii "datr", ascii "lsnr", ascii "rssi", ascii "size", ascii "data"].Nodup
    decide
  length_le := by
    change 5 ≤ objectMaxCapacity
    decide

/-- **The text of a packet received with LoRa denotes an object.** -/
theorem LgwPktRx.Fetched.denotes (h : p.Fetched) (hlora : p.modulation = modLora) :
    Denotes (left + 2) (rxpkText p) (rxpkValue p) := by
  rw [(h.composeRxpk_lora hlora).2]
  exact .object (fields_rxpk p)

theorem LgwPktRx.Fetched.length_rxpkText (h : p.Fetched) (hlora : p.modulation = modLora) :
    (rxpkText p).length + 1 = rxpkSize p := by
  obtain ⟨sf, bw, hsf, hbw, hbwlen, hsflen⟩ := h.texts hlora
  have hdata := length_base64 p.data
  rw [h.length_data] at hdata
  have hname : ∀ name ∈ ["datr", "lsnr", "rssi", "size", "data"], (ascii name).length = 4 := by
    decide
  simp only [List.forall_mem_cons] at hname
  obtain ⟨hdatr, hlsnr, hrssi, hsize, hname, -⟩ := hname
  rw [(h.composeRxpk_lora hlora).2, rxpkSize]
  simp only [objectText, datrField, datrText, levelFields, hsf, hbw, Option.getD_some, moreText,
    Field.toText, floatField, numberField, stringField, quoted, List.flatMap_cons,
    List.flatMap_nil, List.length_append, List.length_cons, List.length_nil, hbwlen, hsflen, hdata,
    hdatr, hlsnr, hrssi, hsize, hname]
  omega

theorem fields_fsk (p : LgwPktRx) : Fields (left + 1) (fskFields p) where
  plain := by
    simp only [fskFields, List.forall_mem_cons]
    refine ⟨?_, ?_, ?_, ?_, fun _ hf => by cases hf⟩ <;> (change Plain (ascii _); decide)
  denotes := by
    simp only [fskFields, List.forall_mem_cons]
    exact ⟨.decimal _, denotes_floatField _ _ _, .decimal _, .string fun _ => printable_base64,
      fun _ hf => by cases hf⟩
  nodup := by
    change [ascii "datr", ascii "rssi", ascii "size", ascii "data"].Nodup
    decide
  length_le := by
    change 4 ≤ objectMaxCapacity
    decide

theorem LgwPktRx.Fetched.quoting_rxpkText (h : p.Fetched) :
    quoting false (rxpkText p) = some false := by
  obtain hfsk | ⟨hlora, -⟩ := h.radio
  · have hmodu : quoting false (123 :: 44 :: quoted (ascii "modu") ++
        58 :: quoted (ascii "FSK")) = some false := rfl
    have hfields : Fields 1 (fskFields p) := fields_fsk p
    rw [(h.composeRxpk_fsk hfsk).2, quoting_append_of_eq hmodu, quoting_append_of_eq
      (quoting_moreText fun f hf => hfields.quoting_toText hf)]
    rfl
  · have hdenotes : Denotes 2 (rxpkText p) (rxpkValue p) := h.denotes hlora
    exact hdenotes.quoting

/-! ## The datagram

Together the texts make an array, the only field of an object. -/

variable {net_mac : Vector UInt8 8} {token_h token_l : UInt8} {y : LgwPktRx} {ys : List LgwPktRx}

/-- The only field of the whole text. -/
def rxpkField (y : LgwPktRx) (ys : List LgwPktRx) : Field :=
  ⟨ascii "rxpk", arrayText (rxpkText y) (ys.map rxpkText), .array ((y :: ys).map rxpkValue)⟩

/-- **The datagram is a header and an object with an array**, if any CRC is right. -/
theorem threadUp_eq (hps : ∀ p ∈ ps, p.Fetched) (hok : ps.filter LgwPktRx.ok = y :: ys) :
    threadUp net_mac token_h token_l ps = some
      ([protocolVersion, token_h, token_l, pktUplinkData] ++ net_mac.toList ++
        objectText (rxpkField y ys) []) := by
  have hmore : moreText id (ys.map rxpkText) = moreText rxpkText ys := by
    rw [moreText, List.flatMap_map]
    rfl
  rw [threadUp, foldl_threadUpStep_nil fun p hp => (hps p hp).isSome_composeRxpk, hok]
  dsimp only
  rw [if_neg ys.length.succ_ne_zero, objectText, Field.toText, rxpkField, arrayText, hmore]
  simp only [quoted, moreText, List.flatMap_nil, List.append_assoc, List.cons_append,
    List.nil_append]
  rfl

/-- Without a packet whose CRC is right nothing is sent. -/
theorem threadUp_eq_none (hps : ∀ p ∈ ps, p.Fetched) (hok : ps.filter LgwPktRx.ok = []) :
    threadUp net_mac token_h token_l ps = none := by
  rw [threadUp, foldl_threadUpStep_nil fun p hp => (hps p hp).isSome_composeRxpk, hok]
  rfl

/-- The length of the datagram, in terms of its packets. -/
theorem length_objectText_rxpk (hys : ∀ p ∈ y :: ys, p.Fetched ∧ p.modulation = modLora) :
    12 + (objectText (rxpkField y ys) []).length = 22 + ((y :: ys).map rxpkSize).sum := by
  have hsum (zs : List LgwPktRx) (hzs : ∀ p ∈ zs, p.Fetched ∧ p.modulation = modLora) :
      (moreText id (zs.map rxpkText)).length = (zs.map rxpkSize).sum := by
    induction zs with
    | nil => rfl
    | cons z zs ih =>
      obtain ⟨hz, hlora⟩ := hzs z List.mem_cons_self
      have hlen := hz.length_rxpkText hlora
      have hrest := ih fun p hp => hzs p (List.mem_cons_of_mem _ hp)
      simp only [moreText, List.map_cons, List.flatMap_cons, List.length_append, List.length_cons,
        List.sum_cons, id] at hrest ⊢
      omega
  obtain ⟨hy, hlora⟩ := hys y List.mem_cons_self
  have hlen := hy.length_rxpkText hlora
  have hrest := hsum ys fun p hp => hys p (List.mem_cons_of_mem _ hp)
  simp only [objectText, Field.toText, rxpkField, arrayText, quoted, moreText, List.flatMap_nil,
    List.length_append, List.length_cons, List.length_nil, List.map_cons, List.sum_cons]
  rw [← moreText, hrest, show (ascii "rxpk").length = 4 from rfl]
  omega

end LoRaGwSv
