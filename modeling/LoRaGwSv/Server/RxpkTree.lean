import LoRaGwSv.Machinery.Lifetime
import LoRaGwSv.Server.UpstreamDataHandle

/-!
# Server/RxpkTree — the parse tree of a datagram (`upstream_data_handle`)

The calls of the JSON library that the handler makes on the tree of one datagram, in order, with the
messages it passes to `pktEnqueue`.  A packet with a field missing frees the tree and goes on with
the loop, so that the next call is on memory that is no longer a tree: it is recorded, and what
follows it cannot be told.  The tree is freed once, and last, exactly if the array has a packet and
none lacks a field (`handledCleanly_iff`); one that has not the size it says does no harm.  What is
enqueued then is what `upstreamDataHandle` puts into the queue
(`UplinkArray.upstreamDataHandle_holds`).
-/

namespace LoRaGwSv

open Lifetime Text

/-- The calls on `root_val` and its sub-values. -/
inductive JsonCall
  | jsonValueGetObject
  | jsonObjectGetArray
  | jsonArrayGetCount
  | jsonArrayGetObject (i : ℕ)
  | jsonObjectGetValue (i : ℕ) (name : String)
  | jsonValueGetNumber (i : ℕ) (name : String)
  | jsonObjectGetString (i : ℕ) (name : String)
  | jsonValueFree
deriving DecidableEq, Repr

/-- How a turn of the loop ends. -/
inductive TurnEnding
  /-- A field is missing, and the tree has been freed. -/
  | missing
  /-- The process has ended. -/
  | exited
  | mismatch
  | enqueued
deriving DecidableEq, Repr

/-- What a turn of the loop does: its calls, and the message it leaves. -/
structure RxpkTurn where
  calls : List JsonCall
  ulMsg : UplinkMsg
  ending : TurnEnding

/-- A field of a packet, which may not be an object at all. -/
def rxpkMember (rxpk_val : Json) (name : String) : Option Json :=
  (valueGetObject rxpk_val).bind fun rxpk_obj => objectGetValue rxpk_obj (ascii name)

/-- The turn for the `i`-th packet of the array. -/
def rxpkTurn (sock : ℤ) (i : ℕ) (ulMsg : UplinkMsg) (rxpk_val : Json) : RxpkTurn :=
  let calls := [.jsonArrayGetObject i, .jsonObjectGetValue i "rssi"]
  match rxpkMember rxpk_val "rssi" with
  | none => ⟨calls ++ [.jsonValueFree], ulMsg, .missing⟩
  | some val =>
    let ulMsg := { ulMsg with rssi := valueGetNumber val }
    let calls := calls ++ [.jsonValueGetNumber i "rssi", .jsonObjectGetValue i "lsnr"]
    match rxpkMember rxpk_val "lsnr" with
    | none => ⟨calls ++ [.jsonValueFree], ulMsg, .missing⟩
    | some val =>
      let ulMsg := { ulMsg with snr := valueGetNumber val }
      let calls := calls ++ [.jsonValueGetNumber i "lsnr", .jsonObjectGetValue i "size"]
      match rxpkMember rxpk_val "size" with
      | none => ⟨calls ++ [.jsonValueFree], ulMsg, .missing⟩
      | some val =>
        let ulMsg := { ulMsg with size := toUInt16 (valueGetNumber val) }
        let calls := calls ++ [.jsonValueGetNumber i "size", .jsonObjectGetString i "data"]
        match (rxpkMember rxpk_val "data").bind valueGetString with
        | none => ⟨calls ++ [.jsonValueFree], ulMsg, .missing⟩
        | some str =>
          match b64ToBin str 256 with
          | none => ⟨calls, ulMsg, .exited⟩
          | some data =>
            let ulMsg := { ulMsg with payload := Wire.copy ulMsg.payload 0 (data.getD []) }
            if data.map List.length = some ulMsg.size.toNat then
              ⟨calls, { ulMsg with sock := sock }, .enqueued⟩
            else ⟨calls, ulMsg, .mismatch⟩

/-- The calls on the tree, and the messages passed to `pktEnqueue`. -/
structure TreeTrace where
  calls : List JsonCall
  enqueued : List UplinkMsg

/-- A trace that begins with other calls. -/
def TreeTrace.after (calls : List JsonCall) (t : TreeTrace) : TreeTrace :=
  { t with calls := calls ++ t.calls }

/-- The loop over the array from its `i`-th packet on, and the free behind it. -/
def rxpkLoop (sock : ℤ) : ℕ → UplinkMsg → List Json → TreeTrace
  | _, _, [] => ⟨[.jsonValueFree], []⟩
  | i, ulMsg, rxpk_val :: rxpk_arr =>
    let turn := rxpkTurn sock i ulMsg rxpk_val
    match turn.ending with
    | .missing =>
      -- the next call, whichever it is, is on the freed tree
      ⟨turn.calls ++ [if rxpk_arr = [] then .jsonValueFree else .jsonArrayGetObject (i + 1)], []⟩
    | .exited => ⟨turn.calls, []⟩
    | .mismatch => (rxpkLoop sock (i + 1) turn.ulMsg rxpk_arr).after turn.calls
    | .enqueued =>
      let rest := rxpkLoop sock (i + 1) turn.ulMsg rxpk_arr
      ⟨turn.calls ++ rest.calls, turn.ulMsg :: rest.enqueued⟩

/-- What the handler does with the tree of a text that has an array `rxpk`, or none. -/
def rxpkTree (sock : ℤ) : Option (List Json) → TreeTrace
  | none => ⟨[.jsonValueGetObject, .jsonObjectGetArray, .jsonValueFree], []⟩
  | some [] => ⟨[.jsonValueGetObject, .jsonObjectGetArray, .jsonArrayGetCount], []⟩
  | some rxpk_arr => (rxpkLoop sock 0 zeroUplinkMsg rxpk_arr).after
      [.jsonValueGetObject, .jsonObjectGetArray, .jsonArrayGetCount]

/-- What a datagram makes the handler do with its tree, if it has one. -/
def upstreamTree (sock : ℤ) (buff : List UInt8) : TreeTrace :=
  if buff.length < 12 ∨ buff[0]? ≠ some protocolVersion ∨ buff[3]? ≠ some pktUplinkData then
    ⟨[], []⟩
  else
    match jsonParseStringWithComments (buff.drop 12) with
    | none => ⟨[], []⟩
    | some _ => rxpkTree sock (rxpkArray (buff.drop 12))

/-- The fields of a packet that is well formed: all are there, and it has the size that it says. -/
structure RxpkFields where
  rssi : ℚ
  lsnr : ℚ
  size : UInt16
  data : List UInt8

/-- The fields of a packet that is well formed. -/
def rxpkFields (rxpk_val : Json) : Option RxpkFields := do
  let rxpk_obj ← valueGetObject rxpk_val
  let rssi ← objectGetValue rxpk_obj (ascii "rssi")
  let lsnr ← objectGetValue rxpk_obj (ascii "lsnr")
  let size ← objectGetValue rxpk_obj (ascii "size")
  let str ← (objectGetValue rxpk_obj (ascii "data")).bind valueGetString
  let data ← (b64ToBin str 256).join
  if data.length = (toUInt16 (valueGetNumber size)).toNat then
    return ⟨valueGetNumber rssi, valueGetNumber lsnr, toUInt16 (valueGetNumber size), data⟩
  else none

/-- No field is missing, and `b64_to_bin` does not end the process over the data. -/
structure Complete (rxpk_val : Json) : Prop where
  rssi : (rxpkMember rxpk_val "rssi").isSome
  lsnr : (rxpkMember rxpk_val "lsnr").isSome
  size : (rxpkMember rxpk_val "size").isSome
  data : ∃ str, (rxpkMember rxpk_val "data").bind valueGetString = some str ∧
    (b64ToBin str 256).isSome

instance (rxpk_val : Json) : Decidable (Complete rxpk_val) :=
  decidable_of_iff ((rxpkMember rxpk_val "rssi").isSome ∧ (rxpkMember rxpk_val "lsnr").isSome ∧
      (rxpkMember rxpk_val "size").isSome ∧
      ((rxpkMember rxpk_val "data").bind valueGetString).any fun str => (b64ToBin str 256).isSome)
    ⟨fun ⟨hrssi, hlsnr, hsize, hdata⟩ => ⟨hrssi, hlsnr, hsize, (Option.any_eq_true _ _).mp hdata⟩,
      fun h => ⟨h.rssi, h.lsnr, h.size, (Option.any_eq_true _ _).mpr h.data⟩⟩

/-- A message is the packet. -/
structure RxpkFields.SentAs (fields : RxpkFields) (sock : ℤ) (m : UplinkMsg) : Prop where
  rssi : m.rssi = fields.rssi
  snr : m.snr = fields.lsnr
  size : m.size = fields.size
  data : CarriedIn fields.data m
  sock : m.sock = sock

variable {sock : ℤ} {i : ℕ} {ulMsg : UplinkMsg} {rxpk_val : Json} {rxpk_arr : List Json}

/-! ## One turn

A turn ends in one of four ways, which depend on the fields that the packet has. -/

/-- What a turn for a packet may do. -/
inductive RxpkTurn.Does (sock : ℤ) (rxpk_val : Json) (turn : RxpkTurn) : Prop
  | missing (hending : turn.ending = .missing) (hnot : ¬ Complete rxpk_val)
      (hcalls : ∃ uses, turn.calls = uses ++ [.jsonValueFree])
  | exited (hending : turn.ending = .exited) (hnot : ¬ Complete rxpk_val)
      (hcalls : JsonCall.jsonValueFree ∉ turn.calls)
  | mismatch (hending : turn.ending = .mismatch) (hcomplete : Complete rxpk_val)
      (hcalls : JsonCall.jsonValueFree ∉ turn.calls) (hfields : rxpkFields rxpk_val = none)
  | enqueued (fields : RxpkFields) (hending : turn.ending = .enqueued)
      (hcomplete : Complete rxpk_val) (hcalls : JsonCall.jsonValueFree ∉ turn.calls)
      (hfields : rxpkFields rxpk_val = some fields) (hsent : fields.SentAs sock turn.ulMsg)

/-- Once all are there, the fields are told by the data and the size. -/
theorem rxpkFields_eq {rssi lsnr size : Json} {str : List UInt8}
    (hrssi : rxpkMember rxpk_val "rssi" = some rssi)
    (hlsnr : rxpkMember rxpk_val "lsnr" = some lsnr)
    (hsize : rxpkMember rxpk_val "size" = some size)
    (hstr : (rxpkMember rxpk_val "data").bind valueGetString = some str) :
    rxpkFields rxpk_val = (b64ToBin str 256).join.bind fun data =>
      if data.length = (toUInt16 (valueGetNumber size)).toNat then
        some ⟨valueGetNumber rssi, valueGetNumber lsnr, toUInt16 (valueGetNumber size), data⟩
      else none := by
  obtain ⟨obj, hobj, hrssi⟩ := Option.bind_eq_some_iff.mp hrssi
  rw [rxpkMember, hobj, Option.bind_some] at hlsnr hsize hstr
  simp only [rxpkFields, hobj, hrssi, hlsnr, hsize, hstr, Option.bind_eq_bind, Option.bind_some]
  rfl

/-- What `b64_to_bin` has written stands at the start of the buffer. -/
theorem take_copy_b64ToBin {str bytes : List UInt8} (payload : Vector UInt8 256)
    (hdata : b64ToBin str 256 = some (some bytes)) :
    (Wire.copy payload 0 bytes).toList.take bytes.length = bytes := by
  have hfits : 0 + bytes.length ≤ 256 := (Nat.zero_add _).symm ▸ length_b64ToBin_le hdata
  have htake := Wire.take_copy payload hfits
  rwa [Nat.zero_add, List.take_zero, List.nil_append] at htake

/-- **Each turn does one of the four things**, as the packet has its fields or not. -/
theorem rxpkTurn_does (sock : ℤ) (i : ℕ) (ulMsg : UplinkMsg) (rxpk_val : Json) :
    (rxpkTurn sock i ulMsg rxpk_val).Does sock rxpk_val := by
  rw [rxpkTurn]
  dsimp only
  split
  case h_1 hrssi => exact .missing rfl (fun h => by simpa [hrssi] using h.rssi) ⟨_, rfl⟩
  case h_2 rssi hrssi =>
    split
    case h_1 hlsnr => exact .missing rfl (fun h => by simpa [hlsnr] using h.lsnr) ⟨_, rfl⟩
    case h_2 lsnr hlsnr =>
      split
      case h_1 hsize => exact .missing rfl (fun h => by simpa [hsize] using h.size) ⟨_, rfl⟩
      case h_2 size hsize =>
        split
        case h_1 hstr =>
          refine .missing rfl (fun h => ?_) ⟨_, rfl⟩
          obtain ⟨str, hstr', -⟩ := h.data
          exact absurd (hstr.symm.trans hstr') (by simp)
        case h_2 str hstr =>
          have hfields := rxpkFields_eq hrssi hlsnr hsize hstr
          split
          case h_1 hdata =>
            refine .exited rfl (fun h => ?_) (by simp)
            obtain ⟨str', hstr', hsome⟩ := h.data
            obtain rfl := Option.some.inj (hstr.symm.trans hstr')
            simp [hdata] at hsome
          case h_2 data hdata =>
            have hcomplete : Complete rxpk_val :=
              ⟨by simp [hrssi], by simp [hlsnr], by simp [hsize], str, hstr, by simp [hdata]⟩
            rw [hdata] at hfields
            split
            case isTrue hlen =>
              obtain ⟨bytes, rfl, hbytes⟩ := Option.map_eq_some_iff.mp hlen
              refine .enqueued _ rfl hcomplete (by simp) (hfields.trans (if_pos hbytes)) ?_
              exact ⟨rfl, rfl, rfl, ⟨hbytes.symm, take_copy_b64ToBin ulMsg.payload hdata⟩, rfl⟩
            case isFalse hlen =>
              refine .mismatch rfl hcomplete (by simp) (hfields.trans ?_)
              cases data with
              | none => rfl
              | some bytes => exact if_neg fun hbytes => hlen (congrArg some hbytes)

/-! ## The loop

The loop is followed from any of its turns on.  A missing field frees the tree and goes on, so
whatever the loop does next is done to a tree that is gone. -/

/-- The well-formed packets are passed to `pktEnqueue`, and nothing else, in order. -/
def EnqueuesWellFormed (sock : ℤ) (rxpk_arr : List Json) (enqueued : List UplinkMsg) : Prop :=
  List.Forall₂ (fun fields m => RxpkFields.SentAs fields sock m) (rxpk_arr.filterMap rxpkFields)
    enqueued

/-- **The loop frees the tree once, and last, exactly if no packet lacks a field**, and then
enqueues the well-formed ones. -/
theorem rxpkLoop_iff : ∀ (rxpk_arr : List Json) (i : ℕ) (ulMsg : UplinkMsg),
    (ReleasedOnce .jsonValueFree (rxpkLoop sock i ulMsg rxpk_arr).calls ∧
      EnqueuesWellFormed sock rxpk_arr (rxpkLoop sock i ulMsg rxpk_arr).enqueued) ↔
    ∀ rxpk_val ∈ rxpk_arr, Complete rxpk_val := by
  intro rxpk_arr
  induction rxpk_arr with
  | nil =>
    intro i ulMsg
    exact iff_of_true ⟨releasedOnce_singleton _, .nil⟩ (by simp)
  | cons rxpk_val rxpk_arr ih =>
    intro i ulMsg
    rw [List.forall_mem_cons, rxpkLoop]
    cases rxpkTurn_does sock i ulMsg rxpk_val with
    | missing hending hnot hcalls =>
      obtain ⟨uses, hcalls⟩ := hcalls
      simp only [hending, hcalls]
      refine iff_of_false (fun h => ?_) fun h => hnot h.1
      exact not_releasedOnce_of_used uses _ (by simpa using h.1)
    | exited hending hnot hcalls =>
      simp only [hending]
      exact iff_of_false (fun h => not_releasedOnce_of_notMem hcalls h.1) fun h => hnot h.1
    | mismatch hending hcomplete hcalls hfields =>
      simp only [hending]
      rw [TreeTrace.after, releasedOnce_append hcalls, EnqueuesWellFormed,
        List.filterMap_cons_none hfields, and_iff_right hcomplete]
      exact ih (i + 1) _
    | enqueued fields hending hcomplete hcalls hfields hsent =>
      simp only [hending]
      rw [releasedOnce_append hcalls, EnqueuesWellFormed, List.filterMap_cons_some hfields,
        List.forall₂_cons, and_iff_right hsent, and_iff_right hcomplete]
      exact ih (i + 1) _

/-! ## The queue -/

/-- A turn reads of a packet what `parseRxpk` does. -/
theorem parseRxpk_eq (sock : ℤ) (i : ℕ) (ulMsg : UplinkMsg) (rxpk_val : Json)
    (h : Complete rxpk_val) : parseRxpk sock ulMsg rxpk_val =
      some ((rxpkTurn sock i ulMsg rxpk_val).ulMsg,
        decide ((rxpkTurn sock i ulMsg rxpk_val).ending = .enqueued)) := by
  obtain ⟨rssi, hrssi⟩ := Option.isSome_iff_exists.mp h.rssi
  obtain ⟨lsnr, hlsnr⟩ := Option.isSome_iff_exists.mp h.lsnr
  obtain ⟨size, hsize⟩ := Option.isSome_iff_exists.mp h.size
  obtain ⟨str, hstr, hdata⟩ := h.data
  obtain ⟨data, hdata⟩ := Option.isSome_iff_exists.mp hdata
  simp only [rxpkTurn, hrssi, hlsnr, hsize, hstr, hdata]
  obtain ⟨obj, hobj, hrssi⟩ := Option.bind_eq_some_iff.mp hrssi
  rw [rxpkMember, hobj, Option.bind_some] at hlsnr hsize hstr
  simp only [parseRxpk, hobj, hrssi, hlsnr, hsize, hstr, hdata, Option.bind_eq_bind,
    Option.bind_some]
  split_ifs <;> rfl

/-- The loop enqueues the messages of its trace, as long as there is room. -/
theorem upstreamLoop_holds {cells : List (ℕ × UplinkMsg)} {queue : PktQueue UplinkMsg}
    (hall : ∀ rxpk_val ∈ rxpk_arr, Complete rxpk_val) (hholds : queue.Holds cells)
    (hroom : cells.length + rxpk_arr.length ≤ pktQueueMax) (sock : ℤ) (proposed : ℕ → ℕ) (i : ℕ)
    (ulMsg : UplinkMsg) :
    ∃ queue' cells', upstreamLoop sock proposed i ulMsg queue rxpk_arr = some queue' ∧
      queue'.Holds (cells ++ cells') ∧
      cells'.map Prod.snd = (rxpkLoop sock i ulMsg rxpk_arr).enqueued := by
  induction rxpk_arr generalizing cells queue i ulMsg with
  | nil => exact ⟨queue, [], rfl, by rwa [List.append_nil], rfl⟩
  | cons rxpk_val rxpk_arr ih =>
    obtain ⟨hhead, hall⟩ := List.forall_mem_cons.mp hall
    have hparse := parseRxpk_eq sock i ulMsg rxpk_val hhead
    rw [List.length_cons] at hroom
    rw [rxpkLoop]
    cases rxpkTurn_does sock i ulMsg rxpk_val with
    | missing _ hnot => exact absurd hhead hnot
    | exited _ hnot => exact absurd hhead hnot
    | mismatch hending =>
      obtain ⟨queue', cells', hloop, hholds', hsnd⟩ :=
        ih hall hholds (by omega) (i + 1) (rxpkTurn sock i ulMsg rxpk_val).ulMsg
      refine ⟨queue', cells', ?_, hholds', ?_⟩
      · simpa [upstreamLoop, hparse, hending] using hloop
      · simpa [hending, TreeTrace.after] using hsnd
    | enqueued fields hending =>
      obtain ⟨queue', p, hqueue, hholds'⟩ :=
        hholds.pktEnqueue (by omega) (rxpkTurn sock i ulMsg rxpk_val).ulMsg (proposed i)
      obtain ⟨queue'', cells', hloop, hholds'', hsnd⟩ := ih hall hholds'
        (by rw [List.length_append, List.length_singleton]; omega) (i + 1)
        (rxpkTurn sock i ulMsg rxpk_val).ulMsg
      refine ⟨queue'', (p, (rxpkTurn sock i ulMsg rxpk_val).ulMsg) :: cells', ?_,
        by simpa using hholds'', ?_⟩
      · simp [upstreamLoop, hparse, hending, hqueue, hloop]
      · simp [hending, hsnd]

/-! ## A datagram -/

/-- The tree of the datagram is freed once, and last, and its well-formed packets are enqueued. -/
def HandledCleanly (sock : ℤ) (buff : List UInt8) (rxpk_arr : List Json) : Prop :=
  ReleasedOnce .jsonValueFree (upstreamTree sock buff).calls ∧
    EnqueuesWellFormed sock rxpk_arr (upstreamTree sock buff).enqueued

/-- A datagram of the uplink with an array of packets. -/
structure UplinkArray (buff : List UInt8) (rxpk_arr : List Json) : Prop where
  length : 12 ≤ buff.length
  version : buff[0]? = some protocolVersion
  token : buff[3]? = some pktUplinkData
  array : rxpkArray (buff.drop 12) = some rxpk_arr

/-- A datagram with an array is handled by its loop. -/
theorem UplinkArray.upstreamTree {buff : List UInt8} (h : UplinkArray buff rxpk_arr) (sock : ℤ) :
    upstreamTree sock buff = rxpkTree sock (some rxpk_arr) := by
  have harray := h.array
  obtain ⟨root_val, hroot, -⟩ := Option.bind_eq_some_iff.mp harray
  rw [LoRaGwSv.upstreamTree, if_neg (by simp [h.length, h.version, h.token]), hroot]
  exact congrArg (rxpkTree sock) harray

/-- **The queue gains the messages of the trace**: a datagram that is handled cleanly does to the
queue what `upstreamDataHandle` says, as long as there is room. -/
theorem UplinkArray.upstreamDataHandle_holds {buff : List UInt8} (h : UplinkArray buff rxpk_arr)
    {cells : List (ℕ × UplinkMsg)} {queue : PktQueue UplinkMsg}
    (hall : ∀ rxpk_val ∈ rxpk_arr, Complete rxpk_val) (hholds : queue.Holds cells)
    (hroom : cells.length + rxpk_arr.length ≤ pktQueueMax) (sock : ℤ) (proposed : ℕ → ℕ) :
    ∃ queue' cells', upstreamDataHandle sock proposed queue buff = some queue' ∧
      queue'.Holds (cells ++ cells') ∧
      cells'.map Prod.snd = (LoRaGwSv.upstreamTree sock buff).enqueued := by
  have hhandle : upstreamDataHandle sock proposed queue buff
      = upstreamLoop sock proposed 0 zeroUplinkMsg queue rxpk_arr := by
    have htoken : ¬(pktUplinkData = pktTimesyncReq) := by decide
    simp [upstreamDataHandle, enqueueRxpk, h.length, h.version, h.token, h.array, htoken]
  have htrace : (LoRaGwSv.upstreamTree sock buff).enqueued
      = (rxpkLoop sock 0 zeroUplinkMsg rxpk_arr).enqueued := by
    rw [h.upstreamTree sock]
    cases rxpk_arr <;> rfl
  rw [hhandle, htrace]
  exact upstreamLoop_holds hall hholds hroom sock proposed 0 zeroUplinkMsg

/-- **A datagram is handled cleanly exactly if its array has a packet, and none of its packets lacks
a field** or has data that end the process. -/
theorem handledCleanly_iff {buff : List UInt8} (h : UplinkArray buff rxpk_arr) (sock : ℤ) :
    HandledCleanly sock buff rxpk_arr ↔
      rxpk_arr ≠ [] ∧ ∀ rxpk_val ∈ rxpk_arr, Complete rxpk_val := by
  rw [HandledCleanly, h.upstreamTree sock]
  cases rxpk_arr with
  | nil =>
    refine iff_of_false (fun h => ?_) fun h => h.1 rfl
    exact not_releasedOnce_of_notMem (by simp [rxpkTree]) h.1
  | cons rxpk_val rxpk_arr =>
    have htree : rxpkTree sock (some (rxpk_val :: rxpk_arr))
        = (rxpkLoop sock 0 zeroUplinkMsg (rxpk_val :: rxpk_arr)).after
          [.jsonValueGetObject, .jsonObjectGetArray, .jsonArrayGetCount] := rfl
    rw [htree, TreeTrace.after, releasedOnce_append (by simp), rxpkLoop_iff]
    exact (and_iff_right (List.cons_ne_nil _ _)).symm

/-- A datagram of the uplink with this text. -/
def uplinkDatagram (text : List UInt8) : List UInt8 :=
  [protocolVersion, 0, 0, pktUplinkData, 0, 0, 0, 0, 0, 0, 0, 0] ++ text

/-- A header of twelve bytes makes a text a datagram. -/
theorem uplinkArray_uplinkDatagram {text : List UInt8} (h : rxpkArray text = some rxpk_arr) :
    UplinkArray (uplinkDatagram text) rxpk_arr :=
  ⟨by simp [uplinkDatagram], rfl, rfl, h⟩

/-- A packet of one byte, and one that has one but says it has two. -/
def mismatchText : List UInt8 :=
  ascii ("\x7b\"rxpk\":[\x7b\"rssi\":-35,\"lsnr\":5,\"size\":1,\"data\":\"AA==\"\x7d," ++
    "\x7b\"rssi\":-40,\"lsnr\":1,\"size\":2,\"data\":\"AA==\"\x7d]\x7d")

/-- A packet that is skipped because its size is wrong is no harm. -/
theorem handledCleanly_iff_mismatch :
    ∃ rxpk_arr, rxpkArray mismatchText = some rxpk_arr ∧
      HandledCleanly 3 (uplinkDatagram mismatchText) rxpk_arr := by
  have hcomplete : (rxpkArray mismatchText).any (fun rxpk_arr =>
      decide (rxpk_arr ≠ [] ∧ ∀ rxpk_val ∈ rxpk_arr, Complete rxpk_val)) = true := by
    decide +kernel
  obtain ⟨rxpk_arr, harray, hall⟩ := (Option.any_eq_true _ _).mp hcomplete
  rw [decide_eq_true_iff] at hall
  exact ⟨rxpk_arr, harray, (handledCleanly_iff (uplinkArray_uplinkDatagram harray) 3).mpr hall⟩

/-- A packet without `lsnr`, and one of one byte. -/
def missingText : List UInt8 :=
  ascii ("\x7b\"rxpk\":[\x7b\"rssi\":-40\x7d," ++
    "\x7b\"rssi\":-35,\"lsnr\":5,\"size\":1,\"data\":\"AA==\"\x7d]\x7d")

/-- **Behind a packet without `lsnr` the next one is read from a tree that has been freed.** -/
theorem not_handledCleanly_missing : ¬ ∀ (sock : ℤ) (buff : List UInt8) (rxpk_arr : List Json),
    UplinkArray buff rxpk_arr → HandledCleanly sock buff rxpk_arr := by
  intro h
  obtain ⟨rxpk_arr, harray⟩ := Option.isSome_iff_exists.mp
    (show (rxpkArray missingText).isSome = true by decide +kernel)
  have hclean := h 3 _ _ (uplinkArray_uplinkDatagram harray)
  have hcalls : (upstreamTree 3 (uplinkDatagram missingText)).calls =
      [.jsonValueGetObject, .jsonObjectGetArray, .jsonArrayGetCount, .jsonArrayGetObject 0,
        .jsonObjectGetValue 0 "rssi", .jsonValueGetNumber 0 "rssi", .jsonObjectGetValue 0 "lsnr"] ++
      [.jsonValueFree, .jsonArrayGetObject 1] := by decide +kernel
  exact not_releasedOnce_of_used _ _ (hcalls ▸ hclean.1)

end LoRaGwSv
