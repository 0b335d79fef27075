import LoRaGwSv.Server.PacketQueue
import LoRaGwSv.Server.ThreadDownstream

/-!
# Server/UpstreamDataHandle — how a datagram becomes messages (`upstream_data_handle`)

What is read at once is taken for a datagram: a header of twelve bytes and a JSON object with an
array.  Each packet of the array is enqueued if it has the size that it says; the message it is put
into is the one of the packet before, so what that had more of payload stays behind.  A packet with
a field missing frees the whole tree, which is freed once more when the loop ends.  The lock of the
queue is held around `pktEnqueue`, so that its two sections are taken as one
(`pktEnqueue_eq_sections`).
-/

namespace LoRaGwSv

open Text

/-- A message with the fields of `struct MsgInfo_` that an uplink needs. -/
structure UplinkMsg extends MsgInfo where
  rssi : ℚ
  snr : ℚ
  sock : ℤ

/-- The message `memset` leaves. -/
def zeroUplinkMsg : UplinkMsg := ⟨⟨0, Vector.replicate 256 0⟩, 0, 0, 0⟩

/-- `pktEnqueue`, between whose sections the queue is left alone. -/
def pktEnqueue {α : Type*} (queue : PktQueue α) (packet : α) (proposed : ℕ) :
    Option (PktQueue α) :=
  if isPktQueueFull queue then some queue else pktInsert queue packet proposed

/-- The message a packet of the array is put into, and whether it is enqueued.  `none` if a field is
missing, or if the process ends. -/
def parseRxpk (sock : ℤ) (ulMsg : UplinkMsg) (rxpk_val : Json) : Option (UplinkMsg × Bool) := do
  let rxpk_obj ← valueGetObject rxpk_val
  let rssi ← objectGetValue rxpk_obj (ascii "rssi")
  let lsnr ← objectGetValue rxpk_obj (ascii "lsnr")
  let size ← objectGetValue rxpk_obj (ascii "size")
  let str ← (objectGetValue rxpk_obj (ascii "data")).bind valueGetString
  let data ← b64ToBin str 256
  let ulMsg := { ulMsg with
    rssi := valueGetNumber rssi
    snr := valueGetNumber lsnr
    size := toUInt16 (valueGetNumber size)
    payload := Wire.copy ulMsg.payload 0 (data.getD []) }
  return if data.map List.length = some ulMsg.size.toNat then ({ ulMsg with sock := sock }, true)
    else (ulMsg, false)

/-- The loop over the array, from its `i`-th packet on. -/
def upstreamLoop (sock : ℤ) (proposed : ℕ → ℕ) :
    ℕ → UplinkMsg → PktQueue UplinkMsg → List Json → Option (PktQueue UplinkMsg)
  | _, _, inboundMsgQueue, [] => some inboundMsgQueue
  | i, ulMsg, inboundMsgQueue, rxpk_val :: rxpk_arr => do
    match ← parseRxpk sock ulMsg rxpk_val with
    | (ulMsg, true) =>
      upstreamLoop sock proposed (i + 1) ulMsg (← pktEnqueue inboundMsgQueue ulMsg (proposed i))
        rxpk_arr
    | (ulMsg, false) => upstreamLoop sock proposed (i + 1) ulMsg inboundMsgQueue rxpk_arr

/-- The array of packets in a text, if there is one. -/
def rxpkArray (text : List UInt8) : Option (List Json) := do
  let root_val ← jsonParseStringWithComments text
  valueGetArray (← objectGetValue (← valueGetObject root_val) (ascii "rxpk"))

/-- The loop over the array of a text, if it has one. -/
def enqueueRxpk (sock : ℤ) (proposed : ℕ → ℕ) (inboundMsgQueue : PktQueue UplinkMsg) :
    Option (List Json) → Option (PktQueue UplinkMsg)
  | none => some inboundMsgQueue
  | some rxpk_arr => upstreamLoop sock proposed 0 zeroUplinkMsg inboundMsgQueue rxpk_arr

/-- The queue once a datagram has been handled, where `malloc` proposes the addresses for its
packets. -/
def upstreamDataHandle (sock : ℤ) (proposed : ℕ → ℕ) (inboundMsgQueue : PktQueue UplinkMsg)
    (buff : List UInt8) : Option (PktQueue UplinkMsg) :=
  if buff.length < 12 ∨ buff[0]? ≠ some protocolVersion ∨
      buff[3]? ≠ some pktTimesyncReq ∧ buff[3]? ≠ some pktUplinkData then some inboundMsgQueue
  else if buff[3]? = some pktTimesyncReq then some inboundMsgQueue
  else enqueueRxpk sock proposed inboundMsgQueue (rxpkArray (buff.drop 12))

/-- `thread_inputstream`, when a datagram can be read from the socket of a gateway. -/
def threadInputstream (sock : ℤ) (proposed : ℕ → ℕ) (inboundMsgQueue : PktQueue UplinkMsg)
    (datagram : List UInt8) : Option (PktQueue UplinkMsg) :=
  upstreamDataHandle sock proposed inboundMsgQueue (datagram.take 511)

/-! ## The packets of an array -/

variable {α : Type*} {q : PktQueue α} {cells : List (ℕ × α)}

/-- The sections of a call one after the other: the second is left out if the queue is full. -/
theorem pktEnqueue_eq_sections {s : PktThreads α} (hidle : s.inserting = none) (pkt : α) (n : ℕ) :
    pktEnqueue s.queue pkt n = ((s.pktEnqueue (some pkt) n).bind fun t =>
      if t.inserting.isSome then t.pktEnqueue (some pkt) n else some t).map PktThreads.queue := by
  rw [pktEnqueue, PktThreads.pktEnqueue, hidle]
  dsimp only
  by_cases hfull : isPktQueueFull s.queue = true
  · rw [if_pos hfull, if_pos hfull, Option.bind_some]
    rfl
  · rw [if_neg hfull, if_neg hfull, Option.bind_some, Option.isSome_some, if_pos rfl,
      PktThreads.pktEnqueue, Option.map_map]
    exact Option.map_id'.symm

theorem PktQueue.Holds.pktEnqueue (h : q.Holds cells) (hroom : cells.length < pktQueueMax) (pkt : α)
    (n : ℕ) : ∃ q' p, pktEnqueue q pkt n = some q' ∧ q'.Holds (cells ++ [(p, pkt)]) := by
  rw [LoRaGwSv.pktEnqueue, if_neg (fun hfull => hroom.ne (h.isPktQueueFull_iff.mp hfull))]
  exact h.pktInsert hroom pkt n

/-- The bytes are what the message carries. -/
structure CarriedIn (data : List UInt8) (m : UplinkMsg) : Prop where
  size : m.size.toNat = data.length
  payload : m.payload.toList.take data.length = data

/-- A packet of the array that is enqueued with the given bytes, whatever the message was before. -/
def Enqueues (rxpk_val : Json) (data : List UInt8) : Prop :=
  ∀ sock ulMsg, ∃ ulMsg', parseRxpk sock ulMsg rxpk_val = some (ulMsg', true) ∧
    CarriedIn data ulMsg'

/-- **The packets of the array are enqueued in order**, as long as there is room. -/
theorem upstreamLoop_eq {queue : PktQueue UplinkMsg} {cells : List (ℕ × UplinkMsg)}
    {rxpk_arr : List Json} {datas : List (List UInt8)} (h : List.Forall₂ Enqueues rxpk_arr datas)
    (hholds : queue.Holds cells) (hroom : cells.length + datas.length ≤ pktQueueMax) (sock : ℤ)
    (proposed : ℕ → ℕ) (i : ℕ) (ulMsg : UplinkMsg) :
    ∃ queue' cells', upstreamLoop sock proposed i ulMsg queue rxpk_arr = some queue' ∧
      queue'.Holds (cells ++ cells') ∧ List.Forall₂ CarriedIn datas (cells'.map Prod.snd) := by
  induction h generalizing queue cells i ulMsg with
  | nil => exact ⟨queue, [], rfl, by rwa [List.append_nil], .nil⟩
  | @cons rxpk_val data rxpk_arr datas hhead _ ih =>
    obtain ⟨ulMsg', hparse, hcarries⟩ := hhead sock ulMsg
    rw [List.length_cons] at hroom
    obtain ⟨queue', p, hqueue, hholds'⟩ := hholds.pktEnqueue (by omega) ulMsg' (proposed i)
    have hroom' : (cells ++ [(p, ulMsg')]).length + datas.length ≤ pktQueueMax := by
      rw [List.length_append, List.length_singleton]
      omega
    obtain ⟨queue'', cells', hloop, hholds'', hall⟩ := ih hholds' hroom' (i + 1) ulMsg'
    refine ⟨queue'', (p, ulMsg') :: cells', ?_, by simpa using hholds'', .cons hcarries hall⟩
    simp [upstreamLoop, hparse, hqueue, hloop]

end LoRaGwSv
