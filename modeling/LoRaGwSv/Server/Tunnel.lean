import Mathlib.Data.List.GetD
import LoRaGwSv.Machinery.Framing
import LoRaGwSv.Server.DeviceManagement

/-!
# Server/Tunnel — the frames of a gateway out of its stream (`lora_mac.c`)

A gateway sends its frames over TCP, each between two marker bytes and with its size behind the
first.  `ReceiveFrameFromLoRaGW` appends what arrives to the buffer of the gateway, hands over each
frame that is complete and moves what stands behind it to the front.  It moves it from the wrong
place: not from behind the frame, but from behind all that was received.  **The frames are handed
over one by one, however they are cut, as long as no chunk goes on behind the end of a frame**
(`receiveAll_frames`); what a chunk carries behind a frame is lost (`receive_rest_lost`).  Whatever
arrives, the loop over the buffer comes to its end (`rxTurn_receive`).

`receive_frame_from_gateway` (`lora_network_server.c`) has the same body.
-/

namespace LoRaGwSv

/-- `START_OF_FRAME`. -/
def startOfFrame : UInt8 := 0xDE

/-- `END_OF_FRAME`. -/
def endOfFrame : UInt8 := 0xCA

/-- `RX_TUNNELING_OVERHEAD`, the bytes of a frame beside its payload. -/
def rxTunnelingOverhead : ℕ := 41

/-- `memcpy(&buf[i], bs, …)`. -/
def copyAt (buf : List UInt8) (i : ℕ) (bs : List UInt8) : List UInt8 :=
  buf.take i ++ (bs ++ buf.drop (i + bs.length))

/-- `memmove(buf, &buf[start], n)`; bytes behind the end of the buffer are read as 0. -/
def moveFront (buf : List UInt8) (start n : ℕ) : List UInt8 :=
  copyAt buf 0 ((List.range n).map fun j => buf.getD (start + j) 0)

/-- The size of the frame at the front, as the byte behind its start tells it. -/
def GateWayInfo.rxFrameSize (gatewayInfo : GateWayInfo) : ℕ :=
  (gatewayInfo.rxBuffer.getD 1 0).toNat + rxTunnelingOverhead

/-- Concatenate previous remaining data and new arrived data, unless the buffer overflows. -/
def GateWayInfo.append (gatewayInfo : GateWayInfo) (rxFrame : List UInt8) : GateWayInfo :=
  let size := UInt32.ofNat rxFrame.length
  let currentRxBufferSize :=
    if tcpStreamBufferSize < (gatewayInfo.currentRxBufferSize + size).toNat then 0
    else gatewayInfo.currentRxBufferSize
  { gatewayInfo with
    rxBuffer := copyAt gatewayInfo.rxBuffer currentRxBufferSize.toNat rxFrame
    currentRxBufferSize := currentRxBufferSize + size }

/-- The search for the next start of a frame. -/
def GateWayInfo.findStart (gatewayInfo : GateWayInfo) : GateWayInfo :=
  let size := gatewayInfo.currentRxBufferSize.toNat
  let findStartOfFrame := ((List.range size).find? fun loopCnt =>
    gatewayInfo.rxBuffer.getD loopCnt 0 = startOfFrame).getD 0
  if findStartOfFrame ≠ 0 then
    { gatewayInfo with
      rxBuffer := moveFront gatewayInfo.rxBuffer findStartOfFrame (size - findStartOfFrame)
      currentRxBufferSize := UInt32.ofNat (size - findStartOfFrame) }
  else { gatewayInfo with currentRxBufferSize := 0 }

/-- What is left of a buffer whose frame has been handed over. -/
def GateWayInfo.remaining (gatewayInfo : GateWayInfo) : GateWayInfo :=
  let size := gatewayInfo.currentRxBufferSize.toNat
  let remainingBufferSize := size - gatewayInfo.rxFrameSize
  { gatewayInfo with
    rxBuffer := moveFront gatewayInfo.rxBuffer size remainingBufferSize
    currentRxBufferSize := UInt32.ofNat remainingBufferSize }

/-- One turn of the loop, with the buffer as `NetworkServerReceiveFrame` gets it; `none` where the
loop ends. -/
def rxTurn (gatewayInfo : GateWayInfo) : Option (GateWayInfo × List (List UInt8)) :=
  if gatewayInfo.currentRxBufferSize.toNat ≤ 2 then none
  else if gatewayInfo.rxBuffer.getD 0 0 ≠ startOfFrame then some (gatewayInfo.findStart, [])
  else if gatewayInfo.currentRxBufferSize.toNat < gatewayInfo.rxFrameSize then none
  else if gatewayInfo.rxBuffer.getD (gatewayInfo.rxFrameSize - 1) 0 = endOfFrame then
    some (gatewayInfo.remaining, [gatewayInfo.rxBuffer])
  else some ({ gatewayInfo with rxBuffer := gatewayInfo.rxBuffer.set 0 0 }, [])

/-- The `while` loop over the buffer of a gateway, with fuel for its turns: the gateway it ends
with, and the buffers handed over. -/
def rxLoop : ℕ → GateWayInfo → GateWayInfo × List (List UInt8)
  | 0, gatewayInfo => (gatewayInfo, [])
  | fuel + 1, gatewayInfo =>
    match rxTurn gatewayInfo with
    | none => (gatewayInfo, [])
    | some (gatewayInfo', calls) =>
      let (last, calls') := rxLoop fuel gatewayInfo'
      (last, calls ++ calls')

/-- What the turns of the loop use up: the bytes, and the start of a frame that was none. -/
def GateWayInfo.rank (gatewayInfo : GateWayInfo) : ℕ :=
  2 * gatewayInfo.currentRxBufferSize.toNat
    + if gatewayInfo.rxBuffer.getD 0 0 = startOfFrame then 1 else 0

/-- What a chunk does to the gateway it is from.  The rank bounds the turns of the loop, so the fuel
is never used up (`rxTurn_receive`). -/
def GateWayInfo.receive (gatewayInfo : GateWayInfo) (rxFrame : List UInt8) :
    GateWayInfo × List (List UInt8) :=
  let gatewayInfo := gatewayInfo.append rxFrame
  rxLoop (gatewayInfo.rank + 1) gatewayInfo

/-- The calls of `NetworkServerReceiveFrame`, each with its buffer and the socket. -/
def receiveFrameFromLoRaGW (s : Devices) (rxFrame : List UInt8) (gwSocket : ℤ) :
    Devices × List (List UInt8 × ℤ) :=
  match findGateWay s gwSocket with
  | none => (s, [])
  | some gatewayInfo =>
    let (gatewayInfo', calls) := gatewayInfo.receive rxFrame
    ({ s with
      gateWays := Keyed.update GateWayInfo.socket gwSocket (fun _ => gatewayInfo') s.gateWays },
      calls.map (·, gwSocket))

/-- What arrives from a gateway, chunk by chunk. -/
def receiveAll (gwSocket : ℤ) : List (List UInt8) → Devices → Devices × List (List UInt8 × ℤ)
  | [], s => (s, [])
  | chunk :: chunks, s =>
    let (s', calls) := receiveFrameFromLoRaGW s chunk gwSocket
    let (last, calls') := receiveAll gwSocket chunks s'
    (last, calls ++ calls')

variable {g : GateWayInfo} {p q c buf bs frame : List UInt8} {frames chunks : List (List UInt8)}
  {s : Devices} {gwSocket : ℤ}

/-! ## The loop ends

A turn drops bytes from the buffer, or it strikes out a start of frame, after which the next turn
drops bytes. -/

/-- The rank is bounded by the bytes in the buffer. -/
theorem rank_le (g : GateWayInfo) : g.rank ≤ 2 * g.currentRxBufferSize.toNat + 1 := by
  rw [GateWayInfo.rank]
  split_ifs <;> omega

/-- A difference of 32-bit numbers fits 32 bits. -/
theorem toNat_ofNat_sub (size : UInt32) (k : ℕ) :
    (UInt32.ofNat (size.toNat - k)).toNat = size.toNat - k := by
  have hlt := size.toNat_lt
  rw [UInt32.toNat_ofNat']
  omega

/-- The search for a start of frame drops at least one byte. -/
theorem rank_findStart (hsize : 2 < g.currentRxBufferSize.toNat) : g.findStart.rank < g.rank := by
  refine lt_of_le_of_lt (rank_le _) (lt_of_lt_of_le ?_ (Nat.le_add_right _ _))
  rw [GateWayInfo.findStart]
  split_ifs with hfound
  · rw [toNat_ofNat_sub]
    omega
  · rw [show (0 : UInt32).toNat = 0 from rfl]
    omega

/-- **Each turn uses up the rank.** -/
theorem rank_of_rxTurn {g' : GateWayInfo} {calls : List (List UInt8)}
    (h : rxTurn g = some (g', calls)) : g'.rank < g.rank := by
  rw [rxTurn] at h
  split_ifs at h with hshort hstart hwait hend
  · obtain ⟨rfl, -⟩ := Prod.mk.inj (Option.some.inj h)
    exact rank_findStart (not_le.mp hshort)
  · -- the frame is handed over
    obtain ⟨rfl, -⟩ := Prod.mk.inj (Option.some.inj h)
    refine lt_of_le_of_lt (rank_le _) (lt_of_lt_of_le ?_ (Nat.le_add_right _ _))
    rw [GateWayInfo.remaining, toNat_ofNat_sub]
    rw [GateWayInfo.rxFrameSize, rxTunnelingOverhead] at hwait ⊢
    omega
  · -- its end is missing, and its start is struck out
    obtain ⟨rfl, -⟩ := Prod.mk.inj (Option.some.inj h)
    rw [not_not] at hstart
    have hstruck : (g.rxBuffer.set 0 0).getD 0 0 ≠ startOfFrame := by
      cases g.rxBuffer with
      | nil => decide
      | cons b bs => exact fun h => absurd h (by decide : (0 : UInt8) ≠ startOfFrame)
    rw [GateWayInfo.rank, GateWayInfo.rank, if_neg hstruck, if_pos hstart]
    exact Nat.lt_succ_self _

/-- Where the loop ends, it hands nothing over. -/
theorem rxLoop_of_none (h : rxTurn g = none) (fuel : ℕ) : rxLoop fuel g = (g, []) := by
  cases fuel with
  | zero => rfl
  | succ fuel => rw [rxLoop, h]

/-- One turn, and then the rest of the loop. -/
theorem rxLoop_of_some {g' : GateWayInfo} {calls : List (List UInt8)}
    (h : rxTurn g = some (g', calls)) (fuel : ℕ) :
    rxLoop (fuel + 1) g = ((rxLoop fuel g').1, calls ++ (rxLoop fuel g').2) := by
  rw [rxLoop, h]

/-- With more fuel than rank the loop does not end for want of fuel. -/
theorem rxTurn_rxLoop {fuel : ℕ} (hfuel : g.rank < fuel) : rxTurn (rxLoop fuel g).1 = none := by
  induction fuel generalizing g with
  | zero => exact absurd hfuel (Nat.not_lt_zero _)
  | succ fuel ih =>
    rw [rxLoop]
    rcases hturn : rxTurn g with _ | ⟨g', calls⟩
    · exact hturn
    · exact ih (lt_of_lt_of_le (rank_of_rxTurn hturn) (Nat.le_of_lt_succ hfuel))

/-- **The loop comes to its end**: its turns use up the rank. -/
theorem rxTurn_receive (g : GateWayInfo) (c : List UInt8) : rxTurn (g.receive c).1 = none :=
  rxTurn_rxLoop (Nat.lt_succ_self _)

/-! ## The bytes received

The buffer is never cleared, so it is described by the bytes received and not by all of it. -/

/-- `0xDE`, the size `n`, and `n + 39` further bytes, the last of them `0xCA`. -/
structure WellFormed (frame : List UInt8) : Prop where
  start : frame.getD 0 0 = startOfFrame
  length_eq : frame.length = (frame.getD 1 0).toNat + rxTunnelingOverhead
  end_eq : frame.getD (frame.length - 1) 0 = endOfFrame

/-- The buffer holds the bytes `p`, whatever stands behind them. -/
structure Filled (g : GateWayInfo) (p : List UInt8) : Prop where
  length_eq : g.rxBuffer.length = tcpStreamBufferSize
  size_eq : g.currentRxBufferSize.toNat = p.length
  take_eq : g.rxBuffer.take p.length = p

/-- A frame has at most 296 bytes, as its size is one byte. -/
theorem WellFormed.length_le (h : WellFormed frame) : frame.length ≤ 296 := by
  have hsize := (frame.getD 1 0).toNat_lt
  rw [h.length_eq, rxTunnelingOverhead]
  omega

/-- It has more than 40, so that its size has always come when it is whole. -/
theorem WellFormed.lt_length (h : WellFormed frame) : 40 < frame.length := by
  rw [h.length_eq, rxTunnelingOverhead]
  omega

/-- The bytes received are read where they stand. -/
theorem Filled.getD_eq (h : Filled g p) {i : ℕ} (hi : i < p.length) :
    g.rxBuffer.getD i 0 = p.getD i 0 := by
  rw [← h.take_eq, List.getD_eq_getElem?_getD, List.getD_eq_getElem?_getD,
    List.getElem?_take_of_lt hi]

/-- A copy inside the buffer keeps its length. -/
theorem length_copyAt {i : ℕ} (h : i + bs.length ≤ buf.length) :
    (copyAt buf i bs).length = buf.length := by
  rw [copyAt, List.length_append, List.length_append, List.length_take, List.length_drop]
  omega

/-- What is copied stands behind what was there. -/
theorem take_copyAt {i : ℕ} (h : i ≤ buf.length) :
    (copyAt buf i bs).take (i + bs.length) = buf.take i ++ bs := by
  rw [copyAt, ← List.append_assoc, List.take_left']
  rw [List.length_append, List.length_take_of_le h]

/-- A chunk that fits is copied behind the bytes that are there. -/
theorem Filled.append_eq (h : Filled g p) (hfits : (p ++ c).length ≤ tcpStreamBufferSize) :
    g.append c = { g with
      rxBuffer := copyAt g.rxBuffer p.length c
      currentRxBufferSize := UInt32.ofNat (p ++ c).length } := by
  rw [List.length_append, tcpStreamBufferSize] at hfits
  have hsum : g.currentRxBufferSize + UInt32.ofNat c.length = UInt32.ofNat (p ++ c).length := by
    refine UInt32.toNat_inj.mp ?_
    rw [UInt32.toNat_add, UInt32.toNat_ofNat', UInt32.toNat_ofNat', h.size_eq, List.length_append,
      Nat.add_mod_mod]
  have hnot : ¬tcpStreamBufferSize < (UInt32.ofNat (p ++ c).length).toNat := by
    rw [UInt32.toNat_ofNat', List.length_append, tcpStreamBufferSize]
    omega
  rw [GateWayInfo.append, hsum, if_neg hnot, h.size_eq, hsum]

/-- **What arrives is appended** where it fits. -/
theorem Filled.append (h : Filled g p) (hfits : (p ++ c).length ≤ tcpStreamBufferSize) :
    Filled (g.append c) (p ++ c) := by
  rw [h.append_eq hfits]
  rw [List.length_append] at hfits
  refine ⟨?_, ?_, ?_⟩
  · rw [length_copyAt (by rw [h.length_eq]; exact hfits), h.length_eq]
  · rw [UInt32.toNat_ofNat', List.length_append]
    rw [tcpStreamBufferSize] at hfits
    omega
  · rw [List.length_append, take_copyAt (by rw [h.length_eq]; omega), h.take_eq]

/-- The beginning of a frame, or nothing yet. -/
def Unfinished (q : List UInt8) : Prop := q = [] ∨ ∃ y, y ≠ [] ∧ WellFormed (q ++ y)

/-- The beginning of a frame has at most 296 bytes. -/
theorem Unfinished.length_le (hq : Unfinished q) : q.length ≤ 296 := by
  obtain rfl | ⟨y, -, hwf⟩ := hq
  · exact Nat.zero_le _
  · exact le_trans (by rw [List.length_append]; exact Nat.le_add_right _ _) hwf.length_le

/-- With two bytes or fewer the loop waits. -/
theorem Filled.rxTurn_short (h : Filled g p) (hp : p.length ≤ 2) : rxTurn g = none := by
  rw [rxTurn, h.size_eq, if_pos hp]

/-- **On the beginning of a frame the loop waits**, whatever the bytes of it look like. -/
theorem Filled.rxTurn_unfinished (h : Filled g q) (hq : Unfinished q) : rxTurn g = none := by
  by_cases hshort : q.length ≤ 2
  · exact h.rxTurn_short hshort
  · obtain rfl | ⟨y, hy, hwf⟩ := hq
    · exact absurd (Nat.zero_le 2) hshort
    · have hget : ∀ i < q.length, g.rxBuffer.getD i 0 = (q ++ y).getD i 0 := fun i hi => by
        rw [h.getD_eq hi, List.getD_append _ _ _ _ hi]
      have hwait : q.length < g.rxFrameSize := by
        rw [GateWayInfo.rxFrameSize, hget 1 (by omega), ← hwf.length_eq, List.length_append]
        exact Nat.lt_add_of_pos_right (List.length_pos_iff.mpr hy)
      rw [rxTurn, h.size_eq, if_neg hshort, hget 0 (by omega), if_neg (not_not.mpr hwf.start),
        if_pos hwait]

/-- What is moved to the front fills the buffer. -/
theorem Filled.moveFront (h : Filled g p) {start n : ℕ} (hn : n ≤ tcpStreamBufferSize)
    {g' : GateWayInfo} (hbuf : g'.rxBuffer = moveFront g.rxBuffer start n)
    (hsize : g'.currentRxBufferSize.toNat = n) :
    Filled g' ((List.range n).map fun j => g.rxBuffer.getD (start + j) 0) where
  length_eq := by
    rw [hbuf, LoRaGwSv.moveFront, length_copyAt _, h.length_eq]
    rw [List.length_map, List.length_range, h.length_eq, Nat.zero_add]
    exact hn
  size_eq := by rw [hsize, List.length_map, List.length_range]
  take_eq := by
    rw [hbuf, LoRaGwSv.moveFront, copyAt, List.take_zero, List.nil_append, List.take_left]

/-- **A frame is handed over**, and as many bytes as stand behind it are moved to the front, from
behind all that was received. -/
theorem Filled.rxTurn_frame (h : Filled g (frame ++ q)) (hwf : WellFormed frame) :
    rxTurn g = some (g.remaining, [g.rxBuffer]) ∧
      Filled g.remaining ((List.range q.length).map fun j =>
        g.rxBuffer.getD ((frame ++ q).length + j) 0) := by
  have hlen := hwf.lt_length
  have hle := h.length_eq ▸ List.length_take_le' (frame ++ q).length g.rxBuffer
  rw [h.take_eq, List.length_append] at hle
  have hget : ∀ i < frame.length, g.rxBuffer.getD i 0 = frame.getD i 0 := fun i hi => by
    rw [h.getD_eq (by rw [List.length_append]; omega), List.getD_append _ _ _ _ hi]
  have hsize : g.rxFrameSize = frame.length := by
    rw [GateWayInfo.rxFrameSize, hget 1 (by omega), hwf.length_eq]
  have hrest : g.currentRxBufferSize.toNat - g.rxFrameSize = q.length := by
    rw [h.size_eq, hsize, List.length_append, Nat.add_sub_cancel_left]
  constructor
  · rw [rxTurn, h.size_eq, hsize, List.length_append, if_neg (by omega), hget 0 (by omega),
      if_neg (not_not.mpr hwf.start), if_neg (by omega), hget _ (by omega), if_pos hwf.end_eq]
  · refine h.moveFront (by omega) ?_ ?_
    · rw [GateWayInfo.remaining, hrest, ← h.size_eq]
    · rw [GateWayInfo.remaining, toNat_ofNat_sub, hrest]

/-- A chunk that does not complete a frame is kept, and nothing is handed over. -/
theorem GateWayInfo.receive_unfinished (h : Filled g p) (hpc : Unfinished (p ++ c))
    (hfits : (p ++ c).length ≤ tcpStreamBufferSize) : g.receive c = (g.append c, []) :=
  rxLoop_of_none ((h.append hfits).rxTurn_unfinished hpc) _

/-- A chunk that ends where a frame ends hands that frame over, and leaves the buffer empty. -/
theorem GateWayInfo.receive_whole (h : Filled g p) (hwf : WellFormed (p ++ c)) :
    ∃ g', g.receive c = (g', [(g.append c).rxBuffer]) ∧ Filled g' [] ∧ g'.socket = g.socket := by
  have hfits : (p ++ c).length ≤ tcpStreamBufferSize :=
    le_trans hwf.length_le (by decide)
  have hfill := h.append hfits
  rw [← List.append_nil (p ++ c)] at hfill
  obtain ⟨hturn, hrest⟩ := hfill.rxTurn_frame hwf
  refine ⟨(g.append c).remaining, ?_, hrest, rfl⟩
  rw [receive, rxLoop_of_some hturn, rxLoop_of_none (hrest.rxTurn_unfinished (Or.inl rfl))]
  rfl

/-! ## The frames of a stream -/

/-- Where a frame ends a chunk ends: no chunk goes on behind the end of a frame. -/
def EndChunks (frames chunks : List (List UInt8)) : Prop :=
  ∀ done, done <+: frames → ∃ got, got <+: chunks ∧ got.flatten = done.flatten

/-- **Each frame is handed over once, in order**, at the start of the buffer. -/
def HandedOver (gwSocket : ℤ) (frames : List (List UInt8)) (calls : List (List UInt8 × ℤ)) : Prop :=
  List.Forall₂ (fun frame call => call.1.take frame.length = frame ∧ call.2 = gwSocket) frames calls

/-- The gateway a chunk comes from keeps its place among the others. -/
theorem receiveFrameFromLoRaGW_eq (hg : findGateWay s gwSocket = some g) (c : List UInt8) :
    ∃ s', receiveFrameFromLoRaGW s c gwSocket = (s', (g.receive c).2.map (·, gwSocket)) ∧
      ((g.receive c).1.socket = g.socket → findGateWay s' gwSocket = some (g.receive c).1) := by
  refine ⟨_, by rw [receiveFrameFromLoRaGW, hg], fun hsocket => ?_⟩
  have hkey : g.socket = gwSocket := Keyed.key_of_lookup hg
  rw [findGateWay, Keyed.lookup_update fun _ _ => hsocket.trans hkey, if_pos rfl,
    show Keyed.lookup GateWayInfo.socket gwSocket s.gateWays = some g from hg, Option.map_some]

/-- **From a gateway that has begun to send a frame**, its frames are handed over one by one. -/
theorem handedOver_of_aligned (hwf : ∀ frame ∈ frames, WellFormed frame)
    (h : Framing.Aligned p frames chunks) (hg : findGateWay s gwSocket = some g)
    (hfill : Filled g p) : HandedOver gwSocket frames (receiveAll gwSocket chunks s).2 := by
  induction chunks generalizing s g p frames with
  | nil =>
    rw [h.eq_nil]
    exact List.Forall₂.nil
  | cons c chunks ih =>
    obtain ⟨s', hcall, hfound⟩ := receiveFrameFromLoRaGW_eq hg c
    rw [receiveAll, hcall]
    have hne : ∀ frame ∈ frames, frame ≠ [] := fun frame hframe =>
      List.length_pos_iff.mp (lt_trans (by decide) (hwf frame hframe).lt_length)
    rcases h.cons hne with ⟨halign, hrest⟩ | ⟨frames', rfl, halign⟩
    · -- the frame goes on
      have hunf : Unfinished (p ++ c) := by
        refine hrest.imp_right ?_
        rintro ⟨y, hy, hmem⟩
        exact ⟨y, hy, hwf _ hmem⟩
      have hfits : (p ++ c).length ≤ tcpStreamBufferSize := le_trans hunf.length_le (by decide)
      rw [GateWayInfo.receive_unfinished hfill hunf hfits] at hfound ⊢
      exact ih hwf halign (hfound rfl) (hfill.append hfits)
    · -- the frame ends
      obtain ⟨hframe, hwf'⟩ := List.forall_mem_cons.mp hwf
      obtain ⟨g', hreceive, hfill', hsocket⟩ := GateWayInfo.receive_whole hfill hframe
      rw [hreceive] at hfound ⊢
      refine List.Forall₂.cons ⟨?_, rfl⟩ (ih hwf' halign (hfound hsocket) hfill')
      exact (hfill.append (le_trans hframe.length_le (by decide))).take_eq

/-- **The frames of a stream are handed over one by one**, however they are cut into chunks, as long
as no chunk goes on behind the end of a frame. -/
theorem receiveAll_frames (frames chunks : List (List UInt8)) (s : Devices) (gwSocket : ℤ)
    (g : GateWayInfo) (hwf : ∀ frame ∈ frames, WellFormed frame)
    (hstream : chunks.flatten = frames.flatten) (hg : findGateWay s gwSocket = some g)
    (hlen : g.rxBuffer.length = tcpStreamBufferSize) (hempty : g.currentRxBufferSize = 0)
    (hends : EndChunks frames chunks) :
    HandedOver gwSocket frames (receiveAll gwSocket chunks s).2 := by
  have halign : Framing.Aligned [] frames chunks :=
    ⟨hstream, fun done hdone _ => hends done hdone, fun frame hframe =>
      lt_trans (by decide) (hwf frame (List.mem_of_mem_head? hframe)).lt_length⟩
  exact handedOver_of_aligned hwf halign hg ⟨hlen, by rw [hempty]; rfl, rfl⟩

/-- A frame of `n` bytes of LoRa data, all bytes between its markers but the size being 0. -/
def zeroFrame (n : UInt8) : List UInt8 :=
  startOfFrame :: n :: (List.replicate (n.toNat + 38) 0 ++ [endOfFrame])

theorem wellFormed_zeroFrame (n : UInt8) : WellFormed (zeroFrame n) where
  start := rfl
  length_eq := by
    rw [zeroFrame, List.length_cons, List.length_cons, List.length_append, List.length_replicate]
    rfl
  end_eq := by
    have hlen : (zeroFrame n).length - 1 = n.toNat + 38 + 2 := by
      rw [zeroFrame, List.length_cons, List.length_cons, List.length_append, List.length_replicate]
      rfl
    rw [hlen, zeroFrame, List.getD_cons_succ, List.getD_cons_succ,
      List.getD_append_right _ _ _ _ (by rw [List.length_replicate]), List.length_replicate,
      Nat.sub_self, List.getD_cons_zero]

/-- A gateway that has just connected. -/
def justConnected : Devices := addGateWay initDevices 5

/-- Two frames, the first cut inside. -/
theorem receiveAll_frames_two :
    HandedOver 5 [zeroFrame 0, zeroFrame 3]
      (receiveAll 5 [(zeroFrame 0).take 7, (zeroFrame 0).drop 7, zeroFrame 3] justConnected).2 := by
  refine receiveAll_frames [zeroFrame 0, zeroFrame 3]
    [(zeroFrame 0).take 7, (zeroFrame 0).drop 7, zeroFrame 3] justConnected 5 (newGateWay 5)
    ?_ (by decide) rfl List.length_replicate rfl ?_
  · rw [List.forall_mem_cons, List.forall_mem_singleton]
    exact ⟨wellFormed_zeroFrame 0, wellFormed_zeroFrame 3⟩
  · intro done hdone
    rw [← List.mem_inits] at hdone
    simp only [List.inits, List.map_cons, List.map_nil, List.mem_cons, List.not_mem_nil,
      or_false] at hdone
    rcases hdone with rfl | rfl | rfl
    · exact ⟨[], List.nil_prefix, rfl⟩
    · exact ⟨[(zeroFrame 0).take 7, (zeroFrame 0).drop 7], ⟨[zeroFrame 3], rfl⟩, by decide⟩
    · exact ⟨_, List.prefix_rfl, by decide⟩

/-- Two frames that arrive together. -/
theorem not_handedOver_together :
    ¬HandedOver 5 [zeroFrame 0, zeroFrame 3]
      (receiveAll 5 [zeroFrame 0 ++ zeroFrame 3] justConnected).2 := by
  intro h
  exact absurd h.length_eq (by decide +kernel)

/-! ## What a chunk carries behind a frame -/

/-- Where no byte starts a frame, all bytes are given up. -/
theorem Filled.rxTurn_zeros {k : ℕ} (h : Filled g (List.replicate k 0)) (hk : 2 < k) :
    rxTurn g = some ({ g with currentRxBufferSize := 0 }, []) := by
  have hsize : g.currentRxBufferSize.toNat = k := by rw [h.size_eq, List.length_replicate]
  have hget : ∀ i < k, g.rxBuffer.getD i 0 = 0 := fun i hi => by
    rw [h.getD_eq (by rw [List.length_replicate]; exact hi), List.getD_replicate _ hi]
  have hnone : (List.range k).find? (fun loopCnt =>
      g.rxBuffer.getD loopCnt 0 = startOfFrame) = none := by
    rw [List.find?_eq_none]
    intro i hi
    rw [hget i (List.mem_range.mp hi)]
    decide
  have hclear : g.findStart = { g with currentRxBufferSize := 0 } := by
    rw [GateWayInfo.findStart, hsize, hnone]
    rfl
  rw [rxTurn, hsize, if_neg (not_le.mpr hk), hget 0 (by omega), if_pos (by decide), hclear]

/-- **What a chunk carries behind a frame is lost** on a gateway that has just connected: zeros are
moved to the front in its place, and those are not even kept. -/
theorem receive_rest_lost (hzero : g.rxBuffer = List.replicate tcpStreamBufferSize 0)
    (hempty : g.currentRxBufferSize = 0) (hwf : WellFormed frame)
    (hfits : (frame ++ q).length ≤ tcpStreamBufferSize) :
    ∃ k ≤ 2, Filled (g.receive (frame ++ q)).1 (List.replicate k 0) ∧
      (g.receive (frame ++ q)).2 = [(g.append (frame ++ q)).rxBuffer] := by
  have hnew : Filled g [] := ⟨by rw [hzero, List.length_replicate], by rw [hempty]; rfl, rfl⟩
  have hfill : Filled (g.append (frame ++ q)) (frame ++ q) := hnew.append hfits
  obtain ⟨hturn, hmoved⟩ := hfill.rxTurn_frame hwf
  have hzeros : ((List.range q.length).map fun j =>
      (g.append (frame ++ q)).rxBuffer.getD ((frame ++ q).length + j) 0)
      = List.replicate q.length 0 := by
    rw [List.eq_replicate_iff, List.length_map, List.length_range, List.forall_mem_map]
    refine ⟨rfl, fun j _ => ?_⟩
    rw [@Filled.append_eq g [] (frame ++ q) hnew hfits, copyAt, hzero, List.length_nil,
      List.take_zero, List.nil_append, List.getD_append_right _ _ _ _ (Nat.le_add_right _ _),
      List.drop_replicate, List.getD_eq_getElem?_getD, List.getElem?_replicate]
    split_ifs <;> rfl
  rw [hzeros] at hmoved
  rw [GateWayInfo.receive, rxLoop_of_some hturn]
  by_cases hshort : q.length ≤ 2
  · refine ⟨q.length, hshort, ?_⟩
    rw [rxLoop_of_none (hmoved.rxTurn_short (by rwa [List.length_replicate]))]
    exact ⟨hmoved, rfl⟩
  · obtain ⟨fuel, hfuel⟩ := Nat.exists_eq_add_one_of_ne_zero
      (Nat.ne_of_gt (lt_of_le_of_lt (Nat.zero_le _) (rank_of_rxTurn hturn)))
    have hgone : Filled { (g.append (frame ++ q)).remaining with currentRxBufferSize := 0 } [] :=
      ⟨hmoved.length_eq, rfl, rfl⟩
    refine ⟨0, Nat.zero_le 2, ?_⟩
    rw [hfuel, rxLoop_of_some (hmoved.rxTurn_zeros (not_le.mp hshort)),
      rxLoop_of_none (hgone.rxTurn_unfinished (Or.inl rfl))]
    exact ⟨hgone, rfl⟩

end LoRaGwSv
