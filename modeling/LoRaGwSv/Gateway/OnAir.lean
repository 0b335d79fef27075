import LoRaGwSv.Gateway.Airtime
import LoRaGwSv.Gateway.RoundTrip
import LoRaGwSv.Gateway.TimeOnAir

/-!
# Gateway/OnAir — packets on air, from the datagrams that are received

Whatever bytes arrive, `thread_down` makes LoRa packets of them that `lgw_send` takes if they are
not too long, and **the queue keeps those that wait in it apart on air** (`airFree_run`), as long as
their times are normalised and their preambles not too short: what is cut off of the time on air the
margin of the collision test makes up for, so that all of the time a packet needs to be started is
left before it.  **The frequency is the one that the server sends on**, to the hertz
(`frequency_exact`), though it goes through megahertz in floating point.
-/

namespace LoRaGwSv

open Binary64

/-- The number of the datagram as a `double`, times that of a megahertz. -/
def freqHzOf (x : ℚ) : UInt32 := UInt32.ofNat (truncate (mul 1000000 (rounded x))).toNat

/-- In megahertz the frequency has the leading bit that it has in units of 2^20 Hz.  Those that have
not are from 64 to 67, from 128 to 134, from 256 to 268 and from 512 to 537 MHz, and so on. -/
def InBand (freq : UInt32) : Prop :=
  ∃ k : ℕ, 2 ^ (k + 20) < freq.toNat ∧ freq.toNat < 2 ^ (k + 1) * 10 ^ 6

/-- The queue is linked with the time on air of the driver. -/
def JitLibs.OnAir (libs : JitLibs) (fsk_sync_word_size : UInt8) : Prop :=
  ∀ packet : LgwPktTx, packet.Sendable →
    lgwTimeOnAir fsk_sync_word_size packet = some (libs.lgw_time_on_air packet)

/-- What is enqueued has been made of a datagram, of whatever bytes, with a normalised time, a size
that `lgw_send` takes and a preamble that it leaves as it is. -/
def JitOp.Received (cfg : DownConfig) : JitOp → Prop
  | .enqueue time packet _ => time.Normalised ∧ packet.size ≤ 255 ∧ 6 ≤ packet.preamble ∧
      ∃ buff_down, threadDown cfg buff_down = .ok (time, packet)
  | .peek => True
  | .dequeue => True

/-- A LoRa packet as `lgw_send` sends it: a preamble of none is the standard one, and one that is
too short is made longer. -/
def LgwPktTx.asSent (packet : LgwPktTx) : LgwPktTx :=
  { packet with
    preamble :=
      if packet.preamble = 0 then 8 else if packet.preamble < 6 then 6 else packet.preamble }

/-- **Before a packet has to be started the one before it is off the air.** -/
def JitQueue.AirFree (queue : JitQueue) (fsk_sync_word_size : UInt8) : Prop :=
  ∀ i j p q, i < queue.num_pkt.toNat → j < queue.num_pkt.toNat → i ≠ j →
    queue.nodes[i]? = some p → queue.nodes[j]? = some q →
    p.tx_timestamp.micros ≤ q.tx_timestamp.micros →
    p.tx_timestamp.micros + 1000 * p.pkt.asSent.airtime fsk_sync_word_size
      < q.tx_timestamp.micros - q.pre_delay.toNat

/-- A node whose packet can be sent, with its time on air as `jit_enqueue` fills it in. -/
structure JitNode.Timed (libs : JitLibs) (node : JitNode) : Prop where
  sendable : node.pkt.Sendable
  preamble_le : 6 ≤ node.pkt.preamble
  post_delay_eq : node.post_delay = libs.lgw_time_on_air node.pkt * 1000

variable {libs : JitLibs} {clock : Clock} {cfg : DownConfig} {fsk_sync_word_size : UInt8}
  {queue : JitQueue} {l l' : List JitNode} {s : JitState} {op : JitOp}

/-! ## What `thread_down` makes of a datagram

Each field of the radio is taken from a table, so it is one that `lgw_send` knows, or the datagram
is refused. -/

/-- A result comes of a step that has one. -/
theorem bind_eq_ok {α β : Type} {o : Except DownError α} {f : α → Except DownError β} {b : β}
    (h : o >>= f = .ok b) : ∃ a, o = .ok a ∧ f a = .ok b := by
  cases ho : o with
  | error e =>
    rw [ho] at h
    cases h
  | ok a =>
    rw [ho] at h
    exact ⟨a, rfl, h⟩

theorem orAbort_eq_ok {α : Type} {o : Option α} {e : DownError} {a : α}
    (h : orAbort o e = .ok a) : o = some a := by
  cases o with
  | none => cases h
  | some a' => exact congrArg some (Except.ok.inj h)

/-- A data rate that is accepted is one of LoRa. -/
theorem datarateOf_mem {x0 : ℤ} {d : UInt32} (h : datarateOf x0 = some d) :
    d ∈ [drLoraSf7, drLoraSf8, drLoraSf9, drLoraSf10, drLoraSf11, drLoraSf12] := by
  simp only [datarateOf] at h
  split_ifs at h <;> obtain rfl := Option.some.inj h <;> decide

theorem bandwidthOf_mem {x1 : ℤ} {b : UInt8} (h : bandwidthOf x1 = some b) :
    b ∈ [bw125Khz, bw250Khz, bw500Khz] := by
  simp only [bandwidthOf] at h
  split_ifs at h <;> obtain rfl := Option.some.inj h <;> decide

theorem coderateOf_mem {str : List UInt8} {c : UInt8} (h : coderateOf str = some c) :
    c ∈ [crLora45, crLora46, crLora47, crLora48] := by
  simp only [coderateOf] at h
  split_ifs at h <;> obtain rfl := Option.some.inj h <;> decide

/-- With a size that is not too long, the packet is one that `lgw_send` takes. -/
theorem parseModulation_loraSendable {txpk_obj : List (List UInt8 × Json)} {modu : List UInt8}
    {txpkt packet : LgwPktTx} (h : parseModulation txpk_obj modu txpkt = .ok packet)
    {size : UInt16} (hsize : size ≤ 255) (payload : Vector UInt8 256) (tx_mode : UInt8) :
    LgwPktTx.LoraSendable
      { packet with size := size, payload := payload, tx_mode := tx_mode } := by
  rw [parseModulation] at h
  split_ifs at h
  obtain ⟨datr, -, h⟩ := bind_eq_ok h
  obtain ⟨⟨x0, x1⟩, -, h⟩ := bind_eq_ok h
  obtain ⟨datarate, hdatarate, h⟩ := bind_eq_ok h
  obtain ⟨bandwidth, hbandwidth, h⟩ := bind_eq_ok h
  obtain ⟨codr, -, h⟩ := bind_eq_ok h
  obtain ⟨coderate, hcoderate, h⟩ := bind_eq_ok h
  obtain rfl := Except.ok.inj h
  exact ⟨rfl, bandwidthOf_mem (orAbort_eq_ok hbandwidth),
    datarateOf_mem (orAbort_eq_ok hdatarate), coderateOf_mem (orAbort_eq_ok hcoderate), hsize⟩

/-- **Whatever a datagram holds, the packet is one that `lgw_send` takes** if it is not too long. -/
theorem threadDown_loraSendable {buff_down : List UInt8} {t : Timeval} {packet : LgwPktTx}
    (h : threadDown cfg buff_down = .ok (t, packet)) (hsize : packet.size ≤ 255) :
    packet.LoraSendable := by
  rw [threadDown] at h
  split_ifs at h
  obtain ⟨root_val, -, h⟩ := bind_eq_ok h
  obtain ⟨txpk_obj, -, h⟩ := bind_eq_ok h
  obtain ⟨tm_s, -, h⟩ := bind_eq_ok h
  obtain ⟨tm_us, -, h⟩ := bind_eq_ok h
  obtain ⟨freq, -, h⟩ := bind_eq_ok h
  obtain ⟨rfch, -, h⟩ := bind_eq_ok h
  obtain ⟨modu, -, h⟩ := bind_eq_ok h
  obtain ⟨txpkt, htxpkt, h⟩ := bind_eq_ok h
  obtain ⟨size, -, h⟩ := bind_eq_ok h
  obtain ⟨data, -, h⟩ := bind_eq_ok h
  obtain ⟨payload, -, h⟩ := bind_eq_ok h
  obtain ⟨-, rfl⟩ := Prod.mk.inj (Except.ok.inj h)
  exact parseModulation_loraSendable htxpkt hsize _ _

/-- What comes of the datagram of an admitted message. -/
theorem DownlinkMsg.Admitted.received {m : DownlinkMsg} (hm : m.Admitted)
    (hpol : m.invert_pol = false) (cfg : DownConfig) (buff_down : ℕ → UInt8)
    (token_h token_l : UInt8) :
    ∃ d, LoRaGwSv.threadDownstream buff_down token_h token_l m = some d ∧
      threadDown cfg d = .ok (m.msg_tx_time, m.packet cfg) := by
  obtain ⟨sf, bw, cr, h⟩ := hm.texts
  have hparse := hm.parseTxpk h cfg []
  rw [List.append_nil, hpol] at hparse
  refine ⟨_, hm.threadDownstream_eq h hpol, ?_⟩
  have hopen := length_txpkOpen m sf bw cr
  rw [threadDown_downlink, hparse]
  rw [objectText_txpkField, List.length_append]
  omega

/-! ## The queue

The collision test works with the time on air in whole milliseconds, so with up to one millisecond
too little, and adds a margin of one. -/

/-- **What a call leaves in the queue** was there before, or is what it has enqueued. -/
theorem holds_step (h : s.queue.Holds l) (op : JitOp) :
    ∃ t l', op.step libs clock s = some t ∧ t.queue.Holds l' ∧ ∀ node ∈ l', node ∈ l ∨
      ∃ time packet pkt_type, op = .enqueue time packet pkt_type ∧
        node = newNode libs time packet pkt_type := by
  cases op with
  | enqueue time packet pkt_type =>
    rw [JitOp.step]
    split
    case isTrue => exact ⟨s, l, rfl, h, fun node hnode => Or.inl hnode⟩
    case isFalse hfull =>
      rw [h.jitQueueIsFull_iff] at hfull
      obtain ⟨err, queue', ticks', henqueue, -, hqueue'⟩ := @JitQueue.Holds.jitEnqueue libs clock
        _ _ h (lt_of_le_of_ne h.length_le hfull) time packet pkt_type s.ticks
      rw [henqueue]
      obtain rfl | ⟨l', hholds, hperm, -⟩ := hqueue'
      · exact ⟨_, l, rfl, h, fun node hnode => Or.inl hnode⟩
      · refine ⟨_, l', rfl, hholds, fun node hnode => ?_⟩
        rcases List.mem_cons.mp (hperm.mem_iff.mp hnode) with rfl | hnode
        · exact Or.inr ⟨time, packet, pkt_type, rfl, rfl⟩
        · exact Or.inl hnode
  | peek =>
    rw [JitOp.step]
    split
    case isTrue => exact ⟨s, l, rfl, h, fun node hnode => Or.inl hnode⟩
    case isFalse =>
      obtain ⟨queue', ticks', l', dropped, hpurge, hholds, hperm, -⟩ :=
        @JitQueue.Holds.jitPurge libs clock _ _ 0 h (Nat.zero_le 1) s.ticks
      rw [jitPeek, h.num_eq, hpurge]
      exact ⟨_, l', rfl, hholds, fun node hnode =>
        Or.inl (hperm.mem_iff.mpr (List.mem_append_right _ hnode))⟩
  | dequeue =>
    rw [JitOp.step]
    split
    case isTrue => exact ⟨s, l, rfl, h, fun node hnode => Or.inl hnode⟩
    case isFalse hempty =>
      rw [h.jitQueueIsEmpty_iff] at hempty
      obtain ⟨queue', l', hqueue', hholds, hperm⟩ :=
        @JitQueue.Holds.jitReplaceNode libs _ _ _ h (List.length_pos_iff.mpr hempty)
      rw [jitDequeue, hqueue']
      exact ⟨_, l', rfl, hholds, fun node hnode =>
        Or.inl (List.mem_of_mem_eraseIdx (hperm.mem_iff.mp hnode))⟩

/-- `lgw_send` leaves a preamble of six symbols or more. -/
theorem asSent_eq {packet : LgwPktTx} (h : 6 ≤ packet.preamble) : packet.asSent = packet := by
  have hpos : packet.preamble ≠ 0 := by
    rintro h0
    rw [h0] at h
    exact absurd h (by decide)
  rw [LgwPktTx.asSent, if_neg hpos, if_neg (UInt16.not_lt.mpr h)]

/-- **The margin makes up for what is cut off of the time on air.** -/
theorem JitQueue.Spaced.airFree (h : queue.Spaced l) (htimed : ∀ node ∈ l, node.Timed libs)
    (hlibs : libs.OnAir fsk_sync_word_size) : queue.AirFree fsk_sync_word_size := by
  intro i j p q hi hj hij hp hq hle
  have hmem : p ∈ l := by
    rw [← h.holds.take_nodes]
    exact List.mem_of_getElem? ((List.getElem?_take_of_lt hi).trans hp)
  have hgap := h.noOverlap.apart i j p q hi hj hij hp hq hle
  rw [asSent_eq (htimed p hmem).preamble_le]
  obtain ⟨t, ht, hair, hlt⟩ := (htimed p hmem).sendable.exists_time fsk_sync_word_size
  have hcomputed : libs.lgw_time_on_air p.pkt = t :=
    Option.some.inj ((hlibs p.pkt (htimed p hmem).sendable).symm.trans ht)
  have hpost : p.post_delay.toNat = t.toNat * 1000 := by
    rw [(htimed p hmem).post_delay_eq, hcomputed, UInt32.toNat_mul,
      show (1000 : UInt32).toNat = 1000 from rfl]
    omega
  rw [hpost] at hgap
  have hcast : ((q.pre_delay.toNat + (t.toNat * 1000 : ℕ) + 1000 : ℤ) : ℚ)
      < (q.tx_timestamp.micros - p.tx_timestamp.micros : ℤ) := Int.cast_lt.mpr hgap
  push_cast at hcast
  linarith

/-- What the driver tells is short enough. -/
theorem JitOp.Received.brief (h : op.Received cfg) (hlibs : libs.OnAir fsk_sync_word_size) :
    op.Brief libs := by
  cases op with
  | enqueue time packet pkt_type =>
    obtain ⟨-, hsize, -, buff_down, hdown⟩ := h
    have hsendable : packet.Sendable := Or.inl (threadDown_loraSendable hdown hsize)
    obtain ⟨t, ht, -, hlt⟩ := hsendable.exists_time fsk_sync_word_size
    rw [hlibs packet hsendable, Option.some_inj] at ht
    rwa [JitOp.Brief, ht]
  | peek => trivial
  | dequeue => trivial

/-- Each call keeps the packets apart, with their times on air. -/
theorem JitQueue.Spaced.step_timed (h : s.queue.Spaced l) (htimed : ∀ node ∈ l, node.Timed libs)
    (hlibs : libs.OnAir fsk_sync_word_size) (hop : op.Received cfg) :
    ∃ t, op.step libs clock s = some t ∧
      ∃ l', t.queue.Spaced l' ∧ ∀ node ∈ l', node.Timed libs := by
  have hnormalised : op.Normalised := by
    cases op with
    | enqueue time packet pkt_type => exact hop.1
    | peek => trivial
    | dequeue => trivial
  obtain ⟨t, ht, l', hspaced⟩ :=
    @JitQueue.Spaced.step libs clock _ _ h _ hnormalised (hop.brief hlibs)
  obtain ⟨t', l'', ht', hholds, hnodes⟩ := @holds_step libs clock _ _ h.holds op
  obtain rfl : t = t' := Option.some.inj (ht.symm.trans ht')
  obtain rfl : l' = l'' := hspaced.holds.take_nodes.symm.trans hholds.take_nodes
  refine ⟨t, ht, l', hspaced, fun node hnode => ?_⟩
  rcases hnodes node hnode with hold | ⟨time, packet, pkt_type, rfl, rfl⟩
  · exact htimed node hold
  · obtain ⟨-, hsize, hpreamble, buff_down, hdown⟩ := hop
    exact ⟨Or.inl (threadDown_loraSendable hdown hsize), hpreamble, rfl⟩

/-- **Packets that wait together are never on air at one time**: in every state of the queue each is
off the air before the next one has to be started. -/
theorem airFree_run (fsk_sync_word_size : UInt8) (cfg : DownConfig) (libs : JitLibs)
    (clock : Clock) (hlibs : libs.OnAir fsk_sync_word_size) (ops : List JitOp)
    (hops : ∀ op ∈ ops, op.Received cfg) :
    Runs.Always (JitOp.step libs clock) (fun s => s.queue.AirFree fsk_sync_word_size)
      JitState.init ops := by
  have hstep : ∀ s op,
      (∃ l, JitQueue.Spaced (JitState.queue s) l ∧ ∀ node ∈ l, node.Timed libs) →
      JitOp.Received cfg op → ∃ t, JitOp.step libs clock s op = some t ∧
        ∃ l, t.queue.Spaced l ∧ ∀ node ∈ l, node.Timed libs := by
    rintro s op ⟨l, h, htimed⟩ hop
    exact h.step_timed htimed hlibs hop
  refine (Runs.always_of_inv hstep ⟨[], spaced_jitQueueInit, by simp⟩ ops hops).imp ?_
  rintro s ⟨l, h, htimed⟩
  exact h.airFree htimed hlibs

/-- The driver, with a time on air of 0 where that of the driver is undefined. -/
def halLibs (fsk_sync_word_size : UInt8) : JitLibs :=
  { someLibs with
    lgw_time_on_air := fun packet => (lgwTimeOnAir fsk_sync_word_size packet).getD 0 }

/-- The library computes the time on air as the HAL does. -/
theorem onAir_halLibs (fsk_sync_word_size : UInt8) :
    (halLibs fsk_sync_word_size).OnAir fsk_sync_word_size := by
  intro packet hpacket
  obtain ⟨t, ht, -⟩ := hpacket.exists_time fsk_sync_word_size
  rw [halLibs]
  dsimp only
  rw [ht, Option.getD_some]

/-- The same message, half a second later. -/
def threeBytesLater : DownlinkMsg := { threeBytes with msg_tx_time := ⟨1500000000, 750000⟩ }

theorem admitted_threeBytesLater : threeBytesLater.Admitted :=
  { admitted_threeBytes with
    normalised := by decide
    tv_sec_nonneg := by decide
    tv_sec_lt := by decide }

/-- What a server has composed is received as the packet of the message. -/
theorem received_enqueue {m : DownlinkMsg} (hm : m.Admitted) (hpol : m.invert_pol = false) :
    (JitOp.enqueue m.msg_tx_time (m.packet cfg) .downlink).Received cfg := by
  obtain ⟨d, -, hok⟩ := hm.received hpol cfg (fun _ => 0) 7 9
  exact ⟨hm.normalised, hm.size_le, hm.preamble, d, hok⟩

/-- Two packets let in before their times, and a peek. -/
theorem airFree_run_two :
    Runs.Always (JitOp.step (halLibs 3) (.fixed ⟨1500000000, 0⟩ (by decide)))
      (fun s => s.queue.AirFree 3) JitState.init
      [.enqueue threeBytesLater.msg_tx_time (threeBytesLater.packet ⟨freqHzOf, 0⟩) .downlink,
        .enqueue threeBytes.msg_tx_time (threeBytes.packet ⟨freqHzOf, 0⟩) .downlink, .peek] := by
  refine airFree_run 3 ⟨freqHzOf, 0⟩ (halLibs 3) _ (onAir_halLibs 3) _ ?_
  intro op hop
  rw [List.mem_cons, List.mem_cons, List.mem_singleton] at hop
  rcases hop with rfl | rfl | rfl
  · exact received_enqueue admitted_threeBytesLater rfl
  · exact received_enqueue admitted_threeBytes rfl
  · trivial

/-! ## The frequency

The server prints hertz as megahertz with six decimals.  The gateway reads a `double`, multiplies it
by a million and cuts it off.  Each of the two operations rounds, and the product must not fall
below the integer it stands for. -/

/-- A bit in megahertz comes to less than one in hertz. -/
theorem mul_rounded_megahertz {f k : ℕ} (hlow : 2 ^ (k + 20) < f) (hhigh : f < 2 ^ (k + 1) * 10 ^ 6)
    (hk : k < 12) : mul 1000000 (rounded ((f : ℚ) / 1000000)) = f := by
  have hlow' : (2 : ℚ) ^ k * 2 ^ 20 < f := by
    rw [← pow_add]
    exact_mod_cast hlow
  have hhigh' : (f : ℚ) < 2 ^ k * 2 * 10 ^ 6 := by
    rw [← pow_succ]
    exact_mod_cast hhigh
  have hpos : (0 : ℚ) < 2 ^ k := by positivity
  have hzpow : ∀ s : ℤ, (2 : ℚ) ^ ((k : ℤ) + s) = 2 ^ k * 2 ^ s := fun s => by
    rw [zpow_add₀ two_ne_zero, zpow_natCast]
  have hexp : exponent ((f : ℚ) / 1000000) = k + -52 := by
    have hf : (0 : ℚ) < f / 1000000 := div_pos (by linarith) (by norm_num)
    refine exponent_eq ?_ ?_
    · rw [abs_of_pos hf, add_assoc, hzpow, le_div_iff₀ (by norm_num)]
      norm_num
      linarith
    · rw [abs_of_pos hf, add_assoc, hzpow, div_lt_iff₀ (by norm_num)]
      norm_num
      linarith
  have hbits : (f : ℚ) = ((f * 2 ^ (32 - k) : ℕ) : ℤ) * 2 ^ ((k : ℤ) + -32) := by
    rw [show (k : ℤ) + -32 = -((32 - k : ℕ) : ℤ) by omega, zpow_neg, zpow_natCast]
    push_cast
    rw [mul_assoc, mul_inv_cancel₀ (by positivity), mul_one]
  refine mul_rounded_div (by norm_num) hbits ?_ ?_ ?_
  · rw [add_assoc, hzpow]
    norm_num
    linarith
  · rw [add_assoc, hzpow]
    norm_num
    linarith
  · rw [hexp, hzpow, hzpow]
    norm_num
    linarith

/-- **A frequency comes back from megahertz as it was.** -/
theorem freqHzOf_eq {freq : UInt32} (h : InBand freq) : freqHzOf (freq.toNat / 10 ^ 6) = freq := by
  obtain ⟨k, hlow, hhigh⟩ := h
  have hk : k < 12 := by
    have hlt := hlow.trans freq.toNat_lt
    have := (Nat.pow_lt_pow_iff_right (a := 2) (by decide)).mp hlt
    omega
  rw [freqHzOf, show (10 : ℚ) ^ 6 = 1000000 by norm_num, mul_rounded_megahertz hlow hhigh hk,
    truncate_natCast, Int.toNat_natCast, UInt32.ofNat_toNat]

/-- Out of these bands a hertz may be lost. -/
theorem freqHzOf_outOfBand : freqHzOf ((512300000 : ℕ) / 10 ^ 6) = 512299999 := by
  set x : ℚ := (512300000 : ℕ) / 10 ^ 6 with hx
  have hroundx : rounded x = (4506238455277158 : ℤ) * 2 ^ (-43 : ℤ) := by
    refine rounded_eq_of_le_of_lt ?_ ?_ ?_
    · norm_num [hx, abs_of_pos]
    · norm_num [hx, abs_of_pos]
    · rw [abs_lt]
      constructor <;> norm_num [hx]
  set y : ℚ := 1000000 * ((4506238455277158 : ℤ) * 2 ^ (-43 : ℤ)) with hy
  have hroundy : rounded y = (8594967756799999 : ℤ) * 2 ^ (-24 : ℤ) := by
    refine rounded_eq_of_le_of_lt ?_ ?_ ?_
    · norm_num [hy, abs_of_pos]
    · norm_num [hy, abs_of_pos]
    · rw [abs_lt]
      constructor <;> norm_num [hy]
  have hfloor : ⌊rounded y⌋ = 512299999 := by
    rw [hroundy, Int.floor_eq_iff]
    constructor <;> norm_num
  rw [freqHzOf, hroundx, mul, truncate_eq_floor, hfloor]
  · rfl
  · rw [hroundy]
    positivity

/-- **A packet is sent on the frequency of its message**, to the hertz. -/
theorem frequency_exact (m : DownlinkMsg) (hm : m.Admitted) (hpol : m.invert_pol = false)
    (hband : InBand m.freq) (antenna_gain : Int8) (buff_down : ℕ → UInt8)
    (token_h token_l : UInt8) :
    ∃ d t packet, threadDownstream buff_down token_h token_l m = some d ∧
      threadDown ⟨freqHzOf, antenna_gain⟩ d = .ok (t, packet) ∧ packet.freq_hz = m.freq := by
  obtain ⟨d, hd, hok⟩ := hm.received hpol ⟨freqHzOf, antenna_gain⟩ buff_down token_h token_l
  exact ⟨d, _, _, hd, hok, freqHzOf_eq hband⟩

/-- The channel at 922.1 MHz. -/
theorem frequency_exact_threeBytes : ∃ d t packet,
    threadDownstream (fun _ => 0) 7 9 threeBytes = some d ∧
      threadDown ⟨freqHzOf, 0⟩ d = .ok (t, packet) ∧ packet.freq_hz = 922100000 :=
  frequency_exact threeBytes admitted_threeBytes rfl ⟨9, by decide, by decide⟩ 0 (fun _ => 0) 7 9

end LoRaGwSv
