import LoRaGwSv.Gateway.Jitqueue
import LoRaGwSv.Machinery.Binary64
import LoRaGwSv.Server.ThreadDownstream

/-!
# Gateway/TimeOnAir — how long a packet is on air (`loragw_hal.c`)

`lgw_time_on_air` computes in floating point and cuts the result off to milliseconds.  **For each
LoRa packet that `lgw_send` takes it is the time on air of the data sheet, cut off exactly**
(`lgwTimeOnAir_eq`), although symbols of 128/125 ms have no finite binary expansion: where the time
is a whole number of milliseconds, what is lost in rounding is won back.
-/

namespace LoRaGwSv

open Binary64

/-- `BW_62K5HZ`. -/
def bw62K5hz : UInt8 := 0x04

/-- `BW_31K2HZ`. -/
def bw31K2hz : UInt8 := 0x05

/-- `BW_15K6HZ`. -/
def bw15K6hz : UInt8 := 0x06

/-- `BW_7K8HZ`. -/
def bw7K8hz : UInt8 := 0x07

/-- `lgw_bw_getval`, in hertz. -/
def lgwBwGetval (x : UInt8) : ℤ :=
  if x = bw500Khz then 500000
  else if x = bw250Khz then 250000
  else if x = bw125Khz then 125000
  else if x = bw62K5hz then 62500
  else if x = bw31K2hz then 31200
  else if x = bw15K6hz then 15600
  else if x = bw7K8hz then 7800
  else -1

/-- `lgw_sf_getval`. -/
def lgwSfGetval (x : UInt32) : ℤ :=
  if x = drLoraSf7 then 7
  else if x = drLoraSf8 then 8
  else if x = drLoraSf9 then 9
  else if x = drLoraSf10 then 10
  else if x = drLoraSf11 then 11
  else if x = drLoraSf12 then 12
  else -1

/-- The conversion of a `double` to `uint32_t`; one that does not fit is undefined. -/
def doubleToUInt32 (x : ℚ) : Option UInt32 :=
  if 0 ≤ truncate x ∧ truncate x < 2 ^ 32 then some (UInt32.ofNat (truncate x).toNat) else none

/-- The bits that the payload of a LoRa packet has to carry, with what goes before and behind it. -/
def LgwPktTx.payloadBits (packet : LgwPktTx) (sf : ℤ) : ℤ :=
  8 * packet.size.toNat - 4 * sf + 28 + 16 - 20 * if packet.no_header then 1 else 0

/-- How many bits a block of symbols carries: with the slow data rates two less a symbol. -/
def blockBits (sf : ℤ) : ℤ := 4 * (sf - 2 * if 11 ≤ sf then 1 else 0)

/-- A rate of 0 divides by zero, and what is made of the result is undefined. -/
def lgwTimeOnAir (fsk_sync_word_size : UInt8) (packet : LgwPktTx) : Option UInt32 :=
  if packet.modulation = modLora then
    let bw := lgwBwGetval packet.bandwidth
    let sf := lgwSfGetval packet.datarate
    if bw = -1 ∨ sf = -1 then some 0
    else do
      let tsym := div (2 ^ sf.toNat) (truncate (div bw 1000))
      let tpreamble := mul (add packet.preamble.toNat (17 / 4)) tsym
      let blocks := ⌈div (packet.payloadBits sf) (blockBits sf)⌉
      let payloadSymbNb ← doubleToUInt32 (add 8 (mul blocks (packet.coderate.toNat + 4)))
      let tpayload := mul payloadSymbNb.toNat tsym
      doubleToUInt32 (add tpreamble tpayload)
  else if packet.modulation = modFsk then
    if packet.datarate = 0 then none
    else do
      let bytes := packet.preamble.toNat + fsk_sync_word_size.toNat + 1 + packet.size.toNat +
        if packet.no_crc then 0 else 2
      let tfsk := mul (div (mul 8 bytes) packet.datarate.toNat) 1000
      return (← doubleToUInt32 tfsk) + 1
  else some 0

/-- The symbols of a LoRa packet behind its preamble. -/
def LgwPktTx.symbols (packet : LgwPktTx) (sf : ℤ) : ℤ :=
  8 + ⌈(packet.payloadBits sf : ℚ) / blockBits sf⌉ * (packet.coderate.toNat + 4)

/-- The time on air in milliseconds. -/
def LgwPktTx.airtime (fsk_sync_word_size : UInt8) (packet : LgwPktTx) : ℚ :=
  if packet.modulation = modLora then
    let bw := lgwBwGetval packet.bandwidth
    let sf := lgwSfGetval packet.datarate
    (packet.preamble.toNat + 17 / 4 + packet.symbols sf) * (2 ^ sf.toNat / (bw / 1000))
  else
    let bytes := packet.preamble.toNat + fsk_sync_word_size.toNat + 1 + packet.size.toNat +
      if packet.no_crc then 0 else 2
    8 * bytes / packet.datarate.toNat * 1000

/-- A LoRa packet that `lgw_send` takes. -/
structure LgwPktTx.LoraSendable (packet : LgwPktTx) : Prop where
  modulation : packet.modulation = modLora
  bandwidth : packet.bandwidth ∈ [bw125Khz, bw250Khz, bw500Khz]
  datarate : packet.datarate ∈
    [drLoraSf7, drLoraSf8, drLoraSf9, drLoraSf10, drLoraSf11, drLoraSf12]
  coderate : packet.coderate ∈ [crLora45, crLora46, crLora47, crLora48]
  size_le : packet.size ≤ 255

/-- An FSK packet that `lgw_send` takes. -/
structure LgwPktTx.FskSendable (packet : LgwPktTx) : Prop where
  modulation : packet.modulation = modFsk
  f_dev : 1 ≤ packet.f_dev ∧ packet.f_dev ≤ 200
  datarate : 500 ≤ packet.datarate ∧ packet.datarate ≤ 250000
  size_le : packet.size ≤ 255

variable {packet : LgwPktTx} {fsk_sync_word_size : UInt8} {sf : ℤ} {b : ℕ} {x : ℚ}

/-! ## Conversions

A conversion to an integer type cuts off towards zero, and is defined for what the type can hold. -/

/-- What is not negative is cut off downwards. -/
theorem truncate_eq_floor (hx : 0 ≤ x) : truncate x = ⌊x⌋ := by
  rw [truncate, Rat.floor_def', Int.tdiv_eq_ediv_of_nonneg (Rat.num_nonneg.mpr hx)]

/-- A double that 32 bits hold is cut off to its integer part. -/
theorem doubleToUInt32_eq (h0 : 0 ≤ x) (h : x < 2 ^ 32) :
    doubleToUInt32 x = some (UInt32.ofNat ⌊x⌋.toNat) := by
  have hfloor : 0 ≤ ⌊x⌋ := Int.floor_nonneg.mpr h0
  have hlt : ⌊x⌋ < 2 ^ 32 := Int.floor_lt.mpr (by exact_mod_cast h)
  rw [doubleToUInt32, truncate_eq_floor h0, if_pos ⟨hfloor, hlt⟩]

/-! ## The symbols of a LoRa packet

The number of symbols is bounded, and the bounds are what the estimates of the rounding errors start
from. -/

/-- The spreading factor, and the bandwidth in doublings of 125 kHz. -/
theorem LgwPktTx.LoraSendable.radio (h : packet.LoraSendable) :
    ∃ (sf b : ℕ), 7 ≤ sf ∧ sf ≤ 12 ∧ b ≤ 2 ∧ lgwSfGetval packet.datarate = sf ∧
      lgwBwGetval packet.bandwidth = 125000 * 2 ^ b := by
  have hsf : ∃ sf : ℕ, 7 ≤ sf ∧ sf ≤ 12 ∧ lgwSfGetval packet.datarate = sf := by
    have hdr := h.datarate
    simp only [List.mem_cons, List.not_mem_nil, or_false] at hdr
    rcases hdr with hdr | hdr | hdr | hdr | hdr | hdr <;> rw [hdr]
    · exact ⟨7, by decide⟩
    · exact ⟨8, by decide⟩
    · exact ⟨9, by decide⟩
    · exact ⟨10, by decide⟩
    · exact ⟨11, by decide⟩
    · exact ⟨12, by decide⟩
  have hbw : ∃ b : ℕ, b ≤ 2 ∧ lgwBwGetval packet.bandwidth = 125000 * 2 ^ b := by
    have hbw := h.bandwidth
    simp only [List.mem_cons, List.not_mem_nil, or_false] at hbw
    rcases hbw with hbw | hbw | hbw <;> rw [hbw]
    · exact ⟨0, by decide⟩
    · exact ⟨1, by decide⟩
    · exact ⟨2, by decide⟩
  obtain ⟨sf, hsf7, hsf12, hsf⟩ := hsf
  obtain ⟨b, hb, hbw⟩ := hbw
  exact ⟨sf, b, hsf7, hsf12, hb, hsf, hbw⟩

/-- The code rates are the numbers up to four. -/
theorem LgwPktTx.LoraSendable.coderate_le (h : packet.LoraSendable) :
    packet.coderate.toNat ≤ 4 := by
  have hcr := h.coderate
  simp only [List.mem_cons, List.not_mem_nil, or_false] at hcr
  rcases hcr with hcr | hcr | hcr | hcr <;> rw [hcr] <;> decide

theorem blockBits_mem (h7 : 7 ≤ sf) (h12 : sf ≤ 12) : 28 ≤ blockBits sf ∧ blockBits sf ≤ 40 := by
  rw [blockBits]
  split <;> omega

/-- The bits of the payload fill 74 blocks at most. -/
theorem payloadBits_mem (hsize : packet.size ≤ 255) (h7 : 7 ≤ sf) (h12 : sf ≤ 12) :
    -blockBits sf < packet.payloadBits sf ∧ packet.payloadBits sf ≤ 74 * blockBits sf := by
  have hsize : packet.size.toNat ≤ 255 := UInt16.le_iff_toNat_le.mp hsize
  obtain ⟨h28, h40⟩ := blockBits_mem h7 h12
  rw [LgwPktTx.payloadBits]
  constructor
  · split <;> omega
  · split <;> omega

/-- **A payload takes from 8 to 600 symbols**, in up to 74 blocks. -/
theorem symbols_mem (hsize : packet.size ≤ 255) (h7 : 7 ≤ sf) (h12 : sf ≤ 12)
    (hcr : packet.coderate.toNat ≤ 4) : 8 ≤ packet.symbols sf ∧ packet.symbols sf ≤ 600 := by
  obtain ⟨h28, h40⟩ := blockBits_mem h7 h12
  obtain ⟨hlow, hhigh⟩ := payloadBits_mem hsize h7 h12
  have hpos : (0 : ℚ) < blockBits sf := by exact_mod_cast (by omega : (0 : ℤ) < blockBits sf)
  have h0 : 0 ≤ ⌈(packet.payloadBits sf : ℚ) / blockBits sf⌉ := by
    refine Int.sub_one_lt_iff.mp (Int.lt_ceil.mpr ?_)
    rw [lt_div_iff₀ hpos]
    push_cast
    rw [neg_one_mul]
    exact_mod_cast hlow
  have h74 : ⌈(packet.payloadBits sf : ℚ) / blockBits sf⌉ ≤ 74 := by
    refine Int.ceil_le.mpr ?_
    rw [div_le_iff₀ hpos]
    exact_mod_cast hhigh
  have hcr' : (packet.coderate.toNat : ℤ) + 4 ≤ 8 := by omega
  have hmin := mul_nonneg h0 (show (0 : ℤ) ≤ packet.coderate.toNat + 4 by omega)
  have hmax := mul_le_mul h74 hcr' (by omega) (by norm_num)
  rw [LgwPktTx.symbols]
  omega

/-! ## What is computed without loss

Bandwidths are 125 kHz times a power of two and symbols take a power of two of those, so most of
what is computed is an integer times a power of two, and exact. -/

/-- The bandwidth in kHz, and the time of a symbol as one at spreading factor 7 and 125 kHz. -/
theorem div_symbol (sf b : ℕ) (hb : b ≤ 2) :
    div (2 ^ sf) (truncate (div (125000 * 2 ^ b : ℤ) 1000))
      = rounded (128 / 125) * 2 ^ ((sf : ℤ) - 7 - b) := by
  have hbw : div (125000 * 2 ^ b : ℤ) 1000 = (125 * 2 ^ b : ℤ) := by
    have hexact : ((125000 * 2 ^ b : ℤ) : ℚ) / 1000 = (125 * 2 ^ b : ℤ) := by
      push_cast
      ring
    rw [div, hexact, rounded_intCast]
    interval_cases b <;> decide
  have htrunc : truncate ((125 * 2 ^ b : ℤ) : ℚ) = 125 * 2 ^ b := by
    rw [truncate_eq_floor (by positivity), Int.floor_intCast]
  rw [hbw, htrunc, div, ← rounded_mul_zpow]
  congr 1
  rw [zpow_sub₀ two_ne_zero, zpow_sub₀ two_ne_zero, zpow_natCast, zpow_natCast]
  push_cast
  field_simp

/-- The time of a symbol has no finite binary expansion, and is rounded up. -/
theorem rounded_symbol : rounded (128 / 125) = 4611686018427388 / 2 ^ 52 := by
  have hround := rounded_eq_of_le_of_lt (x := 128 / 125) (e := -52) (n := 4611686018427388)
    (by norm_num) (by norm_num) (by
      rw [abs_lt]
      constructor <;> norm_num)
  rw [hround]
  norm_num

/-- **The symbols of the payload are counted exactly.** -/
theorem doubleToUInt32_symbols (hsize : packet.size ≤ 255) (h7 : 7 ≤ sf) (h12 : sf ≤ 12)
    (hcr : packet.coderate.toNat ≤ 4) :
    doubleToUInt32 (add 8 (mul ⌈div (packet.payloadBits sf) (blockBits sf)⌉
      (packet.coderate.toNat + 4))) = some (UInt32.ofNat (packet.symbols sf).toNat) := by
  obtain ⟨h28, h40⟩ := blockBits_mem h7 h12
  obtain ⟨hlow, hhigh⟩ := payloadBits_mem hsize h7 h12
  obtain ⟨h8, h600⟩ := symbols_mem hsize h7 h12 hcr
  have hpos : (0 : ℚ) < blockBits sf := by exact_mod_cast (by omega : (0 : ℤ) < blockBits sf)
  have hceil : ⌈div (packet.payloadBits sf) (blockBits sf)⌉
      = ⌈(packet.payloadBits sf : ℚ) / blockBits sf⌉ := by
    refine ceil_rounded (d := (blockBits sf).toNat) (n := packet.payloadBits sf) (by omega) ?_ ?_
    all_goals rw [← Int.cast_natCast, Int.toNat_of_nonneg (by omega)]
    · exact div_mul_cancel₀ _ hpos.ne'
    · rw [abs_div, abs_of_pos hpos, div_mul_cancel₀ _ hpos.ne']
      have hlt : |packet.payloadBits sf| < 2 ^ 53 := abs_lt.mpr (by omega)
      exact_mod_cast hlt
  have hmul : mul ⌈div (packet.payloadBits sf) (blockBits sf)⌉ (packet.coderate.toNat + 4)
      = (packet.symbols sf - 8 : ℤ) := by
    have hexact : (⌈div (packet.payloadBits sf) (blockBits sf)⌉ : ℚ) * (packet.coderate.toNat + 4)
        = (packet.symbols sf - 8 : ℤ) := by
      rw [hceil, LgwPktTx.symbols]
      push_cast
      ring
    rw [mul, hexact, rounded_intCast]
    rw [abs_of_nonneg (by omega)]
    omega
  have hadd : add 8 (packet.symbols sf - 8 : ℤ) = (packet.symbols sf : ℤ) := by
    have hexact : (8 : ℚ) + (packet.symbols sf - 8 : ℤ) = (packet.symbols sf : ℤ) := by
      push_cast
      ring
    rw [add, hexact, rounded_intCast]
    rw [abs_of_nonneg (by omega)]
    omega
  rw [hmul, hadd, doubleToUInt32_eq, Int.floor_intCast]
  · exact_mod_cast (by omega : (0 : ℤ) ≤ packet.symbols sf)
  · exact_mod_cast (by omega : packet.symbols sf < 2 ^ 32)

/-! ## The time on air of a LoRa packet

What is left to round are the time of a symbol, and a product and a sum made of it.  The errors are
too small to get over the next whole number of milliseconds, and as the time of a symbol is rounded
up, what is a whole number of milliseconds is not lost. -/

/-- What is computed for `pre` symbols of preamble and `sym` others, of 128/125 ms times `2 ^ s`. -/
def loraTime (pre : ℚ) (sym s : ℤ) : ℚ :=
  add (mul pre (rounded (128 / 125) * 2 ^ s)) (mul sym (rounded (128 / 125) * 2 ^ s))

section

variable {pre : ℚ} {sym s : ℤ}

theorem loraTime_nonneg (hpre : 0 < pre) (hsym : 0 < sym) : 0 ≤ loraTime pre sym s := by
  have hsymbol := mul_nonneg (rounded_nonneg (show (0 : ℚ) ≤ 128 / 125 by norm_num))
    (two_zpow_pos s).le
  have hsym' : (0 : ℚ) < sym := by exact_mod_cast hsym
  exact rounded_nonneg (add_nonneg (rounded_nonneg (mul_nonneg hpre.le hsymbol))
    (rounded_nonneg (mul_nonneg hsym'.le hsymbol)))

theorem symbol_mem (hs : s ≤ 5) : 128 / 125 * 2 ^ s < rounded (128 / 125) * 2 ^ s ∧
    rounded (128 / 125) * 2 ^ s ≤ 128 / 125 * 2 ^ s + 1 / 2 ^ 48 ∧
      rounded (128 / 125) * 2 ^ s ≤ 33 := by
  have hpow : (2 : ℚ) ^ s ≤ 32 := by
    calc (2 : ℚ) ^ s
      _ ≤ 2 ^ (5 : ℤ) := zpow_le_zpow_right₀ one_le_two hs
      _ = 32 := by norm_num
  have hpow0 := two_zpow_pos s
  rw [rounded_symbol]
  refine ⟨mul_lt_mul_of_pos_right (by norm_num) hpow0, ?_, ?_⟩
  · linarith
  · linarith

/-- **What is computed is near to the time on air.** -/
theorem near_loraTime (hpre0 : 0 < pre) (hpre : pre ≤ 65540) (hsym0 : 0 < sym) (hsym : sym ≤ 600)
    (hs : s ≤ 5) : |loraTime pre sym s - (pre + sym) * (128 / 125 * 2 ^ s)| < 1 / 125 := by
  have hsym0' : (0 : ℚ) < sym := by exact_mod_cast hsym0
  have hsym' : (sym : ℚ) ≤ 600 := by exact_mod_cast hsym
  obtain ⟨hlt, hle, h33⟩ := symbol_mem hs
  rw [loraTime]
  set t : ℚ := rounded (128 / 125) * 2 ^ s
  have ht0 : 0 < t := (mul_pos (by norm_num) (two_zpow_pos s)).trans hlt
  have hadd := abs_add_rounded_sub_le (mul_pos hpre0 ht0).le (mul_pos hsym0' ht0).le
  have hsum : pre * t + sym * t ≤ 66140 * 33 := by
    rw [← add_mul]
    exact mul_le_mul (by linarith) h33 ht0.le (by norm_num)
  have hdiff0 : 0 ≤ t - 128 / 125 * 2 ^ s := sub_nonneg.mpr hlt.le
  have hdiff := mul_le_mul (show pre + sym ≤ 66140 by linarith)
    (show t - 128 / 125 * 2 ^ s ≤ 1 / 2 ^ 48 by linarith) hdiff0 (by norm_num)
  have hdiff0' := mul_nonneg (show 0 ≤ pre + sym by linarith) hdiff0
  have hexact : pre * t + sym * t - (pre + sym) * (128 / 125 * 2 ^ s)
      = (pre + sym) * (t - 128 / 125 * 2 ^ s) := by ring
  obtain ⟨hlow, hhigh⟩ := abs_le.mp hadd
  rw [mul, mul, abs_lt]
  constructor
  · linarith
  · linarith

/-- **It does not fall short of a whole number of milliseconds.** -/
theorem intCast_le_loraTime (hpre0 : 0 < pre) (hpre : pre ≤ 65540) (hsym0 : 0 < sym)
    (hsym : sym ≤ 600) (hs : s ≤ 5) {k : ℤ} (hk : (k : ℚ) = (pre + sym) * (128 / 125 * 2 ^ s)) :
    k ≤ loraTime pre sym s := by
  have hsym0' : (0 : ℚ) < sym := by exact_mod_cast hsym0
  have hsym' : (sym : ℚ) ≤ 600 := by exact_mod_cast hsym
  obtain ⟨hlt, -, h33⟩ := symbol_mem hs
  have ht0 := (mul_pos (by norm_num) (two_zpow_pos s)).trans hlt
  refine intCast_le_add_rounded (mul_pos hpre0 ht0) (mul_pos hsym0' ht0) ?_ ?_ ?_
  · exact (mul_le_mul hpre h33 ht0.le (by norm_num)).trans_lt (by norm_num)
  · exact (mul_le_mul hsym' h33 ht0.le (by norm_num)).trans_lt (by norm_num)
  · rw [hk, ← add_mul]
    exact mul_lt_mul_of_pos_left hlt (by linarith)

end

/-- The time on air of a LoRa packet, with its symbols as multiples of 128/125 ms. -/
theorem airtime_lora (fsk_sync_word_size : UInt8) (hmod : packet.modulation = modLora)
    {sf b : ℕ} (hsf : lgwSfGetval packet.datarate = sf)
    (hbw : lgwBwGetval packet.bandwidth = 125000 * 2 ^ b) :
    packet.airtime fsk_sync_word_size = (packet.preamble.toNat + 17 / 4 + packet.symbols sf) *
      (128 / 125 * 2 ^ ((sf : ℤ) - 7 - b)) := by
  simp only [LgwPktTx.airtime, if_pos hmod, hsf, hbw, Int.toNat_natCast]
  congr 1
  rw [zpow_sub₀ two_ne_zero, zpow_sub₀ two_ne_zero, zpow_natCast, zpow_natCast]
  push_cast
  field_simp
  norm_num

theorem airtime_mul (fsk_sync_word_size : UInt8) (hmod : packet.modulation = modLora)
    {sf b : ℕ} (h7 : 7 ≤ sf) (hb : b ≤ 2) (hsf : lgwSfGetval packet.datarate = sf)
    (hbw : lgwBwGetval packet.bandwidth = 125000 * 2 ^ b) :
    ∃ n : ℤ, packet.airtime fsk_sync_word_size * (125 : ℕ) = n := by
  obtain ⟨r, hr⟩ := exists_zpow_eq (e := 0) (s := (sf : ℤ) - 7 - b + 5) (by omega)
  rw [zpow_zero, mul_one, zpow_add₀ two_ne_zero, show (2 : ℚ) ^ (5 : ℤ) = 32 by norm_num] at hr
  refine ⟨(4 * packet.preamble.toNat + 17 + 4 * packet.symbols sf) * r, ?_⟩
  rw [airtime_lora _ hmod hsf hbw]
  push_cast
  rw [← hr]
  ring

/-- The symbols of the preamble are added without loss. -/
theorem add_preamble (preamble : UInt16) :
    add preamble.toNat (17 / 4) = preamble.toNat + 17 / 4 := by
  have hlt := preamble.toNat_lt
  have hbits : (preamble.toNat : ℚ) + 17 / 4 = (4 * preamble.toNat + 17 : ℤ) * 2 ^ (-2 : ℤ) := by
    push_cast
    norm_num
    ring
  rw [add, hbits, rounded_of_bits]
  rw [abs_of_nonneg (by omega)]
  omega

/-- **The time of a LoRa packet comes out as three operations on doubles**, at any data rate and
bandwidth that is sent. -/
theorem lgwTimeOnAir_lora (h : packet.LoraSendable) {sf b : ℕ} (h7 : 7 ≤ sf) (h12 : sf ≤ 12)
    (hb : b ≤ 2) (hsf : lgwSfGetval packet.datarate = sf)
    (hbw : lgwBwGetval packet.bandwidth = 125000 * 2 ^ b) :
    lgwTimeOnAir fsk_sync_word_size packet = doubleToUInt32
      (loraTime (packet.preamble.toNat + 17 / 4) (packet.symbols sf) ((sf : ℤ) - 7 - b)) := by
  have h7' : (7 : ℤ) ≤ sf := by omega
  have h12' : (sf : ℤ) ≤ 12 := by omega
  obtain ⟨h8, h600⟩ := symbols_mem h.size_le h7' h12' h.coderate_le
  have hvalid : ¬((125000 * 2 ^ b : ℤ) = -1 ∨ (sf : ℤ) = -1) := by
    have : (0 : ℤ) < 2 ^ b := by positivity
    omega
  have hsym : ((UInt32.ofNat (packet.symbols sf).toNat).toNat : ℚ) = (packet.symbols sf : ℤ) := by
    have hsize : UInt32.size = 4294967296 := rfl
    rw [UInt32.toNat_ofNat_of_lt' (by omega)]
    exact_mod_cast Int.toNat_of_nonneg (by omega)
  simp only [lgwTimeOnAir, if_pos h.modulation, hsf, hbw, if_neg hvalid, Int.toNat_natCast]
  rw [div_symbol sf b hb, add_preamble, doubleToUInt32_symbols h.size_le h7' h12' h.coderate_le,
    Option.bind_eq_bind, Option.bind_some, hsym]
  rfl

/-- How many symbols the preamble may have. -/
theorem preamble_mem (preamble : UInt16) : (0 : ℚ) < preamble.toNat + 17 / 4 ∧
    (preamble.toNat : ℚ) + 17 / 4 ≤ 65540 := by
  have hlt := preamble.toNat_lt
  have hle : (preamble.toNat : ℚ) ≤ 65535 := by exact_mod_cast (by omega)
  exact ⟨by positivity, by linarith⟩

/-- A LoRa packet is on air for less than 67 minutes. -/
theorem LgwPktTx.LoraSendable.airtime_mem (h : packet.LoraSendable)
    (fsk_sync_word_size : UInt8) :
    0 ≤ packet.airtime fsk_sync_word_size ∧ packet.airtime fsk_sync_word_size < 4000000 := by
  obtain ⟨sf, b, h7, h12, hb, hsf, hbw⟩ := h.radio
  obtain ⟨h8, h600⟩ := symbols_mem h.size_le (by omega : (7 : ℤ) ≤ sf) (by omega) h.coderate_le
  obtain ⟨hpre0, hpre⟩ := preamble_mem packet.preamble
  obtain ⟨hlt, -, h33⟩ := symbol_mem (by omega : (sf : ℤ) - 7 - b ≤ 5)
  have hsym0 : (8 : ℚ) ≤ packet.symbols sf := by exact_mod_cast h8
  have hsym : (packet.symbols sf : ℚ) ≤ 600 := by exact_mod_cast h600
  have hpow0 := two_zpow_pos ((sf : ℤ) - 7 - b)
  have hsymbol0 : (0 : ℚ) ≤ 128 / 125 * 2 ^ ((sf : ℤ) - 7 - b) :=
    mul_nonneg (by norm_num) hpow0.le
  have hmul := mul_le_mul
    (show (packet.preamble.toNat : ℚ) + 17 / 4 + packet.symbols sf ≤ 66140 by linarith)
    (hlt.le.trans h33) hsymbol0 (by norm_num)
  rw [airtime_lora _ h.modulation hsf hbw]
  exact ⟨mul_nonneg (by linarith) hsymbol0, hmul.trans_lt (by norm_num)⟩

/-- **`lgw_time_on_air` gives the time on air of a LoRa packet, cut off to milliseconds.** -/
theorem lgwTimeOnAir_eq (h : packet.LoraSendable) :
    lgwTimeOnAir fsk_sync_word_size packet
      = some (UInt32.ofNat ⌊packet.airtime fsk_sync_word_size⌋.toNat) := by
  obtain ⟨sf, b, h7, h12, hb, hsf, hbw⟩ := h.radio
  obtain ⟨h8, h600⟩ := symbols_mem h.size_le (by omega : (7 : ℤ) ≤ sf) (by omega) h.coderate_le
  obtain ⟨hpre0, hpre⟩ := preamble_mem packet.preamble
  have hs : (sf : ℤ) - 7 - b ≤ 5 := by omega
  have hair := airtime_lora fsk_sync_word_size h.modulation hsf hbw
  obtain ⟨n, hn⟩ := airtime_mul fsk_sync_word_size h.modulation h7 hb hsf hbw
  have hnear := near_loraTime hpre0 hpre (by omega) h600 hs
  rw [← hair] at hnear
  have hfloor := floor_eq_of_near (by norm_num) hn hnear fun k hk => by
    rw [hk]
    exact intCast_le_loraTime hpre0 hpre (by omega) h600 hs (by rw [← hk, hair])
  have hlt := (h.airtime_mem fsk_sync_word_size).2
  have hclose := (abs_lt.mp hnear).2
  rw [lgwTimeOnAir_lora h h7 h12 hb hsf hbw,
    doubleToUInt32_eq (loraTime_nonneg hpre0 (by omega)) (by linarith), hfloor]

/-! ## The time on air of an FSK packet

Here one is added to what is cut off, so a result is never too small. -/

/-- The bytes of an FSK packet, with what goes before and behind its payload. -/
theorem fskBytes_le (packet : LgwPktTx) (fsk_sync_word_size : UInt8) (hsize : packet.size ≤ 255) :
    packet.preamble.toNat + fsk_sync_word_size.toNat + 1 + packet.size.toNat +
      (if packet.no_crc then 0 else 2) ≤ 66048 := by
  have hpre := packet.preamble.toNat_lt
  have hsync := fsk_sync_word_size.toNat_lt
  have hsize : packet.size.toNat ≤ 255 := UInt16.le_iff_toNat_le.mp hsize
  split <;> omega

/-- In the range of `lgw_send` the roundings leave the whole milliseconds as they are, or make of a
whole number the one before it. -/
theorem fskMillis_bounds {bytes d : ℕ} (hbytes : bytes ≤ 66048) (hd : 500 ≤ d) (hd' : d ≤ 250000) :
    0 ≤ mul (div (mul 8 bytes) d) 1000 ∧
      ⌊mul (div (mul 8 bytes) d) 1000⌋ ≤ ⌊(8 * bytes / d * 1000 : ℚ)⌋ ∧
      (8 * bytes / d * 1000 : ℚ) ≤ ⌊mul (div (mul 8 bytes) d) 1000⌋ + 1 ∧
      ⌊(8 * bytes / d * 1000 : ℚ)⌋ ≤ 1100000 := by
  have hrate : (500 : ℚ) ≤ d := by exact_mod_cast hd
  have hrate' : (d : ℚ) ≤ 250000 := by exact_mod_cast hd'
  have hmul : mul 8 bytes = 8 * bytes := by
    have hcast : (8 : ℚ) * bytes = (8 * bytes : ℤ) := by push_cast; rfl
    rw [mul, hcast, rounded_intCast]
    rw [abs_of_nonneg (by omega)]
    omega
  have hx : (0 : ℚ) ≤ 8 * bytes / d := by positivity
  have hnear := abs_rounded_mul_rounded_sub_le hx (show (0 : ℚ) ≤ 1000 by norm_num)
  rw [hmul, mul, div]
  set v : ℚ := rounded (rounded (8 * bytes / d) * 1000)
  set t : ℚ := 8 * bytes / d * 1000 with ht
  have hfraction : t * d = (8000 * bytes : ℤ) := by
    rw [ht, mul_right_comm, div_mul_cancel₀ _ (by linarith : (d : ℚ) ≠ 0)]
    push_cast
    ring
  have hle : t ≤ 1100000 := by
    have hbytes' : (bytes : ℚ) ≤ 66048 := by exact_mod_cast hbytes
    rw [ht, ← le_div_iff₀ (by norm_num), div_le_iff₀ (by linarith)]
    linarith
  have hnear' : |v - t| < 1 / d := by
    have hprod := mul_le_mul hle hrate' (by linarith) (by norm_num)
    refine hnear.trans_lt ((lt_div_iff₀ (by linarith)).mpr ?_)
    rw [mul_right_comm]
    linarith
  have hv : 0 ≤ v := rounded_nonneg (mul_nonneg (rounded_nonneg hx) (by norm_num))
  exact ⟨hv, floor_le_of_near (by omega) hfraction hnear',
    le_floor_add_one_of_near (by omega) hfraction hnear',
    Int.floor_le_iff.mpr (by push_cast; linarith)⟩

/-- **`lgw_time_on_air` rounds the time on air of an FSK packet up**, and a whole number of
milliseconds may become one more. -/
theorem lgwTimeOnAir_fsk (h : packet.FskSendable) :
    ∃ t : UInt32, lgwTimeOnAir fsk_sync_word_size packet = some t ∧
      packet.airtime fsk_sync_word_size ≤ t.toNat ∧
      t.toNat ≤ ⌊packet.airtime fsk_sync_word_size⌋ + 1 ∧ t.toNat < 4000000 := by
  have hbytes := fskBytes_le packet fsk_sync_word_size h.size_le
  have hrate : 500 ≤ packet.datarate.toNat := UInt32.le_iff_toNat_le.mp h.datarate.1
  have hrate' : packet.datarate.toNat ≤ 250000 := UInt32.le_iff_toNat_le.mp h.datarate.2
  have hlora : packet.modulation ≠ modLora := by
    rw [h.modulation]
    decide
  have hnonzero : packet.datarate ≠ 0 := by
    rintro hzero
    rw [hzero] at hrate
    exact absurd hrate (by decide)
  obtain ⟨hv, hfloor, hceil, hbound⟩ := fskMillis_bounds hbytes hrate hrate'
  simp only [lgwTimeOnAir, LgwPktTx.airtime, if_neg hlora, if_pos h.modulation, if_neg hnonzero]
  set bytes := packet.preamble.toNat + fsk_sync_word_size.toNat + 1 + packet.size.toNat +
    if packet.no_crc then 0 else 2
  set v : ℚ := mul (div (mul 8 bytes) packet.datarate.toNat) 1000
  set t : ℚ := 8 * bytes / packet.datarate.toNat * 1000
  have hfloor0 : 0 ≤ ⌊v⌋ := Int.floor_nonneg.mpr hv
  have hlt : v < 2 ^ 32 := by
    have := Int.lt_floor_add_one v
    have hcast : (⌊v⌋ : ℚ) ≤ 1100000 := by exact_mod_cast hfloor.trans hbound
    linarith
  rw [doubleToUInt32_eq hv hlt]
  refine ⟨_, rfl, ?_⟩
  have htoNat : ((UInt32.ofNat ⌊v⌋.toNat + 1).toNat : ℤ) = ⌊v⌋ + 1 := by
    rw [UInt32.toNat_add, UInt32.toNat_ofNat', show (1 : UInt32).toNat = 1 from rfl]
    omega
  refine ⟨?_, ?_, ?_⟩
  · have hcast : ((UInt32.ofNat ⌊v⌋.toNat + 1).toNat : ℚ) = ⌊v⌋ + 1 := by exact_mod_cast htoNat
    rw [hcast]
    exact hceil
  · omega
  · omega

/-! ## Every packet that is sent -/

/-- So the time of a LoRa packet is its time on air, cut off to milliseconds. -/
theorem LgwPktTx.LoraSendable.exists_time (h : packet.LoraSendable) (fsk_sync_word_size : UInt8) :
    ∃ t : UInt32, lgwTimeOnAir fsk_sync_word_size packet = some t ∧
      t.toNat = ⌊packet.airtime fsk_sync_word_size⌋ ∧ t.toNat < 4000000 := by
  obtain ⟨h0, hlt⟩ := h.airtime_mem fsk_sync_word_size
  have hfloor0 : 0 ≤ ⌊packet.airtime fsk_sync_word_size⌋ := Int.floor_nonneg.mpr h0
  have hfloor : ⌊packet.airtime fsk_sync_word_size⌋ < 4000000 :=
    Int.floor_lt.mpr (by exact_mod_cast hlt)
  refine ⟨_, lgwTimeOnAir_eq h, ?_⟩
  rw [UInt32.toNat_ofNat']
  omega

/-- A packet that `lgw_send` takes. -/
def LgwPktTx.Sendable (packet : LgwPktTx) : Prop := packet.LoraSendable ∨ packet.FskSendable

/-- A packet is on air for less than a millisecond more than is computed. -/
theorem LgwPktTx.Sendable.exists_time (h : packet.Sendable) (fsk_sync_word_size : UInt8) :
    ∃ t : UInt32, lgwTimeOnAir fsk_sync_word_size packet = some t ∧
      packet.airtime fsk_sync_word_size < t.toNat + 1 ∧ t.toNat < 4000000 := by
  rcases h with h | h
  · obtain ⟨t, ht, hfloor, hlt⟩ := h.exists_time fsk_sync_word_size
    have hcast : (t.toNat : ℚ) = ⌊packet.airtime fsk_sync_word_size⌋ := by exact_mod_cast hfloor
    exact ⟨t, ht, hcast ▸ Int.lt_floor_add_one _, hlt⟩
  · obtain ⟨t, ht, hle, -, hlt⟩ := @lgwTimeOnAir_fsk _ fsk_sync_word_size h
    exact ⟨t, ht, hle.trans_lt (lt_add_one _), hlt⟩

/-- **The time on air is computed to the millisecond**, in spite of the floating point: that of a
LoRa packet is cut off, and that of an FSK packet rounded up. -/
theorem timeOnAir_exact (fsk_sync_word_size : UInt8) (packet : LgwPktTx) (h : packet.Sendable) :
    ∃ t : UInt32, lgwTimeOnAir fsk_sync_word_size packet = some t ∧
      (packet.modulation = modLora → t.toNat = ⌊packet.airtime fsk_sync_word_size⌋) ∧
      (packet.modulation = modFsk → ⌈packet.airtime fsk_sync_word_size⌉ ≤ t.toNat ∧
        t.toNat ≤ ⌊packet.airtime fsk_sync_word_size⌋ + 1) := by
  rcases h with h | h
  · obtain ⟨t, ht, hfloor, -⟩ := h.exists_time fsk_sync_word_size
    refine ⟨t, ht, fun _ => hfloor, fun hfsk => ?_⟩
    rw [h.modulation] at hfsk
    exact absurd hfsk (by decide)
  · obtain ⟨t, ht, hle, hfloor, -⟩ := @lgwTimeOnAir_fsk _ fsk_sync_word_size h
    refine ⟨t, ht, fun hlora => ?_, fun _ => ⟨Int.ceil_le.mpr ?_, hfloor⟩⟩
    · rw [h.modulation] at hlora
      exact absurd hlora (by decide)
    · exact_mod_cast hle

/-- A packet that is on air for 32 ms: 31.25 symbols at spreading factor 7 and 125 kHz. -/
def wholePacket : LgwPktTx :=
  { zeroPkt with
    modulation := modLora
    bandwidth := bw125Khz
    datarate := drLoraSf7
    coderate := crLora45
    preamble := 9
    size := 3 }

theorem loraSendable_wholePacket : wholePacket.LoraSendable :=
  ⟨rfl, by decide, by decide, by decide, by decide⟩

theorem airtime_wholePacket : wholePacket.airtime 3 = 32 := by
  have hsym : wholePacket.symbols (7 : ℕ) = 18 := by decide +kernel
  have hpre : wholePacket.preamble.toNat = 9 := rfl
  have hair := @airtime_lora wholePacket 3 rfl 7 0
    (show lgwSfGetval wholePacket.datarate = (7 : ℕ) by decide)
    (show lgwBwGetval wholePacket.bandwidth = 125000 * 2 ^ 0 by decide)
  rw [hair, hsym, hpre]
  norm_num

/-- This number is what is computed. -/
theorem timeOnAir_exact_whole : lgwTimeOnAir 3 wholePacket = some 32 := by
  obtain ⟨t, ht, hfloor, -⟩ := timeOnAir_exact 3 wholePacket (Or.inl loraSendable_wholePacket)
  have h32 := hfloor rfl
  rw [airtime_wholePacket, show (32 : ℚ) = (32 : ℤ) from rfl, Int.floor_intCast] at h32
  obtain rfl : t = 32 := UInt32.toNat_inj.mp (Int.natCast_inj.mp h32)
  exact ht

end LoRaGwSv
