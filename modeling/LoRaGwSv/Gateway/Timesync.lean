import LoRaGwSv.Server.ThreadDownstream

/-!
# Gateway/Timesync — the clock of the server (`rtlora_gw.c`)

The gateway asks the server for the time: it notes its own as `t0`, the server answers with the
times `t1` and `t2` at which it took the request in and sent the answer, and the gateway notes `t3`
as the answer arrives.  Half of `(t1 - t0) + (t2 - t3)` is the offset of the clocks, kept in an
`int`: **a difference beyond 32 bits is cut off before it is halved** (`measures_iff`), so that
clocks an hour apart can pass for synchronised.
-/

namespace LoRaGwSv

open Timeval Wire

/-- `enum timesync_flag_e`. -/
inductive TimesyncFlag
  | done
  | waiting
  | error
deriving DecidableEq, Repr

/-- `struct timesync_var_s`. -/
structure TimesyncVar where
  token_h : UInt8
  token_l : UInt8
  t0 : Timeval
  t1 : Timeval
  t2 : Timeval
  t3 : Timeval
  time_offset : Int32
  offset_drift : Int32
  flag : TimesyncFlag
deriving DecidableEq

/-- `TIMESYNC_MAX_ERROR_TOLERANT`, in microseconds. -/
def timesyncMaxErrorTolerant : ℕ := 1000

/-! ## The exchange

The request carries no time.  The answer carries `t1` and `t2` in seconds and microseconds of 32
bits each; what the gateway notes itself stays in its variables. -/

/-- What `thread_timesync_to_server` starts from. -/
def timesyncStart : TimesyncVar := ⟨0, 0, ⟨0, 0⟩, ⟨0, 0⟩, ⟨0, 0⟩, ⟨0, 0⟩, 0, 0, .done⟩

/-- The request: the datagram, and what is noted of it. -/
def timesyncRequest (timesync_var : TimesyncVar) (net_mac_h net_mac_l : UInt32)
    (token_h token_l : UInt8) (unix_timeval : Timeval) : List UInt8 × TimesyncVar :=
  ([protocolVersion, token_h, token_l, pktTimesyncReq] ++ le32 net_mac_h ++ le32 net_mac_l,
    { timesync_var with
      token_h := token_h
      token_l := token_l
      t0 := unix_timeval
      flag := .waiting })

/-- How `upstream_data_handle` answers a request, with its clock readings before and after. -/
def timesyncAnswer (buff : List UInt8) (received sent : Timeval) : List UInt8 :=
  [protocolVersion, buff.getD 1 0, buff.getD 2 0, pktTimesyncRes]
    ++ le32 (UInt32.ofInt received.tv_sec) ++ le32 (UInt32.ofInt received.tv_usec)
    ++ le32 (UInt32.ofInt sent.tv_sec) ++ le32 (UInt32.ofInt sent.tv_usec)

/-- The case of an answer in `thread_down`, with the clock reading it makes. -/
def takeAnswer (timesync_var : TimesyncVar) (buff_down : List UInt8) (unix_timeval : Timeval) :
    TimesyncVar :=
  if buff_down.getD 1 0 = timesync_var.token_h ∧ buff_down.getD 2 0 = timesync_var.token_l then
    let t1 := ⟨(le32At buff_down 4).toNat, (le32At buff_down 8).toNat⟩
    let t2 := ⟨(le32At buff_down 12).toNat, (le32At buff_down 16).toNat⟩
    let time_temp_1 := timersub t1 timesync_var.t0
    let time_temp_2 := timersub t2 unix_timeval
    let time_offset := Int32.ofInt (time_temp_1.tv_sec * 1000000 + time_temp_1.tv_usec
      + time_temp_2.tv_sec * 1000000 + time_temp_2.tv_usec) / 2
    { timesync_var with
      t1 := t1
      t2 := t2
      t3 := unix_timeval
      time_offset := time_offset
      offset_drift := time_offset - timesync_var.time_offset
      flag := if timesyncMaxErrorTolerant < time_offset.toInt.natAbs then .error else .done }
  else { timesync_var with flag := .error }

/-- What a datagram of `msg_len` bytes, at the front of the buffer, does to the time variables. -/
def threadDownTimesync (timesync_var : TimesyncVar) (buff_down : List UInt8) (msg_len : ℕ)
    (unix_timeval : Timeval) : TimesyncVar :=
  if msg_len < 12 ∨ buff_down.getD 0 0 ≠ protocolVersion then timesync_var
  else if buff_down.getD 3 0 = pktTimesyncRes then takeAnswer timesync_var buff_down unix_timeval
  else timesync_var

/-! ## What it measures

The difference is computed in microseconds, cut down to an `int`, and halved there. -/

/-- The datagram is a whole answer to the request that is out. -/
structure TimesyncVar.Answered (timesync_var : TimesyncVar) (buff_down : List UInt8)
    (msg_len : ℕ) : Prop where
  whole : 20 ≤ msg_len ∧ msg_len ≤ buff_down.length
  version : buff_down.getD 0 0 = protocolVersion
  token_h : buff_down.getD 1 0 = timesync_var.token_h
  token_l : buff_down.getD 2 0 = timesync_var.token_l
  type : buff_down.getD 3 0 = pktTimesyncRes

/-- `(t1 - t0) + (t2 - t3)` in microseconds, by the times the datagram carries. -/
def clockDifference (timesync_var : TimesyncVar) (buff_down : List UInt8) (t3 : Timeval) : ℤ :=
  ((le32At buff_down 4).toNat * 1000000 + (le32At buff_down 8).toNat - timesync_var.t0.micros)
    + ((le32At buff_down 12).toNat * 1000000 + (le32At buff_down 16).toNat - t3.micros)

/-- **The offset is half of the difference, and the flag tells whether that is tolerable.** -/
structure TimesyncVar.Measures (timesync_var : TimesyncVar) (D : ℤ) : Prop where
  offset : timesync_var.time_offset.toInt = D.tdiv 2
  verdict : timesync_var.flag
    = if (D.tdiv 2).natAbs ≤ timesyncMaxErrorTolerant then .done else .error

variable {timesync_var : TimesyncVar} {buff_down : List UInt8} {msg_len : ℕ} {t3 : Timeval}

/-- Half of what 32 bits hold of a number is half of the number exactly if they hold all of it. -/
theorem toInt_half_eq_iff (D : ℤ) :
    (Int32.ofInt D / 2).toInt = D.tdiv 2 ↔ -2 ^ 31 ≤ D ∧ D < 2 ^ 31 := by
  rw [Int32.toInt_div_of_ne_right _ _ (by decide)]
  show (Int32.ofInt D).toInt.tdiv 2 = D.tdiv 2 ↔ _
  have hlo := Int32.le_toInt (Int32.ofInt D)
  have hhi := Int32.toInt_lt (Int32.ofInt D)
  have hsize : Int32.size = 2 ^ 32 := rfl
  constructor
  · intro heq
    have hmod := Int.bmod_add_bdiv D (2 ^ 32)
    rw [← hsize, ← Int32.toInt_ofInt, hsize] at hmod
    -- equal halves are of numbers that differ by one at most
    have hhalf := Int.mul_tdiv_add_tmod (Int32.ofInt D).toInt 2
    have hhalf' := Int.mul_tdiv_add_tmod D 2
    have hrest := Int.tmod_lt_of_pos (Int32.ofInt D).toInt (show (0 : ℤ) < 2 by decide)
    have hrest' := Int.tmod_lt_of_pos D (show (0 : ℤ) < 2 by decide)
    have hpos := Int.lt_tmod_of_pos (Int32.ofInt D).toInt (show (0 : ℤ) < 2 by decide)
    have hpos' := Int.lt_tmod_of_pos D (show (0 : ℤ) < 2 by decide)
    omega
  · rintro ⟨hle, hlt⟩
    rw [Int32.toInt_ofInt_of_le hle hlt]

theorem TimesyncVar.Answered.threadDownTimesync (h : timesync_var.Answered buff_down msg_len)
    (t3 : Timeval) :
    (threadDownTimesync timesync_var buff_down msg_len t3).time_offset
      = Int32.ofInt (clockDifference timesync_var buff_down t3) / 2 ∧
    (LoRaGwSv.threadDownTimesync timesync_var buff_down msg_len t3).flag
      = if (Int32.ofInt (clockDifference timesync_var buff_down t3) / 2).toInt.natAbs
          ≤ timesyncMaxErrorTolerant then .done else .error := by
  have hlen := h.whole.1
  have hD : ∀ t1 t2 t0 : Timeval, (timersub t1 t0).tv_sec * 1000000 + (timersub t1 t0).tv_usec
      + (timersub t2 t3).tv_sec * 1000000 + (timersub t2 t3).tv_usec
        = t1.micros - t0.micros + (t2.micros - t3.micros) := by
    intro t1 t2 t0
    rw [← micros_timersub, ← micros_timersub, micros, micros]
    omega
  rw [LoRaGwSv.threadDownTimesync, if_neg (by rw [not_or]; exact ⟨by omega, not_not.mpr h.version⟩),
    if_pos h.type, takeAnswer, if_pos ⟨h.token_h, h.token_l⟩]
  dsimp only
  rw [hD, ← ite_not]
  simp only [not_lt]
  exact ⟨rfl, rfl⟩

/-- **An answer gives the offset and the verdict it should exactly if 32 bits hold the
difference.** -/
theorem measures_iff (timesync_var : TimesyncVar) (buff_down : List UInt8) (msg_len : ℕ)
    (h : timesync_var.Answered buff_down msg_len) (t3 : Timeval) :
    (threadDownTimesync timesync_var buff_down msg_len t3).Measures
        (clockDifference timesync_var buff_down t3) ↔
      -2 ^ 31 ≤ clockDifference timesync_var buff_down t3 ∧
        clockDifference timesync_var buff_down t3 < 2 ^ 31 := by
  obtain ⟨hoffset, hflag⟩ := h.threadDownTimesync t3
  rw [← toInt_half_eq_iff]
  constructor
  · exact fun hmeas => hoffset ▸ hmeas.offset
  · intro hhalf
    refine ⟨hoffset ▸ hhalf, ?_⟩
    rw [hflag, hhalf]

/-! ## The answer of the server

What the server answers belongs to the request that it is made of, and carries its readings as long
as their seconds fit 32 bits. -/

/-- The microseconds of a time that its two words carry. -/
theorem toNat_ofInt_micros {t : Timeval} (ht : t.Normalised) (h0 : 0 ≤ t.tv_sec)
    (h1 : t.tv_sec < 2 ^ 32) :
    ((UInt32.ofInt t.tv_sec).toNat * 1000000 + (UInt32.ofInt t.tv_usec).toNat : ℤ) = t.micros := by
  obtain ⟨hu0, hu1⟩ := ht
  rw [micros, UInt32.ofInt, UInt32.ofInt, UInt32.toNat_ofNat', UInt32.toNat_ofNat']
  omega

/-- **The answer to a request belongs to it and carries the readings of the server**, until 32 bits
of seconds are over. -/
theorem answered_timesyncAnswer (timesync_var : TimesyncVar) (net_mac_h net_mac_l : UInt32)
    (token_h token_l : UInt8) (t0 t1 t2 t3 : Timeval) (h1 : t1.Normalised) (h2 : t2.Normalised)
    (hsec1 : 0 ≤ t1.tv_sec ∧ t1.tv_sec < 2 ^ 32) (hsec2 : 0 ≤ t2.tv_sec ∧ t2.tv_sec < 2 ^ 32) :
    let request := timesyncRequest timesync_var net_mac_h net_mac_l token_h token_l t0
    let answer := timesyncAnswer request.1 t1 t2
    request.2.Answered answer answer.length ∧
      clockDifference request.2 answer t3
        = t1.micros - t0.micros + (t2.micros - t3.micros) := by
  intro request answer
  refine ⟨⟨⟨le_rfl, le_rfl⟩, rfl, rfl, rfl, rfl⟩, ?_⟩
  have hword : ∀ {k : ℕ} {x : UInt32}, [UInt32.ofInt t1.tv_sec, UInt32.ofInt t1.tv_usec,
      UInt32.ofInt t2.tv_sec, UInt32.ofInt t2.tv_usec][k]? = some x →
      le32At answer (4 + 4 * k) = x := by
    intro k x hx
    obtain ⟨hk, rfl⟩ := List.getElem?_eq_some_iff.mp hx
    exact @le32At_flatMap _ [protocolVersion, token_h, token_l, pktTimesyncRes] 4 k rfl hk
  rw [clockDifference, ← toNat_ofInt_micros h1 hsec1.1 hsec1.2,
    ← toNat_ofInt_micros h2 hsec2.1 hsec2.2]
  rw [show le32At answer 4 = _ from @hword 0 _ rfl, show le32At answer 8 = _ from @hword 1 _ rfl,
    show le32At answer 12 = _ from @hword 2 _ rfl, show le32At answer 16 = _ from @hword 3 _ rfl]
  rfl

/-- The server's clock is 1.5 ms ahead. -/
theorem measures_iff_ahead :
    (threadDownTimesync (timesyncRequest timesyncStart 0 1 7 9 ⟨1700000000, 0⟩).2
      (timesyncAnswer [2, 7, 9, 0] ⟨1700000000, 2500⟩ ⟨1700000000, 2600⟩) 20
      ⟨1700000000, 2100⟩).Measures
      (clockDifference (timesyncRequest timesyncStart 0 1 7 9 ⟨1700000000, 0⟩).2
        (timesyncAnswer [2, 7, 9, 0] ⟨1700000000, 2500⟩ ⟨1700000000, 2600⟩) ⟨1700000000, 2100⟩) :=
  (measures_iff _ _ 20 (answered_timesyncAnswer timesyncStart 0 1 7 9 ⟨1700000000, 0⟩
    ⟨1700000000, 2500⟩ ⟨1700000000, 2600⟩ ⟨1700000000, 2100⟩ (by decide) (by decide) (by decide)
    (by decide)).1 _).mpr (by decide)

/-- **Clocks 36 minutes apart pass for synchronised**: the difference is 2³² µs. -/
theorem not_measures_apart :
    ¬ (threadDownTimesync (timesyncRequest timesyncStart 0 1 7 9 ⟨1700000000, 0⟩).2
      (timesyncAnswer [2, 7, 9, 0] ⟨1700002147, 483648⟩ ⟨1700002147, 483648⟩) 20
      ⟨1700000000, 0⟩).Measures
      (clockDifference (timesyncRequest timesyncStart 0 1 7 9 ⟨1700000000, 0⟩).2
        (timesyncAnswer [2, 7, 9, 0] ⟨1700002147, 483648⟩ ⟨1700002147, 483648⟩)
        ⟨1700000000, 0⟩) := by
  intro hmeas
  exact absurd hmeas.offset (by decide)

end LoRaGwSv
