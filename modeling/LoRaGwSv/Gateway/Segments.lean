import Mathlib.Tactic.FinCases
import LoRaGwSv.Gateway.RoundTrip
import LoRaGwSv.Machinery.Framing

/-!
# Gateway/Segments — downlinks over a stream socket

The server writes one datagram after the other to the socket, and the gateway takes each result of
`recv` for a datagram.  What begins inside of a datagram is ignored, as its first byte is not the
protocol version or its fourth no type of packet; a datagram that is cut off is no JSON; and behind
a datagram nothing is looked at.  So the gateway hands over all packets exactly if each result is
one datagram (`segments_iff`).
-/

namespace LoRaGwSv

open Text Framing

/-- A message as the MAC fills it in. -/
structure DownlinkMsg.Sent (m : DownlinkMsg) : Prop extends m.Admitted where
  upright : m.invert_pol = false

/-- What the gateway hands over for a result of `recv`, where `none` says that it has ended. -/
def takeSegment (cfg : DownConfig) (s : List UInt8) : Option (Option (Timeval × LgwPktTx)) :=
  match threadDown cfg s with
  | .ok x => some (some x)
  | .error .exit => none
  | .error _ => some none

/-- The packets that are handed over, one result of `recv` after the other. -/
def threadDownRun (cfg : DownConfig) : List (List UInt8) → List (Timeval × LgwPktTx) :=
  receive (takeSegment cfg)

/-- The packet a message is meant to become, with the time to send it at. -/
def DownlinkMsg.handed (cfg : DownConfig) (m : DownlinkMsg) : Timeval × LgwPktTx :=
  (m.msg_tx_time, m.packet cfg)

variable {cfg : DownConfig} {m : DownlinkMsg} {d s p q : List UInt8} {x : Timeval × LgwPktTx}

/-- The datagram of some message, and the packet it stands for. -/
def IsDatagram (cfg : DownConfig) (d : List UInt8) (x : Timeval × LgwPktTx) : Prop :=
  ∃ token_h token_l m sf bw cr, DownlinkMsg.Sent m ∧ m.Texts sf bw cr ∧
    d = [protocolVersion, token_h, token_l, pktDownlinkData] ++
      objectText (txpkField m sf bw cr false) [] ∧ x = m.handed cfg

/-- A text is longer than what a header lacks. -/
theorem length_objectText_txpkField (m : DownlinkMsg) (sf bw cr : List UInt8) :
    8 ≤ (objectText (txpkField m sf bw cr false) []).length := by
  have hopen := length_txpkOpen m sf bw cr
  rw [objectText_txpkField, List.length_append]
  omega

/-- **What begins with a datagram is taken for it.** -/
theorem takeSegment_whole (h : IsDatagram cfg d x) (q : List UInt8) :
    takeSegment cfg (d ++ q) = some (some x) := by
  obtain ⟨token_h, token_l, m, sf, bw, cr, hm, htexts, rfl, rfl⟩ := h
  have hparse := hm.toAdmitted.parseTxpk htexts cfg q
  have hlen := length_objectText_txpkField m sf bw cr
  rw [hm.upright] at hparse
  rw [takeSegment, List.append_assoc, threadDown_downlink, hparse]
  · rfl
  · rw [List.length_append]
    omega

/-- **A datagram that is cut off is ignored.** -/
theorem takeSegment_cut (h : IsDatagram cfg (p ++ q) x) (hq : q ≠ []) :
    takeSegment cfg p = some none := by
  obtain ⟨token_h, token_l, m, sf, bw, cr, hm, htexts, heq, rfl⟩ := h
  by_cases hshort : p.length < 12
  · rw [takeSegment, threadDown, if_pos (Or.inl hshort)]
  · obtain ⟨t, hp, ht⟩ | ⟨t, hp, ht⟩ := List.append_eq_append_iff.mp heq
    · exfalso
      have := congrArg List.length hp
      rw [List.length_append] at this
      change 4 = p.length + t.length at this
      omega
    · have hlen : 8 ≤ t.length := by
        have := congrArg List.length hp
        rw [List.length_append] at this
        change p.length = 4 + t.length at this
        omega
      rw [takeSegment, hp, threadDown_downlink hlen, parseTxpk,
        jsonParse_prefix (htexts.fields_txpk false) ht hq]
      rfl

/-- A segment that begins with another byte is dropped. -/
theorem takeSegment_version {c : UInt8} (h : s[0]? = some c) (hc : c ≠ protocolVersion) :
    takeSegment cfg s = some none := by
  rw [takeSegment, threadDown, if_pos (Or.inr (by rw [h]; simpa using hc))]

theorem takeSegment_type {c : UInt8} (h : s[3]? = some c)
    (hc : c ∉ [pktDownlinkData, pktUplinkAck, pktTimesyncRes]) :
    takeSegment cfg s = some none := by
  simp only [List.mem_cons, List.not_mem_nil, or_false, not_or] at hc
  have hdata : ¬s[3]? = some pktDownlinkData := by
    rw [h]
    simpa using hc.1
  have hother : ¬(s[3]? = some pktUplinkAck ∨ s[3]? = some pktTimesyncRes) := by
    rw [h]
    simpa using hc.2
  rw [takeSegment, threadDown, if_neg hdata, if_neg hother]
  split <;> rename_i heq <;> split at heq <;> cases heq <;> rfl

theorem exists_four (h : 4 ≤ s.length) :
    ∃ s0 s1 s2 s3 s', s = s0 :: s1 :: s2 :: s3 :: s' := by
  rcases s with _ | ⟨s0, _ | ⟨s1, _ | ⟨s2, _ | ⟨s3, s'⟩⟩⟩⟩
  · simp at h
  · simp at h
  · simp at h
  · simp at h
  · exact ⟨s0, s1, s2, s3, s', rfl⟩

/-- **What begins inside of a datagram is ignored.** -/
theorem takeSegment_inside {a r : List UInt8} (h : IsDatagram cfg (a ++ p) x) (ha : a ≠ [])
    (hp : p ≠ []) (hs : s ≠ []) (heq : s ++ q = p ++ r) : takeSegment cfg s = some none := by
  obtain ⟨token_h, token_l, m, sf, bw, cr, hm, htexts, hd, rfl⟩ := h
  by_cases hshort : s.length < 12
  · rw [takeSegment, threadDown, if_pos (Or.inl hshort)]
  have hfields : Fields 2 [txpkField m sf bw cr false] := htexts.fields_txpk false
  have hprintable := (Denotes.object hfields).printable
  obtain ⟨u, hu⟩ : ∃ u, objectText (txpkField m sf bw cr false) [] = 123 :: 34 :: 116 :: u :=
    ⟨_, rfl⟩
  obtain ⟨s0, s1, s2, s3, s', rfl⟩ := exists_four (s := s) (by omega)
  have hfirst := congrArg (·[0]?) heq
  have htype := congrArg (·[3]?) heq
  rcases a with _ | ⟨_, _ | ⟨_, _ | ⟨_, _ | ⟨_, a⟩⟩⟩⟩
  · exact absurd rfl ha
  · rw [hu] at hd
    obtain rfl := (List.cons.inj hd).2
    exact takeSegment_type htype (by decide)
  · rw [hu] at hd
    obtain rfl := (List.cons.inj (List.cons.inj hd).2).2
    exact takeSegment_type htype (by decide)
  · rw [hu] at hd
    obtain rfl := (List.cons.inj (List.cons.inj (List.cons.inj hd).2).2).2
    exact takeSegment_type htype (by decide)
  · have htext : a ++ p = objectText (txpkField m sf bw cr false) [] :=
      (List.cons.inj (List.cons.inj (List.cons.inj (List.cons.inj hd).2).2).2).2
    obtain ⟨c, p, rfl⟩ := List.exists_cons_of_ne_nil hp
    have hle := hprintable c (by rw [← htext]; simp)
    refine takeSegment_version hfirst ?_
    rintro rfl
    exact absurd hle (by decide)

/-- **The datagrams of the server frame themselves** for this receiver. -/
theorem framed_takeSegment (cfg : DownConfig) : Framed (takeSegment cfg) (IsDatagram cfg) where
  whole := takeSegment_whole
  cut := takeSegment_cut
  inside h ha hp _ _ _ hs heq := takeSegment_inside h ha hp hs heq

/-! ## What is written -/

/-- What the server writes is one of them. -/
theorem isDatagram_threadDownstream (cfg : DownConfig) (hm : m.Sent) (buff_down : ℕ → UInt8)
    (token_h token_l : UInt8) :
    ∃ d, threadDownstream buff_down token_h token_l m = some d ∧
      IsDatagram cfg d (m.handed cfg) := by
  obtain ⟨sf, bw, cr, htexts⟩ := hm.toAdmitted.texts
  exact ⟨_, hm.toAdmitted.threadDownstream_eq htexts hm.upright,
    token_h, token_l, m, sf, bw, cr, hm, htexts, rfl, rfl⟩

/-- **A datagram is written for each message**, and stands for its packet. -/
theorem threadDownstreamRun_sent (cfg : DownConfig) {ms : List (UInt8 × UInt8 × DownlinkMsg)}
    (hms : ∀ x ∈ ms, x.2.2.Sent) (buff_down : ℕ → UInt8) :
    ∃ ds : List (List UInt8 × (Timeval × LgwPktTx)),
      threadDownstreamRun buff_down ms = some (ds.map Prod.fst) ∧
      ds.map Prod.snd = ms.map (fun x => x.2.2.handed cfg) ∧ ∀ d ∈ ds, IsDatagram cfg d.1 d.2 := by
  induction ms generalizing buff_down with
  | nil => exact ⟨[], rfl, rfl, fun _ hd => by cases hd⟩
  | cons x ms ih =>
    obtain ⟨token_h, token_l, m⟩ := x
    obtain ⟨d, hd, hx⟩ := isDatagram_threadDownstream cfg (hms _ List.mem_cons_self) buff_down
      token_h token_l
    obtain ⟨ds, hrun, hsnd, hds⟩ := ih (fun x hx => hms x (List.mem_cons_of_mem _ hx))
      (leftBehind buff_down d)
    refine ⟨(d, m.handed cfg) :: ds, ?_, ?_, ?_⟩
    · rw [threadDownstreamRun, hd, Option.bind_eq_bind, Option.bind_some, hrun]
      rfl
    · rw [List.map_cons, hsnd]
      rfl
    · rintro y hy
      obtain rfl | hy := List.mem_cons.mp hy
      · exact hx
      · exact hds y hy

/-- **The gateway hands over the packets of the messages, each once and in order, exactly if each
result of `recv` is one datagram.** -/
theorem segments_iff (cfg : DownConfig) {ms : List (UInt8 × UInt8 × DownlinkMsg)}
    {ds segs : List (List UInt8)} (hms : ∀ x ∈ ms, x.2.2.Sent)
    (hwritten : threadDownstreamRun (fun _ => 0) ms = some ds)
    (hsegs : ∀ s ∈ segs, 1 ≤ s.length ∧ s.length ≤ 1023) (hcut : segs.flatten = ds.flatten) :
    threadDownRun cfg segs = ms.map (fun x => x.2.2.handed cfg) ↔ segs = ds := by
  obtain ⟨pairs, hrun, hsnd, hpairs⟩ := threadDownstreamRun_sent cfg hms fun _ => 0
  obtain rfl : pairs.map Prod.fst = ds := Option.some.inj (hrun.symm.trans hwritten)
  rw [threadDownRun, ← hsnd]
  refine (framed_takeSegment cfg).receive_eq_iff (fun s hs => ?_) hpairs hcut
  exact List.ne_nil_of_length_pos (hsegs s hs).1

/-- The datagram for the message of three bytes. -/
def threeBytesDatagram (token_h token_l : UInt8) : List UInt8 :=
  [2, token_h, token_l, 2] ++ ascii "\x7b\"txpk\":\x7b\"tm_s\":1500000000,\"tm_us\":250000" ++
    ascii ",\"imme\":true,\"rfch\":0,\"freq\":922.100000,\"powe\":23,\"modu\":\"LORA\"" ++
    ascii ",\"datr\":\"SF7BW125\",\"codr\":\"4/5\",\"ipol\":false,\"prea\":8,\"size\":3" ++
    ascii ",\"data\":\"AQID\"\x7d\x7d"

/-- The message of three bytes is sent by the server. -/
theorem sent_threeBytes : threeBytes.Sent := { admitted_threeBytes with upright := rfl }

theorem threadDownstreamRun_threeBytes :
    threadDownstreamRun (fun _ => 0) [(7, 9, threeBytes), (8, 10, threeBytes)] =
      some [threeBytesDatagram 7 9, threeBytesDatagram 8 10] := by
  decide +kernel

/-- Both are handed over if each comes in a segment of its own. -/
theorem segments_iff_threeBytes :
    threadDownRun ⟨fun _ => 922100000, 0⟩ [threeBytesDatagram 7 9, threeBytesDatagram 8 10] =
      [threeBytes.handed ⟨fun _ => 922100000, 0⟩, threeBytes.handed ⟨fun _ => 922100000, 0⟩] := by
  refine (segments_iff ⟨fun _ => 922100000, 0⟩ ?_ threadDownstreamRun_threeBytes ?_ rfl).mpr rfl
  · intro x hx
    fin_cases hx <;> exact sent_threeBytes
  · decide +kernel

/-- Two datagrams that arrive together are taken for the first of them. -/
theorem not_segments_coalesced : ¬∀ (ms : List (UInt8 × UInt8 × DownlinkMsg))
    (ds segs : List (List UInt8)), (∀ x ∈ ms, x.2.2.Sent) →
    threadDownstreamRun (fun _ => 0) ms = some ds →
    (∀ s ∈ segs, 1 ≤ s.length ∧ s.length ≤ 1023) → segs.flatten = ds.flatten →
    threadDownRun ⟨fun _ => 922100000, 0⟩ segs =
      ms.map (fun x => x.2.2.handed ⟨fun _ => 922100000, 0⟩) := by
  intro hall
  obtain ⟨d, hd, hdatagram⟩ := isDatagram_threadDownstream ⟨fun _ => 922100000, 0⟩
    sent_threeBytes (fun _ => 0) 7 9
  have hfirst : threadDownstream (fun _ => 0) 7 9 threeBytes = some (threeBytesDatagram 7 9) := by
    decide +kernel
  obtain rfl : threeBytesDatagram 7 9 = d := Option.some.inj (hfirst.symm.trans hd)
  have htake := takeSegment_whole hdatagram (threeBytesDatagram 8 10)
  have htwo := hall _ _ [threeBytesDatagram 7 9 ++ threeBytesDatagram 8 10]
    (fun x hx => by fin_cases hx <;> exact sent_threeBytes) threadDownstreamRun_threeBytes
    (by decide +kernel) (by simp)
  rw [threadDownRun, receive, htake] at htwo
  exact absurd (congrArg List.length htwo) (by decide)

end LoRaGwSv
