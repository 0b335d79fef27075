import LoRaGwSv.Server.Received
import LoRaGwSv.Server.UplinkHop

/-!
# Server/Uplinks — uplinks from the radio of a gateway to the state of the server

What a gateway has fetched goes to the server as a datagram, is put into `inboundMsgQueue` message
by message, and `inputMsgHandlerThread` handles the queue until it is empty.  **The way does not
show in what comes of it**, if the handler gets to work after each datagram and the messages are not
cut short: the server ends in the state in which the packets themselves, one after the other, would
have left it (`uplinks_handled`).
-/

namespace LoRaGwSv

/-- What a gateway has fetched; what its datagram carries besides, the socket it comes in at, and
where `malloc` proposes to put the nodes of the queue. -/
structure UplinkTurn where
  net_mac : Vector UInt8 8
  token_h : UInt8
  token_l : UInt8
  sock : ℤ
  proposed : ℕ → ℕ
  rxpkt : List LgwPktRx

/-- `inputMsgHandlerThread` takes messages from its queue and handles them until it is empty, `n` of
them at most. -/
def handleQueue : ℕ → InputState → PktQueue UplinkMsg → Option (InputState × PktQueue UplinkMsg)
  | 0, s, queue => some (s, queue)
  | n + 1, s, queue =>
    if isPktQueueEmpty queue then some (s, queue)
    else (pktRemove queue).bind fun (msg, queue) =>
      (inputMsgHandler s msg.toMsgInfo).bind fun s => handleQueue n s queue

/-- The datagram of a gateway is read, and what it brings is handled. -/
def UplinkTurn.step (x : InputState × PktQueue UplinkMsg) (u : UplinkTurn) :
    Option (InputState × PktQueue UplinkMsg) :=
  (uplinkHop u.net_mac u.token_h u.token_l u.sock u.proposed x.2 u.rxpkt).bind fun queue =>
    handleQueue pktQueueMax x.1 queue

/-- A packet as a message of the MAC. -/
def LgwPktRx.msg (p : LgwPktRx) : MsgInfo := ⟨p.size, p.payload⟩

/-- The messages a gateway has received. -/
def UplinkTurn.msgs (u : UplinkTurn) : List MsgInfo :=
  (u.rxpkt.filter LgwPktRx.ok).map LgwPktRx.msg

/-- What a gateway has fetched gets to the server: the packets whose CRC is right have been received
with LoRa, and their datagram is read at once. -/
structure UplinkTurn.Clear (u : UplinkTurn) : Prop where
  fetched : ∀ p ∈ u.rxpkt, p.Fetched
  length_le : u.rxpkt.length ≤ nbPktMax
  lora : ∀ p ∈ u.rxpkt.filter LgwPktRx.ok, p.modulation = modLora
  short : 22 + ((u.rxpkt.filter LgwPktRx.ok).map rxpkSize).sum ≤ 511

variable {s t : InputState} {queue : PktQueue UplinkMsg} {cells : List (ℕ × UplinkMsg)}
  {u : UplinkTurn} {msgs : List MsgInfo}

/-! ## The queue

The queue is a list in a heap; the handler sees only the messages in it. -/

/-- **The handler empties its queue**, and does what the messages do one after the other. -/
theorem handleQueue_eq {n : ℕ} (hqueue : queue.Holds cells) (hn : cells.length ≤ n)
    (hrun : Runs.run inputMsgHandler s (cells.map fun c => c.2.toMsgInfo) = some t) :
    ∃ queue', handleQueue n s queue = some (t, queue') ∧ queue'.Holds [] := by
  induction n generalizing s queue cells with
  | zero =>
    obtain rfl := List.length_eq_zero_iff.mp (Nat.le_zero.mp hn)
    obtain rfl := Option.some.inj hrun
    exact ⟨queue, rfl, hqueue⟩
  | succ n ih =>
    rw [handleQueue]
    cases cells with
    | nil =>
      obtain rfl := Option.some.inj hrun
      rw [if_pos (hqueue.isPktQueueEmpty_iff.mpr rfl)]
      exact ⟨queue, rfl, hqueue⟩
    | cons c cells =>
      obtain ⟨queue', hremove, hrest⟩ := hqueue.pktRemove
      obtain ⟨s', hs', hrun⟩ := Option.bind_eq_some_iff.mp hrun
      obtain ⟨queue'', hrec, hempty⟩ := ih hrest (Nat.le_of_succ_le_succ hn) hrun
      rw [if_neg (by rw [hqueue.isPktQueueEmpty_iff]; exact List.cons_ne_nil c cells), hremove]
      exact ⟨queue'', Option.bind_eq_some_iff.mpr ⟨(c.2, queue'), rfl,
        Option.bind_eq_some_iff.mpr ⟨s', hs', hrec⟩⟩, hempty⟩

/-! ## One datagram -/

/-- A message that carries a packet has received what the packet has. -/
theorem LgwPktRx.CarriedBy.sameReceived {p : LgwPktRx} {m : UplinkMsg} (h : p.CarriedBy m) :
    SameReceived p.msg m.toMsgInfo where
  size := h.size
  payload i hi := by
    have hi : i < p.size.toNat := hi
    have htake : (m.payload.toList.take p.size.toNat)[i]?
        = (p.payload.toList.take p.size.toNat)[i]? := congrArg (fun bs => bs[i]?) h.payload
    rw [List.getElem?_take_of_lt hi, List.getElem?_take_of_lt hi] at htake
    rw [Wire.byteAt, Wire.byteAt, List.getD_eq_getElem?_getD, List.getD_eq_getElem?_getD, htake]
    rfl

/-- Messages of which enough has been received are handled like any others of which the same has
been received. -/
theorem run_sameReceived {msgs' rest : List MsgInfo} (h : List.Forall₂ SameReceived msgs msgs')
    (hreceived : Runs.EachStep inputMsgHandler (fun s msg => msg.Received s) s (msgs ++ rest)) :
    ∃ t, Runs.run inputMsgHandler s msgs = some t ∧ Runs.run inputMsgHandler s msgs' = some t ∧
      Runs.EachStep inputMsgHandler (fun s msg => msg.Received s) t rest := by
  induction h generalizing s with
  | nil => exact ⟨s, rfl, rfl, hreceived⟩
  | @cons msg msg' msgs msgs' hsame _ ih =>
    obtain ⟨s', hs', hhead⟩ :=
      hreceived [] msg (List.cons_prefix_cons.mpr ⟨rfl, List.nil_prefix⟩)
    obtain rfl : s = s' := Option.some.inj hs'
    obtain ⟨t, ht, ht'⟩ := hhead.onlyReceived msg' hsame
    obtain ⟨u, hu, hu', hrest⟩ := ih ((Runs.eachStep_cons ht _).mp hreceived).2
    exact ⟨u, (Runs.run_cons ht msgs).trans hu, (Runs.run_cons ht' msgs').trans hu', hrest⟩

/-- What a clear turn has fetched arrives, also if it has nothing to send. -/
theorem UplinkTurn.Clear.arrives (h : u.Clear) (hqueue : queue.Holds []) :
    Arrives u.net_mac u.token_h u.token_l u.sock u.proposed queue u.rxpkt := by
  have hlora := h.lora
  have hshort := h.short
  cases hok : u.rxpkt.filter LgwPktRx.ok with
  | nil =>
    refine ⟨queue, [], ?_, hqueue, hok ▸ .nil⟩
    rw [uplinkHop, threadUp_eq_none h.fetched hok]
  | cons y ys =>
    rw [hok] at hlora hshort
    exact UplinkBatch.arrives ⟨h.fetched, h.length_le, hok⟩ hqueue hlora hshort

/-- **A datagram comes to what its packets come to.** -/
theorem UplinkTurn.Clear.step (h : u.Clear) (hqueue : queue.Holds []) {rest : List MsgInfo}
    (hreceived : Runs.EachStep inputMsgHandler (fun s msg => msg.Received s) s (u.msgs ++ rest)) :
    ∃ t queue', u.step (s, queue) = some (t, queue') ∧ queue'.Holds [] ∧
      Runs.run inputMsgHandler s u.msgs = some t ∧
      Runs.EachStep inputMsgHandler (fun s msg => msg.Received s) t rest := by
  obtain ⟨queue', cells, hhop, hcells, hcarried⟩ := h.arrives hqueue
  have hsame : List.Forall₂ SameReceived u.msgs (cells.map fun c => c.2.toMsgInfo) := by
    rw [msgs, List.forall₂_map_left_iff, List.forall₂_map_right_iff]
    rw [List.forall₂_map_right_iff] at hcarried
    exact hcarried.imp fun p c hc => hc.sameReceived
  obtain ⟨t, ht, ht', hrest⟩ := run_sameReceived hsame hreceived
  have hlen : cells.length ≤ pktQueueMax := by
    have heq := hsame.length_eq
    rw [List.length_map, msgs, List.length_map] at heq
    rw [← heq]
    exact ((List.length_filter_le _ _).trans h.length_le).trans (by decide)
  obtain ⟨queue'', hhandle, hempty⟩ := handleQueue_eq hcells hlen ht'
  exact ⟨t, queue'', Option.bind_eq_some_iff.mpr ⟨queue', hhop, hhandle⟩, hempty, ht, hrest⟩

/-! ## A run of datagrams -/

/-- **The way from the radio to the MAC does not show**: over any row of datagrams that get to the
server, from whichever gateways, and are handled before the next, the server ends in the state in
which the packets whose CRC is right would have left it, handled one after the other, as long as
enough has been received of each for what is read of it. -/
theorem uplinks_handled (us : List UplinkTurn) (hclear : ∀ u ∈ us, u.Clear) (s : InputState)
    (hreceived : Runs.EachStep inputMsgHandler (fun s msg => msg.Received s) s
      (us.flatMap UplinkTurn.msgs)) :
    ∃ t queue, Runs.run UplinkTurn.step (s, pktQueueInit Heap.empty) us = some (t, queue) ∧
      queue.Holds [] ∧ Runs.run inputMsgHandler s (us.flatMap UplinkTurn.msgs) = some t := by
  have hrun : ∀ (queue : PktQueue UplinkMsg), queue.Holds [] →
      ∃ t queue', Runs.run UplinkTurn.step (s, queue) us = some (t, queue') ∧
        queue'.Holds [] ∧ Runs.run inputMsgHandler s (us.flatMap UplinkTurn.msgs) = some t := by
    induction us generalizing s with
    | nil => exact fun queue hqueue => ⟨s, queue, rfl, hqueue, rfl⟩
    | cons u us ih =>
      intro queue hqueue
      obtain ⟨hu, hus⟩ := List.forall_mem_cons.mp hclear
      obtain ⟨t, queue', hstep, hqueue', ht, hrest⟩ := hu.step hqueue hreceived
      obtain ⟨t', queue'', hrun, hempty, ht'⟩ := ih hus t hrest queue' hqueue'
      refine ⟨t', queue'', (Runs.run_cons hstep us).trans hrun, hempty, ?_⟩
      rw [List.flatMap_cons, Runs.run_append, ht, Option.bind_some, ht']
  exact hrun _ (holds_pktQueueInit Heap.empty)

/-- A node at address 1, of class 2, registers itself. -/
def requestPkt : LgwPktRx :=
  { receivedLora with
    size := 8
    payload := Wire.copy (Vector.replicate 256 0) 0
      ([0x30, 0, 0, 0xBE, 0xAE, 0] ++ Wire.le16 (TwohopNodeAddrFormat.ofBits 1 2).value) }

/-- The request arrives behind a packet whose CRC is wrong. -/
def requestTurn : UplinkTurn :=
  ⟨Vector.replicate 8 0, 7, 9, 4, fun i => i, [{ receivedLora with status := 0 }, requestPkt]⟩

theorem clear_requestTurn : requestTurn.Clear where
  fetched p hp := by
    simp only [requestTurn, List.mem_cons, List.not_mem_nil, or_false] at hp
    obtain rfl | rfl := hp
    all_goals exact ⟨by decide, Or.inr ⟨rfl, by decide, by decide⟩⟩
  length_le := by decide
  lora := by decide
  short := by decide +kernel

theorem received_requestPkt (s : InputState) : requestPkt.msg.Received s where
  type := by decide
  request _ := Or.inr (Or.inr ⟨by decide, by decide +kernel⟩)
  data htype := absurd htype (by decide +kernel)

theorem uplinks_handled_request : ∃ t queue, Runs.run UplinkTurn.step
    (⟨twohopLoRaMacInit macDefaults, wsAppInit⟩, pktQueueInit Heap.empty) [requestTurn]
      = some (t, queue) ∧ queue.Holds [] ∧
    Runs.run inputMsgHandler ⟨twohopLoRaMacInit macDefaults, wsAppInit⟩
      ([requestTurn].flatMap UplinkTurn.msgs) = some t := by
  refine uplinks_handled [requestTurn] ?_ _ ?_
  · simp [clear_requestTurn]
  · have hreceived := received_requestPkt ⟨twohopLoRaMacInit macDefaults, wsAppInit⟩
    obtain ⟨t, ht, -⟩ := hreceived.onlyReceived requestPkt.msg ⟨rfl, fun _ _ => rfl⟩
    exact (Runs.eachStep_cons ht []).mpr ⟨hreceived, Runs.eachStep_nil⟩

end LoRaGwSv
