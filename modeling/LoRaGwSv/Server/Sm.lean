import LoRaGwSv.Machinery.Batches
import LoRaGwSv.Server.Decode
import LoRaGwSv.Server.Distribute
import LoRaGwSv.Server.Inserted

/-!
# Server/Sm — distributing a new schedule

After a reset every entry has to be distributed once.  A scheduling message takes up to 31 entries
off the first group that has any left, so what is left of a group is always a tail of it (`Ready`),
and the messages of SCH1 are batches of a row of queues (`Batches.serveAll`): `sch1Loop_spec`.
-/

namespace LoRaGwSv

open Wire

/-- What is left to distribute of a group is a tail of it, each entry once. -/
structure Ready (list : SchList) (q : List SchNode) : Prop where
  sound : list.Sound
  tail : ∃ done, list.nodes = done ++ q ∧ ∀ n ∈ done, n.nboSchDist = 0
  due : ∀ n ∈ q, n.nboSchDist = 1

/-- The bytes of a node in a scheduling message. -/
def SchNode.smBytes (n : SchNode) : List UInt8 :=
  addrFormat n.addr n.cls ++ [n.slotDemand.toUInt8]

/-- The LSI the first entry of a batch starts at. -/
def firstLSI (batch : List SchNode) : UInt16 := (batch.head?.map SchNode.startLSI).getD 0

/-- The bytes of a scheduling message that lists a batch of group `i`. -/
def smBytes (p : MacParams) (NODES : MngtNodeList) (seq : UInt16) (addInfo : UInt8) (i : ℕ)
    (batch : List SchNode) : List UInt8 :=
  header p .dlSm ++ [UInt8.ofNat (pack [(seq.toNat, 4), (twohopNboSlotsInSch1, 4)])] ++
    [addInfo] ++ [dmGetNboRelays NODES] ++ [UInt8.ofNat (pack [(i, 3), (batch.length, 5)])] ++
    [(firstLSI batch).toUInt8] ++ batch.flatMap SchNode.smBytes

/-- How many of the entries of a batch are relays. -/
def nboRelaysIn (NODES : MngtNodeList) (batch : List SchNode) : ℕ :=
  batch.countP fun n => dmIsRelayNode NODES n.addr

variable {p : MacParams} {s : Mac} {S : List SchList} {Q Q' : List (List SchNode)} {c i : ℕ}
  {list list' : SchList} {q batch : List SchNode} {w : Payload} {bs : List UInt8}

/-! ## What is left of a group

What is left of a group is the tail behind the entries whose distributions have been used up.  The
loop of a scheduling message skips those, takes up to 31 of the tail, and leaves a tail again. -/

/-- The count of requests of a group is the length of what is left of it, as what is done has no
distribution left and what is left has one each. -/
theorem Ready.nboDistReq_eq (h : Ready list q) : list.nboDistReq.toNat = q.length := by
  obtain ⟨done, hnodes, hdone⟩ := h.tail
  have hzero : done.countP (fun n => decide n.Pending) = 0 :=
    List.countP_eq_zero.mpr fun n hn => by simp [hdone n hn]
  have hall : q.countP (fun n => decide n.Pending) = q.length :=
    List.countP_eq_length.mpr fun n hn => by simp [h.due n hn]
  rw [h.sound.nboDistReq_eq, hnodes, List.countP_append, hzero, hall, Nat.zero_add]

/-- The walk to the first entry left skips what is done. -/
theorem Ready.dropWhile_eq (h : Ready list q) :
    (list.nodes.dropWhile fun n => n.nboSchDist = 0) = q := by
  obtain ⟨done, hnodes, hdone⟩ := h.tail
  rw [hnodes, List.dropWhile_append_of_pos fun n hn => by simpa using hdone n hn]
  cases q with
  | nil => rfl
  | cons n q =>
    refine List.dropWhile_cons_of_neg ?_
    simp [h.due n List.mem_cons_self]

/-- A message announces as many nodes as it takes off the tail. -/
theorem Ready.smNboNodes_eq (h : Ready list q) :
    smNboNodes list = (q.take twohopMaxNboNodesInSm.toNat).length := by
  rw [smNboNodes, List.length_take, ← h.nboDistReq_eq]
  split
  case isTrue hlt =>
    rw [UInt32.lt_iff_toNat_lt] at hlt
    omega
  case isFalse hge =>
    rw [UInt32.lt_iff_toNat_lt] at hge
    omega

/-- **Carrying a batch off the front** leaves the rest of the tail. -/
theorem Ready.foldl_carry (h : Ready list q) (hl : (list.nodes.map SchNode.addr).Nodup) (c : ℕ) :
    Ready ((q.take c).foldl carry list) (q.drop c) ∧
      ((q.take c).foldl carry list).nodes.map SchNode.addr = list.nodes.map SchNode.addr := by
  obtain ⟨done, hnodes, hdone⟩ := h.tail
  have hsub : (q.take c).Sublist list.nodes :=
    (List.take_sublist c q).trans (hnodes ▸ List.sublist_append_right done q)
  have hsel : ((q.take c).map SchNode.addr).Nodup := hl.sublist (hsub.map _)
  have hmap := nodes_foldl_carry hl hsel fun n hn => hsub.subset hn
  have hparts : list.nodes = done ++ (q.take c ++ q.drop c) := by
    rw [List.take_append_drop, hnodes]
  have hd : (done.map SchNode.addr ++ ((q.take c).map SchNode.addr
      ++ (q.drop c).map SchNode.addr)).Nodup := by
    rw [← List.map_append, ← List.map_append, ← hparts]
    exact hl
  obtain ⟨-, hd', hdisj⟩ := List.nodup_append'.mp hd
  obtain ⟨-, -, hdisj'⟩ := List.nodup_append'.mp hd'
  refine ⟨⟨h.sound.foldl_carry hl hsel fun n hn => hsub.subset hn,
    ⟨done ++ (q.take c).map SchNode.carried, ?_, fun n hn => ?_⟩,
    fun n hn => h.due n (List.mem_of_mem_drop hn)⟩, ?_⟩
  · rw [hmap, hparts, List.map_append, List.map_append, map_carriedIn_self,
      map_carriedIn_of_disjoint (List.disjoint_of_disjoint_append_right_left hdisj),
      map_carriedIn_of_disjoint hdisj'.symm, List.append_assoc]
  · rcases List.mem_append.mp hn with hn | hn
    · exact hdone n hn
    · obtain ⟨x, hx, rfl⟩ := List.mem_map.mp hn
      have hwf := h.sound.wellFormed x (hsub.subset hx)
      refine UInt16.toNat_inj.mp ?_
      rw [hwf.toNat_carried, h.due x (List.mem_of_mem_take hx)]
      rfl
  · rw [hmap, List.map_map]
    exact List.map_congr_left fun n _ => n.addr_carriedIn _

/-! ## The group served

A message serves one group only, even if there is room for entries of the next. -/

theorem Ready.nboDistReq_pos (h : Ready list q) : 0 < list.nboDistReq ↔ q ≠ [] := by
  rw [UInt32.lt_iff_toNat_lt, h.nboDistReq_eq]
  exact List.length_pos_iff

/-- **The group a message serves is the first with entries left.** -/
theorem smGroup_serve {b : List SchNode} (h : List.Forall₂ Ready S Q)
    (hserve : Batches.serve c Q = some (i, b, Q')) : smGroup S = i := by
  induction h generalizing i b Q' with
  | nil => exact absurd hserve (by simp [Batches.serve])
  | @cons list q S Q hready _ ih =>
    rw [smGroup, List.findIdx_cons]
    cases q with
    | nil =>
      obtain ⟨⟨i, b, Q'⟩, hrest, heq⟩ := Option.map_eq_some_iff.mp hserve
      obtain ⟨rfl, -⟩ := Prod.mk.inj heq
      rw [decide_eq_false (mt hready.nboDistReq_pos.mp (not_not_intro rfl)), cond_false,
        ← ih hrest]
      rfl
    | cons n q =>
      obtain ⟨rfl, -⟩ : 0 = i ∧ _ := by simpa [Batches.serve] using hserve
      rw [decide_eq_true (hready.nboDistReq_pos.mpr (List.cons_ne_nil n q)), cond_true]

/-- When nothing is left of any group the search runs past the last one. -/
theorem smGroup_none (h : List.Forall₂ Ready S Q) (hserve : Batches.serve c Q = none) :
    S[smGroup S]? = none := by
  have hnil := List.flatten_eq_nil_iff.mp (Batches.serve_none hserve)
  have hlen : smGroup S = S.length := by
    clear hserve
    induction h with
    | nil => rfl
    | cons hready _ ih =>
      obtain ⟨rfl, hrest⟩ := List.forall_mem_cons.mp hnil
      rw [smGroup, List.findIdx_cons,
        decide_eq_false (mt hready.nboDistReq_pos.mp (not_not_intro rfl)), cond_false,
        List.length_cons, ← ih hrest]
      rfl
  rw [hlen]
  exact List.getElem?_eq_none le_rfl

/-! ## One message

The bytes of a message that serves a batch are those of the specification, and the state behind it
is ready for the batches behind. -/

/-- The loop over a batch carries its entries and writes each of them, and takes a slot of SCH2 for
each relay. -/
theorem smLoop_spec (lst : MngtNodeList) (list : SchList) (batch rest : List SchNode)
    (hw : w.Holds bs) (hlen : bs.length + 3 * batch.length < 256) (addInfo : UInt8) :
    ∃ w', smLoop lst batch.length (batch ++ rest) w list addInfo
        = some (w', batch.foldl carry list, addInfo + UInt8.ofNat (nboRelaysIn lst batch)) ∧
      w'.Holds (bs ++ batch.flatMap SchNode.smBytes) := by
  induction batch generalizing w bs list addInfo with
  | nil => exact ⟨w, by simp [smLoop, nboRelaysIn], by simpa using hw⟩
  | cons n batch ih =>
    rw [List.length_cons] at hlen
    have hput := (hw.put le_rfl (addrFormat n.addr n.cls) (by simp; omega)).put le_rfl
      [n.slotDemand.toUInt8] (by simp; omega)
    obtain ⟨w', hloop, hw'⟩ := ih (carry list n) hput (by simp; omega)
      (if dmIsRelayNode lst n.addr then addInfo + 1 else addInfo)
    refine ⟨w', ?_, ?_⟩
    · have hslot : (if dmIsRelayNode lst n.addr then addInfo + 1 else addInfo)
          + UInt8.ofNat (nboRelaysIn lst batch)
          = addInfo + UInt8.ofNat (nboRelaysIn lst (n :: batch)) := by
        rw [nboRelaysIn, nboRelaysIn, List.countP_cons]
        split
        · rw [UInt8.ofNat_add, UInt8.add_assoc, UInt8.add_comm 1]
          rfl
        · rfl
      exact hloop.trans (by rw [hslot]; rfl)
    · rw [List.flatMap_cons, SchNode.smBytes]
      simpa only [List.append_assoc] using hw'

/-- Replacing a group by one of the same addresses books the same addresses. -/
theorem bookings_set_addr (hget : S[i]? = some list)
    (haddr : list'.nodes.map SchNode.addr = list.nodes.map SchNode.addr) :
    (bookings (S.set i list')).map SchNode.addr = (bookings S).map SchNode.addr := by
  have hmap : ∀ S : List SchList, (bookings S).map SchNode.addr
      = (S.map fun list => list.nodes.map SchNode.addr).flatten := fun S => by
    rw [bookings, List.map_flatMap, List.flatMap_def]
  rw [hmap, hmap, Keyed.map_set_of_eq hget haddr]

/-- A group may be replaced by one with the same addresses and the same slots. -/
theorem Mac.Consistent.set (h : s.Consistent p) (hget : s.SCHEDULES[i]? = some list)
    (hsound : list'.Sound) (htot : list'.nboTotSlots = list.nboTotSlots)
    (haddr : list'.nodes.map SchNode.addr = list.nodes.map SchNode.addr) :
    Mac.Consistent p { s with SCHEDULES := s.SCHEDULES.set i list' } where
  sound := h.sound
  framed := h.framed.set hget htot
  lists x hx := by
    rcases List.mem_or_eq_of_mem_set hx with hx | rfl
    · exact h.lists x hx
    · exact hsound
  once := by
    rw [NoDoubleBooking, bookings_set_addr hget haddr]
    exact h.once
  onehop b hb := by
    have hmem : b.addr ∈ (bookings s.SCHEDULES).map SchNode.addr :=
      bookings_set_addr hget haddr ▸ List.mem_map_of_mem hb
    obtain ⟨b', hb', heq⟩ := List.mem_map.mp hmem
    exact heq ▸ h.onehop b' hb'

/-- Where something is left of group `i`, group `i` exists. -/
theorem forall₂_getElem? (h : List.Forall₂ Ready S Q) (hget : Q[i]? = some q) :
    ∃ list, S[i]? = some list ∧ Ready list q := by
  obtain ⟨hlt, rfl⟩ := List.getElem?_eq_some_iff.mp hget
  have hlt' : i < S.length := h.length_eq ▸ hlt
  exact ⟨S[i], List.getElem?_eq_getElem hlt', h.get hlt' hlt⟩

/-- Replacing one group, and what is left of it, leaves the others ready. -/
theorem forall₂_set (h : List.Forall₂ Ready S Q) (hready : Ready list q) :
    List.Forall₂ Ready (S.set i list) (Q.set i q) := by
  induction h generalizing i with
  | nil => exact .nil
  | cons hhead htail ih =>
    cases i with
    | zero => exact .cons hready htail
    | succ i => exact .cons hhead ih

/-- **When nothing is left, no message is built**, and nothing changes. -/
theorem sm_empty (hready : List.Forall₂ Ready s.SCHEDULES Q) (hserve : Batches.serve c Q = none)
    (msg : MsgInfo) (seq : UInt16) (addInfo : UInt8) :
    prepareDownlinkMsgPayload p s msg .dlSm seq addInfo = some (emptyMsg, addInfo, s) := by
  rw [prepareDownlinkMsgPayload]
  simp only [prepareSm, smGroup_none hready hserve]

/-- **A message carries the batch served**, and leaves what `serve` leaves. -/
theorem sm_served (h : s.Consistent p) (hready : List.Forall₂ Ready s.SCHEDULES Q)
    (hserve : Batches.serve twohopMaxNboNodesInSm.toNat Q = some (i, batch, Q')) (msg : MsgInfo)
    (seq : UInt16) (addInfo : UInt8) :
    ∃ w s', prepareDownlinkMsgPayload p s msg .dlSm seq addInfo
        = some (finishMsg w, addInfo + UInt8.ofNat (nboRelaysIn s.NODES batch), s') ∧
      w.Holds (smBytes p s.NODES seq addInfo i batch) ∧ s'.Consistent p ∧
      s'.NODES = s.NODES ∧ s'.RNL = s.RNL ∧ List.Forall₂ Ready s'.SCHEDULES Q' := by
  have hgroup := smGroup_serve hready hserve
  obtain ⟨q, hq, hne, rfl, rfl, -⟩ := Batches.serve_some hserve
  obtain ⟨list, hlist, hq'⟩ := forall₂_getElem? hready hq
  obtain ⟨hcarry, haddr⟩ := hq'.foldl_carry
    (Keyed.nodup_piece h.once (List.mem_of_getElem? hlist)) twohopMaxNboNodesInSm.toNat
  have hcount := hq'.smNboNodes_eq
  have hlen : (q.take twohopMaxNboNodesInSm.toNat).length ≤ 31 := List.length_take_le _ _
  obtain ⟨n, q', rfl⟩ := List.exists_cons_of_ne_nil hne
  have hhead : (firstLSI ((n :: q').take twohopMaxNboNodesInSm.toNat)) = n.startLSI := rfl
  have hw := (((((holds_header msg p .dlSm).put le_rfl
    [UInt8.ofNat (pack [(seq.toNat, 4), (twohopNboSlotsInSch1, 4)])] (by simp)).put le_rfl
    [addInfo] (by simp)).put le_rfl [dmGetNboRelays s.NODES] (by simp)).put le_rfl
    [UInt8.ofNat (pack [(i, 3), (((n :: q').take twohopMaxNboNodesInSm.toNat).length, 5)])]
    (by simp)).put le_rfl [n.startLSI.toUInt8] (by simp)
  obtain ⟨w', hloop, hw'⟩ := smLoop_spec s.NODES list
    ((n :: q').take twohopMaxNboNodesInSm.toNat) ((n :: q').drop twohopMaxNboNodesInSm.toNat) hw
    (by simp at hlen ⊢; omega) addInfo
  rw [List.take_append_drop] at hloop
  refine ⟨w', { s with SCHEDULES := s.SCHEDULES.set i _ }, ?_, ?_,
    h.set hlist hcarry.sound (nboTotSlots_foldl_carry _ _) haddr, rfl, rfl,
    forall₂_set hready hcarry⟩
  · rw [prepareDownlinkMsgPayload]
    simp only [prepareSm, hgroup, hlist, hcount, hq'.dropWhile_eq]
    rw [hloop]
    rfl
  · rw [smBytes, hhead]
    exact hw'

/-! ## The messages of SCH1 -/

/-- A message that lists a batch. -/
def MsgInfo.Lists (p : MacParams) (NODES : MngtNodeList) (msg : MsgInfo)
    (x : ℕ × List SchNode) : Prop :=
  ∃ seq addInfo, msg.bytes = smBytes p NODES seq addInfo x.1 x.2

/-- The messages of a row of batches, from one next free slot of SCH2 to another: each tells the
slot that is free before it, and its relays take theirs from there. -/
inductive SmTrain (p : MacParams) (NODES : MngtNodeList) :
    UInt8 → List MsgInfo → List (ℕ × List SchNode) → UInt8 → Prop
  | nil (sch2Sslot : UInt8) : SmTrain p NODES sch2Sslot [] [] sch2Sslot
  | cons {sch2Sslot last : UInt8} {msg : MsgInfo} {sent : List MsgInfo} {x : ℕ × List SchNode}
      {xs : List (ℕ × List SchNode)} (seq : UInt16)
      (hmsg : msg.bytes = smBytes p NODES seq sch2Sslot x.1 x.2)
      (htail : SmTrain p NODES (sch2Sslot + UInt8.ofNat (nboRelaysIn NODES x.2)) sent xs last) :
      SmTrain p NODES sch2Sslot (msg :: sent) (x :: xs) last

/-- Each message of a train lists its batch. -/
theorem SmTrain.lists {NODES : MngtNodeList} {sch2Sslot last : UInt8} {sent : List MsgInfo}
    {xs : List (ℕ × List SchNode)} (h : SmTrain p NODES sch2Sslot sent xs last) :
    List.Forall₂ (MsgInfo.Lists p NODES) sent xs := by
  induction h with
  | nil => exact .nil
  | cons seq hmsg _ ih => exact .cons ⟨seq, _, hmsg⟩ ih

/-- The size of a finished message is the number of bytes written. -/
theorem size_finishMsg (hw : w.Holds bs) : (finishMsg w).size.toNat = bs.length := by
  rw [finishMsg, UInt8.toNat_toUInt16, hw.len_eq]

/-- A scheduling message is not empty, so the loop over SCH1 sends it. -/
theorem size_ne_zero {seq : UInt16} {addInfo : UInt8} {NODES : MngtNodeList}
    (hw : w.Holds (smBytes p NODES seq addInfo i batch)) : (finishMsg w).size ≠ 0 := fun h0 => by
  have hsize := size_finishMsg hw
  rw [h0, smBytes] at hsize
  simp at hsize

/-- **The messages sent in `n` slots are the first `n` batches.** -/
theorem sch1Loop_spec (h : s.Consistent p) (hready : List.Forall₂ Ready s.SCHEDULES Q)
    (n sch1Cnt : ℕ) (dlMsg : MsgInfo) (sch2Sslot : UInt8) :
    ∃ sent sch2Sslot' s', sch1Loop p n sch1Cnt s dlMsg sch2Sslot = some (sent, sch2Sslot', s') ∧
      s'.Consistent p ∧ s'.RNL = s.RNL ∧
      SmTrain p s.NODES sch2Sslot sent (Batches.serveAll twohopMaxNboNodesInSm.toNat n Q)
        sch2Sslot' := by
  induction n generalizing s Q sch1Cnt dlMsg sch2Sslot with
  | zero => exact ⟨[], sch2Sslot, s, rfl, h, rfl, .nil sch2Sslot⟩
  | succ n ih =>
    rw [sch1Loop]
    cases hserve : Batches.serve twohopMaxNboNodesInSm.toNat Q with
    | none =>
      obtain ⟨sent, sch2Sslot', s', hloop, hcons, hrnl, hsent⟩ :=
        ih h hready (sch1Cnt + 1) emptyMsg sch2Sslot
      rw [sm_empty hready hserve, Option.bind_some]
      simp only [hloop]
      refine ⟨sent, sch2Sslot', s', rfl, hcons, hrnl, ?_⟩
      rwa [Batches.serveAll_of_none hserve] at hsent ⊢
    | some x =>
      obtain ⟨i, batch, Q'⟩ := x
      obtain ⟨w, t, hmsg, hw, hcons, hnodes, hrnl, hready'⟩ :=
        sm_served h hready hserve dlMsg (UInt16.ofNat sch1Cnt) sch2Sslot
      obtain ⟨sent, sch2Sslot', s', hloop, hcons', hrnl', hsent⟩ :=
        ih hcons hready' (sch1Cnt + 1) (finishMsg w)
          (sch2Sslot + UInt8.ofNat (nboRelaysIn s.NODES batch))
      rw [hmsg, Option.bind_some]
      simp only [hloop]
      refine ⟨finishMsg w :: sent, sch2Sslot', s', ?_, hcons', hrnl'.trans hrnl, ?_⟩
      · rw [Option.map_some, if_pos (size_ne_zero hw)]
      · rw [Batches.serveAll_of_some hserve]
        exact .cons _ (bytes_finishMsg hw) (hnodes ▸ hsent)

/-- After a reset, `schedule` leaves every entry to be distributed once. -/
theorem nboSchDist_of_reset {s₁ : Mac}
    (h : ScheduledSince .scheduleDist (resetSchedule s) s₁) :
    ∀ b ∈ bookings s₁.SCHEDULES, b.nboSchDist = 1 := fun b hb => by
  by_cases hnew : NewlyScheduled (resetSchedule s) s₁ b.addr
  · exact h.inserted b hb hnew
  · have hold := h.old b hb hnew
    rw [resetSchedule, clearSchedule, bookings_clear] at hold
    exact absurd hold List.not_mem_nil

/-- After a reset all of each group is left. -/
theorem forall₂_ready (hsound : ∀ list ∈ S, list.Sound)
    (hdue : ∀ b ∈ bookings S, b.nboSchDist = 1) :
    List.Forall₂ Ready S (S.map SchList.nodes) :=
  List.forall₂_map_right_iff.mpr (List.forall₂_same.mpr fun list hlist =>
    ⟨hsound list hlist, ⟨[], rfl, fun _ hn => absurd hn List.not_mem_nil⟩,
      fun b hb => hdue b (mem_bookings.mpr ⟨list, hlist, hb⟩)⟩)

/-- The batches a whole schedule is sent in, as far as SCH1 has room. -/
def smBatches (S : List SchList) : List (ℕ × List SchNode) :=
  Batches.serveAll twohopMaxNboNodesInSm.toNat twohopNboSlotsInSch1 (S.map SchList.nodes)

/-- **The schedule distribution phase** makes a schedule, and sends it in batches of its groups; it
follows no null pointer. -/
theorem scheduleDistributionPhase_spec (hsound : s.NODES.Sound)
    (hframed : s.Framed p) (dlMsg : MsgInfo) :
    ∃ s₁ sent sch2Sslot s₂, schedule .scheduleDist (resetSchedule s) = some s₁ ∧
      s₁.Consistent p ∧
      scheduleDistributionPhase p s dlMsg = some (sent, sch2Sslot, s₂) ∧ s₂.Consistent p ∧
      s₂.RNL = s.RNL ∧
      SmTrain p s₁.NODES 1 sent (smBatches s₁.SCHEDULES) sch2Sslot := by
  obtain ⟨s₁, hs₁, hcons, hsince⟩ :=
    schedule_spec (consistent_resetSchedule hsound hframed) .scheduleDist
  obtain ⟨sent, sch2Sslot, s₂, hloop, hcons', hrnl, hsent⟩ := sch1Loop_spec hcons
    (forall₂_ready hcons.lists (nboSchDist_of_reset hsince)) twohopNboSlotsInSch1 1 dlMsg 1
  refine ⟨s₁, sent, sch2Sslot, s₂, hs₁, hcons, ?_, hcons', hrnl.trans hsince.rnl, hsent⟩
  rw [scheduleDistributionPhase, hs₁, Option.bind_some]
  exact hloop

end LoRaGwSv
