import LoRaGwSv.Server.Announced
import LoRaGwSv.Server.PhaseRuns

/-!
# Server/Told — the slots that nodes are told do not collide

A node that finds itself in a scheduling message takes the slots behind those of the nodes listed
before it, from the start that the message gives (`SmMsg.told`).  Whatever has registered before and
whatever comes in while the messages go out, **the slots told in one schedule distribution are those
of the schedule it was made with, and no two nodes of a group are told a common one**
(`told_run`).
-/

namespace LoRaGwSv

open SlotLine Wire

/-- The slots of one node, in the group that is told them. -/
structure Told where
  groupId : ℕ
  addr : ℕ
  slot : Slot
deriving DecidableEq, Repr

/-- Each node takes the slots behind those of the nodes listed before it. -/
def toldFrom (groupId : ℕ) : ℕ → List ((ℕ × ℕ) × ℕ) → List Told
  | _, [] => []
  | start, n :: nodes => ⟨groupId, n.1.1, ⟨start, n.2⟩⟩ :: toldFrom groupId (start + n.2) nodes

/-- What the nodes that a message lists take from it. -/
def SmMsg.told (sm : SmMsg) : List Told := toldFrom sm.groupId sm.startLSI sm.nodes

/-- The slots that an entry of the group `i` is booked for. -/
def SchNode.told (i : ℕ) (n : SchNode) : Told := ⟨i, n.addr.toNat, n.slot⟩

/-- Each one-hop node demands a slot at least, and no more of them than there are. -/
def MngtNodeList.FitsFrame (T : ℕ) (lst : MngtNodeList) : Prop :=
  ∀ n ∈ lst.nodes, n.genInfo.type = .onehop →
    1 ≤ n.genInfo.slotDmn.toNat ∧ n.genInfo.slotDmn.toNat ≤ T

instance (T : ℕ) (lst : MngtNodeList) : Decidable (lst.FitsFrame T) :=
  inferInstanceAs (Decidable (∀ n ∈ lst.nodes, _ → _))

/-- No node is told slots twice, all are in the frame, and no two nodes of a group share one. -/
structure Collisionless (T : ℕ) (told : List Told) : Prop where
  once : (told.map Told.addr).Nodup
  within : ∀ t ∈ told, 1 ≤ t.slot.start ∧ t.slot.stop ≤ T + 1
  apart : told.Pairwise fun a b => a.groupId = b.groupId → Disjoint a.slot.cells b.slot.cells

variable {p : MacParams} {s : Server} {mac mac' made : Mac} {S : List SchList} {list : SchList}
  {batch : List SchNode} {T i j lo : ℕ} {n m : SchNode} {r : PhaseRecord} {stack : MsgInfo}

/-! ## One message

A message tells a node no slot, but only how many it has.  Its slots start at the first LSI of the
message, moved on by all demands listed before its own, which is right if the group has no holes. -/

/-- A node that adds up the demands before it comes to the slot it is booked for, as long as there
are no holes. -/
theorem toldFrom_of_gapless (i : ℕ) (h : Gapless lo (batch.map SchNode.slot)) :
    toldFrom i lo (batch.map fun n => ((n.addr.toNat, n.cls.toNat), n.slotDemand.toNat))
      = batch.map (SchNode.told i) := by
  induction batch generalizing lo with
  | nil => rfl
  | cons n batch ih =>
    have hstart : n.slot.start = lo := h.1
    have hnext : lo + n.slotDemand.toNat = n.slot.stop := by
      rw [← hstart]
      rfl
    rw [List.map_cons, List.map_cons, toldFrom, hnext, ih h.2, ← hstart]
    rfl

/-- A batch of a tight group has no hole either. -/
theorem SchList.Tight.gapless_batch (h : list.Tight T) (hbatch : batch <:+: list.nodes) :
    Gapless (firstLSI batch).toNat (batch.map SchNode.slot) := by
  obtain ⟨pre, post, hnodes⟩ := hbatch
  have hgapless := h.gapless
  rw [slots, ← hnodes, List.append_assoc, List.map_append, List.map_append] at hgapless
  have hrest := hgapless.drop.of_append
  cases batch with
  | nil => trivial
  | cons n batch =>
    have hstart : n.slot.start = _ := hrest.1
    rw [← hstart] at hrest
    exact hrest

/-- **A batch of a tight group tells its nodes the slots that they are booked for.** -/
theorem SchList.Tight.toldFrom_batch (h : list.Tight (2 ^ p.macFrameFactor))
    (hbatch : batch <:+: list.nodes) :
    toldFrom i (firstLSI batch).toUInt8.toNat
        (batch.map fun n => ((n.addr.toNat, n.cls.toNat), n.slotDemand.toNat))
      = batch.map (SchNode.told i) := by
  rw [h.toNat_firstLSI hbatch]
  exact toldFrom_of_gapless i (h.gapless_batch hbatch)

/-! ## All messages of a schedule

The batches are pieces of the groups, so what holds of the bookings holds of what is told. -/

/-- What is told when all batches of a schedule are sent. -/
def toldBySchedule (S : List SchList) : List Told :=
  (smBatches S).flatMap fun x => x.2.map (SchNode.told x.1)

/-- What the messages tell is what the batches of the schedule tell. -/
theorem told_of_content {sms : List SmMsg}
    (htight : ∀ list ∈ S, list.Tight (2 ^ p.macFrameFactor))
    (h : sms.map SmMsg.content = (smBatches S).map batchContent) :
    sms.flatMap SmMsg.told = toldBySchedule S := by
  have hsms : sms.flatMap SmMsg.told
      = (sms.map SmMsg.content).flatMap fun c => toldFrom c.1 c.2.1 c.2.2 := by
    rw [List.flatMap_map]
    rfl
  rw [hsms, h, List.flatMap_map, toldBySchedule]
  refine List.flatMap_congr fun x hx => ?_
  obtain ⟨list, hlist, hbatch, -⟩ := mem_smBatches hx
  exact (htight list (List.mem_of_getElem? hlist)).toldFrom_batch hbatch

/-- Each slot that is told is that of a booking. -/
theorem exists_of_mem_told {x : Told} (hx : x ∈ toldBySchedule S) :
    ∃ list n, S[x.groupId]? = some list ∧ n ∈ list.nodes ∧ x = n.told x.groupId := by
  obtain ⟨b, hb, hx⟩ := List.mem_flatMap.mp hx
  obtain ⟨n, hn, rfl⟩ := List.mem_map.mp hx
  obtain ⟨list, hlist, hbatch, -⟩ := mem_smBatches hb
  exact ⟨list, n, hlist, hbatch.subset hn, rfl⟩

/-- An address is booked in one group only, and once there. -/
theorem NoDoubleBooking.eq_of_addr_eq {list' : SchList} (h : NoDoubleBooking S)
    (hi : S[i]? = some list) (hj : S[j]? = some list') (hn : n ∈ list.nodes)
    (hm : m ∈ list'.nodes) (haddr : n.addr = m.addr) : i = j ∧ n = m := by
  rw [NoDoubleBooking, bookings, List.map_flatMap, List.nodup_flatMap] at h
  obtain ⟨hilt, rfl⟩ := List.getElem?_eq_some_iff.mp hi
  obtain ⟨hjlt, rfl⟩ := List.getElem?_eq_some_iff.mp hj
  have hdisjoint := List.pairwise_iff_getElem.mp h.2
  have hgroup : i = j := by
    rcases Nat.lt_trichotomy i j with hlt | heq | hlt
    · exact absurd (List.mem_map_of_mem (f := SchNode.addr) hm) (haddr ▸
        hdisjoint i j hilt hjlt hlt (List.mem_map_of_mem hn))
    · exact heq
    · exact absurd (List.mem_map_of_mem (f := SchNode.addr) hn) (haddr ▸
        hdisjoint j i hjlt hilt hlt (List.mem_map_of_mem hm))
  subst hgroup
  exact ⟨rfl, List.inj_on_of_nodup_map (h.1 _ (List.getElem_mem hilt)) hn hm haddr⟩

theorem nodup_told (h : NoDoubleBooking S) : ((toldBySchedule S).map Told.addr).Nodup := by
  have haddr : (toldBySchedule S).map Told.addr
      = ((smBatches S).flatMap fun x => x.2.map SchNode.addr).map UInt16.toNat := by
    rw [toldBySchedule, List.map_flatMap, List.map_flatMap]
    simp only [List.map_map]
    rfl
  rw [haddr]
  exact (nodup_smBatches h).map fun _ _ => UInt16.toNat_inj.mp

/-- **The slots of a schedule do not collide.** -/
theorem collisionless_told (h : NoDoubleBooking S) (htight : ∀ list ∈ S, list.Tight T) :
    Collisionless T (toldBySchedule S) := by
  refine ⟨nodup_told h, fun x hx => ?_, ?_⟩
  · obtain ⟨list, n, hlist, hn, hx⟩ := exists_of_mem_told hx
    have hin := (htight list (List.mem_of_getElem? hlist)).packedIn.packed.within n.slot
      (List.mem_map_of_mem hn)
    rw [hx]
    exact ⟨hin.1, hin.2.2⟩
  · refine (List.pairwise_map.mp (nodup_told h)).imp_of_mem fun {a b} ha hb hne hgroup => ?_
    obtain ⟨list, n, hlist, hn, ha⟩ := exists_of_mem_told ha
    obtain ⟨list', m, hlist', hm, hb⟩ := exists_of_mem_told hb
    rw [← hgroup] at hlist'
    obtain rfl : list = list' := Option.some.inj (hlist.symm.trans hlist')
    have hdisjoint := List.pairwise_map.mp
      (htight list (List.mem_of_getElem? hlist)).packedIn.packed.disjoint
    rw [ha, hb]
    have : Std.Symm fun a b : SchNode => Disjoint a.slot.cells b.slot.cells :=
      ⟨fun _ _ hab => hab.symm⟩
    refine hdisjoint.forall hn hm fun heq => hne ?_
    rw [ha, hb, heq]
    rfl

/-- **Where the batches fit the messages, every entry is told its slots.** -/
theorem mem_told (h : NoDoubleBooking S)
    (hroom : (S.map fun list => (list.nodes.length + 30) / 31).sum ≤ twohopNboSlotsInSch1)
    (hlist : S[i]? = some list) (hn : n ∈ list.nodes) : n.told i ∈ toldBySchedule S := by
  have hbooked : n ∈ bookings S := mem_bookings.mpr ⟨list, List.mem_of_getElem? hlist, hn⟩
  have haddr := List.mem_map_of_mem (f := SchNode.addr) hbooked
  rw [← smBatches_complete hroom] at haddr
  obtain ⟨x, hx, haddr⟩ := List.mem_flatMap.mp haddr
  obtain ⟨m, hm, haddr⟩ := List.mem_map.mp haddr
  obtain ⟨list', hlist', hbatch, -⟩ := mem_smBatches hx
  obtain ⟨hgroup, rfl⟩ := h.eq_of_addr_eq hlist' hlist (hbatch.subset hm) hn haddr
  exact List.mem_flatMap.mpr ⟨x, hx, hgroup ▸ List.mem_map_of_mem hm⟩

/-! ## The schedule a phase makes -/

theorem fitsFrame_iff {lst : MngtNodeList} (hd : lst.Distinct) : lst.FitsFrame T ↔
    ∀ a e, lst.registry a = some e → e.genInfo.type = .onehop →
      1 ≤ e.genInfo.slotDmn.toNat ∧ e.genInfo.slotDmn.toNat ≤ T :=
  hd.forall_mem_iff (P := fun n => n.genInfo.type = .onehop →
    1 ≤ n.genInfo.slotDmn.toNat ∧ n.genInfo.slotDmn.toNat ≤ T) fun _ => Iff.rfl

/-- `schedule` does not touch what the nodes demand. -/
theorem fitsFrame_of_schedule {phase : OperationPhase} (h : mac.Consistent p)
    (hschedule : schedule phase mac = some mac') (hfits : mac'.NODES.FitsFrame T) :
    mac.NODES.FitsFrame T := by
  obtain ⟨made, hmade, -, hback⟩ : ∃ made, schedule phase mac = some made ∧
      made.Consistent p ∧ (made.NODES.FitsFrame T → mac.NODES.FitsFrame T) := by
    refine schedule_rule (fun t i ht => ?_) ⟨h, id⟩
    obtain ⟨t', ht', rfl | ⟨n, hn, honehop, hflag, hturn⟩⟩ := scheduleStep_cases ht.1.sound phase i
    · exact ⟨t', ht', ht⟩
    have hcons := ht.1.turn hn honehop hturn
    refine ⟨t', ht', hcons, fun hfits => ht.2 ?_⟩
    rw [fitsFrame_iff hcons.sound.distinct] at hfits
    rw [fitsFrame_iff ht.1.sound.distinct]
    cases hturn with
    | refused => exact hfits
    | booked hgroup hne hsch hsound hreg =>
      intro a e he
      rcases eq_or_ne a n.addr with rfl | ha
      · have hself := ht.1.sound.distinct.registry_self hn
        obtain rfl : n.profile = e := Option.some.inj (hself.symm.trans he)
        exact hfits n.addr { n.profile with schFlag := true }
          (by rw [hreg, Function.update_self])
      · exact hfits a e (by rw [hreg, Function.update_of_ne ha, he])
  obtain rfl : made = mac' := Option.some.inj (hmade.symm.trans hschedule)
  exact hback hfits

/-- **A schedule made from nothing is tight**, if its nodes fit the frame. -/
theorem tight_of_schedule (h : mac.Consistent p)
    (hmade : schedule .scheduleDist (resetSchedule mac) = some made)
    (hfits : made.NODES.FitsFrame (2 ^ p.macFrameFactor)) : made.Tight p := by
  have hreset : (resetSchedule mac).NODES.FitsFrame (2 ^ p.macFrameFactor) :=
    fitsFrame_of_schedule (consistent_resetSchedule h.sound h.framed) hmade hfits
  obtain ⟨mac', hmac', htight⟩ := schedule_resetSchedule_tight h.sound h.framed
    (fun n hn => hreset { n with schFlag := false } (List.mem_map_of_mem hn)) .scheduleDist
  rwa [Option.some.inj (hmade.symm.trans hmac')]

/-! ## The records of a run -/

theorem PhaseRecord.made_send (r : PhaseRecord) (dlMsg : MsgInfo) :
    (r.send dlMsg).made = r.made := by
  rw [PhaseRecord.send]
  split_ifs <;> rfl

/-- **Every schedule that a phase of a run makes is tight**, if its nodes fit the frame. -/
theorem Server.tight_of_run {start : StartPhase} {events : List ServerEvent}
    (hrun : Runs.run (ServerEvent.step p) (Server.init p stack start) events = some s)
    (hr : r ∈ s.records) (hmade : r.made = some made)
    (hfits : made.NODES.FitsFrame (2 ^ p.macFrameFactor)) : made.Tight p := by
  refine Server.records_of_run
    (P := fun r => ∀ made, r.made = some made → made.NODES.FitsFrame (2 ^ p.macFrameFactor) →
      made.Tight p)
    (fun phase made hmade => absurd hmade (Option.some_ne_none made).symm)
    (fun s hs hcurrent r hextends made hmade => ?_) hrun r hr made hmade hfits
  cases hextends with
  | same => exact hcurrent made hmade
  | counted x => exact hcurrent made hmade
  | made hmac =>
    rw [← Option.some.inj hmade]
    exact tight_of_schedule hs.mac.inOrder.consistent hmac
  | sent hr htype hmsg =>
    rw [PhaseRecord.made_send] at hmade
    obtain rfl | ⟨x, rfl⟩ := hr
    · exact hcurrent made hmade
    · exact hcurrent made hmade

/-- **What a schedule distribution tells the nodes does not collide**, whatever has come before and
comes in between: the messages read back, no node is told slots twice, those of a group are
disjoint and inside of the frame, each is the booking of its node in the schedule that the phase
made, and with room for all batches every booking is told. -/
theorem told_run (p : MacParams) (stack : MsgInfo) (start : StartPhase)
    (events : List ServerEvent) {s : Server}
    (hrun : Runs.run (ServerEvent.step p) (Server.init p stack start) events = some s)
    {r : PhaseRecord} (hr : r ∈ s.done) (hphase : r.phase = .scheduleDist) :
    ∃ (made : Mac) (sms : List SmMsg), r.made = some made ∧
      r.sent.map (fun msg => parseAll parseSm msg.bytes) = sms.map some ∧
      (made.NODES.FitsFrame (2 ^ p.macFrameFactor) →
        Collisionless (2 ^ p.macFrameFactor) (sms.flatMap SmMsg.told) ∧
        (∀ x ∈ sms.flatMap SmMsg.told, ∃ (list : SchList) (n : SchNode),
          made.SCHEDULES[x.groupId]? = some list ∧ n ∈ list.nodes ∧ x = n.told x.groupId) ∧
        ((made.SCHEDULES.map fun list => (list.nodes.length + 30) / 31).sum
            ≤ twohopNboSlotsInSch1 →
          ∀ (i : ℕ) (list : SchList), made.SCHEDULES[i]? = some list → ∀ n ∈ list.nodes,
            n.told i ∈ sms.flatMap SmMsg.told)) := by
  have hcomplete := (Server.Inv.of_run hrun).done r hr
  rw [PhaseRecord.Complete, hphase] at hcomplete
  obtain ⟨-, made, sch2Sslot, hmade, hinv, htrain⟩ := hcomplete
  have hcons := hinv.inOrder.consistent
  obtain ⟨sms, hsms, hcontent⟩ := exists_parsed htrain.lists (smBatches_wellFormed hcons)
  refine ⟨made, sms, hmade, hsms, fun hfits => ?_⟩
  have htight := (Server.tight_of_run hrun (List.mem_append_left _ hr) hmade hfits).tight
  rw [told_of_content htight hcontent]
  exact ⟨collisionless_told hcons.once htight, fun x => exists_of_mem_told,
    fun hroom i list hlist n hn => mem_told hcons.once hroom hlist hn⟩

/-- Two nodes register during a network initialization that is asked to end at once. -/
def twoRequests : List ServerEvent :=
  [.phaseTrans, .uplink (requestMsg 1 2), .uplink (requestMsg 3 3)] ++
    List.replicate 24 (.turn emptyMsg)

/-- A schedule of two entries that fits the frame and the messages. -/
def Mac.OfTwo (made : Mac) : Prop :=
  made.NODES.FitsFrame (2 ^ macDefaults.macFrameFactor) ∧
    (made.SCHEDULES.map fun list => (list.nodes.length + 30) / 31).sum ≤ twohopNboSlotsInSch1 ∧
    (bookings made.SCHEDULES).length = 2

instance (made : Mac) : Decidable made.OfTwo := inferInstanceAs (Decidable (_ ∧ _ ∧ _))

theorem told_run_two : ∃ (r : PhaseRecord) (made : Mac) (sms : List SmMsg), r.made = some made ∧
    (bookings made.SCHEDULES).length = 2 ∧
    r.sent.map (fun msg => parseAll parseSm msg.bytes) = sms.map some ∧
    Collisionless (2 ^ macDefaults.macFrameFactor) (sms.flatMap SmMsg.told) ∧
    ∀ (i : ℕ) (list : SchList), made.SCHEDULES[i]? = some list → ∀ n ∈ list.nodes,
      n.told i ∈ sms.flatMap SmMsg.told := by
  obtain ⟨s, hrun, hs⟩ := (Option.any_eq_true (fun s : Server => s.done.any fun r =>
      decide (r.phase = .scheduleDist) && r.made.any fun made : Mac => decide made.OfTwo)
    (Runs.run (ServerEvent.step macDefaults) (Server.init macDefaults emptyMsg .networkInit)
      twoRequests)).mp (by decide +kernel)
  obtain ⟨r, hr, hrecord⟩ := List.any_eq_true.mp hs
  rw [Bool.and_eq_true_iff] at hrecord
  obtain ⟨made, hmade, htwo⟩ := (Option.any_eq_true _ _).mp hrecord.2
  obtain ⟨hfits, hroom, htwo⟩ := of_decide_eq_true htwo
  obtain ⟨made', sms, hmade', hsms, htold⟩ := told_run macDefaults emptyMsg .networkInit _ hrun hr
    (of_decide_eq_true hrecord.1)
  obtain rfl : made = made' := Option.some.inj (hmade.symm.trans hmade')
  obtain ⟨hapart, -, hcomplete⟩ := htold hfits
  exact ⟨r, made, sms, hmade, htwo, hsms, hapart, hcomplete hroom⟩

end LoRaGwSv
