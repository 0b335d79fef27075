import LoRaGwSv.Server.Cm

/-!
# Server/Updates — how often a schedule update is distributed

An entry made by `schedule` in the data collection phase is to be carried by three command messages.
`Frames` runs the MAC beside a count of the records sent for each such entry since it was inserted;
the records are those a node reads out of the messages.  The count and the entry's `nboSchDist`
always add up to three (`updates_counted`).
-/

namespace LoRaGwSv

/-- The MAC, and the records sent for the entry of each address since `schedule` inserted it in the
data collection phase; an entry made otherwise is not counted. -/
structure Frames where
  mac : Mac
  sent : UInt16 → Option ℕ

/-- The records for `addr` a node reads out of a command message. -/
def MsgInfo.recordsFor (msg : MsgInfo) (addr : UInt16) : ℕ :=
  ((parseAll parseCm msg.bytes).map fun cm =>
    cm.usi.countP fun r => r.address = addr.toNat).getD 0

/-- The command message built in state `s`. -/
def Mac.commandMsg (p : MacParams) (s : Mac) (dlMsg : MsgInfo) (framePeriodCnt : UInt16) :
    Option MsgInfo :=
  (prepareDownlinkMsgPayload p s dlMsg .dlCm framePeriodCnt 0).map Prod.fst

/-- How a call that takes the MAC from `s` to `s'` changes the counts.  A call of `schedule` inserts
the entries of the nodes it marks scheduled; all others were there before (`ScheduledSince.old`). -/
def FrameOp.count (p : MacParams) (s s' : Mac) (sent : UInt16 → Option ℕ) :
    FrameOp → UInt16 → Option ℕ
  | .mac (.register _), addr => sent addr
  | .mac (.schedule phase), addr =>
    if NewlyScheduled s s' addr then if phase = .dataColl then some 0 else none else sent addr
  | .mac .reset, _ => none
  | .request _, addr => sent addr
  | .dataInfo _ _ _, addr => sent addr
  | .checkDataMissed, addr => sent addr
  | .takeWaiting, addr => sent addr
  | .registrationList _ _ _, addr => sent addr
  | .scheduleDistribution _, _ => none
  | .command dlMsg framePeriodCnt, addr => (sent addr).map fun k =>
    k + ((s.commandMsg p dlMsg framePeriodCnt).map fun msg => msg.recordsFor addr).getD 0

/-- One step, with the records it put on the air beside it. -/
def Frames.step (p : MacParams) (f : Frames) (op : FrameOp) : Option Frames :=
  (op.step p f.mac).map fun s' => ⟨s', op.count p f.mac s' f.sent⟩

/-- The start: nothing is counted yet. -/
def Frames.start (p : MacParams) : Frames := ⟨twohopLoRaMacInit p, fun _ => none⟩

/-- Sent so far and still to be sent are three, for every entry that is counted. -/
def Frames.Balanced (f : Frames) : Prop :=
  ∀ b ∈ bookings f.mac.SCHEDULES, ∀ k, f.sent b.addr = some k →
    k + b.nboSchDist.toNat = twohopNboSchUpdateDc.toNat

/-- A command message carries as many records as it can, up to 15: one each for different entries
that have still to be distributed. -/
def Mac.CarriesPending (p : MacParams) (s : Mac) : FrameOp → Prop
  | .command dlMsg framePeriodCnt => ∃ msg cm,
    s.commandMsg p dlMsg framePeriodCnt = some msg ∧ parseAll parseCm msg.bytes = some cm ∧
      cm.usi.length = min 15 ((bookings s.SCHEDULES).countP fun b => 0 < b.nboSchDist) ∧
      (cm.usi.map UsiRecord.address).Nodup ∧
      ∀ r ∈ cm.usi, ∃ list b, s.SCHEDULES[r.groupId]? = some list ∧ b ∈ list.nodes ∧
        b.addr.toNat = r.address ∧ 0 < b.nboSchDist
  | _ => True

variable {p : MacParams} {s s' : Mac} {f : Frames} {sent : UInt16 → Option ℕ} {op : FrameOp}

/-! ## The records of a message -/

/-- The addresses a command message carries. -/
def Mac.selectedAddrs (s : Mac) : List UInt16 := s.selected.map fun x => x.2.addr

theorem nodup_selectedAddrs (h : s.Consistent p) : s.selectedAddrs.Nodup := by
  have hsnd : s.selectedAddrs = (s.selected.map Prod.snd).map SchNode.addr := by
    rw [Mac.selectedAddrs, List.map_map]
    rfl
  rw [hsnd, selected_snd]
  exact h.once.sublist (((List.take_sublist _ _).trans List.filter_sublist).map _)

/-- **What a node reads out of a command message.** -/
theorem commandMsg_spec (h : s.Consistent p) (dlMsg : MsgInfo) (framePeriodCnt : UInt16) :
    ∃ msg cm, s.commandMsg p dlMsg framePeriodCnt = some msg ∧
      parseAll parseCm msg.bytes = some cm ∧
      cm.usi = s.selected.map (usiRecord s.NODES fun n => n.startLSI.toUInt8.toNat) := by
  obtain ⟨w, hmsg, hw⟩ := cm_spec h dlMsg framePeriodCnt 0
  have hparse : parseAll parseCm (finishMsg w).bytes = _ :=
    (congrArg _ (bytes_finishMsg hw)).trans (parseCm_cmBytes h framePeriodCnt)
  exact ⟨finishMsg w, _, by rw [Mac.commandMsg, hmsg, Option.map_some], hparse, rfl⟩

/-- A command has one record for each address it carries, and none for others. -/
theorem recordsFor_commandMsg (h : s.Consistent p) {dlMsg : MsgInfo} {framePeriodCnt : UInt16}
    (addr : UInt16) :
    ((s.commandMsg p dlMsg framePeriodCnt).map fun msg => msg.recordsFor addr).getD 0
      = if addr ∈ s.selectedAddrs then 1 else 0 := by
  obtain ⟨msg, cm, hmsg, hparse, husi⟩ := commandMsg_spec h dlMsg framePeriodCnt
  rw [hmsg, Option.map_some, Option.getD_some, MsgInfo.recordsFor, hparse, Option.map_some,
    Option.getD_some, husi, List.countP_map, ← (nodup_selectedAddrs h).count, List.count,
    Mac.selectedAddrs, List.countP_map]
  refine List.countP_congr fun x _ => ?_
  simp [usiRecord, UInt16.toNat_inj]

/-- A command carries as many records as it can, all of them of entries that wait. -/
theorem carriesPending (h : s.Consistent p) (op : FrameOp) : s.CarriesPending p op := by
  cases op with
  | mac | request | dataInfo | checkDataMissed | takeWaiting | registrationList
  | scheduleDistribution => trivial
  | command dlMsg framePeriodCnt =>
    obtain ⟨msg, cm, hmsg, hparse, husi⟩ := commandMsg_spec h dlMsg framePeriodCnt
    refine ⟨msg, cm, hmsg, hparse, ?_, ?_, fun r hr => ?_⟩
    · rw [husi, List.length_map, length_selected]
      rfl
    · have haddr : cm.usi.map UsiRecord.address = s.selectedAddrs.map UInt16.toNat := by
        rw [husi, List.map_map, Mac.selectedAddrs, List.map_map]
        rfl
      rw [haddr]
      exact (nodup_selectedAddrs h).map fun _ _ => UInt16.toNat_inj.mp
    · rw [husi] at hr
      obtain ⟨x, hx, rfl⟩ := List.mem_map.mp hr
      obtain ⟨list, hget, hmem, hp⟩ := mem_selected hx
      exact ⟨list, x.2, hget, hmem, rfl, hp⟩

/-! ## The counts add up -/

/-- An entry a message carries had still to be distributed. -/
theorem pending_of_selected (h : s.Consistent p) {b : SchNode} (hb : b ∈ bookings s.SCHEDULES)
    (hsel : b.addr ∈ s.selectedAddrs) : b.Pending := by
  obtain ⟨x, hx, hxb⟩ := List.mem_map.mp hsel
  obtain ⟨list, hget, hmem, hp⟩ := mem_selected hx
  have hxmem := mem_bookings.mpr ⟨list, List.mem_of_getElem? hget, hmem⟩
  exact List.inj_on_of_nodup_map h.once hxmem hb hxb ▸ hp

/-- The addresses carried are those of the first entries that wait. -/
theorem mem_selectedAddrs {addr : UInt16} :
    addr ∈ s.selectedAddrs ↔ addr ∈ (((bookings s.SCHEDULES).filter fun n => n.Pending).take
      s.usiCount).map SchNode.addr := by
  rw [← selected_snd, List.map_map]
  rfl

/-- A command takes one from each entry it carries, and sends one record for it. -/
theorem Frames.Balanced.command (hf : f.Balanced) (h : f.mac.Consistent p) (dlMsg : MsgInfo)
    (framePeriodCnt : UInt16) :
    Frames.Balanced ⟨{ f.mac with SCHEDULES := carriedGroups f.mac.usiCount f.mac.SCHEDULES },
      FrameOp.count p f.mac { f.mac with
        SCHEDULES := carriedGroups f.mac.usiCount f.mac.SCHEDULES } f.sent
        (.command dlMsg framePeriodCnt)⟩ := by
  intro b hb k hk
  rw [bookings_carriedGroups h.once] at hb
  obtain ⟨n, hn, rfl⟩ := List.mem_map.mp hb
  obtain ⟨list, hlist, hnlist⟩ := mem_bookings.mp hn
  have hwf := (h.lists list hlist).wellFormed n hnlist
  rw [SchNode.addr_carriedIn] at hk
  obtain ⟨k', hk', rfl⟩ := Option.map_eq_some_iff.mp hk
  have hbal := hf n hn k' hk'
  rw [recordsFor_commandMsg h, SchNode.carriedIn, if_congr mem_selectedAddrs.symm rfl rfl]
  by_cases hsel : n.addr ∈ f.mac.selectedAddrs
  · have hpos := SchNode.pending_iff.mp (pending_of_selected h hn hsel)
    rw [if_pos hsel, if_pos hsel, hwf.toNat_carried]
    omega
  · rw [if_neg hsel, if_neg hsel]
    exact hbal

/-- What inserts nothing keeps the counts balanced. -/
theorem Frames.Balanced.of_subset (hf : f.Balanced)
    (hbooked : ∀ b ∈ bookings s'.SCHEDULES, b ∈ bookings f.mac.SCHEDULES) :
    Frames.Balanced ⟨s', f.sent⟩ := fun b hb => hf b (hbooked b hb)

/-- A call of `schedule` inserts entries with none of their three records sent, or ones that are not
counted. -/
theorem Frames.Balanced.schedule (hf : f.Balanced) {phase : OperationPhase}
    (hsince : ScheduledSince phase f.mac s') :
    Frames.Balanced ⟨s', FrameOp.count p f.mac s' f.sent (.mac (.schedule phase))⟩ := by
  intro b hb k hk
  have hk : (if NewlyScheduled f.mac s' b.addr then
    if phase = .dataColl then some 0 else none else f.sent b.addr) = some k := hk
  split at hk
  case isTrue hnew =>
    split at hk
    case isTrue hphase =>
      obtain rfl := Option.some.inj hk
      rw [hsince.inserted b hb hnew, hphase]
      rfl
    case isFalse => exact absurd hk (Option.some_ne_none k).symm
  case isFalse hold => exact hf b (hsince.old b hb hold) k hk

/-- **Each call keeps the counts balanced.** -/
theorem Frames.Balanced.step (hf : f.Balanced) (h : f.mac.InOrder p) (op : FrameOp) :
    ∃ f', Frames.step p f op = some f' ∧ f'.Balanced ∧ f'.mac.InOrder p := by
  obtain ⟨s', hs', h'⟩ := h.step op
  refine ⟨⟨s', op.count p f.mac s' f.sent⟩, by rw [Frames.step, hs', Option.map_some], ?_, h'⟩
  cases op with
  | mac op =>
    cases op with
    | register r =>
      obtain ⟨t, ht, -, -, hbooked⟩ := h.consistent.registerNode r.fresh_node
      obtain rfl := Option.some.inj (hs'.symm.trans ht)
      exact hf.of_subset hbooked
    | schedule phase =>
      obtain ⟨t, ht, -, hsince⟩ := schedule_spec h.consistent phase
      obtain rfl := Option.some.inj (hs'.symm.trans ht)
      exact hf.schedule hsince
    | reset => exact fun _ _ _ hk => absurd hk (by simp [FrameOp.count])
  | request | dataInfo | checkDataMissed =>
    obtain rfl := Option.some.inj hs'
    exact hf.of_subset fun _ hb => hb
  | takeWaiting =>
    obtain ⟨t, ht, -, hbooked⟩ := h.takeWaiting
    obtain rfl := Option.some.inj (hs'.symm.trans ht)
    exact hf.of_subset hbooked
  | registrationList dlMsg rnlIntCount netReadyFlag =>
    obtain ⟨t, ht, -, hbooked⟩ := h.registrationList dlMsg rnlIntCount netReadyFlag
    obtain rfl := Option.some.inj (hs'.symm.trans ht)
    exact hf.of_subset hbooked
  | scheduleDistribution dlMsg => exact fun _ _ _ hk => absurd hk (by simp [FrameOp.count])
  | command dlMsg framePeriodCnt =>
    obtain rfl := Option.some.inj (hs'.symm.trans (step_command h.consistent dlMsg framePeriodCnt))
    exact hf.command h.consistent dlMsg framePeriodCnt

/-- **Schedule updates are distributed exactly as often as promised.**  In every run, each command
message carries as many pending entries as it can, each once; and in every state reached, the
records sent for an entry since `schedule` inserted it in the data collection phase, and those it
has still to be sent for, are three together. -/
theorem updates_counted (p : MacParams) (ops : List FrameOp) :
    Runs.EachStep (Frames.step p) (fun f op => f.mac.CarriesPending p op) (Frames.start p) ops ∧
      Runs.Always (Frames.step p) Frames.Balanced (Frames.start p) ops := by
  have hrun : Runs.Always (Frames.step p) (fun f => f.Balanced ∧ f.mac.InOrder p)
      (Frames.start p) ops :=
    Runs.always_of_inv (fun _ op h (_ : True) => h.1.step h.2 op)
      ⟨fun _ _ _ hk => absurd hk (by simp [Frames.start]), inOrder_twohopLoRaMacInit p⟩
      ops fun _ _ => trivial
  refine ⟨fun pre op hpre => ?_, hrun.imp fun _ h => h.1⟩
  obtain ⟨f, hf, -, h⟩ := hrun pre ((List.prefix_append pre [op]).trans hpre)
  exact ⟨f, hf, carriesPending h.consistent op⟩

end LoRaGwSv
