import LoRaGwSv.Server.Calls
import LoRaGwSv.Server.FirstFit

/-!
# Server/Refused — which nodes `schedule` leaves unscheduled

`schedule` tries a node in the least loaded group only.  That group refuses it only where it has no
free run of slots (`not_freeRun_of_refused`), but a group that has more slots assigned may have one:
removals leave holes, and the loads do not tell where they are (`not_refusedOnlyWhenFull_hole`).
Where no group has a hole, the least loaded one has the longest free run, and a node it refuses has
no place anywhere (`schedule_refused`).
-/

namespace LoRaGwSv

open Function Greedy SlotLine

/-- Some group has a free run for `d` slots. -/
def Hosts (S : List SchList) (d : ℕ) : Prop :=
  ∃ list ∈ S, ∃ k, FreeRun list.nboTotSlots.toNat list.nodes d k

/-- The entries that demand slots follow one another from slot 1. -/
def SchList.NoHole (list : SchList) : Prop :=
  Gapless 1 (list.slots.filter fun slot => 0 < slot.len)

variable {p : MacParams} {phase : OperationPhase} {s s' t t' : Mac} {n : MngtNode} {i : ℕ}
  {list list' : SchList} {S : List SchList} {d k : ℕ}

/-! ## A group that refuses a demand has no place for it

The walk stops at the first gap that is wide enough, so if it finds none there is none. -/

/-- The last LSI of an entry that starts in the frame, in sixteen bits. -/
theorem SchNode.Placed.toNat_lastLsi {b : SchNode} (h : b.Placed)
    (hstart : b.startLSI.toNat ≤ 128) :
    b.lastLsi.toNat + 1 = b.startLSI.toNat + b.slotDemand.toNat := by
  have hpos : b.startLSI.toNat ≠ 0 := fun h0 => h.startLSI_ne (UInt16.toNat_inj.mp h0)
  have hdemand := h.slotDemand_lt
  rw [SchNode.lastLsi, UInt16.toNat_sub, UInt16.toNat_add, UInt16.toNat_one]
  omega

/-- A free run lies behind an entry that starts no later, or before it. -/
theorem SchNode.Placed.apart {T : ℕ} {b : SchNode} {nodes : List SchNode} (h : b.Placed)
    (hb : b ∈ nodes) (hd : 0 < d) (hfree : FreeRun T nodes d k) :
    b.startLSI.toNat + b.slotDemand.toNat ≤ k ∨ k + d ≤ b.startLSI.toNat := by
  have hpos := hfree.pos
  rcases Nat.eq_zero_or_pos b.slotDemand.toNat with h0 | hslots
  · have hone := h.startLSI_of_zero (UInt16.toNat_inj.mp h0)
    rw [h0, hone, UInt16.toNat_one]
    omega
  · exact ((disjoint_lsis_iff hd hslots).mp (hfree.disjoint b hb)).symm

/-- What follows the slots of an entry before a free run is a slot of the frame. -/
theorem SchNode.Placed.lastLsi_add_one {T : ℕ} {b : SchNode} {nodes : List SchNode}
    (h : b.Placed) (hb : b ∈ nodes) (hd : 0 < d) (hT : T ≤ 128) (hfree : FreeRun T nodes d k)
    (hle : b.startLSI.toNat ≤ k) : b.lastLsi.toNat + 1 ≤ k ∧ b.lastLsi + 1 ≠ 0 := by
  have hinside := hfree.inside
  have hlast := h.toNat_lastLsi (by omega)
  have hstop := h.apart hb hd hfree
  refine ⟨by omega, fun h0 => ?_⟩
  have hnat := congrArg UInt16.toNat h0
  rw [UInt16.toNat_add, UInt16.toNat_one, UInt16.toNat_zero] at hnat
  omega

/-- **From an entry that starts no later than a free run, the walk finds a place.** -/
theorem smAssignLsiToNodeLoop_ne_zero {nboTotSlots : UInt32} {demandSlot : UInt16}
    (hT : nboTotSlots.toNat ≤ 128) (hd : 0 < demandSlot.toNat) : ∀ {rest : List SchNode}
    {curNode : SchNode}, (∀ b ∈ curNode :: rest, b.Placed) →
    FreeRun nboTotSlots.toNat (curNode :: rest) demandSlot.toNat k → curNode.startLSI.toNat ≤ k →
    smAssignLsiToNodeLoop nboTotSlots demandSlot curNode rest ≠ 0 := by
  intro rest
  induction rest with
  | nil =>
    intro curNode hwf hfree hle
    have hcur := List.mem_cons_self (a := curNode) (l := [])
    obtain ⟨hlast, hne⟩ := (hwf _ hcur).lastLsi_add_one hcur hd hT hfree hle
    have hinside := hfree.inside
    have hroom : demandSlot.toUInt32 ≤ nboTotSlots - curNode.lastLsi.toUInt32 := by
      rw [UInt32.le_iff_toNat_le, UInt32.toNat_sub, UInt16.toNat_toUInt32, UInt16.toNat_toUInt32]
      omega
    rwa [smAssignLsiToNodeLoop, if_pos hroom]
  | cons next rest ih =>
    intro curNode hwf hfree hle
    have hcur := List.mem_cons_self (a := curNode) (l := next :: rest)
    have hnext : next ∈ curNode :: next :: rest := by simp
    obtain ⟨hlast, hne⟩ := (hwf _ hcur).lastLsi_add_one hcur hd hT hfree hle
    rw [smAssignLsiToNodeLoop]
    split
    case isTrue => exact hne
    case isFalse hfull =>
      -- the next entry does not start behind the free run, or it would leave room before it
      have hapart := (hwf _ hnext).apart hnext hd hfree
      have htail : FreeRun nboTotSlots.toNat (next :: rest) demandSlot.toNat k :=
        ⟨hfree.pos, hfree.inside, fun b hb => hfree.disjoint b (List.mem_cons_of_mem _ hb)⟩
      exact ih (fun b hb => hwf b (List.mem_cons_of_mem _ hb)) htail (by omega)

/-- **A group refuses a demand only if it has no free run for it.** -/
theorem not_freeRun_of_refused {demandSlot : UInt16} (hlist : ∀ b ∈ list.nodes, b.Placed)
    (hT : list.nboTotSlots.toNat ≤ 128) (h : smAssignLsiToNode list demandSlot = 0) :
    ¬ FreeRun list.nboTotSlots.toNat list.nodes demandSlot.toNat k := by
  intro hfree
  have hd : 0 < demandSlot.toNat := by
    refine Nat.pos_of_ne_zero fun h0 => ?_
    obtain rfl : demandSlot = 0 := UInt16.toNat_inj.mp h0
    rw [smAssignLsiToNode_zero hlist] at h
    exact absurd h (by decide)
  rw [smAssignLsiToNode] at h
  split at h
  case h_1 => exact absurd h (by decide)
  case h_2 head rest hnodes =>
    rw [hnodes] at hfree
    have hwf : ∀ b ∈ head :: rest, b.Placed := hnodes ▸ hlist
    split at h
    case isTrue => exact absurd h (by decide)
    case isFalse hfull =>
      have hfull := mt UInt16.lt_iff_toNat_lt.mpr hfull
      have hapart := (hwf head (by simp)).apart (List.mem_cons_self) hd hfree
      have hpos := hfree.pos
      exact smAssignLsiToNodeLoop_ne_zero hT hd hwf hfree (by omega) h

/-! ## Groups without a hole

Where all groups are without holes, the free slots of a group are those behind its load, and the
least loaded group has most of them. -/

/-- Where a group has no hole, a free run lies behind all slots assigned. -/
theorem SchList.NoHole.lt_of_freeRun {T : ℕ} (h : list.NoHole) (hd : 0 < d)
    (hfree : FreeRun T list.nodes d k) : load list.slots < k := by
  have hle : 1 + load (list.slots.filter fun slot => 0 < slot.len) ≤ k := by
    refine h.le_of_apart hd hfree.pos fun slot hslot => ?_
    obtain ⟨hslot, hlen⟩ := List.mem_filter.mp hslot
    obtain ⟨b, hb, rfl⟩ := List.mem_map.mp hslot
    exact (disjoint_lsis_iff hd (decide_eq_true_eq.mp hlen)).mp (hfree.disjoint b hb)
  rw [load_filter_pos] at hle
  omega

/-- Any run of the frame behind them is free. -/
theorem SchList.NoHole.freeRun {T : ℕ} (h : list.NoHole) (hk : load list.slots < k)
    (hinside : k + d - 1 ≤ T) : FreeRun T list.nodes d k := by
  refine ⟨by omega, hinside, fun b hb => Finset.disjoint_left.mpr fun x hx hx' => ?_⟩
  obtain ⟨hx, -⟩ := Finset.mem_Icc.mp hx
  rw [SchNode.lsis] at hx'
  have hx' := Finset.mem_Icc.mp hx'
  have hlen : 0 < b.slot.len := by
    simp only [SchNode.slot]
    omega
  have hstop := h.stop_le b.slot
    (List.mem_filter.mpr ⟨List.mem_map_of_mem hb, decide_eq_true hlen⟩)
  rw [load_filter_pos] at hstop
  simp only [Slot.stop, SchNode.slot] at hstop
  omega

/-- **Where no group has a hole, the least loaded one hosts what any group does.** -/
theorem not_hosts_of_noHole {T m : ℕ} (hd : 0 < d)
    (hleast : IsLeastAt (fun list : SchList => list.nboAsgSlots.toNat) S m list)
    (hheld : ∀ list ∈ S, list.Held) (hT : ∀ list ∈ S, list.nboTotSlots.toNat = T)
    (hholes : ∀ list ∈ S, list.NoHole) (hnot : ∀ k, ¬ FreeRun T list.nodes d k) :
    ¬ Hosts S d := by
  rintro ⟨list', hlist', k, hfree⟩
  have hlist := List.mem_of_getElem? hleast.get
  have hle := hleast.le list' hlist'
  rw [(hheld list hlist).nboAsgSlots_eq, (hheld list' hlist').nboAsgSlots_eq] at hle
  have hlt := (hholes list' hlist').lt_of_freeRun hd hfree
  refine hnot k ((hholes list hlist).freeRun (hle.trans_lt hlt) ?_)
  rw [← hT list' hlist']
  exact hfree.inside

/-! ## The groups, whatever NODES is -/

/-- What the groups are at any time, for any NODES. -/
structure Mac.Grouped (p : MacParams) (s : Mac) : Prop where
  framed : s.Framed p
  placed : ∀ list ∈ s.SCHEDULES, ∀ b ∈ list.nodes, b.Placed
  held : ∀ list ∈ s.SCHEDULES, list.Held
  once : NoDoubleBooking s.SCHEDULES

/-- The groups are in order whatever NODES is. -/
theorem Mac.Inv.grouped (h : s.Inv p) (NODES : MngtNodeList) :
    Mac.Grouped p { s with NODES := NODES } where
  framed := h.inOrder.consistent.framed
  placed list hlist b hb := ((h.inOrder.consistent.lists list hlist).wellFormed b hb).placed
  held := h.held
  once := h.inOrder.consistent.once

/-- Taking a node out keeps them in order. -/
theorem Mac.Grouped.removeNodeFromSchedule (h : s.Grouped p) (addr : UInt16) :
    (removeNodeFromSchedule s addr).Grouped p where
  framed := h.framed.map fun _ => nboTotSlots_smRemoveOneNode
  placed := List.forall_mem_map.mpr fun list hlist b hb => by
    rw [nodes_smRemoveOneNode] at hb
    exact h.placed list hlist b ((Keyed.erase_sublist _ _).subset hb)
  held := List.forall_mem_map.mpr fun list hlist => (h.held list hlist).smRemoveOneNode addr
  once := noDoubleBooking_remove h.once addr

theorem Mac.Grouped.groups_ne_nil (h : s.Grouped p) : s.SCHEDULES ≠ [] := fun hnil => by
  have hgroups := h.framed.groups
  have hpos := p.nboChannels_bounds.1
  rw [hnil, List.length_nil] at hgroups
  omega

/-- **Trying a node keeps the groups as they are to be.** -/
theorem Mac.Grouped.scheduleOneNode (h : s.Grouped p) (phase : OperationPhase) (n : MngtNode) :
    (scheduleOneNode s phase n).2.Grouped p := by
  have hrem := h.removeNodeFromSchedule n.addr
  rcases scheduleOneNode_cases s phase n with heq | ⟨group, list, hgroup, hne, heq⟩
  · rwa [heq]
  · have hmem := List.mem_of_getElem? hgroup
    have hnode := placed_schNode n (hrem.placed list hmem) phase hne
    have hlen := length_le_of_nodup (Keyed.nodup_piece hrem.once hmem)
    rw [heq]
    refine ⟨hrem.framed.set hgroup rfl, fun list' hlist' => ?_, fun list' hlist' => ?_,
      noDoubleBooking_booked h.once hgroup rfl⟩
    · rcases List.mem_or_eq_of_mem_set hlist' with hlist' | rfl
      · exact hrem.placed list' hlist'
      · intro b hb
        rcases (List.mem_orderedInsert _).mp hb with rfl | hb
        · exact hnode
        · exact hrem.placed list hmem b hb
    · rcases List.mem_or_eq_of_mem_set hlist' with hlist' | rfl
      · exact hrem.held list' hlist'
      · exact (hrem.held list hmem).smAddNodeToScheduleList (hrem.placed list hmem) hlen
          hnode.slotDemand_lt

/-! ## The nodes left unscheduled

A node that is left had its turn.  What the turns before it have done is in the state of its turn,
and the turns after it take no mark away. -/

/-- A node that is not marked now was not before, at its position. -/
def Unmarked (lst lst' : MngtNodeList) : Prop :=
  ∀ (i : ℕ) (n' : MngtNode), lst'.nodes[i]? = some n' → n'.schFlag = false →
    ∃ n : MngtNode, lst.nodes[i]? = some n ∧ n.genInfo = n'.genInfo ∧ n.schFlag = false

theorem unmarked_refl (lst : MngtNodeList) : Unmarked lst lst :=
  fun _ n hn hflag => ⟨n, hn, rfl, hflag⟩

/-- What is not marked after two steps is not marked after the first. -/
theorem Unmarked.trans {lst lst' lst'' : MngtNodeList} (h : Unmarked lst lst')
    (h' : Unmarked lst' lst'') : Unmarked lst lst'' := by
  intro i n'' hn'' hflag
  obtain ⟨n', hn', hgen', hflag'⟩ := h' i n'' hn'' hflag
  obtain ⟨n, hn, hgen, hflag⟩ := h i n' hn' hflag'
  exact ⟨n, hn, hgen.trans hgen', hflag⟩

/-- Marking the node at a position marks no other. -/
theorem unmarked_markScheduled {lst lst' : MngtNodeList}
    (hmark : markScheduled lst i n = some lst') :
    Unmarked lst lst' ∧ ∀ n', lst'.nodes[i]? = some n' → n'.schFlag = true := by
  have hprof := profiles_markScheduled hmark
  have hat : ∀ j n', lst'.nodes[j]? = some n' → ∃ m, lst.nodes[j]? = some m ∧ n'.profile
      = MngtNode.profile
          (if i = j then { m with schFlag := true, isConnected := true } else m) := by
    intro j n' hn'
    have hj := congrArg (fun l : List MngtNode => l[j]?) hprof
    simp only [List.getElem?_map, hn', MngtNodeList.markAt, List.getElem?_modify] at hj
    obtain ⟨m', hm', heq⟩ := Option.map_eq_some_iff.mp hj.symm
    obtain ⟨m, hm, rfl⟩ := Option.map_eq_some_iff.mp hm'
    exact ⟨m, hm, heq.symm⟩
  constructor
  · intro j n' hn' hflag
    obtain ⟨m, hm, heq⟩ := hat j n' hn'
    split at heq
    case isTrue =>
      have htrue : n'.schFlag = true := congrArg MngtNode.schFlag heq
      exact absurd (hflag.symm.trans htrue) (by decide)
    case isFalse =>
      exact ⟨m, hm, (congrArg MngtNode.genInfo heq).symm,
        (congrArg MngtNode.schFlag heq).symm.trans hflag⟩
  · intro n' hn'
    obtain ⟨m, -, heq⟩ := hat i n' hn'
    rw [if_pos rfl] at heq
    exact congrArg MngtNode.schFlag heq

/-- **A turn marks the node it tries**, unless the least loaded group refuses it. -/
theorem unmarked_scheduleStep (ht : t.Grouped p) (hstep : scheduleStep phase t i = some t') :
    t'.Grouped p ∧ Unmarked t.NODES t'.NODES ∧
      ∀ n n', t.NODES.nodes[i]? = some n → n.genInfo.type = .onehop → n.schFlag = false →
        t'.NODES.nodes[i]? = some n' → n'.schFlag = false →
        ∃ group list, IsLeastAt (fun list : SchList => list.nboAsgSlots.toNat)
            (removeNodeFromSchedule t n.addr).SCHEDULES group list ∧
          smAssignLsiToNode list n.genInfo.slotDmn.toUInt16 = 0 := by
  rw [scheduleStep] at hstep
  cases hi : t.NODES.nodes[i]? with
  | none =>
    rw [hi] at hstep
    rw [← Option.some.inj hstep]
    exact ⟨ht, unmarked_refl _, fun n _ hn => absurd hn (by simp)⟩
  | some n =>
    simp only [hi] at hstep
    by_cases hdue : n.genInfo.type = .onehop ∧ n.schFlag = false
    case neg =>
      rw [if_neg hdue] at hstep
      rw [← Option.some.inj hstep]
      refine ⟨ht, unmarked_refl _, fun n₁ n' hn₁ htype hflag => ?_⟩
      obtain rfl := Option.some.inj hn₁
      exact absurd ⟨htype, hflag⟩ hdue
    case pos =>
      have htried := ht.scheduleOneNode phase n
      obtain ⟨group, list, hleast, heq⟩ := scheduleOneNode_least ht.groups_ne_nil phase n
      rw [if_pos hdue] at hstep
      rw [heq] at hstep htried
      rcases smScheduleOneNode_cases list (n.schNode phase) with ⟨h0, hsch⟩ | ⟨-, hsch⟩
      · rw [hsch] at hstep htried
        dsimp only at hstep
        rw [if_neg (by decide)] at hstep
        rw [← Option.some.inj hstep]
        refine ⟨htried, unmarked_refl _, fun n₁ n' hn₁ _ _ _ _ => ?_⟩
        obtain rfl := Option.some.inj hn₁
        exact ⟨group, list, hleast, h0⟩
      · rw [hsch] at hstep htried
        obtain ⟨NODES, hmark, rfl⟩ := Option.map_eq_some_iff.mp hstep
        obtain ⟨hun, hmarked⟩ := unmarked_markScheduled hmark
        refine ⟨⟨htried.framed, htried.placed, htried.held, htried.once⟩, hun,
          fun n₁ n' _ _ _ hn' hflag => ?_⟩
        exact absurd ((hmarked n' hn').symm.trans hflag) (by decide)

/-- By induction over the turns: the loop takes no mark away. -/
theorem unmarked_scheduleLoop : ∀ (m i : ℕ) {t t' : Mac}, t.Grouped p →
    scheduleLoop phase m i t = some t' → t'.Grouped p ∧ Unmarked t.NODES t'.NODES := by
  intro m
  induction m with
  | zero =>
    intro i t t' ht hloop
    rw [← Option.some.inj hloop]
    exact ⟨ht, unmarked_refl _⟩
  | succ m ih =>
    intro i t t' ht hloop
    obtain ⟨u, hstep, hrest⟩ := Option.bind_eq_some_iff.mp hloop
    obtain ⟨hu, hun, -⟩ := unmarked_scheduleStep ht hstep
    obtain ⟨ht', hun'⟩ := ih (i + 1) hu hrest
    exact ⟨ht', hun.trans hun'⟩

theorem scheduleLoop_add (phase : OperationPhase) (m k i : ℕ) (s : Mac) :
    scheduleLoop phase (m + k) i s
      = (scheduleLoop phase m i s).bind (scheduleLoop phase k (i + m)) := by
  induction m generalizing i s with
  | zero => rw [Nat.zero_add, scheduleLoop, Option.bind_some, Nat.add_zero]
  | succ m ih =>
    rw [Nat.add_right_comm, scheduleLoop, scheduleLoop, Option.bind_assoc]
    refine congrArg _ (funext fun t => ?_)
    rw [ih, Nat.add_right_comm, Nat.add_assoc i m 1]

/-- The turns before position `i`, the turn of the node there, and the turns after it. -/
theorem schedule_split (hs : schedule phase s = some s') (hi : i < s.NODES.nodes.length) :
    ∃ t t', scheduleLoop phase i 0 s = some t ∧ scheduleStep phase t i = some t' ∧
      scheduleLoop phase (s.NODES.nodes.length - i - 1) (i + 1) t' = some s' := by
  have hlen : s.NODES.nodes.length = i + (s.NODES.nodes.length - i - 1 + 1) := by omega
  rw [schedule, hlen, scheduleLoop_add, Nat.zero_add] at hs
  obtain ⟨t, ht, hrest⟩ := Option.bind_eq_some_iff.mp hs
  obtain ⟨t', hstep, hrest⟩ := Option.bind_eq_some_iff.mp hrest
  exact ⟨t, t', ht, hstep, hrest⟩

/-- **What `schedule` leaves unscheduled was refused by the least loaded group**, which had no free
run for it, when its turn came and its old slots were given up; and if no group had a hole then, no
group had a free run for it. -/
theorem schedule_refused {s : InputState} (h : Reachable p s) (NODES : MngtNodeList) {s' : Mac}
    (hs' : schedule phase { s.mac with NODES := NODES } = some s')
    (hn : s'.NODES.nodes[i]? = some n) (htype : n.genInfo.type = .onehop)
    (hflag : n.schFlag = false) :
    ∃ t, scheduleLoop phase i 0 { s.mac with NODES := NODES } = some t ∧
      ∃ group list, IsLeastAt (fun list : SchList => list.nboAsgSlots.toNat)
          (removeNodeFromSchedule t n.addr).SCHEDULES group list ∧
        (∀ k, ¬ FreeRun list.nboTotSlots.toNat list.nodes n.genInfo.slotDmn.toNat k) ∧
        ((∀ list ∈ (removeNodeFromSchedule t n.addr).SCHEDULES, list.NoHole) →
          ¬ Hosts (removeNodeFromSchedule t n.addr).SCHEDULES n.genInfo.slotDmn.toNat) := by
  have hs := h.inv.grouped NODES
  obtain ⟨n₀, hn₀, -⟩ := (unmarked_scheduleLoop _ 0 hs hs').2 i n hn hflag
  obtain ⟨t, t', ht, hstep, hrest⟩ := schedule_split hs' (List.getElem?_eq_some_iff.mp hn₀).1
  have htgrouped := (unmarked_scheduleLoop _ 0 hs ht).1
  obtain ⟨ht', hun, htried⟩ := unmarked_scheduleStep htgrouped hstep
  obtain ⟨n₂, hn₂, hgen₂, hflag₂⟩ := (unmarked_scheduleLoop _ _ ht' hrest).2 i n hn hflag
  obtain ⟨n₁, hn₁, hgen₁, hflag₁⟩ := hun i n₂ hn₂ hflag₂
  have hgen := hgen₁.trans hgen₂
  have haddr : n₁.addr = n.addr := congrArg NodeGenInfo.addr hgen
  obtain ⟨group, list, hleast, h0⟩ := htried n₁ n₂ hn₁ (hgen ▸ htype) hflag₁ hn₂ hflag₂
  rw [haddr] at hleast
  rw [hgen] at h0
  have hrem := htgrouped.removeNodeFromSchedule n.addr
  have hlist := List.mem_of_getElem? hleast.get
  have hframe : ∀ list ∈ (removeNodeFromSchedule t n.addr).SCHEDULES,
      list.nboTotSlots.toNat = 2 ^ p.macFrameFactor := fun _ hlist => hrem.framed.nboTotSlots hlist
  have hnot : ∀ k,
      ¬ FreeRun list.nboTotSlots.toNat list.nodes n.genInfo.slotDmn.toNat k := by
    intro k
    have hrefused := @not_freeRun_of_refused list k _ (hrem.placed list hlist)
      (by rw [hframe list hlist]; exact p.frame_le) h0
    rwa [UInt8.toNat_toUInt16] at hrefused
  have hpos : 0 < n.genInfo.slotDmn.toNat := Nat.pos_of_ne_zero fun hzero => by
    rw [show n.genInfo.slotDmn.toUInt16 = 0 from UInt16.toNat_inj.mp
      ((UInt8.toNat_toUInt16 _).trans hzero), smAssignLsiToNode_zero (hrem.placed list hlist)] at h0
    exact absurd h0 (by decide)
  exact ⟨t, ht, group, list, hleast, hnot, fun hholes =>
    not_hosts_of_noHole hpos hleast hrem.held hframe hholes (hframe list hlist ▸ hnot)⟩

/-- Two nodes of two slots and one of one share two groups of four; the latter has since lost its
slot to a relay nobody knows, and a third node of two slots registers. -/
def holeCalls : List Call :=
  [.frame (.mac (.register (.itself (.ofBits 1 0)))), .frame (.mac (.schedule .dataColl)),
    .frame (.mac (.register (.itself (.ofBits 2 1)))), .frame (.mac (.schedule .dataColl)),
    .frame (.mac (.register (.itself (.ofBits 3 1)))), .frame (.mac (.schedule .dataColl)),
    .frame (.mac (.register (.listed (.ofBits 1 0) 9))),
    .frame (.mac (.register (.itself (.ofBits 4 1))))]

/-- The third node of two slots is left, at position 2. -/
theorem schedule_refused_hole :
    ∃ s s' n, Runs.run (Call.step fourSlots) (serverStart fourSlots) holeCalls = some s ∧
      schedule .dataColl { s.mac with NODES := s.mac.NODES } = some s' ∧
      s'.NODES.nodes[2]? = some n ∧ n.genInfo.type = .onehop ∧ n.schFlag = false ∧
      ∃ t, scheduleLoop .dataColl 2 0 { s.mac with NODES := s.mac.NODES } = some t ∧
        ∃ group list, IsLeastAt (fun list : SchList => list.nboAsgSlots.toNat)
            (removeNodeFromSchedule t n.addr).SCHEDULES group list ∧
          (∀ k, ¬ FreeRun list.nboTotSlots.toNat list.nodes n.genInfo.slotDmn.toNat k) ∧
          ((∀ list ∈ (removeNodeFromSchedule t n.addr).SCHEDULES, list.NoHole) →
            ¬ Hosts (removeNodeFromSchedule t n.addr).SCHEDULES n.genInfo.slotDmn.toNat) := by
  have hrun : (Runs.run (Call.step fourSlots) (serverStart fourSlots) holeCalls).any (fun s =>
      (schedule .dataColl { s.mac with NODES := s.mac.NODES }).any fun s' =>
        s'.NODES.nodes[2]?.any fun n => n.genInfo.type = .onehop ∧ n.schFlag = false) = true := by
    decide +kernel
  simp only [Option.any_eq_true, decide_eq_true_eq] at hrun
  obtain ⟨s, hs, s', hs', n, hn, htype, hflag⟩ := hrun
  exact ⟨s, s', n, hs, hs', hn, htype, hflag,
    schedule_refused ⟨holeCalls, hs⟩ s.mac.NODES hs' hn htype hflag⟩

/-- A node that `schedule` leaves unscheduled had no place in any group when its turn came. -/
def RefusedOnlyWhenFull (p : MacParams) : Prop :=
  ∀ s, Reachable p s → ∀ phase NODES s', schedule phase { s.mac with NODES := NODES } = some s' →
    ∀ (i : ℕ) (n : MngtNode), s'.NODES.nodes[i]? = some n → n.genInfo.type = .onehop →
    n.schFlag = false → ∀ t, scheduleLoop phase i 0 { s.mac with NODES := NODES } = some t →
      ¬ Hosts (removeNodeFromSchedule t n.addr).SCHEDULES n.genInfo.slotDmn.toNat

/-- **A hole in one group of the same load sends the node away**, with slots 3 and 4 of the other
free. -/
theorem not_refusedOnlyWhenFull_hole : ¬ RefusedOnlyWhenFull fourSlots := by
  intro h
  have hrun : (Runs.run (Call.step fourSlots) (serverStart fourSlots) holeCalls).any (fun s =>
      (schedule .dataColl s.mac).any fun s' => s'.NODES.nodes[2]?.any fun n =>
        n.genInfo.type = .onehop ∧ n.schFlag = false ∧ n.genInfo.slotDmn = 2 ∧
          (scheduleLoop .dataColl 2 0 s.mac).any fun t =>
            (removeNodeFromSchedule t n.addr).SCHEDULES[1]?.any fun list =>
              list.nboTotSlots = 4 ∧ list.nodes.map SchNode.slot = [⟨1, 2⟩]) = true := by
    decide +kernel
  simp only [Option.any_eq_true, decide_eq_true_eq] at hrun
  obtain ⟨s, hs, s', hs', n, hn, htype, hflag, hdemand, t, ht, list, hlist, htot, hslots⟩ := hrun
  refine h s ⟨holeCalls, hs⟩ .dataColl s.mac.NODES s' hs' 2 n hn htype hflag t ht
    ⟨list, List.mem_of_getElem? hlist, 3, ?_⟩
  rw [htot, hdemand]
  refine ⟨by decide, by decide, fun b hb => ?_⟩
  have hb : b.slot ∈ [(⟨1, 2⟩ : Slot)] := hslots ▸ List.mem_map_of_mem hb
  obtain hslot := List.mem_singleton.mp hb
  have hlen : b.slotDemand.toNat = 2 := congrArg Slot.len hslot
  exact (disjoint_lsis_iff (by decide) (hlen ▸ by decide)).mpr
    (Or.inr (congrArg Slot.stop hslot).le)

end LoRaGwSv
