import LoRaGwSv.Server.Registrations

/-!
# Server/Booking — the schedule entries of all groups

The groups together book slots for addresses (`bookings`).  A registration, a call of `schedule`
and a reset of the schedule each keep NODES and the bookings `Consistent`: no address is booked
twice, what is booked is a registered one-hop node, and each group counts its pending entries.
-/

namespace LoRaGwSv

open Function

/-- The entries of all groups. -/
def bookings (S : List SchList) : List SchNode := S.flatMap SchList.nodes

/-- The place of an entry, and how much it may demand. -/
structure SchNode.Placed (n : SchNode) : Prop where
  startLSI_ne : n.startLSI ≠ 0
  slotDemand_lt : n.slotDemand.toNat < 256
  startLSI_of_zero : n.slotDemand = 0 → n.startLSI = 1

/-- An entry as `schedule` makes it. -/
structure SchNode.WellFormed (n : SchNode) : Prop where
  addr_lt : n.addr.toNat < 8192
  cls_lt : n.cls.toNat < 8
  startLSI_ne : n.startLSI ≠ 0
  slotDemand_lt : n.slotDemand.toNat < 256
  startLSI_of_zero : n.slotDemand = 0 → n.startLSI = 1
  nboSchDist_le : n.nboSchDist.toNat ≤ 3

theorem SchNode.WellFormed.placed {n : SchNode} (h : n.WellFormed) : n.Placed :=
  ⟨h.startLSI_ne, h.slotDemand_lt, h.startLSI_of_zero⟩

/-- The entry has still to be distributed. -/
abbrev SchNode.Pending (n : SchNode) : Prop := 0 < n.nboSchDist

/-- A group of well-formed entries that counts the pending ones. -/
structure SchList.Sound (list : SchList) : Prop where
  wellFormed : ∀ n ∈ list.nodes, n.WellFormed
  nboDistReq_eq : list.nboDistReq.toNat = list.nodes.countP fun n => n.Pending

variable {list : SchList} {node : SchNode} {S : List SchList} {addr : UInt16}

/-! ## One group

Taking out an address and putting one in keep a group sound: its entries are well formed, and its
counter of requests is the number of entries that wait. -/

/-- Sixteen bits of address are few enough for every counter. -/
theorem length_le_of_nodup {l : List SchNode} (h : (l.map SchNode.addr).Nodup) :
    l.length ≤ 65536 :=
  Keyed.length_le_of_nodup (fun _ _ => UInt16.toNat_inj.mp) UInt16.toNat_lt h

theorem sound_smInitSchedule (T : UInt32) : (smInitSchedule T).Sound :=
  ⟨fun _ hn => absurd hn List.not_mem_nil, rfl⟩

theorem sound_smClearSchedule (list : SchList) : (smClearSchedule list).Sound :=
  ⟨fun _ hn => absurd hn List.not_mem_nil, rfl⟩

/-- Taking a node out keeps a group sound. -/
theorem SchList.Sound.smRemoveOneNode (h : list.Sound) (addr : UInt16) :
    (smRemoveOneNode list addr).Sound := by
  refine ⟨fun n hn => h.wellFormed n ?_, ?_⟩
  · rw [nodes_smRemoveOneNode] at hn
    exact (Keyed.erase_sublist addr list.nodes).subset hn
  · rw [LoRaGwSv.smRemoveOneNode]
    split
    case h_1 => exact h.nboDistReq_eq
    case h_2 curNode hcur =>
      have hcount := (Keyed.perm_cons_erase hcur).countP_eq fun n : SchNode => n.Pending
      rw [List.countP_cons, ← h.nboDistReq_eq] at hcount
      have hlt := list.nboDistReq.toNat_lt
      by_cases hp : curNode.Pending
      · rw [if_pos (by simpa using hp)] at hcount
        simp only [if_pos hp, UInt32.toNat_sub, UInt32.toNat_one]
        omega
      · rw [if_neg (by simpa using hp)] at hcount
        simp only [if_neg hp]
        omega

/-- A request for no slots is always granted the first. -/
theorem smAssignLsiToNode_zero (h : ∀ n ∈ list.nodes, n.Placed) :
    smAssignLsiToNode list 0 = 1 := by
  rw [smAssignLsiToNode]
  split
  case h_1 => rfl
  case h_2 head rest hnodes =>
    exact if_pos (UInt16.pos_iff_ne_zero.mpr (h head (by rw [hnodes]; simp)).startLSI_ne)

theorem SchList.Sound.smAddNodeToScheduleList (h : list.Sound) (hnode : node.WellFormed)
    (hp : node.Pending) (hlen : list.nodes.length ≤ 65536) :
    (smAddNodeToScheduleList list node).Sound := by
  have hperm := List.perm_orderedInsert SchNode.StartsBefore node list.nodes
  refine ⟨fun n hn => ?_, ?_⟩
  · rcases List.mem_cons.mp (hperm.subset hn) with rfl | hn
    · exact hnode
    · exact h.wellFormed n hn
  · have hle := List.countP_le_length (p := fun n : SchNode => n.Pending) (l := list.nodes)
    simp only [LoRaGwSv.smAddNodeToScheduleList]
    rw [hperm.countP_eq, List.countP_cons, if_pos (by simpa using hp), UInt32.toNat_add,
      h.nboDistReq_eq, UInt32.toNat_one]
    omega

/-! ## All groups

An address is booked once if its booking is taken out of every group before a new one is added to
one of them.  That is what `schedule` does for each node. -/

/-- No address is booked twice, over all groups. -/
def NoDoubleBooking (S : List SchList) : Prop := ((bookings S).map SchNode.addr).Nodup

/-- Taking an address out of all groups takes its booking out. -/
theorem bookings_remove (h : NoDoubleBooking S) (addr : UInt16) :
    bookings (S.map fun list => smRemoveOneNode list addr)
      = (bookings S).filter fun b => b.addr ≠ addr :=
  Keyed.flatMap_erase (fun list _ => nodes_smRemoveOneNode list addr) h

theorem mem_bookings_remove (h : NoDoubleBooking S) {b : SchNode} :
    b ∈ bookings (S.map fun list => smRemoveOneNode list addr) ↔
      b ∈ bookings S ∧ b.addr ≠ addr := by
  rw [bookings_remove h, List.mem_filter, decide_eq_true_eq]

theorem noDoubleBooking_remove (h : NoDoubleBooking S) (addr : UInt16) :
    NoDoubleBooking (S.map fun list => smRemoveOneNode list addr) := by
  rw [NoDoubleBooking, bookings_remove h]
  exact h.sublist ((List.filter_sublist).map SchNode.addr)

/-- Adding to one group adds one booking. -/
theorem bookings_add {group : ℕ} (hgroup : S[group]? = some list) (node : SchNode) :
    (bookings (S.set group (smAddNodeToScheduleList list node))).Perm (node :: bookings S) :=
  Keyed.flatMap_set_perm hgroup (List.perm_orderedInsert _ _ _)

/-- An address that has given up its slots may be booked. -/
theorem noDoubleBooking_booked (h : NoDoubleBooking S) {group : ℕ}
    (hgroup : (S.map fun list => smRemoveOneNode list addr)[group]? = some list)
    (hnode : node.addr = addr) : NoDoubleBooking
      ((S.map fun list => smRemoveOneNode list addr).set group
        (smAddNodeToScheduleList list node)) := by
  rw [NoDoubleBooking, ((bookings_add hgroup node).map SchNode.addr).nodup_iff]
  refine List.nodup_cons.mpr ⟨fun hx => ?_, noDoubleBooking_remove h addr⟩
  obtain ⟨b, hb, hb'⟩ := List.mem_map.mp hx
  exact ((mem_bookings_remove h).mp hb).2 (hb'.trans hnode)

theorem bookings_clear (S : List SchList) : bookings (S.map smClearSchedule) = [] := by
  rw [bookings, List.flatMap_map, List.flatMap_eq_nil_iff]
  exact fun _ _ => rfl

/-- The bookings are those of the groups, one after the other. -/
theorem bookings_cons (list : SchList) (S : List SchList) :
    bookings (list :: S) = list.nodes ++ bookings S := List.flatMap_cons

theorem mem_bookings {b : SchNode} : b ∈ bookings S ↔ ∃ list ∈ S, b ∈ list.nodes :=
  List.mem_flatMap

/-! ## Booking one node

One group is tried, and the node is booked there or stays unscheduled. -/

/-- **What `schedule` does for one node**: its old slots are given up, and then it is refused, or
booked in one of the groups. -/
theorem scheduleOneNode_cases (s : Mac) (phase : OperationPhase) (n : MngtNode) :
    scheduleOneNode s phase n = (.schFailed, removeNodeFromSchedule s n.addr) ∨
    ∃ group list, (removeNodeFromSchedule s n.addr).SCHEDULES[group]? = some list ∧
      smAssignLsiToNode list n.genInfo.slotDmn.toUInt16 ≠ 0 ∧
      scheduleOneNode s phase n = (.schSucceeded, { removeNodeFromSchedule s n.addr with
        SCHEDULES := (removeNodeFromSchedule s n.addr).SCHEDULES.set group
          (smAddNodeToScheduleList list { n.schNode phase with
            startLSI := smAssignLsiToNode list n.genInfo.slotDmn.toUInt16 }) }) := by
  rw [scheduleOneNode]
  generalize removeNodeFromSchedule s n.addr = s'
  dsimp only
  generalize getIndexOfLowestLoadSch s'.SCHEDULES = group
  cases hgroup : s'.SCHEDULES[group]? with
  | none => exact Or.inl rfl
  | some list =>
    rcases smScheduleOneNode_cases list (n.schNode phase) with ⟨-, hsch⟩ | ⟨hne, hsch⟩
    · refine Or.inl ?_
      dsimp only
      rw [hsch]
      obtain ⟨hlt, rfl⟩ := List.getElem?_eq_some_iff.mp hgroup
      rw [List.set_getElem_self]
    · refine Or.inr ⟨group, list, hgroup, hne, ?_⟩
      dsimp only
      rw [hsch]
      rfl

/-- Each phase has an entry distributed at least once. -/
theorem OperationPhase.nboSchDist_pos (phase : OperationPhase) : 0 < phase.nboSchDist := by
  cases phase <;> decide

/-- None has it distributed more than three times. -/
theorem OperationPhase.nboSchDist_le (phase : OperationPhase) : phase.nboSchDist.toNat ≤ 3 := by
  cases phase <;> decide

/-- Any node is booked at a place of its own. -/
theorem placed_schNode (n : MngtNode) (hlist : ∀ b ∈ list.nodes, b.Placed) (phase : OperationPhase)
    (hne : smAssignLsiToNode list n.genInfo.slotDmn.toUInt16 ≠ 0) :
    SchNode.Placed { n.schNode phase with
      startLSI := smAssignLsiToNode list n.genInfo.slotDmn.toUInt16 } where
  startLSI_ne := hne
  slotDemand_lt := by
    have := n.genInfo.slotDmn.toNat_lt
    rwa [MngtNode.schNode, UInt8.toNat_toUInt16]
  startLSI_of_zero h := by
    have hzero : n.genInfo.slotDmn.toUInt16 = 0 := h
    rw [hzero]
    exact smAssignLsiToNode_zero hlist

/-- The booking of a well-formed node is well formed. -/
theorem wellFormed_schNode {n : MngtNode} (hn : n.WellFormed) (hlist : list.Sound)
    (phase : OperationPhase) (hne : smAssignLsiToNode list n.genInfo.slotDmn.toUInt16 ≠ 0) :
    SchNode.WellFormed { n.schNode phase with
      startLSI := smAssignLsiToNode list n.genInfo.slotDmn.toUInt16 } where
  addr_lt := hn.addr_lt
  cls_lt := by
    have := hn.cls_lt
    rwa [MngtNode.schNode, UInt8.toNat_toUInt16]
  startLSI_ne := hne
  slotDemand_lt := (placed_schNode n (fun b hb => (hlist.wellFormed b hb).placed) phase
    hne).slotDemand_lt
  startLSI_of_zero := (placed_schNode n (fun b hb => (hlist.wellFormed b hb).placed) phase
    hne).startLSI_of_zero
  nboSchDist_le := phase.nboSchDist_le

/-! ## Marking a node scheduled

The node that has been booked is marked in NODES, and the children in its table are marked as
connected.  This is the place where `schedule` follows references, and with sound NODES none of them
is null. -/

/-- Marking a node keeps the registry sound. -/
theorem Registry.Sound.setSchFlag {m : Registry} {e : MngtNode} {a : UInt16} (h : m.Sound)
    (he : m a = some e) (flag : Bool) :
    Registry.Sound (update m a (some { e with schFlag := flag })) where
  keyed b x hx := by
    rw [update_apply] at hx
    split at hx
    case isTrue hb =>
      obtain rfl := Option.some.inj hx
      exact (h.keyed a e he).trans hb.symm
    case isFalse => exact h.keyed b x hx
  closed b x hx c hc hc0 := by
    have hsome : (m c.addr).isSome := by
      rw [update_apply] at hx
      split at hx
      case isTrue =>
        obtain rfl := Option.some.inj hx
        exact h.closed a e he c hc hc0
      case isFalse => exact h.closed b x hx c hc hc0
    rw [update_apply]
    split
    · rfl
    · exact hsome
  wellFormed b x hx := by
    rw [update_apply] at hx
    split at hx
    case isTrue =>
      obtain rfl := Option.some.inj hx
      exact (h.wellFormed a e he).setSchFlag flag
    case isFalse => exact h.wellFormed b x hx

/-- The list with the entry at position `i` scheduled and connected. -/
def MngtNodeList.markAt (lst : MngtNodeList) (i : ℕ) : MngtNodeList :=
  { lst with nodes := lst.nodes.modify i fun n => { n with schFlag := true, isConnected := true } }

/-- In the registry a mark changes one entry. -/
theorem registry_markAt {lst : MngtNodeList} (hd : lst.Distinct) {i : ℕ} {n : MngtNode}
    (hi : lst.nodes[i]? = some n) : (lst.markAt i).registry
      = update lst.registry n.addr (some { n.profile with schFlag := true }) := by
  funext b
  have hlookup : Keyed.lookup MngtNode.addr b (lst.markAt i).nodes
      = if b = n.addr then some { n with schFlag := true, isConnected := true }
        else Keyed.lookup MngtNode.addr b lst.nodes := Keyed.lookup_modify rfl hd hi
  rw [registry_eq, getNodeReferenceByAddress, hlookup, update_apply]
  split
  · rfl
  · rw [registry_eq]
    rfl

theorem MngtNodeList.Sound.markAt {lst : MngtNodeList} (h : lst.Sound) {i : ℕ} {n : MngtNode}
    (hi : lst.nodes[i]? = some n) : (lst.markAt i).Sound where
  distinct := by
    have hkeys : (lst.markAt i).nodes.map MngtNode.addr = lst.nodes.map MngtNode.addr :=
      Keyed.map_key_modify
        (f := fun n : MngtNode => { n with schFlag := true, isConnected := true })
        (fun _ => rfl) _ _
    exact (congrArg List.Nodup hkeys).mpr h.distinct
  registry := by
    rw [registry_markAt h.distinct hi]
    exact h.registry.setSchFlag (h.distinct.registry_self (List.mem_of_getElem? hi)) true

/-- The children that are marked as connected have the profiles that they had. -/
theorem profiles_markScheduled {lst lst' : MngtNodeList} {i : ℕ} {n : MngtNode}
    (h : markScheduled lst i n = some lst') :
    lst'.nodes.map MngtNode.profile = (lst.markAt i).nodes.map MngtNode.profile :=
  profiles_dmSetChildConnStatusLoop true _ _ h

/-- **Marking a node scheduled** follows no null pointer and sets one flag. -/
theorem markScheduled_spec {lst : MngtNodeList} (h : lst.Sound) {i : ℕ} {n : MngtNode}
    (hi : lst.nodes[i]? = some n) :
    ∃ lst', markScheduled lst i n = some lst' ∧ lst'.Sound ∧
      lst'.registry = update lst.registry n.addr (some { n.profile with schFlag := true }) := by
  have hentry := h.distinct.registry_self (List.mem_of_getElem? hi)
  have hmid := registry_markAt h.distinct hi
  obtain ⟨lst', hlst', hprof⟩ := @dmSetChildConnStatus_spec (lst.markAt i) n true fun c hc hc0 => by
    rw [hmid, update_apply]
    split
    · rfl
    · exact h.registry.closed _ _ hentry c hc hc0
  have hreg : lst'.registry = (lst.markAt i).registry := by
    funext b
    rw [MngtNodeList.registry, hprof, MngtNodeList.registry]
  refine ⟨lst', hlst', ⟨distinct_of_profiles hprof (h.markAt hi).distinct, ?_⟩, hreg.trans hmid⟩
  rw [hreg]
  exact (h.markAt hi).registry

/-! ## One turn of the loop of `schedule` -/

/-- What one turn leaves: the same state; or, for the unscheduled one-hop node `n` at its position,
its slots given up, or new ones booked and the node marked scheduled. -/
inductive Turn (phase : OperationPhase) (s : Mac) (n : MngtNode) : Mac → Prop
  | refused : Turn phase s n (removeNodeFromSchedule s n.addr)
  | booked {s' : Mac} {group : ℕ} {list : SchList}
      (hgroup : (removeNodeFromSchedule s n.addr).SCHEDULES[group]? = some list)
      (hne : smAssignLsiToNode list n.genInfo.slotDmn.toUInt16 ≠ 0)
      (hsch : s'.SCHEDULES = (removeNodeFromSchedule s n.addr).SCHEDULES.set group
        (smAddNodeToScheduleList list { n.schNode phase with
          startLSI := smAssignLsiToNode list n.genInfo.slotDmn.toUInt16 }))
      (hsound : s'.NODES.Sound)
      (hreg : s'.NODES.registry
        = update s.NODES.registry n.addr (some { n.profile with schFlag := true }))
      (hrnl : s'.RNL = s.RNL) : Turn phase s n s'

/-- What is booked once a node has new slots: those, and the old bookings of the other nodes. -/
theorem mem_bookings_booked {s s' : Mac} {group : ℕ} {b : SchNode}
    (h : NoDoubleBooking s.SCHEDULES)
    (hgroup : (removeNodeFromSchedule s addr).SCHEDULES[group]? = some list)
    (hsch : s'.SCHEDULES = (removeNodeFromSchedule s addr).SCHEDULES.set group
      (smAddNodeToScheduleList list node)) :
    b ∈ bookings s'.SCHEDULES ↔ b = node ∨ b ∈ bookings s.SCHEDULES ∧ b.addr ≠ addr := by
  rw [hsch, (bookings_add hgroup node).mem_iff, List.mem_cons]
  exact or_congr_right (mem_bookings_remove h)

/-- **A turn of the loop does nothing, or books and marks a one-hop node that was not marked.** -/
theorem scheduleStep_cases {s : Mac} (h : s.NODES.Sound) (phase : OperationPhase) (i : ℕ) :
    ∃ s', scheduleStep phase s i = some s' ∧ (s' = s ∨ ∃ n ∈ s.NODES.nodes,
      n.genInfo.type = .onehop ∧ n.schFlag = false ∧ Turn phase s n s') := by
  rw [scheduleStep]
  cases hi : s.NODES.nodes[i]? with
  | none => exact ⟨s, rfl, Or.inl rfl⟩
  | some n =>
    by_cases hdue : n.genInfo.type = .onehop ∧ n.schFlag = false
    · simp only [if_pos hdue]
      refine (scheduleOneNode_cases s phase n).elim (fun hfail => ?_) ?_
      · rw [hfail]
        exact ⟨_, rfl, Or.inr ⟨n, List.mem_of_getElem? hi, hdue.1, hdue.2, .refused⟩⟩
      · rintro ⟨group, list, hgroup, hne, hok⟩
        obtain ⟨NODES, hNODES, hsound, hreg⟩ := markScheduled_spec h hi
        rw [hok]
        refine ⟨_, congrArg (Option.map _) hNODES, Or.inr
          ⟨n, List.mem_of_getElem? hi, hdue.1, hdue.2, ?_⟩⟩
        exact .booked hgroup hne rfl hsound hreg rfl
    · exact ⟨s, by simp only [if_neg hdue], Or.inl rfl⟩

/-- What each turn keeps, any number of turns keep. -/
theorem scheduleLoop_rule {I : Mac → Prop} {phase : OperationPhase}
    (hstep : ∀ s i, I s → ∃ s', scheduleStep phase s i = some s' ∧ I s') (n i : ℕ) {s : Mac}
    (h : I s) : ∃ s', scheduleLoop phase n i s = some s' ∧ I s' := by
  induction n generalizing s i with
  | zero => exact ⟨s, rfl, h⟩
  | succ n ih =>
    obtain ⟨s', hs', h'⟩ := hstep s i h
    rw [scheduleLoop, hs', Option.bind_some]
    exact ih (i + 1) h'

/-- **What each turn keeps, `schedule` keeps.** -/
theorem schedule_rule {I : Mac → Prop} {phase : OperationPhase}
    (hstep : ∀ s i, I s → ∃ s', scheduleStep phase s i = some s' ∧ I s') {s : Mac} (h : I s) :
    ∃ s', schedule phase s = some s' ∧ I s' := scheduleLoop_rule hstep _ 0 h

/-! ## Consistent states

The operations keep this one by one.  The reset is the exception: it needs NODES to be sound, and
nothing of the schedule. -/

/-- Each channel has a group, and each group divides one frame. -/
def Mac.Framed (p : MacParams) (s : Mac) : Prop :=
  s.SCHEDULES.map (fun list => list.nboTotSlots.toNat)
    = List.replicate p.macNboChannels (2 ^ p.macFrameFactor)

/-- **NODES and the schedule agree**: nothing is booked twice, and only for one-hop nodes. -/
structure Mac.Consistent (p : MacParams) (s : Mac) : Prop where
  sound : s.NODES.Sound
  framed : s.Framed p
  lists : ∀ list ∈ s.SCHEDULES, list.Sound
  once : NoDoubleBooking s.SCHEDULES
  onehop : ∀ b ∈ bookings s.SCHEDULES, s.NODES.registry.Is b.addr .onehop

variable {p : MacParams} {s s' : Mac}

theorem Mac.Framed.groups (h : s.Framed p) : s.SCHEDULES.length = p.macNboChannels := by
  rw [← List.length_map, h, List.length_replicate]

theorem Mac.Framed.nboTotSlots (h : s.Framed p) (hlist : list ∈ s.SCHEDULES) :
    list.nboTotSlots.toNat = 2 ^ p.macFrameFactor :=
  List.eq_of_mem_replicate (h ▸ List.mem_map_of_mem hlist)

/-- What leaves the size of each group alone leaves the frame alone. -/
theorem Mac.Framed.map (h : s.Framed p) {f : SchList → SchList}
    (hf : ∀ list, (f list).nboTotSlots = list.nboTotSlots) :
    Mac.Framed p { s with SCHEDULES := s.SCHEDULES.map f } := by
  rw [Mac.Framed, List.map_map]
  exact (List.map_congr_left fun list _ => congrArg UInt32.toNat (hf list)).trans h

/-- A group that keeps its number of slots may be written. -/
theorem Mac.Framed.set (h : s.Framed p) {i : ℕ} {list' : SchList}
    (hget : s.SCHEDULES[i]? = some list) (hlist' : list'.nboTotSlots = list.nboTotSlots) :
    Mac.Framed p { s with SCHEDULES := s.SCHEDULES.set i list' } :=
  (Keyed.map_set_of_eq hget (congrArg UInt32.toNat hlist')).trans h

/-- There is a group for each channel in every consistent state. -/
theorem Mac.Consistent.groups (h : s.Consistent p) : s.SCHEDULES.length = p.macNboChannels :=
  h.framed.groups

theorem framed_twohopLoRaMacInit (p : MacParams) : (twohopLoRaMacInit p).Framed p := by
  have hpow : ∀ ff, 1 ≤ ff → ff ≤ 7 → (UInt16.ofNat (ipow 2 ff)).toUInt32.toNat = 2 ^ ff := by
    decide
  rw [Mac.Framed, twohopLoRaMacInit, List.map_replicate]
  exact congrArg _ (hpow _ p.frameFactor_bounds.1 p.frameFactor_bounds.2)

/-- The start is consistent: nothing is registered and nothing booked. -/
theorem consistent_twohopLoRaMacInit (p : MacParams) : (twohopLoRaMacInit p).Consistent p := by
  have hnil : bookings (twohopLoRaMacInit p).SCHEDULES = [] :=
    List.flatMap_eq_nil_iff.mpr fun list hlist => by rw [List.eq_of_mem_replicate hlist]; rfl
  refine ⟨sound_initNodeList true, framed_twohopLoRaMacInit p, fun list hlist => ?_, ?_, ?_⟩
  · rw [List.eq_of_mem_replicate hlist]
    exact sound_smInitSchedule _
  · rw [NoDoubleBooking, hnil]
    exact List.nodup_nil
  · rw [hnil]
    exact fun _ hb => absurd hb List.not_mem_nil

/-- Taking a node out of the schedule keeps the state consistent. -/
theorem Mac.Consistent.removeNodeFromSchedule (h : s.Consistent p) (addr : UInt16) :
    (removeNodeFromSchedule s addr).Consistent p where
  sound := h.sound
  framed := h.framed.map fun _ => nboTotSlots_smRemoveOneNode
  lists list hlist := by
    obtain ⟨list, hmem, rfl⟩ := List.mem_map.mp hlist
    exact (h.lists list hmem).smRemoveOneNode addr
  once := noDoubleBooking_remove h.once addr
  onehop b hb := h.onehop b ((mem_bookings_remove h.once).mp hb).1

/-- Every entry of a group is booked there alone. -/
theorem Mac.Consistent.length_nodes_le (h : s.Consistent p) (hlist : list ∈ s.SCHEDULES) :
    list.nodes.length ≤ 65536 := length_le_of_nodup (Keyed.nodup_piece h.once hlist)

theorem Mac.Consistent.turn {phase : OperationPhase} {n : MngtNode} (h : s.Consistent p)
    (hn : n ∈ s.NODES.nodes) (honehop : n.genInfo.type = .onehop) (hturn : Turn phase s n s') :
    s'.Consistent p := by
  have hrem := h.removeNodeFromSchedule n.addr
  cases hturn with
  | refused => exact hrem
  | booked hgroup hne hsch hsound hreg =>
    have hmem := List.mem_of_getElem? hgroup
    refine ⟨hsound, ?_, fun list' hlist' => ?_, ?_, fun b hb => ?_⟩
    · rw [Mac.Framed, hsch]
      exact hrem.framed.set hgroup rfl
    · rw [hsch] at hlist'
      rcases List.mem_or_eq_of_mem_set hlist' with hlist' | rfl
      · exact hrem.lists list' hlist'
      · have hwf := h.sound.registry.wellFormed _ _ (h.sound.distinct.registry_self hn)
        exact (hrem.lists _ hmem).smAddNodeToScheduleList
          (wellFormed_schNode (n := n) ⟨hwf.addr_lt, hwf.cls_lt, hwf.child_lt, hwf.nboChildren_eq,
            hwf.cell_unique⟩ (hrem.lists _ hmem) phase hne)
          phase.nboSchDist_pos (hrem.length_nodes_le hmem)
    · rw [hsch]
      exact noDoubleBooking_booked h.once hgroup rfl
    · rw [hreg]
      refine Registry.exists_update.mpr ?_
      rcases (mem_bookings_booked h.once hgroup hsch).mp hb with rfl | ⟨hb, hne⟩
      · exact Or.inl ⟨rfl, honehop⟩
      · exact Or.inr ⟨hne, h.onehop b hb⟩

/-- **So does a call of `schedule`**, which follows no null pointer. -/
theorem Mac.Consistent.schedule (h : s.Consistent p) (phase : OperationPhase) :
    ∃ s', schedule phase s = some s' ∧ s'.Consistent p := by
  refine schedule_rule (fun s i h => ?_) h
  obtain ⟨s', hs', rfl | ⟨n, hn, honehop, -, hturn⟩⟩ := scheduleStep_cases h.sound phase i
  · exact ⟨s', hs', h⟩
  · exact ⟨s', hs', h.turn hn honehop hturn⟩

/-- A one-hop registration leaves the schedule alone; a two-hop one first gives up the slots of its
node, which is then the only one whose type may change. -/
theorem Mac.Consistent.registerNode {n : MngtNode} (h : s.Consistent p) (hn : n.Fresh) :
    ∃ s', s.registerNode n = some s' ∧ s'.Consistent p ∧ s'.RNL = s.RNL ∧
      ∀ b ∈ bookings s'.SCHEDULES, b ∈ bookings s.SCHEDULES := by
  obtain ⟨s', hs', hsound, hreg, hrnl, hsch⟩ := Mac.registerNode_spec h.sound hn
  refine ⟨s', hs', ?_⟩
  cases htype : n.genInfo.type with
  | onehop =>
    simp only [htype] at hsch
    refine ⟨⟨hsound, by rw [Mac.Framed, hsch]; exact h.framed, hsch ▸ h.lists, hsch ▸ h.once,
      fun b hb => ?_⟩, hrnl, fun b hb => hsch ▸ hb⟩
    rw [hreg]
    rcases eq_or_ne b.addr n.addr with heq | hne
    · rw [heq, Registry.register, htype]
      exact Registry.is_update.mpr (Or.inl ⟨rfl, htype⟩)
    · exact (Registry.is_register_of_ne hne).mpr (h.onehop b (hsch ▸ hb))
  | twohop =>
    simp only [htype] at hsch
    have hrem := h.removeNodeFromSchedule n.addr
    refine ⟨⟨hsound, by rw [Mac.Framed, hsch]; exact hrem.framed, hsch ▸ hrem.lists,
      hsch ▸ hrem.once, fun b hb => ?_⟩, hrnl, fun b hb => ?_⟩
    · rw [hsch] at hb
      obtain ⟨hb, hne⟩ := (mem_bookings_remove h.once).mp hb
      rw [hreg]
      exact (Registry.is_register_of_ne hne).mpr (h.onehop b hb)
    · rw [hsch] at hb
      exact ((mem_bookings_remove h.once).mp hb).1

/-- **So does a registration.** -/
theorem Mac.Consistent.register (h : s.Consistent p) (r : Registration) :
    ∃ s', s.register r = some s' ∧ s'.Consistent p :=
  (h.registerNode r.fresh_node).imp fun _ hs' => ⟨hs'.1, hs'.2.1⟩

/-- Setting every flag is setting it in every entry of the registry. -/
theorem registry_dmSetSchFlagAll (lst : MngtNodeList) (val : Bool) (a : UInt16) :
    (dmSetSchFlagAll lst val).registry a
      = (lst.registry a).map fun e => { e with schFlag := val } := by
  have hlookup : getNodeReferenceByAddress (dmSetSchFlagAll lst val) a
      = (getNodeReferenceByAddress lst a).map fun n => { n with schFlag := val } :=
    Keyed.lookup_map (fun _ => rfl) lst.nodes
  rw [registry_eq, hlookup, registry_eq, Option.map_map, Option.map_map]
  rfl

theorem sound_dmSetSchFlagAll {lst : MngtNodeList} (h : lst.Sound) (val : Bool) :
    (dmSetSchFlagAll lst val).Sound := by
  have hentry : ∀ a x, (dmSetSchFlagAll lst val).registry a = some x →
      ∃ e, lst.registry a = some e ∧ { e with schFlag := val } = x := fun a x hx => by
    rwa [registry_dmSetSchFlagAll, Option.map_eq_some_iff] at hx
  refine ⟨?_, ⟨fun a x hx => ?_, fun a x hx c hc hc0 => ?_, fun a x hx => ?_⟩⟩
  · rw [MngtNodeList.Distinct, dmSetSchFlagAll, List.map_map]
    exact h.distinct
  · obtain ⟨e, he, rfl⟩ := hentry a x hx
    exact h.registry.keyed a e he
  · obtain ⟨e, he, rfl⟩ := hentry a x hx
    rw [registry_dmSetSchFlagAll, Option.isSome_map]
    exact h.registry.closed a e he c hc hc0
  · obtain ⟨e, he, rfl⟩ := hentry a x hx
    exact (h.registry.wellFormed a e he).setSchFlag val

/-- After a reset the state is consistent whatever the schedule was. -/
theorem consistent_resetSchedule (hsound : s.NODES.Sound)
    (hframed : s.Framed p) : (resetSchedule s).Consistent p := by
  have hnil : bookings (resetSchedule s).SCHEDULES = [] := bookings_clear s.SCHEDULES
  refine ⟨sound_dmSetSchFlagAll hsound false, hframed.map fun _ => rfl,
    fun list hlist => ?_, ?_, ?_⟩
  · obtain ⟨list, -, rfl⟩ := List.mem_map.mp hlist
    exact sound_smClearSchedule list
  · rw [NoDoubleBooking, hnil]
    exact List.nodup_nil
  · rw [hnil]
    exact fun _ hb => absurd hb List.not_mem_nil

theorem Mac.Consistent.resetSchedule (h : s.Consistent p) : (resetSchedule s).Consistent p :=
  consistent_resetSchedule h.sound h.framed

/-! ## Any history

Registrations, calls of `schedule` and resets, in any order. -/

/-- What happens to NODES and the schedule. -/
inductive MacOp
  | register (r : Registration)
  | schedule (phase : OperationPhase)
  | reset
deriving DecidableEq, Repr

/-- What an operation does to the state. -/
def MacOp.step (s : Mac) : MacOp → Option Mac
  | .register r => s.register r
  | .schedule phase => LoRaGwSv.schedule phase s
  | .reset => some (resetSchedule s)

/-- **Each operation keeps NODES and the schedule consistent**, and follows no null pointer. -/
theorem Mac.Consistent.step (h : s.Consistent p) (op : MacOp) :
    ∃ s', op.step s = some s' ∧ s'.Consistent p := by
  cases op with
  | register r => exact h.register r
  | schedule phase => exact h.schedule phase
  | reset => exact ⟨_, rfl, h.resetSchedule⟩

/-- No address is booked twice, and each booked one is that of a one-hop node of NODES, whose child
list a command message can look up. -/
structure Mac.BookedOnce (s : Mac) : Prop where
  once : ((bookings s.SCHEDULES).map SchNode.addr).Nodup
  onehop : ∀ b ∈ bookings s.SCHEDULES,
    ∃ n ∈ s.NODES.nodes, n.addr = b.addr ∧ n.genInfo.type = .onehop
  children : ∀ b ∈ bookings s.SCHEDULES, dmNodeGetChildList s.NODES b.addr ≠ none

/-- A node that is registered has a child list to be asked for. -/
theorem dmNodeGetChildList_ne_none {lst : MngtNodeList} {a : UInt16} {type : NodeType}
    (h : lst.registry.Is a type) : dmNodeGetChildList lst a ≠ none := by
  obtain ⟨e, he, -⟩ := h
  rw [dmNodeGetChildList, ne_eq, Option.map_eq_none_iff, ← registry_eq_none, he]
  exact Option.some_ne_none e

/-- **No double booking and no dangling schedule entry**, in any history. -/
theorem bookedOnce_run (p : MacParams) (ops : List MacOp) :
    Runs.Always MacOp.step Mac.BookedOnce (twohopLoRaMacInit p) ops := by
  have hrun : Runs.Always MacOp.step (Mac.Consistent p) (twohopLoRaMacInit p) ops :=
    Runs.always_of_inv (fun _ op h (_ : True) => h.step op)
      (consistent_twohopLoRaMacInit p) ops fun _ _ => trivial
  refine hrun.imp fun s h => ⟨h.once, fun b hb => ?_, fun b hb => ?_⟩
  · exact (h.sound.distinct.exists_registry_iff fun _ => Iff.rfl).mp (h.onehop b hb)
  · exact dmNodeGetChildList_ne_none (h.onehop b hb)

end LoRaGwSv
