import LoRaGwSv.Server.ScheduleRuns

/-!
# Server/FirstFit — which requests a schedule list admits

A request is admitted where the frame has a free run of slots for it, and gets the leftmost one, as
`FirstFitExact` says.  The allocator keeps to this except in two corners: an empty list takes a
demand of any size, and past LSI 65535 the last LSI of the list no longer fits its sixteen bits.
`Admits` leaves out exactly these (`firstFitExact_iff`).
-/

namespace LoRaGwSv

open SlotLine

/-- `s, …, s + d - 1` are slots of the frame and assigned to no entry. -/
structure FreeRun (T : ℕ) (nodes : List SchNode) (d s : ℕ) : Prop where
  pos : 1 ≤ s
  inside : s + d - 1 ≤ T
  disjoint : ∀ n ∈ nodes, Disjoint (Finset.Icc s (s + d - 1)) n.lsis

/-- **First-fit admission**: a request is admitted exactly if there is a free run for it, and the
entry the list then gains starts at the least one. -/
structure FirstFitExact (list : SchList) (node : SchNode) : Prop where
  admitted : (smScheduleOneNode list node).1 = .schSucceeded ↔
    ∃ s, FreeRun list.nboTotSlots.toNat list.nodes node.slotDemand.toNat s
  least : (smScheduleOneNode list node).1 = .schSucceeded → ∃ startLSI : UInt16,
    (smScheduleOneNode list node).2.nodes.Perm ({ node with startLSI := startLSI } :: list.nodes) ∧
    IsLeast {s | FreeRun list.nboTotSlots.toNat list.nodes node.slotDemand.toNat s} startLSI.toNat

/-- The last LSI of an entry, before it is cut to sixteen bits. -/
def SchNode.lastLSI (n : SchNode) : ℕ := n.startLSI.toNat + n.slotDemand.toNat - 1

/-- The requests the allocator decides as it should.  With no entry, those that fit the frame.  With
a last entry, all of them if its last LSI is below 65535; past that those with room before it, and
at 65535 also those with no room after it. -/
def Admits (list : SchList) (d : ℕ) : Prop :=
  match list.nodes.getLast? with
  | none => d ≤ list.nboTotSlots.toNat
  | some n => n.lastLSI < 65535 ∨
      (∃ s < n.startLSI.toNat, FreeRun list.nboTotSlots.toNat list.nodes d s) ∨
      n.lastLSI = 65535 ∧ list.nboTotSlots.toNat < 65535 + d

/-! ## Free runs on the slot line

The entries of a list are runs of numbers, and a free run is one that fits between them. -/

variable {T d s : ℕ} {list : SchList} {nodes init : List SchNode} {n node : SchNode}

/-- Slots that are exclusive are runs of a packed line. -/
theorem SlotExclusive.packed (h : SlotExclusive T nodes) :
    Packed T (nodes.map SchNode.slot) := by
  refine ⟨List.pairwise_map.mpr ?_, fun x hx => ?_⟩
  · refine (h.ascending.and h.disjoint).imp_of_mem fun {a b} ha hb hab => ?_
    have hlt : a.startLSI.toNat < b.startLSI.toNat := UInt16.lt_iff_toNat_lt.mp hab.1
    have hb' := h.inside b hb
    -- the first slot of `b` is none of those of `a`
    have hnot : b.startLSI.toNat ∉ a.lsis := fun hmem =>
      Finset.disjoint_left.mp hab.2 hmem (Finset.mem_Icc.mpr ⟨le_rfl, by omega⟩)
    rw [SchNode.lsis, Finset.mem_Icc] at hnot
    simp only [Slot.stop, SchNode.slot]
    omega
  · obtain ⟨n, hn, rfl⟩ := List.mem_map.mp hx
    have := h.inside n hn
    simp only [Slot.stop, SchNode.slot]
    omega

/-- Slots are none of an entry's exactly if they lie before it or behind it. -/
theorem disjoint_lsis_iff (hd : 0 < d) (hpos : 0 < n.slotDemand.toNat) :
    Disjoint (Finset.Icc s (s + d - 1)) n.lsis ↔ s + d ≤ n.slot.start ∨ n.slot.stop ≤ s := by
  simp only [SchNode.lsis, Slot.stop, SchNode.slot]
  constructor
  · intro h
    by_contra! hover
    -- the larger of the two starts is in both
    have hmem : ∀ a b, s ≤ max s n.startLSI.toNat ∧ max s n.startLSI.toNat ≤ a ∧
        n.startLSI.toNat ≤ max s n.startLSI.toNat ∧ max s n.startLSI.toNat ≤ b →
        ¬ Disjoint (Finset.Icc s a) (Finset.Icc n.startLSI.toNat b) := fun a b hab hdis =>
      Finset.disjoint_left.mp hdis (Finset.mem_Icc.mpr ⟨hab.1, hab.2.1⟩)
        (Finset.mem_Icc.mpr hab.2.2)
    exact hmem _ _ (by omega) h
  · intro h
    refine Finset.disjoint_left.mpr fun x hx hx' => ?_
    have := Finset.mem_Icc.mp hx
    have := Finset.mem_Icc.mp hx'
    omega

/-- A free run is one that fits beside them. -/
theorem freeRun_iff_fits (hd : 0 < d) (hpos : ∀ n ∈ nodes, 0 < n.slotDemand.toNat) :
    FreeRun T nodes d s ↔ Fits T (nodes.map SchNode.slot) ⟨s, d⟩ := by
  have hdisj : ∀ n ∈ nodes, (Disjoint (Finset.Icc s (s + d - 1)) n.lsis ↔
      s + d ≤ n.slot.start ∨ n.slot.stop ≤ s) := fun n hn => disjoint_lsis_iff hd (hpos n hn)
  constructor
  · intro h
    refine ⟨h.pos, ?_, fun x hx => ?_⟩
    · have := h.inside
      simp only [Slot.stop]
      omega
    · obtain ⟨n, hn, rfl⟩ := List.mem_map.mp hx
      exact (hdisj n hn).mp (h.disjoint n hn)
  · intro h
    refine ⟨h.pos, ?_, fun n hn => (hdisj n hn).mpr (h.apart _ (List.mem_map_of_mem hn))⟩
    have hstop : s + d ≤ T + 1 := h.stop_le
    omega

/-! ## What the allocator computes on any list

The walk compares the gap between two neighbours with the demand.  All of it is right but the last
step, where the end of the last entry is cut to sixteen bits. -/

/-- Between two neighbours the walk sees the true gap: no LSI there is cut. -/
theorem smAssignLsiToNodeLoop_cons {nboTotSlots : UInt32} {demandSlot : UInt16}
    {curNode next : SchNode} {rest : List SchNode}
    (hp : Packed T ((curNode :: next :: rest).map SchNode.slot)) :
    smAssignLsiToNodeLoop nboTotSlots demandSlot curNode (next :: rest)
      = if curNode.slot.stop + demandSlot.toNat ≤ next.slot.start then
          UInt16.ofNat curNode.slot.stop
        else smAssignLsiToNodeLoop nboTotSlots demandSlot next rest := by
  have hcur := hp.within curNode.slot (by simp)
  have hle : curNode.slot.stop ≤ next.startLSI.toNat := hp.stop_le next.slot (by simp)
  have hlt := next.startLSI.toNat_lt
  have hlast := SchNode.toNat_lastLsi hcur.1 (by omega)
  have hpos : 1 < curNode.slot.stop := by
    simp only [Slot.stop]
    omega
  have hstop : curNode.lastLsi + 1 = UInt16.ofNat curNode.slot.stop := by
    apply UInt16.toNat_inj.mp
    rw [UInt16.toNat_add, UInt16.toNat_one, hlast, UInt16.toNat_ofNat']
    omega
  rw [smAssignLsiToNodeLoop, hstop, hlast, show next.slot.start = next.startLSI.toNat from rfl]
  exact if_congr (by omega) rfl rfl

/-- The walk from `curNode` to the last node is first fit on the line before that node. -/
theorem smAssignLsiToNodeLoop_concat {nboTotSlots : UInt32} {demandSlot : UInt16}
    {curNode : SchNode} (hp : Packed T ((curNode :: (init ++ [n])).map SchNode.slot)) :
    smAssignLsiToNodeLoop nboTotSlots demandSlot curNode (init ++ [n])
      = ((firstFit (n.startLSI.toNat - 1) demandSlot.toNat curNode.slot.stop
          (init.map SchNode.slot)).map UInt16.ofNat).getD
        (smAssignLsiToNodeLoop nboTotSlots demandSlot n []) := by
  induction init generalizing curNode with
  | nil =>
    have hn := (hp.within n.slot (by simp)).1
    have hcut : n.startLSI.toNat - 1 + 1 = n.slot.start := Nat.sub_add_cancel hn
    rw [List.nil_append, smAssignLsiToNodeLoop_cons hp, List.map_nil, firstFit, hcut]
    split <;> rfl
  | cons next init ih =>
    rw [List.cons_append] at hp ⊢
    rw [smAssignLsiToNodeLoop_cons hp, List.map_cons, firstFit]
    split
    · rfl
    · exact ih hp.tail

/-- **The LSI assigned** is that of the first free run before the last entry, and otherwise what the
walk decides at that entry. -/
theorem smAssignLsiToNode_concat {demandSlot : UInt16} (hnodes : list.nodes = init ++ [n])
    (hp : Packed T list.slots) :
    smAssignLsiToNode list demandSlot
      = ((firstFit (n.startLSI.toNat - 1) demandSlot.toNat 1 (init.map SchNode.slot)).map
          UInt16.ofNat).getD (smAssignLsiToNodeLoop list.nboTotSlots demandSlot n []) := by
  rw [SchList.slots, hnodes] at hp
  have hroom : ∀ head : SchNode, demandSlot < head.startLSI ↔
      1 + demandSlot.toNat ≤ head.slot.start := fun head => by
    rw [UInt16.lt_iff_toNat_lt]
    simp only [SchNode.slot]
    omega
  rw [smAssignLsiToNode, hnodes]
  cases init with
  | nil =>
    have hn := (hp.within n.slot (by simp)).1
    have hcut : n.startLSI.toNat - 1 + 1 = n.slot.start := Nat.sub_add_cancel hn
    simp only [List.nil_append, List.map_nil, firstFit, hcut, hroom]
    split <;> rfl
  | cons head init =>
    simp only [List.cons_append, List.map_cons, firstFit, hroom]
    split
    · rfl
    · exact smAssignLsiToNodeLoop_concat hp

/-- What the walk decides at the last entry: whether there is room after it, as far as its last LSI
fits sixteen bits. -/
theorem toNat_smAssignLsiToNodeLoop_nil {nboTotSlots : UInt32} {demandSlot : UInt16}
    (hn : 1 ≤ n.slot.start ∧ 0 < n.slot.len ∧ n.slot.stop ≤ nboTotSlots.toNat + 1) :
    (smAssignLsiToNodeLoop nboTotSlots demandSlot n []).toNat
      = if n.slot.stop ≤ 65536 then
          if n.slot.stop + demandSlot.toNat ≤ nboTotSlots.toNat + 1 then n.slot.stop % 65536 else 0
        else n.slot.stop - 65536 := by
  have hstart := n.startLSI.toNat_lt
  have hdemand := n.slotDemand.toNat_lt
  have hd := demandSlot.toNat_lt
  have hlt := nboTotSlots.toNat_lt
  have hstop : n.slot.stop = n.startLSI.toNat + n.slotDemand.toNat := rfl
  have hslot : n.slot.start = n.startLSI.toNat ∧ n.slot.len = n.slotDemand.toNat := ⟨rfl, rfl⟩
  have hlast : n.lastLsi.toNat = (n.slot.stop - 1) % 65536 := by
    rw [SchNode.lastLsi, UInt16.toNat_sub, UInt16.toNat_add, UInt16.toNat_one]
    omega
  have hroom : demandSlot.toUInt32 ≤ nboTotSlots - n.lastLsi.toUInt32 ↔
      (n.slot.stop - 1) % 65536 + demandSlot.toNat ≤ nboTotSlots.toNat := by
    rw [UInt32.le_iff_toNat_le, UInt32.toNat_sub, UInt16.toNat_toUInt32, UInt16.toNat_toUInt32,
      hlast]
    omega
  have hnext : (n.lastLsi + 1).toNat = n.slot.stop % 65536 := by
    rw [UInt16.toNat_add, UInt16.toNat_one, hlast]
    omega
  rw [smAssignLsiToNodeLoop]
  split
  case isTrue h =>
    have := hroom.mp h
    rw [hnext]
    split_ifs <;> omega
  case isFalse h =>
    have := mt hroom.mpr h
    rw [UInt16.toNat_zero]
    split_ifs <;> omega

/-! ## When the allocator is exact

The request is split by the list: without an entry nothing is compared with the frame, and behind
the last entry there is the cut. -/

/-- A request is admitted exactly if it is assigned an LSI, and starts there. -/
theorem firstFitExact_iff_lsi :
    FirstFitExact list node ↔
      (smAssignLsiToNode list node.slotDemand ≠ 0 ↔
        ∃ s, FreeRun list.nboTotSlots.toNat list.nodes node.slotDemand.toNat s) ∧
      (smAssignLsiToNode list node.slotDemand ≠ 0 →
        IsLeast {s | FreeRun list.nboTotSlots.toNat list.nodes node.slotDemand.toNat s}
          (smAssignLsiToNode list node.slotDemand).toNat) := by
  obtain ⟨hlsi, heq⟩ | ⟨hlsi, heq⟩ := smScheduleOneNode_cases list node
  · have hnot : (smScheduleOneNode list node).1 ≠ .schSucceeded := by
      rw [heq]
      simp
    exact ⟨fun h => ⟨(iff_of_false (not_not.mpr hlsi) hnot).trans h.admitted,
      fun hne => absurd hlsi hne⟩, fun h => ⟨(iff_of_false hnot (not_not.mpr hlsi)).trans h.1,
      fun hsucc => absurd hsucc hnot⟩⟩
  · have hsucc : (smScheduleOneNode list node).1 = .schSucceeded := by rw [heq]
    have hperm : (smScheduleOneNode list node).2.nodes.Perm
        ({ node with startLSI := smAssignLsiToNode list node.slotDemand } :: list.nodes) := by
      rw [heq]
      exact List.perm_orderedInsert _ _ _
    refine ⟨fun h => ⟨(iff_of_true hlsi hsucc).trans h.admitted, fun _ => ?_⟩,
      fun h => ⟨(iff_of_true hsucc hlsi).trans h.1, fun _ => ⟨_, hperm, h.2 hlsi⟩⟩⟩
    obtain ⟨startLSI, hperm', hleast⟩ := h.least hsucc
    -- the list grows by one entry only
    have hentry := (Multiset.cons_inj_left (list.nodes : Multiset SchNode)).mp
      (Multiset.coe_eq_coe.mpr (hperm.symm.trans hperm'))
    rwa [show smAssignLsiToNode list node.slotDemand = startLSI from
      congrArg SchNode.startLSI hentry]

theorem freeRun_list_iff (hlist : SlotExclusive list.nboTotSlots.toNat list.nodes) (hd : 0 < d)
    (s : ℕ) : FreeRun list.nboTotSlots.toNat list.nodes d s ↔
      Fits list.nboTotSlots.toNat list.slots ⟨s, d⟩ :=
  freeRun_iff_fits hd fun n hn => (hlist.inside n hn).2.1

/-- An empty list takes everything in at slot 1. -/
theorem firstFitExact_nil (hlist : SlotExclusive list.nboTotSlots.toNat list.nodes)
    (hd : 1 ≤ node.slotDemand.toNat) (hnodes : list.nodes = []) :
    FirstFitExact list node ↔ node.slotDemand.toNat ≤ list.nboTotSlots.toNat := by
  have hfits : ∀ s, Fits list.nboTotSlots.toNat list.slots ⟨s, node.slotDemand.toNat⟩ ↔
      1 ≤ s ∧ s + node.slotDemand.toNat ≤ list.nboTotSlots.toNat + 1 := fun s =>
    ⟨fun h => ⟨h.pos, h.stop_le⟩, fun h => ⟨h.1, h.2, by simp [SchList.slots, hnodes]⟩⟩
  have hlsi : smAssignLsiToNode list node.slotDemand = 1 := by rw [smAssignLsiToNode, hnodes]
  simp only [firstFitExact_iff_lsi, freeRun_list_iff hlist hd, hfits, hlsi]
  constructor
  · rintro ⟨hiff, -⟩
    obtain ⟨s, hs, hsT⟩ := hiff.mp (by decide)
    omega
  · exact fun h => ⟨iff_of_true (by decide) ⟨1, le_rfl, by omega⟩,
      fun _ => ⟨⟨le_rfl, by rw [UInt16.toNat_one]; omega⟩, fun s hs => hs.1⟩⟩

theorem SlotExclusive.packed_concat (hlist : SlotExclusive list.nboTotSlots.toNat list.nodes)
    (hnodes : list.nodes = init ++ [n]) :
    Packed list.nboTotSlots.toNat (init.map SchNode.slot ++ [n.slot]) := by
  have hp := hlist.packed
  rwa [hnodes, List.map_append] at hp

/-- A free run is one before the last entry, or one behind it. -/
theorem freeRun_concat_iff (hlist : SlotExclusive list.nboTotSlots.toNat list.nodes) (hd : 0 < d)
    (hnodes : list.nodes = init ++ [n]) (s : ℕ) :
    FreeRun list.nboTotSlots.toNat list.nodes d s ↔
      Fits (n.startLSI.toNat - 1) (init.map SchNode.slot) ⟨s, d⟩ ∨
        n.slot.stop ≤ s ∧ s + d ≤ list.nboTotSlots.toNat + 1 := by
  have hslots : list.slots = init.map SchNode.slot ++ [n.slot] := by
    rw [SchList.slots, hnodes, List.map_append]
    rfl
  rw [freeRun_list_iff hlist hd, hslots, fits_concat (hlist.packed_concat hnodes)]
  rfl

/-- The least place from `a` on that leaves room for `d` slots. -/
theorem isLeast_from_iff {a d T v : ℕ} :
    IsLeast {s | a ≤ s ∧ s + d ≤ T + 1} v ↔ v = a ∧ a + d ≤ T + 1 := by
  constructor
  · rintro ⟨⟨hge, hvT⟩, hmin⟩
    have hfits : a + d ≤ T + 1 := by omega
    exact ⟨le_antisymm (hmin ⟨le_rfl, hfits⟩) hge, hfits⟩
  · rintro ⟨rfl, hfits⟩
    exact ⟨⟨le_rfl, hfits⟩, fun s hs => hs.1⟩

/-- With room before the last entry, the allocator finds it. -/
theorem firstFitExact_of_room (hlist : SlotExclusive list.nboTotSlots.toNat list.nodes)
    (hd : 1 ≤ node.slotDemand.toNat) (hnodes : list.nodes = init ++ [n])
    (hfit : firstFit (n.startLSI.toNat - 1) node.slotDemand.toNat 1 (init.map SchNode.slot)
      = some s) :
    FirstFitExact list node ∧ s < n.startLSI.toNat ∧
      FreeRun list.nboTotSlots.toNat list.nodes node.slotDemand.toNat s := by
  obtain ⟨hs, hleast⟩ := (hlist.packed_concat hnodes).dropLast.isLeast_firstFit hd hfit
  have hstart : s + node.slotDemand.toNat ≤ n.startLSI.toNat - 1 + 1 := hs.stop_le
  have hpos : 1 ≤ s := hs.pos
  have hlt := n.startLSI.toNat_lt
  have hlsi : (smAssignLsiToNode list node.slotDemand).toNat = s := by
    rw [smAssignLsiToNode_concat hnodes hlist.packed, hfit, Option.map_some, Option.getD_some,
      UInt16.toNat_ofNat', Nat.mod_eq_of_lt (by omega)]
  have hne : smAssignLsiToNode list node.slotDemand ≠ 0 := fun h0 => by
    rw [h0, UInt16.toNat_zero] at hlsi
    omega
  have hfree := (freeRun_concat_iff hlist hd hnodes s).mpr (Or.inl hs)
  refine ⟨firstFitExact_iff_lsi.mpr ⟨iff_of_true hne ⟨s, hfree⟩, fun _ => ?_⟩, by omega, hfree⟩
  rw [hlsi]
  refine ⟨hfree, fun s' hs' => ?_⟩
  obtain hs' | ⟨hge, -⟩ := (freeRun_concat_iff hlist hd hnodes s').mp hs'
  · exact hleast hs'
  · simp only [Slot.stop, SchNode.slot] at hge
    omega

/-- Without it, everything hangs on the last LSI. -/
theorem firstFitExact_of_full (hlist : SlotExclusive list.nboTotSlots.toNat list.nodes)
    (hd : 1 ≤ node.slotDemand.toNat) (hnodes : list.nodes = init ++ [n])
    (hfull : firstFit (n.startLSI.toNat - 1) node.slotDemand.toNat 1 (init.map SchNode.slot)
      = none) :
    (FirstFitExact list node ↔ n.lastLSI < 65535 ∨
      n.lastLSI = 65535 ∧ list.nboTotSlots.toNat < 65535 + node.slotDemand.toNat) ∧
      ∀ s < n.startLSI.toNat,
        ¬ FreeRun list.nboTotSlots.toNat list.nodes node.slotDemand.toNat s := by
  have hn := (hlist.packed_concat hnodes).within n.slot (by simp)
  have hfree : ∀ s, FreeRun list.nboTotSlots.toNat list.nodes node.slotDemand.toNat s ↔
      n.slot.stop ≤ s ∧ s + node.slotDemand.toNat ≤ list.nboTotSlots.toNat + 1 := fun s => by
    rw [freeRun_concat_iff hlist hd hnodes, or_iff_right (not_fits_of_firstFit hfull)]
  have hsome : (∃ s, n.slot.stop ≤ s ∧ s + node.slotDemand.toNat ≤ list.nboTotSlots.toNat + 1) ↔
      n.slot.stop + node.slotDemand.toNat ≤ list.nboTotSlots.toNat + 1 :=
    ⟨fun ⟨s, hs, hsT⟩ => by omega, fun h => ⟨_, le_rfl, h⟩⟩
  have hlsi := @toNat_smAssignLsiToNodeLoop_nil n list.nboTotSlots node.slotDemand hn
  have hne : ∀ x : UInt16, x ≠ 0 ↔ x.toNat ≠ 0 := fun x => by
    rw [← UInt16.toNat_zero, Ne, Ne, UInt16.toNat_inj]
  have hlast : n.lastLSI = n.slot.stop - 1 := rfl
  have hstart : n.slot.start = n.startLSI.toNat := rfl
  have hstop : n.slot.stop = n.startLSI.toNat + n.slotDemand.toNat := rfl
  have hlen : n.slot.len = n.slotDemand.toNat := rfl
  have hlt := n.startLSI.toNat_lt
  have hslot := n.slotDemand.toNat_lt
  refine ⟨?_, fun s hs hrun => ?_⟩
  · rw [firstFitExact_iff_lsi, smAssignLsiToNode_concat hnodes hlist.packed, hfull, Option.map_none,
      Option.getD_none, hne, hlsi]
    simp only [hfree, hsome, isLeast_from_iff]
    clear hfree hsome
    split_ifs <;> omega
  · have := (hfree s).mp hrun
    omega

/-- An empty frame of eight slots takes in a node that demands sixteen. -/
theorem not_firstFitExact_empty :
    SlotExclusive 8 (smInitSchedule 8).nodes ∧
      ¬ FirstFitExact (smInitSchedule 8) ⟨1, 4, 0, 16, 1⟩ := by
  have hlist : SlotExclusive 8 (smInitSchedule 8).nodes :=
    ⟨List.Pairwise.nil, by simp [smInitSchedule], List.Pairwise.nil⟩
  have hiff := @firstFitExact_nil (smInitSchedule 8) ⟨1, 4, 0, 16, 1⟩ hlist (by decide) rfl
  exact ⟨hlist, fun h => absurd (hiff.mp h) (by decide)⟩

/-- **First-fit admission is exact on the requests of `Admits`**, and on no others. -/
theorem firstFitExact_iff (list : SchList) (node : SchNode)
    (hlist : SlotExclusive list.nboTotSlots.toNat list.nodes) (hd : 1 ≤ node.slotDemand.toNat) :
    FirstFitExact list node ↔ Admits list node.slotDemand.toNat := by
  rw [Admits]
  rcases List.eq_nil_or_concat' list.nodes with hnodes | ⟨init, n, hnodes⟩
  · rw [firstFitExact_nil hlist hd hnodes, hnodes]
    rfl
  · rw [show list.nodes.getLast? = some n by rw [hnodes, List.getLast?_concat]]
    cases hfit : firstFit (n.startLSI.toNat - 1) node.slotDemand.toNat 1
        (init.map SchNode.slot) with
    | some s =>
      obtain ⟨hexact, hlt, hfree⟩ := firstFitExact_of_room hlist hd hnodes hfit
      exact iff_of_true hexact (Or.inr (Or.inl ⟨s, hlt, hfree⟩))
    | none =>
      obtain ⟨hiff, hnone⟩ := firstFitExact_of_full hlist hd hnodes hfit
      rw [hiff]
      exact or_congr_right (or_iff_right fun ⟨s, hs, hfree⟩ => hnone s hs hfree).symm

/-- A hole of two slots at the head of an eight-slot frame. -/
theorem firstFitExact_iff_hole :
    FirstFitExact ⟨[⟨2, 2, 3, 4, 1⟩], 1, 8, 4, 0, 1⟩ ⟨1, 1, 0, 2, 1⟩ ↔
      Admits ⟨[⟨2, 2, 3, 4, 1⟩], 1, 8, 4, 0, 1⟩ 2 :=
  firstFitExact_iff ⟨[⟨2, 2, 3, 4, 1⟩], 1, 8, 4, 0, 1⟩ ⟨1, 1, 0, 2, 1⟩
    ⟨List.pairwise_singleton _ _, by decide, List.pairwise_singleton _ _⟩ (by decide)

end LoRaGwSv
