import LoRaGwSv.Server.Decode
import LoRaGwSv.Server.Registrations

/-!
# Server/Rnl — telling nodes that they are registered

The registration node list takes nodes off RNL, tells each of them that it is registered, and then
registers it.  It does not look whether that succeeded, so what the message tells is true exactly if
each node is taken in at its turn, or NODES knows it already (`Mac.TakesIn`).
-/

namespace LoRaGwSv

open Function Wire

/-- RNL as the input handler and `popHeadNode` leave it: fresh nodes, counted, no address twice. -/
structure MngtNodeList.Waiting (RNL : MngtNodeList) : Prop where
  distinct : RNL.Distinct
  fresh : ∀ n ∈ RNL.nodes, n.Fresh
  size_eq : RNL.size.toNat = RNL.nodes.length

/-- NODES has an entry of the address and class of `n` and, for a two-hop node, with its parent. -/
def Mac.Knows (s : Mac) (n : MngtNode) : Prop :=
  ∃ e ∈ s.NODES.nodes, e.addr = n.addr ∧ e.genInfo.cls = n.genInfo.cls ∧
    (n.genInfo.type = .twohop → e.genInfo.type = .twohop ∧ e.parrentAddr = n.parrentAddr)

/-- What registering `n` must find: it is one-hop, or its parent has room for it, or NODES knows it
already. -/
def Mac.TakesIn (s : Mac) (n : MngtNode) : Prop :=
  n.genInfo.type = .onehop ∨
  (∃ parent ∈ s.NODES.nodes, parent.addr = n.parrentAddr ∧ parent.HasRoomFor n.addr) ∨
  s.Knows n

/-- The nodes the next message lists. -/
def Mac.listed (s : Mac) : List MngtNode := s.RNL.nodes.take twohopMaxNboNodesInRnl.toNat

variable {RNL : MngtNodeList} {m : Registry} {n n' : MngtNode} {s : Mac}

/-! ## RNL

Requests push fresh nodes, and messages pop them. -/

theorem waiting_initNodeList (sort : Bool) : (initNodeList sort).Waiting :=
  ⟨List.nodup_nil, fun _ hn => absurd hn List.not_mem_nil, rfl⟩

/-- Copying a fresh node over a fresh node leaves the new one. -/
theorem MngtNode.Fresh.updateGenInfo (hn : n.Fresh) (hn' : n'.Fresh) : n.updateGenInfo n' = n := by
  have hp := hn.profile_eq
  have hp' := hn'.profile_eq
  obtain ⟨genInfo, _, _, _, _, _, _, _, _, _, _, _⟩ := n
  obtain ⟨genInfo', _, _, _, _, _, _, _, _, _, _, _⟩ := n'
  simp only [profile, mk.injEq] at hp hp'
  obtain ⟨-, -, -, -, -, -, rfl, rfl, rfl, rfl, rfl, rfl⟩ := hp
  obtain ⟨-, -, -, -, -, -, rfl, rfl, rfl, rfl, rfl, rfl⟩ := hp'
  rfl

/-- There are no more who wait than addresses. -/
theorem MngtNodeList.Waiting.length_le (h : RNL.Waiting) : RNL.nodes.length ≤ 8192 := by
  have hnat : ((RNL.nodes.map MngtNode.addr).map UInt16.toNat).Nodup :=
    h.distinct.map fun _ _ => UInt16.toNat_inj.mp
  have hsub : (RNL.nodes.map MngtNode.addr).map UInt16.toNat ⊆ List.range 8192 := fun x hx => by
    obtain ⟨y, hy, rfl⟩ := List.mem_map.mp hx
    obtain ⟨n, hn, rfl⟩ := List.mem_map.mp hy
    exact List.mem_range.mpr (h.fresh n hn).addr_lt
  simpa using (hnat.subperm hsub).length_le

/-- Registration requests only ever leave RNL as the messages expect it. -/
theorem MngtNodeList.Waiting.pushNode (h : RNL.Waiting) (hn : n.Fresh) :
    (pushNode RNL n).2.Waiting := by
  refine ⟨distinct_pushNode h.distinct n, ?_, ?_⟩ <;>
    rw [LoRaGwSv.pushNode, isNodeExisted] <;> split
  case refine_1.isTrue hex =>
    obtain ⟨t, ht⟩ := Option.isSome_iff_exists.mp hex
    rw [dmNodeUpdateGenInfo_snd ht]
    intro x hx
    rcases Keyed.mem_update hx with hx | ⟨y, hy, rfl⟩
    · exact h.fresh x hx
    · rw [hn.updateGenInfo (h.fresh y hy)]
      exact hn
  case refine_1.isFalse =>
    intro x hx
    have hmem : x ∈ n :: RNL.nodes := by
      simp only at hx
      split at hx
      · exact (List.perm_orderedInsert _ _ _).subset hx
      · exact (List.perm_append_singleton _ _).subset hx
    rcases List.mem_cons.mp hmem with rfl | hx
    · exact hn
    · exact h.fresh x hx
  case refine_2.isTrue hex =>
    obtain ⟨t, ht⟩ := Option.isSome_iff_exists.mp hex
    rw [dmNodeUpdateGenInfo_snd ht]
    exact h.size_eq.trans (Keyed.length_update _ _).symm
  case refine_2.isFalse =>
    have hlen := h.length_le
    have hperm : (if RNL.sort then RNL.nodes.orderedInsert MngtNode.DemandsMore n
        else RNL.nodes ++ [n]).length = RNL.nodes.length + 1 := by
      split
      · exact List.orderedInsert_length _ _ _
      · exact List.length_append
    simp only [hperm, UInt32.toNat_add, h.size_eq, UInt32.toNat_one]
    omega

/-- Without its head the list is in order. -/
theorem MngtNodeList.Waiting.popHeadNode (h : RNL.Waiting) : (popHeadNode RNL).2.Waiting := by
  rw [LoRaGwSv.popHeadNode]
  split
  case h_1 => exact h
  case h_2 n rest hnodes =>
    have hsize := h.size_eq
    have hd := h.distinct
    rw [hnodes] at hsize
    rw [MngtNodeList.Distinct, hnodes] at hd
    refine ⟨(List.nodup_cons.mp hd).2, fun x hx => h.fresh x ?_, ?_⟩
    · rw [hnodes]
      exact List.mem_cons_of_mem n hx
    · have hlt := RNL.size.toNat_lt
      rw [List.length_cons] at hsize
      simp only [MngtNodeList.unlink, UInt32.toNat_sub, UInt32.toNat_one]
      omega

theorem MngtNodeList.Waiting.nboAddedNodes_eq (h : s.RNL.Waiting) :
    nboAddedNodes s.RNL = s.listed.length := by
  rw [nboAddedNodes, Mac.listed, List.length_take, ← h.size_eq]
  split
  case isTrue hlt =>
    rw [UInt32.lt_iff_toNat_lt] at hlt
    omega
  case isFalse hle =>
    rw [UInt32.lt_iff_toNat_lt] at hle
    omega

/-! ## Registering what the message lists

Registering one node changes nothing that is known of another, so what is known in the end is what
each registration finds. -/

/-- What `Mac.Knows` says, in the registry. -/
def Registry.Knows (m : Registry) (n : MngtNode) : Prop :=
  ∃ e, m n.addr = some e ∧ e.genInfo.cls = n.genInfo.cls ∧
    (n.genInfo.type = .twohop → e.genInfo.type = .twohop ∧ e.parrentAddr = n.parrentAddr)

/-- Whether NODES knows a node is told by the registry. -/
theorem knows_registry (hd : s.NODES.Distinct) : s.NODES.registry.Knows n ↔ s.Knows n :=
  hd.exists_registry_iff (P := fun e => e.genInfo.cls = n.genInfo.cls ∧
    (n.genInfo.type = .twohop → e.genInfo.type = .twohop ∧ e.parrentAddr = n.parrentAddr))
    fun _ => Iff.rfl

theorem takesIn_registry (hd : s.NODES.Distinct) :
    (n.genInfo.type = .onehop ∨ (s.NODES.registry.adopt n).isSome ∨ s.NODES.registry.Knows n) ↔
      s.TakesIn n :=
  or_congr_right (or_congr (Registry.isSome_adopt.trans (hd.exists_registry_iff fun _ => Iff.rfl))
    (knows_registry hd))

/-- Registering another node changes nothing that is known of a node. -/
theorem Registry.knows_register_of_ne (hne : n.addr ≠ n'.addr) :
    (m.register n').Knows n ↔ m.Knows n :=
  exists_register_of_ne (fun _ _ hcls htype hpar => by rw [hcls, htype, hpar]) hne

/-- **A node is known once registered exactly if it was taken in or known before.** -/
theorem Registry.knows_register_self :
    (m.register n).Knows n ↔
      n.genInfo.type = .onehop ∨ (m.adopt n).isSome ∨ m.Knows n := by
  obtain ⟨htype, heq⟩ | ⟨parent, parent', htype, hparent, hadd, heq⟩ | ⟨htype, hnone, heq⟩ :=
    register_cases m n
  · exact iff_of_true ⟨n, by rw [heq, update_self], rfl, fun h => ⟨h, rfl⟩⟩ (Or.inl htype)
  · refine iff_of_true ⟨n, by rw [heq, update_self], rfl, fun h => ⟨h, rfl⟩⟩
      (Or.inr (Or.inl ?_))
    rw [adopt, hparent, Option.bind_some, hadd]
    rfl
  · rw [heq, hnone, htype]
    simp

/-- **What a run of registrations leaves known** is what each of them finds. -/
theorem knows_registerNode_iff {ns : List MngtNode} (hs : s.NODES.Sound)
    (hfresh : ∀ n ∈ ns, n.Fresh) (hd : (ns.map MngtNode.addr).Nodup) :
    (∀ n ∈ ns, (ns.foldl Registry.register s.NODES.registry).Knows n) ↔
      Runs.EachStep Mac.registerNode Mac.TakesIn s ns := by
  induction ns generalizing s with
  | nil => exact iff_of_true (fun _ hn => absurd hn List.not_mem_nil) Runs.eachStep_nil
  | cons n ns ih =>
    obtain ⟨hn, hd⟩ := List.nodup_cons.mp (List.map_cons ▸ hd)
    obtain ⟨s', hs', hsound, hreg, -⟩ :=
      Mac.registerNode_spec hs (hfresh n List.mem_cons_self)
    have hlater : ∀ (ns' : List MngtNode) (m : Registry), (∀ x ∈ ns', n.addr ≠ x.addr) →
        ((ns'.foldl Registry.register m).Knows n ↔ m.Knows n) := fun ns' => by
      induction ns' with
      | nil => exact fun _ _ => Iff.rfl
      | cons x ns' ih' =>
        intro m hne
        rw [List.foldl_cons, ih' _ fun y hy => hne y (List.mem_cons_of_mem x hy)]
        exact Registry.knows_register_of_ne (hne x List.mem_cons_self)
    rw [Runs.eachStep_cons hs', ← ih hsound (fun x hx => hfresh x (List.mem_cons_of_mem n hx)) hd,
      List.forall_mem_cons, List.foldl_cons, hreg, hlater ns _ fun x hx heq =>
        hn (heq ▸ List.mem_map_of_mem hx), Registry.knows_register_self,
      takesIn_registry hs.distinct]

/-! ## The message

Each node listed takes two bytes, and the message counts them. -/

/-- The two bytes a node is listed with. -/
def MngtNode.listing (n : MngtNode) : List UInt8 := addrFormat n.addr n.genInfo.cls.toUInt16

/-- A node that is listed is read back with its address and class. -/
theorem MngtNode.Fresh.parseAddr_listing (h : n.Fresh) (rest : List UInt8) :
    parseAddr (n.listing ++ rest) = some ((n.addr.toNat, n.genInfo.cls.toNat), rest) := by
  have hcls := h.cls_lt
  have hcls' : n.genInfo.cls.toUInt16.toNat < 8 := by rwa [UInt8.toNat_toUInt16]
  rw [MngtNode.listing, parseAddr_addrFormat h.addr_lt hcls', UInt8.toNat_toUInt16]

/-- **The loop registers the nodes it takes, one after the other, and lists each of them.** -/
theorem rnlLoop_spec {ns rest : List MngtNode} {w : Payload} {bs : List UInt8}
    (hs : s.NODES.Sound) (hRNL : s.RNL.nodes = ns ++ rest) (hfresh : ∀ n ∈ ns, n.Fresh)
    (hw : w.Holds bs) (hlen : bs.length + 2 * ns.length < 256) :
    ∃ s' w', rnlLoop ns.length s w = some (s', w') ∧ s'.NODES.Sound ∧
      s'.NODES.registry = ns.foldl Registry.register s.NODES.registry ∧
      w'.Holds (bs ++ ns.flatMap MngtNode.listing) := by
  induction ns generalizing s w bs with
  | nil => exact ⟨s, w, rfl, hs, rfl, by rwa [List.flatMap_nil, List.append_nil]⟩
  | cons n ns ih =>
    have hpop : popHeadNode s.RNL = (some n, s.RNL.unlink n (ns ++ rest)) := by
      rw [popHeadNode, hRNL]
      rfl
    have hn := hfresh n List.mem_cons_self
    obtain ⟨s', hs', hd, hreg, hrnl, -⟩ := addNodeToNodeList_registry
      (s := { s with RNL := s.RNL.unlink n (ns ++ rest) }) hs.distinct hs.registry.closed
      hn.profile_eq
    have hsound : s'.NODES.Sound := ⟨hd, hreg ▸ hs.registry.register hn⟩
    rw [List.length_cons] at hlen
    have hput : (w.put n.listing).Holds (bs ++ n.listing) :=
      hw.put le_rfl _ (by rw [MngtNode.listing, length_addrFormat]; omega)
    obtain ⟨t, w', ht, htsound, htreg, htw⟩ := ih hsound (by rw [hrnl]; rfl)
      (fun x hx => hfresh x (List.mem_cons_of_mem n hx)) hput
      (by rw [List.length_append, MngtNode.listing, length_addrFormat]; omega)
    refine ⟨t, w', ?_, htsound, ?_, ?_⟩
    · rw [List.length_cons, rnlLoop, hpop]
      simp only [hs', Option.bind_some]
      exact ht
    · rw [htreg, hreg, List.foldl_cons]
    · rwa [List.flatMap_cons, ← List.append_assoc]

/-- The bytes of a message that lists the nodes `ns`. -/
def rnlBytes (p : MacParams) (seq : UInt16) (netReadyFlag : Bool) (ns : List MngtNode) :
    List UInt8 :=
  header p .dlRnl ++ le16 seq ++
    [UInt8.ofNat (pack [(netReadyFlag.toNat, 1), (ns.length, 7)])] ++ ns.flatMap MngtNode.listing

/-- **The message reads back** as the nodes it lists. -/
theorem parseRnl_rnlBytes (p : MacParams) (seq : UInt16) (netReadyFlag : Bool)
    {ns : List MngtNode} (hfresh : ∀ n ∈ ns, n.Fresh) (hlen : ns.length < 128) :
    parseAll parseRnl (rnlBytes p seq netReadyFlag ns) = some {
      seqNumber := seq
      netReadyFlag := netReadyFlag.toNat
      nodes := ns.map fun n => (n.addr.toNat, n.genInfo.cls.toNat) } := by
  have hctrl : (UInt8.ofNat (pack [(netReadyFlag.toNat, 1), (ns.length, 7)])).toNat
      = pack [(netReadyFlag.toNat, 1), (ns.length, 7)] := toNat_ofNat_pack rfl
  have hflag : field (pack [(netReadyFlag.toNat, 1), (ns.length, 7)]) 0 1 = netReadyFlag.toNat :=
    field_pack_head _ 1 _ (Bool.toNat_lt _)
  have hcount : field (pack [(netReadyFlag.toNat, 1), (ns.length, 7)]) 1 7 = ns.length :=
    (field_pack_tail _ 1 0 7 _).trans (field_pack_head _ 7 _ hlen)
  have hnodes := many_flatMap (fun n hn => (hfresh n hn).parseAddr_listing) []
  rw [List.append_nil] at hnodes
  rw [parseAll, parseRnl, rnlBytes, List.append_assoc, List.append_assoc, parseHeader_header]
  simp only [Option.bind_eq_bind, Option.bind_some, readLe16_le16, List.singleton_append,
    byte_cons, hctrl, hflag, hcount, hnodes]
  rfl

/-- **A node told it is registered is registered, exactly if each node the message lists is taken in
or known at its turn.**  The message lists the first nodes of RNL, as many as it has room for. -/
theorem told_iff (p : MacParams) (s : Mac) (msg : MsgInfo) (seq : UInt16) (addInfo : UInt8)
    (hRNL : s.RNL.Waiting) (hNODES : s.NODES.Sound) :
    ∃ msg' s', prepareDownlinkMsgPayload p s msg .dlRnl seq addInfo = some (msg', addInfo, s') ∧
      parseAll parseRnl msg'.bytes = some {
        seqNumber := seq
        netReadyFlag := (decide (addInfo ≠ 0)).toNat
        nodes := s.listed.map fun n => (n.addr.toNat, n.genInfo.cls.toNat) } ∧
      ((∀ n ∈ s.listed, s'.Knows n) ↔
        Runs.EachStep Mac.registerNode Mac.TakesIn s s.listed) := by
  have hfresh : ∀ n ∈ s.listed, n.Fresh := fun n hn => hRNL.fresh n (List.mem_of_mem_take hn)
  have hd : (s.listed.map MngtNode.addr).Nodup :=
    hRNL.distinct.sublist ((List.take_sublist _ _).map _)
  have hlen : s.listed.length ≤ 20 := List.length_take_le _ _
  have hsplit : s.RNL.nodes = s.listed ++ s.RNL.nodes.drop twohopMaxNboNodesInRnl.toNat :=
    (List.take_append_drop _ _).symm
  have hcount := hRNL.nboAddedNodes_eq
  have hw := ((holds_header msg p .dlRnl).put le_rfl (le16 seq) (by simp)).put le_rfl
    [UInt8.ofNat (pack [((decide (addInfo ≠ 0)).toNat, 1), (s.listed.length, 7)])] (by simp)
  obtain ⟨s', w', hloop, hsound, hreg, hw'⟩ := rnlLoop_spec hNODES hsplit hfresh hw (by simp; omega)
  refine ⟨finishMsg w', s', ?_, ?_, ?_⟩
  · rw [prepareDownlinkMsgPayload]
    simp only [prepareRnl, hcount, hloop, Option.map_some]
  · rw [bytes_finishMsg hw']
    exact parseRnl_rnlBytes p seq _ hfresh (by omega)
  · rw [← knows_registerNode_iff hNODES hfresh hd, ← hreg]
    exact forall₂_congr fun n _ => (knows_registry hsound.distinct).symm

/-- A relay and its child wait in RNL. -/
theorem told_iff_relay_child :
    let RNL := (pushNode (pushNode (initNodeList false) (Registration.itself (.ofBits 1 0)).node).2
      (Registration.listed (.ofBits 2 0) 1).node).2
    let s : Mac := { twohopLoRaMacInit macDefaults with RNL := RNL }
    ∃ msg' s', prepareDownlinkMsgPayload macDefaults s emptyMsg .dlRnl 1 0 = some (msg', 0, s') ∧
      parseAll parseRnl msg'.bytes = some {
        seqNumber := 1
        netReadyFlag := (decide ((0 : UInt8) ≠ 0)).toNat
        nodes := s.listed.map fun n => (n.addr.toNat, n.genInfo.cls.toNat) } ∧
      ((∀ n ∈ s.listed, s'.Knows n) ↔
        Runs.EachStep Mac.registerNode Mac.TakesIn s s.listed) :=
  told_iff macDefaults _ emptyMsg 1 0
    (((waiting_initNodeList false).pushNode (Registration.fresh_node _)).pushNode
      (Registration.fresh_node _))
    (sound_initNodeList true)

/-- A node listed by a relay that is not registered is told it is registered, and is not. -/
theorem told_unknown_relay :
    ∃ r, prepareDownlinkMsgPayload macDefaults
        { twohopLoRaMacInit macDefaults with
          RNL := (pushNode (initNodeList false) (Registration.listed (.ofBits 3 0) 1).node).2 }
        emptyMsg .dlRnl 1 0 = some r ∧
      parseAll parseRnl r.1.bytes = some ⟨1, 0, [(3, 0)]⟩ ∧
      ¬ ∃ e ∈ r.2.2.NODES.nodes, e.addr.toNat = 3 ∧ e.genInfo.cls.toNat = 0 := by
  refine (Option.any_eq_true (fun r : MsgInfo × UInt8 × Mac => decide
    (parseAll parseRnl r.1.bytes = some ⟨1, 0, [(3, 0)]⟩ ∧
      ¬ ∃ e ∈ r.2.2.NODES.nodes, e.addr.toNat = 3 ∧ e.genInfo.cls.toNat = 0)) _).mp
    (by decide +kernel) |>.imp fun r hr => ⟨hr.1, of_decide_eq_true hr.2⟩

end LoRaGwSv
