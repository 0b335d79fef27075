import LoRaGwSv.Server.Calls

/-!
# Server/Repeated — the same registration twice

Two gateways may hear one request.  The second registration finds the node as the first has left it:
a one-hop node has no child any more, and in its parent's table a two-hop node has its own cell,
whose demand is taken back and added again (`dmAddChildToNode_again`).  So it answers the same, and
leaves the groups and the entries of NODES as they are (`addNodeToNodeList_again`).
-/

namespace LoRaGwSv

open Function

variable {p : MacParams} {lst : MngtNodeList} {m : Registry} {n e parent parent' : MngtNode}
  {list : SchList} {addr : UInt16}

/-! ## One entry

Pushing a node that is there already, as it is, leaves its entry. -/

/-- A node that tells nothing new changes no entry. -/
theorem push_self (h : m n.addr = some e) (hsame : n.updateGenInfo e = e) : m.push n = m := by
  rw [Registry.push, h, Option.map_some, hsame, Option.getD_some]
  exact update_eq_self_iff.mpr h.symm

theorem exists_push (m : Registry) (n : MngtNode) :
    ∃ e, m.push n n.addr = some e ∧ n.updateGenInfo e = e := by
  refine ⟨_, update_self .., ?_⟩
  cases m n.addr <;> rfl

theorem push_of_ne (m : Registry) {a : UInt16} (h : a ≠ n.addr) : m.push n a = m a :=
  update_of_ne h _ _

/-- A child that has its cell already is taken in without a change. -/
theorem dmAddChildToNode_of_cell {i : Fin twohopMaxNboChildren}
    (hcell : parent.children.get i = n.asChild)
    (hfirst : ∀ j, j < i → (parent.children.get j).addr ≠ n.addr) :
    dmAddChildToNode parent n = some parent := by
  have hcell : parent.children[i] = n.asChild := hcell
  have hidx : Table.firstIdx (fun c => c.addr = n.addr) parent.children = some i :=
    Table.firstIdx_eq_some.mpr ⟨by rw [hcell]; exact decide_eq_true rfl,
      fun j hj => decide_eq_false (hfirst j hj)⟩
  have hdemand : parent.genInfo.slotDmn - n.genInfo.slotDmn * 2 + n.genInfo.slotDmn * 2
      = parent.genInfo.slotDmn := UInt8.sub_add_cancel _ _
  have hchildren := Table.set_getElem_self parent.children i
  rw [hcell] at hchildren
  rw [dmAddChildToNode, hidx]
  simp only [hcell, MngtNode.putChild, MngtNode.asChild, hdemand]
  exact congrArg some (congrArg (fun children => { parent with children := children }) hchildren)

/-- **A child taken in again** finds its cell, and its demand there. -/
theorem dmAddChildToNode_again (h : dmAddChildToNode parent n = some parent') :
    dmAddChildToNode { parent' with schFlag := false } n
      = some { parent' with schFlag := false } := by
  have hset : ∀ i : Fin twohopMaxNboChildren, parent'.children = parent.children.set i n.asChild →
      (∀ j : Fin twohopMaxNboChildren, j < i → parent.children[j].addr ≠ n.addr) →
      dmAddChildToNode { parent' with schFlag := false } n
        = some { parent' with schFlag := false } := fun i hi hfirst => by
    refine @dmAddChildToNode_of_cell _ _ i ?_ fun j hj => ?_
    · simp only [hi]
      exact (Table.getElem_set _ i i _).trans (if_pos rfl)
    · simp only [hi]
      have hkept := (Table.getElem_set parent.children i j n.asChild).trans (if_neg hj.ne)
      exact fun haddr => hfirst j hj ((congrArg Child.addr hkept).symm.trans haddr)
  rw [dmAddChildToNode] at h
  split at h
  case h_1 i hi =>
    refine hset i (Option.some.inj h ▸ rfl) fun j hj => ?_
    simpa using (Table.firstIdx_eq_some.mp hi).2 j hj
  case h_2 hnone =>
    split at h
    case h_2 => exact absurd h (by simp)
    case h_1 i hi =>
      refine hset i (Option.some.inj h ▸ rfl) fun j _ => ?_
      simpa using Table.firstIdx_none.mp hnone j

/-! ## A one-hop node again

The first registration has taken its children away, so the second has none to disconnect. -/

/-- A node without children has none to disconnect. -/
theorem dmSetChildConnStatus_noChildren (hchildren : e.children = noChildren)
    (hnboChildren : e.nboChildren = 0) (status : Bool) :
    dmSetChildConnStatus lst e status = some lst := by
  rw [dmSetChildConnStatus, hchildren, hnboChildren]
  rfl

/-- **A one-hop node that is there already, as it registers, is registered without a change.** -/
theorem addOnehopNode_again (hn : n.Fresh) (he : getNodeReferenceByAddress lst n.addr = some e)
    (hsame : n.updateGenInfo e = e) : addOnehopNode lst n = some lst := by
  have hchildren : e.children = noChildren := hsame ▸ hn.children_eq
  have hnboChildren : e.nboChildren = 0 := hsame ▸ hn.nboChildren_eq
  have hforgotten : getNodeReferenceByAddress (lst.writeRef n.addr dmRemoveChildOfNode) n.addr
      = some (dmRemoveChildOfNode e) := by
    refine (Keyed.lookup_update (f := dmRemoveChildOfNode)
      (fun (e : MngtNode) (he : e.addr = n.addr) => he) lst.nodes).trans ?_
    rw [if_pos rfl]
    exact congrArg (Option.map dmRemoveChildOfNode) he
  have hnodes : ((lst.writeRef n.addr dmRemoveChildOfNode).writeRef n.addr n.updateGenInfo).nodes
      = lst.nodes := by
    have hover := Keyed.update_const_map_update (g := id)
      (fun e => (rfl : MngtNode.addr e = e.addr))
      (f := dmRemoveChildOfNode) (k := n.addr) (fun _ he => he) e lst.nodes
    rw [List.map_id, List.map_id, Keyed.update_const_eq_self he] at hover
    refine (Keyed.update_eq_of_lookup hforgotten).trans ?_
    rw [show n.updateGenInfo (dmRemoveChildOfNode e) = e from hsame]
    exact hover
  rw [addOnehopNode, he]
  simp only [dmSetChildConnStatus_noChildren hchildren hnboChildren, Option.map_some]
  rw [pushNode, isNodeExisted, hforgotten, Option.isSome_some, if_pos rfl,
    dmNodeUpdateGenInfo_snd hforgotten]
  exact congrArg (fun nodes => some { lst with nodes := nodes }) hnodes

/-! ## A two-hop node again

The child is in the cell that it would be written to, with the demand that it has. -/

/-- **What a two-hop registration leaves is what it finds**, in the answer and in every entry. -/
theorem addTwohopNode_again (hd : lst.Distinct) (hne : n.parrentAddr ≠ n.addr) :
    (addTwohopNode (addTwohopNode lst n).2 n).1 = (addTwohopNode lst n).1 ∧
      (addTwohopNode (addTwohopNode lst n).2 n).2.nodes.Perm (addTwohopNode lst n).2.nodes := by
  obtain ⟨hdone, hd₁, href⟩ := reference_addTwohopNode hd n
  obtain ⟨hdone', hd₂, href'⟩ := reference_addTwohopNode hd₁ n
  suffices h : (Registry.adopt (getNodeReferenceByAddress (addTwohopNode lst n).2) n).isSome
        = (Registry.adopt (getNodeReferenceByAddress lst) n).isSome ∧
      getNodeReferenceByAddress (addTwohopNode (addTwohopNode lst n).2 n).2
        = getNodeReferenceByAddress (addTwohopNode lst n).2 from
    ⟨hdone'.trans (h.1.trans hdone.symm), Keyed.perm_of_lookup hd₂ hd₁ (congrFun h.2)⟩
  cases hadopt : Registry.adopt (getNodeReferenceByAddress lst) n with
  | none =>
    simp only [hadopt] at href
    simp only [href, hadopt] at href' ⊢
    exact ⟨trivial, href'⟩
  | some parent' =>
    simp only [hadopt] at href
    obtain ⟨parent, -, hadd⟩ := Option.bind_eq_some_iff.mp hadopt
    have hat : getNodeReferenceByAddress (addTwohopNode lst n).2 n.parrentAddr
        = some { parent' with schFlag := false } := by
      rw [href, push_of_ne _ hne, update_self]
    have hagain : Registry.adopt (getNodeReferenceByAddress (addTwohopNode lst n).2) n
        = some { parent' with schFlag := false } := by
      rw [Registry.adopt, hat]
      exact dmAddChildToNode_again hadd
    obtain ⟨e, he, hsame⟩ := exists_push
      (update (getNodeReferenceByAddress lst) n.parrentAddr
        (some { parent' with schFlag := false })) n
    have hput : update (getNodeReferenceByAddress (addTwohopNode lst n).2) n.parrentAddr
          (some { parent' with schFlag := false })
        = getNodeReferenceByAddress (addTwohopNode lst n).2 := by rw [← hat, update_eq_self]
    simp only [hagain, hput] at href'
    exact ⟨by rw [hagain]; rfl, href'.trans (push_self (href ▸ he) hsame)⟩

/-! ## A registration again -/

/-- What has been taken out is not taken out again. -/
theorem smRemoveOneNode_again (h : (list.nodes.map SchNode.addr).Nodup) :
    smRemoveOneNode (smRemoveOneNode list addr) addr = smRemoveOneNode list addr := by
  have hgone : Keyed.lookup SchNode.addr addr (smRemoveOneNode list addr).nodes = none := by
    rw [nodes_smRemoveOneNode, Keyed.lookup_erase h, if_pos rfl]
  rw [smRemoveOneNode.eq_def (smRemoveOneNode list addr), hgone]

/-- A two-hop node always loses its slots. -/
theorem addNodeToNodeList_twohop (s : Mac) (h : n.genInfo.type = .twohop) :
    addNodeToNodeList s .NODES n = some ((addTwohopNode s.NODES n).1,
      { removeNodeFromSchedule s n.addr with NODES := (addTwohopNode s.NODES n).2 }) := by
  rw [addNodeToNodeList.eq_def]
  simp only [h]
  rfl

/-- **A registration that is repeated changes nothing more**: it answers the same, and the groups
and the entries of NODES are as they were, but for their order. -/
theorem addNodeToNodeList_again {s : InputState} (h : Reachable p s) (r : Registration) :
    ∃ done s₁ s₂, addNodeToNodeList s.mac .NODES r.node = some (done, s₁) ∧
      addNodeToNodeList s₁ .NODES r.node = some (done, s₂) ∧ s₂.SCHEDULES = s₁.SCHEDULES ∧
      s₂.NODES.nodes.Perm s₁.NODES.nodes := by
  have hcons := h.inv.inOrder.consistent
  have hn := r.fresh_node
  cases htype : r.node.genInfo.type with
  | onehop =>
    obtain ⟨lst₁, hlst₁, hd₁, -⟩ := addOnehopNode_eq_pushNode hcons.sound.distinct
      hcons.sound.registry.closed r.node
    obtain ⟨e, he, hsame⟩ := exists_push (getNodeReferenceByAddress lst₁) r.node
    rw [← reference_pushNode hd₁] at he
    refine ⟨true, { s.mac with NODES := (pushNode lst₁ r.node).2 }, _, ?_, ?_, rfl, List.Perm.rfl⟩
    · simp only [addNodeToNodeList.eq_def, htype, hlst₁, Option.map_some]
    · simp only [addNodeToNodeList.eq_def, htype, addOnehopNode_again hn he hsame, Option.map_some]
  | twohop =>
    obtain ⟨hdone, hperm⟩ := addTwohopNode_again hcons.sound.distinct (hn.parrentAddr_ne htype)
    refine ⟨_, _, _, addNodeToNodeList_twohop s.mac htype,
      (addNodeToNodeList_twohop _ htype).trans
        (congrArg (fun done => some (done, _)) hdone), ?_, hperm⟩
    refine List.map_map.trans (List.map_congr_left fun list hlist => ?_)
    exact smRemoveOneNode_again (Keyed.nodup_piece hcons.once hlist)

/-- A relay hears of its child twice. -/
theorem addNodeToNodeList_again_child :
    ∃ s, Runs.run (Call.step fourSlots) (serverStart fourSlots)
        [.frame (.mac (.register (.itself (.ofBits 1 0)))),
          .frame (.mac (.register (.itself (.ofBits 2 1)))),
          .frame (.mac (.schedule .scheduleDist))] = some s ∧
      ∃ done s₁ s₂, addNodeToNodeList s.mac .NODES
          (Registration.listed (.ofBits 2 1) 1).node = some (done, s₁) ∧
        addNodeToNodeList s₁ .NODES (Registration.listed (.ofBits 2 1) 1).node = some (done, s₂) ∧
        s₂.SCHEDULES = s₁.SCHEDULES ∧ s₂.NODES.nodes.Perm s₁.NODES.nodes := by
  obtain ⟨s, hs⟩ := Option.isSome_iff_exists.mp (show (Runs.run (Call.step fourSlots)
    (serverStart fourSlots) [.frame (.mac (.register (.itself (.ofBits 1 0)))),
      .frame (.mac (.register (.itself (.ofBits 2 1)))),
      .frame (.mac (.schedule .scheduleDist))]).isSome = true by decide +kernel)
  exact ⟨s, hs, addNodeToNodeList_again ⟨_, hs⟩ (.listed (.ofBits 2 1) 1)⟩

end LoRaGwSv
