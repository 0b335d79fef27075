import LoRaGwSv.Machinery.Descending
import LoRaGwSv.Server.Registrations

/-!
# Server/Sorted — NODES in the order of slot demand

NODES is a list that sorts: a new node is put before the first one that demands less.  A node that
registers again is rewritten where it stands, though, with the demand it has now; its parent is
taken out and put back.  `Registration.FitsOrder` says when a registration keeps the order.
-/

namespace LoRaGwSv

open Weighted

/-- How many slots a node demands. -/
def MngtNode.demand (n : MngtNode) : ℕ := n.genInfo.slotDmn.toNat

/-- **From head to tail, no node demands more than one before it.** -/
def MngtNodeList.Sorted (lst : MngtNodeList) : Prop :=
  lst.nodes.Pairwise fun n n' => n'.genInfo.slotDmn ≤ n.genInfo.slotDmn

/-- What the cell of a child table that has an address says it demands. -/
def MngtNode.recordedDemand (parent : MngtNode) (addr : UInt16) : UInt8 :=
  match Table.firstIdx (fun c => c.addr = addr) parent.children with
  | some i => (parent.children.get i).slotDemand
  | none => 0

/-- What a parent demands with the child in its table. -/
def MngtNode.demandWith (parent child : MngtNode) : UInt8 :=
  parent.genInfo.slotDmn - parent.recordedDemand child.addr * 2 + child.genInfo.slotDmn * 2

/-- Where a node that is registered already stands, its demand has a place.  For a child that is
taken in, its parent does not count where it stood, but where its new demand puts it. -/
def Registration.FitsOrder (s : Mac) (r : Registration) : Prop :=
  match r.node.genInfo.type with
  | .onehop => HasPlace MngtNode.addr MngtNode.demand (fun _ => True) s.NODES.nodes r.node.addr
      r.node.demand
  | .twohop => ∀ parent ∈ s.NODES.nodes, parent.addr = r.node.parrentAddr →
      parent.HasRoomFor r.node.addr →
      HasPlace MngtNode.addr MngtNode.demand (fun n => n.addr ≠ parent.addr) s.NODES.nodes
        r.node.addr r.node.demand ∧
      ∀ n ∈ s.NODES.nodes, n.addr = r.node.addr →
        if n.demand < (parent.demandWith r.node).toNat
        then r.node.demand ≤ (parent.demandWith r.node).toNat
        else (parent.demandWith r.node).toNat ≤ r.node.demand

/-! ## What a list demands, in order -/

/-- A node's address and demand. -/
def MngtNode.place (n : MngtNode) : UInt16 × ℕ := (n.addr, n.demand)

/-- The addresses and demands of a list, from head to tail. -/
def MngtNodeList.places (lst : MngtNodeList) : List (UInt16 × ℕ) := lst.nodes.map MngtNode.place

/-- The order in which a list that sorts takes a place in. -/
abbrev Outweighs (x y : UInt16 × ℕ) : Prop := y.2 < x.2

variable {lst : MngtNodeList} {n parent parent' : MngtNode} {a : UInt16}

/-- A list is sorted if its places descend. -/
theorem sorted_iff : lst.Sorted ↔ Descending Prod.snd lst.places := by
  rw [Descending, MngtNodeList.places, List.pairwise_map]
  exact Iff.of_eq (congrArg (List.Pairwise · lst.nodes)
    (funext fun _ => funext fun _ => propext UInt8.le_iff_toNat_le))

/-- A place is found where the node is found. -/
theorem lookup_places (lst : MngtNodeList) (a : UInt16) :
    Keyed.lookup Prod.fst a lst.places = (getNodeReferenceByAddress lst a).map MngtNode.place :=
  Keyed.lookup_map (fun _ => rfl) _

theorem nodup_places (h : lst.Distinct) : (lst.places.map Prod.fst).Nodup := by
  rw [MngtNodeList.places, List.map_map]
  exact h

/-- A demand has a place among the nodes if it has one among their places. -/
theorem hasPlace_places {P : UInt16 → Prop} {d : ℕ} :
    HasPlace Prod.fst Prod.snd (fun x => P x.1) lst.places a d ↔
      HasPlace MngtNode.addr MngtNode.demand (fun n => P n.addr) lst.nodes a d := hasPlace_map

theorem places_writeRef {f : MngtNode → MngtNode} {x : UInt16 × ℕ} (hf : ∀ n, (f n).place = x) :
    (lst.writeRef a f).places = Keyed.update Prod.fst a (fun _ => x) lst.places :=
  Eq.symm (Keyed.update_map (g := MngtNode.place) (fun _ => rfl) hf lst.nodes)

/-- **A list that sorts takes a new node in where it belongs**, and leaves an old one
where it is. -/
theorem places_pushNode (hsort : lst.sort = true) (n : MngtNode) :
    (pushNode lst n).2.places = if (getNodeReferenceByAddress lst n.addr).isSome
      then Keyed.update Prod.fst n.addr (fun _ => n.place) lst.places
      else lst.places.orderedInsert Outweighs n.place := by
  rw [pushNode, isNodeExisted]
  split
  case isTrue h =>
    obtain ⟨t, ht⟩ := Option.isSome_iff_exists.mp h
    rw [dmNodeUpdateGenInfo_snd ht]
    exact places_writeRef fun _ => rfl
  case isFalse h =>
    rw [hsort]
    exact List.map_orderedInsert _ _ _ _ _ (fun _ _ => UInt8.lt_iff_toNat_lt)
      fun _ _ => UInt8.lt_iff_toNat_lt

/-- Pushing a node leaves the list one that sorts. -/
theorem sort_pushNode (lst : MngtNodeList) (n : MngtNode) : (pushNode lst n).2.sort = lst.sort := by
  rw [pushNode, dmNodeUpdateGenInfo]
  split
  · split <;> rfl
  · rfl

/-- Setting the connection state of children moves nothing. -/
theorem places_of_profiles {lst' : MngtNodeList}
    (h : lst'.nodes.map MngtNode.profile = lst.nodes.map MngtNode.profile) :
    lst'.places = lst.places := by
  have := congrArg (List.map MngtNode.place) h
  rwa [List.map_map, List.map_map] at this

/-- Taking a node out takes its place out. -/
theorem places_popNodeByAddress (lst : MngtNodeList) (a : UInt16) :
    (popNodeByAddress lst a).2.places = Keyed.erase Prod.fst a lst.places := by
  rw [popNodeByAddress]
  split
  case h_1 h =>
    have hnone : Keyed.lookup Prod.fst a lst.places = none := by
      rw [lookup_places, h, Option.map_none]
    exact (Keyed.erase_eq_self hnone).symm
  case h_2 => exact Eq.symm (Keyed.erase_map (g := MngtNode.place) (fun _ => rfl) lst.nodes)

theorem sort_dmSetChildConnStatusLoop (status : Bool) :
    ∀ (cells : List Child) (nboChild : UInt8) {lst lst' : MngtNodeList},
      dmSetChildConnStatusLoop status cells nboChild lst = some lst' → lst'.sort = lst.sort := by
  intro cells
  induction cells with
  | nil =>
    rintro nboChild lst lst' h
    rw [← Option.some.inj h]
  | cons c cells ih =>
    intro nboChild lst lst' h
    rw [dmSetChildConnStatusLoop] at h
    split at h
    case isTrue =>
      split at h
      case h_1 => exact absurd h (by simp)
      case h_2 =>
        split at h
        · rw [← Option.some.inj h]
          rfl
        · exact (ih (nboChild - 1) h).trans rfl
    case isFalse =>
      split at h
      · rw [← Option.some.inj h]
      · exact ih _ h

/-! ## One registration -/

theorem isSome_getNodeReferenceByAddress (lst : MngtNodeList) (a : UInt16) :
    (getNodeReferenceByAddress lst a).isSome = (lst.registry a).isSome := by
  rw [registry_eq, Option.isSome_map]

/-- A one-hop node is rewritten where it stands, or put where it belongs. -/
theorem places_addOnehopNode (hc : lst.registry.Closed) (hsort : lst.sort = true) (n : MngtNode) :
    ∃ lst', addOnehopNode lst n = some lst' ∧ lst'.sort = true ∧
      lst'.places = if (getNodeReferenceByAddress lst n.addr).isSome
        then Keyed.update Prod.fst n.addr (fun _ => n.place) lst.places
        else lst.places.orderedInsert Outweighs n.place := by
  rw [addOnehopNode]
  split
  case h_1 hnone =>
    refine ⟨_, rfl, (sort_pushNode lst n).trans hsort, ?_⟩
    rw [places_pushNode hsort, hnone]
  case h_2 temp ht =>
    obtain ⟨lst₁, hlst₁, hprof⟩ := @dmSetChildConnStatus_spec lst temp false
      fun c hmem => hc n.addr _ (registry_eq_some ht) c hmem
    have hsort₁ : lst₁.sort = true := (sort_dmSetChildConnStatusLoop false _ _ hlst₁).trans hsort
    rw [hlst₁, Option.map_some]
    refine ⟨_, rfl, (sort_pushNode _ n).trans hsort₁, ?_⟩
    have hkey : ∀ x : MngtNode, x.addr = n.addr → (dmRemoveChildOfNode x).addr = n.addr :=
      fun _ hx => hx
    have hlookup : getNodeReferenceByAddress (lst₁.writeRef n.addr dmRemoveChildOfNode) n.addr
        = (getNodeReferenceByAddress lst₁ n.addr).map dmRemoveChildOfNode :=
      (Keyed.lookup_update hkey lst₁.nodes).trans (if_pos rfl)
    have hsort₂ : (lst₁.writeRef n.addr dmRemoveChildOfNode).sort = true := hsort₁
    have hsome : (getNodeReferenceByAddress lst₁ n.addr).isSome := by
      rw [isSome_getNodeReferenceByAddress, MngtNodeList.registry, hprof, ← MngtNodeList.registry,
        ← isSome_getNodeReferenceByAddress, ht]
      rfl
    rw [places_pushNode hsort₂, hlookup, Option.isSome_map, if_pos hsome, ht,
      if_pos Option.isSome_some, ← places_of_profiles hprof]
    exact Keyed.update_const_map_update (g := MngtNode.place) (fun _ => rfl) hkey _ _

/-- What a parent demands once it has taken a child in. -/
theorem slotDmn_dmAddChildToNode (h : dmAddChildToNode parent n = some parent') :
    parent'.genInfo.slotDmn = parent.demandWith n := by
  rw [dmAddChildToNode] at h
  split at h
  case h_1 i hi =>
    rw [MngtNode.demandWith, MngtNode.recordedDemand, hi, ← Option.some.inj h]
    rfl
  case h_2 hnone =>
    rw [MngtNode.demandWith, MngtNode.recordedDemand, hnone]
    split at h
    case h_1 =>
      rw [← Option.some.inj h]
      change parent.genInfo.slotDmn + _ = parent.genInfo.slotDmn - 0 * 2 + _
      rw [UInt8.zero_mul, UInt8.sub_zero]
    case h_2 => exact absurd h (by simp)

/-- Taking a node out leaves the list one that sorts. -/
theorem sort_popNodeByAddress (lst : MngtNodeList) (a : UInt16) :
    (popNodeByAddress lst a).2.sort = lst.sort := by
  rw [popNodeByAddress]
  split <;> rfl

/-- A node that has been taken out is put where it belongs. -/
theorem places_popPush (hd : lst.Distinct) (hsort : lst.sort = true) (ha : parent.addr = a) :
    (pushNode (popNodeByAddress lst a).2 parent).2.places
      = (Keyed.erase Prod.fst a lst.places).orderedInsert Outweighs parent.place := by
  have hnone :
      (getNodeReferenceByAddress (popNodeByAddress lst a).2 parent.addr).isSome = false := by
    rw [isSome_getNodeReferenceByAddress, registry_popNodeByAddress hd, ha, Function.update_self]
    rfl
  rw [places_pushNode ((sort_popNodeByAddress lst a).trans hsort), hnone,
    if_neg Bool.false_ne_true, places_popNodeByAddress]

/-- The parent of a two-hop node is popped. -/
theorem popNodeByAddress_eq (h : getNodeReferenceByAddress lst a = some parent) :
    popNodeByAddress lst a = (some parent, (popNodeByAddress lst a).2) :=
  Prod.ext ((popNodeByAddress_fst lst a).trans h) rfl

/-- A child whose parent is unknown is not taken in. -/
theorem addTwohopNode_missing (h : getNodeReferenceByAddress lst n.parrentAddr = none) :
    (addTwohopNode lst n).2 = lst := by
  rw [addTwohopNode, popNodeByAddress, h]

section Parent

variable (hd : lst.Distinct) (hsort : lst.sort = true)
  (hparent : getNodeReferenceByAddress lst n.parrentAddr = some parent)
include hd hsort hparent

/-- A parent that takes no child in is put back where it belongs. -/
theorem addTwohopNode_refused (hadd : dmAddChildToNode parent n = none) :
    (addTwohopNode lst n).2.sort = true ∧ (addTwohopNode lst n).2.places
      = (Keyed.erase Prod.fst n.parrentAddr lst.places).orderedInsert Outweighs parent.place := by
  have haddr : parent.addr = n.parrentAddr := Keyed.key_of_lookup hparent
  have heq : (addTwohopNode lst n).2
      = (pushNode (popNodeByAddress lst n.parrentAddr).2 parent).2 := by
    rw [addTwohopNode, popNodeByAddress_eq hparent]
    simp only [hadd]
  rw [heq]
  exact ⟨(sort_pushNode _ parent).trans ((sort_popNodeByAddress lst _).trans hsort),
    places_popPush hd hsort haddr⟩

/-- A parent that takes the child in is put where it belongs with it; then the child is rewritten
where it stands, or put where it belongs. -/
theorem addTwohopNode_taken (hne : n.parrentAddr ≠ n.addr)
    (hadd : dmAddChildToNode parent n = some parent') :
    (addTwohopNode lst n).2.sort = true ∧ (addTwohopNode lst n).2.places
      = if (getNodeReferenceByAddress lst n.addr).isSome
        then Keyed.update Prod.fst n.addr (fun _ => n.place)
          ((Keyed.erase Prod.fst n.parrentAddr lst.places).orderedInsert Outweighs parent'.place)
        else ((Keyed.erase Prod.fst n.parrentAddr lst.places).orderedInsert Outweighs
          parent'.place).orderedInsert Outweighs n.place := by
  have haddr : parent'.addr = n.parrentAddr :=
    (dmAddChildToNode_frame hadd).1.trans (Keyed.key_of_lookup hparent)
  obtain ⟨lst₁, hlst₁⟩ : ∃ lst₁, (pushNode (popNodeByAddress lst n.parrentAddr).2
      { parent' with schFlag := false }).2 = lst₁ := ⟨_, rfl⟩
  have hsort₁ : lst₁.sort = true := by
    rw [← hlst₁, sort_pushNode, sort_popNodeByAddress, hsort]
  have hplaces : lst₁.places
      = (Keyed.erase Prod.fst n.parrentAddr lst.places).orderedInsert Outweighs parent'.place := by
    rw [← hlst₁]
    exact @places_popPush lst { parent' with schFlag := false } _ hd hsort haddr
  have hsome : (getNodeReferenceByAddress lst₁ n.addr).isSome
      = (getNodeReferenceByAddress lst n.addr).isSome := by
    have hreg := registry_pushNode (distinct_popNodeByAddress hd n.parrentAddr)
      { parent' with schFlag := false }
    rw [hlst₁, show MngtNode.addr { parent' with schFlag := false } = n.parrentAddr from haddr,
      registry_popNodeByAddress hd] at hreg
    rw [isSome_getNodeReferenceByAddress, isSome_getNodeReferenceByAddress, hreg,
      Function.update_of_ne hne.symm, Function.update_of_ne hne.symm]
  have heq : (addTwohopNode lst n).2 = (pushNode lst₁ n).2 := by
    rw [addTwohopNode, popNodeByAddress_eq hparent, ← hlst₁]
    simp only [hadd]
  rw [heq, places_pushNode hsort₁, hsome, hplaces]
  exact ⟨(sort_pushNode lst₁ n).trans hsort₁, rfl⟩

end Parent

/-- A place goes before those that demand less. -/
theorem outweighs_iff (x y : UInt16 × ℕ) : Outweighs x y ↔ y.2 < x.2 := Iff.rfl

theorem lookup_places_of_some (h : getNodeReferenceByAddress lst a = some n) :
    Keyed.lookup Prod.fst a lst.places = some n.place := by rw [lookup_places, h, Option.map_some]

/-- A node that is not there yet has its place anywhere. -/
theorem hasPlace_of_none {P : MngtNode → Prop} {d : ℕ}
    (h : getNodeReferenceByAddress lst a = none) :
    HasPlace MngtNode.addr MngtNode.demand P lst.nodes a d :=
  hasPlace_of_forall_ne (Keyed.lookup_eq_none.mp h)

/-- **A one-hop node that registers keeps the order exactly if it has its place.** -/
theorem sorted_addOnehopNode_iff (h : lst.Sound) (hsort : lst.sort = true) (hsorted : lst.Sorted)
    (n : MngtNode) :
    ∃ lst', addOnehopNode lst n = some lst' ∧ lst'.sort = true ∧ (lst'.Sorted ↔
      HasPlace MngtNode.addr MngtNode.demand (fun _ => True) lst.nodes n.addr n.demand) := by
  obtain ⟨lst', hlst', hsort', hplaces⟩ := places_addOnehopNode h.registry.closed hsort n
  refine ⟨lst', hlst', hsort', ?_⟩
  have hdesc := sorted_iff.mp hsorted
  rw [sorted_iff, hplaces]
  cases hn : getNodeReferenceByAddress lst n.addr with
  | none => exact iff_of_true (hdesc.orderedInsert outweighs_iff n.place) (hasPlace_of_none hn)
  | some old =>
    have hplace := @hasPlace_places lst n.addr (fun _ => True) n.demand
    exact (descending_update_iff (nodup_places h.distinct) hdesc (lookup_places_of_some hn)).trans
      hplace

/-- A child that is there already has to have its place with its parent where that then belongs. -/
theorem sorted_addTwohopNode_rewritten (hd : lst.Distinct) (hsort : lst.sort = true)
    (hparent : getNodeReferenceByAddress lst n.parrentAddr = some parent)
    (hne : n.parrentAddr ≠ n.addr) (hsorted : lst.Sorted)
    (hadd : dmAddChildToNode parent n = some parent') {old : MngtNode}
    (hn : getNodeReferenceByAddress lst n.addr = some old) :
    (addTwohopNode lst n).2.Sorted ↔
      HasPlace MngtNode.addr MngtNode.demand (fun x => x.addr ≠ n.parrentAddr) lst.nodes n.addr
        n.demand ∧
      if old.demand < (parent.demandWith n).toNat then n.demand ≤ (parent.demandWith n).toNat
      else (parent.demandWith n).toNat ≤ n.demand := by
  have hkey : parent'.place.1 = n.parrentAddr :=
    (dmAddChildToNode_frame hadd).1.trans (Keyed.key_of_lookup hparent)
  have hdemand : parent'.demand = (parent.demandWith n).toNat := by
    rw [MngtNode.demand, slotDmn_dmAddChildToNode hadd]
  have hplace := @hasPlace_places lst n.addr (fun a => a ≠ n.parrentAddr) n.demand
  have hiff := descending_update_reinsert_iff (f := fun _ => n.place) outweighs_iff
    (nodup_places hd) (sorted_iff.mp hsorted) (lookup_places_of_some hn) hne hkey
  rw [sorted_iff, (addTwohopNode_taken hd hsort hparent hne hadd).2, hn,
    if_pos Option.isSome_some, hiff, show n.place.2 = n.demand from rfl, hplace,
    show old.place.2 = old.demand from rfl, show parent'.place.2 = parent'.demand from rfl, hdemand]

/-- **A two-hop node that registers keeps the order exactly if it has its place with its parent
where it then belongs.** -/
theorem sorted_addTwohopNode_iff (h : lst.Sound) (hsort : lst.sort = true) (hsorted : lst.Sorted)
    (hne : n.parrentAddr ≠ n.addr) :
    (addTwohopNode lst n).2.sort = true ∧ ((addTwohopNode lst n).2.Sorted ↔
      ∀ parent ∈ lst.nodes, parent.addr = n.parrentAddr → parent.HasRoomFor n.addr →
        HasPlace MngtNode.addr MngtNode.demand (fun x => x.addr ≠ parent.addr) lst.nodes n.addr
          n.demand ∧
        ∀ x ∈ lst.nodes, x.addr = n.addr → if x.demand < (parent.demandWith n).toNat
          then n.demand ≤ (parent.demandWith n).toNat
          else (parent.demandWith n).toNat ≤ n.demand) := by
  have hdesc := sorted_iff.mp hsorted
  have herase : Descending Prod.snd (Keyed.erase Prod.fst n.parrentAddr lst.places) :=
    hdesc.sublist (Keyed.erase_sublist _ _)
  cases hparent : getNodeReferenceByAddress lst n.parrentAddr with
  | none =>
    rw [addTwohopNode_missing hparent]
    refine ⟨hsort, iff_of_true hsorted fun parent hmem haddr => ?_⟩
    exact absurd haddr (Keyed.lookup_eq_none.mp hparent parent hmem)
  | some parent =>
    have honly : ∀ x ∈ lst.nodes, x.addr = n.parrentAddr → x = parent := fun x =>
      Keyed.eq_of_lookup h.distinct hparent
    cases hadd : dmAddChildToNode parent n with
    | none =>
      obtain ⟨hsort', hplaces⟩ := addTwohopNode_refused h.distinct hsort hparent hadd
      refine ⟨hsort', iff_of_true ?_ fun x hx haddr hroom => ?_⟩
      · rw [sorted_iff, hplaces]
        exact herase.orderedInsert outweighs_iff _
      · rw [honly x hx haddr, ← isSome_dmAddChildToNode, hadd] at hroom
        exact absurd hroom Bool.false_ne_true
    | some parent' =>
      obtain ⟨hsort', hplaces⟩ := addTwohopNode_taken h.distinct hsort hparent hne hadd
      refine ⟨hsort', ?_⟩
      have haddr : parent.addr = n.parrentAddr := Keyed.key_of_lookup hparent
      have hroom : parent.HasRoomFor n.addr := isSome_dmAddChildToNode.mp (by rw [hadd]; rfl)
      cases hn : getNodeReferenceByAddress lst n.addr with
      | none =>
        have hinsert := herase.orderedInsert outweighs_iff parent'.place
        rw [sorted_iff, hplaces, hn]
        refine iff_of_true (hinsert.orderedInsert outweighs_iff n.place) fun x hx hxaddr _ => ?_
        exact ⟨hasPlace_of_none hn, fun y hy hyaddr =>
          absurd hyaddr (Keyed.lookup_eq_none.mp hn y hy)⟩
      | some old =>
        rw [sorted_addTwohopNode_rewritten h.distinct hsort hparent hne hsorted hadd hn]
        constructor
        · rintro ⟨hhas, hif⟩ x hx hxaddr -
          obtain rfl := honly x hx hxaddr
          refine ⟨hxaddr ▸ hhas, fun y hy hyaddr => ?_⟩
          rwa [Keyed.eq_of_lookup h.distinct hn hy hyaddr]
        · intro hall
          obtain ⟨hhas, hif⟩ := hall parent (Keyed.mem_of_lookup hparent) haddr hroom
          exact ⟨haddr ▸ hhas, hif old (Keyed.mem_of_lookup hn) (Keyed.key_of_lookup hn)⟩

/-- **When one registration keeps NODES sorted.** -/
theorem Mac.sorted_register_iff {s : Mac} (h : s.NODES.Sound) (hsort : s.NODES.sort = true)
    (hsorted : s.NODES.Sorted) (r : Registration) :
    ∃ s', s.register r = some s' ∧ (s'.NODES.Sorted ↔ r.FitsOrder s) ∧
      s'.NODES.Sound ∧ s'.NODES.sort = true := by
  obtain ⟨s', hs', hsound, -⟩ := Mac.register_spec h r
  refine ⟨s', hs', ?_⟩
  rw [register, registerNode, addNodeToNodeList] at hs'
  rw [Registration.FitsOrder]
  cases htype : r.node.genInfo.type with
  | onehop =>
    obtain ⟨lst', hlst', hsort', hiff⟩ := sorted_addOnehopNode_iff h hsort hsorted r.node
    simp only [htype, hlst', Option.map_some, Option.some.injEq] at hs'
    obtain rfl := hs'
    exact ⟨hiff, hsound, hsort'⟩
  | twohop =>
    obtain ⟨hsort', hiff⟩ :=
      sorted_addTwohopNode_iff h hsort hsorted (r.fresh_node.parrentAddr_ne htype)
    simp only [htype, Option.map_some, Option.some.injEq] at hs'
    obtain rfl := hs'
    exact ⟨hiff, hsound, hsort'⟩

/-- **NODES stays sorted exactly through registrations that fit its order.** -/
theorem sorted_run_iff (p : MacParams) (rs : List Registration) :
    Runs.Always Mac.register (fun s => s.NODES.Sorted) (twohopLoRaMacInit p) rs ↔
      Runs.EachStep Mac.register (fun s r => r.FitsOrder s) (twohopLoRaMacInit p) rs := by
  refine Runs.always_iff_eachStep (I := fun s : Mac => s.NODES.Sound ∧ s.NODES.sort = true)
    (Q := fun s : Mac => s.NODES.Sorted) (fun s r hs hsorted => ?_) ⟨sound_initNodeList true, rfl⟩
    ?_ rs
  · obtain ⟨s', hs', hiff, hI⟩ := Mac.sorted_register_iff hs.1 hs.2 hsorted r
    exact ⟨s', hs', hiff, fun _ => hI⟩
  · rw [MngtNodeList.Sorted]
    exact List.Pairwise.nil

/-- Node 1 registers, node 2 with a larger class, then node 1 with one that is larger still. -/
theorem not_sorted_reclassed : ¬ ∀ rs : List Registration,
    Runs.Always Mac.register (fun s => s.NODES.Sorted) (twohopLoRaMacInit macDefaults) rs := by
  intro h
  refine Runs.not_always_of_last (fun s : Mac => s.NODES.nodes.Pairwise fun n n' =>
    n'.genInfo.slotDmn ≤ n.genInfo.slotDmn) (fun _ h => h) ?_
    (h [.itself (.ofBits 1 0), .itself (.ofBits 2 1), .itself (.ofBits 1 2)])
  decide +kernel

end LoRaGwSv
