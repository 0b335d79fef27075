import LoRaGwSv.Server.Registrations
import Mathlib.Tactic.IntervalCases

/-!
# Server/Demand — the slot demand of a one-hop node

A one-hop node demands the slots of its class and twice those of its children.  The total is kept
in eight bits, and address `0`, which marks an empty cell, is also an address a node may have, so a
registration keeps the total exactly if `Registration.FitsDemand` holds of it.
-/

namespace LoRaGwSv

open Function

/-- What a cell of a child table counts; an empty one counts nothing. -/
def Child.demand (c : Child) : ℕ := if c.addr = 0 then 0 else c.slotDemand.toNat

/-- What the children in a table demand. -/
def MngtNode.childDemand (n : MngtNode) : ℕ := Table.total Child.demand n.children

/-- What the children in a table demand, the one at `addr` left out. -/
def MngtNode.childDemandBut (n : MngtNode) (addr : UInt16) : ℕ :=
  Table.total (fun c => if c.addr = addr then 0 else c.demand) n.children

/-- The slot demand of a one-hop node is the one its class and its children make. -/
def MngtNode.DemandExact (n : MngtNode) : Prop :=
  n.genInfo.type = .onehop →
    n.genInfo.slotDmn.toNat = 2 ^ n.genInfo.cls.toNat + 2 * n.childDemand

instance (n : MngtNode) : Decidable n.DemandExact := inferInstanceAs (Decidable (_ → _))

/-- A parent can take a child in and keep its demand in eight bits; a child at address `0` is not
seen again, so it must add nothing modulo 256. -/
def MngtNode.CanDemand (parent child : MngtNode) : Prop :=
  if child.addr = 0 then child.genInfo.cls = 7
  else 2 ^ parent.genInfo.cls.toNat +
    2 * (parent.childDemandBut child.addr + 2 ^ child.genInfo.cls.toNat) ≤ 255

/-- What a two-hop registration must find, where a one-hop parent will take the node in. -/
def Registration.FitsDemand (s : Mac) (r : Registration) : Prop :=
  r.node.genInfo.type = .twohop → ∀ parent ∈ s.NODES.nodes,
    parent.addr = r.node.parrentAddr → parent.genInfo.type = .onehop →
    parent.HasRoomFor r.node.addr → parent.CanDemand r.node

/-- An empty cell has a demand that doubles to nothing. -/
def MngtNode.EmptyCellsVanish (n : MngtNode) : Prop :=
  n.genInfo.type = .onehop → ∀ c ∈ n.children, c.addr = 0 → c.slotDemand * 2 = 0

variable {m : Registry} {n parent parent' : MngtNode}

/-! ## A fresh node

It has no children, so its demand is that of its class. -/

/-- A fresh node demands what its class does. -/
theorem MngtNode.Fresh.demandExact (h : n.Fresh) : n.DemandExact := fun _ => by
  rw [h.slotDmn_eq, childDemand, h.children_eq]
  rfl

theorem MngtNode.Fresh.emptyCellsVanish (h : n.Fresh) : n.EmptyCellsVanish := fun _ c hc _ => by
  rw [h.child_eq hc]
  rfl

/-! ## Taking a child in

The parent gives back what the cell of the child demanded before, and adds what the child demands
now.  This is exact in integers, and the eight bits are right if the sum fits them. -/

/-- Writing a child into its own cell, or an empty one, leaves the demand of the others. -/
theorem childDemand_putChild {i : Fin twohopMaxNboChildren}
    (hi : (parent.children.get i).addr = n.addr ∨ (parent.children.get i).addr = 0)
    (hother : ∀ j : Fin twohopMaxNboChildren, j ≠ i → (parent.children.get j).addr ≠ n.addr)
    (slotDmn : UInt8) :
    (parent.putChild i slotDmn n).childDemand
      = parent.childDemandBut n.addr + n.asChild.demand ∧
    parent.childDemand = parent.childDemandBut n.addr + (parent.children.get i).demand := by
  have hbut : parent.childDemandBut n.addr
      = Table.total Child.demand (parent.children.set i ⟨0, 0, 0⟩) := by
    refine Table.total_congr fun j => ?_
    rw [Table.getElem_set]
    rcases eq_or_ne j i with rfl | hj
    · rw [if_pos rfl]
      split
      · rfl
      · exact if_pos (hi.resolve_left ‹_›)
    · rw [if_neg hj]
      exact if_neg (hother j hj)
  have hnew := Table.total_set Child.demand parent.children i n.asChild
  have hold := Table.total_set Child.demand parent.children i ⟨0, 0, 0⟩
  rw [show Child.demand ⟨0, 0, 0⟩ = 0 from rfl] at hold
  rw [hbut, MngtNode.childDemand, MngtNode.childDemand]
  change Table.total Child.demand (parent.children.set i n.asChild) = _ ∧
    _ = _ + parent.children[i].demand
  omega

/-- A demand is exact after a step exactly if it has not left its eight bits. -/
theorem exact_iff {x : UInt8} {t : ℕ} (h : x.toNat = t % 256) :
    x.toNat = t ↔ t ≤ 255 := by
  rw [h]
  omega

/-- The demand a cell had is taken back exactly, and a new one added modulo 256. -/
theorem toNat_replace {x old new : UInt8} {t : ℕ} (h : x.toNat = t + 2 * old.toNat) :
    (x - old * 2 + new * 2).toNat = (t + 2 * new.toNat) % 256 := by
  have hx := x.toNat_lt
  rw [UInt8.toNat_add, UInt8.toNat_sub, UInt8.toNat_mul, UInt8.toNat_mul,
    show (2 : UInt8).toNat = 2 from rfl]
  omega

/-- Only twice the largest class vanishes in eight bits. -/
theorem add_twice_eq_self {x slotDmn cls : UInt8} (hcls : cls.toNat < 8)
    (h : slotDmn.toNat = 2 ^ cls.toNat) : (x + slotDmn * 2).toNat = x.toNat ↔ cls = 7 := by
  have hx := x.toNat_lt
  have hseven : cls = 7 ↔ cls.toNat = 7 := UInt8.toNat_inj.symm
  rw [UInt8.toNat_add, UInt8.toNat_mul, show (2 : UInt8).toNat = 2 from rfl, h, hseven]
  generalize cls.toNat = k at hcls
  interval_cases k <;> omega

/-- A child at address `0` overwrites an empty cell, adds its demand and is not seen again. -/
theorem dmAddChildToNode_zero_iff (hold : parent.genInfo.slotDmn.toNat
      = 2 ^ parent.genInfo.cls.toNat + 2 * parent.childDemand)
    (hvanish : ∀ c ∈ parent.children, c.addr = 0 → c.slotDemand * 2 = 0) (hn : n.Fresh)
    (hn0 : n.addr = 0) (hadd : dmAddChildToNode parent n = some parent') :
    parent'.genInfo.slotDmn.toNat = 2 ^ parent.genInfo.cls.toNat + 2 * parent'.childDemand ↔
      n.genInfo.cls = 7 := by
  obtain ⟨i, ⟨hi, rfl⟩ | ⟨hi, hnot, -⟩⟩ := dmAddChildToNode_some hadd
  · have hzero : parent.children[i].addr = 0 := hi.trans hn0
    have hsame : Table.total Child.demand (parent.children.set i n.asChild)
        = parent.childDemand := by
      have := Table.total_set Child.demand parent.children i n.asChild
      rwa [show parent.children[i].demand = 0 from if_pos hzero,
        show n.asChild.demand = 0 from if_pos hn0] at this
    change (parent.genInfo.slotDmn - parent.children[i].slotDemand * 2
        + n.genInfo.slotDmn * 2).toNat
      = 2 ^ _ + 2 * Table.total Child.demand (parent.children.set i n.asChild) ↔ _
    rw [hsame, hvanish _ (Table.getElem_mem _ i) hzero, UInt8.sub_zero, ← hold]
    exact add_twice_eq_self hn.cls_lt hn.slotDmn_eq
  · exact absurd (hi.trans hn0.symm) (hnot _ (Table.getElem_mem _ i))

/-- Any other child counts once, in its own cell or in an empty one. -/
theorem dmAddChildToNode_ne_iff (hold : parent.genInfo.slotDmn.toNat
      = 2 ^ parent.genInfo.cls.toNat + 2 * parent.childDemand)
    (hw : parent.WellFormed) (hn0 : n.addr ≠ 0)
    (hadd : dmAddChildToNode parent n = some parent') :
    parent'.genInfo.slotDmn.toNat = 2 ^ parent.genInfo.cls.toNat + 2 * parent'.childDemand ↔
      2 ^ parent.genInfo.cls.toNat +
        2 * (parent.childDemandBut n.addr + n.genInfo.slotDmn.toNat) ≤ 255 := by
  have hnew : n.asChild.demand = n.genInfo.slotDmn.toNat := if_neg hn0
  rw [← hnew]
  obtain ⟨i, ⟨hi, rfl⟩ | ⟨hi, hnot, rfl⟩⟩ := dmAddChildToNode_some hadd
  · have hother : ∀ j : Fin twohopMaxNboChildren, j ≠ i →
        parent.children[j].addr ≠ n.addr := fun j hj heq =>
      hj (hw.cell_unique j i (heq.trans hi.symm) (heq ▸ hn0))
    obtain ⟨hput, hbefore⟩ := childDemand_putChild (i := i) (Or.inl hi) hother
      (parent.genInfo.slotDmn - parent.children[i].slotDemand * 2)
    have hcell : (parent.children.get i).demand = parent.children[i].slotDemand.toNat :=
      if_neg (hi ▸ hn0)
    rw [hput]
    refine exact_iff ((toNat_replace (t := 2 ^ parent.genInfo.cls.toNat
      + 2 * parent.childDemandBut n.addr) ?_).trans ?_)
    · omega
    · rw [hnew]
      congr 1
      omega
  · have hother : ∀ j : Fin twohopMaxNboChildren, j ≠ i →
        parent.children[j].addr ≠ n.addr := fun j _ => hnot _ (Table.getElem_mem _ j)
    obtain ⟨hput, hbefore⟩ := childDemand_putChild (i := i) (Or.inr hi) hother
      parent.genInfo.slotDmn
    have hcell : (parent.children.get i).demand = 0 := if_pos hi
    change (parent.genInfo.slotDmn + n.genInfo.slotDmn * 2).toNat
      = 2 ^ _ + 2 * (parent.putChild i parent.genInfo.slotDmn n).childDemand ↔ _
    rw [hput]
    refine exact_iff ?_
    rw [UInt8.toNat_add, UInt8.toNat_mul, show (2 : UInt8).toNat = 2 from rfl]
    omega

/-- **When a one-hop parent's demand stays exact.** -/
theorem MngtNode.DemandExact.dmAddChildToNode_iff (h : parent.DemandExact)
    (hw : parent.WellFormed) (he : parent.EmptyCellsVanish) (hn : n.Fresh)
    (hadd : dmAddChildToNode parent n = some parent') :
    parent'.DemandExact ↔ (parent.genInfo.type = .onehop → parent.CanDemand n) := by
  obtain ⟨-, hcls, htype, -⟩ := dmAddChildToNode_frame hadd
  rw [DemandExact, htype, hcls]
  refine forall_congr' fun honehop => ?_
  rw [CanDemand, ← hn.slotDmn_eq]
  by_cases hn0 : n.addr = 0
  · rw [if_pos hn0]
    exact dmAddChildToNode_zero_iff (h honehop) (he honehop) hn hn0 hadd
  · rw [if_neg hn0]
    exact dmAddChildToNode_ne_iff (h honehop) hw hn0 hadd

/-- Only a class 7 child at address `0` is left in an empty cell. -/
theorem MngtNode.EmptyCellsVanish.dmAddChildToNode (he : parent.EmptyCellsVanish) (hn : n.Fresh)
    (hfit : parent.genInfo.type = .onehop → parent.CanDemand n)
    (hadd : dmAddChildToNode parent n = some parent') : parent'.EmptyCellsVanish := by
  intro honehop c hc hc0
  rw [(dmAddChildToNode_frame hadd).2.2.1] at honehop
  rcases mem_children_of_dmAddChildToNode hadd hc with rfl | hc
  · have hcls := hfit honehop
    rw [CanDemand, if_pos (show n.addr = 0 from hc0)] at hcls
    have hdmn := hn.slotDmn_eq
    rw [hcls] at hdmn
    have hdmn' : n.genInfo.slotDmn = 128 := UInt8.toNat_inj.mp hdmn
    have hvanish : n.genInfo.slotDmn * 2 = 0 := by rw [hdmn']; decide
    exact hvanish
  · exact he honehop c hc hc0

/-! ## One registration -/

/-- What `Registration.FitsDemand` says, in the registry. -/
def Registry.FitsDemand (m : Registry) (n : MngtNode) : Prop :=
  n.genInfo.type = .twohop → ∀ parent, m n.parrentAddr = some parent →
    parent.genInfo.type = .onehop → parent.HasRoomFor n.addr → parent.CanDemand n

/-- The entries a demand is computed from. -/
structure Registry.Demanding (m : Registry) : Prop where
  sound : m.Sound
  emptyCellsVanish : ∀ a e, m a = some e → e.EmptyCellsVanish

/-- **When one registration keeps every demand exact.** -/
theorem Registry.Demanding.register_iff (h : m.Demanding)
    (hex : ∀ a e, m a = some e → e.DemandExact) (hn : n.Fresh) :
    (∀ a e, m.register n a = some e → e.DemandExact) ↔ m.FitsDemand n := by
  constructor
  · intro hex' htype parent hparent honehop hroom
    obtain ⟨parent', hadd⟩ := Option.isSome_iff_exists.mp (isSome_dmAddChildToNode.mpr hroom)
    have hentry : m.register n n.parrentAddr = some { parent' with schFlag := false } := by
      have hadopt : m.adopt n = some parent' := by rw [adopt, hparent, Option.bind_some, hadd]
      rw [register, htype, hadopt]
      exact (update_of_ne (hn.parrentAddr_ne htype) _ _).trans (update_self _ _ _)
    have hexact : parent'.DemandExact := hex' n.parrentAddr { parent' with schFlag := false } hentry
    exact ((hex _ _ hparent).dmAddChildToNode_iff (h.sound.wellFormed _ _ hparent)
      (h.emptyCellsVanish _ _ hparent) hn hadd).mp hexact honehop
  · intro hfit a e he
    obtain ⟨rfl, rfl⟩ | ⟨parent, parent', rfl, htype, hparent, hadd, rfl⟩ | he :=
      register_eq_some he
    · exact hn.demandExact
    · have hroom := isSome_dmAddChildToNode.mp (Option.isSome_iff_exists.mpr ⟨parent', hadd⟩)
      exact ((hex _ _ hparent).dmAddChildToNode_iff (h.sound.wellFormed _ _ hparent)
        (h.emptyCellsVanish _ _ hparent) hn hadd).mpr
          fun honehop => hfit htype parent hparent honehop hroom
    · exact hex a e he

/-- A registration keeps the demands exact where the sum fits eight bits. -/
theorem Registry.Demanding.register (h : m.Demanding) (hn : n.Fresh) (hfit : m.FitsDemand n) :
    (m.register n).Demanding := by
  refine ⟨h.sound.register hn, fun a e he => ?_⟩
  obtain ⟨rfl, rfl⟩ | ⟨parent, parent', rfl, htype, hparent, hadd, rfl⟩ | he :=
    register_eq_some he
  · exact hn.emptyCellsVanish
  · have hroom := isSome_dmAddChildToNode.mp (Option.isSome_iff_exists.mpr ⟨parent', hadd⟩)
    have hempty : parent'.EmptyCellsVanish :=
      (h.emptyCellsVanish _ _ hparent).dmAddChildToNode hn
        (fun honehop => hfit htype parent hparent honehop hroom) hadd
    exact hempty
  · exact h.emptyCellsVanish a e he

/-- Whether it fits is told by the registry. -/
theorem fitsDemand_registry {s : Mac} (hd : s.NODES.Distinct) (r : Registration) :
    s.NODES.registry.FitsDemand r.node ↔ r.FitsDemand s :=
  imp_congr_right fun _ => hd.forall_registry_iff fun _ => Iff.rfl

/-! ## Any history -/

/-- A class 6 child of a class 7 node: 128 and twice 64 make 256. -/
theorem not_demandExact_class_seven :
    ¬ Runs.Always Mac.register (fun s => ∀ n ∈ s.NODES.nodes, n.DemandExact)
      (twohopLoRaMacInit macDefaults)
      [.itself (.ofBits 1 7), .listed (.ofBits 2 6) 1] :=
  Runs.not_always_of_last _ (fun _ h => h) (by decide +kernel)

/-- **Slot demands are exact all along a history of registrations exactly if each child taken in
leaves its parent's demand in eight bits.** -/
theorem demandExact_run_iff (p : MacParams) (rs : List Registration) :
    Runs.Always Mac.register (fun s => ∀ n ∈ s.NODES.nodes, n.DemandExact)
        (twohopLoRaMacInit p) rs ↔
      Runs.EachStep Mac.register (fun s r => r.FitsDemand s) (twohopLoRaMacInit p) rs := by
  refine Runs.always_iff_eachStep
    (I := fun s => s.NODES.Distinct ∧ s.NODES.registry.Demanding) (fun s r hs hQ => ?_)
    ⟨List.nodup_nil, (sound_initNodeList true).registry, ?_⟩ ?_ rs
  · obtain ⟨hd, hdem⟩ := hs
    obtain ⟨s', hs', hsound, hreg, -, -⟩ := Mac.register_spec ⟨hd, hdem.sound⟩ r
    refine ⟨s', hs', ?_, fun hfit => ⟨hsound.distinct, ?_⟩⟩
    · rw [hsound.distinct.forall_mem_iff fun _ => Iff.rfl, hreg,
        hdem.register_iff ((hd.forall_mem_iff fun _ => Iff.rfl).mp hQ) r.fresh_node,
        fitsDemand_registry hd]
    · rw [hreg]
      exact hdem.register r.fresh_node ((fitsDemand_registry hd r).mpr hfit)
  · intro n hn
    exact absurd hn List.not_mem_nil
  · intro a e he
    exact absurd he (Option.some_ne_none e).symm

end LoRaGwSv
