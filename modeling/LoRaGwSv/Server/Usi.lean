import LoRaGwSv.Server.Decode
import LoRaGwSv.Server.Distribute

/-!
# Server/Usi — what a command message carries

A command message has room for 15 records.  They are the first entries, over all groups, that have
still to be distributed (`Mac.selected`); `cm_spec` says that the bytes of the message are those
records after the fixed part, and that the message changes nothing but the counters of the entries
it carries.
-/

namespace LoRaGwSv

open Wire

/-- The entries with a schedule to distribute, with their groups, from group `grpIndex` on. -/
def pendingFrom : ℕ → List SchList → List (ℕ × SchNode)
  | _, [] => []
  | grpIndex, list :: lists =>
    (list.nodes.filter fun n => n.Pending).map (Prod.mk grpIndex)
      ++ pendingFrom (grpIndex + 1) lists

/-- How many records the next command message carries. -/
def Mac.usiCount (s : Mac) : ℕ :=
  min twohopMaxNboRelaysInUsi.toNat ((bookings s.SCHEDULES).countP fun n => n.Pending)

/-- The entries it carries. -/
def Mac.selected (s : Mac) : List (ℕ × SchNode) := (pendingFrom 0 s.SCHEDULES).take s.usiCount

/-- The groups once their first `k` entries with a schedule to distribute are carried. -/
def carriedGroups : ℕ → List SchList → List SchList
  | _, [] => []
  | k, list :: lists =>
    ((list.nodes.filter fun n => n.Pending).take k).foldl carry list ::
      carriedGroups (k - (list.nodes.filter fun n => n.Pending).length) lists

/-- The children in the table of the node at `addr`. -/
def MngtNodeList.childrenOf (lst : MngtNodeList) (addr : UInt16) : List Child :=
  match dmNodeGetChildList lst addr with
  | none => []
  | some (child, _) => child.toList.filter fun c => c.addr ≠ 0

/-- The bytes of a record. -/
def usiBytes (NODES : MngtNodeList) (x : ℕ × SchNode) : List UInt8 :=
  [UInt8.ofNat (pack [(x.1, 3), ((NODES.childrenOf x.2.addr).length, 5)])] ++
    [x.2.startLSI.toUInt8] ++ addrFormat x.2.addr x.2.cls ++
    (NODES.childrenOf x.2.addr).flatMap fun c => addrFormat c.addr c.cls.toUInt16

/-- The bytes of a command message. -/
def cmBytes (p : MacParams) (s : Mac) (seq : UInt16) : List UInt8 :=
  header p .dlCm ++ le16 seq ++ s.SCHEDULES.map (fun list => (smGetLastAsgLsi list).toUInt8) ++
    [UInt8.ofNat (pack [(if 0 < s.usiCount then 1 else 0, 1), (s.usiCount, 4), (0, 3)])] ++
    s.selected.flatMap (usiBytes s.NODES)

variable {S : List SchList} {list : SchList} {n : SchNode} {lst : MngtNodeList} {p : MacParams}
  {s : Mac} {w : Payload} {bs : List UInt8}

/-! ## The entries to carry

The walk goes through the groups in order and takes entries until the message is full.  What it
takes is the front of one list over all groups. -/

/-- The entries that wait, without the groups they are of. -/
theorem pendingFrom_snd (grpIndex : ℕ) (S : List SchList) :
    (pendingFrom grpIndex S).map Prod.snd = (bookings S).filter fun n => n.Pending := by
  induction S generalizing grpIndex with
  | nil => rfl
  | cons list lists ih =>
    rw [pendingFrom, List.map_append, List.map_map, ih, bookings_cons, List.filter_append]
    exact congrArg (· ++ _) (List.map_id _)

theorem length_pendingFrom (grpIndex : ℕ) (S : List SchList) :
    (pendingFrom grpIndex S).length = (bookings S).countP fun n => n.Pending := by
  rw [← List.length_map Prod.snd, pendingFrom_snd, List.countP_eq_length_filter]

/-- A command carries as many entries as it counts. -/
theorem length_selected (s : Mac) : s.selected.length = s.usiCount := by
  rw [Mac.selected, List.length_take, length_pendingFrom, Mac.usiCount]
  omega

theorem usiCount_le (s : Mac) : s.usiCount ≤ 15 := min_le_left _ _

/-- The entries a command carries are the first that wait. -/
theorem selected_snd (s : Mac) :
    s.selected.map Prod.snd
      = ((bookings s.SCHEDULES).filter fun n => n.Pending).take s.usiCount := by
  rw [Mac.selected, List.map_take, pendingFrom_snd]

/-- An entry of a group index is an entry of that group. -/
theorem mem_pendingFrom {grpIndex : ℕ} {x : ℕ × SchNode} (hx : x ∈ pendingFrom grpIndex S) :
    ∃ list, grpIndex ≤ x.1 ∧ S[x.1 - grpIndex]? = some list ∧ x.2 ∈ list.nodes ∧ x.2.Pending := by
  induction S generalizing grpIndex with
  | nil => exact absurd hx List.not_mem_nil
  | cons list lists ih =>
    rcases List.mem_append.mp hx with hx | hx
    · obtain ⟨n, hn, rfl⟩ := List.mem_map.mp hx
      obtain ⟨hn, hp⟩ := List.mem_filter.mp hn
      exact ⟨list, le_rfl, by simp, hn, by simpa using hp⟩
    · obtain ⟨list', hle, hget, hx⟩ := ih hx
      refine ⟨list', by omega, ?_, hx⟩
      rw [show x.1 - grpIndex = x.1 - (grpIndex + 1) + 1 by omega, List.getElem?_cons_succ]
      exact hget

/-- Each of them is an entry of its group that waits. -/
theorem mem_selected {x : ℕ × SchNode} (hx : x ∈ s.selected) :
    ∃ list, s.SCHEDULES[x.1]? = some list ∧ x.2 ∈ list.nodes ∧ x.2.Pending := by
  obtain ⟨list, -, hget, hx⟩ := mem_pendingFrom (List.mem_of_mem_take hx)
  exact ⟨list, hget, hx⟩

/-- An entry that is not in the second selection is carried by the first alone. -/
theorem SchNode.carriedIn_append_left {sel sel' : List SchNode}
    (h : n.addr ∉ sel'.map SchNode.addr) : n.carriedIn (sel ++ sel') = n.carriedIn sel :=
  if_congr (by rw [List.map_append, List.mem_append, or_iff_left h]) rfl rfl

/-- An entry that is not in the first is carried by the second. -/
theorem SchNode.carriedIn_append_right {sel sel' : List SchNode}
    (h : n.addr ∉ sel.map SchNode.addr) : n.carriedIn (sel ++ sel') = n.carriedIn sel' :=
  if_congr (by rw [List.map_append, List.mem_append, or_iff_right h]) rfl rfl

/-- **Carrying the first entries of all groups** takes one off each of them and leaves the others
alone. -/
theorem bookings_carriedGroups (h : NoDoubleBooking S) (k : ℕ) :
    bookings (carriedGroups k S) = (bookings S).map
      (SchNode.carriedIn (((bookings S).filter fun n => n.Pending).take k)) := by
  induction S generalizing k with
  | nil => rfl
  | cons list lists ih =>
    rw [NoDoubleBooking, bookings_cons, List.map_append] at h
    obtain ⟨hlist, hlists, hdisj⟩ := List.nodup_append.mp h
    have hfilter : ∀ l : List SchNode, ∀ k n, n ∈ (l.filter fun n => n.Pending).take k → n ∈ l :=
      fun l k n hn => (List.mem_filter.mp (List.mem_of_mem_take hn)).1
    have hsel : (((list.nodes.filter fun n => n.Pending).take k).map SchNode.addr).Nodup :=
      hlist.sublist (((List.take_sublist _ _).trans List.filter_sublist).map _)
    rw [carriedGroups, bookings_cons, bookings_cons, List.filter_append, List.take_append,
      List.map_append, nodes_foldl_carry hlist hsel (hfilter _ k)]
    refine congrArg₂ _ (List.map_congr_left fun n hn => ?_)
      ((ih hlists _).trans (List.map_congr_left fun n hn => ?_))
    · refine (SchNode.carriedIn_append_left fun hx => ?_).symm
      obtain ⟨x, hx, hxn⟩ := List.mem_map.mp hx
      exact hdisj _ (List.mem_map_of_mem hn) _ (List.mem_map_of_mem (hfilter _ _ x hx)) hxn.symm
    · refine (SchNode.carriedIn_append_right fun hx => ?_).symm
      obtain ⟨x, hx, hxn⟩ := List.mem_map.mp hx
      exact hdisj _ (List.mem_map_of_mem (hfilter _ _ x hx)) _ (List.mem_map_of_mem hn) hxn

theorem nboTotSlots_carriedGroups (k : ℕ) (S : List SchList) :
    (carriedGroups k S).map (fun list => list.nboTotSlots.toNat)
      = S.map fun list => list.nboTotSlots.toNat := by
  induction S generalizing k with
  | nil => rfl
  | cons list lists ih =>
    rw [carriedGroups, List.map_cons, List.map_cons, ih, nboTotSlots_foldl_carry]

/-- Carrying none leaves the groups as they are. -/
theorem carriedGroups_zero (S : List SchList) : carriedGroups 0 S = S := by
  induction S with
  | nil => rfl
  | cons list lists ih =>
    rw [carriedGroups, List.take_zero, List.foldl_nil, Nat.zero_sub, ih]

theorem sound_carriedGroups (h : NoDoubleBooking S) (hS : ∀ list ∈ S, list.Sound) (k : ℕ) :
    ∀ list ∈ carriedGroups k S, list.Sound := by
  induction S generalizing k with
  | nil => exact fun _ hx => absurd hx List.not_mem_nil
  | cons list lists ih =>
    have hlist := Keyed.nodup_piece h List.mem_cons_self
    rw [NoDoubleBooking, bookings_cons, List.map_append] at h
    rw [carriedGroups]
    refine List.forall_mem_cons.mpr ⟨(hS list List.mem_cons_self).foldl_carry hlist ?_ ?_,
      ih (List.nodup_append.mp h).2.1 (fun x hx => hS x (List.mem_cons_of_mem list hx)) _⟩
    · exact hlist.sublist (((List.take_sublist _ _).trans List.filter_sublist).map _)
    · exact fun n hn => (List.mem_filter.mp (List.mem_of_mem_take hn)).1

/-- **A command message keeps NODES and the schedule consistent.** -/
theorem Mac.Consistent.carriedGroups (h : s.Consistent p) (k : ℕ) :
    Mac.Consistent p { s with SCHEDULES := carriedGroups k s.SCHEDULES } where
  sound := h.sound
  framed := (nboTotSlots_carriedGroups k s.SCHEDULES).trans h.framed
  lists := sound_carriedGroups h.once h.lists k
  once := by
    rw [NoDoubleBooking, bookings_carriedGroups h.once, List.map_map]
    exact (congrArg List.Nodup (List.map_congr_left fun n _ => n.addr_carriedIn _)).mpr h.once
  onehop b hb := by
    rw [bookings_carriedGroups h.once] at hb
    obtain ⟨n, hn, rfl⟩ := List.mem_map.mp hb
    rw [SchNode.addr_carriedIn]
    exact h.onehop n hn

/-! ## How many records

The count is capped before it is cut to its field. -/

/-- **The count in the message is capped, not wrapped.** -/
theorem toNat_nboRelaysUsi (hS : ∀ list ∈ S, list.Sound ∧ list.nodes.length ≤ 65536)
    {count : UInt8} (hcount : count.toNat ≤ 15) :
    (nboRelaysUsi count S).toNat
      = min 15 (count.toNat + (bookings S).countP fun n => n.Pending) := by
  induction S generalizing count with
  | nil =>
    rw [nboRelaysUsi, bookings, List.flatMap_nil, List.countP_nil]
    omega
  | cons list lists ih =>
    obtain ⟨hlist, hlen⟩ := hS list List.mem_cons_self
    have hreq := hlist.nboDistReq_eq
    have hle := List.countP_le_length (p := fun n : SchNode => n.Pending) (l := list.nodes)
    have hsum : (count.toUInt32 + list.nboDistReq).toNat = count.toNat + list.nboDistReq.toNat := by
      rw [UInt32.toNat_add, UInt8.toNat_toUInt32]
      omega
    rw [nboRelaysUsi, bookings_cons, List.countP_append, ← hreq]
    split
    case isTrue hlt =>
      rw [UInt32.lt_iff_toNat_lt, hsum] at hlt
      have : twohopMaxNboRelaysInUsi.toUInt32.toNat = 15 := rfl
      have : twohopMaxNboRelaysInUsi.toNat = 15 := rfl
      omega
    case isFalse hge =>
      rw [UInt32.lt_iff_toNat_lt, hsum] at hge
      have h15 : twohopMaxNboRelaysInUsi.toUInt32.toNat = 15 := rfl
      have hnext : (count + list.nboDistReq.toUInt8).toNat
          = count.toNat + list.nboDistReq.toNat := by
        rw [UInt8.toNat_add, UInt32.toNat_toUInt8]
        omega
      rw [ih (fun x hx => hS x (List.mem_cons_of_mem list hx)) (by omega), hnext]
      omega

/-- The count in the message is the number of entries it carries. -/
theorem Mac.Consistent.toNat_nboRelaysUsi (h : s.Consistent p) :
    (nboRelaysUsi 0 s.SCHEDULES).toNat = s.usiCount := by
  rw [LoRaGwSv.toNat_nboRelaysUsi (fun list hlist => ⟨h.lists list hlist, h.length_nodes_le hlist⟩)
    (Nat.zero_le _), Mac.usiCount, UInt8.toNat_zero, Nat.zero_add]
  rfl

/-! ## Writing a record

The children of the node are taken out of its table, empty cells left out. -/

/-- The table a record is written from is the one registered. -/
theorem dmNodeGetChildList_eq (lst : MngtNodeList) (addr : UInt16) :
    dmNodeGetChildList lst addr
      = (lst.registry addr).map fun e => (e.children, e.nboChildren) := by
  rw [dmNodeGetChildList, registry_eq, Option.map_map]
  rfl

/-- The children of a registered node are the used cells of its entry. -/
theorem childrenOf_eq {addr : UInt16} {e : MngtNode} (he : lst.registry addr = some e) :
    lst.childrenOf addr = e.children.toList.filter fun c => c.addr ≠ 0 := by
  rw [MngtNodeList.childrenOf, dmNodeGetChildList_eq, he]
  rfl

/-- **The children counted are the children listed.** -/
theorem MngtNode.WellFormed.nboChildren_toNat {e : MngtNode} (h : e.WellFormed) :
    e.nboChildren.toNat = (e.children.toList.filter fun c => c.addr ≠ 0).length := by
  rw [h.nboChildren_eq, takenCells, Table.total_eq_sum, ← List.countP_eq_length_filter]
  generalize e.children.toList = l
  induction l with
  | nil => rfl
  | cons c l ih =>
    rw [List.map_cons, List.sum_cons, ih, List.countP_cons]
    by_cases hc : c.addr = 0 <;> simp [hc, Nat.add_comm]

theorem length_childrenOf_le (lst : MngtNodeList) (addr : UInt16) :
    (lst.childrenOf addr).length ≤ 2 := by
  rw [MngtNodeList.childrenOf]
  split
  · exact Nat.zero_le _
  · exact (List.length_filter_le _ _).trans Vector.length_toList.le

/-- Each child takes two bytes of a record. -/
theorem length_flatMap_addrFormat (cells : List Child) :
    (cells.flatMap fun c => addrFormat c.addr c.cls.toUInt16).length = 2 * cells.length := by
  rw [List.length_flatMap]
  simp [Nat.mul_comm]

/-- A record has four bytes and two for each child. -/
theorem length_usiBytes (lst : MngtNodeList) (x : ℕ × SchNode) :
    (usiBytes lst x).length = 4 + 2 * (lst.childrenOf x.2.addr).length := by
  rw [usiBytes, List.length_append, length_flatMap_addrFormat]
  rfl

/-- The loop over the cells writes those that are not empty. -/
theorem holds_foldl_children (cells : List Child) (hw : w.Holds bs)
    (hlen : bs.length + 2 * (cells.filter fun c => c.addr ≠ 0).length < 256) :
    Writer.Holds (cells.foldl (fun w c =>
        if c.addr ≠ 0 then w.put (addrFormat c.addr c.cls.toUInt16) else w) w)
      (bs ++ (cells.filter fun c => c.addr ≠ 0).flatMap fun c =>
        addrFormat c.addr c.cls.toUInt16) := by
  induction cells generalizing w bs with
  | nil => simpa using hw
  | cons c cells ih =>
    rw [List.foldl_cons]
    by_cases hc : c.addr ≠ 0
    · rw [List.filter_cons_of_pos (by simpa using hc)] at hlen ⊢
      rw [List.length_cons] at hlen
      rw [if_pos hc, List.flatMap_cons, ← List.append_assoc]
      refine ih (hw.put le_rfl _ ?_) ?_
      · rw [length_addrFormat]
        omega
      · rw [List.length_append, length_addrFormat]
        omega
    · rw [List.filter_cons_of_neg (by simpa using hc)] at hlen ⊢
      rw [if_neg hc]
      exact ih hw hlen

/-- **A record is written as `usiBytes` says**, for a registered node. -/
theorem putUsi_spec (h : lst.Sound) (hn : (lst.registry n.addr).isSome) (grpIndex : ℕ)
    (hw : w.Holds bs) (hlen : bs.length + 8 < 256) :
    ∃ w', putUsi lst grpIndex n w = some w' ∧ w'.Holds (bs ++ usiBytes lst (grpIndex, n)) := by
  obtain ⟨e, he⟩ := Option.isSome_iff_exists.mp hn
  have hchildren := childrenOf_eq he
  have hnbo := (h.registry.wellFormed _ _ he).nboChildren_toNat
  have hle := length_childrenOf_le lst n.addr
  refine ⟨_, by rw [putUsi, dmNodeGetChildList_eq, he]; rfl, ?_⟩
  rw [usiBytes, ← List.append_assoc, ← List.append_assoc, ← List.append_assoc, hchildren, ← hnbo]
  rw [hchildren] at hle
  have hfix := ((hw.put le_rfl [UInt8.ofNat (pack [(grpIndex, 3), (e.nboChildren.toNat, 5)])]
    (by simp; omega)).put le_rfl [n.startLSI.toUInt8] (by simp; omega)).put le_rfl
    (addrFormat n.addr n.cls) (by simp; omega)
  exact holds_foldl_children _ hfix (by simp at hle ⊢; omega)

theorem length_usiBytes_le (lst : MngtNodeList) (x : ℕ × SchNode) :
    (usiBytes lst x).length ≤ 8 := by
  have := length_childrenOf_le lst x.2.addr
  rw [length_usiBytes]
  omega

/-! ## Walking the groups

The two loops write the records and count the entries down in one go. -/

/-- **The walk over one group** carries its first entries with a schedule to distribute, as many as
there are records left, and writes a record for each. -/
theorem usiLoop_spec (h : lst.Sound) (grpIndex : ℕ) {nodes : List SchNode}
    (hnodes : ∀ n ∈ nodes, (lst.registry n.addr).isSome) {k : UInt8} (hw : w.Holds bs)
    (hlen : bs.length + 8 * k.toNat < 256) :
    ∃ k' w', usiLoop lst grpIndex nodes k w list = some (k', w',
        ((nodes.filter fun n => n.Pending).take k.toNat).foldl carry list) ∧
      k'.toNat = k.toNat - (nodes.filter fun n => n.Pending).length ∧
      w'.Holds (bs ++ (((nodes.filter fun n => n.Pending).take k.toNat).map
        (Prod.mk grpIndex)).flatMap (usiBytes lst)) := by
  induction nodes generalizing k w bs list with
  | nil => exact ⟨k, w, by rw [List.filter_nil, List.take_nil]; rfl, rfl, by simpa using hw⟩
  | cons n nodes ih =>
    rw [usiLoop]
    by_cases hk : k = 0
    · rw [if_pos hk]
      subst hk
      exact ⟨0, w, by rw [UInt8.toNat_zero, List.take_zero]; rfl, (Nat.zero_sub _).symm,
        by simpa using hw⟩
    · rw [if_neg hk]
      have hk0 : k.toNat ≠ 0 := fun h0 => hk (UInt8.toNat_inj.mp h0)
      have hrest : ∀ x ∈ nodes, (lst.registry x.addr).isSome := fun x hx =>
        hnodes x (List.mem_cons_of_mem n hx)
      by_cases hp : n.Pending
      · have hk1 : (k - 1).toNat = k.toNat - 1 := by
          have := k.toNat_lt
          rw [UInt8.toNat_sub, UInt8.toNat_one]
          omega
        obtain ⟨w₁, hput, hw₁⟩ := putUsi_spec h (hnodes n List.mem_cons_self) grpIndex hw (by omega)
        have hrec := length_usiBytes_le lst (grpIndex, n)
        obtain ⟨k', w', hloop, hk', hw'⟩ := @ih (carry list n) (w₁) _ hrest _ hw₁ (by
          rw [List.length_append, hk1]
          omega)
        rw [hk1] at hloop hk' hw'
        obtain ⟨j, hj⟩ := Nat.exists_eq_succ_of_ne_zero hk0
        have htake : ((n :: nodes).filter fun n => n.Pending).take k.toNat
            = n :: (nodes.filter fun n => n.Pending).take (k.toNat - 1) := by
          rw [List.filter_cons_of_pos (by simpa using hp), hj, List.take_succ_cons]
          rfl
        refine ⟨k', w', ?_, ?_, ?_⟩
        · rw [if_pos hp, hput, Option.bind_some, htake, List.foldl_cons]
          exact hloop
        · rw [hk', List.filter_cons_of_pos (by simpa using hp), List.length_cons]
          omega
        · rw [htake, List.map_cons, List.flatMap_cons, ← List.append_assoc]
          exact hw'
      · rw [if_neg hp, List.filter_cons_of_neg (by simpa using hp)]
        exact ih hrest hw hlen

/-- **The loop over the groups** does so for all of them. -/
theorem usiGroups_spec (h : lst.Sound) (hS : ∀ n ∈ bookings S, (lst.registry n.addr).isSome)
    (grpIndex : ℕ) {k : UInt8} (hw : w.Holds bs) (hlen : bs.length + 8 * k.toNat < 256) :
    ∃ w', usiGroups lst grpIndex S k w = some (w', carriedGroups k.toNat S) ∧
      w'.Holds (bs ++ ((pendingFrom grpIndex S).take k.toNat).flatMap (usiBytes lst)) := by
  induction S generalizing grpIndex k w bs with
  | nil => exact ⟨w, rfl, by simpa [pendingFrom] using hw⟩
  | cons list lists ih =>
    rw [bookings_cons] at hS
    obtain ⟨k', w₁, hloop, hk', hw₁⟩ := @usiLoop_spec list lst w bs h grpIndex
      list.nodes (fun n hn => hS n (List.mem_append_left _ hn)) k hw hlen
    have hbytes : ∀ xs : List (ℕ × SchNode), (xs.flatMap (usiBytes lst)).length ≤ 8 * xs.length :=
      fun xs => by
        induction xs with
        | nil => exact le_rfl
        | cons x xs ihx =>
          have := length_usiBytes_le lst x
          rw [List.flatMap_cons, List.length_append, List.length_cons]
          omega
    have hlen₁ := hbytes (((list.nodes.filter fun n => n.Pending).take k.toNat).map
      (Prod.mk grpIndex))
    rw [List.length_map, List.length_take] at hlen₁
    obtain ⟨w', hgroups, hw'⟩ := ih (fun n hn => hS n (List.mem_append_right _ hn))
      (grpIndex + 1) hw₁ (by
        rw [List.length_append, hk']
        omega)
    refine ⟨w', ?_, ?_⟩
    · rw [usiGroups, hloop, Option.bind_some]
      simp only [hgroups, hk', Option.map_some]
      rfl
    · rw [pendingFrom, List.take_append, List.flatMap_append, ← List.append_assoc, List.length_map,
        ← List.map_take, ← hk']
      exact hw'

/-- The last LSIs are written one byte each. -/
theorem holds_foldl_lastLsi (S : List SchList) (hw : w.Holds bs)
    (hlen : bs.length + S.length < 256) :
    Writer.Holds (S.foldl (fun w list => w.put [(smGetLastAsgLsi list).toUInt8]) w)
      (bs ++ S.map fun list => (smGetLastAsgLsi list).toUInt8) := by
  induction S generalizing w bs with
  | nil => simpa using hw
  | cons list lists ih =>
    rw [List.length_cons] at hlen
    rw [List.foldl_cons, List.map_cons, List.append_cons]
    refine ih (hw.put le_rfl _ ?_) ?_
    · rw [List.length_singleton]
      omega
    · rw [List.length_append, List.length_singleton]
      omega

/-- **What a command message does**, in any consistent state: its bytes are `cmBytes`, and the
entries it carries have one less to be distributed. -/
theorem cm_spec (h : s.Consistent p) (msg : MsgInfo) (seq : UInt16) (addInfo : UInt8) :
    ∃ w : Payload, prepareDownlinkMsgPayload p s msg .dlCm seq addInfo
        = some (finishMsg w, addInfo,
            { s with SCHEDULES := carriedGroups s.usiCount s.SCHEDULES }) ∧
      w.Holds (cmBytes p s seq) := by
  have hcount := h.toNat_nboRelaysUsi
  have hle := usiCount_le s
  have hgroups := h.groups
  have hch := p.nboChannels_bounds
  have hlast := holds_foldl_lastLsi s.SCHEDULES
    ((holds_header msg p .dlCm).put le_rfl (le16 seq) (by simp)) (by simp; omega)
  rw [prepareDownlinkMsgPayload, cmBytes]
  simp only [prepareCm]
  by_cases hpos : 0 < nboRelaysUsi 0 s.SCHEDULES
  · have hpos' : 0 < s.usiCount := hcount ▸ UInt8.lt_iff_toNat_lt.mp hpos
    have hctrl := hlast.put le_rfl
      [UInt8.ofNat (pack [(1, 1), ((nboRelaysUsi 0 s.SCHEDULES).toNat, 4), (0, 3)])]
      (by simp; omega)
    obtain ⟨w, hw, hbytes⟩ := usiGroups_spec h.sound
      (fun n hn => by
        obtain ⟨e, he, -⟩ := h.onehop n hn
        rw [he]
        rfl) 0 (k := nboRelaysUsi 0 s.SCHEDULES) hctrl (by simp; omega)
    refine ⟨w, ?_, ?_⟩
    · rw [if_pos hpos, hw, hcount]
      rfl
    · rw [if_pos hpos', ← hcount]
      rw [hcount] at hbytes ⊢
      exact hbytes
  · have hzero : s.usiCount = 0 := by
      rw [UInt8.lt_iff_toNat_lt, hcount, UInt8.toNat_zero] at hpos
      omega
    refine ⟨_, by rw [if_neg hpos, hzero, carriedGroups_zero]; rfl, ?_⟩
    rw [Mac.selected, hzero, if_neg (lt_irrefl 0), List.take_zero, List.flatMap_nil,
      List.append_nil]
    exact hlast.put le_rfl _ (by simp; omega)

end LoRaGwSv
