import LoRaGwSv.Server.Calls

/-!
# Server/Settled — what `schedule` leaves alone

`schedule` gives up the slots of the nodes that are not marked scheduled and books them anew.  The
entries of the others stay in their groups as they are, and every entry afterwards is one of those
or belongs to a node that was not marked (`schedule_settled`).
-/

namespace LoRaGwSv

open Function

/-- The entry is one of group `group`. -/
def BookedAt (S : List SchList) (group : ℕ) (b : SchNode) : Prop :=
  ∃ list, S[group]? = some list ∧ b ∈ list.nodes

/-- NODES has a node at `addr` with this `schFlag`. -/
def MngtNodeList.Flagged (lst : MngtNodeList) (addr : UInt16) (schFlag : Bool) : Prop :=
  ∃ n ∈ lst.nodes, n.addr = addr ∧ n.schFlag = schFlag

variable {p : MacParams} {phase : OperationPhase} {s t t' : Mac} {n : MngtNode} {S : List SchList}
  {list list' : SchList} {group i : ℕ} {b : SchNode} {addr : UInt16} {lst : MngtNodeList}

/-! ## The entries of one group -/

theorem bookings_of_bookedAt (h : BookedAt S group b) : b ∈ bookings S := by
  obtain ⟨list, hlist, hb⟩ := h
  exact mem_bookings.mpr ⟨list, List.mem_of_getElem? hlist, hb⟩

/-- Giving up the slots of an address takes its entry out of every group, and no other. -/
theorem bookedAt_remove (h : NoDoubleBooking S) :
    BookedAt (S.map fun list => smRemoveOneNode list addr) group b ↔
      BookedAt S group b ∧ b.addr ≠ addr := by
  have hmem : ∀ list, S[group]? = some list →
      (b ∈ (smRemoveOneNode list addr).nodes ↔ b ∈ list.nodes ∧ b.addr ≠ addr) := by
    intro list hlist
    rw [nodes_smRemoveOneNode,
      Keyed.erase_eq_filter (Keyed.nodup_piece h (List.mem_of_getElem? hlist)), List.mem_filter,
      decide_eq_true_eq]
  constructor
  · rintro ⟨list', hlist', hb⟩
    rw [List.getElem?_map] at hlist'
    obtain ⟨list, hlist, rfl⟩ := Option.map_eq_some_iff.mp hlist'
    obtain ⟨hb, hne⟩ := (hmem list hlist).mp hb
    exact ⟨⟨list, hlist, hb⟩, hne⟩
  · rintro ⟨⟨list, hlist, hb⟩, hne⟩
    exact ⟨_, by rw [List.getElem?_map, hlist]; rfl, (hmem list hlist).mpr ⟨hb, hne⟩⟩

/-- Booking a node in a group gives that group its entry, and changes no other. -/
theorem bookedAt_set (hi : S[i]? = some list) {node : SchNode} :
    BookedAt (S.set i (smAddNodeToScheduleList list node)) group b ↔
      group = i ∧ b = node ∨ BookedAt S group b := by
  have hmem : b ∈ (smAddNodeToScheduleList list node).nodes ↔ b = node ∨ b ∈ list.nodes :=
    List.mem_orderedInsert _
  have hlt := (List.getElem?_eq_some_iff.mp hi).1
  rcases eq_or_ne group i with rfl | hne
  · constructor
    · rintro ⟨list', hlist', hb⟩
      rw [List.getElem?_set_self hlt] at hlist'
      obtain rfl := Option.some.inj hlist'
      exact (hmem.mp hb).imp (fun hb => ⟨rfl, hb⟩) fun hb => ⟨list, hi, hb⟩
    · rintro (⟨-, hb⟩ | ⟨list', hlist', hb⟩)
      · exact ⟨_, List.getElem?_set_self hlt, hmem.mpr (Or.inl hb)⟩
      · obtain rfl := Option.some.inj (hi.symm.trans hlist')
        exact ⟨_, List.getElem?_set_self hlt, hmem.mpr (Or.inr hb)⟩
  · rw [BookedAt, List.getElem?_set_ne hne.symm]
    exact ⟨Or.inr, fun h => h.resolve_left fun h => hne h.1⟩

/-! ## What a flag says -/

theorem flagged_iff (hd : lst.Distinct) {flag : Bool} :
    lst.Flagged addr flag ↔ ∃ e, lst.registry addr = some e ∧ e.schFlag = flag :=
  (hd.exists_registry_iff fun _ => Iff.rfl).symm

/-! ## Since the start -/

/-- What the turns of `schedule` since `s` have left alone. -/
structure SettledSince (s t : Mac) : Prop where
  marked : ∀ addr, s.NODES.Flagged addr true → t.NODES.Flagged addr true
  unmarked : ∀ addr, t.NODES.Flagged addr false → s.NODES.Flagged addr false
  kept : ∀ group b, BookedAt s.SCHEDULES group b → s.NODES.Flagged b.addr true →
    BookedAt t.SCHEDULES group b
  origin : ∀ group b, BookedAt t.SCHEDULES group b →
    BookedAt s.SCHEDULES group b ∧ s.NODES.Flagged b.addr true ∨ s.NODES.Flagged b.addr false

/-- Where nothing happens all is settled. -/
theorem settledSince_refl (h : s.Consistent p) : SettledSince s s where
  marked _ h := h
  unmarked _ h := h
  kept _ _ h _ := h
  origin group b hb := by
    obtain ⟨e, he, -⟩ := h.onehop b (bookings_of_bookedAt hb)
    cases hflag : e.schFlag with
    | true => exact Or.inl ⟨hb, (flagged_iff h.sound.distinct).mpr ⟨e, he, hflag⟩⟩
    | false => exact Or.inr ((flagged_iff h.sound.distinct).mpr ⟨e, he, hflag⟩)

/-- **A turn is for a node that was not marked**, so it leaves alone what the turns
before it did. -/
theorem SettledSince.turn (h : SettledSince s t) (hs : s.Consistent p) (hcons : t.Consistent p)
    (hn : n ∈ t.NODES.nodes) (hflag : n.schFlag = false) (hturn : Turn phase t n t') :
    SettledSince s t' := by
  have hthis : s.NODES.Flagged n.addr false := h.unmarked n.addr ⟨n, hn, rfl, hflag⟩
  have hother : ∀ addr, s.NODES.Flagged addr true → addr ≠ n.addr := fun addr hmarked heq => by
    obtain ⟨e, he, hetrue⟩ := (flagged_iff hs.sound.distinct).mp hmarked
    obtain ⟨e', he', hefalse⟩ := (flagged_iff hs.sound.distinct).mp hthis
    rw [heq] at he
    obtain rfl := Option.some.inj (he.symm.trans he')
    exact absurd (hetrue.symm.trans hefalse) (by decide)
  have hkept : ∀ group b, BookedAt s.SCHEDULES group b → s.NODES.Flagged b.addr true →
      BookedAt (removeNodeFromSchedule t n.addr).SCHEDULES group b := fun group b hb hmarked =>
    (bookedAt_remove hcons.once).mpr ⟨h.kept group b hb hmarked, hother _ hmarked⟩
  have horigin : ∀ group b, BookedAt (removeNodeFromSchedule t n.addr).SCHEDULES group b →
      BookedAt s.SCHEDULES group b ∧ s.NODES.Flagged b.addr true ∨ s.NODES.Flagged b.addr false :=
    fun group b hb => h.origin group b ((bookedAt_remove hcons.once).mp hb).1
  cases hturn with
  | refused => exact ⟨h.marked, h.unmarked, hkept, horigin⟩
  | booked hgroup hne hsch hsound hreg =>
    refine ⟨fun addr hmarked => ?_, fun addr hunmarked => ?_, fun group b hb hmarked => ?_,
      fun group b hb => ?_⟩
    · rw [flagged_iff hsound.distinct, hreg, update_of_ne (hother addr hmarked),
        ← flagged_iff hcons.sound.distinct]
      exact h.marked addr hmarked
    · rw [flagged_iff hsound.distinct, hreg] at hunmarked
      rcases Registry.exists_update.mp hunmarked with ⟨rfl, -⟩ | ⟨-, hunmarked⟩
      · exact hthis
      · exact h.unmarked addr ((flagged_iff hcons.sound.distinct).mpr hunmarked)
    · rw [hsch]
      exact (bookedAt_set hgroup).mpr (Or.inr (hkept group b hb hmarked))
    · rw [hsch] at hb
      rcases (bookedAt_set hgroup).mp hb with ⟨-, rfl⟩ | hb
      · exact Or.inr hthis
      · exact horigin group b hb

/-- **`schedule` leaves the entries of scheduled nodes alone**, in any reachable state: each stays
in its group as it is, and any entry afterwards is one of them or for a node that was not
scheduled. -/
theorem schedule_settled {s : InputState} (h : Reachable p s) (phase : OperationPhase) :
    ∃ s', schedule phase s.mac = some s' ∧
      (∀ group b, BookedAt s.mac.SCHEDULES group b → s.mac.NODES.Flagged b.addr true →
        BookedAt s'.SCHEDULES group b) ∧
      ∀ group b, BookedAt s'.SCHEDULES group b →
        BookedAt s.mac.SCHEDULES group b ∧ s.mac.NODES.Flagged b.addr true ∨
          s.mac.NODES.Flagged b.addr false := by
  have hcons := h.inv.inOrder.consistent
  obtain ⟨s', hs', -, hsince⟩ := schedule_rule (I := fun t : Mac => t.Consistent p ∧
      SettledSince s.mac t) (fun t i ht => by
    obtain ⟨t', ht', rfl | ⟨n, hn, honehop, hflag, hturn⟩⟩ := scheduleStep_cases ht.1.sound phase i
    · exact ⟨t', ht', ht⟩
    · exact ⟨t', ht', ht.1.turn hn honehop hturn, ht.2.turn hcons ht.1 hn hflag hturn⟩)
    ⟨hcons, settledSince_refl hcons⟩
  exact ⟨s', hs', hsince.kept, hsince.origin⟩

/-- A scheduled node, and one that has registered since. -/
theorem schedule_settled_two :
    ∃ s, Runs.run (Call.step fourSlots) (serverStart fourSlots)
        [.frame (.mac (.register (.itself (.ofBits 1 1)))),
          .frame (.mac (.schedule .scheduleDist)),
          .frame (.mac (.register (.itself (.ofBits 2 0))))] = some s ∧
      ∃ s', schedule .dataColl s.mac = some s' ∧
        (∀ group b, BookedAt s.mac.SCHEDULES group b → s.mac.NODES.Flagged b.addr true →
          BookedAt s'.SCHEDULES group b) ∧
        ∀ group b, BookedAt s'.SCHEDULES group b →
          BookedAt s.mac.SCHEDULES group b ∧ s.mac.NODES.Flagged b.addr true ∨
            s.mac.NODES.Flagged b.addr false := by
  obtain ⟨s, hs⟩ := Option.isSome_iff_exists.mp (show (Runs.run (Call.step fourSlots)
    (serverStart fourSlots) [.frame (.mac (.register (.itself (.ofBits 1 1)))),
      .frame (.mac (.schedule .scheduleDist)),
      .frame (.mac (.register (.itself (.ofBits 2 0))))]).isSome = true by decide +kernel)
  exact ⟨s, hs, schedule_settled ⟨_, hs⟩ .dataColl⟩

end LoRaGwSv
