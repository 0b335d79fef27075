import LoRaGwSv.Server.Booking

/-!
# Server/Inserted — the entries one call of `schedule` makes

`schedule` marks exactly the nodes it books (`NewlyScheduled`).  After it, the entry of such a node
is new and is to be distributed as often as the phase says; every other entry was there before.
-/

namespace LoRaGwSv

open Function

/-- The node at `addr` is marked scheduled. -/
def MngtNodeList.scheduled (lst : MngtNodeList) (addr : UInt16) : Bool :=
  (getNodeReferenceByAddress lst addr).any fun n => n.schFlag

/-- The node at `addr` is marked scheduled in `s'` and was not in `s`. -/
def NewlyScheduled (s s' : Mac) (addr : UInt16) : Prop :=
  s.NODES.scheduled addr = false ∧ s'.NODES.scheduled addr = true

instance (s s' : Mac) (addr : UInt16) : Decidable (NewlyScheduled s s' addr) :=
  inferInstanceAs (Decidable (_ ∧ _))

/-- What `schedule` has done since state `s`, at any of its turns. -/
structure ScheduledSince (phase : OperationPhase) (s s' : Mac) : Prop where
  kept : ∀ addr, s.NODES.scheduled addr = true → s'.NODES.scheduled addr = true
  inserted : ∀ b ∈ bookings s'.SCHEDULES, NewlyScheduled s s' b.addr →
    b.nboSchDist = phase.nboSchDist
  old : ∀ b ∈ bookings s'.SCHEDULES, ¬ NewlyScheduled s s' b.addr → b ∈ bookings s.SCHEDULES
  rnl : s'.RNL = s.RNL

variable {p : MacParams} {phase : OperationPhase} {s t t' : Mac} {n : MngtNode}

/-- Whether a node is scheduled is told by the registry. -/
theorem scheduled_registry (lst : MngtNodeList) (addr : UInt16) :
    lst.scheduled addr = (lst.registry addr).any fun e => e.schFlag := by
  rw [MngtNodeList.scheduled, registry_eq, Option.any_map]
  rfl

/-- Where nothing happens nothing is inserted. -/
theorem scheduledSince_refl (phase : OperationPhase) (s : Mac) : ScheduledSince phase s s where
  kept _ h := h
  inserted _ _ h := absurd (h.1.symm.trans h.2) (by decide)
  old _ hb _ := hb
  rnl := rfl

/-- A node that is booked in a turn was not marked before. -/
theorem scheduled_of_schFlag (hd : t.NODES.Distinct) (hn : n ∈ t.NODES.nodes)
    (hflag : n.schFlag = false) : t.NODES.scheduled n.addr = false := by
  rw [scheduled_registry, hd.registry_self hn]
  exact hflag

/-- Booking a node marks it scheduled, and no other. -/
theorem scheduled_booked (hreg : t'.NODES.registry
      = update t.NODES.registry n.addr (some { n.profile with schFlag := true })) :
    t'.NODES.scheduled n.addr = true ∧
      ∀ addr, addr ≠ n.addr → t'.NODES.scheduled addr = t.NODES.scheduled addr := by
  constructor
  · rw [scheduled_registry, hreg, update_self]
    rfl
  · intro addr hne
    rw [scheduled_registry, scheduled_registry, hreg, update_of_ne hne]

/-- **A turn of `schedule` inserts the entry of the node that it marks**, and no other. -/
theorem ScheduledSince.turn (h : ScheduledSince phase s t) (hcons : t.Consistent p)
    (hn : n ∈ t.NODES.nodes) (hflag : n.schFlag = false) (hturn : Turn phase t n t') :
    ScheduledSince phase s t' := by
  have hunmarked := scheduled_of_schFlag hcons.sound.distinct hn hflag
  cases hturn with
  | refused =>
    exact ⟨h.kept, fun b hb => h.inserted b ((mem_bookings_remove hcons.once).mp hb).1,
      fun b hb => h.old b ((mem_bookings_remove hcons.once).mp hb).1, h.rnl⟩
  | booked hgroup hne hsch hsound hreg hrnl =>
    obtain ⟨hself, hother⟩ := scheduled_booked hreg
    have hunmarked₀ : s.NODES.scheduled n.addr = false :=
      Bool.eq_false_iff.mpr fun hmarked =>
        absurd (hunmarked.symm.trans (h.kept n.addr hmarked)) (by decide)
    have hnewly : ∀ addr, addr ≠ n.addr →
        (NewlyScheduled s t' addr ↔ NewlyScheduled s t addr) := fun addr hne => by
      rw [NewlyScheduled, NewlyScheduled, hother addr hne]
    refine ⟨fun addr hmarked => ?_, fun b hb hnew => ?_, fun b hb hnew => ?_, hrnl.trans h.rnl⟩
    · rcases eq_or_ne addr n.addr with rfl | hne
      · exact hself
      · rw [hother addr hne]
        exact h.kept addr hmarked
    · rcases (mem_bookings_booked hcons.once hgroup hsch).mp hb with rfl | ⟨hb, hne⟩
      · rfl
      · exact h.inserted b hb ((hnewly _ hne).mp hnew)
    · rcases (mem_bookings_booked hcons.once hgroup hsch).mp hb with rfl | ⟨hb, hne⟩
      · exact absurd ⟨hunmarked₀, hself⟩ hnew
      · exact h.old b hb fun hnew' => hnew ((hnewly _ hne).mpr hnew')

/-- **What a call of `schedule` does to the entries.** -/
theorem schedule_spec (h : s.Consistent p) (phase : OperationPhase) :
    ∃ s', schedule phase s = some s' ∧ s'.Consistent p ∧ ScheduledSince phase s s' := by
  refine schedule_rule (I := fun t => t.Consistent p ∧ ScheduledSince phase s t)
    (fun t i ht => ?_) ⟨h, scheduledSince_refl phase s⟩
  obtain ⟨t', ht', rfl | ⟨n, hn, honehop, hflag, hturn⟩⟩ :=
    scheduleStep_cases ht.1.sound phase i
  · exact ⟨t', ht', ht⟩
  · exact ⟨t', ht', ht.1.turn hn honehop hturn, ht.2.turn ht.1 hn hflag hturn⟩

end LoRaGwSv
