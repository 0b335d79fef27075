import LoRaGwSv.Server.Booking

/-!
# Server/Believed — a node believed scheduled has its slots

`schFlag` says in NODES that a node has slots; the slots are booked in a group.  Of the operations
only a refused two-hop registration can part the two: it gives up the slots of its node before it
looks for the parent.  `MacOp.KeepsBooked` is the exact condition.
-/

namespace LoRaGwSv

open Function

/-- Every one-hop node marked scheduled has exactly one booking, of the slots it demands. -/
def Mac.Believed (s : Mac) : Prop :=
  ∀ n ∈ s.NODES.nodes, n.genInfo.type = .onehop → n.schFlag = true →
    ∃ b, (bookings s.SCHEDULES).filter (fun b => b.addr = n.addr) = [b] ∧
      b.slotDemand = n.genInfo.slotDmn.toUInt16

/-- What an operation must find: a two-hop registration of a node that is one-hop and marked
scheduled has a parent with room for it. -/
def MacOp.KeepsBooked (s : Mac) : MacOp → Prop
  | .register r => r.node.genInfo.type = .twohop →
      (∃ n ∈ s.NODES.nodes, n.addr = r.node.addr ∧ n.genInfo.type = .onehop ∧ n.schFlag = true) →
      ∃ parent ∈ s.NODES.nodes, parent.addr = r.node.parrentAddr ∧
        parent.HasRoomFor r.node.addr
  | .schedule _ => True
  | .reset => True

/-! ## The same, in the registry

The flag is in NODES and the booking in a group, so what is kept is a relation of the two. -/

/-- An entry marked scheduled is booked. -/
def MngtNode.BookedIn (S : List SchList) (e : MngtNode) : Prop :=
  e.genInfo.type = .onehop → e.schFlag = true →
    ∃ b ∈ bookings S, b.addr = e.addr ∧ b.slotDemand = e.genInfo.slotDmn.toUInt16

/-- Every entry marked scheduled is booked. -/
def Registry.BookedIn (S : List SchList) (m : Registry) : Prop :=
  ∀ a e, m a = some e → e.BookedIn S

variable {S : List SchList} {m : Registry} {n e : MngtNode} {p : MacParams} {s s' : Mac}

/-- What NODES believes is told by the registry. -/
theorem believed_iff (hd : s.NODES.Distinct) (h : NoDoubleBooking s.SCHEDULES) :
    s.Believed ↔ s.NODES.registry.BookedIn s.SCHEDULES := by
  refine Iff.trans ?_ (hd.forall_mem_iff (P := fun n => n.BookedIn s.SCHEDULES) fun _ => Iff.rfl)
  refine forall₂_congr fun n _ => imp_congr_right fun _ => imp_congr_right fun _ => ?_
  exact exists_congr fun b => by rw [Keyed.filter_eq_singleton h, and_assoc]

/-- Giving up the slots of one address leaves the bookings of the others. -/
theorem MngtNode.BookedIn.remove (h : e.BookedIn S) (hS : NoDoubleBooking S) {addr : UInt16}
    (hne : e.addr ≠ addr) : e.BookedIn (S.map fun list => smRemoveOneNode list addr) := by
  intro honehop hflag
  obtain ⟨b, hb, haddr, hdemand⟩ := h honehop hflag
  exact ⟨b, (mem_bookings_remove hS).mpr ⟨hb, haddr ▸ hne⟩, haddr, hdemand⟩

/-- A node that is not marked need not be booked. -/
theorem bookedIn_of_schFlag (h : e.schFlag = false) : e.BookedIn S := fun _ hflag =>
  absurd (h.symm.trans hflag) (by decide)

/-- A two-hop node need not be booked, either. -/
theorem bookedIn_of_twohop (h : e.genInfo.type = .twohop) : e.BookedIn S := fun honehop _ =>
  absurd (h.symm.trans honehop) (by decide)

/-! ## One turn of the loop of `schedule`

A turn books and marks, or it does neither. -/

/-- A turn of the loop marks a node only where it has booked it. -/
theorem bookedIn_turn {phase : OperationPhase} (h : s.Consistent p)
    (hn : n ∈ s.NODES.nodes) (hflag : n.schFlag = false) (hturn : Turn phase s n s')
    (hbook : s.NODES.registry.BookedIn s.SCHEDULES) :
    s'.NODES.registry.BookedIn s'.SCHEDULES := by
  have hentry := h.sound.distinct.registry_self hn
  cases hturn with
  | refused =>
    intro a e he
    rcases eq_or_ne e.addr n.addr with heq | hne
    · have he' : s.NODES.registry a = some e := he
      obtain rfl : n.addr = a := heq.symm.trans (h.sound.registry.keyed a e he')
      have hsame : e = n.profile := Option.some.inj (he'.symm.trans hentry)
      exact bookedIn_of_schFlag (hsame ▸ hflag)
    · exact MngtNode.BookedIn.remove (hbook a e he) h.once hne
  | booked hgroup hne hsch hsound hreg =>
    intro a e he honehop hflag'
    rw [hreg, update_apply] at he
    split at he
    case isTrue =>
      obtain rfl := Option.some.inj he
      exact ⟨_, (mem_bookings_booked h.once hgroup hsch).mpr (Or.inl rfl), rfl, rfl⟩
    case isFalse ha =>
      have hne' : e.addr ≠ n.addr := (h.sound.registry.keyed a e he).symm ▸ ha
      obtain ⟨b, hb, haddr, hdemand⟩ := hbook a e he honehop hflag'
      exact ⟨b, (mem_bookings_booked h.once hgroup hsch).mpr (Or.inr ⟨hb, haddr ▸ hne'⟩), haddr,
        hdemand⟩

theorem bookedIn_schedule (h : s.Consistent p) (phase : OperationPhase)
    (hbook : s.NODES.registry.BookedIn s.SCHEDULES) :
    ∃ s', schedule phase s = some s' ∧ s'.Consistent p ∧
      s'.NODES.registry.BookedIn s'.SCHEDULES := by
  refine schedule_rule (I := fun s => s.Consistent p ∧ s.NODES.registry.BookedIn s.SCHEDULES)
    (fun s i hs => ?_) ⟨h, hbook⟩
  obtain ⟨s', hs', rfl | ⟨n, hn, honehop, hflag, hturn⟩⟩ := scheduleStep_cases hs.1.sound phase i
  · exact ⟨s', hs', hs⟩
  · exact ⟨s', hs', hs.1.turn hn honehop hturn, bookedIn_turn hs.1 hn hflag hturn hs.2⟩

/-! ## One registration

A one-hop node that registers starts afresh, with its flag down.  A two-hop one gives up its slots
before its parent is asked, so a refusal leaves a flag without a booking. -/

/-- What `MacOp.KeepsBooked` says of a registration, in the registry. -/
def Registry.KeepsBooked (m : Registry) (n : MngtNode) : Prop :=
  n.genInfo.type = .twohop →
    (∃ e, m n.addr = some e ∧ e.genInfo.type = .onehop ∧ e.schFlag = true) → (m.adopt n).isSome

theorem Registry.BookedIn.register_onehop (h : m.BookedIn S) (hn : n.Fresh)
    (htype : n.genInfo.type = .onehop) : (m.register n).BookedIn S := by
  intro a e he
  obtain ⟨rfl, rfl⟩ | ⟨_, _, -, htwo, -⟩ | he := register_eq_some he
  · exact bookedIn_of_schFlag hn.schFlag_eq
  · exact absurd (htype.symm.trans htwo) (by decide)
  · exact h a e he

/-- **When a two-hop registration keeps flags and bookings together.** -/
theorem Registry.BookedIn.register_twohop (h : m.BookedIn S) (hm : m.Sound)
    (hS : NoDoubleBooking S) (htype : n.genInfo.type = .twohop) :
    (m.register n).BookedIn (S.map fun list => smRemoveOneNode list n.addr) ↔
      m.KeepsBooked n := by
  constructor
  · rintro hbook - ⟨e, he, honehop, hflag⟩
    by_contra hnone
    have hsame : m.register n = m := by
      obtain ⟨hone, -⟩ | ⟨parent, parent', -, hparent, hadd, -⟩ | ⟨-, -, heq⟩ := register_cases m n
      · exact absurd (htype.symm.trans hone) (by decide)
      · exact absurd (by rw [adopt, hparent, Option.bind_some, hadd]; rfl) hnone
      · exact heq
    rw [hsame] at hbook
    obtain ⟨b, hb, haddr, -⟩ := hbook _ e he honehop hflag
    exact ((mem_bookings_remove hS).mp hb).2 (haddr.trans (hm.keyed _ e he))
  · intro hkeep a e he
    obtain ⟨hone, -⟩ | ⟨parent, parent', -, -, -, heq⟩ | ⟨-, hnone, heq⟩ := register_cases m n
    · exact absurd (htype.symm.trans hone) (by decide)
    · rw [heq, update_apply, update_apply] at he
      split at he
      case isTrue =>
        obtain rfl := Option.some.inj he
        exact bookedIn_of_twohop htype
      case isFalse hne =>
        split at he
        case isTrue =>
          obtain rfl := Option.some.inj he
          exact bookedIn_of_schFlag rfl
        case isFalse => exact (h a e he).remove hS ((hm.keyed a e he).symm ▸ hne)
    · rw [heq] at he
      have hkey := hm.keyed a e he
      rcases eq_or_ne a n.addr with rfl | hne
      · intro honehop hflag
        have hsome := hkeep htype ⟨e, he, honehop, hflag⟩
        exact absurd hsome (by rw [hnone]; decide)
      · exact (h a e he).remove hS (hkey.symm ▸ hne)

/-- Whether a registration keeps a marked node booked is told by the registry, too. -/
theorem keepsBooked_registry (hd : s.NODES.Distinct) (r : Registration) :
    s.NODES.registry.KeepsBooked r.node ↔ (MacOp.register r).KeepsBooked s := by
  refine imp_congr_right fun _ => imp_congr ?_ ?_
  · exact hd.exists_registry_iff (P := fun e => e.genInfo.type = .onehop ∧ e.schFlag = true)
      fun _ => Iff.rfl
  · exact Registry.isSome_adopt.trans (hd.exists_registry_iff fun _ => Iff.rfl)

/-! ## Any history -/

/-- A scheduled one-hop node is listed by a relay that is not registered. -/
theorem not_believed_unknown_relay :
    ¬ Runs.Always MacOp.step Mac.Believed
      (twohopLoRaMacInit macDefaults)
      [.register (.itself (.ofBits 1 0)), .schedule .dataColl,
        .register (.listed (.ofBits 1 0) 2)] := by
  refine Runs.not_always_of_last (fun s => ∀ n ∈ s.NODES.nodes, n.genInfo.type = .onehop →
    n.schFlag = true → bookings s.SCHEDULES ≠ []) (fun s h n hn honehop hflag hnil => ?_)
    (by decide +kernel)
  obtain ⟨b, hb, -⟩ := h n hn honehop hflag
  rw [hnil] at hb
  exact absurd hb (List.cons_ne_nil _ _).symm

/-- **A node believed scheduled has its slots all along a history exactly if no two-hop registration
of a scheduled one-hop node is refused in it.** -/
theorem believed_run_iff (p : MacParams) (ops : List MacOp) :
    Runs.Always MacOp.step Mac.Believed (twohopLoRaMacInit p) ops ↔
      Runs.EachStep MacOp.step MacOp.KeepsBooked (twohopLoRaMacInit p) ops := by
  refine Runs.always_iff_eachStep (I := Mac.Consistent p) (fun s op hs hQ => ?_)
    (consistent_twohopLoRaMacInit p) (fun n hn => absurd hn List.not_mem_nil) ops
  have hbook := (believed_iff hs.sound.distinct hs.once).mp hQ
  cases op with
  | register r =>
    obtain ⟨s', hs', hcons⟩ := hs.register r
    obtain ⟨t, ht, -, hreg, -, hsch⟩ := Mac.register_spec hs.sound r
    obtain rfl : s' = t := Option.some.inj (hs'.symm.trans ht)
    refine ⟨s', hs', ?_, fun _ => hcons⟩
    rw [believed_iff hcons.sound.distinct hcons.once, hreg,
      ← keepsBooked_registry hs.sound.distinct]
    cases htype : r.node.genInfo.type with
    | onehop =>
      simp only [htype] at hsch
      rw [hsch]
      exact iff_of_true (hbook.register_onehop r.fresh_node htype)
        fun htwo => absurd (htype.symm.trans htwo) (by decide)
    | twohop =>
      simp only [htype] at hsch
      rw [hsch]
      exact hbook.register_twohop hs.sound.registry hs.once htype
  | schedule phase =>
    obtain ⟨s', hs', hcons, hbook'⟩ := bookedIn_schedule hs phase hbook
    exact ⟨s', hs', iff_of_true ((believed_iff hcons.sound.distinct hcons.once).mpr hbook') trivial,
      fun _ => hcons⟩
  | reset =>
    refine ⟨_, rfl, iff_of_true (fun n hn _ hflag => ?_) trivial, fun _ => hs.resetSchedule⟩
    obtain ⟨n, -, rfl⟩ := List.mem_map.mp hn
    exact absurd (show false = true from hflag) (by decide)

end LoRaGwSv
