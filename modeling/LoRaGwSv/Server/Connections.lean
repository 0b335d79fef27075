import Mathlib.Data.Finset.Basic
import LoRaGwSv.Server.Routes

/-!
# Server/Connections — the gateways of the server (`lora_network_server.c`)

`thread_inputstream` waits with `select` for what the gateways send, and adds and removes them as
they connect and close.  When `accept` or the allocation of a gateway fails it goes on as if nothing
had happened, so that a descriptor is watched whose gateway is not in the list, or the set of
descriptors is written in front of its start.

As long as neither fails, **what is watched is handled**: a descriptor that `select` reports is that
of a gateway in the list, so nothing that arrives stays unread, and what arrives is handed over once
(`handled_run`).  **`thread_downstream` writes to the gateways in the list and to no others**, if no
gateway comes or goes while it does, and no `write` ends the process (`broadcast_run`).
-/

namespace LoRaGwSv

/-- `FD_SETSIZE`. -/
def fdSetSize : ℕ := 1024

/-- The thread; `adding` is what `accept` has returned for a gateway that is not yet in `reads`.
Observed are the descriptors the system has given out (`opened`) and the calls of
`upstream_data_handle`. -/
structure Connections where
  devices : Devices
  server_socket : ℕ
  reads : Finset ℕ
  fdmax : ℕ
  adding : Option ℤ
  opened : Finset ℕ
  handled : List (ℕ × List UInt8)
deriving DecidableEq

/-- The thread at its start, with the standard streams and the welcome socket open. -/
def Connections.start (server_socket : ℕ) : Connections where
  devices := initDevices
  server_socket := server_socket
  reads := {0, server_socket}
  fdmax := server_socket
  adding := none
  opened := {0, 1, 2, server_socket}
  handled := []

variable {s t : Connections} {fd i : ℕ}

/-- The descriptors of gateways that are watched. -/
def Connections.peers (s : Connections) : Finset ℕ := (s.reads.erase 0).erase s.server_socket

/-! ## The thread

An event is one thing that happens to the thread: a connection, the end of one, bytes from one, or a
`read` that fails.  `accept` and `malloc` may fail too, and neither failure is handled. -/

/-- `AddGateWay`, when `malloc` has room for a gateway or has not: a socket that is known needs
none. -/
def addGateWayIf (room : Bool) (d : Devices) (clntsocket : ℤ) : Devices :=
  match room, findGateWay d clntsocket with
  | false, none => d
  | _, _ => addGateWay d clntsocket

/-- `new_gw_connection_handle`: `accept` gives out a descriptor that is not open, or fails with
-1. -/
def Connections.newGwConnectionHandle (s : Connections) (client_socket : Option ℕ) (room : Bool) :
    Option Connections :=
  if s.adding ≠ none ∨ ∃ fd ∈ client_socket, fd ∈ s.opened then none
  else
    let accepted : ℤ := client_socket.elim (-1) Nat.cast
    some
      { s with
        devices := addGateWayIf room s.devices accepted
        adding := some accepted
        opened := client_socket.elim s.opened fun fd => insert fd s.opened }

/-- `FD_SET` of the new gateway, and `fdmax`; in front of its start and behind its end the set is
overrun. -/
def Connections.watch (s : Connections) : Option Connections :=
  match s.adding with
  | none => none
  | some client_socket =>
    if client_socket < 0 ∨ fdSetSize ≤ client_socket then none
    else some
      { s with
        adding := none
        reads := insert client_socket.toNat s.reads
        fdmax := if s.fdmax < client_socket then client_socket.toNat else s.fdmax }

/-- `select` reports descriptor `i`, of neither the terminal nor the welcome socket. -/
def Connections.Ready (s : Connections) (i : ℕ) : Prop := s.adding = none ∧ i ∈ s.peers

instance : DecidablePred s.Ready := fun _ => inferInstanceAs (Decidable (_ ∧ _))

/-- `read` yields bytes; a descriptor that is no gateway's is not read. -/
def Connections.receive (s : Connections) (i : ℕ) (buff_in : List UInt8) : Option Connections :=
  if s.Ready i then
    match findGateWay s.devices i with
    | none => some s
    | some _ => some { s with handled := s.handled ++ [(i, buff_in)] }
  else none

/-- `read` yields -1, and the thread goes on. -/
def Connections.fail (s : Connections) (i : ℕ) : Option Connections :=
  if s.Ready i then some s else none

/-- `read` yields 0. -/
def Connections.close (s : Connections) (i : ℕ) : Option Connections :=
  if s.Ready i then
    match findGateWay s.devices i with
    | none => some s
    | some _ => some
      { s with
        devices := removeGateWay s.devices i
        reads := s.reads.erase i
        opened := s.opened.erase i }
  else none

/-- What the thread does next. -/
inductive NetworkEvent
  | newGwConnectionHandle (client_socket : Option ℕ) (room : Bool)
  | watch
  | receive (i : ℕ) (buff_in : List UInt8)
  | fail (i : ℕ)
  | close (i : ℕ)
deriving DecidableEq

/-- What the thread does when an event comes. -/
def Connections.step (s : Connections) : NetworkEvent → Option Connections
  | .newGwConnectionHandle client_socket room => s.newGwConnectionHandle client_socket room
  | .watch => s.watch
  | .receive i buff_in => s.receive i buff_in
  | .fail i => s.fail i
  | .close i => s.close i

/-- Neither `accept` nor `malloc` fails. -/
def NetworkEvent.Succeeds : NetworkEvent → Prop
  | .newGwConnectionHandle client_socket room => client_socket.isSome ∧ room
  | .watch => True
  | .receive _ _ => True
  | .fail _ => True
  | .close _ => True

/-- What arrives, and from whom. -/
def NetworkEvent.arrival : NetworkEvent → Option (ℕ × List UInt8)
  | .receive i buff_in => some (i, buff_in)
  | _ => none

/-- The descriptors that the loop of `thread_downstream` writes a datagram to, when nothing else
happens in between and no `write` ends the process. -/
def Connections.broadcast (s : Connections) : List ℕ :=
  (List.range (s.fdmax + 1)).filter fun j => (findGateWay s.devices j).isSome

/-! ## What the thread keeps

As long as nothing has failed, the gateways in the list are those whose descriptors are watched, the
one aside that is between its `accept` and its `FD_SET`. -/

/-- The gateways in the list are those that are watched, and the one that is being added. -/
structure Connections.Inv (s : Connections) : Prop where
  connected : ∀ socket : ℤ, s.devices.Connected socket ↔
    (∃ fd ∈ s.peers, (fd : ℤ) = socket) ∨ s.adding = some socket
  nodup : (s.devices.gateWays.map GateWayInfo.socket).Nodup
  le_fdmax : ∀ fd ∈ s.reads, fd ≤ s.fdmax
  welcome : 0 ∈ s.reads ∧ s.server_socket ∈ s.reads
  opened : s.reads ⊆ s.opened
  adding : ∀ socket, s.adding = some socket → ∃ fd : ℕ, (fd : ℤ) = socket ∧ fd ∈ s.opened ∧
    fd ∉ s.reads

/-! ### The list of gateways -/

/-- A socket that is known is not added again. -/
theorem nodup_addGateWay {d : Devices} (h : (d.gateWays.map GateWayInfo.socket).Nodup)
    (clntsocket : ℤ) : ((addGateWay d clntsocket).gateWays.map GateWayInfo.socket).Nodup := by
  rw [addGateWay]
  split
  case h_1 hnone =>
    refine List.nodup_cons.mpr ⟨fun hmem => ?_, h⟩
    obtain ⟨gw, hgw, hkey⟩ := List.mem_map.mp hmem
    exact Keyed.lookup_eq_none.mp hnone gw hgw hkey
  case h_2 =>
    have hkeys := @Keyed.map_update _ _ _ GateWayInfo.socket clntsocket d.gateWays _
      GateWayInfo.socket (fun _ => newGateWay clntsocket) fun _ hkey => hkey.symm
    rwa [hkeys]

/-- A gateway is in the list once, so removing it takes it out of it. -/
theorem removeGateWay_spec {d : Devices} (h : (d.gateWays.map GateWayInfo.socket).Nodup)
    (gone : ℤ) :
    ((removeGateWay d gone).gateWays.map GateWayInfo.socket).Nodup ∧
      ∀ socket, (removeGateWay d gone).Connected socket ↔ socket ≠ gone ∧ d.Connected socket := by
  rw [removeGateWay]
  split
  case h_1 hnone =>
    refine ⟨h, fun socket => (and_iff_right_of_imp ?_).symm⟩
    rintro ⟨gw, hgw⟩ rfl
    cases hnone.symm.trans hgw
  case h_2 =>
    refine ⟨Keyed.nodup_erase h gone, fun socket => ?_⟩
    have hlookup := @Keyed.lookup_erase _ _ _ GateWayInfo.socket gone socket d.gateWays h
    change (∃ gw, Keyed.lookup GateWayInfo.socket socket _ = some gw) ↔ _
    rw [removeGateWayFromEndDevice, hlookup]
    by_cases heq : socket = gone
    · simp [heq]
    · rw [if_neg heq]
      exact (and_iff_right heq).symm

/-! ### Any turn of the thread -/

/-- A gateway is watched beside the terminal and the welcome socket. -/
theorem Connections.mem_peers : fd ∈ s.peers ↔ fd ≠ s.server_socket ∧ fd ≠ 0 ∧ fd ∈ s.reads := by
  rw [peers, Finset.mem_erase, Finset.mem_erase]

/-- A descriptor that comes into the set, neither of the terminal nor the welcome socket, is that of
one gateway more. -/
theorem Connections.mem_peers_insert (hserver : t.server_socket = s.server_socket)
    (hreads : t.reads = insert i s.reads) (hne : i ≠ s.server_socket) (hne0 : i ≠ 0) :
    fd ∈ t.peers ↔ fd = i ∨ fd ∈ s.peers := by
  rw [mem_peers, mem_peers, hserver, hreads, Finset.mem_insert]
  constructor
  · rintro ⟨hserver, hzero, rfl | hmem⟩
    · exact Or.inl rfl
    · exact Or.inr ⟨hserver, hzero, hmem⟩
  · rintro (rfl | ⟨hserver, hzero, hmem⟩)
    · exact ⟨hne, hne0, Or.inl rfl⟩
    · exact ⟨hserver, hzero, Or.inr hmem⟩

/-- With no gateway being added, those in the list are those that are watched. -/
theorem Connections.Inv.connected_iff (h : s.Inv) (hadding : s.adding = none) (fd : ℕ) :
    s.devices.Connected fd ↔ fd ∈ s.peers := by
  rw [h.connected, hadding]
  constructor
  · rintro (⟨fd', hmem, hfd⟩ | hnone)
    · exact Int.natCast_inj.mp hfd ▸ hmem
    · cases hnone
  · exact fun hmem => Or.inl ⟨fd, hmem, rfl⟩

/-- A descriptor of its own for the new gateway, and room for it. -/
theorem Connections.Inv.newGwConnectionHandle {client_socket : ℕ} (h : s.Inv)
    (ht : s.newGwConnectionHandle (some client_socket) true = some t) : t.Inv := by
  rw [Connections.newGwConnectionHandle] at ht
  split_ifs at ht with hbusy
  obtain ⟨hadding, hnew⟩ := not_or.mp hbusy
  rw [not_not] at hadding
  obtain rfl := Option.some.inj ht
  refine
    { connected := fun socket => ?_
      nodup := nodup_addGateWay h.nodup client_socket
      le_fdmax := h.le_fdmax
      welcome := h.welcome
      opened := h.opened.trans (Finset.subset_insert _ _)
      adding := fun socket hsocket => ?_ }
  · refine Devices.connected_addGateWay.trans ?_
    rw [h.connected, hadding]
    constructor
    · rintro (rfl | hfd | hnone)
      · exact Or.inr rfl
      · exact Or.inl hfd
      · cases hnone
    · rintro (hfd | hsocket)
      · exact Or.inr (Or.inl hfd)
      · exact Or.inl (Option.some.inj hsocket).symm
  · refine ⟨client_socket, Option.some.inj hsocket, Finset.mem_insert_self _ _, fun hmem => ?_⟩
    exact hnew ⟨client_socket, rfl, h.opened hmem⟩

/-- Watching a new gateway keeps the lists in step. -/
theorem Connections.Inv.watch (h : s.Inv) (ht : s.watch = some t) : t.Inv := by
  rw [Connections.watch] at ht
  split at ht
  case h_1 => cases ht
  case h_2 client_socket hadding =>
    obtain ⟨client_socket, rfl, hopened, hfresh⟩ := h.adding client_socket hadding
    by_cases hfits : (client_socket : ℤ) < 0 ∨ (fdSetSize : ℤ) ≤ client_socket
    · rw [if_pos hfits] at ht
      cases ht
    rw [if_neg hfits, Int.toNat_natCast] at ht
    obtain rfl := Option.some.inj ht
    set t : Connections :=
      { s with
        adding := none
        reads := insert client_socket s.reads
        fdmax := if (s.fdmax : ℤ) < client_socket then client_socket else s.fdmax } with hdef
    have hpeers : ∀ fd, fd ∈ t.peers ↔ fd = client_socket ∨ fd ∈ s.peers := fun fd =>
      mem_peers_insert (s := s) (t := t) rfl rfl (fun heq => hfresh (heq ▸ h.welcome.2))
        fun heq => hfresh (heq ▸ h.welcome.1)
    refine
      { connected := fun socket => ?_
        nodup := h.nodup
        le_fdmax := fun fd hfd => ?_
        welcome := ⟨Finset.mem_insert_of_mem h.welcome.1, Finset.mem_insert_of_mem h.welcome.2⟩
        opened := Finset.insert_subset hopened h.opened
        adding := fun socket hsocket => by cases hsocket }
    · rw [h.connected, hadding, Option.some_inj]
      constructor
      · rintro (⟨fd, hmem, hfd⟩ | hfd)
        · exact Or.inl ⟨fd, (hpeers fd).mpr (Or.inr hmem), hfd⟩
        · exact Or.inl ⟨client_socket, (hpeers _).mpr (Or.inl rfl), hfd⟩
      · rintro (⟨fd, hmem, hfd⟩ | hnone)
        · rcases (hpeers fd).mp hmem with rfl | hmem
          · exact Or.inr hfd
          · exact Or.inl ⟨fd, hmem, hfd⟩
        · cases hnone
    · have hmax : s.fdmax ≤ t.fdmax ∧ client_socket ≤ t.fdmax := by
        simp only [hdef]
        split_ifs <;> omega
      rcases Finset.mem_insert.mp hfd with rfl | hfd
      · exact hmax.2
      · exact (h.le_fdmax fd hfd).trans hmax.1

/-- What is ready is a gateway's, so it is read. -/
theorem Connections.Inv.receive {buff_in : List UInt8} (h : s.Inv)
    (ht : s.receive i buff_in = some t) :
    t = { s with handled := s.handled ++ [(i, buff_in)] } ∧ t.Inv := by
  rw [Connections.receive] at ht
  split_ifs at ht with hready
  obtain ⟨gw, hgw⟩ := (h.connected_iff hready.1 i).mpr hready.2
  rw [hgw] at ht
  obtain rfl := Option.some.inj ht
  exact ⟨rfl, h.connected, h.nodup, h.le_fdmax, h.welcome, h.opened, h.adding⟩

theorem Connections.Inv.close (h : s.Inv) (ht : s.close i = some t) :
    t.handled = s.handled ∧ t.Inv := by
  rw [Connections.close] at ht
  split_ifs at ht with hready
  obtain ⟨gw, hgw⟩ := (h.connected_iff hready.1 i).mpr hready.2
  rw [hgw] at ht
  obtain rfl := Option.some.inj ht
  obtain ⟨hserver, hzero, hmem⟩ := mem_peers.mp hready.2
  obtain ⟨hnodup, hconn⟩ := removeGateWay_spec h.nodup (i : ℤ)
  set t : Connections :=
    { s with
      devices := removeGateWay s.devices i
      reads := s.reads.erase i
      opened := s.opened.erase i } with hdef
  have hpeers : t.peers = s.peers.erase i := by
    rw [peers, peers, hdef, Finset.erase_right_comm (a := i), Finset.erase_right_comm (a := i)]
  refine ⟨rfl,
    { connected := fun socket => ?_
      nodup := hnodup
      le_fdmax := fun fd hfd => h.le_fdmax fd (Finset.mem_of_mem_erase hfd)
      welcome := ⟨Finset.mem_erase_of_ne_of_mem hzero.symm h.welcome.1,
        Finset.mem_erase_of_ne_of_mem hserver.symm h.welcome.2⟩
      opened := Finset.erase_subset_erase i h.opened
      adding := fun socket hsocket => by cases hready.1.symm.trans hsocket }⟩
  rw [hconn, h.connected, hpeers, hready.1]
  constructor
  · rintro ⟨hne, ⟨fd, hfd, rfl⟩ | hnone⟩
    · exact Or.inl ⟨fd, Finset.mem_erase.mpr ⟨fun heq => hne (congrArg _ heq), hfd⟩, rfl⟩
    · cases hnone
  · rintro (⟨fd, hfd, rfl⟩ | hnone)
    · obtain ⟨hne, hfd⟩ := Finset.mem_erase.mp hfd
      exact ⟨fun heq => hne (Int.natCast_inj.mp heq), Or.inl ⟨fd, hfd, rfl⟩⟩
    · cases hnone

/-- **Whatever the thread does next, the list and the set agree**, and what arrives is handed
over. -/
theorem Connections.Inv.step (h : s.Inv) {e : NetworkEvent} (he : e.Succeeds)
    (ht : s.step e = some t) : t.Inv ∧ t.handled = s.handled ++ e.arrival.toList := by
  cases e with
  | newGwConnectionHandle client_socket room =>
    obtain ⟨hsome, rfl⟩ := he
    obtain ⟨client_socket, rfl⟩ := Option.isSome_iff_exists.mp hsome
    refine ⟨h.newGwConnectionHandle ht, ?_⟩
    rw [Connections.step, Connections.newGwConnectionHandle] at ht
    split_ifs at ht
    obtain rfl := Option.some.inj ht
    exact (List.append_nil _).symm
  | watch =>
    refine ⟨h.watch ht, ?_⟩
    rw [Connections.step, Connections.watch] at ht
    split at ht
    case h_1 => cases ht
    case h_2 =>
      split at ht
      case isTrue => cases ht
      case isFalse =>
        obtain rfl := Option.some.inj ht
        exact (List.append_nil _).symm
  | receive i buff_in =>
    obtain ⟨rfl, hinv⟩ := h.receive ht
    exact ⟨hinv, rfl⟩
  | fail i =>
    rw [Connections.step, Connections.fail] at ht
    split_ifs at ht
    obtain rfl := Option.some.inj ht
    exact ⟨h, (List.append_nil _).symm⟩
  | close i =>
    obtain ⟨hhandled, hinv⟩ := h.close ht
    exact ⟨hinv, hhandled.trans (List.append_nil _).symm⟩

theorem Connections.inv_start (server_socket : ℕ) : (start server_socket).Inv where
  connected socket := by
    refine iff_of_false (fun h => nomatch Devices.connected_iff.mp h) ?_
    rintro (⟨fd, hfd, -⟩ | hnone)
    · obtain ⟨hserver, hzero, hmem⟩ := mem_peers.mp hfd
      exact (Finset.mem_insert.mp hmem).elim hzero fun h => hserver (Finset.mem_singleton.mp h)
    · cases hnone
  nodup := List.nodup_nil
  le_fdmax fd hfd := by
    rcases Finset.mem_insert.mp hfd with rfl | hfd
    · exact Nat.zero_le _
    · exact (Finset.mem_singleton.mp hfd).le
  welcome := ⟨by simp [start], by simp [start]⟩
  opened fd hfd := by
    have hmem : fd = 0 ∨ fd = server_socket := by simpa [start] using hfd
    rcases hmem with rfl | rfl <;> simp [start]
  adding socket hsocket := by cases hsocket

/-! ## Any run -/

/-- **What arrives is handled once, in order**, as long as nothing fails. -/
theorem Connections.Inv.run (h : s.Inv) {es : List NetworkEvent} (hes : ∀ e ∈ es, e.Succeeds)
    (hrun : Runs.run Connections.step s es = some t) :
    t.Inv ∧ t.handled = s.handled ++ es.filterMap NetworkEvent.arrival := by
  induction es generalizing s with
  | nil =>
    obtain rfl := Option.some.inj hrun
    exact ⟨h, (List.append_nil _).symm⟩
  | cons e es ih =>
    obtain ⟨he, hes⟩ := List.forall_mem_cons.mp hes
    obtain ⟨u, hu, hrest⟩ := Option.bind_eq_some_iff.mp hrun
    obtain ⟨hinv, hhandled⟩ := h.step he hu
    obtain ⟨hinv', hhandled'⟩ := ih hinv hes hrest
    refine ⟨hinv', ?_⟩
    rw [hhandled', hhandled, List.append_assoc, List.filterMap_cons]
    cases e.arrival <;> rfl

/-- **What is watched is handled**: over any run in which no `accept` and no allocation fails, the
descriptors that `select` can report are the gateways in the list, but for the terminal and the
welcome socket, and all that has been read from them has been handed to `upstream_data_handle`, once
and in order. -/
theorem handled_run (server_socket : ℕ) (es : List NetworkEvent) (hes : ∀ e ∈ es, e.Succeeds)
    (hrun : Runs.run Connections.step (Connections.start server_socket) es = some s) :
    s.handled = es.filterMap NetworkEvent.arrival ∧
      ∀ fd : ℕ, s.devices.Connected fd ↔ fd ∈ s.peers ∨ s.adding = some (fd : ℤ) := by
  obtain ⟨hinv, hhandled⟩ := (Connections.inv_start server_socket).run hes hrun
  refine ⟨hhandled, fun fd => (hinv.connected fd).trans ?_⟩
  simp only [Int.natCast_inj, exists_eq_right]

/-- A gateway connects, and sends a byte. -/
theorem handled_run_one :
    ∃ s, Runs.run Connections.step (Connections.start 3)
        [.newGwConnectionHandle (some 4) true, .watch, .receive 4 [9]] = some s ∧
      s.handled = [(4, [9])] ∧ s.devices.Connected 4 := by
  obtain ⟨hhandled, hconn⟩ := handled_run 3
    [.newGwConnectionHandle (some 4) true, .watch, .receive 4 [9]]
    (by simp [NetworkEvent.Succeeds]) rfl
  exact ⟨_, rfl, hhandled, (hconn 4).mpr (Or.inl (by decide))⟩

/-- A gateway for which there is no room is watched, and what it sends stays unread. -/
example : ∃ s, Runs.run Connections.step (Connections.start 3)
      [.newGwConnectionHandle (some 4) false, .watch, .receive 4 [9]] = some s ∧
    4 ∈ s.peers ∧ s.handled = [] :=
  ⟨_, rfl, by decide, rfl⟩

/-- **A datagram is written to each gateway in the list once, and to nothing else**, over any run in
which no `accept` and no allocation fails, if no gateway comes or goes while it is written and no
`write` ends the process. -/
theorem broadcast_run (server_socket : ℕ) (es : List NetworkEvent) (hes : ∀ e ∈ es, e.Succeeds)
    (hrun : Runs.run Connections.step (Connections.start server_socket) es = some s) :
    s.broadcast.Nodup ∧ (∀ fd ∈ s.broadcast, s.devices.Connected fd) ∧
      (s.adding = none → ∀ fd : ℕ, s.devices.Connected fd → fd ∈ s.broadcast) := by
  have hinv := ((Connections.inv_start server_socket).run hes hrun).1
  refine ⟨List.Nodup.filter _ List.nodup_range, fun fd hfd => ?_, fun hadding fd hfd => ?_⟩
  · exact Option.isSome_iff_exists.mp (List.mem_filter.mp hfd).2
  · have hmem := (hinv.connected_iff hadding fd).mp hfd
    have hle := hinv.le_fdmax fd (Connections.mem_peers.mp hmem).2.2
    exact List.mem_filter.mpr ⟨List.mem_range.mpr (Nat.lt_succ_of_le hle),
      Option.isSome_iff_exists.mpr hfd⟩

/-- Gateway 4 closes, and gateway 5 stays. -/
theorem broadcast_run_closed :
    ∃ s, Runs.run Connections.step (Connections.start 3)
        [.newGwConnectionHandle (some 4) true, .watch, .newGwConnectionHandle (some 5) true, .watch,
          .close 4] = some s ∧ s.broadcast = [5] ∧ s.broadcast.Nodup ∧ s.devices.Connected 5 := by
  obtain ⟨hnodup, hconn, -⟩ := broadcast_run 3
    [.newGwConnectionHandle (some 4) true, .watch, .newGwConnectionHandle (some 5) true, .watch,
      .close 4] (by simp [NetworkEvent.Succeeds]) rfl
  exact ⟨_, rfl, by decide, hnodup, hconn 5 (by decide)⟩

end LoRaGwSv
