import Mathlib.Data.List.Basic
import Mathlib.Data.Nat.Notation

/-!
# Machinery/Framing — messages in a stream that is cut into pieces

Messages are written to a stream one after the other, and a receiver takes each piece it gets for a
message.  If a piece that begins with a whole message stands for that message, and a piece that ends
before a message does or begins inside of one stands for nothing (`Framed`), then the receiver gets
all messages exactly if each piece is one message (`receive_eq_iff`): it gets at most one for each
message that a piece begins with.

A receiver that keeps what it has of a message waits for the rest.  Where each message ends with a
piece (`Aligned`), a piece either goes on with the first message or ends it (`Aligned.cons`).
-/

namespace Framing

variable {α β : Type*}

/-- What a receiver takes the pieces for, where `none` makes it stop. -/
def receive (take : List α → Option (Option β)) : List (List α) → List β
  | [] => []
  | s :: ss =>
    match take s with
    | none => []
    | some r => r.toList ++ receive take ss

/-- The receiver understands the messages `D`, each with what it stands for. -/
structure Framed (take : List α → Option (Option β)) (D : List α → β → Prop) : Prop where
  whole : ∀ {d b}, D d b → ∀ q, take (d ++ q) = some (some b)
  cut : ∀ {p q b}, D (p ++ q) b → q ≠ [] → take p = some none
  inside : ∀ {a p b}, D (a ++ p) b → a ≠ [] → p ≠ [] → ∀ {s q r}, s ≠ [] → s ++ q = p ++ r →
    take s = some none

variable {take : List α → Option (Option β)} {D : List α → β → Prop} {y s p : List α}
  {ds : List (List α × β)} {segs : List (List α)}

/-- The end of a message, whose beginning has passed. -/
def Tail (D : List α → β → Prop) (p : List α) : Prop := p = [] ∨ ∃ a b, a ≠ [] ∧ D (a ++ p) b

/-- What is sent, as one stream. -/
def stream (ds : List (List α × β)) : List α := (ds.map Prod.fst).flatten

/-- Where something has been taken off the stream, the rest of a message may come first. -/
theorem exists_tail (hds : ∀ d ∈ ds, D d.1 d.2) (hs : s ≠ []) (h : s ++ y = stream ds) :
    ∃ p ds', y = p ++ stream ds' ∧ Tail D p ∧ (∀ d ∈ ds', D d.1 d.2) ∧
      ds'.length < ds.length := by
  induction ds generalizing s with
  | nil => exact absurd (List.append_eq_nil_iff.mp h).1 hs
  | cons d ds ih =>
    have hrest : ∀ d ∈ ds, D d.1 d.2 := fun d hd => hds d (List.mem_cons_of_mem _ hd)
    obtain ⟨q, hd, hy⟩ | ⟨q, -, hy⟩ := List.append_eq_append_iff.mp h
    · refine ⟨q, ds, hy, Or.inr ⟨s, d.2, hs, ?_⟩, hrest, Nat.lt_succ_self _⟩
      rw [← hd]
      exact hds d List.mem_cons_self
    · by_cases hq : q = []
      · subst hq
        exact ⟨[], ds, hy.symm, Or.inl rfl, hrest, Nat.lt_succ_self _⟩
      · obtain ⟨p, ds', hy', htail, hds', hlen⟩ := ih hrest hq hy.symm
        exact ⟨p, ds', hy', htail, hds', Nat.lt_succ_of_lt hlen⟩

theorem Tail.exists_tail (hp : Tail D p) (hds : ∀ d ∈ ds, D d.1 d.2) (h : s ++ y = p ++ stream ds) :
    ∃ p' ds', y = p' ++ stream ds' ∧ Tail D p' ∧ (∀ d ∈ ds', D d.1 d.2) ∧
      ds'.length ≤ ds.length := by
  obtain ⟨q, hpq, hy⟩ | ⟨q, -, hy⟩ := List.append_eq_append_iff.mp h
  · refine ⟨q, ds, hy, ?_, hds, Nat.le_refl _⟩
    obtain rfl | ⟨a, b, ha, hd⟩ := hp
    · exact Or.inl (List.append_eq_nil_iff.mp hpq.symm).2
    · rw [hpq, ← List.append_assoc] at hd
      exact Or.inr ⟨a ++ s, b, List.append_ne_nil_of_left_ne_nil ha s, hd⟩
  · by_cases hq : q = []
    · subst hq
      exact ⟨[], ds, hy.symm, Or.inl rfl, hds, Nat.le_refl _⟩
    · obtain ⟨p', ds', hy', htail, hds', hlen⟩ := Framing.exists_tail hds hq hy.symm
      exact ⟨p', ds', hy', htail, hds', Nat.le_of_lt hlen⟩

/-- A segment yields one message at most. -/
theorem length_receive_cons_le (take : List α → Option (Option β)) (s : List α)
    (segs : List (List α)) :
    (receive take (s :: segs)).length ≤ (receive take segs).length + 1 := by
  rw [receive]
  split
  · exact Nat.zero_le _
  · rename_i r _
    cases r <;> simp

/-- **No more messages are received than have not begun.** -/
theorem Framed.length_receive_le (h : Framed take D) (hsegs : ∀ s ∈ segs, s ≠ [])
    (hp : Tail D p) (hds : ∀ d ∈ ds, D d.1 d.2) (heq : segs.flatten = p ++ stream ds) :
    (receive take segs).length ≤ ds.length := by
  induction segs generalizing p ds with
  | nil => exact Nat.zero_le _
  | cons s segs ih =>
    have hs := hsegs s List.mem_cons_self
    have hrest : ∀ s ∈ segs, s ≠ [] := fun s hs => hsegs s (List.mem_cons_of_mem _ hs)
    rw [List.flatten_cons] at heq
    by_cases hnil : p = []
    · rw [hnil, List.nil_append] at heq
      obtain ⟨p', ds', hflat, htail, hds', hlen⟩ := exists_tail hds hs heq
      have hle := ih hrest htail hds' hflat
      have hcons := length_receive_cons_le take s segs
      omega
    · obtain ⟨a, b, ha, hd⟩ := hp.resolve_left hnil
      obtain ⟨p', ds', hflat, htail, hds', hlen⟩ := hp.exists_tail hds heq
      have hle := ih hrest htail hds' hflat
      rw [receive, h.inside hd ha hnil hs heq]
      exact Nat.le_trans hle hlen

/-- **If as many messages are received as there are, each piece is one message.** -/
theorem Framed.eq_of_length_receive (h : Framed take D) (hsegs : ∀ s ∈ segs, s ≠ [])
    (hds : ∀ d ∈ ds, D d.1 d.2) (heq : segs.flatten = stream ds)
    (hlen : (receive take segs).length = ds.length) : segs = ds.map Prod.fst := by
  induction segs generalizing ds with
  | nil =>
    obtain rfl := List.length_eq_zero_iff.mp hlen.symm
    rfl
  | cons s segs ih =>
    have hs := hsegs s List.mem_cons_self
    have hrest : ∀ s ∈ segs, s ≠ [] := fun s hs => hsegs s (List.mem_cons_of_mem _ hs)
    rw [List.flatten_cons] at heq
    cases ds with
    | nil => exact absurd (List.append_eq_nil_iff.mp heq).1 hs
    | cons d ds =>
      have hd := hds d List.mem_cons_self
      have hds' : ∀ d ∈ ds, D d.1 d.2 := fun d hd => hds d (List.mem_cons_of_mem _ hd)
      rw [List.length_cons] at hlen
      by_cases hsd : s = d.1
      · subst hsd
        have htake := h.whole hd []
        rw [List.append_nil] at htake
        rw [receive, htake] at hlen
        rw [List.map_cons, ih hrest hds' (List.append_cancel_left heq) (Nat.succ.inj hlen)]
      · obtain ⟨q, hdq, hflat⟩ | ⟨q, hsq, hflat⟩ := List.append_eq_append_iff.mp heq
        · -- the piece ends inside of the message
          have hq : q ≠ [] := fun hq => hsd (by rw [hdq, hq, List.append_nil])
          rw [hdq] at hd
          have hle := h.length_receive_le hrest (Or.inr ⟨s, d.2, hs, hd⟩) hds' hflat
          rw [receive, h.cut hd hq] at hlen
          exact absurd hlen (Nat.ne_of_lt (Nat.lt_succ_of_le hle))
        · -- the piece goes on behind the message
          have hq : q ≠ [] := fun hq => hsd (by rw [hsq, hq, List.append_nil])
          obtain ⟨p, ds', hflat', htail, hds'', hlt⟩ := exists_tail hds' hq hflat.symm
          have hle := h.length_receive_le hrest htail hds'' hflat'
          have hcons := length_receive_cons_le take s segs
          omega

/-- Messages that arrive one by one are all received. -/
theorem Framed.receive_whole (h : Framed take D) (hds : ∀ d ∈ ds, D d.1 d.2) :
    receive take (ds.map Prod.fst) = ds.map Prod.snd := by
  induction ds with
  | nil => rfl
  | cons d ds ih =>
    have htake := h.whole (hds d List.mem_cons_self) []
    rw [List.append_nil] at htake
    rw [List.map_cons, receive, htake, List.map_cons,
      ← ih fun d hd => hds d (List.mem_cons_of_mem _ hd)]
    rfl

/-- **All messages are received exactly if each piece is one message.** -/
theorem Framed.receive_eq_iff (h : Framed take D) (hsegs : ∀ s ∈ segs, s ≠ [])
    (hds : ∀ d ∈ ds, D d.1 d.2) (heq : segs.flatten = stream ds) :
    receive take segs = ds.map Prod.snd ↔ segs = ds.map Prod.fst := by
  constructor
  · intro hall
    refine h.eq_of_length_receive hsegs hds heq ?_
    rw [hall, List.length_map]
  · rintro rfl
    exact h.receive_whole hds

/-! ## Pieces that end with the messages

A receiver that keeps the beginning `p` of a message until the rest of it arrives. -/

/-- Where a message ends a piece ends, `p` being the beginning of the first message. -/
structure Aligned (p : List α) (ms segs : List (List α)) : Prop where
  flat : p ++ segs.flatten = ms.flatten
  ends : ∀ done, done <+: ms → done ≠ [] → ∃ got, got <+: segs ∧ p ++ got.flatten = done.flatten
  short : ∀ m ∈ ms.head?, p.length < m.length

variable {ms : List (List α)}

/-- When nothing more comes no message is left. -/
theorem Aligned.eq_nil (h : Aligned p ms []) : ms = [] := by
  cases ms with
  | nil => rfl
  | cons m ms =>
    have hlen := congrArg List.length h.flat
    have hshort := h.short m rfl
    rw [List.flatten_nil, List.append_nil, List.flatten_cons, List.length_append] at hlen
    omega

/-- The piece that comes next is one of those up to the end of any message. -/
theorem Aligned.ends_cons (h : Aligned p ms (s :: segs)) {done : List (List α)}
    (hdone : done <+: ms) (hne : done ≠ []) :
    ∃ got, got <+: segs ∧ p ++ s ++ got.flatten = done.flatten := by
  obtain ⟨got, hgot, heq⟩ := h.ends done hdone hne
  cases got with
  | nil =>
    obtain ⟨m, done, rfl⟩ := List.exists_cons_of_ne_nil hne
    obtain ⟨rest, rfl⟩ := hdone
    have hlen := congrArg List.length heq
    have hshort := h.short m rfl
    rw [List.flatten_nil, List.append_nil, List.flatten_cons, List.length_append] at hlen
    omega
  | cons s' got =>
    obtain ⟨rfl, hgot'⟩ := List.cons_prefix_cons.mp hgot
    exact ⟨got, hgot', by rw [List.append_assoc, ← List.flatten_cons, heq]⟩

/-- **A piece goes on with the first message or ends it**, and what is left is cut as well. -/
theorem Aligned.cons (h : Aligned p ms (s :: segs)) (hms : ∀ m ∈ ms, m ≠ []) :
    (Aligned (p ++ s) ms segs ∧ (p ++ s = [] ∨ ∃ y, y ≠ [] ∧ p ++ s ++ y ∈ ms)) ∨
      ∃ ms', ms = (p ++ s) :: ms' ∧ Aligned [] ms' segs := by
  have hflat := h.flat
  rw [List.flatten_cons, ← List.append_assoc] at hflat
  cases ms with
  | nil =>
    left
    exact ⟨⟨hflat, fun _ => h.ends_cons, fun m hm => absurd hm (Option.not_mem_none m)⟩,
      Or.inl (List.append_eq_nil_iff.mp hflat).1⟩
  | cons m ms =>
    obtain ⟨got, -, hm⟩ := h.ends_cons (show [m] <+: m :: ms by simp) (List.cons_ne_nil m [])
    rw [List.flatten_singleton] at hm
    by_cases hgot : got.flatten = []
    · -- the piece ends the message
      right
      rw [hgot, List.append_nil] at hm
      subst hm
      refine ⟨ms, rfl, ⟨List.append_cancel_left hflat, fun done hdone hne => ?_, fun m hm => ?_⟩⟩
      · obtain ⟨got', hgot', heq⟩ := h.ends_cons
          (List.cons_prefix_cons.mpr ⟨rfl, hdone⟩) (List.cons_ne_nil _ done)
        exact ⟨got', hgot', List.append_cancel_left heq⟩
      · exact List.length_pos_iff.mpr (hms m (List.mem_cons_of_mem _ (List.mem_of_mem_head? hm)))
    · -- some of the message is still to come
      left
      refine ⟨⟨hflat, fun _ => h.ends_cons, fun m' hm' => ?_⟩,
        Or.inr ⟨got.flatten, hgot, hm ▸ List.mem_cons_self⟩⟩
      obtain rfl : m = m' := Option.some.inj hm'
      have hlen := congrArg List.length hm
      have hpos := List.length_pos_iff.mpr hgot
      rw [List.length_append] at hlen
      omega

end Framing
