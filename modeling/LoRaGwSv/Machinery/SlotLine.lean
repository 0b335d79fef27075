import Mathlib.Algebra.GroupWithZero.Nat
import Mathlib.Data.List.Sort
import Mathlib.Order.Interval.Finset.Nat

/-!
# Machinery/SlotLine — runs of slots on a numbered line

A line has slots `1, …, T`; a `Slot` is a run of consecutive ones.  A list of runs is `Packed` when
it reads left to right without overlap, inside the line.  `firstFit` looks for `d` free slots from
the left, and inserting what it finds by start keeps the list packed (`Packed.insert`).

A list with no hole at all is `Gapless`; there `firstFit` can only append.
-/

namespace SlotLine

/-- A run of `len` consecutive slots. -/
structure Slot where
  start : ℕ
  len : ℕ
deriving DecidableEq, Repr

/-- The first slot after the run. -/
def Slot.stop (s : Slot) : ℕ := s.start + s.len

/-- The slots of the run. -/
def Slot.cells (s : Slot) : Finset ℕ := Finset.Ico s.start s.stop

/-- Runs that read left to right, without overlap, inside a line of `T` slots. -/
structure Packed (T : ℕ) (l : List Slot) : Prop where
  sep : l.Pairwise fun a b => a.stop ≤ b.start
  within : ∀ s ∈ l, 1 ≤ s.start ∧ 0 < s.len ∧ s.stop ≤ T + 1

/-- `s` can be placed on the line beside the runs of `l`. -/
structure Fits (T : ℕ) (l : List Slot) (s : Slot) : Prop where
  pos : 1 ≤ s.start
  stop_le : s.stop ≤ T + 1
  apart : ∀ x ∈ l, s.stop ≤ x.start ∨ x.stop ≤ s.start

/-- The start of the leftmost free run of `d` slots, from slot `lo` on. -/
def firstFit (T d : ℕ) : ℕ → List Slot → Option ℕ
  | lo, [] => if lo + d ≤ T + 1 then some lo else none
  | lo, s :: l => if lo + d ≤ s.start then some lo else firstFit T d s.stop l

theorem packed_nil (T : ℕ) : Packed T [] := ⟨List.Pairwise.nil, by simp⟩

/-- Without its first run a line is packed. -/
theorem Packed.tail {T : ℕ} {s : Slot} {l : List Slot} (h : Packed T (s :: l)) : Packed T l :=
  ⟨(List.pairwise_cons.mp h.sep).2, fun x hx => h.within x (List.mem_cons_of_mem _ hx)⟩

theorem Packed.sublist {T : ℕ} {l l' : List Slot} (h : Packed T l) (hl : l'.Sublist l) :
    Packed T l' := ⟨h.sep.sublist hl, fun s hs => h.within s (hl.subset hs)⟩

/-- Everything after the head starts past it. -/
theorem Packed.stop_le {T : ℕ} {s : Slot} {l : List Slot} (h : Packed T (s :: l)) :
    ∀ x ∈ l, s.stop ≤ x.start := (List.pairwise_cons.mp h.sep).1

/-- What lies before the last run is packed before its start. -/
theorem Packed.dropLast {T : ℕ} {l : List Slot} {x : Slot} (h : Packed T (l ++ [x])) :
    Packed (x.start - 1) l := by
  obtain ⟨hl, -, hbefore⟩ := List.pairwise_append.mp h.sep
  refine ⟨hl, fun y hy => ?_⟩
  have hy' := h.within y (List.mem_append_left _ hy)
  have := hbefore y hy x (by simp)
  omega

theorem Packed.disjoint {T : ℕ} {l : List Slot} (h : Packed T l) :
    l.Pairwise fun a b => Disjoint a.cells b.cells :=
  h.sep.imp fun hab => Finset.disjoint_left.mpr fun x hx hy => by
    have := (Finset.mem_Ico.mp hx).2
    have := (Finset.mem_Ico.mp hy).1
    omega

/-- Packed runs start at strictly increasing slots. -/
theorem Packed.ascending {T : ℕ} {l : List Slot} (h : Packed T l) :
    l.Pairwise fun a b => a.start < b.start :=
  h.sep.imp_of_mem fun ha _ hab => by
    have := (h.within _ ha).2.1
    simp only [Slot.stop] at hab
    omega

/-! ## First fit

The walk goes from run to run, and takes the first gap that is wide enough. -/

/-- **What first fit finds is free.** -/
theorem firstFit_fits {T d : ℕ} : ∀ {lo : ℕ} {l : List Slot}, Packed T l → 1 ≤ lo → 0 < d →
    (∀ x ∈ l, lo ≤ x.start) → ∀ {s : ℕ}, firstFit T d lo l = some s →
      lo ≤ s ∧ Fits T l ⟨s, d⟩ := by
  intro lo l
  induction l generalizing lo with
  | nil =>
    intro _ hlo _ _ s hs
    rw [firstFit] at hs
    split at hs
    · obtain rfl : lo = s := Option.some.inj hs
      exact ⟨le_rfl, hlo, by assumption, by simp⟩
    · exact absurd hs (by simp)
  | cons x l ih =>
    intro hp hlo hd hle s hs
    have hx := hp.within x (by simp)
    rw [firstFit] at hs
    split at hs
    case isTrue hfit =>
      obtain rfl : lo = s := Option.some.inj hs
      refine ⟨le_rfl, hlo, ?_, fun y hy => Or.inl ?_⟩
      · have := hx.2.2
        simp only [Slot.stop] at this ⊢
        omega
      · rcases List.mem_cons.mp hy with rfl | hy
        · exact hfit
        · have := hp.stop_le y hy
          simp only [Slot.stop] at this ⊢
          omega
    case isFalse =>
      obtain ⟨hge, hfits⟩ := ih hp.tail (by simp only [Slot.stop]; omega) hd hp.stop_le hs
      have hlox := hle x (by simp)
      refine ⟨by simp only [Slot.stop] at hge; omega, hfits.pos, hfits.stop_le, fun y hy => ?_⟩
      rcases List.mem_cons.mp hy with rfl | hy
      · exact Or.inr hge
      · exact hfits.apart y hy

/-- **First fit misses nothing**: a free run from `lo` on is never left of what it finds. -/
theorem firstFit_le {T d s : ℕ} : ∀ {lo : ℕ} {l : List Slot}, Fits T l ⟨s, d⟩ → lo ≤ s →
    ∃ s', firstFit T d lo l = some s' ∧ s' ≤ s := by
  intro lo l
  induction l generalizing lo with
  | nil =>
    intro hfits hle
    have hstop : s + d ≤ T + 1 := hfits.stop_le
    exact ⟨lo, by rw [firstFit, if_pos (by omega)], hle⟩
  | cons x l ih =>
    intro hfits hle
    have htail : Fits T l ⟨s, d⟩ :=
      ⟨hfits.pos, hfits.stop_le, fun y hy => hfits.apart y (List.mem_cons_of_mem _ hy)⟩
    rw [firstFit]
    split
    case isTrue => exact ⟨lo, rfl, hle⟩
    case isFalse hfull =>
      -- the run does not fit before `x`, so it lies after it
      have hx : s + d ≤ x.start ∨ x.stop ≤ s := hfits.apart x (by simp)
      exact ih htail (by omega)

/-- **First fit finds the least start of a free run.** -/
theorem Packed.isLeast_firstFit {T d s : ℕ} {l : List Slot} (h : Packed T l) (hd : 0 < d)
    (hs : firstFit T d 1 l = some s) : IsLeast {s | Fits T l ⟨s, d⟩} s := by
  refine ⟨(firstFit_fits h le_rfl hd (fun x hx => (h.within x hx).1) hs).2, fun s' hs' => ?_⟩
  obtain ⟨t, ht, hle⟩ := firstFit_le hs' hs'.pos
  obtain rfl : s = t := Option.some.inj (hs.symm.trans ht)
  exact hle

/-- **If first fit finds nothing there is nothing to be found.** -/
theorem not_fits_of_firstFit {T d s : ℕ} {l : List Slot} (h : firstFit T d 1 l = none) :
    ¬ Fits T l ⟨s, d⟩ := fun hs => by
  obtain ⟨t, ht, -⟩ := firstFit_le hs hs.pos
  exact absurd (h.symm.trans ht) (by simp)

/-- What fits on a line that ends in `x` lies before `x`, or after everything. -/
theorem fits_concat {T d s : ℕ} {l : List Slot} {x : Slot} (h : Packed T (l ++ [x])) :
    Fits T (l ++ [x]) ⟨s, d⟩ ↔
      Fits (x.start - 1) l ⟨s, d⟩ ∨ x.stop ≤ s ∧ s + d ≤ T + 1 := by
  have hx := h.within x (by simp)
  have hbefore : ∀ y ∈ l, y.stop ≤ x.start := fun y hy =>
    (List.pairwise_append.mp h.sep).2.2 y hy x (by simp)
  have hstop : x.start ≤ x.stop := by simp [Slot.stop]
  constructor
  · intro hs
    have hsT : s + d ≤ T + 1 := hs.stop_le
    rcases hs.apart x (by simp) with hlt | hge
    · exact Or.inl ⟨hs.pos, by simp only [Slot.stop] at hlt ⊢; omega,
        fun y hy => hs.apart y (List.mem_append_left _ hy)⟩
    · exact Or.inr ⟨hge, hsT⟩
  · rintro (hs | ⟨hge, hsT⟩)
    · have hlt : s + d ≤ x.start - 1 + 1 := hs.stop_le
      refine ⟨hs.pos, ?_, fun y hy => ?_⟩
      · simp only [Slot.stop] at hx ⊢
        omega
      · rcases List.mem_append.mp hy with hy | hy
        · exact hs.apart y hy
        · obtain rfl := List.mem_singleton.mp hy
          exact Or.inl (by simp only [Slot.stop]; omega)
    · refine ⟨by simp only; omega, hsT, fun y hy => Or.inr ?_⟩
      rcases List.mem_append.mp hy with hy | hy
      · exact (hbefore y hy).trans (hstop.trans hge)
      · rwa [List.mem_singleton.mp hy]

/-! ## Inserting by start -/

/-- The order in which a new run is walked past the old ones. -/
abbrev StartsBefore (a b : Slot) : Prop := a.start < b.start

/-- **Inserting a free run by its start keeps the list packed.** -/
theorem Packed.insert {T : ℕ} {l : List Slot} {s : Slot} (h : Packed T l) (hs : Fits T l s)
    (hlen : 0 < s.len) : Packed T (l.orderedInsert StartsBefore s) := by
  refine ⟨?_, fun x hx => ?_⟩
  · induction l with
    | nil => simp
    | cons y l ih =>
      have hy := h.within y (by simp)
      have htail : Fits T l s :=
        ⟨hs.pos, hs.stop_le, fun x hx => hs.apart x (List.mem_cons_of_mem _ hx)⟩
      rw [List.orderedInsert_cons]
      split
      case isTrue hlt =>
        have hsy : s.stop ≤ y.start := by
          have := hs.apart y (by simp)
          simp only [StartsBefore, Slot.stop] at *
          omega
        refine List.pairwise_cons.mpr ⟨fun x hx => ?_, h.sep⟩
        rcases List.mem_cons.mp hx with rfl | hx
        · exact hsy
        · have := h.stop_le x hx
          simp only [Slot.stop] at *
          omega
      case isFalse hge =>
        refine List.pairwise_cons.mpr ⟨fun x hx => ?_, ih h.tail htail⟩
        rcases (List.mem_orderedInsert _).mp hx with rfl | hx
        · have := hs.apart y (by simp)
          simp only [StartsBefore, Slot.stop] at *
          omega
        · exact h.stop_le x hx
  · rcases (List.mem_orderedInsert _).mp hx with rfl | hx
    · exact ⟨hs.pos, hlen, hs.stop_le⟩
    · exact h.within x hx

/-! ## Lines without a hole

Here the load is the end of the line, so first fit puts every run behind all others. -/

/-- Each run starts where the one before it stops, the first at `lo`. -/
def Gapless : ℕ → List Slot → Prop
  | _, [] => True
  | lo, s :: l => s.start = lo ∧ Gapless s.stop l

/-- The slots a list of runs takes up. -/
def load (l : List Slot) : ℕ := (l.map Slot.len).sum

@[simp] theorem load_nil : load [] = 0 := rfl

@[simp] theorem load_cons (s : Slot) (l : List Slot) : load (s :: l) = s.len + load l := by
  simp [load]

/-- In a gapless line a run starts after all the slots before it. -/
theorem Gapless.start_eq {lo : ℕ} {l₁ l₂ : List Slot} {s : Slot}
    (h : Gapless lo (l₁ ++ s :: l₂)) : s.start = lo + load l₁ := by
  induction l₁ generalizing lo with
  | nil => simpa using h.1
  | cons x l₁ ih =>
    have hx : x.start = lo := h.1
    have := ih h.2
    simp only [Slot.stop, load_cons] at *
    omega

/-- What comes behind some runs without a hole has none, from their end on. -/
theorem Gapless.drop {lo : ℕ} {l₁ l₂ : List Slot} (h : Gapless lo (l₁ ++ l₂)) :
    Gapless (lo + load l₁) l₂ := by
  induction l₁ generalizing lo with
  | nil => exact h
  | cons x l₁ ih =>
    have hx : x.stop = lo + x.len := by rw [Slot.stop, h.1]
    rw [load_cons, ← Nat.add_assoc, ← hx]
    exact ih h.2

/-- The runs in front have no hole, either. -/
theorem Gapless.of_append {lo : ℕ} {l₁ l₂ : List Slot} (h : Gapless lo (l₁ ++ l₂)) :
    Gapless lo l₁ := by
  induction l₁ generalizing lo with
  | nil => trivial
  | cons x l₁ ih => exact ⟨h.1, ih h.2⟩

theorem gapless_concat {lo : ℕ} {l : List Slot} {s : Slot} (h : Gapless lo l)
    (hs : s.start = lo + load l) : Gapless lo (l ++ [s]) := by
  induction l generalizing lo with
  | nil => exact ⟨by simpa using hs, trivial⟩
  | cons x l ih =>
    refine ⟨h.1, ih h.2 ?_⟩
    rw [hs, load_cons, Slot.stop, h.1]
    omega

/-- **In a gapless line first fit can only append.** -/
theorem Gapless.firstFit {T d : ℕ} (hd : 0 < d) : ∀ {lo : ℕ} {l : List Slot}, Gapless lo l →
    firstFit T d lo l = if lo + load l + d ≤ T + 1 then some (lo + load l) else none := by
  intro lo l
  induction l generalizing lo with
  | nil => intro _; rfl
  | cons s l ih =>
    intro h
    have hstart : s.start = lo := h.1
    have hstop : s.stop + load l = lo + load (s :: l) := by
      rw [load_cons, Slot.stop]
      omega
    rw [SlotLine.firstFit, if_neg (by omega), ih h.2, hstop]

/-- What starts past every run of the list is inserted at its end. -/
theorem orderedInsert_eq_concat {l : List Slot} {s : Slot} (h : ∀ x ∈ l, x.start ≤ s.start) :
    l.orderedInsert StartsBefore s = l ++ [s] := by
  induction l with
  | nil => rfl
  | cons x l ih =>
    have hx := h x (by simp)
    rw [List.orderedInsert_cons, if_neg (by simp only [StartsBefore]; omega),
      ih fun y hy => h y (List.mem_cons_of_mem _ hy)]
    rfl

/-- In a gapless line nothing stops past the slots taken up. -/
theorem Gapless.stop_le {lo : ℕ} {l : List Slot} (h : Gapless lo l) :
    ∀ x ∈ l, x.stop ≤ lo + load l := by
  intro x hx
  obtain ⟨l₁, l₂, rfl⟩ := List.append_of_mem hx
  rw [Slot.stop, h.start_eq]
  simp only [load, List.map_append, List.map_cons, List.sum_append, List.sum_cons]
  omega

/-- Without a hole no run starts behind the load. -/
theorem Gapless.start_le {lo : ℕ} {l : List Slot} (h : Gapless lo l) :
    ∀ x ∈ l, x.start ≤ lo + load l := fun x hx =>
  (Nat.le_add_right x.start x.len).trans (h.stop_le x hx)

/-- **A run apart from a gapless line lies behind it**, if it does not lie before it. -/
theorem Gapless.le_of_apart {lo d k : ℕ} (hd : 0 < d) {l : List Slot} (h : Gapless lo l)
    (hlo : lo ≤ k) (hapart : ∀ x ∈ l, k + d ≤ x.start ∨ x.stop ≤ k) : lo + load l ≤ k := by
  induction l generalizing lo with
  | nil => rwa [load_nil, Nat.add_zero]
  | cons x l ih =>
    have hstart : x.start = lo := h.1
    have hx := hapart x (by simp)
    have hrest := ih h.2 (by omega) fun y hy => hapart y (List.mem_cons_of_mem _ hy)
    rw [load_cons]
    rw [Slot.stop] at hrest
    omega

theorem load_filter_pos (l : List Slot) : load (l.filter fun s => 0 < s.len) = load l := by
  induction l with
  | nil => rfl
  | cons s l ih =>
    rw [List.filter_cons]
    split
    case isTrue => rw [load_cons, load_cons, ih]
    case isFalse h =>
      rw [load_cons, ih]
      simp only [decide_eq_true_eq] at h
      omega

end SlotLine
