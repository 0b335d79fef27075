import LoRaGwSv.Machinery.Keyed

/-!
# Machinery/Descending — keyed lists in descending order of a weight

A list with a key is kept in descending order of a weight.  Inserting an element before the first
one that weighs less keeps the order (`Descending.orderedInsert`).  Rewriting an element where it
stands keeps it exactly if its new weight has a place there (`descending_update_iff`), also when
another element is taken out and inserted anew at the same time
(`descending_update_reinsert_iff`).
-/

namespace Weighted

variable {α κ ω : Type*} [DecidableEq κ] [LinearOrder ω] {key : α → κ} {w : α → ω}
  {r : α → α → Prop} [DecidableRel r] {k k' : κ} {l pre post : List α} {x y p : α}

/-- The weights do not increase. -/
def Descending (w : α → ω) (l : List α) : Prop := l.Pairwise fun x y => w y ≤ w x

/-- What stands before the element with key `k` weighs at least `v`, what stands behind it at most
`v`; only elements that satisfy `P` count. -/
def HasPlace (key : α → κ) (w : α → ω) (P : α → Prop) (l : List α) (k : κ) (v : ω) : Prop :=
  ∀ pre x post, l = pre ++ x :: post → key x = k →
    (∀ y ∈ pre, P y → v ≤ w y) ∧ ∀ y ∈ post, P y → w y ≤ v

/-! ## One element in the middle

A list is in order if its two parts are, and the element fits between them. -/

/-- An element in the middle is in order if it is with both sides. -/
theorem descending_middle_iff : Descending w (pre ++ x :: post) ↔
    Descending w (pre ++ post) ∧ (∀ y ∈ pre, w x ≤ w y) ∧ ∀ y ∈ post, w y ≤ w x := by
  rw [Descending, Descending, List.pairwise_append, List.pairwise_append, List.pairwise_cons]
  constructor
  · rintro ⟨hpre, ⟨hx, hpost⟩, hcross⟩
    exact ⟨⟨hpre, hpost, fun y hy z hz => hcross y hy z (List.mem_cons_of_mem x hz)⟩,
      fun y hy => hcross y hy x List.mem_cons_self, hx⟩
  · rintro ⟨⟨hpre, hpost, hcross⟩, hx, hx'⟩
    refine ⟨hpre, ⟨hx', hpost⟩, fun y hy z hz => ?_⟩
    rcases List.mem_cons.mp hz with rfl | hz
    · exact hx y hy
    · exact hcross y hy z hz

/-- A list in order stays so without an element. -/
theorem Descending.of_middle (h : Descending w (pre ++ x :: post)) : Descending w (pre ++ post) :=
  (descending_middle_iff.mp h).1

/-- Another element takes the place of `x`. -/
theorem Descending.replace_iff (h : Descending w (pre ++ x :: post)) :
    Descending w (pre ++ y :: post) ↔ (∀ z ∈ pre, w y ≤ w z) ∧ ∀ z ∈ post, w z ≤ w y := by
  rw [descending_middle_iff, and_iff_right h.of_middle]

/-! ## Inserting -/

variable (hr : ∀ x y, r x y ↔ w y < w x)
include hr

/-- **Inserting before what weighs less keeps the order.** -/
theorem Descending.orderedInsert (h : Descending w l) (p : α) :
    Descending w (l.orderedInsert r p) := by
  induction l with
  | nil => exact List.pairwise_singleton _ p
  | cons x l ih =>
    obtain ⟨hx, hl⟩ := List.pairwise_cons.mp h
    rw [List.orderedInsert_cons]
    split
    case isTrue hlt =>
      have hlt := (hr p x).mp hlt
      refine List.pairwise_cons.mpr ⟨fun y hy => ?_, h⟩
      rcases List.mem_cons.mp hy with rfl | hy
      · exact hlt.le
      · exact (hx y hy).trans hlt.le
    case isFalse hge =>
      refine List.pairwise_cons.mpr ⟨fun y hy => ?_, ih hl⟩
      rcases (List.mem_orderedInsert r).mp hy with rfl | hy
      · exact not_lt.mp fun hlt => hge ((hr y x).mpr hlt)
      · exact hx y hy

/-- What is inserted goes before or behind an element, as it weighs more or not. -/
theorem Descending.orderedInsert_middle (h : Descending w (pre ++ x :: post)) (p : α) :
    (pre ++ x :: post).orderedInsert r p
      = if w x < w p then pre.orderedInsert r p ++ x :: post
        else pre ++ x :: post.orderedInsert r p := by
  induction pre with
  | nil =>
    rw [List.nil_append, List.orderedInsert_cons]
    by_cases hlt : w x < w p
    · rw [if_pos hlt, if_pos ((hr p x).mpr hlt)]
      rfl
    · rw [if_neg hlt, if_neg fun h => hlt ((hr p x).mp h)]
      rfl
  | cons z pre ih =>
    obtain ⟨hz, hrest⟩ := List.pairwise_cons.mp h
    have hzx : w x ≤ w z := hz x (by simp)
    rw [List.cons_append, List.orderedInsert_cons, List.orderedInsert_cons, ih hrest]
    by_cases hzp : w z < w p
    · rw [if_pos ((hr p z).mpr hzp), if_pos ((hr p z).mpr hzp), if_pos (hzx.trans_lt hzp)]
      rfl
    · have hnot : ¬ r p z := fun h => hzp ((hr p z).mp h)
      rw [if_neg hnot, if_neg hnot]
      split <;> rfl

/-- **Another element takes the place of `x`, and `p` is inserted first.** -/
theorem Descending.replace_orderedInsert_iff (h : Descending w (pre ++ x :: post)) (p : α) :
    Descending w (if w x < w p then pre.orderedInsert r p ++ y :: post
        else pre ++ y :: post.orderedInsert r p) ↔
      ((∀ z ∈ pre, w y ≤ w z) ∧ ∀ z ∈ post, w z ≤ w y) ∧
        if w x < w p then w y ≤ w p else w p ≤ w y := by
  have hins := (Descending.orderedInsert_middle hr h p) ▸ h.orderedInsert hr p
  split
  case isTrue hlt =>
    rw [if_pos hlt] at hins
    rw [hins.replace_iff]
    simp only [List.mem_orderedInsert, forall_eq_or_imp]
    tauto
  case isFalse hge =>
    rw [if_neg hge] at hins
    rw [hins.replace_iff]
    simp only [List.mem_orderedInsert, forall_eq_or_imp]
    tauto

omit hr

/-! ## A keyed list

An element is found by its key.  Giving it another weight keeps the order exactly where the new
weight fits between the same neighbours. -/

omit [DecidableEq κ] in
/-- Where keys are distinct an element has one place to look at. -/
theorem hasPlace_iff {P : α → Prop} {v : ω} (hpre : ∀ y ∈ pre, key y ≠ k) (hx : key x = k)
    (hnodup : ((pre ++ x :: post).map key).Nodup) :
    HasPlace key w P (pre ++ x :: post) k v ↔
      (∀ y ∈ pre, P y → v ≤ w y) ∧ ∀ y ∈ post, P y → w y ≤ v := by
  refine ⟨fun h => h pre x post rfl hx, fun h pre' x' post' heq hx' => ?_⟩
  have hpre' : ∀ y ∈ pre', key y ≠ k := fun y hy hk => by
    rw [heq, List.map_append, List.nodup_append] at hnodup
    exact hnodup.2.2 (key y) (List.mem_map_of_mem hy) (key x') (by simp) (hk.trans hx'.symm)
  obtain ⟨rfl, -, rfl⟩ := Keyed.place_unique hpre hpre' hx hx' heq
  exact h

omit [DecidableEq κ] in

theorem hasPlace_map {β : Type*} {g : β → α} {P : α → Prop} {l : List β} {v : ω} :
    HasPlace key w P (l.map g) k v ↔
      HasPlace (fun x => key (g x)) (fun x => w (g x)) (fun x => P (g x)) l k v := by
  constructor
  · rintro h pre x post rfl hx
    obtain ⟨hpre, hpost⟩ := h (pre.map g) (g x) (post.map g) (by simp) hx
    exact ⟨List.forall_mem_map.mp hpre, List.forall_mem_map.mp hpost⟩
  · intro h pre x post heq hx
    obtain ⟨pre', rest, rfl, rfl, hrest⟩ := List.map_eq_append_iff.mp heq
    obtain ⟨x', post', rfl, rfl, rfl⟩ := List.map_eq_cons_iff.mp hrest
    obtain ⟨hpre, hpost⟩ := h pre' x' post' rfl hx
    exact ⟨List.forall_mem_map.mpr hpre, List.forall_mem_map.mpr hpost⟩

omit [DecidableEq κ] in
theorem hasPlace_of_forall_ne {P : α → Prop} {v : ω} (h : ∀ x ∈ l, key x ≠ k) :
    HasPlace key w P l k v := by
  rintro pre x post rfl hx
  exact absurd hx (h x (by simp))

/-- **Rewriting an element keeps the order exactly if its new weight has a place there.** -/
theorem descending_update_iff {f : α → α} (hnodup : (l.map key).Nodup) (h : Descending w l)
    (hx : Keyed.lookup key k l = some x) :
    Descending w (Keyed.update key k f l) ↔ HasPlace key w (fun _ => True) l k (w (f x)) := by
  have hk := Keyed.key_of_lookup hx
  obtain ⟨pre, post, rfl, hpre, -⟩ := Keyed.exists_of_lookup hx
  rw [Keyed.update_place f hpre hk, h.replace_iff, hasPlace_iff hpre hk hnodup]
  simp only [forall_true_left]

include hr

/-- **The same with another element taken out and inserted anew**, `p` in its place. -/
theorem descending_update_reinsert_iff {f : α → α} (hnodup : (l.map key).Nodup)
    (h : Descending w l) (hx : Keyed.lookup key k l = some x) (hne : k' ≠ k) (hp : key p = k') :
    Descending w (Keyed.update key k f ((Keyed.erase key k' l).orderedInsert r p)) ↔
      HasPlace key w (fun y => key y ≠ k') l k (w (f x)) ∧
        if w x < w p then w (f x) ≤ w p else w p ≤ w (f x) := by
  have hk := Keyed.key_of_lookup hx
  have herase := Keyed.erase_eq_filter hnodup k'
  obtain ⟨pre, post, rfl, hpre, -⟩ := Keyed.exists_of_lookup hx
  have hkeep : decide (key x ≠ k') = true := decide_eq_true fun heq => hne (heq.symm.trans hk)
  have hfilter : (pre ++ x :: post).filter (fun y => key y ≠ k')
      = pre.filter (fun y => key y ≠ k') ++ x :: post.filter fun y => key y ≠ k' := by
    rw [List.filter_append, List.filter_cons, if_pos hkeep]
  have hsorted : Descending w (pre.filter (fun y => key y ≠ k') ++ x ::
      post.filter fun y => key y ≠ k') := hfilter ▸ h.sublist List.filter_sublist
  have hpre' : ∀ y ∈ pre.filter (fun y => key y ≠ k'), key y ≠ k := fun y hy =>
    hpre y (List.mem_of_mem_filter hy)
  have hins : ∀ y ∈ (pre.filter fun y => key y ≠ k').orderedInsert r p, key y ≠ k := fun y hy => by
    rcases (List.mem_orderedInsert r).mp hy with rfl | hy
    · exact hp ▸ hne
    · exact hpre' y hy
  have hupdate : Keyed.update key k f (((pre ++ x :: post).filter
        fun y => key y ≠ k').orderedInsert r p)
      = if w x < w p then (pre.filter fun y => key y ≠ k').orderedInsert r p ++ f x ::
          post.filter fun y => key y ≠ k'
        else pre.filter (fun y => key y ≠ k') ++ f x ::
          (post.filter fun y => key y ≠ k').orderedInsert r p := by
    rw [hfilter, hsorted.orderedInsert_middle hr]
    split
    · exact Keyed.update_place f hins hk _
    · exact Keyed.update_place f hpre' hk _
  rw [herase, hupdate, hsorted.replace_orderedInsert_iff hr, hasPlace_iff hpre hk hnodup]
  simp only [List.mem_filter, decide_eq_true_eq, and_imp]

end Weighted
