import Mathlib.Algebra.GroupWithZero.Nat
import Mathlib.Algebra.BigOperators.Group.List.Basic
import Mathlib.Data.List.Infix

/-!
# Machinery/Batches — serving a row of queues in batches

A row of queues is served from the first one that is not empty, at most `c` of its items at a time
(`serve`).  The batches served are runs of single queues (`serveAll_infix`), they come in the order
of the row and nothing is served twice (`serveAll_prefix`), and enough of them serve everything
(`serveAll_complete`).
-/

namespace Batches

variable {α β γ : Type*} {c k i : ℕ} {b : List α} {qs qs' : List (List α)}

/-- One batch: the queue served, the items taken, and the queues left. -/
def serve (c : ℕ) : List (List α) → Option (ℕ × List α × List (List α))
  | [] => none
  | [] :: qs => (serve c qs).map fun (i, b, qs) => (i + 1, b, [] :: qs)
  | (x :: q) :: qs => some (0, (x :: q).take c, (x :: q).drop c :: qs)

/-- The first `k` batches, as far as there are items. -/
def serveAll (c : ℕ) : ℕ → List (List α) → List (ℕ × List α)
  | 0, _ => []
  | k + 1, qs =>
    match serve c qs with
    | none => []
    | some (i, b, qs) => (i, b) :: serveAll c k qs

/-- How many batches serve everything. -/
def batches (c : ℕ) (qs : List (List α)) : ℕ := (qs.map fun q => (q.length + (c - 1)) / c).sum

/-- Each queue is served in batches of its own. -/
theorem batches_cons (c : ℕ) (q : List α) (qs : List (List α)) :
    batches c (q :: qs) = (q.length + (c - 1)) / c + batches c qs := by
  rw [batches, List.map_cons, List.sum_cons, batches]

/-! ## One batch

A batch never has items of two queues. -/

/-- Nothing is served only if all queues are empty. -/
theorem serve_none (h : serve c qs = none) : qs.flatten = [] := by
  induction qs with
  | nil => rfl
  | cons q qs ih =>
    cases q with
    | nil =>
      rw [serve, Option.map_eq_none_iff] at h
      exact ih h
    | cons x q => exact absurd h (by simp [serve])

/-- **A batch is the head of the first queue that is not empty.** -/
theorem serve_some (h : serve c qs = some (i, b, qs')) :
    ∃ q, qs[i]? = some q ∧ q ≠ [] ∧ b = q.take c ∧ qs' = qs.set i (q.drop c) ∧
      qs.flatten = b ++ qs'.flatten := by
  induction qs generalizing i b qs' with
  | nil => exact absurd h (by simp [serve])
  | cons q qs ih =>
    cases q with
    | nil =>
      obtain ⟨⟨i, b, qs'⟩, hserve, heq⟩ := Option.map_eq_some_iff.mp h
      obtain ⟨rfl, rfl, rfl⟩ : _ ∧ _ ∧ _ := by simpa using heq
      obtain ⟨q, hq, hne, hb, hqs', hflat⟩ := ih hserve
      exact ⟨q, by simpa using hq, hne, hb, by rw [hqs', List.set_cons_succ], hflat⟩
    | cons x q =>
      obtain ⟨rfl, rfl, rfl⟩ : _ ∧ _ ∧ _ := by simpa [serve] using h
      refine ⟨x :: q, by simp, List.cons_ne_nil x q, rfl, by simp, ?_⟩
      rw [List.flatten_cons, List.flatten_cons, ← List.append_assoc, List.take_append_drop]

/-- Each batch that is served is one less to come. -/
theorem batches_serve (hc : 0 < c) (h : serve c qs = some (i, b, qs')) :
    batches c qs = batches c qs' + 1 := by
  induction qs generalizing i b qs' with
  | nil => exact absurd h (by simp [serve])
  | cons q qs ih =>
    cases q with
    | nil =>
      obtain ⟨⟨i, b, qs'⟩, hserve, heq⟩ := Option.map_eq_some_iff.mp h
      obtain ⟨rfl, rfl, rfl⟩ : _ ∧ _ ∧ _ := by simpa using heq
      rw [batches_cons, batches_cons, ih hserve]
      omega
    | cons x q =>
      obtain ⟨rfl, rfl, rfl⟩ : _ ∧ _ ∧ _ := by simpa [serve] using h
      have hdiv : ((x :: q).length + (c - 1)) / c
          = (((x :: q).drop c).length + (c - 1)) / c + 1 := by
        rw [List.length_drop, ← Nat.add_div_right _ hc]
        rcases le_total c (x :: q).length with hle | hle
        · congr 1
          omega
        · have hlen : 0 < (x :: q).length := by simp
          have hone : ∀ n, c ≤ n → n < 2 * c → n / c = 1 := fun n hle hlt =>
            Nat.div_eq_of_lt_le (by omega) (by omega)
          rw [Nat.sub_eq_zero_of_le hle, Nat.zero_add, hone _ (by omega) (by omega),
            hone _ (by omega) (by omega)]
      rw [batches_cons, batches_cons, hdiv]
      omega

/-! ## All batches

How many batches are needed depends on each queue on its own. -/

theorem serveAll_of_none (h : serve c qs = none) (k : ℕ) : serveAll c k qs = [] := by
  cases k with
  | zero => rfl
  | succ k => rw [serveAll, h]

/-- Otherwise the first batch comes, and the others behind it. -/
theorem serveAll_of_some (h : serve c qs = some (i, b, qs')) (k : ℕ) :
    serveAll c (k + 1) qs = (i, b) :: serveAll c k qs' := by
  rw [serveAll, h]

/-- **Batches are served in order, and nothing twice.** -/
theorem serveAll_prefix (c k : ℕ) (qs : List (List α)) :
    (serveAll c k qs).flatMap Prod.snd <+: qs.flatten := by
  induction k generalizing qs with
  | zero => exact List.nil_prefix
  | succ k ih =>
    rw [serveAll]
    split
    · exact List.nil_prefix
    · rename_i i b qs' h
      obtain ⟨-, -, -, -, -, hflat⟩ := serve_some h
      rw [List.flatMap_cons, hflat]
      exact (List.prefix_append_right_inj b).mpr (ih qs')

/-- **Enough batches serve everything.** -/
theorem serveAll_complete (hc : 0 < c) (h : batches c qs ≤ k) :
    (serveAll c k qs).flatMap Prod.snd = qs.flatten := by
  induction k generalizing qs with
  | zero =>
    cases hserve : serve c qs with
    | none => exact (serve_none hserve).symm
    | some r =>
      have := batches_serve hc hserve
      omega
  | succ k ih =>
    rw [serveAll]
    split
    · rename_i hserve
      exact (serve_none hserve).symm
    · rename_i i b qs' hserve
      obtain ⟨-, -, -, -, -, hflat⟩ := serve_some hserve
      have := batches_serve hc hserve
      rw [List.flatMap_cons, hflat, ih (by omega)]

/-- **An item is in one batch exactly if it is served**, when nothing is queued twice. -/
theorem countP_mem [DecidableEq β] {f : γ → List β} {bs : List γ} (h : (bs.flatMap f).Nodup)
    (x : β) : bs.countP (fun b => x ∈ f b) = if x ∈ bs.flatMap f then 1 else 0 := by
  induction bs with
  | nil => rfl
  | cons b bs ih =>
    obtain ⟨-, hbs, hdisj⟩ := List.nodup_append.mp (List.flatMap_cons ▸ h)
    rw [List.countP_cons, ih hbs, List.flatMap_cons]
    simp only [decide_eq_true_eq]
    by_cases hx : x ∈ f b
    · have hrest : x ∉ bs.flatMap f := fun hx' => hdisj x hx x hx' rfl
      rw [if_neg hrest, if_pos hx, if_pos (List.mem_append_left _ hx)]
    · rw [if_neg hx, Nat.add_zero]
      exact if_congr (by rw [List.mem_append, or_iff_right hx]) rfl rfl

/-- **Each batch is a run of one queue.** -/
theorem serveAll_infix {x : ℕ × List α} (hx : x ∈ serveAll c k qs) :
    ∃ q, qs[x.1]? = some q ∧ x.2 <:+: q ∧ x.2.length ≤ c := by
  obtain ⟨j, batch⟩ := x
  induction k generalizing qs with
  | zero => exact absurd hx List.not_mem_nil
  | succ k ih =>
    rw [serveAll] at hx
    split at hx
    · exact absurd hx List.not_mem_nil
    · rename_i i b qs' hserve
      obtain ⟨q, hq, -, rfl, rfl, -⟩ := serve_some hserve
      rcases List.mem_cons.mp hx with heq | hx
      · obtain ⟨rfl, rfl⟩ := Prod.mk.inj heq
        exact ⟨q, hq, (List.take_prefix c q).isInfix, List.length_take_le c q⟩
      · obtain ⟨q', hq', hinfix, hlen⟩ := ih hx
        rw [List.getElem?_set] at hq'
        split at hq'
        case isTrue heq =>
          subst heq
          have hlt : i < qs.length := (List.getElem?_eq_some_iff.mp hq).1
          rw [if_pos hlt] at hq'
          obtain rfl := Option.some.inj hq'
          exact ⟨q, hq, hinfix.trans (List.drop_suffix c q).isInfix, hlen⟩
        case isFalse => exact ⟨q', hq', hinfix, hlen⟩

end Batches
