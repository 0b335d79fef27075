import Mathlib.Data.List.Infix

/-!
# Machinery/Runs — runs of a partial step function

A system is a step `step : σ → α → Option σ` on its states, with `none` for a step that crashes.
`run` feeds it a list of actions.  Two predicates talk about a whole run: `Always` about every
state it passes through, `EachStep` about every action together with the state it is taken in.

* `always_of_inv` — an invariant of the steps is an invariant of the runs, and the run never
  crashes.
* `always_iff_eachStep` — when one step keeps `Q` exactly if `C` holds of it, a run stays in `Q`
  exactly if `C` holds of each of its steps.
* `run_of_simulates` — what one step matches, a run matches.
-/

namespace Runs

variable {σ α : Type*} {step : σ → α → Option σ}

/-- The state a run ends in. -/
def run (step : σ → α → Option σ) (s : σ) : List α → Option σ
  | [] => some s
  | a :: as => (step s a).bind fun t => run step t as

/-- Every state the run passes through, its first and its last included, satisfies `Q`. -/
def Always (step : σ → α → Option σ) (Q : σ → Prop) (s : σ) (as : List α) : Prop :=
  ∀ pre, pre <+: as → ∃ t, run step s pre = some t ∧ Q t

/-- Every action of the run satisfies `C` in the state it is taken in. -/
def EachStep (step : σ → α → Option σ) (C : σ → α → Prop) (s : σ) (as : List α) : Prop :=
  ∀ pre a, pre ++ [a] <+: as → ∃ t, run step s pre = some t ∧ C t a

/-- How many actions of the run satisfy `C` in the state they are taken in. -/
def countSteps (step : σ → α → Option σ) (C : σ → α → Prop) [∀ s a, Decidable (C s a)] (s : σ) :
    List α → ℕ
  | [] => 0
  | a :: as => (if C s a then 1 else 0) + (step s a).elim 0 fun t => countSteps step C t as

/-- A run is its first step, and the run from there. -/
theorem run_cons {s t : σ} {a : α} (h : step s a = some t) (as : List α) :
    run step s (a :: as) = run step t as := by rw [run, h, Option.bind_some]

/-- Two runs one after the other are one. -/
theorem run_append (step : σ → α → Option σ) (s : σ) (as bs : List α) :
    run step s (as ++ bs) = (run step s as).bind fun t => run step t bs := by
  induction as generalizing s with
  | nil => rfl
  | cons a as ih =>
    rw [List.cons_append, run, run, Option.bind_assoc]
    exact congrArg _ (funext ih)

/-! ## One step at a time -/

/-- Without a step there is only the start to look at. -/
theorem always_nil {Q : σ → Prop} {s : σ} : Always step Q s [] ↔ Q s := by
  constructor
  · intro h
    obtain ⟨t, ht, hQ⟩ := h [] List.prefix_rfl
    obtain rfl : s = t := Option.some.inj ht
    exact hQ
  · rintro hQ pre hpre
    obtain rfl : pre = [] := List.prefix_nil.mp hpre
    exact ⟨s, rfl, hQ⟩

/-- Otherwise there is the start, and all that comes after the first step. -/
theorem always_cons {Q : σ → Prop} {s t : σ} {a : α} (h : step s a = some t) (as : List α) :
    Always step Q s (a :: as) ↔ Q s ∧ Always step Q t as := by
  constructor
  · intro H
    refine ⟨?_, fun pre hpre => ?_⟩
    · obtain ⟨u, hu, hQ⟩ := H [] List.nil_prefix
      obtain rfl : s = u := Option.some.inj hu
      exact hQ
    · obtain ⟨u, hu, hQ⟩ := H (a :: pre) (List.cons_prefix_cons.mpr ⟨rfl, hpre⟩)
      exact ⟨u, by rwa [run_cons h] at hu, hQ⟩
  · rintro ⟨hQ, H⟩ pre hpre
    cases pre with
    | nil => exact ⟨s, rfl, hQ⟩
    | cons b pre =>
      obtain ⟨rfl, htail⟩ := List.cons_prefix_cons.mp hpre
      rw [run_cons h]
      exact H pre htail

/-- Without a step there is no condition. -/
theorem eachStep_nil {C : σ → α → Prop} {s : σ} : EachStep step C s [] := by
  intro pre a hpre
  simp at hpre

/-- Otherwise the first step has to meet the condition, and so have those after it. -/
theorem eachStep_cons {C : σ → α → Prop} {s t : σ} {a : α} (h : step s a = some t)
    (as : List α) : EachStep step C s (a :: as) ↔ C s a ∧ EachStep step C t as := by
  constructor
  · intro H
    refine ⟨?_, fun pre b hpre => ?_⟩
    · obtain ⟨u, hu, hC⟩ := H [] a (by simp)
      obtain rfl : s = u := Option.some.inj hu
      exact hC
    · obtain ⟨u, hu, hC⟩ := H (a :: pre) b (List.cons_prefix_cons.mpr ⟨rfl, hpre⟩)
      exact ⟨u, by rwa [run_cons h] at hu, hC⟩
  · rintro ⟨hC, H⟩ pre b hpre
    cases pre with
    | nil =>
      obtain ⟨rfl, -⟩ := List.cons_prefix_cons.mp hpre
      exact ⟨s, rfl, hC⟩
    | cons c pre =>
      obtain ⟨rfl, htail⟩ := List.cons_prefix_cons.mp hpre
      rw [run_cons h]
      exact H pre b htail

/-! ## The two run rules -/

/-- **An invariant of the admitted steps holds all along a run of admitted actions**, and such a
run never crashes. -/
theorem always_of_inv {I : σ → Prop} {ok : α → Prop}
    (hstep : ∀ s a, I s → ok a → ∃ t, step s a = some t ∧ I t) {s : σ} (hs : I s)
    (as : List α) (hok : ∀ a ∈ as, ok a) : Always step I s as := by
  induction as generalizing s with
  | nil => exact always_nil.mpr hs
  | cons a as ih =>
    obtain ⟨t, ht, hI⟩ := hstep s a hs (hok a (by simp))
    exact (always_cons ht as).mpr ⟨hs, ih hI fun b hb => hok b (List.mem_cons_of_mem _ hb)⟩

/-- **Where a run that does not crash ends, an invariant of its steps holds.** -/
theorem inv_of_run {I : σ → Prop} (hstep : ∀ s a t, I s → step s a = some t → I t) {s t : σ}
    (hs : I s) {as : List α} (hrun : run step s as = some t) : I t := by
  induction as generalizing s with
  | nil => exact Option.some.inj hrun ▸ hs
  | cons a as ih =>
    obtain ⟨u, hu, hrest⟩ := Option.bind_eq_some_iff.mp hrun
    exact ih (hstep s a u hs hu) hrest

/-- **A measure that the steps of `C` raise by one, and no others change, counts them.** -/
theorem eq_of_run {I : σ → Prop} {μ : σ → ℕ} {C : σ → α → Prop} [∀ s a, Decidable (C s a)]
    (hstep : ∀ s a t, I s → step s a = some t → I t ∧ μ t = μ s + if C s a then 1 else 0)
    {s t : σ} (hs : I s) {as : List α} (hrun : run step s as = some t) :
    μ t = μ s + countSteps step C s as := by
  induction as generalizing s with
  | nil => exact Option.some.inj hrun ▸ rfl
  | cons a as ih =>
    obtain ⟨u, hu, hrest⟩ := Option.bind_eq_some_iff.mp hrun
    obtain ⟨hI, heq⟩ := hstep s a u hs hu
    rw [ih hI hrest, heq, countSteps, hu, Option.elim_some, Nat.add_assoc]

/-- What an invariant says of each admitted step holds of each step of a run. -/
theorem eachStep_of_inv {I : σ → Prop} {ok : α → Prop} {C : σ → α → Prop}
    (hstep : ∀ s a, I s → ok a → ∃ t, step s a = some t ∧ I t)
    (hC : ∀ s a, I s → ok a → C s a) {s : σ} (hs : I s)
    (as : List α) (hok : ∀ a ∈ as, ok a) : EachStep step C s as := by
  induction as generalizing s with
  | nil => exact eachStep_nil
  | cons a as ih =>
    have ha := hok a (by simp)
    obtain ⟨t, ht, hI⟩ := hstep s a hs ha
    exact (eachStep_cons ht as).mpr
      ⟨hC s a hs ha, ih hI fun b hb => hok b (List.mem_cons_of_mem _ hb)⟩

/-- **A run stays in an invariant if each of its steps satisfies what keeps it.** -/
theorem always_of_eachStep {I : σ → Prop} {C : σ → α → Prop}
    (hstep : ∀ s a, I s → C s a → ∃ t, step s a = some t ∧ I t) {s : σ} (hs : I s)
    (as : List α) (h : EachStep step C s as) : Always step I s as := by
  induction as generalizing s with
  | nil => exact always_nil.mpr hs
  | cons a as ih =>
    obtain ⟨u, hu, hC⟩ := h [] a (by simp)
    obtain rfl : s = u := Option.some.inj hu
    obtain ⟨t, ht, hI⟩ := hstep s a hs hC
    exact (always_cons ht as).mpr ⟨hs, ih hI ((eachStep_cons ht as).mp h).2⟩

/-- Checking each step of one run. -/
def checkEach (step : σ → α → Option σ) (C : σ → α → Bool) (s : σ) : List α → Bool
  | [] => true
  | a :: as => C s a && (step s a).any fun t => checkEach step C t as

/-- A condition that can be decided is checked by going through the run. -/
theorem eachStep_of_checkEach {C : σ → α → Prop} [∀ s a, Decidable (C s a)] {s : σ} (as : List α)
    (h : checkEach step (fun s a => C s a) s as = true) : EachStep step C s as := by
  induction as generalizing s with
  | nil => exact eachStep_nil
  | cons a as ih =>
    rw [checkEach, Bool.and_eq_true_iff, decide_eq_true_iff, Option.any_eq_true] at h
    obtain ⟨hC, t, ht, hrest⟩ := h
    exact (eachStep_cons ht as).mpr ⟨hC, ih hrest⟩

/-- The last state of a run is one it passes through. -/
theorem Always.last {Q : σ → Prop} {s : σ} {as : List α} (h : Always step Q s as) :
    ∃ t, run step s as = some t ∧ Q t := h as List.prefix_rfl

theorem not_always_of_last {Q : σ → Prop} (P : σ → Prop) [DecidablePred P] (h : ∀ t, Q t → P t)
    {s : σ} {as : List α} (hlast : (run step s as).all (fun t => ¬ P t) = true) :
    ¬ Always step Q s as := by
  intro H
  obtain ⟨t, ht, hQ⟩ := H.last
  rw [ht] at hlast
  exact absurd (h t hQ) (by simpa using hlast)

/-- What is always true has consequences that are. -/
theorem Always.imp {Q Q' : σ → Prop} (h : ∀ t, Q t → Q' t) {s : σ} {as : List α}
    (H : Always step Q s as) : Always step Q' s as := fun pre hpre =>
  (H pre hpre).imp fun t ht => ⟨ht.1, h t ht.2⟩

/-- **A run stays in `Q` exactly if each of its steps satisfies `C`**, when a step that satisfies
it keeps `Q`, and one that does not loses it or crashes.  `I` is what the step needs to know
besides. -/
theorem always_iff_eachStep_of_crash {I Q : σ → Prop} {C : σ → α → Prop}
    (hkeep : ∀ s a, I s → Q s → C s a → ∃ t, step s a = some t ∧ Q t ∧ I t)
    (hlose : ∀ s a t, I s → Q s → ¬ C s a → step s a = some t → ¬ Q t)
    {s : σ} (hI : I s) (hQ : Q s) (as : List α) :
    Always step Q s as ↔ EachStep step C s as := by
  induction as generalizing s with
  | nil => exact ⟨fun _ => eachStep_nil, fun _ => always_nil.mpr hQ⟩
  | cons a as ih =>
    by_cases hC : C s a
    · obtain ⟨t, ht, hQt, hIt⟩ := hkeep s a hI hQ hC
      rw [always_cons ht, eachStep_cons ht, ih hIt hQt]
      exact ⟨fun H => ⟨hC, H.2⟩, fun H => ⟨hQ, H.2⟩⟩
    · refine iff_of_false (fun H => ?_) (fun H => ?_)
      · obtain ⟨t, ht, hQt⟩ := H [a] (by simp)
        rw [run, Option.bind_eq_some_iff] at ht
        obtain ⟨u, hu, hut⟩ := ht
        obtain rfl : u = t := Option.some.inj hut
        exact hlose s a u hI hQ hC hu hQt
      · obtain ⟨u, hu, hCu⟩ := H [] a (by simp)
        obtain rfl : s = u := Option.some.inj hu
        exact hC hCu

/-- **A run stays in `Q` exactly if each of its steps satisfies `C`**, when that is so of one
step.  `I` is what the step needs to know besides `Q`; a step that satisfies `C` keeps it. -/
theorem always_iff_eachStep {I Q : σ → Prop} {C : σ → α → Prop}
    (hstep : ∀ s a, I s → Q s → ∃ t, step s a = some t ∧ (Q t ↔ C s a) ∧ (C s a → I t))
    {s : σ} (hI : I s) (hQ : Q s) (as : List α) :
    Always step Q s as ↔ EachStep step C s as := by
  refine always_iff_eachStep_of_crash (I := I) (fun s a hI hQ hC => ?_)
    (fun s a t hI hQ hC ht hQt => ?_) hI hQ as
  · obtain ⟨t, ht, hiff, hIt⟩ := hstep s a hI hQ
    exact ⟨t, ht, hiff.mpr hC, hIt hC⟩
  · obtain ⟨u, hu, hiff, -⟩ := hstep s a hI hQ
    obtain rfl := Option.some.inj (hu.symm.trans ht)
    exact hC (hiff.mp hQt)

/-! ## Simulation -/

/-- **A run is matched step by step by the run it simulates**, and neither crashes. -/
theorem run_of_simulates {τ β : Type*} {step' : τ → β → Option τ} {f : α → β} {R : σ → τ → Prop}
    (hstep : ∀ s t a, R s t → ∃ s' t', step s a = some s' ∧ step' t (f a) = some t' ∧ R s' t')
    {s : σ} {t : τ} (h : R s t) (as : List α) :
    ∃ s' t', run step s as = some s' ∧ run step' t (as.map f) = some t' ∧ R s' t' := by
  induction as generalizing s t with
  | nil => exact ⟨s, t, rfl, rfl, h⟩
  | cons a as ih =>
    obtain ⟨s₁, t₁, hs, ht, hR⟩ := hstep s t a h
    rw [List.map_cons, run_cons hs, run_cons ht]
    exact ih hR

end Runs
