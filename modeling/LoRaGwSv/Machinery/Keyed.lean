import Mathlib.Data.List.Nodup
import Mathlib.Data.List.Perm.Subperm
import Mathlib.Data.List.Sort

/-!
# Machinery/Keyed — lists searched by a key

A list of records with a key, searched from the head: `lookup` finds the first record with a key,
`update` rewrites that record in place, `erase` takes it out.  When the keys are pairwise distinct
the list *is* the partial map `fun k => lookup key k l`, and each operation is the expected
operation on that map: `lookup_update`, `lookup_erase`, `lookup_modify`, `lookup_perm`.
-/

namespace Keyed

variable {α κ : Type*} [DecidableEq κ] (key : α → κ)

/-- The first record with key `k`. -/
def lookup (k : κ) (l : List α) : Option α := l.find? fun x => key x = k

/-- Rewrite the first record with key `k` in place. -/
def update (k : κ) (f : α → α) : List α → List α
  | [] => []
  | x :: l => if key x = k then f x :: l else x :: update k f l

/-- Take the first record with key `k` out. -/
def erase (k : κ) (l : List α) : List α := l.eraseP fun x => key x = k

variable {key} {k k' : κ} {l l' : List α} {x : α}

@[simp] theorem lookup_nil : lookup key k [] = none := rfl

theorem lookup_cons (x : α) (l : List α) :
    lookup key k (x :: l) = if key x = k then some x else lookup key k l := by
  by_cases h : key x = k <;> simp [lookup, h]

theorem mem_of_lookup (h : lookup key k l = some x) : x ∈ l := List.mem_of_find?_eq_some h

theorem key_of_lookup (h : lookup key k l = some x) : key x = k := by
  simpa using List.find?_some h

/-- Nothing is found exactly if no record has the key. -/
theorem lookup_eq_none : lookup key k l = none ↔ ∀ x ∈ l, key x ≠ k := by simp [lookup]

/-- A key of the list is found, at the first record that has it. -/
theorem exists_lookup (hx : x ∈ l) : ∃ y, lookup key (key x) l = some y := by
  rw [← Option.isSome_iff_exists, lookup, List.find?_isSome]
  exact ⟨x, hx, by simp⟩

/-! ## Along a map

Records may be seen through a map that keeps their keys. -/

section Along

variable {β : Type*} {key' : β → κ} {g : α → β}

/-- A map that keeps the keys keeps what is found. -/
theorem lookup_map (hg : ∀ x, key' (g x) = key x) (l : List α) :
    lookup key' k (l.map g) = (lookup key k l).map g := by
  induction l with
  | nil => rfl
  | cons x l ih =>
    rw [List.map_cons, lookup_cons, lookup_cons, hg, ih]
    split <;> rfl

/-- A map that keeps the keys commutes with taking out. -/
theorem erase_map (hg : ∀ x, key' (g x) = key x) (l : List α) :
    erase key' k (l.map g) = (erase key k l).map g := by
  rw [erase, erase, List.eraseP_map]
  simp only [Function.comp_def, hg]

theorem update_map {f : α → α} {f' : β → β} (hg : ∀ x, key' (g x) = key x)
    (hf : ∀ x, g (f x) = f' (g x)) (l : List α) :
    update key' k f' (l.map g) = (update key k f l).map g := by
  induction l with
  | nil => rfl
  | cons x l ih =>
    rw [List.map_cons, update, update, hg, ih]
    split
    · rw [List.map_cons, hf]
    · rw [List.map_cons]

/-- What is overwritten is overwritten, whatever it was. -/
theorem update_const_map_update {f : α → α} (hg : ∀ x, key' (g x) = key x)
    (hf : ∀ x, key x = k → key (f x) = k) (y : β) (l : List α) :
    update key' k (fun _ => y) ((update key k f l).map g)
      = update key' k (fun _ => y) (l.map g) := by
  induction l with
  | nil => rfl
  | cons x l ih =>
    rw [update]
    split
    case isTrue hx =>
      rw [List.map_cons, List.map_cons, update, update, hg, hg, if_pos hx, if_pos (hf x hx)]
    case isFalse hx =>
      rw [List.map_cons, List.map_cons, update, update, hg, if_neg hx, if_neg hx, ih]

end Along

/-! ## The place of a record -/

variable {pre post : List α}

/-- **What is found splits the list**: before it no record has the key. -/
theorem exists_of_lookup (h : lookup key k l = some x) :
    ∃ pre post, l = pre ++ x :: post ∧ (∀ y ∈ pre, key y ≠ k) ∧ key x = k := by
  obtain ⟨-, pre, post, hl, hpre⟩ := List.find?_eq_some_iff_append.mp h
  exact ⟨pre, post, hl, fun y hy => by simpa using hpre y hy, key_of_lookup h⟩

omit [DecidableEq κ] in
/-- The first record with a key is in one place. -/
theorem place_unique {pre' post' : List α} {x' : α} (hpre : ∀ y ∈ pre, key y ≠ k)
    (hpre' : ∀ y ∈ pre', key y ≠ k) (hx : key x = k) (hx' : key x' = k)
    (h : pre ++ x :: post = pre' ++ x' :: post') : pre = pre' ∧ x = x' ∧ post = post' := by
  induction pre generalizing pre' with
  | nil =>
    cases pre' with
    | nil => simpa using h
    | cons y pre' =>
      obtain ⟨rfl, -⟩ := List.cons_eq_cons.mp h
      exact absurd hx (hpre' x List.mem_cons_self)
  | cons z pre ih =>
    cases pre' with
    | nil =>
      obtain ⟨rfl, -⟩ := List.cons_eq_cons.mp h
      exact absurd hx' (hpre z List.mem_cons_self)
    | cons y pre' =>
      obtain ⟨rfl, htail⟩ := List.cons_eq_cons.mp h
      obtain ⟨rfl, hrest⟩ := ih (fun y hy => hpre y (List.mem_cons_of_mem z hy))
        (fun y hy => hpre' y (List.mem_cons_of_mem z hy)) htail
      exact ⟨rfl, hrest⟩

theorem update_place (f : α → α) (hpre : ∀ y ∈ pre, key y ≠ k) (hx : key x = k)
    (post : List α) : update key k f (pre ++ x :: post) = pre ++ f x :: post := by
  induction pre with
  | nil => rw [List.nil_append, update, if_pos hx, List.nil_append]
  | cons z pre ih =>
    rw [List.cons_append, update, if_neg (hpre z List.mem_cons_self),
      ih fun y hy => hpre y (List.mem_cons_of_mem z hy), List.cons_append]

theorem lookup_place (hpre : ∀ y ∈ pre, key y ≠ k) (hx : key x = k) (post : List α) :
    lookup key k (pre ++ x :: post) = some x := by
  rw [lookup, List.find?_append, List.find?_eq_none.mpr (by simpa using hpre), Option.none_or,
    List.find?_cons_of_pos (by simpa using hx)]

theorem erase_place (hpre : ∀ y ∈ pre, key y ≠ k) (hx : key x = k) (post : List α) :
    erase key k (pre ++ x :: post) = pre ++ post := by
  rw [erase, List.eraseP_append_right _ (by simpa using hpre),
    List.eraseP_cons_of_pos (by simpa using hx)]

/-! ## Distinct keys

Without two records of one key the list is a partial map. -/

/-- With distinct keys a record is found by its own. -/
theorem lookup_self (hl : (l.map key).Nodup) (hx : x ∈ l) : lookup key (key x) l = some x := by
  obtain ⟨y, hy⟩ : ∃ y, lookup key (key x) l = some y := exists_lookup hx
  rw [hy, List.inj_on_of_nodup_map hl (mem_of_lookup hy) hx (key_of_lookup hy)]

/-- **With distinct keys, looking up is membership.** -/
theorem eq_of_lookup {y : α} (hl : (l.map key).Nodup) (h : lookup key k l = some x) (hy : y ∈ l)
    (hk : key y = k) : y = x := by
  subst hk
  exact Option.some.inj ((lookup_self hl hy).symm.trans h)

theorem lookup_eq_some (hl : (l.map key).Nodup) :
    lookup key k l = some x ↔ x ∈ l ∧ key x = k := by
  constructor
  · exact fun h => ⟨mem_of_lookup h, key_of_lookup h⟩
  · rintro ⟨hx, rfl⟩
    exact lookup_self hl hx

omit [DecidableEq κ] in
/-- There are no more distinct keys than numbers that tell them apart. -/
theorem length_le_of_nodup {f : κ → ℕ} {N : ℕ} (hf : Function.Injective f) (hlt : ∀ k, f k < N)
    (hl : (l.map key).Nodup) : l.length ≤ N := by
  have hsub : (l.map key).map f ⊆ List.range N := fun x hx => by
    obtain ⟨k, -, rfl⟩ := List.mem_map.mp hx
    exact List.mem_range.mpr (hlt k)
  simpa using ((hl.map hf).subperm hsub).length_le

/-- With distinct keys, the order of the list does not matter. -/
theorem lookup_perm (hl : (l.map key).Nodup) (h : l.Perm l') :
    lookup key k l = lookup key k l' := by
  have hl' : (l'.map key).Nodup := (h.map key).nodup_iff.mp hl
  refine Option.ext fun x => ?_
  rw [lookup_eq_some hl, lookup_eq_some hl', h.mem_iff]

/-- **A list with distinct keys is its map**, but for the order. -/
theorem perm_of_lookup (hl : (l.map key).Nodup) (hl' : (l'.map key).Nodup)
    (h : ∀ k, lookup key k l = lookup key k l') : l.Perm l' := by
  refine (List.perm_ext_iff_of_nodup (List.Nodup.of_map key hl) (List.Nodup.of_map key hl')).mpr
    fun x => ?_
  have hmem : ∀ {l : List α}, (l.map key).Nodup → (x ∈ l ↔ lookup key (key x) l = some x) :=
    fun hl => ⟨lookup_self hl, mem_of_lookup⟩
  rw [hmem hl, hmem hl', h]

/-! ## Updating in place -/

/-- What the update leaves alone in the record, it leaves alone in the list. -/
theorem map_update {β : Type*} {g : α → β} {f : α → α} (hf : ∀ x, key x = k → g (f x) = g x) :
    (update key k f l).map g = l.map g := by
  induction l with
  | nil => rfl
  | cons x l ih =>
    rw [update]
    split
    case isTrue hx => simp [hf x hx]
    case isFalse => simp [ih]

/-- A record afterwards is one from before, or one that has been rewritten. -/
theorem mem_update {f : α → α} (hx : x ∈ update key k f l) : x ∈ l ∨ ∃ y ∈ l, f y = x := by
  induction l with
  | nil => exact absurd hx List.not_mem_nil
  | cons y l ih =>
    rw [update] at hx
    split at hx
    case isTrue =>
      rcases List.mem_cons.mp hx with rfl | hx
      · exact Or.inr ⟨y, List.mem_cons_self, rfl⟩
      · exact Or.inl (List.mem_cons_of_mem y hx)
    case isFalse =>
      rcases List.mem_cons.mp hx with rfl | hx
      · exact Or.inl List.mem_cons_self
      · exact (ih hx).imp (List.mem_cons_of_mem y)
          fun ⟨z, hz, hfz⟩ => ⟨z, List.mem_cons_of_mem y hz, hfz⟩

/-- **An update changes what is found under its key and nothing else.** -/
theorem lookup_update {f : α → α} (hf : ∀ x, key x = k → key (f x) = k) (l : List α) :
    lookup key k' (update key k f l)
      = if k' = k then (lookup key k l).map f else lookup key k' l := by
  induction l with
  | nil => simp [update]
  | cons x l ih =>
    rw [update]
    by_cases hx : key x = k
    · rw [if_pos hx, lookup_cons, lookup_cons, lookup_cons, if_pos hx, hf x hx, hx]
      by_cases hk : k' = k
      · rw [if_pos hk, if_pos hk.symm, Option.map_some]
      · rw [if_neg hk, if_neg (Ne.symm hk), if_neg (Ne.symm hk)]
    · rw [if_neg hx, lookup_cons, lookup_cons, lookup_cons, if_neg hx, ih]
      by_cases hk : k' = k
      · rw [if_pos hk, if_pos hk, hk, if_neg hx]
      · rw [if_neg hk, if_neg hk]

/-- A key that is not there is not updated. -/
theorem update_eq_self {f : α → α} (h : lookup key k l = none) : update key k f l = l := by
  induction l with
  | nil => rfl
  | cons x l ih =>
    rw [lookup_cons] at h
    split at h
    case isTrue => exact absurd h (by simp)
    case isFalse hx => rw [update, if_neg hx, ih h]

/-- An update keeps the number of records. -/
theorem length_update (f : α → α) (l : List α) : (update key k f l).length = l.length := by
  induction l with
  | nil => rfl
  | cons x l ih =>
    rw [update]
    split
    · rfl
    · simp [ih]

theorem update_eq_of_lookup {f : α → α} (h : lookup key k l = some x) :
    update key k f l = update key k (fun _ => f x) l := by
  induction l with
  | nil => rfl
  | cons y l ih =>
    rw [lookup_cons] at h
    rw [update, update]
    split at h
    case isTrue hy =>
      obtain rfl := Option.some.inj h
      rw [if_pos hy, if_pos hy]
    case isFalse hy => rw [if_neg hy, if_neg hy, ih h]

/-- Writing back what is there changes nothing. -/
theorem update_const_eq_self (h : lookup key k l = some x) : update key k (fun _ => x) l = l := by
  induction l with
  | nil => rfl
  | cons y l ih =>
    rw [lookup_cons] at h
    rw [update]
    split at h
    case isTrue hy => rw [if_pos hy, Option.some.inj h]
    case isFalse hy => rw [if_neg hy, ih h]

/-- What holds of every record still does exactly if it holds of the record updated. -/
theorem forall_mem_update {f : α → α} {P : α → Prop} (h : lookup key k l = some x)
    (hl : ∀ y ∈ l, P y) : (∀ y ∈ update key k f l, P y) ↔ P (f x) := by
  induction l with
  | nil => simp at h
  | cons y l ih =>
    rw [lookup_cons] at h
    obtain ⟨hy, hl⟩ := List.forall_mem_cons.mp hl
    rw [update]
    split at h
    case isTrue hk =>
      obtain rfl := Option.some.inj h
      rw [if_pos hk, List.forall_mem_cons]
      exact and_iff_left hl
    case isFalse hk =>
      rw [if_neg hk, List.forall_mem_cons, ih h hl]
      exact and_iff_right hy

/-- Only the record updated may count differently. -/
theorem countP_update {f : α → α} {p : α → Bool} (h : lookup key k l = some x) :
    (update key k f l).countP p + (if p x then 1 else 0)
      = l.countP p + (if p (f x) then 1 else 0) := by
  induction l with
  | nil => simp at h
  | cons y l ih =>
    rw [lookup_cons] at h
    rw [update]
    split at h
    case isTrue hy =>
      obtain rfl := Option.some.inj h
      rw [if_pos hy, List.countP_cons, List.countP_cons]
      omega
    case isFalse hy =>
      rw [if_neg hy, List.countP_cons, List.countP_cons]
      have := ih h
      omega

/-- With distinct keys, updating in place is mapping over the list. -/
theorem update_eq_map {f : α → α} (hl : (l.map key).Nodup) (hx : x ∈ l) :
    update key (key x) (fun _ => f x) l = l.map fun y => if key y = key x then f y else y := by
  induction l with
  | nil => exact absurd hx List.not_mem_nil
  | cons y l ih =>
    obtain ⟨hy, hl'⟩ := List.nodup_cons.mp (List.map_cons ▸ hl)
    rw [update, List.map_cons]
    by_cases hxy : key y = key x
    · obtain rfl := List.inj_on_of_nodup_map hl List.mem_cons_self hx hxy
      have hrest : l.map (fun z => if key z = key y then f z else z) = l := by
        refine (List.map_congr_left (g := id) fun z hz => if_neg ?_).trans (List.map_id l)
        exact fun hzy => hy (hzy ▸ List.mem_map_of_mem hz)
      rw [if_pos rfl, if_pos rfl, hrest]
    · rw [if_neg hxy, if_neg hxy, ih hl' ((List.mem_cons.mp hx).resolve_left
        fun h => hxy (h ▸ rfl))]

/-- Updating through a position is updating through the key it holds. -/
theorem lookup_modify {f : α → α} (hf : key (f x) = key x) (hl : (l.map key).Nodup)
    {i : ℕ} (hi : l[i]? = some x) :
    lookup key k (l.modify i f) = if k = key x then some (f x) else lookup key k l := by
  induction l generalizing i with
  | nil => simp at hi
  | cons y l ih =>
    obtain ⟨hy, hl⟩ := List.nodup_cons.mp (List.map_cons ▸ hl)
    cases i with
    | zero =>
      obtain rfl : y = x := by simpa using hi
      rw [List.modify_zero_cons, lookup_cons, lookup_cons, hf]
      by_cases hk : k = key y
      · rw [if_pos hk.symm, if_pos hk]
      · rw [if_neg (Ne.symm hk), if_neg hk, if_neg (Ne.symm hk)]
    | succ i =>
      rw [List.getElem?_cons_succ] at hi
      have hne : key y ≠ key x := fun h =>
        hy (h ▸ List.mem_map_of_mem (List.mem_of_getElem? hi))
      rw [List.modify_succ_cons, lookup_cons, lookup_cons, ih hl hi]
      by_cases hk : k = key x
      · rw [if_pos hk, if_neg (hk ▸ hne), if_pos hk]
      · rw [if_neg hk, if_neg hk]

omit [DecidableEq κ] in

/-- Rewriting a place keeps the keys if the function does. -/
theorem map_key_modify {f : α → α} (hf : ∀ x, key (f x) = key x) (l : List α) (i : ℕ) :
    (l.modify i f).map key = l.map key := by
  induction l generalizing i with
  | nil => simp
  | cons y l ih =>
    cases i with
    | zero => simp [hf]
    | succ i => simp [ih]

/-! ## Taking a record out -/

/-- Taking out leaves the others in order. -/
theorem erase_sublist (k : κ) (l : List α) : (erase key k l).Sublist l := List.eraseP_sublist

theorem nodup_erase (hl : (l.map key).Nodup) (k : κ) : ((erase key k l).map key).Nodup :=
  hl.sublist ((erase_sublist k l).map key)

/-- A key that is not there is not taken out. -/
theorem erase_eq_self (h : lookup key k l = none) : erase key k l = l :=
  List.eraseP_of_forall_not fun x hx => by simpa using lookup_eq_none.mp h x hx

/-- The head is taken out if it has the key. -/
theorem erase_cons (x : α) (l : List α) :
    erase key k (x :: l) = if key x = k then l else x :: erase key k l := by
  by_cases h : key x = k <;> simp [erase, h]

/-- **What has been taken out is not found**, and all else is. -/
theorem lookup_erase (hl : (l.map key).Nodup) :
    lookup key k' (erase key k l) = if k' = k then none else lookup key k' l := by
  induction l with
  | nil => simp [erase]
  | cons x l ih =>
    obtain ⟨hx, hl⟩ := List.nodup_cons.mp (List.map_cons ▸ hl)
    rw [erase_cons]
    by_cases h : key x = k
    · rw [if_pos h, lookup_cons]
      by_cases hk : k' = k
      · rw [if_pos hk, lookup_eq_none]
        rintro y hy rfl
        exact hx (h.trans hk.symm ▸ List.mem_map_of_mem hy)
      · rw [if_neg hk, h, if_neg (Ne.symm hk)]
    · rw [if_neg h, lookup_cons, lookup_cons, ih hl]
      by_cases hk : k' = k
      · rw [if_pos hk, if_pos hk, hk, if_neg h]
      · rw [if_neg hk, if_neg hk]

theorem perm_cons_erase (h : lookup key k l = some x) : l.Perm (x :: erase key k l) := by
  induction l with
  | nil => simp at h
  | cons y l ih =>
    rw [lookup_cons] at h
    rw [erase_cons]
    by_cases hy : key y = k
    · rw [if_pos hy] at h ⊢
      rw [Option.some.inj h]
    · rw [if_neg hy] at h ⊢
      exact ((ih h).cons y).trans (List.Perm.swap x y _)

/-- With distinct keys taking out leaves the records with other keys. -/
theorem erase_eq_filter (hl : (l.map key).Nodup) (k : κ) :
    erase key k l = l.filter fun x => key x ≠ k := by
  induction l with
  | nil => rfl
  | cons x l ih =>
    obtain ⟨hx, hl⟩ := List.nodup_cons.mp (List.map_cons ▸ hl)
    rw [erase_cons]
    by_cases h : key x = k
    · have hrest : l.filter (fun y => key y ≠ k) = l := List.filter_eq_self.mpr fun y hy => by
        simpa using fun hk : key y = k => hx (h.trans hk.symm ▸ List.mem_map_of_mem hy)
      rw [if_pos h, List.filter_cons_of_neg (by simpa using h), hrest]
    · rw [if_neg h, List.filter_cons_of_pos (by simpa using h), ih hl]

/-- With distinct keys, the records of one key are one record. -/
theorem filter_eq_singleton (hl : (l.map key).Nodup) :
    (l.filter fun y => key y = k) = [x] ↔ x ∈ l ∧ key x = k := by
  constructor
  · intro h
    simpa using (h ▸ List.mem_singleton_self x : x ∈ l.filter fun y => key y = k)
  · rintro ⟨hx, rfl⟩
    have hone : ∀ y ∈ l.filter fun y => key y = key x, y = x := fun y hy => by
      obtain ⟨hy, hkey⟩ := List.mem_filter.mp hy
      exact List.inj_on_of_nodup_map hl hy hx (by simpa using hkey)
    have hnodup : (l.filter fun y => key y = key x).Nodup := (List.Nodup.of_map key hl).filter _
    have hmem : x ∈ l.filter fun y => key y = key x := List.mem_filter.mpr ⟨hx, by simp⟩
    exact List.perm_singleton.mp ((List.perm_ext_iff_of_nodup hnodup (List.nodup_singleton x)).mpr
      fun y => ⟨fun hy => List.mem_singleton.mpr (hone y hy),
        fun hy => List.mem_singleton.mp hy ▸ hmem⟩)

/-! ## Records spread over several lists

A key may be looked for in a row of lists, each of which has records of its own. -/

section Pieces

variable {β : Type*} {f : β → List α} {S : List β}

omit [DecidableEq κ] in
/-- A piece of a list with distinct keys has distinct keys. -/
theorem nodup_piece (h : ((S.flatMap f).map key).Nodup) {s : β} (hs : s ∈ S) :
    ((f s).map key).Nodup :=
  h.sublist ((List.sublist_flatten_of_mem (List.mem_map_of_mem hs)).map key)

/-- Taking a key out of every piece takes it out of the whole. -/
theorem flatMap_erase {g : β → β} (hg : ∀ s ∈ S, f (g s) = erase key k (f s))
    (h : ((S.flatMap f).map key).Nodup) :
    (S.map g).flatMap f = (S.flatMap f).filter fun x => key x ≠ k := by
  rw [List.filter_flatMap, List.flatMap_map]
  refine List.flatMap_congr fun s hs => ?_
  rw [hg s hs, erase_eq_filter (nodup_piece h hs)]

/-- Putting a record into one piece puts it into the whole. -/
theorem flatMap_set_perm {i : ℕ} {s s' : β} {x : α} (hi : S[i]? = some s)
    (h : (f s').Perm (x :: f s)) : ((S.set i s').flatMap f).Perm (x :: S.flatMap f) := by
  induction S generalizing i with
  | nil => simp at hi
  | cons t S ih =>
    cases i with
    | zero =>
      obtain rfl : t = s := by simpa using hi
      rw [List.set_cons_zero, List.flatMap_cons, List.flatMap_cons]
      exact h.append_right _
    | succ i =>
      rw [List.getElem?_cons_succ] at hi
      rw [List.set_cons_succ, List.flatMap_cons, List.flatMap_cons]
      exact ((ih hi).append_left _).trans List.perm_middle

omit [DecidableEq κ] in
/-- Replacing a piece by one that looks the same leaves what is looked at. -/
theorem map_set_of_eq {γ : Type*} {g : β → γ} {i : ℕ} {s s' : β} (hi : S[i]? = some s)
    (h : g s' = g s) : (S.set i s').map g = S.map g := by
  obtain ⟨hlt, rfl⟩ := List.getElem?_eq_some_iff.mp hi
  rw [List.map_set, h, ← List.getElem_map g (h := by rwa [List.length_map]),
    List.set_getElem_self]

end Pieces

end Keyed
