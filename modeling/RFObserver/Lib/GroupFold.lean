import Mathlib.Data.List.Basic
import Mathlib.Data.List.Induction

/-! Items folded into one value a key, the keys in the order of their first use. -/

namespace GroupFold

variable {α β κ : Type*} [DecidableEq κ] (key : α → κ) (first : α → β) (add : β → α → β)

/-- An item put into the value of its key. -/
def put (a : α) : List (κ × β) → List (κ × β)
  | [] => [(key a, add (first a) a)]
  | (k, b) :: rest => if k = key a then (k, add b a) :: rest else (k, b) :: put a rest

def fold (items : List α) : List (κ × β) := items.foldl (fun dict a => put key first add a dict) []

/-- The value of the items of one key. -/
def group : List α → Option β
  | [] => none
  | a :: rest => some (rest.foldl add (add (first a) a))

/-- The value of a key. -/
def valueAt (dict : List (κ × β)) (k : κ) : Option β := (dict.find? fun e => e.1 = k).map Prod.snd

variable {key first add}

theorem valueAt_cons_self (k : κ) (b : β) (dict : List (κ × β)) : valueAt ((k, b) :: dict) k = some b := by
  simp [valueAt]

theorem valueAt_cons_ne {k k' : κ} (other : k' ≠ k) (b : β) (dict : List (κ × β)) :
    valueAt ((k', b) :: dict) k = valueAt dict k := by
  rw [valueAt, List.find?_cons_of_neg (by simpa using other)]
  rfl

theorem group_concat (items : List α) (a : α) :
    group first add (items ++ [a]) = some (add ((group first add items).getD (first a)) a) := by
  cases items with
  | nil => rfl
  | cons b rest =>
    rw [List.cons_append, group, List.foldl_append]
    rfl

theorem valueAt_put (a : α) (k : κ) (dict : List (κ × β)) :
    valueAt (put key first add a dict) k =
      if key a = k then some (add ((valueAt dict k).getD (first a)) a) else valueAt dict k := by
  induction dict with
  | nil =>
    by_cases same : key a = k
    · rw [if_pos same, ← same]
      exact valueAt_cons_self ..
    · rw [if_neg same]
      exact valueAt_cons_ne same _ _
  | cons entry rest ih =>
    obtain ⟨k', b⟩ := entry
    unfold put
    by_cases here : k' = key a
    · rw [if_pos here]
      by_cases same : key a = k
      · obtain rfl : k' = k := here.trans same
        rw [if_pos same, valueAt_cons_self, valueAt_cons_self]
        rfl
      · have other : k' ≠ k := fun eq => same (here.symm.trans eq)
        rw [if_neg same, valueAt_cons_ne other, valueAt_cons_ne other]
    · rw [if_neg here]
      by_cases same : k' = k
      · subst same
        rw [if_neg (Ne.symm here), valueAt_cons_self, valueAt_cons_self]
      · rw [valueAt_cons_ne same, valueAt_cons_ne same, ih]

/-- A key's value is the fold of the items of that key. -/
theorem valueAt_fold (items : List α) (k : κ) :
    valueAt (fold key first add items) k = group first add (items.filter fun a => key a = k) := by
  induction items using List.reverseRecOn with
  | nil => rfl
  | append_singleton items a ih =>
    rw [fold, List.foldl_append, List.filter_append]
    change valueAt (put key first add a (fold key first add items)) k = _
    rw [valueAt_put, ih]
    by_cases same : key a = k
    · rw [if_pos same, List.filter_singleton, decide_eq_true same, cond_true, group_concat]
    · rw [if_neg same, List.filter_singleton, decide_eq_false same, cond_false, List.append_nil]

theorem put_keys (a : α) (dict : List (κ × β)) :
    (put key first add a dict).map Prod.fst =
      if key a ∈ dict.map Prod.fst then dict.map Prod.fst else dict.map Prod.fst ++ [key a] := by
  induction dict with
  | nil => rfl
  | cons entry rest ih =>
    obtain ⟨k, b⟩ := entry
    unfold put
    by_cases here : k = key a
    · rw [if_pos here]
      simp [here]
    · rw [if_neg here, List.map_cons, ih]
      by_cases later : key a ∈ rest.map Prod.fst
      · rw [if_pos later, List.map_cons, if_pos (List.mem_cons_of_mem _ later)]
      · have absent : key a ∉ ((k, b) :: rest).map Prod.fst := by
          rw [List.map_cons, List.mem_cons]
          exact fun either => either.elim (fun eq => here eq.symm) later
        rw [if_neg later, if_neg absent, List.map_cons, List.cons_append]

theorem put_nodup (a : α) {dict : List (κ × β)} (nodup : (dict.map Prod.fst).Nodup) :
    ((put key first add a dict).map Prod.fst).Nodup := by
  rw [put_keys]
  split
  case isTrue => exact nodup
  case isFalse absent =>
    refine List.nodup_append.mpr ⟨nodup, List.pairwise_singleton _ _, fun k member k' last eq => ?_⟩
    rw [List.mem_singleton.mp last] at eq
    exact absent (eq ▸ member)

theorem fold_keys_nodup (items : List α) : ((fold key first add items).map Prod.fst).Nodup := by
  induction items using List.reverseRecOn with
  | nil => exact List.nodup_nil
  | append_singleton items a ih =>
    rw [fold, List.foldl_append]
    exact put_nodup a ih

theorem valueAt_eq_some {k : κ} {b : β} {dict : List (κ × β)} (nodup : (dict.map Prod.fst).Nodup) :
    valueAt dict k = some b ↔ (k, b) ∈ dict := by
  induction dict with
  | nil => simp [valueAt]
  | cons e rest ih =>
    obtain ⟨k', b'⟩ := e
    obtain ⟨new, nodup⟩ := List.nodup_cons.mp nodup
    by_cases here : k' = k
    · subst here
      have absent : (k', b) ∉ rest := fun member => new (List.mem_map.mpr ⟨_, member, rfl⟩)
      rw [valueAt_cons_self, List.mem_cons, Option.some_inj, Prod.mk.injEq]
      exact ⟨fun eq => Or.inl ⟨rfl, eq.symm⟩, fun either => either.elim (fun eq => eq.2.symm) (absurd · absent)⟩
    · rw [valueAt_cons_ne here, ih nodup, List.mem_cons, Prod.mk.injEq]
      exact ⟨Or.inr, fun either => either.elim (fun eq => absurd eq.1.symm here) id⟩

theorem valueAt_eq_none {k : κ} {dict : List (κ × β)} : valueAt dict k = none ↔ k ∉ dict.map Prod.fst := by
  rw [valueAt, Option.map_eq_none_iff, List.find?_eq_none, List.mem_map, not_exists]
  simp only [decide_eq_true_eq, not_and]

end GroupFold
