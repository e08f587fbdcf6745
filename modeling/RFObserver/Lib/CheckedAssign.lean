import Mathlib.Data.List.Nodup
import Mathlib.Logic.Function.Basic
import Mathlib.Tactic

/-! Assignments to a store, each made before the next one is checked. -/

namespace CheckedAssign

/-- A key and its check at a store: a value to put there, nothing to put, or
why there is none. -/
structure Item (K V E : Type*) where
  key : K
  check : (K → V) → Except E (Option V)

variable {K V E : Type*}

/-- All of the items' checks accept, and the store is changed to their values. -/
structure Made (items : List (Item K V E)) (store after : K → V) (changed : List K) : Prop where
  key : ∀ i ∈ items, ∃ o, i.check store = .ok o ∧ after i.key = o.getD (store i.key) ∧ (i.key ∈ changed ↔ o.isSome)
  other : ∀ k ∉ items.map Item.key, after k = store k ∧ k ∉ changed

/-- An item is rejected after one that has changed the store. -/
def Halfway (items : List (Item K V E)) (store : K → V) : Prop :=
  ∃ before i later e, items = before ++ i :: later ∧ (∀ j ∈ before, ∃ o, j.check store = .ok o) ∧
    i.check store = .error e ∧ ∃ j ∈ before, ∃ v, j.check store = .ok (some v) ∧ v ≠ store j.key

theorem Made.nil (store : K → V) : Made ([] : List (Item K V E)) store store [] :=
  ⟨nofun, fun _ _ => ⟨rfl, List.not_mem_nil⟩⟩

/-- The first rejection is in one place. -/
theorem first_rejection_unique {check : Item K V E → Except E (Option V)} {xs ys xs' ys' : List (Item K V E)}
    {i j : Item K V E} {e e' : E} (same : xs ++ i :: ys = xs' ++ j :: ys')
    (before : ∀ a ∈ xs, ∃ o, check a = .ok o) (bad : check i = .error e)
    (before' : ∀ a ∈ xs', ∃ o, check a = .ok o) (bad' : check j = .error e') : xs = xs' := by
  induction xs generalizing xs' with
  | nil =>
    cases xs' with
    | nil => rfl
    | cons a rest =>
      obtain ⟨rfl, -⟩ := List.cons.inj same
      obtain ⟨o, good⟩ := before' i (List.mem_cons_self ..)
      rw [bad] at good
      cases good
  | cons a rest ih =>
    cases xs' with
    | nil =>
      obtain ⟨rfl, -⟩ := List.cons.inj same
      obtain ⟨o, good⟩ := before a (List.mem_cons_self ..)
      rw [bad'] at good
      cases good
    | cons b rest' =>
      obtain ⟨rfl, tail⟩ := List.cons.inj same
      rw [ih tail (fun c inside => before c (List.mem_cons_of_mem _ inside))
        fun c inside => before' c (List.mem_cons_of_mem _ inside)]

theorem Made.not_halfway {items : List (Item K V E)} {store after : K → V} {changed : List K}
    (made : Made items store after changed) : ¬ Halfway items store := by
  rintro ⟨accepted, i, later, e, rfl, -, bad, -⟩
  obtain ⟨o, good, -⟩ := made.key i (List.mem_append_right _ (List.mem_cons_self ..))
  rw [bad] at good
  cases good

variable {i : Item K V E} {rest : List (Item K V E)} {store after : K → V} {changed : List K}

/-- After an item with nothing to put. -/
theorem Made.cons_none (accepted : i.check store = .ok none) (made : Made rest store after changed)
    (new : i.key ∉ rest.map Item.key) : Made (i :: rest) store after changed where
  key j member := by
    rcases List.mem_cons.mp member with rfl | later
    · exact ⟨none, accepted, (made.other _ new).1, by simp [(made.other _ new).2]⟩
    · exact made.key j later
  other k outside := made.other k fun inside => outside (List.mem_cons_of_mem _ inside)

variable [DecidableEq K]

/-- The store as the assignments leave it, with the keys that were assigned or
the first rejection. -/
def run : List (Item K V E) → (K → V) → List K → (K → V) × Except E (List K)
  | [], store, changed => (store, .ok changed)
  | i :: rest, store, changed =>
    match i.check store with
    | .error e => (store, .error e)
    | .ok none => run rest store changed
    | .ok (some v) => run rest (Function.update store i.key v) (changed ++ [i.key])

/-- No item's check reads the key of an item before it, and no two assign one key. -/
def Independent (items : List (Item K V E)) : Prop :=
  items.Pairwise fun i j => i.key ≠ j.key ∧ ∀ store v, j.check (Function.update store i.key v) = j.check store

theorem Made.cons_some {v : V} (accepted : i.check store = .ok (some v)) (independent : Independent (i :: rest))
    (made : Made rest (Function.update store i.key v) after changed) :
    Made (i :: rest) store after (i.key :: changed) := by
  have apart := (List.pairwise_cons.mp independent).1
  have new : i.key ∉ rest.map Item.key := by
    intro inside
    obtain ⟨j, member, same⟩ := List.mem_map.mp inside
    exact (apart j member).1 same.symm
  refine ⟨fun j member => ?_, fun k outside => ?_⟩
  · rcases List.mem_cons.mp member with rfl | later
    · refine ⟨some v, accepted, ?_, by simp⟩
      rw [(made.other _ new).1, Function.update_self, Option.getD_some]
    · obtain ⟨other, unread⟩ := apart j later
      obtain ⟨o, checked, value, listed⟩ := made.key j later
      rw [unread] at checked
      rw [Function.update_of_ne other.symm] at value
      refine ⟨o, checked, value, ?_⟩
      rw [List.mem_cons, listed]
      exact or_iff_right other.symm
  · obtain ⟨other, outside⟩ := not_or.mp (mt List.mem_cons.mpr outside)
    obtain ⟨same, unlisted⟩ := made.other k outside
    rw [Function.update_of_ne other] at same
    exact ⟨same, fun inside => (List.mem_cons.mp inside).elim other unlisted⟩

/-- The run makes all the assignments, or those before the first rejection. -/
theorem run_spec {items : List (Item K V E)} (independent : Independent items) (store : K → V) (before : List K) :
    (∃ after changed, run items store before = (after, .ok (before ++ changed)) ∧ Made items store after changed) ∨
      ∃ accepted i later e after changed, items = accepted ++ i :: later ∧
        run items store before = (after, .error e) ∧ i.check store = .error e ∧ Made accepted store after changed := by
  induction items generalizing store before with
  | nil => exact Or.inl ⟨store, [], by rw [List.append_nil]; rfl, Made.nil store⟩
  | cons i rest ih =>
    obtain ⟨apart, later⟩ := List.pairwise_cons.mp independent
    have new : i.key ∉ rest.map Item.key := by
      intro inside
      obtain ⟨j, member, same⟩ := List.mem_map.mp inside
      exact (apart j member).1 same.symm
    cases checked : i.check store with
    | error e => exact Or.inr ⟨[], i, rest, e, store, [], rfl, by simp only [run, checked], checked, Made.nil store⟩
    | ok o =>
      cases o with
      | none =>
        simp only [run, checked]
        rcases ih later store before with
          ⟨after, changed, ran, made⟩ | ⟨accepted, j, behind, e, after, changed, rfl, ran, bad, made⟩
        · exact Or.inl ⟨after, changed, ran, made.cons_none checked new⟩
        · refine Or.inr ⟨i :: accepted, j, behind, e, after, changed, rfl, ran, bad, made.cons_none checked ?_⟩
          exact fun inside => new (by rw [List.map_append]; exact List.mem_append_left _ inside)
      | some v =>
        simp only [run, checked]
        rcases ih later (Function.update store i.key v) (before ++ [i.key]) with
          ⟨after, changed, ran, made⟩ | ⟨accepted, j, behind, e, after, changed, rfl, ran, bad, made⟩
        · refine Or.inl ⟨after, i.key :: changed, ?_, made.cons_some checked independent⟩
          rw [ran, List.append_assoc, List.singleton_append]
        · refine Or.inr ⟨i :: accepted, j, behind, e, after, i.key :: changed, rfl, ran, ?_, ?_⟩
          · rw [← (apart j (List.mem_append_right _ (List.mem_cons_self ..))).2 store v]
            exact bad
          · exact made.cons_some checked
              (independent.sublist (List.Sublist.cons_cons i (List.sublist_append_left accepted (j :: behind))))

/-- A run that ends in a rejection leaves the store as it was, unless it stops halfway. -/
theorem run_error_iff {items : List (Item K V E)} (independent : Independent items) {before : List K} {e : E}
    (ran : run items store before = (after, .error e)) :
    after = store ↔ ¬ Halfway items store := by
  rcases run_spec independent store before with
    ⟨_, _, whole, -⟩ | ⟨accepted, i, later, e', _, changed, split, stopped, bad, made⟩
  · rw [ran] at whole
    cases whole
  rw [ran] at stopped
  cases stopped
  have good : ∀ j ∈ accepted, ∃ o, j.check store = .ok o := fun j member => (made.key j member).imp fun _ h => h.1
  constructor
  · rintro rfl ⟨accepted', j, later', e', split', good', bad', k, member, v, checked, new⟩
    have same := first_rejection_unique (split.symm.trans split') good bad good' bad'
    obtain ⟨o, checked', value, -⟩ := made.key k (same ▸ member)
    rw [checked] at checked'
    cases checked'
    exact new value.symm
  · intro whole
    funext k
    by_cases inside : k ∈ accepted.map Item.key
    · obtain ⟨j, member, rfl⟩ := List.mem_map.mp inside
      obtain ⟨o, checked, value, -⟩ := made.key j member
      cases o with
      | none => exact value
      | some v =>
        rw [value, Option.getD_some]
        by_contra new
        exact whole ⟨accepted, i, later, e, split, good, bad, j, member, v, checked, new⟩
    · exact (made.other k inside).1

end CheckedAssign
