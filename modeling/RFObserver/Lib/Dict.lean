import Mathlib.Algebra.BigOperators.Group.List.Basic
import RFObserver.Lib.GroupFold

/-! Dictionaries: a value for each of some keys, in the order of insertion. -/

structure Dict (κ β : Type*) where
  entries : List (κ × β)
  nodup : (entries.map Prod.fst).Nodup
  deriving DecidableEq

namespace Dict

variable {κ β : Type*}

def empty : Dict κ β := ⟨[], List.nodup_nil⟩

def filter (p : β → Bool) (d : Dict κ β) : Dict κ β :=
  ⟨d.entries.filter fun e => p e.2, d.nodup.sublist (List.filter_sublist.map _)⟩

variable [DecidableEq κ]

def get? (d : Dict κ β) (k : κ) : Option β := GroupFold.valueAt d.entries k

/-- `g` at the value of a key, which is `first` if it has none. -/
def modify (d : Dict κ β) (k : κ) (first : β) (g : β → β) : Dict κ β where
  entries := GroupFold.put (fun _ => k) (fun _ => first) (fun b _ => g b) () d.entries
  nodup := GroupFold.put_nodup () d.nodup

/-- A key without its value. -/
def erase (d : Dict κ β) (k : κ) : Dict κ β :=
  ⟨d.entries.filter fun e => e.1 ≠ k, d.nodup.sublist (List.filter_sublist.map _)⟩

@[simp] theorem get?_empty (k : κ) : (empty : Dict κ β).get? k = none := rfl

theorem get?_modify (d : Dict κ β) (k k' : κ) (first : β) (g : β → β) :
    (d.modify k first g).get? k' = if k = k' then some (g ((d.get? k').getD first)) else d.get? k' :=
  GroupFold.valueAt_put ..

theorem get?_eq_some {d : Dict κ β} {k : κ} {b : β} : d.get? k = some b ↔ (k, b) ∈ d.entries :=
  GroupFold.valueAt_eq_some d.nodup

/-- A new key comes last. -/
theorem entries_modify_new {d : Dict κ β} {k : κ} (new : k ∉ d.entries.map Prod.fst) (first : β) (g : β → β) :
    (d.modify k first g).entries = d.entries ++ [(k, g first)] := by
  obtain ⟨entries, nodup⟩ := d
  unfold modify
  induction entries with
  | nil => rfl
  | cons e rest ih =>
    obtain ⟨other, new⟩ := not_or.mp (mt List.mem_cons.mpr new)
    rw [List.cons_append, ← ih (List.nodup_cons.mp nodup).2 new]
    exact if_neg fun same => other same.symm

theorem get?_filter (d : Dict κ β) (p : β → Bool) (k : κ) : (d.filter p).get? k = (d.get? k).filter p := by
  ext b
  rw [Option.filter_eq_some_iff, get?_eq_some, get?_eq_some]
  exact List.mem_filter

theorem get?_erase (d : Dict κ β) (k k' : κ) : (d.erase k).get? k' = if k' = k then none else d.get? k' := by
  ext b
  rw [get?_eq_some, erase, List.mem_filter]
  split_ifs with same
  · simp [same]
  · rw [get?_eq_some]
    simp [same]

/-- A sum over the entries that only one key adds to. -/
theorem sum_get? {M : Type*} [AddCommMonoid M] (d : Dict κ β) (k : κ) (f : β → M) :
    (d.entries.map fun e => if e.1 = k then f e.2 else 0).sum = (d.get? k).elim 0 f := by
  obtain ⟨entries, nodup⟩ := d
  unfold get?
  induction entries with
  | nil => rfl
  | cons e rest ih =>
    obtain ⟨new, nodup⟩ := List.nodup_cons.mp nodup
    rw [List.map_cons, List.sum_cons, ih nodup]
    by_cases here : e.1 = k
    · subst here
      have none : GroupFold.valueAt rest e.1 = none := GroupFold.valueAt_eq_none.mpr new
      rw [if_pos rfl, none, GroupFold.valueAt_cons_self, Option.elim_none, Option.elim_some, add_zero]
    · rw [if_neg here, zero_add, GroupFold.valueAt_cons_ne here]

/-- The row that an item gives is found by the item's key, if no other item has it. -/
theorem lookup_filterMap {α : Type*} {key : α → κ} {row : α → Option (κ × β)} {items : List α}
    (its : ∀ a e, row a = some e → e.1 = key a) (nodup : (items.map key).Nodup) {a : α} (member : a ∈ items) :
    (items.filterMap row).lookup (key a) = (row a).map Prod.snd := by
  have absent : ∀ {rest : List α}, key a ∉ rest.map key → (rest.filterMap row).lookup (key a) = none := by
    intro rest others
    refine List.lookup_eq_none_iff.mpr fun e found => ?_
    obtain ⟨b, inside, its_row⟩ := List.mem_filterMap.mp found
    have other : key a ≠ e.1 := fun same => others (by rw [same, its b e its_row]; exact List.mem_map_of_mem inside)
    exact bne_iff_ne.mpr other
  induction items with
  | nil => cases member
  | cons b rest ih =>
    obtain ⟨new, nodup⟩ := List.nodup_cons.mp nodup
    rcases List.mem_cons.mp member with rfl | later
    · cases its_row : row a with
      | none => rw [List.filterMap_cons_none its_row, absent new, Option.map_none]
      | some e =>
        rw [List.filterMap_cons_some its_row, List.lookup_cons, its a e its_row, beq_self_eq_true]
        rfl
    · have other : key a ≠ key b := fun same => new (same ▸ List.mem_map_of_mem later)
      cases its_row : row b with
      | none => rw [List.filterMap_cons_none its_row, ih nodup later]
      | some e =>
        rw [List.filterMap_cons_some its_row, List.lookup_cons, its b e its_row, beq_false_of_ne other]
        exact ih nodup later

end Dict
