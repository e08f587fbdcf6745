import RFObserver.Lib.Dict

/-! Dictionaries that keep a bounded number of keys: the oldest leave first. -/

namespace Dict

variable {κ β : Type*} {d : Dict κ β} {cap : ℕ} {k k' : κ} {b : β}

/-- Without its oldest keys while there are more than `cap`. -/
def keepLast (cap : ℕ) (d : Dict κ β) : Dict κ β :=
  ⟨d.entries.drop (d.entries.length - cap), d.nodup.sublist ((List.drop_sublist ..).map _)⟩

theorem length_keepLast (cap : ℕ) (d : Dict κ β) : (d.keepLast cap).entries.length ≤ cap := by
  rw [keepLast, List.length_drop]
  omega

theorem keepLast_of_le (fits : d.entries.length ≤ cap) : d.keepLast cap = d := by
  obtain ⟨entries, nodup⟩ := d
  simp only [keepLast, Dict.mk.injEq]
  rw [Nat.sub_eq_zero_of_le fits, List.drop_zero]

variable [DecidableEq κ]

theorem get?_of_keepLast (found : (d.keepLast cap).get? k = some b) : d.get? k = some b :=
  get?_eq_some.mpr ((List.drop_sublist ..).subset (get?_eq_some.mp found))

theorem get?_eq_none : d.get? k = none ↔ k ∉ d.entries.map Prod.fst :=
  GroupFold.valueAt_eq_none

theorem length_modify (d : Dict κ β) (k : κ) (first : β) (g : β → β) :
    (d.modify k first g).entries.length = d.entries.length + if (d.get? k).isSome then 0 else 1 := by
  have keys : (d.modify k first g).entries.map Prod.fst = if k ∈ d.entries.map Prod.fst then d.entries.map Prod.fst
      else d.entries.map Prod.fst ++ [k] := GroupFold.put_keys () d.entries
  rw [← List.length_map Prod.fst, keys]
  cases found : d.get? k with
  | none => rw [if_neg (get?_eq_none.mp found), List.length_append, List.length_map]; rfl
  | some b =>
    have member : k ∈ d.entries.map Prod.fst := List.mem_map_of_mem (f := Prod.fst) (get?_eq_some.mp found)
    rw [if_pos member, List.length_map]
    rfl

/-- The key just put into a dictionary of the size allowed stays. -/
theorem get?_keepLast_modify (fits : d.entries.length ≤ cap) (some_ : 0 < cap) (k : κ) (first : β) (g : β → β) :
    ((d.modify k first g).keepLast cap).get? k = (d.modify k first g).get? k := by
  cases found : d.get? k with
  | some b =>
    rw [keepLast_of_le]
    rw [length_modify, found]
    exact fits
  | none =>
    have entries := entries_modify_new (get?_eq_none.mp found) first g
    have last : ((d.modify k first g).keepLast cap).entries =
        d.entries.drop (d.entries.length + 1 - cap) ++ [(k, g first)] := by
      change (d.modify k first g).entries.drop _ = _
      rw [entries, List.length_append, List.length_singleton, List.drop_append_of_le_length (by omega)]
    rw [get?_modify, if_pos rfl, found, Option.getD_none, get?_eq_some, last]
    exact List.mem_append_right _ (List.mem_singleton_self _)

/-- A key with its value, as the newest. -/
def putLast (d : Dict κ β) (k : κ) (b : β) : Dict κ β := (d.erase k).modify k b fun _ => b

theorem entries_putLast_new (new : d.get? k = none) (b : β) : (d.putLast k b).entries = d.entries ++ [(k, b)] := by
  have kept : (d.erase k).entries = d.entries := List.filter_eq_self.mpr fun e member =>
    decide_eq_true fun same => get?_eq_none.mp new (same ▸ List.mem_map_of_mem member)
  rw [putLast, entries_modify_new, kept]
  rw [kept]
  exact get?_eq_none.mp new

/-- The dictionary holds the last `cap` of the entries put. -/
def Newest (cap : ℕ) (d : Dict κ β) (put : List (κ × β)) : Prop := d.entries = put.drop (put.length - cap)

variable {put : List (κ × β)}

theorem Newest.putLast (newest : Newest cap d put) (new : d.get? k = none) (b : β) :
    Newest cap ((d.putLast k b).keepLast cap) (put ++ [(k, b)]) := by
  have size : d.entries.length = put.length - (put.length - cap) := by rw [newest, List.length_drop]
  have entries : (d.putLast k b).entries = (put ++ [(k, b)]).drop (put.length - cap) := by
    rw [entries_putLast_new new, newest, List.drop_append_of_le_length (Nat.sub_le ..)]
  change (d.putLast k b).entries.drop ((d.putLast k b).entries.length - cap) = _
  rw [entries_putLast_new new, List.length_append, List.length_singleton, size, ← entries_putLast_new new, entries,
    List.drop_drop, List.length_append, List.length_singleton]
  congr 1
  omega

theorem Newest.get? (newest : Newest cap d put) {i : ℕ} (late : put.length ≤ i + cap) (at_ : put[i]? = some (k, b)) :
    d.get? k = some b := by
  refine get?_eq_some.mpr (newest ▸ List.mem_of_getElem? (i := i - (put.length - cap)) ?_)
  rw [List.getElem?_drop, ← at_]
  congr 1
  omega

theorem Newest.found (newest : Newest cap d put) (found : d.get? k = some b) :
    ∃ i, i < put.length ∧ put.length ≤ i + cap ∧ put[i]? = some (k, b) := by
  obtain ⟨j, at_⟩ := List.getElem?_of_mem (newest ▸ get?_eq_some.mp found)
  rw [List.getElem?_drop] at at_
  exact ⟨_, (List.getElem?_eq_some_iff.mp at_).1, by omega, at_⟩

end Dict
