import RFObserver.Lib.Dict
import Mathlib.Tactic

/-! Numbered rows that come in any order and leave in order. Some numbers are
holes: no row ever comes under them, and a filler takes the place. -/

/-- The rows ahead of `next`, the first number that has not left, and what
has left, with its numbers. -/
structure ReorderQueue (β : Type*) where
  next : Nat
  pending : Dict Nat β
  out : List (Nat × β)

namespace ReorderQueue

variable {β : Type*}

def empty : ReorderQueue β := ⟨0, Dict.empty, []⟩

/-- A row comes under number `k`; a number that has left is past. -/
def put (q : ReorderQueue β) (k : Nat) (row : β) : ReorderQueue β :=
  if q.next ≤ k then { q with pending := q.pending.modify k row fun _ => row } else q

/-- Number `k` is filled unless something is there. -/
def reserve (q : ReorderQueue β) (fill : β) (k : Nat) : ReorderQueue β :=
  if q.next ≤ k then { q with pending := q.pending.modify k fill id } else q

/-- The next number leaves, with `row`. -/
def leave (q : ReorderQueue β) (row : β) : ReorderQueue β :=
  ⟨q.next + 1, q.pending.erase q.next, q.out ++ [(q.next, row)]⟩

/-- What is next in order leaves, in at most `fuel` turns. -/
def drain : Nat → ReorderQueue β → ReorderQueue β
  | 0, q => q
  | fuel + 1, q =>
    match q.pending.get? q.next with
    | some row => drain fuel (q.leave row)
    | none => q

/-- `n` numbers leave, each with its row or else the filler. -/
def fillUp (fill : β) : Nat → ReorderQueue β → ReorderQueue β
  | 0, q => q
  | n + 1, q => fillUp fill n (q.leave ((q.pending.get? q.next).getD fill))

/-- The greatest number held. -/
def top (q : ReorderQueue β) : Nat := (q.pending.entries.map Prod.fst).foldr max 0

/-- Everything up to the greatest number held leaves. -/
def finish (fill : β) (q : ReorderQueue β) : ReorderQueue β :=
  if q.pending.entries = [] then q else fillUp fill (q.top + 1 - q.next) q

/-- The rows `rows` have come, each under its number, and the numbers left
over are holes. -/
structure Holds (q : ReorderQueue β) (rows : Nat → β → Prop) (hole : Nat → Prop) : Prop where
  numbered : q.out.map Prod.fst = List.range q.next
  ahead : ∀ k v, q.pending.get? k = some v → q.next ≤ k ∧ ((∃ v, rows k v) ∨ hole k)
  left : ∀ k < q.next, (∃ v, rows k v) ∨ hole k
  kept : ∀ k v, rows k v → q.out[k]? = some (k, v) ∨ q.pending.get? k = some v

variable {q : ReorderQueue β} {rows rows' : Nat → β → Prop} {hole hole' : Nat → Prop}

theorem holds_empty : Holds (empty : ReorderQueue β) (fun _ _ => False) hole where
  numbered := rfl
  ahead := fun k v here => by simp [empty] at here
  left := fun k before => absurd before (Nat.not_lt_zero k)
  kept := fun _ _ impossible => impossible.elim

theorem Holds.mono (holds : Holds q rows hole) (same : ∀ k v, rows' k v ↔ rows k v) (more : ∀ k, hole k → hole' k) :
    Holds q rows' hole' where
  numbered := holds.numbered
  ahead := fun k v here => by
    obtain ⟨after, has⟩ := holds.ahead k v here
    exact ⟨after, has.imp (fun ⟨v, row⟩ => ⟨v, (same k v).mpr row⟩) (more k)⟩
  left := fun k before => (holds.left k before).imp (fun ⟨v, row⟩ => ⟨v, (same k v).mpr row⟩) (more k)
  kept := fun k v row => holds.kept k v ((same k v).mp row)

/-- A row comes under a number of its own. -/
theorem Holds.put (holds : Holds q rows hole) {k : Nat} (fresh : ∀ v, ¬ rows k v) (open_ : ¬ hole k) (row : β) :
    Holds (q.put k row) (fun k' v => rows k' v ∨ (k' = k ∧ v = row)) hole := by
  have after : q.next ≤ k := by
    by_contra before
    rcases holds.left k (not_le.mp before) with ⟨v, came⟩ | filled
    · exact fresh v came
    · exact open_ filled
  unfold ReorderQueue.put
  rw [if_pos after]
  refine ⟨holds.numbered, ?_, ?_, ?_⟩
  · intro k' v here
    rw [Dict.get?_modify] at here
    split_ifs at here with same
    · exact ⟨same ▸ after, Or.inl ⟨row, Or.inr ⟨same.symm, rfl⟩⟩⟩
    · obtain ⟨later, has⟩ := holds.ahead k' v here
      exact ⟨later, has.imp_left (Exists.imp fun _ => Or.inl)⟩
  · intro k' before
    exact (holds.left k' before).imp_left (Exists.imp fun _ => Or.inl)
  · rintro k' v (came | ⟨rfl, rfl⟩)
    · have other : k ≠ k' := by
        rintro rfl
        exact fresh v came
      refine (holds.kept k' v came).imp_right fun here => ?_
      rw [Dict.get?_modify, if_neg other]
      exact here
    · exact Or.inr (by rw [Dict.get?_modify, if_pos rfl])

theorem Holds.reserve (holds : Holds q rows hole) {k : Nat} (filled : hole k) (fill : β) :
    Holds (q.reserve fill k) rows hole := by
  unfold ReorderQueue.reserve
  split_ifs with after
  · refine ⟨holds.numbered, ?_, holds.left, ?_⟩
    · intro k' v here
      rw [Dict.get?_modify] at here
      split_ifs at here with same
      · exact ⟨same ▸ after, Or.inr (same ▸ filled)⟩
      · exact holds.ahead k' v here
    · intro k' v came
      refine (holds.kept k' v came).imp_right fun here => ?_
      rw [Dict.get?_modify]
      split_ifs with same
      · rw [here]
        rfl
      · exact here
  · exact holds

theorem Holds.length (holds : Holds q rows hole) : q.out.length = q.next := by
  have length := congrArg List.length holds.numbered
  rwa [List.length_map, List.length_range] at length

/-- The next number leaves with its row, or is filled. -/
theorem Holds.leave (holds : Holds q rows hole) {row : β}
    (its : ∀ v, q.pending.get? q.next = some v → v = row) (more : ∀ k, hole k → hole' k)
    (passed : (∃ v, q.pending.get? q.next = some v) ∨ hole' q.next) : Holds (q.leave row) rows hole' where
  numbered := by
    change (q.out ++ [(q.next, row)]).map Prod.fst = List.range (q.next + 1)
    rw [List.map_append, holds.numbered, List.range_succ]
    rfl
  ahead := by
    intro k v here
    change (q.pending.erase q.next).get? k = some v at here
    rw [Dict.get?_erase] at here
    split_ifs at here with other
    obtain ⟨after, has⟩ := holds.ahead k v here
    exact ⟨Nat.lt_of_le_of_ne after (Ne.symm other), has.imp_right (more k)⟩
  left := by
    intro k before
    rcases Nat.lt_succ_iff_lt_or_eq.mp before with earlier | rfl
    · exact (holds.left k earlier).imp_right (more k)
    · rcases passed with ⟨v, here⟩ | filled
      · exact (holds.ahead _ v here).2.imp_right (more _)
      · exact Or.inr filled
  kept := by
    intro k v came
    change (q.out ++ [(q.next, row)])[k]? = some (k, v) ∨ (q.pending.erase q.next).get? k = some v
    have length := holds.length
    rcases holds.kept k v came with gone | here
    · left
      have inside := (List.getElem?_eq_some_iff.mp gone).1
      rwa [List.getElem?_append_left inside]
    · by_cases now : k = q.next
      · subst now
        left
        rw [List.getElem?_append_right length.le, length, Nat.sub_self, its v here]
        rfl
      · right
        rw [Dict.get?_erase, if_neg now]
        exact here

theorem Holds.drain (holds : Holds q rows hole) (fuel : Nat) : Holds (q.drain fuel) rows hole := by
  induction fuel generalizing q with
  | zero => exact holds
  | succ fuel ih =>
    unfold ReorderQueue.drain
    split
    · rename_i row here
      exact ih (holds.leave (fun v same => Option.some.inj (same.symm.trans here)) (fun _ filled => filled)
        (Or.inl ⟨row, here⟩))
    · exact holds

/-- At the end every number may be a hole. -/
theorem Holds.fillUp (holds : Holds q rows fun _ => True) (fill : β) (n : Nat) :
    Holds (q.fillUp fill n) rows (fun _ => True) ∧ (q.fillUp fill n).next = q.next + n := by
  induction n generalizing q with
  | zero => exact ⟨holds, rfl⟩
  | succ n ih =>
    have left : Holds (q.leave ((q.pending.get? q.next).getD fill)) rows (fun _ => True) :=
      holds.leave (fun v here => by rw [here]; rfl) (fun _ _ => trivial) (Or.inr trivial)
    obtain ⟨rest, next⟩ := ih left
    refine ⟨rest, next.trans ?_⟩
    change q.next + 1 + n = q.next + (n + 1)
    omega

theorem le_top {k : Nat} {v : β} (here : q.pending.get? k = some v) : k ≤ q.top := by
  have member : k ∈ q.pending.entries.map Prod.fst := List.mem_map_of_mem (f := Prod.fst) (Dict.get?_eq_some.mp here)
  unfold top
  revert member
  induction q.pending.entries.map Prod.fst with
  | nil => exact fun none => absurd none List.not_mem_nil
  | cons a rest ih =>
    intro member
    rcases List.mem_cons.mp member with rfl | later
    · exact le_max_left _ _
    · exact (ih later).trans (le_max_right _ _)

theorem get?_fillUp {fill : β} {n k : Nat} {v : β} (here : (q.fillUp fill n).pending.get? k = some v) :
    q.pending.get? k = some v := by
  induction n generalizing q with
  | zero => exact here
  | succ n ih =>
    have before : (q.pending.erase q.next).get? k = some v := ih here
    rw [Dict.get?_erase] at before
    split_ifs at before
    exact before

/-- In the end nothing is held any more. -/
theorem Holds.finish (holds : Holds q rows hole) (fill : β) :
    Holds (q.finish fill) rows (fun _ => True) ∧ ∀ k, (q.finish fill).pending.get? k = none := by
  have anyHole : Holds q rows fun _ => True := holds.mono (fun _ _ => Iff.rfl) fun _ _ => trivial
  unfold ReorderQueue.finish
  split_ifs with none
  · refine ⟨anyHole, fun k => Option.eq_none_iff_forall_ne_some.mpr fun v here => ?_⟩
    have member := Dict.get?_eq_some.mp here
    rw [none] at member
    exact List.not_mem_nil member
  · obtain ⟨done, next⟩ := anyHole.fillUp fill (q.top + 1 - q.next)
    refine ⟨done, fun k => Option.eq_none_iff_forall_ne_some.mpr fun v here => ?_⟩
    have after := (done.ahead k v here).1
    have below := le_top (get?_fillUp here)
    omega

theorem drain_empty (none : ∀ k, q.pending.get? k = none) (fuel : Nat) : q.drain fuel = q := by
  cases fuel with
  | zero => rfl
  | succ fuel => simp only [ReorderQueue.drain, none]

/-- What has left stays. -/
theorem out_drain (q : ReorderQueue β) (fuel : Nat) : q.out <+: (q.drain fuel).out := by
  induction fuel generalizing q with
  | zero => exact List.prefix_rfl
  | succ fuel ih =>
    unfold ReorderQueue.drain
    split
    · rename_i row _
      exact (List.prefix_append q.out _).trans (ih (q.leave row))
    · exact List.prefix_rfl

theorem out_fillUp (q : ReorderQueue β) (fill : β) (n : Nat) : q.out <+: (q.fillUp fill n).out := by
  induction n generalizing q with
  | zero => exact List.prefix_rfl
  | succ n ih => exact (List.prefix_append q.out _).trans (ih (q.leave _))

theorem out_finish (q : ReorderQueue β) (fill : β) : q.out <+: (q.finish fill).out := by
  unfold ReorderQueue.finish
  split_ifs
  · exact List.prefix_rfl
  · exact out_fillUp q fill _

end ReorderQueue
