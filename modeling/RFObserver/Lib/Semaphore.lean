import Mathlib.Data.List.Basic
import Mathlib.Tactic

/-! Counting semaphores with a queue of waiters, each of which goes on only some
time after it was granted a slot. -/

/-- The free slots and the waiters, with whether each was granted a slot. -/
structure Semaphore (W : Type*) where
  value : ℕ
  waiters : List (W × Bool)
  deriving DecidableEq

namespace Semaphore

variable {W : Type*} {s s' : Semaphore W} {w : W} {k : ℕ}

def grantFirst : List (W × Bool) → List (W × Bool)
  | [] => []
  | e :: rest => if e.2 then e :: grantFirst rest else (e.1, true) :: rest

/-- The first waiter without a slot is granted one. -/
def wakeUpNext (s : Semaphore W) : Semaphore W :=
  if s.waiters.all Prod.snd then s else ⟨s.value - 1, grantFirst s.waiters⟩

/-- Whether a slot is acquired at once; else `w` waits. -/
def acquire (s : Semaphore W) (w : W) : Semaphore W × Bool :=
  if s.value = 0 ∨ s.waiters ≠ [] then (⟨s.value, s.waiters ++ [(w, false)]⟩, false)
  else (⟨s.value - 1, s.waiters⟩, true)

def release (s : Semaphore W) : Semaphore W := wakeUpNext ⟨s.value + 1, s.waiters⟩

/-- The `k`th waiter leaves the queue. -/
def leave (s : Semaphore W) (k : ℕ) : Semaphore W := ⟨s.value, s.waiters.eraseIdx k⟩

/-- The `k`th waiter goes on with the slot that it was granted. -/
def resume (s : Semaphore W) (k : ℕ) : Option (W × Semaphore W) :=
  (s.waiters[k]?.filter Prod.snd).map fun e =>
    (e.1, if 0 < s.value then wakeUpNext (s.leave k) else s.leave k)

/-- The `k`th waiter is cancelled; a slot that it was granted is free again. -/
def cancel (s : Semaphore W) (k : ℕ) : Option (Semaphore W) :=
  s.waiters[k]?.map fun e => if e.2 then release (s.leave k) else s.leave k

/-- The slots that nobody goes on with: free, or granted to a waiter. -/
def slots (s : Semaphore W) : ℕ := s.value + s.waiters.countP Prod.snd

/-- Beside a free slot somebody waits in vain only as long as a granted waiter has yet to go on. -/
def Awake (s : Semaphore W) : Prop := s.value = 0 ∨ s.waiters.all Prod.snd = true ∨ s.waiters.any Prod.snd = true

theorem countP_grantFirst {l : List (W × Bool)} (some_ : ¬ l.all Prod.snd = true) :
    (grantFirst l).countP Prod.snd = l.countP Prod.snd + 1 := by
  induction l with
  | nil => exact absurd rfl some_
  | cons e rest ih =>
    rw [grantFirst]
    by_cases granted : e.2 = true
    · have later : ¬ rest.all Prod.snd = true := by
        intro all
        rw [List.all_cons, granted, all] at some_
        exact some_ rfl
      rw [if_pos granted, List.countP_cons_of_pos granted, List.countP_cons_of_pos granted, ih later]
    · rw [if_neg granted, List.countP_cons_of_pos rfl, List.countP_cons_of_neg granted]

theorem any_grantFirst {l : List (W × Bool)} (some_ : ¬ l.all Prod.snd = true) : (grantFirst l).any Prod.snd = true := by
  have granted := countP_grantFirst some_
  rw [List.any_eq_true]
  exact List.countP_pos_iff.mp (by omega)

theorem slots_wakeUpNext (free : 0 < s.value) : (wakeUpNext s).slots = s.slots := by
  rw [wakeUpNext]
  split_ifs with all
  · rfl
  · rw [slots, slots, countP_grantFirst all]
    dsimp only
    omega

theorem awake_wakeUpNext (s : Semaphore W) : (wakeUpNext s).Awake := by
  rw [wakeUpNext]
  split_ifs with all
  · exact Or.inr (Or.inl all)
  · exact Or.inr (Or.inr (any_grantFirst all))

theorem slots_release (s : Semaphore W) : (release s).slots = s.slots + 1 := by
  rw [release, slots_wakeUpNext (Nat.succ_pos _), slots, slots, Nat.add_right_comm]

theorem awake_release (s : Semaphore W) : (release s).Awake := awake_wakeUpNext _

theorem slots_acquire (s : Semaphore W) (w : W) :
    (s.acquire w).1.slots + (if (s.acquire w).2 then 1 else 0) = s.slots := by
  rw [acquire]
  by_cases locked : s.value = 0 ∨ s.waiters ≠ []
  · rw [if_pos locked, slots, List.countP_append]
    rfl
  · obtain ⟨free, -⟩ := not_or.mp locked
    rw [if_neg locked, if_pos rfl, slots, slots]
    dsimp only
    omega

theorem awake_acquire (awake : s.Awake) (w : W) : (s.acquire w).1.Awake := by
  rw [acquire]
  split_ifs with locked
  · obtain none | all | any := awake
    · exact Or.inl none
    · obtain none | some_ := locked
      · exact Or.inl none
      · obtain ⟨e, rest, split⟩ := List.exists_cons_of_ne_nil some_
        refine Or.inr (Or.inr ?_)
        rw [split, List.all_cons, Bool.and_eq_true] at all
        rw [split, List.cons_append, List.any_cons, all.1, Bool.true_or]
    · refine Or.inr (Or.inr ?_)
      rw [List.any_append, any, Bool.true_or]
  · obtain ⟨-, empty⟩ := not_or.mp locked
    refine Or.inr (Or.inl ?_)
    rw [not_not.mp empty]
    rfl

theorem countP_eraseIdx {α : Type*} (q : α → Bool) {l : List α} {e : α} (found : l[k]? = some e) :
    (l.eraseIdx k).countP q + (if q e then 1 else 0) = l.countP q := by
  induction l generalizing k with
  | nil => cases found
  | cons first rest ih =>
    cases k with
    | zero =>
      cases Option.some.inj found
      rw [List.eraseIdx_cons_zero, List.countP_cons]
    | succ k =>
      rw [List.getElem?_cons_succ] at found
      rw [List.eraseIdx_cons_succ, List.countP_cons, List.countP_cons, ← ih found]
      omega

theorem slots_resume (goes : s.resume k = some (w, s')) : s'.slots + 1 = s.slots := by
  obtain ⟨e, found, same⟩ := Option.map_eq_some_iff.mp goes
  obtain ⟨at_, granted⟩ := Option.filter_eq_some_iff.mp found
  have left := countP_eraseIdx Prod.snd at_
  rw [granted, if_pos rfl] at left
  have leaves : (s.leave k).slots + 1 = s.slots := by
    rw [slots, slots, leave, ← left, Nat.add_assoc]
  obtain ⟨-, rfl⟩ := Prod.mk.inj same
  split_ifs with free
  · have free' : 0 < (s.leave k).value := free
    rw [slots_wakeUpNext free', leaves]
  · exact leaves

theorem awake_resume (goes : s.resume k = some (w, s')) : s'.Awake := by
  obtain ⟨e, -, same⟩ := Option.map_eq_some_iff.mp goes
  obtain ⟨-, rfl⟩ := Prod.mk.inj same
  split_ifs with free
  · exact awake_wakeUpNext _
  · exact Or.inl (Nat.eq_zero_of_not_pos free)

theorem slots_cancel (gone : s.cancel k = some s') : s'.slots = s.slots := by
  obtain ⟨e, at_, same⟩ := Option.map_eq_some_iff.mp gone
  have left := countP_eraseIdx Prod.snd at_
  subst same
  split_ifs at left ⊢ with granted
  · rw [slots_release, slots, slots, leave, ← left, Nat.add_assoc]
  · rw [slots, slots, leave, ← left]
    rfl

theorem awake_cancel (awake : s.Awake) (gone : s.cancel k = some s') : s'.Awake := by
  obtain ⟨e, at_, same⟩ := Option.map_eq_some_iff.mp gone
  have left := countP_eraseIdx Prod.snd at_
  subst same
  split_ifs at left ⊢ with granted
  · exact awake_release _
  · obtain none | all | any := awake
    · exact Or.inl none
    · exact absurd (List.all_eq_true.mp all e (List.mem_of_getElem? at_)) granted
    · refine Or.inr (Or.inr (List.any_eq_true.mpr (List.countP_pos_iff.mp ?_)))
      have some_ := List.countP_pos_iff.mpr (List.any_eq_true.mp any)
      rw [leave]
      dsimp only
      omega

/-- Every waiter is as `P` says. -/
def Only (P : W → Prop) (s : Semaphore W) : Prop := ∀ e ∈ s.waiters, P e.1

section Only

variable {P : W → Prop}

theorem mem_grantFirst {l : List (W × Bool)} {e : W × Bool} (member : e ∈ grantFirst l) : ∃ old ∈ l, old.1 = e.1 := by
  induction l with
  | nil => exact absurd member List.not_mem_nil
  | cons first rest ih =>
    rw [grantFirst] at member
    split_ifs at member
    · obtain rfl | later := List.mem_cons.mp member
      · exact ⟨e, List.mem_cons_self, rfl⟩
      · obtain ⟨old, listed, same⟩ := ih later
        exact ⟨old, List.mem_cons_of_mem _ listed, same⟩
    · obtain rfl | later := List.mem_cons.mp member
      · exact ⟨first, List.mem_cons_self, rfl⟩
      · exact ⟨e, List.mem_cons_of_mem _ later, rfl⟩

theorem Only.wakeUpNext (only : s.Only P) : s.wakeUpNext.Only P := by
  rw [Semaphore.wakeUpNext]
  split_ifs
  · exact only
  · intro e member
    obtain ⟨old, listed, same⟩ := mem_grantFirst member
    exact same ▸ only old listed

theorem Only.release (only : s.Only P) : s.release.Only P :=
  Only.wakeUpNext (s := ⟨s.value + 1, s.waiters⟩) only

theorem Only.leave (only : s.Only P) (k : ℕ) : (s.leave k).Only P := fun e member =>
  only e (List.mem_of_mem_eraseIdx member)

theorem Only.acquire (only : s.Only P) (meets : P w) : (s.acquire w).1.Only P := by
  rw [Semaphore.acquire]
  split_ifs
  · intro e member
    obtain old | new := List.mem_append.mp member
    · exact only e old
    · rw [List.mem_singleton.mp new]
      exact meets
  · exact only

theorem Only.resume (only : s.Only P) (goes : s.resume k = some (w, s')) : P w ∧ s'.Only P := by
  obtain ⟨e, found, same⟩ := Option.map_eq_some_iff.mp goes
  obtain ⟨at_, -⟩ := Option.filter_eq_some_iff.mp found
  obtain ⟨rfl, rfl⟩ := Prod.mk.inj same
  refine ⟨only e (List.mem_of_getElem? at_), ?_⟩
  split_ifs
  · exact (only.leave k).wakeUpNext
  · exact only.leave k

theorem Only.cancel (only : s.Only P) (gone : s.cancel k = some s') : s'.Only P := by
  obtain ⟨e, -, same⟩ := Option.map_eq_some_iff.mp gone
  subst same
  split_ifs
  · exact (only.leave k).release
  · exact only.leave k

end Only

end Semaphore
