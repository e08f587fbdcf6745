import Mathlib.Data.List.Basic
import Mathlib.Order.Basic
import Mathlib.Tactic

/-! Several lists merged by always taking the greatest of their heads, the
first of equal ones. -/

namespace HeadMerge

variable {α κ : Type*} [LinearOrder κ] (key : α → κ)

/-- The index of the greatest head from index `i` on, against one found before. -/
def bestFrom (i : Nat) (found : Option (Nat × κ)) : List (List α) → Option (Nat × κ)
  | [] => found
  | [] :: lists => bestFrom (i + 1) found lists
  | (a :: _) :: lists => bestFrom (i + 1) (if ∀ b ∈ found, b.2 < key a then some (i, key a) else found) lists

/-- At most `n` heads, each with the index of its list. -/
def merge : Nat → List (List α) → List (Nat × α)
  | 0, _ => []
  | n + 1, lists =>
    match bestFrom key 0 none lists with
    | none => []
    | some (i, _) =>
      match lists[i]? with
      | some (a :: rest) => (i, a) :: merge n (lists.set i rest)
      | _ => []

/-- What was taken of one list. -/
def taken (i : Nat) (out : List (Nat × α)) : List α := (out.filter fun r => r.1 = i).map Prod.snd

variable {key} {lists : List (List α)} {i n : Nat} {a : α}

theorem bestFrom_none {found : Option (Nat × κ)} (none_ : bestFrom key i found lists = none) :
    found = none ∧ ∀ l ∈ lists, l = [] := by
  induction lists generalizing i found with
  | nil => exact ⟨none_, nofun⟩
  | cons l lists ih =>
    cases l with
    | nil =>
      obtain ⟨first, empty⟩ := ih none_
      exact ⟨first, List.forall_mem_cons.mpr ⟨rfl, empty⟩⟩
    | cons a l =>
      obtain ⟨first, -⟩ := ih none_
      split at first
      case isTrue => nomatch first
      case isFalse lower =>
        subst first
        exact absurd nofun lower

theorem bestFrom_some {found : Option (Nat × κ)} {j : Nat} {k : κ} (best : bestFrom key i found lists = some (j, k)) :
    (found = some (j, k) ∨ ∃ m a l, lists[m]? = some (a :: l) ∧ j = i + m ∧ k = key a) ∧ (∀ b ∈ found, b.2 ≤ k) ∧
      ∀ a l, a :: l ∈ lists → key a ≤ k := by
  induction lists generalizing i found with
  | nil =>
    refine ⟨Or.inl best, fun b isFound => ?_, nofun⟩
    cases Option.some.inj (isFound.symm.trans best)
    exact le_rfl
  | cons l lists ih =>
    cases l with
    | nil =>
      obtain ⟨whose, above, all⟩ := ih best
      refine ⟨whose.imp_right ?_, above, fun a l member => ?_⟩
      · rintro ⟨m, a, l, at_, index, isKey⟩
        exact ⟨m + 1, a, l, at_, by omega, isKey⟩
      · exact all a l (List.mem_of_ne_of_mem (by simp) member)
    | cons a l =>
      obtain ⟨whose, above, all⟩ := ih best
      have here : key a ≤ k ∧ ∀ b ∈ found, b.2 ≤ k := by
        split at above
        case isTrue lower =>
          have le := above _ rfl
          exact ⟨le, fun b isFound => (lower b isFound).le.trans le⟩
        case isFalse lower =>
          refine ⟨?_, above⟩
          push Not at lower
          obtain ⟨b, isFound, le⟩ := lower
          exact le.trans (above b isFound)
      refine ⟨?_, here.2, fun b m member => ?_⟩
      · rcases whose with first | ⟨m, b, l', at_, index, isKey⟩
        · split at first
          case isTrue =>
            cases first
            exact Or.inr ⟨0, a, l, rfl, rfl, rfl⟩
          case isFalse => exact Or.inl first
        · exact Or.inr ⟨m + 1, b, l', at_, by omega, isKey⟩
      · rcases List.mem_cons.mp member with same | later
        · cases same
          exact here.1
        · exact all b m later

/-- A step takes a head that no other is above, and leaves the rest of its list. -/
theorem merge_step (key : α → κ) (lists : List (List α)) :
    ((∀ n, merge key (n + 1) lists = []) ∧ ∀ l ∈ lists, l = []) ∨
      ∃ i a rest, lists[i]? = some (a :: rest) ∧ (∀ b l, b :: l ∈ lists → key b ≤ key a) ∧
        ∀ n, merge key (n + 1) lists = (i, a) :: merge key n (lists.set i rest) := by
  cases best : bestFrom key 0 none lists with
  | none => exact Or.inl ⟨fun n => by simp only [merge, best], (bestFrom_none best).2⟩
  | some found =>
    obtain ⟨j, k⟩ := found
    obtain ⟨whose, -, all⟩ := bestFrom_some best
    obtain ⟨m, a, rest, at_, index, rfl⟩ := whose.resolve_left nofun
    rw [zero_add] at index
    subst index
    exact Or.inr ⟨j, a, rest, at_, all, fun n => by simp only [merge, best, at_]⟩

@[simp] theorem taken_nil (i : Nat) : taken i ([] : List (Nat × α)) = [] := rfl

theorem taken_cons_self (i : Nat) (a : α) (out : List (Nat × α)) : taken i ((i, a) :: out) = a :: taken i out := by
  rw [taken, List.filter_cons_of_pos (by simp)]
  rfl

theorem taken_cons_ne {j : Nat} (other : j ≠ i) (a : α) (out : List (Nat × α)) : taken i ((j, a) :: out) = taken i out := by
  rw [taken, List.filter_cons_of_neg (by simpa using other)]
  rfl

theorem taken_append (i : Nat) (out out' : List (Nat × α)) : taken i (out ++ out') = taken i out ++ taken i out' := by
  rw [taken, List.filter_append, List.map_append]
  rfl

/-- A list is taken from its start on, in its own order. -/
theorem taken_eq_take {l : List α} (at_ : lists[i]? = some l) (n : Nat) :
    taken i (merge key n lists) = l.take (taken i (merge key n lists)).length := by
  induction n generalizing lists l with
  | zero => rfl
  | succ n ih =>
    rcases merge_step key lists with ⟨empty, -⟩ | ⟨j, a, rest, head, -, goes⟩
    · rw [empty n]
      rfl
    · rw [goes n]
      have bounded := (List.getElem?_eq_some_iff.mp head).1
      by_cases same : j = i
      · subst same
        cases Option.some.inj (at_.symm.trans head)
        rw [taken_cons_self, List.length_cons, List.take_succ_cons, ← ih (List.getElem?_set_self bounded)]
      · rw [taken_cons_ne same]
        exact ih (by rw [List.getElem?_set_ne same, at_])

theorem index_lt {r : Nat × α} (member : r ∈ merge key n lists) : r.1 < lists.length := by
  induction n generalizing lists with
  | zero => nomatch member
  | succ n ih =>
    rcases merge_step key lists with ⟨empty, -⟩ | ⟨j, a, rest, head, -, goes⟩
    · rw [empty n] at member
      nomatch member
    · rw [goes n] at member
      rcases List.mem_cons.mp member with rfl | later
      · exact (List.getElem?_eq_some_iff.mp head).1
      · have bounded := ih later
        rwa [List.length_set] at bounded

theorem mem_list {r : Nat × α} (member : r ∈ merge key n lists) : ∃ l ∈ lists, r.2 ∈ l := by
  induction n generalizing lists with
  | zero => nomatch member
  | succ n ih =>
    rcases merge_step key lists with ⟨empty, -⟩ | ⟨j, a, rest, head, -, goes⟩
    · rw [empty n] at member
      nomatch member
    · have old := List.mem_of_getElem? head
      rw [goes] at member
      rcases List.mem_cons.mp member with rfl | later
      · exact ⟨_, old, List.mem_cons_self⟩
      · obtain ⟨l, isList, isIn⟩ := ih later
        rcases List.mem_or_eq_of_mem_set isList with same | rfl
        · exact ⟨l, same, isIn⟩
        · exact ⟨_, old, List.mem_cons_of_mem _ isIn⟩

theorem sum_length_set {rest : List α} (head : lists[i]? = some (a :: rest)) :
    (lists.map List.length).sum = ((lists.set i rest).map List.length).sum + 1 := by
  induction lists generalizing i with
  | nil => nomatch head
  | cons l lists ih =>
    cases i with
    | zero =>
      cases head
      simp only [List.map_cons, List.sum_cons, List.length_cons, List.set_cons_zero]
      omega
    | succ i =>
      simp only [List.map_cons, List.sum_cons, List.set_cons_succ]
      rw [ih head]
      omega

variable (key) in
/-- Heads are taken while there are any. -/
theorem length_merge (n : Nat) (lists : List (List α)) :
    (merge key n lists).length = min n (lists.map List.length).sum := by
  induction n generalizing lists with
  | zero => simp [merge]
  | succ n ih =>
    rcases merge_step key lists with ⟨goes, empty⟩ | ⟨i, a, rest, head, -, goes⟩
    · have none : (lists.map List.length).sum = 0 := by
        rw [List.sum_eq_zero]
        intro x member
        obtain ⟨l, isIn, rfl⟩ := List.mem_map.mp member
        rw [empty l isIn]
        rfl
      rw [goes n, none]
      simp
    · rw [goes n, List.length_cons, ih, sum_length_set head]
      omega

/-- Lists in descending order are merged into one. -/
theorem merge_descends (ordered : ∀ l ∈ lists, l.Pairwise fun a b => key b ≤ key a) (n : Nat) :
    (merge key n lists).Pairwise fun r s => key s.2 ≤ key r.2 := by
  induction n generalizing lists with
  | zero => exact List.Pairwise.nil
  | succ n ih =>
    rcases merge_step key lists with ⟨goes, -⟩ | ⟨i, a, rest, head, greatest, goes⟩
    · rw [goes n]
      exact List.Pairwise.nil
    · have bounded := (List.getElem?_eq_some_iff.mp head).1
      have ordered' : ∀ l ∈ lists.set i rest, l.Pairwise fun a b => key b ≤ key a := by
        intro l member
        rcases List.mem_or_eq_of_mem_set member with old | rfl
        · exact ordered l old
        · exact (List.pairwise_cons.mp (ordered _ (List.mem_of_getElem? head))).2
      rw [goes n]
      refine List.pairwise_cons.mpr ⟨fun r member => ?_, ih ordered'⟩
      -- every row taken later is under a head that was there
      obtain ⟨l, isList, isIn⟩ := mem_list member
      obtain ⟨b, m, heads, le⟩ : ∃ b m, b :: m ∈ lists ∧ key r.2 ≤ key b := by
        rcases List.mem_or_eq_of_mem_set isList with old | rfl
        · obtain ⟨b, m, rfl⟩ := List.exists_cons_of_ne_nil (List.ne_nil_of_mem isIn)
          refine ⟨b, m, old, ?_⟩
          rcases List.mem_cons.mp isIn with same | later
          · rw [same]
          · exact (List.pairwise_cons.mp (ordered _ old)).1 _ later
        · exact ⟨a, _, List.mem_of_getElem? head,
            (List.pairwise_cons.mp (ordered _ (List.mem_of_getElem? head))).1 _ isIn⟩
      exact le.trans (greatest b m heads)

/-- The lists after `n` steps. -/
def left (key : α → κ) (n : Nat) (lists : List (List α)) : List (List α) :=
  lists.mapIdx fun i l => l.drop (taken i (merge key n lists)).length

theorem left_succ {rest : List α} (head : lists[i]? = some (a :: rest)) (n : Nat)
    (goes : merge key (n + 1) lists = (i, a) :: merge key n (lists.set i rest)) :
    left key (n + 1) lists = left key n (lists.set i rest) := by
  have bounded := (List.getElem?_eq_some_iff.mp head).1
  refine List.ext_getElem? fun j => ?_
  rw [left, left, List.getElem?_mapIdx, List.getElem?_mapIdx, goes]
  by_cases same : i = j
  · subst same
    rw [List.getElem?_set_self bounded, head, Option.map_some, Option.map_some, taken_cons_self, List.length_cons,
      List.drop_succ_cons]
  · rw [List.getElem?_set_ne same, taken_cons_ne same]

/-- More steps go on from where the first ones left the lists. -/
theorem merge_add (n m : Nat) (lists : List (List α)) :
    merge key (n + m) lists = merge key n lists ++ merge key m (left key n lists) := by
  induction n generalizing lists with
  | zero =>
    have same : left key 0 lists = lists := by
      refine List.ext_getElem? fun j => ?_
      rw [left, List.getElem?_mapIdx]
      cases lists[j]? <;> rfl
    rw [zero_add, same]
    rfl
  | succ n ih =>
    rcases merge_step key lists with ⟨goes, empty⟩ | ⟨i, a, rest, head, -, goes⟩
    · have same : left key (n + 1) lists = lists := by
        refine List.ext_getElem? fun j => ?_
        rw [left, List.getElem?_mapIdx, goes n]
        cases lists[j]? <;> rfl
      have nothing : ∀ k, merge key k lists = [] := by
        intro k
        have length := length_merge key k lists
        have sum : (lists.map List.length).sum = 0 := by
          have := length_merge key (n + 1) lists
          rw [goes n, List.length_nil] at this
          omega
        rw [sum, Nat.min_zero] at length
        exact List.length_eq_zero_iff.mp length
      rw [nothing, goes n, same, nothing]
      rfl
    · have more : n + 1 + m = n + m + 1 := by omega
      rw [more, goes (n + m), goes n, left_succ head n (goes n), ih, List.cons_append]

theorem bestFrom_congr {lists' : List (List α)} {found : Option (Nat × κ)}
    (same : lists.map (List.take (n + 1)) = lists'.map (List.take (n + 1))) :
    bestFrom key i found lists = bestFrom key i found lists' := by
  induction lists generalizing i found lists' with
  | nil => rw [List.map_eq_nil_iff.mp same.symm]
  | cons l lists ih =>
    cases lists' with
    | nil => nomatch same
    | cons l' lists' =>
      obtain ⟨first, others⟩ := List.cons_eq_cons.mp same
      cases l with
      | nil =>
        rw [List.take_nil, eq_comm, List.take_eq_nil_iff] at first
        rw [first.resolve_left (by omega)]
        exact ih others
      | cons a l =>
        cases l' with
        | nil => nomatch first
        | cons b l' =>
          cases (List.cons_eq_cons.mp first).1
          exact ih others

/-- No more than `n` of a list matter to `n` steps. -/
theorem merge_congr {lists' : List (List α)} (same : lists.map (List.take n) = lists'.map (List.take n)) :
    merge key n lists = merge key n lists' := by
  induction n generalizing lists lists' with
  | zero => rfl
  | succ n ih =>
    have best : bestFrom key 0 none lists = bestFrom key 0 none lists' := bestFrom_congr same
    rw [merge, merge, best]
    cases bestFrom key 0 none lists' with
    | none => rfl
    | some found =>
      have at_ := congrArg (·[found.1]?) same
      simp only [List.getElem?_map] at at_
      have shorter : lists.map (List.take n) = lists'.map (List.take n) := by
        have cut := congrArg (List.map (List.take n)) same
        simp only [List.map_map, Function.comp_def, List.take_take, min_eq_left (show n ≤ n + 1 by omega)] at cut
        exact cut
      cases here : lists[found.1]? with
      | none =>
        rw [here, Option.map_none, eq_comm, Option.map_eq_none_iff] at at_
        simp only [here, at_]
      | some l =>
        rw [here, Option.map_some, eq_comm, Option.map_eq_some_iff] at at_
        obtain ⟨l', there, eq⟩ := at_
        simp only [here, there]
        cases l with
        | nil =>
          rw [List.take_nil, List.take_eq_nil_iff] at eq
          rw [eq.resolve_left (by omega)]
        | cons a rest =>
          cases l' with
          | nil => nomatch eq
          | cons b rest' =>
            obtain ⟨rfl, tails⟩ := List.cons_eq_cons.mp eq
            refine congrArg (List.cons _) (ih ?_)
            rw [List.map_set, List.map_set, shorter]
            exact congrArg _ tails.symm

end HeadMerge
