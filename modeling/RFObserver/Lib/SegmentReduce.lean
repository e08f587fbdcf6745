import Mathlib.Data.List.GetD
import Mathlib.Data.List.Sort
import Mathlib.Tactic

/-! Reductions over the runs of equal keys of an array, as array libraries make them. -/

namespace SegmentReduce

variable {α β κ : Type*}

/-- `xs[mask]` -/
def select : List α → List Bool → List α
  | x :: xs, b :: mask => if b then x :: select xs mask else select xs mask
  | _, _ => []

/-- The indices from `i` on at which the mask is set. -/
def nonzeroFrom : Nat → List Bool → List Nat
  | _, [] => []
  | i, b :: mask => if b then i :: nonzeroFrom (i + 1) mask else nonzeroFrom (i + 1) mask

/-- `np.flatnonzero(mask)` -/
def flatnonzero (mask : List Bool) : List Nat := nonzeroFrom 0 mask

/-- `xs[indices]` -/
def takeAt (xs : List α) (indices : List Nat) : List α := indices.filterMap fun i => xs[i]?

/-- Where a key differs from the one before it. -/
def changesFrom [DecidableEq κ] : κ → List κ → List Bool
  | _, [] => []
  | previous, key :: keys => decide (key ≠ previous) :: changesFrom key keys

/-- `np.r_[True, keys[1:] != keys[:-1]]` -/
def changes [DecidableEq κ] : List κ → List Bool
  | [] => [true]
  | key :: keys => true :: changesFrom key keys

def reduce (f : β → β → β) : List β → Option β
  | [] => none
  | x :: rest => some (rest.foldl f x)

/-- `f.reduceat(xs, starts)`, for rising starts. -/
def reduceat (f : β → β → β) (xs : List β) (starts : List Nat) : List β :=
  (starts.zip (starts.tail ++ [xs.length])).filterMap fun b => reduce f ((xs.drop b.1).take (b.2 - b.1))

/-- `np.diff(xs)`, for rising values. -/
def diff (xs : List Nat) : List Nat := List.zipWith (fun next x => next - x) xs.tail xs

/-- `np.repeat(xs, counts)` -/
def repeatEach : List α → List Nat → List α
  | x :: xs, n :: counts => List.replicate n x ++ repeatEach xs counts
  | _, _ => []

/-- `np.argsort(keys, kind="stable")` -/
def argsort (keys : List Nat) : List Nat :=
  (List.range keys.length).insertionSort fun i j => keys.getD i 0 ≤ keys.getD j 0

section Select

variable {xs ys : List α} {mask : List Bool}

theorem takeAt_nonzeroFrom (ys xs : List α) (same : mask.length = xs.length) :
    takeAt (ys ++ xs) (nonzeroFrom ys.length mask) = select xs mask := by
  induction mask generalizing ys xs with
  | nil =>
    cases xs with
    | nil => rfl
    | cons x xs => cases same
  | cons b mask ih =>
    cases xs with
    | nil => cases same
    | cons x xs =>
      have rest := ih (ys ++ [x]) xs (Nat.succ.inj same)
      rw [List.append_assoc, List.singleton_append, List.length_append, List.length_singleton] at rest
      have here : (ys ++ x :: xs)[ys.length]? = some x := by simp
      cases b with
      | true => simpa [nonzeroFrom, select, takeAt, here] using rest
      | false => simpa [nonzeroFrom, select] using rest

/-- The values at the set indices are the selected ones. -/
theorem takeAt_flatnonzero (same : mask.length = xs.length) : takeAt xs (flatnonzero mask) = select xs mask :=
  takeAt_nonzeroFrom [] xs same

theorem map_select (f : α → β) : (select xs mask).map f = select (xs.map f) mask := by
  induction xs generalizing mask with
  | nil => rfl
  | cons x xs ih =>
    cases mask with
    | nil => rfl
    | cons b mask => cases b <;> simp [select, ih]

theorem select_append {mask' : List Bool} (same : mask.length = xs.length) :
    select (xs ++ ys) (mask ++ mask') = select xs mask ++ select ys mask' := by
  induction xs generalizing mask with
  | nil => rw [List.length_eq_zero_iff.mp same]; rfl
  | cons x xs ih =>
    cases mask with
    | nil => cases same
    | cons b mask => cases b <;> simp [select, ih (Nat.succ.inj same)]

theorem select_map (p : α → Bool) : select xs (xs.map p) = xs.filter p := by
  induction xs with
  | nil => rfl
  | cons x xs ih => cases test : p x <;> simp [select, test, ih]

theorem select_sublist : (select xs mask).Sublist xs := by
  induction xs generalizing mask with
  | nil => exact .slnil
  | cons x xs ih =>
    cases mask with
    | nil => exact List.nil_sublist _
    | cons b mask =>
      cases b with
      | true => exact ih.cons_cons x
      | false => exact ih.cons x

theorem mem_nonzeroFrom {i j : Nat} (member : j ∈ nonzeroFrom i mask) : i ≤ j ∧ j < i + mask.length := by
  induction mask generalizing i with
  | nil => cases member
  | cons b mask ih =>
    rw [List.length_cons]
    cases b with
    | true =>
      rcases List.mem_cons.mp member with rfl | later
      · omega
      · have := ih later
        omega
    | false =>
      have := ih member
      omega

theorem takeAt_length {indices : List Nat} (inside : ∀ i ∈ indices, i < xs.length) :
    (takeAt xs indices).length = indices.length := by
  induction indices with
  | nil => rfl
  | cons i indices ih =>
    have here := List.getElem?_eq_getElem (inside i (List.mem_cons_self ..))
    have rest := ih fun j member => inside j (List.mem_cons_of_mem _ member)
    simp only [takeAt, List.filterMap_cons, here, List.length_cons]
    exact congrArg (· + 1) rest

/-- Selecting indices selects the values there. -/
theorem takeAt_select {indices : List Nat} (inside : ∀ i ∈ indices, i < xs.length) :
    takeAt xs (select indices mask) = select (takeAt xs indices) mask := by
  induction indices generalizing mask with
  | nil => rfl
  | cons i indices ih =>
    have bound : i < xs.length := inside i (List.mem_cons_self ..)
    have here := List.getElem?_eq_getElem bound
    have rest : ∀ mask : List Bool, takeAt xs (select indices mask) = select (takeAt xs indices) mask :=
      fun mask => ih fun j member => inside j (List.mem_cons_of_mem _ member)
    have first : takeAt xs (i :: indices) = xs[i] :: takeAt xs indices := by
      simp only [takeAt, List.filterMap_cons, here]
    cases mask with
    | nil => rw [first]; rfl
    | cons b mask =>
      rw [first]
      cases b with
      | true =>
        simp only [select, if_true, takeAt, List.filterMap_cons, here]
        exact congrArg (_ :: ·) (rest mask)
      | false =>
        simpa only [select, Bool.false_eq_true, if_false] using rest mask

theorem map_takeAt (f : α → β) (indices : List Nat) : (takeAt xs indices).map f = takeAt (xs.map f) indices := by
  simp only [takeAt, List.map_filterMap, List.getElem?_map]

end Select

section Groups

/-- The values of the groups, one after another. -/
def values (groups : List (κ × List α)) : List α := groups.flatMap Prod.snd

/-- The key of each of the values. -/
def keys (groups : List (κ × List α)) : List κ := groups.flatMap fun g => g.2.map fun _ => g.1

/-- No group is empty, and no two have one key. -/
structure Separate (groups : List (κ × List α)) : Prop where
  filled : ∀ g ∈ groups, g.2 ≠ []
  distinct : (groups.map Prod.fst).Nodup

variable {groups : List (κ × List α)}

theorem keys_length : (keys groups).length = (values groups).length := by
  simp [keys, values, List.length_flatMap]

theorem Separate.tail {g : κ × List α} (separate : Separate (g :: groups)) : Separate groups where
  filled h member := separate.filled h (List.mem_cons_of_mem _ member)
  distinct := (List.nodup_cons.mp separate.distinct).2

/-- Where the groups begin, the first one at `i`. -/
def offsets : Nat → List (List α) → List Nat
  | _, [] => []
  | i, g :: rest => i :: offsets (i + g.length) rest

variable [DecidableEq κ]

/-- Within a run no key changes. -/
theorem nonzeroFrom_run (i : Nat) (key : κ) (run : List α) (rest : List κ) :
    nonzeroFrom i (changesFrom key ((run.map fun _ => key) ++ rest)) =
      nonzeroFrom (i + run.length) (changesFrom key rest) := by
  induction run generalizing i with
  | nil => rfl
  | cons x run ih =>
    rw [List.map_cons, List.cons_append, changesFrom, decide_eq_false (not_not.mpr rfl), nonzeroFrom,
      if_neg Bool.false_ne_true, ih, List.length_cons]
    congr 1
    omega

theorem select_run (key : κ) (run ys : List α) (rest : List κ) :
    select (run ++ ys) (changesFrom key ((run.map fun _ => key) ++ rest)) = select ys (changesFrom key rest) := by
  induction run with
  | nil => rfl
  | cons x run ih =>
    rw [List.map_cons, List.cons_append, List.cons_append, changesFrom, decide_eq_false (not_not.mpr rfl), select,
      if_neg Bool.false_ne_true, ih]

theorem nonzeroFrom_changesFrom (i : Nat) {previous : κ} (separate : Separate groups)
    (other : previous ∉ groups.map Prod.fst) :
    nonzeroFrom i (changesFrom previous (keys groups)) = offsets i (groups.map Prod.snd) := by
  induction groups generalizing i previous with
  | nil => rfl
  | cons g groups ih =>
    obtain ⟨key, run⟩ := g
    cases run with
    | nil => exact absurd rfl (separate.filled _ (List.mem_cons_self ..))
    | cons x run =>
      have differs : key ≠ previous := fun same => other (same ▸ List.mem_cons_self ..)
      have next := ih (i + (x :: run).length) separate.tail (List.nodup_cons.mp separate.distinct).1
      have run_ := nonzeroFrom_run (i + 1) key run (keys groups)
      rw [show i + 1 + run.length = i + (x :: run).length by rw [List.length_cons]; omega] at run_
      rw [List.map_cons, offsets, ← next, ← run_]
      simp only [keys, List.flatMap_cons, List.map_cons, List.cons_append, changesFrom, decide_eq_true differs,
        nonzeroFrom, if_true]

theorem select_changesFrom {previous : κ} (separate : Separate groups) (other : previous ∉ groups.map Prod.fst) :
    select (values groups) (changesFrom previous (keys groups)) = groups.filterMap fun g => g.2.head? := by
  induction groups generalizing previous with
  | nil => rfl
  | cons g groups ih =>
    obtain ⟨key, run⟩ := g
    cases run with
    | nil => exact absurd rfl (separate.filled _ (List.mem_cons_self ..))
    | cons x run =>
      have differs : key ≠ previous := fun same => other (same ▸ List.mem_cons_self ..)
      have next := ih separate.tail (List.nodup_cons.mp separate.distinct).1
      have run_ := select_run key run (values groups) (keys groups)
      have heads : ((key, x :: run) :: groups).filterMap (fun g => g.2.head?) =
        x :: groups.filterMap fun g => g.2.head? := rfl
      rw [heads, ← next, ← run_]
      simp only [keys, values, List.flatMap_cons, List.map_cons, List.cons_append, changesFrom,
        decide_eq_true differs, select, if_true]

/-- The groups begin where the keys change. -/
theorem flatnonzero_changes (separate : Separate groups) (nonempty : groups ≠ []) :
    flatnonzero (changes (keys groups)) = offsets 0 (groups.map Prod.snd) := by
  cases groups with
  | nil => exact absurd rfl nonempty
  | cons g groups =>
    obtain ⟨key, run⟩ := g
    cases run with
    | nil => exact absurd rfl (separate.filled _ (List.mem_cons_self ..))
    | cons x run =>
      have rest := nonzeroFrom_changesFrom (x :: run).length separate.tail (List.nodup_cons.mp separate.distinct).1
      have run_ := nonzeroFrom_run 1 key run (keys groups)
      rw [show 1 + run.length = (x :: run).length by rw [List.length_cons]; omega, rest] at run_
      rw [List.map_cons, offsets, Nat.zero_add, ← run_]
      rfl

/-- The values at which the keys change are the groups' first ones. -/
theorem select_changes (separate : Separate groups) :
    select (values groups) (changes (keys groups)) = groups.filterMap fun g => g.2.head? := by
  cases groups with
  | nil => rfl
  | cons g groups =>
    obtain ⟨key, run⟩ := g
    cases run with
    | nil => exact absurd rfl (separate.filled _ (List.mem_cons_self ..))
    | cons x run =>
      have rest := select_changesFrom separate.tail (List.nodup_cons.mp separate.distinct).1
      have run_ := select_run key run (values groups) (keys groups)
      have heads : ((key, x :: run) :: groups).filterMap (fun g => g.2.head?) =
        x :: groups.filterMap fun g => g.2.head? := rfl
      rw [heads, ← rest, ← run_]
      rfl

end Groups

section Reduce

variable {gs : List (List α)}

theorem offsets_length (i : Nat) : (offsets i gs).length = gs.length := by
  induction gs generalizing i with
  | nil => rfl
  | cons g gs ih => rw [offsets, List.length_cons, ih, List.length_cons]

/-- A reduction at the groups' starts reduces each group. -/
theorem reduceat_offsets (f : β → β → β) (ys : List β) (gs : List (List β)) :
    ((offsets ys.length gs).zip ((offsets ys.length gs).tail ++ [(ys ++ gs.flatten).length])).filterMap
        (fun b => reduce f (((ys ++ gs.flatten).drop b.1).take (b.2 - b.1))) = gs.filterMap (reduce f) := by
  induction gs generalizing ys with
  | nil => rfl
  | cons g gs ih =>
    have here : ((ys ++ (g :: gs).flatten).drop ys.length).take g.length = g := by
      rw [List.drop_left, List.flatten_cons, List.take_left]
    have rest := ih (ys ++ g)
    rw [List.append_assoc, ← List.flatten_cons, List.length_append] at rest
    cases gs with
    | nil =>
      simp only [offsets, List.tail_cons, List.nil_append, List.zip_cons_cons, List.zip_nil_right,
        List.filterMap_cons, List.filterMap_nil]
      rw [show (ys ++ [g].flatten).length - ys.length = g.length by simp, here]
    | cons h gs =>
      simp only [offsets, List.tail_cons, List.cons_append, List.zip_cons_cons, List.filterMap_cons] at rest ⊢
      rw [Nat.add_sub_cancel_left, here, rest]

theorem reduceat_eq (f : β → β → β) (v : α → β) (gs : List (List α)) :
    reduceat f (gs.flatten.map v) (offsets 0 gs) = gs.filterMap fun g => reduce f (g.map v) := by
  have mapped : offsets 0 gs = offsets 0 (gs.map (List.map v)) := by
    have general : ∀ (i : Nat) (gs : List (List α)), offsets i gs = offsets i (gs.map (List.map v)) := by
      intro i gs
      induction gs generalizing i with
      | nil => rfl
      | cons g gs ih => rw [offsets, List.map_cons, offsets, List.length_map, ih]
    exact general 0 gs
  have reduced := reduceat_offsets f [] (gs.map (List.map v))
  rw [List.nil_append, List.length_nil, ← List.map_flatten, ← mapped, List.filterMap_map] at reduced
  exact reduced

theorem diff_offsets (i : Nat) (gs : List (List α)) :
    diff (offsets i gs ++ [i + gs.flatten.length]) = gs.map List.length := by
  induction gs generalizing i with
  | nil => rfl
  | cons g gs ih =>
    have rest := ih (i + g.length)
    rw [show i + g.length + gs.flatten.length = i + (g :: gs).flatten.length by
      rw [List.flatten_cons, List.length_append]; omega] at rest
    cases gs with
    | nil =>
      simp only [diff, offsets, List.nil_append, List.cons_append, List.tail_cons, List.zipWith_cons_cons,
        List.zipWith_nil_left, List.map_cons, List.map_nil]
      simp
    | cons h gs =>
      rw [List.map_cons, ← rest]
      simp only [diff, offsets, List.cons_append, List.tail_cons, List.zipWith_cons_cons]
      congr 1
      omega

theorem takeAt_repeatEach (ys xs : List β) (counts : List Nat) :
    takeAt (ys ++ xs) (repeatEach (List.range' ys.length xs.length) counts) = repeatEach xs counts := by
  induction xs generalizing ys counts with
  | nil => rfl
  | cons x xs ih =>
    cases counts with
    | nil => rfl
    | cons n counts =>
      have rest := ih (ys ++ [x]) counts
      rw [List.append_assoc, List.singleton_append, List.length_append, List.length_singleton] at rest
      have here : (ys ++ x :: xs)[ys.length]? = some x := by simp
      rw [List.length_cons, List.range'_succ, repeatEach, repeatEach, ← rest]
      simp only [takeAt, List.filterMap_append, List.filterMap_replicate_of_some here]

/-- Reading at the groups' numbers repeats the values. -/
theorem takeAt_group (xs : List β) (counts : List Nat) :
    takeAt xs (repeatEach (List.range xs.length) counts) = repeatEach xs counts := by
  rw [List.range_eq_range']
  exact takeAt_repeatEach [] xs counts

variable [DecidableEq β] (v : α → β) (p : List α → β)

/-- Which values of each group have the group's value `p`. -/
def marks (gs : List (List α)) : List Bool := gs.flatMap fun g => g.map fun a => decide (v a = p g)

/-- Each value compared with its group's one, repeated. -/
theorem compare_repeatEach (gs : List (List α)) :
    List.zipWith (fun x y => decide (x = y)) (gs.flatten.map v) (repeatEach (gs.map p) (gs.map List.length)) =
      marks v p gs := by
  induction gs with
  | nil => rfl
  | cons g gs ih =>
    have one : ∀ g' : List α, List.zipWith (fun x y => decide (x = y)) (g'.map v) (List.replicate g'.length (p g)) =
        g'.map fun a => decide (v a = p g) := by
      intro g'
      induction g' with
      | nil => rfl
      | cons a g' ih =>
        rw [List.map_cons, List.length_cons, List.replicate_succ, List.zipWith_cons_cons, ih, List.map_cons]
    rw [List.flatten_cons, List.map_append, List.map_cons, List.map_cons, repeatEach,
      List.zipWith_append (by rw [List.length_map, List.length_replicate]), one, ih]
    rfl

/-- What the marks select of each group. -/
theorem select_marks (gs : List (List α)) :
    select gs.flatten (marks v p gs) = (gs.map fun g => g.filter fun a => v a = p g).flatten := by
  induction gs with
  | nil => rfl
  | cons g gs ih =>
    rw [List.flatten_cons, marks, List.flatMap_cons, select_append (by rw [List.length_map]), select_map, List.map_cons,
      List.flatten_cons, ← ih]
    rfl

/-- The marks select each group's number once for each value they select of it. -/
theorem select_group (numbers : List κ) (gs : List (List α)) (same : numbers.length = gs.length) :
    select (repeatEach numbers (gs.map List.length)) (marks v p gs) =
      keys (numbers.zip (gs.map fun g => g.filter fun a => v a = p g)) := by
  induction gs generalizing numbers with
  | nil =>
    rw [List.length_eq_zero_iff.mp same]
    rfl
  | cons g gs ih =>
    cases numbers with
    | nil => cases same
    | cons number numbers =>
      have one : select (List.replicate g.length number) (g.map fun a => decide (v a = p g)) =
          (g.filter fun a => v a = p g).map fun _ => number := by
        rw [← select_map, map_select, List.map_const']
      rw [List.map_cons, repeatEach, marks, List.flatMap_cons,
        select_append (by rw [List.length_map, List.length_replicate]), one, List.map_cons, List.zip_cons_cons]
      exact congrArg (_ ++ ·) (ih numbers (Nat.succ.inj same))

theorem values_zip (numbers : List κ) (gs : List (List α)) (same : numbers.length = gs.length) :
    values (numbers.zip gs) = gs.flatten := by
  rw [values, List.flatMap_def, List.map_snd_zip same.ge]

end Reduce

section Each

theorem getElem?_filterMap {f : α → Option β} {xs : List α} (all : ∀ x ∈ xs, (f x).isSome) (k : Nat) :
    (xs.filterMap f)[k]? = xs[k]?.bind f := by
  induction xs generalizing k with
  | nil => rfl
  | cons x xs ih =>
    obtain ⟨y, value⟩ := Option.isSome_iff_exists.mp (all x (List.mem_cons_self ..))
    rw [List.filterMap_cons_some value]
    cases k with
    | zero => exact value.symm
    | succ k => exact ih (fun z member => all z (List.mem_cons_of_mem _ member)) k

theorem filterMap_range (f : α → Option β) (xs : List α) :
    ((List.range xs.length).filterMap fun k => xs[k]?.bind f) = xs.filterMap f := by
  induction xs with
  | nil => rfl
  | cons x xs ih =>
    rw [List.length_cons, List.range_succ_eq_map, List.filterMap_cons, List.filterMap_map, List.filterMap_cons, ← ih]
    rfl

theorem reduce_isSome {f : β → β → β} {xs : List β} (nonempty : xs ≠ []) : (reduce f xs).isSome := by
  cases xs with
  | nil => exact absurd rfl nonempty
  | cons x xs => rfl

theorem reduce_min [LinearOrder β] {xs : List β} {b : β} (reduced : reduce min xs = some b) : IsLeast {x | x ∈ xs} b := by
  cases xs with
  | nil => cases reduced
  | cons x xs =>
    obtain rfl := Option.some.inj reduced
    induction xs generalizing x with
    | nil => simp
    | cons y xs ih =>
      obtain ⟨member, least⟩ := ih (min x y) rfl
      have below : (xs.foldl min (min x y)) ≤ min x y := least (List.mem_cons_self ..)
      refine ⟨?_, fun z inside => ?_⟩
      · rcases List.mem_cons.mp member with same | later
        · rw [List.foldl_cons, same]
          rcases min_choice x y with left | right
          · rw [left]; exact List.mem_cons_self ..
          · rw [right]; exact List.mem_cons_of_mem _ (List.mem_cons_self ..)
        · exact List.mem_cons_of_mem _ (List.mem_cons_of_mem _ later)
      · rcases List.mem_cons.mp inside with rfl | later
        · exact below.trans (min_le_left ..)
        · rcases List.mem_cons.mp later with rfl | later
          · exact below.trans (min_le_right ..)
          · exact least (List.mem_cons_of_mem _ later)

theorem reduce_max [LinearOrder β] {xs : List β} {b : β} (reduced : reduce max xs = some b) :
    IsGreatest {x | x ∈ xs} b := by
  have dual : reduce min (xs.map OrderDual.toDual) = some (OrderDual.toDual b) := by
    cases xs with
    | nil => cases reduced
    | cons x xs =>
      obtain rfl := Option.some.inj reduced
      rw [List.map_cons, reduce, List.foldl_map]
      rfl
  obtain ⟨member, least⟩ := reduce_min dual
  refine ⟨?_, fun z inside => least (List.mem_map.mpr ⟨z, inside, rfl⟩)⟩
  obtain ⟨x, inside, same⟩ := List.mem_map.mp member
  exact OrderDual.toDual.injective same ▸ inside

end Each

section Sorted

variable {xs : List α} {key : α → Nat}

theorem nonzeroFrom_eq (i : Nat) (mask : List Bool) :
    nonzeroFrom i mask = (List.range' i mask.length).filter fun j => mask.getD (j - i) false := by
  induction mask generalizing i with
  | nil => rfl
  | cons b mask ih =>
    have rest : (List.range' (i + 1) mask.length).filter (fun j => (b :: mask).getD (j - i) false) =
        nonzeroFrom (i + 1) mask := by
      rw [ih]
      refine List.filter_congr fun j member => ?_
      obtain ⟨above, _⟩ := List.mem_range'_1.mp member
      rw [show j - i = j - (i + 1) + 1 by omega, List.getD_cons_succ]
    rw [List.length_cons, List.range'_succ, List.filter_cons, rest, Nat.sub_self, List.getD_cons_zero]
    cases b <;> rfl

theorem flatnonzero_eq (mask : List Bool) :
    flatnonzero mask = (List.range mask.length).filter fun i => mask.getD i false := by
  rw [flatnonzero, nonzeroFrom_eq, List.range_eq_range']
  rfl

theorem takeAt_eq_map {ys : List β} {indices : List Nat} (d : β) (inside : ∀ i ∈ indices, i < ys.length) :
    takeAt ys indices = indices.map fun i => ys.getD i d := by
  induction indices with
  | nil => rfl
  | cons i indices ih =>
    have here := List.getElem?_eq_getElem (inside i (List.mem_cons_self ..))
    rw [takeAt, List.filterMap_cons_some here, List.map_cons, List.getD_eq_getElem?_getD, here]
    exact congrArg (_ :: ·) (ih fun j member => inside j (List.mem_cons_of_mem _ member))

/-- Reading in the sorted order is sorting by the keys. -/
theorem takeAt_argsort (xs : List α) (key : α → Nat) :
    takeAt xs (argsort (xs.map key)) = xs.insertionSort fun a b => key a ≤ key b := by
  cases xs with
  | nil => rfl
  | cons x rest =>
    have inside : ∀ i ∈ argsort ((x :: rest).map key), i < (x :: rest).length := by
      intro i member
      rw [argsort, List.mem_insertionSort, List.mem_range, List.length_map] at member
      exact member
    have read : (List.range (x :: rest).length).map (fun i => (x :: rest).getD i x) = x :: rest := by
      apply List.ext_getElem
      · rw [List.length_map, List.length_range]
      · intro i _ bound
        rw [List.getElem_map, List.getElem_range, List.getD_eq_getElem _ _ bound]
    have orders : ∀ i ∈ List.range (x :: rest).length, ∀ j ∈ List.range (x :: rest).length,
        (((x :: rest).map key).getD i 0 ≤ ((x :: rest).map key).getD j 0 ↔
          key ((x :: rest).getD i x) ≤ key ((x :: rest).getD j x)) := by
      intro i inI j inJ
      rw [List.mem_range] at inI inJ
      rw [List.getD_eq_getElem _ _ (by rwa [List.length_map]), List.getD_eq_getElem _ _ (by rwa [List.length_map]),
        List.getD_eq_getElem _ _ inI, List.getD_eq_getElem _ _ inJ, List.getElem_map, List.getElem_map]
    have sorted := List.map_insertionSort (s := fun a b => key a ≤ key b) _ (fun i => (x :: rest).getD i x) _ orders
    rw [takeAt_eq_map x inside, argsort, List.length_map, sorted, read]

/-- The sort keeps the order of values of one key. -/
theorem filter_insertionSort (xs : List α) (key : α → Nat) (k : Nat) :
    (xs.insertionSort fun a b => key a ≤ key b).filter (fun a => key a = k) = xs.filter fun a => key a = k := by
  have equal : (xs.filter fun a => key a = k).Pairwise fun a b => key a ≤ key b := by
    rw [List.pairwise_filter]
    exact List.pairwise_of_forall fun a b inA inB => by
      rw [of_decide_eq_true inA, of_decide_eq_true inB]
  have sub := (List.sublist_insertionSort equal List.filter_sublist).filter fun a => decide (key a = k)
  rw [List.filter_filter] at sub
  simp only [Bool.and_self] at sub
  exact (sub.eq_of_length ((List.perm_insertionSort _ xs).filter _).length_eq.symm).symm

theorem filter_split {ys : List α} {k : Nat} (sorted : ys.Pairwise fun a b => key a ≤ key b)
    (least : ∀ y ∈ ys, k ≤ key y) :
    (ys.filter fun a => key a = k) ++ (ys.filter fun a => key a ≠ k) = ys := by
  induction ys with
  | nil => rfl
  | cons y ys ih =>
    obtain ⟨ahead, sorted⟩ := List.pairwise_cons.mp sorted
    by_cases same : key y = k
    · simpa [List.filter_cons, same] using ih sorted fun z member => least z (List.mem_cons_of_mem _ member)
    · have above := least y (List.mem_cons_self ..)
      have later : ∀ z ∈ ys, key z ≠ k := fun z member => by
        have := ahead z member
        omega
      have none : (ys.filter fun a => decide (key a = k)) = [] :=
        List.filter_eq_nil_iff.mpr fun z member => by simpa using later z member
      have all : (ys.filter fun a => decide (key a ≠ k)) = ys :=
        List.filter_eq_self.mpr fun z member => by simpa using later z member
      rw [List.filter_cons_of_neg (by simpa using same), none, List.nil_append,
        List.filter_cons_of_pos (by simpa using same), all]

/-- A list sorted by keys is its keys' values, one key after another. -/
theorem flatMap_filter {ks : List Nat} {ys : List α} (rising : ks.Pairwise (· < ·))
    (sorted : ys.Pairwise fun a b => key a ≤ key b) (known : ∀ y ∈ ys, key y ∈ ks) :
    (ks.flatMap fun k => ys.filter fun a => key a = k) = ys := by
  induction ks generalizing ys with
  | nil =>
    cases ys with
    | nil => rfl
    | cons y ys => cases known y (List.mem_cons_self ..)
  | cons k ks ih =>
    obtain ⟨above, rising⟩ := List.pairwise_cons.mp rising
    have least : ∀ y ∈ ys, k ≤ key y := fun y member => by
      rcases List.mem_cons.mp (known y member) with same | later
      · exact same.ge
      · exact (above _ later).le
    have rest := ih rising (sorted.filter fun a => decide (key a ≠ k)) fun y member => by
      obtain ⟨inside, other⟩ := List.mem_filter.mp member
      exact (List.mem_cons.mp (known y inside)).resolve_left (of_decide_eq_true other)
    have same : ∀ l ∈ ks, (ys.filter fun a => decide (key a ≠ k)).filter (fun a => decide (key a = l)) =
        ys.filter fun a => decide (key a = l) := by
      intro l member
      rw [List.filter_filter]
      refine List.filter_congr fun y _ => ?_
      have other := (above l member).ne'
      by_cases at_ : key y = l
      · simp [at_, other]
      · simp [at_]
    rw [List.flatMap_cons, ← List.flatMap_congr same, rest]
    exact filter_split sorted least

end Sorted

end SegmentReduce
