import Mathlib.Data.List.ReduceOption
import Mathlib.Data.List.Sort
import Mathlib.Tactic

/-! Streams of received samples with lost stretches between them. A gap
`(i, lost)` says that `lost` samples are missing right before offset `i`. -/

namespace LossyStream

abbrev Gaps := List (Nat × Nat)

/-- The samples lost by the gaps whose offset satisfies `p`. -/
def lostWhere (p : Nat → Prop) [DecidablePred p] (gaps : Gaps) : Nat :=
  ((gaps.filter fun g => p g.1).map Prod.snd).sum

section Sums
variable {p q r : Nat → Prop} [DecidablePred p] [DecidablePred q] [DecidablePred r]

@[simp] theorem lostWhere_nil : lostWhere p [] = 0 := rfl

@[simp] theorem lostWhere_cons (g : Nat × Nat) (gaps : Gaps) :
    lostWhere p (g :: gaps) = (if p g.1 then g.2 else 0) + lostWhere p gaps := by
  unfold lostWhere
  by_cases inside : p g.1 <;> simp [inside]

@[simp] theorem lostWhere_append (a b : Gaps) : lostWhere p (a ++ b) = lostWhere p a + lostWhere p b := by
  simp [lostWhere]

theorem lostWhere_perm {a b : Gaps} (same : a.Perm b) : lostWhere p a = lostWhere p b :=
  ((same.filter _).map _).sum_eq

theorem lostWhere_congr {gaps : Gaps} (agree : ∀ g ∈ gaps, p g.1 ↔ q g.1) :
    lostWhere p gaps = lostWhere q gaps := by
  unfold lostWhere
  have kept : gaps.filter (fun g => decide (p g.1)) = gaps.filter (fun g => decide (q g.1)) :=
    List.filter_congr fun g member => decide_eq_decide.mpr (agree g member)
  rw [kept]

theorem lostWhere_eq_zero {gaps : Gaps} (none : ∀ g ∈ gaps, ¬ p g.1) : lostWhere p gaps = 0 := by
  unfold lostWhere
  rw [List.filter_eq_nil_iff.mpr (by simpa using none)]
  rfl

theorem lostWhere_filter (gaps : Gaps) :
    lostWhere p (gaps.filter fun g => q g.1) = lostWhere (fun i => p i ∧ q i) gaps := by
  unfold lostWhere
  rw [List.filter_filter]
  simp

/-- Two disjoint conditions on the offset add up. -/
theorem lostWhere_add {gaps : Gaps} (split : ∀ g ∈ gaps, r g.1 ↔ p g.1 ∨ q g.1)
    (disjoint : ∀ g ∈ gaps, p g.1 → ¬ q g.1) :
    lostWhere r gaps = lostWhere p gaps + lostWhere q gaps := by
  induction gaps with
  | nil => rfl
  | cons g gaps ih =>
    have rest := ih (fun h member => split h (List.mem_cons_of_mem _ member))
      (fun h member => disjoint h (List.mem_cons_of_mem _ member))
    have here := split g (List.mem_cons_self ..)
    have apart := disjoint g (List.mem_cons_self ..)
    simp only [lostWhere_cons, rest, here]
    by_cases left : p g.1
    · simp only [left, apart left, true_or, if_true, if_false]
      omega
    · by_cases right : q g.1 <;> simp only [left, right, or_true, or_false, if_true, if_false] <;> omega

theorem lostWhere_map (f : Nat → Nat) (gaps : Gaps) :
    lostWhere p (gaps.map fun g => (f g.1, g.2)) = lostWhere (fun i => p (f i)) gaps := by
  induction gaps with
  | nil => rfl
  | cons g gaps ih => simp only [List.map_cons, lostWhere_cons, ih]

theorem lostWhere_all (gaps : Gaps) : lostWhere (fun _ => True) gaps = (gaps.map Prod.snd).sum := by
  simp [lostWhere]

end Sums

/-- The samples lost right before offset `i`. -/
def lostAt (gaps : Gaps) (i : Nat) : Nat := lostWhere (· = i) gaps

/-- The time-samples before the loss right before received sample `p`. -/
def timeBefore (gaps : Gaps) (p : Nat) : Nat := p + lostWhere (· < p) gaps

/-- The place of received sample `p` among all time-samples. -/
def timeOf (gaps : Gaps) (p : Nat) : Nat := p + lostWhere (· ≤ p) gaps

theorem timeOf_eq (gaps : Gaps) (p : Nat) : timeOf gaps p = timeBefore gaps p + lostAt gaps p := by
  unfold timeOf timeBefore lostAt
  rw [lostWhere_add (p := (· < p)) (q := (· = p)) (fun g _ => by omega) (fun g _ => by omega)]
  omega

/-- From before the loss at `a` to before the loss at `b`. -/
theorem timeBefore_add {gaps : Gaps} {a b : Nat} (ordered : a ≤ b) :
    timeBefore gaps b = timeBefore gaps a + (b - a) + lostWhere (fun s => a ≤ s ∧ s < b) gaps := by
  unfold timeBefore
  rw [lostWhere_add (r := (· < b)) (p := (· < a)) (q := fun s => a ≤ s ∧ s < b) (fun g _ => by omega)
    (fun g _ => by omega)]
  omega

theorem timeOf_add {gaps : Gaps} {a b : Nat} (ordered : a ≤ b) :
    timeOf gaps b = timeBefore gaps a + (b - a) + lostWhere (fun s => a ≤ s ∧ s ≤ b) gaps := by
  unfold timeOf timeBefore
  rw [lostWhere_add (r := (· ≤ b)) (p := (· < a)) (q := fun s => a ≤ s ∧ s ≤ b) (fun g _ => by omega)
    (fun g _ => by omega)]
  omega

/-- Losses from position `n` on leave earlier places alone. -/
theorem timeBefore_append {a b : Gaps} {n p : Nat} (later : ∀ g ∈ b, n ≤ g.1) (before : p ≤ n) :
    timeBefore (a ++ b) p = timeBefore a p := by
  have beyond : lostWhere (· < p) b = 0 := lostWhere_eq_zero fun g member => by have := later g member; omega
  rw [timeBefore, timeBefore, lostWhere_append, beyond, Nat.add_zero]

theorem timeOf_append {a b : Gaps} {n p : Nat} (later : ∀ g ∈ b, n ≤ g.1) (before : p < n) :
    timeOf (a ++ b) p = timeOf a p := by
  have beyond : lostWhere (· ≤ p) b = 0 := lostWhere_eq_zero fun g member => by have := later g member; omega
  rw [timeOf, timeOf, lostWhere_append, beyond, Nat.add_zero]

variable {α : Type*}

/-- The time-samples from offset `i` on: received samples with the lost
ones (`none`) in between, those right before offset `i` included. -/
def spread (gaps : Gaps) : Nat → List α → List (Option α)
  | _, [] => []
  | i, x :: xs => List.replicate (lostAt gaps i) none ++ some x :: spread gaps (i + 1) xs

theorem spread_congr {a b : Gaps} {i : Nat} {xs : List α} (agree : ∀ j, i ≤ j → lostAt a j = lostAt b j) :
    spread a i xs = spread b i xs := by
  induction xs generalizing i with
  | nil => rfl
  | cons x xs ih =>
    simp only [spread, agree i le_rfl]
    rw [ih fun j above => agree j (by omega)]

theorem spread_lossless {gaps : Gaps} {i : Nat} {xs : List α}
    (lossless : ∀ g ∈ gaps, g.1 < i ∨ i + xs.length ≤ g.1) : spread gaps i xs = xs.map some := by
  induction xs generalizing i with
  | nil => rfl
  | cons x xs ih =>
    have here : lostAt gaps i = 0 :=
      lostWhere_eq_zero fun g member => by
        have := lossless g member
        simp only [List.length_cons] at this
        omega
    rw [spread, here, ih fun g member => by
      have := lossless g member
      simp only [List.length_cons] at this
      omega]
    rfl

/-- Received samples split anywhere spread piece by piece. -/
theorem spread_append (gaps : Gaps) (i : Nat) (xs ys : List α) :
    spread gaps i (xs ++ ys) = spread gaps i xs ++ spread gaps (i + xs.length) ys := by
  induction xs generalizing i with
  | nil => rfl
  | cons x xs ih =>
    simp only [List.cons_append, spread, ih, List.length_cons, List.append_assoc]
    rw [show i + 1 + xs.length = i + (xs.length + 1) by omega]

theorem spread_length (gaps : Gaps) (i : Nat) (xs : List α) :
    (spread gaps i xs).length = xs.length + lostWhere (fun j => i ≤ j ∧ j < i + xs.length) gaps := by
  induction xs generalizing i with
  | nil =>
    rw [lostWhere_eq_zero fun g _ => by simp]
    rfl
  | cons x xs ih =>
    have split : lostWhere (fun j => i ≤ j ∧ j < i + (x :: xs).length) gaps =
        lostAt gaps i + lostWhere (fun j => i + 1 ≤ j ∧ j < i + 1 + xs.length) gaps :=
      lostWhere_add (fun g _ => by simp only [List.length_cons]; omega) (fun g _ => by omega)
    rw [split, spread, List.length_append, List.length_replicate, List.length_cons, ih, List.length_cons]
    omega

/-- The received samples are the stream the losses are spread over. -/
theorem spread_received (gaps : Gaps) (i : Nat) (xs : List α) : (spread gaps i xs).reduceOption = xs := by
  induction xs generalizing i with
  | nil => rfl
  | cons x xs ih =>
    rw [spread, List.reduceOption_append, List.reduceOption_cons_of_some, ih]
    simp

theorem map_some_reduceOption {t : List (Option α)} (received : ∀ x ∈ t, x.isSome) :
    t.reduceOption.map some = t := by
  induction t with
  | nil => rfl
  | cons x t ih =>
    obtain ⟨value, rfl⟩ := Option.isSome_iff_exists.mp (received x (List.mem_cons_self ..))
    rw [List.reduceOption_cons_of_some, List.map_cons, ih fun y member => received y (List.mem_cons_of_mem _ member)]

/-- The end of a timeline in which nothing is lost is the end of its stream. -/
theorem drop_received {t : List (Option α)} {i : Nat} (received : ∀ x ∈ t.drop i, x.isSome) :
    (t.reduceOption.drop (t.reduceOption.length - (t.length - i))).map some = t.drop i := by
  have all := map_some_reduceOption received
  have length : (t.drop i).reduceOption.length = t.length - i := by
    have same := congrArg List.length all
    rwa [List.length_map, List.length_drop] at same
  have split : t.reduceOption = (t.take i).reduceOption ++ (t.drop i).reduceOption := by
    rw [← List.reduceOption_append, List.take_append_drop]
  rw [split, List.length_append, length, Nat.add_sub_cancel, List.drop_left, all]

/-- The same time-samples written run by run: each gap with the received
samples since the last one before it. -/
def splice : Nat → Gaps → List α → List (Option α)
  | pos, [], xs => (xs.drop pos).map some
  | pos, g :: gaps, xs =>
    ((xs.take g.1).drop pos).map some ++ List.replicate g.2 none ++ splice g.1 gaps xs

/-- Offsets strictly rising, all of them above `low` and below `n`. -/
def Rising (low n : Nat) (gaps : Gaps) : Prop :=
  gaps.Pairwise (fun a b => a.1 < b.1) ∧ ∀ g ∈ gaps, low < g.1 ∧ g.1 < n

theorem Rising.tail {low n : Nat} {g : Nat × Nat} {gaps : Gaps} (rising : Rising low n (g :: gaps)) :
    Rising g.1 n gaps := by
  obtain ⟨ordered, bounds⟩ := rising
  rw [List.pairwise_cons] at ordered
  exact ⟨ordered.2, fun h member => ⟨ordered.1 h member, (bounds h (List.mem_cons_of_mem _ member)).2⟩⟩

theorem Rising.mono {low low' n : Nat} {gaps : Gaps} (rising : Rising low n gaps) (below : low' ≤ low) :
    Rising low' n gaps :=
  ⟨rising.1, fun g member => ⟨by have := (rising.2 g member).1; omega, (rising.2 g member).2⟩⟩

/-- The gap at the first offset, taken out of the list. -/
theorem spread_head {g : Nat × Nat} {gaps : Gaps} {xs : List α} (later : ∀ h ∈ gaps, g.1 < h.1)
    (received : xs ≠ []) :
    spread (g :: gaps) g.1 xs = List.replicate g.2 none ++ spread gaps g.1 xs := by
  cases xs with
  | nil => exact absurd rfl received
  | cons x xs =>
    have here : lostAt gaps g.1 = 0 :=
      lostWhere_eq_zero fun h member => by have := later h member; omega
    have rest : spread (g :: gaps) (g.1 + 1) xs = spread gaps (g.1 + 1) xs :=
      spread_congr fun j above => by
        have : g.1 ≠ j := by omega
        simp [lostAt, this]
    simp only [spread, rest, here]
    simp only [lostAt] at here
    simp [lostAt, here]

theorem spread_eq_splice {gaps : Gaps} {pos : Nat} {xs : List α} (rising : Rising pos xs.length gaps) :
    spread gaps pos (xs.drop pos) = splice pos gaps xs := by
  induction gaps generalizing pos with
  | nil =>
    rw [splice, spread_lossless (by simp)]
  | cons g gaps ih =>
    obtain ⟨above, inside⟩ := rising.2 g (List.mem_cons_self ..)
    have later := rising.tail
    have cut : xs.drop pos = (xs.take g.1).drop pos ++ xs.drop g.1 := by
      conv_lhs => rw [← List.take_append_drop g.1 xs]
      rw [List.drop_append_of_le_length (by simp; omega)]
    have width : pos + ((xs.take g.1).drop pos).length = g.1 := by simp; omega
    have before : spread (g :: gaps) pos ((xs.take g.1).drop pos) = ((xs.take g.1).drop pos).map some := by
      refine spread_lossless fun h member => Or.inr ?_
      rw [width]
      rcases List.mem_cons.mp member with rfl | tail
      · exact le_rfl
      · exact (later.2 h tail).1.le
    rw [cut, spread_append, before, width, spread_head (fun h member => (later.2 h member).1) (by simp; omega),
      ih later, splice, List.append_assoc]

/-- Losses after the samples are not spread over them. -/
theorem spread_append_later {a b : Gaps} {i : Nat} {xs : List α} (later : ∀ g ∈ b, i + xs.length ≤ g.1) :
    spread (a ++ b) i xs = spread a i xs := by
  induction xs generalizing i with
  | nil => rfl
  | cons x xs ih =>
    have apart : lostAt b i = 0 :=
      lostWhere_eq_zero fun g member => by
        have := later g member
        simp only [List.length_cons] at this
        omega
    have here : lostAt (a ++ b) i = lostAt a i := by
      rw [lostAt, lostWhere_append]
      exact Nat.add_eq_left.mpr apart
    have rest : ∀ g ∈ b, i + 1 + xs.length ≤ g.1 := by
      intro g member
      have := later g member
      simp only [List.length_cons] at this
      omega
    simp only [spread, here, ih rest]

/-- More samples take the loss at the end of the ones before them. -/
theorem spread_extend {gaps : Gaps} {xs ys : List α} (reported : ∀ g ∈ gaps, g.1 ≤ xs.length) (more : ys ≠ []) :
    spread gaps 0 (xs ++ ys) =
      spread gaps 0 xs ++ List.replicate (lostAt gaps xs.length) none ++ ys.map some := by
  cases ys with
  | nil => exact absurd rfl more
  | cons y ys =>
    have rest : spread gaps (xs.length + 1) ys = ys.map some :=
      spread_lossless fun g member => by
        have := reported g member
        omega
    rw [spread_append, Nat.zero_add, spread, rest]
    simp

/-- A timeline with the source's own sample wherever it has one. -/
def Places (source : Nat → α) (first : Nat) (t : List (Option α)) : Prop :=
  ∀ k x, t[k]? = some (some x) → x = source (first + k)

section Places
variable {source : Nat → α} {first : Nat} {a b : List (Option α)}

theorem places_nil : Places source first [] := by
  intro k x at_k
  simp at at_k

theorem places_lost (n : Nat) : Places source first (List.replicate n none) := by
  intro k x at_k
  have member := List.mem_of_getElem? at_k
  exact absurd (List.eq_of_mem_replicate member) (by simp)

theorem places_run (n : Nat) : Places source first (((List.range' first n).map source).map some) := by
  intro k x at_k
  simp only [List.getElem?_map, Option.map_eq_some_iff, Option.some.injEq, exists_eq_right] at at_k
  obtain ⟨j, at_j, value⟩ := at_k
  obtain ⟨_, rfl⟩ := List.getElem?_eq_some_iff.mp at_j
  rw [← value]
  simp

theorem Places.append (left : Places source first a) (right : Places source (first + a.length) b) :
    Places source first (a ++ b) := by
  intro k x at_k
  by_cases before : k < a.length
  · rw [List.getElem?_append_left before] at at_k
    exact left k x at_k
  · rw [List.getElem?_append_right (by omega)] at at_k
    have value := right (k - a.length) x at_k
    rwa [show first + a.length + (k - a.length) = first + k by omega] at value

theorem Places.left (whole : Places source first (a ++ b)) : Places source first a := by
  intro k x at_k
  have inside := (List.getElem?_eq_some_iff.mp at_k).1
  exact whole k x (by rw [List.getElem?_append_left inside, at_k])

end Places

end LossyStream
