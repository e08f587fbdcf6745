import Mathlib.Data.List.Sort
import Mathlib.Tactic

/-! Lists of stretches `(first, len)` of an index range, in the order they
were filled. -/

namespace Stretches

/-- Add the stretch `[pos, pos + k)`, merged into the last one when it
starts where that one ends. -/
def extend (s : List (Nat × Nat)) (pos k : Nat) : List (Nat × Nat) :=
  match s.getLast? with
  | some g => if g.1 + g.2 = pos then s.dropLast ++ [(g.1, g.2 + k)] else s ++ [(pos, k)]
  | none => [(pos, k)]

def total (s : List (Nat × Nat)) : Nat := (s.map Prod.snd).sum

def Covers (s : List (Nat × Nat)) (i : Nat) : Prop := ∃ g ∈ s, g.1 ≤ i ∧ i < g.1 + g.2

/-- Each stretch has samples, and ends before the next begins. -/
structure Apart (s : List (Nat × Nat)) : Prop where
  order : s.Pairwise fun a b => a.1 + a.2 ≤ b.1
  some : ∀ g ∈ s, 0 < g.2

/-- The stretches are those of the marked indices. -/
structure Of (s : List (Nat × Nat)) (marks : List Bool) : Prop where
  apart : Apart s
  covers : ∀ i, Covers s i ↔ marks[i]? = some true
  total : total s = marks.count true

/-- No stretch begins where the one before it ends. -/
def Separated (s : List (Nat × Nat)) : Prop := s.Pairwise fun a b => a.1 + a.2 < b.1

variable {s t : List (Nat × Nat)} {marks : List Bool}

theorem Covers.append {i : Nat} : Covers (s ++ t) i ↔ Covers s i ∨ Covers t i := by
  simp only [Covers, List.mem_append, or_and_right, exists_or]

theorem Covers.single {g : Nat × Nat} {i : Nat} : Covers [g] i ↔ g.1 ≤ i ∧ i < g.1 + g.2 := by
  simp [Covers]

theorem total_append (s t : List (Nat × Nat)) : Stretches.total (s ++ t) = Stretches.total s + Stretches.total t := by
  simp [Stretches.total]

theorem Of.within (of : Of s marks) {g : Nat × Nat} (member : g ∈ s) : g.1 + g.2 ≤ marks.length := by
  have positive := of.apart.some g member
  have last := (of.covers (g.1 + g.2 - 1)).mp ⟨g, member, by omega, by omega⟩
  have := (List.getElem?_eq_some_iff.mp last).1
  omega

theorem of_nil : Of [] [] := by
  refine ⟨⟨List.Pairwise.nil, List.forall_mem_nil _⟩, fun i => ?_, rfl⟩
  simp [Covers]

theorem extend_cases (s : List (Nat × Nat)) (pos k : Nat) :
    extend s pos k = s ++ [(pos, k)] ∨
      ∃ before g, s = before ++ [g] ∧ g.1 + g.2 = pos ∧ extend s pos k = before ++ [(g.1, g.2 + k)] := by
  unfold extend
  rcases List.eq_nil_or_concat s with rfl | ⟨before, g, rfl⟩
  · exact Or.inl rfl
  · simp only [List.concat_eq_append, List.getLast?_append, List.getLast?_singleton, Option.some_or,
      List.dropLast_concat]
    split_ifs with meets
    · exact Or.inr ⟨before, g, rfl, meets, rfl⟩
    · exact Or.inl rfl

theorem Separated.extend (separated : Separated s) {pos : Nat} (within : ∀ g ∈ s, g.1 + g.2 ≤ pos)
    (k : Nat) : Separated (extend s pos k) := by
  unfold Stretches.extend
  rcases List.eq_nil_or_concat s with rfl | ⟨before, g, rfl⟩
  · exact List.pairwise_singleton ..
  · simp only [List.concat_eq_append, List.getLast?_append, List.getLast?_singleton, Option.some_or,
      List.dropLast_concat]
    rw [List.concat_eq_append] at separated within
    obtain ⟨order, -, apart⟩ := List.pairwise_append.mp separated
    have last := within g (List.mem_append_right _ (List.mem_singleton_self g))
    split_ifs with meets
    · refine List.pairwise_append.mpr ⟨order, List.pairwise_singleton .., fun a member b single => ?_⟩
      rw [List.mem_singleton.mp single]
      exact apart a member g (List.mem_singleton_self g)
    · refine List.pairwise_append.mpr ⟨separated, List.pairwise_singleton .., fun a member b single => ?_⟩
      rw [List.mem_singleton.mp single]
      rcases List.mem_append.mp member with earlier | newest
      · have ahead := apart a earlier g (List.mem_singleton_self g)
        dsimp only
        omega
      · rw [List.mem_singleton.mp newest]
        dsimp only
        omega

theorem marked_append {k : Nat} {b : Bool} (i : Nat) :
    (marks ++ List.replicate k b)[i]? = some true ↔
      marks[i]? = some true ∨ (b = true ∧ marks.length ≤ i ∧ i < marks.length + k) := by
  by_cases inside : i < marks.length
  · rw [List.getElem?_append_left inside]
    constructor
    · exact Or.inl
    · rintro (here | ⟨-, after, -⟩)
      · exact here
      · omega
  · rw [List.getElem?_append_right (not_lt.mp inside), List.getElem?_eq_none (not_lt.mp inside)]
    simp only [List.getElem?_replicate, reduceCtorEq, false_or]
    constructor
    · intro here
      split_ifs at here with within
      exact ⟨Option.some.inj here, not_lt.mp inside, by omega⟩
    · rintro ⟨rfl, after, within⟩
      rw [if_pos (by omega)]

/-- Indices without a mark follow. -/
theorem Of.skip (of : Of s marks) (k : Nat) : Of s (marks ++ List.replicate k false) where
  apart := of.apart
  covers := fun i => by
    rw [of.covers, marked_append]
    simp
  total := by
    rw [of.total, List.count_append, List.count_replicate]
    simp

/-- Marked indices follow: they join the last stretch or make a new one. -/
theorem Of.extend (of : Of s marks) {k : Nat} (some : 0 < k) :
    Of (extend s marks.length k) (marks ++ List.replicate k true) := by
  have counted : (marks ++ List.replicate k true).count true = Stretches.total s + k := by
    rw [List.count_append, List.count_replicate_self, of.total]
  rcases extend_cases s marks.length k with new | ⟨before, g, rfl, meets, joined⟩
  · rw [new]
    refine ⟨⟨List.pairwise_append.mpr ⟨of.apart.order, List.pairwise_singleton .., fun a member b last => ?_⟩,
      fun a member => ?_⟩, fun i => ?_, ?_⟩
    · obtain rfl := List.mem_singleton.mp last
      exact of.within member
    · rcases List.mem_append.mp member with old | last
      · exact of.apart.some a old
      · exact List.mem_singleton.mp last ▸ some
    · rw [Covers.append, of.covers, Covers.single, marked_append]
      simp
    · rw [total_append, counted]
      simp [Stretches.total]
  · rw [joined]
    have order := List.pairwise_append.mp of.apart.order
    refine ⟨⟨List.pairwise_append.mpr ⟨order.1, List.pairwise_singleton .., fun a member b last => ?_⟩,
      fun a member => ?_⟩, fun i => ?_, ?_⟩
    · obtain rfl := List.mem_singleton.mp last
      exact order.2.2 a member g (List.mem_singleton_self g)
    · rcases List.mem_append.mp member with old | last
      · exact of.apart.some a (List.mem_append_left _ old)
      · obtain rfl := List.mem_singleton.mp last
        omega
    · rw [marked_append, ← of.covers, Covers.append, Covers.append, Covers.single, Covers.single, or_assoc]
      refine or_congr_right ?_
      simp only [true_and]
      omega
    · rw [counted, total_append, total_append]
      simp [Stretches.total]
      omega

/-- Two families of stretches, of marks that exclude each other, in order. -/
theorem Of.merge {sorted : List (Nat × Nat)} {marks' : List Bool} (of : Of s marks) (of' : Of t marks')
    (length : marks.length = marks'.length) (apart : ∀ i : Nat, ¬ (marks[i]? = some true ∧ marks'[i]? = some true))
    (perm : sorted.Perm (s ++ t)) (order : sorted.Pairwise fun a b => a.1 < b.1 ∨ (a.1 = b.1 ∧ a.2 ≤ b.2)) :
    Of sorted (List.zipWith (· || ·) marks marks') := by
  have either : ∀ i, Covers sorted i ↔ Covers s i ∨ Covers t i := fun i => by
    rw [← Covers.append]
    exact exists_congr fun g => and_congr_left' perm.mem_iff
  have some_ : ∀ g ∈ sorted, 0 < g.2 := fun g member => by
    rcases List.mem_append.mp (perm.mem_iff.mp member) with first | second
    · exact of.apart.some g first
    · exact of'.apart.some g second
  -- two stretches never meet: in one family by its order, across by the marks
  have disjoint : (s ++ t).Pairwise fun a b => a.1 + a.2 ≤ b.1 ∨ b.1 + b.2 ≤ a.1 := by
    refine List.pairwise_append.mpr ⟨of.apart.order.imp Or.inl, of'.apart.order.imp Or.inl, fun a first b second => ?_⟩
    by_contra meet
    have positive := of.apart.some a first
    have positive' := of'.apart.some b second
    exact apart (max a.1 b.1) ⟨(of.covers _).mp ⟨a, first, by omega, by omega⟩,
      (of'.covers _).mp ⟨b, second, by omega, by omega⟩⟩
  have disjoint' := (perm.pairwise_iff (fun {a b} h => Or.symm h)).mpr disjoint
  refine ⟨⟨?_, some_⟩, fun i => ?_, ?_⟩
  · refine (order.and disjoint').imp_of_mem fun {a b} inA inB ⟨le, split⟩ => ?_
    have positive := some_ a inA
    have positive' := some_ b inB
    omega
  · rw [either, of.covers, of'.covers, List.getElem?_zipWith]
    by_cases inside : i < marks.length
    · rw [List.getElem?_eq_getElem inside, List.getElem?_eq_getElem (length ▸ inside)]
      simp
    · rw [List.getElem?_eq_none (not_lt.mp inside), List.getElem?_eq_none (length ▸ not_lt.mp inside)]
      simp
  · have sums : Stretches.total sorted = Stretches.total s + Stretches.total t := by
      rw [← total_append]
      exact (perm.map Prod.snd).sum_eq
    rw [sums, of.total, of'.total]
    clear * - length apart
    induction marks generalizing marks' with
    | nil =>
      rw [List.eq_nil_of_length_eq_zero length.symm]
      rfl
    | cons a marks ih =>
      obtain ⟨b, marks', rfl⟩ := List.exists_cons_of_length_eq_add_one length.symm
      have rest := @ih marks' (Nat.succ.inj length) (fun i => by simpa using apart (i + 1))
      have first := apart 0
      simp only [List.getElem?_cons_zero, Option.some.injEq] at first
      simp only [List.zipWith_cons_cons, List.count_cons, ← rest]
      clear ih rest apart length
      cases a with
      | false => cases b <;> simp; omega
      | true =>
        cases b with
        | false => simp; omega
        | true => exact absurd ⟨rfl, rfl⟩ first

end Stretches
