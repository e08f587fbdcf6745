import Mathlib.Data.List.Basic
import Mathlib.Data.List.Perm.Basic

/-! Tables of keyed rows that hold items: what storing a row does to the rows
and to the items held, and what rows of different keys hold of one list. -/

namespace Upsert

variable {ρ α κ : Type*}

/-- A new row at the end, or the first row that is the same taken out and its
update put at the end. -/
def upsert (same : ρ → Bool) (new : ρ) (update : ρ → ρ) (rows : List ρ) : List ρ :=
  match rows.find? same with
  | none => rows ++ [new]
  | some old => rows.eraseP same ++ [update old]

variable {same : ρ → Bool} {new : ρ} {update : ρ → ρ} {rows : List ρ}

theorem upsert_cases (same : ρ → Bool) (new : ρ) (update : ρ → ρ) (rows : List ρ) :
    ((∀ r ∈ rows, ¬ same r = true) ∧ upsert same new update rows = rows ++ [new]) ∨
      ∃ before old after, (∀ r ∈ before, ¬ same r = true) ∧ same old = true ∧ rows = before ++ old :: after ∧
        upsert same new update rows = before ++ after ++ [update old] := by
  cases found : rows.find? same with
  | none => exact Or.inl ⟨List.find?_eq_none.mp found, by rw [upsert, found]⟩
  | some old =>
    obtain ⟨isSame, before, after, split, others⟩ := List.find?_eq_some_iff_append.mp found
    have others : ∀ r ∈ before, ¬ same r = true := fun r member => by simpa using others r member
    refine Or.inr ⟨before, old, after, others, isSame, split, ?_⟩
    simp only [upsert, found]
    rw [split, List.eraseP_append_right _ others, List.eraseP_cons_of_pos isSame]

theorem mem_upsert {r : ρ} (member : r ∈ upsert same new update rows) :
    r ∈ rows ∨ r = new ∨ ∃ old ∈ rows, same old = true ∧ r = update old := by
  rcases upsert_cases same new update rows with ⟨-, stored⟩ | ⟨before, old, after, -, isSame, split, stored⟩
  · rw [stored, List.mem_append, List.mem_singleton] at member
    exact member.imp_right Or.inl
  · rw [stored, List.mem_append, List.mem_singleton, List.mem_append] at member
    subst split
    rcases member with (earlier | later) | rfl
    · exact Or.inl (List.mem_append_left _ earlier)
    · exact Or.inl (List.mem_append_right _ (List.mem_cons_of_mem _ later))
    · exact Or.inr (Or.inr ⟨old, List.mem_append_right _ (List.mem_cons_self ..), isSame, rfl⟩)

/-- The items of the stored row are added to those held, and none leaves. -/
theorem upsert_items {items : ρ → List α} {added : List α} (fresh : items new = added)
    (updated : ∀ old ∈ rows, same old = true → items (update old) = items old ++ added) :
    ((upsert same new update rows).flatMap items).Perm (rows.flatMap items ++ added) := by
  rcases upsert_cases same new update rows with ⟨-, stored⟩ | ⟨before, old, after, -, isSame, split, stored⟩
  · rw [stored, List.flatMap_append, List.flatMap_singleton, fresh]
  · subst split
    rw [stored]
    simp only [List.flatMap_append, List.flatMap_cons, List.flatMap_nil, List.append_nil,
      updated old (List.mem_append_right _ (List.mem_cons_self ..)) isSame, ← List.append_assoc]
    refine List.Perm.append_right added ?_
    rw [List.append_assoc, List.append_assoc]
    exact List.perm_append_comm.append_left _

/-- Rows of different keys stay so. -/
theorem upsert_distinct {key : ρ → κ} {k : κ} (its : ∀ r ∈ rows, same r = true ↔ key r = k) (fresh : key new = k)
    (updated : ∀ old ∈ rows, same old = true → key (update old) = k)
    (distinct : rows.Pairwise fun r r' => key r ≠ key r') :
    (upsert same new update rows).Pairwise fun r r' => key r ≠ key r' := by
  rcases upsert_cases same new update rows with ⟨none, stored⟩ | ⟨before, old, after, -, isSame, split, stored⟩
  · rw [stored, List.pairwise_append]
    refine ⟨distinct, List.pairwise_singleton .., fun r member r' last => ?_⟩
    obtain rfl := List.mem_singleton.mp last
    rw [fresh]
    exact fun eq => none r member ((its r member).mpr eq)
  · subst split
    have oldHere : old ∈ before ++ old :: after := List.mem_append_right _ (List.mem_cons_self ..)
    have oldKey := (its old oldHere).mp isSame
    rw [List.pairwise_append, List.pairwise_cons] at distinct
    obtain ⟨beforeDistinct, ⟨oldAfter, afterDistinct⟩, across⟩ := distinct
    rw [stored, List.pairwise_append, List.pairwise_append]
    refine ⟨⟨beforeDistinct, afterDistinct, fun r member r' later => across r member r' (List.mem_cons_of_mem _ later)⟩,
      List.pairwise_singleton .., fun r member r' last => ?_⟩
    obtain rfl := List.mem_singleton.mp last
    rw [updated old oldHere isSame, ← oldKey]
    rcases List.mem_append.mp member with earlier | later
    · exact across r earlier old (List.mem_cons_self ..)
    · exact (oldAfter r later).symm

theorem flatMap_filter (p : ρ → Bool) (items : ρ → List α) (rows : List ρ) :
    (rows.filter p).flatMap items = rows.flatMap fun r => if p r then items r else [] := by
  induction rows with
  | nil => rfl
  | cons r rows ih =>
    by_cases kept : p r = true
    · rw [List.filter_cons_of_pos kept, List.flatMap_cons, List.flatMap_cons, ih, if_pos kept]
    · rw [List.filter_cons_of_neg kept, List.flatMap_cons, ih, if_neg kept, List.nil_append]

theorem filter_or_perm {p q : α → Bool} {items : List α} (apart : ∀ x ∈ items, p x = true → ¬ q x = true) :
    (items.filter p ++ items.filter q).Perm (items.filter fun x => p x || q x) := by
  have whole := List.filter_append_perm p (items.filter fun x => p x || q x)
  rw [List.filter_filter, List.filter_filter] at whole
  refine (List.Perm.of_eq ?_).trans whole
  congr 1
  · exact List.filter_congr fun x _ => by cases p x <;> rfl
  · refine List.filter_congr fun x member => ?_
    have := apart x member
    cases isP : p x
    · simp
    · simpa using this isP

/-- Rows that take different items of a list take, together, each item that
one of them takes once. -/
theorem flatMap_filter_perm {takes : ρ → α → Bool} {items : List α}
    (apart : rows.Pairwise fun r r' => ∀ x ∈ items, takes r x = true → ¬ takes r' x = true) :
    (rows.flatMap fun r => items.filter (takes r)).Perm (items.filter fun x => rows.any fun r => takes r x) := by
  induction rows with
  | nil => simp
  | cons r rows ih =>
    obtain ⟨first, rest⟩ := List.pairwise_cons.mp apart
    rw [List.flatMap_cons]
    refine ((ih rest).append_left _).trans ?_
    refine (filter_or_perm fun x member taken => ?_).trans (List.Perm.of_eq ?_)
    · rw [List.any_eq_true]
      rintro ⟨r', later, also⟩
      exact first r' later x member taken also
    · exact List.filter_congr fun x _ => by rw [List.any_cons]

end Upsert
