import Mathlib.Data.List.Infix
import Mathlib.Tactic

/-! The first occurrence of one text in another, replaced. -/

namespace ReplaceText

variable {α : Type*} {old new t u : List α}

/-- A text without `c` that starts one with `c` ends before it. -/
theorem prefix_of_notMem {c : α} (absent : c ∉ old) (starts : old <+: t ++ c :: u) : old <+: t := by
  by_cases fits : old.length ≤ t.length
  · exact List.prefix_of_prefix_length_le starts (List.prefix_append ..) fits
  · have reaches : t ++ [c] <+: t ++ c :: u := ⟨u, by rw [List.append_assoc, List.singleton_append]⟩
    have longer : (t ++ [c]).length ≤ old.length := by
      rw [List.length_append, List.length_singleton]
      omega
    have inside := List.prefix_of_prefix_length_le reaches starts longer
    exact absurd (inside.subset (List.mem_append_right t (List.mem_singleton_self c))) absent

/-- What stands before the first `c` of a text. -/
theorem eq_of_notMem {c : α} {v : List α} (absent : c ∉ old) (absent' : c ∉ new)
    (same : old ++ c :: u = new ++ c :: v) : old = new := by
  have before : old <+: new := prefix_of_notMem absent ⟨c :: u, same⟩
  have after : new <+: old := prefix_of_notMem absent' ⟨c :: v, same.symm⟩
  exact before.eq_of_length_le after.length_le

/-- Only a text of one letter starts itself one letter later. -/
theorem eq_of_prefix_cons {c : α} (starts : old <+: c :: (old ++ u)) : ∀ d ∈ old, d = c := by
  induction old with
  | nil => exact fun d member => absurd member List.not_mem_nil
  | cons e old ih =>
    obtain ⟨rfl, rest⟩ := List.cons_prefix_cons.mp starts
    exact List.forall_mem_cons.mpr ⟨rfl, ih rest⟩

variable [DecidableEq α]

/-- `t.replace(old, new, 1)` -/
def first (old new : List α) : List α → List α
  | [] => if old = [] then new else []
  | c :: t => if old <+: c :: t then new ++ (c :: t).drop old.length else c :: first old new t

theorem first_prefix (rest : List α) : first old new (old ++ rest) = new ++ rest := by
  cases old with
  | nil =>
    cases rest with
    | nil => simp [first]
    | cons c rest => simp [first]
  | cons c old => simp [first]

theorem first_skip {c : α} (elsewhere : ¬ old <+: c :: t) : first old new (c :: t) = c :: first old new t := by
  rw [first, if_neg elsewhere]

/-- Nothing changes before the first occurrence. -/
theorem first_append {before rest : List α}
    (elsewhere : ∀ tail, tail <:+ before → tail ≠ [] → ¬ old <+: tail ++ rest) :
    first old new (before ++ rest) = before ++ first old new rest := by
  induction before with
  | nil => rfl
  | cons c before ih =>
    have here : ¬ old <+: c :: (before ++ rest) := elsewhere _ List.suffix_rfl (List.cons_ne_nil _ _)
    rw [List.cons_append, first_skip here, ih, List.cons_append]
    exact fun tail suffix filled => elsewhere tail (suffix.trans (List.suffix_cons ..)) filled

theorem first_self (t : List α) : first old old t = t := by
  induction t with
  | nil =>
    rw [first]
    split_ifs with none
    · exact none
    · rfl
  | cons c t ih =>
    by_cases here : old <+: c :: t
    · obtain ⟨after, whole⟩ := here
      rw [← whole, first_prefix]
    · rw [first_skip here, ih]

/-- What an occurrence becomes, and what surrounds it. -/
theorem first_occurs (occurs : old <:+: t) :
    ∃ before after, t = before ++ old ++ after ∧ ∀ u new, first old new (t ++ u) = before ++ new ++ after ++ u := by
  induction t with
  | nil =>
    obtain rfl := List.infix_nil.mp occurs
    refine ⟨[], [], rfl, fun u new => ?_⟩
    rw [List.nil_append, List.nil_append, List.append_nil]
    exact first_prefix u
  | cons c t ih =>
    by_cases here : old <+: c :: t
    · obtain ⟨after, whole⟩ := here
      refine ⟨[], after, by rw [← whole, List.nil_append], fun u new => ?_⟩
      rw [← whole, List.append_assoc, first_prefix, List.nil_append, List.append_assoc]
    · have inside := (List.infix_cons_iff.mp occurs).resolve_left here
      obtain ⟨before, after, split, replaced⟩ := ih inside
      refine ⟨c :: before, after, by rw [split]; rfl, fun u new => ?_⟩
      have elsewhere : ¬ old <+: c :: (t ++ u) := by
        intro starts
        have fits : old.length ≤ (c :: t).length := by
          have := inside.length_le
          rw [List.length_cons]
          omega
        exact here (List.prefix_of_prefix_length_le starts (List.prefix_append (c :: t) u) fits)
      rw [List.cons_append, first_skip elsewhere, replaced]
      rfl

theorem length_first (occurs : old <:+: t) (new : List α) : (first old new t).length + old.length = t.length + new.length := by
  obtain ⟨before, after, split, replaced⟩ := first_occurs occurs
  have whole := replaced [] new
  rw [List.append_nil, List.append_nil] at whole
  rw [whole, split]
  simp only [List.length_append]
  omega

end ReplaceText
