import Mathlib.Data.List.Forall2
import Mathlib.Tactic

/-! A list through a partial function. -/

namespace OptionList

theorem mapM_forall₂ {α β : Type*} {f : α → Option β} {l : List α} {m : List β} (mapped : l.mapM f = some m) :
    List.Forall₂ (fun a b => f a = some b) l m := by
  induction l generalizing m with
  | nil =>
    cases Option.some.inj mapped
    exact .nil
  | cons a l ih =>
    rw [List.mapM_cons] at mapped
    obtain ⟨b, first, rest⟩ := Option.bind_eq_some_iff.mp mapped
    obtain ⟨bs, later, same⟩ := Option.bind_eq_some_iff.mp rest
    cases Option.some.inj same
    exact .cons first (ih later)

theorem forall₂_right {α β : Type*} {p : β → Prop} {l : List α} {m : List β} (all : List.Forall₂ (fun _ b => p b) l m) :
    ∀ b ∈ m, p b := by
  induction all with
  | nil => nofun
  | cons first _ ih => exact List.forall_mem_cons.mpr ⟨first, ih⟩

theorem mapM_isSome {α β : Type*} {f : α → Option β} {l : List α} : (∃ m, l.mapM f = some m) ↔ ∀ a ∈ l, ∃ b, f a = some b := by
  induction l with
  | nil => exact ⟨fun _ => nofun, fun _ => ⟨[], rfl⟩⟩
  | cons a l ih =>
    rw [List.forall_mem_cons, ← ih, List.mapM_cons]
    constructor
    · rintro ⟨m, mapped⟩
      obtain ⟨b, first, rest⟩ := Option.bind_eq_some_iff.mp mapped
      obtain ⟨bs, later, -⟩ := Option.bind_eq_some_iff.mp rest
      exact ⟨⟨b, first⟩, bs, later⟩
    · rintro ⟨⟨b, first⟩, bs, later⟩
      exact ⟨b :: bs, by rw [first, later]; rfl⟩

end OptionList
