import Mathlib.Order.Bounds.Basic
import Mathlib.Order.Lattice
import Mathlib.Tactic

/-! Merging the values of a list in one pass that keeps a single current value:
the next value is taken in when it is in reach, and replaces it otherwise. -/

namespace SinglePass

section Groups

variable {α : Type*} (grow : α → α → α) (reach : α → α → Prop)

/-- The pass over the rest of a list, with its current value. -/
def pass [DecidableRel reach] : α → List α → List α
  | current, [] => [current]
  | current, x :: rest =>
    if reach current x then pass (grow current x) rest else current :: pass x rest

/-- A group's values, the first of them apart. -/
def members (g : α × List α) : List α := g.1 :: g.2

def total (g : α × List α) : α := g.2.foldl grow g.1

/-- Each value is in reach of what those before it have grown to. -/
def Gathers : α → List α → Prop
  | _, [] => True
  | current, x :: rest => reach current x ∧ Gathers (grow current x) rest

instance Gathers.decidable [DecidableRel reach] : ∀ current xs, Decidable (Gathers grow reach current xs)
  | _, [] => isTrue trivial
  | current, x :: rest =>
    have := Gathers.decidable (grow current x) rest
    inferInstanceAs (Decidable (reach current x ∧ Gathers grow reach (grow current x) rest))

variable [DecidableRel reach]

/-- The pass cuts the list into groups that gather. -/
theorem pass_groups (current : α) (xs : List α) : ∃ (first : List α) (groups : List (α × List α)),
    xs = first ++ groups.flatMap members ∧
    pass grow reach current xs = total grow (current, first) :: groups.map (total grow) ∧
    Gathers grow reach current first ∧ ∀ g ∈ groups, Gathers grow reach g.1 g.2 := by
  induction xs generalizing current with
  | nil => exact ⟨[], [], rfl, rfl, trivial, nofun⟩
  | cons x rest ih =>
    unfold pass
    split
    · rename_i near
      obtain ⟨taken, groups, split, passed, gathers, all⟩ := ih (grow current x)
      exact ⟨x :: taken, groups, by rw [split, List.cons_append], passed, ⟨near, gathers⟩, all⟩
    · obtain ⟨taken, groups, split, passed, gathers, all⟩ := ih x
      refine ⟨[], (x, taken) :: groups, by rw [split]; rfl, by rw [passed]; rfl, trivial, fun g member => ?_⟩
      rcases List.mem_cons.mp member with rfl | later
      · exact gathers
      · exact all g later

/-- A group that gathers is taken in whole. -/
theorem pass_append {current : α} {xs rest : List α} (gathers : Gathers grow reach current xs) :
    pass grow reach current (xs ++ rest) = pass grow reach (total grow (current, xs)) rest := by
  induction xs generalizing current with
  | nil => rfl
  | cons x xs ih =>
    rw [List.cons_append, pass, if_pos gathers.1, ih gathers.2]
    rfl

variable {grow reach} {β : Type*} {grow' : β → β → β} {reach' : β → β → Prop} [DecidableRel reach']
  {before : α → α → Prop} {f : α → β}

/-- A pass seen through a map that keeps growing, and reach of the values to come. -/
theorem map_pass (grows : ∀ a b, before a b → f (grow a b) = grow' (f a) (f b))
    (reaches : ∀ a b, before a b → (reach a b ↔ reach' (f a) (f b)))
    (stays : ∀ a b c, before a c → before (grow a b) c) {current : α} {xs : List α}
    (order : (current :: xs).Pairwise before) :
    (pass grow reach current xs).map f = pass grow' reach' (f current) (xs.map f) := by
  induction xs generalizing current with
  | nil => rfl
  | cons x rest ih =>
    obtain ⟨ahead, order⟩ := List.pairwise_cons.mp order
    obtain ⟨ahead', order'⟩ := List.pairwise_cons.mp order
    have next := ahead x (List.mem_cons_self ..)
    have near := reaches current x next
    rw [List.map_cons, pass, pass]
    by_cases taken : reach current x
    · rw [if_pos taken, if_pos (near.mp taken), ← grows _ _ next]
      exact ih (List.pairwise_cons.mpr
        ⟨fun y member => stays _ _ _ (ahead y (List.mem_cons_of_mem _ member)), order'⟩)
    · rw [if_neg taken, if_neg (fun near' => taken (near.mpr near')), List.map_cons, ih order]

end Groups

section Apart

variable {S : Type*} [SemilatticeSup S] {near : S → S → Prop}

/-- Growing loses no neighbour. -/
def Widens (near : S → S → Prop) : Prop := ∀ a b a' b', a ≤ a' → b ≤ b' → near a b → near a' b'

/-- The list can be cut into groups, each of which gathers and no two of which
are near. -/
def Stretched (near : S → S → Prop) (xs : List S) : Prop :=
  ∃ groups : List (S × List S), xs = groups.flatMap members ∧ (∀ g ∈ groups, Gathers (· ⊔ ·) near g.1 g.2) ∧
    (groups.map (total (· ⊔ ·))).Pairwise fun a b => ¬ near a b

theorem total_isLUB (g : S × List S) : IsLUB {x | x ∈ members g} (total (· ⊔ ·) g) := by
  obtain ⟨first, rest⟩ := g
  induction rest generalizing first with
  | nil => simp [members, total]
  | cons x rest ih =>
    obtain ⟨upper, least⟩ := ih (first ⊔ x)
    have grown : first ⊔ x ≤ total (· ⊔ ·) (first, x :: rest) := upper (List.mem_cons_self ..)
    refine ⟨fun y member => ?_, fun bound bounds => least fun y member => ?_⟩
    · rcases List.mem_cons.mp member with rfl | later
      · exact le_sup_left.trans grown
      · rcases List.mem_cons.mp later with rfl | later
        · exact le_sup_right.trans grown
        · exact upper (List.mem_cons_of_mem _ later)
    · rcases List.mem_cons.mp member with rfl | later
      · exact sup_le (bounds (List.mem_cons_self ..)) (bounds (List.mem_cons_of_mem _ (List.mem_cons_self ..)))
      · exact bounds (List.mem_cons_of_mem _ (List.mem_cons_of_mem _ later))

theorem first_le_total (g : S × List S) : g.1 ≤ total (· ⊔ ·) g :=
  (total_isLUB g).1 (List.mem_cons_self ..)

variable [DecidableRel near]

/-- Groups that gather, no two of them near, are what the pass finds. -/
theorem pass_of_apart (widens : Widens near) {current : S} {xs : List S} {groups : List (S × List S)}
    (gathers : Gathers (· ⊔ ·) near current xs) (all : ∀ g ∈ groups, Gathers (· ⊔ ·) near g.1 g.2)
    (apart : (total (· ⊔ ·) (current, xs) :: groups.map (total (· ⊔ ·))).Pairwise fun a b => ¬ near a b) :
    pass (· ⊔ ·) near current (xs ++ groups.flatMap members) =
      total (· ⊔ ·) (current, xs) :: groups.map (total (· ⊔ ·)) := by
  induction groups generalizing current xs with
  | nil => exact pass_append _ _ gathers
  | cons g groups ih =>
    obtain ⟨ahead, rest⟩ := List.pairwise_cons.mp apart
    have far : ¬ near (total (· ⊔ ·) (current, xs)) g.1 := fun close =>
      ahead _ (List.mem_cons_self ..) (widens _ _ _ _ le_rfl (first_le_total g) close)
    have next := ih (all g (List.mem_cons_self ..)) (fun h member => all h (List.mem_cons_of_mem _ member)) rest
    rw [pass_append _ _ gathers, List.flatMap_cons, members, List.cons_append, pass, if_neg far, next, List.map_cons]

/-- The pass leaves no two values near each other just when the list is so cut
already. -/
theorem apart_iff_stretched (widens : Widens near) (current : S) (xs : List S) :
    ((pass (· ⊔ ·) near current xs).Pairwise fun a b => ¬ near a b) ↔ Stretched near (current :: xs) := by
  constructor
  · intro apart
    obtain ⟨first, groups, split, passed, gathers, all⟩ := pass_groups (· ⊔ ·) near current xs
    refine ⟨(current, first) :: groups, by rw [split]; rfl, fun g member => ?_, ?_⟩
    · rcases List.mem_cons.mp member with rfl | later
      · exact gathers
      · exact all g later
    · rw [List.map_cons, ← passed]
      exact apart
  · rintro ⟨groups, split, all, apart⟩
    cases groups with
    | nil => cases split
    | cons g groups =>
      rw [List.flatMap_cons, members, List.cons_append] at split
      obtain ⟨rfl, rfl⟩ := List.cons.inj split
      rw [pass_of_apart widens (all g (List.mem_cons_self ..)) (fun h member => all h (List.mem_cons_of_mem _ member)) apart]
      exact apart

end Apart

end SinglePass
