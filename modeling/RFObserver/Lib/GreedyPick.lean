import Mathlib.Data.List.Perm.Basic
import Mathlib.Data.List.Sort

/-! Elements taken greedily: each in its turn, unless it conflicts with one
taken before it, until enough are taken. -/

namespace GreedyPick

variable {α : Type*} (conflicts : α → α → Prop) [DecidableRel conflicts] (count : Nat)

/-- What is taken in all, when some are taken already and these are next. -/
def pick (chosen : List α) : List α → List α
  | [] => chosen
  | a :: rest =>
    if chosen.length = count then chosen
    else if ∃ c ∈ chosen, conflicts a c then pick chosen rest
    else pick (chosen ++ [a]) rest

variable {conflicts count} {chosen rest : List α}

/-- What is taken stays first. -/
theorem isPrefix_pick : chosen <+: pick conflicts count chosen rest := by
  induction rest generalizing chosen with
  | nil => exact List.prefix_rfl
  | cons a rest ih =>
    unfold pick
    split_ifs
    · exact List.prefix_rfl
    · exact ih
    · exact (List.prefix_append chosen [a]).trans ih

theorem pick_sublist : (pick conflicts count chosen rest).Sublist (chosen ++ rest) := by
  induction rest generalizing chosen with
  | nil => simp [pick]
  | cons a rest ih =>
    unfold pick
    split_ifs
    · exact List.sublist_append_left ..
    · exact ih.trans ((List.sublist_cons_self a rest).append_left chosen)
    · have extended : (pick conflicts count (chosen ++ [a]) rest).Sublist ((chosen ++ [a]) ++ rest) := ih
      simpa using extended

theorem length_pick (few : chosen.length ≤ count) : (pick conflicts count chosen rest).length ≤ count := by
  induction rest generalizing chosen with
  | nil => exact few
  | cons a rest ih =>
    unfold pick
    split_ifs with full
    · exact few
    · exact ih few
    · refine ih ?_
      rw [List.length_append, List.length_singleton]
      omega

/-- No two that are taken conflict. -/
theorem pick_pairwise (symmetric : ∀ a b, conflicts a b → conflicts b a)
    (apart : chosen.Pairwise fun a b => ¬ conflicts a b) :
    (pick conflicts count chosen rest).Pairwise fun a b => ¬ conflicts a b := by
  induction rest generalizing chosen with
  | nil => exact apart
  | cons a rest ih =>
    unfold pick
    split_ifs with full clash
    · exact apart
    · exact ih apart
    · refine ih (List.pairwise_append.mpr ⟨apart, List.pairwise_singleton .., fun c member b isLast => ?_⟩)
      obtain rfl := List.mem_singleton.mp isLast
      exact fun conflict => clash ⟨c, member, symmetric _ _ conflict⟩

/-- What is passed over conflicts with one taken before it, or it comes after enough are taken. -/
theorem pick_passed {before : α → α → Prop} (ordered : (chosen ++ rest).Pairwise before) :
    ∃ passed : List α, (pick conflicts count chosen rest ++ passed).Perm (chosen ++ rest) ∧ ∀ a ∈ passed,
      (∃ c ∈ pick conflicts count chosen rest, conflicts a c ∧ before c a) ∨
        (pick conflicts count chosen rest).length = count ∧ ∀ c ∈ pick conflicts count chosen rest, before c a := by
  induction rest generalizing chosen with
  | nil => exact ⟨[], by simp [pick], fun a none => (List.not_mem_nil none).elim⟩
  | cons a rest ih =>
    have later := (List.pairwise_append.mp ordered).2.2
    unfold pick
    split_ifs with full clash
    · exact ⟨a :: rest, .refl _, fun b member => Or.inr ⟨full, fun c taken => later c taken b member⟩⟩
    · have skips : (chosen ++ rest).Pairwise before :=
        ordered.sublist ((List.sublist_cons_self a rest).append_left chosen)
      obtain ⟨passed, perm, reasons⟩ := ih skips
      refine ⟨a :: passed, ?_, fun b member => ?_⟩
      · have behind : (pick conflicts count chosen rest ++ a :: passed).Perm (a :: (chosen ++ rest)) :=
          List.perm_middle.trans (perm.cons a)
        exact behind.trans List.perm_middle.symm
      · rcases List.mem_cons.mp member with rfl | inRest
        · obtain ⟨c, taken, conflict⟩ := clash
          exact Or.inl ⟨c, isPrefix_pick.subset taken, conflict, later c taken b (List.mem_cons_self ..)⟩
        · exact reasons b inRest
    · have takes : ((chosen ++ [a]) ++ rest).Pairwise before := by simpa using ordered
      obtain ⟨passed, perm, reasons⟩ := ih takes
      exact ⟨passed, by simpa using perm, reasons⟩

/-- The first of all is always taken. -/
theorem head?_pick (room : 0 < count) : (pick conflicts count [] rest).head? = rest.head? := by
  cases rest with
  | nil => rfl
  | cons a rest =>
    have free : ¬ ([] : List α).length = count := by
      rw [List.length_nil]
      omega
    rw [pick, if_neg free, if_neg (by simp), List.nil_append]
    obtain ⟨others, whole⟩ : [a] <+: pick conflicts count [a] rest := isPrefix_pick
    rw [← whole]
    rfl

end GreedyPick
