import Mathlib.Data.List.Induction
import Mathlib.Tactic

/-! Totals under an associative and commutative operation, and totals per
index that are taken run by run over rows in index order. -/

namespace Tally

variable {M ι β γ : Type*} (op : M → M → M) (e : M)

/-- The total of `f` over a list. -/
def tally (f : β → M) (l : List β) : M := l.foldl (fun a x => op a (f x)) e

/-- The operation index by index. -/
def pointwise (a b : ι → M) : ι → M := fun i => op (a i) (b i)

/-- `x` at `i`, nothing elsewhere. -/
def single [DecidableEq ι] (i : ι) (x : M) : ι → M := fun j => if j = i then x else e

instance [Std.Associative op] : Std.Associative (pointwise op : (ι → M) → (ι → M) → ι → M) :=
  ⟨fun _ _ _ => funext fun _ => Std.Associative.assoc ..⟩

instance [Std.Commutative op] : Std.Commutative (pointwise op : (ι → M) → (ι → M) → ι → M) :=
  ⟨fun _ _ => funext fun _ => Std.Commutative.comm ..⟩

instance [Std.LawfulIdentity op e] : Std.LawfulIdentity (pointwise op : (ι → M) → (ι → M) → ι → M) fun _ => e where
  left_id _ := funext fun _ => Std.LawfulLeftIdentity.left_id _
  right_id _ := funext fun _ => Std.LawfulRightIdentity.right_id _

theorem op_id [identity : Std.LawfulIdentity op e] (a : M) : op a e = a := identity.right_id a

theorem id_op [identity : Std.LawfulIdentity op e] (a : M) : op e a = a := identity.left_id a

theorem op_assoc [assoc : Std.Associative op] (a b c : M) : op (op a b) c = op a (op b c) := assoc.assoc a b c

theorem tally_congr {f g : β → M} {l : List β} (same : ∀ x ∈ l, f x = g x) : tally op e f l = tally op e g l :=
  List.foldl_ext _ _ _ fun _ x member => by rw [same x member]

theorem tally_map (f : β → M) (h : γ → β) (l : List γ) : tally op e f (l.map h) = tally op e (fun y => f (h y)) l :=
  List.foldl_map

theorem tally_concat (f : β → M) (l : List β) (x : β) : tally op e f (l ++ [x]) = op (tally op e f l) (f x) :=
  List.foldl_concat ..

/-- A total under a map that respects the operation. -/
theorem tally_hom {M' : Type*} {op' : M' → M' → M'} {h : M → M'} (respects : ∀ a b, h (op a b) = op' (h a) (h b))
    (f : β → M) (l : List β) : h (tally op e f l) = tally op' (h e) (fun x => h (f x)) l :=
  (List.foldl_hom h fun a x => (respects a (f x)).symm).symm

theorem tally_apply (f : β → ι → M) (l : List β) (i : ι) :
    tally (pointwise op) (fun _ => e) f l i = tally op e (fun x => f x i) l :=
  tally_hom (h := fun a => a i) (pointwise op) (fun _ => e) (fun _ _ => rfl) f l

theorem length_eq_tally (l : List β) : l.length = tally (· + ·) 0 (fun _ => 1) l := by
  induction l using List.reverseRecOn with
  | nil => rfl
  | append_singleton l x ih => rw [tally_concat, ← ih, List.length_append, List.length_singleton]

theorem sum_map_eq_tally (f : β → Nat) (l : List β) : (l.map f).sum = tally (· + ·) 0 f l := by
  induction l using List.reverseRecOn with
  | nil => rfl
  | append_singleton l x ih => rw [tally_concat, ← ih, List.map_append, List.sum_append, List.map_singleton,
      List.sum_singleton]

theorem update_eq_single [DecidableEq ι] [Std.LawfulIdentity op e] (arr : ι → M) (i : ι) (x : M) :
    Function.update arr i (op (arr i) x) = pointwise op arr (single e i x) := by
  funext j
  unfold pointwise single
  by_cases same : j = i
  · subst same
    rw [Function.update_self, if_pos rfl]
  · rw [Function.update_of_ne same, if_neg same, op_id op e]

theorem single_op [DecidableEq ι] [Std.LawfulIdentity op e] (i : ι) (x y : M) :
    single e i (op x y) = pointwise op (single e i x) (single e i y) := by
  funext j
  unfold pointwise single
  by_cases here : j = i
  · rw [if_pos here, if_pos here, if_pos here]
  · rw [if_neg here, if_neg here, if_neg here, op_id op e]

section Laws

variable [assoc : Std.Associative op] [identity : Std.LawfulIdentity op e]

theorem foldl_eq_op_tally (f : β → M) (l : List β) (a : M) :
    l.foldl (fun a x => op a (f x)) a = op a (tally op e f l) := by
  induction l generalizing a with
  | nil => exact (op_id op e a).symm
  | cons x l ih =>
    rw [tally, List.foldl_cons, List.foldl_cons, ih, ih (op e (f x)), id_op op e, assoc.assoc]

theorem tally_cons (f : β → M) (x : β) (l : List β) : tally op e f (x :: l) = op (f x) (tally op e f l) := by
  rw [tally, List.foldl_cons, foldl_eq_op_tally op e, id_op op e]

theorem tally_append (f : β → M) (l l' : List β) :
    tally op e f (l ++ l') = op (tally op e f l) (tally op e f l') := by
  rw [tally, List.foldl_append, foldl_eq_op_tally op e]
  rfl

/-- A total of totals. -/
theorem tally_flatMap {f : β → M} {g : γ → M} {items : γ → List β} {l : List γ}
    (totals : ∀ y ∈ l, g y = tally op e f (items y)) : tally op e g l = tally op e f (l.flatMap items) := by
  induction l with
  | nil => rfl
  | cons y l ih =>
    rw [tally_cons, List.flatMap_cons, tally_append, totals y (List.mem_cons_self ..),
      ih fun z member => totals z (List.mem_cons_of_mem _ member)]

theorem tally_perm [comm : Std.Commutative op] {f : β → M} {l l' : List β} (perm : l.Perm l') :
    tally op e f l = tally op e f l' := by
  induction perm with
  | nil => rfl
  | cons x _ ih => rw [tally_cons, tally_cons, ih]
  | swap x y l =>
    rw [tally_cons, tally_cons, tally_cons, tally_cons, ← assoc.assoc, ← assoc.assoc, comm.comm (f x)]
  | trans _ _ ih ih' => exact ih.trans ih'

/-- What adds nothing may be left out. -/
theorem tally_filter (p : β → Bool) (f : β → M) (l : List β) :
    tally op e f (l.filter p) = tally op e (fun x => if p x then f x else e) l := by
  induction l with
  | nil => rfl
  | cons x l ih =>
    by_cases kept : p x = true
    · rw [List.filter_cons_of_pos kept, tally_cons, tally_cons, ih, if_pos kept]
    · rw [List.filter_cons_of_neg kept, tally_cons, ih, if_neg kept, id_op op e]

/-- A total of rows that are all at one index is at that index. -/
theorem tally_single [DecidableEq ι] {index : β → ι} {i : ι} {f : β → M} {l : List β} (here : ∀ x ∈ l, index x = i) :
    tally (pointwise op) (fun _ => e) (fun x => single e (index x) (f x)) l = single e i (tally op e f l) := by
  induction l with
  | nil =>
    funext j
    simp [tally, single]
  | cons x l ih =>
    rw [tally_cons, tally_cons, ih fun y later => here y (List.mem_cons_of_mem _ later), here x (List.mem_cons_self ..),
      single_op op e]

end Laws

/-- Neighbouring rows of one index. -/
structure Run (ι β : Type*) where
  index : ι
  first : β
  rest : List β

namespace Run

def items (r : Run ι β) : List β := r.first :: r.rest

/-- The total of a run, which is never empty. -/
def reduce (f : β → M) (r : Run ι β) : M := r.rest.foldl (fun a x => op a (f x)) (f r.first)

theorem reduce_eq [Std.Associative op] [Std.LawfulIdentity op e] (f : β → M) (r : Run ι β) :
    r.reduce op f = tally op e f r.items := by
  rw [reduce, foldl_eq_op_tally op e, items, tally_cons]

end Run

variable [DecidableEq ι]

/-- The rows split where the index changes. -/
def runs (index : β → ι) : List β → List (Run ι β)
  | [] => []
  | x :: xs =>
    match runs index xs with
    | [] => [⟨index x, x, []⟩]
    | r :: rs => if r.index = index x then ⟨r.index, x, r.items⟩ :: rs else ⟨index x, x, []⟩ :: r :: rs

/-- Each run's total is added to the array as it was before: of two runs of
one index only the last would count. -/
def addRuns (f : β → M) (rs : List (Run ι β)) (arr : ι → M) : ι → M :=
  rs.foldl (fun a r => Function.update a r.index (op (arr r.index) (r.reduce op f))) arr

/-- Each run's total is added to the array as the runs before left it. -/
def addRunsAt (f : β → M) (rs : List (Run ι β)) (arr : ι → M) : ι → M :=
  rs.foldl (fun a r => Function.update a r.index (op (a r.index) (r.reduce op f))) arr

variable {index : β → ι}

theorem runs_items (index : β → ι) (xs : List β) : (runs index xs).flatMap Run.items = xs := by
  induction xs with
  | nil => rfl
  | cons x xs ih =>
    unfold runs
    cases runsEq : runs index xs with
    | nil =>
      rw [runsEq] at ih
      simp [Run.items, ← ih]
    | cons r rs =>
      rw [runsEq, List.flatMap_cons] at ih
      simp only
      split_ifs
      · simp [Run.items, ← ih]
      · simp [Run.items, ← ih]

theorem runs_index {xs : List β} : ∀ r ∈ runs index xs, ∀ x ∈ r.items, index x = r.index := by
  induction xs with
  | nil => exact List.forall_mem_nil _
  | cons x xs ih =>
    unfold runs
    cases runsEq : runs index xs with
    | nil =>
      intro r member y inRun
      obtain rfl := List.mem_singleton.mp member
      obtain rfl := List.mem_singleton.mp inRun
      rfl
    | cons r rs =>
      rw [runsEq] at ih
      simp only
      split_ifs with joins
      · intro r' member y inRun
        rcases List.mem_cons.mp member with rfl | later
        · rcases List.mem_cons.mp inRun with rfl | before
          · exact joins.symm
          · exact ih r (List.mem_cons_self ..) y before
        · exact ih r' (List.mem_cons_of_mem _ later) y inRun
      · intro r' member y inRun
        rcases List.mem_cons.mp member with rfl | later
        · obtain rfl := List.mem_singleton.mp inRun
          rfl
        · exact ih r' later y inRun

/-- In index order no index comes back in a later run. -/
theorem runs_distinct [LinearOrder ι] {index : β → ι} {xs : List β}
    (sorted : xs.Pairwise fun x y => index x ≤ index y) : ((runs index xs).map Run.index).Pairwise (· < ·) := by
  induction xs with
  | nil => exact List.Pairwise.nil
  | cons x xs ih =>
    obtain ⟨first, rest⟩ := List.pairwise_cons.mp sorted
    have distinct := ih rest
    have above : ∀ r ∈ runs index xs, index x ≤ r.index := fun r member => by
      rw [← runs_index r member r.first (List.mem_cons_self ..)]
      refine first _ ?_
      rw [← runs_items index xs]
      exact List.mem_flatMap.mpr ⟨r, member, List.mem_cons_self ..⟩
    unfold runs
    cases runsEq : runs index xs with
    | nil => exact List.pairwise_singleton ..
    | cons r rs =>
      rw [runsEq] at distinct above
      simp only
      split_ifs with joins
      · exact distinct
      · refine List.pairwise_cons.mpr ⟨fun i later => ?_, distinct⟩
        have below := lt_of_le_of_ne (above r (List.mem_cons_self ..)) fun same => joins same.symm
        rcases List.mem_cons.mp later with rfl | after
        · exact below
        · exact lt_trans below ((List.pairwise_cons.mp distinct).1 i after)

/-- Runs of different indices are added alike. -/
theorem addRuns_eq_addRunsAt (f : β → M) {rs : List (Run ι β)} (distinct : (rs.map Run.index).Nodup) (arr : ι → M) :
    addRuns op f rs arr = addRunsAt op f rs arr := by
  have kept : ∀ a : ι → M, (∀ r ∈ rs, a r.index = arr r.index) →
      rs.foldl (fun a r => Function.update a r.index (op (arr r.index) (r.reduce op f))) a =
        rs.foldl (fun a r => Function.update a r.index (op (a r.index) (r.reduce op f))) a := by
    induction rs with
    | nil => exact fun _ _ => rfl
    | cons r rs ih =>
      obtain ⟨new, distinct⟩ := List.nodup_cons.mp distinct
      intro a same
      rw [List.foldl_cons, List.foldl_cons, same r (List.mem_cons_self ..)]
      refine ih distinct _ fun r' member => ?_
      rw [Function.update_of_ne fun eq : r'.index = r.index => new (eq ▸ List.mem_map_of_mem member)]
      exact same r' (List.mem_cons_of_mem _ member)
  exact kept arr fun _ _ => rfl

/-- What the runs of some rows add is what the rows add one by one. -/
theorem addRunsAt_eq [Std.Associative op] [Std.LawfulIdentity op e] (f : β → M) (xs : List β) (arr : ι → M) :
    addRunsAt op f (runs index xs) arr =
      pointwise op arr (tally (pointwise op) (fun _ => e) (fun x => single e (index x) (f x)) xs) := by
  have step : ∀ rs : List (Run ι β), ∀ a : ι → M,
      rs.foldl (fun a r => Function.update a r.index (op (a r.index) (r.reduce op f))) a =
        pointwise op a (tally (pointwise op) (fun _ => e) (fun r => single e r.index (r.reduce op f)) rs) := by
    intro rs a
    rw [← foldl_eq_op_tally (pointwise op) fun _ => e]
    exact List.foldl_ext _ _ _ fun a r _ => update_eq_single op e a r.index _
  have total : tally (pointwise op) (fun _ => e) (fun r => single e r.index (r.reduce op f)) (runs index xs) =
      tally (pointwise op) (fun _ => e) (fun x => single e (index x) (f x)) xs := by
    conv_rhs => rw [← runs_items index xs]
    refine tally_flatMap (pointwise op) (fun _ => e) fun r member => ?_
    rw [Run.reduce_eq op e]
    exact (tally_single op e (runs_index r member)).symm
  rw [addRunsAt, step, total]

theorem addRuns_eq [LinearOrder ι] [Std.Associative op] [Std.LawfulIdentity op e] {index : β → ι} (f : β → M)
    {xs : List β} (sorted : xs.Pairwise fun x y => index x ≤ index y) (arr : ι → M) :
    addRuns op f (runs index xs) arr =
      pointwise op arr (tally (pointwise op) (fun _ => e) (fun x => single e (index x) (f x)) xs) := by
  rw [addRuns_eq_addRunsAt op f ((runs_distinct sorted).imp ne_of_lt), addRunsAt_eq op e]

end Tally
