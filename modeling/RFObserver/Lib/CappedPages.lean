import Mathlib.Data.List.Perm.Basic
import Mathlib.Data.List.Sort
import Mathlib.Tactic

/-! Pages over several sources, newest first, with the last key of a full page as
the bound of the next one. Each source cuts its answer to the limit of a page
before the rows are chosen. -/

/-- Pages read until one names no next, at most `n` of them. -/
def follow {α β : Type*} (ask : β → Option (List α × Option β)) : Nat → β → Option (List α)
  | 0, _ => none
  | n + 1, b =>
    match ask b with
    | none => none
    | some (rows, none) => some rows
    | some (rows, some b') => (follow ask n b').map (rows ++ ·)

/-- Two ways to ask that give the same rows and name related next pages. -/
theorem follow_congr {α β γ : Type*} {R : β → γ → Prop} {ask : β → Option (List α × Option β)}
    {ask' : γ → Option (List α × Option γ)}
    (same : ∀ b c, R b c → ∃ rows next next', ask b = some (rows, next) ∧ ask' c = some (rows, next') ∧
      Option.Rel R next next')
    (n : Nat) {b : β} {c : γ} (related : R b c) : follow ask n b = follow ask' n c := by
  induction n generalizing b c with
  | zero => rfl
  | succ n ih =>
    obtain ⟨rows, next, next', asked, asked', nexts⟩ := same b c related
    cases nexts with
    | none => simp only [follow, asked, asked']
    | some related' => simp only [follow, asked, asked', ih related']

namespace CappedPages

section Sorting

variable {α κ : Type*} [LinearOrder κ] {key : α → κ} {l m : List α} {n : Nat} {a : α}

def newest (key : α → κ) (rows : List α) : List α := rows.insertionSort fun a b => key b ≤ key a

def Descends (key : α → κ) (rows : List α) : Prop := rows.Pairwise fun a b => key b ≤ key a

def below (key : α → κ) (bound : κ) (rows : List α) : List α := rows.filter fun a => key a < bound

theorem newest_perm (key : α → κ) (rows : List α) : (newest key rows).Perm rows := List.perm_insertionSort _ rows

theorem newest_descends (key : α → κ) (rows : List α) : Descends key (newest key rows) := by
  have total : Std.Total fun a b : α => key b ≤ key a := ⟨fun a b => le_total (key b) (key a)⟩
  have trans : IsTrans α fun a b => key b ≤ key a := ⟨fun _ _ _ le le' => le'.trans le⟩
  exact List.pairwise_insertionSort _ rows

theorem mem_below {bound : κ} : a ∈ below key bound l ↔ a ∈ l ∧ key a < bound := by
  rw [below, List.mem_filter, decide_eq_true_iff]

theorem newest_congr {key' : α → κ} (same : ∀ a ∈ l, key a = key' a) : newest key l = newest key' l := by
  induction l with
  | nil => rfl
  | cons a l ih =>
    have tail := ih fun b member => same b (List.mem_cons_of_mem _ member)
    have insert : ∀ m : List α, (∀ b ∈ m, key b = key' b) →
        m.orderedInsert (fun a b => key b ≤ key a) a = m.orderedInsert (fun a b => key' b ≤ key' a) a := by
      intro m alike
      induction m with
      | nil => rfl
      | cons b m ihm =>
        rw [List.orderedInsert, List.orderedInsert, same a List.mem_cons_self, alike b List.mem_cons_self,
          ihm fun c member => alike c (List.mem_cons_of_mem _ member)]
    have first := insert (newest key l) fun b member =>
      same b (List.mem_cons_of_mem _ ((newest_perm key l).subset member))
    rw [newest, List.insertionSort, newest, List.insertionSort]
    exact first.trans (congrArg _ tail)

/-- Two descending lists of the same rows have the same keys. -/
theorem Descends.keys_eq (descends : Descends key l) (descends' : Descends key m) (perm : l.Perm m) :
    l.map key = m.map key := by
  have keys : (l.map key).Pairwise fun x y => y ≤ x := List.pairwise_map.mpr descends
  have keys' : (m.map key).Pairwise fun x y => y ≤ x := List.pairwise_map.mpr descends'
  exact List.Perm.eq_of_pairwise (fun x y _ _ le le' => le_antisymm le' le) keys keys' (perm.map key)

theorem Descends.le_of_mem_drop (descends : Descends key l) (at_ : l[n]? = some a) {b : α} (later : b ∈ l.drop n) :
    key b ≤ key a := by
  obtain ⟨bound, rfl⟩ := List.getElem?_eq_some_iff.mp at_
  rw [List.drop_eq_getElem_cons bound] at later
  rcases List.mem_cons.mp later with rfl | after
  · exact le_rfl
  · have tail := descends.sublist (List.drop_sublist n l)
    rw [List.drop_eq_getElem_cons bound] at tail
    exact (List.pairwise_cons.mp tail).1 b after

theorem Descends.le_of_mem_take (descends : Descends key l) (at_ : l[n]? = some a) {b : α} (earlier : b ∈ l.take (n + 1)) :
    key a ≤ key b := by
  obtain ⟨bound, rfl⟩ := List.getElem?_eq_some_iff.mp at_
  rw [← List.take_append_getElem bound] at earlier
  rcases List.mem_append.mp earlier with before | self
  · have parts := descends
    rw [← List.take_append_drop n l, Descends, List.pairwise_append] at parts
    refine parts.2.2 b before _ ?_
    rw [List.drop_eq_getElem_cons bound]
    exact List.mem_cons_self
  · rw [List.mem_singleton.mp self]

/-- The rows from a key up are the first ones. -/
theorem Descends.filter_eq_take (descends : Descends key l) (c : κ) :
    l.filter (fun b => c ≤ key b) = l.take (l.filter fun b => c ≤ key b).length := by
  induction l with
  | nil => rfl
  | cons x l ih =>
    obtain ⟨first, rest⟩ := List.pairwise_cons.mp descends
    by_cases up : c ≤ key x
    · have kept : (x :: l).filter (fun b => c ≤ key b) = x :: l.filter fun b => c ≤ key b :=
        List.filter_cons_of_pos (decide_eq_true up)
      rw [kept, List.length_cons, List.take_succ_cons, ← ih rest]
    · have none : (x :: l).filter (fun b => c ≤ key b) = [] := by
        rw [List.filter_eq_nil_iff]
        intro b member above
        rcases List.mem_cons.mp member with rfl | later
        · exact up (of_decide_eq_true above)
        · exact up ((of_decide_eq_true above).trans (first b later))
      rw [none, List.length_nil, List.take_zero]

/-- With a gap after row `n`, the rows up to it are those with no smaller key. -/
theorem Descends.filter_gap (descends : Descends key l) (at_ : l[n]? = some a)
    (gap : ∀ b ∈ l[n + 1]?, key b < key a) :
    l.filter (fun b => key a ≤ key b) = l.take (n + 1) ∧ below key (key a) l = l.drop (n + 1) := by
  have head : ∀ b ∈ l.take (n + 1), key a ≤ key b := fun b earlier => descends.le_of_mem_take at_ earlier
  have tail : ∀ b ∈ l.drop (n + 1), key b < key a := by
    intro b later
    have isSome : n + 1 < l.length := by
      by_contra short
      rw [List.drop_eq_nil_of_le (by omega)] at later
      exact List.not_mem_nil later
    have next : l[n + 1]? = some l[n + 1] := List.getElem?_eq_getElem isSome
    exact (descends.le_of_mem_drop next later).trans_lt (gap _ next)
  have split := List.take_append_drop (n + 1) l
  constructor
  · conv_lhs => rw [← split, List.filter_append]
    rw [List.filter_eq_self.mpr fun b member => decide_eq_true (head b member), List.filter_eq_nil_iff.mpr, List.append_nil]
    intro b member up
    exact absurd (tail b member) (not_lt.mpr (of_decide_eq_true up))
  · conv_lhs => rw [below, ← split, List.filter_append]
    rw [List.filter_eq_self.mpr fun b member => decide_eq_true (tail b member), List.filter_eq_nil_iff.mpr, List.nil_append]
    intro b member down
    exact absurd (of_decide_eq_true down) (not_lt.mpr (head b member))

end Sorting

/-- What is paged through. -/
structure Feed (α : Type*) where
  sources : List (List α)
  wanted : α → Bool
  limit : Nat

namespace Feed

variable {α κ : Type*} [LinearOrder κ] (key : α → κ) (feed : Feed α) (bound : κ)

/-- The rows that the sources answer with. -/
def answered : List α := feed.sources.flatMap fun rows => ((below key bound rows).take feed.limit).filter feed.wanted

/-- The rows that the sources leave out of their answers. -/
def withheld : List α := feed.sources.flatMap fun rows => ((below key bound rows).drop feed.limit).filter feed.wanted

def rows : List α := (newest key (feed.answered key bound)).take feed.limit

def page : Option (List α × Option κ) :=
  some (feed.rows key bound,
    if feed.limit ≤ (feed.rows key bound).length then (feed.rows key bound).getLast?.map key else none)

/-- Every wanted row under a bound. -/
def left : List α := below key bound (newest key (feed.sources.flatMap fun rows => rows.filter feed.wanted))

/-- The pages from a bound on show every row once, newest first. -/
def Exact : Prop := ∃ n rows, follow (feed.page key) n bound = some rows ∧ rows.Perm (feed.left key bound) ∧ Descends key rows

/-- No row beyond the page shares the time of its last one, and every row that
a source leaves out is older. -/
def Clear : Prop :=
  (∀ a ∈ (feed.left key bound)[feed.limit - 1]?, ∀ b ∈ (feed.left key bound)[feed.limit]?, key b < key a) ∧
    ∀ r ∈ feed.withheld key bound, ∃ a ∈ (feed.left key bound)[feed.limit - 1]?, key r < key a

/-- The first bound and the times of the last rows of full pages. -/
def Starts (b : κ) : Prop :=
  b = bound ∨ ∃ k, ∃ a ∈ (feed.left key bound)[(k + 1) * feed.limit - 1]?, b = key a

def Fits : Prop := ∀ b, feed.Starts key bound b → feed.Clear key b

variable {key feed bound}

theorem left_descends : Descends key (feed.left key bound) := (newest_descends key _).filter _

theorem lt_of_mem_left {a : α} (member : a ∈ feed.left key bound) : key a < bound := (mem_below.mp member).2

variable (key feed bound) in
/-- Every row is answered or left out. -/
theorem answered_withheld_perm : (feed.answered key bound ++ feed.withheld key bound).Perm (feed.left key bound) := by
  have parts : ∀ rows : List α, ((below key bound rows).take feed.limit).filter feed.wanted ++
      ((below key bound rows).drop feed.limit).filter feed.wanted = below key bound (rows.filter feed.wanted) := by
    intro rows
    rw [← List.filter_append, List.take_append_drop, below, below, List.filter_comm]
  refine (List.flatMap_append_perm _ _ _).trans ?_
  simp only [parts]
  have joined : (feed.sources.flatMap fun rows => below key bound (rows.filter feed.wanted)) =
      below key bound (feed.sources.flatMap fun rows => rows.filter feed.wanted) := by
    rw [below, List.filter_flatMap]
    rfl
  rw [joined]
  exact ((newest_perm key _).filter _).symm

theorem rows_descends : Descends key (feed.rows key bound) :=
  (newest_descends key _).sublist (List.take_sublist _ _)

theorem mem_rows {a : α} (member : a ∈ feed.rows key bound) : a ∈ feed.left key bound :=
  (answered_withheld_perm key feed bound).subset (List.mem_append_left _ ((newest_perm key _).subset (List.mem_of_mem_take member)))

/-- A full page names its last row's key. -/
theorem page_next {c : κ} {shown : List α} (asked : feed.page key bound = some (shown, some c)) :
    shown = feed.rows key bound ∧ shown.length = feed.limit ∧ ∃ a, shown[feed.limit - 1]? = some a ∧ key a = c := by
  obtain ⟨rfl, next⟩ := Prod.mk.inj (Option.some.inj asked)
  obtain ⟨full, last⟩ := Option.ite_none_right_eq_some.mp next
  have length : (feed.rows key bound).length = feed.limit := le_antisymm (List.length_take_le _ _) full
  obtain ⟨a, isLast, isKey⟩ := Option.map_eq_some_iff.mp last
  rw [List.getLast?_eq_getElem?, length] at isLast
  exact ⟨rfl, length, a, isLast, isKey⟩

/-- What is shown from a bound on is under the bound. -/
theorem follow_below {n : Nat} {bound : κ} {shown : List α}
    (goes : follow (feed.page key) n bound = some shown) : ∀ a ∈ shown, key a < bound := by
  induction n generalizing bound shown with
  | zero => nomatch goes
  | succ n ih =>
    intro a member
    unfold follow at goes
    split at goes
    case h_1 asked => nomatch goes
    case h_2 rows asked =>
      cases goes
      obtain ⟨rfl, -⟩ := Prod.mk.inj (Option.some.inj asked)
      exact lt_of_mem_left (mem_rows member)
    case h_3 rows c asked =>
      obtain ⟨rest, later, rfl⟩ := Option.map_eq_some_iff.mp goes
      obtain ⟨rfl, -, b, atLast, rfl⟩ := page_next asked
      rcases List.mem_append.mp member with first | after
      · exact lt_of_mem_left (mem_rows first)
      · exact (ih later a after).trans (lt_of_mem_left (mem_rows (List.mem_of_getElem? atLast)))

theorem left_left {c : κ} (under : c ≤ bound) : feed.left key c = below key c (feed.left key bound) := by
  rw [left, left, below, below, below, List.filter_filter]
  refine List.filter_congr fun b _ => ?_
  rw [Bool.eq_iff_iff, Bool.and_eq_true, decide_eq_true_iff, decide_eq_true_iff]
  exact ⟨fun lt => ⟨lt, lt.trans_le under⟩, fun both => both.1⟩

theorem left_next (room : 0 < feed.limit) {a : α} (at_ : (feed.left key bound)[feed.limit - 1]? = some a)
    (gap : ∀ b ∈ (feed.left key bound)[feed.limit]?, key b < key a) :
    feed.left key (key a) = (feed.left key bound).drop feed.limit := by
  have index : feed.limit - 1 + 1 = feed.limit := by omega
  have under := lt_of_mem_left (List.mem_of_getElem? at_)
  have parts := (left_descends.filter_gap at_ (by rwa [index])).2
  rw [index] at parts
  rw [← parts, left_left under.le]

theorem left_up (room : 0 < feed.limit) {a : α} (at_ : (feed.left key bound)[feed.limit - 1]? = some a)
    (gap : ∀ b ∈ (feed.left key bound)[feed.limit]?, key b < key a) :
    (feed.left key bound).filter (fun b => key a ≤ key b) = (feed.left key bound).take feed.limit := by
  have index : feed.limit - 1 + 1 = feed.limit := by omega
  have parts := (left_descends.filter_gap at_ (by rwa [index])).1
  rwa [index] at parts

/-- A page that nothing is left out of has the newest rows left. -/
theorem Clear.rows_perm (room : 0 < feed.limit) (clear : feed.Clear key bound) :
    (feed.rows key bound).Perm ((feed.left key bound).take feed.limit) := by
  obtain ⟨gap, older⟩ := clear
  have parts := answered_withheld_perm key feed bound
  cases at_ : (feed.left key bound)[feed.limit - 1]? with
  | none =>
    have short := List.getElem?_eq_none_iff.mp at_
    have nothing : feed.withheld key bound = [] := by
      rw [List.eq_nil_iff_forall_not_mem]
      intro r member
      obtain ⟨a, isAt, -⟩ := older r member
      rw [at_] at isAt
      nomatch isAt
    rw [nothing, List.append_nil] at parts
    have length := parts.length_eq
    rw [rows, List.take_of_length_le (by rw [(newest_perm key _).length_eq]; omega), List.take_of_length_le (by omega)]
    exact (newest_perm key _).trans parts
  | some a =>
    have up := left_up room at_ (gap a at_)
    have nothing : (feed.withheld key bound).filter (fun b => key a ≤ key b) = [] := by
      rw [List.filter_eq_nil_iff]
      intro r member above
      obtain ⟨a', isAt, lt⟩ := older r member
      cases Option.some.inj (at_.symm.trans isAt)
      exact absurd (of_decide_eq_true above) (not_le.mpr lt)
    have kept := parts.filter fun b => key a ≤ key b
    rw [List.filter_append, nothing, List.append_nil, up] at kept
    have chosen := ((newest_perm key (feed.answered key bound)).filter fun b => key a ≤ key b).trans kept
    have bounded := (List.getElem?_eq_some_iff.mp at_).1
    have length : ((newest key (feed.answered key bound)).filter fun b => key a ≤ key b).length = feed.limit := by
      rw [chosen.length_eq, List.length_take]
      omega
    rwa [(newest_descends key _).filter_eq_take (key a), length] at chosen

theorem exact_of_clear (room : 0 < feed.limit) (clear : feed.Clear key bound)
    (later : ∀ a ∈ (feed.left key bound)[feed.limit - 1]?, feed.Exact key (key a)) : feed.Exact key bound := by
  have perm := clear.rows_perm room
  have length := perm.length_eq
  rw [List.length_take] at length
  cases at_ : (feed.left key bound)[feed.limit - 1]? with
  | none =>
    have short := List.getElem?_eq_none_iff.mp at_
    have last : feed.page key bound = some (feed.rows key bound, none) := by
      rw [page, if_neg (by omega)]
    refine ⟨1, feed.rows key bound, by simp only [follow, last], ?_, rows_descends⟩
    rwa [List.take_of_length_le (by omega)] at perm
  | some a =>
    have bounded := (List.getElem?_eq_some_iff.mp at_).1
    obtain ⟨n, rest, goes, restPerm, restDescends⟩ := later a at_
    rw [left_next room at_ (clear.1 a at_)] at restPerm
    have keys := rows_descends.keys_eq (left_descends.sublist (List.take_sublist _ _)) perm
    have last : (feed.rows key bound).getLast?.map key = some (key a) := by
      have shown := congrArg (·[feed.limit - 1]?) keys
      simp only [List.getElem?_map] at shown
      rw [List.getLast?_eq_getElem?, length, min_eq_left (by omega), shown, List.getElem?_take_of_lt (by omega), at_]
      rfl
    have full : feed.page key bound = some (feed.rows key bound, some (key a)) := by
      rw [page, if_pos (by omega), last]
    refine ⟨n + 1, feed.rows key bound ++ rest, ?_, ?_, ?_⟩
    · simp only [follow, full, goes, Option.map_some]
    · have whole := perm.append restPerm
      rwa [List.take_append_drop] at whole
    · refine List.pairwise_append.mpr ⟨rows_descends, restDescends, fun x inPage y inRest => ?_⟩
      have index : feed.limit - 1 + 1 = feed.limit := by omega
      have above := left_descends.le_of_mem_take at_ (by rw [index]; exact perm.subset inPage)
      exact (follow_below goes y inRest).le.trans above

theorem clear_of_exact (room : 0 < feed.limit) (exact : feed.Exact key bound) :
    feed.Clear key bound ∧ ∀ a ∈ (feed.left key bound)[feed.limit - 1]?, feed.Exact key (key a) := by
  obtain ⟨n, shown, goes, perm, descends⟩ := exact
  have parts := answered_withheld_perm key feed bound
  cases n with
  | zero => nomatch goes
  | succ n =>
    unfold follow at goes
    split at goes
    case h_1 => nomatch goes
    case h_2 rows asked =>
      cases goes
      obtain ⟨rfl, next⟩ := Prod.mk.inj (Option.some.inj asked)
      have short : (feed.rows key bound).length < feed.limit := by
        by_contra full
        rw [if_pos (not_lt.mp full)] at next
        have empty := List.getLast?_eq_none_iff.mp (Option.map_eq_none_iff.mp next)
        rw [empty, List.length_nil] at full
        omega
      have all : (feed.rows key bound).length = (feed.answered key bound).length := by
        rw [rows, List.length_take, (newest_perm key _).length_eq] at short ⊢
        omega
      have lengths := parts.length_eq
      rw [List.length_append] at lengths
      have same := perm.length_eq
      have nothing : feed.withheld key bound = [] := List.length_eq_zero_iff.mp (by omega)
      have none : (feed.left key bound)[feed.limit - 1]? = none := List.getElem?_eq_none (by omega)
      refine ⟨⟨fun a isAt => ?_, fun r member => ?_⟩, fun a isAt => ?_⟩
      · exact absurd (none.symm.trans isAt) nofun
      · rw [nothing] at member
        exact absurd member List.not_mem_nil
      · exact absurd (none.symm.trans isAt) nofun
    case h_3 rows c asked =>
      obtain ⟨rest, later, rfl⟩ := Option.map_eq_some_iff.mp goes
      obtain ⟨rfl, length, x, atLast, rfl⟩ := page_next asked
      have under := follow_below later
      have keys := descends.keys_eq left_descends perm
      have keyAt : ∀ i : Nat, ((feed.rows key bound ++ rest)[i]?).map key = ((feed.left key bound)[i]?).map key := by
        intro i
        rw [← List.getElem?_map, ← List.getElem?_map, keys]
      have lastKey : ∀ a ∈ (feed.left key bound)[feed.limit - 1]?, key a = key x := by
        intro a isAt
        have here := keyAt (feed.limit - 1)
        rw [List.getElem?_append_left (by omega), atLast, isAt] at here
        exact (Option.some.inj here).symm
      have gap : ∀ b ∈ (feed.left key bound)[feed.limit]?, key b < key x := by
        intro b isAt
        have here := keyAt feed.limit
        rw [List.getElem?_append_right (by omega), isAt] at here
        obtain ⟨y, isNext, same⟩ := Option.map_eq_some_iff.mp here
        rw [← same]
        exact under y (List.mem_of_getElem? isNext)
      have longer := perm.length_eq
      rw [List.length_append] at longer
      have at_ : (feed.left key bound)[feed.limit - 1]? = some (feed.left key bound)[feed.limit - 1] :=
        List.getElem?_eq_getElem (by omega)
      have same := lastKey _ at_
      have gap' : ∀ b ∈ (feed.left key bound)[feed.limit]?, key b < key (feed.left key bound)[feed.limit - 1] := by
        rwa [same]
      have pageUp : ∀ b ∈ feed.rows key bound, key x ≤ key b := by
        intro b member
        refine rows_descends.le_of_mem_take atLast ?_
        rwa [List.take_of_length_le (by omega)]
      have older : ∀ r ∈ feed.withheld key bound, key r < key x := by
        intro r member
        by_contra up
        have kept := parts.filter fun b => key x ≤ key b
        have counted := kept.length_eq
        have top := left_up room at_ gap'
        rw [same] at top
        rw [List.filter_append, List.length_append, top, List.length_take, min_eq_left (by omega)] at counted
        have inPage : feed.limit ≤ ((feed.answered key bound).filter fun b => key x ≤ key b).length := by
          have sub := ((List.take_sublist feed.limit (newest key (feed.answered key bound))).filter
            fun b => key x ≤ key b).length_le
          rw [((newest_perm key _).filter _).length_eq] at sub
          have whole : (feed.rows key bound).filter (fun b => key x ≤ key b) = feed.rows key bound :=
            List.filter_eq_self.mpr fun b inRows => decide_eq_true (pageUp b inRows)
          have shown : ((feed.rows key bound).filter fun b => key x ≤ key b).length = feed.limit := by rw [whole, length]
          exact shown.symm.le.trans sub
        have one : 0 < ((feed.withheld key bound).filter fun b => key x ≤ key b).length :=
          List.length_pos_of_mem (List.mem_filter.mpr ⟨member, decide_eq_true (not_lt.mp up)⟩)
        omega
      refine ⟨⟨fun a isAt => ?_, fun r member => ?_⟩, fun a isAt => ?_⟩
      · rw [lastKey a isAt]
        exact gap
      · exact ⟨_, at_, same ▸ older r member⟩
      · rw [lastKey a isAt]
        have rest_ : below key (key x) (feed.rows key bound ++ rest) = rest := by
          rw [below, List.filter_append, List.filter_eq_self.mpr fun b member => decide_eq_true (under b member),
            List.filter_eq_nil_iff.mpr, List.nil_append]
          intro b member down
          exact absurd (of_decide_eq_true down) (not_lt.mpr (pageUp b member))
        refine ⟨n, rest, later, ?_, descends.sublist (List.sublist_append_right _ _)⟩
        rw [← rest_, left_left (lt_of_mem_left (mem_rows (List.mem_of_getElem? atLast))).le]
        exact perm.filter _

/-- The rows of the pages after the first. -/
theorem Clear.left_shift (room : 0 < feed.limit) (clear : feed.Clear key bound) {a : α}
    (at_ : (feed.left key bound)[feed.limit - 1]? = some a) (k : Nat) :
    (feed.left key (key a))[(k + 1) * feed.limit - 1]? = (feed.left key bound)[(k + 1 + 1) * feed.limit - 1]? ∧
      (feed.left key (key a))[(k + 1) * feed.limit]? = (feed.left key bound)[(k + 1 + 1) * feed.limit]? := by
  have positive := Nat.le_mul_of_pos_left feed.limit (show 0 < k + 1 by omega)
  have next : (k + 1 + 1) * feed.limit = (k + 1) * feed.limit + feed.limit := Nat.succ_mul (k + 1) feed.limit
  rw [left_next room at_ (clear.1 a at_), List.getElem?_drop, List.getElem?_drop]
  constructor
  · congr 1
    omega
  · congr 1
    omega

/-- While a row of a later page is left, the page before it is full. -/
theorem getElem?_page {k : Nat} {a : α} (isAt : (feed.left key bound)[(k + 1 + 1) * feed.limit - 1]? = some a) :
    ∃ b, (feed.left key bound)[feed.limit - 1]? = some b := by
  have bounded := (List.getElem?_eq_some_iff.mp isAt).1
  have positive := Nat.le_mul_of_pos_left feed.limit (show 0 < k + 1 + 1 by omega)
  exact ⟨_, List.getElem?_eq_getElem (by omega)⟩

/-- The bounds after the first are those of the pages after the first. -/
theorem Clear.starts_iff (room : 0 < feed.limit) (clear : feed.Clear key bound) (b : κ) :
    feed.Starts key bound b ↔
      b = bound ∨ ∃ a ∈ (feed.left key bound)[feed.limit - 1]?, feed.Starts key (key a) b := by
  constructor
  · rintro (rfl | ⟨k, a, isAt, rfl⟩)
    · exact Or.inl rfl
    · refine Or.inr ?_
      cases k with
      | zero =>
        rw [zero_add, one_mul] at isAt
        exact ⟨a, isAt, Or.inl rfl⟩
      | succ k =>
        obtain ⟨b, at_⟩ := getElem?_page isAt
        exact ⟨b, at_, Or.inr ⟨k, a, (clear.left_shift room at_ k).1.trans isAt, rfl⟩⟩
  · rintro (rfl | ⟨a, isAt, rfl | ⟨k, c, isAt', rfl⟩⟩)
    · exact Or.inl rfl
    · exact Or.inr ⟨0, a, by rwa [zero_add, one_mul], rfl⟩
    · exact Or.inr ⟨k + 1, c, (clear.left_shift room isAt k).1.symm.trans isAt', rfl⟩

theorem Clear.shorter (room : 0 < feed.limit) (clear : feed.Clear key bound) {a : α}
    (isAt : a ∈ (feed.left key bound)[feed.limit - 1]?) : (feed.left key (key a)).length < (feed.left key bound).length := by
  have bounded := (List.getElem?_eq_some_iff.mp isAt).1
  rw [left_next room isAt (clear.1 a isAt), List.length_drop]
  omega

/-- When paging shows every wanted row once, newest first. -/
theorem exact_iff_fits (room : 0 < feed.limit) : feed.Exact key bound ↔ feed.Fits key bound := by
  induction length : (feed.left key bound).length using Nat.strong_induction_on generalizing bound with
  | _ size ih =>
    have next : feed.Clear key bound → ∀ a ∈ (feed.left key bound)[feed.limit - 1]?,
        (feed.Exact key (key a) ↔ feed.Fits key (key a)) := fun clear a isAt => ih _ (length ▸ clear.shorter room isAt) rfl
    constructor
    · intro exact b starts
      obtain ⟨clear, later⟩ := clear_of_exact room exact
      rcases (clear.starts_iff room b).mp starts with rfl | ⟨a, isAt, starts'⟩
      · exact clear
      · exact (next clear a isAt).mp (later a isAt) b starts'
    · intro fits
      have clear := fits bound (Or.inl rfl)
      refine exact_of_clear room clear fun a isAt => (next clear a isAt).mpr fun b starts => ?_
      exact fits b ((clear.starts_iff room b).mpr (Or.inr ⟨a, isAt, starts⟩))

/-- Paging ends. -/
theorem follow_ends : ∃ n shown, follow (feed.page key) n bound = some shown := by
  induction length : (feed.left key bound).length using Nat.strong_induction_on generalizing bound with
  | _ size ih =>
    cases asked : feed.page key bound with
    | none => nomatch asked
    | some answer =>
      obtain ⟨shown, _ | c⟩ := answer
      · exact ⟨1, shown, by simp only [follow, asked]⟩
      · obtain ⟨rfl, -, a, isAt, rfl⟩ := page_next asked
        have member := mem_rows (List.mem_of_getElem? isAt)
        have shorter : (feed.left key (key a)).length < size := by
          rw [left_left (lt_of_mem_left member).le, ← length]
          exact List.length_filter_lt_length_iff_exists.mpr ⟨a, member, by simp⟩
        obtain ⟨n, rest, goes⟩ := ih _ shorter rfl
        exact ⟨n + 1, feed.rows key bound ++ rest, by simp only [follow, asked, goes, Option.map_some]⟩

section Whole

/-- No two rows on the two sides of a full page share a key. -/
def Gaps (key : α → κ) (feed : Feed α) (bound : κ) : Prop :=
  ∀ k, ∀ a ∈ (feed.left key bound)[(k + 1) * feed.limit - 1]?, ∀ b ∈ (feed.left key bound)[(k + 1) * feed.limit]?,
    key b < key a

variable (ordered : ∀ rows ∈ feed.sources, Descends key rows)
  (all : ∀ rows ∈ feed.sources, ∀ a ∈ rows, feed.wanted a = true)
include ordered all

/-- Where every row of a source is wanted, what it leaves out is older than the page. -/
theorem clear_of_gap (room : 0 < feed.limit)
    (gap : ∀ a ∈ (feed.left key bound)[feed.limit - 1]?, ∀ b ∈ (feed.left key bound)[feed.limit]?, key b < key a) : feed.Clear key bound := by
  refine ⟨gap, fun r member => ?_⟩
  obtain ⟨rows, isSource, out⟩ := List.mem_flatMap.mp member
  have inDrop := List.mem_of_mem_filter out
  have wanted : ∀ b ∈ below key bound rows, feed.wanted b = true := fun b under => all rows isSource b (mem_below.mp under).1
  have sub : ((below key bound rows).take feed.limit ++ [r]).Subperm (feed.left key bound) := by
    refine List.Subperm.trans ?_ (answered_withheld_perm key feed bound).subperm
    have first : ((below key bound rows).take feed.limit).Sublist (feed.answered key bound) := by
      rw [← List.filter_eq_self.mpr fun b member => wanted b (List.mem_of_mem_take member)]
      exact List.sublist_flatten_of_mem (List.mem_map.mpr ⟨rows, isSource, rfl⟩)
    exact (first.append (List.singleton_sublist.mpr member)).subperm
  have long : feed.limit < (below key bound rows).length := by
    by_contra short
    rw [List.drop_eq_nil_of_le (by omega)] at inDrop
    exact List.not_mem_nil inDrop
  have count := sub.length_le
  rw [List.length_append, List.length_take, min_eq_left (by omega), List.length_singleton] at count
  have at_ : (feed.left key bound)[feed.limit - 1]? = some (feed.left key bound)[feed.limit - 1] :=
    List.getElem?_eq_getElem (by omega)
  refine ⟨_, at_, ?_⟩
  by_contra up
  have top := left_up room at_ (gap _ at_)
  have parts := List.pairwise_append.mp (show Descends key ((below key bound rows).take feed.limit ++
    (below key bound rows).drop feed.limit) by
      rw [List.take_append_drop]
      exact (ordered rows isSource).filter _)
  have above : ∀ b ∈ (below key bound rows).take feed.limit ++ [r], key (feed.left key bound)[feed.limit - 1] ≤ key b := by
    intro b member
    rcases List.mem_append.mp member with first | self
    · exact (not_lt.mp up).trans (parts.2.2 b first r inDrop)
    · rw [List.mem_singleton.mp self]
      exact not_lt.mp up
  have kept := (sub.filter fun b => key (feed.left key bound)[feed.limit - 1] ≤ key b).length_le
  rw [List.filter_eq_self.mpr fun b member => decide_eq_true (above b member), top, List.length_append, List.length_take,
    List.length_take, min_eq_left (by omega), List.length_singleton] at kept
  omega

theorem fits_iff_gaps (room : 0 < feed.limit) : feed.Fits key bound ↔ feed.Gaps key bound := by
  induction length : (feed.left key bound).length using Nat.strong_induction_on generalizing bound with
  | _ size ih =>
    have next : feed.Clear key bound → ∀ a ∈ (feed.left key bound)[feed.limit - 1]?,
        (feed.Fits key (key a) ↔ feed.Gaps key (key a)) := fun clear a isAt => ih _ (length ▸ clear.shorter room isAt) rfl
    constructor
    · intro fits k a isAt b isNext
      have clear := fits bound (Or.inl rfl)
      cases k with
      | zero =>
        rw [zero_add, one_mul] at isAt isNext
        exact clear.1 a isAt b isNext
      | succ k =>
        obtain ⟨c, at_⟩ := getElem?_page isAt
        have gaps := (next clear c at_).mp fun d starts =>
          fits d ((clear.starts_iff room d).mpr (Or.inr ⟨c, at_, starts⟩))
        have shift := clear.left_shift room at_ k
        exact gaps k a (shift.1.trans isAt) b (shift.2.trans isNext)
    · intro gaps b starts
      have clear : feed.Clear key bound := clear_of_gap ordered all room fun a isAt c isNext =>
        gaps 0 a (by rwa [zero_add, one_mul]) c (by rwa [zero_add, one_mul])
      rcases (clear.starts_iff room b).mp starts with rfl | ⟨a, isAt, starts'⟩
      · exact clear
      · refine (next clear a isAt).mpr (fun k c isAt' d isNext => ?_) b starts'
        have shift := clear.left_shift room isAt k
        exact gaps (k + 1) c (shift.1.symm.trans isAt') d (shift.2.symm.trans isNext)

end Whole

end Feed
end CappedPages
