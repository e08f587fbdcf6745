import Mathlib.Data.List.Perm.Subperm
import RFObserver.Lib.Keyset

/-! Scans that read a table a page at a time while rows come and go between the pages. -/

namespace Keyset

/-- A scan between two pages: the rows it has read, the key of the last one and
whether it is over. -/
structure Scan (α κ : Type*) where
  read : List α
  cursor : Option κ
  ended : Bool

namespace Scan

variable {α κ : Type*} {key : α → κ} {chunk : Nat} {ask : ℕ → Option κ → List α} {tables : ℕ → List α}

def first : Scan α κ := ⟨[], none, false⟩

/-- One more page; a page that is not full is the last. -/
def next (key : α → κ) (chunk : Nat) (ask : Option κ → List α) (s : Scan α κ) : Scan α κ :=
  if s.ended then s
  else
    { read := s.read ++ ask s.cursor
      cursor := (ask s.cursor).getLast?.map key
      ended := decide ((ask s.cursor).length < chunk) }

/-- The scan after `n` pages, the `k`-th answered by `ask k`. -/
def after (key : α → κ) (chunk : Nat) (ask : ℕ → Option κ → List α) : ℕ → Scan α κ
  | 0 => first
  | n + 1 => next key chunk (ask n) (after key chunk ask n)

theorem after_ended {n : ℕ} (ended : (after key chunk ask n).ended) :
    after key chunk ask (n + 1) = after key chunk ask n := if_pos ended

theorem after_next {n : ℕ} (going : (after key chunk ask n).ended = false) :
    after key chunk ask (n + 1) =
      { read := (after key chunk ask n).read ++ ask n (after key chunk ask n).cursor
        cursor := (ask n (after key chunk ask n).cursor).getLast?.map key
        ended := decide ((ask n (after key chunk ask n).cursor).length < chunk) } := by
  rw [after, next, if_neg (by rw [going]; exact Bool.false_ne_true)]

variable [LinearOrder κ]

/-- The scan has read rows of the tables in the order of their keys, up to its
cursor, and left out none that was there at every page. -/
structure Follows (key : α → κ) (tables : ℕ → List α) (n : ℕ) (s : Scan α κ) : Prop where
  ascends : s.read.Pairwise fun a b => key a < key b
  held : ∀ a ∈ s.read, ∃ k < n, a ∈ tables k
  upTo : s.ended = false → ∀ a ∈ s.read, ∃ c ∈ s.cursor, key a ≤ c
  known : s.ended = false → ∀ c ∈ s.cursor, ∃ a ∈ s.read, key a = c
  passed : s.ended = false → ∀ a, (∀ k < n, a ∈ tables k) → ∀ c ∈ s.cursor, key a ≤ c → a ∈ s.read
  whole : s.ended = true → ∀ a, (∀ k < n, a ∈ tables k) → a ∈ s.read

theorem Follows.first : Follows key tables 0 (Scan.first : Scan α κ) :=
  ⟨.nil, by simp [Scan.first], by simp [Scan.first], by simp [Scan.first], by simp [Scan.first], by simp [Scan.first]⟩

theorem Follows.ended_succ {n : ℕ} {s : Scan α κ} (follows : Follows key tables n s) (ended : s.ended = true) :
    Follows key tables (n + 1) s where
  ascends := follows.ascends
  held a member := by
    obtain ⟨k, lt, isIn⟩ := follows.held a member
    exact ⟨k, lt.trans n.lt_succ_self, isIn⟩
  upTo going := absurd ended (by rw [going]; exact Bool.false_ne_true)
  known going := absurd ended (by rw [going]; exact Bool.false_ne_true)
  passed going := absurd ended (by rw [going]; exact Bool.false_ne_true)
  whole _ a always := follows.whole ended a fun k lt => always k (lt.trans n.lt_succ_self)

/-- What is read after the cursor follows on what was read up to it. -/
theorem Follows.read_page {n : ℕ} {s : Scan α κ} (follows : Follows key tables n s) (going : s.ended = false)
    (distinct : ((tables n).map key).Nodup) :
    (s.read ++ page key chunk s.cursor (tables n)).Pairwise fun a b => key a < key b := by
  refine List.pairwise_append.mpr ⟨follows.ascends, ?_, fun a old b new => ?_⟩
  · exact (sorted_lt (map_filter_nodup _ distinct)).sublist (List.take_sublist _ _)
  · obtain ⟨c, isCursor, le⟩ := follows.upTo going a old
    exact le.trans_lt ((mem_page new).2 c isCursor)

/-- A row that was there at every page is read, or is after the cursor. -/
theorem Follows.ahead {n : ℕ} {s : Scan α κ} (follows : Follows key tables n s) (going : s.ended = false) {a : α}
    (always : ∀ k < n, a ∈ tables k) (unread : a ∉ s.read) : ∀ c ∈ s.cursor, c < key a := by
  intro c isCursor
  by_contra le
  exact unread (follows.passed going a always c isCursor (not_lt.mp le))

theorem Follows.page_succ {n : ℕ} {s : Scan α κ} (follows : Follows key tables n s) (going : s.ended = false)
    (room : 0 < chunk) (distinct : ((tables n).map key).Nodup) {rows : List α}
    (asked : rows = page key chunk s.cursor (tables n)) :
    Follows key tables (n + 1)
      { read := s.read ++ rows, cursor := rows.getLast?.map key, ended := decide (rows.length < chunk) } := by
  have ascends : (s.read ++ page key chunk s.cursor (tables n)).Pairwise fun a b => key a < key b :=
    follows.read_page going distinct
  rw [← asked] at ascends
  have before {a : α} (always : ∀ k < n + 1, a ∈ tables k) : ∀ k < n, a ∈ tables k :=
    fun k lt => always k (lt.trans n.lt_succ_self)
  refine ⟨ascends, fun a member => ?_, fun full a member => ?_, fun _ c isLast => ?_, fun _ a always c isLast le => ?_,
    fun short a always => ?_⟩
  · rcases List.mem_append.mp member with old | new
    · obtain ⟨k, lt, isIn⟩ := follows.held a old
      exact ⟨k, lt.trans n.lt_succ_self, isIn⟩
    · rw [asked] at new
      exact ⟨n, n.lt_succ_self, (mem_page new).1⟩
  · have some_ : rows ≠ [] := by
      rintro rfl
      exact absurd (of_decide_eq_false full) (not_not.mpr room)
    obtain ⟨front, last, rfl⟩ := List.eq_nil_or_concat' rows |>.resolve_left some_
    refine ⟨key last, by simp, ?_⟩
    rw [← List.append_assoc, List.pairwise_append] at ascends
    rw [← List.append_assoc, List.mem_append, List.mem_singleton] at member
    rcases member with earlier | rfl
    · exact (ascends.2.2 a earlier last (List.mem_singleton_self last)).le
    · exact le_rfl
  · obtain ⟨last, final, rfl⟩ := Option.map_eq_some_iff.mp isLast
    exact ⟨last, List.mem_append_right _ (List.mem_of_getLast? final), rfl⟩
  · obtain ⟨last, final, rfl⟩ := Option.map_eq_some_iff.mp isLast
    by_contra unread
    obtain ⟨notOld, notNew⟩ := not_or.mp (mt List.mem_append.mpr unread)
    have above := follows.ahead going (before always) notOld
    rw [asked] at notNew final
    exact notNew (mem_page_of_le distinct (always n n.lt_succ_self) above (List.mem_of_getLast? final) le)
  · by_contra unread
    obtain ⟨notOld, notNew⟩ := not_or.mp (mt List.mem_append.mpr unread)
    have above := follows.ahead going (before always) notOld
    rw [asked] at notNew short
    exact notNew (mem_page_of_short (always n n.lt_succ_self) above (of_decide_eq_true short))

/-- The pages after the first are asked for after the key of a row. -/
def Answers (key : α → κ) (chunk : Nat) (tables : ℕ → List α) (ask : ℕ → Option κ → List α) : Prop :=
  ∀ n cursor, (∀ c ∈ cursor, ∃ k < n, ∃ a ∈ tables k, key a = c) → ask n cursor = page key chunk cursor (tables n)

theorem Follows.asked {n : ℕ} {s : Scan α κ} (follows : Follows key tables n s) (going : s.ended = false)
    (answers : Answers key chunk tables ask) : ask n s.cursor = page key chunk s.cursor (tables n) := by
  refine answers n s.cursor fun c isCursor => ?_
  obtain ⟨a, read, same⟩ := follows.known going c isCursor
  obtain ⟨k, lt, isIn⟩ := follows.held a read
  exact ⟨k, lt, a, isIn, same⟩

theorem after_follows (room : 0 < chunk) (distinct : ∀ n, ((tables n).map key).Nodup)
    (answers : Answers key chunk tables ask) (n : ℕ) : Follows key tables n (after key chunk ask n) := by
  induction n with
  | zero => exact .first
  | succ n ih =>
    by_cases ended : (after key chunk ask n).ended = true
    · rw [after_ended ended]
      exact ih.ended_succ ended
    · have going := Bool.eq_false_iff.mpr ended
      rw [after_next going]
      exact ih.page_succ going room (distinct n) (ih.asked going answers)

/-- The rows that the cursor has not passed. -/
def pending (key : α → κ) (cursor : Option κ) (rows : List α) : List α := rows.filter fun a => ∀ c ∈ cursor, c < key a

/-- While the scan goes on, no row comes in ahead of its cursor. -/
def NoneAhead (key : α → κ) (tables : ℕ → List α) (scan : ℕ → Scan α κ) : Prop :=
  ∀ n, (scan (n + 1)).ended = false → ∀ a ∈ pending key (scan (n + 1)).cursor (tables (n + 1)), a ∈ tables n

/-- A full page leaves fewer rows ahead of the cursor. -/
theorem pending_decreases (room : 0 < chunk) (distinct : ∀ n, ((tables n).map key).Nodup)
    (answers : Answers key chunk tables ask) (none : NoneAhead key tables (after key chunk ask)) {n : ℕ}
    (going : (after key chunk ask n).ended = false) (goesOn : (after key chunk ask (n + 1)).ended = false) :
    (pending key (after key chunk ask (n + 1)).cursor (tables (n + 1))).length <
      (pending key (after key chunk ask n).cursor (tables n)).length := by
  have now := after_follows room distinct answers n
  have later := after_follows room distinct answers (n + 1)
  have asked := now.asked going answers
  have step := after_next going
  rw [asked] at step
  rcases split : page key chunk (after key chunk ask n).cursor (tables n) with _ | ⟨row, rows⟩
  · rw [step, split] at goesOn
    exact absurd (of_decide_eq_false goesOn) (not_not.mpr room)
  have first : row ∈ page key chunk (after key chunk ask n).cursor (tables n) := by
    rw [split]
    exact List.mem_cons_self
  have read : row ∈ (after key chunk ask (n + 1)).read := by
    rw [step]
    exact List.mem_append_right _ first
  obtain ⟨c, isCursor, le⟩ := later.upTo goesOn row read
  have nodup : (row :: pending key (after key chunk ask (n + 1)).cursor (tables (n + 1))).Nodup := by
    refine List.nodup_cons.mpr ⟨fun member => ?_, (List.Nodup.of_map key (distinct (n + 1))).filter _⟩
    exact absurd (of_decide_eq_true (List.mem_filter.mp member).2 c isCursor) le.not_gt
  refine (List.subperm_of_subset nodup fun a member => ?_).length_le
  rcases List.mem_cons.mp member with rfl | still
  · exact List.mem_filter.mpr ⟨(mem_page first).1, decide_eq_true (mem_page first).2⟩
  · refine List.mem_filter.mpr ⟨none n goesOn a still, decide_eq_true fun d isOld => ?_⟩
    exact ((mem_page first).2 d isOld).trans_le (le.trans
      (of_decide_eq_true (List.mem_filter.mp still).2 c isCursor).le)

/-- Without rows coming in ahead of it the scan ends. -/
theorem ends (room : 0 < chunk) (distinct : ∀ n, ((tables n).map key).Nodup)
    (answers : Answers key chunk tables ask) (none : NoneAhead key tables (after key chunk ask)) :
    ∃ n, (after key chunk ask n).ended = true := by
  by_contra never
  have going : ∀ n, (after key chunk ask n).ended = false := fun n =>
    Bool.eq_false_iff.mpr fun ended => never ⟨n, ended⟩
  have sinks : ∀ n, (pending key (after key chunk ask n).cursor (tables n)).length + n ≤
      (pending key (after key chunk ask 0).cursor (tables 0)).length := by
    intro n
    induction n with
    | zero => exact le_rfl
    | succ n ih =>
      have fewer := pending_decreases room distinct answers none (going n) (going (n + 1))
      omega
  have past := sinks ((pending key (after key chunk ask 0).cursor (tables 0)).length + 1)
  omega

/-- A scan reads in the order of the keys and no row twice; once over, it has read
every row that was there at each of its pages; and it ends unless rows keep
coming in ahead of it. -/
structure Whole (key : α → κ) (tables : ℕ → List α) (scan : ℕ → Scan α κ) : Prop where
  ascends : ∀ n, (scan n).read.Pairwise fun a b => key a < key b
  held : ∀ n, ∀ a ∈ (scan n).read, ∃ k < n, a ∈ tables k
  complete : ∀ n, (scan n).ended = true → ∀ a, (∀ k < n, a ∈ tables k) → a ∈ (scan n).read
  ends : NoneAhead key tables scan → ∃ n, (scan n).ended = true

theorem whole (room : 0 < chunk) (distinct : ∀ n, ((tables n).map key).Nodup)
    (answers : Answers key chunk tables ask) : Whole key tables (after key chunk ask) where
  ascends n := (after_follows room distinct answers n).ascends
  held n := (after_follows room distinct answers n).held
  complete n := (after_follows room distinct answers n).whole
  ends := ends room distinct answers

end Scan

end Keyset
