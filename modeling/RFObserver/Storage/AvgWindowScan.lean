import RFObserver.Lib.KeysetScan
import RFObserver.Storage.AvgFold
import Mathlib.Data.Char
import Mathlib.Data.List.Lex
import Mathlib.Data.Prod.Lex

/-! The chunked scan of the averaged windows. -/

namespace RFObserver

/-- A row of `avg_windows`: its key, its tuning and the columns that are asked for. -/
structure AvgWindowRow (Columns : Type*) where
  startTime : List Char
  id : ℕ
  tuning : StoreKey
  columns : Columns

/-- `start_time, id` -/
def AvgWindowRow.order {Columns : Type*} (row : AvgWindowRow Columns) : List Char ×ₗ ℕ := toLex (row.startTime, row.id)

/-- The averaged windows as a statement finds them; an id is the primary key. -/
structure AvgWindowTable (Columns : Type*) where
  rows : List (AvgWindowRow Columns)
  distinct : (rows.map AvgWindowRow.id).Nodup

namespace AvgWindowTable

variable {Columns : Type*}

/-- The condition of the first statement, and with a key that of those after it,
where the key's time stands in place of the range's start. -/
def selects (since until_ : List Char) (filter : TuningFilter) (key : Option (List Char ×ₗ ℕ))
    (row : AvgWindowRow Columns) : Bool :=
  match key with
  | none => since ≤ row.startTime ∧ row.startTime < until_ ∧ filter.accepts row.tuning = true
  | some last =>
    ((ofLex last).1 ≤ row.startTime ∧ row.startTime < until_ ∧ filter.accepts row.tuning = true) ∧
      ((ofLex last).1 < row.startTime ∨ (ofLex last).2 < row.id)

/-- The rows of one statement. -/
def chunkAfter (since until_ : List Char) (filter : TuningFilter) (chunk : Nat) (table : AvgWindowTable Columns)
    (key : Option (List Char ×ₗ ℕ)) : List (AvgWindowRow Columns) :=
  (Keyset.sorted AvgWindowRow.order (table.rows.filter (selects since until_ filter key))).take chunk

/-- `_scan_avg_windows` over the tables that its statements find. -/
def scan (since until_ : List Char) (filter : TuningFilter) (chunk : Nat) (tables : ℕ → AvgWindowTable Columns) :
    ℕ → Keyset.Scan (AvgWindowRow Columns) (List Char ×ₗ ℕ) :=
  Keyset.Scan.after AvgWindowRow.order chunk fun n key => (tables n).chunkAfter since until_ filter chunk key

variable {since until_ : List Char} {filter : TuningFilter} {row : AvgWindowRow Columns}

/-- The rows that a scan is for. -/
def matching (since until_ : List Char) (filter : TuningFilter) (table : AvgWindowTable Columns) :
    List (AvgWindowRow Columns) := table.rows.filter (selects since until_ filter none)

theorem order_nodup {rows : List (AvgWindowRow Columns)} (distinct : (rows.map AvgWindowRow.id).Nodup) :
    (rows.map AvgWindowRow.order).Nodup := by
  refine List.pairwise_map.mpr ((List.pairwise_map.mp distinct).imp fun ids same => ids ?_)
  exact congrArg (fun key => (ofLex key).2) same

theorem matching_nodup (table : AvgWindowTable Columns) :
    ((table.matching since until_ filter).map AvgWindowRow.order).Nodup :=
  order_nodup (Keyset.map_filter_nodup _ table.distinct)

/-- The two conditions on the key are its order, within the range. -/
theorem selects_some {last : List Char ×ₗ ℕ} (from_ : since ≤ (ofLex last).1) :
    selects since until_ filter (some last) row = true ↔
      selects since until_ filter none row = true ∧ last < row.order := by
  have order : last < row.order ↔
      (ofLex last).1 < row.startTime ∨ (ofLex last).1 = row.startTime ∧ (ofLex last).2 < row.id :=
    Prod.Lex.lt_iff
  simp only [selects, decide_eq_true_eq, order]
  constructor
  · rintro ⟨⟨le, before, accepted⟩, later⟩
    refine ⟨⟨from_.trans le, before, accepted⟩, ?_⟩
    rcases le.lt_or_eq with less | same
    · exact .inl less
    · exact .inr ⟨same, later.resolve_left same.not_lt⟩
  · rintro ⟨⟨-, before, accepted⟩, less | ⟨same, later⟩⟩
    · exact ⟨⟨less.le, before, accepted⟩, .inl less⟩
    · exact ⟨⟨same.le, before, accepted⟩, .inr later⟩

theorem chunkAfter_answers (chunk : Nat) (tables : ℕ → AvgWindowTable Columns) :
    Keyset.Scan.Answers AvgWindowRow.order chunk (fun n => (tables n).matching since until_ filter)
      fun n key => (tables n).chunkAfter since until_ filter chunk key := by
  intro n key known
  dsimp only
  rw [chunkAfter, Keyset.page, matching, List.filter_filter]
  congr 2
  refine List.filter_congr fun row _ => ?_
  rw [Bool.eq_iff_iff, Bool.and_eq_true, decide_eq_true_iff]
  rcases key with _ | last
  · simp
  · obtain ⟨k, -, a, isIn, rfl⟩ := known last rfl
    have from_ := (of_decide_eq_true (List.mem_filter.mp isIn).2 : _ ∧ _).1
    rw [selects_some from_, and_comm]
    simp only [Option.mem_some_iff, forall_eq']

end AvgWindowTable

end RFObserver
