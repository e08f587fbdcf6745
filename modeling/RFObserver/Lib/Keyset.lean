import Mathlib.Data.List.Perm.Basic
import Mathlib.Data.List.Sort

/-! Rows read in the order of a key, a bounded page at a time, each page after
the key of the last row read. -/

namespace Keyset

variable {α κ : Type*} [LinearOrder κ] {key : α → κ} {rows l read : List α}

def sorted (key : α → κ) (rows : List α) : List α := rows.insertionSort fun a b => key a ≤ key b

/-- At most `chunk` rows, the first ones after a key. -/
def page (key : α → κ) (chunk : Nat) (after : Option κ) (rows : List α) : List α :=
  (sorted key (rows.filter fun a => ∀ k ∈ after, k < key a)).take chunk

theorem sorted_perm (key : α → κ) (rows : List α) : (sorted key rows).Perm rows := List.perm_insertionSort _ rows

theorem mem_sorted {a : α} : a ∈ sorted key rows ↔ a ∈ rows := (sorted_perm key rows).mem_iff

theorem sorted_lt (distinct : (rows.map key).Nodup) : (sorted key rows).Pairwise fun a b => key a < key b := by
  have weakly : (sorted key rows).Pairwise fun a b => key a ≤ key b := by
    have total : Std.Total fun a b : α => key a ≤ key b := ⟨fun a b => le_total (key a) (key b)⟩
    have trans : IsTrans α fun a b => key a ≤ key b := ⟨fun _ _ _ => le_trans⟩
    exact List.pairwise_insertionSort _ rows
  have apart : (sorted key rows).Pairwise fun a b => key a ≠ key b :=
    List.pairwise_map.mp (((sorted_perm key rows).map key).nodup_iff.mpr distinct)
  exact weakly.imp₂ (fun _ _ le ne => lt_of_le_of_ne le ne) apart

/-- The strictly sorted list of the rows is the only one. -/
theorem eq_sorted (perm : l.Perm rows) (ascends : l.Pairwise fun a b => key a < key b) : l = sorted key rows := by
  have distinct : (rows.map key).Nodup := by
    refine (perm.map key).nodup_iff.mp (List.pairwise_map.mpr ?_)
    exact ascends.imp fun less => less.ne
  refine List.Perm.eq_of_pairwise ?_ ascends (sorted_lt distinct) (perm.trans (sorted_perm key rows).symm)
  intro a b _ _ less more
  exact absurd (less.trans more) (lt_irrefl _)

theorem sorted_filter (p : α → Bool) (distinct : (rows.map key).Nodup) :
    sorted key (rows.filter p) = (sorted key rows).filter p :=
  (eq_sorted ((sorted_perm key rows).filter p) ((sorted_lt distinct).filter p)).symm

theorem map_filter_nodup {β : Type*} {f : α → β} (p : α → Bool) (distinct : (rows.map f).Nodup) :
    ((rows.filter p).map f).Nodup :=
  distinct.sublist (List.filter_sublist.map f)

/-- The rows after the last one read are the rows not read yet. -/
theorem filter_after (distinct : (rows.map key).Nodup) {rest : List α} (split : sorted key rows = read ++ rest) :
    (sorted key rows).filter (fun a => ∀ k ∈ read.getLast?.map key, k < key a) = rest := by
  have ascends := sorted_lt distinct
  rw [split] at ascends ⊢
  obtain ⟨within, _, across⟩ := List.pairwise_append.mp ascends
  rw [List.filter_append]
  have none : read.filter (fun a => ∀ k ∈ read.getLast?.map key, k < key a) = [] := by
    rcases List.eq_nil_or_concat' read with rfl | ⟨front, last, rfl⟩
    · rfl
    · rw [List.filter_eq_nil_iff]
      intro a member after
      have below : key last < key a := by simpa using after
      rcases List.mem_append.mp member with earlier | final
      · have above := (List.pairwise_append.mp within).2.2 a earlier last (List.mem_singleton_self last)
        exact absurd (above.trans below) (lt_irrefl _)
      · rw [List.mem_singleton.mp final] at below
        exact absurd below (lt_irrefl _)
  have all : rest.filter (fun a => ∀ k ∈ read.getLast?.map key, k < key a) = rest := by
    rw [List.filter_eq_self]
    intro a member
    refine decide_eq_true fun k last => ?_
    obtain ⟨b, isLast, rfl⟩ := Option.mem_map.mp last
    exact across b (List.mem_of_getLast? isLast) a member
  rw [none, all, List.nil_append]

theorem page_eq (chunk : Nat) (distinct : (rows.map key).Nodup) {rest : List α}
    (split : sorted key rows = read ++ rest) : page key chunk (read.getLast?.map key) rows = rest.take chunk := by
  rw [page, sorted_filter _ distinct, filter_after distinct split]

/-- A page that is not full is the last one. -/
theorem page_last {chunk : Nat} (distinct : (rows.map key).Nodup) {rest : List α}
    (split : sorted key rows = read ++ rest)
    (short : (page key chunk (read.getLast?.map key) rows).length < chunk) :
    read ++ page key chunk (read.getLast?.map key) rows = sorted key rows := by
  rw [page_eq chunk distinct split] at short ⊢
  rw [List.length_take] at short
  rw [List.take_of_length_le (by omega), split]

section Bounds

variable {chunk : Nat} {after : Option κ} {a last : α}

theorem mem_page (member : a ∈ page key chunk after rows) : a ∈ rows ∧ ∀ k ∈ after, k < key a := by
  obtain ⟨isIn, above⟩ := List.mem_filter.mp (mem_sorted.mp (List.mem_of_mem_take member))
  exact ⟨isIn, of_decide_eq_true above⟩

/-- A page leaves out no row up to one that it has. -/
theorem mem_page_of_le (distinct : (rows.map key).Nodup) (member : a ∈ rows) (above : ∀ k ∈ after, k < key a)
    (read : last ∈ page key chunk after rows) (le : key a ≤ key last) : a ∈ page key chunk after rows := by
  have ascends := sorted_lt (map_filter_nodup (fun b => ∀ k ∈ after, k < key b) distinct)
  rw [← List.take_append_drop chunk (sorted key (rows.filter fun b => ∀ k ∈ after, k < key b))] at ascends
  have listed : a ∈ sorted key (rows.filter fun b => ∀ k ∈ after, k < key b) :=
    mem_sorted.mpr (List.mem_filter.mpr ⟨member, decide_eq_true above⟩)
  rw [← List.take_append_drop chunk (sorted key (rows.filter fun b => ∀ k ∈ after, k < key b))] at listed
  rcases List.mem_append.mp listed with taken | left
  · exact taken
  · exact absurd ((List.pairwise_append.mp ascends).2.2 last read a left) le.not_gt

/-- A page that is not full leaves out no row. -/
theorem mem_page_of_short (member : a ∈ rows) (above : ∀ k ∈ after, k < key a)
    (short : (page key chunk after rows).length < chunk) : a ∈ page key chunk after rows := by
  have listed : a ∈ sorted key (rows.filter fun b => ∀ k ∈ after, k < key b) :=
    mem_sorted.mpr (List.mem_filter.mpr ⟨member, decide_eq_true above⟩)
  unfold page at short ⊢
  rw [List.length_take] at short
  rw [List.take_of_length_le (by omega)]
  exact listed

/-- While rows are left a page is not empty. -/
theorem page_ne_nil (room : 0 < chunk) (member : a ∈ rows) (above : ∀ k ∈ after, k < key a) :
    page key chunk after rows ≠ [] := by
  have listed : a ∈ sorted key (rows.filter fun b => ∀ k ∈ after, k < key b) :=
    mem_sorted.mpr (List.mem_filter.mpr ⟨member, decide_eq_true above⟩)
  intro none
  rcases List.take_eq_nil_iff.mp none with zero | empty
  · omega
  · exact List.not_mem_nil (empty ▸ listed)

end Bounds

end Keyset
