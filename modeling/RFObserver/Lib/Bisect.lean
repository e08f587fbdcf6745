import Mathlib.Data.List.Perm.Basic
import Mathlib.Data.List.Sort
import Mathlib.Data.List.TakeWhile

/-! A sorted list of keys kept beside a collection: inserting and removing a key
by bisection, and what it says of the collection. -/

namespace Bisect

variable {κ ε : Type*} [LinearOrder κ] {order keys : List κ} {key : κ}

/-- The number of entries below the key. -/
def bisectLeft (order : List κ) (key : κ) : Nat :=
  (order.takeWhile fun k => k < key).length

/-- The key put to the right of the entries that are not above it. -/
def insort (order : List κ) (key : κ) : List κ :=
  (order.takeWhile fun k => ¬ key < k) ++ key :: order.dropWhile fun k => ¬ key < k

/-- The key taken out, if bisection finds it. -/
def removeSorted (order : List κ) (key : κ) : List κ :=
  let i := bisectLeft order key
  if order[i]? = some key then order.eraseIdx i else order

/-- The list is strictly sorted and has exactly these keys. -/
structure Mirrors (order keys : List κ) : Prop where
  sorted : order.Pairwise (· < ·)
  perm : order.Perm keys

theorem Mirrors.nil : Mirrors ([] : List κ) [] := ⟨.nil, .nil⟩

theorem Mirrors.congr {keys' : List κ} (mirrors : Mirrors order keys) (same : keys.Perm keys') :
    Mirrors order keys' := ⟨mirrors.sorted, mirrors.perm.trans same⟩

/-- Only one list mirrors a collection. -/
theorem Mirrors.unique {order' : List κ} (mirrors : Mirrors order keys) (mirrors' : Mirrors order' keys) :
    order = order' := by
  refine (mirrors.perm.trans mirrors'.perm.symm).eq_of_pairwise (fun a b _ _ less greater => ?_) mirrors.sorted
    mirrors'.sorted
  exact absurd greater less.asymm

/-- Sorting distinct keys. -/
theorem Mirrors.sort (distinct : keys.Nodup) : Mirrors (keys.insertionSort (· ≤ ·)) keys := by
  have perm := List.perm_insertionSort (· ≤ ·) keys
  refine ⟨?_, perm⟩
  have sorted := List.pairwise_insertionSort (· ≤ ·) keys
  exact sorted.imp₂ (fun _ _ => lt_of_le_of_ne) (perm.nodup_iff.mpr distinct)

theorem insort_perm : (insort order key).Perm (key :: order) := by
  refine List.perm_middle.trans (List.Perm.cons key (.of_eq ?_))
  exact List.takeWhile_append_dropWhile

theorem mem_takeWhile_le {k : κ} (member : k ∈ order.takeWhile fun k => ¬ key < k) : k ≤ key := by
  have kept := List.mem_takeWhile_imp member
  simpa using kept

theorem mem_dropWhile_lt {k : κ} (sorted : order.Pairwise (· < ·))
    (member : k ∈ order.dropWhile fun k => ¬ key < k) : key < k := by
  induction order with
  | nil => cases member
  | cons first rest ih =>
    obtain ⟨below, sorted⟩ := List.pairwise_cons.mp sorted
    by_cases above : key < first
    · rw [List.dropWhile_cons_of_neg (by simpa using above)] at member
      rcases List.mem_cons.mp member with rfl | later
      · exact above
      · exact above.trans (below k later)
    · rw [List.dropWhile_cons_of_pos (by simpa using above)] at member
      exact ih sorted member

theorem Mirrors.insort (mirrors : Mirrors order keys) (fresh : key ∉ keys) :
    Mirrors (insort order key) (key :: keys) := by
  refine ⟨?_, insort_perm.trans (mirrors.perm.cons key)⟩
  have other : key ∉ order := fun member => fresh (mirrors.perm.mem_iff.mp member)
  refine List.pairwise_append.mpr ⟨mirrors.sorted.sublist (List.takeWhile_sublist _),
    List.pairwise_cons.mpr ⟨fun k => mem_dropWhile_lt mirrors.sorted,
      mirrors.sorted.sublist (List.dropWhile_sublist _)⟩, fun k before k' member => ?_⟩
  have inOrder : k ∈ order := (List.takeWhile_sublist _).subset before
  have below : k < key := lt_of_le_of_ne (mem_takeWhile_le before) fun same => other (same ▸ inOrder)
  rcases List.mem_cons.mp member with rfl | after
  · exact below
  · exact below.trans (mem_dropWhile_lt mirrors.sorted after)

/-- In a sorted list bisection finds a key that is there. -/
theorem bisectLeft_mem (sorted : order.Pairwise (· < ·)) (member : key ∈ order) :
    order[bisectLeft order key]? = some key := by
  induction order with
  | nil => cases member
  | cons first rest ih =>
    obtain ⟨below, sorted⟩ := List.pairwise_cons.mp sorted
    rcases List.mem_cons.mp member with rfl | later
    · simp [bisectLeft]
    · have before := below key later
      simpa [bisectLeft, before] using ih sorted later

theorem Mirrors.remove (mirrors : Mirrors order (key :: keys)) : Mirrors (removeSorted order key) keys := by
  have found := bisectLeft_mem mirrors.sorted (mirrors.perm.mem_iff.mpr (List.mem_cons_self ..))
  rw [removeSorted, if_pos found]
  refine ⟨mirrors.sorted.sublist (List.eraseIdx_sublist ..), ?_⟩
  obtain ⟨bound, at_⟩ := List.getElem?_eq_some_iff.mp found
  have whole := List.getElem_cons_eraseIdx_perm bound
  rw [at_] at whole
  exact (List.perm_cons key).mp (whole.trans mirrors.perm)

/-- From the bisection point on, the sorted list has the keys that are not below. -/
theorem drop_bisectLeft (sorted : order.Pairwise (· < ·)) :
    order.drop (bisectLeft order key) = order.filter fun k => key ≤ k := by
  induction order with
  | nil => rfl
  | cons first rest ih =>
    obtain ⟨below, sorted⟩ := List.pairwise_cons.mp sorted
    by_cases before : first < key
    · rw [List.filter_cons_of_neg (by simpa using before), ← ih sorted]
      simp [bisectLeft, before]
    · have all : ∀ k ∈ first :: rest, key ≤ k := by
        intro k member
        rcases List.mem_cons.mp member with rfl | later
        · exact not_lt.mp before
        · exact (not_lt.mp before).trans (below k later).le
      rw [List.filter_eq_self.mpr fun k member => decide_eq_true (all k member)]
      simp [bisectLeft, before]

/-- The first key of a sorted list that passes a test is the least that does. -/
theorem find_least (sorted : order.Pairwise (· < ·)) {p : κ → Bool} (found : order.find? p = some key) :
    key ∈ order ∧ p key = true ∧ ∀ k ∈ order, p k = true → key ≤ k := by
  obtain ⟨test, before, after, rfl, others⟩ := List.find?_eq_some_iff_append.mp found
  refine ⟨by simp, test, fun k member passes => ?_⟩
  rcases List.mem_append.mp member with early | late
  · exact absurd passes (by simpa using others k early)
  · rcases List.mem_cons.mp late with rfl | later
    · exact le_rfl
    · exact ((List.pairwise_cons.mp (List.pairwise_append.mp sorted).2.1).1 k later).le

/-- The last key of a sorted list is the greatest. -/
theorem getLast_greatest (sorted : order.Pairwise (· < ·)) (found : order.getLast? = some key) :
    key ∈ order ∧ ∀ k ∈ order, k ≤ key := by
  obtain ⟨before, rfl⟩ := List.getLast?_eq_some_iff.mp found
  refine ⟨by simp, fun k member => ?_⟩
  rcases List.mem_append.mp member with early | here
  · exact ((List.pairwise_append.mp sorted).2.2 k early key (by simp)).le
  · exact (List.mem_singleton.mp here).le

end Bisect
