import Mathlib.Data.List.Nodup
import Mathlib.Tactic

/-! Writes of many threads to one array: when no cell is written twice, their order does not matter. -/

namespace ParallelWrites

variable {α : Type*} {writes : List (ℕ × α)} {mem : ℕ → α} {a : ℕ} {v : α}

/-- The array after the writes, one after another. -/
def apply (writes : List (ℕ × α)) (mem : ℕ → α) : ℕ → α := writes.foldl (fun m w => Function.update m w.1 w.2) mem

theorem apply_of_not_mem (other : a ∉ writes.map Prod.fst) : apply writes mem a = mem a := by
  induction writes generalizing mem with
  | nil => rfl
  | cons w writes ih =>
    rw [List.map_cons, List.mem_cons, not_or] at other
    rw [apply, List.foldl_cons]
    exact (ih other.2).trans (Function.update_of_ne other.1 _ _)

theorem apply_of_mem (nodup : (writes.map Prod.fst).Nodup) (member : (a, v) ∈ writes) : apply writes mem a = v := by
  induction writes generalizing mem with
  | nil => cases member
  | cons w writes ih =>
    obtain ⟨new, nodup⟩ := List.nodup_cons.mp nodup
    rw [apply, List.foldl_cons]
    rcases List.mem_cons.mp member with rfl | later
    · exact (apply_of_not_mem new).trans (Function.update_self ..)
    · exact ih nodup later

/-- The cells of one thread: `for (k = thread; k < n; k += threads)`. -/
def strided (threads n thread : ℕ) : List ℕ := List.range' thread ((n - thread + (threads - 1)) / threads) threads

/-- The cells of all threads of a block. -/
def cells (threads n : ℕ) : List ℕ := (List.range threads).flatMap (strided threads n)

section Cells

variable {threads n thread k : ℕ}

theorem mem_strided (positive : 0 < threads) :
    k ∈ strided threads n thread ↔ k < n ∧ ∃ i, k = thread + threads * i := by
  rw [strided, List.mem_range']
  constructor
  · rintro ⟨i, less, rfl⟩
    have := (Nat.le_div_iff_mul_le positive).mp (Nat.succ_le_of_lt less)
    rw [Nat.succ_mul, Nat.mul_comm] at this
    exact ⟨by omega, i, rfl⟩
  · rintro ⟨less, i, rfl⟩
    refine ⟨i, Nat.lt_of_succ_le ((Nat.le_div_iff_mul_le positive).mpr ?_), rfl⟩
    rw [Nat.succ_mul, Nat.mul_comm]
    omega

theorem mem_cells (positive : 0 < threads) : k ∈ cells threads n ↔ k < n := by
  simp only [cells, List.mem_flatMap, List.mem_range, mem_strided positive]
  constructor
  · rintro ⟨thread, -, less, -⟩
    exact less
  · intro less
    exact ⟨k % threads, Nat.mod_lt _ positive, less, k / threads, (Nat.mod_add_div k threads).symm⟩

theorem cells_nodup (positive : 0 < threads) : (cells threads n).Nodup := by
  refine List.nodup_flatMap.mpr ⟨fun thread _ => List.nodup_range' threads positive, ?_⟩
  refine (List.nodup_range (n := threads)).imp_of_mem fun {s t} isThread isThread' different k first second => ?_
  obtain ⟨-, i, rfl⟩ := (mem_strided positive).mp first
  obtain ⟨-, j, same⟩ := (mem_strided positive).mp second
  have left : (s + threads * i) % threads = s := by
    rw [Nat.add_mul_mod_self_left, Nat.mod_eq_of_lt (List.mem_range.mp isThread)]
  rw [same, Nat.add_mul_mod_self_left, Nat.mod_eq_of_lt (List.mem_range.mp isThread')] at left
  exact different left.symm

end Cells

/-- The writes of a kernel: each block fills its own `n` cells, a thread's `k`-th at `place k`. -/
def kernel (blocks threads n : ℕ) (place : ℕ → ℕ) (value : ℕ → ℕ → α) : List (ℕ × α) :=
  (List.range blocks).flatMap fun b => (cells threads n).map fun k => (b * n + place k, value b k)

section Kernel

variable {blocks threads n : ℕ} {place : ℕ → ℕ} {value : ℕ → ℕ → α}

theorem block_eq {b b' i i' : ℕ} (inside : i < n) (inside' : i' < n) (same : b * n + i = b' * n + i') :
    b = b' ∧ i = i' := by
  have positive : 0 < n := by omega
  have quotient := congrArg (· / n) same
  have rest := congrArg (· % n) same
  simp only [Nat.mul_comm _ n, Nat.mul_add_div positive, Nat.mul_add_mod, Nat.div_eq_of_lt inside,
    Nat.div_eq_of_lt inside', Nat.mod_eq_of_lt inside, Nat.mod_eq_of_lt inside'] at quotient rest
  exact ⟨by omega, rest⟩

theorem kernel_nodup (positive : 0 < threads) (inside : ∀ k < n, place k < n)
    (apart : ∀ k < n, ∀ k' < n, place k = place k' → k = k') :
    ((kernel blocks threads n place value).map Prod.fst).Nodup := by
  have addresses : (kernel blocks threads n place value).map Prod.fst =
      (List.range blocks).flatMap fun b => (cells threads n).map fun k => b * n + place k := by
    simp only [kernel, List.map_flatMap, List.map_map, Function.comp_def]
  rw [addresses]
  refine List.nodup_flatMap.mpr ⟨fun b _ => ?_, ?_⟩
  · refine (cells_nodup positive).map_on fun k isCell k' isCell' same => ?_
    exact apart k ((mem_cells positive).mp isCell) k' ((mem_cells positive).mp isCell') (Nat.add_left_cancel same)
  · refine (List.nodup_range (n := blocks)).imp fun {b b'} different address first second => ?_
    obtain ⟨k, isCell, rfl⟩ := List.mem_map.mp first
    obtain ⟨k', isCell', same⟩ := List.mem_map.mp second
    have cell := inside k ((mem_cells positive).mp isCell)
    have cell' := inside k' ((mem_cells positive).mp isCell')
    exact different (block_eq cell cell' same.symm).1

/-- Whatever the order of the writes, each cell holds the value of its thread. -/
theorem kernel_result (positive : 0 < threads) (inside : ∀ k < n, place k < n)
    (apart : ∀ k < n, ∀ k' < n, place k = place k' → k = k') {order : List (ℕ × α)}
    (perm : order.Perm (kernel blocks threads n place value)) (mem : ℕ → α) {b k : ℕ} (isBlock : b < blocks)
    (isCell : k < n) : apply order mem (b * n + place k) = value b k := by
  refine apply_of_mem ((perm.map Prod.fst).nodup_iff.mpr (kernel_nodup positive inside apart)) (perm.mem_iff.mpr ?_)
  refine List.mem_flatMap.mpr ⟨b, List.mem_range.mpr isBlock, ?_⟩
  exact List.mem_map.mpr ⟨k, (mem_cells positive).mpr isCell, rfl⟩

end Kernel

end ParallelWrites
