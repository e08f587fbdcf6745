import RFObserver.Lib.Chunked
import RFObserver.Lib.SliceAssign

/-! Blocks of a signal that is zero outside its samples, and rows joined to one signal. -/

namespace PaddedBlocks
open Chunked SliceAssign

variable {α β : Type*}

/-- The samples `start, …, start + length - 1` of `x`, zeros where it has none. -/
def padded [Zero α] (x : List α) (start : ℤ) (length : ℕ) : List α :=
  (List.range length).map fun t : ℕ => if start + t < 0 then 0 else x.getD (start + t).toNat 0

section Padded

variable [Zero α] {x : List α} {start : ℤ} {length width hop : ℕ}

@[simp] theorem length_padded (x : List α) (start : ℤ) (length : ℕ) : (padded x start length).length = length := by
  rw [padded, List.length_map, List.length_range]

theorem getElem?_padded {t : ℕ} (inside : t < length) :
    (padded x start length)[t]? = some (if start + t < 0 then 0 else x.getD (start + t).toNat 0) := by
  rw [padded, List.getElem?_map, List.getElem?_range inside, Option.map_some]

/-- A piece of padded samples. -/
theorem padded_piece {skip : ℕ} (fits : skip + width ≤ length) :
    ((padded x start length).drop skip).take width = padded x (start + skip) width := by
  refine List.ext_getElem? fun t => ?_
  by_cases inside : t < width
  · rw [List.getElem?_take_of_lt inside, List.getElem?_drop, getElem?_padded (by omega), getElem?_padded inside]
    push_cast
    rw [add_assoc]
  · rw [List.getElem?_eq_none (by simp; omega), List.getElem?_eq_none (by simp; omega)]

/-- The blocks of padded samples, each `hop` after the one before. -/
theorem frames_padded (moves : 0 < hop) (count : ℕ) :
    frames width hop (padded x start (count * hop + width)) =
      (List.range (count + 1)).map fun r => padded x (start + (r * hop : ℕ)) width := by
  have number : frameCount width hop (count * hop + width) = count + 1 := by
    rw [frameCount, if_neg (by omega), Nat.add_sub_cancel, Nat.mul_div_cancel _ moves]
  rw [frames, length_padded, number]
  refine List.map_congr_left fun r member => padded_piece ?_
  have within : r * hop ≤ count * hop := Nat.mul_le_mul_right hop (by rw [List.mem_range] at member; omega)
  omega

/-- Samples inside the signal need no padding. -/
theorem slice_eq_padded (before : 0 ≤ start) (inside : start + length ≤ x.length) :
    (x.drop start.toNat).take length = padded x start length := by
  refine List.ext_getElem? fun t => ?_
  by_cases here : t < length
  · have within : start.toNat + t < x.length := by omega
    have place : (start + t).toNat = start.toNat + t := by omega
    rw [List.getElem?_take_of_lt here, List.getElem?_drop, getElem?_padded here, if_neg (by omega), place,
      List.getD_eq_getElem _ _ within, List.getElem?_eq_getElem within]
  · rw [List.getElem?_eq_none (by simp; omega), List.getElem?_eq_none (by simp; omega)]

/-- `seg = zeros(hi - lo)` with `x` where it has samples is the padded piece. -/
theorem setSlice_eq_padded {hi a b : ℤ} (ordered : start ≤ hi) (left : a = max start 0) (right : b = min hi x.length)
    (some_ : a < b) :
    setSlice (List.replicate (hi - start).toNat 0) (a - start).toNat ((x.drop a.toNat).take (b - a).toNat) =
      padded x start (hi - start).toNat := by
  have size : ((x.drop a.toNat).take (b - a).toNat).length = (b - a).toNat := by
    rw [List.length_take, List.length_drop]
    omega
  have fits : (a - start).toNat + ((x.drop a.toNat).take (b - a).toNat).length ≤
      (List.replicate (hi - start).toNat (0 : α)).length := by
    rw [size, List.length_replicate]
    omega
  refine List.ext_getElem? fun t => ?_
  rw [setSlice_get fits, size]
  by_cases here : t < (hi - start).toNat
  · rw [getElem?_padded here]
    split_ifs with covered negative negative
    · omega
    · have within : (start + t).toNat < x.length := by omega
      have place : a.toNat + (t - (a - start).toNat) = (start + t).toNat := by omega
      rw [List.getElem?_take_of_lt (by omega), List.getElem?_drop, place, List.getD_eq_getElem _ _ within,
        List.getElem?_eq_getElem within]
    · rw [List.getElem?_replicate, if_pos here]
    · have beyond : x.length ≤ (start + t).toNat := by omega
      rw [List.getElem?_replicate, if_pos here, List.getD_eq_default _ _ beyond]
  · have long : ((List.replicate (hi - start).toNat (0 : α))[t]?) = none :=
      List.getElem?_eq_none (by rw [List.length_replicate]; omega)
    rw [if_neg (by omega), long, List.getElem?_eq_none (by rw [length_padded]; omega)]

/-- Where `x` has no samples the padded piece is zero. -/
theorem replicate_eq_padded {hi : ℤ} (none : min hi x.length ≤ max start 0) :
    List.replicate (hi - start).toNat 0 = padded x start (hi - start).toNat := by
  refine List.ext_getElem? fun t => ?_
  by_cases here : t < (hi - start).toNat
  · rw [getElem?_padded here, List.getElem?_replicate, if_pos here]
    split_ifs with negative
    · rfl
    · rw [List.getD_eq_default _ _ (by omega)]
  · rw [List.getElem?_eq_none (by rw [List.length_replicate]; omega),
      List.getElem?_eq_none (by rw [length_padded]; omega)]

end Padded

/-- Work on `count` items done `size` at a time. -/
theorem flatMap_range (size : ℕ) (f : ℕ → β) (count calls : ℕ) :
    (List.range calls).flatMap
        (fun q => (List.range (min count (size * q + size) - size * q)).map fun r => f (size * q + r)) =
      (List.range (min count (size * calls))).map f := by
  induction calls with
  | zero => simp
  | succ calls ih =>
    have split : min count (size * (calls + 1)) =
        min count (size * calls) + (min count (size * calls + size) - size * calls) := by
      rw [Nat.mul_succ]
      omega
    rw [List.range_succ, List.flatMap_append, ih, split, List.range_add, List.map_append, List.map_map,
      List.flatMap_singleton]
    congr 1
    refine List.map_congr_left fun r member => ?_
    have below := List.mem_range.mp member
    have full : min count (size * calls) = size * calls := by omega
    rw [Function.comp_apply, full]

/-- Joined rows of one width. -/
theorem getElem?_flatten {width : ℕ} (positive : 0 < width) {rows : List (List β)}
    (wide : ∀ row ∈ rows, row.length = width) (m : ℕ) :
    rows.flatten[m]? = rows[m / width]?.bind fun row => row[m % width]? := by
  induction rows generalizing m with
  | nil => rfl
  | cons row rows ih =>
    obtain ⟨here, later⟩ := List.forall_mem_cons.mp wide
    rw [List.flatten_cons]
    by_cases first : m < width
    · rw [List.getElem?_append_left (by omega), Nat.div_eq_of_lt first, Nat.mod_eq_of_lt first]
      rfl
    · obtain ⟨r, rfl⟩ := Nat.exists_eq_add_of_le (not_lt.mp first)
      rw [List.getElem?_append_right (by omega), here, Nat.add_sub_cancel_left, ih later, Nat.add_div_left _ positive,
        Nat.add_mod_left, List.getElem?_cons_succ]

theorem length_flatten {width : ℕ} {rows : List (List β)} (wide : ∀ row ∈ rows, row.length = width) :
    rows.flatten.length = rows.length * width := by
  rw [List.length_flatten, List.map_congr_left wide, List.map_const', List.sum_replicate, smul_eq_mul]

end PaddedBlocks
