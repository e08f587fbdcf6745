import Mathlib.Data.List.Basic
import Mathlib.Tactic

/-! Assignment to a slice of an array, and indices that wrap around. -/

namespace SliceAssign

variable {α : Type*}

/-- `buf[start : start + len(data)] = data` -/
def setSlice (buf : List α) (start : Nat) (data : List α) : List α :=
  buf.take start ++ data ++ buf.drop (start + data.length)

theorem setSlice_length {buf data : List α} {start : Nat} (fits : start + data.length ≤ buf.length) :
    (setSlice buf start data).length = buf.length := by
  simp only [setSlice, List.length_append, List.length_take, List.length_drop]
  omega

theorem setSlice_get {buf data : List α} {start i : Nat} (fits : start + data.length ≤ buf.length) :
    (setSlice buf start data)[i]? =
      if start ≤ i ∧ i < start + data.length then data[i - start]? else buf[i]? := by
  have head : (buf.take start).length = start := by simp; omega
  have front : (buf.take start ++ data).length = start + data.length := by simp; omega
  unfold setSlice
  by_cases before : i < start
  · rw [if_neg (by omega), List.append_assoc, List.getElem?_append_left (by omega),
      List.getElem?_take_of_lt before]
  · by_cases inside : i < start + data.length
    · rw [if_pos ⟨by omega, inside⟩, List.getElem?_append_left (by omega),
        List.getElem?_append_right (by omega), head]
    · rw [if_neg (by omega), List.getElem?_append_right (by omega), front, List.getElem?_drop]
      congr 1
      omega

/-- The index `d` places before `pos` on a circle of `cap` places. -/
def back (cap pos d : Nat) : Nat := if d ≤ pos then pos - d else pos + cap - d

theorem back_lt {cap pos d : Nat} (inside : pos < cap) (positive : 0 < d) (turn : d ≤ cap) :
    back cap pos d < cap := by
  unfold back
  split <;> omega

theorem emod_eq_back {cap pos d : Nat} (inside : pos < cap) (positive : 0 < d) (turn : d ≤ cap) :
    (((pos : ℤ) - d) % cap).toNat = back cap pos d := by
  unfold back
  split
  · rename_i direct
    rw [Int.emod_eq_of_lt (by omega) (by omega)]
    omega
  · rename_i wraps
    have turned : ((pos : ℤ) - d) % cap = pos - d + cap := by
      rw [← Int.add_emod_right, Int.emod_eq_of_lt (by omega) (by omega)]
    omega

theorem back_add (pos : Nat) {cap d : Nat} (turn : d ≤ cap) :
    d ≤ pos ∧ back cap pos d + d = pos ∨ pos < d ∧ back cap pos d + d = pos + cap := by
  unfold back
  split <;> omega

/-- Where a fresh value stands, once `count` values are written from `pos` on. -/
theorem back_fresh {cap pos count next d : Nat} (inside : pos < cap) (positive : 0 < d) (turn : d ≤ cap)
    (fits : pos + count ≤ cap + cap)
    (place : pos + count = next ∨ pos + count = next + cap ∨ pos + count = next + cap + cap) (fresh : d ≤ count) :
    (¬ back cap next d + cap < pos + count ∧ (pos ≤ back cap next d ∧ back cap next d < pos + count) ∧
      back cap next d - pos = count - d) ∨
    (back cap next d + cap < pos + count ∧ back cap next d + cap - pos = count - d) := by
  have turned := back_add next turn
  generalize back cap next d = i at *
  by_cases again : i + cap < pos + count
  · exact Or.inr ⟨again, by omega⟩
  · exact Or.inl ⟨again, by omega, by omega⟩

/-- An older value stands where it stood, apart from the values written. -/
theorem back_old {cap pos count next d : Nat} (inside : pos < cap) (turn : d ≤ cap) (moved : next < cap)
    (place : pos + count = next ∨ pos + count = next + cap ∨ pos + count = next + cap + cap) (old : count < d) :
    back cap next d = back cap pos (d - count) ∧ ¬ back cap next d + cap < pos + count ∧
      ¬ (pos ≤ back cap next d ∧ back cap next d < pos + count) := by
  have turned := back_add next turn
  have before := back_add pos (show d - count ≤ cap by omega)
  generalize back cap next d = i at *
  generalize back cap pos (d - count) = j at *
  have same : i = j := by omega
  exact ⟨same, by omega, by omega⟩

end SliceAssign
