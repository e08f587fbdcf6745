import RFObserver.Lib.SliceAssign

namespace RFObserver
open SliceAssign

/-- The pre-trigger ring: the newest samples of the stream, at most
`maxSamples` of them. The write position stays inside the buffer. -/
structure CircularBuffer (α : Type*) where
  maxSamples : Nat
  buffer : List α
  writePos : Nat
  totalWritten : Nat
  bufferLength : buffer.length = maxSamples
  writePosLt : writePos < maxSamples

namespace CircularBuffer
variable {α : Type*}

def create [Zero α] (maxSamples : Nat) (positive : 0 < maxSamples) : CircularBuffer α where
  maxSamples := maxSamples
  buffer := List.replicate maxSamples 0
  writePos := 0
  totalWritten := 0
  bufferLength := List.length_replicate ..
  writePosLt := positive

def write (ring : CircularBuffer α) (data : List α) : CircularBuffer α :=
  if big : ring.maxSamples ≤ data.length then
    { ring with
      buffer := data.drop (data.length - ring.maxSamples)
      writePos := 0
      totalWritten := ring.totalWritten + data.length
      bufferLength := by rw [List.length_drop]; omega
      writePosLt := by have := ring.writePosLt; omega }
  else
    { ring with
      buffer :=
        if ring.writePos + data.length ≤ ring.maxSamples then setSlice ring.buffer ring.writePos data
        else setSlice (setSlice ring.buffer ring.writePos (data.take (ring.maxSamples - ring.writePos))) 0
          (data.drop (ring.maxSamples - ring.writePos))
      writePos := (ring.writePos + data.length) % ring.maxSamples
      totalWritten := ring.totalWritten + data.length
      bufferLength := by
        have size := ring.bufferLength
        have pos := ring.writePosLt
        split
        · rw [setSlice_length (by omega), size]
        · have first : (setSlice ring.buffer ring.writePos
              (data.take (ring.maxSamples - ring.writePos))).length = ring.buffer.length :=
            setSlice_length (by rw [List.length_take]; omega)
          rw [setSlice_length (by rw [first, List.length_drop]; omega), first, size]
      writePosLt := Nat.mod_lt _ (by have := ring.writePosLt; omega) }

/-- The position of the oldest sample held, and of the next one written. -/
def bounds (ring : CircularBuffer α) : Nat × Nat :=
  (ring.totalWritten - min ring.totalWritten ring.maxSamples, ring.totalWritten)

def copyRangeLocked (ring : CircularBuffer α) (start stop : Nat) : List α :=
  let i0 := (((ring.writePos : ℤ) - ((ring.totalWritten : ℤ) - start)) % ring.maxSamples).toNat
  let n := stop - start
  if i0 + n ≤ ring.maxSamples then (ring.buffer.drop i0).take n
  else ring.buffer.drop i0 ++ ring.buffer.take (n - (ring.maxSamples - i0))

def readRange (ring : CircularBuffer α) (start stop : Nat) : Option (List α) :=
  let oldest := ring.totalWritten - min ring.totalWritten ring.maxSamples
  if stop ≤ start ∨ start < oldest ∨ ring.totalWritten < stop then none
  else some (ring.copyRangeLocked start stop)

def readTailWithPosition (ring : CircularBuffer α) (n : Nat) : List α × Nat :=
  let n := min (min n ring.totalWritten) ring.maxSamples
  if n = 0 then ([], ring.totalWritten)
  else (ring.copyRangeLocked (ring.totalWritten - n) ring.totalWritten, ring.totalWritten)

/-- All available samples in chronological order, and the position of the
next one written. Below one capacity nothing has wrapped yet. -/
def readWithPosition (ring : CircularBuffer α) : List α × Nat :=
  if ring.totalWritten < ring.maxSamples then (ring.buffer.take ring.writePos, ring.totalWritten)
  else (ring.buffer.drop ring.writePos ++ ring.buffer.take ring.writePos, ring.totalWritten)

def read (ring : CircularBuffer α) : List α := ring.readWithPosition.1

/-- The ring holds the newest samples of the stream `s`: the sample `d`
places before the stream's end stands `d` places before the write position. -/
structure Holds (ring : CircularBuffer α) (s : List α) : Prop where
  total : ring.totalWritten = s.length
  unwrapped : s.length < ring.maxSamples → ring.writePos = s.length
  newest : ∀ d, 0 < d → d ≤ s.length → d ≤ ring.maxSamples →
    ring.buffer[back ring.maxSamples ring.writePos d]? = s[s.length - d]?

theorem create_holds [Zero α] {n : Nat} (positive : 0 < n) : (create (α := α) n positive).Holds [] where
  total := rfl
  unwrapped _ := rfl
  newest d above below _ := by simp only [List.length_nil] at below; omega

@[simp] theorem write_maxSamples (ring : CircularBuffer α) (data : List α) :
    (ring.write data).maxSamples = ring.maxSamples := by
  unfold write
  split <;> rfl

@[simp] theorem write_total (ring : CircularBuffer α) (data : List α) :
    (ring.write data).totalWritten = ring.totalWritten + data.length := by
  unfold write
  split <;> rfl

theorem writePos_of_small {ring : CircularBuffer α} {data : List α} (small : data.length < ring.maxSamples) :
    (ring.write data).writePos =
      if ring.writePos + data.length < ring.maxSamples then ring.writePos + data.length
      else ring.writePos + data.length - ring.maxSamples := by
  have pos := ring.writePosLt
  have moved : (ring.write data).writePos = (ring.writePos + data.length) % ring.maxSamples := by
    unfold write
    rw [dif_neg (by omega)]
  rw [moved]
  split
  · rename_i direct
    exact Nat.mod_eq_of_lt direct
  · rename_i wraps
    rw [Nat.mod_eq_sub_mod (by omega), Nat.mod_eq_of_lt (by omega)]

/-- What a write shorter than the ring leaves at each index. -/
theorem write_get_of_small {ring : CircularBuffer α} {data : List α} {i : Nat}
    (small : data.length < ring.maxSamples) (inside : i < ring.maxSamples) :
    (ring.write data).buffer[i]? =
      if ring.writePos ≤ i ∧ i < ring.writePos + data.length then data[i - ring.writePos]?
      else if i + ring.maxSamples < ring.writePos + data.length then
        data[i + ring.maxSamples - ring.writePos]?
      else ring.buffer[i]? := by
  have pos := ring.writePosLt
  have size := ring.bufferLength
  unfold write
  rw [dif_neg (by omega)]
  by_cases direct : ring.writePos + data.length ≤ ring.maxSamples
  · simp only [if_pos direct]
    rw [setSlice_get (by omega)]
    split
    · rfl
    · rw [if_neg (by omega)]
  · simp only [if_neg direct]
    have first : (data.take (ring.maxSamples - ring.writePos)).length = ring.maxSamples - ring.writePos := by
      rw [List.length_take]; omega
    have kept : (setSlice ring.buffer ring.writePos
        (data.take (ring.maxSamples - ring.writePos))).length = ring.buffer.length :=
      setSlice_length (by omega)
    rw [setSlice_get (by rw [kept, List.length_drop]; omega), setSlice_get (by omega), first, List.length_drop]
    by_cases head : i + ring.maxSamples < ring.writePos + data.length
    · rw [if_pos (by omega), if_neg (by omega), if_pos head, List.getElem?_drop]
      congr 1
      omega
    · rw [if_neg (by omega), if_neg head]
      by_cases tail : ring.writePos ≤ i
      · rw [if_pos (by omega), if_pos (by omega), List.getElem?_take_of_lt (by omega)]
      · rw [if_neg (by omega), if_neg (by omega)]

/-- Writing appends to the stream the ring holds the end of. -/
theorem Holds.write {ring : CircularBuffer α} {s data : List α} (holds : ring.Holds s) :
    (ring.write data).Holds (s ++ data) := by
  have pos := ring.writePosLt
  obtain ⟨total, unwrapped, newest⟩ := holds
  by_cases big : ring.maxSamples ≤ data.length
  · have shape : ring.write data = _ := dif_pos big
    refine ⟨by simp [total], by simp; omega, ?_⟩
    intro d above below turn
    rw [write_maxSamples] at turn ⊢
    rw [shape]
    simp only [List.length_append, back, show ¬ d ≤ 0 by omega, if_false, List.getElem?_drop]
    rw [List.getElem?_append_right (by omega)]
    congr 1
    omega
  · have small : data.length < ring.maxSamples := by omega
    have moved := writePos_of_small small
    refine ⟨by simp [total], ?_, ?_⟩
    · intro short
      simp only [write_maxSamples, List.length_append] at short
      rw [moved, unwrapped (by omega), if_pos short, List.length_append]
    intro d above below turn
    rw [write_maxSamples] at turn ⊢
    have place : (ring.writePos + data.length = (ring.write data).writePos ∨
        ring.writePos + data.length = (ring.write data).writePos + ring.maxSamples ∨
        ring.writePos + data.length = (ring.write data).writePos + ring.maxSamples + ring.maxSamples) := by
      rw [moved]
      split <;> omega
    have next : (ring.write data).writePos < ring.maxSamples := by
      rw [moved]
      split <;> omega
    rw [write_get_of_small small (back_lt next above turn)]
    simp only [List.length_append] at below ⊢
    by_cases fresh : d ≤ data.length
    · rw [List.getElem?_append_right (by omega)]
      have last : s.length + data.length - d - s.length = data.length - d := by omega
      rcases back_fresh pos above turn (by omega) place fresh with ⟨-, here, same⟩ | ⟨twice, same⟩
      · rw [if_pos here, same, last]
      · rw [if_neg (by omega), if_pos twice, same, last]
    · obtain ⟨same, once, apart⟩ := back_old pos turn next place (not_le.mp fresh)
      rw [if_neg apart, if_neg once, same, newest (d - data.length) (by omega) (by omega) (by omega),
        List.getElem?_append_left (by omega)]
      congr 1
      omega

theorem Holds.copyRange {ring : CircularBuffer α} {s : List α} (holds : ring.Holds s) {start stop : Nat}
    (ordered : start < stop) (held : s.length - min s.length ring.maxSamples ≤ start) (written : stop ≤ s.length) :
    ring.copyRangeLocked start stop = (s.drop start).take (stop - start) := by
  have pos := ring.writePosLt
  have size := ring.bufferLength
  obtain ⟨total, _, newest⟩ := holds
  have at0 : (((ring.writePos : ℤ) - ((ring.totalWritten : ℤ) - start)) % ring.maxSamples).toNat =
      back ring.maxSamples ring.writePos (s.length - start) := by
    rw [total, ← emod_eq_back pos (by omega) (by omega)]
    congr 3
    omega
  unfold copyRangeLocked
  rw [at0]
  apply List.ext_getElem?
  intro i
  by_cases inside : i < stop - start
  · have here := newest (s.length - start - i) (by omega) (by omega) (by omega)
    rw [List.getElem?_take_of_lt inside, List.getElem?_drop,
      show start + i = s.length - (s.length - start - i) by omega, ← here]
    have first := back_add ring.writePos (show s.length - start ≤ ring.maxSamples by omega)
    have each := back_add ring.writePos (show s.length - start - i ≤ ring.maxSamples by omega)
    generalize back ring.maxSamples ring.writePos (s.length - start) = i0 at *
    generalize back ring.maxSamples ring.writePos (s.length - start - i) = place at *
    have range : place = i0 + i ∧ i0 + i < ring.maxSamples ∨ place + ring.maxSamples = i0 + i := by omega
    have bound : i0 < ring.maxSamples := by omega
    have dropped : (ring.buffer.drop i0).length = ring.maxSamples - i0 := by rw [List.length_drop, size]
    clear here newest first each at0
    simp only
    split
    · rw [List.getElem?_take_of_lt inside, List.getElem?_drop]
      congr 1
      omega
    · rcases range with ⟨rfl, before⟩ | wrapped
      · rw [List.getElem?_append_left (by omega), List.getElem?_drop]
      · rw [List.getElem?_append_right (by omega), dropped, List.getElem?_take_of_lt (by omega)]
        congr 1
        omega
  · have first := back_lt pos (show 0 < s.length - start by omega) (by omega)
    rw [List.getElem?_eq_none (by dsimp only; split <;> simp <;> omega), List.getElem?_eq_none (by simp; omega)]

/-- A read range is that range of the stream, when all of it is still held. -/
theorem Holds.readRange {ring : CircularBuffer α} {s : List α} (holds : ring.Holds s) (start stop : Nat) :
    ring.readRange start stop =
      if start < stop ∧ s.length - min s.length ring.maxSamples ≤ start ∧ stop ≤ s.length then
        some ((s.drop start).take (stop - start))
      else none := by
  unfold CircularBuffer.readRange
  rw [holds.total]
  by_cases valid : start < stop ∧ s.length - min s.length ring.maxSamples ≤ start ∧ stop ≤ s.length
  · rw [if_pos valid, if_neg (by omega), holds.copyRange valid.1 valid.2.1 valid.2.2]
  · rw [if_neg valid, if_pos (by omega)]

theorem Holds.bounds {ring : CircularBuffer α} {s : List α} (holds : ring.Holds s) :
    ring.bounds = (s.length - min s.length ring.maxSamples, s.length) := by
  rw [CircularBuffer.bounds, holds.total]

theorem Holds.read_tail {ring : CircularBuffer α} {s : List α} (holds : ring.Holds s) (n : Nat) :
    ring.readTailWithPosition n =
      (s.drop (s.length - min (min n s.length) ring.maxSamples), s.length) := by
  unfold CircularBuffer.readTailWithPosition
  rw [holds.total]
  by_cases empty : min (min n s.length) ring.maxSamples = 0
  · rw [if_pos empty, empty, Nat.sub_zero, List.drop_length]
  · rw [if_neg empty, holds.copyRange (by omega) (by omega) le_rfl, List.take_of_length_le (by simp)]

theorem Holds.read {ring : CircularBuffer α} {s : List α} (holds : ring.Holds s) :
    ring.read = s.drop (s.length - min s.length ring.maxSamples) := by
  have pos := ring.writePosLt
  have size := ring.bufferLength
  obtain ⟨total, unwrapped, newest⟩ := holds
  unfold CircularBuffer.read readWithPosition
  rw [total]
  apply List.ext_getElem?
  intro i
  by_cases short : s.length < ring.maxSamples
  · have here := unwrapped short
    rw [if_pos short, Nat.min_eq_left short.le, Nat.sub_self, List.drop_zero]
    dsimp only
    by_cases inside : i < s.length
    · have same := newest (s.length - i) (by omega) (by omega) (by omega)
      rw [back, if_pos (by omega), here, show s.length - (s.length - i) = i by omega] at same
      rw [here, List.getElem?_take_of_lt inside, same]
    · rw [List.getElem?_eq_none (by rw [List.length_take]; omega), List.getElem?_eq_none (by omega)]
  · rw [if_neg short, Nat.min_eq_right (by omega), List.getElem?_drop]
    dsimp only
    by_cases inside : i < ring.maxSamples
    · have same := newest (ring.maxSamples - i) (by omega) (by omega) (by omega)
      rw [show s.length - ring.maxSamples + i = s.length - (ring.maxSamples - i) by omega, ← same]
      unfold back
      split_ifs with wrapped
      · rw [List.getElem?_append_right (by rw [List.length_drop]; omega), List.length_drop,
          List.getElem?_take_of_lt (by omega)]
        congr 1
        omega
      · rw [List.getElem?_append_left (by rw [List.length_drop]; omega), List.getElem?_drop]
        congr 1
        omega
    · rw [List.getElem?_eq_none (by simp only [List.length_append, List.length_drop, List.length_take]; omega),
        List.getElem?_eq_none (by omega)]

/-- A ring after a sequence of write calls. -/
def writeAll (ring : CircularBuffer α) (writes : List (List α)) : CircularBuffer α := writes.foldl write ring

theorem Holds.writeAll {ring : CircularBuffer α} {s : List α} (holds : ring.Holds s) (writes : List (List α)) :
    (ring.writeAll writes).Holds (s ++ writes.flatten) := by
  induction writes generalizing ring s with
  | nil => simpa [CircularBuffer.writeAll] using holds
  | cons data writes ih =>
    rw [List.flatten_cons, ← List.append_assoc]
    exact ih holds.write

theorem writeAll_maxSamples (ring : CircularBuffer α) (writes : List (List α)) :
    (ring.writeAll writes).maxSamples = ring.maxSamples := by
  induction writes generalizing ring with
  | nil => rfl
  | cons data writes ih => exact (ih _).trans (write_maxSamples ring data)

/-- Every read of the ring is a read of the tail of what was written. -/
theorem writeAll_tail [Zero α] (capacity : Nat) (positive : 0 < capacity) (writes : List (List α)) :
    let ring := (create capacity positive).writeAll writes
    let s := writes.flatten
    ring.totalWritten = s.length ∧
      ring.read = s.drop (s.length - min s.length capacity) ∧
      ring.bounds = (s.length - min s.length capacity, s.length) ∧
      (∀ a b, ring.readRange a b =
        if ring.bounds.1 ≤ a ∧ a < b ∧ b ≤ s.length then some ((s.drop a).take (b - a)) else none) ∧
      ∀ n, ring.readTailWithPosition n = (s.drop (s.length - min (min n s.length) capacity), s.length) := by
  intro ring s
  have holds : ring.Holds s := by simpa using (create_holds positive).writeAll writes
  have cap : ring.maxSamples = capacity := writeAll_maxSamples _ _
  have held := holds.bounds
  rw [cap] at held
  refine ⟨holds.total, by rw [holds.read, cap], held, fun a b => ?_, fun n => by rw [holds.read_tail, cap]⟩
  rw [holds.readRange, held, cap]
  refine if_congr ?_ rfl rfl
  constructor
  · rintro ⟨ordered, old, written⟩
    exact ⟨old, ordered, written⟩
  · rintro ⟨old, ordered, written⟩
    exact ⟨ordered, old, written⟩

/-- The oversized write leaves the write position behind the stream position. -/
theorem writeAll_tail_oversized :
    let ring := (create (α := ℤ) 3 (by decide)).writeAll [[1, 2], [3, 4, 5, 6], [7], []]
    ring.read = [5, 6, 7] ∧ ring.readRange 5 7 = some [6, 7] ∧ ring.readRange 3 5 = none := by
  intro ring
  obtain ⟨-, read, held, range, -⟩ := writeAll_tail 3 (by decide) [[1, 2], [3, 4, 5, 6], [7], ([] : List ℤ)]
  refine ⟨read, (range 5 7).trans ?_, (range 3 5).trans ?_⟩ <;> rw [held] <;> rfl

end CircularBuffer
end RFObserver
