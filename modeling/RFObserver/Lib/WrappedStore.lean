import RFObserver.Lib.SliceAssign

/-! A store of fixed size that keeps the newest values of a stream, each at its
number modulo the size. -/

namespace WrappedStore
open SliceAssign

variable {α : Type*} {store stream data : List α} {pos : Nat}

/-- The value `d` places before the stream's end stands `d` places before `pos`. -/
def Holds (store : List α) (pos : Nat) (stream : List α) : Prop :=
  ∀ d, 0 < d → d ≤ stream.length → d ≤ store.length →
    store[back store.length pos d]? = stream[stream.length - d]?

theorem Holds.nil : Holds store pos [] := by
  intro d positive short
  simp only [List.length_nil] at short
  omega

/-- The data written from `pos` on and what does not fit from the start on;
nothing when that does not fit either. -/
def writeSlices (store : List α) (pos : Nat) (data : List α) : Option (List α) :=
  let stop := pos + data.length
  if stop ≤ store.length then some (setSlice store pos data)
  else
    let first := store.length - pos
    let filled := setSlice store pos (data.take first)
    if data.length - first ≤ store.length then some (setSlice filled 0 (data.drop first)) else none

theorem writeSlices_eq_none (inside : pos < store.length) :
    writeSlices store pos data = none ↔ 2 * store.length < pos + data.length := by
  unfold writeSlices
  simp only
  split_ifs <;> simp only [false_iff, true_iff] <;> omega

theorem writeSlices_fits {written : List α} (inside : pos < store.length)
    (writes : writeSlices store pos data = some written) : pos + data.length ≤ 2 * store.length := by
  by_contra large
  rw [(writeSlices_eq_none inside).mpr (by omega)] at writes
  cases writes

theorem first_length (inside : pos < store.length) (wraps : store.length < pos + data.length) :
    (data.take (store.length - pos)).length = store.length - pos := by
  rw [List.length_take]
  omega

theorem first_filled (inside : pos < store.length) (wraps : store.length < pos + data.length) :
    (setSlice store pos (data.take (store.length - pos))).length = store.length := by
  have first := first_length inside wraps
  exact setSlice_length (by omega)

theorem writeSlices_length {written : List α} (inside : pos < store.length)
    (writes : writeSlices store pos data = some written) : written.length = store.length := by
  have fits := writeSlices_fits inside writes
  unfold writeSlices at writes
  by_cases direct : pos + data.length ≤ store.length
  · rw [if_pos direct] at writes
    rw [← Option.some.inj writes, setSlice_length direct]
  · have filled := first_filled inside (not_le.mp direct)
    rw [if_neg direct, if_pos (by omega)] at writes
    rw [← Option.some.inj writes, setSlice_length (by rw [filled, List.length_drop]; omega), filled]

/-- What stands at each place after the two slices. -/
theorem writeSlices_get {written : List α} {i : Nat} (inside : pos < store.length) (bound : i < store.length)
    (writes : writeSlices store pos data = some written) :
    written[i]? =
      if i + store.length < pos + data.length then data[i + store.length - pos]?
      else if pos ≤ i ∧ i < pos + data.length then data[i - pos]?
      else store[i]? := by
  have fits := writeSlices_fits inside writes
  unfold writeSlices at writes
  by_cases direct : pos + data.length ≤ store.length
  · rw [if_pos direct] at writes
    rw [← Option.some.inj writes, setSlice_get direct, if_neg (show ¬ i + store.length < pos + data.length by omega)]
  · have first := first_length inside (not_le.mp direct)
    have filled := first_filled inside (not_le.mp direct)
    rw [if_neg direct, if_pos (by omega)] at writes
    rw [← Option.some.inj writes, setSlice_get (by rw [filled, List.length_drop]; omega), List.length_drop,
      setSlice_get (by omega), first]
    by_cases again : i + store.length < pos + data.length
    · rw [if_pos ⟨by omega, by omega⟩, if_pos again, List.getElem?_drop]
      congr 1
      omega
    · rw [if_neg (by omega), if_neg again]
      by_cases tail : pos ≤ i
      · rw [if_pos ⟨tail, by omega⟩, if_pos ⟨tail, by omega⟩, List.getElem?_take_of_lt (by omega)]
      · rw [if_neg (by omega), if_neg (by omega)]

/-- Where the next write goes. -/
def next (size pos count : Nat) : Nat := (pos + count) % size

theorem next_eq {size count : Nat} (fits : pos + count ≤ 2 * size) :
    next size pos count =
      if pos + count < size then pos + count
      else if pos + count < 2 * size then pos + count - size else 0 := by
  unfold next
  split_ifs with short turn
  · exact Nat.mod_eq_of_lt short
  · rw [Nat.mod_eq_sub_mod (by omega), Nat.mod_eq_of_lt (by omega)]
  · rw [show pos + count = size * 2 by omega, Nat.mul_mod_right]

/-- Writing in two slices appends to the stream, also when the data is longer
than the store. -/
theorem Holds.writeSlices {written : List α} (holds : Holds store pos stream) (inside : pos < store.length)
    (writes : writeSlices store pos data = some written) :
    Holds written (next store.length pos data.length) (stream ++ data) := by
  have fits := writeSlices_fits inside writes
  have length := writeSlices_length inside writes
  have place := next_eq fits
  intro d positive short held
  rw [length] at held ⊢
  rw [List.length_append] at short
  have moved : next store.length pos data.length < store.length := Nat.mod_lt _ (by omega)
  have bound : back store.length (next store.length pos data.length) d < store.length :=
    back_lt moved positive held
  have turn : pos + data.length = next store.length pos data.length ∨
      pos + data.length = next store.length pos data.length + store.length ∨
      pos + data.length = next store.length pos data.length + store.length + store.length := by
    rw [place]
    split_ifs <;> omega
  rw [writeSlices_get inside bound writes, List.length_append]
  by_cases fresh : d ≤ data.length
  · rw [List.getElem?_append_right (by omega)]
    have last : stream.length + data.length - d - stream.length = data.length - d := by omega
    rcases back_fresh inside positive held (by omega) turn fresh with ⟨once, here, same⟩ | ⟨twice, same⟩
    · rw [if_neg once, if_pos here, same, last]
    · rw [if_pos twice, same, last]
  · obtain ⟨same, once, apart⟩ := back_old inside held moved turn (not_le.mp fresh)
    rw [if_neg once, if_neg apart, same, holds (d - data.length) (by omega) (by omega) (by omega),
      List.getElem?_append_left (by omega)]
    congr 1
    omega

/-- The data written one value at a time, from the place of number `i` on. -/
def writeEach : List α → Nat → List α → List α
  | store, _, [] => store
  | store, i, v :: data => writeEach (store.set (i % store.length) v) (i + 1) data

theorem writeEach_length (i : Nat) : (writeEach store i data).length = store.length := by
  induction data generalizing store i with
  | nil => rfl
  | cons v data ih => rw [writeEach, ih, List.length_set]

/-- A number's place, seen from the end of the stream. -/
theorem mod_eq_back {size i n : Nat} (before : i < n) (near : n ≤ i + size) :
    i % size = back size (n % size) (n - i) := by
  have inside : n % size < size := Nat.mod_lt n (by omega)
  have place := emod_eq_back inside (show 0 < n - i by omega) (show n - i ≤ size by omega)
  rw [← place]
  have same : (((n % size : Nat) : ℤ) - (n - i : Nat)) % size = ((i % size : Nat) : ℤ) := by
    push_cast [Nat.cast_sub before.le]
    rw [Int.emod_sub_emod]
    congr 1
    ring
  rw [same, Int.toNat_natCast]

theorem Holds.get {i : Nat} (holds : Holds store (stream.length % store.length) stream)
    (before : i < stream.length) (near : stream.length ≤ i + store.length) :
    store[i % store.length]? = stream[i]? := by
  rw [mod_eq_back before near, holds _ (by omega) (by omega) (by omega)]
  congr 1
  omega

theorem Holds.of_get
    (each : ∀ i < stream.length, stream.length ≤ i + store.length → store[i % store.length]? = stream[i]?) :
    Holds store (stream.length % store.length) stream := by
  intro d positive short held
  have place : (stream.length - d) % store.length = back store.length (stream.length % store.length) d := by
    rw [mod_eq_back (n := stream.length) (by omega) (by omega)]
    congr 1
    omega
  rw [← place]
  exact each (stream.length - d) (by omega) (by omega)

theorem Holds.writeEach (holds : Holds store (stream.length % store.length) stream) :
    Holds (writeEach store stream.length data) ((stream ++ data).length % store.length) (stream ++ data) := by
  induction data generalizing store stream with
  | nil => simpa only [WrappedStore.writeEach, List.append_nil] using holds
  | cons v data ih =>
    have one : Holds (store.set (stream.length % store.length) v)
        ((stream ++ [v]).length % (store.set (stream.length % store.length) v).length) (stream ++ [v]) := by
      refine .of_get fun i before near => ?_
      simp only [List.length_set, List.length_append, List.length_singleton] at before near ⊢
      by_cases last : i = stream.length
      · subst last
        rw [List.getElem?_set_self (Nat.mod_lt _ (by omega)), List.getElem?_concat_length]
      · have apart : stream.length % store.length ≠ i % store.length := by
          rw [mod_eq_back (n := stream.length) (i := i) (by omega) (by omega)]
          have inside : stream.length % store.length < store.length := Nat.mod_lt _ (by omega)
          unfold back
          split <;> omega
        rw [List.getElem?_set_ne apart, holds.get (by omega) (by omega), List.getElem?_append_left (by omega)]
    have rest := ih one
    rw [List.length_append, List.length_singleton, List.append_assoc, List.length_set] at rest
    exact rest

/-- Read from the place of the next write on, a full store has the newest values in order. -/
theorem Holds.ordered (holds : Holds store pos stream) (inside : pos < store.length)
    (full : store.length ≤ stream.length) :
    store.drop pos ++ store.take pos = stream.drop (stream.length - store.length) := by
  apply List.ext_getElem?
  intro i
  rw [List.getElem?_drop]
  by_cases bound : i < store.length
  · have here := holds (store.length - i) (by omega) (by omega) (by omega)
    rw [show stream.length - store.length + i = stream.length - (store.length - i) by omega, ← here]
    unfold back
    split_ifs with wrapped
    · rw [List.getElem?_append_right (by rw [List.length_drop]; omega), List.length_drop,
        List.getElem?_take_of_lt (by omega)]
      congr 1
      omega
    · rw [List.getElem?_append_left (by rw [List.length_drop]; omega), List.getElem?_drop]
      congr 1
      omega
  · rw [List.getElem?_eq_none (by simp only [List.length_append, List.length_drop, List.length_take]; omega),
      List.getElem?_eq_none (by omega)]

/-- A store that is not full has the whole stream at its start. -/
theorem Holds.unwrapped (holds : Holds store stream.length stream) (short : stream.length < store.length) :
    store.take stream.length = stream := by
  apply List.ext_getElem?
  intro i
  by_cases bound : i < stream.length
  · have here := holds (stream.length - i) (by omega) (by omega) (by omega)
    rw [back, if_pos (by omega), show stream.length - (stream.length - i) = i by omega] at here
    rw [List.getElem?_take_of_lt bound, here]
  · rw [List.getElem?_eq_none (by rw [List.length_take]; omega), List.getElem?_eq_none (by omega)]

end WrappedStore
