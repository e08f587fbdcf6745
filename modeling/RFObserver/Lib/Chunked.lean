import Mathlib.Data.List.GetD
import Mathlib.Tactic

/-! Stages of a signal chain: what they put out must not depend on where their input is cut. -/

namespace Chunked

variable {σ τ α β γ : Type*}

/-- A stage takes its state and a chunk to its next state and the samples it puts out. -/
abbrev Stage (σ α β : Type*) := σ → List α → σ × List β

/-- From the states that `ok` admits, a cut anywhere in a chunk changes neither the state reached nor the output. -/
structure Seamless (ok : σ → Prop) (f : Stage σ α β) : Prop where
  nil : ∀ {s}, ok s → f s [] = (s, [])
  keeps : ∀ {s}, ok s → ∀ xs, ok (f s xs).1
  append : ∀ {s}, ok s → ∀ xs ys, f s (xs ++ ys) = ((f (f s xs).1 ys).1, (f s xs).2 ++ (f (f s xs).1 ys).2)

/-- A stage fed chunk after chunk, its outputs joined. -/
def run (f : Stage σ α β) : σ → List (List α) → σ × List β
  | s, [] => (s, [])
  | s, c :: cs => ((run f (f s c).1 cs).1, (f s c).2 ++ (run f (f s c).1 cs).2)

/-- Chunk after chunk, a seamless stage does what it does to the whole stream at once. -/
theorem Seamless.run_eq {ok : σ → Prop} {f : Stage σ α β} (seamless : Seamless ok f) {s : σ} (start : ok s)
    (cs : List (List α)) : run f s cs = f s cs.flatten := by
  induction cs generalizing s with
  | nil => exact (seamless.nil start).symm
  | cons c cs ih => rw [run, ih (seamless.keeps start c), List.flatten_cons, seamless.append start]

/-- A stage that answers every chunk as another does puts out the same for all of them. -/
theorem run_simulates {f : Stage σ α β} {g : Stage τ α β} (related : σ → τ → Prop) {admitted : List α → Prop}
    (step : ∀ s t c, related s t → admitted c → related (f s c).1 (g t c).1 ∧ (f s c).2 = (g t c).2) {s : σ} {t : τ}
    (start : related s t) {cs : List (List α)} (each : ∀ c ∈ cs, admitted c) : (run f s cs).2 = (run g t cs).2 := by
  induction cs generalizing s t with
  | nil => rfl
  | cons c cs ih =>
    rw [List.forall_mem_cons] at each
    obtain ⟨next, out⟩ := step s t c start each.1
    rw [run, run, out, ih next each.2]

/-- What a seamless stage puts out for the head of a stream is the head of what it puts out. -/
theorem Seamless.output_prefix {ok : σ → Prop} {f : Stage σ α β} (seamless : Seamless ok f) {s : σ} (start : ok s)
    {xs zs : List α} (head : xs <+: zs) : (f s xs).2 <+: (f s zs).2 := by
  obtain ⟨ys, rfl⟩ := head
  exact ⟨_, (congrArg Prod.snd (seamless.append start xs ys)).symm⟩

/-- One stage after another. -/
def andThen (f : Stage σ α β) (g : Stage τ β γ) : Stage (σ × τ) α γ := fun s xs =>
  (((f s.1 xs).1, (g s.2 (f s.1 xs).2).1), (g s.2 (f s.1 xs).2).2)

theorem andThen_eq {f : Stage σ α β} {g : Stage τ β γ} {s s' : σ} {t t' : τ} {xs : List α} {ys : List β} {zs : List γ}
    (first : f s xs = (s', ys)) (second : g t ys = (t', zs)) : andThen f g (s, t) xs = ((s', t'), zs) := by
  rw [andThen, first, second]

theorem Seamless.andThen {ok : σ → Prop} {ok' : τ → Prop} {f : Stage σ α β} {g : Stage τ β γ}
    (first : Seamless ok f) (second : Seamless ok' g) :
    Seamless (fun s => ok s.1 ∧ ok' s.2) (andThen f g) where
  nil admitted := by rw [Chunked.andThen, first.nil admitted.1, second.nil admitted.2]
  keeps admitted xs := ⟨first.keeps admitted.1 xs, second.keeps admitted.2 _⟩
  append admitted xs ys := by
    simp only [Chunked.andThen, first.append admitted.1, second.append admitted.2]

/-! Stages that take sample by sample. -/

/-- The stage of a step function. -/
def scan (step : σ → α → σ × List β) : Stage σ α β
  | s, [] => (s, [])
  | s, x :: xs => ((scan step (step s x).1 xs).1, (step s x).2 ++ (scan step (step s x).1 xs).2)

theorem scan_append (step : σ → α → σ × List β) (s : σ) (xs ys : List α) : scan step s (xs ++ ys) =
    ((scan step (scan step s xs).1 ys).1, (scan step s xs).2 ++ (scan step (scan step s xs).1 ys).2) := by
  induction xs generalizing s with
  | nil => rfl
  | cons x xs ih => simp only [List.cons_append, scan, ih, List.append_assoc]

theorem scan_seamless (step : σ → α → σ × List β) : Seamless (fun _ => True) (scan step) where
  nil _ := rfl
  keeps _ _ := trivial
  append _ xs ys := scan_append step _ xs ys

/-- The stage of a step function that puts out one sample for each it takes. -/
def each (step : σ → α → σ × β) : Stage σ α β := scan fun s x => ((step s x).1, [(step s x).2])

theorem each_cons (step : σ → α → σ × β) (s : σ) (x : α) (xs : List α) : each step s (x :: xs) =
    ((each step (step s x).1 xs).1, (step s x).2 :: (each step (step s x).1 xs).2) := rfl

theorem each_seamless (step : σ → α → σ × β) : Seamless (fun _ => True) (each step) := scan_seamless _

/-! Stages that work on frames of `width` samples, each `hop` after the one before. -/

/-- How many whole frames `length` samples hold. -/
def frameCount (width hop length : ℕ) : ℕ := if length < width then 0 else (length - width) / hop + 1

/-- The frames of the samples. -/
def frames (width hop : ℕ) (xs : List α) : List (List α) :=
  (List.range (frameCount width hop xs.length)).map fun i => (xs.drop (i * hop)).take width

/-- The carried samples come before the chunk, and what follows the last frame's start is carried on. -/
def framed (width hop : ℕ) (f : List α → β) : Stage (List α) α β := fun carried xs =>
  ((carried ++ xs).drop (frameCount width hop (carried ++ xs).length * hop),
    (frames width hop (carried ++ xs)).map f)

section Frames

variable {width hop : ℕ}

theorem frameCount_self (positive : 0 < width) (length : ℕ) : frameCount width width length = length / width := by
  by_cases short : length < width
  · rw [frameCount, if_pos short, Nat.div_eq_of_lt short]
  · rw [frameCount, if_neg short, ← Nat.div_eq_sub_div positive (not_lt.mp short)]

theorem lt_frameCount_iff (width : ℕ) (moves : 0 < hop) (length i : ℕ) :
    i < frameCount width hop length ↔ i * hop + width ≤ length := by
  by_cases short : length < width
  · rw [frameCount, if_pos short]
    omega
  · rw [frameCount, if_neg short, Nat.lt_succ_iff, Nat.le_div_iff_mul_le moves]
    omega

theorem frameCount_one (wide : 0 < width) (length : ℕ) : frameCount width 1 length = length - (width - 1) := by
  refine eq_of_forall_lt_iff fun i => ?_
  rw [lt_frameCount_iff width Nat.one_pos]
  omega

theorem frameCount_mul_le (moves : 0 < hop) (overlap : hop ≤ width) (length : ℕ) :
    frameCount width hop length * hop ≤ length := by
  cases count : frameCount width hop length with
  | zero => omega
  | succ last =>
    have := (lt_frameCount_iff width moves length last).mp (by omega)
    rw [Nat.succ_mul]
    omega

/-- The frames of a longer stream are those of its head, then those of what the head carries on. -/
theorem frameCount_add (moves : 0 < hop) (overlap : hop ≤ width) (length more : ℕ) :
    frameCount width hop (length + more) = frameCount width hop length +
      frameCount width hop (length - frameCount width hop length * hop + more) := by
  have within := frameCount_mul_le moves overlap length
  refine eq_of_forall_lt_iff fun i => ?_
  by_cases head : i < frameCount width hop length
  · have := (lt_frameCount_iff width moves length i).mp head
    have := (lt_frameCount_iff width moves (length + more) i).mpr (by omega)
    omega
  · obtain ⟨j, rfl⟩ := Nat.exists_eq_add_of_le (not_lt.mp head)
    rw [Nat.add_lt_add_iff_left, lt_frameCount_iff width moves, lt_frameCount_iff width moves, Nat.add_mul]
    omega

theorem frames_append (moves : 0 < hop) (overlap : hop ≤ width) (xs ys : List α) :
    frames width hop (xs ++ ys) = frames width hop xs ++
      frames width hop (xs.drop (frameCount width hop xs.length * hop) ++ ys) := by
  have within := frameCount_mul_le moves overlap xs.length
  have count := frameCount_add moves overlap xs.length ys.length
  rw [frames, List.length_append, count, List.range_add, List.map_append, List.map_map]
  congr 1
  · refine List.map_congr_left fun i member => ?_
    have fits := (lt_frameCount_iff width moves xs.length i).mp (List.mem_range.mp member)
    rw [List.drop_append_of_le_length (by omega), List.take_append_of_le_length (by rw [List.length_drop]; omega)]
  · rw [frames, List.length_append, List.length_drop]
    refine List.map_congr_left fun i _ => ?_
    rw [Function.comp_apply, Nat.add_mul, ← List.drop_drop, List.drop_append_of_le_length within]

/-- The frames that do not overlap are the whole ones of the stream, cut after another. -/
theorem frames_self_flatten (positive : 0 < width) (xs : List α) :
    (frames width width xs).flatten = xs.take (width * (xs.length / width)) := by
  rw [frames, frameCount_self positive]
  generalize xs.length / width = count
  induction count with
  | zero => rfl
  | succ count ih =>
    rw [List.range_succ, List.map_append, List.flatten_append, ih, Nat.mul_succ, List.take_add, Nat.mul_comm width]
    simp only [List.map_singleton, List.flatten_singleton]

theorem length_of_mem_frames (moves : 0 < hop) {xs frame : List α} (member : frame ∈ frames width hop xs) :
    frame.length = width := by
  obtain ⟨i, less, rfl⟩ := List.mem_map.mp member
  have fits := (lt_frameCount_iff width moves xs.length i).mp (List.mem_range.mp less)
  rw [List.length_take, List.length_drop]
  omega

theorem framed_seamless (moves : 0 < hop) (overlap : hop ≤ width) (f : List α → β) :
    Seamless (fun carried => frameCount width hop carried.length = 0) (framed width hop f) where
  nil {carried} short := by
    rw [framed, frames, List.append_nil, short, Nat.zero_mul, List.drop_zero]
    rfl
  keeps {carried} _ xs := by
    have count := frameCount_add moves overlap (carried ++ xs).length 0
    rw [framed, List.length_drop]
    simp only [Nat.add_zero] at count
    omega
  append {carried} _ xs ys := by
    have within := frameCount_mul_le moves overlap (carried ++ xs).length
    have count := frameCount_add moves overlap (carried ++ xs).length ys.length
    have size : (carried ++ xs ++ ys).length = (carried ++ xs).length + ys.length := List.length_append
    have rest : ((carried ++ xs).drop (frameCount width hop (carried ++ xs).length * hop) ++ ys).length =
        (carried ++ xs).length - frameCount width hop (carried ++ xs).length * hop + ys.length := by
      rw [List.length_append, List.length_drop]
    simp only [framed]
    rw [← List.append_assoc, frames_append moves overlap, List.map_append]
    congr 1
    rw [size, rest, count, Nat.add_mul, ← List.drop_drop, List.drop_append_of_le_length within]

end Frames

/-! Keeping one sample of `d`. -/

/-- `xs[skip::d]`. -/
def everyNth (d : ℕ) : ℕ → List α → List α
  | _, [] => []
  | 0, x :: xs => x :: everyNth d (d - 1) xs
  | skip + 1, _ :: xs => everyNth d skip xs

/-- The stage of `everyNth`: how many samples it skips before the next it keeps. -/
def decimate (d : ℕ) : Stage ℕ α α := scan fun skip x => if skip = 0 then (d - 1, [x]) else (skip - 1, [])

theorem decimate_eq {d : ℕ} (positive : 0 < d) (skip : ℕ) (xs : List α) : xs.length ≤ skip + d * (everyNth d skip xs).length ∧
    decimate d skip xs = (skip + d * (everyNth d skip xs).length - xs.length, everyNth d skip xs) := by
  induction xs generalizing skip with
  | nil => exact ⟨Nat.zero_le _, by simp [decimate, scan, everyNth]⟩
  | cons x xs ih =>
    cases skip with
    | zero =>
      obtain ⟨least, rest⟩ := ih (d - 1)
      rw [decimate] at rest
      rw [everyNth, List.length_cons, List.length_cons, Nat.mul_succ]
      refine ⟨by omega, ?_⟩
      rw [decimate, scan, if_pos rfl, rest, List.singleton_append]
      congr 1
      omega
    | succ skip =>
      obtain ⟨least, rest⟩ := ih skip
      rw [decimate] at rest
      rw [everyNth, List.length_cons]
      refine ⟨by omega, ?_⟩
      rw [decimate, scan, if_neg (Nat.succ_ne_zero _), Nat.add_sub_cancel, rest, List.nil_append]
      congr 1
      omega

/-! Pairing each sample with the one before it. -/

/-- Each sample with the one before; the very first with itself. -/
def withPrevious (f : α → α → β) : Stage (Option α) α β := each fun previous x => (some x, f x (previous.getD x))

theorem withPrevious_eq (f : α → α → β) (previous : Option α) (x : α) (xs : List α) :
    withPrevious f previous (x :: xs) =
      ((x :: xs).getLast?, List.zipWith f (x :: xs) (previous.getD x :: (x :: xs).dropLast)) := by
  induction xs generalizing previous x with
  | nil => rfl
  | cons y ys ih =>
    have rest := ih (some x) y
    rw [withPrevious] at rest ⊢
    rw [each_cons, rest]
    rfl

/-! Reading the line through the samples at positions `step` apart. -/

section Line

variable {R : Type*} [Field R] {step pos : ℚ}

/-- The line through the samples, at a position between the first and the last. -/
def lineAt (xs : List R) (t : ℚ) : R :=
  xs.getD ⌊t⌋.toNat 0 + ((Int.fract t : ℚ) : R) * (xs.getD (⌊t⌋.toNat + 1) 0 - xs.getD ⌊t⌋.toNat 0)

/-- How many of the positions `pos + step * k` the line of `length` samples reaches. -/
def gridCount (step pos : ℚ) (length : ℕ) : ℕ :=
  if (length : ℚ) - 1 < pos then 0 else ⌊((length : ℚ) - 1 - pos) / step⌋.toNat + 1

/-- The last sample is carried, so that the line runs on; `s.1` is the next position, counted from the next sample. -/
def readLine (step : ℚ) : Stage (ℚ × Option R) R R := fun s xs =>
  let all := s.2.toList ++ xs
  let pos := s.1 + s.2.toList.length
  ((pos + step * gridCount step pos all.length - all.length, all.getLast?),
    (List.range (gridCount step pos all.length)).map fun k : ℕ => lineAt all (pos + step * k))

theorem lt_gridCount_iff (forward : 0 < step) (pos : ℚ) (length k : ℕ) :
    k < gridCount step pos length ↔ pos + step * k ≤ (length : ℚ) - 1 := by
  have ahead : 0 ≤ step * k := mul_nonneg forward.le (Nat.cast_nonneg k)
  by_cases short : (length : ℚ) - 1 < pos
  · rw [gridCount, if_pos short]
    refine iff_of_false (Nat.not_lt_zero k) ?_
    linarith
  · have room : 0 ≤ ⌊((length : ℚ) - 1 - pos) / step⌋ :=
      Int.floor_nonneg.mpr (div_nonneg (by linarith) forward.le)
    rw [gridCount, if_neg short, Nat.lt_succ_iff, Int.le_toNat room, Int.le_floor, le_div_iff₀ forward, Int.cast_natCast,
      mul_comm]
    constructor <;> intro held <;> linarith

/-- The positions that a longer line reaches are those of its head, then those left for what the head carries on. -/
theorem gridCount_add (forward : 0 < step) (pos : ℚ) (length more : ℕ) : gridCount step pos (length + more) =
    gridCount step pos length + gridCount step (pos + step * gridCount step pos length - length + 1) (1 + more) := by
  refine eq_of_forall_lt_iff fun k => ?_
  by_cases head : k < gridCount step pos length
  · have reached := (lt_gridCount_iff forward pos length k).mp head
    have : k < gridCount step pos (length + more) := by
      rw [lt_gridCount_iff forward, Nat.cast_add]
      have : (0 : ℚ) ≤ more := Nat.cast_nonneg more
      linarith
    omega
  · obtain ⟨j, rfl⟩ := Nat.exists_eq_add_of_le (not_lt.mp head)
    rw [Nat.add_lt_add_iff_left, lt_gridCount_iff forward, lt_gridCount_iff forward]
    push_cast
    constructor <;> intro held <;> linarith

theorem gridCount_pos_past (forward : 0 < step) (pos : ℚ) (length : ℕ) :
    (length : ℚ) - 1 < pos + step * gridCount step pos length :=
  not_le.mp fun within => lt_irrefl _ ((lt_gridCount_iff forward pos length _).mpr within)

theorem lineAt_append_of_le {xs ys : List R} {t : ℚ} (start : 0 ≤ t) (within : t ≤ (xs.length : ℚ) - 1) :
    lineAt (xs ++ ys) t = lineAt xs t := by
  obtain ⟨j, floor⟩ := Int.eq_ofNat_of_zero_le (Int.floor_nonneg.mpr start)
  have below : (j : ℚ) ≤ t := by
    have := Int.floor_le t
    rwa [floor] at this
  have inside : j + 1 ≤ xs.length := by
    have : (j : ℚ) + 1 ≤ xs.length := by linarith
    exact_mod_cast this
  rw [lineAt, lineAt, floor, Int.toNat_natCast, List.getD_append _ _ _ _ inside]
  by_cases last : j + 1 < xs.length
  · rw [List.getD_append _ _ _ _ last]
  · have whole : Int.fract t = 0 := by
      have size : (xs.length : ℚ) = j + 1 := by exact_mod_cast (le_antisymm inside (not_lt.mp last)).symm
      rw [Int.fract, floor, sub_eq_zero]
      exact le_antisymm (by rw [size] at within; push_cast; linarith) below
    rw [whole, Rat.cast_zero, zero_mul, zero_mul]

theorem lineAt_append_add {xs ys : List R} {t : ℚ} (start : 0 ≤ t) : lineAt (xs ++ ys) (xs.length + t) = lineAt ys t := by
  obtain ⟨j, floor⟩ := Int.eq_ofNat_of_zero_le (Int.floor_nonneg.mpr start)
  have shifted : ⌊(xs.length : ℚ) + t⌋.toNat = xs.length + j := by
    rw [Int.floor_natCast_add, floor]
    omega
  rw [lineAt, lineAt, shifted, Int.fract_natCast_add, floor, Int.toNat_natCast, Nat.add_assoc,
    List.getD_append_right _ _ _ _ (by omega), List.getD_append_right _ _ _ _ (by omega)]
  simp only [Nat.add_sub_cancel_left]

/-- The next position lies past the carried sample, and not before the first sample of all. -/
structure Ahead (s : ℚ × Option R) : Prop where
  past : -1 < s.1
  start : 0 ≤ s.1 + s.2.toList.length

theorem readLine_nil {s : ℚ × Option R} (ahead : Ahead s) : readLine step s [] = (s, []) := by
  have none : gridCount step (s.1 + s.2.toList.length) s.2.toList.length = 0 := if_pos (by linarith [ahead.past])
  have carried : s.2.toList.getLast? = s.2 := by cases s.2 <;> rfl
  rw [readLine, List.append_nil, none, carried, Nat.cast_zero, mul_zero, add_zero, add_sub_cancel_right]
  rfl

theorem readLine_concat (s : ℚ × Option R) (init : List R) (v : R) :
    readLine step s (init ++ [v]) =
      ((s.1 + s.2.toList.length + step * gridCount step (s.1 + s.2.toList.length) ((s.2.toList ++ init).length + 1) -
          ((s.2.toList ++ init).length + 1 : ℕ), some v),
        (List.range (gridCount step (s.1 + s.2.toList.length) ((s.2.toList ++ init).length + 1))).map fun k : ℕ =>
          lineAt (s.2.toList ++ init ++ [v]) (s.1 + s.2.toList.length + step * k)) := by
  rw [readLine, ← List.append_assoc, List.getLast?_concat, List.length_append, List.length_singleton]

theorem readLine_carried (pos : ℚ) (v : R) (ys : List R) :
    readLine step (pos, some v) ys =
      ((pos + 1 + step * gridCount step (pos + 1) (1 + ys.length) - (1 + ys.length : ℕ), (v :: ys).getLast?),
        (List.range (gridCount step (pos + 1) (1 + ys.length))).map fun k : ℕ =>
          lineAt (v :: ys) (pos + 1 + step * k)) := by
  rw [readLine, Option.toList_some, List.length_singleton, Nat.cast_one, List.singleton_append, List.length_cons,
    Nat.add_comm ys.length 1]

theorem readLine_seamless (forward : 0 < step) : Seamless Ahead (readLine (R := R) step) where
  nil := readLine_nil
  keeps {s} ahead xs := by
    rcases List.eq_nil_or_concat' xs with rfl | ⟨init, v, rfl⟩
    · rw [readLine_nil ahead]
      exact ahead
    · have past := gridCount_pos_past forward (s.1 + s.2.toList.length) ((s.2.toList ++ init).length + 1)
      rw [readLine_concat]
      refine ⟨by linarith, ?_⟩
      rw [Option.toList_some, List.length_singleton, Nat.cast_one]
      linarith
  append {s} ahead xs ys := by
    rcases List.eq_nil_or_concat' xs with rfl | ⟨init, v, rfl⟩
    · rw [readLine_nil ahead, List.nil_append, List.nil_append]
    · have start := ahead.start
      have count := gridCount_add forward (s.1 + s.2.toList.length) ((s.2.toList ++ init).length + 1) ys.length
      have past := gridCount_pos_past forward (s.1 + s.2.toList.length) ((s.2.toList ++ init).length + 1)
      have reach := fun k => lt_gridCount_iff forward (s.1 + s.2.toList.length) ((s.2.toList ++ init).length + 1) k
      have whole : s.2.toList ++ (init ++ [v] ++ ys) = s.2.toList ++ init ++ v :: ys := by
        simp only [List.append_assoc, List.singleton_append]
      have size : (s.2.toList ++ init ++ v :: ys).length = (s.2.toList ++ init).length + 1 + ys.length := by
        rw [List.length_append, List.length_cons]
        omega
      rw [readLine_concat, readLine_carried, readLine, whole, size, count]
      generalize s.1 + (s.2.toList.length : ℚ) = pos at *
      generalize s.2.toList ++ init = head at *
      generalize gridCount step pos (head.length + 1) = c at *
      generalize gridCount step (pos + step * c - (head.length + 1 : ℕ) + 1) (1 + ys.length) = c' at *
      refine Prod.ext (Prod.ext ?_ ?_) ?_
      · push_cast
        ring
      · rw [List.getLast?_append, List.getLast?_cons, Option.some_or]
      · simp only [List.range_add, List.map_append, List.map_map]
        congr 1
        · refine List.map_congr_left fun k member => ?_
          have within := (reach k).mp (List.mem_range.mp member)
          rw [← List.singleton_append, ← List.append_assoc]
          refine lineAt_append_of_le (add_nonneg start (mul_nonneg forward.le (Nat.cast_nonneg k))) ?_
          rw [List.length_append, List.length_singleton]
          exact within
        · refine List.map_congr_left fun k _ => ?_
          have shift : pos + step * ((c + k : ℕ) : ℚ) =
              head.length + (pos + step * c - (head.length + 1 : ℕ) + 1 + step * k) := by
            push_cast
            ring
          rw [Function.comp_apply, shift]
          refine lineAt_append_add (add_nonneg ?_ (mul_nonneg forward.le (Nat.cast_nonneg k)))
          linarith

end Line

end Chunked
