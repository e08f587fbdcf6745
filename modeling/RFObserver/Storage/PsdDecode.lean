import RFObserver.Storage.AvgFold
import RFObserver.Storage.RowSums

namespace RFObserver
open Tally

/-- What a row adds to a bin's PSD sum. -/
def binValue (maxBins bin : Nat) (row : Option (List ℚ)) : ℚ := (binOf (decodePsdRow maxBins row) bin).getD 0

/-- What a row adds to a bin's count. -/
def binCount (maxBins bin : Nat) (row : Option (List ℚ)) : Nat :=
  if (binOf (decodePsdRow maxBins row) bin).isSome then 1 else 0

/-- The mean of the bins that a display bin stands for. -/
def binMean (maxBins bin : Nat) (p : List ℚ) : ℚ :=
  if maxBins < p.length then
    ((List.range (p.length / maxBins)).map fun k => p.getD (bin * (p.length / maxBins) + k) 0).sum /
      ((p.length / maxBins : ℕ) : ℚ)
  else p.getD bin 0

theorem binOf_decode (maxBins bin : Nat) (p : List ℚ) :
    binOf (decodePsdRow maxBins (some p)) bin =
      if bin < maxBins ∧ bin < p.length then some (binMean maxBins bin p) else none := by
  unfold binOf decodePsdRow binMean
  by_cases empty : p.length = 0
  · simp [empty]
  · by_cases wide : maxBins < p.length
    · by_cases inside : bin < maxBins
      · simp [empty, wide, inside, groupMean, inside.trans wide]
      · simp [empty, wide, inside, groupMean]
    · by_cases inside : bin < p.length
      · have within : bin < maxBins := by omega
        simp [empty, wide, inside, within, List.getElem?_append_left]
      · have past : (p.map some).length ≤ bin := by simpa using inside
        by_cases within : bin - p.length < maxBins - p.length <;>
          simp [empty, wide, inside, List.getElem?_append_right past, within]

theorem binValue_none (maxBins bin : Nat) : binValue maxBins bin none = 0 := rfl

theorem binCount_none (maxBins bin : Nat) : binCount maxBins bin none = 0 := rfl

theorem binValue_some (maxBins bin : Nat) (p : List ℚ) :
    binValue maxBins bin (some p) = if bin < maxBins ∧ bin < p.length then binMean maxBins bin p else 0 := by
  rw [binValue, binOf_decode]
  split <;> rfl

theorem binCount_some (maxBins bin : Nat) (p : List ℚ) :
    binCount maxBins bin (some p) = if bin < maxBins ∧ bin < p.length then 1 else 0 := by
  rw [binCount, binOf_decode]
  split <;> rfl

theorem getD_zipWith {p q : List ℚ} (same : p.length = q.length) (i : Nat) :
    (List.zipWith (· + ·) p q).getD i 0 = p.getD i 0 + q.getD i 0 := by
  by_cases inside : i < p.length <;> simp [List.getD_eq_getElem?_getD, inside, same ▸ inside]

theorem getD_map_mul (p : List ℚ) (c : ℚ) (i : Nat) : (p.map (· * c)).getD i 0 = p.getD i 0 * c := by
  by_cases inside : i < p.length <;> simp [List.getD_eq_getElem?_getD, inside]

/-- Rows of one width are decoded alike, so what they add adds up. -/
theorem binValue_add {p q : List ℚ} (same : p.length = q.length) (maxBins bin : Nat) :
    binValue maxBins bin (some (List.zipWith (· + ·) p q)) =
      binValue maxBins bin (some p) + binValue maxBins bin (some q) := by
  have width : (List.zipWith (fun a b : ℚ => a + b) p q).length = p.length := by simp [same]
  simp only [binValue_some, width, ← same]
  by_cases inside : bin < maxBins ∧ bin < p.length
  · simp only [if_pos inside, binMean, width, ← same, getD_zipWith same, List.sum_map_add]
    split
    · exact add_div ..
    · rfl
  · simp [inside]

theorem binValue_mul (p : List ℚ) (c : ℚ) (maxBins bin : Nat) :
    binValue maxBins bin (some (p.map (· * c))) = binValue maxBins bin (some p) * c := by
  simp only [binValue_some, List.length_map, binMean, getD_map_mul, List.sum_map_mul_right]
  split
  · split
    · ring
    · rfl
  · simp

/-- The decoded sum of rows of one width is the sum of the decoded rows. -/
theorem binValue_tally {width : Nat} {ws : List AvgWindow} (wide : AvgWindow.Wide width ws) (maxBins bin : Nat) :
    binValue maxBins bin (tally addRows none AvgWindow.powers ws) =
      tally (· + ·) 0 (fun w => binValue maxBins bin w.powers) ws := by
  induction ws with
  | nil => rfl
  | cons w ws ih =>
    have later : AvgWindow.Wide width ws := fun w' member => wide w' (List.mem_cons_of_mem _ member)
    have first := wide w (List.mem_cons_self ..)
    rw [tally_cons, tally_cons, ← ih later]
    cases row : w.powers with
    | none => rw [id_op addRows none, binValue_none, zero_add]
    | some p =>
      have sumWide := later.tally
      cases sum : tally addRows none AvgWindow.powers ws with
      | none => rw [op_id addRows none, binValue_none, add_zero]
      | some q =>
        rw [row] at first
        rw [sum] at sumWide
        exact binValue_add ((first p rfl).trans (sumWide q rfl).symm) maxBins bin

theorem decode_isSome (maxBins : Nat) (p : List ℚ) : (decodePsdRow maxBins (some p)).isSome = decide (p.length ≠ 0) := by
  unfold decodePsdRow
  by_cases empty : p.length = 0
  · simp [empty]
  · by_cases wide : maxBins < p.length <;> simp [empty, wide]

namespace StoredRow

/-- The mean PSD row that the reader takes. -/
def psd (r : StoredRow) : Option (List ℚ) := if 0 < r.nPsd then r.psdMean else none

theorem tierPsd_eq (maxBins : Nat) (r : StoredRow) : WaterfallFold.tierPsd maxBins r = decodePsdRow maxBins r.psd := by
  unfold WaterfallFold.tierPsd psd
  split <;> rfl

section Wide

variable {level width : Nat} {r : StoredRow} (exact : r.Exact level) (wide : AvgWindow.Wide width r.windows)
include exact wide

/-- Times its count the mean is the sum of the windows' rows. -/
theorem psd_sum : (r.psd.map fun mean => mean.map (· * (r.nPsd : ℚ))) = tally addRows none AvgWindow.powers r.windows := by
  have sum : (r.reopen r.tuning).psdSum = tally addRows none AvgWindow.powers r.windows :=
    (TierRow.Exact.psd exact width wide).2
  rw [← sum]
  unfold psd StoredRow.reopen
  by_cases none : r.nPsd = 0
  · simp [none]
  · simp [none, Nat.pos_of_ne_zero none]

theorem psd_value (maxBins bin : Nat) : binValue maxBins bin r.psd * r.nPsd =
    tally (· + ·) 0 (fun w : AvgWindow => binValue maxBins bin w.powers) r.windows := by
  rw [← binValue_tally wide, ← psd_sum exact wide]
  cases r.psd with
  | none => exact zero_mul _
  | some mean => exact (binValue_mul mean r.nPsd maxBins bin).symm

/-- What depends on a row's width only is counted alike. -/
theorem psd_shape {h : Option (List ℚ) → Nat} {k : Nat → Nat} (noRow : h none = 0)
    (row : ∀ p, h (some p) = k p.length) :
    h r.psd * r.nPsd = tally (· + ·) 0 (fun w : AvgWindow => h w.powers) r.windows := by
  have windows : ∀ w ∈ r.windows, h w.powers = k width * AvgWindow.psdCount w := fun w member => by
    have rowWide := wide w member
    cases powers : w.powers with
    | none => simp [AvgWindow.psdCount, powers, noRow]
    | some p =>
      rw [powers] at rowWide
      simp [AvgWindow.psdCount, powers, row, rowWide p rfl]
  have total : k width * tally (· + ·) 0 AvgWindow.psdCount r.windows =
      tally (· + ·) 0 (fun w => k width * AvgWindow.psdCount w) r.windows :=
    tally_hom (· + ·) 0 (fun a b => Nat.mul_add (k width) a b) ..
  have count : r.nPsd = tally (· + ·) 0 AvgWindow.psdCount r.windows := (TierRow.Exact.psd exact width wide).1
  have sum : (r.reopen r.tuning).psdSum = tally addRows none AvgWindow.powers r.windows :=
    (TierRow.Exact.psd exact width wide).2
  have empty : r.nPsd = 0 ↔ (r.reopen r.tuning).psdSum = none := TierRow.Exact.empty exact
  have sumWide := wide.tally
  rw [sum, ← psd_sum exact wide] at empty
  rw [← psd_sum exact wide] at sumWide
  rw [tally_congr (· + ·) 0 windows, ← total, ← count]
  cases psd : r.psd with
  | none =>
    rw [psd] at empty
    rw [empty.mpr rfl]
    rfl
  | some mean =>
    rw [psd] at sumWide
    have meanWide : mean.length = width := by simpa using sumWide _ rfl
    rw [row, meanWide]

end Wide
end StoredRow

theorem foldl_merge_some {op : ℚ → ℚ → ℚ} (p : List ℚ) (a : ℚ) :
    (p.map some).foldl (Option.merge op) (some a) = some (p.foldl op a) := by
  induction p generalizing a with
  | nil => rfl
  | cons b p ih => exact ih (op a b)

theorem foldl_merge_none {op : ℚ → ℚ → ℚ} (count : Nat) (a : Option ℚ) :
    (List.replicate count none).foldl (Option.merge op) a = a := by
  induction count generalizing a with
  | zero => rfl
  | succ count ih =>
    rw [List.replicate_succ, List.foldl_cons, Option.merge_none_right]
    exact ih a

/-- The downsampled row that a colour range is taken over. -/
def colorRow (p : List ℚ) : List ℚ := if colorBins < p.length then groupMean p colorBins else p

theorem decode_colorRow (p : List ℚ) : ∃ count,
    (decodePsdRow colorBins (some p)).getD [] = (colorRow p).map some ++ List.replicate count none := by
  unfold decodePsdRow colorRow
  by_cases empty : p.length = 0
  · exact ⟨0, by simp [List.eq_nil_of_length_eq_zero empty]⟩
  · by_cases wide : colorBins < p.length
    · exact ⟨0, by simp [empty, wide]⟩
    · exact ⟨colorBins - p.length, by simp [empty, wide]⟩

theorem colorRange_eq (p : List ℚ) :
    (colorRange p colorBins).map Prod.fst = (colorRow p).min? ∧ (colorRange p colorBins).map Prod.snd = (colorRow p).max? := by
  simp only [colorRange, colorRow]
  generalize (if colorBins < p.length then groupMean p colorBins else p) = q
  cases q with
  | nil => exact ⟨rfl, rfl⟩
  | cons a l => exact ⟨rfl, rfl⟩

/-- At the colour range's own width the decoded row has that range. -/
theorem leastOf_decode (p : List ℚ) :
    leastOf ((decodePsdRow colorBins (some p)).getD []) = (colorRange p colorBins).map Prod.fst := by
  obtain ⟨count, decoded⟩ := decode_colorRow p
  rw [leastOf, decoded, List.foldl_append, foldl_merge_none, (colorRange_eq p).1]
  cases colorRow p with
  | nil => rfl
  | cons a l => exact (foldl_merge_some l a).trans List.min?_cons'.symm

theorem greatestOf_decode (p : List ℚ) :
    greatestOf ((decodePsdRow colorBins (some p)).getD []) = (colorRange p colorBins).map Prod.snd := by
  obtain ⟨count, decoded⟩ := decode_colorRow p
  rw [greatestOf, decoded, List.foldl_append, foldl_merge_none, (colorRange_eq p).2]
  cases colorRow p with
  | nil => rfl
  | cons a l => exact (foldl_merge_some l a).trans List.max?_cons'.symm

end RFObserver
