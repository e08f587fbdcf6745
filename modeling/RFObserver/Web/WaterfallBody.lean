import RFObserver.Lib.FloatBits
import RFObserver.Lib.LittleEndian
import RFObserver.Lib.OptionList
import RFObserver.Storage.WaterfallQuery

/-! The binary body of the Dashboard's waterfall, and its reader in the browser. -/

namespace RFObserver
open Binary64 LittleEndian OptionList

/-- A row of an answer, its numbers as doubles. -/
structure AnswerBucket where
  startEpoch : Double
  durationSec : Double
  count : ℕ
  pwrAvg : Double
  pwrMax : Double
  pwrMedian : Double
  pwrStd : Double
  kurtosis : Double

/-- An answer of `query_avg_waterfall` with its numbers as doubles; each row has a PSD row. -/
structure WaterfallAnswer where
  bucketSec : Double
  numBins : ℕ
  minDb : Double
  maxDb : Double
  totalWindows : ℕ
  freqStartHz : Double
  freqStepHz : Double
  mode : ℕ
  buckets : List AnswerBucket
  psdRows : List (List Double)
  rows : psdRows.length = buckets.length
  width : ∀ row ∈ psdRows, row.length = numBins

section Pack

def waterfallMagic : ℤ := 0x52464F42

def waterfallVersion : ℤ := 4

def waterfallNan : ℤ := -32768

/-- `i` of `struct.pack`, which refuses what is no 32-bit integer. -/
def packInt (x : ℤ) : Option (List UInt8) :=
  if -2 ^ 31 ≤ x ∧ x < 2 ^ 31 then some (put 4 (BitVec.ofInt (8 * 4) x)) else none

/-- `d` of `struct.pack` -/
def packDouble (d : Double) : List UInt8 := put 8 d.bits

/-- A PSD value in steps of 0.1 dB. -/
def tenths (x : Number) : ℤ :=
  match x.mul (.finite 10) with
  | .nan => waterfallNan
  | .infinite negative => if negative then -32767 else 32767
  | .finite y => max (-32767) (min 32767 (roundHalfEven y))

def packBucket (b : AnswerBucket) : Option (List UInt8) :=
  (float b.count).map fun count =>
    [b.startEpoch, b.durationSec, count, b.pwrAvg, b.pwrMax, b.pwrMedian, b.pwrStd, b.kurtosis].flatMap packDouble

def packPsd (row : List Double) : List UInt8 :=
  row.flatMap fun x => put 2 (BitVec.ofInt (8 * 2) (tenths x.number))

/-- `_pack_waterfall` -/
def packWaterfall (r : WaterfallAnswer) : Option (List UInt8) :=
  ([waterfallMagic, waterfallVersion, r.buckets.length, r.numBins].mapM packInt).bind fun header =>
    (float r.totalWindows).bind fun total =>
      (r.buckets.mapM packBucket).map fun stats =>
        header.flatten ++
          ([r.bucketSec, r.minDb, r.maxDb, total, r.freqStartHz, r.freqStepHz].flatMap packDouble ++
            (r.psdRows.flatMap packPsd ++ stats.flatten))

end Pack

section Parse

/-- The stats of a row in the browser. -/
structure ShownBucket where
  startEpoch : Double
  durationSec : Double
  count : Double
  pwrAvg : Double
  pwrMax : Double
  pwrMedian : Double
  pwrStd : Double
  kurtosis : Double

structure ParsedWaterfall where
  bucketCount : ℤ
  numBins : ℤ
  bucketSec : Double
  minDb : Double
  maxDb : Double
  totalWindows : Double
  freqStartHz : Double
  freqStepHz : Double
  rows : List (List Number)
  stats : List ShownBucket
  freqs : List Number
  isRaw : Bool

/-- `MAX_ROWS` of the page, which it asks for as `max_rows`. -/
def pageRows : ℕ := 600

def getInt32 (buf : List UInt8) (off : ℕ) : Option ℤ := (get 4 buf off).map BitVec.toInt

def getFloat64 (buf : List UInt8) (off : ℕ) : Option Double := (get 8 buf off).map Double.mk

/-- The number of a 16-bit step, -32768 being no data. -/
def stepNumber (div : ℕ) (q : ℤ) : Number := if q = -32768 then .nan else .round (q / div)

/-- A row of an `Int16Array`; no array has a negative length. -/
def int16Row (buf : List UInt8) (numBins : ℤ) (div off : ℕ) : Option (List Number) :=
  if numBins < 0 then none else (view 2 buf off numBins.toNat).map fun q => q.map fun v => stepNumber div v.toInt

/-- A row of a `Float32Array`. -/
def float32Row (buf : List UInt8) (numBins : ℤ) (off : ℕ) : Option (List Number) :=
  if numBins < 0 then none else (view 4 buf off numBins.toNat).map fun q => q.map fun v => single.number v.toNat

def parseBucket (buf : List UInt8) (off : ℕ) : Option ShownBucket := do
  let startEpoch ← getFloat64 buf off
  let durationSec ← getFloat64 buf (off + 8)
  let count ← getFloat64 buf (off + 16)
  let pwrAvg ← getFloat64 buf (off + 24)
  let pwrMax ← getFloat64 buf (off + 32)
  let pwrMedian ← getFloat64 buf (off + 40)
  let pwrStd ← getFloat64 buf (off + 48)
  let kurtosis ← getFloat64 buf (off + 56)
  some ⟨startEpoch, durationSec, count, pwrAvg, pwrMax, pwrMedian, pwrStd, kurtosis⟩

/-- `parseWaterfall`; a read beyond the body, or a view that is not aligned, is none. -/
def parseWaterfall (buf : List UInt8) : Option ParsedWaterfall := do
  let version ← getInt32 buf 4
  let rowCount ← getInt32 buf 8
  let numBins ← getInt32 buf 12
  let bucketSec ← getFloat64 buf 16
  let minDb ← getFloat64 buf 24
  let maxDb ← getFloat64 buf 32
  let totalWindows ← getFloat64 buf 40
  let freqStartHz ← getFloat64 buf 48
  let freqStepHz ← getFloat64 buf 56
  let size := if 3 ≤ version then 2 else 4
  let row := if 3 ≤ version then int16Row buf numBins (if 4 ≤ version then 10 else 100) else float32Row buf numBins
  let rows ← records (numBins.toNat * size) row rowCount.toNat 64
  let stats ← records 64 (parseBucket buf) rowCount.toNat (64 + rowCount.toNat * (numBins.toNat * size))
  let freqs := (List.range numBins.toNat).map fun i : ℕ => freqStartHz.number.add (.mul (.finite i) freqStepHz.number)
  let windowCount := (stats.map fun s => s.count.number).foldl Number.add (.finite 0)
  some ⟨rowCount, numBins, bucketSec, minDb, maxDb, totalWindows, freqStartHz, freqStepHz, rows, stats, freqs,
    windowCount.le (.finite pageRows)⟩

end Parse

/-- A whole number as the double it was sent as, itself up to 53 bits. -/
def SentAs (n : ℕ) (d : Double) : Prop := d.number = .finite (nearest n) ∧ (n < 2 ^ 53 → d.number = .finite n)

structure ShowsBucket (b : AnswerBucket) (s : ShownBucket) : Prop where
  startEpoch : s.startEpoch = b.startEpoch
  durationSec : s.durationSec = b.durationSec
  count : SentAs b.count s.count
  pwrAvg : s.pwrAvg = b.pwrAvg
  pwrMax : s.pwrMax = b.pwrMax
  pwrMedian : s.pwrMedian = b.pwrMedian
  pwrStd : s.pwrStd = b.pwrStd
  kurtosis : s.kurtosis = b.kurtosis

/-- A value is shown as a whole number of tenths: half a tenth off at most
(and what a double's product is off), and no further out than 3276.7. -/
inductive ShowsValue : Number → Number → Prop
  | nan : ShowsValue .nan .nan
  | infinite (negative : Bool) :
    ShowsValue (.infinite negative) (.finite (nearest ((if negative then -32767 else 32767 : ℤ) / 10)))
  | finite {x : ℚ} {k : ℤ} (bound : |k| ≤ 32767) (near : |x| ≤ 32767 / 10 → |x - k / 10| ≤ 1 / 20 + power (-42))
    (high : 32767 / 10 ≤ x → k = 32767) (low : x ≤ -32767 / 10 → k = -32767) :
    ShowsValue (.finite x) (.finite (nearest (k / 10)))

/-- The page holds the answer. -/
structure ShowsAnswer (r : WaterfallAnswer) (p : ParsedWaterfall) : Prop where
  bucketCount : p.bucketCount = r.buckets.length
  numBins : p.numBins = r.numBins
  bucketSec : p.bucketSec = r.bucketSec
  minDb : p.minDb = r.minDb
  maxDb : p.maxDb = r.maxDb
  totalWindows : SentAs r.totalWindows p.totalWindows
  freqStartHz : p.freqStartHz = r.freqStartHz
  freqStepHz : p.freqStepHz = r.freqStepHz
  rows : List.Forall₂ (List.Forall₂ fun x v => ShowsValue x.number v) r.psdRows p.rows
  stats : List.Forall₂ ShowsBucket r.buckets p.stats

theorem sentAs_float {n : ℕ} {d : Double} (made : float n = some d) : SentAs n d := by
  have number := number_float made
  refine ⟨number, fun small => ?_⟩
  rw [number, nearest_whole small]

theorem tenths_bounds (x : Number) : -2 ^ 15 ≤ tenths x ∧ tenths x < 2 ^ 15 := by
  unfold tenths
  split
  · decide
  · split <;> decide
  · constructor <;> omega

theorem stepNumber_tenth {k : ℤ} (bound : |k| ≤ 32767) : stepNumber 10 k = .finite (nearest (k / 10)) := by
  have inside : k ≠ -32768 := by
    rintro rfl
    exact absurd bound (by decide)
  rw [stepNumber, if_neg inside]
  refine round_small (n := 3277) (by decide) ?_
  have size : |(k : ℚ)| ≤ 32767 := by exact_mod_cast bound
  rw [Nat.cast_ofNat, abs_div, abs_of_pos (by norm_num : (0 : ℚ) < 10)]
  linarith

theorem times_ten_le {x : ℚ} (within : |x| ≤ 32767 / 10) : |x * 10| ≤ (32767 : ℤ) := by
  rw [abs_mul, abs_of_pos (by norm_num : (0 : ℚ) < 10), Int.cast_ofNat]
  linarith

/-- A value within the range is within half a tenth of its whole number of tenths. -/
theorem tenths_near {x : ℚ} (within : |x| ≤ 32767 / 10) {k : ℤ}
    (is_ : k = max (-32767) (min 32767 (roundHalfEven (nearest (x * 10))))) : |x - k / 10| ≤ 1 / 20 + power (-42) := by
  obtain ⟨y, isY⟩ : ∃ y, nearest (x * 10) = y := ⟨_, rfl⟩
  have product := times_ten_le within
  have bounded : |y| ≤ (32767 : ℤ) := isY ▸ nearest_abs_le product (by decide)
  obtain ⟨low, high⟩ := abs_le.mp bounded
  have least : -32767 ≤ roundHalfEven y := by
    have mono := RoundHalfEven.mono (x := ((-32767 : ℤ) : ℚ)) (by exact_mod_cast low)
    rwa [RoundHalfEven.of_int] at mono
  have greatest : roundHalfEven y ≤ 32767 := by
    have mono := RoundHalfEven.mono high
    rwa [RoundHalfEven.of_int] at mono
  have rounded : k = roundHalfEven y := by rw [is_, isY, min_eq_right greatest, max_eq_right least]
  have small : |x * 10| < power 15 := by
    have size : power 15 = 32768 := by
      unfold power
      norm_num
    rw [size]
    exact product.trans_lt (by norm_num)
  have last : ulp (x * 10) / 2 ≤ power (15 - 53) / 2 :=
    div_le_div_of_nonneg_right (ulp_le_of_lt (by decide) small) (by norm_num)
  have first := abs_le.mp ((nearest_error (x * 10)).trans last)
  have second := abs_le.mp (RoundHalfEven.abs_error_le y)
  have unit : power (15 - 53) / 2 / 10 ≤ power (-42) := by
    unfold power
    norm_num
  rw [isY] at first
  rw [rounded, abs_le]
  constructor <;> linarith [first.1, first.2, second.1, second.2]

theorem showsValue_tenths (x : Number) : ShowsValue x (stepNumber 10 (tenths x)) := by
  cases x with
  | nan => exact .nan
  | infinite negative =>
    have product : (Number.infinite negative).mul (.finite 10) = .infinite negative := by
      cases negative <;> rfl
    have steps : tenths (.infinite negative) = if negative then -32767 else 32767 := by rw [tenths, product]
    rw [steps, stepNumber_tenth (by split <;> decide)]
    exact .infinite negative
  | finite x =>
    have above (reached : 32767 / 10 ≤ x) : (32767 : ℕ) ≤ nearest (x * 10) :=
      le_nearest_of_le (by decide) (by push_cast; linarith)
    have below (reached : x ≤ -32767 / 10) : (32767 : ℕ) ≤ -nearest (x * 10) := by
      rw [← nearest_neg]
      exact le_nearest_of_le (by decide) (by push_cast; linarith)
    have product : (Number.finite x).mul (.finite 10) = .round (x * 10) := rfl
    unfold tenths
    rw [product, Number.round]
    by_cases large : power 1024 ≤ |nearest (x * 10)|
    · have bound : |if x * 10 < 0 then (-32767 : ℤ) else 32767| ≤ 32767 := by split <;> decide
      rw [if_pos large]
      simp only [decide_eq_true_eq]
      rw [stepNumber_tenth bound]
      refine .finite bound (fun within => absurd large (not_le.mpr ?_)) (fun reached => ?_) fun reached => ?_
      · refine (nearest_abs_le (times_ten_le within) (by decide)).trans_lt ?_
        have wide : power 15 ≤ power 1024 := power_le.mpr (by decide)
        refine lt_of_lt_of_le ?_ wide
        unfold power
        norm_num
      · rw [if_neg (by linarith)]
      · rw [if_pos (by linarith)]
    · rw [if_neg large]
      obtain ⟨k, is_⟩ : ∃ k, max (-32767) (min 32767 (roundHalfEven (nearest (x * 10)))) = k := ⟨_, rfl⟩
      have bound : |k| ≤ 32767 := abs_le.mpr (by omega)
      simp only [is_]
      rw [stepNumber_tenth bound]
      refine .finite bound (fun within => tenths_near within is_.symm) (fun reached => ?_) fun reached => ?_
      · have mono := RoundHalfEven.mono (x := ((32767 : ℤ) : ℚ)) (by exact_mod_cast above reached)
        rw [RoundHalfEven.of_int] at mono
        omega
      · have reached' : nearest (x * 10) ≤ ((-32767 : ℤ) : ℚ) := by
          have mirrored := below reached
          push_cast at mirrored ⊢
          linarith
        have mono := RoundHalfEven.mono reached'
        rw [RoundHalfEven.of_int] at mono
        omega

section Reads

variable {buf : List UInt8} {off i : ℕ}

theorem packDouble_wide (ds : List Double) : ∀ p ∈ ds.map packDouble, p.length = 8 := by
  intro p member
  obtain ⟨d, -, rfl⟩ := List.mem_map.mp member
  exact length_put 8 d.bits

theorem double_at {ds : List Double} (stands : At buf off (ds.flatMap packDouble)) {d : Double}
    (is_ : ds[i]? = some d) : getFloat64 buf (off + 8 * i) = some d := by
  rw [List.flatMap_def] at stands
  have piece : (ds.map packDouble)[i]? = some (packDouble d) := by rw [List.getElem?_map, is_, Option.map_some]
  rw [getFloat64, (stands.piece (packDouble_wide ds) piece).get, Option.map_some]

theorem packInt_eq {x : ℤ} {bytes : List UInt8} (packed : packInt x = some bytes) :
    (-2 ^ 31 ≤ x ∧ x < 2 ^ 31) ∧ bytes = put 4 (BitVec.ofInt (8 * 4) x) := by
  obtain ⟨inRange, made⟩ := Option.ite_none_right_eq_some.mp packed
  exact ⟨inRange, (Option.some.inj made).symm⟩

theorem packInts_wide {xs : List ℤ} {pieces : List (List UInt8)} (packed : xs.mapM packInt = some pieces) :
    ∀ p ∈ pieces, p.length = 4 :=
  forall₂_right ((mapM_forall₂ packed).imp fun _ _ one => (packInt_eq one).2 ▸ length_put 4 _)

theorem int_at {xs : List ℤ} {pieces : List (List UInt8)} (packed : xs.mapM packInt = some pieces)
    (stands : At buf off pieces.flatten) {x : ℤ} (is_ : xs[i]? = some x) : getInt32 buf (off + 4 * i) = some x := by
  have each := mapM_forall₂ packed
  obtain ⟨bytes, isPiece, one⟩ : ∃ bytes, pieces[i]? = some bytes ∧ packInt x = some bytes := by
    obtain ⟨inside, rfl⟩ := List.getElem?_eq_some_iff.mp is_
    have inside' : i < pieces.length := each.length_eq ▸ inside
    exact ⟨pieces[i], List.getElem?_eq_getElem inside', each.get inside inside'⟩
  obtain ⟨inRange, rfl⟩ := packInt_eq one
  rw [getInt32, (stands.piece (packInts_wide packed) isPiece).get, Option.map_some]
  rw [BitVec.toInt_ofInt_eq_self (by decide) inRange.1 inRange.2]

theorem length_packPsd (row : List Double) : (packPsd row).length = row.length * 2 := by
  have wide : ∀ p ∈ row.map fun x => put 2 (BitVec.ofInt (8 * 2) (tenths x.number)), p.length = 2 := by
    intro p member
    obtain ⟨x, -, rfl⟩ := List.mem_map.mp member
    exact length_put 2 _
  rw [packPsd, List.flatMap_def, length_flatten _ wide, List.length_map]

/-- A PSD row at an even offset reads as its tenths. -/
theorem psd_at {row : List Double} {numBins : ℕ} (width : row.length = numBins) (even : off % 2 = 0)
    (stands : At buf off (packPsd row)) :
    int16Row buf numBins 10 off = some (row.map fun x => stepNumber 10 (tenths x.number)) := by
  have words : packPsd row = ((row.map fun x => BitVec.ofInt (8 * 2) (tenths x.number)).map (put 2)).flatten := by
    rw [packPsd, List.flatMap_def, List.map_map]
    rfl
  rw [words] at stands
  have read := At.view even stands
  rw [List.length_map, width] at read
  rw [int16Row, if_neg (by omega), Int.toNat_natCast, read, Option.map_some, List.map_map]
  refine congrArg some (List.map_congr_left fun x _ => ?_)
  obtain ⟨low, high⟩ := tenths_bounds x.number
  rw [Function.comp_apply, BitVec.toInt_ofInt_eq_self (by decide) low high]

/-- The stats of a row read as they were packed. -/
theorem bucket_at (buf : List UInt8) {b : AnswerBucket} {bytes : List UInt8} (packed : packBucket b = some bytes) :
    ∃ s, ShowsBucket b s ∧ bytes.length = 64 ∧ ∀ off, At buf off bytes → parseBucket buf off = some s := by
  obtain ⟨count, made, rfl⟩ := Option.map_eq_some_iff.mp packed
  refine ⟨⟨b.startEpoch, b.durationSec, count, b.pwrAvg, b.pwrMax, b.pwrMedian, b.pwrStd, b.kurtosis⟩,
    ⟨rfl, rfl, sentAs_float made, rfl, rfl, rfl, rfl, rfl⟩, ?_, fun off stands => ?_⟩
  · rw [List.flatMap_def, length_flatten _ (packDouble_wide _)]
    rfl
  · have startEpoch : getFloat64 buf off = some b.startEpoch := double_at (i := 0) stands rfl
    have durationSec : getFloat64 buf (off + 8) = some b.durationSec := double_at (i := 1) stands rfl
    have sent : getFloat64 buf (off + 16) = some count := double_at (i := 2) stands rfl
    have pwrAvg : getFloat64 buf (off + 24) = some b.pwrAvg := double_at (i := 3) stands rfl
    have pwrMax : getFloat64 buf (off + 32) = some b.pwrMax := double_at (i := 4) stands rfl
    have pwrMedian : getFloat64 buf (off + 40) = some b.pwrMedian := double_at (i := 5) stands rfl
    have pwrStd : getFloat64 buf (off + 48) = some b.pwrStd := double_at (i := 6) stands rfl
    have kurtosis : getFloat64 buf (off + 56) = some b.kurtosis := double_at (i := 7) stands rfl
    rw [parseBucket, startEpoch, durationSec, sent, pwrAvg, pwrMax, pwrMedian, pwrStd, kurtosis]
    rfl

theorem buckets_at (buf : List UInt8) {buckets : List AnswerBucket} {pieces : List (List UInt8)}
    (packed : buckets.mapM packBucket = some pieces) :
    ∃ stats, List.Forall₂ ShowsBucket buckets stats ∧
      List.Forall₂ (fun piece s => piece.length = 64 ∧ ∀ off, True → At buf off piece → parseBucket buf off = some s)
        pieces stats := by
  have each := mapM_forall₂ packed
  clear packed
  induction each with
  | nil => exact ⟨[], .nil, .nil⟩
  | cons first _ ih =>
    obtain ⟨s, shows_, length, read⟩ := bucket_at buf first
    obtain ⟨stats, shown, reads⟩ := ih
    exact ⟨s :: stats, .cons shows_ shown, .cons ⟨length, fun off _ => read off⟩ reads⟩

end Reads

/-- Rows that count whole windows are raw by their sum. -/
theorem windowCount_le {buckets : List AnswerBucket} {stats : List ShownBucket}
    (shown : List.Forall₂ ShowsBucket buckets stats) :
    ((stats.map fun s => s.count.number).foldl Number.add (.finite 0)).le (.finite pageRows) = true ↔
      (buckets.map AnswerBucket.count).sum ≤ pageRows := by
  have numbers : (stats.map fun s => s.count.number) =
      (buckets.map AnswerBucket.count).map fun n : ℕ => Number.finite (nearest n) := by
    induction shown with
    | nil => rfl
    | cons first _ ih =>
      rw [List.map_cons, List.map_cons, List.map_cons, ih, first.count.1]
  rw [numbers, sum_le_iff (by decide)]

/-- What was packed is read back. -/
theorem parse_pack {r : WaterfallAnswer} {body : List UInt8} (packed : packWaterfall r = some body) :
    ∃ p, parseWaterfall body = some p ∧ ShowsAnswer r p ∧
      (p.isRaw = true ↔ (r.buckets.map AnswerBucket.count).sum ≤ pageRows) := by
  obtain ⟨header, ints, rest⟩ := Option.bind_eq_some_iff.mp packed
  obtain ⟨total, made, rest⟩ := Option.bind_eq_some_iff.mp rest
  obtain ⟨pieces, stats_, isBody⟩ := Option.map_eq_some_iff.mp rest
  have stands := At.self body
  rw [← isBody] at stands
  have ends : 0 + header.flatten.length = 16 := by
    rw [length_flatten _ (packInts_wide ints), ← (mapM_forall₂ ints).length_eq]
    rfl
  have ints_ := stands.left
  have metaAt := stands.right
  rw [isBody] at ints_ metaAt
  rw [ends] at metaAt
  have meta_ := metaAt.left
  have psdAt : At body 64 (r.psdRows.flatMap packPsd ++ pieces.flatten) := by
    have after := metaAt.right
    rwa [List.flatMap_def, length_flatten _ (packDouble_wide _)] at after
  have psdWide : ∀ p ∈ r.psdRows.map packPsd, p.length = r.numBins * 2 := by
    intro p member
    obtain ⟨row, isRow, rfl⟩ := List.mem_map.mp member
    rw [length_packPsd, r.width row isRow]
  have statsAt : At body (64 + r.buckets.length * (r.numBins * 2)) pieces.flatten := by
    have after := psdAt.right
    rwa [List.flatMap_def, length_flatten _ psdWide, List.length_map, r.rows] at after
  obtain ⟨stats, shown, each⟩ := buckets_at body stats_
  have version : getInt32 body 4 = some 4 := int_at (i := 1) ints ints_ rfl
  have rowCount : getInt32 body 8 = some (r.buckets.length : ℤ) := int_at (i := 2) ints ints_ rfl
  have numBins : getInt32 body 12 = some (r.numBins : ℤ) := int_at (i := 3) ints ints_ rfl
  have bucketSec : getFloat64 body 16 = some r.bucketSec := double_at (i := 0) meta_ rfl
  have minDb : getFloat64 body 24 = some r.minDb := double_at (i := 1) meta_ rfl
  have maxDb : getFloat64 body 32 = some r.maxDb := double_at (i := 2) meta_ rfl
  have totalWindows : getFloat64 body 40 = some total := double_at (i := 3) meta_ rfl
  have freqStartHz : getFloat64 body 48 = some r.freqStartHz := double_at (i := 4) meta_ rfl
  have freqStepHz : getFloat64 body 56 = some r.freqStepHz := double_at (i := 5) meta_ rfl
  have rows : records (r.numBins * 2) (int16Row body r.numBins 10) r.buckets.length 64 =
      some (r.psdRows.map fun row => row.map fun x => stepNumber 10 (tenths x.number)) := by
    have even (off : ℕ) (is_ : off % 2 = 0) : (off + r.numBins * 2) % 2 = 0 := by omega
    have reads : List.Forall₂ (fun piece row => piece.length = r.numBins * 2 ∧
        ∀ off, off % 2 = 0 → At body off piece → int16Row body r.numBins 10 off = some row)
        (r.psdRows.map packPsd) (r.psdRows.map fun row => row.map fun x => stepNumber 10 (tenths x.number)) := by
      rw [List.forall₂_map_left_iff, List.forall₂_map_right_iff, List.forall₂_same]
      exact fun row isRow => ⟨by rw [length_packPsd, r.width row isRow], fun off is_ here =>
        psd_at (r.width row isRow) is_ here⟩
    have all := At.records even reads rfl (List.flatMap_def .. ▸ psdAt.left)
    rwa [List.length_map, r.rows] at all
  have buckets := At.records (fun _ (_ : True) => trivial) each trivial statsAt
  rw [← shown.length_eq] at buckets
  have parsed : parseWaterfall body = some ⟨r.buckets.length, r.numBins, r.bucketSec, r.minDb, r.maxDb, total,
      r.freqStartHz, r.freqStepHz, r.psdRows.map fun row => row.map fun x => stepNumber 10 (tenths x.number), stats,
      (List.range r.numBins).map fun i : ℕ => r.freqStartHz.number.add (.mul (.finite i) r.freqStepHz.number),
      ((stats.map fun s => s.count.number).foldl Number.add (.finite 0)).le (.finite pageRows)⟩ := by
    rw [parseWaterfall, version, rowCount, numBins, bucketSec, minDb, maxDb, totalWindows, freqStartHz, freqStepHz]
    simp only [Option.bind_eq_bind, Option.bind_some, Int.toNat_natCast]
    rw [if_pos (by decide), if_pos (by decide), if_pos (by decide), rows, buckets]
    rfl
  refine ⟨_, parsed, ⟨rfl, rfl, rfl, rfl, rfl, sentAs_float made, rfl, rfl, ?_, shown⟩, windowCount_le shown⟩
  rw [List.forall₂_map_right_iff, List.forall₂_same]
  intro row _
  rw [List.forall₂_map_right_iff, List.forall₂_same]
  exact fun x _ => showsValue_tenths x.number

/-- What the header and the doubles of a body can hold. -/
structure Packable (r : WaterfallAnswer) : Prop where
  rows : r.buckets.length < 2 ^ 31
  bins : r.numBins < 2 ^ 31
  total : nearest (r.totalWindows : ℚ) < power 1024
  counts : ∀ b ∈ r.buckets, nearest (b.count : ℚ) < power 1024

theorem packInt_isSome {x : ℤ} : (∃ bytes, packInt x = some bytes) ↔ -2 ^ 31 ≤ x ∧ x < 2 ^ 31 := by
  constructor
  · rintro ⟨bytes, packed⟩
    exact (packInt_eq packed).1
  · exact fun inRange => ⟨_, if_pos inRange⟩

theorem packBucket_isSome {b : AnswerBucket} :
    (∃ bytes, packBucket b = some bytes) ↔ nearest (b.count : ℚ) < power 1024 := by
  rw [← float_isSome, packBucket, Option.isSome_iff_exists]
  constructor
  · rintro ⟨bytes, packed⟩
    obtain ⟨count, made, -⟩ := Option.map_eq_some_iff.mp packed
    exact ⟨count, made⟩
  · rintro ⟨count, made⟩
    exact ⟨_, by rw [made, Option.map_some]⟩

theorem packWaterfall_isSome {r : WaterfallAnswer} : (∃ body, packWaterfall r = some body) ↔ Packable r := by
  have header : (∃ pieces, [waterfallMagic, waterfallVersion, (r.buckets.length : ℤ), (r.numBins : ℤ)].mapM packInt =
      some pieces) ↔ r.buckets.length < 2 ^ 31 ∧ r.numBins < 2 ^ 31 := by
    rw [mapM_isSome]
    simp only [packInt_isSome, List.forall_mem_cons, List.not_mem_nil, false_imp_iff, implies_true, waterfallMagic,
      waterfallVersion, and_true]
    omega
  have stats : (∃ pieces, r.buckets.mapM packBucket = some pieces) ↔
      ∀ b ∈ r.buckets, nearest (b.count : ℚ) < power 1024 := by
    rw [mapM_isSome]
    simp only [packBucket_isSome]
  constructor
  · rintro ⟨body, packed⟩
    obtain ⟨pieces, ints, rest⟩ := Option.bind_eq_some_iff.mp packed
    obtain ⟨total, made, rest⟩ := Option.bind_eq_some_iff.mp rest
    obtain ⟨counts, each, -⟩ := Option.map_eq_some_iff.mp rest
    obtain ⟨rows, bins⟩ := header.mp ⟨pieces, ints⟩
    exact ⟨rows, bins, float_isSome.mp (Option.isSome_iff_exists.mpr ⟨total, made⟩), stats.mp ⟨counts, each⟩⟩
  · rintro ⟨rows, bins, total, counts⟩
    obtain ⟨pieces, ints⟩ := header.mpr ⟨rows, bins⟩
    obtain ⟨d, made⟩ := Option.isSome_iff_exists.mp (float_isSome.mpr total)
    obtain ⟨each, packed⟩ := stats.mpr counts
    exact ⟨_, by rw [packWaterfall, ints, Option.bind_some, made, Option.bind_some, packed, Option.map_some]⟩

/-- The doubles of an answer are not those of the exact one, but its shape, its counts and its mode are. -/
structure Answers (result : WaterfallResult) (r : WaterfallAnswer) : Prop where
  numBins : r.numBins = result.numBins
  totalWindows : r.totalWindows = result.totalWindows
  mode : r.mode = result.mode
  counts : r.buckets.map AnswerBucket.count = result.counts

/-- The page holds what was answered, and for a request of its own the mode. -/
def Decodes (own : Prop) (r : WaterfallAnswer) : Prop :=
  ∃ body p, packWaterfall r = some body ∧ parseWaterfall body = some p ∧ ShowsAnswer r p ∧
    (own → (p.isRaw = true ↔ r.mode = 0))

theorem decodes_iff {own : Prop} {r : WaterfallAnswer} :
    Decodes own r ↔ Packable r ∧ (own → ((r.buckets.map AnswerBucket.count).sum ≤ pageRows ↔ r.mode = 0)) := by
  constructor
  · rintro ⟨body, p, packed, parsed, -, mode⟩
    obtain ⟨q, parsed', -, raw⟩ := parse_pack packed
    obtain rfl : p = q := Option.some.inj (parsed.symm.trans parsed')
    exact ⟨packWaterfall_isSome.mp ⟨body, packed⟩, fun isOwn => raw.symm.trans (mode isOwn)⟩
  · rintro ⟨packable, mode⟩
    obtain ⟨body, packed⟩ := packWaterfall_isSome.mpr packable
    obtain ⟨p, parsed, shows_, raw⟩ := parse_pack packed
    exact ⟨body, p, packed, parsed, shows_, fun isOwn => raw.trans (mode isOwn)⟩

/-- The page holds every answer that fits its body, and its mode when the
windows counted and the windows read are on one side of the rows asked for. -/
theorem waterfallBody_decodes_iff {since until_ : ℚ} {maxRows maxBins : ℕ} {bucketSec : Option ℚ}
    {reads : WaterfallReads} {r : WaterfallAnswer}
    (answers : Answers (reads.queryAvgWaterfall since until_ maxRows maxBins bucketSec) r) :
    Decodes (maxRows = pageRows ∧ bucketSec = none) r ↔
      Packable r ∧ (maxRows = pageRows ∧ bucketSec = none →
        until_ ≤ since ∨ (reads.counted ≤ pageRows ↔ reads.shown pageRows ≤ pageRows)) := by
  rw [decodes_iff, answers.counts, answers.mode]
  refine and_congr_right fun _ => imp_congr_right fun own => ?_
  obtain ⟨rfl, rfl⟩ := own
  rcases le_or_gt until_ since with backward | forward
  · rw [WaterfallReads.queryAvgWaterfall_backward backward]
    exact iff_of_true (iff_of_true (by decide) rfl) (.inl backward)
  · obtain ⟨mode, counts⟩ := reads.queryAvgWaterfall_spec maxBins (by decide : 0 < pageRows) forward
    rw [mode, counts]
    constructor
    · exact fun same => .inr same.symm
    · exact fun either => (either.resolve_left (not_le.mpr forward)).symm

/-- A window of a flat band. -/
def flatWindow : TimedWindow :=
  ⟨⟨0, ⟨100, 10, none, 2, 95, 5⟩, -80, some (-70), -81, 2, 0, none⟩, 1⟩

/-- A count and a scan that find different windows. -/
def readsOf (counted scanned : ℕ) : WaterfallReads where
  coverage := fun _ => none
  counted := counted
  raw := List.replicate scanned flatWindow
  parts := []
  sorted := List.forall_mem_nil _

/-- As many rows of one window, the stats 0 and the PSD values one NaN. -/
def flatAnswer (n : ℕ) : WaterfallAnswer where
  bucketSec := ⟨0⟩
  numBins := 2
  minDb := ⟨0⟩
  maxDb := ⟨0⟩
  totalWindows := 0
  freqStartHz := ⟨0⟩
  freqStepHz := ⟨0⟩
  mode := 0
  buckets := List.replicate n ⟨⟨0⟩, ⟨0⟩, 1, ⟨0⟩, ⟨0⟩, ⟨0⟩, ⟨0⟩, ⟨0⟩⟩
  psdRows := List.replicate n [⟨0x7FF8000000000000⟩, ⟨0⟩]
  rows := List.length_replicate.trans List.length_replicate.symm
  width := fun _ member => congrArg List.length (List.eq_of_mem_replicate member)

theorem flatAnswer_counts (n : ℕ) : (flatAnswer n).buckets.map AnswerBucket.count = List.replicate n 1 :=
  List.map_replicate

theorem flatAnswer_answers {counted scanned : ℕ} (some_ : counted ≠ 0) (few : counted ≤ pageRows) :
    Answers ((readsOf counted scanned).queryAvgWaterfall 0 1 pageRows 2 none) (flatAnswer scanned) := by
  rw [WaterfallReads.queryAvgWaterfall_raw (by decide) some_ few]
  refine ⟨rfl, ?_, rfl, ?_⟩
  · have none_ : ((readsOf counted scanned).raw.filterMap fun w => w.powers.map fun p => (dsPsd p 2).2) = [] :=
      List.filterMap_eq_nil_iff.mpr fun w member => by rw [List.eq_of_mem_replicate member]; rfl
    rw [waterfallRaw]
    exact (congrArg List.length none_).symm
  · have read : (readsOf counted scanned).raw.map (WaterfallBucket.count ∘ TimedWindow.bucket) =
        List.replicate scanned 1 := List.map_replicate
    rw [flatAnswer_counts, WaterfallResult.counts, waterfallRaw, List.map_map, read]

theorem flatAnswer_packable {n : ℕ} (small : n < 2 ^ 31) : Packable (flatAnswer n) where
  rows := List.length_replicate.trans_lt small
  bins := (by decide : 2 < 2 ^ 31)
  total := whole_lt_largest (n := 0) (by decide)
  counts b member := by
    rw [List.eq_of_mem_replicate member]
    exact whole_lt_largest (n := 1) (by decide)

theorem waterfallBody_decodes_six : Decodes (pageRows = pageRows ∧ (none : Option ℚ) = none) (flatAnswer 6) := by
  have answers : Answers ((readsOf 6 6).queryAvgWaterfall 0 1 pageRows 2 none) (flatAnswer 6) :=
    flatAnswer_answers (by decide) (by decide)
  exact (waterfallBody_decodes_iff answers).mpr ⟨flatAnswer_packable (by decide), fun _ => .inr (by decide)⟩

/-- A window that arrives after the count of 600 makes a raw answer look like an aggregated one. -/
theorem waterfallBody_modeLost :
    ¬∀ (since until_ : ℚ) (maxRows maxBins : ℕ) (bucketSec : Option ℚ) (reads : WaterfallReads) (r : WaterfallAnswer),
      Packable r → Answers (reads.queryAvgWaterfall since until_ maxRows maxBins bucketSec) r →
        Decodes (maxRows = pageRows ∧ bucketSec = none) r := by
  intro always
  have answers : Answers ((readsOf 600 601).queryAvgWaterfall 0 1 pageRows 2 none) (flatAnswer 601) :=
    flatAnswer_answers (by decide) (by decide)
  have mode := (decodes_iff.mp (always _ _ _ _ _ _ _ (flatAnswer_packable (by decide)) answers)).2 ⟨rfl, rfl⟩
  have sum : ((flatAnswer 601).buckets.map AnswerBucket.count).sum = 601 := by
    rw [flatAnswer_counts, List.sum_replicate_nat]
  rw [sum] at mode
  exact absurd (mode.mpr rfl) (by decide)

end RFObserver
