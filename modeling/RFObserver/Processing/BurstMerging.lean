import Mathlib.Order.Interval.Basic
import RFObserver.Lib.SinglePass
import RFObserver.Processing.RollingBurstRuns

set_option linter.unusedSectionVars false

namespace RFObserver
open SinglePass

variable {K : Type*} [Field K] [LinearOrder K] [IsStrictOrderedRing K]

/-- The fields of a burst of one detection, its times in microseconds. -/
structure BurstValues (K : Type*) where
  startTime : ℤ
  stopTime : ℤ
  centerFreqHz : K
  peakFreqHz : K
  bandwidthHz : K
  peakPowerDb : K
  durationMs : K
  detectionTimestamp : ℤ
  deriving DecidableEq

/-- A burst that does not end before it starts. -/
structure RawBurst (K : Type*) [Field K] [LinearOrder K] extends BurstValues K where
  ordered : startTime ≤ stopTime
  bandwidth_nonneg : 0 ≤ bandwidthHz

/-- A stretch of time and a band of frequencies. -/
abbrev BurstSpan (K : Type*) [LE K] := NonemptyInterval ℤ × NonemptyInterval K

/-- Within the tolerance in frequency and within the gap in time of each other. -/
def BurstSpan.Near (maxTimeGap freqTolerance : K) (s t : BurstSpan K) : Prop :=
  s.2.fst - freqTolerance ≤ t.2.snd ∧ t.2.fst ≤ s.2.snd + freqTolerance ∧
    totalSeconds (t.1.fst - s.1.snd) ≤ maxTimeGap ∧ totalSeconds (s.1.fst - t.1.snd) ≤ maxTimeGap

instance BurstSpan.Near.decidable (maxTimeGap freqTolerance : K) :
    DecidableRel (BurstSpan.Near maxTimeGap freqTolerance) :=
  fun _ _ => inferInstanceAs (Decidable (_ ∧ _ ∧ _ ∧ _))

namespace RawBurst

variable (b : RawBurst K)

def fLo : K := lowEdge b.centerFreqHz b.bandwidthHz

def fHi : K := highEdge b.centerFreqHz b.bandwidthHz

theorem fLo_le_fHi : b.fLo ≤ b.fHi := by
  have := b.bandwidth_nonneg
  unfold fLo fHi lowEdge highEdge
  linarith

def span : BurstSpan K := (⟨(b.startTime, b.stopTime), b.ordered⟩, ⟨(b.fLo, b.fHi), b.fLo_le_fHi⟩)

/-- `_merge_bursts`' test of the current burst against the next one. -/
def Reaches (maxTimeGap freqTolerance : K) (current next : RawBurst K) : Prop :=
  (current.fLo - freqTolerance ≤ next.fHi ∧ next.fLo ≤ current.fHi + freqTolerance) ∧
    totalSeconds (next.startTime - current.stopTime) ≤ maxTimeGap

instance Reaches.decidable (maxTimeGap freqTolerance : K) : DecidableRel (Reaches maxTimeGap freqTolerance) :=
  fun _ _ => inferInstanceAs (Decidable ((_ ∧ _) ∧ _))

theorem merged_bandwidth (a b : RawBurst K) : 0 ≤ max a.fHi b.fHi - min a.fLo b.fLo :=
  sub_nonneg.mpr ((min_le_left ..).trans (a.fLo_le_fHi.trans (le_max_left ..)))

def merge (current next : RawBurst K) : RawBurst K where
  startTime := current.startTime
  stopTime := max current.stopTime next.stopTime
  centerFreqHz := middle (min current.fLo next.fLo) (max current.fHi next.fHi)
  peakFreqHz := if next.peakPowerDb ≤ current.peakPowerDb then current.peakFreqHz else next.peakFreqHz
  bandwidthHz := max current.fHi next.fHi - min current.fLo next.fLo
  peakPowerDb := max current.peakPowerDb next.peakPowerDb
  durationMs := toMillis (totalSeconds (max current.stopTime next.stopTime - current.startTime))
  detectionTimestamp := current.detectionTimestamp
  ordered := current.ordered.trans (le_max_left ..)
  bandwidth_nonneg := current.merged_bandwidth next

end RawBurst

section Merge

variable (maxTimeGap freqTolerance : K)

/-- One turn of the loop, with the merged bursts so far and the current one. -/
def mergeNext (s : List (RawBurst K) × RawBurst K) (next : RawBurst K) : List (RawBurst K) × RawBurst K :=
  if s.2.Reaches maxTimeGap freqTolerance next then (s.1, s.2.merge next) else (s.1 ++ [s.2], next)

def mergeBursts : List (RawBurst K) → List (RawBurst K)
  | [] => []
  | [b] => [b]
  | b :: rest =>
    let s := rest.foldl (mergeNext maxTimeGap freqTolerance) ([], b)
    s.1 ++ [s.2]

/-- The result's bursts are the input's, merged: each has the hull of the spans
it took in, and the largest power with the frequency of a burst that has it. -/
structure TakesIn (g : List (RawBurst K)) (r : RawBurst K) : Prop where
  hull : IsLUB (RawBurst.span '' {b | b ∈ g}) r.span
  power : IsGreatest ((fun b : RawBurst K => b.peakPowerDb) '' {b | b ∈ g}) r.peakPowerDb
  peak : ∃ b ∈ g, b.peakPowerDb = r.peakPowerDb ∧ b.peakFreqHz = r.peakFreqHz

/-- What merging is to leave: no two bursts near each other, and each input
burst inside one of the bursts, taken in by it alone. -/
structure MergedApart (bursts results : List (RawBurst K)) : Prop where
  apart : results.Pairwise fun a b => ¬ BurstSpan.Near maxTimeGap freqTolerance a.span b.span
  inside : ∀ b ∈ bursts, ∃! i : Nat, ∃ r, results[i]? = some r ∧ b.span ≤ r.span
  taken : ∃ groups : List (List (RawBurst K)), groups.flatten.Perm bursts ∧ List.Forall₂ TakesIn groups results

end Merge

section Pass

variable {maxTimeGap freqTolerance : K}

theorem foldl_mergeNext (merged : List (RawBurst K)) (current : RawBurst K) (rest : List (RawBurst K)) :
    (rest.foldl (mergeNext maxTimeGap freqTolerance) (merged, current)).1 ++
        [(rest.foldl (mergeNext maxTimeGap freqTolerance) (merged, current)).2] =
      merged ++ pass RawBurst.merge (RawBurst.Reaches maxTimeGap freqTolerance) current rest := by
  induction rest generalizing merged current with
  | nil => rfl
  | cons next rest ih =>
    rw [List.foldl_cons, SinglePass.pass]
    by_cases reaches : current.Reaches maxTimeGap freqTolerance next
    · rw [mergeNext, if_pos reaches, if_pos reaches, ih]
    · rw [mergeNext, if_neg reaches, if_neg reaches, ih, List.append_assoc]
      rfl

/-- Merging is the pass with one current burst. -/
theorem mergeBursts_cons (b : RawBurst K) (rest : List (RawBurst K)) :
    mergeBursts maxTimeGap freqTolerance (b :: rest) =
      pass RawBurst.merge (RawBurst.Reaches maxTimeGap freqTolerance) b rest := by
  cases rest with
  | nil => rfl
  | cons c rest => exact foldl_mergeNext [] b (c :: rest)

theorem RawBurst.merge_fLo (a b : RawBurst K) : (a.merge b).fLo = min a.fLo b.fLo := by
  simp only [fLo, merge, lowEdge, middle]
  ring

theorem RawBurst.merge_fHi (a b : RawBurst K) : (a.merge b).fHi = max a.fHi b.fHi := by
  simp only [fHi, merge, highEdge, middle]
  ring

/-- The merged burst's span is the hull of the two, when they come in order. -/
theorem RawBurst.merge_span (a b : RawBurst K) (order : a.startTime ≤ b.startTime) :
    (a.merge b).span = a.span ⊔ b.span := by
  refine Prod.ext (NonemptyInterval.ext (Prod.ext ?_ ?_)) (NonemptyInterval.ext (Prod.ext ?_ ?_))
  · exact (min_eq_left order).symm
  · rfl
  · exact a.merge_fLo b
  · exact a.merge_fHi b

theorem totalSeconds_mono {a b : ℤ} (le : a ≤ b) : (totalSeconds a : K) ≤ totalSeconds b := by
  unfold totalSeconds
  have cast : (a : K) ≤ b := by exact_mod_cast le
  linarith

theorem totalSeconds_nonpos {a : ℤ} (nonpos : a ≤ 0) : (totalSeconds a : K) ≤ 0 :=
  (totalSeconds_mono nonpos).trans (by simp [totalSeconds])

/-- The code compares one way only: the next burst does not start before the current one. -/
theorem RawBurst.reaches_iff_near (gap : 0 ≤ maxTimeGap) {a b : RawBurst K} (order : a.startTime ≤ b.startTime) :
    a.Reaches maxTimeGap freqTolerance b ↔ BurstSpan.Near maxTimeGap freqTolerance a.span b.span := by
  have back : (totalSeconds (a.startTime - b.stopTime) : K) ≤ maxTimeGap := by
    have := b.ordered
    exact (totalSeconds_nonpos (by omega)).trans gap
  constructor
  · rintro ⟨⟨low, high⟩, time⟩
    exact ⟨low, high, time, back⟩
  · rintro ⟨low, high, time, -⟩
    exact ⟨⟨low, high⟩, time⟩

theorem BurstSpan.near_widens : Widens (BurstSpan.Near maxTimeGap freqTolerance) := by
  rintro a b a' b' ⟨⟨startA, stopA⟩, ⟨lowA, highA⟩⟩ ⟨⟨startB, stopB⟩, ⟨lowB, highB⟩⟩ ⟨low, high, time, back⟩
  refine ⟨?_, ?_, (totalSeconds_mono ?_).trans time, (totalSeconds_mono ?_).trans back⟩
  · linarith
  · linarith
  · omega
  · omega

theorem BurstSpan.near_self (gap : 0 ≤ maxTimeGap) (tolerance : 0 ≤ freqTolerance) (s : BurstSpan K) :
    BurstSpan.Near maxTimeGap freqTolerance s s := by
  have time := s.1.fst_le_snd
  have band := s.2.fst_le_snd
  refine ⟨by linarith, by linarith, ?_, ?_⟩ <;> exact (totalSeconds_nonpos (by omega)).trans gap

def StartOrder (a b : RawBurst K) : Prop := a.startTime ≤ b.startTime

instance StartOrder.decidable : DecidableRel (StartOrder (K := K)) :=
  fun a b => inferInstanceAs (Decidable (a.startTime ≤ b.startTime))

/-- The spans of the merged bursts are what the same pass makes of the spans. -/
theorem mergeBursts_spans (gap : 0 ≤ maxTimeGap) {b : RawBurst K} {rest : List (RawBurst K)}
    (sorted : (b :: rest).Pairwise StartOrder) :
    (mergeBursts maxTimeGap freqTolerance (b :: rest)).map RawBurst.span =
      pass (· ⊔ ·) (BurstSpan.Near maxTimeGap freqTolerance) b.span (rest.map RawBurst.span) := by
  rw [mergeBursts_cons]
  exact map_pass (fun a b (order : StartOrder a b) => a.merge_span b order)
    (fun a b order => RawBurst.reaches_iff_near gap order) (fun a b c order => order) sorted

theorem apart_iff_spans (gap : 0 ≤ maxTimeGap) {bursts : List (RawBurst K)} (sorted : bursts.Pairwise StartOrder) :
    ((mergeBursts maxTimeGap freqTolerance bursts).Pairwise fun a b =>
        ¬ BurstSpan.Near maxTimeGap freqTolerance a.span b.span) ↔
      Stretched (BurstSpan.Near maxTimeGap freqTolerance) (bursts.map RawBurst.span) := by
  cases bursts with
  | nil => exact iff_of_true .nil ⟨[], rfl, nofun, .nil⟩
  | cons b rest =>
    rw [List.map_cons, ← apart_iff_stretched BurstSpan.near_widens, ← mergeBursts_spans gap sorted, List.pairwise_map]

/-- A group's bursts, in start order, merge to the hull of their spans. -/
theorem total_span {g : RawBurst K × List (RawBurst K)} (sorted : (members g).Pairwise StartOrder) :
    (total RawBurst.merge g).span = total (· ⊔ ·) (g.1.span, g.2.map RawBurst.span) := by
  obtain ⟨current, rest⟩ := g
  induction rest generalizing current with
  | nil => rfl
  | cons next rest ih =>
    obtain ⟨ahead, sorted⟩ := List.pairwise_cons.mp sorted
    have order : (members (current.merge next, rest)).Pairwise StartOrder :=
      List.pairwise_cons.mpr
        ⟨fun b member => ahead b (List.mem_cons_of_mem _ member), (List.pairwise_cons.mp sorted).2⟩
    have step := ih (current.merge next) order
    rw [current.merge_span next (ahead next (List.mem_cons_self ..))] at step
    exact step

/-- The merged burst has the power and the peak frequency of one of the two. -/
theorem RawBurst.merge_peak (a b : RawBurst K) :
    ((a.merge b).peakPowerDb = a.peakPowerDb ∧ (a.merge b).peakFreqHz = a.peakFreqHz) ∨
      ((a.merge b).peakPowerDb = b.peakPowerDb ∧ (a.merge b).peakFreqHz = b.peakFreqHz) := by
  by_cases stronger : b.peakPowerDb ≤ a.peakPowerDb
  · exact Or.inl ⟨max_eq_left stronger, if_pos stronger⟩
  · exact Or.inr ⟨max_eq_right (not_le.mp stronger).le, if_neg stronger⟩

theorem total_peak (g : RawBurst K × List (RawBurst K)) :
    (∀ b ∈ members g, b.peakPowerDb ≤ (total RawBurst.merge g).peakPowerDb) ∧
      ∃ b ∈ members g, b.peakPowerDb = (total RawBurst.merge g).peakPowerDb ∧
        b.peakFreqHz = (total RawBurst.merge g).peakFreqHz := by
  obtain ⟨current, rest⟩ := g
  induction rest generalizing current with
  | nil => exact ⟨fun b member => by rw [List.mem_singleton.mp member]; rfl, current, List.mem_cons_self .., rfl, rfl⟩
  | cons next rest ih =>
    obtain ⟨most, b, member, power, frequency⟩ := ih (current.merge next)
    have merged := most _ (List.mem_cons_self ..)
    refine ⟨fun c member => ?_, ?_⟩
    · rcases List.mem_cons.mp member with rfl | later
      · exact (le_max_left ..).trans merged
      · rcases List.mem_cons.mp later with rfl | later
        · exact (le_max_right ..).trans merged
        · exact most c (List.mem_cons_of_mem _ later)
    · rcases List.mem_cons.mp member with rfl | later
      · rcases current.merge_peak next with ⟨power', frequency'⟩ | ⟨power', frequency'⟩
        · exact ⟨current, List.mem_cons_self .., power'.symm.trans power, frequency'.symm.trans frequency⟩
        · exact ⟨next, List.mem_cons_of_mem _ (List.mem_cons_self ..), power'.symm.trans power,
            frequency'.symm.trans frequency⟩
      · exact ⟨b, List.mem_cons_of_mem _ (List.mem_cons_of_mem _ later), power, frequency⟩

theorem total_takesIn {g : RawBurst K × List (RawBurst K)} (sorted : (members g).Pairwise StartOrder) :
    TakesIn (members g) (total RawBurst.merge g) := by
  obtain ⟨most, b, member, power, frequency⟩ := total_peak g
  refine ⟨?_, ⟨⟨b, member, power⟩, ?_⟩, b, member, power, frequency⟩
  · rw [total_span sorted]
    have hull := total_isLUB (g.1.span, g.2.map RawBurst.span)
    have spans : {s | s ∈ members (g.1.span, g.2.map RawBurst.span)} = RawBurst.span '' {b | b ∈ members g} := by
      ext s
      change s ∈ (members g).map RawBurst.span ↔ _
      rw [List.mem_map]
      rfl
    rwa [spans] at hull
  · rintro _ ⟨c, inGroup, rfl⟩
    exact most c inGroup

/-- Merging cuts the bursts into groups, each taken in by one result. -/
theorem mergeBursts_groups (maxTimeGap freqTolerance : K) {bursts : List (RawBurst K)} (sorted : bursts.Pairwise StartOrder) :
    ∃ groups : List (List (RawBurst K)), groups.flatten = bursts ∧
      List.Forall₂ TakesIn groups (mergeBursts maxTimeGap freqTolerance bursts) := by
  cases bursts with
  | nil => exact ⟨[], rfl, .nil⟩
  | cons b rest =>
    obtain ⟨first, groups, split, passed, -, -⟩ :=
      pass_groups RawBurst.merge (RawBurst.Reaches maxTimeGap freqTolerance) b rest
    have whole : (((b, first) :: groups).map members).flatten = b :: rest := by
      rw [split, ← List.flatMap_def]
      rfl
    refine ⟨((b, first) :: groups).map members, whole, ?_⟩
    rw [mergeBursts_cons, passed, ← List.map_cons (f := total RawBurst.merge), List.forall₂_map_left_iff,
      List.forall₂_map_right_iff, List.forall₂_same]
    intro g member
    refine total_takesIn (sorted.sublist ?_)
    rw [← whole]
    exact List.sublist_flatten_of_mem (List.mem_map_of_mem member)

/-- Every burst lies in a result, and in no other when no two results are near. -/
theorem inside_of_apart (gap : 0 ≤ maxTimeGap) (tolerance : 0 ≤ freqTolerance) {bursts : List (RawBurst K)}
    (sorted : bursts.Pairwise StartOrder)
    (apart : (mergeBursts maxTimeGap freqTolerance bursts).Pairwise fun a b =>
      ¬ BurstSpan.Near maxTimeGap freqTolerance a.span b.span) :
    ∀ b ∈ bursts, ∃! i : Nat, ∃ r, (mergeBursts maxTimeGap freqTolerance bursts)[i]? = some r ∧ b.span ≤ r.span := by
  intro b member
  have never : ∀ (i j : Nat) r r', i < j → (mergeBursts maxTimeGap freqTolerance bursts)[i]? = some r →
      (mergeBursts maxTimeGap freqTolerance bursts)[j]? = some r' → b.span ≤ r.span → ¬ b.span ≤ r'.span := by
    intro i j r r' before atI atJ inside inside'
    obtain ⟨boundI, rfl⟩ := List.getElem?_eq_some_iff.mp atI
    obtain ⟨boundJ, rfl⟩ := List.getElem?_eq_some_iff.mp atJ
    exact List.pairwise_iff_getElem.mp apart i j boundI boundJ before
      (BurstSpan.near_widens _ _ _ _ inside inside' (BurstSpan.near_self gap tolerance b.span))
  obtain ⟨groups, split, taken⟩ := mergeBursts_groups maxTimeGap freqTolerance sorted
  rw [← split] at member
  obtain ⟨g, inGroups, member⟩ := List.mem_flatten.mp member
  obtain ⟨i, bound, rfl⟩ := List.mem_iff_getElem.mp inGroups
  have bound' := taken.length_eq ▸ bound
  have takes : TakesIn groups[i] (mergeBursts maxTimeGap freqTolerance bursts)[i] := taken.get bound bound'
  have inside : b.span ≤ (mergeBursts maxTimeGap freqTolerance bursts)[i].span := takes.hull.1 ⟨b, member, rfl⟩
  refine ⟨i, ⟨_, List.getElem?_eq_getElem bound', inside⟩, ?_⟩
  rintro j ⟨r, atJ, inside'⟩
  rcases lt_trichotomy j i with before | same | after
  · exact absurd inside (never j i r _ before atJ (List.getElem?_eq_getElem bound') inside')
  · exact same
  · exact absurd inside' (never i j _ r after (List.getElem?_eq_getElem bound') atJ inside)

/-- Merging leaves no mergeable pair just when the spans come in stretches:
each burst near the hull of those before it in its stretch, and no two
stretches near each other. -/
theorem merged_apart_iff (maxTimeGap freqTolerance : K) (bursts : List (RawBurst K))
    (sorted : bursts.Pairwise StartOrder) (gap : 0 ≤ maxTimeGap) (tolerance : 0 ≤ freqTolerance) :
    MergedApart maxTimeGap freqTolerance bursts (mergeBursts maxTimeGap freqTolerance bursts) ↔
      Stretched (BurstSpan.Near maxTimeGap freqTolerance) (bursts.map RawBurst.span) := by
  rw [← apart_iff_spans gap sorted]
  refine ⟨MergedApart.apart, fun apart => ⟨apart, inside_of_apart gap tolerance sorted apart, ?_⟩⟩
  obtain ⟨groups, split, taken⟩ := mergeBursts_groups maxTimeGap freqTolerance sorted
  exact ⟨groups, .of_eq split, taken⟩

/-- A burst of bandwidth 2 around a frequency, from one millisecond to another. -/
def burstBetween (startMs stopMs : Nat) (centerFreqHz : ℚ) (ordered : startMs ≤ stopMs) : RawBurst ℚ where
  startTime := startMs * 1000
  stopTime := stopMs * 1000
  centerFreqHz := centerFreqHz
  peakFreqHz := centerFreqHz
  bandwidthHz := 2
  peakPowerDb := -40
  durationMs := stopMs - startMs
  detectionTimestamp := 0
  ordered := by omega
  bandwidth_nonneg := by decide

/-- A burst and its continuation, and one far off in frequency after them. -/
def oneAfterAnother : List (RawBurst ℚ) :=
  [burstBetween 0 10 5 (by decide), burstBetween 11 20 6 (by decide), burstBetween 15 18 100 (by decide)]

theorem merged_apart_oneAfterAnother :
    MergedApart (3 / 1000) 1 oneAfterAnother (mergeBursts (3 / 1000) 1 oneAfterAnother) := by
  refine (merged_apart_iff (3 / 1000) 1 oneAfterAnother (by decide +kernel) (by norm_num) (by norm_num)).mpr ?_
  refine ⟨[((burstBetween 0 10 5 (by decide)).span, [(burstBetween 11 20 6 (by decide)).span]),
    ((burstBetween 15 18 100 (by decide)).span, [])], rfl, ?_, ?_⟩
  · decide +kernel
  · decide +kernel

/-- The burst far off starts between the two, and keeps them apart. -/
def interleaved : List (RawBurst ℚ) :=
  [burstBetween 0 10 5 (by decide), burstBetween 1 2 100 (by decide), burstBetween 11 20 6 (by decide)]

theorem merged_apart_fails : ¬ ∀ bursts : List (RawBurst ℚ), bursts.Pairwise StartOrder →
    MergedApart (3 / 1000) 1 bursts (mergeBursts (3 / 1000) 1 bursts) := by
  intro merged
  have sorted : interleaved.Pairwise StartOrder := by decide +kernel
  have near : ¬ (mergeBursts (3 / 1000) 1 interleaved).Pairwise fun a b =>
      ¬ BurstSpan.Near (3 / 1000) 1 a.span b.span := by decide +kernel
  exact near (merged interleaved sorted).apart

end Pass
end RFObserver
