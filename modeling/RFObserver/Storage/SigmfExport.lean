import RFObserver.Lib.LossyStream
import RFObserver.Web.PeaksPage

/-! A capture as SigMF: every loss of samples begins a segment with its own time. -/

namespace RFObserver
open IsoTime LossyStream

/-- What the export reads in a capture's `.json`; `zeroFilled` is its schedule's. -/
structure CaptureJson where
  sampleRateHz : Option ℚ
  bandwidthHz : Option ℚ
  centerFreqHz : Option ℚ
  startTime : Option (List Char)
  gaps : Gaps
  zeroFilled : Gaps

structure SigmfSegment where
  sampleStart : ℕ
  frequency : Option ℚ
  datetime : Option (List Char)
  deriving DecidableEq

/-- The sample rate, the segments, and the stretches annotated as zero-filled. -/
structure SigmfMeta where
  sampleRate : ℚ
  captures : List SigmfSegment
  annotations : Gaps
  deriving DecidableEq

/-- ISO-8601 UTC with a trailing Z; none if UTC cannot show the time. -/
def sigmfDatetime (t : DateTime) : Option (List Char) :=
  if 0 ≤ t.instant then (DateTime.ofWall t.instant.toNat none).map fun u => u.isoformat ++ ['Z'] else none

namespace CaptureJson

variable (c : CaptureJson)

/-- The rate is 0 when none is given. -/
def rate : ℚ := (c.sampleRateHz.filter (· ≠ 0)).getD (c.bandwidthHz.getD 0)

/-- The start, if there is one; none is a text that is no time. -/
def start : Option (Option DateTime) :=
  match c.startTime with
  | none | some [] => some none
  | some text => (fromisoformat text).map fun t => some (Ranges.asUtc t)

/-- A segment from `sampleStart`, with the samples lost before it. -/
def segment (start : Option DateTime) (sampleStart lostBefore : ℕ) : Option SigmfSegment :=
  match start with
  | none => some ⟨sampleStart, c.centerFreqHz, none⟩
  | some t =>
    if 0 < c.rate then
      (((timedelta (roundHalfEven (((sampleStart + lostBefore : ℕ) : ℚ) / c.rate * 10 ^ 6))).bind (plus t)).bind
        sigmfDatetime).map fun text => ⟨sampleStart, c.centerFreqHz, some text⟩
    else some ⟨sampleStart, c.centerFreqHz, none⟩

/-- The segments of the gaps, after `lost` samples were lost. -/
def segments (start : Option DateTime) : ℕ → Gaps → Option (List SigmfSegment)
  | _, [] => some []
  | lost, g :: gaps =>
    (c.segment start g.1 (lost + g.2)).bind fun seg => (segments start (lost + g.2) gaps).map (seg :: ·)

/-- `iq_sigmf_meta` -/
def iqSigmfMeta : Option SigmfMeta :=
  c.start.bind fun start => (c.segment start 0 0).bind fun first => (c.segments start 0 c.gaps).map fun rest =>
    { sampleRate := c.rate, captures := first :: rest, annotations := c.zeroFilled }

end CaptureJson

namespace SigmfMeta

/-- The segment a sample lies in: the last that starts at it or before. -/
def segmentOf (captures : List SigmfSegment) (p : ℕ) : Option SigmfSegment :=
  (captures.filter fun seg => seg.sampleStart ≤ p).getLast?

/-- The time of a sample for a reader of the document, in microseconds: its
segment's time and the samples since then. -/
def timeAt (doc : SigmfMeta) (p : ℕ) : Option ℚ :=
  (segmentOf doc.captures p).bind fun seg => (seg.datetime.bind Ranges.optDt).map fun t =>
    t.instant + ((p - seg.sampleStart : ℕ) : ℚ) / doc.sampleRate * 10 ^ 6

end SigmfMeta

section Times

variable {c : CaptureJson} {t : DateTime} {text : List Char}

/-- The text is read as the time that it was made of. -/
theorem sigmfDatetime_instant (made : sigmfDatetime t = some text) :
    ∃ u, Ranges.optDt text = some u ∧ u.instant = t.instant := by
  obtain ⟨positive, made⟩ := Option.ite_none_right_eq_some.mp made
  obtain ⟨u, shown, rfl⟩ := Option.map_eq_some_iff.mp made
  obtain ⟨wall, naive⟩ := DateTime.wall_ofWall shown
  have zulu : u.isoformat ++ ['+', '0', '0', ':', '0', '0'] =
      ({ u with offset := some 0, zone := Ranges.zone_zero } : DateTime).isoformat := by
    have zone : DateTime.zoneText (some 0) = ['+', '0', '0', ':', '0', '0'] := by decide
    rw [DateTime.isoformat, naive, DateTime.zoneText, List.append_nil, ← zone]
    rfl
  refine ⟨{ u with offset := some 0, zone := Ranges.zone_zero }, ?_, ?_⟩
  · rw [Ranges.optDt, if_neg (by simp), List.getLast?_concat, if_pos (Or.inl rfl), List.dropLast_concat, zulu,
      DateTime.fromisoformat_isoformat]
  · change (u.wall : ℤ) - 0 * 10 ^ 6 = t.instant
    rw [wall]
    omega

theorem plus_instant {u : DateTime} {micros : ℤ} (moved : plus t micros = some u) : u.instant = t.instant + micros := by
  obtain ⟨positive, made⟩ := Option.ite_none_right_eq_some.mp moved
  obtain ⟨wall, offset⟩ := DateTime.wall_ofWall made
  rw [DateTime.instant, DateTime.instant, wall, offset, Int.toNat_of_nonneg positive]
  ring

theorem segment_start {start : Option DateTime} {seg : SigmfSegment} {sampleStart lostBefore : ℕ}
    (made : c.segment start sampleStart lostBefore = some seg) : seg.sampleStart = sampleStart := by
  unfold CaptureJson.segment at made
  split at made
  · cases made
    rfl
  · split_ifs at made
    · obtain ⟨text, -, rfl⟩ := Option.map_eq_some_iff.mp made
      rfl
    · cases made
      rfl

/-- A segment's time is its samples and the lost ones after the start. -/
theorem segment_time {seg : SigmfSegment} {sampleStart lostBefore : ℕ} (positive : 0 < c.rate)
    (made : c.segment (some t) sampleStart lostBefore = some seg) : ∃ u, seg.datetime.bind Ranges.optDt = some u ∧
      u.instant = t.instant + roundHalfEven (((sampleStart + lostBefore : ℕ) : ℚ) / c.rate * 10 ^ 6) := by
  rw [CaptureJson.segment, if_pos positive] at made
  obtain ⟨text, written, rfl⟩ := Option.map_eq_some_iff.mp made
  obtain ⟨u, moved, shown⟩ := Option.bind_eq_some_iff.mp written
  obtain ⟨micros, fits, moved⟩ := Option.bind_eq_some_iff.mp moved
  cases timedelta_some fits
  obtain ⟨v, read, instant⟩ := sigmfDatetime_instant shown
  exact ⟨v, read, instant.trans (plus_instant moved)⟩

/-- A segment can be written if the calendar has its time. -/
theorem segment_isSome {sampleStart lostBefore : ℕ} (utc : t.offset = some 0)
    (early : t.wall + roundHalfEven (((sampleStart + lostBefore : ℕ) : ℚ) / c.rate * 10 ^ 6) <
      ((Calendar.maxOrdinal + 1) * 86400 * 10 ^ 6 : ℕ)) : (c.segment (some t) sampleStart lostBefore).isSome := by
  rw [CaptureJson.segment]
  split_ifs with positive
  · have since : 0 ≤ roundHalfEven (((sampleStart + lostBefore : ℕ) : ℚ) / c.rate * 10 ^ 6) := by
      have zero := RoundHalfEven.of_int 0
      rw [← zero]
      exact RoundHalfEven.mono (by push_cast; positivity)
    generalize roundHalfEven (((sampleStart + lostBefore : ℕ) : ℚ) / c.rate * 10 ^ 6) = micros at early since ⊢
    have first : 86400 * 10 ^ 6 ≤ t.wall := by
      have := t.date.ordinal_pos
      rw [DateTime.wall, DateTime.seconds]
      omega
    have last : Calendar.maxOrdinal = 3652059 := rfl
    rw [last] at early
    have shown : ∀ offset : Option ℤ, (∀ o ∈ offset, -86400 < o ∧ o < 86400) →
        (DateTime.ofWall (t.wall + micros).toNat offset).isSome := by
      intro offset zone
      rw [DateTime.ofWall, dif_pos ⟨by rw [last]; omega, zone⟩]
      rfl
    obtain ⟨u, moved⟩ := Option.isSome_iff_exists.mp (shown (some 0) Ranges.zone_zero)
    obtain ⟨v, written⟩ := Option.isSome_iff_exists.mp (shown none fun o member => absurd member (Option.not_mem_none o))
    obtain ⟨wall, offset⟩ := DateTime.wall_ofWall moved
    have instant : u.instant = t.wall + micros := by
      rw [DateTime.instant, wall, offset, Int.toNat_of_nonneg (by omega)]
      exact sub_zero _
    have fits : timedelta micros = some micros := if_pos (by omega)
    rw [fits, Option.bind_some, plus, if_pos (by omega), utc, moved, Option.bind_some, sigmfDatetime, instant,
      if_pos (by omega), written]
    rfl
  · rfl

theorem segments_starts {start : Option DateTime} {lost : ℕ} {gaps : Gaps} {segs : List SigmfSegment}
    (made : c.segments start lost gaps = some segs) : ∀ seg ∈ segs, ∃ g ∈ gaps, seg.sampleStart = g.1 := by
  induction gaps generalizing lost segs with
  | nil =>
    cases made
    exact List.forall_mem_nil _
  | cons g gaps ih =>
    obtain ⟨first, begins, made⟩ := Option.bind_eq_some_iff.mp made
    obtain ⟨rest, follow, rfl⟩ := Option.map_eq_some_iff.mp made
    intro seg member
    obtain rfl | later := List.mem_cons.mp member
    · exact ⟨g, List.mem_cons_self, segment_start begins⟩
    · obtain ⟨h, inside, same⟩ := ih follow seg later
      exact ⟨h, List.mem_cons_of_mem _ inside, same⟩

theorem segmentOf_cons {p : ℕ} {first : SigmfSegment} (reached : first.sampleStart ≤ p) (segs : List SigmfSegment) :
    SigmfMeta.segmentOf (first :: segs) p = some ((SigmfMeta.segmentOf segs p).getD first) := by
  simp [SigmfMeta.segmentOf, reached, List.getLast?_cons]

/-- The segment of a sample is that of the last gap at it or before it. -/
theorem segmentOf_segments {start : Option DateTime} {lost p sampleStart : ℕ} {gaps : Gaps} {first : SigmfSegment}
    {segs : List SigmfSegment} (ordered : gaps.Pairwise fun g h => g.1 ≤ h.1) (reached : sampleStart ≤ p)
    (begins : c.segment start sampleStart lost = some first) (made : c.segments start lost gaps = some segs) :
    ∃ seg s, SigmfMeta.segmentOf (first :: segs) p = some seg ∧ s ≤ p ∧
      c.segment start s (lost + lostWhere (· ≤ p) gaps) = some seg := by
  have reached' : first.sampleStart ≤ p := segment_start begins ▸ reached
  induction gaps generalizing lost sampleStart first segs with
  | nil =>
    cases made
    exact ⟨first, sampleStart, segmentOf_cons reached' [], reached, begins⟩
  | cons g gaps ih =>
    obtain ⟨next, follows, rest⟩ := Option.bind_eq_some_iff.mp made
    obtain ⟨others, follow, rfl⟩ := Option.map_eq_some_iff.mp rest
    obtain ⟨low, ordered⟩ := List.pairwise_cons.mp ordered
    by_cases here : g.1 ≤ p
    · obtain ⟨seg, s, its, before, same⟩ := ih ordered here follows follow (segment_start follows ▸ here)
      refine ⟨seg, s, ?_, before, ?_⟩
      · rw [segmentOf_cons reached', its]
        rfl
      · rw [lostWhere_cons, if_pos here, ← Nat.add_assoc]
        exact same
    · have none : (next :: others).filter (fun seg => seg.sampleStart ≤ p) = [] := by
        refine List.filter_eq_nil_iff.mpr fun seg member early => ?_
        obtain ⟨h, inside, start⟩ := segments_starts made seg member
        have early : seg.sampleStart ≤ p := of_decide_eq_true early
        obtain rfl | later := List.mem_cons.mp inside
        · omega
        · have := low h later
          omega
      have nothing : lostWhere (· ≤ p) (g :: gaps) = 0 := lostWhere_eq_zero fun h inside early => by
        obtain rfl | later := List.mem_cons.mp inside
        · exact here early
        · exact here ((low h later).trans early)
      refine ⟨first, sampleStart, ?_, reached, by rw [nothing]; exact begins⟩
      rw [segmentOf_cons reached', SigmfMeta.segmentOf, none]
      rfl

/-- A reader's time of a sample is half a microsecond off at most: what was lost
before the sample counts, and no error adds up. -/
theorem timeAt_near {doc : SigmfMeta} (exported : c.iqSigmfMeta = some doc) (starts : c.start = some (some t))
    (positive : 0 < c.rate) (ordered : c.gaps.Pairwise fun g h => g.1 ≤ h.1) (p : ℕ) :
    ∃ time, doc.timeAt p = some time ∧ |time - (t.instant + timeOf c.gaps p / c.rate * 10 ^ 6)| ≤ 1 / 2 := by
  rw [CaptureJson.iqSigmfMeta, starts, Option.bind_some] at exported
  obtain ⟨first, begins, made⟩ := Option.bind_eq_some_iff.mp exported
  obtain ⟨rest, follow, rfl⟩ := Option.map_eq_some_iff.mp made
  obtain ⟨seg, s, its, before, same⟩ := segmentOf_segments ordered (Nat.zero_le p) begins follow
  obtain ⟨u, read, instant⟩ := segment_time positive same
  refine ⟨u.instant + ((p - seg.sampleStart : ℕ) : ℚ) / c.rate * 10 ^ 6, ?_, ?_⟩
  · rw [SigmfMeta.timeAt, its, Option.bind_some, read]
    rfl
  · have near := RoundHalfEven.abs_error_le (((s + (0 + lostWhere (· ≤ p) c.gaps) : ℕ) : ℚ) / c.rate * 10 ^ 6)
    rw [abs_sub_comm] at near
    convert near using 2
    rw [instant, segment_start same, timeOf, Nat.cast_sub before]
    push_cast
    ring

end Times

end RFObserver
