import RFObserver.Lib.GreedyPick
import RFObserver.Lib.OptionList
import RFObserver.Web.RangeRoutes

/-! The strongest separated events of a range, for the Dashboard's peak finder.
Lengths of time are in microseconds. -/

namespace RFObserver
open IsoTime

/-- A time with an offset. -/
def AwareTime : Type := {t : DateTime // t.offset.isSome}

/-- A rollup row considered for selection. -/
structure Candidate where
  peakTime : AwareTime
  value : ℚ
  pwrMax : Option ℚ
  pwrSnr : Option ℚ
  pwrAvg : Option ℚ

/-- A selected peak and the time range the Dashboard should open for it. -/
structure Peak where
  rank : Nat
  peakTime : AwareTime
  since : DateTime
  until_ : DateTime
  value : ℚ
  pwrMax : Option ℚ
  pwrSnr : Option ℚ
  pwrAvg : Option ℚ

/-- A timedelta has fewer than a billion days either way; none is an OverflowError. -/
def timedelta (micros : ℤ) : Option ℤ :=
  if -(999999999 * 86400 * 10 ^ 6) ≤ micros ∧ micros < 1000000000 * 86400 * 10 ^ 6 then some micros else none

/-- The clock moved, at the same offset; none is an OverflowError. -/
def plus (t : DateTime) (micros : ℤ) : Option DateTime :=
  if 0 ≤ t.wall + micros then DateTime.ofWall (t.wall + micros).toNat t.offset else none

namespace Candidate

def instant (c : Candidate) : ℤ := c.peakTime.val.instant

/-- `abs(c.peak_time - d.peak_time) < gap` -/
def Near (gap : ℤ) (c d : Candidate) : Prop := |c.instant - d.instant| < gap

instance Near.decidable (gap : ℤ) : DecidableRel (Near gap) := fun c d =>
  inferInstanceAs (Decidable (|c.instant - d.instant| < gap))

def peak (half : ℤ) (now : DateTime) (rank : Nat) (c : Candidate) : Option Peak :=
  (plus c.peakTime.val half).bind fun until_ => (plus c.peakTime.val (-half)).map fun since =>
    { rank, peakTime := c.peakTime, since
      until_ := if now.instant < until_.instant then now else until_
      value := c.value, pwrMax := c.pwrMax, pwrSnr := c.pwrSnr, pwrAvg := c.pwrAvg }

/-- The window around the candidate lies in the years of the calendar. -/
def Opens (half : ℤ) (c : Candidate) : Prop :=
  (plus c.peakTime.val half).isSome ∧ (plus c.peakTime.val (-half)).isSome

end Candidate

/-- What a peak was selected from. -/
def Peak.candidate (p : Peak) : Candidate := ⟨p.peakTime, p.value, p.pwrMax, p.pwrSnr, p.pwrAvg⟩

/-- The strongest first, equal ones as they were. -/
def ranked (candidates : List Candidate) : List Candidate := candidates.insertionSort fun a b => b.value ≤ a.value

/-- Up to `count` peaks no closer together than `windowSec`, the strongest first. -/
def selectPeaks (candidates : List Candidate) (windowSec : ℤ) (count : Nat) (now : DateTime) : Option (List Peak) :=
  (timedelta (windowSec * 500000)).bind fun half => (timedelta (windowSec * 1000000)).bind fun gap =>
    let chosen := GreedyPick.pick (Candidate.Near gap) count [] (ranked candidates)
    (chosen.zipIdx 1).mapM fun c => c.1.peak half now c.2

namespace Ranges

theorem asUtc_aware (t : DateTime) : (asUtc t).offset.isSome := by
  unfold asUtc
  split_ifs with naive
  · rfl
  · exact Option.isSome_iff_ne_none.mpr naive

/-- The candidate of a row, unless it lies outside the range. -/
def candidate (since until_ : DateTime) (row : AvgMinutePeak) : Option Candidate :=
  (fromisoformat (utcText row.peakTime)).bind fun t =>
    if (asUtc t).instant < since.instant ∨ until_.instant ≤ (asUtc t).instant then none
    else some ⟨⟨asUtc t, asUtc_aware t⟩, row.value, row.pwrMax, row.pwrSnr, row.pwrAvg⟩

/-- The peaks of the page, from the rows of the query. -/
def pagePeaks (since until_ : DateTime) (windowSec : ℤ) (count : Nat) (now : DateTime) (rows : List AvgMinutePeak) :
    Option (List Peak) :=
  selectPeaks (rows.filterMap (candidate since until_)) windowSec count now

end Ranges

/-- The chosen are few, apart and in the order of their values, the strongest
candidate first, and no candidate passed over could be added. -/
structure Separated (candidates : List Candidate) (windowSec : ℤ) (count : Nat) (chosen : List Candidate) : Prop where
  few : chosen.length ≤ count
  apart : chosen.Pairwise fun a b => windowSec * 1000000 ≤ |a.instant - b.instant|
  ordered : chosen.Pairwise fun a b => b.value ≤ a.value
  covered : ∃ passed : List Candidate, (chosen ++ passed).Perm candidates ∧ ∀ a ∈ passed,
    (∃ c ∈ chosen, a.Near (windowSec * 1000000) c ∧ a.value ≤ c.value) ∨
      chosen.length = count ∧ ∀ c ∈ chosen, a.value ≤ c.value
  strongest : ∀ a ∈ candidates, ∃ c ∈ chosen.head?, a.value ≤ c.value

variable {candidates : List Candidate} {windowSec : ℤ} {count : Nat} {now : DateTime}

theorem Candidate.near_symm {gap : ℤ} (c d : Candidate) (near : c.Near gap d) : d.Near gap c := by
  unfold Candidate.Near at near ⊢
  rwa [abs_sub_comm]

theorem ranked_pairwise : (ranked candidates).Pairwise fun a b => b.value ≤ a.value := List.pairwise_insertionSort ..

theorem ranked_perm : (ranked candidates).Perm candidates := List.perm_insertionSort ..

theorem pick_separated (room : 0 < count) : Separated candidates windowSec count
    (GreedyPick.pick (Candidate.Near (windowSec * 1000000)) count [] (ranked candidates)) := by
  refine ⟨GreedyPick.length_pick (Nat.zero_le count), ?_, ?_, ?_, fun a member => ?_⟩
  · refine (GreedyPick.pick_pairwise Candidate.near_symm .nil).imp fun {a b} far => ?_
    exact not_lt.mp far
  · exact ranked_pairwise.sublist GreedyPick.pick_sublist
  · obtain ⟨passed, whole, reasons⟩ := @GreedyPick.pick_passed Candidate (Candidate.Near (windowSec * 1000000)) _ count
      [] (ranked candidates) _ ranked_pairwise
    exact ⟨passed, whole.trans ranked_perm, reasons⟩
  · rw [GreedyPick.head?_pick room]
    have listed := ranked_perm.mem_iff.mpr member
    have sorted : (ranked candidates).Pairwise fun a b => b.value ≤ a.value := ranked_pairwise
    cases first : ranked candidates with
    | nil =>
      rw [first] at listed
      cases listed
    | cons c rest =>
      rw [first] at listed sorted
      refine ⟨c, rfl, ?_⟩
      rcases List.mem_cons.mp listed with rfl | later
      · exact le_rfl
      · exact (List.pairwise_cons.mp sorted).1 a later

theorem Candidate.peak_candidate {half : ℤ} {rank : Nat} {c : Candidate} {p : Peak}
    (opened : c.peak half now rank = some p) : p.candidate = c := by
  obtain ⟨until_, -, rest⟩ := Option.bind_eq_some_iff.mp opened
  obtain ⟨since, -, rfl⟩ := Option.map_eq_some_iff.mp rest
  rfl

/-- The peaks are the chosen candidates, in their order. -/
theorem peaks_candidates {half : ℤ} {chosen : List Candidate} {first : Nat} {peaks : List Peak}
    (opened : ((chosen.zipIdx first).mapM fun c => c.1.peak half now c.2) = some peaks) :
    peaks.map Peak.candidate = chosen := by
  induction chosen generalizing first peaks with
  | nil =>
    obtain rfl : peaks = [] := by simpa using opened.symm
    rfl
  | cons c chosen ih =>
    rw [List.zipIdx_cons, List.mapM_cons] at opened
    obtain ⟨p, here, rest⟩ := Option.bind_eq_some_iff.mp opened
    obtain ⟨others, later, ends⟩ := Option.bind_eq_some_iff.mp rest
    obtain rfl := Option.some.inj ends
    rw [List.map_cons, c.peak_candidate here, ih later]

theorem timedelta_some {micros length : ℤ} (fits : timedelta micros = some length) : length = micros := by
  unfold timedelta at fits
  split_ifs at fits
  exact (Option.some.inj fits).symm

/-- Half of what fits fits. -/
theorem timedelta_half (fits : (timedelta (windowSec * 1000000)).isSome) :
    timedelta (windowSec * 500000) = some (windowSec * 500000) := by
  unfold timedelta at fits ⊢
  split_ifs at fits with inRange
  · refine if_pos ?_
    omega
  · cases fits

theorem selected_separated (room : 0 < count) {peaks : List Peak}
    (selected : selectPeaks candidates windowSec count now = some peaks) :
    Separated candidates windowSec count (peaks.map Peak.candidate) := by
  obtain ⟨half, -, rest⟩ := Option.bind_eq_some_iff.mp selected
  obtain ⟨gap, fits, opened⟩ := Option.bind_eq_some_iff.mp rest
  obtain rfl := timedelta_some fits
  rw [peaks_candidates opened]
  exact pick_separated room

theorem selectPeaks_isSome (fits : (timedelta (windowSec * 1000000)).isSome)
    (opens : ∀ c ∈ candidates, c.Opens (windowSec * 500000)) : (selectPeaks candidates windowSec count now).isSome := by
  obtain ⟨gap, whole⟩ := Option.isSome_iff_exists.mp fits
  unfold selectPeaks
  rw [timedelta_half fits, whole, Option.bind_some, Option.bind_some, Option.isSome_iff_exists,
    OptionList.mapM_isSome]
  intro c chosen
  have listed : c.1 ∈ candidates := by
    have taken := GreedyPick.pick_sublist.subset (List.fst_mem_of_mem_zipIdx chosen)
    exact ranked_perm.mem_iff.mp taken
  obtain ⟨above, below⟩ := opens c.1 listed
  obtain ⟨until_, ends⟩ := Option.isSome_iff_exists.mp above
  obtain ⟨since, starts⟩ := Option.isSome_iff_exists.mp below
  rw [Candidate.peak, ends, starts]
  exact ⟨_, rfl⟩

/-- Each peak of the page is of a row and starts inside the range. -/
theorem Ranges.pagePeaks_inside {since until_ : DateTime} {rows : List AvgMinutePeak} {peaks : List Peak}
    (room : 0 < count) (shown : pagePeaks since until_ windowSec count now rows = some peaks) :
    ∀ p ∈ peaks, since.instant ≤ p.peakTime.val.instant ∧ p.peakTime.val.instant < until_.instant ∧
      ∃ row ∈ rows, row.value = p.value := by
  intro p member
  obtain ⟨passed, perm, -⟩ := (selected_separated room shown).covered
  have listed := perm.mem_iff.mp (List.mem_append_left passed (List.mem_map_of_mem member))
  obtain ⟨row, inRows, made⟩ := List.mem_filterMap.mp listed
  obtain ⟨t, -, kept⟩ := Option.bind_eq_some_iff.mp made
  split_ifs at kept with outside
  have same : (⟨⟨asUtc t, asUtc_aware t⟩, row.value, row.pwrMax, row.pwrSnr, row.pwrAvg⟩ : Candidate) = p.candidate :=
    Option.some.inj kept
  have time : asUtc t = p.peakTime.val := congrArg (fun c => c.peakTime.val) same
  rw [time] at outside
  push Not at outside
  exact ⟨outside.1, outside.2, row, inRows, congrArg Candidate.value same⟩

/-- What is returned is separated, and nothing is raised when the window is a
timedelta and lies in the calendar around every candidate. -/
theorem selectPeaks_separated (candidates : List Candidate) (windowSec : ℤ) (count : Nat) (now : DateTime)
    (positive : 1 ≤ count) :
    (∀ peaks, selectPeaks candidates windowSec count now = some peaks →
      Separated candidates windowSec count (peaks.map Peak.candidate)) ∧
      ((timedelta (windowSec * 1000000)).isSome → (∀ c ∈ candidates, c.Opens (windowSec * 500000)) →
        (selectPeaks candidates windowSec count now).isSome) :=
  ⟨fun _ => selected_separated positive, selectPeaks_isSome⟩

theorem secondOfMay_year : 1 ≤ 2026 ∧ 2026 ≤ 9999 := by decide

theorem secondOfMay_month : 1 ≤ 5 ∧ 5 ≤ 12 := by decide

def secondOfMay (minute second : Fin 60) : AwareTime :=
  ⟨⟨⟨2026, 5, 2, secondOfMay_year, secondOfMay_month, by decide⟩, 12, minute, second, 0, some 0,
    ⟨by decide, minute.isLt, second.isLt, by decide⟩, Ranges.zone_zero⟩, rfl⟩

/-- Of three events the weaker neighbour of the strongest is passed over. -/
theorem selectPeaks_separated_three :
    ((selectPeaks [⟨secondOfMay 10 0, 3, none, none, none⟩, ⟨secondOfMay 0 0, 5, none, none, none⟩,
        ⟨secondOfMay 0 20, 4, none, none, none⟩] 60 2 (secondOfMay 59 59).val).map fun peaks =>
          peaks.map Peak.value) = some [5, 3] ∧
      ∀ peaks, selectPeaks [⟨secondOfMay 10 0, 3, none, none, none⟩, ⟨secondOfMay 0 0, 5, none, none, none⟩,
        ⟨secondOfMay 0 20, 4, none, none, none⟩] 60 2 (secondOfMay 59 59).val = some peaks →
          Separated [⟨secondOfMay 10 0, 3, none, none, none⟩, ⟨secondOfMay 0 0, 5, none, none, none⟩,
            ⟨secondOfMay 0 20, 4, none, none, none⟩] 60 2 (peaks.map Peak.candidate) :=
  ⟨by decide +kernel, (selectPeaks_separated _ 60 2 _ (by decide)).1⟩

def lastSecond : AwareTime :=
  ⟨⟨⟨9999, 12, 31, by decide, by decide, by decide⟩, 23, 59, 59, 0, some 0, by decide, Ranges.zone_zero⟩, rfl⟩

/-- The window of an event in the last minutes of the year 9999 ends in no year. -/
theorem selectPeaks_lastSecond : ¬ ∃ peaks, selectPeaks [⟨lastSecond, 1, none, none, none⟩] 1800 1 lastSecond.val =
    some peaks ∧ Separated [⟨lastSecond, 1, none, none, none⟩] 1800 1 (peaks.map Peak.candidate) := by
  have raised : (selectPeaks [⟨lastSecond, 1, none, none, none⟩] 1800 1 lastSecond.val).isSome = false := by
    decide +kernel
  intro ⟨peaks, selected, _⟩
  rw [selected] at raised
  cases raised

end RFObserver
