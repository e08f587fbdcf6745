import RFObserver.Lib.SlidingMin
import Mathlib.Tactic

/-! The capture clock: every chunk's start on the host's clock, from its device
time and the least offset between the two clocks over the last minute. -/

namespace RFObserver.Capture

open SlidingMin

def windowSec : ℚ := 60
def jumpSec : ℚ := 1
def jumpHoldSec : ℚ := 5

/-- The host times and offsets kept of recent chunks, and since when chunks have been late. -/
structure CaptureClock where
  mins : List (ℚ × ℚ) := []
  lateSince : Option ℚ := none

namespace CaptureClock

/-- Host time minus device time, as far as it is known. -/
def offset (clock : CaptureClock) : Option ℚ := clock.mins.head?.map Prod.snd

def reset (_ : CaptureClock) : CaptureClock := {}

/-- The chunk's offset exceeds the estimate in force by more than a jump. -/
def isLate (clock : CaptureClock) (sample : ℚ) : Bool :=
  clock.offset.any fun best => decide (jumpSec < sample - best)

/-- The chunk is late and chunks have been late for long enough to start over. -/
def startsOver (clock : CaptureClock) (sample hostNow : ℚ) : Bool :=
  clock.isLate sample && clock.lateSince.any fun since => decide (jumpHoldSec ≤ hostNow - since)

def judge (clock : CaptureClock) (sample hostNow : ℚ) : CaptureClock :=
  if clock.isLate sample then
    match clock.lateSince with
    | none => { clock with lateSince := some hostNow }
    | some since => if jumpHoldSec ≤ hostNow - since then clock.reset else clock
  else { clock with lateSince := none }

/-- How long a chunk lasts; a rate that is not positive gives it no length. -/
def duration (samples : ℕ) (rate : ℚ) : ℚ := if 0 < rate then samples / rate else 0

/-- The clock after a chunk and the chunk's start; no start where the code would
read the front of an empty queue. -/
def chunkStart (clock : CaptureClock) (deviceStart : Option ℚ) (samples : ℕ) (rate hostNow : ℚ) :
    CaptureClock × Option ℚ :=
  match deviceStart with
  | none => (clock, some (hostNow - duration samples rate))
  | some start =>
    let sample := hostNow - (start + duration samples rate)
    let judged := clock.judge sample hostNow
    let next := { judged with mins := expire (push judged.mins (hostNow, sample)) (hostNow - windowSec) }
    (next, next.offset.map (start + ·))

end CaptureClock

/-- A chunk with a device time, as the receiver hands it over. -/
structure TimedChunk where
  deviceStart : ℚ
  samples : ℕ
  rate : ℚ
  hostNow : ℚ

namespace TimedChunk

def duration (chunk : TimedChunk) : ℚ := CaptureClock.duration chunk.samples chunk.rate

/-- Host time minus the chunk's device end. -/
def offset (chunk : TimedChunk) : ℚ := chunk.hostNow - (chunk.deviceStart + chunk.duration)

end TimedChunk

namespace CaptureClock

variable (chunks : ℕ → TimedChunk)

/-- The clock before the `n`-th chunk. -/
def before : ℕ → CaptureClock
  | 0 => {}
  | n + 1 => ((before n).chunkStart (some (chunks n).deviceStart) (chunks n).samples (chunks n).rate
      (chunks n).hostNow).1

/-- The start returned for the `n`-th chunk. -/
def startOf (n : ℕ) : Option ℚ :=
  ((before chunks n).chunkStart (some (chunks n).deviceStart) (chunks n).samples (chunks n).rate
    (chunks n).hostNow).2

def lateAt (n : ℕ) : Prop := (before chunks n).isLate (chunks n).offset

def resetsAt (n : ℕ) : Prop := (before chunks n).startsOver (chunks n).offset (chunks n).hostNow

instance (n : ℕ) : Decidable (lateAt chunks n) := inferInstanceAs (Decidable (_ = true))

instance (n : ℕ) : Decidable (resetsAt chunks n) := inferInstanceAs (Decidable (_ = true))

/-- The chunks whose offsets count at the `n`-th: up to it, and not before the last reset. -/
def sinceReset (n : ℕ) : Set (ℚ × ℚ) :=
  {e | ∃ j ≤ n, (∀ l, j < l → l ≤ n → ¬ resetsAt chunks l) ∧ e = ((chunks j).hostNow, (chunks j).offset)}

/-- Every chunk from `j` up to the `n`-th, which is left out, was late and none started the clock over. -/
def LateFrom (j n : ℕ) : Prop := ∀ l, j ≤ l → l < n → lateAt chunks l ∧ ¬ resetsAt chunks l

theorem judge_startsOver {clock : CaptureClock} {sample hostNow : ℚ} (starts : clock.startsOver sample hostNow) :
    clock.judge sample hostNow = {} := by
  obtain ⟨late, held⟩ := (Bool.and_eq_true _ _).mp starts
  rcases known : clock.lateSince with _ | since
  · simp [known] at held
  · simp only [known, Option.any_some, decide_eq_true_eq] at held
    simp only [judge, late, if_true, known, held, reset]

theorem judge_mins {clock : CaptureClock} {sample hostNow : ℚ} (stays : ¬ clock.startsOver sample hostNow) :
    (clock.judge sample hostNow).mins = clock.mins := by
  by_cases late : clock.isLate sample
  · rcases known : clock.lateSince with _ | since
    · simp only [judge, late, if_true, known]
    · simp only [startsOver, late, known, Option.any_some, Bool.true_and, decide_eq_true_eq] at stays
      simp only [judge, late, if_true, known, stays, if_false]
  · simp only [judge, late, Bool.false_eq_true, if_false]

theorem judge_lateSince {clock : CaptureClock} {sample hostNow since : ℚ} (late : clock.isLate sample)
    (known : clock.lateSince = some since) (stays : ¬ clock.startsOver sample hostNow) :
    (clock.judge sample hostNow).lateSince = some since := by
  simp only [startsOver, late, known, Option.any_some, Bool.true_and, decide_eq_true_eq] at stays
  simp only [judge, late, if_true, known, stays, if_false]

theorem before_mins (n : ℕ) : (before chunks (n + 1)).mins =
    expire (push ((before chunks n).judge (chunks n).offset (chunks n).hostNow).mins
      ((chunks n).hostNow, (chunks n).offset)) ((chunks n).hostNow - windowSec) := rfl

theorem before_lateSince (n : ℕ) : (before chunks (n + 1)).lateSince =
    ((before chunks n).judge (chunks n).offset (chunks n).hostNow).lateSince := rfl

theorem startOf_eq (n : ℕ) :
    startOf chunks n = (before chunks (n + 1)).offset.map ((chunks n).deviceStart + ·) := rfl

theorem sinceReset_subset (n : ℕ) {e : ℚ × ℚ} (member : e ∈ sinceReset chunks n) :
    ∃ j ≤ n, e = ((chunks j).hostNow, (chunks j).offset) := by
  obtain ⟨j, le, -, rfl⟩ := member
  exact ⟨j, le, rfl⟩

/-- A reset leaves nothing of the earlier chunks. -/
theorem sinceReset_resets {n : ℕ} (resets : resetsAt chunks n) :
    sinceReset chunks n = {((chunks n).hostNow, (chunks n).offset)} := by
  ext e
  constructor
  · rintro ⟨j, le, none, rfl⟩
    rcases le.eq_or_lt with rfl | lt
    · rfl
    · exact absurd resets (none n lt le_rfl)
  · rintro rfl
    exact ⟨n, le_rfl, fun l after upto => absurd upto (not_le.mpr after), rfl⟩

theorem sinceReset_succ {n : ℕ} (stays : ¬ resetsAt chunks (n + 1)) :
    sinceReset chunks (n + 1) =
      insert ((chunks (n + 1)).hostNow, (chunks (n + 1)).offset) (sinceReset chunks n) := by
  ext e
  constructor
  · rintro ⟨j, le, none, rfl⟩
    rcases le.eq_or_lt with rfl | lt
    · exact .inl rfl
    · exact .inr ⟨j, Nat.le_of_lt_succ lt, fun l after upto => none l after (upto.trans n.le_succ), rfl⟩
  · rintro (rfl | ⟨j, le, none, rfl⟩)
    · exact ⟨n + 1, le_rfl, fun l after upto => absurd upto (not_le.mpr after), rfl⟩
    · refine ⟨j, le.trans n.le_succ, fun l after upto => ?_, rfl⟩
      rcases upto.eq_or_lt with rfl | lt
      · exact stays
      · exact none l after (Nat.le_of_lt_succ lt)

theorem not_resetsAt_zero : ¬ resetsAt chunks 0 := by
  simp [resetsAt, before, startsOver, isLate, offset]

theorem sinceReset_zero :
    sinceReset chunks 0 = insert ((chunks 0).hostNow, (chunks 0).offset) (∅ : Set (ℚ × ℚ)) := by
  ext e
  constructor
  · rintro ⟨j, le, -, rfl⟩
    rw [Nat.le_zero.mp le]
    exact .inl rfl
  · rintro (rfl | none)
    · exact ⟨0, le_rfl, fun l after upto => absurd upto (not_le.mpr after), rfl⟩
    · exact none.elim

variable {chunks}

/-- The queue after a chunk keeps the window over the chunks since the last reset. -/
theorem keeps (forward : Monotone fun n => (chunks n).hostNow) (n : ℕ) :
    Keeps ((chunks n).hostNow - windowSec) (sinceReset chunks n) (before chunks (n + 1)).mins := by
  have expired (m : ℕ) {old : Set (ℚ × ℚ)} {mins : List (ℚ × ℚ)} {start : ℚ} (kept : Keeps start old mins)
      (latest : ∀ e ∈ old, e.1 ≤ (chunks m).hostNow) (later : start ≤ (chunks m).hostNow - windowSec)
      (same : ((before chunks m).judge (chunks m).offset (chunks m).hostNow).mins = mins) :
      Keeps ((chunks m).hostNow - windowSec) (insert ((chunks m).hostNow, (chunks m).offset) old)
        (before chunks (m + 1)).mins := by
    rw [before_mins, same]
    exact (kept.push latest).expire later
  induction n with
  | zero =>
    rw [sinceReset_zero]
    exact expired 0 (Keeps.empty _) (by simp) le_rfl (judge_mins (not_resetsAt_zero chunks))
  | succ n ih =>
    by_cases resets : resetsAt chunks (n + 1)
    · rw [sinceReset_resets chunks resets, ← insert_empty_eq]
      refine expired (n + 1) (Keeps.empty _) (by simp) le_rfl ?_
      rw [judge_startsOver resets]
    · rw [sinceReset_succ chunks resets]
      refine expired (n + 1) ih (fun e old => ?_) (sub_le_sub_right (forward n.le_succ) _) (judge_mins resets)
      obtain ⟨j, le, rfl⟩ := sinceReset_subset chunks n old
      exact forward (le.trans n.le_succ)

/-- Each chunk's start is its device time and the least offset of the window. -/
theorem startOf_least (forward : Monotone fun n => (chunks n).hostNow) (n : ℕ) :
    ∃ start, startOf chunks n = some start ∧
      IsLeast {o | ∃ e ∈ sinceReset chunks n, (chunks n).hostNow - windowSec ≤ e.1 ∧ e.2 = o}
        (start - (chunks n).deviceStart) := by
  have kept := keeps forward n
  have filled : (before chunks (n + 1)).mins ≠ [] :=
    expire_push_ne_nil (sub_le_self _ (by decide : (0 : ℚ) ≤ windowSec))
  obtain ⟨front, rest, split⟩ := List.exists_cons_of_ne_nil filled
  refine ⟨(chunks n).deviceStart + front.2, by simp [startOf_eq, offset, split], ?_⟩
  rw [add_sub_cancel_left]
  rw [before_mins] at kept split
  exact kept.front_least (by rw [split, List.head?_cons])

variable (chunks) in
/-- What is remembered of lateness: the time of the first of the chunks that were
late one after another up to the `n`-th, or nothing when the last one ended them. -/
structure Remembers (n : ℕ) (lateSince : Option ℚ) : Prop where
  ended : lateSince = none → ∀ j < n, ¬ LateFrom chunks j n
  first : ∀ since, lateSince = some since →
    ∃ j < n, since = (chunks j).hostNow ∧ LateFrom chunks j n ∧ ∀ i < n, LateFrom chunks i n → j ≤ i

theorem LateFrom.before {i n : ℕ} (late : LateFrom chunks i (n + 1)) : LateFrom chunks i n :=
  fun l from_ lt => late l from_ (lt.trans n.lt_succ_self)

theorem LateFrom.last {i n : ℕ} (late : LateFrom chunks i (n + 1)) (le : i < n + 1) :
    lateAt chunks n ∧ ¬ resetsAt chunks n := late n (Nat.le_of_lt_succ le) n.lt_succ_self

theorem LateFrom.succ {i n : ℕ} (late : LateFrom chunks i n) (last : lateAt chunks n)
    (stays : ¬ resetsAt chunks n) : LateFrom chunks i (n + 1) := by
  intro l after lt
  rcases (Nat.le_of_lt_succ lt).eq_or_lt with rfl | earlier
  · exact ⟨last, stays⟩
  · exact late l after earlier

theorem Remembers.forgets {n : ℕ} (last : ¬ (lateAt chunks n ∧ ¬ resetsAt chunks n)) :
    Remembers chunks (n + 1) none :=
  ⟨fun _ _ lt late => last (late.last lt), by simp⟩

theorem Remembers.starts {n : ℕ} (ended : ∀ j < n, ¬ LateFrom chunks j n) (last : lateAt chunks n)
    (stays : ¬ resetsAt chunks n) : Remembers chunks (n + 1) (some (chunks n).hostNow) := by
  refine ⟨by simp, fun since same => ⟨n, n.lt_succ_self, (Option.some.inj same).symm, ?_, fun i lt late => ?_⟩⟩
  · exact LateFrom.succ (fun l after lt => absurd lt (not_lt.mpr after)) last stays
  · by_contra earlier
    exact ended i (not_le.mp earlier) late.before

theorem Remembers.goesOn {n : ℕ} {since : ℚ} (held : Remembers chunks n (some since)) (last : lateAt chunks n)
    (stays : ¬ resetsAt chunks n) : Remembers chunks (n + 1) (some since) := by
  obtain ⟨j, lt, rfl, late, first⟩ := held.first since rfl
  refine ⟨by simp, fun _ same => ⟨j, lt.trans n.lt_succ_self, (Option.some.inj same).symm, late.succ last stays, ?_⟩⟩
  intro i le lateI
  rcases (Nat.le_of_lt_succ le).eq_or_lt with rfl | earlier
  · exact lt.le
  · exact first i earlier lateI.before

theorem remembers (n : ℕ) : Remembers chunks n (before chunks n).lateSince := by
  induction n with
  | zero => exact ⟨fun _ j lt => absurd lt (Nat.not_lt_zero j), by simp [before]⟩
  | succ n ih =>
    rw [before_lateSince]
    by_cases resets : resetsAt chunks n
    · rw [judge_startsOver resets]
      exact .forgets fun last => last.2 resets
    · by_cases late : lateAt chunks n
      · rcases known : (before chunks n).lateSince with _ | since
        · rw [known] at ih
          simp only [judge, show (before chunks n).isLate (chunks n).offset = true from late, if_true, known]
          exact .starts (ih.ended rfl) late resets
        · rw [known] at ih
          rw [judge_lateSince late known resets]
          exact ih.goesOn late resets
      · simp only [judge, show ¬ (before chunks n).isLate (chunks n).offset = true from late]
        exact .forgets fun last => late last.1

/-- The clock starts over at a late chunk when the chunks have been late one
after another, without a reset, from one at least the hold time earlier. -/
theorem resetsAt_iff (forward : Monotone fun n => (chunks n).hostNow) (n : ℕ) :
    resetsAt chunks n ↔ lateAt chunks n ∧
      ∃ j < n, (chunks j).hostNow ≤ (chunks n).hostNow - jumpHoldSec ∧ LateFrom chunks j n := by
  have held : Remembers chunks n (before chunks n).lateSince := remembers n
  constructor
  · intro resets
    obtain ⟨late, long⟩ := (Bool.and_eq_true _ _).mp resets
    rcases known : (before chunks n).lateSince with _ | since
    · simp [known] at long
    · obtain ⟨j, lt, rfl, lateFrom, -⟩ := held.first since known
      rw [known, Option.any_some, decide_eq_true_eq] at long
      exact ⟨late, j, lt, by linarith, lateFrom⟩
  · rintro ⟨late, i, lt, hold, lateFrom⟩
    rcases known : (before chunks n).lateSince with _ | since
    · exact absurd lateFrom (held.ended known i lt)
    · obtain ⟨j, -, rfl, -, first⟩ := held.first since known
      have earlier := forward (first i lt lateFrom)
      simp only at earlier
      refine (Bool.and_eq_true _ _).mpr ⟨late, ?_⟩
      rw [known, Option.any_some, decide_eq_true_eq]
      linarith

theorem mem_sinceReset (n : ℕ) : ((chunks n).hostNow, (chunks n).offset) ∈ sinceReset chunks n :=
  ⟨n, le_rfl, fun _ after upto => absurd upto (not_le.mpr after), rfl⟩

/-- Each chunk's start is its device time and the least offset of the last minute
since the last reset, so it is not after the chunk's arrival less its duration;
and the clock starts over exactly when lateness has held since the last reset. -/
theorem windowedMinimum (chunks : ℕ → TimedChunk) (forward : Monotone fun n => (chunks n).hostNow) (n : ℕ) :
    (∃ start, startOf chunks n = some start ∧
      IsLeast {o | ∃ e ∈ sinceReset chunks n, (chunks n).hostNow - windowSec ≤ e.1 ∧ e.2 = o}
        (start - (chunks n).deviceStart) ∧
      start ≤ (chunks n).hostNow - (chunks n).duration) ∧
    (resetsAt chunks n ↔ lateAt chunks n ∧
      ∃ j < n, (chunks j).hostNow ≤ (chunks n).hostNow - jumpHoldSec ∧ LateFrom chunks j n) := by
  obtain ⟨start, returned, least⟩ := startOf_least forward n
  refine ⟨⟨start, returned, least, ?_⟩, resetsAt_iff forward n⟩
  have own := least.2 ⟨_, mem_sinceReset n, sub_le_self _ (by decide : (0 : ℚ) ≤ windowSec), rfl⟩
  simp only [TimedChunk.offset] at own
  linarith

/-- One-second chunks whose device clock falls behind by two seconds at the second
of them and by two more at the fourth. -/
def fallsBackTwice (n : ℕ) : TimedChunk :=
  { deviceStart := [9, 8, 13, 12].getD n 16, samples := 1, rate := 1, hostNow := [10, 11, 16, 17].getD n 21 }

theorem fallsBackTwice_forward : Monotone fun n => (fallsBackTwice n).hostNow := by
  refine monotone_nat_of_le_succ fun n => ?_
  rcases n with _ | _ | _ | _ | n <;> simp [fallsBackTwice] <;> norm_num

/-- The third chunk starts the clock over, and at the fifth the least offset is the two seconds since. -/
theorem windowedMinimum_fallsBackTwice :
    resetsAt fallsBackTwice 2 ∧ startOf fallsBackTwice 4 = some 18 ∧
      IsLeast {o | ∃ e ∈ sinceReset fallsBackTwice 4, (fallsBackTwice 4).hostNow - windowSec ≤ e.1 ∧ e.2 = o}
        (18 - (fallsBackTwice 4).deviceStart) := by
  have known : startOf fallsBackTwice 4 = some 18 := by decide +kernel
  obtain ⟨start, returned, least, -⟩ := (windowedMinimum fallsBackTwice fallsBackTwice_forward 4).1
  have same : 18 = start := Option.some.inj (known.symm.trans returned)
  exact ⟨by decide +kernel, known, by rwa [same]⟩

/-- Lateness from before a reset does not count towards the next one: the third
chunk is late, long enough before the fifth and late at every step since, and the
fifth does not start the clock over. -/
theorem resetsAt_lateAlone_fails : ¬ ∀ chunks : ℕ → TimedChunk, (Monotone fun n => (chunks n).hostNow) →
    ∀ n, (resetsAt chunks n ↔ lateAt chunks n ∧
      ∃ j < n, (chunks j).hostNow ≤ (chunks n).hostNow - jumpHoldSec ∧
        ∀ l, j ≤ l → l < n → lateAt chunks l) := by
  intro all
  have late : ∀ l < 4, 2 ≤ l → lateAt fallsBackTwice l := by decide +kernel
  have resets := (all fallsBackTwice fallsBackTwice_forward 4).mpr
    ⟨by decide +kernel, 2, by decide, by decide +kernel, fun l after lt => late l lt after⟩
  exact absurd resets (by decide +kernel)

end CaptureClock

end RFObserver.Capture
