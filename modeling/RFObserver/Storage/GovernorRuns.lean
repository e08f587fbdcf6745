import RFObserver.Storage.Governor

namespace RFObserver

open StorageGovernor

/-- A volume with its floor; `evictable` says whether anything on it can go. -/
structure VolumeCheck where
  free : ℤ
  floor : ℤ
  evictable : Bool

namespace VolumeCheck

variable (c : VolumeCheck)

def step (current : Nat) : Nat := volumeStep c.free c.floor c.evictable current

def UnderHalf : Prop := c.free < c.floor * hardFloorFraction

/-- Short with nothing evictable. -/
def Stuck : Prop := c.free < c.floor ∧ c.evictable = false

def Recovered : Prop := (c.floor : ℚ) * recoveryMargin ≤ c.free

instance Recovered.decidable : Decidable c.Recovered := inferInstanceAs (Decidable ((c.floor : ℚ) * _ ≤ c.free))

end VolumeCheck

/-- The data volume, and the volume of the database where it is another one. -/
def StorageSample.checks (sample : StorageSample) (minFreeGb : ℚ) : List VolumeCheck :=
  ⟨sample.data.freeBytes, sample.floor minFreeGb, sample.evictable (sample.floor minFreeGb)⟩ ::
    sample.dbVolume.toList.map fun volume =>
      ⟨volume.freeBytes, resolveFloor minFreeGb volume.totalBytes, false⟩

def GovernorCall.checks : GovernorCall → List VolumeCheck
  | .tick sample minFreeGb _ => sample.checks minFreeGb
  | _ => []

def GovernorCall.isTick : GovernorCall → Bool
  | .tick .. => true
  | _ => false

/-- One call of the governor, with the states around it. -/
structure GovernorRecord where
  call : GovernorCall
  before : StorageState
  after : StorageState
  actions : StorageActions

namespace GovernorRecord

def isTick (r : GovernorRecord) : Bool := r.call.isTick

/-- Every volume of the tick is at or above 1.15 times its floor. -/
def Recovered (r : GovernorRecord) : Prop := r.isTick = true ∧ ∀ c ∈ r.call.checks, c.Recovered

/-- The `n` latest ticks of a log, newest first, found every volume recovered. -/
def Streak : Nat → List GovernorRecord → Prop
  | 0, _ => True
  | _ + 1, [] => False
  | n + 1, r :: log => if r.isTick then r.Recovered ∧ Streak n log else Streak (n + 1) log

/-- The log is the history of `state` from `first` on. -/
def Linked (first : StorageState) : List GovernorRecord → StorageState → Prop
  | [], state => state = first
  | r :: log, state => r.after = state ∧ Linked first log r.before

/-- What holds of a call after the calls of `older`, newest first. -/
structure Sound (r : GovernorRecord) (older : List GovernorRecord) : Prop where
  moves : r.after.step ≠ r.before.step → r.isTick = true
  rises : (∀ c ∈ r.call.checks, c.step r.before.step ≤ r.after.step) ∧
    (r.before.step < r.after.step → ∃ c ∈ r.call.checks, c.step r.before.step = r.after.step)
  falls : r.after.step < r.before.step → r.after.step = 0 ∧ r.isTick = true ∧ Streak recoveryTicks (r :: older)
  refuses : r.before.step < 3 → 3 ≤ r.after.step → (∀ c ∈ r.call.checks, ¬ c.UnderHalf) →
    (∃ c ∈ r.call.checks, c.Stuck) ∧
      ∃ e ∈ older, e.isTick = true ∧ 2 ≤ e.after.step ∧ ∃ c ∈ e.call.checks, c.Stuck
  sticky : ∀ since, r.before.degradedSince = some since →
    r.after.degradedSince = some since ∨ r.call = .clearDegraded
  prunes : r.actions.startPressurePrune = true ↔ r.before.step < 2 ∧ 2 ≤ r.after.step
  evicts : ∀ target, r.actions.evictToFreeBytes = some target →
    ∃ sample minFreeGb now, r.call = .tick sample minFreeGb now ∧ sample.data.freeBytes < target ∧
      (sample.evictableAuto = true ∨ 0 < sample.oldBurstsBytes)

end GovernorRecord

open GovernorRecord

/-- A governor with the calls it has served, newest first. -/
structure StorageLadder where
  governor : StorageGovernor
  log : List GovernorRecord

namespace StorageLadder

variable {s : StorageLadder} {now : ℚ} {since : Option ℚ} {error : Option WriteError}

def start (now : ℚ) (since : Option ℚ) (error : Option WriteError) : StorageLadder :=
  ⟨started now since error, []⟩

def step (s : StorageLadder) (call : GovernorCall) : Option StorageLadder :=
  let served := s.governor.apply call
  some ⟨served.1, ⟨call, s.governor.state, served.1.state, served.2⟩ :: s.log⟩

def Reach (now : ℚ) (since : Option ℚ) (error : Option WriteError) : StorageLadder → Prop :=
  Runs.Reach step (start now since error) fun _ _ => True

structure Sound (first : StorageState) (s : StorageLadder) : Prop where
  linked : Linked first s.log s.governor.state
  calls : ∀ newer r older, s.log = newer ++ r :: older → r.Sound older

end StorageLadder

theorem truncate_nonneg {x : ℚ} (nonneg : 0 ≤ x) : 0 ≤ truncate x := by
  rw [truncate, if_pos nonneg]
  exact Int.floor_nonneg.mpr nonneg

theorem resolveFloor_nonneg (minFreeGb : ℚ) (totalBytes : ℤ) : 0 ≤ resolveFloor minFreeGb totalBytes := by
  unfold resolveFloor
  split
  case isTrue positive =>
    have gbPositive : (0 : ℚ) ≤ gb := by norm_num [gb]
    exact truncate_nonneg (mul_nonneg positive.le gbPositive)
  case isFalse =>
    have minimum : 0 ≤ autoFloorMinBytes := by decide
    exact minimum.trans (le_max_right _ _)

namespace VolumeCheck

variable {c : VolumeCheck}

theorem step_recovered (current : Nat) (nonneg : 0 ≤ c.floor) (recovered : c.Recovered) : c.step current = 0 := by
  have floor : (0 : ℚ) ≤ c.floor := by exact_mod_cast nonneg
  have margin : (c.floor : ℚ) * recoveryMargin ≤ c.free := recovered
  have enough : (c.floor : ℚ) ≤ c.free := by
    simp only [recoveryMargin] at margin
    linarith
  have notHalf : ¬ (c.free : ℚ) < c.floor * hardFloorFraction := by
    simp only [hardFloorFraction]
    linarith
  rw [VolumeCheck.step, volumeStep, if_neg notHalf, if_pos (by exact_mod_cast enough)]

/-- A step of 2 or more is asked for under half the floor, or when stuck. -/
theorem step_stuck {current : Nat} (high : 2 ≤ c.step current) (notHalf : ¬ c.UnderHalf) :
    c.Stuck ∧ (c.step current = 3 → 2 ≤ current) ∧ c.step current ≤ 3 := by
  unfold VolumeCheck.UnderHalf at notHalf
  unfold VolumeCheck.step volumeStep at high ⊢
  rw [if_neg notHalf] at high ⊢
  by_cases enough : c.free ≥ c.floor
  · rw [if_pos enough] at high
    omega
  · rw [if_neg enough] at high ⊢
    cases evictable : c.evictable with
    | true =>
      rw [evictable, if_pos rfl] at high
      omega
    | false =>
      refine ⟨⟨lt_of_not_ge enough, evictable⟩, ?_⟩
      rw [if_neg nofun]
      split <;> omega

/-- A step of 2 is never asked for under half the floor. -/
theorem step_two {current : Nat} (two : c.step current = 2) : c.Stuck := by
  refine (step_stuck two.ge fun half => ?_).1
  unfold VolumeCheck.UnderHalf at half
  rw [VolumeCheck.step, volumeStep, if_pos half] at two
  omega

end VolumeCheck

namespace StorageSample

variable {sample : StorageSample} {minFreeGb : ℚ}

theorem checks_floor_nonneg {c : VolumeCheck} (member : c ∈ sample.checks minFreeGb) : 0 ≤ c.floor := by
  rcases List.mem_cons.mp member with rfl | db
  · exact resolveFloor_nonneg ..
  · obtain ⟨volume, _, rfl⟩ := List.mem_map.mp db
    exact resolveFloor_nonneg ..

theorem step_le_rawStep {c : VolumeCheck} (current : Nat) (member : c ∈ sample.checks minFreeGb) :
    c.step current ≤ sample.rawStep minFreeGb current := by
  unfold checks at member
  unfold rawStep
  cases db : sample.dbVolume with
  | none =>
    rw [db] at member
    rw [List.mem_singleton.mp member]
    exact le_rfl
  | some volume =>
    rw [db] at member
    rcases List.mem_cons.mp member with rfl | other
    · exact le_max_left _ _
    · rw [List.mem_singleton.mp other]
      exact le_max_right _ _

theorem rawStep_asked (sample : StorageSample) (minFreeGb : ℚ) (current : Nat) :
    ∃ c ∈ sample.checks minFreeGb, c.step current = sample.rawStep minFreeGb current := by
  unfold checks rawStep
  cases db : sample.dbVolume with
  | none => exact ⟨_, List.mem_cons_self .., rfl⟩
  | some volume =>
    dsimp only
    rcases max_choice (volumeStep sample.data.freeBytes (sample.floor minFreeGb)
        (sample.evictable (sample.floor minFreeGb)) current)
      (volumeStep volume.freeBytes (resolveFloor minFreeGb volume.totalBytes) false current) with eq | eq
    · exact ⟨_, List.mem_cons_self .., eq.symm⟩
    · exact ⟨_, List.mem_cons_of_mem _ (List.mem_singleton_self _), eq.symm⟩

theorem recovered_iff : sample.recovered minFreeGb = true ↔ ∀ c ∈ sample.checks minFreeGb, c.Recovered := by
  unfold recovered checks
  cases db : sample.dbVolume <;> simp [VolumeCheck.Recovered]

theorem rawStep_recovered (current : Nat) (recovered : sample.recovered minFreeGb = true) :
    sample.rawStep minFreeGb current = 0 := by
  obtain ⟨c, member, asked⟩ := rawStep_asked sample minFreeGb current
  rw [← asked]
  exact VolumeCheck.step_recovered current (checks_floor_nonneg member) (recovered_iff.mp recovered c member)

end StorageSample

namespace StorageGovernor

variable {g : StorageGovernor}

theorem ladder_cases (raw : Nat) (recovered : Bool) :
    (g.state.step < raw ∧ g.ladder raw recovered = (raw, 0)) ∨
      (raw < g.state.step ∧ recovered = true ∧ recoveryTicks ≤ g.goodTicks + 1 ∧
        g.ladder raw recovered = (raw, 0)) ∨
      (raw < g.state.step ∧ recovered = true ∧ g.ladder raw recovered = (g.state.step, g.goodTicks + 1)) ∨
      (raw ≤ g.state.step ∧ g.ladder raw recovered = (g.state.step, 0)) := by
  unfold ladder
  by_cases rises : raw > g.state.step
  · rw [if_pos rises]
    exact Or.inl ⟨rises, rfl⟩
  · rw [if_neg rises]
    by_cases waits : raw < g.state.step ∧ recovered = true
    · rw [if_pos waits]
      by_cases enough : g.goodTicks + 1 ≥ recoveryTicks
      · rw [if_pos enough]
        exact Or.inr (Or.inl ⟨waits.1, waits.2, enough, rfl⟩)
      · rw [if_neg enough]
        exact Or.inr (Or.inr (Or.inl ⟨waits.1, waits.2, rfl⟩))
    · rw [if_neg waits]
      exact Or.inr (Or.inr (Or.inr ⟨not_lt.mp rises, rfl⟩))

/-- Only a tick moves the step and asks for anything. -/
theorem apply_quiet {call : GovernorCall} (quiet : call.isTick = false) :
    (g.apply call).1.state.step = g.state.step ∧ (g.apply call).1.goodTicks = g.goodTicks ∧
      (g.apply call).2 = ⟨none, false⟩ ∧ call.checks = [] := by
  cases call with
  | tick sample minFreeGb now => cases quiet
  | takeDegradedChange =>
    simp only [apply, takeDegradedChange]
    split <;> exact ⟨rfl, rfl, trivial, rfl⟩
  | _ => exact ⟨rfl, rfl, rfl, rfl⟩

theorem apply_degradedSince {call : GovernorCall} {since : ℚ} (degraded : g.state.degradedSince = some since) :
    (g.apply call).1.state.degradedSince = some since ∨ call = .clearDegraded := by
  cases call with
  | tick sample minFreeGb now =>
    left
    have set : ¬ (g.state.degradedSince = none) := by rw [degraded]; nofun
    simp only [apply, tick, set, and_false, if_false]
    exact degraded
  | reportWriteError message now =>
    left
    simp only [apply, reportWriteError, degraded, Option.getD_some]
  | takeDegradedChange =>
    left
    simp only [apply, takeDegradedChange]
    split <;> exact degraded
  | clearDegraded => exact Or.inr rfl
  | _ => exact Or.inl degraded

theorem tick_evicts (sample : StorageSample) (minFreeGb now : ℚ) {target : ℤ}
    (evicts : (g.tick sample minFreeGb now).2.evictToFreeBytes = some target) :
    sample.data.freeBytes < target ∧ (sample.evictableAuto = true ∨ 0 < sample.oldBurstsBytes) := by
  simp only [tick, Option.ite_none_right_eq_some, Option.some.injEq] at evicts
  obtain ⟨⟨_, victims, short⟩, rfl⟩ := evicts
  refine ⟨short, ?_⟩
  simp only [StorageSample.evictable, Bool.or_eq_true, decide_eq_true_eq] at victims
  obtain (auto | old) | old := victims
  · exact Or.inl auto
  · exact Or.inr old.1
  · exact Or.inr old

end StorageGovernor

namespace GovernorRecord

variable {r : GovernorRecord} {log : List GovernorRecord} {n : Nat}

theorem Streak.cons (recovered : r.Recovered) (streak : Streak n log) : Streak (n + 1) (r :: log) := by
  rw [Streak, if_pos recovered.1]
  exact ⟨recovered, streak⟩

theorem Streak.quiet (quiet : r.isTick = false) (streak : Streak n log) : Streak n (r :: log) := by
  cases n with
  | zero => trivial
  | succ n =>
    rw [Streak, if_neg (by rw [quiet]; nofun)]
    exact streak

theorem Streak.mono {m : Nat} (le : m ≤ n) (streak : Streak n log) : Streak m log := by
  induction log generalizing m n with
  | nil =>
    cases n with
    | zero => rw [Nat.le_zero.mp le]; trivial
    | succ n => exact streak.elim
  | cons r log ih =>
    cases m with
    | zero => trivial
    | succ m =>
      obtain ⟨n, rfl⟩ : ∃ k, n = k + 1 := ⟨n - 1, by omega⟩
      unfold Streak at streak ⊢
      split at streak
      case isTrue ticks =>
        rw [if_pos ticks]
        exact ⟨streak.1, ih (by omega) streak.2⟩
      case isFalse quiet =>
        rw [if_neg quiet]
        exact ih le streak

end GovernorRecord

namespace StorageLadder

variable {s : StorageLadder} {first : StorageState} {now : ℚ} {since : Option ℚ} {error : Option WriteError}

open GovernorRecord

/-- What the calls of a governor keep: its good ticks are a streak of the log,
and step 2 was entered by a stuck volume. -/
structure Kept (first : StorageState) (s : StorageLadder) : Prop extends s.Sound first where
  streak : Streak s.governor.goodTicks s.log
  entered : s.governor.state.step = 2 →
    ∃ e ∈ s.log, e.isTick = true ∧ 2 ≤ e.after.step ∧ ∃ c ∈ e.call.checks, c.Stuck

/-- The record of a call. -/
def record (s : StorageLadder) (call : GovernorCall) : GovernorRecord :=
  ⟨call, s.governor.state, (s.governor.apply call).1.state, (s.governor.apply call).2⟩

theorem Sound.add (sound : s.Sound first) {call : GovernorCall} (new : (s.record call).Sound s.log) :
    Sound first ⟨(s.governor.apply call).1, s.record call :: s.log⟩ := by
  refine ⟨⟨rfl, sound.linked⟩, fun newer r older split => ?_⟩
  cases newer with
  | nil =>
    obtain ⟨rfl, rfl⟩ := List.cons.inj split
    exact new
  | cons _ newer => exact sound.calls newer r older (List.cons.inj split).2

theorem Kept.quiet (kept : s.Kept first) {call : GovernorCall} (quiet : call.isTick = false) :
    Kept first ⟨(s.governor.apply call).1, s.record call :: s.log⟩ := by
  obtain ⟨step, good, actions, checks⟩ := s.governor.apply_quiet quiet
  have same : (s.record call).after.step = (s.record call).before.step := step
  have new : (s.record call).Sound s.log := by
    refine ⟨fun moved => absurd same moved, ⟨fun c member => ?_, fun rises => ?_⟩, fun falls => ?_,
      fun low high => ?_, fun since degraded => s.governor.apply_degradedSince degraded, ?_, fun target evicts => ?_⟩
    · rw [record, checks] at member
      cases member
    · omega
    · omega
    · omega
    · have none : (s.record call).actions.startPressurePrune = false := by rw [record, actions]
      rw [none]
      constructor
      · nofun
      · omega
    · rw [record, actions] at evicts
      cases evicts
  refine ⟨kept.toSound.add new, ?_, fun two => ?_⟩
  · dsimp only
    rw [good]
    exact kept.streak.quiet quiet
  · obtain ⟨e, member, entered⟩ := kept.entered (step.symm.trans two)
    exact ⟨e, List.mem_cons_of_mem _ member, entered⟩


/-- How a tick moves the step, and the streak it leaves. -/
theorem Kept.tick_moves (kept : s.Kept first) (sample : StorageSample) (minFreeGb now : ℚ) :
    let r := s.record (.tick sample minFreeGb now)
    let raw := sample.rawStep minFreeGb s.governor.state.step
    raw ≤ r.after.step ∧ (r.before.step < r.after.step → raw = r.after.step) ∧
      (r.after.step < r.before.step → r.after.step = 0 ∧ Streak recoveryTicks (r :: s.log)) ∧
      Streak (s.governor.tick sample minFreeGb now).1.goodTicks (r :: s.log) := by
  intro r raw
  have before : r.before = s.governor.state := rfl
  have after : r.after.step = (s.governor.ladder raw (sample.recovered minFreeGb)).1 := rfl
  have good : (s.governor.tick sample minFreeGb now).1.goodTicks =
    (s.governor.ladder raw (sample.recovered minFreeGb)).2 := rfl
  have calm : sample.recovered minFreeGb = true → r.Recovered :=
    fun recovered => ⟨rfl, StorageSample.recovered_iff.mp recovered⟩
  rw [after, good, before]
  rcases s.governor.ladder_cases raw (sample.recovered minFreeGb) with
    ⟨up, next⟩ | ⟨down, recovered, enough, next⟩ | ⟨down, recovered, next⟩ | ⟨stays, next⟩
  all_goals rw [next]
  · exact ⟨le_rfl, fun _ => rfl, fun falls => absurd falls up.not_gt, trivial⟩
  · have zero : raw = 0 := StorageSample.rawStep_recovered _ recovered
    have streak := (kept.streak.cons (calm recovered)).mono enough
    exact ⟨le_rfl, fun _ => rfl, fun _ => ⟨zero, streak⟩, trivial⟩
  · exact ⟨down.le, fun rises => absurd rises (lt_irrefl _), fun falls => absurd falls (lt_irrefl _),
      kept.streak.cons (calm recovered)⟩
  · exact ⟨stays, fun rises => absurd rises (lt_irrefl _), fun falls => absurd falls (lt_irrefl _), trivial⟩

theorem Kept.tick (kept : s.Kept first) (sample : StorageSample) (minFreeGb now : ℚ) :
    Kept first ⟨(s.governor.apply (.tick sample minFreeGb now)).1,
      s.record (.tick sample minFreeGb now) :: s.log⟩ := by
  obtain ⟨least, up, down, streak⟩ := kept.tick_moves sample minFreeGb now
  obtain ⟨worst, member, asked⟩ := sample.rawStep_asked minFreeGb s.governor.state.step
  have new : (s.record (.tick sample minFreeGb now)).Sound s.log := by
    refine ⟨fun _ => rfl, ⟨fun c member => ?_, fun rises => ⟨worst, member, asked.trans (up rises)⟩⟩,
      fun falls => ⟨(down falls).1, rfl, (down falls).2⟩, fun low high notHalf => ?_,
      fun since degraded => s.governor.apply_degradedSince degraded, decide_eq_true_iff,
      fun target evicts => ⟨sample, minFreeGb, now, rfl, tick_evicts sample minFreeGb now evicts⟩⟩
    · exact (StorageSample.step_le_rawStep _ member).trans least
    · have raised := asked.trans (up (lt_of_lt_of_le low high))
      have asksHigh : 2 ≤ worst.step s.governor.state.step := by omega
      obtain ⟨stuck, again, atMost⟩ := VolumeCheck.step_stuck asksHigh (notHalf worst member)
      have two : s.governor.state.step = 2 := by
        have entered : 2 ≤ s.governor.state.step := again (by omega)
        have under : s.governor.state.step < 3 := low
        omega
      exact ⟨⟨worst, member, stuck⟩, kept.entered two⟩
  refine ⟨kept.toSound.add new, streak, fun two => ?_⟩
  have after : (s.record (.tick sample minFreeGb now)).after.step = 2 := two
  rcases lt_trichotomy (s.record (.tick sample minFreeGb now)).before.step
    (s.record (.tick sample minFreeGb now)).after.step with rises | same | falls
  · have stuck := VolumeCheck.step_two (asked.trans ((up rises).trans after))
    exact ⟨_, List.mem_cons_self .., rfl, after.ge, worst, member, stuck⟩
  · obtain ⟨e, old, entered⟩ := kept.entered (same.trans after)
    exact ⟨e, List.mem_cons_of_mem _ old, entered⟩
  · have zero := (down falls).1
    omega

/-- In every run of the governor each call is sound. -/
theorem Reach.ladder_sound (reach : Reach now since error s) : s.Sound (started now since error).state := by
  have kept : s.Kept (started now since error).state := by
    refine Runs.Reach.invariant ?_ ?_ reach
    · exact ⟨⟨rfl, fun newer r older split => by cases newer <;> cases split⟩, trivial, nofun⟩
    · intro s call s' kept _ goes
      obtain rfl := Option.some.inj goes
      cases ticks : call.isTick with
      | false => exact kept.quiet ticks
      | true =>
        cases call with
        | tick sample minFreeGb now => exact kept.tick sample minFreeGb now
        | _ => cases ticks
  exact kept.toSound

/-- A data volume of 100 GB with this much free and nothing to evict. -/
def sampleAt (freeGb : ℤ) : StorageSample := ⟨⟨freeGb * gb, 100 * gb⟩, none, false, 0⟩

/-- Two short ticks reach step 3, and the third good one leaves it. -/
def shortAndBack : List GovernorCall :=
  [.tick (sampleAt 4) 0 1, .reportWriteError "ENOSPC" 2, .tick (sampleAt 4) 0 3, .tick (sampleAt 6) 0 4,
    .tick (sampleAt 6) 0 5, .tick (sampleAt 6) 0 6]

theorem Reach.ladder_sound_short : ∃ s : StorageLadder, Reach 0 none none s ∧
    s.log.map (fun r => r.after.step) = [0, 3, 3, 3, 2, 2] ∧ s.Sound (started 0 none none).state := by
  have final : (Runs.follow step (start 0 none none) shortAndBack).map
      (fun s => s.log.map fun r => r.after.step) = some [0, 3, 3, 3, 2, 2] := by decide +kernel
  obtain ⟨s, goes, steps⟩ := Option.map_eq_some_iff.mp final
  have reach : Reach 0 none none s := Runs.Reach.of_follow goes
  exact ⟨s, reach, steps, Reach.ladder_sound reach⟩

end StorageLadder

end RFObserver
