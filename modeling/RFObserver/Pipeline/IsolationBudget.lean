import RFObserver.Pipeline.IsolationFates

namespace RFObserver.IsolationStage

variable {s s' : IsolationStage} {settings : IsolationSettings}

/-- A batch as it comes to the gate, and what the monotonic clock shows then. -/
structure GatedBatch where
  cands : List BurstCandidate
  sampleRateHz : ℚ
  clock : ℚ
  deriving DecidableEq

namespace GatedBatch

variable (batch : GatedBatch)

/-- The clock of the budget: stream time of the newest stop sample, or the
monotonic clock for a batch without positions. -/
def reading : ℚ :=
  match (batch.cands.filterMap fun c => c.burst.stopSample).max? with
  | some stop => if 0 < batch.sampleRateHz then stop / batch.sampleRateHz else batch.clock
  | none => batch.clock

def passing (snrDb : ℚ) : List BurstCandidate := batch.cands.filter fun c => snrDb ≤ c.snrDb

/-- The positions are places in a stream, and the monotonic clock is not below zero. -/
def Positioned : Prop := (∀ c ∈ batch.cands, ∀ stop ∈ c.burst.stopSample, 0 ≤ stop) ∧ 0 ≤ batch.clock

instance : Decidable batch.Positioned := inferInstanceAs (Decidable (_ ∧ _))

theorem reading_nonneg {batch : GatedBatch} (positioned : batch.Positioned) : 0 ≤ batch.reading := by
  unfold reading
  split
  case h_1 stop newest =>
    obtain ⟨c, member, known⟩ := List.mem_filterMap.mp (List.max?_mem newest)
    have stopNonneg := positioned.1 c member stop known
    split_ifs with rate
    · exact div_nonneg (by exact_mod_cast stopNonneg) rate.le
    · exact positioned.2
  case h_2 => exact positioned.2

end GatedBatch

/-- The batch opens a window where `start` opened the one before. -/
def opens (start reading : ℚ) : Prop := reading < start ∨ 1 ≤ reading - start

instance (start reading : ℚ) : Decidable (opens start reading) := inferInstanceAs (Decidable (_ ∨ _))

/-- What the gate picks of a batch. -/
def gatePicks (s : IsolationStage) (batch : GatedBatch) : List BurstCandidate :=
  (s.gate batch.cands batch.sampleRateHz batch.clock).1

/-- The stage with a batch gated, and nothing else done. -/
def takeBatch (s : IsolationStage) (batch : GatedBatch) : IsolationStage :=
  let (picked, windowStart, windowCount) := s.gate batch.cands batch.sampleRateHz batch.clock
  { s with windowStart := windowStart, windowCount := windowCount, picks := s.picks ++ picked }

/-- The batches one after another, each with its picks. -/
def gateAll (s : IsolationStage) : List GatedBatch → List (GatedBatch × List BurstCandidate)
  | [] => []
  | batch :: rest =>
    (batch, s.gatePicks batch) :: gateAll (s.takeBatch batch) rest

/-- The picks are `room` of the candidates that pass, or all of them, and the strongest. -/
structure Strongest (passing picks : List BurstCandidate) (room : Nat) : Prop where
  count : picks.length = min room passing.length
  above : ∃ left, (picks ++ left).Perm passing ∧ ∀ p ∈ picks, ∀ c ∈ left, c.snrDb ≤ p.snrDb

/-- Each batch's picks are its strongest, as many as `used` and the batches before it leave of the budget. -/
def Fills (settings : IsolationSettings) : ℤ → List (GatedBatch × List BurstCandidate) → Prop
  | _, [] => True
  | used, (batch, picks) :: rest =>
    Strongest (batch.passing settings.snrDb) picks (max 0 (settings.maxPerSec - used)).toNat ∧
      Fills settings (used + picks.length) rest

/-- The batches of one window, the one that opens it first, with their picks. -/
structure BudgetWindow where
  opener : GatedBatch × List BurstCandidate
  others : List (GatedBatch × List BurstCandidate)

namespace BudgetWindow

variable (window : BudgetWindow)

def batches : List (GatedBatch × List BurstCandidate) := window.opener :: window.others

def reading : ℚ := window.opener.1.reading

/-- How many picks the window has. -/
def size : Nat := (window.batches.map fun b => b.2.length).sum

end BudgetWindow

theorem strongest_take (passing : List BurstCandidate) (room : Nat) :
    Strongest passing ((passing.insertionSort fun a b => b.snrDb ≤ a.snrDb).take room) room := by
  have total : Std.Total fun a b : BurstCandidate => b.snrDb ≤ a.snrDb := ⟨fun a b => le_total b.snrDb a.snrDb⟩
  have trans : IsTrans BurstCandidate fun a b => b.snrDb ≤ a.snrDb := ⟨fun a b c first second => second.trans first⟩
  refine ⟨by rw [List.length_take, List.length_insertionSort],
    (passing.insertionSort fun a b => b.snrDb ≤ a.snrDb).drop room, ?_, ?_⟩
  · rw [List.take_append_drop]
    exact List.perm_insertionSort ..
  · have sorted := List.pairwise_insertionSort (fun a b : BurstCandidate => b.snrDb ≤ a.snrDb) passing
    rw [← List.take_append_drop room (passing.insertionSort _), List.pairwise_append] at sorted
    exact sorted.2.2

/-- The gate with its clock and its window named. -/
theorem gate_eq (s : IsolationStage) (batch : GatedBatch) :
    s.gate batch.cands batch.sampleRateHz batch.clock =
      (let used := if opens s.windowStart batch.reading then 0 else s.windowCount
       let picked := ((batch.passing s.settings.snrDb).insertionSort fun a b => b.snrDb ≤ a.snrDb).take
         (max 0 (s.settings.maxPerSec - used)).toNat
       (picked, if opens s.windowStart batch.reading then batch.reading else s.windowStart,
         used + picked.length)) := by
  unfold gate GatedBatch.reading GatedBatch.passing opens
  dsimp only
  cases (batch.cands.filterMap fun c => c.burst.stopSample).max? <;> (simp only [decide_eq_true_eq]; rfl)

theorem takeBatch_opens {batch : GatedBatch} (fresh : opens s.windowStart batch.reading) :
    Strongest (batch.passing s.settings.snrDb) (s.gatePicks batch)
        (max 0 (s.settings.maxPerSec - 0)).toNat ∧
      (s.takeBatch batch).windowStart = batch.reading ∧ (s.takeBatch batch).windowCount =
        0 + (s.gatePicks batch).length := by
  simp only [takeBatch, gatePicks, gate_eq, fresh, if_true, and_true]
  exact strongest_take ..

theorem takeBatch_goesOn {batch : GatedBatch} (same : ¬ opens s.windowStart batch.reading) :
    Strongest (batch.passing s.settings.snrDb) (s.gatePicks batch)
        (max 0 (s.settings.maxPerSec - s.windowCount)).toNat ∧
      (s.takeBatch batch).windowStart = s.windowStart ∧ (s.takeBatch batch).windowCount =
        s.windowCount + (s.gatePicks batch).length := by
  simp only [takeBatch, gatePicks, gate_eq, same, if_false, and_true]
  exact strongest_take ..

/-- From a window that is open: some batches still belong to it, and the others divide into windows. -/
theorem gateAll_divides (s : IsolationStage) (batches : List GatedBatch) :
    ∃ (more : List (GatedBatch × List BurstCandidate)) (windows : List BudgetWindow), gateAll s batches = more ++ windows.flatMap BudgetWindow.batches ∧
      Fills s.settings s.windowCount more ∧ (∀ w ∈ windows, Fills s.settings 0 w.batches) ∧
      (s.windowStart :: windows.map BudgetWindow.reading).IsChain opens ∧
      ∀ batch ∈ batches.head?, opens s.windowStart batch.reading → more = [] := by
  induction batches generalizing s with
  | nil => exact ⟨[], [], rfl, trivial, by simp, List.isChain_singleton _, by simp⟩
  | cons batch rest ih =>
    obtain ⟨more, windows, split, fills, each, chain, -⟩ := ih (s.takeBatch batch)
    have settings : (s.takeBatch batch).settings = s.settings := rfl
    rw [settings] at fills each
    by_cases fresh : opens s.windowStart batch.reading
    · obtain ⟨strongest, start, count⟩ := takeBatch_opens fresh
      rw [start] at chain
      rw [count] at fills
      refine ⟨[], ⟨(batch, s.gatePicks batch), more⟩ :: windows, ?_, trivial, ?_, ?_, fun _ _ _ => rfl⟩
      · rw [gateAll, split, List.nil_append, List.flatMap_cons]
        rfl
      · rw [List.forall_mem_cons]
        exact ⟨⟨strongest, fills⟩, each⟩
      · exact List.isChain_cons_cons.mpr ⟨fresh, chain⟩
    · obtain ⟨strongest, start, count⟩ := takeBatch_goesOn fresh
      rw [start] at chain
      rw [count] at fills
      refine ⟨(batch, s.gatePicks batch) :: more, windows, by rw [gateAll, split, List.cons_append],
        ⟨strongest, fills⟩, each, chain, fun first head opened => ?_⟩
      obtain rfl := Option.some.inj head
      exact absurd opened fresh

theorem Fills.size_le {batches : List (GatedBatch × List BurstCandidate)} {used : ℤ}
    (fills : Fills settings used batches) :
    used + ((batches.map fun b => b.2.length).sum : Nat) ≤ max used (max 0 settings.maxPerSec) := by
  induction batches generalizing used with
  | nil => simp
  | cons b rest ih =>
    obtain ⟨⟨count, -⟩, fills⟩ := fills
    have tail := ih fills
    have head := count.trans_le (Nat.min_le_left _ _)
    rw [List.map_cons, List.sum_cons]
    push_cast at tail ⊢
    omega

/-- The first batch with positions or a clock of zero or more opens a window. -/
theorem create_opens {batch : GatedBatch} (positioned : batch.Positioned) :
    opens (create settings).windowStart batch.reading := by
  have nonneg := GatedBatch.reading_nonneg positioned
  refine .inr ?_
  simp only [create]
  linarith

/-- Each batch's picks are its strongest, and the batches divide into windows of
at most the budget, each opened a second or more after the one before, or before
it where the clock went back. -/
theorem budget_holds (settings : IsolationSettings) (batches : List GatedBatch)
    (positioned : ∀ batch ∈ batches, batch.Positioned) :
    ∃ windows : List BudgetWindow,
      gateAll (create settings) batches = windows.flatMap BudgetWindow.batches ∧
      (∀ w ∈ windows, Fills settings 0 w.batches ∧ (w.size : ℤ) ≤ max 0 settings.maxPerSec) ∧
      windows.IsChain fun w w' => w'.reading < w.reading ∨ 1 ≤ w'.reading - w.reading := by
  obtain ⟨more, windows, split, -, each, chain, first⟩ := gateAll_divides (create settings) batches
  have none : more = [] := by
    rcases batches with _ | ⟨batch, rest⟩
    · exact (List.append_eq_nil_iff.mp split.symm).1
    · exact first batch rfl (create_opens (positioned batch (List.mem_cons_self ..)))
  refine ⟨windows, by rw [split, none, List.nil_append], fun w member => ⟨each w member, ?_⟩, ?_⟩
  · have bound := (each w member).size_le
    rw [zero_add, max_eq_right (le_max_left _ _)] at bound
    exact bound
  · exact (List.isChain_map _).mp chain.tail

/-- A budget of one burst a second. -/
def onePerSec : IsolationSettings := ⟨13, 1, 1 / 2, 2, true, true, true⟩

/-- A burst that ends at three seconds. -/
def endsAtThree : BurstCandidate := ⟨⟨1, some 2000, some 3000⟩, 20⟩

/-- A burst that ended a second and a half before and is reported after it. -/
def reportedLate : BurstCandidate := ⟨⟨2, some 500, some 1500⟩, 20⟩

def lateReport : List GatedBatch := [⟨[endsAtThree], 1000, 50⟩, ⟨[reportedLate], 1000, 51⟩]

theorem gateAll_lateReport : gateAll (create onePerSec) lateReport =
    [(⟨[endsAtThree], 1000, 50⟩, [endsAtThree]), (⟨[reportedLate], 1000, 51⟩, [reportedLate])] := by
  decide +kernel

theorem budget_holds_lateReport : ∃ windows : List BudgetWindow,
    [(⟨[endsAtThree], 1000, 50⟩, [endsAtThree]), (⟨[reportedLate], 1000, 51⟩, [reportedLate])] =
      windows.flatMap BudgetWindow.batches ∧
    (∀ w ∈ windows, Fills onePerSec 0 w.batches ∧ (w.size : ℤ) ≤ max 0 onePerSec.maxPerSec) ∧
    windows.IsChain fun w w' => w'.reading < w.reading ∨ 1 ≤ w'.reading - w.reading := by
  rw [← gateAll_lateReport]
  exact budget_holds onePerSec lateReport (by decide +kernel)

/-- Both bursts are picked, so they are in two windows of one pick each, and the
second was opened a second and a half before the first. -/
theorem budget_forward_fails : ¬ ∀ (settings : IsolationSettings) (batches : List GatedBatch),
    (∀ batch ∈ batches, batch.Positioned) → ∃ windows : List BudgetWindow,
      gateAll (create settings) batches = windows.flatMap BudgetWindow.batches ∧
      (∀ w ∈ windows, Fills settings 0 w.batches ∧ (w.size : ℤ) ≤ max 0 settings.maxPerSec) ∧
      windows.IsChain fun w w' => 1 ≤ w'.reading - w.reading := by
  intro all
  obtain ⟨windows, split, each, chain⟩ := all onePerSec lateReport (by decide +kernel)
  rw [gateAll_lateReport] at split
  rcases windows with _ | ⟨⟨opener, others⟩, later⟩
  · cases split
  rw [List.flatMap_cons, BudgetWindow.batches, List.cons_append] at split
  obtain ⟨rfl, split⟩ := List.cons.inj split
  rcases others with _ | ⟨second, others⟩
  · rcases later with _ | ⟨⟨opener, others⟩, later⟩
    · cases split
    · rw [List.nil_append, List.flatMap_cons, BudgetWindow.batches, List.cons_append] at split
      obtain ⟨rfl, -⟩ := List.cons.inj split
      have early := (List.isChain_cons_cons.mp chain).1
      simp only [BudgetWindow.reading] at early
      exact absurd early (by decide +kernel)
  · obtain ⟨rfl, -⟩ := List.cons.inj split
    have small := (each _ (List.mem_cons_self ..)).2
    simp only [BudgetWindow.size, BudgetWindow.batches, onePerSec, List.map_cons, List.sum_cons,
      List.length_singleton] at small
    omega

/-- What the gate reads and writes of the stage. -/
def SameBudget (s s' : IsolationStage) : Prop :=
  s'.settings = s.settings ∧ s'.windowStart = s.windowStart ∧ s'.windowCount = s.windowCount ∧ s'.picks = s.picks

theorem SameBudget.trans {s'' : IsolationStage} (first : s.SameBudget s') (second : s'.SameBudget s'') :
    s.SameBudget s'' :=
  ⟨second.1.trans first.1, second.2.1.trans first.2.1, second.2.2.1.trans first.2.2.1,
    second.2.2.2.trans first.2.2.2⟩

theorem release_sameBudget {batch : IsolationBatch} (goes : s.release batch = some s') : s.SameBudget s' := by
  unfold release at goes
  split_ifs at goes <;> (obtain rfl := Option.some.inj goes; exact ⟨rfl, rfl, rfl, rfl⟩)

theorem drain_sameBudget {drain : DrainPhase} {next : Option DrainPhase}
    (goes : s.drain drain = some (s', next)) : s.SameBudget s' := by
  cases drain with
  | taking =>
    simp only [IsolationStage.drain] at goes
    split at goes <;> (obtain ⟨rfl, rfl⟩ := Prod.mk.inj (Option.some.inj goes); exact ⟨rfl, rfl, rfl, rfl⟩)
  | holding item =>
    cases item <;> (obtain ⟨rfl, rfl⟩ := Prod.mk.inj (Option.some.inj goes); exact ⟨rfl, rfl, rfl, rfl⟩)
  | releasing taken =>
    obtain ⟨after, released, same⟩ := Option.map_eq_some_iff.mp goes
    obtain ⟨rfl, rfl⟩ := Prod.mk.inj same
    exact release_sameBudget released
  | counting taken =>
    obtain ⟨rfl, rfl⟩ := Prod.mk.inj (Option.some.inj goes)
    exact ⟨rfl, rfl, rfl, rfl⟩

theorem submit_sameBudget (batch : IsolationBatch) : s.SameBudget (s.submit batch) := by
  unfold submit
  dsimp only
  split_ifs
  · exact ⟨rfl, rfl, rfl, rfl⟩
  · exact ⟨rfl, rfl, rfl, rfl⟩
  · cases put : (s.count .received batch.candidates.length).putNowait (.batch batch) with
    | none => exact ⟨rfl, rfl, rfl, rfl⟩
    | some after =>
      obtain ⟨_, goes⟩ := Option.ite_none_right_eq_some.mp put
      obtain rfl := Option.some.inj goes
      exact ⟨rfl, rfl, rfl, rfl⟩

theorem work_sameBudget {phase : WorkerPhase} (goes : s.work phase = some s') : s.SameBudget s' := by
  cases phase with
  | looping | stopping | finishing | exiting => obtain rfl := Option.some.inj goes; exact ⟨rfl, rfl, rfl, rfl⟩
  | waiting =>
    simp only [work] at goes
    split at goes
    · cases goes
    · obtain rfl := Option.some.inj goes; exact ⟨rfl, rfl, rfl, rfl⟩
    · obtain rfl := Option.some.inj goes; exact ⟨rfl, rfl, rfl, rfl⟩
  | gating _ | ended => cases goes
  | snapshotting batch rest used lazy snapped =>
    cases rest with
    | nil => obtain rfl := Option.some.inj goes; exact ⟨rfl, rfl, rfl, rfl⟩
    | cons cand rest => cases goes
  | isolating batch works =>
    cases works with
    | nil => obtain rfl := Option.some.inj goes; exact ⟨rfl, rfl, rfl, rfl⟩
    | cons work works => cases goes
  | releasing batch =>
    obtain ⟨after, released, rfl⟩ := Option.map_eq_some_iff.mp goes
    have kept := release_sameBudget released
    exact kept
  | draining drain =>
    obtain ⟨⟨after, next⟩, drained, rfl⟩ := Option.map_eq_some_iff.mp goes
    have kept := drain_sameBudget drained
    exact kept

theorem stopping_sameBudget {phase : StopPhase} (goes : s.stopping phase = some s') : s.SameBudget s' := by
  cases phase with
  | idle => cases goes
  | setting =>
    obtain ⟨-, goes⟩ := Option.ite_none_right_eq_some.mp goes
    obtain rfl := Option.some.inj goes
    exact ⟨rfl, rfl, rfl, rfl⟩
  | draining drain | drainingLast drain =>
    obtain ⟨⟨after, next⟩, drained, rfl⟩ := Option.map_eq_some_iff.mp goes
    have kept := drain_sameBudget drained
    exact kept
  | putting =>
    obtain rfl := Option.some.inj goes
    cases put : s.putNowait .stop with
    | none => exact ⟨rfl, rfl, rfl, rfl⟩
    | some after =>
      obtain ⟨_, goes⟩ := Option.ite_none_right_eq_some.mp put
      obtain rfl := Option.some.inj goes
      exact ⟨rfl, rfl, rfl, rfl⟩
  | joining =>
    obtain rfl := Option.some.inj goes
    split_ifs <;> exact ⟨rfl, rfl, rfl, rfl⟩

/-- A step of the stage gates one batch or leaves the budget as it is. -/
theorem step_budget {act : Act} (goes : s.step act = some s') :
    s.SameBudget s' ∨ ∃ batch, (s.takeBatch batch).SameBudget s' := by
  cases act with
  | submits batch =>
    obtain ⟨-, goes⟩ := Option.ite_none_right_eq_some.mp goes
    obtain rfl := Option.some.inj goes
    exact .inl (submit_sameBudget batch)
  | counts =>
    obtain ⟨batch, -, rfl⟩ := Option.map_eq_some_iff.mp goes
    exact .inl ⟨rfl, rfl, rfl, rfl⟩
  | starts =>
    obtain ⟨-, goes⟩ := Option.ite_none_right_eq_some.mp goes
    obtain rfl := Option.some.inj goes
    unfold start
    split <;> exact .inl ⟨rfl, rfl, rfl, rfl⟩
  | stops =>
    obtain ⟨-, goes⟩ := Option.ite_none_right_eq_some.mp goes
    obtain rfl := Option.some.inj goes
    split_ifs <;> exact .inl ⟨rfl, rfl, rfl, rfl⟩
  | controls => exact .inl (stopping_sameBudget goes)
  | works =>
    obtain ⟨phase, -, worked⟩ := Option.bind_eq_some_iff.mp goes
    exact .inl (work_sameBudget worked)
  | gates clock =>
    simp only [step] at goes
    split at goes
    · rename_i batch gating
      obtain rfl := Option.some.inj goes
      exact .inr ⟨⟨batch.candidates, batch.sampleRateHz, clock⟩, rfl, rfl, rfl, rfl⟩
    · cases goes
  | reads read =>
    simp only [step] at goes
    split at goes
    · obtain rfl := Option.some.inj goes
      exact .inl ⟨rfl, rfl, rfl, rfl⟩
    · cases goes
  | isolates outcome =>
    simp only [step] at goes
    split at goes
    · obtain rfl := Option.some.inj goes
      exact .inl ⟨rfl, rfl, rfl, rfl⟩
    · cases goes

theorem SameBudget.gate_eq (same : s.SameBudget s') (cands : List BurstCandidate) (rate clock : ℚ) :
    s'.gate cands rate clock = s.gate cands rate clock := by
  obtain ⟨settings, start, count, -⟩ := same
  simp only [gate, settings, start, count]

theorem SameBudget.takeBatch (same : s.SameBudget s') (batch : GatedBatch) :
    (s.takeBatch batch).SameBudget (s'.takeBatch batch) := by
  simp only [IsolationStage.takeBatch, same.gate_eq]
  exact ⟨same.1, rfl, rfl, congrArg (· ++ _) same.2.2.2⟩

theorem foldl_picks (s : IsolationStage) (batches : List GatedBatch) :
    (batches.foldl takeBatch s).picks = s.picks ++ (gateAll s batches).flatMap Prod.snd := by
  induction batches generalizing s with
  | nil => exact (List.append_nil _).symm
  | cons batch rest ih => rw [List.foldl_cons, ih, gateAll, List.flatMap_cons, ← List.append_assoc]; rfl

theorem followed_next {first : IsolationStage} {act : Act}
    (followed : ∃ batches : List GatedBatch, (batches.foldl takeBatch first).SameBudget s)
    (goes : s.step act = some s') :
    ∃ batches : List GatedBatch, (batches.foldl takeBatch first).SameBudget s' := by
  obtain ⟨batches, same⟩ := followed
  rcases step_budget goes with left | ⟨batch, gated⟩
  · exact ⟨batches, same.trans left⟩
  · refine ⟨batches ++ [batch], ?_⟩
    rw [List.foldl_append]
    exact (same.takeBatch batch).trans gated

/-- In every run the bursts that were picked are the picks of some batches, one after another from the start. -/
theorem Reach.picks_gated (reach : Reach settings s) :
    ∃ batches, s.picks = (gateAll (create settings) batches).flatMap Prod.snd := by
  have followed : ∃ batches : List GatedBatch, (batches.foldl takeBatch (create settings)).SameBudget s := by
    induction reach with
    | start => exact ⟨[], rfl, rfl, rfl, rfl⟩
    | next _ _ goes ih => exact followed_next ih goes
  obtain ⟨batches, -, -, -, picks⟩ := followed
  exact ⟨batches, by rw [picks, foldl_picks]; rfl⟩

end RFObserver.IsolationStage
