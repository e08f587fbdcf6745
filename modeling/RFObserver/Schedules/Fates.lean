import RFObserver.Schedules.CutterTimeline
import RFObserver.Schedules.Engine

namespace RFObserver

variable {α : Type*} {restored : String → Option Nat} {e e' : ScheduleEngine α} {s : Schedule} {call : ChunkCall α}

def RunReport.key (r : RunReport) : String × Nat := (r.scheduleId, r.run)

namespace ScheduleEngine

/-- What was reported so far. `restored` is what the book knew at its start. -/
structure Fated (restored : String → Option Nat) (e : ScheduleEngine α) : Prop where
  rising : e.reports.Pairwise fun a b => a.scheduleId = b.scheduleId → a.run < b.run
  known : ∀ r ∈ e.reports, r.scheduleId ∈ e.known
  fresh : ∀ r ∈ e.reports, ∀ j ∈ restored r.scheduleId, j < r.run
  last : ∀ r ∈ e.reports, ∃ j ∈ e.last r.scheduleId, r.run ≤ j
  keeps : ∀ id, ∀ j ∈ restored id, ∃ k ∈ e.last id, j ≤ k
  source : ∀ id, ∀ j ∈ e.last id, j ∈ restored id ∨ (id, j) ∈ e.reports.map RunReport.key

/-- Run `k` is later than any run of `id` with an outcome. -/
def Ahead (e : ScheduleEngine α) (id : String) (k : Nat) : Prop := ∀ j ∈ e.last id, j < k

theorem last_reportRun (r : RunReport) (e : ScheduleEngine α) (id : String) :
    (e.reportRun r).last id = if id = r.scheduleId then max (e.last id) (some r.run) else e.last id := by
  unfold reportRun
  by_cases same : id = r.scheduleId
  · subst same; simp
  · simp [same]

theorem last_reportRun_self {r : RunReport} {id : String} (same : r.scheduleId = id) (ahead : e.Ahead id r.run) :
    (e.reportRun r).last id = some r.run := by
  rw [last_reportRun, if_pos same.symm]
  cases lastEq : e.last id with
  | none => simp
  | some j =>
    rw [Option.max_some_some]
    exact congrArg some (max_eq_right (ahead j lastEq).le)

theorem last_reportRun_other {r : RunReport} {id : String} (other : id ≠ r.scheduleId) :
    (e.reportRun r).last id = e.last id := by
  rw [last_reportRun, if_neg other]

theorem Fated.report {r : RunReport} (fated : e.Fated restored) (known : r.scheduleId ∈ e.known)
    (ahead : e.Ahead r.scheduleId r.run) : (e.reportRun r).Fated restored where
  rising := by
    refine List.pairwise_append.mpr ⟨fated.rising, List.pairwise_singleton .., fun a before b new same => ?_⟩
    obtain rfl := List.mem_singleton.mp new
    obtain ⟨j, isLast, le⟩ := fated.last a before
    have := ahead j (same ▸ isLast)
    omega
  known := fun a member => by
    rcases List.mem_append.mp member with before | new
    · exact fated.known a before
    · exact List.mem_singleton.mp new ▸ known
  fresh := fun a member j old => by
    rcases List.mem_append.mp member with before | new
    · exact fated.fresh a before j old
    · obtain rfl := List.mem_singleton.mp new
      obtain ⟨k, isLast, le⟩ := fated.keeps _ j old
      have := ahead k isLast
      omega
  last := fun a member => by
    rcases List.mem_append.mp member with before | new
    · obtain ⟨j, isLast, le⟩ := fated.last a before
      by_cases same : a.scheduleId = r.scheduleId
      · refine ⟨r.run, same ▸ last_reportRun_self rfl ahead, ?_⟩
        have := ahead j (same ▸ isLast)
        omega
      · exact ⟨j, (last_reportRun_other same).symm ▸ isLast, le⟩
    · obtain rfl := List.mem_singleton.mp new
      exact ⟨_, last_reportRun_self rfl ahead, le_rfl⟩
  keeps := fun id j old => by
    obtain ⟨k, isLast, le⟩ := fated.keeps id j old
    by_cases same : id = r.scheduleId
    · subst same
      have := ahead k isLast
      exact ⟨r.run, last_reportRun_self rfl ahead, by omega⟩
    · exact ⟨k, (last_reportRun_other same).symm ▸ isLast, le⟩
  source := fun id j isLast => by
    by_cases same : id = r.scheduleId
    · subst same
      rw [last_reportRun_self rfl ahead] at isLast
      obtain rfl := Option.some.inj isLast
      exact Or.inr (List.mem_map.mpr ⟨r, List.mem_append_right _ (List.mem_singleton_self r), rfl⟩)
    · rw [last_reportRun_other same] at isLast
      refine (fated.source id j isLast).imp_right fun reported => ?_
      obtain ⟨a, member, key⟩ := List.mem_map.mp reported
      exact List.mem_map.mpr ⟨a, List.mem_append_left _ member, key⟩

/-- Every run of a schedule is either told of once or not yet. -/
theorem Fated.nodup (fated : e.Fated restored) : (e.reports.map RunReport.key).Nodup := by
  refine List.pairwise_map.mpr (fated.rising.imp fun {a b} rising same => ?_)
  have ids : a.scheduleId = b.scheduleId := congrArg Prod.fst same
  have runs : a.run = b.run := congrArg Prod.snd same
  have := rising ids
  omega

/-- What the writer was told. A run whose cutter is done waits to be closed. -/
structure Handed (e : ScheduleEngine α) : Prop where
  opened : e.opened.map RunSpec.key = (e.reports.filter fun r => r.status = .recording).map RunReport.key
  told : ∀ r ∈ e.reports, r.status = .recording ∨ r.status = .missed
  once : (e.opened.map RunSpec.key).Perm (e.active.map Active.key ++ e.closed.map Closed.key)
  busy : e.active.countP (fun act => !act.closing) ≤ maxConcurrentRuns
  placed : ∀ act ∈ e.active, act.closing = act.cutter.done ∧ (act.cutter.done = true → act.cutter.started = true)
  finished : ∀ c ∈ e.closed, c.status ≠ .missed

theorem Handed.report {r : RunReport} (handed : e.Handed) (missed : r.status = .missed) : (e.reportRun r).Handed where
  opened := by
    have filtered : (e.reportRun r).reports.filter (fun r => r.status = .recording) =
        e.reports.filter fun r => r.status = .recording := by
      simp [reportRun, List.filter_append, missed]
    rw [filtered]
    exact handed.opened
  told := fun a member => by
    rcases List.mem_append.mp member with before | new
    · exact handed.told a before
    · exact Or.inr (List.mem_singleton.mp new ▸ missed)
  once := handed.once
  busy := handed.busy
  placed := handed.placed
  finished := handed.finished

/-- What a step that only takes runs leaves alone. -/
structure Takes (e e' : ScheduleEngine α) : Prop where
  graceMs : e'.graceMs = e.graceMs
  version : e'.version = e.version
  live : e'.live = e.live
  known : e'.known = e.known
  planned : e'.planned = e.planned
  next : e'.next = e.next
  marked : e'.marked = e.marked
  firstDue : e'.firstDue = e.firstDue
  reports : e.reports <+: e'.reports

theorem Takes.refl (e : ScheduleEngine α) : Takes e e := ⟨rfl, rfl, rfl, rfl, rfl, rfl, rfl, rfl, List.prefix_refl _⟩

theorem Takes.trans {e'' : ScheduleEngine α} (first : Takes e e') (second : Takes e' e'') : Takes e e'' where
  graceMs := second.graceMs.trans first.graceMs
  version := second.version.trans first.version
  live := second.live.trans first.live
  known := second.known.trans first.known
  planned := second.planned.trans first.planned
  next := second.next.trans first.next
  marked := second.marked.trans first.marked
  firstDue := second.firstDue.trans first.firstDue
  reports := first.reports.trans second.reports

theorem takes_reportRun (r : RunReport) (e : ScheduleEngine α) : Takes e (e.reportRun r) :=
  ⟨rfl, rfl, rfl, rfl, rfl, rfl, rfl, rfl, List.prefix_append ..⟩

/-- Taking a run reports it once, and opens it when it is to be recorded. -/
theorem startRun_cases (s : Schedule) (k : Nat) (call : ChunkCall α) (e : ScheduleEngine α) :
    (∃ reason, e.startRun s k call = e.reportRun (missed s reason k)) ∨
    (e.active.countP (fun act => !act.closing) < maxConcurrentRuns ∧
      e.startRun s k call = reportRun ⟨s.id, k, .recording, s.runStartMs k, none⟩ { e with
        opened := e.opened ++ [specOf s k call]
        active := e.active ++ [⟨RunCutter.create (specOf s k call), false, 0⟩] }) := by
  unfold startRun
  split_ifs with gone busy
  · exact Or.inl ⟨_, rfl⟩
  · exact Or.inl ⟨_, rfl⟩
  · cases call.refusal with
    | some _ => exact Or.inl ⟨_, rfl⟩
    | none => exact Or.inr ⟨not_le.mp busy, rfl⟩

/-- Taking run `k` of `s` reports it, whatever becomes of it. -/
theorem startRun_reports (s : Schedule) (k : Nat) (call : ChunkCall α) (e : ScheduleEngine α) :
    ∃ r : RunReport, r.scheduleId = s.id ∧ r.run = k ∧ (e.startRun s k call).reports = e.reports ++ [r] ∧
      (e.startRun s k call).last = (e.reportRun r).last := by
  rcases startRun_cases s k call e with ⟨reason, isMissed⟩ | ⟨-, isOpened⟩
  · exact ⟨missed s reason k, rfl, rfl, by rw [isMissed]; rfl, by rw [isMissed]⟩
  · exact ⟨⟨s.id, k, .recording, s.runStartMs k, none⟩, rfl, rfl, by rw [isOpened]; rfl, by rw [isOpened]; rfl⟩

theorem takes_startRun (s : Schedule) (k : Nat) (call : ChunkCall α) (e : ScheduleEngine α) :
    Takes e (e.startRun s k call) := by
  rcases startRun_cases s k call e with ⟨reason, isMissed⟩ | ⟨-, isOpened⟩
  · exact isMissed ▸ takes_reportRun _ e
  · exact isOpened ▸ ⟨rfl, rfl, rfl, rfl, rfl, rfl, rfl, rfl, List.prefix_append ..⟩

theorem Fated.startRun {k : Nat} (fated : e.Fated restored) (known : s.id ∈ e.known) (ahead : e.Ahead s.id k) :
    (e.startRun s k call).Fated restored := by
  rcases startRun_cases s k call e with ⟨reason, isMissed⟩ | ⟨-, isOpened⟩
  · exact isMissed ▸ fated.report known ahead
  · have reported := fated.report (r := ⟨s.id, k, .recording, s.runStartMs k, none⟩) known ahead
    exact isOpened ▸ ⟨reported.rising, reported.known, reported.fresh, reported.last, reported.keeps, reported.source⟩

theorem Handed.startRun {k : Nat} (handed : e.Handed) : (e.startRun s k call).Handed := by
  rcases startRun_cases s k call e with ⟨reason, isMissed⟩ | ⟨room, isOpened⟩
  · exact isMissed ▸ handed.report rfl
  · rw [isOpened]
    constructor
    · simp only [reportRun, List.map_append, List.filter_append, handed.opened]
      rfl
    · intro a member
      rcases List.mem_append.mp member with before | new
      · exact handed.told a before
      · exact Or.inl (List.mem_singleton.mp new ▸ rfl)
    · simp only [reportRun, List.map_append]
      refine (handed.once.append_right _).trans ?_
      simp only [List.append_assoc]
      exact List.perm_append_comm.append_left _
    · simp only [reportRun, List.countP_append]
      exact Nat.succ_le_of_lt room
    · intro act member
      rcases List.mem_append.mp member with before | new
      · exact handed.placed act before
      · obtain rfl := List.mem_singleton.mp new
        exact ⟨rfl, nofun⟩
    · exact handed.finished

/-- Run `k` has its one fate. Runs due before anything was recording count
with the newest only. -/
def Settled (e : ScheduleEngine α) (s : Schedule) (k : Nat) : Prop :=
  (s.id, k) ∈ e.reports.map RunReport.key ∨ k + runsKept < s.dueBefore e.firstDue

theorem Settled.later {k : Nat} (settled : e.Settled s k) (takes : Takes e e') : e'.Settled s k := by
  rcases settled with reported | old
  · obtain ⟨r, member, key⟩ := List.mem_map.mp reported
    exact Or.inl (List.mem_map.mpr ⟨r, takes.reports.subset member, key⟩)
  · exact Or.inr (takes.firstDue.symm ▸ old)

/-- Run `k` of `s` is one that the engine owes a fate, once it is due. -/
structure Owed (restored : String → Option Nat) (e : ScheduleEngine α) (s : Schedule) (k : Nat) : Prop where
  exists_ : k < s.totalRuns
  fresh : ∀ j ∈ restored s.id, j < k
  created : s.createdMs - e.graceMs ≤ s.runStartMs k

/-- The plan goes on with run `p` of `s`: every run owed before it is settled. -/
structure Pointed (restored : String → Option Nat) (e : ScheduleEngine α) (s : Schedule) (p : Option Nat) : Prop where
  ahead : ∀ k ∈ p, k < s.totalRuns ∧ e.Ahead s.id k
  settled : ∀ k, e.Owed restored s k → (∀ q ∈ p, k < q) → e.Settled s k

theorem Pointed.later {p : Option Nat} (pointed : e.Pointed restored s p) (takes : Takes e e')
    (last : e'.last s.id = e.last s.id) : e'.Pointed restored s p where
  ahead := fun k isNext => by
    obtain ⟨exists_, ahead⟩ := pointed.ahead k isNext
    exact ⟨exists_, fun j isLast => ahead j (last ▸ isLast)⟩
  settled := fun k owed before =>
    (pointed.settled k ⟨owed.exists_, owed.fresh, takes.graceMs ▸ owed.created⟩ before).later takes

theorem Pointed.startRun {k : Nat} (pointed : e.Pointed restored s (some k)) :
    (e.startRun s k call).Pointed restored s (s.firstRunFrom (s.runStartMs k + 1)) := by
  obtain ⟨exists_, ahead⟩ := pointed.ahead k rfl
  obtain ⟨r, isId, isRun, reports, last⟩ := startRun_reports s k call e
  have takes := takes_startRun s k call e
  have lastRun : (e.startRun s k call).last s.id = some k := by
    rw [last, last_reportRun_self isId (isRun ▸ ahead), isRun]
  rw [Schedule.firstRunFrom_next k exists_]
  constructor
  · intro q isNext
    split_ifs at isNext with more
    · obtain rfl := Option.some.inj isNext
      refine ⟨more, fun j isLast => ?_⟩
      rw [lastRun] at isLast
      obtain rfl := Option.some.inj isLast
      omega
    · cases isNext
  · intro q owed before
    by_cases same : q = k
    · subst same
      refine Or.inl (List.mem_map.mpr ⟨r, reports ▸ List.mem_append_right _ (List.mem_singleton_self r), ?_⟩)
      rw [RunReport.key, isId, isRun]
    · refine (pointed.settled q ⟨owed.exists_, owed.fresh, takes.graceMs ▸ owed.created⟩ fun j isNext => ?_).later takes
      obtain rfl := Option.some.inj isNext
      have := owed.exists_
      split_ifs at before with more
      · have := before _ rfl
        omega
      · omega

/-- No run of `s` from `p` on is due. -/
def NotDue (call : ChunkCall α) (s : Schedule) (p : Option Nat) : Prop :=
  ∀ k ∈ p, ¬ (s.runStartMs k : ℚ) / 1000 < call.chunkEnd

/-- The due runs of one schedule are taken in order, until none is due. -/
theorem dueLoop_takes (call : ChunkCall α) (fuel : Nat) {p : Option Nat} (fated : e.Fated restored) (handed : e.Handed)
    (known : s.id ∈ e.known) (pointed : e.Pointed restored s p) (enough : ∀ k ∈ p, s.totalRuns < k + fuel) :
    let done := dueLoop s call fuel p e
    done.2.Fated restored ∧ done.2.Handed ∧ Takes e done.2 ∧ (∀ id ≠ s.id, done.2.last id = e.last id) ∧
      done.2.Pointed restored s done.1 ∧ NotDue call s done.1 := by
  induction fuel generalizing p e with
  | zero =>
    refine ⟨fated, handed, Takes.refl e, fun _ _ => rfl, pointed, fun k isNext => ?_⟩
    have := (pointed.ahead k isNext).1
    have := enough k isNext
    omega
  | succ fuel ih =>
    cases p with
    | none => exact ⟨fated, handed, Takes.refl e, fun _ _ => rfl, pointed, nofun⟩
    | some k =>
      unfold dueLoop
      split
      · obtain ⟨exists_, ahead⟩ := pointed.ahead k rfl
        have takes := takes_startRun s k call e
        obtain ⟨rest1, rest2, rest3, rest4, rest5⟩ := ih (e := e.startRun s k call) (fated.startRun known ahead)
          handed.startRun (takes.known.symm ▸ known) pointed.startRun (by
            intro q isNext
            rw [Schedule.firstRunFrom_next k exists_] at isNext
            have := enough k rfl
            split_ifs at isNext
            · obtain rfl := Option.some.inj isNext
              omega
            · cases isNext)
        refine ⟨rest1, rest2, takes.trans rest3, fun id other => ?_, rest5⟩
        obtain ⟨r, isId, -, -, last⟩ := startRun_reports s k call e
        rw [rest4 id other, last, last_reportRun_other (isId ▸ other)]
      · rename_i later
        exact ⟨fated, handed, Takes.refl e, fun _ _ => rfl, pointed, fun q isNext => Option.some.inj isNext ▸ later⟩

/-- The entries of a plan go on with runs before which all is settled. -/
def Kept (restored : String → Option Nat) (e : ScheduleEngine α) (entries : List (Schedule × Option Nat)) : Prop :=
  ∀ entry ∈ entries, entry.1.id ∈ e.known ∧ e.Pointed restored entry.1 entry.2

theorem dueEntries_takes (call : ChunkCall α) {entries : List (Schedule × Option Nat)} (fated : e.Fated restored) (handed : e.Handed)
    (distinct : (entries.map fun entry => entry.1.id).Nodup) (kept : e.Kept restored entries) :
    let done := dueEntries call entries e
    done.2.Fated restored ∧ done.2.Handed ∧ Takes e done.2 ∧
      (∀ id ∉ entries.map (fun entry => entry.1.id), done.2.last id = e.last id) ∧
      done.2.Kept restored done.1 ∧ (∀ entry ∈ done.1, NotDue call entry.1 entry.2) ∧
      done.1.map Prod.fst = entries.map Prod.fst := by
  induction entries generalizing e with
  | nil => exact ⟨fated, handed, Takes.refl e, fun _ _ => rfl, nofun, nofun, rfl⟩
  | cons entry entries ih =>
    obtain ⟨s, p⟩ := entry
    rw [List.map_cons, List.nodup_cons] at distinct
    obtain ⟨known, pointed⟩ := kept (s, p) (List.mem_cons_self ..)
    obtain ⟨fated', handed', takes, last, pointed', notDue⟩ :=
      dueLoop_takes call (s.totalRuns + 1) fated handed known pointed
        (fun k _ => show s.totalRuns < k + (s.totalRuns + 1) by omega)
    obtain ⟨fated'', handed'', takes', last', kept', notDue', entriesEq⟩ := ih fated' handed' distinct.2 (by
      intro entry member
      obtain ⟨known', pointed'⟩ := kept entry (List.mem_cons_of_mem _ member)
      have other : entry.1.id ≠ s.id := fun same =>
        distinct.1 (same ▸ List.mem_map_of_mem (f := fun entry : Schedule × Option Nat => entry.1.id) member)
      exact ⟨takes.known.symm ▸ known', pointed'.later takes (last _ other)⟩)
    refine ⟨fated'', handed'', takes.trans takes', fun id other => ?_, ?_, ?_, ?_⟩
    · rw [List.map_cons, List.mem_cons, not_or] at other
      exact (last' id other.2).trans (last id other.1)
    · intro entry member
      rcases List.mem_cons.mp member with rfl | rest
      · exact ⟨takes'.known.symm ▸ takes.known.symm ▸ known, pointed'.later takes' (last' _ distinct.1)⟩
      · exact kept' entry rest
    · intro entry member
      rcases List.mem_cons.mp member with rfl | rest
      · exact notDue
      · exact notDue' entry rest
    · exact congrArg (s :: ·) entriesEq

/-- The schedules and the plan made of them. Ids are never used again. -/
structure Planned (e : ScheduleEngine α) : Prop where
  distinct : (e.live.map (·.id)).Nodup
  known : ∀ s ∈ e.live, s.id ∈ e.known
  nextDistinct : (e.next.map fun entry => entry.1.id).Nodup
  nextKnown : ∀ entry ∈ e.next, entry.1.id ∈ e.known
  same : ∀ entry ∈ e.next, ∀ s ∈ e.live, entry.1.id = s.id → entry.1 = s
  version : ∀ v ∈ e.planned, v ≤ e.version
  whole : e.planned = some e.version → e.next.map Prod.fst = e.live

/-- What the engine keeps from step to step. Before its first chunk it has
done nothing, and a schedule it has not planned has no reports. -/
structure Sound (restored : String → Option Nat) (e : ScheduleEngine α) : Prop where
  fated : e.Fated restored
  handed : e.Handed
  planned : e.Planned
  kept : e.Kept restored e.next
  unmarked : e.marked = false → e.reports = [] ∧ e.next = []
  unplanned : ∀ s ∈ e.live, s.id ∉ e.next.map (fun entry => entry.1.id) → ∀ r ∈ e.reports, r.scheduleId ≠ s.id

theorem Fated.last_untold {id : String} (fated : e.Fated restored) (untold : ∀ r ∈ e.reports, r.scheduleId ≠ id) :
    e.last id = restored id := by
  have old : ∀ j ∈ e.last id, j ∈ restored id := fun j isLast => by
    rcases fated.source id j isLast with known | reported
    · exact known
    · obtain ⟨r, member, key⟩ := List.mem_map.mp reported
      exact absurd (congrArg Prod.fst key) (untold r member)
  cases restoredEq : restored id with
  | none =>
    cases lastEq : e.last id with
    | none => rfl
    | some j => exact absurd (old j lastEq) (by rw [restoredEq]; exact nofun)
  | some j =>
    obtain ⟨k, isLast, -⟩ := fated.keeps id j restoredEq
    exact isLast.trans ((old k isLast).symm.trans restoredEq)

theorem mem_missedRuns {until_ : ℤ} {k : Nat} :
    k ∈ e.missedRuns s until_ ↔ e.Ahead s.id k ∧ s.createdMs - e.graceMs ≤ s.runStartMs k ∧
      k < s.dueBefore until_ ∧ s.dueBefore until_ ≤ k + runsKept := by
  unfold missedRuns Ahead
  cases lastEq : e.last s.id with
  | none =>
    have first : s.startMs ≤ s.runStartMs k := by simpa [Schedule.runStartMs] using s.runStartMs_mono (Nat.zero_le k)
    simp only [Schedule.mem_runsBetween, max_le_iff, first, true_and, Option.mem_def, reduceCtorEq, false_implies,
      implies_true]
  | some last =>
    simp only [Option.mem_def, Option.some.injEq, forall_eq']
    split_ifs with ended
    · simp only [List.not_mem_nil, false_iff]
      rintro ⟨ahead, -, due, -⟩
      have := (Schedule.lt_dueBefore.mp due).1
      omega
    · rw [Schedule.mem_runsBetween, max_le_iff, and_assoc, and_congr_left]
      rintro ⟨-, due, -⟩
      constructor
      · intro start
        by_contra early
        have := Schedule.runStartMs_strict (show k < last + 1 by omega) (not_le.mp ended)
        omega
      · exact fun ahead => Schedule.runStartMs_mono ahead

theorem missedRuns_rising (s : Schedule) (until_ : ℤ) (e : ScheduleEngine α) :
    (e.missedRuns s until_).Pairwise (· < ·) := by
  have between : ∀ t0 t1 limit, (s.runsBetween t0 t1 limit).Pairwise (· < ·) := fun t0 t1 limit => by
    unfold Schedule.runsBetween
    cases s.firstRunFrom t0 with
    | none => exact List.Pairwise.nil
    | some first => exact List.pairwise_lt_range'
  unfold missedRuns
  cases e.last s.id with
  | none => exact between ..
  | some last =>
    simp only
    split_ifs
    · exact List.Pairwise.nil
    · exact between ..

/-- Runs of one schedule reported missed in order. -/
theorem reportMissed_takes {ks : List Nat} (reason : String) (fated : e.Fated restored) (handed : e.Handed)
    (known : s.id ∈ e.known) (rising : ks.Pairwise (· < ·)) (ahead : ∀ k ∈ ks, e.Ahead s.id k) :
    let done := ks.foldl (fun e k => e.reportRun (missed s reason k)) e
    done.Fated restored ∧ done.Handed ∧ Takes e done ∧ done.reports = e.reports ++ ks.map (missed s reason) := by
  induction ks generalizing e with
  | nil => exact ⟨fated, handed, Takes.refl e, (List.append_nil _).symm⟩
  | cons k ks ih =>
    rw [List.pairwise_cons] at rising
    have first := ahead k (List.mem_cons_self ..)
    obtain ⟨fated', handed', takes, reports⟩ := ih (e := e.reportRun (missed s reason k)) (fated.report known first)
      (handed.report rfl) known rising.2 (by
        intro q member j isLast
        rw [last_reportRun_self (show (missed s reason k).scheduleId = s.id from rfl) first] at isLast
        obtain rfl := Option.some.inj isLast
        exact rising.1 q member)
    exact ⟨fated', handed', (takes_reportRun _ e).trans takes, reports.trans (by simp [reportRun])⟩

/-- Looking for missed runs settles every run owed that was due by then. -/
theorem markMissed_takes {live : List Schedule} {until_ : ℤ} (fated : e.Fated restored) (handed : e.Handed)
    (distinct : (live.map (·.id)).Nodup) (known : ∀ s ∈ live, s.id ∈ e.known) (due : e.firstDue = until_)
    (untold : ∀ s ∈ live, ∀ r ∈ e.reports, r.scheduleId ≠ s.id) :
    let done := live.foldl (markSchedule until_) e
    done.Fated restored ∧ done.Handed ∧ Takes e done ∧
      (∀ r ∈ done.reports, r ∈ e.reports ∨ ∃ s ∈ live, r.scheduleId = s.id ∧ s.runStartMs r.run < until_) ∧
      ∀ s ∈ live, ∀ k, e.Owed restored s k → s.runStartMs k < until_ → done.Settled s k := by
  induction live generalizing e with
  | nil => exact ⟨fated, handed, Takes.refl e, fun r member => Or.inl member, nofun⟩
  | cons s live ih =>
    rw [List.map_cons, List.nodup_cons] at distinct
    have last := fated.last_untold (untold s (List.mem_cons_self ..))
    obtain ⟨fated', handed', takes, reports⟩ := reportMissed_takes "not_running" fated handed
      (known s (List.mem_cons_self ..)) (missedRuns_rising s until_ e) (fun k member => (mem_missedRuns.mp member).1)
    obtain ⟨fated'', handed'', takes', sources, settled⟩ := ih fated' handed' distinct.2
      (fun s' member => takes.known.symm ▸ known s' (List.mem_cons_of_mem _ member)) (takes.firstDue.trans due) (by
        intro s' member r told same
        rw [reports] at told
        rcases List.mem_append.mp told with before | new
        · exact untold s' (List.mem_cons_of_mem _ member) r before same
        · obtain ⟨k, -, rfl⟩ := List.mem_map.mp new
          exact distinct.1 (List.mem_map.mpr ⟨s', member, same.symm⟩))
    refine ⟨fated'', handed'', takes.trans takes', fun r told => ?_, fun s' member k owed isDue => ?_⟩
    · rcases sources r told with before | ⟨s', member, same, start⟩
      · rw [reports] at before
        rcases List.mem_append.mp before with old | new
        · exact Or.inl old
        · obtain ⟨k, member, rfl⟩ := List.mem_map.mp new
          exact Or.inr ⟨s, List.mem_cons_self .., rfl, (Schedule.lt_dueBefore.mp (mem_missedRuns.mp member).2.2.1).2⟩
      · exact Or.inr ⟨s', List.mem_cons_of_mem _ member, same, start⟩
    · rcases List.mem_cons.mp member with rfl | rest
      · refine Settled.later ?_ takes'
        by_cases newest : s'.dueBefore until_ ≤ k + runsKept
        · refine Or.inl (List.mem_map.mpr ⟨missed s' "not_running" k, ?_, rfl⟩)
          rw [reports]
          exact List.mem_append_right _ (List.mem_map_of_mem (mem_missedRuns.mpr
            ⟨fun j isLast => owed.fresh j (last ▸ isLast), owed.created,
              Schedule.lt_dueBefore.mpr ⟨owed.exists_, isDue⟩, newest⟩))
        · exact Or.inr ((takes.firstDue.trans due).symm ▸ not_le.mp newest)
      · exact settled s' rest k ⟨owed.exists_, owed.fresh, takes.graceMs.symm ▸ owed.created⟩ isDue

/-- Where a schedule new to the plan begins, all before it is settled. -/
theorem firstRun_pointed {nowMs : ℤ} (fated : e.Fated restored)
    (settled : ∀ k, e.Owed restored s k → s.runStartMs k < nowMs - e.graceMs → e.Settled s k)
    (past : ∀ r ∈ e.reports, r.scheduleId = s.id → s.runStartMs r.run < nowMs - e.graceMs) :
    e.Pointed restored s (e.firstRun s nowMs) := by
  have late : ∀ k, e.Owed restored s k → (nowMs - e.graceMs ≤ s.runStartMs k → False) → e.Settled s k :=
    fun k owed notLate => settled k owed (not_le.mp notLate)
  have lastFresh : ∀ j ∈ e.last s.id, ∀ k, e.Owed restored s k → nowMs - e.graceMs ≤ s.runStartMs k → j < k := by
    intro j isLast k owed start
    rcases fated.source s.id j isLast with old | reported
    · exact owed.fresh j old
    · obtain ⟨r, member, key⟩ := List.mem_map.mp reported
      obtain ⟨isId, rfl⟩ := Prod.mk.inj key
      have before := past r member isId
      by_contra early
      have := s.runStartMs_mono (not_lt.mp early)
      omega
  unfold firstRun
  cases found : s.firstRunFrom (nowMs - e.graceMs) with
  | none =>
    refine ⟨nofun, fun k owed _ => late k owed fun start => ?_⟩
    have := Schedule.firstRunFrom_eq_none.mp found k owed.exists_
    omega
  | some first =>
    obtain ⟨exists_, reached, before⟩ := Schedule.firstRunFrom_eq_some.mp found
    cases lastEq : e.last s.id with
    | none =>
      refine ⟨fun k isNext => Option.some.inj isNext ▸ ⟨exists_, fun j isLast => ?_⟩, fun k owed earlier =>
        late k owed fun start => ?_⟩
      · rw [lastEq] at isLast
        cases isLast
      · have := before k (earlier first rfl)
        omega
    | some last =>
      have only : ∀ j ∈ e.last s.id, j = last := fun j isLast => Option.some.inj (isLast.symm.trans lastEq)
      simp only
      split_ifs with passed more
      · refine ⟨fun k isNext => Option.some.inj isNext ▸ ⟨more, fun j isLast => ?_⟩, fun k owed earlier =>
          late k owed fun start => ?_⟩
        · have := only j isLast
          omega
        · have := earlier (last + 1) rfl
          have := lastFresh last lastEq k owed start
          omega
      · refine ⟨nofun, fun k owed _ => late k owed fun start => ?_⟩
        have := owed.exists_
        have := lastFresh last lastEq k owed start
        omega
      · refine ⟨fun k isNext => Option.some.inj isNext ▸ ⟨exists_, fun j isLast => ?_⟩, fun k owed earlier =>
          late k owed fun start => ?_⟩
        · have := only j isLast
          omega
        · have := before k (earlier first rfl)
          omega

end ScheduleEngine
end RFObserver
