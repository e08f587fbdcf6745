import RFObserver.Schedules.CutterLead
import RFObserver.Schedules.Fates

namespace RFObserver
namespace ScheduleEngine

variable {α : Type*} {restored : String → Option Nat} {e e' : ScheduleEngine α} {s : Schedule} {call : ChunkCall α}

/-- The schedules the plan does not have yet. -/
def Unplanned (e : ScheduleEngine α) (s : Schedule) : Prop :=
  s ∈ e.live ∧ s.id ∉ e.next.map fun entry => entry.1.id

/-- The first chunk has looked for missed runs, so that a schedule that is
new to the plan owes nothing that was due by the grace before now. -/
structure Ready (restored : String → Option Nat) (nowMs : ℤ) (e : ScheduleEngine α) : Prop where
  fated : e.Fated restored
  handed : e.Handed
  planned : e.Planned
  kept : e.Kept restored e.next
  marked : e.marked = true
  settled : ∀ s, e.Unplanned s → ∀ k, e.Owed restored s k → s.runStartMs k < nowMs - e.graceMs → e.Settled s k
  past : ∀ s, e.Unplanned s → ∀ r ∈ e.reports, r.scheduleId = s.id → s.runStartMs r.run < nowMs - e.graceMs

/-- Whatever run is due before the grace, a chunk sees its schedule in time:
a schedule that comes after the first chunk has no run left that came due
since the schedule was created, longer ago than the grace. -/
def SeenInTime (call : ChunkCall α) (e : ScheduleEngine α) : Prop :=
  e.marked = true → ∀ s ∈ e.live, s.id ∉ e.next.map (fun entry => entry.1.id) → ∀ k < s.totalRuns,
    e.Ahead s.id k → s.createdMs - e.graceMs ≤ s.runStartMs k → call.nowMs - e.graceMs ≤ s.runStartMs k

instance (call : ChunkCall α) (e : ScheduleEngine α) : Decidable (SeenInTime call e) := by
  unfold SeenInTime Ahead; infer_instance

/-- No run that was opened still waits for its first sample. -/
def NoneWaits (e : ScheduleEngine α) : Prop := ∀ act ∈ e.active, act.closing = false → act.cutter.started = true

instance (e : ScheduleEngine α) : Decidable e.NoneWaits := by
  unfold NoneWaits; infer_instance

/-- Every schedule is seen in time, and a stop meets no waiting run. -/
def Act.InTime (e : ScheduleEngine α) : Act α → Prop
  | .chunk call => SeenInTime call e
  | .stop _ => e.NoneWaits
  | _ => True

instance (e : ScheduleEngine α) : ∀ a : Act α, Decidable (a.InTime e)
  | .chunk call => inferInstanceAs (Decidable (SeenInTime call e))
  | .stop _ => inferInstanceAs (Decidable e.NoneWaits)
  | .add _ | .delete _ => isTrue trivial

theorem Planned.later (planned : e.Planned) (takes : Takes e e') : e'.Planned where
  distinct := takes.live ▸ planned.distinct
  known := takes.live ▸ takes.known ▸ planned.known
  nextDistinct := takes.next ▸ planned.nextDistinct
  nextKnown := takes.next ▸ takes.known ▸ planned.nextKnown
  same := takes.next ▸ takes.live ▸ planned.same
  version := takes.planned ▸ takes.version ▸ planned.version
  whole := takes.planned ▸ takes.version ▸ takes.next ▸ takes.live ▸ planned.whole

/-- The engine a chunk plans from. -/
def marking (call : ChunkCall α) (e : ScheduleEngine α) : ScheduleEngine α :=
  if e.marked then e
  else { e with marked := true, firstDue := call.nowMs - e.graceMs }.markMissed call.nowMs

theorem Sound.marking (sound : e.Sound restored) (seen : SeenInTime call e) :
    (e.marking call).Ready restored call.nowMs ∧ (e.marking call).live = e.live := by
  unfold ScheduleEngine.marking
  cases isMarked : e.marked with
  | true =>
    rw [if_pos rfl]
    refine ⟨⟨sound.fated, sound.handed, sound.planned, sound.kept, isMarked, ?_, ?_⟩, rfl⟩
    · rintro s ⟨isLive, new⟩ k owed isDue
      have untold := sound.unplanned s isLive new
      have last := sound.fated.last_untold untold
      have := seen isMarked s isLive new k owed.exists_ (fun j isLast => owed.fresh j (last ▸ isLast)) owed.created
      omega
    · exact fun s new r told same => absurd same (sound.unplanned s new.1 new.2 r told)
  | false =>
    obtain ⟨noReports, noNext⟩ := sound.unmarked isMarked
    rw [if_neg (by simp)]
    obtain ⟨first, firstEq⟩ : ∃ first, { e with marked := true, firstDue := call.nowMs - e.graceMs } = first := ⟨_, rfl⟩
    have fated : first.Fated restored := by
      subst firstEq
      exact ⟨sound.fated.rising, sound.fated.known, sound.fated.fresh, sound.fated.last, sound.fated.keeps,
        sound.fated.source⟩
    have handed : first.Handed := by
      subst firstEq
      exact ⟨sound.handed.opened, sound.handed.told, sound.handed.once, sound.handed.busy, sound.handed.placed,
        sound.handed.finished⟩
    have planned : first.Planned := by
      subst firstEq
      exact ⟨sound.planned.distinct, sound.planned.known, sound.planned.nextDistinct, sound.planned.nextKnown,
        sound.planned.same, sound.planned.version, sound.planned.whole⟩
    have live : first.live = e.live := by rw [← firstEq]
    have graceMs : first.graceMs = e.graceMs := by rw [← firstEq]
    have firstDue : first.firstDue = call.nowMs - first.graceMs := by rw [← firstEq]
    have marked : first.marked = true := by rw [← firstEq]
    have none : first.reports = [] ∧ first.next = [] := by rw [← firstEq]; exact ⟨noReports, noNext⟩
    rw [firstEq]
    unfold markMissed
    obtain ⟨fated', handed', takes, sources, settled⟩ := markMissed_takes fated handed planned.distinct planned.known
      firstDue (fun s _ r told => by rw [none.1] at told; cases told)
    refine ⟨⟨fated', handed', planned.later takes, ?_, takes.marked.trans marked, ?_, ?_⟩, takes.live.trans live⟩
    · intro entry member
      rw [takes.next, none.2] at member
      cases member
    · rintro s ⟨isLive, -⟩ k owed isDue
      have created := owed.created
      rw [takes.graceMs] at created isDue
      rw [takes.live] at isLive
      exact settled s isLive k ⟨owed.exists_, owed.fresh, created⟩ isDue
    · rintro s ⟨isLive, -⟩ r told same
      rcases sources r told with before | ⟨s', isLive', same', start⟩
      · rw [none.1] at before
        cases before
      · rw [takes.live] at isLive
        obtain rfl := List.inj_on_of_nodup_map planned.distinct isLive' isLive (same'.symm.trans same)
        rw [takes.graceMs]
        exact start

theorem planIds {next : List (Schedule × Option Nat)} {live : List Schedule} (whole : next.map Prod.fst = live) :
    next.map (fun entry => entry.1.id) = live.map (·.id) := by
  rw [← whole, List.map_map]
  rfl

/-- The plan after a refresh holds every live schedule, and only those. -/
theorem Ready.refresh {nowMs : ℤ} (ready : e.Ready restored nowMs) :
    let e' := e.refresh nowMs
    e'.Fated restored ∧ e'.Handed ∧ e'.Planned ∧ e'.Kept restored e'.next ∧ e'.marked = true ∧
      e'.planned = some e'.version ∧ e'.live = e.live := by
  unfold ScheduleEngine.refresh
  by_cases current : e.planned = some e.version
  · rw [if_pos current]
    exact ⟨ready.fated, ready.handed, ready.planned, ready.kept, ready.marked, current, rfl⟩
  · rw [if_neg current]
    have plan := ready.planned
    -- an entry of the old plan is kept, any other begins anew
    have entries : ∀ s ∈ e.live, ∃ p,
        (e.next.find? fun entry => entry.1.id = s.id).getD (s, e.firstRun s nowMs) = (s, p) ∧
          e.Pointed restored s p := by
      intro s isLive
      cases found : e.next.find? fun entry => entry.1.id = s.id with
      | none =>
        refine ⟨_, rfl, firstRun_pointed ready.fated ?_ ?_⟩
        all_goals
          have new : e.Unplanned s := ⟨isLive, fun member => by
            obtain ⟨entry, inNext, same⟩ := List.mem_map.mp member
            exact absurd same (by simpa using List.find?_eq_none.mp found entry inNext)⟩
        · exact ready.settled s new
        · exact ready.past s new
      | some entry =>
        have inNext := List.mem_of_find?_eq_some found
        have same := plan.same entry inNext s isLive (by simpa using List.find?_some found)
        exact ⟨entry.2, by rw [Option.getD_some, ← same], same ▸ (ready.kept entry inNext).2⟩
    have fsts : (e.live.map fun s => (e.next.find? fun entry => entry.1.id = s.id).getD (s, e.firstRun s nowMs)).map
        Prod.fst = e.live := by
      rw [List.map_map]
      refine (List.map_congr_left fun s isLive => ?_).trans (List.map_id _)
      obtain ⟨p, isEntry, -⟩ := entries s isLive
      rw [Function.comp_apply, isEntry]
      rfl
    have from_ : ∀ entry ∈ e.live.map (fun s =>
        (e.next.find? fun entry => entry.1.id = s.id).getD (s, e.firstRun s nowMs)),
        entry.1 ∈ e.live ∧ e.Pointed restored entry.1 entry.2 := by
      intro entry member
      obtain ⟨s, isLive, isEntry⟩ := List.mem_map.mp member
      obtain ⟨p, isPair, pointed⟩ := entries s isLive
      rw [isPair] at isEntry
      subst isEntry
      exact ⟨isLive, pointed⟩
    refine ⟨⟨ready.fated.rising, ready.fated.known, ready.fated.fresh, ready.fated.last, ready.fated.keeps,
      ready.fated.source⟩, ⟨ready.handed.opened, ready.handed.told, ready.handed.once, ready.handed.busy,
      ready.handed.placed, ready.handed.finished⟩, ⟨plan.distinct, plan.known, ?_, ?_, ?_, ?_, fun _ => fsts⟩, ?_,
      ready.marked, rfl, rfl⟩
    · exact (planIds fsts).symm ▸ plan.distinct
    · exact fun entry member => plan.known _ (from_ entry member).1
    · intro entry member s isLive same
      exact List.inj_on_of_nodup_map plan.distinct (from_ entry member).1 isLive same
    · exact fun v isPlanned => (Option.some.inj isPlanned).ge
    · intro entry member
      obtain ⟨isLive, pointed⟩ := from_ entry member
      exact ⟨plan.known _ isLive, pointed.ahead, fun k owed before =>
        pointed.settled k ⟨owed.exists_, owed.fresh, owed.created⟩ before⟩

/-- After the due runs are taken none is left due. -/
theorem Sound.planChunk (sound : e.Sound restored) (seen : SeenInTime call e) :
    let e' := e.planChunk call
    e'.Sound restored ∧ e'.live = e.live ∧ e'.next.map Prod.fst = e'.live ∧
      ∀ entry ∈ e'.next, NotDue call entry.1 entry.2 := by
  obtain ⟨ready, live⟩ := sound.marking seen
  obtain ⟨fated, handed, planned, kept, marked, current, live'⟩ := ready.refresh
  obtain ⟨planning, planningEq⟩ : ∃ planning, (e.marking call).refresh call.nowMs = planning := ⟨_, rfl⟩
  simp only [planningEq] at fated handed planned kept marked current live'
  have unfolded : e.planChunk call = planning.startDue call := by rw [← planningEq]; rfl
  rw [unfolded]
  unfold startDue
  obtain ⟨fated', handed', takes, -, kept', notDue, fsts⟩ :=
    dueEntries_takes call fated handed planned.nextDistinct kept
  obtain ⟨⟨next, e'⟩, doneEq⟩ : ∃ done, dueEntries call planning.next planning = done := ⟨_, rfl⟩
  simp only [doneEq] at fated' handed' takes kept' notDue fsts ⊢
  have plan := planned.later takes
  have whole : next.map Prod.fst = e'.live := by
    rw [fsts, planned.whole current, takes.live]
  have ids := planIds whole
  have inLive : ∀ entry ∈ next, entry.1 ∈ e'.live := fun entry member => whole ▸ List.mem_map_of_mem member
  refine ⟨⟨⟨fated'.rising, fated'.known, fated'.fresh, fated'.last, fated'.keeps, fated'.source⟩,
    ⟨handed'.opened, handed'.told, handed'.once, handed'.busy, handed'.placed, handed'.finished⟩,
    ⟨plan.distinct, plan.known, ids ▸ plan.distinct, ?_, ?_, plan.version, fun _ => whole⟩, ?_, ?_, ?_⟩,
    takes.live.trans (live'.trans live), whole, notDue⟩
  · exact fun entry member => plan.known _ (inLive entry member)
  · exact fun entry member s isLive same => List.inj_on_of_nodup_map plan.distinct (inLive entry member) isLive same
  · intro entry member
    obtain ⟨known, pointed⟩ := kept' entry member
    exact ⟨known, pointed.ahead, fun k owed before =>
      pointed.settled k ⟨owed.exists_, owed.fresh, owed.created⟩ before⟩
  · intro unmarked
    rw [takes.marked, marked] at unmarked
    cases unmarked
  · intro s isLive new
    exact absurd (ids ▸ List.mem_map_of_mem isLive) new

theorem putOps_frame (spec : RunSpec) (ops : List (Op α)) (e : ScheduleEngine α) :
    ∃ written, e.putOps spec ops = { e with written := written } := by
  unfold putOps
  split
  · exact ⟨e.written, rfl⟩
  · exact ⟨_, rfl⟩

/-- Feeding the runs touches nothing of the book. -/
theorem feedActive_frame (call : ChunkCall α) (acts : List Active) (e : ScheduleEngine α) :
    ∃ active written closed, feedActive call acts e = { e with active := active, written := written, closed := closed } := by
  induction acts generalizing e with
  | nil => exact ⟨_, _, _, rfl⟩
  | cons act rest ih =>
    unfold feedActive
    obtain ⟨written, put⟩ := putOps_frame act.cutter.spec (feedOne call act).2 e
    simp only [put]
    split_ifs
    · obtain ⟨active, written, closed, fed⟩ := ih { e with written := written, closed := e.closed ++ [closing (feedOne call act).1] }
      exact ⟨active, written, closed, fed⟩
    · obtain ⟨active, written, closed, fed⟩ := ih { e with written := written, active := e.active ++ [(feedOne call act).1] }
      exact ⟨active, written, closed, fed⟩

theorem feedOne_kept {act : Active} (call : ChunkCall α)
    (placed : act.closing = act.cutter.done ∧ (act.cutter.done = true → act.cutter.started = true)) :
    let act' := (feedOne call act).1
    act'.key = act.key ∧ (act'.closing = act'.cutter.done ∧ (act'.cutter.done = true → act'.cutter.started = true)) ∧
      (act.closing = true → act'.closing = true) := by
  obtain ⟨spec, started⟩ := RunCutter.feed_kept act.cutter call
  unfold feedOne
  by_cases isClosing : act.closing = true
  · rw [if_pos isClosing]
    exact ⟨rfl, placed, id⟩
  · rw [if_neg isClosing]
    exact ⟨congrArg RunSpec.key spec, ⟨rfl, started placed.2⟩, fun now => absurd now isClosing⟩

theorem closing_status {act : Active} (started : act.cutter.started = true) : (closing act).status ≠ .missed := by
  have recorded : act.cutter.status ≠ .missed := by
    unfold RunCutter.status
    simp only [started]
    split_ifs <;> simp_all
  unfold closing
  simp only
  split
  · exact nofun
  · exact recorded

/-- A chunk's runs are fed and closed one by one, `acts` being still to feed. -/
theorem feedActive_handed {acts : List Active} (handed : Handed { e with active := e.active ++ acts }) :
    (feedActive call acts e).Handed := by
  induction acts generalizing e with
  | nil =>
    rw [List.append_nil] at handed
    exact handed
  | cons act rest ih =>
    unfold feedActive
    obtain ⟨written, put⟩ := putOps_frame act.cutter.spec (feedOne call act).2 e
    have isPlaced := handed.placed act (List.mem_append_right _ (List.mem_cons_self ..))
    obtain ⟨key, isPlaced', stays⟩ := feedOne_kept call isPlaced
    have others : ∀ other ∈ e.active ++ rest,
        other.closing = other.cutter.done ∧ (other.cutter.done = true → other.cutter.started = true) := by
      intro other member
      refine handed.placed other ?_
      rcases List.mem_append.mp member with before | after
      · exact List.mem_append_left _ before
      · exact List.mem_append_right _ (List.mem_cons_of_mem _ after)
    have busy := handed.busy
    simp only [List.countP_append, List.countP_cons] at busy
    have once := handed.once
    simp only [List.map_append, List.map_cons] at once
    simp only [put]
    split_ifs with closes
    · refine ih ⟨handed.opened, handed.told, ?_, ?_, others, ?_⟩
      · refine once.trans ?_
        have closedKey : (closing (feedOne call act).1).key = act.key := key
        simp only [List.map_append, List.map_cons, List.map_nil, closedKey, List.append_assoc, List.cons_append]
        refine List.Perm.append_left _ ?_
        rw [← List.append_assoc]
        exact (List.perm_append_singleton _ _).symm.trans (by simp)
      · simp only [List.countP_append]
        omega
      · intro c member
        rcases List.mem_append.mp member with before | new
        · exact handed.finished c before
        · obtain rfl := List.mem_singleton.mp new
          exact closing_status (isPlaced'.2 (isPlaced'.1 ▸ closes.1))
    · refine ih ⟨handed.opened, handed.told, ?_, ?_, ?_, handed.finished⟩
      · simpa only [List.map_append, List.map_cons, List.map_nil, List.append_assoc, List.cons_append, List.nil_append,
          key] using once
      · simp only [List.countP_append, List.countP_cons, List.countP_nil]
        by_cases running : (feedOne call act).1.closing = true
        · simp only [running, Bool.not_true, Bool.false_eq_true, if_false]
          omega
        · have was : act.closing = false := by
            by_contra isClosing
            exact running (stays (by simpa using isClosing))
          simp only [was, Bool.not_false, if_true] at busy
          split_ifs <;> omega
      · intro other member
        rw [List.append_assoc] at member
        rcases List.mem_append.mp member with before | after
        · exact others other (List.mem_append_left _ before)
        · rcases List.mem_cons.mp after with rfl | rest
          · exact isPlaced'
          · exact others other (List.mem_append_right _ rest)

theorem Sound.addSchedule (sound : e.Sound restored) (s : Schedule) : (e.addSchedule s).Sound restored := by
  unfold ScheduleEngine.addSchedule
  split
  · exact sound
  · rename_i new
    have plan := sound.planned
    refine ⟨⟨sound.fated.rising, fun r told => List.mem_cons_of_mem _ (sound.fated.known r told), sound.fated.fresh,
      sound.fated.last, sound.fated.keeps, sound.fated.source⟩, ⟨sound.handed.opened, sound.handed.told,
      sound.handed.once, sound.handed.busy, sound.handed.placed, sound.handed.finished⟩, ⟨?_, ?_, plan.nextDistinct,
      fun entry member => List.mem_cons_of_mem _ (plan.nextKnown entry member), ?_, ?_, ?_⟩, ?_, sound.unmarked, ?_⟩
    · rw [List.map_append]
      refine List.nodup_append'.mpr ⟨plan.distinct, List.nodup_singleton _, ?_⟩
      refine List.disjoint_singleton.mpr fun member => ?_
      obtain ⟨s', isLive, same⟩ := List.mem_map.mp member
      exact new ((show s'.id = s.id from same) ▸ plan.known s' isLive)
    · intro s' isLive
      rcases List.mem_append.mp isLive with before | added
      · exact List.mem_cons_of_mem _ (plan.known s' before)
      · exact List.mem_singleton.mp added ▸ List.mem_cons_self ..
    · intro entry member s' isLive same
      rcases List.mem_append.mp isLive with before | added
      · exact plan.same entry member s' before same
      · obtain rfl := List.mem_singleton.mp added
        exact absurd (same ▸ plan.nextKnown entry member) new
    · exact fun v isPlanned => (plan.version v isPlanned).trans (Nat.le_succ _)
    · exact fun current => absurd (plan.version _ current) (Nat.not_succ_le_self _)
    · intro entry member
      obtain ⟨known, pointed⟩ := sound.kept entry member
      exact ⟨List.mem_cons_of_mem _ known, pointed.ahead, fun k owed before =>
        pointed.settled k ⟨owed.exists_, owed.fresh, owed.created⟩ before⟩
    · intro s' isLive unplanned r told same
      rcases List.mem_append.mp isLive with before | added
      · exact sound.unplanned s' before unplanned r told same
      · obtain rfl := List.mem_singleton.mp added
        exact new (same ▸ sound.fated.known r told)

theorem Sound.deleteSchedule (sound : e.Sound restored) (id : String) : (e.deleteSchedule id).Sound restored := by
  unfold ScheduleEngine.deleteSchedule
  split
  · have plan := sound.planned
    have stillLive : ∀ s ∈ e.live.filter (fun s => s.id ≠ id), s ∈ e.live := fun s => List.mem_of_mem_filter
    refine ⟨⟨sound.fated.rising, sound.fated.known, sound.fated.fresh, sound.fated.last, sound.fated.keeps,
      sound.fated.source⟩, ⟨sound.handed.opened, sound.handed.told, sound.handed.once, sound.handed.busy,
      sound.handed.placed, sound.handed.finished⟩, ⟨?_, fun s isLive => plan.known s (stillLive s isLive),
      plan.nextDistinct, plan.nextKnown, fun entry member s isLive => plan.same entry member s (stillLive s isLive),
      ?_, ?_⟩, ?_, sound.unmarked, fun s isLive => sound.unplanned s (stillLive s isLive)⟩
    · exact plan.distinct.sublist (List.filter_sublist.map _)
    · exact fun v isPlanned => (plan.version v isPlanned).trans (Nat.le_succ _)
    · exact fun current => absurd (plan.version _ current) (Nat.not_succ_le_self _)
    · intro entry member
      obtain ⟨known, pointed⟩ := sound.kept entry member
      exact ⟨known, pointed.ahead, fun k owed before =>
        pointed.settled k ⟨owed.exists_, owed.fresh, owed.created⟩ before⟩
  · exact sound

/-- A stop closes what is open, and nothing else. -/
theorem stop_closes (reason : String) (handed : e.Handed) :
    (e.opened.map RunSpec.key).Perm ((e.stop reason).closed.map Closed.key) := by
  have keys : ∀ act : Active, (closing (if act.closing then act
      else { act with cutter := act.cutter.endRun reason })).key = act.key := by
    intro act
    split
    · rfl
    · change (act.cutter.endRun reason).spec.key = act.key
      unfold RunCutter.endRun
      split <;> rfl
  refine handed.once.trans (List.perm_append_comm.trans ?_)
  simp only [ScheduleEngine.stop, List.map_append, List.map_map]
  exact List.Perm.append_left _ (List.Perm.of_eq (List.map_congr_left fun act _ => (keys act).symm))

theorem Sound.stop (sound : e.Sound restored) (waits : e.NoneWaits) (reason : String) :
    (e.stop reason).Sound restored := by
  have plan := sound.planned
  refine ⟨⟨sound.fated.rising, sound.fated.known, sound.fated.fresh, sound.fated.last, sound.fated.keeps,
    sound.fated.source⟩, ⟨sound.handed.opened, sound.handed.told, ?_, Nat.zero_le _, List.forall_mem_nil _, ?_⟩,
    ⟨plan.distinct, plan.known, plan.nextDistinct, plan.nextKnown, plan.same, plan.version, plan.whole⟩,
    ?_, sound.unmarked, sound.unplanned⟩
  · exact stop_closes reason sound.handed
  · intro c member
    rcases List.mem_append.mp member with before | ended
    · exact sound.handed.finished c before
    · obtain ⟨act, isActive, rfl⟩ := List.mem_map.mp ended
      obtain ⟨isDone, started⟩ := sound.handed.placed act isActive
      cases isClosing : act.closing with
      | true =>
        rw [if_pos rfl]
        exact closing_status (started (isDone ▸ isClosing))
      | false =>
        rw [if_neg (by simp)]
        refine closing_status ?_
        unfold RunCutter.endRun
        split <;> exact waits act isActive isClosing
  · intro entry member
    obtain ⟨known, pointed⟩ := sound.kept entry member
    exact ⟨known, pointed.ahead, fun k owed before =>
      pointed.settled k ⟨owed.exists_, owed.fresh, owed.created⟩ before⟩

/-- Every run owed that starts before the chunk's end has its fate. -/
def Accounts (restored : String → Option Nat) (call : ChunkCall α) (e : ScheduleEngine α) : Prop :=
  ∀ s ∈ e.live, ∀ k, e.Owed restored s k → (s.runStartMs k : ℚ) / 1000 < call.chunkEnd → e.Settled s k

theorem Sound.onChunk (sound : e.Sound restored) (seen : SeenInTime call e) :
    (e.onChunk call).Sound restored ∧ (e.onChunk call).Accounts restored call := by
  obtain ⟨planning, -, whole, notDue⟩ := sound.planChunk seen
  obtain ⟨planned, plannedEq⟩ : ∃ planned, e.planChunk call = planned := ⟨_, rfl⟩
  simp only [plannedEq] at planning whole notDue
  have handed : (feedActive call planned.active { planned with active := [] }).Handed := by
    refine feedActive_handed ?_
    have h := planning.handed
    exact ⟨h.opened, h.told, h.once, h.busy, h.placed, h.finished⟩
  have unfolded : e.onChunk call = feedActive call planned.active { planned with active := [] } := by
    rw [← plannedEq]; rfl
  obtain ⟨active, written, closed, frame⟩ := feedActive_frame call planned.active { planned with active := [] }
  rw [unfolded]
  rw [frame] at handed ⊢
  have plan := planning.planned
  constructor
  · refine ⟨⟨planning.fated.rising, planning.fated.known, planning.fated.fresh, planning.fated.last,
      planning.fated.keeps, planning.fated.source⟩, handed, ⟨plan.distinct, plan.known, plan.nextDistinct,
      plan.nextKnown, plan.same, plan.version, plan.whole⟩, fun entry member => ?_, planning.unmarked,
      planning.unplanned⟩
    obtain ⟨known, pointed⟩ := planning.kept entry member
    exact ⟨known, pointed.ahead, fun k owed before =>
      pointed.settled k ⟨owed.exists_, owed.fresh, owed.created⟩ before⟩
  · intro s isLive k owed isDue
    obtain ⟨entry, member, isEntry⟩ := List.mem_map.mp (whole ▸ isLive : s ∈ planned.next.map Prod.fst)
    subst isEntry
    refine (planning.kept entry member).2.settled k ⟨owed.exists_, owed.fresh, owed.created⟩ fun q isNext => ?_
    by_contra later
    refine notDue entry member q isNext (lt_of_le_of_lt ?_ isDue)
    have := entry.1.runStartMs_mono (not_lt.mp later)
    gcongr

theorem Sound.step {a : Act α} (sound : e.Sound restored) (inTime : a.InTime e) (taken : e.step a = some e') :
    e'.Sound restored := by
  cases a with
  | add s => exact Option.some.inj taken ▸ sound.addSchedule s
  | delete id => exact Option.some.inj taken ▸ sound.deleteSchedule id
  | chunk call => exact Option.some.inj taken ▸ (sound.onChunk inTime).1
  | stop reason => exact Option.some.inj taken ▸ sound.stop inTime reason

theorem Sound.create {graceMs : ℤ} {live : List Schedule} {known : List String} {restored : String → Option Nat}
    (distinct : (live.map (·.id)).Nodup) (used : ∀ s ∈ live, s.id ∈ known) :
    (create graceMs live known restored : ScheduleEngine α).Sound restored where
  fated := ⟨List.Pairwise.nil, List.forall_mem_nil _, List.forall_mem_nil _, List.forall_mem_nil _,
    fun _ j old => ⟨j, old, le_rfl⟩, fun _ _ isLast => Or.inl isLast⟩
  handed := ⟨rfl, List.forall_mem_nil _, List.Perm.refl _, Nat.zero_le _, List.forall_mem_nil _, List.forall_mem_nil _⟩
  planned := ⟨distinct, used, List.nodup_nil, List.forall_mem_nil _, List.forall_mem_nil _, nofun, nofun⟩
  kept := List.forall_mem_nil _
  unmarked := fun _ => ⟨rfl, rfl⟩
  unplanned := fun _ _ _ => List.forall_mem_nil _

/-- Each run is told of once, as started or as missed, the runs of a schedule
in order and never again after an outcome. The started ones are open or were
closed once, and none of them as missed. -/
structure OneFate (restored : String → Option Nat) (e : ScheduleEngine α) : Prop where
  once : (e.reports.map RunReport.key).Nodup
  told : ∀ r ∈ e.reports, r.status = .recording ∨ r.status = .missed
  rising : e.reports.Pairwise fun a b => a.scheduleId = b.scheduleId → a.run < b.run
  fresh : ∀ r ∈ e.reports, ∀ j ∈ restored r.scheduleId, j < r.run
  opened : e.opened.map RunSpec.key = (e.reports.filter fun r => r.status = .recording).map RunReport.key
  finished : ∀ c ∈ e.closed, c.status ≠ .missed
  busy : e.active.countP (fun act => !act.closing) ≤ maxConcurrentRuns
  closedOnce : (e.active.map Active.key ++ e.closed.map Closed.key).Nodup
  closed : (e.opened.map RunSpec.key).Perm (e.active.map Active.key ++ e.closed.map Closed.key)

theorem Sound.oneFate (sound : e.Sound restored) : e.OneFate restored where
  once := sound.fated.nodup
  told := sound.handed.told
  rising := sound.fated.rising
  fresh := sound.fated.fresh
  opened := sound.handed.opened
  finished := sound.handed.finished
  busy := sound.handed.busy
  closedOnce := by
    rw [← sound.handed.once.nodup_iff, sound.handed.opened]
    exact sound.fated.nodup.sublist (List.filter_sublist.map _)
  closed := sound.handed.once

section Runs

/-- Two samples received at `captureTime`, with nothing held from before. -/
def twoSamples (captureTime : ℚ) : ChunkCall Bool where
  samples := [true, false]
  chunkStart := 0
  captureTime := captureTime
  gaps := []
  centerFreqHz := 100
  rateHz := 1000
  ring := none
  refusal := none
  refuses := fun _ => 0
  rowsIn := fun _ => true

end Runs

end ScheduleEngine
end RFObserver
