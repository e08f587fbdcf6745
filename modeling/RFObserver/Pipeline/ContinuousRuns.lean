import Mathlib.Tactic
import RFObserver.Pipeline.Continuous

namespace RFObserver

/-- The drain has started its call or has none to make. -/
def SweepLoop.Drained : SweepLoop → Prop
  | .drainsStore | .drainsBroadcast | .ended _ => True
  | _ => False

namespace ContinuousProcessor

variable {s : ContinuousProcessor}

/-- The call that stores: the drain's own, or else the task. -/
def active (s : ContinuousProcessor) : Option StoreCall := s.drain.or s.broadcastTask

/-- What the log has of one capture. -/
def logOf (s : ContinuousProcessor) (capture : Nat) : List (Nat × StoreStep) := s.log.filter fun e => e.1 = capture

def stepsOf (s : ContinuousProcessor) (r : Nat × ProcessResult) : List (Nat × StoreStep) :=
  (s.config.storeAndBroadcast r.2).map fun step => (r.1, step)

/-- A call has written the first of its capture's steps and has the others to do. -/
structure Writes (s : ContinuousProcessor) (t : StoreCall) : Prop where
  raised : t.raised = true → t.capture ∈ s.raised
  steps : ∀ r ∈ s.results, r.1 = t.capture → t.raised = false →
    s.logOf t.capture ++ t.todo.map (fun step => (t.capture, step)) = s.stepsOf r
  older : ∀ r ∈ s.results, r.1 < t.capture → r.1 ∈ s.raised ∨ s.logOf r.1 = s.stepsOf r

/-- The processing is the newest submitted, ahead of the call that stores. -/
structure Ahead (s : ContinuousProcessor) (p : Processing) : Prop where
  raised : p.state = .raised → p.capture ∈ s.raised
  done : ∀ pr, p.state = .done pr → (p.capture, pr) ∈ s.results
  behind : ∀ t ∈ s.active, t.capture < p.capture
  next : p.capture < s.next

structure Sound (s : ContinuousProcessor) : Prop where
  submitted : ∀ c ∈ s.received, s.held = some c ∨ c ∈ s.submitted
  processed : ∀ c ∈ s.submitted,
    (∃ p ∈ s.processFuture, p.capture = c ∧ p.state = .running) ∨ c ∈ s.raised ∨ ∃ r ∈ s.results, r.1 = c
  ordered : (s.log.map Prod.fst).Pairwise (· ≤ ·)
  log : ∀ e ∈ s.log, ∃ t ∈ s.active, e.1 ≤ t.capture
  results : ∀ r ∈ s.results, (∃ t ∈ s.active, r.1 ≤ t.capture) ∨
    ∃ p ∈ s.processFuture, p.capture = r.1 ∧ p.state = .done r.2
  writes : ∀ t ∈ s.active, s.Writes t ∧ t.capture < s.next
  ahead : ∀ p ∈ s.processFuture, s.Ahead p
  held : ∀ c ∈ s.held, c < s.next ∧ (∀ p ∈ s.processFuture, p.capture < c) ∧ ∀ t ∈ s.active, t.capture < c
  drain : ∀ t ∈ s.drain, s.processFuture = none ∧ s.loop.Drained ∧ ∀ u ∈ s.broadcastTask, ¬ u.Running
  awaited : ∀ c pr f rest, s.loop = .awaitsBroadcast c pr f rest → ∃ p ∈ s.processFuture, p.state = .done pr

theorem sound_create (config : SweepConfig) : (create config).Sound where
  submitted := by simp [create]
  processed := by simp [create]
  ordered := by simp [create]
  log := by simp [create]
  results := by simp [create]
  writes := by simp [create, active]
  ahead := by simp [create]
  held := by simp [create, ContinuousProcessor.held]
  drain := by simp [create]
  awaited := by simp [create]

/-- The property from the invariant. -/
theorem Sound.each_stored (sound : s.Sound) : s.EachStored := by
  refine ⟨sound.submitted, sound.processed, fun r member => ?_, sound.ordered⟩
  rcases sound.results r member with ⟨t, isActive, le⟩ | ⟨p, future, same, -⟩
  · obtain ⟨writes, -⟩ := sound.writes t isActive
    rcases Nat.lt_or_eq_of_le le with older | same
    · exact (writes.older r member older).imp_right Or.inr
    · by_cases raised : t.raised = true
      · exact Or.inl (same ▸ writes.raised raised)
      · have unraised : t.raised = false := Bool.eq_false_iff.mpr raised
        by_cases todo : t.todo = []
        · have steps := writes.steps r member same unraised
          rw [todo, List.map_nil, List.append_nil, ← same] at steps
          exact Or.inr (Or.inr steps)
        · refine Or.inr (Or.inl ?_)
          rcases Option.or_eq_some_iff.mp isActive with drain | ⟨-, task⟩
          · exact Or.inr (Or.inr ⟨t, drain, same.symm, todo, unraised⟩)
          · exact Or.inr (Or.inl ⟨t, task, same.symm, todo, unraised⟩)
  · exact Or.inr (Or.inl (Or.inl ⟨p, future, same⟩))

/-- The loop moves and nothing else does. -/
theorem Sound.moves (sound : s.Sound) {loop : SweepLoop}
    (held : ({ s with loop := loop } : ContinuousProcessor).held = s.held)
    (drain : ∀ t ∈ s.drain, loop.Drained)
    (awaited : ∀ c pr f rest, loop = .awaitsBroadcast c pr f rest → ∃ p ∈ s.processFuture, p.state = .done pr) :
    ({ s with loop := loop } : ContinuousProcessor).Sound where
  submitted := by rw [held]; exact sound.submitted
  processed := sound.processed
  ordered := sound.ordered
  log := sound.log
  results := sound.results
  writes t member := by
    obtain ⟨⟨raised, steps, older⟩, next⟩ := sound.writes t member
    exact ⟨⟨raised, steps, older⟩, next⟩
  ahead p member := by
    obtain ⟨raised, done, behind, next⟩ := sound.ahead p member
    exact ⟨raised, done, behind, next⟩
  held := by rw [held]; exact sound.held
  drain t member := ⟨(sound.drain t member).1, drain t member, (sound.drain t member).2.2⟩
  awaited := awaited

/-- The first submission of a held capture. -/
theorem Sound.submit (sound : s.Sound) {c : Nat} {f : ℤ} {rest : List ℤ} (held : s.held = some c)
    (empty : s.processFuture = none) (noDrain : s.drain = none) : (s.submit c f rest).Sound := by
  obtain ⟨next, -, behind⟩ := sound.held c held
  constructor
  case submitted =>
    intro c' member
    refine Or.inr (List.mem_append.mpr ?_)
    rcases sound.submitted c' member with holds | before
    · cases held.symm.trans holds
      exact Or.inr (List.mem_singleton_self c)
    · exact Or.inl before
  case processed =>
    intro c' member
    rcases List.mem_append.mp member with before | now
    · rcases sound.processed c' before with ⟨p, future, -⟩ | rest
      · cases empty.symm.trans future
      · exact Or.inr rest
    · cases List.mem_singleton.mp now
      exact Or.inl ⟨_, rfl, rfl, rfl⟩
  case ordered => exact sound.ordered
  case log => exact sound.log
  case results =>
    intro r member
    rcases sound.results r member with stored | ⟨p, future, -⟩
    · exact Or.inl stored
    · cases empty.symm.trans future
  case writes =>
    intro t member
    obtain ⟨⟨raised, steps, older⟩, next⟩ := sound.writes t member
    exact ⟨⟨raised, steps, older⟩, next⟩
  case ahead =>
    rintro p ⟨⟩
    exact ⟨by simp, by simp, behind, next⟩
  case held => intro c' holds; cases holds
  case drain =>
    intro t member
    cases noDrain.symm.trans member
  case awaited => intro c pr f rest at_; cases at_

/-- A finished call has stored its capture. -/
theorem Writes.stored {t : StoreCall} (writes : s.Writes t) (finished : ¬ t.Running) {r : Nat × ProcessResult}
    (member : r ∈ s.results) (le : r.1 ≤ t.capture) : r.1 ∈ s.raised ∨ s.logOf r.1 = s.stepsOf r := by
  rcases Nat.lt_or_eq_of_le le with older | same
  · exact writes.older r member older
  · by_cases raised : t.raised = true
    · exact Or.inl (same ▸ writes.raised raised)
    · have unraised : t.raised = false := Bool.eq_false_iff.mpr raised
      have todo : t.todo = [] := by
        by_contra more
        exact finished ⟨more, unraised⟩
      have steps := writes.steps r member same unraised
      rw [todo, List.map_nil, List.append_nil, ← same] at steps
      exact Or.inr steps

/-- A new call for the processed capture, once the one before is done. -/
theorem Sound.newCall_writes (sound : s.Sound) {p : Processing} {pr : ProcessResult}
    (future : s.processFuture = some p) (done : p.state = .done pr) (idle : ∀ t ∈ s.active, ¬ t.Running) :
    ∀ r ∈ s.results, r.1 ≤ p.capture ∧ (r.1 = p.capture → s.logOf p.capture = [] ∧ r.2 = pr) ∧
      (r.1 < p.capture → r.1 ∈ s.raised ∨ s.logOf r.1 = s.stepsOf r) := by
  have ahead := sound.ahead p future
  intro r member
  rcases sound.results r member with ⟨t, isActive, le⟩ | ⟨p', its, same, state⟩
  · have before := ahead.behind t isActive
    exact ⟨by omega, by omega, fun _ => (sound.writes t isActive).1.stored (idle t isActive) member le⟩
  · cases future.symm.trans its
    rw [done] at state
    cases state
    refine ⟨same.symm.le, fun _ => ⟨?_, rfl⟩, by omega⟩
    refine List.filter_eq_nil_iff.mpr fun e logged => ?_
    obtain ⟨t, isActive, le⟩ := sound.log e logged
    have before := ahead.behind t isActive
    simp only [decide_eq_true_eq]
    omega

/-- The task of the processed capture is created and the held one submitted. -/
theorem Sound.createsTask (sound : s.Sound) {c : Nat} {f : ℤ} {rest : List ℤ} {p : Processing} {pr : ProcessResult}
    (held : s.held = some c) (future : s.processFuture = some p) (done : p.state = .done pr) (noDrain : s.drain = none)
    (idle : ∀ t ∈ s.active, ¬ t.Running) :
    (({ s with broadcastTask := some (s.newCall p.capture pr) } : ContinuousProcessor).submit c f rest).Sound := by
  obtain ⟨next, behind, -⟩ := sound.held c held
  have ahead := sound.ahead p future
  have new := sound.newCall_writes future done idle
  have isActive : (({ s with broadcastTask := some (s.newCall p.capture pr) } : ContinuousProcessor).submit c f
      rest).active = some (s.newCall p.capture pr) := by simp [active, ContinuousProcessor.submit, noDrain]
  constructor
  case submitted =>
    intro c' member
    refine Or.inr (List.mem_append.mpr ?_)
    rcases sound.submitted c' member with holds | before
    · cases held.symm.trans holds
      exact Or.inr (List.mem_singleton_self c)
    · exact Or.inl before
  case processed =>
    intro c' member
    rcases List.mem_append.mp member with before | now
    · rcases sound.processed c' before with ⟨p', its, -, running⟩ | rest
      · cases future.symm.trans its
        cases done.symm.trans running
      · exact Or.inr rest
    · cases List.mem_singleton.mp now
      exact Or.inl ⟨_, rfl, rfl, rfl⟩
  case ordered => exact sound.ordered
  case log =>
    intro e logged
    obtain ⟨t, wasActive, le⟩ := sound.log e logged
    exact ⟨_, isActive, le.trans (ahead.behind t wasActive).le⟩
  case results =>
    intro r member
    exact Or.inl ⟨_, isActive, (new r member).1⟩
  case writes =>
    intro t member
    cases isActive.symm.trans member
    refine ⟨⟨by simp [newCall], fun r member same _ => ?_, fun r member older => (new r member).2.2 older⟩, ahead.next⟩
    obtain ⟨empty, its⟩ := (new r member).2.1 same
    change s.logOf p.capture ++ (s.config.storeAndBroadcast pr).map _ = s.stepsOf r
    rw [empty, List.nil_append, stepsOf, its, same]
  case ahead =>
    rintro p' ⟨⟩
    refine ⟨by simp, by simp, fun t member => ?_, next⟩
    cases isActive.symm.trans member
    exact behind p future
  case held => intro c' holds; cases holds
  case drain =>
    intro t member
    cases noDrain.symm.trans member
  case awaited => intro c pr f rest at_; cases at_

/-- The drain makes its call. -/
theorem Sound.drainsStore (sound : s.Sound) {p : Processing} {pr : ProcessResult} (loop : s.loop = .drainsProcess)
    (future : s.processFuture = some p) (done : p.state = .done pr) (idle : ∀ t ∈ s.broadcastTask, ¬ t.Running) :
    ({ s with loop := .drainsStore, drain := some (s.newCall p.capture pr), processFuture := none } :
      ContinuousProcessor).Sound := by
  have noDrain : s.drain = none := by
    refine Option.eq_none_iff_forall_not_mem.mpr fun t member => ?_
    obtain ⟨-, drained, -⟩ := sound.drain t member
    rw [loop] at drained
    exact drained
  have ahead := sound.ahead p future
  have new := sound.newCall_writes future done (by rw [active, noDrain, Option.none_or]; exact idle)
  constructor
  case submitted =>
    intro c member
    rcases sound.submitted c member with holds | before
    · rw [ContinuousProcessor.held, loop] at holds
      cases holds
    · exact Or.inr before
  case processed =>
    intro c member
    rcases sound.processed c member with ⟨p', its, -, running⟩ | rest
    · cases future.symm.trans its
      cases done.symm.trans running
    · exact Or.inr rest
  case ordered => exact sound.ordered
  case log =>
    intro e logged
    obtain ⟨t, wasActive, le⟩ := sound.log e logged
    exact ⟨_, rfl, le.trans (ahead.behind t wasActive).le⟩
  case results =>
    intro r member
    exact Or.inl ⟨_, rfl, (new r member).1⟩
  case writes =>
    rintro t ⟨⟩
    refine ⟨⟨by simp [newCall], fun r member same _ => ?_, fun r member older => (new r member).2.2 older⟩, ahead.next⟩
    obtain ⟨empty, its⟩ := (new r member).2.1 same
    change s.logOf p.capture ++ (s.config.storeAndBroadcast pr).map _ = s.stepsOf r
    rw [empty, List.nil_append, stepsOf, its, same]
  case ahead => simp
  case held => intro c holds; cases holds
  case drain => exact fun t _ => ⟨rfl, trivial, idle⟩
  case awaited => intro c pr f rest at_; cases at_

/-- The loop moves to where it holds nothing, before the drain. -/
theorem Sound.movesTo (sound : s.Sound) {loop : SweepLoop} (before : ¬ s.loop.Drained) (none_held : s.held = none)
    (same : ({ s with loop := loop } : ContinuousProcessor).held = none) : ({ s with loop := loop } : ContinuousProcessor).Sound := by
  refine sound.moves (same.trans none_held.symm) (fun t member => absurd (sound.drain t member).2.1 before) ?_
  rintro c pr f rest rfl
  cases same

theorem Sound.noDrain (sound : s.Sound) (before : ¬ s.loop.Drained) : s.drain = none :=
  Option.eq_none_iff_forall_not_mem.mpr fun t member => before (sound.drain t member).2.1

theorem Sound.drains (sound : s.Sound) (before : ¬ s.loop.Drained) (none_held : s.held = none) : s.drains.Sound := by
  refine sound.movesTo before none_held ?_
  cases s.processFuture <;> rfl

theorem Sound.goes (sound : s.Sound) (clear : s.Clear .goes) {s' : ContinuousProcessor} (goes : s.goes = some s') :
    s'.Sound := by
  obtain ⟨unraised, inTurn⟩ := clear
  cases loop : s.loop with
  | top remaining =>
    have none_held : s.held = none := by rw [ContinuousProcessor.held, loop]
    have before : ¬ s.loop.Drained := by rw [loop]; exact id
    cases remaining with
    | nil =>
      have taken : s.goes = some (if s.running then { s with loop := .top s.config.freqs } else s.drains) := by
        simp only [ContinuousProcessor.goes, loop]
      cases goes.symm.trans taken
      split
      · exact sound.movesTo before none_held rfl
      · exact sound.drains before none_held
    | cons f rest =>
      have taken : s.goes = some (if s.running then { s with loop := .receives f rest } else s.drains) := by
        simp only [ContinuousProcessor.goes, loop]
      cases goes.symm.trans taken
      split
      · exact sound.movesTo before none_held rfl
      · exact sound.drains before none_held
  | receives f rest => simp [ContinuousProcessor.goes, loop] at goes
  | awaitsProcess c f rest =>
    have holds : s.held = some c := by rw [ContinuousProcessor.held, loop]
    have idle : s.drain = none := sound.noDrain (by rw [loop]; exact id)
    cases future : s.processFuture with
    | none =>
      have taken : s.goes = some (s.submit c f rest) := by simp only [ContinuousProcessor.goes, loop, future]
      cases goes.symm.trans taken
      exact sound.submit holds future idle
    | some p =>
      cases state : p.state with
      | running => simp [ContinuousProcessor.goes, loop, future, state] at goes
      | raised =>
        exact absurd state ((unraised rfl).1 (by rw [loop]; rfl) p future)
      | done pr =>
        have taken : s.goes = some { s with loop := .awaitsBroadcast c pr f rest } := by
          simp only [ContinuousProcessor.goes, loop, future, state]
        cases goes.symm.trans taken
        refine sound.moves (by rw [holds]; rfl) (by simp [idle]) fun c' pr' f' rest' at_ => ?_
        cases at_
        exact ⟨p, future, state⟩
  | awaitsBroadcast c prevResult f rest =>
    have holds : s.held = some c := by rw [ContinuousProcessor.held, loop]
    have none_drain : s.drain = none := sound.noDrain (by rw [loop]; exact id)
    obtain ⟨p, future, done⟩ := sound.awaited c prevResult f rest loop
    have fine : ¬ ∃ t ∈ s.broadcastTask, t.raised = true := by
      rintro ⟨t, member, raised⟩
      exact absurd ((unraised rfl).2 (by rw [loop]; rfl) t member) (by simp [raised])
    by_cases running : ∃ t ∈ s.broadcastTask, t.Running
    · have blocked : s.goes = none := by
        have future := Option.mem_def.mp future
        simp only [ContinuousProcessor.goes, loop, future, if_pos running]
      cases goes.symm.trans blocked
    · have taken : s.goes = some (({ s with broadcastTask := some (s.newCall p.capture prevResult) } :
          ContinuousProcessor).submit c f rest) := by
        have future := Option.mem_def.mp future
        simp only [ContinuousProcessor.goes, loop, future, if_neg running, if_neg fine]
      cases goes.symm.trans taken
      refine sound.createsTask holds future done none_drain ?_
      rw [active, none_drain, Option.none_or]
      exact fun t member runs => running ⟨t, member, runs⟩
  | sleeps rest =>
    have taken : s.goes = some { s with loop := .top rest } := by simp only [ContinuousProcessor.goes, loop]
    cases goes.symm.trans taken
    exact sound.movesTo (by rw [loop]; exact id) (by rw [ContinuousProcessor.held, loop]) rfl
  | drainsProcess =>
    cases future : s.processFuture with
    | none => simp [ContinuousProcessor.goes, loop, future] at goes
    | some p =>
      cases state : p.state with
      | running => simp [ContinuousProcessor.goes, loop, future, state] at goes
      | raised =>
        have taken : s.goes = some { s with loop := .ended true } := by
          simp only [ContinuousProcessor.goes, loop, future, state]
        cases goes.symm.trans taken
        exact sound.movesTo (by rw [loop]; exact id) (by rw [ContinuousProcessor.held, loop]) rfl
      | done pr =>
        have taken : s.goes = some { s with loop := .drainsStore, drain := some (s.newCall p.capture pr), processFuture := none } := by
          simp only [ContinuousProcessor.goes, loop, future, state]
        cases goes.symm.trans taken
        exact sound.drainsStore loop future state (inTurn rfl loop p future (by simp [state]))
  | drainsStore =>
    have none_held : s.held = none := by rw [ContinuousProcessor.held, loop]
    cases call : s.drain with
    | none => simp [ContinuousProcessor.goes, loop, call] at goes
    | some t =>
      have taken : s.goes = if t.Running then none else
          some { s with loop := if t.raised then .ended true else .drainsBroadcast } := by
        simp only [ContinuousProcessor.goes, loop, call]
      obtain ⟨-, ⟨⟩⟩ := Option.ite_none_left_eq_some.mp (taken.symm.trans goes)
      cases t.raised with
      | false => exact sound.moves none_held.symm (fun _ _ => trivial) (by simp)
      | true => exact sound.moves none_held.symm (fun _ _ => trivial) (by simp)
  | drainsBroadcast =>
    have none_held : s.held = none := by rw [ContinuousProcessor.held, loop]
    simp only [ContinuousProcessor.goes, loop] at goes
    obtain ⟨-, ⟨⟩⟩ := Option.ite_none_left_eq_some.mp goes
    exact sound.moves none_held.symm (fun _ _ => trivial) (by simp)
  | ended raised => simp [ContinuousProcessor.goes, loop] at goes

/-- The call that can take a step is the one that stores. -/
theorem Sound.call_active (sound : s.Sound) {inDrain : Bool} {t : StoreCall} (call : s.call inDrain = some t)
    (running : t.Running) (u : StoreCall) : s.active = some t ∧
      ∃ drain task, s.setCall inDrain u = { s with drain := drain, broadcastTask := task } ∧ drain.or task = some u ∧
        ∀ d ∈ drain, s.processFuture = none ∧ s.loop.Drained ∧ ∀ b ∈ task, ¬ b.Running := by
  cases inDrain with
  | true =>
    have drain : s.drain = some t := call
    exact ⟨by rw [active, drain, Option.some_or], some u, s.broadcastTask, rfl, rfl, fun _ _ => sound.drain t drain⟩
  | false =>
    have task : s.broadcastTask = some t := call
    have none_drain : s.drain = none :=
      Option.eq_none_iff_forall_not_mem.mpr fun d member => (sound.drain d member).2.2 t task running
    refine ⟨by rw [active, none_drain, Option.none_or, task], none, some u, ?_, rfl, by simp⟩
    rw [ContinuousProcessor.setCall, if_neg Bool.false_ne_true, none_drain]

/-- The call that stores has come to `u`: the log grows by its steps, and the
captures that raised by its own. -/
theorem Sound.setCall (sound : s.Sound) {inDrain : Bool} {t : StoreCall} (call : s.call inDrain = some t)
    (running : t.Running) {u : StoreCall} (same : u.capture = t.capture) (log : List (Nat × StoreStep)) (raised : List Nat)
    (mine : ∀ e ∈ log, e.1 = t.capture) (raises : u.raised = true → t.capture ∈ raised)
    (steps : u.raised = false → log ++ u.todo.map (fun step => (t.capture, step)) = t.todo.map fun step => (t.capture, step)) :
    ({ s.setCall inDrain u with log := s.log ++ log, raised := s.raised ++ raised } : ContinuousProcessor).Sound := by
  obtain ⟨isActive, drain, task, set, comes, drained⟩ := sound.call_active call running u
  obtain ⟨writes, next⟩ := sound.writes t isActive
  rw [set]
  constructor
  case submitted => exact sound.submitted
  case processed =>
    intro c member
    exact (sound.processed c member).imp_right (Or.imp_left (List.mem_append_left _))
  case ordered =>
    rw [List.map_append]
    refine List.pairwise_append.mpr ⟨sound.ordered, ?_, ?_⟩
    · refine List.pairwise_map.mpr (List.pairwise_of_forall_mem_list fun e member e' member' => ?_)
      rw [mine e member, mine e' member']
    · intro c old c' new
      obtain ⟨e, logged, rfl⟩ := List.mem_map.mp old
      obtain ⟨e', member, rfl⟩ := List.mem_map.mp new
      obtain ⟨t', its, le⟩ := sound.log e logged
      cases isActive.symm.trans its
      rw [mine e' member]
      exact le
  case log =>
    intro e member
    refine ⟨u, comes, ?_⟩
    rw [same]
    rcases List.mem_append.mp member with old | new
    · obtain ⟨t', its, le⟩ := sound.log e old
      cases isActive.symm.trans its
      exact le
    · exact (mine e new).le
  case results =>
    intro r member
    refine (sound.results r member).imp_left fun ⟨t', its, le⟩ => ⟨u, comes, ?_⟩
    cases isActive.symm.trans its
    rw [same]
    exact le
  case writes =>
    intro t' its
    cases comes.symm.trans its
    rw [same]
    refine ⟨⟨fun isRaised => List.mem_append_right _ (by rw [same]; exact raises isRaised), ?_, ?_⟩, next⟩
    · intro r member at_ unraised
      rw [same] at at_ ⊢
      have whole := writes.steps r member at_ running.2
      rw [← steps unraised, ← List.append_assoc] at whole
      have own : log.filter (fun e => e.1 = t.capture) = log :=
        List.filter_eq_self.mpr fun e new => by simpa using mine e new
      change (s.log ++ log).filter (fun e => e.1 = t.capture) ++ _ = s.stepsOf r
      rw [List.filter_append, own]
      exact whole
    · intro r member older
      rw [same] at older
      refine (writes.older r member older).imp (List.mem_append_left _) fun stored => ?_
      have other : log.filter (fun e => e.1 = r.1) = [] := by
        refine List.filter_eq_nil_iff.mpr fun e new => ?_
        have its := mine e new
        simp only [decide_eq_true_eq]
        omega
      change (s.log ++ log).filter (fun e => e.1 = r.1) = s.stepsOf r
      rw [List.filter_append, other, List.append_nil]
      exact stored
  case ahead =>
    intro p member
    obtain ⟨isRaised, done, behind, below⟩ := sound.ahead p member
    refine ⟨fun state => List.mem_append_left _ (isRaised state), done, fun t' its => ?_, below⟩
    cases comes.symm.trans its
    rw [same]
    exact behind t isActive
  case held =>
    intro c holds
    obtain ⟨below, behind, stored⟩ := sound.held c holds
    refine ⟨below, behind, fun t' its => ?_⟩
    cases comes.symm.trans its
    rw [same]
    exact stored t isActive
  case drain => exact drained
  case awaited => exact sound.awaited

theorem Sound.store (sound : s.Sound) {inDrain : Bool} {t u : StoreCall} {entry : Nat × StoreStep}
    (call : s.call inDrain = some t) (goes : storeStep t = some (u, entry)) :
    ({ s.setCall inDrain u with log := s.log ++ [entry] } : ContinuousProcessor).Sound := by
  unfold storeStep at goes
  cases todo : t.todo with
  | nil => simp [todo] at goes
  | cons e rest =>
    simp only [todo] at goes
    obtain ⟨unraised, ⟨⟩⟩ := Option.ite_none_left_eq_some.mp goes
    have running : t.Running := ⟨by simp [todo], Bool.eq_false_iff.mpr unraised⟩
    have stored : ({ s.setCall inDrain { t with todo := rest } with
        log := s.log ++ [(t.capture, e)], raised := s.raised ++ [] } : ContinuousProcessor).Sound :=
      sound.setCall call running (u := { t with todo := rest }) rfl [(t.capture, e)] [] (by simp)
        (fun raised => absurd raised unraised) (by simp [todo])
    rw [List.append_nil] at stored
    cases inDrain <;> exact stored

theorem Sound.storeRaises (sound : s.Sound) {inDrain : Bool} {t u : StoreCall}
    (call : s.call inDrain = some t) (goes : storeRaise t = some u) :
    ({ s.setCall inDrain u with raised := s.raised ++ [u.capture] } : ContinuousProcessor).Sound := by
  have raises : t.Running ∧ u = { t with raised := true } := by
    unfold storeRaise at goes
    split at goes
    case h_1 => cases goes
    case h_2 => cases goes
    case h_3 todo _ =>
      obtain ⟨unraised, ⟨⟩⟩ := Option.ite_none_left_eq_some.mp goes
      exact ⟨⟨todo, Bool.eq_false_iff.mpr unraised⟩, rfl⟩
  obtain ⟨running, rfl⟩ := raises
  have stored : ({ s.setCall inDrain { t with raised := true } with
      log := s.log ++ [], raised := s.raised ++ [t.capture] } : ContinuousProcessor).Sound :=
    sound.setCall call running (u := { t with raised := true }) rfl [] [t.capture] (by simp) (by simp) (by simp)
  rw [List.append_nil] at stored
  cases inDrain <;> exact stored

/-- The loop has its capture. -/
theorem Sound.receive (sound : s.Sound) {f : ℤ} {rest : List ℤ} (loop : s.loop = .receives f rest) :
    ({ s with loop := .awaitsProcess s.next f rest, next := s.next + 1, received := s.received ++ [s.next] } :
      ContinuousProcessor).Sound := by
  have none_drain := sound.noDrain (by rw [loop]; exact id)
  constructor
  case submitted =>
    intro c member
    rcases List.mem_append.mp member with old | new
    · rcases sound.submitted c old with holds | before
      · rw [ContinuousProcessor.held, loop] at holds
        cases holds
      · exact Or.inr before
    · cases List.mem_singleton.mp new
      exact Or.inl rfl
  case processed => exact sound.processed
  case ordered => exact sound.ordered
  case log => exact sound.log
  case results => exact sound.results
  case writes =>
    intro t member
    obtain ⟨⟨raised, steps, older⟩, next⟩ := sound.writes t member
    exact ⟨⟨raised, steps, older⟩, next.trans (Nat.lt_succ_self _)⟩
  case ahead =>
    intro p member
    obtain ⟨raised, done, behind, next⟩ := sound.ahead p member
    exact ⟨raised, done, behind, next.trans (Nat.lt_succ_self _)⟩
  case held =>
    rintro c ⟨⟩
    exact ⟨Nat.lt_succ_self _, fun p member => (sound.ahead p member).next, fun t member => (sound.writes t member).2⟩
  case drain =>
    intro t member
    cases none_drain.symm.trans member
  case awaited => intro c pr f rest at_; cases at_

/-- A receive that raises is just one capture less. -/
theorem Sound.receiveRaises (sound : s.Sound) {f : ℤ} {rest : List ℤ} (loop : s.loop = .receives f rest) :
    ({ s with loop := .sleeps rest, next := s.next + 1, raised := s.raised ++ [s.next] } :
      ContinuousProcessor).Sound := by
  have none_drain := sound.noDrain (by rw [loop]; exact id)
  constructor
  case submitted =>
    intro c member
    rcases sound.submitted c member with holds | before
    · rw [ContinuousProcessor.held, loop] at holds
      cases holds
    · exact Or.inr before
  case processed =>
    intro c member
    exact (sound.processed c member).imp_right (Or.imp_left (List.mem_append_left _))
  case ordered => exact sound.ordered
  case log => exact sound.log
  case results => exact sound.results
  case writes =>
    intro t member
    obtain ⟨⟨raised, steps, older⟩, next⟩ := sound.writes t member
    exact ⟨⟨fun its => List.mem_append_left _ (raised its), steps,
      fun r result before => (older r result before).imp_left (List.mem_append_left _)⟩, next.trans (Nat.lt_succ_self _)⟩
  case ahead =>
    intro p member
    obtain ⟨raised, done, behind, next⟩ := sound.ahead p member
    exact ⟨fun state => List.mem_append_left _ (raised state), done, behind, next.trans (Nat.lt_succ_self _)⟩
  case held => intro c holds; cases holds
  case drain =>
    intro t member
    cases none_drain.symm.trans member
  case awaited => intro c pr f rest at_; cases at_

/-- The worker is done with its capture. -/
theorem Sound.process (sound : s.Sound) {c n : Nat} {f : ℤ} (future : s.processFuture = some ⟨c, n, f, .running⟩)
    (pr : ProcessResult) :
    ({ s with processFuture := some ⟨c, n, f, .done pr⟩, results := s.results ++ [(c, pr)] } :
      ContinuousProcessor).Sound := by
  obtain ⟨-, -, behind, next⟩ := sound.ahead _ future
  constructor
  case submitted => exact sound.submitted
  case processed =>
    intro c' member
    refine Or.inr ?_
    rcases sound.processed c' member with ⟨p, its, same, -⟩ | raised | ⟨r, result, same⟩
    · cases future.symm.trans its
      exact Or.inr ⟨(c, pr), List.mem_append_right _ (List.mem_singleton_self _), same⟩
    · exact Or.inl raised
    · exact Or.inr ⟨r, List.mem_append_left _ result, same⟩
  case ordered => exact sound.ordered
  case log => exact sound.log
  case results =>
    intro r member
    rcases List.mem_append.mp member with old | new
    · rcases sound.results r old with stored | ⟨p, its, -, state⟩
      · exact Or.inl stored
      · cases future.symm.trans its
        cases state
    · cases List.mem_singleton.mp new
      exact Or.inr ⟨_, rfl, rfl, rfl⟩
  case writes =>
    intro t member
    obtain ⟨⟨raised, steps, older⟩, below⟩ := sound.writes t member
    have before := behind t member
    refine ⟨⟨raised, fun r result same => ?_, fun r result lt => ?_⟩, below⟩
    · rcases List.mem_append.mp result with old | new
      · exact steps r old same
      · cases List.mem_singleton.mp new
        exact absurd same before.ne'
    · rcases List.mem_append.mp result with old | new
      · exact older r old lt
      · cases List.mem_singleton.mp new
        exact absurd lt before.not_gt
  case ahead =>
    rintro p ⟨⟩
    refine ⟨by simp, fun pr' state => ?_, behind, next⟩
    cases state
    exact List.mem_append_right _ (List.mem_singleton_self _)
  case held =>
    intro c' holds
    obtain ⟨below, ahead, stored⟩ := sound.held c' holds
    refine ⟨below, ?_, stored⟩
    rintro p ⟨⟩
    exact ahead ⟨c, n, f, .running⟩ future
  case drain =>
    intro t member
    cases future.symm.trans (sound.drain t member).1
  case awaited =>
    intro c' pr' f' rest at_
    obtain ⟨p, its, state⟩ := sound.awaited c' pr' f' rest at_
    cases future.symm.trans its
    cases state

theorem Sound.processRaises (sound : s.Sound) {c n : Nat} {f : ℤ}
    (future : s.processFuture = some ⟨c, n, f, .running⟩) :
    ({ s with processFuture := some ⟨c, n, f, .raised⟩, raised := s.raised ++ [c] } : ContinuousProcessor).Sound := by
  obtain ⟨-, -, behind, next⟩ := sound.ahead _ future
  constructor
  case submitted => exact sound.submitted
  case processed =>
    intro c' member
    refine Or.inr ?_
    rcases sound.processed c' member with ⟨p, its, same, -⟩ | raised | result
    · cases future.symm.trans its
      exact Or.inl (List.mem_append_right _ (same ▸ List.mem_singleton_self _))
    · exact Or.inl (List.mem_append_left _ raised)
    · exact Or.inr result
  case ordered => exact sound.ordered
  case log => exact sound.log
  case results =>
    intro r member
    rcases sound.results r member with stored | ⟨p, its, -, state⟩
    · exact Or.inl stored
    · cases future.symm.trans its
      cases state
  case writes =>
    intro t member
    obtain ⟨⟨raised, steps, older⟩, below⟩ := sound.writes t member
    exact ⟨⟨fun its => List.mem_append_left _ (raised its), steps,
      fun r result before => (older r result before).imp_left (List.mem_append_left _)⟩, below⟩
  case ahead =>
    rintro p ⟨⟩
    exact ⟨fun _ => List.mem_append_right _ (List.mem_singleton_self _), by simp, behind, next⟩
  case held =>
    intro c' holds
    obtain ⟨below, ahead, stored⟩ := sound.held c' holds
    refine ⟨below, ?_, stored⟩
    rintro p ⟨⟩
    exact ahead ⟨c, n, f, .running⟩ future
  case drain =>
    intro t member
    cases future.symm.trans (sound.drain t member).1
  case awaited =>
    intro c' pr' f' rest at_
    obtain ⟨p, its, state⟩ := sound.awaited c' pr' f' rest at_
    cases future.symm.trans its
    cases state

theorem Sound.stop (sound : s.Sound) : ({ s with running := false } : ContinuousProcessor).Sound where
  submitted := sound.submitted
  processed := sound.processed
  ordered := sound.ordered
  log := sound.log
  results := sound.results
  writes t member := by
    obtain ⟨⟨raised, steps, older⟩, next⟩ := sound.writes t member
    exact ⟨⟨raised, steps, older⟩, next⟩
  ahead p member := by
    obtain ⟨raised, done, behind, next⟩ := sound.ahead p member
    exact ⟨raised, done, behind, next⟩
  held := sound.held
  drain := sound.drain
  awaited := sound.awaited

theorem Sound.step (sound : s.Sound) {a : Act} (clear : s.Clear a) {s' : ContinuousProcessor}
    (goes : s.step a = some s') : s'.Sound := by
  cases a with
  | goes => exact sound.goes clear goes
  | stop =>
    cases goes
    exact sound.stop
  | receive =>
    simp only [ContinuousProcessor.step] at goes
    split at goes
    case h_1 f rest loop =>
      cases goes
      exact sound.receive loop
    case h_2 => cases goes
  | receiveRaises =>
    simp only [ContinuousProcessor.step] at goes
    split at goes
    case h_1 f rest loop =>
      cases goes
      exact sound.receiveRaises loop
    case h_2 => cases goes
  | process filename bursts =>
    simp only [ContinuousProcessor.step] at goes
    split at goes
    case h_1 c n f future =>
      cases goes
      exact sound.process future _
    case h_2 => cases goes
  | processRaises =>
    simp only [ContinuousProcessor.step] at goes
    split at goes
    case h_1 c n f future =>
      cases goes
      exact sound.processRaises future
    case h_2 => cases goes
  | store inDrain =>
    obtain ⟨⟨u, entry⟩, steps, rfl⟩ := Option.map_eq_some_iff.mp goes
    obtain ⟨t, call, next⟩ := Option.bind_eq_some_iff.mp steps
    exact sound.store call next
  | storeRaises inDrain =>
    obtain ⟨u, steps, rfl⟩ := Option.map_eq_some_iff.mp goes
    obtain ⟨t, call, next⟩ := Option.bind_eq_some_iff.mp steps
    exact sound.storeRaises call next

/-- In every run whose steps are clear, a capture that raises affects no other. -/
theorem Reach.eachStored {config : SweepConfig} (reach : Runs.Reach step (create config) Clear s) : s.EachStored := by
  have sound : s.Sound := reach.invariant (I := Sound) (sound_create config)
    (fun _ _ _ sound clear goes => sound.step clear goes)
  exact sound.each_stored

def twoFrequencies : SweepConfig := ⟨[2400000000, 2450000000], false, false, true⟩

/-- The first receive raises, and so does the last processing. -/
def raisesTwice : List Act :=
  [.goes, .receiveRaises, .goes, .goes, .receive, .goes, .goes, .process "a.sc16" ["x"], .goes, .receive, .goes, .goes,
    .stop, .processRaises, .goes, .store false, .store false, .goes, .store false]

theorem Reach.eachStored_raisesTwice :
    ∃ s, Runs.Reach step (create twoFrequencies) Clear s ∧ s.loop = .ended true ∧ s.raised = [0, 2] ∧
      s.log = [(1, .saveCapture "a.sc16"), (1, .insertDetection "x"), (1, .publish 1)] ∧ s.EachStored := by
  have goes : (Runs.follow step (create twoFrequencies) raisesTwice).map (fun s => (s.loop, s.raised, s.log)) =
      some (.ended true, [0, 2], [(1, .saveCapture "a.sc16"), (1, .insertDetection "x"), (1, .publish 1)]) := by
    decide +kernel
  obtain ⟨s, taken, same⟩ := Option.map_eq_some_iff.mp goes
  obtain ⟨ended, rest⟩ := Prod.mk.inj same
  obtain ⟨raised, log⟩ := Prod.mk.inj rest
  have reach : Runs.Reach step (create twoFrequencies) Clear s := Runs.Reach.start.follow (by decide +kernel) taken
  exact ⟨s, reach, ended, raised, log, Reach.eachStored reach⟩

/-- A processing that raised is found again and again; and the drain's call
overtakes the task before it. -/
theorem eachStored_fails :
    (¬ ∀ s, Runs.Reach step (create twoFrequencies) DrainsInTurn s → s.EachStored) ∧
      ¬ ∀ s, Runs.Reach step (create twoFrequencies) FindsUnraised s → s.EachStored := by
  constructor
  · intro claim
    have goes : (Runs.follow step (create twoFrequencies) [.goes, .receive, .goes, .processRaises, .goes, .receive, .goes]).map
        (fun s => (s.received, s.submitted, s.held)) = some ([0, 1], [0], none) := by decide +kernel
    obtain ⟨s, taken, same⟩ := Option.map_eq_some_iff.mp goes
    obtain ⟨received, rest⟩ := Prod.mk.inj same
    obtain ⟨submitted, held⟩ := Prod.mk.inj rest
    have stored := claim s (Runs.Reach.start.follow (by decide +kernel) taken)
    have lost := stored.submitted 1 (by simp [received])
    simp [held, submitted] at lost
  · intro claim
    have goes : (Runs.follow step (create twoFrequencies) [.goes, .receive, .goes, .process "a.sc16" ["x"], .goes, .receive,
        .goes, .goes, .store false, .stop, .process "b.sc16" [], .goes, .goes, .store true, .store true, .store false]).map
        (fun s => s.log.map Prod.fst) = some [0, 1, 1, 0] := by decide +kernel
    obtain ⟨s, taken, same⟩ := Option.map_eq_some_iff.mp goes
    have stored := claim s (Runs.Reach.start.follow (by decide +kernel) taken)
    have order := stored.ordered
    rw [same] at order
    exact absurd order (by decide)

end ContinuousProcessor

end RFObserver
