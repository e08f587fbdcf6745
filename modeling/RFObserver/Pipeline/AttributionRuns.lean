import RFObserver.Pipeline.Attribution

namespace RFObserver.StrongestQueue

variable {Item Task P : Type*} [LinearOrder P] {powerDb : Item → P} {q : StrongestQueue Item Task}

theorem weakest_spec {w : Item × Nat} (found : q.weakest powerDb = some w) :
    q.items[w.2]? = some w.1 ∧ ∀ y ∈ q.items, powerDb w.1 ≤ powerDb y := by
  have at_ := List.mem_zipIdx_iff_getElem?.mp (List.argmin_mem (Option.mem_def.mpr found))
  refine ⟨at_, fun y member => ?_⟩
  obtain ⟨i, here⟩ := List.getElem?_of_mem member
  exact List.le_of_mem_argmin (f := fun i : Item × Nat => powerDb i.1) (List.mk_mem_zipIdx_iff_getElem?.mpr here) found

theorem strongest_spec {s : Item × Nat} (found : q.strongest powerDb = some s) :
    q.items[s.2]? = some s.1 ∧ ∀ y ∈ q.items, powerDb y ≤ powerDb s.1 := by
  have at_ := List.mem_zipIdx_iff_getElem?.mp (List.argmax_mem (Option.mem_def.mpr found))
  refine ⟨at_, fun y member => ?_⟩
  obtain ⟨i, here⟩ := List.getElem?_of_mem member
  exact List.le_of_mem_argmax (f := fun i : Item × Nat => powerDb i.1) (List.mk_mem_zipIdx_iff_getElem?.mpr here) found

theorem strongest_eq_none : q.strongest powerDb = none ↔ q.items = [] := by
  rw [strongest, List.argmax_eq_none, List.zipIdx_eq_nil_iff]

theorem weakest_eq_none : q.weakest powerDb = none ↔ q.items = [] := by
  rw [weakest, List.argmin_eq_none, List.zipIdx_eq_nil_iff]

/-- Taking an item out by its index. -/
theorem coe_eraseIdx {items : List Item} {i : Nat} {x : Item} (at_ : items[i]? = some x) :
    (items : Multiset Item) = items.eraseIdx i + {x} := by
  obtain ⟨bound, rfl⟩ := List.getElem?_eq_some_iff.mp at_
  rw [← Multiset.coe_singleton, Multiset.coe_add, Multiset.coe_eq_coe]
  exact (List.getElem_cons_eraseIdx_perm bound).symm.trans (List.perm_append_singleton ..).symm

theorem coe_snoc (items : List Item) (x : Item) : ((items ++ [x] : List Item) : Multiset Item) = items + {x} := by
  rw [← Multiset.coe_add, Multiset.coe_singleton]

/-- All that a put can do. -/
theorem put_cases (powerDb : Item → P) (q : StrongestQueue Item Task) (item : Item) :
    (q.items.length < q.maxsize ∧ q.displaced powerDb item = [] ∧
      q.putNowait powerDb item = (true, { q with items := q.items ++ [item], notEmpty := q.notEmpty.set })) ∨
    (∃ w i, q.maxsize ≤ q.items.length ∧ q.items[i]? = some w ∧ (∀ y ∈ q.items, powerDb w ≤ powerDb y) ∧
      ((powerDb item ≤ powerDb w ∧ q.displaced powerDb item = [item] ∧
        q.putNowait powerDb item = (false, { q with dropped := q.dropped + 1 })) ∨
      (powerDb w < powerDb item ∧ q.displaced powerDb item = [w] ∧
        q.putNowait powerDb item = (true, { q with
          items := q.items.eraseIdx i ++ [item], dropped := q.dropped + 1, notEmpty := q.notEmpty.set })))) := by
  unfold displaced putNowait
  by_cases free : q.items.length < q.maxsize
  · exact Or.inl ⟨free, if_pos free, if_pos free⟩
  · rw [if_neg free, if_neg free]
    have full := not_lt.mp free
    cases found : q.weakest powerDb with
    | none =>
      have room := q.room
      rw [weakest_eq_none.mp found, List.length_nil] at full
      omega
    | some w =>
      obtain ⟨at_, least⟩ := weakest_spec found
      refine Or.inr ⟨w.1, w.2, full, at_, least, ?_⟩
      by_cases weak : powerDb item ≤ powerDb w.1
      · exact Or.inl ⟨weak, if_pos weak, if_pos weak⟩
      · exact Or.inr ⟨not_le.mp weak, if_neg weak, if_neg weak⟩

/-- All that the loop of `get` can do. -/
theorem get_cases (powerDb : Item → P) (q : StrongestQueue Item Task) (task : Task) :
    (q.items = [] ∧ q.get powerDb task =
      (none, { q with notEmpty := ⟨false, q.notEmpty.waiting ++ [task], q.notEmpty.woken⟩ })) ∨
    ∃ x i, q.items[i]? = some x ∧ (∀ y ∈ q.items, powerDb y ≤ powerDb x) ∧ q.get powerDb task =
      (some x, { q with
        items := q.items.eraseIdx i
        notEmpty := if q.items.eraseIdx i = [] then q.notEmpty.clear else q.notEmpty }) := by
  unfold get
  cases found : q.strongest powerDb with
  | none => exact Or.inl ⟨strongest_eq_none.mp found, rfl⟩
  | some s => exact Or.inr ⟨s.1, s.2, (strongest_spec found).1, (strongest_spec found).2, rfl⟩

namespace Use

/-- What holds of a queue in use: nothing is lost unseen, and while an item is
held the event is set and no task waits. -/
structure Sound (s : Use Item Task) : Prop where
  bounded : s.queue.items.length ≤ s.queue.maxsize
  conserved : (s.puts : Multiset Item) = (s.returned.map Prod.snd : List Item) + s.queue.items + s.lost
  counted : s.queue.dropped = s.lost.length
  flagged : s.queue.notEmpty.value = true ↔ s.queue.items ≠ []
  quiet : s.queue.items ≠ [] → s.queue.notEmpty.waiting = []

/-- What a call may do: drop only what is at most as strong as all that is held,
return only a strongest item, and lose no task. -/
structure Keeps (powerDb : Item → P) (s : Use Item Task) (act : Act Item Task) (s' : Use Item Task) : Prop where
  drops : ∃ weak, s'.lost = s.lost ++ weak ∧ ∀ x ∈ weak, ∀ y ∈ s'.queue.items, powerDb x ≤ powerDb y
  returns : ∃ got, s'.returned = s.returned ++ got ∧
    ∀ x ∈ got, x.2 ∈ s.queue.items ∧ ∀ y ∈ s.queue.items, powerDb y ≤ powerDb x.2
  takes : s.queue.items ≠ [] → ∀ task, act = .get task ∨ act = .resume task →
    ∃ x, s'.returned = s.returned ++ [(task, x)]
  wakes : (∃ item, act = .put item) → ∀ task ∈ s.queue.notEmpty.waiting, task ∈ s'.queue.notEmpty.woken
  blocks : s.queue.items = [] → ∀ task, act = .get task ∨ act = .resume task → task ∈ s'.queue.notEmpty.waiting
  stays : ∀ task, act ≠ .cancel task → act ≠ .resume task → (task ∈ s.queue.notEmpty.waiting →
    task ∈ s'.queue.notEmpty.waiting ∨ task ∈ s'.queue.notEmpty.woken) ∧
      (task ∈ s.queue.notEmpty.woken → task ∈ s'.queue.notEmpty.woken)

variable {s s' : Use Item Task}

theorem create_sound (maxsize : Nat) (room : 0 < maxsize) : (create maxsize room : Use Item Task).Sound :=
  ⟨Nat.zero_le _, rfl, rfl, by simp [create], fun held => absurd rfl held⟩

theorem put_sound (sound : s.Sound) (item : Item) : (s.put powerDb item).Sound := by
  obtain ⟨bounded, conserved, counted, flagged, quiet⟩ := sound
  have awake : s.queue.notEmpty.set.value = true ∧ s.queue.notEmpty.set.waiting = [] := by
    unfold Event.set
    split_ifs with isSet
    · exact ⟨isSet, quiet (flagged.mp isSet)⟩
    · exact ⟨rfl, rfl⟩
  unfold put
  rcases put_cases powerDb s.queue item with ⟨free, drop, result⟩ | ⟨w, i, full, at_, -, weak | strong⟩
  · rw [drop, result]
    refine ⟨by simpa using free, ?_, by simpa using counted, by simp [awake.1], fun _ => awake.2⟩
    rw [List.append_nil, coe_snoc, coe_snoc, conserved]
    abel
  · obtain ⟨-, drop, result⟩ := weak
    rw [drop, result]
    refine ⟨bounded, ?_, by simp [counted], flagged, quiet⟩
    rw [coe_snoc, coe_snoc, conserved]
    abel
  · obtain ⟨-, drop, result⟩ := strong
    rw [drop, result]
    refine ⟨?_, ?_, by simp [counted], by simp [awake.1], fun _ => awake.2⟩
    · have bound := (List.getElem?_eq_some_iff.mp at_).1
      simp only [List.length_append, List.length_eraseIdx, if_pos bound, List.length_singleton]
      omega
    · rw [coe_snoc, coe_snoc, coe_snoc, conserved, coe_eraseIdx at_]
      abel

theorem get_sound (sound : s.Sound) (task : Task) : (s.get powerDb task).Sound := by
  obtain ⟨bounded, conserved, counted, flagged, quiet⟩ := sound
  unfold get
  rcases get_cases powerDb s.queue task with ⟨empty, result⟩ | ⟨x, i, at_, -, result⟩
  · rw [result]
    refine ⟨bounded, by simpa using conserved, counted, by simp [empty], fun held => absurd empty held⟩
  · rw [result]
    have held : s.queue.items ≠ [] := List.ne_nil_of_mem (List.mem_of_getElem? at_)
    refine ⟨(List.length_eraseIdx_le ..).trans bounded, ?_, counted, ?_, fun others => ?_⟩
    · simp only [Option.map_some, Option.toList_some, List.map_append, List.map_cons, List.map_nil]
      rw [coe_snoc, conserved, coe_eraseIdx at_]
      abel
    · by_cases last : s.queue.items.eraseIdx i = []
      · simp [last, Event.clear]
      · simp [last, flagged.mpr held]
    · simp only [if_neg others]
      exact quiet held

theorem leave_sound [DecidableEq Task] (sound : s.Sound) (task : Task) : (s.leave task).Sound := by
  obtain ⟨bounded, conserved, counted, flagged, quiet⟩ := sound
  refine ⟨bounded, conserved, counted, flagged, fun held => ?_⟩
  simp only [leave, quiet held, List.erase_nil]

theorem step_sound [DecidableEq Task] {act : Act Item Task} (sound : s.Sound) (goes : s.step powerDb act = some s') :
    s'.Sound := by
  cases act with
  | put item =>
    obtain rfl := Option.some.inj goes
    exact put_sound sound item
  | get task =>
    obtain ⟨-, same⟩ := Option.ite_none_left_eq_some.mp goes
    obtain rfl := Option.some.inj same
    exact get_sound sound task
  | resume task =>
    obtain ⟨-, same⟩ := Option.ite_none_right_eq_some.mp goes
    obtain rfl := Option.some.inj same
    exact get_sound (leave_sound sound task) task
  | cancel task =>
    obtain ⟨-, same⟩ := Option.ite_none_right_eq_some.mp goes
    obtain rfl := Option.some.inj same
    exact leave_sound sound task

theorem put_keeps (sound : s.Sound) (item : Item) : Keeps powerDb s (.put item) (s.put powerDb item) := by
  have woke : (∀ task ∈ s.queue.notEmpty.waiting, task ∈ s.queue.notEmpty.set.woken) ∧
      ∀ task ∈ s.queue.notEmpty.woken, task ∈ s.queue.notEmpty.set.woken := by
    unfold Event.set
    split_ifs with isSet
    · rw [sound.quiet (sound.flagged.mp isSet)]
      exact ⟨fun task none => (List.not_mem_nil none).elim, fun task member => member⟩
    · exact ⟨fun task => List.mem_append_right _, fun task => List.mem_append_left _⟩
  unfold put
  rcases put_cases powerDb s.queue item with ⟨-, drop, result⟩ | ⟨w, i, full, at_, least, weak | strong⟩
  · rw [drop, result]
    exact ⟨⟨[], rfl, by simp⟩, ⟨[], by simp, by simp⟩, fun _ task calls => by simp at calls, fun _ => woke.1,
      fun _ task calls => by simp at calls, fun task _ _ => ⟨fun waits => Or.inr (woke.1 task waits), woke.2 task⟩⟩
  · obtain ⟨weak, drop, result⟩ := weak
    have held : s.queue.items ≠ [] := List.ne_nil_of_mem (List.mem_of_getElem? at_)
    rw [drop, result]
    refine ⟨⟨[item], rfl, fun x isItem y member => ?_⟩, ⟨[], by simp, by simp⟩, fun _ task calls => by simp at calls,
      fun _ task waits => ?_, fun _ task calls => by simp at calls, fun task _ _ => ⟨Or.inl, id⟩⟩
    · obtain rfl := List.mem_singleton.mp isItem
      exact weak.trans (least y member)
    · rw [sound.quiet held] at waits
      cases waits
  · obtain ⟨strong, drop, result⟩ := strong
    rw [drop, result]
    refine ⟨⟨[w], rfl, fun x isWeakest y member => ?_⟩, ⟨[], by simp, by simp⟩, fun _ task calls => by simp at calls,
      fun _ => woke.1, fun _ task calls => by simp at calls,
      fun task _ _ => ⟨fun waits => Or.inr (woke.1 task waits), woke.2 task⟩⟩
    obtain rfl := List.mem_singleton.mp isWeakest
    rcases List.mem_append.mp member with kept | new
    · exact least y (List.mem_of_mem_eraseIdx kept)
    · obtain rfl := List.mem_singleton.mp new
      exact strong.le

/-- What the loop of `get` does, from the state it finds. -/
structure Gets (powerDb : Item → P) (s : Use Item Task) (task : Task) (s' : Use Item Task) : Prop where
  lost : s'.lost = s.lost
  returns : ∃ got, s'.returned = s.returned ++ got ∧
    ∀ x ∈ got, x.2 ∈ s.queue.items ∧ ∀ y ∈ s.queue.items, powerDb y ≤ powerDb x.2
  takes : s.queue.items ≠ [] → ∃ x, s'.returned = s.returned ++ [(task, x)]
  blocks : s.queue.items = [] → task ∈ s'.queue.notEmpty.waiting
  waiting : ∀ t ∈ s.queue.notEmpty.waiting, t ∈ s'.queue.notEmpty.waiting
  woken : s'.queue.notEmpty.woken = s.queue.notEmpty.woken

theorem get_gets (powerDb : Item → P) (s : Use Item Task) (task : Task) : Gets powerDb s task (s.get powerDb task) := by
  unfold get
  rcases get_cases powerDb s.queue task with ⟨empty, result⟩ | ⟨x, i, at_, most, result⟩
  · rw [result]
    exact ⟨rfl, ⟨[], rfl, by simp⟩, fun held => absurd empty held, fun _ => List.mem_append_right _ (by simp),
      fun t => List.mem_append_left _, rfl⟩
  · rw [result]
    have held : s.queue.items ≠ [] := List.ne_nil_of_mem (List.mem_of_getElem? at_)
    refine ⟨rfl, ⟨[(task, x)], rfl, fun y isIt => ?_⟩, fun _ => ⟨x, rfl⟩, fun empty => absurd empty held,
      fun t waits => ?_, ?_⟩
    · obtain rfl := List.mem_singleton.mp isIt
      exact ⟨List.mem_of_getElem? at_, most⟩
    · dsimp only
      split_ifs
      · exact waits
      · exact waits
    · dsimp only
      split_ifs
      · rfl
      · rfl

theorem step_keeps [DecidableEq Task] {act : Act Item Task} (sound : s.Sound) (goes : s.step powerDb act = some s') :
    Keeps powerDb s act s' := by
  cases act with
  | put item =>
    obtain rfl := Option.some.inj goes
    exact put_keeps sound item
  | get task =>
    obtain ⟨-, same⟩ := Option.ite_none_left_eq_some.mp goes
    obtain rfl := Option.some.inj same
    have gets := get_gets powerDb s task
    have own : ∀ {t : Task}, Act.get task = (.get t : Act Item Task) ∨ Act.get task = (.resume t : Act Item Task) →
        task = t := fun calls => by simpa using calls
    exact ⟨⟨[], by rw [gets.lost, List.append_nil], by simp⟩, gets.returns,
      fun held t calls => own calls ▸ gets.takes held, fun isPut => by simp at isPut,
      fun empty t calls => own calls ▸ gets.blocks empty,
      fun t _ _ => ⟨fun waits => Or.inl (gets.waiting t waits), fun ready => gets.woken.symm ▸ ready⟩⟩
  | resume task =>
    obtain ⟨-, same⟩ := Option.ite_none_right_eq_some.mp goes
    obtain rfl := Option.some.inj same
    have gets := get_gets powerDb (s.leave task) task
    have own : ∀ {t : Task}, Act.resume task = (.get t : Act Item Task) ∨ Act.resume task = (.resume t : Act Item Task) →
        task = t := fun calls => by simpa using calls
    refine ⟨⟨[], by rw [gets.lost, List.append_nil]; rfl, by simp⟩, gets.returns,
      fun held t calls => own calls ▸ gets.takes held, fun isPut => by simp at isPut,
      fun empty t calls => own calls ▸ gets.blocks empty, fun t _ other => ?_⟩
    have differs : t ≠ task := fun same => other (congrArg Act.resume same.symm)
    exact ⟨fun waits => Or.inl (gets.waiting t ((List.mem_erase_of_ne differs).mpr waits)),
      fun ready => gets.woken.symm ▸ (List.mem_erase_of_ne differs).mpr ready⟩
  | cancel task =>
    obtain ⟨-, same⟩ := Option.ite_none_right_eq_some.mp goes
    obtain rfl := Option.some.inj same
    refine ⟨⟨[], by simp [leave], by simp⟩, ⟨[], by simp [leave], by simp⟩, fun _ t calls => by simp at calls,
      fun isPut => by simp at isPut, fun _ t calls => by simp at calls, fun t other _ => ?_⟩
    have differs : t ≠ task := fun same => other (congrArg Act.cancel same.symm)
    exact ⟨fun waits => Or.inl ((List.mem_erase_of_ne differs).mpr waits), (List.mem_erase_of_ne differs).mpr⟩

theorem step_maxsize [DecidableEq Task] {act : Act Item Task} (goes : s.step powerDb act = some s') :
    s'.queue.maxsize = s.queue.maxsize := by
  have gets : ∀ (u : Use Item Task) task, (u.get powerDb task).queue.maxsize = u.queue.maxsize := by
    intro u task
    unfold get
    rcases get_cases powerDb u.queue task with ⟨-, result⟩ | ⟨x, i, -, -, result⟩
    · rw [result]
    · rw [result]
  cases act with
  | put item =>
    obtain rfl := Option.some.inj goes
    unfold put
    rcases put_cases powerDb s.queue item with ⟨-, -, result⟩ | ⟨w, i, -, -, -, ⟨-, -, result⟩ | ⟨-, -, result⟩⟩
    · rw [result]
    · rw [result]
    · rw [result]
  | get task =>
    obtain ⟨-, same⟩ := Option.ite_none_left_eq_some.mp goes
    obtain rfl := Option.some.inj same
    exact gets s task
  | resume task =>
    obtain ⟨-, same⟩ := Option.ite_none_right_eq_some.mp goes
    obtain rfl := Option.some.inj same
    exact gets (s.leave task) task
  | cancel task =>
    obtain ⟨-, same⟩ := Option.ite_none_right_eq_some.mp goes
    obtain rfl := Option.some.inj same
    rfl

/-- The states of a queue in use. -/
def Reach [DecidableEq Task] (powerDb : Item → P) (maxsize : Nat) (room : 0 < maxsize) (s : Use Item Task) : Prop :=
  Runs.Reach (step powerDb) (create maxsize room) (fun _ _ => True) s

/-- In every run of puts, gets, woken and cancelled tasks the queue is sound,
and each call keeps the strongest items. -/
theorem Reach.keeps_strongest [DecidableEq Task] {maxsize : Nat} {room : 0 < maxsize}
    (reach : Reach powerDb maxsize room s) : s.queue.maxsize = maxsize ∧ s.Sound ∧
      ∀ act s', s.step powerDb act = some s' → Keeps powerDb s act s' := by
  have holds : s.queue.maxsize = maxsize ∧ s.Sound :=
    Runs.Reach.invariant (I := fun s => s.queue.maxsize = maxsize ∧ s.Sound) ⟨rfl, create_sound maxsize room⟩
      (fun _ _ _ before _ goes => ⟨(step_maxsize goes).trans before.1, step_sound before.2 goes⟩) reach
  exact ⟨holds.1, holds.2, fun act s' goes => step_keeps holds.2 goes⟩

/-- A task waits, two items come, a third evicts the weakest, and the task takes the strongest. -/
def busyUse : Use ℤ ℕ := ⟨⟨2, [5], ⟨true, [], []⟩, 1, by decide⟩, [3, 5, 7], [(0, 7)], [3]⟩

theorem Reach.keeps_strongest_busy : busyUse.Sound ∧ Keeps id busyUse (.put 9)
    ⟨⟨2, [5, 9], ⟨true, [], []⟩, 1, by decide⟩, [3, 5, 7, 9], [(0, 7)], [3]⟩ := by
  have ran : Runs.follow (step id) (create 2 (by decide)) [.get 0, .put 3, .put 5, .put 7, .resume 0] = some busyUse := rfl
  have keeps := Reach.keeps_strongest (Runs.Reach.of_follow ran)
  exact ⟨keeps.2.1, keeps.2.2 (.put 9) _ rfl⟩

end Use
end RFObserver.StrongestQueue
