import RFObserver.Storage.BurstArchive

set_option linter.unusedSectionVars false

namespace RFObserver

variable {T : Type*} [LinearOrder T]

namespace BurstIndex

/-- The order is the sorted list of the entries' keys, and the total the sum of their sizes. -/
structure Consistent (s : BurstIndex T) : Prop where
  distinct : (s.entries.map BurstEntry.path).Nodup
  ordered : Bisect.Mirrors s.order (s.entries.map BurstEntry.key)
  totalled : s.total = (s.entries.map fun e => (e.size : Int)).sum

/-- A burst is in the index. -/
def Holds (s : BurstIndex T) (path : String) : Prop := path ∈ s.entries.map BurstEntry.path

variable {s : BurstIndex T} {e : BurstEntry T} {path : String}

theorem find_perm (found : s.find path = some e) :
    e.path = path ∧ s.entries.Perm (e :: s.entries.eraseP fun x => x.path = path) := by
  obtain ⟨isPath, before, after, split, others⟩ := List.find?_eq_some_iff_append.mp found
  refine ⟨of_decide_eq_true isPath, ?_⟩
  have none : ∀ x ∈ before, ¬ (decide (x.path = path) = true) := fun x member => by simpa using others x member
  rw [split, List.eraseP_append_right _ none, List.eraseP_cons, cond_eq_ite, if_pos isPath]
  exact List.perm_middle

theorem find_none : s.find path = none ↔ ¬ s.Holds path := by
  rw [find, List.find?_eq_none, Holds, List.mem_map]
  simp

theorem find_held (consistent : s.Consistent) (member : e ∈ s.entries) : s.find e.path = some e := by
  cases found : s.find e.path with
  | none => exact absurd (List.mem_map_of_mem member) (find_none.mp found)
  | some x =>
    obtain ⟨same, perm⟩ := find_perm found
    have listed := perm.mem_iff.mpr (List.mem_cons_self ..)
    rw [List.inj_on_of_nodup_map consistent.distinct listed member same]

theorem keys_nodup {entries : List (BurstEntry T)} (distinct : (entries.map BurstEntry.path).Nodup) :
    (entries.map BurstEntry.key).Nodup := by
  have byPath : ((entries.map BurstEntry.key).map fun k => (ofLex k).2).Nodup := by rwa [List.map_map]
  exact byPath.of_map _

/-- What is left without a burst: its key leaves the order, its size the total. -/
theorem removeLocked_consistent (consistent : s.Consistent) (path : String) : (s.removeLocked path).2.Consistent := by
  unfold removeLocked
  cases found : s.find path with
  | none => exact consistent
  | some e =>
    obtain ⟨-, perm⟩ := find_perm found
    refine ⟨consistent.distinct.sublist (List.eraseP_sublist.map _), ?_, ?_⟩
    · exact (consistent.ordered.congr (perm.map BurstEntry.key)).remove
    · have whole := (perm.map fun e => (e.size : Int)).sum_eq
      simp only [consistent.totalled, whole, List.map_cons, List.sum_cons]
      omega

theorem removeLocked_holds (consistent : s.Consistent) (path other : String) :
    (s.removeLocked path).2.Holds other ↔ s.Holds other ∧ other ≠ path := by
  unfold removeLocked
  cases found : s.find path with
  | none =>
    have absent := find_none.mp found
    exact ⟨fun held => ⟨held, fun same => absent (same ▸ held)⟩, And.left⟩
  | some e =>
    obtain ⟨rfl, perm⟩ := find_perm found
    have paths := perm.map BurstEntry.path
    have distinct := paths.nodup_iff.mp consistent.distinct
    have first := (List.nodup_cons.mp distinct).1
    unfold Holds
    rw [paths.mem_iff, List.map_cons, List.mem_cons]
    constructor
    · intro held
      exact ⟨Or.inr held, fun same => first (same ▸ held)⟩
    · rintro ⟨same | held, other⟩
      · exact absurd same other
      · exact held

theorem removeLocked_length (s : BurstIndex T) (path : String) :
    (s.removeLocked path).2.entries.length ≤ s.entries.length := by
  unfold removeLocked
  cases s.find path with
  | none => exact le_rfl
  | some e => exact List.eraseP_sublist.length_le

theorem put_consistent (consistent : s.Consistent) (path : String) (mtime : T) (size : Nat) :
    (s.put path mtime size).Consistent := by
  have removed := removeLocked_consistent consistent path
  have fresh : path ∉ (s.removeLocked path).2.entries.map BurstEntry.path := fun held =>
    ((removeLocked_holds consistent path path).mp held).2 rfl
  have added : (s.put path mtime size).entries.Perm ((⟨path, mtime, size⟩ : BurstEntry T) ::
      (s.removeLocked path).2.entries) := List.perm_append_singleton ..
  refine ⟨?_, ?_, ?_⟩
  · refine (added.map BurstEntry.path).nodup_iff.mpr (List.nodup_cons.mpr ⟨fresh, removed.distinct⟩)
  · have freshKey : toLex (mtime, path) ∉ (s.removeLocked path).2.entries.map BurstEntry.key := by
      intro member
      obtain ⟨x, listed, same⟩ := List.mem_map.mp member
      have samePath : x.path = path := congrArg (fun k => (ofLex k).2) same
      exact fresh (List.mem_map.mpr ⟨x, listed, samePath⟩)
    exact (removed.ordered.insort freshKey).congr (added.map BurstEntry.key).symm
  · simp [put, removed.totalled]

theorem put_holds (consistent : s.Consistent) (path : String) (mtime : T) (size : Nat) (other : String) :
    (s.put path mtime size).Holds other ↔ s.Holds other ∨ other = path := by
  have left := removeLocked_holds consistent path other
  unfold Holds at left ⊢
  simp only [put, List.map_append, List.mem_append, left, List.map_cons, List.map_nil, List.mem_singleton]
  tauto

theorem timed_path {f : WalkedFile T} {m : String × T} (timed : f.timed = some m) : m.1 = f.path := by
  obtain ⟨isData, bound⟩ := Option.ite_none_right_eq_some.mp timed
  obtain ⟨key, keyed, shown⟩ := Option.bind_eq_some_iff.mp bound
  obtain ⟨st, -, rfl⟩ := Option.map_eq_some_iff.mp shown
  rw [WalkedFile.key, if_pos isData, dropSuffix_append isData] at keyed
  exact (Option.some.inj keyed).symm

theorem timed_paths (walk : List (WalkedFile T)) :
    ((walk.filterMap WalkedFile.timed).map Prod.fst).Sublist (walk.map WalkedFile.path) := by
  induction walk with
  | nil => exact .slnil
  | cons f walk ih =>
    rw [List.filterMap_cons]
    cases timed : f.timed with
    | none => exact ih.cons _
    | some m =>
      simp only [List.map_cons, timed_path timed]
      exact ih.cons_cons _

theorem build_consistent (walk : List (WalkedFile T)) (distinct : (walk.map WalkedFile.path).Nodup) :
    (build walk).Consistent := by
  have paths : ((walk.filterMap WalkedFile.timed).map Prod.fst).Nodup := distinct.sublist (timed_paths walk)
  have entries : ((build walk).entries.map BurstEntry.path).Nodup := by
    simpa [build, List.map_map, Function.comp_def] using paths
  exact ⟨entries, Bisect.Mirrors.sort (keys_nodup entries), rfl⟩

/-- The first of the order is the oldest burst, and the claim takes it out. -/
theorem claimOldest_cases (consistent : s.Consistent) :
    (s.entries = [] ∧ s.claimOldest = (none, s)) ∨
    ∃ e ∈ s.entries, (∀ x ∈ s.entries, e.key ≤ x.key) ∧
      s.claimOldest = (some (e.path, e.size), (s.removeLocked e.path).2) := by
  unfold claimOldest
  cases order : s.order with
  | nil =>
    have empty := consistent.ordered.perm
    rw [order] at empty
    exact Or.inl ⟨List.map_eq_nil_iff.mp empty.nil_eq.symm, rfl⟩
  | cons oldest rest =>
    have perm := consistent.ordered.perm
    have sorted := consistent.ordered.sorted
    rw [order] at perm sorted
    obtain ⟨e, listed, rfl⟩ := List.mem_map.mp (perm.mem_iff.mp (List.mem_cons_self ..))
    refine Or.inr ⟨e, listed, fun x member => ?_, ?_⟩
    · rcases List.mem_cons.mp (perm.mem_iff.mpr (List.mem_map_of_mem member)) with same | later
      · exact same.ge
      · exact ((List.pairwise_cons.mp sorted).1 _ later).le
    · have found := find_held consistent listed
      have removed : (s.removeLocked e.path).1 = some e.size := by
        unfold removeLocked
        rw [found]
      exact congrArg (fun size => (some (e.path, size), (s.removeLocked e.path).2)) (by
        rw [show (ofLex e.key).2 = e.path from rfl, removed, Option.getD_some])

/-- The newest-first scan stops at the first burst that is older. -/
theorem newBytes_eq (notAfter : T) {order : List (T ×ₗ String)} (newestFirst : order.Pairwise fun k k' => k' < k)
    (sizeOf : T ×ₗ String → Nat) (held : ∀ k ∈ order, (s.find (ofLex k).2).map BurstEntry.size = some (sizeOf k)) :
    s.newBytes notAfter order = some ((order.filter fun k => notAfter ≤ (ofLex k).1).map sizeOf).sum := by
  induction order with
  | nil => rfl
  | cons k older ih =>
    obtain ⟨before, newestFirst⟩ := List.pairwise_cons.mp newestFirst
    obtain ⟨e, found, size⟩ := Option.map_eq_some_iff.mp (held k (List.mem_cons_self ..))
    have rest := ih newestFirst fun k' member => held k' (List.mem_cons_of_mem k member)
    unfold newBytes
    by_cases old : (ofLex k).1 < notAfter
    · have none : ∀ k' ∈ k :: older, ¬ decide (notAfter ≤ (ofLex k').1) = true := by
        intro k' member
        rw [decide_eq_true_eq, not_le]
        rcases List.mem_cons.mp member with rfl | later
        · exact old
        · exact (Prod.Lex.monotone_fst _ _ (before k' later).le).trans_lt old
      rw [if_pos old, List.filter_eq_nil_iff.mpr none]
      rfl
    · rw [if_neg old, found, Option.bind_some, rest, List.filter_cons_of_pos (by simpa using old), List.map_cons,
        List.sum_cons, size]
      rfl

theorem bytes_split (t : T) (entries : List (BurstEntry T)) : (entries.map fun e => (e.size : Int)).sum =
    (((entries.filter fun e => t ≤ e.mtime).map BurstEntry.size).sum : Int) +
      ((entries.filter fun e => e.mtime < t).map fun e => (e.size : Int)).sum := by
  induction entries with
  | nil => rfl
  | cons e entries ih =>
    by_cases old : e.mtime < t
    · rw [List.map_cons, List.sum_cons, ih, List.filter_cons_of_neg (by simpa using old),
        List.filter_cons_of_pos (by simpa using old), List.map_cons, List.sum_cons]
      omega
    · rw [List.map_cons, List.sum_cons, ih, List.filter_cons_of_pos (by simpa using old),
        List.filter_cons_of_neg (by simpa using old), List.map_cons, List.sum_cons]
      push_cast
      omega

/-- What a time splits off is the bytes of exactly the entries older than it. -/
theorem split_exact (consistent : s.Consistent) (notAfter : Option T) : s.split notAfter = some (s.total,
    notAfter.elim s.total fun t => ((s.entries.filter fun e => e.mtime < t).map fun e => (e.size : Int)).sum) := by
  cases notAfter with
  | none => rfl
  | some t =>
    have perm : s.order.reverse.Perm (s.entries.map BurstEntry.key) := s.order.reverse_perm.trans consistent.ordered.perm
    have held : ∀ k ∈ s.order.reverse, (s.find (ofLex k).2).map BurstEntry.size =
        some (((s.find (ofLex k).2).map BurstEntry.size).getD 0) := by
      intro k member
      obtain ⟨e, listed, rfl⟩ := List.mem_map.mp (perm.mem_iff.mp member)
      rw [show (ofLex e.key).2 = e.path from rfl, find_held consistent listed]
      rfl
    have scan := newBytes_eq t (List.pairwise_reverse.mpr consistent.ordered.sorted) _ held
    have sizes := ((perm.filter fun k => t ≤ (ofLex k).1).map fun k =>
      ((s.find (ofLex k).2).map BurstEntry.size).getD 0).sum_eq
    have own : (((s.entries.map BurstEntry.key).filter fun k => t ≤ (ofLex k).1).map fun k =>
        ((s.find (ofLex k).2).map BurstEntry.size).getD 0) = (s.entries.filter fun e => t ≤ e.mtime).map BurstEntry.size := by
      rw [List.filter_map, List.map_map]
      refine List.map_congr_left fun e member => ?_
      have listed := (List.mem_filter.mp member).1
      simp only [Function.comp_apply]
      rw [show (ofLex e.key).2 = e.path from rfl, find_held consistent listed]
      rfl
    unfold split
    dsimp only
    rw [scan, sizes, own, Option.map_some, Option.elim_some, consistent.totalled, bytes_split t s.entries]
    exact congrArg (fun old => some (_, old)) (add_sub_cancel_left ..)

end BurstIndex

namespace BurstArchive

/-- Between two claims of one burst there is a put of it. -/
def ClaimedOnce (log : List Event) : Prop :=
  ∀ path n n' early mid late, log = early ++ .claim n path :: (mid ++ .claim n' path :: late) → .put path ∈ mid

/-- The steps of an evictor are three for each of its claims, and at most two more. -/
def Evictor.Paced (e : Evictor) : Prop :=
  match e.phase with
  | .testing => e.steps = 3 * e.claims
  | .claiming => e.steps = 3 * e.claims + 1
  | .deleting _ _ => e.steps + 1 = 3 * e.claims
  | .done => e.steps ≤ 3 * e.claims + 2

structure Sound (s : BurstArchive T) : Prop where
  index : s.index.Consistent
  once : ClaimedOnce s.log
  fresh : ∀ path n early late, s.log = early ++ .claim n path :: late → s.index.Holds path → .put path ∈ late
  paced : ∀ e ∈ s.evictors, e.Paced
  supplied : ∀ e ∈ s.evictors, e.claims + s.index.entries.length ≤ e.supply

/-- What a step may do: an evictor ends with its condition met or the index
empty, and claims the oldest burst that is held. -/
structure Steps (s : BurstArchive T) (act : Act T) (s' : BurstArchive T) : Prop where
  ends : ∀ n e e', s.evictors[n]? = some e → s'.evictors[n]? = some e' → e.phase ≠ .done → e'.phase = .done →
    (∃ freeBytes, act = .advance n freeBytes ∧ e.goal.met s.index.total freeBytes = true) ∨ s.index.entries = []
  claims : ∀ n path, s'.log = s.log ++ [.claim n path] →
    (∃ b ∈ s.index.entries, b.path = path ∧ ∀ x ∈ s.index.entries, b.key ≤ x.key) ∧ ¬ s'.index.Holds path

variable {s s' : BurstArchive T}

/-- Where an event of a longer log is. -/
theorem split_snoc {log early late : List Event} {x last : Event} (whole : log ++ [last] = early ++ x :: late) :
    (∃ late', late = late' ++ [last] ∧ log = early ++ x :: late') ∨ late = [] ∧ x = last ∧ log = early := by
  rcases List.eq_nil_or_concat late with rfl | ⟨late', y, rfl⟩
  · obtain ⟨same, isLast⟩ := List.append_inj' whole rfl
    exact Or.inr ⟨rfl, (List.singleton_inj.mp isLast).symm, same⟩
  · have whole' : log ++ [last] = (early ++ x :: late') ++ [y] := by simpa using whole
    obtain ⟨same, isLast⟩ := List.append_inj' whole' rfl
    exact Or.inl ⟨late', by rw [List.singleton_inj.mp isLast, List.concat_eq_append], same⟩

theorem claimedOnce_snoc {log : List Event} (once : ClaimedOnce log) (event : Event)
    (again : ∀ path n early late n', event = .claim n' path → log = early ++ .claim n path :: late → .put path ∈ late) :
    ClaimedOnce (log ++ [event]) := by
  intro path n n' early mid late whole
  have whole' : log ++ [event] = (early ++ .claim n path :: mid) ++ .claim n' path :: late := by simpa using whole
  rcases split_snoc whole' with ⟨late', -, same⟩ | ⟨-, isLast, same⟩
  · exact once path n n' early mid late' (by simpa using same)
  · exact again path n early mid n' isLast.symm same

theorem track_sound (sound : s.Sound) (path : String) (stat : Option (T × Nat)) : (s.track path stat).Sound := by
  obtain ⟨index, once, fresh, paced, supplied⟩ := sound
  cases stat with
  | none =>
    refine ⟨BurstIndex.removeLocked_consistent index path, once, fun other n early late whole held => ?_, paced,
      fun e member => ?_⟩
    · exact fresh other n early late whole ((BurstIndex.removeLocked_holds index path other).mp held).1
    · exact (Nat.add_le_add_left (BurstIndex.removeLocked_length s.index path) _).trans (supplied e member)
  | some st =>
    refine ⟨BurstIndex.put_consistent index path st.1 st.2, ?_, fun other n early late whole held => ?_,
      fun e member => ?_, fun e member => ?_⟩
    · exact claimedOnce_snoc once _ fun _ _ _ _ _ isClaim => by cases isClaim
    · rcases split_snoc whole with ⟨late', rfl, same⟩ | ⟨-, isPut, -⟩
      · rcases (BurstIndex.put_holds index path st.1 st.2 other).mp held with before | rfl
        · exact List.mem_append_left _ (fresh other n early late' same before)
        · exact List.mem_append_right _ (List.mem_singleton_self _)
      · cases isPut
    · obtain ⟨old, listed, rfl⟩ := List.mem_map.mp member
      exact paced old listed
    · obtain ⟨old, listed, rfl⟩ := List.mem_map.mp member
      have before := supplied old listed
      have length := BurstIndex.removeLocked_length s.index path
      have entries : (s.track path (some st)).index.entries.length =
          (s.index.removeLocked path).2.entries.length + 1 := List.length_append
      rw [entries]
      dsimp only [Evictor.supplied]
      omega

theorem start_sound (sound : s.Sound) (goal : Goal) : (s.start goal).Sound := by
  refine ⟨sound.index, sound.once, sound.fresh, fun e member => ?_, fun e member => ?_⟩
  · rcases List.mem_append.mp member with old | new
    · exact sound.paced e old
    · obtain rfl := List.mem_singleton.mp new
      rfl
  · rcases List.mem_append.mp member with old | new
    · exact sound.supplied e old
    · obtain rfl := List.mem_singleton.mp new
      exact (Nat.zero_add _).le

/-- One evictor's new state keeps what holds of all of them. -/
theorem set_forall {p : Evictor → Prop} {evictors : List Evictor} (all : ∀ e ∈ evictors, p e) {n : Nat} {e : Evictor}
    (holds : p e) : ∀ x ∈ evictors.set n e, p x := by
  intro x member
  rcases List.mem_or_eq_of_mem_set member with old | rfl
  · exact all x old
  · exact holds

theorem test_sound (sound : s.Sound) {n : Nat} (freeBytes : Int) {e : Evictor} (listed : e ∈ s.evictors)
    (phase : e.phase = .testing) : (s.test n freeBytes e).Sound := by
  have pace := sound.paced e listed
  rw [Evictor.Paced, phase] at pace
  refine ⟨sound.index, sound.once, sound.fresh, set_forall sound.paced ?_,
    set_forall sound.supplied (sound.supplied e listed)⟩
  dsimp only at pace
  by_cases met : e.goal.met s.index.total freeBytes = true
  · rw [if_pos met]
    simp only [Evictor.Paced, Evictor.to]
    omega
  · rw [if_neg met]
    simp only [Evictor.Paced, Evictor.to]
    omega

/-- What a claim does: the index was empty, or its oldest burst is taken out. -/
theorem claim_cases (sound : s.Sound) (n : Nat) (e : Evictor) :
    (s.index.entries = [] ∧ s.claim n e = { s with evictors := s.evictors.set n (e.to .done) }) ∨
    ∃ b ∈ s.index.entries, (∀ x ∈ s.index.entries, b.key ≤ x.key) ∧ s.claim n e = {
      index := (s.index.removeLocked b.path).2
      evictors := s.evictors.set n { e.to (.deleting b.path b.size) with claims := e.claims + 1 }
      log := s.log ++ [.claim n b.path] } := by
  unfold claim
  rcases BurstIndex.claimOldest_cases sound.index with ⟨empty, nothing⟩ | ⟨b, listed, oldest, taken⟩
  · rw [nothing]
    exact Or.inl ⟨empty, rfl⟩
  · rw [taken]
    exact Or.inr ⟨b, listed, oldest, rfl⟩

theorem claim_sound (sound : s.Sound) {n : Nat} {e : Evictor} (listed : e ∈ s.evictors) (phase : e.phase = .claiming) :
    (s.claim n e).Sound := by
  have pace := sound.paced e listed
  rw [Evictor.Paced, phase] at pace
  dsimp only at pace
  rcases claim_cases sound n e with ⟨-, nothing⟩ | ⟨b, held, -, taken⟩
  · rw [nothing]
    refine ⟨sound.index, sound.once, sound.fresh, set_forall sound.paced ?_,
      set_forall sound.supplied (sound.supplied e listed)⟩
    simp only [Evictor.Paced, Evictor.to]
    omega
  · rw [taken]
    obtain ⟨index, once, fresh, paced, supplied⟩ := sound
    have isHeld : s.index.Holds b.path := List.mem_map_of_mem held
    have shorter : (s.index.removeLocked b.path).2.entries.length + 1 = s.index.entries.length := by
      have found := BurstIndex.find_held index held
      have perm := (BurstIndex.find_perm found).2.length_eq
      unfold BurstIndex.removeLocked
      rw [found]
      exact perm.symm
    refine ⟨BurstIndex.removeLocked_consistent index b.path, ?_, fun path m early late whole stays => ?_,
      set_forall paced ?_, set_forall (fun x member => ?_) ?_⟩
    · refine claimedOnce_snoc once _ fun path m early late m' isClaim same => ?_
      obtain ⟨-, rfl⟩ := Event.claim.inj isClaim
      exact fresh b.path m early late same isHeld
    · obtain ⟨before, other⟩ := (BurstIndex.removeLocked_holds index b.path path).mp stays
      rcases split_snoc whole with ⟨late', rfl, same⟩ | ⟨-, isClaim, -⟩
      · exact List.mem_append_left _ (fresh path m early late' same before)
      · exact absurd (Event.claim.inj isClaim).2 other
    · simp only [Evictor.Paced, Evictor.to]
      omega
    · have before := supplied x member
      dsimp only
      omega
    · have before := supplied e listed
      simp only [Evictor.to]
      omega

theorem delete_sound (sound : s.Sound) {n : Nat} {e : Evictor} (listed : e ∈ s.evictors) {path : String} {size : Nat}
    (phase : e.phase = .deleting path size) : (s.delete n e size).Sound := by
  have pace := sound.paced e listed
  rw [Evictor.Paced, phase] at pace
  refine ⟨sound.index, sound.once, sound.fresh, set_forall sound.paced ?_,
    set_forall sound.supplied (sound.supplied e listed)⟩
  exact pace

theorem step_sound (sound : s.Sound) {act : Act T} (goes : s.step act = some s') : s'.Sound := by
  cases act with
  | track path stat =>
    obtain rfl := Option.some.inj goes
    exact track_sound sound path stat
  | start goal =>
    obtain rfl := Option.some.inj goes
    exact start_sound sound goal
  | advance n freeBytes =>
    obtain ⟨e, at_, goes⟩ := Option.bind_eq_some_iff.mp goes
    have listed := List.mem_of_getElem? at_
    unfold advance at goes
    cases phase : e.phase with
    | testing =>
      rw [phase] at goes
      obtain rfl := Option.some.inj goes
      exact test_sound sound freeBytes listed phase
    | claiming =>
      rw [phase] at goes
      obtain rfl := Option.some.inj goes
      exact claim_sound sound listed phase
    | deleting path size =>
      rw [phase] at goes
      obtain rfl := Option.some.inj goes
      exact delete_sound sound listed phase
    | done =>
      rw [phase] at goes
      cases goes

theorem log_ne_snoc {log : List Event} {event : Event} : log ≠ log ++ [event] := fun same => by
  have := congrArg List.length same
  simp at this

theorem track_steps (s : BurstArchive T) (path : String) (stat : Option (T × Nat)) :
    Steps s (.track path stat) (s.track path stat) := by
  cases stat with
  | none =>
    refine ⟨fun n e e' before after working ended => ?_, fun n path grown => absurd grown log_ne_snoc⟩
    exact absurd (Option.some.inj (before.symm.trans after) ▸ ended) working
  | some st =>
    refine ⟨fun n e e' before after working ended => ?_, fun n other grown => ?_⟩
    · simp only [track, List.getElem?_map, before, Option.map_some, Option.some.injEq] at after
      rw [← after] at ended
      exact absurd ended working
    · cases List.singleton_inj.mp (List.append_cancel_left grown)

theorem start_steps (s : BurstArchive T) (goal : Goal) : Steps s (.start goal) (s.start goal) := by
  refine ⟨fun n e e' before after working ended => ?_, fun n path grown => absurd grown log_ne_snoc⟩
  have inside := (List.getElem?_eq_some_iff.mp before).1
  simp only [start, List.getElem?_append_left inside] at after
  exact absurd (Option.some.inj (before.symm.trans after) ▸ ended) working

/-- Another evictor's state is not changed. -/
theorem set_ended {evictors : List Evictor} {n m : Nat} {e e' x : Evictor} (before : evictors[m]? = some e)
    (after : (evictors.set n x)[m]? = some e') (working : e.phase ≠ .done) (ended : e'.phase = .done) :
    m = n ∧ e' = x := by
  by_cases own : n = m
  · subst own
    rw [List.getElem?_set_self (List.getElem?_eq_some_iff.mp before).1] at after
    exact ⟨rfl, (Option.some.inj after).symm⟩
  · rw [List.getElem?_set_ne own] at after
    exact absurd (Option.some.inj (before.symm.trans after) ▸ ended) working

theorem advance_steps (sound : s.Sound) {n : Nat} {freeBytes : Int} {e : Evictor} (at_ : s.evictors[n]? = some e)
    (goes : s.advance n freeBytes e = some s') : Steps s (.advance n freeBytes) s' := by
  unfold advance at goes
  cases phase : e.phase with
  | testing =>
    rw [phase] at goes
    obtain rfl := Option.some.inj goes
    refine ⟨fun m old new before after working ended => ?_, fun m path grown => absurd grown log_ne_snoc⟩
    obtain ⟨rfl, rfl⟩ := set_ended before after working ended
    obtain rfl := Option.some.inj (at_.symm.trans before)
    refine Or.inl ⟨freeBytes, rfl, ?_⟩
    by_contra unmet
    rw [if_neg unmet] at ended
    cases ended
  | claiming =>
    rw [phase] at goes
    obtain rfl := Option.some.inj goes
    rcases claim_cases sound n e with ⟨empty, nothing⟩ | ⟨b, held, oldest, taken⟩
    · rw [nothing]
      exact ⟨fun _ _ _ _ _ _ _ => Or.inr empty, fun m path grown => absurd grown log_ne_snoc⟩
    · rw [taken]
      refine ⟨fun m old new before after working ended => ?_, fun m path grown => ?_⟩
      · obtain ⟨-, rfl⟩ := set_ended before after working ended
        cases ended
      · obtain ⟨-, rfl⟩ := Event.claim.inj (List.singleton_inj.mp (List.append_cancel_left grown))
        exact ⟨⟨b, held, rfl, oldest⟩, fun stays =>
          ((BurstIndex.removeLocked_holds sound.index b.path b.path).mp stays).2 rfl⟩
  | deleting path size =>
    rw [phase] at goes
    obtain rfl := Option.some.inj goes
    refine ⟨fun m old new before after working ended => ?_, fun m path grown => absurd grown log_ne_snoc⟩
    obtain ⟨-, rfl⟩ := set_ended before after working ended
    cases ended
  | done =>
    rw [phase] at goes
    cases goes

theorem step_steps (sound : s.Sound) {act : Act T} (goes : s.step act = some s') : Steps s act s' := by
  cases act with
  | track path stat =>
    obtain rfl := Option.some.inj goes
    exact track_steps s path stat
  | start goal =>
    obtain rfl := Option.some.inj goes
    exact start_steps s goal
  | advance n freeBytes =>
    obtain ⟨e, at_, goes⟩ := Option.bind_eq_some_iff.mp goes
    exact advance_steps sound at_ goes

/-- An evictor that has not ended can always take its next step. -/
theorem step_live {n : Nat} {e : Evictor} (at_ : s.evictors[n]? = some e) (working : e.phase ≠ .done) (freeBytes : Int) :
    (s.step (.advance n freeBytes)).isSome := by
  rw [step, at_, Option.bind_some, advance]
  cases phase : e.phase with
  | testing => rfl
  | claiming => rfl
  | deleting path size => rfl
  | done => exact absurd phase working

theorem Evictor.Paced.steps_le {e : Evictor} (paced : e.Paced) : e.steps ≤ 3 * e.claims + 2 := by
  unfold Evictor.Paced at paced
  cases phase : e.phase with
  | testing =>
    rw [phase] at paced
    dsimp only at paced
    omega
  | claiming =>
    rw [phase] at paced
    dsimp only at paced
    omega
  | deleting path size =>
    rw [phase] at paced
    dsimp only at paced
    omega
  | done =>
    rw [phase] at paced
    exact paced

/-- The runs of an archive whose index one walk built. -/
def Reach (s : BurstArchive T) : Prop :=
  ∃ walk : List (WalkedFile T), (walk.map WalkedFile.path).Nodup ∧
    Runs.Reach step ⟨.build walk, [], []⟩ (fun _ _ => True) s

/-- In every run of saves, evictors and other threads the index is consistent, no
burst is claimed twice, and the evictors claim the oldest and end. -/
theorem Reach.deletes_oldest (reach : Reach s) :
    (s.index.Consistent ∧ ∀ notAfter : Option T, s.index.split notAfter = some (s.index.total,
      notAfter.elim s.index.total fun t => ((s.index.entries.filter fun e => e.mtime < t).map fun e => (e.size : Int)).sum)) ∧
    ClaimedOnce s.log ∧
    (∀ n e, s.evictors[n]? = some e → e.steps ≤ 3 * e.supply + 2 ∧
      (e.phase ≠ .done → ∀ freeBytes, (s.step (.advance n freeBytes)).isSome)) ∧
    ∀ act s', s.step act = some s' → Steps s act s' := by
  obtain ⟨walk, distinct, reach⟩ := reach
  have sound : s.Sound := by
    refine Runs.Reach.invariant (I := Sound) ?_ (fun _ _ _ before _ goes => step_sound before goes) reach
    exact ⟨BurstIndex.build_consistent walk distinct, by simp [ClaimedOnce], by simp, by simp, by simp⟩
  refine ⟨⟨sound.index, BurstIndex.split_exact sound.index⟩, sound.once, fun n e at_ => ⟨?_, step_live at_⟩,
    fun act s' => step_steps sound⟩
  have listed := List.mem_of_getElem? at_
  have paced := (sound.paced e listed).steps_le
  have supplied := sound.supplied e listed
  omega

/-- One burst is saved, and an evictor with a cap below its size is about to claim it. -/
def aboveCap : BurstArchive ℕ :=
  ⟨⟨[⟨"b", 5, 10⟩], [toLex (5, "b")], 10⟩, [⟨.cap 3, .claiming, 0, 1, 0, 1⟩], [.put "b"]⟩

theorem Reach.deletes_oldest_aboveCap : aboveCap.index.split (some 6) = some (10, 10) ∧
    Steps aboveCap (.advance 0 0) ⟨⟨[], [], 0⟩, [⟨.cap 3, .deleting "b" 10, 0, 2, 1, 1⟩], [.put "b", .claim 0 "b"]⟩ := by
  have ran : Runs.follow step ⟨.build [], [], []⟩ [.track "b" (some (5, 10)), .start (.cap 3), .advance 0 0] =
    some aboveCap := rfl
  have evicts := Reach.deletes_oldest ⟨[], List.nodup_nil, Runs.Reach.of_follow ran⟩
  exact ⟨evicts.1.2 (some 6), evicts.2.2.2 (.advance 0 0) _ rfl⟩

end BurstArchive
end RFObserver
