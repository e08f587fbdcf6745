import RFObserver.Storage.CaptureIndexRuns
import RFObserver.Storage.Eviction

namespace RFObserver

namespace LocalStorage

variable {T : Type*} [LinearOrder T] {s : LocalStorage T} {e : CaptureEntry T}

section Policy

variable (s) (maxBytes : Int) (share : ℚ)

/-- The newest capture of auto/. -/
def Newest (e : CaptureEntry T) : Prop := e ∈ s.within s.autoDir ∧ ∀ x ∈ s.within s.autoDir, x.key ≤ e.key

/-- The oldest capture of auto/ of a class. -/
def OldestOf (p : CaptureEntry T → Prop) (e : CaptureEntry T) : Prop :=
  e ∈ s.within s.autoDir ∧ p e ∧ ∀ x ∈ s.within s.autoDir, p x → e.key ≤ x.key

/-- A victim of the cap: the oldest of its class but never the newest of all,
and a priority capture only over their share or after the ordinary ones. -/
structure OldestFirst (e : CaptureEntry T) : Prop where
  home : e ∈ s.within s.autoDir
  notNewest : ¬ s.Newest e
  plain : share ≤ 0 → s.OldestOf (fun _ => True) e
  ordinary : 0 < share → e.priority = false → s.OldestOf (fun x => x.priority = false) e
  priority : 0 < share → e.priority = true → s.OldestOf (fun x => x.priority = true) e ∧
    (priorityCapBytes maxBytes share < s.prioBytes ∨ ∀ x ∈ s.within s.autoDir, x.priority = false → s.Newest x)

/-- What the cap may delete, with the index as it is then. -/
structure CapVictim (e : CaptureEntry T) : Prop extends OldestFirst s maxBytes share e where
  full : ∃ bytes, s.bytes s.autoDir = some bytes ∧ maxBytes < bytes

/-- What `enforce_cap` has done once it ends. -/
structure CapEnforced (s' : LocalStorage T) (deleted : List (LocalStorage T × String)) : Prop where
  indexed : s'.Indexed
  dirs : s'.autoDir = s.autoDir ∧ s'.manualDir = s.manualDir
  victims : ∃ gone : List (CaptureEntry T), s.entries.Perm (gone ++ s'.entries) ∧ List.Forall₂ (fun d e =>
    d.2 = e.path ∧ d.1.autoDir = s.autoDir ∧ d.1.CapVictim maxBytes share e) deleted gone
  newest : ∀ e, s.Newest e → s'.Newest e
  done : (∃ bytes, s'.bytes s'.autoDir = some bytes ∧ bytes ≤ maxBytes) ∨ (s'.within s'.autoDir).length ≤ 1

/-- The eviction order: ordinary captures, then priority ones, oldest first. -/
def evictsBefore (a b : CaptureEntry T) : Prop :=
  if share ≤ 0 then a.key < b.key
  else (a.priority = false ∧ b.priority = true) ∨ (a.priority = b.priority ∧ a.key < b.key)

/-- What `evict_until_free` has done: it went through the eviction order up to
where the target was reached and deleted what was not protected. -/
structure EvictedUntilFree (target : Int) (exclude : List String) (notAfter : Option T) (readings : Readings)
    (s' : LocalStorage T) (deleted : List (CaptureEntry T)) : Prop where
  indexed : s'.Indexed
  dirs : s'.autoDir = s.autoDir ∧ s'.manualDir = s.manualDir
  gone : s.entries.Perm (deleted ++ s'.entries)
  pass : ∃ queue : List (CaptureEntry T), ∃ k ≤ queue.length, queue.Perm (s.within s.autoDir) ∧
    queue.Pairwise (evictsBefore share) ∧ (∀ i < k, readings.free i < target) ∧
    (k < queue.length → target ≤ readings.free k) ∧
    deleted = ((queue.take k).zipIdx.filter fun e => !isProtected exclude notAfter readings e.2 e.1).map Prod.fst

end Policy

section Index

theorem deleteCapture_perm (indexed : s.Indexed) (member : e ∈ s.entries) :
    s.entries.Perm (e :: (s.deleteCapture e.path).entries) := by
  have found := find_entry indexed member
  rw [deleteCapture, removeLocked_entries found]
  exact (find_perm found).2

theorem deleteCapture_within (indexed : s.Indexed) (member : e ∈ s.entries) (dir : String) :
    ∀ x, x ∈ (s.deleteCapture e.path).within dir ↔ x ∈ s.within dir ∧ x ≠ e := by
  have perm := deleteCapture_perm indexed member
  have nodup : (e :: (s.deleteCapture e.path).entries).Nodup := perm.nodup_iff.mp (.of_map _ indexed.distinct)
  intro x
  rw [within, within, List.mem_filter, List.mem_filter, perm.mem_iff, List.mem_cons]
  constructor
  · rintro ⟨inside, home⟩
    exact ⟨⟨Or.inr inside, home⟩, fun same => (List.nodup_cons.mp nodup).1 (same ▸ inside)⟩
  · rintro ⟨⟨here | inside, home⟩, other⟩
    · exact absurd here other
    · exact ⟨inside, home⟩

/-- The newest capture stays it when another one goes. -/
theorem Newest.delete (indexed : s.Indexed) (member : e ∈ s.entries) (other : ¬ s.Newest e) {w : CaptureEntry T}
    (newest : s.Newest w) : (s.deleteCapture e.path).Newest w := by
  have dirs := s.removeLocked_dirs e.path
  have within := deleteCapture_within indexed member s.autoDir
  rw [Newest, deleteCapture, dirs.1, ← deleteCapture]
  refine ⟨(within w).mpr ⟨newest.1, fun same => other (same ▸ newest)⟩, fun x inside => ?_⟩
  exact newest.2 x ((within x).mp inside).1

theorem eq_of_path (indexed : s.Indexed) {x y : CaptureEntry T} (inside : x ∈ s.entries) (inside' : y ∈ s.entries)
    (same : x.path = y.path) : x = y := List.inj_on_of_nodup_map indexed.distinct inside inside' same

end Index

section Cap

variable {maxBytes : Int} {share : ℚ}

/-- The first capture in order of a class that leaves out the newest, if there is one. -/
theorem oldest_of_find {order : List (T ×ₗ String)} {members : List (CaptureEntry T)}
    (mirrors : Bisect.Mirrors order (members.map CaptureEntry.key)) (inside : ∀ x ∈ members, x ∈ s.within s.autoDir)
    {w : CaptureEntry T} (newest : s.Newest w) {p : T ×ₗ String → Bool}
    (except : ∀ k, p k = true → keyPath k ≠ w.path) :
    (∀ k, order.find? p = some k → ∃ x ∈ members, x.key = k ∧ p k = true ∧ ¬ s.Newest x ∧
      ∀ y ∈ members, p y.key = true → x.key ≤ y.key) ∧
      (order.find? p = none → ∀ y ∈ members, p y.key = false) := by
  refine ⟨fun k found => ?_, fun none y member => ?_⟩
  · obtain ⟨member, test, least⟩ := Bisect.find_least mirrors.sorted found
    obtain ⟨x, among, rfl⟩ := List.mem_map.mp (mirrors.perm.mem_iff.mp member)
    refine ⟨x, among, rfl, test, fun also => except _ test ?_, fun y among' test' => ?_⟩
    · have same : x.key = w.key := le_antisymm (newest.2 x (inside x among)) (also.2 w newest.1)
      exact congrArg keyPath same
    · exact least _ (mirrors.perm.mem_iff.mpr (List.mem_map_of_mem among')) test'
  · have inOrder := mirrors.perm.mem_iff.mpr (List.mem_map_of_mem member)
    exact Bool.eq_false_iff.mpr (List.find?_eq_none.mp none _ inOrder)

/-- A capture is the oldest of a class once it is among those that are not the newest. -/
theorem Newest.oldestOf {w : CaptureEntry T} (newest : s.Newest w) {p : CaptureEntry T → Prop}
    (inside : e ∈ s.within s.autoDir) (test : p e) (least : ∀ x ∈ s.within s.autoDir, p x → x ≠ w → e.key ≤ x.key) : s.OldestOf p e := by
  refine ⟨inside, test, fun x inside' test' => ?_⟩
  by_cases last : x = w
  · exact last ▸ newest.2 e inside
  · exact least x inside' test' last

/-- With a capture that is not the newest, there is a victim. -/
theorem capVictim_spec (indexed : s.Indexed) {order : List (T ×ₗ String)}
    (mirrors : Bisect.Mirrors order ((s.within s.autoDir).map CaptureEntry.key)) {w : CaptureEntry T}
    (newest : s.Newest w) (many : ∃ x ∈ s.within s.autoDir, x ≠ w) :
    ∃ e, s.capVictim order maxBytes share w.path = some e.path ∧ s.OldestFirst maxBytes share e := by
  have other : ∀ x ∈ s.within s.autoDir, x ≠ w → x.path ≠ w.path := fun x inside other same =>
    other (eq_of_path indexed (List.mem_filter.mp inside).1 (List.mem_filter.mp newest.1).1 same)
  obtain ⟨y, among, notW⟩ := many
  let p : T ×ₗ String → Bool := fun k => keyPath k ≠ w.path
  have except : ∀ k, p k = true → keyPath k ≠ w.path := fun k test => of_decide_eq_true test
  by_cases fifo : share ≤ 0
  · obtain ⟨first, missing⟩ := oldest_of_find mirrors (fun x inside => inside) newest except
    cases found : order.find? p with
    | none => exact absurd (other y among notW) (of_decide_eq_false (missing found y among))
    | some k =>
      obtain ⟨x, inside, rfl, -, notNewest, least⟩ := first k found
      refine ⟨x, ?_, inside, notNewest, fun _ => ?_, fun positive => absurd fifo (not_le.mpr positive),
        fun positive => absurd fifo (not_le.mpr positive)⟩
      · rw [capVictim, if_pos fifo]
        exact congrArg (Option.map keyPath) found
      · exact newest.oldestOf inside trivial fun z inside' _ notLast =>
          least z inside' (decide_eq_true (other z inside' notLast))
  have inPrio : ∀ x, x ∈ s.entries.filter s.isAutoPriority ↔ x ∈ s.within s.autoDir ∧ x.priority = true := by
    intro x
    simp only [within, List.mem_filter, isAutoPriority, Bool.and_eq_true, decide_eq_true_eq]
    exact ⟨fun h => ⟨⟨h.1, h.2.2⟩, h.2.1⟩, fun h => ⟨h.1.1, h.2, h.1.2⟩⟩
  obtain ⟨firstPrio, missingPrio⟩ :=
    oldest_of_find indexed.prioOrdered (fun x inside => ((inPrio x).mp inside).1) newest except
  let q : T ×ₗ String → Bool := fun k => keyPath k ≠ w.path ∧ (s.find (keyPath k)).any fun e => !e.priority
  obtain ⟨firstOrdinary, missingOrdinary⟩ := oldest_of_find mirrors (fun x inside => inside) newest (p := q)
    fun k test => (of_decide_eq_true test).1
  have isOrdinary : ∀ x ∈ s.within s.autoDir, q x.key = true ↔ x.path ≠ w.path ∧ x.priority = false := by
    intro x inside
    have found : s.find (keyPath x.key) = some x := find_entry indexed (List.mem_filter.mp inside).1
    simp only [q, found, Option.any_some, decide_eq_true_eq, Bool.not_eq_true']
    exact Iff.rfl
  have value : s.capVictim order maxBytes share w.path =
      if priorityCapBytes maxBytes share < s.prioBytes ∧ ((s.prioOrder.find? p).map keyPath).isSome then
        (s.prioOrder.find? p).map keyPath
      else ((order.find? q).map keyPath).or ((s.prioOrder.find? p).map keyPath) := by
    rw [capVictim, if_neg fifo]
    rfl
  have prioVictim : ∀ k, s.prioOrder.find? p = some k → s.capVictim order maxBytes share w.path = some (keyPath k) →
      (priorityCapBytes maxBytes share < s.prioBytes ∨ ∀ x ∈ s.within s.autoDir, x.priority = false → s.Newest x) →
      ∃ e, s.capVictim order maxBytes share w.path = some e.path ∧ s.OldestFirst maxBytes share e := by
    intro k found victim why
    obtain ⟨x, isPrio, rfl, -, notNewest, least⟩ := firstPrio k found
    obtain ⟨inside, marked⟩ := (inPrio x).mp isPrio
    refine ⟨x, victim, inside, notNewest, fun low => absurd low fifo, fun _ unmarked => ?_, fun _ _ => ⟨?_, why⟩⟩
    · rw [marked] at unmarked
      cases unmarked
    · exact newest.oldestOf inside marked fun z inside' test' notLast =>
        least z ((inPrio z).mpr ⟨inside', test'⟩) (decide_eq_true (other z inside' notLast))
  by_cases taken : priorityCapBytes maxBytes share < s.prioBytes ∧ ((s.prioOrder.find? p).map keyPath).isSome = true
  · rw [if_pos taken] at value
    obtain ⟨above, found⟩ := taken
    rw [Option.isSome_map] at found
    obtain ⟨k, found⟩ := Option.isSome_iff_exists.mp found
    exact prioVictim k found (by rw [value, found]; rfl) (Or.inl above)
  rw [if_neg taken] at value
  cases foundOrdinary : order.find? q with
  | some k =>
    obtain ⟨x, inside, rfl, test, notNewest, least⟩ := firstOrdinary k foundOrdinary
    have unmarked := ((isOrdinary x inside).mp test).2
    refine ⟨x, by rw [value, foundOrdinary]; rfl, inside, notNewest, fun low => absurd low fifo, fun _ _ => ?_,
      fun _ marked => ?_⟩
    · exact newest.oldestOf inside unmarked fun z inside' test' notLast =>
        least z inside' ((isOrdinary z inside').mpr ⟨other z inside' notLast, test'⟩)
    · rw [unmarked] at marked
      cases marked
  | none =>
    have onlyNewest : ∀ x ∈ s.within s.autoDir, x.priority = false → x = w := by
      intro x inside unmarked
      by_contra notLast
      have test := (isOrdinary x inside).mpr ⟨other x inside notLast, unmarked⟩
      rw [missingOrdinary foundOrdinary x inside] at test
      cases test
    cases found : s.prioOrder.find? p with
    | some k =>
      refine prioVictim k found (by rw [value, foundOrdinary, found]; rfl) (Or.inr fun x inside unmarked => ?_)
      exact onlyNewest x inside unmarked ▸ newest
    | none =>
      have marked : y.priority = true := by
        by_contra unmarked
        exact notW (onlyNewest y among (Bool.eq_false_iff.mpr unmarked))
      have test := missingPrio found y ((inPrio y).mpr ⟨among, marked⟩)
      exact absurd (other y among notW) (of_decide_eq_false test)

/-- A pass returns under the cap or with one capture left, and otherwise picks its victim by the policy. -/
theorem capPass_spec (indexed : s.Indexed) (maxBytes : Int) (share : ℚ) :
    (s.capPass maxBytes share = some none ∧
      ((∃ bytes, s.bytes s.autoDir = some bytes ∧ bytes ≤ maxBytes) ∨ (s.within s.autoDir).length ≤ 1)) ∨
      ∃ e, s.capPass maxBytes share = some (some e.path) ∧ s.CapVictim maxBytes share e := by
  obtain ⟨order, ordered, mirrors⟩ := indexed.ordered s.autoDir (Or.inl rfl)
  have sized := indexed.sized s.autoDir (Or.inl rfl)
  have length : order.length = (s.within s.autoDir).length := by
    rw [mirrors.perm.length_eq, List.length_map]
  by_cases stop : size (s.within s.autoDir) ≤ maxBytes ∨ order.length ≤ 1
  · refine Or.inl ⟨?_, ?_⟩
    · simp only [capPass, ordered, sized, if_pos stop]
    · exact stop.imp (fun under => ⟨_, sized, under⟩) fun few => length ▸ few
  obtain ⟨notUnder, many⟩ := not_or.mp stop
  have nonempty : order ≠ [] := List.ne_nil_of_length_pos (by omega)
  have isLast := List.getLast?_eq_some_getLast nonempty
  obtain ⟨inOrder, greatest⟩ := Bisect.getLast_greatest mirrors.sorted isLast
  obtain ⟨w, home, isKey⟩ := List.mem_map.mp (mirrors.perm.mem_iff.mp inOrder)
  have newest : s.Newest w := ⟨home, fun x inside =>
    isKey ▸ greatest x.key (mirrors.perm.mem_iff.mpr (List.mem_map_of_mem inside))⟩
  have another : ∃ x ∈ s.within s.autoDir, x ≠ w := by
    by_contra none
    have all : ∀ x ∈ s.within s.autoDir, x = w := fun x inside => by_contra fun notW => none ⟨x, inside, notW⟩
    have nodup : (s.within s.autoDir).Nodup := (List.Nodup.of_map _ indexed.distinct).sublist List.filter_sublist
    have few : (s.within s.autoDir).length ≤ [w].length :=
      (nodup.subperm fun x inside => List.mem_singleton.mpr (all x inside)).length_le
    exact many (length ▸ few)
  obtain ⟨e, victim, oldest⟩ : ∃ e, s.capVictim order maxBytes share w.path = some e.path ∧
    s.OldestFirst maxBytes share e := capVictim_spec indexed mirrors newest another
  refine Or.inr ⟨e, ?_, oldest, _, sized, by omega⟩
  simp only [capPass, ordered, sized, if_neg stop, isLast, Option.bind_some, ← isKey]
  exact congrArg some victim

/-- Deleting a victim and going on. -/
theorem CapEnforced.delete (indexed : s.Indexed) (victim : s.CapVictim maxBytes share e) {s' : LocalStorage T}
    {deleted : List (LocalStorage T × String)}
    (rest : (s.deleteCapture e.path).CapEnforced maxBytes share s' deleted) :
    s.CapEnforced maxBytes share s' ((s, e.path) :: deleted) := by
  have member := (List.mem_filter.mp victim.home).1
  have dirs := s.removeLocked_dirs e.path
  obtain ⟨gone, perm, each⟩ := rest.victims
  refine ⟨rest.indexed, ⟨rest.dirs.1.trans dirs.1, rest.dirs.2.trans dirs.2⟩, ⟨e :: gone, ?_, ?_⟩, fun w newest => ?_,
    rest.done⟩
  · exact (deleteCapture_perm indexed member).trans (perm.cons e)
  · refine .cons ⟨rfl, rfl, victim⟩ (each.imp fun d x deletes => ?_)
    exact ⟨deletes.1, deletes.2.1.trans dirs.1, deletes.2.2⟩
  · exact rest.newest w (newest.delete indexed member victim.notNewest)

/-- The passes end, and each deletes a victim of the policy. -/
theorem enforceCap_spec (indexed : s.Indexed) : ∃ s' deleted, s.CapEnforced maxBytes share s' deleted ∧
    ∀ fuel, s.entries.length < fuel → enforceCap maxBytes share fuel s = some (s', deleted) := by
  induction size : s.entries.length using Nat.strong_induction_on generalizing s with
  | h n ih =>
    rcases capPass_spec indexed maxBytes share with ⟨returns, done⟩ | ⟨e, pass, victim⟩
    · refine ⟨s, [], ⟨indexed, ⟨rfl, rfl⟩, ⟨[], .refl _, .nil⟩, fun _ newest => newest, done⟩, fun fuel enough => ?_⟩
      cases fuel with
      | zero => omega
      | succ fuel => simp only [enforceCap, returns]
    · have member := (List.mem_filter.mp victim.home).1
      have fewer : s.entries.length = (s.removeLocked e.path).entries.length + 1 :=
        (deleteCapture_perm indexed member).length_eq
      obtain ⟨s', deleted, enforced, runs⟩ := ih _ (by omega) (removeLocked_indexed indexed e.path) rfl
      refine ⟨s', (s, e.path) :: deleted, enforced.delete indexed victim, fun fuel enough => ?_⟩
      cases fuel with
      | zero => omega
      | succ fuel =>
        have goes : enforceCap maxBytes share fuel (s.deleteCapture e.path) = some (s', deleted) :=
          runs fuel (show (s.removeLocked e.path).entries.length < fuel by omega)
        simp only [enforceCap, pass, goes, Option.map_some]

end Cap

section Free

variable (target : Int) (exclude : List String) (notAfter : Option T) (readings : Readings)

theorem autoOldestFirst_spec (indexed : s.Indexed) (share : ℚ) : ∃ queue, s.autoOldestFirst share = some queue ∧
    queue.Perm (s.within s.autoDir) ∧ queue.Pairwise (evictsBefore share) := by
  obtain ⟨order, ordered, mirrors⟩ := indexed.ordered s.autoDir (Or.inl rfl)
  have known : ∀ k ∈ order, k ∈ s.entries.map CaptureEntry.key := fun k member => by
    obtain ⟨x, inside, same⟩ := List.mem_map.mp (mirrors.perm.mem_iff.mp member)
    exact List.mem_map.mpr ⟨x, (List.mem_filter.mp inside).1, same⟩
  obtain ⟨found, looked, keys, inEntries⟩ := lookup_keys indexed order known
  have sorted : found.Pairwise fun a b => a.key < b.key := List.pairwise_map.mp (keys ▸ mirrors.sorted)
  have all : found.Perm (s.within s.autoDir) := by
    have distinct : found.Nodup := List.Nodup.of_map CaptureEntry.key (keys ▸ mirrors.sorted.imp ne_of_lt)
    have distinct' : (s.within s.autoDir).Nodup := (List.Nodup.of_map _ indexed.distinct).sublist List.filter_sublist
    refine (List.perm_ext_iff_of_nodup distinct distinct').mpr fun e => ⟨fun member => ?_, fun member => ?_⟩
    · have inOrder : e.key ∈ order := keys ▸ List.mem_map_of_mem member
      obtain ⟨x, inside, same⟩ := List.mem_map.mp (mirrors.perm.mem_iff.mp inOrder)
      exact eq_of_path indexed (List.mem_filter.mp inside).1 (inEntries e member) (congrArg keyPath same) ▸ inside
    · have inKeys : e.key ∈ found.map CaptureEntry.key :=
        keys ▸ mirrors.perm.mem_iff.mpr (List.mem_map_of_mem member)
      obtain ⟨x, inside, same⟩ := List.mem_map.mp inKeys
      exact eq_of_path indexed (inEntries x inside) (List.mem_filter.mp member).1 (congrArg keyPath same) ▸ inside
  have queue : s.autoOldestFirst share = some (if share ≤ 0 then found else
      (found.filter fun e => !e.priority) ++ found.filter CaptureEntry.priority) := by
    rw [autoOldestFirst, ordered, Option.bind_some]
    exact congrArg (Option.map _) looked
  refine ⟨_, queue, ?_⟩
  by_cases plain : share ≤ 0
  · simp only [if_pos plain]
    exact ⟨all, sorted.imp fun less => (if_pos plain).mpr less⟩
  · simp only [if_neg plain]
    refine ⟨List.perm_append_comm.trans ((List.filter_append_perm ..).trans all), List.pairwise_append.mpr ⟨?_, ?_, ?_⟩⟩
    · refine (sorted.filter _).imp_of_mem fun {a b} inA inB less => (if_neg plain).mpr (Or.inr ⟨?_, less⟩)
      have unmarked := (List.mem_filter.mp inA).2
      have unmarked' := (List.mem_filter.mp inB).2
      simp only [Bool.not_eq_true'] at unmarked unmarked'
      exact unmarked.trans unmarked'.symm
    · refine (sorted.filter _).imp_of_mem fun {a b} inA inB less => (if_neg plain).mpr (Or.inr ⟨?_, less⟩)
      exact (List.mem_filter.mp inA).2.trans (List.mem_filter.mp inB).2.symm
    · intro a inA b inB
      have unmarked := (List.mem_filter.mp inA).2
      simp only [Bool.not_eq_true'] at unmarked
      exact (if_neg plain).mpr (Or.inl ⟨unmarked, (List.mem_filter.mp inB).2⟩)

/-- The loop goes through its queue up to where the target is reached. -/
theorem evictFrom_spec (indexed : s.Indexed) {queue : List (CaptureEntry T)} (i : Nat)
    (inside : ∀ e ∈ queue, e ∈ s.entries) (nodup : queue.Nodup) :
    let r := evictFrom target exclude notAfter readings i queue s
    r.1.Indexed ∧ (r.1.autoDir = s.autoDir ∧ r.1.manualDir = s.manualDir) ∧ s.entries.Perm (r.2 ++ r.1.entries) ∧
      ∃ k ≤ queue.length, (∀ j < k, readings.free (i + j) < target) ∧
        (k < queue.length → target ≤ readings.free (i + k)) ∧
        r.2 = (((queue.take k).zipIdx i).filter fun e =>
          !isProtected exclude notAfter readings e.2 e.1).map Prod.fst := by
  induction queue generalizing s i with
  | nil => exact ⟨indexed, ⟨rfl, rfl⟩, .refl _, 0, le_rfl, nofun, nofun, rfl⟩
  | cons e queue ih =>
    obtain ⟨fresh, nodup⟩ := List.nodup_cons.mp nodup
    have later := fun x after => inside x (List.mem_cons_of_mem e after)
    unfold evictFrom
    by_cases reached : target ≤ readings.free i
    · rw [if_pos reached]
      exact ⟨indexed, ⟨rfl, rfl⟩, .refl _, 0, Nat.zero_le _, nofun, fun _ => reached, rfl⟩
    rw [if_neg reached]
    have belowNext : ∀ {k : Nat} (j : Nat), j < k + 1 → (∀ j < k, readings.free (i + 1 + j) < target) →
        readings.free (i + j) < target := by
      intro k j early below
      cases j with
      | zero => exact not_le.mp reached
      | succ j =>
        rw [← Nat.add_assoc, Nat.add_right_comm]
        exact below j (Nat.lt_of_succ_lt_succ early)
    by_cases kept : isProtected exclude notAfter readings i e = true
    · rw [if_pos kept]
      obtain ⟨indexed', dirs, perm, k, short, below, stops, deleted⟩ := ih indexed (i + 1) later nodup
      refine ⟨indexed', dirs, perm, k + 1, Nat.succ_le_succ short, fun j early => ?_, fun more => ?_, ?_⟩
      · exact belowNext j early below
      · rw [← Nat.add_assoc, Nat.add_right_comm]
        exact stops (Nat.lt_of_succ_lt_succ more)
      · rw [List.take_succ_cons, List.zipIdx_cons, List.filter_cons_of_neg (by simpa using kept)]
        exact deleted
    · rw [if_neg kept]
      have member := inside e (List.mem_cons_self ..)
      have perm := deleteCapture_perm indexed member
      have dirs := s.removeLocked_dirs e.path
      have still : ∀ x ∈ queue, x ∈ (s.deleteCapture e.path).entries := fun x after =>
        (List.mem_cons.mp (perm.mem_iff.mp (later x after))).resolve_left fun same => fresh (same ▸ after)
      obtain ⟨indexed', dirs', perm', k, short, below, stops, deleted⟩ :=
        ih (removeLocked_indexed indexed e.path) (i + 1) still nodup
      refine ⟨indexed', ⟨dirs'.1.trans dirs.1, dirs'.2.trans dirs.2⟩, perm.trans (perm'.cons e), k + 1,
        Nat.succ_le_succ short, fun j early => ?_, fun more => ?_, ?_⟩
      · exact belowNext j early below
      · rw [← Nat.add_assoc, Nat.add_right_comm]
        exact stops (Nat.lt_of_succ_lt_succ more)
      · rw [List.take_succ_cons, List.zipIdx_cons, List.filter_cons_of_pos (by simpa using kept), List.map_cons]
        exact congrArg (e :: ·) deleted

/-- What `evict_until_free` does. -/
theorem evictUntilFree_spec (indexed : s.Indexed) (share : ℚ) : ∃ s' deleted,
      s.evictUntilFree share target exclude notAfter readings = some (s', deleted) ∧
        s.EvictedUntilFree share target exclude notAfter readings s' deleted := by
  obtain ⟨queue, found, perm, order⟩ := autoOldestFirst_spec indexed share
  have nodup : queue.Nodup :=
    perm.nodup_iff.mpr ((List.Nodup.of_map _ indexed.distinct).sublist List.filter_sublist)
  have inside : ∀ e ∈ queue, e ∈ s.entries := fun e member => (List.mem_filter.mp (perm.mem_iff.mp member)).1
  obtain ⟨indexed', dirs, gone, k, short, below, stops, deleted⟩ :=
    evictFrom_spec target exclude notAfter readings indexed 0 inside nodup
  simp only [Nat.zero_add] at below stops
  refine ⟨_, _, ?_, indexed', dirs, gone, queue, k, short, perm, order, below, stops, deleted⟩
  rw [evictUntilFree, found]
  rfl

/-- Of every consistent index, `enforce_cap` ends after deletions by its policy, and
`evict_until_free` deletes the unprotected captures of the eviction order up to its target. -/
theorem Indexed.evicts (indexed : s.Indexed) (maxBytes : Int) (share : ℚ) :
    (∃ s' deleted, s.CapEnforced maxBytes share s' deleted ∧
      ∀ fuel, s.entries.length < fuel → enforceCap maxBytes share fuel s = some (s', deleted)) ∧
    ∃ s' deleted, s.evictUntilFree share target exclude notAfter readings = some (s', deleted) ∧
      s.EvictedUntilFree share target exclude notAfter readings s' deleted :=
  ⟨enforceCap_spec indexed, evictUntilFree_spec target exclude notAfter readings indexed share⟩

end Free

/-- A marked capture and two ordinary ones, the oldest of 10 bytes. -/
def threeCaptures : LocalStorage Nat :=
  let disk := diskOf [("/d/auto/a.sc16", 5, 100), ("/d/auto/a.priority", 5, 0), ("/d/auto/b.sc16", 3, 10),
    ("/d/auto/c.sc16", 8, 40)]
  (((create disk "/d").track disk "/d/auto/a.sc16").track disk "/d/auto/b.sc16").track disk "/d/auto/c.sc16"

theorem threeCaptures_indexed : threeCaptures.Indexed := by
  unfold threeCaptures
  iterate 3 apply track_indexed
  exact create_indexed _ _

/-- Five bytes more are free at each candidate. -/
def fiveMore : Readings where
  free i := 5 * i
  active _ := []

/-- Under the cap and its share, the ordinary capture goes before the marked one. -/
theorem Indexed.evicts_threeCaptures :
    (enforceCap 120 (9 / 10) 4 threeCaptures).map (fun r => r.2.map Prod.snd) =
        some ["/d/auto/b.sc16", "/d/auto/a.sc16"] ∧
      (∃ s' deleted, threeCaptures.CapEnforced 120 (9 / 10) s' deleted ∧
        ∀ fuel, threeCaptures.entries.length < fuel → enforceCap 120 (9 / 10) fuel threeCaptures = some (s', deleted)) ∧
      ∃ s' deleted, threeCaptures.evictUntilFree (9 / 10) 7 [] none fiveMore = some (s', deleted) ∧
        threeCaptures.EvictedUntilFree (9 / 10) 7 [] none fiveMore s' deleted :=
  ⟨by decide +kernel, Indexed.evicts 7 [] none fiveMore threeCaptures_indexed 120 (9 / 10)⟩

end LocalStorage
end RFObserver
