import RFObserver.Storage.TierWhole

namespace RFObserver

namespace TierLevel

variable {level : Nat} {t : TierLevel} {w : AvgWindow}

theorem addRow_bucket {rows : List TierRow} (tier : ∀ r ∈ rows, r.levelSec = level)
    (once : rows.Pairwise fun r r' => r.tuning ≠ r'.tuning) {r : TierRow} (member : r ∈ addRow level w rows) :
    (∃ old ∈ rows, old.bucketEpoch = r.bucketEpoch) ∨ r.bucketEpoch = bucketEpoch level w.startTime := by
  rcases addRow_cases (w := w) tier once with ⟨_, added⟩ | ⟨_, _, _, _, same⟩ | ⟨before, old, after, split, _, _, taken⟩
  · rw [added, List.mem_append, List.mem_singleton] at member
    rcases member with earlier | rfl
    · exact Or.inl ⟨r, earlier, rfl⟩
    · exact Or.inr rfl
  · exact Or.inl ⟨r, same ▸ member, rfl⟩
  · rw [taken, List.mem_append, List.mem_cons] at member
    subst split
    rcases member with earlier | rfl | later
    · exact Or.inl ⟨r, List.mem_append_left _ earlier, rfl⟩
    · exact Or.inl ⟨old, List.mem_append_right _ (List.mem_cons_self ..), rfl⟩
    · exact Or.inl ⟨r, List.mem_append_right _ (List.mem_cons_of_mem _ later), rfl⟩

theorem release_unfinished (epoch : ℚ) (stores : Bool) (t : TierLevel) :
    ∀ r ∈ (t.release (fun r => r.Over epoch) stores).openRows, ¬ r.Over epoch := by
  intro r member
  simpa [release] using (List.mem_filter.mp member).2

theorem Kept.insert (kept : t.Kept level) (positive : 0 < level) (w : AvgWindow) (stores : Bool) :
    (t.insert level w stores).Kept level := by
  rw [insert_eq]
  exact (kept.release _ stores).take positive (release_unfinished w.startTime stores t)

/-- Of two rows the earlier one is finished first. -/
theorem Kept.over_order (kept : t.Kept level) {epoch : ℚ} {r r' : TierRow} (isOpen : r ∈ t.openRows)
    (isOpen' : r' ∈ t.openRows) (over' : r'.Over epoch) (le : r.bucketEpoch ≤ r'.bucketEpoch) : r.Over epoch := by
  have sum : r.bucketEpoch + r.levelSec ≤ r'.bucketEpoch + r'.levelSec := by
    rw [(kept.opened r isOpen).tier, (kept.opened r' isOpen').tier]
    omega
  exact le_trans (by exact_mod_cast sum) over'

theorem Whole.insert (whole : t.Whole level) (kept : t.Kept level) (positive : 0 < level) {stores : Bool}
    (admits : t.Admits level (.insert w stores)) : (t.insert level w stores).Whole level := by
  rw [insert_eq]
  refine Whole.take (whole.release kept ?_ ?_) (kept.release _ stores) ?_
  · intro r isOpen r' isOpen' over' le
    exact decide_eq_true (kept.over_order isOpen isOpen' (of_decide_eq_true over') le)
  · exact fun stored cover isCover => (admits cover isCover).2 stored
  · intro cover isCover covered r member
    have before := (admits cover isCover).1 covered
    cases stores with
    | false => exact before r member
    | true =>
      rcases storeTierRows_bucket member with ⟨old, isOld, same⟩ | ⟨done, isDone, same⟩
      · exact same ▸ before old isOld
      · obtain ⟨isOpen, over'⟩ := List.mem_filter.mp isDone
        have exact := kept.opened done isOpen
        have ended := of_decide_eq_true over'
        rw [TierRow.Over, exact.tier, ← le_bucketEpoch positive (dvd_add_self_right.mpr exact.aligned)] at ended
        omega

theorem Whole.close (whole : t.Whole level) (kept : t.Kept level) {stores : Bool}
    (admits : t.Admits level (.close stores)) : (t.close stores).Whole level := by
  rw [close_eq]
  refine whole.release kept (fun _ _ _ _ _ _ => rfl) fun stored cover isCover => ?_
  rw [List.filter_true]
  exact admits cover isCover stored

/-- A tier whose windows came in order up to `last`. -/
structure Ordered (level : Nat) (last : ℚ) (t : TierLevel) : Prop where
  kept : t.Kept level
  whole : t.Whole level
  full : t.Full level
  stored : ∀ r ∈ t.rows, ((r.bucketEpoch + level : ℤ) : ℚ) ≤ last
  opened : ∀ r ∈ t.openRows, (r.bucketEpoch : ℚ) ≤ last

theorem Ordered.insert {last : ℚ} (ordered : t.Ordered level last) (positive : 0 < level) (le : last ≤ w.startTime) :
    (t.insert level w true).Ordered level w.startTime := by
  have kept := ordered.kept
  have unfinished := release_unfinished w.startTime true t
  have released := kept.release (fun r => r.Over w.startTime) true
  refine ⟨kept.insert positive w true, ordered.whole.insert kept positive ?_, ?_, ?_, ?_⟩
  · refine fun cover _ => ⟨fun _ r member => ?_, fun _ => ordered.full.storable kept cover _⟩
    have aligned : (level : ℤ) ∣ r.bucketEpoch := (kept.stored r member).aligned
    have ended := (ordered.stored r member).trans le
    rw [← le_bucketEpoch positive (dvd_add_self_right.mpr aligned)] at ended
    omega
  · rw [insert_eq]
    refine released.full_take positive unfinished ordered.full.release fun r member _ => ?_
    exact (ordered.opened r (List.mem_filter.mp member).1).trans le
  · intro r member
    rcases storeTierRows_bucket member with ⟨old, isOld, same⟩ | ⟨done, isDone, same⟩
    · exact same ▸ (ordered.stored old isOld).trans le
    · obtain ⟨isOpen, over'⟩ := List.mem_filter.mp isDone
      have ended := of_decide_eq_true over'
      rw [TierRow.Over, (kept.opened done isOpen).tier] at ended
      exact same ▸ ended
  · intro r member
    rw [insert_eq] at member
    rcases addRow_bucket (fun r isOpen => (released.opened r isOpen).tier) released.once member with
      ⟨old, isOld, same⟩ | same
    · exact same ▸ (ordered.opened old (List.mem_filter.mp isOld).1).trans le
    · exact same ▸ bucketEpoch_le positive w.startTime

end TierLevel

namespace SensorDatabase

variable {db : SensorDatabase} {level : Nat}

/-- No tier is led to hide a window. -/
def Admits (db : SensorDatabase) (act : Act) : Prop := ∀ level ∈ tierSeconds, (db.tierAt level).Admits level act

instance (db : SensorDatabase) (act : Act) : Decidable (db.Admits act) :=
  inferInstanceAs (Decidable (∀ level ∈ tierSeconds, _))

theorem tierSeconds_pos (member : level ∈ tierSeconds) : 0 < level := by
  revert level
  decide

theorem create_noted : create.Noted := List.forall_mem_nil _

theorem create_ordered (level : Nat) (last : ℚ) : (create.tierAt level).Ordered level last where
  kept := ⟨List.Pairwise.nil, List.forall_mem_nil _, List.forall_mem_nil _, List.Pairwise.nil,
    fun _ => List.nil_subperm, fun _ => ⟨rfl, rfl⟩⟩
  whole := fun _ none => by cases none
  full := fun _ => List.Perm.nil
  stored := List.forall_mem_nil _
  opened := List.forall_mem_nil _

/-- Every tier is kept, and hides no window. -/
def Sound (db : SensorDatabase) : Prop :=
  db.Noted ∧ ∀ level ∈ tierSeconds, (db.tierAt level).Kept level ∧ (db.tierAt level).Whole level

theorem Sound.step (sound : db.Sound) {act : Act} {db' : SensorDatabase} (admits : db.Admits act)
    (goes : step db act = some db') : db'.Sound := by
  obtain ⟨noted, tiers⟩ := sound
  cases act with
  | insert w stores =>
    obtain rfl := Option.some.inj goes
    refine ⟨noted.insert w stores, fun level member => ?_⟩
    obtain ⟨kept, whole⟩ := tiers level member
    rw [tierAt_insert noted member]
    exact ⟨kept.insert (tierSeconds_pos member) w stores, whole.insert kept (tierSeconds_pos member) (admits level member)⟩
  | close stores =>
    obtain rfl := Option.some.inj goes
    refine ⟨Noted.restarted _, fun level member => ?_⟩
    obtain ⟨kept, whole⟩ := tiers level member
    rw [tierAt_close]
    refine ⟨?_, whole.close kept (admits level member)⟩
    rw [TierLevel.close_eq]
    exact kept.release _ stores
  | abort =>
    obtain rfl := Option.some.inj goes
    refine ⟨Noted.restarted _, fun level member => ?_⟩
    obtain ⟨kept, whole⟩ := tiers level member
    rw [tierAt_restarted, TierLevel.abort_eq]
    exact ⟨kept.release _ false, whole.release kept (fun _ _ _ _ _ _ => rfl) fun no => by cases no⟩

/-- In a run whose steps are admitted no tier hides a window. -/
theorem Reach.sound {allowed : SensorDatabase → Act → Prop} (admits : ∀ db act, allowed db act → db.Admits act)
    (reach : Reach allowed db) : db.Sound := by
  refine Runs.Reach.invariant ?_ (fun db act db' sound meets goes => sound.step (admits db act meets) goes) reach
  exact ⟨create_noted, fun level _ => ⟨(create_ordered level 0).kept, (create_ordered level 0).whole⟩⟩

/-- Windows stored one after another, each store of finished rows succeeding. -/
def insertAll (ws : List AvgWindow) (db : SensorDatabase) : SensorDatabase :=
  ws.foldl (fun db w => db.insertAvgWindow w true) db

theorem insertAvgWindow_windows (w : AvgWindow) (stores : Bool) (db : SensorDatabase) :
    (db.insertAvgWindow w stores).windows = db.windows ++ [w] := by
  obtain ⟨_, _, frame⟩ := noteCoverages_frame w.startTime tierSeconds { db with windows := db.windows ++ [w] }
  rw [insertAvgWindow, addToTiers, frame]

theorem insertAll_windows (ws : List AvgWindow) (db : SensorDatabase) : (db.insertAll ws).windows = db.windows ++ ws := by
  induction ws generalizing db with
  | nil => exact (List.append_nil _).symm
  | cons w ws ih =>
    rw [insertAll, List.foldl_cons]
    exact (ih _).trans (by rw [insertAvgWindow_windows, List.append_assoc, List.singleton_append])

theorem insertAll_ordered {ws : List AvgWindow} (sorted : ws.Pairwise fun v w => v.startTime ≤ w.startTime) {last : ℚ}
    (after : ∀ w ∈ ws, last ≤ w.startTime) (noted : db.Noted)
    (ordered : ∀ level ∈ tierSeconds, (db.tierAt level).Ordered level last) :
    ∀ level ∈ tierSeconds, ∃ last, ((db.insertAll ws).tierAt level).Ordered level last := by
  induction ws generalizing db last with
  | nil => exact fun level member => ⟨last, ordered level member⟩
  | cons w ws ih =>
    obtain ⟨first, rest⟩ := List.pairwise_cons.mp sorted
    refine ih rest first (noted.insert w true) fun level member => ?_
    rw [tierAt_insert noted member]
    exact (ordered level member).insert (tierSeconds_pos member) (after w (List.mem_cons_self ..))

end SensorDatabase
end RFObserver
