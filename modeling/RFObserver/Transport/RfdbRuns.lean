import RFObserver.Transport.RfdbTables

namespace RFObserver.RfdbWriter

variable {storable : OutputRow → Bool} {s s' : RfdbWriter} {n : Nat} {w : WindowStatsRow}

/-- Why a window was counted as skipped: it has no row, or rf-db rejects the
row it was sent as. -/
def Refused (storable : OutputRow → Bool) (w : WindowStatsRow) : Option OutputRow → Prop
  | none => ∀ windowSec, toOutputRow w windowSec = none
  | some row => storable row = false ∧ toOutputRow w row.metadata.length = some row

def Skipped (storable : OutputRow → Bool) (s : RfdbWriter) (w : WindowStatsRow) : Prop :=
  ∃ e ∈ s.skips, e.1 = w.id ∧ Refused storable w e.2

/-- The window is in rf-db, or it was counted as skipped. -/
def Delivered (storable : OutputRow → Bool) (s : RfdbWriter) (w : WindowStatsRow) : Prop :=
  (∃ r ∈ s.db.outputs, s.db.IsOf r w) ∨ s.Skipped storable w

/-- A bookmark at `n` passes only what is delivered. -/
def Passed (storable : OutputRow → Bool) (s : RfdbWriter) (n : Nat) : Prop :=
  n ≤ s.newest ∧ ∀ a ∈ s.anchor, ∀ w ∈ s.windows, a < w.id → w.id ≤ n → s.Delivered storable w

/-- The first values of a call are those of its first rows. -/
def Valued (db : Rfdb) (call : InsertCall) : Prop :=
  ∀ (i : Nat) (v : OutputRecord), call.values[i]? = some v →
    ∃ e, call.rows[i]? = some e ∧ db.rowOf v = some e.row ∧ db.rpi = some v.hardwareId

def todo (call : InsertCall) : List SendRow := call.rows ++ call.rest.getD []

/-- The windows after the bookmark up to the batch's last one are delivered,
but for those still to send. -/
structure Batch (storable : OutputRow → Bool) (s : RfdbWriter) (windowSec : ℚ) (last : Nat) (rows : List SendRow) :
    Prop where
  built : ∀ e ∈ rows, ∃ w ∈ s.windows, w.id = e.window ∧ toOutputRow w windowSec = some e.row
  covered : ∀ b ∈ s.bookmark, b < last ∧ ∀ w ∈ s.windows, b < w.id → w.id ≤ last →
    s.Delivered storable w ∨ ∃ e ∈ rows, e.window = w.id ∧ toOutputRow w windowSec = some e.row
  atMost : last ≤ s.newest

/-- What holds at each step of `flush_once`. -/
def PhaseOk (storable : OutputRow → Bool) (s : RfdbWriter) : RfdbPhase → Prop
  | .idle => True
  | .loading => s.bookmark = none
  | .anchoring => s.bookmark = none ∧ s.stored = none
  | .savingAnchor n => s.bookmark = none ∧ s.stored = none ∧ n ≤ s.newest ∧ ∀ a ∈ s.anchor, n ≤ a
  | .looking => s.bookmark.isSome
  | .reading => s.bookmark.isSome ∧ s.hardwareIds.isSome
  | .inserting call last => (s.bookmark.isSome ∧ s.hardwareIds.isSome) ∧ Valued s.db call ∧
      (∀ rest ∈ call.rest, ∃ e, call.rows = [e]) ∧ ∃ windowSec, s.Batch storable windowSec last (todo call)
  | .saving => s.bookmark.isSome

/-- Ids are distinct, windows of one key have one row, what rf-db has is a
window's, and the caches name its rows. -/
structure Base (s : RfdbWriter) : Prop where
  db : s.db.Sound
  distinct : (s.windows.map (·.id)).Nodup
  copies : ∀ w ∈ s.windows, ∀ w' ∈ s.windows, ∀ slot ∈ w.slot, w'.slot = some slot →
    toOutputRow w' 0 = toOutputRow w 0
  sourced : ∀ r ∈ s.db.outputs, ∃ w ∈ s.windows, s.db.IsOf r w
  cache : ∀ e ∈ s.metadataIds, s.db.metadata[e.2]? = some e.1
  hardware : ∀ id ∈ s.hardwareIds, s.db.rpi = some id

structure Kept (storable : OutputRow → Bool) (s : RfdbWriter) : Prop where
  base : s.Base
  stored : ∀ n ∈ s.stored, s.Passed storable n
  held : ∀ n ∈ s.bookmark, s.Passed storable n
  phase : s.PhaseOk storable s.phase

/-- Windows whose rows have the same key have the same row, and a start without
a saved bookmark begins where the first one did. -/
def Plain (s : RfdbWriter) : Act → Prop
  | .stores window => ∀ w ∈ s.windows, ∀ slot ∈ w.slot, window.slot = some slot →
      toOutputRow w 0 = toOutputRow window 0
  | .anchors => ∀ a ∈ s.anchor, s.newest ≤ a
  | _ => True

theorem le_newest (member : w ∈ s.windows) : w.id ≤ s.newest := by
  unfold newest
  generalize s.windows = windows at member
  induction windows with
  | nil => exact absurd member List.not_mem_nil
  | cons first rest ih =>
    simp only [List.map_cons, List.foldr_cons]
    rcases List.mem_cons.mp member with rfl | later
    · exact le_max_left ..
    · exact (ih later).trans (le_max_right ..)

theorem newest_stores (newer : s.newest < w.id) : newest { s with windows := s.windows ++ [w] } = w.id := by
  unfold newest at newer ⊢
  simp only
  generalize s.windows = windows at newer
  induction windows with
  | nil => exact max_eq_left (Nat.zero_le _)
  | cons first rest ih =>
    simp only [List.map_cons, List.foldr_cons, List.cons_append] at newer ⊢
    rw [ih ((le_max_right ..).trans_lt newer), max_eq_right ((le_max_left ..).trans newer.le)]

/-- The same windows, with no less delivered. -/
structure Later (s s' : RfdbWriter) : Prop where
  windows : s'.windows = s.windows
  anchor : s'.anchor = s.anchor
  db : s.db.Grows s'.db
  skips : ∀ e ∈ s.skips, e ∈ s'.skips

theorem Later.newest (later : Later s s') : s'.newest = s.newest := by
  unfold RfdbWriter.newest
  rw [later.windows]

theorem Delivered.later (delivered : s.Delivered storable w) (later : Later s s') : s'.Delivered storable w := by
  rcases delivered with ⟨r, member, its⟩ | ⟨e, member, its⟩
  · exact .inl ⟨r, later.db.outputs r member, later.db.isOf its⟩
  · exact .inr ⟨e, later.skips e member, its⟩

theorem Passed.later (passed : s.Passed storable n) (later : Later s s') : s'.Passed storable n := by
  obtain ⟨le, delivered⟩ := passed
  refine ⟨later.newest ▸ le, fun a isAnchor w member above below => ?_⟩
  rw [later.windows] at member
  rw [later.anchor] at isAnchor
  exact (delivered a isAnchor w member above below).later later

theorem Valued.grow {db db' : Rfdb} {call : InsertCall} (valued : Valued db call) (grows : db.Grows db') :
    Valued db' call := by
  intro i v its
  obtain ⟨e, isRow, row, own⟩ := valued i v its
  exact ⟨e, isRow, grows.rowOf row, grows.rpi _ own⟩

theorem Batch.later {windowSec : ℚ} {last : Nat} {rows : List SendRow} (batch : s.Batch storable windowSec last rows)
    (later : Later s s') (bookmark : s'.bookmark = s.bookmark) : s'.Batch storable windowSec last rows := by
  refine ⟨?_, ?_, later.newest ▸ batch.atMost⟩
  · rw [later.windows]
    exact batch.built
  · rw [bookmark, later.windows]
    intro b isBookmark
    obtain ⟨progress, covered⟩ := batch.covered b isBookmark
    exact ⟨progress, fun w member above below => (covered w member above below).imp_left (·.later later)⟩

/-- A stored window keeps what is said of the earlier ones. -/
theorem Passed.stores (passed : s.Passed storable n) (newer : s.newest < w.id) :
    Passed storable { s with windows := s.windows ++ [w] } n := by
  obtain ⟨le, delivered⟩ := passed
  refine ⟨?_, fun a isAnchor old member above below => ?_⟩
  · rw [newest_stores newer]
    omega
  · rcases List.mem_append.mp member with before | new
    · exact delivered a isAnchor old before above below
    · rw [List.mem_singleton.mp new] at below
      omega

theorem Base.stores (base : s.Base) (newer : s.newest < w.id)
    (copy : ∀ old ∈ s.windows, ∀ slot ∈ old.slot, w.slot = some slot → toOutputRow old 0 = toOutputRow w 0) :
    Base { s with windows := s.windows ++ [w] } := by
  refine ⟨base.db, ?_, ?_, ?_, base.cache, base.hardware⟩
  · rw [List.map_append, List.nodup_append]
    refine ⟨base.distinct, List.nodup_singleton _, ?_⟩
    rintro id isOld new isNew rfl
    obtain ⟨old, member, same⟩ := List.mem_map.mp isOld
    have below := le_newest member
    have equal : id = w.id := List.mem_singleton.mp isNew
    omega
  · intro one isOne other isOther slot isSlot isSlot'
    rcases List.mem_append.mp isOne with old | new
    · rcases List.mem_append.mp isOther with old' | new'
      · exact base.copies one old other old' slot isSlot isSlot'
      · obtain rfl := List.mem_singleton.mp new'
        exact (copy one old slot isSlot isSlot').symm
    · obtain rfl := List.mem_singleton.mp new
      rcases List.mem_append.mp isOther with old' | new'
      · exact copy other old' slot isSlot' isSlot
      · rw [List.mem_singleton.mp new']
  · intro r member
    obtain ⟨source, isSource, its⟩ := base.sourced r member
    exact ⟨source, List.mem_append_left _ isSource, its⟩

theorem PhaseOk.stores {phase : RfdbPhase} (ok : s.PhaseOk storable phase) (newer : s.newest < w.id) :
    PhaseOk storable { s with windows := s.windows ++ [w] } phase := by
  cases phase with
  | savingAnchor n =>
    obtain ⟨bookmark, stored, le, anchored⟩ := ok
    refine ⟨bookmark, stored, ?_, anchored⟩
    rw [newest_stores newer]
    omega
  | inserting call last =>
    obtain ⟨ready, valued, single, windowSec, batch⟩ := ok
    have atMost := batch.atMost
    refine ⟨ready, valued, single, windowSec, ?_, ?_, ?_⟩
    · intro e member
      obtain ⟨source, isSource, its⟩ := batch.built e member
      exact ⟨source, List.mem_append_left _ isSource, its⟩
    · intro b isBookmark
      obtain ⟨progress, covered⟩ := batch.covered b isBookmark
      refine ⟨progress, fun old member above below => ?_⟩
      rcases List.mem_append.mp member with before | new
      · exact covered old before above below
      · rw [List.mem_singleton.mp new] at below
        omega
    · rw [newest_stores newer]
      omega
  | _ => exact ok

theorem Kept.stores (kept : s.Kept storable) (newer : s.newest < w.id)
    (copy : ∀ old ∈ s.windows, ∀ slot ∈ old.slot, w.slot = some slot → toOutputRow old 0 = toOutputRow w 0) :
    Kept storable { s with windows := s.windows ++ [w] } :=
  ⟨kept.base.stores newer copy, fun n its => (kept.stored n its).stores newer,
    fun n its => (kept.held n its).stores newer, kept.phase.stores newer⟩

theorem PhaseOk.later {phase : RfdbPhase} (ok : s.PhaseOk storable phase) (later : Later s s')
    (bookmark : s'.bookmark = s.bookmark) (stored : s'.stored = s.stored)
    (hardware : s.hardwareIds.isSome → s'.hardwareIds.isSome) : s'.PhaseOk storable phase := by
  cases phase with
  | idle => trivial
  | loading => exact bookmark.trans ok
  | anchoring => exact ⟨bookmark.trans ok.1, stored.trans ok.2⟩
  | savingAnchor n =>
    obtain ⟨none, unsaved, le, anchored⟩ := ok
    exact ⟨bookmark.trans none, stored.trans unsaved, later.newest ▸ le, later.anchor ▸ anchored⟩
  | looking => exact (congrArg Option.isSome bookmark).trans ok
  | reading => exact ⟨(congrArg Option.isSome bookmark).trans ok.1, hardware ok.2⟩
  | inserting call last =>
    obtain ⟨ready, valued, single, windowSec, batch⟩ := ok
    exact ⟨⟨(congrArg Option.isSome bookmark).trans ready.1, hardware ready.2⟩, valued.grow later.db, single,
      windowSec, batch.later later bookmark⟩
  | saving => exact (congrArg Option.isSome bookmark).trans ok

theorem Base.same (base : s.Base) (windows : s'.windows = s.windows) (db : s'.db = s.db)
    (cache : s'.metadataIds = s.metadataIds) (hardware : s'.hardwareIds = s.hardwareIds) : s'.Base := by
  constructor
  · exact db ▸ base.db
  · exact windows ▸ base.distinct
  · exact windows ▸ base.copies
  · rw [db, windows]
    exact base.sourced
  · rw [cache, db]
    exact base.cache
  · rw [hardware, db]
    exact base.hardware

theorem Base.grow {db : Rfdb} (base : s.Base) (grows : s.db.Grows db) (sound : db.Sound)
    (outputs : db.outputs = s.db.outputs) : Base { s with db := db } := by
  refine ⟨sound, base.distinct, base.copies, ?_, fun e member => grows.metadataOf (base.cache e member),
    fun id its => grows.rpi id (base.hardware id its)⟩
  intro r member
  rw [outputs] at member
  obtain ⟨source, isSource, its⟩ := base.sourced r member
  exact ⟨source, isSource, grows.isOf its⟩

theorem Kept.grow {db : Rfdb} (kept : s.Kept storable) (grows : s.db.Grows db) (sound : db.Sound)
    (outputs : db.outputs = s.db.outputs) : Kept storable { s with db := db } := by
  have later : Later s { s with db := db } := ⟨rfl, rfl, grows, fun _ member => member⟩
  exact ⟨kept.base.grow grows sound outputs, fun n its => (kept.stored n its).later later,
    fun n its => (kept.held n its).later later, kept.phase.later later rfl rfl id⟩

theorem Kept.insertMetadata (kept : s.Kept storable) (key : MetadataKey) :
    Kept storable { s with db := (s.db.insertMetadata key).1 } :=
  kept.grow (Rfdb.insertMetadata_grows s.db key) (kept.base.db.insertMetadata key) (Rfdb.insertMetadata_outputs key)

theorem findMetadata_db (key : MetadataKey) : (s.findMetadata key).1 = (s.db.insertMetadata key).1 := rfl

/-- The id that is found names the configuration, and one always is. -/
theorem findMetadata_spec (key : MetadataKey) :
    ∃ id, (s.findMetadata key).2 = some id ∧ (s.findMetadata key).1.metadata[id]? = some key := by
  by_cases there : key ∈ s.db.metadata
  · have same : s.db.insertMetadata key = (s.db, none) := if_pos there
    obtain ⟨id, found⟩ := Option.isSome_iff_exists.mp (List.isSome_idxOf?.mpr there)
    rw [findMetadata, same]
    refine ⟨id, found, ?_⟩
    obtain ⟨bound, its, _⟩ := List.idxOf?_eq_some_iff.mp found
    exact List.getElem?_eq_some_iff.mpr ⟨bound, its⟩
  · have added : s.db.insertMetadata key =
        ({ s.db with metadata := s.db.metadata ++ [key] }, some s.db.metadata.length) := if_neg there
    rw [findMetadata, added]
    exact ⟨_, rfl, List.getElem?_concat_length⟩

/-- A stored row of the key of a window is that window's. -/
theorem Base.isOf (base : s.Base) {r : OutputRecord} {row : OutputRow} (stored : r ∈ s.db.outputs)
    (isRow : s.db.rowOf r = some row) (member : w ∈ s.windows) (slot : w.slot = some row.slot) : s.db.IsOf r w := by
  obtain ⟨source, isSource, found, isFound, built⟩ := base.sourced r stored
  obtain rfl : found = row := Option.some.inj (isFound.symm.trans isRow)
  have same := base.copies w member source isSource found.slot slot (slot_eq built)
  exact ⟨found, isFound, (toOutputRow_same same).symm.trans built⟩

section Call

variable {call : InsertCall} {last hardwareId id : Nat} {windowSec : ℚ} {rows rest : List SendRow} {e : SendRow}

theorem Valued.resolve {db : Rfdb} (valued : Valued db call) (next : call.rows[call.values.length]? = some e)
    (its : db.metadata[id]? = some e.row.metadata) (own : db.rpi = some hardwareId) :
    Valued db { call with values := call.values ++ [e.row.record hardwareId id] } := by
  intro i v isValue
  rcases List.mem_append.mp (List.mem_of_getElem? isValue) with _ | _
  all_goals
    by_cases earlier : i < call.values.length
    · rw [List.getElem?_append_left earlier] at isValue
      exact valued i v isValue
    · obtain ⟨bound, _⟩ := List.getElem?_eq_some_iff.mp isValue
      rw [List.length_append, List.length_singleton] at bound
      obtain rfl : i = call.values.length := by omega
      rw [List.getElem?_concat_length] at isValue
      obtain rfl := Option.some.inj isValue
      exact ⟨e, next, Rfdb.rowOf_record its, own⟩

/-- In a whole call every row has its value. -/
theorem Valued.valueOf {db : Rfdb} (valued : Valued db call) (full : call.values.length = call.rows.length)
    (member : e ∈ call.rows) : ∃ v ∈ call.values, db.rowOf v = some e.row := by
  obtain ⟨i, bound, rfl⟩ := List.getElem_of_mem member
  have within : i < call.values.length := full ▸ bound
  obtain ⟨e', isRow, row, _⟩ := valued i call.values[i] (List.getElem?_eq_getElem within)
  rw [List.getElem?_eq_getElem bound] at isRow
  obtain rfl := Option.some.inj isRow
  exact ⟨call.values[i], List.getElem_mem within, row⟩

theorem Valued.rowOf {db : Rfdb} (valued : Valued db call) {v : OutputRecord} (member : v ∈ call.values) :
    ∃ e ∈ call.rows, db.rowOf v = some e.row ∧ db.rpi = some v.hardwareId := by
  obtain ⟨i, bound, rfl⟩ := List.getElem_of_mem member
  obtain ⟨e, isRow, its⟩ := valued i call.values[i] (List.getElem?_eq_getElem bound)
  exact ⟨e, List.mem_of_getElem? isRow, its⟩

theorem Valued.known {db : Rfdb} (valued : Valued db call) {v : OutputRecord} (member : v ∈ call.values) :
    v.metadataId < db.metadata.length ∧ db.rpi = some v.hardwareId := by
  obtain ⟨e, _, row, own⟩ := valued.rowOf member
  obtain ⟨key, isKey, _⟩ := Option.map_eq_some_iff.mp row
  exact ⟨(List.getElem?_eq_some_iff.mp isKey).1, own⟩

/-- The values of a call are rows of the windows of its batch. -/
theorem Batch.isOf (batch : s.Batch storable windowSec last rows) (valued : Valued s.db call)
    (within : ∀ e ∈ call.rows, e ∈ rows) {v : OutputRecord} (member : v ∈ call.values) :
    ∃ w ∈ s.windows, s.db.IsOf v w ∧ ∃ row, s.db.rowOf v = some row ∧ toOutputRow w windowSec = some row := by
  obtain ⟨e, isRow, row, _⟩ := valued.rowOf member
  obtain ⟨w, isWindow, _, built⟩ := batch.built e (within e isRow)
  exact ⟨w, isWindow, ⟨e.row, row, (toOutputRow_spec built).2.1 ▸ built⟩, e.row, row, built⟩

theorem Base.commit (base : s.Base) (valued : Valued s.db call) (batch : s.Batch storable windowSec last rows)
    (within : ∀ e ∈ call.rows, e ∈ rows) : (s.commit call).Base := by
  have grows := Rfdb.insertOutputs_grows s.db call.values
  have origin := (Rfdb.insertOutputs_spec s.db call.values).2.2.2.1
  refine ⟨base.db.insertOutputs fun v member => valued.known member, base.distinct, base.copies, ?_,
    fun e member => grows.metadataOf (base.cache e member), fun id its => grows.rpi id (base.hardware id its)⟩
  intro r member
  rcases origin r member with old | new
  · obtain ⟨source, isSource, its⟩ := base.sourced r old
    exact ⟨source, isSource, grows.isOf its⟩
  · obtain ⟨source, isSource, its, _⟩ := batch.isOf valued within new
    exact ⟨source, isSource, grows.isOf its⟩

theorem later_commit (s : RfdbWriter) (call : InsertCall) : Later s (s.commit call) :=
  ⟨rfl, rfl, Rfdb.insertOutputs_grows s.db call.values, fun _ member => member⟩

/-- After the commit the windows of the rows are in rf-db. -/
theorem Base.delivers (base : (s.commit call).Base) (valued : Valued s.db call)
    (full : call.values.length = call.rows.length) (member : e ∈ call.rows) (isWindow : w ∈ s.windows)
    (built : toOutputRow w windowSec = some e.row) : (s.commit call).Delivered storable w := by
  obtain ⟨v, isValue, row⟩ := valued.valueOf full member
  obtain ⟨r, isIn, same⟩ := (Rfdb.insertOutputs_spec s.db call.values).2.2.2.2.1 v isValue
  have grows := Rfdb.insertOutputs_grows s.db call.values
  obtain ⟨found, isFound, slot⟩ := Rfdb.slot_of_key same (grows.rowOf row)
  exact .inl ⟨r, isIn, base.isOf isIn isFound isWindow (slot.symm ▸ slot_eq built)⟩

theorem Kept.commit (kept : s.Kept storable) (base : (s.commit call).Base) : (s.commit call).Kept storable := by
  have later := later_commit s call
  exact ⟨base, fun n its => (kept.stored n its).later later, fun n its => (kept.held n its).later later,
    kept.phase.later later rfl rfl id⟩

/-- The batch without its first rows, once they are delivered. -/
theorem Batch.remaining (batch : s.Batch storable windowSec last (rows ++ rest))
    (delivered : ∀ e ∈ rows, ∀ w ∈ s.windows, w.id = e.window → toOutputRow w windowSec = some e.row →
      s.Delivered storable w) : s.Batch storable windowSec last rest := by
  refine ⟨fun e member => batch.built e (List.mem_append_right rows member), fun b isBookmark => ?_, batch.atMost⟩
  obtain ⟨progress, covered⟩ := batch.covered b isBookmark
  refine ⟨progress, fun w member above below => ?_⟩
  rcases covered w member above below with done | ⟨e, isRow, its, built⟩
  · exact .inl done
  · rcases List.mem_append.mp isRow with first | later
    · exact .inl (delivered e first w member its.symm built)
    · exact .inr ⟨e, later, its, built⟩

/-- A finished batch moves the bookmark to its last window. -/
theorem Batch.passed (batch : s.Batch storable windowSec last []) {b : Nat} (bookmark : s.bookmark = some b)
    (held : s.Passed storable b) : s.Passed storable last := by
  obtain ⟨_, covered⟩ := batch.covered b bookmark
  refine ⟨batch.atMost, fun a isAnchor w member above below => ?_⟩
  by_cases before : w.id ≤ b
  · exact held.2 a isAnchor w member above before
  · rcases covered w member (by omega) below with done | ⟨e, none, _⟩
    · exact done
    · exact absurd none List.not_mem_nil

theorem Kept.goOn (kept : s.Kept storable) (ready : s.bookmark.isSome ∧ s.hardwareIds.isSome)
    (batch : s.Batch storable windowSec last rows) : (s.goOn last rows).Kept storable := by
  cases rows with
  | nil =>
    obtain ⟨b, bookmark⟩ := Option.isSome_iff_exists.mp ready.1
    have passed := batch.passed bookmark (kept.held b bookmark)
    refine ⟨kept.base.same rfl rfl rfl rfl, kept.stored, fun n its => ?_, rfl⟩
    obtain rfl := Option.some.inj its
    exact passed
  | cons row rest =>
    refine ⟨kept.base.same rfl rfl rfl rfl, kept.stored, kept.held, ready, fun i v its => ?_, fun r its => ⟨row, rfl⟩, windowSec, ?_⟩
    · exact absurd its (by simp)
    · obtain ⟨built, covered, atMost⟩ := batch
      exact ⟨built, covered, atMost⟩

theorem Kept.resolve (kept : s.Kept storable) (phase : s.phase = .inserting call last)
    (hardware : s.hardwareIds = some hardwareId) (next : call.rows[call.values.length]? = some e)
    (goes : s.resolve call last hardwareId e.row = some s') : s'.Kept storable := by
  have ok := kept.phase
  rw [phase] at ok
  obtain ⟨ready, valued, single, windowSec, batch⟩ := ok
  have own := kept.base.hardware hardwareId hardware
  unfold RfdbWriter.resolve at goes
  split at goes
  case h_1 cached isCached =>
    have equal := List.find?_some isCached
    have isKey : cached.1 = e.row.metadata := of_decide_eq_true equal
    have its := kept.base.cache cached (List.mem_of_find?_eq_some isCached)
    obtain rfl := Option.some.inj goes
    refine ⟨kept.base.same rfl rfl rfl rfl, kept.stored, kept.held, ready, ?_, single, windowSec, ?_⟩
    · exact valued.resolve next (isKey ▸ its) own
    · exact batch.later ⟨rfl, rfl, Rfdb.Grows.refl s.db, fun _ member => member⟩ rfl
  case h_2 =>
    obtain ⟨id, found, its⟩ := s.findMetadata_spec e.row.metadata
    rw [found] at goes
    obtain rfl := Option.some.inj goes
    have grown := kept.insertMetadata e.row.metadata
    have grows := Rfdb.insertMetadata_grows s.db e.row.metadata
    refine ⟨⟨grown.base.db, grown.base.distinct, grown.base.copies, grown.base.sourced, ?_, grown.base.hardware⟩,
      grown.stored, grown.held, ready, ?_, single, windowSec, ?_⟩
    · intro entry member
      rcases List.mem_cons.mp member with rfl | old
      · exact its
      · exact grown.base.cache entry old
    · exact (valued.grow grows).resolve next its (grows.rpi _ own)
    · exact batch.later ⟨rfl, rfl, grows, fun _ member => member⟩ rfl

theorem Kept.executes (kept : s.Kept storable) (phase : s.phase = .inserting call last)
    (whole : Whole storable call) :
    ({ s.commit call with sent := s.sent + call.rows.length }.goOn last (call.rest.getD [])).Kept storable := by
  have ok := kept.phase
  rw [phase] at ok
  obtain ⟨ready, valued, single, windowSec, batch⟩ := ok
  have base : (s.commit call).Base :=
    kept.base.commit valued batch fun e member => List.mem_append_left _ member
  have committed := kept.commit base
  have still : (s.commit call).Batch storable windowSec last (call.rest.getD []) := by
    have whole' : (s.commit call).Batch storable windowSec last (todo call) := batch.later (later_commit s call) rfl
    refine whole'.remaining fun e member w isWindow _ built => ?_
    exact base.delivers valued whole.1 member isWindow built
  have counted : Kept storable { s.commit call with sent := s.sent + call.rows.length } :=
    ⟨base.same rfl rfl rfl rfl, committed.stored, committed.held,
      committed.phase.later ⟨rfl, rfl, Rfdb.Grows.refl _, fun _ member => member⟩ rfl rfl id⟩
  exact counted.goOn ready ⟨still.built, still.covered, still.atMost⟩

theorem later_skip (s : RfdbWriter) (entries : List (Nat × Option OutputRow)) : Later s (s.skip entries) :=
  ⟨rfl, rfl, Rfdb.Grows.refl s.db, fun _ member => List.mem_append_right entries member⟩

theorem Kept.skip (kept : s.Kept storable) (entries : List (Nat × Option OutputRow)) :
    (s.skip entries).Kept storable := by
  have later := later_skip s entries
  exact ⟨kept.base.same rfl rfl rfl rfl, fun n its => (kept.stored n its).later later,
    fun n its => (kept.held n its).later later, kept.phase.later later rfl rfl id⟩

/-- The rejected batch is sent again row by row. -/
theorem Kept.rejectsBatch (kept : s.Kept storable) (phase : s.phase = .inserting call last)
    (whole : call.rest = none) : (s.goOn last call.rows).Kept storable := by
  have ok := kept.phase
  rw [phase] at ok
  obtain ⟨ready, _, _, windowSec, batch⟩ := ok
  rw [todo, whole, Option.getD_none, List.append_nil] at batch
  exact kept.goOn ready batch

/-- The rejected row is counted as skipped. -/
theorem Kept.rejectsRow (kept : s.Kept storable) (phase : s.phase = .inserting call last)
    (alone : call.rest = some rest) (refused : ∃ e ∈ call.rows, storable e.row = false) :
    ((s.skip (call.rows.map fun e => (e.window, some e.row))).goOn last rest).Kept storable := by
  have ok := kept.phase
  rw [phase] at ok
  obtain ⟨ready, _, single, windowSec, batch⟩ := ok
  obtain ⟨only, isOnly⟩ := single rest alone
  have entries := later_skip s (call.rows.map fun e => (e.window, some e.row))
  have whole := batch.later entries rfl
  rw [todo, alone, Option.getD_some] at whole
  refine (kept.skip _).goOn ready (whole.remaining fun e member w isWindow its built => ?_)
  have cannot : storable e.row = false := by
    obtain ⟨e', isRow, cannot⟩ := refused
    rw [isOnly] at isRow member
    rw [List.mem_singleton.mp member, ← List.mem_singleton.mp isRow]
    exact cannot
  have skipped : (e.window, some e.row) ∈ call.rows.map fun e => (e.window, some e.row) :=
    List.mem_map_of_mem member
  exact .inr ⟨_, List.mem_append_left _ skipped, its.symm, cannot, (toOutputRow_spec built).2.1 ▸ built⟩

theorem mem_buildRows {windows : List WindowStatsRow} :
    e ∈ buildRows windows windowSec ↔ ∃ w ∈ windows, w.id = e.window ∧ toOutputRow w windowSec = some e.row := by
  rw [buildRows, List.mem_filterMap]
  constructor
  · rintro ⟨w, member, built⟩
    obtain ⟨row, isRow, rfl⟩ := Option.map_eq_some_iff.mp built
    exact ⟨w, member, rfl, isRow⟩
  · rintro ⟨w, member, its, isRow⟩
    exact ⟨w, member, Option.map_eq_some_iff.mpr ⟨e.row, isRow, by rw [its]⟩⟩

/-- The batch that is read holds all windows after the bookmark up to its last. -/
theorem Base.batch (base : s.Base) {final : WindowStatsRow} (isLast : s.batch.getLast? = some final) :
    (s.skip (unstorable s.batch windowSec)).Batch storable windowSec final.id (buildRows s.batch windowSec) := by
  have inPage := List.mem_of_getLast? isLast
  obtain ⟨isWindow, after⟩ := Keyset.mem_page inPage
  refine ⟨fun e member => ?_, fun b bookmark => ⟨after b bookmark, fun w member above below => ?_⟩, le_newest isWindow⟩
  · obtain ⟨w, isRow, its⟩ := mem_buildRows.mp member
    exact ⟨w, (Keyset.mem_page isRow).1, its⟩
  · have above' : ∀ k ∈ s.bookmark, k < w.id := fun k its => Option.some.inj (bookmark.symm.trans its) ▸ above
    have isRow : w ∈ s.batch := Keyset.mem_page_of_le base.distinct member above' inPage below
    cases built : toOutputRow w windowSec with
    | some row => exact .inr ⟨⟨w.id, row⟩, mem_buildRows.mpr ⟨w, isRow, rfl, built⟩, rfl, rfl⟩
    | none =>
      have skipped : (w.id, none) ∈ unstorable s.batch windowSec :=
        List.mem_map_of_mem (f := fun w : WindowStatsRow => (w.id, (none : Option OutputRow)))
          (List.mem_filter.mpr ⟨isRow, decide_eq_true built⟩)
      exact .inl (.inr ⟨_, List.mem_append_left _ skipped, rfl, fun other => toOutputRow_none other built⟩)

theorem Kept.readWindows (kept : s.Kept storable) (phase : s.phase = .reading) (windowSec : ℚ) :
    (s.readWindows windowSec).Kept storable := by
  have ready := kept.phase
  rw [phase] at ready
  unfold RfdbWriter.readWindows
  split
  case h_1 => exact ⟨kept.base.same rfl rfl rfl rfl, kept.stored, kept.held, trivial⟩
  case h_2 final isLast =>
    have skipped := kept.skip (unstorable s.batch windowSec)
    have batch : Batch storable _ windowSec final.id _ := kept.base.batch isLast
    split
    case h_1 none => exact skipped.goOn ready (none ▸ batch)
    case h_2 =>
      refine ⟨skipped.base.same rfl rfl rfl rfl, skipped.stored, skipped.held, ready, fun i v its => ?_, nofun,
        windowSec, ?_⟩
      · exact absurd its (by simp)
      · rw [todo, Option.getD_none, List.append_nil]
        exact ⟨batch.built, batch.covered, batch.atMost⟩

end Call

theorem Kept.idle (kept : s.Kept storable) : Kept storable { s with phase := .idle } :=
  ⟨kept.base.same rfl rfl rfl rfl, kept.stored, kept.held, trivial⟩

/-- The first bookmark held passes nothing. -/
theorem Passed.hold (passed : s.Passed storable n) : (s.hold n).Passed storable n := by
  obtain ⟨le, delivered⟩ := passed
  refine ⟨le, fun a its w member above below => ?_⟩
  rw [RfdbWriter.hold] at its
  cases anchor : s.anchor with
  | none =>
    rw [anchor] at its
    obtain rfl : n = a := Option.some.inj its
    omega
  | some a' =>
    rw [anchor] at its
    exact delivered a (anchor.trans its) w member above below

theorem Kept.hold (kept : s.Kept storable) (passed : s.Passed storable n) (stored : ∀ m ∈ s.stored, m = n) :
    Kept storable { s.hold n with phase := .looking } := by
  refine ⟨kept.base.same rfl rfl rfl rfl, fun m its => ?_, fun m its => ?_, rfl⟩
  · exact stored m its ▸ passed.hold
  · exact Option.some.inj its ▸ passed.hold

theorem Kept.loadBookmark (kept : s.Kept storable) (phase : s.phase = .loading) : s.loadBookmark.Kept storable := by
  have bare := kept.phase
  rw [phase] at bare
  unfold RfdbWriter.loadBookmark
  split
  case h_1 n stored =>
    exact kept.hold (kept.stored n stored) fun m its => Option.some.inj (its.symm.trans stored)
  case h_2 none =>
    exact ⟨kept.base.same rfl rfl rfl rfl, kept.stored, kept.held, bare, none⟩

theorem Kept.lookHardware (kept : s.Kept storable) (phase : s.phase = .looking) : s.lookHardware.Kept storable := by
  have ready := kept.phase
  rw [phase] at ready
  unfold RfdbWriter.lookHardware
  split
  case h_1 id found =>
    have own : s.db.rpi = some id := by
      cases cached : s.hardwareIds with
      | none => rwa [cached] at found
      | some old =>
        rw [cached] at found
        exact kept.base.hardware id (cached.trans found)
    obtain ⟨db, distinct, copies, sourced, cache, _⟩ := kept.base
    refine ⟨⟨db, distinct, copies, sourced, cache, fun id' its => ?_⟩, kept.stored, kept.held, ready, rfl⟩
    exact Option.some.inj its ▸ own
  case h_2 => exact kept.idle

theorem interrupt_phase (s : RfdbWriter) (applied : Bool) : (s.interrupt storable applied).phase = s.phase := by
  unfold RfdbWriter.interrupt
  split <;> try rfl
  split <;> try rfl
  split <;> rfl

/-- The end of `_save_bookmark`. -/
theorem Kept.saved (kept : s.Kept storable) (applied : Bool) (goes : (s.interrupt storable applied).saved = some s') :
    s'.Kept storable := by
  have ok := kept.phase
  cases phase : s.phase with
  | savingAnchor n =>
    rw [phase] at ok
    obtain ⟨bare, unsaved, le, anchored⟩ := ok
    have passed : s.Passed storable n := by
      refine ⟨le, fun a its w _ above below => ?_⟩
      have := anchored a its
      omega
    cases applied with
    | false =>
      simp only [interrupt, RfdbWriter.saved, phase] at goes
      obtain rfl := Option.some.inj goes
      exact kept.hold passed fun m its => absurd (unsaved.symm.trans its) nofun
    | true =>
      simp only [interrupt, RfdbWriter.saved, phase] at goes
      obtain rfl := Option.some.inj goes
      refine ⟨kept.base.same rfl rfl rfl rfl, fun m its => ?_, fun m its => ?_, rfl⟩
      · exact Option.some.inj its ▸ passed.hold
      · exact Option.some.inj its ▸ passed.hold
  | saving =>
    rw [phase] at ok
    cases applied with
    | false =>
      simp only [interrupt, RfdbWriter.saved, phase] at goes
      obtain rfl := Option.some.inj goes
      exact kept.idle
    | true =>
      simp only [interrupt, RfdbWriter.saved, phase] at goes
      obtain rfl := Option.some.inj goes
      exact ⟨kept.base.same rfl rfl rfl rfl, kept.held, kept.held, trivial⟩
  | _ =>
    rw [RfdbWriter.saved, interrupt_phase, phase] at goes
    cases goes

/-- A step that fails, whether or not its statement took effect. -/
theorem Kept.interrupt (kept : s.Kept storable) (applied : Bool) :
    Kept storable { s.interrupt storable applied with phase := .idle } := by
  have ok := kept.phase
  cases applied with
  | false => exact kept.idle
  | true =>
    cases phase : s.phase with
    | savingAnchor n =>
      rw [phase] at ok
      obtain ⟨_, _, le, anchored⟩ := ok
      have same : s.interrupt storable true = { s with stored := some n } := by simp only [RfdbWriter.interrupt, phase]
      rw [same]
      refine ⟨kept.base.same rfl rfl rfl rfl, fun m its => ?_, kept.held, trivial⟩
      obtain rfl := Option.some.inj its
      refine ⟨le, fun a isAnchor w _ above below => ?_⟩
      have := anchored a isAnchor
      omega
    | saving =>
      have same : s.interrupt storable true = { s with stored := s.bookmark } := by
        simp only [RfdbWriter.interrupt, phase]
      rw [same]
      exact ⟨kept.base.same rfl rfl rfl rfl, kept.held, kept.held, trivial⟩
    | inserting call last =>
      rw [phase] at ok
      obtain ⟨_, valued, _, windowSec, batch⟩ := ok
      simp only [RfdbWriter.interrupt, phase]
      split
      case h_1 e _ => exact (kept.insertMetadata e.row.metadata).idle
      case h_2 =>
        split
        case isTrue =>
          have base := kept.base.commit valued batch fun e member => List.mem_append_left _ member
          exact (kept.commit base).idle
        case isFalse => exact kept.idle
    | _ =>
      have same : s.interrupt storable true = s := by simp only [RfdbWriter.interrupt, phase]
      rw [same]
      exact kept.idle

/-- The next process knows the saved bookmark only. -/
theorem Kept.restart (kept : s.Kept storable) :
    Kept storable { s with bookmark := none, hardwareIds := none, metadataIds := [], sent := 0, skipped := 0,
                           phase := .idle } :=
  ⟨⟨kept.base.db, kept.base.distinct, kept.base.copies, kept.base.sourced, fun _ none => (List.not_mem_nil none).elim,
    nofun⟩, kept.stored, nofun, trivial⟩

theorem Kept.step {act : Act} (kept : s.Kept storable) (plain : s.Plain act) (goes : s.step storable act = some s') :
    s'.Kept storable := by
  cases act <;> simp only [RfdbWriter.step] at goes
  case stores window =>
    obtain ⟨newer, same⟩ := Option.ite_none_right_eq_some.mp goes
    obtain rfl := Option.some.inj same
    exact kept.stores newer plain
  case registers hardwareId =>
    obtain ⟨unknown, same⟩ := Option.ite_none_right_eq_some.mp goes
    obtain rfl := Option.some.inj same
    have grows : s.db.Grows { s.db with rpi := some hardwareId } :=
      ⟨fun id its => absurd (unknown.symm.trans its) nofun, List.prefix_rfl, fun _ member => member⟩
    refine kept.grow grows ⟨kept.base.db.distinct, kept.base.db.known, kept.base.db.unique, fun r member => ?_⟩ rfl
    exact absurd (unknown.symm.trans (kept.base.db.own r member)) nofun
  case others key =>
    obtain rfl := Option.some.inj goes
    exact kept.insertMetadata key
  case begins =>
    obtain ⟨_, same⟩ := Option.ite_none_right_eq_some.mp goes
    obtain rfl := Option.some.inj same
    refine ⟨kept.base.same rfl rfl rfl rfl, kept.stored, kept.held, ?_⟩
    split
    case isTrue bare => exact bare
    case isFalse held => exact Option.isSome_iff_ne_none.mpr held
  case loads =>
    obtain ⟨phase, same⟩ := Option.ite_none_right_eq_some.mp goes
    obtain rfl := Option.some.inj same
    exact kept.loadBookmark phase
  case anchors =>
    obtain ⟨phase, same⟩ := Option.ite_none_right_eq_some.mp goes
    obtain rfl := Option.some.inj same
    have ok := kept.phase
    rw [phase] at ok
    exact ⟨kept.base.same rfl rfl rfl rfl, kept.stored, kept.held, ok.1, ok.2, le_rfl, plain⟩
  case saves => exact kept.saved true goes
  case timesOut applied => exact kept.saved applied goes
  case looks =>
    obtain ⟨phase, same⟩ := Option.ite_none_right_eq_some.mp goes
    obtain rfl := Option.some.inj same
    exact kept.lookHardware phase
  case reads windowSec =>
    obtain ⟨phase, same⟩ := Option.ite_none_right_eq_some.mp goes
    obtain rfl := Option.some.inj same
    exact kept.readWindows phase windowSec
  case resolves =>
    split at goes
    case h_1 call last hardwareId phase hardware =>
      obtain ⟨e, next, taken⟩ := Option.bind_eq_some_iff.mp goes
      exact kept.resolve phase hardware next taken
    case h_2 => cases goes
  case executes =>
    split at goes
    case h_1 call last phase =>
      obtain ⟨whole, same⟩ := Option.ite_none_right_eq_some.mp goes
      obtain rfl := Option.some.inj same
      exact kept.executes phase whole
    case h_2 => cases goes
  case rejects =>
    split at goes
    case h_1 call last phase =>
      obtain ⟨refused, taken⟩ := Option.ite_none_right_eq_some.mp goes
      cases alone : call.rest with
      | none =>
        rw [alone] at taken
        obtain rfl := Option.some.inj taken
        exact kept.rejectsBatch phase alone
      | some rest =>
        rw [alone] at taken
        obtain rfl := Option.some.inj taken
        exact kept.rejectsRow phase alone refused
    case h_2 => cases goes
  case fails applied =>
    split at goes
    case isTrue => cases goes
    case isFalse =>
      obtain rfl := Option.some.inj goes
      exact kept.interrupt applied
  case restarts applied =>
    obtain rfl := Option.some.inj goes
    exact (kept.interrupt applied).restart

theorem create_kept : create.Kept storable := by
  have sound : create.db.Sound :=
    ⟨List.nodup_nil, fun _ none => (List.not_mem_nil none).elim, List.Pairwise.nil, fun _ none => (List.not_mem_nil none).elim⟩
  refine ⟨⟨sound, List.nodup_nil, fun _ none => (List.not_mem_nil none).elim, fun _ none => (List.not_mem_nil none).elim,
    fun _ none => (List.not_mem_nil none).elim, nofun⟩, nofun, nofun, trivial⟩

end RFObserver.RfdbWriter
