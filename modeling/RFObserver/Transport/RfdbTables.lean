import RFObserver.Transport.Rfdb

namespace RFObserver

variable {w w' : WindowStatsRow} {row : OutputRow} {windowSec : ℚ}

/-- What the row has under another duration. -/
def OutputRow.lasting (row : OutputRow) (windowSec : ℚ) : OutputRow :=
  { row with metadata := { row.metadata with length := windowSec, interval := windowSec } }

theorem toOutputRow_spec (built : toOutputRow w windowSec = some row) :
    row.createdAt = w.startTime ∧ row.metadata.length = windowSec ∧
      ∀ other, toOutputRow w other = some (row.lasting other) := by
  simp only [toOutputRow, Option.bind_eq_bind, Option.bind_eq_some_iff, Option.pure_def, Option.some.injEq] at built
  obtain ⟨freq, isFreq, rate, isRate, gain, isGain, avg, isAvg, peak, isPeak, median, isMedian, std, isStd, kurt,
    isKurt, rfl⟩ := built
  refine ⟨rfl, rfl, fun other => ?_⟩
  simp only [toOutputRow, isFreq, isRate, isGain, isAvg, isPeak, isMedian, isStd, isKurt]
  rfl

/-- Whether a window has a row does not depend on the duration. -/
theorem toOutputRow_none (other : ℚ) (none : toOutputRow w windowSec = none) : toOutputRow w other = .none := by
  cases built : toOutputRow w other with
  | none => rfl
  | some row => exact absurd (none.symm.trans ((toOutputRow_spec built).2.2 windowSec)) nofun

/-- Equal rows stay equal under another duration. -/
theorem toOutputRow_same {duration : ℚ} (same : toOutputRow w' duration = toOutputRow w duration) :
    toOutputRow w' windowSec = toOutputRow w windowSec := by
  cases built : toOutputRow w duration with
  | none => rw [toOutputRow_none windowSec built, toOutputRow_none windowSec (same.trans built)]
  | some row => rw [(toOutputRow_spec built).2.2, (toOutputRow_spec (same.trans built)).2.2]

/-- The unique key of a row in rf-db, but for the duration. -/
def OutputRow.slot (row : OutputRow) : ℚ × MetadataKey := (row.createdAt, (row.lasting 0).metadata)

def WindowStatsRow.slot (window : WindowStatsRow) : Option (ℚ × MetadataKey) := (toOutputRow window 0).map (·.slot)

theorem slot_eq (built : toOutputRow w windowSec = some row) : w.slot = some row.slot := by
  rw [WindowStatsRow.slot, (toOutputRow_spec built).2.2]
  rfl

namespace Rfdb

variable {db db' : Rfdb} {r : OutputRecord} {key : MetadataKey} {values : List OutputRecord}

/-- Metadata ids name their row, every output has one, and the unique key of
`outputs` is unique. -/
structure Sound (db : Rfdb) : Prop where
  distinct : db.metadata.Nodup
  known : ∀ r ∈ db.outputs, r.metadataId < db.metadata.length
  unique : db.outputs.Pairwise fun a b => a.key ≠ b.key
  own : ∀ r ∈ db.outputs, db.rpi = some r.hardwareId

/-- rf-db only gets more rows. -/
structure Grows (db db' : Rfdb) : Prop where
  rpi : ∀ id ∈ db.rpi, id ∈ db'.rpi
  metadata : db.metadata <+: db'.metadata
  outputs : ∀ r ∈ db.outputs, r ∈ db'.outputs

theorem Grows.refl (db : Rfdb) : db.Grows db := ⟨fun _ its => its, List.prefix_rfl, fun _ member => member⟩

theorem Grows.metadataOf (grows : db.Grows db') {id : Nat} (its : db.metadata[id]? = some key) :
    db'.metadata[id]? = some key := by
  obtain ⟨rest, more⟩ := grows.metadata
  rw [← more, List.getElem?_append_left (List.getElem?_eq_some_iff.mp its).1]
  exact its

theorem Grows.rowOf (grows : db.Grows db') (its : db.rowOf r = some row) : db'.rowOf r = some row := by
  obtain ⟨key, isKey, same⟩ := Option.map_eq_some_iff.mp its
  exact Option.map_eq_some_iff.mpr ⟨key, grows.metadataOf isKey, same⟩

theorem Grows.isOf (grows : db.Grows db') (its : db.IsOf r w) : db'.IsOf r w := by
  obtain ⟨row, isRow, built⟩ := its
  exact ⟨row, grows.rowOf isRow, built⟩

theorem isOf_slot (its : db.IsOf r w) : ∃ row, db.rowOf r = some row ∧ w.slot = some row.slot := by
  obtain ⟨row, isRow, built⟩ := its
  exact ⟨row, isRow, slot_eq built⟩

theorem slot_of_key {r' : OutputRecord} (same : r.key = r'.key) (isRow : db.rowOf r' = some row) :
    ∃ found, db.rowOf r = some found ∧ found.slot = row.slot := by
  obtain ⟨key, isKey, rfl⟩ := Option.map_eq_some_iff.mp isRow
  obtain ⟨_, rest⟩ := Prod.mk.inj same
  obtain ⟨metadataId, createdAt⟩ := Prod.mk.inj rest
  refine ⟨_, Option.map_eq_some_iff.mpr ⟨key, metadataId ▸ isKey, rfl⟩, ?_⟩
  rw [OutputRow.slot, OutputRow.slot, createdAt]
  rfl

theorem rowOf_known (known : r.metadataId < db.metadata.length) : ∃ row, db.rowOf r = some row := by
  rw [Rfdb.rowOf, List.getElem?_eq_getElem known]
  exact ⟨_, rfl⟩

/-- What a known row is, it was before. -/
theorem Grows.rowOf_back (grows : db.Grows db') (known : r.metadataId < db.metadata.length)
    (isRow : db'.rowOf r = some row) : db.rowOf r = some row := by
  obtain ⟨old, isOld⟩ := rowOf_known known
  obtain rfl : old = row := Option.some.inj ((grows.rowOf isOld).symm.trans isRow)
  exact isOld

theorem rowOf_record {hardwareId id : Nat} (its : db.metadata[id]? = some row.metadata) :
    db.rowOf (row.record hardwareId id) = some row := by
  rw [Rfdb.rowOf, OutputRow.record, its]
  rfl

/-- Two rows of the same content have the same unique key. -/
theorem Sound.key_eq (sound : db.Sound) {r r' : OutputRecord} (hardware : r.hardwareId = r'.hardwareId)
    (isRow : db.rowOf r = some row) (isRow' : db.rowOf r' = some row) : r.key = r'.key := by
  obtain ⟨key, isKey, rfl⟩ := Option.map_eq_some_iff.mp isRow
  obtain ⟨key', isKey', same⟩ := Option.map_eq_some_iff.mp isRow'
  obtain ⟨sameKey, createdAt, _⟩ := OutputRow.mk.inj same
  subst sameKey
  obtain ⟨bound, _⟩ := List.getElem?_eq_some_iff.mp isKey
  have metadataId : r.metadataId = r'.metadataId :=
    (List.getElem?_inj bound sound.distinct).mp (isKey.trans isKey'.symm)
  rw [OutputRecord.key, OutputRecord.key, hardware, metadataId, createdAt]

theorem Sound.eq_of_key (sound : db.Sound) {r r' : OutputRecord} (member : r ∈ db.outputs)
    (member' : r' ∈ db.outputs) (same : r.key = r'.key) : r = r' := by
  have apart : (db.outputs.map (·.key)).Nodup := List.pairwise_map.mpr sound.unique
  exact List.inj_on_of_nodup_map apart member member' same

/-- Stored rows of the same content are the same row. -/
theorem Sound.eq_of_row (sound : db.Sound) {r r' : OutputRecord} (member : r ∈ db.outputs)
    (member' : r' ∈ db.outputs) (isRow : db.rowOf r = some row) (isRow' : db.rowOf r' = some row) : r = r' := by
  have hardware := Option.some.inj ((sound.own r member).symm.trans (sound.own r' member'))
  exact sound.eq_of_key member member' (sound.key_eq hardware isRow isRow')

theorem insertMetadata_grows (db : Rfdb) (key : MetadataKey) : db.Grows (db.insertMetadata key).1 := by
  unfold insertMetadata
  split
  case isTrue there => exact Grows.refl db
  case isFalse fresh => exact ⟨fun _ its => its, List.prefix_append .., fun _ member => member⟩

theorem insertMetadata_outputs (key : MetadataKey) : (db.insertMetadata key).1.outputs = db.outputs := by
  unfold insertMetadata
  split <;> rfl

theorem insertMetadata_rpi (key : MetadataKey) : (db.insertMetadata key).1.rpi = db.rpi := by
  unfold insertMetadata
  split <;> rfl

theorem Sound.insertMetadata (sound : db.Sound) (key : MetadataKey) : (db.insertMetadata key).1.Sound := by
  have length := (insertMetadata_grows db key).metadata.length_le
  constructor
  · unfold Rfdb.insertMetadata
    split
    case isTrue there => exact sound.distinct
    case isFalse fresh => exact List.concat_eq_append ▸ List.Nodup.concat fresh sound.distinct
  · intro r member
    rw [insertMetadata_outputs] at member
    have := sound.known r member
    omega
  · rw [insertMetadata_outputs]
    exact sound.unique
  · rw [insertMetadata_outputs, insertMetadata_rpi]
    exact sound.own

theorem insertOutput_cases (db : Rfdb) (v : OutputRecord) :
    (db.insertOutput v = db ∧ ∃ there ∈ db.outputs, there.key = v.key) ∨
      (db.insertOutput v = { db with outputs := db.outputs ++ [v] } ∧ ∀ there ∈ db.outputs, there.key ≠ v.key) := by
  unfold insertOutput
  split
  case isTrue there => exact .inl ⟨rfl, there⟩
  case isFalse fresh => exact .inr ⟨rfl, fun r member same => fresh ⟨r, member, same⟩⟩

/-- What the transaction leaves: the old rows, and for every value a row of its
key. -/
theorem insertOutputs_spec (db : Rfdb) (values : List OutputRecord) :
    (db.insertOutputs values).rpi = db.rpi ∧ (db.insertOutputs values).metadata = db.metadata ∧
      (∀ r ∈ db.outputs, r ∈ (db.insertOutputs values).outputs) ∧
      (∀ r ∈ (db.insertOutputs values).outputs, r ∈ db.outputs ∨ r ∈ values) ∧
      (∀ v ∈ values, ∃ r ∈ (db.insertOutputs values).outputs, r.key = v.key) ∧
      ((db.outputs.Pairwise fun a b => a.key ≠ b.key) →
        (db.insertOutputs values).outputs.Pairwise fun a b => a.key ≠ b.key) := by
  induction values generalizing db with
  | nil => exact ⟨rfl, rfl, fun _ member => member, fun _ member => .inl member, nofun, id⟩
  | cons v rest ih =>
    obtain ⟨rpi, metadata, stay, origin, present, unique⟩ := ih (db.insertOutput v)
    rcases insertOutput_cases db v with ⟨same, there, member, its⟩ | ⟨added, fresh⟩
    · have whole : db.insertOutputs (v :: rest) = db.insertOutputs rest := by
        rw [insertOutputs, List.foldl_cons, same]
        rfl
      rw [same] at rpi metadata stay origin present unique
      rw [whole]
      refine ⟨rpi, metadata, stay, fun r isIn => (origin r isIn).imp_right (List.mem_cons_of_mem v), ?_, unique⟩
      intro value isValue
      rcases List.mem_cons.mp isValue with rfl | later
      · exact ⟨there, stay there member, its⟩
      · exact present value later
    · have whole : db.insertOutputs (v :: rest) = ({ db with outputs := db.outputs ++ [v] } : Rfdb).insertOutputs rest := by
        rw [insertOutputs, List.foldl_cons, added]
        rfl
      rw [added] at rpi metadata stay origin present unique
      rw [whole]
      refine ⟨rpi, metadata, fun r isIn => stay r (List.mem_append_left [v] isIn), ?_, ?_, ?_⟩
      · intro r isIn
        rcases origin r isIn with old | later
        · rcases List.mem_append.mp old with before | new
          · exact .inl before
          · exact .inr (List.mem_singleton.mp new ▸ List.mem_cons_self)
        · exact .inr (List.mem_cons_of_mem v later)
      · intro value isValue
        rcases List.mem_cons.mp isValue with rfl | later
        · exact ⟨value, stay value (List.mem_append_right _ (List.mem_singleton_self value)), rfl⟩
        · exact present value later
      · intro apart
        refine unique (List.pairwise_append.mpr ⟨apart, List.pairwise_singleton _ v, fun r isIn v' isV => ?_⟩)
        rw [List.mem_singleton.mp isV]
        exact fresh r isIn

theorem insertOutputs_grows (db : Rfdb) (values : List OutputRecord) : db.Grows (db.insertOutputs values) := by
  obtain ⟨rpi, metadata, stay, _⟩ := insertOutputs_spec db values
  exact ⟨fun _ its => rpi ▸ its, metadata ▸ List.prefix_rfl, stay⟩

theorem Sound.insertOutputs (sound : db.Sound)
    (good : ∀ v ∈ values, v.metadataId < db.metadata.length ∧ db.rpi = some v.hardwareId) :
    (db.insertOutputs values).Sound := by
  obtain ⟨rpi, metadata, _, origin, _, unique⟩ := insertOutputs_spec db values
  constructor
  · rw [metadata]
    exact sound.distinct
  · intro r member
    rw [metadata]
    rcases origin r member with old | new
    · exact sound.known r old
    · exact (good r new).1
  · exact unique sound.unique
  · intro r member
    rw [rpi]
    rcases origin r member with old | new
    · exact sound.own r old
    · exact (good r new).2

/-- With no two rows of the window it has at most one record. -/
theorem recordsOf_length (sound : db.Sound)
    (once : ∀ r ∈ db.outputs, ∀ r' ∈ db.outputs, db.IsOf r w → db.IsOf r' w → r = r') :
    (db.recordsOf w).length ≤ 1 := by
  have apart : (db.recordsOf w).Pairwise fun a b => a.key ≠ b.key := sound.unique.filter _
  have same : ∀ r ∈ db.recordsOf w, ∀ r' ∈ db.recordsOf w, r = r' := by
    intro r member r' member'
    obtain ⟨isIn, its⟩ := List.mem_filter.mp member
    obtain ⟨isIn', its'⟩ := List.mem_filter.mp member'
    exact once r isIn r' isIn' (of_decide_eq_true its) (of_decide_eq_true its')
  rcases rows : db.recordsOf w with _ | ⟨r, _ | ⟨r', rest⟩⟩
  · exact Nat.zero_le 1
  · exact le_rfl
  · rw [rows] at apart same
    have equal := same r List.mem_cons_self r' (List.mem_cons_of_mem r List.mem_cons_self)
    exact absurd (congrArg OutputRecord.key equal) ((List.pairwise_cons.mp apart).1 r' List.mem_cons_self)

end Rfdb

end RFObserver
