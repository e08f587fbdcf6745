import RFObserver.Transport.RfdbRuns

namespace RFObserver.RfdbWriter

variable {storable : OutputRow → Bool} {s s' : RfdbWriter} {w : WindowStatsRow} {call : InsertCall} {last : Nat}
  {rows : List SendRow} {windowSec : ℚ}

/-- What rf-db has of the keys of the rows has their duration. -/
def Fresh (s : RfdbWriter) (rows : List SendRow) : Prop :=
  ∀ e ∈ rows, ∀ r ∈ s.db.outputs, ∀ row ∈ s.db.rowOf r, row.slot = e.row.slot →
    row.metadata.length = e.row.metadata.length

/-- One row of a key, whatever its duration. -/
def Once (db : Rfdb) : Prop :=
  ∀ r ∈ db.outputs, ∀ r' ∈ db.outputs, ∀ row ∈ db.rowOf r, ∀ row' ∈ db.rowOf r', row.slot = row'.slot → r = r'

/-- rf-db has nothing twice, and the rows in flight do not change that. -/
structure Single (s : RfdbWriter) : Prop where
  once : Once s.db
  fresh : ∀ call last, s.phase = .inserting call last → s.Fresh (todo call)

/-- No window of a batch is in rf-db under another duration. -/
def Orderly (s : RfdbWriter) : Act → Prop
  | .reads windowSec => ∀ w ∈ s.batch, ∀ r ∈ s.db.outputs, ∀ row ∈ s.db.rowOf r,
      toOutputRow w row.metadata.length = some row → row.metadata.length = windowSec
  | act => s.Plain act

theorem Orderly.plain {act : Act} (orderly : s.Orderly act) : s.Plain act := by
  cases act with
  | reads => trivial
  | _ => exact orderly

theorem Fresh.grow {rows' : List SendRow} (fresh : s.Fresh rows) (sound : s.db.Sound) (grows : s.db.Grows s'.db)
    (outputs : s'.db.outputs = s.db.outputs) (fewer : ∀ e ∈ rows', e ∈ rows) : s'.Fresh rows' := by
  intro e member r stored row isRow slot
  rw [outputs] at stored
  exact fresh e (fewer e member) r stored row (grows.rowOf_back (sound.known r stored) isRow) slot

theorem Once.grow {db db' : Rfdb} (once : Once db) (sound : db.Sound) (grows : db.Grows db')
    (outputs : db'.outputs = db.outputs) : Once db' := by
  intro r stored r' stored' row isRow row' isRow' slot
  rw [outputs] at stored stored'
  exact once r stored r' stored' row (grows.rowOf_back (sound.known r stored) isRow) row'
    (grows.rowOf_back (sound.known r' stored') isRow') slot

/-- A step that adds no row to rf-db. -/
theorem Single.grow (single : s.Single) (sound : s.db.Sound) (grows : s.db.Grows s'.db)
    (outputs : s'.db.outputs = s.db.outputs)
    (fewer : ∀ call' last', s'.phase = .inserting call' last' →
      ∃ call last, s.phase = .inserting call last ∧ ∀ e ∈ todo call', e ∈ todo call) : s'.Single := by
  refine ⟨single.once.grow sound grows outputs, fun call' last' phase => ?_⟩
  obtain ⟨call, last, before, less⟩ := fewer call' last' phase
  exact (single.fresh call last before).grow sound grows outputs less

theorem Single.still (single : s.Single) (sound : s.db.Sound) (db : s'.db = s.db)
    (fewer : ∀ call' last', s'.phase = .inserting call' last' →
      ∃ call last, s.phase = .inserting call last ∧ ∀ e ∈ todo call', e ∈ todo call) : s'.Single :=
  single.grow sound (db ▸ Rfdb.Grows.refl s.db) (congrArg Rfdb.outputs db) fewer

/-- The writer is inside `_insert`. -/
def inserts : RfdbPhase → Bool
  | .inserting _ _ => true
  | _ => false

theorem Single.outside (once : Once s.db) (out : inserts s.phase = false) : s.Single := by
  refine ⟨once, fun call last phase => ?_⟩
  rw [phase] at out
  cases out

theorem todo_goOn {call' : InsertCall} {last' : Nat} (phase : (s.goOn last rows).phase = .inserting call' last') :
    todo call' = rows := by
  cases rows with
  | nil => cases phase
  | cons row rest =>
    cases phase
    rfl

theorem goOn_db : (s.goOn last rows).db = s.db := by
  cases rows <;> rfl

/-- The commit of a fresh call adds no second row of a key. -/
theorem Single.commit (kept : s.Kept storable) (single : s.Single) (phase : s.phase = .inserting call last) :
    Once (s.commit call).db ∧ (s.commit call).Fresh (todo call) := by
  have ok := kept.phase
  rw [phase] at ok
  obtain ⟨_, valued, _, windowSec, batch⟩ := ok
  have fresh := single.fresh call last phase
  have within : ∀ e ∈ call.rows, e ∈ todo call := fun e member => List.mem_append_left _ member
  have base : (s.commit call).Base := kept.base.commit valued batch within
  have grows := Rfdb.insertOutputs_grows s.db call.values
  have origin := (Rfdb.insertOutputs_spec s.db call.values).2.2.2.1
  -- the duration of what is there of the key of a row of the call
  have durations : (s.commit call).Fresh (todo call) := by
    intro e member r stored row isRow slot
    rcases origin r stored with old | new
    · exact fresh e member r old row (grows.rowOf_back (kept.base.db.known r old) isRow) slot
    · obtain ⟨e', isRow', itsRow, _⟩ := valued.rowOf new
      obtain rfl : e'.row = row := Option.some.inj ((grows.rowOf itsRow).symm.trans isRow)
      obtain ⟨_, _, _, built⟩ := batch.built e member
      obtain ⟨_, _, _, built'⟩ := batch.built e' (within e' isRow')
      rw [(toOutputRow_spec built).2.1, (toOutputRow_spec built').2.1]
  -- a row of the call and a stored row of one key are one row
  have added : ∀ r ∈ call.values, r ∈ (s.commit call).db.outputs → ∀ r' ∈ (s.commit call).db.outputs,
      ∀ row ∈ (s.commit call).db.rowOf r, ∀ row' ∈ (s.commit call).db.rowOf r', row.slot = row'.slot → r = r' := by
    intro r new stored r' stored' row isRow row' isRow' slot
    obtain ⟨e, isIn, itsRow, _⟩ := valued.rowOf new
    obtain rfl : e.row = row := Option.some.inj ((grows.rowOf itsRow).symm.trans isRow)
    obtain ⟨w, isWindow, _, built⟩ := batch.built e (within e isIn)
    obtain ⟨found, isFound, built'⟩ := base.isOf stored' isRow' isWindow ((slot_eq built).trans (congrArg some slot))
    obtain rfl : found = row' := Option.some.inj (isFound.symm.trans isRow')
    have duration := durations e (within e isIn) r' stored' found isRow' slot.symm
    rw [duration, (toOutputRow_spec built).2.1, built] at built'
    obtain rfl := Option.some.inj built'
    exact base.db.eq_of_row stored stored' isRow isRow'
  refine ⟨fun r stored r' stored' row isRow row' isRow' slot => ?_, durations⟩
  rcases origin r stored with old | new
  · rcases origin r' stored' with old' | new'
    · exact single.once r old r' old' row (grows.rowOf_back (kept.base.db.known r old) isRow) row'
        (grows.rowOf_back (kept.base.db.known r' old') isRow') slot
    · exact (added r' new' stored' r stored row' isRow' row isRow slot.symm).symm
  · exact added r new stored r' stored' row isRow row' isRow' slot

theorem saved_frame (applied : Bool) (goes : (s.interrupt storable applied).saved = some s') :
    s'.db = s.db ∧ inserts s'.phase = false := by
  cases phase : s.phase with
  | savingAnchor n =>
    cases applied <;>
      · simp only [RfdbWriter.interrupt, RfdbWriter.saved, phase] at goes
        obtain rfl := Option.some.inj goes
        exact ⟨rfl, rfl⟩
  | saving =>
    cases applied <;>
      · simp only [RfdbWriter.interrupt, RfdbWriter.saved, phase] at goes
        obtain rfl := Option.some.inj goes
        exact ⟨rfl, rfl⟩
  | _ =>
    rw [RfdbWriter.saved, interrupt_phase, phase] at goes
    cases goes

theorem Single.interrupt (kept : s.Kept storable) (single : s.Single) (applied : Bool) :
    Once (s.interrupt storable applied).db := by
  cases applied with
  | false => exact single.once
  | true =>
    cases phase : s.phase with
    | inserting call last =>
      simp only [RfdbWriter.interrupt, phase]
      split
      case h_1 e _ =>
        exact single.once.grow kept.base.db (Rfdb.insertMetadata_grows s.db e.row.metadata)
          (Rfdb.insertMetadata_outputs e.row.metadata)
      case h_2 =>
        split
        case isTrue => exact (single.commit kept phase).1
        case isFalse => exact single.once
    | _ =>
      simp only [RfdbWriter.interrupt, phase]
      exact single.once

theorem resolve_frame {hardwareId : Nat} {row : OutputRow} (goes : s.resolve call last hardwareId row = some s') :
    s.db.Grows s'.db ∧ s'.db.outputs = s.db.outputs ∧
      ∃ v, s'.phase = .inserting { call with values := call.values ++ [v] } last := by
  unfold RfdbWriter.resolve at goes
  split at goes
  case h_1 =>
    obtain rfl := Option.some.inj goes
    exact ⟨Rfdb.Grows.refl s.db, rfl, _, rfl⟩
  case h_2 =>
    obtain ⟨id, _, rfl⟩ := Option.map_eq_some_iff.mp goes
    exact ⟨Rfdb.insertMetadata_grows s.db row.metadata, Rfdb.insertMetadata_outputs row.metadata, _, rfl⟩

/-- The condition on a read makes its rows fresh. -/
theorem Single.readWindows (kept : s.Kept storable) (single : s.Single) (orderly : s.Orderly (.reads windowSec)) :
    (s.readWindows windowSec).Single := by
  have fresh : s.Fresh (buildRows s.batch windowSec) := by
    intro e member r stored row isRow slot
    obtain ⟨w, isIn, _, built⟩ := mem_buildRows.mp member
    have isWindow := (Keyset.mem_page isIn).1
    obtain ⟨row', isRow', built'⟩ :=
      kept.base.isOf stored isRow isWindow ((slot_eq built).trans (congrArg some slot.symm))
    obtain rfl := Option.some.inj (isRow.symm.trans isRow')
    rw [(toOutputRow_spec built).2.1]
    exact orderly w isIn r stored row isRow built'
  unfold RfdbWriter.readWindows
  split
  case h_1 => exact .outside single.once rfl
  case h_2 final _ =>
    split
    case h_1 => exact .outside single.once rfl
    case h_2 =>
      refine ⟨single.once, fun call' last' phase => ?_⟩
      obtain ⟨rfl, rfl⟩ := RfdbPhase.inserting.inj phase
      rw [todo, Option.getD_none, List.append_nil]
      exact fresh

theorem Single.step {act : Act} (kept : s.Kept storable) (single : s.Single) (orderly : s.Orderly act)
    (goes : s.step storable act = some s') : s'.Single := by
  have sound := kept.base.db
  cases act <;> simp only [RfdbWriter.step] at goes
  case stores window =>
    obtain ⟨_, same⟩ := Option.ite_none_right_eq_some.mp goes
    obtain rfl := Option.some.inj same
    exact single.still sound rfl fun call last phase => ⟨call, last, phase, fun _ member => member⟩
  case registers hardwareId =>
    obtain ⟨_, same⟩ := Option.ite_none_right_eq_some.mp goes
    obtain rfl := Option.some.inj same
    exact ⟨single.once, single.fresh⟩
  case others key =>
    obtain rfl := Option.some.inj goes
    exact single.grow sound (Rfdb.insertMetadata_grows s.db key) (Rfdb.insertMetadata_outputs key)
      fun call last phase => ⟨call, last, phase, fun _ member => member⟩
  case begins =>
    obtain ⟨_, same⟩ := Option.ite_none_right_eq_some.mp goes
    obtain rfl := Option.some.inj same
    refine .outside single.once ?_
    dsimp only
    split <;> rfl
  case loads =>
    obtain ⟨_, same⟩ := Option.ite_none_right_eq_some.mp goes
    obtain rfl := Option.some.inj same
    unfold loadBookmark
    split <;> exact .outside single.once rfl
  case anchors =>
    obtain ⟨_, same⟩ := Option.ite_none_right_eq_some.mp goes
    obtain rfl := Option.some.inj same
    exact .outside single.once rfl
  case saves =>
    obtain ⟨db, out⟩ := saved_frame true goes
    exact .outside (db ▸ single.once) out
  case timesOut applied =>
    obtain ⟨db, out⟩ := saved_frame applied goes
    exact .outside (db ▸ single.once) out
  case looks =>
    obtain ⟨_, same⟩ := Option.ite_none_right_eq_some.mp goes
    obtain rfl := Option.some.inj same
    unfold lookHardware
    split <;> exact .outside single.once rfl
  case reads windowSec =>
    obtain ⟨_, same⟩ := Option.ite_none_right_eq_some.mp goes
    obtain rfl := Option.some.inj same
    exact single.readWindows kept orderly
  case resolves =>
    split at goes
    case h_1 call last hardwareId phase _ =>
      obtain ⟨e, _, taken⟩ := Option.bind_eq_some_iff.mp goes
      obtain ⟨grows, outputs, _, after⟩ := resolve_frame taken
      refine single.grow sound grows outputs fun call' last' phase' => ⟨call, last, phase, ?_⟩
      obtain ⟨rfl, rfl⟩ := RfdbPhase.inserting.inj (after.symm.trans phase')
      exact fun _ member => member
    case h_2 => cases goes
  case executes =>
    split at goes
    case h_1 call last phase =>
      obtain ⟨_, same⟩ := Option.ite_none_right_eq_some.mp goes
      obtain rfl := Option.some.inj same
      obtain ⟨once, fresh⟩ := single.commit kept phase
      have db : ({ s.commit call with sent := s.sent + call.rows.length }.goOn last (call.rest.getD [])).db =
          (s.commit call).db := goOn_db
      refine ⟨?_, fun call' last' phase' => ?_⟩
      · rw [db]
        exact once
      · rw [todo_goOn phase', Fresh, db]
        exact fun e member => fresh e (List.mem_append_right _ member)
    case h_2 => cases goes
  case rejects =>
    split at goes
    case h_1 call last phase =>
      obtain ⟨_, taken⟩ := Option.ite_none_right_eq_some.mp goes
      split at taken
      case h_1 none =>
        obtain rfl := Option.some.inj taken
        refine single.still sound goOn_db fun call' last' phase' => ⟨call, last, phase, ?_⟩
        rw [todo_goOn phase']
        exact fun _ member => List.mem_append_left _ member
      case h_2 rest alone =>
        obtain rfl := Option.some.inj taken
        refine single.still sound goOn_db fun call' last' phase' => ⟨call, last, phase, ?_⟩
        rw [todo_goOn phase', todo, alone, Option.getD_some]
        exact fun _ member => List.mem_append_right _ member
    case h_2 => cases goes
  case fails applied =>
    split at goes
    case isTrue => cases goes
    case isFalse =>
      obtain rfl := Option.some.inj goes
      exact .outside (single.interrupt kept applied) rfl
  case restarts applied =>
    obtain rfl := Option.some.inj goes
    exact .outside (single.interrupt kept applied) rfl

end RFObserver.RfdbWriter
