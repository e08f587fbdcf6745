import RFObserver.Storage.BlobPrune

namespace RFObserver.BlobPrune

variable {s s' : BlobPrune} {m : ℚ ×ₗ ℕ} {c : ℚ} {row : BlobRow} {ids : List Nat} {pass : BlobPass}
  {act : Act} {read : List BlobRow} {mark : Option (ℚ ×ₗ ℕ)} {rows : List BlobRow} {scanned nulled connection : Nat}

/-- No row at or below the mark has a PSD blob. -/
def Clean (rows : List BlobRow) (m : ℚ ×ₗ ℕ) : Prop := ∀ row ∈ rows, row.key ≤ m → row.psdPowers = none

/-- No row older than the cutoff has a PSD blob. -/
def Bare (rows : List BlobRow) (c : ℚ) : Prop := ∀ row ∈ rows, row.startTime < c → row.psdPowers = none

/-- A clean mark, older than some cutoff of the run. -/
def Passed (s : BlobPrune) (m : ℚ ×ₗ ℕ) : Prop := Clean s.rows m ∧ ∃ c ∈ s.cutoffs, (ofLex m).1 < c

/-- The rows of a chunk: all rows after the mark up to the last of them, and
when they are fewer than the chunk all up to the cutoff. -/
structure Reads (mark : Option (ℚ ×ₗ ℕ)) (rows : List BlobRow) (pass : BlobPass) (read : List BlobRow) : Prop where
  upTo : ∃ last, read.getLast? = some last ∧ last.startTime < pass.cutoff ∧ (∀ k ∈ mark, k < last.key) ∧
    ∀ row ∈ rows, (∀ k ∈ mark, k < row.key) → row.key ≤ last.key → row.rowid ∈ read.map (·.rowid)
  whole : read.length < pass.chunk → ∀ row ∈ rows, (∀ k ∈ mark, k < row.key) → row.startTime < pass.cutoff →
    row.rowid ∈ read.map (·.rowid)

/-- What holds at each step of a pass. -/
def PhaseOk (s : BlobPrune) : BlobPhase → Prop
  | .idle | .ready _ => True
  | .loading _ => s.mark = none
  | .selecting pass | .saving pass _ => pass.cutoff ∈ s.cutoffs
  | .updating pass read | .committing pass read _ _ => pass.cutoff ∈ s.cutoffs ∧ Reads s.mark s.rows pass read

/-- The marks pass only clean rows, and completed passes left none. -/
structure Base (s : BlobPrune) : Prop where
  distinct : (s.rows.map (·.rowid)).Nodup
  memory : ∀ m ∈ s.mark, s.Passed m
  database : ∀ m, s.stored = some (.mark m) → s.Passed m
  late : ∀ m ∈ s.lateMarks, s.Passed m
  completed : ∀ c ∈ s.completed, c ∈ s.cutoffs ∧ Bare s.rows c
  fresh : s.loaded = false → s.mark = none

structure Kept (s : BlobPrune) : Prop where
  base : s.Base
  loaded : s.phase = .idle ∨ s.loaded = true
  phase : s.PhaseOk s.phase

/-- New rows are not before any cutoff used so far. -/
def Plain (s : BlobPrune) : Act → Prop
  | .inserts row => ∀ c ∈ s.cutoffs, c ≤ row.startTime
  | _ => True

/-- The commit of a chunk goes to the connection of its UPDATE: no other write
has reconnected in between. -/
def Orderly (s : BlobPrune) : Act → Prop
  | .commits => match s.phase with
    | .committing _ _ _ connection => connection = s.connection
    | _ => True
  | act => s.Plain act

/-- Every later row was there, with its blob or without, or is of no cutoff
used before. -/
structure Later (s s' : BlobPrune) : Prop where
  rows : ∀ row ∈ s'.rows, (∃ old ∈ s.rows, old.rowid = row.rowid ∧ old.startTime = row.startTime ∧
    (old.psdPowers = none → row.psdPowers = none)) ∨ ∀ c ∈ s.cutoffs, c ≤ row.startTime
  cutoffs : ∀ c ∈ s.cutoffs, c ∈ s'.cutoffs

theorem key_lt_of_start {k : ℚ ×ₗ ℕ} (less : (ofLex k).1 < row.startTime) : k < row.key :=
  Prod.Lex.lt_iff.mpr (.inl less)

theorem start_le_of_key {k : ℚ ×ₗ ℕ} (le : row.key ≤ k) : row.startTime ≤ (ofLex k).1 := by
  rcases Prod.Lex.le_iff.mp le with less | ⟨same, _⟩
  · exact less.le
  · exact same.le

theorem Passed.later (passed : s.Passed m) (later : Later s s') : s'.Passed m := by
  obtain ⟨clean, c, used, below⟩ := passed
  refine ⟨fun row member le => ?_, c, later.cutoffs c used, below⟩
  rcases later.rows row member with ⟨old, isOld, rowid, start, blob⟩ | after
  · refine blob (clean old isOld ?_)
    rw [BlobRow.key, rowid, start]
    exact le
  · exact absurd ((after c used).trans (start_le_of_key le)) (not_le.mpr below)

theorem Bare.later (bare : Bare s.rows c) (used : c ∈ s.cutoffs) (later : Later s s') : Bare s'.rows c := by
  intro row member below
  rcases later.rows row member with ⟨old, isOld, _, start, blob⟩ | after
  · exact blob (bare old isOld (start ▸ below))
  · exact absurd (after c used) (not_le.mpr below)

theorem Reads.later (reads : Reads s.mark s.rows pass read) (used : pass.cutoff ∈ s.cutoffs) (later : Later s s') :
    Reads s.mark s'.rows pass read := by
  obtain ⟨last, isLast, below, after, upTo⟩ := reads.upTo
  refine ⟨⟨last, isLast, below, after, fun row member above le => ?_⟩, fun short row member above before => ?_⟩
  · rcases later.rows row member with ⟨old, isOld, rowid, start, _⟩ | out
    · have same : old.key = row.key := by rw [BlobRow.key, BlobRow.key, rowid, start]
      rw [← rowid]
      exact upTo old isOld (same ▸ above) (same ▸ le)
    · exact absurd ((out _ used).trans (start_le_of_key le)) (not_le.mpr below)
  · rcases later.rows row member with ⟨old, isOld, rowid, start, _⟩ | out
    · have same : old.key = row.key := by rw [BlobRow.key, BlobRow.key, rowid, start]
      rw [← rowid]
      exact reads.whole short old isOld (same ▸ above) (start ▸ before)
    · exact absurd (out _ used) (not_le.mpr before)

theorem PhaseOk.later {phase : BlobPhase} (ok : s.PhaseOk phase) (later : Later s s') (mark : s'.mark = s.mark) :
    s'.PhaseOk phase := by
  cases phase with
  | idle => trivial
  | ready chunk => trivial
  | loading chunk => exact mark.trans ok
  | selecting pass => exact later.cutoffs _ ok
  | saving pass ended => exact later.cutoffs _ ok
  | updating pass read => exact ⟨later.cutoffs _ ok.1, mark ▸ ok.2.later ok.1 later⟩
  | committing pass read nulled connection => exact ⟨later.cutoffs _ ok.1, mark ▸ ok.2.later ok.1 later⟩

/-- A step that changes the rows only. -/
theorem Kept.later {rows : List BlobRow} (kept : s.Kept) (later : Later s { s with rows := rows })
    (distinct : (rows.map (·.rowid)).Nodup) : Kept { s with rows := rows } := by
  refine ⟨⟨distinct, fun m its => (kept.base.memory m its).later later,
    fun m its => (kept.base.database m its).later later, fun m its => (kept.base.late m its).later later,
    fun c its => ?_, kept.base.fresh⟩, kept.loaded, kept.phase.later later rfl⟩
  obtain ⟨used, bare⟩ := kept.base.completed c its
  exact ⟨used, bare.later used later⟩

theorem Kept.inserts (kept : s.Kept) (new : ∀ old ∈ s.rows, old.rowid ≠ row.rowid)
    (after : ∀ c ∈ s.cutoffs, c ≤ row.startTime) : Kept { s with rows := s.rows ++ [row] } := by
  refine kept.later ⟨fun r member => ?_, fun _ used => used⟩ ?_
  · rcases List.mem_append.mp member with old | isNew
    · exact .inl ⟨r, old, rfl, rfl, id⟩
    · exact .inr (List.mem_singleton.mp isNew ▸ after)
  · rw [List.map_append, List.nodup_append]
    refine ⟨kept.base.distinct, List.nodup_singleton _, ?_⟩
    rintro id isOld other isNew rfl
    obtain ⟨old, member, same⟩ := List.mem_map.mp isOld
    exact new old member (same.trans (List.mem_singleton.mp isNew))

theorem Kept.deletes (kept : s.Kept) (p : BlobRow → Bool) : Kept { s with rows := s.rows.filter p } := by
  refine kept.later ⟨fun r member => .inl ⟨r, List.mem_of_mem_filter member, rfl, rfl, id⟩, fun _ used => used⟩ ?_
  exact kept.base.distinct.sublist (List.filter_sublist.map _)

/-- Where a row comes from that has gone through the UPDATE. -/
theorem mem_nullBlobs (member : row ∈ nullBlobs ids rows) :
    ∃ old ∈ rows, old.rowid = row.rowid ∧ old.startTime = row.startTime ∧
      (old.psdPowers = none → row.psdPowers = none) ∧ (row.rowid ∈ ids → row.psdPowers = none) := by
  obtain ⟨old, isOld, rfl⟩ := List.mem_map.mp member
  by_cases hit : nulls ids old = true
  · rw [if_pos hit]
    exact ⟨old, isOld, rfl, rfl, fun _ => rfl, fun _ => rfl⟩
  · rw [if_neg hit]
    refine ⟨old, isOld, rfl, rfl, id, fun within => ?_⟩
    rw [nulls, Bool.and_eq_true, not_and] at hit
    exact Option.not_isSome_iff_eq_none.mp (hit (decide_eq_true within))

theorem nullBlobs_rowids : (nullBlobs ids rows).map (·.rowid) = rows.map (·.rowid) := by
  rw [nullBlobs, List.map_map]
  refine List.map_congr_left fun row _ => ?_
  simp only [Function.comp]
  split <;> rfl

theorem later_nullBlobs (s : BlobPrune) (ids : List Nat) : Later s { s with rows := nullBlobs ids s.rows } := by
  refine ⟨fun row member => .inl ?_, fun _ used => used⟩
  obtain ⟨old, isOld, rowid, start, blob, _⟩ := mem_nullBlobs member
  exact ⟨old, isOld, rowid, start, blob⟩

theorem Kept.nullBlobs (kept : s.Kept) (ids : List Nat) :
    Kept { s with rows := RFObserver.BlobPrune.nullBlobs ids s.rows } := by
  refine kept.later (later_nullBlobs s ids) ?_
  rw [nullBlobs_rowids]
  exact kept.base.distinct

/-- The chunk's commit: up to its last row all is clean, and a chunk that is not
full was the last one. -/
theorem Reads.committed (reads : Reads s.mark s.rows pass read) (memory : ∀ m ∈ s.mark, Clean s.rows m) :
    ∃ last, read.getLast? = some last ∧ last.startTime < pass.cutoff ∧ (∀ m ∈ s.mark, m < last.key) ∧
      Clean (nullBlobs (read.map (·.rowid)) s.rows) last.key ∧
      (read.length < pass.chunk → Bare (nullBlobs (read.map (·.rowid)) s.rows) pass.cutoff) := by
  obtain ⟨last, isLast, below, after, upTo⟩ := reads.upTo
  refine ⟨last, isLast, below, after, fun row member le => ?_, fun short row member before => ?_⟩
  · obtain ⟨old, isOld, rowid, start, blob, hit⟩ := mem_nullBlobs member
    have same : old.key = row.key := by rw [BlobRow.key, BlobRow.key, rowid, start]
    by_cases above : ∀ k ∈ s.mark, k < old.key
    · exact hit (rowid ▸ upTo old isOld above (same ▸ le))
    · push Not at above
      obtain ⟨k, isMark, under⟩ := above
      exact blob (memory k isMark old isOld under)
  · obtain ⟨old, isOld, rowid, start, blob, hit⟩ := mem_nullBlobs member
    by_cases above : ∀ k ∈ s.mark, k < old.key
    · exact hit (rowid ▸ reads.whole short old isOld above (start ▸ before))
    · push Not at above
      obtain ⟨k, isMark, under⟩ := above
      exact blob (memory k isMark old isOld under)

theorem Base.goto {phase : BlobPhase} (base : s.Base) (loaded : phase = .idle ∨ s.loaded = true)
    (ok : s.PhaseOk phase) : Kept { s with phase := phase } := by
  obtain ⟨distinct, memory, database, late, completed, fresh⟩ := base
  refine ⟨⟨distinct, memory, database, late, completed, fresh⟩, loaded, ?_⟩
  cases phase <;> exact ok

theorem Base.afterSave (base : s.Base) (loaded : s.loaded = true) (used : pass.cutoff ∈ s.cutoffs) (ended : Bool) :
    Kept { s with phase := afterSave pass ended } := by
  refine base.goto (.inr loaded) ?_
  cases ended with
  | false => exact used
  | true => trivial

theorem Base.saveMark (base : s.Base) (pass : BlobPass) (loaded : s.loaded = true) (used : pass.cutoff ∈ s.cutoffs)
    (ended : Bool) : (s.saveMark pass ended).Kept := by
  unfold RFObserver.BlobPrune.saveMark
  by_cases same : s.mark = s.saved
  · rw [if_pos same]
    exact base.afterSave loaded used ended
  · rw [if_neg same]
    exact base.goto (.inr loaded) used

/-- A chunk that was the last one left no blob before the cutoff. -/
theorem Base.endChunk (base : s.Base) (loaded : s.loaded = true) (used : pass.cutoff ∈ s.cutoffs)
    (bare : scanned < pass.chunk → Bare s.rows pass.cutoff) : (s.endChunk pass scanned nulled).Kept := by
  unfold RFObserver.BlobPrune.endChunk
  dsimp only
  split_ifs with short
  · have counted : Base { s with completed := pass.cutoff :: s.completed } := by
      obtain ⟨distinct, memory, database, late, completed, fresh⟩ := base
      refine ⟨distinct, memory, database, late, fun c its => ?_, fresh⟩
      rcases List.mem_cons.mp its with rfl | before
      · exact ⟨used, bare short⟩
      · exact completed c before
    refine counted.saveMark _ loaded ?_ true
    exact used
  · refine base.saveMark _ loaded ?_ false
    exact used
  · exact base.goto (.inr loaded) used

theorem Kept.commits (kept : s.Kept) (phase : s.phase = .committing pass read nulled connection)
    (own : connection = s.connection) : (s.commitChunk pass read nulled connection).Kept := by
  have ok := kept.phase
  rw [phase] at ok
  obtain ⟨used, reads⟩ := ok
  have loaded := kept.loaded.resolve_left (by rw [phase]; exact nofun)
  obtain ⟨last, isLast, below, _, clean, bare⟩ := reads.committed fun m its => (kept.base.memory m its).1
  have base := (kept.nullBlobs (read.map (·.rowid))).base
  unfold commitChunk
  rw [if_pos own, isLast]
  refine Base.endChunk ⟨base.distinct, fun m its => ?_, base.database, base.late, base.completed,
    fun none => absurd (loaded.symm.trans none) nofun⟩ loaded used bare
  obtain rfl := Option.some.inj its
  exact ⟨clean, pass.cutoff, used, below⟩

/-- The SELECT of a chunk. -/
theorem Base.reads (base : s.Base) (some : s.page pass ≠ []) : Reads s.mark s.rows pass (s.page pass) := by
  have distinct : ((s.rows.filter fun row => row.startTime < pass.cutoff).map BlobRow.key).Nodup := by
    refine Keyset.map_filter_nodup _ (List.Nodup.of_map (fun k => (ofLex k).2) ?_)
    rw [List.map_map]
    exact base.distinct
  obtain ⟨last, isLast⟩ := Option.ne_none_iff_exists'.mp (mt List.getLast?_eq_none_iff.mp some)
  have inPage := List.mem_of_getLast? isLast
  obtain ⟨isRow, after⟩ := Keyset.mem_page inPage
  have below : last.startTime < pass.cutoff := of_decide_eq_true (List.mem_filter.mp isRow).2
  refine ⟨⟨last, isLast, below, after, fun row member above le => ?_⟩, fun short row member above before => ?_⟩
  · have before : row.startTime < pass.cutoff := (start_le_of_key le).trans_lt below
    have isIn : row ∈ s.rows.filter fun row => row.startTime < pass.cutoff :=
      List.mem_filter.mpr ⟨member, decide_eq_true before⟩
    exact List.mem_map_of_mem (Keyset.mem_page_of_le distinct isIn above inPage le)
  · have isIn : row ∈ s.rows.filter fun row => row.startTime < pass.cutoff :=
      List.mem_filter.mpr ⟨member, decide_eq_true before⟩
    exact List.mem_map_of_mem (Keyset.mem_page_of_short isIn above short)

/-- An empty SELECT leaves nothing before the cutoff. -/
theorem Base.bare (base : s.Base) (empty : s.page pass = []) (room : 0 < pass.chunk) : Bare s.rows pass.cutoff := by
  intro row member before
  by_cases above : ∀ k ∈ s.mark, k < row.key
  · have isIn : row ∈ s.rows.filter fun row => row.startTime < pass.cutoff :=
      List.mem_filter.mpr ⟨member, decide_eq_true before⟩
    exact absurd empty (Keyset.page_ne_nil room isIn above)
  · push Not at above
    obtain ⟨k, isMark, under⟩ := above
    exact (base.memory k isMark).1 row member under

theorem Base.abandon (base : s.Base) : s.abandon.Base := by
  refine ⟨base.distinct, base.memory, base.database, fun m its => ?_, base.completed, base.fresh⟩
  rcases List.mem_append.mp its with underWay | before
  · unfold savingMark at underWay
    split at underWay
    case h_1 => exact base.memory m (Option.mem_toList.mp underWay)
    case h_2 => exact absurd underWay List.not_mem_nil
  · exact base.late m before

theorem Later.sameRows {s' : BlobPrune} (rows : s'.rows = s.rows) (cutoffs : ∀ c ∈ s.cutoffs, c ∈ s'.cutoffs) :
    Later s s' :=
  ⟨fun row member => .inl ⟨row, rows ▸ member, rfl, rfl, id⟩, cutoffs⟩

/-- A new pass counts as having used its cutoff. -/
theorem Base.cuts (base : s.Base) (cutoff : ℚ) : Base { s with cutoffs := cutoff :: s.cutoffs } := by
  have later : Later s { s with cutoffs := cutoff :: s.cutoffs } :=
    .sameRows rfl fun c used => List.mem_cons_of_mem cutoff used
  refine ⟨base.distinct, fun m its => (base.memory m its).later later,
    fun m its => (base.database m its).later later, fun m its => (base.late m its).later later, fun c its => ?_,
    base.fresh⟩
  obtain ⟨used, bare⟩ := base.completed c its
  exact ⟨List.mem_cons_of_mem cutoff used, bare⟩

theorem Base.store {stored : Option SavedMark} (base : s.Base)
    (passed : ∀ m, stored = some (.mark m) → s.Passed m) : Base { s with stored := stored } := by
  obtain ⟨distinct, memory, _, late, completed, fresh⟩ := base
  exact ⟨distinct, memory, passed, late, completed, fresh⟩

theorem mem_loadMark (its : m ∈ s.loadMark) : s.stored = some (.mark m) := by
  unfold loadMark at its
  split at its
  case h_1 mark atMark => rw [atMark, Option.mem_some_iff.mp its]
  case h_2 => exact nomatch its
  case h_3 => exact nomatch its

theorem Base.saves (base : s.Base) : Base { s with stored := s.mark.map .mark } := by
  refine base.store fun m its => base.memory m ?_
  obtain ⟨mark, isMark, same⟩ := Option.map_eq_some_iff.mp its
  rw [← SavedMark.mark.inj same]
  exact isMark

theorem Base.same (base : s.Base) (connection : Nat) (saved : Option (ℚ ×ₗ ℕ)) :
    Base { s with connection := connection, saved := saved } := by
  obtain ⟨distinct, memory, database, late, completed, fresh⟩ := base
  exact ⟨distinct, memory, database, late, completed, fresh⟩

theorem Kept.store {stored : Option SavedMark} (kept : s.Kept)
    (passed : ∀ m, stored = some (.mark m) → s.Passed m) : Kept { s with stored := stored } :=
  ⟨kept.base.store passed, kept.loaded, kept.phase.later (.sameRows rfl fun _ used => used) rfl⟩

theorem Kept.step (kept : s.Kept) (orderly : s.Orderly act) (goes : s.step act = some s') : s'.Kept := by
  have base := kept.base
  have ok := kept.phase
  cases act with
  | inserts row =>
    obtain ⟨new, goes⟩ := Option.ite_none_right_eq_some.mp goes
    obtain rfl := Option.some.inj goes
    exact kept.inserts new orderly
  | deletes rowid =>
    obtain rfl := Option.some.inj goes
    exact kept.deletes _
  | begins chunk =>
    obtain ⟨idle, goes⟩ := Option.ite_none_right_eq_some.mp goes
    obtain rfl := Option.some.inj goes
    refine ⟨⟨base.distinct, base.memory, base.database, base.late, base.completed, nofun⟩, .inr rfl, ?_⟩
    by_cases loaded : s.loaded = true
    · rw [if_pos loaded]
      trivial
    · rw [if_neg loaded]
      exact base.fresh (Bool.eq_false_iff.mpr loaded)
  | loads =>
    simp only [BlobPrune.step] at goes
    split at goes
    case h_2 => cases goes
    case h_1 chunk phase =>
      have loaded := kept.loaded.resolve_left (by rw [phase]; exact nofun)
      obtain rfl := Option.some.inj goes
      exact ⟨⟨base.distinct, fun m its => base.database m (mem_loadMark its), base.database, base.late,
        base.completed, fun no => absurd (loaded.symm.trans no) nofun⟩, .inr loaded, trivial⟩
  | cuts cutoff =>
    simp only [BlobPrune.step] at goes
    split at goes
    case h_2 => cases goes
    case h_1 chunk phase =>
      have loaded := kept.loaded.resolve_left (by rw [phase]; exact nofun)
      obtain rfl := Option.some.inj goes
      exact (base.cuts cutoff).goto (.inr loaded) (List.mem_cons_self ..)
  | selects =>
    simp only [BlobPrune.step] at goes
    split at goes
    case h_2 => cases goes
    case h_1 pass phase =>
      have loaded := kept.loaded.resolve_left (by rw [phase]; exact nofun)
      rw [phase] at ok
      obtain rfl := Option.some.inj goes
      by_cases empty : s.page pass = []
      · rw [if_pos empty]
        exact base.endChunk loaded ok (base.bare empty)
      · rw [if_neg empty]
        exact base.goto (.inr loaded) ⟨ok, base.reads empty⟩
  | updates =>
    simp only [BlobPrune.step] at goes
    split at goes
    case h_2 => cases goes
    case h_1 pass read phase =>
      have loaded := kept.loaded.resolve_left (by rw [phase]; exact nofun)
      rw [phase] at ok
      obtain rfl := Option.some.inj goes
      exact base.goto (.inr loaded) ok
  | commits =>
    simp only [BlobPrune.step] at goes
    split at goes
    case h_2 => cases goes
    case h_1 pass read nulled connection phase =>
      obtain rfl := Option.some.inj goes
      rw [Orderly, phase] at orderly
      exact kept.commits phase orderly
  | saves durable =>
    simp only [BlobPrune.step] at goes
    split at goes
    case h_2 => cases goes
    case h_1 pass ended phase =>
      have loaded := kept.loaded.resolve_left (by rw [phase]; exact nofun)
      rw [phase] at ok
      obtain rfl := Option.some.inj goes
      cases durable with
      | false => exact (base.abandon.same s.connection s.mark).afterSave loaded ok ended
      | true => exact (base.saves.same s.connection s.mark).afterSave loaded ok ended
  | saveFails =>
    simp only [BlobPrune.step] at goes
    split at goes
    case h_2 => cases goes
    case h_1 pass ended phase =>
      have loaded := kept.loaded.resolve_left (by rw [phase]; exact nofun)
      rw [phase] at ok
      obtain rfl := Option.some.inj goes
      exact base.abandon.afterSave loaded ok ended
  | retries =>
    have again := base.abandon.same (s.connection + 1) s.saved
    simp only [BlobPrune.step] at goes
    split at goes
    case h_1 pass phase =>
      have loaded := kept.loaded.resolve_left (by rw [phase]; exact nofun)
      rw [phase] at ok
      obtain rfl := Option.some.inj goes
      exact again.goto (.inr loaded) ok
    case h_2 pass read phase =>
      have loaded := kept.loaded.resolve_left (by rw [phase]; exact nofun)
      rw [phase] at ok
      obtain rfl := Option.some.inj goes
      exact again.goto (.inr loaded) ok.1
    case h_3 pass read nulled connection phase =>
      have loaded := kept.loaded.resolve_left (by rw [phase]; exact nofun)
      rw [phase] at ok
      obtain rfl := Option.some.inj goes
      exact again.goto (.inr loaded) ok.1
    case h_4 => cases goes
  | reconnects =>
    obtain rfl := Option.some.inj goes
    exact ⟨base.same (s.connection + 1) s.saved, kept.loaded, ok.later (.sameRows rfl fun _ used => used) rfl⟩
  | landsRows ids =>
    obtain ⟨_, goes⟩ := Option.ite_none_right_eq_some.mp goes
    obtain rfl := Option.some.inj goes
    exact kept.nullBlobs ids
  | landsMark mark =>
    obtain ⟨late, goes⟩ := Option.ite_none_right_eq_some.mp goes
    obtain rfl := Option.some.inj goes
    refine kept.store fun m its => ?_
    rw [← SavedMark.mark.inj (Option.some.inj its)]
    exact base.late mark late
  | garbles =>
    obtain rfl := Option.some.inj goes
    exact kept.store nofun
  | interrupts =>
    obtain ⟨_, goes⟩ := Option.ite_none_left_eq_some.mp goes
    obtain rfl := Option.some.inj goes
    exact base.abandon.goto (.inl rfl) trivial
  | restarts =>
    obtain rfl := Option.some.inj goes
    obtain ⟨distinct, _, database, late, completed, _⟩ := base.abandon
    exact ⟨⟨distinct, nofun, database, late, completed, fun _ => rfl⟩, .inl rfl, trivial⟩

theorem create_kept : create.Kept :=
  ⟨⟨List.nodup_nil, nofun, nofun, nofun, nofun, fun _ => rfl⟩, .inl rfl, trivial⟩

theorem endChunk_mark : (s.endChunk pass scanned nulled).mark = s.mark := by
  unfold BlobPrune.endChunk
  dsimp only
  split_ifs <;> rfl

theorem commitChunk_mark :
    (s.commitChunk pass read nulled connection).mark = read.getLast?.map BlobRow.key := by
  unfold commitChunk
  split_ifs <;> exact endChunk_mark

/-- Only a restart takes the mark back. -/
theorem Kept.forward (kept : s.Kept) (goes : s.step act = some s') (stays : act ≠ .restarts) (its : m ∈ s.mark) :
    ∃ m' ∈ s'.mark, m ≤ m' := by
  have ok := kept.phase
  by_cases same : s'.mark = s.mark
  · exact ⟨m, same ▸ its, le_rfl⟩
  cases act with
  | restarts => exact absurd rfl stays
  | loads =>
    simp only [BlobPrune.step] at goes
    split at goes
    case h_2 => cases goes
    case h_1 chunk phase =>
      rw [phase] at ok
      exact absurd (ok.symm.trans its) nofun
  | commits =>
    simp only [BlobPrune.step] at goes
    split at goes
    case h_2 => cases goes
    case h_1 pass read nulled connection phase =>
      rw [phase] at ok
      obtain ⟨last, isLast, _, after, _⟩ := ok.2.upTo
      obtain rfl := Option.some.inj goes
      refine ⟨last.key, ?_, (after m its).le⟩
      rw [commitChunk_mark, isLast]
      rfl
  | selects =>
    simp only [BlobPrune.step] at goes
    split at goes
    case h_2 => cases goes
    case h_1 pass phase =>
      obtain rfl := Option.some.inj goes
      refine absurd ?_ same
      split_ifs
      · exact endChunk_mark
      · rfl
  | saves durable =>
    simp only [BlobPrune.step] at goes
    split at goes
    case h_2 => cases goes
    case h_1 pass ended phase =>
      obtain rfl := Option.some.inj goes
      refine absurd ?_ same
      cases durable <;> rfl
  | inserts | begins | landsRows | landsMark =>
    obtain ⟨_, goes⟩ := Option.ite_none_right_eq_some.mp goes
    obtain rfl := Option.some.inj goes
    exact absurd rfl same
  | interrupts =>
    obtain ⟨_, goes⟩ := Option.ite_none_left_eq_some.mp goes
    obtain rfl := Option.some.inj goes
    exact absurd rfl same
  | deletes | reconnects | garbles =>
    obtain rfl := Option.some.inj goes
    exact absurd rfl same
  | cuts | updates | saveFails =>
    simp only [BlobPrune.step] at goes
    split at goes
    case h_2 => cases goes
    case h_1 =>
      obtain rfl := Option.some.inj goes
      exact absurd rfl same
  | retries =>
    simp only [BlobPrune.step] at goes
    split at goes
    case h_4 => cases goes
    all_goals
      obtain rfl := Option.some.inj goes
      exact absurd rfl same

/-- No row at or below the watermark, in memory or in the database, has a PSD
blob, the watermark does not go back within a process, and no row older than
the cutoff of a completed pass has a blob. -/
structure NeverHides (allowed : BlobPrune → Act → Prop) (s : BlobPrune) : Prop where
  memory : ∀ m ∈ s.mark, Clean s.rows m
  database : ∀ m, s.stored = some (.mark m) → Clean s.rows m
  forward : ∀ m ∈ s.mark, ∀ s', Runs.Reach step s (fun s act => allowed s act ∧ act ≠ .restarts) s' →
    ∃ m' ∈ s'.mark, m ≤ m'
  completed : ∀ c ∈ s.completed, Bare s.rows c

theorem Kept.neverHides (kept : s.Kept) : s.NeverHides Orderly := by
  obtain ⟨_, memory, database, _, completed, _⟩ := kept.base
  refine ⟨fun m its => (memory m its).1, fun m its => (database m its).1, fun m its s' reach => ?_,
    fun c its => (completed c its).2⟩
  have both : s'.Kept ∧ ∃ m' ∈ s'.mark, m ≤ m' := by
    refine Runs.Reach.invariant (I := fun s' => s'.Kept ∧ ∃ m' ∈ s'.mark, m ≤ m') ?_ ?_ reach
    · exact ⟨kept, m, its, le_rfl⟩
    · rintro a act b ⟨before, m', atMark, under⟩ ⟨orderly, stays⟩ goes
      obtain ⟨m'', atMark', above⟩ := before.forward goes stays atMark
      exact ⟨before.step orderly goes, m'', atMark', under.trans above⟩
  exact both.2

/-- The states that orderly runs reach. -/
abbrev Reach (allowed : BlobPrune → Act → Prop) : BlobPrune → Prop := Runs.Reach step create allowed

/-- In every orderly run the watermark hides no blob from the next pass. -/
theorem Reach.never_hides (reach : Reach Orderly s) : s.NeverHides Orderly :=
  (Runs.Reach.invariant create_kept (fun _ _ _ kept orderly goes => kept.step orderly goes) reach).neverHides

instance Plain.decidable (s : BlobPrune) : ∀ act, Decidable (s.Plain act)
  | .inserts row => inferInstanceAs (Decidable (∀ c ∈ s.cutoffs, c ≤ row.startTime))
  | .deletes _ | .begins _ | .loads | .cuts _ | .selects | .updates | .commits | .saves _ | .saveFails | .retries
  | .reconnects | .landsRows _ | .landsMark _ | .garbles | .interrupts | .restarts => isTrue trivial

instance Orderly.decidable (s : BlobPrune) : ∀ act, Decidable (s.Orderly act)
  | .commits =>
    match atPhase : s.phase with
    | .committing _ _ _ connection =>
      decidable_of_iff (connection = s.connection) (by rw [Orderly, atPhase])
    | .idle | .loading _ | .ready _ | .selecting _ | .updating _ _ | .saving _ _ =>
      isTrue (by rw [Orderly, atPhase]; trivial)
  | .inserts row => Plain.decidable s (.inserts row)
  | .deletes _ | .begins _ | .loads | .cuts _ | .selects | .updates | .saves _ | .saveFails | .retries
  | .reconnects | .landsRows _ | .landsMark _ | .garbles | .interrupts | .restarts => isTrue trivial

def rowAt (rowid : Nat) (startTime : ℚ) : BlobRow := ⟨rowid, startTime, some [7, 7], none⟩

/-- The first chunk of two times out and takes effect later, the process dies,
the next one prunes both rows but cannot save its mark, and another pass goes
on from the mark in memory. -/
def resumed : List Act :=
  [.inserts (rowAt 1 1), .inserts (rowAt 2 2), .begins 1, .loads, .cuts 10, .selects, .updates, .retries,
    .landsRows [1], .selects, .updates, .restarts, .begins 1, .loads, .cuts 10, .selects, .updates, .commits,
    .selects, .updates, .commits, .selects, .saveFails, .inserts (rowAt 3 10), .begins 1, .cuts 11, .selects, .updates,
    .commits, .selects, .saves true]

theorem Reach.never_hides_resumed :
    ∃ s, Reach Orderly s ∧ s.mark = some (rowAt 3 10).key ∧ s.completed = [11, 10] ∧
      s.rows.map (·.psdPowers) = [none, none, none] ∧ s.NeverHides Orderly := by
  have meets : Runs.Meets step Orderly create resumed := by decide +kernel
  have final : (Runs.follow step create resumed).map (fun s => (s.mark, s.completed, s.rows.map (·.psdPowers))) =
      some (some (rowAt 3 10).key, [11, 10], [none, none, none]) := by decide +kernel
  obtain ⟨s, goes, ends⟩ := Option.map_eq_some_iff.mp final
  obtain ⟨mark, rest⟩ := Prod.mk.inj ends
  obtain ⟨completed, blobs⟩ := Prod.mk.inj rest
  have reach : Reach Orderly s := Runs.Reach.start.follow meets goes
  exact ⟨s, reach, mark, completed, blobs, Reach.never_hides reach⟩

/-- Another write times out between the UPDATE of a chunk and its commit; the
next pass reads nothing below the saved mark. -/
def reconnected : List Act :=
  [.inserts (rowAt 1 1), .begins 5, .loads, .cuts 10, .selects, .updates, .reconnects, .commits, .saves true,
    .begins 5, .cuts 20, .selects]

theorem never_hides_fails :
    ∃ s, Reach Plain s ∧ s.rows = [rowAt 1 1] ∧ s.mark = some (rowAt 1 1).key ∧ s.completed = [20, 10] ∧
      ¬ s.NeverHides Plain := by
  have meets : Runs.Meets step Plain create reconnected := by decide +kernel
  have final : (Runs.follow step create reconnected).map (fun s => (s.rows, s.mark, s.completed)) =
      some ([rowAt 1 1], some (rowAt 1 1).key, [20, 10]) := by decide +kernel
  obtain ⟨s, goes, ends⟩ := Option.map_eq_some_iff.mp final
  obtain ⟨rows, rest⟩ := Prod.mk.inj ends
  obtain ⟨mark, completed⟩ := Prod.mk.inj rest
  refine ⟨s, Runs.Reach.start.follow meets goes, rows, mark, completed, fun hides => ?_⟩
  have bare := hides.memory _ mark (rowAt 1 1) (rows ▸ List.mem_singleton_self _) le_rfl
  cases bare

end RFObserver.BlobPrune
