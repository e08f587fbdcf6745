import RFObserver.Transport.RfdbDelivery

namespace RFObserver.RfdbWriter

variable {storable : OutputRow → Bool} {s s' s'' : RfdbWriter} {w : WindowStatsRow} {call : InsertCall}
  {last b hardwareId : Nat} {rows rest : List SendRow} {row : SendRow} {windowSec : ℚ}

/-- The acts of a writer that nothing disturbs, at one averaging duration. -/
def Undisturbed (windowSec : ℚ) : Act → Prop
  | .begins | .loads | .anchors | .saves | .looks | .resolves | .executes | .rejects => True
  | .reads duration => duration = windowSec
  | _ => False

/-- The writer gets there undisturbed. -/
def Advances (storable : OutputRow → Bool) (windowSec : ℚ) : RfdbWriter → RfdbWriter → Prop :=
  Relation.ReflTransGen fun s s' => ∃ act, Undisturbed windowSec act ∧ s.step storable act = some s'

/-- A start would find a bookmark, or begin where the first one did. -/
def Resumes (s : RfdbWriter) : Prop := s.bookmark = none → s.stored = none → ∀ a ∈ s.anchor, s.newest ≤ a

/-- What the undisturbed writer keeps on its way. -/
structure Ahead (storable : OutputRow → Bool) (windowSec : ℚ) (s s' : RfdbWriter) : Prop where
  path : Advances storable windowSec s s'
  windows : s'.windows = s.windows
  rpi : ∀ id ∈ s.db.rpi, id ∈ s'.db.rpi
  anchor : ∀ a ∈ s.anchor, a ∈ s'.anchor
  kept : s'.Kept storable

theorem Ahead.refl (kept : s.Kept storable) : Ahead storable windowSec s s :=
  ⟨.refl, rfl, fun _ its => its, fun _ its => its, kept⟩

theorem Ahead.trans (first : Ahead storable windowSec s s') (second : Ahead storable windowSec s' s'') :
    Ahead storable windowSec s s'' :=
  ⟨first.path.trans second.path, second.windows.trans first.windows, fun id its => second.rpi id (first.rpi id its),
    fun a its => second.anchor a (first.anchor a its), second.kept⟩

theorem Ahead.newest (ahead : Ahead storable windowSec s s') : s'.newest = s.newest := by
  unfold RfdbWriter.newest
  rw [ahead.windows]

theorem hold_anchor (n : Nat) : ∀ a ∈ s.anchor, a ∈ (s.hold n).anchor := by
  intro a its
  rw [hold, Option.mem_def.mp its]
  rfl

theorem goOn_windows : (s.goOn last rows).windows = s.windows := by
  cases rows <;> rfl

theorem goOn_anchor : (s.goOn last rows).anchor = s.anchor := by
  cases rows <;> rfl

theorem saved_ahead (goes : (s.interrupt storable true).saved = some s') :
    s'.windows = s.windows ∧ ∀ a ∈ s.anchor, a ∈ s'.anchor := by
  cases phase : s.phase with
  | savingAnchor n =>
    simp only [RfdbWriter.interrupt, RfdbWriter.saved, phase] at goes
    obtain rfl := Option.some.inj goes
    exact ⟨rfl, hold_anchor n⟩
  | saving =>
    simp only [RfdbWriter.interrupt, RfdbWriter.saved, phase] at goes
    obtain rfl := Option.some.inj goes
    exact ⟨rfl, fun _ its => its⟩
  | _ =>
    rw [RfdbWriter.saved, interrupt_phase, phase] at goes
    cases goes

/-- An undisturbed step leaves the windows, the registration and the first
bookmark. -/
theorem step_frame {act : Act} (undisturbed : Undisturbed windowSec act) (goes : s.step storable act = some s') :
    s'.windows = s.windows ∧ (∀ id ∈ s.db.rpi, id ∈ s'.db.rpi) ∧ ∀ a ∈ s.anchor, a ∈ s'.anchor := by
  cases act <;> simp only [RfdbWriter.step] at goes
  case begins =>
    obtain ⟨_, same⟩ := Option.ite_none_right_eq_some.mp goes
    obtain rfl := Option.some.inj same
    exact ⟨rfl, fun _ its => its, fun _ its => its⟩
  case loads =>
    obtain ⟨_, same⟩ := Option.ite_none_right_eq_some.mp goes
    obtain rfl := Option.some.inj same
    unfold loadBookmark
    split
    case h_1 n _ => exact ⟨rfl, fun _ its => its, hold_anchor n⟩
    case h_2 => exact ⟨rfl, fun _ its => its, fun _ its => its⟩
  case anchors =>
    obtain ⟨_, same⟩ := Option.ite_none_right_eq_some.mp goes
    obtain rfl := Option.some.inj same
    exact ⟨rfl, fun _ its => its, fun _ its => its⟩
  case saves =>
    obtain ⟨db, _⟩ := saved_frame true goes
    obtain ⟨windows, anchor⟩ := saved_ahead goes
    exact ⟨windows, fun _ its => db ▸ its, anchor⟩
  case looks =>
    obtain ⟨_, same⟩ := Option.ite_none_right_eq_some.mp goes
    obtain rfl := Option.some.inj same
    unfold lookHardware
    split <;> exact ⟨rfl, fun _ its => its, fun _ its => its⟩
  case reads windowSec =>
    obtain ⟨_, same⟩ := Option.ite_none_right_eq_some.mp goes
    obtain rfl := Option.some.inj same
    unfold readWindows
    split
    case h_1 => exact ⟨rfl, fun _ its => its, fun _ its => its⟩
    case h_2 => split <;> exact ⟨rfl, fun _ its => its, fun _ its => its⟩
  case resolves =>
    split at goes
    case h_1 call last hardwareId _ _ =>
      obtain ⟨e, _, taken⟩ := Option.bind_eq_some_iff.mp goes
      have grows := (resolve_frame taken).1
      unfold resolve at taken
      split at taken
      case h_1 =>
        obtain rfl := Option.some.inj taken
        exact ⟨rfl, grows.rpi, fun _ its => its⟩
      case h_2 =>
        obtain ⟨id, _, rfl⟩ := Option.map_eq_some_iff.mp taken
        exact ⟨rfl, grows.rpi, fun _ its => its⟩
    case h_2 => cases goes
  case executes =>
    split at goes
    case h_1 call last phase =>
      obtain ⟨_, same⟩ := Option.ite_none_right_eq_some.mp goes
      obtain rfl := Option.some.inj same
      rw [goOn_windows, goOn_anchor, goOn_db]
      exact ⟨rfl, (Rfdb.insertOutputs_grows s.db call.values).rpi, fun _ its => its⟩
    case h_2 => cases goes
  case rejects =>
    split at goes
    case h_1 call last phase =>
      obtain ⟨_, taken⟩ := Option.ite_none_right_eq_some.mp goes
      split at taken
      all_goals
        obtain rfl := Option.some.inj taken
        rw [goOn_windows, goOn_anchor, goOn_db]
        exact ⟨rfl, fun _ its => its, fun _ its => its⟩
    case h_2 => cases goes
  all_goals exact undisturbed.elim

theorem Ahead.step {act : Act} (kept : s.Kept storable) (goes : s.step storable act = some s')
    (undisturbed : Undisturbed windowSec act) (plain : s.Plain act) : Ahead storable windowSec s s' := by
  obtain ⟨windows, rpi, anchor⟩ := step_frame undisturbed goes
  exact ⟨.single ⟨act, undisturbed, goes⟩, windows, rpi, anchor, kept.step plain goes⟩

/-- A metadata id is always found. -/
theorem resolve_some (s : RfdbWriter) (call : InsertCall) (last hardwareId : Nat) (row : OutputRow) :
    ∃ s', s.resolve call last hardwareId row = some s' := by
  unfold resolve
  split
  case h_1 => exact ⟨_, rfl⟩
  case h_2 =>
    obtain ⟨id, found, _⟩ := s.findMetadata_spec row.metadata
    rw [found]
    exact ⟨_, rfl⟩

theorem Valued.length_le {db : Rfdb} (valued : Valued db call) : call.values.length ≤ call.rows.length := by
  by_contra more
  have within : call.rows.length < call.values.length := by omega
  obtain ⟨e, isRow, _⟩ := valued _ _ (List.getElem?_eq_getElem within)
  rw [List.getElem?_eq_none le_rfl] at isRow
  cases isRow

theorem Kept.valued (kept : s.Kept storable) (phase : s.phase = .inserting call last) :
    s.hardwareIds.isSome ∧ Valued s.db call := by
  have ok := kept.phase
  rw [phase] at ok
  exact ⟨ok.1.2, ok.2.1⟩

/-- Undisturbed, a call gets the ids of all its rows. -/
theorem Kept.resolveAll (windowSec : ℚ) (n : Nat) (kept : s.Kept storable) (phase : s.phase = .inserting call last)
    (left : call.rows.length ≤ call.values.length + n) :
    ∃ s' values, Ahead storable windowSec s s' ∧ s'.phase = .inserting { call with values := values } last ∧
      values.length = call.rows.length := by
  induction n generalizing s call with
  | zero =>
    have most := (kept.valued phase).2.length_le
    exact ⟨s, call.values, .refl kept, phase, by omega⟩
  | succ n ih =>
    obtain ⟨ready, valued⟩ := kept.valued phase
    have most := valued.length_le
    by_cases full : call.rows.length ≤ call.values.length
    · exact ⟨s, call.values, .refl kept, phase, by omega⟩
    · have within : call.values.length < call.rows.length := by omega
      obtain ⟨hardwareId, hardware⟩ := Option.isSome_iff_exists.mp ready
      obtain ⟨s', taken⟩ := s.resolve_some call last hardwareId call.rows[call.values.length].row
      have goes : s.step storable .resolves = some s' := by
        simp only [RfdbWriter.step, phase, hardware, List.getElem?_eq_getElem within]
        exact taken
      have first : Ahead storable windowSec s s' := .step kept goes trivial trivial
      obtain ⟨_, _, v, after⟩ := resolve_frame taken
      have one : (call.values ++ [v]).length = call.values.length + 1 := List.length_append
      obtain ⟨last', values, rest, phase', length⟩ := ih first.kept after (by dsimp only; omega)
      exact ⟨last', values, first.trans rest, phase', length⟩

/-- Where `goOn` leaves the writer. -/
def AtRow (s : RfdbWriter) (last : Nat) : List SendRow → Prop
  | [] => s.phase = .saving ∧ s.bookmark = some last
  | row :: rest => s.phase = .inserting ⟨[row], [], some rest⟩ last

theorem goOn_atRow : (s.goOn last rows).AtRow last rows := by
  cases rows with
  | nil => exact ⟨rfl, rfl⟩
  | cons row rest => rfl

/-- Undisturbed, a call is committed or rejected. -/
theorem Kept.send (windowSec : ℚ) (kept : s.Kept storable) (phase : s.phase = .inserting call last) :
    ∃ s' rows, Ahead storable windowSec s s' ∧ s'.AtRow last rows ∧
      (rows = call.rest.getD [] ∨ call.rest = none) := by
  by_cases all : ∀ e ∈ call.rows, storable e.row = true
  · obtain ⟨s₁, values, first, phase₁, full⟩ := kept.resolveAll windowSec call.rows.length phase (Nat.le_add_left ..)
    have whole : Whole storable { call with values := values } := ⟨full, all⟩
    have goes : s₁.step storable .executes = some ({ s₁.commit { call with values := values } with
        sent := s₁.sent + call.rows.length }.goOn last (call.rest.getD [])) := by
      simp only [RfdbWriter.step, phase₁]
      exact if_pos whole
    exact ⟨_, call.rest.getD [], first.trans (.step first.kept goes trivial trivial), goOn_atRow, .inl rfl⟩
  · have refused : ∃ e ∈ call.rows, storable e.row = false := by simpa using all
    cases alone : call.rest with
    | none =>
      have goes : s.step storable .rejects = some (s.goOn last call.rows) := by
        simp only [RfdbWriter.step, phase, alone]
        exact if_pos refused
      exact ⟨_, call.rows, .step kept goes trivial trivial, goOn_atRow, .inr rfl⟩
    | some rest =>
      have goes : s.step storable .rejects =
          some ((s.skip (call.rows.map fun e => (e.window, some e.row))).goOn last rest) := by
        simp only [RfdbWriter.step, phase, alone]
        exact if_pos refused
      exact ⟨_, rest, .step kept goes trivial trivial, goOn_atRow, .inl rfl⟩

/-- The rows of a rejected batch, one by one. -/
theorem Kept.sendRows (windowSec : ℚ) (kept : s.Kept storable) (at' : s.AtRow last rows) :
    ∃ s', Ahead storable windowSec s s' ∧ s'.phase = .saving ∧ s'.bookmark = some last := by
  induction rows generalizing s with
  | nil => exact ⟨s, .refl kept, at'⟩
  | cons row rest ih =>
    obtain ⟨s₁, _, first, at₁, rfl | none⟩ := kept.send windowSec at'
    · obtain ⟨s', later, done⟩ := ih first.kept at₁
      exact ⟨s', first.trans later, done⟩
    · cases none

theorem Kept.sendAll (windowSec : ℚ) (kept : s.Kept storable) (phase : s.phase = .inserting call last) :
    ∃ s', Ahead storable windowSec s s' ∧ s'.phase = .saving ∧ s'.bookmark = some last := by
  obtain ⟨s₁, rows, first, at₁, _⟩ := kept.send windowSec phase
  obtain ⟨s', later, done⟩ := first.kept.sendRows windowSec at₁
  exact ⟨s', first.trans later, done⟩

theorem Kept.beginRound (windowSec : ℚ) (kept : s.Kept storable) (phase : s.phase = .idle) (bookmark : s.bookmark = some b) :
    ∃ s', Ahead storable windowSec s s' ∧ s'.phase = .looking ∧ s'.bookmark = some b := by
  have goes : s.step storable .begins = some { s with phase := .looking } := by
    simp only [RfdbWriter.step, phase, bookmark]
    rfl
  exact ⟨_, .step kept goes trivial trivial, rfl, bookmark⟩

/-- The save that ends a round, and the begin of the next one. -/
theorem Kept.saveMark (windowSec : ℚ) (kept : s.Kept storable) (phase : s.phase = .saving) (bookmark : s.bookmark = some b) :
    ∃ s', Ahead storable windowSec s s' ∧ s'.phase = .looking ∧ s'.bookmark = some b := by
  have goes : s.step storable .saves = some { s with stored := s.bookmark, phase := .idle } := by
    simp only [RfdbWriter.step, RfdbWriter.interrupt, RfdbWriter.saved, phase]
  have first : Ahead storable windowSec s _ := .step kept goes trivial trivial
  obtain ⟨s', later, done⟩ := first.kept.beginRound windowSec rfl bookmark
  exact ⟨s', first.trans later, done⟩

theorem exists_newer (less : b < s.newest) : ∃ w ∈ s.windows, b < w.id := by
  unfold newest at less
  generalize s.windows = windows at less
  induction windows with
  | nil => exact absurd less (Nat.not_lt_zero b)
  | cons first rest ih =>
    rcases lt_max_iff.mp less with here | later
    · exact ⟨first, List.mem_cons_self, here⟩
    · obtain ⟨w, member, above⟩ := ih later
      exact ⟨w, List.mem_cons_of_mem first member, above⟩

/-- Undisturbed, a read moves the bookmark while windows are left. -/
theorem Kept.readRound (windowSec : ℚ) (kept : s.Kept storable) (phase : s.phase = .reading) (bookmark : s.bookmark = some b) :
    ∃ s' b', Ahead storable windowSec s s' ∧ s'.phase = .looking ∧ s'.bookmark = some b' ∧ (b < s.newest → b < b') := by
  have goes : s.step storable (.reads windowSec) = some (s.readWindows windowSec) := by
    simp only [RfdbWriter.step, phase, if_true]
  have first : Ahead storable windowSec s (s.readWindows windowSec) := .step kept goes rfl trivial
  cases isLast : s.batch.getLast? with
  | none =>
    have empty : s.readWindows windowSec = { s with phase := .idle } := by
      simp only [RfdbWriter.readWindows, isLast]
    rw [empty] at first
    obtain ⟨s', later, looking, held⟩ := first.kept.beginRound windowSec rfl bookmark
    refine ⟨s', b, first.trans later, looking, held, fun left => ?_⟩
    obtain ⟨w, member, above⟩ := exists_newer left
    have nonempty : s.batch ≠ [] :=
      Keyset.page_ne_nil (by decide) member fun k its => Option.some.inj (bookmark.symm.trans its) ▸ above
    exact absurd (List.getLast?_eq_none_iff.mp isLast) nonempty
  | some final =>
    have above : b < final.id := (Keyset.mem_page (List.mem_of_getLast? isLast)).2 b bookmark
    cases built : buildRows s.batch windowSec with
    | nil =>
      have done : s.readWindows windowSec = (s.skip (unstorable s.batch windowSec)).goOn final.id [] := by
        simp only [RfdbWriter.readWindows, isLast, built]
      rw [done] at first
      obtain ⟨s', later, looking, held⟩ := first.kept.saveMark windowSec rfl rfl
      exact ⟨s', final.id, first.trans later, looking, held, fun _ => above⟩
    | cons row rest =>
      have sends : (s.readWindows windowSec).phase = .inserting ⟨row :: rest, [], none⟩ final.id := by
        simp only [RfdbWriter.readWindows, isLast, built]
      obtain ⟨s₁, second, saving, moved⟩ := first.kept.sendAll windowSec sends
      obtain ⟨s', later, looking, held⟩ := second.kept.saveMark windowSec saving moved
      exact ⟨s', final.id, (first.trans second).trans later, looking, held, fun _ => above⟩

theorem Kept.look (windowSec : ℚ) (kept : s.Kept storable) (phase : s.phase = .looking) (bookmark : s.bookmark = some b)
    (registered : s.db.rpi ≠ none) :
    ∃ s', Ahead storable windowSec s s' ∧ s'.phase = .reading ∧ s'.bookmark = some b := by
  have goes : s.step storable .looks = some s.lookHardware := by
    simp only [RfdbWriter.step, phase, if_true]
  refine ⟨_, .step kept goes trivial trivial, ?_⟩
  unfold RfdbWriter.lookHardware
  split
  case h_1 => exact ⟨rfl, bookmark⟩
  case h_2 none =>
    cases cached : s.hardwareIds with
    | none =>
      rw [cached] at none
      exact absurd none registered
    | some id =>
      rw [cached] at none
      cases none

/-- Undisturbed, the bookmark reaches the newest window. -/
theorem Kept.catchUp (windowSec : ℚ) (n : Nat) (kept : s.Kept storable) (phase : s.phase = .looking)
    (bookmark : s.bookmark = some b) (registered : s.db.rpi ≠ none) (left : s.newest ≤ b + n) :
    ∃ s' b', Ahead storable windowSec s s' ∧ s'.bookmark = some b' ∧ s.newest ≤ b' := by
  induction n generalizing s b with
  | zero => exact ⟨s, b, .refl kept, bookmark, left⟩
  | succ n ih =>
    by_cases done : s.newest ≤ b
    · exact ⟨s, b, .refl kept, bookmark, done⟩
    · obtain ⟨s₁, first, reading, held⟩ := kept.look windowSec phase bookmark registered
      obtain ⟨s₂, b₂, second, looking, moved, further⟩ := first.kept.readRound windowSec reading held
      have newest := (first.trans second).newest
      have above := further (by rw [first.newest]; omega)
      obtain ⟨id, isId⟩ := Option.ne_none_iff_exists'.mp registered
      have still : s₂.db.rpi ≠ none := fun none => nomatch none.symm.trans ((first.trans second).rpi id isId)
      obtain ⟨s', b', third, reached, all⟩ := ih second.kept looking moved still (by omega)
      exact ⟨s', b', (first.trans second).trans third, reached, newest ▸ all⟩

theorem Kept.saveAnchor {n : Nat} (windowSec : ℚ) (kept : s.Kept storable) (phase : s.phase = .savingAnchor n) :
    ∃ s' b, Ahead storable windowSec s s' ∧ s'.phase = .looking ∧ s'.bookmark = some b := by
  have goes : s.step storable .saves = some { ({ s with stored := some n } : RfdbWriter).hold n with phase := .looking } := by
    simp only [RfdbWriter.step, RfdbWriter.interrupt, RfdbWriter.saved, phase]
  exact ⟨_, n, .step kept goes trivial trivial, rfl, rfl⟩

theorem Kept.anchor (windowSec : ℚ) (kept : s.Kept storable) (phase : s.phase = .anchoring)
    (anchored : ∀ a ∈ s.anchor, s.newest ≤ a) :
    ∃ s' b, Ahead storable windowSec s s' ∧ s'.phase = .looking ∧ s'.bookmark = some b := by
  have goes : s.step storable .anchors = some { s with phase := .savingAnchor s.newest } := by
    simp only [RfdbWriter.step, phase, if_true]
  have first : Ahead storable windowSec s _ := .step kept goes trivial anchored
  obtain ⟨s', b, later, done⟩ := first.kept.saveAnchor windowSec rfl
  exact ⟨s', b, first.trans later, done⟩

theorem Kept.load (windowSec : ℚ) (kept : s.Kept storable) (phase : s.phase = .loading)
    (anchored : s.stored = none → ∀ a ∈ s.anchor, s.newest ≤ a) :
    ∃ s' b, Ahead storable windowSec s s' ∧ s'.phase = .looking ∧ s'.bookmark = some b := by
  have goes : s.step storable .loads = some s.loadBookmark := by
    simp only [RfdbWriter.step, phase, if_true]
  have first : Ahead storable windowSec s s.loadBookmark := .step kept goes trivial trivial
  cases stored : s.stored with
  | some n =>
    have found : s.loadBookmark = { s.hold n with phase := .looking } := by
      simp only [RfdbWriter.loadBookmark, stored]
    rw [found] at first
    exact ⟨_, n, first, rfl, rfl⟩
  | none =>
    have none : s.loadBookmark = { s with phase := .anchoring } := by
      simp only [RfdbWriter.loadBookmark, stored]
    rw [none] at first
    obtain ⟨s', b, later, done⟩ := first.kept.anchor windowSec rfl (anchored stored)
    exact ⟨s', b, first.trans later, done⟩

/-- Undisturbed, the writer gets to a bookmark. -/
theorem Kept.resume (windowSec : ℚ) (kept : s.Kept storable) (resumes : s.Resumes) :
    ∃ s' b, Ahead storable windowSec s s' ∧ s'.phase = .looking ∧ s'.bookmark = some b := by
  have ok := kept.phase
  cases phase : s.phase with
  | idle =>
    cases bookmark : s.bookmark with
    | some b =>
      obtain ⟨s', first, done⟩ := kept.beginRound windowSec phase bookmark
      exact ⟨s', b, first, done⟩
    | none =>
      have goes : s.step storable .begins = some { s with phase := .loading } := by
        simp only [RfdbWriter.step, phase, bookmark, if_true]
      have first : Ahead storable windowSec s _ := .step kept goes trivial trivial
      obtain ⟨s', b, later, done⟩ := first.kept.load windowSec rfl (resumes bookmark)
      exact ⟨s', b, first.trans later, done⟩
  | loading =>
    rw [phase] at ok
    exact kept.load windowSec phase (resumes ok)
  | anchoring =>
    rw [phase] at ok
    exact kept.anchor windowSec phase (resumes ok.1 ok.2)
  | savingAnchor n => exact kept.saveAnchor windowSec phase
  | looking =>
    rw [phase] at ok
    obtain ⟨b, bookmark⟩ := Option.isSome_iff_exists.mp ok
    exact ⟨s, b, .refl kept, phase, bookmark⟩
  | reading =>
    rw [phase] at ok
    obtain ⟨b, bookmark⟩ := Option.isSome_iff_exists.mp ok.1
    obtain ⟨s', b', first, looking, held, _⟩ := kept.readRound windowSec phase bookmark
    exact ⟨s', b', first, looking, held⟩
  | inserting call last =>
    obtain ⟨s₁, first, saving, held⟩ := kept.sendAll windowSec phase
    obtain ⟨s', later, done⟩ := first.kept.saveMark windowSec saving held
    exact ⟨s', last, first.trans later, done⟩
  | saving =>
    rw [phase] at ok
    obtain ⟨b, bookmark⟩ := Option.isSome_iff_exists.mp ok
    obtain ⟨s', first, done⟩ := kept.saveMark windowSec phase bookmark
    exact ⟨s', b, first, done⟩

/-- What a run delivers: the bookmark passes only windows that are in rf-db
once or were counted as skipped, no window is there twice, and the writer gets
all of them there when nothing disturbs it. Windows up to the first bookmark
are left out. -/
structure DeliversOnce (storable : OutputRow → Bool) (s : RfdbWriter) : Prop where
  passed : ∀ b, s.stored = some b ∨ s.bookmark = some b → ∀ a ∈ s.anchor, ∀ w ∈ s.windows, a < w.id → w.id ≤ b →
    (s.db.recordsOf w).length = 1 ∨ s.Skipped storable w
  once : ∀ w ∈ s.windows, (s.db.recordsOf w).length ≤ 1
  ends : s.db.rpi ≠ none → s.Resumes → ∀ windowSec, ∃ s', Advances storable windowSec s s' ∧
    s'.windows = s.windows ∧ ∀ a ∈ s.anchor, ∀ w ∈ s.windows, a < w.id → s'.Delivered storable w

theorem Kept.deliversOnce (kept : s.Kept storable) (single : s.Single) : s.DeliversOnce storable := by
  have once : ∀ w ∈ s.windows, (s.db.recordsOf w).length ≤ 1 := by
    intro w member
    refine Rfdb.recordsOf_length kept.base.db fun r stored r' stored' its its' => ?_
    obtain ⟨row, isRow, slot⟩ := Rfdb.isOf_slot its
    obtain ⟨row', isRow', slot'⟩ := Rfdb.isOf_slot its'
    exact single.once r stored r' stored' row isRow row' isRow' (Option.some.inj (slot.symm.trans slot'))
  refine ⟨fun b isMark a isAnchor w member above below => ?_, once, fun registered resumes windowSec => ?_⟩
  · have passed : s.Passed storable b := isMark.elim (kept.stored b) (kept.held b)
    rcases passed.2 a isAnchor w member above below with ⟨r, stored, its⟩ | skipped
    · have listed : r ∈ s.db.recordsOf w := List.mem_filter.mpr ⟨stored, decide_eq_true its⟩
      have some := List.length_pos_of_mem listed
      have most := once w member
      exact .inl (by omega)
    · exact .inr skipped
  · obtain ⟨s₁, b, first, looking, held⟩ := kept.resume windowSec resumes
    obtain ⟨id, isId⟩ := Option.ne_none_iff_exists'.mp registered
    have still : s₁.db.rpi ≠ none := fun none => nomatch none.symm.trans (first.rpi id isId)
    obtain ⟨s', b', second, reached, all⟩ :=
      first.kept.catchUp windowSec s₁.newest looking held still (Nat.le_add_left ..)
    have whole := first.trans second
    refine ⟨s', whole.path, whole.windows, fun a isAnchor w member above => ?_⟩
    have below := le_newest member
    have newest := first.newest
    exact (second.kept.held b' reached).2 a (whole.anchor a isAnchor) w (whole.windows ▸ member) above (by omega)

/-- The states that orderly runs reach. -/
abbrev Reach (storable : OutputRow → Bool) (allowed : RfdbWriter → Act → Prop) : RfdbWriter → Prop :=
  Runs.Reach (step storable) create allowed

/-- In every orderly run the writer delivers every window once. -/
theorem Reach.delivers_once (reach : Reach storable Orderly s) : s.DeliversOnce storable := by
  have both : s.Kept storable ∧ s.Single := by
    refine Runs.Reach.invariant (I := fun s => s.Kept storable ∧ s.Single) ?_ ?_ reach
    · exact ⟨create_kept, .outside (fun _ none => (List.not_mem_nil none).elim) rfl⟩
    · intro s act s' holds orderly goes
      exact ⟨holds.1.step orderly.plain goes, holds.2.step holds.1 orderly goes⟩
  exact both.1.deliversOnce both.2

instance Plain.decidable (s : RfdbWriter) : ∀ act, Decidable (s.Plain act)
  | .stores window => inferInstanceAs (Decidable (∀ w ∈ s.windows, ∀ slot ∈ w.slot, window.slot = some slot →
      toOutputRow w 0 = toOutputRow window 0))
  | .anchors => inferInstanceAs (Decidable (∀ a ∈ s.anchor, s.newest ≤ a))
  | .registers _ | .others _ | .begins | .loads | .saves | .timesOut _ | .looks | .reads _ | .resolves | .executes
  | .rejects | .fails _ | .restarts _ => isTrue trivial

instance Orderly.decidable (s : RfdbWriter) : ∀ act, Decidable (s.Orderly act)
  | .reads windowSec => inferInstanceAs (Decidable (∀ w ∈ s.batch, ∀ r ∈ s.db.outputs, ∀ row ∈ s.db.rowOf r,
      toOutputRow w row.metadata.length = some row → row.metadata.length = windowSec))
  | .stores window => Plain.decidable s (.stores window)
  | .anchors => Plain.decidable s .anchors
  | .registers _ | .others _ | .begins | .loads | .saves | .timesOut _ | .looks | .resolves | .executes | .rejects
  | .fails _ | .restarts _ => isTrue trivial

/-- A window with a gain, if any, and a peak. -/
def windowAt (id : Nat) (gainDb : Option ℚ) (pwrMax : ℚ) : WindowStatsRow where
  id := id
  startTime := id
  sdrCenterFreqHz := some 915000000
  sampleRateHz := some 26000000
  gainDb := gainDb
  pwrAvg := some (-70)
  pwrMax := some pwrMax
  pwrMedian := some (-72)
  pwrStd := some 3
  kurtosis := some (6 / 5)

/-- rf-db stores no peak of 100000 dB or more. -/
def inRange (row : OutputRow) : Bool := row.maxDb < 100000

/-- The first start, and three windows: one to send, one without a gain and one
that rf-db rejects. -/
def firstWindows : List Act :=
  [.registers 7, .begins, .loads, .anchors, .saves, .looks, .reads (1 / 2), .stores (windowAt 1 (some 35) (-50)),
    .stores (windowAt 2 none (-50)), .stores (windowAt 3 (some 35) 1000000), .begins, .looks, .reads (1 / 2)]

/-- The batch is rejected and sent row by row, the process dies before its
bookmark is saved, and the next one sends all again. -/
def sentAgain : List Act :=
  firstWindows ++ [.resolves, .rejects, .resolves, .executes, .rejects, .restarts false, .begins, .loads, .looks,
    .reads (1 / 2), .rejects, .resolves, .executes, .rejects, .saves]

theorem Reach.delivers_once_sentAgain :
    ∃ s, Reach inRange Orderly s ∧ (s.stored, s.skips.map (·.1), s.db.outputs.length) = (some 3, [3, 2, 3, 2], 1) ∧
      s.DeliversOnce inRange := by
  have meets : Runs.Meets (step inRange) Orderly create sentAgain := by decide +kernel
  have final : (Runs.follow (step inRange) create sentAgain).map
      (fun s => (s.stored, s.skips.map (·.1), s.db.outputs.length)) = some (some 3, [3, 2, 3, 2], 1) := by
    decide +kernel
  obtain ⟨s, goes, ends⟩ := Option.map_eq_some_iff.mp final
  have reach : Reach inRange Orderly s := Runs.Reach.start.follow meets goes
  exact ⟨s, reach, ends, Reach.delivers_once reach⟩

/-- The connection is lost after the commit, and the averaging duration goes
from 0.5 s to 1 s before the window is sent again. -/
def durationChanges : List Act :=
  [.registers 7, .begins, .loads, .anchors, .saves, .looks, .reads (1 / 2), .stores (windowAt 1 (some 35) (-50)),
    .begins, .looks, .reads (1 / 2), .resolves, .fails true, .begins, .looks, .reads 1, .resolves, .executes, .saves]

/-- The save at the first start times out, and the process dies before the
first window is sent. -/
def firstSaveTimesOut : List Act :=
  [.registers 7, .begins, .loads, .anchors, .timesOut false, .looks, .reads (1 / 2),
    .stores (windowAt 1 (some 35) (-50)), .restarts false, .begins, .loads, .anchors, .saves]

theorem delivers_once_fails :
    (∃ s, Reach inRange (fun _ _ => True) s ∧ (s.db.recordsOf (windowAt 1 (some 35) (-50))).length = 2 ∧
      ¬ s.DeliversOnce inRange) ∧
    ∃ s, Reach inRange (fun _ _ => True) s ∧ s.stored = some 1 ∧ s.db.outputs = [] ∧ s.skips = [] ∧
      ¬ s.DeliversOnce inRange := by
  constructor
  · have final : (Runs.follow (step inRange) create durationChanges).map
        (fun s => (s.windows, (s.db.recordsOf (windowAt 1 (some 35) (-50))).length)) =
          some ([windowAt 1 (some 35) (-50)], 2) := by decide +kernel
    obtain ⟨s, goes, ends⟩ := Option.map_eq_some_iff.mp final
    obtain ⟨windows, twice⟩ := Prod.mk.inj ends
    refine ⟨s, Runs.Reach.of_follow goes, twice, fun delivers => ?_⟩
    have once := delivers.once _ (windows ▸ List.mem_singleton_self _)
    omega
  · have final : (Runs.follow (step inRange) create firstSaveTimesOut).map
        (fun s => (s.windows, s.stored, s.anchor, s.db.outputs.length, s.skips.length)) =
          some ([windowAt 1 (some 35) (-50)], some 1, some 0, 0, 0) := by decide +kernel
    obtain ⟨s, goes, ends⟩ := Option.map_eq_some_iff.mp final
    simp only [Prod.mk.injEq] at ends
    obtain ⟨windows, stored, anchor, noOutputs, noSkips⟩ := ends
    have outputs := List.length_eq_zero_iff.mp noOutputs
    have skips := List.length_eq_zero_iff.mp noSkips
    refine ⟨s, Runs.Reach.of_follow goes, stored, outputs, skips, fun delivers => ?_⟩
    rcases delivers.passed 1 (.inl stored) 0 anchor _ (windows ▸ List.mem_singleton_self _) (by decide) (by decide)
      with one | ⟨e, member, _⟩
    · rw [Rfdb.recordsOf, outputs] at one
      cases one
    · rw [skips] at member
      exact List.not_mem_nil member

end RFObserver.RfdbWriter
