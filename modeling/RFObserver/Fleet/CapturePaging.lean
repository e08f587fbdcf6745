import RFObserver.Fleet.CapturePages

/-! When every page of a run is right, and when a cursor is read as it was written. -/

namespace RFObserver
open FleetCursor DetectionRoutes

variable {registry : CaptureRegistry} {sensor : Option String} {limit : ℤ} {before : List FleetCapture}
  {cursor : Option (List Char)}

variable (limit) in
/-- After a cursor that says what was shown every page is right that is counted right. -/
theorem Reached.pages (reached : Reached registry sensor before cursor) (plain : ∀ s ∈ registry.asked sensor, Plain s.id)
    (answers : List (String → Bool)) :
    ∃ pages, capturePages registry sensor limit cursor answers = some pages ∧
      (Along (PageRight registry sensor limit) before answers pages ↔
        Along (PageCounted registry sensor limit) before answers pages) := by
  induction answers generalizing before cursor with
  | nil => exact ⟨[], rfl, Iff.rfl⟩
  | cons a answers ih =>
    obtain ⟨page, goes, -, next, right⟩ := fleetCaptures_next limit a reached plain
    obtain ⟨pages, later, rights⟩ := ih next
    refine ⟨page :: pages, ?_, and_congr right rights⟩
    rw [capturePages, goes, Option.bind_some, later, Option.map_some]

variable (limit before) in
/-- A page that every sensor answers is merged from all that is left. -/
theorem shownNext_all {answers : String → Bool} (all : ∀ s ∈ registry.asked sensor, answers s.id = true) :
    (shownNext registry sensor limit answers before).map FleetCapture.capture =
      (HeadMerge.merge ListedCapture.startKey (pageLimit limit)
        ((registry.asked sensor).map fun s => s.captures.drop (shownOf s.id before).length)).map Prod.snd ∧
    HeadMerge.left ListedCapture.startKey (pageLimit limit)
        ((registry.asked sensor).map fun s => s.captures.drop (shownOf s.id before).length) =
      (registry.asked sensor).map fun s =>
        s.captures.drop (shownOf s.id (before ++ shownNext registry sensor limit answers before)).length := by
  have merged : HeadMerge.merge ListedCapture.startKey (pageLimit limit)
      ((given registry sensor limit answers before).map SensorPage.entries) =
      HeadMerge.merge ListedCapture.startKey (pageLimit limit)
        ((registry.asked sensor).map fun s => s.captures.drop (shownOf s.id before).length) := by
    refine HeadMerge.merge_congr ?_
    rw [given, List.map_map, List.map_map, List.map_map]
    refine List.map_congr_left fun s isAsked => ?_
    simp only [Function.comp_apply, all s isAsked, if_true, List.take_take, min_self]
  constructor
  · rw [shownNext, mergePage_captures, merged]
  · refine List.ext_getElem? fun i => ?_
    rw [HeadMerge.left, List.getElem?_mapIdx, List.getElem?_map, List.getElem?_map]
    cases at_ : (registry.asked sensor)[i]? with
    | none => rfl
    | some s =>
      have rows := shownOf_mergePage (pageLimit limit) given_distinct (given_at limit answers before at_)
      change shownOf s.id (shownNext registry sensor limit answers before) = _ at rows
      rw [Option.map_some, Option.map_some, Option.map_some, List.drop_drop, shownOf_append, List.length_append, rows, merged]

/-- A run that every sensor answers is merged like one page. -/
theorem capturePages_all (reached : Reached registry sensor before cursor) (plain : ∀ s ∈ registry.asked sensor, Plain s.id)
    {answers : List (String → Bool)} (all : ∀ a ∈ answers, ∀ s ∈ registry.asked sensor, a s.id = true)
    {pages : List CapturesPage} (goes : capturePages registry sensor limit cursor answers = some pages) :
    (pages.flatMap CapturesPage.captures).map FleetCapture.capture =
      (HeadMerge.merge ListedCapture.startKey (answers.length * pageLimit limit)
        ((registry.asked sensor).map fun s => s.captures.drop (shownOf s.id before).length)).map Prod.snd := by
  induction answers generalizing before cursor pages with
  | nil =>
    cases goes
    rw [List.length_nil, zero_mul]
    rfl
  | cons a answers ih =>
    obtain ⟨first, rest⟩ := List.forall_mem_cons.mp all
    obtain ⟨page, asked, rows, next, -⟩ := fleetCaptures_next limit a reached plain
    rw [capturePages, asked, Option.bind_some] at goes
    obtain ⟨later, further, rfl⟩ := Option.map_eq_some_iff.mp goes
    obtain ⟨shown, left⟩ := shownNext_all limit before first
    have tail := ih next rest further
    rw [rows, ← left] at tail
    rw [List.flatMap_cons, List.map_append, rows, shown, tail, List.length_cons, Nat.succ_mul, add_comm, HeadMerge.merge_add,
      List.map_append]

theorem reached_start : Reached registry sensor [] none := by
  refine ⟨Dict.empty, rfl, fun s _ => ⟨rfl, List.nil_prefix⟩⟩

theorem PageRight.plain {answers : String → Bool} {page : CapturesPage}
    (right : PageRight registry sensor limit before answers page) : ∀ s ∈ registry.asked sensor, Plain s.id := by
  intro s isAsked
  obtain ⟨d, read, entries⟩ := right.cursor
  have none : ∀ e ∈ (Dict.empty : Dict String Nat).entries, Plain e.1 := fun e isIn => absurd isIn List.not_mem_nil
  have member : (s.id, (shownOf s.id (before ++ page.captures)).length) ∈ d.entries := by
    rw [entries]
    exact List.mem_map_of_mem isAsked
  exact foldlM_plain not_mem_splitOn none read _ member

theorem pagedOnce_iff (registry : CaptureRegistry) (sensor : Option String) (limit : ℤ) (answers : List (String → Bool)) :
    PagedOnce registry sensor limit answers ↔
      (answers = [] ∨ ∀ s ∈ registry.asked sensor, Plain s.id) ∧
        ∀ pages, capturePages registry sensor limit none answers = some pages →
          Along (PageCounted registry sensor limit) [] answers pages := by
  constructor
  · rintro ⟨pages, goes, right, -⟩
    have plain : answers = [] ∨ ∀ s ∈ registry.asked sensor, Plain s.id := by
      cases answers with
      | nil => exact Or.inl rfl
      | cons a answers =>
        cases pages with
        | nil => exact right.elim
        | cons page pages => exact Or.inr right.1.plain
    refine ⟨plain, fun pages' goes' => ?_⟩
    cases Option.some.inj (goes.symm.trans goes')
    rcases plain with rfl | plain
    · cases goes
      trivial
    · obtain ⟨pages', goes', iff⟩ := reached_start.pages limit plain answers
      cases Option.some.inj (goes.symm.trans goes')
      exact iff.mp right
  · rintro ⟨rfl | plain, counted⟩
    · exact ⟨[], rfl, trivial, fun _ _ => List.Pairwise.nil⟩
    · obtain ⟨pages, goes, iff⟩ := reached_start.pages limit plain answers
      refine ⟨pages, goes, iff.mpr (counted pages goes), fun newest all => ?_⟩
      rw [capturePages_all reached_start plain all goes, NewestFirst, List.pairwise_map]
      refine HeadMerge.merge_descends (fun l member => ?_) _
      obtain ⟨s, isAsked, rfl⟩ := List.mem_map.mp member
      exact (newest s isAsked).sublist (List.drop_sublist _ _)

/-- Paging is right as long as ids are plain and no page leaves fewer captures
than the sensors that do not answer it have shown; a cursor reads back when its
ids are plain; and a number of digits that `int` does not read raises. -/
theorem paged_once_iff (registry : CaptureRegistry) (sensor : Option String) (limit : ℤ) (answers : List (String → Bool))
    (cursor : Dict String Nat) (raw : Option (List Char)) :
    (PagedOnce registry sensor limit answers ↔
      (answers = [] ∨ ∀ s ∈ registry.asked sensor, Plain s.id) ∧
        ∀ pages, capturePages registry sensor limit none answers = some pages →
          Along (PageCounted registry sensor limit) [] answers pages) ∧
    (((formatCursor cursor.entries).bind fun text => parseCursor (some text)) = some cursor ↔
      ∀ e ∈ cursor.entries, Plain e.1 ∧ e.2 < 10 ^ maxStrDigits) ∧
    (parseCursor raw = some (wellFormedParts raw) ↔ ∀ part ∈ (raw.getD []).splitOn ',', Readable part) :=
  ⟨pagedOnce_iff registry sensor limit answers, round_trip_iff cursor, parses_iff raw⟩

section Silent

/-- A sensor with a few captures without times. -/
def untimed (id : String) (names : List String) (few : names.length < 10) : CaptureSensor where
  sensor := ⟨id, id, "red"⟩
  enabled := true
  captures := names.map fun name => ⟨name, none⟩
  countable := by
    rw [List.length_map]
    exact few.trans_le (Nat.le_self_pow (by decide) 10)

def two : CaptureRegistry where
  sensors := [untimed "a" ["a1"] (by decide), untimed "b" ["b1", "b2"] (by decide)]
  distinct := by decide

/-- The first page is answered by both sensors, the second one by `b`. -/
def thenB : List (String → Bool) := [fun _ => true, fun id => id = "b"]

theorem silent_run : (capturePages two none 1 none thenB).map (fun pages => pages.map fun page => (page.captures, page.more)) =
    some [([⟨⟨"a", "a", "red"⟩, ⟨"a1", none⟩⟩], true), ([⟨⟨"b", "b", "red"⟩, ⟨"b1", none⟩⟩], false)] := by
  decide +kernel

/-- The second page counts the capture of the sensor that does not answer. -/
theorem paged_once_fails :
    (¬ ∀ registry sensor limit answers, PagedOnce registry sensor limit answers) ∧
    (¬ ∀ cursor : Dict String Nat,
      ((formatCursor cursor.entries).bind fun text => parseCursor (some text)) = some cursor) ∧
    ¬ ∀ raw : Option (List Char), parseCursor raw = some (wellFormedParts raw) := by
  refine ⟨fun claimed => ?_, fun claimed => ?_, fun claimed => ?_⟩
  · obtain ⟨pages, goes, right, -⟩ := claimed two none 1 thenB
    have run := silent_run
    rw [goes, Option.map_some, Option.some.injEq] at run
    match pages, run, right with
    | [_, _], run, ⟨_, right, _⟩ =>
      obtain ⟨shown, -⟩ := Prod.mk.inj (List.cons_eq_cons.mp run).1
      obtain ⟨shown', noMore⟩ := Prod.mk.inj (List.cons_eq_cons.mp (List.cons_eq_cons.mp run).2).1
      have more := right.more.mpr ⟨untimed "b" ["b1", "b2"] (by decide), List.mem_cons_of_mem _ List.mem_cons_self, rfl, by
        rw [shown, shown']
        decide⟩
      rw [noMore] at more
      nomatch more
  · exact absurd (claimed ⟨[("a,b", 1)], by decide⟩) (by decide +kernel)
  · exact absurd (claimed (some "a:²".toList)) (by decide +kernel)

end Silent

end RFObserver
