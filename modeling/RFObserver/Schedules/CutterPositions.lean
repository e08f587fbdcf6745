import RFObserver.Schedules.CutterBooksRuns

namespace RFObserver
open LossyStream

variable {α : Type*}

/-- Where the stream has come with one more call. -/
def CutterCall.next (k : CutterCall α) (next : Nat) : Nat :=
  match k with
  | .feed k => k.chunkStart + k.samples.length
  | .endRun _ => next

namespace RunCutter

theorem iq_breaks (f : Feeding α) (data : List α) : (iq f data).1.breaks = f.1.breaks := by
  unfold iq
  dsimp only
  split <;> simp

theorem zeros_breaks (f : Feeding α) (count pos : Nat) (shifts : Bool) :
    f.1.breaks <+: (zeros f count pos shifts).1.breaks := by
  unfold zeros
  dsimp only
  split
  · cases shifts <;> simp
  · simp

theorem chunkLoop_breaks (samples : List α) (chunkStart start pos : Nat) (gaps : Gaps) (f : Feeding α) :
    f.1.breaks <+: (chunkLoop samples chunkStart start pos gaps f).1.breaks := by
  induction gaps generalizing pos f with
  | nil => exact (iq_breaks f _).symm ▸ List.prefix_rfl
  | cons g gaps ih =>
    unfold chunkLoop
    split
    · exact ih pos f
    · have filled := zeros_breaks (iq f ((samples.take g.1).drop pos)) g.2 (chunkStart + g.1) true
      rw [iq_breaks] at filled
      exact filled.trans (ih g.1 _)

/-- A run that is not done has room. -/
theorem chunkLoop_open (samples : List α) (chunkStart start pos : Nat) (gaps : Gaps) (f : Feeding α)
    (running : (chunkLoop samples chunkStart start pos gaps f).1.done = false) :
    0 < (chunkLoop samples chunkStart start pos gaps f).1.room := by
  induction gaps generalizing pos f with
  | nil =>
    unfold chunkLoop iq at running ⊢
    dsimp only at running ⊢
    have open_ : ∀ c : RunCutter, c.checkDone.done = false → 0 < c.checkDone.room := by
      intro c undone
      unfold checkDone at undone ⊢
      split_ifs at undone ⊢ with full
      simp only [room]
      omega
    split at running <;> rename_i some
    · rw [if_pos some]
      exact open_ _ running
    · rw [if_neg some]
      exact open_ _ running
  | cons g gaps ih =>
    unfold chunkLoop at running ⊢
    split at running <;> rename_i ahead
    · rw [if_pos ahead]
      exact ih _ _ running
    · rw [if_neg ahead]
      exact ih _ _ running

theorem continueRun_breaks (c : RunCutter) (samples : List α) (chunkStart : Nat) (gaps : Gaps) :
    c.breaks <+: (c.continueRun samples chunkStart gaps).1.breaks := by
  have skipped : c.breaks <+:
      (if c.nextPos < chunkStart then zeros (c, []) (chunkStart - c.nextPos) chunkStart false
        else ((c, []) : Feeding α)).1.breaks := by
    split
    · exact zeros_breaks (c, []) _ _ _
    · exact List.prefix_rfl
  exact (skipped.trans (zeros_breaks _ _ _ _)).trans (chunkLoop_breaks ..)

theorem begin_open {c : RunCutter} {samples : List α} {chunkStart : Nat} {captureTime : ℚ} {gaps : Gaps}
    {ring : Option (CircularBuffer α)} (fresh : c.started = false)
    (started : (c.begin samples chunkStart captureTime gaps ring).1.started = true)
    (running : (c.begin samples chunkStart captureTime gaps ring).1.done = false) :
    0 < (c.begin samples chunkStart captureTime gaps ring).1.room := by
  unfold begin at started running ⊢
  dsimp only at started running ⊢
  split_ifs at started running ⊢
  · rw [fresh] at started
    cases started
  · exact chunkLoop_open _ _ _ _ _ _ running
  · exact chunkLoop_open _ _ _ _ _ _ running
  · exact chunkLoop_open _ _ _ _ _ _ running

/-- A run under way or ended: what it was offered, and up to where the stream
has come. -/
structure Running (spec : RunSpec) (stamp : α → Nat) (start next : Nat) (c : RunCutter) (offered : List (Cell α)) :
    Prop where
  books : ∃ before c', Books spec stamp start before (c', []) offered ∧ c = { c' with done := c.done, reason := c.reason }
  awaits : c.done = false → c.nextPos = next ∧ next = start + (positions stamp offered).length ∧
    offered.length < spec.nSamples

section Positions
variable {spec : RunSpec} {stamp : α → Nat} {start next next' : Nat} {c c' : RunCutter} {offered more : List (Cell α)}

theorem Running.open_books (running : Running spec stamp start next c offered) (undone : c.done = false) :
    ∃ before, Books spec stamp start before (c, []) offered := by
  obtain ⟨before, c', books, same⟩ := running.books
  have again : Books spec stamp start before ({ c' with done := c.done, reason := c.reason }, []) offered :=
    { books with full := by simp [undone] }
  rw [← same] at again
  exact ⟨before, again⟩

theorem Running.ended (running : Running spec stamp start next c offered) (reason : String) (next' : Nat) :
    Running spec stamp start next' (c.endRun reason) offered := by
  obtain ⟨before, c', books, same⟩ := running.books
  refine ⟨⟨before, c', books, ?_⟩, ?_⟩
  · unfold endRun
    split_ifs
    · exact same
    · conv_lhs => rw [same]
  · intro undone
    unfold endRun at undone
    split_ifs at undone with done
    rw [done] at undone
    cases undone

theorem Running.call (running : Running spec stamp start next c offered) {k : CutterCall α}
    (stream : InStream stamp next [k]) : ∃ more, Running spec stamp start (k.next next) (c.call k).1 (offered ++ more) := by
  by_cases done : c.done = true
  · rw [call_done done]
    exact ⟨[], by simpa using running.books, by simp [done]⟩
  · have undone : c.done = false := by simpa using done
    cases k with
    | endRun reason =>
      exact ⟨[], (List.append_nil offered).symm ▸ running.ended reason _⟩
    | feed k =>
      obtain ⟨later, stamped, inside, -, -⟩ := stream
      obtain ⟨before, books⟩ := running.open_books undone
      obtain ⟨awaited, nextEq, -⟩ := running.awaits undone
      have step : c.feedOf k = if k.centerFreqHz ≠ spec.centerFreqHz then (c.endRun "retuned", [])
          else c.continueRun k.samples k.chunkStart k.gaps := by
        rw [feedOf, feed, if_neg done, if_pos books.started, books.ofSpec]
      by_cases retuned : k.centerFreqHz ≠ spec.centerFreqHz
      · rw [if_pos retuned] at step
        simp only [RunCutter.call, step]
        exact ⟨[], (List.append_nil offered).symm ▸ running.ended "retuned" _⟩
      · rw [if_neg retuned] at step
        simp only [RunCutter.call, step]
        obtain ⟨whole, ends⟩ := continueRun_books books (awaited.trans nextEq) (awaited ▸ later) stamped inside
        refine ⟨_, ⟨_, _, whole.close, rfl⟩, fun undone => ⟨rfl, ends.symm, ?_⟩⟩
        have room : 0 < (c.continueRun k.samples k.chunkStart k.gaps).1.room := chunkLoop_open _ _ _ _ _ _ undone
        rw [whole.room] at room
        omega

theorem begin_running {k : Fed α} (stream : InStream stamp next [.feed k]) :
    ((create spec).call (.feed k)).1 = create spec ∨
      ∃ start offered, Running spec stamp start (k.chunkStart + k.samples.length)
        ((create spec).call (.feed k)).1 offered := by
  obtain ⟨-, stamped, inside, holds, -⟩ := stream
  change ((create spec).begin k.samples k.chunkStart k.captureTime k.gaps k.ring).1 = create spec ∨
    ∃ start offered, Running spec stamp start (k.chunkStart + k.samples.length)
      ((create spec).begin k.samples k.chunkStart k.captureTime k.gaps k.ring).1 offered
  rcases begin_books (@rfl _ (create spec)) stamped inside holds k.captureTime with idle | ⟨begun, next⟩
  · exact Or.inl (by rw [idle])
  · obtain ⟨start, head, books, -, ends⟩ := begun
    refine Or.inr ⟨start, head, ⟨_, _, books.close, rfl⟩, fun undone => ⟨next, ends.symm, ?_⟩⟩
    have room := begin_open rfl books.started undone
    rw [books.room] at room
    omega

theorem Running.streamStart (running : Running spec stamp start next c offered) : c.streamStart = some start := by
  obtain ⟨before, c', books, same⟩ := running.books
  rw [same]
  exact books.streamStart

theorem Running.streamEnd (running : Running spec stamp start next c offered) :
    c.streamEnd = some (start + (positions stamp (offered.take spec.nSamples)).length) := by
  obtain ⟨before, c', books, same⟩ := running.books
  have zeros := books.zeros
  rw [RunCutter.streamEnd, same]
  dsimp only at zeros ⊢
  rw [books.streamStart, Option.map_some]
  congr 1
  omega

/-- Until a run ends its file goes as far as the stream. -/
theorem Running.streamEnd_open (running : Running spec stamp start next c offered) (undone : c.done = false) :
    c.streamEnd = some next := by
  obtain ⟨-, nextEq, length⟩ := running.awaits undone
  rw [running.streamEnd, List.take_of_length_le length.le, nextEq]

theorem Running.fileIndex_mono (running : Running spec stamp start next c offered) {p q : Nat} {i j : ℤ}
    (less : p < q) (atP : c.fileIndex p = some i) (atQ : c.fileIndex q = some j) : i + (q - p) ≤ j := by
  obtain ⟨before, c', books, same⟩ := running.books
  have breaks : c.breaks = c'.breaks := by rw [same]
  have rises : StepFunction.value 0 c.breaks p ≤ StepFunction.value 0 c.breaks q := by
    rw [breaks]
    exact StepFunction.value_mono books.rising (fun _ _ => Nat.zero_le _) less.le
  rw [fileIndex, running.streamStart, Option.map_some, Option.some.injEq] at atP atQ
  omega

/-- A stream position the file covers has its index there. -/
theorem Running.fileIndex_inside (running : Running spec stamp start next c offered) {p : Nat} (after : start ≤ p)
    (within : p < start + (positions stamp (offered.take spec.nSamples)).length) :
    ∃ (i : Nat) (cell : Cell α), (offered.take spec.nSamples)[i]? = some cell ∧ cell.position stamp = some p ∧
      c.fileIndex p = some (i : ℤ) := by
  obtain ⟨before, c', books, same⟩ := running.books
  have member : p ∈ positions stamp (offered.take spec.nSamples) := by
    rw [books.order_take, List.mem_range'_1]
    exact ⟨after, within⟩
  obtain ⟨cell, covered, stands⟩ := List.mem_filterMap.mp member
  obtain ⟨i, inside, rfl⟩ := List.mem_iff_getElem.mp covered
  refine ⟨i, _, List.getElem?_eq_getElem inside, stands, ?_⟩
  rw [fileIndex, running.streamStart, Option.map_some, books.index i _ p (List.getElem?_eq_getElem inside) stands, same]

/-- What a run is offered later does not move what it has. -/
theorem Running.fileIndex_stable (running : Running spec stamp start next c offered)
    (later : Running spec stamp start next' c' (offered ++ more)) {p : Nat} (after : start ≤ p)
    (within : p < start + (positions stamp (offered.take spec.nSamples)).length) :
    c'.fileIndex p = c.fileIndex p := by
  obtain ⟨i, cell, covered, stands, index⟩ := running.fileIndex_inside after within
  obtain ⟨before, c'', books, same⟩ := later.books
  have still : ((offered ++ more).take spec.nSamples)[i]? = some cell := by
    rw [List.take_append, List.getElem?_append_left (List.getElem?_eq_some_iff.mp covered).1]
    exact covered
  rw [index, fileIndex, later.streamStart, Option.map_some, books.index i cell p still stands, same]

theorem positions_take_le (more : List (Cell α)) :
    (positions stamp (offered.take spec.nSamples)).length ≤
      (positions stamp ((offered ++ more).take spec.nSamples)).length := by
  rw [List.take_append, positions_append, List.length_append]
  exact Nat.le_add_right _ _

/-- The breaks only grow from call to call. -/
theorem call_breaks (running : Running spec stamp start next c offered) (k : CutterCall α) :
    c.breaks <+: (c.call k).1.breaks := by
  by_cases done : c.done = true
  · rw [call_done done]
  · obtain ⟨before, books⟩ := running.open_books (by simpa using done)
    cases k with
    | endRun reason =>
      simp only [RunCutter.call, endRun, if_neg done]
      exact List.prefix_rfl
    | feed k =>
      simp only [RunCutter.call, feedOf, feed, if_neg done, if_pos books.started]
      split_ifs
      · simp only [endRun, if_neg done]
        exact List.prefix_rfl
      · exact continueRun_breaks ..

/-- A position's file index only grows from call to call. -/
theorem Running.fileIndex_le (running : Running spec stamp start next c offered) {k : CutterCall α}
    (later : Running spec stamp start next' (c.call k).1 (offered ++ more)) {p : Nat} {i j : ℤ}
    (before : c.fileIndex p = some i) (after : (c.call k).1.fileIndex p = some j) : i ≤ j := by
  obtain ⟨added, grown⟩ := call_breaks running k
  obtain ⟨file, c'', books, same⟩ := later.books
  have breaks : (c.call k).1.breaks = c''.breaks := by rw [same]
  have rising := books.rising
  rw [← breaks, ← grown] at rising
  have rises : StepFunction.value 0 c.breaks p ≤ StepFunction.value 0 (c.breaks ++ added) p :=
    StepFunction.value_le_append rising fun _ _ => Nat.zero_le _
  rw [fileIndex, running.streamStart, Option.map_some, Option.some.injEq] at before
  rw [fileIndex, later.streamStart, Option.map_some, Option.some.injEq, ← grown] at after
  omega

end Positions
end RunCutter
end RFObserver
