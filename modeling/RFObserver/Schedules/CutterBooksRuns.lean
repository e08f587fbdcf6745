import RFObserver.Schedules.CutterBooks

namespace RFObserver
open LossyStream

variable {α : Type*}

/-- One call of `feed`. -/
structure Fed (α : Type*) where
  samples : List α
  chunkStart : Nat
  captureTime : ℚ
  gaps : Gaps
  centerFreqHz : ℚ
  ring : Option (CircularBuffer α)

inductive CutterCall (α : Type*)
  | feed (k : Fed α)
  | endRun (reason : String)

namespace RunCutter

def feedOf (c : RunCutter) (k : Fed α) : Feeding α :=
  c.feed k.samples k.chunkStart k.captureTime k.gaps k.centerFreqHz k.ring

def call (c : RunCutter) : CutterCall α → Feeding α
  | .feed k => c.feedOf k
  | .endRun reason => (c.endRun reason, [])

def runCalls (c : RunCutter) : List (CutterCall α) → Feeding α
  | [] => (c, [])
  | k :: ks => ((runCalls (c.call k).1 ks).1, (c.call k).2 ++ (runCalls (c.call k).1 ks).2)

/-- Calls of one stream: its chunks follow each other, with positions skipped
or not, each sample at its position, and so do the samples in the rings. -/
def InStream (stamp : α → Nat) : Nat → List (CutterCall α) → Prop
  | _, [] => True
  | next, .endRun _ :: ks => InStream stamp next ks
  | next, .feed k :: ks => next ≤ k.chunkStart ∧ Stamped stamp k.chunkStart k.samples ∧
      (∀ g ∈ k.gaps, g.1 ≤ k.samples.length) ∧ HoldsStream stamp k.ring ∧
      InStream stamp (k.chunkStart + k.samples.length) ks

/-- What the calls offer a run that awaits position `next`, up to the one
that ends it. -/
def laterCells (centerFreqHz : ℚ) : Nat → List (CutterCall α) → List (Cell α)
  | _, [] => []
  | _, .endRun _ :: _ => []
  | next, .feed k :: ks =>
    if k.centerFreqHz ≠ centerFreqHz then []
    else callCells next k.samples k.chunkStart k.gaps ++
      laterCells centerFreqHz (k.chunkStart + k.samples.length) ks

section Runs
variable {spec : RunSpec} {stamp : α → Nat} {start next : Nat} {before : List (Option α)} {c : RunCutter}
  {ops : List (Op α)} {offered : List (Cell α)} {calls : List (CutterCall α)}

theorem call_done (done : c.done = true) (k : CutterCall α) : c.call k = (c, []) := by
  cases k with
  | feed k => exact if_pos done
  | endRun reason => exact Prod.ext (if_pos done) rfl

theorem runCalls_done (done : c.done = true) (calls : List (CutterCall α)) : c.runCalls calls = (c, []) := by
  induction calls with
  | nil => rfl
  | cons k ks ih => simp only [runCalls, call_done done, ih, List.nil_append]

theorem runCalls_append (c : RunCutter) (ks ks' : List (CutterCall α)) :
    c.runCalls (ks ++ ks') =
      (((c.runCalls ks).1.runCalls ks').1, (c.runCalls ks).2 ++ ((c.runCalls ks).1.runCalls ks').2) := by
  induction ks generalizing c with
  | nil => rfl
  | cons k ks ih => simp only [List.cons_append, runCalls, ih, List.append_assoc]

/-- The file up to a call and what the call writes, seen as one. -/
theorem Books.close (books : Books spec stamp start before (c, ops) offered) :
    Books spec stamp start (before ++ timeSamples ops) (c, []) offered :=
  { books with file := by simpa [timeSamples] using books.file }

theorem Books.join {more : List (Op α)} (books : Books spec stamp start (before ++ timeSamples ops) (c, more) offered) :
    Books spec stamp start before (c, ops ++ more) offered := by
  have file : before ++ timeSamples (ops ++ more) = contents (offered.take spec.nSamples) := by
    rw [timeSamples_append, ← List.append_assoc]
    exact books.file
  exact { books with file := file }

/-- The books of a run are those of a cutter that was fed the same and not ended. -/
def Kept (spec : RunSpec) (stamp : α → Nat) (start : Nat) (before : List (Option α)) (f : Feeding α)
    (cells : List (Cell α)) : Prop :=
  ∃ c offered, Books spec stamp start before (c, f.2) offered ∧ offered.take spec.nSamples = cells.take spec.nSamples ∧
    f.1 = { c with done := f.1.done, reason := f.1.reason }

theorem runCalls_ended (books : Books spec stamp start before (c, []) offered) (reason : String)
    (calls : List (CutterCall α)) :
    Kept spec stamp start before ((c.endRun reason).runCalls calls) offered := by
  have ended : (c.endRun reason).done = true := by
    unfold endRun
    split_ifs with done
    · exact done
    · rfl
  rw [runCalls_done ended]
  refine ⟨c, offered, books, rfl, ?_⟩
  unfold endRun
  split_ifs <;> rfl

theorem runCalls_books (books : Books spec stamp start before (c, []) offered)
    (awaits : c.done = false → c.nextPos = next ∧ next = start + (positions stamp offered).length)
    (stream : InStream stamp next calls) :
    Kept spec stamp start before (c.runCalls calls) (offered ++ laterCells spec.centerFreqHz next calls) := by
  induction calls generalizing c before offered next with
  | nil => exact ⟨c, offered, books, by rw [laterCells, List.append_nil], rfl⟩
  | cons k ks ih =>
    by_cases done : c.done = true
    · have full := books.full done
      rw [books.room] at full
      rw [runCalls_done done]
      refine ⟨c, offered, books, ?_, rfl⟩
      rw [List.take_append_of_le_length (by omega)]
    · obtain ⟨awaited, nextEq⟩ := awaits (by simpa using done)
      cases k with
      | endRun reason =>
        rw [laterCells, List.append_nil]
        exact runCalls_ended books reason ks
      | feed k =>
        obtain ⟨later, stamped, inside, -, rest⟩ := stream
        have step : c.feedOf k = if k.centerFreqHz ≠ spec.centerFreqHz then (c.endRun "retuned", [])
            else c.continueRun k.samples k.chunkStart k.gaps := by
          rw [feedOf, feed, if_neg done, if_pos books.started, books.ofSpec]
        by_cases retuned : k.centerFreqHz ≠ spec.centerFreqHz
        · rw [laterCells, if_pos retuned, List.append_nil]
          rw [if_pos retuned] at step
          simp only [runCalls, call, step, List.nil_append]
          exact runCalls_ended books "retuned" ks
        · rw [laterCells, if_neg retuned]
          rw [if_neg retuned] at step
          simp only [runCalls, call, step]
          obtain ⟨whole, ends⟩ := continueRun_books books (awaited.trans nextEq) (awaited ▸ later) stamped inside
          obtain ⟨c', offered', books', cells, same⟩ := ih whole.close (fun _ => ⟨rfl, ends.symm⟩) rest
          rw [awaited, List.append_assoc] at cells
          exact ⟨c', offered', books'.join, cells, same⟩

/-- The run starts with call `k` of these calls. -/
def StartsWith (spec : RunSpec) (calls earlier : List (CutterCall α)) (k : Fed α) (later : List (CutterCall α)) : Prop :=
  calls = earlier ++ .feed k :: later ∧ ((create spec).runCalls earlier).1.started = false ∧
    ((create spec).runCalls (earlier ++ [.feed k])).1.started = true

theorem runCalls_pending (stream : InStream stamp next calls) :
    (((create spec).runCalls calls).2 = [] ∧ ((create spec).runCalls calls).1 = { create spec with
        done := ((create spec).runCalls calls).1.done, reason := ((create spec).runCalls calls).1.reason }) ∨
      ∃ earlier k later start head, StartsWith spec calls earlier k later ∧ Unskipped head ∧
        Kept spec stamp start [] ((create spec).runCalls calls)
          (head ++ laterCells spec.centerFreqHz (k.chunkStart + k.samples.length) later) := by
  induction calls generalizing next with
  | nil => exact Or.inl ⟨rfl, rfl⟩
  | cons k ks ih =>
    cases k with
    | endRun reason =>
      refine Or.inl ?_
      simp only [runCalls, call]
      rw [runCalls_done rfl]
      exact ⟨rfl, rfl⟩
    | feed k =>
      obtain ⟨later, stamped, inside, holds, rest⟩ := stream
      have step : (create spec).call (.feed k) =
          (create spec).begin k.samples k.chunkStart k.captureTime k.gaps k.ring := rfl
      rcases begin_books (@rfl _ (create spec)) stamped inside holds k.captureTime with idle | ⟨begun, next⟩
      · rw [← step] at idle
        rcases ih rest with unstarted | ⟨earlier, k', later, start, head, ⟨shape, before, after⟩, kept⟩
        · refine Or.inl ?_
          simp only [runCalls, idle, List.nil_append]
          exact unstarted
        · refine Or.inr ⟨.feed k :: earlier, k', later, start, head, ⟨congrArg _ shape, ?_, ?_⟩, ?_⟩
          · simpa only [runCalls, idle] using before
          · simpa only [List.cons_append, runCalls, idle] using after
          · simpa only [runCalls, idle, List.nil_append] using kept
      · rw [← step] at begun next
        obtain ⟨start, head, books, unskipped, ends⟩ := begun
        refine Or.inr ⟨[], k, ks, start, head, ⟨rfl, rfl, ?_⟩, unskipped, ?_⟩
        · simpa only [List.nil_append, runCalls] using books.started
        · obtain ⟨c, offered, books', cells, same⟩ := runCalls_books books.close (fun _ => ⟨next, ends.symm⟩) rest
          exact ⟨c, offered, books'.join, cells, same⟩

end Runs

section Reports
variable {spec : RunSpec} {stamp : α → Nat} {start : Nat} {f : Feeding α} {cells : List (Cell α)}

theorem Kept.fileIndex_mono (kept : Kept spec stamp start [] f cells) {p q : Nat} {i j : ℤ} (less : p < q)
    (atP : f.1.fileIndex p = some i) (atQ : f.1.fileIndex q = some j) : i < j := by
  obtain ⟨c, offered, books, -, same⟩ := kept
  have breaks : f.1.breaks = c.breaks := by rw [same]
  have rises : StepFunction.value 0 f.1.breaks p ≤ StepFunction.value 0 f.1.breaks q := by
    rw [breaks]
    exact StepFunction.value_mono books.rising (fun _ _ => Nat.zero_le _) less.le
  obtain ⟨s, hasStart, rfl⟩ := Option.map_eq_some_iff.mp atP
  rw [fileIndex, hasStart, Option.map_some, Option.some.injEq] at atQ
  omega

theorem Kept.fileIndex_eq (kept : Kept spec stamp start [] f cells) {i : Nat} {x : α}
    (written : (timeSamples f.2)[i]? = some (some x)) : f.1.fileIndex (stamp x) = some (i : ℤ) := by
  obtain ⟨c, offered, books, -, same⟩ := kept
  have file := books.file
  rw [List.nil_append] at file
  rw [file, contents, List.getElem?_map] at written
  obtain ⟨cell, here, content⟩ := Option.map_eq_some_iff.mp written
  have stands : cell.position stamp = some (stamp x) := by
    cases cell <;> cases content
    rfl
  rw [fileIndex, same]
  dsimp only
  rw [books.streamStart, Option.map_some, books.index i cell (stamp x) here stands]

theorem Kept.gaps (kept : Kept spec stamp start [] f cells) :
    Stretches.Of f.1.gaps ((timeSamples f.2).map Option.isNone) ∧ Stretches.Separated f.1.gaps ∧
      f.1.lost = Stretches.total f.1.gaps := by
  obtain ⟨c, offered, books, -, same⟩ := kept
  have file := books.file
  rw [List.nil_append] at file
  rw [file, same]
  exact ⟨books.gaps, books.separated, books.lost⟩

theorem Kept.coverage (kept : Kept spec stamp start [] f cells) :
    timeSamples f.2 = contents (cells.take spec.nSamples) ∧
      positions stamp (cells.take spec.nSamples) =
        List.range' start (positions stamp (cells.take spec.nSamples)).length ∧
      f.1.streamStart = some start ∧
      f.1.streamEnd = some (start + (positions stamp (cells.take spec.nSamples)).length) := by
  obtain ⟨c, offered, books, taken, same⟩ := kept
  have file := books.file
  have zeros := books.zeros
  rw [List.nil_append] at file
  rw [taken] at file zeros
  refine ⟨file, ?_, ?_, ?_⟩
  · rw [← taken]
    exact books.order_take
  · rw [same]
    exact books.streamStart
  · rw [streamEnd, same]
    dsimp only at zeros ⊢
    rw [books.streamStart, Option.map_some]
    congr 1
    omega

end Reports

/-- A cutter's books are exact, whatever calls it gets of one stream. -/
theorem runCalls_exact (spec : RunSpec) (stamp : α → Nat) (calls : List (CutterCall α))
    (stream : InStream stamp 0 calls) :
    let r := (create spec).runCalls calls
    let file := timeSamples r.2
    (Stretches.Of r.1.info.gaps (file.map Option.isNone) ∧ Stretches.Separated r.1.info.gaps ∧
      r.1.info.lostSamples = Stretches.total r.1.info.gaps) ∧
    (∀ (i : Nat) x, file[i]? = some (some x) → r.1.fileIndex (stamp x) = some (i : ℤ)) ∧
    (∀ p q i j, p < q → r.1.fileIndex p = some i → r.1.fileIndex q = some j → i < j) ∧
    (r.1.started = false ∧ file = [] ∧ r.1.streamEnd = none ∨
      ∃ earlier k later start head, StartsWith spec calls earlier k later ∧ Unskipped head ∧
        let cells := (head ++ laterCells spec.centerFreqHz (k.chunkStart + k.samples.length) later).take spec.nSamples
        file = contents cells ∧ positions stamp cells = List.range' start (positions stamp cells).length ∧
          r.1.info.streamStart = some start ∧ r.1.streamEnd = some (start + (positions stamp cells).length)) := by
  intro r file
  rcases @runCalls_pending _ spec _ _ _ stream with
    ⟨none, same⟩ | ⟨earlier, k, later, start, head, starts, whole, kept⟩
  · have empty : file = [] := congrArg timeSamples none
    have unplaced : r.1.streamStart = Option.none := by rw [same]; rfl
    refine ⟨?_, ?_, ?_, Or.inl ⟨by rw [same]; rfl, empty, by rw [streamEnd, unplaced]; rfl⟩⟩
    · rw [empty, info, same]
      exact ⟨Stretches.of_nil, List.Pairwise.nil, rfl⟩
    · rw [empty]
      simp
    · intro p q i j _ atP
      rw [fileIndex, unplaced] at atP
      cases atP
  · exact ⟨kept.gaps, fun i x => kept.fileIndex_eq, fun p q i j => kept.fileIndex_mono,
      Or.inr ⟨earlier, k, later, start, head, starts, whole, kept.coverage⟩⟩

theorem runCalls_exact_skipping :
    let spec : RunSpec := ⟨"s", 0, 0, 6, 1000, 100, ""⟩
    let calls : List (CutterCall Nat) :=
      [.feed ⟨[0, 1], 0, 0, [], 100, none⟩, .feed ⟨[3, 4], 3, 0, [(1, 2)], 100, none⟩]
    let r := (create spec).runCalls calls
    timeSamples r.2 = [some 0, some 1, none, some 3, none, none] ∧ r.1.fileIndex 3 = some 3 ∧
      Stretches.Separated r.1.info.gaps := by
  intro spec calls r
  have file : timeSamples r.2 = [some 0, some 1, none, some 3, none, none] := by decide +kernel
  have books := runCalls_exact spec id calls
    ⟨le_rfl, rfl, by simp, by simp [HoldsStream], by decide, rfl, by simp, by simp [HoldsStream], trivial⟩
  exact ⟨file, books.2.1 3 3 (by rw [file]; rfl), books.1.2.1⟩

end RunCutter
end RFObserver
