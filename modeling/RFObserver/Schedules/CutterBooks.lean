import RFObserver.Schedules.CutterTimeline

namespace RFObserver
open LossyStream

variable {α : Type*}

/-- What one sample of a run's file stands for: a received sample, a stream
position that was skipped, or a sample lost between two stream positions. -/
inductive Cell (α : Type*)
  | sample (x : α)
  | skipped (pos : Nat)
  | lost

namespace Cell

def content : Cell α → Option α
  | sample x => some x
  | _ => none

def position (stamp : α → Nat) : Cell α → Option Nat
  | sample x => some (stamp x)
  | skipped pos => some pos
  | lost => none

/-- A time-sample of one chunk. -/
def received : Option α → Cell α
  | some x => sample x
  | none => lost

/-- The positions from `next` up to `pos`, none of which came. -/
def skips (next pos : Nat) : List (Cell α) := (List.range' next (pos - next)).map skipped

end Cell

open Cell

/-- The stream positions that cells stand for. -/
def positions (stamp : α → Nat) (cells : List (Cell α)) : List Nat := cells.filterMap (Cell.position stamp)

def contents (cells : List (Cell α)) : List (Option α) := cells.map Cell.content

section Cells
variable {stamp : α → Nat} {cells cells' : List (Cell α)}

@[simp] theorem positions_append : positions stamp (cells ++ cells') = positions stamp cells ++ positions stamp cells' :=
  List.filterMap_append

@[simp] theorem positions_samples (xs : List α) : positions stamp (xs.map Cell.sample) = xs.map stamp := by
  rw [positions, List.filterMap_map, ← List.filterMap_eq_map]
  rfl

@[simp] theorem positions_lost (n : Nat) : positions stamp (List.replicate n (Cell.lost : Cell α)) = [] :=
  List.filterMap_replicate_of_none rfl

@[simp] theorem positions_skips (next pos : Nat) :
    positions stamp (skips next pos : List (Cell α)) = List.range' next (pos - next) := by
  unfold positions skips
  induction List.range' next (pos - next) with
  | nil => rfl
  | cons p rest ih => exact congrArg (p :: ·) ih

@[simp] theorem contents_append : contents (cells ++ cells') = contents cells ++ contents cells' := List.map_append

@[simp] theorem contents_samples (xs : List α) : contents (xs.map Cell.sample) = xs.map some := by
  rw [contents, List.map_map]
  rfl

@[simp] theorem contents_lost (n : Nat) : contents (List.replicate n (Cell.lost : Cell α)) = List.replicate n none :=
  List.map_replicate

@[simp] theorem contents_skips (next pos : Nat) :
    contents (skips next pos : List (Cell α)) = List.replicate (pos - next) none := by
  unfold contents skips
  rw [List.map_map, List.eq_replicate_iff, List.length_map, List.length_range']
  refine ⟨rfl, fun x member => ?_⟩
  obtain ⟨p, -, rfl⟩ := List.mem_map.mp member
  rfl

theorem skips_take (next pos n : Nat) :
    (skips next pos : List (Cell α)).take n = skips next (next + min (pos - next) n) := by
  unfold skips
  rw [← List.map_take, Nat.add_sub_cancel_left]
  rcases Nat.le_total (pos - next) n with all | some
  · rw [List.take_range'_of_length_le all, Nat.min_eq_left all]
  · rw [List.take_range'_of_length_ge some, Nat.min_eq_right some]

theorem contents_length : (contents cells).length = cells.length := List.length_map ..

theorem contents_take (n : Nat) : contents (cells.take n) = (contents cells).take n := List.map_take ..

end Cells

namespace RunCutter

/-- The books of a run that started at stream position `start` and was
offered `offered`: `before` is the file up to this call. -/
structure Books (spec : RunSpec) (stamp : α → Nat) (start : Nat) (before : List (Option α)) (f : Feeding α) (offered : List (Cell α)) :
    Prop where
  ofSpec : f.1.spec = spec
  started : f.1.started = true
  full : f.1.done = true → f.1.room = 0
  file : before ++ timeSamples f.2 = contents (offered.take spec.nSamples)
  written : f.1.written = (offered.take spec.nSamples).length
  gaps : Stretches.Of f.1.gaps ((contents (offered.take spec.nSamples)).map Option.isNone)
  separated : Stretches.Separated f.1.gaps
  lost : f.1.lost = Stretches.total f.1.gaps
  streamStart : f.1.streamStart = some start
  order : positions stamp offered = List.range' start (positions stamp offered).length
  zeros : f.1.zerosTotal + (positions stamp (offered.take spec.nSamples)).length = f.1.written
  rising : StepFunction.Rising f.1.breaks
  reached : ∀ b ∈ f.1.breaks, b.1 ≤ start + (positions stamp offered).length ∧ b.2 ≤ f.1.zerosTotal
  latest : ∀ p, start + (positions stamp offered).length ≤ p → StepFunction.value 0 f.1.breaks p = f.1.zerosTotal
  index : ∀ (i : Nat) cell p, (offered.take spec.nSamples)[i]? = some cell → cell.position stamp = some p →
    (i : ℤ) = p - start + StepFunction.value 0 f.1.breaks p

@[simp] theorem checkDone_lost (c : RunCutter) : c.checkDone.lost = c.lost := by
  unfold checkDone; split <;> rfl

@[simp] theorem checkDone_streamStart (c : RunCutter) : c.checkDone.streamStart = c.streamStart := by
  unfold checkDone; split <;> rfl

@[simp] theorem checkDone_breaks (c : RunCutter) : c.checkDone.breaks = c.breaks := by
  unfold checkDone; split <;> rfl

@[simp] theorem checkDone_zerosTotal (c : RunCutter) : c.checkDone.zerosTotal = c.zerosTotal := by
  unfold checkDone; split <;> rfl

section Steps
variable {spec : RunSpec} {stamp : α → Nat} {start : Nat} {before : List (Option α)} {f g : Feeding α} {offered new : List (Cell α)}

theorem Books.room (books : Books spec stamp start before f offered) :
    f.1.room = spec.nSamples - offered.length := by
  rw [RunCutter.room, books.written, books.ofSpec, List.length_take]
  omega

theorem Books.take (books : Books spec stamp start before f offered) :
    (offered ++ new).take spec.nSamples = offered.take spec.nSamples ++ new.take f.1.room := by
  rw [List.take_append, books.room]

/-- The file covers an unbroken stretch of the stream. -/
theorem Books.order_take (books : Books spec stamp start before f offered) :
    positions stamp (offered.take spec.nSamples) =
      List.range' start (positions stamp (offered.take spec.nSamples)).length := by
  have initial : positions stamp (offered.take spec.nSamples) <+: positions stamp offered :=
    (List.take_prefix _ _).filterMap _
  have length := initial.length_le
  have cut := List.prefix_iff_eq_take.mp initial
  rw [books.order, List.take_range'_of_length_ge (by simpa using length)] at cut
  exact cut

/-- More cells: the file takes as many as it has room for. -/
theorem Books.append (books : Books spec stamp start before f offered) (emits : Emits f g (contents new))
    (gaps : Stretches.Of g.1.gaps
      ((contents (offered.take spec.nSamples)).map Option.isNone ++ (contents (new.take f.1.room)).map Option.isNone))
    (separated : Stretches.Separated g.1.gaps) (lost : g.1.lost = Stretches.total g.1.gaps)
    (streamStart : g.1.streamStart = f.1.streamStart)
    (order : positions stamp new =
      List.range' (start + (positions stamp offered).length) (positions stamp new).length)
    (zeros : g.1.zerosTotal + (positions stamp (new.take f.1.room)).length =
      f.1.zerosTotal + (contents (new.take f.1.room)).length)
    (rising : StepFunction.Rising g.1.breaks)
    (reached : ∀ b ∈ g.1.breaks, b.1 ≤ start + (positions stamp offered).length ∧ b.2 ≤ g.1.zerosTotal)
    (latest : ∀ p, start + (positions stamp offered).length + (positions stamp new).length ≤ p →
      StepFunction.value 0 g.1.breaks p = g.1.zerosTotal)
    (old : ∀ p, p < start + (positions stamp offered).length →
      StepFunction.value 0 g.1.breaks p = StepFunction.value 0 f.1.breaks p)
    (index : ∀ (i : Nat) cell p, (new.take f.1.room)[i]? = some cell → cell.position stamp = some p →
      ((f.1.written + i : Nat) : ℤ) = p - start + StepFunction.value 0 g.1.breaks p) :
    Books spec stamp start before g (offered ++ new) where
  ofSpec := emits.spec.trans books.ofSpec
  started := emits.started.trans books.started
  full := emits.full books.full
  file := by
    rw [books.take, contents_append, ← books.file, emits.ops, contents_take, List.append_assoc]
  written := by
    rw [books.take, List.length_append, ← books.written, emits.written, ← contents_take, contents_length]
  gaps := by rw [books.take, contents_append, List.map_append]; exact gaps
  separated := separated
  lost := lost
  streamStart := streamStart.trans books.streamStart
  order := by
    rw [positions_append, order, List.length_append, ← List.range'_append_1, List.length_range', ← books.order]
  zeros := by
    have all := books.zeros
    rw [books.take, positions_append, List.length_append, emits.written, ← contents_take]
    omega
  rising := rising
  reached := by
    intro b member
    have := reached b member
    rw [positions_append, List.length_append]
    omega
  latest := by
    intro p after
    rw [positions_append, List.length_append] at after
    exact latest p (by omega)
  index := by
    intro i cell p here stands
    rw [books.take] at here
    by_cases earlier : i < (offered.take spec.nSamples).length
    · rw [List.getElem?_append_left earlier] at here
      have member : p ∈ positions stamp offered :=
        List.mem_filterMap.mpr ⟨cell, List.mem_of_mem_take (List.mem_of_getElem? here), stands⟩
      rw [books.order, List.mem_range'_1] at member
      rw [old p member.2]
      exact books.index i cell p here stands
    · rw [List.getElem?_append_right (by omega)] at here
      have later := index _ cell p here stands
      rw [books.written] at later
      rw [← later]
      omega

theorem Books.whole (books : Books spec stamp start before f offered) (room : 0 < f.1.room) :
    offered.take spec.nSamples = offered := by
  rw [books.room] at room
  exact List.take_of_length_le (by omega)

/-- With room left, the file and the stream are apart by the zeros written. -/
theorem Books.balance (books : Books spec stamp start before f offered) (room : 0 < f.1.room) :
    f.1.zerosTotal + (positions stamp offered).length = f.1.written := by
  have zeros := books.zeros
  rwa [books.whole room] at zeros

theorem iq_books (books : Books spec stamp start before f offered) {data : List α}
    (stamped : data.map stamp = List.range' (start + (positions stamp offered).length) data.length) :
    Books spec stamp start before (iq f data) (offered ++ data.map Cell.sample) := by
  have gaps : (iq f data).1.gaps = f.1.gaps := by unfold iq; dsimp only; split <;> simp
  have lost : (iq f data).1.lost = f.1.lost := by unfold iq; dsimp only; split <;> simp
  have streamStart : (iq f data).1.streamStart = f.1.streamStart := by unfold iq; dsimp only; split <;> simp
  have breaks : (iq f data).1.breaks = f.1.breaks := by unfold iq; dsimp only; split <;> simp
  have zerosTotal : (iq f data).1.zerosTotal = f.1.zerosTotal := by unfold iq; dsimp only; split <;> simp
  have emits : Emits f (iq f data) (contents (data.map Cell.sample)) := by
    rw [contents_samples]
    exact iq_emits f data
  have length : (positions stamp (data.map Cell.sample)).length = data.length := by
    rw [positions_samples, List.length_map]
  refine books.append emits ?_ (gaps ▸ books.separated) (by rw [lost, gaps]; exact books.lost) streamStart ?_ ?_
    (breaks ▸ books.rising) (by rw [breaks, zerosTotal]; exact books.reached) ?_ (fun p _ => by rw [breaks]) ?_
  · rw [gaps, ← List.map_take, contents_samples, List.map_map]
    have unmarked : (data.take f.1.room).map (Option.isNone ∘ some) = List.replicate (data.take f.1.room).length false :=
      List.map_const' ..
    rw [unmarked]
    exact books.gaps.skip _
  · rw [length, positions_samples]
    exact stamped
  · rw [zerosTotal, ← List.map_take, positions_samples, contents_samples, List.length_map, List.length_map]
  · intro p after
    rw [breaks, zerosTotal]
    exact books.latest p (by omega)
  · intro i cell p here stands
    rw [← List.map_take, List.getElem?_map] at here
    obtain ⟨x, taken, rfl⟩ := Option.map_eq_some_iff.mp here
    cases Option.some.inj stands
    obtain ⟨inside, value⟩ := List.getElem?_eq_some_iff.mp taken
    rw [List.length_take] at inside
    have stampX : stamp x = start + (positions stamp offered).length + i := by
      have at_i := congrArg (·[i]?) stamped
      simp only [List.getElem?_map, List.getElem?_range' (show i < data.length by omega)] at at_i
      rw [List.getElem_take] at value
      rw [List.getElem?_eq_getElem (by omega), value] at at_i
      simpa using at_i
    have balance := books.balance (by omega)
    rw [breaks, books.latest _ (by omega)]
    omega

/-- Nothing more fits, or nothing more came. -/
theorem Books.idle (books : Books spec stamp start before f offered) {c : RunCutter} (same : c = f.1.checkDone)
    (emits : Emits f (c, f.2) (contents new)) (nothing : new.take f.1.room = [])
    (order : positions stamp new =
      List.range' (start + (positions stamp offered).length) (positions stamp new).length) :
    Books spec stamp start before (c, f.2) (offered ++ new) := by
  subst same
  refine books.append emits ?_ ?_ ?_ ?_ order ?_ ?_ ?_ ?_ ?_ ?_
  · rw [nothing]
    simpa [contents] using books.gaps
  · simpa using books.separated
  · simpa using books.lost
  · simp
  · simp [nothing, positions, contents]
  · simpa using books.rising
  · simpa using books.reached
  · intro p after
    simpa using books.latest p (by omega)
  · simp
  · simp [nothing]

/-- The stretches of a file that `k` zeros follow. -/
theorem Books.fill (books : Books spec stamp start before f offered) {k : Nat} (some : 0 < k) :
    Stretches.Of (Stretches.extend f.1.gaps f.1.written k)
        ((contents (offered.take spec.nSamples)).map Option.isNone ++ List.replicate k true) ∧
      Stretches.Separated (Stretches.extend f.1.gaps f.1.written k) ∧
      f.1.lost + k = Stretches.total (Stretches.extend f.1.gaps f.1.written k) := by
  have length : ((contents (offered.take spec.nSamples)).map Option.isNone).length = f.1.written := by
    rw [List.length_map, contents_length, books.written]
  have filled := books.gaps.extend some
  rw [length] at filled
  refine ⟨filled, books.separated.extend (fun g member => length ▸ books.gaps.within member) k, ?_⟩
  rw [filled.total, List.count_append, List.count_replicate_self, books.lost, books.gaps.total]

/-- Zeros for lost samples: the file moves ahead of the stream. -/
theorem zeros_books_lost (books : Books spec stamp start before f offered) {pos : Nat}
    (next : pos = start + (positions stamp offered).length) (count : Nat) :
    Books spec stamp start before (zeros f count pos true) (offered ++ List.replicate count Cell.lost) := by
  have emits : Emits f (zeros f count pos true) (contents (List.replicate count Cell.lost)) := by
    rw [contents_lost]
    exact zeros_emits f count pos true
  by_cases some : 0 < min count f.1.room
  · have shape : zeros f count pos true = _ := if_pos some
    obtain ⟨filled, separated, total⟩ := books.fill some
    have last : ∀ b ∈ f.1.breaks, b.1 ≤ pos ∧ b.2 ≤ f.1.zerosTotal + min count f.1.room := fun b member => by
      have := books.reached b member
      omega
    rw [shape] at emits ⊢
    refine books.append emits ?_ ?_ ?_ (by simp) (by simp) ?_ ?_ ?_ ?_ ?_ ?_
    · rw [List.take_replicate, contents_lost, List.map_replicate, Nat.min_comm f.1.room]
      simpa using filled
    · simpa using separated
    · simpa using total
    · simp only [checkDone_zerosTotal, if_true]
      rw [List.take_replicate, positions_lost, contents_lost, List.length_replicate, Nat.min_comm]
      rfl
    · simpa using books.rising.append last
    · simp only [checkDone_breaks, checkDone_zerosTotal, if_true]
      intro b member
      rcases List.mem_append.mp member with earlier | new
      · have := last b earlier
        omega
      · rw [List.mem_singleton.mp new]
        exact ⟨next.le, le_rfl⟩
    · intro p after
      simp only [checkDone_breaks, checkDone_zerosTotal, if_true]
      exact StepFunction.value_append_after (fun b member => (last b member).1) (by dsimp only; omega)
    · intro p earlier
      simp only [checkDone_breaks, if_true]
      exact StepFunction.value_append_before (by dsimp only; omega)
    · intro i cell p here stands
      have lost := List.eq_of_mem_replicate (List.mem_of_mem_take (List.mem_of_getElem? here))
      subst lost
      cases stands
  · have shape : zeros f count pos true = (checkDone f.1, f.2) := if_neg some
    rw [shape] at emits ⊢
    refine books.idle rfl emits ?_ (by simp)
    rw [List.take_eq_nil_iff, List.replicate_eq_nil_iff]
    omega

/-- Zeros for skipped stream positions move the file and the stream alike. -/
theorem zeros_books_skipped (books : Books spec stamp start before f offered) {next : Nat}
    (nextEq : next = start + (positions stamp offered).length) (pos : Nat) :
    Books spec stamp start before (zeros f (pos - next) pos false) (offered ++ skips next pos) := by
  have emits : Emits f (zeros f (pos - next) pos false) (contents (skips next pos)) := by
    rw [contents_skips]
    exact zeros_emits f (pos - next) pos false
  have order : positions stamp (skips next pos : List (Cell α)) =
      List.range' (start + (positions stamp offered).length) (positions stamp (skips next pos)).length := by
    rw [positions_skips, List.length_range', nextEq]
  by_cases some : 0 < min (pos - next) f.1.room
  · have shape : zeros f (pos - next) pos false = _ := if_pos some
    obtain ⟨filled, separated, total⟩ := books.fill some
    have balance := books.balance (by omega)
    rw [shape] at emits ⊢
    refine books.append emits ?_ ?_ ?_ (by simp) order ?_ ?_ ?_ ?_ ?_ ?_
    · rw [skips_take, contents_skips, List.map_replicate, Nat.add_sub_cancel_left]
      simpa using filled
    · simpa using separated
    · simpa using total
    · simp only [checkDone_zerosTotal]
      rw [skips_take, positions_skips, contents_skips, List.length_replicate, List.length_range']
      simp
    · simpa using books.rising
    · simpa using books.reached
    · intro p after
      simpa using books.latest p (by omega)
    · simp
    · intro i cell p here stands
      rw [skips_take, skips, List.getElem?_map] at here
      obtain ⟨q, at_i, rfl⟩ := Option.map_eq_some_iff.mp here
      cases Option.some.inj stands
      obtain ⟨inside, value⟩ := List.getElem?_eq_some_iff.mp at_i
      rw [List.getElem_range'] at value
      rw [List.length_range'] at inside
      simp only [checkDone_breaks, Bool.false_eq_true, if_false]
      rw [books.latest _ (by omega)]
      omega
  · have shape : zeros f (pos - next) pos false = (checkDone f.1, f.2) := if_neg some
    rw [shape] at emits ⊢
    refine books.idle rfl emits ?_ order
    rw [skips_take, show min (pos - next) f.1.room = 0 by omega, skips, Nat.add_zero, Nat.sub_self]
    rfl

/-- The samples of a chunk that starts at `chunkStart` carry their positions. -/
def Stamped (stamp : α → Nat) (chunkStart : Nat) (samples : List α) : Prop :=
  samples.map stamp = List.range' chunkStart samples.length

theorem Stamped.slice {chunkStart : Nat} {samples : List α} (stamped : Stamped stamp chunkStart samples) (i j : Nat) :
    Stamped stamp (chunkStart + i) ((samples.take j).drop i) := by
  have cut := congrArg (fun l => (l.take j).drop i) stamped
  simp only [← List.map_take, ← List.map_drop] at cut
  unfold Stamped
  rw [cut, List.length_drop, List.length_take]
  rcases Nat.le_total samples.length j with all | some
  · rw [List.take_range'_of_length_le all, List.drop_range', Nat.min_eq_right all, Nat.mul_one]
  · rw [List.take_range'_of_length_ge some, List.drop_range', Nat.min_eq_left some, Nat.mul_one]

/-- What a chunk offers from `pos` on. -/
def chunkCells (pos : Nat) (gaps : Gaps) (samples : List α) : List (Cell α) :=
  (splice pos gaps samples).map Cell.received

theorem chunkCells_nil (pos : Nat) (samples : List α) :
    chunkCells pos [] samples = (samples.drop pos).map Cell.sample := by
  rw [chunkCells, splice, List.map_map]
  rfl

theorem chunkCells_cons (pos : Nat) (g : Nat × Nat) (gaps : Gaps) (samples : List α) :
    chunkCells pos (g :: gaps) samples = ((samples.take g.1).drop pos).map Cell.sample ++
      List.replicate g.2 Cell.lost ++ chunkCells g.1 gaps samples := by
  rw [chunkCells, splice, List.map_append, List.map_append, List.map_map, List.map_replicate]
  rfl

theorem chunkLoop_books (books : Books spec stamp start before f offered) {samples : List α} {chunkStart off pos : Nat}
    {gaps : Gaps} (stamped : Stamped stamp chunkStart samples)
    (next : chunkStart + pos = start + (positions stamp offered).length) (within : pos ≤ samples.length)
    (order : gaps.Pairwise fun a b => a.1 ≤ b.1) (ahead : ∀ g ∈ gaps, off < g.1 → pos ≤ g.1)
    (inside : ∀ g ∈ gaps, g.1 ≤ samples.length) :
    Books spec stamp start before (chunkLoop samples chunkStart off pos gaps f)
        (offered ++ chunkCells pos (gaps.filter fun g => off < g.1) samples) ∧
      start + (positions stamp (offered ++ chunkCells pos (gaps.filter fun g => off < g.1) samples)).length =
        chunkStart + samples.length := by
  induction gaps generalizing pos f offered with
  | nil =>
    have rest : Stamped stamp (chunkStart + pos) (samples.drop pos) := by
      simpa using stamped.slice pos samples.length
    rw [List.filter_nil, chunkCells_nil]
    refine ⟨iq_books books (next ▸ rest), ?_⟩
    rw [positions_append, positions_samples, List.length_append, List.length_map, List.length_drop]
    omega
  | cons g gaps ih =>
    obtain ⟨later, order⟩ := List.pairwise_cons.mp order
    have insideG := inside g (List.mem_cons_self ..)
    have inside' : ∀ h ∈ gaps, h.1 ≤ samples.length := fun h member => inside h (List.mem_cons_of_mem _ member)
    unfold chunkLoop
    split
    · rename_i passed
      rw [List.filter_cons_of_neg (by simpa using passed)]
      exact ih books next within order (fun h member => ahead h (List.mem_cons_of_mem _ member)) inside'
    · rename_i coming
      have aheadG := ahead g (List.mem_cons_self ..) (by omega)
      have piece : Stamped stamp (chunkStart + pos) ((samples.take g.1).drop pos) := stamped.slice pos g.1
      have length : ((samples.take g.1).drop pos).length = g.1 - pos := by
        rw [List.length_drop, List.length_take]
        omega
      have received := iq_books books (next ▸ piece)
      have reached : chunkStart + g.1 = start +
          (positions stamp (offered ++ ((samples.take g.1).drop pos).map Cell.sample)).length := by
        rw [positions_append, positions_samples, List.length_append, List.length_map, length]
        omega
      have filled := zeros_books_lost received reached g.2
      rw [List.filter_cons_of_pos (by simpa using coming), chunkCells_cons]
      rw [← List.append_assoc, ← List.append_assoc]
      refine ih filled ?_ insideG order (fun h member _ => later h member) inside'
      rw [positions_append, positions_lost, List.append_nil]
      exact reached

/-- A run that has just been placed. -/
structure Fresh (spec : RunSpec) (c : RunCutter) : Prop where
  ofSpec : c.spec = spec
  started : c.started = true
  running : c.done = false
  written : c.written = 0
  gaps : c.gaps = []
  lost : c.lost = 0
  breaks : c.breaks = []
  zerosTotal : c.zerosTotal = 0

theorem Fresh.books {c : RunCutter} (fresh : Fresh spec c) (streamStart : c.streamStart = some start) :
    Books spec stamp start [] (c, []) [] where
  ofSpec := fresh.ofSpec
  started := fresh.started
  full := by simp [fresh.running]
  file := by simp [timeSamples, contents]
  written := by simp [fresh.written]
  gaps := by simpa [fresh.gaps, contents] using Stretches.of_nil
  separated := by rw [fresh.gaps]; exact List.Pairwise.nil
  lost := by simp [fresh.lost, fresh.gaps, Stretches.total]
  streamStart := streamStart
  order := rfl
  zeros := by simp [fresh.written, fresh.zerosTotal, positions]
  rising := by rw [fresh.breaks]; exact List.Pairwise.nil
  reached := by simp [fresh.breaks]
  latest := by simp [fresh.breaks, fresh.zerosTotal, StepFunction.value]
  index := by simp

/-- No stream position is skipped. -/
def Unskipped (cells : List (Cell α)) : Prop := ∀ p, Cell.skipped p ∉ cells

theorem Unskipped.append {cells cells' : List (Cell α)} (left : Unskipped cells) (right : Unskipped cells') :
    Unskipped (cells ++ cells') := by
  intro p member
  rcases List.mem_append.mp member with here | here
  · exact left p here
  · exact right p here

theorem unskipped_samples (xs : List α) : Unskipped (xs.map Cell.sample) := by simp [Unskipped]

theorem unskipped_lost (n : Nat) : Unskipped (List.replicate n (Cell.lost : Cell α)) := by simp [Unskipped]

theorem unskipped_chunkCells (pos : Nat) (gaps : Gaps) (xs : List α) : Unskipped (chunkCells pos gaps xs) := by
  intro p member
  obtain ⟨x, -, made⟩ := List.mem_map.mp member
  cases x <;> cases made

theorem inner_inside {gaps : Gaps} {n : Nat} (inside : ∀ g ∈ gaps, g.1 ≤ n) : ∀ g ∈ (splitGaps gaps).2, g.1 ≤ n := by
  intro g member
  have original := (List.mem_insertionSort gapLe).mp member
  exact inside g (List.mem_of_mem_filter original)

theorem inner_order (gaps : Gaps) : (splitGaps gaps).2.Pairwise fun a b => a.1 ≤ b.1 := by
  refine (List.pairwise_insertionSort gapLe (gaps.filter fun g => 0 < g.1)).imp fun {a b} le => ?_
  rcases le with less | ⟨equal, -⟩
  · exact less.le
  · exact equal.le

theorem inner_positive {gaps : Gaps} : ∀ g ∈ (splitGaps gaps).2, 0 < g.1 := by
  intro g member
  have original := (List.mem_insertionSort gapLe).mp member
  simpa using (List.mem_filter.mp original).2

/-- The samples lost before a chunk, and then the whole chunk. -/
theorem wholeChunk_books (books : Books spec stamp start before f offered) {samples : List α} {chunkStart : Nat} {gaps : Gaps}
    (stamped : Stamped stamp chunkStart samples) (inside : ∀ g ∈ gaps, g.1 ≤ samples.length) (lost : Nat)
    (next : chunkStart = start + (positions stamp offered).length) :
    Books spec stamp start before (chunk (zeros f lost chunkStart true) samples chunkStart 0 (splitGaps gaps).2)
        (offered ++ List.replicate lost Cell.lost ++ chunkCells 0 (splitGaps gaps).2 samples) ∧
      start + (positions stamp (offered ++ List.replicate lost Cell.lost ++
        chunkCells 0 (splitGaps gaps).2 samples)).length = chunkStart + samples.length := by
  have all : (splitGaps gaps).2.filter (fun g => 0 < g.1) = (splitGaps gaps).2 :=
    List.filter_eq_self.mpr fun g member => by simpa using inner_positive g member
  have filled := zeros_books_lost books next lost
  have whole := chunkLoop_books filled stamped (show chunkStart + 0 = _ by simpa using next) (Nat.zero_le _)
    (inner_order gaps) (fun g _ (_ : 0 < g.1) => Nat.zero_le _) (inner_inside inside)
  rwa [all] at whole

theorem placeLoop_le {target n lostBefore : Nat} {gaps : Gaps} (inside : ∀ g ∈ gaps, g.1 ≤ n) :
    (placeLoop target n lostBefore gaps).1 ≤ n := by
  induction gaps generalizing lostBefore with
  | nil => exact Nat.min_le_right _ _
  | cons g gaps ih =>
    unfold placeLoop
    split_ifs
    · exact Nat.min_le_right _ _
    · exact inside g (List.mem_cons_self ..)
    · exact ih fun h member => inside h (List.mem_cons_of_mem _ member)

/-- A run that begins: the cells its first call offers, none of them skipped. -/
def Begun (spec : RunSpec) (stamp : α → Nat) (f : Feeding α) (next : Nat) : Prop :=
  ∃ start head, Books spec stamp start [] f head ∧ Unskipped head ∧ start + (positions stamp head).length = next

theorem beginInChunk_books {c : RunCutter} (fresh : Fresh spec c) {samples : List α} {chunkStart : Nat} {gaps : Gaps} (stamped : Stamped stamp chunkStart samples)
    (inside : ∀ g ∈ gaps, g.1 ≤ samples.length) (target : Nat) :
    Begun spec stamp (beginInChunk c samples chunkStart target (splitGaps gaps).2) (chunkStart + samples.length) := by
  have sorted : ∀ g ∈ sortedGaps (splitGaps gaps).2, g.1 ≤ samples.length := fun g member =>
    inner_inside inside g ((List.mem_insertionSort gapLe).mp member)
  have within : (place target (splitGaps gaps).2 samples.length).1 ≤ samples.length := placeLoop_le sorted
  unfold beginInChunk
  generalize place target (splitGaps gaps).2 samples.length = found at within ⊢
  obtain ⟨off, head⟩ := found
  have books : Books spec stamp (chunkStart + off) [] ({ c with streamStart := some (chunkStart + off) }, []) [] :=
    Fresh.books { fresh with } rfl
  have filled := zeros_books_lost books rfl head
  obtain ⟨whole, next⟩ := chunkLoop_books filled stamped (by simp) within (inner_order gaps)
    (fun g _ (later : off < g.1) => later.le) (inner_inside inside)
  exact ⟨_, _, whole, (unskipped_lost head).append (unskipped_chunkCells _ _ _), next⟩

theorem beginInLoss_books {c : RunCutter} (fresh : Fresh spec c) {samples : List α} {chunkStart : Nat} {gaps : Gaps} (stamped : Stamped stamp chunkStart samples)
    (inside : ∀ g ∈ gaps, g.1 ≤ samples.length) (back : Nat) :
    Begun spec stamp (beginInLoss c samples chunkStart back (splitGaps gaps).2) (chunkStart + samples.length) := by
  have books : Books spec stamp chunkStart [] ({ c with streamStart := some chunkStart }, []) [] :=
    Fresh.books { fresh with } rfl
  obtain ⟨whole, next⟩ := wholeChunk_books books stamped inside back rfl
  exact ⟨_, _, whole, (unskipped_lost back).append (unskipped_chunkCells _ _ _), next⟩

/-- The ring holds the stream, each sample at its position. -/
def HoldsStream (stamp : α → Nat) (ring : Option (CircularBuffer α)) : Prop :=
  ∀ r ∈ ring, ∃ s, r.Holds s ∧ Stamped stamp 0 s

/-- What is read back ends where the chunk starts. -/
theorem readBack_stream {ring : Option (CircularBuffer α)} (holds : HoldsStream stamp ring) (chunkStart : Nat)
    (p0 : ℤ) :
    match readBack ring chunkStart p0 with
    | (start, some data) => Stamped stamp start data ∧ start + data.length = chunkStart
    | (start, none) => start = chunkStart := by
  unfold readBack
  cases ring with
  | none => rfl
  | some r =>
    obtain ⟨s, held, stamped⟩ := holds r rfl
    dsimp only
    generalize (max p0 (min r.bounds.1 chunkStart : Nat)).toNat = wanted
    by_cases older : wanted < chunkStart
    · rw [if_pos older, held.readRange]
      by_cases readable : wanted < chunkStart ∧ s.length - min s.length r.maxSamples ≤ wanted ∧ chunkStart ≤ s.length
      · have piece := stamped.slice wanted chunkStart
        rw [List.drop_take, Nat.zero_add] at piece
        rw [if_pos readable]
        refine ⟨piece, ?_⟩
        change wanted + ((s.drop wanted).take (chunkStart - wanted)).length = chunkStart
        rw [List.length_take, List.length_drop]
        omega
      · rw [if_neg readable]
        rfl
    · rw [if_neg older]
      rfl

theorem beginInRing_books {c : RunCutter} (fresh : Fresh spec c) {samples : List α} {chunkStart : Nat} {gaps : Gaps} {ring : Option (CircularBuffer α)}
    (stamped : Stamped stamp chunkStart samples) (inside : ∀ g ∈ gaps, g.1 ≤ samples.length)
    (holds : HoldsStream stamp ring) (p0 : ℤ) (before : Nat) :
    Begun spec stamp (beginInRing c samples chunkStart p0 before (splitGaps gaps).2 ring) (chunkStart + samples.length) := by
  have back := readBack_stream holds chunkStart p0
  unfold beginInRing
  generalize readBack ring chunkStart p0 = found at back ⊢
  obtain ⟨start, data⟩ := found
  dsimp only
  generalize (start - p0).toNat = late
  have first : Books spec stamp start []
      (if late ≠ 0 then zeros ({ c with streamStart := some start, late := min late c.spec.nSamples }, []) late start true
        else ({ c with streamStart := some start }, [])) (List.replicate late Cell.lost) := by
    have placed : Books spec stamp start []
        ({ c with streamStart := some start, late := min late c.spec.nSamples }, []) [] :=
      Fresh.books { fresh with } rfl
    split_ifs with some
    · exact zeros_books_lost placed rfl late
    · rw [not_not.mp some]
      exact Fresh.books { fresh with } rfl
  cases data with
  | none =>
    obtain ⟨whole, next⟩ := wholeChunk_books first stamped inside before (by simpa using back.symm)
    exact ⟨_, _, whole, ((unskipped_lost _).append (unskipped_lost _)).append (unskipped_chunkCells _ _ _), next⟩
  | some d =>
    have read := iq_books first (by simpa [Stamped] using back.1)
    obtain ⟨whole, next⟩ := wholeChunk_books read stamped inside before (by simpa using back.2.symm)
    exact ⟨_, _, whole, (((unskipped_lost _).append (unskipped_samples _)).append (unskipped_lost _)).append
      (unskipped_chunkCells _ _ _), next⟩

/-- What the call of a later chunk offers: the positions skipped since
`next`, the samples lost before the chunk, and the chunk with its gaps. -/
def callCells (next : Nat) (samples : List α) (chunkStart : Nat) (gaps : Gaps) : List (Cell α) :=
  skips next chunkStart ++ List.replicate (splitGaps gaps).1 Cell.lost ++ chunkCells 0 (splitGaps gaps).2 samples

/-- Where the next chunk is awaited plays no part in the books. -/
theorem Books.await (books : Books spec stamp start before f offered) (next : Nat) :
    Books spec stamp start before ({ f.1 with nextPos := next }, f.2) offered :=
  { books with }

theorem continueRun_books {c : RunCutter} (books : Books spec stamp start before (c, []) offered)
    (next : c.nextPos = start + (positions stamp offered).length) {samples : List α} {chunkStart : Nat} {gaps : Gaps}
    (later : c.nextPos ≤ chunkStart) (stamped : Stamped stamp chunkStart samples)
    (inside : ∀ g ∈ gaps, g.1 ≤ samples.length) :
    Books spec stamp start before (c.continueRun samples chunkStart gaps)
        (offered ++ callCells c.nextPos samples chunkStart gaps) ∧
      start + (positions stamp (offered ++ callCells c.nextPos samples chunkStart gaps)).length =
        chunkStart + samples.length := by
  have skipped : Books spec stamp start before
      (if c.nextPos < chunkStart then zeros (c, []) (chunkStart - c.nextPos) chunkStart false else (c, []))
      (offered ++ skips c.nextPos chunkStart) := by
    split_ifs with some
    · exact zeros_books_skipped books next chunkStart
    · rw [skips, show chunkStart - c.nextPos = 0 by omega, List.range'_zero, List.map_nil, List.append_nil]
      exact books
  obtain ⟨whole, ends⟩ := wholeChunk_books skipped stamped inside (splitGaps gaps).1 (by simp; omega)
  rw [List.append_assoc, List.append_assoc] at whole ends
  rw [callCells, List.append_assoc]
  exact ⟨whole.await _, ends⟩

theorem fresh_create (spec : RunSpec) (firstTime : Option ℚ) (errorNs : Option ℤ) :
    Fresh spec { create spec with started := true, firstTime := firstTime, errorNs := errorNs } :=
  ⟨rfl, rfl, rfl, rfl, rfl, rfl, rfl, rfl⟩

theorem begin_books {c : RunCutter} (fresh : c = create spec) {samples : List α} {chunkStart : Nat} {gaps : Gaps}
    {ring : Option (CircularBuffer α)} (stamped : Stamped stamp chunkStart samples)
    (inside : ∀ g ∈ gaps, g.1 ≤ samples.length) (holds : HoldsStream stamp ring) (captureTime : ℚ) :
    c.begin samples chunkStart captureTime gaps ring = (c, []) ∨
      (Begun spec stamp (c.begin samples chunkStart captureTime gaps ring) (chunkStart + samples.length) ∧
        (c.begin samples chunkStart captureTime gaps ring).1.nextPos = chunkStart + samples.length) := by
  subst fresh
  unfold begin
  dsimp only
  split_ifs
  · exact Or.inl rfl
  all_goals refine Or.inr ⟨?_, rfl⟩
  · obtain ⟨start, head, books, rest⟩ := beginInChunk_books (fresh_create spec _ _) stamped inside
      ((create spec).target captureTime).toNat
    exact ⟨start, head, books.await _, rest⟩
  · obtain ⟨start, head, books, rest⟩ := beginInLoss_books (fresh_create spec _ _) stamped inside
      (-(create spec).target captureTime).toNat
    exact ⟨start, head, books.await _, rest⟩
  · obtain ⟨start, head, books, rest⟩ := beginInRing_books (fresh_create spec _ _) stamped inside holds
      (chunkStart + (create spec).target captureTime + (splitGaps gaps).1) (splitGaps gaps).1
    exact ⟨start, head, books.await _, rest⟩

end Steps
end RunCutter
end RFObserver
