import RFObserver.Lib.LossyStream

namespace RFObserver

open LossyStream

variable {α : Type*}

/-- What one `recv_chunk` call gives out: the samples it wrote, and `last_gaps`. -/
structure RecvChunk (α : Type*) where
  samples : List α
  gaps : Gaps

namespace RecvChunk

/-- The chunk's samples with the lost ones in their places. -/
def timeline (c : RecvChunk α) : List (Option α) := spread c.gaps 0 c.samples

def lost (c : RecvChunk α) : Nat := (c.gaps.map Prod.snd).sum

/-- Every gap lies before one of the chunk's samples, and they are in order. -/
structure WellPlaced (c : RecvChunk α) : Prop where
  inside : ∀ g ∈ c.gaps, g.1 < c.samples.length
  ordered : (c.gaps.map Prod.fst).Pairwise (· ≤ ·)

end RecvChunk

/-- The chunks' timelines one after another. -/
def reconstruct (chunks : List (RecvChunk α)) : List (Option α) := chunks.flatMap RecvChunk.timeline

theorem reconstruct_snoc (chunks : List (RecvChunk α)) (c : RecvChunk α) :
    reconstruct (chunks ++ [c]) = reconstruct chunks ++ c.timeline := by
  simp [reconstruct]

/-- A `recv_chunk` call under way, with what is in `out_buf` so far. -/
structure Filling (α : Type*) where
  target : Nat
  chunk : RecvChunk α
  firstTime : Option ℚ

namespace Filling

def total (f : Filling α) : Nat := f.chunk.samples.length

def reportGap (f : Filling α) (lost : Nat) : Filling α :=
  { f with chunk := { f.chunk with gaps := f.chunk.gaps ++ [(f.total, lost)] } }

def write (f : Filling α) (samples : List α) : Filling α :=
  { f with chunk := { f.chunk with samples := f.chunk.samples ++ samples } }

/-- The timeline so far, with the losses no sample has come after yet. -/
def soFar (f : Filling α) : List (Option α) :=
  f.chunk.timeline ++ List.replicate (lostAt f.chunk.gaps f.total) none

/-- The gaps lie no further than the samples written, and they are in order. -/
structure Reported (f : Filling α) : Prop where
  reached : ∀ g ∈ f.chunk.gaps, g.1 ≤ f.total
  ordered : (f.chunk.gaps.map Prod.fst).Pairwise (· ≤ ·)

variable {f : Filling α}

theorem soFar_reportGap (lost : Nat) : (f.reportGap lost).soFar = f.soFar ++ List.replicate lost none := by
  have kept : spread (f.chunk.gaps ++ [(f.total, lost)]) 0 f.chunk.samples = f.chunk.timeline :=
    spread_append_later (by simp [total])
  have all : lostAt (f.chunk.gaps ++ [(f.total, lost)]) f.total = lostAt f.chunk.gaps f.total + lost := by
    simp [lostAt]
  unfold soFar
  rw [List.append_assoc, List.replicate_append_replicate, ← all, ← kept]
  rfl

theorem Reported.soFar_write (reported : f.Reported) (samples : List α) :
    (f.write samples).soFar = f.soFar ++ samples.map some := by
  cases samples with
  | nil => simp [write, soFar, total, RecvChunk.timeline]
  | cons x xs =>
    have beyond : lostAt f.chunk.gaps (f.write (x :: xs)).total = 0 :=
      lostWhere_eq_zero fun g member => by
        have := reported.reached g member
        simp only [write, total, List.length_append, List.length_cons] at this ⊢
        omega
    have whole := spread_extend reported.reached (by simp : x :: xs ≠ [])
    unfold soFar
    rw [show (f.write (x :: xs)).chunk.gaps = f.chunk.gaps from rfl, beyond, List.replicate_zero, List.append_nil]
    exact whole

theorem Reported.reportGap (reported : f.Reported) (lost : Nat) : (f.reportGap lost).Reported where
  reached := by
    intro g member
    rcases List.mem_append.mp member with old | new
    · exact reported.reached g old
    · cases List.mem_singleton.mp new
      exact le_rfl
  ordered := by
    simp only [Filling.reportGap, List.map_append, List.pairwise_append]
    refine ⟨reported.ordered, by simp, ?_⟩
    intro a before b last
    obtain ⟨g, member, rfl⟩ := List.mem_map.mp before
    cases List.mem_singleton.mp last
    exact reported.reached g member

theorem Reported.write (reported : f.Reported) (samples : List α) : (f.write samples).Reported where
  reached := by
    intro g member
    have := reported.reached g member
    simp only [Filling.write, total, List.length_append] at this ⊢
    omega
  ordered := reported.ordered

/-- With samples after the last gap nothing is left over at the end. -/
theorem Reported.inside_write (reported : f.Reported) {samples : List α} (more : samples ≠ []) :
    ∀ g ∈ (f.write samples).chunk.gaps, g.1 < (f.write samples).total := by
  intro g member
  have := reported.reached g member
  have := List.length_pos_iff.mpr more
  simp only [Filling.write, total, List.length_append] at *
  omega

theorem soFar_inside (inside : ∀ g ∈ f.chunk.gaps, g.1 < f.total) : f.soFar = f.chunk.timeline := by
  have none_left : lostAt f.chunk.gaps f.total = 0 :=
    lostWhere_eq_zero fun g member => by
      have := inside g member
      omega
  rw [soFar, none_left, List.replicate_zero, List.append_nil]

end Filling

/-- What a receiver has given out: the call under way, what `last_gaps` and the
counters say, the finished chunks of the stream and those of the streams
before it. -/
structure ReceiverLog (α : Type*) where
  filling : Option (Filling α)
  lastGaps : Gaps
  lastDeviceTime : Option ℚ
  overflowEvents : Nat
  overflowLostSamples : Nat
  chunks : List (RecvChunk α)
  earlier : List (RecvChunk α)

namespace ReceiverLog

def create : ReceiverLog α where
  filling := none
  lastGaps := []
  lastDeviceTime := none
  overflowEvents := 0
  overflowLostSamples := 0
  chunks := []
  earlier := []

variable (l : ReceiverLog α)

/-- A new stream. -/
def restart : ReceiverLog α := { l with chunks := [], earlier := l.earlier ++ l.chunks }

def request (target : Nat) : ReceiverLog α := { l with filling := some ⟨target, ⟨[], []⟩, none⟩ }

def reportGap (f : Filling α) (lost : Nat) : ReceiverLog α := { l with
  filling := some (f.reportGap lost)
  overflowEvents := l.overflowEvents + 1
  overflowLostSamples := l.overflowLostSamples + lost }

def finish (f : Filling α) : ReceiverLog α := { l with
  filling := none
  lastGaps := f.chunk.gaps
  lastDeviceTime := f.firstTime
  chunks := l.chunks ++ [f.chunk] }

def lostUnderWay : Nat := (l.filling.map fun f => f.chunk.lost).getD 0

def soFar : List (Option α) := reconstruct l.chunks ++ (l.filling.map Filling.soFar).getD []

/-- The chunks' gaps are in place, and the losses counted are those reported. -/
structure Books : Prop where
  placed : ∀ c ∈ l.earlier ++ l.chunks, c.WellPlaced
  reported : ∀ f ∈ l.filling, f.Reported
  counted : l.overflowLostSamples = ((l.earlier ++ l.chunks).map RecvChunk.lost).sum + l.lostUnderWay

variable {l} {f : Filling α}

theorem books_create : (create : ReceiverLog α).Books where
  placed := by simp [create]
  reported := by simp [create]
  counted := rfl

theorem Books.restart (books : l.Books) (idle : l.filling = none) : l.restart.Books where
  placed := by simpa [ReceiverLog.restart] using books.placed
  reported := by simp [ReceiverLog.restart, idle]
  counted := by
    have counted := books.counted
    simpa [ReceiverLog.restart, lostUnderWay, idle] using counted

theorem Books.request (books : l.Books) (idle : l.filling = none) (target : Nat) : (l.request target).Books where
  placed := books.placed
  reported := by
    intro g member
    cases Option.some.inj member
    exact ⟨by simp, by simp⟩
  counted := by
    have counted := books.counted
    simpa [ReceiverLog.request, lostUnderWay, idle, RecvChunk.lost] using counted

theorem Books.reportGap (books : l.Books) (filling : l.filling = some f) (lost : Nat) : (l.reportGap f lost).Books where
  placed := books.placed
  reported := by
    intro g member
    cases Option.some.inj member
    exact (books.reported f filling).reportGap lost
  counted := by
    have counted := books.counted
    simp only [lostUnderWay, filling, Option.map_some, Option.getD_some] at counted
    simp only [ReceiverLog.reportGap, lostUnderWay, Option.map_some, Option.getD_some, Filling.reportGap,
      RecvChunk.lost, List.map_append, List.sum_append, List.map_cons, List.map_nil, List.sum_singleton] at counted ⊢
    omega

/-- Samples in `out_buf`; the call's other figures are as they may be. -/
theorem Books.write (books : l.Books) (filling : l.filling = some f) (samples : List α) (time : Option ℚ) :
    { l with filling := some { f.write samples with firstTime := time } }.Books where
  placed := books.placed
  reported := by
    intro g member
    cases Option.some.inj member
    have written := (books.reported f filling).write samples
    exact ⟨written.reached, written.ordered⟩
  counted := by
    have counted := books.counted
    simp only [lostUnderWay, filling] at counted
    exact counted

theorem Books.finish (books : l.Books) (filling : l.filling = some f) (inside : ∀ g ∈ f.chunk.gaps, g.1 < f.total) :
    (l.finish f).Books where
  placed := by
    intro c member
    rw [ReceiverLog.finish, ← List.append_assoc] at member
    rcases List.mem_append.mp member with old | new
    · exact books.placed c old
    · cases List.mem_singleton.mp new
      exact ⟨inside, (books.reported f filling).ordered⟩
  reported := by simp [ReceiverLog.finish]
  counted := by
    have counted := books.counted
    simp only [lostUnderWay, filling, Option.map_some, Option.getD_some] at counted
    simp only [ReceiverLog.finish, lostUnderWay, Option.map_none, Option.getD_none, ← List.append_assoc, List.map_append,
      List.sum_append, List.map_cons, List.map_nil, List.sum_singleton] at counted ⊢
    omega

theorem soFar_request (idle : l.filling = none) (target : Nat) : (l.request target).soFar = l.soFar := by
  simp [soFar, request, idle, Filling.soFar, RecvChunk.timeline, spread, lostAt]

theorem soFar_reportGap (filling : l.filling = some f) (lost : Nat) :
    (l.reportGap f lost).soFar = l.soFar ++ List.replicate lost none := by
  simp only [soFar, reportGap, filling, Option.map_some, Option.getD_some, Filling.soFar_reportGap, List.append_assoc]

theorem Books.soFar_write (books : l.Books) (filling : l.filling = some f) (samples : List α) (time : Option ℚ) :
    { l with filling := some { f.write samples with firstTime := time } }.soFar = l.soFar ++ samples.map some := by
  have written := (books.reported f filling).soFar_write samples
  have same : ({ f.write samples with firstTime := time } : Filling α).soFar = f.soFar ++ samples.map some := written
  simp only [soFar, filling, Option.map_some, Option.getD_some, same, List.append_assoc]

theorem soFar_finish (filling : l.filling = some f) (inside : ∀ g ∈ f.chunk.gaps, g.1 < f.total) :
    (l.finish f).soFar = l.soFar := by
  simp only [soFar, finish, filling, Option.map_none, Option.map_some, Option.getD_none, Option.getD_some,
    reconstruct_snoc, Filling.soFar_inside inside, List.append_nil]

end ReceiverLog

/-- Every lost sample is accounted for: the chunks of the stream, put together
with their gaps, have each sample where the device's timeline has it, the gaps
of all chunks lie before samples of their chunk in order, and the running total
is what they report. -/
structure AccountsForLosses (device : Nat → α) (first : Nat) (l : ReceiverLog α) : Prop where
  timeline : Places device first (reconstruct l.chunks)
  placed : ∀ c ∈ l.earlier ++ l.chunks, c.WellPlaced
  counted : l.overflowLostSamples = ((l.earlier ++ l.chunks).map RecvChunk.lost).sum + l.lostUnderWay

theorem ReceiverLog.Books.accounts {l : ReceiverLog α} {device : Nat → α} {first : Nat} {rest : List (Option α)}
    (books : l.Books) (whole : Places device first (l.soFar ++ rest)) : AccountsForLosses device first l where
  timeline := whole.left.left
  placed := books.placed
  counted := books.counted

end RFObserver
