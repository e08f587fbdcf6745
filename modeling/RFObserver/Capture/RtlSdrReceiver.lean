import RFObserver.Capture.RecvChunk
import RFObserver.Lib.Runs

namespace RFObserver

open LossyStream

/-- An interleaved u8 pair as int16 I and Q, zero at 127.5. -/
def u8ToSc16 : List UInt8 → List (ℤ × ℤ)
  | i :: q :: raw => ((2 * (i.toNat : ℤ) - 255) * 128, (2 * (q.toNat : ℤ) - 255) * 128) :: u8ToSc16 raw
  | _ => []

/-- A queued USB block, with when it arrived and the bytes dropped before it. -/
structure RtlBlock where
  data : List UInt8
  arrival : ℚ
  dropped : Nat

/-- The RTL-SDR receiver with the USB thread's queue. `heard` and `bare` only
record how many bytes the dongle has handed out, and whether the blocks
`recv_chunk` took since its last sample include an empty one with bytes dropped
before it. -/
structure RtlSdrReceiver where
  bandwidthHz : ℚ
  streaming : Bool
  blocks : List RtlBlock
  pending : List UInt8
  pendingT : ℚ
  dropPending : Nat
  log : ReceiverLog (ℤ × ℤ)
  heard : Nat
  bare : Bool

namespace RtlSdrReceiver

def queueBlocks : Nat := 64

def create (bandwidthHz : ℚ) : RtlSdrReceiver where
  bandwidthHz := bandwidthHz
  streaming := false
  blocks := []
  pending := []
  pendingT := 0
  dropPending := 0
  log := .create
  heard := 0
  bare := false

variable (s : RtlSdrReceiver)

def clear : RtlSdrReceiver := { s with blocks := [], pending := [], dropPending := 0 }

def startStreaming : RtlSdrReceiver :=
  if s.streaming then s else { s.clear with streaming := true, log := s.log.restart, heard := 0 }

def stopStreaming : RtlSdrReceiver := if s.streaming then { s.clear with streaming := false } else s

def queueBlock (data : List UInt8) (now : ℚ) : RtlSdrReceiver := { s with
  blocks := s.blocks ++ [⟨data, now, s.dropPending⟩]
  dropPending := 0
  heard := s.heard + data.length }

def dropBlock (length : Nat) : RtlSdrReceiver := { s with
  dropPending := s.dropPending + length
  heard := s.heard + length }

/-- The USB thread hands over the dongle's next `length` bytes. -/
def onBlock (dongle : Nat → UInt8) (length : Nat) (now : ℚ) : RtlSdrReceiver :=
  let data := (List.range' s.heard length).map dongle
  if s.blocks.length < queueBlocks then s.queueBlock data now else s.dropBlock length

/-- `recv_chunk` takes a block, and reports what was dropped before it. -/
def takeBlock (f : Filling (ℤ × ℤ)) (block : RtlBlock) (rest : List RtlBlock) : RtlSdrReceiver := { s with
  blocks := rest
  pending := block.data
  pendingT := block.arrival - block.data.length / 2 / s.bandwidthHz
  log := if block.dropped = 0 then s.log else s.log.reportGap f (block.dropped / 2)
  bare := if block.data.isEmpty then s.bare || block.dropped != 0 else false }

/-- As much of the pending block as the chunk has room for. -/
def handOut (f : Filling (ℤ × ℤ)) : RtlSdrReceiver :=
  let take := min (f.target - f.total) (s.pending.length / 2)
  let firstT := f.firstTime.getD s.pendingT
  { s with
    pending := s.pending.drop (2 * take)
    pendingT := s.pendingT + take / s.bandwidthHz
    log := { s.log with
      filling := some { f.write (u8ToSc16 (s.pending.take (2 * take))) with firstTime := some firstT } } }

/-- `turn` is one turn of the loop in `recv_chunk` and `timeout` the end of its
wait for a block; `returns` is its end with the buffer full. -/
inductive Act
  | startStreaming
  | stopStreaming
  | onBlock (length : Nat) (now : ℚ)
  | recvChunk (target : Nat)
  | turn
  | timeout
  | returns

def step (dongle : Nat → UInt8) : Act → Option RtlSdrReceiver
  | .startStreaming => if s.log.filling.isNone then some s.startStreaming else none
  | .stopStreaming => if s.log.filling.isNone then some s.stopStreaming else none
  | .onBlock length now => if s.streaming then some (s.onBlock dongle length now) else none
  | .recvChunk target =>
    if s.log.filling.isNone then some { s with log := s.log.request target, bare := false } else none
  | .turn =>
    match s.log.filling with
    | none => none
    | some f =>
      if f.total < f.target then
        match s.pending, s.blocks with
        | [], [] => none
        | [], block :: rest =>
          let taken := s.takeBlock f block rest
          taken.log.filling.map taken.handOut
        | _ :: _, _ => some (s.handOut f)
      else none
  | .timeout =>
    match s.log.filling with
    | none => none
    | some f =>
      if f.total < f.target ∧ s.pending = [] ∧ s.blocks = [] then some { s with log := s.log.finish f } else none
  | .returns =>
    match s.log.filling with
    | none => none
    | some f => if f.total < f.target then none else some { s with log := s.log.finish f }

/-- The dongle hands out whole samples of two bytes each. -/
def Promised (_ : RtlSdrReceiver) : Act → Prop
  | .onBlock length _ => 2 ∣ length
  | _ => True

/-- No `recv_chunk` runs out of time right after an empty block that had bytes
dropped before it. -/
def Covered (s : RtlSdrReceiver) : Act → Prop
  | .timeout => s.bare = false
  | _ => True

/-- The dongle's samples: sample `k` is bytes `2k` and `2k + 1`. -/
def sampleOf (dongle : Nat → UInt8) (k : Nat) : ℤ × ℤ :=
  ((2 * ((dongle (2 * k)).toNat : ℤ) - 255) * 128, (2 * ((dongle (2 * k + 1)).toNat : ℤ) - 255) * 128)

theorem u8ToSc16_append (a b : List UInt8) (whole : 2 ∣ a.length) : u8ToSc16 (a ++ b) = u8ToSc16 a ++ u8ToSc16 b := by
  induction a using u8ToSc16.induct with
  | case1 i q raw ih =>
    have rest : 2 ∣ raw.length := by
      simp only [List.length_cons] at whole
      omega
    simp only [List.cons_append, u8ToSc16, ih rest]
  | case2 a short =>
    cases a with
    | nil => simp [u8ToSc16]
    | cons x a =>
      cases a with
      | nil =>
        simp only [List.length_singleton] at whole
        omega
      | cons y a => exact absurd rfl (short x y a)

theorem u8ToSc16_length (a : List UInt8) : (u8ToSc16 a).length = a.length / 2 := by
  induction a using u8ToSc16.induct with
  | case1 i q raw ih =>
    simp only [u8ToSc16, List.length_cons, ih]
    omega
  | case2 a short =>
    cases a with
    | nil => rfl
    | cons x a =>
      cases a with
      | nil => simp [u8ToSc16]
      | cons y a => exact absurd rfl (short x y a)

/-- A block's bytes are the dongle's samples from its first on. -/
theorem u8ToSc16_dongle (dongle : Nat → UInt8) (first n : Nat) :
    u8ToSc16 ((List.range' (2 * first) (2 * n)).map dongle) = (List.range' first n).map (sampleOf dongle) := by
  induction n generalizing first with
  | zero => rfl
  | succ n ih =>
    have rest := ih (first + 1)
    rw [show 2 * (n + 1) = 2 * n + 1 + 1 by ring, List.range'_succ, List.range'_succ, List.range'_succ,
      List.map_cons, List.map_cons, List.map_cons, u8ToSc16, ← rest]
    rfl

/-- A queued block's place on the timeline, with the loss before it. -/
def blockTimeline (block : RtlBlock) : List (Option (ℤ × ℤ)) :=
  List.replicate (block.dropped / 2) none ++ (u8ToSc16 block.data).map some

/-- What has been heard since the last sample in `out_buf`. -/
def ahead : List (Option (ℤ × ℤ)) :=
  (u8ToSc16 s.pending).map some ++ s.blocks.flatMap blockTimeline ++ List.replicate (s.dropPending / 2) none

/-- The stream so far, up to the last byte heard. -/
def timeline : List (Option (ℤ × ℤ)) := s.log.soFar ++ s.ahead

structure WholeSamples : Prop where
  pending : 2 ∣ s.pending.length
  data : ∀ block ∈ s.blocks, 2 ∣ block.data.length
  dropped : ∀ block ∈ s.blocks, 2 ∣ block.dropped
  dropPending : 2 ∣ s.dropPending

/-- The counts are right, and everything heard is placed from the stream's start. -/
structure Sound (dongle : Nat → UInt8) : Prop where
  books : s.log.Books
  whole : s.WholeSamples
  places : Places (sampleOf dongle) 0 s.timeline
  heard : s.streaming = true → s.heard = 2 * s.timeline.length

/-- In the call under way a gap comes after the last sample only with an empty block. -/
def Inside : Prop := ∀ f ∈ s.log.filling, s.bare = false ∨ f.target ≤ f.total → ∀ g ∈ f.chunk.gaps, g.1 < f.total

variable {s} {dongle : Nat → UInt8} {f : Filling (ℤ × ℤ)}

theorem sound_create (rate : ℚ) : (create rate).Sound dongle where
  books := ReceiverLog.books_create
  whole := ⟨by simp [create], by simp [create], by simp [create], by simp [create]⟩
  places := by simpa [create, timeline, ahead, ReceiverLog.soFar, reconstruct, ReceiverLog.create, u8ToSc16] using places_nil
  heard := by simp [create]

theorem Sound.clear (sound : s.Sound dongle) : s.clear.WholeSamples ∧ Places (sampleOf dongle) 0 s.clear.timeline := by
  refine ⟨⟨by simp [RtlSdrReceiver.clear], by simp [RtlSdrReceiver.clear], by simp [RtlSdrReceiver.clear], by simp [RtlSdrReceiver.clear]⟩, ?_⟩
  have empty : s.clear.timeline = s.log.soFar := by
    simp [timeline, ahead, RtlSdrReceiver.clear, u8ToSc16]
  rw [empty]
  exact sound.places.left

theorem Sound.startStreaming (sound : s.Sound dongle) (idle : s.log.filling = none) :
    s.startStreaming.Sound dongle := by
  unfold RtlSdrReceiver.startStreaming
  by_cases streaming : s.streaming = true
  · rwa [if_pos streaming]
  · rw [if_neg streaming]
    have empty : ({ s.clear with streaming := true, log := s.log.restart, heard := 0 } : RtlSdrReceiver).timeline = [] := by
      simp [timeline, ahead, RtlSdrReceiver.clear, u8ToSc16, ReceiverLog.restart, ReceiverLog.soFar, reconstruct, idle]
    refine ⟨sound.books.restart idle, ?_, ?_, fun _ => ?_⟩
    · obtain ⟨pending, data, dropped, dropPending⟩ := sound.clear.1
      exact ⟨pending, data, dropped, dropPending⟩
    · rw [empty]
      exact places_nil
    · rw [empty]
      rfl

theorem Sound.stopStreaming (sound : s.Sound dongle) : s.stopStreaming.Sound dongle := by
  unfold RtlSdrReceiver.stopStreaming
  by_cases streaming : s.streaming = true
  · rw [if_pos streaming]
    obtain ⟨⟨pending, data, dropped, dropPending⟩, places⟩ := sound.clear
    exact ⟨sound.books, ⟨pending, data, dropped, dropPending⟩, places, by simp⟩
  · rwa [if_neg streaming]

theorem queueBlock_timeline (data : List UInt8) (now : ℚ) :
    (s.queueBlock data now).timeline = s.timeline ++ (u8ToSc16 data).map some := by
  simp [timeline, ahead, queueBlock, blockTimeline]

theorem dropBlock_timeline (drop : 2 ∣ s.dropPending) (n : Nat) :
    (s.dropBlock (2 * n)).timeline = s.timeline ++ List.replicate n none := by
  have split : (s.dropPending + 2 * n) / 2 = s.dropPending / 2 + n := by omega
  simp only [timeline, ahead, dropBlock, split, List.append_assoc, List.replicate_append_replicate]

theorem Sound.onBlock (sound : s.Sound dongle) (streaming : s.streaming = true) {length : Nat}
    (samples : 2 ∣ length) (now : ℚ) : (s.onBlock dongle length now).Sound dongle := by
  obtain ⟨n, rfl⟩ := samples
  have heard := sound.heard streaming
  obtain ⟨pending, data, dropped, dropPending⟩ := sound.whole
  unfold RtlSdrReceiver.onBlock
  by_cases room : s.blocks.length < queueBlocks
  · simp only [if_pos room]
    have grown := queueBlock_timeline (s := s) ((List.range' s.heard (2 * n)).map dongle) now
    rw [heard, u8ToSc16_dongle] at grown
    rw [heard]
    refine ⟨sound.books, ⟨pending, ?_, ?_, by simp [queueBlock]⟩, ?_, fun _ => ?_⟩
    · simpa [queueBlock, or_imp, forall_and] using data
    · simpa [queueBlock, or_imp, forall_and] using ⟨dropped, dropPending⟩
    · rw [grown]
      refine sound.places.append ?_
      rw [Nat.zero_add]
      exact places_run n
    · rw [grown]
      simp only [queueBlock, heard, List.length_append, List.length_map, List.length_range', Nat.mul_add]
  · simp only [if_neg room]
    have grown := dropBlock_timeline dropPending n
    refine ⟨sound.books, ⟨pending, data, dropped, dropPending.add (dvd_mul_right 2 n)⟩, ?_, fun _ => ?_⟩
    · rw [grown]
      exact sound.places.append (places_lost n)
    · rw [grown]
      simp only [dropBlock, heard, List.length_append, List.length_replicate, Nat.mul_add]

theorem Sound.recvChunk (sound : s.Sound dongle) (idle : s.log.filling = none) (target : Nat) :
    { s with log := s.log.request target, bare := false }.Sound dongle := by
  have same : { s with log := s.log.request target, bare := false }.timeline = s.timeline := by
    unfold timeline
    rw [show (_ : ReceiverLog (ℤ × ℤ)).soFar = s.log.soFar from ReceiverLog.soFar_request idle target]
    rfl
  refine ⟨sound.books.request idle target, ?_, ?_, ?_⟩
  · obtain ⟨pending, data, dropped, dropPending⟩ := sound.whole
    exact ⟨pending, data, dropped, dropPending⟩
  · rw [same]
    exact sound.places
  · rw [same]
    exact sound.heard

/-- The log after a taken block has its loss reported. -/
theorem takeBlock_log (filling : s.log.filling = some f) (books : s.log.Books) (block : RtlBlock) (rest : List RtlBlock) :
    (s.takeBlock f block rest).log.Books ∧
      (s.takeBlock f block rest).log.soFar = s.log.soFar ++ List.replicate (block.dropped / 2) none ∧
      ∃ f', (s.takeBlock f block rest).log.filling = some f' ∧ f'.target = f.target ∧ f'.total = f.total := by
  unfold takeBlock
  by_cases lossless : block.dropped = 0
  · simp only [if_pos lossless]
    refine ⟨books, ?_, f, filling, rfl, rfl⟩
    simp [lossless]
  · simp only [if_neg lossless]
    exact ⟨books.reportGap filling _, ReceiverLog.soFar_reportGap filling _, _, rfl, rfl, rfl⟩

theorem Sound.takeBlock (sound : s.Sound dongle) (filling : s.log.filling = some f) {block : RtlBlock}
    {rest : List RtlBlock} (used : s.pending = []) (first : s.blocks = block :: rest) :
    (s.takeBlock f block rest).Sound dongle := by
  obtain ⟨books, soFar, -⟩ := takeBlock_log filling sound.books block rest
  have same : (s.takeBlock f block rest).timeline = s.timeline := by
    rw [timeline, soFar]
    simp [timeline, ahead, RtlSdrReceiver.takeBlock, used, first, blockTimeline, u8ToSc16]
  have member : block ∈ s.blocks := by simp [first]
  refine ⟨books, ⟨sound.whole.data block member, ?_, ?_, sound.whole.dropPending⟩, ?_, ?_⟩
  · intro b inRest
    exact sound.whole.data b (by rw [first]; exact List.mem_cons_of_mem _ inRest)
  · intro b inRest
    exact sound.whole.dropped b (by rw [first]; exact List.mem_cons_of_mem _ inRest)
  · rw [same]
    exact sound.places
  · rw [same]
    exact sound.heard

theorem Sound.handOut (sound : s.Sound dongle) (filling : s.log.filling = some f) : (s.handOut f).Sound dongle := by
  have even := sound.whole.pending
  have whole : 2 ∣ (s.pending.take (2 * min (f.target - f.total) (s.pending.length / 2))).length := by
    rw [List.length_take]
    omega
  have same : (s.handOut f).timeline = s.timeline := by
    have written := sound.books.soFar_write filling
      (u8ToSc16 (s.pending.take (2 * min (f.target - f.total) (s.pending.length / 2))))
      (some (f.firstTime.getD s.pendingT))
    have split := u8ToSc16_append _ (s.pending.drop (2 * min (f.target - f.total) (s.pending.length / 2))) whole
    rw [List.take_append_drop] at split
    unfold timeline ahead
    rw [split]
    simp only [RtlSdrReceiver.handOut, written, List.map_append, List.append_assoc]
  obtain ⟨pending, data, dropped, dropPending⟩ := sound.whole
  refine ⟨sound.books.write filling _ _, ⟨?_, data, dropped, dropPending⟩, ?_, ?_⟩
  · simp only [RtlSdrReceiver.handOut, List.length_drop]
    omega
  · rw [same]
    exact sound.places
  · rw [same]
    exact sound.heard

theorem Sound.finish (sound : s.Sound dongle) (filling : s.log.filling = some f)
    (inside : ∀ g ∈ f.chunk.gaps, g.1 < f.total) : { s with log := s.log.finish f }.Sound dongle := by
  have same : { s with log := s.log.finish f }.timeline = s.timeline := by
    simp only [timeline, ReceiverLog.soFar_finish filling inside]
    rfl
  refine ⟨sound.books.finish filling inside, ?_, ?_, ?_⟩
  · obtain ⟨pending, data, dropped, dropPending⟩ := sound.whole
    exact ⟨pending, data, dropped, dropPending⟩
  · rw [same]
    exact sound.places
  · rw [same]
    exact sound.heard

/-- With samples of a pending block in it the chunk has none of its gaps at its end. -/
theorem handOut_inside (books : s.log.Books) (filling : s.log.filling = some f) (room : f.total < f.target)
    (samples : 2 ≤ s.pending.length) : (s.handOut f).Inside := by
  intro g member _
  cases Option.some.inj member
  refine (books.reported f filling).inside_write ?_
  apply List.ne_nil_of_length_pos
  rw [u8ToSc16_length, List.length_take]
  omega

/-- An empty block leaves the chunk as it is, but for the loss before it. -/
theorem takeBlock_inside (inside : s.Inside) (filling : s.log.filling = some f) (room : f.total < f.target)
    {block : RtlBlock} (rest : List RtlBlock) (empty : block.data = []) {f' : Filling (ℤ × ℤ)}
    (after : (s.takeBlock f block rest).log.filling = some f') (same : f'.target = f.target ∧ f'.total = f.total) :
    ((s.takeBlock f block rest).handOut f').Inside := by
  intro g member settled
  cases Option.some.inj member
  have nothing : (f'.write (u8ToSc16 ((s.takeBlock f block rest).pending.take
      (2 * min (f'.target - f'.total) ((s.takeBlock f block rest).pending.length / 2))))) = f' := by
    simp [takeBlock, empty, u8ToSc16, Filling.write]
  simp only [nothing] at settled ⊢
  rcases settled with covered | full
  · simp only [handOut, takeBlock, empty, List.isEmpty_nil, if_true, Bool.or_eq_false_iff] at covered
    obtain ⟨old, lossless⟩ := covered
    have lossless : block.dropped = 0 := by simpa using lossless
    simp only [takeBlock, if_pos lossless, filling, Option.some.injEq] at after
    subst after
    exact inside f filling (.inl old)
  · exact absurd full (by have : f'.total < f'.target := same.1 ▸ same.2 ▸ room; exact Nat.not_le.mpr this)

theorem turn_sound (sound : s.Sound dongle) (inside : s.Inside) {s' : RtlSdrReceiver}
    (goes : s.step dongle .turn = some s') : s'.Sound dongle ∧ s'.Inside := by
  cases filling : s.log.filling with
  | none => simp [step, filling] at goes
  | some f =>
    simp only [step, filling] at goes
    obtain ⟨room, taken⟩ := Option.ite_none_right_eq_some.mp goes
    cases used : s.pending with
    | nil =>
      cases first : s.blocks with
      | nil => simp [used, first] at taken
      | cons block rest =>
        obtain ⟨-, -, f', after, same⟩ := takeBlock_log filling sound.books block rest
        have middle := sound.takeBlock filling used first
        simp only [used, first, after, Option.map_some] at taken
        cases taken
        refine ⟨middle.handOut after, ?_⟩
        by_cases empty : block.data = []
        · exact takeBlock_inside inside filling room rest empty after same
        · have whole := sound.whole.data block (by simp [first])
          have some_data := List.length_pos_iff.mpr empty
          refine handOut_inside middle.books after (by omega) ?_
          simp only [takeBlock]
          omega
    | cons byte bytes =>
      simp only [used] at taken
      cases taken
      have whole := sound.whole.pending
      have some_data : 0 < s.pending.length := by simp [used]
      exact ⟨sound.handOut filling, handOut_inside sound.books filling room (by omega)⟩

theorem step_sound (sound : s.Sound dongle) (inside : s.Inside) {a : Act} (promised : s.Promised a)
    (covered : s.Covered a) {s' : RtlSdrReceiver} (goes : s.step dongle a = some s') : s'.Sound dongle ∧ s'.Inside := by
  cases a with
  | startStreaming =>
    obtain ⟨idle, ⟨⟩⟩ := Option.ite_none_right_eq_some.mp goes
    have idle := Option.isNone_iff_eq_none.mp idle
    refine ⟨sound.startStreaming idle, ?_⟩
    intro f member
    unfold startStreaming at member
    split at member <;> simp [ReceiverLog.restart, idle] at member
  | stopStreaming =>
    obtain ⟨idle, ⟨⟩⟩ := Option.ite_none_right_eq_some.mp goes
    have idle := Option.isNone_iff_eq_none.mp idle
    refine ⟨sound.stopStreaming, ?_⟩
    intro f member
    unfold stopStreaming at member
    split at member <;> simp [clear, idle] at member
  | onBlock length now =>
    obtain ⟨streaming, ⟨⟩⟩ := Option.ite_none_right_eq_some.mp goes
    refine ⟨sound.onBlock streaming promised now, ?_⟩
    unfold onBlock
    split <;> exact inside
  | recvChunk target =>
    obtain ⟨idle, ⟨⟩⟩ := Option.ite_none_right_eq_some.mp goes
    refine ⟨sound.recvChunk (Option.isNone_iff_eq_none.mp idle) target, ?_⟩
    intro f member _ g gap
    cases Option.some.inj member
    simp at gap
  | turn => exact turn_sound sound inside goes
  | timeout =>
    cases filling : s.log.filling with
    | none => simp [step, filling] at goes
    | some f =>
      simp only [step, filling] at goes
      obtain ⟨-, ⟨⟩⟩ := Option.ite_none_right_eq_some.mp goes
      exact ⟨sound.finish filling (inside f filling (.inl covered)), by intro g member; simp [ReceiverLog.finish] at member⟩
  | returns =>
    cases filling : s.log.filling with
    | none => simp [step, filling] at goes
    | some f =>
      simp only [step, filling] at goes
      obtain ⟨full, ⟨⟩⟩ := Option.ite_none_left_eq_some.mp goes
      exact ⟨sound.finish filling (inside f filling (.inr (Nat.not_lt.mp full))),
        by intro g member; simp [ReceiverLog.finish] at member⟩

/-- The RTL-SDR receiver accounts for every dropped block, in runs that meet `Covered`. -/
theorem Reach.accounts {rate : ℚ}
    (reach : Runs.Reach (fun s => step s dongle) (create rate) (fun s a => s.Promised a ∧ s.Covered a) s) :
    AccountsForLosses (sampleOf dongle) 0 s.log := by
  have sound : s.Sound dongle ∧ s.Inside :=
    reach.invariant (I := fun s => s.Sound dongle ∧ s.Inside)
      ⟨sound_create rate, by intro f member; simp [create, ReceiverLog.create] at member⟩
      (fun _ _ _ sound met goes => step_sound sound.1 sound.2 met.1 met.2 goes)
  exact sound.1.books.accounts sound.1.places

end RtlSdrReceiver

end RFObserver
