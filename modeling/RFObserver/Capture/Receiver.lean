import RFObserver.Capture.RecvChunk
import RFObserver.Lib.Runs

namespace RFObserver

open LossyStream

inductive RecvError
  | none
  | overflow
  | other
deriving DecidableEq

/-- What `recv` puts in the buffer and its metadata. `tick` is the device's
time of the first sample in samples of the stream, with or without a time_spec. -/
structure RecvResult where
  error : RecvError
  n : Nat
  hasTimeSpec : Bool
  tick : Nat

/-- The USRP receiver. `first` and `last` only record the tick of the stream's
first sample, and the tick after the last one taken with whether its packet had
a time_spec. -/
structure Receiver (α : Type*) where
  streamRate : ℚ
  nextTick : Option Nat
  log : ReceiverLog α
  first : Nat
  last : Option (Nat × Bool)

namespace Receiver

variable {α : Type*}

def create (streamRate : ℚ) : Receiver α where
  streamRate := streamRate
  nextTick := none
  log := .create
  first := 0
  last := none

variable (s : Receiver α)

/-- `_reset_gap_tracking`, where a stream starts or stops. -/
def resetGapTracking : Receiver α := { s with nextTick := none, log := s.log.restart, last := none }

/-- A packet's samples into the chunk, after the loss before them if there is one. -/
def take (device : Nat → α) (f : Filling α) (r : RecvResult) : Receiver α :=
  let firstTime := if r.hasTimeSpec ∧ f.total = 0 then some (r.tick / s.streamRate) else f.firstTime
  let samples := (List.range' r.tick r.n).map device
  let lost := match r.hasTimeSpec, s.nextTick with
    | true, some next => r.tick - next
    | _, _ => 0
  let reported := if 0 < lost then s.log.reportGap f lost else s.log
  let f := if 0 < lost then f.reportGap lost else f
  { s with
    nextTick := if r.hasTimeSpec then some (r.tick + r.n) else none
    log := { reported with filling := some { f.write samples with firstTime := firstTime } }
    first := if s.last = none then r.tick else s.first
    last := some (r.tick + r.n, r.hasTimeSpec) }

/-- `recv` is one turn of the loop in `recv_chunk`, `returns` its end with the
buffer full. Starting and stopping a stream both reset the gap tracking. -/
inductive Act
  | startStreaming
  | stopStreaming
  | recvChunk (target : Nat)
  | recv (r : RecvResult)
  | returns

def step (device : Nat → α) : Act → Option (Receiver α)
  | .startStreaming | .stopStreaming => if s.log.filling.isNone then some s.resetGapTracking else none
  | .recvChunk target => if s.log.filling.isNone then some { s with log := s.log.request target } else none
  | .recv r =>
    match s.log.filling with
    | none => none
    | some f =>
      if f.total < f.target then
        if r.error = .other then some { s with log := s.log.finish f }
        else if 0 < r.n then some (s.take device f r)
        else some s
      else none
  | .returns =>
    match s.log.filling with
    | none => none
    | some f => if f.total < f.target then none else some { s with log := s.log.finish f }

/-- The device fills no more than the buffer, its time does not run back, and
a loss is between two packets with a time_spec. -/
def Promised (s : Receiver α) : Act → Prop
  | .recv r =>
    (∀ f ∈ s.log.filling, f.total + r.n ≤ f.target) ∧
    (r.error ≠ .other → 0 < r.n → ∀ e timed, s.last = some (e, timed) →
      e ≤ r.tick ∧ (e < r.tick → timed = true ∧ r.hasTimeSpec = true))
  | _ => True

/-- The chunk under way has no gap after its last sample, the stream so far is
placed from its first tick, and the next tick is the one after it. -/
structure Sound (device : Nat → α) : Prop where
  books : s.log.Books
  inside : ∀ f ∈ s.log.filling, ∀ g ∈ f.chunk.gaps, g.1 < f.total
  places : Places device s.first s.log.soFar
  fresh : s.last = none → s.log.soFar = [] ∧ s.nextTick = none
  expected : ∀ e timed, s.last = some (e, timed) →
    e = s.first + s.log.soFar.length ∧ s.nextTick = if timed then some e else none

variable {s} {device : Nat → α} {f : Filling α}

theorem sound_create (rate : ℚ) : (create rate : Receiver α).Sound device where
  books := ReceiverLog.books_create
  inside := by simp [create, ReceiverLog.create]
  places := places_nil
  fresh := fun _ => ⟨rfl, rfl⟩
  expected := by simp [create]

theorem Sound.resetGapTracking (sound : s.Sound device) (idle : s.log.filling = none) :
    s.resetGapTracking.Sound device where
  books := sound.books.restart idle
  inside := by simp [Receiver.resetGapTracking, ReceiverLog.restart, idle]
  places := by
    have empty : s.log.restart.soFar = [] := by simp [ReceiverLog.restart, ReceiverLog.soFar, reconstruct, idle]
    simp only [Receiver.resetGapTracking, empty]
    exact places_nil
  fresh := fun _ => ⟨by simp [Receiver.resetGapTracking, ReceiverLog.restart, ReceiverLog.soFar, reconstruct, idle], rfl⟩
  expected := by simp [Receiver.resetGapTracking]

theorem Sound.recvChunk (sound : s.Sound device) (idle : s.log.filling = none) (target : Nat) :
    { s with log := s.log.request target }.Sound device where
  books := sound.books.request idle target
  inside := by simp [ReceiverLog.request]
  places := by
    simp only [ReceiverLog.soFar_request idle]
    exact sound.places
  fresh := by
    simp only [ReceiverLog.soFar_request idle]
    exact sound.fresh
  expected := by
    simp only [ReceiverLog.soFar_request idle]
    exact sound.expected

theorem Sound.finish (sound : s.Sound device) (filling : s.log.filling = some f) :
    { s with log := s.log.finish f }.Sound device := by
  have same := ReceiverLog.soFar_finish filling (sound.inside f filling)
  refine ⟨sound.books.finish filling (sound.inside f filling), by simp [ReceiverLog.finish], ?_, ?_, ?_⟩
  · simp only [same]
    exact sound.places
  · simp only [same]
    exact sound.fresh
  · simp only [same]
    exact sound.expected

/-- A packet right after all samples and losses so far. -/
theorem sound_write {l : ReceiverLog α} {first e n : Nat} (books : l.Books) (filling : l.filling = some f)
    (places : Places device first l.soFar) (at_end : e = first + l.soFar.length) (some_n : 0 < n)
    (rate : ℚ) (timed : Bool) (time : Option ℚ) :
    Sound ⟨rate, if timed then some (e + n) else none,
      { l with filling := some { f.write ((List.range' e n).map device) with firstTime := time } },
      first, some (e + n, timed)⟩ device := by
  have samples : (List.range' e n).map device ≠ [] := by simpa using some_n.ne'
  have written := books.soFar_write filling ((List.range' e n).map device) time
  refine ⟨books.write filling _ time, ?_, ?_, by simp, ?_⟩
  · intro g member
    cases Option.some.inj member
    exact (books.reported f filling).inside_write samples
  · simp only [written]
    rw [at_end]
    exact places.append (places_run n)
  · intro e' timed' last
    cases Option.some.inj last
    simp only [written, List.length_append, List.length_map, List.length_range', and_true]
    omega

theorem Sound.take (sound : s.Sound device) (filling : s.log.filling = some f) {r : RecvResult} (some_n : 0 < r.n)
    (fine : r.error ≠ .other) (promised : s.Promised (.recv r)) : (s.take device f r).Sound device := by
  have order := promised.2 fine some_n
  cases last : s.last with
  | none =>
    obtain ⟨empty, unset⟩ := sound.fresh last
    have nothing : (match r.hasTimeSpec, s.nextTick with
        | true, some next => r.tick - next
        | _, _ => 0) = 0 := by
      rw [unset]
      cases r.hasTimeSpec <;> rfl
    unfold Receiver.take
    simp only [nothing, lt_irrefl, if_false, last, if_true]
    refine sound_write sound.books filling ?_ (by simp [empty]) some_n _ _ _
    rw [empty]
    exact places_nil
  | some final =>
    obtain ⟨e, timed⟩ := final
    obtain ⟨at_end, next⟩ := sound.expected e timed last
    obtain ⟨later, measured⟩ := order e timed last
    by_cases gap : e < r.tick
    · obtain ⟨rfl, spec⟩ := measured gap
      have lost : 0 < r.tick - e := by omega
      unfold Receiver.take
      simp only [next, spec, if_true, lost, last, reduceCtorEq, if_false]
      have grown := ReceiverLog.soFar_reportGap filling (r.tick - e)
      refine sound_write (sound.books.reportGap filling _) rfl ?_ ?_ some_n _ true _
      · rw [grown]
        exact sound.places.append (places_lost _)
      · rw [grown, List.length_append, List.length_replicate]
        omega
    · have same : r.tick = e := by omega
      have nothing : (match r.hasTimeSpec, s.nextTick with
          | true, some next => r.tick - next
          | _, _ => 0) = 0 := by
        rw [next, same]
        cases r.hasTimeSpec <;> cases timed <;> simp
      unfold Receiver.take
      simp only [nothing, lt_irrefl, if_false, last, reduceCtorEq]
      exact sound_write sound.books filling sound.places (by omega) some_n _ _ _

theorem Sound.step (sound : s.Sound device) {a : Act} (promised : s.Promised a) {s' : Receiver α}
    (goes : s.step device a = some s') : s'.Sound device := by
  cases a with
  | startStreaming | stopStreaming =>
    obtain ⟨idle, ⟨⟩⟩ := Option.ite_none_right_eq_some.mp goes
    exact sound.resetGapTracking (Option.isNone_iff_eq_none.mp idle)
  | recvChunk target =>
    obtain ⟨idle, ⟨⟩⟩ := Option.ite_none_right_eq_some.mp goes
    exact sound.recvChunk (Option.isNone_iff_eq_none.mp idle) target
  | recv r =>
    cases filling : s.log.filling with
    | none => simp [Receiver.step, filling] at goes
    | some f =>
      simp only [Receiver.step, filling] at goes
      obtain ⟨-, taken⟩ := Option.ite_none_right_eq_some.mp goes
      by_cases failed : r.error = .other
      · rw [if_pos failed] at taken
        cases taken
        exact sound.finish filling
      · rw [if_neg failed] at taken
        by_cases some_n : 0 < r.n
        · rw [if_pos some_n] at taken
          cases taken
          exact sound.take filling some_n failed promised
        · rw [if_neg some_n] at taken
          cases taken
          exact sound
  | returns =>
    cases filling : s.log.filling with
    | none => simp [Receiver.step, filling] at goes
    | some f =>
      simp only [Receiver.step, filling] at goes
      obtain ⟨-, ⟨⟩⟩ := Option.ite_none_left_eq_some.mp goes
      exact sound.finish filling

/-- The USRP receiver accounts for every loss between packets with a time_spec. -/
theorem Reach.accounts {rate : ℚ} (reach : Runs.Reach (fun s => step s device) (create rate) Promised s) :
    AccountsForLosses device s.first s.log := by
  have sound : s.Sound device :=
    reach.invariant (I := fun s => s.Sound device) (sound_create rate)
      (fun _ _ _ sound promised goes => sound.step promised goes)
  have whole : Places device s.first (s.log.soFar ++ []) := by simpa using sound.places
  exact sound.books.accounts whole

end Receiver

end RFObserver
