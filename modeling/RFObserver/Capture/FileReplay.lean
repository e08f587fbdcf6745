import Mathlib.Tactic
import RFObserver.Lib.Runs

/-! A receiver that replays a capture: which samples each chunk has, and when it returns. -/

namespace RFObserver

namespace FileReplay

variable {S : Type*}

/-- What `recv_chunk` puts into its buffer (none is a sample of noise), where it stops in the
capture, and whether it began the capture again or found it exhausted. -/
structure Filled (S : Type*) where
  chunk : List (Option S)
  pos : ℕ
  wrapped : Bool
  exhausted : Bool

/-- The loop of `recv_chunk`, with `need` samples left to fill. -/
def fill (samples : List S) (loop : Bool) : ℕ → ℕ → ℕ → Filled S
  | 0, _, pos => ⟨[], pos, false, false⟩
  | fuel + 1, need, pos =>
    if need = 0 then ⟨[], pos, false, false⟩
    else if samples.length ≤ pos ∧ loop = false then ⟨List.replicate need none, pos, false, true⟩
    else
      let start := if samples.length ≤ pos then 0 else pos
      let took := (samples.drop start).take need
      let rest := fill samples loop fuel (need - took.length) (start + took.length)
      ⟨took.map some ++ rest.chunk, rest.pos, decide (samples.length ≤ pos) || rest.wrapped, rest.exhausted⟩

end FileReplay

/-- `waiting` is the deadline of the chunk that is ready, with the time it became so, while
`recv_chunk` sleeps; `served` are all samples returned, `begun` is when the first chunk was ready,
`due` the playing time of all chunks, each at its speed, and `clock` the time of the last step. -/
structure FileReplay (S : Type*) where
  samples : List S
  rate : ℚ
  loop : Bool
  paced : Bool
  pos : ℕ
  exhausted : Bool
  speed : ℚ
  paceT0 : Option ℚ
  paceSamples : ℕ
  waiting : Option (ℚ × ℚ)
  served : List (Option S)
  begun : Option ℚ
  due : ℚ
  clock : ℚ

namespace FileReplay

def paceReanchorLagSec : ℚ := 1

def clampSpeed (speed : ℚ) : ℚ := max (1 / 100) speed

/-- Of a capture, all of it or its first `maxSamples` samples. -/
def create (capture : List S) (maxSamples : Option ℕ) (rate : ℚ) (paced loop : Bool) (speed now : ℚ) :
    FileReplay S where
  samples := maxSamples.elim capture fun n => capture.take n
  rate := rate
  loop := loop
  paced := paced
  pos := 0
  exhausted := false
  speed := clampSpeed speed
  paceT0 := none
  paceSamples := 0
  waiting := none
  served := []
  begun := none
  due := 0
  clock := now

variable (r : FileReplay S)

/-- `_pace` up to the end of its lock: the deadline is counted from `t0`. -/
def pace (n : ℕ) (wrapped : Bool) (now : ℚ) : FileReplay S :=
  let fresh := r.paceT0.isNone || wrapped
  let t0 := if fresh then now else r.paceT0.getD now
  let samples := (if fresh then 0 else r.paceSamples) + n
  { r with
    paceT0 := some t0
    paceSamples := samples
    waiting := some (t0 + samples / (r.rate * r.speed), now)
    begun := some (r.begun.getD now)
    due := r.due + n / (r.rate * r.speed)
    clock := now }

/-- `recv_chunk` of `n` samples, until it sleeps. An empty capture gives noise. -/
def recvChunk (n : ℕ) (now : ℚ) : FileReplay S :=
  if r.samples = [] then { r with served := r.served ++ List.replicate n none, clock := now }
  else
    let filled := fill r.samples r.loop n n r.pos
    let r := { r with
      pos := filled.pos
      exhausted := r.exhausted || filled.exhausted
      served := r.served ++ filled.chunk
      clock := now }
    if r.paced then r.pace n filled.wrapped now else r

/-- The rest of `_pace`, at a time `now`: far behind its deadline, it starts anew. -/
def wake (deadline ready now : ℚ) : FileReplay S :=
  if deadline - ready < -paceReanchorLagSec then
    { r with paceT0 := some now, paceSamples := 0, waiting := none, clock := now }
  else { r with waiting := none, clock := now }

def setSpeed (speed : ℚ) : FileReplay S := { r with speed := clampSpeed speed, paceT0 := none }

/-- A chunk is asked for, its sleep ends, or the speed is set, which may be at any time. -/
inductive Act
  | recvChunk (n : ℕ) (now : ℚ)
  | wake (now : ℚ)
  | setSpeed (speed : ℚ)

/-- Time does not go back, and a sleep lasts until its deadline. -/
def step : FileReplay S → Act → Option (FileReplay S)
  | r, .recvChunk n now => if r.waiting = none ∧ r.clock ≤ now then some (r.recvChunk n now) else none
  | r, .wake now => r.waiting.bind fun w =>
    if r.clock ≤ now ∧ (w.2 < w.1 → w.1 ≤ now) then some (r.wake w.1 w.2 now) else none
  | r, .setSpeed speed => some (r.setSpeed speed)

/-- The sample at a place of the stream: the capture, again and again or once and then noise. -/
def sampleAt (samples : List S) (loop : Bool) (i : ℕ) : Option S :=
  if loop then samples[i % samples.length]? else samples[i]?

/-- Where the capture stands after `total` samples. -/
def At (samples : List S) (loop : Bool) (pos total : ℕ) : Prop :=
  pos ≤ samples.length ∧ if loop then pos % samples.length = total % samples.length else pos = min total samples.length

variable {samples : List S} {loop : Bool} {pos total need fuel : ℕ}

/-- The loop fills its buffer with what comes next. -/
theorem fill_spec (some_ : samples ≠ []) (enough : need ≤ fuel) (at_ : At samples loop pos total) :
    (fill samples loop fuel need pos).chunk = (List.range need).map (fun i => sampleAt samples loop (total + i)) ∧
      At samples loop (fill samples loop fuel need pos).pos (total + need) ∧
      ((fill samples loop fuel need pos).exhausted = true ↔
        loop = false ∧ 0 < need ∧ samples.length < total + need) := by
  have size := List.length_pos_iff.mpr some_
  induction fuel generalizing need pos total with
  | zero =>
    obtain rfl : need = 0 := by omega
    exact ⟨rfl, at_, by simp [fill]⟩
  | succ fuel ih =>
    unfold fill
    by_cases none : need = 0
    · subst none
      rw [if_pos rfl]
      exact ⟨rfl, at_, by simp⟩
    rw [if_neg none]
    obtain ⟨inside, place⟩ := at_
    by_cases past : samples.length ≤ pos ∧ loop = false
    · obtain ⟨end_, rfl⟩ := past
      have place : pos = min total samples.length := place
      rw [if_pos ⟨end_, rfl⟩]
      refine ⟨?_, ⟨inside, show pos = min (total + need) samples.length by omega⟩,
        iff_of_true rfl ⟨rfl, by omega, by omega⟩⟩
      refine (List.eq_replicate_iff.mpr ⟨by simp, fun a member => ?_⟩).symm
      obtain ⟨i, -, rfl⟩ := List.mem_map.mp member
      exact List.getElem?_eq_none (by omega)
    · rw [if_neg past]
      dsimp only
      generalize starts : (if samples.length ≤ pos then 0 else pos) = start
      have within : start < samples.length := by
        rw [← starts]
        split <;> omega
      have same : At samples loop start total ∧ (loop = false → start = total) := by
        cases loop with
        | true =>
          refine ⟨⟨within.le, ?_⟩, fun no => absurd no (by decide)⟩
          have place : pos % samples.length = total % samples.length := place
          change start % samples.length = total % samples.length
          rw [← place, ← starts]
          split
          · obtain rfl : pos = samples.length := by omega
            rw [Nat.mod_self, Nat.zero_mod]
          · rfl
        | false =>
          have place : pos = min total samples.length := place
          have apart : ¬ samples.length ≤ pos := fun end_ => past ⟨end_, rfl⟩
          rw [if_neg apart] at starts
          exact ⟨⟨within.le, show start = min total samples.length by omega⟩, fun _ => by omega⟩
      have length : ((samples.drop start).take need).length = min need (samples.length - start) := by
        rw [List.length_take, List.length_drop]
      generalize tookEq : (samples.drop start).take need = took at length
      have next : At samples loop (start + took.length) (total + took.length) := by
        obtain ⟨-, place⟩ := same.1
        refine ⟨by omega, ?_⟩
        cases loop with
        | true => exact Nat.ModEq.add_right took.length place
        | false =>
          have first := same.2 rfl
          change start + took.length = min (total + took.length) samples.length
          omega
      obtain ⟨chunk, after, exhausted⟩ := ih (show need - took.length ≤ _ by omega) next
      refine ⟨?_, ?_, ?_⟩
      · have here : took.map some = (List.range took.length).map fun i => sampleAt samples loop (total + i) := by
          refine List.ext_getElem? fun i => ?_
          by_cases short : i < took.length
          · have own : took[i]? = samples[start + i]? := by
              rw [← tookEq, List.getElem?_take_of_lt (by omega), List.getElem?_drop]
            have at_ : sampleAt samples loop (total + i) = samples[start + i]? := by
              unfold sampleAt
              cases loop with
              | true =>
                have mod : (total + i) % samples.length = (start + i) % samples.length :=
                  (Nat.ModEq.add_right i same.1.2).symm
                rw [if_pos rfl, mod, Nat.mod_eq_of_lt (by omega)]
              | false => rw [if_neg Bool.false_ne_true, same.2 rfl]
            rw [List.getElem?_map, List.getElem?_map, List.getElem?_range short, own, Option.map_some, at_,
              List.getElem?_eq_getElem (by omega : start + i < samples.length), Option.map_some]
          · rw [List.getElem?_eq_none (by simpa using short), List.getElem?_eq_none (by simpa using short)]
        have parts : need = took.length + (need - took.length) := by omega
        rw [chunk, here, parts, List.range_add, List.map_append, List.map_map, ← parts]
        simp only [Function.comp_def, Nat.add_assoc]
      · have whole : total + took.length + (need - took.length) = total + need := by omega
        rw [whole] at after
        exact after
      · rw [exhausted]
        constructor
        · rintro ⟨once, left, beyond⟩
          exact ⟨once, by omega, by omega⟩
        · rintro ⟨once, -, beyond⟩
          have first := same.2 once
          exact ⟨once, by omega, by omega⟩

variable {r r' : FileReplay S} {a : Act}

/-- What is served is the capture, in order, and it ends where the capture does. -/
structure Streams (r : FileReplay S) : Prop where
  stream : r.served = (List.range r.served.length).map (sampleAt r.samples r.loop)
  place : r.samples ≠ [] → At r.samples r.loop r.pos r.served.length
  ends : r.exhausted = true ↔ r.loop = false ∧ r.samples ≠ [] ∧ r.samples.length < r.served.length

/-- No chunk returns before all samples up to its end could be played. -/
structure Paced (r : FileReplay S) : Prop where
  fresh : r.begun = none → r.paceT0 = none ∧ r.waiting = none ∧ r.due = 0
  anchored : ∀ t0 ∈ r.paceT0, ∀ begun ∈ r.begun, begun + r.due ≤ t0 + r.paceSamples / (r.rate * r.speed)
  sleeps : ∀ w ∈ r.waiting, w.2 ≤ r.clock ∧ ∀ begun ∈ r.begun, begun + r.due ≤ w.1
  returned : r.waiting = none → ∀ begun ∈ r.begun, begun + r.due ≤ r.clock

theorem Streams.append {r' : FileReplay S} (streams : r.Streams) (samples : r'.samples = r.samples)
    (loop : r'.loop = r.loop) {chunk : List (Option S)} (served : r'.served = r.served ++ chunk)
    (next : chunk = (List.range chunk.length).map fun i => sampleAt r.samples r.loop (r.served.length + i))
    (place : r.samples ≠ [] → At r.samples r.loop r'.pos (r.served.length + chunk.length))
    (ends : r'.exhausted = true ↔ r.loop = false ∧ r.samples ≠ [] ∧ r.samples.length < r.served.length + chunk.length) :
    r'.Streams := by
  have length : r'.served.length = r.served.length + chunk.length := by rw [served, List.length_append]
  refine ⟨?_, ?_, ?_⟩
  · rw [length, samples, loop, served, List.range_add, List.map_append, List.map_map, ← streams.stream]
    exact congrArg (r.served ++ ·) next
  · rw [length, samples, loop]
    exact place
  · rw [length, samples, loop]
    exact ends

theorem Streams.recvChunk (streams : r.Streams) (n : ℕ) (now : ℚ) : (r.recvChunk n now).Streams := by
  unfold FileReplay.recvChunk
  by_cases empty : r.samples = []
  · rw [if_pos empty]
    refine streams.append rfl rfl rfl ?_ (fun some_ => absurd empty some_) ?_
    · rw [List.length_replicate]
      refine (List.eq_replicate_iff.mpr ⟨by simp, fun a member => ?_⟩).symm
      obtain ⟨i, -, rfl⟩ := List.mem_map.mp member
      rw [sampleAt, empty]
      split <;> rfl
    · exact streams.ends.trans ⟨fun ends => absurd empty ends.2.1, fun ends => absurd empty ends.2.1⟩
  · rw [if_neg empty]
    obtain ⟨chunk, after, exhausted⟩ := fill_spec empty (le_refl n) (streams.place empty)
    have length : (fill r.samples r.loop n n r.pos).chunk.length = n := by
      rw [chunk, List.length_map, List.length_range]
    have filled : ∀ r' : FileReplay S, r'.samples = r.samples → r'.loop = r.loop →
        r'.pos = (fill r.samples r.loop n n r.pos).pos →
        r'.exhausted = (r.exhausted || (fill r.samples r.loop n n r.pos).exhausted) →
        r'.served = r.served ++ (fill r.samples r.loop n n r.pos).chunk → r'.Streams := by
      intro r' samples loop pos ends served
      refine streams.append samples loop served (by rw [length]; exact chunk)
        (fun _ => by rw [pos, length]; exact after) ?_
      rw [ends, Bool.or_eq_true, streams.ends, exhausted, length]
      constructor
      · rintro (⟨once, some_, beyond⟩ | ⟨once, some_, beyond⟩)
        · exact ⟨once, empty, by omega⟩
        · exact ⟨once, empty, beyond⟩
      · rintro ⟨once, -, beyond⟩
        by_cases none : n = 0
        · exact Or.inl ⟨once, empty, by omega⟩
        · exact Or.inr ⟨once, by omega, beyond⟩
    dsimp only
    split <;> exact filled _ rfl rfl rfl rfl rfl

theorem Paced.recvChunk (paced : r.Paced) (rest : r.waiting = none) (n : ℕ) {now : ℚ} (later : r.clock ≤ now) :
    (r.recvChunk n now).Paced := by
  have moved : ∀ r' : FileReplay S, r'.begun = r.begun → r'.paceT0 = r.paceT0 → r'.paceSamples = r.paceSamples →
      r'.waiting = r.waiting → r'.due = r.due → r'.rate = r.rate → r'.speed = r.speed → r'.clock = now → r'.Paced := by
    intro r' begun t0 samples waiting due rate speed clock
    refine ⟨?_, ?_, ?_, ?_⟩
    · rw [begun, t0, waiting, due]
      exact paced.fresh
    · rw [begun, t0, samples, due, rate, speed]
      exact paced.anchored
    · rw [waiting, rest]
      exact fun w none => nomatch none
    · rw [begun, due, clock]
      exact fun _ b its => (paced.returned rest b its).trans later
  unfold FileReplay.recvChunk
  split
  · exact moved _ rfl rfl rfl rfl rfl rfl rfl rfl
  dsimp only
  split
  swap
  · exact moved _ rfl rfl rfl rfl rfl rfl rfl rfl
  generalize (fill r.samples r.loop n n r.pos).wrapped = wrapped
  have begun : ∀ b, r.begun.getD now = b → b + (r.due + n / (r.rate * r.speed)) ≤
      (if (r.paceT0.isNone || wrapped) = true then now else r.paceT0.getD now) +
        (((if (r.paceT0.isNone || wrapped) = true then 0 else r.paceSamples) + n : ℕ) : ℚ) / (r.rate * r.speed) := by
    rintro b rfl
    rw [Nat.cast_add, add_div]
    cases start : r.begun with
    | none =>
      obtain ⟨t0, -, due⟩ := paced.fresh start
      rw [t0, due]
      simp
    | some b =>
      have before := paced.returned rest b start
      split
      · simp only [Option.getD_some, Nat.cast_zero, zero_div]
        linarith
      · rename_i kept
        cases t0 : r.paceT0 with
        | none => rw [t0] at kept; simp at kept
        | some t0' =>
          have anchored := paced.anchored t0' t0 b start
          simp only [Option.getD_some]
          linarith
  refine ⟨fun none => (nomatch none), ?_, ?_, fun none => (nomatch none)⟩
  · rintro t0 ⟨⟩ b ⟨⟩
    exact begun _ rfl
  · rintro w ⟨⟩
    refine ⟨le_rfl, ?_⟩
    rintro b ⟨⟩
    exact begun _ rfl

theorem Paced.wake {deadline ready now : ℚ} (paced : r.Paced) (sleeps : r.waiting = some (deadline, ready))
    (later : r.clock ≤ now) (lasts : ready < deadline → deadline ≤ now) : (r.wake deadline ready now).Paced := by
  obtain ⟨reached, due⟩ := paced.sleeps (deadline, ready) sleeps
  have played : ∀ begun ∈ r.begun, begun + r.due ≤ now := by
    intro b its
    refine (due b its).trans ?_
    by_cases early : ready < deadline
    · exact lasts early
    · exact (not_lt.mp early).trans (reached.trans later)
  have some_ : r.begun ≠ none := fun none => by
    have idle := (paced.fresh none).2.1
    rw [idle] at sleeps
    cases sleeps
  unfold FileReplay.wake
  split
  · refine ⟨fun none => absurd none some_, ?_, fun w none => (nomatch none), fun _ => played⟩
    rintro t0 ⟨⟩ b its
    simpa using played b its
  · exact ⟨fun none => absurd none some_, paced.anchored, fun w none => (nomatch none), fun _ => played⟩

theorem step_keeps (goes : step r a = some r') (streams : r.Streams) (paced : r.Paced) : r'.Streams ∧ r'.Paced := by
  cases a with
  | recvChunk n now =>
    simp only [step] at goes
    split at goes
    · rename_i ready
      cases goes
      exact ⟨streams.recvChunk n now, paced.recvChunk ready.1 n ready.2⟩
    · cases goes
  | wake now =>
    obtain ⟨⟨deadline, ready⟩, sleeps, goes⟩ := Option.bind_eq_some_iff.mp goes
    split at goes
    · rename_i lasts
      cases goes
      refine ⟨?_, paced.wake sleeps lasts.1 lasts.2⟩
      unfold FileReplay.wake
      split <;> exact { streams with }
    · cases goes
  | setSpeed speed =>
    cases goes
    exact ⟨{ streams with }, fun none => ⟨rfl, (paced.fresh none).2⟩, fun t0 none => (nomatch none), paced.sleeps,
      paced.returned⟩

/-- In every run the samples served are those of the capture, in order, again and again or once and then noise,
however the chunks are cut; and no paced chunk returns before the playing time of all chunks up to it, each
at its speed, has passed since the first was ready. -/
theorem Reach.replays_in_time {capture : List S} {maxSamples : Option ℕ} {rate speed now : ℚ} {paced : Bool}
    (reach : Runs.Reach step (create capture maxSamples rate paced loop speed now) (fun _ _ => True) r) :
    r.Streams ∧ r.Paced := by
  refine Runs.Reach.invariant (I := fun r => r.Streams ∧ r.Paced) ⟨⟨rfl, fun _ => ⟨Nat.zero_le _, ?_⟩, ?_⟩,
    fun _ => ⟨rfl, rfl, rfl⟩, fun t0 none => (nomatch none), fun w none => (nomatch none),
    fun _ b none => (nomatch none)⟩
    (fun _ _ _ holds _ goes => step_keeps goes holds.1 holds.2) reach
  · cases loop
    · exact (Nat.zero_min _).symm
    · rfl
  · exact iff_of_false Bool.false_ne_true fun ends => absurd ends.2.2 (Nat.not_lt_zero _)

/-- Four samples in a loop, in chunks of three, with the speed set during a sleep and a slow host. -/
def slowHost : List Act :=
  [.recvChunk 3 1, .wake 2, .recvChunk 3 2, .setSpeed 1, .wake 3, .recvChunk 3 9, .wake 10, .recvChunk 1 20, .wake 21]

theorem Reach.replays_in_time_slowHost :
    ∃ r, Runs.follow step (create [5, 6, 7, 8] none 4 true true 2 0) slowHost = some r ∧
      (r.served, r.begun, r.due) = ([5, 6, 7, 8, 5, 6, 7, 8, 5, 6].map some, some 1, 7 / 4) ∧ r.Streams ∧ r.Paced := by
  have final : (Runs.follow step (create [5, 6, 7, 8] none 4 true true 2 0) slowHost).map
      (fun r => (r.served, r.begun, r.due)) = some ([5, 6, 7, 8, 5, 6, 7, 8, 5, 6].map some, some 1, 7 / 4) := by
    with_unfolding_all decide
  obtain ⟨r, goes, served⟩ := Option.map_eq_some_iff.mp final
  exact ⟨r, goes, served, Reach.replays_in_time (.of_follow goes)⟩

end FileReplay

end RFObserver
