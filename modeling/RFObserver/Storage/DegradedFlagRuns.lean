import RFObserver.Storage.DegradedFlag

namespace RFObserver

open IsoTime JsonText

/-- A UTC time with microseconds. -/
def Stamp (when_ : ℚ) : Prop := ∃ t : DateTime, t.offset = some 0 ∧ t.timestamp = when_

theorem Stamp.text {x : ℚ} (stamp : Stamp x) : (fromisoformat (utcText x)).map DateTime.timestamp = some x := by
  obtain ⟨t, utc, rfl⟩ := stamp
  simp [utcText, DateTime.fromtimestamp_timestamp utc, DateTime.fromisoformat_isoformat]

theorem Stamp.text_ne_nil {x : ℚ} (stamp : Stamp x) : utcText x ≠ [] := by
  obtain ⟨t, utc, rfl⟩ := stamp
  rw [utcText, DateTime.fromtimestamp_timestamp utc, Option.elim_some, DateTime.isoformat_eq]
  exact digits_append_ne_nil _ (by omega)

namespace DegradedConfig

def SinceStamped (since : Option ℚ) : Prop := ∀ x ∈ since, Stamp x
def ErrorStamped (error : Option WriteError) : Prop := ∀ e ∈ error, Stamp e.when

theorem readSince_sinceText {since : Option ℚ} (stamped : SinceStamped since) :
    readSince (some (sinceText since)) = since := by
  cases since with
  | none => rfl
  | some x =>
    have stamp := stamped x rfl
    obtain ⟨c, t, text⟩ := List.exists_cons_of_ne_nil stamp.text_ne_nil
    simp only [sinceText, text, readSince]
    rw [← text]
    exact stamp.text

theorem readError_errorText {error : Option WriteError} (stamped : ErrorStamped error) :
    readError (some (errorText error)) = error := by
  cases error with
  | none => rfl
  | some e =>
    have read : loads (errorText (some e)) = some (.object [("at".toList, .string (utcText e.when)),
        ("error".toList, .string e.error.toList)]) := loads_dumps (by simp)
    have stamp := (stamped e rfl).text
    obtain ⟨t, parsed, time⟩ := Option.map_eq_some_iff.mp stamp
    have text : ∃ c t, errorText (some e) = c :: t := ⟨_, _, rfl⟩
    obtain ⟨c, rest, text⟩ := text
    simp only [text, readError]
    rw [← text, read]
    have key : ("at".toList == "error".toList) = false := by decide
    simp only [Json.get, List.reverse_cons, List.reverse_nil, List.nil_append, List.cons_append, List.lookup_cons,
      beq_self_eq_true, key, Json.text, Option.bind_some, parsed, Option.map_some, time, String.ofList_toList]

end DegradedConfig

namespace DegradedFlag

open DegradedConfig

variable {s : DegradedFlag}

def Stamped (flag : Option ℚ × Option WriteError) : Prop := SinceStamped flag.1 ∧ ErrorStamped flag.2

/-- The values of a persist under way: those to be stored unless the governor
is dirty again, the first one stored once it is written, none older than what
was written before. -/
structure Taken (s : DegradedFlag) (p : Persisting) : Prop where
  since : ∃ x, SinceStamped x ∧ p.since = sinceText x
  error : ∃ e, ErrorStamped e ∧ p.error = errorText e
  current : s.governor.degradedDirty = false → p.since = sinceText s.flag.1 ∧ p.error = errorText s.flag.2
  first : p.wroteFirst = true → s.config.degraded = some p.since
  newest : ∀ v ∈ s.written, v ≤ p.version
  version : p.version ≤ s.version

structure Sound (s : DegradedFlag) : Prop where
  stamped : Stamped s.flag
  since : ∀ raw ∈ s.config.degraded, ∃ x, SinceStamped x ∧ raw = sinceText x
  error : ∀ raw ∈ s.config.lastWriteError, ∃ e, ErrorStamped e ∧ raw = errorText e
  taken : ∀ p ∈ s.persisting, s.Taken p
  clean : s.governor.degradedDirty = false → s.persisting = none → s.config.read = s.flag
  version : ∀ v ∈ s.written, v ≤ s.version
  ordered : s.written.Pairwise (· ≤ ·)

theorem sound_create (now : DateTime) : (create now).Sound where
  stamped := ⟨by simp [create, flag, StorageGovernor.started, StorageGovernor.restoreDegraded, StorageGovernor.create, SinceStamped],
    by simp [create, flag, StorageGovernor.started, StorageGovernor.restoreDegraded, StorageGovernor.create, ErrorStamped]⟩
  since := by simp [create]
  error := by simp [create]
  taken := by simp [create]
  clean := fun _ _ => rfl
  version := by simp [create]
  ordered := by simp [create]

/-- A call of the governor that makes it dirty unless what is to be stored stays. -/
theorem Sound.call (sound : s.Sound) {governor : StorageGovernor}
    (stamped : Stamped ({ s with governor := governor } : DegradedFlag).flag)
    (dirty : governor.degradedDirty = false → s.governor.degradedDirty = false ∧
      ({ s with governor := governor } : DegradedFlag).flag = s.flag) : (s.call governor).Sound := by
  have later : s.version ≤ (s.call governor).version := by
    simp only [DegradedFlag.call]
    split <;> omega
  refine ⟨stamped, sound.since, sound.error, ?_, ?_, fun v member => (sound.version v member).trans later, sound.ordered⟩
  · intro p member
    obtain ⟨since, error, current, first, newest, version⟩ := sound.taken p member
    refine ⟨since, error, fun clean => ?_, first, newest, version.trans later⟩
    obtain ⟨was, same⟩ := dirty clean
    have text := current was
    rwa [← same] at text
  · intro clean idle
    obtain ⟨was, same⟩ := dirty clean
    exact (sound.clean was idle).trans same.symm

theorem Sound.take (sound : s.Sound) (idle : s.persisting = none) : s.take.Sound := by
  unfold DegradedFlag.take StorageGovernor.takeDegradedChange
  cases dirty : s.governor.degradedDirty with
  | false =>
    simp only [Bool.false_eq_true, if_false]
    exact ⟨sound.stamped, sound.since, sound.error, by simp [idle], fun _ _ => sound.clean dirty idle, sound.version,
      sound.ordered⟩
  | true =>
    simp only [if_true]
    refine ⟨sound.stamped, sound.since, sound.error, ?_, by simp, sound.version, sound.ordered⟩
    intro p member
    cases Option.some.inj member
    exact ⟨⟨_, sound.stamped.1, rfl⟩, ⟨_, sound.stamped.2, rfl⟩, fun _ => ⟨rfl, rfl⟩, by simp, sound.version, le_rfl⟩

/-- What a written value leaves, whether the persist goes on or not. -/
theorem Sound.wrote (sound : s.Sound) {p : Persisting} (under : s.persisting = some p) :
    (∀ raw ∈ (s.write p).config.degraded, ∃ x, SinceStamped x ∧ raw = sinceText x) ∧
      (∀ raw ∈ (s.write p).config.lastWriteError, ∃ e, ErrorStamped e ∧ raw = errorText e) ∧
      (s.write p).written = s.written ++ [p.version] ∧ (s.write p).governor = s.governor ∧
      (s.write p).version = s.version := by
  obtain ⟨since, error, -, -, -, -⟩ := sound.taken p under
  unfold DegradedFlag.write
  by_cases second : p.wroteFirst = true
  · simp only [second, if_true, and_true]
    refine ⟨sound.since, ?_⟩
    rintro raw ⟨⟩
    exact error
  · rw [if_neg second]
    refine ⟨?_, sound.error, rfl, rfl, rfl⟩
    rintro raw ⟨⟩
    exact since

theorem Sound.appended (sound : s.Sound) {p : Persisting} (under : s.persisting = some p) :
    (∀ v ∈ s.written ++ [p.version], v ≤ p.version) ∧ (s.written ++ [p.version]).Pairwise (· ≤ ·) := by
  have newest := (sound.taken p under).newest
  constructor
  · intro v member
    rcases List.mem_append.mp member with old | new
    · exact newest v old
    · exact (List.mem_singleton.mp new).le
  · refine List.pairwise_append.mpr ⟨sound.ordered, List.pairwise_singleton .., ?_⟩
    intro v old w new
    cases List.mem_singleton.mp new
    exact newest v old

theorem Sound.write (sound : s.Sound) {p : Persisting} (under : s.persisting = some p) :
    ({ s.write p with persisting := if p.wroteFirst then none else some { p with wroteFirst := true } } :
      DegradedFlag).Sound := by
  obtain ⟨since, error, written, governor, version⟩ := sound.wrote under
  obtain ⟨newest, ordered⟩ := sound.appended under
  have taken := sound.taken p under
  have same : ∀ q, ({ s.write p with persisting := q } : DegradedFlag).flag = s.flag := by
    intro q
    rw [flag, flag]
    exact congrArg₂ Prod.mk (by rw [governor]) (by rw [governor])
  refine ⟨by rw [same]; exact sound.stamped, since, error, ?_, ?_, ?_, by rw [written]; exact ordered⟩
  · intro q member
    by_cases second : p.wroteFirst = true
    · simp [second] at member
    · simp only [if_neg second, Option.mem_some_iff] at member
      subst member
      refine ⟨taken.since, taken.error, ?_, ?_, ?_, ?_⟩
      · rw [same, governor]
        exact taken.current
      · intro _
        simp [DegradedFlag.write, second]
      · rw [written]
        exact newest
      · rw [version]
        exact taken.version
  · intro clean finished
    have second : p.wroteFirst = true := by
      by_contra unwritten
      simp [unwritten] at finished
    rw [governor] at clean
    obtain ⟨sinceNow, errorNow⟩ := taken.current clean
    have first := taken.first second
    rw [same]
    simp only [DegradedFlag.write, second, if_true, DegradedConfig.read, first, sinceNow, errorNow,
      readSince_sinceText sound.stamped.1, readError_errorText sound.stamped.2]
  · rw [written, version]
    exact fun v member => (newest v member).trans taken.version

theorem Sound.fails (sound : s.Sound) {p : Persisting} (under : s.persisting = some p) (wrote : Bool) :
    ({ (if wrote then s.write p else s) with persisting := none, governor := s.governor.markDegradedDirty } :
      DegradedFlag).Sound := by
  obtain ⟨since, error, written, governor, version⟩ := sound.wrote under
  obtain ⟨newest, ordered⟩ := sound.appended under
  have taken := sound.taken p under
  cases wrote with
  | false =>
    exact ⟨sound.stamped, sound.since, sound.error, by simp, by simp [StorageGovernor.markDegradedDirty], sound.version,
      sound.ordered⟩
  | true =>
    refine ⟨sound.stamped, since, error, by simp, by simp [StorageGovernor.markDegradedDirty], ?_, ?_⟩
    · intro v member
      simp only [if_true, written, version] at member ⊢
      exact (newest v member).trans taken.version
    · simp only [if_true, written]
      exact ordered

/-- A new process has just what is stored. -/
theorem restored (now : ℚ) (since : Option ℚ) (error : Option WriteError) :
    (StorageGovernor.started now since error).state.degradedSince = since ∧
      (StorageGovernor.started now since error).state.lastWriteError = error ∧
      (StorageGovernor.started now since error).degradedDirty = false := by
  simp [StorageGovernor.started, StorageGovernor.restoreDegraded, StorageGovernor.create]

theorem Sound.read_stamped (sound : s.Sound) : Stamped s.config.read := by
  constructor
  · cases stored : s.config.degraded with
    | none => simp [DegradedConfig.read, readSince, stored, SinceStamped]
    | some raw =>
      obtain ⟨x, stamped, rfl⟩ := sound.since raw stored
      simp only [DegradedConfig.read, stored, readSince_sinceText stamped]
      exact stamped
  · cases stored : s.config.lastWriteError with
    | none => simp [DegradedConfig.read, readError, stored, ErrorStamped]
    | some raw =>
      obtain ⟨e, stamped, rfl⟩ := sound.error raw stored
      simp only [DegradedConfig.read, stored, readError_errorText stamped]
      exact stamped

theorem Sound.restart (sound : s.Sound) (now : DateTime) :
    ({ s with governor := .started now.timestamp s.config.read.1 s.config.read.2, persisting := none, waiting := 0,
              version := s.version + 1 } : DegradedFlag).Sound := by
  obtain ⟨since, error, -⟩ := restored now.timestamp s.config.read.1 s.config.read.2
  have flag : ∀ (t : DegradedFlag), t.governor = .started now.timestamp s.config.read.1 s.config.read.2 →
      t.flag = s.config.read := by
    intro t is
    rw [DegradedFlag.flag, is, since, error]
  refine ⟨by rw [flag _ rfl]; exact sound.read_stamped, sound.since, sound.error, by simp,
    fun _ _ => (flag _ rfl).symm, ?_, sound.ordered⟩
  exact fun v member => (sound.version v member).trans (Nat.le_succ _)

theorem Sound.step {a : Act} (sound : s.Sound) (utc : s.Utc a) {s' : DegradedFlag} (goes : s.step a = some s') :
    s'.Sound := by
  have stamp : ∀ now : DateTime, now.offset = some 0 → Stamp now.timestamp := fun now isUtc => ⟨now, isUtc, rfl⟩
  cases a with
  | tick sample minFreeGb now =>
    cases goes
    refine sound.call ⟨?_, sound.stamped.2⟩ ?_
    · intro x member
      simp only [flag, StorageGovernor.tick] at member
      split at member
      · cases member
        exact stamp now utc
      · exact sound.stamped.1 x member
    · intro clean
      simp only [StorageGovernor.tick, Bool.or_eq_false_iff, decide_eq_false_iff_not] at clean
      refine ⟨clean.2, ?_⟩
      simp only [flag, StorageGovernor.tick]
      rw [if_neg clean.1]
  | reportWriteError message now =>
    cases goes
    refine sound.call ⟨?_, ?_⟩ (by simp [StorageGovernor.reportWriteError])
    · intro x member
      simp only [flag, StorageGovernor.reportWriteError, Option.mem_some_iff] at member
      subst member
      cases old : s.governor.state.degradedSince with
      | none => exact stamp now utc
      | some since => exact sound.stamped.1 since old
    · rintro e ⟨⟩
      exact stamp now utc
  | noteYoungEvictions count age now =>
    cases goes
    exact sound.call sound.stamped fun clean => ⟨clean, rfl⟩
  | clearDegraded =>
    cases goes
    exact sound.call ⟨by simp [flag, StorageGovernor.clearDegraded, SinceStamped],
      by simp [flag, StorageGovernor.clearDegraded, ErrorStamped]⟩ (by simp [StorageGovernor.clearDegraded])
  | persist =>
    cases goes
    exact ⟨sound.stamped, sound.since, sound.error, fun p member => by
      obtain ⟨since, error, current, first, newest, version⟩ := sound.taken p member
      exact ⟨since, error, current, first, newest, version⟩, sound.clean, sound.version, sound.ordered⟩
  | take =>
    obtain ⟨⟨idle, -⟩, ⟨⟩⟩ := Option.ite_none_right_eq_some.mp goes
    exact sound.take idle
  | write =>
    obtain ⟨p, under, rfl⟩ := Option.map_eq_some_iff.mp goes
    exact sound.write under
  | fails written =>
    obtain ⟨p, under, rfl⟩ := Option.map_eq_some_iff.mp goes
    exact sound.fails under written
  | restart now =>
    cases goes
    exact sound.restart now

/-- In every run the stored values follow the governor. -/
theorem Reach.follows {now : DateTime} (reach : Runs.Reach step (create now) Utc s) : s.Follows := by
  have sound : s.Sound := reach.invariant (I := fun s => s.Sound) (sound_create now)
    (fun _ _ _ sound utc goes => sound.step utc goes)
  refine ⟨fun clean idle => ?_, sound.ordered⟩
  have same := sound.clean clean idle
  refine ⟨same, fun later => ?_⟩
  obtain ⟨since, error, -⟩ := restored later s.config.read.1 s.config.read.2
  rw [since, error, ← same]

instance (s : DegradedFlag) : ∀ a, Decidable (s.Utc a)
  | .tick _ _ now | .reportWriteError _ now | .noteYoungEvictions _ _ now | .restart now =>
    inferInstanceAs (Decidable (now.offset = some 0))
  | .clearDegraded | .persist | .take | .write | .fails _ => isTrue trivial

/-- Noon of May 1, 2025, at so many seconds past. -/
def noon (second : Fin 60) : DateTime :=
  ⟨⟨2025, 5, 1, by decide, by decide, by decide⟩, 12, 0, second, 0, some 0, by have := second.isLt; omega, by simp⟩

/-- The first persist fails between its two keys, after the operator's clear. -/
def clearBetween : List Act :=
  [.reportWriteError "ENOSPC: No space left on device" (noon 1), .persist, .take, .write, .clearDegraded, .fails false,
    .persist, .take, .write, .write]

theorem Reach.follows_clearBetween :
    ∃ s, Runs.Reach step (create (noon 0)) Utc s ∧ s.written = [1, 2, 2] ∧ s.config.read = s.flag := by
  have goes : (Runs.follow step (create (noon 0)) clearBetween).map (fun s =>
      (s.written, s.governor.degradedDirty, s.persisting)) = some ([1, 2, 2], false, none) := by
    decide +kernel
  obtain ⟨s, taken, same⟩ := Option.map_eq_some_iff.mp goes
  obtain ⟨written, rest⟩ := Prod.mk.inj same
  obtain ⟨clean, idle⟩ := Prod.mk.inj rest
  have reach : Runs.Reach step (create (noon 0)) Utc s := Runs.Reach.start.follow (by decide +kernel) taken
  exact ⟨s, reach, written, ((Reach.follows reach).1 clean idle).1⟩

end DegradedFlag

end RFObserver
