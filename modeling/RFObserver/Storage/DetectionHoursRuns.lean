import RFObserver.Storage.DetectionHours

namespace RFObserver

section Weigh

/-- What rows count of some keys. -/
def weigh (q : HourKey → Bool) (rows : List HourRow) : Nat := (rows.map fun r => if q r.key then r.count else 0).sum

variable {q : HourKey → Bool} {rows : List HourRow}

theorem weigh_append (q : HourKey → Bool) (rows rows' : List HourRow) :
    weigh q (rows ++ rows') = weigh q rows + weigh q rows' := by
  simp [weigh]

theorem weigh_zero (others : ∀ r ∈ rows, q r.key = false) : weigh q rows = 0 := by
  refine List.sum_eq_zero fun n member => ?_
  obtain ⟨r, inside, rfl⟩ := List.mem_map.mp member
  simp [others r inside]

theorem weigh_filter (p : HourRow → Bool) (kept : ∀ r ∈ rows, q r.key = true → p r = true) :
    weigh q (rows.filter p) = weigh q rows := by
  induction rows with
  | nil => rfl
  | cons r rest ih =>
    have later := ih fun r' member => kept r' (List.mem_cons_of_mem r member)
    unfold weigh at later ⊢
    by_cases its : p r = true
    · rw [List.filter_cons_of_pos its, List.map_cons, List.map_cons, List.sum_cons, List.sum_cons, later]
    · have other : q r.key = false := by
        rw [Bool.eq_false_iff]
        exact fun taken => its (kept r (List.mem_cons_self ..) taken)
      rw [List.filter_cons_of_neg its, later, List.map_cons, List.sum_cons, other]
      simp

theorem weigh_cons (q : HourKey → Bool) (r : HourRow) (rows : List HourRow) :
    weigh q (r :: rows) = (if q r.key then r.count else 0) + weigh q rows := by
  simp [weigh]

/-- Grouping loses no detection and counts none twice. -/
theorem weigh_countDetectionsByHour (q : HourKey → Bool) (since until_ : ℤ) (detections : List Detection) :
    weigh q (countDetectionsByHour since until_ detections) =
      (detections.filter (Detection.startsIn since until_)).countP fun d => q d.hourKey := by
  unfold countDetectionsByHour
  generalize detections.filter (Detection.startsIn since until_) = items
  have keyed : ∀ (k : HourKey) n, (k.row n).key = k ∧ (k.row n).count = n := fun k n => ⟨rfl, rfl⟩
  have put : ∀ (d : Detection) (dict : List (HourKey × Nat)),
      weigh q ((GroupFold.put Detection.hourKey (fun _ => 0) (fun n _ => n + 1) d dict).map fun e => e.1.row e.2) =
        weigh q (dict.map fun e => e.1.row e.2) + if q d.hourKey then 1 else 0 := by
    intro d dict
    induction dict with
    | nil => simp [GroupFold.put, weigh, keyed]
    | cons e rest ih =>
      obtain ⟨k, n⟩ := e
      unfold GroupFold.put
      by_cases here : k = d.hourKey
      · subst here
        rw [if_pos rfl, List.map_cons, List.map_cons, weigh_cons, weigh_cons]
        simp only [keyed]
        split <;> omega
      · rw [if_neg here, List.map_cons, List.map_cons, weigh_cons, weigh_cons, ih]
        omega
  induction items using List.reverseRecOn with
  | nil => rfl
  | append_singleton items d ih =>
    rw [GroupFold.fold, List.foldl_append, List.countP_append, List.countP_singleton, ← ih]
    exact put d _

theorem hour_countDetectionsByHour {since until_ : ℤ} {detections : List Detection} {r : HourRow}
    (member : r ∈ countDetectionsByHour since until_ detections) :
    ∃ d ∈ detections, hourOf d.startTime = r.hour ∧ d.startsIn since until_ = true := by
  obtain ⟨e, inside, rfl⟩ := List.mem_map.mp member
  have isKey := (GroupFold.valueAt_eq_some (GroupFold.fold_keys_nodup ..)).mpr inside
  rw [GroupFold.valueAt_fold] at isKey
  cases items : (detections.filter (Detection.startsIn since until_)).filter fun d => d.hourKey = e.1 with
  | nil =>
    rw [items] at isKey
    cases isKey
  | cons d rest =>
    have there : d ∈ d :: rest := List.mem_cons_self ..
    rw [← items, List.mem_filter, List.mem_filter] at there
    obtain ⟨⟨stored, range⟩, key⟩ := there
    exact ⟨d, stored, congrArg HourKey.hour (of_decide_eq_true key), range⟩

end Weigh

namespace HourCounts

/-- A figure of an hour that adds up what rows count of some keys. -/
structure Reads (f : HourCounts → Nat) (q : HourKey → Bool) : Prop where
  zero : f zero = 0
  add : ∀ r h, f (add r h) = f h + if q r.key then r.count else 0

theorem reads_all : Reads HourCounts.all fun _ => true := by
  refine ⟨rfl, fun r h => ?_⟩
  unfold add
  by_cases model : r.model = "" <;> by_cases tried : r.tried <;> simp [model, tried]

theorem reads_attributed : Reads HourCounts.attributed fun k => k.model ≠ "" := by
  refine ⟨rfl, fun r h => ?_⟩
  unfold add
  by_cases model : r.model = "" <;> by_cases tried : r.tried <;> simp [model, tried, HourRow.key]

theorem reads_tried : Reads HourCounts.tried fun k => k.model = "" ∧ k.tried = true := by
  refine ⟨rfl, fun r h => ?_⟩
  unfold add
  by_cases model : r.model = "" <;> by_cases tried : r.tried <;> simp [model, tried, HourRow.key]

theorem reads_notTried : Reads HourCounts.notTried fun k => k.model = "" ∧ k.tried = false := by
  refine ⟨rfl, fun r h => ?_⟩
  unfold add
  by_cases model : r.model = "" <;> by_cases tried : r.tried <;> simp [model, tried, HourRow.key]

theorem reads_model {model : String} (named : model ≠ "") :
    Reads (fun h => (h.models.get? model).getD 0) fun k => k.model = model := by
  refine ⟨rfl, fun r h => ?_⟩
  unfold add
  by_cases none : r.model = ""
  · have other : r.key.model ≠ model := fun same => named (same.symm.trans none)
    by_cases tried : r.tried <;> simp [none, tried, other]
  · by_cases same : r.model = model
    · simp [same, named, HourRow.key, Dict.get?_modify]
    · simp [none, same, HourRow.key, Dict.get?_modify]

/-- An answer's hour adds up the rows of the hour. -/
theorem Reads.tallyHours {f : HourCounts → Nat} {q : HourKey → Bool} (reads : Reads f q) (rows : List HourRow) (hour : ℤ) :
    f (((tallyHours rows).get? hour).getD HourCounts.zero) = weigh (fun k => k.hour = hour && q k) rows := by
  induction rows using List.reverseRecOn with
  | nil => exact reads.zero
  | append_singleton rows r ih =>
    rw [RFObserver.tallyHours, List.foldl_append, weigh_append, ← ih]
    change f ((((RFObserver.tallyHours rows).modify r.hour HourCounts.zero (HourCounts.add r)).get? hour).getD _) = _
    rw [Dict.get?_modify]
    by_cases here : r.hour = hour
    · rw [if_pos here, Option.getD_some, reads.add]
      simp [weigh, HourRow.key, here]
    · rw [if_neg here]
      simp [weigh, HourRow.key, here]

theorem tallyHours_hour {rows : List HourRow} {hour : ℤ} (there : ((RFObserver.tallyHours rows).get? hour).isSome = true) :
    ∃ r ∈ rows, r.hour = hour := by
  induction rows using List.reverseRecOn with
  | nil => cases there
  | append_singleton rows r ih =>
    rw [RFObserver.tallyHours, List.foldl_append] at there
    change (((RFObserver.tallyHours rows).modify r.hour HourCounts.zero (HourCounts.add r)).get? hour).isSome = true at there
    rw [Dict.get?_modify] at there
    by_cases here : r.hour = hour
    · exact ⟨r, List.mem_append_right rows (List.mem_singleton_self r), here⟩
    · rw [if_neg here] at there
      obtain ⟨r', member, its⟩ := ih there
      exact ⟨r', List.mem_append_left _ member, its⟩

end HourCounts

namespace DetectionHours

section Hours

variable {hour hour' : ℤ} {x : ℚ}

theorem hourOf_eq (aligned : 3600 ∣ hour) : hourOf x = hour ↔ (hour : ℚ) ≤ x ∧ x < hour + 3600 := by
  obtain ⟨n, rfl⟩ := aligned
  have index : hourOf x = 3600 * n ↔ ⌊x / 3600⌋ = n := by
    unfold hourOf
    omega
  rw [index, Int.floor_eq_iff, le_div_iff₀ (by norm_num), div_lt_iff₀ (by norm_num)]
  push_cast
  constructor <;> rintro ⟨low, high⟩ <;> constructor <;> linarith

theorem dvd_hourOf (x : ℚ) : 3600 ∣ hourOf x := dvd_mul_left ..

theorem hourOf_le (x : ℚ) : (hourOf x : ℚ) ≤ x ∧ x < hourOf x + 3600 := (hourOf_eq (dvd_hourOf x)).mp rfl

/-- Between hours an instant is where its hour is. -/
theorem startsIn_iff {d : Detection} (aligned : 3600 ∣ hour) (aligned' : 3600 ∣ hour') :
    d.startsIn hour hour' = true ↔ hour ≤ hourOf d.startTime ∧ hourOf d.startTime < hour' := by
  obtain ⟨low, high⟩ := hourOf_le d.startTime
  have range : d.startsIn hour hour' = true ↔ (hour : ℚ) ≤ d.startTime ∧ d.startTime < hour' := decide_eq_true_iff
  have its := dvd_hourOf d.startTime
  rw [range]
  constructor
  · rintro ⟨from_, before⟩
    have from_ : hour < hourOf d.startTime + 3600 := by exact_mod_cast from_.trans_lt high
    have before : hourOf d.startTime < hour' := by exact_mod_cast low.trans_lt before
    omega
  · rintro ⟨from_, before⟩
    have from_ : (hour : ℚ) ≤ hourOf d.startTime := by exact_mod_cast from_
    have before : (hourOf d.startTime : ℚ) + 3600 ≤ hour' := by
      have : hourOf d.startTime + 3600 ≤ hour' := by omega
      exact_mod_cast this
    exact ⟨from_.trans low, high.trans_le before⟩

end Hours

/-- Rows count the detections of an hour, whatever these are split by. -/
def Holds (rows : List HourRow) (detections : List Detection) (hour : ℤ) : Prop :=
  ∀ q : HourKey → Bool, weigh (fun k => k.hour = hour && q k) rows =
    detections.countP fun d => d.hourKey.hour = hour && q d.hourKey

variable {rows rows' : List HourRow} {detections detections' : List Detection} {hour since until_ : ℤ}

theorem holds_countDetectionsByHour (aligned : 3600 ∣ since) (aligned' : 3600 ∣ until_) (from_ : since ≤ hour)
    (before : hour < until_) : Holds (countDetectionsByHour since until_ detections) detections hour := by
  intro q
  rw [weigh_countDetectionsByHour, List.countP_filter]
  refine List.countP_congr fun d _ => ?_
  have range := startsIn_iff (d := d) aligned aligned'
  have key : d.hourKey.hour = hourOf d.startTime := rfl
  simp only [Bool.and_eq_true, decide_eq_true_eq, range, key]
  constructor
  · rintro ⟨⟨rfl, its⟩, -⟩
    exact ⟨rfl, its⟩
  · rintro ⟨rfl, its⟩
    exact ⟨⟨rfl, its⟩, from_, before⟩

/-- The rows of an hour that no longer change stay counted. -/
theorem Holds.change {now : ℚ} (holds : Holds rows detections hour) (settled : Settled now hour)
    (same : (detections'.filter fun d => Settled now (hourOf d.startTime)).Perm
      (detections.filter fun d => Settled now (hourOf d.startTime))) : Holds rows detections' hour := by
  intro q
  have within : ∀ items : List Detection, (items.filter fun d => Settled now (hourOf d.startTime)).countP
      (fun d => d.hourKey.hour = hour && q d.hourKey) = items.countP fun d => d.hourKey.hour = hour && q d.hourKey := by
    intro items
    rw [List.countP_filter]
    refine List.countP_congr fun d _ => ?_
    simp only [Bool.and_eq_true, decide_eq_true_eq]
    refine ⟨fun both => both.1, fun its => ⟨its, ?_⟩⟩
    have key : hourOf d.startTime = hour := its.1
    exact key ▸ settled
  rw [holds q, ← within detections', ← within detections, same.countP_eq]

/-- Rows of other hours do not matter. -/
theorem Holds.congr (holds : Holds rows detections hour)
    (same : ∀ q : HourKey → Bool, weigh (fun k => k.hour = hour && q k) rows' = weigh (fun k => k.hour = hour && q k) rows) :
    Holds rows' detections hour := fun q => (same q).trans (holds q)

theorem weigh_hour_append (others : ∀ r ∈ rows', r.hour ≠ hour) (q : HourKey → Bool) :
    weigh (fun k => k.hour = hour && q k) (rows ++ rows') = weigh (fun k => k.hour = hour && q k) rows := by
  have none : weigh (fun k => k.hour = hour && q k) rows' = 0 :=
    weigh_zero fun r member => by simp [HourRow.key, others r member]
  rw [weigh_append, none, Nat.add_zero]

theorem weigh_hour_filter {p : HourRow → Bool} (kept : ∀ r ∈ rows, r.hour = hour → p r = true) (q : HourKey → Bool) :
    weigh (fun k => k.hour = hour && q k) (rows.filter p) = weigh (fun k => k.hour = hour && q k) rows :=
  weigh_filter p fun r member its => kept r member (by
    rw [Bool.and_eq_true, decide_eq_true_eq] at its
    exact its.1)

section Invariant

/-- A mark is an hour since 1970. -/
def Marked (mark : Option ℤ) : Prop := ∀ hour ∈ mark, 0 ≤ hour ∧ 3600 ∣ hour

/-- What each step of a pass has made sure of. -/
def PassSound (s : State) : Pass → Prop
  | .idle => True
  | .firstMark start => s.doneMark = none ∧ 0 ≤ start ∧ 3600 ∣ start
  | .secondMark start => s.doneMark = none ∧ s.sinceMark = some start
  | .loop done settled _ => s.doneMark = some done ∧ settled ≤ s.now - detHoursSettle
  | .counted done settled _ rows => s.doneMark = some done ∧ settled ≤ s.now - detHoursSettle ∧ Settled s.now done ∧
      (∀ r ∈ rows, r.hour = done) ∧ Holds rows s.detections done
  | .cleared done settled _ rows => s.doneMark = some done ∧ settled ≤ s.now - detHoursSettle ∧ Settled s.now done ∧
      (∀ r ∈ rows, r.hour = done) ∧ Holds rows s.detections done ∧ ∀ r ∈ s.hours, r.hour ≠ done
  | .stored done settled _ => s.doneMark = some done ∧ settled ≤ s.now - detHoursSettle ∧ Settled s.now done ∧
      Holds s.hours s.detections done

/-- The rows of a request that has read the stored hours. -/
structure Joined (s : State) (since until_ : ℚ) (covered done : ℤ) (rows : List HourRow) : Prop where
  range : ∀ r ∈ rows, firstHour since covered ≤ r.hour ∧ r.hour < lastHour until_ ∧ r.hour < done ∧
    ∀ first ∈ s.sinceMark, first ≤ r.hour ∧ 3600 ∣ r.hour
  holds : ∀ first ∈ s.sinceMark, ∀ hour, 3600 ∣ hour → first ≤ hour → firstHour since covered ≤ hour →
    hour < lastHour until_ → hour < done → Holds rows s.detections hour

/-- A mark that was read is no later than the one stored now. -/
def DoneBefore (s : State) (done : Option ℤ) : Prop :=
  ∀ hour ∈ done, 3600 ∣ hour ∧ (∃ mark ∈ s.doneMark, hour ≤ mark) ∧ ∃ first ∈ s.sinceMark, first ≤ hour

def RequestSound (s : State) : Request → Prop
  | .start .. => True
  | .covered _ _ covered => Marked covered
  | .marks _ _ covered done => Marked covered ∧ DoneBefore s done
  | .joined since until_ covered done rows =>
    Marked covered ∧ DoneBefore s done ∧ ∀ first ∈ covered, ∀ last ∈ done, Joined s since until_ first last rows

/-- Finalized hours are stored as they are, and no hour before the first. -/
structure Sound (s : State) : Prop where
  clock : 0 ≤ s.now
  sinceMark : Marked s.sinceMark
  doneMark : ∀ done ∈ s.doneMark, 3600 ∣ done ∧ ∃ first ∈ s.sinceMark, first ≤ done
  unmarked : s.doneMark = none → s.hours = []
  rows : ∀ first ∈ s.sinceMark, ∀ r ∈ s.hours, first ≤ r.hour ∧ 3600 ∣ r.hour
  final : ∀ done ∈ s.doneMark, ∀ first ∈ s.sinceMark, ∀ hour, 3600 ∣ hour → first ≤ hour → hour < done →
    Settled s.now hour ∧ Holds s.hours s.detections hour
  pass : PassSound s s.pass
  requests : ∀ client, ∀ r ∈ s.requests client, RequestSound s r

variable {s s' : State}

theorem Settled.later {now now' : ℚ} (settled : Settled now hour) (le : now ≤ now') : Settled now' hour :=
  le_trans settled le

/-- What a request knows stays so while the marks only move on. -/
theorem RequestSound.frame {r : Request} (sound : RequestSound s r)
    (since : s'.sinceMark = s.sinceMark ∨ s.doneMark = none) (done : ∀ mark ∈ s.doneMark, ∃ mark' ∈ s'.doneMark, mark ≤ mark')
    (detections : s'.detections = s.detections) : RequestSound s' r := by
  have reaches : ∀ {d : Option ℤ}, DoneBefore s d → DoneBefore s' d := by
    intro d reached hour isDone
    obtain ⟨aligned, ⟨mark, isMark, le⟩, first, isFirst, from_⟩ := reached hour isDone
    obtain ⟨mark', isMark', le'⟩ := done mark isMark
    rcases since with same | none
    · exact ⟨aligned, ⟨mark', isMark', le.trans le'⟩, first, same ▸ isFirst, from_⟩
    · rw [none] at isMark
      cases isMark
  cases r with
  | start => trivial
  | covered => exact sound
  | marks => exact ⟨sound.1, reaches sound.2⟩
  | joined since_ until_ c d rows =>
    obtain ⟨marked, reached, joined⟩ := sound
    refine ⟨marked, reaches reached, fun first isCovered last isDone => ?_⟩
    obtain ⟨range, holds⟩ := joined first isCovered last isDone
    rcases since with same | none
    · exact ⟨same ▸ range, by rw [same, detections]; exact holds⟩
    · obtain ⟨-, ⟨mark, isMark, -⟩, -⟩ := reached last isDone
      rw [none] at isMark
      cases isMark

theorem Sound.create : Sound create where
  clock := le_refl _
  sinceMark := fun _ none => by cases none
  doneMark := fun _ none => by cases none
  unmarked := fun _ => rfl
  rows := fun _ none => by cases none
  final := fun _ none => by cases none
  pass := trivial
  requests := fun _ _ none => by cases none

theorem Sound.tick (sound : Sound s) {now : ℚ} (le : s.now ≤ now) : Sound { s with now := now } := by
  refine { sound with clock := sound.clock.trans le, final := ?_, pass := ?_, requests := ?_ }
  · intro done isDone first isFirst hour aligned from_ before
    obtain ⟨settled, holds⟩ := sound.final done isDone first isFirst hour aligned from_ before
    exact ⟨settled.later le, holds⟩
  · have pass := sound.pass
    have later : ∀ {settled : ℚ}, settled ≤ s.now - detHoursSettle → settled ≤ now - detHoursSettle :=
      fun before => before.trans (sub_le_sub_right le _)
    revert pass
    cases s.pass with
    | loop done settled left => exact fun ⟨mark, before⟩ => ⟨mark, later before⟩
    | counted done settled left rows => exact fun ⟨mark, before, its, rest⟩ => ⟨mark, later before, its.later le, rest⟩
    | cleared done settled left rows => exact fun ⟨mark, before, its, rest⟩ => ⟨mark, later before, its.later le, rest⟩
    | stored done settled left => exact fun ⟨mark, before, its, rest⟩ => ⟨mark, later before, its.later le, rest⟩
    | _ => exact id
  · exact fun client r isThere => (sound.requests client r isThere).frame (Or.inl rfl) (fun mark isMark =>
      ⟨mark, isMark, le_refl _⟩) rfl

/-- New rows leave the settled hours counted. -/
theorem Sound.change (sound : Sound s) {detections : List Detection} (allowed : Allowed s (.change detections)) :
    Sound { s with detections := detections } := by
  refine { sound with final := ?_, pass := ?_, requests := ?_ }
  · intro done isDone first isFirst hour aligned from_ before
    obtain ⟨settled, holds⟩ := sound.final done isDone first isFirst hour aligned from_ before
    exact ⟨settled, holds.change settled allowed⟩
  · have pass := sound.pass
    revert pass
    cases s.pass with
    | counted done settled left rows =>
      exact fun ⟨mark, before, its, hours, holds⟩ => ⟨mark, before, its, hours, holds.change its allowed⟩
    | cleared done settled left rows =>
      exact fun ⟨mark, before, its, hours, holds, others⟩ =>
        ⟨mark, before, its, hours, holds.change its allowed, others⟩
    | stored done settled left => exact fun ⟨mark, before, its, holds⟩ => ⟨mark, before, its, holds.change its allowed⟩
    | _ => exact id
  · intro client r isThere
    have request := sound.requests client r isThere
    revert request
    cases r with
    | joined since until_ covered done rows =>
      rintro ⟨marked, reached, joined⟩
      refine ⟨marked, reached, fun c isCovered d isDone => ?_⟩
      obtain ⟨range, holds⟩ := joined c isCovered d isDone
      refine ⟨range, fun first isFirst hour aligned from_ lower upper before => ?_⟩
      obtain ⟨-, ⟨mark, isMark, le⟩, -⟩ := reached d isDone
      have settled := (sound.final mark isMark first isFirst hour aligned from_ (before.trans_le le)).1
      exact (holds first isFirst hour aligned from_ lower upper before).change settled allowed
    | _ => exact id

theorem Sound.frame (sound : Sound s) {pass : Pass} (its : PassSound s pass) : Sound { s with pass := pass } := by
  refine { sound with pass := ?_, requests := ?_ }
  · revert its
    cases pass <;> exact id
  · exact fun client r isThere => (sound.requests client r isThere).frame (Or.inl rfl) (fun mark isMark =>
      ⟨mark, isMark, le_refl _⟩) rfl

theorem Sound.begin_ (sound : Sound s) (goes : step s .begin_ = some s') : Sound s' := by
  obtain ⟨-, goes⟩ := Option.ite_none_right_eq_some.mp goes
  split at goes
  case h_1 none =>
    cases goes
    have clock : 0 ≤ ⌊s.now⌋ := Int.floor_nonneg.mpr sound.clock
    exact sound.frame ⟨none, by omega, dvd_mul_left ..⟩
  case h_2 done mark =>
    cases goes
    exact sound.frame ⟨mark, le_refl _⟩

/-- Every database step of a pass keeps finalized hours as they are. -/
theorem Sound.advance (sound : Sound s) (goes : DetectionHours.advance s = some s') : Sound s' := by
  have pass := sound.pass
  unfold DetectionHours.advance at goes
  split at goes
  case h_1 => cases goes
  case h_2 start its =>
    cases goes
    rw [its] at pass
    obtain ⟨none, clock, aligned⟩ := pass
    have empty := sound.unmarked none
    refine { sound with sinceMark := ?_, doneMark := ?_, rows := ?_, final := ?_, pass := ⟨none, rfl⟩, requests := ?_ }
    · rintro hour ⟨⟩
      exact ⟨clock, aligned⟩
    · intro done isDone
      rw [none] at isDone
      cases isDone
    · intro first _ r member
      rw [empty] at member
      cases member
    · intro done isDone
      rw [none] at isDone
      cases isDone
    · exact fun client r isThere => (sound.requests client r isThere).frame (Or.inr none) (fun mark isMark =>
        ⟨mark, isMark, le_refl _⟩) rfl
  case h_3 start its =>
    cases goes
    rw [its] at pass
    obtain ⟨none, first⟩ := pass
    refine { sound with doneMark := ?_, unmarked := nofun, final := ?_, pass := trivial, requests := ?_ }
    · rintro done ⟨⟩
      exact ⟨(sound.sinceMark start first).2, start, first, le_refl _⟩
    · rintro done ⟨⟩ first' isFirst hour _ from_ before
      cases first.symm.trans isFirst
      omega
    · refine fun client r isThere => (sound.requests client r isThere).frame (Or.inr none) (fun mark isMark => ?_) rfl
      rw [none] at isMark
      cases isMark
  case h_4 =>
    cases goes
    exact sound.frame trivial
  case h_5 done settled left its =>
    rw [its] at pass
    obtain ⟨mark, before⟩ := pass
    split at goes <;> cases goes
    case isTrue => exact sound.frame trivial
    case isFalse late =>
      have settles : Settled s.now done := by
        unfold Settled
        have := not_lt.mp late
        linarith
      have aligned := (sound.doneMark done mark).1
      refine sound.frame ⟨mark, before, settles, fun r member => ?_, ?_⟩
      · obtain ⟨d, -, hour, range⟩ := hour_countDetectionsByHour member
        have both := (startsIn_iff aligned (by omega)).mp range
        have its := dvd_hourOf d.startTime
        omega
      · exact holds_countDetectionsByHour aligned (by omega) (le_refl _) (by omega)
  case h_6 done settled left rows its =>
    cases goes
    rw [its] at pass
    obtain ⟨mark, before, settles, hours, holds⟩ := pass
    refine { sound with unmarked := ?_, rows := ?_, final := ?_, pass := ⟨mark, before, settles, hours, holds, ?_⟩, requests := ?_ }
    · intro none
      rw [mark] at none
      cases none
    · exact fun first isFirst r member => sound.rows first isFirst r (List.mem_of_mem_filter member)
    · intro done' isDone first isFirst hour aligned from_ below
      cases mark.symm.trans isDone
      obtain ⟨settled, counted⟩ := sound.final done mark first isFirst hour aligned from_ below
      refine ⟨settled, counted.congr (weigh_hour_filter fun r _ here => decide_eq_true fun inside => ?_)⟩
      omega
    · intro r member here
      have other := of_decide_eq_true (List.mem_filter.mp member).2
      omega
    · exact fun client r isThere => (sound.requests client r isThere).frame (Or.inl rfl) (fun mark isMark =>
        ⟨mark, isMark, le_refl _⟩) rfl
  case h_7 done settled left rows its =>
    cases goes
    rw [its] at pass
    obtain ⟨mark, before, settles, hours, holds, others⟩ := pass
    obtain ⟨aligned, first, isFirst, le⟩ := sound.doneMark done mark
    refine { sound with unmarked := ?_, rows := ?_, final := ?_, pass := ⟨mark, before, settles, ?_⟩, requests := ?_ }
    · intro none
      rw [mark] at none
      cases none
    · intro first' isFirst' r member
      cases isFirst.symm.trans isFirst'
      rcases List.mem_append.mp member with old | new
      · exact sound.rows first isFirst r old
      · rw [hours r new]
        exact ⟨le, aligned⟩
    · intro done' isDone first isFirst hour aligned from_ below
      cases mark.symm.trans isDone
      obtain ⟨settled, counted⟩ := sound.final done mark first isFirst hour aligned from_ below
      refine ⟨settled, counted.congr (weigh_hour_append fun r new => ?_)⟩
      have := hours r new
      omega
    · refine holds.congr fun q => ?_
      rw [weigh_append, weigh_zero, Nat.zero_add]
      exact fun r member => by simp [HourRow.key, others r member]
    · exact fun client r isThere => (sound.requests client r isThere).frame (Or.inl rfl) (fun mark isMark =>
        ⟨mark, isMark, le_refl _⟩) rfl
  case h_8 done settled left its =>
    cases goes
    rw [its] at pass
    obtain ⟨mark, before, settles, holds⟩ := pass
    obtain ⟨aligned, first, isFirst, le⟩ := sound.doneMark done mark
    refine { sound with doneMark := ?_, unmarked := nofun, final := ?_, pass := ⟨rfl, before⟩, requests := ?_ }
    · rintro done' ⟨⟩
      exact ⟨by omega, first, isFirst, by omega⟩
    · rintro done' ⟨⟩ first' isFirst' hour aligned' from_ below
      by_cases here : hour = done
      · subst here
        exact ⟨settles, holds⟩
      · exact sound.final done mark first' isFirst' hour aligned' from_ (by omega)
    · refine fun client r isThere => (sound.requests client r isThere).frame (Or.inl rfl) (fun mark' isMark => ?_) rfl
      cases mark.symm.trans isMark
      exact ⟨_, rfl, by omega⟩

/-- What a request reads it knows. -/
theorem Sound.reads (sound : Sound s) {r r' : Request} (known : RequestSound s r) (reads : DetectionHours.read s r = some r') :
    RequestSound s r' := by
  unfold DetectionHours.read at reads
  split at reads
  case h_1 =>
    cases reads
    exact sound.sinceMark
  case h_2 =>
    cases reads
    refine ⟨known, fun hour isDone => ?_⟩
    obtain ⟨aligned, first, isFirst, le⟩ := sound.doneMark hour isDone
    exact ⟨aligned, ⟨hour, isDone, le_refl _⟩, first, isFirst, le⟩
  case h_3 since until_ covered done =>
    cases reads
    refine ⟨known.1, known.2, ?_⟩
    rintro _ ⟨⟩ _ ⟨⟩
    obtain ⟨-, ⟨mark, isMark, le⟩, -⟩ := known.2 done rfl
    constructor
    · intro r member
      unfold storedPart at member
      simp only at member
      split at member
      case isTrue =>
        obtain ⟨stored, range⟩ := List.mem_filter.mp member
        have range := of_decide_eq_true range
        exact ⟨range.1, by omega, by omega, fun first isFirst => sound.rows first isFirst r stored⟩
      case isFalse => cases member
    · intro first isFirst hour aligned from_ lower upper before
      have counted := (sound.final mark isMark first isFirst hour aligned from_ (by omega)).2
      unfold storedPart
      rw [if_pos (by omega)]
      exact counted.congr (weigh_hour_filter fun r _ here => decide_eq_true (by omega))
  case h_4 since until_ covered done missing =>
    cases reads
    refine ⟨known.1, known.2, fun first isCovered last isDone => ?_⟩
    cases isCovered
    cases isDone
    exact (missing first last rfl rfl).elim
  case h_5 => cases reads

theorem Sound.client (sound : Sound s) {client : Nat} {r : Option Request} (known : ∀ r' ∈ r, RequestSound s r') :
    Sound { s with requests := Function.update s.requests client r } := by
  refine { sound with pass := ?_, requests := fun client' r' isThere => ?_ }
  · have pass := sound.pass
    revert pass
    cases s.pass <;> exact id
  · refine RequestSound.frame (s := s) ?_ (Or.inl rfl) (fun mark isMark => ⟨mark, isMark, le_refl _⟩) rfl
    have isThere : r' ∈ Function.update s.requests client r client' := isThere
    by_cases same : client' = client
    · subst same
      rw [Function.update_self] at isThere
      exact known r' isThere
    · rw [Function.update_of_ne same] at isThere
      exact sound.requests client' r' isThere

theorem Sound.step (sound : Sound s) {act : Act} (allowed : Allowed s act) (goes : DetectionHours.step s act = some s') :
    Sound s' := by
  cases act with
  | tick now =>
    obtain ⟨le, ⟨⟩⟩ := Option.ite_none_right_eq_some.mp goes
    exact sound.tick le
  | change rows =>
    cases goes
    exact sound.change allowed
  | begin_ => exact sound.begin_ goes
  | advance => exact sound.advance goes
  | abort =>
    cases goes
    exact sound.frame trivial
  | request client since until_ =>
    obtain ⟨-, ⟨⟩⟩ := Option.ite_none_right_eq_some.mp goes
    refine sound.client ?_
    rintro _ ⟨⟩
    trivial
  | read client =>
    obtain ⟨r, isThere, rfl⟩ := Option.map_eq_some_iff.mp goes
    exact sound.client fun r' reads => sound.reads (sound.requests client r isThere) reads

theorem Reach.sound (reach : Reach s) : Sound s :=
  Runs.Reach.invariant Sound.create (fun _ _ _ sound allowed goes => sound.step allowed goes) reach

end Invariant

section Exact

/-- A covered hour of a request's range. -/
def InRange (since until_ : ℚ) (covered hour : ℤ) : Prop := hourOf since ≤ hour ∧ (hour : ℚ) < until_ ∧ covered ≤ hour

instance (since until_ : ℚ) (covered hour : ℤ) : Decidable (InRange since until_ covered hour) :=
  inferInstanceAs (Decidable (_ ∧ _ ∧ _))

/-- An answer's hour has all the detections that started in it, each where it belongs. -/
structure CountsHour (hours : Dict ℤ HourCounts) (detections : List Detection) (hour : ℤ) : Prop where
  all : ((hours.get? hour).getD HourCounts.zero).all = detections.countP fun d => hourOf d.startTime = hour
  attributed : ((hours.get? hour).getD HourCounts.zero).attributed =
    detections.countP fun d => hourOf d.startTime = hour ∧ d.model.getD "" ≠ ""
  models : ∀ model ≠ "", (((hours.get? hour).getD HourCounts.zero).models.get? model).getD 0 =
    detections.countP fun d => hourOf d.startTime = hour ∧ d.model = some model
  tried : ((hours.get? hour).getD HourCounts.zero).tried =
    detections.countP fun d => hourOf d.startTime = hour ∧ d.model.getD "" = "" ∧ d.attribution ≠ none
  notTried : ((hours.get? hour).getD HourCounts.zero).notTried =
    detections.countP fun d => hourOf d.startTime = hour ∧ d.model.getD "" = "" ∧ d.attribution = none

/-- The answer counts the covered hours of the range, and has no other. -/
structure Exact (since until_ : ℚ) (covered : Option ℤ) (hours : Dict ℤ HourCounts) (detections : List Detection) :
    Prop where
  counts : ∀ first ∈ covered, ∀ hour, 3600 ∣ hour → InRange since until_ first hour → CountsHour hours detections hour
  only : ∀ hour, (hours.get? hour).isSome = true → ∃ first ∈ covered, InRange since until_ first hour

/-- Hours that an answer leaves out: those before the mark when counting began,
all while it has not, those from the end of the request's last whole hour on,
and those not stored that are not among its last ones. -/
def Dropped (s : State) (until_ : ℚ) (done : Option ℤ) (hour : ℤ) : Prop :=
  ∀ last ∈ done, (∃ first ∈ s.sinceMark, hour < first) ∨ lastHour until_ ≤ hour ∨
    last ≤ hour ∧ hour < lastHour until_ - hourlyLiveMaxHours * 3600

instance (s : State) (until_ : ℚ) (done : Option ℤ) (hour : ℤ) : Decidable (Dropped s until_ done hour) :=
  inferInstanceAs (Decidable (∀ last ∈ done, _))

variable {hours : List HourRow}

theorem Holds.countsHour (holds : Holds hours detections hour) : CountsHour (tallyHours hours) detections hour := by
  have figure : ∀ {f : HourCounts → Nat} {q : HourKey → Bool}, HourCounts.Reads f q →
      f (((tallyHours hours).get? hour).getD HourCounts.zero) =
        detections.countP fun d => d.hourKey.hour = hour && q d.hourKey :=
    fun reads => (reads.tallyHours hours hour).trans (holds _)
  constructor
  · rw [figure HourCounts.reads_all]
    refine List.countP_congr fun d _ => ?_
    rw [Bool.and_true, decide_eq_true_iff, decide_eq_true_iff]
    rfl
  · rw [figure HourCounts.reads_attributed]
    refine List.countP_congr fun d _ => ?_
    rw [Bool.and_eq_true, decide_eq_true_iff, decide_eq_true_iff, decide_eq_true_iff]
    rfl
  · intro model named
    rw [figure (HourCounts.reads_model named)]
    refine List.countP_congr fun d _ => ?_
    cases its : d.model with
    | none => simp [Detection.hourKey, its, named.symm]
    | some m => simp [Detection.hourKey, its]
  · rw [figure HourCounts.reads_tried]
    refine List.countP_congr fun d _ => ?_
    cases its : d.attribution <;> simp [Detection.hourKey, its]
  · rw [figure HourCounts.reads_notTried]
    refine List.countP_congr fun d _ => ?_
    cases its : d.attribution <;> simp [Detection.hourKey, its]

/-- Without rows and without detections an hour is counted. -/
theorem holds_none (rows_none : ∀ r ∈ hours, r.hour ≠ hour) (none : ∀ d ∈ detections, hourOf d.startTime ≠ hour) :
    Holds hours detections hour := by
  intro q
  rw [weigh_zero fun r member => by simp [HourRow.key, rows_none r member], eq_comm, List.countP_eq_zero]
  intro d member
  have other : d.hourKey.hour ≠ hour := none d member
  simp [other]

/-- An hour without rows misses its detections. -/
theorem CountsHour.none (counts : CountsHour (tallyHours hours) detections hour) (rows_none : ∀ r ∈ hours, r.hour ≠ hour) :
    ∀ d ∈ detections, hourOf d.startTime ≠ hour := by
  have all := counts.all
  rw [HourCounts.reads_all.tallyHours, weigh_zero fun r member => by simp [HourRow.key, rows_none r member], eq_comm,
    List.countP_eq_zero] at all
  exact fun d member here => all d member (decide_eq_true here)

section Bounds
variable {covered last : ℤ}

theorem dvd_lastHour (until_ : ℚ) : 3600 ∣ lastHour until_ := dvd_mul_left ..

theorem firstHour_le_iff {since : ℚ} (positive : 0 ≤ covered) :
    firstHour since covered ≤ hour ↔ hourOf since ≤ hour ∧ covered ≤ hour := by
  unfold firstHour
  rw [max_le_iff]
  refine and_congr_left fun from_ => ?_
  unfold truncate
  by_cases later : 0 ≤ since
  · have same : ⌊since⌋ / 3600 = ⌊since / 3600⌋ := (Int.floor_div_natCast since 3600).symm
    rw [if_pos later, same, hourOf]
  · have negative : ⌊since / 3600⌋ < 0 := Int.floor_lt.mpr (by push_cast; linarith)
    have ceil : ⌈since⌉ ≤ 0 := Int.ceil_le.mpr (by push_cast; linarith)
    rw [if_neg later, hourOf]
    omega

theorem lt_of_lt_lastHour {until_ : ℚ} (aligned : 3600 ∣ hour) (positive : 0 ≤ hour) (before : hour < lastHour until_) :
    (hour : ℚ) < until_ := by
  unfold lastHour truncate at before
  by_cases later : 0 ≤ until_
  · rw [if_pos later] at before
    have lt : hour < ⌊until_⌋ := by omega
    exact (Int.cast_lt.mpr lt).trans_le (Int.floor_le until_)
  · have ceil : ⌈until_⌉ ≤ 0 := Int.ceil_le.mpr (by push_cast; linarith)
    rw [if_neg later] at before
    omega

end Bounds

section Answer

variable {s : State} {since until_ : ℚ} {covered last : ℤ} {rows : List HourRow}

theorem mem_livePart {r : HourRow} (member : r ∈ livePart since until_ covered last detections) (marked : 3600 ∣ covered)
    (aligned : 3600 ∣ last) : firstHour since covered ≤ r.hour ∧ last ≤ r.hour ∧
      lastHour until_ - hourlyLiveMaxHours * 3600 ≤ r.hour ∧ r.hour < lastHour until_ ∧ 3600 ∣ r.hour := by
  unfold livePart at member
  simp only at member
  split at member
  case isFalse => cases member
  case isTrue =>
    obtain ⟨d, -, here, range⟩ := hour_countDetectionsByHour member
    have end_ := dvd_lastHour until_
    have first : 3600 ∣ firstHour since covered := by
      rcases max_choice (truncate since / 3600 * 3600) covered with eq | eq <;> rw [firstHour, eq]
      · exact dvd_mul_left ..
      · exact marked
    have between := (startsIn_iff (by unfold hourlyLiveMaxHours; omega) end_).mp range
    rw [here] at between
    exact ⟨by omega, by omega, by omega, between.2, here ▸ dvd_hourOf _⟩

/-- An hour that is not left out is counted, from stored rows or live ones. -/
theorem Joined.holds_of_kept (joined : Joined s since until_ covered last rows) (marked : 3600 ∣ covered)
    (aligned : 3600 ∣ last) (its : 3600 ∣ hour) (from_ : firstHour since covered ≤ hour) {first : ℤ}
    (isFirst : first ∈ s.sinceMark) (kept : ¬ Dropped s until_ (some last) hour) :
    Holds (rows ++ livePart since until_ covered last s.detections) s.detections hour := by
  have kept : ¬ ((∃ first ∈ s.sinceMark, hour < first) ∨ lastHour until_ ≤ hour ∨
      last ≤ hour ∧ hour < lastHour until_ - hourlyLiveMaxHours * 3600) := fun dropped =>
    kept fun last' same => by cases same; exact dropped
  rw [not_or, not_or] at kept
  obtain ⟨counting, upper, live⟩ := kept
  have begun : first ≤ hour := not_lt.mp fun early => counting ⟨first, isFirst, early⟩
  have upper := not_le.mp upper
  by_cases stored : hour < last
  · refine (joined.holds first isFirst hour its begun from_ upper stored).congr (weigh_hour_append fun r member => ?_)
    obtain ⟨-, later, -⟩ := mem_livePart member marked aligned
    omega
  · have late := not_lt.mp stored
    have liveLo := not_lt.mp fun early => live ⟨late, early⟩
    have others : ∀ r ∈ rows, r.hour ≠ hour := fun r member => by
      have := (joined.range r member).2.2.1
      omega
    intro q
    rw [weigh_append, weigh_zero fun r member => by simp [HourRow.key, others r member], Nat.zero_add]
    have first : 3600 ∣ firstHour since covered := by
      rcases max_choice (truncate since / 3600 * 3600) covered with eq | eq <;> rw [firstHour, eq]
      · exact dvd_mul_left ..
      · exact marked
    unfold livePart
    rw [if_pos (by omega)]
    have end_ := dvd_lastHour until_
    exact holds_countDetectionsByHour (by unfold hourlyLiveMaxHours; omega) end_ (by omega) upper q

/-- An hour that is left out has no rows. -/
theorem Joined.none_of_dropped (joined : Joined s since until_ covered last rows) (marked : 3600 ∣ covered)
    (aligned : 3600 ∣ last) (before : ∃ first ∈ s.sinceMark, first ≤ last) (dropped : Dropped s until_ (some last) hour) :
    ∀ r ∈ rows ++ livePart since until_ covered last s.detections, r.hour ≠ hour := by
  rintro r member rfl
  obtain ⟨first, isFirst, le⟩ := before
  rcases List.mem_append.mp member with stored | live
  · obtain ⟨-, upper, early, begun⟩ := joined.range r stored
    rcases dropped last rfl with ⟨first', isFirst', below⟩ | past | ⟨late, -⟩
    · have := (begun first' isFirst').1
      omega
    · omega
    · omega
  · obtain ⟨-, late, liveLo, upper, -⟩ := mem_livePart live marked aligned
    rcases dropped last rfl with ⟨first', isFirst', below⟩ | past | ⟨-, early⟩
    · cases isFirst.symm.trans isFirst'
      omega
    · omega
    · omega

theorem Sound.answer_iff (sound : Sound s) {client : Nat} {covered done : Option ℤ}
    (asks : s.requests client = some (.joined since until_ covered done rows)) :
    Exact since until_ covered (answer since until_ covered done rows s.detections) s.detections ↔
      ∀ first ∈ covered, ∀ d ∈ s.detections, InRange since until_ first (hourOf d.startTime) →
        ¬ Dropped s until_ done (hourOf d.startTime) := by
  obtain ⟨marked, reached, joined⟩ := sound.requests client _ asks
  have empty : ∀ {hour}, CountsHour Dict.empty s.detections hour → ∀ d ∈ s.detections, hourOf d.startTime ≠ hour :=
    fun counts => (show CountsHour (tallyHours []) _ _ from counts).none (List.forall_mem_nil _)
  cases covered with
  | none => exact ⟨fun _ => nofun, fun _ => ⟨nofun, nofun⟩⟩
  | some first =>
    obtain ⟨positive, aligned⟩ := marked first rfl
    cases done with
    | none =>
      constructor
      · rintro exact_ _ ⟨⟩ d member inside
        exact (empty (exact_.counts first rfl _ (dvd_hourOf _) inside) d member rfl).elim
      · intro kept
        refine ⟨?_, nofun⟩
        rintro _ ⟨⟩ hour _ inside
        have holds : Holds [] s.detections hour := holds_none (List.forall_mem_nil _) fun d member here =>
          kept first rfl d member (here ▸ inside) nofun
        exact holds.countsHour
    | some last =>
      obtain ⟨its, -, mark, isMark, before⟩ := reached last rfl
      have joined := joined first rfl last rfl
      constructor
      · rintro exact_ _ ⟨⟩ d member inside dropped
        exact (exact_.counts first rfl _ (dvd_hourOf _) inside).none
          (joined.none_of_dropped aligned its ⟨mark, isMark, before⟩ dropped) d member rfl
      · intro kept
        constructor
        · rintro _ ⟨⟩ hour on inside
          have from_ := (firstHour_le_iff positive).mpr ⟨inside.1, inside.2.2⟩
          by_cases dropped : Dropped s until_ (some last) hour
          · refine (holds_none (joined.none_of_dropped aligned its ⟨mark, isMark, before⟩ dropped) ?_).countsHour
            rintro d member rfl
            exact kept first rfl d member inside dropped
          · exact (joined.holds_of_kept aligned its on from_ isMark dropped).countsHour
        · intro hour there
          obtain ⟨r, member, rfl⟩ := HourCounts.tallyHours_hour there
          have range : firstHour since first ≤ r.hour ∧ r.hour < lastHour until_ ∧ 3600 ∣ r.hour := by
            rcases List.mem_append.mp member with stored | live
            · obtain ⟨from_, upper, -, begun⟩ := joined.range r stored
              exact ⟨from_, upper, (begun mark isMark).2⟩
            · obtain ⟨from_, -, -, upper, on⟩ := mem_livePart live aligned its
              exact ⟨from_, upper, on⟩
          obtain ⟨from_, upper, on⟩ := range
          have inside := (firstHour_le_iff positive).mp from_
          exact ⟨first, rfl, inside.1, lt_of_lt_lastHour on (positive.trans inside.2) upper, inside.2⟩

/-- In every state reached, an answer is exact when no detection of a covered
hour of the range started in an hour that is left out. -/
theorem Reach.counts_exactly (reach : Reach s) {client : Nat} {covered done : Option ℤ}
    (asks : s.requests client = some (.joined since until_ covered done rows)) :
    Exact since until_ covered (answer since until_ covered done rows s.detections) s.detections ↔
      ∀ first ∈ covered, ∀ d ∈ s.detections, InRange since until_ first (hourOf d.startTime) →
        ¬ Dropped s until_ done (hourOf d.startTime) :=
  reach.sound.answer_iff asks

/-- A burst at some second, decoded or not. -/
def burst (id : Nat) (startTime : ℚ) (model : Option String) : Detection :=
  ⟨id, startTime, 0, 0, ⟨none, none, none⟩, model, some "record"⟩

/-- Counting begins at ten; the first hour is stored, and a request joins it with the second. -/
def oneStored : List Act :=
  [.tick 36000, .begin_, .advance, .advance, .change [burst 0 36050 (some "M"), burst 1 36060 none], .tick 40500, .begin_,
    .advance, .advance, .advance, .advance, .change [burst 0 36050 (some "M"), burst 1 36060 none, burst 2 40000 none],
    .request 0 36000 43200, .read 0, .read 0, .read 0]

theorem Reach.counts_exactly_joined : ∃ s rows, Runs.follow step create oneStored = some s ∧ rows.length = 2 ∧
    Exact 36000 43200 (some 36000) (answer 36000 43200 (some 36000) (some 39600) rows s.detections) s.detections := by
  let rows : List HourRow := [⟨36000, "M", true, 1⟩, ⟨36000, "", true, 1⟩]
  have run : (Runs.follow step create oneStored).map (fun s => (s.requests 0, decide (∀ first ∈ some 36000,
      ∀ d ∈ s.detections, InRange 36000 43200 first (hourOf d.startTime) →
        ¬ Dropped s 43200 (some 39600) (hourOf d.startTime)))) =
      some (some (.joined 36000 43200 (some 36000) (some 39600) rows), true) := by
    decide +kernel
  have meets : Runs.Meets step Allowed create oneStored := by decide +kernel
  obtain ⟨s, goes, same⟩ := Option.map_eq_some_iff.mp run
  obtain ⟨asks, kept⟩ := Prod.mk.inj same
  exact ⟨s, rows, goes, rfl, (Reach.counts_exactly (Runs.Reach.start.follow meets goes) asks).mpr (of_decide_eq_true kept)⟩

/-- A request for some hours ahead leaves out the hour that is not stored yet. -/
def ahead : List Act :=
  [.tick 36000, .begin_, .advance, .advance, .tick 36100, .change [burst 0 36050 none], .request 0 0 54000, .read 0,
    .read 0, .read 0]

theorem counts_exactly_fails : ¬ ∀ (s : State) (client : Nat) (since until_ : ℚ) (covered done : Option ℤ) (rows : List HourRow),
    Reach s → NotStalled s → s.requests client = some (.joined since until_ covered done rows) →
      Exact since until_ covered (answer since until_ covered done rows s.detections) s.detections := by
  intro claimed
  have run : (Runs.follow step create ahead).map (fun s => (s.requests 0, s.detections, decide (NotStalled s))) =
      some (some (.joined 0 54000 (some 36000) (some 36000) []), [burst 0 36050 none], true) := by
    decide +kernel
  have meets : Runs.Meets step Allowed create ahead := by decide +kernel
  obtain ⟨s, goes, same⟩ := Option.map_eq_some_iff.mp run
  simp only [Prod.mk.injEq, decide_eq_true_eq] at same
  obtain ⟨asks, detections, notStalled⟩ := same
  have exact_ := claimed s 0 _ _ _ _ _ (Runs.Reach.start.follow meets goes) notStalled asks
  have counts := (exact_.counts 36000 rfl 36000 (by decide) (by decide +kernel)).all
  rw [detections] at counts
  exact absurd counts (by decide +kernel)

/-- Up to now, and not in the first second of an hour, a request is exact once
both marks are set, as long as the loop is not stalled. -/
theorem Reach.exact_of_past (reach : Reach s) {client : Nat} (begun : s.sinceMark = some covered)
    (asks : s.requests client = some (.joined since until_ (some covered) (some last) rows))
    (past : until_ ≤ last + 3600 + detHoursSettle + 3600) (whole : until_ ≤ lastHour until_) (positive : 0 ≤ until_) :
    Exact since until_ (some covered) (answer since until_ (some covered) (some last) rows s.detections) s.detections := by
  refine (reach.sound.answer_iff asks).mpr ?_
  rintro _ ⟨⟩ d _ ⟨-, before, from_⟩ dropped
  rcases dropped last rfl with ⟨first, isFirst, early⟩ | late | ⟨unstored, early⟩
  · cases begun.symm.trans isFirst
    omega
  · have := before.trans_le whole
    have : hourOf d.startTime < lastHour until_ := by exact_mod_cast this
    omega
  · have aligned := ((reach.sound.requests client _ asks).2.1 last rfl).1
    have end_ := dvd_lastHour until_
    have near : ⌊until_⌋ ≤ last + 8100 := by
      have below := (Int.floor_le until_).trans past
      unfold detHoursSettle at below
      have below : ((⌊until_⌋ : ℤ) : ℚ) ≤ (last + 8100 : ℤ) := by
        push_cast
        linarith
      exact_mod_cast below
    have hour : lastHour until_ < ⌊until_⌋ + 3600 := by
      rw [lastHour, truncate, if_pos positive]
      omega
    unfold hourlyLiveMaxHours at early
    omega

end Answer

end Exact

end DetectionHours
end RFObserver
