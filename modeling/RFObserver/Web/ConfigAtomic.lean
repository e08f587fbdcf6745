import RFObserver.Lib.CheckedAssign
import RFObserver.Lib.RoundHalfEven
import RFObserver.Web.JsonBody
import RFObserver.Web.SettingsRuns

/-! `apply_config` of any request, to its answer. -/

namespace RFObserver

/-- How texts and numbers are turned into one another. `int` and `float` of a
text are none where they raise a ValueError, `float` of an int where it raises
an OverflowError; `text` is `str` of a value that is no text. -/
structure Casts where
  intText : List Char → Option ℤ
  floatText : List Char → Option PyFloat
  intFloat : ℤ → Option PyFloat
  text : JsonValue → List Char

namespace JsonValue

variable (casts : Casts)

/-- `is None or == ""` -/
def empty : JsonValue → Bool
  | .null => true
  | .str text => text = []
  | _ => false

def asText : JsonValue → List Char
  | .str text => text
  | raw => casts.text raw

def asInt : JsonValue → Option ℤ
  | .bool b => some (if b then 1 else 0)
  | .int n => some n
  | .float (.finite q) => some (truncate q)
  | .str text => casts.intText text
  | _ => none

def asFloat : JsonValue → Option PyFloat
  | .bool b => some (.finite (if b then 1 else 0))
  | .int n => casts.intFloat n
  | .float x => some x
  | .str text => casts.floatText text
  | _ => none

/-- `_to_bool` -/
def asBool : JsonValue → Bool
  | .bool b => b
  | raw => ["true".toList, "on".toList, "1".toList, "yes".toList].contains
      ((Settings.strip (asText casts raw)).map Char.toLower)

def form (raw : JsonValue) : Settings.FormValue where
  empty := raw.empty
  int := raw.asInt casts
  float := raw.asFloat casts
  str := raw.asText casts
  toBool := raw.asBool casts

/-- The casts that raise an OverflowError, which no handler catches. -/
def overflows : Settings.Cast → JsonValue → Bool
  | .int, .float .inf | .int, .float .negInf => true
  | .float, .int n => (casts.intFloat n).isNone
  | _, _ => false

def isText (key : String) : JsonValue → Bool
  | .str text => text = key.toList
  | _ => false

end JsonValue

namespace Settings

/-- An answer other than 200: an HTTPException's, or the 500 of another exception. -/
inductive Rejection
  | http (detail : String)
  | exception
  deriving DecidableEq

/-- `key in body` and then `body[key]`, which only an object has. -/
def bodyValue (key : String) : JsonValue → Except Rejection (Option JsonValue)
  | .dict members => .ok (members.lookup key)
  | .list items => if items.any (JsonValue.isText key) then .error .exception else .ok none
  | .str text => if key.toList <:+: text then .error .exception else .ok none
  | _ => .error .exception

/-- What a setting is as a number. -/
def Value.number : Value → Option PyFloat
  | .bool b => some (.finite (if b then 1 else 0))
  | .int n => some (.finite n)
  | .float x => some x
  | .none | .str _ | .secret _ => Option.none

/-- `!=` of two settings. -/
def Value.differs (old new : Value) : Bool :=
  match old.number, new.number with
  | some x, some y => !(PyFloat.le x y && PyFloat.le y x)
  | _, _ => old ≠ new

section Apply

variable (casts : Casts)

/-- The checked value of a submitted field. -/
def fieldValue (settings : AppSettings) (f : FormField) (raw : JsonValue) : Except Rejection Value :=
  if raw.overflows casts f.cast then .error .exception
  else (newValue settings f (raw.form casts)).mapError .http

/-- One pass of the loop over the field map. -/
def fieldItem (body : JsonValue) (f : FormField) : CheckedAssign.Item String Value Rejection where
  key := f.attr
  check settings :=
    match bodyValue f.key body with
    | .error e => .error e
    | .ok none => .ok none
    | .ok (some raw) =>
      match fieldValue casts settings f raw with
      | .error e => .error e
      | .ok v => .ok (if (settings f.attr).differs v then some v else none)

def secretMap : List (String × String) := [("zms_token", "ZMS_TOKEN")]

/-- One pass of the loop over the secrets. -/
def secretItem (body : JsonValue) (s : String × String) : CheckedAssign.Item String Value Rejection where
  key := s.2
  check _ :=
    match bodyValue s.1 body with
    | .error e => .error e
    | .ok none => .ok none
    | .ok (some raw) => .ok (if raw.empty then none else some (.secret (raw.asText casts)))

def assignments (body : JsonValue) : List (CheckedAssign.Item String Value Rejection) :=
  fieldMap.map (fieldItem casts body) ++ secretMap.map (secretItem casts body)

/-- `_prospective_scale` -/
def scaleBound (settings : AppSettings) (body : JsonValue) (key attr : String) :
    Except Rejection (Option PyFloat) :=
  match bodyValue key body with
  | .error e => .error e
  | .ok none =>
    match settings attr with
    | .bool b => .ok (some (.finite (if b then 1 else 0)))
    | .int n =>
      match casts.intFloat n with
      | none => .error .exception
      | some x => .ok (some x)
    | .float x => .ok (some x)
    | _ => .ok none
  | .ok (some raw) =>
    if raw.empty then .ok none
    else if raw.overflows casts .float then .error .exception
    else .ok (raw.asFloat casts)

/-- The check of the display scale, before anything is set. -/
def checkScale (settings : AppSettings) (body : JsonValue) : Except Rejection Unit :=
  match scaleBound casts settings body "psd_scale_min_db" "PSD_SCALE_MIN_DB" with
  | .error e => .error e
  | .ok low =>
    match scaleBound casts settings body "psd_scale_max_db" "PSD_SCALE_MAX_DB" with
    | .error e => .error e
    | .ok high =>
      if ∃ l ∈ low, ∃ h ∈ high, PyFloat.le h l = true then .error (.http "Scale Min must be less than Scale Max")
      else .ok ()

def pipelineFields : List String :=
  ["BANDWIDTH", "GAIN", "DURATION_SEC", "NUM_FFT_BINS", "PSD_TIME_RESOLUTION_MS", "PSD_BACKEND", "FREQUENCY_START",
    "FREQUENCY_END", "FREQUENCY_STEP", "TRIGGER_THRESHOLD_DB", "TRIGGER_PRE_SEC", "ISOLATION_LOOKBACK_SEC",
    "BURST_THRESHOLD_HIGH_DB", "BURST_THRESHOLD_LOW_RATIO"]

/-- What the app has at a request: a collection zone, a processor to
reconfigure, a replay that is active. -/
structure AppState where
  zone : Bool
  processor : Bool
  replaying : Bool

/-- The settings after a request, its answer, and what it has called. -/
structure Applied where
  settings : AppSettings
  answer : Except Rejection (List String)
  refreshed : Bool
  reconfigured : Bool
  persisted : Bool

def Applied.rejected (settings : AppSettings) (e : Rejection) : Applied := ⟨settings, .error e, false, false, false⟩

/-- `apply_config`; `body` is none if the request's is no JSON. -/
def applyRoute (app : AppState) (settings : AppSettings) (body : Option JsonValue) : Applied :=
  match body with
  | none => .rejected settings (.http "Invalid JSON")
  | some body =>
    match checkScale casts settings body with
    | .error e => .rejected settings e
    | .ok _ =>
      match CheckedAssign.run (assignments casts body) settings [] with
      | (settings, .error e) => .rejected settings e
      | (settings, .ok changed) =>
        { settings, answer := .ok changed
          refreshed := app.zone && changed.any (["LATITUDE", "LONGITUDE"].contains ·)
          reconfigured := app.processor && changed.any (pipelineFields.contains ·)
          persisted := changed ≠ [] && !app.replaying }

end Apply

section Independence

variable {casts : Casts} {settings : AppSettings} {body : JsonValue}

theorem fieldMap_attrs : (fieldMap.map FormField.attr).Nodup ∧
    ∀ attr ∈ fieldMap.map FormField.attr, attr ≠ "RECEIVER" ∧ attr ≠ "ZMS_TOKEN" := by
  obtain ⟨receiver, nodup⟩ := List.nodup_cons.mp (nodup_of_unseen fields_checked.2.2.1).1.of_map
  obtain ⟨token, nodup⟩ := List.nodup_cons.mp nodup
  refine ⟨nodup, fun attr member => ⟨?_, ?_⟩⟩
  · rintro rfl
    exact receiver (List.mem_cons_of_mem _ member)
  · rintro rfl
    exact token member

theorem checkValue_update {attr : String} (other : attr ≠ "RECEIVER") (v : Value) (key at_ : String) (w : Value) :
    checkValue (Function.update settings attr v) key at_ w = checkValue settings key at_ w := by
  unfold checkValue
  rw [Function.update_of_ne other.symm]

theorem newValue_update {attr : String} (other : attr ≠ "RECEIVER") (v : Value) (f : FormField) (raw : FormValue) :
    newValue (Function.update settings attr v) f raw = newValue settings f raw := by
  unfold newValue
  simp only [checkValue_update other]

/-- The checks read RECEIVER and the field's own setting, and the passes set neither. -/
theorem assignments_independent : CheckedAssign.Independent (assignments casts body) := by
  obtain ⟨nodup, others⟩ := fieldMap_attrs
  refine List.pairwise_append.mpr ⟨?_, List.pairwise_singleton .., ?_⟩
  · refine List.pairwise_map.mpr ?_
    have apart := List.pairwise_map.mp nodup
    refine apart.imp_of_mem fun {f g} member _ other => ⟨other, fun store v => ?_⟩
    have receiver := (others f.attr (List.mem_map_of_mem member)).1
    have own : Function.update store f.attr v g.attr = store g.attr := Function.update_of_ne (Ne.symm other) _ _
    simp only [fieldItem, fieldValue, newValue_update receiver, own]
  · intro i member j secret
    obtain ⟨f, inside, rfl⟩ := List.mem_map.mp member
    cases List.mem_singleton.mp secret
    exact ⟨(others f.attr (List.mem_map_of_mem inside)).2, fun _ _ => rfl⟩

end Independence

section Atomic

variable (casts : Casts) (before : AppSettings) (body : JsonValue)

/-- Exactly the submitted values that differ are set, each to its checked value. -/
structure Exactly (after : AppSettings) (changed : List String) : Prop where
  field : ∀ f ∈ fieldMap, (bodyValue f.key body = .ok none ∧ after f.attr = before f.attr ∧ f.attr ∉ changed) ∨
    ∃ raw v, bodyValue f.key body = .ok (some raw) ∧ fieldValue casts before f raw = .ok v ∧
      after f.attr = (if (before f.attr).differs v then v else before f.attr) ∧
      (f.attr ∈ changed ↔ (before f.attr).differs v = true)
  secret : ∀ s ∈ secretMap, (bodyValue s.1 body = .ok none ∧ after s.2 = before s.2 ∧ s.2 ∉ changed) ∨
    ∃ raw, bodyValue s.1 body = .ok (some raw) ∧
      after s.2 = (if raw.empty then before s.2 else .secret (raw.asText casts)) ∧
      (s.2 ∈ changed ↔ raw.empty = false)
  other : ∀ attr, attr ∉ fieldMap.map FormField.attr → attr ∉ secretMap.map Prod.snd →
    after attr = before attr ∧ attr ∉ changed

/-- An answer other than 200 leaves every setting as it was and calls nothing. -/
def Applied.Atomic (a : Applied) : Prop :=
  match a.answer with
  | .error _ => a.settings = before ∧ a.refreshed = false ∧ a.reconfigured = false ∧ a.persisted = false
  | .ok changed => Exactly casts before body a.settings changed

end Atomic

section Results

variable {casts : Casts} {before after : AppSettings} {body : JsonValue} {changed : List String}

theorem exactly_of_made (made : CheckedAssign.Made (assignments casts body) before after changed) :
    Exactly casts before body after changed where
  field f member := by
    obtain ⟨o, checked, value, listed⟩ :=
      made.key (fieldItem casts body f) (List.mem_append_left _ (List.mem_map_of_mem member))
    simp only [fieldItem] at checked value listed
    cases given : bodyValue f.key body with
    | error e => rw [given] at checked; cases checked
    | ok found =>
      rw [given] at checked
      cases found with
      | none =>
        cases checked
        exact Or.inl ⟨rfl, value, by simp [listed]⟩
      | some raw =>
        cases new : fieldValue casts before f raw with
        | error e => simp only [new] at checked; cases checked
        | ok v =>
          simp only [new] at checked
          cases checked
          refine Or.inr ⟨raw, v, rfl, new, ?_, ?_⟩
          · rw [value]
            split <;> rfl
          · rw [listed]
            split <;> simp [*]
  secret s member := by
    obtain ⟨o, checked, value, listed⟩ :=
      made.key (secretItem casts body s) (List.mem_append_right _ (List.mem_map_of_mem member))
    simp only [secretItem] at checked value listed
    cases given : bodyValue s.1 body with
    | error e => rw [given] at checked; cases checked
    | ok found =>
      rw [given] at checked
      cases found with
      | none =>
        cases checked
        exact Or.inl ⟨rfl, value, by simp [listed]⟩
      | some raw =>
        cases checked
        refine Or.inr ⟨raw, rfl, ?_, ?_⟩
        · rw [value]
          split <;> rfl
        · rw [listed]
          split <;> simp [*]
  other attr field secret := by
    refine made.other attr fun inside => ?_
    rw [assignments, List.map_append, List.map_map, List.map_map] at inside
    exact (List.mem_append.mp inside).elim field secret

/-- The request is rejected before the fields are set one by one, or none is
rejected after one that has been set to another value. -/
def RejectedFirst (casts : Casts) (settings : AppSettings) : Option JsonValue → Prop
  | none => True
  | some body => (∃ e, checkScale casts settings body = .error e) ∨
      ¬ CheckedAssign.Halfway (assignments casts body) settings

/-- A request changes all of what it submits or nothing, exactly if it is not rejected halfway. -/
theorem applyRoute_atomic_iff (casts : Casts) (app : AppState) (settings : AppSettings) (body : Option JsonValue) :
    (applyRoute casts app settings body).Atomic casts settings (body.getD .null) ↔
      RejectedFirst casts settings body := by
  cases body with
  | none => exact iff_of_true ⟨rfl, rfl, rfl, rfl⟩ trivial
  | some body =>
    simp only [applyRoute, RejectedFirst, Option.getD_some]
    cases scale : checkScale casts settings body with
    | error e => exact iff_of_true ⟨rfl, rfl, rfl, rfl⟩ (Or.inl ⟨e, rfl⟩)
    | ok _ =>
      have notFirst : ¬ ∃ e, (Except.ok () : Except Rejection Unit) = .error e := by
        rintro ⟨e, same⟩
        cases same
      rw [or_iff_right notFirst]
      have independent : CheckedAssign.Independent (assignments casts body) := assignments_independent
      rcases CheckedAssign.run_spec independent settings [] with
        ⟨after, changed, ran, made⟩ | ⟨_, _, _, e, after, _, _, ran, _, _⟩
      · simp only [ran, List.nil_append]
        exact iff_of_true (exactly_of_made made) made.not_halfway
      · simp only [ran]
        rw [← CheckedAssign.run_error_iff independent ran]
        exact ⟨fun atomic => atomic.1, fun same => ⟨same, rfl, rfl, rfl⟩⟩

/-- A frequency with a bandwidth that is too low. -/
def lowBandwidth : JsonValue := .dict [("frequency_start", .int 915000000), ("bandwidth", .int 1000)]

def plainCasts : Casts where
  intText _ := none
  floatText _ := none
  intFloat n := some (.finite n)
  text _ := []

theorem Applied.Atomic.unchanged {a : Applied} (atomic : a.Atomic casts before body)
    (rejected : a.answer.toBool = false) : a.settings = before := by
  unfold Applied.Atomic at atomic
  split at atomic
  · exact atomic.1
  · rename_i answered
    rw [answered] at rejected
    cases rejected

/-- The frequency is set and the bandwidth is rejected after it. -/
theorem applyRoute_atomic_fails :
    ¬ ∀ (casts : Casts) (app : AppState) (settings : AppSettings) (body : Option JsonValue),
      (applyRoute casts app settings body).Atomic casts settings (body.getD .null) := by
  intro atomic
  let applied := applyRoute plainCasts ⟨false, true, false⟩ (AppSettings.default []) (some lowBandwidth)
  have rejected : applied.answer.toBool = false := by decide +kernel
  have set : applied.settings "FREQUENCY_START" = .int 915000000 := by decide +kernel
  have stored : AppSettings.default [] "FREQUENCY_START" = .int 2437000000 := by decide +kernel
  rw [(atomic _ _ _ _).unchanged rejected, stored] at set
  exact absurd set (by decide)

end Results

section Updates

variable {casts : Casts} {hostname : List Char} {s : AppSettings} {members : List (String × JsonValue)}

/-- The body as the updates take it. -/
def formBody (casts : Casts) (members : List (String × JsonValue)) : List (String × FormValue) :=
  members.map fun m => (m.1, m.2.form casts)

theorem lookup_formBody (key : String) :
    (formBody casts members).lookup key = (members.lookup key).map (JsonValue.form casts) := by
  induction members with
  | nil => rfl
  | cons m rest ih =>
    rw [formBody, List.map_cons, List.lookup_cons, List.lookup_cons]
    split
    · rfl
    · exact ih

theorem PyFloat.le_antisymm {x y : PyFloat} (below : PyFloat.le x y = true) (above : PyFloat.le y x = true) :
    x = y := by
  cases x <;> cases y <;> simp_all only [PyFloat.le, decide_eq_true_eq, Bool.false_eq_true]
  exact congrArg _ (Rat.le_antisymm below above)

theorem Value.number_injective {kind : Kind} {v w : Value} (its : kind.has v = true) (also : kind.has w = true)
    {x : PyFloat} (left : v.number = some x) (right : w.number = some x) : v = w := by
  have same := left.trans right.symm
  cases v with
  | none | str | secret => cases left
  | bool b =>
    cases w with
    | none | str | secret => cases right
    | bool c => cases b <;> cases c <;> first | rfl | simp [Value.number] at same
    | int | float => cases kind <;> first | (cases its; done) | cases also
  | int n =>
    cases w with
    | none | str | secret => cases right
    | int m => simpa [Value.number] using same
    | bool | float => cases kind <;> first | (cases its; done) | cases also
  | float a =>
    cases w with
    | none | str | secret => cases right
    | float b => simpa [Value.number] using same
    | bool | int => cases kind <;> first | (cases its; done) | cases also

/-- Values of one kind that do not differ are equal. -/
theorem Value.eq_of_not_differs {kind : Kind} {v w : Value} (its : kind.has v = true) (also : kind.has w = true)
    (same : v.differs w = false) : v = w := by
  unfold Value.differs at same
  split at same
  · rename_i x y left right
    obtain ⟨below, above⟩ := Bool.and_eq_true_iff.mp (Bool.not_eq_false_eq_eq_true _ ▸ same)
    cases PyFloat.le_antisymm below above
    exact Value.number_injective its also left right
  · exact not_not.mp (of_decide_eq_false same)

theorem fieldMap_fields : ∀ f ∈ fieldMap, f.attr ∈ (modelFields []).map Field.name := by
  intro f member
  obtain ⟨kind, its, -⟩ := fields_checked.1 f member
  exact kindOf_some its

/-- What a pass of the loop does to settings of their kinds. It keeps a setting that does not differ
from the new value, which it then is. -/
theorem fieldItem_check (typed : WellTyped hostname s) (fits : ∀ m ∈ members, ∀ cast, m.2.overflows casts cast = false)
    {f : FormField} (member : f ∈ fieldMap) :
    ((formBody casts members).lookup f.key = none → (fieldItem casts (.dict members) f).check s = .ok none) ∧
      ∀ raw, (formBody casts members).lookup f.key = some raw →
        (∀ detail, newValue s f raw = .error detail →
          (fieldItem casts (.dict members) f).check s = .error (.http detail)) ∧
        ∀ v, newValue s f raw = .ok v → ∃ o, (fieldItem casts (.dict members) f).check s = .ok o ∧
          o.elim s (Function.update s f.attr) = Function.update s f.attr v := by
  rw [lookup_formBody]
  simp only [fieldItem, bodyValue]
  cases given : members.lookup f.key with
  | none => exact ⟨fun _ => rfl, nofun⟩
  | some raw =>
    obtain ⟨before, later, rfl, -⟩ := List.lookup_eq_some_iff.mp given
    have whole : raw.overflows casts f.cast = false := fits (f.key, raw) (by simp) f.cast
    refine ⟨nofun, fun _ same => ?_⟩
    cases same
    simp only [fieldValue, whole, Bool.false_eq_true, if_false]
    refine ⟨fun detail new => by rw [new]; rfl, fun v new => ?_⟩
    rw [new]
    refine ⟨_, rfl, ?_⟩
    split
    · rfl
    · rename_i same
      have named : f.attr ∈ (modelFields hostname).map Field.name := fieldMap_fields f member
      obtain ⟨g, inside, name⟩ := List.mem_map.mp named
      have kind : kindOf f.attr = some g.kind := name ▸ kindOf_name inside
      have stored : g.kind.has (s f.attr) = true := name ▸ typed g inside
      have equal := Value.eq_of_not_differs stored (newValue_has member new kind) (Bool.eq_false_iff.mpr same)
      rw [← equal, Function.update_eq_self]
      rfl

/-- The loop over the fields leaves what the updates' loop leaves. -/
theorem run_applyFields (fits : ∀ m ∈ members, ∀ cast, m.2.overflows casts cast = false)
    {fs : List FormField} (inside : ∀ f ∈ fs, f ∈ fieldMap) (typed : WellTyped hostname s)
    (rest : List (CheckedAssign.Item String Value Rejection)) (changed changed' : List String) :
    (∀ after detail, applyFields (formBody casts members) fs s changed = (after, .error detail) →
      CheckedAssign.run (fs.map (fieldItem casts (.dict members)) ++ rest) s changed' =
        (after, .error (.http detail))) ∧
      ∀ after all, applyFields (formBody casts members) fs s changed = (after, .ok all) →
        ∃ all', CheckedAssign.run (fs.map (fieldItem casts (.dict members)) ++ rest) s changed' =
          CheckedAssign.run rest after all' := by
  induction fs generalizing s changed changed' with
  | nil =>
    refine ⟨fun after detail same => ?_, fun after all same => ?_⟩
    · cases same
    · cases same
      exact ⟨changed', rfl⟩
  | cons f fs ih =>
    have member := inside f (List.mem_cons_self ..)
    have later := fun g after => inside g (List.mem_cons_of_mem f after)
    obtain ⟨absent, present⟩ := fieldItem_check typed fits member
    rw [applyFields, List.map_cons, List.cons_append]
    cases given : (formBody casts members).lookup f.key with
    | none =>
      simp only [CheckedAssign.run, absent given]
      exact ih later typed changed changed'
    | some raw =>
      obtain ⟨rejected, accepted⟩ := present raw given
      simp only
      cases new : newValue s f raw with
      | error detail =>
        simp only [CheckedAssign.run, rejected detail new]
        refine ⟨fun after other same => ?_, fun after all same => ?_⟩
        · cases same
          rfl
        · cases same
      | ok v =>
        obtain ⟨o, accepted, put⟩ := accepted v new
        have typed' : WellTyped hostname (Function.update s f.attr v) :=
          typed.set fun kind its => newValue_has member new its
        have left : ∃ c, (if s f.attr = v then applyFields (formBody casts members) fs s changed else
            applyFields (formBody casts members) fs (Function.update s f.attr v) (changed ++ [f.attr])) =
              applyFields (formBody casts members) fs (Function.update s f.attr v) c := by
          split
          · rename_i same
            exact ⟨changed, by rw [← same, Function.update_eq_self]⟩
          · exact ⟨_, rfl⟩
        have right : ∃ c', CheckedAssign.run (fieldItem casts (.dict members) f ::
            (fs.map (fieldItem casts (.dict members)) ++ rest)) s changed' =
              CheckedAssign.run (fs.map (fieldItem casts (.dict members)) ++ rest) (Function.update s f.attr v) c' := by
          cases o with
          | none => exact ⟨changed', by simp only [CheckedAssign.run, accepted]; rw [← put]; rfl⟩
          | some w => exact ⟨changed' ++ [f.attr], by simp only [CheckedAssign.run, accepted]; rw [← put]; rfl⟩
        obtain ⟨c, left⟩ := left
        obtain ⟨c', right⟩ := right
        simp only [left, right]
        exact ih later typed' c c'

/-- The bound of the scale, of a setting of its kind. -/
theorem scaleBound_eq (key : String) {attr : String} (kind : Kind.optFloat.has (s attr) = true)
    (fits : ∀ m ∈ members, ∀ cast, m.2.overflows casts cast = false) :
    scaleBound casts s (.dict members) key attr = .ok (prospectiveScale (formBody casts members) s key attr) := by
  rw [scaleBound, prospectiveScale, lookup_formBody]
  simp only [bodyValue]
  cases given : members.lookup key with
  | none =>
    cases stored : s attr with
    | none | float => rfl
    | _ => rw [stored] at kind; cases kind
  | some raw =>
    obtain ⟨before, later, rfl, -⟩ := List.lookup_eq_some_iff.mp given
    simp only [Option.map_some]
    rw [fits (key, raw) (by simp)]
    simp only [Bool.false_eq_true, if_false]
    change _ = Except.ok (if raw.empty = true then none else raw.asFloat casts)
    split <;> rfl

theorem WellTyped.has (typed : WellTyped hostname s) {attr : String} (named : attr ∈ (modelFields []).map Field.name)
    {kind : Kind} (its : kindOf attr = some kind) : kind.has (s attr) = true := by
  have named : attr ∈ (modelFields hostname).map Field.name := named
  obtain ⟨g, inside, rfl⟩ := List.mem_map.mp named
  cases (kindOf_name inside).symm.trans its
  exact typed g inside

theorem scale_kinds : ∀ attr ∈ ["PSD_SCALE_MIN_DB", "PSD_SCALE_MAX_DB"],
    attr ∈ (modelFields []).map Field.name ∧ kindOf attr = some .optFloat := by
  obtain ⟨low, high⟩ := fields_checked.2.2.2
  intro attr member
  rcases List.mem_cons.mp member with rfl | last
  · exact ⟨kindOf_some low, low⟩
  · obtain rfl := List.mem_singleton.mp last
    exact ⟨kindOf_some high, high⟩

/-- Where no cast overflows, a request leaves the settings as the update of its body does. -/
theorem applyRoute_settings (app : AppState) (typed : WellTyped hostname s)
    (fits : ∀ m ∈ members, ∀ cast, m.2.overflows casts cast = false) :
    (applyRoute casts app s (some (.dict members))).settings = update s (.apply (formBody casts members)) := by
  obtain ⟨minNamed, minKind⟩ := scale_kinds "PSD_SCALE_MIN_DB" (by simp)
  obtain ⟨maxNamed, maxKind⟩ := scale_kinds "PSD_SCALE_MAX_DB" (by simp)
  have low := scaleBound_eq "psd_scale_min_db" (typed.has minNamed minKind) fits
  have high := scaleBound_eq "psd_scale_max_db" (typed.has maxNamed maxKind) fits
  have fields := run_applyFields fits (fun _ member => member) typed
    (secretMap.map (secretItem casts (.dict members))) [] []
  simp only [applyRoute, checkScale, low, high, update, applyConfig, assignments]
  by_cases inverted : ∃ l ∈ prospectiveScale (formBody casts members) s "psd_scale_min_db" "PSD_SCALE_MIN_DB",
      ∃ h ∈ prospectiveScale (formBody casts members) s "psd_scale_max_db" "PSD_SCALE_MAX_DB", PyFloat.le h l = true
  · simp only [if_pos inverted]
    rfl
  · simp only [if_neg inverted]
    cases applied : applyFields (formBody casts members) fieldMap s [] with
    | mk after result =>
      cases result with
      | error detail =>
        simp only [fields.1 after detail applied]
        rfl
      | ok changed =>
        obtain ⟨all, ran⟩ := fields.2 after changed applied
        simp only [ran, lookup_formBody]
        cases given : members.lookup "zms_token" with
        | none => simp [secretMap, secretItem, bodyValue, CheckedAssign.run, given]
        | some raw =>
          cases cleared : raw.empty <;>
            simp [secretMap, secretItem, bodyValue, CheckedAssign.run, given, cleared, JsonValue.form]

end Updates

end Settings

end RFObserver
