import RFObserver.Web.EnvLines

namespace RFObserver

namespace Settings

variable {reader : EnvReader} {hostname : List Char} {s : AppSettings}

section Typed

/-- The kind of a field. -/
def kindOf (name : String) : Option Kind :=
  (((modelFields []).map fun f => (f.name, f.kind)).find? fun e => e.1 = name).map Prod.snd

theorem kindOf_name {f : Field} (member : f ∈ modelFields hostname) : kindOf f.name = some f.kind := by
  have same : (modelFields []).map (fun f => (f.name, f.kind)) = (modelFields hostname).map fun f => (f.name, f.kind) := rfl
  obtain ⟨before, after, split⟩ := List.append_of_mem member
  have nodup := @modelFields_nodup hostname
  rw [split, List.map_append, List.map_cons, List.nodup_append] at nodup
  have none : (before.map fun f => (f.name, f.kind)).find? (fun e => e.1 = f.name) = none := by
    refine List.find?_eq_none.mpr fun e inside found => ?_
    obtain ⟨g, among, rfl⟩ := List.mem_map.mp inside
    exact nodup.2.2 g.name (List.mem_map.mpr ⟨g, among, rfl⟩) f.name (List.mem_cons_self ..) (by simpa using found)
  rw [kindOf, same, split, List.map_append, List.find?_append, none, Option.none_or, List.map_cons,
    List.find?_cons_of_pos (by simp)]
  rfl

theorem WellTyped.set (typed : WellTyped hostname s) {attr : String} {v : Value}
    (fits : ∀ kind, kindOf attr = some kind → kind.has v = true) : WellTyped hostname (Function.update s attr v) := by
  intro f member
  by_cases here : f.name = attr
  · rw [← here, Function.update_self]
    exact fits f.kind (here ▸ kindOf_name member)
  · rw [Function.update_of_ne here]
    exact typed f member

/-- A checked value is the cast one, or another string of decoders. -/
theorem checkValue_ok {key attr : String} {v w : Value} (checked : checkValue s key attr v = .ok w) :
    (w = v ∨ attr = "ATTRIBUTION_DECODERS" ∧ ∃ t u, v = .str t ∧ w = .str u) ∧
      (attr = "PSD_BACKEND" → ∀ t, v = .str t → t ∈ psdBackends) := by
  unfold checkValue at checked
  split at checked
  case h_1 x =>
    split at checked <;> cases checked
    exact ⟨Or.inl rfl, fun same => absurd same (by decide)⟩
  case h_2 n =>
    split at checked
    · cases checked
    · split at checked <;> cases checked
      exact ⟨Or.inl rfl, fun same => absurd same (by decide)⟩
  case h_3 t =>
    simp only at checked
    split at checked <;> cases checked
    exact ⟨Or.inr ⟨rfl, t, _, rfl, rfl⟩, fun same => absurd same (by decide)⟩
  case h_4 n =>
    split at checked <;> cases checked
    exact ⟨Or.inl rfl, fun same => absurd same (by decide)⟩
  case h_5 t =>
    split at checked
    case isTrue known =>
      cases checked
      refine ⟨Or.inl rfl, fun _ u same => ?_⟩
      cases same
      exact known
    case isFalse => cases checked
  case h_6 x _ _ =>
    refine ⟨Or.inl ?_, fun _ t str => by cases str⟩
    split at checked
    · split at checked
      · cases checked
      · split at checked <;> cases checked
        rfl
    · cases checked
      rfl
  case h_7 others =>
    cases checked
    refine ⟨Or.inl rfl, ?_⟩
    rintro rfl t rfl
    exact (others t rfl rfl).elim

/-- A kind takes what a cast makes, the literal kind of PSD_BACKEND after its check. -/
def Cast.fits (attr : String) : Cast → Kind → Bool
  | .int, .int | .float, .float | .float, .optFloat | .toBool, .bool | .str, .str | .str, .optStr => true
  | .str, .literal choices => attr = "PSD_BACKEND" ∧ choices = psdBackends
  | _, _ => false

theorem kindOf_some {attr : String} {kind : Kind} (its : kindOf attr = some kind) :
    attr ∈ (modelFields []).map Field.name := by
  obtain ⟨e, found, -⟩ := Option.map_eq_some_iff.mp its
  obtain ⟨f, member, rfl⟩ := List.mem_map.mp (List.mem_of_find?_eq_some found)
  have name : f.name = attr := of_decide_eq_true (List.find?_some found :)
  exact name ▸ List.mem_map_of_mem member

/-- What the tables of fields hold, checked at once. -/
theorem fields_checked : (∀ f ∈ fieldMap, ∃ kind ∈ kindOf f.attr, f.cast.fits f.attr kind = true ∧
      (f.attr ∈ nullableAttrs → kind.has .none = true) ∧ (f.attr = "ATTRIBUTION_DECODERS" → kind = .str)) ∧
    (kindOf "ZMS_TOKEN" = some .optSecret ∧ kindOf "SENSOR_ACTIVE" = some .bool ∧
      kindOf "TRIGGER_CONTINUOUS" = some .bool ∧ kindOf "STORAGE_PATH" = some .str ∧ kindOf "ZMS_ENABLED" = some .bool ∧
      kindOf "TIMEZONE" = some .str ∧ kindOf "TONE_CHECK_ENABLED" = some .bool ∧
      kindOf "TONE_CHECK_FREQ_HZ" = some .float ∧ kindOf "TONE_CHECK_THRESHOLD_DB" = some .float ∧
      kindOf "HISTORY_DAYS" = some .int ∧ kindOf "DB_RETENTION_DAYS" = some .int) ∧
    unseen (("RECEIVER" :: "ZMS_TOKEN" :: fieldMap.map FormField.attr).map fun name => nameCode name % 1073) 0 = true ∧
    kindOf "PSD_SCALE_MIN_DB" = some .optFloat ∧ kindOf "PSD_SCALE_MAX_DB" = some .optFloat := by
  decide +kernel

theorem fieldMap_fits : ∀ f ∈ fieldMap, ∀ kind ∈ kindOf f.attr, f.cast.fits f.attr kind = true ∧
    (f.attr ∈ nullableAttrs → kind.has .none = true) ∧ (f.attr = "ATTRIBUTION_DECODERS" → kind = .str) := by
  intro f member kind its
  obtain ⟨_, same, fits⟩ := fields_checked.1 f member
  cases same.symm.trans its
  exact fits

/-- What a route sets is of the field's kind. -/
theorem newValue_has {f : FormField} (member : f ∈ fieldMap) {raw : FormValue} {w : Value}
    (new : newValue s f raw = .ok w) {kind : Kind} (its : kindOf f.attr = some kind) : kind.has w = true := by
  obtain ⟨fits, nullable, decoders⟩ := fieldMap_fits f member kind its
  unfold newValue at new
  split at new
  case isTrue cleared =>
    cases new
    exact nullable cleared.1
  case isFalse =>
    cases made : f.cast.apply raw with
    | none => rw [made] at new; cases new
    | some v =>
      rw [made] at new
      obtain ⟨same | ⟨attr, t, u, -, rfl⟩, backend⟩ := checkValue_ok new
      · subst same
        revert fits made
        cases f.cast with
        | int =>
          intro fits made
          obtain ⟨n, -, rfl⟩ := Option.map_eq_some_iff.mp made
          cases kind <;> first | rfl | cases fits
        | float =>
          intro fits made
          obtain ⟨x, -, rfl⟩ := Option.map_eq_some_iff.mp made
          cases kind <;> first | rfl | cases fits
        | toBool =>
          intro fits made
          cases made
          cases kind <;> first | rfl | cases fits
        | str =>
          intro fits made
          cases made
          cases kind with
          | literal choices =>
            simp only [Cast.fits, decide_eq_true_eq] at fits
            simp only [Kind.has, fits.2, List.contains_iff_mem]
            exact backend fits.1 _ rfl
          | str | optStr => rfl
          | _ => cases fits
      · rw [decoders attr]
        rfl

theorem applyFields_typed {body : List (String × FormValue)} {fs : List FormField} (inside : ∀ f ∈ fs, f ∈ fieldMap)
    {changed : List String} (typed : WellTyped hostname s) : WellTyped hostname (applyFields body fs s changed).1 := by
  induction fs generalizing s changed with
  | nil => exact typed
  | cons f rest ih =>
    have later := fun g after => inside g (List.mem_cons_of_mem f after)
    unfold applyFields
    split
    case h_1 => exact ih later typed
    case h_2 raw _ =>
      split
      case h_1 => exact typed
      case h_2 v new =>
        split
        · exact ih later typed
        · exact ih later (typed.set fun kind its => newValue_has (inside f (List.mem_cons_self ..)) new its)

/-- The kinds of the fields that routes set by name. -/
theorem kindOf_named : kindOf "ZMS_TOKEN" = some .optSecret ∧ kindOf "SENSOR_ACTIVE" = some .bool ∧
    kindOf "TRIGGER_CONTINUOUS" = some .bool ∧ kindOf "STORAGE_PATH" = some .str ∧ kindOf "ZMS_ENABLED" = some .bool ∧
    kindOf "TIMEZONE" = some .str ∧ kindOf "TONE_CHECK_ENABLED" = some .bool ∧
    kindOf "TONE_CHECK_FREQ_HZ" = some .float ∧ kindOf "TONE_CHECK_THRESHOLD_DB" = some .float ∧
    kindOf "HISTORY_DAYS" = some .int ∧ kindOf "DB_RETENTION_DAYS" = some .int :=
  fields_checked.2.1

theorem applyConfig_typed {body : List (String × FormValue)} (typed : WellTyped hostname s) :
    WellTyped hostname (applyConfig s body).1 := by
  have applied : WellTyped hostname (applyFields body fieldMap s []).1 := applyFields_typed (fun _ member => member) typed
  have token := kindOf_named.1
  unfold applyConfig
  simp only
  split
  · exact typed
  · split
    case h_1 left _ same => exact same ▸ applied
    case h_2 left changed same =>
      rw [same] at applied
      split
      · exact applied
      · split
        · exact applied
        · refine applied.set fun kind its => ?_
          cases token.symm.trans its
          rfl

theorem setIf_typed (typed : WellTyped hostname s) {attr : String} {v : Option Value}
    (fits : ∀ w ∈ v, ∀ kind, kindOf attr = some kind → kind.has w = true) : WellTyped hostname (setIf s attr v) := by
  cases v with
  | none => exact typed
  | some w => exact typed.set (fits w rfl)

/-- Every update keeps each value of its field's kind. -/
theorem update_typed (typed : WellTyped hostname s) (u : Update) : WellTyped hostname (update s u) := by
  obtain ⟨-, sensor, arm, path, zms, zone, tone, freq, threshold, -⟩ := kindOf_named
  have one : ∀ {attr kind v}, kindOf attr = some kind → kind.has v = true →
      ∀ kind', kindOf attr = some kind' → kind'.has v = true := by
    intro attr kind v its has kind' also
    cases its.symm.trans also
    exact has
  cases u with
  | apply body => exact applyConfig_typed typed
  | sensor active => exact typed.set (one sensor rfl)
  | arm armed => exact typed.set (one arm rfl)
  | storagePath name writable =>
    simp only [update]
    split
    · exact typed.set (one path rfl)
    · exact typed
  | zms enabled => exact typed.set (one zms rfl)
  | timezone name => exact typed.set (one zone rfl)
  | toneCheck enabled freqHz thresholdDb =>
    refine setIf_typed (setIf_typed (setIf_typed typed ?_) ?_) ?_
    · intro w set
      obtain ⟨b, -, rfl⟩ := Option.map_eq_some_iff.mp set
      exact one tone rfl
    · intro w set
      obtain ⟨x, -, rfl⟩ := Option.map_eq_some_iff.mp set
      exact one freq rfl
    · intro w set
      obtain ⟨x, -, rfl⟩ := Option.map_eq_some_iff.mp set
      exact one threshold rfl

/-- What the loader is provided with is of its field's kind. -/
theorem provide_has (documented : reader.Documented) {vars : List (String × List Char)} {fs : List Field}
    {provided : List (String × Value)} (read : AppSettings.provide reader vars fs = some provided) :
    ∀ e ∈ provided, ∃ f ∈ fs, e.1 = f.name ∧ f.kind.has e.2 = true := by
  induction fs generalizing provided with
  | nil =>
    cases read
    exact fun e member => absurd member List.not_mem_nil
  | cons f rest ih =>
    have later : ∀ provided, AppSettings.provide reader vars rest = some provided →
        ∀ e ∈ provided, ∃ g ∈ f :: rest, e.1 = g.name ∧ g.kind.has e.2 = true := by
      intro provided read e member
      obtain ⟨g, inside, its⟩ := ih read e member
      exact ⟨g, List.mem_cons_of_mem _ inside, its⟩
    unfold AppSettings.provide at read
    split at read
    case h_1 => exact later provided read
    case h_2 t _ =>
      obtain ⟨v, valid, read⟩ := Option.bind_eq_some_iff.mp read
      obtain ⟨tail, others, rfl⟩ := Option.map_eq_some_iff.mp read
      rintro e (_ | ⟨_, member⟩)
      · exact ⟨f, List.mem_cons_self .., rfl, documented.validate_has f.kind t v valid⟩
      · exact later tail others e member

/-- Loaded settings are of their fields' kinds. -/
theorem create_typed {provided : List (String × Value)}
    (fits : ∀ e ∈ provided, ∃ f ∈ modelFields hostname, e.1 = f.name ∧ f.kind.has e.2 = true) :
    WellTyped hostname (AppSettings.create hostname provided) := by
  have typed : WellTyped hostname fun name => (provided.lookup name).getD (AppSettings.default hostname name) := by
    intro f member
    simp only
    cases given : provided.lookup f.name with
    | none =>
      rw [Option.getD_none, default_eq member]
      exact (modelFields_default member).1
    | some v =>
      obtain ⟨before, after, split, -⟩ := List.lookup_eq_some_iff.mp given
      obtain ⟨g, inside, name, has⟩ := fits (f.name, v) (split ▸ List.mem_append_right before (List.mem_cons_self ..))
      have one : g = f := List.inj_on_of_nodup_map modelFields_nodup inside member name.symm
      exact one ▸ has
  have kept : historyDays ∈ modelFields hostname := by simp [modelFields, historyDays]
  obtain ⟨-, -, -, -, -, -, -, -, -, -, retention⟩ := kindOf_named
  unfold AppSettings.create AppSettings.carryLegacyHistoryDays
  split
  · refine typed.set fun kind its => ?_
    cases retention.symm.trans its
    exact typed historyDays kept
  · exact typed

end Typed

section Reachable

/-- The settings of a run: loaded from whatever variables validate, then
updated by requests. -/
def Reachable (reader : EnvReader) (hostname : List Char) (s : AppSettings) : Prop :=
  ∃ vars provided updates, AppSettings.provide reader vars (modelFields hostname) = some provided ∧
    s = List.foldl update (AppSettings.create hostname provided) updates

theorem Reachable.typed (documented : reader.Documented) (reachable : Reachable reader hostname s) :
    WellTyped hostname s := by
  obtain ⟨vars, provided, updates, read, rfl⟩ := reachable
  have loaded : WellTyped hostname (AppSettings.create hostname provided) := create_typed (provide_has documented read)
  generalize AppSettings.create hostname provided = s at loaded
  induction updates generalizing s with
  | nil => exact loaded
  | cons u rest ih => exact ih _ (update_typed loaded u)

/-- A sensor that still has the legacy HISTORY_DAYS in its `.env`. -/
def legacy : AppSettings := AppSettings.create "pi".toList [("HISTORY_DAYS", .int 30)]

/-- The history and the name submitted on the config page. -/
def submit (days : ℤ) (name : List Char) : Update :=
  .apply [("history_days", ⟨false, some days, none, [], false⟩), ("sensor_name", ⟨false, none, none, name, false⟩)]

theorem filterMap_name {β : Type*} {f : Field} (member : f ∈ modelFields hostname) (v : β) :
    (modelFields hostname).filterMap (fun g => if g.name = f.name then some v else none) = [v] := by
  obtain ⟨before, after, split⟩ := List.append_of_mem member
  have nodup := @modelFields_nodup hostname
  rw [split, List.map_append, List.map_cons, List.nodup_append, List.nodup_cons] at nodup
  have none_before : before.filterMap (fun g => if g.name = f.name then some v else none) = [] :=
    List.filterMap_eq_nil_iff.mpr fun g inside => if_neg
      (nodup.2.2 g.name (List.mem_map_of_mem inside) f.name (List.mem_cons_self ..))
  have none_after : after.filterMap (fun g => if g.name = f.name then some v else none) = [] :=
    List.filterMap_eq_nil_iff.mpr fun g inside => if_neg fun same : g.name = f.name =>
      nodup.2.1.1 (same ▸ List.mem_map_of_mem inside)
  rw [split, List.filterMap_append, none_before, List.nil_append, List.filterMap_cons, if_pos rfl]
  simp only [none_after]

theorem legacy_reachable (u : Update) : Reachable EnvLines.reader "pi".toList (update legacy u) := by
  let days : AppSettings := Function.update (AppSettings.default "pi".toList) "HISTORY_DAYS" (.int 30)
  obtain ⟨-, -, -, -, -, -, -, -, -, its, -⟩ := kindOf_named
  have typed : WellTyped "pi".toList days := by
    refine WellTyped.set (fun f member => ?_) fun kind also => ?_
    · exact default_eq member ▸ (modelFields_default member).1
    · cases its.symm.trans also
      rfl
  have given : (modelFields "pi".toList).filterMap (provided days) = [("HISTORY_DAYS", .int 30)] := by
    have kept : historyDays ∈ modelFields "pi".toList := by simp [modelFields, historyDays]
    have each : ∀ f ∈ modelFields "pi".toList, provided days f =
        if f.name = historyDays.name then some ("HISTORY_DAYS", .int 30) else none := by
      intro f member
      by_cases here : f.name = historyDays.name
      · cases List.inj_on_of_nodup_map modelFields_nodup member kept here
        simp [provided, days, historyDays]
      · have same : days f.name = f.default := (Function.update_of_ne here _ _).trans (default_eq member)
        rw [provided, if_pos same, if_neg here]
    rw [List.filterMap_congr each, filterMap_name kept]
  exact ⟨_, _, [u], given ▸ provide_lines EnvLines.documented typed fun _ member => member, rfl⟩

/-- The settings after the submission. -/
def submitted (days : ℤ) (name : List Char) : AppSettings :=
  Function.update (Function.update legacy "DB_RETENTION_DAYS" (.int days)) "SENSOR_NAME" (.str name)

theorem submitted_of_ne {days : ℤ} {name : List Char} {f : Field} (member : f ∈ modelFields "pi".toList)
    (sensor : f.name ≠ "SENSOR_NAME") (retention : f.name ≠ "DB_RETENTION_DAYS") (history : f.name ≠ "HISTORY_DAYS") :
    submitted days name f.name = f.default := by
  have carried : legacy = Function.update (fun name => ([("HISTORY_DAYS", Value.int 30)].lookup name).getD
      (AppSettings.default "pi".toList name)) "DB_RETENTION_DAYS" (.int 30) := rfl
  have absent : [("HISTORY_DAYS", Value.int 30)].lookup f.name = none :=
    List.lookup_eq_none_iff.mpr fun e given => by cases List.mem_singleton.mp given; exact bne_iff_ne.mpr history
  rw [submitted, Function.update_of_ne sensor, Function.update_of_ne retention, carried,
    Function.update_of_ne retention, absent]
  exact default_eq member

theorem submitted_plain {days : ℤ} {name : List Char} (plain : Plain name) : PlainStrings "pi".toList (submitted days name) := by
  intro f member changed t string
  by_cases sensor : f.name = "SENSOR_NAME"
  · rw [sensor, submitted, Function.update_self] at string
    cases string
    exact plain
  · by_cases retention : f.name = "DB_RETENTION_DAYS"
    · rw [retention, submitted, Function.update_of_ne (by decide), Function.update_self] at string
      cases string
    · by_cases history : f.name = "HISTORY_DAYS"
      · rw [history] at string
        cases string
      · exact absurd (submitted_of_ne member sensor retention history) changed

/-- Default settings but for the name. -/
def named (name : List Char) : AppSettings :=
  Function.update (AppSettings.create "pi".toList []) "SENSOR_NAME" (.str name)

theorem named_lines {name : List Char} :
    AppSettings.lines EnvLines.reader "pi".toList (named name) = [("RFOBS_SENSOR_NAME", name)] := by
  have each : ∀ f ∈ modelFields "pi".toList, line EnvLines.reader (named name) f =
      (if f.name = "SENSOR_NAME" then some "RFOBS_SENSOR_NAME" else none).map fun its => (its, name) := by
    intro f member
    by_cases here : f.name = "SENSOR_NAME"
    · have given : named name f.name = .str name := by rw [here]; exact Function.update_self ..
      have unset : f.default = .none := by
        rw [← default_eq member, here]
        rfl
      rw [line, given, unset, here, if_neg (by simp), if_pos rfl]
      rfl
    · have same : named name f.name = f.default :=
        (Function.update_of_ne here _ _).trans ((create_nil _).trans (default_eq member))
      rw [line, if_pos same, if_neg here]
      rfl
  have kept : (⟨"SENSOR_NAME", .optStr, .none⟩ : Field) ∈ modelFields "pi".toList := by simp [modelFields]
  rw [lines_eq, List.filterMap_congr each, ← List.map_filterMap, filterMap_name kept]
  rfl

end Reachable

end Settings

end RFObserver
