import RFObserver.Lib.Dict
import RFObserver.Web.ConfigRoutes

namespace RFObserver

namespace Settings

variable {reader : EnvReader} {hostname : List Char} {s : AppSettings}

section Table

/-- A name's bytes as one number: numbers are compared faster than names. -/
def nameCode (name : String) : Nat := name.toByteArray.data.toList.foldl (fun n b => n * 256 + b.toNat) 0

/-- Whether numbers are apart and not in `seen`, a set of them as bits. -/
def unseen : List Nat → Nat → Bool
  | [], _ => true
  | n :: ns, seen => !seen.testBit n && unseen ns (seen ||| 1 <<< n)

theorem nodup_of_unseen {ns : List Nat} {seen : Nat} (apart : unseen ns seen = true) :
    ns.Nodup ∧ ∀ n ∈ ns, seen.testBit n = false := by
  induction ns generalizing seen with
  | nil => exact ⟨List.nodup_nil, List.forall_mem_nil _⟩
  | cons n ns ih =>
    rw [unseen, Bool.and_eq_true, Bool.not_eq_true'] at apart
    obtain ⟨nodup, new⟩ := ih apart.2
    have others : ∀ m ∈ ns, seen.testBit m = false ∧ n ≠ m := fun m member => by
      have apart := new m member
      rw [Nat.testBit_or, Bool.or_eq_false_iff, Nat.one_shiftLeft] at apart
      exact ⟨apart.1, fun same => by simp [same] at apart⟩
    refine ⟨List.nodup_cons.mpr ⟨fun again => (others n again).2 rfl, nodup⟩, fun m member => ?_⟩
    rcases List.mem_cons.mp member with rfl | later
    · exact apart.1
    · exact (others m later).1

/-- Each field has a name of its own. -/
theorem modelFields_nodup : ((modelFields hostname).map Field.name).Nodup := by
  have names : (modelFields hostname).map Field.name = (modelFields []).map Field.name := rfl
  -- 1073 tells the names apart
  have codes : unseen (((modelFields []).map Field.name).map fun name => nameCode name % 1073) 0 = true := by
    decide +kernel
  rw [names]
  exact (nodup_of_unseen codes).1.of_map

/-- Every default is of its field's kind, and is None where None may stand. -/
theorem modelFields_default {f : Field} (member : f ∈ modelFields hostname) :
    f.kind.has f.default = true ∧ (f.kind.has .none = true → f.default = .none) := by
  have checked : (modelFields hostname).all (fun f =>
      f.kind.has f.default && (!f.kind.has .none || decide (f.default = .none))) = true := rfl
  have its := List.all_eq_true.mp checked f member
  simp only [Bool.and_eq_true, Bool.or_eq_true, Bool.not_eq_true', decide_eq_true_eq] at its
  refine ⟨its.1, fun has => its.2.resolve_left fun hasNot => ?_⟩
  rw [has] at hasNot
  cases hasNot

theorem default_eq {f : Field} (member : f ∈ modelFields hostname) :
    AppSettings.default hostname f.name = f.default := by
  obtain ⟨before, after, split⟩ := List.append_of_mem member
  have nodup := @modelFields_nodup hostname
  rw [split, List.map_append, List.map_cons, List.nodup_append] at nodup
  have none : before.find? (fun g => g.name = f.name) = none := by
    refine List.find?_eq_none.mpr fun g inside same => ?_
    exact nodup.2.2 g.name (List.mem_map.mpr ⟨g, inside, rfl⟩) f.name (List.mem_cons_self ..) (by simpa using same)
  rw [AppSettings.default, split, List.find?_append, none, Option.none_or, List.find?_cons_of_pos (by simp)]
  rfl

theorem create_nil (name : String) : AppSettings.create hostname [] name = AppSettings.default hostname name := by
  simp [AppSettings.create, AppSettings.carryLegacyHistoryDays]

end Table

section Plain

/-- The code points of letters, digits, signs and points. -/
theorem toNat_of_alphanum {c : Char} (char : c.isAlphanum = true ∨ c ∈ ['+', '-', '.']) :
    36 < c.toNat ∧ c.toNat ≠ 39 ∧ c.toNat < 127 := by
  rcases char with alphanum | sign
  · delta Char.isAlphanum Char.isAlpha Char.isUpper Char.isLower Char.isDigit at alphanum
    simp only [Bool.or_eq_true, Bool.and_eq_true, decide_eq_true_eq, ge_iff_le, UInt32.le_iff_toNat_le] at alphanum
    have code : c.toNat = c.val.toNat := rfl
    rw [code]
    simp at alphanum
    omega
  · simp at sign
    rcases sign with rfl | rfl | rfl <;> decide

theorem isSpace_of_alphanum {c : Char} (char : c.isAlphanum = true ∨ c ∈ ['+', '-', '.']) : isSpace c = false := by
  have code := toNat_of_alphanum char
  simp only [isSpace, decide_eq_false_iff_not]
  omega

theorem ne_of_alphanum {c d : Char} (char : c.isAlphanum = true ∨ c ∈ ['+', '-', '.'])
    (other : d.toNat ≤ 36 ∨ d.toNat = 39) : c ≠ d := by
  rintro rfl
  have code := toNat_of_alphanum char
  omega

theorem hasComment_of_alphanum {t : List Char} (chars : ∀ c ∈ t, c.isAlphanum = true ∨ c ∈ ['+', '-', '.']) :
    hasComment t = false := by
  induction t with
  | nil => rfl
  | cons c rest ih =>
    have later := ih fun d member => chars d (List.mem_cons_of_mem _ member)
    cases rest with
    | nil => rfl
    | cons d rest =>
      rw [hasComment, isSpace_of_alphanum (chars c (List.mem_cons_self ..)), Bool.false_and, Bool.false_or]
      exact later

theorem hasExpansion_of_alphanum {t : List Char} (chars : ∀ c ∈ t, c.isAlphanum = true ∨ c ∈ ['+', '-', '.']) :
    hasExpansion t = false := by
  induction t with
  | nil => rfl
  | cons c rest ih =>
    have other : (c == '$') = false := beq_false_of_ne (ne_of_alphanum (chars c (List.mem_cons_self ..)) (by decide))
    rw [hasExpansion, other, Bool.false_and, Bool.false_and, Bool.false_or]
    exact ih fun d member => chars d (List.mem_cons_of_mem _ member)

/-- Text without spaces or quotes is plain. -/
theorem plain_of_alphanum {t : List Char} (chars : ∀ c ∈ t, c.isAlphanum = true ∨ c ∈ ['+', '-', '.']) : Plain t where
  oneLine := ⟨fun member => ne_of_alphanum (chars _ member) (by decide) rfl,
    fun member => ne_of_alphanum (chars _ member) (by decide) rfl⟩
  first c member := by
    have char := chars c (List.mem_of_mem_head? member)
    exact ⟨isSpace_of_alphanum char, ne_of_alphanum char (by decide), ne_of_alphanum char (by decide)⟩
  last c member := isSpace_of_alphanum (chars c (List.mem_of_mem_getLast? member))
  comment := hasComment_of_alphanum chars
  expansion := hasExpansion_of_alphanum chars

theorem int_text_chars (n : ℤ) : ∀ c ∈ (toString n).toList, c.isAlphanum = true ∨ c ∈ ['+', '-', '.'] := by
  have digits : ∀ (m : ℕ) c, c ∈ m.repr.toList → c.isAlphanum = true := by
    intro m c member
    rw [Nat.toList_repr] at member
    simp [Char.isAlphanum, Nat.isDigit_of_mem_toDigits (by decide) (by decide) member]
  intro c member
  change c ∈ n.repr.toList at member
  rw [Int.repr_eq_if] at member
  split at member
  · exact Or.inl (digits _ c member)
  · rw [String.toList_append, List.mem_append] at member
    rcases member with sign | digit
    · cases List.mem_singleton.mp sign
      exact Or.inr (by decide)
    · exact Or.inl (digits _ c digit)

/-- The text of a value that is a string. -/
def Value.string? : Value → Option (List Char)
  | .str s | .secret s => some s
  | _ => .none

/-- What is not a string is written plain. -/
theorem text_plain (documented : reader.Documented) {v : Value} {t : List Char} (text : reader.text v = some t)
    (string : ∀ s ∈ v.string?, Plain s) : Plain t := by
  cases v with
  | none => cases text
  | bool b =>
    cases text
    refine plain_of_alphanum fun c member => ?_
    cases b
    · exact Or.inl (List.all_eq_true.mp (by decide : "False".toList.all Char.isAlphanum = true) c member)
    · exact Or.inl (List.all_eq_true.mp (by decide : "True".toList.all Char.isAlphanum = true) c member)
  | int n =>
    cases text
    exact plain_of_alphanum (int_text_chars n)
  | float x =>
    cases text
    exact plain_of_alphanum (documented.floatText x)
  | str s =>
    cases text
    exact string _ rfl
  | secret s =>
    cases text
    exact string _ rfl

end Plain

section Restart

def WellTyped (hostname : List Char) (s : AppSettings) : Prop := ∀ f ∈ modelFields hostname, f.kind.has (s f.name) = true

/-- The strings that are written are plain. -/
def PlainStrings (hostname : List Char) (s : AppSettings) : Prop :=
  ∀ f ∈ modelFields hostname, s f.name ≠ f.default → ∀ t ∈ (s f.name).string?, Plain t

/-- A new process that reads the written `.env` has the same value in every field. -/
def Survives (reader : EnvReader) (hostname : List Char) (s : AppSettings) : Prop :=
  ∃ loaded, AppSettings.load reader hostname (AppSettings.persist reader hostname s) = some loaded ∧
    ∀ f ∈ modelFields hostname, loaded f.name = s f.name

/-- The line of a field, if it has one. -/
def line (reader : EnvReader) (s : AppSettings) (f : Field) : Option (String × List Char) :=
  if s f.name = f.default then none else (reader.text (s f.name)).map fun t => ("RFOBS_" ++ f.name, t)

theorem lines_eq : AppSettings.lines reader hostname s = (modelFields hostname).filterMap (line reader s) := by
  refine List.filterMap_congr fun f member => ?_
  rw [create_nil, default_eq member, line]

theorem line_name {f : Field} {l : String × List Char} (its : line reader s f = some l) :
    l.1 = "RFOBS_" ++ f.name ∧ s f.name ≠ f.default ∧ reader.text (s f.name) = some l.2 := by
  obtain ⟨changed, its⟩ := Option.ite_none_left_eq_some.mp its
  obtain ⟨t, text, rfl⟩ := Option.map_eq_some_iff.mp its
  exact ⟨rfl, changed, text⟩

theorem prefix_inj {a b : String} (same : "RFOBS_" ++ a = "RFOBS_" ++ b) : a = b := by
  have chars := congrArg String.toList same
  rw [String.toList_append, String.toList_append] at chars
  exact String.toList_injective (List.append_cancel_left chars)

/-- The written lines read back. -/
theorem envVars_persist (documented : reader.Documented) (plain : PlainStrings hostname s) :
    reader.envVars (AppSettings.persist reader hostname s) = (modelFields hostname).filterMap (line reader s) := by
  rw [AppSettings.persist, lines_eq]
  have of_line : ∀ l ∈ (modelFields hostname).filterMap (line reader s), ∃ f ∈ modelFields hostname,
      line reader s f = some l := fun l member => List.mem_filterMap.mp member
  refine documented.envVars _ ?_ ?_ ?_
  · refine List.pairwise_map.mpr (List.pairwise_filterMap.mpr ?_)
    refine (List.pairwise_map.mp modelFields_nodup).imp fun {f g} other l its l' its' same => other ?_
    rw [(line_name its).1, (line_name its').1] at same
    exact prefix_inj same
  · intro l member
    obtain ⟨f, inside, its⟩ := of_line l member
    have names : (modelFields hostname).map Field.name = (modelFields []).map Field.name := rfl
    obtain ⟨g, among, same⟩ := List.mem_map.mp (names ▸ List.mem_map_of_mem inside)
    exact ⟨g, among, (line_name its).1.trans (by rw [same])⟩
  · intro l member
    obtain ⟨f, inside, its⟩ := of_line l member
    obtain ⟨-, changed, text⟩ := line_name its
    exact text_plain documented text (plain f inside changed)

/-- What the loader is provided with for a field. -/
def provided (s : AppSettings) (f : Field) : Option (String × Value) :=
  if s f.name = f.default then none else some (f.name, s f.name)

theorem provided_name {f : Field} {e : String × Value} (its : provided s f = some e) : e.1 = f.name := by
  obtain ⟨-, ⟨⟩⟩ := Option.ite_none_left_eq_some.mp its
  rfl

theorem provide_lines (documented : reader.Documented) (typed : WellTyped hostname s) {fs : List Field}
    (inside : ∀ f ∈ fs, f ∈ modelFields hostname) :
    AppSettings.provide reader ((modelFields hostname).filterMap (line reader s)) fs = some (fs.filterMap (provided s)) := by
  induction fs with
  | nil => rfl
  | cons f rest ih =>
    have member := inside f (List.mem_cons_self ..)
    have later := ih fun g after => inside g (List.mem_cons_of_mem _ after)
    have nodup : ((modelFields hostname).map fun f => "RFOBS_" ++ f.name).Nodup :=
      (List.pairwise_map.mpr ((List.pairwise_map.mp modelFields_nodup).imp fun other same => other (prefix_inj same)))
    have found : ((modelFields hostname).filterMap (line reader s)).lookup ("RFOBS_" ++ f.name) =
        (line reader s f).map Prod.snd :=
      Dict.lookup_filterMap (fun _ _ its => (line_name its).1) nodup member
    unfold AppSettings.provide
    rw [found, later]
    by_cases same : s f.name = f.default
    · have nothing : provided s f = none := if_pos same
      rw [line, if_pos same, List.filterMap_cons_none nothing]
      rfl
    · have its : provided s f = some (f.name, s f.name) := if_neg same
      rw [line, if_neg same, List.filterMap_cons_some its]
      cases text : reader.text (s f.name) with
      | none =>
        cases value : s f.name with
        | none =>
          have has := typed f member
          rw [value] at has
          exact absurd (value.trans ((modelFields_default member).2 has).symm) same
        | _ => rw [value] at text; cases text
      | some t =>
        simp only [Option.map_some, documented.validate_text f.kind (s f.name) t (typed f member) text, Option.bind_some]

/-- What the new process has. -/
theorem load_persist (documented : reader.Documented) (typed : WellTyped hostname s) (plain : PlainStrings hostname s) :
    AppSettings.load reader hostname (AppSettings.persist reader hostname s) =
      some (AppSettings.create hostname ((modelFields hostname).filterMap (provided s))) := by
  rw [AppSettings.load, envVars_persist documented plain, provide_lines documented typed fun _ member => member]
  rfl

theorem base_eq {f : Field} (member : f ∈ modelFields hostname) :
    (((modelFields hostname).filterMap (provided s)).lookup f.name).getD (AppSettings.default hostname f.name) =
      s f.name := by
  rw [Dict.lookup_filterMap (fun _ _ its => provided_name its) modelFields_nodup member, default_eq member, provided]
  by_cases same : s f.name = f.default
  · rw [if_pos same, same]
    rfl
  · rw [if_neg same]
    rfl

theorem mem_provided {f : Field} (member : f ∈ modelFields hostname) :
    f.name ∈ ((modelFields hostname).filterMap (provided s)).map Prod.fst ↔ s f.name ≠ f.default := by
  constructor
  · intro written same
    obtain ⟨e, inside, name⟩ := List.mem_map.mp written
    obtain ⟨g, among, its⟩ := List.mem_filterMap.mp inside
    have one : g = f := List.inj_on_of_nodup_map modelFields_nodup among member ((provided_name its).symm.trans name)
    subst one
    rw [provided, if_pos same] at its
    cases its
  · intro changed
    exact List.mem_map.mpr ⟨_, List.mem_filterMap.mpr ⟨f, member, if_neg changed⟩, rfl⟩

def historyDays : Field := ⟨"HISTORY_DAYS", .int, .int 7⟩
def dbRetentionDays : Field := ⟨"DB_RETENTION_DAYS", .int, .int 7⟩

/-- Exactly a legacy HISTORY_DAYS beside a DB_RETENTION_DAYS at its default is
not read back. -/
theorem survives_of_typed (documented : reader.Documented) (typed : WellTyped hostname s) (plain : PlainStrings hostname s) :
    Survives reader hostname s ↔ s "HISTORY_DAYS" = .int 7 ∨ s "DB_RETENTION_DAYS" ≠ .int 7 := by
  have history : historyDays ∈ modelFields hostname := by simp [modelFields, historyDays]
  have retention : dbRetentionDays ∈ modelFields hostname := by simp [modelFields, dbRetentionDays]
  have carried : ("HISTORY_DAYS" ∈ ((modelFields hostname).filterMap (provided s)).map Prod.fst ∧
      "DB_RETENTION_DAYS" ∉ ((modelFields hostname).filterMap (provided s)).map Prod.fst) ↔
        s "HISTORY_DAYS" ≠ .int 7 ∧ s "DB_RETENTION_DAYS" = .int 7 :=
    and_congr (mem_provided history) ((mem_provided retention).not.trans not_not)
  unfold Survives
  rw [load_persist documented typed plain]
  constructor
  · rintro ⟨loaded, ⟨⟩, same⟩
    by_contra carries
    push Not at carries
    have value := same dbRetentionDays retention
    rw [AppSettings.create, AppSettings.carryLegacyHistoryDays, if_pos (carried.mpr carries)] at value
    have old := base_eq (s := s) history
    rw [dbRetentionDays, Function.update_self] at value
    exact carries.1 (old.symm.trans (value.trans carries.2))
  · intro kept
    refine ⟨_, rfl, fun f member => ?_⟩
    have notCarried : ¬ ("HISTORY_DAYS" ∈ ((modelFields hostname).filterMap (provided s)).map Prod.fst ∧
        "DB_RETENTION_DAYS" ∉ ((modelFields hostname).filterMap (provided s)).map Prod.fst) := by
      rw [carried]
      rintro ⟨legacy, reset⟩
      exact kept.elim legacy fun set => set reset
    rw [AppSettings.create, AppSettings.carryLegacyHistoryDays, if_neg notCarried]
    exact base_eq member

end Restart

end Settings

end RFObserver
