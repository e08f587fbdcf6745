import Mathlib
import RFObserver.Web.SettingsRestart

/-! A reader of `NAME=value` lines that does what is documented. -/

namespace RFObserver

namespace Settings

namespace EnvLines

/-- A value to its comment. -/
def cutComment : List Char → List Char
  | c :: d :: rest => if (isSpace c && d == '#') = true then [] else c :: cutComment (d :: rest)
  | t => t

def readLine (line : List Char) : Option (String × List Char) :=
  match line.dropWhile (· ≠ '=') with
  | [] => none
  | _ :: value => some (String.ofList (line.takeWhile (· ≠ '=')), strip (cutComment value))

def envVars (text : List Char) : List (String × List Char) := (text.splitOn '\n').filterMap readLine

/-- The text of a float, as Python writes the whole ones. -/
def floatText : PyFloat → List Char
  | .finite q => (toString q.num).toList ++ '.' :: (toString (q.den - 1)).toList
  | .inf => "inf".toList
  | .negInf => "-inf".toList
  | .nan => "nan".toList

def readFloat (t : List Char) : Option PyFloat :=
  match t.dropWhile (· ≠ '.') with
  | [] =>
    if t = "inf".toList then some .inf else if t = "-inf".toList then some .negInf
    else if t = "nan".toList then some .nan else none
  | _ :: den =>
    (String.ofList (t.takeWhile (· ≠ '.'))).toInt?.bind fun n =>
      (String.ofList den).toNat?.map fun d => .finite (mkRat n (d + 1))

def validate : Kind → List Char → Option Value
  | .bool, t => if t = "True".toList then some (.bool true) else if t = "False".toList then some (.bool false) else none
  | .int, t => (String.ofList t).toInt?.map .int
  | .float, t | .optFloat, t => (readFloat t).map .float
  | .str, t | .optStr, t => some (.str t)
  | .literal choices, t => if choices.contains t then some (.str t) else none
  | .optSecret, t => some (.secret t)

def reader : EnvReader where
  floatText := floatText
  envVars := envVars
  validate := validate

theorem takeWhile_stop {p : Char → Bool} {a b : List Char} {c : Char} (all : ∀ d ∈ a, p d = true) (stop : p c = false) :
    (a ++ c :: b).takeWhile p = a ∧ (a ++ c :: b).dropWhile p = c :: b := by
  constructor
  · rw [List.takeWhile_append_of_pos all, List.takeWhile_cons_of_neg (by simp [stop]), List.append_nil]
  · rw [List.dropWhile_append_of_pos all, List.dropWhile_cons_of_neg (by simp [stop])]

theorem cutComment_eq {t : List Char} (none : hasComment t = false) : cutComment t = t := by
  induction t with
  | nil => rfl
  | cons c rest ih =>
    cases rest with
    | nil => rfl
    | cons d rest =>
      rw [hasComment, Bool.or_eq_false_iff] at none
      rw [cutComment, none.1, ih none.2]
      rfl

/-- A plain line reads back. -/
theorem readLine_eq {name : String} {value : List Char} (noEquals : '=' ∉ name.toList) (plain : Plain value) :
    readLine (name.toList ++ '=' :: value) = some (name, value) := by
  obtain ⟨before, after⟩ := takeWhile_stop (p := fun c => c ≠ '=') (a := name.toList) (b := value) (c := '=')
    (fun d member => by simpa using fun same : d = '=' => noEquals (same ▸ member)) (by simp)
  rw [readLine, after, before]
  change some (String.ofList name.toList, strip (cutComment value)) = some (name, value)
  rw [cutComment_eq plain.comment, strip_eq (fun c member => (plain.first c member).1) plain.last, String.ofList_toList]

theorem intercalate_end (sep : List Char) {ls : List (List Char)} (some_line : ls ≠ []) :
    sep.intercalate ls ++ sep = sep.intercalate (ls ++ [[]]) := by
  induction ls with
  | nil => exact absurd rfl some_line
  | cons l rest ih =>
    cases rest with
    | nil => simp [List.intercalate_cons_cons]
    | cons m rest =>
      rw [List.intercalate_cons_cons, List.cons_append, List.cons_append, List.intercalate_cons_cons, List.append_assoc,
        List.append_assoc, ih (List.cons_ne_nil _ _), List.append_assoc, List.cons_append]

theorem envVars_envText {lines : List (String × List Char)}
    (names : ∀ l ∈ lines, '=' ∉ l.1.toList ∧ '\n' ∉ l.1.toList) (plain : ∀ l ∈ lines, Plain l.2) :
    envVars (envText lines) = lines := by
  have texts : ∀ l ∈ lines, '\n' ∉ l.1.toList ++ '=' :: l.2 := by
    intro l member inside
    rcases List.mem_append.mp inside with name | value
    · exact (names l member).2 name
    · rcases List.mem_cons.mp value with equals | value
      · cases equals
      · exact (plain l member).oneLine.1 value
  have read : (lines.map fun l => l.1.toList ++ '=' :: l.2).filterMap readLine = lines := by
    rw [List.filterMap_map]
    exact (List.filterMap_congr fun l member => readLine_eq (names l member).1 (plain l member)).trans List.filterMap_some
  unfold envText envVars
  split
  case isTrue none =>
    subst none
    rfl
  case isFalse some_line =>
    rw [intercalate_end _ (by simpa using some_line), List.splitOn_intercalate, List.filterMap_append, read]
    · exact List.append_nil _
    · intro l member
      rcases List.mem_append.mp member with line | last
      · obtain ⟨l, inside, rfl⟩ := List.mem_map.mp line
        exact texts l inside
      · cases List.mem_singleton.mp last
        exact List.not_mem_nil
    · simp

/-- No name has a `=` or a line break, seen on its bytes. -/
theorem name_chars {f : Field} (member : f ∈ modelFields []) :
    '=' ∉ ("RFOBS_" ++ f.name).toList ∧ '\n' ∉ ("RFOBS_" ++ f.name).toList := by
  have bytes : ∀ (name : String) (c : Char), c ∈ name.toList → ∀ b ∈ String.utf8EncodeChar c,
      b ∈ name.toByteArray.data.toList := by
    intro name c inside b byte
    rw [← String.utf8Encode_toList, List.utf8Encode, List.data_toByteArray]
    exact List.mem_flatMap.mpr ⟨c, inside, byte⟩
  have checked : ((modelFields []).map Field.name).all
      (fun name => name.toByteArray.data.toList.all fun b => b != 61 && b != 10) = true := by
    decide +kernel
  have its := List.all_eq_true.mp (List.all_eq_true.mp checked f.name (List.mem_map_of_mem member))
  rw [String.toList_append, List.mem_append, List.mem_append]
  constructor
  · rintro (front | name)
    · revert front; decide
    · exact absurd (its 61 (bytes f.name '=' name 61 (by decide))) (by decide)
  · rintro (front | name)
    · revert front; decide
    · exact absurd (its 10 (bytes f.name '\n' name 10 (by decide))) (by decide)

theorem no_point (n : ℤ) : ∀ c ∈ (toString n).toList, c ≠ '.' := by
  have digits : ∀ (m : ℕ) c, c ∈ m.repr.toList → c ≠ '.' := by
    rintro m c member rfl
    rw [Nat.toList_repr] at member
    exact absurd (Nat.isDigit_of_mem_toDigits (by decide) (by decide) member) (by decide)
  intro c member
  change c ∈ n.repr.toList at member
  rw [Int.repr_eq_if] at member
  split at member
  · exact digits _ c member
  · rw [String.toList_append, List.mem_append] at member
    rcases member with sign | digit
    · cases List.mem_singleton.mp sign
      decide
    · exact digits _ c digit

theorem readFloat_floatText (x : PyFloat) : readFloat (floatText x) = some x := by
  cases x with
  | finite q =>
    have digits : '.' ∉ (toString q.num).toList := fun inside => no_point q.num _ inside rfl
    obtain ⟨before, after⟩ := takeWhile_stop (p := fun c => c ≠ '.') (a := (toString q.num).toList)
      (b := (toString (q.den - 1)).toList) (c := '.')
      (fun d member => by simpa using fun same : d = '.' => digits (same ▸ member)) (by simp)
    have positive := q.den_pos
    rw [floatText, readFloat, after, before]
    change ((String.ofList q.num.repr.toList).toInt?.bind fun n =>
      (String.ofList (q.den - 1).repr.toList).toNat?.map fun d => PyFloat.finite (mkRat n (d + 1))) = _
    rw [String.ofList_toList, String.ofList_toList, Int.toInt?_repr, Nat.toNat?_repr, Option.bind_some, Option.map_some, Nat.sub_add_cancel positive, Rat.mkRat_self]
  | inf => rfl
  | negInf => rfl
  | nan => rfl

theorem documented : reader.Documented where
  floatText x c member := by
    have words : ∀ c ∈ ['i', 'n', 'f', 'a'], c.isAlphanum = true := List.all_eq_true.mp (by decide)
    cases x with
    | finite q =>
      rcases List.mem_append.mp member with front | rest
      · exact int_text_chars q.num c front
      · rcases List.mem_cons.mp rest with rfl | digit
        · exact Or.inr (by decide)
        · exact int_text_chars ((q.den - 1 : ℕ) : ℤ) c digit
    | inf => exact Or.inl (words c ((by decide : ['i', 'n', 'f'] ⊆ ['i', 'n', 'f', 'a']) member))
    | negInf =>
      rcases List.mem_cons.mp (show c ∈ '-' :: ['i', 'n', 'f'] from member) with rfl | letter
      · exact Or.inr (by decide)
      · exact Or.inl (words c ((by decide : ['i', 'n', 'f'] ⊆ ['i', 'n', 'f', 'a']) letter))
    | nan => exact Or.inl (words c ((by decide : ['n', 'a', 'n'] ⊆ ['i', 'n', 'f', 'a']) member))
  envVars lines _ names plain := by
    refine envVars_envText (fun l member => ?_) plain
    obtain ⟨f, inside, name⟩ := names l member
    rw [name]
    exact name_chars inside
  validate_has kind t v read := by
    cases kind with
    | bool =>
      change (if _ then _ else if _ then _ else _) = _ at read
      split at read
      · cases read; rfl
      · split at read <;> cases read
        rfl
    | int =>
      obtain ⟨n, -, rfl⟩ := Option.map_eq_some_iff.mp read
      rfl
    | float | optFloat =>
      obtain ⟨x, -, rfl⟩ := Option.map_eq_some_iff.mp read
      rfl
    | literal choices =>
      obtain ⟨inside, ⟨⟩⟩ := Option.ite_none_right_eq_some.mp read
      exact inside
    | str | optStr | optSecret =>
      cases read
      rfl
  validate_text kind v t has text := by
    cases v with
    | none => cases text
    | bool b =>
      cases text
      cases kind with
      | bool => cases b <;> rfl
      | _ => cases has
    | int n =>
      cases text
      have back : (String.ofList n.repr.toList).toInt?.map Value.int = some (.int n) := by
        rw [String.ofList_toList, Int.toInt?_repr]
        rfl
      cases kind with
      | int => exact back
      | _ => cases has
    | float x =>
      cases text
      cases kind with
      | float | optFloat => exact congrArg (Option.map Value.float) (readFloat_floatText x)
      | _ => cases has
    | str s =>
      cases text
      cases kind with
      | literal choices => exact if_pos has
      | str | optStr => rfl
      | _ => cases has
    | secret s =>
      cases text
      cases kind with
      | optSecret => rfl
      | _ => cases has

end EnvLines

end Settings

end RFObserver
