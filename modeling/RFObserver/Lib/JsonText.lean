import Mathlib.Data.Char
import Mathlib.Tactic

/-! JSON texts: a reader of any JSON value, and the text of an object of
strings in ASCII, which reads back as that object. -/

namespace JsonText

inductive Json
  | null
  | bool (value : Bool)
  | number (text : List Char)
  | string (text : List Char)
  | array (items : List Json)
  | object (members : List (List Char × Json))

section Strings

def hexChar (d : Nat) : Char := if d % 16 < 10 then Char.ofNat (48 + d % 16) else Char.ofNat (87 + d % 16)

def hexValue (c : Char) : Option Nat :=
  let n := c.toNat
  if 48 ≤ n ∧ n < 58 then some (n - 48)
  else if 97 ≤ n ∧ n < 103 then some (n - 87)
  else if 65 ≤ n ∧ n < 71 then some (n - 55)
  else none

def hex4 (n : Nat) : List Char := [hexChar (n / 4096), hexChar (n / 256), hexChar (n / 16), hexChar n]

def readHex4 : List Char → Option (Nat × List Char)
  | a :: b :: c :: d :: t =>
    (hexValue a).bind fun a => (hexValue b).bind fun b => (hexValue c).bind fun c => (hexValue d).map fun d =>
      (a * 4096 + b * 256 + c * 16 + d, t)
  | _ => none

/-- The escapes of one letter. -/
def shortEscapes : List (Char × Char) :=
  [('"', '"'), ('\\', '\\'), ('/', '/'), ('\x08', 'b'), ('\x0c', 'f'), ('\n', 'n'), ('\r', 'r'), ('\t', 't')]

/-- A character of a string as ASCII; beyond the first plane as two surrogates. -/
def escapeChar (c : Char) : List Char :=
  let n := c.toNat
  if c = '"' then ['\\', '"'] else if c = '\\' then ['\\', '\\'] else if c = '\n' then ['\\', 'n']
  else if c = '\r' then ['\\', 'r'] else if c = '\t' then ['\\', 't'] else if c = '\x0c' then ['\\', 'f']
  else if c = '\x08' then ['\\', 'b']
  else if 32 ≤ n ∧ n < 127 then [c]
  else if n < 65536 then '\\' :: 'u' :: hex4 n
  else '\\' :: 'u' :: hex4 (55296 + (n - 65536) / 1024) ++ '\\' :: 'u' :: hex4 (56320 + (n - 65536) % 1024)

def quote (s : List Char) : List Char := '"' :: s.flatMap escapeChar ++ ['"']

/-- What stands after `\u`: one unit, or a high and a low surrogate. -/
def readUnicode (t : List Char) : Option (Char × List Char) :=
  (readHex4 t).bind fun (n, t) =>
    if n < 55296 ∨ 57344 ≤ n then some (Char.ofNat n, t)
    else match t with
      | '\\' :: 'u' :: t => (readHex4 t).bind fun (m, t) =>
        if n < 56320 ∧ 56320 ≤ m ∧ m < 57344 then some (Char.ofNat (65536 + (n - 55296) * 1024 + (m - 56320)), t) else none
      | _ => none

def readEscape : List Char → Option (Char × List Char)
  | [] => none
  | c :: t => if c = 'u' then readUnicode t else ((shortEscapes.map Prod.swap).lookup c).map fun x => (x, t)

/-- A string up to its closing quote. -/
def readString : Nat → List Char → Option (List Char × List Char)
  | 0, _ | _, [] => none
  | fuel + 1, c :: t =>
    if c = '"' then some ([], t)
    else if c = '\\' then (readEscape t).bind fun (x, t) => (readString fuel t).map fun (s, t) => (x :: s, t)
    else if c.toNat < 32 then none
    else (readString fuel t).map fun (s, t) => (c :: s, t)

theorem hexValue_hexChar (d : Nat) : hexValue (hexChar d) = some (d % 16) := by
  have small : d % 16 < 16 := Nat.mod_lt _ (by omega)
  unfold hexChar
  interval_cases d % 16 <;> rfl

theorem readHex4_hex4 {n : Nat} (small : n < 65536) (t : List Char) : readHex4 (hex4 n ++ t) = some (n, t) := by
  simp only [hex4, List.cons_append, List.nil_append, readHex4, hexValue_hexChar, Option.bind_some, Option.map_some,
    Option.some.injEq, Prod.mk.injEq, and_true]
  omega

theorem scalar (c : Char) : c.toNat < 55296 ∨ 57343 < c.toNat ∧ c.toNat < 1114112 := c.valid

theorem readUnicode_escape {c : Char} (basic : c.toNat < 65536) (t : List Char) :
    readUnicode (hex4 c.toNat ++ t) = some (c, t) := by
  have unit : c.toNat < 55296 ∨ 57344 ≤ c.toNat := by
    have := scalar c
    omega
  simp only [readUnicode, readHex4_hex4 basic, Option.bind_some, unit, if_true, Char.ofNat_toNat]

theorem readUnicode_pair {h l : Nat} (high : 55296 ≤ h ∧ h < 56320) (low : 56320 ≤ l ∧ l < 57344) (t : List Char) :
    readUnicode (hex4 h ++ '\\' :: 'u' :: (hex4 l ++ t)) =
      some (Char.ofNat (65536 + (h - 55296) * 1024 + (l - 56320)), t) := by
  have first := readHex4_hex4 (n := h) (by omega)
  have second := readHex4_hex4 (n := l) (by omega) t
  have pair : ¬ (h < 55296 ∨ 57344 ≤ h) := by omega
  simp only [readUnicode, first, Option.bind_some, pair, if_false, second, high.2, low, and_self, if_true]

theorem readUnicode_surrogates {c : Char} (beyond : 65536 ≤ c.toNat) (t : List Char) :
    readUnicode (hex4 (55296 + (c.toNat - 65536) / 1024) ++
      '\\' :: 'u' :: (hex4 (56320 + (c.toNat - 65536) % 1024) ++ t)) = some (c, t) := by
  have := scalar c
  obtain ⟨n, is_n⟩ := Nat.exists_eq_add_of_le beyond
  have whole : 65536 + (55296 + n / 1024 - 55296) * 1024 + (56320 + n % 1024 - 56320) = c.toNat := by omega
  have offset : c.toNat - 65536 = n := by omega
  rw [offset, readUnicode_pair (by omega) (by omega), whole, Char.ofNat_toNat]

theorem readString_escapeChar (fuel : Nat) (c : Char) (t : List Char) :
    readString (fuel + 1) (escapeChar c ++ t) = (readString fuel t).map fun (s, t) => (c :: s, t) := by
  unfold escapeChar
  by_cases quote : c = '"'
  · subst quote
    rfl
  by_cases slash : c = '\\'
  · subst slash
    rfl
  by_cases line : c = '\n'
  · subst line
    rfl
  by_cases back : c = '\r'
  · subst back
    rfl
  by_cases tab : c = '\t'
  · subst tab
    rfl
  by_cases feed : c = '\x0c'
  · subst feed
    rfl
  by_cases erase : c = '\x08'
  · subst erase
    rfl
  simp only [quote, slash, line, back, tab, feed, erase, if_false]
  by_cases plain : 32 ≤ c.toNat ∧ c.toNat < 127
  · have printable : ¬ c.toNat < 32 := by omega
    simp [plain, readString, quote, slash, printable]
  · rw [if_neg plain]
    by_cases basic : c.toNat < 65536
    · simp only [basic, if_true, List.cons_append, readString, readEscape,
        readUnicode_escape basic, Option.bind_some]
      rfl
    · have beyond := readUnicode_surrogates (Nat.not_lt.mp basic) t
      simp only [basic, if_false, List.cons_append, List.append_assoc, readString, readEscape, beyond, Option.bind_some,
        if_true]
      rfl

/-- A quoted string reads back. -/
theorem readString_quote {s : List Char} {fuel : Nat} (enough : s.length < fuel) (t : List Char) :
    readString fuel (s.flatMap escapeChar ++ '"' :: t) = some (s, t) := by
  induction s generalizing fuel with
  | nil =>
    obtain ⟨k, rfl⟩ := Nat.exists_eq_add_of_lt enough
    simp [readString]
  | cons c s ih =>
    obtain ⟨k, rfl⟩ := Nat.exists_eq_succ_of_ne_zero (Nat.ne_zero_of_lt enough)
    have rest := @ih k (by simpa using enough)
    rw [List.flatMap_cons, List.append_assoc, readString_escapeChar, rest]
    rfl

end Strings

section Values

/-- The text after blanks, tabs and line ends. -/
def skip (t : List Char) : List Char := t.dropWhile fun c => c = ' ' || c = '\t' || c = '\n' || c = '\r'

def isDigit (c : Char) : Bool := 48 ≤ c.toNat && c.toNat < 58

/-- A sign, digits with no leading zero, a fraction and an exponent, each but the digits optional. -/
def isNumber (t : List Char) : Bool :=
  let t := if t.head? = some '-' then t.drop 1 else t
  let whole := t.takeWhile isDigit
  let t := t.dropWhile isDigit
  let fraction := (t.drop 1).takeWhile isDigit
  let fractional := t.head? = some '.'
  let t := if fractional then (t.drop 1).dropWhile isDigit else t
  let exponential := t.head? = some 'e' ∨ t.head? = some 'E'
  let e := t.drop 1
  let e := if e.head? = some '-' ∨ e.head? = some '+' then e.drop 1 else e
  whole ≠ [] && (whole.head? ≠ some '0' || whole.length = 1) && (!fractional || fraction ≠ []) &&
    if exponential then e ≠ [] && e.all isDigit else t = []

/-- Words, also those Python reads beyond the standard. -/
def words : List (List Char × Json) :=
  [(['n', 'u', 'l', 'l'], .null), (['t', 'r', 'u', 'e'], .bool true), (['f', 'a', 'l', 's', 'e'], .bool false),
   (['N', 'a', 'N'], .number ['N', 'a', 'N']),
   (['I', 'n', 'f', 'i', 'n', 'i', 't', 'y'], .number ['I', 'n', 'f', 'i', 'n', 'i', 't', 'y']),
   (['-', 'I', 'n', 'f', 'i', 'n', 'i', 't', 'y'], .number ['-', 'I', 'n', 'f', 'i', 'n', 'i', 't', 'y'])]

def readWord (t : List Char) : Option (Json × List Char) :=
  match words.find? fun w => w.1.isPrefixOf t with
  | some w => some (w.2, t.drop w.1.length)
  | none =>
    let parts := t.span fun c => isDigit c || c = '-' || c = '+' || c = '.' || c = 'e' || c = 'E'
    if isNumber parts.1 then some (.number parts.1, parts.2) else none

mutual

def readValue : Nat → List Char → Option (Json × List Char)
  | 0, _ | _, [] => none
  | fuel + 1, c :: t =>
    if c = '"' then (readString fuel t).map fun (s, t) => (.string s, t)
    else if c = '{' then
      if (skip t).head? = some '}' then some (.object [], (skip t).drop 1)
      else (readMembers fuel (skip t)).map fun (members, t) => (.object members, t)
    else if c = '[' then
      if (skip t).head? = some ']' then some (.array [], (skip t).drop 1)
      else (readItems fuel (skip t)).map fun (items, t) => (.array items, t)
    else readWord (c :: t)

/-- The members of an object, from the quote of the first key to the closing brace. -/
def readMembers : Nat → List Char → Option (List (List Char × Json) × List Char)
  | 0, _ => none
  | fuel + 1, t =>
    if t.head? = some '"' then
      (readString fuel (t.drop 1)).bind fun (key, t) =>
        if (skip t).head? = some ':' then
          (readValue fuel (skip ((skip t).drop 1))).bind fun (value, t) =>
            if (skip t).head? = some '}' then some ([(key, value)], (skip t).drop 1)
            else if (skip t).head? = some ',' then
              (readMembers fuel (skip ((skip t).drop 1))).map fun (members, t) => ((key, value) :: members, t)
            else none
        else none
    else none

def readItems : Nat → List Char → Option (List Json × List Char)
  | 0, _ => none
  | fuel + 1, t =>
    (readValue fuel t).bind fun (value, t) =>
      if (skip t).head? = some ']' then some ([value], (skip t).drop 1)
      else if (skip t).head? = some ',' then
        (readItems fuel (skip ((skip t).drop 1))).map fun (items, t) => (value :: items, t)
      else none

end

/-- The value of a whole text. -/
def loads (t : List Char) : Option Json :=
  match readValue (t.length + 1) (skip t) with
  | some (value, t) => if skip t = [] then some value else none
  | none => none

/-- The last member of a key, as a dictionary has it. -/
def Json.get : Json → List Char → Option Json
  | .object members, key => members.reverse.lookup key
  | _, _ => none

def Json.text : Json → Option (List Char)
  | .string s => some s
  | _ => none

/-- An object of strings. -/
def dumps (members : List (List Char × List Char)) : List Char :=
  '{' :: (List.intercalate [',', ' '] (members.map fun m => quote m.1 ++ ':' :: ' ' :: quote m.2)) ++ ['}']

theorem ite_ne {α : Type*} {p : Prop} [Decidable p] {a b c : α} (first : a ≠ c) (second : b ≠ c) :
    (if p then a else b) ≠ c := by
  split
  · exact first
  · exact second

theorem escapeChar_length (c : Char) : 1 ≤ (escapeChar c).length := by
  have nonempty : escapeChar c ≠ [] := by
    unfold escapeChar
    simp only
    repeat' apply ite_ne
    all_goals exact List.cons_ne_nil _ _
  exact List.length_pos_iff.mpr nonempty

theorem quote_length (s : List Char) : s.length + 2 ≤ (quote s).length := by
  have escaped : s.length ≤ (s.flatMap escapeChar).length := by
    induction s with
    | nil => exact le_rfl
    | cons c s ih =>
      have := escapeChar_length c
      simp only [List.flatMap_cons, List.length_append, List.length_cons]
      omega
  simp only [quote, List.length_cons, List.length_append, List.length_nil]
  omega

theorem skip_of_ne {c : Char} {t : List Char} (solid : c ≠ ' ' ∧ c ≠ '\t' ∧ c ≠ '\n' ∧ c ≠ '\r') : skip (c :: t) = c :: t := by
  simp [skip, solid]

/-- A member with its value, read from the quote of its key. -/
theorem readMembers_quote {key value : List Char} {fuel : Nat} (keyFuel : key.length < fuel)
    (valueFuel : value.length + 1 < fuel) (t : List Char) :
    readMembers (fuel + 1) (quote key ++ ':' :: ' ' :: (quote value ++ t)) =
      if (skip t).head? = some '}' then some ([(key, .string value)], (skip t).drop 1)
      else if (skip t).head? = some ',' then
        (readMembers fuel (skip ((skip t).drop 1))).map fun (members, t) => ((key, .string value) :: members, t)
      else none := by
  obtain ⟨k, rfl⟩ := Nat.exists_eq_add_of_lt valueFuel
  have first := readString_quote keyFuel (':' :: ' ' :: (quote value ++ t))
  have second := @readString_quote value (value.length + 1 + k) (by omega) t
  have colon := skip_of_ne (c := ':') (t := ' ' :: (quote value ++ t)) (by decide)
  have blank : skip (' ' :: (quote value ++ t)) = quote value ++ t := by
    simp [skip, quote]
  have read : readValue (value.length + 1 + k + 1) (quote value ++ t) = some (.string value, t) := by
    simp only [quote, List.cons_append, List.append_assoc, List.nil_append, readValue, if_true, second, Option.map_some]
  rw [readMembers, quote, List.cons_append, List.cons_append, List.append_assoc, List.head?_cons, if_pos rfl,
    List.drop_succ_cons, List.drop_zero, List.cons_append, List.nil_append, first]
  simp only [Option.bind_some, colon, List.head?_cons, if_true, List.drop_succ_cons, List.drop_zero, blank, read]

theorem intercalate_cons {m n : List Char} {l : List (List Char)} (sep : List Char) :
    List.intercalate sep (m :: n :: l) = m ++ sep ++ List.intercalate sep (n :: l) := by
  simp [List.intercalate]

theorem readMembers_dumps {members : List (List Char × List Char)} {fuel : Nat} (some_member : members ≠ [])
    (enough : ((members.map fun m => m.1.length + m.2.length + 3).sum) ≤ fuel) (t : List Char) :
    readMembers fuel (List.intercalate [',', ' '] (members.map fun m => quote m.1 ++ ':' :: ' ' :: quote m.2) ++ '}' :: t) =
      some (members.map fun m => (m.1, .string m.2), t) := by
  induction members generalizing fuel with
  | nil => exact absurd rfl some_member
  | cons m members ih =>
    simp only [List.map_cons, List.sum_cons] at enough
    obtain ⟨k, rfl⟩ := Nat.exists_eq_succ_of_ne_zero (by omega : fuel ≠ 0)
    have step := @readMembers_quote m.1 m.2 k (by omega) (by omega)
    cases members with
    | nil =>
      have close := skip_of_ne (c := '}') (t := t) (by decide)
      simp only [List.map_cons, List.map_nil, List.intercalate_singleton, List.append_assoc, List.cons_append, step, close,
        List.head?_cons, if_true, List.drop_succ_cons, List.drop_zero]
    | cons n members =>
      have rest := @ih k (by simp) (by omega)
      have comma : ∀ u, skip (',' :: u) = ',' :: u := fun u => skip_of_ne (by decide)
      have blank : ∀ u, skip (' ' :: (List.intercalate [',', ' '] ((n :: members).map fun m =>
          quote m.1 ++ ':' :: ' ' :: quote m.2) ++ u)) = List.intercalate [',', ' '] ((n :: members).map fun m =>
          quote m.1 ++ ':' :: ' ' :: quote m.2) ++ u := by
        intro u
        cases members <;> simp [skip, quote, List.intercalate]
      simp only [List.map_cons] at rest blank ⊢
      rw [intercalate_cons]
      simp only [List.append_assoc, List.cons_append, List.nil_append, step, comma, List.head?_cons, List.drop_succ_cons,
        List.drop_zero, blank, rest, Option.map_some]
      rfl

theorem members_length (members : List (List Char × List Char)) :
    ((members.map fun m => m.1.length + m.2.length + 3).sum) ≤
      (List.intercalate [',', ' '] (members.map fun m => quote m.1 ++ ':' :: ' ' :: quote m.2)).length := by
  induction members with
  | nil => simp
  | cons m members ih =>
    have key := quote_length m.1
    have value := quote_length m.2
    cases members with
    | nil =>
      simp only [List.map_cons, List.map_nil, List.sum_singleton, List.intercalate_singleton, List.length_append,
        List.length_cons]
      omega
    | cons n members =>
      simp only [List.map_cons, List.sum_cons] at ih ⊢
      rw [intercalate_cons]
      simp only [List.length_append, List.length_cons, List.length_nil] at ih ⊢
      omega

/-- The text of an object of strings reads back as that object. -/
theorem loads_dumps {members : List (List Char × List Char)} (some_member : members ≠ []) :
    loads (dumps members) = some (.object (members.map fun m => (m.1, .string m.2))) := by
  have enough := members_length members
  have read := fun fuel more => @readMembers_dumps members fuel some_member more []
  have quoted : ∃ rest, List.intercalate [',', ' '] (members.map fun m => quote m.1 ++ ':' :: ' ' :: quote m.2) =
      '"' :: rest := by
    match members with
    | [] => exact absurd rfl some_member
    | [m] => exact ⟨_, by simp only [List.map_cons, List.map_nil, List.intercalate_singleton, quote, List.cons_append]; rfl⟩
    | m :: n :: rest => exact ⟨_, by simp only [List.map_cons, intercalate_cons, quote, List.cons_append]; rfl⟩
  unfold loads dumps
  generalize List.intercalate [',', ' '] (members.map fun m => quote m.1 ++ ':' :: ' ' :: quote m.2) = text at *
  obtain ⟨rest, rfl⟩ := quoted
  have brace : skip ('{' :: '"' :: (rest ++ ['}'])) = '{' :: '"' :: (rest ++ ['}']) := skip_of_ne (by decide)
  have members_read := read (rest.length + 1 + 1 + 1) (by
    simp only [List.length_cons] at enough
    omega)
  simp only [List.cons_append] at members_read ⊢
  rw [brace, readValue]
  simp [members_read, skip]

end Values

end JsonText
