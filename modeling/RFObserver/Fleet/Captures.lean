import RFObserver.Fleet.Detections
import RFObserver.Lib.Dict
import RFObserver.Lib.HeadMerge
import RFObserver.Lib.OptionList

/-! Every sensor's captures as one list, newest first, and the cursor of a page:
how far into each sensor's list the fleet has shown. -/

namespace RFObserver
open IsoTime OptionList

/-- An entry of a sensor's list. -/
structure ListedCapture where
  filename : String
  startTime : Option (List Char)
  deriving DecidableEq

/-- An entry without a time sorts last. -/
def ListedCapture.startKey (e : ListedCapture) : WithBot ℚ :=
  match e.startTime.bind fromisoformat with
  | none => ⊥
  | some t => ((Ranges.asUtc t).timestamp : ℚ)

/-- A capture, tagged with its sensor. -/
structure FleetCapture where
  sensor : SensorMeta
  capture : ListedCapture
  deriving DecidableEq

/-- A sensor, its next captures and its offset. -/
structure SensorPage where
  sensor : SensorMeta
  entries : List ListedCapture
  offset : Nat

/-- Up to `limit` captures, and each sensor's new offset. -/
def mergePage (perSensor : List SensorPage) (limit : Nat) : List FleetCapture × List (String × Nat) :=
  let out := HeadMerge.merge ListedCapture.startKey limit (perSensor.map SensorPage.entries)
  (out.filterMap fun r => (perSensor[r.1]?).map fun p => ⟨p.sensor, r.2⟩,
    perSensor.mapIdx fun i p => (p.sensor.id, p.offset + (HeadMerge.taken i out).length))

namespace FleetCursor

/-- The zeros of the decimal digits of Unicode; the other nine follow each. -/
def decimalZeros : List Nat :=
  [0x30, 0x660, 0x6f0, 0x7c0, 0x966, 0x9e6, 0xa66, 0xae6, 0xb66, 0xbe6, 0xc66, 0xce6, 0xd66, 0xde6, 0xe50, 0xed0, 0xf20,
    0x1040, 0x1090, 0x17e0, 0x1810, 0x1946, 0x19d0, 0x1a80, 0x1a90, 0x1b50, 0x1bb0, 0x1c40, 0x1c50, 0xa620, 0xa8d0, 0xa900,
    0xa9d0, 0xa9f0, 0xaa50, 0xabf0, 0xff10, 0x104a0, 0x10d30, 0x11066, 0x110f0, 0x11136, 0x111d0, 0x112f0, 0x11450, 0x114d0,
    0x11650, 0x116c0, 0x11730, 0x118e0, 0x11950, 0x11c50, 0x11d50, 0x11da0, 0x16a60, 0x16ac0, 0x16b50, 0x1d7ce, 0x1d7d8,
    0x1d7e2, 0x1d7ec, 0x1d7f6, 0x1e140, 0x1e2f0, 0x1e950, 0x1fbf0]

/-- The digits that are not decimal: superscripts, circled ones and such. -/
def otherDigits : List (Nat × Nat) :=
  [(0xb2, 0xb3), (0xb9, 0xb9), (0x1369, 0x1371), (0x19da, 0x19da), (0x2070, 0x2070), (0x2074, 0x2079), (0x2080, 0x2089),
    (0x2460, 0x2468), (0x2474, 0x247c), (0x2488, 0x2490), (0x24ea, 0x24ea), (0x24f5, 0x24fd), (0x24ff, 0x24ff),
    (0x2776, 0x277e), (0x2780, 0x2788), (0x278a, 0x2792), (0x10a40, 0x10a43), (0x10e60, 0x10e68), (0x11052, 0x1105a),
    (0x1f100, 0x1f10a)]

def decimalValue (c : Char) : Option Nat :=
  (decimalZeros.find? fun first => first ≤ c.toNat ∧ c.toNat < first + 10).map fun first => c.toNat - first

/-- `str.isdigit` of one character. -/
def isDigit (c : Char) : Bool := (decimalValue c).isSome ∨ ∃ range ∈ otherDigits, range.1 ≤ c.toNat ∧ c.toNat ≤ range.2

/-- The most digits that `int` reads and `str` writes. -/
def maxStrDigits : Nat := 4300

/-- `int` of a text of digits, which raises if one is not decimal. -/
def int (num : List Char) : Option Nat :=
  if num.length ≤ maxStrDigits then (num.mapM decimalValue).map fun ds => ds.foldl (fun n d => 10 * n + d) 0 else none

/-- `str` of a number. -/
def str (n : Nat) : Option (List Char) :=
  if (Nat.toDigits 10 n).length ≤ maxStrDigits then some (Nat.toDigits 10 n) else none

/-- What stands before and after the last `c`. -/
def rpartition (c : Char) (t : List Char) : List Char × List Char :=
  let num := (t.reverse.takeWhile (· ≠ c)).reverse
  ((t.take (t.length - num.length)).dropLast, num)

/-- The entry of one part, if it is well formed. -/
def parsePart (part : List Char) : Option (Option (String × Nat)) :=
  let (sid, num) := rpartition ':' part
  if sid ≠ [] ∧ num ≠ [] ∧ num.all isDigit = true then (int num).map fun n => some (String.ofList sid, n) else some none

def setPart (out : Dict String Nat) : Option (String × Nat) → Dict String Nat
  | none => out
  | some (sid, n) => out.modify sid n fun _ => n

/-- The offsets of `"a:3,b:0"`; none where a number raises. -/
def parseCursor (raw : Option (List Char)) : Option (Dict String Nat) :=
  ((raw.getD []).splitOn ',').foldlM (fun out part => (parsePart part).map (setPart out)) Dict.empty

def formatCursor (cursor : List (String × Nat)) : Option (List Char) :=
  (cursor.mapM fun e => (str e.2).map fun n => e.1.toList ++ ':' :: n).map ([','].intercalate ·)

variable {sid num part : List Char} {n : Nat}

theorem decimalValue_digit {c : Char} (digit : c.isDigit = true) : decimalValue c = some (c.toNat - '0'.toNat) := by
  have range : 48 ≤ c.toNat ∧ c.toNat < 48 + 10 := by
    simp only [Char.isDigit, Bool.and_eq_true, decide_eq_true_eq, UInt32.le_iff_toNat_le] at digit
    exact ⟨digit.1, Nat.lt_succ_of_le digit.2⟩
  obtain ⟨others, zeros⟩ : ∃ others, decimalZeros = 48 :: others := ⟨_, rfl⟩
  have found : decimalZeros.find? (fun first => first ≤ c.toNat ∧ c.toNat < first + 10) = some 48 := by
    rw [zeros]
    exact List.find?_cons_of_pos (decide_eq_true range)
  rw [decimalValue, found]
  rfl

theorem isDigit_of_decimal {c : Char} (value : (decimalValue c).isSome) : isDigit c = true :=
  decide_eq_true (Or.inl value)

theorem mapM_decimalValue (all : ∀ c ∈ num, c.isDigit = true) :
    num.mapM decimalValue = some (num.map fun c => c.toNat - '0'.toNat) := by
  induction num with
  | nil => rfl
  | cons c num ih =>
    obtain ⟨first, rest⟩ := List.forall_mem_cons.mp all
    rw [List.mapM_cons, decimalValue_digit first, ih rest]
    rfl

/-- `int` reads what `str` writes. -/
theorem int_str (written : str n = some num) : int num = some n ∧ num ≠ [] ∧ (∀ c ∈ num, c.isDigit = true) := by
  obtain ⟨short, same⟩ := Option.ite_none_right_eq_some.mp written
  cases same
  have digits : ∀ c ∈ Nat.toDigits 10 n, c.isDigit = true := fun c member =>
    Nat.isDigit_of_mem_toDigits (by decide) (by decide) member
  refine ⟨?_, Nat.toDigits_ne_nil, digits⟩
  rw [int, if_pos short, mapM_decimalValue digits, Option.map_some, List.foldl_map, ← Nat.ofDigitChars_eq_foldl,
    Nat.ofDigitChars_ten_toDigits]

theorem rpartition_append {c : Char} (absent : c ∉ num) : rpartition c (sid ++ c :: num) = (sid, num) := by
  have after : ((sid ++ c :: num).reverse.takeWhile (· ≠ c)).reverse = num := by
    rw [List.reverse_append, List.reverse_cons, List.append_assoc, List.singleton_append,
      List.takeWhile_append_of_pos, List.takeWhile_cons_of_neg (by simp), List.append_nil, List.reverse_reverse]
    intro d member
    exact decide_eq_true fun same => absent (same ▸ List.mem_reverse.mp member)
  unfold rpartition
  simp only [after]
  have whole : (sid ++ c :: num).length - num.length = (sid ++ [c]).length := by
    simp only [List.length_append, List.length_cons, List.length_nil]
    omega
  have joined : sid ++ c :: num = (sid ++ [c]) ++ num := by rw [List.append_assoc, List.singleton_append]
  rw [whole, joined, List.take_left, List.dropLast_concat]

theorem parsePart_str (some_ : sid ≠ []) (written : str n = some num) :
    parsePart (sid ++ ':' :: num) = some (some (String.ofList sid, n)) := by
  obtain ⟨read, filled, digits⟩ := int_str written
  have absent : ':' ∉ num := fun member => absurd (digits _ member) (by decide)
  have all : num.all isDigit = true := List.all_eq_true.mpr fun c member =>
    isDigit_of_decimal (by rw [decimalValue_digit (digits c member)]; rfl)
  unfold parsePart
  simp only [rpartition_append absent]
  rw [if_pos ⟨some_, filled, all⟩, read, Option.map_some]

/-- The id before the last colon is part of the text. -/
theorem mem_rpartition {c d : Char} (member : d ∈ (rpartition c part).1) : d ∈ part :=
  List.mem_of_mem_take (List.mem_of_mem_dropLast member)

theorem parsePart_key {e : String × Nat} (read : parsePart part = some (some e)) :
    e.1.toList ≠ [] ∧ ∀ c ∈ e.1.toList, c ∈ part := by
  unfold parsePart at read
  simp only at read
  split at read
  case isTrue wellFormed =>
    obtain ⟨n, -, isEntry⟩ := Option.map_eq_some_iff.mp read
    cases Option.some.inj isEntry
    simp only [String.toList_ofList]
    exact ⟨wellFormed.1, fun c member => mem_rpartition member⟩
  case isFalse => nomatch Option.some.inj read

theorem not_mem_splitOn {c : Char} {t : List Char} : ∀ part ∈ t.splitOn c, c ∉ part := by
  induction t with
  | nil =>
    intro part member
    rw [List.mem_singleton.mp member]
    exact List.not_mem_nil
  | cons d t ih =>
    intro part member
    rw [List.splitOn_cons_eq_if_modifyHead] at member
    split at member
    case isTrue =>
      rcases List.mem_cons.mp member with rfl | later
      · exact List.not_mem_nil
      · exact ih part later
    case isFalse other =>
      cases parts : t.splitOn c with
      | nil => exact absurd parts (List.splitOn_ne_nil c t)
      | cons first rest =>
        rw [parts, List.modifyHead_cons] at member
        rcases List.mem_cons.mp member with rfl | later
        · rw [List.mem_cons]
          rintro (rfl | inFirst)
          · exact other (beq_self_eq_true _)
          · exact ih first (parts ▸ List.mem_cons_self) inFirst
        · exact ih part (parts ▸ List.mem_cons_of_mem _ later)

/-- An id that a cursor can carry. -/
def Plain (id : String) : Prop := id.toList ≠ [] ∧ ',' ∉ id.toList

section Fold

variable {parts : List (List Char)} {out d : Dict String Nat}

theorem foldlM_plain (noComma : ∀ part ∈ parts, ',' ∉ part) (old : ∀ e ∈ out.entries, Plain e.1)
    (read : parts.foldlM (fun out part => (parsePart part).map (setPart out)) out = some d) : ∀ e ∈ d.entries, Plain e.1 := by
  induction parts generalizing out with
  | nil =>
    cases Option.some.inj read
    exact old
  | cons part parts ih =>
    rw [List.foldlM_cons] at read
    obtain ⟨next, first, rest⟩ := Option.bind_eq_some_iff.mp read
    obtain ⟨entry, parsed, rfl⟩ := Option.map_eq_some_iff.mp first
    refine ih (fun p member => noComma p (List.mem_cons_of_mem _ member)) ?_ rest
    cases entry with
    | none => exact old
    | some e =>
      intro f member
      have keys : f.1 ∈ (setPart out (some e)).entries.map Prod.fst := List.mem_map_of_mem member
      rw [setPart, Dict.modify, GroupFold.put_keys] at keys
      have was : f.1 ∈ out.entries.map Prod.fst ∨ f.1 = e.1 := by
        split at keys
        case isTrue => exact Or.inl keys
        case isFalse => exact (List.mem_append.mp keys).imp_right List.mem_singleton.mp
      rcases was with inOut | same
      · obtain ⟨g, isIn, same⟩ := List.mem_map.mp inOut
        exact same ▸ old g isIn
      · obtain ⟨some_, within⟩ := parsePart_key parsed
        rw [same]
        exact ⟨some_, fun comma => noComma part List.mem_cons_self (within _ comma)⟩

/-- Parts that are well formed are read one after the other. -/
theorem foldlM_entries {cursor : List (String × Nat)}
    (read : List.Forall₂ (fun e part => parsePart part = some (some e)) cursor parts)
    (distinct : ((out.entries ++ cursor).map Prod.fst).Nodup) :
    ∃ d, parts.foldlM (fun out part => (parsePart part).map (setPart out)) out = some d ∧
      d.entries = out.entries ++ cursor := by
  induction read generalizing out with
  | nil => exact ⟨out, rfl, (List.append_nil _).symm⟩
  | @cons e part cursor parts first rest ih =>
    have new : e.1 ∉ out.entries.map Prod.fst := by
      rw [List.map_append, List.map_cons] at distinct
      intro old
      exact (List.nodup_append.mp distinct).2.2 _ old _ List.mem_cons_self rfl
    have entries : (setPart out (some e)).entries = out.entries ++ [e] := Dict.entries_modify_new new _ _
    have nodup : (((setPart out (some e)).entries ++ cursor).map Prod.fst).Nodup := by
      rw [entries, List.append_assoc, List.singleton_append]
      exact distinct
    obtain ⟨d, goes, its⟩ := ih nodup
    refine ⟨d, ?_, ?_⟩
    · rw [List.foldlM_cons, first]
      exact goes
    · rw [its, entries, List.append_assoc, List.singleton_append]

end Fold

/-- A cursor of plain ids reads back. -/
theorem parse_format {cursor : List (String × Nat)} {text : List Char} (distinct : (cursor.map Prod.fst).Nodup)
    (plain : ∀ e ∈ cursor, Plain e.1) (written : formatCursor cursor = some text) :
    ∃ d, parseCursor (some text) = some d ∧ d.entries = cursor := by
  obtain ⟨parts, mapped, rfl⟩ := Option.map_eq_some_iff.mp written
  have all := mapM_forall₂ mapped
  cases cursor with
  | nil =>
    cases all
    exact ⟨Dict.empty, rfl, rfl⟩
  | cons e cursor =>
    have each : List.Forall₂ (fun e part => parsePart part = some (some e) ∧ ',' ∉ part) (e :: cursor) parts := by
      refine ((List.forall₂_and_left _ _).mpr ⟨plain, all⟩).imp fun e part ⟨isPlain, isPart⟩ => ?_
      obtain ⟨num, isNum, rfl⟩ := Option.map_eq_some_iff.mp isPart
      obtain ⟨-, -, digits⟩ := int_str isNum
      refine ⟨?_, ?_⟩
      · rw [parsePart_str isPlain.1 isNum, String.ofList_toList]
      · rw [List.mem_append, List.mem_cons]
        rintro (inId | colon | inNum)
        · exact isPlain.2 inId
        · exact absurd colon (by decide)
        · exact absurd (digits _ inNum) (by decide)
    have noComma : ∀ part ∈ parts, ',' ∉ part := forall₂_right (each.imp fun e part both => both.2)
    have filled : parts ≠ [] := by
      cases all
      exact List.cons_ne_nil _ _
    unfold parseCursor
    rw [Option.getD_some, List.splitOn_intercalate ',' noComma filled]
    exact foldlM_entries (each.imp fun e part both => both.1) distinct

theorem str_isSome : (∃ text, str n = some text) ↔ n < 10 ^ maxStrDigits := by
  rw [← Nat.length_toDigits_le_iff (by decide) (by decide), str]
  constructor
  · rintro ⟨text, written⟩
    exact (Option.ite_none_right_eq_some.mp written).1
  · intro short
    exact ⟨_, if_pos short⟩

theorem format_isSome {cursor : List (String × Nat)} :
    (∃ text, formatCursor cursor = some text) ↔ ∀ e ∈ cursor, e.2 < 10 ^ maxStrDigits := by
  have part : ∀ e : String × Nat,
      (∃ text, (str e.2).map (fun n => e.1.toList ++ ':' :: n) = some text) ↔ e.2 < 10 ^ maxStrDigits := by
    intro e
    rw [← str_isSome]
    constructor
    · rintro ⟨text, written⟩
      obtain ⟨num, isNum, -⟩ := Option.map_eq_some_iff.mp written
      exact ⟨num, isNum⟩
    · rintro ⟨num, isNum⟩
      exact ⟨_, by rw [isNum, Option.map_some]⟩
  simp only [← part]
  rw [← mapM_isSome, formatCursor]
  constructor
  · rintro ⟨text, written⟩
    obtain ⟨parts, mapped, -⟩ := Option.map_eq_some_iff.mp written
    exact ⟨parts, mapped⟩
  · rintro ⟨parts, mapped⟩
    exact ⟨_, by rw [mapped, Option.map_some]⟩

/-- When a cursor reads back. -/
theorem round_trip_iff (cursor : Dict String Nat) :
    ((formatCursor cursor.entries).bind fun text => parseCursor (some text)) = some cursor ↔
      ∀ e ∈ cursor.entries, Plain e.1 ∧ e.2 < 10 ^ maxStrDigits := by
  constructor
  · intro same e member
    obtain ⟨text, written, read⟩ := Option.bind_eq_some_iff.mp same
    have none : ∀ e ∈ (Dict.empty : Dict String Nat).entries, Plain e.1 := fun e isIn => absurd isIn List.not_mem_nil
    refine ⟨foldlM_plain not_mem_splitOn none read e member, format_isSome.mp ⟨text, written⟩ e member⟩
  · intro plain
    obtain ⟨text, written⟩ := format_isSome.mpr fun e member => (plain e member).2
    obtain ⟨d, read, entries⟩ := parse_format cursor.nodup (fun e member => (plain e member).1) written
    rw [written, Option.bind_some, read]
    congr 1
    cases d
    cases cursor
    cases entries
    rfl

/-- The entries of the well-formed parts, with the malformed ones ignored. -/
def wellFormedParts (raw : Option (List Char)) : Dict String Nat :=
  ((raw.getD []).splitOn ',').foldl (fun out part => setPart out (parsePart part).join) Dict.empty

/-- A number of digits only is one that `int` reads. -/
def Readable (part : List Char) : Prop :=
  (rpartition ':' part).1 ≠ [] → (rpartition ':' part).2 ≠ [] → (∀ c ∈ (rpartition ':' part).2, isDigit c = true) →
    (rpartition ':' part).2.length ≤ maxStrDigits ∧ ∀ c ∈ (rpartition ':' part).2, (decimalValue c).isSome

theorem parsePart_isSome : (∃ e, parsePart part = some e) ↔ Readable part := by
  unfold parsePart Readable
  simp only
  split
  case isTrue wellFormed =>
    obtain ⟨some_, filled, digits⟩ := wellFormed
    constructor
    · rintro ⟨e, read⟩ - - -
      obtain ⟨n, isNum, -⟩ := Option.map_eq_some_iff.mp read
      obtain ⟨short, isNum⟩ := Option.ite_none_right_eq_some.mp isNum
      obtain ⟨values, mapped, -⟩ := Option.map_eq_some_iff.mp isNum
      exact ⟨short, fun c member => Option.isSome_iff_exists.mpr (mapM_isSome.mp ⟨values, mapped⟩ c member)⟩
    · intro readable
      obtain ⟨short, decimal⟩ := readable some_ filled (List.all_eq_true.mp digits)
      obtain ⟨values, mapped⟩ := mapM_isSome.mpr fun c member => Option.isSome_iff_exists.mp (decimal c member)
      exact ⟨_, by rw [int, if_pos short, mapped]; rfl⟩
  case isFalse malformed =>
    refine iff_of_true ⟨_, rfl⟩ fun some_ filled digits => absurd ⟨some_, filled, List.all_eq_true.mpr digits⟩ malformed

/-- When a cursor is read without raising, malformed parts ignored. -/
theorem parses_iff (raw : Option (List Char)) :
    parseCursor raw = some (wellFormedParts raw) ↔ ∀ part ∈ (raw.getD []).splitOn ',', Readable part := by
  simp only [← parsePart_isSome]
  unfold parseCursor wellFormedParts
  generalize (raw.getD []).splitOn ',' = parts
  generalize Dict.empty = out
  induction parts generalizing out with
  | nil => exact iff_of_true rfl nofun
  | cons part parts ih =>
    rw [List.forall_mem_cons, List.foldlM_cons, List.foldl_cons]
    cases parsed : parsePart part with
    | none => exact iff_of_false nofun fun all => nomatch all.1
    | some e =>
      rw [← ih]
      exact ⟨fun same => ⟨⟨e, rfl⟩, same⟩, fun both => both.2⟩

end FleetCursor

end RFObserver
