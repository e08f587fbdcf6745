import RFObserver.Fleet.Detections
import RFObserver.Lib.Keyset
import RFObserver.Web.ConfigRoutes

/-! A sensor's own lists of detections, newest first. -/

namespace RFObserver
open IsoTime CappedPages

/-- The detections of a sensor; an id is the primary key. -/
structure DetectionTable where
  rows : List Detection
  distinct : (rows.map Detection.id).Nodup
  stored : ∀ d ∈ rows, Storable d.startTime

/-- `start_time DESC, id DESC` -/
def Detection.order (d : Detection) : (List Char ×ₗ ℕ)ᵒᵈ := OrderDual.toDual (toLex (utcText d.startTime, d.id))

/-- The first `limit` rows in their order. -/
def newestDetections (limit : Nat) (rows : List Detection) : List Detection :=
  (Keyset.sorted Detection.order rows).take limit

namespace DetectionRoutes

inductive ListError
  | notConnected
  | invalidTime
  | overflow
  deriving DecidableEq

def digit (c : Char) : Bool := (digitValue c).isSome

/-- The first seconds with a fraction get six digits of it. -/
def sixDigits : List Char → List Char
  | [] => []
  | c :: t =>
    if ((c :: t).take 10).map (fun c => if digit c then '0' else c) = "00:00:00.0".toList then
      (c :: t).take 9 ++ (((c :: t).drop 9).takeWhile digit ++ "000000".toList).take 6 ++ ((c :: t).drop 9).dropWhile digit
    else c :: sixDigits t

/-- A Start or Stop of a request; nothing is no bound. -/
def optUtcDt (raw : List Char) : Except ListError (Option DateTime) :=
  let text := Settings.strip raw
  if text = [] then .ok none
  else
    match fromisoformat (sixDigits
      (if text.getLast? = some 'Z' ∨ text.getLast? = some 'z' then text.dropLast ++ ['+', '0', '0', ':', '0', '0'] else text)) with
    | none => .error .invalidTime
    | some t =>
      if t.offset = none then .ok (some (Ranges.asUtc t))
      else
        match if 0 ≤ t.instant then DateTime.ofWall t.instant.toNat (some 0) else none with
        | none => .error .overflow
        | some utc => .ok (some utc)

/-- What the fleet asks of a sensor, beside the range. -/
def sensorFilter (attributed : Option Bool) (model : Option String) : DetectionFilter :=
  ⟨none, none, ⟨none, none, none⟩, none, none, attributed, none, model.filter (· ≠ "")⟩

def detectionsJson (limit : Nat) (since until_ : List Char) (filter : DetectionFilter) (db : Option DetectionTable) :
    List Detection :=
  match db with
  | none => []
  | some table => newestDetections limit (Ranges.detectionsJson since until_ filter table.rows)

/-- What the Detections page asks for, beside the range. -/
structure ListQuery where
  since : List Char
  limit : ℤ
  model : Option String
  status : Option String
  durationMin : Option ℚ
  durationMax : Option ℚ

/-- The clamped limit of a page. -/
def pageLimit (limit : ℤ) : Nat := (max 1 (min limit 500)).toNat

def ListQuery.filter (q : ListQuery) : DetectionFilter :=
  ⟨none, none, ⟨none, none, none⟩, q.durationMin, q.durationMax, none, q.status.filter (· ≠ ""), q.model.filter (· ≠ "")⟩

def detectionsList (sensor : SensorMeta) (db : Option DetectionTable) (q : ListQuery) (until_ : List Char) :
    Except ListError DetectionPage :=
  match db with
  | none => .error .notConnected
  | some table =>
    (optUtcDt q.since).bind fun since => (optUtcDt until_).bind fun until_ =>
      let limit := pageLimit q.limit
      -- a query that fails raises; with times in UTC it does not
      let rows := newestDetections limit ((queryDetections q.filter since until_ table.rows).getD [])
      .ok (DetectionPage.of (merge [(sensor, rows)] limit) limit [])

end DetectionRoutes

section Fraction

open DetectionRoutes

/-- A text whose fractions have six digits stays as it is. -/
theorem sixDigits_eq {t : List Char}
    (six : ∀ pre rest, t = pre ++ '.' :: rest → (rest.takeWhile digit).length = 6) : sixDigits t = t := by
  induction t with
  | nil => rfl
  | cons c t ih =>
    have tail := ih fun pre rest split => six (c :: pre) rest (by rw [split, List.cons_append])
    rw [sixDigits]
    split
    case isFalse => rw [tail]
    case isTrue shape =>
      have dot : (c :: t)[8]? = some '.' := by
        have masked := congrArg (·[8]?) shape
        simp only [List.getElem?_map, List.getElem?_take_of_lt (show 8 < 10 by omega)] at masked
        obtain ⟨d, at_, isDot⟩ := Option.map_eq_some_iff.mp (masked.trans (by rfl : _ = some '.'))
        by_cases isDigit : digit d
        · rw [if_pos isDigit] at isDot
          exact absurd isDot (by decide)
        · rw [if_neg isDigit] at isDot
          rw [at_, isDot]
      obtain ⟨bound, atDot⟩ := List.getElem?_eq_some_iff.mp dot
      have split : c :: t = (c :: t).take 8 ++ '.' :: (c :: t).drop 9 := by
        rw [← atDot, ← List.drop_eq_getElem_cons bound, List.take_append_drop]
      rw [List.take_append_of_le_length (by rw [six _ _ split]), List.take_of_length_le (six _ _ split).le,
        List.append_assoc, List.takeWhile_append_dropWhile, List.take_append_drop]

theorem dot_notMem_digits {w n : Nat} : '.' ∉ digits w n := by
  intro member
  induction w with
  | zero => cases member
  | succ w ih =>
    rcases List.mem_cons.mp member with same | later
    · have value := digitChar_toNat (n / 10 ^ w)
      rw [← same] at value
      have code : ('.' : Char).toNat = 46 := rfl
      omega
    · exact ih later

theorem digit_digits {w n : Nat} : ∀ c ∈ digits w n, digit c = true := by
  intro c member
  induction w with
  | zero => cases member
  | succ w ih =>
    rcases List.mem_cons.mp member with rfl | later
    · rw [digit, digitValue_digitChar]
      rfl
    · exact ih later

theorem sixDigits_isoformat {t : DateTime} (utc : t.offset = some 0) : sixDigits t.isoformat = t.isoformat := by
  refine sixDigits_eq fun pre rest split => ?_
  have zone : DateTime.zoneText t.offset = "+00:00".toList := by
    rw [utc]
    decide
  have noDot : '.' ∉ t.head := by simp [DateTime.head, dot_notMem_digits]
  rw [DateTime.isoformat, zone, DateTime.fraction] at split
  by_cases whole : t.micro = 0
  · rw [if_pos whole, List.append_nil] at split
    have member : '.' ∈ t.head ++ "+00:00".toList := split ▸ List.mem_append_right _ List.mem_cons_self
    rcases List.mem_append.mp member with inHead | inZone
    · exact absurd inHead noDot
    · exact absurd inZone (by decide)
  · have noDot' : '.' ∉ digits 6 t.micro ++ "+00:00".toList := by
      rw [List.mem_append]
      rintro (inDigits | inZone)
      · exact dot_notMem_digits inDigits
      · exact absurd inZone (by decide)
    rw [if_neg whole, List.append_assoc, List.cons_append] at split
    obtain ⟨-, -, rfl⟩ := (List.append_cons_inj_of_notMem noDot noDot').mp split
    have stop : "+00:00".toList.takeWhile digit = [] := by decide
    rw [List.takeWhile_append_of_pos digit_digits, stop, List.append_nil, digits_length]

theorem isoformat_ends {t : DateTime} (utc : t.offset = some 0) :
    t.isoformat.getLast? = some '0' ∧ ∃ c ∈ t.isoformat.head?, digit c = true := by
  constructor
  · have zone : DateTime.zoneText t.offset = "+00:00".toList := by
      rw [utc]
      decide
    rw [DateTime.isoformat, zone, List.getLast?_append_of_ne_nil _ (by decide)]
    rfl
  · rw [DateTime.isoformat_eq, digits, List.cons_append]
    exact ⟨_, rfl, digit_digits (w := 4) (n := t.date.year) _ List.mem_cons_self⟩

theorem not_isSpace_of_digit {c : Char} (isDigit : digit c = true) : Settings.isSpace c = false := by
  have range : 48 ≤ c.toNat ∧ c.toNat < 58 := by
    unfold digit digitValue at isDigit
    split at isDigit
    case isTrue range => exact range
    case isFalse => nomatch isDigit
  simp only [Settings.isSpace, decide_eq_false_iff_not]
  omega

/-- The time that a page names for the next one. -/
theorem optUtcDt_isoformat {t : DateTime} (utc : t.offset = some 0) : optUtcDt t.isoformat = .ok (some t) := by
  obtain ⟨last, c, first, isDigit⟩ := isoformat_ends utc
  have stripped : Settings.strip t.isoformat = t.isoformat := by
    refine Settings.strip_eq (fun d isFirst => ?_) fun d isLast => ?_
    · cases Option.some.inj (first.symm.trans isFirst)
      exact not_isSpace_of_digit isDigit
    · cases Option.some.inj (last.symm.trans isLast)
      decide
  have some_ : t.isoformat ≠ [] := by
    intro empty
    rw [empty] at last
    nomatch last
  have noZ : ¬ (t.isoformat.getLast? = some 'Z' ∨ t.isoformat.getLast? = some 'z') := by
    rw [last]
    decide
  have aware : ¬ t.offset = none := by rw [utc]; nofun
  have same := t.ofWall_wall
  rw [utc] at same
  have positive : 0 ≤ t.instant := by rw [instant_utc utc]; exact Int.natCast_nonneg _
  have wall : t.instant.toNat = t.wall := by rw [instant_utc utc, Int.toNat_natCast]
  unfold optUtcDt
  simp only [stripped, if_neg some_, if_neg noZ, sixDigits_isoformat utc, DateTime.fromisoformat_isoformat, if_neg aware,
    if_pos positive, wall, same]

theorem optDt_isoformat {t : DateTime} (utc : t.offset = some 0) : Ranges.optDt t.isoformat = some t := by
  obtain ⟨last, -⟩ := isoformat_ends utc
  have some_ : t.isoformat ≠ [] := by
    intro empty
    rw [empty] at last
    nomatch last
  have noZ : ¬ (t.isoformat.getLast? = some 'Z' ∨ t.isoformat.getLast? = some 'z') := by
    rw [last]
    decide
  rw [Ranges.optDt, if_neg some_, if_neg noZ, DateTime.fromisoformat_isoformat]

/-- A Start or Stop that is given is in UTC. -/
theorem optUtcDt_utc {raw : List Char} {t : DateTime} (read : optUtcDt raw = .ok (some t)) : t.offset = some 0 := by
  unfold optUtcDt at read
  simp only at read
  split at read
  case isTrue => nomatch read
  case isFalse =>
    split at read
    case h_1 => nomatch read
    case h_2 parsed _ =>
      split at read
      case isTrue naive =>
        cases read
        rw [Ranges.asUtc, if_pos naive]
      case isFalse =>
        split at read
        case h_1 => nomatch read
        case h_2 shown made =>
          cases read
          obtain ⟨-, made⟩ := Option.ite_none_right_eq_some.mp made
          exact (DateTime.wall_ofWall made).2

end Fraction

section Order

variable {rows : List Detection}

theorem utcText_le {x y : ℚ} (storable : Storable x) (storable' : Storable y) (le : utcText x ≤ utcText y) : x ≤ y := by
  obtain ⟨t, utc, rfl⟩ := storable'
  rw [utcText_timestamp utc] at le
  by_contra more
  exact absurd ((lt_utcText storable utc).mpr (not_le.mp more)) (not_lt.mpr le)

theorem order_nodup (distinct : (rows.map Detection.id).Nodup) : (rows.map Detection.order).Nodup := by
  refine List.pairwise_map.mpr ((List.pairwise_map.mp distinct).imp fun ids same => ids ?_)
  exact congrArg (fun key => (ofLex (OrderDual.ofDual key)).2) same

theorem DetectionTable.descends (table : DetectionTable) (p : Detection → Bool) :
    Descends Detection.startTime (Keyset.sorted Detection.order (table.rows.filter p)) := by
  refine (Keyset.sorted_lt (order_nodup (Keyset.map_filter_nodup p table.distinct))).imp_of_mem ?_
  intro a b inA inB less
  have stored : ∀ d ∈ Keyset.sorted Detection.order (table.rows.filter p), Storable d.startTime := fun d member =>
    table.stored d (List.mem_of_mem_filter (Keyset.mem_sorted.mp member))
  have texts : utcText b.startTime ≤ utcText a.startTime := by
    rcases Prod.Lex.toLex_lt_toLex.mp (OrderDual.toDual_lt_toDual.mp less) with lt | ⟨eq, -⟩
    · exact lt.le
    · exact eq.le
  exact utcText_le (stored b inB) (stored a inA) texts

/-- The newest rows before a time are the first of those in the order. -/
theorem DetectionTable.newest_before (table : DetectionTable) (limit : Nat) (p : Detection → Bool) (u : ℚ) :
    newestDetections limit (table.rows.filter fun d => p d && decide (d.startTime < u)) =
      (below Detection.startTime u (Keyset.sorted Detection.order (table.rows.filter p))).take limit := by
  have distinct := order_nodup (Keyset.map_filter_nodup p table.distinct)
  rw [newestDetections, below, ← Keyset.sorted_filter _ distinct, List.filter_filter]
  congr 3
  funext d
  rw [Bool.and_comm]

end Order

end RFObserver
