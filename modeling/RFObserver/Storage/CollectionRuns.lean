import Mathlib.Tactic
import RFObserver.Storage.Collection

namespace RFObserver

namespace CollectionStats

section Values

variable (rows pending : Rows) (h h' : ℤ) (f f' : Field) (x : ℚ)

theorem Row.value_add (row : Row) : Row.value (row.add f x) f' = Row.value row f' + if f = f' then x else 0 := by
  unfold Row.value Row.add
  rw [Dict.get?_modify]
  by_cases same : f = f'
  · rw [if_pos same, if_pos same, Option.getD_some]
  · rw [if_neg same, if_neg same, add_zero]

@[simp] theorem Rows.value_empty : Rows.value .empty h f = 0 := rfl

theorem Rows.value_modify (g : Row → Row) : Rows.value (rows.modify h .empty g) h' f =
    if h = h' then Row.value (g ((rows.get? h').getD .empty)) f else rows.value h' f := by
  unfold Rows.value
  rw [Dict.get?_modify]
  by_cases same : h = h'
  · rw [if_pos same, if_pos same, Option.getD_some]
  · rw [if_neg same, if_neg same]

theorem Rows.value_add : (pending.add h f x).value h' f' = pending.value h' f' + if h = h' ∧ f = f' then x else 0 := by
  unfold Rows.add
  rw [Rows.value_modify]
  by_cases same : h = h'
  · rw [if_pos same, Row.value_add, Rows.value]
    simp [same]
  · simp [same]

theorem Rows.value_addIf :
    (pending.addIf h f x).value h' f' = pending.value h' f' + if h = h' ∧ f = f' then x else 0 := by
  by_cases zero : x = 0
  · simp only [Rows.addIf, if_pos zero]
    rw [Rows.value_modify, zero, ite_self, add_zero]
    exact ite_self _
  · have same : pending.addIf h f x = pending.add h f x := by simp only [Rows.addIf, if_neg zero, Rows.add]
    rw [same, Rows.value_add]

/-- Only the row of an hour adds to it. -/
theorem Rows.sum_value : (rows.entries.map fun e => if e.1 = h then Row.value e.2 f else 0).sum = rows.value h f := by
  rw [Dict.sum_get? rows h fun row => Row.value row f, Rows.value]
  cases rows.get? h with
  | none => rfl
  | some row => rfl

theorem Row.sum_value (row : Row) : (row.entries.map fun e => if e.1 = f then e.2 else 0).sum = Row.value row f := by
  refine (Dict.sum_get? row f id).trans ?_
  rw [Row.value]
  cases row.get? f with
  | none => rfl
  | some x => rfl

/-- What is taken is what was pending. -/
theorem take_value : (take pending).1.value h f = pending.value h f := by
  unfold take Rows.value
  rw [Dict.get?_filter]
  cases found : pending.get? h with
  | none => rfl
  | some row =>
    by_cases none : row.entries.isEmpty = true
    · have empty : row = .empty := by
        obtain ⟨entries, nodup⟩ := row
        cases List.isEmpty_iff.mp none
        rfl
      rw [Option.filter_some, if_neg (by simp [none]), empty]
      rfl
    · rw [Option.filter_some, if_pos (by simpa using none)]

/-- Each figure taken is added to what is pending now. -/
theorem putBack_value : (putBack pending rows).value h f = pending.value h f + rows.value h f := by
  have row : ∀ (h' : ℤ) (xs : List (Field × ℚ)) (pending : Rows),
      (xs.foldl (fun pending x => pending.add h' x.1 x.2) pending).value h f =
        pending.value h f + if h' = h then (xs.map fun x => if x.1 = f then x.2 else 0).sum else 0 := by
    intro h' xs
    induction xs with
    | nil => simp
    | cons x xs ih =>
      intro pending
      rw [List.foldl_cons, ih, Rows.value_add, List.map_cons, List.sum_cons]
      by_cases here : h' = h
      · simp only [here, true_and, if_true, add_assoc]
      · simp only [here, false_and, if_false, add_zero]
  rw [putBack, ← Rows.sum_value rows]
  induction rows.entries generalizing pending with
  | nil => simp
  | cons e rest ih =>
    rw [List.foldl_cons, ih, row, Row.sum_value, List.map_cons, List.sum_cons, add_assoc]

end Values

section Table

/-- What is bound to an INTEGER column loses nothing. -/
def Whole (x : ℚ) : Prop := ∃ n : ℤ, x = n

theorem Whole.round {x : ℚ} (whole : Whole x) : (roundHalfEven x : ℚ) = x := by
  obtain ⟨n, rfl⟩ := whole
  rw [RoundHalfEven.eq_of_near (n := n) (by simp)]

theorem Whole.add {x y : ℚ} (whole : Whole x) (whole' : Whole y) : Whole (x + y) := by
  obtain ⟨n, rfl⟩ := whole
  obtain ⟨m, rfl⟩ := whole'
  exact ⟨n + m, by push_cast; rfl⟩

def Rows.Whole (rows : Rows) : Prop := ∀ h f, f.integer = true → CollectionStats.Whole (rows.value h f)

theorem upsertHour_value (table : Table) (h h' : ℤ) (new : Field → ℚ) (f : Field) :
    Table.value (upsertHour table h new) h' f = table.value h' f + if h = h' then new f else 0 := by
  unfold Table.value upsertHour
  by_cases same : h = h'
  · subst same
    rw [Function.update_self, if_pos rfl]
    cases table h with
    | none => exact (zero_add _).symm
    | some row => rfl
  · rw [Function.update_of_ne (Ne.symm same), if_neg same, add_zero]

theorem excluded_eq {rows : Rows} (whole : rows.Whole) {e : ℤ × Row} (member : e ∈ rows.entries) (f : Field) :
    excluded e.2 f = Row.value e.2 f := by
  have its : rows.value e.1 f = Row.value e.2 f := by
    rw [Rows.value, Dict.get?_eq_some.mpr member, Option.getD_some]
  unfold excluded
  by_cases integer : f.integer = true
  · rw [if_pos integer, ← its]
    exact (whole e.1 f integer).round
  · rw [if_neg integer]

/-- The table takes exactly the rows. -/
theorem addCollectionHours_value {rows : Rows} (whole : rows.Whole) (table : Table) (h : ℤ) (f : Field) :
    Table.value (addCollectionHours table rows) h f = table.value h f + rows.value h f := by
  have fold : ∀ (es : List (ℤ × Row)) (table : Table), (∀ e ∈ es, e ∈ rows.entries) →
      Table.value (es.foldl (fun table e => upsertHour table e.1 (excluded e.2)) table) h f =
        table.value h f + (es.map fun e => if e.1 = h then Row.value e.2 f else 0).sum := by
    intro es
    induction es with
    | nil => simp
    | cons e rest ih =>
      intro table members
      rw [List.foldl_cons, ih _ fun e' later => members e' (List.mem_cons_of_mem _ later), upsertHour_value,
        excluded_eq whole (members e (List.mem_cons_self ..)), List.map_cons, List.sum_cons, add_assoc]
  rw [addCollectionHours, fold _ _ fun _ member => member, Rows.sum_value]

end Table

section Split

theorem hour_le (t : ℚ) : (hour t : ℚ) ≤ t := by
  have low := Int.floor_le (t / hourSeconds)
  unfold hour hourSeconds at *
  push_cast at *
  linarith

theorem lt_hour_add (t : ℚ) : t < hour t + hourSeconds := by
  have high := Int.lt_floor_add_one (t / hourSeconds)
  unfold hour hourSeconds at *
  push_cast at *
  linarith

theorem floor_next (t : ℚ) : ⌊((hour t : ℚ) + hourSeconds) / hourSeconds⌋ = ⌊t / hourSeconds⌋ + 1 := by
  have next : ((hour t : ℚ) + hourSeconds) / hourSeconds = ((⌊t / hourSeconds⌋ + 1 : ℤ) : ℚ) := by
    unfold hour hourSeconds
    push_cast
    ring
  rw [next, Int.floor_intCast]

/-- The loop ends, with parts whose seconds sum to the span. -/
theorem cutHours_parts {stop t : ℚ} {fuel : Nat} (before : t ≤ stop)
    (enough : ⌊stop / hourSeconds⌋ - ⌊t / hourSeconds⌋ < fuel) :
    ∃ parts, cutHours stop fuel t = some parts ∧ parts ≠ [] ∧ (parts.map Prod.snd).sum = stop - t := by
  induction fuel generalizing t with
  | zero =>
    have ordered : ⌊t / hourSeconds⌋ ≤ ⌊stop / hourSeconds⌋ :=
      Int.floor_le_floor (div_le_div_of_nonneg_right before (by norm_num [hourSeconds]))
    omega
  | succ fuel ih =>
    unfold cutHours
    by_cases ends : min stop (hour t + hourSeconds : ℚ) ≥ stop
    · have last : min stop (hour t + hourSeconds : ℚ) = stop := le_antisymm (min_le_left _ _) ends
      refine ⟨[(hour t, stop - t)], ?_, List.cons_ne_nil _ _, by simp⟩
      simp only [last, ge_iff_le, le_refl, if_true]
    · have next : min stop (hour t + hourSeconds : ℚ) = hour t + hourSeconds := by
        refine min_eq_right ?_
        by_contra above
        exact ends (le_min le_rfl (not_le.mp above).le)
      rw [next] at ends
      have further : ⌊stop / hourSeconds⌋ - ⌊((hour t : ℚ) + hourSeconds) / hourSeconds⌋ < fuel := by
        rw [floor_next]
        push_cast at enough
        omega
      obtain ⟨parts, goes, -, sum⟩ := ih (not_le.mp ends).le further
      refine ⟨(hour t, hour t + hourSeconds - t) :: parts, ?_, List.cons_ne_nil _ _, ?_⟩
      · simp only [next, if_neg ends, goes, Option.map_some]
      · rw [List.map_cons, List.sum_cons, sum]
        ring

/-- The last part takes what is left of the bytes. -/
theorem shareBytes_sum (nbytes : ℤ) (span : ℚ) {parts : List (ℤ × ℚ)} (some_part : parts ≠ []) (given : ℤ) :
    ((shareBytes nbytes span given parts).map fun share => share.2.2).sum = nbytes - given := by
  induction parts generalizing given with
  | nil => exact absurd rfl some_part
  | cons part rest ih =>
    obtain ⟨h, secs⟩ := part
    cases rest with
    | nil => simp [shareBytes]
    | cons next rest =>
      rw [shareBytes, List.map_cons, List.sum_cons, ih (List.cons_ne_nil _ _)]
      · ring
      · exact List.cons_ne_nil _ _

theorem shareBytes_seconds (nbytes : ℤ) (span : ℚ) (parts : List (ℤ × ℚ)) (given : ℤ) :
    (shareBytes nbytes span given parts).map (fun share => share.2.1) = parts.map Prod.snd := by
  induction parts generalizing given with
  | nil => rfl
  | cons part rest ih =>
    obtain ⟨h, secs⟩ := part
    cases rest with
    | nil => rfl
    | cons next rest =>
      rw [shareBytes, List.map_cons, ih]
      · rfl
      · exact List.cons_ne_nil _ _

/-- The hours of a capture, with its seconds and its bytes in them. -/
def shares (start stop : ℚ) (nbytes : ℤ) : List (ℤ × ℚ × ℤ) :=
  ((cutHours (max stop start) (rounds start (max stop start)) start).map
    (shareBytes nbytes (max stop start - start) 0)).getD []

theorem shares_spec (start stop : ℚ) (nbytes : ℤ) :
    (∃ parts, cutHours (max stop start) (rounds start (max stop start)) start = some parts ∧
      shareBytes nbytes (max stop start - start) 0 parts = shares start stop nbytes) ∧
    ((shares start stop nbytes).map fun share => share.2.2).sum = nbytes ∧
    ((shares start stop nbytes).map fun share => share.2.1).sum = max stop start - start := by
  have enough : ⌊max stop start / hourSeconds⌋ - ⌊start / hourSeconds⌋ < rounds start (max stop start) := by
    unfold rounds
    push_cast
    omega
  obtain ⟨parts, goes, some_part, sum⟩ := cutHours_parts (le_max_right stop start) enough
  have same : shareBytes nbytes (max stop start - start) 0 parts = shares start stop nbytes := by
    rw [shares, goes, Option.map_some, Option.getD_some]
  refine ⟨⟨parts, goes, same⟩, ?_, ?_⟩
  · rw [← same, shareBytes_sum nbytes _ some_part, sub_zero]
  · rw [← same, shareBytes_seconds, sum]

end Split

section Amounts

/-- What an addition adds: an hour, a field and an amount each. -/
def Addition.entries : Addition → List (ℤ × Field × ℚ)
  | .recorded origin start stop nbytes =>
    match origin? origin with
    | none => []
    | some o => (hour start, .captures o, 1) :: (shares start stop nbytes).flatMap fun (h, secs, b) =>
      [(h, .bytes o, (b : ℚ)), (h, .seconds o, secs)]
  | .deleted reason nbytes at_ =>
    match reason? reason with
    | none => []
    | some r => [(hour at_, .deletedCaptures r, 1), (hour at_, .deletedBytes r, nbytes)]
  | .active seconds at_ => [(hour at_, .activeSeconds, seconds)]

def amountAt (entries : List (ℤ × Field × ℚ)) (h : ℤ) (f : Field) : ℚ :=
  (entries.map fun e => if e.1 = h ∧ e.2.1 = f then e.2.2 else 0).sum

/-- What an addition adds to a field of an hour. -/
def Addition.amount (a : Addition) (h : ℤ) (f : Field) : ℚ := amountAt a.entries h f

theorem amountAt_cons (e : ℤ × Field × ℚ) (es : List (ℤ × Field × ℚ)) (h : ℤ) (f : Field) :
    amountAt (e :: es) h f = (if e.1 = h ∧ e.2.1 = f then e.2.2 else 0) + amountAt es h f := by
  rw [amountAt, List.map_cons, List.sum_cons]
  rfl

/-- The hours with an amount, and their sum. -/
def SumsTo (amount : ℤ → ℚ) (total : ℚ) : Prop :=
  ∃ hours : Finset ℤ, (∀ h ∉ hours, amount h = 0) ∧ ∑ h ∈ hours, amount h = total

theorem sumsTo_amountAt (es : List (ℤ × Field × ℚ)) (f : Field) :
    SumsTo (fun h => amountAt es h f) (es.map fun e => if e.2.1 = f then e.2.2 else 0).sum := by
  refine ⟨(es.map Prod.fst).toFinset, fun h absent => ?_, ?_⟩
  · refine List.sum_eq_zero fun x member => ?_
    obtain ⟨e, inside, rfl⟩ := List.mem_map.mp member
    have other : e.1 ≠ h := fun eq => absent (List.mem_toFinset.mpr (eq ▸ List.mem_map_of_mem inside))
    rw [if_neg fun both => other both.1]
  · have covered : ∀ (hours : Finset ℤ) (es : List (ℤ × Field × ℚ)), (∀ e ∈ es, e.1 ∈ hours) →
        ∑ h ∈ hours, amountAt es h f = (es.map fun e => if e.2.1 = f then e.2.2 else 0).sum := by
      intro hours es
      induction es with
      | nil => simp [amountAt]
      | cons e es ih =>
        intro inside
        have here := inside e (List.mem_cons_self ..)
        simp only [amountAt_cons, Finset.sum_add_distrib, ih fun e' later => inside e' (List.mem_cons_of_mem _ later),
          List.map_cons, List.sum_cons, ite_and, Finset.sum_ite_eq, here, if_true]
    exact covered _ es fun e member => List.mem_toFinset.mpr (List.mem_map_of_mem member)

/-- A field other than the count sums over the shares. -/
theorem recorded_total {origin : String} {o : Origin} (known : origin? origin = some o) (start stop : ℚ) (nbytes : ℤ)
    {f : Field} (other : f ≠ .captures o) :
    ((Addition.recorded origin start stop nbytes).entries.map fun e => if e.2.1 = f then e.2.2 else 0).sum =
      ((shares start stop nbytes).map fun share =>
        (if Field.bytes o = f then (share.2.2 : ℚ) else 0) + if Field.seconds o = f then share.2.1 else 0).sum := by
  simp only [Addition.entries, known, List.map_cons, List.sum_cons, if_neg (Ne.symm other), zero_add]
  induction shares start stop nbytes with
  | nil => rfl
  | cons share rest ih =>
    rw [List.flatMap_cons, List.map_append, List.sum_append, ih, List.map_cons, List.sum_cons]
    simp

/-- The bytes and the seconds of a capture over its hours sum exactly to its
bytes and to its span. -/
theorem recorded_sumsTo {origin : String} {o : Origin} (known : origin? origin = some o) (start stop : ℚ) (nbytes : ℤ) :
    SumsTo (fun h => Addition.amount (.recorded origin start stop nbytes) h (.bytes o)) nbytes ∧
    SumsTo (fun h => Addition.amount (.recorded origin start stop nbytes) h (.seconds o)) (max stop start - start) := by
  obtain ⟨-, bytes, seconds⟩ := shares_spec start stop nbytes
  constructor
  · have total := sumsTo_amountAt (Addition.recorded origin start stop nbytes).entries (.bytes o)
    rw [recorded_total known start stop nbytes (by simp)] at total
    have cast : ((shares start stop nbytes).map fun share => (share.2.2 : ℚ)).sum = nbytes := by
      conv_rhs => rw [← bytes, Int.cast_list_sum, List.map_map]
      rfl
    simp only [if_true, reduceCtorEq, if_false, add_zero, cast] at total
    exact total
  · have total := sumsTo_amountAt (Addition.recorded origin start stop nbytes).entries (.seconds o)
    rw [recorded_total known start stop nbytes (by simp)] at total
    simp only [if_true, reduceCtorEq, if_false, zero_add, seconds] at total
    exact total

theorem foldl_addIf (o : Origin) (h : ℤ) (f : Field) (shares : List (ℤ × ℚ × ℤ)) (pending : Rows) :
    (shares.foldl (fun pending (h, secs, b) => (pending.addIf h (.bytes o) b).addIf h (.seconds o) secs)
        pending).value h f =
      pending.value h f +
        amountAt (shares.flatMap fun (h, secs, b) => [(h, .bytes o, (b : ℚ)), (h, .seconds o, secs)]) h f := by
  induction shares generalizing pending with
  | nil => exact (add_zero _).symm
  | cons share rest ih =>
    rw [List.foldl_cons, ih, Rows.value_addIf, Rows.value_addIf, List.flatMap_cons, List.cons_append, List.cons_append,
      List.nil_append, amountAt_cons, amountAt_cons, add_assoc, add_assoc]

/-- An addition is made, and adds just its amounts. -/
theorem add_spec (s : CollectionStats) (a : Addition) :
    ∃ pending, s.add a = some pending ∧ ∀ h f, pending.value h f = s.pending.value h f + a.amount h f := by
  cases a with
  | recorded origin start stop nbytes =>
    cases known : origin? origin with
    | none =>
      simp only [add, addRecorded, Addition.amount, Addition.entries, known]
      exact ⟨_, rfl, fun h f => (add_zero _).symm⟩
    | some o =>
      obtain ⟨⟨parts, goes, same⟩, -⟩ := shares_spec start stop nbytes
      simp only [add, addRecorded, Addition.amount, Addition.entries, known, goes, Option.map_some, same]
      refine ⟨_, rfl, fun h f => ?_⟩
      rw [foldl_addIf, Rows.value_add, amountAt_cons, add_assoc]
  | deleted reason nbytes at_ =>
    refine ⟨_, rfl, fun h f => ?_⟩
    cases known : reason? reason with
    | none =>
      simp only [addDeleted, Addition.amount, Addition.entries, known]
      exact (add_zero _).symm
    | some r =>
      simp only [addDeleted, Addition.amount, Addition.entries, known]
      rw [Rows.value_add, Rows.value_add, amountAt_cons, amountAt_cons, add_assoc]
      simp [amountAt]
  | active seconds at_ =>
    refine ⟨_, rfl, fun h f => ?_⟩
    rw [addActive, Rows.value_add, Addition.amount, Addition.entries, amountAt_cons]
    simp [amountAt]

theorem amount_whole (a : Addition) (h : ℤ) {f : Field} (integer : f.integer = true) : Whole (a.amount h f) := by
  have counts : ∀ e ∈ a.entries, e.2.1.integer = true → Whole e.2.2 := by
    intro e member counted
    cases a with
    | recorded origin start stop nbytes =>
      simp only [Addition.entries] at member
      split at member
      · exact absurd member (List.not_mem_nil)
      · rcases List.mem_cons.mp member with rfl | share
        · exact ⟨1, by simp⟩
        · obtain ⟨⟨h, secs, b⟩, -, one⟩ := List.mem_flatMap.mp share
          rcases List.mem_pair.mp one with rfl | rfl
          · exact ⟨b, rfl⟩
          · cases counted
    | deleted reason nbytes at_ =>
      simp only [Addition.entries] at member
      split at member
      · exact absurd member (List.not_mem_nil)
      · rcases List.mem_pair.mp member with rfl | rfl
        · exact ⟨1, by simp⟩
        · exact ⟨nbytes, rfl⟩
    | active seconds at_ =>
      cases List.mem_singleton.mp member
      cases counted
  rw [Addition.amount]
  revert counts
  induction a.entries with
  | nil => exact fun _ => ⟨0, by simp [amountAt]⟩
  | cons e es ih =>
    intro counts
    rw [amountAt_cons]
    refine Whole.add ?_ (ih fun e' later => counts e' (List.mem_cons_of_mem _ later))
    split
    case isTrue here => exact counts e (List.mem_cons_self ..) (here.2 ▸ integer)
    case isFalse => exact ⟨0, by simp⟩

end Amounts

section Runs

variable {s : CollectionStats} {table : Table} {i : Nat}

/-- Nothing is lost or doubled, and what is bound to an INTEGER column is whole. -/
structure Sound (table : Table) (s : CollectionStats) : Prop where
  total : ∀ h f, s.table.value h f + s.pending.value h f + s.inFlight h f =
    table.value h f + (s.additions.map fun a => a.amount h f).sum
  pending : s.pending.Whole
  flying : ∀ rows, Flush.adds rows ∈ s.flushes → rows.Whole

theorem inFlight_goesOn {old : Flush} (at_ : s.flushes[i]? = some old) (new : Flush) (h : ℤ) (f : Field) :
    (s.goesOn i new).inFlight h f = s.inFlight h f - old.value h f + new.value h f := by
  obtain ⟨within, its⟩ := List.getElem?_eq_some_iff.mp at_
  have inside : i < (s.flushes.map (Flush.value h f)).length := by rwa [List.length_map]
  unfold goesOn inFlight
  rw [List.map_set, List.sum_set', dif_pos inside, List.getElem_map, its]
  ring

theorem mem_goesOn {new g : Flush} (member : g ∈ (s.goesOn i new).flushes) : g ∈ s.flushes ∨ g = new :=
  List.mem_or_eq_of_mem_set member

/-- A flush that has nothing in flight goes on with nothing in flight. -/
theorem Sound.goesOn (sound : s.Sound table) {old new : Flush} (at_ : s.flushes[i]? = some old)
    (before : ∀ h f, old.value h f = 0) (after : ∀ h f, new.value h f = 0) (rowless : ∀ rows, new ≠ .adds rows) :
    (s.goesOn i new).Sound table := by
  refine ⟨fun h f => ?_, sound.pending, fun rows member => ?_⟩
  · rw [inFlight_goesOn at_, before, after, sub_zero, add_zero]
    exact sound.total h f
  · rcases mem_goesOn member with old | rfl
    · exact sound.flying rows old
    · exact absurd rfl (rowless rows)

theorem Sound.takes (sound : s.Sound table) {old : Flush} (at_ : s.flushes[i]? = some old)
    (before : ∀ h f, old.value h f = 0) : (s.takes i).Sound table := by
  have whole : (take s.pending).1.Whole := fun h f integer => by
    rw [take_value]
    exact sound.pending h f integer
  have value : ∀ h f, Flush.value h f (if (take s.pending).1.entries.isEmpty then .returned else .adds (take s.pending).1) =
      s.pending.value h f := by
    intro h f
    split
    case isTrue none =>
      rw [← take_value, ← Rows.sum_value, List.isEmpty_iff.mp none]
      rfl
    case isFalse => exact take_value s.pending h f
  refine ⟨fun h f => ?_, fun h f _ => ⟨0, by simp [CollectionStats.takes, CollectionStats.goesOn, take]⟩, ?_⟩
  · have total := sound.total h f
    have moved : (s.takes i).inFlight h f = s.inFlight h f - 0 + s.pending.value h f := by
      rw [← before h f, ← value h f]
      exact inFlight_goesOn (s := { s with pending := (take s.pending).2 }) at_ _ h f
    rw [moved]
    change s.table.value h f + 0 + _ = table.value h f + (s.additions.map fun a => a.amount h f).sum
    rw [← total]
    ring
  · intro rows member
    rcases mem_goesOn member with old | new
    · exact sound.flying rows old
    · split at new
      · cases new
      · cases new
        exact whole

theorem Sound.step {a : Act} (sound : s.Sound table) {s' : CollectionStats} (goes : s.step a = some s') :
    s'.Sound table := by
  cases a with
  | add a =>
    obtain ⟨pending, adds, value⟩ := add_spec s a
    simp only [CollectionStats.step, adds, Option.map_some, Option.some_inj] at goes
    subst goes
    refine ⟨fun h f => ?_, fun h f integer => ?_, sound.flying⟩
    · have total := sound.total h f
      simp only [value, List.map_append, List.sum_append, List.map_singleton, List.sum_singleton]
      rw [← add_assoc (table.value h f), ← total]
      change s.table.value h f + _ + s.inFlight h f = _
      ring
    · rw [value]
      exact (sound.pending h f integer).add (amount_whole a h integer)
  | flush now =>
    cases goes
    refine ⟨fun h f => ?_, sound.pending, fun rows member => ?_⟩
    · have total := sound.total h f
      rw [inFlight] at total
      simpa [inFlight, Flush.value] using total
    · rcases List.mem_append.mp member with old | new
      · exact sound.flying rows old
      · cases List.mem_singleton.mp new
  | getConfig i ok =>
    simp only [CollectionStats.step] at goes
    split at goes
    case h_1 now at_ =>
      cases ok with
      | false =>
        cases goes
        exact sound.goesOn at_ (fun _ _ => rfl) (fun _ _ => rfl) (by simp)
      | true =>
        cases goes
        split
        · exact sound.goesOn at_ (fun _ _ => rfl) (fun _ _ => rfl) (by simp)
        · exact sound.takes at_ fun _ _ => rfl
    case h_2 => cases goes
  | setConfig i written ok =>
    simp only [CollectionStats.step] at goes
    split at goes
    case h_1 now at_ =>
      have marked : ∀ since, ({ s with since := since } : CollectionStats).Sound table := fun since =>
        ⟨sound.total, sound.pending, sound.flying⟩
      cases written with
      | false =>
        obtain ⟨-, ⟨⟩⟩ := Option.ite_none_left_eq_some.mp goes
        exact sound.goesOn at_ (fun _ _ => rfl) (fun _ _ => rfl) (by simp)
      | true =>
        cases ok with
        | false =>
          cases goes
          exact (marked _).goesOn at_ (fun _ _ => rfl) (fun _ _ => rfl) (by simp)
        | true =>
          cases goes
          exact (marked _).takes at_ fun _ _ => rfl
    case h_2 => cases goes
  | addHours i ok =>
    simp only [CollectionStats.step] at goes
    split at goes
    case h_1 rows at_ =>
      have whole := sound.flying rows (List.mem_of_getElem? at_)
      cases ok with
      | false =>
        cases goes
        refine ⟨fun h f => ?_, fun h f integer => ?_, fun rows' member => ?_⟩
        · have total := sound.total h f
          have moved := inFlight_goesOn (s := { s with pending := putBack s.pending rows }) at_ .raised h f
          rw [moved]
          change s.table.value h f + (putBack s.pending rows).value h f + (s.inFlight h f - rows.value h f + 0) = _
          rw [putBack_value]
          change _ = table.value h f + (s.additions.map fun a => a.amount h f).sum
          rw [← total]
          ring
        · change Whole ((putBack s.pending rows).value h f)
          rw [putBack_value]
          exact (sound.pending h f integer).add (whole h f integer)
        · rcases mem_goesOn member with old | new
          · exact sound.flying rows' old
          · cases new
      | true =>
        cases goes
        refine ⟨fun h f => ?_, sound.pending, fun rows' member => ?_⟩
        · have total := sound.total h f
          have moved := inFlight_goesOn (s := { s with table := addCollectionHours s.table rows }) at_ .returned h f
          rw [moved]
          change Table.value (addCollectionHours s.table rows) h f + s.pending.value h f +
            (s.inFlight h f - rows.value h f + 0) = table.value h f + (s.additions.map fun a => a.amount h f).sum
          rw [addCollectionHours_value whole, ← total]
          ring
        · rcases mem_goesOn member with old | new
          · exact sound.flying rows' old
          · cases new
    case h_2 => cases goes

theorem sound_create (table : Table) (since : Option String) : (create table since).Sound table where
  total h f := by simp [create, inFlight]
  pending := fun _ _ _ => ⟨0, by simp [create]⟩
  flying := by simp [create]

/-- Every addition is in the table, pending or in flight, once, and a capture
is split over its hours without loss. -/
structure Conserved (table : Table) (s : CollectionStats) : Prop where
  total : ∀ h f, s.table.value h f + s.pending.value h f + s.inFlight h f =
    table.value h f + (s.additions.map fun a => a.amount h f).sum
  split : ∀ origin o start stop nbytes, origin? origin = some o →
    SumsTo (fun h => Addition.amount (.recorded origin start stop nbytes) h (.bytes o)) nbytes ∧
    SumsTo (fun h => Addition.amount (.recorded origin start stop nbytes) h (.seconds o)) (max stop start - start)

/-- In every run the statistics are conserved. -/
theorem Reach.conserved {since : Option String} (reach : Runs.Reach step (create table since) (fun _ _ => True) s) :
    s.Conserved table := by
  have sound : s.Sound table := reach.invariant (I := Sound table) (sound_create table since)
    (fun _ _ _ sound _ goes => sound.step goes)
  exact ⟨sound.total, fun _ _ start stop nbytes known => recorded_sumsTo known start stop nbytes⟩

/-- A capture over three hours, flushed twice: the first flush fails while
more is added. -/
def failedFlush : List Act :=
  [.add (.recorded "auto" 3000 9000 100), .flush 9000, .getConfig 0 true, .setConfig 0 true true,
    .add (.deleted "cap" 40 7300), .addHours 0 false, .add (.active 5 7300), .flush 9100, .getConfig 1 true,
    .add (.active 1 7400), .addHours 1 true]

theorem Reach.conserved_failedFlush :
    ∃ s, Runs.Reach step (create (fun _ => none) none) (fun _ _ => True) s ∧ s.since = some "7200" ∧
      s.table.value 3600 (.bytes .auto) = 60 ∧ s.pending.value 7200 .activeSeconds = 1 ∧
      s.Conserved fun _ => none := by
  have goes : (Runs.follow step (create (fun _ => none) none) failedFlush).map (fun s =>
      (s.since, s.table.value 3600 (.bytes .auto), s.pending.value 7200 .activeSeconds)) =
        some (some "7200", 60, 1) := by
    decide +kernel
  obtain ⟨s, taken, same⟩ := Option.map_eq_some_iff.mp goes
  obtain ⟨since, rest⟩ := Prod.mk.inj same
  obtain ⟨stored, pending⟩ := Prod.mk.inj rest
  have reach : Runs.Reach step (create (fun _ => none) none) (fun _ _ => True) s := Runs.Reach.of_follow taken
  exact ⟨s, reach, since, stored, pending, Reach.conserved reach⟩

end Runs

end CollectionStats

end RFObserver
