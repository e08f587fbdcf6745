import RFObserver.Fleet.SensorHub
import RFObserver.Lib.Runs

/-! Whatever the requests do: the slots and the cache of the fleet in every state reached. -/

namespace RFObserver

namespace SensorHub

/-- A request that holds the slot `p`. -/
def Call.holds (p : String × Slot) (c : Call) : Bool := c.sensor = p.1 ∧ c.slot = some p.2

namespace Hub

def held (h : Hub) (p : String × Slot) : ℕ := h.inFlight.countP (Call.holds p)

/-- What the entries of the cache have of `f`. -/
def total (f : Cached → ℤ) (entries : List (Key × Cached)) : ℤ := (entries.map fun e => f e.2).sum

def bodyLength (e : Cached) : ℤ := e.reply.body.length

/-- The cache's own count of its bytes, and its bounds. -/
structure CacheRight (h : Hub) : Prop where
  bytes : h.cacheBytes = total bodyLength h.cache.entries
  entries : h.cache.entries.length ≤ cacheMaxEntries
  size : h.cacheBytes ≤ cacheMaxBytes

/-- The slots of `p` that the request `acting` has as it goes on. -/
def owed (p : String × Slot) (acting : Option Call) : ℕ := acting.elim 0 fun c => if Call.holds p c then 1 else 0

/-- Every slot is free, granted, or held by a request: one in flight or the one
that is acting. Nobody waits beside a free slot that nobody will hand on. -/
structure Balanced (h : Hub) (acting : Option Call) : Prop where
  slots : ∀ p, (h.limits p).slots + h.held p + owed p acting = p.2.capacity
  awake : ∀ p, (h.limits p).Awake
  queued : ∀ p, (h.limits p).Only fun c => Call.holds p c = true

section Cache

variable {h : Hub} {k : Key} {e : Cached} {f : Cached → ℤ}

theorem total_cons (f : Cached → ℤ) (e : Key × Cached) (entries : List (Key × Cached)) :
    total f (e :: entries) = f e.2 + total f entries := by
  rw [total, List.map_cons, List.sum_cons, total]

theorem length_eq_total (entries : List (Key × Cached)) : (entries.length : ℤ) = total (fun _ => 1) entries := by
  induction entries with
  | nil => rfl
  | cons e rest ih =>
    rw [total_cons, ← ih, List.length_cons]
    push_cast
    ring

/-- An entry that goes to the end of the cache, in the place of one of its key. -/
theorem total_reinsert (d : Dict Key Cached) (k : Key) (e : Cached) (f : Cached → ℤ) :
    total f ((d.erase k).modify k e fun _ => e).entries = total f d.entries - (d.get? k).elim 0 f + f e := by
  have new : k ∉ (d.erase k).entries.map Prod.fst := by
    intro listed
    obtain ⟨entry, kept, same⟩ := List.mem_map.mp listed
    exact of_decide_eq_true (List.mem_filter.mp kept).2 same
  have others : ∀ entries : List (Key × Cached), total f (entries.filter fun e => e.1 ≠ k) +
      (entries.map fun e => if e.1 = k then f e.2 else 0).sum = total f entries := by
    intro entries
    induction entries with
    | nil => rfl
    | cons first rest ih =>
      rw [total_cons, ← ih, List.map_cons, List.sum_cons]
      by_cases here : first.1 = k
      · rw [List.filter_cons_of_neg (by simp [here]), if_pos here]
        ring
      · rw [List.filter_cons_of_pos (by simp [here]), total_cons, if_neg here]
        ring
  have whole := others d.entries
  rw [d.sum_get?] at whole
  rw [Dict.entries_modify_new new, ← whole, Dict.erase, total, List.map_append, List.sum_append, List.map_singleton,
    List.sum_singleton, total]
  ring

/-- The entries that stay keep the count and its bounds. -/
theorem evict_right (entries : List (Key × Cached)) :
    (evict entries (total bodyLength entries)).2 = total bodyLength (evict entries (total bodyLength entries)).1 ∧
      (evict entries (total bodyLength entries)).1.length ≤ cacheMaxEntries ∧
      (evict entries (total bodyLength entries)).2 ≤ cacheMaxBytes := by
  induction entries with
  | nil => exact ⟨rfl, Nat.zero_le _, by decide⟩
  | cons e rest ih =>
    rw [evict]
    by_cases large : cacheMaxEntries < (e :: rest).length ∨ cacheMaxBytes < total bodyLength (e :: rest)
    · have left : total bodyLength (e :: rest) - e.2.reply.body.length = total bodyLength rest := by
        rw [total_cons, bodyLength]
        ring
      rw [if_pos large, left]
      exact ih
    · obtain ⟨few, small⟩ := not_or.mp large
      rw [if_neg large]
      exact ⟨rfl, not_lt.mp few, not_lt.mp small⟩

theorem CacheRight.store (right : h.CacheRight) (k : Key) (e : Cached) : (h.store k e).CacheRight := by
  have bytes : h.cacheBytes - (h.cache.get? k).elim (0 : ℤ) (fun o => o.reply.body.length) + e.reply.body.length =
      total bodyLength ((h.cache.erase k).modify k e fun _ => e).entries := by
    rw [total_reinsert, right.bytes]
    rfl
  obtain ⟨count, entries, size⟩ := evict_right ((h.cache.erase k).modify k e fun _ => e).entries
  rw [← bytes] at count entries size
  exact ⟨count, entries, size⟩

theorem CacheRight.moveToEnd (right : h.CacheRight) {c : Call} {now : ℚ} (found : h.hit c now = some e) :
    (h.moveToEnd c e).CacheRight := by
  obtain ⟨r, cached, inside⟩ := Option.bind_eq_some_iff.mp found
  have there := (Option.filter_eq_some_iff.mp inside).1
  have same : ∀ f, total f ((h.cache.erase r.key).modify r.key e fun _ => e).entries = total f h.cache.entries := by
    intro f
    rw [total_reinsert, there]
    exact sub_add_cancel _ _
  rw [Hub.moveToEnd, cached]
  refine ⟨?_, ?_, right.size⟩
  · exact right.bytes.trans (same bodyLength).symm
  · have count := same fun _ => 1
    rw [← length_eq_total, ← length_eq_total] at count
    have entries := right.entries
    dsimp only [Option.elim_some]
    omega

end Cache

section Slots

variable {h h' : Hub} {c : Call} {p q : String × Slot} {acting : Option Call} {slot : Slot} {now : ℚ} {k : ℕ}

theorem holds_self (takes : c.slot = some slot) : Call.holds (c.sensor, slot) c = true := decide_eq_true ⟨rfl, takes⟩

/-- A request holds one slot only. -/
theorem eq_of_holds (here : Call.holds p c = true) (there : Call.holds q c = true) : p = q := by
  obtain ⟨sensor, slot⟩ := of_decide_eq_true here
  obtain ⟨sensor', slot'⟩ := of_decide_eq_true there
  exact Prod.ext (sensor.symm.trans sensor') (Option.some.inj (slot.symm.trans slot'))

theorem owed_self (here : Call.holds p c = true) : owed p (some c) = 1 := if_pos here

theorem owed_other (here : Call.holds p c = true) (other : q ≠ p) : owed q (some c) = 0 :=
  if_neg fun there => other (eq_of_holds there here)

theorem setLimit_self (h : Hub) (p : String × Slot) (s : Semaphore Call) : (h.setLimit p s).limits p = s :=
  Function.update_self ..

theorem setLimit_other {s : Semaphore Call} (other : q ≠ p) : (h.setLimit p s).limits q = h.limits q :=
  Function.update_of_ne other ..

/-- A semaphore changes as the acting request does. -/
theorem Balanced.setLimit {acting' : Option Call} {s : Semaphore Call} (balanced : h.Balanced acting)
    (slots : s.slots + owed p acting' = (h.limits p).slots + owed p acting)
    (others : ∀ q, q ≠ p → owed q acting' = owed q acting) (awake : s.Awake)
    (queued : s.Only fun c => Call.holds p c = true) : (h.setLimit p s).Balanced acting' where
  slots q := by
    have before := balanced.slots q
    have kept : (h.setLimit p s).held q = h.held q := rfl
    by_cases here : q = p
    · subst here
      rw [setLimit_self, kept]
      omega
    · rw [setLimit_other here, kept, others q here]
      exact before
  awake q := by
    by_cases here : q = p
    · subst here
      rwa [setLimit_self]
    · rw [setLimit_other here]
      exact balanced.awake q
  queued q := by
    by_cases here : q = p
    · subst here
      rwa [setLimit_self]
    · rw [setLimit_other here]
      exact balanced.queued q

/-- The acting request leaves its slot, if it has one. -/
theorem Balanced.release (balanced : h.Balanced (some c)) : (h.release c).Balanced none := by
  rw [Hub.release]
  cases takes : c.slot with
  | none =>
    have nothing : ∀ p, owed p (some c) = 0 := fun p => if_neg fun here =>
      absurd ((of_decide_eq_true here).2.symm.trans takes) (Option.some_ne_none _)
    refine ⟨fun p => ?_, balanced.awake, balanced.queued⟩
    have before := balanced.slots p
    rw [nothing] at before
    exact before
  | some slot =>
    have here := holds_self takes
    refine balanced.setLimit ?_ (fun q other => (owed_other here other).symm) (Semaphore.awake_release _)
      (balanced.queued _).release
    rw [Semaphore.slots_release, owed_self here]
    rfl

theorem held_append (p : String × Slot) : (h.inFlight ++ [c]).countP (Call.holds p) = h.held p + owed p (some c) := by
  rw [List.countP_append, List.countP_singleton]
  rfl

theorem Balanced.sent (balanced : h.Balanced (some c)) :
    ({ h with inFlight := h.inFlight ++ [c] } : Hub).Balanced none where
  slots p := by
    have before := balanced.slots p
    rw [held, held_append, ← Nat.add_assoc]
    exact before
  awake := balanced.awake
  queued := balanced.queued

theorem Balanced.enter (balanced : h.Balanced (some c)) (now : ℚ) : (h.enter c now).Balanced none := by
  rw [Hub.enter]
  split_ifs
  · exact balanced.release
  · exact balanced.sent

theorem Balanced.moveToEnd (balanced : h.Balanced none) (c : Call) (e : Cached) :
    (h.moveToEnd c e).Balanced none := by
  rw [Hub.moveToEnd]
  cases c.cached with
  | none => exact balanced
  | some r => exact ⟨balanced.slots, balanced.awake, balanced.queued⟩

theorem Balanced.start (balanced : h.Balanced none) (c : Call) (now : ℚ) : (h.start c now).Balanced none := by
  rw [Hub.start]
  cases h.hit c now with
  | some e => exact balanced.moveToEnd c e
  | none =>
    cases takes : c.slot with
    | none =>
      have nothing : ∀ p, owed p (some c) = 0 := fun p => if_neg fun here =>
        absurd ((of_decide_eq_true here).2.symm.trans takes) (Option.some_ne_none _)
      have acting : h.Balanced (some c) := ⟨fun p => by rw [nothing]; exact balanced.slots p, balanced.awake,
        balanced.queued⟩
      exact acting.sent
    | some slot =>
      have here := holds_self takes
      have slots := Semaphore.slots_acquire (h.limits (c.sensor, slot)) c
      have awake := Semaphore.awake_acquire (balanced.awake (c.sensor, slot)) c
      have queued := (balanced.queued (c.sensor, slot)).acquire here
      dsimp only
      split_ifs at slots ⊢ with acquired
      · refine Balanced.enter (balanced.setLimit ?_ (fun q other => owed_other here other) awake queued) now
        rw [owed_self here]
        exact slots
      · exact balanced.setLimit slots (fun _ _ => rfl) awake queued

theorem held_eraseIdx (found : h.inFlight[k]? = some c) (p : String × Slot) :
    (h.inFlight.eraseIdx k).countP (Call.holds p) + owed p (some c) = h.held p :=
  Semaphore.countP_eraseIdx (Call.holds p) found

theorem Balanced.finish (balanced : h.Balanced none) (found : h.inFlight[k]? = some c) :
    (h.finish k c).Balanced none := by
  refine Balanced.release ⟨fun p => ?_, balanced.awake, balanced.queued⟩
  have before := balanced.slots p
  rw [← held_eraseIdx found] at before
  rw [held]
  dsimp only [owed, Option.elim_none] at before ⊢
  omega

theorem Balanced.keep {closed : List (String × String) → ℚ → Bool} {reply : Reply} {wall : ℚ}
    (balanced : h.Balanced acting) : (h.keep closed c reply now wall).Balanced acting := by
  rw [Hub.keep]
  split_ifs
  · cases c.cached with
    | none => exact balanced
    | some r => exact ⟨balanced.slots, balanced.awake, balanced.queued⟩
  · exact balanced

end Slots

section Runs

variable {closed : List (String × String) → ℚ → Bool} {h h' : Hub} {c : Call} {e : Event} {now : ℚ} {k : ℕ}

/-- Nothing but `moveToEnd` and `store` changes the cache. -/
theorem cacheRight_release (right : h.CacheRight) (c : Call) : (h.release c).CacheRight := by
  rw [Hub.release]
  cases c.slot with
  | none => exact right
  | some slot => exact ⟨right.bytes, right.entries, right.size⟩

theorem cacheRight_enter (right : h.CacheRight) (c : Call) (now : ℚ) : (h.enter c now).CacheRight := by
  rw [Hub.enter]
  split_ifs
  · exact cacheRight_release right c
  · exact ⟨right.bytes, right.entries, right.size⟩

theorem cacheRight_setLimit (right : h.CacheRight) (p : String × Slot) (s : Semaphore Call) :
    (h.setLimit p s).CacheRight := ⟨right.bytes, right.entries, right.size⟩

theorem cacheRight_start (right : h.CacheRight) (c : Call) (now : ℚ) : (h.start c now).CacheRight := by
  rw [Hub.start]
  cases found : h.hit c now with
  | some e => exact right.moveToEnd found
  | none =>
    cases c.slot with
    | none => exact ⟨right.bytes, right.entries, right.size⟩
    | some slot =>
      dsimp only
      split_ifs
      · exact cacheRight_enter (cacheRight_setLimit right _ _) c now
      · exact cacheRight_setLimit right _ _

theorem cacheRight_finish (right : h.CacheRight) (k : ℕ) (c : Call) : (h.finish k c).CacheRight := by
  have kept : ({ h with inFlight := h.inFlight.eraseIdx k } : Hub).CacheRight :=
    ⟨right.bytes, right.entries, right.size⟩
  exact cacheRight_release kept c

theorem cacheRight_keep (right : h.CacheRight) (c : Call) (reply : Reply) (now wall : ℚ) :
    (h.keep closed c reply now wall).CacheRight := by
  rw [Hub.keep]
  split_ifs
  · cases c.cached with
    | none => exact right
    | some r => exact right.store _ _
  · exact right

/-- What holds in every state. -/
structure Sound (h : Hub) : Prop where
  balanced : h.Balanced none
  cache : h.CacheRight

theorem Sound.step (sound : h.Sound) (goes : h.step closed e = some h') : h'.Sound := by
  cases e with
  | start c now =>
    cases Option.some.inj goes
    exact ⟨sound.balanced.start c now, cacheRight_start sound.cache c now⟩
  | resume p k now =>
    obtain ⟨⟨c, s⟩, granted, rfl⟩ := Option.map_eq_some_iff.mp goes
    obtain ⟨here, queued⟩ := (sound.balanced.queued p).resume granted
    refine ⟨Balanced.enter (sound.balanced.setLimit ?_ (fun q other => owed_other here other)
      (Semaphore.awake_resume granted) queued) now, cacheRight_enter (cacheRight_setLimit sound.cache _ _) c now⟩
    rw [owed_self here]
    exact Semaphore.slots_resume granted
  | cancel p k =>
    obtain ⟨s, gone, rfl⟩ := Option.map_eq_some_iff.mp goes
    refine ⟨sound.balanced.setLimit ?_ (fun _ _ => rfl) (Semaphore.awake_cancel (sound.balanced.awake p) gone)
      ((sound.balanced.queued p).cancel gone), cacheRight_setLimit sound.cache _ _⟩
    rw [Semaphore.slots_cancel gone]
  | answer k reply now wall =>
    obtain ⟨c, found, rfl⟩ := Option.map_eq_some_iff.mp goes
    exact ⟨(sound.balanced.finish found).keep, cacheRight_keep (cacheRight_finish sound.cache k c) c reply now wall⟩
  | fail k =>
    obtain ⟨c, found, rfl⟩ := Option.map_eq_some_iff.mp goes
    exact ⟨sound.balanced.finish found, cacheRight_finish sound.cache k c⟩

theorem sound_init : init.Sound where
  balanced := ⟨fun _ => rfl, fun _ => Or.inr (Or.inl rfl), fun _ _ member => absurd member List.not_mem_nil⟩
  cache := ⟨rfl, Nat.zero_le _, by decide⟩

theorem Sound.reach {allowed : Hub → Event → Prop} (reach : Runs.Reach (Hub.step closed) init allowed h) : h.Sound :=
  reach.invariant sound_init fun _ _ _ sound _ goes => sound.step goes

/-! How many requests are in flight to one sensor. -/

/-- The heavy requests in flight to a sensor. -/
def heavy (h : Hub) (sensor : String) : ℕ :=
  h.inFlight.countP fun c => c.sensor = sensor ∧ c.slot = some .waterfall

/-- The other requests in flight to a sensor. -/
def others (h : Hub) (sensor : String) : ℕ :=
  h.inFlight.countP fun c => c.sensor = sensor ∧ c.slot ≠ some .waterfall

/-- The identity requests in flight to a sensor. -/
def identities (h : Hub) (sensor : String) : ℕ := h.inFlight.countP fun c => c.sensor = sensor ∧ c.slot = none

theorem others_eq (h : Hub) (sensor : String) : h.others sensor = h.held (sensor, .other) + h.identities sensor := by
  unfold others held identities
  induction h.inFlight with
  | nil => rfl
  | cons c rest ih =>
    rw [List.countP_cons, List.countP_cons, List.countP_cons, ih]
    have each : (if decide (c.sensor = sensor ∧ c.slot ≠ some .waterfall) = true then 1 else 0) =
        (if Call.holds (sensor, .other) c = true then 1 else 0) +
          (if decide (c.sensor = sensor ∧ c.slot = none) = true then 1 else 0) := by
      cases takes : c.slot with
      | none => simp [Call.holds, takes]
      | some slot =>
        cases slot with
        | waterfall => simp [Call.holds, takes]
        | other => simp [Call.holds, takes]
    rw [each]
    omega

theorem heavy_eq (h : Hub) (sensor : String) : h.heavy sensor = h.held (sensor, .waterfall) := rfl

/-- A request does not have to wait for a slot. -/
def admits (h : Hub) (c : Call) : Bool := c.slot.elim true fun slot => ((h.limits (c.sensor, slot)).acquire c).2

/-- The request that a step sends. -/
def sends (h : Hub) : Event → Option Call
  | .start c now =>
    if (h.hit c now).isSome then none
    else if h.admits c then some c else none
  | .resume p k now =>
    ((h.limits p).resume k).bind fun g => if (h.hit g.1 now).isSome then none else some g.1
  | _ => none

theorem release_inFlight (h : Hub) (c : Call) : (h.release c).inFlight = h.inFlight := by
  rw [Hub.release]
  cases c.slot with
  | none => rfl
  | some slot => rfl

theorem enter_inFlight (h : Hub) (c : Call) (now : ℚ) : (h.enter c now).inFlight =
    h.inFlight ++ (if (h.hit c now).isSome then none else some c).toList := by
  rw [Hub.enter]
  split_ifs
  · rw [release_inFlight, Option.toList_none, List.append_nil]
  · rfl

theorem moveToEnd_inFlight (h : Hub) (c : Call) (e : Cached) : (h.moveToEnd c e).inFlight = h.inFlight := by
  unfold Hub.moveToEnd
  cases c.cached with
  | none => rfl
  | some r => rfl

theorem start_inFlight (h : Hub) (c : Call) (now : ℚ) :
    (h.start c now).inFlight = h.inFlight ++ (h.sends (.start c now)).toList := by
  rw [Hub.start, sends]
  cases found : h.hit c now with
  | some e =>
    rw [Option.isSome_some, if_pos rfl, Option.toList_none, List.append_nil]
    exact moveToEnd_inFlight h c e
  | none =>
    rw [Option.isSome_none, if_neg Bool.false_ne_true]
    cases takes : c.slot with
    | none =>
      rw [admits, takes]
      rfl
    | some slot =>
      have missed : ∀ s, (h.setLimit (c.sensor, slot) s).hit c now = none := fun _ => found
      have admitted : h.admits c = ((h.limits (c.sensor, slot)).acquire c).2 := by
        rw [admits, takes]
        rfl
      rw [admitted]
      dsimp only
      by_cases acquired : ((h.limits (c.sensor, slot)).acquire c).2 = true
      · rw [if_pos acquired, if_pos acquired, enter_inFlight, missed, Option.isSome_none, if_neg Bool.false_ne_true]
        rfl
      · rw [if_neg acquired, if_neg acquired, Option.toList_none, List.append_nil]
        rfl

theorem finish_inFlight (h : Hub) (k : ℕ) (c : Call) : (h.finish k c).inFlight = h.inFlight.eraseIdx k :=
  release_inFlight ..

theorem keep_inFlight (h : Hub) (c : Call) (reply : Reply) (now wall : ℚ) :
    (h.keep closed c reply now wall).inFlight = h.inFlight := by
  rw [Hub.keep]
  split_ifs
  · cases c.cached with
    | none => rfl
    | some r => rfl
  · rfl

/-- A step sends one request or none, and otherwise requests only end. -/
theorem step_inFlight (goes : h.step closed e = some h') :
    h'.inFlight = h.inFlight ++ (h.sends e).toList ∨ h.sends e = none ∧ h'.inFlight.Sublist h.inFlight := by
  cases e with
  | start c now =>
    cases Option.some.inj goes
    exact Or.inl (start_inFlight h c now)
  | resume p k now =>
    obtain ⟨⟨c, s⟩, granted, rfl⟩ := Option.map_eq_some_iff.mp goes
    refine Or.inl ?_
    rw [enter_inFlight, sends, granted]
    rfl
  | cancel p k =>
    obtain ⟨s, gone, rfl⟩ := Option.map_eq_some_iff.mp goes
    exact Or.inr ⟨rfl, List.Sublist.refl _⟩
  | answer k reply now wall =>
    obtain ⟨c, found, rfl⟩ := Option.map_eq_some_iff.mp goes
    rw [keep_inFlight, finish_inFlight]
    exact Or.inr ⟨rfl, List.eraseIdx_sublist _ _⟩
  | fail k =>
    obtain ⟨c, found, rfl⟩ := Option.map_eq_some_iff.mp goes
    rw [finish_inFlight]
    exact Or.inr ⟨rfl, List.eraseIdx_sublist _ _⟩

/-- No step sends an identity request beside two other requests to its sensor,
nor another request beside identity requests and so many others. -/
def Spares (h : Hub) (e : Event) : Prop :=
  ∀ c, h.sends e = some c → c.slot ≠ some .waterfall → c.slot = none ∨ 0 < h.identities c.sensor →
    h.others c.sensor < 2

theorem countP_step (q : Call → Bool) (goes : h.step closed e = some h') :
    h'.inFlight.countP q ≤ h.inFlight.countP q + (h.sends e).elim 0 fun c => if q c then 1 else 0 := by
  obtain sent | ⟨none, fewer⟩ := step_inFlight goes
  · rw [sent, List.countP_append]
    cases h.sends e with
    | none => exact le_rfl
    | some c =>
      rw [Option.toList_some, List.countP_singleton, Option.elim_some]
  · rw [none]
    exact fewer.countP_le

/-- A step that spares the sensors keeps the limit. -/
theorem others_le_of_spares (sound : h.Sound) (limited : ∀ sensor, h.others sensor ≤ 2) (spares : h.Spares e)
    (goes : h.step closed e = some h') (sensor : String) : h'.others sensor ≤ 2 := by
  have before := limited sensor
  have more := countP_step (fun c => c.sensor = sensor ∧ c.slot ≠ some .waterfall) goes
  rw [← others, ← others] at more
  cases sent : h.sends e with
  | none =>
    rw [sent, Option.elim_none] at more
    omega
  | some c =>
    rw [sent, Option.elim_some] at more
    simp only [decide_eq_true_eq] at more
    split_ifs at more with here
    · obtain ⟨rfl, light⟩ := here
      by_cases beside : c.slot = none ∨ 0 < h.identities c.sensor
      · have room := spares c sent light beside
        omega
      · -- only the semaphore's own requests are in flight
        obtain ⟨limitedSlot, alone⟩ := not_or.mp beside
        have still := countP_step (fun d => d.sensor = c.sensor ∧ d.slot = none) goes
        rw [← identities, ← identities, sent, Option.elim_some] at still
        simp only [limitedSlot, and_false, decide_false, Bool.false_eq_true, if_false] at still
        have slots := (sound.step goes).balanced.slots (c.sensor, .other)
        have capacity : Slot.other.capacity = 2 := rfl
        rw [others_eq]
        dsimp only at slots
        omega
    · omega

/-- A step that does not spare them breaks it. -/
theorem spares_of_others_le (limited : ∀ sensor, h'.others sensor ≤ 2) (goes : h.step closed e = some h') :
    h.Spares e := by
  intro c sent light _
  have after := limited c.sensor
  obtain one_more | ⟨none, -⟩ := step_inFlight goes
  · rw [others, one_more, sent, Option.toList_some, List.countP_append, ← others,
      List.countP_singleton, if_pos (decide_eq_true ⟨rfl, light⟩)] at after
    omega
  · rw [sent] at none
    nomatch none

/-- A step that cannot be taken sends nothing. -/
theorem sends_of_stuck (stuck : h.step closed e = none) : h.sends e = none := by
  cases e with
  | start c now => nomatch stuck
  | resume p k now => rw [sends, Option.map_eq_none_iff.mp stuck, Option.bind_none]
  | cancel p k => rfl
  | answer k reply now wall => rfl
  | fail k => rfl

/-- What every state reached has: one heavy request at most to a sensor, and two
others through its semaphore; every slot free, granted or held; and the cache's
count and bounds. -/
structure Kept (h : Hub) : Prop where
  heavy : ∀ sensor, h.heavy sensor ≤ 1
  limited : ∀ sensor, h.held (sensor, .other) ≤ 2
  slots : ∀ p, (h.limits p).value + (h.limits p).waiters.countP Prod.snd + h.held p = p.2.capacity
  awake : ∀ p, (h.limits p).Awake
  cache : h.CacheRight

theorem Sound.kept (sound : h.Sound) : h.Kept where
  heavy sensor := by
    have slots := sound.balanced.slots (sensor, .waterfall)
    have capacity : Slot.waterfall.capacity = 1 := rfl
    rw [heavy_eq]
    dsimp only at slots
    omega
  limited sensor := by
    have slots := sound.balanced.slots (sensor, .other)
    have capacity : Slot.other.capacity = 2 := rfl
    dsimp only at slots
    omega
  slots p := sound.balanced.slots p
  awake := sound.balanced.awake
  cache := sound.cache

/-- Every run keeps the slots and the cache, and exactly those runs keep two
other requests at most to a sensor whose every step spares it. -/
theorem load_limits (closed : List (String × String) → ℚ → Bool) :
    (∀ h, Runs.Reach (Hub.step closed) init (fun _ _ => True) h → h.Kept) ∧
      (∀ h, Runs.Reach (Hub.step closed) init Spares h → ∀ sensor, h.others sensor ≤ 2) ∧
      ∀ acts : List Event,
        Runs.Meets (Hub.step closed) (fun h e => ∀ h' ∈ h.step closed e, ∀ sensor, h'.others sensor ≤ 2) init acts ↔
          Runs.Meets (Hub.step closed) Spares init acts := by
  have first : ∀ sensor, init.others sensor ≤ 2 := fun _ => Nat.zero_le 2
  refine ⟨fun h reach => (Sound.reach reach).kept, fun h reach => ?_, fun acts => ?_⟩
  · have both : h.Sound ∧ ∀ sensor, h.others sensor ≤ 2 := by
      refine reach.invariant (I := fun g => g.Sound ∧ ∀ sensor, g.others sensor ≤ 2) ⟨sound_init, first⟩ ?_
      intro g e g' before spares goes
      exact ⟨before.1.step goes, others_le_of_spares before.1 before.2 spares goes⟩
    exact both.2
  · refine Runs.meets_iff (I := fun g => g.Sound ∧ ∀ sensor, g.others sensor ≤ 2) ⟨sound_init, first⟩ ?_ ?_ acts
    · intro g e g' before within goes
      exact ⟨before.1.step goes, within g' goes⟩
    · intro g e before
      constructor
      · intro within
        cases goes : g.step closed e with
        | none =>
          intro c sent
          rw [sends_of_stuck goes] at sent
          nomatch sent
        | some g' => exact spares_of_others_le (within g' goes) goes
      · intro spares g' goes
        exact others_le_of_spares before.1 before.2 spares goes

/-- Two settings are written to a sensor while its identity is polled. -/
def pollBesideSends : List Event :=
  [.start (.send "nano" "POST" "api/config" none) 0, .start (.send "nano" "POST" "api/config" none) 0,
    .start (.identity "nano") 0]

/-- Three requests are in flight to it that are not heavy. -/
theorem load_limits_exceeded :
    ∃ h, Runs.follow (Hub.step fun _ _ => false) init pollBesideSends = some h ∧ h.others "nano" = 3 :=
  ⟨_, rfl, by decide⟩

end Runs

end Hub

end SensorHub

end RFObserver
