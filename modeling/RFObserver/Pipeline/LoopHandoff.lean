import Mathlib.Tactic
import RFObserver.Lib.Runs

/-! Results handed from a thread to the event loop: at most `limit` callbacks are in
flight, and at most `limit` results wait in the queue. -/

namespace RFObserver

/-- `entered` are the results counted but not given to the loop yet, `failing` those the
closed loop refused, `callbacks` those the loop will deliver, first to last, and `delivering`
the one between its two steps. `scheduled` are all results the loop took and `taken` those
read from the queue, in order; `failed`, `dropped` and `overflowed` count the results lost. -/
structure LoopHandoff (α : Type*) where
  limit : ℕ
  pending : ℕ
  closed : Bool
  entered : List α
  failing : List α
  callbacks : List α
  delivering : Option α
  queue : List α
  scheduled : List α
  taken : List α
  submitted : ℕ
  dropped : ℕ
  failed : ℕ
  overflowed : ℕ
  deriving DecidableEq

namespace LoopHandoff

variable {α : Type*}

/-- It needs a bounded queue. -/
def create (maxsize : ℤ) : Option (LoopHandoff α) :=
  if maxsize ≤ 0 then none else some ⟨maxsize.toNat, 0, false, [], [], [], none, [], [], [], 0, 0, 0, 0⟩

/-- What a producer, the loop or the reader of the queue does. -/
inductive Act (α : Type*)
  | submit (item : α)
  | schedule (i : ℕ)
  | giveBack (i : ℕ)
  | deliver
  | put
  | get
  | close

def step : LoopHandoff α → Act α → Option (LoopHandoff α)
  | s, .submit item =>
    if s.limit ≤ s.pending then some { s with submitted := s.submitted + 1, dropped := s.dropped + 1 }
    else some { s with submitted := s.submitted + 1, pending := s.pending + 1, entered := s.entered ++ [item] }
  -- `call_soon_threadsafe`: a closed loop raises
  | s, .schedule i => s.entered[i]?.map fun item =>
    if s.closed then { s with entered := s.entered.eraseIdx i, failing := s.failing ++ [item] }
    else { s with
      entered := s.entered.eraseIdx i
      callbacks := s.callbacks ++ [item]
      scheduled := s.scheduled ++ [item] }
  | s, .giveBack i => s.failing[i]?.map fun _ =>
    { s with failing := s.failing.eraseIdx i, pending := s.pending - 1, failed := s.failed + 1 }
  -- `_deliver` up to the end of its lock, and the rest of it
  | s, .deliver =>
    if s.delivering.isSome ∨ s.closed then none
    else s.callbacks.head?.map fun item =>
      { s with callbacks := s.callbacks.tail, pending := s.pending - 1, delivering := some item }
  | s, .put => s.delivering.map fun item =>
    if s.queue.length < s.limit then { s with delivering := none, queue := s.queue ++ [item] }
    else { s with delivering := none, overflowed := s.overflowed + 1 }
  | s, .get =>
    if s.delivering.isSome then none
    else s.queue.head?.map fun item => { s with queue := s.queue.tail, taken := s.taken ++ [item] }
  | s, .close => some { s with closed := true }

variable {s s' : LoopHandoff α} {a : Act α} {maxsize : ℤ} {first : LoopHandoff α}

/-- The results the loop took and still has, or has had read. -/
def passed (s : LoopHandoff α) : List α := s.taken ++ s.queue ++ s.delivering.toList ++ s.callbacks

/-- What is counted: every callback in flight, and every result once. -/
structure Books (s : LoopHandoff α) : Prop where
  inFlight : s.pending = s.entered.length + s.failing.length + s.callbacks.length
  limited : s.pending ≤ s.limit
  room : s.queue.length ≤ s.limit
  inOrder : s.passed.Sublist s.scheduled
  losses : s.scheduled.length = s.passed.length + s.overflowed
  once : s.submitted = s.dropped + s.failed + s.failing.length + s.entered.length + s.scheduled.length

theorem Books.create (new : create maxsize = some first) : first.Books := by
  unfold LoopHandoff.create at new
  split at new
  · cases new
  · cases new
    exact ⟨rfl, Nat.zero_le _, Nat.zero_le _, List.Sublist.refl _, rfl, rfl⟩

theorem length_eraseIdx {l : List α} {i : ℕ} {item : α} (at_ : l[i]? = some item) :
    (l.eraseIdx i).length + 1 = l.length := by
  have inside := (List.getElem?_eq_some_iff.mp at_).1
  rw [List.length_eraseIdx_of_lt inside]
  omega

theorem Books.step (books : s.Books) (goes : LoopHandoff.step s a = some s') : s'.Books := by
  obtain ⟨inFlight, limited, room, inOrder, losses, once⟩ := books
  cases a with
  | submit item =>
    simp only [LoopHandoff.step] at goes
    split at goes
    · cases goes
      exact ⟨inFlight, limited, room, inOrder, losses, by dsimp only; omega⟩
    · cases goes
      refine ⟨?_, by dsimp only; omega, room, inOrder, losses, ?_⟩
      · simp only [List.length_append, List.length_singleton]
        omega
      · simp only [List.length_append, List.length_singleton]
        omega
  | schedule i =>
    obtain ⟨item, at_, rfl⟩ := Option.map_eq_some_iff.mp goes
    have fewer := length_eraseIdx at_
    split
    · refine ⟨?_, limited, room, inOrder, losses, ?_⟩
      · simp only [List.length_append, List.length_singleton]
        omega
      · simp only [List.length_append, List.length_singleton]
        omega
    · refine ⟨?_, limited, room, ?_, ?_, ?_⟩
      · simp only [List.length_append, List.length_singleton]
        omega
      · simp only [passed, ← List.append_assoc]
        exact inOrder.append (List.Sublist.refl _)
      · simp only [passed, List.length_append, List.length_singleton] at losses ⊢
        omega
      · simp only [List.length_append, List.length_singleton]
        omega
  | giveBack i =>
    obtain ⟨item, at_, rfl⟩ := Option.map_eq_some_iff.mp goes
    have fewer := length_eraseIdx at_
    exact ⟨by dsimp only; omega, by dsimp only; omega, room, inOrder, losses, by dsimp only; omega⟩
  | deliver =>
    simp only [LoopHandoff.step] at goes
    split at goes
    · cases goes
    · rename_i free
      obtain ⟨item, front, rfl⟩ := Option.map_eq_some_iff.mp goes
      obtain ⟨rest, callbacks⟩ := List.head?_eq_some_iff.mp front
      have idle : s.delivering = none := Option.not_isSome_iff_eq_none.mp fun some_ => free (Or.inl some_)
      rw [callbacks, List.length_cons] at inFlight
      rw [passed, idle, callbacks] at inOrder losses
      refine ⟨?_, by dsimp only; omega, room, ?_, ?_, once⟩
      · simp only [callbacks, List.tail_cons]
        omega
      · simpa [passed, callbacks] using inOrder
      · simp only [passed, callbacks, List.tail_cons, Option.toList_some, List.length_append, List.length_cons,
          List.length_nil, Option.toList_none] at losses ⊢
        omega
  | put =>
    obtain ⟨item, busy, rfl⟩ := Option.map_eq_some_iff.mp goes
    rw [passed, busy] at inOrder losses
    split
    · rename_i free
      refine ⟨inFlight, limited, ?_, ?_, ?_, once⟩
      · simp only [List.length_append, List.length_singleton]
        omega
      · simpa [passed] using inOrder
      · simp only [passed, Option.toList_some, Option.toList_none, List.length_append, List.length_cons,
          List.length_nil] at losses ⊢
        omega
    · refine ⟨inFlight, limited, room, ?_, ?_, once⟩
      · refine List.Sublist.trans ?_ inOrder
        simp only [passed, Option.toList_none, List.append_nil]
        exact (List.sublist_append_left ..).append (List.Sublist.refl _)
      · simp only [passed, Option.toList_some, Option.toList_none, List.length_append, List.length_cons,
          List.length_nil] at losses ⊢
        omega
  | get =>
    simp only [LoopHandoff.step] at goes
    split at goes
    · cases goes
    · obtain ⟨item, front, rfl⟩ := Option.map_eq_some_iff.mp goes
      obtain ⟨rest, queue⟩ := List.head?_eq_some_iff.mp front
      have same : passed { s with queue := s.queue.tail, taken := s.taken ++ [item] } = s.passed := by
        simp [passed, queue]
      refine ⟨inFlight, limited, ?_, by rw [same]; exact inOrder, by rw [same]; exact losses, once⟩
      rw [List.length_tail]
      exact (Nat.sub_le ..).trans room
  | close =>
    cases goes
    exact ⟨inFlight, limited, room, inOrder, losses, once⟩

/-- Two producers, the second overtaking the first, a full queue, and a loop that closes. -/
def overtaken : List (Act ℕ) :=
  [.submit 1, .submit 2, .schedule 1, .deliver, .submit 3, .schedule 0, .put, .deliver, .put, .get, .submit 4, .close,
    .schedule 0, .giveBack 0, .submit 5]

end LoopHandoff

end RFObserver
