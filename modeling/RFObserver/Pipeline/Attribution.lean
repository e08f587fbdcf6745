import Mathlib.Data.List.MinMax
import Mathlib.Tactic
import RFObserver.Lib.Runs

/-! The attribution queue: it keeps the strongest items, and `get` waits on an
asyncio event while it has none. -/

namespace RFObserver

/-- An `asyncio.Event`: the tasks in its `wait`, and those it woke that have not run yet. -/
structure Event (Task : Type*) where
  value : Bool
  waiting : List Task
  woken : List Task

namespace Event

variable {Task : Type*} (e : Event Task)

def set : Event Task := if e.value then e else ⟨true, [], e.woken ++ e.waiting⟩

def clear : Event Task := { e with value := false }

end Event

/-- Bounded queue that keeps the strongest items. -/
structure StrongestQueue (Item Task : Type*) where
  maxsize : Nat
  items : List Item
  notEmpty : Event Task
  dropped : Nat
  room : 0 < maxsize

namespace StrongestQueue

variable {Item Task P : Type*} [LinearOrder P] (powerDb : Item → P) (q : StrongestQueue Item Task)

/-- The first of the weakest items, with its index. -/
def weakest : Option (Item × Nat) := q.items.zipIdx.argmin fun i => powerDb i.1

def strongest : Option (Item × Nat) := q.items.zipIdx.argmax fun i => powerDb i.1

/-- On overflow the weakest is evicted. There always is one, as the queue has room for one. -/
def putNowait (item : Item) : Bool × StrongestQueue Item Task :=
  if q.items.length < q.maxsize then (true, { q with items := q.items ++ [item], notEmpty := q.notEmpty.set })
  else
    match q.weakest powerDb with
    | none => (false, q)
    | some w =>
      if powerDb item ≤ powerDb w.1 then (false, { q with dropped := q.dropped + 1 })
      else
        (true, { q with
          items := q.items.eraseIdx w.2 ++ [item], dropped := q.dropped + 1, notEmpty := q.notEmpty.set })

/-- `get` from the test of its loop on: it returns the strongest item, or waits.
The event is cleared right before, so the wait never returns at once. -/
def get (task : Task) : Option Item × StrongestQueue Item Task :=
  match q.strongest powerDb with
  | none =>
    let cleared := q.notEmpty.clear
    (none, { q with notEmpty := { cleared with waiting := cleared.waiting ++ [task] } })
  | some s =>
    let items := q.items.eraseIdx s.2
    (some s.1, { q with items, notEmpty := if items = [] then q.notEmpty.clear else q.notEmpty })

/-- What a put counts in `dropped`. -/
def displaced (item : Item) : List Item :=
  if q.items.length < q.maxsize then []
  else
    match q.weakest powerDb with
    | none => []
    | some w => if powerDb item ≤ powerDb w.1 then [item] else [w.1]

/-- A queue in use: all that was put, what its calls of `get` returned, and what was dropped. -/
structure Use (Item Task : Type*) where
  queue : StrongestQueue Item Task
  puts : List Item
  returned : List (Task × Item)
  lost : List Item

inductive Act (Item Task : Type*)
  | put (item : Item)
  | get (task : Task)
  | resume (task : Task)
  | cancel (task : Task)

namespace Use

def create (maxsize : Nat) (room : 0 < maxsize) : Use Item Task := ⟨⟨maxsize, [], ⟨false, [], []⟩, 0, room⟩, [], [], []⟩

variable (s : Use Item Task)

def put (item : Item) : Use Item Task :=
  { s with
    queue := (s.queue.putNowait powerDb item).2
    puts := s.puts ++ [item]
    lost := s.lost ++ s.queue.displaced powerDb item }

def get (task : Task) : Use Item Task :=
  let got := s.queue.get powerDb task
  { s with queue := got.2, returned := s.returned ++ (got.1.map (Prod.mk task)).toList }

/-- The task leaves the event's lists. -/
def leave [DecidableEq Task] (task : Task) : Use Item Task :=
  let e := s.queue.notEmpty
  { s with queue := { s.queue with
      notEmpty := { e with waiting := e.waiting.erase task, woken := e.woken.erase task } } }

/-- A task calls `get` when it is not in one; one that was woken runs on, or is
cancelled while it waits. -/
def step [DecidableEq Task] (s : Use Item Task) : Act Item Task → Option (Use Item Task)
  | .put item => some (s.put powerDb item)
  | .get task =>
    if task ∈ s.queue.notEmpty.waiting ∨ task ∈ s.queue.notEmpty.woken then none else some (s.get powerDb task)
  | .resume task => if task ∈ s.queue.notEmpty.woken then some ((s.leave task).get powerDb task) else none
  | .cancel task =>
    if task ∈ s.queue.notEmpty.waiting ∨ task ∈ s.queue.notEmpty.woken then some (s.leave task) else none

end Use
end StrongestQueue
end RFObserver
