import Mathlib.Data.List.DropRight
import Mathlib.Data.List.Pairwise
import Mathlib.Order.Bounds.Basic

/-! The least value of a window that moves over timed entries, kept in a queue
without the entries that a later and no greater one covers. -/

namespace SlidingMin

variable {τ β : Type*} [LinearOrder β] {queue : List (τ × β)} {entry : τ × β}

/-- An entry arrives at the back: those it finds there that are no smaller leave first. -/
def push (queue : List (τ × β)) (entry : τ × β) : List (τ × β) :=
  queue.rdropWhile (fun q => decide (entry.2 ≤ q.2)) ++ [entry]

/-- What stays under an arriving entry is smaller than it. -/
theorem smaller_of_stays (values : queue.Pairwise (fun a b => a.2 < b.2)) {q : τ × β}
    (stays : q ∈ queue.rdropWhile (fun q => decide (entry.2 ≤ q.2))) : q.2 < entry.2 := by
  have rising := values.sublist (List.rdropWhile_prefix (fun q => decide (entry.2 ≤ q.2)) queue).sublist
  have last := List.rdropWhile_last_not (fun q => decide (entry.2 ≤ q.2)) queue (List.ne_nil_of_mem stays)
  simp only [decide_eq_true_eq, not_le] at last
  exact ((rising.imp le_of_lt).rel_getLast_of_rel_getLast_getLast stays le_rfl).trans_lt last

variable [LinearOrder τ] {start start' : τ} {history : Set (τ × β)}

/-- The entries before the window leave at the front. -/
def expire (queue : List (τ × β)) (start : τ) : List (τ × β) :=
  queue.dropWhile (fun q => decide (q.1 < start))

/-- The queue holds entries of the history in the order they came, their values
rising, and for every entry of the window one that is neither earlier nor greater. -/
structure Keeps (start : τ) (history : Set (τ × β)) (queue : List (τ × β)) : Prop where
  known : ∀ q ∈ queue, q ∈ history
  times : queue.Pairwise (fun a b => a.1 ≤ b.1)
  values : queue.Pairwise (fun a b => a.2 < b.2)
  covers : ∀ e ∈ history, start ≤ e.1 → ∃ q ∈ queue, e.1 ≤ q.1 ∧ q.2 ≤ e.2

theorem Keeps.empty (start : τ) : Keeps start (∅ : Set (τ × β)) [] :=
  ⟨by simp, .nil, .nil, by simp⟩

theorem Keeps.push (keeps : Keeps start history queue) (latest : ∀ e ∈ history, e.1 ≤ entry.1) :
    Keeps start (insert entry history) (push queue entry) := by
  have stays := List.rdropWhile_prefix (fun q : τ × β => decide (entry.2 ≤ q.2)) queue
  refine ⟨fun q member => ?_, ?_, ?_, fun e member live => ?_⟩
  · rcases List.mem_append.mp member with old | new
    · exact .inr (keeps.known q (stays.subset old))
    · exact .inl (List.mem_singleton.mp new)
  · refine List.pairwise_append.mpr ⟨keeps.times.sublist stays.sublist, List.pairwise_singleton .., ?_⟩
    intro a old b new
    rw [List.mem_singleton.mp new]
    exact latest a (keeps.known a (stays.subset old))
  · refine List.pairwise_append.mpr ⟨keeps.values.sublist stays.sublist, List.pairwise_singleton .., ?_⟩
    intro a old b new
    rw [List.mem_singleton.mp new]
    exact smaller_of_stays keeps.values old
  · have here : entry ∈ SlidingMin.push queue entry := by simp [SlidingMin.push]
    rcases member with rfl | old
    · exact ⟨e, here, le_rfl, le_rfl⟩
    · obtain ⟨q, inQueue, later, smaller⟩ := keeps.covers e old live
      rw [← List.rdropWhile_append_rtakeWhile (p := fun q : τ × β => decide (entry.2 ≤ q.2)) (l := queue),
        List.mem_append] at inQueue
      rcases inQueue with kept | dropped
      · exact ⟨q, List.mem_append_left _ kept, later, smaller⟩
      · -- what the entry drives out it covers itself
        have greater : entry.2 ≤ q.2 := by simpa using List.mem_rtakeWhile_imp dropped
        exact ⟨entry, here, latest e old, greater.trans smaller⟩

theorem Keeps.expire (keeps : Keeps start history queue) (forward : start ≤ start') :
    Keeps start' history (expire queue start') := by
  have stays := List.dropWhile_suffix (fun q : τ × β => decide (q.1 < start')) (l := queue)
  refine ⟨fun q member => keeps.known q (stays.subset member), keeps.times.sublist stays.sublist,
    keeps.values.sublist stays.sublist, fun e old live => ?_⟩
  obtain ⟨q, inQueue, later, smaller⟩ := keeps.covers e old (forward.trans live)
  rw [← List.takeWhile_append_dropWhile (p := fun q : τ × β => decide (q.1 < start')) (l := queue),
    List.mem_append] at inQueue
  rcases inQueue with gone | kept
  · have before : q.1 < start' := by simpa using List.mem_takeWhile_imp gone
    exact absurd (live.trans later) (not_le.mpr before)
  · exact ⟨q, kept, later, smaller⟩

/-- Once the queue is expired its front holds the least value of the window. -/
theorem Keeps.front_least (keeps : Keeps start history (SlidingMin.expire queue start)) {front : τ × β}
    (head : (SlidingMin.expire queue start).head? = some front) :
    IsLeast {v | ∃ e ∈ history, start ≤ e.1 ∧ e.2 = v} front.2 := by
  have live := List.head?_dropWhile_not (fun q : τ × β => decide (q.1 < start)) queue
  rw [SlidingMin.expire] at head keeps
  simp only [head, decide_eq_false_iff_not, not_lt] at live
  obtain ⟨rest, split⟩ := List.head?_eq_some_iff.mp head
  rw [split] at keeps
  refine ⟨⟨front, keeps.known front (List.mem_cons_self ..), live, rfl⟩, ?_⟩
  rintro v ⟨e, old, inWindow, rfl⟩
  obtain ⟨q, inQueue, -, smaller⟩ := keeps.covers e old inWindow
  rcases List.mem_cons.mp inQueue with rfl | behind
  · exact smaller
  · exact ((List.rel_of_pairwise_cons keeps.values behind).le).trans smaller

theorem expire_push_ne_nil (inWindow : start ≤ entry.1) : expire (push queue entry) start ≠ [] := by
  rw [expire, Ne, List.dropWhile_eq_nil_iff]
  intro gone
  have before := gone entry (by simp [push])
  exact not_le.mpr (of_decide_eq_true before) inWindow

end SlidingMin
