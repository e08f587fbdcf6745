import RFObserver.Lib.BoundedDict
import RFObserver.Lib.Runs
import RFObserver.Lib.Semaphore
import RFObserver.Storage.Rollup
import RFObserver.Web.RangeRoutes

/-! The waterfall and the peak search of a range: each runs one query at a time
and keeps its last answers. -/

namespace RFObserver
open IsoTime

/-- The times and the tuning that a request gives. -/
structure RangeParams where
  since : List Char
  until_ : List Char
  sdrCenter : Option (List Char)
  sampleRate : Option (List Char)
  gain : Option (List Char)
  deriving DecidableEq

/-- A request to `/averaged/waterfall`, its numbers read; `bucketSec` as `_bucket_param` takes it. -/
structure WaterfallRequest where
  range : RangeParams
  maxRows : ℤ
  maxBins : ℤ
  bucketSec : Option ℚ
  deriving DecidableEq

/-- A request to `/averaged/peaks`, its numbers and its metric read. -/
structure PeaksRequest where
  range : RangeParams
  windowSec : ℤ
  count : ℤ
  metric : Metric
  deriving DecidableEq

def RangeParams.parses (range : RangeParams) : Bool := (Ranges.parseRange range.since range.until_).isOk

/-- The waterfall's key, of a request that is not refused. -/
def WaterfallRequest.key (r : WaterfallRequest) : Option WaterfallRequest :=
  if r.range.parses then
    some { r with maxRows := max 1 (min 2000 r.maxRows), maxBins := max 2 (min 2048 r.maxBins) }
  else none

def peakWindowSec : List ℤ := [900, 1800, 3600, 10800]

def peakCountMax : ℤ := 20

/-- The peak search's key: its times up to the minute. -/
def PeaksRequest.key (r : PeaksRequest) : Option PeaksRequest :=
  if r.range.parses ∧ r.windowSec ∈ peakWindowSec ∧ 1 ≤ r.count ∧ r.count ≤ peakCountMax then
    some { r with range := { r.range with since := r.range.since.take 16, until_ := r.range.until_.take 16 } }
  else none

/-- A request that is not refused, with its key. -/
structure RangeAsked {R K : Type} (key : R → Option K) where
  request : R
  its : K
  same : key request = some its

/-- A route with its cache and its semaphore. Those that hold a slot are either
about to look into the cache again or have a query running. -/
structure RangeCache {R K : Type} (A : Type) (key : R → Option K) where
  cache : Dict K A
  sem : Semaphore (RangeAsked key)
  holders : List (RangeAsked key × Bool)
  computed : List (RangeAsked key × A)
  /-- Each with how many answers had been computed by then. -/
  answered : List (RangeAsked key × A × ℕ)

namespace RangeCache

variable {R K A : Type} {key : R → Option K} [DecidableEq K]

/-- `_WATERFALL_CACHE_MAX` and `_PEAKS_CACHE_MAX` -/
def cacheMax : ℕ := 8

def create : RangeCache A key := ⟨.empty, ⟨1, []⟩, [], [], []⟩

variable (s : RangeCache A key)

def answer (r : RangeAsked key) (a : A) : RangeCache A key :=
  { s with answered := s.answered ++ [(r, a, s.computed.length)] }

/-- The `k`th holder gives its slot back. -/
def leave (k : ℕ) : RangeCache A key := { s with sem := s.sem.release, holders := s.holders.eraseIdx k }

/-- A request looks into the cache, then asks for the slot. -/
def arrive (r : RangeAsked key) : RangeCache A key :=
  match s.cache.get? r.its with
  | some a => s.answer r a
  | none =>
    let (sem, acquired) := s.sem.acquire r
    { s with sem, holders := if acquired then s.holders ++ [(r, false)] else s.holders }

/-- With the slot: the client may be gone, or another request may have asked the same. -/
def check (k : ℕ) (r : RangeAsked key) (gone : Bool) : RangeCache A key :=
  if gone then s.leave k
  else
    match s.cache.get? r.its with
    | some a => (s.leave k).answer r a
    | none => { s with holders := s.holders.set k (r, true) }

/-- A query's answer is kept, without the oldest beyond `cacheMax`. -/
def finish (k : ℕ) (r : RangeAsked key) (a : A) : RangeCache A key :=
  answer { s.leave k with
    cache := (s.cache.putLast r.its a).keepLast cacheMax
    computed := s.computed ++ [(r, a)] } r a

/-- What happens to the requests. `fail` is an error, or a cancellation, with the slot held. -/
inductive Act {R K : Type} (A : Type) (key : R → Option K)
  | arrive (r : RangeAsked key)
  | resume (k : ℕ)
  | cancel (k : ℕ)
  | check (k : ℕ) (gone : Bool)
  | fail (k : ℕ)
  | finish (k : ℕ) (a : A)

def step : Act A key → Option (RangeCache A key)
  | .arrive r => some (s.arrive r)
  | .resume k => (s.sem.resume k).map fun e => { s with sem := e.2, holders := s.holders ++ [(e.1, false)] }
  | .cancel k => (s.sem.cancel k).map fun sem => { s with sem }
  | .check k gone => (s.holders[k]?.filter fun h => !h.2).map fun h => s.check k h.1 gone
  | .fail k => s.holders[k]?.map fun _ => s.leave k
  | .finish k a => (s.holders[k]?.filter Prod.snd).map fun h => s.finish k h.1 a

/-- The answers computed, under their keys. -/
def put : List (K × A) := s.computed.map fun c => (c.1.its, c.2)

/-- One request at most has the slot, and nobody waits beside a free one; a
query runs only for what is not in the cache. The cache has the last answers
computed, nine of them in a row are under nine keys, and every answer given is
one of the last computed by then, under the same key. -/
structure Served : Prop where
  one : s.sem.slots + s.holders.length = 1
  awake : s.sem.Awake
  asking : ∀ h ∈ s.holders, h.2 = true → s.cache.get? h.1.its = none
  newest : Dict.Newest cacheMax s.cache s.put
  apart : ∀ i j c c', i < j → j ≤ i + cacheMax → s.computed[i]? = some c → s.computed[j]? = some c' → c.1.its ≠ c'.1.its
  answers : ∀ x ∈ s.answered, ∃ i c, i < x.2.2 ∧ x.2.2 ≤ i + cacheMax ∧ s.computed[i]? = some c ∧
    c.1.its = x.1.its ∧ c.2 = x.2.1

section Steps

variable {s s' : RangeCache A key} {r : RangeAsked key} {a : A} {k : ℕ}

theorem served_create : (create : RangeCache A key).Served where
  one := rfl
  awake := Or.inr (Or.inl rfl)
  asking _ member := absurd member List.not_mem_nil
  newest := rfl
  apart _ _ _ _ _ _ none := (nomatch none)
  answers _ member := absurd member List.not_mem_nil

omit [DecidableEq K] in
theorem put_getElem {i : ℕ} {e : K × A} (at_ : s.put[i]? = some e) :
    ∃ c, s.computed[i]? = some c ∧ (c.1.its, c.2) = e := by
  rw [put, List.getElem?_map] at at_
  exact Option.map_eq_some_iff.mp at_

/-- An answer found in the cache. -/
theorem Served.answer (served : s.Served) (hit : s.cache.get? r.its = some a) : (s.answer r a).Served := by
  refine { served with answers := fun x given => ?_ }
  obtain before | new := List.mem_append.mp given
  · exact served.answers x before
  · cases List.mem_singleton.mp new
    obtain ⟨i, inside, late, at_⟩ := served.newest.found hit
    obtain ⟨c, computed, same⟩ := put_getElem at_
    obtain ⟨its, answer⟩ := Prod.mk.inj same
    rw [put, List.length_map] at inside late
    exact ⟨i, c, inside, late, computed, its, answer⟩

theorem Served.leave (served : s.Served) {h : RangeAsked key × Bool} (holds : s.holders[k]? = some h) :
    (s.leave k).Served := by
  have inside := (List.getElem?_eq_some_iff.mp holds).1
  have left : (s.holders.eraseIdx k).length + 1 = s.holders.length := by
    rw [List.length_eraseIdx_of_lt inside]
    omega
  refine { served with
    one := ?_
    awake := Semaphore.awake_release _
    asking := fun h member => served.asking h (List.mem_of_mem_eraseIdx member) }
  have one := served.one
  change s.sem.release.slots + (s.holders.eraseIdx k).length = 1
  rw [Semaphore.slots_release]
  omega

/-- With one slot the only holder is the one that goes. -/
theorem Served.alone (served : s.Served) {h : RangeAsked key × Bool} (holds : s.holders[k]? = some h) :
    (s.leave k).holders = [] := by
  have inside := (List.getElem?_eq_some_iff.mp holds).1
  have one := served.one
  refine List.eq_nil_of_length_eq_zero ?_
  rw [RangeCache.leave, List.length_eraseIdx_of_lt inside]
  omega

theorem Served.arrive (served : s.Served) (r : RangeAsked key) : (s.arrive r).Served := by
  rw [RangeCache.arrive]
  split
  case h_1 a hit => exact served.answer hit
  case h_2 missed =>
    have slots := Semaphore.slots_acquire s.sem r
    refine { served with one := ?_, awake := Semaphore.awake_acquire served.awake r, asking := fun h member => ?_ }
    · have one := served.one
      dsimp only
      split_ifs at slots ⊢
      · rw [List.length_append, List.length_singleton]
        omega
      · omega
    · dsimp only at member
      split_ifs at member
      · obtain before | new := List.mem_append.mp member
        · exact served.asking h before
        · intro asks
          rw [List.mem_singleton.mp new] at asks
          cases asks
      · exact served.asking h member

theorem Served.resume (served : s.Served) {e : RangeAsked key × Semaphore (RangeAsked key)}
    (goes : s.sem.resume k = some e) :
    RangeCache.Served { s with sem := e.2, holders := s.holders ++ [(e.1, false)] } := by
  have slots := Semaphore.slots_resume goes
  refine { served with one := ?_, awake := Semaphore.awake_resume goes, asking := fun h member => ?_ }
  · have one := served.one
    dsimp only
    rw [List.length_append, List.length_singleton]
    omega
  · obtain before | new := List.mem_append.mp member
    · exact served.asking h before
    · intro asks
      rw [List.mem_singleton.mp new] at asks
      cases asks

theorem Served.check (served : s.Served) {h : RangeAsked key × Bool} (holds : s.holders[k]? = some h) (gone : Bool) :
    (s.check k h.1 gone).Served := by
  rw [RangeCache.check]
  split_ifs
  · exact served.leave holds
  · split
    case h_1 a hit => exact (served.leave holds).answer hit
    case h_2 missed =>
      refine { served with one := ?_, asking := fun other member => ?_ }
      · dsimp only
        rw [List.length_set]
        exact served.one
      · obtain before | rfl := List.mem_or_eq_of_mem_set member
        · exact served.asking other before
        · exact fun _ => missed

/-- Nobody else could put the key into the cache while the query ran. -/
theorem Served.finish (served : s.Served) (holds : s.holders[k]? = some (r, true)) (a : A) :
    (s.finish k r a).Served := by
  have new := served.asking _ (List.mem_of_getElem? holds) rfl
  have left := served.leave holds
  have put : RangeCache.put { s with computed := s.computed ++ [(r, a)] } = s.put ++ [(r.its, a)] := List.map_append
  refine ⟨left.one, left.awake, fun h member => ?_, ?_, fun i j c c' lt le here there => ?_, fun x given => ?_⟩
  · exact absurd (served.alone holds ▸ member) List.not_mem_nil
  · change Dict.Newest _ _ (RangeCache.put { s with computed := s.computed ++ [(r, a)] })
    rw [put]
    exact served.newest.putLast new a
  · change (s.computed ++ [(r, a)])[i]? = some c at here
    change (s.computed ++ [(r, a)])[j]? = some c' at there
    have inside := (List.getElem?_eq_some_iff.mp there).1
    rw [List.length_append, List.length_singleton] at inside
    rw [List.getElem?_append_left (by omega)] at here
    obtain old | rfl : j < s.computed.length ∨ j = s.computed.length := by omega
    · rw [List.getElem?_append_left old] at there
      exact served.apart i j c c' lt le here there
    · rw [List.getElem?_concat_length] at there
      cases there
      intro same
      have cached : s.cache.get? c.1.its = some c.2 := by
        refine served.newest.get? (i := i) ?_ ?_
        · rw [RangeCache.put, List.length_map]
          exact le
        · rw [RangeCache.put, List.getElem?_map, here]
          rfl
      rw [same, new] at cached
      cases cached
  · obtain before | new := List.mem_append.mp given
    · obtain ⟨i, c, inside, late, at_, same⟩ := served.answers x before
      exact ⟨i, c, inside, late, List.getElem?_append_left (List.getElem?_eq_some_iff.mp at_).1 ▸ at_, same⟩
    · cases List.mem_singleton.mp new
      have count : (s.computed ++ [(r, a)]).length = s.computed.length + 1 := List.length_append
      exact ⟨s.computed.length, (r, a), (Nat.lt_succ_self _).trans_eq count.symm,
        count.trans_le (Nat.add_le_add_left (by decide) _), List.getElem?_concat_length, rfl, rfl⟩

theorem Served.step {act : Act A key} (served : s.Served) (goes : s.step act = some s') : s'.Served := by
  cases act with
  | arrive r =>
    cases goes
    exact served.arrive r
  | resume k =>
    obtain ⟨e, resumes, rfl⟩ := Option.map_eq_some_iff.mp goes
    exact served.resume resumes
  | cancel k =>
    obtain ⟨sem, gone, rfl⟩ := Option.map_eq_some_iff.mp goes
    have one := served.one
    rw [← Semaphore.slots_cancel gone] at one
    exact { served with one, awake := Semaphore.awake_cancel served.awake gone }
  | check k gone =>
    obtain ⟨h, holds, rfl⟩ := Option.map_eq_some_iff.mp goes
    exact served.check (Option.filter_eq_some_iff.mp holds).1 gone
  | fail k =>
    obtain ⟨h, holds, rfl⟩ := Option.map_eq_some_iff.mp goes
    exact served.leave holds
  | finish k a =>
    obtain ⟨⟨r, asks⟩, holds, rfl⟩ := Option.map_eq_some_iff.mp goes
    obtain ⟨holds, running⟩ := Option.filter_eq_some_iff.mp holds
    cases asks with
    | true => exact served.finish holds a
    | false => cases running

end Steps

theorem Reach.one_at_a_time {s : RangeCache A key} (reach : Runs.Reach step create (fun _ _ => True) s) : s.Served :=
  Runs.Reach.invariant served_create (fun _ _ _ served _ goes => served.step goes) reach

end RangeCache

section Waterfall
open RangeCache

theorem WaterfallRequest.key_range {r k : WaterfallRequest} (its : r.key = some k) : k.range = r.range := by
  rw [key] at its
  split_ifs at its
  cases its
  rfl

/-- Every waterfall was computed for the times and the tuning that its request gave. -/
theorem RangeCache.Served.own_range {A : Type} {s : RangeCache A WaterfallRequest.key} (served : s.Served) :
    ∀ x ∈ s.answered, ∃ c ∈ s.computed, c.1.request.range = x.1.request.range ∧ c.2 = x.2.1 := by
  intro x given
  obtain ⟨i, c, -, -, at_, same, answer⟩ := served.answers x given
  refine ⟨c, List.mem_of_getElem? at_, ?_, answer⟩
  rw [← WaterfallRequest.key_range c.1.same, same, WaterfallRequest.key_range x.1.same]

theorem PeaksRequest.key_eq {r k : PeaksRequest} (its : r.key = some k) :
    k = { r with range := { r.range with since := r.range.since.take 16, until_ := r.range.until_.take 16 } } := by
  rw [key] at its
  split_ifs at its
  cases its
  rfl

/-- The peaks were computed for the same tuning and form, but only for the same minutes as
written: the key drops the zone that follows them. -/
theorem RangeCache.Served.same_minutes {A : Type} {s : RangeCache A PeaksRequest.key} (served : s.Served) :
    ∀ x ∈ s.answered, ∃ c ∈ s.computed, c.2 = x.2.1 ∧
      c.1.request = { x.1.request with range := { x.1.request.range with
        since := c.1.request.range.since, until_ := c.1.request.range.until_ } } ∧
      c.1.request.range.since.take 16 = x.1.request.range.since.take 16 ∧
      c.1.request.range.until_.take 16 = x.1.request.range.until_.take 16 := by
  intro x given
  obtain ⟨i, c, -, -, at_, same, answer⟩ := served.answers x given
  have keys := (PeaksRequest.key_eq c.1.same).symm.trans (same.trans (PeaksRequest.key_eq x.1.same))
  have ranges := congrArg PeaksRequest.range keys
  refine ⟨c, List.mem_of_getElem? at_, answer, ?_, congrArg RangeParams.since ranges, congrArg RangeParams.until_ ranges⟩
  obtain ⟨⟨⟨⟨since, until_, sdrCenter, sampleRate, gain⟩, windowSec, count, metric⟩, its, own⟩, found⟩ := c
  simp only [PeaksRequest.mk.injEq, RangeParams.mk.injEq] at keys ⊢
  exact ⟨⟨trivial, trivial, keys.1.2.2⟩, keys.2⟩

/-- An hour from noon, in at most so many rows. -/
def noonHour (maxRows : ℤ) : WaterfallRequest where
  range := ⟨"2026-01-01T12:00:00Z".toList, "2026-01-01T13:00:00Z".toList, none, none, none⟩
  maxRows
  maxBins := 512
  bucketSec := none

theorem noonHour_key : (noonHour 5000).key = some (noonHour 2000) := by decide

theorem noonHour_sameKey : (noonHour 9000).key = some (noonHour 2000) := by decide

/-- A second request waits for the first and takes its answer. -/
def askedTwice : List (Act (List UInt8) WaterfallRequest.key) :=
  [.arrive ⟨noonHour 5000, noonHour 2000, noonHour_key⟩, .arrive ⟨noonHour 9000, noonHour 2000, noonHour_sameKey⟩,
    .check 0 false, .finish 0 [1], .resume 0, .check 0 false]

theorem RangeCache.Reach.one_at_a_time_askedTwice : ∃ s : RangeCache (List UInt8) WaterfallRequest.key,
    Runs.follow step create askedTwice = some s ∧ s.answered.map (fun x => x.2) = [([1], 1), ([1], 1)] ∧
      s.computed.length = 1 ∧ s.Served := by
  have goes : Runs.follow step (create : RangeCache (List UInt8) WaterfallRequest.key) askedTwice = some _ := rfl
  exact ⟨_, goes, rfl, rfl, RangeCache.Reach.one_at_a_time (.of_follow goes)⟩

end Waterfall

end RFObserver
