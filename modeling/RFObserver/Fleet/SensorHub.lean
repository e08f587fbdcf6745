import Mathlib.Data.Rat.Defs
import RFObserver.Lib.Dict
import RFObserver.Lib.Semaphore

/-! The fleet's requests to the sensors: how many are sent at a time, and the
cache of their answers. -/

namespace RFObserver

namespace SensorHub

def cacheOpenSec : ℚ := 10

def cacheClosedSec : ℚ := 600

def cacheMaxEntries : ℕ := 256

def cacheMaxBytes : ℤ := 256 * 1048576

/-- The arguments of `get` for one sensor. -/
structure GetRequest where
  sensor : String
  root : String
  path : String
  params : List (String × String)
  cache : Bool
  heavy : Bool
  ttl : Option ℚ
  deriving DecidableEq

/-- A request to a sensor: of `get`, of `send`, or of `fetch_identity` at one of its addresses. -/
inductive Call
  | get (r : GetRequest)
  | send (sensor method path : String) (body : Option String)
  | identity (sensor : String)
  deriving DecidableEq

/-- The semaphores of a sensor but that of its downloads. -/
inductive Slot
  | waterfall
  | other
  deriving DecidableEq

def Slot.capacity : Slot → ℕ
  | .waterfall => 1
  | .other => 2

abbrev Key := String × String × List (String × String)

def GetRequest.key (r : GetRequest) : Key :=
  (r.sensor, r.root ++ "/" ++ r.path,
    r.params.mergeSort fun a b => decide (a.1 < b.1 ∨ a.1 = b.1 ∧ ¬ b.2 < a.2))

def GetRequest.isHeavy (r : GetRequest) : Bool := r.heavy || (r.root == "api" && r.path == "averaged/waterfall")

namespace Call

def sensor : Call → String
  | get r => r.sensor
  | send sensor _ _ _ => sensor
  | identity sensor => sensor

/-- The semaphore that the request takes. -/
def slot : Call → Option Slot
  | get r => some (if r.isHeavy then .waterfall else .other)
  | send .. => some .other
  | identity _ => none

/-- The request whose answer may be in the cache. -/
def cached : Call → Option GetRequest
  | get r => if r.cache then some r else none
  | _ => none

end Call

structure Reply where
  status : ℕ
  contentType : String
  body : List UInt8
  headers : List (String × String)

structure Cached where
  expires : ℚ
  reply : Reply

/-- The requests in flight, those that wait for a slot, and the cache, oldest
entry first. -/
structure Hub where
  limits : String × Slot → Semaphore Call
  inFlight : List Call
  cache : Dict Key Cached
  cacheBytes : ℤ

namespace Hub

def init : Hub := ⟨fun p => ⟨p.2.capacity, []⟩, [], .empty, 0⟩

/-- The answer that the cache has for a request. -/
def hit (h : Hub) (c : Call) (now : ℚ) : Option Cached :=
  c.cached.bind fun r => (h.cache.get? r.key).filter fun e => now < e.expires

/-- `move_to_end` of an entry. -/
def moveToEnd (h : Hub) (c : Call) (e : Cached) : Hub :=
  c.cached.elim h fun r => { h with cache := (h.cache.erase r.key).modify r.key e fun _ => e }

/-- The oldest entries go while the cache is too large. -/
def evict : List (Key × Cached) → ℤ → List (Key × Cached) × ℤ
  | [], bytes => ([], bytes)
  | e :: rest, bytes =>
    if cacheMaxEntries < (e :: rest).length ∨ cacheMaxBytes < bytes then evict rest (bytes - e.2.reply.body.length)
    else (e :: rest, bytes)

theorem evict_suffix (entries : List (Key × Cached)) (bytes : ℤ) : (evict entries bytes).1 <:+ entries := by
  induction entries generalizing bytes with
  | nil => exact List.suffix_rfl
  | cons e rest ih =>
    rw [evict]
    split_ifs
    · exact (ih _).trans (List.suffix_cons ..)
    · exact List.suffix_rfl

theorem evict_nodup (d : Dict Key Cached) (bytes : ℤ) : ((evict d.entries bytes).1.map Prod.fst).Nodup :=
  d.nodup.sublist ((evict_suffix d.entries bytes).sublist.map Prod.fst)

/-- `_store` -/
def store (h : Hub) (key : Key) (e : Cached) : Hub :=
  let old := (h.cache.get? key).elim (0 : ℤ) fun o => o.reply.body.length
  let cache := (h.cache.erase key).modify key e fun _ => e
  let bytes := h.cacheBytes - old + e.reply.body.length
  { h with cache := ⟨(evict cache.entries bytes).1, evict_nodup cache bytes⟩, cacheBytes := (evict cache.entries bytes).2 }

def setLimit (h : Hub) (p : String × Slot) (s : Semaphore Call) : Hub :=
  { h with limits := Function.update h.limits p s }

/-- A request leaves its `async with`. -/
def release (h : Hub) (c : Call) : Hub :=
  c.slot.elim h fun slot => h.setLimit (c.sensor, slot) (h.limits (c.sensor, slot)).release

/-- A request with its slot: it is sent, if the cache has not been filled meanwhile. -/
def enter (h : Hub) (c : Call) (now : ℚ) : Hub :=
  if (h.hit c now).isSome then h.release c else { h with inFlight := h.inFlight ++ [c] }

/-- A request is made. -/
def start (h : Hub) (c : Call) (now : ℚ) : Hub :=
  match h.hit c now with
  | some e => h.moveToEnd c e
  | none =>
    match c.slot with
    | none => { h with inFlight := h.inFlight ++ [c] }
    | some slot =>
      let acquired := (h.limits (c.sensor, slot)).acquire c
      let h' := h.setLimit (c.sensor, slot) acquired.1
      if acquired.2 then h'.enter c now else h'

/-- Request `k` in flight is over. -/
def finish (h : Hub) (k : ℕ) (c : Call) : Hub := ({ h with inFlight := h.inFlight.eraseIdx k } : Hub).release c

end Hub

/-- What happens between two awaits: a request is made, one that waited goes on
with its slot or is cancelled, one in flight is answered, or it fails or is
cancelled. Requests of one semaphore or in flight are named by their places. -/
inductive Event
  | start (c : Call) (now : ℚ)
  | resume (p : String × Slot) (k : ℕ) (now : ℚ)
  | cancel (p : String × Slot) (k : ℕ)
  | answer (k : ℕ) (reply : Reply) (now wall : ℚ)
  | fail (k : ℕ)

section Step

-- whether `until` is a time more than two minutes before the wall clock
variable (closed : List (String × String) → ℚ → Bool)

/-- `_cache_ttl`, or the `ttl` that was asked for. -/
def cacheTtl (r : GetRequest) (wall : ℚ) : ℚ :=
  r.ttl.getD (if closed r.params wall then cacheClosedSec else cacheOpenSec)

/-- An answer is kept for later requests. -/
def Hub.keep (h : Hub) (c : Call) (reply : Reply) (now wall : ℚ) : Hub :=
  if reply.status = 200 then c.cached.elim h fun r => h.store r.key ⟨now + cacheTtl closed r wall, reply⟩ else h

def Hub.step (h : Hub) : Event → Option Hub
  | .start c now => some (h.start c now)
  | .resume p k now => ((h.limits p).resume k).map fun g => (h.setLimit p g.2).enter g.1 now
  | .cancel p k => ((h.limits p).cancel k).map fun s => h.setLimit p s
  | .answer k reply now wall => h.inFlight[k]?.map fun c => (h.finish k c).keep closed c reply now wall
  | .fail k => h.inFlight[k]?.map fun c => h.finish k c

end Step

end SensorHub

end RFObserver
