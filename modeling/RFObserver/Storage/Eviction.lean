import RFObserver.Lib.RoundHalfEven
import RFObserver.Storage.CaptureIndex

/-! The two evictions of automatic captures. -/

namespace RFObserver

/-- A capture being recorded, by its name or the `_drop` name its finalize may give it. -/
def isActiveCapture (name : String) (activeNames : List String) : Bool :=
  activeNames.any fun active =>
    name = active ∨ ((if endsWith active ".sc16" then dropSuffix active ".sc16" else active) ++ "_drop").toList <+:
      name.toList ∧ endsWith name ".sc16"

namespace LocalStorage

variable {T : Type*} [LinearOrder T] (s : LocalStorage T)

def keyPath (k : T ×ₗ String) : String := (ofLex k).2

/-- `_priority_cap_bytes` -/
def priorityCapBytes (maxBytes : Int) (share : ℚ) : Int := truncate (maxBytes * min 1 (max 0 share))

/-- `_oldest_ordinary_locked` -/
def oldestOrdinary (order : List (T ×ₗ String)) (exclude : String) : Option String :=
  (order.find? fun k => keyPath k ≠ exclude ∧ (s.find (keyPath k)).any fun e => !e.priority).map keyPath

/-- `_cap_victim_locked` -/
def capVictim (order : List (T ×ₗ String)) (maxBytes : Int) (share : ℚ) (exclude : String) : Option String :=
  if share ≤ 0 then (order.find? fun k => keyPath k ≠ exclude).map keyPath
  else
    let oldestPrio := (s.prioOrder.find? fun k => keyPath k ≠ exclude).map keyPath
    if priorityCapBytes maxBytes share < s.prioBytes ∧ oldestPrio.isSome then oldestPrio
    else (s.oldestOrdinary order exclude).or oldestPrio

/-- One pass of `enforce_cap`: the victim, if it does not return. None is a KeyError. -/
def capPass (maxBytes : Int) (share : ℚ) : Option (Option String) :=
  match s.order s.autoDir, s.bytes s.autoDir with
  | some order, some bytes =>
    if bytes ≤ maxBytes ∨ order.length ≤ 1 then some none
    else some (order.getLast?.bind fun newest => s.capVictim order maxBytes share (keyPath newest))
  | _, _ => none

/-- `enforce_cap` of at most so many passes: the index it ends with, and each
deletion's path with the index before it. -/
def enforceCap (maxBytes : Int) (share : ℚ) : Nat → LocalStorage T →
    Option (LocalStorage T × List (LocalStorage T × String))
  | 0, _ => none
  | fuel + 1, s =>
    match s.capPass maxBytes share with
    | none => none
    | some none => some (s, [])
    | some (some victim) =>
      (enforceCap maxBytes share fuel (s.deleteCapture victim)).map fun r => (r.1, (s, victim) :: r.2)

/-- `_auto_oldest_first` -/
def autoOldestFirst (share : ℚ) : Option (List (CaptureEntry T)) :=
  (s.order s.autoDir).bind fun order => (order.mapM fun k => s.find (keyPath k)).map fun entries =>
    if share ≤ 0 then entries else (entries.filter fun e => !e.priority) ++ entries.filter CaptureEntry.priority

/-- What `evict_until_free` asks before its i-th candidate: the free bytes, and
the names that are active by then. -/
structure Readings where
  free : Nat → Int
  active : Nat → List String

/-- `protected` -/
def isProtected (exclude : List String) (notAfter : Option T) (readings : Readings) (i : Nat)
    (e : CaptureEntry T) : Bool :=
  isActiveCapture (fileName e.path) exclude || notAfter.any (· ≤ e.mtime) ||
    isActiveCapture (fileName e.path) (readings.active i)

/-- The loop of `evict_until_free` from the i-th candidate on: the index it
ends with, and the captures deleted. -/
def evictFrom (target : Int) (exclude : List String) (notAfter : Option T) (readings : Readings) :
    Nat → List (CaptureEntry T) → LocalStorage T → LocalStorage T × List (CaptureEntry T)
  | _, [], s => (s, [])
  | i, victim :: rest, s =>
    if target ≤ readings.free i then (s, [])
    else if isProtected exclude notAfter readings i victim then
      evictFrom target exclude notAfter readings (i + 1) rest s
    else
      let r := evictFrom target exclude notAfter readings (i + 1) rest (s.deleteCapture victim.path)
      (r.1, victim :: r.2)

def evictUntilFree (share : ℚ) (target : Int) (exclude : List String) (notAfter : Option T) (readings : Readings) :
    Option (LocalStorage T × List (CaptureEntry T)) :=
  (s.autoOldestFirst share).map fun queue => evictFrom target exclude notAfter readings 0 queue s

end LocalStorage
end RFObserver
