import Mathlib.Tactic
import RFObserver.Storage.CaptureIndexRuns

/-! The archive of isolated bursts: its in-memory index, and the threads that
save bursts and evict them. Each index method holds the index's lock. -/

namespace RFObserver

/-- A burst in the index: its data path, that file's mtime and the bytes of the pair. -/
structure BurstEntry (T : Type*) where
  path : String
  mtime : T
  size : Nat
  deriving DecidableEq

def BurstEntry.key {T : Type*} (e : BurstEntry T) : T ×ₗ String := toLex (e.mtime, e.path)

/-- A file of the walk under bursts/, with its mtime and size unless `os.stat` raised. -/
structure WalkedFile (T : Type*) where
  dir : String
  name : String
  stat : Option (T × Nat)

namespace WalkedFile

variable {T : Type*} (f : WalkedFile T)

def path : String := joinPath f.dir f.name

/-- The data path of the pair that the file is of. -/
def key : Option String :=
  if endsWith f.name ".sigmf-data" then some (joinPath f.dir (dropSuffix f.name ".sigmf-data" ++ ".sigmf-data"))
  else if endsWith f.name ".sigmf-meta" then some (joinPath f.dir (dropSuffix f.name ".sigmf-meta" ++ ".sigmf-data"))
  else none

/-- What a file adds to `sizes`. -/
def sized : Option (String × Nat) := f.key.bind fun key => f.stat.map fun st => (key, st.2)

/-- What a data file adds to `mtimes`. -/
def timed : Option (String × T) :=
  if endsWith f.name ".sigmf-data" then f.key.bind fun key => f.stat.map fun st => (key, st.1) else none

end WalkedFile

/-- Bursts under one bursts/ root. -/
structure BurstIndex (T : Type*) where
  entries : List (BurstEntry T)
  order : List (T ×ₗ String)
  total : Int

namespace BurstIndex

variable {T : Type*} [LinearOrder T] (s : BurstIndex T)

def find (path : String) : Option (BurstEntry T) := s.entries.find? fun e => e.path = path

/-- The index of one walk, which meets every file once. -/
def build (walk : List (WalkedFile T)) : BurstIndex T :=
  let sizes := walk.filterMap WalkedFile.sized
  let entries := (walk.filterMap WalkedFile.timed).map fun m =>
    (⟨m.1, m.2, ((sizes.filter fun z => z.1 = m.1).map Prod.snd).sum⟩ : BurstEntry T)
  { entries
    order := (entries.map BurstEntry.key).insertionSort (· ≤ ·)
    total := (entries.map fun e => (e.size : Int)).sum }

def removeLocked (path : String) : Option Nat × BurstIndex T :=
  match s.find path with
  | none => (none, s)
  | some e =>
    (some e.size, {
      entries := s.entries.eraseP fun e => e.path = path
      order := Bisect.removeSorted s.order e.key
      total := s.total - e.size })

def put (path : String) (mtime : T) (size : Nat) : BurstIndex T :=
  let removed := (s.removeLocked path).2
  { entries := removed.entries ++ [⟨path, mtime, size⟩]
    order := Bisect.insort removed.order (toLex (mtime, path))
    total := removed.total + size }

/-- Remove the oldest burst and return it, to delete. -/
def claimOldest : Option (String × Nat) × BurstIndex T :=
  match s.order with
  | [] => (none, s)
  | oldest :: _ =>
    let removed := s.removeLocked (ofLex oldest).2
    (some ((ofLex oldest).2, removed.1.getD 0), removed.2)

/-- The newest-first scan of `split`; none is a KeyError. -/
def newBytes (notAfter : T) : List (T ×ₗ String) → Option Nat
  | [] => some 0
  | k :: older =>
    if (ofLex k).1 < notAfter then some 0
    else (s.find (ofLex k).2).bind fun e => (newBytes notAfter older).map (e.size + ·)

/-- All bytes, and the bytes of bursts last written before `notAfter`. -/
def split (notAfter : Option T) : Option (Int × Int) :=
  match notAfter with
  | none => some (s.total, s.total)
  | some t => (s.newBytes t s.order.reverse).map fun new : Nat => (s.total, s.total - (new : Int))

end BurstIndex

namespace BurstArchive

/-- What an evictor's loop runs until: the index is within a cap, or enough space is free. -/
inductive Goal
  | cap (maxBytes : Int)
  | free (target : Int)
  deriving DecidableEq

/-- Where an evictor is; it deletes the files of what it claimed. -/
inductive Phase
  | testing
  | claiming
  | deleting (path : String) (size : Nat)
  | done
  deriving DecidableEq

/-- A call of `enforce_cap` or `evict_until_free`: the bytes it freed, and for the
books the steps it took, its claims, and how many bursts it could find, those held
when it started and those put since. -/
structure Evictor where
  goal : Goal
  phase : Phase
  freed : Nat
  steps : Nat
  claims : Nat
  supply : Nat
  deriving DecidableEq

inductive Event
  | put (path : String)
  | claim (evictor : Nat) (path : String)
  deriving DecidableEq

end BurstArchive

/-- The archive in use: its index, its evictors by number, and the log of what was put and claimed. -/
structure BurstArchive (T : Type*) where
  index : BurstIndex T
  evictors : List BurstArchive.Evictor
  log : List BurstArchive.Event

namespace BurstArchive

variable {T : Type*} [LinearOrder T]

/-- The loop's condition, with the free bytes that the disk reports. -/
def Goal.met (total freeBytes : Int) : Goal → Bool
  | .cap maxBytes => total ≤ maxBytes
  | .free target => target ≤ freeBytes

/-- One more step of an evictor. -/
def Evictor.to (e : Evictor) (phase : Phase) : Evictor := { e with phase, steps := e.steps + 1 }

/-- A new burst that the evictors at work may find. -/
def Evictor.supplied (e : Evictor) : Evictor := { e with supply := e.supply + 1 }

variable (s : BurstArchive T)

/-- `track`, after its `stat`; a burst that is gone leaves the index. -/
def track (path : String) : Option (T × Nat) → BurstArchive T
  | none => { s with index := (s.index.removeLocked path).2 }
  | some st =>
    { index := s.index.put path st.1 st.2, evictors := s.evictors.map Evictor.supplied, log := s.log ++ [.put path] }

def start (goal : Goal) : BurstArchive T :=
  { s with evictors := s.evictors ++ [⟨goal, .testing, 0, 0, 0, s.index.entries.length⟩] }

/-- The loop's test, which reads the total without the lock. -/
def test (n : Nat) (freeBytes : Int) (e : Evictor) : BurstArchive T :=
  { s with evictors := s.evictors.set n (e.to (if e.goal.met s.index.total freeBytes then .done else .claiming)) }

def claim (n : Nat) (e : Evictor) : BurstArchive T :=
  match s.index.claimOldest.1 with
  | none => { s with index := s.index.claimOldest.2, evictors := s.evictors.set n (e.to .done) }
  | some claimed =>
    { index := s.index.claimOldest.2
      evictors := s.evictors.set n { e.to (.deleting claimed.1 claimed.2) with claims := e.claims + 1 }
      log := s.log ++ [.claim n claimed.1] }

def delete (n : Nat) (e : Evictor) (size : Nat) : BurstArchive T :=
  { s with evictors := s.evictors.set n { e.to .testing with freed := e.freed + size } }

/-- A step of an evictor in its phase. -/
def advance (n : Nat) (freeBytes : Int) (e : Evictor) : Option (BurstArchive T) :=
  match e.phase with
  | .testing => some (s.test n freeBytes e)
  | .claiming => some (s.claim n e)
  | .deleting _ size => some (s.delete n e size)
  | .done => none

inductive Act (T : Type*)
  | track (path : String) (stat : Option (T × Nat))
  | start (goal : Goal)
  | advance (evictor : Nat) (freeBytes : Int)

def step (s : BurstArchive T) : Act T → Option (BurstArchive T)
  | .track path stat => some (s.track path stat)
  | .start goal => some (s.start goal)
  | .advance n freeBytes => s.evictors[n]?.bind (s.advance n freeBytes)

end BurstArchive
end RFObserver
