import Mathlib.Data.Prod.Lex
import Mathlib.Data.String.Basic
import Mathlib.Tactic
import RFObserver.Lib.Bisect
import RFObserver.Lib.Runs

namespace RFObserver

/-! Paths are strings as pathlib spells them. -/

def joinPath (dir name : String) : String := dir ++ "/" ++ name

/-- What stands before the last slash. -/
def parentPath (path : String) : String :=
  String.ofList ((path.toList.reverse.dropWhile (· ≠ '/')).drop 1).reverse

/-- What stands after the last slash. -/
def fileName (path : String) : String :=
  String.ofList (path.toList.reverse.takeWhile (· ≠ '/')).reverse

/-- The name up to its last dot, unless that is its first or last character. -/
def fileStem (path : String) : String :=
  let name := (fileName path).toList
  let suffix := (name.reverse.takeWhile (· ≠ '.')).length
  if 0 < suffix ∧ suffix + 1 < name.length then String.ofList (name.take (name.length - suffix - 1)) else fileName path

def endsWith (name suffix : String) : Prop := suffix.toList <:+ name.toList

instance endsWith.decidable (name suffix : String) : Decidable (endsWith name suffix) :=
  inferInstanceAs (Decidable (_ <:+ _))

/-- `name[: -len(suffix)]`. -/
def dropSuffix (name suffix : String) : String :=
  String.ofList (name.toList.take (name.toList.length - suffix.toList.length))

def prioritySuffix : String := ".priority"

def companionSuffixes : List String := [".json", ".psd", ".psd.json", ".detections.json", ".npz", prioritySuffix]

/-- Longest first, so "x.psd.json" belongs to "x", not to "x.psd". -/
def suffixesLongestFirst : List String := [".detections.json", ".psd.json", prioritySuffix, ".json", ".psd", ".npz"]

/-- The capture a file in a capture directory belongs to. -/
def captureBase (name : String) : Option String :=
  if endsWith name ".sc16" then some (dropSuffix name ".sc16")
  else (suffixesLongestFirst.find? fun suffix => endsWith name suffix).map (dropSuffix name)

/-- A tracked capture: its .sc16 and that file's mtime, the bytes of all its
files when last measured, and whether it carries the priority mark. -/
structure CaptureEntry (T : Type*) where
  path : String
  mtime : T
  size : Nat
  priority : Bool
  deriving DecidableEq

namespace CaptureEntry

variable {T : Type*} (e : CaptureEntry T)

def key : T ×ₗ String := toLex (e.mtime, e.path)

def dir : String := parentPath e.path

/-- The directory's origin, unless the capture is scheduled. -/
def origin : String :=
  if "-sched-".toList <:+: (fileStem e.path).toList then "scheduled" else fileName e.dir

end CaptureEntry

/-- What a call finds on disk: the names in a directory, and a file's mtime and
size (`lstat` of the file itself, `stat` of what it points to). -/
structure FileSystem (T : Type*) where
  names : String → Option (List String)
  stat : String → Option (T × Nat)
  lstat : String → Option (T × Nat)
  distinct : ∀ dir list, names dir = some list → list.Nodup
  plain : ∀ dir list, names dir = some list → ∀ name ∈ list, '/' ∉ name.toList

namespace FileSystem

variable {T : Type*} (fs : FileSystem T)

def companionPaths (path : String) : List String :=
  companionSuffixes.map fun suffix => joinPath (parentPath path) (dropSuffix (fileName path) ".sc16" ++ suffix)

/-- Total bytes of a capture: its .sc16 plus every existing companion. -/
def captureSize (path : String) : Nat :=
  ((path :: companionPaths path).map fun p => ((fs.stat p).map Prod.snd).getD 0).sum

def markerPath (path : String) : String :=
  joinPath (parentPath path) (dropSuffix (fileName path) ".sc16" ++ prioritySuffix)

/-- The capture files of a directory, each with its base, mtime and size. -/
def captureFiles (dir : String) : List (String × String × T × Nat) :=
  ((fs.names dir).getD []).filterMap fun name =>
    (captureBase name).bind fun base => (fs.lstat (joinPath dir name)).map fun st => (name, base, st)

/-- One pass over a directory: an entry for each .sc16, with its companions' bytes. -/
def scanDir (dir : String) : List (CaptureEntry T) :=
  let files := fs.captureFiles dir
  (files.filter fun f => endsWith f.1 ".sc16").map fun f =>
    { path := joinPath dir (f.2.1 ++ ".sc16")
      mtime := f.2.2.1
      size := ((files.filter fun g => g.2.1 = f.2.1).map fun g => g.2.2.2).sum
      priority := files.any fun g => g.2.1 = f.2.1 ∧ endsWith g.1 prioritySuffix }

end FileSystem

/-- The in-memory capture index. `order` and `bytes` are kept per directory,
`prioOrder` and `prioBytes` for the priority captures of auto/. -/
structure LocalStorage (T : Type*) [LinearOrder T] where
  autoDir : String
  manualDir : String
  entries : List (CaptureEntry T)
  order : String → Option (List (T ×ₗ String))
  bytes : String → Option Int
  prioOrder : List (T ×ₗ String)
  prioBytes : Int

namespace LocalStorage

variable {T : Type*} [LinearOrder T] (s : LocalStorage T)

def isAutoPriority (e : CaptureEntry T) : Bool := e.priority && e.dir = s.autoDir

def find (path : String) : Option (CaptureEntry T) := s.entries.find? fun e => e.path = path

def size (entries : List (CaptureEntry T)) : Int := (entries.map fun e => (e.size : Int)).sum

/-- The index of one scan of auto/ and manual/. -/
def rebuildIndex (fs : FileSystem T) : LocalStorage T :=
  let entries := fs.scanDir s.autoDir ++ fs.scanDir s.manualDir
  let within := fun dir => entries.filter fun e => e.dir = dir
  let prio := entries.filter s.isAutoPriority
  { s with
    entries
    order := fun dir =>
      if dir = s.autoDir ∨ dir = s.manualDir then some (((within dir).map CaptureEntry.key).insertionSort (· ≤ ·))
      else none
    bytes := fun dir => if dir = s.autoDir ∨ dir = s.manualDir then some (size (within dir)) else none
    prioOrder := (prio.map CaptureEntry.key).insertionSort (· ≤ ·)
    prioBytes := size prio }

/-- `_remove_locked`. A directory that `_order` does not know is a KeyError,
after the entry is gone. -/
def removeLocked (path : String) : LocalStorage T :=
  match s.find path with
  | none => s
  | some e =>
    let popped := { s with entries := s.entries.eraseP fun e => e.path = path }
    match s.order e.dir, s.bytes e.dir with
    | some order, some bytes =>
      { popped with
        order := Function.update s.order e.dir (some (Bisect.removeSorted order e.key))
        bytes := Function.update s.bytes e.dir (some (bytes - e.size))
        prioOrder := if s.isAutoPriority e then Bisect.removeSorted s.prioOrder e.key else s.prioOrder
        prioBytes := if s.isAutoPriority e then s.prioBytes - e.size else s.prioBytes }
    | _, _ => popped

/-- `_add_locked`, for a path that has no entry. -/
def addLocked (e : CaptureEntry T) : LocalStorage T :=
  let added := { s with entries := s.entries ++ [e] }
  match s.order e.dir, s.bytes e.dir with
  | some order, some bytes =>
    { added with
      order := Function.update s.order e.dir (some (Bisect.insort order e.key))
      bytes := Function.update s.bytes e.dir (some (bytes + e.size))
      prioOrder := if s.isAutoPriority e then Bisect.insort s.prioOrder e.key else s.prioOrder
      prioBytes := if s.isAutoPriority e then s.prioBytes + e.size else s.prioBytes }
  | _, _ => added

def forget (path : String) : LocalStorage T := s.removeLocked path

/-- Add or re-measure one capture. One that no longer exists is dropped. -/
def track (fs : FileSystem T) (path : String) : LocalStorage T :=
  if parentPath path = s.autoDir ∨ parentPath path = s.manualDir then
    match fs.stat path with
    | none => s.forget path
    | some st =>
      (s.removeLocked path).addLocked
        { path, mtime := st.1, size := fs.captureSize path, priority := (fs.stat (FileSystem.markerPath path)).isSome }
  else s

/-- `_delete_capture`: the index lets go of the capture before its files go. -/
def deleteCapture (path : String) : LocalStorage T := s.removeLocked path

/-- How `mark_priority`'s touch of one marker goes. The index lock is not held
meanwhile, so the capture may be evicted. -/
inductive Touch
  | failed
  | touched
  | evicted
  deriving DecidableEq

/-- The second half of `mark_priority`, under the lock again. -/
def promote (path : String) : LocalStorage T :=
  match s.find path with
  | none => s
  | some e => if e.priority then s else (s.removeLocked path).addLocked { e with priority := true }

def markOne (path : String) (touch : Touch) : LocalStorage T :=
  match s.find path with
  | none => s
  | some e =>
    if e.priority ∨ e.dir ≠ s.autoDir then s
    else
      match touch with
      | .failed => s
      | .touched => s.promote path
      | .evicted => (s.deleteCapture path).promote path

def markPriority (paths : List (String × Touch)) : LocalStorage T :=
  paths.foldl (fun s p => s.markOne p.1 p.2) s

/-- How far `set_storage_path` gets: the directories cannot be made, moving the
old flat captures or reading a directory raises, or all goes well. -/
inductive Progress
  | noDirectories
  | noScan
  | done
  deriving DecidableEq

/-- Point at a storage root and index it. The directories are switched before
the steps that may still raise. -/
def setStoragePath (fs : FileSystem T) (root : String) (progress : Progress) : LocalStorage T :=
  let switched := { s with autoDir := joinPath root "auto", manualDir := joinPath root "manual" }
  match progress with
  | .noDirectories => s
  | .noScan => switched
  | .done => switched.rebuildIndex fs

/-- A storage whose constructor did not raise. -/
def create (fs : FileSystem T) (root : String) : LocalStorage T :=
  setStoragePath ⟨"", "", [], fun _ => none, fun _ => none, [], 0⟩ fs root .done

/-- Tracked captures across both directories, newest first, from `offset` on and
at most `limit`; with `origins` only those. None is a KeyError. -/
def capturesNewestFirst (offset : Nat) (limit : Option Nat) (origins : Option (List String)) :
    Option (List (CaptureEntry T)) := do
  let auto ← s.order s.autoDir
  let manual ← s.order s.manualDir
  let merged := auto.reverse.merge manual.reverse fun a b => b ≤ a
  let entries ← merged.mapM fun k => s.find (ofLex k).2
  let matching := entries.filter fun e => origins.all fun origins => e.origin ∈ origins
  let rest := matching.drop offset
  return limit.elim rest rest.take

/-- auto/ captures last written at or after `mtime`, oldest first. -/
def autoCapturesSince (mtime : T) : Option (List String) :=
  (s.order s.autoDir).map fun order =>
    (order.drop (Bisect.bisectLeft order (toLex (mtime, "")))).map fun k => (ofLex k).2

inductive Act (T : Type*)
  | setStoragePath (fs : FileSystem T) (root : String) (progress : Progress)
  | rebuildIndex (fs : FileSystem T)
  | track (fs : FileSystem T) (path : String)
  | forget (path : String)
  | markPriority (paths : List (String × Touch))
  | deleteCapture (path : String)

def step (s : LocalStorage T) : Act T → Option (LocalStorage T)
  | .setStoragePath fs root progress => some (s.setStoragePath fs root progress)
  | .rebuildIndex fs => some (s.rebuildIndex fs)
  | .track fs path => some (s.track fs path)
  | .forget path => some (s.forget path)
  | .markPriority paths => some (s.markPriority paths)
  | .deleteCapture path => some (s.deleteCapture path)

/-- The runs of a storage opened at some root, all of whose steps meet a condition. -/
def Reach (allowed : LocalStorage T → Act T → Prop) (s : LocalStorage T) : Prop :=
  ∃ fs root, Runs.Reach step (create fs root) allowed s

/-- The entries of a directory. -/
def within (dir : String) : List (CaptureEntry T) := s.entries.filter fun e => e.dir = dir

/-- The index says exactly what the entries are. -/
structure Indexed : Prop where
  apart : s.autoDir ≠ s.manualDir
  distinct : (s.entries.map CaptureEntry.path).Nodup
  homes : ∀ e ∈ s.entries, e.dir = s.autoDir ∨ e.dir = s.manualDir
  ordered : ∀ dir, dir = s.autoDir ∨ dir = s.manualDir →
    ∃ order, s.order dir = some order ∧ Bisect.Mirrors order ((s.within dir).map CaptureEntry.key)
  sized : ∀ dir, dir = s.autoDir ∨ dir = s.manualDir → s.bytes dir = some (size (s.within dir))
  prioOrdered : Bisect.Mirrors s.prioOrder ((s.entries.filter s.isAutoPriority).map CaptureEntry.key)
  prioSized : s.prioBytes = size (s.entries.filter s.isAutoPriority)

/-- A listing is the asked part of the matching entries, newest first. -/
def Lists : Prop :=
  ∀ offset limit origins, ∃ newest : List (CaptureEntry T),
    newest.Perm (s.entries.filter fun e => origins.all fun origins => e.origin ∈ origins) ∧
      newest.Pairwise (fun e e' => e'.key < e.key) ∧
        s.capturesNewestFirst offset limit origins =
          some (limit.elim (newest.drop offset) (newest.drop offset).take)

def Consistent : Prop := s.Indexed ∧ s.Lists

/-- A call that gets no further than the switch switches nothing. -/
def Settled (s : LocalStorage T) : Act T → Prop
  | .setStoragePath _ root progress =>
    progress = .noScan → joinPath root "auto" = s.autoDir ∧ joinPath root "manual" = s.manualDir
  | _ => True

instance decidableSettled (s : LocalStorage T) : ∀ act, Decidable (Settled s act)
  | .setStoragePath _ root progress => inferInstanceAs (Decidable
      (progress = .noScan → joinPath root "auto" = s.autoDir ∧ joinPath root "manual" = s.manualDir))
  | .rebuildIndex _ | .track _ _ | .forget _ | .markPriority _ | .deleteCapture _ => isTrue trivial

end LocalStorage
end RFObserver
