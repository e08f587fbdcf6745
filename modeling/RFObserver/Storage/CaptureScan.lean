import Mathlib.Algebra.BigOperators.Group.Finset.Basic
import RFObserver.Storage.CaptureIndexRuns

/-! One scan of the capture directories beside tracking each capture. -/

namespace RFObserver

def captureSuffixes : List String := ".sc16" :: companionSuffixes

/-- A capture name that is not the front of another capture's companion. -/
structure OrdinaryBase (base : String) : Prop where
  psd : ¬ endsWith base ".psd"
  detections : ¬ endsWith base ".detections"

theorem endsWith_append_self (base suffix : String) : endsWith (base ++ suffix) suffix := by
  rw [endsWith, String.toList_append]
  exact List.suffix_append ..

theorem dropSuffix_self (base suffix : String) : dropSuffix (base ++ suffix) suffix = base := by
  rw [dropSuffix, String.toList_append, List.length_append, Nat.add_sub_cancel, List.take_left, String.ofList_toList]

/-- What holds of the suffixes of a capture's files, checked at once. -/
theorem suffixes_checked : (∀ suffix ∈ captureSuffixes, ∀ other ∈ captureSuffixes, endsWith other suffix →
      ¬ endsWith suffix other → dropSuffix other suffix ∈ [".psd", ".detections"]) ∧
    (∀ suffix ∈ companionSuffixes, ¬ endsWith suffix ".sc16" ∧
      suffixesLongestFirst.find? (fun other => endsWith suffix other) = some suffix) ∧
    (∀ other ∈ suffixesLongestFirst, other ∈ companionSuffixes) ∧
    (∀ suffix ∈ captureSuffixes, '/' ∉ suffix.toList) ∧
    (∀ suffix ∈ captureSuffixes, endsWith suffix prioritySuffix → suffix = prioritySuffix) ∧ captureSuffixes.Nodup := by
  decide +kernel

/-- A suffix that only reaches into the base with its front. -/
theorem captureSuffixes_front : ∀ suffix ∈ captureSuffixes, ∀ other ∈ captureSuffixes,
    endsWith other suffix → ¬ endsWith suffix other → dropSuffix other suffix ∈ [".psd", ".detections"] :=
  suffixes_checked.1

theorem endsWith_append_iff {base suffix other : String} (ordinary : OrdinaryBase base)
    (known : suffix ∈ captureSuffixes) (known' : other ∈ captureSuffixes) :
    endsWith (base ++ suffix) other ↔ endsWith suffix other := by
  have own := endsWith_append_self base suffix
  constructor
  · intro ends
    by_contra short
    have longer : endsWith other suffix := by
      rcases Nat.le_total other.toList.length suffix.toList.length with le | le
      · exact absurd (List.suffix_of_suffix_length_le ends own le) short
      · exact List.suffix_of_suffix_length_le own ends le
    have front : endsWith base (dropSuffix other suffix) := by
      have whole := dropSuffix_append longer
      rw [← whole, endsWith, String.toList_append, String.toList_append] at ends
      obtain ⟨rest, same⟩ := ends
      rw [← List.append_assoc] at same
      exact ⟨rest, List.append_cancel_right same⟩
    have cases_ := captureSuffixes_front suffix known other known' longer short
    rcases List.mem_cons.mp cases_ with psd | detections
    · exact ordinary.psd (psd ▸ front)
    · exact ordinary.detections (List.mem_singleton.mp detections ▸ front)
  · intro ends
    exact ends.trans own

theorem suffixesLongestFirst_find : ∀ suffix ∈ companionSuffixes, ¬ endsWith suffix ".sc16" ∧
    suffixesLongestFirst.find? (fun other => endsWith suffix other) = some suffix :=
  suffixes_checked.2.1

theorem suffixesLongestFirst_known : ∀ other ∈ suffixesLongestFirst, other ∈ companionSuffixes :=
  suffixes_checked.2.2.1

theorem captureBase_append {base suffix : String} (ordinary : OrdinaryBase base) (known : suffix ∈ captureSuffixes) :
    captureBase (base ++ suffix) = some base := by
  rcases List.mem_cons.mp known with rfl | companion
  · rw [captureBase, if_pos (endsWith_append_self ..), dropSuffix_self]
  · obtain ⟨other, found⟩ := suffixesLongestFirst_find suffix companion
    have notCapture : ¬ endsWith (base ++ suffix) ".sc16" :=
      mt (endsWith_append_iff ordinary known (List.mem_cons_self ..)).mp other
    have same : suffixesLongestFirst.find? (fun other => endsWith (base ++ suffix) other) = some suffix := by
      rw [← found]
      refine List.find?_congr fun other member => decide_eq_decide.mpr ?_
      exact endsWith_append_iff ordinary known (List.mem_cons_of_mem _ (suffixesLongestFirst_known other member))
    rw [captureBase, if_neg notCapture, same, Option.map_some, dropSuffix_self]

theorem captureBase_eq_some {name base : String} (found : captureBase name = some base) :
    ∃ suffix ∈ captureSuffixes, name = base ++ suffix := by
  rw [captureBase] at found
  split at found
  · rename_i ends
    cases found
    exact ⟨".sc16", List.mem_cons_self .., (dropSuffix_append ends).symm⟩
  · obtain ⟨suffix, first, rfl⟩ := Option.map_eq_some_iff.mp found
    have test := List.find?_some first
    have ends : endsWith name suffix := of_decide_eq_true test
    have known := suffixesLongestFirst_known suffix (List.mem_of_find?_eq_some first)
    exact ⟨suffix, List.mem_cons_of_mem _ known, (dropSuffix_append ends).symm⟩

theorem fileName_join {dir name : String} (plain : '/' ∉ name.toList) : fileName (joinPath dir name) = name := by
  have reversed : (dir ++ "/" ++ name).toList.reverse = name.toList.reverse ++ '/' :: dir.toList.reverse := by
    simp [String.toList_append]
  have all : ∀ c ∈ name.toList.reverse, decide (c ≠ '/') = true := fun c member =>
    decide_eq_true fun same => plain (same ▸ List.mem_reverse.mp member)
  rw [fileName, joinPath, reversed, List.takeWhile_append_of_pos all]
  simp

theorem captureSuffixes_plain : ∀ suffix ∈ captureSuffixes, '/' ∉ suffix.toList :=
  suffixes_checked.2.2.2.1

theorem captureSuffixes_priority : ∀ suffix ∈ captureSuffixes, endsWith suffix prioritySuffix →
    suffix = prioritySuffix :=
  suffixes_checked.2.2.2.2.1

theorem captureSuffixes_nodup : captureSuffixes.Nodup :=
  suffixes_checked.2.2.2.2.2

namespace FileSystem

variable {T : Type*} (fs : FileSystem T)

/-- A directory that is listed, with all that is in it, and whose captures have ordinary names. -/
structure Listed (dir : String) (names : List String) : Prop where
  list : fs.names dir = some names
  complete : ∀ name, '/' ∉ name.toList → (fs.lstat (joinPath dir name)).isSome → name ∈ names
  ordinary : ∀ name ∈ names, endsWith name ".sc16" → OrdinaryBase (dropSuffix name ".sc16")

/-- None of its capture files is a symbolic link. -/
def NoLinks (dir : String) : Prop :=
  ∀ name base, captureBase name = some base → fs.stat (joinPath dir name) = fs.lstat (joinPath dir name)

/-- The entry `track` makes of a path. -/
def trackedEntry (path : String) : Option (CaptureEntry T) :=
  (fs.stat path).map fun st =>
    { path, mtime := st.1, size := fs.captureSize path, priority := (fs.stat (markerPath path)).isSome }

/-- The bytes of a file, 0 if there is none. -/
def bytesAt (path : String) : Nat := ((fs.stat path).map Prod.snd).getD 0

section Capture

variable {fs} {dir base : String} {names : List String}

theorem companionPaths_join (plain : '/' ∉ base.toList) :
    joinPath dir (base ++ ".sc16") :: companionPaths (joinPath dir (base ++ ".sc16")) =
      captureSuffixes.map fun suffix => joinPath dir (base ++ suffix) := by
  have plain' : '/' ∉ (base ++ ".sc16").toList := by
    rw [String.toList_append, List.mem_append]
    exact not_or.mpr ⟨plain, captureSuffixes_plain _ (List.mem_cons_self ..)⟩
  rw [companionPaths, parentPath_join plain', fileName_join plain', dropSuffix_self]
  rfl

theorem markerPath_join (plain : '/' ∉ base.toList) :
    markerPath (joinPath dir (base ++ ".sc16")) = joinPath dir (base ++ prioritySuffix) := by
  have plain' : '/' ∉ (base ++ ".sc16").toList := by
    rw [String.toList_append, List.mem_append]
    exact not_or.mpr ⟨plain, captureSuffixes_plain _ (List.mem_cons_self ..)⟩
  rw [markerPath, parentPath_join plain', fileName_join plain', dropSuffix_self]

theorem captureFiles_sum (base : String) :
    (((fs.captureFiles dir).filter fun g => g.2.1 = base).map fun g => g.2.2.2).sum =
      ((((fs.names dir).getD []).filter fun name => captureBase name = some base).map fun name =>
        ((fs.lstat (joinPath dir name)).map Prod.snd).getD 0).sum := by
  unfold captureFiles
  induction (fs.names dir).getD [] with
  | nil => rfl
  | cons name names ih =>
    rw [List.filterMap_cons, List.filter_cons]
    cases isBase : captureBase name with
    | none => simpa [isBase] using ih
    | some other =>
      cases stat : fs.lstat (joinPath dir name) with
      | none => by_cases same : other = base <;> simpa [isBase, stat, same] using ih
      | some st => by_cases same : other = base <;> simpa [isBase, stat, same] using ih

/-- The files of an ordinary capture in a listing, and the paths its bytes are looked for at. -/
theorem sum_captureSize (listed : fs.Listed dir names) (links : fs.NoLinks dir) (ordinary : OrdinaryBase base)
    (plain : '/' ∉ base.toList) :
    (((fs.captureFiles dir).filter fun g => g.2.1 = base).map fun g => g.2.2.2).sum =
      fs.captureSize (joinPath dir (base ++ ".sc16")) := by
  let bytes := fun name => ((fs.lstat (joinPath dir name)).map Prod.snd).getD 0
  have inNames : ∀ name, name ∈ names.filter (fun name => captureBase name = some base) ↔
      name ∈ names ∧ name ∈ captureSuffixes.map (base ++ ·) := by
    intro name
    rw [List.mem_filter, decide_eq_true_eq]
    refine and_congr_right fun _ => ⟨fun found => ?_, fun member => ?_⟩
    · obtain ⟨suffix, known, rfl⟩ := captureBase_eq_some found
      exact List.mem_map_of_mem known
    · obtain ⟨suffix, known, rfl⟩ := List.mem_map.mp member
      exact captureBase_append ordinary known
  have distinct : (names.filter fun name => captureBase name = some base).Nodup :=
    (fs.distinct dir names listed.list).sublist List.filter_sublist
  have distinct' : (captureSuffixes.map (base ++ ·)).Nodup :=
    captureSuffixes_nodup.map fun a b same => by
      have lists := congrArg String.toList same
      rw [String.toList_append, String.toList_append] at lists
      exact String.toList_injective (List.append_cancel_left lists)
  have sums : ((names.filter fun name => captureBase name = some base).map bytes).sum =
      ((captureSuffixes.map (base ++ ·)).map bytes).sum := by
    rw [← List.sum_toFinset _ distinct, ← List.sum_toFinset _ distinct']
    refine Finset.sum_subset (fun name member => ?_) fun name member absent => ?_
    · exact List.mem_toFinset.mpr ((inNames name).mp (List.mem_toFinset.mp member)).2
    · have member := List.mem_toFinset.mp member
      have absent := mt List.mem_toFinset.mpr absent
      have unlisted : name ∉ names := fun inside => absent ((inNames name).mpr ⟨inside, member⟩)
      obtain ⟨suffix, known, rfl⟩ := List.mem_map.mp member
      have noSlash : '/' ∉ (base ++ suffix).toList := by
        rw [String.toList_append, List.mem_append]
        exact not_or.mpr ⟨plain, captureSuffixes_plain suffix known⟩
      have none := Option.not_isSome_iff_eq_none.mp (mt (listed.complete _ noSlash) unlisted)
      simp only [none, Option.map_none, Option.getD_none]
  rw [captureFiles_sum, listed.list, Option.getD_some, sums, captureSize, companionPaths_join plain, List.map_map,
    List.map_map]
  refine congrArg List.sum (List.map_congr_left fun suffix known => ?_)
  simp only [Function.comp_apply, bytes, links _ _ (captureBase_append ordinary known)]

theorem mem_captureFiles {g : String × String × T × Nat} (list : fs.names dir = some names) : g ∈ fs.captureFiles dir ↔
    g.1 ∈ names ∧ captureBase g.1 = some g.2.1 ∧ fs.lstat (joinPath dir g.1) = some g.2.2 := by
  rw [captureFiles, list, Option.getD_some, List.mem_filterMap]
  constructor
  · rintro ⟨name, inside, found⟩
    obtain ⟨base, isBase, stat⟩ := Option.bind_eq_some_iff.mp found
    obtain ⟨st, isFile, rfl⟩ := Option.map_eq_some_iff.mp stat
    exact ⟨inside, isBase, isFile⟩
  · rintro ⟨inside, isBase, stat⟩
    exact ⟨g.1, inside, by rw [isBase, stat]; rfl⟩

/-- The .sc16 files of a listing. -/
theorem map_captureFiles {β : Type*} (list : fs.names dir = some names) (mk : String × String × T × Nat → β) :
    ((fs.captureFiles dir).filter fun f => endsWith f.1 ".sc16").map mk =
      (names.filter fun name => endsWith name ".sc16").filterMap fun name =>
        (fs.lstat (joinPath dir name)).map fun st => mk (name, dropSuffix name ".sc16", st) := by
  rw [captureFiles, list, Option.getD_some]
  clear list
  induction names with
  | nil => rfl
  | cons name names ih =>
    rw [List.filterMap_cons, List.filter_cons]
    by_cases ends : endsWith name ".sc16"
    · have isBase : captureBase name = some (dropSuffix name ".sc16") := by rw [captureBase, if_pos ends]
      rw [if_pos (decide_eq_true ends), List.filterMap_cons, isBase, Option.bind_some]
      cases fs.lstat (joinPath dir name) with
      | none => exact ih
      | some st =>
        simp only [Option.map_some]
        rw [List.filter_cons, if_pos (decide_eq_true ends), List.map_cons, ih]
    · rw [if_neg (by simpa using ends), ← ih]
      split
      · rfl
      · rename_i f found
        obtain ⟨base, -, stat⟩ := Option.bind_eq_some_iff.mp found
        obtain ⟨st, -, rfl⟩ := Option.map_eq_some_iff.mp stat
        rw [List.filter_cons, if_neg (by simpa using ends)]

/-- The mark of an ordinary capture, by its listing and by its path. -/
theorem any_priority (listed : fs.Listed dir names) (links : fs.NoLinks dir) (ordinary : OrdinaryBase base)
    (plain : '/' ∉ base.toList) :
    ((fs.captureFiles dir).any fun g => g.2.1 = base ∧ endsWith g.1 prioritySuffix) =
      (fs.stat (markerPath (joinPath dir (base ++ ".sc16")))).isSome := by
  have known : prioritySuffix ∈ captureSuffixes := by decide +kernel
  rw [markerPath_join plain, links _ _ (captureBase_append ordinary known), Bool.eq_iff_iff, List.any_eq_true]
  constructor
  · rintro ⟨g, member, test⟩
    obtain ⟨rfl, ends⟩ := of_decide_eq_true test
    obtain ⟨-, isBase, stat⟩ := (mem_captureFiles listed.list).mp member
    obtain ⟨suffix, known', name⟩ := captureBase_eq_some isBase
    rw [name, endsWith_append_iff ordinary known' known] at ends
    rw [← captureSuffixes_priority suffix known' ends, ← name, stat]
    rfl
  · intro exists_
    obtain ⟨st, stat⟩ := Option.isSome_iff_exists.mp exists_
    have noSlash : '/' ∉ (base ++ prioritySuffix).toList := by
      rw [String.toList_append, List.mem_append]
      exact not_or.mpr ⟨plain, captureSuffixes_plain _ known⟩
    refine ⟨(base ++ prioritySuffix, base, st), (mem_captureFiles listed.list).mpr ⟨?_, ?_, stat⟩, ?_⟩
    · exact listed.complete _ noSlash exists_
    · exact captureBase_append ordinary known
    · exact decide_eq_true ⟨rfl, endsWith_append_self ..⟩

/-- The scan's entries are those `track` makes of the .sc16 files in the listing. -/
theorem scanDir_eq (listed : fs.Listed dir names) (links : fs.NoLinks dir) :
    fs.scanDir dir = (names.filter fun name => endsWith name ".sc16").filterMap fun name =>
      fs.trackedEntry (joinPath dir name) := by
  have same : ∀ name ∈ names, endsWith name ".sc16" → ∀ st, fs.lstat (joinPath dir name) = some st →
      fs.trackedEntry (joinPath dir name) = some
        { path := joinPath dir (dropSuffix name ".sc16" ++ ".sc16")
          mtime := st.1
          size := (((fs.captureFiles dir).filter fun g => g.2.1 = dropSuffix name ".sc16").map fun g => g.2.2.2).sum
          priority := (fs.captureFiles dir).any fun g =>
            g.2.1 = dropSuffix name ".sc16" ∧ endsWith g.1 prioritySuffix } := by
    intro name inside ends st stat
    have ordinary := listed.ordinary name inside ends
    have whole := dropSuffix_append ends
    have plain : '/' ∉ (dropSuffix name ".sc16").toList := fun slash => by
      refine fs.plain dir names listed.list name inside ?_
      rw [← whole, String.toList_append]
      exact List.mem_append_left _ slash
    have isBase : captureBase name = some (dropSuffix name ".sc16") := by rw [captureBase, if_pos ends]
    rw [sum_captureSize listed links ordinary plain, any_priority listed links ordinary plain, whole, trackedEntry,
      links name _ isBase, stat, Option.map_some]
  rw [scanDir, map_captureFiles listed.list]
  refine List.filterMap_congr fun name member => ?_
  obtain ⟨inside, ends⟩ := List.mem_filter.mp member
  have isBase : captureBase name = some (dropSuffix name ".sc16") := by
    rw [captureBase, if_pos (of_decide_eq_true ends)]
  cases stat : fs.lstat (joinPath dir name) with
  | none =>
    rw [trackedEntry, links name _ isBase, stat]
    rfl
  | some st =>
    rw [same name inside (of_decide_eq_true ends) st stat]
    rfl

/-- No two captures have a file in common. -/
theorem captures_disjoint {base' : String} (ordinary : OrdinaryBase base) (ordinary' : OrdinaryBase base')
    (plain : '/' ∉ base.toList) (plain' : '/' ∉ base'.toList) (other : base ≠ base') :
    List.Disjoint (joinPath dir (base ++ ".sc16") :: companionPaths (joinPath dir (base ++ ".sc16")))
      (joinPath dir (base' ++ ".sc16") :: companionPaths (joinPath dir (base' ++ ".sc16"))) := by
  rw [companionPaths_join plain, companionPaths_join plain']
  intro path first second
  obtain ⟨suffix, known, rfl⟩ := List.mem_map.mp first
  obtain ⟨suffix', known', same⟩ := List.mem_map.mp second
  have bases := captureBase_append ordinary known
  rw [← joinPath_inj same, captureBase_append ordinary' known'] at bases
  exact other (Option.some.inj bases).symm

end Capture

theorem trackedEntry_path {fs : FileSystem T} {path : String} {e : CaptureEntry T}
    (made : fs.trackedEntry path = some e) : e.path = path := by
  obtain ⟨st, -, rfl⟩ := Option.map_eq_some_iff.mp made
  rfl

/-- The paths of the .sc16 files in a directory. -/
def sc16Paths (dir : String) : List String :=
  (((fs.names dir).getD []).filter fun name => endsWith name ".sc16").map (joinPath dir)

theorem sc16Paths_nodup (dir : String) : (fs.sc16Paths dir).Nodup := by
  refine List.Nodup.map (fun name name' same => joinPath_inj same) (List.Nodup.filter _ ?_)
  cases list : fs.names dir with
  | none => exact .nil
  | some names => exact fs.distinct dir names list

section Paths

variable {fs} {dir path : String} {names : List String}

/-- A .sc16 path of a listing: its base, and the directory of the capture's files. -/
theorem sc16Paths_base (listed : fs.Listed dir names) (member : path ∈ fs.sc16Paths dir) : ∃ base,
    path = joinPath dir (base ++ ".sc16") ∧ OrdinaryBase base ∧ '/' ∉ base.toList ∧
      ∀ file ∈ path :: companionPaths path, parentPath file = dir := by
  obtain ⟨name, kept, rfl⟩ := List.mem_map.mp member
  rw [listed.list] at kept
  obtain ⟨inside, test⟩ := List.mem_filter.mp kept
  have whole := dropSuffix_append (of_decide_eq_true test)
  have plain : '/' ∉ (dropSuffix name ".sc16").toList := fun slash => by
    refine fs.plain dir names listed.list name inside ?_
    rw [← whole, String.toList_append]
    exact List.mem_append_left _ slash
  refine ⟨dropSuffix name ".sc16", by rw [whole], listed.ordinary name inside (of_decide_eq_true test), plain,
    fun file among => ?_⟩
  rw [← whole, companionPaths_join plain] at among
  obtain ⟨suffix, known, rfl⟩ := List.mem_map.mp among
  refine parentPath_join ?_
  rw [String.toList_append, List.mem_append]
  exact not_or.mpr ⟨plain, captureSuffixes_plain suffix known⟩

end Paths

end FileSystem

namespace LocalStorage

variable {T : Type*} [LinearOrder T] {s : LocalStorage T} {fs : FileSystem T}

/-- The index of the same directories with no capture in it. -/
def blank (s : LocalStorage T) : LocalStorage T :=
  { s with
    entries := []
    order := fun dir => if dir = s.autoDir ∨ dir = s.manualDir then some [] else none
    bytes := fun dir => if dir = s.autoDir ∨ dir = s.manualDir then some 0 else none
    prioOrder := []
    prioBytes := 0 }

def tracked (s : LocalStorage T) (fs : FileSystem T) (paths : List String) : LocalStorage T :=
  paths.foldl (fun t path => t.track fs path) s

/-- The rebuilt index is the one that tracking every .sc16 of the directories gives, in any order. -/
structure ScansAlike (s : LocalStorage T) (fs : FileSystem T) : Prop where
  found : ∀ e, e ∈ (s.rebuildIndex fs).entries ↔
    ∃ path ∈ fs.sc16Paths s.autoDir ++ fs.sc16Paths s.manualDir, fs.trackedEntry path = some e
  tracked : ∀ paths : List String, paths.Perm (fs.sc16Paths s.autoDir ++ fs.sc16Paths s.manualDir) →
    let t := s.blank.tracked fs paths
    t.entries.Perm (s.rebuildIndex fs).entries ∧
      (∀ dir, dir = s.autoDir ∨ dir = s.manualDir →
        t.order dir = (s.rebuildIndex fs).order dir ∧ t.bytes dir = (s.rebuildIndex fs).bytes dir) ∧
      t.prioOrder = (s.rebuildIndex fs).prioOrder ∧ t.prioBytes = (s.rebuildIndex fs).prioBytes
  once : ∀ e ∈ (s.rebuildIndex fs).entries, ∀ e' ∈ (s.rebuildIndex fs).entries, e ≠ e' →
    List.Disjoint (e.path :: FileSystem.companionPaths e.path) (e'.path :: FileSystem.companionPaths e'.path)

theorem blank_indexed (apart : s.autoDir ≠ s.manualDir) : s.blank.Indexed where
  apart := apart
  distinct := .nil
  homes := nofun
  ordered _ home := ⟨[], if_pos home, .nil⟩
  sized _ home := if_pos home
  prioOrdered := .nil
  prioSized := rfl

theorem track_dirs (s : LocalStorage T) (path : String) :
    (s.track fs path).autoDir = s.autoDir ∧ (s.track fs path).manualDir = s.manualDir := by
  have dirs := s.removeLocked_dirs path
  unfold track
  split
  · split
    · exact dirs
    · unfold addLocked
      split <;> exact dirs
  · exact ⟨rfl, rfl⟩

theorem track_entries {path : String} (home : parentPath path = s.autoDir ∨ parentPath path = s.manualDir)
    (new : path ∉ s.entries.map CaptureEntry.path) :
    (s.track fs path).entries = s.entries ++ (fs.trackedEntry path).toList := by
  have absent : s.find path = none := by
    refine List.find?_eq_none.mpr fun e member => ?_
    simpa using fun same : e.path = path => new (List.mem_map.mpr ⟨e, member, same⟩)
  have unchanged : s.removeLocked path = s := by rw [removeLocked, absent]
  rw [track, if_pos home, FileSystem.trackedEntry]
  cases fs.stat path with
  | none => simp only [forget, unchanged, Option.map_none, Option.toList_none, List.append_nil]
  | some st =>
    simp only [unchanged, addLocked]
    split <;> rfl

/-- Tracking new captures one by one adds their entries. -/
theorem tracked_spec (indexed : s.Indexed) {paths : List String}
    (home : ∀ path ∈ paths, parentPath path = s.autoDir ∨ parentPath path = s.manualDir)
    (nodup : paths.Nodup) (new : ∀ path ∈ paths, path ∉ s.entries.map CaptureEntry.path) :
    (s.tracked fs paths).Indexed ∧ (s.tracked fs paths).autoDir = s.autoDir ∧
      (s.tracked fs paths).manualDir = s.manualDir ∧
      (s.tracked fs paths).entries = s.entries ++ paths.filterMap fs.trackedEntry := by
  induction paths generalizing s with
  | nil => exact ⟨indexed, rfl, rfl, (List.append_nil _).symm⟩
  | cons path paths ih =>
    obtain ⟨fresh, nodup⟩ := List.nodup_cons.mp nodup
    have first : (s.track fs path).entries = s.entries ++ (fs.trackedEntry path).toList :=
      track_entries (home path (List.mem_cons_self ..)) (new path (List.mem_cons_self ..))
    obtain ⟨auto, manual⟩ : (s.track fs path).autoDir = s.autoDir ∧ (s.track fs path).manualDir = s.manualDir :=
      s.track_dirs path
    obtain ⟨indexed', auto', manual', entries⟩ := ih (track_indexed indexed fs path)
      (fun p later => by rw [auto, manual]; exact home p (List.mem_cons_of_mem _ later)) nodup fun p later known => by
        rw [first, List.map_append, List.mem_append] at known
        rcases known with old | now
        · exact new p (List.mem_cons_of_mem _ later) old
        · obtain ⟨e, member, rfl⟩ := List.mem_map.mp now
          rw [FileSystem.trackedEntry_path (Option.mem_toList.mp member)] at later
          exact fresh later
    have unfolded : s.tracked fs (path :: paths) = (s.track fs path).tracked fs paths := List.foldl_cons ..
    rw [unfolded]
    refine ⟨indexed', auto'.trans auto, manual'.trans manual, ?_⟩
    rw [entries, first, List.append_assoc, List.filterMap_cons]
    cases fs.trackedEntry path <;> rfl

/-- An index is given by its directories and its entries. -/
theorem Indexed.eq_of_perm {t : LocalStorage T} (indexed : s.Indexed) (indexed' : t.Indexed)
    (auto : t.autoDir = s.autoDir) (manual : t.manualDir = s.manualDir) (perm : t.entries.Perm s.entries) :
    (∀ dir, dir = s.autoDir ∨ dir = s.manualDir → t.order dir = s.order dir ∧ t.bytes dir = s.bytes dir) ∧
      t.prioOrder = s.prioOrder ∧ t.prioBytes = s.prioBytes := by
  have prio : (t.entries.filter t.isAutoPriority).Perm (s.entries.filter s.isAutoPriority) := by
    have same : t.isAutoPriority = s.isAutoPriority := by
      funext e
      rw [isAutoPriority, isAutoPriority, auto]
    rw [same]
    exact perm.filter _
  refine ⟨fun dir home => ?_, ?_, ?_⟩
  · have home' : dir = t.autoDir ∨ dir = t.manualDir := by rwa [auto, manual]
    obtain ⟨order, ordered, mirrors⟩ := indexed.ordered dir home
    obtain ⟨order', ordered', mirrors'⟩ := indexed'.ordered dir home'
    have within : (t.within dir).Perm (s.within dir) := perm.filter _
    rw [ordered, ordered', indexed.sized dir home, indexed'.sized dir home', size_perm within]
    exact ⟨congrArg some (mirrors'.unique (mirrors.congr (within.map _).symm)), rfl⟩
  · exact indexed'.prioOrdered.unique (indexed.prioOrdered.congr (prio.map _).symm)
  · rw [indexed.prioSized, indexed'.prioSized, size_perm prio]

/-- Scanning the directories and tracking their captures agree, if no capture file is a symbolic link. -/
theorem scansAlike (apart : s.autoDir ≠ s.manualDir) {autoNames manualNames : List String}
    (auto : fs.Listed s.autoDir autoNames) (manual : fs.Listed s.manualDir manualNames)
    (autoLinks : fs.NoLinks s.autoDir) (manualLinks : fs.NoLinks s.manualDir) : s.ScansAlike fs := by
  have scanned : (s.rebuildIndex fs).entries =
      (fs.sc16Paths s.autoDir ++ fs.sc16Paths s.manualDir).filterMap fs.trackedEntry := by
    rw [List.filterMap_append, FileSystem.sc16Paths, FileSystem.sc16Paths, List.filterMap_map, List.filterMap_map,
      auto.list, manual.list]
    exact congrArg₂ (· ++ ·) (FileSystem.scanDir_eq auto autoLinks) (FileSystem.scanDir_eq manual manualLinks)
  have inAuto : ∀ path ∈ fs.sc16Paths s.autoDir, parentPath path = s.autoDir := fun path member => by
    obtain ⟨_, _, _, _, home⟩ := FileSystem.sc16Paths_base auto member
    exact home path (List.mem_cons_self ..)
  have inManual : ∀ path ∈ fs.sc16Paths s.manualDir, parentPath path = s.manualDir := fun path member => by
    obtain ⟨_, _, _, _, home⟩ := FileSystem.sc16Paths_base manual member
    exact home path (List.mem_cons_self ..)
  have nodup : (fs.sc16Paths s.autoDir ++ fs.sc16Paths s.manualDir).Nodup :=
    (fs.sc16Paths_nodup _).append (fs.sc16Paths_nodup _) fun path first second =>
      apart ((inAuto path first).symm.trans (inManual path second))
  have found : ∀ e, e ∈ (s.rebuildIndex fs).entries ↔
      ∃ path ∈ fs.sc16Paths s.autoDir ++ fs.sc16Paths s.manualDir, fs.trackedEntry path = some e := by
    intro e
    rw [scanned, List.mem_filterMap]
  refine ⟨found, fun paths perm => ?_, fun e member e' member' other => ?_⟩
  · have indexed : (s.blank.tracked fs paths).Indexed ∧ _ ∧ _ ∧ _ := tracked_spec (blank_indexed apart)
      (fun path member => (List.mem_append.mp (perm.mem_iff.mp member)).imp (inAuto path) (inManual path))
      (perm.nodup_iff.mpr nodup) fun path _ => List.not_mem_nil
    obtain ⟨indexed, autoDir, manualDir, entries⟩ := indexed
    have same : (s.blank.tracked fs paths).entries.Perm (s.rebuildIndex fs).entries := by
      rw [entries, scanned]
      exact perm.filterMap _
    exact ⟨same, (rebuildIndex_indexed apart fs).eq_of_perm indexed autoDir manualDir same⟩
  · obtain ⟨path, known, made⟩ := (found e).mp member
    obtain ⟨path', known', made'⟩ := (found e').mp member'
    have paths : path ≠ path' := by
      rintro rfl
      exact other (Option.some.inj (made.symm.trans made'))
    rw [FileSystem.trackedEntry_path made, FileSystem.trackedEntry_path made']
    have sameDir : ∀ {dir names}, fs.Listed dir names → path ∈ fs.sc16Paths dir → path' ∈ fs.sc16Paths dir →
        List.Disjoint (path :: FileSystem.companionPaths path) (path' :: FileSystem.companionPaths path') := by
      intro dir names listed first second
      obtain ⟨base, rfl, ordinary, plain, -⟩ := FileSystem.sc16Paths_base listed first
      obtain ⟨base', rfl, ordinary', plain', -⟩ := FileSystem.sc16Paths_base listed second
      exact FileSystem.captures_disjoint ordinary ordinary' plain plain' fun same => paths (by rw [same])
    rcases List.mem_append.mp known with first | first <;> rcases List.mem_append.mp known' with second | second
    · exact sameDir auto first second
    · obtain ⟨_, _, _, _, home⟩ := FileSystem.sc16Paths_base auto first
      obtain ⟨_, _, _, _, home'⟩ := FileSystem.sc16Paths_base manual second
      exact fun file among among' => apart ((home file among).symm.trans (home' file among'))
    · obtain ⟨_, _, _, _, home⟩ := FileSystem.sc16Paths_base manual first
      obtain ⟨_, _, _, _, home'⟩ := FileSystem.sc16Paths_base auto second
      exact fun file among among' => apart ((home' file among').symm.trans (home file among))
    · exact sameDir manual first second

section Example

def oneCaptureFiles : List (String × Nat × Nat) :=
  [("/d/auto/a.sc16", 5, 100), ("/d/auto/a.json", 6, 20), ("/d/auto/notes.txt", 1, 3)]

/-- A directory with one capture, its metadata and a foreign file; `stat` is
what the links in it lead to. -/
def oneCapture (stat : String → Option (Nat × Nat)) : FileSystem Nat where
  names dir :=
    if dir = "/d/auto" then some ["a.sc16", "a.json", "notes.txt"] else if dir = "/d/manual" then some [] else none
  stat := stat
  lstat path := oneCaptureFiles.lookup path
  distinct dir list isList := by
    split at isList
    · cases isList
      decide
    · split at isList <;> cases isList
      exact .nil
  plain dir list isList := by
    split at isList
    · cases isList
      decide
    · split at isList <;> cases isList
      nofun

theorem oneCaptureFiles_paths {path : String} (known : (oneCaptureFiles.lookup path).isSome) :
    path ∈ ["a.sc16", "a.json", "notes.txt"].map (joinPath "/d/auto") := by
  have same : oneCaptureFiles.map Prod.fst = ["a.sc16", "a.json", "notes.txt"].map (joinPath "/d/auto") := by
    decide +kernel
  obtain ⟨st, found⟩ := Option.isSome_iff_exists.mp known
  obtain ⟨before, after, split, -⟩ := List.lookup_eq_some_iff.mp found
  rw [← same, split]
  simp

variable (stat : String → Option (Nat × Nat))

theorem oneCapture_auto : (oneCapture stat).Listed "/d/auto" ["a.sc16", "a.json", "notes.txt"] where
  list := rfl
  complete name _ known := by
    obtain ⟨name', listed, same⟩ := List.mem_map.mp (oneCaptureFiles_paths known)
    exact joinPath_inj same ▸ listed
  ordinary := by
    have ordinary : ∀ name ∈ ["a.sc16", "a.json", "notes.txt"], endsWith name ".sc16" →
        ¬ endsWith (dropSuffix name ".sc16") ".psd" ∧ ¬ endsWith (dropSuffix name ".sc16") ".detections" := by
      decide +kernel
    exact fun name member ends => ⟨(ordinary name member ends).1, (ordinary name member ends).2⟩

theorem oneCapture_manual : (oneCapture stat).Listed "/d/manual" [] where
  list := rfl
  complete name _ known := by
    have known : (oneCaptureFiles.lookup (joinPath "/d/manual" name)).isSome := known
    obtain ⟨name', -, same⟩ := List.mem_map.mp (oneCaptureFiles_paths known)
    have letters := congrArg (fun path => path.toList[3]?) same
    simp [joinPath, String.toList_append] at letters
  ordinary := nofun

def opened : LocalStorage Nat := ⟨"/d/auto", "/d/manual", [], fun _ => none, fun _ => none, [], 0⟩

theorem scansAlike_oneCapture : opened.ScansAlike (oneCapture fun path => oneCaptureFiles.lookup path) :=
  scansAlike (by decide) (oneCapture_auto _) (oneCapture_manual _) (fun _ _ _ => rfl) fun _ _ _ => rfl

/-- The metadata is a link to a file of 90 bytes. The scan counts the link's own 20. -/
theorem scansAlike_fails : ¬ ∀ (s : LocalStorage Nat) (fs : FileSystem Nat) (autoNames manualNames : List String),
    s.autoDir ≠ s.manualDir → fs.Listed s.autoDir autoNames → fs.Listed s.manualDir manualNames → s.ScansAlike fs := by
  intro all
  let linked : String → Option (Nat × Nat) := fun path =>
    if path = "/d/auto/a.json" then some (7, 90) else oneCaptureFiles.lookup path
  have scans := (all opened (oneCapture linked) _ _ (by decide) (oneCapture_auto _) (oneCapture_manual _)).tracked
    ["/d/auto/a.sc16"] (by decide +kernel)
  have sizes : (opened.blank.tracked (oneCapture linked) ["/d/auto/a.sc16"]).entries.map CaptureEntry.size = [190] := by
    decide +kernel
  have sizes' : (opened.rebuildIndex (oneCapture linked)).entries.map CaptureEntry.size = [120] := by decide +kernel
  have same := scans.1.map CaptureEntry.size
  rw [sizes, sizes'] at same
  exact absurd same (by decide)

end Example

end LocalStorage

end RFObserver
