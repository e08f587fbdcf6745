import RFObserver.Storage.CaptureScan

/-! The names that the modules give the files beside a capture, some with
`with_suffix`, which puts its suffix in the place of what follows the last dot. -/

namespace RFObserver

/-- The last dot of the name and what follows it, unless that dot is its first or last character. -/
def suffixOf (path : String) : String :=
  String.ofList ((fileName path).toList.drop (fileStem path).toList.length)

def withSuffix (path suffix : String) : String := joinPath (parentPath path) (fileStem path ++ suffix)

namespace FileSystem

/-- `_base`, and what `grid_paths` starts from. -/
def companionBase (sc16Path : String) : String :=
  if suffixOf sc16Path = ".sc16" then withSuffix sc16Path "" else sc16Path

def gridPaths (sc16Path : String) : String × String :=
  (withSuffix (companionBase sc16Path) ".psd", withSuffix (companionBase sc16Path) ".psd.json")

def sidecarPath (sc16Path : String) : String := withSuffix (companionBase sc16Path) ".detections.json"

/-- The `.json` that the sidecar is built from. -/
def sidecarMetaPath (sc16Path : String) : String := withSuffix (companionBase sc16Path) ".json"

/-- The files beside a capture as the other modules name them. -/
def namedPaths (sc16Path : String) : List String :=
  [(gridPaths sc16Path).1, (gridPaths sc16Path).2, sidecarPath sc16Path, sidecarMetaPath sc16Path]

end FileSystem

/-- The name of a recording: the time is followed by a count, or by a schedule and its run. -/
def recordingStem (serial hostname time : String) : String := serial ++ "-" ++ hostname ++ "-" ++ time

def recordingPath (dir serial hostname time : String) : String :=
  joinPath dir (recordingStem serial hostname time ++ ".sc16")

/-- No dot but at the front. -/
def Undotted (name : String) : Prop := ∀ front back : List Char, name.toList = front ++ '.' :: back → front = []

section Stem

variable {dir name : String} {front back : List Char}

theorem fileStem_dotless (plain : '/' ∉ name.toList) (dotless : '.' ∉ name.toList) : fileStem (joinPath dir name) = name := by
  have all : ∀ c ∈ name.toList.reverse, decide (c ≠ '.') = true := fun c member =>
    decide_eq_true fun same => dotless (same ▸ List.mem_reverse.mp member)
  have whole : name.toList.reverse.takeWhile (· ≠ '.') = name.toList.reverse := List.takeWhile_eq_self_iff.mpr all
  rw [fileStem, fileName_join plain, whole, List.length_reverse, if_neg]
  omega

/-- What stands before the last dot, if anything stands on both sides of it. -/
theorem fileStem_dot (plain : '/' ∉ name.toList) (split : name.toList = front ++ '.' :: back) (last : '.' ∉ back) :
    fileStem (joinPath dir name) = if back ≠ [] ∧ front ≠ [] then String.ofList front else name := by
  have all : ∀ c ∈ back.reverse, decide (c ≠ '.') = true := fun c member =>
    decide_eq_true fun same => last (same ▸ List.mem_reverse.mp member)
  have suffix : name.toList.reverse.takeWhile (· ≠ '.') = back.reverse := by
    rw [split, List.reverse_append, List.reverse_cons, List.append_assoc, List.takeWhile_append_of_pos all]
    simp
  have length : name.toList.length = front.length + (back.length + 1) := by
    rw [split, List.length_append, List.length_cons]
  rw [fileStem, fileName_join plain, suffix, List.length_reverse, length]
  refine if_congr ?_ ?_ rfl
  · rw [← List.length_pos_iff, ← List.length_pos_iff]
    omega
  · rw [split, Nat.sub_sub, Nat.add_sub_cancel, List.take_left]

/-- A name that has a dot has a last one. -/
theorem exists_last_dot {l : List Char} (dotted : '.' ∈ l) : ∃ front back, l = front ++ '.' :: back ∧ '.' ∉ back := by
  obtain ⟨back, front, split, last⟩ := List.eq_append_cons_of_mem (List.mem_reverse.mpr dotted)
  refine ⟨front.reverse, back.reverse, ?_, mt List.mem_reverse.mp last⟩
  rw [← List.reverse_reverse l, split, List.reverse_append, List.reverse_cons, List.append_assoc, List.singleton_append]

end Stem

namespace FileSystem

section Named

variable {dir stem : String}

theorem withSuffix_join (plain : '/' ∉ stem.toList) (suffix : String) :
    withSuffix (joinPath dir stem) suffix = joinPath dir (fileStem (joinPath dir stem) ++ suffix) := by
  rw [withSuffix, parentPath_join plain]

theorem sc16_plain (plain : '/' ∉ stem.toList) : '/' ∉ (stem ++ ".sc16").toList := by
  rw [String.toList_append, List.mem_append]
  exact not_or.mpr ⟨plain, captureSuffixes_plain _ List.mem_cons_self⟩

theorem companionBase_join (plain : '/' ∉ stem.toList) (some_ : stem.toList ≠ []) :
    companionBase (joinPath dir (stem ++ ".sc16")) = joinPath dir stem := by
  have whole : fileStem (joinPath dir (stem ++ ".sc16")) = stem := by
    have split : (stem ++ ".sc16").toList = stem.toList ++ '.' :: ['s', 'c', '1', '6'] := String.toList_append
    rw [fileStem_dot (sc16_plain plain) split (by decide), if_pos ⟨by decide, some_⟩, String.ofList_toList]
  have suffix : suffixOf (joinPath dir (stem ++ ".sc16")) = ".sc16" := by
    rw [suffixOf, fileName_join (sc16_plain plain), whole, String.toList_append, List.drop_left, String.ofList_toList]
  rw [companionBase, if_pos suffix, withSuffix, whole, parentPath_join (sc16_plain plain), String.append_empty]

theorem mem_companionPaths (plain : '/' ∉ stem.toList) {path : String} :
    path ∈ companionPaths (joinPath dir (stem ++ ".sc16")) ↔
      ∃ suffix ∈ companionSuffixes, joinPath dir (stem ++ suffix) = path := by
  have list : companionPaths (joinPath dir (stem ++ ".sc16")) = companionSuffixes.map fun suffix =>
      joinPath dir (stem ++ suffix) := (List.cons.inj (companionPaths_join plain)).2
  rw [list, List.mem_map]

theorem companionSuffixes_dot : ∀ suffix ∈ companionSuffixes, '.' ∈ suffix.toList := by decide

/-- The `.psd` is among the companions only where nothing was cut off. -/
theorem whole_of_listed (plain : '/' ∉ stem.toList) (some_ : stem.toList ≠ [])
    (listed : (gridPaths (joinPath dir (stem ++ ".sc16"))).1 ∈ companionPaths (joinPath dir (stem ++ ".sc16"))) :
    fileStem (joinPath dir stem) = stem := by
  rw [gridPaths, companionBase_join plain some_, withSuffix_join plain] at listed
  obtain ⟨suffix, known, same⟩ := (mem_companionPaths plain).mp listed
  have same := congrArg String.toList (joinPath_inj same)
  by_cases dotted : '.' ∈ stem.toList
  · obtain ⟨front, back, split, last⟩ := exists_last_dot dotted
    rw [fileStem_dot plain split last] at same ⊢
    split_ifs at same ⊢
    · -- what follows the last dot of the stem would be `psd`, with a suffix inside
      have psd : ".psd".toList = '.' :: ['p', 's', 'd'] := by decide
      rw [String.toList_append, String.toList_append, split, String.toList_ofList, List.append_assoc, psd] at same
      have tail : back ++ suffix.toList = ['p', 's', 'd'] := (List.cons.inj (List.append_cancel_left same)).2
      have inside := List.mem_append_right back (companionSuffixes_dot suffix known)
      rw [tail] at inside
      exact absurd inside (by decide)
    · rfl
  · exact fileStem_dotless plain dotted

theorem named_iff (plain : '/' ∉ stem.toList) (some_ : stem.toList ≠ []) :
    (∀ p ∈ namedPaths (joinPath dir (stem ++ ".sc16")), p ∈ companionPaths (joinPath dir (stem ++ ".sc16"))) ↔
      fileStem (joinPath dir stem) = stem := by
  constructor
  · exact fun all => whole_of_listed plain some_ (all _ List.mem_cons_self)
  · intro whole p named
    rw [namedPaths, gridPaths, sidecarPath, sidecarMetaPath, companionBase_join plain some_, withSuffix_join plain,
      withSuffix_join plain, withSuffix_join plain, withSuffix_join plain, whole] at named
    refine (mem_companionPaths plain).mpr ?_
    simp only [List.mem_cons, List.not_mem_nil, or_false] at named
    obtain rfl | rfl | rfl | rfl := named
    · exact ⟨".psd", by decide, rfl⟩
    · exact ⟨".psd.json", by decide, rfl⟩
    · exact ⟨".detections.json", by decide, rfl⟩
    · exact ⟨".json", by decide, rfl⟩

end Named

section Recordings

variable {dir serial hostname time : String}

theorem recordingStem_toList : (recordingStem serial hostname time).toList =
    (serial ++ "-" ++ hostname).toList ++ '-' :: time.toList := by
  rw [recordingStem, String.toList_append, String.toList_append, List.append_assoc]
  rfl

theorem fileStem_undotted (undotted : Undotted (serial ++ "-" ++ hostname))
    (plain : '/' ∉ (recordingStem serial hostname time).toList) (dotless : '.' ∉ time.toList) :
    fileStem (joinPath dir (recordingStem serial hostname time)) = recordingStem serial hostname time := by
  by_cases dotted : '.' ∈ (serial ++ "-" ++ hostname).toList
  · obtain ⟨front, back, split, last⟩ := exists_last_dot dotted
    cases undotted front back split
    have whole : (recordingStem serial hostname time).toList = [] ++ '.' :: (back ++ '-' :: time.toList) := by
      rw [recordingStem_toList, split]
      rfl
    have last' : '.' ∉ back ++ '-' :: time.toList := by
      simp [last, dotless]
    rw [fileStem_dot plain whole last', if_neg fun both => both.2 rfl]
  · refine fileStem_dotless plain ?_
    rw [recordingStem_toList, List.mem_append]
    exact not_or.mpr ⟨dotted, by simp [dotless]⟩

/-- What is left of a dotted name has no time in it. -/
theorem fileStem_dotted (dotted : ¬ Undotted (serial ++ "-" ++ hostname)) :
    ∃ front : List Char, front.length < (serial ++ "-" ++ hostname).toList.length ∧ ∀ dir time : String,
      '/' ∉ (recordingStem serial hostname time).toList → '.' ∉ time.toList →
      fileStem (joinPath dir (recordingStem serial hostname time)) = String.ofList front := by
  simp only [Undotted, not_forall] at dotted
  obtain ⟨first, rest, at_, some_⟩ := dotted
  obtain ⟨front, back, split, last⟩ := exists_last_dot (l := (serial ++ "-" ++ hostname).toList)
    (at_ ▸ List.mem_append_right _ List.mem_cons_self)
  have some' : front ≠ [] := by
    rintro rfl
    obtain ⟨c, more, rfl⟩ := List.exists_cons_of_ne_nil some_
    have tail := (List.cons.inj (split.symm.trans at_)).2
    exact last (tail ▸ List.mem_append_right _ List.mem_cons_self)
  refine ⟨front, by rw [split, List.length_append, List.length_cons]; omega, fun dir time plain dotless => ?_⟩
  have whole : (recordingStem serial hostname time).toList = front ++ '.' :: (back ++ '-' :: time.toList) := by
    rw [recordingStem_toList, split, List.append_assoc, List.cons_append]
  have last' : '.' ∉ back ++ '-' :: time.toList := by
    simp [last, dotless]
  rw [fileStem_dot plain whole last', if_pos ⟨by simp, some'⟩]

/-- A sensor's captures have the companions that eviction deletes and the
footprint counts if its serial and its host name have no dot inside; with one,
all its captures of a directory share a single `.psd`. -/
theorem companions_agree_iff (dir serial hostname time : String) (plain : '/' ∉ (serial ++ "-" ++ hostname).toList)
    (ordinary : '/' ∉ time.toList ∧ '.' ∉ time.toList) :
    ((∀ p ∈ namedPaths (recordingPath dir serial hostname time),
      p ∈ companionPaths (recordingPath dir serial hostname time)) ↔ Undotted (serial ++ "-" ++ hostname)) ∧
      ∀ other : String, '/' ∉ other.toList ∧ '.' ∉ other.toList → other ≠ time →
        ((gridPaths (recordingPath dir serial hostname other)).1 = (gridPaths (recordingPath dir serial hostname time)).1 ↔
          ¬ Undotted (serial ++ "-" ++ hostname)) := by
  have plains : ∀ time : String, '/' ∉ time.toList → '/' ∉ (recordingStem serial hostname time).toList := by
    intro time slashless
    rw [recordingStem_toList, List.mem_append]
    exact not_or.mpr ⟨plain, by simp [slashless]⟩
  have some_ : ∀ time : String, (recordingStem serial hostname time).toList ≠ [] := fun time => by
    rw [recordingStem_toList]
    simp
  have grid : ∀ time : String, '/' ∉ time.toList →
      (gridPaths (recordingPath dir serial hostname time)).1 =
        joinPath dir (fileStem (joinPath dir (recordingStem serial hostname time)) ++ ".psd") := fun time slashless => by
    rw [gridPaths, recordingPath, companionBase_join (plains time slashless) (some_ time), withSuffix_join (plains time slashless)]
  refine ⟨?_, fun other ordinary' apart => ?_⟩
  · rw [recordingPath, named_iff (plains time ordinary.1) (some_ time)]
    refine ⟨fun whole => ?_, fun undotted => fileStem_undotted undotted (plains time ordinary.1) ordinary.2⟩
    by_contra dotted
    obtain ⟨front, shorter, cut⟩ := fileStem_dotted dotted
    have same := whole.symm.trans (cut dir time (plains time ordinary.1) ordinary.2)
    have length := congrArg (fun name => name.toList.length) same
    simp only [recordingStem_toList, List.length_append, String.toList_ofList] at length
    omega
  · rw [grid other ordinary'.1, grid time ordinary.1]
    constructor
    · intro shared undotted
      rw [fileStem_undotted undotted (plains time ordinary.1) ordinary.2,
        fileStem_undotted undotted (plains other ordinary'.1) ordinary'.2] at shared
      have same := congrArg String.toList (joinPath_inj shared)
      rw [String.toList_append, String.toList_append, List.append_cancel_right_eq, recordingStem_toList,
        recordingStem_toList, List.append_cancel_left_eq] at same
      exact apart (String.toList_inj.mp (List.cons.inj same).2)
    · intro dotted
      obtain ⟨front, -, cut⟩ := fileStem_dotted dotted
      rw [cut dir other (plains other ordinary'.1) ordinary'.2, cut dir time (plains time ordinary.1) ordinary.2]

theorem undotted_localDomain : ¬ Undotted "30AD2F1-nano.local" := fun undotted =>
  absurd (undotted "30AD2F1-nano".toList "local".toList (by decide)) (by decide)

/-- Under a host name with a domain two captures of one sensor have one `.psd`. -/
theorem companions_agree_iff_localDomain :
    (gridPaths (recordingPath "captures/auto" "30AD2F1" "nano.local" "20260101T000100")).1 =
      (gridPaths (recordingPath "captures/auto" "30AD2F1" "nano.local" "20260101T000000")).1 :=
  ((companions_agree_iff "captures/auto" "30AD2F1" "nano.local" "20260101T000000" (by decide) (by decide)).2
    "20260101T000100" (by decide) (by decide)).mpr undotted_localDomain

end Recordings

end FileSystem

end RFObserver
